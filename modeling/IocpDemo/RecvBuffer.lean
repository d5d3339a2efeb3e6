/-
**The one buffer of a context** (`SendPendingPacket`, `ReceivePacket`, `WorkThread`).

`RecvContext.RecvBuf` is written by incoming receives, cleared by `ReceivePacket`, read by the
worker thread that dispatches a completion, and used by `SendPendingPacket` as the place from which
it sends, on the two sender threads alike.  `SendPendingPacket` allocates an `OverlappedEx` with a
buffer of its own and does not use that buffer, and the lock of the context is never taken: what a
thread finds in the buffer is what was last written to it.

Main definitions:

* `IocpDemo.bufferTarget`, `IocpDemo.copyTarget` — the context whose buffer a step writes, and the
  one whose buffer a sender copies a packet to;
* `IocpDemo.writeTarget` — the context to whose buffer a step writes at least one byte;
* `IocpDemo.SparesUnread` — the condition on a step: no sender copies to the buffer of a context
  that has an unread completion;
* `IocpDemo.SparesUnsent` — the condition on a step: nobody writes to the buffer of a context
  between the copy and the `WSASend` of a sender.

Main results:

* `IocpDemo.dispatched_bytes_of_completion` — **inbound integrity under the first condition**;
* `IocpDemo.sent_bytes_of_packet` — **outbound integrity under the second condition**;
* `IocpDemo.send_overwrites_received`, `IocpDemo.broadcast_overwrites_unicast` — runs in which a
  sender overwrites what has been received, and what the other sender is about to send.
-/

import IocpDemo.Receives
import IocpDemo.WireFormat

set_option relaxedAutoImplicit false
set_option autoImplicit false

namespace IocpDemo

open Bytes Transition Wire

variable {cfg : Config} {s s' : Server} {n : ℕ}

/-! ### Who writes to the buffer of a context -/

/-- The receive buffer of a context. -/
def Server.bufAt (s : Server) (i : ℕ) : Option Mem := s.contexts[i]?.map ClientContext.recvBuf

/-- The context whose buffer a sender copies a packet to. -/
def copyTarget (s : Server) : Event → Option ℕ
  | .sendCopy =>
      match s.sendThread with
      | .copying p _ => some p.packetIndex.toNat
      | _ => none
  | .bcCopy =>
      match s.broadCastThread with
      | .copying _ i => some i
      | _ => none
  | _ => none

/-- The context whose buffer a step writes. -/
def bufferTarget (s : Server) : Event → Option ℕ
  | .acceptReceive _ =>
      match s.acceptThread with
      | .arming i _ => some i
      | _ => none
  | .workReceive w _ =>
      match s.workThreads[w]? with
      | some (.rearming c) => some c.key
      | _ => none
  | .completeRecv k _ _ => s.os.outstanding[k]?.map PendingRecv.buf
  | e => copyTarget s e

namespace Server

theorem bufAt_modify_of_ne {f : ClientContext → ClientContext} {i j : ℕ}
    (h : s'.contexts = s.contexts.modify i f) (hij : i ≠ j) : s'.bufAt j = s.bufAt j := by
  simp [bufAt, h, hij]

theorem bufAt_modify_self {f : ClientContext → ClientContext} {i : ℕ}
    (h : s'.contexts = s.contexts.modify i f) {g : Mem → Mem}
    (hf : ∀ c, (f c).recvBuf = g c.recvBuf) : s'.bufAt i = (s.bufAt i).map g := by
  simp only [bufAt, h, List.getElem?_modify_eq, Option.map_map]
  cases s.contexts[i]? <;> simp [hf]

end Server

/-- **Only the target's buffer changes.** -/
theorem step_bufAt {e : Event} (h : step cfg s e = some s') {i : ℕ}
    (hi : bufferTarget s e ≠ some i) : s'.bufAt i = s.bufAt i := by
  rcases step_contexts h with hc | ⟨j, f, hw, hc⟩
  · rw [Server.bufAt, Server.bufAt, hc]
  · by_cases hij : j = i
    · subst hij
      cases hw with
      | attach _ | forget _ | disconnect _ =>
          rw [Server.bufAt_modify_self hc (g := id) (fun _ => rfl), Option.map_id_fun, id]
      | acceptZero hpc | workZero hpc | sendCopy hpc | bcCopy hpc =>
          simp [bufferTarget, copyTarget, hpc] at hi
      | complete hr _ => simp [bufferTarget, hr] at hi
    · exact Server.bufAt_modify_of_ne hc hij

/-! ### What a completion has received -/

/-- The bytes of the completion are in the buffer of its context. -/
def Holds (s : Server) (c : Completion) : Prop :=
  ∃ m, s.bufAt c.key = some m ∧ m.read 0 c.data.length = c.data

/-- The completion is queued, or a worker thread is about to read its bytes. -/
def Unread (s : Server) (c : Completion) : Prop :=
  c ∈ s.os.completions ∨ ∃ w : ℕ, s.workThreads[w]? = some (.received c)

/-- A completion is queued by the step in which its receive completes. -/
theorem queued_of_step {e : Event} (h : step cfg s e = some s') {c : Completion}
    (hc : c ∈ s'.os.completions) :
    c ∈ s.os.completions ∨ ∃ (k : ℕ) (r : PendingRecv), e = .completeRecv k c.bSuccess c.data ∧
      s.os.outstanding[k]? = some r ∧ c.key = r.key := by
  cases hmoves : e.movesReceives with
  | false =>
      rw [((step_os h).receives hmoves).2] at hc
      exact Or.inl hc
  | true =>
      cases e with
      | acceptReceive pending =>
          obtain ⟨i, conn, -, hrecv⟩ := Server.acceptReceive_some h
          exact Or.inl (Server.receivePacket_completions hrecv ▸ hc)
      | workReceive w pending =>
          obtain ⟨c', -, hrecv⟩ := Server.workReceive_some h
          exact Or.inl (Server.receivePacket_completions hrecv ▸ hc)
      | getCompletion w =>
          obtain ⟨c', rest, -, hq, rfl⟩ := Server.getCompletion_some h
          rw [hq]
          exact Or.inl (List.mem_cons_of_mem _ hc)
      | completeRecv k bSuccess data =>
          obtain ⟨r, hr, -, -, rfl⟩ := Server.completeRecv_some h
          rcases List.mem_append.1 hc with hold | hnew
          · exact Or.inl hold
          · obtain rfl := List.mem_singleton.1 hnew
            exact Or.inr ⟨k, r, rfl, hr, rfl⟩
      | _ => cases hmoves

/-- A worker thread comes to read a completion by fetching it from the queue. -/
theorem received_of_step {e : Event} (h : step cfg s e = some s') {v : ℕ} {c : Completion}
    (hv : s'.workThreads[v]? = some (.received c)) : Unread s c := by
  rcases step_workThreads h with ⟨hsame, -⟩ | ⟨w, pc, pc', hmove, hpc, hset⟩
  · exact Or.inr ⟨v, hsame ▸ hv⟩
  · by_cases hvw : v = w
    · subst hvw
      have hlt : v < s.workThreads.length := (List.getElem?_eq_some_iff.1 hpc).1
      rw [hset, List.getElem?_set_self hlt] at hv
      obtain rfl : pc' = .received c := Option.some.inj hv
      generalize hpc' : WorkPc.received c = pc' at hmove
      cases hmove with
      | entered => split at hpc' <;> cases hpc'
      | @got _ c' _ hq =>
          rcases Server.afterCompletion_cases c' with hnext | hnext | hnext <;>
            rw [hnext] at hpc' <;> cases hpc'
          rw [Unread, hq]
          exact Or.inl List.mem_cons_self
      | _ => cases hpc'
    · -- another worker thread has moved
      rw [hset, List.getElem?_set_ne (Ne.symm hvw)] at hv
      exact Or.inr ⟨v, hv⟩

/-- The completions that are unread behind a step were unread before, but for the one that the step
adds. -/
theorem unread_of_step {e : Event} (h : step cfg s e = some s') {c : Completion}
    (hc : Unread s' c) :
    Unread s c ∨ ∃ (k : ℕ) (r : PendingRecv), e = .completeRecv k c.bSuccess c.data ∧
      s.os.outstanding[k]? = some r ∧ c.key = r.key := by
  rcases hc with hqueued | ⟨v, hv⟩
  · rcases queued_of_step h hqueued with hold | hnew
    · exact Or.inl (Or.inl hold)
    · exact Or.inr hnew
  · exact Or.inl (received_of_step h hv)

/-- The slot whose completion the worker thread is about to read. -/
def WorkPc.reading : WorkPc → Option ℕ
  | .received c => some c.key
  | _ => none

/-- The step is not one of `DisconnectSocket`, and it is not a sender copying a packet to the buffer
of a context that has an unread completion. -/
def SparesUnread (s : Server) (e : Event) : Prop :=
  e.thread ≠ .disconnect ∧ ∀ i ∈ copyTarget s e,
    (∀ c ∈ s.os.completions, c.key ≠ i) ∧ ∀ pc ∈ s.workThreads, pc.reading ≠ some i

instance (s : Server) (e : Event) : Decidable (SparesUnread s e) :=
  inferInstanceAs (Decidable (_ ∧ _))

theorem Unread.pos {c : Completion} (hc : Unread s c) :
    0 < s.os.completions.countP (fun c' => c'.key = c.key) +
      s.workThreads.countP (fun pc => pc.key = some c.key) := by
  rcases hc with hqueued | ⟨w, hw⟩
  · have hpos : 0 < s.os.completions.countP (fun c' => c'.key = c.key) :=
      List.countP_pos_iff.2 ⟨c, hqueued, by simp⟩
    omega
  · have hpos := Server.pos_countP_of_worker hw rfl
    omega

section OneReceive

variable {c : Completion}

/-- The slot of an unread completion is not the one the accept thread sets up. -/
theorem Unread.held_ne (hc : Unread s c) (hb : LoadBounded s) :
    s.acceptThread.held ≠ some c.key := by
  intro hheld
  have hpos := hc.pos
  have hone := hb.le_one c.key
  simp only [Server.load, Server.receives, Server.processing, if_pos hheld] at hone
  omega

/-- No receive is outstanding on it. -/
theorem Unread.outstanding_ne (hc : Unread s c) (hb : LoadBounded s) {r : PendingRecv}
    (hr : r ∈ s.os.outstanding) : r.key ≠ c.key := by
  intro hkey
  have hpos := hc.pos
  have hone := hb.le_one c.key
  have hout : 0 < s.os.outstanding.countP (fun r => r.key = c.key) :=
    List.countP_pos_iff.2 ⟨r, hr, by simpa using hkey⟩
  simp only [Server.load, Server.receives, Server.processing] at hone
  omega

/-- And no worker thread is about to issue one. -/
theorem Unread.rearming_ne (hc : Unread s c) (hb : LoadBounded s) {w : ℕ} {c' : Completion}
    (hpc : s.workThreads[w]? = some (.rearming c')) : c'.key ≠ c.key := by
  intro hkey
  have hone := hb.le_one c.key
  simp only [Server.load, Server.receives, Server.processing] at hone
  have hw := Server.pos_countP_of_worker hpc (congrArg some hkey)
  rcases hc with hqueued | ⟨v, hv⟩
  · have hq : 0 < s.os.completions.countP (fun c' => c'.key = c.key) :=
      List.countP_pos_iff.2 ⟨c, hqueued, by simp⟩
    omega
  · have hvw : v ≠ w := by
      rintro rfl
      rw [hpc] at hv
      cases hv
    have htwo := Server.two_le_countP_of_workers hv hpc hvw rfl (congrArg some hkey)
    omega

end OneReceive

/-- **Nobody writes to the buffer of an unread completion**: the slot has this one receive, so
neither a new receive nor a re-armed one is in the way; and the senders spare it. -/
theorem bufferTarget_ne_of_unread {e : Event} {c : Completion} (hs : Receives cfg n s)
    (hc : Unread s c) (hspares : SparesUnread s e) : bufferTarget s e ≠ some c.key := by
  intro htarget
  cases e with
  | acceptReceive pending =>
      cases hpc : s.acceptThread with
      | arming i conn =>
          obtain rfl : i = c.key := by simpa [bufferTarget, hpc] using htarget
          exact hc.held_ne hs.bounded (by rw [hpc]; rfl)
      | _ => simp [bufferTarget, hpc] at htarget
  | workReceive w pending =>
      cases hpc : s.workThreads[w]? with
      | none => simp [bufferTarget, hpc] at htarget
      | some pc =>
          cases pc with
          | rearming c' =>
              exact hc.rearming_ne hs.bounded hpc (by simpa [bufferTarget, hpc] using htarget)
          | _ => simp [bufferTarget, hpc] at htarget
  | completeRecv k bSuccess data =>
      obtain ⟨r, hr, hbuf⟩ := Option.map_eq_some_iff.1 htarget
      have hmem := List.mem_of_getElem? hr
      exact hc.outstanding_ne hs.bounded hmem (by rw [← hs.buf r hmem]; exact hbuf)
  -- the other events that write to a buffer are the copies of the senders
  | _ =>
      obtain ⟨hqueue, hwork⟩ := hspares.2 c.key htarget
      rcases hc with hqueued | ⟨w, hw⟩
      · exact hqueue c hqueued rfl
      · exact hwork _ (List.mem_of_getElem? hw) rfl

/-- The bytes of every unread completion are in the buffer of its context. -/
structure Intact (s : Server) : Prop where
  fits : ∀ c, Unread s c → c.data.length ≤ maxPacketBuf
  holds : ∀ c, Unread s c → Holds s c

theorem Intact.step {e : Event} (hi : Intact s) (h : step cfg s e = some s')
    (hspares : SparesUnread s e) (hs : Receives cfg n s) : Intact s' := by
  refine ⟨fun c hc => ?_, fun c hc => ?_⟩ <;>
    rcases unread_of_step h hc with hold | ⟨k, r, rfl, hr, hkey⟩
  · exact hi.fits c hold
  · obtain ⟨-, -, hlen, -, -⟩ := Server.completeRecv_some h
    exact hlen
  · obtain ⟨m, hm, hread⟩ := hi.holds c hold
    exact ⟨m, by rw [step_bufAt h (bufferTarget_ne_of_unread hs hold hspares)]; exact hm, hread⟩
  · -- the receive has just completed
    obtain ⟨r', hr', -, -, hs'⟩ := Server.completeRecv_some h
    obtain rfl : r = r' := Option.some.inj (hr.symm.trans hr')
    have hmem := List.mem_of_getElem? hr
    have hbuf : r.buf = c.key := by rw [hs.buf r hmem, hkey]
    have hctx : s'.contexts = s.contexts.modify c.key (·.completeRecv c.data) := by
      rw [hs', ← hbuf]
      rfl
    have hload : 0 < s.load c.key := by
      have hout : 0 < s.os.outstanding.countP (fun r => r.key = c.key) :=
        List.countP_pos_iff.2 ⟨r, hmem, by simpa using hkey.symm⟩
      simp only [Server.load, Server.receives]
      omega
    obtain ⟨sock, hsock⟩ := hs.bounded.exists_socket hload
    obtain ⟨ctx, hc', -⟩ := Option.bind_eq_some_iff.1 hsock
    refine ⟨ctx.recvBuf.write 0 c.data, ?_, Mem.read_write _ _ _⟩
    rw [Server.bufAt_modify_self hctx (g := fun m => m.write 0 c.data) (fun _ => rfl)]
    simp [Server.bufAt, hc']

/-! ### What is dispatched of a completion -/

/-- The bytes a worker thread reads in the buffer and dispatches: the header, and as much payload as
the header says. -/
def ClientContext.frameBytes (c : ClientContext) : List UInt8 :=
  c.recvBuf.read 0 sizeofPacketHeader ++
    payloadOf c (dataSizeOf (PacketHeader.ofMem c.recvBuf).packetSize)

/-- The packet size that the received bytes start with. -/
def packetSizeIn (data : List UInt8) : ℕ :=
  (PacketHeader.ofMem fun k => data.getD k 0).packetSize.toNat

/-- The received bytes start with a whole frame. -/
def StartsWithFrame (data : List UInt8) : Prop :=
  sizeofPacketHeader ≤ packetSizeIn data ∧ packetSizeIn data ≤ data.length

instance (data : List UInt8) : Decidable (StartsWithFrame data) :=
  inferInstanceAs (Decidable (_ ∧ _))

/-- **A buffer that holds the received bytes** is dispatched from them alone exactly when they start
with a whole frame. -/
theorem frameBytes_prefix_iff {c : ClientContext} {data : List UInt8}
    (hread : c.recvBuf.read 0 data.length = data) (hlen : data.length ≤ maxPacketBuf) :
    c.frameBytes <+: data ↔ StartsWithFrame data := by
  have hbytes : c.frameBytes = c.recvBuf.read 0
      (sizeofPacketHeader + (dataSizeOf (PacketHeader.ofMem c.recvBuf).packetSize).toNat) := by
    rw [Mem.read_add, Nat.zero_add]
    rfl
  have hmem := (Mem.read_eq_iff c.recvBuf 0 data).1 hread
  have hsize : 2 ≤ data.length →
      packetSizeIn data = (PacketHeader.ofMem c.recvBuf).packetSize.toNat := by
    intro h2
    have h0 := hmem 0 (by omega)
    have h1 := hmem 1 (by omega)
    simp only [Nat.zero_add] at h0 h1
    simp only [packetSizeIn, PacketHeader.ofMem, Mem.u16, h0, h1, Nat.zero_add]
  have hlt := (PacketHeader.ofMem c.recvBuf).packetSize.toNat_lt
  rw [hbytes, toNat_dataSizeOf]
  simp only [StartsWithFrame, sizeofPacketHeader, maxPacketBuf] at *
  constructor
  · intro hprefix
    have hle := hprefix.length_le
    rw [Mem.length_read] at hle
    rw [hsize (by omega)]
    omega
  · rintro ⟨h4, hle⟩
    have h2 : 2 ≤ data.length := by omega
    rw [hsize h2] at h4 hle
    have hprefix := Mem.read_prefix c.recvBuf 0
      (show 4 + ((PacketHeader.ofMem c.recvBuf).packetSize.toNat + 65532) % 65536 ≤ data.length by
        omega)
    rwa [hread] at hprefix

/-- **Inbound integrity.**  In a run without `DisconnectSocket` in which no sender copies a packet
to the buffer of a context with an unread completion, a worker thread that is about to read a
completion finds exactly its bytes; and what it dispatches is part of them exactly when they start
with a whole frame. -/
theorem dispatched_bytes_of_completion {mem : ℕ → Mem} {workers : ℕ}
    (h : Reach (step cfg) SparesUnread (initServer mem n workers) s) {w : ℕ} {c : Completion}
    (hpc : s.workThreads[w]? = some (.received c)) :
    ∃ ctx, s.contexts[c.key]? = some ctx ∧ ctx.recvBuf.read 0 c.data.length = c.data ∧
      (ctx.frameBytes <+: c.data ↔ StartsWithFrame c.data) := by
  have hs : ∀ t, Reach (step cfg) SparesUnread (initServer mem n workers) t → Receives cfg n t :=
    fun t ht => Receives.of_reach (fun _ _ hP => hP.1) ht
  have hinit : Intact (initServer mem n workers) := by
    have hnone : ∀ c, ¬ Unread (initServer mem n workers) c := by
      rintro c (hq | ⟨w, hw⟩)
      · cases hq
      · simp [initServer, List.getElem?_replicate] at hw
    exact ⟨fun c hc => absurd hc (hnone c), fun c hc => absurd hc (hnone c)⟩
  have hintact : Intact s :=
    h.and_invariant hs hinit fun _ _ _ ht _ hi hP hstep => hi.step hstep hP ht
  have hunread : Unread s c := Or.inr ⟨w, hpc⟩
  obtain ⟨m, hm, hread⟩ := hintact.holds c hunread
  obtain ⟨ctx, hctx, rfl⟩ := Option.map_eq_some_iff.1 hm
  exact ⟨ctx, hctx, hread, frameBytes_prefix_iff hread (hintact.fits c hunread)⟩

/-- A run in which the packet for a new client is copied to its buffer, and sent from there, before
the client's frame arrives. -/
theorem frame_dispatched_intact :
    ∃ s c ctx, Reach (step wireConfig) SparesUnread (wireServer 1) s ∧
      s.workThreads[0]? = some (.received c) ∧ c.data = [6, 0, 6, 0, 9, 9] ∧
      s.contexts[c.key]? = some ctx ∧ ctx.frameBytes <+: c.data := by
  obtain ⟨s, hreach, hpc⟩ := Reach.exists_of_runIf (step wireConfig) SparesUnread
    (wireServer 1)
    (.scanSlot :: acceptEvents 7 ++ sendEvents ++
      [.completeRecv 0 true [6, 0, 6, 0, 9, 9], .workTop 0, .getCompletion 0])
    (fun s => s.workThreads[0]?) (x := some (.received ⟨0, true, [6, 0, 6, 0, 9, 9], 0⟩))
    (by decide +kernel)
  obtain ⟨ctx, hctx, -, hiff⟩ := dispatched_bytes_of_completion hreach hpc
  exact ⟨s, _, ctx, hreach, hpc, rfl, hctx, hiff.2 (by decide +kernel)⟩

/-- **A sender overwrites what has been received**: the packet for the client is copied between the
completion and its dispatch, and the worker thread dispatches the packet instead of the frame. -/
theorem send_overwrites_received :
    ∃ s c ctx, Reach (step wireConfig) (fun _ e => e.thread ≠ .disconnect)
        (wireServer 1) s ∧
      s.workThreads[0]? = some (.received c) ∧ StartsWithFrame c.data ∧
      s.contexts[c.key]? = some ctx ∧ ¬ ctx.frameBytes <+: c.data := by
  obtain ⟨s, hreach, hfacts⟩ := Reach.exists_of_runIf (step wireConfig)
    (fun _ e => e.thread ≠ .disconnect) (wireServer 1)
    (.scanSlot :: acceptEvents 7 ++ [.sendTop, .popPacket, .sendPacket,
      .completeRecv 0 true [6, 0, 6, 0, 9, 9], .sendCopy, .workTop 0, .getCompletion 0])
    (fun s => (s.workThreads[0]?, s.contexts[0]?.map ClientContext.frameBytes))
    (x := (some (.received ⟨0, true, [6, 0, 6, 0, 9, 9], 0⟩), some [4, 0, 0, 0]))
    (by decide +kernel)
  obtain ⟨hpc, hframe⟩ := Prod.mk.inj hfacts
  obtain ⟨ctx, hctx, hbytes⟩ := Option.map_eq_some_iff.1 hframe
  exact ⟨s, _, ctx, hreach, hpc, by decide +kernel, hctx, by rw [hbytes]; decide⟩

/-! ### What is sent of a packet -/

/-- The packets that have been copied to a context's buffer and not yet sent from there. -/
def Server.unsent (s : Server) : List (ℕ × PacketBuffer) :=
  (match s.sendThread with
    | .sending p _ => [(p.packetIndex.toNat, p)]
    | _ => []) ++
  (match s.broadCastThread with
    | .sending p i => [(i, p)]
    | _ => [])

/-- The context to whose buffer a step writes at least one byte: a receive that completes without
bytes writes none. -/
def writeTarget (s : Server) : Event → Option ℕ
  | .completeRecv _ _ [] => none
  | e => bufferTarget s e

/-- The step does not write to a buffer from which a sender is about to send. -/
def SparesUnsent (s : Server) (e : Event) : Prop :=
  ∀ i ∈ writeTarget s e, ∀ entry ∈ s.unsent, entry.1 ≠ i

instance (s : Server) (e : Event) : Decidable (SparesUnsent s e) :=
  inferInstanceAs (Decidable (∀ i ∈ writeTarget s e, ∀ entry ∈ s.unsent, entry.1 ≠ i))

/-- A buffer changes only when something is written to it. -/
theorem step_bufAt_of_writeTarget {e : Event} (h : step cfg s e = some s') {i : ℕ}
    (hi : writeTarget s e ≠ some i) : s'.bufAt i = s.bufAt i := by
  cases e with
  | completeRecv k bSuccess data =>
      cases data with
      | cons b data => exact step_bufAt h hi
      | nil =>
          obtain ⟨r, -, -, -, hs'⟩ := Server.completeRecv_some h
          have hcontexts : s'.contexts = s.contexts.modify r.buf (·.completeRecv []) := by
            rw [hs']
            rfl
          by_cases hij : r.buf = i
          · subst hij
            rw [Server.bufAt_modify_self hcontexts (g := id) fun c => Mem.write_nil c.recvBuf,
              Option.map_id_fun, id]
          · exact Server.bufAt_modify_of_ne hcontexts hij
  | _ => exact step_bufAt h hi

theorem Server.mem_unsent_iff {entry : ℕ × PacketBuffer} : entry ∈ s.unsent ↔
    (∃ conn, s.sendThread = .sending entry.2 conn ∧ entry.1 = entry.2.packetIndex.toNat) ∨
      s.broadCastThread = .sending entry.2 entry.1 := by
  obtain ⟨i, p⟩ := entry
  rw [unsent, List.mem_append]
  refine or_congr ?_ ?_
  · cases s.sendThread with
    | sending q conn =>
        simp only [List.mem_singleton, Prod.mk.injEq, SendPc.sending.injEq]
        constructor
        · rintro ⟨rfl, rfl⟩
          exact ⟨conn, ⟨rfl, rfl⟩, rfl⟩
        · rintro ⟨conn', ⟨rfl, -⟩, hi⟩
          exact ⟨hi, rfl⟩
    | _ => simp
  · cases s.broadCastThread with
    | sending q j => simp [and_comm, eq_comm]
    | _ => simp

/-- `SendThread` comes to `WSASend` by copying the packet. -/
theorem sending_of_step {e : Event} (h : step cfg s e = some s') {p : PacketBuffer} {conn : ℕ}
    (hpc : s'.sendThread = .sending p conn) :
    s.sendThread = .sending p conn ∨ e = .sendCopy ∧ s.sendThread = .copying p conn := by
  rcases step_sendThread h with ⟨hsame, -⟩ | hmove
  · exact Or.inl (hsame ▸ hpc)
  · rw [hpc] at hmove
    generalize hpc' : SendPc.sending p conn = pc at hmove
    cases hmove with
    | @copied q conn' hcopy =>
        obtain ⟨rfl, rfl⟩ := SendPc.sending.inj hpc'
        exact Or.inr ⟨rfl, hcopy⟩
    | entered _ => split at hpc' <;> cases hpc'
    | @tested q conn' _ =>
        rcases Server.sendNext_cases s.contexts q conn' with hnext | hnext | hnext <;>
          rw [hnext] at hpc' <;> cases hpc'
    | _ => cases hpc'

/-- And so does `SendBroadCastThread`. -/
theorem bcSending_of_step {e : Event} (h : step cfg s e = some s') {p : PacketBuffer} {i : ℕ}
    (hpc : s'.broadCastThread = .sending p i) :
    s.broadCastThread = .sending p i ∨ e = .bcCopy ∧ s.broadCastThread = .copying p i := by
  rcases step_broadCastThread h with ⟨hsame, -⟩ | hmove
  · exact Or.inl (hsame ▸ hpc)
  · rw [hpc] at hmove
    generalize hpc' : BroadCastPc.sending p i = pc at hmove
    cases hmove with
    | @copied q j hcopy =>
        obtain ⟨rfl, rfl⟩ := BroadCastPc.sending.inj hpc'
        exact Or.inr ⟨rfl, hcopy⟩
    | entered _ => split at hpc' <;> cases hpc'
    | @tested q j _ =>
        rcases Server.bcNext_cases s.contexts q j with hnext | hnext | hnext <;>
          rw [hnext] at hpc' <;> cases hpc'
    | sent _ => split at hpc' <;> cases hpc'
    | _ => cases hpc'

/-- The packets that are unsent behind a step were unsent before, but for the one that the step
copies. -/
theorem unsent_of_step {e : Event} (h : step cfg s e = some s') {entry : ℕ × PacketBuffer}
    (hentry : entry ∈ s'.unsent) : entry ∈ s.unsent ∨
      s'.bufAt entry.1 = (s.bufAt entry.1).map (·.write 0 entry.2.bytes) := by
  rcases Server.mem_unsent_iff.1 hentry with ⟨conn, hpc, hi⟩ | hpc
  · rcases sending_of_step h hpc with hold | ⟨rfl, hcopy⟩
    · exact Or.inl (Server.mem_unsent_iff.2 (Or.inl ⟨conn, hold, hi⟩))
    · obtain ⟨p, conn', hpc', hs'⟩ := Server.sendCopy_some h
      obtain ⟨rfl, -⟩ := SendPc.copying.inj (hcopy.symm.trans hpc')
      rw [hi]
      exact Or.inr (Server.bufAt_modify_self (by rw [hs']; rfl) fun _ => rfl)
  · rcases bcSending_of_step h hpc with hold | ⟨rfl, hcopy⟩
    · exact Or.inl (Server.mem_unsent_iff.2 (Or.inr hold))
    · obtain ⟨p, i, hpc', hs'⟩ := Server.bcCopy_some h
      obtain ⟨rfl, rfl⟩ := BroadCastPc.copying.inj (hcopy.symm.trans hpc')
      exact Or.inr (Server.bufAt_modify_self (by rw [hs']; rfl) fun _ => rfl)

/-- The buffers from which a packet is about to be sent hold the packet. -/
def Staged (s : Server) : Prop :=
  ∀ entry ∈ s.unsent, ∀ m, s.bufAt entry.1 = some m →
    m.read 0 entry.2.bufferSize.toNat = entry.2.bytes

theorem Staged.step {e : Event} (hs : Staged s) (h : step cfg s e = some s')
    (hspares : SparesUnsent s e) : Staged s' := by
  intro entry hentry m hm
  rcases unsent_of_step h hentry with hold | hcopied
  · have htarget : writeTarget s e ≠ some entry.1 := fun htarget =>
      hspares entry.1 htarget entry hold rfl
    rw [step_bufAt_of_writeTarget h htarget] at hm
    exact hs entry hold m hm
  · rw [hcopied] at hm
    obtain ⟨m', -, rfl⟩ := Option.map_eq_some_iff.1 hm
    rw [← PacketBuffer.length_bytes]
    exact Mem.read_write m' 0 entry.2.bytes

/-- **Outbound integrity.**  In a run in which nobody writes to a buffer from which a sender is
about to send, both sender threads hand to the socket the bytes of the packet they were called
with. -/
theorem sent_bytes_of_packet {mem : ℕ → Mem} {workers : ℕ}
    (h : Reach (step cfg) SparesUnsent (initServer mem n workers) s) {i : ℕ} {p : PacketBuffer}
    (hsend : (i, p) ∈ s.unsent) {ctx : ClientContext} (hctx : s.contexts[i]? = some ctx) :
    ctx.bytesToSend p.bufferSize.toNat = p.bytes := by
  have hinit : Staged (initServer mem n workers) := by
    intro entry hentry
    cases hentry
  have hstaged : Staged s := h.invariant hinit fun _ _ _ hi hP hstep => hi.step hstep hP
  exact hstaged (i, p) hsend ctx.recvBuf (by simp [Server.bufAt, hctx])

/-- A run in which the packet for a new client is about to be sent. -/
theorem greeting_sent_intact :
    ∃ s ctx p, Reach (step wireConfig) SparesUnsent (wireServer 1) s ∧
      s.unsent = [(0, p)] ∧ s.contexts[0]? = some ctx ∧
      ctx.bytesToSend p.bufferSize.toNat = p.bytes := by
  obtain ⟨s, hreach, hfacts⟩ := Reach.exists_of_runIf (step wireConfig) SparesUnsent
    (wireServer 1)
    (.scanSlot :: acceptEvents 7 ++ [.sendTop, .popPacket, .sendPacket, .sendCopy])
    (fun s => (s.unsent.map Prod.fst, s.contexts.length)) (x := ([0], 1)) (by decide +kernel)
  obtain ⟨hunsent, hlen⟩ := Prod.mk.inj hfacts
  obtain ⟨⟨i, p⟩, rest, heq, rfl, hrest⟩ := List.map_eq_cons_iff.1 hunsent
  obtain rfl := List.map_eq_nil_iff.1 hrest
  obtain ⟨ctx, hctx⟩ := Server.exists_context (s := s) (i := 0) (by omega)
  exact ⟨s, ctx, p, hreach, heq, hctx, sent_bytes_of_packet hreach (by rw [heq]; simp) hctx⟩

/-- **The broadcast overwrites the unicast**: both sender threads have copied a packet to the buffer
of the same context, and `SendThread` is about to send four bytes of the other one's packet. -/
theorem broadcast_overwrites_unicast :
    ∃ s i p ctx, Reach (step wireConfig) (fun _ _ => True)
        (wireServer 1) s ∧
      (i, p) ∈ s.unsent ∧ s.contexts[i]? = some ctx ∧ p.bytes = [4, 0, 0, 0] ∧
      ctx.bytesToSend p.bufferSize.toNat = [8, 0, 5, 0] := by
  obtain ⟨s, hreach, hfacts⟩ := Reach.exists_of_run (step wireConfig)
    (wireServer 1)
    (.scanSlot :: acceptEvents 7 ++ serveEvents [8, 0, 6, 0, 10, 2, 8, 5] ++
      [.sendTop, .popPacket, .sendPacket, .bcTop, .popBCPacket, .bcTest, .sendCopy, .bcCopy])
    (fun s => s.unsent.map fun entry => (entry.1, entry.2.bytes,
      s.contexts[entry.1]?.map (·.bytesToSend entry.2.bufferSize.toNat)))
    (x := [(0, [4, 0, 0, 0], some [8, 0, 5, 0]),
      (0, [8, 0, 5, 0, 10, 2, 8, 5], some [8, 0, 5, 0, 10, 2, 8, 5])]) (by decide +kernel)
  obtain ⟨⟨i, p⟩, rest, heq, hfirst, -⟩ := List.map_eq_cons_iff.1 hfacts
  obtain ⟨rfl, hbytes, hsent⟩ : i = 0 ∧ p.bytes = [4, 0, 0, 0] ∧
      s.contexts[i]?.map (·.bytesToSend p.bufferSize.toNat) = some [8, 0, 5, 0] := by
    simpa using hfirst
  obtain ⟨ctx, hctx, hsent⟩ := Option.map_eq_some_iff.1 hsent
  exact ⟨s, 0, p, ctx, hreach, by rw [heq]; simp, hctx, hbytes, hsent⟩

end IocpDemo
