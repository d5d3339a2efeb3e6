/-
**The open sockets are those that the server holds** (`AcceptThread`, `WorkThread`, `CloseSocket`).

A socket that the operating system opens for a client must not get lost: it has to be closed by
somebody, and before that somebody has to know it.  The accept thread has the new socket in its
hands until it is attached to a slot; then the slot has it, until a worker thread has closed it.  In
between nothing is dropped and nothing is kept by two.  So a server with `n` slots never has more
than `n` client sockets open, however many clients have come and gone.

Main definitions:

* `IocpDemo.AcceptPc.newSocket` — the socket in the hands of the accept thread;
* `IocpDemo.Server.heldAt`, `IocpDemo.Server.heldSockets` — the sockets that the slots and the
  accept thread hold, each with the connection that it is held for;
* `IocpDemo.OpenSockets` — the invariant.

Main results:

* `IocpDemo.open_sockets_are_held` — **the open sockets are the held ones, each once, and are at
  most as many as there are slots**.
-/

import IocpDemo.Sessions
import Mathlib.Data.List.Nodup

set_option relaxedAutoImplicit false
set_option autoImplicit false

namespace IocpDemo

open Bytes Transition Wire

variable {cfg : Config} {s s' : Server} {n i : ℕ} {e : Event} {x : Socket × ℕ}

/-! ### What is held -/

/-- The socket that `WSAAccept` has returned and that is not attached yet. -/
def AcceptPc.newSocket : AcceptPc → Option (Socket × ℕ)
  | .connecting _ sock conn => some (sock, conn)
  | _ => none

namespace Server

/-- The socket of the slot with its connection; one that is about to be forgotten has been
closed. -/
def heldAt (s : Server) (i : ℕ) : Option (Socket × ℕ) :=
  if s.Forgetting i then none else (s.socketAt i).map fun sock => (sock, s.history.occupant i)

/-- **The sockets that the server holds.** -/
def heldSockets (s : Server) : List (Socket × ℕ) :=
  s.acceptThread.newSocket.toList ++ (List.range s.contexts.length).filterMap s.heldAt

theorem heldAt_eq_some : s.heldAt i = some x ↔
    ¬ s.Forgetting i ∧ s.socketAt i = some x.1 ∧ s.history.occupant i = x.2 := by
  obtain ⟨sock, conn⟩ := x
  by_cases hf : s.Forgetting i <;> simp [heldAt, hf]

theorem connected_of_heldAt (h : s.heldAt i = some x) : s.Connected i := by
  obtain ⟨-, hsock, -⟩ := heldAt_eq_some.1 h
  exact connected_iff.2 ⟨_, hsock⟩

theorem newSocket_eq_some : s.acceptThread.newSocket = some x ↔
    ∃ i, s.acceptThread = .connecting i x.1 x.2 := by
  obtain ⟨sock, conn⟩ := x
  constructor
  · intro h
    cases hpc : s.acceptThread with
    | connecting i y c =>
        rw [hpc] at h
        cases h
        exact ⟨i, rfl⟩
    | _ => rw [hpc] at h; cases h
  · rintro ⟨i, hpc⟩
    rw [hpc]
    rfl

theorem mem_heldSockets : x ∈ s.heldSockets ↔
    s.acceptThread.newSocket = some x ∨ ∃ i, s.heldAt i = some x := by
  rw [heldSockets, List.mem_append, Option.mem_toList, List.mem_filterMap]
  refine or_congr_right ⟨?_, ?_⟩
  · rintro ⟨i, -, hi⟩
    exact ⟨i, hi⟩
  · rintro ⟨i, hi⟩
    obtain ⟨ctx, hctx, -⟩ := Option.bind_eq_some_iff.1 (heldAt_eq_some.1 hi).2.1
    exact ⟨i, List.mem_range.2 (lt_of_context hctx), hi⟩

end Server

/-- A connection is held in one place. -/
theorem Slots.nodup_held (hs : Slots cfg n s) : s.heldSockets.Nodup := by
  obtain ⟨log, hclosing⟩ := hs.closing
  have hocc := hclosing.occupancy
  rw [Server.heldSockets, List.nodup_append']
  refine ⟨?_, List.nodup_range.filterMap fun i j x hi hj => ?_, ?_⟩
  · cases s.acceptThread.newSocket <;> simp
  · -- two slots with the same occupant are one slot
    refine hocc.inj i j (Server.connected_of_heldAt hi) (Server.connected_of_heldAt hj) ?_
    rw [(Server.heldAt_eq_some.1 hi).2.2, (Server.heldAt_eq_some.1 hj).2.2]
  · -- the new connection occupies no slot yet
    intro x hnew hslot
    obtain ⟨j, hpc⟩ := Server.newSocket_eq_some.1 (Option.mem_toList.1 hnew)
    obtain ⟨i, -, hi⟩ := List.mem_filterMap.1 hslot
    exact (hocc.incoming _ _ _ hpc).2 i (Server.connected_of_heldAt hi)
      (Server.heldAt_eq_some.1 hi).2.2

/-- The slot that is chosen for the new socket is free, so there is room for it. -/
theorem SlotTable.length_heldSockets_le (hs : SlotTable n s) : s.heldSockets.length ≤ n := by
  rw [Server.heldSockets, List.length_append, hs.length]
  have hle : ((List.range n).filterMap s.heldAt).length ≤ n := by
    simpa using List.length_filterMap_le s.heldAt (List.range n)
  cases hnew : s.acceptThread.newSocket with
  | none => simpa using hle
  | some x =>
      obtain ⟨j, hpc⟩ := Server.newSocket_eq_some.1 hnew
      obtain ⟨hj, hfree⟩ := hs.chosen_free j (by rw [hpc]; rfl)
      have hnone : s.heldAt j = none := by
        rw [Server.heldAt, hfree]
        split <;> rfl
      have hlt : ((List.range n).filterMap s.heldAt).length < (List.range n).length :=
        List.length_filterMap_lt_length_iff_exists.2
          ⟨j, List.mem_range.2 (hs.length ▸ hj), hnone⟩
      rw [List.length_range] at hlt
      rw [Option.toList_some, List.length_singleton]
      omega

/-! ### What a step does to it -/

/-- The accept thread keeps its new socket until it attaches it. -/
theorem newSocket_of_step (h : step cfg s e = some s') (he : e ≠ .connectClient)
    (hnew : s.acceptThread.newSocket = some x) : s'.acceptThread.newSocket = some x := by
  rcases step_acceptThread h with ⟨hsame, -⟩ | hmove
  · exact hsame ▸ hnew
  · generalize s'.acceptThread = pc at hmove
    cases hmove with
    | attached _ => exact absurd rfl he
    | scanned hpc | failed hpc | accepted hpc _ _ | kept hpc _ _ | dropped hpc _ _ | counted hpc
    | greeted hpc _ | armed hpc =>
        rw [hpc] at hnew
        cases hnew

/-- Only behind `closesocket` a socket is about to be forgotten. -/
theorem forgetting_of_not (h : step cfg s e = some s') (hf : ¬ s.Forgetting i)
    (hf' : s'.Forgetting i) :
    ∃ w c, e = .closeSocket w ∧ s.workThreads[w]? = some (.closing c) ∧ c.key = i := by
  obtain ⟨v, c, hpc', hkey⟩ := hf'
  rcases step_workThreads h with ⟨hsame, -⟩ | ⟨w, pc, pc', hmove, hpc, hset⟩
  · exact absurd ⟨v, c, hsame ▸ hpc', hkey⟩ hf
  · by_cases hvw : w = v
    · subst hvw
      have hw : w < s.workThreads.length := (List.getElem?_eq_some_iff.1 hpc).1
      rw [hset, List.getElem?_set_self hw] at hpc'
      obtain rfl := Option.some.inj hpc'
      generalize hpcf : WorkPc.forgetting c = pc' at hmove
      cases hmove with
      | @closed _ d =>
          obtain rfl := WorkPc.forgetting.inj hpcf
          exact ⟨w, c, rfl, hpc, hkey⟩
      | entered => split at hpcf <;> cases hpcf
      | @got _ d _ _ =>
          rcases Server.afterCompletion_cases d with hnext | hnext | hnext <;>
            rw [hnext] at hpcf <;> cases hpcf
      | _ => cases hpcf
    · rw [hset, List.getElem?_set_ne hvw] at hpc'
      exact absurd ⟨v, c, hpc', hkey⟩ hf

/-- A slot keeps its socket until a worker thread closes it. -/
theorem heldAt_of_step (ht : SlotTable n s) (h : step cfg s e = some s')
    (hno : e.thread ≠ .disconnect) (hi : s.heldAt i = some x) :
    s'.heldAt i = some x ∨
      ∃ w c, e = .closeSocket w ∧ s.workThreads[w]? = some (.closing c) ∧ c.key = i := by
  have hconn := Server.connected_of_heldAt hi
  obtain ⟨hf, hsock, hocc⟩ := Server.heldAt_eq_some.1 hi
  by_cases hf' : s'.Forgetting i
  · exact Or.inr (forgetting_of_not h hf hf')
  · left
    refine Server.heldAt_eq_some.2 ⟨hf', ?_, by rw [occupant_of_connected h ht hconn, hocc]⟩
    have hfoot := step_socketAt h i
    generalize s'.socketAt i = y at hfoot
    cases hfoot with
    | same => exact hsock
    | attached _ hpc =>
        have hfree := ht.chosen_free i (by rw [hpc]; rfl)
        exact absurd hconn (Server.not_connected_iff.2 hfree.2)
    | forgotten hforgets =>
        rcases hforgets with ⟨w, c, -, hpc, hkey⟩ | ⟨k, rfl, -⟩
        · exact absurd ⟨w, c, hpc, hkey⟩ hf
        · exact absurd rfl hno

/-- A socket that is open behind a step is held there, or was open before and has not been
closed by a worker thread. -/
theorem mem_sockets_of_step (h : step cfg s e = some s') (hno : e.thread ≠ .disconnect)
    (hx : x ∈ s'.os.sockets) :
    s'.acceptThread.newSocket = some x ∨
      x ∈ s.os.sockets ∧ ∀ w c, e = .closeSocket w → s.workThreads[w]? = some (.closing c) →
        s.socketAt c.key ≠ some x.1 := by
  cases e with
  | wsaAccept r =>
      cases r with
      | none => exact Or.inr ⟨((step_os h).sockets rfl).1 ▸ hx, by simp⟩
      | some sock =>
          obtain ⟨j, -, -, -, rfl⟩ := Server.wsaAccept_some_some h
          rcases List.mem_append.1 hx with hold | hnew
          · exact Or.inr ⟨hold, by simp⟩
          · obtain rfl := List.mem_singleton.1 hnew
            exact Or.inl rfl
  | connectClient =>
      obtain ⟨j, sock, conn, -, rfl⟩ := Server.connectClient_some h
      exact Or.inr ⟨hx, by simp⟩
  | checkConnected =>
      obtain ⟨j, sock, conn, c, -, -, ⟨-, rfl⟩ | ⟨-, rfl⟩⟩ := Server.checkConnected_some h
      · exact Or.inr ⟨hx, by simp⟩
      · exact Or.inr ⟨(List.mem_filter.1 hx).1, by simp⟩
  | closeSocket w =>
      obtain ⟨c, ctx, hpc, hctx, rfl⟩ := Server.closeSocket_some h
      obtain ⟨hold, hne⟩ := List.mem_filter.1 hx
      refine Or.inr ⟨hold, fun v d hv hd => ?_⟩
      obtain rfl := Event.closeSocket.inj hv
      obtain rfl : c = d := by simpa [hpc] using hd
      rw [Server.socketAt_eq hctx]
      exact fun heq => (of_decide_eq_true hne) heq.symm
  | disconnect j => exact absurd rfl hno
  | _ => exact Or.inr ⟨((step_os h).sockets rfl).1 ▸ hx, by simp⟩

/-! ### The invariant -/

/-- **No open socket is lost.** -/
structure OpenSockets (cfg : Config) (n : ℕ) (s : Server) : Prop where
  slots : Slots cfg n s
  held : ∀ x ∈ s.os.sockets, x ∈ s.heldSockets
  handles : (s.os.sockets.map Prod.fst).Nodup

namespace OpenSockets

theorem init (mem : ℕ → Mem) (n workers : ℕ) : OpenSockets cfg n (initServer mem n workers) where
  slots := Slots.init mem n workers
  held x hx := by cases hx
  handles := List.nodup_nil

/-- `ConnectClient` puts the new socket into its slot, which nobody is about to free. -/
theorem heldAt_of_connect (hs : Slots cfg n s) (h : s.connectClient = some s')
    (hnew : s.acceptThread.newSocket = some x) : ∃ i, s'.heldAt i = some x := by
  obtain ⟨i, hpc⟩ := Server.newSocket_eq_some.1 hnew
  obtain ⟨j, sock, conn, hpc', hs'⟩ := Server.connectClient_some h
  obtain ⟨rfl, hsock, hconn⟩ := AcceptPc.connecting.inj (hpc.symm.trans hpc')
  obtain ⟨hlt, hfree⟩ := hs.receives.table.chosen_free i (by rw [hpc]; rfl)
  refine ⟨i, Server.heldAt_eq_some.2 ⟨fun hf' => ?_, ?_, ?_⟩⟩
  · -- a slot that is about to be forgotten still has its socket
    have hstep : IocpDemo.step cfg s .connectClient = some s' := h
    rw [Handles.forgetting_of_step hstep i (by simp) (by simp)] at hf'
    obtain ⟨w, c, hworker, rfl⟩ := hf'
    obtain ⟨y, hy⟩ := hs.receives.bounded.exists_socket_of_worker hworker rfl
    rw [hfree] at hy
    cases hy
  · rw [hsock]
    exact Server.socketAt_modify_self (by rw [hs']; rfl) (fun _ => rfl) hlt
  · rw [hconn, hs']
    exact Function.update_self ..

theorem held_step (hs : OpenSockets cfg n s) (h : IocpDemo.step cfg s e = some s')
    (hno : e.thread ≠ .disconnect) : ∀ x ∈ s'.os.sockets, x ∈ s'.heldSockets := by
  intro x hx
  rw [Server.mem_heldSockets]
  rcases mem_sockets_of_step h hno hx with hnew | ⟨hold, hopen⟩
  · exact Or.inl hnew
  · rcases Server.mem_heldSockets.1 (hs.held x hold) with hnew | ⟨i, hi⟩
    · by_cases he : e = .connectClient
      · subst he
        exact Or.inr (heldAt_of_connect hs.slots h hnew)
      · exact Or.inl (newSocket_of_step h he hnew)
    · right
      rcases heldAt_of_step hs.slots.receives.table h hno hi with hi' | ⟨w, c, he, hpc, rfl⟩
      · exact ⟨i, hi'⟩
      · exact absurd (Server.heldAt_eq_some.1 hi).2.1 (hopen w c he hpc)

theorem handles_step (hs : OpenSockets cfg n s) (h : IocpDemo.step cfg s e = some s')
    (hno : e.thread ≠ .disconnect) : (s'.os.sockets.map Prod.fst).Nodup := by
  have hclosed : ∀ y, ((s.os.close y).sockets.map Prod.fst).Nodup := by
    intro y
    have hsub := (List.filter_sublist
      (p := fun entry : Socket × ℕ => some entry.1 ≠ y) (l := s.os.sockets)).map Prod.fst
    exact hs.handles.sublist hsub
  cases e with
  | wsaAccept r =>
      cases r with
      | none => exact ((step_os h).sockets rfl).1 ▸ hs.handles
      | some sock =>
          obtain ⟨j, -, -, hnew, rfl⟩ := Server.wsaAccept_some_some h
          rw [List.map_append, List.nodup_append']
          refine ⟨hs.handles, List.nodup_singleton _, ?_⟩
          rw [List.map_singleton, List.disjoint_singleton]
          intro hmem
          obtain ⟨y, hy, rfl⟩ := List.mem_map.1 hmem
          have hne := List.lookup_eq_none_iff.1 hnew y hy
          simp at hne
  | connectClient =>
      obtain ⟨j, sock, conn, -, rfl⟩ := Server.connectClient_some h
      exact hs.handles
  | checkConnected =>
      obtain ⟨j, sock, conn, c, -, -, ⟨-, rfl⟩ | ⟨-, rfl⟩⟩ := Server.checkConnected_some h
      · exact hs.handles
      · exact hclosed _
  | closeSocket w =>
      obtain ⟨c, ctx, -, -, rfl⟩ := Server.closeSocket_some h
      exact hclosed _
  | disconnect j => exact absurd rfl hno
  | _ => exact ((step_os h).sockets rfl).1 ▸ hs.handles

theorem step (hs : OpenSockets cfg n s) (h : IocpDemo.step cfg s e = some s')
    (hno : e.thread ≠ .disconnect) : OpenSockets cfg n s' where
  slots := hs.slots.step h hno
  held := hs.held_step h hno
  handles := hs.handles_step h hno

/-- **The invariant of all runs without `DisconnectSocket`.** -/
theorem of_reach {mem : ℕ → Mem} {workers : ℕ}
    (h : Reach (IocpDemo.step cfg) (fun _ e => e.thread ≠ .disconnect) (initServer mem n workers)
      s) : OpenSockets cfg n s :=
  h.invariant (init mem n workers) fun _ _ _ hs hno hstep => hs.step hstep hno

/-- What is held is open. -/
theorem mem_sockets (hs : OpenSockets cfg n s) (hx : x ∈ s.heldSockets) : x ∈ s.os.sockets := by
  have hopen : s.os.connOf x.1 = some x.2 := by
    rcases Server.mem_heldSockets.1 hx with hnew | ⟨i, hi⟩
    · obtain ⟨j, hpc⟩ := Server.newSocket_eq_some.1 hnew
      exact (hs.slots.receives.handles.incoming j _ _ hpc).2.1
    · obtain ⟨hf, hsock, hocc⟩ := Server.heldAt_eq_some.1 hi
      rw [← hocc]
      exact (hs.slots.holdsOwn hf _ hsock).1
  obtain ⟨before, after, heq, -⟩ := List.lookup_eq_some_iff.1 hopen
  rw [heq]
  exact List.mem_append_right _ List.mem_cons_self

theorem perm (hs : OpenSockets cfg n s) : s.os.sockets.Perm s.heldSockets :=
  (List.perm_ext_iff_of_nodup (List.Nodup.of_map _ hs.handles) hs.slots.nodup_held).2
    fun x => ⟨hs.held x, hs.mem_sockets⟩

/-- The rejection of a client whose slot has lost its socket is never reached. -/
theorem connected_of_checking (hs : OpenSockets cfg n s) {sock : Socket} {conn : ℕ}
    (hpc : s.acceptThread = .checking i sock conn) : s.Connected i :=
  Server.connected_iff.2 (hs.slots.receives.bounded.exists_socket_of_held (by rw [hpc]; rfl))

end OpenSockets

/-- **The open sockets are those that the server holds.**  In every run in which nobody calls
`DisconnectSocket`, whatever the operating system answers and however many clients have come and
gone: the sockets that are open are the one that `WSAAccept` has just returned and those of the
slots that nobody is about to free, each with the connection that it is held for, and each once.
There are never more of them than slots, and the new client whose socket is attached is never
rejected. -/
theorem open_sockets_are_held (cfg : Config) (mem : ℕ → Mem) (workers : ℕ)
    (h : Reach (step cfg) (fun _ e => e.thread ≠ .disconnect) (initServer mem n workers) s) :
    s.os.sockets.Perm s.heldSockets ∧ s.heldSockets.Nodup ∧ s.os.sockets.length ≤ n ∧
      ∀ i sock conn, s.acceptThread = .checking i sock conn → s.Connected i := by
  have hs := OpenSockets.of_reach h
  refine ⟨hs.perm, hs.slots.nodup_held, ?_, fun i sock conn hpc => hs.connected_of_checking hpc⟩
  rw [hs.perm.length_eq]
  exact hs.slots.receives.table.length_heldSockets_le

/-- The first of two clients has left and a third one has just been accepted: its socket and that of
the second one are open. -/
theorem held_sockets_of_two_slots :
    ∃ s, Reach (step wireConfig) (fun _ e => e.thread ≠ .disconnect) (wireServer 2) s ∧
      s.heldSockets = [(9, 2), (8, 1)] ∧ s.os.sockets.Perm [(9, 2), (8, 1)] := by
  obtain ⟨s, hreach, hheld⟩ := Reach.exists_of_runIf (step wireConfig)
    (fun _ e => e.thread ≠ .disconnect) (wireServer 2)
    (.scanSlot :: acceptEvents 7 ++ [.scanSlot, .scanSlot] ++ acceptEvents 8 ++ closeEvents ++
      [.scanSlot, .wsaAccept (some 9)])
    (fun s : Server => s.heldSockets) (x := [(9, 2), (8, 1)]) (by decide +kernel)
  have hopen := (open_sockets_are_held wireConfig (fun _ _ => 0) 1 hreach).1
  rw [hheld] at hopen
  exact ⟨s, hreach, hheld, hopen⟩

end IocpDemo
