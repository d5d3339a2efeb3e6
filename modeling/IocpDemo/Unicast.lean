/-
**Unicast packets name a slot** (`SendPacket`, `IOSendPacketQue`).

An entry of `IOSendPacketQue` carries a sixteen-bit slot index and nothing else.  `SendPacket` uses
it as an unchecked subscript of `ClientContexts` and tests only whether the slot is connected.  For
a login the index is cut out of the `Id` that the client has put into its message.  So the packet
may name a slot that does not exist, a slot of another client, or a slot that has been given to
another client since.

Main definitions:

* `IocpDemo.LoginsInRange` — the condition on a step: a login that queues packets names a slot;
* `IocpDemo.KeepsOwner` — the condition on a step: a login that queues packets names the slot of its
  own connection, and no slot is taken while a packet for it is pending.

Main results:

* `IocpDemo.unicast_index_in_range` — **under the first condition every packet taken from the queue
  names a slot**;
* `IocpDemo.unicast_reaches_owner` — **under the second condition a packet is sent only to the
  connection it was queued for**;
* `IocpDemo.foreign_login_index_out_of_range`, `IocpDemo.unicast_leaks_to_next_occupant` — runs that
  break them.
-/

import IocpDemo.Logins
import IocpDemo.WireFormat

set_option relaxedAutoImplicit false
set_option autoImplicit false

namespace IocpDemo

open Bytes Transition Wire

variable {cfg : Config} {s s' : Server} {n : ℕ}

/-- The index that a login names. -/
def loginIndex (cfg : Config) (data : List UInt8) : UInt32 :=
  frameIdIndex cfg.runtime data .recvLoginPacket

/-- The roster has no player other than the one the login names. -/
def AloneInRoster (cfg : Config) (s : Server) (data : List UInt8) : Prop :=
  ∀ player ∈ s.que.connectedPlayers, player.1 = (loginIndex cfg data).toInt32

instance (cfg : Config) (s : Server) (data : List UInt8) : Decidable (AloneInRoster cfg s data) :=
  inferInstanceAs (Decidable (∀ player ∈ s.que.connectedPlayers, _))

/-- The packet for a new client is addressed to its slot. -/
theorem toNat_connPacket_index (hs : SlotTable n s) {i : ℕ} {ctx : ClientContext}
    (hctx : s.contexts[i]? = some ctx) :
    (connPacket cfg.runtime.proto ctx.getIndex.toUInt16).packetIndex.toNat = i % 65536 := by
  have hi : (connPacket cfg.runtime.proto ctx.getIndex.toUInt16).packetIndex =
      ctx.getIndex.toUInt16 := UInt16.toUInt16_toUInt32 _
  rw [hi, hs.getIndex_eq hctx]
  simp only [UInt32.toNat_toUInt16, UInt32.toNat_ofNat']
  omega

/-! ### The index is a position of the table -/

/-- A login that queues packets names a slot. -/
def LoginsInRange (cfg : Config) (s : Server) (e : Event) : Prop :=
  ∀ login ∈ loginFrame cfg s e,
    (loginIndex cfg login.2).toUInt16.toNat < s.contexts.length ∨ AloneInRoster cfg s login.2

instance (cfg : Config) (s : Server) (e : Event) : Decidable (LoginsInRange cfg s e) :=
  inferInstanceAs (Decidable (∀ login ∈ loginFrame cfg s e, _))

/-- Every pending unicast packet names a slot. -/
structure UnicastsInRange (n : ℕ) (s : Server) : Prop where
  table : SlotTable n s
  aligned : Aligned s
  index_lt : ∀ entry ∈ s.unicasts, entry.1.packetIndex.toNat < n
  not_crashed : ∀ p, s.sendThread ≠ .crashed p

theorem UnicastsInRange.init (mem : ℕ → Mem) (n workers : ℕ) :
    UnicastsInRange n (initServer mem n workers) where
  table := SlotTable.init mem n workers
  aligned := rfl
  index_lt entry h := by cases h
  not_crashed p h := by cases h

theorem UnicastsInRange.step {e : Event} (hs : UnicastsInRange n s)
    (h : IocpDemo.step cfg s e = some s') (hrange : LoginsInRange cfg s e) :
    UnicastsInRange n s' where
  table := hs.table.step h
  aligned := hs.aligned.step h
  index_lt entry hentry := by
    rcases unicasts_of_step h hs.aligned hentry with
      hold | ⟨i, conn, ctx, -, hctx, rfl⟩ | ⟨c, data, hlogin, -, hp⟩
    · exact hs.index_lt entry hold
    · rw [toNat_connPacket_index hs.table hctx]
      have hlt := Server.lt_of_context hctx
      rw [hs.table.length] at hlt
      exact Nat.lt_of_le_of_lt (Nat.mod_le _ _) hlt
    · -- a packet is queued for another player of the roster, so the login is not alone in it
      obtain ⟨hindex, player, hplayer, hne, -⟩ := mem_loginPackets hp
      rcases hrange _ hlogin with hlt | halone
      · rw [hindex]
        exact hs.table.length ▸ hlt
      · exact absurd (halone player hplayer) hne
  not_crashed p hp := by
    rcases step_sendThread h with ⟨hsame, -⟩ | hmove
    · exact hs.not_crashed p (hsame ▸ hp)
    · rw [hp] at hmove
      generalize hpc' : SendPc.crashed p = pc at hmove
      cases hmove with
      | entered _ => split at hpc' <;> cases hpc'
      | @tested q conn hpc =>
          -- the packet held names a slot
          have hheld : (q, conn) ∈ s.sendThread.held := by
            rw [hpc]
            simp [SendPc.held]
          have hlt := hs.index_lt (q, conn) (List.mem_append_left _ hheld)
          rw [← hs.table.length] at hlt
          obtain ⟨ctx, hctx⟩ := Server.exists_context hlt
          simp only [Server.sendNext, hctx] at hpc'
          split at hpc' <;> cases hpc'
      | _ => cases hpc'

/-- **The index is in range.**  In a run in which every login that queues packets names a slot, the
index of a packet that `SendThread` has taken from the queue is a position of `ClientContexts`. -/
theorem unicast_index_in_range {mem : ℕ → Mem} {workers : ℕ}
    (h : Reach (step cfg) (LoginsInRange cfg) (initServer mem n workers) s) :
    (∀ p conn, s.sendThread = .holding p conn → p.packetIndex.toNat < s.contexts.length) ∧
      ∀ p, s.sendThread ≠ .crashed p := by
  have hs : UnicastsInRange n s :=
    h.invariant (UnicastsInRange.init mem n workers) fun _ _ _ hi hP hstep => hi.step hstep hP
  refine ⟨fun p conn hpc => ?_, hs.not_crashed⟩
  rw [hs.table.length]
  exact hs.index_lt (p, conn) (List.mem_append_left _ (by rw [hpc]; simp [SendPc.held]))

/-- The packet that `SendPacket` is about to be called with. -/
def SendPc.popped : SendPc → Option (PacketBuffer × ℕ)
  | .holding p conn => some (p, conn)
  | _ => none

theorem SendPc.eq_holding {pc : SendPc} {entry : PacketBuffer × ℕ} (h : pc.popped = some entry) :
    pc = .holding entry.1 entry.2 := by
  cases pc with
  | holding p conn =>
      obtain rfl := Option.some.inj h
      rfl
  | _ => cases h

/-- A run in which two clients log in with their own indices: the second one is about to be sent a
packet about the first one. -/
theorem second_login_in_range :
    ∃ s p conn, Reach (step wireConfig) (LoginsInRange wireConfig)
        (wireServer 2) s ∧
      s.sendThread = .holding p conn ∧ p.bytes = [10, 0, 1, 0, 10, 0, 18, 0, 26, 0] ∧
      p.packetIndex.toNat < s.contexts.length := by
  obtain ⟨s, hreach, hfacts⟩ := Reach.exists_of_runIf (step wireConfig)
    (LoginsInRange wireConfig) (wireServer 2)
    (.scanSlot :: acceptEvents 7 ++ [.scanSlot, .scanSlot] ++ acceptEvents 8 ++
      serveEvents [6, 0, 2, 0, 10, 0] ++ serveEvents [8, 0, 2, 0, 10, 2, 8, 1] ++
      sendEvents ++ sendEvents ++ [.sendTop, .popPacket])
    (fun s => s.sendThread.popped.map fun entry => entry.1.bytes)
    (x := some [10, 0, 1, 0, 10, 0, 18, 0, 26, 0]) (by decide +kernel)
  obtain ⟨entry, hpopped, hbytes⟩ := Option.map_eq_some_iff.1 hfacts
  have hpc := SendPc.eq_holding hpopped
  exact ⟨s, entry.1, entry.2, hreach, hpc, hbytes, (unicast_index_in_range hreach).1 _ _ hpc⟩

/-- **A login with a foreign index makes `SendThread` read behind the table**: with `CLIENT_MAX`
slots, a client that logs in as player 0 and again as player 100. -/
theorem foreign_login_index_out_of_range :
    ∃ s p conn, Reach (step wireConfig) (fun _ _ => True)
        (wireServer clientMax) s ∧
      s.sendThread = .holding p conn ∧ s.contexts.length ≤ p.packetIndex.toNat := by
  obtain ⟨s, hreach, hfacts⟩ := Reach.exists_of_run (step wireConfig)
    (wireServer clientMax)
    (.scanSlot :: acceptEvents 7 ++ serveEvents [6, 0, 2, 0, 10, 0] ++
      serveEvents [8, 0, 2, 0, 10, 2, 8, 100] ++
      sendEvents ++ [.sendTop, .popPacket])
    (fun s => s.sendThread.popped.map fun entry => entry.1.packetIndex) (x := some 100)
    (by decide +kernel)
  obtain ⟨entry, hpopped, hindex⟩ := Option.map_eq_some_iff.1 hfacts
  refine ⟨s, entry.1, entry.2, hreach, SendPc.eq_holding hpopped, ?_⟩
  rw [(SlotTable.of_reach hreach).length, hindex]
  decide

/-! ### The packet reaches the connection it was queued for -/

/-- The slot is connected, and the connection last attached to it is `conn`. -/
def Server.OccupiedBy (s : Server) (i conn : ℕ) : Prop :=
  (∃ sock, s.socketAt i = some sock) ∧ s.history.occupant i = conn

/-- A login that queues packets names the slot of its own connection, and no slot is taken while a
unicast packet for it is pending. -/
def KeepsOwner (cfg : Config) (s : Server) (e : Event) : Prop :=
  (∀ login ∈ loginFrame cfg s e,
    s.history.occupant (loginIndex cfg login.2).toUInt16.toNat = login.1.conn ∨
      AloneInRoster cfg s login.2) ∧
    (e = .connectClient → ∀ i ∈ s.acceptThread.chosen, ∀ entry ∈ s.unicasts,
      entry.1.packetIndex.toNat ≠ i)

instance (cfg : Config) (s : Server) (e : Event) : Decidable (KeepsOwner cfg s e) :=
  inferInstanceAs (Decidable (_ ∧ _))

/-- The connection that the accept thread has attached to a slot. -/
def AcceptPc.attached : AcceptPc → Option (ℕ × ℕ)
  | .checking i _ conn | .counting i conn | .greeting i conn | .arming i conn => some (i, conn)
  | _ => none

/-- Every pending unicast packet names the slot of the connection it was queued for. -/
structure UnicastsOwned (n : ℕ) (s : Server) : Prop where
  table : SlotTable n s
  aligned : Aligned s
  attached : ∀ i conn, s.acceptThread.attached = some (i, conn) → s.history.occupant i = conn
  owned : ∀ entry ∈ s.unicasts, s.history.occupant entry.1.packetIndex.toNat = entry.2

theorem UnicastsOwned.init (mem : ℕ → Mem) (n workers : ℕ) :
    UnicastsOwned n (initServer mem n workers) where
  table := SlotTable.init mem n workers
  aligned := rfl
  attached i conn h := by cases h
  owned entry h := by cases h

/-- The occupant of a slot changes when a connection is attached to it. -/
theorem occupant_of_step {e : Event} (h : step cfg s e = some s') :
    s'.history.occupant = s.history.occupant ∧ e ≠ .connectClient ∨
      e = .connectClient ∧ ∃ i sock conn, s.acceptThread = .connecting i sock conn ∧
        s'.acceptThread = .checking i sock conn ∧
        s'.history.occupant = Function.update s.history.occupant i conn := by
  by_cases he : e = .connectClient
  · subst he
    obtain ⟨i, sock, conn, hpc, rfl⟩ := Server.connectClient_some h
    exact Or.inr ⟨rfl, i, sock, conn, hpc, rfl, rfl⟩
  · exact Or.inl ⟨(step_frame h).occupant he, he⟩

/-- The connection that `AcceptThread` sets up behind a step, it set up before, or it has just been
attached. -/
theorem attached_origin {e : Event} {i conn : ℕ} (h : step cfg s e = some s')
    (hi : s'.acceptThread.attached = some (i, conn)) :
    s.acceptThread.attached = some (i, conn) ∨
      e = .connectClient ∧ ∃ sock, s.acceptThread = .connecting i sock conn := by
  rcases step_acceptThread h with ⟨hsame, -⟩ | hmove
  · exact Or.inl (hsame ▸ hi)
  · generalize s'.acceptThread = pc at hmove hi
    cases hmove with
    | @scanned k _ =>
        rcases Server.scanNext_cases s.contexts k with hnext | hnext | hnext <;>
          rw [hnext] at hi <;> cases hi
    | attached hpc =>
        obtain ⟨rfl, rfl⟩ := Prod.mk.inj (Option.some.inj hi)
        exact Or.inr ⟨rfl, _, hpc⟩
    | kept hpc _ _ | counted hpc | greeted hpc _ => exact Or.inl (by rw [hpc]; exact hi)
    | _ => cases hi

theorem attached_of_step {e : Event} (h : step cfg s e = some s')
    (hs : ∀ i conn, s.acceptThread.attached = some (i, conn) → s.history.occupant i = conn)
    (i conn : ℕ) (hi : s'.acceptThread.attached = some (i, conn)) :
    s'.history.occupant i = conn := by
  rcases occupant_of_step h with ⟨hocc, hne⟩ | ⟨-, j, sock, conn', -, hpc', hocc⟩
  · rw [hocc]
    rcases attached_origin h hi with hold | ⟨heq, -⟩
    · exact hs i conn hold
    · exact absurd heq hne
  · rw [hpc'] at hi
    obtain ⟨rfl, rfl⟩ : j = i ∧ conn' = conn := by simpa [AcceptPc.attached] using hi
    rw [hocc, Function.update_self]

theorem UnicastsOwned.step {e : Event} (hn : n ≤ 65536) (hs : UnicastsOwned n s)
    (h : IocpDemo.step cfg s e = some s') (hkeeps : KeepsOwner cfg s e) : UnicastsOwned n s' where
  table := hs.table.step h
  aligned := hs.aligned.step h
  attached := attached_of_step h hs.attached
  owned entry hentry := by
    rcases unicasts_of_step h hs.aligned hentry with
      hold | ⟨i, conn, ctx, hpc, hctx, rfl⟩ | ⟨c, data, hlogin, hconn, hp⟩
    · rcases occupant_of_step h with ⟨hocc, -⟩ | ⟨rfl, i, sock, conn, hpc, -, hocc⟩
      · rw [hocc]
        exact hs.owned entry hold
      · -- the slot that is taken is not the one the packet names
        have hne := hkeeps.2 rfl i (by rw [hpc]; rfl) entry hold
        rw [hocc, Function.update_of_ne hne]
        exact hs.owned entry hold
    · -- the index of a slot is not cut, because there are at most `2 ^ 16` slots
      have hlt := Server.lt_of_context hctx
      rw [hs.table.length] at hlt
      rw [toNat_connPacket_index hs.table hctx, Nat.mod_eq_of_lt (by omega)]
      rcases occupant_of_step h with ⟨hocc, -⟩ | ⟨-, j, sock, conn', hpc', -, -⟩
      · rw [hocc]
        exact hs.attached i conn (by rw [hpc]; rfl)
      · rw [hpc] at hpc'
        cases hpc'
    · obtain ⟨hindex, player, hplayer, hne, -⟩ := mem_loginPackets hp
      rcases occupant_of_step h with ⟨hocc, -⟩ | ⟨rfl, -⟩
      · rw [hocc, hindex, hconn]
        rcases hkeeps.1 _ hlogin with hown | halone
        · exact hown
        · exact absurd (halone player hplayer) hne
      · cases hlogin

/-- `SendPacket` calls `SendPendingPacket` when it finds the slot connected. -/
theorem sendPacket_copying {t : Server} {p : PacketBuffer} {conn : ℕ}
    (h : s.sendPacket = some t) (hcall : t.sendThread = .copying p conn) :
    (p, conn) ∈ s.sendThread.held ∧ ∃ sock, s.socketAt p.packetIndex.toNat = some sock := by
  obtain ⟨q, conn', hpc, rfl⟩ := Server.sendPacket_some h
  cases hctx : s.contexts[q.packetIndex.toNat]? with
  | none => simp [Server.sendNext, hctx] at hcall
  | some ctx =>
      cases hconn : ctx.isConnected with
      | false => simp [Server.sendNext, hctx, hconn] at hcall
      | true =>
          obtain ⟨rfl, rfl⟩ : q = p ∧ conn' = conn := by
            simpa [Server.sendNext, hctx, hconn] using hcall
          refine ⟨by rw [hpc]; simp [SendPc.held], ?_⟩
          rw [Server.socketAt_eq hctx]
          exact Option.isSome_iff_exists.1 hconn

theorem sendPacket_of_connected (cfg : Config) {p : PacketBuffer} {conn : ℕ} {sock : Socket}
    (hpc : s.sendThread = .holding p conn) (hsock : s.socketAt p.packetIndex.toNat = some sock) :
    step cfg s .sendPacket = some { s with sendThread := .copying p conn } := by
  obtain ⟨ctx, hctx, hs⟩ := Option.bind_eq_some_iff.1 hsock
  simp [step, Server.sendPacket, hpc, Server.sendNext, hctx, ClientContext.isConnected, hs]

/-- **A unicast packet reaches the connection it was queued for.**  In a run in which the logins
that queue packets name the slot of their own connection and no slot is taken while a unicast packet
for it is pending, `SendPacket` hands a packet to `SendPendingPacket` only while its slot is
occupied by the connection the packet was queued for, and the slot is not given to another
connection before the packet has been sent. -/
theorem unicast_reaches_owner (hn : n ≤ 65536) {mem : ℕ → Mem} {workers : ℕ}
    (h : Reach (step cfg) (KeepsOwner cfg) (initServer mem n workers) s) :
    (∀ t p conn, step cfg s .sendPacket = some t → t.sendThread = .copying p conn →
        s.OccupiedBy p.packetIndex.toNat conn) ∧
      ∀ p conn, (p, conn) ∈ s.sendThread.held →
        s.history.occupant p.packetIndex.toNat = conn := by
  have hs : UnicastsOwned n s := h.invariant (UnicastsOwned.init mem n workers)
    fun _ _ _ hi hP hstep => hi.step hn hstep hP
  refine ⟨?_, ?_⟩
  · intro t p conn hstep hcall
    obtain ⟨hheld, hsock⟩ := sendPacket_copying hstep hcall
    exact ⟨hsock, hs.owned (p, conn) (List.mem_append_left _ hheld)⟩
  · intro p conn hheld
    exact hs.owned (p, conn) (List.mem_append_left _ hheld)

/-- A run in which a client has been accepted and its packet is about to be handed over. -/
theorem greeting_reaches_client :
    ∃ s t p, Reach (step wireConfig) (KeepsOwner wireConfig)
        (wireServer 1) s ∧
      step wireConfig s .sendPacket = some t ∧ t.sendThread = .copying p 0 ∧
      s.OccupiedBy p.packetIndex.toNat 0 := by
  obtain ⟨s, hreach, hfacts⟩ := Reach.exists_of_runIf (step wireConfig)
    (KeepsOwner wireConfig) (wireServer 1)
    (.scanSlot :: acceptEvents 7 ++ [.sendTop, .popPacket])
    (fun s => (s.sendThread.popped.map fun entry => (entry.1.packetIndex, entry.2), s.socketAt 0))
    (x := (some (0, 0), some 7)) (by decide +kernel)
  obtain ⟨hpopped, hsock⟩ := Prod.mk.inj hfacts
  obtain ⟨⟨p, conn⟩, hentry, heq⟩ := Option.map_eq_some_iff.1 hpopped
  obtain ⟨hindex, rfl⟩ : p.packetIndex = 0 ∧ conn = 0 := by simpa using heq
  have hstep := sendPacket_of_connected wireConfig
    (SendPc.eq_holding hentry) (by rw [hindex]; exact hsock)
  exact ⟨s, _, p, hreach, hstep, rfl,
    (unicast_reaches_owner (by decide) hreach).1 _ p 0 hstep rfl⟩

/-- **A packet for a client that has left is sent to the next one.**  The first client's receive
fails, its slot is freed and given to the second client, and `SendPacket` hands the packet queued
for the connection 0 to `SendPendingPacket` while the slot is occupied by the connection 1. -/
theorem unicast_leaks_to_next_occupant :
    ∃ s t p, Reach (step wireConfig) (fun _ _ => True)
        (wireServer 1) s ∧
      step wireConfig s .sendPacket = some t ∧ t.sendThread = .copying p 0 ∧
      s.OccupiedBy p.packetIndex.toNat 1 := by
  obtain ⟨s, hreach, hfacts⟩ := Reach.exists_of_run (step wireConfig)
    (wireServer 1)
    (.scanSlot :: acceptEvents 7 ++ closeEvents ++
      [.scanSlot, .wsaAccept (some 8), .connectClient, .sendTop, .popPacket])
    (fun s => (s.sendThread.popped.map fun entry => (entry.1.packetIndex, entry.2), s.socketAt 0,
      s.history.occupant 0)) (x := (some (0, 0), some 8, 1)) (by decide +kernel)
  simp only [Prod.mk.injEq] at hfacts
  obtain ⟨hpopped, hsock, hocc⟩ := hfacts
  obtain ⟨⟨p, conn⟩, hentry, heq⟩ := Option.map_eq_some_iff.1 hpopped
  obtain ⟨hindex, rfl⟩ : p.packetIndex = 0 ∧ conn = 0 := by simpa using heq
  have hslot : p.packetIndex.toNat = 0 := by rw [hindex]; rfl
  have hsock' : s.socketAt p.packetIndex.toNat = some 8 := by rw [hslot]; exact hsock
  have hstep := sendPacket_of_connected wireConfig
    (SendPc.eq_holding hentry) hsock'
  exact ⟨s, _, p, hreach, hstep, rfl, ⟨8, hsock'⟩, by rw [hslot]; exact hocc⟩

end IocpDemo
