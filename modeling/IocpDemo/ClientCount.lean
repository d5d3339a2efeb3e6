/-
**The number of connected clients** (`ClientCount`, `AcceptThread`).

`ClientCount` is declared as the number of clients that are connected.  `AcceptThread` increments it
for each client that it attaches to a slot; nothing ever decrements it, neither the
failed-completion branch of `WorkThread` nor `DisconnectSocket`.  So it is the number of connected
slots and, on top of it, of those that have been freed: each slot counts once, however many threads
close it, except when it is freed before `AcceptThread` has looked whether it is still connected.

Main definitions:

* `IocpDemo.Server.connectedCount` — the number of contexts that are connected;
* `IocpDemo.Server.pendingCount` — the client that `AcceptThread` has attached and not counted yet;
* `IocpDemo.departures`, `IocpDemo.departureSystem` — the slots that a step frees, and the server
  with a log of them.

Main results:

* `IocpDemo.step_connectedCount`, `IocpDemo.step_pendingCount` — what a step does to these numbers;
* `IocpDemo.client_count_exact_iff` — **the count is exact as long as nobody has left**;
* `IocpDemo.client_count_stays` — a client that has left and is counted.
-/

import IocpDemo.Occupancy
import IocpDemo.Roster

set_option relaxedAutoImplicit false
set_option autoImplicit false

namespace IocpDemo

open Bytes Transition Wire

variable {cfg : Config} {s s' : Server} {n : ℕ} {e : Event} {i : ℕ}

/-! ### The numbers -/

/-- The number of contexts in `ClientContexts` with `IsConnected()`. -/
def Server.connectedCount (s : Server) : ℕ := s.contexts.countP ClientContext.isConnected

/-- The slot that has been attached and whose `IsConnected` has not been tested yet. -/
def AcceptPc.untested : AcceptPc → Option ℕ
  | .checking i _ _ => some i
  | .scan _ | .accepting _ | .connecting _ _ _ | .counting _ _ | .greeting _ _ | .arming _ _
  | .returned => none

/-- `AcceptThread` is between `ConnectClient` and its increment. -/
def AcceptPc.beforeCount : AcceptPc → Bool
  | .checking _ _ _ | .counting _ _ => true
  | .scan _ | .accepting _ | .connecting _ _ _ | .greeting _ _ | .arming _ _ | .returned => false

/-- The client that `AcceptThread` has attached and is going to count. -/
def Server.pendingCount (s : Server) : ℕ :=
  match s.acceptThread with
  | .checking i _ _ => if s.Connected i then 1 else 0
  | .counting _ _ => 1
  | .scan _ | .accepting _ | .connecting _ _ _ | .greeting _ _ | .arming _ _ | .returned => 0

/-- The connected slot that a step frees. -/
def freedSlot (s : Server) (e : Event) : List ℕ :=
  (forgottenSlot s e).toList.filter fun i => s.Connected i

/-- The slot that a step frees of a client that is counted. -/
def departures (s : Server) (e : Event) : List ℕ :=
  (freedSlot s e).filter fun i => s.acceptThread.untested ≠ some i

/-- The server with a log of the slots that have been freed. -/
abbrev departureSystem (cfg : Config) : Server × List ℕ → Event → Option (Server × List ℕ) :=
  logged (step cfg) departures

theorem Server.pendingCount_eq_zero (h : s.acceptThread.beforeCount = false) :
    s.pendingCount = 0 := by
  unfold Server.pendingCount
  cases hpc : s.acceptThread <;> first | rfl | (rw [hpc] at h; cases h)

/-! ### Counting in a list -/

section Lists

variable {α : Type} {p : α → Bool} {f : α → α} {l : List α} {a : α}

/-- Changing one element changes what is counted by this element. -/
theorem countP_modify (ha : l[i]? = some a) :
    (l.modify i f).countP p + (if p a then 1 else 0) =
      l.countP p + (if p (f a) then 1 else 0) := by
  have hset : l.modify i f = l.set i (f a) := by
    rw [List.modify_eq_set_getElem?, ha]
    rfl
  rw [hset]
  exact countP_set_add ha (f a) p

theorem countP_modify_of_eq (hf : ∀ a, p (f a) = p a) : (l.modify i f).countP p = l.countP p := by
  cases hi : l[i]? with
  | none => rw [List.modify_eq_self (List.getElem?_eq_none_iff.1 hi)]
  | some a =>
      have hcount := countP_modify (p := p) (f := f) hi
      rw [hf] at hcount
      exact Nat.add_right_cancel hcount

end Lists

/-! ### The connected slots -/

/-- The slot that is forgotten loses its socket. -/
theorem contexts_of_forgottenSlot (h : step cfg s e = some s') (hi : forgottenSlot s e = some i) :
    s'.contexts = s.contexts.modify i (·.forgetSocket) := by
  cases e with
  | forgetSocket w =>
      obtain ⟨c, hpc, rfl⟩ := Server.forgetSocket_some h
      obtain rfl : c.key = i := by simpa [forgottenSlot, hpc] using hi
      rfl
  | disconnectForget k =>
      obtain ⟨j, hj, rfl⟩ := Server.disconnectForget_some h
      obtain rfl : j = i := by simpa [forgottenSlot, hj] using hi
      rfl
  | _ => cases hi

theorem length_freedSlot (hi : forgottenSlot s e = some i) :
    (freedSlot s e).length = if s.Connected i then 1 else 0 := by
  by_cases hconn : s.Connected i <;> simp [freedSlot, hi, hconn]

theorem freedSlot_eq_nil (hi : forgottenSlot s e = none) : freedSlot s e = [] := by
  simp [freedSlot, hi]

/-- Freeing a slot takes it out of the count, if it was connected. -/
theorem connectedCount_of_forget (h : step cfg s e = some s') (hi : forgottenSlot s e = some i) :
    s'.connectedCount + (freedSlot s e).length = s.connectedCount := by
  have hc := contexts_of_forgottenSlot h hi
  rw [length_freedSlot hi, Server.connectedCount, Server.connectedCount, hc]
  cases hctx : s.contexts[i]? with
  | none =>
      have hle := List.getElem?_eq_none_iff.1 hctx
      have hfree : ¬ s.Connected i := Server.not_connected_iff.2 (Server.socketAt_eq_none_of_le hle)
      rw [List.modify_eq_self hle, if_neg hfree, Nat.add_zero]
  | some ctx =>
      have hcount := countP_modify (p := ClientContext.isConnected)
        (f := fun c => c.forgetSocket) hctx
      rw [show ctx.forgetSocket.isConnected = false from rfl] at hcount
      simpa only [Server.connected_iff_context hctx, Bool.false_eq_true, if_false, Nat.add_zero]
        using hcount

/-- `ConnectClient` attaches to a slot that is free. -/
theorem connectedCount_of_connect (h : step cfg s .connectClient = some s') (ht : SlotTable n s) :
    s'.connectedCount = s.connectedCount + 1 := by
  obtain ⟨j, sock, conn, hpc, rfl⟩ := Server.connectClient_some h
  obtain ⟨hlt, hfree⟩ := ht.chosen_free j (by rw [hpc]; rfl)
  have hctx := List.getElem?_eq_getElem hlt
  have hconn := Server.connected_iff_context hctx
  have hcount := countP_modify (p := ClientContext.isConnected)
    (f := fun c => c.connectClient sock) hctx
  rw [if_neg (fun hc => Server.not_connected_iff.2 hfree (hconn.2 hc)),
    show (s.contexts[j].connectClient sock).isConnected = true from rfl] at hcount
  simpa [Server.connectedCount, Server.modifyContext] using hcount

/-- **What a step does to the number of connected slots.** -/
theorem step_connectedCount (h : step cfg s e = some s') (ht : SlotTable n s) :
    s'.connectedCount + (freedSlot s e).length =
      s.connectedCount + if e = .connectClient then 1 else 0 := by
  by_cases he : e = .connectClient
  · subst he
    rw [if_pos rfl, connectedCount_of_connect h ht, freedSlot_eq_nil rfl, List.length_nil,
      Nat.add_zero]
  · rw [if_neg he, Nat.add_zero]
    cases hi : forgottenSlot s e with
    | some i => exact connectedCount_of_forget h hi
    | none =>
        rw [freedSlot_eq_nil hi, List.length_nil, Nat.add_zero]
        rcases step_contexts h with hc | ⟨i, f, hw, hc⟩
        · rw [Server.connectedCount, hc, Server.connectedCount]
        · rw [Server.connectedCount, hc, Server.connectedCount]
          cases hw with
          | attach hpc => exact absurd rfl he
          | forget hpc => simp [forgottenSlot, hpc] at hi
          | disconnect hpc => simp [forgottenSlot, hpc] at hi
          -- the other writes concern the receive buffer
          | _ => exact countP_modify_of_eq fun _ => rfl

/-! ### The client in the hands of `AcceptThread` -/

theorem mem_freedSlot (hi : i ∈ freedSlot s e) : forgottenSlot s e = some i ∧ s.Connected i := by
  obtain ⟨hmem, hconn⟩ := List.mem_filter.1 hi
  exact ⟨Option.mem_toList.1 hmem, of_decide_eq_true hconn⟩

/-- A slot that is not freed stays as it is. -/
theorem connected_iff_of_not_mem_freedSlot (h : step cfg s e = some s') (he : e ≠ .connectClient)
    (hi : i ∉ freedSlot s e) : s'.Connected i ↔ s.Connected i := by
  constructor
  · intro hconn
    rcases connected_of_step h hconn with hold | ⟨hconnect, -⟩
    · exact hold
    · exact absurd hconnect he
  · intro hconn
    refine hconn.step h fun hf => hi ?_
    have hslot := forgottenSlot_of_forgets hf
    exact List.mem_filter.2 ⟨Option.mem_toList.2 hslot, decide_eq_true hconn⟩

/-- A slot that is freed after `AcceptThread` has looked at it is that of a counted client. -/
theorem departures_eq_freedSlot (h : ∀ i ∈ freedSlot s e, s.acceptThread.untested ≠ some i) :
    departures s e = freedSlot s e := by
  refine List.filter_eq_self.2 fun i hi => ?_
  simpa using h i hi

theorem length_departures_of_untested (hpc : s.acceptThread.untested = some i)
    (hi : i ∈ freedSlot s e) : (freedSlot s e).length = 1 ∧ (departures s e).length = 0 := by
  obtain ⟨hslot, hconn⟩ := mem_freedSlot hi
  have hfreed : freedSlot s e = [i] := by simp [freedSlot, hslot, hconn]
  refine ⟨by rw [hfreed]; rfl, ?_⟩
  rw [departures, hfreed, hpc]
  simp

/-- As long as `AcceptThread` stays where it is, the client in its hands is lost exactly when its
slot is freed. -/
theorem pendingCount_of_same (h : step cfg s e = some s') (he : e ≠ .connectClient)
    (hsame : s'.acceptThread = s.acceptThread) :
    s'.pendingCount + (freedSlot s e).length = s.pendingCount + (departures s e).length := by
  cases hpc : s.acceptThread with
  | checking i sock conn =>
      have huntested : s.acceptThread.untested = some i := by rw [hpc]; rfl
      simp only [Server.pendingCount, hsame, hpc]
      by_cases hi : i ∈ freedSlot s e
      · obtain ⟨hslot, hconn⟩ := mem_freedSlot hi
        obtain ⟨hfreed, hdepart⟩ := length_departures_of_untested huntested hi
        have hnone := Server.socketAt_of_forget (contexts_of_forgottenSlot h hslot)
        rw [if_pos hconn, if_neg (Server.not_connected_iff.2 hnone), hfreed, hdepart]
      · have hdepart : departures s e = freedSlot s e := by
          refine departures_eq_freedSlot fun j hj hij => ?_
          obtain rfl : i = j := Option.some.inj (huntested.symm.trans hij)
          exact hi hj
        simp only [hdepart, connected_iff_of_not_mem_freedSlot h he hi]
  | _ =>
      have hdepart : departures s e = freedSlot s e := by
        refine departures_eq_freedSlot fun j _ hij => ?_
        rw [hpc] at hij
        cases hij
      simp only [Server.pendingCount, hsame, hpc, hdepart]

theorem connected_of_connectClient (h : step cfg s .connectClient = some s') (ht : SlotTable n s)
    {sock : Socket} {conn : ℕ} (hpc : s.acceptThread = .connecting i sock conn) :
    s'.Connected i := by
  obtain ⟨hlt, -⟩ := ht.chosen_free i (by rw [hpc]; rfl)
  obtain ⟨j, sock', conn', hpc', rfl⟩ := Server.connectClient_some h
  rw [hpc] at hpc'
  cases hpc'
  exact Server.connected_iff.2 ⟨sock, Server.socketAt_modify_self rfl (fun _ => rfl) hlt⟩

/-- **What a step does to the client in the hands of `AcceptThread`.** -/
theorem step_pendingCount (h : step cfg s e = some s') (ht : SlotTable n s) :
    s'.pendingCount + (if e = .countClient then 1 else 0) + (freedSlot s e).length =
      s.pendingCount + (if e = .connectClient then 1 else 0) + (departures s e).length := by
  rcases step_acceptThread h with ⟨hsame, hthread⟩ | hmove
  · have hcount : e ≠ .countClient := by
      rintro rfl
      exact hthread rfl
    have hconnect : e ≠ .connectClient := by
      rintro rfl
      exact hthread rfl
    rw [if_neg hcount, if_neg hconnect]
    exact pendingCount_of_same h hconnect hsame
  · -- a step of the accept thread frees no slot
    obtain ⟨pc', hpc'⟩ : ∃ pc', s'.acceptThread = pc' := ⟨_, rfl⟩
    rw [hpc'] at hmove
    have hslot : forgottenSlot s e = none := by cases hmove <;> rfl
    have hnil := freedSlot_eq_nil hslot
    have hdepart : departures s e = [] := by rw [departures, hnil]; rfl
    rw [hnil, hdepart, Server.pendingCount, Server.pendingCount, hpc']
    cases hmove with
    | @scanned k hpc =>
        rcases Server.scanNext_cases s.contexts k with hnext | hnext | hnext <;>
          simp [hpc, hnext]
    | failed hpc => simp [hpc]
    | accepted hpc _ _ => simp [hpc]
    | attached hpc => simp [hpc, connected_of_connectClient h ht hpc]
    | kept hpc hctx hc => simp [hpc, Server.connected_iff_context hctx, hc]
    | dropped hpc hctx hc => simp [hpc, Server.connected_iff_context hctx, hc]
    | counted hpc => simp [hpc]
    | greeted hpc _ => simp [hpc]
    | armed hpc => simp [hpc]

theorem step_clientCount (h : step cfg s e = some s') :
    s'.clientCount = s.clientCount + ((if e = .countClient then 1 else 0 : ℕ) : ℤ) := by
  by_cases he : e = .countClient
  · subst he
    obtain ⟨j, conn, -, rfl⟩ := Server.countClient_some h
    rfl
  · rw [if_neg he, (step_frame h).clientCount he]
    exact (Int.add_zero _).symm

/-! ### The invariant -/

/-- **`ClientCount` and the client about to be counted are the slots that are connected and those
that have been freed.** -/
structure Counted (n : ℕ) (s : Server) (log : List ℕ) : Prop where
  table : SlotTable n s
  balance : s.clientCount + s.pendingCount = s.connectedCount + log.length

namespace Counted

variable {log : List ℕ}

theorem init (mem : ℕ → Mem) (n workers : ℕ) : Counted n (initServer mem n workers) [] := by
  refine ⟨SlotTable.init mem n workers, ?_⟩
  have hnone : (initServer mem n workers).connectedCount = 0 := by
    rw [Server.connectedCount, List.countP_eq_zero]
    intro ctx hctx
    obtain ⟨j, hj, rfl⟩ := List.mem_iff_getElem.1 hctx
    have hconn := Server.connected_iff_context (List.getElem?_eq_getElem hj)
    rw [← hconn, Server.not_connected_iff, Server.socketAt_initServer]
  rw [hnone, Server.pendingCount_eq_zero rfl]
  rfl

/-- **Every step keeps the balance.** -/
theorem step (hs : Counted n s log) (h : IocpDemo.step cfg s e = some s') :
    Counted n s' (log ++ departures s e) := by
  refine ⟨hs.table.step h, ?_⟩
  have hbalance := hs.balance
  have hcount := step_clientCount h
  have hconnected := step_connectedCount h hs.table
  have hpending := step_pendingCount h hs.table
  rw [hcount, List.length_append]
  omega

theorem of_reach {P : Server × List ℕ → Event → Prop} {mem : ℕ → Mem} {workers : ℕ}
    (h : Reach (departureSystem cfg) P (initServer mem n workers, []) (s, log)) :
    Counted n s log :=
  h.logged_invariant (I := Counted n) (init mem n workers) fun _ _ _ _ hx _ hstep => hx.step hstep

end Counted

/-! ### The result -/

/-- **The count is exact as long as nobody has left.**  In every run of the server, in every state
in which `AcceptThread` is not between `ConnectClient` and its increment, `ClientCount` is the
number of connected contexts and, on top of it, of the slots that have been freed so far of clients
that were connected; so it is the number of connected contexts if and only if no slot has been freed
in this way. -/
theorem client_count_exact_iff {mem : ℕ → Mem} {workers : ℕ} {log : List ℕ}
    (h : Reach (departureSystem cfg) (fun _ _ => True) (initServer mem n workers, []) (s, log))
    (hbetween : s.acceptThread.beforeCount = false) :
    s.clientCount = s.connectedCount + log.length ∧
      (s.clientCount = s.connectedCount ↔ log = []) := by
  have hbalance := (Counted.of_reach h).balance
  rw [Server.pendingCount_eq_zero hbetween] at hbalance
  have hsum : s.clientCount = s.connectedCount + log.length := by omega
  refine ⟨hsum, ?_⟩
  rw [hsum, ← List.length_eq_zero_iff]
  omega

/-- A run in which two clients are connected, after a third one was disconnected before
`AcceptThread` had tested its slot. -/
theorem two_clients_counted :
    ∃ s log, Reach (departureSystem wireConfig) (fun _ _ => True) (wireServer 2, []) (s, log) ∧
      s.clientCount = 2 ∧ s.connectedCount = 2 := by
  obtain ⟨⟨s, log⟩, hreach, hfacts⟩ := Reach.exists_of_run (departureSystem wireConfig)
    (wireServer 2, [])
    ([.scanSlot, .wsaAccept (some 7), .connectClient, .disconnect 0, .disconnectForget 0,
      .checkConnected] ++ .scanSlot :: acceptEvents 8 ++ [.scanSlot, .scanSlot] ++ acceptEvents 9)
    (fun x => (x.1.clientCount, x.1.acceptThread.beforeCount, x.2)) (x := (2, false, []))
    (by decide +kernel)
  simp only [Prod.mk.injEq] at hfacts
  obtain ⟨hcount, hbetween, hlog⟩ := hfacts
  have hexact := (client_count_exact_iff hreach hbetween).2.2 hlog
  refine ⟨s, log, hreach, hcount, ?_⟩
  omega

/-- **A client that has left is counted**: its receive fails, the worker thread frees its slot, and
the count stays one while no client is connected. -/
theorem client_count_stays :
    ∃ s, Reach (step wireConfig) (fun _ _ => True) (wireServer 1) s ∧
      s.acceptThread.beforeCount = false ∧ s.clientCount = 1 ∧ s.connectedCount = 0 := by
  obtain ⟨s, hreach, hfacts⟩ := Reach.exists_of_run (step wireConfig) (wireServer 1)
    (.scanSlot :: acceptEvents 7 ++ closeEvents)
    (fun s => (s.acceptThread.beforeCount, s.clientCount, s.connectedCount)) (x := (false, 1, 0))
    (by decide +kernel)
  simp only [Prod.mk.injEq] at hfacts
  exact ⟨s, hreach, hfacts⟩

end IocpDemo
