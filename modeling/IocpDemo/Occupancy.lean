/-
**Who occupies which slot.**

A connection is numbered by the accept that made it, and is attached to one slot, once.  So the
connections that occupy different slots are different, and a slot keeps its occupant until its
socket is forgotten.

Main definitions:

* `IocpDemo.Server.Connected` — the slot has a socket;
* `IocpDemo.Server.WasAttached` — the connection has been attached to a slot;
* `IocpDemo.Occupancy` — the invariant.

Main results:

* `IocpDemo.Occupancy.of_reach` — **the invariant of all runs**;
* `IocpDemo.connected_of_step` — how a slot comes to be connected;
* `IocpDemo.occupant_of_connected` — a connected slot keeps its occupant.
-/

import IocpDemo.Receives
import IocpDemo.Unicast

set_option relaxedAutoImplicit false
set_option autoImplicit false

namespace IocpDemo

open Bytes Transition

variable {cfg : Config} {s s' : Server} {n : ℕ} {e : Event}

/-- The slot has a socket. -/
def Server.Connected (s : Server) (i : ℕ) : Prop := (s.socketAt i).isSome = true

instance (s : Server) (i : ℕ) : Decidable (s.Connected i) :=
  inferInstanceAs (Decidable (_ = true))

theorem Server.connected_iff {i : ℕ} : s.Connected i ↔ ∃ sock, s.socketAt i = some sock :=
  Option.isSome_iff_exists

theorem Server.not_connected_iff {i : ℕ} : ¬ s.Connected i ↔ s.socketAt i = none := by
  simp [Server.Connected]

theorem Server.connected_iff_context {i : ℕ} {ctx : ClientContext}
    (hctx : s.contexts[i]? = some ctx) : s.Connected i ↔ ctx.isConnected = true := by
  rw [Server.Connected, Server.socketAt_eq hctx, ClientContext.isConnected]

theorem Server.Connected.lt {i : ℕ} (hi : s.Connected i) (ht : SlotTable n s) : i < n := by
  obtain ⟨sock, hsock⟩ := Server.connected_iff.1 hi
  obtain ⟨ctx, hctx, -⟩ := Option.bind_eq_some_iff.1 hsock
  exact ht.length ▸ Server.lt_of_context hctx

/-- A slot that is connected behind a step was connected before, or the step has attached a
connection to it. -/
theorem connected_of_step (h : step cfg s e = some s') {i : ℕ} (hi : s'.Connected i) :
    s.Connected i ∨
      e = .connectClient ∧ ∃ sock conn, s.acceptThread = .connecting i sock conn := by
  have hfoot := step_socketAt h i
  rw [Server.Connected] at hi
  generalize s'.socketAt i = x at hfoot hi
  cases hfoot with
  | same => exact Or.inl hi
  | attached he hpc => exact Or.inr ⟨he, _, _, hpc⟩
  | forgotten _ => cases hi

/-- A connected slot stays connected until it is freed. -/
theorem Server.Connected.step {i : ℕ} (hi : s.Connected i) (h : step cfg s e = some s')
    (hkept : ¬ Forgets s e i) : s'.Connected i := by
  have hfoot := step_socketAt h i
  rw [Server.Connected]
  generalize s'.socketAt i = x at hfoot
  cases hfoot with
  | same => exact hi
  | attached _ _ => rfl
  | forgotten hf => exact absurd hf hkept

/-- A socket that is about to be forgotten stays so until it is forgotten. -/
theorem Server.Forgetting.step {i : ℕ} (hi : s.Forgetting i) (h : step cfg s e = some s')
    (hkept : ¬ Forgets s e i) : s'.Forgetting i := by
  obtain ⟨w, c, hpc, rfl⟩ := hi
  rcases step_workThreads h with ⟨hsame, -⟩ | ⟨v, pc, pc', hmove, hv, hset⟩
  · exact ⟨w, c, hsame ▸ hpc, rfl⟩
  · by_cases hvw : v = w
    · subst hvw
      obtain rfl : pc = .forgetting c := Option.some.inj (hv.symm.trans hpc)
      generalize hpc' : WorkPc.forgetting c = pc at hmove
      cases hmove with
      | forgot =>
          obtain rfl := WorkPc.forgetting.inj hpc'
          exact absurd (Or.inl ⟨v, c, rfl, hpc, rfl⟩) hkept
      | _ => cases hpc'
    · refine ⟨w, c, ?_, rfl⟩
      rw [hset, List.getElem?_set_ne hvw]
      exact hpc

/-- Behind `Socket = INVALID_SOCKET` the slot is free. -/
theorem socketAt_of_forgets {i : ℕ} (hf : Forgets s e i) (h : step cfg s e = some s') :
    s'.socketAt i = none := by
  rcases hf with ⟨w, c, rfl, hpc, rfl⟩ | ⟨k, rfl, hk⟩
  · obtain ⟨c', hpc', hs'⟩ := Server.forgetSocket_some h
    obtain rfl : c = c' := by simpa [hpc] using hpc'
    exact Server.socketAt_of_forget (by rw [hs']; rfl)
  · obtain ⟨j, hj, hs'⟩ := Server.disconnectForget_some h
    obtain rfl : i = j := by simpa [hk] using hj
    exact Server.socketAt_of_forget (by rw [hs']; rfl)

/-- **A connected slot keeps its occupant**, because `AcceptThread` attaches to free slots only. -/
theorem occupant_of_connected (h : step cfg s e = some s') (ht : SlotTable n s) {i : ℕ}
    (hi : s.Connected i) : s'.history.occupant i = s.history.occupant i := by
  rcases occupant_of_step h with ⟨hocc, -⟩ | ⟨-, j, sock, conn, hpc, -, hocc⟩
  · rw [hocc]
  · rw [hocc]
    refine Function.update_of_ne ?_ _ _
    rintro rfl
    have hfree := ht.chosen_free i (by rw [hpc]; rfl)
    exact Server.not_connected_iff.2 hfree.2 hi

/-- Only `WSAAccept` counts an accepted connection. -/
theorem accepted_of_step (h : step cfg s e = some s') :
    s'.os.accepted = s.os.accepted ∧ (∀ sock, e ≠ .wsaAccept (some sock)) ∨
      s'.os.accepted = s.os.accepted + 1 ∧ ∃ i sock, e = .wsaAccept (some sock) ∧
        s'.acceptThread = .connecting i sock s.os.accepted := by
  cases e with
  | wsaAccept r =>
      cases r with
      | none => exact Or.inl ⟨((step_os h).sockets rfl).2.2, by simp⟩
      | some sock =>
          obtain ⟨i, -, -, -, rfl⟩ := Server.wsaAccept_some_some h
          exact Or.inr ⟨rfl, i, sock, rfl, rfl⟩
  | connectClient =>
      obtain ⟨i, sock, conn, -, rfl⟩ := Server.connectClient_some h
      exact Or.inl ⟨rfl, by simp⟩
  | checkConnected =>
      obtain ⟨i, sock, conn, c, -, -, ⟨-, rfl⟩ | ⟨-, rfl⟩⟩ := Server.checkConnected_some h <;>
        exact Or.inl ⟨rfl, by simp⟩
  | closeSocket w =>
      obtain ⟨c, ctx, -, -, rfl⟩ := Server.closeSocket_some h
      exact Or.inl ⟨rfl, by simp⟩
  | disconnect i =>
      obtain ⟨c, -, -, rfl⟩ := Server.disconnect_some h
      exact Or.inl ⟨rfl, by simp⟩
  | _ => exact Or.inl ⟨((step_os h).sockets rfl).2.2, by simp⟩

/-- The connection has been attached to a slot: it has been accepted, and `AcceptThread` has it no
longer in its hands. -/
structure Server.WasAttached (s : Server) (conn : ℕ) : Prop where
  lt : conn < s.os.accepted
  incoming : ∀ i sock, s.acceptThread ≠ .connecting i sock conn

/-- A connection is attached once. -/
theorem Server.WasAttached.step {conn : ℕ} (ha : s.WasAttached conn) (h : step cfg s e = some s') :
    s'.WasAttached conn := by
  rcases accepted_of_step h with ⟨hacc, hne⟩ | ⟨hacc, j, sock', -, hpc'⟩
  · exact ⟨hacc ▸ ha.lt,
      fun i sock hpc => ha.incoming i sock (Handles.connecting_of_step h hne hpc)⟩
  · have hlt := ha.lt
    refine ⟨by omega, fun i sock hpc => ?_⟩
    rw [hpc] at hpc'
    have hconn := (AcceptPc.connecting.inj hpc').2.2
    omega

/-! ### The invariant -/

/-- **Different slots are occupied by different connections.** -/
structure Occupancy (s : Server) : Prop where
  lt : ∀ i, s.Connected i → s.history.occupant i < s.os.accepted
  inj : ∀ i j, s.Connected i → s.Connected j → s.history.occupant i = s.history.occupant j → i = j
  /-- A connection that has been accepted and not yet attached occupies no slot. -/
  incoming : ∀ i sock conn, s.acceptThread = .connecting i sock conn →
    conn < s.os.accepted ∧ ∀ j, s.Connected j → s.history.occupant j ≠ conn
  attached : ∀ i conn, s.acceptThread.attached = some (i, conn) → s.history.occupant i = conn

namespace Occupancy

theorem init (mem : ℕ → Mem) (n workers : ℕ) : Occupancy (initServer mem n workers) := by
  have hfree : ∀ i, ¬ (initServer mem n workers).Connected i := by
    intro i
    simp [Server.Connected]
  refine ⟨fun i hi => absurd hi (hfree i), fun i j hi => absurd hi (hfree i), ?_, ?_⟩
  · intro i sock conn h
    cases h
  · intro i conn h
    cases h

/-- `ConnectClient` makes the incoming connection an occupant. -/
theorem connect_step (hs : Occupancy s)
    (h : IocpDemo.step cfg s .connectClient = some s') : Occupancy s' := by
  have hattached := attached_of_step h hs.attached
  obtain ⟨i, sock, conn, hpc, hs'⟩ := Server.connectClient_some h
  obtain ⟨hlt, hnew⟩ := hs.incoming i sock conn hpc
  have hocc : s'.history.occupant = Function.update s.history.occupant i conn := by rw [hs']
  have hacc : s'.os.accepted = s.os.accepted := by rw [hs']
  -- the other connected slots were connected before
  have hold : ∀ j, i ≠ j → s'.Connected j → s.Connected j := by
    intro j hij hj
    rcases connected_of_step h hj with hj | ⟨-, sock', conn', hpc'⟩
    · exact hj
    · rw [hpc] at hpc'
      cases hpc'
      exact absurd rfl hij
  refine ⟨fun j hj => ?_, fun j k hj hk heq => ?_, fun j sock' conn' hpc' => ?_, hattached⟩
  · rw [hocc, hacc]
    by_cases hij : i = j
    · rw [← hij, Function.update_self]
      exact hlt
    · rw [Function.update_of_ne (Ne.symm hij)]
      exact hs.lt j (hold j hij hj)
  · rw [hocc] at heq
    by_cases hij : i = j
    · by_cases hik : i = k
      · rw [← hij, ← hik]
      · rw [← hij, Function.update_self, Function.update_of_ne (Ne.symm hik)] at heq
        exact absurd heq.symm (hnew k (hold k hik hk))
    · by_cases hik : i = k
      · rw [← hik, Function.update_self, Function.update_of_ne (Ne.symm hij)] at heq
        exact absurd heq (hnew j (hold j hij hj))
      · rw [Function.update_of_ne (Ne.symm hij), Function.update_of_ne (Ne.symm hik)] at heq
        exact hs.inj j k (hold j hij hj) (hold k hik hk) heq
  · rw [hs'] at hpc'
    cases hpc'

theorem step (hs : Occupancy s) (h : IocpDemo.step cfg s e = some s') : Occupancy s' := by
  by_cases he : e = .connectClient
  · subst he
    exact hs.connect_step h
  · have hocc : s'.history.occupant = s.history.occupant := (step_frame h).occupant he
    have hold : ∀ j, s'.Connected j → s.Connected j := by
      intro j hj
      rcases connected_of_step h hj with hj | ⟨hconnect, -⟩
      · exact hj
      · exact absurd hconnect he
    have hle : s.os.accepted ≤ s'.os.accepted := by
      rcases accepted_of_step h with ⟨hacc, -⟩ | ⟨hacc, -⟩ <;> omega
    refine ⟨fun i hi => ?_, fun i j hi hj heq => ?_, fun i sock conn hpc => ?_,
      attached_of_step h hs.attached⟩
    · rw [hocc]
      exact Nat.lt_of_lt_of_le (hs.lt i (hold i hi)) hle
    · rw [hocc] at heq
      exact hs.inj i j (hold i hi) (hold j hj) heq
    · rcases accepted_of_step h with ⟨hacc, hne⟩ | ⟨hacc, j, sock', -, hpc'⟩
      · obtain ⟨hlt, hnew⟩ := hs.incoming i sock conn (Handles.connecting_of_step h hne hpc)
        refine ⟨hacc ▸ hlt, fun j hj => ?_⟩
        rw [hocc]
        exact hnew j (hold j hj)
      · -- the number of the new connection is larger than all others
        rw [hpc] at hpc'
        cases hpc'
        refine ⟨by omega, fun j hj => ?_⟩
        rw [hocc]
        have := hs.lt j (hold j hj)
        omega

/-- **The invariant of all runs.** -/
theorem of_reach {P : Server → Event → Prop} {mem : ℕ → Mem} {workers : ℕ}
    (h : Reach (IocpDemo.step cfg) P (initServer mem n workers) s) : Occupancy s :=
  h.invariant (init mem n workers) fun _ _ _ hs _ hstep => hs.step hstep

/-- The occupant of a connected slot has been attached. -/
theorem wasAttached (hs : Occupancy s) {i : ℕ} (hi : s.Connected i) :
    s.WasAttached (s.history.occupant i) :=
  ⟨hs.lt i hi, fun _ _ hpc => (hs.incoming _ _ _ hpc).2 i hi rfl⟩

end Occupancy

end IocpDemo
