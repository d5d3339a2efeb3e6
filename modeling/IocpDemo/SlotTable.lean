/-
**What holds of the slot table in every run.**

`CreateClient` fills `ClientContexts` once and numbers the contexts; no thread adds, removes or
renumbers one.  `AcceptThread` is the only thread that attaches a socket, so the slot it has found
empty stays empty until it attaches the new socket itself.

Main definitions:

* `IocpDemo.AcceptPc.slot`, `IocpDemo.AcceptPc.chosen` — the slot `AcceptThread` works on;
* `IocpDemo.SlotTable` — the invariant.

Main results:

* `IocpDemo.SlotTable.of_reach` — **the invariant of all runs**;
* `IocpDemo.SlotTable.getIndex_eq` — `GetIndex` of the `i`-th context is `i`.
-/

import IocpDemo.Steps
import IocpDemo.Transition

set_option relaxedAutoImplicit false
set_option autoImplicit false

namespace IocpDemo

open Bytes Transition

variable {cfg : Config} {s s' : Server} {n : ℕ}

/-! ### The slot the accept thread works on -/

/-- The slot `AcceptThread` works on, from the moment it has found it empty. -/
def AcceptPc.slot : AcceptPc → Option ℕ
  | .accepting i | .connecting i _ _ | .checking i _ _ | .counting i _ | .greeting i _
  | .arming i _ => some i
  | .scan _ | .returned => none

/-- The slot found empty, as long as no socket has been attached to it. -/
def AcceptPc.chosen : AcceptPc → Option ℕ
  | .accepting i | .connecting i _ _ => some i
  | _ => none

theorem AcceptPc.slot_of_chosen {pc : AcceptPc} {i : ℕ} (h : pc.chosen = some i) :
    pc.slot = some i := by
  cases pc <;> first | exact h | cases h

/-- Only `ConnectClient` takes a free slot. -/
theorem Server.IsFree.step {e : Event} {i : ℕ} (hfree : s.IsFree i) (h : step cfg s e = some s')
    (he : e ≠ .connectClient) : s'.IsFree i := by
  refine ⟨by rw [step_length h]; exact hfree.1, ?_⟩
  have hfoot := step_socketAt h i
  generalize s'.socketAt i = x at hfoot ⊢
  cases hfoot with
  | same => exact hfree.2
  | attached hconnect _ => exact absurd hconnect he
  | forgotten _ => rfl

/-- The scan stops at a slot it finds empty. -/
theorem Server.isFree_of_scanNext {s : Server} {k i : ℕ}
    (h : (Server.scanNext s.contexts k).slot = some i) : s.IsFree i := by
  cases hk : s.contexts[k]? with
  | none => simp [Server.scanNext, hk, AcceptPc.slot] at h
  | some c =>
      cases hc : c.isConnected with
      | true => simp [Server.scanNext, hk, hc, AcceptPc.slot] at h
      | false =>
          have hki : k = i := by simpa [Server.scanNext, hk, hc, AcceptPc.slot] using h
          subst hki
          refine ⟨Server.lt_of_context hk, ?_⟩
          rw [Server.socketAt_eq hk]
          simpa [ClientContext.isConnected] using hc

/-- Initially all slots are free. -/
@[simp] theorem Server.socketAt_initServer (mem : ℕ → Mem) (n workers i : ℕ) :
    (initServer mem n workers).socketAt i = none := by
  simp only [Server.socketAt, initServer, createClient, List.nil_append, List.getElem?_map]
  cases (List.range n)[i]? <;> rfl

/-! ### The invariant -/

/-- **The table of `n` slots.** -/
structure SlotTable (n : ℕ) (s : Server) : Prop where
  length : s.contexts.length = n
  index : ∀ i c, s.contexts[i]? = some c → c.index = (UInt32.ofNat i).toInt32
  slot_lt : ∀ i, s.acceptThread.slot = some i → i < n
  chosen_free : ∀ i, s.acceptThread.chosen = some i → s.IsFree i

namespace SlotTable

theorem init (mem : ℕ → Mem) (n workers : ℕ) : SlotTable n (initServer mem n workers) where
  length := by simp [initServer, createClient]
  index i c h := by
    simp only [initServer, createClient, List.nil_append, List.getElem?_map,
      Option.map_eq_some_iff] at h
    obtain ⟨a, ha, rfl⟩ := h
    obtain ⟨-, rfl⟩ : i < n ∧ i = a := by simpa [List.getElem?_eq_some_iff] using ha
    rfl
  slot_lt i h := by simp [initServer, AcceptPc.slot] at h
  chosen_free i h := by simp [initServer, AcceptPc.chosen] at h

/-- The numbering survives every step, because no step changes an index. -/
theorem index_step {e : Event} (h : step cfg s e = some s')
    (hi : ∀ i c, s.contexts[i]? = some c → c.index = (UInt32.ofNat i).toInt32) (i : ℕ)
    (c : ClientContext) (hc : s'.contexts[i]? = some c) : c.index = (UInt32.ofNat i).toInt32 := by
  have hmap := step_index h i
  rw [hc] at hmap
  cases hs : s.contexts[i]? with
  | none => simp [hs] at hmap
  | some d =>
      have hcd : c.index = d.index := by simpa [hs] using hmap
      rw [hcd]
      exact hi i d hs

/-- The slot the accept thread works on is the one it worked on before the step, or one that it has
just seen empty. -/
theorem slot_step {e : Event} (h : step cfg s e = some s') {i : ℕ}
    (hi : s'.acceptThread.slot = some i) : s.acceptThread.slot = some i ∨ s.IsFree i := by
  rcases step_acceptThread h with ⟨hsame, -⟩ | hmove
  · exact Or.inl (hsame ▸ hi)
  · generalize s'.acceptThread = pc at hmove hi
    cases hmove with
    | scanned _ => exact Or.inr (Server.isFree_of_scanNext hi)
    | failed _ | dropped _ _ _ | armed _ => cases hi
    | accepted hpc _ _ | attached hpc | kept hpc _ _ | counted hpc | greeted hpc _ =>
        exact Or.inl (by rw [hpc]; exact hi)

/-- A slot that has been found empty stays empty until the accept thread attaches a socket. -/
theorem chosen_step {e : Event} (h : step cfg s e = some s')
    (hfree : ∀ i, s.acceptThread.chosen = some i → s.IsFree i) (i : ℕ)
    (hi : s'.acceptThread.chosen = some i) : s'.IsFree i := by
  rcases step_acceptThread h with ⟨hsame, hthread⟩ | hmove
  · refine (hfree i (hsame ▸ hi)).step h ?_
    rintro rfl
    exact hthread rfl
  · generalize s'.acceptThread = pc at hmove hi
    cases hmove with
    | scanned _ =>
        have hseen := Server.isFree_of_scanNext (AcceptPc.slot_of_chosen hi)
        exact hseen.step h (by simp)
    | accepted hpc _ _ => exact (hfree i (by rw [hpc]; exact hi)).step h (by simp)
    | _ => cases hi

theorem step {e : Event} (hs : SlotTable n s) (h : IocpDemo.step cfg s e = some s') :
    SlotTable n s' where
  length := by rw [step_length h, hs.length]
  index := index_step h hs.index
  slot_lt i hi := by
    rcases slot_step h hi with hslot | ⟨hlt, -⟩
    · exact hs.slot_lt i hslot
    · exact hs.length ▸ hlt
  chosen_free := chosen_step h hs.chosen_free

/-- **The slot table in every run.** -/
theorem of_reach {P : Server → Event → Prop} {mem : ℕ → Mem} {workers : ℕ}
    (h : Reach (IocpDemo.step cfg) P (initServer mem n workers) s) : SlotTable n s :=
  h.invariant (init mem n workers) fun _ _ _ hi _ hs => hi.step hs

theorem getIndex_eq (hs : SlotTable n s) {i : ℕ} {c : ClientContext}
    (hc : s.contexts[i]? = some c) :
    c.getIndex = UInt32.ofNat i := by
  simp [ClientContext.getIndex, hs.index i c hc]

end SlotTable

end IocpDemo
