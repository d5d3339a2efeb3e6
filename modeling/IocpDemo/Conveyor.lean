/-
**A queue with one consumer.**

Producers append items to the end of a queue.  One consumer takes the item at the front, drops it
when it is of no use, keeps it for a while otherwise, and gives it on.  Whatever else the system
does, what has been given, what is held and what is queued together are what has been pushed, in the
order in which it was pushed.

The steps of a system are described by their *balance*: what was pending before, with what the step
pushes, is what the step gives on, with what is pending behind it.

Main definitions:

* `Conveyor.Belt` — what the consumer holds and what is queued;
* `Conveyor.Belt.pending` — the items of use on the belt;
* `Conveyor.Balances` — the balance of a step.

Main results:

* `Conveyor.balances_push`, `Conveyor.balances_pop`, `Conveyor.balances_give`,
  `Conveyor.Balances.trans` — the balance of the elementary moves;
* `Conveyor.conserved_of_reach` — **conservation over every run of a system whose steps balance**;
* `Conveyor.balances_of_reach` — the balance of a run from any state, where the steps balance under
  an invariant only.
-/

import IocpDemo.Transition

set_option relaxedAutoImplicit false
set_option autoImplicit false

namespace Conveyor

open Transition

variable {α : Type*}

/-- What the consumer holds, and what is queued. -/
structure Belt (α : Type*) where
  held : List α := []
  queue : List α := []

section Balance

variable (keep : α → Prop) [DecidablePred keep]

/-- The items on the belt, but for the queued ones that the consumer is going to drop. -/
def Belt.pending (b : Belt α) : List α := b.held ++ b.queue.filter keep

/-- A step from `b` to `b'` that pushes `pushed` and gives `given` on. -/
def Balances (b : Belt α) (pushed given : List α) (b' : Belt α) : Prop :=
  b.pending keep ++ pushed.filter keep = given ++ b'.pending keep

variable {keep}

theorem Balances.refl (b : Belt α) : Balances keep b [] [] b := by simp [Balances]

theorem Balances.trans {b c d : Belt α} {p p' g g' : List α} (h : Balances keep b p g c)
    (h' : Balances keep c p' g' d) : Balances keep b (p ++ p') (g ++ g') d := by
  rw [Balances] at h h' ⊢
  rw [List.filter_append, ← List.append_assoc, h, List.append_assoc, h', List.append_assoc]

variable (keep)

/-- Producers append to the queue. -/
theorem balances_push (held queue pushed : List α) :
    Balances keep ⟨held, queue⟩ pushed [] ⟨held, queue ++ pushed⟩ := by
  simp [Balances, Belt.pending]

/-- The consumer takes the first item, or drops it. -/
theorem balances_pop (a : α) (queue : List α) :
    Balances keep ⟨[], a :: queue⟩ [] [] ⟨if keep a then [a] else [], queue⟩ := by
  by_cases ha : keep a <;> simp [Balances, Belt.pending, ha]

/-- The consumer gives on what it holds. -/
theorem balances_give (held queue : List α) :
    Balances keep ⟨held, queue⟩ [] held ⟨[], queue⟩ := by
  simp [Balances, Belt.pending]

end Balance

section Runs

variable {σ ε ω : Type*} {step : σ → ε → Option σ} {obs : σ → ε → List ω}
  {P : σ × List ω → ε → Prop}
  {keep : α → Prop} [DecidablePred keep] (belt : σ → Belt α) {pushed given : ω → List α}
  {s₀ : σ} {x : σ × List ω}

/-- **Conservation.**  In a run that is logged, the items of use that have been pushed are those
that have been given on, followed by those that are held and queued. -/
theorem conserved_of_reach (h₀ : belt s₀ = {})
    (hstep : ∀ s e t, step s e = some t → Balances keep (belt s) ((obs s e).flatMap pushed)
      ((obs s e).flatMap given) (belt t))
    (h : Reach (logged step obs) P (s₀, []) x) :
    x.2.flatMap given ++ (belt x.1).pending keep = (x.2.flatMap pushed).filter keep := by
  refine h.logged_invariant
    (I := fun s log => log.flatMap given ++ (belt s).pending keep =
      (log.flatMap pushed).filter keep) ?_ fun s log e t hlog _ hs => ?_
  · simp [h₀, Belt.pending]
  · have hbalance := hstep s e t hs
    rw [Balances] at hbalance
    rw [List.flatMap_append, List.flatMap_append, List.filter_append, ← hlog, List.append_assoc,
      List.append_assoc, hbalance]

/-- **The balance of a run.**  What was pending at first, with what has been pushed since, is what
has been given on since, with what is pending now.  The steps need balance only in the states that
meet an invariant. -/
theorem balances_of_reach {I : σ → Prop} (h₀ : I s₀)
    (hstep : ∀ s log e t, I s → P (s, log) e → step s e = some t →
      I t ∧ Balances keep (belt s) ((obs s e).flatMap pushed) ((obs s e).flatMap given) (belt t))
    (h : Reach (logged step obs) P (s₀, []) x) :
    I x.1 ∧ Balances keep (belt s₀) (x.2.flatMap pushed) (x.2.flatMap given) (belt x.1) := by
  refine h.logged_invariant
    (I := fun s log => I s ∧ Balances keep (belt s₀) (log.flatMap pushed) (log.flatMap given)
      (belt s)) ⟨h₀, Balances.refl _⟩ fun s log e t hs hP hst => ?_
  obtain ⟨hI, hbalance⟩ := hs
  obtain ⟨hI', hbalance'⟩ := hstep s log e t hI hP hst
  rw [List.flatMap_append, List.flatMap_append]
  exact ⟨hI', hbalance.trans hbalance'⟩

/-- What one step has pushed stays together. -/
theorem block_of_mem {log : List ω} {a : ω} (ha : a ∈ log) :
    ∃ before after, log.flatMap pushed = before ++ pushed a ++ after := by
  obtain ⟨l, l', rfl⟩ := List.append_of_mem ha
  exact ⟨l.flatMap pushed, l'.flatMap pushed, by simp⟩

end Runs

end Conveyor
