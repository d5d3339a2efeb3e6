/-
**How long an item waits in a queue with one consumer.**

The balance of a belt (`Conveyor.Balances`) says that nothing is lost, but not that the consumer
gets anywhere: between two items it may look at an empty queue again and again.  While something is
on the belt that was there at first, it cannot.  So a bound on the steps that the consumer takes for
one item gives a bound on the steps until it has given on all that was on the belt at first, however
much is pushed behind it.

The steps are counted in the log that the system keeps: `counted` says which entries are steps of
the consumer, and `repeated` which of them have to be repeated.

Main definitions:

* `Conveyor.Timely` — what a step does to the queue, and how many steps of the consumer are left.

Main results:

* `Conveyor.served_in_time` — **in a run with enough steps of the consumer, everything that was on
  the belt at first is given on**.
-/

import IocpDemo.Conveyor

set_option relaxedAutoImplicit false
set_option autoImplicit false

namespace Conveyor

open Transition

variable {σ ε α ω : Type*} {step : σ → ε → Option σ} {obs : σ → ε → List ω}
  {P : σ × List ω → ε → Prop} {pushed : ω → List α} {counted repeated : ω → Bool}
  {cost : σ → ℕ → ℕ} {c : ℕ} {s₀ : σ} {x : σ × List ω}

/-- What a step from `s` to `t` that shows `log` does to the queue: it appends what it pushes, or the
consumer, with empty hands, takes the first item, if there is one.  In `s` it will take the consumer
`cost s a` steps to be done with what it holds and with the first `a` items of the queue; the step
uses up what it counts, and a repetition gives `c` back. -/
inductive Timely (belt : σ → Belt α) (pushed : ω → List α) (counted repeated : ω → Bool)
    (cost : σ → ℕ → ℕ) (c : ℕ) (s : σ) (log : List ω) (t : σ) : Prop
  | appended (hqueue : (belt t).queue = (belt s).queue ++ log.flatMap pushed)
      (hcost : ∀ a, (a = 0 → (belt s).held ≠ []) →
        log.countP counted + cost t a ≤ cost s a + c * log.countP repeated)
  | taken {y : α} (hheld : (belt s).held = []) (hpushed : log.flatMap pushed = [])
      (hqueue : (belt s).queue = y :: (belt t).queue)
      (hcost : ∀ a, log.countP counted + cost t a ≤ cost s (a + 1) + c * log.countP repeated)
  | idle (hheld : (belt s).held = []) (hqueue : (belt s).queue = [])

/-- What is left of the items that were queued at first has not been given on. -/
theorem eq_of_balances {keep : α → Prop} [DecidablePred keep] {b b' : Belt α}
    {p g rest : List α} (h : Balances keep b p g b') (hqueue : b'.queue = rest ++ p) :
    b.pending keep = g ++ (b'.held ++ rest.filter keep) := by
  rw [Balances, Belt.pending, Belt.pending, hqueue, List.filter_append, ← List.append_assoc,
    ← List.append_assoc] at h
  rw [Belt.pending, ← List.append_assoc]
  exact List.append_cancel_right h

/-- **Everything is given on in time.**  In a run from `s₀` in which the consumer takes more steps
than what is on the belt costs, with those that repetitions cost, it gives on all that was on the
belt at first, before anything else. -/
theorem served_in_time (keep : α → Prop) [DecidablePred keep] (belt : σ → Belt α)
    (given : ω → List α) {I : σ → Prop} (h₀ : I s₀)
    (hbalance : ∀ s log e t, I s → P (s, log) e → step s e = some t →
      I t ∧ Balances keep (belt s) ((obs s e).flatMap pushed) ((obs s e).flatMap given) (belt t))
    (htimely : ∀ s e t, I s → step s e = some t →
      Timely belt pushed counted repeated cost c s (obs s e) t)
    (h : Reach (logged step obs) P (s₀, []) x)
    (htime : cost s₀ (belt s₀).queue.length + c * x.2.countP repeated < x.2.countP counted) :
    (belt s₀).pending keep <+: x.2.flatMap given := by
  have hall : ∀ y, Reach (logged step obs) P (s₀, []) y →
      I y.1 ∧ Balances keep (belt s₀) (y.2.flatMap pushed) (y.2.flatMap given) (belt y.1) :=
    fun _ hy => balances_of_reach belt h₀ hbalance hy
  suffices hinv : (belt s₀).pending keep <+: x.2.flatMap given ∨
      ∃ rest, (belt x.1).queue = rest ++ x.2.flatMap pushed ∧
        x.2.countP counted + cost x.1 rest.length ≤
          cost s₀ (belt s₀).queue.length + c * x.2.countP repeated by
    rcases hinv with hgiven | ⟨rest, -, hcost⟩
    · exact hgiven
    · omega
  clear htime
  induction h with
  | refl => exact Or.inr ⟨(belt s₀).queue, by simp, by simp⟩
  | @tail x z e hx hP hs ih =>
      obtain ⟨hs, hlog⟩ := logged_some hs
      rw [hlog]
      simp only [List.flatMap_append, List.countP_append]
      rcases ih with hgiven | ⟨rest, hqueue, hcost⟩
      · exact Or.inl (hgiven.trans (List.prefix_append _ _))
      · obtain ⟨hI, hbelt⟩ := hall x hx
        have hleft := eq_of_balances hbelt hqueue
        -- when nothing is left, everything has been given on
        have hdone : rest = [] → (belt x.1).held = [] →
            (belt s₀).pending keep <+: x.2.flatMap given ++ (obs x.1 e).flatMap given := by
          intro hrest hheld
          rw [hleft, hrest, hheld]
          simp
        rw [Nat.mul_add]
        cases htimely _ _ _ hI hs with
        | appended hqueue' hcost' =>
            by_cases hnone : rest = [] ∧ (belt x.1).held = []
            · exact Or.inl (hdone hnone.1 hnone.2)
            · have hstep := hcost' rest.length fun hlength hheld =>
                hnone ⟨List.length_eq_zero_iff.1 hlength, hheld⟩
              exact Or.inr ⟨rest, by rw [hqueue', hqueue, List.append_assoc], by omega⟩
        | taken hheld hpushed hqueue' hcost' =>
            cases rest with
            | nil => exact Or.inl (hdone rfl hheld)
            | cons y rest =>
                rw [hqueue', List.cons_append, List.cons.injEq] at hqueue
                have hstep := hcost' rest.length
                rw [List.length_cons] at hcost
                exact Or.inr ⟨rest, by rw [hpushed, List.append_nil, hqueue.2], by omega⟩
        | idle hheld hempty =>
            rw [hempty] at hqueue
            exact Or.inl (hdone (List.append_eq_nil_iff.1 hqueue.symm).1 hheld)

end Conveyor
