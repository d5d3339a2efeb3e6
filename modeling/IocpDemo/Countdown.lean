/-
**Work that is left once a signal has been given.**

A part of a system is told to stop by a signal that is never taken back.  From then on each of its
steps uses up a rank that its program point has, unless the environment makes it repeat something.
So the number of its steps behind the signal is bounded by the largest rank and the number of
repetitions.

The steps are counted in a log that the system keeps: `counted` says which entries are steps of the
part behind the signal, and `repeated` which of them repeat something.

Main results:

* `Countdown.countP_add_rank_le` — **the number of steps is bounded**;
* `Countdown.countP_le` — the number of steps of a kind that a program point allows once.
-/

import IocpDemo.Transition

set_option relaxedAutoImplicit false
set_option autoImplicit false

namespace Countdown

open Transition

variable {σ ε α : Type*} {step : σ → ε → Option σ} {obs : σ → ε → List α}
  {P : σ × List α → ε → Prop} {s₀ : σ} {x : σ × List α}

/-- **The number of steps behind the signal is bounded**, when each of them uses up rank. -/
theorem countP_add_rank_le (signal : σ → Prop) (counted repeated : α → Bool)
    (rank : σ × List α → ℕ) {B c : ℕ} (hbound : ∀ x, rank x ≤ B)
    (hkept : ∀ s e t, signal s → step s e = some t → signal t)
    (hbefore : ∀ s e, ¬ signal s → (obs s e).countP counted = 0)
    (hbehind : ∀ x e t, Reach (logged step obs) P (s₀, []) x → P x e → signal x.1 →
      step x.1 e = some t → (obs x.1 e).countP counted + rank (t, x.2 ++ obs x.1 e) ≤
        rank x + c * (obs x.1 e).countP repeated)
    (h : Reach (logged step obs) P (s₀, []) x) :
    x.2.countP counted + rank x ≤ B + c * x.2.countP repeated := by
  suffices hinv : (¬ signal x.1 → x.2.countP counted = 0) ∧
      x.2.countP counted + rank x ≤ B + c * x.2.countP repeated from hinv.2
  induction h with
  | refl => exact ⟨fun _ => rfl, by simpa using hbound _⟩
  | @tail x y e hx hP hs ih =>
      obtain ⟨hnone, hle⟩ := ih
      obtain ⟨hs, hlog⟩ := logged_some hs
      obtain ⟨t, log⟩ := y
      obtain rfl : log = x.2 ++ obs x.1 e := hlog
      simp only [List.countP_append]
      by_cases hsignal : signal x.1
      · have hstep := hbehind x e t hx hP hsignal hs
        refine ⟨fun hnot => absurd (hkept _ _ _ hsignal hs) hnot, ?_⟩
        rw [Nat.mul_add]
        omega
      · have hzero := hbefore x.1 e hsignal
        have hrank := hbound (t, x.2 ++ obs x.1 e)
        have hsum : x.2.countP counted + (obs x.1 e).countP counted = 0 := by
          rw [hnone hsignal, hzero]
        exact ⟨fun _ => hsum, by omega⟩

/-- Steps of a kind that a program point allows once, and to which no step behind the signal leads,
are taken once at most. -/
theorem countP_le (signal allowed : σ → Prop) (counted : α → Bool)
    (hkept : ∀ s e t, signal s → step s e = some t → signal t)
    (hbefore : ∀ s e, ¬ signal s → (obs s e).countP counted = 0)
    (hlength : ∀ s e, (obs s e).length ≤ 1)
    (hallowed : ∀ s e t, signal s → step s e = some t → allowed t → allowed s)
    (hused : ∀ s e t, signal s → step s e = some t → (obs s e).countP counted ≠ 0 →
      allowed s ∧ ¬ allowed t)
    (h : Reach (logged step obs) P (s₀, []) x) : x.2.countP counted ≤ 1 := by
  classical
  have hcount := countP_add_rank_le signal counted (fun _ => false)
    (fun x => if allowed x.1 then 1 else 0) (B := 1) (c := 0) (fun x => by split <;> simp)
    hkept hbefore ?_ h
  · omega
  · intro x e t _ _ hsignal hs
    have hle : (obs x.1 e).countP counted ≤ 1 :=
      Nat.le_trans List.countP_le_length (hlength x.1 e)
    by_cases hzero : (obs x.1 e).countP counted = 0
    · by_cases ht : allowed t
      · simp [hzero, ht, hallowed _ _ _ hsignal hs ht]
      · simp [hzero, ht]
    · obtain ⟨hs, ht⟩ := hused _ _ _ hsignal hs hzero
      simpa [hs, ht] using hle

end Countdown
