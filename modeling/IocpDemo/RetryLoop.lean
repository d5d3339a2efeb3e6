/-
**Visiting a table, with retries.**

A loop goes over the positions of a table and makes attempts at those that are targets.  An attempt
at a target either succeeds or fails.  In the mode without retries the loop goes on to the next
position in any case; in the mode with retries it makes a further attempt at the same position until
one succeeds, so that it returns only if every target has an attempt that succeeds.

Main definitions:

* `RetryLoop.Attempt` — an attempt at a position, with its result;
* `RetryLoop.serve` — the loop, on a given number of iterations;
* `RetryLoop.ServesFrom` — the traces of attempts that the loop can make from a position on.

Main results:

* `RetryLoop.serves_of_serve` — the loop makes such a trace;
* `RetryLoop.ServesFrom.attempts_retry`, `RetryLoop.ServesFrom.attempts_once`,
  `RetryLoop.ServesFrom.pairwise` — **what a trace is**: its attempts at each target and their
  order;
* `RetryLoop.exists_serve_iff` — **when the loop returns**.
-/

import Mathlib.Data.Set.Finite.Basic
import Mathlib.Data.Option.Basic
import Mathlib.Data.List.Basic

set_option relaxedAutoImplicit false
set_option autoImplicit false

namespace RetryLoop

/-- An attempt at a position, and whether it succeeded. -/
structure Attempt where
  slot : ℕ
  sent : Bool
  deriving DecidableEq, Repr

section Loop

variable (n : ℕ) (target : ℕ → Bool) (retry : Bool) (answer : ℕ → ℕ → Bool)

/-- The loop from the position `i` on, of which `k` attempts have been made, on a table of `n`
positions; `answer i k` is the result of the `k`-th attempt at `i`.  It is `none` when the number of
iterations did not suffice. -/
def serve : ℕ → ℕ → ℕ → Option (List Attempt)
  | 0, _, _ => none
  | fuel + 1, i, k =>
      if i < n then
        if target i then
          if answer i k = false ∧ retry = true then
            (serve fuel i (k + 1)).map fun trace => ⟨i, answer i k⟩ :: trace
          else (serve fuel (i + 1) 0).map fun trace => ⟨i, answer i k⟩ :: trace
        else serve fuel (i + 1) 0
      else some []

/-- The traces of attempts from the position `i` on. -/
inductive ServesFrom : ℕ → List Attempt → Prop
  /-- Behind the last position. -/
  | done {i : ℕ} : n ≤ i → ServesFrom i []
  /-- The position is no target. -/
  | skip {i : ℕ} {trace : List Attempt} : i < n → target i = false → ServesFrom (i + 1) trace →
      ServesFrom i trace
  /-- The attempt fails and is followed by another one. -/
  | again {i : ℕ} {trace : List Attempt} : i < n → target i = true → retry = true →
      ServesFrom i trace → ServesFrom i (⟨i, false⟩ :: trace)
  /-- The attempt succeeds, or its result does not matter. -/
  | pass {i : ℕ} {sent : Bool} {trace : List Attempt} : i < n → target i = true →
      sent = true ∨ retry = false → ServesFrom (i + 1) trace → ServesFrom i (⟨i, sent⟩ :: trace)

end Loop

variable {n : ℕ} {target : ℕ → Bool} {retry : Bool} {answer : ℕ → ℕ → Bool} {i j k fuel : ℕ}
  {trace : List Attempt}

/-! ### One iteration -/

theorem serve_of_le (hi : n ≤ i) : serve n target retry answer (fuel + 1) i k = some [] := by
  rw [serve, if_neg (by omega)]

theorem serve_of_not_target (hi : i < n) (ht : target i = false) :
    serve n target retry answer (fuel + 1) i k = serve n target retry answer fuel (i + 1) 0 := by
  rw [serve, if_pos hi, if_neg (by simp [ht])]

theorem serve_again (hi : i < n) (ht : target i = true) (ha : answer i k = false)
    (hr : retry = true) : serve n target retry answer (fuel + 1) i k =
      (serve n target retry answer fuel i (k + 1)).map fun trace => ⟨i, false⟩ :: trace := by
  rw [serve, if_pos hi, if_pos ht, if_pos ⟨ha, hr⟩, ha]

theorem serve_pass (hi : i < n) (ht : target i = true) (ha : answer i k = true ∨ retry = false) :
    serve n target retry answer (fuel + 1) i k =
      (serve n target retry answer fuel (i + 1) 0).map fun trace => ⟨i, answer i k⟩ :: trace := by
  have hnot : ¬ (answer i k = false ∧ retry = true) := by
    rintro ⟨hfalse, hretry⟩
    rcases ha with ha | ha
    · simp [ha] at hfalse
    · simp [ha] at hretry
  rw [serve, if_pos hi, if_pos ht, if_neg hnot]

/-- What an iteration does. -/
inductive Iteration (n : ℕ) (target : ℕ → Bool) (retry : Bool) (answer : ℕ → ℕ → Bool) (i k : ℕ) :
    Prop
  | done : n ≤ i → Iteration n target retry answer i k
  | skip : i < n → target i = false → Iteration n target retry answer i k
  | again : i < n → target i = true → answer i k = false → retry = true →
      Iteration n target retry answer i k
  | pass : i < n → target i = true → answer i k = true ∨ retry = false →
      Iteration n target retry answer i k

theorem iteration_cases (n : ℕ) (target : ℕ → Bool) (retry : Bool) (answer : ℕ → ℕ → Bool)
    (i k : ℕ) : Iteration n target retry answer i k := by
  rcases Nat.lt_or_ge i n with hi | hi
  · cases ht : target i with
    | false => exact .skip hi ht
    | true =>
        cases ha : answer i k with
        | true => exact .pass hi ht (Or.inl ha)
        | false =>
            cases hr : retry with
            | false => exact .pass hi ht (Or.inr rfl)
            | true => exact .again hi ht ha rfl
  · exact .done hi

/-! ### The traces of the loop -/

/-- **The loop makes a trace of attempts.** -/
theorem serves_of_serve (h : serve n target retry answer fuel i k = some trace) :
    ServesFrom n target retry i trace := by
  induction fuel generalizing i k trace with
  | zero => cases h
  | succ fuel ih =>
      cases iteration_cases n target retry answer i k with
      | done hi =>
          rw [serve_of_le hi] at h
          obtain rfl := Option.some.inj h
          exact .done hi
      | skip hi ht =>
          rw [serve_of_not_target hi ht] at h
          exact .skip hi ht (ih h)
      | again hi ht ha hr =>
          rw [serve_again hi ht ha hr] at h
          obtain ⟨rest, hrest, rfl⟩ := Option.map_eq_some_iff.1 h
          exact .again hi ht hr (ih hrest)
      | pass hi ht ha =>
          rw [serve_pass hi ht ha] at h
          obtain ⟨rest, hrest, rfl⟩ := Option.map_eq_some_iff.1 h
          exact .pass hi ht ha (ih hrest)

/-- Where the loop returns in the mode with retries, each target has an attempt that succeeds. -/
theorem exists_answer_of_serve (h : serve n target true answer fuel i k = some trace) (hij : i ≤ j)
    (hj : j < n) (ht : target j = true) : ∃ l, answer j l = true := by
  induction fuel generalizing i k trace with
  | zero => cases h
  | succ fuel ih =>
      cases iteration_cases n target true answer i k with
      | done hi => omega
      | skip hi hskip =>
          rw [serve_of_not_target hi hskip] at h
          have hne : i ≠ j := by
            rintro rfl
            simp [ht] at hskip
          exact ih h (by omega)
      | again hi hti ha hr =>
          rw [serve_again hi hti ha hr] at h
          obtain ⟨rest, hrest, -⟩ := Option.map_eq_some_iff.1 h
          exact ih hrest hij
      | pass hi hti ha =>
          by_cases hne : i = j
          · subst hne
            exact ⟨k, ha.resolve_right (by simp)⟩
          · rw [serve_pass hi hti ha] at h
            obtain ⟨rest, hrest, -⟩ := Option.map_eq_some_iff.1 h
            exact ih hrest (by omega)

/-! ### What a trace is -/

namespace ServesFrom

/-- Attempts are made at targets, from the position on. -/
theorem slot_of_mem (h : ServesFrom n target retry i trace) {a : Attempt} (ha : a ∈ trace) :
    i ≤ a.slot ∧ a.slot < n ∧ target a.slot = true := by
  induction h with
  | done _ => cases ha
  | skip hi _ _ ih =>
      obtain ⟨hle, hrest⟩ := ih ha
      exact ⟨by omega, hrest⟩
  | again hi ht _ _ ih =>
      rcases List.mem_cons.1 ha with rfl | ha
      · exact ⟨Nat.le_refl _, hi, ht⟩
      · exact ih ha
  | pass hi ht _ _ ih =>
      rcases List.mem_cons.1 ha with rfl | ha
      · exact ⟨Nat.le_refl _, hi, ht⟩
      · obtain ⟨hle, hrest⟩ := ih ha
        exact ⟨by omega, hrest⟩

/-- **The targets are served in increasing order.** -/
theorem pairwise (h : ServesFrom n target retry i trace) :
    trace.Pairwise fun a b => a.slot ≤ b.slot := by
  induction h with
  | done _ => exact List.Pairwise.nil
  | skip _ _ _ ih => exact ih
  | again _ _ _ hrest ih =>
      refine List.pairwise_cons.2 ⟨?_, ih⟩
      intro b hb
      exact (hrest.slot_of_mem hb).1
  | pass _ _ _ hrest ih =>
      refine List.pairwise_cons.2 ⟨?_, ih⟩
      intro b hb
      have hle := (hrest.slot_of_mem hb).1
      exact Nat.le_of_succ_le hle

/-- There is no attempt at a position that has been passed. -/
theorem filter_of_lt (h : ServesFrom n target retry i trace) (hj : j < i) :
    trace.filter (fun a => a.slot = j) = [] := by
  refine List.filter_eq_nil_iff.2 ?_
  intro a ha
  have hle := (h.slot_of_mem ha).1
  simp only [decide_eq_true_eq]
  omega

/-- **With retries**: the attempts at a target are some that fail, and one that succeeds. -/
theorem attempts_retry (h : ServesFrom n target true i trace) (hij : i ≤ j) (hj : j < n)
    (ht : target j = true) :
    ∃ m, trace.filter (fun a => a.slot = j) = List.replicate m ⟨j, false⟩ ++ [⟨j, true⟩] := by
  induction h with
  | done hi => omega
  | @skip i trace hi hskip _ ih =>
      have hne : i ≠ j := by
        rintro rfl
        simp [ht] at hskip
      exact ih (by omega)
  | @again i trace _ _ _ _ ih =>
      obtain ⟨m, hm⟩ := ih hij
      by_cases hne : i = j
      · exact ⟨m + 1, by simp [hne, hm, List.replicate_succ]⟩
      · exact ⟨m, by simp [hne, hm]⟩
  | @pass i sent trace _ _ hsent hrest ih =>
      by_cases hne : i = j
      · subst hne
        obtain rfl : sent = true := hsent.resolve_right (by simp)
        refine ⟨0, ?_⟩
        simp [hrest.filter_of_lt (Nat.lt_succ_self i)]
      · obtain ⟨m, hm⟩ := ih (by omega)
        exact ⟨m, by simp [hne, hm]⟩

/-- **Without retries**: there is one attempt at a target. -/
theorem attempts_once (h : ServesFrom n target false i trace) (hij : i ≤ j) (hj : j < n)
    (ht : target j = true) : ∃ sent, trace.filter (fun a => a.slot = j) = [⟨j, sent⟩] := by
  induction h with
  | done hi => omega
  | @skip i trace hi hskip _ ih =>
      have hne : i ≠ j := by
        rintro rfl
        simp [ht] at hskip
      exact ih (by omega)
  | again _ _ hr _ _ => cases hr
  | @pass i sent trace _ _ _ hrest ih =>
      by_cases hne : i = j
      · subst hne
        refine ⟨sent, ?_⟩
        simp [hrest.filter_of_lt (Nat.lt_succ_self i)]
      · obtain ⟨sent', hsent'⟩ := ih (by omega)
        exact ⟨sent', by simp [hne, hsent']⟩

/-- At every target there has been an attempt. -/
theorem exists_attempt (h : ServesFrom n target retry i trace) (hij : i ≤ j) (hj : j < n)
    (ht : target j = true) : ∃ a ∈ trace, a.slot = j := by
  have hne : trace.filter (fun a => a.slot = j) ≠ [] := by
    cases retry with
    | true =>
        obtain ⟨m, hm⟩ := h.attempts_retry hij hj ht
        simp [hm]
    | false =>
        obtain ⟨sent, hsent⟩ := h.attempts_once hij hj ht
        simp [hsent]
  obtain ⟨a, ha⟩ := List.exists_mem_of_ne_nil _ hne
  obtain ⟨hmem, hslot⟩ := List.mem_filter.1 ha
  exact ⟨a, hmem, of_decide_eq_true hslot⟩

end ServesFrom

/-! ### When the loop returns -/

/-- From a position that is not attempted again the loop gets to the next one. -/
theorem exists_serve_of_next (hi : i < n)
    (hrest : ∃ fuel trace, serve n target retry answer fuel (i + 1) 0 = some trace)
    (ha : target i = true → retry = true → answer i k = true) :
    ∃ fuel trace, serve n target retry answer fuel i k = some trace := by
  obtain ⟨fuel, trace, hrest⟩ := hrest
  cases iteration_cases n target retry answer i k with
  | done hge => omega
  | skip _ ht => exact ⟨fuel + 1, trace, by rw [serve_of_not_target hi ht, hrest]⟩
  | again _ ht hfalse hr =>
      rw [ha ht hr] at hfalse
      cases hfalse
  | pass _ ht hpass => exact ⟨fuel + 1, _, by rw [serve_pass hi ht hpass, hrest, Option.map_some]⟩

/-- From a position whose attempts fail `m` more times at most the loop gets to the next one. -/
theorem exists_serve_of_answer {m : ℕ} (hi : i < n)
    (hrest : ∃ fuel trace, serve n target retry answer fuel (i + 1) 0 = some trace)
    (ha : target i = true → retry = true → answer i (k + m) = true) :
    ∃ fuel trace, serve n target retry answer fuel i k = some trace := by
  induction m generalizing k with
  | zero => exact exists_serve_of_next hi hrest ha
  | succ m ih =>
      by_cases hnow : target i = true → retry = true → answer i k = true
      · exact exists_serve_of_next hi hrest hnow
      · push Not at hnow
        obtain ⟨ht, hr, hne⟩ := hnow
        obtain ⟨fuel, trace, hagain⟩ := ih (k := k + 1) (by
          intro ht hr
          have hlater := ha ht hr
          rwa [show k + (m + 1) = k + 1 + m by omega] at hlater)
        have hfalse : answer i k = false := by simpa using hne
        exact ⟨fuel + 1, _, by rw [serve_again hi ht hfalse hr, hagain, Option.map_some]⟩

/-- The loop returns when each target that is still to come has an attempt that succeeds. -/
theorem exists_serve (ha : retry = true → ∀ j < n, target j = true → ∃ l, answer j l = true)
    (i : ℕ) : ∃ fuel trace, serve n target retry answer fuel i 0 = some trace := by
  -- the induction is on the number of positions from `i` on
  induction hd : n - i generalizing i with
  | zero => exact ⟨1, [], serve_of_le (by omega)⟩
  | succ d ih =>
      have hi : i < n := by omega
      have hrest := ih (i + 1) (by omega)
      by_cases hstay : target i = true ∧ retry = true
      · obtain ⟨l, hl⟩ := ha hstay.2 i hi hstay.1
        refine exists_serve_of_answer (m := l) hi hrest ?_
        intro _ _
        rwa [Nat.zero_add]
      · refine exists_serve_of_answer (m := 0) hi hrest ?_
        intro ht hr
        exact absurd ⟨ht, hr⟩ hstay

/-- **When the loop returns**: in the mode with retries, each target has an attempt that succeeds.
-/
theorem exists_serve_iff : (∃ fuel trace, serve n target retry answer fuel 0 0 = some trace) ↔
    (retry = true → ∀ j < n, target j = true → ∃ l, answer j l = true) := by
  constructor
  · rintro ⟨fuel, trace, h⟩ rfl j hj ht
    exact exists_answer_of_serve h (Nat.zero_le j) hj ht
  · intro ha
    exact exists_serve ha 0

end RetryLoop
