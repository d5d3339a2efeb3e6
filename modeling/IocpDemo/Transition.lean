/-
**Partial-step systems, their runs and their invariants.**

A system of interacting threads is given by a partial step function `step : σ → ε → Option σ`: in
the state `s` the event `e` is possible when `step s e` is `some t`, and then leads to `t`.  All the
nondeterminism (which thread moves, what the environment answers) sits in the events, so a finite
interleaving is nothing but a list of events.

Main definitions:

* `Transition.run` — performing a list of events;
* `Transition.Reach` — the states reached by steps that each meet a condition `P` on the state
  before the step and on the event; the reachable states are those of
  `Reach step (fun _ _ => True)`;
* `Transition.runIf` — performing a list of events while checking a decidable condition;
* `Transition.logged` — the same system together with a log of what its steps show;
* `Transition.componentOf` — what a log shows of one component.

Main results:

* `Transition.Reach.invariant` — **the invariant rule**: what holds initially and is preserved by
  every step meeting the condition holds in every state reached;
* `Transition.Reach.and_invariant` — the same rule relative to an invariant already known;
* `Transition.Reach.project` — **the projection rule**: a system whose steps are steps of another
  one refines it;
* `Transition.Reach.of_run`, `Transition.Reach.of_run_of_forall`, `Transition.Reach.of_runIf` — a
  run, checked or not, witnesses reachability; `Transition.Reach.exists_of_run` and
  `Transition.Reach.exists_of_runIf` carry over what has been computed of its end;
* `Transition.Reach.logged_invariant` — **the invariant rule for logs**;
* `Transition.Reach.of_logged`, `Transition.Reach.exists_log` — keeping a log changes nothing about
  which states are reached;
* `Transition.Reach.run_component` — **the component rule**: when what every step shows of a
  component is a run of the component, so is what a whole run shows of it.
-/

import Mathlib.Data.Option.Basic
import Mathlib.Data.List.Basic

set_option relaxedAutoImplicit false
set_option autoImplicit false

namespace Transition

variable {σ ε : Type*} {step : σ → ε → Option σ}

/-! ### Running a list of events -/

/-- Performing a list of events, one after the other; `none` when one of them is impossible. -/
def run (step : σ → ε → Option σ) : σ → List ε → Option σ
  | s, [] => some s
  | s, e :: es => (step s e).bind fun t => run step t es

@[simp] theorem run_nil (s : σ) : run step s [] = some s := rfl

theorem run_cons (s : σ) (e : ε) (es : List ε) :
    run step s (e :: es) = (step s e).bind fun t => run step t es := rfl

/-- A run of a concatenation is a run followed by a run. -/
theorem run_append (s : σ) (es fs : List ε) :
    run step s (es ++ fs) = (run step s es).bind fun t => run step t fs := by
  induction es generalizing s with
  | nil => simp
  | cons e es ih =>
      rw [List.cons_append, run_cons, run_cons]
      cases step s e with
      | none => rfl
      | some t => simpa using ih t

theorem run_append_some {s t u : σ} {es fs : List ε} (h₁ : run step s es = some t)
    (h₂ : run step t fs = some u) : run step s (es ++ fs) = some u := by
  rw [run_append, h₁]
  exact h₂

/-! ### Reachability under a condition -/

/-- `Reach step P s t`: the state `t` is reached from `s` by steps each of which meets `P` in the
state it is taken in. -/
inductive Reach (step : σ → ε → Option σ) (P : σ → ε → Prop) (s : σ) : σ → Prop
  | refl : Reach step P s s
  | tail {t u : σ} {e : ε} : Reach step P s t → P t e → step t e = some u → Reach step P s u

namespace Reach

variable {P Q : σ → ε → Prop} {s t u : σ}

theorem single {e : ε} (hP : P s e) (h : step s e = some t) : Reach step P s t :=
  Reach.refl.tail hP h

theorem trans (h₁ : Reach step P s t) (h₂ : Reach step P t u) : Reach step P s u := by
  induction h₂ with
  | refl => exact h₁
  | tail _ hP hs ih => exact ih.tail hP hs

theorem head {e : ε} (hP : P s e) (h : step s e = some t) (h' : Reach step P t u) :
    Reach step P s u :=
  (single hP h).trans h'

/-- A weaker condition admits more runs. -/
theorem mono (hPQ : ∀ t e, P t e → Q t e) (h : Reach step P s t) : Reach step Q s t := by
  induction h with
  | refl => exact Reach.refl
  | tail _ hP hs ih => exact ih.tail (hPQ _ _ hP) hs

/-- **The invariant rule.** -/
theorem invariant {I : σ → Prop} (h₀ : I s)
    (hstep : ∀ t e u, I t → P t e → step t e = some u → I u) (h : Reach step P s t) : I t := by
  induction h with
  | refl => exact h₀
  | tail _ hP hs ih => exact hstep _ _ _ ih hP hs

/-- The invariant rule relative to an invariant `J` that is already known: each step of the new
invariant may use `J` on both sides of the step. -/
theorem and_invariant {I J : σ → Prop} (hJ : ∀ t, Reach step P s t → J t) (h₀ : I s)
    (hstep : ∀ t e u, J t → J u → I t → P t e → step t e = some u → I u)
    (h : Reach step P s t) : I t := by
  induction h with
  | refl => exact h₀
  | tail ht hP hs ih => exact hstep _ _ _ (hJ _ ht) (hJ _ (ht.tail hP hs)) ih hP hs

/-- **Projecting a run**: when every step either leaves the projection alone or is a step of the
other system, the projections of the states reached are reached there. -/
theorem project {τ κ : Type*} {step' : τ → κ → Option τ} {P' : τ → κ → Prop} (f : σ → τ)
    (hstep : ∀ t e u, P t e → step t e = some u →
      f u = f t ∨ ∃ k, P' (f t) k ∧ step' (f t) k = some (f u))
    (h : Reach step P s t) : Reach step' P' (f s) (f t) := by
  induction h with
  | refl => exact Reach.refl
  | tail _ hP hs ih =>
      rcases hstep _ _ _ hP hs with heq | ⟨k, hPk, hsk⟩
      · rw [heq]
        exact ih
      · exact ih.tail hPk hsk

end Reach

/-! ### Checked runs -/

/-- Performing a list of events while checking `p` before each of them. -/
def runIf (step : σ → ε → Option σ) (p : σ → ε → Bool) : σ → List ε → Option σ
  | s, [] => some s
  | s, e :: es => if p s e then (step s e).bind fun t => runIf step p t es else none

/-- **A checked run witnesses reachability under the condition it checks.** -/
theorem Reach.of_runIf {P : σ → ε → Prop} {p : σ → ε → Bool} (hp : ∀ s e, p s e = true → P s e) :
    ∀ {es : List ε} {s t : σ}, runIf step p s es = some t → Reach step P s t := by
  intro es
  induction es with
  | nil =>
      intro s t h
      obtain rfl : s = t := by simpa [runIf] using h
      exact Reach.refl
  | cons e es ih =>
      intro s t h
      rw [runIf] at h
      by_cases hpe : p s e = true
      · rw [if_pos hpe, Option.bind_eq_some_iff] at h
        obtain ⟨u, hu, h⟩ := h
        exact Reach.head (hp s e hpe) hu (ih h)
      · rw [if_neg hpe] at h
        cases h

/-- A run whose events always meet the condition. -/
theorem Reach.of_run_of_forall {P : σ → ε → Prop} {es : List ε} {s t : σ}
    (hP : ∀ e ∈ es, ∀ u, P u e) (h : run step s es = some t) : Reach step P s t := by
  induction es generalizing s with
  | nil =>
      obtain rfl : s = t := by simpa using h
      exact Reach.refl
  | cons e es ih =>
      rw [run_cons, Option.bind_eq_some_iff] at h
      obtain ⟨u, hu, h⟩ := h
      exact Reach.head (hP e List.mem_cons_self s) hu
        (ih (fun d hd => hP d (List.mem_cons_of_mem _ hd)) h)

/-- An unchecked run witnesses plain reachability. -/
theorem Reach.of_run {es : List ε} {s t : σ} (h : run step s es = some t) :
    Reach step (fun _ _ => True) s t :=
  Reach.of_run_of_forall (fun _ _ _ => trivial) h

/-- What has been computed of the end of a checked run holds of a state reached. -/
theorem Reach.exists_of_runIf {α : Type*} (step : σ → ε → Option σ) (P : σ → ε → Prop)
    [∀ s e, Decidable (P s e)] (s : σ) (es : List ε) (f : σ → α) {x : α}
    (h : (runIf step (fun s e => decide (P s e)) s es).map f = some x) :
    ∃ t, Reach step P s t ∧ f t = x := by
  obtain ⟨t, ht, hx⟩ := Option.map_eq_some_iff.1 h
  exact ⟨t, Reach.of_runIf (fun _ _ hp => of_decide_eq_true hp) ht, hx⟩

theorem Reach.exists_of_run {α : Type*} (step : σ → ε → Option σ) (s : σ) (es : List ε) (f : σ → α)
    {x : α}
    (h : (run step s es).map f = some x) :
    ∃ t, Reach step (fun _ _ => True) s t ∧ f t = x := by
  obtain ⟨t, ht, hx⟩ := Option.map_eq_some_iff.1 h
  exact ⟨t, Reach.of_run ht, hx⟩

/-! ### Logs -/

/-- The system together with a log, to which each step appends what it shows. -/
def logged {α : Type*} (step : σ → ε → Option σ) (obs : σ → ε → List α) :
    σ × List α → ε → Option (σ × List α) := fun x e =>
  (step x.1 e).map fun t => (t, x.2 ++ obs x.1 e)

section Logged

variable {α : Type*} {obs : σ → ε → List α} {x y : σ × List α} {P : σ × List α → ε → Prop}

theorem logged_some {e : ε} (h : logged step obs x e = some y) :
    step x.1 e = some y.1 ∧ y.2 = x.2 ++ obs x.1 e := by
  obtain ⟨t, ht, rfl⟩ := Option.map_eq_some_iff.1 h
  exact ⟨ht, rfl⟩

/-- **The invariant rule for logs**: the invariant is about the state and the log together. -/
theorem Reach.logged_invariant {I : σ → List α → Prop} (h : Reach (logged step obs) P x y)
    (h₀ : I x.1 x.2)
    (hstep : ∀ t log e u, I t log → P (t, log) e → step t e = some u → I u (log ++ obs t e)) :
    I y.1 y.2 := by
  refine h.invariant (I := fun x => I x.1 x.2) h₀ ?_
  intro x e y hx hP hs
  obtain ⟨hs, hlog⟩ := logged_some hs
  rw [hlog]
  exact hstep _ _ _ _ hx hP hs

/-- Forgetting the log. -/
theorem Reach.of_logged {Q : σ → ε → Prop} (hPQ : ∀ x e, P x e → Q x.1 e)
    (h : Reach (logged step obs) P x y) : Reach step Q x.1 y.1 := by
  induction h with
  | refl => exact Reach.refl
  | tail _ hP hs ih => exact ih.tail (hPQ _ _ hP) (logged_some hs).1

/-- **Every run can be logged.** -/
theorem Reach.exists_log {Q : σ → ε → Prop} {s t : σ} (obs : σ → ε → List α)
    (h : Reach step Q s t) (log : List α) :
    ∃ log', Reach (logged step obs) (fun x e => Q x.1 e) (s, log) (t, log') := by
  induction h with
  | refl => exact ⟨log, Reach.refl⟩
  | @tail t u e _ hQ hs ih =>
      obtain ⟨log', ih⟩ := ih
      exact ⟨log' ++ obs t e, ih.tail hQ (by simp [logged, hs])⟩

/-- Where the log has grown by one entry at most, each of its points is an old one or the new one.
-/
theorem prefix_or_new {log new l : List α} {a : α} (hlen : new.length ≤ 1)
    (h : l ++ [a] <+: log ++ new) : l ++ [a] <+: log ∨ l = log ∧ a ∈ new := by
  cases new with
  | nil =>
      rw [List.append_nil] at h
      exact Or.inl h
  | cons b rest =>
      obtain rfl : rest = [] := by simpa using hlen
      rcases List.prefix_concat_iff.1 h with heq | hold
      · obtain ⟨rfl, rfl⟩ : l = log ∧ a = b := by simpa using List.append_inj' heq rfl
        exact Or.inr ⟨rfl, List.mem_singleton_self _⟩
      · exact Or.inl hold

end Logged

/-! ### Components -/

section Components

variable {κ α τ : Type*} [DecidableEq κ]

/-- What a log shows of the component `i`. -/
def componentOf (i : κ) (log : List (κ × α)) : List α :=
  log.filterMap fun x => if x.1 = i then some x.2 else none

@[simp] theorem componentOf_nil (i : κ) : componentOf i ([] : List (κ × α)) = [] := rfl

theorem componentOf_append (i : κ) (log new : List (κ × α)) :
    componentOf i (log ++ new) = componentOf i log ++ componentOf i new :=
  List.filterMap_append

@[simp] theorem componentOf_singleton_self (i : κ) (a : α) : componentOf i [(i, a)] = [a] := by
  simp [componentOf]

theorem componentOf_sublist (i : κ) (log : List (κ × α)) :
    (componentOf i log).Sublist (log.map Prod.snd) := by
  induction log with
  | nil => exact List.Sublist.refl _
  | cons x log ih =>
      by_cases hx : x.1 = i
      · have hcons : componentOf i (x :: log) = x.2 :: componentOf i log := by
          simp [componentOf, hx]
        rw [hcons, List.map_cons]
        exact ih.cons_cons x.2
      · have hcons : componentOf i (x :: log) = componentOf i log := by
          simp [componentOf, hx]
        rw [hcons, List.map_cons]
        exact ih.cons x.2

theorem componentOf_singleton_of_ne {i j : κ} (h : j ≠ i) (a : α) :
    componentOf i [(j, a)] = [] := by
  simp [componentOf, h]

/-- A run that ends with a step. -/
theorem run_concat_some {stepC : τ → α → Option τ} {x z : τ} {ops : List α} {a : α}
    (h : run stepC x (ops ++ [a]) = some z) :
    ∃ y, run stepC x ops = some y ∧ stepC y a = some z := by
  rw [run_append, Option.bind_eq_some_iff] at h
  obtain ⟨y, hy, hz⟩ := h
  refine ⟨y, hy, ?_⟩
  rw [run_cons] at hz
  simpa using hz

/-- **The component rule**: `view t i` is the state of the component `i` in the state `t`. -/
theorem Reach.run_component {obs : σ → ε → List (κ × α)} {stepC : τ → α → Option τ}
    (view : σ → κ → τ) (J : σ → Prop) {P : σ × List (κ × α) → ε → Prop} {s t : σ}
    {log : List (κ × α)} {i : κ} (h : Reach (logged step obs) P (s, []) (t, log))
    (hJ : ∀ z, Reach (logged step obs) P (s, []) z → J z.1)
    (hstep : ∀ t log e u, J t → P (t, log) e → step t e = some u →
      run stepC (view t i) (componentOf i (obs t e)) = some (view u i)) :
    run stepC (view s i) (componentOf i log) = some (view t i) := by
  refine h.and_invariant (J := fun z => J z.1)
    (I := fun z => run stepC (view s i) (componentOf i z.2) = some (view z.1 i)) hJ rfl ?_
  intro t e u ht _ hrun hP hs
  obtain ⟨hs, hlog⟩ := logged_some hs
  rw [hlog, componentOf_append]
  exact run_append_some hrun (hstep _ _ _ _ ht hP hs)

end Components

end Transition
