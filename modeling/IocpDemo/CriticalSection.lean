/-
**Calls under a lock.**

Threads work on a shared state by calls.  A call holds the lock from its first statement to its
last, and nothing outside the calls touches the shared state.  Statement by statement the calls of
different threads are interleaved as far as the lock allows: while a call holds it, no other begins.

So what a run of statements does is what its calls do one behind the other, in the order in which
they give the lock back: the results are the same, and the state that is seen while the lock is free
is the one between two calls.

Main definitions:

* `CriticalSection.Code`, `CriticalSection.Code.run` — the statements of a call, and their effect;
* `CriticalSection.Locked`, `CriticalSection.lockStep` — the system of threads;
* `CriticalSection.runCalls` — calls one behind the other.

Main results:

* `CriticalSection.calls_of_reach` — **calls under a lock are serial**, also while the lock is held;
* `CriticalSection.runCalls_of_free` — the state while the lock is free.
-/

import IocpDemo.Transition

set_option relaxedAutoImplicit false
set_option autoImplicit false

namespace CriticalSection

open Transition

variable {σ α κ ι : Type*}

/-- The code of a call: a statement updates the shared state, and what it has read decides how the
call goes on. -/
inductive Code (σ α : Type*)
  | ret (a : α)
  | stmt (update : σ → σ) (next : σ → Code σ α)

/-- What the code does when nothing comes between its statements. -/
def Code.run : Code σ α → σ → σ × α
  | .ret a, s => (s, a)
  | .stmt update next, s => (next s).run (update s)

/-- The shared state, and the call that holds the lock: its thread and the code that is left. -/
structure Locked (σ α κ ι : Type*) where
  shared : σ
  holder : Option (ι × κ × Code σ α) := none

/-- A thread gets the lock for a call, the call that holds it executes a statement, or returns. -/
inductive LockEvent (κ ι : Type*)
  | lock (thread : ι) (call : κ)
  | stmt
  | unlock

/-- The system of threads, given the code of each call. -/
def lockStep (body : κ → Code σ α) (x : Locked σ α κ ι) :
    LockEvent κ ι → Option (Locked σ α κ ι)
  | .lock i c =>
      match x.holder with
      | none => some { x with holder := some (i, c, body c) }
      | some _ => none
  | .stmt =>
      match x.holder with
      | some (i, c, .stmt update next) => some ⟨update x.shared, some (i, c, next x.shared)⟩
      | some (_, _, .ret _) | none => none
  | .unlock =>
      match x.holder with
      | some (_, _, .ret _) => some { x with holder := none }
      | some (_, _, .stmt _ _) | none => none

/-- The calls that return, with their results. -/
def returned (x : Locked σ α κ ι) : LockEvent κ ι → List (ι × κ × α)
  | .unlock =>
      match x.holder with
      | some (i, c, .ret a) => [(i, c, a)]
      | some (_, _, .stmt _ _) | none => []
  | .lock _ _ | .stmt => []

/-- Calls one behind the other: the state behind them, and their results. -/
def runCalls (body : κ → Code σ α) : σ → List κ → σ × List α
  | s, [] => (s, [])
  | s, c :: cs =>
      let result := (body c).run s
      let rest := runCalls body result.1 cs
      (rest.1, result.2 :: rest.2)

variable {body : κ → Code σ α} {s : σ} {x y : Locked σ α κ ι}

theorem runCalls_append (cs ds : List κ) : runCalls body s (cs ++ ds) =
    ((runCalls body (runCalls body s cs).1 ds).1,
      (runCalls body s cs).2 ++ (runCalls body (runCalls body s cs).1 ds).2) := by
  induction cs generalizing s with
  | nil => rfl
  | cons c cs ih => simp only [List.cons_append, runCalls, ih]

/-! ### What a step can do -/

theorem lock_some {i : ι} {c : κ} (h : lockStep body x (.lock i c) = some y) :
    x.holder = none ∧ y = ⟨x.shared, some (i, c, body c)⟩ := by
  cases hx : x.holder with
  | none =>
      simp only [lockStep, hx] at h
      exact ⟨rfl, (Option.some.inj h).symm⟩
  | some _ => simp [lockStep, hx] at h

theorem stmt_some (h : lockStep body x .stmt = some y) :
    ∃ i c update next, x.holder = some (i, c, .stmt update next) ∧
      y = ⟨update x.shared, some (i, c, next x.shared)⟩ := by
  cases hx : x.holder with
  | none => simp [lockStep, hx] at h
  | some held =>
      obtain ⟨i, c, code⟩ := held
      cases code with
      | ret a => simp [lockStep, hx] at h
      | stmt update next =>
          simp only [lockStep, hx] at h
          exact ⟨i, c, update, next, rfl, (Option.some.inj h).symm⟩

theorem unlock_some (h : lockStep body x .unlock = some y) :
    ∃ i c a, x.holder = some (i, c, .ret a) ∧ y = ⟨x.shared, none⟩ := by
  cases hx : x.holder with
  | none => simp [lockStep, hx] at h
  | some held =>
      obtain ⟨i, c, code⟩ := held
      cases code with
      | stmt update next => simp [lockStep, hx] at h
      | ret a =>
          simp only [lockStep, hx] at h
          exact ⟨i, c, a, rfl, (Option.some.inj h).symm⟩

/-! ### Runs -/

/-- The state is the one between two calls, or what is left of the call that holds the lock does
from it on what the whole call does from there. -/
def Serial (body : κ → Code σ α) (s : σ) (x : Locked σ α κ ι) : Prop :=
  match x.holder with
  | none => x.shared = s
  | some (_, c, code) => code.run x.shared = (body c).run s

variable {P : Locked σ α κ ι × List (ι × κ × α) → LockEvent κ ι → Prop}
  {log : List (ι × κ × α)}

/-- **Calls under a lock are serial.**  In every run of the threads, the calls that have returned
give, executed one behind the other, the results that they have returned, and a state from which the
call that holds the lock, if there is one, has started. -/
theorem calls_of_reach
    (h : Reach (logged (lockStep body) returned) P (⟨s, none⟩, []) (x, log)) :
    (runCalls body s (log.map (·.2.1))).2 = log.map (·.2.2) ∧
      Serial body (runCalls body s (log.map (·.2.1))).1 x := by
  refine h.logged_invariant (I := fun x log =>
    (runCalls body s (log.map (·.2.1))).2 = log.map (·.2.2) ∧
      Serial body (runCalls body s (log.map (·.2.1))).1 x) ⟨rfl, rfl⟩ ?_
  intro x log e y hx _ hstep
  obtain ⟨hresults, hserial⟩ := hx
  cases e with
  | lock i c =>
      obtain ⟨hfree, rfl⟩ := lock_some hstep
      rw [Serial, hfree] at hserial
      rw [show returned x (.lock i c) = [] from rfl, List.append_nil]
      refine ⟨hresults, ?_⟩
      simp only [Serial]
      rw [hserial]
  | stmt =>
      obtain ⟨i, c, update, next, hheld, rfl⟩ := stmt_some hstep
      rw [Serial, hheld] at hserial
      rw [show returned x .stmt = [] from rfl, List.append_nil]
      exact ⟨hresults, hserial⟩
  | unlock =>
      obtain ⟨i, c, a, hheld, rfl⟩ := unlock_some hstep
      rw [Serial, hheld] at hserial
      -- all of the call has been executed
      have hcall : (body c).run (runCalls body s (log.map (·.2.1))).1 = (x.shared, a) :=
        hserial.symm
      have hreturned : returned x .unlock = [(i, c, a)] := by rw [returned, hheld]
      simp only [hreturned, List.map_append, List.map_cons, List.map_nil, runCalls_append, runCalls,
        hcall, hresults]
      exact ⟨trivial, rfl⟩

/-- While the lock is free, the state is the one behind the calls that have returned. -/
theorem runCalls_of_free
    (h : Reach (logged (lockStep body) returned) P (⟨s, none⟩, []) (x, log))
    (hfree : x.holder = none) :
    runCalls body s (log.map (·.2.1)) = (x.shared, log.map (·.2.2)) := by
  obtain ⟨hresults, hserial⟩ := calls_of_reach h
  rw [Serial, hfree] at hserial
  exact Prod.ext hserial.symm hresults

end CriticalSection
