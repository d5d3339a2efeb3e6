/-
**Slots without a receive** (`WorkThread`, `ReceivePacket`).

A connected slot is freed when its receive fails.  So a slot that is connected and has no receive,
outstanding or queued, stays connected for ever: nothing will complete for it any more.  The server
makes such slots in two ways.  When a client shuts its side down, its receive completes with success
and no bytes, and `WorkThread` takes the branch "no data" and goes on without issuing another one.
And when `WSARecv` fails at once, `ReceivePacket` only prints the error.

Main definitions:

* `IocpDemo.KeepsReceives` — the condition on a step: neither of the two happens, and nobody calls
  `DisconnectSocket`.

Main results:

* `IocpDemo.receives_eq_of_keepsReceives` — **then a slot that no thread processes has exactly one
  receive while it is connected, and none while it is free**;
* `IocpDemo.zombie_stays` — **a connected slot without a receive stays connected in every run
  without `DisconnectSocket`**;
* `IocpDemo.graceful_close_leaves_zombie` — one client that closes gracefully makes such a slot.
-/

import IocpDemo.Receives
import IocpDemo.WireFormat

set_option relaxedAutoImplicit false
set_option autoImplicit false

namespace IocpDemo

open Bytes Transition Wire

variable {cfg : Config} {s s' t : Server} {n : ℕ}

/-! ### Slots keep their receive -/

/-- The step is not one of `DisconnectSocket`, and it loses no receive. -/
def KeepsReceives (s : Server) (e : Event) : Prop :=
  e.thread ≠ .disconnect ∧ ¬ LosesReceive s e

instance (s : Server) : ∀ e, Decidable (LosesReceive s e)
  | .acceptReceive pending => inferInstanceAs (Decidable (pending = false))
  | .workReceive _ pending => inferInstanceAs (Decidable (pending = false))
  | .getCompletion _ => inferInstanceAs (Decidable (∃ c ∈ s.os.completions.head?, _))
  | .scanSlot | .wsaAccept _ | .connectClient | .checkConnected | .countClient | .greetClient
  | .workTop _ | .closeSocket _ | .forgetSocket _ | .deSerialize _ | .completeRecv _ _ _
  | .sendTop | .popPacket | .sendPacket | .sendCopy | .sendWsa _ | .bcTop | .popBCPacket | .bcTest
  | .bcCopy | .bcWsa _ | .disconnect _ | .disconnectForget _ | .closeThreads =>
      inferInstanceAs (Decidable False)

instance (s : Server) (e : Event) : Decidable (KeepsReceives s e) :=
  inferInstanceAs (Decidable (_ ∧ _))

/-- A connected slot has a receive or is processed by a thread. -/
def Armed (s : Server) : Prop := ∀ i sock, s.socketAt i = some sock → 0 < s.load i

theorem Armed.step {e : Event} (ha : Armed s) (h : step cfg s e = some s')
    (hkeeps : KeepsReceives s e) (hs : Receives cfg n s) : Armed s' := by
  intro i sock hsock'
  rcases step_load h hkeeps.1 hs.table hs.bounded hs.handles i with
    ⟨hsock, hload⟩ | ⟨-, -, hlost⟩ | ⟨-, -, hload⟩ | ⟨hsock, -⟩
  · rw [hload]
    exact ha i sock (hsock ▸ hsock')
  · exact absurd hlost hkeeps.2
  · omega
  · rw [hsock] at hsock'
    cases hsock'

/-- **Every connected slot keeps exactly one receive.**  In a run that loses no receive and does not
call `DisconnectSocket`, a slot that neither the accept thread nor a worker thread processes has one
outstanding or queued receive if it is connected, and none if it is free. -/
theorem receives_eq_of_keepsReceives {mem : ℕ → Mem} {workers : ℕ}
    (h : Reach (step cfg) KeepsReceives (initServer mem n workers) s) {i : ℕ}
    (hidle : s.processing i = 0) : s.receives i = if (s.socketAt i).isSome then 1 else 0 := by
  have hs : ∀ t, Reach (step cfg) KeepsReceives (initServer mem n workers) t → Receives cfg n t :=
    fun t ht => Receives.of_reach (fun _ _ hP => hP.1) ht
  have hinit : Armed (initServer mem n workers) := by
    intro i sock hsock
    rw [Server.socketAt_initServer] at hsock
    cases hsock
  have harmed : Armed s :=
    h.and_invariant hs hinit fun _ _ _ ht _ ha hP hstep => ha.step hstep hP ht
  have hle := (hs s h).bounded i
  have hload : s.load i = s.receives i + s.processing i := rfl
  cases hsock : s.socketAt i with
  | none =>
      simp only [hsock, Option.isSome_none, Bool.false_eq_true, if_false] at hle ⊢
      omega
  | some sock =>
      have hpos := harmed i sock hsock
      simp only [hsock, Option.isSome_some, if_true] at hle ⊢
      omega

/-- A run in which a client has been served once and its receive has been issued anew. -/
theorem served_client_has_one_receive :
    ∃ s, Reach (step wireConfig) KeepsReceives (wireServer 2) s ∧
      s.socketAt 0 = some 7 ∧ s.receives 0 = 1 := by
  obtain ⟨s, hreach, hfacts⟩ := Reach.exists_of_runIf (step wireConfig) KeepsReceives
    (wireServer 2)
    (.scanSlot :: acceptEvents 7 ++ serveEvents [4, 0, 0, 0])
    (fun s => (s.socketAt 0, s.processing 0)) (x := (some 7, 0)) (by decide +kernel)
  obtain ⟨hsock, hidle⟩ := Prod.mk.inj hfacts
  refine ⟨s, hreach, hsock, ?_⟩
  rw [receives_eq_of_keepsReceives hreach hidle, hsock]
  rfl

/-! ### Slots without a receive -/

/-- A slot that is connected although nothing will complete for it any more. -/
def Zombie (s : Server) (i : ℕ) : Prop := (∃ sock, s.socketAt i = some sock) ∧ s.load i = 0

/-- **A slot without a receive stays connected**, in every run without `DisconnectSocket`. -/
theorem zombie_stays {i : ℕ} (hs : Receives cfg n s) (hz : Zombie s i)
    (h : Reach (step cfg) (fun _ e => e.thread ≠ .disconnect) s t) : Zombie t i := by
  have hboth : Receives cfg n t ∧ Zombie t i := by
    refine h.invariant (I := fun t => Receives cfg n t ∧ Zombie t i) ⟨hs, hz⟩ ?_
    rintro u e v ⟨hu, ⟨sock, hsock⟩, hload⟩ hno hstep
    refine ⟨hu.step hstep hno, ?_⟩
    rcases step_load hstep hno hu.table hu.bounded hu.handles i with
      ⟨hsock', hload'⟩ | ⟨-, hload', -⟩ | ⟨hfree, -, -⟩ | ⟨-, hload'⟩
    · exact ⟨⟨sock, hsock'.trans hsock⟩, hload'.trans hload⟩
    -- losing a receive and freeing the slot take one off a load that is zero
    · omega
    · rw [hfree] at hsock
      cases hsock
    · omega
  exact hboth.2

/-- **A client that closes gracefully leaves a zombie**: its slot is connected, has no outstanding
or queued receive, and no thread processes it, now and in every state reached without
`DisconnectSocket`. -/
theorem graceful_close_leaves_zombie :
    ∃ s, Reach (step wireConfig) (fun _ e => e.thread ≠ .disconnect)
        (wireServer 2) s ∧
      s.socketAt 0 = some 7 ∧ s.processing 0 = 0 ∧ s.receives 0 = 0 ∧
      ∀ t, Reach (step wireConfig) (fun _ e => e.thread ≠ .disconnect) s t →
        (∃ sock, t.socketAt 0 = some sock) ∧ t.receives 0 = 0 := by
  obtain ⟨s, hreach, hfacts⟩ := Reach.exists_of_runIf (step wireConfig)
    (fun _ e => e.thread ≠ .disconnect) (wireServer 2)
    (.scanSlot :: acceptEvents 7 ++ [.completeRecv 0 true [], .workTop 0, .getCompletion 0])
    (fun s => (s.socketAt 0, s.processing 0, s.receives 0)) (x := (some 7, 0, 0))
    (by decide +kernel)
  simp only [Prod.mk.injEq] at hfacts
  obtain ⟨hsock, hidle, hnone⟩ := hfacts
  have hs : Receives wireConfig 2 s := Receives.of_reach (fun _ _ hP => hP) hreach
  have hz : Zombie s 0 := ⟨⟨7, hsock⟩, by rw [Server.load, hidle, hnone]⟩
  refine ⟨s, hreach, hsock, hidle, hnone, fun t ht => ?_⟩
  obtain ⟨hconn, hload⟩ := zombie_stays hs hz ht
  refine ⟨hconn, ?_⟩
  rw [Server.load] at hload
  omega

end IocpDemo
