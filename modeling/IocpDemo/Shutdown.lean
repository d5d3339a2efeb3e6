/-
**How the threads stop** (`CloseThread`, `AcceptThread`, `WorkThread`, `SendThread`,
`SendBroadCastThread`).

`CloseThread` clears the run flag of a thread and joins it.  The worker threads and the two sender
threads read their flag at the head of their loop; `AcceptThread` loops on `while (1)` and never
reads `IsAcceptThreadRun`.  It returns only when it finds no free slot, so it goes on accepting
clients until the table is full.  And the loop that sends a reliable packet reads no flag at all.

A step is late when it is one of a thread whose flag has been cleared.

Main definitions:

* `IocpDemo.LateStep`, `IocpDemo.lateSteps` — the late steps, whether they begin an iteration, and
  whether they send a packet again;
* `IocpDemo.ShutdownStep` — the condition on a step;
* `IocpDemo.WorkPc.rank`, `IocpDemo.SendPc.rank`, `IocpDemo.BroadCastPc.rank`,
  `IocpDemo.AcceptPc.rank` — the steps that are left at a program point.

Main results:

* `IocpDemo.isRunning_of_step` — a flag that has been cleared stays so;
* `IocpDemo.work_steps_le`, `IocpDemo.send_steps_le`, `IocpDemo.broadCast_steps_le`,
  `IocpDemo.accept_steps_le` — **the late steps of each thread are bounded**;
* `IocpDemo.threads_shut_down` — **each loop stops**, under the condition.
-/

import IocpDemo.Countdown
import IocpDemo.Occupancy
import IocpDemo.WireFormat

set_option relaxedAutoImplicit false
set_option autoImplicit false

namespace IocpDemo

open Bytes Transition Countdown Wire

variable {cfg : Config} {s s' : Server} {n K : ℕ} {e : Event} {t : Thread}

/-! ### The run flags -/

/-- The run flag of a thread. -/
def Server.isRunning (s : Server) : Thread → Bool
  | .accept => s.isAcceptThreadRun
  | .work _ => s.isWorkThreadRun
  | .send => s.isSendThreadRun
  | .broadCast => s.isSendBroadCastThreadRun
  | .os | .disconnect | .close => true

/-- Only `CloseThread` writes the run flags. -/
theorem isRunning_of_ne (h : step cfg s e = some s') (he : e ≠ .closeThreads) (t : Thread) :
    s'.isRunning t = s.isRunning t := by
  have hreceive : ∀ {s s' : Server} {i : ℕ} {pending : Bool},
      s.receivePacket i pending = some s' → s'.isRunning t = s.isRunning t := by
    intro s s' i pending h
    obtain ⟨c, -, ⟨-, rfl⟩ | ⟨-, sock, conn, -, -, rfl⟩⟩ := Server.receivePacket_some h <;>
      cases t <;> rfl
  cases e with
  | closeThreads => exact absurd rfl he
  | scanSlot => obtain ⟨k, -, rfl⟩ := Server.scanSlot_some h; cases t <;> rfl
  | wsaAccept r =>
      cases r with
      | none =>
          have h : s.wsaAccept cfg none = some s' := h
          obtain ⟨i, -, rfl⟩ := Server.wsaAccept_none_some h
          cases t <;> rfl
      | some sock =>
          obtain ⟨i, -, -, -, rfl⟩ := Server.wsaAccept_some_some h
          cases t <;> rfl
  | connectClient =>
      obtain ⟨i, sock, conn, -, rfl⟩ := Server.connectClient_some h
      cases t <;> rfl
  | checkConnected =>
      obtain ⟨i, sock, conn, c, -, -, ⟨-, rfl⟩ | ⟨-, rfl⟩⟩ := Server.checkConnected_some h <;>
        cases t <;> rfl
  | countClient => obtain ⟨i, conn, -, rfl⟩ := Server.countClient_some h; cases t <;> rfl
  | greetClient => obtain ⟨i, conn, c, -, -, rfl⟩ := Server.greetClient_some h; cases t <;> rfl
  | acceptReceive pending =>
      obtain ⟨i, conn, -, h⟩ := Server.acceptReceive_some h
      rw [hreceive h]
      cases t <;> rfl
  | workTop w => obtain ⟨-, rfl⟩ := Server.workTop_some h; cases t <;> rfl
  | getCompletion w =>
      obtain ⟨c, rest, -, -, rfl⟩ := Server.getCompletion_some h
      cases t <;> rfl
  | closeSocket w => obtain ⟨c, ctx, -, -, rfl⟩ := Server.closeSocket_some h; cases t <;> rfl
  | forgetSocket w => obtain ⟨c, -, rfl⟩ := Server.forgetSocket_some h; cases t <;> rfl
  | deSerialize w =>
      obtain ⟨c, ctx, -, -, ⟨-, rfl⟩ | ⟨packetID, dataSize, -, rfl⟩⟩ :=
        Server.deSerialize_some h <;> cases t <;> rfl
  | workReceive w pending =>
      obtain ⟨c, -, h⟩ := Server.workReceive_some h
      rw [hreceive h]
      cases t <;> rfl
  | completeRecv k bSuccess data =>
      obtain ⟨r, -, -, -, rfl⟩ := Server.completeRecv_some h
      cases t <;> rfl
  | sendTop => obtain ⟨-, rfl⟩ := Server.sendTop_some h; cases t <;> rfl
  | popPacket => obtain ⟨-, rfl⟩ := Server.popPacket_some h; cases t <;> rfl
  | sendPacket => obtain ⟨p, conn, -, rfl⟩ := Server.sendPacket_some h; cases t <;> rfl
  | sendCopy => obtain ⟨p, conn, -, rfl⟩ := Server.sendCopy_some h; cases t <;> rfl
  | sendWsa r => obtain ⟨p, conn, -, -, rfl⟩ := Server.sendWsa_some h; cases t <;> rfl
  | bcTop => obtain ⟨-, rfl⟩ := Server.bcTop_some h; cases t <;> rfl
  | popBCPacket => obtain ⟨-, rfl⟩ := Server.popBCPacket_some h; cases t <;> rfl
  | bcTest => obtain ⟨p, i, -, rfl⟩ := Server.bcTest_some h; cases t <;> rfl
  | bcCopy => obtain ⟨p, i, -, rfl⟩ := Server.bcCopy_some h; cases t <;> rfl
  | bcWsa r => obtain ⟨p, i, -, -, rfl⟩ := Server.bcWsa_some h; cases t <;> rfl
  | disconnect i => obtain ⟨c, -, -, rfl⟩ := Server.disconnect_some h; cases t <;> rfl
  | disconnectForget k =>
      obtain ⟨i, -, rfl⟩ := Server.disconnectForget_some h
      cases t <;> rfl

/-- `CloseThread` only clears flags. -/
theorem isRunning_of_closeThreads (h : s.closeThreads = some s') (hs : s.isRunning t = false) :
    s'.isRunning t = false := by
  cases hpc : s.closeThread with
  | notCalled =>
      simp only [Server.closeThreads, hpc, Option.some.injEq] at h
      subst h
      cases t <;> first | rfl | exact hs
  | joinAccept =>
      simp only [Server.closeThreads, hpc, Option.ite_none_right_eq_some] at h
      obtain rfl := Option.some.inj h.2
      cases t <;> first | rfl | exact hs
  | joinWork =>
      simp only [Server.closeThreads, hpc, Option.ite_none_right_eq_some] at h
      obtain rfl := Option.some.inj h.2
      cases t <;> first | rfl | exact hs
  | joinSend =>
      cases hsend : s.sendThread with
      | stopped =>
          simp only [Server.closeThreads, hpc, hsend, Option.some.injEq] at h
          subst h
          cases t <;> first | rfl | exact hs
      | _ => simp [Server.closeThreads, hpc, hsend] at h
  | joinBroadCast =>
      cases hbc : s.broadCastThread with
      | stopped =>
          simp only [Server.closeThreads, hpc, hbc, Option.some.injEq] at h
          subst h
          cases t <;> first | rfl | exact hs
      | _ => simp [Server.closeThreads, hpc, hbc] at h
  | finished => simp [Server.closeThreads, hpc] at h

/-- **A flag that has been cleared stays so.** -/
theorem isRunning_of_step (hs : s.isRunning t = false) (h : step cfg s e = some s') :
    s'.isRunning t = false := by
  by_cases he : e = .closeThreads
  · subst he
    exact isRunning_of_closeThreads h hs
  · rw [isRunning_of_ne h he]
    exact hs

/-! ### Late steps -/

/-- A step of a thread whose flag has been cleared. -/
structure LateStep where
  event : Event
  /-- It begins an iteration of the thread's loop. -/
  begins : Bool
  /-- It is a failed send of a reliable packet, which is sent again. -/
  repeats : Bool

/-- The head of a loop: `GetEmptyClientIndex` is called, or the run flag is found set. -/
def beginsIteration (s : Server) : Event → Bool
  | .scanSlot => s.acceptThread = .scan 0
  | .workTop _ => s.isWorkThreadRun
  | .sendTop => s.isSendThreadRun
  | .bcTop => s.isSendBroadCastThreadRun
  | _ => false

/-- A send of a reliable packet fails. -/
def repeatsSend (s : Server) : Event → Bool
  | .bcWsa r =>
      match s.broadCastThread with
      | .sending p _ => r.isNone && p.bIsReliable
      | _ => false
  | _ => false

/-- The step, if it is late. -/
def lateSteps (s : Server) (e : Event) : List LateStep :=
  if s.isRunning e.thread = false then [⟨e, beginsIteration s e, repeatsSend s e⟩] else []

/-- The server with a log of its late steps. -/
abbrev shutdownSystem (cfg : Config) : Server × List LateStep → Event →
    Option (Server × List LateStep) := logged (step cfg) lateSteps

/-- The steps of a thread. -/
def LateStep.isOf (t : Thread) (l : LateStep) : Bool := l.event.thread = t

/-- The events that take a completion or a packet. -/
def Event.takes : Event → Bool
  | .getCompletion _ | .popPacket | .popBCPacket => true
  | _ => false

/-- A late step has begun an iteration. -/
def lateBegun (log : List LateStep) : Bool := log.any LateStep.begins

/-- The slot that `GetEmptyClientIndex` is about to read. -/
def AcceptPc.scanned : AcceptPc → Option ℕ
  | .scan k => some k
  | .accepting _ | .connecting _ _ _ | .checking _ _ _ | .counting _ _ | .greeting _ _ | .arming _ _
  | .returned => none

/-- An iteration that `AcceptThread` begins late finds no free slot, and at most `K` late sends of
reliable packets fail. -/
def ShutdownStep (K : ℕ) (x : Server × List LateStep) (e : Event) : Prop :=
  (e = .scanSlot → x.1.isAcceptThreadRun = false → ∀ k ∈ x.1.acceptThread.scanned,
      k = 0 ∨ lateBegun x.2 = true → ¬ x.1.IsFree k) ∧
    (repeatsSend x.1 e = true → x.1.isSendBroadCastThreadRun = false →
      x.2.countP LateStep.repeats < K)

instance (s : Server) (k : ℕ) : Decidable (s.IsFree k) := inferInstanceAs (Decidable (_ ∧ _))

instance (K : ℕ) (x : Server × List LateStep) (e : Event) : Decidable (ShutdownStep K x e) :=
  inferInstanceAs (Decidable (_ ∧ _))

theorem lateSteps_of_running (h : s.isRunning e.thread = true) : lateSteps s e = [] := by
  rw [lateSteps, if_neg (by simp [h])]

theorem lateSteps_of_late (h : s.isRunning e.thread = false) :
    lateSteps s e = [⟨e, beginsIteration s e, repeatsSend s e⟩] := if_pos h

theorem length_lateSteps_le (s : Server) (e : Event) : (lateSteps s e).length ≤ 1 := by
  rw [lateSteps]
  split <;> simp

/-- Before its flag is cleared no step of a thread is late. -/
theorem countP_lateSteps_of_running (hs : ¬ s.isRunning t = false) (e : Event) :
    (lateSteps s e).countP (LateStep.isOf t) = 0 := by
  by_cases het : e.thread = t
  · subst het
    rw [lateSteps_of_running (by simpa using hs)]
    rfl
  · rw [lateSteps]
    split
    · simp [LateStep.isOf, het]
    · rfl

/-- A step counts for its own thread. -/
theorem countP_lateSteps_of_ne (het : e.thread ≠ t) (s : Server) :
    (lateSteps s e).countP (LateStep.isOf t) = 0 := by
  rw [lateSteps]
  split
  · simp [LateStep.isOf, het]
  · rfl

/-- **Late steps are bounded** by a rank that each of them uses up. -/
theorem late_steps_le {P : Server × List LateStep → Event → Prop} {s₀ : Server}
    {x : Server × List LateStep} (t : Thread) (rank : Server × List LateStep → ℕ) {bound c : ℕ}
    (hbound : ∀ x, rank x ≤ bound)
    (hown : ∀ x e u, Reach (shutdownSystem cfg) P (s₀, []) x → P x e → x.1.isRunning t = false →
      e.thread = t → step cfg x.1 e = some u →
        1 + rank (u, x.2 ++ lateSteps x.1 e) ≤ rank x + c * if repeatsSend x.1 e then 1 else 0)
    (hother : ∀ x e u, x.1.isRunning t = false → e.thread ≠ t → step cfg x.1 e = some u →
      rank (u, x.2 ++ lateSteps x.1 e) ≤ rank x)
    (h : Reach (shutdownSystem cfg) P (s₀, []) x) :
    x.2.countP (LateStep.isOf t) ≤ bound + c * x.2.countP LateStep.repeats := by
  have hcount := countP_add_rank_le (fun s => s.isRunning t = false) (LateStep.isOf t)
    LateStep.repeats rank (c := c) hbound (fun _ _ _ hs hstep => isRunning_of_step hs hstep)
    (fun _ e hs => countP_lateSteps_of_running hs e) ?_ h
  · omega
  · intro x e u hx hP hs hstep
    by_cases het : e.thread = t
    · have hone := hown x e u hx hP hs het hstep
      subst het
      rw [lateSteps_of_late hs] at hone ⊢
      cases hrepeats : repeatsSend x.1 e <;> simpa [LateStep.isOf, hrepeats] using hone
    · have hle := hother x e u hs het hstep
      rw [countP_lateSteps_of_ne het]
      omega

/-! ### The worker threads -/

/-- The steps that are left to a worker whose flag has been cleared. -/
def WorkPc.rank : WorkPc → ℕ
  | .waiting => 4
  | .closing _ | .received _ => 3
  | .forgetting _ | .rearming _ => 2
  | .top => 1
  | .stopped => 0

theorem WorkMove.thread_eq {w : ℕ} {pc pc' : WorkPc} (h : WorkMove cfg s e w pc pc') :
    e.thread = .work w := by
  cases h <;> rfl

theorem WorkMove.rank_lt {w : ℕ} {pc pc' : WorkPc} (h : WorkMove cfg s e w pc pc')
    (hrun : s.isWorkThreadRun = false) : pc'.rank < pc.rank := by
  cases h with
  | entered => simp [hrun, WorkPc.rank]
  | @got w c rest _ =>
      rcases Server.afterCompletion_cases c with hnext | hnext | hnext <;>
        simp [hnext, WorkPc.rank]
  | _ => simp [WorkPc.rank]

theorem WorkPc.rank_le (pc : WorkPc) : pc.rank ≤ 4 := by
  cases pc <;> simp [WorkPc.rank]

/-- A step of another thread leaves a worker alone. -/
theorem workThreads_of_ne {w : ℕ} (h : step cfg s e = some s') (he : e.thread ≠ .work w) :
    s'.workThreads[w]? = s.workThreads[w]? := by
  rcases step_workThreads h with ⟨hsame, -⟩ | ⟨v, pc, pc', hmove, -, hset⟩
  · rw [hsame]
  · have hne : v ≠ w := by
      rintro rfl
      exact he hmove.thread_eq
    rw [hset, List.getElem?_set_ne hne]

/-- A worker's own step. -/
theorem workThreads_of_eq {w : ℕ} (h : step cfg s e = some s') (he : e.thread = .work w) :
    ∃ pc pc', WorkMove cfg s e w pc pc' ∧ s.workThreads[w]? = some pc ∧
      s'.workThreads[w]? = some pc' := by
  rcases step_workThreads h with ⟨-, hne⟩ | ⟨v, pc, pc', hmove, hv, hset⟩
  · exact absurd he (hne w)
  · obtain rfl : v = w := Thread.work.inj (hmove.thread_eq.symm.trans he)
    have hlt := (List.getElem?_eq_some_iff.1 hv).1
    exact ⟨pc, pc', hmove, hv, by rw [hset, List.getElem?_set_self hlt]⟩

/-- **A worker takes at most four late steps.** -/
theorem work_steps_le {P : Server × List LateStep → Event → Prop} {s₀ : Server}
    {x : Server × List LateStep} (h : Reach (shutdownSystem cfg) P (s₀, []) x) (w : ℕ) :
    x.2.countP (LateStep.isOf (.work w)) ≤ 4 := by
  suffices hle : x.2.countP (LateStep.isOf (.work w)) ≤ 4 + 0 * x.2.countP LateStep.repeats by
    omega
  refine late_steps_le (.work w) (fun x => x.1.workThreads[w]?.elim 0 WorkPc.rank)
    ?_ ?_ ?_ h
  · intro x
    cases x.1.workThreads[w]? with
    | none => exact Nat.zero_le 4
    | some pc => exact pc.rank_le
  · intro x e u _ _ hrun het hstep
    obtain ⟨pc, pc', hmove, hpc, hpc'⟩ := workThreads_of_eq hstep het
    have hlt := hmove.rank_lt hrun
    simp only [hpc, hpc', Option.elim_some]
    omega
  · intro x e u _ het hstep
    simp only [workThreads_of_ne hstep het]
    exact Nat.le_refl _

/-! ### The sender threads -/

/-- The steps that are left to `SendThread` once its flag has been cleared. -/
def SendPc.rank : SendPc → ℕ
  | .popping => 5
  | .holding _ _ => 4
  | .copying _ _ => 3
  | .sending _ _ => 2
  | .top => 1
  | .crashed _ | .stopped => 0

theorem SendMove.rank_lt {pc : SendPc} (h : SendMove s e pc) (hrun : s.isSendThreadRun = false) :
    pc.rank < s.sendThread.rank := by
  cases h with
  | entered hpc => simp [hpc, hrun, SendPc.rank]
  | @tested p conn hpc =>
      rcases Server.sendNext_cases s.contexts p conn with hnext | hnext | hnext <;>
        simp [hnext, hpc, SendPc.rank]
  | popped hpc _ | empty hpc _ | copied hpc | sent hpc => simp [hpc, SendPc.rank]

theorem SendPc.rank_le (pc : SendPc) : pc.rank ≤ 5 := by
  cases pc <;> simp [SendPc.rank]

/-- **`SendThread` takes at most five late steps.** -/
theorem send_steps_le {P : Server × List LateStep → Event → Prop} {s₀ : Server}
    {x : Server × List LateStep} (h : Reach (shutdownSystem cfg) P (s₀, []) x) :
    x.2.countP (LateStep.isOf .send) ≤ 5 := by
  suffices hle : x.2.countP (LateStep.isOf .send) ≤ 5 + 0 * x.2.countP LateStep.repeats by
    omega
  refine late_steps_le .send (fun x => x.1.sendThread.rank) (fun x => x.1.sendThread.rank_le)
    ?_ ?_ h
  · intro x e u _ _ hrun het hstep
    rcases step_sendThread hstep with ⟨-, hne⟩ | hmove
    · exact absurd het hne
    · have hlt := hmove.rank_lt hrun
      simp only
      omega
  · intro x e u _ het hstep
    simp only [(step_frame hstep).sendThread het]
    exact Nat.le_refl _

/-- The steps that are left to `SendBroadCastThread` once its flag has been cleared, with `n` slots
and without sends that fail. -/
def BroadCastPc.rank (n : ℕ) : BroadCastPc → ℕ
  | .popping => 3 * n + 3
  | .looping _ i => 3 * (n - i) + 2
  | .copying _ i => 3 * (n - i) + 1
  | .sending _ i => 3 * (n - i)
  | .top => 1
  | .stopped => 0

theorem BroadCastPc.rank_le (n : ℕ) (pc : BroadCastPc) : pc.rank n ≤ 3 * n + 3 := by
  cases pc <;> simp only [BroadCastPc.rank] <;> omega

/-- The loop calls `SendPendingPacket` for contexts of the table. -/
def BroadCastPc.InTable (n : ℕ) : BroadCastPc → Prop
  | .copying _ i | .sending _ i => i < n
  | .looping _ _ | .popping | .top | .stopped => True

theorem BroadCastMove.inTable {pc : BroadCastPc} (h : BroadCastMove s e pc)
    (hs : s.broadCastThread.InTable s.contexts.length) : pc.InTable s.contexts.length := by
  cases h with
  | entered hpc => split <;> trivial
  | @tested p i hpc =>
      cases hctx : s.contexts[i]? with
      | none => simp [Server.bcNext, hctx, BroadCastPc.InTable]
      | some c =>
          simp only [Server.bcNext, hctx]
          split
          · exact Server.lt_of_context hctx
          · trivial
  | copied hpc =>
      rw [hpc] at hs
      exact hs
  | sent hpc => split <;> trivial
  | popped _ _ | empty _ _ => trivial

theorem inTable_of_reach {P : Server → Event → Prop} {mem : ℕ → Mem} {workers : ℕ}
    (h : Reach (step cfg) P (initServer mem n workers) s) :
    s.broadCastThread.InTable s.contexts.length := by
  refine h.invariant (I := fun s => s.broadCastThread.InTable s.contexts.length) trivial ?_
  intro s e s' hs _ hstep
  rw [step_length hstep]
  rcases step_broadCastThread hstep with ⟨hsame, -⟩ | hmove
  · rw [hsame]
    exact hs
  · exact hmove.inTable hs

/-- Each step uses up one step of the rank; a repeated send gives three back. -/
theorem BroadCastMove.rank_lt {pc : BroadCastPc} (h : BroadCastMove s e pc)
    (hrun : s.isSendBroadCastThreadRun = false)
    (hs : s.broadCastThread.InTable s.contexts.length) :
    1 + pc.rank s.contexts.length ≤
      s.broadCastThread.rank s.contexts.length + 3 * if repeatsSend s e then 1 else 0 := by
  cases h with
  | entered hpc => simp [hpc, hrun, BroadCastPc.rank]
  | popped hpc _ =>
      simp only [hpc, BroadCastPc.rank]
      omega
  | empty hpc _ =>
      simp only [hpc, BroadCastPc.rank]
      omega
  | @tested p i hpc =>
      rw [hpc]
      cases hctx : s.contexts[i]? with
      | none =>
          simp only [Server.bcNext, hctx, BroadCastPc.rank]
          omega
      | some c =>
          have hi := Server.lt_of_context hctx
          simp only [Server.bcNext, hctx]
          split <;> simp only [BroadCastPc.rank] <;> omega
  | copied hpc =>
      simp only [hpc, BroadCastPc.rank]
      omega
  | @sent p i r hpc =>
      rw [hpc] at hs ⊢
      have hi : i < s.contexts.length := hs
      by_cases hrepeat : r = none ∧ p.bIsReliable = true
      · simp only [repeatsSend, hpc, hrepeat, and_self, if_true, Option.isNone_none, Bool.and_self,
          BroadCastPc.rank]
        omega
      · rw [if_neg hrepeat]
        simp only [BroadCastPc.rank]
        omega

/-- The late steps that send a reliable packet again are bounded by the condition. -/
theorem repeats_le {s₀ : Server} {x : Server × List LateStep}
    (h : Reach (shutdownSystem cfg) (ShutdownStep K) (s₀, []) x) :
    x.2.countP LateStep.repeats ≤ K := by
  refine h.logged_invariant (I := fun _ log => log.countP LateStep.repeats ≤ K) (Nat.zero_le K) ?_
  intro t log e u hle hP _
  rw [List.countP_append]
  by_cases hrepeats : (lateSteps t e).countP LateStep.repeats = 0
  · omega
  · -- the step is a late send that is going to be repeated
    obtain ⟨l, hl, hl'⟩ := List.countP_pos_iff.1 (Nat.pos_of_ne_zero hrepeats)
    rw [lateSteps] at hl
    split at hl
    · rename_i hlate
      obtain rfl := List.mem_singleton.1 hl
      have hthread : e.thread = .broadCast := by
        cases e <;> first | rfl | cases hl'
      rw [hthread] at hlate
      have hlt : log.countP LateStep.repeats < K := hP.2 hl' hlate
      have hlen := Nat.le_trans (List.countP_le_length (p := LateStep.repeats))
        (length_lateSteps_le t e)
      omega
    · cases hl

/-- **`SendBroadCastThread` takes a bounded number of late steps**, with three for each slot and
three for each send that is repeated. -/
theorem broadCast_steps_le {P : Server × List LateStep → Event → Prop} {mem : ℕ → Mem}
    {workers : ℕ} {x : Server × List LateStep}
    (h : Reach (shutdownSystem cfg) P (initServer mem n workers, []) x) :
    x.2.countP (LateStep.isOf .broadCast) ≤ 3 * n + 3 + 3 * x.2.countP LateStep.repeats := by
  refine late_steps_le .broadCast (fun x => x.1.broadCastThread.rank n)
    (fun x => x.1.broadCastThread.rank_le n) ?_ ?_ h
  · intro x e u hx _ hrun het hstep
    have hreach : Reach (step cfg) (fun _ _ => True) (initServer mem n workers) x.1 :=
      Reach.of_logged (fun _ _ _ => trivial) hx
    have hlength := (SlotTable.of_reach hreach).length
    rcases step_broadCastThread hstep with ⟨-, hne⟩ | hmove
    · exact absurd het hne
    · have hrank := hmove.rank_lt hrun (inTable_of_reach hreach)
      rw [hlength] at hrank
      exact hrank
  · intro x e u _ het hstep
    simp only [(step_frame hstep).broadCastThread het]
    exact Nat.le_refl _

/-! ### No further completion and no further packet -/

/-- The thread is about to take a completion or a packet. -/
def Server.TakesNext (s : Server) : Thread → Prop
  | .work w => s.workThreads[w]? = some .waiting
  | .send => s.sendThread = .popping
  | .broadCast => s.broadCastThread = .popping
  | .accept | .os | .disconnect | .close => False

/-- A thread that takes something was about to. -/
theorem takesNext_of_takes (h : step cfg s e = some s') (he : e.takes = true) :
    s.TakesNext e.thread := by
  cases e with
  | getCompletion w =>
      obtain ⟨c, rest, hpc, -, -⟩ := Server.getCompletion_some h
      exact hpc
  | popPacket => exact (Server.popPacket_some h).1
  | popBCPacket => exact (Server.popBCPacket_some h).1
  | _ => cases he

/-- A late step does not lead to where its thread takes something. -/
theorem not_takesNext_of_step (h : step cfg s e = some s') (hs : s.isRunning e.thread = false) :
    ¬ s'.TakesNext e.thread := by
  intro hnext
  cases ht : e.thread with
  | work w =>
      rw [ht] at hnext hs
      obtain ⟨pc, pc', hmove, -, hpc'⟩ := workThreads_of_eq h ht
      obtain rfl : pc' = .waiting := Option.some.inj (hpc'.symm.trans hnext)
      have hlt := hmove.rank_lt hs
      have hle := pc.rank_le
      have hmax : WorkPc.waiting.rank = 4 := rfl
      omega
  | send =>
      rw [ht] at hnext hs
      rcases step_sendThread h with ⟨-, hne⟩ | hmove
      · exact hne ht
      · have hlt := hmove.rank_lt hs
        have hle := s.sendThread.rank_le
        rw [show s'.sendThread = .popping from hnext, SendPc.rank] at hlt
        omega
  | broadCast =>
      rw [ht] at hnext hs
      rcases step_broadCastThread h with ⟨-, hne⟩ | hmove
      · exact hne ht
      · rw [show s'.broadCastThread = .popping from hnext] at hmove
        generalize hpc' : BroadCastPc.popping = pc at hmove
        cases hmove with
        | entered hpc =>
            rw [show s.isSendBroadCastThreadRun = false from hs] at hpc'
            cases hpc'
        | @tested p i hpc =>
            rcases Server.bcNext_cases s.contexts p i with hcase | hcase | hcase <;>
              rw [hcase] at hpc' <;> cases hpc'
        | sent hpc => split at hpc' <;> cases hpc'
        | popped _ _ | empty _ _ | copied _ => cases hpc'
  | accept | os | disconnect | close =>
      rw [ht] at hnext
      exact hnext

/-- A step of another thread changes nothing about it. -/
theorem takesNext_of_ne (h : step cfg s e = some s') (he : e.thread ≠ t) :
    s'.TakesNext t ↔ s.TakesNext t := by
  cases t with
  | work w => rw [Server.TakesNext, Server.TakesNext, workThreads_of_ne h he]
  | send => rw [Server.TakesNext, Server.TakesNext, (step_frame h).sendThread he]
  | broadCast => rw [Server.TakesNext, Server.TakesNext, (step_frame h).broadCastThread he]
  | accept | os | disconnect | close => exact Iff.rfl

/-- **A thread takes one more completion or packet at most**, in the iteration it is in. -/
theorem takes_le {P : Server × List LateStep → Event → Prop} {s₀ : Server}
    {x : Server × List LateStep} (h : Reach (shutdownSystem cfg) P (s₀, []) x) (t : Thread) :
    x.2.countP (fun l => l.isOf t && l.event.takes) ≤ 1 := by
  refine countP_le (fun s => s.isRunning t = false) (fun s => s.TakesNext t)
    (fun l => l.isOf t && l.event.takes) (fun _ _ _ hs hstep => isRunning_of_step hs hstep) ?_
    length_lateSteps_le ?_ ?_ h
  · intro s e hs
    have hnone := countP_lateSteps_of_running hs e
    rw [List.countP_eq_zero] at hnone ⊢
    intro l hl hboth
    exact hnone l hl (Bool.and_eq_true_iff.1 hboth).1
  · intro s e u hs hstep hnext
    by_cases het : e.thread = t
    · subst het
      exact absurd hnext (not_takesNext_of_step hstep hs)
    · exact (takesNext_of_ne hstep het).1 hnext
  · intro s e u hs hstep hcount
    obtain ⟨l, hl, hboth⟩ := List.countP_pos_iff.1 (Nat.pos_of_ne_zero hcount)
    obtain ⟨hof, htakes⟩ := Bool.and_eq_true_iff.1 hboth
    rw [lateSteps] at hl
    split at hl
    · obtain rfl := List.mem_singleton.1 hl
      obtain rfl : e.thread = t := of_decide_eq_true hof
      exact ⟨takesNext_of_takes hstep htakes, not_takesNext_of_step hstep hs⟩
    · cases hl

/-- A late step of another thread than `AcceptThread` begins no iteration. -/
theorem begins_eq_false (hs : s.isRunning e.thread = false) (he : e.thread ≠ .accept) :
    beginsIteration s e = false := by
  cases e with
  | workTop w | sendTop | bcTop => exact hs
  | scanSlot => exact absurd rfl he
  | _ => rfl

/-! ### `AcceptThread` -/

/-- The steps that are left to `AcceptThread`, with `n` slots, when the iteration it begins next
finds no free slot. -/
def AcceptPc.rank (n : ℕ) : AcceptPc → ℕ
  | .scan 0 => n + 1
  | .scan (k + 1) => n + 8 + (n - (k + 1))
  | .accepting _ => n + 7
  | .connecting _ _ _ => n + 6
  | .checking _ _ _ => n + 5
  | .counting _ _ => n + 4
  | .greeting _ _ => n + 3
  | .arming _ _ => n + 2
  | .returned => 0

/-- The steps that are left to it in such an iteration. -/
def AcceptPc.lastRank (n : ℕ) : AcceptPc → ℕ
  | .scan k => n - k + 1
  | .accepting _ | .connecting _ _ _ | .checking _ _ _ | .counting _ _ | .greeting _ _ | .arming _ _
  | .returned => 0

theorem AcceptPc.rank_le (n : ℕ) (pc : AcceptPc) : pc.rank n ≤ 2 * n + 8 := by
  cases pc with
  | scan k => cases k <;> simp only [AcceptPc.rank] <;> omega
  | _ =>
      simp only [AcceptPc.rank]
      omega

theorem AcceptPc.lastRank_le (n : ℕ) (pc : AcceptPc) : pc.lastRank n ≤ 2 * n + 8 := by
  cases pc <;> simp only [AcceptPc.lastRank] <;> omega

/-- `AcceptThread` only looks for a free slot. -/
def AcceptPc.Scanning : AcceptPc → Prop
  | .scan _ | .returned => True
  | .accepting _ | .connecting _ _ _ | .checking _ _ _ | .counting _ _ | .greeting _ _
  | .arming _ _ => False

/-- What `GetEmptyClientIndex` does at a slot that is not free. -/
theorem scanNext_of_not_free {k : ℕ} (hfree : ¬ s.IsFree k) :
    k < s.contexts.length ∧ Server.scanNext s.contexts k = .scan (k + 1) ∨
      s.contexts.length ≤ k ∧ Server.scanNext s.contexts k = .returned := by
  cases hctx : s.contexts[k]? with
  | none => exact Or.inr ⟨List.getElem?_eq_none_iff.1 hctx, by simp [Server.scanNext, hctx]⟩
  | some c =>
      have hlt := Server.lt_of_context hctx
      have hconnected : c.isConnected = true := by
        rw [← Server.connected_iff_context hctx]
        by_contra hnot
        exact hfree ⟨hlt, Server.not_connected_iff.1 hnot⟩
      exact Or.inl ⟨hlt, by simp [Server.scanNext, hctx, hconnected]⟩

theorem lateBegun_append (log log' : List LateStep) :
    lateBegun (log ++ log') = (lateBegun log || lateBegun log') := List.any_append

/-- A late step of `AcceptThread` begins an iteration when it reads slot 0. -/
theorem lateBegun_lateSteps (hs : s.isRunning e.thread = false) :
    lateBegun (lateSteps s e) = beginsIteration s e := by
  rw [lateSteps_of_late hs]
  simp [lateBegun]

theorem lateBegun_of_ne (he : e.thread ≠ .accept) : lateBegun (lateSteps s e) = false := by
  by_cases hs : s.isRunning e.thread = false
  · rw [lateBegun_lateSteps hs, begins_eq_false hs he]
  · rw [lateSteps_of_running (by simpa using hs)]
    rfl

/-- **An iteration that is begun late only looks for a free slot.** -/
theorem scanning_of_reach {s₀ : Server} {x : Server × List LateStep}
    (h : Reach (shutdownSystem cfg) (ShutdownStep K) (s₀, []) x) :
    lateBegun x.2 = true → x.1.isAcceptThreadRun = false ∧ x.1.acceptThread.Scanning := by
  refine h.logged_invariant (I := fun s log => lateBegun log = true →
    s.isAcceptThreadRun = false ∧ s.acceptThread.Scanning) (by simp [lateBegun]) ?_
  intro s log e s' hinv hP hstep hbegun
  rw [lateBegun_append, Bool.or_eq_true] at hbegun
  by_cases he : e.thread = .accept
  · -- the flag has been cleared, and the step reads a slot that is not free
    have hrun : s.isAcceptThreadRun = false := by
      rcases hbegun with hold | hnew
      · exact (hinv hold).1
      · by_contra hnot
        rw [lateSteps_of_running (by rw [he]; simpa [Server.isRunning] using hnot)] at hnew
        cases hnew
    refine ⟨isRunning_of_step (t := .accept) hrun hstep, ?_⟩
    have hlate : s.isRunning e.thread = false := by
      rw [he]
      exact hrun
    rw [lateBegun_lateSteps hlate] at hbegun
    have hscan : e = .scanSlot ∧ ∃ k, s.acceptThread = .scan k ∧
        (k = 0 ∨ lateBegun log = true) := by
      rcases hbegun with hold | hnew
      · have hscanning := (hinv hold).2
        rcases step_acceptThread hstep with ⟨-, hne⟩ | hmove
        · exact absurd he hne
        · generalize s'.acceptThread = pc at hmove
          cases hmove with
          | @scanned k hpc => exact ⟨rfl, k, hpc, Or.inr hold⟩
          | failed hpc | accepted hpc _ _ | attached hpc | kept hpc _ _ | dropped hpc _ _
          | counted hpc | greeted hpc _ | armed hpc =>
              rw [hpc] at hscanning
              exact hscanning.elim
      · cases e with
        | scanSlot => exact ⟨rfl, 0, of_decide_eq_true hnew, Or.inl rfl⟩
        | workTop w | sendTop | bcTop => cases he
        | _ => cases hnew
    obtain ⟨rfl, k, hpc, hk⟩ := hscan
    obtain ⟨k', hpc', rfl⟩ := Server.scanSlot_some hstep
    obtain rfl : k = k' := AcceptPc.scan.inj (hpc.symm.trans hpc')
    have hfull := hP.1 rfl hrun k (by rw [hpc]; rfl) hk
    rcases scanNext_of_not_free hfull with ⟨-, hnext⟩ | ⟨-, hnext⟩ <;>
      simp [hnext, AcceptPc.Scanning]
  · rw [lateBegun_of_ne he] at hbegun
    obtain ⟨hrun, hscanning⟩ := hinv (hbegun.resolve_right (by simp))
    refine ⟨isRunning_of_step (t := .accept) hrun hstep, ?_⟩
    rw [(step_frame hstep).acceptThread he]
    exact hscanning

/-- A step of an iteration that was begun before the flag was cleared, or the step that begins the
next one. -/
theorem AcceptMove.rank_lt {pc : AcceptPc} (h : AcceptMove cfg s e pc)
    (hfree : s.acceptThread = .scan 0 → ¬ s.IsFree 0) :
    1 + (if beginsIteration s e then pc.lastRank s.contexts.length
      else pc.rank s.contexts.length) ≤ s.acceptThread.rank s.contexts.length := by
  cases h with
  | @scanned k hpc =>
      cases k with
      | zero =>
          rcases scanNext_of_not_free (hfree hpc) with ⟨hlt, hnext⟩ | ⟨-, hnext⟩ <;>
            simp only [beginsIteration, hpc, decide_true, if_true, hnext, AcceptPc.lastRank,
              AcceptPc.rank] <;> omega
      | succ k =>
          simp only [beginsIteration, hpc, AcceptPc.scan.injEq, Nat.succ_ne_zero, decide_false,
            Bool.false_eq_true, if_false]
          cases hctx : s.contexts[k + 1]? with
          | none =>
              simp only [Server.scanNext, hctx, AcceptPc.rank]
              omega
          | some c =>
              have hlt := Server.lt_of_context hctx
              simp only [Server.scanNext, hctx]
              split <;> simp only [AcceptPc.rank] <;> omega
  | failed hpc | dropped hpc _ _ | armed hpc | accepted hpc _ _ | attached hpc | kept hpc _ _
  | counted hpc | greeted hpc _ =>
      simp only [beginsIteration, hpc, Bool.false_eq_true, if_false, AcceptPc.rank]
      omega

/-- A step of the last iteration. -/
theorem AcceptMove.lastRank_lt {pc : AcceptPc} (h : AcceptMove cfg s e pc)
    (hscanning : s.acceptThread.Scanning) (hfree : ∀ k, s.acceptThread = .scan k → ¬ s.IsFree k) :
    1 + pc.lastRank s.contexts.length ≤ s.acceptThread.lastRank s.contexts.length := by
  cases h with
  | @scanned k hpc =>
      rcases scanNext_of_not_free (hfree k hpc) with ⟨hlt, hnext⟩ | ⟨-, hnext⟩ <;>
        simp only [hpc, hnext, AcceptPc.lastRank] <;> omega
  | failed hpc | dropped hpc _ _ | armed hpc | accepted hpc _ _ | attached hpc | kept hpc _ _
  | counted hpc | greeted hpc _ =>
      rw [hpc] at hscanning
      exact hscanning.elim

/-- **`AcceptThread` takes a bounded number of late steps.** -/
theorem accept_steps_le {mem : ℕ → Mem} {workers : ℕ} {x : Server × List LateStep}
    (h : Reach (shutdownSystem cfg) (ShutdownStep K) (initServer mem n workers, []) x) :
    x.2.countP (LateStep.isOf .accept) ≤ 2 * n + 8 := by
  suffices hle : x.2.countP (LateStep.isOf .accept) ≤
      2 * n + 8 + 0 * x.2.countP LateStep.repeats by omega
  refine late_steps_le .accept (fun x => if lateBegun x.2 then x.1.acceptThread.lastRank n
    else x.1.acceptThread.rank n) ?_ ?_ ?_ h
  · intro x
    split
    · exact x.1.acceptThread.lastRank_le n
    · exact x.1.acceptThread.rank_le n
  · intro x e u hx hP hrun het hstep
    have hreach : Reach (step cfg) (fun _ _ => True) (initServer mem n workers) x.1 :=
      Reach.of_logged (fun _ _ _ => trivial) hx
    obtain rfl := (SlotTable.of_reach hreach).length
    have hlate : x.1.isRunning e.thread = false := by
      rw [het]
      exact hrun
    have hfree : ∀ k, x.1.acceptThread = .scan k → k = 0 ∨ lateBegun x.2 = true →
        ¬ x.1.IsFree k := by
      intro k hpc hk
      have hscan : e = .scanSlot := by
        rcases step_acceptThread hstep with ⟨-, hne⟩ | hmove
        · exact absurd het hne
        · generalize u.acceptThread = pc at hmove
          cases hmove with
          | scanned _ => rfl
          | failed hpc' | accepted hpc' _ _ | attached hpc' | kept hpc' _ _ | dropped hpc' _ _
          | counted hpc' | greeted hpc' _ | armed hpc' =>
              rw [hpc] at hpc'
              cases hpc'
      exact hP.1 hscan hrun k (by rw [hpc]; rfl) hk
    rcases step_acceptThread hstep with ⟨-, hne⟩ | hmove
    · exact absurd het hne
    · cases hbegun : lateBegun x.2 with
      | true =>
          have hrank := hmove.lastRank_lt (scanning_of_reach hx hbegun).2
            fun k hpc => hfree k hpc (Or.inr hbegun)
          simpa [lateBegun_append, hbegun] using hrank
      | false =>
          have hrank := hmove.rank_lt fun hpc => hfree 0 hpc (Or.inl rfl)
          simpa [lateBegun_append, hbegun, lateBegun_lateSteps hlate] using hrank
  · intro x e u _ het hstep
    simp only [lateBegun_append, lateBegun_of_ne het, Bool.or_false,
      (step_frame hstep).acceptThread het]
    exact Nat.le_refl _

/-- **In a later iteration no client is connected.** -/
theorem no_connect_of_reach {s₀ : Server} {x : Server × List LateStep}
    (h : Reach (shutdownSystem cfg) (ShutdownStep K) (s₀, []) x) :
    x.2.Pairwise fun a b => a.begins = true → b.event ≠ .connectClient := by
  refine h.and_invariant (J := fun x => lateBegun x.2 = true → x.1.acceptThread.Scanning)
    (I := fun x => x.2.Pairwise fun a b => a.begins = true → b.event ≠ .connectClient)
    (fun t ht hbegun => (scanning_of_reach ht hbegun).2) List.Pairwise.nil ?_
  intro x e y hscanning _ hlog _ hstep
  obtain ⟨hs, hy⟩ := logged_some hstep
  rw [hy]
  refine List.pairwise_append.2 ⟨hlog, ?_, ?_⟩
  · rw [lateSteps]
    split
    · exact List.pairwise_singleton _ _
    · exact List.Pairwise.nil
  · intro a ha b hb hbegins hconnect
    rw [lateSteps] at hb
    split at hb
    · obtain rfl := List.mem_singleton.1 hb
      obtain rfl : e = .connectClient := hconnect
      obtain ⟨i, sock, conn, hpc, -⟩ := Server.connectClient_some hs
      have hnone := hscanning (List.any_eq_true.2 ⟨a, ha, hbegins⟩)
      rw [hpc] at hnone
      exact hnone
    · cases hb

/-! ### The threads stop -/

/-- **Each loop stops.**  In every run of the server, from the initial state on, in which the
iterations that `AcceptThread` begins after its flag has been cleared find no free slot and at most
`K` sends of reliable packets fail after the flag of `SendBroadCastThread` has been cleared: once
the flag of a thread has been cleared, `AcceptThread` calls no `ConnectClient` in a later iteration,
no other thread begins a further iteration or takes more than the one completion or packet of the
iteration it is in, and each thread takes a bounded number of steps. -/
theorem threads_shut_down {mem : ℕ → Mem} {workers : ℕ} {log : List LateStep}
    (h : Reach (shutdownSystem cfg) (ShutdownStep K) (initServer mem n workers, []) (s, log)) :
    log.Pairwise (fun a b => a.begins = true → b.event ≠ .connectClient) ∧
      (∀ l ∈ log, l.event.thread ≠ .accept → l.begins = false) ∧
      (∀ t, log.countP (fun l => l.isOf t && l.event.takes) ≤ 1) ∧
      log.countP (LateStep.isOf .accept) ≤ 2 * n + 8 ∧
      (∀ w, log.countP (LateStep.isOf (.work w)) ≤ 4) ∧
      log.countP (LateStep.isOf .send) ≤ 5 ∧
      log.countP (LateStep.isOf .broadCast) ≤ 3 * n + 3 + 3 * K := by
  refine ⟨no_connect_of_reach h, ?_, takes_le h, accept_steps_le h, work_steps_le h,
    send_steps_le h, ?_⟩
  · refine h.logged_invariant (I := fun _ log => ∀ l ∈ log, l.event.thread ≠ .accept →
      l.begins = false) (by simp) ?_
    intro t log e u hlog _ _ l hl hne
    rcases List.mem_append.1 hl with hold | hnew
    · exact hlog l hold hne
    · rw [lateSteps] at hnew
      split at hnew
      · rename_i hlate
        obtain rfl := List.mem_singleton.1 hnew
        exact begins_eq_false hlate hne
      · cases hnew
  · have hle := broadCast_steps_le h
    have hrepeats : log.countP LateStep.repeats ≤ K := repeats_le h
    simp only at hle
    omega

/-- The only slot is taken when the threads are told to stop, and all of them do. -/
theorem full_server_shuts_down :
    ∃ s log, Reach (shutdownSystem wireConfig) (ShutdownStep 0) (wireServer 1, []) (s, log) ∧
      s.closeThread = .finished ∧ log.countP (LateStep.isOf .accept) = 2 ∧
      log.Pairwise fun a b => a.begins = true → b.event ≠ .connectClient := by
  obtain ⟨⟨s, log⟩, hreach, hfacts⟩ := Reach.exists_of_runIf (shutdownSystem wireConfig)
    (ShutdownStep 0) (wireServer 1, [])
    (.scanSlot :: acceptEvents 7 ++ [.closeThreads, .scanSlot, .scanSlot, .closeThreads, .workTop 0,
      .closeThreads, .sendTop, .closeThreads, .bcTop, .closeThreads])
    (fun x => (x.1.closeThread, x.2.countP (LateStep.isOf .accept))) (x := (.finished, 2))
    (by decide +kernel)
  obtain ⟨hclosed, hcount⟩ := Prod.mk.inj hfacts
  exact ⟨s, log, hreach, hclosed, hcount, (threads_shut_down hreach).1⟩

/-- **`AcceptThread` goes on.**  Its flag is cleared while it waits in `WSAAccept`; the call fails,
and the next iteration connects a client. -/
theorem late_iteration_connects_client :
    ∃ s log, Reach (shutdownSystem wireConfig) (fun _ _ => True) (wireServer 1, []) (s, log) ∧
      s.isAcceptThreadRun = false ∧ s.socketAt 0 = some 7 ∧
      log.map (fun l => (l.event, l.begins)) = [(.wsaAccept none, false), (.scanSlot, true),
        (.wsaAccept (some 7), false), (.connectClient, false)] ∧
      ¬ log.Pairwise fun a b => a.begins = true → b.event ≠ .connectClient := by
  obtain ⟨⟨s, log⟩, hreach, hfacts⟩ := Reach.exists_of_runIf (shutdownSystem wireConfig)
    (fun _ _ => True) (wireServer 1, [])
    [.scanSlot, .closeThreads, .wsaAccept none, .scanSlot, .wsaAccept (some 7), .connectClient]
    (fun x => (x.1.isAcceptThreadRun, x.1.socketAt 0, x.2.map fun l => (l.event, l.begins)))
    (x := (false, some 7, [(.wsaAccept none, false), (.scanSlot, true),
      (.wsaAccept (some 7), false), (.connectClient, false)])) (by decide +kernel)
  simp only [Prod.mk.injEq] at hfacts
  obtain ⟨hrun, hsock, hlog⟩ := hfacts
  refine ⟨s, log, hreach, hrun, hsock, hlog, ?_⟩
  intro hpairwise
  have hmap : (log.map fun l => (l.event, l.begins)).Pairwise
      fun a b => a.2 = true → b.1 ≠ Event.connectClient := List.pairwise_map.2 hpairwise
  rw [hlog] at hmap
  exact absurd hmap (by decide)

end IocpDemo
