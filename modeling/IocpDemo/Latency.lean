/-
**How long a packet waits in its queue** (`SendThread`, `SendBroadCastThread`, `WorkThread`).

The two sender threads wait for nothing: they ask for a packet again and again, and `WSASend` does
not block.  So a packet waits for the packets before it only, and each of these costs a bounded
number of steps: five in `SendThread`, whether the send succeeds or not, and in
`SendBroadCastThread` three for each slot and three more, as long as no reliable packet has to be
sent again.  It makes no difference what is queued behind it, nor what the other threads do
meanwhile.  The same is true of the completions and the worker threads, which share them: each
completion costs four steps.

Main definitions:

* `IocpDemo.historySystem`, `IocpDemo.stepsOf`, `IocpDemo.sendsRepeated` — the server with its
  history, and what is counted in it;
* `IocpDemo.SendPc.cost`, `IocpDemo.BroadCastPc.cost`, `IocpDemo.Server.workCost` — the steps until
  the threads are done with what they hold and with the first items of their queue.

Main results:

* `IocpDemo.unicasts_given_in_time` — **a queued packet is given to `SendPacket` in time**;
* `IocpDemo.broadcasts_sent_in_time` — **a slot that stays connected is sent what it is owed in
  time**;
* `IocpDemo.completions_fetched_in_time` — **a queued completion is fetched in time**.
-/

import IocpDemo.BroadCastOrder
import IocpDemo.ServiceTime
import IocpDemo.Shutdown
import Mathlib.Algebra.Order.BigOperators.Group.List
import Mathlib.Algebra.Order.Ring.Nat

set_option relaxedAutoImplicit false
set_option autoImplicit false

namespace IocpDemo

open Bytes Transition Conveyor Wire

variable {cfg : Config} {s s' s₀ : Server} {n a i : ℕ} {e : Event}
  {log : List (Server × Event)}

/-! ### The history of a run -/

/-- The server with its history: the states in which the steps have been taken, with the steps. -/
abbrev historySystem (cfg : Config) : Server × List (Server × Event) → Event →
    Option (Server × List (Server × Event)) := logged (step cfg) fun s e => [(s, e)]

/-- The number of steps of a thread. -/
def stepsOf (t : Thread) (log : List (Server × Event)) : ℕ := log.countP fun x => x.2.thread = t

/-- The number of sends of a reliable packet that have failed. -/
def sendsRepeated (log : List (Server × Event)) : ℕ := log.countP fun x => repeatsSend x.1 x.2

/-- The traffic of a run. -/
def trafficOf (cfg : Config) (log : List (Server × Event)) : List Traffic :=
  log.flatMap fun x => traffic cfg x.1 x.2

/-- What has happened to broadcasts in a run. -/
def broadCastsOf (cfg : Config) (log : List (Server × Event)) : List BroadCastEvent :=
  log.flatMap fun x => broadCastEvents cfg x.1 x.2

/-! ### `SendThread` -/

/-- The steps until `SendThread` is done with the packet it holds and with the first `a` packets of
its queue. -/
def SendPc.cost (a : ℕ) : SendPc → ℕ
  | .top => 5 * a
  | .popping => 5 * a - 1
  | .holding _ _ => 5 * a + 3
  | .copying _ _ => 5 * a + 2
  | .sending _ _ => 5 * a + 1
  | .crashed _ | .stopped => 0

theorem SendPc.cost_lt (a : ℕ) (pc : SendPc) : pc.cost a < 5 * (a + 1) := by
  cases pc <;> simp only [SendPc.cost] <;> omega

/-- A step of `SendThread` that takes no packet brings it nearer to the end of its work. -/
theorem SendMove.cost_lt {pc : SendPc} (h : SendMove s e pc) (hpop : e ≠ .popPacket)
    (ha : a = 0 → s.sendThread.waiting ≠ []) : 1 + pc.cost a ≤ s.sendThread.cost a := by
  cases h with
  | entered hpc =>
      have hpos : a ≠ 0 := by
        intro hzero
        exact ha hzero (by rw [hpc]; rfl)
      rw [hpc]
      split <;> simp only [SendPc.cost] <;> omega
  | popped _ _ | empty _ _ => exact absurd rfl hpop
  | @tested p conn hpc =>
      rw [hpc]
      rcases Server.sendNext_cases s.contexts p conn with hnext | hnext | hnext <;>
        simp only [hnext, SendPc.cost] <;> omega
  | copied hpc | sent hpc =>
      rw [hpc]
      simp only [SendPc.cost]
      omega

/-- **What a step does to `IOSendPacketQue`**, and to the work that `SendThread` has before it. -/
theorem step_timely_unicast (h : step cfg s e = some s') :
    Timely Server.unicastBelt (fun x : Server × Event =>
        (traffic cfg x.1 x.2).flatMap Traffic.unicastPushed)
      (fun x => x.2.thread = .send) (fun _ => false) (fun s a => s.sendThread.cost a) 0 s [(s, e)]
      s' := by
  by_cases hpop : e = .popPacket
  · subst hpop
    obtain ⟨hpc, hs'⟩ := Server.popPacket_some h
    have hheld : s.unicastBelt.held = [] := by
      rw [Server.unicastBelt, hpc]
      rfl
    cases hq : s.que.ioSendPacketQue with
    | nil => exact .idle hheld hq
    | cons p ps =>
        have hque : s'.unicastBelt.queue = ps := by
          simp [hs', Server.unicastBelt, getPendingPacket, hq]
        refine .taken hheld ?_ (hque.symm ▸ hq) fun a => ?_
        · simp [traffic, queOp, queueTraffic, consumed]
        · have hcost : 1 + s'.sendThread.cost a ≤ s.sendThread.cost (a + 1) := by
            rw [hs', hpc]
            by_cases hp : p.Nonempty <;> simp only [getPendingPacket, hq, hp, if_true, if_false,
              SendPc.cost] <;> omega
          simpa [Event.thread] using hcost
  · refine .appended ?_ fun a ha => ?_
    · simpa [Server.unicastBelt] using step_ioSendPacketQue h hpop
    · rcases step_sendThread h with ⟨hsame, hne⟩ | hmove
      · simp [hsame, hne]
      · have hlt := hmove.cost_lt hpop ha
        simp only [List.countP_singleton]
        split <;> omega

/-- **A queued packet is given to `SendPacket` in time.**  From any state on, whatever the other
threads do and whatever the sends return: after five steps of `SendThread` for each packet of its
queue, and five for the one it may hold, it has given to `SendPacket` all packets that were waiting
at first, in their order and before any other. -/
theorem unicasts_given_in_time (cfg : Config)
    (h : Reach (historySystem cfg) (fun _ _ => True) (s₀, []) (s, log))
    (htime : 5 * (s₀.que.ioSendPacketQue.length + 1) ≤ stepsOf .send log) :
    s₀.unicastBelt.pending PacketBuffer.Nonempty <+:
      (trafficOf cfg log).flatMap Traffic.unicastGiven := by
  have hcost := SendPc.cost_lt s₀.que.ioSendPacketQue.length s₀.sendThread
  have hserved := served_in_time PacketBuffer.Nonempty Server.unicastBelt
    (fun x => (traffic cfg x.1 x.2).flatMap Traffic.unicastGiven) (I := fun _ => True) trivial
    (fun s _ e t _ _ hstep => ⟨trivial, ?_⟩) (fun s e t _ hstep => step_timely_unicast hstep) h ?_
  · rw [trafficOf, List.flatMap_assoc]
    exact hserved
  · simpa using step_balances_unicast hstep
  · rw [Nat.zero_mul, Nat.add_zero]
    exact Nat.lt_of_lt_of_le hcost htime

/-- The first client has been accepted: ten steps of `SendThread` later its packet has been given to
`SendPacket`. -/
theorem greeting_given_in_time :
    ∃ s₀ s log p, s₀.unicastBelt.pending PacketBuffer.Nonempty = [p] ∧
      Reach (historySystem wireConfig) (fun _ _ => True) (s₀, []) (s, log) ∧
        [p] <+: (trafficOf wireConfig log).flatMap Traffic.unicastGiven := by
  obtain ⟨s₀, -, hs₀⟩ := Reach.exists_of_run (step wireConfig) (wireServer 1)
    (.scanSlot :: acceptEvents 7)
    (fun s₀ : Server => ((s₀.unicastBelt.pending PacketBuffer.Nonempty).length,
      s₀.que.ioSendPacketQue.length,
      (run (historySystem wireConfig) (s₀, []) (sendEvents ++ [.sendTop, .popPacket, .sendTop,
        .popPacket, .sendTop])).map fun x => stepsOf .send x.2))
    (x := (1, 1, some 10)) (by decide +kernel)
  simp only [Prod.mk.injEq, Option.map_eq_some_iff] at hs₀
  obtain ⟨hone, hlength, ⟨s, log⟩, hrun, hsteps⟩ := hs₀
  obtain ⟨p, hp⟩ := List.length_eq_one_iff.1 hone
  have hreach := Reach.of_run hrun
  have htime : 5 * (s₀.que.ioSendPacketQue.length + 1) ≤ stepsOf .send log := by
    rw [hlength]
    exact Nat.le_of_eq hsteps.symm
  have hgiven := unicasts_given_in_time wireConfig hreach htime
  rw [hp] at hgiven
  exact ⟨s₀, s, log, p, hp, hreach, hgiven⟩

/-! ### `SendBroadCastThread` -/

/-- The steps until `SendBroadCastThread` is done with the packet it holds and with the first `a`
packets of its queue, with `n` slots and without sends that are repeated. -/
def BroadCastPc.cost (n a : ℕ) : BroadCastPc → ℕ
  | .top => (3 * n + 3) * a
  | .popping => (3 * n + 3) * a - 1
  | .looping _ i => (3 * n + 3) * a + (3 * (n - i) + 1)
  | .copying _ i => (3 * n + 3) * a + 3 * (n - i)
  | .sending _ i => (3 * n + 3) * a + 3 * (n - i) - 1
  | .stopped => 0

theorem BroadCastPc.cost_lt (n a : ℕ) (pc : BroadCastPc) :
    pc.cost n a < (3 * n + 3) * (a + 1) := by
  rw [Nat.mul_succ]
  cases pc <;> simp only [BroadCastPc.cost] <;> omega

/-- A step of `SendBroadCastThread` that takes no packet brings it nearer to the end of its work,
unless a send is repeated. -/
theorem BroadCastMove.cost_lt {pc : BroadCastPc} (h : BroadCastMove s e pc)
    (hlength : s.contexts.length = n) (hs : s.broadCastThread.Owed n) (hpop : e ≠ .popBCPacket)
    (ha : a = 0 → s.broadCastThread ≠ .top) :
    1 + pc.cost n a ≤ s.broadCastThread.cost n a + 3 * if repeatsSend s e then 1 else 0 := by
  cases h with
  | entered hpc =>
      have hpos : a ≠ 0 := fun hzero => ha hzero hpc
      have hround : 3 * n + 3 ≤ (3 * n + 3) * a := Nat.le_mul_of_pos_right _ (by omega)
      rw [hpc]
      split <;> simp only [BroadCastPc.cost] <;> omega
  | popped _ _ | empty _ _ => exact absurd rfl hpop
  | @tested p i hpc =>
      rw [hpc]
      cases hctx : s.contexts[i]? with
      | none =>
          simp only [Server.bcNext, hctx, BroadCastPc.cost]
          omega
      | some c =>
          have hi : i < n := hlength ▸ Server.lt_of_context hctx
          simp only [Server.bcNext, hctx]
          split <;> simp only [BroadCastPc.cost] <;> omega
  | copied hpc =>
      rw [hpc] at hs ⊢
      have hi := hs.1
      simp only [BroadCastPc.cost]
      omega
  | @sent p i r hpc =>
      rw [hpc] at hs
      have hi := hs.1
      by_cases hagain : r = none ∧ p.bIsReliable = true
      · simp only [repeatsSend, hpc, hagain, and_self, if_true, Option.isNone_none, Bool.and_self,
          BroadCastPc.cost]
        omega
      · rw [if_neg hagain, hpc]
        simp only [BroadCastPc.cost]
        omega

/-- **What a step does to `IOSendBCPacketQue`**, and to the work that `SendBroadCastThread` has
before it. -/
theorem step_timely_broadCast (h : step cfg s e = some s') (hlength : s.contexts.length = n)
    (hs : s.broadCastThread.Owed n) :
    Timely (Server.owedBelt a) (fun x : Server × Event =>
        (traffic cfg x.1 x.2).flatMap Traffic.bcPushed)
      (fun x => x.2.thread = .broadCast) (fun x => repeatsSend x.1 x.2)
      (fun s k => s.broadCastThread.cost n k) 3 s [(s, e)] s' := by
  by_cases hpop : e = .popBCPacket
  · subst hpop
    obtain ⟨hpc, hs'⟩ := Server.popBCPacket_some h
    have hheld : (s.owedBelt a).held = [] := by
      rw [Server.owedBelt, hpc]
      rfl
    cases hq : s.que.ioSendBCPacketQue with
    | nil => exact .idle hheld hq
    | cons p ps =>
        have hque : (s'.owedBelt a).queue = ps := by
          simp [hs', Server.owedBelt, getPendingBCPacket, hq]
        refine .taken hheld ?_ (hque.symm ▸ hq) fun k => ?_
        · simp [traffic, queOp, queueTraffic, consumed_pushed]
        · have hcost : 1 + s'.broadCastThread.cost n k ≤ s.broadCastThread.cost n (k + 1) := by
            rw [hs', hpc]
            by_cases hp : p.Nonempty <;> simp only [getPendingBCPacket, hq, hp, if_true, if_false,
              BroadCastPc.cost, Nat.mul_succ] <;> omega
          simpa [Event.thread, repeatsSend] using hcost
  · refine .appended ?_ fun k hk => ?_
    · simpa [Server.owedBelt] using step_ioSendBCPacketQue h hpop
    · rcases step_broadCastThread h with ⟨hsame, hne⟩ | hmove
      · simp [hsame, hne]
      · have hlt := hmove.cost_lt (a := k) hlength hs hpop fun hzero hpc =>
          hk hzero (by rw [Server.owedBelt, hpc]; rfl)
        simp only [List.countP_singleton]
        split <;> omega

/-- **A slot that stays connected is sent what it is owed in time.**  From any reachable state on in
which the slot `a` is connected, and as long as it is not freed, whatever the other threads do and
whatever is queued meanwhile: after `3 * n + 3` steps of `SendBroadCastThread` for each packet of
its queue and for the one it may hold, and three more for each send of a reliable packet that has
failed, it is done with sending to the slot all packets that the slot was owed at first, in their
order and before any other. -/
theorem broadcasts_sent_in_time (cfg : Config) (mem : ℕ → Mem) (workers : ℕ) (hn : n < 4294967296)
    (h₀ : Reach (step cfg) (fun _ _ => True) (initServer mem n workers) s₀) (ha : s₀.Connected a)
    (h : Reach (historySystem cfg) (fun x e => ¬ Forgets x.1 e a) (s₀, []) (s, log))
    (htime : (3 * n + 3) * (s₀.que.ioSendBCPacketQue.length + 1) + 3 * sendsRepeated log ≤
      stepsOf .broadCast log) :
    s₀.owed a <+: (broadCastsOf cfg log).flatMap (BroadCastEvent.settledAt a) := by
  have hcost := BroadCastPc.cost_lt n s₀.que.ioSendBCPacketQue.length s₀.broadCastThread
  have hserved := served_in_time (OwedTo a) (Server.owedBelt a)
    (fun x => (broadCastEvents cfg x.1 x.2).flatMap (BroadCastEvent.settledAt a))
    (I := fun s => (SlotTable n s ∧ s.broadCastThread.Owed n) ∧ s.Connected a)
    ⟨tableOwed_of_reach hn h₀, ha⟩ (fun s _ e t hI hkept hstep => ?_)
    (fun s e t hI hstep => step_timely_broadCast hstep hI.1.1.length hI.1.2) h ?_
  · rw [broadCastsOf, List.flatMap_assoc]
    exact hserved
  · obtain ⟨⟨ht, hs⟩, ha⟩ := hI
    refine ⟨⟨⟨ht.step hstep, hs.step ht hn hstep⟩, ha.step hstep hkept⟩, ?_⟩
    have hbalance := step_balances_owed hstep ht hn hs ha
    rw [← flatMap_settledAt_events] at hbalance
    simpa using hbalance
  · exact Nat.lt_of_lt_of_le (Nat.add_lt_add_right hcost _) htime

/-- The login of the first of two clients is queued: within twenty-one steps of
`SendBroadCastThread`, three of them for a send that fails, the second client has been sent it. -/
theorem login_sent_in_time :
    ∃ s₀ s log p, s₀.Connected 1 ∧ s₀.owed 1 = [p] ∧
      Reach (historySystem wireConfig) (fun x e => ¬ Forgets x.1 e 1) (s₀, []) (s, log) ∧
        sendsRepeated log = 1 ∧
          [p] <+: (broadCastsOf wireConfig log).flatMap (BroadCastEvent.settledAt 1) := by
  obtain ⟨s₀, h₀, hs₀⟩ := Reach.exists_of_run (step wireConfig) (wireServer 2)
    (.scanSlot :: acceptEvents 7 ++ [.scanSlot, .scanSlot] ++ acceptEvents 8 ++
      serveEvents [6, 0, 2, 0, 10, 0])
    (fun s₀ => (decide (s₀.Connected 1), (s₀.owed 1).length, s₀.que.ioSendBCPacketQue.length,
      (runIf (historySystem wireConfig) (fun x e => decide (forgottenSlot x.1 e ≠ some 1))
        (s₀, []) (broadCastRoundEvents ++ (List.replicate 6 [.bcTop, .popBCPacket]).flatten)).map
          fun x => (stepsOf .broadCast x.2, sendsRepeated x.2)))
    (x := (true, 1, 1, some (22, 1))) (by decide +kernel)
  simp only [Prod.mk.injEq, decide_eq_true_eq, Option.map_eq_some_iff] at hs₀
  obtain ⟨hconn, hone, hlength, ⟨s, log⟩, hrun, hsteps, hrepeated⟩ := hs₀
  obtain ⟨p, hp⟩ := List.length_eq_one_iff.1 hone
  have hreach : Reach (historySystem wireConfig) (fun x e => ¬ Forgets x.1 e 1) (s₀, [])
      (s, log) := by
    refine Reach.of_runIf (fun x e he hf => ?_) hrun
    exact of_decide_eq_true he (forgottenSlot_of_forgets hf)
  have hsent := broadcasts_sent_in_time wireConfig (fun _ _ => 0) 1 (by decide) h₀ hconn hreach
    (by rw [hlength, hsteps, hrepeated]; decide)
  rw [hp] at hsent
  exact ⟨s₀, s, log, p, hconn, hp, hreach, hrepeated, hsent⟩

/-! ### The worker threads -/

/-- The completions that a step queues. -/
def completed (s : Server) : Event → List Completion
  | .completeRecv k bSuccess data =>
      s.os.outstanding[k]?.toList.map fun r => ⟨r.key, bSuccess, data, r.conn⟩
  | _ => []

/-- The completion that a worker thread fetches. -/
def fetched (s : Server) : Event → List Completion
  | .getCompletion _ => s.os.completions.take 1
  | _ => []

/-- The completion queue. -/
def Server.completionBelt (s : Server) : Belt Completion := ⟨[], s.os.completions⟩

/-- A step of a worker thread. -/
def Event.isWork (e : Event) : Bool :=
  match e.thread with
  | .work _ => true
  | _ => false

/-- The steps until a worker thread is at `GetQueuedCompletionStatus` again, or has ended. -/
def WorkPc.cost : WorkPc → ℕ
  | .closing _ | .received _ => 3
  | .forgetting _ | .rearming _ => 2
  | .top => 1
  | .waiting | .stopped => 0

/-- The steps until the worker threads are done with what they have fetched and with the first `a`
completions of the queue. -/
def Server.workCost (s : Server) (a : ℕ) : ℕ := 4 * a + (s.workThreads.map WorkPc.cost).sum

theorem sum_map_set {α : Type*} (f : α → ℕ) {l : List α} {k : ℕ} {x : α} (h : l[k]? = some x)
    (y : α) : ((l.set k y).map f).sum + f x = (l.map f).sum + f y := by
  induction l generalizing k with
  | nil => cases h
  | cons z l ih =>
      cases k with
      | zero =>
          obtain rfl : z = x := Option.some.inj h
          simp only [List.set_cons_zero, List.map_cons, List.sum_cons]
          omega
      | succ k =>
          have hrest := ih (k := k) h
          simp only [List.set_cons_succ, List.map_cons, List.sum_cons]
          omega

theorem WorkPc.cost_le (pc : WorkPc) : pc.cost ≤ 3 := by
  cases pc <;> simp [WorkPc.cost]

theorem Server.workCost_le (s : Server) (a : ℕ) :
    s.workCost a ≤ 4 * a + 3 * s.workThreads.length := by
  have hmem : ∀ x ∈ s.workThreads.map WorkPc.cost, x ≤ 3 := by
    intro x hx
    obtain ⟨pc, -, rfl⟩ := List.mem_map.1 hx
    exact pc.cost_le
  have hsum := List.sum_le_card_nsmul _ _ hmem
  rw [List.length_map, Nat.nsmul_eq_mul] at hsum
  rw [Server.workCost]
  omega

/-- A worker thread that fetches nothing goes on to the head of its loop. -/
theorem WorkMove.cost_lt {w : ℕ} {pc pc' : WorkPc} (h : WorkMove cfg s e w pc pc')
    (hget : e ≠ .getCompletion w) : pc'.cost < pc.cost := by
  cases h with
  | entered => split <;> simp [WorkPc.cost]
  | got hq => exact absurd rfl hget
  | _ => simp [WorkPc.cost]

/-- A step that fetches nothing appends what completes. -/
theorem step_completions (h : step cfg s e = some s') (hget : ∀ w, e ≠ .getCompletion w) :
    s'.os.completions = s.os.completions ++ completed s e := by
  cases e with
  | getCompletion w => exact absurd rfl (hget w)
  | completeRecv k bSuccess data =>
      obtain ⟨r, hr, -, -, rfl⟩ := Server.completeRecv_some h
      simp [completed, hr]
  | acceptReceive pending =>
      obtain ⟨i, conn, -, h⟩ := Server.acceptReceive_some h
      simp [completed, Server.receivePacket_completions h]
  | workReceive w pending =>
      obtain ⟨c, -, h⟩ := Server.workReceive_some h
      simp [completed, Server.receivePacket_completions h, Server.setWorker]
  | _ => simp [completed, ((step_os h).receives rfl).2]

theorem fetched_of_ne (hget : ∀ w, e ≠ .getCompletion w) : fetched s e = [] := by
  cases e with
  | getCompletion w => exact absurd rfl (hget w)
  | _ => rfl

/-- **Every step keeps the balance of the completion queue.** -/
theorem step_balances_completions (h : step cfg s e = some s') :
    Balances (fun _ => True) s.completionBelt (completed s e) (fetched s e) s'.completionBelt := by
  by_cases hget : ∃ w, e = .getCompletion w
  · obtain ⟨w, rfl⟩ := hget
    obtain ⟨c, rest, -, hq, rfl⟩ := Server.getCompletion_some h
    simp [Balances, Belt.pending, Server.completionBelt, completed, fetched, hq]
  · have hne : ∀ w, e ≠ .getCompletion w := fun w he => hget ⟨w, he⟩
    rw [Server.completionBelt, Server.completionBelt, step_completions h hne, fetched_of_ne hne]
    exact balances_push _ _ _ _

/-- **What a step does to the completion queue**, and to the work that the worker threads have before
them. -/
theorem step_timely_completions (h : step cfg s e = some s') :
    Timely Server.completionBelt (fun x : Server × Event => completed x.1 x.2)
      (fun x => x.2.isWork) (fun _ => false) Server.workCost 0 s [(s, e)] s' := by
  by_cases hget : ∃ w, e = .getCompletion w
  · obtain ⟨w, rfl⟩ := hget
    obtain ⟨c, rest, hpc, hq, rfl⟩ := Server.getCompletion_some h
    refine .taken (y := c) rfl (by simp [completed]) hq fun a => ?_
    have hsum := sum_map_set WorkPc.cost hpc (Server.afterCompletion c)
    have hle := (Server.afterCompletion c).cost_le
    have hzero : WorkPc.waiting.cost = 0 := rfl
    simp only [Event.isWork, Event.thread, Server.workCost, Server.setWorker, List.countP_singleton,
      if_true]
    omega
  · have hne : ∀ w, e ≠ .getCompletion w := fun w he => hget ⟨w, he⟩
    refine .appended ?_ fun a _ => ?_
    · simpa [Server.completionBelt] using step_completions h hne
    · rcases step_workThreads h with ⟨hsame, hnone⟩ | ⟨w, pc, pc', hmove, hpc, hset⟩
      · have hother : e.isWork = false := by
          cases hthread : e.thread with
          | work w => exact absurd hthread (hnone w)
          | _ => simp [Event.isWork, hthread]
        simp [hother, Server.workCost, hsame]
      · have hwork : e.isWork = true := by simp [Event.isWork, hmove.thread_eq]
        have hsum := sum_map_set WorkPc.cost hpc pc'
        have hlt := hmove.cost_lt (hne w)
        have hcost : 1 + s'.workCost a ≤ s.workCost a := by
          rw [Server.workCost, Server.workCost, hset]
          omega
        simpa [hwork] using hcost

/-- **A completion is fetched in time.**  From any state on, whatever the other threads do and
however the worker threads share the work: after four steps of worker threads for each queued
completion, and three for each worker thread, the completions that were queued at first have all
been fetched, in their order and before any other. -/
theorem completions_fetched_in_time (cfg : Config)
    (h : Reach (historySystem cfg) (fun _ _ => True) (s₀, []) (s, log))
    (htime : 4 * s₀.os.completions.length + 3 * s₀.workThreads.length <
      log.countP fun x => x.2.isWork) :
    s₀.os.completions <+: log.flatMap fun x => fetched x.1 x.2 := by
  have hcost := s₀.workCost_le s₀.os.completions.length
  have hserved := served_in_time (fun _ => True) Server.completionBelt
    (fun x : Server × Event => fetched x.1 x.2) (I := fun _ => True) trivial
    (fun s _ e t _ _ hstep => ⟨trivial, ?_⟩) (fun s e t _ hstep => step_timely_completions hstep) h
    ?_
  · simpa [Belt.pending, Server.completionBelt] using hserved
  · simpa using step_balances_completions hstep
  · rw [Nat.zero_mul, Nat.add_zero]
    exact Nat.lt_of_le_of_lt hcost htime

/-- Two clients have sent a frame each: within twelve steps of the worker thread both completions
have been fetched. -/
theorem frames_fetched_in_time :
    ∃ s₀ s log, s₀.os.completions.map Completion.key = [0, 1] ∧
      Reach (historySystem wireConfig) (fun _ _ => True) (s₀, []) (s, log) ∧
        s₀.os.completions <+: log.flatMap fun x => fetched x.1 x.2 := by
  obtain ⟨s₀, -, hs₀⟩ := Reach.exists_of_run (step wireConfig) (wireServer 2)
    (.scanSlot :: acceptEvents 7 ++ [.scanSlot, .scanSlot] ++ acceptEvents 8 ++
      [.completeRecv 0 true [6, 0, 2, 0, 10, 0], .completeRecv 0 true [6, 0, 2, 0, 10, 0]])
    (fun s₀ : Server => (s₀.os.completions.map Completion.key, s₀.workThreads.length,
      (run (historySystem wireConfig) (s₀, [])
        ((serveEvents []).tail ++ (serveEvents []).tail ++ serveEvents [6, 0, 2, 0, 10, 0])).map
          fun x => x.2.countP fun y => y.2.isWork))
    (x := ([0, 1], 1, some 12)) (by decide +kernel)
  simp only [Prod.mk.injEq, Option.map_eq_some_iff] at hs₀
  obtain ⟨hkeys, hworkers, ⟨s, log⟩, hrun, hsteps⟩ := hs₀
  have hreach := Reach.of_run hrun
  have hlength : s₀.os.completions.length = 2 := by
    simpa using congrArg List.length hkeys
  have htime : 4 * s₀.os.completions.length + 3 * s₀.workThreads.length <
      log.countP fun x => x.2.isWork := by
    rw [hlength, hworkers]
    exact Nat.lt_of_lt_of_eq (by decide) hsteps.symm
  exact ⟨s₀, s, log, hkeys, hreach, completions_fetched_in_time wireConfig hreach htime⟩

end IocpDemo
