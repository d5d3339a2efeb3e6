/-
**Broadcasts reach the clients in one order** (`SendBroadCastThread`, `SendPacketBroadCast`).

All broadcasts pass through one queue and one thread, which takes the next packet when it has gone
round all slots with the last one.  Meanwhile clients come and go, and sends fail.  Whatever
happens, the sends that the thread is done with follow one schedule: for each broadcast in the order
of the queue, for each slot in increasing order.  A client that stays gets all of it.

Main definitions:

* `IocpDemo.BroadCastEvent`, `IocpDemo.broadCastEvents` — the packets that are queued for broadcast,
  and those that `SendBroadCastThread` is done with at a slot;
* `IocpDemo.roundFrom`, `IocpDemo.schedule` — the order in which the slots come for one packet, and
  for a list of them;
* `IocpDemo.OwedTo`, `IocpDemo.Server.owedBelt` — the packets that a slot is owed;
* `IocpDemo.BroadCastPc.Owed` — what the loop still owes to a slot.

Main results:

* `IocpDemo.broadcasts_follow_schedule` — **one order for all clients, in every run**;
* `IocpDemo.broadcasts_reach_connected` — **a slot that stays connected is sent every broadcast that
  is not empty and not its own, once and in the order in which they were queued**;
* `IocpDemo.clients_in_step` — **two clients that stay have been sent the same**, but for the packet
  with which the loop is between them.
-/

import IocpDemo.Conservation
import IocpDemo.Roster

set_option relaxedAutoImplicit false
set_option autoImplicit false

namespace IocpDemo

open Bytes Transition Conveyor Wire

variable {cfg : Config} {s s' : Server} {n a i : ℕ} {e : Event} {p : PacketBuffer}

/-! ### What happens to broadcasts -/

/-- What happens to a packet that is broadcast. -/
inductive BroadCastEvent
  /-- A handler queues the packet. -/
  | pushed (p : PacketBuffer)
  /-- `SendPendingPacket` has returned for the slot, and the loop goes on to the next slot. -/
  | settled (slot : ℕ) (p : PacketBuffer) (sent : Bool)

namespace BroadCastEvent

/-- A packet that is queued. -/
def push : BroadCastEvent → List PacketBuffer
  | .pushed p => [p]
  | .settled _ _ _ => []

/-- A slot that the loop is done with. -/
def settlement : BroadCastEvent → List (ℕ × PacketBuffer)
  | .settled i p _ => [(i, p)]
  | .pushed _ => []

/-- A packet with which the loop is done at the slot `a`. -/
def settledAt (a : ℕ) : BroadCastEvent → List PacketBuffer
  | .settled i p _ => if i = a then [p] else []
  | .pushed _ => []

end BroadCastEvent

/-- The slot that the loop is done with in a step: its send has succeeded, or is not repeated. -/
def settlements (s : Server) : Event → List BroadCastEvent
  | .bcWsa r =>
      match s.broadCastThread with
      | .sending p i =>
          if r = none ∧ p.bIsReliable = true then [] else [.settled i p r.isSome]
      | _ => []
  | _ => []

/-- What a step does to broadcasts. -/
def broadCastEvents (cfg : Config) (s : Server) (e : Event) : List BroadCastEvent :=
  ((traffic cfg s e).flatMap Traffic.bcPushed).map .pushed ++ settlements s e

/-- The server with this log. -/
abbrev broadCastSystem (cfg : Config) : Server × List BroadCastEvent → Event →
    Option (Server × List BroadCastEvent) := logged (step cfg) (broadCastEvents cfg)

theorem flatMap_push_map (l : List PacketBuffer) :
    (l.map BroadCastEvent.pushed).flatMap BroadCastEvent.push = l := by
  induction l with
  | nil => rfl
  | cons p l ih => exact congrArg (p :: ·) ih

theorem flatMap_settlement_map (l : List PacketBuffer) :
    (l.map BroadCastEvent.pushed).flatMap BroadCastEvent.settlement = [] := by
  induction l with
  | nil => rfl
  | cons p l ih => exact ih

theorem flatMap_settledAt_map (l : List PacketBuffer) :
    (l.map BroadCastEvent.pushed).flatMap (BroadCastEvent.settledAt a) = [] := by
  induction l with
  | nil => rfl
  | cons p l ih => exact ih

/-- A step that is done with a slot is done with the one whose send it was. -/
theorem mem_settlements {r : BroadCastEvent} (h : r ∈ settlements s e) : ∃ p i sent,
    e = .bcWsa sent ∧ s.broadCastThread = .sending p i ∧
      ¬ (sent = none ∧ p.bIsReliable = true) ∧ r = .settled i p sent.isSome := by
  cases e with
  | bcWsa sent =>
      cases hpc : s.broadCastThread with
      | sending p i =>
          simp only [settlements, hpc] at h
          split at h
          · cases h
          · rename_i hdone
            exact ⟨p, i, sent, rfl, rfl, hdone, List.mem_singleton.1 h⟩
      | _ => simp [settlements, hpc] at h
  | _ => cases h

theorem flatMap_push_settlements (s : Server) (e : Event) :
    (settlements s e).flatMap BroadCastEvent.push = [] := by
  refine List.flatMap_eq_nil_iff.2 fun r hr => ?_
  obtain ⟨p, i, sent, -, -, -, rfl⟩ := mem_settlements hr
  rfl

theorem flatMap_push_events (cfg : Config) (s : Server) (e : Event) :
    (broadCastEvents cfg s e).flatMap BroadCastEvent.push =
      (traffic cfg s e).flatMap Traffic.bcPushed := by
  rw [broadCastEvents, List.flatMap_append, flatMap_push_map, flatMap_push_settlements,
    List.append_nil]

theorem flatMap_settlement_events (cfg : Config) (s : Server) (e : Event) :
    (broadCastEvents cfg s e).flatMap BroadCastEvent.settlement =
      (settlements s e).flatMap BroadCastEvent.settlement := by
  rw [broadCastEvents, List.flatMap_append, flatMap_settlement_map, List.nil_append]

theorem flatMap_settledAt_events (cfg : Config) (s : Server) (e : Event) :
    (broadCastEvents cfg s e).flatMap (BroadCastEvent.settledAt a) =
      (settlements s e).flatMap (BroadCastEvent.settledAt a) := by
  rw [broadCastEvents, List.flatMap_append, flatMap_settledAt_map, List.nil_append]

/-! ### The schedule -/

/-- The slots from `i` on, in increasing order, for one packet. -/
def roundFrom (n i : ℕ) (p : PacketBuffer) : List (ℕ × PacketBuffer) :=
  (List.range' i (n - i)).map fun j => (j, p)

/-- For each packet of a list all slots, in increasing order. -/
def schedule (n : ℕ) (packets : List PacketBuffer) : List (ℕ × PacketBuffer) :=
  packets.flatMap (roundFrom n 0)

theorem roundFrom_of_lt (h : i < n) (p : PacketBuffer) :
    roundFrom n i p = (i, p) :: roundFrom n (i + 1) p := by
  obtain ⟨k, hk⟩ : ∃ k, n - i = k + 1 := ⟨n - i - 1, by omega⟩
  have hk' : n - (i + 1) = k := by omega
  rw [roundFrom, roundFrom, hk, hk', List.range'_succ, List.map_cons]

theorem schedule_cons (n : ℕ) (p : PacketBuffer) (packets : List PacketBuffer) :
    schedule n (p :: packets) = roundFrom n 0 p ++ schedule n packets := List.flatMap_cons

theorem schedule_append (n : ℕ) (packets packets' : List PacketBuffer) :
    schedule n (packets ++ packets') = schedule n packets ++ schedule n packets' :=
  List.flatMap_append

/-- The slots that `SendBroadCastThread` has still to go to with the packet it holds. -/
def BroadCastPc.remaining (n : ℕ) : BroadCastPc → List (ℕ × PacketBuffer)
  | .looping p i | .copying p i | .sending p i => roundFrom n i p
  | .top | .popping | .stopped => []

/-- What is left of the schedule. -/
def Server.remaining (n : ℕ) (s : Server) : List (ℕ × PacketBuffer) :=
  s.broadCastThread.remaining n ++ schedule n s.que.ioSendBCPacketQue

/-- The slots that the loop is done with in a step. -/
def settledSlots (s : Server) (e : Event) : List (ℕ × PacketBuffer) :=
  (settlements s e).flatMap BroadCastEvent.settlement

/-! ### The loop -/

/-- The packet is for the slot `a`: the loop takes it, and it is not addressed to the slot. -/
def OwedTo (a : ℕ) (p : PacketBuffer) : Prop := p.Nonempty ∧ p.packetIndex.toNat ≠ a

instance (a : ℕ) (p : PacketBuffer) : Decidable (OwedTo a p) :=
  inferInstanceAs (Decidable (_ ∧ _))

/-- The slot that `SendPendingPacket` is called on is one that the packet is for. -/
def BroadCastPc.Owed (n : ℕ) : BroadCastPc → Prop
  | .looping p _ => p.Nonempty
  | .copying p i | .sending p i => i < n ∧ OwedTo i p
  | .top | .popping | .stopped => True

/-- The test of the loop, on a slot of the table. -/
theorem isBroadCastTarget_iff (ht : SlotTable n s) (hn : n < 4294967296) {ctx : ClientContext}
    (hctx : s.contexts[i]? = some ctx) :
    Server.isBroadCastTarget p ctx = true ↔ s.Connected i ∧ p.packetIndex.toNat ≠ i := by
  have hi : i < n := ht.length ▸ Server.lt_of_context hctx
  have hindex : p.packetIndex.toUInt32 = ctx.getIndex ↔ p.packetIndex.toNat = i := by
    rw [← UInt32.toNat_inj, ht.getIndex_eq hctx, UInt16.toNat_toUInt32, UInt32.toNat_ofNat',
      Nat.mod_eq_of_lt (by omega)]
  rw [Server.isBroadCastTarget, Bool.and_eq_true, bne_iff_ne, ne_eq, hindex,
    Server.connected_iff_context hctx]

/-- What the test of the loop comes to. -/
theorem bcNext_owed (ht : SlotTable n s) (hn : n < 4294967296) (hp : p.Nonempty) (i : ℕ) :
    (Server.bcNext s.contexts p i).Owed n := by
  cases hctx : s.contexts[i]? with
  | none => simp [Server.bcNext, hctx, BroadCastPc.Owed]
  | some ctx =>
      cases htarget : Server.isBroadCastTarget p ctx with
      | true =>
          have hi : i < n := ht.length ▸ Server.lt_of_context hctx
          have howed := ((isBroadCastTarget_iff ht hn hctx).1 htarget).2
          simp only [Server.bcNext, hctx, htarget, if_true, BroadCastPc.Owed]
          exact ⟨hi, hp, howed⟩
      | false => simpa [Server.bcNext, hctx, htarget, BroadCastPc.Owed] using hp

theorem BroadCastPc.Owed.step (hs : s.broadCastThread.Owed n) (ht : SlotTable n s)
    (hn : n < 4294967296) (h : step cfg s e = some s') : s'.broadCastThread.Owed n := by
  rcases step_broadCastThread h with ⟨hsame, -⟩ | hmove
  · rw [hsame]
    exact hs
  · generalize s'.broadCastThread = pc at hmove ⊢
    cases hmove with
    | entered hpc => split <;> trivial
    | popped hpc hpos => exact hpos
    | empty hpc hzero => trivial
    | tested hpc =>
        rw [hpc] at hs
        exact bcNext_owed ht hn hs _
    | copied hpc =>
        rw [hpc] at hs
        exact hs
    | sent hpc =>
        rw [hpc] at hs
        split <;> exact hs.2.1

/-- What is known of the table and of the packet in the loop, in all reachable states. -/
theorem tableOwed_of_reach {P : Server → Event → Prop} {mem : ℕ → Mem} {workers : ℕ}
    (hn : n < 4294967296) (h : Reach (step cfg) P (initServer mem n workers) s) :
    SlotTable n s ∧ s.broadCastThread.Owed n := by
  refine h.invariant (I := fun s => SlotTable n s ∧ s.broadCastThread.Owed n)
    ⟨SlotTable.init mem n workers, trivial⟩ fun t e u ht _ hstep => ?_
  exact ⟨ht.1.step hstep, ht.2.step ht.1 hn hstep⟩

/-! ### One order for all clients -/

/-- A step that takes no packet: the queue grows by what is pushed. -/
theorem remaining_of_pc (h : step cfg s e = some s') (hpop : e ≠ .popBCPacket)
    (hpc : (settledSlots s e ++ s'.broadCastThread.remaining n).Sublist
      (s.broadCastThread.remaining n)) :
    (settledSlots s e ++ s'.remaining n).Sublist
      (s.remaining n ++ schedule n ((traffic cfg s e).flatMap Traffic.bcPushed)) := by
  rw [Server.remaining, Server.remaining, step_ioSendBCPacketQue h hpop, schedule_append,
    ← List.append_assoc, List.append_assoc (s.broadCastThread.remaining n)]
  exact hpc.append (List.Sublist.refl _)

/-- **What a step does to the rest of the schedule**: the loop is done with its next slot, goes past
it, or drops a packet, and what is queued comes last. -/
theorem step_remaining (h : step cfg s e = some s') (ht : SlotTable n s)
    (hs : s.broadCastThread.Owed n) :
    (settledSlots s e ++ s'.remaining n).Sublist
      (s.remaining n ++ schedule n ((traffic cfg s e).flatMap Traffic.bcPushed)) := by
  have hquiet : s'.broadCastThread.remaining n = s.broadCastThread.remaining n →
      settledSlots s e = [] → e ≠ .popBCPacket →
      (settledSlots s e ++ s'.remaining n).Sublist
        (s.remaining n ++ schedule n ((traffic cfg s e).flatMap Traffic.bcPushed)) := by
    intro hpc hsettled hpop
    refine remaining_of_pc h hpop ?_
    rw [hsettled, hpc, List.nil_append]
  cases e with
  | popBCPacket =>
      obtain ⟨hpc, rfl⟩ := Server.popBCPacket_some h
      simp only [Server.remaining, hpc, settledSlots, settlements]
      cases hq : s.que.ioSendBCPacketQue with
      | nil => simp [getPendingBCPacket, hq, BroadCastPc.remaining]
      | cons p ps =>
          by_cases hp : p.Nonempty <;>
            simp [getPendingBCPacket, hq, hp, BroadCastPc.remaining, schedule_cons]
  | bcTop =>
      obtain ⟨hpc, rfl⟩ := Server.bcTop_some h
      refine hquiet ?_ rfl (by simp)
      rw [hpc]
      split <;> rfl
  | bcTest =>
      obtain ⟨p, i, hpc, hs'⟩ := Server.bcTest_some h
      refine remaining_of_pc h (by simp) ?_
      rw [hs', hpc]
      cases hctx : s.contexts[i]? with
      | none => simp [Server.bcNext, hctx, BroadCastPc.remaining, settledSlots, settlements]
      | some ctx =>
          have hi : i < n := ht.length ▸ Server.lt_of_context hctx
          cases htarget : Server.isBroadCastTarget p ctx with
          | true => simp [Server.bcNext, hctx, htarget, BroadCastPc.remaining, settledSlots,
              settlements]
          | false => simp [Server.bcNext, hctx, htarget, BroadCastPc.remaining, settledSlots,
              settlements, roundFrom_of_lt hi]
  | bcCopy =>
      obtain ⟨p, i, hpc, rfl⟩ := Server.bcCopy_some h
      exact hquiet (by rw [hpc]; rfl) rfl (by simp)
  | bcWsa r =>
      obtain ⟨p, i, hpc, -, hs'⟩ := Server.bcWsa_some h
      refine remaining_of_pc h (by simp) ?_
      rw [hpc] at hs
      rw [hs', hpc]
      by_cases hagain : r = none ∧ p.bIsReliable = true
      · simp [settledSlots, settlements, hpc, hagain, BroadCastPc.remaining]
      · simp only [settledSlots, settlements, hpc, if_neg hagain, BroadCastPc.remaining]
        rw [roundFrom_of_lt hs.1]
        exact List.Sublist.refl _
  | _ =>
      refine hquiet ?_ rfl (by simp)
      rw [(step_frame h).broadCastThread (by simp [Event.thread])]

/-- What the loop is done with at one slot is taken from what it is done with at all slots. -/
theorem flatMap_settledAt (a : ℕ) (log : List BroadCastEvent) :
    log.flatMap (BroadCastEvent.settledAt a) =
      ((log.flatMap BroadCastEvent.settlement).filter fun x => x.1 = a).map Prod.snd := by
  induction log with
  | nil => rfl
  | cons r log ih =>
      rw [List.flatMap_cons, List.flatMap_cons, List.filter_append, List.map_append, ih]
      cases r with
      | pushed p => rfl
      | settled i p sent =>
          by_cases hi : i = a <;> simp [BroadCastEvent.settledAt, BroadCastEvent.settlement, hi]

/-- Each packet comes to a slot once in its round. -/
theorem roundFrom_filter_sublist (n a : ℕ) (p : PacketBuffer) :
    (((roundFrom n 0 p).filter fun x => x.1 = a).map Prod.snd).Sublist [p] := by
  have hslots : (roundFrom n 0 p).filter (fun x => x.1 = a) =
      ((List.range' 0 n).filter (· = a)).map fun j => (j, p) := by
    rw [roundFrom, List.filter_map]
    rfl
  have hcount : ((List.range' 0 n).filter (· = a)).length ≤ 1 := by
    rw [← List.countP_eq_length_filter]
    exact List.nodup_iff_count.1 List.nodup_range' a
  rw [hslots, List.map_map]
  generalize (List.range' 0 n).filter (· = a) = slots at hcount
  match slots, hcount with
  | [], _ => simp
  | [j], _ => simp

theorem schedule_filter_sublist (n a : ℕ) (packets : List PacketBuffer) :
    (((schedule n packets).filter fun x => x.1 = a).map Prod.snd).Sublist packets := by
  induction packets with
  | nil => exact List.Sublist.refl _
  | cons p packets ih =>
      rw [schedule_cons, List.filter_append, List.map_append]
      exact (roundFrom_filter_sublist n a p).append ih

/-- A slot that the loop is done with is one that the packet is for. -/
theorem owed_of_settled (hs : s.broadCastThread.Owed n) {x : ℕ × PacketBuffer}
    (hx : x ∈ settledSlots s e) : OwedTo x.1 x.2 := by
  obtain ⟨r, hr, hx⟩ := List.mem_flatMap.1 hx
  obtain ⟨p, i, sent, -, hpc, -, rfl⟩ := mem_settlements hr
  rw [hpc] at hs
  obtain rfl := List.mem_singleton.1 hx
  exact hs.2

/-- What holds of the log in every run. -/
structure OnSchedule (n : ℕ) (s : Server) (log : List BroadCastEvent) : Prop where
  table : SlotTable n s
  owed : s.broadCastThread.Owed n
  settled : ∀ x ∈ log.flatMap BroadCastEvent.settlement, OwedTo x.1 x.2
  order : (log.flatMap BroadCastEvent.settlement ++ s.remaining n).Sublist
    (schedule n (log.flatMap BroadCastEvent.push))

theorem OnSchedule.init (mem : ℕ → Mem) (n workers : ℕ) :
    OnSchedule n (initServer mem n workers) [] where
  table := SlotTable.init mem n workers
  owed := trivial
  settled := by simp
  order := List.Sublist.refl _

theorem OnSchedule.step {log : List BroadCastEvent} (hs : OnSchedule n s log)
    (hn : n < 4294967296) (h : IocpDemo.step cfg s e = some s') :
    OnSchedule n s' (log ++ broadCastEvents cfg s e) where
  table := hs.table.step h
  owed := hs.owed.step hs.table hn h
  settled x hx := by
    rw [List.flatMap_append, flatMap_settlement_events] at hx
    rcases List.mem_append.1 hx with hold | hnew
    · exact hs.settled x hold
    · exact owed_of_settled hs.owed hnew
  order := by
    rw [List.flatMap_append, List.flatMap_append, flatMap_push_events, flatMap_settlement_events,
      schedule_append, List.append_assoc]
    have hnext := step_remaining h hs.table hs.owed
    have hlog := hs.order.append
      (List.Sublist.refl (schedule n ((traffic cfg s e).flatMap Traffic.bcPushed)))
    rw [List.append_assoc] at hlog
    exact (List.Sublist.append (List.Sublist.refl _) hnext).trans hlog

/-- **One order for all clients.**  In every run of the server, whoever comes and goes and whatever
the sends return: the slots for which `SendBroadCastThread` has finished sending follow the schedule
of the broadcasts queued, packet by packet and slot by slot, so that no packet is finished twice at
a slot; and the packets finished at any one slot are packets for it, in the order of the queue. -/
theorem broadcasts_follow_schedule (cfg : Config) (mem : ℕ → Mem) (workers : ℕ)
    (hn : n < 4294967296) {log : List BroadCastEvent}
    (h : Reach (broadCastSystem cfg) (fun _ _ => True) (initServer mem n workers, []) (s, log)) :
    (log.flatMap BroadCastEvent.settlement).Sublist
        (schedule n (log.flatMap BroadCastEvent.push)) ∧
      ∀ a, (log.flatMap (BroadCastEvent.settledAt a)).Sublist
        ((log.flatMap BroadCastEvent.push).filter (OwedTo a)) := by
  have hs : OnSchedule n s log :=
    h.logged_invariant (I := OnSchedule n) (OnSchedule.init mem n workers)
      fun _ _ _ _ hi _ hstep => hi.step hn hstep
  have horder : (log.flatMap BroadCastEvent.settlement).Sublist
      (schedule n (log.flatMap BroadCastEvent.push)) :=
    (List.sublist_append_left _ _).trans hs.order
  refine ⟨horder, fun a => ?_⟩
  have hslot : (log.flatMap (BroadCastEvent.settledAt a)).Sublist
      (log.flatMap BroadCastEvent.push) := by
    rw [flatMap_settledAt]
    exact ((horder.filter _).map _).trans (schedule_filter_sublist n a _)
  have hkept : (log.flatMap (BroadCastEvent.settledAt a)).filter (OwedTo a) =
      log.flatMap (BroadCastEvent.settledAt a) := by
    refine List.filter_eq_self.2 fun p hp => ?_
    rw [flatMap_settledAt] at hp
    obtain ⟨x, hx, rfl⟩ := List.mem_map.1 hp
    obtain ⟨hx, ha⟩ := List.mem_filter.1 hx
    have hx' := hs.settled x hx
    rw [of_decide_eq_true ha] at hx'
    exact decide_eq_true hx'
  rw [← hkept]
  exact hslot.filter _

/-- A packet is brought to the second of two slots: the first send fails, the next one does not. -/
def broadCastRoundEvents : List Event :=
  [.bcTop, .popBCPacket, .bcTest, .bcTest, .bcCopy, .bcWsa none, .bcTest, .bcCopy, .bcWsa (some 2),
    .bcTest]

/-- The login of the first client is brought to the slot of the second one. -/
def loginRoundEvents : List Event := serveEvents [6, 0, 2, 0, 10, 0] ++ broadCastRoundEvents

/-- Two clients log in, and each is sent the login of the other one. -/
theorem two_logins_on_schedule :
    ∃ s log, Reach (broadCastSystem wireConfig) (fun _ _ => True) (wireServer 2, []) (s, log) ∧
      (log.flatMap BroadCastEvent.settlement).map Prod.fst = [1, 0] ∧
      (log.flatMap BroadCastEvent.settlement).Sublist
        (schedule 2 (log.flatMap BroadCastEvent.push)) := by
  obtain ⟨⟨s, log⟩, hreach, hslots⟩ := Reach.exists_of_runIf (broadCastSystem wireConfig)
    (fun _ _ => True) (wireServer 2, [])
    (.scanSlot :: acceptEvents 7 ++ [.scanSlot, .scanSlot] ++ acceptEvents 8 ++ loginRoundEvents ++
      serveEvents [8, 0, 2, 0, 10, 2, 8, 1] ++
      [.bcTop, .popBCPacket, .bcTest, .bcCopy, .bcWsa (some 2)])
    (fun x => (x.2.flatMap BroadCastEvent.settlement).map Prod.fst) (x := [1, 0])
    (by decide +kernel)
  exact ⟨s, log, hreach, hslots,
    (broadcasts_follow_schedule wireConfig (fun _ _ => 0) 1 (by decide) hreach).1⟩

/-! ### A slot that stays connected -/

/-- The packet that `SendBroadCastThread` holds, unless it is done with it at the slot `a`. -/
def BroadCastPc.owing (a : ℕ) : BroadCastPc → List PacketBuffer
  | .looping p i | .copying p i | .sending p i => if i ≤ a then [p] else []
  | .top | .popping | .stopped => []

/-- The packets that may still be sent to the slot `a`: the one in the loop, and the queue. -/
def Server.owedBelt (a : ℕ) (s : Server) : Belt PacketBuffer :=
  ⟨(s.broadCastThread.owing a).filter (OwedTo a), s.que.ioSendBCPacketQue⟩

/-- The packets that the slot `a` is owed. -/
def Server.owed (a : ℕ) (s : Server) : List PacketBuffer := (s.owedBelt a).pending (OwedTo a)

/-- A step that takes no packet and is done with none at the slot `a`. -/
theorem balances_owed_of_pc (h : step cfg s e = some s') (hpop : e ≠ .popBCPacket)
    (hsettled : (settlements s e).flatMap (BroadCastEvent.settledAt a) = [])
    (hpc : (s'.broadCastThread.owing a).filter (OwedTo a) =
      (s.broadCastThread.owing a).filter (OwedTo a)) :
    Balances (OwedTo a) (s.owedBelt a) ((traffic cfg s e).flatMap Traffic.bcPushed)
      ((settlements s e).flatMap (BroadCastEvent.settledAt a)) (s'.owedBelt a) := by
  rw [Server.owedBelt, Server.owedBelt, hpc, step_ioSendBCPacketQue h hpop, hsettled]
  exact balances_push _ _ _ _

/-- Going on to the next slot changes nothing for the slot `a`, unless it was its turn. -/
theorem owing_next (hi : i ≠ a) :
    (BroadCastPc.looping p (i + 1)).owing a = (BroadCastPc.looping p i).owing a := by
  simp only [BroadCastPc.owing]
  exact if_congr (by omega) rfl rfl

/-- The test of the loop lets no packet pass that the connected slot `a` is owed. -/
theorem owing_bcNext (ht : SlotTable n s) (hn : n < 4294967296) (ha : s.Connected a) :
    ((Server.bcNext s.contexts p i).owing a).filter (OwedTo a) =
      ((BroadCastPc.looping p i).owing a).filter (OwedTo a) := by
  cases hctx : s.contexts[i]? with
  | none =>
      -- the loop is behind all slots
      have hlt := ha.lt ht
      have hle := List.getElem?_eq_none_iff.1 hctx
      have hia : ¬ i ≤ a := by rw [ht.length] at hle; omega
      simp [Server.bcNext, hctx, BroadCastPc.owing, hia]
  | some ctx =>
      cases htarget : Server.isBroadCastTarget p ctx with
      | true => simp [Server.bcNext, hctx, htarget, BroadCastPc.owing]
      | false =>
          have hnext : Server.bcNext s.contexts p i = .looping p (i + 1) := by
            simp [Server.bcNext, hctx, htarget]
          rw [hnext]
          by_cases hia : i = a
          · -- the packet is addressed to the slot
            subst hia
            have hself : ¬ OwedTo i p := by
              rintro ⟨-, hne⟩
              have := (isBroadCastTarget_iff ht hn hctx).2 ⟨ha, hne⟩
              rw [htarget] at this
              cases this
            simp [BroadCastPc.owing, hself]
          · rw [owing_next hia]

/-- `SendBroadCastThread` takes the first packet of its queue, and begins its round. -/
theorem popBCPacket_balances_owed (h : s.popBCPacket = some s') :
    Balances (OwedTo a) (s.owedBelt a) ((traffic cfg s .popBCPacket).flatMap Traffic.bcPushed)
      ((settlements s .popBCPacket).flatMap (BroadCastEvent.settledAt a)) (s'.owedBelt a) := by
  obtain ⟨hpc, hs'⟩ := Server.popBCPacket_some h
  have hbelt : s.owedBelt a = ⟨[], s.que.ioSendBCPacketQue⟩ := by
    rw [Server.owedBelt, hpc]
    rfl
  have hnone : (traffic cfg s .popBCPacket).flatMap Traffic.bcPushed = [] := by
    simp only [traffic, queOp, Option.toList_some, List.flatMap_singleton, queueTraffic,
      List.nil_append]
    exact (consumed_pushed s .popBCPacket).2
  rw [hbelt, hnone]
  cases hq : s.que.ioSendBCPacketQue with
  | nil =>
      have hbelt' : s'.owedBelt a = ⟨[], []⟩ := by
        simp [hs', Server.owedBelt, getPendingBCPacket, hq, BroadCastPc.owing]
      rw [hbelt']
      exact Balances.refl _
  | cons p ps =>
      have hbelt' : s'.owedBelt a = ⟨if OwedTo a p then [p] else [], ps⟩ := by
        by_cases hp : p.Nonempty
        · by_cases howed : OwedTo a p <;>
            simp [hs', Server.owedBelt, getPendingBCPacket, hq, hp, howed, BroadCastPc.owing]
        · have howed : ¬ OwedTo a p := fun howed => hp howed.1
          simp [hs', Server.owedBelt, getPendingBCPacket, hq, hp, howed, BroadCastPc.owing]
      rw [hbelt']
      exact balances_pop _ p ps

/-- **Every step keeps the balance of a connected slot**: what it was owed, with what is queued in
the step, is what the loop finishes sending to it, with what it is owed behind the step. -/
theorem step_balances_owed (h : step cfg s e = some s') (ht : SlotTable n s)
    (hn : n < 4294967296) (hs : s.broadCastThread.Owed n) (ha : s.Connected a) :
    Balances (OwedTo a) (s.owedBelt a) ((traffic cfg s e).flatMap Traffic.bcPushed)
      ((settlements s e).flatMap (BroadCastEvent.settledAt a)) (s'.owedBelt a) := by
  cases e with
  | popBCPacket => exact popBCPacket_balances_owed h
  | bcTop =>
      refine balances_owed_of_pc h (by simp) rfl ?_
      obtain ⟨hpc, rfl⟩ := Server.bcTop_some h
      rw [hpc]
      split <;> rfl
  | bcTest =>
      refine balances_owed_of_pc h (by simp) rfl ?_
      obtain ⟨p, i, hpc, rfl⟩ := Server.bcTest_some h
      rw [hpc]
      exact owing_bcNext ht hn ha
  | bcCopy =>
      refine balances_owed_of_pc h (by simp) rfl ?_
      obtain ⟨p, i, hpc, rfl⟩ := Server.bcCopy_some h
      rw [hpc]
      rfl
  | bcWsa r =>
      obtain ⟨p, i, hpc, -, hs'⟩ := Server.bcWsa_some h
      rw [hpc] at hs
      by_cases hagain : r = none ∧ p.bIsReliable = true
      · refine balances_owed_of_pc h (by simp) ?_ ?_
        · simp [settlements, hpc, hagain]
        · rw [hs', hpc, if_pos hagain]
          rfl
      · by_cases hia : i = a
        · -- the slot's turn is over: the packet it was owed is finished
          subst hia
          have howed : OwedTo i p := hs.2
          have hbelt : s.owedBelt i = ⟨[p], s.que.ioSendBCPacketQue⟩ := by
            simp [Server.owedBelt, hpc, BroadCastPc.owing, howed]
          have hbelt' : s'.owedBelt i = ⟨[], s.que.ioSendBCPacketQue⟩ := by
            have hgone : (BroadCastPc.looping p (i + 1)).owing i = [] := if_neg (by omega)
            rw [hs', if_neg hagain, Server.owedBelt, hgone]
            rfl
          have hsettled :
              (settlements s (.bcWsa r)).flatMap (BroadCastEvent.settledAt i) = [p] := by
            simp [settlements, hpc, hagain, BroadCastEvent.settledAt]
          rw [hbelt, hbelt', hsettled]
          exact balances_give _ [p] _
        · refine balances_owed_of_pc h (by simp) ?_ ?_
          · simp [settlements, hpc, hagain, BroadCastEvent.settledAt, hia]
          · rw [hs', hpc, if_neg hagain, owing_next hia]
            rfl
  | _ =>
      refine balances_owed_of_pc h (by simp) rfl ?_
      rw [(step_frame h).broadCastThread (by simp [Event.thread])]

/-- The balance of a run in which the connected slot `a` is not freed. -/
theorem balances_owed_of_reach {P : Server × List BroadCastEvent → Event → Prop} {mem : ℕ → Mem}
    {workers : ℕ} (hn : n < 4294967296) {s₀ : Server}
    (h₀ : Reach (step cfg) (fun _ _ => True) (initServer mem n workers) s₀) (ha : s₀.Connected a)
    (hP : ∀ x e, P x e → ¬ Forgets x.1 e a) {log : List BroadCastEvent}
    (h : Reach (broadCastSystem cfg) P (s₀, []) (s, log)) :
    Balances (OwedTo a) (s₀.owedBelt a) (log.flatMap BroadCastEvent.push)
      (log.flatMap (BroadCastEvent.settledAt a)) (s.owedBelt a) := by
  have hbalance : _ ∧ Balances (OwedTo a) (s₀.owedBelt a) (log.flatMap BroadCastEvent.push)
      (log.flatMap (BroadCastEvent.settledAt a)) (s.owedBelt a) :=
    balances_of_reach (Server.owedBelt a)
      (I := fun s => (SlotTable n s ∧ s.broadCastThread.Owed n) ∧ s.Connected a)
      ⟨tableOwed_of_reach hn h₀, ha⟩ (fun t log e u hI hkept hstep => ?_) h
  · exact hbalance.2
  · obtain ⟨⟨ht, hs⟩, ha⟩ := hI
    refine ⟨⟨⟨ht.step hstep, hs.step ht hn hstep⟩, ha.step hstep (hP _ _ hkept)⟩, ?_⟩
    rw [flatMap_push_events, flatMap_settledAt_events]
    exact step_balances_owed hstep ht hn hs ha

/-- **Every broadcast reaches the clients that stay.**  From any reachable state on in which the
slot `a` is connected, and as long as it is not freed, whatever the other threads do and whatever
the sends return: the packets for which `SendBroadCastThread` has finished sending to the slot,
followed by those that the slot is still owed, are those it was owed at first, followed by the
packets queued since that have a size and are not addressed to it; a packet of size 0 is taken from
the queue and dropped.  So it is sent each of them once and in order; and a reliable packet is
finished by a successful send only. -/
theorem broadcasts_reach_connected (cfg : Config) (mem : ℕ → Mem) (workers : ℕ)
    (hn : n < 4294967296) {s₀ : Server}
    (h₀ : Reach (step cfg) (fun _ _ => True) (initServer mem n workers) s₀) (ha : s₀.Connected a)
    {log : List BroadCastEvent}
    (h : Reach (broadCastSystem cfg) (fun x e => ¬ Forgets x.1 e a) (s₀, []) (s, log)) :
    log.flatMap (BroadCastEvent.settledAt a) ++ s.owed a =
        s₀.owed a ++ (log.flatMap BroadCastEvent.push).filter (OwedTo a) ∧
      ∀ i p sent, .settled i p sent ∈ log → p.bIsReliable = true → sent = true := by
  refine ⟨(balances_owed_of_reach hn h₀ ha (fun _ _ hkept => hkept) h).symm, ?_⟩
  intro i p sent hmem hreliable
  refine h.logged_invariant (I := fun _ log => .settled i p sent ∈ log → sent = true)
    (by simp) ?_ hmem
  intro t log e u hlog _ _ hmem
  rcases List.mem_append.1 hmem with hold | hnew
  · exact hlog hold
  · rcases List.mem_append.1 hnew with hpush | hsettled
    · simp at hpush
    · obtain ⟨q, j, r, -, -, hdone, heq⟩ := mem_settlements hsettled
      obtain ⟨-, rfl, rfl⟩ := BroadCastEvent.settled.inj heq
      cases r with
      | none => exact absurd ⟨rfl, hreliable⟩ hdone
      | some k => rfl

/-- A client that is connected when another one logs in is sent the login once. -/
theorem login_reaches_connected :
    ∃ s₀ s log, s₀.Connected 1 ∧
      Reach (broadCastSystem wireConfig) (fun x e => ¬ Forgets x.1 e 1) (s₀, []) (s, log) ∧
      s₀.owed 1 = [] ∧ (log.flatMap (BroadCastEvent.settledAt 1)).length = 1 ∧
      log.flatMap (BroadCastEvent.settledAt 1) =
        (log.flatMap BroadCastEvent.push).filter (OwedTo 1) := by
  obtain ⟨s₀, h₀, hs₀⟩ := Reach.exists_of_run (step wireConfig) (wireServer 2)
    (.scanSlot :: acceptEvents 7 ++ [.scanSlot, .scanSlot] ++ acceptEvents 8)
    (fun s₀ => (decide (s₀.Connected 1), (s₀.owed 1).length,
      (runIf (broadCastSystem wireConfig) (fun x e => decide (forgottenSlot x.1 e ≠ some 1))
        (s₀, []) loginRoundEvents).map
          fun x => ((x.1.owed 1).length, (x.2.flatMap (BroadCastEvent.settledAt 1)).length)))
    (x := (true, 0, some (0, 1))) (by decide +kernel)
  simp only [Prod.mk.injEq, decide_eq_true_eq, List.length_eq_zero_iff, Option.map_eq_some_iff]
    at hs₀
  obtain ⟨hconn, howed₀, ⟨s, log⟩, hrun, howed, hsettled⟩ := hs₀
  have hreach : Reach (broadCastSystem wireConfig) (fun x e => ¬ Forgets x.1 e 1) (s₀, [])
      (s, log) := by
    refine Reach.of_runIf (fun x e he hf => ?_) hrun
    exact of_decide_eq_true he (forgottenSlot_of_forgets hf)
  have hbalance := (broadcasts_reach_connected wireConfig (fun _ _ => 0) 1 (by decide) h₀ hconn
    hreach).1
  rw [howed, howed₀, List.append_nil, List.nil_append] at hbalance
  exact ⟨s₀, s, log, hconn, hreach, howed₀, hsettled, hbalance⟩

/-! ### Two clients -/

/-- The list is empty, or it holds the packet of the loop, which has come past the slot `a` and
still goes to the slot `b`. -/
def BroadCastPc.Between (a b : ℕ) (pc : BroadCastPc) (l : List PacketBuffer) : Prop :=
  l.Sublist (pc.owing b) ∧ (l ≠ [] → pc.owing a = [])

namespace BroadCastPc.Between

variable {b : ℕ} {pc : BroadCastPc} {l : List PacketBuffer}

theorem length_le (h : pc.Between a b l) : l.length ≤ 1 := by
  refine Nat.le_trans h.1.length_le ?_
  cases pc with
  | looping p i | copying p i | sending p i =>
      simp only [BroadCastPc.owing]
      split <;> simp
  | top | popping | stopped => exact Nat.zero_le _

theorem eq_nil (h : pc.Between a b l) (hpc : pc.owing b = []) : l = [] :=
  List.sublist_nil.1 (hpc ▸ h.1)

theorem filter (h : pc.Between a b l) (f : PacketBuffer → Bool) : pc.Between a b (l.filter f) := by
  refine ⟨List.filter_sublist.trans h.1, fun hne => h.2 ?_⟩
  rintro rfl
  exact hne rfl

end BroadCastPc.Between

/-- What the loop owes to two slots differs by its packet at most: it comes to the first one first.
-/
theorem exists_owing_append {b : ℕ} (hab : a < b) (pc : BroadCastPc) :
    ∃ l, pc.Between a b l ∧ pc.owing b = l ++ pc.owing a := by
  cases pc with
  | looping p i | copying p i | sending p i =>
      by_cases hia : i ≤ a
      · have hib : i ≤ b := by omega
        exact ⟨[], ⟨List.nil_sublist _, by simp⟩, by simp [BroadCastPc.owing, hia, hib]⟩
      · by_cases hib : i ≤ b
        · exact ⟨[p], by simp [BroadCastPc.Between, BroadCastPc.owing, hia, hib],
            by simp [BroadCastPc.owing, hia, hib]⟩
        · exact ⟨[], ⟨List.nil_sublist _, by simp⟩, by simp [BroadCastPc.owing, hia, hib]⟩
  | top | popping | stopped => exact ⟨[], ⟨List.nil_sublist _, by simp⟩, rfl⟩

/-- What two slots are both sent, read off the balance of one of them. -/
theorem settledAt_filter_eq {b : ℕ} {log : List BroadCastEvent} {s₀ : Server}
    (h : Balances (OwedTo a) (s₀.owedBelt a) (log.flatMap BroadCastEvent.push)
      (log.flatMap (BroadCastEvent.settledAt a)) (s.owedBelt a)) :
    (log.flatMap (BroadCastEvent.settledAt a)).filter (OwedTo b) ++
        (((s.broadCastThread.owing a ++ s.que.ioSendBCPacketQue).filter (OwedTo a)).filter
          (OwedTo b)) =
      ((s₀.broadCastThread.owing a ++ s₀.que.ioSendBCPacketQue ++
        log.flatMap BroadCastEvent.push).filter (OwedTo a)).filter (OwedTo b) := by
  have hfiltered := congrArg (List.filter (OwedTo b)) h.symm
  simpa [Belt.pending, Server.owedBelt, List.filter_append] using hfiltered

/-- **The clients are in step.**  From any reachable state on in which the slots `a < b` are
connected, and as long as neither is freed: of the packets that are for both, those that have been
sent to the one and those that have been sent to the other are the same, in the same order, but for
one packet at the beginning and one at the end.  The one at the beginning is what the loop held at
first and had already taken past `a`, but not past `b`; the one at the end is what the loop holds
now, has taken past `a`, and has still to send to `b`. -/
theorem clients_in_step (cfg : Config) (mem : ℕ → Mem) (workers : ℕ) (hn : n < 4294967296)
    {s₀ : Server} {b : ℕ}
    (h₀ : Reach (step cfg) (fun _ _ => True) (initServer mem n workers) s₀) (hab : a < b)
    (ha : s₀.Connected a) (hb : s₀.Connected b) {log : List BroadCastEvent}
    (h : Reach (broadCastSystem cfg) (fun x e => ¬ Forgets x.1 e a ∧ ¬ Forgets x.1 e b) (s₀, [])
      (s, log)) :
    ∃ first last, first.length ≤ 1 ∧ last.length ≤ 1 ∧
      s₀.broadCastThread.Between a b first ∧ s.broadCastThread.Between a b last ∧
      first ++ (log.flatMap (BroadCastEvent.settledAt a)).filter (OwedTo b) =
        (log.flatMap (BroadCastEvent.settledAt b)).filter (OwedTo a) ++ last := by
  have hsentA := settledAt_filter_eq (b := b)
    (balances_owed_of_reach hn h₀ ha (fun _ _ hkept => hkept.1) h)
  have hsentB := settledAt_filter_eq (b := a)
    (balances_owed_of_reach hn h₀ hb (fun _ _ hkept => hkept.2) h)
  obtain ⟨first, hfirst, howing₀⟩ := exists_owing_append hab s₀.broadCastThread
  obtain ⟨last, hlast, howing⟩ := exists_owing_append hab s.broadCastThread
  have hcomm : ∀ l : List PacketBuffer, (l.filter (OwedTo b)).filter (OwedTo a) =
      (l.filter (OwedTo a)).filter (OwedTo b) := fun _ => List.filter_comm _ _ _
  have hfirst' := (hfirst.filter (OwedTo a)).filter (OwedTo b)
  have hlast' := (hlast.filter (OwedTo a)).filter (OwedTo b)
  refine ⟨_, _, hfirst'.length_le, hlast'.length_le, hfirst', hlast', ?_⟩
  rw [howing₀, howing, hcomm, hcomm] at hsentB
  simp only [List.append_assoc, List.filter_append] at hsentA hsentB
  rw [← hsentA] at hsentB
  simp only [← List.append_assoc] at hsentB
  exact (List.append_cancel_right (List.append_cancel_right hsentB)).symm

/-- The login of the third client has been sent to the first one: the loop holds it for the second
one. -/
theorem second_client_is_next :
    ∃ s₀ s log, Reach (broadCastSystem wireConfig)
        (fun x e => ¬ Forgets x.1 e 0 ∧ ¬ Forgets x.1 e 1) (s₀, []) (s, log) ∧
      ((log.flatMap (BroadCastEvent.settledAt 0)).filter (OwedTo 1)).length = 1 ∧
      (log.flatMap (BroadCastEvent.settledAt 1)).filter (OwedTo 0) = [] ∧
      s.broadCastThread.owing 1 ≠ [] := by
  obtain ⟨s₀, h₀, hs₀⟩ := Reach.exists_of_run (step wireConfig) (wireServer 3)
    (.scanSlot :: acceptEvents 7 ++ [.scanSlot, .scanSlot] ++ acceptEvents 8 ++
      [.scanSlot, .scanSlot, .scanSlot] ++ acceptEvents 9)
    (fun s₀ => (decide (s₀.Connected 0), decide (s₀.Connected 1),
      (s₀.broadCastThread.owing 1).length,
      (runIf (broadCastSystem wireConfig)
        (fun x e => decide (forgottenSlot x.1 e ≠ some 0 ∧ forgottenSlot x.1 e ≠ some 1)) (s₀, [])
        (serveEvents [8, 0, 2, 0, 10, 2, 8, 2] ++
          [.bcTop, .popBCPacket, .bcTest, .bcCopy, .bcWsa (some 2)])).map
          fun x => (((x.2.flatMap (BroadCastEvent.settledAt 0)).filter (OwedTo 1)).length,
            ((x.2.flatMap (BroadCastEvent.settledAt 1)).filter (OwedTo 0)).length)))
    (x := (true, true, 0, some (1, 0))) (by decide +kernel)
  simp only [Prod.mk.injEq, decide_eq_true_eq, Option.map_eq_some_iff, List.length_eq_zero_iff]
    at hs₀
  obtain ⟨hconn, hconn', howing₀, ⟨s, log⟩, hrun, hone, hnone⟩ := hs₀
  have hreach : Reach (broadCastSystem wireConfig)
      (fun x e => ¬ Forgets x.1 e 0 ∧ ¬ Forgets x.1 e 1) (s₀, []) (s, log) := by
    refine Reach.of_runIf (fun x e he => ?_) hrun
    obtain ⟨he, he'⟩ := of_decide_eq_true he
    exact ⟨fun hf => he (forgottenSlot_of_forgets hf), fun hf => he' (forgottenSlot_of_forgets hf)⟩
  refine ⟨s₀, s, log, hreach, hone, hnone, fun howing => ?_⟩
  obtain ⟨first, last, -, -, hfirst, hlast, hsame⟩ :=
    clients_in_step wireConfig (fun _ _ => 0) 1 (by decide) h₀ (by decide) hconn hconn' hreach
  -- otherwise both would have been sent the same
  rw [hfirst.eq_nil howing₀, hlast.eq_nil howing, hnone] at hsame
  rw [List.nil_append, List.append_nil] at hsame
  rw [hsame] at hone
  cases hone

end IocpDemo
