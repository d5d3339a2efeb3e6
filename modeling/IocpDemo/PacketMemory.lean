/-
**The memory of packets** (`Packet.cpp`, `IOCPServer.cpp`).

A packet is copied by value, and its copies share the block that `ReservePacket` has allocated.  The
block goes with the packet from the handler to a queue and from there to a sender thread.  `Destroy`
would give it back, but no function calls it, and `PacketBuffer` has no destructor: what a sender
thread is done with stays allocated.

The blocks are numbered in the order in which they are allocated.  Which block a queued packet has
is not part of the server's state; a log of what happens to packets tells it, and the packets of the
blocks that are queued or held are, in their order, those of the server.

Main definitions:

* `IocpDemo.HeapCall` — what `ReservePacket` and `Destroy` do to the set of live blocks;
* `IocpDemo.PacketHeap`, `IocpDemo.PacketMove` — the blocks and their ways;
* `IocpDemo.packetMoves` — what a step of the server does with packets;
* `IocpDemo.Handing` — the ways in which packets move in a step.

Main results:

* `IocpDemo.PacketHeap.Balanced.move` — a live block is in use or has been let go of;
* `IocpDemo.Handing.of_step` — every step moves packets in one of these ways;
* `IocpDemo.HeapMatches.step` — the blocks follow the packets of the server;
* `IocpDemo.memory_in_use_iff` — **the live blocks are those in use until a packet is let go of**.
-/

import IocpDemo.Conservation

set_option relaxedAutoImplicit false
set_option autoImplicit false

namespace IocpDemo

open Bytes Transition Wire

variable {cfg : Config} {s s' : Server} {e : Event}

/-! ### The heap -/

/-- The calls that allocate and free a packet's block. -/
inductive HeapCall
  | reservePacket (a : ℕ)
  | destroy (a : ℕ)

/-- What a call does to the set of live blocks. -/
def HeapCall.run (live : List ℕ) : HeapCall → List ℕ
  | .reservePacket a => live ++ [a]
  | .destroy a => live.erase a

/-- What happens to a packet. -/
inductive PacketMove
  /-- `SerializePacket` makes it, and its handler pushes it. -/
  | serialize (route : Route) (p : PacketBuffer)
  /-- `GetPending…` pops it; `keep` says that its size is positive. -/
  | take (route : Route) (keep : Bool)
  /-- The sender thread goes on to the next packet. -/
  | finish (route : Route)

/-- The packet that is pushed to the queue of a route. -/
def PacketMove.pushed (route : Route) : PacketMove → List PacketBuffer
  | .serialize r p => if r = route then [p] else []
  | .take _ _ | .finish _ => []

/-- A sender thread lets go of a packet: it is done with it, or takes it for an empty queue. -/
def PacketMove.letsGo : PacketMove → Bool
  | .serialize _ _ => false
  | .take _ keep => !keep
  | .finish _ => true

/-- The blocks: the live ones, those of the queued packets and of the packets that the sender
threads hold, with their packets, and those whose packets have been let go of. -/
structure PacketHeap where
  next : ℕ := 0
  live : List ℕ := []
  queued : Route → List (ℕ × PacketBuffer) := fun _ => []
  held : Route → List (ℕ × PacketBuffer) := fun _ => []
  released : List ℕ := []

namespace PacketHeap

variable {m : PacketHeap}

/-- The blocks of the packets that are queued or held. -/
def inUse (m : PacketHeap) : List ℕ :=
  (m.held .unicast ++ m.queued .unicast ++ (m.held .broadCast ++ m.queued .broadCast)).map Prod.fst

/-- The memory calls of a move.  No sender thread calls `Destroy`. -/
def heapCalls (m : PacketHeap) : PacketMove → List HeapCall
  | .serialize _ _ => [.reservePacket m.next]
  | .take _ _ | .finish _ => []

/-- How the blocks move with their packets. -/
def hand (m : PacketHeap) : PacketMove → PacketHeap
  | .serialize route p => { m with
      next := m.next + 1
      queued := Function.update m.queued route (m.queued route ++ [(m.next, p)]) }
  | .take route true => { m with
      queued := Function.update m.queued route (m.queued route).tail
      held := Function.update m.held route (m.held route ++ (m.queued route).take 1) }
  | .take route false => { m with
      queued := Function.update m.queued route (m.queued route).tail
      released := m.released ++ ((m.queued route).take 1).map Prod.fst }
  | .finish route => { m with
      held := Function.update m.held route []
      released := m.released ++ (m.held route).map Prod.fst }

/-- A move with its memory calls. -/
def move (m : PacketHeap) (mv : PacketMove) : PacketHeap :=
  { m.hand mv with live := (m.heapCalls mv).foldl HeapCall.run m.live }

/-- The blocks behind a list of moves. -/
def moves (m : PacketHeap) (mvs : List PacketMove) : PacketHeap := mvs.foldl move m

@[simp] theorem moves_nil : m.moves [] = m := rfl

theorem moves_cons (mv : PacketMove) (mvs : List PacketMove) :
    m.moves (mv :: mvs) = (m.move mv).moves mvs := rfl

theorem moves_append (mvs mvs' : List PacketMove) :
    m.moves (mvs ++ mvs') = (m.moves mvs).moves mvs' := List.foldl_append

/-! ### What a move keeps -/

/-- A live block is that of a packet in use or of one that has been let go of, and all blocks that
have been allocated are live. -/
structure Balanced (m : PacketHeap) : Prop where
  perm : m.live.Perm (m.inUse ++ m.released)
  live_eq : m.live = List.range m.next

theorem Balanced.init : Balanced {} := ⟨List.Perm.refl _, rfl⟩

/-- The first block of a queue and the others. -/
theorem count_take_tail (l : List (ℕ × PacketBuffer)) (a : ℕ) :
    ((l.take 1).map Prod.fst).count a + (l.tail.map Prod.fst).count a =
      (l.map Prod.fst).count a := by
  cases l with
  | nil => rfl
  | cons b l =>
      simp only [List.take_succ_cons, List.take_zero, List.tail_cons, List.map_cons, List.map_nil,
        List.count_cons, List.count_nil]
      omega

theorem Balanced.move (hm : Balanced m) (mv : PacketMove) : Balanced (m.move mv) := by
  obtain ⟨hperm, hlive⟩ := hm
  rw [List.perm_iff_count] at hperm
  constructor
  · rw [List.perm_iff_count]
    intro a
    have hcount := hperm a
    cases mv with
    | serialize route p =>
        cases route <;>
          simp only [PacketHeap.move, hand, heapCalls, inUse, HeapCall.run, List.foldl_cons,
            List.foldl_nil, List.map_append, List.map_cons, List.map_nil, List.count_append,
            Function.update_self, Function.update_of_ne, ne_eq, reduceCtorEq,
            not_false_eq_true] at hcount ⊢ <;> omega
    | take route keep =>
        have hfirst := count_take_tail (m.queued route) a
        cases keep <;> cases route <;>
          simp only [PacketHeap.move, hand, heapCalls, inUse, List.foldl_nil, List.map_append,
            List.count_append, Function.update_self, Function.update_of_ne, ne_eq, reduceCtorEq,
            not_false_eq_true] at hcount hfirst ⊢ <;> omega
    | finish route =>
        cases route <;>
          simp only [PacketHeap.move, hand, heapCalls, inUse, List.foldl_nil, List.map_append,
            List.map_nil, List.count_append, Function.update_self, Function.update_of_ne, ne_eq,
            reduceCtorEq, not_false_eq_true, List.count_nil] at hcount ⊢ <;> omega
  · cases mv with
    | serialize route p =>
        simp [PacketHeap.move, hand, heapCalls, HeapCall.run, hlive, List.range_succ]
    | take route keep => cases keep <;> simpa [PacketHeap.move, hand, heapCalls] using hlive
    | finish route => simpa [PacketHeap.move, hand, heapCalls] using hlive

theorem Balanced.moves (hm : Balanced m) (mvs : List PacketMove) : Balanced (m.moves mvs) := by
  induction mvs generalizing m with
  | nil => exact hm
  | cons mv mvs ih => exact ih (hm.move mv)

/-- The live blocks are those in use exactly as long as no packet has been let go of. -/
theorem Balanced.live_perm_iff (hm : Balanced m) : m.live.Perm m.inUse ↔ m.released = [] := by
  constructor
  · intro hperm
    have hlength := (hm.perm.symm.trans hperm).length_eq
    rw [List.length_append] at hlength
    exact List.eq_nil_of_length_eq_zero (by omega)
  · intro hnil
    have hperm := hm.perm
    rwa [hnil, List.append_nil] at hperm

/-- What is serialized is queued. -/
theorem moves_serialize {mvs : List PacketMove}
    (h : ∀ mv ∈ mvs, ∃ route p, mv = .serialize route p) :
    (∀ route, ((m.moves mvs).queued route).map Prod.snd =
        (m.queued route).map Prod.snd ++ mvs.flatMap (PacketMove.pushed route)) ∧
      (m.moves mvs).held = m.held ∧ (m.moves mvs).released = m.released := by
  induction mvs generalizing m with
  | nil => simp
  | cons mv mvs ih =>
      obtain ⟨route, p, rfl⟩ := h mv List.mem_cons_self
      obtain ⟨hqueued, hheld, hreleased⟩ :=
        ih (m := m.move (.serialize route p)) fun mv hmv => h mv (List.mem_cons_of_mem _ hmv)
      refine ⟨?_, hheld, hreleased⟩
      intro route'
      rw [moves_cons, hqueued, List.flatMap_cons]
      by_cases hroute : route = route'
      · subst hroute
        simp [PacketHeap.move, hand, PacketMove.pushed]
      · simp [PacketHeap.move, hand, Function.update_of_ne (Ne.symm hroute), hroute,
          PacketMove.pushed]

end PacketHeap

/-! ### The moves of the server -/

/-- The packet that `SendThread` has taken and is not done with. -/
def SendPc.packets : SendPc → List PacketBuffer
  | .holding p _ | .copying p _ | .sending p _ | .crashed p => [p]
  | .top | .popping | .stopped => []

/-- The packet that `SendBroadCastThread` has taken and is not done with. -/
def BroadCastPc.packets : BroadCastPc → List PacketBuffer
  | .looping p _ | .copying p _ | .sending p _ => [p]
  | .top | .popping | .stopped => []

/-- The packets that a handler makes. -/
def Traffic.moves (t : Traffic) : List PacketMove :=
  t.bcPushed.map (.serialize .broadCast) ++ t.unicastPushed.map (.serialize .unicast)

/-- What the sender threads do with the packets that they take. -/
def senderMoves (s : Server) : Event → List PacketMove
  | .popPacket =>
      s.que.ioSendPacketQue.head?.toList.map fun p => .take .unicast (0 < p.bufferSize)
  | .popBCPacket =>
      s.que.ioSendBCPacketQue.head?.toList.map fun p => .take .broadCast (0 < p.bufferSize)
  | .sendPacket =>
      match s.sendThread with
      | .holding p _ =>
          match s.contexts[p.packetIndex.toNat]? with
          | none => []
          | some c => if c.isConnected then [] else [.finish .unicast]
      | _ => []
  | .sendWsa _ => [.finish .unicast]
  | .bcTest =>
      match s.broadCastThread with
      | .looping _ i => if s.contexts.length ≤ i then [.finish .broadCast] else []
      | _ => []
  | _ => []

/-- What a step does with packets. -/
def packetMoves (cfg : Config) (s : Server) (e : Event) : List PacketMove :=
  (traffic cfg s e).flatMap Traffic.moves ++ senderMoves s e

/-- The server with a log of what happens to packets. -/
abbrev memorySystem (cfg : Config) : Server × List PacketMove → Event →
    Option (Server × List PacketMove) := logged (step cfg) (packetMoves cfg)

/-- The blocks behind a log. -/
def heapOf (log : List PacketMove) : PacketHeap := PacketHeap.moves {} log

/-- The two queues. -/
def Server.queueOf (s : Server) : Route → List PacketBuffer
  | .unicast => s.que.ioSendPacketQue
  | .broadCast => s.que.ioSendBCPacketQue

/-- The packets that the two sender threads hold. -/
def Server.heldOf (s : Server) : Route → List PacketBuffer
  | .unicast => s.sendThread.packets
  | .broadCast => s.broadCastThread.packets

/-- How the packets of the server move in a step, and with which moves. -/
inductive Handing (s s' : Server) : List PacketMove → Prop
  /-- Packets are pushed. -/
  | pushed (l : List Traffic)
      (hunicast : s'.queueOf .unicast = s.queueOf .unicast ++ l.flatMap Traffic.unicastPushed)
      (hbc : s'.queueOf .broadCast = s.queueOf .broadCast ++ l.flatMap Traffic.bcPushed)
      (hheld : ∀ r, s'.heldOf r = s.heldOf r) : Handing s s' (l.flatMap Traffic.moves)
  /-- A sender thread takes the first packet of its queue, and keeps it or not. -/
  | taken {route : Route} {p : PacketBuffer} {ps : List PacketBuffer} (keep : Bool)
      (hqueue : s.queueOf route = p :: ps) (hempty : s.heldOf route = [])
      (hqueue' : s'.queueOf route = ps) (hheld' : s'.heldOf route = if keep then [p] else [])
      (hother : ∀ r, r ≠ route → s'.queueOf r = s.queueOf r ∧ s'.heldOf r = s.heldOf r) :
      Handing s s' [.take route keep]
  /-- A sender thread is done with the packet that it holds. -/
  | finished {route : Route} {p : PacketBuffer} (hold : s.heldOf route = [p])
      (hdone : s'.heldOf route = []) (hqueue : ∀ r, s'.queueOf r = s.queueOf r)
      (hother : ∀ r, r ≠ route → s'.heldOf r = s.heldOf r) : Handing s s' [.finish route]

namespace Handing

/-- Nothing happens to packets. -/
theorem idle (hqueue : ∀ r, s'.queueOf r = s.queueOf r) (hheld : ∀ r, s'.heldOf r = s.heldOf r) :
    Handing s s' [] :=
  .pushed [] (by simp [hqueue]) (by simp [hqueue]) hheld

/-- A step in which the sender threads take no packet and are done with none. -/
theorem of_push (h : step cfg s e = some s') (hsender : senderMoves s e = [])
    (hpop : e ≠ .popPacket) (hpopBC : e ≠ .popBCPacket)
    (hsend : s'.sendThread.packets = s.sendThread.packets)
    (hbc : s'.broadCastThread.packets = s.broadCastThread.packets) :
    Handing s s' (packetMoves cfg s e) := by
  rw [packetMoves, hsender, List.append_nil]
  refine .pushed _ (step_ioSendPacketQue h hpop) (step_ioSendBCPacketQue h hpopBC) ?_
  intro r
  cases r with
  | unicast => exact hsend
  | broadCast => exact hbc

/-- Where no packet is pushed, the moves are those of the sender threads. -/
theorem packetMoves_of_sender (htraffic : (traffic cfg s e).flatMap Traffic.moves = []) :
    packetMoves cfg s e = senderMoves s e := by
  rw [packetMoves, htraffic, List.nil_append]

theorem popPacket (h : s.popPacket = some s') : Handing s s' (packetMoves cfg s .popPacket) := by
  obtain ⟨hpc, rfl⟩ := Server.popPacket_some h
  have hempty : s.heldOf .unicast = [] := by rw [Server.heldOf, hpc]; rfl
  rw [packetMoves_of_sender rfl]
  cases hq : s.que.ioSendPacketQue with
  | nil =>
      have hnone : senderMoves s .popPacket = [] := by simp [senderMoves, hq]
      rw [hnone]
      refine idle ?_ ?_
      · intro r
        cases r <;> simp [Server.queueOf, getPendingPacket, hq]
      · intro r
        cases r with
        | unicast => simp [Server.heldOf, getPendingPacket, hq, hpc, SendPc.packets]
        | broadCast => rfl
  | cons p ps =>
      have htake : senderMoves s .popPacket = [.take .unicast (decide (0 < p.bufferSize))] := by
        simp [senderMoves, hq]
      rw [htake]
      refine .taken _ hq hempty ?_ ?_ ?_
      · simp [Server.queueOf, getPendingPacket, hq]
      · by_cases hpos : 0 < p.bufferSize <;>
          simp [Server.heldOf, getPendingPacket, hq, hpos, SendPc.packets]
      · intro r hr
        cases r with
        | unicast => exact absurd rfl hr
        | broadCast => simp [Server.queueOf, Server.heldOf, getPendingPacket, hq]

theorem popBCPacket (h : s.popBCPacket = some s') :
    Handing s s' (packetMoves cfg s .popBCPacket) := by
  obtain ⟨hpc, rfl⟩ := Server.popBCPacket_some h
  have hempty : s.heldOf .broadCast = [] := by rw [Server.heldOf, hpc]; rfl
  have htraffic : (traffic cfg s .popBCPacket).flatMap Traffic.moves = [] := by
    simp only [traffic, queOp, queueTraffic, consumed, Option.toList_some, List.flatMap_cons,
      List.flatMap_nil, List.append_nil, List.nil_append]
    split <;> rfl
  rw [packetMoves_of_sender htraffic]
  cases hq : s.que.ioSendBCPacketQue with
  | nil =>
      have hnone : senderMoves s .popBCPacket = [] := by simp [senderMoves, hq]
      rw [hnone]
      refine idle ?_ ?_
      · intro r
        cases r <;> simp [Server.queueOf, getPendingBCPacket, hq]
      · intro r
        cases r with
        | unicast => rfl
        | broadCast => simp [Server.heldOf, getPendingBCPacket, hq, hpc, BroadCastPc.packets]
  | cons p ps =>
      have htake : senderMoves s .popBCPacket =
          [.take .broadCast (decide (0 < p.bufferSize))] := by
        simp [senderMoves, hq]
      rw [htake]
      refine .taken _ hq hempty ?_ ?_ ?_
      · simp [Server.queueOf, getPendingBCPacket, hq]
      · by_cases hpos : 0 < p.bufferSize <;>
          simp [Server.heldOf, getPendingBCPacket, hq, hpos, BroadCastPc.packets]
      · intro r hr
        cases r with
        | unicast => simp [Server.queueOf, Server.heldOf, getPendingBCPacket, hq]
        | broadCast => exact absurd rfl hr

/-- `SendThread` lets go of a packet whose client is not connected. -/
theorem sendPacket (h : s.sendPacket = some s') :
    Handing s s' (packetMoves cfg s .sendPacket) := by
  obtain ⟨p, conn, hpc, rfl⟩ := Server.sendPacket_some h
  have htraffic : (traffic cfg s .sendPacket).flatMap Traffic.moves = [] := by
    simp [traffic, queOp, consumed, hpc, Traffic.moves, Traffic.unicastPushed, Traffic.bcPushed]
  have hhold : s.heldOf .unicast = [p] := by rw [Server.heldOf, hpc]; rfl
  rw [packetMoves_of_sender htraffic]
  cases hctx : s.contexts[p.packetIndex.toNat]? with
  | none =>
      have hnone : senderMoves s .sendPacket = [] := by simp [senderMoves, hpc, hctx]
      rw [hnone]
      refine idle (fun r => by cases r <;> rfl) ?_
      intro r
      cases r with
      | unicast => simp [Server.heldOf, Server.sendNext, hctx, hpc, SendPc.packets]
      | broadCast => rfl
  | some c =>
      cases hconnected : c.isConnected with
      | true =>
          have hnone : senderMoves s .sendPacket = [] := by
            simp [senderMoves, hpc, hctx, hconnected]
          rw [hnone]
          refine idle (fun r => by cases r <;> rfl) ?_
          intro r
          cases r with
          | unicast => simp [Server.heldOf, Server.sendNext, hctx, hconnected, hpc, SendPc.packets]
          | broadCast => rfl
      | false =>
          have hdone : senderMoves s .sendPacket = [.finish .unicast] := by
            simp [senderMoves, hpc, hctx, hconnected]
          rw [hdone]
          refine .finished hhold ?_ (fun r => by cases r <;> rfl) ?_
          · simp [Server.heldOf, Server.sendNext, hctx, hconnected, SendPc.packets]
          · intro r hr
            cases r with
            | unicast => exact absurd rfl hr
            | broadCast => rfl

theorem sendWsa {r : Option ℕ} (h : s.sendWsa r = some s') :
    Handing s s' (packetMoves cfg s (.sendWsa r)) := by
  obtain ⟨p, conn, hpc, -, rfl⟩ := Server.sendWsa_some h
  have hhold : s.heldOf .unicast = [p] := by rw [Server.heldOf, hpc]; rfl
  refine .finished hhold rfl (fun r => by cases r <;> rfl) ?_
  intro r hr
  cases r with
  | unicast => exact absurd rfl hr
  | broadCast => rfl

/-- `SendBroadCastThread` lets go of a packet at the end of the table. -/
theorem bcTest (h : s.bcTest = some s') : Handing s s' (packetMoves cfg s .bcTest) := by
  obtain ⟨p, i, hpc, rfl⟩ := Server.bcTest_some h
  have hhold : s.heldOf .broadCast = [p] := by rw [Server.heldOf, hpc]; rfl
  rw [packetMoves_of_sender rfl]
  by_cases hi : s.contexts.length ≤ i
  · have hdone : senderMoves s .bcTest = [.finish .broadCast] := by simp [senderMoves, hpc, hi]
    rw [hdone]
    refine .finished hhold ?_ (fun r => by cases r <;> rfl) ?_
    · simp [Server.heldOf, Server.bcNext, List.getElem?_eq_none hi, BroadCastPc.packets]
    · intro r hr
      cases r with
      | unicast => rfl
      | broadCast => exact absurd rfl hr
  · have hnone : senderMoves s .bcTest = [] := by simp [senderMoves, hpc, hi]
    rw [hnone]
    refine idle (fun r => by cases r <;> rfl) ?_
    intro r
    cases r with
    | unicast => rfl
    | broadCast =>
        obtain ⟨c, hc⟩ := Server.exists_context (Nat.lt_of_not_le hi)
        simp only [Server.heldOf, Server.bcNext, hc, hpc]
        split <;> rfl

/-- **Every step moves packets in one of these ways.** -/
theorem of_step (h : step cfg s e = some s') : Handing s s' (packetMoves cfg s e) := by
  cases e with
  | popPacket => exact popPacket h
  | popBCPacket => exact popBCPacket h
  | sendPacket => exact sendPacket h
  | sendWsa r => exact sendWsa h
  | bcTest => exact bcTest h
  | sendTop =>
      refine of_push h rfl (by simp) (by simp) ?_ ?_
      · obtain ⟨hpc, rfl⟩ := Server.sendTop_some h
        rw [hpc]
        split <;> rfl
      · rw [(step_frame h).broadCastThread (by simp [Event.thread])]
  | sendCopy =>
      refine of_push h rfl (by simp) (by simp) ?_ ?_
      · obtain ⟨p, conn, hpc, rfl⟩ := Server.sendCopy_some h
        rw [hpc]
        rfl
      · rw [(step_frame h).broadCastThread (by simp [Event.thread])]
  | bcTop =>
      refine of_push h rfl (by simp) (by simp) ?_ ?_
      · rw [(step_frame h).sendThread (by simp [Event.thread])]
      · obtain ⟨hpc, rfl⟩ := Server.bcTop_some h
        rw [hpc]
        split <;> rfl
  | bcCopy =>
      refine of_push h rfl (by simp) (by simp) ?_ ?_
      · rw [(step_frame h).sendThread (by simp [Event.thread])]
      · obtain ⟨p, i, hpc, rfl⟩ := Server.bcCopy_some h
        rw [hpc]
        rfl
  | bcWsa r =>
      refine of_push h rfl (by simp) (by simp) ?_ ?_
      · rw [(step_frame h).sendThread (by simp [Event.thread])]
      · obtain ⟨p, i, hpc, -, rfl⟩ := Server.bcWsa_some h
        rw [hpc]
        simp only
        split <;> rfl
  | _ =>
      refine of_push h rfl (by simp) (by simp) ?_ ?_
      · rw [(step_frame h).sendThread (by simp [Event.thread])]
      · rw [(step_frame h).broadCastThread (by simp [Event.thread])]

end Handing

/-! ### The blocks follow their packets -/

/-- The packets of the blocks that are queued or held are those of the server, in their order. -/
structure HeapMatches (s : Server) (m : PacketHeap) : Prop where
  queued : ∀ route, (m.queued route).map Prod.snd = s.queueOf route
  held : ∀ route, (m.held route).map Prod.snd = s.heldOf route

variable {m : PacketHeap}

theorem mem_traffic_moves {l : List Traffic} {mv : PacketMove}
    (h : mv ∈ l.flatMap Traffic.moves) : ∃ route p, mv = .serialize route p := by
  obtain ⟨t, -, hmv⟩ := List.mem_flatMap.1 h
  rcases List.mem_append.1 hmv with hmv | hmv
  · obtain ⟨p, -, rfl⟩ := List.mem_map.1 hmv
    exact ⟨_, p, rfl⟩
  · obtain ⟨p, -, rfl⟩ := List.mem_map.1 hmv
    exact ⟨_, p, rfl⟩

theorem pushed_map_serialize (route route' : Route) (l : List PacketBuffer) :
    (l.map (PacketMove.serialize route')).flatMap (PacketMove.pushed route) =
      if route' = route then l else [] := by
  induction l with
  | nil => simp
  | cons p l ih =>
      rw [List.map_cons, List.flatMap_cons, ih, PacketMove.pushed]
      split <;> rfl

/-- A block is allocated for each packet that is pushed. -/
theorem pushed_traffic_moves (l : List Traffic) :
    (l.flatMap Traffic.moves).flatMap (PacketMove.pushed .unicast) =
        l.flatMap Traffic.unicastPushed ∧
      (l.flatMap Traffic.moves).flatMap (PacketMove.pushed .broadCast) =
        l.flatMap Traffic.bcPushed := by
  induction l with
  | nil => exact ⟨rfl, rfl⟩
  | cons t l ih =>
      obtain ⟨hunicast, hbc⟩ := ih
      simp [Traffic.moves, pushed_map_serialize, hunicast, hbc]

/-- What a step keeps of the blocks. -/
def HeapStep (s' : Server) (m : PacketHeap) (mvs : List PacketMove) : Prop :=
  HeapMatches s' (m.moves mvs) ∧
    ((m.moves mvs).released = [] ↔ m.released = [] ∧ ∀ mv ∈ mvs, mv.letsGo = false)

namespace HeapMatches

variable {route : Route} {p : PacketBuffer} {ps : List PacketBuffer}

/-- Packets are pushed. -/
theorem push (hm : HeapMatches s m) {l : List Traffic}
    (hunicast : s'.queueOf .unicast = s.queueOf .unicast ++ l.flatMap Traffic.unicastPushed)
    (hbc : s'.queueOf .broadCast = s.queueOf .broadCast ++ l.flatMap Traffic.bcPushed)
    (hheld : ∀ r, s'.heldOf r = s.heldOf r) : HeapStep s' m (l.flatMap Traffic.moves) := by
  have hall : ∀ mv ∈ l.flatMap Traffic.moves, ∃ route p, mv = .serialize route p :=
    fun mv hmv => mem_traffic_moves hmv
  obtain ⟨hqueued, hheap, hreleased⟩ := PacketHeap.moves_serialize (m := m) hall
  obtain ⟨hpushed, hpushedBC⟩ := pushed_traffic_moves l
  refine ⟨⟨?_, ?_⟩, ?_⟩
  · intro r
    cases r with
    | unicast => rw [hqueued, hpushed, hm.queued, hunicast]
    | broadCast => rw [hqueued, hpushedBC, hm.queued, hbc]
  · intro r
    rw [hheap, hheld]
    exact hm.held r
  · rw [hreleased]
    refine ⟨fun hnil => ⟨hnil, ?_⟩, And.left⟩
    intro mv hmv
    obtain ⟨route, p, rfl⟩ := hall mv hmv
    rfl

/-- A sender thread takes the first packet of its queue, and keeps it or not. -/
theorem take (hm : HeapMatches s m) (keep : Bool) (hqueue : s.queueOf route = p :: ps)
    (hempty : s.heldOf route = []) (hqueue' : s'.queueOf route = ps)
    (hheld' : s'.heldOf route = if keep then [p] else [])
    (hother : ∀ r, r ≠ route → s'.queueOf r = s.queueOf r ∧ s'.heldOf r = s.heldOf r) :
    HeapStep s' m [.take route keep] := by
  have hfirst := hm.queued route
  have hnone := hm.held route
  rw [hqueue] at hfirst
  rw [hempty, List.map_eq_nil_iff] at hnone
  obtain ⟨⟨a, q⟩, blocks, hblocks, rfl, hrest⟩ := List.map_eq_cons_iff.1 hfirst
  refine ⟨⟨?_, ?_⟩, ?_⟩
  · intro r
    by_cases hr : r = route
    · subst hr
      cases keep <;> simpa [PacketHeap.moves, PacketHeap.move, PacketHeap.hand, hblocks, hqueue']
        using hrest
    · have hqueued := hm.queued r
      rw [← (hother r hr).1] at hqueued
      cases keep <;> simpa [PacketHeap.moves, PacketHeap.move, PacketHeap.hand,
        Function.update_of_ne hr] using hqueued
  · intro r
    by_cases hr : r = route
    · subst hr
      cases keep <;> simp [PacketHeap.moves, PacketHeap.move, PacketHeap.hand, hblocks, hnone,
        hheld']
    · have hheld := hm.held r
      rw [← (hother r hr).2] at hheld
      cases keep <;> simpa [PacketHeap.moves, PacketHeap.move, PacketHeap.hand,
        Function.update_of_ne hr] using hheld
  · cases keep <;>
      simp [PacketHeap.moves, PacketHeap.move, PacketHeap.hand, hblocks, PacketMove.letsGo]

/-- A sender thread is done with the packet that it holds. -/
theorem finish (hm : HeapMatches s m) (hold : s.heldOf route = [p])
    (hdone : s'.heldOf route = []) (hqueue : ∀ r, s'.queueOf r = s.queueOf r)
    (hother : ∀ r, r ≠ route → s'.heldOf r = s.heldOf r) : HeapStep s' m [.finish route] := by
  have hone := hm.held route
  rw [hold] at hone
  refine ⟨⟨?_, ?_⟩, ?_⟩
  · intro r
    rw [hqueue]
    exact hm.queued r
  · intro r
    by_cases hr : r = route
    · subst hr
      simp [PacketHeap.moves, PacketHeap.move, PacketHeap.hand, hdone]
    · have hheld := hm.held r
      rw [← hother r hr] at hheld
      simpa [PacketHeap.moves, PacketHeap.move, PacketHeap.hand, Function.update_of_ne hr]
        using hheld
  · have hne : m.held route ≠ [] := by
      intro hnil
      simp [hnil] at hone
    simp [PacketHeap.moves, PacketHeap.move, PacketHeap.hand, PacketMove.letsGo, hne]

/-- **Every step takes the blocks along with their packets.** -/
theorem step (hm : HeapMatches s m) (h : IocpDemo.step cfg s e = some s') :
    HeapStep s' m (packetMoves cfg s e) := by
  have hhanding := Handing.of_step h
  generalize packetMoves cfg s e = mvs at hhanding ⊢
  cases hhanding with
  | pushed l hunicast hbc hheld => exact hm.push hunicast hbc hheld
  | taken keep hqueue hempty hqueue' hheld' hother =>
      exact hm.take keep hqueue hempty hqueue' hheld' hother
  | finished hold hdone hqueue hother => exact hm.finish hold hdone hqueue hother

end HeapMatches

/-! ### Live blocks -/

/-- **The live blocks are those in use until a packet is let go of.**  In every run of the server, a
live block is that of a packet that is queued or held by a sender thread, one for each of these, or
of a packet that a sender thread has let go of; and the live blocks are exactly those of the first
kind if and only if no sender thread has let go of a packet so far. -/
theorem memory_in_use_iff (cfg : Config) (mem : ℕ → Mem) (n workers : ℕ) {log : List PacketMove}
    (h : Reach (memorySystem cfg) (fun _ _ => True) (initServer mem n workers, []) (s, log)) :
    HeapMatches s (heapOf log) ∧
      (heapOf log).live.Perm ((heapOf log).inUse ++ (heapOf log).released) ∧
      (heapOf log).live.Nodup ∧
      ((heapOf log).live.Perm (heapOf log).inUse ↔ ∀ mv ∈ log, mv.letsGo = false) := by
  have hbalanced : (heapOf log).Balanced := PacketHeap.Balanced.init.moves log
  have hinv := h.logged_invariant (I := fun s log => HeapMatches s (heapOf log) ∧
    ((heapOf log).released = [] ↔ ∀ mv ∈ log, mv.letsGo = false)) ?_ ?_
  · refine ⟨hinv.1, hbalanced.perm, ?_, hbalanced.live_perm_iff.trans hinv.2⟩
    rw [hbalanced.live_eq]
    exact List.nodup_range
  · refine ⟨⟨?_, ?_⟩, by simp [heapOf]⟩
    · intro r
      cases r <;> rfl
    · intro r
      cases r <;> rfl
  · intro t log e u ht _ hstep
    obtain ⟨hmatches, hreleased⟩ := ht
    obtain ⟨hmatches', hreleased'⟩ := hmatches.step hstep
    have happend : heapOf (log ++ packetMoves cfg t e) =
        (heapOf log).moves (packetMoves cfg t e) := PacketHeap.moves_append _ _
    rw [happend]
    refine ⟨hmatches', ?_⟩
    rw [hreleased', hreleased, List.forall_mem_append]

/-- The connection packet of the first client, in the hands of `SendThread`. -/
theorem greeting_is_in_use :
    ∃ s log, Reach (memorySystem wireConfig) (fun _ _ => True) (wireServer 1, []) (s, log) ∧
      (heapOf log).live = [0] ∧ (heapOf log).live.Perm (heapOf log).inUse := by
  obtain ⟨⟨s, log⟩, hreach, hfacts⟩ := Reach.exists_of_runIf (memorySystem wireConfig)
    (fun _ _ => True) (wireServer 1, [])
    (.scanSlot :: acceptEvents 7 ++ [.sendTop, .popPacket, .sendPacket])
    (fun x => (x.2.any PacketMove.letsGo, (heapOf x.2).live)) (x := (false, [0]))
    (by decide +kernel)
  obtain ⟨hletsGo, hlive⟩ := Prod.mk.inj hfacts
  refine ⟨s, log, hreach, hlive, (memory_in_use_iff wireConfig _ 1 1 hreach).2.2.2.2 ?_⟩
  intro mv hmv
  exact Bool.eq_false_iff.2 (List.any_eq_false.1 hletsGo mv hmv)

/-- **The block of a packet that has been sent stays live.**  The connection packet of the first
client has been sent; no packet is queued or held. -/
theorem sent_packet_stays_live :
    ∃ s log, Reach (memorySystem wireConfig) (fun _ _ => True) (wireServer 1, []) (s, log) ∧
      s.queueOf .unicast = [] ∧ s.queueOf .broadCast = [] ∧ s.heldOf .unicast = [] ∧
      s.heldOf .broadCast = [] ∧ (heapOf log).inUse = [] ∧ (heapOf log).live = [0] := by
  obtain ⟨⟨s, log⟩, hreach, hfacts⟩ := Reach.exists_of_runIf (memorySystem wireConfig)
    (fun _ _ => True) (wireServer 1, [])
    (.scanSlot :: acceptEvents 7 ++ [.sendTop, .popPacket, .sendPacket, .sendCopy,
      .sendWsa (some 4)])
    (fun x => ((x.1.queueOf .unicast ++ x.1.queueOf .broadCast ++ x.1.heldOf .unicast ++
      x.1.heldOf .broadCast).length, (heapOf x.2).inUse, (heapOf x.2).live))
    (x := (0, [], [0])) (by decide +kernel)
  simp only [Prod.mk.injEq, List.length_eq_zero_iff, List.append_eq_nil_iff, and_assoc] at hfacts
  exact ⟨s, log, hreach, hfacts⟩

end IocpDemo
