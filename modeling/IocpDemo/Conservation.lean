/-
**No packet is lost between a handler and its send call** (`OnConnected`, the handlers,
`GetPendingPacket`, `GetPendingBCPacket`, the two sender threads).

Each queue has any number of producers, on the accept thread and on the worker threads, and one
consumer.  The consumer asks for the next packet and takes a packet of size zero for an empty queue;
so packets of size zero, if there are any, are dropped, and all others reach the send call in the
order in which they were pushed.

Main definitions:

* `IocpDemo.Traffic`, `IocpDemo.traffic` — what the handlers push, and what the sender threads give
  to `SendPacket` and to `SendPacketBroadCast`;
* `IocpDemo.Server.unicastBelt`, `IocpDemo.Server.bcBelt` — the two queues with their consumers.

Main results:

* `IocpDemo.step_balances_unicast`, `IocpDemo.step_balances_bc` — every step keeps the balance;
* `IocpDemo.queues_conserve_packets` — **conservation and order, for both queues and in every
  run**.
-/

import IocpDemo.Conveyor
import IocpDemo.Deliveries
import IocpDemo.QueuedPackets

set_option relaxedAutoImplicit false
set_option autoImplicit false

namespace IocpDemo

open Bytes Transition Conveyor Wire

variable {cfg : Config} {s s' : Server} {R : Runtime} {q : SendQue} {e : Event}

/-! ### The traffic over the queues -/

/-- What goes into the queues, by handler, and what the sender threads make of it. -/
inductive Traffic
  /-- `OnConnected` pushes a packet for the new client. -/
  | onConnected (p : PacketBuffer)
  /-- `RecvLoginPacket` pushes a packet for broadcast and the roster for the sender. -/
  | login (spawn : PacketBuffer) (roster : List PacketBuffer)
  /-- One of the other four handlers pushes a packet for broadcast. -/
  | relay (p : PacketBuffer)
  /-- `SendThread` calls `SendPacket`. -/
  | sendPacket (p : PacketBuffer)
  /-- `SendBroadCastThread` calls `SendPacketBroadCast`. -/
  | sendPacketBroadCast (p : PacketBuffer)

namespace Traffic

/-- What is pushed to `IOSendPacketQue`. -/
def unicastPushed : Traffic → List PacketBuffer
  | .onConnected p => [p]
  | .login _ roster => roster
  | .relay _ | .sendPacket _ | .sendPacketBroadCast _ => []

/-- What is pushed to `IOSendBCPacketQue`. -/
def bcPushed : Traffic → List PacketBuffer
  | .login spawn _ => [spawn]
  | .relay p => [p]
  | .onConnected _ | .sendPacket _ | .sendPacketBroadCast _ => []

/-- What is given to `SendPacket`. -/
def unicastGiven : Traffic → List PacketBuffer
  | .sendPacket p => [p]
  | .onConnected _ | .login _ _ | .relay _ | .sendPacketBroadCast _ => []

/-- What is given to `SendPacketBroadCast`. -/
def bcGiven : Traffic → List PacketBuffer
  | .sendPacketBroadCast p => [p]
  | .onConnected _ | .login _ _ | .relay _ | .sendPacket _ => []

end Traffic

/-- What a call under `SendQueLock` pushes. -/
def queueTraffic (R : Runtime) (q : SendQue) : QueOp → List Traffic
  | .onConnected index => [.onConnected (connPacket R.proto index)]
  | .deSerializePacket packetID data =>
      (findFunc packetID).toList.map fun f =>
        if f = .recvLoginPacket then
          .login (relayOf R data f).packet (loginPackets R data q.connectedPlayers)
        else .relay (relayOf R data f).packet
  | .getPendingPacket | .getPendingBCPacket => []

/-- What a sender thread calls its send function with.  `SendBroadCastThread` calls it in the
stretch of code in which it takes the packet. -/
def consumed (s : Server) : Event → List Traffic
  | .sendPacket =>
      match s.sendThread with
      | .holding p _ => [.sendPacket p]
      | _ => []
  | .popBCPacket =>
      if 0 < (getPendingBCPacket s.que).1.bufferSize then
        [.sendPacketBroadCast (getPendingBCPacket s.que).1]
      else []
  | _ => []

/-- The traffic of a step. -/
def traffic (cfg : Config) (s : Server) (e : Event) : List Traffic :=
  (queOp cfg s e).toList.flatMap (queueTraffic cfg.runtime s.que) ++ consumed s e

/-- The server with a log of its traffic. -/
abbrev trafficSystem (cfg : Config) : Server × List Traffic → Event →
    Option (Server × List Traffic) := logged (step cfg) (traffic cfg)

/-- `IOSendPacketQue` and the packet that `SendThread` has taken and not given to `SendPacket`. -/
def Server.unicastBelt (s : Server) : Belt PacketBuffer :=
  ⟨s.sendThread.waiting, s.que.ioSendPacketQue⟩

/-- `IOSendBCPacketQue`. -/
def Server.bcBelt (s : Server) : Belt PacketBuffer := ⟨[], s.que.ioSendBCPacketQue⟩

/-- A packet that is not taken for an empty queue. -/
abbrev PacketBuffer.Nonempty (p : PacketBuffer) : Prop := 0 < p.bufferSize

/-! ### What a call pushes -/

theorem queStep_unicast {op : QueOp} (hop : op ≠ .getPendingPacket) :
    (queStep R q op).ioSendPacketQue =
      q.ioSendPacketQue ++ (queueTraffic R q op).flatMap Traffic.unicastPushed := by
  cases op with
  | onConnected index => rfl
  | deSerializePacket packetID data =>
      have hque := (deSerializePacket_que R packetID data q).1
      rw [queStep, hque, queueTraffic]
      cases findFunc packetID with
      | none => simp
      | some f => by_cases hf : f = .recvLoginPacket <;> simp [hf, Traffic.unicastPushed]
  | getPendingPacket => exact absurd rfl hop
  | getPendingBCPacket => simp [queStep, queueTraffic]

theorem queStep_bc {op : QueOp} (hop : op ≠ .getPendingBCPacket) :
    (queStep R q op).ioSendBCPacketQue =
      q.ioSendBCPacketQue ++ (queueTraffic R q op).flatMap Traffic.bcPushed := by
  cases op with
  | onConnected index => simp [queStep, onConnected, queueTraffic, Traffic.bcPushed]
  | deSerializePacket packetID data =>
      have hque := deSerializePacket_ioSendBCPacketQue R packetID data q
      rw [queStep, hque, queueTraffic]
      cases findFunc packetID with
      | none => simp
      | some f => by_cases hf : f = .recvLoginPacket <;> simp [hf, Traffic.bcPushed]
  | getPendingPacket => simp [queStep, queueTraffic]
  | getPendingBCPacket => exact absurd rfl hop

/-- Calls give nothing to the send functions. -/
theorem queueTraffic_given (op : QueOp) :
    (queueTraffic R q op).flatMap Traffic.unicastGiven = [] ∧
      (queueTraffic R q op).flatMap Traffic.bcGiven = [] := by
  cases op with
  | deSerializePacket packetID data =>
      rw [queueTraffic]
      cases findFunc packetID with
      | none => simp
      | some f =>
          by_cases hf : f = .recvLoginPacket <;>
            simp [hf, Traffic.unicastGiven, Traffic.bcGiven]
  | _ => exact ⟨rfl, rfl⟩

/-- Only the sender threads take packets. -/
theorem pop_of_queOp {op : QueOp} (hop : queOp cfg s e = some op) :
    (op = .getPendingPacket → e = .popPacket) ∧ (op = .getPendingBCPacket → e = .popBCPacket) := by
  cases e with
  | greetClient =>
      cases hpc : s.acceptThread with
      | greeting i conn =>
          simp only [queOp, hpc, Option.map_eq_some_iff] at hop
          obtain ⟨ctx, -, rfl⟩ := hop
          exact ⟨by simp, by simp⟩
      | _ => simp [queOp, hpc] at hop
  | deSerialize w =>
      simp only [queOp] at hop
      split at hop
      · obtain ⟨ctx, -, hop⟩ := Option.bind_eq_some_iff.1 hop
        obtain ⟨d, -, rfl⟩ := Option.map_eq_some_iff.1 hop
        exact ⟨by simp, by simp⟩
      · cases hop
  | popPacket | popBCPacket =>
      obtain rfl := Option.some.inj hop
      exact ⟨by simp, by simp⟩
  | _ => cases hop

/-- What is given to the send functions is not pushed. -/
theorem consumed_pushed (s : Server) (e : Event) :
    (consumed s e).flatMap Traffic.unicastPushed = [] ∧
      (consumed s e).flatMap Traffic.bcPushed = [] := by
  cases e with
  | sendPacket | popBCPacket =>
      simp only [consumed]
      split <;> exact ⟨rfl, rfl⟩
  | _ => exact ⟨rfl, rfl⟩

/-- The calls under the lock give nothing. -/
theorem traffic_given (cfg : Config) (s : Server) (e : Event) :
    (traffic cfg s e).flatMap Traffic.unicastGiven =
        (consumed s e).flatMap Traffic.unicastGiven ∧
      (traffic cfg s e).flatMap Traffic.bcGiven = (consumed s e).flatMap Traffic.bcGiven := by
  cases hop : queOp cfg s e with
  | none => simp [traffic, hop]
  | some op =>
      obtain ⟨hunicast, hbc⟩ := queueTraffic_given (R := cfg.runtime) (q := s.que) op
      simp [traffic, hop, hunicast, hbc]

/-- Only in two steps a packet is given to a send function. -/
theorem traffic_unicastGiven (hsend : e ≠ .sendPacket) :
    (traffic cfg s e).flatMap Traffic.unicastGiven = [] := by
  rw [(traffic_given cfg s e).1]
  cases e with
  | sendPacket => exact absurd rfl hsend
  | popBCPacket =>
      simp only [consumed]
      split <;> rfl
  | _ => rfl

theorem traffic_bcGiven (hpop : e ≠ .popBCPacket) :
    (traffic cfg s e).flatMap Traffic.bcGiven = [] := by
  rw [(traffic_given cfg s e).2]
  cases e with
  | popBCPacket => exact absurd rfl hpop
  | sendPacket =>
      simp only [consumed]
      split <;> rfl
  | _ => rfl

/-- A step that takes nothing from `IOSendPacketQue` appends what is pushed. -/
theorem step_ioSendPacketQue (h : step cfg s e = some s') (hpop : e ≠ .popPacket) :
    s'.que.ioSendPacketQue =
      s.que.ioSendPacketQue ++ (traffic cfg s e).flatMap Traffic.unicastPushed := by
  rw [step_queOp h, traffic, List.flatMap_append, (consumed_pushed s e).1, List.append_nil]
  cases hop : queOp cfg s e with
  | none => simp
  | some op =>
      have hne : op ≠ .getPendingPacket := fun heq => hpop ((pop_of_queOp hop).1 heq)
      simp [queStep_unicast hne]

/-- A step that takes nothing from `IOSendBCPacketQue` appends what is pushed. -/
theorem step_ioSendBCPacketQue (h : step cfg s e = some s') (hpop : e ≠ .popBCPacket) :
    s'.que.ioSendBCPacketQue =
      s.que.ioSendBCPacketQue ++ (traffic cfg s e).flatMap Traffic.bcPushed := by
  rw [step_queOp h, traffic, List.flatMap_append, (consumed_pushed s e).2, List.append_nil]
  cases hop : queOp cfg s e with
  | none => simp
  | some op =>
      have hne : op ≠ .getPendingBCPacket := fun heq => hpop ((pop_of_queOp hop).2 heq)
      simp [queStep_bc hne]

/-! ### The balance of a step -/

/-- A step in which `SendThread` neither takes a packet nor gives one away. -/
theorem balances_unicast_of_waiting (h : step cfg s e = some s') (hpop : e ≠ .popPacket)
    (hsend : e ≠ .sendPacket) (hwait : s'.sendThread.waiting = s.sendThread.waiting) :
    Balances PacketBuffer.Nonempty s.unicastBelt ((traffic cfg s e).flatMap Traffic.unicastPushed)
      ((traffic cfg s e).flatMap Traffic.unicastGiven) s'.unicastBelt := by
  rw [Server.unicastBelt, Server.unicastBelt, hwait, step_ioSendPacketQue h hpop,
    traffic_unicastGiven hsend]
  exact balances_push _ _ _ _

/-- **Every step keeps the balance of `IOSendPacketQue`.** -/
theorem step_balances_unicast (h : step cfg s e = some s') :
    Balances PacketBuffer.Nonempty s.unicastBelt ((traffic cfg s e).flatMap Traffic.unicastPushed)
      ((traffic cfg s e).flatMap Traffic.unicastGiven) s'.unicastBelt := by
  cases e with
  | popPacket =>
      obtain ⟨hpc, rfl⟩ := Server.popPacket_some h
      have hbelt : s.unicastBelt = ⟨[], s.que.ioSendPacketQue⟩ := by
        rw [Server.unicastBelt, hpc]
        rfl
      cases hq : s.que.ioSendPacketQue with
      | nil =>
          rw [hbelt, hq]
          simp [Server.unicastBelt, getPendingPacket, hq, SendPc.waiting, traffic, queOp,
            queueTraffic, consumed, Balances.refl]
      | cons p ps =>
          rw [hbelt, hq]
          have hpop := balances_pop PacketBuffer.Nonempty p ps
          by_cases hp : p.Nonempty <;>
            simpa [Server.unicastBelt, getPendingPacket, hq, hp, SendPc.waiting, traffic, queOp,
              queueTraffic, consumed] using hpop
  | sendPacket =>
      obtain ⟨p, conn, hpc, rfl⟩ := Server.sendPacket_some h
      have hbelt : s.unicastBelt = ⟨[p], s.que.ioSendPacketQue⟩ := by
        rw [Server.unicastBelt, hpc]
        rfl
      have hgive := balances_give PacketBuffer.Nonempty [p] s.que.ioSendPacketQue
      rw [hbelt, Server.unicastBelt, SendPc.waiting_sendNext]
      simpa [hpc, traffic, queOp, consumed, Traffic.unicastPushed, Traffic.unicastGiven] using hgive
  | sendTop =>
      refine balances_unicast_of_waiting h (by simp) (by simp) ?_
      obtain ⟨hpc, rfl⟩ := Server.sendTop_some h
      rw [hpc]
      split <;> rfl
  | sendCopy =>
      refine balances_unicast_of_waiting h (by simp) (by simp) ?_
      obtain ⟨p, conn, hpc, rfl⟩ := Server.sendCopy_some h
      rw [hpc]
      rfl
  | sendWsa r =>
      refine balances_unicast_of_waiting h (by simp) (by simp) ?_
      obtain ⟨p, conn, hpc, -, rfl⟩ := Server.sendWsa_some h
      rw [hpc]
      rfl
  | _ =>
      exact balances_unicast_of_waiting h (by simp) (by simp)
        (by rw [(step_frame h).sendThread (by simp [Event.thread])])

/-- **Every step keeps the balance of `IOSendBCPacketQue`.** -/
theorem step_balances_bc (h : step cfg s e = some s') :
    Balances PacketBuffer.Nonempty s.bcBelt ((traffic cfg s e).flatMap Traffic.bcPushed)
      ((traffic cfg s e).flatMap Traffic.bcGiven) s'.bcBelt := by
  by_cases hpop : e = .popBCPacket
  · subst hpop
    obtain ⟨-, rfl⟩ := Server.popBCPacket_some h
    cases hq : s.que.ioSendBCPacketQue with
    | nil =>
        simp [Server.bcBelt, getPendingBCPacket, hq, traffic, queOp, queueTraffic, consumed,
          Balances.refl]
    | cons p ps =>
        -- the packet is taken and given on at once
        have htake := (balances_pop PacketBuffer.Nonempty p ps).trans
          (balances_give _ _ ps)
        by_cases hp : p.Nonempty <;>
          simpa [Server.bcBelt, getPendingBCPacket, hq, hp, traffic, queOp, queueTraffic, consumed,
            Traffic.bcPushed, Traffic.bcGiven] using htake
  · rw [Server.bcBelt, Server.bcBelt, step_ioSendBCPacketQue h hpop, traffic_bcGiven hpop]
    exact balances_push _ _ _ _

/-! ### Conservation -/

/-- A login's pushes are its announcement and its roster. -/
theorem login_of_traffic {spawn : PacketBuffer} {roster : List PacketBuffer}
    (h : .login spawn roster ∈ traffic cfg s e) : ∃ data,
      spawn = (relayOf cfg.runtime data .recvLoginPacket).packet ∧
        roster = loginPackets cfg.runtime data s.que.connectedPlayers := by
  rcases List.mem_append.1 h with hop | hconsumed
  · obtain ⟨op, -, hop⟩ := List.mem_flatMap.1 hop
    cases op with
    | deSerializePacket packetID data =>
        obtain ⟨f, -, hf⟩ := List.mem_map.1 hop
        split at hf
        · rename_i hlogin
          obtain ⟨rfl, rfl⟩ := Traffic.login.inj hf
          exact ⟨data, by rw [hlogin], rfl⟩
        · cases hf
    | onConnected index => simp [queueTraffic] at hop
    | getPendingPacket | getPendingBCPacket => cases hop
  · cases e with
    | sendPacket =>
        simp only [consumed] at hconsumed
        split at hconsumed <;> simp at hconsumed
    | popBCPacket =>
        simp only [consumed] at hconsumed
        split at hconsumed <;> simp at hconsumed
    | _ => cases hconsumed

/-- **Conservation and order.**  In every run of the server, for each of the two queues: the packets
that its consumer has given to its send function, followed by the one it has taken and not given
yet, followed by the queued ones that are not of size zero, are the packets that are not of size
zero which have been pushed, in the order in which they were pushed.  The roster packets of each
login that has been handled stand next to each other among those pushed to `IOSendPacketQue`. -/
theorem queues_conserve_packets (cfg : Config) (mem : ℕ → Mem) (n workers : ℕ) {log : List Traffic}
    (h : Reach (trafficSystem cfg) (fun _ _ => True) (initServer mem n workers, []) (s, log)) :
    log.flatMap Traffic.unicastGiven ++ s.sendThread.waiting ++
        s.que.ioSendPacketQue.filter PacketBuffer.Nonempty =
          (log.flatMap Traffic.unicastPushed).filter PacketBuffer.Nonempty ∧
      log.flatMap Traffic.bcGiven ++ s.que.ioSendBCPacketQue.filter PacketBuffer.Nonempty =
        (log.flatMap Traffic.bcPushed).filter PacketBuffer.Nonempty ∧
      ∀ spawn roster, .login spawn roster ∈ log →
        (∃ data players, roster = loginPackets cfg.runtime data players) ∧
          ∃ before after,
            log.flatMap Traffic.unicastPushed = before ++ roster ++ after := by
  refine ⟨?_, ?_, fun spawn roster hlogin => ⟨?_, block_of_mem hlogin⟩⟩
  · have hunicast := conserved_of_reach Server.unicastBelt rfl
      (fun _ _ _ hs => step_balances_unicast hs) h
    rw [List.append_assoc]
    exact hunicast
  · exact conserved_of_reach Server.bcBelt rfl (fun _ _ _ hs => step_balances_bc hs) h
  · refine h.logged_invariant (I := fun _ log => .login spawn roster ∈ log →
      ∃ data players, roster = loginPackets cfg.runtime data players) (by simp) ?_ hlogin
    intro t log e u hlog _ _ hmem
    rcases List.mem_append.1 hmem with hold | hnew
    · exact hlog hold
    · obtain ⟨data, -, hroster⟩ := login_of_traffic hnew
      exact ⟨data, _, hroster⟩

/-- Two clients log in: the first connection packet has been given to `SendPacket`, the second one
is in the hands of `SendThread`, and the roster packet is queued. -/
theorem two_logins_conserved :
    ∃ s log, Reach (trafficSystem wireConfig) (fun _ _ => True) (wireServer 2, []) (s, log) ∧
      ∃ p₀ p₁ p₂, log.flatMap Traffic.unicastGiven = [p₀] ∧ s.sendThread.waiting = [p₁] ∧
        s.que.ioSendPacketQue.filter PacketBuffer.Nonempty = [p₂] ∧
        (log.flatMap Traffic.unicastPushed).filter PacketBuffer.Nonempty = [p₀, p₁, p₂] ∧
        log.flatMap Traffic.bcGiven ++ s.que.ioSendBCPacketQue.filter PacketBuffer.Nonempty =
          (log.flatMap Traffic.bcPushed).filter PacketBuffer.Nonempty := by
  obtain ⟨⟨s, log⟩, hreach, hfacts⟩ := Reach.exists_of_runIf (trafficSystem wireConfig)
    (fun _ _ => True) (wireServer 2, [])
    (.scanSlot :: acceptEvents 7 ++ [.scanSlot, .scanSlot] ++ acceptEvents 8 ++
      serveEvents [6, 0, 2, 0, 10, 0] ++ serveEvents [8, 0, 2, 0, 10, 2, 8, 1] ++ sendEvents ++
      [.sendTop, .popPacket, .bcTop, .popBCPacket])
    (fun x => ((x.2.flatMap Traffic.unicastGiven).length, x.1.sendThread.waiting.length,
      (x.1.que.ioSendPacketQue.filter PacketBuffer.Nonempty).length))
    (x := (1, 1, 1)) (by decide +kernel)
  simp only [Prod.mk.injEq] at hfacts
  obtain ⟨hgiven, hwait, hque⟩ := hfacts
  obtain ⟨p₀, hgiven⟩ := List.length_eq_one_iff.1 hgiven
  obtain ⟨p₁, hwait⟩ := List.length_eq_one_iff.1 hwait
  obtain ⟨p₂, hque⟩ := List.length_eq_one_iff.1 hque
  obtain ⟨hunicast, hbc, -⟩ := queues_conserve_packets wireConfig (fun _ _ => 0) 2 1 hreach
  rw [hgiven, hwait, hque] at hunicast
  exact ⟨s, log, hreach, p₀, p₁, p₂, hgiven, hwait, hque, hunicast.symm, hbc⟩

end IocpDemo
