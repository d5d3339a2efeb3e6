/-
**The calls that hold `SendQueLock`, statement by statement** (`IOCPServer.cpp`).

The handlers, `OnConnected` and the two `GetPending…` functions begin with
`lock_guard<mutex> Guard(SendQueLock)`.  `SendLoginedPlayerPackets` takes no lock of its own; it is
called by `RecvLoginPacket`, which holds it.  Here each function is the list of its statements on
the roster and the two queues, and the threads are interleaved between any two of them.

Main definitions:

* `IocpDemo.recvLoginCode`, `IocpDemo.recvRelayCode`, `IocpDemo.getPendingCode` — the statements;
* `IocpDemo.queCode` — those of each call;
* `IocpDemo.callTraffic` — what calls push, one behind the other.

Main results:

* `IocpDemo.queCode_run` — the statements of a call do what the call does as a whole;
* `IocpDemo.queues_conserve_under_lock` — **conservation and order between statements**.
-/

import IocpDemo.Conservation
import IocpDemo.CriticalSection

set_option relaxedAutoImplicit false
set_option autoImplicit false

namespace IocpDemo

open Bytes Transition Conveyor CriticalSection

variable {R : Runtime} {q : SendQue}

/-! ### The statements -/

/-- A call on the queues; those that take a packet return it. -/
abbrev QueCode := Code SendQue (Option PacketBuffer)

/-- `IOSendPacketQue.push_back`. -/
def pushPacket (p : PacketBuffer) (next : QueCode) : QueCode :=
  .stmt (fun q => { q with ioSendPacketQue := q.ioSendPacketQue ++ [p] }) fun _ => next

/-- `IOSendBCPacketQue.push_back`. -/
def pushBCPacket (p : PacketBuffer) (next : QueCode) : QueCode :=
  .stmt (fun q => { q with ioSendBCPacketQue := q.ioSendBCPacketQue ++ [p] }) fun _ => next

/-- The loop of `SendLoginedPlayerPackets`: it goes over the players, and skips the target. -/
def sendPlayersCode (P : Protobuf) (target : Int32) : Roster → QueCode
  | [] => .ret none
  | player :: players =>
      if player.1 = target then sendPlayersCode P target players
      else pushPacket (rosterPacket P target player) (sendPlayersCode P target players)

/-- `SendLoginedPlayerPackets`. -/
def sendLoginedPlayersCode (R : Runtime) (target : Int32) : QueCode :=
  .stmt id fun q => sendPlayersCode R.proto target (R.iteration q.connectedPlayers)

/-- `RecvLoginPacket`: `find`, `emplace` if the player is new, one packet for broadcast, and one for
each other player. -/
def recvLoginCode (R : Runtime) (data : List UInt8) : QueCode :=
  let login := (R.proto.movement.parseFromArray data).1
  let key := (idIndex login).toInt32
  let loginBuffer := serializePacket R.proto.movement
    (serializeArg (R.argOrder .recvLoginPacket) login) EPacketType.loginC.toUInt8
    (idIndex (mutableId login)).toUInt16
  let announce := pushBCPacket { loginBuffer with bIsReliable := true }
    (sendLoginedPlayersCode R (idIndex login).toInt32)
  .stmt id fun q =>
    if (q.connectedPlayers.lookup key).isSome then announce
    else .stmt (fun q =>
      { q with connectedPlayers := q.connectedPlayers ++ [(key, loginInfo login)] }) fun _ =>
        announce

/-- The other handlers. -/
def recvRelayCode {M : Type} [HasId M] (c : Codec M) (o : ArgOrder) (pType : EPacketType)
    (reliable : Bool) (data : List UInt8) : QueCode :=
  let m := (c.parseFromArray data).1
  let buffer := serializePacket c (serializeArg o m) pType.toUInt8 (idIndex (mutableId m)).toUInt16
  pushBCPacket { buffer with bIsReliable := reliable } (.ret none)

/-- The handler that is called. -/
def recvCode (R : Runtime) (data : List UInt8) : RecvFunc → QueCode
  | .recvLoginPacket => recvLoginCode R data
  | .recvFireEventPacket =>
      recvRelayCode R.proto.fireEvent (R.argOrder .recvFireEventPacket) .fireEventC false data
  | .recvMovementPacket =>
      recvRelayCode R.proto.movement (R.argOrder .recvMovementPacket) .movementC false data
  | .recvAnimPacket =>
      recvRelayCode R.proto.animState (R.argOrder .recvAnimPacket) .animStateC false data
  | .recvWeaponPacket =>
      recvRelayCode R.proto.weapon (R.argOrder .recvWeaponPacket) .weaponStateC true data

/-- `GetPendingPacket` and `GetPendingBCPacket`: `empty`, `front` and `pop_front` of their queue. -/
def getPendingCode (queue : SendQue → List PacketBuffer)
    (popFront : SendQue → SendQue) : QueCode :=
  .stmt id fun q =>
    if (queue q).isEmpty then .ret (some {})
    else .stmt id fun q => .stmt popFront fun _ => .ret (some ((queue q).head?.getD {}))

/-- The statements of a call. -/
def queCode (R : Runtime) : QueOp → QueCode
  | .onConnected index => pushPacket (connPacket R.proto index) (.ret none)
  | .deSerializePacket packetID data =>
      match findFunc packetID with
      | some f => recvCode R data f
      | none => .ret none
  | .getPendingPacket => getPendingCode SendQue.ioSendPacketQue fun q =>
      { q with ioSendPacketQue := q.ioSendPacketQue.tail }
  | .getPendingBCPacket => getPendingCode SendQue.ioSendBCPacketQue fun q =>
      { q with ioSendBCPacketQue := q.ioSendBCPacketQue.tail }

/-- What a call returns. -/
def queResult (q : SendQue) : QueOp → Option PacketBuffer
  | .getPendingPacket => some (getPendingPacket q).1
  | .getPendingBCPacket => some (getPendingBCPacket q).1
  | .onConnected _ | .deSerializePacket _ _ => none

/-! ### Whole calls -/

theorem sendPlayersCode_run (P : Protobuf) (target : Int32) (players : Roster) (q : SendQue) :
    (sendPlayersCode P target players).run q =
      ({ q with ioSendPacketQue := q.ioSendPacketQue ++
          (players.filter fun player => player.1 ≠ target).map (rosterPacket P target) },
        none) := by
  induction players generalizing q with
  | nil => simp [sendPlayersCode, Code.run]
  | cons player players ih =>
      by_cases htarget : player.1 = target
      · simp [sendPlayersCode, htarget, ih]
      · simp [sendPlayersCode, htarget, pushPacket, Code.run, ih]

theorem sendLoginedPlayersCode_run (R : Runtime) (target : Int32) (q : SendQue) :
    (sendLoginedPlayersCode R target).run q = (sendLoginedPlayerPackets R target q, none) :=
  sendPlayersCode_run R.proto target _ q

theorem recvLoginCode_run (R : Runtime) (data : List UInt8) (q : SendQue) :
    (recvLoginCode R data).run q = (recvLoginPacket R data q, none) := by
  simp only [recvLoginCode, Code.run, id]
  cases hfound : q.connectedPlayers.lookup
      (idIndex (R.proto.movement.parseFromArray data).1).toInt32 <;>
    simp [pushBCPacket, Code.run, sendLoginedPlayersCode_run, recvLoginPacket, emplaceLogin, hfound]

theorem recvCode_run (R : Runtime) (data : List UInt8) (f : RecvFunc) (q : SendQue) :
    (recvCode R data f).run q = (callFunc R f data q, none) := by
  cases f with
  | recvLoginPacket => exact recvLoginCode_run R data q
  | recvFireEventPacket => rfl
  | recvMovementPacket => rfl
  | recvAnimPacket => rfl
  | recvWeaponPacket => rfl

/-- **The statements of a call do what the call does.** -/
theorem queCode_run (R : Runtime) (op : QueOp) (q : SendQue) :
    (queCode R op).run q = (queStep R q op, queResult q op) := by
  cases op with
  | onConnected index => rfl
  | deSerializePacket packetID data =>
      cases hf : findFunc packetID with
      | none => simp [queCode, hf, Code.run, queStep, deSerializePacket, queResult]
      | some f => simp [queCode, hf, recvCode_run, queStep, deSerializePacket, queResult]
  | getPendingPacket =>
      cases hq : q.ioSendPacketQue <;>
        simp [queCode, getPendingCode, Code.run, queStep, queResult, getPendingPacket, hq]
  | getPendingBCPacket =>
      cases hq : q.ioSendBCPacketQue <;>
        simp [queCode, getPendingCode, Code.run, queStep, queResult, getPendingBCPacket, hq]

/-! ### Conservation between statements -/

/-- The queue of a route. -/
def SendQue.queue (q : SendQue) : Route → List PacketBuffer
  | .unicast => q.ioSendPacketQue
  | .broadCast => q.ioSendBCPacketQue

/-- What is pushed to the queue of a route. -/
def Traffic.pushed (route : Route) (t : Traffic) : List PacketBuffer :=
  match route with
  | .unicast => t.unicastPushed
  | .broadCast => t.bcPushed

/-- What a call with this result has taken from the queue of a route. -/
def taken : Route → QueOp → Option PacketBuffer → List PacketBuffer
  | .unicast, .getPendingPacket, result => result.toList
  | .broadCast, .getPendingBCPacket, result => result.toList
  | .unicast, .onConnected _, _ | .unicast, .deSerializePacket _ _, _
  | .unicast, .getPendingBCPacket, _ | .broadCast, .onConnected _, _
  | .broadCast, .deSerializePacket _ _, _ | .broadCast, .getPendingPacket, _ => []

/-- What calls push, one behind the other. -/
def callTraffic (R : Runtime) : SendQue → List QueOp → List Traffic
  | _, [] => []
  | q, op :: ops => queueTraffic R q op ++ callTraffic R (queStep R q op) ops

/-- A call takes a packet from the front of a queue, or pushes packets to its end. -/
theorem queStep_balances (R : Runtime) (q : SendQue) (op : QueOp) (route : Route) :
    Balances PacketBuffer.Nonempty ⟨[], q.queue route⟩
      ((queueTraffic R q op).flatMap (Traffic.pushed route))
      ((taken route op (queResult q op)).filter PacketBuffer.Nonempty)
      ⟨[], (queStep R q op).queue route⟩ := by
  cases route with
  | unicast =>
      by_cases hop : op = .getPendingPacket
      · subst hop
        cases hq : q.ioSendPacketQue with
        | nil =>
            simp [Balances, Belt.pending, SendQue.queue, queStep, taken, queResult, queueTraffic,
              getPendingPacket, hq]
        | cons p ps =>
            by_cases hp : 0 < p.bufferSize <;>
              simp [Balances, Belt.pending, SendQue.queue, queStep, taken, queResult, queueTraffic,
                getPendingPacket, hq, hp]
      · have hnone : taken .unicast op (queResult q op) = [] := by
          cases op <;> first | rfl | exact absurd rfl hop
        rw [hnone]
        simp only [SendQue.queue, queStep_unicast hop]
        exact balances_push _ _ _ _
  | broadCast =>
      by_cases hop : op = .getPendingBCPacket
      · subst hop
        cases hq : q.ioSendBCPacketQue with
        | nil =>
            simp [Balances, Belt.pending, SendQue.queue, queStep, taken, queResult, queueTraffic,
              getPendingBCPacket, hq]
        | cons p ps =>
            by_cases hp : 0 < p.bufferSize <;>
              simp [Balances, Belt.pending, SendQue.queue, queStep, taken, queResult, queueTraffic,
                getPendingBCPacket, hq, hp]
      · have hnone : taken .broadCast op (queResult q op) = [] := by
          cases op <;> first | rfl | exact absurd rfl hop
        rw [hnone]
        simp only [SendQue.queue, queStep_bc hop]
        exact balances_push _ _ _ _

/-- Calls one behind the other conserve packets. -/
theorem runCalls_balances (R : Runtime) (route : Route) (ops : List QueOp) (q : SendQue) :
    Balances PacketBuffer.Nonempty ⟨[], q.queue route⟩
      ((callTraffic R q ops).flatMap (Traffic.pushed route))
      (((ops.zip (runCalls (queCode R) q ops).2).flatMap fun c => taken route c.1 c.2).filter
        PacketBuffer.Nonempty)
      ⟨[], (runCalls (queCode R) q ops).1.queue route⟩ := by
  induction ops generalizing q with
  | nil => exact Balances.refl _
  | cons op ops ih =>
      have hcalls := (queStep_balances R q op route).trans (ih (queStep R q op))
      simpa only [callTraffic, runCalls, queCode_run, List.zip_cons_cons, List.flatMap_cons,
        List.flatMap_append, List.filter_append] using hcalls

/-- **Conservation and order between statements.**  Any number of threads call `OnConnected`, the
handlers and the two `GetPending…` functions, and are interleaved statement by statement.  Whenever
no call holds the lock, for each of the two queues: the packets that are not of size zero which the
calls that have returned have taken, followed by those in the queue, are those that these calls have
pushed, in the order in which they gave the lock back. -/
theorem queues_conserve_under_lock {ι : Type*} (R : Runtime) {roster : Roster}
    {x : Locked SendQue (Option PacketBuffer) QueOp ι}
    {log : List (ι × QueOp × Option PacketBuffer)}
    (h : Reach (logged (lockStep (queCode R)) returned) (fun _ _ => True)
      (⟨{ connectedPlayers := roster }, none⟩, []) (x, log)) (hfree : x.holder = none)
    (route : Route) :
    (log.flatMap fun c => taken route c.2.1 c.2.2).filter PacketBuffer.Nonempty ++
        (x.shared.queue route).filter PacketBuffer.Nonempty =
      ((callTraffic R { connectedPlayers := roster } (log.map (·.2.1))).flatMap
        (Traffic.pushed route)).filter PacketBuffer.Nonempty := by
  have hcalls := runCalls_balances R route (log.map (·.2.1)) { connectedPlayers := roster }
  have hzip : (log.map (·.2.1)).zip (log.map (·.2.2)) = log.map (·.2) := by
    rw [List.zip_map']
  rw [runCalls_of_free h hfree, Balances, hzip, List.flatMap_map] at hcalls
  have hempty : SendQue.queue { connectedPlayers := roster } route = [] := by cases route <;> rfl
  simp only [Belt.pending, hempty, List.filter_nil, List.nil_append] at hcalls
  exact hcalls.symm

end IocpDemo
