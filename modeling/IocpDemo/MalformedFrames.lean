/-
**What a malformed frame does** (`DeSerializePacket`, the five handlers).

A packet id without an entry in `PacketFuncMap` is ignored.  A handler that has been found calls
`ParseFromArray`, drops its result, and goes on with the message as the parser has left it: whatever
fields it had read, and the defaults for the others, which for the `Id` is player 0.

Main definitions:

* `IocpDemo.parseSucceeds` — the result of `ParseFromArray` in a handler;
* `IocpDemo.MalformedFrame` — the packet id is unknown, or the payload is not parsed.

Main results:

* `IocpDemo.deSerializePacket_eq_iff` — a frame leaves the queues and the roster as they were
  exactly when its packet id is unknown;
* `IocpDemo.malformed_frame_ignored_iff` — **a malformed frame changes nothing exactly when its
  packet id is unknown or its payload is parsed**;
* `IocpDemo.malformed_login_is_announced` — a login that is not parsed enters player 0 in the
  roster and announces it.
-/

import IocpDemo.QueuedPackets

set_option relaxedAutoImplicit false
set_option autoImplicit false

namespace IocpDemo

open Bytes

variable {R : Runtime} {q : SendQue} {packetID : UInt16} {data : List UInt8}

/-- What `ParseFromArray` returns in a handler; no handler looks at it. -/
def parseSucceeds (R : Runtime) (data : List UInt8) : RecvFunc → Bool
  | .recvLoginPacket => (R.proto.movement.parseFromArray data).2
  | .recvFireEventPacket => (R.proto.fireEvent.parseFromArray data).2
  | .recvMovementPacket => (R.proto.movement.parseFromArray data).2
  | .recvAnimPacket => (R.proto.animState.parseFromArray data).2
  | .recvWeaponPacket => (R.proto.weapon.parseFromArray data).2

/-- The packet id has no entry in `PacketFuncMap`, or `ParseFromArray` of the payload as the message
type of its handler returns `false`. -/
def MalformedFrame (R : Runtime) (packetID : UInt16) (data : List UInt8) : Prop :=
  ∀ f ∈ findFunc packetID, parseSucceeds R data f = false

/-- A handler always queues a broadcast. -/
theorem deSerializePacket_ne {f : RecvFunc} (hf : findFunc packetID = some f) :
    deSerializePacket R packetID data q ≠ q := by
  intro heq
  have hque := deSerializePacket_broadCast R hf data q
  rw [heq] at hque
  have hlen := congrArg List.length hque
  simp at hlen

/-- A frame leaves everything as it was exactly when it has no handler. -/
theorem deSerializePacket_eq_iff : deSerializePacket R packetID data q = q ↔
    findFunc packetID = none := by
  constructor
  · intro heq
    cases hf : findFunc packetID with
    | none => rfl
    | some f => exact absurd heq (deSerializePacket_ne hf)
  · intro hf
    simp [deSerializePacket, hf]

/-- **What a malformed frame changes.**  For every state of the roster and the two queues, every
packet id and every payload: that `DeSerializePacket` leaves the three exactly as they were if the
frame is malformed, holds if and only if its packet id has no entry in `PacketFuncMap` or its
payload is parsed as the message type of the handler. -/
theorem malformed_frame_ignored_iff (R : Runtime) (q : SendQue) (packetID : UInt16)
    (data : List UInt8) :
    (MalformedFrame R packetID data → deSerializePacket R packetID data q = q) ↔
      findFunc packetID = none ∨
        ∃ f, findFunc packetID = some f ∧ parseSucceeds R data f = true := by
  rw [deSerializePacket_eq_iff]
  cases hf : findFunc packetID with
  | none => simp
  | some f =>
      cases hparse : parseSucceeds R data f with
      | true => simp [MalformedFrame, hf, hparse]
      | false => simp [MalformedFrame, hf, hparse]

/-- **A login that is not parsed is announced.**  The payload of the frame `05 00 02 00 0a` is the
tag of an `Id` without the `Id`: the parser creates the `Id` and fails, and the login handler enters
player 0 in the roster and queues a broadcast about it, with the empty `Id` as its message. -/
theorem malformed_login_is_announced :
    MalformedFrame Wire.wireRuntime EPacketType.loginS.code [0x0a] ∧
      deSerializePacket Wire.wireRuntime EPacketType.loginS.code [0x0a] {} ≠ {} ∧
      (deSerializePacket Wire.wireRuntime EPacketType.loginS.code [0x0a] {}).connectedPlayers.map
        Prod.fst = [0] ∧
      (deSerializePacket Wire.wireRuntime EPacketType.loginS.code [0x0a] {}).ioSendBCPacketQue.map
        PacketBuffer.bytes = [[6, 0, 1, 0, 0x0a, 0]] := by
  have hfunc : findFunc EPacketType.loginS.code = some .recvLoginPacket := by decide
  refine ⟨?_, deSerializePacket_ne hfunc, by decide +kernel, by decide +kernel⟩
  intro f hf
  obtain rfl : RecvFunc.recvLoginPacket = f := Option.some.inj (hfunc.symm.trans hf)
  decide +kernel

end IocpDemo
