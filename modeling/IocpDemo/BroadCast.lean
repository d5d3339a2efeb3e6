/-
**What is broadcast, and to whom** (`DeSerializePacket`, `SendPacketBroadCast`).

Each of the five handlers parses a message, serializes it again and queues one packet for broadcast,
under the index of the player that the message names, cut to sixteen bits.  The broadcast skips the
context with that index.

Main definitions:

* `IocpDemo.Relay`, `IocpDemo.relayOf` — what a handler serializes for broadcast.

Main results:

* `IocpDemo.deSerializePacket_broadCast` — each handler appends exactly one packet;
* `IocpDemo.bcNext_eq_copying_iff` — **to whom the broadcast of a packet goes**.
-/

import IocpDemo.SlotTable
import IocpDemo.SendQue

set_option relaxedAutoImplicit false
set_option autoImplicit false

namespace IocpDemo

open Bytes Transition

variable {s : Server} {n : ℕ}

/-! ### What a handler serializes -/

/-- A message about to be queued for broadcast. -/
structure Relay where
  M : Type
  hasId : HasId M
  codec : Codec M
  message : M
  pType : EPacketType
  reliable : Bool

namespace Relay

instance (r : Relay) : HasId r.M := r.hasId

/-- `Id.Index` of the message. -/
def idIndex (r : Relay) : UInt32 := IocpDemo.idIndex r.message

/-- The packet that is queued. -/
def packet (r : Relay) : PacketBuffer :=
  { serializePacket r.codec r.message r.pType.toUInt8 r.idIndex.toUInt16 with
    bIsReliable := r.reliable }

/-- Parsing a message and serializing it again. -/
def ofData {M : Type} [HasId M] (c : Codec M) (o : ArgOrder) (pType : EPacketType)
    (reliable : Bool) (data : List UInt8) : Relay :=
  ⟨M, inferInstance, c, serializeArg o (c.parseFromArray data).1, pType, reliable⟩

section OfData

variable {M : Type} [HasId M] (c : Codec M) (o : ArgOrder) (pType : EPacketType) (reliable : Bool)
  (data : List UInt8)

theorem idIndex_ofData :
    (ofData c o pType reliable data).idIndex = IocpDemo.idIndex (c.parseFromArray data).1 :=
  idIndex_serializeArg o (c.parseFromArray data).1

theorem packet_ofData : (ofData c o pType reliable data).packet =
    { serializePacket c (serializeArg o (c.parseFromArray data).1) pType.toUInt8
        (IocpDemo.idIndex (c.parseFromArray data).1).toUInt16 with bIsReliable := reliable } := by
  rw [packet, idIndex_ofData]
  rfl

end OfData

@[simp] theorem packetIndex_packet (r : Relay) : r.packet.packetIndex = r.idIndex.toUInt16 := by
  simp [packet]

theorem bufferSize_packet (r : Relay) :
    r.packet.bufferSize = packetSizeOf (r.codec.byteSizeLong r.message) :=
  serializePacket_bufferSize r.codec r.message r.pType.toUInt8 r.idIndex.toUInt16

end Relay

/-- What each handler serializes for broadcast. -/
def relayOf (R : Runtime) (data : List UInt8) : RecvFunc → Relay
  | .recvLoginPacket =>
      .ofData R.proto.movement (R.argOrder .recvLoginPacket) .loginC true data
  | .recvFireEventPacket =>
      .ofData R.proto.fireEvent (R.argOrder .recvFireEventPacket) .fireEventC false data
  | .recvMovementPacket =>
      .ofData R.proto.movement (R.argOrder .recvMovementPacket) .movementC false data
  | .recvAnimPacket =>
      .ofData R.proto.animState (R.argOrder .recvAnimPacket) .animStateC false data
  | .recvWeaponPacket =>
      .ofData R.proto.weapon (R.argOrder .recvWeaponPacket) .weaponStateC true data

/-- The message carries the `Id` of the frame. -/
theorem idIndex_relayOf (R : Runtime) (data : List UInt8) (f : RecvFunc) :
    (relayOf R data f).idIndex = frameIdIndex R data f := by
  cases f <;> exact Relay.idIndex_ofData _ _ _ _ _

/-- **Each handler appends exactly one packet to the broadcast queue.** -/
theorem deSerializePacket_broadCast (R : Runtime) {packetID : UInt16} {f : RecvFunc}
    (hf : findFunc packetID = some f) (data : List UInt8) (q : SendQue) :
    (deSerializePacket R packetID data q).ioSendBCPacketQue =
      q.ioSendBCPacketQue ++ [(relayOf R data f).packet] := by
  cases f with
  | recvLoginPacket =>
      -- what the login queues for its sender goes to the other queue
      have heq := recvLoginPacket_eq R data q
      simp only [deSerializePacket, hf, callFunc, relayOf, Relay.packet_ofData]
      rw [heq]
  | _ =>
      simp only [deSerializePacket, hf, callFunc, recvFireEventPacket, recvMovementPacket,
        recvAnimPacket, recvWeaponPacket, recvRelay_eq, relayOf, Relay.packet_ofData]

/-! ### Whom the broadcast skips -/

/-- The broadcast of a packet goes to the `i`-th context exactly when it is connected and the packet
does not name `i`. -/
theorem bcNext_eq_copying_iff (ht : SlotTable n s) {i : ℕ} {ctx : ClientContext}
    (hctx : s.contexts[i]? = some ctx) (p : PacketBuffer) :
    Server.bcNext s.contexts p i = .copying p i ↔
      ctx.isConnected = true ∧ p.packetIndex.toNat ≠ i % 4294967296 := by
  have hindex : p.packetIndex.toUInt32 = ctx.getIndex ↔ p.packetIndex.toNat = i % 4294967296 := by
    rw [← UInt32.toNat_inj, ht.getIndex_eq hctx, UInt16.toNat_toUInt32, UInt32.toNat_ofNat']
  have htarget : Server.bcNext s.contexts p i = .copying p i ↔
      Server.isBroadCastTarget p ctx = true := by
    cases ht : Server.isBroadCastTarget p ctx <;> simp [Server.bcNext, hctx, ht]
  rw [htarget, Server.isBroadCastTarget, Bool.and_eq_true, bne_iff_ne, ne_eq, hindex]

end IocpDemo
