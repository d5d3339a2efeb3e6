/-
**Relaying preserves the meaning of a message** (`DeSerializePacket`, the four relaying handlers).

A fire event, a movement, an animation state or a weapon state is parsed from its frame, serialized
again under the packet type for clients, and queued for broadcast.  What the clients parse is the
message the sender sent, except that the call of `mutable_id()` among the arguments of
`SerializePacket` may have created an absent `Id` before the message is copied.

Main definitions:

* `IocpDemo.Relayed` — one packet more in the broadcast queue, which means the same as a payload.

Main results:

* `IocpDemo.recvRelay_relayed` — a relaying handler, for any message type;
* `IocpDemo.relay_preserves_meaning` — **the four of them, through the dispatch**.
-/

import IocpDemo.QueuedPackets

set_option relaxedAutoImplicit false
set_option autoImplicit false

namespace IocpDemo

open Bytes Transition

variable {R : Runtime} {q : SendQue} {data : List UInt8}

/-- `Relayed c t reliable data q q'`: the state `q'` has exactly one packet more than `q`, at the
end of the broadcast queue; its type is `t`, and its payload is parsed to the message that `data` is
parsed to, up to an `Id` that was absent and is now present and empty. -/
def Relayed {M : Type} [HasId M] (c : Codec M) (t : EPacketType) (reliable : Bool)
    (data : List UInt8) (q q' : SendQue) : Prop :=
  ∃ p, q' = { q with ioSendBCPacketQue := q.ioSendBCPacketQue ++ [p] } ∧
    p.header.packetID = t.code ∧ p.bIsReliable = reliable ∧
    (c.parseFromArray p.payload = ((c.parseFromArray data).1, true) ∨
      c.parseFromArray p.payload = (mutableId (c.parseFromArray data).1, true))

/-- **A relaying handler preserves the meaning of the message**, for every message type whose codec
keeps the laws. -/
theorem recvRelay_relayed {M : Type} [HasId M] {c : Codec M} (hc : c.Lawful) (o : ArgOrder)
    (t : EPacketType) (reliable : Bool) (hparses : c.Parses data) (hlen : data.length ≤ 65529) :
    Relayed c t reliable data q (recvRelay c o t reliable data q) := by
  have hfits : c.byteSizeLong (serializeArg o (c.parseFromArray data).1) ≤ maxMessage :=
    hc.serializeArg_le o hparses (by rw [maxMessage]; omega)
  have hround := hc.roundTrips_serializeArg o hparses (show data.length ≤ 65535 by omega)
  have hheader := header_serializePacket c (serializeArg o (c.parseFromArray data).1) t.toUInt8
    (idIndex (c.parseFromArray data).1).toUInt16
  have hpayload := payload_serializePacket (hc.exact _) hfits t.toUInt8
    (idIndex (c.parseFromArray data).1).toUInt16
  refine ⟨_, recvRelay_eq c o t reliable data q, ?_, rfl, ?_⟩
  · exact (congrArg PacketHeader.packetID hheader).trans t.toUInt16_toUInt8
  · have hparse := (congrArg c.parseFromArray hpayload).trans hround
    cases o with
    | copyFirst => exact Or.inl hparse
    | mutableIdFirst => exact Or.inr hparse

/-- **Relaying preserves meaning.**  In every state, a frame with the packet id of a fire event, a
movement, an animation state or a weapon state whose payload has at most 65529 bytes and is parsed
successfully makes `DeSerializePacket` append exactly one packet to the broadcast queue, of the
corresponding type for clients, with a payload that is parsed to the same message up to an absent
`Id`; only weapon states are reliable; and nothing else changes. -/
theorem relay_preserves_meaning (hP : R.proto.Lawful) (q : SendQue) (data : List UInt8)
    (hlen : data.length ≤ 65529) :
    (R.proto.fireEvent.Parses data →
        Relayed R.proto.fireEvent .fireEventC false data q
          (deSerializePacket R EPacketType.fireEventS.code data q)) ∧
      (R.proto.movement.Parses data →
        Relayed R.proto.movement .movementC false data q
          (deSerializePacket R EPacketType.movementS.code data q)) ∧
      (R.proto.animState.Parses data →
        Relayed R.proto.animState .animStateC false data q
          (deSerializePacket R EPacketType.animStateS.code data q)) ∧
      (R.proto.weapon.Parses data →
        Relayed R.proto.weapon .weaponStateC true data q
          (deSerializePacket R EPacketType.weaponStateS.code data q)) :=
  ⟨fun hparses => recvRelay_relayed hP.fireEvent _ _ _ hparses hlen,
    fun hparses => recvRelay_relayed hP.movement _ _ _ hparses hlen,
    fun hparses => recvRelay_relayed hP.animState _ _ _ hparses hlen,
    fun hparses => recvRelay_relayed hP.weapon _ _ _ hparses hlen⟩

/-- A movement of player 300 with a position is relayed. -/
theorem movement_is_relayed :
    Relayed Wire.wireProtobuf.movement .movementC false
      [0x0a, 3, 8, 0xac, 2, 0x12, 5, 0x0d, 0, 0, 0x80, 0x3f] {}
      (deSerializePacket Wire.wireRuntime EPacketType.movementS.code
        [0x0a, 3, 8, 0xac, 2, 0x12, 5, 0x0d, 0, 0, 0x80, 0x3f] {}) :=
  (relay_preserves_meaning Wire.lawful_wireProtobuf {} _ (by decide)).2.1 (by decide +kernel)

end IocpDemo
