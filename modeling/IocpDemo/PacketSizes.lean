/-
**How large a relayed packet can become** (the handlers, `SerializePacket`, `SendPendingPacket`).

`SendPendingPacket` copies `DataLen` bytes to the start of `RecvBuf`, which has `MAX_PACKETBUF` of
them, and does not check `DataLen`.  A packet that is relayed is a message that has been parsed and
serialized again, so its size is that of the re-encoded message.  That is no longer than the payload
when the payload is a message.  The call of `mutable_id()` among the arguments of `SerializePacket`
creates an absent `Id`, and if the compiler evaluates it before the message is copied, the packet is
longer than the frame by the two bytes of an empty `Id`.  And the handlers go on with what a failed
parse leaves, an `Id` that has been created before its size was read among it.

Main definitions:

* `IocpDemo.Codec.Compact`, `IocpDemo.Protobuf.Compact` — what is assumed of encoded sizes;
* `IocpDemo.Codec.Room` — there is room for a message, and for the `Id` that may be created in it;
* `IocpDemo.framePackets` — the packets a frame makes its handler push;
* `IocpDemo.FitsSendBuffer` — copying the packet to a `RecvBuf` stays within it;
* `IocpDemo.RelayFits` — the condition on a frame.

Main results:

* `IocpDemo.relayed_packets_fit_iff` — **the packets of a frame fit exactly under the condition**;
* `IocpDemo.relayed_packet_overflows` — a frame of 1024 bytes that is relayed in a packet of 1026.
-/

import IocpDemo.Conservation

set_option relaxedAutoImplicit false
set_option autoImplicit false

namespace IocpDemo

open Bytes Wire

variable {R : Runtime} {q : SendQue} {data : List UInt8}

/-! ### Encoded sizes -/

/-- Serializing a message that has been parsed takes no more bytes than the input; what a parse that
fails leaves takes no more than a multiple of them; and an `Id` that is created empty takes two
bytes. -/
structure Codec.Compact {M : Type} [HasId M] (c : Codec M) : Prop where
  byteSizeLong_le : ∀ data : List UInt8, c.Parses data →
    c.byteSizeLong (c.parseFromArray data).1 ≤ data.length
  leaves_le : ∀ data : List UInt8,
    c.byteSizeLong (c.parseFromArray data).1 ≤ 16 * (data.length + 16)
  byteSizeLong_mutableId : ∀ m, HasId.id? m = none →
    c.byteSizeLong (mutableId m) = c.byteSizeLong m + 2

/-- The sizes of all message types that are relayed, and of the messages the server builds about the
players of the roster. -/
structure Protobuf.Compact (P : Protobuf) : Prop where
  movement : P.movement.Compact
  fireEvent : P.fireEvent.Compact
  animState : P.animState.Compact
  weapon : P.weapon.Compact
  rosterMessage_le : ∀ player, P.movement.byteSizeLong (rosterMessage player) ≤ 1000

/-- The largest message whose packet, with the header, fits a receive buffer. -/
def maxRelayed : ℕ := 1020

namespace Codec

variable {M : Type} [HasId M] {c : Codec M}

/-- The payload is that of a message, or what its parse leaves takes no more than a packet may
hold. -/
def RoomForMessage (c : Codec M) (data : List UInt8) : Prop :=
  c.Parses data ∨ c.byteSizeLong (c.parseFromArray data).1 ≤ maxRelayed

/-- The message has an `Id`, or leaves room for the two bytes of an empty one. -/
def RoomForId (c : Codec M) (data : List UInt8) : Prop :=
  (HasId.id? (c.parseFromArray data).1).isSome = true ∨
    c.byteSizeLong (c.parseFromArray data).1 + 2 ≤ maxRelayed

/-- There is room for the message, and the message was copied before its `Id` was created, or there
is room for that. -/
def Room (c : Codec M) (o : ArgOrder) (data : List UInt8) : Prop :=
  c.RoomForMessage data ∧ (o = .copyFirst ∨ c.RoomForId data)

instance (c : Codec M) (o : ArgOrder) (data : List UInt8) : Decidable (c.Room o data) :=
  inferInstanceAs (Decidable ((_ ∨ _) ∧ (_ ∨ _ ∨ _)))

theorem Compact.byteSizeLong_serializeArg_le (hc : c.Compact) (o : ArgOrder) (m : M) :
    c.byteSizeLong (serializeArg o m) ≤ c.byteSizeLong m + 2 := by
  cases o with
  | copyFirst => exact Nat.le_add_right _ _
  | mutableIdFirst =>
      cases hid : HasId.id? m with
      | some i => simp [serializeArg, mutableId, hid]
      | none => exact Nat.le_of_eq (hc.byteSizeLong_mutableId m hid)

/-- There is room for the message exactly when it is no larger than a packet may hold. -/
theorem Compact.roomForMessage_iff (hc : c.Compact) (hdata : data.length ≤ maxRelayed) :
    c.RoomForMessage data ↔ c.byteSizeLong (c.parseFromArray data).1 ≤ maxRelayed := by
  constructor
  · rintro (hparses | hle)
    · exact Nat.le_trans (hc.byteSizeLong_le data hparses) hdata
    · exact hle
  · exact Or.inr

/-- **When a message that is relayed fits.** -/
theorem Compact.serializeArg_le_iff (hc : c.Compact) (o : ArgOrder)
    (hdata : data.length ≤ maxRelayed) :
    c.byteSizeLong (serializeArg o (c.parseFromArray data).1) ≤ maxRelayed ↔ c.Room o data := by
  rw [Room, hc.roomForMessage_iff hdata]
  cases o with
  | copyFirst => simp [serializeArg]
  | mutableIdFirst =>
      cases hid : HasId.id? (c.parseFromArray data).1 with
      | some i =>
          have hsame : mutableId (c.parseFromArray data).1 = (c.parseFromArray data).1 := by
            simp [mutableId, hid]
          simp [serializeArg, hsame, RoomForId, hid]
      | none =>
          simp only [serializeArg, hc.byteSizeLong_mutableId _ hid, RoomForId, hid]
          constructor
          · intro hle
            exact ⟨by omega, Or.inr (Or.inr hle)⟩
          · rintro ⟨-, hroom⟩
            simpa using hroom

end Codec

/-! ### The packets of a frame -/

/-- The packets that `DeSerializePacket` pushes, to either queue. -/
def framePackets (R : Runtime) (q : SendQue) (packetID : UInt16) (data : List UInt8) :
    List PacketBuffer :=
  (queueTraffic R q (.deSerializePacket packetID data)).flatMap fun t =>
    t.unicastPushed ++ t.bcPushed

/-- These are what the two queues gain. -/
theorem deSerializePacket_framePackets (R : Runtime) (q : SendQue) (packetID : UInt16)
    (data : List UInt8) : ∃ unicast bc,
      framePackets R q packetID data = unicast ++ bc ∧
        (deSerializePacket R packetID data q).ioSendPacketQue = q.ioSendPacketQue ++ unicast ∧
        (deSerializePacket R packetID data q).ioSendBCPacketQue = q.ioSendBCPacketQue ++ bc := by
  have hunicast := queStep_unicast (R := R) (q := q)
    (show QueOp.deSerializePacket packetID data ≠ .getPendingPacket by simp)
  have hbc := queStep_bc (R := R) (q := q)
    (show QueOp.deSerializePacket packetID data ≠ .getPendingBCPacket by simp)
  refine ⟨_, _, ?_, hunicast, hbc⟩
  cases hf : findFunc packetID <;> simp [framePackets, queueTraffic, hf]

theorem mem_framePackets {packetID : UInt16} {p : PacketBuffer} :
    p ∈ framePackets R q packetID data ↔ ∃ f, findFunc packetID = some f ∧
      (p = (relayOf R data f).packet ∨
        f = .recvLoginPacket ∧ p ∈ loginPackets R data q.connectedPlayers) := by
  cases hf : findFunc packetID with
  | none => simp [framePackets, queueTraffic, hf]
  | some f =>
      by_cases hlogin : f = .recvLoginPacket
      · simp [framePackets, queueTraffic, hf, hlogin, Traffic.unicastPushed, Traffic.bcPushed,
          or_comm]
      · simp [framePackets, queueTraffic, hf, hlogin, Traffic.unicastPushed, Traffic.bcPushed]

/-- `SendPendingPacket` copies the packet within the `MAX_PACKETBUF` bytes of `RecvBuf`, whichever
context it is sent to. -/
def FitsSendBuffer (p : PacketBuffer) : Prop :=
  p.bufferSize.toNat ≤ maxPacketBuf ∧
    ∀ (c : ClientContext) (k : ℕ), maxPacketBuf ≤ k →
      (c.copyToSend p.bytes).recvBuf k = c.recvBuf k

theorem fitsSendBuffer_iff {p : PacketBuffer} :
    FitsSendBuffer p ↔ p.bufferSize.toNat ≤ maxPacketBuf := by
  refine ⟨And.left, fun hle => ⟨hle, fun c k hk => ?_⟩⟩
  exact Mem.write_of_le _ _ (by rw [PacketBuffer.length_bytes]; omega)

/-- A packet fits exactly when its message does. -/
theorem fitsSendBuffer_packet_iff {relay : Relay}
    (hle : relay.codec.byteSizeLong relay.message ≤ maxMessage) :
    FitsSendBuffer relay.packet ↔ relay.codec.byteSizeLong relay.message ≤ maxRelayed := by
  rw [fitsSendBuffer_iff, Relay.bufferSize_packet, toNat_packetSizeOf hle]
  simp only [maxPacketBuf, maxRelayed]
  omega

theorem fitsSendBuffer_rosterPacket (hP : R.proto.Compact) (target : Int32)
    (player : Int32 × ClientInfo) : FitsSendBuffer (rosterPacket R.proto target player) := by
  have hle := hP.rosterMessage_le player
  have hmax : (1000 : ℕ) ≤ maxMessage := by decide
  rw [fitsSendBuffer_iff, rosterPacket_eq, serializePacket_bufferSize,
    toNat_packetSizeOf (Nat.le_trans hle hmax)]
  simp only [maxPacketBuf]
  omega

/-! ### The condition -/

/-- There is room for the message that a handler relays, in the order in which the arguments of
`SerializePacket` are evaluated. -/
def RelayFits (R : Runtime) (data : List UInt8) (f : RecvFunc) : Prop :=
  match f with
  | .recvLoginPacket => R.proto.movement.Room (R.argOrder f) data
  | .recvFireEventPacket => R.proto.fireEvent.Room (R.argOrder f) data
  | .recvMovementPacket => R.proto.movement.Room (R.argOrder f) data
  | .recvAnimPacket => R.proto.animState.Room (R.argOrder f) data
  | .recvWeaponPacket => R.proto.weapon.Room (R.argOrder f) data

instance (R : Runtime) (data : List UInt8) (f : RecvFunc) : Decidable (RelayFits R data f) :=
  match f with
  | .recvLoginPacket => inferInstanceAs (Decidable (R.proto.movement.Room _ data))
  | .recvFireEventPacket => inferInstanceAs (Decidable (R.proto.fireEvent.Room _ data))
  | .recvMovementPacket => inferInstanceAs (Decidable (R.proto.movement.Room _ data))
  | .recvAnimPacket => inferInstanceAs (Decidable (R.proto.animState.Room _ data))
  | .recvWeaponPacket => inferInstanceAs (Decidable (R.proto.weapon.Room _ data))

/-- The packet that a handler queues for broadcast fits exactly under the condition. -/
theorem fitsSendBuffer_relayOf_iff (hP : R.proto.Compact) (hdata : data.length ≤ maxRelayed)
    (f : RecvFunc) : FitsSendBuffer (relayOf R data f).packet ↔ RelayFits R data f := by
  have hrelay : ∀ {M : Type} [HasId M] {c : Codec M} (o : ArgOrder) (t : EPacketType) (r : Bool),
      c.Compact → (FitsSendBuffer (Relay.ofData c o t r data).packet ↔ c.Room o data) := by
    intro M _ c o t r hc
    have hmax : 16 * (maxRelayed + 16) + 2 ≤ maxMessage := by decide
    have hle := hc.leaves_le data
    have hmessage := hc.byteSizeLong_serializeArg_le o (c.parseFromArray data).1
    exact (fitsSendBuffer_packet_iff (show _ ≤ maxMessage from by
      simp only [Relay.ofData]; omega)).trans (hc.serializeArg_le_iff o hdata)
  cases f with
  | recvLoginPacket => exact hrelay _ _ _ hP.movement
  | recvFireEventPacket => exact hrelay _ _ _ hP.fireEvent
  | recvMovementPacket => exact hrelay _ _ _ hP.movement
  | recvAnimPacket => exact hrelay _ _ _ hP.animState
  | recvWeaponPacket => exact hrelay _ _ _ hP.weapon

/-- A frame of at most `MAX_PACKETBUF` bytes has a payload of at most 1020. -/
theorem length_payloadOf_le (ctx : ClientContext) {packetSize : UInt16}
    (hmin : sizeofPacketHeader ≤ packetSize.toNat) (hmax : packetSize.toNat ≤ maxPacketBuf) :
    (payloadOf ctx (dataSizeOf packetSize)).length ≤ maxRelayed := by
  have hsize := toNat_dataSizeOf packetSize
  simp only [sizeofPacketHeader, maxPacketBuf] at hmin hmax
  simp only [payloadOf, Mem.length_read, maxRelayed]
  omega

/-- **Which frames are relayed in packets that fit.**  For a frame with a `PacketSize` between the
size of a header and `MAX_PACKETBUF`, of any packet id and with any payload, parsed or not, in any
state of the roster and the queues: every packet that its handler pushes has a size of at most
`MAX_PACKETBUF`, so that `SendPendingPacket` copies it within `RecvBuf` for every recipient, if and
only if there is no handler, or the payload parses or what its parse leaves takes at most 1020
bytes, and besides the message was copied before `mutable_id()` was evaluated, or it has an `Id`, or
takes at most 1018 bytes. -/
theorem relayed_packets_fit_iff (hP : R.proto.Compact) (q : SendQue) (ctx : ClientContext)
    (hmin : sizeofPacketHeader ≤ (PacketHeader.ofMem ctx.recvBuf).packetSize.toNat)
    (hmax : (PacketHeader.ofMem ctx.recvBuf).packetSize.toNat ≤ maxPacketBuf) :
    let header := PacketHeader.ofMem ctx.recvBuf
    let data := payloadOf ctx (dataSizeOf header.packetSize)
    (∀ p ∈ framePackets R q header.packetID data, FitsSendBuffer p) ↔
      ∀ f ∈ findFunc header.packetID, RelayFits R data f := by
  intro header data
  have hdata : data.length ≤ maxRelayed := length_payloadOf_le ctx hmin hmax
  constructor
  · intro hfits f hf
    exact (fitsSendBuffer_relayOf_iff hP hdata f).1
      (hfits _ (mem_framePackets.2 ⟨f, hf, Or.inl rfl⟩))
  · intro hrelay p hp
    obtain ⟨f, hf, rfl | ⟨-, hlogin⟩⟩ := mem_framePackets.1 hp
    · exact (fitsSendBuffer_relayOf_iff hP hdata f).2 (hrelay f hf)
    · -- the packets about the players of the roster are small
      rw [loginPackets_eq] at hlogin
      obtain ⟨player, -, rfl⟩ := List.mem_map.1 hlogin
      exact fitsSendBuffer_rosterPacket hP _ player

/-! ### The wire format -/

/-- Serializing what has been parsed in the wire format is compact. -/
theorem Wire.Generated.compact {M : Type} [HasId M] {default : M}
    {set : M → ℕ → WireValue → M × Bool} {write : M → List UInt8} {Wf : M → Prop}
    {field : ParseContext → M → UInt32 → List UInt8 → Parsed M}
    (h : Generated recursionLimit set write Wf field)
    (hM : MessageFormat recursionLimit default set write Wf) (hid : EmptyId write Wf) :
    (wireCodec default field write).Compact where
  byteSizeLong_le _ hparses := (h.parsed_wf hM hparses).2
  leaves_le data := (h.parse_leaves hM data).2
  byteSizeLong_mutableId m hm := by
    have hset : mutableId m = HasId.setId m {} := by simp [mutableId, hm]
    rw [hset]
    exact hid.length m hm

theorem Wire.compact_wireProtobuf : wireProtobuf.Compact where
  movement := cases_movement.compact format_movement emptyId_movement
  fireEvent := cases_fireEvent.compact format_fireEvent emptyId_fireEvent
  animState := cases_animState.compact format_animState emptyId_animState
  weapon := cases_weapon.compact format_weapon emptyId_weapon
  rosterMessage_le player := (rosterMessage_small player).2

/-- The movement that names its sender is relayed in a packet that fits. -/
theorem own_movement_fits : ∃ p ∈ framePackets wireRuntime {} EPacketType.movementS.code [10, 0],
    p.bufferSize = 6 ∧ FitsSendBuffer p := by
  have hframe := (relayed_packets_fit_iff (R := wireRuntime) compact_wireProtobuf {}
    ⟨0, some 7, Mem.write (fun _ => 0) 0 [6, 0, 6, 0, 10, 0]⟩ (by decide +kernel)
    (by decide +kernel)).2 fun f hf => by
      obtain rfl := Option.some.inj hf
      decide +kernel
  have hmem : (relayOf wireRuntime [10, 0] .recvMovementPacket).packet ∈
      framePackets wireRuntime {} EPacketType.movementS.code [10, 0] :=
    mem_framePackets.2 ⟨.recvMovementPacket, by decide, Or.inl rfl⟩
  exact ⟨_, hmem, by rw [Relay.bufferSize_packet]; decide +kernel, hframe _ hmem⟩

/-- The wire format, with `mutable_id()` evaluated before the message is copied. -/
def eagerRuntime : Runtime := { wireRuntime with argOrder := fun _ => .mutableIdFirst }

/-- **A frame that outgrows the buffer.**  A movement without an `Id` whose unknown field fills the
1024 bytes of the frame is relayed in a packet of 1026 bytes. -/
theorem relayed_packet_overflows :
    ∃ ctx : ClientContext, PacketHeader.ofMem ctx.recvBuf = ⟨1024, EPacketType.movementS.code⟩ ∧
      ∃ p ∈ framePackets eagerRuntime {} EPacketType.movementS.code (payloadOf ctx 1020),
        p.bufferSize = 1026 ∧ ¬ FitsSendBuffer p := by
  let ctx : ClientContext :=
    ⟨0, some 7, Mem.write (fun _ => 0) 0 [0, 4, 6, 0, 0x7a, 0xf9, 0x07]⟩
  have hsize : (relayOf eagerRuntime (payloadOf ctx 1020) .recvMovementPacket).packet.bufferSize =
      1026 := by
    rw [Relay.bufferSize_packet]
    decide +kernel
  refine ⟨ctx, by decide +kernel, _, mem_framePackets.2 ⟨.recvMovementPacket, by decide,
    Or.inl rfl⟩, hsize, fun hfits => ?_⟩
  have hle := hfits.1
  rw [hsize] at hle
  exact absurd hle (by decide)

/-- What is left of a payload that breaks off behind the tag of the `Id` has an empty `Id`, and is
one byte longer than the payload. -/
example (o : ArgOrder) : wireProtobuf.movement.byteSizeLong (serializeArg o
    (wireProtobuf.movement.parseFromArray
      ([0x7a, 0xf8, 0x07] ++ List.replicate 1016 0 ++ [0x0a])).1) = 1021 := by
  cases o <;> decide +kernel

end IocpDemo
