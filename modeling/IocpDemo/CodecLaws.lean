/-
**What the server relies on of the protobuf runtime.**

The theorems about packets hold for any codec of the messages that keeps the laws of this module,
each of them documented behaviour of the runtime library: a message is written with as many bytes as
its size says, is parsed back from these bytes, and takes no more bytes than it was parsed from; an
`Id` that is created empty takes two bytes; and the messages that the server builds itself are
small.  `IocpDemo/WireMessages.lean` proves them for the codecs of the wire format.

Main definitions:

* `IocpDemo.maxMessage` — the largest message whose packet size fits sixteen bits;
* `IocpDemo.connMessage`, `IocpDemo.rosterMessage` — the messages the server builds;
* `IocpDemo.Codec.Exact`, `IocpDemo.Codec.RoundTrips`, `IocpDemo.Codec.Parses`,
  `IocpDemo.Codec.Lawful`, `IocpDemo.Protobuf.Exact`, `IocpDemo.Protobuf.Lawful` — the laws.

Main results:

* `IocpDemo.Codec.Lawful.serializeArg_le` — a message relayed by a handler fits a packet;
* `IocpDemo.Codec.Lawful.roundTrips_serializeArg` — and is parsed back from it.
-/

import IocpDemo.SendQue

set_option relaxedAutoImplicit false
set_option autoImplicit false

namespace IocpDemo

/-! ### The messages the server builds -/

/-- The largest message whose packet size, with the header, fits sixteen bits. -/
def maxMessage : ℕ := 65531

/-- The message of `OnConnected`. -/
def connMessage (index : UInt16) : PClientId := { index := index.toUInt32 }

/-- The message of `SendLoginedPlayerPackets` about a player. -/
def rosterMessage (player : Int32 × ClientInfo) : PMovement where
  id := some { index := player.1.toUInt32 }
  loc := some { x := player.2.location.x, y := player.2.location.y, z := player.2.location.z }
  rot := some { pitch := player.2.rotation.pitch, roll := player.2.rotation.roll,
                yaw := player.2.rotation.yaw }

theorem connPacket_eq (P : Protobuf) (index : UInt16) :
    connPacket P index =
      serializePacket P.clientId (connMessage index) EPacketType.connC.toUInt8 index := by
  simp [connPacket, connMessage]

theorem rosterPacket_eq (P : Protobuf) (target : Int32) (player : Int32 × ClientInfo) :
    rosterPacket P target player = serializePacket P.movement (rosterMessage player)
      EPacketType.loginC.toUInt8 target.toUInt32.toUInt16 := rfl

@[simp] theorem idIndex_rosterMessage (player : Int32 × ClientInfo) :
    idIndex (rosterMessage player) = player.1.toUInt32 := rfl

/-! ### The laws -/

namespace Codec

/-- `SerializeToArray` writes exactly `ByteSizeLong` bytes. -/
def Exact {N : Type} (c : Codec N) : Prop := ∀ m, (c.serialize m).length = c.byteSizeLong m

/-- `ParseFromArray` of what `SerializeToArray` writes for a message yields the message. -/
def RoundTrips {N : Type} (c : Codec N) (m : N) : Prop :=
  c.parseFromArray (c.serialize m) = (m, true)

/-- The bytes are those of a message. -/
def Parses {N : Type} (c : Codec N) (data : List UInt8) : Prop := (c.parseFromArray data).2 = true

instance {N : Type} (c : Codec N) (data : List UInt8) : Decidable (c.Parses data) :=
  inferInstanceAs (Decidable (_ = true))

/-- The laws of a message type that is parsed from at most `2 ^ 16 - 1` bytes and relayed. -/
structure Lawful {M : Type} [HasId M] (c : Codec M) : Prop where
  exact : c.Exact
  roundTrips : ∀ data : List UInt8, data.length ≤ 65535 → c.Parses data →
    c.RoundTrips (c.parseFromArray data).1
  roundTrips_mutableId : ∀ data : List UInt8, data.length ≤ 65535 → c.Parses data →
    c.RoundTrips (mutableId (c.parseFromArray data).1)
  byteSizeLong_le : ∀ data : List UInt8, data.length ≤ 65535 → c.Parses data →
    c.byteSizeLong (c.parseFromArray data).1 ≤ data.length
  byteSizeLong_mutableId : ∀ m, c.byteSizeLong (mutableId m) ≤ c.byteSizeLong m + 2

namespace Lawful

variable {M : Type} [HasId M] {c : Codec M} {data : List UInt8}

/-- **A relayed message fits a packet**, because at most two bytes come on top of its payload. -/
theorem serializeArg_le (hc : c.Lawful) (o : ArgOrder) (hparses : c.Parses data)
    (hdata : data.length + 2 ≤ maxMessage) :
    c.byteSizeLong (serializeArg o (c.parseFromArray data).1) ≤ maxMessage := by
  have hmax : maxMessage = 65531 := rfl
  have hle := hc.byteSizeLong_le data (by omega) hparses
  cases o with
  | copyFirst =>
      simp only [serializeArg]
      omega
  | mutableIdFirst =>
      have := hc.byteSizeLong_mutableId (c.parseFromArray data).1
      simp only [serializeArg]
      omega

theorem roundTrips_serializeArg (hc : c.Lawful) (o : ArgOrder) (hparses : c.Parses data)
    (hdata : data.length ≤ 65535) : c.RoundTrips (serializeArg o (c.parseFromArray data).1) := by
  cases o with
  | copyFirst => exact hc.roundTrips data hdata hparses
  | mutableIdFirst => exact hc.roundTrips_mutableId data hdata hparses

end Lawful

end Codec

namespace Protobuf

/-- All messages are written with exactly as many bytes as their size says. -/
structure Exact (P : Protobuf) : Prop where
  clientId : P.clientId.Exact
  movement : P.movement.Exact
  fireEvent : P.fireEvent.Exact
  animState : P.animState.Exact
  weapon : P.weapon.Exact

/-- The laws of all message types, and of the messages that the server builds itself. -/
structure Lawful (P : Protobuf) : Prop where
  clientId : P.clientId.Exact
  movement : P.movement.Lawful
  fireEvent : P.fireEvent.Lawful
  animState : P.animState.Lawful
  weapon : P.weapon.Lawful
  connMessage_le : ∀ index, P.clientId.byteSizeLong (connMessage index) ≤ maxMessage
  rosterMessage_le : ∀ player, P.movement.byteSizeLong (rosterMessage player) ≤ maxMessage
  roundTrips_rosterMessage : ∀ player, P.movement.RoundTrips (rosterMessage player)

theorem Lawful.toExact {P : Protobuf} (hP : P.Lawful) : P.Exact :=
  ⟨hP.clientId, hP.movement.exact, hP.fireEvent.exact, hP.animState.exact, hP.weapon.exact⟩

end Protobuf

end IocpDemo
