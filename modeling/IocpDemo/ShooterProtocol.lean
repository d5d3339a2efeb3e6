/-
**The protobuf messages of the game** (`ShooterProtocol.proto`, `ShooterProtocol.pb.h`).

The messages are records: a field of message type that may be absent is an `Option`, a field without
presence has its default, and the unknown fields a parser keeps are the bytes they serialize to.
The generated parser and serializer rest on the protobuf runtime library; the functions the server
calls of them form a *codec*, and everything below is stated for any codec.
`IocpDemo/WireFormat.lean` gives the one of the wire format.

Main definitions:

* `IocpDemo.PClientId`, `IocpDemo.PMovement`, `IocpDemo.PFireEvent`, `IocpDemo.PAnimState`,
  `IocpDemo.PWeapon` — the messages;
* `IocpDemo.Codec`, `IocpDemo.Protobuf` — `ParseFromArray`, `ByteSizeLong` and `SerializeToArray` of
  a message type, and of all those the server uses;
* `IocpDemo.HasId`, `IocpDemo.idIndex`, `IocpDemo.mutableId` — `id().index()` and `mutable_id()`,
  for the messages that carry an `Id`.

Main results:

* `IocpDemo.idIndex_mutableId` — creating a missing `Id` does not change the index read from it.
-/

import IocpDemo.Define
import Mathlib.Data.Int.Notation

set_option relaxedAutoImplicit false
set_option autoImplicit false

namespace IocpDemo

open Bytes

/-! ### Messages -/

/-- The unknown fields of a message, as the bytes they serialize to. -/
abbrev UnknownFields := List UInt8

/-- `PClientId`. -/
structure PClientId where
  index : UInt32 := 0
  unknown : UnknownFields := []
  deriving DecidableEq, Repr

/-- `PVector`. -/
structure PVector where
  x : Float32Bits := 0
  y : Float32Bits := 0
  z : Float32Bits := 0
  unknown : UnknownFields := []
  deriving DecidableEq, Repr

/-- `PRotator`. -/
structure PRotator where
  roll : Float32Bits := 0
  pitch : Float32Bits := 0
  yaw : Float32Bits := 0
  unknown : UnknownFields := []
  deriving DecidableEq, Repr

/-- `PWeapon`. -/
structure PWeapon where
  id : Option PClientId := none
  startFire : Option Bool := none
  stopFire : Option Bool := none
  changeNextWeapon : Option Bool := none
  changePrevWeapon : Option Bool := none
  startReload : Option Bool := none
  ammo : Option UInt32 := none
  clipAmmo : Option UInt32 := none
  unknown : UnknownFields := []
  deriving DecidableEq, Repr

/-- `PFireEvent`. -/
structure PFireEvent where
  id : Option PClientId := none
  randomSeed : Float32Bits := 0
  aimDir : Option PVector := none
  startTrace : Option PVector := none
  unknown : UnknownFields := []
  deriving DecidableEq, Repr

/-- `PMovement`. -/
structure PMovement where
  id : Option PClientId := none
  loc : Option PVector := none
  rot : Option PRotator := none
  vel : Option PVector := none
  unknown : UnknownFields := []
  deriving DecidableEq, Repr

/-- `PAnimState`. -/
structure PAnimState where
  id : Option PClientId := none
  aimYaw : Option Float32Bits := none
  aimPitch : Option Float32Bits := none
  unknown : UnknownFields := []
  deriving DecidableEq, Repr

/-! ### Messages that carry an `Id` -/

/-- A message type with a field `PClientId Id`. -/
class HasId (M : Type) where
  /-- The field, when it is present. -/
  id? : M → Option PClientId
  /-- The message with the field set. -/
  setId : M → PClientId → M
  id?_setId : ∀ m i, id? (setId m i) = some i

instance : HasId PMovement := ⟨PMovement.id, fun m i => { m with id := some i }, fun _ _ => rfl⟩
instance : HasId PFireEvent := ⟨PFireEvent.id, fun m i => { m with id := some i }, fun _ _ => rfl⟩
instance : HasId PAnimState := ⟨PAnimState.id, fun m i => { m with id := some i }, fun _ _ => rfl⟩
instance : HasId PWeapon := ⟨PWeapon.id, fun m i => { m with id := some i }, fun _ _ => rfl⟩

variable {M : Type} [HasId M]

/-- `id().index()`: the default instance is read when the field is absent. -/
def idIndex (m : M) : UInt32 := ((HasId.id? m).getD {}).index

/-- `mutable_id()`: an absent `Id` is created, empty. -/
def mutableId (m : M) : M :=
  match HasId.id? m with
  | some _ => m
  | none => HasId.setId m {}

/-- **Creating a missing `Id` does not change the index read from it.** -/
@[simp] theorem idIndex_mutableId (m : M) : idIndex (mutableId m) = idIndex m := by
  cases h : HasId.id? m with
  | some i => simp [mutableId, h]
  | none => simp [mutableId, idIndex, h, HasId.id?_setId]

/-! ### Codecs -/

/-- What the server uses of a message type's parser and serializer. -/
structure Codec (M : Type) where
  /-- `ParseFromArray`: the message as the parser leaves it, and whether it succeeded. -/
  parseFromArray : List UInt8 → M × Bool
  /-- `ByteSizeLong`. -/
  byteSizeLong : M → ℕ
  /-- The bytes `SerializeToArray` writes when it has room for them. -/
  serialize : M → List UInt8

/-- `SerializeToArray(data, size)` into the memory at the offset `off`: nothing is written, and the
result is `false`, when the size given is less than the size of the message. -/
def Codec.serializeToArray {N : Type} (c : Codec N) (m : N) (mem : Mem) (off : ℕ) (size : ℤ) :
    Mem × Bool :=
  if size < c.byteSizeLong m then (mem, false) else (mem.write off (c.serialize m), true)

/-- The codecs of the message types the server parses or serializes. -/
structure Protobuf where
  clientId : Codec PClientId
  movement : Codec PMovement
  fireEvent : Codec PFireEvent
  animState : Codec PAnimState
  weapon : Codec PWeapon

end IocpDemo
