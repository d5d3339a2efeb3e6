/-
**The messages of the game on the wire** (`ShooterProtocol.pb.cc`, `parse_context.h`).

The server's theorems hold for any codec of its messages; this module gives the one the generated
code implements, so that runs of the server can be evaluated on real frames.  The parser goes over
the bytes once: it reads a tag, compares one byte of it with the tags it knows, reads the value
straight into the message, and parses a message inside up to the limit that its size sets; what it
does not know it keeps as an unknown field.  A serializer writes the fields that are present,
scalars without presence only when their bits are not all zero, and the unknown fields at the end.

The parser stores a value before it checks that the bytes reach that far, and creates a message
before it parses it.  So a parse that fails leaves what it has stored, and what that is may depend
on `kSlopBytes` bytes behind the input.

Main definitions:

* `IocpDemo.Wire.writeClientId`, …, `IocpDemo.Wire.writeWeapon` — the serializers;
* `IocpDemo.Wire.Library`, `IocpDemo.Wire.ParseContext` — what the headers of the runtime leave
  open, and how far a parse may go;
* `IocpDemo.Wire.internalParse`, `IocpDemo.Wire.parseMessage` — the loop, and the loop up to a
  limit;
* `IocpDemo.Wire.fieldClientId`, …, `IocpDemo.Wire.fieldWeapon` — the cases of each message;
* `IocpDemo.Wire.wireProtobuf` — the codecs of the messages;
* `IocpDemo.Wire.wireConfig`, `IocpDemo.Wire.wireServer` — a server that speaks the format.
-/

import IocpDemo.Server
import IocpDemo.WireValues

set_option relaxedAutoImplicit false
set_option autoImplicit false

namespace IocpDemo

namespace Wire

/-! ### Serializing -/

/-- A `float` without presence: written when its bits are not all zero. -/
def writeFloat (number : ℕ) (v : Float32Bits) : List UInt8 :=
  if v = 0 then [] else writeField number (.i32 v)

/-- A field with presence. -/
def writeOption {A : Type} (number : ℕ) (value : A → WireValue) : Option A → List UInt8
  | none => []
  | some a => writeField number (value a)

def writeClientId (m : PClientId) : List UInt8 :=
  (if m.index = 0 then [] else writeField 1 (.varint m.index.toUInt64)) ++ m.unknown

def writeVector (m : PVector) : List UInt8 :=
  writeFloat 1 m.x ++ writeFloat 2 m.y ++ writeFloat 3 m.z ++ m.unknown

def writeRotator (m : PRotator) : List UInt8 :=
  writeFloat 1 m.roll ++ writeFloat 2 m.pitch ++ writeFloat 3 m.yaw ++ m.unknown

def writeMovement (m : PMovement) : List UInt8 :=
  writeOption 1 (fun s => .len (writeClientId s)) m.id ++
    writeOption 2 (fun s => .len (writeVector s)) m.loc ++
    writeOption 3 (fun s => .len (writeRotator s)) m.rot ++
    writeOption 4 (fun s => .len (writeVector s)) m.vel ++ m.unknown

def writeFireEvent (m : PFireEvent) : List UInt8 :=
  writeOption 1 (fun s => .len (writeClientId s)) m.id ++ writeFloat 2 m.randomSeed ++
    writeOption 3 (fun s => .len (writeVector s)) m.aimDir ++
    writeOption 4 (fun s => .len (writeVector s)) m.startTrace ++ m.unknown

def writeAnimState (m : PAnimState) : List UInt8 :=
  writeOption 1 (fun s => .len (writeClientId s)) m.id ++ writeOption 2 .i32 m.aimYaw ++
    writeOption 3 .i32 m.aimPitch ++ m.unknown

def writeWeapon (m : PWeapon) : List UInt8 :=
  let flag : Bool → WireValue := fun b => .varint (if b then 1 else 0)
  writeOption 1 (fun s => .len (writeClientId s)) m.id ++ writeOption 2 flag m.startFire ++
    writeOption 3 flag m.stopFire ++ writeOption 4 flag m.changeNextWeapon ++
    writeOption 5 flag m.changePrevWeapon ++ writeOption 6 flag m.startReload ++
    writeOption 7 (fun v => .varint v.toUInt64) m.ammo ++
    writeOption 8 (fun v => .varint v.toUInt64) m.clipAmmo ++ m.unknown

/-! ### The context of a parse -/

/-- `kSlopBytes`: how many bytes may be read behind the input. -/
def kSlopBytes : ℕ := 16

/-- The default recursion limit of a parse. -/
def recursionLimit : ℕ := 100

/-- What the runtime library does and its headers leave open. -/
structure Library where
  /-- The bytes behind the input. -/
  slop : List UInt8
  length_slop : slop.length = kSlopBytes
  /-- What an `UnknownFieldSet` keeps of a field that does not end within the limit. -/
  kept : UInt32 → List UInt8 → UnknownFields

/-- A library that parses with zeros behind the input, as `buffer_` is initialized, and keeps
nothing of a malformed unknown field. -/
def Library.plain : Library where
  slop := List.replicate kSlopBytes 0
  length_slop := List.length_replicate
  kept _ _ := []

/-- `ParseContext`.  A place in the input is given by the bytes from there to the end of the slop,
and so is the limit, by their number. -/
structure ParseContext where
  lib : Library
  /-- How many messages and groups may still be entered. -/
  depth : ℕ
  limit : ℕ

namespace ParseContext

/-- `Done`: the limit or the end of the input has been reached, or passed. -/
def done (ctx : ParseContext) (bs : List UInt8) : Bool :=
  decide (bs.length ≤ max ctx.limit kSlopBytes)

/-- The loop ends well at the limit, unless it has passed the end of the input. -/
def atLimit (ctx : ParseContext) (bs : List UInt8) : Option (List UInt8) :=
  if bs.length = ctx.limit ∧ kSlopBytes ≤ bs.length then some bs else none

end ParseContext

/-! ### Reading a value -/

/-- A value that is read into the message, and where the parser stands then; the value is zero when
it does not end. -/
abbrev Loaded (A : Type) := A × Option (List UInt8)

/-- `ReadVarint64`. -/
def readVarint64 (bs : List UInt8) : Loaded UInt64 :=
  match readVarint 10 bs with
  | some r => (UInt64.ofNat r.1, some r.2)
  | none => (0, none)

/-- `ReadVarint32`, which drops the upper half. -/
def readVarint32 (bs : List UInt8) : Loaded UInt32 :=
  ((readVarint64 bs).1.toUInt32, (readVarint64 bs).2)

/-- `ReadVarint64`, stored in a `bool`. -/
def readBool (bs : List UInt8) : Loaded Bool :=
  (decide ((readVarint64 bs).1 ≠ 0), (readVarint64 bs).2)

/-- `UnalignedLoad<float>`, and the step over it. -/
def loadFloat (bs : List UInt8) : Loaded Float32Bits :=
  match readBytes 4 bs with
  | some r => (UInt32.ofNat (leNat r.1), some r.2)
  | none => (0, none)

/-! ### The loop -/

/-- The message as the parser leaves it, and where it stands, unless it has failed. -/
abbrev Parsed (M : Type) := M × Option (List UInt8)

/-- `UnknownFieldParse` of a field that ends within the limit: the field, as it will be
serialized. -/
def unknownFieldParse (ctx : ParseContext) (tag : UInt32) (bs : List UInt8) :
    Option (UnknownFields × List UInt8) :=
  let inside := bs.length - max ctx.limit kSlopBytes
  if tag >>> 3 = 0 then none
  else (readValue ctx.depth (tag >>> 3).toNat (tag &&& 7).toNat (bs.take inside)).map fun r =>
    (writeField (tag >>> 3).toNat r.1, r.2 ++ bs.drop inside)

/-- The label `handle_unusual`: a zero and the end of a group end the message, which nobody expects
here; everything else is kept. -/
def handleUnusual {M : Type} (ctx : ParseContext) (m : M) (tag : UInt32) (bs : List UInt8)
    (keep : UnknownFields → M) : Parsed M :=
  if tag = 0 ∨ tag &&& 7 = 4 then (m, none)
  else
    match unknownFieldParse ctx tag bs with
    | some r => (keep r.1, some r.2)
    | none => (keep (ctx.lib.kept tag bs), none)

/-- The loop of `_InternalParse`. -/
def internalParse {M : Type} (ctx : ParseContext)
    (field : ParseContext → M → UInt32 → List UInt8 → Parsed M) : ℕ → M → List UInt8 → Parsed M
  | 0, m, bs => (m, ctx.atLimit bs)
  | fuel + 1, m, bs =>
      if ctx.done bs then (m, ctx.atLimit bs)
      else
        match readTag bs with
        | none => (m, none)
        | some tag =>
            match field ctx m tag.1 tag.2 with
            | (m', none) => (m', none)
            | (m', some rest) => internalParse ctx field fuel m' rest

/-- `ParseMessage`: the size sets the limit. -/
def parseMessage {S : Type} (ctx : ParseContext)
    (field : ParseContext → S → UInt32 → List UInt8 → Parsed S) (m : S) (bs : List UInt8) :
    Parsed S :=
  match readSize bs with
  | none => (m, none)
  | some size =>
      if ctx.depth = 0 then (m, none)
      else
        internalParse { ctx with depth := ctx.depth - 1, limit := size.2.length - size.1 } field
          size.2.length m size.2

/-! ### The cases of each message -/

section Fields

variable (ctx : ParseContext)

/-- `PClientId::_InternalParse`. -/
def fieldClientId (m : PClientId) (tag : UInt32) (bs : List UInt8) : Parsed PClientId :=
  let unusual := handleUnusual ctx m tag bs fun u => { m with unknown := m.unknown ++ u }
  match (tag >>> 3).toNat with
  | 1 =>
      if tag.toUInt8 = 8 then ({ m with index := (readVarint32 bs).1 }, (readVarint32 bs).2)
      else unusual
  | _ => unusual

/-- `PVector::_InternalParse`. -/
def fieldVector (m : PVector) (tag : UInt32) (bs : List UInt8) : Parsed PVector :=
  let unusual := handleUnusual ctx m tag bs fun u => { m with unknown := m.unknown ++ u }
  match (tag >>> 3).toNat with
  | 1 =>
      if tag.toUInt8 = 13 then ({ m with x := (loadFloat bs).1 }, (loadFloat bs).2) else unusual
  | 2 =>
      if tag.toUInt8 = 21 then ({ m with y := (loadFloat bs).1 }, (loadFloat bs).2) else unusual
  | 3 =>
      if tag.toUInt8 = 29 then ({ m with z := (loadFloat bs).1 }, (loadFloat bs).2) else unusual
  | _ => unusual

/-- `PRotator::_InternalParse`. -/
def fieldRotator (m : PRotator) (tag : UInt32) (bs : List UInt8) : Parsed PRotator :=
  let unusual := handleUnusual ctx m tag bs fun u => { m with unknown := m.unknown ++ u }
  match (tag >>> 3).toNat with
  | 1 =>
      if tag.toUInt8 = 13 then ({ m with roll := (loadFloat bs).1 }, (loadFloat bs).2)
      else unusual
  | 2 =>
      if tag.toUInt8 = 21 then ({ m with pitch := (loadFloat bs).1 }, (loadFloat bs).2)
      else unusual
  | 3 =>
      if tag.toUInt8 = 29 then ({ m with yaw := (loadFloat bs).1 }, (loadFloat bs).2)
      else unusual
  | _ => unusual

/-- `PMovement::_InternalParse`. -/
def fieldMovement (m : PMovement) (tag : UInt32) (bs : List UInt8) : Parsed PMovement :=
  let unusual := handleUnusual ctx m tag bs fun u => { m with unknown := m.unknown ++ u }
  match (tag >>> 3).toNat with
  | 1 =>
      if tag.toUInt8 = 10 then
        let r := parseMessage ctx fieldClientId (m.id.getD {}) bs
        ({ m with id := some r.1 }, r.2)
      else unusual
  | 2 =>
      if tag.toUInt8 = 18 then
        let r := parseMessage ctx fieldVector (m.loc.getD {}) bs
        ({ m with loc := some r.1 }, r.2)
      else unusual
  | 3 =>
      if tag.toUInt8 = 26 then
        let r := parseMessage ctx fieldRotator (m.rot.getD {}) bs
        ({ m with rot := some r.1 }, r.2)
      else unusual
  | 4 =>
      if tag.toUInt8 = 34 then
        let r := parseMessage ctx fieldVector (m.vel.getD {}) bs
        ({ m with vel := some r.1 }, r.2)
      else unusual
  | _ => unusual

/-- `PFireEvent::_InternalParse`. -/
def fieldFireEvent (m : PFireEvent) (tag : UInt32) (bs : List UInt8) : Parsed PFireEvent :=
  let unusual := handleUnusual ctx m tag bs fun u => { m with unknown := m.unknown ++ u }
  match (tag >>> 3).toNat with
  | 1 =>
      if tag.toUInt8 = 10 then
        let r := parseMessage ctx fieldClientId (m.id.getD {}) bs
        ({ m with id := some r.1 }, r.2)
      else unusual
  | 2 =>
      if tag.toUInt8 = 21 then ({ m with randomSeed := (loadFloat bs).1 }, (loadFloat bs).2)
      else unusual
  | 3 =>
      if tag.toUInt8 = 26 then
        let r := parseMessage ctx fieldVector (m.aimDir.getD {}) bs
        ({ m with aimDir := some r.1 }, r.2)
      else unusual
  | 4 =>
      if tag.toUInt8 = 34 then
        let r := parseMessage ctx fieldVector (m.startTrace.getD {}) bs
        ({ m with startTrace := some r.1 }, r.2)
      else unusual
  | _ => unusual

/-- `PAnimState::_InternalParse`. -/
def fieldAnimState (m : PAnimState) (tag : UInt32) (bs : List UInt8) : Parsed PAnimState :=
  let unusual := handleUnusual ctx m tag bs fun u => { m with unknown := m.unknown ++ u }
  match (tag >>> 3).toNat with
  | 1 =>
      if tag.toUInt8 = 10 then
        let r := parseMessage ctx fieldClientId (m.id.getD {}) bs
        ({ m with id := some r.1 }, r.2)
      else unusual
  | 2 =>
      if tag.toUInt8 = 21 then ({ m with aimYaw := some (loadFloat bs).1 }, (loadFloat bs).2)
      else unusual
  | 3 =>
      if tag.toUInt8 = 29 then ({ m with aimPitch := some (loadFloat bs).1 }, (loadFloat bs).2)
      else unusual
  | _ => unusual

/-- `PWeapon::_InternalParse`. -/
def fieldWeapon (m : PWeapon) (tag : UInt32) (bs : List UInt8) : Parsed PWeapon :=
  let unusual := handleUnusual ctx m tag bs fun u => { m with unknown := m.unknown ++ u }
  match (tag >>> 3).toNat with
  | 1 =>
      if tag.toUInt8 = 10 then
        let r := parseMessage ctx fieldClientId (m.id.getD {}) bs
        ({ m with id := some r.1 }, r.2)
      else unusual
  | 2 =>
      if tag.toUInt8 = 16 then ({ m with startFire := some (readBool bs).1 }, (readBool bs).2)
      else unusual
  | 3 =>
      if tag.toUInt8 = 24 then ({ m with stopFire := some (readBool bs).1 }, (readBool bs).2)
      else unusual
  | 4 =>
      if tag.toUInt8 = 32 then
        ({ m with changeNextWeapon := some (readBool bs).1 }, (readBool bs).2)
      else unusual
  | 5 =>
      if tag.toUInt8 = 40 then
        ({ m with changePrevWeapon := some (readBool bs).1 }, (readBool bs).2)
      else unusual
  | 6 =>
      if tag.toUInt8 = 48 then ({ m with startReload := some (readBool bs).1 }, (readBool bs).2)
      else unusual
  | 7 =>
      if tag.toUInt8 = 56 then ({ m with ammo := some (readVarint32 bs).1 }, (readVarint32 bs).2)
      else unusual
  | 8 =>
      if tag.toUInt8 = 64 then
        ({ m with clipAmmo := some (readVarint32 bs).1 }, (readVarint32 bs).2)
      else unusual
  | _ => unusual

end Fields

/-! ### The codecs -/

/-- `ParseFromArray`: the message is cleared and the bytes are parsed into it. -/
def parseFromArray {M : Type} (lib : Library) (default : M)
    (field : ParseContext → M → UInt32 → List UInt8 → Parsed M) (bs : List UInt8) : M × Bool :=
  let r := internalParse ⟨lib, recursionLimit, kSlopBytes⟩ field bs.length default (bs ++ lib.slop)
  (r.1, r.2.isSome)

/-- A codec from the cases of the parser and the serializer. -/
def wireCodec {M : Type} (default : M)
    (field : ParseContext → M → UInt32 → List UInt8 → Parsed M) (write : M → List UInt8) :
    Codec M where
  parseFromArray := parseFromArray .plain default field
  byteSizeLong m := (write m).length
  serialize := write

/-- **The codecs of the wire format.** -/
def wireProtobuf : Protobuf where
  clientId := wireCodec {} fieldClientId writeClientId
  movement := wireCodec {} fieldMovement writeMovement
  fireEvent := wireCodec {} fieldFireEvent writeFireEvent
  animState := wireCodec {} fieldAnimState writeAnimState
  weapon := wireCodec {} fieldWeapon writeWeapon

/-- A login of player 300 with a position: field 1 holds `Id.Index`, field 2 the position. -/
example : wireProtobuf.movement.parseFromArray
    [0x0a, 3, 8, 0xac, 2, 0x12, 5, 0x0d, 0, 0, 0x80, 0x3f] =
      ({ id := some { index := 300 }, loc := some { x := 0x3f800000 } }, true) := by decide +kernel

/-- An `Id` that is cut off is created, and has the index that was read of it. -/
example : wireProtobuf.movement.parseFromArray [0x0a] = ({ id := some {} }, false) ∧
    wireProtobuf.movement.parseFromArray [0x0a, 3, 8, 0x85] =
      ({ id := some { index := 5 } }, false) := by decide +kernel

/-- The runtime of the wire format, with arguments copied first and the map iterated in insertion
order. -/
def wireRuntime : Runtime where
  proto := wireProtobuf
  argOrder _ := .copyFirst
  iteration r := r
  iteration_perm r := List.Perm.refl r

/-! ### Pieces of runs -/

/-- A server with the runtime of the wire format, and the listening socket 0. -/
def wireConfig : Config := ⟨wireRuntime, 0⟩

/-- The state in which a server with `n` slots and one worker thread starts. -/
def wireServer (n : ℕ) : Server := initServer (fun _ _ => 0) n 1

/-- `AcceptThread` serving a client, once it has found a free slot. -/
def acceptEvents (sock : Socket) : List Event :=
  [.wsaAccept (some sock), .connectClient, .checkConnected, .countClient, .greetClient,
    .acceptReceive true]

/-- The oldest outstanding receive completes with a frame, and the worker thread serves it. -/
def serveEvents (frame : List UInt8) : List Event :=
  [.completeRecv 0 true frame, .workTop 0, .getCompletion 0, .deSerialize 0, .workReceive 0 true]

/-- The oldest outstanding receive fails, and the worker thread frees the slot. -/
def closeEvents : List Event :=
  [.completeRecv 0 false [], .workTop 0, .getCompletion 0, .closeSocket 0, .forgetSocket 0]

/-- `SendThread` sending the next packet; the result of the send is a failure. -/
def sendEvents : List Event := [.sendTop, .popPacket, .sendPacket, .sendCopy, .sendWsa none]

end Wire

end IocpDemo
