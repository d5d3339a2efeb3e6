/-
**The protobuf wire format: numbers, values and fields** (`parse_context.h`).

A message travels as a sequence of fields.  A field is a tag, which holds its number and its wire
type, and a value: a varint, eight or four bytes, bytes behind their length, or a group, which holds
fields of its own up to the tag that ends it.  Every message type reads and writes its fields with
the functions of this module, which name no message.

Main definitions:

* `IocpDemo.Wire.writeVarint`, `IocpDemo.Wire.readVarint` — numbers;
* `IocpDemo.Wire.readTag`, `IocpDemo.Wire.readSize` — a tag, of which 32 bits are kept, and the
  size of what follows;
* `IocpDemo.Wire.WireValue`, `IocpDemo.Wire.writeField` — the values of fields and how a field is
  written;
* `IocpDemo.Wire.readGroup`, `IocpDemo.Wire.readValue` — reading a value, groups up to a depth.
-/

import IocpDemo.Bytes

set_option relaxedAutoImplicit false
set_option autoImplicit false

namespace IocpDemo.Wire

/-! ### Numbers -/

/-- Base-128 digits, the lowest first; the high bit says that another one follows. -/
def writeVarint : ℕ → ℕ → List UInt8
  | 0, _ => []
  | fuel + 1, n =>
      if n < 128 then [UInt8.ofNat n]
      else UInt8.ofNat (n % 128 + 128) :: writeVarint fuel (n / 128)

/-- Reading at most `fuel` base-128 digits. -/
def readVarint : ℕ → List UInt8 → Option (ℕ × List UInt8)
  | 0, _ => none
  | _, [] => none
  | fuel + 1, b :: bs =>
      if b.toNat < 128 then some (b.toNat, bs)
      else (readVarint fuel bs).map fun r => (b.toNat - 128 + 128 * r.1, r.2)

/-- Splitting off the first `n` bytes. -/
def readBytes (n : ℕ) (bs : List UInt8) : Option (List UInt8 × List UInt8) :=
  if n ≤ bs.length then some (bs.take n, bs.drop n) else none

/-- A little-endian number. -/
def leNat : List UInt8 → ℕ
  | [] => 0
  | b :: bs => b.toNat + 256 * leNat bs

/-- The lowest `k` bytes of a number, little-endian. -/
def leBytes : ℕ → ℕ → List UInt8
  | 0, _ => []
  | k + 1, n => UInt8.ofNat n :: leBytes k (n / 256)

/-- `ReadTag`: a varint of at most five bytes, of which 32 bits are kept. -/
def readTag (bs : List UInt8) : Option (UInt32 × List UInt8) :=
  (readVarint 5 bs).map fun r => (UInt32.ofNat r.1, r.2)

/-- `INT_MAX - kSlopBytes`: the largest limit that `PushLimit` takes. -/
def maxLimit : ℕ := 2147483631

/-- `ReadSize`: a varint of at most five bytes that is no larger than a limit may be. -/
def readSize (bs : List UInt8) : Option (ℕ × List UInt8) :=
  (readVarint 5 bs).bind fun r => if r.1 ≤ maxLimit then some r else none

/-! ### Values -/

/-- The value of a field, by its wire type.  A group is given by the bytes behind the tag that
starts it, up to and with the tag that ends it. -/
inductive WireValue
  | varint (v : UInt64)
  | i64 (bytes : List UInt8)
  | len (bytes : List UInt8)
  | group (bytes : List UInt8)
  | i32 (v : UInt32)
  deriving DecidableEq, Repr

/-- The tag that starts a group. -/
def startTag (number : ℕ) : List UInt8 := writeVarint 5 (8 * number + 3)

/-- The tag that ends a group. -/
def endTag (number : ℕ) : List UInt8 := writeVarint 5 (8 * number + 4)

/-- The bytes of a field. -/
def writeField (number : ℕ) : WireValue → List UInt8
  | .varint v => writeVarint 5 (8 * number) ++ writeVarint 10 v.toNat
  | .i64 bytes => writeVarint 5 (8 * number + 1) ++ bytes
  | .len bytes => writeVarint 5 (8 * number + 2) ++ writeVarint 5 bytes.length ++ bytes
  | .group bytes => startTag number ++ bytes
  | .i32 v => writeVarint 5 (8 * number + 5) ++ leBytes 4 v.toNat

/-- A value that is not a group. -/
def readScalar (wireType : ℕ) (bs : List UInt8) : Option (WireValue × List UInt8) :=
  match wireType with
  | 0 => (readVarint 10 bs).map fun r => (.varint (UInt64.ofNat r.1), r.2)
  | 1 => (readBytes 8 bs).map fun r => (.i64 r.1, r.2)
  | 2 => (readSize bs).bind fun r => (readBytes r.1 r.2).map fun s => (.len s.1, s.2)
  | 5 => (readBytes 4 bs).map fun r => (.i32 (UInt32.ofNat (leNat r.1)), r.2)
  | _ => none

/-- The fields of the groups that are open, the innermost first, up to the tag that ends the last of
them, written as they will be serialized; `depth` groups may be open (`ParseGroup`,
`WireFormatParser`). -/
def readGroup (depth : ℕ) : ℕ → List ℕ → List UInt8 → Option (List UInt8 × List UInt8)
  | _, [], bs => some ([], bs)
  | 0, _ :: _, _ => none
  | fuel + 1, inner :: outer, bs =>
      (readTag bs).bind fun tag =>
        let number := tag.1.toNat / 8
        if number = 0 then none
        else if tag.1.toNat % 8 = 4 then
          if number = inner then
            (readGroup depth fuel outer tag.2).map fun r => (endTag number ++ r.1, r.2)
          else none
        else if tag.1.toNat % 8 = 3 then
          if outer.length + 1 < depth then
            (readGroup depth fuel (number :: inner :: outer) tag.2).map fun r =>
              (startTag number ++ r.1, r.2)
          else none
        else
          (readScalar (tag.1.toNat % 8) tag.2).bind fun v =>
            (readGroup depth fuel (inner :: outer) v.2).map fun r =>
              (writeField number v.1 ++ r.1, r.2)

/-- The value that follows a tag (`FieldParser`). -/
def readValue (depth number wireType : ℕ) (bs : List UInt8) : Option (WireValue × List UInt8) :=
  if wireType = 3 then
    if depth = 0 then none
    else (readGroup depth bs.length [number] bs).map fun r => (.group r.1, r.2)
  else readScalar wireType bs

/-- A group in a group, in each of which a number stands; the second time the depth is too small. -/
example : readValue 2 1 3 [0x13, 8, 0x81, 0, 0x14, 0x0c, 5] =
      some (.group [0x13, 8, 1, 0x14, 0x0c], [5]) ∧
    readValue 1 1 3 [0x13, 8, 0x81, 0, 0x14, 0x0c, 5] = none := by decide

end IocpDemo.Wire
