/-
**Sizes and serialization in two passes** (`ShooterProtocol.pb.cc`, `wire_format_lite.h`,
`coded_stream.h`).

The generated serializer goes over a message twice.  `ByteSizeLong` adds up what the fields take,
finds the length of a varint from its highest bit, and stores the size of every message inside the
message; `_InternalSerialize` then writes the fields, and in front of a message inside it the size
that was stored.  `SerializePacket` takes the size of its packet from the first pass and the bytes
from the second, so a disagreement of the two would spoil every packet.

This module takes both passes from the generated code and proves that together they are the wire
format of `WireFormat.lean`, where the size is the length of what is written; a server that runs the
generated code makes the same steps.

Main definitions:

* `IocpDemo.Wire.varintSize32`, `IocpDemo.Wire.lengthDelimitedSize` — sizes without writing;
* `IocpDemo.Wire.byteSizeMovement`, `IocpDemo.Wire.serializeMovement` and their like — the two
  passes of each message;
* `IocpDemo.Wire.twoPassProtobuf` — the codecs of the generated code.

Main results:

* `IocpDemo.Wire.varintSize32_eq` — the size from the highest bit is the length of the varint;
* `IocpDemo.Wire.agree_message` — the size stored for a message is the length of what follows it;
* `IocpDemo.Wire.generated_code_is_wire_format` — **the two passes agree**, for every message below
  two gigabytes and in every step of a server;
* `IocpDemo.Wire.generated_parser_reads_wire_format` — **the generated parsers read the wire
  format**, and what the generated serializers write.
-/

import IocpDemo.Merging
import IocpDemo.PacketSizes
import Mathlib.Data.Nat.Log

set_option relaxedAutoImplicit false
set_option autoImplicit false

namespace IocpDemo.Wire

open Bytes

/-! ### The size of a varint -/

/-- `Bits::Log2FloorNonZero`: the number of the highest bit that is set. -/
def log2FloorNonZero (n : UInt32) : UInt32 := UInt32.ofNat n.toNat.log2

/-- `VarintSize32`. -/
def varintSize32 (value : UInt32) : ℕ := ((log2FloorNonZero (value ||| 1) * 9 + 73) / 64).toNat

/-- `VarintSize32PlusOne`: the size of a field, whose tag takes the other byte. -/
def varintSize32PlusOne (value : UInt32) : ℕ :=
  ((log2FloorNonZero (value ||| 1) * 9 + 73 + 64) / 64).toNat

theorem log2_or_one (n : ℕ) : (n ||| 1).log2 = n.log2 := by
  rcases Nat.eq_zero_or_pos n with rfl | hn
  · decide
  · have hor : n ||| 1 ≠ 0 := by
      have := Nat.left_le_or (n := n) (m := 1)
      omega
    refine (Nat.log2_eq_iff hor).2 ⟨?_, ?_⟩
    · exact Nat.le_trans (Nat.log2_self_le (by omega)) Nat.left_le_or
    · exact Nat.or_lt_two_pow Nat.lt_log2_self (Nat.one_lt_two_pow (by omega))

theorem log2_div_128 {n : ℕ} (hn : 128 ≤ n) : n.log2 = (n / 128).log2 + 7 := by
  have h : (128 : ℕ) = 2 ^ 7 := rfl
  have hlog : 7 ≤ n.log2 := (Nat.le_log2 (by omega)).2 hn
  rw [Nat.log2_eq_log_two] at hlog
  rw [Nat.log2_eq_log_two, Nat.log2_eq_log_two, h, Nat.log_div_base_pow]
  omega

/-- **A varint has one byte for each seven bits of the number.** -/
theorem length_writeVarint_eq {k n : ℕ} (hk : 0 < k) (hn : n < 128 ^ k) :
    (writeVarint k n).length = n.log2 / 7 + 1 := by
  induction k generalizing n with
  | zero => omega
  | succ k ih =>
      rcases Nat.lt_or_ge n 128 with hsmall | hlarge
      · have hlog : n.log2 < 7 := by
          rcases Nat.eq_zero_or_pos n with rfl | hpos
          · decide
          · exact (Nat.log2_lt (by omega)).2 hsmall
        rw [writeVarint_succ_of_lt hsmall, List.length_singleton]
        omega
      · have hdiv : n / 128 < 128 ^ k := by
          rw [Nat.pow_succ] at hn
          exact Nat.div_lt_of_lt_mul (by rw [Nat.mul_comm]; exact hn)
        have hk : 0 < k := by
          rcases Nat.eq_zero_or_pos k with rfl | hk
          · omega
          · exact hk
        rw [writeVarint_succ_of_le hlarge, List.length_cons, ih hk hdiv, log2_div_128 hlarge]
        omega

theorem log2_toNat_lt (value : UInt32) : value.toNat.log2 < 32 := by
  rcases Nat.eq_zero_or_pos value.toNat with h | h
  · simp [h]
  · exact (Nat.log2_lt (by omega)).2 value.toNat_lt

/-- The sums stay far below `2 ^ 32`. -/
theorem log2_sums (value : UInt32) :
    varintSize32 value = (value.toNat.log2 * 9 + 73) / 64 ∧
      varintSize32PlusOne value = (value.toNat.log2 * 9 + 73 + 64) / 64 := by
  have hlog := log2_toNat_lt value
  have hhigh : (log2FloorNonZero (value ||| 1)).toNat = value.toNat.log2 := by
    have hlt : value.toNat.log2 < 4294967296 := by omega
    simpa [log2FloorNonZero, log2_or_one] using hlt
  have hmul : value.toNat.log2 * 9 % 4294967296 = value.toNat.log2 * 9 :=
    Nat.mod_eq_of_lt (by omega)
  have hadd : (value.toNat.log2 * 9 + 73) % 4294967296 = value.toNat.log2 * 9 + 73 :=
    Nat.mod_eq_of_lt (by omega)
  have hone : (value.toNat.log2 * 9 + 73 + 64) % 4294967296 = value.toNat.log2 * 9 + 73 + 64 :=
    Nat.mod_eq_of_lt (by omega)
  simp only [varintSize32, varintSize32PlusOne, UInt32.toNat_div, UInt32.toNat_add,
    UInt32.toNat_mul, hhigh, UInt32.reduceToNat, Nat.reducePow, hmul, hadd, hone, and_self]

/-- **Nine sixty-fourths are a seventh** for the 32 numbers that a highest bit may have. -/
theorem nine_sixtyfourths : ∀ l < 32, (l * 9 + 73) / 64 = l / 7 + 1 := by decide

/-- The size that is computed is that of the varint written. -/
theorem varintSize32_eq (value : UInt32) :
    varintSize32 value = (writeVarint 5 value.toNat).length := by
  have hvalue : value.toNat < 128 ^ 5 := Nat.lt_trans value.toNat_lt (by decide)
  rw [(log2_sums value).1, nine_sixtyfourths _ (log2_toNat_lt value),
    length_writeVarint_eq (by decide) hvalue]

theorem varintSize32PlusOne_eq (value : UInt32) :
    varintSize32PlusOne value = 1 + varintSize32 value := by
  rw [(log2_sums value).1, (log2_sums value).2]
  omega

/-! ### `ByteSizeLong` -/

/-- `LengthDelimitedSize`, which cuts the length to 32 bits to find the size of its varint. -/
def lengthDelimitedSize (length : ℕ) : ℕ := length + varintSize32 (UInt32.ofNat length)

/-- What a `float` without presence adds to the size: `1 + 4`, unless its bits are all zero. -/
def floatSize (v : Float32Bits) : ℕ := if v ≠ 0 then 1 + 4 else 0

/-- What a field with presence adds to the size. -/
def optionSize {A : Type} (size : A → ℕ) : Option A → ℕ
  | none => 0
  | some a => size a

/-- `1 + MessageSize`. -/
def messageSize {S : Type} (byteSizeLong : S → ℕ) (s : S) : ℕ :=
  1 + lengthDelimitedSize (byteSizeLong s)

/-- `PClientId::ByteSizeLong`. -/
def byteSizeClientId (m : PClientId) : ℕ :=
  (if m.index ≠ 0 then varintSize32PlusOne m.index else 0) + m.unknown.length

/-- `PVector::ByteSizeLong`. -/
def byteSizeVector (m : PVector) : ℕ :=
  floatSize m.x + floatSize m.y + floatSize m.z + m.unknown.length

/-- `PRotator::ByteSizeLong`. -/
def byteSizeRotator (m : PRotator) : ℕ :=
  floatSize m.roll + floatSize m.pitch + floatSize m.yaw + m.unknown.length

/-- `PMovement::ByteSizeLong`. -/
def byteSizeMovement (m : PMovement) : ℕ :=
  optionSize (messageSize byteSizeClientId) m.id + optionSize (messageSize byteSizeVector) m.loc +
    optionSize (messageSize byteSizeRotator) m.rot + optionSize (messageSize byteSizeVector) m.vel +
    m.unknown.length

/-- `PFireEvent::ByteSizeLong`, which leaves `RandomSeed` to the end. -/
def byteSizeFireEvent (m : PFireEvent) : ℕ :=
  optionSize (messageSize byteSizeClientId) m.id +
    optionSize (messageSize byteSizeVector) m.aimDir +
    optionSize (messageSize byteSizeVector) m.startTrace + floatSize m.randomSeed +
    m.unknown.length

/-- `PAnimState::ByteSizeLong`. -/
def byteSizeAnimState (m : PAnimState) : ℕ :=
  optionSize (messageSize byteSizeClientId) m.id + optionSize (fun _ => 1 + 4) m.aimYaw +
    optionSize (fun _ => 1 + 4) m.aimPitch + m.unknown.length

/-- `PWeapon::ByteSizeLong`. -/
def byteSizeWeapon (m : PWeapon) : ℕ :=
  optionSize (messageSize byteSizeClientId) m.id + optionSize (fun _ => 1 + 1) m.startFire +
    optionSize (fun _ => 1 + 1) m.stopFire + optionSize (fun _ => 1 + 1) m.changeNextWeapon +
    optionSize (fun _ => 1 + 1) m.changePrevWeapon + optionSize (fun _ => 1 + 1) m.startReload +
    optionSize varintSize32PlusOne m.ammo + optionSize varintSize32PlusOne m.clipAmmo +
    m.unknown.length

/-! ### `_InternalSerialize` -/

/-- `GetCachedSize`, as `InternalWriteMessage` writes it: `ByteSizeLong` has stored it as an
`int`. -/
def cachedSize (byteSizeLong : ℕ) : UInt32 := UInt32.ofNat byteSizeLong

/-- `InternalWriteMessage`: the tag, the size that the message has stored, and the message. -/
def internalWriteMessage {S : Type} (number : ℕ) (byteSizeLong : S → ℕ)
    (internalSerialize : S → List UInt8) : Option S → List UInt8
  | none => []
  | some s => writeVarint 5 (8 * number + 2) ++
      writeVarint 5 (cachedSize (byteSizeLong s)).toNat ++ internalSerialize s

/-- `PMovement::_InternalSerialize`. -/
def serializeMovement (m : PMovement) : List UInt8 :=
  internalWriteMessage 1 byteSizeClientId writeClientId m.id ++
    internalWriteMessage 2 byteSizeVector writeVector m.loc ++
    internalWriteMessage 3 byteSizeRotator writeRotator m.rot ++
    internalWriteMessage 4 byteSizeVector writeVector m.vel ++ m.unknown

/-- `PFireEvent::_InternalSerialize`. -/
def serializeFireEvent (m : PFireEvent) : List UInt8 :=
  internalWriteMessage 1 byteSizeClientId writeClientId m.id ++ writeFloat 2 m.randomSeed ++
    internalWriteMessage 3 byteSizeVector writeVector m.aimDir ++
    internalWriteMessage 4 byteSizeVector writeVector m.startTrace ++ m.unknown

/-- `PAnimState::_InternalSerialize`. -/
def serializeAnimState (m : PAnimState) : List UInt8 :=
  internalWriteMessage 1 byteSizeClientId writeClientId m.id ++ writeOption 2 .i32 m.aimYaw ++
    writeOption 3 .i32 m.aimPitch ++ m.unknown

/-- `PWeapon::_InternalSerialize`. -/
def serializeWeapon (m : PWeapon) : List UInt8 :=
  internalWriteMessage 1 byteSizeClientId writeClientId m.id ++
    writeOption 2 flagValue m.startFire ++ writeOption 3 flagValue m.stopFire ++
    writeOption 4 flagValue m.changeNextWeapon ++ writeOption 5 flagValue m.changePrevWeapon ++
    writeOption 6 flagValue m.startReload ++ writeOption 7 countValue m.ammo ++
    writeOption 8 countValue m.clipAmmo ++ m.unknown

/-- The codec of a message type as its generated code works: the sizes first, then the bytes. -/
def twoPassCodec {M : Type} (default : M)
    (field : ParseContext → M → UInt32 → List UInt8 → Parsed M) (byteSizeLong : M → ℕ)
    (internalSerialize : M → List UInt8) : Codec M where
  parseFromArray := parseFromArray .plain default field
  byteSizeLong := byteSizeLong
  serialize := internalSerialize

/-- **The codecs of the generated code.** -/
def twoPassProtobuf : Protobuf where
  clientId := twoPassCodec {} fieldClientId byteSizeClientId writeClientId
  movement := twoPassCodec {} fieldMovement byteSizeMovement serializeMovement
  fireEvent := twoPassCodec {} fieldFireEvent byteSizeFireEvent serializeFireEvent
  animState := twoPassCodec {} fieldAnimState byteSizeAnimState serializeAnimState
  weapon := twoPassCodec {} fieldWeapon byteSizeWeapon serializeWeapon

/-! ### The two passes agree -/

/-- The protobuf runtime takes no message of two gigabytes or more. -/
def maxMessageSize : ℕ := 2147483648

/-- A size that is added up and the bytes that are written with it are those of the one pass, unless
there are two gigabytes or more of either. -/
def Agree (size : ℕ) (serialized written : List UInt8) : Prop :=
  size < maxMessageSize ∨ written.length < maxMessageSize →
    size = written.length ∧ serialized = written

namespace Agree

variable {a b : ℕ} {s t w v : List UInt8}

theorem append (ha : Agree a s w) (hb : Agree b t v) : Agree (a + b) (s ++ t) (w ++ v) := by
  intro h
  rw [List.length_append] at h ⊢
  obtain ⟨hsize, rfl⟩ := ha (h.imp (by omega) (by omega))
  obtain ⟨hsize', rfl⟩ := hb (h.imp (by omega) (by omega))
  exact ⟨by omega, rfl⟩

theorem of_length (h : a = w.length) : Agree a w w := fun _ => ⟨h, rfl⟩

theorem unknown (u : UnknownFields) : Agree u.length u u := of_length rfl

end Agree

/-- The tag of a field of the game's messages is one byte. -/
theorem length_writeField_tag {number : ℕ} (h : number ≤ 8) (v : WireValue) :
    (writeField number v).length = 1 + v.body.length := by
  have hlt := v.wireType_lt
  rw [length_writeField, writeVarint_succ_of_lt (by omega), List.length_singleton]

theorem floatSize_eq {number : ℕ} (h : number ≤ 8) (v : Float32Bits) :
    floatSize v = (writeFloat number v).length := by
  unfold floatSize writeFloat
  by_cases hv : v = 0
  · simp [hv]
  · rw [if_pos hv, if_neg hv, length_writeField_tag h]
    simp [WireValue.body]

theorem optionSize_eq {A : Type} {size : A → ℕ} {number : ℕ} {value : A → WireValue}
    (h : ∀ a, size a = (writeField number (value a)).length) (o : Option A) :
    optionSize size o = (writeOption number value o).length := by
  cases o with
  | none => rfl
  | some a => exact h a

/-- A varint of 32 bits, as a field. -/
theorem varintFieldSize_eq {number : ℕ} (h : number ≤ 8) (v : UInt32) :
    varintSize32PlusOne v = (writeField number (.varint v.toUInt64)).length := by
  have hlt := v.toNat_lt
  have hfive : v.toNat < 128 ^ 5 := Nat.lt_trans hlt (by decide)
  have hten : v.toNat < 128 ^ 10 := Nat.lt_trans hlt (by decide)
  rw [length_writeField_tag h, varintSize32PlusOne_eq, varintSize32_eq, WireValue.body,
    UInt32.toNat_toUInt64, length_writeVarint_eq (by decide) hfive,
    length_writeVarint_eq (by decide) hten]

theorem byteSizeClientId_eq (m : PClientId) : byteSizeClientId m = (writeClientId m).length := by
  unfold byteSizeClientId writeClientId
  rw [List.length_append]
  by_cases hindex : m.index = 0
  · simp [hindex]
  · rw [if_pos hindex, if_neg hindex, varintFieldSize_eq (by decide : (1 : ℕ) ≤ 8)]

theorem byteSizeVector_eq (m : PVector) : byteSizeVector m = (writeVector m).length := by
  unfold byteSizeVector writeVector
  rw [List.length_append, List.length_append, List.length_append,
    floatSize_eq (by decide : (1 : ℕ) ≤ 8), floatSize_eq (by decide : (2 : ℕ) ≤ 8),
    floatSize_eq (by decide : (3 : ℕ) ≤ 8)]

theorem byteSizeRotator_eq (m : PRotator) : byteSizeRotator m = (writeRotator m).length :=
  byteSizeVector_eq (rotatorEquiv m)

/-- **The size that a message has stored is the length of what is written of it**, so the bytes that
follow the size are that many. -/
theorem agree_message {S : Type} {byteSizeLong : S → ℕ} {write : S → List UInt8} {number : ℕ}
    (hexact : ∀ s, byteSizeLong s = (write s).length) (hnumber : number ≤ 8) (o : Option S) :
    Agree (optionSize (messageSize byteSizeLong) o)
      (internalWriteMessage number byteSizeLong write o)
      (writeOption number (fun s => .len (write s)) o) := by
  cases o with
  | none => exact Agree.of_length rfl
  | some s =>
      intro h
      have htag := length_writeField_tag hnumber (.len (write s))
      simp only [WireValue.body, List.length_append] at htag
      simp only [optionSize, messageSize, lengthDelimitedSize, internalWriteMessage, writeOption,
        cachedSize, hexact] at h ⊢
      have hmax : maxMessageSize = 2147483648 := rfl
      have hlt : (write s).length < 4294967296 := by omega
      have hcached : (UInt32.ofNat (write s).length).toNat = (write s).length := by
        simpa using hlt
      rw [htag, varintSize32_eq, hcached]
      exact ⟨by omega, rfl⟩

theorem agree_movement (m : PMovement) :
    Agree (byteSizeMovement m) (serializeMovement m) (writeMovement m) :=
  ((((agree_message byteSizeClientId_eq (by decide) m.id).append
    (agree_message byteSizeVector_eq (by decide) m.loc)).append
    (agree_message byteSizeRotator_eq (by decide) m.rot)).append
    (agree_message byteSizeVector_eq (by decide) m.vel)).append (Agree.unknown m.unknown)

theorem agree_fireEvent (m : PFireEvent) :
    Agree (byteSizeFireEvent m) (serializeFireEvent m) (writeFireEvent m) := by
  have h := ((((agree_message byteSizeClientId_eq (by decide : (1 : ℕ) ≤ 8) m.id).append
    (Agree.of_length (floatSize_eq (by decide : (2 : ℕ) ≤ 8) m.randomSeed))).append
    (agree_message byteSizeVector_eq (by decide : (3 : ℕ) ≤ 8) m.aimDir)).append
    (agree_message byteSizeVector_eq (by decide : (4 : ℕ) ≤ 8) m.startTrace)).append
    (Agree.unknown m.unknown)
  -- the sizes are added up in another order than the fields are written
  have hsum : byteSizeFireEvent m = optionSize (messageSize byteSizeClientId) m.id +
      floatSize m.randomSeed + optionSize (messageSize byteSizeVector) m.aimDir +
      optionSize (messageSize byteSizeVector) m.startTrace + m.unknown.length := by
    unfold byteSizeFireEvent
    omega
  rw [hsum]
  exact h

theorem agree_animState (m : PAnimState) :
    Agree (byteSizeAnimState m) (serializeAnimState m) (writeAnimState m) := by
  have hfloat : ∀ {number : ℕ}, number ≤ 8 → ∀ v : Float32Bits,
      1 + 4 = (writeField number (.i32 v)).length := by
    intro number hnumber v
    rw [length_writeField_tag hnumber]
    simp [WireValue.body]
  exact (((agree_message byteSizeClientId_eq (by decide) m.id).append
    (Agree.of_length (optionSize_eq (hfloat (by decide)) m.aimYaw))).append
    (Agree.of_length (optionSize_eq (hfloat (by decide)) m.aimPitch))).append
    (Agree.unknown m.unknown)

theorem agree_weapon (m : PWeapon) :
    Agree (byteSizeWeapon m) (serializeWeapon m) (writeWeapon m) := by
  have hflag : ∀ {number : ℕ}, number ≤ 8 → ∀ o : Option Bool,
      Agree (optionSize (fun _ => 1 + 1) o) (writeOption number flagValue o)
        (writeOption number flagValue o) := by
    intro number hnumber o
    refine Agree.of_length (optionSize_eq (fun b => ?_) o)
    rw [length_writeField_tag hnumber]
    cases b <;> rfl
  have hcount : ∀ {number : ℕ}, number ≤ 8 → ∀ o : Option UInt32,
      Agree (optionSize varintSize32PlusOne o) (writeOption number countValue o)
        (writeOption number countValue o) :=
    fun hnumber o => Agree.of_length (optionSize_eq (varintFieldSize_eq hnumber) o)
  rw [writeWeapon_eq]
  exact ((((((((agree_message byteSizeClientId_eq (by decide) m.id).append
    (hflag (by decide) m.startFire)).append (hflag (by decide) m.stopFire)).append
    (hflag (by decide) m.changeNextWeapon)).append (hflag (by decide) m.changePrevWeapon)).append
    (hflag (by decide) m.startReload)).append (hcount (by decide) m.ammo)).append
    (hcount (by decide) m.clipAmmo)).append (Agree.unknown m.unknown)

/-- Two codecs that parse alike, and agree on every message that either of them finds smaller than
two gigabytes: on its size, and on its bytes, which are as many as its size says. -/
structure SameMessages {M : Type} (c c' : Codec M) : Prop where
  parse : c.parseFromArray = c'.parseFromArray
  agree : ∀ m, c.byteSizeLong m < maxMessageSize ∨ c'.byteSizeLong m < maxMessageSize →
    c.byteSizeLong m = c'.byteSizeLong m ∧ c.serialize m = c'.serialize m ∧
      (c.serialize m).length = c.byteSizeLong m

/-- The same of all message types. -/
structure SameProtobuf (P P' : Protobuf) : Prop where
  clientId : SameMessages P.clientId P'.clientId
  movement : SameMessages P.movement P'.movement
  fireEvent : SameMessages P.fireEvent P'.fireEvent
  animState : SameMessages P.animState P'.animState
  weapon : SameMessages P.weapon P'.weapon

theorem SameMessages.of_agree {M : Type} {default : M}
    {field : ParseContext → M → UInt32 → List UInt8 → Parsed M} {byteSizeLong : M → ℕ}
    {internalSerialize write : M → List UInt8}
    (h : ∀ m, Agree (byteSizeLong m) (internalSerialize m) (write m)) :
    SameMessages (twoPassCodec default field byteSizeLong internalSerialize)
      (wireCodec default field write) where
  parse := rfl
  agree m hm := by
    obtain ⟨hsize, hbytes⟩ := h m hm
    exact ⟨hsize, hbytes, (congrArg List.length hbytes).trans hsize.symm⟩

theorem same_twoPassProtobuf : SameProtobuf twoPassProtobuf wireProtobuf where
  clientId := SameMessages.of_agree fun m => Agree.of_length (byteSizeClientId_eq m)
  movement := SameMessages.of_agree agree_movement
  fireEvent := SameMessages.of_agree agree_fireEvent
  animState := SameMessages.of_agree agree_animState
  weapon := SameMessages.of_agree agree_weapon

/-! ### A server with the generated code -/

section Server

variable {P P' : Protobuf}

theorem SameMessages.serializePacket {M : Type} {c c' : Codec M} (h : SameMessages c c') {m : M}
    (hm : c'.byteSizeLong m < maxMessageSize) (pType : UInt8) (clientIndex : UInt16) :
    serializePacket c m pType clientIndex = serializePacket c' m pType clientIndex := by
  obtain ⟨hsize, hbytes, -⟩ := h.agree m (Or.inr hm)
  simp only [IocpDemo.serializePacket, Codec.serializeToArray, hsize, hbytes]

/-- What is relayed of a frame is far below two gigabytes, whether the frame is parsed or not. -/
theorem lt_maxMessageSize_of_compact {M : Type} [HasId M] {c : Codec M} (hc : c.Compact)
    (o : ArgOrder) {data : List UInt8} (hdata : data.length ≤ 65535) :
    c.byteSizeLong (serializeArg o (c.parseFromArray data).1) < maxMessageSize := by
  have hrelayed := hc.byteSizeLong_serializeArg_le o (c.parseFromArray data).1
  have hleft := hc.leaves_le data
  have hmax : maxMessageSize = 2147483648 := rfl
  omega

theorem SameMessages.recvRelay {M : Type} [HasId M] {c c' : Codec M} (h : SameMessages c c')
    (hc : c'.Compact) (o : ArgOrder) (pType : EPacketType) (reliable : Bool) {data : List UInt8}
    (hdata : data.length ≤ 65535) (q : SendQue) :
    recvRelay c o pType reliable data q = recvRelay c' o pType reliable data q := by
  rw [recvRelay_eq, recvRelay_eq, h.parse,
    h.serializePacket (lt_maxMessageSize_of_compact hc o hdata)]

theorem SameProtobuf.rosterPacket (h : SameProtobuf P P') (hP : P'.Compact) (target : Int32) :
    rosterPacket P target = rosterPacket P' target := by
  funext player
  have hmax : maxMessageSize = 2147483648 := rfl
  have hsmall := hP.rosterMessage_le player
  rw [rosterPacket_eq, rosterPacket_eq, h.movement.serializePacket (by omega)]

theorem SameProtobuf.recvLoginPacket (h : SameProtobuf P P') (hP : P'.Compact) (R : Runtime)
    {data : List UInt8} (hdata : data.length ≤ 65535) (q : SendQue) :
    recvLoginPacket { R with proto := P } data q =
      recvLoginPacket { R with proto := P' } data q := by
  rw [recvLoginPacket_eq, recvLoginPacket_eq]
  simp only [h.movement.parse, h.rosterPacket hP]
  rw [h.movement.serializePacket (lt_maxMessageSize_of_compact hP.movement _ hdata)]

theorem SameProtobuf.deSerializePacket (h : SameProtobuf P P') (hP : P'.Compact) (R : Runtime)
    (packetID : UInt16) {data : List UInt8} (hdata : data.length ≤ 65535) (q : SendQue) :
    deSerializePacket { R with proto := P } packetID data q =
      deSerializePacket { R with proto := P' } packetID data q := by
  unfold IocpDemo.deSerializePacket
  cases findFunc packetID with
  | none => rfl
  | some f =>
      cases f with
      | recvLoginPacket => exact h.recvLoginPacket hP R hdata q
      | recvFireEventPacket => exact h.fireEvent.recvRelay hP.fireEvent _ _ _ hdata q
      | recvMovementPacket => exact h.movement.recvRelay hP.movement _ _ _ hdata q
      | recvAnimPacket => exact h.animState.recvRelay hP.animState _ _ _ hdata q
      | recvWeaponPacket => exact h.weapon.recvRelay hP.weapon _ _ _ hdata q

theorem SameProtobuf.onConnected (h : SameProtobuf P P')
    (hconn : ∀ index, P'.clientId.byteSizeLong (connMessage index) < maxMessageSize) (R : Runtime)
    (index : UInt16) (q : SendQue) :
    onConnected { R with proto := P } index q = onConnected { R with proto := P' } index q := by
  simp only [IocpDemo.onConnected, connPacket_eq, h.clientId.serializePacket (hconn index)]

/-- A server does not notice which of the two serializers it runs with. -/
theorem SameProtobuf.step (h : SameProtobuf P P') (hP : P'.Compact)
    (hconn : ∀ index, P'.clientId.byteSizeLong (connMessage index) < maxMessageSize) (R : Runtime)
    (listenSocket : Socket) (s : Server) (e : Event) :
    step ⟨{ R with proto := P }, listenSocket⟩ s e =
      step ⟨{ R with proto := P' }, listenSocket⟩ s e := by
  cases e with
  | greetClient =>
      simp only [IocpDemo.step, Server.greetClient, h.onConnected hconn]
  | deSerialize w =>
      have hpayload : ∀ (ctx : ClientContext) (dataSize : UInt16),
          (payloadOf ctx dataSize).length ≤ 65535 := by
        intro ctx dataSize
        have := dataSize.toNat_lt
        simp only [payloadOf, Mem.length_read]
        omega
      simp only [IocpDemo.step, Server.deSerialize, Server.dispatched,
        h.deSerializePacket hP R _ (hpayload _ _)]
  | _ => rfl

end Server

/-- **The two passes of the generated serializer agree.**  Of every message of less than two
gigabytes, `ByteSizeLong` is the number of bytes that `_InternalSerialize` writes, and these, with
the stored sizes in front of the messages inside, are the wire format of the message; and a server
whose messages are sized and written in two passes makes, in whatever state and whatever is done
next, the step of one whose messages are written in one. -/
theorem generated_code_is_wire_format :
    SameProtobuf twoPassProtobuf wireProtobuf ∧
      ∀ (R : Runtime) (listenSocket : Socket),
        step ⟨{ R with proto := twoPassProtobuf }, listenSocket⟩ =
          step ⟨{ R with proto := wireProtobuf }, listenSocket⟩ := by
  refine ⟨same_twoPassProtobuf, fun R listenSocket => ?_⟩
  funext s e
  refine same_twoPassProtobuf.step compact_wireProtobuf (fun index => ?_) R listenSocket s e
  have hle := lawful_wireProtobuf.connMessage_le index
  have hmax : maxMessage = 65531 := rfl
  have hlimit : maxMessageSize = 2147483648 := rfl
  omega

/-- A size is stored in 32 bits, and the varint that is counted for it is that of the 32 bits. -/
example : lengthDelimitedSize (2 ^ 32 + 5) = 2 ^ 32 + 5 + 1 ∧ cachedSize (2 ^ 32 + 5) = 5 := by
  decide +kernel

/-! ### The generated parsers -/

/-- A generated parser accepts what is a sequence of fields that can be set, with the message they
set, whatever the runtime library leaves open; and it reads back what the two passes of the
generated serializer write of a well-formed message. -/
structure GeneratedParser {M : Type} (default : M)
    (field : ParseContext → M → UInt32 → List UInt8 → Parsed M)
    (set : M → ℕ → WireValue → M × Bool) (generated : Codec M) (Wf : M → Prop) : Prop where
  accepts : ∀ (lib : Library) (bs : List UInt8),
    accepted (parseFromArray lib default field bs) =
      accepted (mergeFrom recursionLimit set default bs)
  roundTrips : ∀ (lib : Library) (m : M), Wf m → generated.byteSizeLong m ≤ maxLimit →
    parseFromArray lib default field (generated.serialize m) = (m, true)

theorem Generated.generatedParser {M : Type} {default : M} {set : M → ℕ → WireValue → M × Bool}
    {write internalSerialize : M → List UInt8} {byteSizeLong : M → ℕ} {Wf : M → Prop}
    {field : ParseContext → M → UInt32 → List UInt8 → Parsed M}
    (h : Generated recursionLimit set write Wf field)
    (hM : MessageFormat recursionLimit default set write Wf)
    (hagree : ∀ m, Agree (byteSizeLong m) (internalSerialize m) (write m)) :
    GeneratedParser default field set (twoPassCodec default field byteSizeLong internalSerialize)
      Wf where
  accepts lib bs := h.parse_eq lib default bs
  roundTrips lib m hwf hsize := by
    have hlimit : maxLimit < maxMessageSize := by decide
    obtain ⟨hlength, hbytes⟩ := hagree m (Or.inl (Nat.lt_of_le_of_lt hsize hlimit))
    have hfits : (write m).length ≤ maxLimit := hlength ▸ hsize
    exact (congrArg (parseFromArray lib default field) hbytes).trans (h.roundTrip hM hwf hfits)

/-- **The generated parsers read the wire format.**  On any bytes, with whatever behind them, the
one pass of each `_InternalParse` accepts exactly the sequences of fields, groups up to the
recursion limit and unknown fields among them, of which the parts are messages themselves, and sets
the same fields in the same order; and a well-formed message that is no larger than a limit may be
is read back from what the two passes of the generated serializer write of it. -/
theorem generated_parser_reads_wire_format :
    GeneratedParser {} fieldClientId setClientId twoPassProtobuf.clientId
        (WfClientId recursionLimit) ∧
      GeneratedParser {} fieldMovement setMovement twoPassProtobuf.movement WfMovement ∧
      GeneratedParser {} fieldFireEvent setFireEvent twoPassProtobuf.fireEvent WfFireEvent ∧
      GeneratedParser {} fieldAnimState setAnimState twoPassProtobuf.animState WfAnimState ∧
      GeneratedParser {} fieldWeapon setWeapon twoPassProtobuf.weapon WfWeapon :=
  ⟨(cases_clientId recursionLimit).generatedParser (format_clientId recursionLimit) fun m =>
      Agree.of_length (byteSizeClientId_eq m),
    cases_movement.generatedParser format_movement agree_movement,
    cases_fireEvent.generatedParser format_fireEvent agree_fireEvent,
    cases_animState.generatedParser format_animState agree_animState,
    cases_weapon.generatedParser format_weapon agree_weapon⟩

/-- A tag of `2 ^ 32 + 8` is cut to that of `Index`. -/
example : wireProtobuf.clientId.parseFromArray [0x88, 0x80, 0x80, 0x80, 0x10, 7] =
    ({ index := 7 }, true) := by decide +kernel

end IocpDemo.Wire
