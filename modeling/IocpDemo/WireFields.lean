/-
**Reading back the fields of a message** (the protobuf wire format).

A message travels as a sequence of tagged fields.  This module proves the format itself correct, for
any message: a well-formed sequence of fields is read back as it was written, whatever a reader
accepts is a well-formed sequence of fields, and writing it again takes no more bytes than were
read, because a number may have been padded with leading zero digits but is written with as few as
possible.  What has been read may be followed by other bytes.

Main definitions:

* `IocpDemo.Wire.Closes` — what the groups that are open still demand of the bytes;
* `IocpDemo.Wire.Field`, `IocpDemo.Wire.Field.Valid` — a field, and when it can be written;
* `IocpDemo.Wire.readField`, `IocpDemo.Wire.readFields` — reading one field, and all of them;
* `IocpDemo.Wire.encodeFields` — a sequence of fields as bytes.

Main results:

* `IocpDemo.Wire.readVarint_writeVarint`, `IocpDemo.Wire.readGroup_closes`,
  `IocpDemo.Wire.readField_writeField` — reading back one number, one group and one field;
* `IocpDemo.Wire.readFields_encodeFields` — **reading back a sequence of fields**;
* `IocpDemo.Wire.readFields_valid` — **what is read is well formed and no longer than the input**;
* `IocpDemo.Wire.readFields_append` — bytes that are fields up to their end may be followed by
  others.
-/

import IocpDemo.WireValues
import Mathlib.Algebra.Group.Nat.Defs

set_option relaxedAutoImplicit false
set_option autoImplicit false

namespace IocpDemo.Wire

/-! ### Numbers -/

theorem writeVarint_succ_of_lt {k n : ℕ} (h : n < 128) :
    writeVarint (k + 1) n = [UInt8.ofNat n] := if_pos h

theorem writeVarint_succ_of_le {k n : ℕ} (h : 128 ≤ n) :
    writeVarint (k + 1) n = UInt8.ofNat (n % 128 + 128) :: writeVarint k (n / 128) :=
  if_neg (by omega)

/-- **Reading back a number** that has at most `k` digits. -/
theorem readVarint_writeVarint {k n : ℕ} (hk : 0 < k) (h : n < 128 ^ k) (rest : List UInt8) :
    readVarint k (writeVarint k n ++ rest) = some (n, rest) := by
  induction k generalizing n with
  | zero => omega
  | succ k ih =>
      rcases Nat.lt_or_ge n 128 with hn | hn
      · have hbyte : (UInt8.ofNat n).toNat = n := by
          rw [UInt8.toNat_ofNat']
          omega
        rw [writeVarint_succ_of_lt hn]
        simp [readVarint, hbyte, hn]
      · -- the first digit is read, and the others are those of `n / 128`
        have hbyte : (UInt8.ofNat (n % 128 + 128)).toNat = n % 128 + 128 := by
          rw [UInt8.toNat_ofNat']
          omega
        have hdiv : n / 128 < 128 ^ k := by
          rw [Nat.div_lt_iff_lt_mul (by decide), ← Nat.pow_succ]
          exact h
        have hk : 0 < k := by
          rcases Nat.eq_zero_or_pos k with rfl | hk
          · omega
          · exact hk
        rw [writeVarint_succ_of_le hn]
        simp only [List.cons_append, readVarint, hbyte, ih hk hdiv, Option.map_some]
        rw [if_neg (by omega)]
        simp only [Option.some.injEq, Prod.mk.injEq, and_true]
        omega

theorem length_writeVarint_le (k n : ℕ) : (writeVarint k n).length ≤ k := by
  induction k generalizing n with
  | zero => simp [writeVarint]
  | succ k ih =>
      rcases Nat.lt_or_ge n 128 with hn | hn
      · simp [writeVarint_succ_of_lt hn]
      · have := ih (n / 128)
        rw [writeVarint_succ_of_le hn, List.length_cons]
        omega

theorem length_writeVarint_pos {k : ℕ} (hk : 0 < k) (n : ℕ) : 0 < (writeVarint k n).length := by
  cases k with
  | zero => omega
  | succ k =>
      rcases Nat.lt_or_ge n 128 with hn | hn
      · simp [writeVarint_succ_of_lt hn]
      · simp [writeVarint_succ_of_le hn]

/-- A smaller number takes no more digits. -/
theorem length_writeVarint_mono (k : ℕ) {a b : ℕ} (h : a ≤ b) :
    (writeVarint k a).length ≤ (writeVarint k b).length := by
  induction k generalizing a b with
  | zero => simp [writeVarint]
  | succ k ih =>
      rcases Nat.lt_or_ge a 128 with ha | ha
      · rw [writeVarint_succ_of_lt ha]
        exact length_writeVarint_pos (Nat.succ_pos k) b
      · have := ih (Nat.div_le_div_right (c := 128) h)
        rw [writeVarint_succ_of_le ha, writeVarint_succ_of_le (by omega), List.length_cons,
          List.length_cons]
        omega

/-- Room for another digit shortens nothing. -/
theorem length_writeVarint_succ (k n : ℕ) :
    (writeVarint k n).length ≤ (writeVarint (k + 1) n).length := by
  induction k generalizing n with
  | zero => simp [writeVarint]
  | succ k ih =>
      rcases Nat.lt_or_ge n 128 with hn | hn
      · exact Nat.le_of_eq (by rw [writeVarint_succ_of_lt hn, writeVarint_succ_of_lt hn])
      · have := ih (n / 128)
        rw [writeVarint_succ_of_le hn, writeVarint_succ_of_le hn, List.length_cons,
          List.length_cons]
        omega

/-- A factor of 128 is one digit. -/
theorem length_writeVarint_mul (k b : ℕ) :
    (writeVarint k (128 * b)).length ≤ (writeVarint k b).length + 1 := by
  cases k with
  | zero => simp [writeVarint]
  | succ k =>
      rcases Nat.eq_zero_or_pos b with rfl | hb
      · simp
      · have hdiv : 128 * b / 128 = b := Nat.mul_div_cancel_left b (by decide)
        have := length_writeVarint_succ k b
        rw [writeVarint_succ_of_le (by omega), hdiv, List.length_cons]
        omega

/-- **The digits of a sum** are no more than those of the summands together. -/
theorem length_writeVarint_add {k : ℕ} (hk : 0 < k) (a b : ℕ) :
    (writeVarint k (a + b)).length ≤ (writeVarint k a).length + (writeVarint k b).length := by
  rcases Nat.le_total a b with hab | hab
  · have h₁ := length_writeVarint_mono k (a := a + b) (b := 128 * b) (by omega)
    have h₂ := length_writeVarint_mul k b
    have h₃ := length_writeVarint_pos hk a
    omega
  · have h₁ := length_writeVarint_mono k (a := a + b) (b := 128 * a) (by omega)
    have h₂ := length_writeVarint_mul k a
    have h₃ := length_writeVarint_pos hk b
    omega

/-- **A number that was read is written again with no more digits**, and it has at most as many
digits as were allowed. -/
theorem readVarint_some {k n : ℕ} {bs rest : List UInt8} (h : readVarint k bs = some (n, rest)) :
    n < 128 ^ k ∧ (writeVarint k n).length + rest.length ≤ bs.length := by
  induction k generalizing n bs with
  | zero => simp [readVarint] at h
  | succ k ih =>
      cases bs with
      | nil => simp [readVarint] at h
      | cons b bs =>
          rcases Nat.lt_or_ge b.toNat 128 with hb | hb
          · simp only [readVarint, if_pos hb, Option.some.injEq, Prod.mk.injEq] at h
            obtain ⟨rfl, rfl⟩ := h
            have hpow : 128 ≤ 128 ^ (k + 1) := Nat.le_self_pow (Nat.succ_ne_zero k) 128
            refine ⟨by omega, ?_⟩
            rw [writeVarint_succ_of_lt hb, List.length_cons, List.length_cons, List.length_nil]
            omega
          · simp only [readVarint, if_neg (Nat.not_lt_of_ge hb), Option.map_eq_some_iff] at h
            obtain ⟨⟨m, rest'⟩, hm, heq⟩ := h
            simp only [Prod.mk.injEq] at heq
            obtain ⟨rfl, rfl⟩ := heq
            obtain ⟨hlt, hlen⟩ := ih hm
            have hbyte := b.toNat_lt
            have hpow : 128 ^ (k + 1) = 128 ^ k * 128 := Nat.pow_succ _ _
            have hdiv : (b.toNat - 128 + 128 * m) / 128 = m := by omega
            refine ⟨by omega, ?_⟩
            rw [List.length_cons]
            rcases Nat.lt_or_ge (b.toNat - 128 + 128 * m) 128 with hn | hn
            · rw [writeVarint_succ_of_lt hn, List.length_cons, List.length_nil]
              omega
            · rw [writeVarint_succ_of_le hn, hdiv, List.length_cons]
              omega

theorem readVarint_append {k n : ℕ} {bs rest : List UInt8} (h : readVarint k bs = some (n, rest))
    (cs : List UInt8) : readVarint k (bs ++ cs) = some (n, rest ++ cs) := by
  induction k generalizing n bs rest with
  | zero => cases bs <;> cases h
  | succ k ih =>
      cases bs with
      | nil => cases h
      | cons b bs =>
          rw [readVarint] at h
          rw [List.cons_append, readVarint]
          split at h
          · next hb =>
              obtain ⟨rfl, rfl⟩ := Prod.mk.inj (Option.some.inj h)
              rw [if_pos hb]
          · next hb =>
              obtain ⟨⟨m, r⟩, hm, heq⟩ := Option.map_eq_some_iff.1 h
              obtain ⟨rfl, rfl⟩ := Prod.mk.inj heq
              rw [if_neg hb, ih hm]
              rfl

/-! ### Bytes -/

@[simp] theorem length_leBytes (k n : ℕ) : (leBytes k n).length = k := by
  induction k generalizing n with
  | zero => rfl
  | succ k ih => simp [leBytes, ih]

theorem leNat_leBytes {k n : ℕ} (h : n < 256 ^ k) : leNat (leBytes k n) = n := by
  induction k generalizing n with
  | zero =>
      have hn : n = 0 := by
        rw [Nat.pow_zero] at h
        omega
      simp [leBytes, leNat, hn]
  | succ k ih =>
      have hdiv : n / 256 < 256 ^ k := by
        rw [Nat.div_lt_iff_lt_mul (by decide), ← Nat.pow_succ]
        exact h
      simp only [leBytes, leNat, ih hdiv, UInt8.toNat_ofNat']
      omega

theorem readBytes_append (bs rest : List UInt8) :
    readBytes bs.length (bs ++ rest) = some (bs, rest) := by
  simp [readBytes]

theorem readBytes_some {n : ℕ} {bs a rest : List UInt8} (h : readBytes n bs = some (a, rest)) :
    a.length = n ∧ n + rest.length = bs.length := by
  simp only [readBytes, Option.ite_none_right_eq_some] at h
  obtain ⟨hn, heq⟩ := h
  simp only [Option.some.injEq, Prod.mk.injEq] at heq
  obtain ⟨rfl, rfl⟩ := heq
  simp
  omega

theorem readBytes_append_right {n : ℕ} {bs a rest : List UInt8}
    (h : readBytes n bs = some (a, rest)) (cs : List UInt8) :
    readBytes n (bs ++ cs) = some (a, rest ++ cs) := by
  simp only [readBytes, Option.ite_none_right_eq_some, Option.some.injEq, Prod.mk.injEq] at h
  obtain ⟨hn, rfl, rfl⟩ := h
  have hn' : n ≤ (bs ++ cs).length := by
    rw [List.length_append]
    omega
  rw [readBytes, if_pos hn', List.take_append_of_le_length hn, List.drop_append_of_le_length hn]

/-! ### Tags and sizes -/

theorem readTag_writeVarint {n : ℕ} (h : n < 4294967296) (rest : List UInt8) :
    readTag (writeVarint 5 n ++ rest) = some (UInt32.ofNat n, rest) := by
  have hlt : n < 128 ^ 5 := Nat.lt_trans h (by decide)
  simp [readTag, readVarint_writeVarint (by decide) hlt]

/-- A tag is cut to 32 bits, which makes it no longer. -/
theorem readTag_some {tag : UInt32} {bs rest : List UInt8} (h : readTag bs = some (tag, rest)) :
    (writeVarint 5 tag.toNat).length + rest.length ≤ bs.length := by
  obtain ⟨⟨n, r⟩, hn, heq⟩ := Option.map_eq_some_iff.1 h
  obtain ⟨rfl, rfl⟩ := Prod.mk.inj heq
  have hle : (UInt32.ofNat n).toNat ≤ n := by
    rw [UInt32.toNat_ofNat']
    exact Nat.mod_le _ _
  have hmono := length_writeVarint_mono 5 hle
  have hlen := (readVarint_some hn).2
  dsimp only
  omega

theorem readTag_append {tag : UInt32} {bs rest : List UInt8} (h : readTag bs = some (tag, rest))
    (cs : List UInt8) : readTag (bs ++ cs) = some (tag, rest ++ cs) := by
  obtain ⟨⟨n, r⟩, hn, heq⟩ := Option.map_eq_some_iff.1 h
  obtain ⟨rfl, rfl⟩ := Prod.mk.inj heq
  simp [readTag, readVarint_append hn cs]

theorem maxLimit_lt : maxLimit < 128 ^ 5 := by decide

theorem readSize_writeVarint {n : ℕ} (h : n ≤ maxLimit) (rest : List UInt8) :
    readSize (writeVarint 5 n ++ rest) = some (n, rest) := by
  have hlt : n < 128 ^ 5 := Nat.lt_of_le_of_lt h maxLimit_lt
  simp [readSize, readVarint_writeVarint (by decide) hlt, h]

theorem readSize_eq_some_iff {n : ℕ} {bs rest : List UInt8} :
    readSize bs = some (n, rest) ↔ readVarint 5 bs = some (n, rest) ∧ n ≤ maxLimit := by
  simp only [readSize, Option.bind_eq_some_iff, Option.ite_none_right_eq_some, Option.some.injEq]
  constructor
  · rintro ⟨r, hr, hle, rfl⟩
    exact ⟨hr, hle⟩
  · rintro ⟨hr, hle⟩
    exact ⟨_, hr, hle, rfl⟩

/-! ### Values -/

/-- The number of a field whose tag fits 32 bits. -/
def TagNumber (number : ℕ) : Prop := 0 < number ∧ 8 * number + 7 < 4294967296

namespace WireValue

/-- The wire type that stands in the tag. -/
def wireType : WireValue → ℕ
  | varint _ => 0
  | i64 _ => 1
  | len _ => 2
  | group _ => 3
  | i32 _ => 5

/-- What follows the tag. -/
def body : WireValue → List UInt8
  | varint v => writeVarint 10 v.toNat
  | i64 bytes => bytes
  | len bytes => writeVarint 5 bytes.length ++ bytes
  | group bytes => bytes
  | i32 v => leBytes 4 v.toNat

/-- The value can be written, and is no group. -/
def ScalarValid : WireValue → Prop
  | varint _ | i32 _ => True
  | i64 bytes => bytes.length = 8
  | len bytes => bytes.length ≤ maxLimit
  | group _ => False

theorem wireType_lt (v : WireValue) : v.wireType < 8 := by cases v <;> simp [wireType]

theorem wireType_ne_four (v : WireValue) : v.wireType ≠ 4 := by cases v <;> simp [wireType]

theorem ScalarValid.wireType_ne {v : WireValue} (h : v.ScalarValid) : v.wireType ≠ 3 := by
  cases v <;> first | exact h.elim | simp [wireType]

end WireValue

/-- `Closes depth stack bytes`: the bytes are fields, written as short as can be, of the groups that
are open, the innermost first, up to the tag that ends the last of them; no more than `depth` groups
are open at once. -/
inductive Closes (depth : ℕ) : List ℕ → List UInt8 → Prop
  | nil : Closes depth [] []
  | field {number inner : ℕ} {outer : List ℕ} {v : WireValue} {bytes : List UInt8}
      (hnumber : TagNumber number) (hv : v.ScalarValid) (h : Closes depth (inner :: outer) bytes) :
      Closes depth (inner :: outer) (writeField number v ++ bytes)
  | start {number inner : ℕ} {outer : List ℕ} {bytes : List UInt8} (hnumber : TagNumber number)
      (hdepth : outer.length + 1 < depth) (h : Closes depth (number :: inner :: outer) bytes) :
      Closes depth (inner :: outer) (startTag number ++ bytes)
  | stop {inner : ℕ} {outer : List ℕ} {bytes : List UInt8} (hinner : TagNumber inner)
      (h : Closes depth outer bytes) : Closes depth (inner :: outer) (endTag inner ++ bytes)

/-- The value of a field with this number can be written. -/
def WireValue.Valid (depth number : ℕ) : WireValue → Prop
  | .group bytes => 0 < depth ∧ Closes depth [number] bytes
  | v => v.ScalarValid

theorem WireValue.ScalarValid.valid {v : WireValue} (h : v.ScalarValid) (depth number : ℕ) :
    v.Valid depth number := by
  cases v <;> first | exact h.elim | exact h

theorem writeField_eq (number : ℕ) (v : WireValue) :
    writeField number v = writeVarint 5 (8 * number + v.wireType) ++ v.body := by
  cases v <;> simp [writeField, WireValue.wireType, WireValue.body, startTag]

theorem length_writeField (number : ℕ) (v : WireValue) :
    (writeField number v).length =
      (writeVarint 5 (8 * number + v.wireType)).length + v.body.length := by
  rw [writeField_eq, List.length_append]

theorem length_writeField_pos (number : ℕ) (v : WireValue) :
    0 < (writeField number v).length := by
  have := length_writeVarint_pos (k := 5) (by decide) (8 * number + v.wireType)
  rw [length_writeField]
  omega

theorem readScalar_body {v : WireValue} (hv : v.ScalarValid) (rest : List UInt8) :
    readScalar v.wireType (v.body ++ rest) = some (v, rest) := by
  cases v with
  | varint v =>
      have hlt : v.toNat < 128 ^ 10 := Nat.lt_trans v.toNat_lt (by decide)
      simp [WireValue.wireType, WireValue.body, readScalar,
        readVarint_writeVarint (by decide) hlt]
  | i64 bytes =>
      have hlen : bytes.length = 8 := hv
      have hread := readBytes_append bytes rest
      rw [hlen] at hread
      simp [WireValue.wireType, WireValue.body, readScalar, hread]
  | len bytes =>
      simp only [WireValue.wireType, WireValue.body, readScalar, List.append_assoc,
        readSize_writeVarint hv, Option.bind_some, readBytes_append, Option.map_some]
  | group bytes => exact hv.elim
  | i32 v =>
      have hread := readBytes_append (leBytes 4 v.toNat) rest
      rw [length_leBytes] at hread
      simp [WireValue.wireType, WireValue.body, readScalar, hread,
        leNat_leBytes (k := 4) v.toNat_lt]

/-- **What is read as a value can be written, and takes no more bytes.** -/
theorem readScalar_some {wireType : ℕ} {v : WireValue} {bs rest : List UInt8}
    (h : readScalar wireType bs = some (v, rest)) :
    v.wireType = wireType ∧ v.ScalarValid ∧ v.body.length + rest.length ≤ bs.length := by
  unfold readScalar at h
  split at h
  · obtain ⟨⟨n, r⟩, hn, heq⟩ := Option.map_eq_some_iff.1 h
    obtain ⟨rfl, rfl⟩ := Prod.mk.inj heq
    -- a number of more than 64 bits is cut, which makes it smaller
    have hle : (UInt64.ofNat n).toNat ≤ n := by
      rw [UInt64.toNat_ofNat']
      exact Nat.mod_le _ _
    have hmono := length_writeVarint_mono 10 hle
    have hlen := (readVarint_some hn).2
    refine ⟨rfl, trivial, ?_⟩
    simp only [WireValue.body]
    omega
  · obtain ⟨⟨a, r⟩, ha, heq⟩ := Option.map_eq_some_iff.1 h
    obtain ⟨rfl, rfl⟩ := Prod.mk.inj heq
    obtain ⟨hlen, hsum⟩ := readBytes_some ha
    refine ⟨rfl, hlen, ?_⟩
    simp only [WireValue.body]
    omega
  · obtain ⟨⟨n, r⟩, hn, h⟩ := Option.bind_eq_some_iff.1 h
    obtain ⟨⟨a, r'⟩, ha, heq⟩ := Option.map_eq_some_iff.1 h
    simp only [Prod.mk.injEq] at heq ha
    obtain ⟨rfl, rfl⟩ := heq
    obtain ⟨rfl, hsum⟩ := readBytes_some ha
    obtain ⟨hread, hle⟩ := readSize_eq_some_iff.1 hn
    have hlen := (readVarint_some hread).2
    refine ⟨rfl, hle, ?_⟩
    simp only [WireValue.body, List.length_append]
    omega
  · obtain ⟨⟨a, r⟩, ha, heq⟩ := Option.map_eq_some_iff.1 h
    obtain ⟨rfl, rfl⟩ := Prod.mk.inj heq
    obtain ⟨hlen, hsum⟩ := readBytes_some ha
    refine ⟨rfl, trivial, ?_⟩
    simp only [WireValue.body, length_leBytes]
    omega
  · cases h

theorem readScalar_append {wireType : ℕ} {v : WireValue} {bs rest : List UInt8}
    (h : readScalar wireType bs = some (v, rest)) (cs : List UInt8) :
    readScalar wireType (bs ++ cs) = some (v, rest ++ cs) := by
  unfold readScalar at h ⊢
  split at h
  · obtain ⟨⟨n, r⟩, hn, heq⟩ := Option.map_eq_some_iff.1 h
    obtain ⟨rfl, rfl⟩ := Prod.mk.inj heq
    rw [readVarint_append hn cs]
    rfl
  · obtain ⟨⟨a, r⟩, ha, heq⟩ := Option.map_eq_some_iff.1 h
    obtain ⟨rfl, rfl⟩ := Prod.mk.inj heq
    rw [readBytes_append_right ha cs]
    rfl
  · obtain ⟨⟨n, r⟩, hn, h⟩ := Option.bind_eq_some_iff.1 h
    obtain ⟨⟨a, r'⟩, ha, heq⟩ := Option.map_eq_some_iff.1 h
    obtain ⟨rfl, rfl⟩ := Prod.mk.inj heq
    obtain ⟨hread, hle⟩ := readSize_eq_some_iff.1 hn
    have hsize : readSize (bs ++ cs) = some (n, r ++ cs) :=
      readSize_eq_some_iff.2 ⟨readVarint_append hread cs, hle⟩
    rw [hsize, Option.bind_some, readBytes_append_right ha cs]
    rfl
  · obtain ⟨⟨a, r⟩, ha, heq⟩ := Option.map_eq_some_iff.1 h
    obtain ⟨rfl, rfl⟩ := Prod.mk.inj heq
    rw [readBytes_append_right ha cs]
    rfl
  · cases h

/-! ### Groups -/

/-- How the tag of a field is taken apart. -/
theorem tag_split {number wireType : ℕ} (hnumber : TagNumber number) (htype : wireType < 8) :
    (UInt32.ofNat (8 * number + wireType)).toNat / 8 = number ∧
      (UInt32.ofNat (8 * number + wireType)).toNat % 8 = wireType := by
  have hlt := hnumber.2
  rw [UInt32.toNat_ofNat']
  omega

/-- And put together again. -/
theorem tag_join {tag : UInt32} (h : tag.toNat / 8 ≠ 0) :
    TagNumber (tag.toNat / 8) ∧ 8 * (tag.toNat / 8) + tag.toNat % 8 = tag.toNat := by
  have hlt := tag.toNat_lt
  exact ⟨⟨by omega, by omega⟩, by omega⟩

/-- **Reading back what the open groups demand.** -/
theorem readGroup_closes {depth fuel : ℕ} {stack : List ℕ} {bytes : List UInt8}
    (h : Closes depth stack bytes) (hfuel : bytes.length ≤ fuel) (rest : List UInt8) :
    readGroup depth fuel stack (bytes ++ rest) = some (bytes, rest) := by
  induction h generalizing fuel with
  | nil => cases fuel <;> rfl
  | @field number inner outer v bytes hnumber hv _ ih =>
      obtain ⟨hdiv, hmod⟩ := tag_split hnumber v.wireType_lt
      have htag := readTag_writeVarint (n := 8 * number + v.wireType)
        (by have := hnumber.2; have := v.wireType_lt; omega) (v.body ++ (bytes ++ rest))
      have hpos := length_writeField_pos number v
      rw [List.length_append] at hfuel
      obtain ⟨fuel, rfl⟩ : ∃ k, fuel = k + 1 := ⟨fuel - 1, by omega⟩
      have hrest := @ih fuel (by omega)
      have hne := hnumber.1
      rw [List.append_assoc, writeField_eq, List.append_assoc, readGroup]
      simp only [htag, Option.bind_some, hdiv, hmod, if_neg v.wireType_ne_four,
        if_neg hv.wireType_ne, readScalar_body hv, hrest, Option.map_some]
      rw [if_neg (by omega), writeField_eq]
  | @start number inner outer bytes hnumber hdepth _ ih =>
      obtain ⟨hdiv, hmod⟩ := tag_split hnumber (show 3 < 8 by decide)
      have htag := readTag_writeVarint (n := 8 * number + 3)
        (by have := hnumber.2; omega) (bytes ++ rest)
      have hpos := length_writeVarint_pos (k := 5) (by decide) (8 * number + 3)
      rw [List.length_append, startTag] at hfuel
      obtain ⟨fuel, rfl⟩ : ∃ k, fuel = k + 1 := ⟨fuel - 1, by omega⟩
      have hrest := @ih fuel (by omega)
      have hne := hnumber.1
      rw [List.append_assoc, startTag, readGroup]
      simp only [htag, Option.bind_some, hdiv, hmod, hdepth, hrest, Option.map_some, if_true]
      rw [if_neg (by omega), if_neg (by decide)]
      rfl
  | @stop inner outer bytes hinner _ ih =>
      obtain ⟨hdiv, hmod⟩ := tag_split hinner (show 4 < 8 by decide)
      have htag := readTag_writeVarint (n := 8 * inner + 4)
        (by have := hinner.2; omega) (bytes ++ rest)
      have hpos := length_writeVarint_pos (k := 5) (by decide) (8 * inner + 4)
      rw [List.length_append, endTag] at hfuel
      obtain ⟨fuel, rfl⟩ : ∃ k, fuel = k + 1 := ⟨fuel - 1, by omega⟩
      have hrest := @ih fuel (by omega)
      have hne := hinner.1
      rw [List.append_assoc, endTag, readGroup]
      simp only [htag, Option.bind_some, hdiv, hmod, hrest, Option.map_some, if_true]
      rw [if_neg (by omega)]
      rfl

/-- **What is read of the open groups closes them, and takes no more bytes.** -/
theorem readGroup_some {depth fuel : ℕ} {stack : List ℕ} {bytes bs rest : List UInt8}
    (h : readGroup depth fuel stack bs = some (bytes, rest)) :
    Closes depth stack bytes ∧ bytes.length + rest.length ≤ bs.length := by
  induction fuel generalizing stack bytes bs with
  | zero =>
      cases stack with
      | nil =>
          obtain ⟨rfl, rfl⟩ := Prod.mk.inj (Option.some.inj h)
          exact ⟨.nil, by simp⟩
      | cons inner outer => cases h
  | succ fuel ih =>
      cases stack with
      | nil =>
          obtain ⟨rfl, rfl⟩ := Prod.mk.inj (Option.some.inj h)
          exact ⟨.nil, by simp⟩
      | cons inner outer =>
          rw [readGroup] at h
          obtain ⟨⟨tag, r⟩, htag, h⟩ := Option.bind_eq_some_iff.1 h
          have hlen := readTag_some htag
          simp only [Option.ite_none_left_eq_some] at h
          obtain ⟨hzero, h⟩ := h
          obtain ⟨hnumber, hjoin⟩ := tag_join hzero
          split at h
          · next hfour =>
              simp only [Option.ite_none_right_eq_some] at h
              obtain ⟨hinner, h⟩ := h
              obtain ⟨⟨b, s⟩, hb, heq⟩ := Option.map_eq_some_iff.1 h
              obtain ⟨rfl, rfl⟩ := Prod.mk.inj heq
              obtain ⟨hcloses, hle⟩ := ih hb
              rw [hfour] at hjoin
              rw [hinner] at hnumber ⊢
              refine ⟨.stop hnumber hcloses, ?_⟩
              rw [List.length_append, endTag, ← hinner, hjoin]
              dsimp only at hle ⊢
              omega
          · split at h
            · next hthree =>
                simp only [Option.ite_none_right_eq_some] at h
                obtain ⟨hdepth, h⟩ := h
                obtain ⟨⟨b, s⟩, hb, heq⟩ := Option.map_eq_some_iff.1 h
                obtain ⟨rfl, rfl⟩ := Prod.mk.inj heq
                obtain ⟨hcloses, hle⟩ := ih hb
                rw [hthree] at hjoin
                refine ⟨.start hnumber hdepth hcloses, ?_⟩
                rw [List.length_append, startTag, hjoin]
                dsimp only at hle ⊢
                omega
            · obtain ⟨⟨v, r'⟩, hv, h⟩ := Option.bind_eq_some_iff.1 h
              obtain ⟨⟨b, s⟩, hb, heq⟩ := Option.map_eq_some_iff.1 h
              obtain ⟨rfl, rfl⟩ := Prod.mk.inj heq
              obtain ⟨htype, hscalar, hle⟩ := readScalar_some hv
              obtain ⟨hcloses, hle'⟩ := ih hb
              refine ⟨.field hnumber hscalar hcloses, ?_⟩
              rw [List.length_append, length_writeField, htype, hjoin]
              dsimp only at hle' ⊢
              omega

theorem readGroup_append {depth fuel fuel' : ℕ} {stack : List ℕ} {bytes bs rest : List UInt8}
    (h : readGroup depth fuel stack bs = some (bytes, rest)) (hfuel : fuel ≤ fuel')
    (cs : List UInt8) :
    readGroup depth fuel' stack (bs ++ cs) = some (bytes, rest ++ cs) := by
  induction fuel generalizing fuel' stack bytes bs with
  | zero =>
      cases stack with
      | nil =>
          obtain ⟨rfl, rfl⟩ := Prod.mk.inj (Option.some.inj h)
          cases fuel' <;> rfl
      | cons inner outer => cases h
  | succ fuel ih =>
      obtain ⟨fuel', rfl⟩ : ∃ k, fuel' = k + 1 := ⟨fuel' - 1, by omega⟩
      have hfuel : fuel ≤ fuel' := by omega
      cases stack with
      | nil =>
          obtain ⟨rfl, rfl⟩ := Prod.mk.inj (Option.some.inj h)
          rfl
      | cons inner outer =>
          rw [readGroup] at h ⊢
          obtain ⟨⟨tag, r⟩, htag, h⟩ := Option.bind_eq_some_iff.1 h
          rw [readTag_append htag cs, Option.bind_some]
          simp only [Option.ite_none_left_eq_some] at h ⊢
          obtain ⟨hzero, h⟩ := h
          refine ⟨hzero, ?_⟩
          split at h
          · next hfour =>
              rw [if_pos hfour]
              simp only [Option.ite_none_right_eq_some] at h ⊢
              obtain ⟨hinner, h⟩ := h
              obtain ⟨⟨b, s⟩, hb, heq⟩ := Option.map_eq_some_iff.1 h
              obtain ⟨rfl, rfl⟩ := Prod.mk.inj heq
              exact ⟨hinner, by rw [ih hb hfuel]; rfl⟩
          · next hfour =>
              rw [if_neg hfour]
              split at h
              · next hthree =>
                  rw [if_pos hthree]
                  simp only [Option.ite_none_right_eq_some] at h ⊢
                  obtain ⟨hdepth, h⟩ := h
                  obtain ⟨⟨b, s⟩, hb, heq⟩ := Option.map_eq_some_iff.1 h
                  obtain ⟨rfl, rfl⟩ := Prod.mk.inj heq
                  exact ⟨hdepth, by rw [ih hb hfuel]; rfl⟩
              · next hthree =>
                  rw [if_neg hthree]
                  obtain ⟨⟨v, r'⟩, hv, h⟩ := Option.bind_eq_some_iff.1 h
                  obtain ⟨⟨b, s⟩, hb, heq⟩ := Option.map_eq_some_iff.1 h
                  obtain ⟨rfl, rfl⟩ := Prod.mk.inj heq
                  rw [readScalar_append hv cs, Option.bind_some, ih hb hfuel]
                  rfl

theorem readValue_body {depth number : ℕ} {v : WireValue} (hv : v.Valid depth number)
    (rest : List UInt8) :
    readValue depth number v.wireType (v.body ++ rest) = some (v, rest) := by
  cases v with
  | group bytes =>
      obtain ⟨hdepth, hcloses⟩ := hv
      have hfuel : bytes.length ≤ (bytes ++ rest).length := by simp
      have hread := readGroup_closes hcloses hfuel rest
      have hne : depth ≠ 0 := by omega
      simp only [readValue, WireValue.wireType, WireValue.body, if_true, if_neg hne, hread,
        Option.map_some]
  | varint v => exact readScalar_body (v := .varint v) hv rest
  | i64 bytes => exact readScalar_body (v := .i64 bytes) hv rest
  | len bytes => exact readScalar_body (v := .len bytes) hv rest
  | i32 v => exact readScalar_body (v := .i32 v) hv rest

theorem readValue_some {depth number wireType : ℕ} {v : WireValue} {bs rest : List UInt8}
    (h : readValue depth number wireType bs = some (v, rest)) :
    v.wireType = wireType ∧ v.Valid depth number ∧ v.body.length + rest.length ≤ bs.length := by
  unfold readValue at h
  split at h
  · next hthree =>
      simp only [Option.ite_none_left_eq_some] at h
      obtain ⟨hdepth, h⟩ := h
      obtain ⟨⟨b, s⟩, hb, heq⟩ := Option.map_eq_some_iff.1 h
      obtain ⟨rfl, rfl⟩ := Prod.mk.inj heq
      obtain ⟨hcloses, hle⟩ := readGroup_some hb
      exact ⟨hthree.symm, ⟨Nat.pos_of_ne_zero hdepth, hcloses⟩, hle⟩
  · obtain ⟨htype, hscalar, hle⟩ := readScalar_some h
    exact ⟨htype, hscalar.valid depth number, hle⟩

theorem readValue_append {depth number wireType : ℕ} {v : WireValue} {bs rest : List UInt8}
    (h : readValue depth number wireType bs = some (v, rest)) (cs : List UInt8) :
    readValue depth number wireType (bs ++ cs) = some (v, rest ++ cs) := by
  unfold readValue at h ⊢
  split at h
  · next hthree =>
      rw [if_pos hthree]
      simp only [Option.ite_none_left_eq_some] at h ⊢
      obtain ⟨hdepth, h⟩ := h
      obtain ⟨⟨b, s⟩, hb, heq⟩ := Option.map_eq_some_iff.1 h
      obtain ⟨rfl, rfl⟩ := Prod.mk.inj heq
      refine ⟨hdepth, ?_⟩
      rw [readGroup_append hb (by simp) cs]
      rfl
  · next hthree =>
      rw [if_neg hthree]
      exact readScalar_append h cs

/-! ### Fields -/

/-- A field: its number and its value. -/
abbrev Field := ℕ × WireValue

/-- The field can be written: its tag fits 32 bits. -/
def Field.Valid (depth : ℕ) (f : Field) : Prop := TagNumber f.1 ∧ f.2.Valid depth f.1

/-- One field: its number, its value and the bytes behind it. -/
def readField (depth : ℕ) (bs : List UInt8) : Option (ℕ × WireValue × List UInt8) :=
  (readTag bs).bind fun tag =>
    if tag.1.toNat / 8 = 0 then none
    else (readValue depth (tag.1.toNat / 8) (tag.1.toNat % 8) tag.2).map fun r =>
      (tag.1.toNat / 8, r.1, r.2)

/-- The fields up to the end of the bytes or the first malformed field, and whether the end was
reached. -/
def readFields (depth : ℕ) : ℕ → List UInt8 → List Field × Bool
  | _, [] => ([], true)
  | 0, _ => ([], false)
  | fuel + 1, bs =>
      match readField depth bs with
      | none => ([], false)
      | some (number, value, rest) =>
          let fields := readFields depth fuel rest
          ((number, value) :: fields.1, fields.2)

section Depth

variable {depth : ℕ}

/-- **Reading back one field.** -/
theorem readField_writeField {f : Field} (hf : f.Valid depth) (rest : List UInt8) :
    readField depth (writeField f.1 f.2 ++ rest) = some (f.1, f.2, rest) := by
  obtain ⟨hnumber, hv⟩ := hf
  obtain ⟨hdiv, hmod⟩ := tag_split hnumber f.2.wireType_lt
  have htag := readTag_writeVarint (n := 8 * f.1 + f.2.wireType)
    (by have := hnumber.2; have := f.2.wireType_lt; omega) (f.2.body ++ rest)
  have hne := hnumber.1
  rw [writeField_eq, List.append_assoc]
  simp only [readField, htag, Option.bind_some, hdiv, hmod, readValue_body hv, Option.map_some]
  rw [if_neg (by omega)]

theorem readField_some {number : ℕ} {v : WireValue} {bs rest : List UInt8}
    (h : readField depth bs = some (number, v, rest)) :
    Field.Valid depth (number, v) ∧
      (writeField number v).length + rest.length ≤ bs.length := by
  obtain ⟨⟨tag, r⟩, htag, h⟩ := Option.bind_eq_some_iff.1 h
  simp only [Option.ite_none_left_eq_some] at h
  obtain ⟨hzero, h⟩ := h
  obtain ⟨⟨v', rest'⟩, hv, heq⟩ := Option.map_eq_some_iff.1 h
  simp only [Prod.mk.injEq] at heq
  obtain ⟨rfl, rfl, rfl⟩ := heq
  obtain ⟨hnumber, hjoin⟩ := tag_join hzero
  have hle := readTag_some htag
  obtain ⟨htype, hvalid, hlen⟩ := readValue_some hv
  refine ⟨⟨hnumber, hvalid⟩, ?_⟩
  rw [length_writeField, htype, hjoin]
  omega

theorem readField_append {number : ℕ} {v : WireValue} {bs rest : List UInt8}
    (h : readField depth bs = some (number, v, rest)) (cs : List UInt8) :
    readField depth (bs ++ cs) = some (number, v, rest ++ cs) := by
  obtain ⟨⟨tag, r⟩, htag, h⟩ := Option.bind_eq_some_iff.1 h
  simp only [Option.ite_none_left_eq_some] at h
  obtain ⟨hzero, h⟩ := h
  obtain ⟨⟨v', rest'⟩, hv, heq⟩ := Option.map_eq_some_iff.1 h
  simp only [Prod.mk.injEq] at heq
  obtain ⟨rfl, rfl, rfl⟩ := heq
  rw [readField, readTag_append htag cs, Option.bind_some, if_neg hzero, readValue_append hv cs]
  rfl

/-- A field has at least one byte. -/
theorem length_of_readField {number : ℕ} {v : WireValue} {bs rest : List UInt8}
    (h : readField depth bs = some (number, v, rest)) : rest.length < bs.length := by
  have hlen := (readField_some h).2
  have hpos := length_writeField_pos number v
  omega

/-! ### Sequences of fields -/

/-- The bytes of a sequence of fields. -/
def encodeFields (fields : List Field) : List UInt8 :=
  fields.flatMap fun f => writeField f.1 f.2

@[simp] theorem encodeFields_nil : encodeFields [] = [] := rfl

@[simp] theorem encodeFields_cons (f : Field) (fields : List Field) :
    encodeFields (f :: fields) = writeField f.1 f.2 ++ encodeFields fields := rfl

@[simp] theorem encodeFields_append (a b : List Field) :
    encodeFields (a ++ b) = encodeFields a ++ encodeFields b := by
  simp [encodeFields]

/-- **Reading back a sequence of fields.** -/
theorem readFields_encodeFields {fields : List Field} (hf : ∀ f ∈ fields, f.Valid depth) {fuel : ℕ}
    (hfuel : (encodeFields fields).length ≤ fuel) :
    readFields depth fuel (encodeFields fields) = (fields, true) := by
  induction fields generalizing fuel with
  | nil => cases fuel <;> rfl
  | cons f fields ih =>
      have hread := readField_writeField (hf f List.mem_cons_self) (encodeFields fields)
      have hpos := length_writeField_pos f.1 f.2
      rw [encodeFields_cons, List.length_append] at hfuel
      -- a field has at least one byte, so there is fuel for it
      obtain ⟨fuel, rfl⟩ : ∃ k, fuel = k + 1 := ⟨fuel - 1, by omega⟩
      have hlen : (encodeFields fields).length ≤ fuel := by omega
      have hrest := ih (fun g hg => hf g (List.mem_cons_of_mem _ hg)) hlen
      obtain ⟨b, bs, hb⟩ : ∃ b bs, writeField f.1 f.2 ++ encodeFields fields = b :: bs :=
        List.exists_cons_of_ne_nil (by simpa using fun h => by simp [h] at hpos)
      rw [encodeFields_cons, hb, readFields, ← hb, hread]
      · simp only [hrest]
      · simp

/-- **What is read is well formed, and writing it again takes no more bytes.** -/
theorem readFields_valid (fuel : ℕ) (bs : List UInt8) :
    (∀ f ∈ (readFields depth fuel bs).1, Field.Valid depth f) ∧
      (encodeFields (readFields depth fuel bs).1).length ≤ bs.length := by
  induction fuel generalizing bs with
  | zero => cases bs <;> simp [readFields]
  | succ fuel ih =>
      cases bs with
      | nil => simp [readFields]
      | cons b bs =>
          rw [readFields]
          · cases hread : readField depth (b :: bs) with
            | none => simp
            | some r =>
                obtain ⟨number, v, rest⟩ := r
                obtain ⟨hvalid, hlen⟩ := readField_some hread
                obtain ⟨hrest, hle⟩ := ih rest
                simp only [List.mem_cons, forall_eq_or_imp, encodeFields_cons,
                  List.length_append]
                exact ⟨⟨hvalid, hrest⟩, by omega⟩
          · simp

theorem readFields_cons {fuel : ℕ} {bs rest : List UInt8} {number : ℕ} {v : WireValue}
    (h : readField depth bs = some (number, v, rest)) :
    readFields depth (fuel + 1) bs =
      ((number, v) :: (readFields depth fuel rest).1, (readFields depth fuel rest).2) := by
  cases bs with
  | nil => cases h
  | cons b bs => rw [readFields, h]; simp

/-- The loop ends with the bytes, not with the fuel. -/
theorem readFields_fuel {fuel fuel' : ℕ} {bs : List UInt8} (h : bs.length ≤ fuel)
    (h' : bs.length ≤ fuel') : readFields depth fuel bs = readFields depth fuel' bs := by
  induction fuel generalizing fuel' bs with
  | zero =>
      obtain rfl := List.eq_nil_of_length_eq_zero (Nat.le_zero.1 h)
      cases fuel' <;> rfl
  | succ fuel ih =>
      cases bs with
      | nil => cases fuel' <;> rfl
      | cons b bs =>
          obtain ⟨fuel', rfl⟩ : ∃ k, fuel' = k + 1 :=
            ⟨fuel' - 1, by rw [List.length_cons] at h'; omega⟩
          cases hread : readField depth (b :: bs) with
          | none => rw [readFields, readFields, hread] <;> simp
          | some r =>
              obtain ⟨number, v, rest⟩ := r
              have hlt := length_of_readField hread
              have hrest : readFields depth fuel rest = readFields depth fuel' rest :=
                ih (by omega) (by omega)
              rw [readFields_cons hread, readFields_cons hread, hrest]

/-- **Fields up to the end of the bytes may be followed by others.** -/
theorem readFields_append {fuel : ℕ} {bs : List UInt8} (h : (readFields depth fuel bs).2 = true)
    (cs : List UInt8) {fuel' : ℕ} (hfuel : (bs ++ cs).length ≤ fuel') :
    readFields depth fuel' (bs ++ cs) =
      ((readFields depth fuel bs).1 ++ (readFields depth cs.length cs).1,
        (readFields depth cs.length cs).2) := by
  induction fuel generalizing bs fuel' with
  | zero =>
      cases bs with
      | nil => exact readFields_fuel hfuel (Nat.le_refl _)
      | cons b bs => cases h
  | succ fuel ih =>
      cases bs with
      | nil => exact readFields_fuel hfuel (Nat.le_refl _)
      | cons b bs =>
          cases hread : readField depth (b :: bs) with
          | none => simp [readFields, hread] at h
          | some r =>
              obtain ⟨number, v, rest⟩ := r
              rw [readFields_cons hread] at h ⊢
              have hlt := length_of_readField hread
              obtain ⟨fuel', rfl⟩ : ∃ k, fuel' = k + 1 :=
                ⟨fuel' - 1, by rw [List.cons_append, List.length_cons] at hfuel; omega⟩
              have hrest : (rest ++ cs).length ≤ fuel' := by
                rw [List.length_append] at hfuel ⊢
                omega
              rw [readFields_cons (readField_append hread cs), ih h hrest]
              rfl

end Depth

end IocpDemo.Wire
