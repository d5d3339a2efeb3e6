/-
**Messages as sequences of fields** (the protobuf wire format).

What a message means on the wire can be said without the loop that parses it: its bytes are read as
fields, and the fields are set one after the other.  A message type is read by a setter of one field
and written as a sequence of fields.  Two facts about the setter and the writer are enough for
everything the server relies on: setting a field keeps the message well formed and makes it longer
by no more than the field, and a well-formed message is written as fields which set it again from
the empty message.  A field of message type is merged into what is there, so these facts go from the
parts of a message to the whole.  `InternalParse.lean` shows that the generated parsers do the same.

Main definitions:

* `IocpDemo.Wire.mergeFrom`, `IocpDemo.Wire.mergeSub` — reading the fields of some bytes and setting
  them;
* `IocpDemo.Wire.setClientId`, …, `IocpDemo.Wire.setWeapon` — setting one field;
* `IocpDemo.Wire.MessageFormat` — the two facts;
* `IocpDemo.Wire.WfClientId`, …, `IocpDemo.Wire.WfWeapon` — when a message is well formed: its
  unknown fields are fields, and none of them is one the type knows.

Main results:

* `IocpDemo.Wire.MessageFormat.mergeFrom_wf`, `IocpDemo.Wire.MessageFormat.roundTrip` — **what is
  read is well formed and no longer than its input, and it is read back from what is written**;
* `IocpDemo.Wire.format_clientId`, …, `IocpDemo.Wire.format_weapon` — the formats of the messages.
-/

import IocpDemo.WireFields
import IocpDemo.WireFormat
import Mathlib.Logic.Equiv.Defs

set_option relaxedAutoImplicit false
set_option autoImplicit false

namespace IocpDemo.Wire

/-! ### Setting fields -/

/-- Setting fields one after the other until one of them is malformed. -/
def applyFields {M : Type} (set : M → ℕ → WireValue → M × Bool) :
    M → List Field → M × Bool
  | m, [] => (m, true)
  | m, (number, value) :: fields =>
      match set m number value with
      | (m, true) => applyFields set m fields
      | (m, false) => (m, false)

/-- Merging the fields of a sequence of bytes into a message. -/
def mergeFrom {M : Type} (depth : ℕ) (set : M → ℕ → WireValue → M × Bool) (m : M)
    (bs : List UInt8) : M × Bool :=
  let fields := readFields depth bs.length bs
  let r := applyFields set m fields.1
  (r.1, r.2 && fields.2)

/-- A field of message type: it is created when absent, and merged into. -/
def mergeSub {S : Type} (depth : ℕ) (set : S → ℕ → WireValue → S × Bool) (default : S)
    (old : Option S) (bs : List UInt8) : Option S × Bool :=
  let r := mergeFrom depth set (old.getD default) bs
  (some r.1, r.2)

/-- How many groups may be open inside a message that is part of another one. -/
abbrev innerDepth : ℕ := recursionLimit - 1

/-! ### Formats of messages -/

/-- `write` and `set` agree on the well-formed messages. -/
structure MessageFormat {M : Type} (depth : ℕ) (default : M) (set : M → ℕ → WireValue → M × Bool)
    (write : M → List UInt8) (Wf : M → Prop) : Prop where
  wf_default : Wf default
  write_default : write default = []
  set_wf : ∀ m number v, Wf m → Field.Valid depth (number, v) → Wf (set m number v).1 ∧
    (write (set m number v).1).length ≤ (write m).length + (writeField number v).length
  exists_fields : ∀ m, Wf m → (write m).length ≤ maxLimit → ∃ fields : List Field,
    write m = encodeFields fields ∧ (∀ f ∈ fields, f.Valid depth) ∧
      applyFields set default fields = (m, true)

theorem applyFields_append {M : Type} {set : M → ℕ → WireValue → M × Bool} {m m' : M}
    {a : List Field} (h : applyFields set m a = (m', true)) (b : List Field) :
    applyFields set m (a ++ b) = applyFields set m' b := by
  induction a generalizing m with
  | nil =>
      obtain ⟨rfl, -⟩ := Prod.mk.inj h
      rfl
  | cons f a ih =>
      obtain ⟨number, v⟩ := f
      rw [List.cons_append, applyFields]
      rw [applyFields] at h
      split at h
      · exact ih h
      · cases h

namespace MessageFormat

variable {M : Type} {depth : ℕ} {default : M} {set : M → ℕ → WireValue → M × Bool}
  {write : M → List UInt8} {Wf : M → Prop}

theorem applyFields_wf (hM : MessageFormat depth default set write Wf) {fields : List Field}
    (hf : ∀ f ∈ fields, f.Valid depth) {m : M} (hm : Wf m) :
    Wf (applyFields set m fields).1 ∧
      (write (applyFields set m fields).1).length ≤
        (write m).length + (encodeFields fields).length := by
  induction fields generalizing m with
  | nil => exact ⟨hm, Nat.le_add_right _ _⟩
  | cons f fields ih =>
      obtain ⟨number, v⟩ := f
      obtain ⟨hwf, hlen⟩ := hM.set_wf m number v hm (hf _ List.mem_cons_self)
      simp only [applyFields, encodeFields_cons, List.length_append]
      -- at a malformed field the message is left as it is
      split
      · rename_i m' hset
        rw [hset] at hwf hlen
        obtain ⟨hwf', hlen'⟩ := ih (fun g hg => hf g (List.mem_cons_of_mem _ hg)) hwf
        exact ⟨hwf', by simp only at hlen hlen'; omega⟩
      · rename_i m' hset
        rw [hset] at hwf hlen
        exact ⟨hwf, by simp only at hlen ⊢; omega⟩

/-- **What is parsed is well formed, and no longer than its input.** -/
theorem mergeFrom_wf (hM : MessageFormat depth default set write Wf) {m : M} (hm : Wf m)
    (bs : List UInt8) : Wf (mergeFrom depth set m bs).1 ∧
      (write (mergeFrom depth set m bs).1).length ≤ (write m).length + bs.length := by
  obtain ⟨hvalid, hlen⟩ := readFields_valid bs.length bs
  obtain ⟨hwf, hle⟩ := hM.applyFields_wf hvalid hm
  exact ⟨hwf, by simp only [mergeFrom]; omega⟩

/-- **A message is parsed back from what is written of it.** -/
theorem roundTrip (hM : MessageFormat depth default set write Wf) {m : M} (hm : Wf m)
    (hlen : (write m).length ≤ maxLimit) : mergeFrom depth set default (write m) = (m, true) := by
  obtain ⟨fields, hwrite, hvalid, happly⟩ := hM.exists_fields m hm hlen
  have hread := readFields_encodeFields hvalid (Nat.le_refl _)
  simp [mergeFrom, hwrite, hread, happly]

/-- A field of message type stays well formed, and becomes longer by no more than what is merged
into it. -/
theorem mergeSub_wf (hM : MessageFormat depth default set write Wf) {old : Option M}
    (hold : ∀ m ∈ old, Wf m) (number : ℕ) (bs : List UInt8) :
    (∀ m ∈ (mergeSub depth set default old bs).1, Wf m) ∧
      (writeOption number (fun m => .len (write m)) (mergeSub depth set default old bs).1).length ≤
        (writeOption number (fun m => .len (write m)) old).length +
          (writeField number (.len bs)).length := by
  have hwf : Wf (old.getD default) := by
    cases old with
    | none => exact hM.wf_default
    | some m => exact hold m rfl
  obtain ⟨hwf', hlen⟩ := hM.mergeFrom_wf hwf bs
  refine ⟨by simpa [mergeSub] using hwf', ?_⟩
  simp only [mergeSub, writeOption, length_writeField, WireValue.wireType, WireValue.body,
    List.length_append]
  cases old with
  | none =>
      simp only [Option.getD_none, hM.write_default, List.length_nil] at hlen ⊢
      have := length_writeVarint_mono 5 (Nat.le_trans hlen (Nat.le_of_eq (Nat.zero_add _)))
      omega
  | some m =>
      simp only [Option.getD_some] at hlen ⊢
      have hmono := length_writeVarint_mono 5 hlen
      have hadd := length_writeVarint_add (k := 5) (by decide) (write m).length bs.length
      simp only [length_writeField, WireValue.wireType, WireValue.body, List.length_append]
      omega

end MessageFormat

/-- The same format under other field names. -/
theorem MessageFormat.congr {M N : Type} (e : N ≃ M) {depth : ℕ} {default : M}
    {set : M → ℕ → WireValue → M × Bool} {set' : N → ℕ → WireValue → N × Bool}
    {write : M → List UInt8} {Wf : M → Prop} (hM : MessageFormat depth default set write Wf)
    (hset : ∀ m number v,
      set' m number v = (e.symm (set (e m) number v).1, (set (e m) number v).2)) :
    MessageFormat depth (e.symm default) set' (fun m => write (e m)) fun m => Wf (e m) where
  wf_default := by simpa using hM.wf_default
  write_default := by simpa using hM.write_default
  set_wf m number v hm hv := by
    rw [hset]
    simpa using hM.set_wf (e m) number v hm hv
  exists_fields m hm hlen := by
    obtain ⟨fields, hwrite, hvalid, happly⟩ := hM.exists_fields (e m) hm hlen
    refine ⟨fields, hwrite, hvalid, ?_⟩
    have hall : ∀ (fields : List Field) (x : M), applyFields set' (e.symm x) fields =
        (e.symm (applyFields set x fields).1, (applyFields set x fields).2) := by
      intro fields
      induction fields with
      | nil => exact fun x => rfl
      | cons f fields ih =>
          intro x
          obtain ⟨number, v⟩ := f
          rw [applyFields, applyFields, hset, e.apply_symm_apply]
          cases hx : set x number v with
          | mk y ok =>
              cases ok with
              | true => exact ih y
              | false => rfl
    rw [hall, happly, e.symm_apply_apply]

/-! ### Parts of messages -/

/-- The unknown fields of a message, kept as they were read. -/
def UnknownWf (depth : ℕ) (known : ℕ → WireValue → Bool) (unknown : UnknownFields) : Prop :=
  ∃ fields : List Field, unknown = encodeFields fields ∧
    ∀ f ∈ fields, f.Valid depth ∧ known f.1 f.2 = false

theorem UnknownWf.nil (depth : ℕ) (known : ℕ → WireValue → Bool) : UnknownWf depth known [] :=
  ⟨[], rfl, by simp⟩

theorem UnknownWf.append {depth : ℕ} {known : ℕ → WireValue → Bool} {unknown : UnknownFields}
    (h : UnknownWf depth known unknown) {number : ℕ} {v : WireValue}
    (hv : Field.Valid depth (number, v)) (hk : known number v = false) :
    UnknownWf depth known (unknown ++ writeField number v) := by
  obtain ⟨fields, rfl, hfields⟩ := h
  refine ⟨fields ++ [(number, v)], by simp, fun f hf => ?_⟩
  rcases List.mem_append.1 hf with hold | hnew
  · exact hfields f hold
  · obtain rfl := List.mem_singleton.1 hnew
    exact ⟨hv, hk⟩

/-- Unknown fields are collected. -/
theorem applyFields_unknown {M : Type} {set : M → ℕ → WireValue → M × Bool}
    {known : ℕ → WireValue → Bool} (put : UnknownFields → M)
    (hset : ∀ u number v, known number v = false →
      set (put u) number v = (put (u ++ writeField number v), true))
    {fields : List Field} (hf : ∀ f ∈ fields, known f.1 f.2 = false) (u : UnknownFields) :
    applyFields set (put u) fields = (put (u ++ encodeFields fields), true) := by
  induction fields generalizing u with
  | nil => simp [applyFields]
  | cons f fields ih =>
      obtain ⟨number, v⟩ := f
      rw [applyFields, hset u number v (hf _ List.mem_cons_self)]
      simp only [ih (fun g hg => hf g (List.mem_cons_of_mem _ hg)), encodeFields_cons,
        List.append_assoc]

/-- A field with presence, as a sequence of fields. -/
def optionFields {A : Type} (number : ℕ) (value : A → WireValue) (o : Option A) : List Field :=
  (o.map fun a => (number, value a)).toList

/-- A `float` without presence, as a sequence of fields. -/
def floatFields (number : ℕ) (v : Float32Bits) : List Field :=
  if v = 0 then [] else [(number, .i32 v)]

section Parts

variable {A M : Type} (set : M → ℕ → WireValue → M × Bool) (number : ℕ)

@[simp] theorem encodeFields_optionFields (value : A → WireValue) (o : Option A) :
    encodeFields (optionFields number value o) = writeOption number value o := by
  cases o <;> simp [optionFields, writeOption]

@[simp] theorem encodeFields_floatFields (v : Float32Bits) :
    encodeFields (floatFields number v) = writeFloat number v := by
  unfold floatFields writeFloat
  split <;> simp

theorem applyFields_option (value : A → WireValue) (put : Option A → M) (o : Option A)
    (h : ∀ a ∈ o, set (put none) number (value a) = (put (some a), true)) :
    applyFields set (put none) (optionFields number value o) = (put o, true) := by
  cases o with
  | none => rfl
  | some a => simp [optionFields, applyFields, h a rfl]

theorem applyFields_float (put : Float32Bits → M) (v : Float32Bits)
    (h : set (put 0) number (.i32 v) = (put v, true)) :
    applyFields set (put 0) (floatFields number v) = (put v, true) := by
  unfold floatFields
  split
  · rename_i hv
    rw [hv]
    rfl
  · simp [applyFields, h]

/-- The number of a field of the game's messages fits a tag. -/
theorem Field.valid_of_le {depth number : ℕ} {v : WireValue} (hpos : 0 < number)
    (hle : number ≤ 8) (hv : v.Valid depth number) : Field.Valid depth (number, v) := by
  have hsmall : (71 : ℕ) < 4294967296 := by decide
  exact ⟨⟨hpos, by simp only; omega⟩, hv⟩

theorem valid_optionFields (value : A → WireValue) {o : Option A} (hnumber : 0 < number)
    (hsmall : number ≤ 8) {depth : ℕ} (hv : ∀ a ∈ o, (value a).Valid depth number) :
    ∀ f ∈ optionFields number value o, f.Valid depth := by
  intro f hf
  cases o with
  | none => cases hf
  | some a =>
      obtain rfl : f = (number, value a) := by simpa [optionFields] using hf
      exact Field.valid_of_le hnumber hsmall (hv a rfl)

theorem valid_floatFields {depth : ℕ} (v : Float32Bits) (hnumber : 0 < number)
    (hsmall : number ≤ 8) : ∀ f ∈ floatFields number v, f.Valid depth := by
  intro f hf
  unfold floatFields at hf
  split at hf
  · cases hf
  · obtain rfl := List.mem_singleton.1 hf
    exact Field.valid_of_le hnumber hsmall trivial

/-- A part of a message is no longer than the message. -/
theorem length_le_of_writeOption {write : A → List UInt8} {o : Option A} {k : ℕ}
    (h : (writeOption number (fun m => .len (write m)) o).length ≤ k) :
    ∀ a ∈ o, (write a).length ≤ k := by
  intro a ha
  rw [Option.mem_def.1 ha] at h
  simp only [writeOption, length_writeField, WireValue.body, List.length_append] at h
  omega

theorem length_writeFloat_le (v : Float32Bits) :
    (writeFloat number v).length ≤ (writeField number (.i32 v)).length := by
  unfold writeFloat
  split <;> simp

/-- A smaller number makes no longer field. -/
theorem length_writeField_varint_mono {a b : UInt64} (h : a.toNat ≤ b.toNat) :
    (writeField number (.varint a)).length ≤ (writeField number (.varint b)).length := by
  have := length_writeVarint_mono 10 h
  simp only [length_writeField, WireValue.wireType, WireValue.body]
  omega

end Parts

/-! ### `PClientId` -/

def setClientId (m : PClientId) : ℕ → WireValue → PClientId × Bool
  | 1, .varint v => ({ m with index := v.toUInt32 }, true)
  | number, value => ({ m with unknown := m.unknown ++ writeField number value }, true)

/-- The fields the type knows. -/
def knownClientId : ℕ → WireValue → Bool
  | 1, .varint _ => true
  | _, _ => false

theorem setClientId_unknown (m : PClientId) {number : ℕ} {v : WireValue}
    (h : knownClientId number v = false) :
    setClientId m number v = ({ m with unknown := m.unknown ++ writeField number v }, true) := by
  unfold setClientId
  split
  · cases h
  · rfl

def WfClientId (depth : ℕ) (m : PClientId) : Prop :=
  UnknownWf depth knownClientId m.unknown

theorem format_clientId (depth : ℕ) :
    MessageFormat depth {} setClientId writeClientId (WfClientId depth) where
  wf_default := UnknownWf.nil _ _
  write_default := rfl
  set_wf m number v hm hv := by
    cases hk : knownClientId number v with
    | false =>
        rw [setClientId_unknown m hk]
        refine ⟨hm.append hv hk, ?_⟩
        simp only [writeClientId, List.length_append]
        omega
    | true =>
        unfold knownClientId at hk
        split at hk
        · rename_i x
          have hle : x.toUInt32.toUInt64.toNat ≤ x.toNat := by
            simp only [UInt32.toNat_toUInt64, UInt64.toNat_toUInt32]
            omega
          have hlen := length_writeField_varint_mono 1 hle
          have hindex : (if x.toUInt32 = 0 then [] else
              writeField 1 (.varint x.toUInt32.toUInt64)).length ≤
                (writeField 1 (.varint x.toUInt32.toUInt64)).length := by
            split <;> simp
          refine ⟨hm, ?_⟩
          simp only [setClientId, writeClientId, List.length_append]
          omega
        · cases hk
  exists_fields m hm _ := by
    obtain ⟨fields, hunknown, hfields⟩ := hm
    refine ⟨(if m.index = 0 then [] else [(1, .varint m.index.toUInt64)]) ++ fields, ?_, ?_, ?_⟩
    · simp only [writeClientId, hunknown, encodeFields_append]
      split <;> simp
    · intro f hf
      rcases List.mem_append.1 hf with hindex | hold
      · split at hindex
        · cases hindex
        · obtain rfl := List.mem_singleton.1 hindex
          exact Field.valid_of_le (by decide) (by decide) trivial
      · exact (hfields f hold).1
    · have hindex : applyFields setClientId {}
          (if m.index = 0 then [] else [(1, .varint m.index.toUInt64)]) =
            ({ index := m.index }, true) := by
        split
        · rename_i h
          rw [h]
          rfl
        · simp [applyFields, setClientId]
      have hrest := applyFields_unknown (fun u => (⟨m.index, u⟩ : PClientId))
        (fun u _ _ hk => setClientId_unknown ⟨m.index, u⟩ hk) (fun f hf => (hfields f hf).2) []
      rw [applyFields_append hindex, hrest, List.nil_append, ← hunknown]

/-! ### `PVector` and `PRotator` -/

def setVector (m : PVector) : ℕ → WireValue → PVector × Bool
  | 1, .i32 v => ({ m with x := v }, true)
  | 2, .i32 v => ({ m with y := v }, true)
  | 3, .i32 v => ({ m with z := v }, true)
  | number, value => ({ m with unknown := m.unknown ++ writeField number value }, true)

/-- The fields of three components. -/
def knownComponents : ℕ → WireValue → Bool
  | 1, .i32 _ | 2, .i32 _ | 3, .i32 _ => true
  | _, _ => false

theorem setVector_unknown (m : PVector) {number : ℕ} {v : WireValue}
    (h : knownComponents number v = false) :
    setVector m number v = ({ m with unknown := m.unknown ++ writeField number v }, true) := by
  unfold setVector
  split <;> first | cases h | rfl

def WfVector (depth : ℕ) (m : PVector) : Prop :=
  UnknownWf depth knownComponents m.unknown

theorem format_vector (depth : ℕ) :
    MessageFormat depth {} setVector writeVector (WfVector depth) where
  wf_default := UnknownWf.nil _ _
  write_default := rfl
  set_wf m number v hm hv := by
    cases hk : knownComponents number v with
    | false =>
        rw [setVector_unknown m hk]
        refine ⟨hm.append hv hk, ?_⟩
        simp only [writeVector, List.length_append]
        omega
    | true =>
        unfold knownComponents at hk
        split at hk
        · rename_i x
          have := length_writeFloat_le 1 x
          refine ⟨hm, ?_⟩
          simp only [setVector, writeVector, List.length_append]
          omega
        · rename_i x
          have := length_writeFloat_le 2 x
          refine ⟨hm, ?_⟩
          simp only [setVector, writeVector, List.length_append]
          omega
        · rename_i x
          have := length_writeFloat_le 3 x
          refine ⟨hm, ?_⟩
          simp only [setVector, writeVector, List.length_append]
          omega
        · cases hk
  exists_fields m hm _ := by
    obtain ⟨fields, hunknown, hfields⟩ := hm
    refine ⟨floatFields 1 m.x ++ floatFields 2 m.y ++ floatFields 3 m.z ++ fields, ?_, ?_, ?_⟩
    · simp [writeVector, hunknown]
    · intro f hf
      simp only [List.mem_append, or_assoc] at hf
      rcases hf with hx | hy | hz | hold
      · exact valid_floatFields 1 _ (by omega) (by omega) f hx
      · exact valid_floatFields 2 _ (by omega) (by omega) f hy
      · exact valid_floatFields 3 _ (by omega) (by omega) f hz
      · exact (hfields f hold).1
    · have hx := applyFields_float setVector 1 (fun a => { x := a }) m.x rfl
      have hy := applyFields_float setVector 2 (fun a => { x := m.x, y := a }) m.y rfl
      have hz := applyFields_float setVector 3
        (fun a => { x := m.x, y := m.y, z := a }) m.z rfl
      have hrest := applyFields_unknown (fun u => (⟨m.x, m.y, m.z, u⟩ : PVector))
        (fun u _ _ hk => setVector_unknown ⟨m.x, m.y, m.z, u⟩ hk)
        (fun f hf => (hfields f hf).2) []
      rw [List.append_assoc, List.append_assoc, applyFields_append hx, applyFields_append hy,
        applyFields_append hz, hrest, List.nil_append, ← hunknown]

def setRotator (m : PRotator) : ℕ → WireValue → PRotator × Bool
  | 1, .i32 v => ({ m with roll := v }, true)
  | 2, .i32 v => ({ m with pitch := v }, true)
  | 3, .i32 v => ({ m with yaw := v }, true)
  | number, value => ({ m with unknown := m.unknown ++ writeField number value }, true)

/-- A rotation is a vector with other names. -/
def rotatorEquiv : PRotator ≃ PVector where
  toFun m := ⟨m.roll, m.pitch, m.yaw, m.unknown⟩
  invFun m := ⟨m.x, m.y, m.z, m.unknown⟩
  left_inv _ := rfl
  right_inv _ := rfl

def WfRotator (depth : ℕ) (m : PRotator) : Prop := WfVector depth (rotatorEquiv m)

theorem format_rotator (depth : ℕ) :
    MessageFormat depth {} setRotator writeRotator (WfRotator depth) :=
  (format_vector depth).congr rotatorEquiv fun m number v => by
    unfold setRotator setVector
    split <;> rfl

/-! ### `PMovement` -/

def setMovement (m : PMovement) : ℕ → WireValue → PMovement × Bool
  | 1, .len bs => let r := mergeSub innerDepth setClientId {} m.id bs; ({ m with id := r.1 }, r.2)
  | 2, .len bs => let r := mergeSub innerDepth setVector {} m.loc bs; ({ m with loc := r.1 }, r.2)
  | 3, .len bs => let r := mergeSub innerDepth setRotator {} m.rot bs; ({ m with rot := r.1 }, r.2)
  | 4, .len bs => let r := mergeSub innerDepth setVector {} m.vel bs; ({ m with vel := r.1 }, r.2)
  | number, value => ({ m with unknown := m.unknown ++ writeField number value }, true)

def knownMovement : ℕ → WireValue → Bool
  | 1, .len _ | 2, .len _ | 3, .len _ | 4, .len _ => true
  | _, _ => false

theorem setMovement_unknown (m : PMovement) {number : ℕ} {v : WireValue}
    (h : knownMovement number v = false) :
    setMovement m number v = ({ m with unknown := m.unknown ++ writeField number v }, true) := by
  unfold setMovement
  split <;> first | cases h | rfl

structure WfMovement (m : PMovement) : Prop where
  id : ∀ i ∈ m.id, WfClientId innerDepth i
  loc : ∀ v ∈ m.loc, WfVector innerDepth v
  rot : ∀ r ∈ m.rot, WfRotator innerDepth r
  vel : ∀ v ∈ m.vel, WfVector innerDepth v
  unknown : UnknownWf recursionLimit knownMovement m.unknown

theorem format_movement :
    MessageFormat recursionLimit {} setMovement writeMovement WfMovement where
  wf_default := ⟨by simp, by simp, by simp, by simp, UnknownWf.nil _ _⟩
  write_default := rfl
  set_wf m number v hm hv := by
    cases hk : knownMovement number v with
    | false =>
        rw [setMovement_unknown m hk]
        refine ⟨{ hm with unknown := hm.unknown.append hv hk }, ?_⟩
        simp only [writeMovement, List.length_append]
        omega
    | true =>
        unfold knownMovement at hk
        split at hk
        · rename_i bs
          obtain ⟨hwf, hlen⟩ := (format_clientId innerDepth).mergeSub_wf hm.id 1 bs
          refine ⟨{ hm with id := hwf }, ?_⟩
          simp only [setMovement, writeMovement, List.length_append]
          omega
        · rename_i bs
          obtain ⟨hwf, hlen⟩ := (format_vector innerDepth).mergeSub_wf hm.loc 2 bs
          refine ⟨{ hm with loc := hwf }, ?_⟩
          simp only [setMovement, writeMovement, List.length_append]
          omega
        · rename_i bs
          obtain ⟨hwf, hlen⟩ := (format_rotator innerDepth).mergeSub_wf hm.rot 3 bs
          refine ⟨{ hm with rot := hwf }, ?_⟩
          simp only [setMovement, writeMovement, List.length_append]
          omega
        · rename_i bs
          obtain ⟨hwf, hlen⟩ := (format_vector innerDepth).mergeSub_wf hm.vel 4 bs
          refine ⟨{ hm with vel := hwf }, ?_⟩
          simp only [setMovement, writeMovement, List.length_append]
          omega
        · cases hk
  exists_fields m hm hlen := by
    obtain ⟨fields, hunknown, hfields⟩ := hm.unknown
    simp only [writeMovement, List.length_append] at hlen
    have hid : ∀ i ∈ m.id, (writeClientId i).length ≤ maxLimit :=
      length_le_of_writeOption 1 (by omega)
    have hloc : ∀ v ∈ m.loc, (writeVector v).length ≤ maxLimit :=
      length_le_of_writeOption 2 (by omega)
    have hrot : ∀ r ∈ m.rot, (writeRotator r).length ≤ maxLimit :=
      length_le_of_writeOption 3 (by omega)
    have hvel : ∀ v ∈ m.vel, (writeVector v).length ≤ maxLimit :=
      length_le_of_writeOption 4 (by omega)
    refine ⟨optionFields 1 (fun s => .len (writeClientId s)) m.id ++
      (optionFields 2 (fun s => .len (writeVector s)) m.loc ++
      (optionFields 3 (fun s => .len (writeRotator s)) m.rot ++
      (optionFields 4 (fun s => .len (writeVector s)) m.vel ++ fields))), ?_, ?_, ?_⟩
    · simp [writeMovement, hunknown]
    · intro f hf
      simp only [List.mem_append] at hf
      rcases hf with h | h | h | h | h
      · exact valid_optionFields 1 _ (by omega) (by omega) hid f h
      · exact valid_optionFields 2 _ (by omega) (by omega) hloc f h
      · exact valid_optionFields 3 _ (by omega) (by omega) hrot f h
      · exact valid_optionFields 4 _ (by omega) (by omega) hvel f h
      · exact (hfields f h).1
    · have h₁ := applyFields_option setMovement 1 (fun s => .len (writeClientId s))
        (fun o => { id := o }) m.id fun i hi => by
          simp [setMovement, mergeSub,
            (format_clientId innerDepth).roundTrip (hm.id i hi) (hid i hi)]
      have h₂ := applyFields_option setMovement 2 (fun s => .len (writeVector s))
        (fun o => { id := m.id, loc := o }) m.loc fun v hv => by
          simp [setMovement, mergeSub,
            (format_vector innerDepth).roundTrip (hm.loc v hv) (hloc v hv)]
      have h₃ := applyFields_option setMovement 3 (fun s => .len (writeRotator s))
        (fun o => { id := m.id, loc := m.loc, rot := o }) m.rot fun r hr => by
          simp [setMovement, mergeSub,
            (format_rotator innerDepth).roundTrip (hm.rot r hr) (hrot r hr)]
      have h₄ := applyFields_option setMovement 4 (fun s => .len (writeVector s))
        (fun o => { id := m.id, loc := m.loc, rot := m.rot, vel := o }) m.vel fun v hv => by
          simp [setMovement, mergeSub,
            (format_vector innerDepth).roundTrip (hm.vel v hv) (hvel v hv)]
      have h₅ := applyFields_unknown
        (fun u => (⟨m.id, m.loc, m.rot, m.vel, u⟩ : PMovement))
        (fun u _ _ hk => setMovement_unknown ⟨m.id, m.loc, m.rot, m.vel, u⟩ hk)
        (fun f hf => (hfields f hf).2) []
      rw [applyFields_append h₁, applyFields_append h₂, applyFields_append h₃,
        applyFields_append h₄, h₅, List.nil_append, ← hunknown]

/-! ### `PFireEvent` -/

def setFireEvent (m : PFireEvent) : ℕ → WireValue → PFireEvent × Bool
  | 1, .len bs => let r := mergeSub innerDepth setClientId {} m.id bs; ({ m with id := r.1 }, r.2)
  | 2, .i32 v => ({ m with randomSeed := v }, true)
  | 3, .len bs =>
      let r := mergeSub innerDepth setVector {} m.aimDir bs
      ({ m with aimDir := r.1 }, r.2)
  | 4, .len bs =>
      let r := mergeSub innerDepth setVector {} m.startTrace bs
      ({ m with startTrace := r.1 }, r.2)
  | number, value => ({ m with unknown := m.unknown ++ writeField number value }, true)

def knownFireEvent : ℕ → WireValue → Bool
  | 1, .len _ | 2, .i32 _ | 3, .len _ | 4, .len _ => true
  | _, _ => false

theorem setFireEvent_unknown (m : PFireEvent) {number : ℕ} {v : WireValue}
    (h : knownFireEvent number v = false) :
    setFireEvent m number v = ({ m with unknown := m.unknown ++ writeField number v }, true) := by
  unfold setFireEvent
  split <;> first | cases h | rfl

structure WfFireEvent (m : PFireEvent) : Prop where
  id : ∀ i ∈ m.id, WfClientId innerDepth i
  aimDir : ∀ v ∈ m.aimDir, WfVector innerDepth v
  startTrace : ∀ v ∈ m.startTrace, WfVector innerDepth v
  unknown : UnknownWf recursionLimit knownFireEvent m.unknown

theorem format_fireEvent :
    MessageFormat recursionLimit {} setFireEvent writeFireEvent WfFireEvent where
  wf_default := ⟨by simp, by simp, by simp, UnknownWf.nil _ _⟩
  write_default := rfl
  set_wf m number v hm hv := by
    cases hk : knownFireEvent number v with
    | false =>
        rw [setFireEvent_unknown m hk]
        refine ⟨{ hm with unknown := hm.unknown.append hv hk }, ?_⟩
        simp only [writeFireEvent, List.length_append]
        omega
    | true =>
        unfold knownFireEvent at hk
        split at hk
        · rename_i bs
          obtain ⟨hwf, hlen⟩ := (format_clientId innerDepth).mergeSub_wf hm.id 1 bs
          refine ⟨{ hm with id := hwf }, ?_⟩
          simp only [setFireEvent, writeFireEvent, List.length_append]
          omega
        · rename_i x
          have := length_writeFloat_le 2 x
          refine ⟨{ hm with }, ?_⟩
          simp only [setFireEvent, writeFireEvent, List.length_append]
          omega
        · rename_i bs
          obtain ⟨hwf, hlen⟩ := (format_vector innerDepth).mergeSub_wf hm.aimDir 3 bs
          refine ⟨{ hm with aimDir := hwf }, ?_⟩
          simp only [setFireEvent, writeFireEvent, List.length_append]
          omega
        · rename_i bs
          obtain ⟨hwf, hlen⟩ := (format_vector innerDepth).mergeSub_wf hm.startTrace 4 bs
          refine ⟨{ hm with startTrace := hwf }, ?_⟩
          simp only [setFireEvent, writeFireEvent, List.length_append]
          omega
        · cases hk
  exists_fields m hm hlen := by
    obtain ⟨fields, hunknown, hfields⟩ := hm.unknown
    simp only [writeFireEvent, List.length_append] at hlen
    have hid : ∀ i ∈ m.id, (writeClientId i).length ≤ maxLimit :=
      length_le_of_writeOption 1 (by omega)
    have haim : ∀ v ∈ m.aimDir, (writeVector v).length ≤ maxLimit :=
      length_le_of_writeOption 3 (by omega)
    have htrace : ∀ v ∈ m.startTrace, (writeVector v).length ≤ maxLimit :=
      length_le_of_writeOption 4 (by omega)
    refine ⟨optionFields 1 (fun s => .len (writeClientId s)) m.id ++
      (floatFields 2 m.randomSeed ++
      (optionFields 3 (fun s => .len (writeVector s)) m.aimDir ++
      (optionFields 4 (fun s => .len (writeVector s)) m.startTrace ++ fields))), ?_, ?_, ?_⟩
    · simp [writeFireEvent, hunknown]
    · intro f hf
      simp only [List.mem_append] at hf
      rcases hf with h | h | h | h | h
      · exact valid_optionFields 1 _ (by omega) (by omega) hid f h
      · exact valid_floatFields 2 _ (by omega) (by omega) f h
      · exact valid_optionFields 3 _ (by omega) (by omega) haim f h
      · exact valid_optionFields 4 _ (by omega) (by omega) htrace f h
      · exact (hfields f h).1
    · have h₁ := applyFields_option setFireEvent 1 (fun s => .len (writeClientId s))
        (fun o => { id := o }) m.id fun i hi => by
          simp [setFireEvent, mergeSub,
            (format_clientId innerDepth).roundTrip (hm.id i hi) (hid i hi)]
      have h₂ := applyFields_float setFireEvent 2
        (fun a => { id := m.id, randomSeed := a }) m.randomSeed rfl
      have h₃ := applyFields_option setFireEvent 3 (fun s => .len (writeVector s))
        (fun o => { id := m.id, randomSeed := m.randomSeed, aimDir := o }) m.aimDir fun v hv => by
          simp [setFireEvent, mergeSub,
            (format_vector innerDepth).roundTrip (hm.aimDir v hv) (haim v hv)]
      have h₄ := applyFields_option setFireEvent 4 (fun s => .len (writeVector s))
        (fun o => { id := m.id, randomSeed := m.randomSeed, aimDir := m.aimDir, startTrace := o })
        m.startTrace fun v hv => by
          simp [setFireEvent, mergeSub,
            (format_vector innerDepth).roundTrip (hm.startTrace v hv) (htrace v hv)]
      have h₅ := applyFields_unknown
        (fun u => (⟨m.id, m.randomSeed, m.aimDir, m.startTrace, u⟩ : PFireEvent))
        (fun u _ _ hk => setFireEvent_unknown ⟨m.id, m.randomSeed, m.aimDir, m.startTrace, u⟩ hk)
        (fun f hf => (hfields f hf).2) []
      rw [applyFields_append h₁, applyFields_append h₂, applyFields_append h₃,
        applyFields_append h₄, h₅, List.nil_append, ← hunknown]

/-! ### `PAnimState` -/

def setAnimState (m : PAnimState) : ℕ → WireValue → PAnimState × Bool
  | 1, .len bs => let r := mergeSub innerDepth setClientId {} m.id bs; ({ m with id := r.1 }, r.2)
  | 2, .i32 v => ({ m with aimYaw := some v }, true)
  | 3, .i32 v => ({ m with aimPitch := some v }, true)
  | number, value => ({ m with unknown := m.unknown ++ writeField number value }, true)

def knownAnimState : ℕ → WireValue → Bool
  | 1, .len _ | 2, .i32 _ | 3, .i32 _ => true
  | _, _ => false

theorem setAnimState_unknown (m : PAnimState) {number : ℕ} {v : WireValue}
    (h : knownAnimState number v = false) :
    setAnimState m number v = ({ m with unknown := m.unknown ++ writeField number v }, true) := by
  unfold setAnimState
  split <;> first | cases h | rfl

structure WfAnimState (m : PAnimState) : Prop where
  id : ∀ i ∈ m.id, WfClientId innerDepth i
  unknown : UnknownWf recursionLimit knownAnimState m.unknown

theorem format_animState :
    MessageFormat recursionLimit {} setAnimState writeAnimState WfAnimState where
  wf_default := ⟨by simp, UnknownWf.nil _ _⟩
  write_default := rfl
  set_wf m number v hm hv := by
    cases hk : knownAnimState number v with
    | false =>
        rw [setAnimState_unknown m hk]
        refine ⟨{ hm with unknown := hm.unknown.append hv hk }, ?_⟩
        simp only [writeAnimState, List.length_append]
        omega
    | true =>
        unfold knownAnimState at hk
        split at hk
        · rename_i bs
          obtain ⟨hwf, hlen⟩ := (format_clientId innerDepth).mergeSub_wf hm.id 1 bs
          refine ⟨{ hm with id := hwf }, ?_⟩
          simp only [setAnimState, writeAnimState, List.length_append]
          omega
        · refine ⟨{ hm with }, ?_⟩
          simp only [setAnimState, writeAnimState, List.length_append, writeOption]
          omega
        · refine ⟨{ hm with }, ?_⟩
          simp only [setAnimState, writeAnimState, List.length_append, writeOption]
          omega
        · cases hk
  exists_fields m hm hlen := by
    obtain ⟨fields, hunknown, hfields⟩ := hm.unknown
    simp only [writeAnimState, List.length_append] at hlen
    have hid : ∀ i ∈ m.id, (writeClientId i).length ≤ maxLimit :=
      length_le_of_writeOption 1 (by omega)
    refine ⟨optionFields 1 (fun s => .len (writeClientId s)) m.id ++
      (optionFields 2 .i32 m.aimYaw ++ (optionFields 3 .i32 m.aimPitch ++ fields)), ?_, ?_, ?_⟩
    · simp [writeAnimState, hunknown]
    · intro f hf
      simp only [List.mem_append] at hf
      rcases hf with h | h | h | h
      · exact valid_optionFields 1 _ (by omega) (by omega) hid f h
      · exact valid_optionFields 2 .i32 (by omega) (by omega) (fun _ _ => trivial) f h
      · exact valid_optionFields 3 .i32 (by omega) (by omega) (fun _ _ => trivial) f h
      · exact (hfields f h).1
    · have h₁ := applyFields_option setAnimState 1 (fun s => .len (writeClientId s))
        (fun o => { id := o }) m.id fun i hi => by
          simp [setAnimState, mergeSub,
            (format_clientId innerDepth).roundTrip (hm.id i hi) (hid i hi)]
      have h₂ := applyFields_option setAnimState 2 .i32
        (fun o => { id := m.id, aimYaw := o }) m.aimYaw fun _ _ => rfl
      have h₃ := applyFields_option setAnimState 3 .i32
        (fun o => { id := m.id, aimYaw := m.aimYaw, aimPitch := o }) m.aimPitch fun _ _ => rfl
      have h₄ := applyFields_unknown
        (fun u => (⟨m.id, m.aimYaw, m.aimPitch, u⟩ : PAnimState))
        (fun u _ _ hk => setAnimState_unknown ⟨m.id, m.aimYaw, m.aimPitch, u⟩ hk)
        (fun f hf => (hfields f hf).2) []
      rw [applyFields_append h₁, applyFields_append h₂, applyFields_append h₃, h₄,
        List.nil_append, ← hunknown]

/-! ### `PWeapon` -/

def setWeapon (m : PWeapon) : ℕ → WireValue → PWeapon × Bool
  | 1, .len bs => let r := mergeSub innerDepth setClientId {} m.id bs; ({ m with id := r.1 }, r.2)
  | 2, .varint v => ({ m with startFire := some (v ≠ 0) }, true)
  | 3, .varint v => ({ m with stopFire := some (v ≠ 0) }, true)
  | 4, .varint v => ({ m with changeNextWeapon := some (v ≠ 0) }, true)
  | 5, .varint v => ({ m with changePrevWeapon := some (v ≠ 0) }, true)
  | 6, .varint v => ({ m with startReload := some (v ≠ 0) }, true)
  | 7, .varint v => ({ m with ammo := some v.toUInt32 }, true)
  | 8, .varint v => ({ m with clipAmmo := some v.toUInt32 }, true)
  | number, value => ({ m with unknown := m.unknown ++ writeField number value }, true)

def knownWeapon : ℕ → WireValue → Bool
  | 1, .len _ | 2, .varint _ | 3, .varint _ | 4, .varint _ | 5, .varint _ | 6, .varint _
  | 7, .varint _ | 8, .varint _ => true
  | _, _ => false

theorem setWeapon_unknown (m : PWeapon) {number : ℕ} {v : WireValue}
    (h : knownWeapon number v = false) :
    setWeapon m number v = ({ m with unknown := m.unknown ++ writeField number v }, true) := by
  unfold setWeapon
  split <;> first | cases h | rfl

structure WfWeapon (m : PWeapon) : Prop where
  id : ∀ i ∈ m.id, WfClientId innerDepth i
  unknown : UnknownWf recursionLimit knownWeapon m.unknown

/-- How a flag is written. -/
def flagValue (b : Bool) : WireValue := .varint (if b then 1 else 0)

/-- How a count is written. -/
def countValue (v : UInt32) : WireValue := .varint v.toUInt64

theorem writeWeapon_eq (m : PWeapon) : writeWeapon m =
    writeOption 1 (fun s => .len (writeClientId s)) m.id ++ writeOption 2 flagValue m.startFire ++
      writeOption 3 flagValue m.stopFire ++ writeOption 4 flagValue m.changeNextWeapon ++
      writeOption 5 flagValue m.changePrevWeapon ++ writeOption 6 flagValue m.startReload ++
      writeOption 7 countValue m.ammo ++ writeOption 8 countValue m.clipAmmo ++ m.unknown := rfl

/-- A flag is written no longer than it was read. -/
theorem length_writeOption_flag (number : ℕ) (v : UInt64) (o : Option Bool) :
    (writeOption number flagValue (some (v ≠ 0))).length ≤
      (writeOption number flagValue o).length + (writeField number (.varint v)).length := by
  have hflag : (if v ≠ 0 then 1 else 0 : UInt64).toNat ≤ v.toNat := by
    by_cases hv : v = 0
    · simp [hv]
    · have hpos : 0 < v.toNat := Nat.pos_of_ne_zero fun h => hv (UInt64.toNat_inj.1 h)
      rw [if_pos hv]
      exact hpos
  have hle := length_writeField_varint_mono number hflag
  simp only [writeOption, flagValue, decide_eq_true_eq]
  omega

/-- A count is cut to 32 bits, which makes it no longer. -/
theorem length_writeOption_count (number : ℕ) (v : UInt64) (o : Option UInt32) :
    (writeOption number countValue (some v.toUInt32)).length ≤
      (writeOption number countValue o).length + (writeField number (.varint v)).length := by
  have hcount : v.toUInt32.toUInt64.toNat ≤ v.toNat := by
    simp only [UInt32.toNat_toUInt64, UInt64.toNat_toUInt32]
    omega
  have hle := length_writeField_varint_mono number hcount
  simp only [writeOption, countValue]
  omega

theorem format_weapon :
    MessageFormat recursionLimit {} setWeapon writeWeapon WfWeapon where
  wf_default := ⟨by simp, UnknownWf.nil _ _⟩
  write_default := rfl
  set_wf m number v hm hv := by
    cases hk : knownWeapon number v with
    | false =>
        rw [setWeapon_unknown m hk]
        refine ⟨{ hm with unknown := hm.unknown.append hv hk }, ?_⟩
        simp only [writeWeapon_eq, List.length_append]
        omega
    | true =>
        unfold knownWeapon at hk
        split at hk
        · rename_i bs
          obtain ⟨hwf, hlen⟩ := (format_clientId innerDepth).mergeSub_wf hm.id 1 bs
          refine ⟨{ hm with id := hwf }, ?_⟩
          simp only [setWeapon, writeWeapon_eq, List.length_append]
          omega
        · rename_i v
          have := length_writeOption_flag 2 v m.startFire
          refine ⟨{ hm with }, ?_⟩
          simp only [setWeapon, writeWeapon_eq, List.length_append]
          omega
        · rename_i v
          have := length_writeOption_flag 3 v m.stopFire
          refine ⟨{ hm with }, ?_⟩
          simp only [setWeapon, writeWeapon_eq, List.length_append]
          omega
        · rename_i v
          have := length_writeOption_flag 4 v m.changeNextWeapon
          refine ⟨{ hm with }, ?_⟩
          simp only [setWeapon, writeWeapon_eq, List.length_append]
          omega
        · rename_i v
          have := length_writeOption_flag 5 v m.changePrevWeapon
          refine ⟨{ hm with }, ?_⟩
          simp only [setWeapon, writeWeapon_eq, List.length_append]
          omega
        · rename_i v
          have := length_writeOption_flag 6 v m.startReload
          refine ⟨{ hm with }, ?_⟩
          simp only [setWeapon, writeWeapon_eq, List.length_append]
          omega
        · rename_i v
          have := length_writeOption_count 7 v m.ammo
          refine ⟨{ hm with }, ?_⟩
          simp only [setWeapon, writeWeapon_eq, List.length_append]
          omega
        · rename_i v
          have := length_writeOption_count 8 v m.clipAmmo
          refine ⟨{ hm with }, ?_⟩
          simp only [setWeapon, writeWeapon_eq, List.length_append]
          omega
        · cases hk
  exists_fields m hm hlen := by
    obtain ⟨fields, hunknown, hfields⟩ := hm.unknown
    simp only [writeWeapon_eq, List.length_append] at hlen
    have hid : ∀ i ∈ m.id, (writeClientId i).length ≤ maxLimit :=
      length_le_of_writeOption 1 (by omega)
    refine ⟨optionFields 1 (fun s => .len (writeClientId s)) m.id ++
      (optionFields 2 flagValue m.startFire ++ (optionFields 3 flagValue m.stopFire ++
      (optionFields 4 flagValue m.changeNextWeapon ++
      (optionFields 5 flagValue m.changePrevWeapon ++ (optionFields 6 flagValue m.startReload ++
      (optionFields 7 countValue m.ammo ++
      (optionFields 8 countValue m.clipAmmo ++ fields))))))), ?_, ?_, ?_⟩
    · simp [writeWeapon_eq, hunknown]
    · have hflag : ∀ {k : ℕ} (o : Option Bool), 0 < k → k ≤ 8 →
          ∀ f ∈ optionFields k flagValue o, f.Valid recursionLimit := by
        intro k o hpos hle
        exact valid_optionFields _ _ hpos hle fun _ _ => trivial
      have hcount : ∀ {k : ℕ} (o : Option UInt32), 0 < k → k ≤ 8 →
          ∀ f ∈ optionFields k countValue o, f.Valid recursionLimit := by
        intro k o hpos hle
        exact valid_optionFields _ _ hpos hle fun _ _ => trivial
      intro f hf
      simp only [List.mem_append] at hf
      rcases hf with h | h | h | h | h | h | h | h | h
      · exact valid_optionFields 1 _ (by omega) (by omega) hid f h
      · exact hflag _ (by omega) (by omega) f h
      · exact hflag _ (by omega) (by omega) f h
      · exact hflag _ (by omega) (by omega) f h
      · exact hflag _ (by omega) (by omega) f h
      · exact hflag _ (by omega) (by omega) f h
      · exact hcount _ (by omega) (by omega) f h
      · exact hcount _ (by omega) (by omega) f h
      · exact (hfields f h).1
    · have h₁ := applyFields_option setWeapon 1 (fun s => .len (writeClientId s))
        (fun o => { id := o }) m.id fun i hi => by
          simp [setWeapon, mergeSub,
            (format_clientId innerDepth).roundTrip (hm.id i hi) (hid i hi)]
      have h₂ := applyFields_option setWeapon 2 flagValue
        (fun o => ⟨m.id, o, none, none, none,
          none, none, none, []⟩) m.startFire fun b _ => by cases b <;> rfl
      have h₃ := applyFields_option setWeapon 3 flagValue
        (fun o => ⟨m.id, m.startFire, o, none, none,
          none, none, none, []⟩) m.stopFire fun b _ => by cases b <;> rfl
      have h₄ := applyFields_option setWeapon 4 flagValue
        (fun o => ⟨m.id, m.startFire, m.stopFire, o, none,
          none, none, none, []⟩) m.changeNextWeapon fun b _ => by cases b <;> rfl
      have h₅ := applyFields_option setWeapon 5 flagValue
        (fun o => ⟨m.id, m.startFire, m.stopFire, m.changeNextWeapon, o,
          none, none, none, []⟩) m.changePrevWeapon fun b _ => by cases b <;> rfl
      have h₆ := applyFields_option setWeapon 6 flagValue
        (fun o => ⟨m.id, m.startFire, m.stopFire, m.changeNextWeapon, m.changePrevWeapon,
          o, none, none, []⟩) m.startReload fun b _ => by cases b <;> rfl
      have h₇ := applyFields_option setWeapon 7 countValue
        (fun o => ⟨m.id, m.startFire, m.stopFire, m.changeNextWeapon, m.changePrevWeapon,
          m.startReload, o, none, []⟩) m.ammo fun a _ => by simp [setWeapon, countValue]
      have h₈ := applyFields_option setWeapon 8 countValue
        (fun o => ⟨m.id, m.startFire, m.stopFire, m.changeNextWeapon, m.changePrevWeapon,
          m.startReload, m.ammo, o, []⟩) m.clipAmmo fun a _ => by simp [setWeapon, countValue]
      have h₉ := applyFields_unknown
        (fun u => (⟨m.id, m.startFire, m.stopFire, m.changeNextWeapon, m.changePrevWeapon,
          m.startReload, m.ammo, m.clipAmmo, u⟩ : PWeapon))
        (fun u _ _ hk => setWeapon_unknown ⟨m.id, m.startFire, m.stopFire, m.changeNextWeapon,
          m.changePrevWeapon, m.startReload, m.ammo, m.clipAmmo, u⟩ hk)
        (fun f hf => (hfields f hf).2) []
      rw [applyFields_append h₁, applyFields_append h₂, applyFields_append h₃,
        applyFields_append h₄, applyFields_append h₅, applyFields_append h₆,
        applyFields_append h₇, applyFields_append h₈, h₉, List.nil_append, ← hunknown]

end IocpDemo.Wire
