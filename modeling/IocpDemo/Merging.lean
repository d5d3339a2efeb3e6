/-
**Merging messages** (`MergeImpl`, `CopyFrom` and `_InternalParse` of `ShooterProtocol.pb.cc`).

The generated code has two ways to bring one message into another: `MergeFrom` goes through the
fields of the other message, and the parser goes through the fields of its bytes, where a message is
not emptied first.  They agree: parsing what has been serialized of a message into another message
merges it.  So frames may be put one behind the other, and the parser makes of them what `MergeFrom`
makes of the messages.

They do not agree on all bytes.  A `float` without presence that is zero is not merged, whereas the
parser stores a zero that stands in the bytes; the serializer does not write it.

Main definitions:

* `IocpDemo.Wire.mergeClientId`, …, `IocpDemo.Wire.mergeWeapon` — `MergeFrom` of the messages;
* `IocpDemo.Wire.Merges` — what a sequence of fields does to any message;
* `IocpDemo.Wire.MergeFormat` — the laws of `MergeFrom`, and what ties it to the serializer.

Main results:

* `IocpDemo.Wire.mergeFrom_append` — **bytes that are parsed may be followed by others**;
* `IocpDemo.Wire.concatenation_merges` — **the messages serialized one behind the other are parsed
  to their merge**;
* `IocpDemo.Wire.serialized_canonical` — **what the parser accepts has one serialization, which is
  parsed back and is no longer**.
-/

import IocpDemo.WireLaws

set_option relaxedAutoImplicit false
set_option autoImplicit false

namespace IocpDemo.Wire

/-! ### `MergeFrom` -/

/-- A scalar without presence is merged when it is not zero. -/
def mergeScalar {A : Type} [DecidableEq A] (zero toValue fromValue : A) : A :=
  if fromValue = zero then toValue else fromValue

/-- A scalar with presence. -/
def mergeOptional {A : Type} (toValue : Option A) : Option A → Option A
  | none => toValue
  | some a => some a

/-- A field of message type: it is created when absent, and merged into. -/
def mergeMessage {S : Type} (merge : S → S → S) (default : S) (toMsg : Option S) :
    Option S → Option S
  | none => toMsg
  | some m => some (merge (toMsg.getD default) m)

def mergeClientId (toMsg fromMsg : PClientId) : PClientId where
  index := mergeScalar 0 toMsg.index fromMsg.index
  unknown := toMsg.unknown ++ fromMsg.unknown

def mergeVector (toMsg fromMsg : PVector) : PVector where
  x := mergeScalar 0 toMsg.x fromMsg.x
  y := mergeScalar 0 toMsg.y fromMsg.y
  z := mergeScalar 0 toMsg.z fromMsg.z
  unknown := toMsg.unknown ++ fromMsg.unknown

def mergeRotator (toMsg fromMsg : PRotator) : PRotator where
  roll := mergeScalar 0 toMsg.roll fromMsg.roll
  pitch := mergeScalar 0 toMsg.pitch fromMsg.pitch
  yaw := mergeScalar 0 toMsg.yaw fromMsg.yaw
  unknown := toMsg.unknown ++ fromMsg.unknown

def mergeMovement (toMsg fromMsg : PMovement) : PMovement where
  id := mergeMessage mergeClientId {} toMsg.id fromMsg.id
  loc := mergeMessage mergeVector {} toMsg.loc fromMsg.loc
  rot := mergeMessage mergeRotator {} toMsg.rot fromMsg.rot
  vel := mergeMessage mergeVector {} toMsg.vel fromMsg.vel
  unknown := toMsg.unknown ++ fromMsg.unknown

def mergeFireEvent (toMsg fromMsg : PFireEvent) : PFireEvent where
  id := mergeMessage mergeClientId {} toMsg.id fromMsg.id
  aimDir := mergeMessage mergeVector {} toMsg.aimDir fromMsg.aimDir
  startTrace := mergeMessage mergeVector {} toMsg.startTrace fromMsg.startTrace
  randomSeed := mergeScalar 0 toMsg.randomSeed fromMsg.randomSeed
  unknown := toMsg.unknown ++ fromMsg.unknown

def mergeAnimState (toMsg fromMsg : PAnimState) : PAnimState where
  id := mergeMessage mergeClientId {} toMsg.id fromMsg.id
  aimYaw := mergeOptional toMsg.aimYaw fromMsg.aimYaw
  aimPitch := mergeOptional toMsg.aimPitch fromMsg.aimPitch
  unknown := toMsg.unknown ++ fromMsg.unknown

def mergeWeapon (toMsg fromMsg : PWeapon) : PWeapon where
  id := mergeMessage mergeClientId {} toMsg.id fromMsg.id
  startFire := mergeOptional toMsg.startFire fromMsg.startFire
  stopFire := mergeOptional toMsg.stopFire fromMsg.stopFire
  changeNextWeapon := mergeOptional toMsg.changeNextWeapon fromMsg.changeNextWeapon
  changePrevWeapon := mergeOptional toMsg.changePrevWeapon fromMsg.changePrevWeapon
  startReload := mergeOptional toMsg.startReload fromMsg.startReload
  ammo := mergeOptional toMsg.ammo fromMsg.ammo
  clipAmmo := mergeOptional toMsg.clipAmmo fromMsg.clipAmmo
  unknown := toMsg.unknown ++ fromMsg.unknown

/-! ### Bytes behind bytes -/

section Append

variable {M : Type} {depth : ℕ} {set : M → ℕ → WireValue → M × Bool}

/-- **Bytes that are parsed may be followed by others.** -/
theorem mergeFrom_append {m m' : M} {bs : List UInt8} (h : mergeFrom depth set m bs = (m', true))
    (cs : List UInt8) : mergeFrom depth set m (bs ++ cs) = mergeFrom depth set m' cs := by
  obtain ⟨hmsg, hok⟩ := Prod.mk.inj h
  obtain ⟨happly, hread⟩ := Bool.and_eq_true_iff.1 hok
  have happly' : applyFields set m (readFields depth bs.length bs).1 = (m', true) :=
    Prod.ext hmsg happly
  rw [mergeFrom, readFields_append hread cs (Nat.le_refl _)]
  simp only [applyFields_append happly', mergeFrom]

/-- Parsing the bytes of a sequence of fields. -/
theorem mergeFrom_encodeFields {fields : List Field} (hf : ∀ f ∈ fields, f.Valid depth) (m : M) :
    mergeFrom depth set m (encodeFields fields) = applyFields set m fields := by
  rw [mergeFrom, readFields_encodeFields hf (Nat.le_refl _)]
  simp

end Append

/-! ### What fields do to a message -/

/-- The fields can be written, and setting them one after the other does this to any message. -/
structure Merges {M : Type} (depth : ℕ) (set : M → ℕ → WireValue → M × Bool) (fields : List Field)
    (step : M → M) : Prop where
  valid : ∀ f ∈ fields, f.Valid depth
  apply : ∀ m, applyFields set m fields = (step m, true)

namespace Merges

variable {M A : Type} {depth : ℕ} {set : M → ℕ → WireValue → M × Bool} {a b : List Field}
  {f g : M → M}

theorem append (ha : Merges depth set a f) (hb : Merges depth set b g) :
    Merges depth set (a ++ b) fun m => g (f m) where
  valid x hx := (List.mem_append.1 hx).elim (ha.valid x) (hb.valid x)
  apply m := by rw [applyFields_append (ha.apply m), hb.apply]

theorem congr (ha : Merges depth set a f) (h : ∀ m, f m = g m) : Merges depth set a g where
  valid := ha.valid
  apply m := by rw [ha.apply, h]

/-- A field with presence is set when it is present. -/
theorem option (depth : ℕ) (set : M → ℕ → WireValue → M × Bool) (number : ℕ) (value : A → WireValue)
    {o : Option A} (put : M → Option A → M) (hpos : 0 < number) (hsmall : number ≤ 8)
    (hvalid : ∀ x ∈ o, (value x).Valid depth number)
    (hnone : ∀ m, put m none = m)
    (hsome : ∀ x ∈ o, ∀ m, set m number (value x) = (put m (some x), true)) :
    Merges depth set (optionFields number value o) fun m => put m o where
  valid := valid_optionFields number value hpos hsmall hvalid
  apply m := by
    cases o with
    | none => simp only [optionFields, Option.map_none, Option.toList_none, applyFields, hnone]
    | some x =>
        simp only [optionFields, Option.map_some, Option.toList_some, applyFields, hsome x rfl]

/-- A `float` without presence is set when it is not zero. -/
theorem float (depth : ℕ) (set : M → ℕ → WireValue → M × Bool) (number : ℕ) (v : Float32Bits)
    (put : M → Float32Bits → M) (hpos : 0 < number) (hsmall : number ≤ 8) (hzero : ∀ m, put m 0 = m)
    (hset : v ≠ 0 → ∀ m, set m number (.i32 v) = (put m v, true)) :
    Merges depth set (floatFields number v) fun m => put m v where
  valid := valid_floatFields number v hpos hsmall
  apply m := by
    by_cases hv : v = 0
    · simp only [floatFields, hv, if_true, applyFields, hzero]
    · simp only [floatFields, if_neg hv, applyFields, hset hv]

/-- The unknown fields are added to those that are there. -/
theorem unknown {known : ℕ → WireValue → Bool} {fields : List Field}
    (add : M → UnknownFields → M) (hnil : ∀ m, add m [] = m)
    (hadd : ∀ m u v, add (add m u) v = add m (u ++ v))
    (hset : ∀ m number v, known number v = false →
      set m number v = (add m (writeField number v), true))
    (hf : ∀ f ∈ fields, f.Valid depth ∧ known f.1 f.2 = false) :
    Merges depth set fields fun m => add m (encodeFields fields) where
  valid f h := (hf f h).1
  apply := by
    induction fields with
    | nil => intro m; simp only [applyFields, encodeFields_nil, hnil]
    | cons f fields ih =>
        intro m
        have hrest := ih fun g hg => hf g (List.mem_cons_of_mem _ hg)
        rw [applyFields, hset _ _ _ (hf f List.mem_cons_self).2]
        simp only [hrest, hadd, encodeFields_cons]

end Merges

/-! ### The laws -/

/-- **`MergeFrom` is associative, the empty message is its unit** (so `CopyFrom`, which clears the
message first, makes a copy), **and parsing what is written of a message merges it.** -/
structure MergeFormat {M : Type} (depth : ℕ) (default : M) (set : M → ℕ → WireValue → M × Bool)
    (write : M → List UInt8) (Wf : M → Prop) (merge : M → M → M) : Prop where
  default_merge : ∀ m, merge default m = m
  merge_default : ∀ m, merge m default = m
  assoc : ∀ a b c, merge (merge a b) c = merge a (merge b c)
  write_merges : ∀ m, Wf m → (write m).length ≤ maxLimit → ∃ fields : List Field,
    write m = encodeFields fields ∧ Merges depth set fields (merge · m)

namespace MergeFormat

variable {M : Type} {depth : ℕ} {default : M} {set : M → ℕ → WireValue → M × Bool}
  {write : M → List UInt8} {Wf : M → Prop} {merge : M → M → M}

/-- **Parsing what is written of a message merges it.** -/
theorem mergeFrom_write (hM : MergeFormat depth default set write Wf merge) {m : M} (hm : Wf m)
    (hlen : (write m).length ≤ maxLimit) (toMsg : M) :
    mergeFrom depth set toMsg (write m) = (merge toMsg m, true) := by
  obtain ⟨fields, hwrite, hmerges⟩ := hM.write_merges m hm hlen
  rw [hwrite, mergeFrom_encodeFields hmerges.valid, hmerges.apply]

/-- A field of message type is merged. -/
theorem mergeSub_write (hM : MergeFormat depth default set write Wf merge) {m : M} (hm : Wf m)
    (hlen : (write m).length ≤ maxLimit) (old : Option M) :
    mergeSub depth set default old (write m) = (mergeMessage merge default old (some m), true) := by
  rw [mergeSub, hM.mergeFrom_write hm hlen]
  rfl

/-- What is written of a field of message type is merged. -/
theorem message (hM : MergeFormat depth default set write Wf merge) {N : Type} (depth' : ℕ)
    (setN : N → ℕ → WireValue → N × Bool) (number : ℕ) (get : N → Option M)
    (put : N → Option M → N) {o : Option M} (hpos : 0 < number) (hsmall : number ≤ 8)
    (hwf : ∀ m ∈ o, Wf m)
    (hlen : (writeOption number (fun m => .len (write m)) o).length ≤ maxLimit)
    (hput : ∀ x, put x (get x) = x)
    (hset : ∀ x bs, setN x number (.len bs) =
      (put x (mergeSub depth set default (get x) bs).1,
        (mergeSub depth set default (get x) bs).2)) :
    Merges depth' setN (optionFields number (fun m => .len (write m)) o)
      fun x => put x (mergeMessage merge default (get x) o) := by
  have hsub := length_le_of_writeOption number hlen
  refine Merges.option depth' setN number (fun m => .len (write m))
    (fun x o => put x (mergeMessage merge default (get x) o)) hpos hsmall hsub hput ?_
  intro m hm x
  rw [hset, hM.mergeSub_write (hwf m hm) (hsub m hm)]

/-- **Messages written one behind the other are merged in this order.** -/
theorem mergeFrom_flatMap (hM : MergeFormat depth default set write Wf merge) {msgs : List M}
    (hmsgs : ∀ m ∈ msgs, Wf m ∧ (write m).length ≤ maxLimit) (toMsg : M) :
    mergeFrom depth set toMsg (msgs.flatMap write) = (msgs.foldl merge toMsg, true) := by
  induction msgs generalizing toMsg with
  | nil => rfl
  | cons m msgs ih =>
      obtain ⟨hm, hlen⟩ := hmsgs m List.mem_cons_self
      rw [List.flatMap_cons, mergeFrom_append (hM.mergeFrom_write hm hlen toMsg),
        ih (fun m' hm' => hmsgs m' (List.mem_cons_of_mem _ hm')), List.foldl_cons]

end MergeFormat

/-- The same format under other field names. -/
theorem MergeFormat.congr {M N : Type} (e : N ≃ M) {depth : ℕ} {default : M}
    {set : M → ℕ → WireValue → M × Bool} {set' : N → ℕ → WireValue → N × Bool}
    {write : M → List UInt8} {Wf : M → Prop} {merge : M → M → M}
    (hM : MergeFormat depth default set write Wf merge)
    (hset : ∀ m number v,
      set' m number v = (e.symm (set (e m) number v).1, (set (e m) number v).2)) :
    MergeFormat depth (e.symm default) set' (fun m => write (e m)) (fun m => Wf (e m))
      fun a b => e.symm (merge (e a) (e b)) where
  default_merge m := by simp [hM.default_merge]
  merge_default m := by simp [hM.merge_default]
  assoc a b c := by simp [hM.assoc]
  write_merges m hm hlen := by
    obtain ⟨fields, hwrite, hmerges⟩ := hM.write_merges (e m) hm hlen
    have hall : ∀ (fields : List Field) (x : N), applyFields set' x fields =
        (e.symm (applyFields set (e x) fields).1, (applyFields set (e x) fields).2) := by
      intro fields
      induction fields with
      | nil => intro x; simp [applyFields]
      | cons f fields ih =>
          intro x
          obtain ⟨number, v⟩ := f
          rw [applyFields, applyFields, hset]
          obtain ⟨y, ok⟩ := set (e x) number v
          cases ok with
          | true => simp [ih]
          | false => rfl
    refine ⟨fields, hwrite, hmerges.valid, fun x => ?_⟩
    rw [hall, hmerges.apply]

section Parts

variable {A S : Type}

@[simp] theorem mergeScalar_zero [DecidableEq A] (zero a : A) : mergeScalar zero a zero = a :=
  if_pos rfl

@[simp] theorem zero_mergeScalar [DecidableEq A] (zero a : A) : mergeScalar zero zero a = a := by
  unfold mergeScalar
  split
  · next h => exact h.symm
  · rfl

theorem mergeScalar_assoc [DecidableEq A] (zero a b c : A) :
    mergeScalar zero (mergeScalar zero a b) c = mergeScalar zero a (mergeScalar zero b c) := by
  by_cases hc : c = zero
  · simp [hc]
  · simp [mergeScalar, hc]

theorem mergeScalar_of_ne [DecidableEq A] {zero a b : A} (h : b ≠ zero) :
    mergeScalar zero a b = b :=
  if_neg h

@[simp] theorem mergeOptional_none (a : Option A) : mergeOptional a none = a := rfl

@[simp] theorem none_mergeOptional (a : Option A) : mergeOptional none a = a := by
  cases a <;> rfl

theorem mergeOptional_assoc (a b c : Option A) :
    mergeOptional (mergeOptional a b) c = mergeOptional a (mergeOptional b c) := by
  cases c <;> rfl

variable {merge : S → S → S} {default : S}

@[simp] theorem mergeMessage_none (a : Option S) : mergeMessage merge default a none = a := rfl

theorem none_mergeMessage (h : ∀ m, merge default m = m) (a : Option S) :
    mergeMessage merge default none a = a := by
  cases a with
  | none => rfl
  | some m => exact congrArg some (h m)

theorem mergeMessage_assoc (hunit : ∀ m, merge default m = m)
    (hassoc : ∀ a b c, merge (merge a b) c = merge a (merge b c)) (a b c : Option S) :
    mergeMessage merge default (mergeMessage merge default a b) c =
      mergeMessage merge default a (mergeMessage merge default b c) := by
  cases c with
  | none => rfl
  | some c =>
      cases b with
      | none => simp [mergeMessage, hunit]
      | some b => simp [mergeMessage, hassoc]

end Parts

/-! ### The messages -/

theorem merge_clientId (depth : ℕ) :
    MergeFormat depth {} setClientId writeClientId (WfClientId depth) mergeClientId where
  default_merge m := by simp [mergeClientId]
  merge_default m := by simp [mergeClientId]
  assoc a b c := by simp [mergeClientId, mergeScalar_assoc]
  write_merges m hm _ := by
    obtain ⟨fields, hunknown, hfields⟩ := hm
    have hindex : Merges depth setClientId
        (if m.index = 0 then [] else [(1, .varint m.index.toUInt64)])
        fun x => { x with index := mergeScalar 0 x.index m.index } := by
      by_cases h : m.index = 0
      · simp only [h, if_true, mergeScalar_zero]
        exact ⟨by simp, fun _ => rfl⟩
      · simp only [if_neg h, mergeScalar_of_ne h]
        refine ⟨fun f hf => ?_, fun x => by simp [applyFields, setClientId]⟩
        obtain rfl := List.mem_singleton.1 hf
        exact Field.valid_of_le (by decide) (by decide) trivial
    have hrest := Merges.unknown (fun (x : PClientId) u => { x with unknown := x.unknown ++ u })
      (by simp) (by simp) (fun x _ _ hk => setClientId_unknown x hk) hfields
    have hmerges := hindex.append hrest
    rw [← hunknown] at hmerges
    refine ⟨_, ?_, hmerges⟩
    simp only [writeClientId, hunknown, encodeFields_append]
    split <;> simp

theorem merge_vector (depth : ℕ) :
    MergeFormat depth {} setVector writeVector (WfVector depth) mergeVector where
  default_merge m := by simp [mergeVector]
  merge_default m := by simp [mergeVector]
  assoc a b c := by simp [mergeVector, mergeScalar_assoc]
  write_merges m hm _ := by
    obtain ⟨fields, hunknown, hfields⟩ := hm
    have hx := Merges.float depth setVector 1 m.x
      (fun x v => { x with x := mergeScalar 0 x.x v }) (by decide) (by decide) (by simp)
      fun h x => by simp [setVector, mergeScalar_of_ne h]
    have hy := Merges.float depth setVector 2 m.y
      (fun x v => { x with y := mergeScalar 0 x.y v }) (by decide) (by decide) (by simp)
      fun h x => by simp [setVector, mergeScalar_of_ne h]
    have hz := Merges.float depth setVector 3 m.z
      (fun x v => { x with z := mergeScalar 0 x.z v }) (by decide) (by decide) (by simp)
      fun h x => by simp [setVector, mergeScalar_of_ne h]
    have hrest := Merges.unknown (fun (x : PVector) u => { x with unknown := x.unknown ++ u })
      (by simp) (by simp) (fun x _ _ hk => setVector_unknown x hk) hfields
    have hmerges := ((hx.append hy).append hz).append hrest
    rw [← hunknown] at hmerges
    exact ⟨_, by simp [writeVector, hunknown], hmerges⟩

theorem merge_rotator (depth : ℕ) :
    MergeFormat depth {} setRotator writeRotator (WfRotator depth) mergeRotator :=
  (merge_vector depth).congr rotatorEquiv fun m number v => by
    unfold setRotator setVector
    split <;> rfl

theorem merge_movement :
    MergeFormat recursionLimit {} setMovement writeMovement WfMovement mergeMovement where
  default_merge m := by
    simp [mergeMovement, none_mergeMessage (merge_clientId innerDepth).default_merge,
      none_mergeMessage (merge_vector innerDepth).default_merge,
      none_mergeMessage (merge_rotator innerDepth).default_merge]
  merge_default m := by simp [mergeMovement]
  assoc a b c := by
    simp [mergeMovement, mergeMessage_assoc (merge_clientId innerDepth).default_merge
        (merge_clientId innerDepth).assoc,
      mergeMessage_assoc (merge_vector innerDepth).default_merge (merge_vector innerDepth).assoc,
      mergeMessage_assoc (merge_rotator innerDepth).default_merge (merge_rotator innerDepth).assoc]
  write_merges m hm hlen := by
    obtain ⟨fields, hunknown, hfields⟩ := hm.unknown
    simp only [writeMovement, List.length_append] at hlen
    have h₁ := (merge_clientId innerDepth).message recursionLimit setMovement 1 PMovement.id
      (fun x o => { x with id := o })
      (by decide) (by decide) hm.id (by omega) (fun _ => rfl) fun _ _ => rfl
    have h₂ := (merge_vector innerDepth).message recursionLimit setMovement 2 PMovement.loc
      (fun x o => { x with loc := o })
      (by decide) (by decide) hm.loc (by omega) (fun _ => rfl) fun _ _ => rfl
    have h₃ := (merge_rotator innerDepth).message recursionLimit setMovement 3 PMovement.rot
      (fun x o => { x with rot := o })
      (by decide) (by decide) hm.rot (by omega) (fun _ => rfl) fun _ _ => rfl
    have h₄ := (merge_vector innerDepth).message recursionLimit setMovement 4 PMovement.vel
      (fun x o => { x with vel := o })
      (by decide) (by decide) hm.vel (by omega) (fun _ => rfl) fun _ _ => rfl
    have hrest := Merges.unknown (fun (x : PMovement) u => { x with unknown := x.unknown ++ u })
      (by simp) (by simp) (fun x _ _ hk => setMovement_unknown x hk) hfields
    have hmerges := (((h₁.append h₂).append h₃).append h₄).append hrest
    rw [← hunknown] at hmerges
    exact ⟨_, by simp [writeMovement, hunknown], hmerges⟩

theorem merge_fireEvent :
    MergeFormat recursionLimit {} setFireEvent writeFireEvent WfFireEvent mergeFireEvent where
  default_merge m := by
    simp [mergeFireEvent, none_mergeMessage (merge_clientId innerDepth).default_merge,
      none_mergeMessage (merge_vector innerDepth).default_merge]
  merge_default m := by simp [mergeFireEvent]
  assoc a b c := by
    simp [mergeFireEvent, mergeMessage_assoc (merge_clientId innerDepth).default_merge
        (merge_clientId innerDepth).assoc,
      mergeMessage_assoc (merge_vector innerDepth).default_merge (merge_vector innerDepth).assoc,
      mergeScalar_assoc]
  write_merges m hm hlen := by
    obtain ⟨fields, hunknown, hfields⟩ := hm.unknown
    simp only [writeFireEvent, List.length_append] at hlen
    have h₁ := (merge_clientId innerDepth).message recursionLimit setFireEvent 1 PFireEvent.id
      (fun x o => { x with id := o })
      (by decide) (by decide) hm.id (by omega) (fun _ => rfl) fun _ _ => rfl
    have h₂ := Merges.float recursionLimit setFireEvent 2 m.randomSeed
      (fun x v => { x with randomSeed := mergeScalar 0 x.randomSeed v }) (by decide) (by decide)
      (by simp) fun h x => by simp [setFireEvent, mergeScalar_of_ne h]
    have h₃ := (merge_vector innerDepth).message recursionLimit setFireEvent 3 PFireEvent.aimDir
      (fun x o => { x with aimDir := o }) (by decide) (by decide) hm.aimDir (by omega)
      (fun _ => rfl) fun _ _ => rfl
    have h₄ := (merge_vector innerDepth).message recursionLimit setFireEvent 4 PFireEvent.startTrace
      (fun x o => { x with startTrace := o }) (by decide) (by decide) hm.startTrace (by omega)
      (fun _ => rfl) fun _ _ => rfl
    have hrest := Merges.unknown (fun (x : PFireEvent) u => { x with unknown := x.unknown ++ u })
      (by simp) (by simp) (fun x _ _ hk => setFireEvent_unknown x hk) hfields
    have hmerges := (((h₁.append h₂).append h₃).append h₄).append hrest
    rw [← hunknown] at hmerges
    exact ⟨_, by simp [writeFireEvent, hunknown], hmerges⟩

theorem merge_animState :
    MergeFormat recursionLimit {} setAnimState writeAnimState WfAnimState mergeAnimState where
  default_merge m := by
    simp [mergeAnimState, none_mergeMessage (merge_clientId innerDepth).default_merge]
  merge_default m := by simp [mergeAnimState]
  assoc a b c := by
    simp [mergeAnimState, mergeMessage_assoc (merge_clientId innerDepth).default_merge
        (merge_clientId innerDepth).assoc,
      mergeOptional_assoc]
  write_merges m hm hlen := by
    obtain ⟨fields, hunknown, hfields⟩ := hm.unknown
    simp only [writeAnimState, List.length_append] at hlen
    have h₁ := (merge_clientId innerDepth).message recursionLimit setAnimState 1 PAnimState.id
      (fun x o => { x with id := o })
      (by decide) (by decide) hm.id (by omega) (fun _ => rfl) fun _ _ => rfl
    have h₂ := Merges.option recursionLimit setAnimState 2 .i32
      (fun x o => { x with aimYaw := mergeOptional x.aimYaw o }) (by decide) (by decide)
      (fun _ (_ : _ ∈ m.aimYaw) => trivial) (fun _ => rfl) fun _ _ _ => rfl
    have h₃ := Merges.option recursionLimit setAnimState 3 .i32
      (fun x o => { x with aimPitch := mergeOptional x.aimPitch o }) (by decide) (by decide)
      (fun _ (_ : _ ∈ m.aimPitch) => trivial) (fun _ => rfl) fun _ _ _ => rfl
    have hrest := Merges.unknown (fun (x : PAnimState) u => { x with unknown := x.unknown ++ u })
      (by simp) (by simp) (fun x _ _ hk => setAnimState_unknown x hk) hfields
    have hmerges := ((h₁.append h₂).append h₃).append hrest
    rw [← hunknown] at hmerges
    exact ⟨_, by simp [writeAnimState, hunknown], hmerges⟩

/-- What is written of a flag of a weapon message. -/
theorem merges_flag (number : ℕ) (o : Option Bool) (put : PWeapon → Option Bool → PWeapon)
    (hpos : 0 < number) (hsmall : number ≤ 8) (hnone : ∀ m, put m none = m)
    (hset : ∀ m v, setWeapon m number (.varint v) = (put m (some (v ≠ 0)), true)) :
    Merges recursionLimit setWeapon (optionFields number flagValue o) fun m => put m o := by
  refine Merges.option recursionLimit setWeapon number flagValue put hpos hsmall
    (fun _ _ => trivial) hnone fun b _ m => ?_
  rw [flagValue, hset]
  cases b <;> rfl

/-- What is written of a count of a weapon message. -/
theorem merges_count (number : ℕ) (o : Option UInt32) (put : PWeapon → Option UInt32 → PWeapon)
    (hpos : 0 < number) (hsmall : number ≤ 8) (hnone : ∀ m, put m none = m)
    (hset : ∀ m v, setWeapon m number (.varint v) = (put m (some v.toUInt32), true)) :
    Merges recursionLimit setWeapon (optionFields number countValue o) fun m => put m o := by
  refine Merges.option recursionLimit setWeapon number countValue put hpos hsmall
    (fun _ _ => trivial) hnone fun a _ m => ?_
  rw [countValue, hset, UInt32.toUInt32_toUInt64]

theorem merge_weapon :
    MergeFormat recursionLimit {} setWeapon writeWeapon WfWeapon mergeWeapon where
  default_merge m := by
    simp [mergeWeapon, none_mergeMessage (merge_clientId innerDepth).default_merge]
  merge_default m := by simp [mergeWeapon]
  assoc a b c := by
    simp [mergeWeapon, mergeMessage_assoc (merge_clientId innerDepth).default_merge
        (merge_clientId innerDepth).assoc,
      mergeOptional_assoc]
  write_merges m hm hlen := by
    obtain ⟨fields, hunknown, hfields⟩ := hm.unknown
    simp only [writeWeapon_eq, List.length_append] at hlen
    have h₁ := (merge_clientId innerDepth).message recursionLimit setWeapon 1 PWeapon.id
      (fun x o => { x with id := o })
      (by decide) (by decide) hm.id (by omega) (fun _ => rfl) fun _ _ => rfl
    have h₂ := merges_flag 2 m.startFire
      (fun x o => { x with startFire := mergeOptional x.startFire o }) (by decide) (by decide)
      (fun _ => rfl) fun _ _ => rfl
    have h₃ := merges_flag 3 m.stopFire
      (fun x o => { x with stopFire := mergeOptional x.stopFire o }) (by decide) (by decide)
      (fun _ => rfl) fun _ _ => rfl
    have h₄ := merges_flag 4 m.changeNextWeapon
      (fun x o => { x with changeNextWeapon := mergeOptional x.changeNextWeapon o }) (by decide)
      (by decide) (fun _ => rfl) fun _ _ => rfl
    have h₅ := merges_flag 5 m.changePrevWeapon
      (fun x o => { x with changePrevWeapon := mergeOptional x.changePrevWeapon o }) (by decide)
      (by decide) (fun _ => rfl) fun _ _ => rfl
    have h₆ := merges_flag 6 m.startReload
      (fun x o => { x with startReload := mergeOptional x.startReload o }) (by decide) (by decide)
      (fun _ => rfl) fun _ _ => rfl
    have h₇ := merges_count 7 m.ammo (fun x o => { x with ammo := mergeOptional x.ammo o })
      (by decide) (by decide) (fun _ => rfl) fun _ _ => rfl
    have h₈ := merges_count 8 m.clipAmmo
      (fun x o => { x with clipAmmo := mergeOptional x.clipAmmo o }) (by decide) (by decide)
      (fun _ => rfl) fun _ _ => rfl
    have hrest := Merges.unknown (fun (x : PWeapon) u => { x with unknown := x.unknown ++ u })
      (by simp) (by simp) (fun x _ _ hk => setWeapon_unknown x hk) hfields
    rw [← hunknown] at hrest
    -- in two halves, so that each step stays small
    have hfirst := (((h₁.append h₂).append h₃).append h₄).congr fun x =>
      (rfl : _ = { x with
        id := mergeMessage mergeClientId {} x.id m.id
        startFire := mergeOptional x.startFire m.startFire
        stopFire := mergeOptional x.stopFire m.stopFire
        changeNextWeapon := mergeOptional x.changeNextWeapon m.changeNextWeapon })
    have hsecond := (((h₅.append h₆).append h₇).append h₈).congr fun x =>
      (rfl : _ = { x with
        changePrevWeapon := mergeOptional x.changePrevWeapon m.changePrevWeapon
        startReload := mergeOptional x.startReload m.startReload
        ammo := mergeOptional x.ammo m.ammo
        clipAmmo := mergeOptional x.clipAmmo m.clipAmmo })
    refine ⟨_, ?_, ((hfirst.append hsecond).append hrest).congr fun x => rfl⟩
    simp only [encodeFields_append, encodeFields_optionFields, writeWeapon_eq, hunknown,
      List.append_assoc]

/-! ### The results -/

/-- Bytes that are parsed, followed by messages as they are serialized, are parsed to the merge of
all of them; the sizes of messages have an upper limit. -/
def ConcatMerges {M : Type} (c : Codec M) (Wf : M → Prop) (merge : M → M → M) : Prop :=
  ∀ (bs : List UInt8) (msgs : List M), c.Parses bs → (∀ m ∈ msgs, Wf m) →
    (bs ++ msgs.flatMap c.serialize).length ≤ maxLimit →
      c.parseFromArray (bs ++ msgs.flatMap c.serialize) =
        (msgs.foldl merge (c.parseFromArray bs).1, true)

/-- What is parsed is serialized to bytes that are no more and are parsed back to it. -/
def Canonical {M : Type} (c : Codec M) (Wf : M → Prop) : Prop :=
  ∀ bs : List UInt8, bs.length ≤ maxLimit → c.Parses bs → Wf (c.parseFromArray bs).1 ∧
    (c.serialize (c.parseFromArray bs).1).length ≤ bs.length ∧
      c.parseFromArray (c.serialize (c.parseFromArray bs).1) = ((c.parseFromArray bs).1, true)

section Codecs

variable {M : Type} {default : M} {set : M → ℕ → WireValue → M × Bool} {write : M → List UInt8}
  {Wf : M → Prop} {merge : M → M → M}
  {field : ParseContext → M → UInt32 → List UInt8 → Parsed M}

/-- What the parser accepts, and with which message, is said by the fields of the bytes. -/
theorem Generated.parses_iff (h : Generated recursionLimit set write Wf field) {lib : Library}
    {m : M} {bs : List UInt8} : parseFromArray lib default field bs = (m, true) ↔
      mergeFrom recursionLimit set default bs = (m, true) := by
  have haccepted : ∀ r : M × Bool, accepted r = some m ↔ r = (m, true) := by
    rintro ⟨x, ok⟩
    cases ok <;> simp [accepted]
  rw [← haccepted, ← haccepted, h.parse_eq]

theorem MergeFormat.concatMerges (hM : MergeFormat recursionLimit default set write Wf merge)
    (h : Generated recursionLimit set write Wf field) :
    ConcatMerges (wireCodec default field write) Wf merge := by
  intro bs msgs hbs hmsgs hlen
  have hparse := h.parses_iff.1 (Prod.ext rfl hbs :
    parseFromArray .plain default field bs = ((parseFromArray .plain default field bs).1, true))
  have hshort : ∀ m ∈ msgs, (write m).length ≤ maxLimit := by
    intro m hm
    have hle := (List.sublist_flatten_of_mem (List.mem_map_of_mem (f := write) hm)).length_le
    have hall : (bs ++ msgs.flatMap write).length ≤ maxLimit := hlen
    rw [List.length_append] at hall
    rw [← List.flatMap_def] at hle
    omega
  have hall := hM.mergeFrom_flatMap (fun m hm => ⟨hmsgs m hm, hshort m hm⟩)
    (parseFromArray .plain default field bs).1
  exact h.parses_iff.2 ((mergeFrom_append hparse _).trans hall)

theorem Generated.canonical (h : Generated recursionLimit set write Wf field)
    (hM : MessageFormat recursionLimit default set write Wf) :
    Canonical (wireCodec default field write) Wf := by
  intro bs hbs hparses
  obtain ⟨hwf, hlen⟩ := h.parsed_wf hM hparses
  exact ⟨hwf, hlen, h.roundTrip hM hwf (Nat.le_trans hlen hbs)⟩

end Codecs

/-- **Messages serialized one behind the other are parsed to their merge.**  Of every message type:
bytes that are parsed may be followed by any number of serialized messages of the type, and the
parser makes of all of it what `MergeFrom` makes of the messages, merged in this order into what is
parsed of the bytes. -/
theorem concatenation_merges :
    ConcatMerges wireProtobuf.clientId (WfClientId recursionLimit) mergeClientId ∧
      ConcatMerges wireProtobuf.movement WfMovement mergeMovement ∧
      ConcatMerges wireProtobuf.fireEvent WfFireEvent mergeFireEvent ∧
      ConcatMerges wireProtobuf.animState WfAnimState mergeAnimState ∧
      ConcatMerges wireProtobuf.weapon WfWeapon mergeWeapon :=
  ⟨(merge_clientId recursionLimit).concatMerges (cases_clientId recursionLimit),
    merge_movement.concatMerges cases_movement, merge_fireEvent.concatMerges cases_fireEvent,
    merge_animState.concatMerges cases_animState, merge_weapon.concatMerges cases_weapon⟩

/-- A `float` that stands in the bytes as a zero is stored, although it would not be merged. -/
example :
    wireProtobuf.fireEvent.parseFromArray [0x15, 0, 0, 0x80, 0x3f, 0x15, 0, 0, 0, 0] = ({}, true) ∧
      mergeFireEvent (wireProtobuf.fireEvent.parseFromArray [0x15, 0, 0, 0x80, 0x3f]).1
        (wireProtobuf.fireEvent.parseFromArray [0x15, 0, 0, 0, 0]).1 =
          { randomSeed := 0x3f800000 } := by decide +kernel

/-- **What is parsed has a canonical serialization.**  Of every message type and whatever bytes the
parser accepts, fields in any order and repeated, unknown ones and groups among them: the message is
well formed, and is serialized to no more bytes, which are parsed back to the same message. -/
theorem serialized_canonical :
    Canonical wireProtobuf.clientId (WfClientId recursionLimit) ∧
      Canonical wireProtobuf.movement WfMovement ∧ Canonical wireProtobuf.fireEvent WfFireEvent ∧
      Canonical wireProtobuf.animState WfAnimState ∧ Canonical wireProtobuf.weapon WfWeapon :=
  ⟨(cases_clientId recursionLimit).canonical (format_clientId recursionLimit),
    cases_movement.canonical format_movement, cases_fireEvent.canonical format_fireEvent,
    cases_animState.canonical format_animState, cases_weapon.canonical format_weapon⟩

/-- A group is kept, and its tags are written as short as can be. -/
example : wireProtobuf.clientId.parseFromArray [0x7b, 8, 0x81, 0, 0x7c, 8, 5] =
    ({ index := 5, unknown := [0x7b, 8, 1, 0x7c] }, true) := by decide +kernel

end IocpDemo.Wire
