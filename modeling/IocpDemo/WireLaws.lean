/-
**The codecs of the wire format keep the laws** (`ShooterProtocol.pb.cc`).

Each generated parser is a switch over the number of a field, with one byte of the tag compared in
every case.  This module goes through the switches once, and what the loop does with such cases
gives the laws the server relies on: a message that is parsed is well formed and no longer than its
input, and a well-formed message is parsed back from what is written of it.

Main results:

* `IocpDemo.Wire.cases_clientId`, …, `IocpDemo.Wire.cases_weapon` — **the cases of each message**;
* `IocpDemo.Wire.lawful_wireProtobuf` — **the codecs keep all laws**;
* `IocpDemo.Wire.roundTrips_connMessage` — the message of `OnConnected` is parsed back.
-/

import IocpDemo.CodecLaws
import IocpDemo.InternalParse

set_option relaxedAutoImplicit false
set_option autoImplicit false

namespace IocpDemo.Wire

/-! ### The cases of each message -/

theorem recursionLimit_ne : recursionLimit ≠ 0 := by decide

theorem cases_clientId (depth : ℕ) :
    Generated depth setClientId writeClientId (WfClientId depth) fieldClientId := by
  intro lib limit m tag bs
  have hkeep : ({ m with unknown := m.unknown ++ [] } : PClientId) = m := by simp
  unfold fieldClientId
  simp only [tag_number]
  split
  · next hn =>
      refine .of_byte 0 hn rfl (by decide) (fun ht => ?_) hkeep fun v hv =>
        setClientId_unknown m ?_
      · exact .count hn (by decide) ht (fun v => { m with index := v }) (fun _ => rfl) rfl
      · cases v <;> first | rfl | exact absurd rfl hv
  · next hn =>
      refine .unusual _ hkeep (fun v _ => setClientId_unknown m ?_) rfl
      unfold knownClientId
      split <;> first | rfl | contradiction

/-- A component of a vector or a rotation is known by its wire type. -/
theorem knownComponents_of_ne (number : ℕ) {v : WireValue} (hv : v.wireType ≠ 5) :
    knownComponents number v = false := by
  unfold knownComponents
  split <;> first | rfl | exact absurd rfl hv

theorem cases_vector (depth : ℕ) :
    Generated depth setVector writeVector (WfVector depth) fieldVector := by
  intro lib limit m tag bs
  have hkeep : ({ m with unknown := m.unknown ++ [] } : PVector) = m := by simp
  have hother : ∀ {number : ℕ} (v : WireValue), v.wireType ≠ 5 → _ := fun {number} v hv =>
    setVector_unknown m (knownComponents_of_ne number hv)
  unfold fieldVector
  simp only [tag_number]
  split
  · next hn =>
      refine .of_byte 5 hn rfl (by decide) (fun ht => ?_) hkeep hother
      exact .float hn (by decide) ht (fun v => { m with x := v }) (fun _ => rfl) rfl
  · next hn =>
      refine .of_byte 5 hn rfl (by decide) (fun ht => ?_) hkeep hother
      exact .float hn (by decide) ht (fun v => { m with y := v }) (fun _ => rfl) rfl
  · next hn =>
      refine .of_byte 5 hn rfl (by decide) (fun ht => ?_) hkeep hother
      exact .float hn (by decide) ht (fun v => { m with z := v }) (fun _ => rfl) rfl
  · refine .unusual _ hkeep (fun v _ => setVector_unknown m ?_) rfl
    unfold knownComponents
    split <;> first | rfl | contradiction

theorem setRotator_unknown (m : PRotator) {number : ℕ} {v : WireValue}
    (h : knownComponents number v = false) :
    setRotator m number v = ({ m with unknown := m.unknown ++ writeField number v }, true) := by
  unfold setRotator
  split <;> first | cases h | rfl

theorem cases_rotator (depth : ℕ) :
    Generated depth setRotator writeRotator (WfRotator depth) fieldRotator := by
  intro lib limit m tag bs
  have hkeep : ({ m with unknown := m.unknown ++ [] } : PRotator) = m := by simp
  have hother : ∀ {number : ℕ} (v : WireValue), v.wireType ≠ 5 → _ := fun {number} v hv =>
    setRotator_unknown m (knownComponents_of_ne number hv)
  unfold fieldRotator
  simp only [tag_number]
  split
  · next hn =>
      refine .of_byte 5 hn rfl (by decide) (fun ht => ?_) hkeep hother
      exact .float hn (by decide) ht (fun v => { m with roll := v }) (fun _ => rfl) rfl
  · next hn =>
      refine .of_byte 5 hn rfl (by decide) (fun ht => ?_) hkeep hother
      exact .float hn (by decide) ht (fun v => { m with pitch := v }) (fun _ => rfl) rfl
  · next hn =>
      refine .of_byte 5 hn rfl (by decide) (fun ht => ?_) hkeep hother
      exact .float hn (by decide) ht (fun v => { m with yaw := v }) (fun _ => rfl) rfl
  · refine .unusual _ hkeep (fun v _ => setRotator_unknown m ?_) rfl
    unfold knownComponents
    split <;> first | rfl | contradiction

theorem cases_movement :
    Generated recursionLimit setMovement writeMovement WfMovement fieldMovement := by
  intro lib limit m tag bs
  have hkeep : ({ m with unknown := m.unknown ++ [] } : PMovement) = m := by simp
  have hother : ∀ {number : ℕ} (v : WireValue), v.wireType ≠ 2 →
      setMovement m number v =
        ({ m with unknown := m.unknown ++ writeField number v }, true) := by
    intro number v hv
    refine setMovement_unknown m ?_
    unfold knownMovement
    split <;> first | rfl | exact absurd rfl hv
  have hclientId := cases_clientId innerDepth
  have hvector := cases_vector innerDepth
  have hrotator := cases_rotator innerDepth
  unfold fieldMovement
  simp only [tag_number]
  split
  · next hn =>
      refine .of_byte 2 hn rfl (by decide) (fun ht => ?_) hkeep hother
      refine .message hn (by decide) ht recursionLimit_ne (format_clientId _) hclientId.alike
        (hclientId.leaves (format_clientId _)) (fun o => { m with id := o }) (fun _ => rfl)
        (fun hm => hm.id) (fun hm s hs => ⟨{ hm with id := by simpa using hs }, ?_⟩) rfl
      simp only [writeMovement, writeOption, List.length_append]
      omega
  · next hn =>
      refine .of_byte 2 hn rfl (by decide) (fun ht => ?_) hkeep hother
      refine .message hn (by decide) ht recursionLimit_ne (format_vector _) hvector.alike
        (hvector.leaves (format_vector _)) (fun o => { m with loc := o }) (fun _ => rfl)
        (fun hm => hm.loc) (fun hm s hs => ⟨{ hm with loc := by simpa using hs }, ?_⟩) rfl
      simp only [writeMovement, writeOption, List.length_append]
      omega
  · next hn =>
      refine .of_byte 2 hn rfl (by decide) (fun ht => ?_) hkeep hother
      refine .message hn (by decide) ht recursionLimit_ne (format_rotator _) hrotator.alike
        (hrotator.leaves (format_rotator _)) (fun o => { m with rot := o }) (fun _ => rfl)
        (fun hm => hm.rot) (fun hm s hs => ⟨{ hm with rot := by simpa using hs }, ?_⟩) rfl
      simp only [writeMovement, writeOption, List.length_append]
      omega
  · next hn =>
      refine .of_byte 2 hn rfl (by decide) (fun ht => ?_) hkeep hother
      refine .message hn (by decide) ht recursionLimit_ne (format_vector _) hvector.alike
        (hvector.leaves (format_vector _)) (fun o => { m with vel := o }) (fun _ => rfl)
        (fun hm => hm.vel) (fun hm s hs => ⟨{ hm with vel := by simpa using hs }, ?_⟩) rfl
      simp only [writeMovement, writeOption, List.length_append]
      omega
  · refine .unusual _ hkeep (fun v _ => setMovement_unknown m ?_) rfl
    unfold knownMovement
    split <;> first | rfl | contradiction

theorem cases_fireEvent :
    Generated recursionLimit setFireEvent writeFireEvent WfFireEvent fieldFireEvent := by
  intro lib limit m tag bs
  have hkeep : ({ m with unknown := m.unknown ++ [] } : PFireEvent) = m := by simp
  have hclientId := cases_clientId innerDepth
  have hvector := cases_vector innerDepth
  unfold fieldFireEvent
  simp only [tag_number]
  split
  · next hn =>
      refine .of_byte 2 hn rfl (by decide) (fun ht => ?_) hkeep fun v hv =>
        setFireEvent_unknown m ?_
      · refine .message hn (by decide) ht recursionLimit_ne (format_clientId _) hclientId.alike
          (hclientId.leaves (format_clientId _)) (fun o => { m with id := o }) (fun _ => rfl)
          (fun hm => hm.id) (fun hm s hs => ⟨{ hm with id := by simpa using hs }, ?_⟩) rfl
        simp only [writeFireEvent, writeOption, List.length_append]
        omega
      · cases v <;> first | rfl | exact absurd rfl hv
  · next hn =>
      refine .of_byte 5 hn rfl (by decide) (fun ht => ?_) hkeep fun v hv =>
        setFireEvent_unknown m ?_
      · exact .float hn (by decide) ht (fun v => { m with randomSeed := v }) (fun _ => rfl) rfl
      · cases v <;> first | rfl | exact absurd rfl hv
  · next hn =>
      refine .of_byte 2 hn rfl (by decide) (fun ht => ?_) hkeep fun v hv =>
        setFireEvent_unknown m ?_
      · refine .message hn (by decide) ht recursionLimit_ne (format_vector _) hvector.alike
          (hvector.leaves (format_vector _)) (fun o => { m with aimDir := o }) (fun _ => rfl)
          (fun hm => hm.aimDir) (fun hm s hs => ⟨{ hm with aimDir := by simpa using hs }, ?_⟩) rfl
        simp only [writeFireEvent, writeOption, List.length_append]
        omega
      · cases v <;> first | rfl | exact absurd rfl hv
  · next hn =>
      refine .of_byte 2 hn rfl (by decide) (fun ht => ?_) hkeep fun v hv =>
        setFireEvent_unknown m ?_
      · refine .message hn (by decide) ht recursionLimit_ne (format_vector _) hvector.alike
          (hvector.leaves (format_vector _)) (fun o => { m with startTrace := o })
          (fun _ => rfl) (fun hm => hm.startTrace)
          (fun hm s hs => ⟨{ hm with startTrace := by simpa using hs }, ?_⟩) rfl
        simp only [writeFireEvent, writeOption, List.length_append]
        omega
      · cases v <;> first | rfl | exact absurd rfl hv
  · refine .unusual _ hkeep (fun v _ => setFireEvent_unknown m ?_) rfl
    unfold knownFireEvent
    split <;> first | rfl | contradiction

theorem cases_animState :
    Generated recursionLimit setAnimState writeAnimState WfAnimState fieldAnimState := by
  intro lib limit m tag bs
  have hkeep : ({ m with unknown := m.unknown ++ [] } : PAnimState) = m := by simp
  have hclientId := cases_clientId innerDepth
  unfold fieldAnimState
  simp only [tag_number]
  split
  · next hn =>
      refine .of_byte 2 hn rfl (by decide) (fun ht => ?_) hkeep fun v hv =>
        setAnimState_unknown m ?_
      · refine .message hn (by decide) ht recursionLimit_ne (format_clientId _) hclientId.alike
          (hclientId.leaves (format_clientId _)) (fun o => { m with id := o }) (fun _ => rfl)
          (fun hm => hm.id) (fun hm s hs => ⟨{ hm with id := by simpa using hs }, ?_⟩) rfl
        simp only [writeAnimState, writeOption, List.length_append]
        omega
      · cases v <;> first | rfl | exact absurd rfl hv
  · next hn =>
      refine .of_byte 5 hn rfl (by decide) (fun ht => ?_) hkeep fun v hv =>
        setAnimState_unknown m ?_
      · exact .float hn (by decide) ht (fun v => { m with aimYaw := some v }) (fun _ => rfl) rfl
      · cases v <;> first | rfl | exact absurd rfl hv
  · next hn =>
      refine .of_byte 5 hn rfl (by decide) (fun ht => ?_) hkeep fun v hv =>
        setAnimState_unknown m ?_
      · exact .float hn (by decide) ht (fun v => { m with aimPitch := some v }) (fun _ => rfl) rfl
      · cases v <;> first | rfl | exact absurd rfl hv
  · refine .unusual _ hkeep (fun v _ => setAnimState_unknown m ?_) rfl
    unfold knownAnimState
    split <;> first | rfl | contradiction

theorem cases_weapon :
    Generated recursionLimit setWeapon writeWeapon WfWeapon fieldWeapon := by
  intro lib limit m tag bs
  have hkeep : ({ m with unknown := m.unknown ++ [] } : PWeapon) = m := by simp
  have hother : ∀ {number : ℕ}, number ≠ 1 → ∀ v : WireValue, v.wireType ≠ 0 →
      setWeapon m number v =
        ({ m with unknown := m.unknown ++ writeField number v }, true) := by
    intro number hnumber v hv
    refine setWeapon_unknown m ?_
    unfold knownWeapon
    split <;> first | rfl | exact absurd rfl hv | exact absurd rfl hnumber
  have hclientId := cases_clientId innerDepth
  unfold fieldWeapon
  simp only [tag_number]
  split
  · next hn =>
      refine .of_byte 2 hn rfl (by decide) (fun ht => ?_) hkeep fun v hv => setWeapon_unknown m ?_
      · refine .message hn (by decide) ht recursionLimit_ne (format_clientId _) hclientId.alike
          (hclientId.leaves (format_clientId _)) (fun o => { m with id := o }) (fun _ => rfl)
          (fun hm => hm.id) (fun hm s hs => ⟨{ hm with id := by simpa using hs }, ?_⟩) rfl
        simp only [writeWeapon_eq, writeOption, List.length_append]
        omega
      · cases v <;> first | rfl | exact absurd rfl hv
  · next hn =>
      refine .of_byte 0 hn rfl (by decide) (fun ht => ?_) hkeep (hother (by decide))
      exact .flag hn (by decide) ht (fun b => { m with startFire := some b }) (fun _ => rfl) rfl
  · next hn =>
      refine .of_byte 0 hn rfl (by decide) (fun ht => ?_) hkeep (hother (by decide))
      exact .flag hn (by decide) ht (fun b => { m with stopFire := some b }) (fun _ => rfl) rfl
  · next hn =>
      refine .of_byte 0 hn rfl (by decide) (fun ht => ?_) hkeep (hother (by decide))
      exact .flag hn (by decide) ht (fun b => { m with changeNextWeapon := some b })
        (fun _ => rfl) rfl
  · next hn =>
      refine .of_byte 0 hn rfl (by decide) (fun ht => ?_) hkeep (hother (by decide))
      exact .flag hn (by decide) ht (fun b => { m with changePrevWeapon := some b })
        (fun _ => rfl) rfl
  · next hn =>
      refine .of_byte 0 hn rfl (by decide) (fun ht => ?_) hkeep (hother (by decide))
      exact .flag hn (by decide) ht (fun b => { m with startReload := some b }) (fun _ => rfl) rfl
  · next hn =>
      refine .of_byte 0 hn rfl (by decide) (fun ht => ?_) hkeep (hother (by decide))
      exact .count hn (by decide) ht (fun v => { m with ammo := some v }) (fun _ => rfl) rfl
  · next hn =>
      refine .of_byte 0 hn rfl (by decide) (fun ht => ?_) hkeep (hother (by decide))
      exact .count hn (by decide) ht (fun v => { m with clipAmmo := some v }) (fun _ => rfl) rfl
  · refine .unusual _ hkeep (fun v _ => setWeapon_unknown m ?_) rfl
    unfold knownWeapon
    split <;> first | rfl | contradiction

/-! ### What is parsed -/

section Parsed

variable {M : Type} {default : M} {set : M → ℕ → WireValue → M × Bool} {write : M → List UInt8}
  {Wf : M → Prop} {field : ParseContext → M → UInt32 → List UInt8 → Parsed M} {lib : Library}

/-- **A well-formed message is parsed back from what is written of it.** -/
theorem Generated.roundTrip (h : Generated recursionLimit set write Wf field)
    (hM : MessageFormat recursionLimit default set write Wf) {m : M} (hm : Wf m)
    (hlen : (write m).length ≤ maxLimit) :
    parseFromArray lib default field (write m) = (m, true) := by
  have hread := h.parse_eq lib default (write m)
  rw [hM.roundTrip hm hlen] at hread
  unfold accepted at hread
  split at hread
  · next hok =>
      exact Prod.ext (Option.some.inj hread) hok
  · cases hread

/-- **What is parsed is well formed, and no longer than its input.** -/
theorem Generated.parsed_wf (h : Generated recursionLimit set write Wf field)
    (hM : MessageFormat recursionLimit default set write Wf) {bs : List UInt8}
    (hparses : (parseFromArray lib default field bs).2 = true) :
    Wf (parseFromArray lib default field bs).1 ∧
      (write (parseFromArray lib default field bs).1).length ≤ bs.length := by
  have hread := h.parse_eq lib default bs
  simp only [accepted, hparses, if_true] at hread
  split at hread
  · obtain ⟨hwf, hlen⟩ := hM.mergeFrom_wf hM.wf_default bs
    rw [Option.some.inj hread]
    rw [hM.write_default, List.length_nil, Nat.zero_add] at hlen
    exact ⟨hwf, hlen⟩
  · cases hread

end Parsed

/-! ### The laws -/

/-- An empty `Id` takes two bytes. -/
theorem length_writeField_emptyId : (writeField 1 (.len (writeClientId {}))).length = 2 := by decide

/-- A message whose `Id` can be created empty, which takes two bytes. -/
structure EmptyId {M : Type} [HasId M] (write : M → List UInt8) (Wf : M → Prop) : Prop where
  wf : ∀ m, Wf m → Wf (HasId.setId m {})
  length : ∀ m, HasId.id? m = none → (write (HasId.setId m {})).length = (write m).length + 2

theorem EmptyId.mutableId {M : Type} [HasId M] {write : M → List UInt8} {Wf : M → Prop}
    (h : EmptyId write Wf) (m : M) : (Wf m → Wf (mutableId m)) ∧
      (write (IocpDemo.mutableId m)).length ≤ (write m).length + 2 := by
  unfold IocpDemo.mutableId
  split
  · exact ⟨fun hm => hm, Nat.le_add_right _ _⟩
  · next hid => exact ⟨h.wf m, Nat.le_of_eq (h.length m hid)⟩

theorem emptyId_movement : EmptyId writeMovement WfMovement where
  wf m hm := { hm with id := by simpa [HasId.setId] using (format_clientId innerDepth).wf_default }
  length m hid := by
    have hid : m.id = none := hid
    simp only [HasId.setId, writeMovement, writeOption, hid, List.length_append,
      length_writeField_emptyId, List.length_nil]
    omega

theorem emptyId_fireEvent : EmptyId writeFireEvent WfFireEvent where
  wf m hm := { hm with id := by simpa [HasId.setId] using (format_clientId innerDepth).wf_default }
  length m hid := by
    have hid : m.id = none := hid
    simp only [HasId.setId, writeFireEvent, writeOption, hid, List.length_append,
      length_writeField_emptyId, List.length_nil]
    omega

theorem emptyId_animState : EmptyId writeAnimState WfAnimState where
  wf m hm := { hm with id := by simpa [HasId.setId] using (format_clientId innerDepth).wf_default }
  length m hid := by
    have hid : m.id = none := hid
    simp only [HasId.setId, writeAnimState, writeOption, hid, List.length_append,
      length_writeField_emptyId, List.length_nil]
    omega

theorem emptyId_weapon : EmptyId writeWeapon WfWeapon where
  wf m hm := { hm with id := by simpa [HasId.setId] using (format_clientId innerDepth).wf_default }
  length m hid := by
    have hid : m.id = none := hid
    simp only [HasId.setId, writeWeapon_eq, writeOption, hid, List.length_append,
      length_writeField_emptyId, List.length_nil]
    omega

/-- **A codec of the wire format keeps the laws.** -/
theorem Generated.lawful {M : Type} [HasId M] {default : M}
    {set : M → ℕ → WireValue → M × Bool} {write : M → List UInt8} {Wf : M → Prop}
    {field : ParseContext → M → UInt32 → List UInt8 → Parsed M}
    (h : Generated recursionLimit set write Wf field)
    (hM : MessageFormat recursionLimit default set write Wf) (hid : EmptyId write Wf) :
    (wireCodec default field write).Lawful := by
  have hlimit : 65537 ≤ maxLimit := by decide
  refine ⟨fun m => rfl, fun data hdata hparses => ?_, fun data hdata hparses => ?_,
    fun data hdata hparses => ?_, fun m => (hid.mutableId m).2⟩
  · obtain ⟨hm, hle⟩ := h.parsed_wf hM hparses
    have hfits : (write (parseFromArray .plain default field data).1).length ≤ maxLimit := by
      omega
    exact h.roundTrip hM hm hfits
  · obtain ⟨hm, hle⟩ := h.parsed_wf hM hparses
    obtain ⟨hwf', hle'⟩ := hid.mutableId (parseFromArray .plain default field data).1
    have hfits : (write (mutableId (parseFromArray .plain default field data).1)).length ≤
        maxLimit := by omega
    exact h.roundTrip hM (hwf' hm) hfits
  · exact (h.parsed_wf hM hparses).2

/-! ### The messages the server builds -/

theorem length_writeFloat_le_nine (number : ℕ) (v : Float32Bits) :
    (writeFloat number v).length ≤ 9 :=
  Nat.le_trans (length_writeFloat_le number v) (length_writeField_i32_le number v)

theorem length_writeClientId_le (index : UInt32) :
    (writeClientId { index := index }).length ≤ 15 := by
  have := length_writeField_varint_le 1 index.toUInt64
  simp only [writeClientId, List.append_nil]
  split
  · exact Nat.zero_le _
  · exact this

/-- A roster message has no unknown fields, and is small. -/
theorem rosterMessage_small (player : Int32 × ClientInfo) :
    WfMovement (rosterMessage player) ∧ (writeMovement (rosterMessage player)).length ≤ 1000 := by
  refine ⟨⟨?_, ?_, ?_, ?_, UnknownWf.nil _ _⟩, ?_⟩
  · simpa [rosterMessage, WfClientId] using UnknownWf.nil _ _
  · simpa [rosterMessage, WfVector] using UnknownWf.nil _ _
  · simpa [rosterMessage, WfRotator, WfVector, rotatorEquiv] using UnknownWf.nil _ _
  · simp [rosterMessage]
  · obtain ⟨key, ⟨⟨x, y, z⟩, ⟨roll, pitch, yaw⟩⟩⟩ := player
    have hid := length_writeClientId_le key.toUInt32
    have hx := length_writeFloat_le_nine 1 x
    have hy := length_writeFloat_le_nine 2 y
    have hz := length_writeFloat_le_nine 3 z
    have hroll := length_writeFloat_le_nine 1 roll
    have hpitch := length_writeFloat_le_nine 2 pitch
    have hyaw := length_writeFloat_le_nine 3 yaw
    have h₁ := length_writeField_len_le 1 (writeClientId { index := key.toUInt32 })
    have h₂ := length_writeField_len_le 2 (writeVector { x := x, y := y, z := z })
    have h₃ := length_writeField_len_le 3
      (writeRotator { roll := roll, pitch := pitch, yaw := yaw })
    simp only [writeVector, writeRotator, List.length_append, List.length_nil] at h₂ h₃
    simp only [rosterMessage, writeMovement, writeOption, List.length_append, List.length_nil,
      writeVector, writeRotator] at *
    omega

/-- **The codecs of the wire format keep all laws.** -/
theorem lawful_wireProtobuf : wireProtobuf.Lawful where
  clientId m := rfl
  movement := cases_movement.lawful format_movement emptyId_movement
  fireEvent := cases_fireEvent.lawful format_fireEvent emptyId_fireEvent
  animState := cases_animState.lawful format_animState emptyId_animState
  weapon := cases_weapon.lawful format_weapon emptyId_weapon
  connMessage_le index := by
    have := length_writeClientId_le index.toUInt32
    have hmax : maxMessage = 65531 := rfl
    have hsize : wireProtobuf.clientId.byteSizeLong (connMessage index) =
        (writeClientId { index := index.toUInt32 }).length := rfl
    omega
  rosterMessage_le player := by
    have := (rosterMessage_small player).2
    have hmax : maxMessage = 65531 := rfl
    have hsize : wireProtobuf.movement.byteSizeLong (rosterMessage player) =
        (writeMovement (rosterMessage player)).length := rfl
    omega
  roundTrips_rosterMessage player := by
    obtain ⟨hwf, hle⟩ := rosterMessage_small player
    have hlimit : 1000 ≤ maxLimit := by decide
    exact cases_movement.roundTrip format_movement hwf (Nat.le_trans hle hlimit)

/-- The message of `OnConnected` is parsed back from what is written of it. -/
theorem roundTrips_connMessage (index : UInt16) :
    wireProtobuf.clientId.RoundTrips (connMessage index) := by
  have hlen := length_writeClientId_le index.toUInt32
  have hlimit : 15 ≤ maxLimit := by decide
  exact (cases_clientId recursionLimit).roundTrip (format_clientId recursionLimit)
    (UnknownWf.nil _ _) (Nat.le_trans hlen hlimit)

end IocpDemo.Wire
