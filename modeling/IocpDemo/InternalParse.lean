/-
**The loop of the generated parsers** (`_InternalParse` of `ShooterProtocol.pb.cc`,
`parse_context.h`).

The generated code goes over the bytes once and stores what it reads straight into the message,
before it checks that the bytes reach that far; `WireMessages.lean` reads all fields of a message
first and sets them afterwards.  This module proves, for any message type, that the two accept the
same bytes, with the same messages, whatever lies behind the bytes: what is read beyond a limit is
noticed at the head of the loop.  And it says what a parse leaves in the message when it fails: a
well-formed message, of which the size is bounded by the bytes that were there.

Main definitions:

* `IocpDemo.Wire.within` — a parse that has not passed a limit;
* `IocpDemo.Wire.setTagged` — reading the value behind a tag, and setting the field;
* `IocpDemo.Wire.FieldAlike`, `IocpDemo.Wire.Leaves` — what is asked of the cases of a message;
* `IocpDemo.Wire.Case`, `IocpDemo.Wire.Generated` — the cases that the generator makes.

Main results:

* `IocpDemo.Wire.internalParse_alike`, `IocpDemo.Wire.internalParse_leaves` — the loop accepts what
  the two stages accept, and what it leaves;
* `IocpDemo.Wire.Case.agrees`, `IocpDemo.Wire.Case.leaves` — and so does every case;
* `IocpDemo.Wire.Generated.parse_eq` — **a message is parsed exactly when it is read**;
* `IocpDemo.Wire.Generated.parse_leaves` — **what a parse leaves in the message**.
-/

import IocpDemo.WireMessages

set_option relaxedAutoImplicit false
set_option autoImplicit false

namespace IocpDemo.Wire

/-! ### Reading beyond the end -/

/-- A number that does not end within the bytes, and is read with those behind, takes some of
them. -/
theorem readVarint_overrun {k n : ℕ} {bs behind rest : List UInt8} (h : readVarint k bs = none)
    (h' : readVarint k (bs ++ behind) = some (n, rest)) : rest.length < behind.length := by
  induction k generalizing n bs with
  | zero => simp [readVarint] at h'
  | succ k ih =>
      cases bs with
      | nil =>
          have hlen := (readVarint_some h').2
          have hpos := length_writeVarint_pos (k := k + 1) (Nat.succ_pos k) n
          rw [List.nil_append] at hlen
          omega
      | cons b bs =>
          rw [readVarint] at h
          rw [List.cons_append, readVarint] at h'
          split at h
          · cases h
          · next hb =>
              rw [if_neg hb] at h'
              obtain ⟨⟨m, r⟩, hm, heq⟩ := Option.map_eq_some_iff.1 h'
              obtain ⟨rfl, rfl⟩ := Prod.mk.inj heq
              exact ih (Option.map_eq_none_iff.1 h) hm

theorem readTag_overrun {tag : UInt32} {bs behind rest : List UInt8} (h : readTag bs = none)
    (h' : readTag (bs ++ behind) = some (tag, rest)) : rest.length < behind.length := by
  obtain ⟨⟨n, r⟩, hn, heq⟩ := Option.map_eq_some_iff.1 h'
  obtain ⟨rfl, rfl⟩ := Prod.mk.inj heq
  exact readVarint_overrun (Option.map_eq_none_iff.1 h) hn

theorem readSize_append {n : ℕ} {bs rest : List UInt8} (h : readSize bs = some (n, rest))
    (cs : List UInt8) : readSize (bs ++ cs) = some (n, rest ++ cs) := by
  obtain ⟨hread, hle⟩ := readSize_eq_some_iff.1 h
  exact readSize_eq_some_iff.2 ⟨readVarint_append hread cs, hle⟩

theorem readSize_overrun {n : ℕ} {bs behind rest : List UInt8} (h : readSize bs = none)
    (h' : readSize (bs ++ behind) = some (n, rest)) : rest.length < behind.length := by
  obtain ⟨hread, hle⟩ := readSize_eq_some_iff.1 h'
  have hnone : readVarint 5 bs = none := by
    cases hbs : readVarint 5 bs with
    | none => rfl
    | some r =>
        -- a size that is read is the same with the bytes behind
        obtain ⟨m, s⟩ := r
        rw [readVarint_append hbs behind] at hread
        obtain ⟨rfl, rfl⟩ := Prod.mk.inj (Option.some.inj hread)
        rw [readSize_eq_some_iff.2 ⟨hbs, hle⟩] at h
        cases h
  exact readVarint_overrun hnone hread

theorem readSize_le {n : ℕ} {bs rest : List UInt8} (h : readSize bs = some (n, rest)) :
    rest.length < bs.length := by
  have hlen := (readVarint_some (readSize_eq_some_iff.1 h).1).2
  have hpos := length_writeVarint_pos (k := 5) (by decide) n
  omega

/-! ### The loop -/

/-- The message of a parse that succeeded. -/
def accepted {M : Type} (r : M × Bool) : Option M := if r.2 then some r.1 else none

/-- A parse that has not failed, and has left at least this many bytes. -/
def within {M : Type} (behind : ℕ) (r : Parsed M) : Option (M × List UInt8) :=
  r.2.bind fun rest => if behind ≤ rest.length then some (r.1, rest) else none

/-- Reading a value of this wire type, and setting the field of this number to it. -/
def readAndSet {M : Type} (depth : ℕ) (set : M → ℕ → WireValue → M × Bool) (m : M)
    (number wireType : ℕ) (bs : List UInt8) : Option (M × List UInt8) :=
  (readValue depth number wireType bs).bind fun r =>
    (accepted (set m number r.1)).map fun m' => (m', r.2)

/-- What a field with this tag does to a message; the number zero is malformed. -/
def setTagged {M : Type} (depth : ℕ) (set : M → ℕ → WireValue → M × Bool) (m : M) (tag : UInt32)
    (bs : List UInt8) : Option (M × List UInt8) :=
  if tag.toNat / 8 = 0 then none
  else readAndSet depth set m (tag.toNat / 8) (tag.toNat % 8) bs

/-- A case leaves no more bytes than there were. -/
def Shrinks {M : Type} (depth : ℕ)
    (field : ParseContext → M → UInt32 → List UInt8 → Parsed M) : Prop :=
  ∀ lib limit m tag bs, ∀ rest ∈ (field ⟨lib, depth, limit⟩ m tag bs).2, rest.length ≤ bs.length

/-- **One iteration of the loop** reads the value of the field and sets the field to it, unless it
passes the limit. -/
structure FieldAlike {M : Type} (depth : ℕ) (set : M → ℕ → WireValue → M × Bool)
    (field : ParseContext → M → UInt32 → List UInt8 → Parsed M) : Prop where
  shrinks : Shrinks depth field
  agrees : ∀ (lib : Library) (m : M) (tag : UInt32) (bs behind : List UInt8),
    kSlopBytes ≤ behind.length →
      within behind.length (field ⟨lib, depth, behind.length⟩ m tag (bs ++ behind)) =
        (setTagged depth set m tag bs).map fun r => (r.1, r.2 ++ behind)

/-- How many bytes are left when the parser has not failed. -/
def remaining (o : Option (List UInt8)) : ℕ := (o.getD []).length

/-- **What a case leaves in the message**, whether it fails or not: the message stays well formed,
and for every byte that the case takes it becomes longer by at most sixteen, and by sixteen more for
the tag. -/
def Leaves {M : Type} (depth : ℕ) (write : M → List UInt8) (Wf : M → Prop)
    (field : ParseContext → M → UInt32 → List UInt8 → Parsed M) : Prop :=
  ∀ limit m tag bs, Wf m →
    let r := field ⟨.plain, depth, limit⟩ m tag bs
    Wf r.1 ∧ (write r.1).length + 16 * remaining r.2 ≤ (write m).length + 16 * bs.length + 16

section Loop

variable {M : Type} {depth : ℕ} {set : M → ℕ → WireValue → M × Bool}
  {field : ParseContext → M → UInt32 → List UInt8 → Parsed M} {lib : Library} {limit : ℕ}

theorem ParseContext.atLimit_some {ctx : ParseContext} {bs rest : List UInt8}
    (h : ctx.atLimit bs = some rest) :
    rest = bs ∧ bs.length = ctx.limit ∧ kSlopBytes ≤ bs.length := by
  simp only [ParseContext.atLimit, Option.ite_none_right_eq_some, Option.some.injEq] at h
  exact ⟨h.2.symm, h.1⟩

/-- The loop ends at the limit. -/
theorem internalParse_rest (hfield : Shrinks depth field) {fuel : ℕ} {m : M}
    {bs rest : List UInt8} (h : (internalParse ⟨lib, depth, limit⟩ field fuel m bs).2 = some rest) :
    rest.length = limit ∧ kSlopBytes ≤ rest.length ∧ rest.length ≤ bs.length := by
  induction fuel generalizing m bs with
  | zero =>
      obtain ⟨rfl, hlen, hslop⟩ := ParseContext.atLimit_some h
      exact ⟨hlen, hslop, Nat.le_refl _⟩
  | succ fuel ih =>
      rw [internalParse] at h
      split at h
      · obtain ⟨rfl, hlen, hslop⟩ := ParseContext.atLimit_some h
        exact ⟨hlen, hslop, Nat.le_refl _⟩
      · split at h
        · cases h
        · next tag htag =>
            split at h
            · cases h
            · next m' r hstep =>
                obtain ⟨hlen, hslop, hle⟩ := ih h
                have hshrink := hfield lib limit m tag.1 tag.2 r (by rw [hstep]; rfl)
                have htag' := readTag_some htag
                exact ⟨hlen, hslop, by omega⟩

/-- A loop that has passed its limit fails. -/
theorem internalParse_overrun (field : ParseContext → M → UInt32 → List UInt8 → Parsed M)
    (fuel : ℕ) (m : M) {ctx : ParseContext} {bs : List UInt8} (h : bs.length < ctx.limit) :
    (internalParse ctx field fuel m bs).2 = none := by
  have hlimit : ctx.atLimit bs = none := by
    rw [ParseContext.atLimit, if_neg]
    omega
  cases fuel with
  | zero => exact hlimit
  | succ fuel =>
      have hdone : ctx.done bs = true := decide_eq_true (by omega)
      rw [internalParse, if_pos hdone]
      exact hlimit

theorem within_eq_none {behind : ℕ} {r : Parsed M} (h : r.2 = none) : within behind r = none := by
  rw [within, h]
  rfl

/-- Reading a field and setting it, by the tag that has been read. -/
theorem readField_bind_set {A : Type} (depth : ℕ) (set : M → ℕ → WireValue → M × Bool) (m : M)
    {bs : List UInt8} {tag : UInt32 × List UInt8} (htag : readTag bs = some tag)
    (next : M → List UInt8 → Option A) :
    ((readField depth bs).bind fun r => (accepted (set m r.1 r.2.1)).bind fun m' =>
        next m' r.2.2) =
      (setTagged depth set m tag.1 tag.2).bind fun r => next r.1 r.2 := by
  rw [readField, htag, Option.bind_some, setTagged]
  split
  · rfl
  · cases hv : readValue depth (tag.1.toNat / 8) (tag.1.toNat % 8) tag.2 with
    | none => simp [readAndSet, hv]
    | some r =>
        simp only [readAndSet, hv, Option.map_some, Option.bind_some]
        cases accepted (set m (tag.1.toNat / 8) r.1) <;> rfl

/-- **One iteration reads one field and sets it**: what the rest of the loop makes of it. -/
theorem FieldAlike.iteration (hfield : FieldAlike depth set field) (lib : Library) (m : M)
    {bs behind : List UInt8} (hbehind : kSlopBytes ≤ behind.length) (hbs : bs ≠ []) (fuel : ℕ) :
    within behind.length
        (internalParse ⟨lib, depth, behind.length⟩ field (fuel + 1) m (bs ++ behind)) =
      (readField depth bs).bind fun r => (accepted (set m r.1 r.2.1)).bind fun m' =>
        within behind.length
          (internalParse ⟨lib, depth, behind.length⟩ field fuel m' (r.2.2 ++ behind)) := by
  have hpos : 0 < bs.length := List.length_pos_iff.2 hbs
  have hdone : (⟨lib, depth, behind.length⟩ : ParseContext).done (bs ++ behind) = false := by
    refine decide_eq_false ?_
    rw [List.length_append]
    simp only
    omega
  -- the parser has passed the limit, and fails at the head of the loop
  have hover : ∀ (m' : M) {rest : List UInt8}, rest.length < behind.length →
      within behind.length
        (internalParse ⟨lib, depth, behind.length⟩ field fuel m' rest) = none :=
    fun m' rest hrest => within_eq_none (internalParse_overrun field fuel m' hrest)
  rw [internalParse, hdone]
  simp only [Bool.false_eq_true, if_false]
  cases htag : readTag bs with
  | none =>
      have hread : readField depth bs = none := by simp [readField, htag]
      rw [hread, Option.bind_none]
      cases hlong : readTag (bs ++ behind) with
      | none => rfl
      | some tag =>
          have hlt := readTag_overrun htag hlong
          cases hstep : field ⟨lib, depth, behind.length⟩ m tag.1 tag.2 with
          | mk m' o =>
              cases o with
              | none => simp only [hstep]; rfl
              | some rest =>
                  have hle := hfield.shrinks lib _ m tag.1 tag.2 rest (by rw [hstep]; rfl)
                  simp only [hstep]
                  exact hover m' (by omega)
  | some tag =>
      have hagree := hfield.agrees lib m tag.1 tag.2 behind hbehind
      have hread := readField_bind_set depth set m htag fun m' rest =>
        within behind.length
          (internalParse ⟨lib, depth, behind.length⟩ field fuel m' (rest ++ behind))
      rw [readTag_append htag behind, hread]
      cases hstep : field ⟨lib, depth, behind.length⟩ m tag.1 (tag.2 ++ behind) with
      | mk m' o =>
          rw [hstep] at hagree
          cases o with
          | none =>
              have hset : setTagged depth set m tag.1 tag.2 = none :=
                Option.map_eq_none_iff.1 hagree.symm
              simp only [hset, hstep]
              rfl
          | some rest =>
              simp only [hstep]
              rcases Nat.lt_or_ge rest.length behind.length with hlt | hge
              · have hset : setTagged depth set m tag.1 tag.2 = none := by
                  refine Option.map_eq_none_iff.1 (hagree.symm.trans ?_)
                  simp [within, hlt]
                rw [hset]
                exact hover m' hlt
              · have hset : (setTagged depth set m tag.1 tag.2).map
                    (fun r => (r.1, r.2 ++ behind)) = some (m', rest) := by
                  rw [← hagree]
                  simp [within, hge]
                obtain ⟨⟨m'', rest'⟩, hr, heq⟩ := Option.map_eq_some_iff.1 hset
                obtain ⟨rfl, rfl⟩ := Prod.mk.inj heq
                rw [hr, Option.bind_some]

/-- **The loop accepts what the two stages accept**, with the same message. -/
theorem internalParse_alike (hfield : FieldAlike depth set field) (lib : Library)
    {behind : List UInt8} (hbehind : kSlopBytes ≤ behind.length) {fuel : ℕ} {bs : List UInt8}
    (hfuel : bs.length ≤ fuel) (m : M) :
    within behind.length
        (internalParse ⟨lib, depth, behind.length⟩ field fuel m (bs ++ behind)) =
      (accepted (mergeFrom depth set m bs)).map fun m' => (m', behind) := by
  have hend : ∀ (fuel : ℕ) (m : M), within behind.length
      (internalParse ⟨lib, depth, behind.length⟩ field fuel m behind) = some (m, behind) := by
    intro fuel m
    have hlimit : (⟨lib, depth, behind.length⟩ : ParseContext).atLimit behind = some behind := by
      simp [ParseContext.atLimit, hbehind]
    have hdone : (⟨lib, depth, behind.length⟩ : ParseContext).done behind = true :=
      decide_eq_true (Nat.le_max_left _ _)
    cases fuel with
    | zero => simp [internalParse, hlimit, within]
    | succ fuel => simp [internalParse, hdone, hlimit, within]
  rw [mergeFrom, readFields_fuel (Nat.le_refl _) hfuel]
  induction fuel generalizing m bs with
  | zero =>
      obtain rfl := List.eq_nil_of_length_eq_zero (Nat.le_zero.1 hfuel)
      exact hend 0 m
  | succ fuel ih =>
      cases bs with
      | nil => exact hend (fuel + 1) m
      | cons b bs =>
          rw [hfield.iteration lib m hbehind (List.cons_ne_nil b bs) fuel]
          cases hread : readField depth (b :: bs) with
          | none => simp [readFields, hread, applyFields, accepted]
          | some r =>
              obtain ⟨number, v, rest⟩ := r
              have hlt := length_of_readField hread
              rw [readFields_cons hread, Option.bind_some]
              cases hset : set m number v with
              | mk m' ok =>
                  cases ok with
                  | false => simp [applyFields, hset, accepted]
                  | true =>
                      have hfuel' : rest.length ≤ fuel := by omega
                      have hrest := ih hfuel' m'
                      simpa [applyFields, hset, accepted] using hrest

/-- **What the loop leaves in the message.** -/
theorem internalParse_leaves {write : M → List UInt8} {Wf : M → Prop}
    (hfield : Leaves depth write Wf field) (limit fuel : ℕ) {m : M} (hm : Wf m) (bs : List UInt8) :
    let r := internalParse ⟨.plain, depth, limit⟩ field fuel m bs
    Wf r.1 ∧ (write r.1).length + 16 * remaining r.2 ≤ (write m).length + 16 * bs.length := by
  have hend : ∀ (m : M) (bs : List UInt8), Wf m →
      let r : Parsed M := (m, (⟨.plain, depth, limit⟩ : ParseContext).atLimit bs)
      Wf r.1 ∧
        (write r.1).length + 16 * remaining r.2 ≤ (write m).length + 16 * bs.length := by
    intro m bs hm
    refine ⟨hm, ?_⟩
    simp only [ParseContext.atLimit]
    split <;> simp [remaining]
  induction fuel generalizing m bs with
  | zero => exact hend m bs hm
  | succ fuel ih =>
      rw [internalParse]
      split
      · exact hend m bs hm
      · split
        · exact ⟨hm, by simp [remaining]⟩
        · next tag htag =>
            have hlen := readTag_some htag
            have hpos := length_writeVarint_pos (k := 5) (by decide) tag.1.toNat
            obtain ⟨hwf, hle⟩ := hfield limit m tag.1 tag.2 hm
            split
            · next m' hstep =>
                simp only [hstep] at hwf hle
                refine ⟨hwf, ?_⟩
                dsimp only
                omega
            · next m' rest hstep =>
                simp only [hstep] at hwf hle
                obtain ⟨hwf', hle'⟩ := ih hwf rest
                refine ⟨hwf', ?_⟩
                simp only [remaining, Option.getD_some] at hle hle' ⊢
                omega

end Loop

/-! ### Where a case stands afterwards -/

theorem readVarint64_le {bs rest : List UInt8} (h : (readVarint64 bs).2 = some rest) :
    rest.length ≤ bs.length := by
  unfold readVarint64 at h
  split at h
  · next r hr =>
      obtain rfl := Option.some.inj h
      have := (readVarint_some hr).2
      omega
  · cases h

theorem loadFloat_le {bs rest : List UInt8} (h : (loadFloat bs).2 = some rest) :
    rest.length ≤ bs.length := by
  unfold loadFloat at h
  split at h
  · next r hr =>
      obtain rfl := Option.some.inj h
      have := (readBytes_some hr).2
      omega
  · cases h

theorem handleUnusual_le {M : Type} {ctx : ParseContext} {m : M} {tag : UInt32}
    {bs rest : List UInt8} {keep : UnknownFields → M}
    (h : (handleUnusual ctx m tag bs keep).2 = some rest) : rest.length ≤ bs.length := by
  unfold handleUnusual at h
  split at h
  · cases h
  · split at h
    · next r hr =>
        obtain rfl := Option.some.inj h
        simp only [unknownFieldParse, Option.ite_none_left_eq_some] at hr
        obtain ⟨v, hv, rfl⟩ := Option.map_eq_some_iff.1 hr.2
        have hlen := (readValue_some hv).2.2
        rw [List.length_take] at hlen
        simp only [List.length_append, List.length_drop]
        omega
    · cases h

theorem parseMessage_le {S : Type} {ctx : ParseContext}
    {field : ParseContext → S → UInt32 → List UInt8 → Parsed S}
    (hfield : Shrinks (ctx.depth - 1) field) {m : S} {bs rest : List UInt8}
    (h : (parseMessage ctx field m bs).2 = some rest) :
    rest.length ≤ bs.length := by
  unfold parseMessage at h
  split at h
  · cases h
  · next size hsize =>
      split at h
      · cases h
      · have hle := (internalParse_rest hfield h).2.2
        have hlt := readSize_le hsize
        omega

/-! ### The cases of the switch -/

theorem tag_number (tag : UInt32) : (tag >>> 3).toNat = tag.toNat / 8 := by
  simp [UInt32.toNat_shiftRight, Nat.shiftRight_eq_div_pow]

theorem tag_type (tag : UInt32) : (tag &&& 7).toNat = tag.toNat % 8 := by
  rw [UInt32.toNat_and]
  exact Nat.and_two_pow_sub_one_eq_mod _ 3

/-- The lowest byte of a tag decides the wire type, once the number is known to be small. -/
theorem tag_byte {tag : UInt32} {k : UInt8} {number wireType : ℕ} (hnumber : tag.toNat / 8 = number)
    (hk : k.toNat = 8 * number + wireType) (htype : wireType < 8) :
    tag.toUInt8 = k ↔ tag.toNat % 8 = wireType := by
  have hlt := k.toNat_lt
  rw [← UInt8.toNat_inj, UInt32.toNat_toUInt8]
  omega

section Cases

variable {M : Type} {depth : ℕ} {set : M → ℕ → WireValue → M × Bool} {m : M} {number : ℕ}
  {lib : Library} {tag : UInt32} {bs behind : List UInt8} {keep : UnknownFields → M}

/-- What is read of the bytes that are there is the same with those behind, and what takes some of
those has passed the limit. -/
theorem within_load {A B : Type} (read : List UInt8 → Option (A × List UInt8)) (bs : List UInt8)
    {load : Loaded B}
    (happend : ∀ a rest, read bs = some (a, rest) →
      read (bs ++ behind) = some (a, rest ++ behind))
    (hoverrun : ∀ a rest, read bs = none → read (bs ++ behind) = some (a, rest) →
      rest.length < behind.length)
    (value : A → B)
    (hsome : ∀ r, read (bs ++ behind) = some r → load = (value r.1, some r.2))
    (hnone : read (bs ++ behind) = none → load.2 = none) (put : B → M) :
    within behind.length (put load.1, load.2) =
      (read bs).map fun r => (put (value r.1), r.2 ++ behind) := by
  cases hread : read bs with
  | some r =>
      rw [hsome _ (happend r.1 r.2 hread)]
      simp [within]
  | none =>
      cases hlong : read (bs ++ behind) with
      | none => simp [within, hnone hlong]
      | some r =>
          have hlt := hoverrun r.1 r.2 hread hlong
          simp [within, hsome r hlong, hlt]

theorem readBytes_overrun {n : ℕ} {a rest : List UInt8} (h : readBytes n bs = none)
    (h' : readBytes n (bs ++ behind) = some (a, rest)) : rest.length < behind.length := by
  have hlen := (readBytes_some h').2
  have hn : ¬n ≤ bs.length := by simpa [readBytes] using h
  rw [List.length_append] at hlen
  omega

theorem readVarint32_alike (depth : ℕ) (put : UInt32 → M)
    (hset : ∀ v, set m number (.varint v) = (put v.toUInt32, true)) :
    within behind.length (put (readVarint32 (bs ++ behind)).1, (readVarint32 (bs ++ behind)).2) =
      (readAndSet depth set m number 0 bs).map fun r => (r.1, r.2 ++ behind) := by
  rw [within_load (readVarint 10) bs (fun _ _ h => readVarint_append h behind)
    (fun _ _ h h' => readVarint_overrun h h') (fun n => (UInt64.ofNat n).toUInt32)
    (fun r hr => by simp [readVarint32, readVarint64, hr])
    (fun hr => by simp [readVarint32, readVarint64, hr]) put]
  cases h : readVarint 10 bs <;> simp [readAndSet, readValue, readScalar, h, hset, accepted]

theorem readBool_alike (depth : ℕ) (put : Bool → M)
    (hset : ∀ v, set m number (.varint v) = (put (decide (v ≠ 0)), true)) :
    within behind.length (put (readBool (bs ++ behind)).1, (readBool (bs ++ behind)).2) =
      (readAndSet depth set m number 0 bs).map fun r => (r.1, r.2 ++ behind) := by
  rw [within_load (readVarint 10) bs (fun _ _ h => readVarint_append h behind)
    (fun _ _ h h' => readVarint_overrun h h') (fun n => decide (UInt64.ofNat n ≠ 0))
    (fun r hr => by simp [readBool, readVarint64, hr])
    (fun hr => by simp [readBool, readVarint64, hr]) put]
  cases h : readVarint 10 bs <;> simp [readAndSet, readValue, readScalar, h, hset, accepted]

theorem loadFloat_alike (depth : ℕ) (put : Float32Bits → M)
    (hset : ∀ v, set m number (.i32 v) = (put v, true)) :
    within behind.length (put (loadFloat (bs ++ behind)).1, (loadFloat (bs ++ behind)).2) =
      (readAndSet depth set m number 5 bs).map fun r => (r.1, r.2 ++ behind) := by
  rw [within_load (readBytes 4) bs (fun _ _ h => readBytes_append_right h behind)
    (fun _ _ h h' => readBytes_overrun h h') (fun a => UInt32.ofNat (leNat a))
    (fun r hr => by simp [loadFloat, hr]) (fun hr => by simp [loadFloat, hr]) put]
  cases h : readBytes 4 bs <;> simp [readAndSet, readValue, readScalar, h, hset, accepted]

/-- Setting a field to a message that is all there. -/
theorem readAndSet_message {S : Type} {setS : S → ℕ → WireValue → S × Bool} {default : S}
    {old : Option S} {put : Option S → M} {n : ℕ} {tail : List UInt8}
    (hset : ∀ b, set m number (.len b) = (put (mergeSub (depth - 1) setS default old b).1,
      (mergeSub (depth - 1) setS default old b).2))
    (hsize : readSize bs = some (n, tail)) (hle : n ≤ tail.length) :
    readAndSet depth set m number 2 bs =
      (accepted (mergeFrom (depth - 1) setS (old.getD default) (tail.take n))).map
        fun x => (put (some x), tail.drop n) := by
  have hvalue : readValue depth number 2 bs = some (.len (tail.take n), tail.drop n) := by
    simp [readValue, readScalar, hsize, readBytes, hle]
  rw [readAndSet, hvalue, Option.bind_some, hset, mergeSub]
  cases hmerge : mergeFrom (depth - 1) setS (old.getD default) (tail.take n) with
  | mk x ok => cases ok <;> simp [accepted]

/-- A message inside is parsed up to its limit. -/
theorem parseMessage_alike {S : Type} {setS : S → ℕ → WireValue → S × Bool}
    {fieldS : ParseContext → S → UInt32 → List UInt8 → Parsed S} {default : S} {old : Option S}
    (hbehind : kSlopBytes ≤ behind.length) (hdepth : depth ≠ 0) (put : Option S → M)
    (hfield : FieldAlike (depth - 1) setS fieldS)
    (hset : ∀ b, set m number (.len b) = (put (mergeSub (depth - 1) setS default old b).1,
      (mergeSub (depth - 1) setS default old b).2)) {r : Parsed S}
    (hr : r = parseMessage ⟨lib, depth, behind.length⟩ fieldS (old.getD default) (bs ++ behind)) :
    within behind.length (put (some r.1), r.2) =
      (readAndSet depth set m number 2 bs).map fun r => (r.1, r.2 ++ behind) := by
  -- a parse that ends at a limit behind the end has passed it
  have hpast : (∀ rest ∈ r.2, rest.length < behind.length) →
      within behind.length (put (some r.1), r.2) = none := by
    intro hall
    unfold within
    cases hrest : r.2 with
    | none => rfl
    | some rest => simp [hall rest hrest]
  cases hsize : readSize bs with
  | none =>
      have hread : readAndSet depth set m number 2 bs = none := by
        simp [readAndSet, readValue, readScalar, hsize]
      rw [hread]
      refine hpast fun rest hrest => ?_
      rw [hr, parseMessage] at hrest
      split at hrest
      · cases hrest
      · next size hlong =>
          have hlt := readSize_overrun hsize hlong
          rw [if_neg hdepth] at hrest
          have hlen := (internalParse_rest hfield.shrinks hrest).2.2
          omega
  | some size =>
      obtain ⟨n, tail⟩ := size
      rw [parseMessage, readSize_append hsize behind] at hr
      simp only [hdepth, if_false] at hr
      rcases Nat.lt_or_ge tail.length n with hlt | hge
      · have hread : readAndSet depth set m number 2 bs = none := by
          simp [readAndSet, readValue, readScalar, hsize, readBytes, Nat.not_le.2 hlt]
        rw [hread]
        refine hpast fun rest hrest => ?_
        rw [hr] at hrest
        have hlen := (internalParse_rest hfield.shrinks hrest).1
        have hslop : kSlopBytes = 16 := rfl
        simp only [List.length_append] at hlen
        omega
      · -- the bytes of the message, and those behind its limit
        have hsplit : tail ++ behind = tail.take n ++ (tail.drop n ++ behind) := by
          rw [← List.append_assoc, List.take_append_drop]
        have hlimit : (tail ++ behind).length - n = (tail.drop n ++ behind).length := by
          simp only [List.length_append, List.length_drop]
          omega
        have hslop : kSlopBytes ≤ (tail.drop n ++ behind).length := by
          rw [List.length_append]
          omega
        have hfuel : (tail.take n).length ≤ (tail ++ behind).length := by
          simp only [List.length_append, List.length_take]
          omega
        rw [hlimit] at hr
        have hloop := internalParse_alike hfield lib hslop hfuel (old.getD default)
        rw [← hsplit, ← hr] at hloop
        rw [readAndSet_message hset hsize hge, Option.map_map]
        have hends : ∀ rest ∈ r.2, rest.length = (tail.drop n ++ behind).length := by
          intro rest hrest
          rw [hr] at hrest
          exact (internalParse_rest hfield.shrinks hrest).1
        cases hrest : r.2 with
        | none =>
            have hnone : accepted (mergeFrom (depth - 1) setS (old.getD default)
                (tail.take n)) = none := by
              refine Option.map_eq_none_iff.1 (hloop.symm.trans ?_)
              simp [within, hrest]
            simp [within, hnone]
        | some rest =>
            have hlen := hends rest hrest
            have hwhole : within (tail.drop n ++ behind).length r = some (r.1, rest) := by
              simp [within, hrest, hlen]
            rw [hwhole] at hloop
            obtain ⟨x, hx, heq⟩ := Option.map_eq_some_iff.1 hloop.symm
            obtain ⟨rfl, rfl⟩ := Prod.mk.inj heq
            simp [within, hx]

/-- What the message does not know is kept as it is set. -/
theorem handleUnusual_alike (hbehind : kSlopBytes ≤ behind.length)
    (hset : ∀ v, v.wireType = tag.toNat % 8 →
      set m (tag.toNat / 8) v = (keep (writeField (tag.toNat / 8) v), true)) :
    within behind.length
        (handleUnusual ⟨lib, depth, behind.length⟩ m tag (bs ++ behind) keep) =
      (setTagged depth set m tag bs).map fun r => (r.1, r.2 ++ behind) := by
  have hnumber : tag >>> 3 = 0 ↔ tag.toNat / 8 = 0 := by
    rw [← UInt32.toNat_inj, tag_number]
    rfl
  have htype : tag &&& 7 = 4 ↔ tag.toNat % 8 = 4 := by
    rw [← UInt32.toNat_inj, tag_type]
    rfl
  have hzero : tag = 0 → tag.toNat / 8 = 0 := by
    rintro rfl
    rfl
  have hinside : (bs ++ behind).length - max behind.length kSlopBytes = bs.length := by
    rw [List.length_append]
    omega
  unfold handleUnusual unknownFieldParse setTagged
  simp only [hnumber, htype, tag_number, tag_type, hinside, List.take_left, List.drop_left]
  by_cases hn : tag.toNat / 8 = 0
  · rw [if_pos hn]
    split <;> simp [within]
  · have hne : tag ≠ 0 := fun h => hn (hzero h)
    simp only [hn, hne, false_or, if_false]
    by_cases hgroup : tag.toNat % 8 = 4
    · simp [hgroup, readAndSet, readValue, readScalar, within]
    · rw [if_neg hgroup, readAndSet]
      cases hvalue : readValue depth (tag.toNat / 8) (tag.toNat % 8) bs with
      | none => simp [within]
      | some r => simp [hset r.1 (readValue_some hvalue).1, accepted, within]

/-- **A case of the switch**, by what it reads: the field that the tag names is known, and is set to
what is read, or it is kept as an unknown one. -/
inductive Case (set : M → ℕ → WireValue → M × Bool) (write : M → List UInt8) (Wf : M → Prop)
    (ctx : ParseContext) (m : M) (tag : UInt32) (bs : List UInt8) (r : Parsed M) : Prop
  | float {number : ℕ} (hnumber : tag.toNat / 8 = number) (hpos : number ≠ 0)
      (htype : tag.toNat % 8 = 5) (put : Float32Bits → M)
      (hset : ∀ v, set m number (.i32 v) = (put v, true))
      (hr : r = (put (loadFloat bs).1, (loadFloat bs).2))
  | count {number : ℕ} (hnumber : tag.toNat / 8 = number) (hpos : number ≠ 0)
      (htype : tag.toNat % 8 = 0) (put : UInt32 → M)
      (hset : ∀ v, set m number (.varint v) = (put v.toUInt32, true))
      (hr : r = (put (readVarint32 bs).1, (readVarint32 bs).2))
  | flag {number : ℕ} (hnumber : tag.toNat / 8 = number) (hpos : number ≠ 0)
      (htype : tag.toNat % 8 = 0) (put : Bool → M)
      (hset : ∀ v, set m number (.varint v) = (put (decide (v ≠ 0)), true))
      (hr : r = (put (readBool bs).1, (readBool bs).2))
  | message {number : ℕ} {S : Type} {default : S} {setS : S → ℕ → WireValue → S × Bool}
      {writeS : S → List UInt8} {WfS : S → Prop}
      {fieldS : ParseContext → S → UInt32 → List UInt8 → Parsed S} {old : Option S}
      (hnumber : tag.toNat / 8 = number) (hpos : number ≠ 0) (htype : tag.toNat % 8 = 2)
      (hdepth : ctx.depth ≠ 0) (hformat : MessageFormat (ctx.depth - 1) default setS writeS WfS)
      (halike : FieldAlike (ctx.depth - 1) setS fieldS)
      (hleaves : Leaves (ctx.depth - 1) writeS WfS fieldS) (put : Option S → M)
      (hset : ∀ b, set m number (.len b) = (put (mergeSub (ctx.depth - 1) setS default old b).1,
        (mergeSub (ctx.depth - 1) setS default old b).2))
      (hold : Wf m → ∀ s ∈ old, WfS s)
      (hput : Wf m → ∀ s, WfS s → Wf (put (some s)) ∧
        (write (put (some s))).length +
            (writeOption number (fun s => .len (writeS s)) old).length =
          (write m).length + (writeField number (.len (writeS s))).length)
      (hr : r =
        let sub := parseMessage ctx fieldS (old.getD default) bs
        (put (some sub.1), sub.2))
  | unusual (keep : UnknownFields → M) (hkeep : keep [] = m)
      (hset : ∀ v, v.wireType = tag.toNat % 8 →
        set m (tag.toNat / 8) v = (keep (writeField (tag.toNat / 8) v), true))
      (hr : r = handleUnusual ctx m tag bs keep)

section Switch

variable {write : M → List UInt8} {Wf : M → Prop} {ctx : ParseContext} {r : Parsed M}

/-- **One byte of the tag tells whether the field is known**: a case of the switch. -/
theorem Case.of_byte {k : UInt8} {read : Parsed M} (wireType : ℕ)
    (hnumber : tag.toNat / 8 = number) (hk : k.toNat = 8 * number + wireType)
    (htype : wireType < 8)
    (hread : tag.toNat % 8 = wireType → Case set write Wf ctx m tag bs read)
    (hkeep : keep [] = m)
    (hother : ∀ v, v.wireType ≠ wireType → set m number v = (keep (writeField number v), true)) :
    Case set write Wf ctx m tag bs
      (if tag.toUInt8 = k then read else handleUnusual ctx m tag bs keep) := by
  by_cases hbyte : tag.toUInt8 = k
  · rw [if_pos hbyte]
    exact hread ((tag_byte hnumber hk htype).1 hbyte)
  · have htag : tag.toNat % 8 ≠ wireType := fun h => hbyte ((tag_byte hnumber hk htype).2 h)
    rw [if_neg hbyte]
    refine .unusual keep hkeep (fun v hv => ?_) rfl
    rw [hnumber]
    exact hother v (by rw [hv]; exact htag)

theorem Case.shrinks (h : Case set write Wf ctx m tag bs r) :
    ∀ rest ∈ r.2, rest.length ≤ bs.length := by
  intro rest hrest
  cases h with
  | float _ _ _ put _ hr =>
      rw [hr] at hrest
      exact loadFloat_le hrest
  | count _ _ _ put _ hr =>
      rw [hr] at hrest
      exact readVarint64_le hrest
  | flag _ _ _ put _ hr =>
      rw [hr] at hrest
      exact readVarint64_le hrest
  | message _ _ _ _ _ halike _ put _ _ _ hr =>
      rw [hr] at hrest
      exact parseMessage_le halike.shrinks hrest
  | unusual keep _ _ hr =>
      rw [hr] at hrest
      exact handleUnusual_le hrest

/-- **A case reads the value behind its tag and sets the field to it.** -/
theorem Case.agrees (hbehind : kSlopBytes ≤ behind.length)
    (h : Case set write Wf ⟨lib, depth, behind.length⟩ m tag (bs ++ behind) r) :
    within behind.length r =
      (setTagged depth set m tag bs).map fun r => (r.1, r.2 ++ behind) := by
  cases h with
  | float hnumber hpos htype put hset hr =>
      rw [hr, loadFloat_alike depth put hset, setTagged, hnumber, htype, if_neg hpos]
  | count hnumber hpos htype put hset hr =>
      rw [hr, readVarint32_alike depth put hset, setTagged, hnumber, htype, if_neg hpos]
  | flag hnumber hpos htype put hset hr =>
      rw [hr, readBool_alike depth put hset, setTagged, hnumber, htype, if_neg hpos]
  | message hnumber hpos htype hdepth _ halike _ put hset _ _ hr =>
      rw [hr, parseMessage_alike hbehind hdepth put halike hset rfl, setTagged, hnumber, htype,
        if_neg hpos]
  | unusual keep _ hset hr =>
      rw [hr]
      exact handleUnusual_alike hbehind hset

theorem length_writeField_i32_le (number : ℕ) (v : UInt32) :
    (writeField number (.i32 v)).length ≤ 9 := by
  have htag := length_writeVarint_le 5 (8 * number + 5)
  simp only [writeField, List.length_append, length_leBytes]
  omega

theorem length_writeField_varint_le (number : ℕ) (v : UInt64) :
    (writeField number (.varint v)).length ≤ 15 := by
  have htag := length_writeVarint_le 5 (8 * number)
  have hvalue := length_writeVarint_le 10 v.toNat
  simp only [writeField, List.length_append]
  omega

theorem length_writeField_len_le (number : ℕ) (bytes : List UInt8) :
    (writeField number (.len bytes)).length ≤ bytes.length + 10 := by
  have htag := length_writeVarint_le 5 (8 * number + 2)
  have hlen := length_writeVarint_le 5 bytes.length
  simp only [writeField, List.length_append]
  omega

theorem remaining_le {o : Option (List UInt8)} {k : ℕ} (h : ∀ rest ∈ o, rest.length ≤ k) :
    remaining o ≤ k := by
  cases o with
  | none => exact Nat.zero_le k
  | some rest => exact h rest rfl

/-- What a message inside leaves of itself. -/
theorem parseMessage_leaves {S : Type} (depth limit : ℕ) {writeS : S → List UInt8} {WfS : S → Prop}
    {fieldS : ParseContext → S → UInt32 → List UInt8 → Parsed S}
    (hleaves : Leaves (depth - 1) writeS WfS fieldS) {sub : S} (hsub : WfS sub)
    (bs : List UInt8) :
    let r := parseMessage ⟨.plain, depth, limit⟩ fieldS sub bs
    WfS r.1 ∧ (writeS r.1).length + 16 * remaining r.2 ≤ (writeS sub).length + 16 * bs.length := by
  intro r
  simp only [r, parseMessage]
  split
  · exact ⟨hsub, by simp [remaining]⟩
  · next size hsize =>
      have hlt := readSize_le hsize
      split
      · exact ⟨hsub, by simp [remaining]⟩
      · obtain ⟨hwf, hle⟩ := internalParse_leaves hleaves (size.2.length - size.1)
          size.2.length hsub size.2
        exact ⟨hwf, by omega⟩

/-- **What a case leaves in the message.** -/
theorem Case.leaves {default : M} {limit : ℕ} (hM : MessageFormat depth default set write Wf)
    (h : Case set write Wf ⟨.plain, depth, limit⟩ m tag bs r) (hm : Wf m) :
    Wf r.1 ∧ (write r.1).length + 16 * remaining r.2 ≤ (write m).length + 16 * bs.length + 16 := by
  have hrest := remaining_le h.shrinks
  -- a value that is set makes the message longer by its field
  have hset_wf : ∀ {number : ℕ} {v : WireValue} {m' : M}, tag.toNat / 8 = number → number ≠ 0 →
      v.Valid depth number → set m number v = (m', true) →
      Wf m' ∧ (write m').length ≤ (write m).length + (writeField number v).length := by
    intro number v m' hnumber hpos hv hset
    have htag := (tag_join (by rw [hnumber]; exact hpos)).1
    rw [hnumber] at htag
    have := hM.set_wf m number v hm ⟨htag, hv⟩
    rwa [hset] at this
  cases h with
  | @float number hnumber hpos htype put hset hr =>
      obtain ⟨hwf, hle⟩ := hset_wf (v := .i32 _) hnumber hpos trivial (hset (loadFloat bs).1)
      have hfield := length_writeField_i32_le number (loadFloat bs).1
      rw [hr] at hrest ⊢
      exact ⟨hwf, by dsimp only at hrest ⊢; omega⟩
  | @count number hnumber hpos htype put hset hr =>
      have hvalue := hset (readVarint32 bs).1.toUInt64
      rw [UInt32.toUInt32_toUInt64] at hvalue
      obtain ⟨hwf, hle⟩ := hset_wf (v := .varint _) hnumber hpos trivial hvalue
      have hfield := length_writeField_varint_le number (readVarint32 bs).1.toUInt64
      rw [hr] at hrest ⊢
      exact ⟨hwf, by dsimp only at hrest ⊢; omega⟩
  | @flag number hnumber hpos htype put hset hr =>
      obtain ⟨hwf, hle⟩ := hset_wf (v := .varint _) hnumber hpos trivial
        (hset (readVarint64 bs).1)
      have hfield := length_writeField_varint_le number (readVarint64 bs).1
      rw [hr] at hrest ⊢
      exact ⟨hwf, by dsimp only [readBool] at hrest hle ⊢; omega⟩
  | @message number S default setS writeS WfS fieldS old hnumber hpos htype hdepth hformat halike
      hleaves put hset hold hput hr =>
      have hwfOld : WfS (old.getD default) := by
        cases old with
        | none => exact hformat.wf_default
        | some s => exact hold hm s rfl
      have hlenOld : (writeS (old.getD default)).length ≤
          (writeOption number (fun s => .len (writeS s)) old).length := by
        cases old with
        | none => simp [hformat.write_default]
        | some s => simp [writeOption, length_writeField, WireValue.body]; omega
      obtain ⟨hwfSub, hleSub⟩ := parseMessage_leaves depth limit hleaves hwfOld bs
      obtain ⟨hwf, hlen⟩ := hput hm _ hwfSub
      have hfield := length_writeField_len_le number
        (writeS (parseMessage ⟨.plain, depth, limit⟩ fieldS (old.getD default) bs).1)
      rw [hr]
      exact ⟨hwf, by dsimp only at hleSub ⊢; omega⟩
  | unusual keep hkeep hset hr =>
      -- nothing has been kept
      have hsame : Wf m ∧ (write m).length + 16 * remaining none ≤
          (write m).length + 16 * bs.length + 16 := by
        refine ⟨hm, ?_⟩
        simp only [remaining, Option.getD_none, List.length_nil]
        omega
      rw [hr]
      unfold handleUnusual
      split
      · exact hsame
      · split
        · next u hu =>
            simp only [unknownFieldParse, Option.ite_none_left_eq_some] at hu
            obtain ⟨hzero, hu⟩ := hu
            obtain ⟨v, hv, rfl⟩ := Option.map_eq_some_iff.1 hu
            rw [tag_number, tag_type] at hv
            obtain ⟨htype, hvalid, hlen⟩ := readValue_some hv
            have hpos : tag.toNat / 8 ≠ 0 := fun h => hzero (by
              rw [← UInt32.toNat_inj, tag_number]
              exact h)
            obtain ⟨hwf, hle⟩ := hset_wf rfl hpos hvalid (hset v.1 htype)
            have htag := length_writeVarint_le 5 (8 * (tag.toNat / 8) + v.1.wireType)
            rw [length_writeField] at hle
            rw [List.length_take] at hlen
            rw [tag_number]
            refine ⟨hwf, ?_⟩
            simp only [remaining, Option.getD_some, List.length_append, List.length_drop]
            omega
        · have hnothing : keep (Library.plain.kept tag bs) = m := hkeep
          rw [hnothing]
          exact hsame

end Switch

end Cases

/-! ### The whole message -/

/-- The cases of a generated parser. -/
def Generated {M : Type} (depth : ℕ) (set : M → ℕ → WireValue → M × Bool)
    (write : M → List UInt8) (Wf : M → Prop)
    (field : ParseContext → M → UInt32 → List UInt8 → Parsed M) : Prop :=
  ∀ lib limit m tag bs,
    Case set write Wf ⟨lib, depth, limit⟩ m tag bs (field ⟨lib, depth, limit⟩ m tag bs)

namespace Generated

variable {M : Type} {depth : ℕ} {default : M} {set : M → ℕ → WireValue → M × Bool}
  {write : M → List UInt8} {Wf : M → Prop}
  {field : ParseContext → M → UInt32 → List UInt8 → Parsed M}

theorem alike (h : Generated depth set write Wf field) : FieldAlike depth set field where
  shrinks lib limit m tag bs := (h lib limit m tag bs).shrinks
  agrees lib m tag bs behind hbehind :=
    (h lib behind.length m tag (bs ++ behind)).agrees hbehind

theorem leaves (h : Generated depth set write Wf field)
    (hM : MessageFormat depth default set write Wf) : Leaves depth write Wf field :=
  fun limit m tag bs hm => (h .plain limit m tag bs).leaves hM hm

/-- **A message is parsed exactly when its fields are read and set**, and it is the same one. -/
theorem parse_eq (h : Generated recursionLimit set write Wf field) (lib : Library) (default : M)
    (bs : List UInt8) :
    accepted (parseFromArray lib default field bs) =
      accepted (mergeFrom recursionLimit set default bs) := by
  have hslop : kSlopBytes ≤ lib.slop.length := Nat.le_of_eq lib.length_slop.symm
  have hloop := internalParse_alike h.alike lib hslop (Nat.le_refl bs.length) default
  rw [lib.length_slop] at hloop
  have hends : ∀ rest ∈ (internalParse ⟨lib, recursionLimit, kSlopBytes⟩ field bs.length default
      (bs ++ lib.slop)).2, kSlopBytes ≤ rest.length := fun rest hrest =>
    (internalParse_rest h.alike.shrinks hrest).2.1
  unfold parseFromArray accepted
  cases hr : internalParse ⟨lib, recursionLimit, kSlopBytes⟩ field bs.length default
      (bs ++ lib.slop) with
  | mk m' o =>
      rw [hr] at hloop hends
      cases o with
      | none =>
          have hnone := Option.map_eq_none_iff.1 hloop.symm
          simpa [accepted] using hnone
      | some rest =>
          have hle := hends rest rfl
          have hsome : (accepted (mergeFrom recursionLimit set default bs)).map
              (fun m => (m, lib.slop)) = some (m', rest) := by
            rw [← hloop]
            simp [within, hle]
          obtain ⟨x, hx, heq⟩ := Option.map_eq_some_iff.1 hsome
          obtain ⟨rfl, rfl⟩ := Prod.mk.inj heq
          simpa [accepted] using hx.symm

/-- **What a parse leaves in the message**, whether it fails or not. -/
theorem parse_leaves (h : Generated recursionLimit set write Wf field)
    (hM : MessageFormat recursionLimit default set write Wf) (bs : List UInt8) :
    Wf (parseFromArray .plain default field bs).1 ∧
      (write (parseFromArray .plain default field bs).1).length ≤ 16 * (bs.length + 16) := by
  obtain ⟨hwf, hle⟩ := internalParse_leaves (h.leaves hM) kSlopBytes bs.length
    hM.wf_default (bs ++ Library.plain.slop)
  refine ⟨hwf, ?_⟩
  have hslop : Library.plain.slop.length = 16 := Library.plain.length_slop
  rw [hM.write_default, List.length_nil, List.length_append, hslop] at hle
  simp only [parseFromArray]
  omega

end Generated

end IocpDemo.Wire
