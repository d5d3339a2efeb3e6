/-
**Cutting a stream of self-announcing blocks into pieces.**

A stream is the concatenation of blocks.  It is cut into pieces, and a reader looks at each piece
alone, extended by a padding symbol `z` as far as needed.  The reader sees the block `b` in the
piece `c` when the padded piece starts with `b`.

The question is when a reader that looks at every piece once sees exactly the blocks of the stream,
in order.  If the pieces are the blocks it does.  This module proves the converse for blocks of at
least two symbols whose first two are not both the padding symbol: the reader sees the blocks *only*
when the pieces are the blocks.  Two facts carry the proof.  Counting the symbols other than `z`
shows that no piece can hold more of them than the block seen in it, so a piece and its block differ
by trailing padding symbols only.  Then the first piece that differs from its block would leave the
next one to start inside a stretch of padding, where a block cannot be seen.

Main definitions:

* `Cutting.Sees` — the padded piece starts with the block;
* `Cutting.Marked` — a block whose first two symbols are not both `z`;
* `Cutting.UpToPadding` — two lists that differ by trailing padding symbols only.

Main results:

* `Cutting.upToPadding_of_sees` — a reader that sees every block sees pieces equal to the blocks up
  to trailing padding;
* `Cutting.eq_of_sees` — **the pieces are the blocks**.
-/

import Mathlib.Data.List.Forall2
import Mathlib.Data.List.GetD

set_option relaxedAutoImplicit false
set_option autoImplicit false

namespace Cutting

variable {α : Type*} {z : α}

/-- The piece `c`, continued by `z`, starts with the block `b`. -/
def Sees (z : α) (c b : List α) : Prop := ∀ k < b.length, c.getD k z = b.getD k z

/-- The block has two symbols in front that are not both the padding symbol. -/
def Marked (z : α) (b : List α) : Prop := ∃ x y r, b = x :: y :: r ∧ ¬(x = z ∧ y = z)

/-- The lists differ by padding symbols at the end of one of them. -/
def UpToPadding (z : α) (c b : List α) : Prop :=
  ∃ m, c = b ++ List.replicate m z ∨ b = c ++ List.replicate m z

/-- A piece that is the block is seen as the block. -/
theorem Sees.refl (b : List α) : Sees z b b := fun _ _ => rfl

theorem Marked.ne_nil {b : List α} (h : Marked z b) : b ≠ [] := by
  obtain ⟨x, y, r, rfl, -⟩ := h
  simp

/-- What is seen in a piece that is at least as long is a beginning of the piece. -/
theorem Sees.append {c b : List α} (h : Sees z c b) (hle : b.length ≤ c.length) :
    ∃ r, c = b ++ r := by
  refine ⟨c.drop b.length, ?_⟩
  have htake : c.take b.length = b := by
    refine List.ext_getElem (by rw [List.length_take]; omega) ?_
    intro k h₁ h₂
    have := h k h₂
    rw [List.getD_eq_getElem _ _ (by omega), List.getD_eq_getElem _ _ h₂] at this
    simpa using this
  conv_lhs => rw [← List.take_append_drop b.length c, htake]

/-- What is seen in a shorter piece is the piece followed by padding. -/
theorem Sees.padded {c b : List α} (h : Sees z c b) (hle : c.length ≤ b.length) :
    b = c ++ List.replicate (b.length - c.length) z := by
  refine List.ext_getElem (by simp [hle]) ?_
  intro k h₁ h₂
  have hk := h k h₁
  rw [List.getD_eq_getElem _ _ h₁] at hk
  rw [← hk]
  by_cases hkc : k < c.length
  · rw [List.getD_eq_getElem _ _ hkc, List.getElem_append_left hkc]
  · rw [List.getD_eq_default _ _ (by omega), List.getElem_append_right (by omega)]
    simp

/-! ### Counting the symbols that are not padding -/

section Counting

variable [DecidableEq α]

/-- The number of symbols other than the padding symbol. -/
def weight (z : α) (l : List α) : ℕ := l.countP (· ≠ z)

@[simp] theorem weight_nil : weight z ([] : List α) = 0 := rfl

@[simp] theorem weight_append (l r : List α) : weight z (l ++ r) = weight z l + weight z r := by
  simp [weight]

/-- A list without weight consists of padding. -/
theorem eq_replicate_of_weight {l : List α} (h : weight z l = 0) :
    l = List.replicate l.length z := by
  refine List.eq_replicate_iff.2 ⟨rfl, ?_⟩
  simpa [weight, List.countP_eq_zero] using h

/-- A piece weighs at least as much as the block seen in it. -/
theorem Sees.weight_le {c b : List α} (h : Sees z c b) : weight z b ≤ weight z c := by
  rcases Nat.le_total b.length c.length with hle | hle
  · obtain ⟨r, rfl⟩ := h.append hle
    simp
  · rw [h.padded hle]
    simp [weight, List.countP_replicate]

/-- A piece that weighs as much as the block seen in it differs from it by padding only. -/
theorem Sees.upToPadding {c b : List α} (h : Sees z c b) (hw : weight z c ≤ weight z b) :
    UpToPadding z c b := by
  rcases Nat.le_total b.length c.length with hle | hle
  · obtain ⟨r, rfl⟩ := h.append hle
    rw [weight_append] at hw
    exact ⟨r.length, Or.inl (by rw [← eq_replicate_of_weight (l := r) (by omega)])⟩
  · exact ⟨_, Or.inr (h.padded hle)⟩

/-- The pieces together weigh at least as much as the blocks seen in them. -/
theorem weight_flatten_le {cs bs : List (List α)} (h : List.Forall₂ (Sees z) cs bs) :
    weight z bs.flatten ≤ weight z cs.flatten := by
  induction h with
  | nil => simp
  | cons hs _ ih =>
      have := hs.weight_le
      simp only [List.flatten_cons, weight_append]
      omega

/-- **A reader that sees every block of a stream cuts it at the blocks, up to padding.** -/
theorem upToPadding_of_sees {cs bs : List (List α)} (h : List.Forall₂ (Sees z) cs bs)
    (hw : weight z cs.flatten ≤ weight z bs.flatten) : List.Forall₂ (UpToPadding z) cs bs := by
  induction h with
  | nil => exact List.Forall₂.nil
  | cons hs hrest ih =>
      have hle := hs.weight_le
      have hrle := weight_flatten_le hrest
      simp only [List.flatten_cons, weight_append] at hw
      exact List.Forall₂.cons (hs.upToPadding (by omega)) (ih (by omega))

end Counting

/-! ### Where the next piece starts -/

/-- A nonempty list and a marked block that differ by trailing padding start with the same
symbol. -/
theorem UpToPadding.head {x y c₀ : α} {r c : List α} (h : UpToPadding z (c₀ :: c) (x :: y :: r)) :
    c₀ = x := by
  obtain ⟨m, h | h⟩ := h
  · exact (List.cons.inj h).1
  · exact (List.cons.inj h).1.symm

/-- A marked block cannot differ by trailing padding from a piece that starts where a stretch of
padding in front of the block starts. -/
theorem not_upToPadding_of_early {x y : α} {r c t u : List α} {m : ℕ} (hmark : ¬(x = z ∧ y = z))
    (hc : c ≠ []) (hstream : c ++ t = List.replicate (m + 1) z ++ (x :: y :: r ++ u)) :
    ¬UpToPadding z c (x :: y :: r) := by
  intro hup
  obtain ⟨c₀, c, rfl⟩ := List.exists_cons_of_ne_nil hc
  rw [List.replicate_succ] at hstream
  simp only [List.cons_append, List.cons.injEq] at hstream
  obtain ⟨rfl, hstream⟩ := hstream
  have hx := hup.head
  subst hx
  -- the first symbol of the block is padding, so the second is not
  have hy : y ≠ c₀ := fun hy => hmark ⟨rfl, hy⟩
  cases c with
  | nil =>
      obtain ⟨n, h | h⟩ := hup
      · simp at h
      · cases n with
        | zero => simp at h
        | succ n => simp [List.replicate_succ] at h; exact hy h.1
  | cons c₁ c =>
      have hc₁ : c₁ = c₀ := by
        cases m with
        | zero => simpa using (List.cons.inj hstream).1
        | succ m => simpa [List.replicate_succ] using (List.cons.inj hstream).1
      obtain ⟨n, h | h⟩ := hup
      · simp only [List.cons_append, List.cons.injEq] at h
        exact hy (by rw [← h.2.1, hc₁])
      · simp only [List.cons_append, List.cons.injEq] at h
        exact hy (by rw [h.2.1, hc₁])

/-- A marked block cannot differ by trailing padding from a piece that starts behind a stretch of
padding at the start of the block. -/
theorem not_upToPadding_of_late {x y : α} {r c t u : List α} {m : ℕ} (hmark : ¬(x = z ∧ y = z))
    (hc : c ≠ []) (hstream : List.replicate (m + 1) z ++ (c ++ t) = x :: y :: r ++ u) :
    ¬UpToPadding z c (x :: y :: r) := by
  intro hup
  obtain ⟨c₀, c, rfl⟩ := List.exists_cons_of_ne_nil hc
  have hx := hup.head
  subst hx
  rw [List.replicate_succ] at hstream
  simp only [List.cons_append, List.cons.injEq] at hstream
  obtain ⟨rfl, hstream⟩ := hstream
  refine hmark ⟨rfl, ?_⟩
  cases m with
  | zero => simpa using (List.cons.inj hstream).1.symm
  | succ m => simpa [List.replicate_succ] using (List.cons.inj hstream).1.symm

/-- The first piece is its block: otherwise the next one would start inside a stretch of padding. -/
theorem eq_of_upToPadding_cons {c b : List α} {cs bs : List (List α)} (hcb : UpToPadding z c b)
    (hrest : List.Forall₂ (UpToPadding z) cs bs) (hne : ∀ d ∈ cs, d ≠ [])
    (hmark : ∀ d ∈ bs, Marked z d) (hstream : c ++ cs.flatten = b ++ bs.flatten) : c = b := by
  obtain ⟨m, rfl | rfl⟩ := hcb
  · -- the piece runs past its block, by `m` padding symbols
    cases m with
    | zero => simp
    | succ m =>
        exfalso
        rw [List.append_assoc, List.append_cancel_left_eq] at hstream
        cases hrest with
        | nil => simp [List.replicate_succ] at hstream
        | @cons c₂ b₂ cs bs hcb₂ _ =>
            obtain ⟨x, y, r, rfl, hxy⟩ := hmark b₂ (by simp)
            rw [List.flatten_cons, List.flatten_cons] at hstream
            exact not_upToPadding_of_late hxy (hne c₂ (by simp)) hstream hcb₂
  · -- the piece stops `m` padding symbols before the end of its block
    cases m with
    | zero => simp
    | succ m =>
        exfalso
        rw [List.append_assoc, List.append_cancel_left_eq] at hstream
        cases hrest with
        | nil => simp [List.replicate_succ] at hstream
        | @cons c₂ b₂ cs bs hcb₂ _ =>
            obtain ⟨x, y, r, rfl, hxy⟩ := hmark b₂ (by simp)
            rw [List.flatten_cons, List.flatten_cons] at hstream
            exact not_upToPadding_of_early hxy (hne c₂ (by simp)) hstream hcb₂

/-- Pieces that differ from marked blocks by trailing padding, and together make up the same stream,
are the blocks. -/
theorem eq_of_upToPadding {cs bs : List (List α)} (h : List.Forall₂ (UpToPadding z) cs bs)
    (hne : ∀ c ∈ cs, c ≠ []) (hmark : ∀ b ∈ bs, Marked z b) (hstream : cs.flatten = bs.flatten) :
    cs = bs := by
  induction h with
  | nil => rfl
  | @cons c b cs bs hcb hrest ih =>
      have hne' : ∀ d ∈ cs, d ≠ [] := fun d hd => hne d (List.mem_cons_of_mem _ hd)
      have hmark' : ∀ d ∈ bs, Marked z d := fun d hd => hmark d (List.mem_cons_of_mem _ hd)
      rw [List.flatten_cons, List.flatten_cons] at hstream
      obtain rfl := eq_of_upToPadding_cons hcb hrest hne' hmark' hstream
      rw [ih hne' hmark' (List.append_cancel_left hstream)]

/-- **A reader that sees the blocks of a stream in its pieces cuts it exactly at the blocks.** -/
theorem eq_of_sees [DecidableEq α] {cs bs : List (List α)} (h : List.Forall₂ (Sees z) cs bs)
    (hne : ∀ c ∈ cs, c ≠ []) (hmark : ∀ b ∈ bs, Marked z b) (hstream : cs.flatten = bs.flatten) :
    cs = bs :=
  eq_of_upToPadding (upToPadding_of_sees h (Nat.le_of_eq (by rw [hstream]))) hne hmark hstream

end Cutting
