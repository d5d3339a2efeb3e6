/-
**Reading a stream of blocks that announce their length.**

A reader is given the beginning of a stream, as much of it as has arrived.  It asks how long the
block at its start is, takes it if it is all there, and goes on behind it.  When the stream is a
concatenation of blocks that announce their own length, the reader finds these blocks and no others,
however much of the stream has arrived.

Main definitions:

* `Blocks.Stable` — what is known of the length of a block is not changed by what follows;
* `Blocks.Block` — a block that announces its own length;
* `Blocks.read` — the reader: the blocks that are all there, and the rest.

Main results:

* `Blocks.read_flatten` — **a stream of blocks is read back**;
* `Blocks.read_of_prefix` — **the beginning of a stream is read as the blocks that are all there**.
-/

import Mathlib.Data.List.Infix

set_option relaxedAutoImplicit false
set_option autoImplicit false

namespace Blocks

variable {α : Type*} {size : List α → Option ℕ} {l : List α} {bs : List (List α)}

/-- The length of the block in front, once it is known, does not depend on what follows. -/
def Stable (size : List α → Option ℕ) : Prop := ∀ l r n, size l = some n → size (l ++ r) = some n

/-- A block that announces its own length. -/
structure Block (size : List α → Option ℕ) (b : List α) : Prop where
  ne_nil : b ≠ []
  size_eq : size b = some b.length

/-- The block in front is not all there. -/
def Unfinished (size : List α → Option ℕ) (l : List α) : Prop :=
  ∀ n ∈ size l, n ≤ l.length → n = 0

/-- Reading at most `k` blocks. -/
def readN (size : List α → Option ℕ) : ℕ → List α → List (List α) × List α
  | 0, l => ([], l)
  | k + 1, l =>
      match size l with
      | none => ([], l)
      | some n =>
          if 0 < n ∧ n ≤ l.length then
            let r := readN size k (l.drop n)
            (l.take n :: r.1, r.2)
          else ([], l)

/-- **Reading a stream**: the blocks that are all there, and the rest. -/
def read (size : List α → Option ℕ) (l : List α) : List (List α) × List α := readN size l.length l

theorem readN_of_unfinished (h : Unfinished size l) (k : ℕ) : readN size k l = ([], l) := by
  cases k with
  | zero => rfl
  | succ k =>
      rw [readN]
      cases hsize : size l with
      | none => rfl
      | some n =>
          refine if_neg ?_
          rintro ⟨hpos, hle⟩
          have hzero := h n hsize hle
          omega

/-- Blocks in front of something unfinished. -/
theorem readN_flatten_append (hstable : Stable size) (hbs : ∀ b ∈ bs, Block size b)
    (hl : Unfinished size l) {k : ℕ} (hk : bs.length ≤ k) :
    readN size k (bs.flatten ++ l) = (bs, l) := by
  induction bs generalizing k with
  | nil => exact readN_of_unfinished hl k
  | cons b bs ih =>
      obtain ⟨hb, hrest⟩ := List.forall_mem_cons.1 hbs
      rw [List.length_cons] at hk
      obtain ⟨k, rfl⟩ : ∃ j, k = j + 1 := ⟨k - 1, by omega⟩
      have hsize : size (b ++ (bs.flatten ++ l)) = some b.length := hstable _ _ _ hb.size_eq
      have hpos := List.length_pos_iff.2 hb.ne_nil
      rw [List.flatten_cons, List.append_assoc, readN, hsize]
      simp only [hpos, List.length_append, Nat.le_add_right, and_self, if_true, List.drop_left,
        List.take_left]
      rw [ih hrest (by omega)]

/-- There are not more blocks than symbols. -/
theorem length_le_length_flatten (hbs : ∀ b ∈ bs, Block size b) : bs.length ≤ bs.flatten.length := by
  induction bs with
  | nil => exact Nat.le_refl _
  | cons b bs ih =>
      obtain ⟨hb, hrest⟩ := List.forall_mem_cons.1 hbs
      have hpos := List.length_pos_iff.2 hb.ne_nil
      have hle := ih hrest
      rw [List.length_cons, List.flatten_cons, List.length_append]
      omega

theorem read_flatten_append (hstable : Stable size) (hbs : ∀ b ∈ bs, Block size b)
    (hl : Unfinished size l) : read size (bs.flatten ++ l) = (bs, l) := by
  refine readN_flatten_append hstable hbs hl ?_
  have hle := length_le_length_flatten hbs
  rw [List.length_append]
  omega

theorem unfinished_nil (size : List α → Option ℕ) : Unfinished size [] := fun _ _ hle =>
  Nat.le_zero.1 hle

/-- **A stream of blocks is read back.** -/
theorem read_flatten (hstable : Stable size) (hbs : ∀ b ∈ bs, Block size b) :
    read size bs.flatten = (bs, []) := by
  have hread := read_flatten_append hstable hbs (unfinished_nil size)
  rwa [List.append_nil] at hread

/-- The beginning of a block is not finished. -/
theorem unfinished_of_prefix (hstable : Stable size) {b : List α} (hb : Block size b)
    (h : l <+: b) (hne : l ≠ b) : Unfinished size l := by
  obtain ⟨r, rfl⟩ := h
  intro n hn hle
  have hsize := hstable l r n hn
  rw [hb.size_eq, Option.some.injEq, List.length_append] at hsize
  have hnil : r = [] := List.length_eq_zero_iff.1 (by omega)
  exact absurd (by rw [hnil, List.append_nil]) hne

/-- The beginning of a stream consists of blocks that are all there and an unfinished one. -/
theorem exists_of_prefix (hstable : Stable size) (hbs : ∀ b ∈ bs, Block size b)
    (h : l <+: bs.flatten) :
    ∃ complete rest, complete <+: bs ∧ l = complete.flatten ++ rest ∧ Unfinished size rest := by
  induction bs generalizing l with
  | nil =>
      obtain rfl := List.prefix_nil.1 h
      exact ⟨[], [], List.prefix_refl _, rfl, unfinished_nil size⟩
  | cons b bs ih =>
      obtain ⟨hb, hrest⟩ := List.forall_mem_cons.1 hbs
      rw [List.flatten_cons] at h
      by_cases hbl : b <+: l
      · -- the first block is all there
        obtain ⟨l, rfl⟩ := hbl
        obtain ⟨complete, rest, hcomplete, rfl, hun⟩ :=
          ih hrest ((List.prefix_append_right_inj b).1 h)
        exact ⟨b :: complete, rest, (List.prefix_cons_inj b).2 hcomplete, by simp, hun⟩
      · have hlb := (List.prefix_or_prefix_of_prefix h (List.prefix_append b _)).resolve_right hbl
        refine ⟨[], l, List.nil_prefix, rfl, unfinished_of_prefix hstable hb hlb ?_⟩
        rintro rfl
        exact hbl (List.prefix_refl _)

/-- **The beginning of a stream is read as the blocks that are all there**, and nothing is lost. -/
theorem read_of_prefix (hstable : Stable size) (hbs : ∀ b ∈ bs, Block size b)
    (h : l <+: bs.flatten) :
    (read size l).1 <+: bs ∧ (read size l).1.flatten ++ (read size l).2 = l := by
  obtain ⟨complete, rest, hcomplete, rfl, hun⟩ := exists_of_prefix hstable hbs h
  have hread := read_flatten_append hstable (fun b hb => hbs b (hcomplete.subset hb)) hun
  rw [hread]
  exact ⟨hcomplete, rfl⟩

end Blocks
