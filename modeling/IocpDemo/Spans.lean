/-
**Ranges of memory, and a buffer that is filled from its start.**

A write covers a range of offsets.  Whether it stays inside a block is a statement about the range
alone, and what lies outside the range is left as it was.  A buffer that is cleared and then written
to piece by piece, each piece behind the one before, holds the pieces one after the other and zeros
behind them.

Main definitions:

* `Bytes.Span`, `Bytes.Span.Has`, `Bytes.Span.Within` — a range of offsets, the offsets in it, and
  ranges that lie inside a block of a given size;
* `Bytes.Mem.Filled` — the beginning of a memory holds the given bytes, and zeros behind them.

Main results:

* `Bytes.Span.within_iff` — a range lies inside a block when its end does;
* `Bytes.Mem.write_of_not_has` — **a write changes its range only**;
* `Bytes.Mem.write_eq_self` — writing what is there already;
* `Bytes.Mem.Filled.write` — **appending**: writing behind what a buffer holds.
-/

import IocpDemo.Bytes
import Mathlib.Data.List.GetD

set_option relaxedAutoImplicit false
set_option autoImplicit false

namespace Bytes

/-! ### Ranges -/

/-- The range of `len` offsets from `off` on. -/
structure Span where
  off : ℕ
  len : ℕ
  deriving DecidableEq, Repr

namespace Span

/-- The offset is one of the range. -/
def Has (a : Span) (k : ℕ) : Prop := a.off ≤ k ∧ k < a.off + a.len

/-- All offsets of the range lie inside a block of `size` bytes. -/
def Within (a : Span) (size : ℕ) : Prop := ∀ k, a.Has k → k < size

/-- **A range lies inside a block when its end does**; an empty one always does. -/
theorem within_iff {a : Span} {size : ℕ} : a.Within size ↔ a.len = 0 ∨ a.off + a.len ≤ size := by
  constructor
  · intro h
    by_cases hlen : a.len = 0
    · exact Or.inl hlen
    · -- the last offset of the range
      have hlast := h (a.off + a.len - 1) ⟨by omega, by omega⟩
      exact Or.inr (by omega)
  · rintro (hlen | hend) k ⟨hle, hlt⟩
    · omega
    · omega

instance (a : Span) (size : ℕ) : Decidable (a.Within size) := decidable_of_iff' _ within_iff

theorem within_of_le {a : Span} {size : ℕ} (h : a.off + a.len ≤ size) : a.Within size :=
  within_iff.2 (Or.inr h)

end Span

namespace Mem

variable {m : Mem} {n : ℕ} {bs : List UInt8}

/-- **A write changes its range only.** -/
theorem write_of_not_has {off k : ℕ} (h : ¬ Span.Has ⟨off, bs.length⟩ k) :
    m.write off bs k = m k := if_neg h

/-- Two lists of bytes that lie one behind the other. -/
theorem read_eq_append_iff {off : ℕ} {as bs : List UInt8} :
    m.read off (as.length + bs.length) = as ++ bs ↔
      m.read off as.length = as ∧ m.read (off + as.length) bs.length = bs := by
  rw [read_add]
  constructor
  · intro h
    exact List.append_inj h (length_read _ _ _)
  · rintro ⟨has, hbs⟩
    rw [has, hbs]

/-- Writing to a range what it holds already. -/
theorem write_eq_self {off : ℕ} (h : ∀ k, Span.Has ⟨off, bs.length⟩ k → m k = bs.getD (k - off) 0) :
    m.write off bs = m := by
  funext k
  by_cases hhas : Span.Has ⟨off, bs.length⟩ k
  · rw [h k hhas]
    exact if_pos hhas
  · exact write_of_not_has hhas

/-! ### Filling a buffer -/

/-- The first `n` bytes are `bs` and, as far as they reach further, zeros. -/
def Filled (m : Mem) (n : ℕ) (bs : List UInt8) : Prop := ∀ k < n, m k = bs.getD k 0

namespace Filled

/-- A block that has been cleared. -/
theorem clear (m : Mem) (n : ℕ) : (m.write 0 (List.replicate n 0)).Filled n [] := by
  intro k hk
  rw [write_of_lt _ _ (by simpa using hk)]
  simp [List.getD, hk]

/-- **Appending**: writing behind what a buffer holds. -/
theorem write (h : m.Filled n bs) (c : List UInt8) : (m.write bs.length c).Filled n (bs ++ c) := by
  intro k hk
  by_cases hhas : Span.Has ⟨bs.length, c.length⟩ k
  · rw [List.getD_append_right _ _ _ _ hhas.1]
    exact if_pos hhas
  · rw [write_of_not_has hhas, h k hk]
    by_cases hold : k < bs.length
    · rw [List.getD_append _ _ _ _ hold]
    · -- behind both of them there are zeros
      have hbehind : bs.length + c.length ≤ k := by
        by_contra hlt
        exact hhas ⟨by simp only; omega, by simp only; omega⟩
      rw [List.getD_eq_default _ _ (by omega), List.getD_eq_default _ _ (by simp; omega)]

/-- What is read of such a buffer. -/
theorem read (h : m.Filled n bs) (hle : bs.length ≤ n) :
    m.read 0 n = bs ++ List.replicate (n - bs.length) 0 := by
  refine List.ext_getElem (by simp; omega) ?_
  intro k h₁ h₂
  have hk := h k (by simpa using h₁)
  by_cases hold : k < bs.length
  · simp [Mem.read, hk, hold]
  · rw [List.getD_eq_default _ _ (by omega)] at hk
    simp [Mem.read, hk, List.getElem_append_right (Nat.le_of_not_lt hold)]

end Filled

end Mem

end Bytes
