/-
**Flat memory and little-endian words.**

A stretch of memory is read as a function from offsets to bytes: what lies at the offset `k` from a
base address.  Reading and writing are total, so an access that runs past the object the base
address belongs to is not hidden: it reads or overwrites whatever lies there, and whether it stays
inside is a statement about offsets.

Main definitions:

* `Bytes.Mem`, `Bytes.Mem.read`, `Bytes.Mem.write`, `Bytes.Mem.zero` — memory, reading a range of
  it, copying a list of bytes into it, and clearing its beginning;
* `Bytes.u16`, `Bytes.u16Bytes`, `Bytes.Mem.u16` — the sixteen-bit word stored in two bytes, the two
  bytes of a word, and the word at an offset.

Main results:

* `Bytes.Mem.read_write`, `Bytes.Mem.read_eq_iff` — reading back what was written, and reading
  offset by offset;
* `Bytes.u16_u16Bytes`, `Bytes.u16_inj` — the little-endian encoding is a bijection.
-/

import Mathlib.Data.List.Basic
import Mathlib.Data.Nat.Notation

set_option relaxedAutoImplicit false
set_option autoImplicit false

namespace Bytes

/-! ### Memory -/

/-- Memory seen from a base address: the byte at each offset. -/
abbrev Mem := ℕ → UInt8

namespace Mem

/-- The `n` bytes at the offset `off`. -/
def read (m : Mem) (off n : ℕ) : List UInt8 := (List.range n).map fun k => m (off + k)

/-- Copying the bytes `bs` to the offset `off`. -/
def write (m : Mem) (off : ℕ) (bs : List UInt8) : Mem := fun k =>
  if off ≤ k ∧ k < off + bs.length then bs.getD (k - off) 0 else m k

/-- Clearing the first `n` bytes. -/
def zero (m : Mem) (n : ℕ) : Mem := fun k => if k < n then 0 else m k

@[simp] theorem length_read (m : Mem) (off n : ℕ) : (m.read off n).length = n := by simp [read]

theorem getElem?_read (m : Mem) (off n k : ℕ) (hk : k < n) :
    (m.read off n)[k]? = some (m (off + k)) := by
  simp [read, hk]

theorem write_of_lt (m : Mem) (bs : List UInt8) {k : ℕ} (hk : k < bs.length) :
    m.write 0 bs k = bs.getD k 0 := by
  simp [write, hk]

theorem write_of_le (m : Mem) (bs : List UInt8) {k : ℕ} (hk : bs.length ≤ k) :
    m.write 0 bs k = m k := by
  simp only [write]
  rw [if_neg (by omega)]

@[simp] theorem write_nil (m : Mem) : m.write 0 [] = m :=
  funext fun _ => write_of_le m [] (Nat.zero_le _)

theorem zero_of_lt (m : Mem) {n k : ℕ} (hk : k < n) : m.zero n k = 0 := if_pos hk

/-- Reading back the bytes just copied. -/
theorem read_write (m : Mem) (off : ℕ) (bs : List UInt8) :
    (m.write off bs).read off bs.length = bs := by
  refine List.ext_getElem (by simp) ?_
  intro k h₁ h₂
  simp [read, write, h₂]

/-- What lies in front of the bytes copied is left alone. -/
theorem read_write_of_le (m : Mem) (bs : List UInt8) {off off' n : ℕ} (h : off' + n ≤ off) :
    (m.write off bs).read off' n = m.read off' n := by
  refine List.ext_getElem (by simp) ?_
  intro k h₁ h₂
  have hk : k < n := by simpa using h₂
  have hnot : ¬ (off ≤ off' + k ∧ off' + k < off + bs.length) := by omega
  simp [read, write, hnot]

/-- A range read in two pieces. -/
theorem read_add (m : Mem) (off a b : ℕ) :
    m.read off (a + b) = m.read off a ++ m.read (off + a) b := by
  simp [read, List.range_add, Nat.add_assoc, Function.comp_def]

theorem read_prefix (m : Mem) (off : ℕ) {a b : ℕ} (h : a ≤ b) : m.read off a <+: m.read off b := by
  obtain ⟨d, rfl⟩ := Nat.exists_eq_add_of_le h
  exact ⟨_, (m.read_add off a d).symm⟩

/-- A range starts with the bytes `bs` exactly when it agrees with them offset by offset. -/
theorem read_eq_iff (m : Mem) (off : ℕ) (bs : List UInt8) :
    m.read off bs.length = bs ↔ ∀ k < bs.length, m (off + k) = bs.getD k 0 := by
  constructor
  · intro h k hk
    have := getElem?_read m off bs.length k hk
    rw [h] at this
    simp [List.getD, this]
  · intro h
    refine List.ext_getElem (by simp) ?_
    intro k h₁ h₂
    have := h k h₂
    simp only [read, List.getElem_map, List.getElem_range, this]
    simp [h₂]

end Mem

/-! ### Little-endian words -/

/-- The word whose low byte is `lo` and whose high byte is `hi`. -/
def u16 (lo hi : UInt8) : UInt16 := UInt16.ofNat (lo.toNat + 256 * hi.toNat)

/-- The two bytes of a word, the low one first. -/
def u16Bytes (x : UInt16) : List UInt8 := [UInt8.ofNat x.toNat, UInt8.ofNat (x.toNat / 256)]

/-- The word at an offset. -/
def Mem.u16 (m : Mem) (off : ℕ) : UInt16 := Bytes.u16 (m off) (m (off + 1))

@[simp] theorem length_u16Bytes (x : UInt16) : (u16Bytes x).length = 2 := rfl

@[simp] theorem toNat_u16 (lo hi : UInt8) : (u16 lo hi).toNat = lo.toNat + 256 * hi.toNat := by
  have hlo := lo.toNat_lt
  have hhi := hi.toNat_lt
  rw [u16, UInt16.toNat_ofNat_of_lt']
  simp only [UInt16.size]
  omega

/-- The word of the two bytes of `x` is `x`. -/
theorem u16_u16Bytes (x : UInt16) :
    u16 (UInt8.ofNat x.toNat) (UInt8.ofNat (x.toNat / 256)) = x := by
  apply UInt16.toNat_inj.1
  have := x.toNat_lt
  rw [toNat_u16]
  simp only [UInt8.toNat_ofNat']
  omega

/-- **Two byte pairs store the same word only when they are equal.** -/
theorem u16_inj {lo hi lo' hi' : UInt8} : u16 lo hi = u16 lo' hi' ↔ lo = lo' ∧ hi = hi' := by
  constructor
  · intro h
    have h' := congrArg UInt16.toNat h
    simp only [toNat_u16] at h'
    have := lo.toNat_lt
    have := lo'.toNat_lt
    exact ⟨UInt8.toNat_inj.1 (by omega), UInt8.toNat_inj.1 (by omega)⟩
  · rintro ⟨rfl, rfl⟩
    rfl

end Bytes
