/-
**Filling a packet buffer piece by piece** (`Packet.h`, `Packet.cpp`).

`CopyPacket` writes at the position and leaves it to the caller to advance it by `IncBufferPos`.
When a chunk does not fit behind the position, the position goes back to the start of the buffer,
so that a chunk that is no longer than the buffer is always written inside it.  The block that
`new char[Size]` returns may hold anything.

Main definitions:

* `IocpDemo.PacketBuffer.reservePacketIn` — `ReservePacket`, on the memory of the new block;
* `IocpDemo.PacketBuffer.reserveSpan`, `IocpDemo.PacketBuffer.copySpan` — what its `memset` and the
  `memcpy` of `CopyPacket` write;
* `IocpDemo.PacketBuffer.append`, `IocpDemo.PacketBuffer.appendAll` — `CopyPacket` followed by
  `IncBufferPos`, for one chunk and for a list of them;
* `IocpDemo.PacketBuffer.Reserved` — the invariant.

Main results:

* `IocpDemo.PacketBuffer.Reserved.copySpan_within` — a chunk is written inside the block;
* `IocpDemo.append_discipline` — **the buffer holds what has been appended**.
-/

import IocpDemo.Packet
import IocpDemo.Spans

set_option relaxedAutoImplicit false
set_option autoImplicit false

namespace IocpDemo

open Bytes

namespace PacketBuffer

variable {b : PacketBuffer} {size : UInt16} {c : List UInt8}

/-! ### What the operations write -/

/-- `ReservePacket`, on the memory at the block that `new char[Size]` returns. -/
def reservePacketIn (mem : Mem) (b : PacketBuffer) (size : UInt16) : PacketBuffer :=
  { b with
    buffer := mem.write b.bufferPos.toNat (List.replicate size.toNat 0)
    bufferSize := b.bufferSize + size }

theorem reservePacket_eq (b : PacketBuffer) (size : UInt16) :
    b.reservePacket size = b.reservePacketIn (fun _ => 0) size := rfl

/-- What the `memset` of `ReservePacket` writes. -/
def reserveSpan (b : PacketBuffer) (size : UInt16) : Span := ⟨b.bufferPos.toNat, size.toNat⟩

/-- The position at which `CopyPacket` writes, and where it leaves the buffer. -/
def copyPos (b : PacketBuffer) (size : UInt16) : UInt16 :=
  if b.bufferPos.toNat + size.toNat > b.bufferSize.toNat then 0 else b.bufferPos

/-- What the `memcpy` of `CopyPacket` writes. -/
def copySpan (b : PacketBuffer) (size : UInt16) : Span := ⟨(b.copyPos size).toNat, size.toNat⟩

theorem copyPacket_eq (b : PacketBuffer) (data : List UInt8) (size : UInt16) :
    b.copyPacket data size =
      { b with
        bufferPos := b.copyPos size
        buffer := b.buffer.write (b.copyPos size).toNat (data.take size.toNat) } := rfl

/-- `ReservePacket` leaves alone what its `memset` does not write. -/
theorem buffer_reservePacketIn (mem : Mem) {k : ℕ} (h : ¬ (b.reserveSpan size).Has k) :
    (b.reservePacketIn mem size).buffer k = mem k :=
  Mem.write_of_not_has (by rwa [List.length_replicate])

/-- `CopyPacket` leaves alone what its `memcpy` does not write. -/
theorem buffer_copyPacket (data : List UInt8) {k : ℕ} (h : ¬ (b.copySpan size).Has k) :
    (b.copyPacket data size).buffer k = b.buffer k := by
  refine Mem.write_of_not_has fun hhas => h ⟨hhas.1, ?_⟩
  have hlt : k < (b.copyPos size).toNat + (data.take size.toNat).length := hhas.2
  have hlen := List.length_take_le size.toNat data
  simp only [copySpan]
  omega

/-! ### Appending -/

/-- `CopyPacket(c, |c|)` and `IncBufferPos(|c|)`. -/
def append (b : PacketBuffer) (c : List UInt8) : PacketBuffer :=
  (b.copyPacket c (UInt16.ofNat c.length)).incBufferPos (UInt16.ofNat c.length)

/-- Appending one chunk after the other. -/
def appendAll (b : PacketBuffer) (chunks : List (List UInt8)) : PacketBuffer :=
  chunks.foldl append b

@[simp] theorem appendAll_nil (b : PacketBuffer) : b.appendAll [] = b := rfl

theorem appendAll_cons (b : PacketBuffer) (c : List UInt8) (chunks : List (List UInt8)) :
    b.appendAll (c :: chunks) = (b.append c).appendAll chunks := rfl

@[simp] theorem buffer_append (b : PacketBuffer) (c : List UInt8) :
    (b.append c).buffer = (b.copyPacket c (UInt16.ofNat c.length)).buffer := rfl

theorem bufferPos_append (b : PacketBuffer) (c : List UInt8) :
    (b.append c).bufferPos = b.copyPos (UInt16.ofNat c.length) + UInt16.ofNat c.length := rfl

/-- The length of a chunk that is no longer than the buffer fits sixteen bits. -/
theorem toNat_length (hc : c.length ≤ size.toNat) : (UInt16.ofNat c.length).toNat = c.length :=
  UInt16.toNat_ofNat_of_lt' (Nat.lt_of_le_of_lt hc size.toNat_lt)

/-! ### Staying inside the block -/

/-- The buffer has `size` bytes, and its position is one of their offsets or the end. -/
structure Reserved (size : UInt16) (b : PacketBuffer) : Prop where
  bufferSize : b.bufferSize = size
  bufferPos : b.bufferPos.toNat ≤ size.toNat

namespace Reserved

theorem reservePacketIn (mem : Mem) (size : UInt16) :
    Reserved size (({} : PacketBuffer).reservePacketIn mem size) :=
  ⟨UInt16.zero_add size, Nat.zero_le _⟩

/-- **The rewinding test**: behind it there is room for a chunk that is no longer than the buffer.
-/
theorem copyPos_add_le (h : Reserved size b) (hc : c.length ≤ size.toNat) :
    (b.copyPos (UInt16.ofNat c.length)).toNat + c.length ≤ size.toNat := by
  simp only [copyPos, h.bufferSize, toNat_length hc]
  split
  · simpa using hc
  · omega

theorem copySpan_within (h : Reserved size b) (hc : c.length ≤ size.toNat) :
    (b.copySpan (UInt16.ofNat c.length)).Within size.toNat := by
  refine Span.within_of_le ?_
  simp only [copySpan, toNat_length hc]
  exact h.copyPos_add_le hc

theorem copyPacket (h : Reserved size b) (hc : c.length ≤ size.toNat) :
    Reserved size (b.copyPacket c (UInt16.ofNat c.length)) :=
  ⟨h.bufferSize, Nat.le_trans (Nat.le_add_right _ _) (h.copyPos_add_le hc)⟩

/-- The sum of sixteen-bit numbers does not wrap around. -/
theorem toNat_bufferPos_append (h : Reserved size b) (hc : c.length ≤ size.toNat) :
    (b.append c).bufferPos.toNat = (b.copyPos (UInt16.ofNat c.length)).toNat + c.length := by
  have hle := h.copyPos_add_le hc
  have hlt := size.toNat_lt
  rw [bufferPos_append, UInt16.toNat_add, toNat_length hc, Nat.mod_eq_of_lt (by omega)]

/-- **Appending a chunk keeps the buffer within its block.** -/
theorem append (h : Reserved size b) (hc : c.length ≤ size.toNat) : Reserved size (b.append c) := by
  refine ⟨h.bufferSize, ?_⟩
  rw [h.toNat_bufferPos_append hc]
  exact h.copyPos_add_le hc

theorem appendAll (h : Reserved size b) {chunks : List (List UInt8)}
    (hchunks : ∀ c ∈ chunks, c.length ≤ size.toNat) : Reserved size (b.appendAll chunks) := by
  induction chunks generalizing b with
  | nil => exact h
  | cons c chunks ih =>
      obtain ⟨hc, hchunks⟩ := List.forall_mem_cons.1 hchunks
      exact ih (h.append hc) hchunks

/-- So what lies behind the block is never written. -/
theorem buffer_appendAll (h : Reserved size b) {chunks : List (List UInt8)}
    (hchunks : ∀ c ∈ chunks, c.length ≤ size.toNat) {k : ℕ} (hk : size.toNat ≤ k) :
    (b.appendAll chunks).buffer k = b.buffer k := by
  induction chunks generalizing b with
  | nil => rfl
  | cons c chunks ih =>
      obtain ⟨hc, hchunks⟩ := List.forall_mem_cons.1 hchunks
      rw [appendAll_cons, ih (h.append hc) hchunks, buffer_append]
      refine buffer_copyPacket c fun hhas => ?_
      exact absurd (h.copySpan_within hc k hhas) (by omega)

end Reserved

/-! ### What the buffer holds -/

/-- The buffer holds `bs`, followed by zeros, and its position is behind `bs`. -/
structure Contains (size : UInt16) (bs : List UInt8) (b : PacketBuffer) : Prop where
  reserved : Reserved size b
  filled : b.buffer.Filled size.toNat bs
  bufferPos : b.bufferPos.toNat = bs.length

namespace Contains

variable {bs : List UInt8}

theorem reservePacketIn (mem : Mem) (size : UInt16) :
    Contains size [] (({} : PacketBuffer).reservePacketIn mem size) :=
  ⟨.reservePacketIn mem size, .clear mem size.toNat, rfl⟩

/-- **A chunk for which there is room is written behind what the buffer holds.** -/
theorem append (h : Contains size bs b) (hroom : bs.length + c.length ≤ size.toNat) :
    Contains size (bs ++ c) (b.append c) := by
  have hc : c.length ≤ size.toNat := by omega
  -- the position is not rewound
  have hpos : b.copyPos (UInt16.ofNat c.length) = b.bufferPos := by
    rw [copyPos, if_neg]
    rw [h.reserved.bufferSize, h.bufferPos, toNat_length hc]
    omega
  refine ⟨h.reserved.append hc, ?_, ?_⟩
  · have htake : c.take (UInt16.ofNat c.length).toNat = c := by
      rw [toNat_length hc, List.take_length]
    rw [buffer_append, copyPacket_eq, hpos, h.bufferPos, htake]
    exact h.filled.write c
  · rw [h.reserved.toNat_bufferPos_append hc, hpos, h.bufferPos, List.length_append]

theorem appendAll (h : Contains size bs b) {chunks : List (List UInt8)}
    (hroom : bs.length + chunks.flatten.length ≤ size.toNat) :
    Contains size (bs ++ chunks.flatten) (b.appendAll chunks) := by
  induction chunks generalizing b bs with
  | nil => simpa using h
  | cons c chunks ih =>
      rw [List.flatten_cons, List.length_append] at hroom
      have hnext := ih (h.append (c := c) (by omega)) (by rw [List.length_append]; omega)
      rwa [List.append_assoc] at hnext

/-- What a sender would read. -/
theorem bytes (h : Contains size bs b) :
    b.bytes = bs ++ List.replicate (size.toNat - bs.length) 0 := by
  have hle := h.reserved.bufferPos
  rw [h.bufferPos] at hle
  rw [PacketBuffer.bytes, h.reserved.bufferSize]
  exact h.filled.read hle

end Contains

end PacketBuffer

/-! ### The result -/

/-- **Appending to a packet buffer.**  A new buffer is reserved for `size` bytes, in any memory, and
chunks no longer than `size` are appended one after the other.  After each of them, and between its
`CopyPacket` and its `IncBufferPos`, the buffer has the size `size` and a position within it; the
`memset` and every `memcpy` write inside the block, and nothing behind the block changes; and chunks
whose lengths sum to at most `size` (the sum is the length of `chunks.flatten`) are found in the
buffer one after the other, followed by zeros, with the position behind them. -/
theorem append_discipline (mem : Mem) (size : UInt16) (chunks : List (List UInt8))
    (hchunks : ∀ c ∈ chunks, c.length ≤ size.toNat) :
    let fresh := ({} : PacketBuffer).reservePacketIn mem size
    (({} : PacketBuffer).reserveSpan size).Within size.toNat ∧
      (∀ done, done <+: chunks → PacketBuffer.Reserved size (fresh.appendAll done)) ∧
      (∀ done c, done ++ [c] <+: chunks →
        ((fresh.appendAll done).copySpan (UInt16.ofNat c.length)).Within size.toNat ∧
          PacketBuffer.Reserved size
            ((fresh.appendAll done).copyPacket c (UInt16.ofNat c.length))) ∧
      (∀ k, size.toNat ≤ k → (fresh.appendAll chunks).buffer k = mem k) ∧
      (chunks.flatten.length ≤ size.toNat →
        (fresh.appendAll chunks).bytes =
            chunks.flatten ++ List.replicate (size.toNat - chunks.flatten.length) 0 ∧
          (fresh.appendAll chunks).bufferPos.toNat = chunks.flatten.length) := by
  intro fresh
  have hfresh : PacketBuffer.Reserved size fresh := .reservePacketIn mem size
  have hmemset : (({} : PacketBuffer).reserveSpan size).Within size.toNat :=
    Span.within_of_le (Nat.le_of_eq (Nat.zero_add _))
  refine ⟨hmemset, ?_, ?_, ?_, ?_⟩
  · intro done hdone
    exact hfresh.appendAll fun c hc => hchunks c (hdone.subset hc)
  · intro done c hdone
    have hall : ∀ d ∈ done ++ [c], d.length ≤ size.toNat := fun d hd => hchunks d (hdone.subset hd)
    have hc : c.length ≤ size.toNat := hall c (by simp)
    have hbefore : PacketBuffer.Reserved size (fresh.appendAll done) :=
      hfresh.appendAll fun d hd => hall d (List.mem_append_left _ hd)
    exact ⟨hbefore.copySpan_within hc, hbefore.copyPacket hc⟩
  · intro k hk
    rw [hfresh.buffer_appendAll hchunks hk]
    refine PacketBuffer.buffer_reservePacketIn mem fun hhas => ?_
    exact absurd (hmemset k hhas) (by omega)
  · intro hsum
    have hroom : ([] : List UInt8).length + chunks.flatten.length ≤ size.toNat := by
      simpa using hsum
    have hall := (PacketBuffer.Contains.reservePacketIn mem size).appendAll hroom
    rw [List.nil_append] at hall
    exact ⟨hall.bytes, hall.bufferPos⟩

/-- Two chunks in a buffer of eight bytes. -/
theorem two_chunks_appended :
    (((({} : PacketBuffer).reservePacketIn (fun _ => 255) 8).appendAll [[1, 2, 3], [4, 5]]).bytes =
        [1, 2, 3, 4, 5, 0, 0, 0]) ∧
      PacketBuffer.Reserved 8
        ((({} : PacketBuffer).reservePacketIn (fun _ => 255) 8).appendAll [[1, 2, 3], [4, 5]]) := by
  obtain ⟨-, hreserved, -, -, hbytes⟩ :=
    append_discipline (fun _ => 255) 8 [[1, 2, 3], [4, 5]] (by decide)
  exact ⟨(hbytes (by decide)).1, hreserved _ (List.prefix_refl _)⟩

/-- A third one does not fit behind them, and is written over the first. -/
example : ((({} : PacketBuffer).reservePacketIn (fun _ => 255) 8).appendAll
    [[1, 2, 3], [4, 5], [6, 7, 8, 9]]).bytes = [6, 7, 8, 9, 5, 0, 0, 0] := by decide +kernel

end IocpDemo
