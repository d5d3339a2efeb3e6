/-
**What `SerializePacket` writes, for messages of every size** (`IOCPServer.h`, `Packet.cpp`).

The size of a message is cut to sixteen bits, four is added for the header, and the sum is cut to
sixteen bits again.  So the block that `ReservePacket` allocates may be smaller than the header that
is copied into it, and the room that is left for the message, a difference in `size_t`, is then
negative as an `int`.  The test of `CopyPacket` only rewinds the position.  For longer messages the
sizes become plausible again, `SerializeToArray` finds too little room and writes nothing, and its
result is dropped: the packet is that of a message of zeros.  `SerializePacket` has a buffer for
result in every case, and nothing in it tells of a failure.

Main definitions:

* `IocpDemo.reservedPacket`, `IocpDemo.headedPacket` — the buffer behind `ReservePacket` and behind
  `CopyPacket`;
* `IocpDemo.messageSpan` — what `SerializeToArray` writes;
* `IocpDemo.WritesWithin` — everything is written inside the block;
* `IocpDemo.SerializesSafely` — and the sizes are those of the message and the header.

Main results:

* `IocpDemo.writesWithin_iff` — when the writes stay inside the block;
* `IocpDemo.serializePacket_truncated` — **a message that is too long is a packet of zeros**;
* `IocpDemo.serializesSafely_iff` — **`SerializePacket` is safe for the messages of at most 65531
  bytes** and for no others;
* `IocpDemo.header_overruns_block` — a message of 65532 bytes.
-/

import IocpDemo.PacketAppends
import IocpDemo.QueuedPackets

set_option relaxedAutoImplicit false
set_option autoImplicit false

namespace IocpDemo

open Bytes

/-! ### The writes -/

/-- The buffer behind `ReservePacket`, for a message of `n` bytes. -/
def reservedPacket (n : ℕ) (clientIndex : UInt16) : PacketBuffer :=
  (({} : PacketBuffer).setIndex clientIndex).reservePacket (packetSizeOf n)

/-- The buffer behind `CopyPacket`. -/
def headedPacket (n : ℕ) (pType : UInt8) (clientIndex : UInt16) : PacketBuffer :=
  (reservedPacket n clientIndex).copyPacket (PacketHeader.bytes ⟨packetSizeOf n, pType.toUInt16⟩)
    (UInt16.ofNat sizeofPacketHeader)

/-- What `SerializeToArray` writes when it is given `size` bytes of room behind the header. -/
def messageSpan {M : Type} (c : Codec M) (m : M) (size : ℤ) : Span where
  off := sizeofPacketHeader
  len := if size < c.byteSizeLong m then 0 else (c.serialize m).length

variable {M : Type} {c : Codec M} {m : M} {n : ℕ} {pType : UInt8} {clientIndex : UInt16}

theorem serializePacket_eq (c : Codec M) (m : M) (pType : UInt8) (clientIndex : UInt16) :
    serializePacket c m pType clientIndex =
      { headedPacket (c.byteSizeLong m) pType clientIndex with
        buffer := (c.serializeToArray m (headedPacket (c.byteSizeLong m) pType clientIndex).buffer
          sizeofPacketHeader (serializeRoom (packetSizeOf (c.byteSizeLong m)))).1
        bufferPos := (headedPacket (c.byteSizeLong m) pType clientIndex).bufferPos +
          UInt16.ofNat (c.byteSizeLong m) } := rfl

theorem serializeToArray_of_lt (mem : Mem) (off : ℕ) {size : ℤ} (h : size < c.byteSizeLong m) :
    (c.serializeToArray m mem off size).1 = mem := by
  rw [Codec.serializeToArray, if_pos h]

theorem serializeToArray_of_le (mem : Mem) (off : ℕ) {size : ℤ} (h : c.byteSizeLong m ≤ size) :
    (c.serializeToArray m mem off size).1 = mem.write off (c.serialize m) := by
  rw [Codec.serializeToArray, if_neg (Int.not_lt.2 h)]

/-- `SerializeToArray` leaves alone what it does not write. -/
theorem serializeToArray_of_not_has {mem : Mem} {size : ℤ} {k : ℕ}
    (h : ¬ (messageSpan c m size).Has k) :
    (c.serializeToArray m mem sizeofPacketHeader size).1 k = mem k := by
  by_cases hroom : size < c.byteSizeLong m
  · rw [serializeToArray_of_lt _ _ hroom]
  · simp only [messageSpan, if_neg hroom] at h
    rw [serializeToArray_of_le _ _ (Int.not_lt.1 hroom)]
    exact Mem.write_of_not_has h

/-- The header is copied to the start of the buffer, whether it fits or not. -/
theorem copySpan_reservedPacket (n : ℕ) (clientIndex : UInt16) :
    (reservedPacket n clientIndex).copySpan (UInt16.ofNat sizeofPacketHeader) =
      ⟨0, sizeofPacketHeader⟩ := by
  simp [PacketBuffer.copySpan, PacketBuffer.copyPos, reservedPacket, PacketBuffer.reservePacket,
    PacketBuffer.setIndex, sizeofPacketHeader]

/-- Behind the header there are zeros. -/
theorem buffer_headedPacket (n : ℕ) (pType : UInt8) (clientIndex : UInt16) {k : ℕ}
    (hk : sizeofPacketHeader ≤ k) : (headedPacket n pType clientIndex).buffer k = 0 := by
  have hbehind : ¬ ((reservedPacket n clientIndex).copySpan
      (UInt16.ofNat sizeofPacketHeader)).Has k := by
    rw [copySpan_reservedPacket]
    rintro ⟨-, hlt⟩
    simp only at hlt
    omega
  rw [headedPacket, PacketBuffer.buffer_copyPacket _ hbehind]
  simp [reservedPacket, PacketBuffer.reservePacket, PacketBuffer.setIndex, Mem.write]

/-- **`SerializePacket` writes nothing else.** -/
theorem buffer_serializePacket {k : ℕ}
    (hmemset : ¬ ((({} : PacketBuffer).setIndex clientIndex).reserveSpan
      (packetSizeOf (c.byteSizeLong m))).Has k)
    (hheader : ¬ ((reservedPacket (c.byteSizeLong m) clientIndex).copySpan
      (UInt16.ofNat sizeofPacketHeader)).Has k)
    (hmessage : ¬ (messageSpan c m (serializeRoom (packetSizeOf (c.byteSizeLong m)))).Has k) :
    (serializePacket c m pType clientIndex).buffer k = 0 := by
  rw [serializePacket_eq]
  refine (serializeToArray_of_not_has hmessage).trans ?_
  rw [headedPacket, PacketBuffer.buffer_copyPacket _ hheader, reservedPacket,
    PacketBuffer.reservePacket_eq]
  exact PacketBuffer.buffer_reservePacketIn _ hmemset

/-! ### Staying inside the block -/

/-- The `memset` of `ReservePacket`, the `memcpy` of the header and `SerializeToArray` write inside
the block that `ReservePacket` allocates, and the size passed to `SerializeToArray` is not negative.
-/
structure WritesWithin (c : Codec M) (m : M) (clientIndex : UInt16) : Prop where
  memset : ((({} : PacketBuffer).setIndex clientIndex).reserveSpan
    (packetSizeOf (c.byteSizeLong m))).Within (packetSizeOf (c.byteSizeLong m)).toNat
  header : ((reservedPacket (c.byteSizeLong m) clientIndex).copySpan
    (UInt16.ofNat sizeofPacketHeader)).Within (packetSizeOf (c.byteSizeLong m)).toNat
  message : (messageSpan c m (serializeRoom (packetSizeOf (c.byteSizeLong m)))).Within
    (packetSizeOf (c.byteSizeLong m)).toNat
  room : 0 ≤ serializeRoom (packetSizeOf (c.byteSizeLong m))

/-- The header fits its block unless the size wraps around to less than four. -/
theorem header_within_iff : ((reservedPacket n clientIndex).copySpan
    (UInt16.ofNat sizeofPacketHeader)).Within (packetSizeOf n).toNat ↔
      n % 65536 ≤ maxMessage := by
  have hmax : maxMessage = 65531 := rfl
  have hfour : sizeofPacketHeader = 4 := rfl
  rw [copySpan_reservedPacket, Span.within_iff, toNat_packetSizeOf_eq]
  simp only
  omega

/-- What `SerializeToArray` writes ends where its room does. -/
theorem message_within (hexact : (c.serialize m).length = c.byteSizeLong m) :
    (messageSpan c m (serializeRoom (packetSizeOf (c.byteSizeLong m)))).Within
      (packetSizeOf (c.byteSizeLong m)).toNat := by
  have hroom := serializeRoom_eq (packetSizeOf (c.byteSizeLong m))
  have hfour : sizeofPacketHeader = 4 := rfl
  rw [Span.within_iff]
  simp only [messageSpan]
  split
  · exact Or.inl rfl
  · rw [hexact]
    omega

/-- **When the writes stay inside the block**: the header fits it. -/
theorem writesWithin_iff (hexact : (c.serialize m).length = c.byteSizeLong m) :
    WritesWithin c m clientIndex ↔ c.byteSizeLong m % 65536 ≤ maxMessage := by
  refine ⟨fun h => header_within_iff.1 h.header, fun h => ?_⟩
  refine ⟨Span.within_of_le (Nat.le_of_eq (Nat.zero_add _)), header_within_iff.2 h,
    message_within hexact, ?_⟩
  have hmax : maxMessage = 65531 := rfl
  rw [serializeRoom_eq, toNat_packetSizeOf_eq]
  omega

/-! ### The sizes -/

/-- **`SerializePacket` is safe for the message**: its writes stay inside the block, and the size in
the header and the size of the buffer are those of the message and the header. -/
structure SerializesSafely (c : Codec M) (m : M) (pType : UInt8) (clientIndex : UInt16) : Prop where
  packetSize : (serializePacket c m pType clientIndex).header.packetSize.toNat =
    c.byteSizeLong m + sizeofPacketHeader
  bufferSize : (serializePacket c m pType clientIndex).bufferSize.toNat =
    c.byteSizeLong m + sizeofPacketHeader
  writes : WritesWithin c m clientIndex

/-- **A message that is too long is a packet of zeros**, unless its header overruns the block:
`SerializePacket` returns for it what it returns for as many zeros as the sizes say.  So nothing in
the result signals that the message is missing. -/
theorem serializePacket_truncated (hlong : 65536 ≤ c.byteSizeLong m)
    (hwraps : c.byteSizeLong m % 65536 ≤ maxMessage) {M' : Type} {c' : Codec M'} {m' : M'}
    (hsize : c'.byteSizeLong m' = c.byteSizeLong m % 65536)
    (hzeros : ∀ k, (c'.serialize m').getD k 0 = 0) (pType : UInt8) (clientIndex : UInt16) :
    serializePacket c m pType clientIndex = serializePacket c' m' pType clientIndex := by
  have hpacketSize : packetSizeOf (c.byteSizeLong m) = packetSizeOf (c'.byteSizeLong m') := by
    apply UInt16.toNat_inj.1
    rw [toNat_packetSizeOf_eq, toNat_packetSizeOf_eq, hsize]
    omega
  have hpos : UInt16.ofNat (c.byteSizeLong m) = UInt16.ofNat (c'.byteSizeLong m') := by
    apply UInt16.toNat_inj.1
    simp only [UInt16.toNat_ofNat', hsize]
    omega
  have hheaded : headedPacket (c.byteSizeLong m) pType clientIndex =
      headedPacket (c'.byteSizeLong m') pType clientIndex := by
    simp only [headedPacket, reservedPacket, hpacketSize]
  have hroom : serializeRoom (packetSizeOf (c'.byteSizeLong m')) = c'.byteSizeLong m' :=
    serializeRoom_packetSizeOf (hsize ▸ hwraps)
  rw [serializePacket_eq, serializePacket_eq, hheaded, hpos, hpacketSize]
  -- there is no room for the one message, and the other one is written over zeros
  have hover : (headedPacket (c'.byteSizeLong m') pType clientIndex).buffer.write
      sizeofPacketHeader (c'.serialize m') =
        (headedPacket (c'.byteSizeLong m') pType clientIndex).buffer := by
    refine Mem.write_eq_self fun k hhas => ?_
    rw [buffer_headedPacket _ _ _ hhas.1, hzeros]
  rw [serializeToArray_of_lt _ _ (by rw [hroom]; omega),
    serializeToArray_of_le _ _ (Int.le_of_eq hroom.symm), hover]

/-- **`SerializePacket` is safe for the messages of at most 65531 bytes**, and for no others. -/
theorem serializesSafely_iff (hexact : (c.serialize m).length = c.byteSizeLong m) (pType : UInt8)
    (clientIndex : UInt16) :
    SerializesSafely c m pType clientIndex ↔ c.byteSizeLong m ≤ maxMessage := by
  have hmax : maxMessage = 65531 := rfl
  have hfour : sizeofPacketHeader = 4 := rfl
  constructor
  · intro h
    have hsize := h.bufferSize
    rw [serializePacket_bufferSize, toNat_packetSizeOf_eq] at hsize
    omega
  · intro hm
    refine ⟨?_, ?_, (writesWithin_iff hexact).2 (by omega)⟩
    · rw [header_serializePacket, toNat_packetSizeOf hm, hfour]
    · rw [serializePacket_bufferSize, toNat_packetSizeOf hm, hfour]

/-- A connection message fits its packet. -/
theorem connMessage_serializesSafely :
    SerializesSafely Wire.wireProtobuf.clientId (connMessage 5) 0 5 :=
  (serializesSafely_iff (Wire.lawful_wireProtobuf.clientId _) 0 5).2 (by decide +kernel)

/-- A movement that consists of an unknown field of `n` zeros. -/
def unknownMovement (n : ℕ) : PMovement :=
  { unknown := Wire.writeField 15 (.len (List.replicate n 0)) }

theorem byteSizeLong_unknownMovement (n : ℕ) :
    Wire.wireProtobuf.movement.byteSizeLong (unknownMovement n) =
      1 + (Wire.writeVarint 5 n).length + n := by
  have hwrite : Wire.writeMovement (unknownMovement n) =
      Wire.writeVarint 5 122 ++ Wire.writeVarint 5 n ++ List.replicate n 0 := by
    simp [Wire.writeMovement, unknownMovement, Wire.writeField, Wire.writeOption]
  refine (congrArg List.length hwrite).trans ?_
  rw [List.length_append, List.length_append, List.length_replicate]
  rfl

/-- **The header overruns the block**: a movement of 65532 bytes gets a packet of size zero, and the
four bytes of the header are copied into a block of no bytes; the room for the message is `-4`. -/
theorem header_overruns_block :
    Wire.wireProtobuf.movement.byteSizeLong (unknownMovement 65528) = 65532 ∧
      (serializePacket Wire.wireProtobuf.movement (unknownMovement 65528) 1 0).bufferSize = 0 ∧
      (reservedPacket 65532 0).copySpan (UInt16.ofNat sizeofPacketHeader) = ⟨0, 4⟩ ∧
      serializeRoom (packetSizeOf 65532) = -4 ∧
      ¬ SerializesSafely Wire.wireProtobuf.movement (unknownMovement 65528) 1 0 := by
  have hsize := byteSizeLong_unknownMovement 65528
  have hlen : (Wire.writeVarint 5 65528).length = 3 := by decide
  rw [hlen] at hsize
  refine ⟨hsize, ?_, copySpan_reservedPacket _ _, by decide, fun h => ?_⟩
  · rw [serializePacket_bufferSize, hsize]
    decide
  · have hheader := h.writes.header
    rw [hsize] at hheader
    exact absurd hheader (by decide)

end IocpDemo
