/-
**Packet buffers** (`Packet.h`, `Packet.cpp`) and `SerializePacket` (`IOCPServer.h`).

A packet buffer is filled by `ReservePacket`, `CopyPacket` and `IncBufferPos`, with its position and
its size kept in sixteen bits.  Its block is the memory at `Buffer`; the functions write to it
wherever they are told to, as the code does.

Main definitions:

* `IocpDemo.PacketBuffer` and its operations;
* `IocpDemo.PacketBuffer.bytes` — what a sender reads of a packet: the `GetSize()` bytes at
  `GetBuffer()`;
* `IocpDemo.serializePacket` — the header and the serialized message, in a buffer addressed to a
  client index.

Main results:

* `IocpDemo.toNat_packetSizeOf_eq`, `IocpDemo.serializeRoom_eq` — **the size of a packet wraps
  around**, and the room behind its header may be negative;
* `IocpDemo.serializePacket_packetIndex`, `IocpDemo.serializePacket_bufferSize` — the index and the
  size of a serialized packet.
-/

import IocpDemo.ShooterProtocol

set_option relaxedAutoImplicit false
set_option autoImplicit false

namespace IocpDemo

open Bytes

/-! ### Packet buffers -/

/-- `PacketBuffer`; the index starts at `-1`, in sixteen bits. -/
structure PacketBuffer where
  bIsReliable : Bool := false
  buffer : Mem := fun _ => 0
  bufferPos : UInt16 := 0
  bufferSize : UInt16 := 0
  packetIndex : UInt16 := 65535

namespace PacketBuffer

/-- `SetIndex`. -/
def setIndex (b : PacketBuffer) (index : UInt16) : PacketBuffer := { b with packetIndex := index }

/-- `ReservePacket`: a new block, cleared for `size` bytes from the current position on. -/
def reservePacket (b : PacketBuffer) (size : UInt16) : PacketBuffer :=
  { b with
    buffer := Mem.write (fun _ => 0) b.bufferPos.toNat (List.replicate size.toNat 0)
    bufferSize := b.bufferSize + size }

/-- `IncBufferPos`. -/
def incBufferPos (b : PacketBuffer) (pos : UInt16) : PacketBuffer :=
  { b with bufferPos := b.bufferPos + pos }

/-- `CopyPacket`: the overflow test is made in `int`, and rewinds the position. -/
def copyPacket (b : PacketBuffer) (data : List UInt8) (size : UInt16) : PacketBuffer :=
  let pos := if b.bufferPos.toNat + size.toNat > b.bufferSize.toNat then 0 else b.bufferPos
  { b with
    bufferPos := pos
    buffer := b.buffer.write pos.toNat (data.take size.toNat) }

/-- The `GetSize()` bytes at `GetBuffer()`. -/
def bytes (b : PacketBuffer) : List UInt8 := b.buffer.read 0 b.bufferSize.toNat

@[simp] theorem length_bytes (b : PacketBuffer) : b.bytes.length = b.bufferSize.toNat := by
  simp [bytes]

end PacketBuffer

/-! ### `SerializePacket` -/

/-- The `PacketSize` of a message of `n` bytes: `n` cut to sixteen bits, the size of the header
added in `size_t`, and the sum cut to sixteen bits. -/
def packetSizeOf (n : ℕ) : UInt16 :=
  ((UInt16.ofNat n).toUInt64 + UInt64.ofNat sizeofPacketHeader).toUInt16

/-- The room given to `SerializeToArray`: the difference in `size_t`, converted to `int`. -/
def serializeRoom (packetSize : UInt16) : ℤ :=
  (packetSize.toUInt64 - UInt64.ofNat sizeofPacketHeader).toUInt32.toInt32.toInt

/-- **The size of a packet wraps around.** -/
theorem toNat_packetSizeOf_eq (n : ℕ) : (packetSizeOf n).toNat = (n + 4) % 65536 := by
  simp only [packetSizeOf, sizeofPacketHeader, UInt64.toNat_toUInt16, UInt64.toNat_add,
    UInt16.toNat_toUInt64, UInt16.toNat_ofNat', UInt64.toNat_ofNat', Nat.reducePow, Nat.reduceMod]
  omega

/-- The room is negative when the packet is smaller than its header. -/
theorem serializeRoom_eq (packetSize : UInt16) :
    serializeRoom packetSize = (packetSize.toNat : ℤ) - 4 := by
  have hlt := packetSize.toNat_lt
  have hroom : (packetSize.toUInt64 - UInt64.ofNat sizeofPacketHeader).toUInt32.toNat =
      (packetSize.toNat + 4294967292) % 4294967296 := by
    simp only [UInt64.toNat_toUInt32, UInt64.toNat_sub, UInt16.toNat_toUInt64, sizeofPacketHeader,
      UInt64.toNat_ofNat', Nat.reducePow, Nat.reduceMod]
    omega
  -- the conversion to `int` subtracts `2 ^ 32` from what has the sign bit
  rw [serializeRoom, ← Int32.toInt_toBitVec, UInt32.toBitVec_toInt32, BitVec.toInt_eq_toNat_cond,
    UInt32.toNat_toBitVec, hroom]
  split <;> omega

/-- `SerializePacket`. -/
def serializePacket {M : Type} (c : Codec M) (m : M) (pType : UInt8) (clientIndex : UInt16) :
    PacketBuffer :=
  let header : PacketHeader := ⟨packetSizeOf (c.byteSizeLong m), pType.toUInt16⟩
  let b := (({} : PacketBuffer).setIndex clientIndex).reservePacket header.packetSize
  let b := b.copyPacket header.bytes (UInt16.ofNat sizeofPacketHeader)
  let b := { b with
    buffer := (c.serializeToArray m b.buffer sizeofPacketHeader
      (serializeRoom header.packetSize)).1 }
  b.incBufferPos (UInt16.ofNat (c.byteSizeLong m))

@[simp] theorem serializePacket_packetIndex {M : Type} (c : Codec M) (m : M) (pType : UInt8)
    (clientIndex : UInt16) :
    (serializePacket c m pType clientIndex).packetIndex = clientIndex := rfl

@[simp] theorem serializePacket_bufferSize {M : Type} (c : Codec M) (m : M) (pType : UInt8)
    (clientIndex : UInt16) :
    (serializePacket c m pType clientIndex).bufferSize = packetSizeOf (c.byteSizeLong m) := by
  simp [serializePacket, PacketBuffer.incBufferPos, PacketBuffer.copyPacket,
    PacketBuffer.reservePacket, PacketBuffer.setIndex]

end IocpDemo
