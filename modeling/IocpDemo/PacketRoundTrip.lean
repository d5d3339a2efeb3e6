/-
**Reading back what `SerializePacket` writes** (`IOCPServer.h`, `IOCPServer.cpp`).

`SerializePacket` puts a header in front of a message through the operations of a packet buffer, and
`WorkThread` reads it through a pointer that it casts to a header: both have the size in the first
two bytes, the type in the next two and the message behind them.

Main definitions:

* `IocpDemo.ReadsBack` — what a worker thread finds in a receive buffer that starts with the bytes
  of a packet.

Main results:

* `IocpDemo.serializePacket_bytes_inj` — **different contents make different packets**;
* `IocpDemo.packet_round_trip` — **what is serialized is read back**.
-/

import IocpDemo.PacketWrites

set_option relaxedAutoImplicit false
set_option autoImplicit false

namespace IocpDemo

open Bytes

/-! ### Reading a packet -/

/-- The packet `b` is read back as a message of the type `pType`: a worker thread whose context has
the `GetSize()` bytes of `b` at the start of its receive buffer, and anything behind them, calls
`DeSerializePacket` with this type, the size of the message and its bytes; `GetIndex()` is the
client index; and the header is what `CopyPacket` has left there. -/
structure ReadsBack {M : Type} (c : Codec M) (m : M) (pType : UInt8) (clientIndex : UInt16)
    (b : PacketBuffer) : Prop where
  dispatch : ∀ (ctx : ClientContext) (listenSocket : Socket), ctx.socket ≠ some listenSocket →
    ctx.recvBuf.read 0 b.bufferSize.toNat = b.bytes → ∃ dataSize,
      dispatchOf listenSocket ctx = some (pType.toUInt16, dataSize) ∧
        dataSize.toNat = c.byteSizeLong m ∧ payloadOf ctx dataSize = c.serialize m
  packetIndex : b.packetIndex = clientIndex
  header : b.buffer.read 0 sizeofPacketHeader =
    (headedPacket (c.byteSizeLong m) pType clientIndex).buffer.read 0 sizeofPacketHeader

section RoundTrip

variable {M M' : Type} {c : Codec M} {c' : Codec M'} {m : M} {m' : M'}

/-- The size of the data is that of the message. -/
theorem toNat_dataSizeOf_packetSizeOf {n : ℕ} (hn : n ≤ maxMessage) :
    (dataSizeOf (packetSizeOf n)).toNat = n := by
  have hmax : maxMessage = 65531 := rfl
  rw [toNat_dataSizeOf, toNat_packetSizeOf hn]
  omega

/-- A memory that starts with a packet holds its header and, behind it, its message. -/
theorem read_serializePacket (hexact : (c.serialize m).length = c.byteSizeLong m)
    (hm : c.byteSizeLong m ≤ maxMessage) {pType : UInt8} {clientIndex : UInt16} {mem : Mem}
    (hmem : mem.read 0 (serializePacket c m pType clientIndex).bufferSize.toNat =
      (serializePacket c m pType clientIndex).bytes) :
    PacketHeader.ofMem mem = ⟨packetSizeOf (c.byteSizeLong m), pType.toUInt16⟩ ∧
      mem.read sizeofPacketHeader (c.byteSizeLong m) = c.serialize m := by
  have hlen := PacketHeader.length_bytes ⟨packetSizeOf (c.byteSizeLong m), pType.toUInt16⟩
  have hsize : (serializePacket c m pType clientIndex).bufferSize.toNat =
      (PacketHeader.bytes ⟨packetSizeOf (c.byteSizeLong m), pType.toUInt16⟩).length +
        (c.serialize m).length := by
    rw [← PacketBuffer.length_bytes, serializePacket_bytes hexact hm, List.length_append]
  rw [hsize, serializePacket_bytes hexact hm, Mem.read_eq_append_iff] at hmem
  obtain ⟨hheader, hpayload⟩ := hmem
  constructor
  · rw [PacketHeader.ofMem_eq_iff, ← hlen]
    simpa using (Mem.read_eq_iff _ _ _).1 hheader
  · rwa [hlen, hexact, Nat.zero_add] at hpayload

/-- The message is written behind the header. -/
theorem header_not_overwritten (c : Codec M) (m : M) (pType : UInt8) (clientIndex : UInt16) :
    (serializePacket c m pType clientIndex).buffer.read 0 sizeofPacketHeader =
      (headedPacket (c.byteSizeLong m) pType clientIndex).buffer.read 0 sizeofPacketHeader := by
  refine List.map_congr_left fun k hk => ?_
  have hlt := List.mem_range.1 hk
  rw [serializePacket_eq]
  refine serializeToArray_of_not_has ?_
  rintro ⟨hle, -⟩
  simp only [messageSpan] at hle
  omega

/-- **Different contents make different packets**, whatever the types of the messages are and
whoever they are addressed to. -/
theorem serializePacket_bytes_inj (hexact : (c.serialize m).length = c.byteSizeLong m)
    (hm : c.byteSizeLong m ≤ maxMessage) (hexact' : (c'.serialize m').length = c'.byteSizeLong m')
    (hm' : c'.byteSizeLong m' ≤ maxMessage) {pType pType' : UInt8}
    {clientIndex clientIndex' : UInt16}
    (h : (serializePacket c m pType clientIndex).bytes =
      (serializePacket c' m' pType' clientIndex').bytes) :
    pType = pType' ∧ c.serialize m = c'.serialize m' := by
  rw [serializePacket_bytes hexact hm, serializePacket_bytes hexact' hm'] at h
  obtain ⟨hheader, hpayload⟩ := List.append_inj h rfl
  refine ⟨?_, hpayload⟩
  -- the third byte of the header is the low byte of the type
  have hbyte : UInt8.ofNat pType.toUInt16.toNat = UInt8.ofNat pType'.toUInt16.toNat := by
    have hthird := congrArg (fun bs => bs.getD 2 0) hheader
    simpa only [PacketHeader.bytes, u16Bytes, List.cons_append, List.nil_append,
      List.getD_cons_succ, List.getD_cons_zero] using hthird
  simpa using hbyte

/-- **What is serialized is read back.**  For every message of at most 65531 bytes, every type and
every client index, the packet that `SerializePacket` makes is read back; and packets that differ in
their type or in the bytes of their message differ. -/
theorem packet_round_trip (hexact : (c.serialize m).length = c.byteSizeLong m)
    (hm : c.byteSizeLong m ≤ maxMessage) (pType : UInt8) (clientIndex : UInt16) :
    ReadsBack c m pType clientIndex (serializePacket c m pType clientIndex) ∧
      ∀ {M' : Type} (c' : Codec M') (m' : M') (pType' : UInt8) (clientIndex' : UInt16),
        (c'.serialize m').length = c'.byteSizeLong m' → c'.byteSizeLong m' ≤ maxMessage →
        (pType, c.serialize m) ≠ (pType', c'.serialize m') →
        (serializePacket c m pType clientIndex).bytes ≠
          (serializePacket c' m' pType' clientIndex').bytes := by
  refine ⟨⟨?_, rfl, header_not_overwritten c m pType clientIndex⟩, ?_⟩
  · intro ctx listenSocket hsocket hmem
    obtain ⟨hheader, hpayload⟩ := read_serializePacket hexact hm hmem
    have hsize := toNat_dataSizeOf_packetSizeOf hm
    refine ⟨dataSizeOf (packetSizeOf (c.byteSizeLong m)), ?_, hsize, ?_⟩
    · rw [dispatchOf_eq hsocket, hheader]
    · rw [payloadOf, hsize, hpayload]
  · intro M' c' m' pType' clientIndex' hexact' hm' hne hsame
    obtain ⟨htype, hmessage⟩ := serializePacket_bytes_inj hexact hm hexact' hm' hsame
    exact hne (by rw [htype, hmessage])

end RoundTrip

/-- The connection packet of client 5 is read back, and differs from that of client 6. -/
theorem connMessage_read_back :
    ReadsBack Wire.wireProtobuf.clientId (connMessage 5) 0 5
        (serializePacket Wire.wireProtobuf.clientId (connMessage 5) 0 5) ∧
      (serializePacket Wire.wireProtobuf.clientId (connMessage 5) 0 5).bytes ≠
        (serializePacket Wire.wireProtobuf.clientId (connMessage 6) 0 6).bytes := by
  have hexact := Wire.lawful_wireProtobuf.clientId
  obtain ⟨hread, hdistinct⟩ := packet_round_trip (hexact (connMessage 5)) (by decide +kernel) 0 5
  exact ⟨hread, hdistinct _ (connMessage 6) 0 6 (hexact _) (by decide +kernel) (by decide +kernel)⟩

end IocpDemo
