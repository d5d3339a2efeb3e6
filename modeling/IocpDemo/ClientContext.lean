/-
**One client's slot** (`ClientContext.h`, `ClientContext.cpp`).

A context has an index, a socket that is `INVALID_SOCKET` while the slot is free, and the receive
buffer `RecvContext.RecvBuf`.  The buffer is memory seen from its first byte, so that a packet or a
header that reaches past its `MAX_PACKETBUF` bytes is modelled as what it is.

The operations are given by what each statement does to the context; calls to the sockets library
are steps of `IocpDemo/Server.lean`, where other threads may move between two statements.

Main definitions:

* `IocpDemo.ClientContext` with `create`, `init`, `getIndex`, `isConnected`, `connectClient`,
  `forgetSocket`;
* `IocpDemo.ClientContext.zeroRecvBuf` — the memory effect of `ReceivePacket`;
* `IocpDemo.ClientContext.completeRecv` — the bytes of a receive arriving in the buffer;
* `IocpDemo.ClientContext.copyToSend`, `IocpDemo.ClientContext.bytesToSend` — what
  `SendPendingPacket` copies, and what its `WSASend` reads.
-/

import IocpDemo.Packet

set_option relaxedAutoImplicit false
set_option autoImplicit false

namespace IocpDemo

open Bytes

/-- A `SOCKET` other than `INVALID_SOCKET`. -/
abbrev Socket := ℕ

/-- `CClientContext`; `INVALID_SOCKET` is `none`. -/
structure ClientContext where
  index : Int32
  socket : Option Socket
  recvBuf : Mem

namespace ClientContext

/-- The constructor, on the memory where the context is placed. -/
def create (mem : Mem) : ClientContext := ⟨-1, none, mem.zero maxPacketBuf⟩

/-- `Init`. -/
def init (c : ClientContext) (index : UInt32) : ClientContext := { c with index := index.toInt32 }

/-- `GetIndex`. -/
def getIndex (c : ClientContext) : UInt32 := c.index.toUInt32

/-- `IsConnected`. -/
def isConnected (c : ClientContext) : Bool := c.socket.isSome

/-- `ConnectClient`. -/
def connectClient (c : ClientContext) (s : Socket) : ClientContext := { c with socket := some s }

/-- The last statement of `CloseSocket`. -/
def forgetSocket (c : ClientContext) : ClientContext := { c with socket := none }

/-- `ReceivePacket` clears the receive buffer. -/
def zeroRecvBuf (c : ClientContext) : ClientContext :=
  { c with recvBuf := c.recvBuf.zero maxPacketBuf }

/-- A receive puts its bytes at the start of the receive buffer. -/
def completeRecv (c : ClientContext) (data : List UInt8) : ClientContext :=
  { c with recvBuf := c.recvBuf.write 0 data }

/-- `SendPendingPacket` points its `WSABUF` at the receive buffer and copies the packet there. -/
def copyToSend (c : ClientContext) (inData : List UInt8) : ClientContext :=
  { c with recvBuf := c.recvBuf.write 0 inData }

/-- The bytes `WSASend` reads. -/
def bytesToSend (c : ClientContext) (dataLen : ℕ) : List UInt8 := c.recvBuf.read 0 dataLen

variable (c : ClientContext)

@[simp] theorem socket_connectClient (s : Socket) : (c.connectClient s).socket = some s := rfl
@[simp] theorem socket_forgetSocket : c.forgetSocket.socket = none := rfl
@[simp] theorem socket_zeroRecvBuf : c.zeroRecvBuf.socket = c.socket := rfl
@[simp] theorem socket_completeRecv (d : List UInt8) : (c.completeRecv d).socket = c.socket := rfl
@[simp] theorem socket_copyToSend (d : List UInt8) : (c.copyToSend d).socket = c.socket := rfl

@[simp] theorem index_connectClient (s : Socket) : (c.connectClient s).index = c.index := rfl
@[simp] theorem index_forgetSocket : c.forgetSocket.index = c.index := rfl
@[simp] theorem index_zeroRecvBuf : c.zeroRecvBuf.index = c.index := rfl
@[simp] theorem index_completeRecv (d : List UInt8) : (c.completeRecv d).index = c.index := rfl
@[simp] theorem index_copyToSend (d : List UInt8) : (c.copyToSend d).index = c.index := rfl

@[simp] theorem recvBuf_connectClient (s : Socket) : (c.connectClient s).recvBuf = c.recvBuf := rfl
@[simp] theorem recvBuf_forgetSocket : c.forgetSocket.recvBuf = c.recvBuf := rfl

/-- A cleared buffer that received `data` holds `data` followed by zeros. -/
theorem recvBuf_completeRecv_zero (data : List UInt8) {k : ℕ} (hk : k < maxPacketBuf) :
    (c.zeroRecvBuf.completeRecv data).recvBuf k = data.getD k 0 := by
  by_cases h : k < data.length
  · exact Mem.write_of_lt _ _ h
  · have hbuf : (c.zeroRecvBuf.completeRecv data).recvBuf k = c.recvBuf.zero maxPacketBuf k :=
      Mem.write_of_le _ _ (by omega)
    rw [hbuf, Mem.zero_of_lt _ hk, List.getD, List.getElem?_eq_none (by omega)]
    rfl

/-- A context that has been initialised answers with its index. -/
@[simp] theorem getIndex_init (i : UInt32) : (c.init i).getIndex = i := by
  simp [getIndex, init]

end ClientContext

/-! ### One iteration of `WorkThread` on a context -/

/-- What an iteration does with the completion it was given. -/
inductive WorkBranch
  | close
  | noData
  | received
  deriving DecidableEq, Repr

/-- The first two tests of an iteration. -/
def workBranch (bSuccess : Bool) (recvBytes : ℕ) : WorkBranch :=
  if bSuccess = false ∧ recvBytes = 0 then .close
  else if recvBytes = 0 then .noData
  else .received

/-- `Header->PacketSize - sizeof(PacketHeader)`, computed in `size_t` and passed as `UINT16`. -/
def dataSizeOf (packetSize : UInt16) : UInt16 :=
  (packetSize.toUInt64 - UInt64.ofNat sizeofPacketHeader).toUInt16

/-- The packet id and the data size of the call to `DeSerializePacket`, when there is one: none is
made for the listening socket. -/
def dispatchOf (listenSocket : Socket) (c : ClientContext) : Option (UInt16 × UInt16) :=
  if c.socket ≠ some listenSocket then
    let header := PacketHeader.ofMem c.recvBuf
    some (header.packetID, dataSizeOf header.packetSize)
  else none

/-- The bytes at `Data` that a handler parses: `DataSize` of them, from behind the header on. -/
def payloadOf (c : ClientContext) (dataSize : UInt16) : List UInt8 :=
  c.recvBuf.read sizeofPacketHeader dataSize.toNat

/-- **The data size wraps around**: it is the packet size less four, modulo `2 ^ 16`. -/
theorem toNat_dataSizeOf (packetSize : UInt16) :
    (dataSizeOf packetSize).toNat = (packetSize.toNat + 65532) % 65536 := by
  have := packetSize.toNat_lt
  simp only [dataSizeOf, UInt64.toNat_toUInt16, UInt64.toNat_sub, UInt16.toNat_toUInt64,
    sizeofPacketHeader, UInt64.toNat_ofNat', Nat.reducePow, Nat.reduceMod]
  omega

theorem workBranch_received {recvBytes : ℕ} (b : Bool) (h : 0 < recvBytes) :
    workBranch b recvBytes = .received := by
  have : recvBytes ≠ 0 := by omega
  simp [workBranch, this]

theorem workBranch_eq_noData_iff {b : Bool} {recvBytes : ℕ} :
    workBranch b recvBytes = .noData ↔ b = true ∧ recvBytes = 0 := by
  by_cases h : recvBytes = 0 <;> cases b <;> simp [workBranch, h]

theorem dispatchOf_eq {listenSocket : Socket} {c : ClientContext}
    (h : c.socket ≠ some listenSocket) :
    dispatchOf listenSocket c = some ((PacketHeader.ofMem c.recvBuf).packetID,
      dataSizeOf (PacketHeader.ofMem c.recvBuf).packetSize) := if_pos h

end IocpDemo
