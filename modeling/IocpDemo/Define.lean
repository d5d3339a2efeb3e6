/-
**The constants and plain records of the server** (`Define.h`).

Fixed-width integers are Lean's own `UInt8`, `UInt16`, `UInt32` and `Int32`.  A `float` is the
32-bit pattern that represents it: the server copies the components of positions and rotations and
never computes with them.

Main definitions:

* `IocpDemo.maxPacketBuf`, `IocpDemo.clientMax`, `IocpDemo.sizeofPacketHeader` — the constants;
* `IocpDemo.EPacketType`, `IocpDemo.PacketHeader` — the packet types and the header in front of
  every packet, with its four bytes `IocpDemo.PacketHeader.bytes`;
* `IocpDemo.FVector`, `IocpDemo.FRotator`, `IocpDemo.ClientInfo` — what the roster stores of a
  player.

Main results:

* `IocpDemo.EPacketType.code_injective` — the packet types have distinct codes;
* `IocpDemo.PacketHeader.ofMem_eq_iff` — **reading a header back**: the header read at the start of
  a memory is `h` exactly when the memory starts with the bytes of `h`.
-/

import IocpDemo.Bytes

set_option relaxedAutoImplicit false
set_option autoImplicit false

namespace IocpDemo

open Bytes

/-! ### Constants -/

/-- `MAX_PACKETBUF`: the size of a client's receive buffer. -/
def maxPacketBuf : ℕ := 1024

/-- `CLIENT_MAX`: the number of slots the server creates. -/
def clientMax : ℕ := 100

/-- `sizeof(PacketHeader)`. -/
def sizeofPacketHeader : ℕ := 4

/-! ### Packet types -/

/-- `EPacketType`; the suffix `_C` marks packets for clients, `_S` packets for the server. -/
inductive EPacketType
  | connC
  | loginC
  | loginS
  | fireEventC
  | fireEventS
  | movementC
  | movementS
  | animStateC
  | animStateS
  | weaponStateC
  | weaponStateS
  deriving DecidableEq, Repr

/-- The underlying `uint16_t` of a packet type. -/
def EPacketType.code : EPacketType → UInt16
  | .connC => 0
  | .loginC => 1
  | .loginS => 2
  | .fireEventC => 3
  | .fireEventS => 4
  | .movementC => 5
  | .movementS => 6
  | .animStateC => 7
  | .animStateS => 8
  | .weaponStateC => 9
  | .weaponStateS => 10

theorem EPacketType.code_injective : Function.Injective EPacketType.code := by
  intro a b h
  cases a <;> cases b <;> first | rfl | exact absurd h (by decide)

/-- The packet type passed to the `UINT8` parameter `PType` of `SerializePacket`. -/
def EPacketType.toUInt8 (t : EPacketType) : UInt8 := t.code.toUInt8

/-! ### The packet header -/

/-- `PacketHeader`. -/
structure PacketHeader where
  packetSize : UInt16
  packetID : UInt16
  deriving DecidableEq, Repr

namespace PacketHeader

/-- The four bytes of a header in memory. -/
def bytes (h : PacketHeader) : List UInt8 := u16Bytes h.packetSize ++ u16Bytes h.packetID

/-- The header a pointer to memory is cast to. -/
def ofMem (m : Mem) : PacketHeader := ⟨m.u16 0, m.u16 2⟩

@[simp] theorem length_bytes (h : PacketHeader) : h.bytes.length = sizeofPacketHeader := rfl

/-- **Reading a header back.** -/
theorem ofMem_eq_iff (m : Mem) (h : PacketHeader) :
    ofMem m = h ↔ ∀ k < sizeofPacketHeader, m k = h.bytes.getD k 0 := by
  have hsize := u16_u16Bytes h.packetSize
  have hid := u16_u16Bytes h.packetID
  constructor
  · intro hm k hk
    have h₁ : m.u16 0 = h.packetSize := congrArg PacketHeader.packetSize hm
    have h₂ : m.u16 2 = h.packetID := congrArg PacketHeader.packetID hm
    rw [← hsize, Mem.u16, u16_inj] at h₁
    rw [← hid, Mem.u16, u16_inj] at h₂
    have hk' : k = 0 ∨ k = 1 ∨ k = 2 ∨ k = 3 := by
      simp only [sizeofPacketHeader] at hk
      omega
    rcases hk' with rfl | rfl | rfl | rfl
    · exact h₁.1
    · exact h₁.2
    · exact h₂.1
    · exact h₂.2
  · intro hm
    have h0 := hm 0 (by decide)
    have h1 := hm 1 (by decide)
    have h2 := hm 2 (by decide)
    have h3 := hm 3 (by decide)
    simp only [bytes, u16Bytes, List.cons_append, List.nil_append, List.getD_cons_zero,
      List.getD_cons_succ] at h0 h1 h2 h3
    simp only [ofMem, Mem.u16, Nat.zero_add, Nat.reduceAdd, h0, h1, h2, h3, hsize, hid]

end PacketHeader

/-! ### Positions and rotations -/

/-- A `float`, as its 32-bit pattern. -/
abbrev Float32Bits := UInt32

/-- `FVector`; the constructor takes its arguments in this order. -/
structure FVector where
  x : Float32Bits := 0
  y : Float32Bits := 0
  z : Float32Bits := 0
  deriving DecidableEq, Repr

/-- `FRotator`; the constructor takes roll, pitch and yaw in this order. -/
structure FRotator where
  roll : Float32Bits := 0
  pitch : Float32Bits := 0
  yaw : Float32Bits := 0
  deriving DecidableEq, Repr

/-- `ClientInfo`: what is stored of a player at login. -/
structure ClientInfo where
  location : FVector
  rotation : FRotator
  deriving DecidableEq, Repr

end IocpDemo
