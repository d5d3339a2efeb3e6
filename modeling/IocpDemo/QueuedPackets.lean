/-
**Queued packets are well formed** (`SerializePacket`, the handlers, `GetPendingPacket`).

`SerializePacket` computes the size of a packet in sixteen bits, reserves a block of this size, and
lets the message be written behind the header.  As long as a message is not longer than what fits
behind a header in a packet of sixteen-bit size, the block holds exactly the header and the message,
so that the size of a queued packet is never the zero that the two `GetPending` functions return for
an empty queue.

The two queues and the roster are a system of their own, which moves when `OnConnected` or
`DeSerializePacket` is called and when a sender thread takes a packet; the server moves it in this
way and in no other.

Main definitions:

* `IocpDemo.QueOp`, `IocpDemo.queStep` — the operations on what `SendQueLock` guards;
* `IocpDemo.serializedSizes`, `IocpDemo.Fits` — the sizes of the messages an operation serializes;
* `IocpDemo.WellFormed` — a packet that is its own header and one message;
* `IocpDemo.queOp` — the operation that a step of the server is.

Main results:

* `IocpDemo.serializePacket_bytes` — **the bytes of a packet**;
* `IocpDemo.queued_packets_well_formed` — **every queued packet is well formed**, and none is taken
  for an empty queue;
* `IocpDemo.step_queOp`, `IocpDemo.reach_que` — runs of the server are runs of the queues.
-/

import IocpDemo.BroadCast
import IocpDemo.Logins
import IocpDemo.WireLaws

set_option relaxedAutoImplicit false
set_option autoImplicit false

namespace IocpDemo

open Bytes Transition

variable {cfg : Config} {s s' : Server} {R : Runtime} {q : SendQue}

/-! ### The bytes of a packet -/

theorem toNat_packetSizeOf {n : ℕ} (h : n ≤ maxMessage) : (packetSizeOf n).toNat = n + 4 := by
  have hmax : maxMessage = 65531 := rfl
  rw [toNat_packetSizeOf_eq, Nat.mod_eq_of_lt (by omega)]

theorem serializeRoom_packetSizeOf {n : ℕ} (h : n ≤ maxMessage) :
    serializeRoom (packetSizeOf n) = n := by
  rw [serializeRoom_eq, toNat_packetSizeOf h]
  omega

/-- The header that a packet starts with. -/
def PacketBuffer.header (p : PacketBuffer) : PacketHeader := PacketHeader.ofMem p.buffer

/-- The bytes behind the header. -/
def PacketBuffer.payload (p : PacketBuffer) : List UInt8 := p.bytes.drop sizeofPacketHeader

section Bytes

variable {M : Type} {c : Codec M} {m : M}

/-- **The bytes of a packet** are its header and the serialized message. -/
theorem serializePacket_bytes (hexact : (c.serialize m).length = c.byteSizeLong m)
    (hm : c.byteSizeLong m ≤ maxMessage) (pType : UInt8) (clientIndex : UInt16) :
    (serializePacket c m pType clientIndex).bytes =
      PacketHeader.bytes ⟨packetSizeOf (c.byteSizeLong m), pType.toUInt16⟩ ++ c.serialize m := by
  have hsize := toNat_packetSizeOf hm
  have hroom := serializeRoom_packetSizeOf hm
  -- behind the header there is room for the message
  have hbuf : ∃ mem, (serializePacket c m pType clientIndex).buffer =
      Mem.write (Mem.write mem 0
        (PacketHeader.bytes ⟨packetSizeOf (c.byteSizeLong m), pType.toUInt16⟩)) 4
        (c.serialize m) := by
    simp [serializePacket, PacketBuffer.incBufferPos, PacketBuffer.copyPacket,
      PacketBuffer.reservePacket, PacketBuffer.setIndex, Codec.serializeToArray, hroom,
      sizeofPacketHeader, PacketHeader.bytes, u16Bytes]
    exact ⟨_, rfl⟩
  obtain ⟨mem, hbuf⟩ := hbuf
  rw [PacketBuffer.bytes, serializePacket_bufferSize, hsize, hbuf, Nat.add_comm, Mem.read_add,
    Mem.read_write_of_le _ _ (by omega), Nat.zero_add, ← hexact, Mem.read_write]
  refine congrArg (· ++ c.serialize m) ?_
  exact Mem.read_write mem 0
    (PacketHeader.bytes ⟨packetSizeOf (c.serialize m).length, pType.toUInt16⟩)

/-- Copying at the start of the buffer. -/
theorem PacketBuffer.copyPacket_buffer {b : PacketBuffer} (h : b.bufferPos = 0) (data : List UInt8)
    (size : UInt16) :
    (b.copyPacket data size).buffer = b.buffer.write 0 (data.take size.toNat) := by
  simp [PacketBuffer.copyPacket, h]

/-- The header in front of a packet is the one `SerializePacket` has built, whatever becomes of the
message behind it. -/
theorem header_serializePacket (c : Codec M) (m : M) (pType : UInt8) (clientIndex : UInt16) :
    (serializePacket c m pType clientIndex).header =
      ⟨packetSizeOf (c.byteSizeLong m), pType.toUInt16⟩ := by
  rw [PacketBuffer.header, PacketHeader.ofMem_eq_iff]
  intro k hk
  have hlen := PacketHeader.length_bytes ⟨packetSizeOf (c.byteSizeLong m), pType.toUInt16⟩
  -- the message is written behind the header
  have hbehind : ∀ (mem : Mem) (room : ℤ), (c.serializeToArray m mem sizeofPacketHeader room).1 k =
      mem k := by
    intro mem room
    simp only [Codec.serializeToArray]
    split
    · rfl
    · exact if_neg fun h => absurd h.1 (Nat.not_le.2 hk)
  simp only [serializePacket, PacketBuffer.incBufferPos, hbehind]
  rw [PacketBuffer.copyPacket_buffer rfl, List.take_of_length_le (by rw [hlen]; decide)]
  exact Mem.write_of_lt _ _ (by rw [hlen]; exact hk)

/-- The message lies behind it. -/
theorem payload_serializePacket (hexact : (c.serialize m).length = c.byteSizeLong m)
    (hm : c.byteSizeLong m ≤ maxMessage) (pType : UInt8) (clientIndex : UInt16) :
    (serializePacket c m pType clientIndex).payload = c.serialize m := by
  rw [PacketBuffer.payload, serializePacket_bytes hexact hm]
  exact List.drop_left' (PacketHeader.length_bytes _)

/-- The payload of a packet that is relayed. -/
theorem Relay.payload_packet (r : Relay)
    (hexact : (r.codec.serialize r.message).length = r.codec.byteSizeLong r.message)
    (hm : r.codec.byteSizeLong r.message ≤ maxMessage) :
    r.packet.payload = r.codec.serialize r.message :=
  payload_serializePacket hexact hm r.pType.toUInt8 r.idIndex.toUInt16

/-- The packet type passed as `UINT8` is stored as it is. -/
theorem EPacketType.toUInt16_toUInt8 (t : EPacketType) : t.toUInt8.toUInt16 = t.code := by
  cases t <;> rfl

end Bytes

/-! ### Well-formed packets -/

/-- `SerializedAs P t payload`: the payload is a message serialized for a packet of the type `t`. -/
inductive SerializedAs (P : Protobuf) : EPacketType → List UInt8 → Prop
  | conn (m : PClientId) : SerializedAs P .connC (P.clientId.serialize m)
  | login (m : PMovement) : SerializedAs P .loginC (P.movement.serialize m)
  | fireEvent (m : PFireEvent) : SerializedAs P .fireEventC (P.fireEvent.serialize m)
  | movement (m : PMovement) : SerializedAs P .movementC (P.movement.serialize m)
  | animState (m : PAnimState) : SerializedAs P .animStateC (P.animState.serialize m)
  | weapon (m : PWeapon) : SerializedAs P .weaponStateC (P.weapon.serialize m)

/-- **A packet of the type `t`**: its header names its size and its type, and a serialized message
lies behind it. -/
structure WellFormed (P : Protobuf) (t : EPacketType) (p : PacketBuffer) : Prop where
  size_ge : sizeofPacketHeader ≤ p.bufferSize.toNat
  packetSize : p.header.packetSize = p.bufferSize
  size_eq : p.bufferSize.toNat = sizeofPacketHeader + p.payload.length
  packetID : p.header.packetID = t.code
  serialized : SerializedAs P t p.payload

/-- **`SerializePacket` makes a well-formed packet** of every message that fits. -/
theorem WellFormed.of_serializePacket {P : Protobuf} {t : EPacketType} {M : Type} {c : Codec M}
    {m : M} (hexact : (c.serialize m).length = c.byteSizeLong m)
    (hm : c.byteSizeLong m ≤ maxMessage) (hser : SerializedAs P t (c.serialize m))
    (clientIndex : UInt16) : WellFormed P t (serializePacket c m t.toUInt8 clientIndex) := by
  have hheader := header_serializePacket c m t.toUInt8 clientIndex
  have hpayload := payload_serializePacket hexact hm t.toUInt8 clientIndex
  have hsize : (serializePacket c m t.toUInt8 clientIndex).bufferSize.toNat =
      c.byteSizeLong m + 4 := by rw [serializePacket_bufferSize, toNat_packetSizeOf hm]
  refine ⟨?_, ?_, ?_, ?_, ?_⟩
  · rw [hsize, sizeofPacketHeader]
    omega
  · rw [hheader, serializePacket_bufferSize]
  · rw [hsize, hpayload, hexact, sizeofPacketHeader]
    omega
  · rw [hheader, EPacketType.toUInt16_toUInt8]
  · rw [hpayload]
    exact hser

/-- The reliability flag is not part of the packet. -/
theorem WellFormed.setReliable {P : Protobuf} {t : EPacketType} {p : PacketBuffer}
    (h : WellFormed P t p) (reliable : Bool) :
    WellFormed P t { p with bIsReliable := reliable } :=
  ⟨h.size_ge, h.packetSize, h.size_eq, h.packetID, h.serialized⟩

/-! ### The operations on the queues -/

/-- The calls that run under `SendQueLock`. -/
inductive QueOp
  | onConnected (index : UInt16)
  | deSerializePacket (packetID : UInt16) (data : List UInt8)
  | getPendingPacket
  | getPendingBCPacket

/-- What a call does. -/
def queStep (R : Runtime) (q : SendQue) : QueOp → SendQue
  | .onConnected index => onConnected R index q
  | .deSerializePacket packetID data => deSerializePacket R packetID data q
  | .getPendingPacket => (getPendingPacket q).2
  | .getPendingBCPacket => (getPendingBCPacket q).2

/-- The queues as a system. -/
def queSystem (R : Runtime) (q : SendQue) (op : QueOp) : Option SendQue := some (queStep R q op)

/-- The players that a login is told about. -/
def loginPlayers (R : Runtime) (data : List UInt8) (roster : Roster) : Roster :=
  (R.iteration (emplaceLogin (loginMessage R data) roster)).filter fun player =>
    player.1 ≠ (idIndex (loginMessage R data)).toInt32

theorem loginPackets_eq (R : Runtime) (data : List UInt8) (roster : Roster) :
    loginPackets R data roster = (loginPlayers R data roster).map
      (rosterPacket R.proto (idIndex (loginMessage R data)).toInt32) := rfl

/-- `ByteSizeLong` of the messages that a call hands to `SerializePacket`. -/
def serializedSizes (R : Runtime) (q : SendQue) : QueOp → List ℕ
  | .onConnected index => [R.proto.clientId.byteSizeLong (connMessage index)]
  | .deSerializePacket packetID data =>
      match findFunc packetID with
      | none => []
      | some f =>
          let relay := relayOf R data f
          relay.codec.byteSizeLong relay.message ::
            if f = .recvLoginPacket then
              (loginPlayers R data q.connectedPlayers).map fun player =>
                R.proto.movement.byteSizeLong (rosterMessage player)
            else []
  | .getPendingPacket | .getPendingBCPacket => []

/-- Every message that the call serializes fits a packet. -/
def Fits (R : Runtime) (q : SendQue) (op : QueOp) : Prop :=
  ∀ size ∈ serializedSizes R q op, size ≤ maxMessage

instance (R : Runtime) (q : SendQue) (op : QueOp) : Decidable (Fits R q op) :=
  inferInstanceAs (Decidable (∀ size ∈ serializedSizes R q op, size ≤ maxMessage))

/-! ### What the calls queue -/

/-- The type under which a handler queues for broadcast. -/
def RecvFunc.broadCastType : RecvFunc → EPacketType
  | .recvLoginPacket => .loginC
  | .recvFireEventPacket => .fireEventC
  | .recvMovementPacket => .movementC
  | .recvAnimPacket => .animStateC
  | .recvWeaponPacket => .weaponStateC

/-- The types of packets that are broadcast reliably. -/
def EPacketType.reliable : EPacketType → Bool
  | .loginC | .weaponStateC => true
  | _ => false

/-- What `SendThread` may be given. -/
def UnicastPacket (P : Protobuf) (p : PacketBuffer) : Prop :=
  (WellFormed P .connC p ∨ WellFormed P .loginC p) ∧ p.bIsReliable = false

/-- What `SendBroadCastThread` may be given. -/
def BroadCastPacket (P : Protobuf) (p : PacketBuffer) : Prop :=
  ∃ f : RecvFunc, WellFormed P f.broadCastType p ∧ p.bIsReliable = f.broadCastType.reliable

theorem unicastPacket_connPacket (hP : R.proto.Exact) {index : UInt16}
    (hfits : R.proto.clientId.byteSizeLong (connMessage index) ≤ maxMessage) :
    UnicastPacket R.proto (connPacket R.proto index) := by
  rw [connPacket_eq]
  exact ⟨Or.inl (.of_serializePacket (hP.clientId _) hfits (.conn _) index), rfl⟩

theorem unicastPacket_rosterPacket (hP : R.proto.Exact) {player : Int32 × ClientInfo}
    (hfits : R.proto.movement.byteSizeLong (rosterMessage player) ≤ maxMessage) (target : Int32) :
    UnicastPacket R.proto (rosterPacket R.proto target player) := by
  rw [rosterPacket_eq]
  exact ⟨Or.inr (.of_serializePacket (hP.movement _) hfits (.login _) _), rfl⟩

theorem broadCastPacket_relay (hP : R.proto.Exact) (f : RecvFunc) {data : List UInt8}
    (hfits : (relayOf R data f).codec.byteSizeLong (relayOf R data f).message ≤ maxMessage) :
    BroadCastPacket R.proto (relayOf R data f).packet := by
  refine ⟨f, WellFormed.setReliable ?_ _, by cases f <;> rfl⟩
  cases f with
  | recvLoginPacket => exact .of_serializePacket (hP.movement _) hfits (.login _) _
  | recvFireEventPacket => exact .of_serializePacket (hP.fireEvent _) hfits (.fireEvent _) _
  | recvMovementPacket => exact .of_serializePacket (hP.movement _) hfits (.movement _) _
  | recvAnimPacket => exact .of_serializePacket (hP.animState _) hfits (.animState _) _
  | recvWeaponPacket => exact .of_serializePacket (hP.weapon _) hfits (.weapon _) _

/-- Every queued packet is well formed. -/
structure QueuesWellFormed (P : Protobuf) (q : SendQue) : Prop where
  unicast : ∀ p ∈ q.ioSendPacketQue, UnicastPacket P p
  broadCast : ∀ p ∈ q.ioSendBCPacketQue, BroadCastPacket P p

theorem getPendingBCPacket_ioSendBCPacketQue (q : SendQue) :
    (getPendingBCPacket q).2.ioSendBCPacketQue = q.ioSendBCPacketQue.tail := by
  unfold getPendingBCPacket
  split <;> simp [*]

@[simp] theorem getPendingPacket_ioSendBCPacketQue (q : SendQue) :
    (getPendingPacket q).2.ioSendBCPacketQue = q.ioSendBCPacketQue := by
  unfold getPendingPacket
  split <;> rfl

/-- What a frame appends to the broadcast queue. -/
theorem deSerializePacket_ioSendBCPacketQue (R : Runtime) (packetID : UInt16) (data : List UInt8)
    (q : SendQue) : (deSerializePacket R packetID data q).ioSendBCPacketQue =
      q.ioSendBCPacketQue ++ (findFunc packetID).toList.map fun f => (relayOf R data f).packet := by
  cases hf : findFunc packetID with
  | none => simp [deSerializePacket, hf]
  | some f => simpa using deSerializePacket_broadCast R hf data q

theorem QueuesWellFormed.deSerializePacket (hP : R.proto.Exact) (hq : QueuesWellFormed R.proto q)
    {packetID : UInt16} {data : List UInt8}
    (hfits : Fits R q (.deSerializePacket packetID data)) :
    QueuesWellFormed R.proto (deSerializePacket R packetID data q) := by
  obtain ⟨huni, -⟩ := deSerializePacket_que R packetID data q
  have hbc := deSerializePacket_ioSendBCPacketQue R packetID data q
  refine ⟨fun p hp => ?_, fun p hp => ?_⟩
  · rw [huni] at hp
    rcases List.mem_append.1 hp with hold | hnew
    · exact hq.unicast p hold
    · by_cases hf : findFunc packetID = some .recvLoginPacket
      · rw [if_pos hf, loginPackets_eq] at hnew
        obtain ⟨player, hplayer, rfl⟩ := List.mem_map.1 hnew
        refine unicastPacket_rosterPacket hP (hfits _ ?_) _
        simp only [serializedSizes, hf, if_true, List.mem_cons, List.mem_map]
        exact Or.inr ⟨player, hplayer, rfl⟩
      · rw [if_neg hf] at hnew
        cases hnew
  · rw [hbc] at hp
    rcases List.mem_append.1 hp with hold | hnew
    · exact hq.broadCast p hold
    · cases hf : findFunc packetID with
      | none => simp [hf] at hnew
      | some f =>
          obtain rfl : p = (relayOf R data f).packet := by simpa [hf] using hnew
          refine broadCastPacket_relay hP f (hfits _ ?_)
          simp [serializedSizes, hf]

/-- **Every call keeps the queued packets well formed.** -/
theorem QueuesWellFormed.step (hP : R.proto.Exact) (hq : QueuesWellFormed R.proto q) {op : QueOp}
    (hfits : Fits R q op) : QueuesWellFormed R.proto (queStep R q op) := by
  cases op with
  | onConnected index =>
      refine ⟨fun p hp => ?_, hq.broadCast⟩
      rcases List.mem_append.1 hp with hold | hnew
      · exact hq.unicast p hold
      · rw [List.mem_singleton.1 hnew]
        exact unicastPacket_connPacket hP (hfits _ (by simp [serializedSizes]))
  | deSerializePacket packetID data => exact hq.deSerializePacket hP hfits
  | getPendingPacket =>
      refine ⟨fun p hp => hq.unicast p ?_, fun p hp => hq.broadCast p ?_⟩
      · simp only [queStep, getPendingPacket_ioSendPacketQue] at hp
        exact List.mem_of_mem_tail hp
      · simpa [queStep] using hp
  | getPendingBCPacket =>
      refine ⟨fun p hp => hq.unicast p ?_, fun p hp => hq.broadCast p ?_⟩
      · simpa [queStep] using hp
      · simp only [queStep, getPendingBCPacket_ioSendBCPacketQue] at hp
        exact List.mem_of_mem_tail hp

theorem QueuesWellFormed.of_reach (hP : R.proto.Exact) {roster : Roster}
    (h : Reach (queSystem R) (Fits R) { connectedPlayers := roster } q) :
    QueuesWellFormed R.proto q := by
  refine h.invariant ⟨by simp, by simp⟩ fun q op q' hq hfits hstep => ?_
  obtain rfl : queStep R q op = q' := Option.some.inj hstep
  exact hq.step hP hfits

/-! ### The packets in the queues -/

/-- What a sender thread and a client rely on of a packet's size. -/
structure SizeCorrect (P : Protobuf) (p : PacketBuffer) : Prop where
  size_ge : 4 ≤ p.bufferSize.toNat
  packetSize : p.bufferSize = p.header.packetSize
  size_eq : p.bufferSize.toNat = 4 + p.payload.length
  serialized : ∃ t : EPacketType, p.header.packetID = t.code ∧ SerializedAs P t p.payload

theorem WellFormed.sizeCorrect {P : Protobuf} {t : EPacketType} {p : PacketBuffer}
    (h : WellFormed P t p) : SizeCorrect P p :=
  ⟨h.size_ge, h.packetSize.symm, h.size_eq, t, h.packetID, h.serialized⟩

theorem UnicastPacket.sizeCorrect {P : Protobuf} {p : PacketBuffer} (h : UnicastPacket P p) :
    SizeCorrect P p := by
  rcases h.1 with hconn | hlogin
  · exact hconn.sizeCorrect
  · exact hlogin.sizeCorrect

theorem BroadCastPacket.sizeCorrect {P : Protobuf} {p : PacketBuffer} (h : BroadCastPacket P p) :
    SizeCorrect P p := by
  obtain ⟨f, hf, -⟩ := h
  exact hf.sizeCorrect

/-- The packet types in the unicast queue. -/
def unicastTypes : List EPacketType := [.connC, .loginC]

/-- The packet types in the broadcast queue. -/
def broadCastTypes : List EPacketType :=
  [.loginC, .fireEventC, .movementC, .animStateC, .weaponStateC]

/-- The packet is reliable exactly if it is a login or a weapon state. -/
theorem BroadCastPacket.bIsReliable_iff {P : Protobuf} {p : PacketBuffer}
    (h : BroadCastPacket P p) : p.bIsReliable = true ↔
      p.header.packetID = EPacketType.loginC.code ∨
        p.header.packetID = EPacketType.weaponStateC.code := by
  obtain ⟨f, hf, hreliable⟩ := h
  rw [hreliable, hf.packetID]
  cases f <;> decide

/-- **Queued packets are well formed.**  From empty queues and any roster on, whatever calls of
`OnConnected`, `DeSerializePacket` and the two `GetPending` functions follow in whatever order, as
long as every message that is serialized fits a packet: the size of a queued packet is at least
four, is the one in its header, and is four more than the length of the message behind the header;
the unicast queue holds connection and login packets, which are not reliable; the broadcast queue
holds login and state packets, of which logins and weapon states are reliable; and what is taken
from a queue that is not empty does not have the size zero. -/
theorem queued_packets_well_formed (hP : R.proto.Exact) {roster : Roster}
    (h : Reach (queSystem R) (Fits R) { connectedPlayers := roster } q) :
    (∀ p ∈ q.ioSendPacketQue, SizeCorrect R.proto p ∧
        (∃ t ∈ unicastTypes, p.header.packetID = t.code) ∧ p.bIsReliable = false) ∧
      (∀ p ∈ q.ioSendBCPacketQue, SizeCorrect R.proto p ∧
        (∃ t ∈ broadCastTypes, p.header.packetID = t.code) ∧
        (p.bIsReliable = true ↔ p.header.packetID = EPacketType.loginC.code ∨
          p.header.packetID = EPacketType.weaponStateC.code)) ∧
      (q.ioSendPacketQue ≠ [] → 0 < (getPendingPacket q).1.bufferSize) ∧
      (q.ioSendBCPacketQue ≠ [] → 0 < (getPendingBCPacket q).1.bufferSize) := by
  have hq := QueuesWellFormed.of_reach hP h
  have hpos : ∀ {p : PacketBuffer}, SizeCorrect R.proto p → 0 < p.bufferSize := by
    intro p hp
    have := hp.size_ge
    exact UInt16.pos_iff_ne_zero.2 fun hzero => by simp [hzero] at this
  refine ⟨fun p hp => ?_, fun p hp => ?_, fun hne => ?_, fun hne => ?_⟩
  · have hup := hq.unicast p hp
    refine ⟨hup.sizeCorrect, ?_, hup.2⟩
    rcases hup.1 with hconn | hlogin
    · exact ⟨_, by decide, hconn.packetID⟩
    · exact ⟨_, by decide, hlogin.packetID⟩
  · have hbp := hq.broadCast p hp
    refine ⟨hbp.sizeCorrect, ?_, hbp.bIsReliable_iff⟩
    obtain ⟨f, hf, -⟩ := hbp
    exact ⟨f.broadCastType, by cases f <;> decide, hf.packetID⟩
  · obtain ⟨p, ps, hque⟩ := List.exists_cons_of_ne_nil hne
    rw [getPendingPacket, hque]
    exact hpos (hq.unicast p (by rw [hque]; exact List.mem_cons_self)).sizeCorrect
  · obtain ⟨p, ps, hque⟩ := List.exists_cons_of_ne_nil hne
    rw [getPendingBCPacket, hque]
    exact hpos (hq.broadCast p (by rw [hque]; exact List.mem_cons_self)).sizeCorrect

/-- A client is accepted, logs in and sends a weapon state: the last packet is reliable. -/
theorem weapon_packet_well_formed :
    ∃ q p, Reach (queSystem Wire.wireRuntime) (Fits Wire.wireRuntime) { connectedPlayers := [] } q ∧
      q.ioSendBCPacketQue.getLast? = some p ∧ p.bytes = [6, 0, 9, 0, 10, 0] ∧
      p.bIsReliable = true ∧ SizeCorrect Wire.wireRuntime.proto p := by
  obtain ⟨q, hreach, hlast⟩ := Reach.exists_of_runIf (queSystem Wire.wireRuntime)
    (Fits Wire.wireRuntime) { connectedPlayers := [] }
    [.onConnected 0, .deSerializePacket 2 [10, 0], .getPendingPacket, .deSerializePacket 10 [10, 0]]
    (fun q => q.ioSendBCPacketQue.getLast?.map fun p => (p.bytes, p.bIsReliable))
    (x := some ([6, 0, 9, 0, 10, 0], true)) (by decide +kernel)
  obtain ⟨p, hp, heq⟩ := Option.map_eq_some_iff.1 hlast
  obtain ⟨hbytes, hreliable⟩ := Prod.mk.inj heq
  have hexact : Wire.wireRuntime.proto.Exact := Wire.lawful_wireProtobuf.toExact
  have hwell := (queued_packets_well_formed hexact hreach).2.1 p (List.mem_of_getLast? hp)
  exact ⟨q, p, hreach, hp, hbytes, hreliable, hwell.1⟩

/-! ### The queues of the server -/

/-- The call under `SendQueLock` that a step of the server makes. -/
def queOp (cfg : Config) (s : Server) : Event → Option QueOp
  | .greetClient =>
      match s.acceptThread with
      | .greeting i _ => s.contexts[i]?.map fun ctx => .onConnected ctx.getIndex.toUInt16
      | _ => none
  | .deSerialize w =>
      match s.workThreads[w]? with
      | some (.received c) =>
          s.contexts[c.key]?.bind fun ctx =>
            (dispatchOf cfg.listenSocket ctx).map fun d =>
              .deSerializePacket d.1 (payloadOf ctx d.2)
      | _ => none
  | .popPacket => some .getPendingPacket
  | .popBCPacket => some .getPendingBCPacket
  | _ => none

/-- **A step of the server is at most one call under the lock**, as far as the queues are
concerned. -/
theorem step_queOp {e : Event} (h : step cfg s e = some s') :
    s'.que = (queOp cfg s e).elim s.que (queStep cfg.runtime s.que) := by
  cases e with
  | greetClient =>
      obtain ⟨i, conn, ctx, hpc, hctx, rfl⟩ := Server.greetClient_some h
      simp [queOp, hpc, hctx, queStep]
  | deSerialize w =>
      obtain ⟨c, ctx, hpc, hctx, ⟨hd, rfl⟩ | ⟨packetID, dataSize, hd, rfl⟩⟩ :=
        Server.deSerialize_some h
      · simp [queOp, hpc, hctx, hd, Server.setWorker]
      · simp [queOp, hpc, hctx, hd, queStep, Server.dispatched]
  | popPacket => obtain ⟨-, rfl⟩ := Server.popPacket_some h; rfl
  | popBCPacket => obtain ⟨-, rfl⟩ := Server.popBCPacket_some h; rfl
  | _ => exact (step_frame h).que (by simp) (by simp) (by simp) (by simp)

/-- **Runs of the server are runs of the queues.** -/
theorem reach_que {P : Server → Event → Prop} {Q : SendQue → QueOp → Prop}
    (hPQ : ∀ t e, P t e → ∀ op ∈ queOp cfg t e, Q t.que op) (h : Reach (step cfg) P s s') :
    Reach (queSystem cfg.runtime) Q s.que s'.que := by
  refine h.project Server.que fun t e u hP hstep => ?_
  have hque := step_queOp hstep
  cases hop : queOp cfg t e with
  | none => exact Or.inl (by rw [hque, hop]; rfl)
  | some op => exact Or.inr ⟨op, hPQ t e hP op hop, by rw [hque, hop]; rfl⟩

/-- So the packets in the queues of a running server are well formed as well. -/
theorem queuesWellFormed_of_reach (hP : cfg.runtime.proto.Exact) {mem : ℕ → Mem} {n workers : ℕ}
    {P : Server → Event → Prop}
    (hfits : ∀ t e, P t e → ∀ op ∈ queOp cfg t e, Fits cfg.runtime t.que op)
    (h : Reach (step cfg) P (initServer mem n workers) s) :
    QueuesWellFormed cfg.runtime.proto s.que :=
  QueuesWellFormed.of_reach hP (reach_que hfits h)

end IocpDemo
