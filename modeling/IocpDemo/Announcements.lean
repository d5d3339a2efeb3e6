/-
**What a client reads in a packet.**

A client decodes a packet by the type in its header, parses the payload as the message of that type,
and takes the player the packet is about from the `Id` in the message.  For the packets the server
queues this gives back what went into them.

Main definitions:

* `IocpDemo.PacketAbout` — a packet of a type about a player;
* `IocpDemo.Announces`, `IocpDemo.StateOf` — a `Login_C` packet, and one of the state packets, about
  a player;
* `IocpDemo.LoginFits` — the message of a login fits a packet;
* `IocpDemo.handledFrame` — the frame a step hands to a handler.

Main results:

* `IocpDemo.announces_relay_iff` — **a login is relayed as an announcement of the player it names**;
* `IocpDemo.announces_rosterPacket_iff` — a roster packet announces the player it was made of;
* `IocpDemo.deSerialize_ioSendBCPacketQue` — what a step appends to the broadcast queue.
-/

import IocpDemo.QueuedPackets

set_option relaxedAutoImplicit false
set_option autoImplicit false

namespace IocpDemo

open Bytes Transition

variable {cfg : Config} {s s' : Server} {R : Runtime} {P : Protobuf} {p : PacketBuffer}
  {id : UInt32}

/-! ### Packets about players -/

/-- The packet is sent with a header of the type `t`, and its payload is a message with the
`Id.Index` `id`. -/
structure PacketAbout {M : Type} [HasId M] (c : Codec M) (t : EPacketType) (p : PacketBuffer)
    (id : UInt32) : Prop where
  size_pos : 0 < p.bufferSize
  packetID : p.header.packetID = t.code
  parses : c.Parses p.payload
  idIndex : idIndex (c.parseFromArray p.payload).1 = id

instance {M : Type} [HasId M] (c : Codec M) (t : EPacketType) (p : PacketBuffer) (id : UInt32) :
    Decidable (PacketAbout c t p id) :=
  decidable_of_iff (0 < p.bufferSize ∧ p.header.packetID = t.code ∧ c.Parses p.payload ∧
      IocpDemo.idIndex (c.parseFromArray p.payload).1 = id)
    ⟨fun ⟨h₁, h₂, h₃, h₄⟩ => ⟨h₁, h₂, h₃, h₄⟩, fun ⟨h₁, h₂, h₃, h₄⟩ => ⟨h₁, h₂, h₃, h₄⟩⟩

/-- A `Login_C` packet about a player. -/
def Announces (P : Protobuf) (p : PacketBuffer) (id : UInt32) : Prop :=
  PacketAbout P.movement .loginC p id

/-- A `FireEvent_C`, `Movement_C`, `AnimState_C` or `WeaponState_C` packet about a player. -/
def StateOf (P : Protobuf) (p : PacketBuffer) (id : UInt32) : Prop :=
  PacketAbout P.fireEvent .fireEventC p id ∨ PacketAbout P.movement .movementC p id ∨
    PacketAbout P.animState .animStateC p id ∨ PacketAbout P.weapon .weaponStateC p id

instance (P : Protobuf) (p : PacketBuffer) (id : UInt32) : Decidable (Announces P p id) :=
  inferInstanceAs (Decidable (PacketAbout _ _ _ _))

instance (P : Protobuf) (p : PacketBuffer) (id : UInt32) : Decidable (StateOf P p id) :=
  inferInstanceAs (Decidable (_ ∨ _ ∨ _ ∨ _))

theorem PacketAbout.bufferSize_ne {M : Type} [HasId M] {c : Codec M} {t : EPacketType}
    (h : PacketAbout c t p id) : p.bufferSize ≠ 0 :=
  UInt16.pos_iff_ne_zero.1 h.size_pos

theorem packetID_serializePacket {M : Type} (c : Codec M) (m : M) (t : EPacketType)
    (clientIndex : UInt16) :
    (serializePacket c m t.toUInt8 clientIndex).header.packetID = t.code := by
  rw [header_serializePacket c m]
  exact t.toUInt16_toUInt8

/-- Whether a packet is reliable is not part of what it says. -/
theorem packetAbout_reliable_iff {M : Type} [HasId M] {c : Codec M} {t : EPacketType}
    (reliable : Bool) :
    PacketAbout c t { p with bIsReliable := reliable } id ↔ PacketAbout c t p id :=
  ⟨fun ⟨h₁, h₂, h₃, h₄⟩ => ⟨h₁, h₂, h₃, h₄⟩, fun ⟨h₁, h₂, h₃, h₄⟩ => ⟨h₁, h₂, h₃, h₄⟩⟩

/-- What a serialized message is about: the message is parsed back from the payload. -/
theorem packetAbout_serializePacket_iff {M : Type} [HasId M] {c : Codec M} {m : M}
    (hexact : c.Exact) (hm : c.byteSizeLong m ≤ maxMessage) (hround : c.RoundTrips m)
    (t : EPacketType) (clientIndex : UInt16) :
    PacketAbout c t (serializePacket c m t.toUInt8 clientIndex) id ↔ id = idIndex m := by
  have hparse := (congrArg c.parseFromArray
    (payload_serializePacket (hexact m) hm t.toUInt8 clientIndex)).trans hround
  have hpos : 0 < (serializePacket c m t.toUInt8 clientIndex).bufferSize := by
    rw [serializePacket_bufferSize, UInt16.lt_iff_toNat_lt, toNat_packetSizeOf hm]
    exact Nat.succ_pos _
  constructor
  · rintro ⟨-, -, -, rfl⟩
    exact congrArg (fun r => idIndex r.1) hparse
  · rintro rfl
    exact ⟨hpos, packetID_serializePacket c m t clientIndex, congrArg Prod.snd hparse,
      congrArg (fun r => idIndex r.1) hparse⟩

/-- A packet is about nobody under a type that is not its own. -/
theorem not_packetAbout_of_packetID {N : Type} [HasId N] (c : Codec N) {t t' : EPacketType}
    (hid : p.header.packetID = t.code) (ht : t ≠ t') : ¬ PacketAbout c t' p id := by
  rintro ⟨-, hid', -, -⟩
  exact ht (EPacketType.code_injective (hid.symm.trans hid'))

/-! ### The packets the server makes -/

theorem not_announces_connPacket (index : UInt16) :
    ¬ Announces P (connPacket P index) id := by
  rw [connPacket_eq]
  exact not_packetAbout_of_packetID _
    (packetID_serializePacket P.clientId (connMessage index) .connC index) (by decide)

/-- **A roster packet announces the player it was made of.** -/
theorem announces_rosterPacket_iff (hP : P.Lawful) (target : Int32)
    (player : Int32 × ClientInfo) :
    Announces P (rosterPacket P target player) id ↔ id = player.1.toUInt32 := by
  rw [rosterPacket_eq]
  exact packetAbout_serializePacket_iff hP.movement.exact (hP.rosterMessage_le player)
    (hP.roundTrips_rosterMessage player) .loginC _

/-- The message that `RecvLoginPacket` serializes fits a packet. -/
def LoginFits (R : Runtime) (data : List UInt8) : Prop :=
  (relayOf R data .recvLoginPacket).codec.byteSizeLong
    (relayOf R data .recvLoginPacket).message ≤ maxMessage

instance (R : Runtime) (data : List UInt8) : Decidable (LoginFits R data) :=
  inferInstanceAs (Decidable (_ ≤ _))

section OfData

variable {M : Type} [HasId M] {c : Codec M} {data : List UInt8}

theorem packetAbout_ofData_iff (hc : c.Lawful) (o : ArgOrder) (t : EPacketType) (reliable : Bool)
    (hparses : c.Parses data) (hlen : data.length ≤ 65535)
    (hfits : c.byteSizeLong (serializeArg o (c.parseFromArray data).1) ≤ maxMessage) :
    PacketAbout c t (Relay.ofData c o t reliable data).packet id ↔
      id = idIndex (c.parseFromArray data).1 := by
  have hround := hc.roundTrips_serializeArg o hparses hlen
  rw [Relay.packet_ofData, packetAbout_reliable_iff,
    packetAbout_serializePacket_iff hc.exact hfits hround, idIndex_serializeArg]

theorem packetID_ofData (c : Codec M) (o : ArgOrder) (t : EPacketType) (reliable : Bool)
    (data : List UInt8) : (Relay.ofData c o t reliable data).packet.header.packetID = t.code := by
  rw [Relay.packet_ofData]
  exact packetID_serializePacket c (serializeArg o (c.parseFromArray data).1) t
    (idIndex (c.parseFromArray data).1).toUInt16

end OfData

section Relay

variable {f : RecvFunc} {data : List UInt8}

/-- Each handler relays under its own type. -/
theorem packetID_relay (R : Runtime) (f : RecvFunc) (data : List UInt8) :
    (relayOf R data f).packet.header.packetID = f.broadCastType.code := by
  cases f <;> exact packetID_ofData _ _ _ _ _

theorem not_packetAbout_relay {N : Type} [HasId N] (R : Runtime) (c : Codec N) {t : EPacketType}
    (data : List UInt8) (id : UInt32) (ht : f.broadCastType ≠ t) :
    ¬ PacketAbout c t (relayOf R data f).packet id :=
  not_packetAbout_of_packetID c (packetID_relay R f data) ht

/-- **A login is relayed as an announcement** of the player it names, and nothing else is. -/
theorem announces_relay_iff (hR : R.proto.Lawful) (hlen : data.length ≤ 65535)
    (hlogin : f = .recvLoginPacket → R.proto.movement.Parses data ∧ LoginFits R data) :
    Announces R.proto (relayOf R data f).packet id ↔
      f = .recvLoginPacket ∧ id = frameIdIndex R data f := by
  cases f with
  | recvLoginPacket =>
      obtain ⟨hparses, hfits⟩ := hlogin rfl
      simp only [true_and]
      exact packetAbout_ofData_iff hR.movement _ _ _ hparses hlen hfits
  | _ => simpa [Announces] using not_packetAbout_relay R R.proto.movement data id (by decide)

/-- A login is nobody's state. -/
theorem not_stateOf_of_packetID (hid : p.header.packetID = EPacketType.loginC.code ∨
    p.header.packetID = EPacketType.connC.code) : ¬ StateOf P p id := by
  rintro (h | h | h | h) <;> rcases hid with hid | hid <;>
    exact not_packetAbout_of_packetID _ hid (by decide) h

end Relay

/-! ### The frames -/

/-- The frame that a step hands to a handler: its completion, the handler, and its payload. -/
def handledFrame (cfg : Config) (s : Server) : Event → Option (Completion × RecvFunc × List UInt8)
  | .deSerialize w =>
      match s.workThreads[w]? with
      | some (.received c) =>
          s.contexts[c.key]?.bind fun ctx =>
            (dispatchOf cfg.listenSocket ctx).bind fun d =>
              (findFunc d.1).map fun f => (c, f, payloadOf ctx d.2)
      | _ => none
  | _ => none

/-- The size of a payload is a `UINT16`. -/
theorem length_of_handledFrame {e : Event} {c : Completion} {f : RecvFunc} {data : List UInt8}
    (h : handledFrame cfg s e = some (c, f, data)) : data.length ≤ 65535 := by
  cases e with
  | deSerialize w =>
      simp only [handledFrame] at h
      split at h
      · obtain ⟨ctx, -, h⟩ := Option.bind_eq_some_iff.1 h
        obtain ⟨⟨packetID, dataSize⟩, -, h⟩ := Option.bind_eq_some_iff.1 h
        obtain ⟨f', -, h⟩ := Option.map_eq_some_iff.1 h
        obtain ⟨-, -, rfl⟩ : _ ∧ f' = f ∧ payloadOf ctx dataSize = data := by simpa using h
        have hlt := dataSize.toNat_lt
        rw [payloadOf, Mem.length_read]
        omega
      · cases h
  | _ => cases h

theorem handledFrame_of_loginFrame {e : Event} {c : Completion} {data : List UInt8}
    (h : loginFrame cfg s e = some (c, data)) :
    handledFrame cfg s e = some (c, .recvLoginPacket, data) := by
  cases e with
  | deSerialize w =>
      simp only [loginFrame] at h
      split at h
      · rename_i c' hpc
        split at h
        · rename_i ctx hctx
          split at h
          · rename_i packetID dataSize hd
            split at h
            · rename_i hf
              obtain ⟨rfl, rfl⟩ := Prod.mk.inj (Option.some.inj h)
              simp [handledFrame, hpc, hctx, hd, hf]
            · cases h
          · cases h
        · cases h
      · cases h
  | _ => cases h

theorem loginFrame_of_handledFrame {e : Event} {c : Completion} {data : List UInt8}
    (h : handledFrame cfg s e = some (c, .recvLoginPacket, data)) :
    loginFrame cfg s e = some (c, data) := by
  cases e with
  | deSerialize w =>
      simp only [handledFrame] at h
      split at h
      · rename_i c' hpc
        obtain ⟨ctx, hctx, h⟩ := Option.bind_eq_some_iff.1 h
        obtain ⟨⟨packetID, dataSize⟩, hd, h⟩ := Option.bind_eq_some_iff.1 h
        obtain ⟨f, hf, h⟩ := Option.map_eq_some_iff.1 h
        obtain ⟨rfl, rfl, rfl⟩ : c' = c ∧ f = .recvLoginPacket ∧ payloadOf ctx dataSize = data := by
          simpa using h
        simp [loginFrame, hpc, hctx, hd, hf]
      · cases h
  | _ => cases h

/-- **What a step appends to the broadcast queue** is the relay of the frame it handles. -/
theorem deSerialize_ioSendBCPacketQue {w : ℕ} (h : s.deSerialize cfg w = some s') :
    s'.que.ioSendBCPacketQue = s.que.ioSendBCPacketQue ++
      (handledFrame cfg s (.deSerialize w)).toList.map fun frame =>
        (relayOf cfg.runtime frame.2.2 frame.2.1).packet := by
  obtain ⟨c, ctx, hpc, hctx, ⟨hd, rfl⟩ | ⟨packetID, dataSize, hd, rfl⟩⟩ :=
    Server.deSerialize_some h
  · simp [handledFrame, hpc, hctx, hd, Server.setWorker]
  · have hque := deSerializePacket_ioSendBCPacketQue cfg.runtime packetID (payloadOf ctx dataSize)
      s.que
    cases hf : findFunc packetID with
    | none => simpa [handledFrame, hpc, hctx, hd, hf, Server.dispatched] using hque
    | some f => simpa [handledFrame, hpc, hctx, hd, hf, Server.dispatched] using hque

end IocpDemo
