/-
**What `RecvLoginPacket` does** (`RecvLoginPacket`, `SendLoginedPlayerPackets`).

The handler enters the player into `ConnectedPlayers`, queues the login for broadcast, and then goes
through the map that it has just changed to tell the player about all others.  The map is unordered,
so that the packets about them are queued in any order.  The login is serialized once more for the
broadcast: a message that no longer fits a packet is not in the packet that is queued.

Main definitions:

* `IocpDemo.HasPlace` — a roster entry and a message have the same position and rotation;
* `IocpDemo.CarriesLogin`, `IocpDemo.TellsAbout` — the packet that is broadcast, and a packet that
  tells the player about another one;
* `IocpDemo.LoginPosted` — **the postcondition**.

Main results:

* `IocpDemo.lookup_emplaceLogin` — the map behind `emplace`;
* `IocpDemo.login_posted_iff` — **the handler meets its postcondition exactly for the logins that
  fit a packet**;
* `IocpDemo.oversized_login_not_carried` — a login that does not.
-/

import IocpDemo.RosterData

set_option relaxedAutoImplicit false
set_option autoImplicit false

namespace IocpDemo

open Bytes Wire

variable {R : Runtime} {q q' : SendQue} {data : List UInt8} {k : UInt32} {r : Roster}
  {login : PMovement}

/-! ### The map -/

/-- **`find` behind `emplace`**: the key of the login finds what it found before or, when it found
nothing, the login; the other keys find what they found before. -/
theorem lookup_emplaceLogin (login : PMovement) (r : Roster) (key : Int32) :
    (emplaceLogin login r).lookup key =
      if key = (idIndex login).toInt32 then some ((r.lookup key).getD (loginInfo login))
      else r.lookup key := by
  cases hfind : r.lookup (idIndex login).toInt32 with
  | some info =>
      rw [emplaceLogin_of_lookup_some hfind]
      split
      · next hkey => rw [hkey, hfind, Option.getD_some]
      · rfl
  | none =>
      rw [emplaceLogin_of_lookup_none hfind, List.lookup_append]
      split
      · next hkey => simp [hkey, hfind]
      · next hkey =>
          have hother : [((idIndex login).toInt32, loginInfo login)].lookup key = none :=
            List.lookup_eq_none_iff.2 (by simpa using hkey)
          rw [hother, Option.or_none]

/-! ### The postcondition -/

/-- The entry of the roster has the position and the rotation of the message, each component that of
the same name. -/
structure HasPlace (info : ClientInfo) (m : PMovement) : Prop where
  x : info.location.x = (m.loc.getD {}).x
  y : info.location.y = (m.loc.getD {}).y
  z : info.location.z = (m.loc.getD {}).z
  roll : info.rotation.roll = (m.rot.getD {}).roll
  pitch : info.rotation.pitch = (m.rot.getD {}).pitch
  yaw : info.rotation.yaw = (m.rot.getD {}).yaw

/-- A reliable `Login_C` packet with the excluded index `k`, whose payload is parsed to the login,
as `SerializePacket` was given it: an `Id` that is absent from the login may be present and empty.
-/
structure CarriesLogin (R : Runtime) (data : List UInt8) (k : UInt32) (p : PacketBuffer) :
    Prop where
  bIsReliable : p.bIsReliable = true
  packetID : p.header.packetID = EPacketType.loginC.code
  packetIndex : p.packetIndex.toNat = k.toNat
  message : R.proto.movement.parseFromArray p.payload =
    (serializeArg (R.argOrder .recvLoginPacket) (loginMessage R data), true)

/-- A `Login_C` packet that is addressed to `k` and tells about the player: it carries the index and
the place of the player, and no velocity. -/
structure TellsAbout (P : Protobuf) (k : UInt32) (player : Int32 × ClientInfo) (p : PacketBuffer) :
    Prop where
  packetID : p.header.packetID = EPacketType.loginC.code
  packetIndex : p.packetIndex.toNat = k.toNat
  parses : P.movement.Parses p.payload
  index : idIndex (P.movement.parseFromArray p.payload).1 = player.1.toUInt32
  place : HasPlace player.2 (P.movement.parseFromArray p.payload).1
  vel : (P.movement.parseFromArray p.payload).1.vel = none

/-- **What the handler leaves behind** of the state `q`, for a login with the index `k`. -/
structure LoginPosted (R : Runtime) (data : List UInt8) (k : UInt32) (q q' : SendQue) : Prop where
  /-- The other keys of the map are unchanged. -/
  others : ∀ key, key ≠ k.toInt32 →
    q'.connectedPlayers.lookup key = q.connectedPlayers.lookup key
  /-- A player who is there stays as is. -/
  kept : ∀ info, q.connectedPlayers.lookup k.toInt32 = some info →
    q'.connectedPlayers.lookup k.toInt32 = some info
  /-- A player who is absent is added with the place of the login. -/
  added : q.connectedPlayers.lookup k.toInt32 = none →
    ∃ info, q'.connectedPlayers.lookup k.toInt32 = some info ∧ HasPlace info (loginMessage R data)
  /-- No key occurs twice. -/
  keys : (q'.connectedPlayers.map Prod.fst).Nodup
  /-- One packet is queued for broadcast. -/
  broadCast : ∃ p, q'.ioSendBCPacketQue = q.ioSendBCPacketQue ++ [p] ∧ CarriesLogin R data k p
  /-- One packet is queued for each entry of the map under another key. -/
  unicast : ∃ players packets, q'.ioSendPacketQue = q.ioSendPacketQue ++ packets ∧
    players.Perm (q'.connectedPlayers.filter fun player => player.1 ≠ k.toInt32) ∧
    List.Forall₂ (TellsAbout R.proto k) players packets

/-! ### The packets -/

theorem hasPlace_loginInfo (login : PMovement) : HasPlace (loginInfo login) login :=
  ⟨rfl, rfl, rfl, rfl, rfl, rfl⟩

/-- **Each component goes to the field of its name**, in whichever order the setters are called. -/
theorem hasPlace_rosterMessage (player : Int32 × ClientInfo) :
    HasPlace player.2 (rosterMessage player) :=
  ⟨rfl, rfl, rfl, rfl, rfl, rfl⟩

/-- An index below `2 ^ 16` survives the conversion to `UINT16`. -/
theorem toNat_toUInt16_of_lt (hk : k.toNat < 65536) : k.toUInt16.toNat = k.toNat := by
  rw [UInt32.toNat_toUInt16]
  exact Nat.mod_eq_of_lt hk

theorem tellsAbout_rosterPacket {P : Protobuf} (hP : P.Lawful) (hk : k.toNat < 65536)
    (player : Int32 × ClientInfo) : TellsAbout P k player (rosterPacket P k.toInt32 player) := by
  have hparse := parse_rosterPacket hP k.toInt32 player
  refine ⟨?_, ?_, congrArg Prod.snd hparse, ?_, ?_, ?_⟩
  · rw [rosterPacket_eq]
    exact packetID_serializePacket P.movement _ .loginC _
  · rw [rosterPacket_eq, serializePacket_packetIndex, UInt32.toUInt32_toInt32]
    exact toNat_toUInt16_of_lt hk
  · rw [hparse, idIndex_rosterMessage]
  · rw [hparse]
    exact hasPlace_rosterMessage player
  · rw [hparse]
    rfl

/-- The message in the packet that is queued for broadcast, when it fits. -/
theorem parse_loginRelay (hP : R.proto.Lawful) (hparses : R.proto.movement.Parses data)
    (hlen : data.length ≤ 65535) (hfits : LoginFits R data) :
    R.proto.movement.parseFromArray (relayOf R data .recvLoginPacket).packet.payload =
      (serializeArg (R.argOrder .recvLoginPacket) (loginMessage R data), true) := by
  have hpayload := Relay.payload_packet (relayOf R data .recvLoginPacket) (hP.movement.exact _) hfits
  exact (congrArg R.proto.movement.parseFromArray hpayload).trans
    (hP.movement.roundTrips_serializeArg _ hparses hlen)

/-- The broadcast packet carries the login when the login fits. -/
theorem carriesLogin_relay (hP : R.proto.Lawful) (hparses : R.proto.movement.Parses data)
    (hlen : data.length ≤ 65535) (hindex : idIndex (loginMessage R data) = k)
    (hk : k.toNat < 65536) (hfits : LoginFits R data) :
    CarriesLogin R data k (relayOf R data .recvLoginPacket).packet := by
  refine ⟨rfl, packetID_relay R .recvLoginPacket data, ?_, parse_loginRelay hP hparses hlen hfits⟩
  have hid : (relayOf R data .recvLoginPacket).idIndex = k :=
    (idIndex_relayOf R data .recvLoginPacket).trans hindex
  rw [Relay.packetIndex_packet, hid]
  exact toNat_toUInt16_of_lt hk

/-- A message of `n` bytes is not parsed from fewer bytes, so a login that is carried fits. -/
theorem loginFits_of_carriesLogin (hP : R.proto.Lawful) {p : PacketBuffer}
    (h : CarriesLogin R data k p) : LoginFits R data := by
  have hlt := p.bufferSize.toNat_lt
  have hpayload : p.payload.length = p.bufferSize.toNat - sizeofPacketHeader := by
    rw [PacketBuffer.payload, List.length_drop, PacketBuffer.length_bytes]
  have hfour : sizeofPacketHeader = 4 := rfl
  have hle := hP.movement.byteSizeLong_le p.payload (by omega) (congrArg Prod.snd h.message)
  rw [h.message] at hle
  have hmax : maxMessage = 65531 := rfl
  exact Nat.le_trans hle (by omega)

/-! ### The result -/

/-- What the handler stores and queues. -/
theorem recvLoginPacket_queues (R : Runtime) (data : List UInt8) (q : SendQue) :
    recvLoginPacket R data q =
      { connectedPlayers := emplaceLogin (loginMessage R data) q.connectedPlayers
        ioSendPacketQue := q.ioSendPacketQue ++ loginPackets R data q.connectedPlayers
        ioSendBCPacketQue :=
          q.ioSendBCPacketQue ++ [(relayOf R data .recvLoginPacket).packet] } := by
  rw [relayOf, Relay.packet_ofData]
  exact recvLoginPacket_eq R data q

/-- The packets about the other players, in the order in which the map is iterated. -/
theorem forall₂_loginPackets (hP : R.proto.Lawful) (hindex : idIndex (loginMessage R data) = k)
    (hk : k.toNat < 65536) (roster : Roster) :
    (loginPlayers R data roster).Perm ((emplaceLogin (loginMessage R data) roster).filter
        fun player => player.1 ≠ k.toInt32) ∧
      List.Forall₂ (TellsAbout R.proto k) (loginPlayers R data roster)
        (loginPackets R data roster) := by
  constructor
  · rw [loginPlayers, hindex]
    exact (R.iteration_perm _).filter _
  · rw [loginPackets_eq, hindex, List.forall₂_map_right_iff, List.forall₂_same]
    exact fun player _ => tellsAbout_rosterPacket hP hk player

/-- **The handler meets its postcondition exactly for the logins that fit a packet.**  For all
contents of the map, in whatever order it is iterated, all contents of the queues, and every payload
that is parsed to a login with an index below `2 ^ 16`, the handler leaves behind what it should if
and only if the message that it serializes has at most 65531 bytes. -/
theorem login_posted_iff (hP : R.proto.Lawful) (q : SendQue)
    (hkeys : (q.connectedPlayers.map Prod.fst).Nodup) (hparses : R.proto.movement.Parses data)
    (hlen : data.length ≤ 65535) (hindex : idIndex (loginMessage R data) = k)
    (hk : k.toNat < 65536) :
    LoginPosted R data k q (recvLoginPacket R data q) ↔ LoginFits R data := by
  have hlookup := lookup_emplaceLogin (loginMessage R data) q.connectedPlayers
  rw [hindex] at hlookup
  rw [recvLoginPacket_queues]
  constructor
  · intro h
    obtain ⟨p, hque, hcarries⟩ := h.broadCast
    obtain rfl : (relayOf R data .recvLoginPacket).packet = p := by simpa using hque
    exact loginFits_of_carriesLogin hP hcarries
  · intro hfits
    obtain ⟨hperm, htells⟩ := forall₂_loginPackets hP hindex hk q.connectedPlayers
    refine ⟨?_, ?_, ?_, nodup_emplaceLogin hkeys, ?_, ?_⟩
    · intro key hkey
      rw [hlookup, if_neg hkey]
    · intro info hinfo
      rw [hlookup, if_pos rfl, hinfo, Option.getD_some]
    · intro hnone
      refine ⟨loginInfo (loginMessage R data), ?_, hasPlace_loginInfo _⟩
      rw [hlookup, if_pos rfl, hnone, Option.getD_none]
    · exact ⟨_, rfl, carriesLogin_relay hP hparses hlen hindex hk hfits⟩
    · exact ⟨_, _, rfl, hperm, htells⟩

/-- Player 1 logs in at the position `(1, 0, 0)`, while the players 0 and -1 are in the map and a
packet waits in each queue. -/
theorem third_login_posted :
    LoginPosted wireRuntime [10, 2, 8, 1, 18, 5, 13, 0, 0, 128, 63] 1
      { connectedPlayers := [(0, ⟨{ x := 5 }, { yaw := 7 }⟩), (-1, ⟨{}, {}⟩)]
        ioSendPacketQue := [connPacket wireProtobuf 1]
        ioSendBCPacketQue := [connPacket wireProtobuf 0] }
      (recvLoginPacket wireRuntime [10, 2, 8, 1, 18, 5, 13, 0, 0, 128, 63]
        { connectedPlayers := [(0, ⟨{ x := 5 }, { yaw := 7 }⟩), (-1, ⟨{}, {}⟩)]
          ioSendPacketQue := [connPacket wireProtobuf 1]
          ioSendBCPacketQue := [connPacket wireProtobuf 0] }) :=
  (login_posted_iff lawful_wireProtobuf _ (by decide) (by decide +kernel) (by decide)
    (by decide +kernel) (by decide)).2 (by decide +kernel)

/-- Whatever the unknown field of an oversized login holds, the packet that is queued for broadcast
has the size zero. -/
theorem not_posted_oversized {rest : List UInt8} (hrest : rest.length = 65524) :
    wireProtobuf.movement.Parses (oversizedHead ++ rest) ∧
      idIndex (loginMessage wireRuntime (oversizedHead ++ rest)) = 1 ∧
      (relayOf wireRuntime (oversizedHead ++ rest) .recvLoginPacket).packet.bufferSize = 0 ∧
      ¬ LoginPosted wireRuntime (oversizedHead ++ rest) 1 {}
        (recvLoginPacket wireRuntime (oversizedHead ++ rest) {}) := by
  have hparse := parse_oversized hrest
  have hlogin : loginMessage wireRuntime (oversizedHead ++ rest) = _ := congrArg Prod.fst hparse
  refine ⟨congrArg Prod.snd hparse, ?_, bufferSize_oversized hrest, ?_⟩
  · rw [hlogin]
    rfl
  · intro h
    rw [recvLoginPacket_queues] at h
    obtain ⟨p, -, hcarries⟩ := h.broadCast
    have hfits : LoginFits wireRuntime (oversizedHead ++ rest) :=
      loginFits_of_carriesLogin lawful_wireProtobuf hcarries
    have hsize : (relayOf wireRuntime (oversizedHead ++ rest) .recvLoginPacket).codec.byteSizeLong
        (relayOf wireRuntime (oversizedHead ++ rest) .recvLoginPacket).message = 65532 :=
      byteSizeLong_oversized hrest
    rw [LoginFits, hsize] at hfits
    exact absurd hfits (by decide)

/-- **An oversized login is not carried**: a payload of 65532 bytes is parsed to a login of player 1
with an unknown field, and the packet that is queued for broadcast has the size zero. -/
theorem oversized_login_not_carried :
    wireProtobuf.movement.Parses (oversizedHead ++ List.replicate 65524 0) ∧
      idIndex (loginMessage wireRuntime (oversizedHead ++ List.replicate 65524 0)) = 1 ∧
      (relayOf wireRuntime (oversizedHead ++ List.replicate 65524 0)
        .recvLoginPacket).packet.bufferSize = 0 ∧
      ¬ LoginPosted wireRuntime (oversizedHead ++ List.replicate 65524 0) 1 {}
        (recvLoginPacket wireRuntime (oversizedHead ++ List.replicate 65524 0) {}) :=
  not_posted_oversized List.length_replicate

end IocpDemo
