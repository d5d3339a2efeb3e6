/-
**What the roster says about a player** (`RecvLoginPacket`, `SendLoginedPlayerPackets`).

A login is stored under its index when the index is not in `ConnectedPlayers`, and nothing is
removed from there.  The position passes through the positional constructors of `ClientInfo`,
`FVector` and `FRotator` and comes back through the setters in another order.  So a packet of the
roster carries the position of the first login that was handled for the index, whoever has used it
since.  This is the position of the last login as long as all logins for an index say the same; the
initial position of a client that takes the place of one that has left is not stored.

Main definitions:

* `IocpDemo.loginSystem` — the server with a log of the logins it handles;
* `IocpDemo.firstLogin`, `IocpDemo.lastLogin` — the first and the last login for an index;
* `IocpDemo.SamePlace` — two messages carry the same position and rotation;
* `IocpDemo.RosterData` — the invariant;
* `IocpDemo.KeepsPlace` — the condition on a step: a login for an index of the roster says what is
  stored there.

Main results:

* `IocpDemo.roster_carries_first_login` — **a packet of the roster carries the place of the first
  login for the index**;
* `IocpDemo.roster_data_is_current` — **under the condition it is the place of the last one**;
* `IocpDemo.roster_data_is_stale` — a run in which it is not.
-/

import IocpDemo.Deliveries
import IocpDemo.FanOut

set_option relaxedAutoImplicit false
set_option autoImplicit false

namespace IocpDemo

open Bytes Transition Wire

variable {cfg : Config} {s s' : Server} {n : ℕ} {e : Event} {log : List PMovement} {id : UInt32}

/-! ### The logins -/

/-- The logins that a step handles. -/
def handledLogins (cfg : Config) (s : Server) (e : Event) : List PMovement :=
  (loginFrame cfg s e).toList.map fun login => loginMessage cfg.runtime login.2

/-- The server with a log of the logins. -/
abbrev loginSystem (cfg : Config) : Server × List PMovement → Event →
    Option (Server × List PMovement) := logged (step cfg) (handledLogins cfg)

/-- The first login for the index. -/
def firstLogin (log : List PMovement) (id : UInt32) : Option PMovement :=
  log.find? fun login => idIndex login = id

/-- The most recent login for the index. -/
def lastLogin (log : List PMovement) (id : UInt32) : Option PMovement := firstLogin log.reverse id

/-- All logins are parsed. -/
def LoginsParse (cfg : Config) (s : Server) (e : Event) : Prop :=
  ∀ login ∈ loginFrame cfg s e, cfg.runtime.proto.movement.Parses login.2

instance (cfg : Config) (s : Server) (e : Event) : Decidable (LoginsParse cfg s e) :=
  inferInstanceAs (Decidable (∀ login ∈ loginFrame cfg s e, _))

/-- The first login for an index is one of the logins for it. -/
theorem firstLogin_some {login : PMovement} (h : firstLogin log id = some login) :
    login ∈ log ∧ idIndex login = id := by
  rw [firstLogin] at h
  exact ⟨List.mem_of_find?_eq_some h, by simpa using List.find?_some h⟩

theorem firstLogin_append {login : PMovement} (h : firstLogin log id = some login)
    (l : List PMovement) : firstLogin (log ++ l) id = some login := by
  rw [firstLogin, List.find?_append, ← firstLogin, h]
  rfl

/-- Two messages carry the same position and the same rotation. -/
structure SamePlace (m m' : PMovement) : Prop where
  x : (m.loc.getD {}).x = (m'.loc.getD {}).x
  y : (m.loc.getD {}).y = (m'.loc.getD {}).y
  z : (m.loc.getD {}).z = (m'.loc.getD {}).z
  roll : (m.rot.getD {}).roll = (m'.rot.getD {}).roll
  pitch : (m.rot.getD {}).pitch = (m'.rot.getD {}).pitch
  yaw : (m.rot.getD {}).yaw = (m'.rot.getD {}).yaw

theorem SamePlace.trans {m m' m'' : PMovement} (h : SamePlace m m') (h' : SamePlace m' m'') :
    SamePlace m m'' :=
  ⟨h.x.trans h'.x, h.y.trans h'.y, h.z.trans h'.z, h.roll.trans h'.roll, h.pitch.trans h'.pitch,
    h.yaw.trans h'.yaw⟩

/-- Two logins that are stored alike carry the same place. -/
theorem samePlace_of_loginInfo_eq {m m' : PMovement} (h : loginInfo m = loginInfo m') :
    SamePlace m m' := by
  simp only [loginInfo, ClientInfo.mk.injEq, FVector.mk.injEq, FRotator.mk.injEq] at h
  obtain ⟨⟨hx, hy, hz⟩, hroll, hpitch, hyaw⟩ := h
  exact ⟨hx, hy, hz, hroll, hpitch, hyaw⟩

/-- **Each component comes back in its own field.** -/
theorem samePlace_rosterMessage (key : Int32) (login : PMovement) :
    SamePlace (rosterMessage (key, loginInfo login)) login :=
  ⟨rfl, rfl, rfl, rfl, rfl, rfl⟩

/-- The message that a client reads in a packet of the roster. -/
theorem parse_rosterPacket {P : Protobuf} (hP : P.Lawful) (target : Int32)
    (player : Int32 × ClientInfo) :
    P.movement.parseFromArray (rosterPacket P target player).payload =
      (rosterMessage player, true) := by
  rw [rosterPacket_eq, payload_serializePacket (hP.movement.exact _) (hP.rosterMessage_le player)]
  exact hP.roundTrips_rosterMessage player

/-! ### The invariant -/

/-- The packet carries the place of the first login for the index. -/
def CarriesFirst (P : Protobuf) (log : List PMovement) (p : PacketBuffer) (id : UInt32) : Prop :=
  ∃ login, firstLogin log id = some login ∧
    SamePlace (P.movement.parseFromArray p.payload).1 login

/-- **The roster holds the first login for each index.** -/
structure RosterData (cfg : Config) (s : Server) (log : List PMovement) : Prop where
  roster : ∀ player ∈ s.que.connectedPlayers, ∃ login,
    firstLogin log player.1.toUInt32 = some login ∧ player.2 = loginInfo login
  logins : ∀ login ∈ log, ∃ player ∈ s.que.connectedPlayers, player.1 = (idIndex login).toInt32
  queued : ∀ p ∈ s.que.ioSendPacketQue, ∀ id, Announces cfg.runtime.proto p id →
    CarriesFirst cfg.runtime.proto log p id

namespace RosterData

theorem init (mem : ℕ → Mem) (n workers : ℕ) : RosterData cfg (initServer mem n workers) [] where
  roster player h := by cases h
  logins login h := by cases h
  queued p h := by cases h

/-- What `emplace` leaves in the roster. -/
theorem roster_emplaceLogin (hs : RosterData cfg s log) (login : PMovement) :
    ∀ player ∈ emplaceLogin login s.que.connectedPlayers, ∃ first,
      firstLogin (log ++ [login]) player.1.toUInt32 = some first ∧ player.2 = loginInfo first := by
  have hold : ∀ player ∈ s.que.connectedPlayers, ∃ first,
      firstLogin (log ++ [login]) player.1.toUInt32 = some first ∧
        player.2 = loginInfo first := by
    intro player hplayer
    obtain ⟨first, hfirst, hinfo⟩ := hs.roster player hplayer
    exact ⟨first, firstLogin_append hfirst _, hinfo⟩
  intro player hplayer
  cases hfind : s.que.connectedPlayers.lookup (idIndex login).toInt32 with
  | some info =>
      rw [emplaceLogin_of_lookup_some hfind] at hplayer
      exact hold player hplayer
  | none =>
      rw [emplaceLogin_of_lookup_none hfind] at hplayer
      rcases List.mem_append.1 hplayer with hmem | hnew
      · exact hold player hmem
      · -- the index is new, so no login for it has been handled before
        obtain rfl := List.mem_singleton.1 hnew
        refine ⟨login, ?_, rfl⟩
        have hnone : log.find? (fun m => idIndex m = idIndex login) = none := by
          refine List.find?_eq_none.2 fun m hm heq => ?_
          obtain ⟨other, hother, hkey⟩ := hs.logins m hm
          have hne := List.lookup_eq_none_iff.1 hfind other hother
          rw [hkey, of_decide_eq_true heq] at hne
          simp at hne
        simp only [firstLogin, UInt32.toUInt32_toInt32]
        rw [List.find?_append, hnone]
        simp

theorem logins_emplaceLogin (hs : RosterData cfg s log) (login : PMovement) :
    ∀ m ∈ log ++ [login], ∃ player ∈ emplaceLogin login s.que.connectedPlayers,
      player.1 = (idIndex m).toInt32 := by
  intro m hm
  rcases List.mem_append.1 hm with hm | hm
  · obtain ⟨player, hplayer, hkey⟩ := hs.logins m hm
    exact ⟨player, mem_emplaceLogin_of_mem hplayer, hkey⟩
  · obtain rfl := List.mem_singleton.1 hm
    exact exists_mem_emplaceLogin m s.que.connectedPlayers

/-- The packets that a login queues carry what is in the roster. -/
theorem loginPackets_carry (hs : RosterData cfg s log) (hR : cfg.runtime.proto.Lawful)
    {data : List UInt8} {p : PacketBuffer}
    (hp : p ∈ loginPackets cfg.runtime data s.que.connectedPlayers)
    (hann : Announces cfg.runtime.proto p id) :
    CarriesFirst cfg.runtime.proto (log ++ [loginMessage cfg.runtime data]) p id := by
  obtain ⟨player, hplayer, rfl⟩ := List.mem_map.1 hp
  obtain rfl := (announces_rosterPacket_iff hR _ player).1 hann
  -- the packet is made of an entry of the roster behind the login
  have hmem := (cfg.runtime.iteration_perm _).mem_iff.1 (List.mem_of_mem_filter hplayer)
  obtain ⟨first, hfirst, hinfo⟩ :=
    hs.roster_emplaceLogin (loginMessage cfg.runtime data) player hmem
  refine ⟨first, hfirst, ?_⟩
  obtain ⟨key, info⟩ := player
  obtain rfl : info = loginInfo first := hinfo
  rw [parse_rosterPacket hR]
  exact samePlace_rosterMessage key first

theorem queued_step (hs : RosterData cfg s log) (hR : cfg.runtime.proto.Lawful)
    (h : IocpDemo.step cfg s e = some s') {p : PacketBuffer} (hp : p ∈ s'.que.ioSendPacketQue)
    (hann : Announces cfg.runtime.proto p id) :
    CarriesFirst cfg.runtime.proto (log ++ handledLogins cfg s e) p id := by
  have hold : p ∈ s.que.ioSendPacketQue →
      CarriesFirst cfg.runtime.proto (log ++ handledLogins cfg s e) p id := by
    intro hmem
    obtain ⟨first, hfirst, hplace⟩ := hs.queued p hmem id hann
    exact ⟨first, firstLogin_append hfirst _, hplace⟩
  cases step_que h with
  | same hque _ => exact hold (hque ▸ hp)
  | greeted _ _ hque _ =>
      rw [hque] at hp
      rcases List.mem_append.1 hp with hp | hp
      · exact hold hp
      · obtain rfl := List.mem_singleton.1 hp
        exact absurd hann (not_announces_connPacket _)
  | @login c data hlogin hque _ =>
      rw [hque] at hp
      rcases List.mem_append.1 hp with hp | hp
      · exact hold hp
      · have hlog : handledLogins cfg s e = [loginMessage cfg.runtime data] := by
          simp [handledLogins, hlogin]
        rw [hlog]
        exact hs.loginPackets_carry hR hp hann
  | popped hque _ => exact hold (List.mem_of_mem_tail (hque ▸ hp))

/-- **Every step keeps the invariant.** -/
theorem step (hs : RosterData cfg s log) (hR : cfg.runtime.proto.Lawful)
    (h : IocpDemo.step cfg s e = some s') :
    RosterData cfg s' (log ++ handledLogins cfg s e) := by
  have hqueued : ∀ p ∈ s'.que.ioSendPacketQue, ∀ id, Announces cfg.runtime.proto p id →
      CarriesFirst cfg.runtime.proto (log ++ handledLogins cfg s e) p id :=
    fun p hp id hann => hs.queued_step hR h hp hann
  rcases step_roster h with ⟨hlogin, hroster, -⟩ | ⟨c, data, hlogin, hroster, -⟩
  · have hlog : handledLogins cfg s e = [] := by simp [handledLogins, hlogin]
    rw [hlog, List.append_nil] at hqueued ⊢
    exact ⟨hroster ▸ hs.roster, hroster ▸ hs.logins, hqueued⟩
  · have hlog : handledLogins cfg s e = [loginMessage cfg.runtime data] := by
      simp [handledLogins, hlogin]
    rw [hlog] at hqueued ⊢
    exact ⟨hroster ▸ hs.roster_emplaceLogin _, hroster ▸ hs.logins_emplaceLogin _, hqueued⟩

theorem of_reach (hR : cfg.runtime.proto.Lawful) {P : Server × List PMovement → Event → Prop}
    {mem : ℕ → Mem} {workers : ℕ}
    (h : Reach (loginSystem cfg) P (initServer mem n workers, []) (s, log)) :
    RosterData cfg s log :=
  h.logged_invariant (I := RosterData cfg) (init mem n workers) fun _ _ _ _ hx _ hstep =>
    hx.step hR hstep

end RosterData

/-! ### The condition -/

/-- A login for an index that is in the roster carries the place that is stored there. -/
def KeepsPlace (cfg : Config) (s : Server) (e : Event) : Prop :=
  ∀ login ∈ loginFrame cfg s e, ∀ player ∈ s.que.connectedPlayers,
    player.1 = (idIndex (loginMessage cfg.runtime login.2)).toInt32 →
      player.2 = loginInfo (loginMessage cfg.runtime login.2)

instance (cfg : Config) (s : Server) (e : Event) : Decidable (KeepsPlace cfg s e) :=
  inferInstanceAs (Decidable (∀ login ∈ loginFrame cfg s e, _))

/-- Every login that has been handled is stored as it is. -/
def Stored (s : Server) (log : List PMovement) : Prop :=
  ∀ login ∈ log, ∀ player ∈ s.que.connectedPlayers, player.1 = (idIndex login).toInt32 →
    player.2 = loginInfo login

/-- An index comes into the roster with the first login for it; a later one says the same. -/
theorem Stored.step (hs : Stored s log) (hd : RosterData cfg s log)
    (h : IocpDemo.step cfg s e = some s') (hP : KeepsPlace cfg s e) :
    Stored s' (log ++ handledLogins cfg s e) := by
  rcases step_roster h with ⟨hlogin, hroster, -⟩ | ⟨c, data, hlogin, hroster, -⟩
  · have hlog : handledLogins cfg s e = [] := by simp [handledLogins, hlogin]
    rw [hlog, List.append_nil, Stored, hroster]
    exact hs
  · have hlog : handledLogins cfg s e = [loginMessage cfg.runtime data] := by
      simp [handledLogins, hlogin]
    rw [hlog, Stored, hroster]
    intro login hmem player hplayer hkey
    have hold : player ∈ s.que.connectedPlayers → player.2 = loginInfo login := by
      intro hplayer
      rcases List.mem_append.1 hmem with hmem | hmem
      · exact hs login hmem player hplayer hkey
      · obtain rfl := List.mem_singleton.1 hmem
        exact hP _ hlogin player hplayer hkey
    cases hfind : s.que.connectedPlayers.lookup
        (idIndex (loginMessage cfg.runtime data)).toInt32 with
    | some info =>
        rw [emplaceLogin_of_lookup_some hfind] at hplayer
        exact hold hplayer
    | none =>
        rw [emplaceLogin_of_lookup_none hfind] at hplayer
        rcases List.mem_append.1 hplayer with hplayer | hplayer
        · exact hold hplayer
        · obtain rfl := List.mem_singleton.1 hplayer
          rcases List.mem_append.1 hmem with hmem | hmem
          · -- an earlier login for the index would have left an entry in the roster
            obtain ⟨other, hother, hkey'⟩ := hd.logins login hmem
            have hne := List.lookup_eq_none_iff.1 hfind other hother
            rw [hkey', ← hkey] at hne
            simp at hne
          · obtain rfl := List.mem_singleton.1 hmem
            rfl

/-- The first login for an index and the last one carry the same place. -/
theorem RosterData.exists_lastLogin (hd : RosterData cfg s log) (hs : Stored s log)
    {first : PMovement} (hfirst : firstLogin log id = some first) :
    ∃ last, lastLogin log id = some last ∧ SamePlace first last := by
  obtain ⟨hmem, hid⟩ := firstLogin_some hfirst
  cases hlast : lastLogin log id with
  | none =>
      have hne := List.find?_eq_none.1 hlast first (List.mem_reverse.2 hmem)
      exact absurd (decide_eq_true hid) hne
  | some last =>
      obtain ⟨hmem', hid'⟩ := firstLogin_some hlast
      obtain ⟨player, hplayer, hkey⟩ := hd.logins first hmem
      refine ⟨last, rfl, samePlace_of_loginInfo_eq ?_⟩
      rw [← hs first hmem player hplayer hkey]
      exact hs last (List.mem_reverse.1 hmem') player hplayer (by rw [hkey, hid, hid'])

/-! ### The result -/

/-- **A packet of the roster carries the place of the first login for the index.**  In every run,
whatever the clients log in as and however slots are freed and taken again, a `Login_C` packet about
`id` in `IOSendPacketQue` carries the position and the rotation of the first login that was handled
for `id`, each component in its own field. -/
theorem roster_carries_first_login (hR : cfg.runtime.proto.Lawful)
    {P : Server × List PMovement → Event → Prop} {mem : ℕ → Mem} {workers : ℕ}
    (h : Reach (loginSystem cfg) P (initServer mem n workers, []) (s, log)) :
    ∀ p ∈ s.que.ioSendPacketQue, ∀ id, Announces cfg.runtime.proto p id →
      ∃ login, firstLogin log id = some login ∧
        SamePlace (cfg.runtime.proto.movement.parseFromArray p.payload).1 login :=
  (RosterData.of_reach hR h).queued

/-- **A packet of the roster carries the place of the last login for the index.**  In a run in which
every login for an index that is already in `ConnectedPlayers` carries the position and the rotation
stored there, whatever else the clients send and however slots are freed and taken again, a
`Login_C` packet about `id` in `IOSendPacketQue` carries the position and the rotation of the most
recent login that was handled for `id`, each component in its own field. -/
theorem roster_data_is_current (hR : cfg.runtime.proto.Lawful) {mem : ℕ → Mem} {workers : ℕ}
    (h : Reach (loginSystem cfg) (fun x e => KeepsPlace cfg x.1 e)
      (initServer mem n workers, []) (s, log)) :
    ∀ p ∈ s.que.ioSendPacketQue, ∀ id, Announces cfg.runtime.proto p id →
      ∃ login, lastLogin log id = some login ∧
        SamePlace (cfg.runtime.proto.movement.parseFromArray p.payload).1 login := by
  have hstored : RosterData cfg s log ∧ Stored s log := by
    refine h.logged_invariant (I := fun s log => RosterData cfg s log ∧ Stored s log)
      ⟨RosterData.init mem n workers, fun login hl => by cases hl⟩ ?_
    intro t l e u hx hP hstep
    exact ⟨hx.1.step hR hstep, hx.2.step hx.1 hstep hP⟩
  intro p hp id hann
  obtain ⟨first, hfirst, hplace⟩ := roster_carries_first_login hR h p hp id hann
  obtain ⟨last, hlast, hsame⟩ := hstored.1.exists_lastLogin hstored.2 hfirst
  exact ⟨last, hlast, hplace.trans hsame⟩

/-- A login with the index 0 and the position `(1, 0, 0)`. -/
def loginAtOne : List UInt8 := [13, 0, 2, 0, 10, 0, 18, 5, 13, 0, 0, 128, 63]

/-- The last packet of the unicast queue announces the player 0; what it says of the `X` of its
position, and what the first and the last login for the index 0 said. -/
def lastRosterX (x : Server × List PMovement) : Option (Bool × Float32Bits) ×
    Option Float32Bits × Option Float32Bits :=
  (x.1.que.ioSendPacketQue.getLast?.map fun p : PacketBuffer =>
      (decide (Announces wireProtobuf p 0),
        ((wireProtobuf.movement.parseFromArray p.payload).1.loc.getD {}).x),
    (firstLogin x.2 0).map fun m => (m.loc.getD {}).x,
    (lastLogin x.2 0).map fun m => (m.loc.getD {}).x)

/-- A run in which a client logs in at a position and leaves, the next occupant of its slot logs in
at the same position, and a third client is told about it. -/
theorem roster_packet_carries_position :
    ∃ s log p login, Reach (loginSystem wireConfig) (fun x e => KeepsPlace wireConfig x.1 e)
        (wireServer 2, []) (s, log) ∧ p ∈ s.que.ioSendPacketQue ∧
      lastLogin log 0 = some login ∧ (login.loc.getD {}).x = 0x3f800000 ∧
      SamePlace (wireProtobuf.movement.parseFromArray p.payload).1 login := by
  obtain ⟨⟨s, log⟩, hreach, hfacts⟩ := Reach.exists_of_runIf (loginSystem wireConfig)
    (fun x e => KeepsPlace wireConfig x.1 e) (wireServer 2, [])
    (.scanSlot :: acceptEvents 7 ++ serveEvents loginAtOne ++ closeEvents ++
      .scanSlot :: acceptEvents 8 ++ [.scanSlot, .scanSlot] ++ acceptEvents 9 ++
      serveEvents loginAtOne ++ serveEvents [8, 0, 2, 0, 10, 2, 8, 1])
    lastRosterX (x := (some (true, 0x3f800000), some 0x3f800000, some 0x3f800000))
    (by decide +kernel)
  simp only [lastRosterX, Prod.mk.injEq] at hfacts
  obtain ⟨hlast, -, hlogin⟩ := hfacts
  obtain ⟨p, hp, hann⟩ := Option.map_eq_some_iff.1 hlast
  obtain ⟨login, hlogin, hx⟩ := Option.map_eq_some_iff.1 hlogin
  have hmem := List.mem_of_getLast? hp
  have hann := of_decide_eq_true (Prod.mk.inj hann).1
  obtain ⟨last, hlast, hplace⟩ := roster_data_is_current lawful_wireProtobuf hreach p hmem 0 hann
  obtain rfl : login = last := by
    rw [hlogin] at hlast
    exact Option.some.inj hlast
  exact ⟨s, log, p, login, hreach, hmem, hlogin, hx, hplace⟩

/-- **A packet of the roster is about who was there first**: a client logs in with the index 0 and
leaves, another one takes its slot and logs in with the index 0 at another position, and a third one
is told about the position of the first. -/
theorem roster_data_is_stale :
    ∃ s log p login, Reach (loginSystem wireConfig) (fun x e => LoginsParse wireConfig x.1 e)
        (wireServer 2, []) (s, log) ∧ p ∈ s.que.ioSendPacketQue ∧ Announces wireProtobuf p 0 ∧
      lastLogin log 0 = some login ∧
      ¬ SamePlace (wireProtobuf.movement.parseFromArray p.payload).1 login := by
  obtain ⟨⟨s, log⟩, hreach, hfacts⟩ := Reach.exists_of_runIf (loginSystem wireConfig)
    (fun x e => LoginsParse wireConfig x.1 e) (wireServer 2, [])
    (.scanSlot :: acceptEvents 7 ++ serveEvents [6, 0, 2, 0, 10, 0] ++ closeEvents ++
      .scanSlot :: acceptEvents 8 ++ [.scanSlot, .scanSlot] ++ acceptEvents 9 ++
      serveEvents loginAtOne ++ serveEvents [8, 0, 2, 0, 10, 2, 8, 1])
    lastRosterX (x := (some (true, 0), some 0, some 0x3f800000)) (by decide +kernel)
  simp only [lastRosterX, Prod.mk.injEq] at hfacts
  obtain ⟨hlast, -, hlogin⟩ := hfacts
  obtain ⟨p, hp, hann⟩ := Option.map_eq_some_iff.1 hlast
  obtain ⟨login, hlogin, hx⟩ := Option.map_eq_some_iff.1 hlogin
  obtain ⟨hann, hzero⟩ := Prod.mk.inj hann
  refine ⟨s, log, p, login, hreach, List.mem_of_getLast? hp, of_decide_eq_true hann, hlogin,
    fun hplace => ?_⟩
  have hsame := hplace.x
  rw [hzero, hx] at hsame
  exact absurd hsame (by decide)

end IocpDemo
