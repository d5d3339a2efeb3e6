/-
**Every player learns of every other one** (`RecvLoginPacket`, `SendLoginedPlayerPackets`).

When a client logs in, its login is queued for broadcast, and everybody in the roster is announced
to it through the unicast queue.  Of two clients the one that logs in first is a broadcast target by
then, and the one that logs in second finds the other in the roster.  So at the later one of the two
logins each of them has a packet about the other one pending, and a pending packet is handed over
before its queue is empty.

Main definitions:

* `IocpDemo.StayAndLogIn` — what is asked of a set of clients: they stay connected, and log in with
  the index of the slot they occupy;
* `IocpDemo.FanOutStep` — and the message of each login fits a packet;
* `IocpDemo.OnceStep` — each client logs in once, and sends succeed;
* `IocpDemo.Player` — a slot whose occupant is one of these clients and has logged in;
* `IocpDemo.Knows` — a slot has been told about another one, or a packet that will tell it is
  pending;
* `IocpDemo.Delivery.Tells` — a call that tells a slot about a player;
* `IocpDemo.FanOut` — the invariant.

Main results:

* `IocpDemo.login_fan_out_complete` — **when the queues are empty, everybody has been told about
  everybody**;
* `IocpDemo.two_logins_fan_out` — a run of two clients;
* `IocpDemo.oversized_login_is_lost` — a run in which a login fits no packet.
-/

import IocpDemo.Deliveries
import IocpDemo.Roster
import Mathlib.Data.Set.Basic

set_option relaxedAutoImplicit false
set_option autoImplicit false

namespace IocpDemo

open Bytes Transition Wire

variable {cfg : Config} {s s' : Server} {n : ℕ} {e : Event} {S : Set ℕ} {log : List Delivery}
  {i j : ℕ}

/-! ### The clients -/

/-- The login carries the index of the slot that the client occupies. -/
def LogsInOnSlot (cfg : Config) (s : Server) (conn : ℕ) (data : List UInt8) : Prop :=
  ∃ i < s.contexts.length, s.Connected i ∧ s.history.occupant i = conn ∧
    frameIdIndex cfg.runtime data .recvLoginPacket = UInt32.ofNat i

/-- The clients of the set `S` stay connected, and their logins are parsed and carry their slot
indices. -/
def StayAndLogIn (S : Set ℕ) (cfg : Config) (s : Server) (e : Event) : Prop :=
  (∀ i ∈ forgottenSlot s e, s.history.occupant i ∉ S) ∧
    ∀ login ∈ loginFrame cfg s e, login.1.conn ∈ S →
      cfg.runtime.proto.movement.Parses login.2 ∧ LogsInOnSlot cfg s login.1.conn login.2

/-- The clients of the set `S` stay and log in, and the messages of their logins fit packets. -/
def FanOutStep (S : Set ℕ) (cfg : Config) (s : Server) (e : Event) : Prop :=
  StayAndLogIn S cfg s e ∧
    ∀ login ∈ loginFrame cfg s e, login.1.conn ∈ S → LoginFits cfg.runtime login.2

/-- Each client logs in once, and every call of `SendPendingPacket` succeeds. -/
def OnceStep (cfg : Config) (s : Server) (e : Event) : Prop :=
  (∀ login ∈ loginFrame cfg s e, login.1.conn ∉ s.history.loggedIn) ∧
    e ≠ .sendWsa none ∧ e ≠ .bcWsa none

instance (cfg : Config) (s : Server) (conn : ℕ) (data : List UInt8) :
    Decidable (LogsInOnSlot cfg s conn data) :=
  inferInstanceAs (Decidable (∃ i < s.contexts.length, _))

section

variable [DecidablePred (· ∈ S)] (cfg : Config) (s : Server) (e : Event)

instance : Decidable (StayAndLogIn S cfg s e) := inferInstanceAs (Decidable (_ ∧ _))

instance : Decidable (FanOutStep S cfg s e) := inferInstanceAs (Decidable (_ ∧ _))

end

instance (cfg : Config) (s : Server) (e : Event) : Decidable (OnceStep cfg s e) :=
  inferInstanceAs (Decidable (_ ∧ _ ∧ _))

/-- The occupant of the slot is one of the clients, and has logged in. -/
structure Player (S : Set ℕ) (s : Server) (i : ℕ) : Prop where
  connected : s.Connected i
  mem : s.history.occupant i ∈ S
  loggedIn : s.history.occupant i ∈ s.history.loggedIn

/-- The slot `i` has been told about the player `j`, or will be told by a pending packet. -/
inductive Knows (P : Protobuf) (s : Server) (log : List Delivery) (i j : ℕ) : Prop
  | told (route : Route) {p : PacketBuffer} (hp : Announces P p (UInt32.ofNat j))
      (hcall : .call route i (s.history.occupant i) p ∈ log)
  | unicast {p : PacketBuffer} (hp : Announces P p (UInt32.ofNat j))
      (hpending : p ∈ s.unicastPending) (hindex : p.packetIndex.toNat = i)
  | broadCast {p : PacketBuffer} (hp : Announces P p (UInt32.ofNat j))
      (hpending : p ∈ s.bcPending i) (hindex : p.packetIndex.toNat ≠ i)

/-- The delivery is a call that tells the slot `i` about the player `j`. -/
def Delivery.Tells (P : Protobuf) (route : Route) (i j : ℕ) : Delivery → Prop
  | .call r slot _ p => r = route ∧ slot = i ∧ Announces P p (UInt32.ofNat j)
  | .missed _ _ => False

instance (P : Protobuf) (route : Route) (i j : ℕ) : DecidablePred (Delivery.Tells P route i j)
  | .call _ _ _ _ => inferInstanceAs (Decidable (_ ∧ _ ∧ _))
  | .missed _ _ => inferInstanceAs (Decidable False)

/-! ### Slot keys -/

theorem toUInt32_slotKey (i : ℕ) : (slotKey i).toUInt32 = UInt32.ofNat i := by
  simp [slotKey]

theorem toNat_toUInt16_ofNat (hi : i < 65536) : (UInt32.ofNat i).toUInt16.toNat = i := by
  simp only [UInt32.toNat_toUInt16, UInt32.toNat_ofNat']
  omega

theorem ofNat_inj_of_lt (hi : i < 65536) (hj : j < 65536) (h : UInt32.ofNat i = UInt32.ofNat j) :
    i = j := by
  have := congrArg UInt32.toNat h
  simp only [UInt32.toNat_ofNat'] at this
  omega

theorem slotKey_inj (hi : i < 65536) (hj : j < 65536) (h : slotKey i = slotKey j) : i = j := by
  refine ofNat_inj_of_lt hi hj ?_
  rw [← toUInt32_slotKey, ← toUInt32_slotKey, h]

/-! ### Pending packets are delivered -/

/-- A broadcast packet that does not name a connected slot is handed to it. -/
theorem broadCastDelivery_of_connected (ht : SlotTable n s) (hn : n ≤ 65536) (hi : s.Connected i)
    {p : PacketBuffer} (hp : p.packetIndex.toNat ≠ i) :
    s.broadCastDelivery p i = [.call .broadCast i (s.history.occupant i) p] := by
  have hlt := hi.lt ht
  obtain ⟨ctx, hctx⟩ := Server.exists_context (ht.length.symm ▸ hlt)
  have htarget : Server.isBroadCastTarget p ctx = true := by
    have hnext := bcNext_eq_copying_iff ht hctx p
    rw [Nat.mod_eq_of_lt (by omega)] at hnext
    have := hnext.2 ⟨(Server.connected_iff_context hctx).1 hi, hp⟩
    by_contra hfalse
    simp [Server.bcNext, hctx, hfalse] at this
  simp [Server.broadCastDelivery, hctx, htarget]

/-- **A slot that will be told is told in the end**: a step keeps the pending packet, or hands it
over. -/
theorem Knows.step (ht : SlotTable n s) (hn : n ≤ 65536) (h : step cfg s e = some s')
    (hi : s.Connected i) (hk : Knows cfg.runtime.proto s log i j) :
    Knows cfg.runtime.proto s' (log ++ deliveries s e) i j := by
  have hocc : s'.history.occupant i = s.history.occupant i := occupant_of_connected h ht hi
  cases hk with
  | told route hp hcall => exact .told route hp (by rw [hocc]; exact List.mem_append_left _ hcall)
  | @unicast p hp hpending hindex =>
      cases step_unicastFlow h with
      | same hpend _ => exact .unicast hp (by rw [hpend]; exact hpending) hindex
      | greeted _ _ _ hpend | login _ hpend =>
          exact .unicast hp (by rw [hpend]; exact List.mem_append_left _ hpending) hindex
      | @passed q hpend _ hd =>
          rw [hpend] at hpending
          rcases List.mem_cons.1 hpending with rfl | hrest
          · refine .told .unicast hp (List.mem_append_right _ ?_)
            rw [hd, Server.unicastDelivery, hindex, if_pos hi, hocc]
            exact List.mem_singleton_self _
          · exact .unicast hp hrest hindex
      | @dropped q hpend _ hzero =>
          rw [hpend] at hpending
          rcases List.mem_cons.1 hpending with rfl | hrest
          · exact absurd hzero hp.bufferSize_ne
          · exact .unicast hp hrest hindex
  | @broadCast p hp hpending hindex =>
      have hlt : i < s.contexts.length := ht.length.symm ▸ hi.lt ht
      cases step_broadCastFlow h hlt with
      | same hpend _ => exact .broadCast hp (by rw [hpend]; exact hpending) hindex
      | queued _ hpend =>
          exact .broadCast hp (by rw [hpend]; exact List.mem_append_left _ hpending) hindex
      | again hpend _ =>
          exact .broadCast hp (by rw [hpend]; exact List.mem_cons_of_mem _ hpending) hindex
      | @passed q hpend _ hd =>
          rw [hpend] at hpending
          rcases List.mem_cons.1 hpending with rfl | hrest
          · refine .told .broadCast hp (List.mem_append_right _ ?_)
            rw [hd, broadCastDelivery_of_connected ht hn hi hindex, hocc]
            exact List.mem_singleton_self _
          · exact .broadCast hp hrest hindex
      | @dropped q hpend _ hzero =>
          rw [hpend] at hpending
          rcases List.mem_cons.1 hpending with rfl | hrest
          · exact absurd hzero hp.bufferSize_ne
          · exact .broadCast hp hrest hindex

/-- A player stays one. -/
theorem Player.step (hi : Player S s i) (ht : SlotTable n s) (h : IocpDemo.step cfg s e = some s')
    (hP : FanOutStep S cfg s e) : Player S s' i := by
  have hocc := occupant_of_connected h ht hi.connected
  refine ⟨hi.connected.step h fun hf => ?_, by rw [hocc]; exact hi.mem,
    by rw [hocc]; exact loggedIn_mono h hi.loggedIn⟩
  exact hP.1.1 i (forgottenSlot_of_forgets hf) hi.mem

/-! ### The roster has the players -/

theorem emplaceLogin_of_lookup_none {login : PMovement} {r : Roster}
    (h : r.lookup (idIndex login).toInt32 = none) :
    emplaceLogin login r = r ++ [((idIndex login).toInt32, loginInfo login)] := by
  simp only [emplaceLogin, h]

theorem emplaceLogin_of_lookup_some {login : PMovement} {r : Roster} {info : ClientInfo}
    (h : r.lookup (idIndex login).toInt32 = some info) : emplaceLogin login r = r := by
  simp only [emplaceLogin, h]

theorem exists_mem_emplaceLogin (login : PMovement) (r : Roster) :
    ∃ player ∈ emplaceLogin login r, player.1 = (idIndex login).toInt32 := by
  cases hfind : r.lookup (idIndex login).toInt32 with
  | none =>
      rw [emplaceLogin_of_lookup_none hfind]
      exact ⟨_, List.mem_append_right _ (List.mem_singleton_self _), rfl⟩
  | some info =>
      rw [emplaceLogin_of_lookup_some hfind]
      obtain ⟨l₁, l₂, rfl, -⟩ := List.lookup_eq_some_iff.1 hfind
      exact ⟨((idIndex login).toInt32, info),
        List.mem_append_right _ List.mem_cons_self, rfl⟩

theorem mem_emplaceLogin_of_mem {login : PMovement} {r : Roster} {player : Int32 × ClientInfo}
    (h : player ∈ r) : player ∈ emplaceLogin login r := by
  simp only [emplaceLogin]
  split
  · exact h
  · exact List.mem_append_left _ h

/-- No key is inserted twice. -/
theorem nodup_emplaceLogin {login : PMovement} {r : Roster} (h : (r.map Prod.fst).Nodup) :
    ((emplaceLogin login r).map Prod.fst).Nodup := by
  cases hfind : r.lookup (idIndex login).toInt32 with
  | none =>
      rw [emplaceLogin_of_lookup_none hfind, List.map_append]
      refine List.nodup_append.2 ⟨h, by simp, fun x hx y hy heq => ?_⟩
      obtain ⟨player, hplayer, rfl⟩ := List.mem_map.1 hx
      have hne := List.lookup_eq_none_iff.1 hfind player hplayer
      simp only [List.map_cons, List.map_nil, List.mem_singleton] at hy
      rw [heq, hy] at hne
      simp at hne
  | some info =>
      rw [emplaceLogin_of_lookup_some hfind]
      exact h

/-- The roster only grows. -/
theorem mem_roster_of_step (h : step cfg s e = some s') {player : Int32 × ClientInfo}
    (hplayer : player ∈ s.que.connectedPlayers) : player ∈ s'.que.connectedPlayers := by
  rcases step_roster h with ⟨-, hroster, -⟩ | ⟨c, data, -, hroster, -⟩
  · rw [hroster]
    exact hplayer
  · rw [hroster]
    exact mem_emplaceLogin_of_mem hplayer

/-- A login is told about every other player of the roster. -/
theorem mem_loginPackets_of_mem {R : Runtime} {data : List UInt8} {roster : Roster}
    {player : Int32 × ClientInfo} (hplayer : player ∈ roster)
    (hne : player.1 ≠ (idIndex (loginMessage R data)).toInt32) :
    rosterPacket R.proto (idIndex (loginMessage R data)).toInt32 player ∈
      loginPackets R data roster := by
  refine List.mem_map_of_mem (List.mem_filter.2 ⟨?_, decide_eq_true hne⟩)
  exact (R.iteration_perm _).mem_iff.2 (mem_emplaceLogin_of_mem hplayer)

/-- **Who logs in is told about the roster**: a packet about each other player is queued for it. -/
theorem rosterPacket_of_login (hR : cfg.runtime.proto.Lawful) (h : step cfg s e = some s')
    {c : Completion} {data : List UInt8} (hlogin : loginFrame cfg s e = some (c, data))
    (hid : idIndex (loginMessage cfg.runtime data) = UInt32.ofNat i) (hi : i < 65536)
    (hj : j < 65536) (hij : i ≠ j) {player : Int32 × ClientInfo}
    (hplayer : player ∈ s.que.connectedPlayers) (hkey : player.1 = slotKey j) :
    ∃ p ∈ s'.unicastPending, p.packetIndex.toNat = i ∧
      Announces cfg.runtime.proto p (UInt32.ofNat j) := by
  have hkeyi : (idIndex (loginMessage cfg.runtime data)).toInt32 = slotKey i := by
    rw [hid]
    rfl
  have hne : player.1 ≠ (idIndex (loginMessage cfg.runtime data)).toInt32 := by
    rw [hkey, hkeyi]
    exact fun heq => hij (slotKey_inj hj hi heq).symm
  refine ⟨rosterPacket cfg.runtime.proto (idIndex (loginMessage cfg.runtime data)).toInt32 player,
    ?_, ?_, ?_⟩
  · rw [(step_login h hlogin).unicastPending]
    exact List.mem_append_right _ (mem_loginPackets_of_mem hplayer hne)
  · rw [hkeyi, rosterPacket, serializePacket_packetIndex, toUInt32_slotKey]
    exact toNat_toUInt16_ofNat hi
  · exact (announces_rosterPacket_iff hR _ _).2 (by rw [hkey, toUInt32_slotKey])

/-! ### The invariant -/

/-- **Of two players each knows of the other one.** -/
structure FanOut (cfg : Config) (S : Set ℕ) (n : ℕ) (s : Server) (log : List Delivery) :
    Prop where
  table : SlotTable n s
  occupancy : Occupancy s
  roster : ∀ i, Player S s i → ∃ player ∈ s.que.connectedPlayers, player.1 = slotKey i
  located : ∀ conn ∈ S, conn ∈ s.history.loggedIn →
    ∃ i, s.Connected i ∧ s.history.occupant i = conn
  knows : ∀ i j, i ≠ j → Player S s i → Player S s j → Knows cfg.runtime.proto s log i j

namespace FanOut

theorem init (mem : ℕ → Mem) (n workers : ℕ) : FanOut cfg S n (initServer mem n workers) [] := by
  have hnone : ∀ conn, conn ∉ (initServer mem n workers).history.loggedIn := by
    intro conn h
    cases h
  exact ⟨SlotTable.init mem n workers, Occupancy.init mem n workers,
    fun i hi => absurd hi.loggedIn (hnone _), fun conn _ h => absurd h (hnone _),
    fun i j _ hi => absurd hi.loggedIn (hnone _)⟩

/-- Who is a player behind a step was one before, or has just logged in. -/
theorem player_of_step (hs : FanOut cfg S n s log) (h : IocpDemo.step cfg s e = some s')
    (hi : Player S s' i) :
    Player S s i ∨ ∃ c data, loginFrame cfg s e = some (c, data) ∧ s.Connected i ∧
      s.history.occupant i = c.conn ∧ c.conn ∈ S := by
  rcases connected_of_step h hi.connected with hconn | ⟨rfl, sock, conn, hpc⟩
  · have hocc := occupant_of_connected h hs.table hconn
    have hmem := hi.mem
    have hin := hi.loggedIn
    rw [hocc] at hmem hin
    rcases step_roster h with ⟨-, -, hl⟩ | ⟨c, data, hlogin, -, hl⟩
    · exact Or.inl ⟨hconn, hmem, hl ▸ hin⟩
    · rw [hl] at hin
      rcases List.mem_cons.1 hin with heq | hold
      · exact Or.inr ⟨c, data, hlogin, hconn, heq, heq ▸ hmem⟩
      · exact Or.inl ⟨hconn, hmem, hold⟩
  · -- the connection that has just been attached has not logged in
    obtain ⟨-, hnew⟩ := hs.occupancy.incoming i sock conn hpc
    have hocc : s'.history.occupant i = conn := by
      obtain ⟨k, sock', conn', hpc', rfl⟩ := Server.connectClient_some h
      rw [hpc] at hpc'
      cases hpc'
      exact Function.update_self _ _ _
    have hmem := hi.mem
    have hin := hi.loggedIn
    rw [hocc] at hmem hin
    rw [(step_frame h).loggedIn (by simp)] at hin
    obtain ⟨k, hk, hkocc⟩ := hs.located conn hmem hin
    exact absurd hkocc (hnew k hk)

/-- The slot of a client that logs in. -/
theorem slot_of_login (hs : FanOut cfg S n s log) {c : Completion} {data : List UInt8}
    (hslot : LogsInOnSlot cfg s c.conn data) (hi : s.Connected i)
    (hocc : s.history.occupant i = c.conn) :
    idIndex (loginMessage cfg.runtime data) = UInt32.ofNat i := by
  obtain ⟨k, -, hk, hkocc, hindex⟩ := hslot
  obtain rfl : i = k := hs.occupancy.inj i k hi hk (hocc.trans hkocc.symm)
  exact hindex

theorem knows_step (hs : FanOut cfg S n s log) (hR : cfg.runtime.proto.Lawful) (hn : n ≤ 65536)
    (h : IocpDemo.step cfg s e = some s') (hP : FanOutStep S cfg s e) (hij : i ≠ j)
    (hi : Player S s' i) (hj : Player S s' j) :
    Knows cfg.runtime.proto s' (log ++ deliveries s e) i j := by
  have hlt : ∀ {k}, s.Connected k → k < 65536 := by
    intro k hk
    exact Nat.lt_of_lt_of_le (hk.lt hs.table) hn
  rcases hs.player_of_step h hi with hi | ⟨c, data, hlogin, hconn, hocc, hc⟩
  · rcases hs.player_of_step h hj with hj | ⟨c, data, hlogin, hconn, hocc, hc⟩
    · exact (hs.knows i j hij hi hj).step hs.table hn h hi.connected
    · -- `j` has just logged in: its login is queued for broadcast
      obtain ⟨hparses, hslot⟩ := hP.1.2 _ hlogin hc
      have hid := hs.slot_of_login hslot hconn hocc
      have hindex : (relayOf cfg.runtime data .recvLoginPacket).packet.packetIndex.toNat = j := by
        rw [Relay.packetIndex_packet, idIndex_relayOf]
        exact (congrArg (fun x => x.toUInt16.toNat) hid).trans (toNat_toUInt16_ofNat (hlt hconn))
      refine .broadCast (p := (relayOf cfg.runtime data .recvLoginPacket).packet) ?_ ?_ ?_
      · exact (announces_relay_iff hR (length_of_handledFrame (handledFrame_of_loginFrame hlogin))
          fun _ => ⟨hparses, hP.2 _ hlogin hc⟩).2 ⟨rfl, hid.symm⟩
      · rw [(step_login h hlogin).bcPending]
        exact List.mem_append_right _ (List.mem_singleton_self _)
      · rw [hindex]
        exact hij.symm
  · -- `i` has just logged in: it is told about the roster, and `j` is in it
    obtain ⟨-, hslot⟩ := hP.1.2 _ hlogin hc
    have hid := hs.slot_of_login hslot hconn hocc
    have hj : Player S s j := by
      rcases hs.player_of_step h hj with hj | ⟨c', data', hlogin', hconn', hocc', -⟩
      · exact hj
      · obtain rfl : c = c' := by
          rw [hlogin] at hlogin'
          exact (Prod.mk.inj (Option.some.inj hlogin')).1
        exact absurd (hs.occupancy.inj i j hconn hconn' (hocc.trans hocc'.symm)) hij
    obtain ⟨player, hplayer, hkey⟩ := hs.roster j hj
    obtain ⟨p, hpending, hindex, hp⟩ := rosterPacket_of_login hR h hlogin hid (hlt hconn)
      (hlt hj.connected) hij hplayer hkey
    exact .unicast hp hpending hindex

theorem roster_step (hs : FanOut cfg S n s log) (h : IocpDemo.step cfg s e = some s')
    (hP : FanOutStep S cfg s e) (hi : Player S s' i) :
    ∃ player ∈ s'.que.connectedPlayers, player.1 = slotKey i := by
  rcases hs.player_of_step h hi with hi | ⟨c, data, hlogin, hconn, hocc, hc⟩
  · obtain ⟨player, hplayer, hkey⟩ := hs.roster i hi
    exact ⟨player, mem_roster_of_step h hplayer, hkey⟩
  · have hid := hs.slot_of_login (hP.1.2 _ hlogin hc).2 hconn hocc
    rw [(step_login h hlogin).connectedPlayers]
    obtain ⟨player, hplayer, hkey⟩ :=
      exists_mem_emplaceLogin (loginMessage cfg.runtime data) s.que.connectedPlayers
    exact ⟨player, hplayer, by rw [hkey, hid]; rfl⟩

/-- The clients stay where they are. -/
theorem located_step (hs : FanOut cfg S n s log) (h : IocpDemo.step cfg s e = some s')
    (hP : FanOutStep S cfg s e) {conn : ℕ} (hmem : conn ∈ S)
    (hin : conn ∈ s'.history.loggedIn) : ∃ i, s'.Connected i ∧ s'.history.occupant i = conn := by
  have hstays : ∀ i, s.Connected i → s.history.occupant i = conn →
      ∃ i, s'.Connected i ∧ s'.history.occupant i = conn := by
    intro i hi hocc
    refine ⟨i, hi.step h fun hf => ?_, ?_⟩
    · refine hP.1.1 i (forgottenSlot_of_forgets hf) ?_
      rw [hocc]
      exact hmem
    · rw [occupant_of_connected h hs.table hi, hocc]
  rcases step_roster h with ⟨-, -, hl⟩ | ⟨c, data, hlogin, -, hl⟩
  · obtain ⟨i, hi, hocc⟩ := hs.located conn hmem (hl ▸ hin)
    exact hstays i hi hocc
  · rw [hl] at hin
    rcases List.mem_cons.1 hin with rfl | hold
    · obtain ⟨-, i, -, hi, hocc, -⟩ := hP.1.2 _ hlogin hmem
      exact hstays i hi hocc
    · obtain ⟨i, hi, hocc⟩ := hs.located conn hmem hold
      exact hstays i hi hocc

/-- **Every step keeps the invariant.** -/
theorem step (hs : FanOut cfg S n s log) (hR : cfg.runtime.proto.Lawful) (hn : n ≤ 65536)
    (h : IocpDemo.step cfg s e = some s') (hP : FanOutStep S cfg s e) :
    FanOut cfg S n s' (log ++ deliveries s e) where
  table := hs.table.step h
  occupancy := hs.occupancy.step h
  roster _ hi := hs.roster_step h hP hi
  located _ hmem hin := hs.located_step h hP hmem hin
  knows _ _ hij hi hj := hs.knows_step hR hn h hP hij hi hj

theorem of_reach (hR : cfg.runtime.proto.Lawful) (hn : n ≤ 65536) {mem : ℕ → Mem} {workers : ℕ}
    (h : Reach (deliverySystem cfg) (fun x e => FanOutStep S cfg x.1 e)
      (initServer mem n workers, []) (s, log)) : FanOut cfg S n s log :=
  h.logged_invariant (I := FanOut cfg S n) (init mem n workers) fun _ _ _ _ hx hP hstep =>
    hx.step hR hn hstep hP

end FanOut

/-! ### The result -/

/-- `SendThread` has no packet in its hands. -/
def SendPc.betweenPackets : SendPc → Bool
  | .top | .popping | .stopped => true
  | .holding _ _ | .copying _ _ | .sending _ _ | .crashed _ => false

/-- `SendBroadCastThread` has no packet in its hands. -/
def BroadCastPc.betweenPackets : BroadCastPc → Bool
  | .top | .popping | .stopped => true
  | .looping _ _ | .copying _ _ | .sending _ _ => false

theorem unicastPending_eq_nil (hque : s.que.ioSendPacketQue = [])
    (hpc : s.sendThread.betweenPackets = true) : s.unicastPending = [] := by
  rw [Server.unicastPending, hque]
  cases hsend : s.sendThread <;> rw [hsend] at hpc <;> first | rfl | cases hpc

theorem bcPending_eq_nil (hque : s.que.ioSendBCPacketQue = [])
    (hpc : s.broadCastThread.betweenPackets = true) (a : ℕ) : s.bcPending a = [] := by
  rw [Server.bcPending, hque]
  cases hsend : s.broadCastThread <;> rw [hsend] at hpc <;> first | rfl | cases hpc

/-- **Login fan-out is complete.**  Let `S` be a set of clients that stay connected, and whose
logins are parsed and carry the index of their slot.  In every run, whatever the other clients and
the threads do, when both queues are empty and both sender threads are between packets, of any two
clients of the set that have logged in each has been sent a `Login_C` packet about the other one. -/
theorem login_fan_out_complete (hR : cfg.runtime.proto.Lawful) (hn : n ≤ 65536) {mem : ℕ → Mem}
    {workers : ℕ} (h : Reach (deliverySystem cfg) (fun x e => FanOutStep S cfg x.1 e)
      (initServer mem n workers, []) (s, log))
    (huni : s.que.ioSendPacketQue = []) (hbc : s.que.ioSendBCPacketQue = [])
    (hsend : s.sendThread.betweenPackets = true)
    (hbroad : s.broadCastThread.betweenPackets = true) :
    ∀ a ∈ S, ∀ b ∈ S, a ≠ b → a ∈ s.history.loggedIn → b ∈ s.history.loggedIn →
      ∃ i j, s.OccupiedBy i a ∧ s.OccupiedBy j b ∧ ∃ route p, .call route i a p ∈ log ∧
        Announces cfg.runtime.proto p (UInt32.ofNat j) := by
  intro a ha b hb hab hain hbin
  have hs := FanOut.of_reach hR hn h
  obtain ⟨i, hi, rfl⟩ := hs.located a ha hain
  obtain ⟨j, hj, rfl⟩ := hs.located b hb hbin
  have hij : i ≠ j := fun heq => hab (by rw [heq])
  refine ⟨i, j, ⟨Server.connected_iff.1 hi, rfl⟩, ⟨Server.connected_iff.1 hj, rfl⟩, ?_⟩
  -- nothing is pending any more
  cases hs.knows i j hij ⟨hi, ha, hain⟩ ⟨hj, hb, hbin⟩ with
  | told route hp hcall => exact ⟨route, _, hcall, hp⟩
  | unicast _ hpending _ =>
      rw [unicastPending_eq_nil huni hsend] at hpending
      cases hpending
  | broadCast _ hpending _ =>
      rw [bcPending_eq_nil hbc hbroad] at hpending
      cases hpending

/-- A run in which two clients are accepted and log in, and all packets are sent: the first client
has been told about the second one. -/
theorem two_logins_fan_out :
    ∃ s log i j route p, Reach (deliverySystem wireConfig)
        (fun x e => FanOutStep Set.univ wireConfig x.1 e) (wireServer 2, []) (s, log) ∧
      s.OccupiedBy i 0 ∧ s.OccupiedBy j 1 ∧ .call route i 0 p ∈ log ∧
      Announces wireConfig.runtime.proto p (UInt32.ofNat j) := by
  obtain ⟨⟨s, log⟩, hreach, hfacts⟩ := Reach.exists_of_runIf (deliverySystem wireConfig)
    (fun x e => FanOutStep Set.univ wireConfig x.1 e) (wireServer 2, [])
    (.scanSlot :: acceptEvents 7 ++ [.scanSlot, .scanSlot] ++ acceptEvents 8 ++
      serveEvents [6, 0, 2, 0, 10, 0] ++ serveEvents [8, 0, 2, 0, 10, 2, 8, 1] ++
      sendEvents ++ sendEvents ++ sendEvents ++
      [.bcTop, .popBCPacket, .bcTest, .bcTest, .bcCopy, .bcWsa (some 1), .bcTest] ++
      [.bcTop, .popBCPacket, .bcTest, .bcCopy, .bcWsa (some 1), .bcTest, .bcTest])
    (fun x => (x.1.que.ioSendPacketQue.length, x.1.que.ioSendBCPacketQue.length,
      x.1.sendThread.betweenPackets, x.1.broadCastThread.betweenPackets, x.1.history.loggedIn))
    (x := (0, 0, true, true, [1, 0])) (by decide +kernel)
  simp only [Prod.mk.injEq] at hfacts
  obtain ⟨huni, hbc, hsend, hbroad, hin⟩ := hfacts
  obtain ⟨i, j, hi, hj, route, p, hcall, hp⟩ :=
    login_fan_out_complete lawful_wireProtobuf (by decide) hreach (List.length_eq_zero_iff.1 huni)
      (List.length_eq_zero_iff.1 hbc) hsend hbroad 0 trivial 1 trivial (by decide)
      (by rw [hin]; decide) (by rw [hin]; decide)
  exact ⟨s, log, i, j, route, p, hreach, hi, hj, hcall, hp⟩

/-! ### A login that fits no packet

A frame whose `PacketSize` is zero is dispatched with 65532 bytes.  They are a login if an unknown
field takes up what lies behind the frame, and the packet that such a login is relayed in has size
zero.
-/

/-- `SendBroadCastThread` has dropped the first packet of its queue. -/
def Server.dropBroadCast (s : Server) : Server :=
  { s with
    que := { s.que with ioSendBCPacketQue := s.que.ioSendBCPacketQue.tail }
    broadCastThread := .top }

/-- `SendThread` has sent `p`, the first packet of its queue. -/
def Server.sendFirst (s : Server) (p : PacketBuffer) : Server :=
  { s.modifyContext p.packetIndex.toNat (·.copyToSend p.bytes) with
    que := { s.que with ioSendPacketQue := s.que.ioSendPacketQue.tail }
    sendThread := .top
    history := { s.history with owners := s.history.owners.tail } }

/-- **A broadcast packet of size zero is dropped**: it is taken for an empty queue. -/
theorem reach_dropBroadCast {p : PacketBuffer} {ps : List PacketBuffer}
    (hpc : s.broadCastThread = .top) (hrun : s.isSendBroadCastThreadRun = true)
    (hque : s.que.ioSendBCPacketQue = p :: ps) (hzero : p.bufferSize = 0) :
    Reach (deliverySystem cfg) (fun x e => StayAndLogIn S cfg x.1 e ∧ OnceStep cfg x.1 e)
      (s, log) (s.dropBroadCast, log) := by
  have hdrop : run (deliverySystem cfg) (s, log) [.bcTop, .popBCPacket] =
      some (s.dropBroadCast, log) := by
    simp [run_cons, deliverySystem, logged, step, Server.bcTop, Server.popBCPacket,
      Server.dropBroadCast, hpc, hrun, getPendingBCPacket, hque, hzero, deliveries]
  exact Reach.of_run_of_forall
    (by simp [StayAndLogIn, OnceStep, forgottenSlot, loginFrame]) hdrop

/-- `SendThread` sending the next packet. -/
def sentEvents : List Event := [.sendTop, .popPacket, .sendPacket, .sendCopy, .sendWsa (some 1)]

/-- `SendThread` sends the first packet of its queue to a slot with an open socket. -/
theorem reach_sendFirst {p : PacketBuffer} {ps : List PacketBuffer} {ctx : ClientContext}
    {sock : Socket} {conn : ℕ} (hpc : s.sendThread = .top) (hrun : s.isSendThreadRun = true)
    (hque : s.que.ioSendPacketQue = p :: ps) (hpos : 0 < p.bufferSize)
    (hctx : s.contexts[p.packetIndex.toNat]? = some ctx) (hsock : ctx.socket = some sock)
    (hopen : s.os.connOf sock = some conn) :
    Reach (deliverySystem cfg) (fun x e => StayAndLogIn S cfg x.1 e ∧ OnceStep cfg x.1 e)
      (s, log) (s.sendFirst p, log ++
        [.call .unicast p.packetIndex.toNat (s.history.occupant p.packetIndex.toNat) p]) := by
  have hpos' : 1 ≤ p.bufferSize.toNat := UInt16.lt_iff_toNat_lt.1 hpos
  have hsend : run (deliverySystem cfg) (s, log) sentEvents = some (s.sendFirst p, log ++
      [.call .unicast p.packetIndex.toNat (s.history.occupant p.packetIndex.toNat) p]) := by
    simp [sentEvents, run_cons, deliverySystem, logged, step, Server.sendTop, Server.popPacket,
      Server.sendPacket, Server.sendNext, Server.sendCopy, Server.sendWsa, Server.wsaSendReturns,
      Server.sendFirst, Server.modifyContext, Server.unicastDelivery, Server.Connected,
      Server.socketAt, ClientContext.isConnected, deliveries, getPendingPacket, hpc, hrun, hque,
      hpos, hpos', hctx, hsock, hopen]
  exact Reach.of_run_of_forall
    (by simp [sentEvents, StayAndLogIn, OnceStep, forgottenSlot, loginFrame]) hsend

/-- The bytes of a login of player 1 in front of 65524 bytes of an unknown field. -/
def oversizedHead : List UInt8 := [0x0a, 2, 8, 1, 0x7a, 0xf4, 0xff, 0x03]

theorem writeMovement_oversized {rest : List UInt8} (hrest : rest.length = 65524) :
    writeMovement { id := some { index := 1 }, unknown := writeField 15 (.len rest) } =
      oversizedHead ++ rest := by
  have hlen : writeVarint 5 65524 = [0xf4, 0xff, 0x03] := by decide
  simp only [writeMovement, writeField, hrest, hlen]
  rfl

/-- An unknown field of any content is parsed. -/
theorem parse_oversized {rest : List UInt8} (hrest : rest.length = 65524) :
    wireProtobuf.movement.parseFromArray (oversizedHead ++ rest) =
      ({ id := some { index := 1 }, unknown := writeField 15 (.len rest) }, true) := by
  have hwf : WfMovement { id := some { index := 1 }, unknown := writeField 15 (.len rest) } := by
    refine ⟨?_, by simp, by simp, by simp, ?_⟩
    · simpa [WfClientId] using UnknownWf.nil _ _
    · refine ⟨[(15, .len rest)], by simp [encodeFields], ?_⟩
      simp [Field.Valid, TagNumber, WireValue.Valid, WireValue.ScalarValid, hrest, maxLimit,
        knownMovement]
  have hlimit : 8 + 65524 ≤ maxLimit := by decide
  have hlen : (writeMovement
      { id := some { index := 1 }, unknown := writeField 15 (.len rest) }).length ≤ maxLimit := by
    rw [writeMovement_oversized hrest, List.length_append, hrest]
    exact hlimit
  rw [← writeMovement_oversized hrest]
  exact cases_movement.roundTrip format_movement hwf hlen

theorem byteSizeLong_oversized {rest : List UInt8} (hrest : rest.length = 65524) :
    wireProtobuf.movement.byteSizeLong
      (wireProtobuf.movement.parseFromArray (oversizedHead ++ rest)).1 = 65532 := by
  rw [parse_oversized hrest]
  refine (congrArg List.length (writeMovement_oversized hrest)).trans ?_
  rw [List.length_append, hrest]
  rfl

/-- The size of its packet wraps around to zero. -/
theorem bufferSize_oversized {rest : List UInt8} (hrest : rest.length = 65524) :
    (relayOf wireRuntime (oversizedHead ++ rest) .recvLoginPacket).packet.bufferSize = 0 :=
  (Relay.bufferSize_packet _).trans (congrArg packetSizeOf (byteSizeLong_oversized hrest))

/-- Two clients are connected, the sender threads have nothing in their hands, and the slot 0 has
not been told about the player 1. -/
structure TwoClients (s : Server) (log : List Delivery) (ctx : ClientContext) : Prop where
  socketAt : s.socketAt 0 = some 7
  context : s.contexts[1]? = some ctx
  socket : ctx.socket = some 8
  sockets : s.os.sockets = [(7, 0), (8, 1)]
  sendThread : s.sendThread = .top ∧ s.isSendThreadRun = true
  broadCastThread : s.broadCastThread = .top ∧ s.isSendBroadCastThreadRun = true
  occupant : s.history.occupant 0 = 0 ∧ s.history.occupant 1 = 1
  untold : ∀ d ∈ log, ∀ route, ¬ Delivery.Tells wireProtobuf route 0 1 d

/-- The first one has logged in, and a worker thread is about to dispatch the login of the second
one, whose payload starts with `oversizedHead`. -/
structure BeforeOversized (s : Server) (log : List Delivery) (c : Completion)
    (ctx : ClientContext) : Prop extends TwoClients s log ctx where
  workThreads : s.workThreads = [.received c]
  completion : c.key = 1 ∧ c.conn = 1
  received : dispatchOf 0 ctx = some (2, 65532) ∧ ctx.recvBuf.read 4 8 = oversizedHead
  que : s.que.connectedPlayers = [(0, loginInfo {})] ∧ s.que.ioSendPacketQue = [] ∧
    s.que.ioSendBCPacketQue = []
  loggedIn : s.history.loggedIn = [0]

/-- `SendThread` is about to read `IsSendThreadRun`. -/
def SendPc.atTop : SendPc → Bool
  | .top => true
  | .popping | .holding _ _ | .copying _ _ | .sending _ _ | .crashed _ | .stopped => false

/-- `SendBroadCastThread` is about to read `IsSendBroadCastThreadRun`. -/
def BroadCastPc.atTop : BroadCastPc → Bool
  | .top => true
  | .popping | .looping _ _ | .copying _ _ | .sending _ _ | .stopped => false

/-- Two clients, accepted into the slots 0 and 1; the first one has logged in, and its login has
been broadcast. -/
def broadCastLoginEvents : List Event :=
  .scanSlot :: acceptEvents 7 ++ [.scanSlot, .scanSlot] ++ acceptEvents 8 ++
    serveEvents [6, 0, 2, 0, 10, 0] ++
    [.bcTop, .popBCPacket, .bcTest, .bcTest, .bcCopy, .bcWsa (some 1), .bcTest]

/-- Such a state is reached. -/
theorem exists_beforeOversized : ∃ s log c ctx, Reach (deliverySystem wireConfig)
    (fun x e => StayAndLogIn Set.univ wireConfig x.1 e ∧ OnceStep wireConfig x.1 e)
    (wireServer 2, []) (s, log) ∧ BeforeOversized s log c ctx := by
  obtain ⟨⟨s, log⟩, hreach, hfacts⟩ := Reach.exists_of_runIf (deliverySystem wireConfig)
    (fun x e => StayAndLogIn Set.univ wireConfig x.1 e ∧ OnceStep wireConfig x.1 e)
    (wireServer 2, [])
    (broadCastLoginEvents ++ sentEvents ++ sentEvents ++
      [.completeRecv 0 true ([0, 0, 2, 0] ++ oversizedHead), .workTop 0, .getCompletion 0])
    (fun x => decide ((x.1.socketAt 0 = some 7 ∧
      (x.1.contexts[1]?.map fun ctx => (ctx.socket, dispatchOf 0 ctx, ctx.recvBuf.read 4 8)) =
        some (some 8, some (2, 65532), oversizedHead) ∧ x.1.os.sockets = [(7, 0), (8, 1)]) ∧
      (x.1.sendThread.atTop ∧ x.1.isSendThreadRun) ∧
      (x.1.broadCastThread.atTop ∧ x.1.isSendBroadCastThreadRun) ∧
      (x.1.history.occupant 0 = 0 ∧ x.1.history.occupant 1 = 1) ∧
      (∀ d ∈ x.2, ¬ Delivery.Tells wireProtobuf .unicast 0 1 d ∧
        ¬ Delivery.Tells wireProtobuf .broadCast 0 1 d) ∧
      x.1.workThreads = [.received ⟨1, true, [0, 0, 2, 0] ++ oversizedHead, 1⟩] ∧
      (x.1.que.connectedPlayers = [(0, loginInfo {})] ∧ x.1.que.ioSendPacketQue.length = 0 ∧
        x.1.que.ioSendBCPacketQue.length = 0) ∧ x.1.history.loggedIn = [0]))
    (x := true) (by decide +kernel)
  obtain ⟨⟨hsock, hctx, hsockets⟩, ⟨hsend, hsendrun⟩, ⟨hbroad, hbroadrun⟩, hocc, hlog, hwork,
    ⟨hroster, huni, hbc⟩, hin⟩ := of_decide_eq_true hfacts
  obtain ⟨ctx, hctx, hreceived⟩ := Option.map_eq_some_iff.1 hctx
  obtain ⟨hsocket, hreceived⟩ := Prod.mk.inj hreceived
  refine ⟨s, log, _, ctx, hreach, ⟨hsock, hctx, hsocket, hsockets, ⟨?_, hsendrun⟩, ⟨?_, hbroadrun⟩,
    hocc, ?_⟩, hwork, ⟨rfl, rfl⟩, Prod.mk.inj hreceived,
    ⟨hroster, List.length_eq_zero_iff.1 huni, List.length_eq_zero_iff.1 hbc⟩, hin⟩
  · revert hsend
    cases s.sendThread <;> simp [SendPc.atTop]
  · revert hbroad
    cases s.broadCastThread <;> simp [BroadCastPc.atTop]
  · intro d hd route
    cases route with
    | unicast => exact (hlog d hd).1
    | broadCast => exact (hlog d hd).2

namespace BeforeOversized

variable {c : Completion} {ctx : ClientContext}

/-- The worker thread dispatches 65532 bytes. -/
theorem dispatched (hs : BeforeOversized s log c ctx) :
    ∃ rest : List UInt8, rest.length = 65524 ∧
      loginFrame wireConfig s (.deSerialize 0) = some (c, oversizedHead ++ rest) ∧
      step wireConfig s (.deSerialize 0) =
        some (s.dispatched wireConfig 0 c 2 (oversizedHead ++ rest)) := by
  obtain ⟨hd, hmem⟩ := hs.received
  have hdata : payloadOf ctx 65532 = oversizedHead ++ ctx.recvBuf.read 12 65524 := by
    rw [payloadOf, ← hmem]
    exact Mem.read_add ctx.recvBuf 4 8 65524
  have hd' : dispatchOf wireConfig.listenSocket ctx = some (2, 65532) := hd
  have hf : findFunc 2 = some .recvLoginPacket := by decide
  refine ⟨ctx.recvBuf.read 12 65524, Mem.length_read _ _ _, ?_, ?_⟩
  · simp [loginFrame, hs.workThreads, hs.completion.1, hs.context, hd', hf, hdata]
  · simp [step, Server.deSerialize, hs.workThreads, hs.completion.1, hs.context, hd', hdata]

/-- The login is one that a client may send. -/
theorem allowed (hs : BeforeOversized s log c ctx) :
    StayAndLogIn Set.univ wireConfig s (.deSerialize 0) ∧
      OnceStep wireConfig s (.deSerialize 0) := by
  obtain ⟨rest, hrest, hlogin, -⟩ := hs.dispatched
  have hparse := parse_oversized hrest
  rw [StayAndLogIn, OnceStep, hlogin]
  refine ⟨⟨nofun, ?_⟩, ?_, nofun, nofun⟩
  · rintro login hin -
    obtain rfl := Option.some.inj hin
    refine ⟨congrArg Prod.snd hparse, 1, Server.lt_of_context hs.context, ?_, ?_, ?_⟩
    · rw [Server.connected_iff_context hs.context, ClientContext.isConnected, hs.socket]
      rfl
    · rw [hs.occupant.2, hs.completion.2]
    · exact congrArg (fun r => idIndex r.1) hparse
  · rintro login hin
    obtain rfl := Option.some.inj hin
    rw [hs.loggedIn, hs.completion.2]
    decide

/-- The second client is to be told about the first one. -/
theorem loginPackets_eq {rest : List UInt8} (hrest : rest.length = 65524) :
    loginPackets wireRuntime (oversizedHead ++ rest) [(0, loginInfo {})] =
      [rosterPacket wireProtobuf 1 (0, loginInfo {})] := by
  have hparse : loginMessage wireRuntime (oversizedHead ++ rest) = _ :=
    congrArg Prod.fst (parse_oversized hrest)
  rw [loginPackets, hparse]
  rfl

/-- **What the login makes of the queues**: the broadcast packet has size zero. -/
theorem logIn (hs : BeforeOversized s log c ctx) : ∃ s' p,
    deliverySystem wireConfig (s, log) (.deSerialize 0) = some (s', log) ∧
      TwoClients s' log ctx ∧ s'.que.ioSendBCPacketQue = [p] ∧ p.bufferSize = 0 ∧
      s'.que.ioSendPacketQue = [rosterPacket wireProtobuf 1 (0, loginInfo {})] ∧
      s'.history.loggedIn = [1, 0] := by
  obtain ⟨rest, hrest, hlogin, hstep⟩ := hs.dispatched
  obtain ⟨hroster, huni, hbc⟩ := hs.que
  have hqueue := deSerialize_ioSendBCPacketQue hstep
  rw [handledFrame_of_loginFrame hlogin, hbc] at hqueue
  rcases deSerialize_que hstep with ⟨hnone, -⟩ | ⟨c', data, hsome, hpackets, -, -, hin⟩
  · rw [hnone] at hlogin
    cases hlogin
  · obtain ⟨rfl, rfl⟩ : c' = c ∧ data = oversizedHead ++ rest := by
      rw [hsome] at hlogin
      simpa using hlogin
    -- dispatching changes the queues and the worker thread only
    have htwo : TwoClients (s.dispatched wireConfig 0 c' 2 (oversizedHead ++ rest)) log ctx :=
      ⟨hs.socketAt, hs.context, hs.socket, hs.sockets, hs.sendThread, hs.broadCastThread,
        hs.occupant, hs.untold⟩
    refine ⟨_, _, ?_, htwo, hqueue, bufferSize_oversized hrest, ?_, ?_⟩
    · simp [deliverySystem, logged, hstep, deliveries]
    · rw [hpackets, huni, hroster]
      exact loginPackets_eq hrest
    · rw [hin, hs.loggedIn, hs.completion.2]

end BeforeOversized

/-- **An oversized login is lost.**  Two clients are connected and log in, each once and with the
index of its slot, and every send succeeds; the second login is parsed, but its packet has size
zero.  Both queues are empty and both sender threads are between packets, and the first client has
never been told about the second one. -/
theorem oversized_login_is_lost :
    ∃ s log, Reach (deliverySystem wireConfig)
        (fun x e => StayAndLogIn Set.univ wireConfig x.1 e ∧ OnceStep wireConfig x.1 e)
        (wireServer 2, []) (s, log) ∧
      (s.que.ioSendPacketQue = [] ∧ s.que.ioSendBCPacketQue = []) ∧
      (s.sendThread.betweenPackets = true ∧ s.broadCastThread.betweenPackets = true) ∧
      (0 ∈ s.history.loggedIn ∧ 1 ∈ s.history.loggedIn) ∧
      (s.OccupiedBy 0 0 ∧ s.OccupiedBy 1 1) ∧
      ∀ d ∈ log, ∀ route, ¬ Delivery.Tells wireConfig.runtime.proto route 0 1 d := by
  obtain ⟨s, log, c, ctx, hreach, hs⟩ := exists_beforeOversized
  obtain ⟨t, p, hlogin, ht, hbc, hzero, huni, hin⟩ := hs.logIn
  have hpos : 0 < (rosterPacket wireProtobuf 1 (0, loginInfo {})).bufferSize :=
    ((announces_rosterPacket_iff lawful_wireProtobuf 1 _).2 rfl).size_pos
  have hopen : t.os.connOf 8 = some 1 := congrArg (List.lookup 8) ht.sockets
  -- the broadcast is dropped, and the second client is told about the first one
  have hdrop : Reach (deliverySystem wireConfig)
      (fun x e => StayAndLogIn Set.univ wireConfig x.1 e ∧ OnceStep wireConfig x.1 e)
      (t, log) (t.dropBroadCast, log) :=
    reach_dropBroadCast ht.broadCastThread.1 ht.broadCastThread.2 hbc hzero
  have hsend : Reach (deliverySystem wireConfig)
      (fun x e => StayAndLogIn Set.univ wireConfig x.1 e ∧ OnceStep wireConfig x.1 e)
      (t.dropBroadCast, log) _ :=
    reach_sendFirst ht.sendThread.1 ht.sendThread.2 huni hpos ht.context ht.socket hopen
  have hsocket : ∀ i, (t.dropBroadCast.sendFirst
      (rosterPacket wireProtobuf 1 (0, loginInfo {}))).socketAt i = t.socketAt i :=
    Server.socketAt_modify_of_eq rfl fun _ => rfl
  refine ⟨_, _, (hreach.tail hs.allowed hlogin).trans (hdrop.trans hsend),
    ⟨congrArg List.tail huni, congrArg List.tail hbc⟩, ⟨rfl, rfl⟩, ?_,
    ⟨⟨⟨7, ?_⟩, ?_⟩, ⟨8, ?_⟩, ?_⟩, ?_⟩
  · show 0 ∈ t.history.loggedIn ∧ 1 ∈ t.history.loggedIn
    rw [hin]
    decide
  · exact (hsocket 0).trans ht.socketAt
  · exact ht.occupant.1
  · exact (hsocket 1).trans ((Server.socketAt_eq ht.context).trans ht.socket)
  · exact ht.occupant.2
  · intro d hd route
    rcases List.mem_append.1 hd with hold | hnew
    · exact ht.untold d hold route
    · rw [List.mem_singleton.1 hnew]
      rintro ⟨-, hslot, -⟩
      cases hslot

end IocpDemo
