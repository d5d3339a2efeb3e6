/-
**How often a player is announced** (`SendBroadCastThread`, `SendLoginedPlayerPackets`).

The recipients of a login that is broadcast are chosen when it is sent, among all connected slots;
the roster is listed when a client logs in.  So a client that is connected when the login of another
one is broadcast, and logs in later, is told about it by both routes.  By each of the two routes it
is told once.

Main definitions:

* `IocpDemo.FanOutOnceStep` — what is assumed of all clients: they stay connected, each logs in once
  with the index of its slot, and sends succeed;
* `IocpDemo.LoggedInAfter` — the order of two logins;
* `IocpDemo.Announced` — the invariant.

Main results:

* `IocpDemo.announced_once_by_each_route` — **each route announces a player at most once to each
  client**, and the roster route only to those that log in later;
* `IocpDemo.announced_by_both_routes` — a run in which a client is told twice.
-/

import IocpDemo.FanOut

set_option relaxedAutoImplicit false
set_option autoImplicit false

namespace IocpDemo

open Bytes Transition Wire

variable {cfg : Config} {s s' : Server} {n : ℕ} {e : Event} {log : List Delivery} {i j : ℕ}
  {P : Protobuf}

/-! ### The conditions -/

/-- All clients stay connected, each logs in once and with the index of its slot, all logins are
parsed and fit packets, and every call of `SendPendingPacket` succeeds. -/
def FanOutOnceStep (cfg : Config) (s : Server) (e : Event) : Prop :=
  FanOutStep Set.univ cfg s e ∧ OnceStep cfg s e

instance (cfg : Config) (s : Server) (e : Event) : Decidable (FanOutOnceStep cfg s e) :=
  inferInstanceAs (Decidable (_ ∧ _))

/-- Of the frames that are handled the logins are relayed as announcements. -/
theorem FanOutStep.announces_relay_iff (hP : FanOutStep Set.univ cfg s e)
    (hR : cfg.runtime.proto.Lawful) {c : Completion} {f : RecvFunc} {data : List UInt8}
    (hframe : handledFrame cfg s e = some (c, f, data)) {id : UInt32} :
    Announces cfg.runtime.proto (relayOf cfg.runtime data f).packet id ↔
      f = .recvLoginPacket ∧ id = frameIdIndex cfg.runtime data f := by
  refine IocpDemo.announces_relay_iff hR (length_of_handledFrame hframe) ?_
  rintro rfl
  have hlogin := loginFrame_of_handledFrame hframe
  exact ⟨(hP.1.2 _ hlogin trivial).1, hP.2 _ hlogin trivial⟩

/-- How often the slot `i` has been told about the player `j` by the route. -/
def timesTold (P : Protobuf) (route : Route) (i j : ℕ) (log : List Delivery) : ℕ :=
  log.countP fun d => Delivery.Tells P route i j d

/-- The number of pending broadcasts that announce the player `j`. -/
def announcements (P : Protobuf) (j : ℕ) (ps : List PacketBuffer) : ℕ :=
  ps.countP fun p => Announces P p (UInt32.ofNat j)

/-- The number of pending unicast packets for the slot `i` that announce the player `j`. -/
def announcementsTo (P : Protobuf) (i j : ℕ) (ps : List PacketBuffer) : ℕ :=
  ps.countP fun p => p.packetIndex.toNat = i ∧ Announces P p (UInt32.ofNat j)

@[simp] theorem timesTold_append (route : Route) (l l' : List Delivery) :
    timesTold P route i j (l ++ l') = timesTold P route i j l + timesTold P route i j l' :=
  List.countP_append

@[simp] theorem announcements_append (l l' : List PacketBuffer) :
    announcements P j (l ++ l') = announcements P j l + announcements P j l' := List.countP_append

@[simp] theorem announcementsTo_append (l l' : List PacketBuffer) :
    announcementsTo P i j (l ++ l') = announcementsTo P i j l + announcementsTo P i j l' :=
  List.countP_append

theorem announcements_cons (p : PacketBuffer) (l : List PacketBuffer) :
    announcements P j (p :: l) =
      announcements P j l + if Announces P p (UInt32.ofNat j) then 1 else 0 := by
  simp [announcements, List.countP_cons]

theorem announcementsTo_cons (p : PacketBuffer) (l : List PacketBuffer) :
    announcementsTo P i j (p :: l) = announcementsTo P i j l +
      if p.packetIndex.toNat = i ∧ Announces P p (UInt32.ofNat j) then 1 else 0 := by
  simp [announcementsTo, List.countP_cons]

/-! ### The calls of one step -/

@[simp] theorem timesTold_nil (route : Route) : timesTold P route i j [] = 0 := rfl

@[simp] theorem timesTold_call (route r : Route) (k conn : ℕ) (p : PacketBuffer) :
    timesTold P route i j [.call r k conn p] =
      if r = route ∧ k = i ∧ Announces P p (UInt32.ofNat j) then 1 else 0 := by
  rw [timesTold, List.countP_singleton]
  exact if_congr decide_eq_true_iff rfl rfl

@[simp] theorem timesTold_missed (route : Route) (k : ℕ) (p : PacketBuffer) :
    timesTold P route i j [.missed k p] = 0 := by
  rw [timesTold, List.countP_singleton]
  exact if_neg fun h => of_decide_eq_true h

theorem timesTold_broadCastDelivery (p : PacketBuffer) (k : ℕ) :
    timesTold P .broadCast i j (s.broadCastDelivery p k) ≤
      if k = i ∧ Announces P p (UInt32.ofNat j) then 1 else 0 := by
  unfold Server.broadCastDelivery
  split
  · exact Nat.zero_le _
  · split
    · simp
    · split <;> simp

theorem timesTold_unicastDelivery (p : PacketBuffer) :
    timesTold P .unicast i j (s.unicastDelivery p) ≤
      if p.packetIndex.toNat = i ∧ Announces P p (UInt32.ofNat j) then 1 else 0 := by
  unfold Server.unicastDelivery
  by_cases hconn : s.Connected p.packetIndex.toNat
  · simp only [if_pos hconn, timesTold_call, true_and, le_refl]
  · simp only [if_neg hconn, timesTold_nil, Nat.zero_le]

theorem timesTold_unicast_broadCastDelivery (p : PacketBuffer) (k : ℕ) :
    timesTold P .unicast i j (s.broadCastDelivery p k) = 0 := by
  unfold Server.broadCastDelivery
  split
  · rfl
  · split
    · simp
    · split <;> simp

theorem timesTold_broadCast_unicastDelivery (p : PacketBuffer) :
    timesTold P .broadCast i j (s.unicastDelivery p) = 0 := by
  unfold Server.unicastDelivery
  by_cases hconn : s.Connected p.packetIndex.toNat
  · simp [if_pos hconn]
  · simp [if_neg hconn]

/-- Only the loop of `SendPacketBroadCast` broadcasts. -/
theorem timesTold_broadCast_of_ne (he : e ≠ .bcTest) :
    timesTold P .broadCast i j (deliveries s e) = 0 := by
  cases e with
  | sendPacket =>
      cases hpc : s.sendThread with
      | holding p conn =>
          simp only [deliveries, hpc]
          exact timesTold_broadCast_unicastDelivery p
      | _ => simp only [deliveries, hpc, timesTold_nil]
  | bcTest => exact absurd rfl he
  | _ => rfl

/-- Only `SendPacket` sends unicast packets. -/
theorem timesTold_unicast_of_ne (he : e ≠ .sendPacket) :
    timesTold P .unicast i j (deliveries s e) = 0 := by
  cases e with
  | bcTest =>
      cases hpc : s.broadCastThread with
      | looping p k =>
          simp only [deliveries, hpc]
          exact timesTold_unicast_broadCastDelivery p k
      | _ => simp only [deliveries, hpc, timesTold_nil]
  | sendPacket => exact absurd rfl he
  | _ => rfl

/-! ### The invariant -/

/-- The number is at most one, and zero unless `A` holds. -/
def AtMostOnce (m : ℕ) (A : Prop) : Prop := m ≤ 1 ∧ (0 < m → A)

theorem AtMostOnce.mono {m m' : ℕ} {A A' : Prop} (h : AtMostOnce m A) (hm : m' ≤ m)
    (hA : A → A') : AtMostOnce m' A' :=
  ⟨Nat.le_trans hm h.1, fun hpos => hA (h.2 (Nat.lt_of_lt_of_le hpos hm))⟩

/-- What has not happened before may happen once. -/
theorem AtMostOnce.first {m d : ℕ} {A A' : Prop} (h : AtMostOnce m A) (hA : ¬ A) (hd : d ≤ 1)
    (hA' : 0 < d → A') : AtMostOnce (m + d) A' := by
  have hzero : m = 0 := Nat.eq_zero_of_not_pos fun hpos => hA (h.2 hpos)
  rw [hzero, Nat.zero_add]
  exact ⟨hd, hA'⟩

/-- Both have logged in, the client in the slot `i` after the one in the slot `j`. -/
structure LoggedInAfter (s : Server) (i j : ℕ) : Prop where
  player : Player Set.univ s i
  other : Player Set.univ s j
  after : [s.history.occupant i, s.history.occupant j].Sublist s.history.loggedIn

theorem LoggedInAfter.step (hij : LoggedInAfter s i j) (ht : SlotTable n s)
    (h : IocpDemo.step cfg s e = some s') (hP : FanOutStep Set.univ cfg s e) :
    LoggedInAfter s' i j := by
  refine ⟨hij.player.step ht h hP, hij.other.step ht h hP, ?_⟩
  rw [occupant_of_connected h ht hij.player.connected,
    occupant_of_connected h ht hij.other.connected]
  rcases step_roster h with ⟨-, -, hl⟩ | ⟨c, data, -, -, hl⟩
  · rw [hl]
    exact hij.after
  · rw [hl]
    exact hij.after.cons _

/-- **What has been announced and what is about to be.** -/
structure Announced (cfg : Config) (n : ℕ) (s : Server) (log : List Delivery) : Prop where
  fanOut : FanOut cfg Set.univ n s log
  nodup : (s.que.connectedPlayers.map Prod.fst).Nodup
  players : ∀ player ∈ s.que.connectedPlayers, ∃ k, Player Set.univ s k ∧ player.1 = slotKey k
  broadCast : ∀ i j, i < n → j < n → AtMostOnce
    (timesTold cfg.runtime.proto .broadCast i j log +
      announcements cfg.runtime.proto j (s.bcPending i)) (Player Set.univ s j)
  unicast : ∀ i j, i < n → j < n → i ≠ j → AtMostOnce
    (timesTold cfg.runtime.proto .unicast i j log +
      announcementsTo cfg.runtime.proto i j s.unicastPending) (LoggedInAfter s i j)

namespace Announced

theorem init (mem : ℕ → Mem) (n workers : ℕ) :
    Announced cfg n (initServer mem n workers) [] where
  fanOut := FanOut.init mem n workers
  nodup := List.nodup_nil
  players player h := by cases h
  broadCast i j _ _ := ⟨Nat.zero_le _, fun h => absurd h (Nat.lt_irrefl 0)⟩
  unicast i j _ _ _ := ⟨Nat.zero_le _, fun h => absurd h (Nat.lt_irrefl 0)⟩

/-- The client that logs in has not logged in before, and is the player it names. -/
theorem login (hs : Announced cfg n s log) (h : IocpDemo.step cfg s e = some s')
    (hP : FanOutOnceStep cfg s e) {c : Completion} {data : List UInt8}
    (hlogin : loginFrame cfg s e = some (c, data)) :
    ∃ k, s.Connected k ∧ ¬ Player Set.univ s k ∧ Player Set.univ s' k ∧
      idIndex (loginMessage cfg.runtime data) = UInt32.ofNat k ∧
      s.history.occupant k = c.conn := by
  obtain ⟨-, k, -, hk, hocc, hindex⟩ := hP.1.1.2 _ hlogin trivial
  have hnew : c.conn ∉ s.history.loggedIn := hP.2.1 _ hlogin
  refine ⟨k, hk, fun hplayer => hnew (hocc ▸ hplayer.loggedIn), ?_, hindex, hocc⟩
  have hl := (step_login h hlogin).loggedIn
  have hocc' := occupant_of_connected h hs.fanOut.table hk
  refine ⟨hk.step h fun hf => hP.1.1.1 k (forgottenSlot_of_forgets hf) trivial, trivial, ?_⟩
  rw [hocc', hocc, hl]
  exact List.mem_cons_self

theorem players_step (hs : Announced cfg n s log) (h : IocpDemo.step cfg s e = some s')
    (hP : FanOutOnceStep cfg s e) : ∀ player ∈ s'.que.connectedPlayers,
      ∃ k, Player Set.univ s' k ∧ player.1 = slotKey k := by
  intro player hplayer
  have hold : player ∈ s.que.connectedPlayers →
      ∃ k, Player Set.univ s' k ∧ player.1 = slotKey k := by
    intro hmem
    obtain ⟨k, hk, hkey⟩ := hs.players player hmem
    exact ⟨k, hk.step hs.fanOut.table h hP.1, hkey⟩
  rcases step_roster h with ⟨-, hroster, -⟩ | ⟨c, data, hlogin, hroster, -⟩
  · exact hold (hroster ▸ hplayer)
  · rw [hroster] at hplayer
    rcases mem_emplaceLogin hplayer with hmem | hkey
    · exact hold hmem
    · obtain ⟨k, -, -, hk, hindex, -⟩ := hs.login h hP hlogin
      exact ⟨k, hk, by rw [hkey, hindex]; rfl⟩

theorem broadCast_step (hs : Announced cfg n s log) (hR : cfg.runtime.proto.Lawful)
    (hn : n ≤ 65536) (h : IocpDemo.step cfg s e = some s') (hP : FanOutOnceStep cfg s e)
    (hi : i < n) (hj : j < n) : AtMostOnce
      (timesTold cfg.runtime.proto .broadCast i j (log ++ deliveries s e) +
        announcements cfg.runtime.proto j (s'.bcPending i)) (Player Set.univ s' j) := by
  have ih := hs.broadCast i j hi hj
  have hmono : Player Set.univ s j → Player Set.univ s' j := by
    intro hp
    exact hp.step hs.fanOut.table h hP.1
  rw [timesTold_append]
  cases step_broadCastFlow h (hs.fanOut.table.length.symm ▸ hi) with
  | same hpend hd =>
      have hzero : timesTold cfg.runtime.proto .broadCast i j (deliveries s e) = 0 := by
        by_cases he : e = .bcTest
        · obtain ⟨p, k, hk, hd⟩ := hd he
          have hle := timesTold_broadCastDelivery (P := cfg.runtime.proto) (s := s) (i := i)
            (j := j) p k
          rw [if_neg fun hc => hk hc.1] at hle
          rw [hd]
          omega
        · exact timesTold_broadCast_of_ne he
      rw [hpend, hzero]
      exact ih.mono (by omega) hmono
  | @queued c f data hframe hpend =>
      have hzero : timesTold cfg.runtime.proto .broadCast i j (deliveries s e) = 0 := by
        refine timesTold_broadCast_of_ne ?_
        rintro rfl
        cases hframe
      rw [hpend, announcements_append, hzero]
      by_cases hann : Announces cfg.runtime.proto (relayOf cfg.runtime data f).packet
          (UInt32.ofNat j)
      · -- the player has logged in with this step
        obtain ⟨rfl, hid⟩ := (hP.1.announces_relay_iff hR hframe).1 hann
        obtain ⟨k, hk, hnot, hplayer, hindex, -⟩ :=
          hs.login h hP (loginFrame_of_handledFrame hframe)
        have hkn := hk.lt hs.fanOut.table
        obtain rfl : j = k := ofNat_inj_of_lt (by omega) (by omega) (hid.trans hindex)
        have hone : announcements cfg.runtime.proto j
            [(relayOf cfg.runtime data .recvLoginPacket).packet] = 1 := by
          simp [announcements, hann]
        rw [hone]
        have hfirst := ih.first (d := 1) hnot (Nat.le_refl 1) fun _ => hplayer
        exact hfirst.mono (by omega) id
      · have hnone :
            announcements cfg.runtime.proto j [(relayOf cfg.runtime data f).packet] = 0 := by
          simp [announcements, hann]
        rw [hnone]
        exact ih.mono (by omega) hmono
  | @passed p hpend he hd =>
      have hle :=
        timesTold_broadCastDelivery (P := cfg.runtime.proto) (s := s) (i := i) (j := j) p i
      have hcons : announcements cfg.runtime.proto j (s.bcPending i) = _ :=
        hpend ▸ announcements_cons p (s'.bcPending i)
      rw [hd]
      refine ih.mono ?_ hmono
      rw [hcons]
      simp only [true_and] at hle
      omega
  | again _ he => exact absurd he hP.2.2.2
  | @dropped p hpend he _ =>
      have hcons : announcements cfg.runtime.proto j (s.bcPending i) = _ :=
        hpend ▸ announcements_cons p (s'.bcPending i)
      have hzero : timesTold cfg.runtime.proto .broadCast i j (deliveries s e) = 0 :=
        timesTold_broadCast_of_ne (by simp [he])
      refine ih.mono ?_ hmono
      rw [hcons, hzero]
      omega

/-- Every player of the roster is announced once. -/
theorem announcementsTo_loginPackets_le (hR : cfg.runtime.proto.Lawful) {data : List UInt8}
    {r : Roster} (hr : (r.map Prod.fst).Nodup) :
    announcementsTo cfg.runtime.proto i j (loginPackets cfg.runtime data r) ≤ 1 := by
  have hnodup : ((emplaceLogin (loginMessage cfg.runtime data) r).map Prod.fst).Nodup :=
    nodup_emplaceLogin hr
  -- the packets that announce `j` are made of the entries with its key
  have hkeys : announcementsTo cfg.runtime.proto i j (loginPackets cfg.runtime data r) ≤
      (loginPlayers cfg.runtime data r).countP fun player => player.1 = slotKey j := by
    rw [announcementsTo, loginPackets_eq, List.countP_map]
    refine List.countP_mono_left fun player _ hp => ?_
    simp only [Function.comp_apply, decide_eq_true_eq] at hp ⊢
    have hid := (announces_rosterPacket_iff hR _ _).1 hp.2
    rw [← toUInt32_slotKey] at hid
    exact (congrArg UInt32.toInt32 hid).symm
  have hsub : (loginPlayers cfg.runtime data r).countP (fun player => player.1 = slotKey j) ≤
      (emplaceLogin (loginMessage cfg.runtime data) r).countP fun player =>
        player.1 = slotKey j := by
    rw [← (cfg.runtime.iteration_perm (emplaceLogin (loginMessage cfg.runtime data) r)).countP_eq]
    exact List.filter_sublist.countP_le
  have hcount : (emplaceLogin (loginMessage cfg.runtime data) r).countP
      (fun player => player.1 = slotKey j) =
        ((emplaceLogin (loginMessage cfg.runtime data) r).map Prod.fst).count (slotKey j) := by
    rw [List.count, List.countP_map]
    exact List.countP_congr fun player _ => by simp
  have hone := List.nodup_iff_count.1 hnodup (slotKey j)
  omega

/-- Who is told about `j` by the roster has just logged in, and `j` had logged in before. -/
theorem loggedInAfter_of_login (hs : Announced cfg n s log) (hR : cfg.runtime.proto.Lawful)
    (hn : n ≤ 65536) (h : IocpDemo.step cfg s e = some s') (hP : FanOutOnceStep cfg s e)
    (hi : i < n) (hj : j < n) {c : Completion} {data : List UInt8}
    (hlogin : loginFrame cfg s e = some (c, data))
    (hpos : 0 < announcementsTo cfg.runtime.proto i j
      (loginPackets cfg.runtime data s.que.connectedPlayers)) :
    ¬ Player Set.univ s i ∧ LoggedInAfter s' i j := by
  obtain ⟨p, hp, htells⟩ := List.countP_pos_iff.1 hpos
  obtain ⟨hto, hann⟩ := of_decide_eq_true htells
  obtain ⟨hindex, player, hplayer, -, rfl⟩ := mem_loginPackets hp
  obtain ⟨k, hk, hnot, hplayerk, hid, hocc⟩ := hs.login h hP hlogin
  -- the packet is for the slot of the client that logs in
  have hkn := hk.lt hs.fanOut.table
  obtain rfl : k = i := by
    rw [← hto, hindex]
    exact ((congrArg (fun x => x.toUInt16.toNat) hid).trans
      (toNat_toUInt16_ofNat (by omega))).symm
  obtain ⟨l, hl, hkey⟩ := hs.players player hplayer
  have hln := hl.connected.lt hs.fanOut.table
  have hkeyj := (announces_rosterPacket_iff hR _ _).1 hann
  rw [hkey, toUInt32_slotKey] at hkeyj
  obtain rfl : j = l := ofNat_inj_of_lt (by omega) (by omega) hkeyj
  refine ⟨hnot, hplayerk, hl.step hs.fanOut.table h hP.1, ?_⟩
  rw [occupant_of_connected h hs.fanOut.table hk,
    occupant_of_connected h hs.fanOut.table hl.connected, (step_login h hlogin).loggedIn, hocc]
  exact (List.singleton_sublist.2 hl.loggedIn).cons_cons _

theorem unicast_step (hs : Announced cfg n s log) (hR : cfg.runtime.proto.Lawful)
    (hn : n ≤ 65536) (h : IocpDemo.step cfg s e = some s') (hP : FanOutOnceStep cfg s e)
    (hi : i < n) (hj : j < n) (hij : i ≠ j) : AtMostOnce
      (timesTold cfg.runtime.proto .unicast i j (log ++ deliveries s e) +
        announcementsTo cfg.runtime.proto i j s'.unicastPending) (LoggedInAfter s' i j) := by
  have ih := hs.unicast i j hi hj hij
  have hmono : LoggedInAfter s i j → LoggedInAfter s' i j := by
    intro ha
    exact ha.step hs.fanOut.table h hP.1
  rw [timesTold_append]
  cases step_unicastFlow h with
  | same hpend he =>
      rw [hpend, timesTold_unicast_of_ne he]
      exact ih.mono (by omega) hmono
  | @greeted k conn ctx _ _ he hpend =>
      have hnone : announcementsTo cfg.runtime.proto i j
          [connPacket cfg.runtime.proto ctx.getIndex.toUInt16] = 0 := by
        rw [announcementsTo, List.countP_singleton]
        exact if_neg fun hp => not_announces_connPacket _ (of_decide_eq_true hp).2
      rw [hpend, timesTold_unicast_of_ne (by simp [he]), announcementsTo_append, hnone]
      exact ih.mono (by omega) hmono
  | @login c data hlogin hpend =>
      have hne : e ≠ .sendPacket := by
        rintro rfl
        cases hlogin
      rw [hpend, timesTold_unicast_of_ne hne, announcementsTo_append]
      have hle : announcementsTo cfg.runtime.proto i j
          (loginPackets cfg.runtime data s.que.connectedPlayers) ≤ 1 :=
        announcementsTo_loginPackets_le hR hs.nodup
      by_cases hpos : 0 < announcementsTo cfg.runtime.proto i j
          (loginPackets cfg.runtime data s.que.connectedPlayers)
      · obtain ⟨hnot, hafter⟩ := hs.loggedInAfter_of_login hR hn h hP hi hj hlogin hpos
        have hfirst := ih.first (fun ha => hnot ha.player) hle fun _ => hafter
        exact hfirst.mono (by omega) id
      · exact ih.mono (by omega) hmono
  | @passed p hpend he hd =>
      have hle := timesTold_unicastDelivery (P := cfg.runtime.proto) (s := s) (i := i) (j := j) p
      have hcons : announcementsTo cfg.runtime.proto i j s.unicastPending = _ :=
        hpend ▸ announcementsTo_cons p s'.unicastPending
      rw [hd]
      refine ih.mono ?_ hmono
      rw [hcons]
      omega
  | @dropped p hpend he _ =>
      have hcons : announcementsTo cfg.runtime.proto i j s.unicastPending = _ :=
        hpend ▸ announcementsTo_cons p s'.unicastPending
      rw [timesTold_unicast_of_ne (by simp [he])]
      refine ih.mono ?_ hmono
      rw [hcons]
      omega

/-- **Every step keeps the invariant.** -/
theorem step (hs : Announced cfg n s log) (hR : cfg.runtime.proto.Lawful) (hn : n ≤ 65536)
    (h : IocpDemo.step cfg s e = some s') (hP : FanOutOnceStep cfg s e) :
    Announced cfg n s' (log ++ deliveries s e) where
  fanOut := hs.fanOut.step hR hn h hP.1
  nodup := by
    rcases step_roster h with ⟨-, hroster, -⟩ | ⟨c, data, -, hroster, -⟩
    · rw [hroster]
      exact hs.nodup
    · rw [hroster]
      exact nodup_emplaceLogin hs.nodup
  players := hs.players_step h hP
  broadCast _ _ hi hj := hs.broadCast_step hR hn h hP hi hj
  unicast _ _ hi hj hij := hs.unicast_step hR hn h hP hi hj hij

theorem of_reach (hR : cfg.runtime.proto.Lawful) (hn : n ≤ 65536) {mem : ℕ → Mem} {workers : ℕ}
    (h : Reach (deliverySystem cfg) (fun x e => FanOutOnceStep cfg x.1 e)
      (initServer mem n workers, []) (s, log)) : Announced cfg n s log :=
  h.logged_invariant (I := Announced cfg n) (init mem n workers) fun _ _ _ _ hx hP hstep =>
    hx.step hR hn hstep hP

end Announced

/-! ### The result -/

/-- **Each route announces a player at most once to each client.**  In a run in which all clients
stay connected, each logs in once with the index of its slot, and every send succeeds, let `a` and
`b` be different clients in the slots `i` and `j`.  `SendBroadCastThread` calls `SendPendingPacket`
on the slot `i` at most once with a `Login_C` packet about `j`, and so does `SendThread`; and
`SendThread` does not do it at all unless `a` has logged in after `b`. -/
theorem announced_once_by_each_route (hR : cfg.runtime.proto.Lawful) (hn : n ≤ 65536)
    {mem : ℕ → Mem} {workers : ℕ}
    (h : Reach (deliverySystem cfg) (fun x e => FanOutOnceStep cfg x.1 e)
      (initServer mem n workers, []) (s, log)) {a b : ℕ} (ha : s.OccupiedBy i a)
    (hb : s.OccupiedBy j b) (hab : a ≠ b) :
    timesTold cfg.runtime.proto .broadCast i j log ≤ 1 ∧
      timesTold cfg.runtime.proto .unicast i j log ≤ 1 ∧
      (¬ [a, b].Sublist s.history.loggedIn →
        timesTold cfg.runtime.proto .unicast i j log = 0) := by
  have hs := Announced.of_reach hR hn h
  have hi := (Server.connected_iff.2 ha.1).lt hs.fanOut.table
  have hj := (Server.connected_iff.2 hb.1).lt hs.fanOut.table
  have hij : i ≠ j := by
    rintro rfl
    exact hab (ha.2.symm.trans hb.2)
  obtain ⟨hbc, -⟩ := hs.broadCast i j hi hj
  obtain ⟨huni, hafter⟩ := hs.unicast i j hi hj hij
  refine ⟨by omega, by omega, fun hnot => ?_⟩
  by_contra hpos
  have hsub := (hafter (by omega)).after
  rw [ha.2, hb.2] at hsub
  exact hnot hsub

/-- A run in which the second client logs in as well: the first one, which logged in before it, is
not told about it by the roster. -/
theorem first_client_announced_once :
    ∃ s log, Reach (deliverySystem wireConfig) (fun x e => FanOutOnceStep wireConfig x.1 e)
        (wireServer 2, []) (s, log) ∧ s.OccupiedBy 0 0 ∧ s.OccupiedBy 1 1 ∧
      timesTold wireProtobuf .broadCast 0 1 log = 1 ∧
        timesTold wireProtobuf .unicast 0 1 log = 0 := by
  obtain ⟨⟨s, log⟩, hreach, hfacts⟩ := Reach.exists_of_runIf (deliverySystem wireConfig)
    (fun x e => FanOutOnceStep wireConfig x.1 e) (wireServer 2, [])
    (broadCastLoginEvents ++ serveEvents [8, 0, 2, 0, 10, 2, 8, 1] ++
      [.bcTop, .popBCPacket, .bcTest, .bcCopy, .bcWsa (some 1), .bcTest, .bcTest] ++
      sentEvents ++ sentEvents ++ sentEvents)
    (fun x => ((x.1.socketAt 0, x.1.history.occupant 0), (x.1.socketAt 1, x.1.history.occupant 1),
      x.1.history.loggedIn, timesTold wireProtobuf .broadCast 0 1 x.2))
    (x := ((some 7, 0), (some 8, 1), [1, 0], 1)) (by decide +kernel)
  simp only [Prod.mk.injEq] at hfacts
  obtain ⟨⟨hsock, hocc⟩, ⟨hsock', hocc'⟩, hin, htold⟩ := hfacts
  have ha : s.OccupiedBy 0 0 := ⟨⟨7, hsock⟩, hocc⟩
  have hb : s.OccupiedBy 1 1 := ⟨⟨8, hsock'⟩, hocc'⟩
  have honce := announced_once_by_each_route lawful_wireProtobuf (by decide) hreach ha hb
    (by decide)
  exact ⟨s, log, hreach, ha, hb, htold, honce.2.2 (by rw [hin]; decide)⟩

/-- **A client that was connected before it logged in is told twice**: the login of the first client
has been broadcast to the second one when the second one logs in and is told about the roster. -/
theorem announced_by_both_routes :
    ∃ s log, Reach (deliverySystem wireConfig) (fun x e => FanOutOnceStep wireConfig x.1 e)
        (wireServer 2, []) (s, log) ∧ s.OccupiedBy 0 0 ∧ s.OccupiedBy 1 1 ∧
      timesTold wireProtobuf .broadCast 1 0 log = 1 ∧
        timesTold wireProtobuf .unicast 1 0 log = 1 := by
  obtain ⟨⟨s, log⟩, hreach, hfacts⟩ := Reach.exists_of_runIf (deliverySystem wireConfig)
    (fun x e => FanOutOnceStep wireConfig x.1 e) (wireServer 2, [])
    (broadCastLoginEvents ++ serveEvents [8, 0, 2, 0, 10, 2, 8, 1] ++
      sentEvents ++ sentEvents ++ sentEvents)
    (fun x => (x.1.socketAt 0, x.1.history.occupant 0, x.1.socketAt 1, x.1.history.occupant 1,
      timesTold wireProtobuf .broadCast 1 0 x.2, timesTold wireProtobuf .unicast 1 0 x.2))
    (x := (some 7, 0, some 8, 1, 1, 1)) (by decide +kernel)
  simp only [Prod.mk.injEq] at hfacts
  obtain ⟨hsock, hocc, hsock', hocc', hbc, huni⟩ := hfacts
  exact ⟨s, log, hreach, ⟨⟨7, hsock⟩, hocc⟩, ⟨⟨8, hsock'⟩, hocc'⟩, hbc, huni⟩

end IocpDemo
