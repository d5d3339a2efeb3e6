/-
**A player is announced before its state is** (`SendPacketBroadCast`, `SendLoginedPlayerPackets`).

The login of a player is queued for broadcast before its movements are, and `SendBroadCastThread`
works through its queue in order.  So whoever is connected when the login comes past is told about
the player before its state comes past.  Who connects later is told by the roster, which waits in
the other queue and only when the newcomer logs in; but the newcomer is a broadcast target from
`ConnectClient` on.  A roster packet is in the hands of `SendThread` until `WSASend` has been called
with it: only then the newcomer has been informed.

Main definitions:

* `IocpDemo.LoginFirst` — what is assumed of the clients: each logs in once, with the index of its
  slot, before it sends anything else, and stays connected; and sends succeed;
* `IocpDemo.NamesPlayer`, `IocpDemo.NewcomerInformed` — the condition on a step: a state frame names
  a player of the roster, and a newcomer that has missed a login is given the player's state only
  after the roster;
* `IocpDemo.Told`, `IocpDemo.Missed` — what the log says about a slot and a player;
* `IocpDemo.RosterUnsent`, `IocpDemo.ToldBefore` — what `SendThread` has still to send to the slot,
  and that the call which told it has returned;
* `IocpDemo.Heralded` — the invariant for a slot and a player.

Main results:

* `IocpDemo.announced_before_state` — **under the condition each player is announced to a slot
  before its state is sent there**, and the call with the announcement has returned by then;
* `IocpDemo.newcomer_sees_state_first` — a newcomer is sent the movement of a player that it has not
  been told about.
-/

import IocpDemo.FanOutOnce

set_option relaxedAutoImplicit false
set_option autoImplicit false

namespace IocpDemo

open Bytes Transition Wire

variable {cfg : Config} {s s' : Server} {n : ℕ} {e : Event} {log : List Delivery} {i j : ℕ}
  {P : Protobuf}

/-! ### The conditions -/

/-- Every client logs in once and with the index of its slot before it sends anything else, stays
connected, and is sent what is sent to it. -/
def LoginFirst (cfg : Config) (s : Server) (e : Event) : Prop :=
  FanOutOnceStep cfg s e ∧ ∀ frame ∈ handledFrame cfg s e,
    frame.2.1 ≠ .recvLoginPacket → frame.1.conn ∈ s.history.loggedIn

/-- The slot `i` has been told about the player `j` by the route. -/
def ToldBy (P : Protobuf) (route : Route) (log : List Delivery) (i j : ℕ) : Prop :=
  ∃ d ∈ log, Delivery.Tells P route i j d

/-- The slot `i` has been told about the player `j`. -/
def Told (P : Protobuf) (log : List Delivery) (i j : ℕ) : Prop :=
  ∃ d ∈ log, Delivery.Tells P .unicast i j d ∨ Delivery.Tells P .broadCast i j d

/-- The delivery goes past the slot `i`, which is free, with the login of the player `j`. -/
def Delivery.Misses (P : Protobuf) (i j : ℕ) : Delivery → Prop
  | .call _ _ _ _ => False
  | .missed slot p => slot = i ∧ Announces P p (UInt32.ofNat j)

/-- The delivery is a call that gives the slot `i` the state of the player `j`. -/
def Delivery.Carries (P : Protobuf) (i j : ℕ) : Delivery → Prop
  | .call _ slot _ p => slot = i ∧ StateOf P p (UInt32.ofNat j)
  | .missed _ _ => False

/-- The login of the player `j` has come past the slot `i` while it was free. -/
def Missed (P : Protobuf) (log : List Delivery) (i j : ℕ) : Prop :=
  ∃ d ∈ log, Delivery.Misses P i j d

/-- The player of the slot `j` is in the roster. -/
def Server.InRoster (s : Server) (j : ℕ) : Prop :=
  slotKey j ∈ s.que.connectedPlayers.map Prod.fst

/-- What is relayed as the state of a slot's player is relayed when the player is in the roster. -/
def NamesPlayer (cfg : Config) (s : Server) (e : Event) : Prop :=
  ∀ frame ∈ handledFrame cfg s e, ∀ j < s.contexts.length,
    StateOf cfg.runtime.proto (relayOf cfg.runtime frame.2.2 frame.2.1).packet (UInt32.ofNat j) →
      s.InRoster j

/-- The unicast packets that are queued or in the hands of `SendThread`, which has not sent them
yet. -/
def Server.unicastUnsent (s : Server) : List PacketBuffer :=
  s.sendThread.held.map Prod.fst ++ s.que.ioSendPacketQue

/-- A packet of the roster about the player `j` is still to be sent to the slot `i`. -/
def RosterUnsent (P : Protobuf) (s : Server) (i j : ℕ) : Prop :=
  ∃ q ∈ s.unicastUnsent, q.packetIndex.toNat = i ∧ Announces P q (UInt32.ofNat j)

/-- The client in the slot `i` has logged in, and no packet of the roster about the player `j` is
still to be sent to it. -/
def Informed (P : Protobuf) (s : Server) (i j : ℕ) : Prop :=
  Player Set.univ s i ∧ ¬ RosterUnsent P s i j

/-- The slot `i` has been told about the player `j`, and the call that told it has returned:
`SendBroadCastThread`, which is about to bring the next packet to a slot, has made it, or no packet
of the roster is still to be sent. -/
def ToldBefore (P : Protobuf) (s : Server) (log : List Delivery) (i j : ℕ) : Prop :=
  ToldBy P .broadCast log i j ∨ Told P log i j ∧ ¬ RosterUnsent P s i j

/-- If the packet is the state of a player whose login the slot `i` has missed, then the client in
the slot has been informed by the roster. -/
def InformedOf (P : Protobuf) (s : Server) (log : List Delivery) (p : PacketBuffer) (i : ℕ) :
    Prop :=
  ∀ j < s.contexts.length, j ≠ i ∧ StateOf P p (UInt32.ofNat j) ∧ Missed P log i j →
    Informed P s i j

/-- A client that has connected after the login of a player had come past is given the player's
state only after it has been informed by the roster. -/
def NewcomerInformed (cfg : Config) (x : Server × List Delivery) (e : Event) : Prop :=
  e = .bcTest → ∀ next ∈ x.1.broadCastThread.next, x.1.Connected next.2 →
    InformedOf cfg.runtime.proto x.1 x.2 next.1 next.2

instance (cfg : Config) (s : Server) (e : Event) : Decidable (LoginFirst cfg s e) :=
  inferInstanceAs (Decidable (_ ∧ ∀ frame ∈ handledFrame cfg s e, _))

instance (s : Server) (j : ℕ) : Decidable (s.InRoster j) :=
  inferInstanceAs (Decidable (slotKey j ∈ _))

instance (cfg : Config) (s : Server) (e : Event) : Decidable (NamesPlayer cfg s e) :=
  inferInstanceAs (Decidable (∀ frame ∈ handledFrame cfg s e, _))

instance (P : Protobuf) (i j : ℕ) : DecidablePred (Delivery.Misses P i j)
  | .call _ _ _ _ => inferInstanceAs (Decidable False)
  | .missed _ _ => inferInstanceAs (Decidable (_ ∧ _))

instance (P : Protobuf) (i j : ℕ) : DecidablePred (Delivery.Carries P i j)
  | .call _ _ _ _ => inferInstanceAs (Decidable (_ ∧ _))
  | .missed _ _ => inferInstanceAs (Decidable False)

instance (P : Protobuf) (log : List Delivery) (i j : ℕ) : Decidable (Told P log i j) :=
  inferInstanceAs (Decidable (∃ d ∈ log, _))

instance (P : Protobuf) (log : List Delivery) (i j : ℕ) : Decidable (Missed P log i j) :=
  inferInstanceAs (Decidable (∃ d ∈ log, _))

instance (s : Server) (i : ℕ) : Decidable (Player Set.univ s i) :=
  decidable_of_iff (s.Connected i ∧ s.history.occupant i ∈ s.history.loggedIn)
    ⟨fun h => ⟨h.1, trivial, h.2⟩, fun h => ⟨h.connected, h.loggedIn⟩⟩

instance (P : Protobuf) (s : Server) (i j : ℕ) : Decidable (RosterUnsent P s i j) :=
  inferInstanceAs (Decidable (∃ q ∈ s.unicastUnsent, _))

instance (P : Protobuf) (s : Server) (i j : ℕ) : Decidable (Informed P s i j) :=
  inferInstanceAs (Decidable (_ ∧ ¬ RosterUnsent P s i j))

instance (P : Protobuf) (s : Server) (log : List Delivery) (p : PacketBuffer) (i : ℕ) :
    Decidable (InformedOf P s log p i) :=
  inferInstanceAs (Decidable (∀ j < s.contexts.length, _))

instance (cfg : Config) (x : Server × List Delivery) (e : Event) :
    Decidable (NewcomerInformed cfg x e) :=
  inferInstanceAs (Decidable (e = .bcTest → ∀ next ∈ x.1.broadCastThread.next, _))

/-- The condition on a step. -/
def SpawnsFirst (cfg : Config) (x : Server × List Delivery) (e : Event) : Prop :=
  FanOutOnceStep cfg x.1 e ∧ NamesPlayer cfg x.1 e ∧ NewcomerInformed cfg x e

instance (cfg : Config) (x : Server × List Delivery) (e : Event) :
    Decidable (SpawnsFirst cfg x e) :=
  inferInstanceAs (Decidable (_ ∧ _ ∧ _))

/-! ### The log -/

theorem ToldBy.append {route : Route} (h : ToldBy P route log i j) (l : List Delivery) :
    ToldBy P route (log ++ l) i j := by
  obtain ⟨d, hd, htells⟩ := h
  exact ⟨d, List.mem_append_left _ hd, htells⟩

theorem Told.append (h : Told P log i j) (l : List Delivery) : Told P (log ++ l) i j := by
  obtain ⟨d, hd, htells⟩ := h
  exact ⟨d, List.mem_append_left _ hd, htells⟩

theorem ToldBefore.told (h : ToldBefore P s log i j) : Told P log i j := by
  rcases h with ⟨d, hd, htells⟩ | ⟨htold, -⟩
  · exact ⟨d, hd, Or.inr htells⟩
  · exact htold

theorem Missed.append (h : Missed P log i j) (l : List Delivery) : Missed P (log ++ l) i j := by
  obtain ⟨d, hd, hmiss⟩ := h
  exact ⟨d, List.mem_append_left _ hd, hmiss⟩

/-- The login of the player `j` has come past the slot `i`. -/
def Passed (P : Protobuf) (log : List Delivery) (i j : ℕ) : Prop :=
  ToldBy P .broadCast log i j ∨ Missed P log i j

theorem Passed.append (h : Passed P log i j) (l : List Delivery) : Passed P (log ++ l) i j :=
  h.imp (·.append l) (·.append l)

/-- `Led A B l`: no element of the list with the property `B` comes before the first one with the
property `A`. -/
def Led {α : Type} (A B : α → Prop) : List α → Prop
  | [] => True
  | a :: l => ¬ B a ∧ (A a ∨ Led A B l)

/-- What is appended behind an element with the property `A` may have the property `B`. -/
theorem Led.concat {α : Type} {A B : α → Prop} {l : List α} (h : Led A B l) {a : α}
    (ha : (∃ x ∈ l, A x) ∨ ¬ B a) : Led A B (l ++ [a]) := by
  induction l with
  | nil =>
      rcases ha with ⟨x, hx, -⟩ | hb
      · cases hx
      · exact ⟨hb, Or.inr trivial⟩
  | cons b l ih =>
      obtain ⟨hb, hled⟩ := h
      refine ⟨hb, ?_⟩
      by_cases hab : A b
      · exact Or.inl hab
      · refine Or.inr (ih (hled.resolve_left hab) ?_)
        rcases ha with ⟨x, hx, hxa⟩ | hnot
        · rcases List.mem_cons.1 hx with rfl | hx
          · exact absurd hxa hab
          · exact Or.inl ⟨x, hx, hxa⟩
        · exact Or.inr hnot

/-! ### One step -/

/-- A broadcast goes past a free slot. -/
theorem broadCastDelivery_of_free (ht : SlotTable n s) (hi : i < n) (hfree : ¬ s.Connected i)
    (p : PacketBuffer) : s.broadCastDelivery p i = [.missed i p] := by
  obtain ⟨ctx, hctx⟩ := Server.exists_context (ht.length.symm ▸ hi)
  have hconn : ctx.isConnected = false := by
    simpa using (not_congr (Server.connected_iff_context hctx)).1 hfree
  simp [Server.broadCastDelivery, hctx, Server.isBroadCastTarget, hconn]

/-- The announcement of another player tells the slot, or misses it. -/
theorem passed_of_announces (ht : SlotTable n s) (hn : n ≤ 65536) (hi : i < n) {p : PacketBuffer}
    (hp : Announces P p (UInt32.ofNat j)) (hindex : p.packetIndex.toNat ≠ i) :
    Passed P (log ++ s.broadCastDelivery p i) i j := by
  by_cases hconn : s.Connected i
  · rw [broadCastDelivery_of_connected ht hn hconn hindex]
    exact Or.inl ⟨_, List.mem_append_right _ (List.mem_singleton_self _), rfl, rfl, hp⟩
  · rw [broadCastDelivery_of_free ht hi hconn]
    exact Or.inr ⟨_, List.mem_append_right _ (List.mem_singleton_self _), rfl, hp⟩

/-- A player stays in the roster. -/
theorem Server.InRoster.step (hj : s.InRoster j) (h : step cfg s e = some s') : s'.InRoster j := by
  obtain ⟨player, hplayer, hkey⟩ := List.mem_map.1 hj
  exact List.mem_map.2 ⟨player, mem_roster_of_step h hplayer, hkey⟩

/-- Who comes into the roster has just logged in. -/
theorem inRoster_of_step (h : step cfg s e = some s') (hj : s'.InRoster j) :
    s.InRoster j ∨ ∃ c data, loginFrame cfg s e = some (c, data) ∧
      idIndex (loginMessage cfg.runtime data) = UInt32.ofNat j := by
  obtain ⟨player, hplayer, hkey⟩ := List.mem_map.1 hj
  rcases step_roster h with ⟨-, hroster, -⟩ | ⟨c, data, hlogin, hroster, -⟩
  · exact Or.inl (List.mem_map.2 ⟨player, hroster ▸ hplayer, hkey⟩)
  · rw [hroster] at hplayer
    rcases mem_emplaceLogin hplayer with hmem | hnew
    · exact Or.inl (List.mem_map.2 ⟨player, hmem, hkey⟩)
    · refine Or.inr ⟨c, data, hlogin, ?_⟩
      rw [← toUInt32_slotKey, ← hkey, hnew]
      simp

/-- A login puts the player into the roster. -/
theorem inRoster_of_login {c : Completion} {data : List UInt8} (h : step cfg s e = some s')
    (hlogin : loginFrame cfg s e = some (c, data))
    (hid : idIndex (loginMessage cfg.runtime data) = UInt32.ofNat j) : s'.InRoster j := by
  obtain ⟨player, hplayer, hkey⟩ :=
    exists_mem_emplaceLogin (loginMessage cfg.runtime data) s.que.connectedPlayers
  rw [Server.InRoster, (step_login h hlogin).connectedPlayers]
  exact List.mem_map.2 ⟨player, hplayer, by rw [hkey, hid]; rfl⟩

/-- What has not been handed over has not been sent. -/
theorem mem_unicastUnsent_of_mem_pending {q : PacketBuffer} (hq : q ∈ s.unicastPending) :
    q ∈ s.unicastUnsent := by
  rcases List.mem_append.1 hq with hwait | hqueued
  · refine List.mem_append_left _ ?_
    cases hpc : s.sendThread with
    | holding p conn =>
        rw [hpc] at hwait
        exact hwait
    | _ =>
        rw [hpc] at hwait
        cases hwait
  · exact List.mem_append_right _ hqueued

/-- A unicast packet is nobody's state. -/
def UnicastStateless (P : Protobuf) (s : Server) : Prop :=
  ∀ p ∈ s.unicastPending, ∀ id, ¬ StateOf P p id

theorem UnicastStateless.step (hs : UnicastStateless cfg.runtime.proto s)
    (h : IocpDemo.step cfg s e = some s') : UnicastStateless cfg.runtime.proto s' := by
  intro p hp
  cases step_unicastFlow h with
  | same hpend _ => exact hs p (hpend ▸ hp)
  | @greeted _ _ ctx _ _ _ hpend =>
      rw [hpend] at hp
      rcases List.mem_append.1 hp with hp | hp
      · exact hs p hp
      · intro id
        rw [List.mem_singleton.1 hp, connPacket_eq]
        exact not_stateOf_of_packetID (Or.inr (packetID_serializePacket _ _ .connC _))
  | login _ hpend =>
      rw [hpend] at hp
      rcases List.mem_append.1 hp with hp | hp
      · exact hs p hp
      · intro id
        obtain ⟨-, player, -, -, rfl⟩ := mem_loginPackets hp
        rw [rosterPacket_eq]
        exact not_stateOf_of_packetID (Or.inl (packetID_serializePacket _ _ .loginC _))
  | passed hpend _ _ | dropped hpend _ _ =>
      exact hs p (hpend ▸ List.mem_cons_of_mem _ hp)

/-! ### The invariant -/

/-- **What is known of the slot `i` and the player `j`.** -/
structure Heralded (P : Protobuf) (s : Server) (log : List Delivery) (i j : ℕ) : Prop where
  queued : ∀ q ∈ s.bcPending i, Announces P q (UInt32.ofNat j) →
    q.packetIndex.toNat = j ∧ s.InRoster j
  announced : s.InRoster j →
    Passed P log i j ∨ ∃ q ∈ s.bcPending i, Announces P q (UInt32.ofNat j)
  led : Passed P log i j ∨
    Led (Announces P · (UInt32.ofNat j)) (StateOf P · (UInt32.ofNat j)) (s.bcPending i)
  missed : Missed P log i j → s.InRoster j
  told : Missed P log i j → Player Set.univ s i → Told P log i j ∨
    ∃ q ∈ s.unicastPending, q.packetIndex.toNat = i ∧ Announces P q (UInt32.ofNat j)

namespace Heralded

theorem init (mem : ℕ → Mem) (n workers : ℕ) : Heralded P (initServer mem n workers) [] i j := by
  have hroster : ¬ (initServer mem n workers).InRoster j := by
    intro h
    cases h
  have hmissed : ¬ Missed P [] i j := fun ⟨d, hd, _⟩ => by cases hd
  exact ⟨fun q hq => (by cases hq), fun h => absurd h hroster, Or.inr trivial,
    fun h => absurd h hmissed, fun h => absurd h hmissed⟩

/-- The announcements in the queue: a new one is the login of the player. -/
theorem queued_step (hs : Heralded cfg.runtime.proto s log i j) (ht : SlotTable n s)
    (hR : cfg.runtime.proto.Lawful) (hn : n ≤ 65536) (h : IocpDemo.step cfg s e = some s')
    (hP : FanOutOnceStep cfg s e) (hi : i < n) (hj : j < n) {q : PacketBuffer}
    (hq : q ∈ s'.bcPending i) (hann : Announces cfg.runtime.proto q (UInt32.ofNat j)) :
    q.packetIndex.toNat = j ∧ s'.InRoster j := by
  have hold : q ∈ s.bcPending i → q.packetIndex.toNat = j ∧ s'.InRoster j := by
    intro hmem
    exact (hs.queued q hmem hann).imp_right (·.step h)
  cases step_broadCastFlow h (ht.length.symm ▸ hi) with
  | same hpend _ => exact hold (hpend ▸ hq)
  | @queued c f data hframe hpend =>
      rw [hpend] at hq
      rcases List.mem_append.1 hq with hq | hq
      · exact hold hq
      · obtain rfl := List.mem_singleton.1 hq
        obtain ⟨rfl, hid⟩ := (hP.1.announces_relay_iff hR hframe).1 hann
        refine ⟨?_, inRoster_of_login h (loginFrame_of_handledFrame hframe) hid.symm⟩
        rw [Relay.packetIndex_packet, idIndex_relayOf, ← hid]
        exact toNat_toUInt16_ofNat (by omega)
  | passed hpend _ _ | dropped hpend _ _ => exact hold (hpend ▸ List.mem_cons_of_mem _ hq)
  | again _ he => exact absurd he hP.2.2.2

/-- An announcement in the queue stays there, or comes past the slot. -/
theorem pending_step (hs : Heralded cfg.runtime.proto s log i j) (ht : SlotTable n s)
    (hn : n ≤ 65536) (h : IocpDemo.step cfg s e = some s') (hP : FanOutOnceStep cfg s e)
    (hi : i < n) (hij : i ≠ j) {q : PacketBuffer} (hq : q ∈ s.bcPending i)
    (hann : Announces cfg.runtime.proto q (UInt32.ofNat j)) :
    Passed cfg.runtime.proto (log ++ deliveries s e) i j ∨
      ∃ q ∈ s'.bcPending i, Announces cfg.runtime.proto q (UInt32.ofNat j) := by
  cases step_broadCastFlow h (ht.length.symm ▸ hi) with
  | same hpend _ => exact Or.inr ⟨q, hpend.symm ▸ hq, hann⟩
  | queued _ hpend => exact Or.inr ⟨q, hpend.symm ▸ List.mem_append_left _ hq, hann⟩
  | @passed p hpend _ hd =>
      have hindex := (hs.queued q hq hann).1
      rw [hpend] at hq
      rcases List.mem_cons.1 hq with rfl | hrest
      · rw [hd]
        exact Or.inl (passed_of_announces ht hn hi hann (by rw [hindex]; exact hij.symm))
      · exact Or.inr ⟨q, hrest, hann⟩
  | @dropped p hpend _ hzero =>
      rw [hpend] at hq
      rcases List.mem_cons.1 hq with rfl | hrest
      · exact absurd hzero hann.bufferSize_ne
      · exact Or.inr ⟨q, hrest, hann⟩
  | again _ he => exact absurd he hP.2.2.2

theorem announced_step (hs : Heralded cfg.runtime.proto s log i j) (ht : SlotTable n s)
    (hR : cfg.runtime.proto.Lawful) (hn : n ≤ 65536) (h : IocpDemo.step cfg s e = some s')
    (hP : FanOutOnceStep cfg s e) (hi : i < n) (hij : i ≠ j) (hj : s'.InRoster j) :
    Passed cfg.runtime.proto (log ++ deliveries s e) i j ∨
      ∃ q ∈ s'.bcPending i, Announces cfg.runtime.proto q (UInt32.ofNat j) := by
  rcases inRoster_of_step h hj with hj | ⟨c, data, hlogin, hid⟩
  · rcases hs.announced hj with hpassed | ⟨q, hq, hann⟩
    · exact Or.inl (hpassed.append _)
    · exact hs.pending_step ht hn h hP hi hij hq hann
  · -- the player has logged in with this step
    refine Or.inr ⟨(relayOf cfg.runtime data .recvLoginPacket).packet, ?_, ?_⟩
    · rw [(step_login h hlogin).bcPending]
      exact List.mem_append_right _ (List.mem_singleton_self _)
    · exact (hP.1.announces_relay_iff hR (handledFrame_of_loginFrame hlogin)).2 ⟨rfl, hid.symm⟩

/-- **A state is queued behind the announcement.** -/
theorem led_step (hs : Heralded cfg.runtime.proto s log i j) (ht : SlotTable n s)
    (hn : n ≤ 65536) (h : IocpDemo.step cfg s e = some s') (hP : FanOutOnceStep cfg s e)
    (hnames : NamesPlayer cfg s e) (hi : i < n) (hj : j < n) (hij : i ≠ j) :
    Passed cfg.runtime.proto (log ++ deliveries s e) i j ∨
      Led (Announces cfg.runtime.proto · (UInt32.ofNat j))
        (StateOf cfg.runtime.proto · (UInt32.ofNat j)) (s'.bcPending i) := by
  rcases hs.led with hpassed | hled
  · exact Or.inl (hpassed.append _)
  · cases step_broadCastFlow h (ht.length.symm ▸ hi) with
    | same hpend _ => exact Or.inr (hpend.symm ▸ hled)
    | @queued c f data hframe hpend =>
        rw [hpend]
        by_cases hstate : StateOf cfg.runtime.proto (relayOf cfg.runtime data f).packet
            (UInt32.ofNat j)
        · have hroster := hnames _ hframe j (ht.length.symm ▸ hj) hstate
          rcases hs.announced hroster with hpassed | hpending
          · exact Or.inl (hpassed.append _)
          · exact Or.inr (hled.concat (Or.inl hpending))
        · exact Or.inr (hled.concat (Or.inr hstate))
    | @passed p hpend he hd =>
        have hmem : p ∈ s.bcPending i := hpend ▸ List.mem_cons_self
        rw [hpend] at hled
        rcases hled.2 with hann | hrest
        · have hindex := (hs.queued p hmem hann).1
          rw [hd]
          exact Or.inl (passed_of_announces ht hn hi hann (by rw [hindex]; exact hij.symm))
        · exact Or.inr hrest
    | @dropped p hpend _ hzero =>
        rw [hpend] at hled
        rcases hled.2 with hann | hrest
        · exact absurd hzero hann.bufferSize_ne
        · exact Or.inr hrest
    | again _ he => exact absurd he hP.2.2.2

/-- A slot misses a login when it is free and the login is the next broadcast. -/
theorem missed_of_step (h : Missed P (log ++ deliveries s e) i j) :
    Missed P log i j ∨ e = .bcTest ∧ ¬ s.Connected i ∧
      ∃ p ∈ s.bcPending i, Announces P p (UInt32.ofNat j) := by
  obtain ⟨d, hd, hmiss⟩ := h
  rcases List.mem_append.1 hd with hd | hd
  · exact Or.inl ⟨d, hd, hmiss⟩
  · cases d with
    | call => exact absurd hmiss id
    | missed k p =>
        obtain ⟨rfl, hann⟩ := hmiss
        obtain ⟨he, hpc, hfree⟩ := missed_mem_deliveries hd
        refine Or.inr ⟨he, hfree, p, ?_, hann⟩
        simp [Server.bcPending, hpc, BroadCastPc.ahead]

theorem missed_step (hs : Heralded P s log i j)
    (h : IocpDemo.step cfg s e = some s') (hmissed : Missed P (log ++ deliveries s e) i j) :
    s'.InRoster j := by
  rcases missed_of_step hmissed with hold | ⟨-, -, p, hp, hann⟩
  · exact (hs.missed hold).step h
  · exact (hs.queued p hp hann).2.step h

/-- **A newcomer is told by the roster** about whom it has missed, when it logs in. -/
theorem told_step (hs : Heralded cfg.runtime.proto s log i j)
    (hf : FanOut cfg Set.univ n s log) (hR : cfg.runtime.proto.Lawful) (hn : n ≤ 65536)
    (h : IocpDemo.step cfg s e = some s') (hP : FanOutOnceStep cfg s e) (hi : i < n) (hj : j < n)
    (hij : i ≠ j) (hmissed : Missed cfg.runtime.proto (log ++ deliveries s e) i j)
    (hplayer : Player Set.univ s' i) :
    Told cfg.runtime.proto (log ++ deliveries s e) i j ∨ ∃ q ∈ s'.unicastPending,
      q.packetIndex.toNat = i ∧ Announces cfg.runtime.proto q (UInt32.ofNat j) := by
  rcases missed_of_step hmissed with hmissed | ⟨rfl, hfree, -⟩
  · rcases hf.player_of_step h hplayer with hplayer | ⟨c, data, hlogin, hconn, hocc, hc⟩
    · rcases hs.told hmissed hplayer with htold | ⟨q, hq, hindex, hann⟩
      · exact Or.inl (htold.append _)
      · cases step_unicastFlow h with
        | same hpend _ => exact Or.inr ⟨q, hpend.symm ▸ hq, hindex, hann⟩
        | greeted _ _ _ hpend | login _ hpend =>
            exact Or.inr ⟨q, hpend.symm ▸ List.mem_append_left _ hq, hindex, hann⟩
        | @passed p hpend _ hd =>
            rw [hpend] at hq
            rcases List.mem_cons.1 hq with rfl | hrest
            · refine Or.inl ⟨.call .unicast i (s.history.occupant i) q,
                List.mem_append_right _ ?_, Or.inl ⟨rfl, rfl, hann⟩⟩
              rw [hd, Server.unicastDelivery, hindex, if_pos hplayer.connected]
              exact List.mem_singleton_self _
            · exact Or.inr ⟨q, hrest, hindex, hann⟩
        | @dropped p hpend _ hzero =>
            rw [hpend] at hq
            rcases List.mem_cons.1 hq with rfl | hrest
            · exact absurd hzero hann.bufferSize_ne
            · exact Or.inr ⟨q, hrest, hindex, hann⟩
    · -- the client in the slot has logged in with this step
      have hid := hf.slot_of_login (hP.1.1.2 _ hlogin trivial).2 hconn hocc
      obtain ⟨player, hmem, hkey⟩ := List.mem_map.1 (hs.missed hmissed)
      exact Or.inr (rosterPacket_of_login hR h hlogin hid (by omega) (by omega) hij hmem hkey)
  · -- a slot that is free has no player behind a broadcast
    rcases connected_of_step h hplayer.connected with hconn | ⟨he, -⟩
    · exact absurd hconn hfree
    · cases he

/-- **Every step keeps the invariant.** -/
theorem step (hs : Heralded cfg.runtime.proto s log i j) (hf : FanOut cfg Set.univ n s log)
    (hR : cfg.runtime.proto.Lawful) (hn : n ≤ 65536) (h : IocpDemo.step cfg s e = some s')
    (hP : SpawnsFirst cfg (s, log) e) (hi : i < n) (hj : j < n) (hij : i ≠ j) :
    Heralded cfg.runtime.proto s' (log ++ deliveries s e) i j where
  queued _ hq hann := hs.queued_step hf.table hR hn h hP.1 hi hj hq hann
  announced := hs.announced_step hf.table hR hn h hP.1 hi hij
  led := hs.led_step hf.table hn h hP.1 hP.2.1 hi hj hij
  missed := hs.missed_step h
  told := hs.told_step hf hR hn h hP.1 hi hj hij

/-- The state of a player is brought to a slot that has been told about the player. -/
theorem told_of_call (hs : Heralded cfg.runtime.proto s log i j) (ht : SlotTable n s)
    (hnew : NewcomerInformed cfg (s, log) .bcTest) (hj : j < n) (hij : i ≠ j)
    (hi : s.Connected i) {p : PacketBuffer} (hpc : s.broadCastThread = .looping p i)
    (hstate : StateOf cfg.runtime.proto p (UInt32.ofNat j)) :
    ToldBefore cfg.runtime.proto s log i j := by
  have hpend : s.bcPending i = p :: s.que.ioSendBCPacketQue := by
    simp [Server.bcPending, hpc, BroadCastPc.ahead]
  rcases hs.led with (htold | hmissed) | hled
  · exact Or.inl htold
  · -- the slot has missed the login, so its client has been informed by the roster
    obtain ⟨hplayer, hnone⟩ := hnew rfl (p, i) (by simp [hpc, BroadCastPc.next]) hi j
      (ht.length.symm ▸ hj) ⟨hij.symm, hstate, hmissed⟩
    rcases hs.told hmissed hplayer with htold | ⟨q, hq, hindex, hann⟩
    · exact Or.inr ⟨htold, hnone⟩
    · exact absurd ⟨q, mem_unicastUnsent_of_mem_pending hq, hindex, hann⟩ hnone
  · rw [hpend] at hled
    exact absurd hstate hled.1

end Heralded

/-! ### The result -/

/-- In the log each player is announced to a slot before its state is sent there. -/
def IntroducedFirst (P : Protobuf) (n : ℕ) (log : List Delivery) : Prop :=
  ∀ l d, l ++ [d] <+: log → ∀ i, ∀ j < n, j ≠ i → d.Carries P i j → Told P l i j

/-- Whoever is given the state of a player with the next step has been told about the player by a
call that has returned. -/
def IntroducedNext (cfg : Config) (n : ℕ) (x : Server × List Delivery) : Prop :=
  ∀ e, SpawnsFirst cfg x e → ∀ d ∈ deliveries x.1 e, ∀ i, ∀ j < n, j ≠ i →
    d.Carries cfg.runtime.proto i j → ToldBefore cfg.runtime.proto x.1 x.2 i j

/-- What has been shown of the runs under the condition. -/
structure Introduced (cfg : Config) (n : ℕ) (s : Server) (log : List Delivery) : Prop where
  announced : Announced cfg n s log
  heralded : ∀ i j, i < n → j < n → i ≠ j → Heralded cfg.runtime.proto s log i j
  stateless : UnicastStateless cfg.runtime.proto s
  introducedFirst : IntroducedFirst cfg.runtime.proto n log

namespace Introduced

theorem init (mem : ℕ → Mem) (n workers : ℕ) : Introduced cfg n (initServer mem n workers) [] where
  announced := Announced.init mem n workers
  heralded _ _ _ _ _ := Heralded.init mem n workers
  stateless p hp := by cases hp
  introducedFirst l d h := by simp at h

/-- Who is given a state has been told about the player. -/
theorem introducedNext (hs : Introduced cfg n s log) : IntroducedNext cfg n (s, log) := by
  intro e hP d hd i j hj hji hcarries
  change d ∈ deliveries s e at hd
  have ht := hs.announced.fanOut.table
  cases d with
  | missed k p => exact absurd hcarries id
  | call r k conn p =>
      obtain ⟨rfl, hstate⟩ := hcarries
      obtain ⟨hconn, -, ⟨-, -, -, owner, hpc⟩ | ⟨-, rfl, hpc, -⟩⟩ := call_mem_deliveries hd
      · refine absurd hstate (hs.stateless p ?_ _)
        simp [Server.unicastPending, hpc, SendPc.waiting]
      · exact (hs.heralded k j (hconn.lt ht) hj hji.symm).told_of_call ht hP.2.2 hj hji.symm hconn
          hpc hstate

/-- The call that a step makes is the only one that is new. -/
theorem introducedFirst_step (hs : Introduced cfg n s log) (hP : SpawnsFirst cfg (s, log) e) :
    IntroducedFirst cfg.runtime.proto n (log ++ deliveries s e) := by
  intro l d hprefix i j hj hji hcarries
  rcases prefix_or_new (length_deliveries_le s e) hprefix with hold | ⟨rfl, hd⟩
  · exact hs.introducedFirst l d hold i j hj hji hcarries
  · exact (hs.introducedNext e hP d hd i j hj hji hcarries).told

theorem of_reach (hR : cfg.runtime.proto.Lawful) (hn : n ≤ 65536) {mem : ℕ → Mem} {workers : ℕ}
    (h : Reach (deliverySystem cfg) (SpawnsFirst cfg) (initServer mem n workers, []) (s, log)) :
    Introduced cfg n s log := by
  refine h.logged_invariant (I := Introduced cfg n) (init mem n workers) ?_
  intro t l e u hx hP hstep
  exact ⟨hx.announced.step hR hn hstep hP.1,
    fun i j hi hj hij =>
      (hx.heralded i j hi hj hij).step hx.announced.fanOut hR hn hstep hP hi hj hij,
    hx.stateless.step hstep, hx.introducedFirst_step hP⟩

end Introduced

/-- **A player is announced before its state is.**  In a run in which all clients stay connected,
each logs in once with the index of its slot, every send succeeds, and each step meets the
condition, `SendPendingPacket` is called on a slot with the state of another slot's player only
after it has been called there with a `Login_C` packet about this player; and this call has returned
by then. -/
theorem announced_before_state (hR : cfg.runtime.proto.Lawful) (hn : n ≤ 65536) {mem : ℕ → Mem}
    {workers : ℕ}
    (h : Reach (deliverySystem cfg) (SpawnsFirst cfg) (initServer mem n workers, []) (s, log)) :
    IntroducedFirst cfg.runtime.proto n log ∧ IntroducedNext cfg n (s, log) :=
  ⟨(Introduced.of_reach hR hn h).introducedFirst, (Introduced.of_reach hR hn h).introducedNext⟩

/-- The `k`-th outstanding receive, of the client in the slot 0, completes with a movement, which is
broadcast up to the slot 1. -/
def broadCastMovementEvents (k : ℕ) : List Event :=
  [.completeRecv k true [6, 0, 6, 0, 10, 0], .workTop 0, .getCompletion 0, .deSerialize 0, .bcTop,
    .popBCPacket, .bcTest, .bcTest]

/-- A run in which the second client is told about the first one before it is given its movement. -/
theorem movement_after_login :
    ∃ s log d, Reach (deliverySystem wireConfig) (SpawnsFirst wireConfig) (wireServer 2, [])
        (s, log ++ [d]) ∧ d.Carries wireProtobuf 1 0 ∧ Told wireProtobuf log 1 0 := by
  obtain ⟨⟨s, log⟩, hreach, hlast⟩ := Reach.exists_of_runIf (deliverySystem wireConfig)
    (SpawnsFirst wireConfig) (wireServer 2, []) (broadCastLoginEvents ++ broadCastMovementEvents 1)
    (fun x : Server × List Delivery =>
      x.2.getLast?.map fun d : Delivery => decide (d.Carries wireProtobuf 1 0))
    (x := some true) (by decide +kernel)
  obtain ⟨d, hd, hcarries⟩ := Option.map_eq_some_iff.1 hlast
  obtain ⟨l, rfl⟩ := List.getLast?_eq_some_iff.1 hd
  have hcarries := of_decide_eq_true hcarries
  exact ⟨s, l, d, hreach, hcarries,
    (announced_before_state lawful_wireProtobuf (by decide) hreach).1 l d List.prefix_rfl 1 0
      (by decide) (by decide) hcarries⟩

/-- **A newcomer is given the movement of a player it has not been told about.**  The first client
logs in, and its login is broadcast, before the second one connects; what it sends then is broadcast
to the second one, which has not logged in. -/
theorem newcomer_sees_state_first :
    ∃ s log d, Reach (deliverySystem wireConfig) (fun x e => LoginFirst wireConfig x.1 e)
        (wireServer 2, []) (s, log ++ [d]) ∧ s.OccupiedBy 0 0 ∧ s.OccupiedBy 1 1 ∧
      d.Carries wireProtobuf 1 0 ∧ ¬ Told wireProtobuf log 1 0 := by
  obtain ⟨⟨s, log⟩, hreach, hfacts⟩ := Reach.exists_of_runIf (deliverySystem wireConfig)
    (fun x e => LoginFirst wireConfig x.1 e) (wireServer 2, [])
    (.scanSlot :: acceptEvents 7 ++ serveEvents [6, 0, 2, 0, 10, 0] ++
      [.bcTop, .popBCPacket, .bcTest, .bcTest, .bcTest, .scanSlot, .scanSlot] ++ acceptEvents 8 ++
      broadCastMovementEvents 0)
    (fun x : Server × List Delivery =>
      ((x.1.socketAt 0, x.1.history.occupant 0), (x.1.socketAt 1, x.1.history.occupant 1),
        x.2.getLast?.map fun d : Delivery => decide (d.Carries wireProtobuf 1 0),
        decide (Told wireProtobuf x.2.dropLast 1 0)))
    (x := ((some 7, 0), (some 8, 1), some true, false)) (by decide +kernel)
  simp only [Prod.mk.injEq] at hfacts
  obtain ⟨⟨hsock, hocc⟩, ⟨hsock', hocc'⟩, hlast, htold⟩ := hfacts
  obtain ⟨d, hd, hcarries⟩ := Option.map_eq_some_iff.1 hlast
  obtain ⟨l, rfl⟩ := List.getLast?_eq_some_iff.1 hd
  rw [List.dropLast_concat] at htold
  exact ⟨s, l, d, hreach, ⟨⟨7, hsock⟩, hocc⟩, ⟨⟨8, hsock'⟩, hocc'⟩, of_decide_eq_true hcarries,
    of_decide_eq_false htold⟩

end IocpDemo
