/-
**The roster and the players who have left** (`ConnectedPlayers`).

The login handler inserts a player into `ConnectedPlayers`; nothing ever erases one.  `OnClosed`,
the hook that runs when a connection is closed, only prints a line.  So a player who has logged in
and left stays in the roster, and is announced to everybody who logs in later.

Main definitions:

* `IocpDemo.LogsInAsSelf` — what is assumed of the clients: each logs in with its own slot index;
* `IocpDemo.KeepsRoster` — the condition on a step: no slot of a player in the roster is freed, and
  a login is handled while its connection still occupies its slot;
* `IocpDemo.Live` — the slot is connected, and its occupant has logged in.

Main results:

* `IocpDemo.roster_names_live_players` — **then every player in the roster, and every player
  announced to a newcomer, has a live slot**;
* `IocpDemo.left_player_is_announced` — a player who has left is announced to the next one.
-/

import IocpDemo.Logins
import IocpDemo.WireFormat

set_option relaxedAutoImplicit false
set_option autoImplicit false

namespace IocpDemo

open Bytes Transition Wire

variable {cfg : Config} {s s' : Server} {n : ℕ}

/-- `Index` of the `i`-th context, the key under which its client logs in. -/
def slotKey (i : ℕ) : Int32 := (UInt32.ofNat i).toInt32

/-- Every client logs in with the index of its own slot. -/
def LogsInAsSelf (cfg : Config) (s : Server) (e : Event) : Prop :=
  ∀ login ∈ loginFrame cfg s e,
    frameIdIndex cfg.runtime login.2 .recvLoginPacket = UInt32.ofNat login.1.key

instance (cfg : Config) (s : Server) (e : Event) : Decidable (LogsInAsSelf cfg s e) :=
  inferInstanceAs (Decidable (∀ login ∈ loginFrame cfg s e, _))

/-- The slot that a step frees. -/
def forgottenSlot (s : Server) : Event → Option ℕ
  | .forgetSocket w =>
      match s.workThreads[w]? with
      | some (.forgetting c) => some c.key
      | _ => none
  | .disconnectForget k => s.disconnecting[k]?
  | _ => none

theorem forgottenSlot_of_forgets {e : Event} {i : ℕ} (h : Forgets s e i) :
    forgottenSlot s e = some i := by
  rcases h with ⟨w, c, rfl, hpc, rfl⟩ | ⟨k, rfl, hk⟩
  · simp [forgottenSlot, hpc]
  · exact hk

/-- No slot of a player in the roster is freed, and a login is handled while the connection it came
from still occupies its slot. -/
def KeepsRoster (cfg : Config) (s : Server) (e : Event) : Prop :=
  (∀ i ∈ forgottenSlot s e, ∀ player ∈ s.que.connectedPlayers, player.1 ≠ slotKey i) ∧
    ∀ login ∈ loginFrame cfg s e, (s.socketAt login.1.key).isSome = true ∧
      s.history.occupant login.1.key = login.1.conn

instance (cfg : Config) (s : Server) (e : Event) : Decidable (KeepsRoster cfg s e) :=
  inferInstanceAs (Decidable (_ ∧ _))

/-- The slot is connected, and its current occupant has logged in. -/
def Live (s : Server) (i : ℕ) : Prop :=
  (∃ sock, s.socketAt i = some sock) ∧ s.history.occupant i ∈ s.history.loggedIn

/-- Every player in the roster has a live slot. -/
def RosterLive (s : Server) : Prop :=
  ∀ player ∈ s.que.connectedPlayers, ∃ i, player.1 = slotKey i ∧ Live s i

theorem loggedIn_mono {e : Event} (h : step cfg s e = some s') {conn : ℕ}
    (hc : conn ∈ s.history.loggedIn) : conn ∈ s'.history.loggedIn := by
  rcases step_roster h with ⟨-, -, hl⟩ | ⟨c, data, -, -, hl⟩
  · rw [hl]
    exact hc
  · rw [hl]
    exact List.mem_cons_of_mem _ hc

/-- A live slot stays live while it is not freed: its socket stays, and no other connection is
attached to it. -/
theorem Live.step {e : Event} {i : ℕ} (hl : Live s i) (h : IocpDemo.step cfg s e = some s')
    (ht : SlotTable n s) (hkept : ¬ Forgets s e i) : Live s' i := by
  obtain ⟨⟨sock, hsock⟩, hin⟩ := hl
  have hfoot := step_socketAt h i
  refine ⟨?_, ?_⟩
  · generalize s'.socketAt i = x at hfoot ⊢
    cases hfoot with
    | same => exact ⟨sock, hsock⟩
    | @attached sock' conn he hpc => exact ⟨sock', rfl⟩
    | forgotten hf => exact absurd hf hkept
  · have hocc : s'.history.occupant i = s.history.occupant i := by
      by_cases he : e = .connectClient
      · subst he
        obtain ⟨j, sock', conn, hpc, rfl⟩ := Server.connectClient_some h
        have hne : i ≠ j := by
          rintro rfl
          have hfree := (ht.chosen_free i (by rw [hpc]; rfl)).2
          rw [hsock] at hfree
          cases hfree
        exact Function.update_of_ne hne _ _
      · rw [(step_frame h).occupant he]
    rw [hocc]
    exact loggedIn_mono h hin

theorem RosterLive.step {e : Event} (hr : RosterLive s) (h : IocpDemo.step cfg s e = some s')
    (ht : SlotTable n s) (hself : LogsInAsSelf cfg s e) (hkeeps : KeepsRoster cfg s e) :
    RosterLive s' := by
  intro player hplayer
  have hold : player ∈ s.que.connectedPlayers → ∃ i, player.1 = slotKey i ∧ Live s' i := by
    intro hmem
    obtain ⟨i, hkey, hlive⟩ := hr player hmem
    refine ⟨i, hkey, hlive.step h ht fun hf => ?_⟩
    exact hkeeps.1 i (forgottenSlot_of_forgets hf) player hmem hkey
  rcases step_roster h with ⟨-, hroster, -⟩ | ⟨c, data, hlogin, hroster, hl⟩
  · exact hold (hroster ▸ hplayer)
  · rw [hroster] at hplayer
    rcases mem_emplaceLogin hplayer with hmem | hkey
    · exact hold hmem
    · -- the player who has just logged in
      obtain ⟨hsock, hocc⟩ := hkeeps.2 _ hlogin
      have hindex : idIndex (loginMessage cfg.runtime data) = UInt32.ofNat c.key :=
        hself _ hlogin
      refine ⟨c.key, by rw [hkey, hindex]; rfl, ?_⟩
      cases e with
      | deSerialize w =>
          have hkept : ¬ Forgets s (.deSerialize w) c.key := by
            rintro (⟨v, c', he, -⟩ | ⟨k, he, -⟩) <;> cases he
          refine ⟨?_, ?_⟩
          · rw [step_socketAt_eq h (by simp) hkept]
            exact Option.isSome_iff_exists.1 hsock
          · rw [(step_frame h).occupant (by simp), hocc, hl]
            exact List.mem_cons_self
      | _ => cases hlogin

/-- **The roster names live players.**  In a run in which every client logs in with its own slot
index, no slot of a player in the roster is freed, and logins are handled while their connection
occupies its slot, every key of `ConnectedPlayers` is the index of a connected slot whose occupant
has logged in, and so is every player that a login is told about. -/
theorem roster_names_live_players {mem : ℕ → Mem} {workers : ℕ}
    (h : Reach (step cfg) (fun s e => LogsInAsSelf cfg s e ∧ KeepsRoster cfg s e)
      (initServer mem n workers) s) :
    (∀ player ∈ s.que.connectedPlayers, ∃ i ctx, s.contexts[i]? = some ctx ∧
        player.1 = ctx.index ∧ Live s i) ∧
      ∀ data, ∀ p ∈ loginPackets cfg.runtime data s.que.connectedPlayers, ∃ player i ctx,
        p = rosterPacket cfg.runtime.proto
          (frameIdIndex cfg.runtime data .recvLoginPacket).toInt32 player ∧
        s.contexts[i]? = some ctx ∧ player.1 = ctx.index ∧ Live s i := by
  have htable : SlotTable n s := SlotTable.of_reach h
  have hlive : RosterLive s := by
    refine h.and_invariant (fun t ht => SlotTable.of_reach (n := n) ht)
      (fun player hplayer => by cases hplayer) fun t e u ht _ hr hP hstep => ?_
    exact hr.step hstep ht hP.1 hP.2
  have hroster : ∀ player ∈ s.que.connectedPlayers, ∃ i ctx, s.contexts[i]? = some ctx ∧
      player.1 = ctx.index ∧ Live s i := by
    intro player hplayer
    obtain ⟨i, hkey, hl⟩ := hlive player hplayer
    obtain ⟨sock, hsock⟩ := hl.1
    obtain ⟨ctx, hctx, -⟩ := Option.bind_eq_some_iff.1 hsock
    exact ⟨i, ctx, hctx, by rw [hkey, htable.index i ctx hctx]; rfl, hl⟩
  refine ⟨hroster, fun data p hp => ?_⟩
  obtain ⟨-, player, hplayer, -, rfl⟩ := mem_loginPackets hp
  obtain ⟨i, ctx, hctx, hkey, hl⟩ := hroster player hplayer
  exact ⟨player, i, ctx, rfl, hctx, hkey, hl⟩

/-- A run in which two clients have logged in with their own indices. -/
theorem two_players_live :
    ∃ s i ctx, Reach (step wireConfig)
        (fun s e => LogsInAsSelf wireConfig s e ∧ KeepsRoster wireConfig s e) (wireServer 2) s ∧
      s.que.connectedPlayers.map Prod.fst = [0, 1] ∧
      s.contexts[i]? = some ctx ∧ ctx.index = 1 ∧ Live s i := by
  obtain ⟨s, hreach, hkeys⟩ := Reach.exists_of_runIf (step wireConfig)
    (fun s e => LogsInAsSelf wireConfig s e ∧ KeepsRoster wireConfig s e) (wireServer 2)
    (.scanSlot :: acceptEvents 7 ++ [.scanSlot, .scanSlot] ++ acceptEvents 8 ++
      serveEvents [6, 0, 2, 0, 10, 0] ++ serveEvents [8, 0, 2, 0, 10, 2, 8, 1])
    (fun s => s.que.connectedPlayers.map Prod.fst) (x := [0, 1]) (by decide +kernel)
  have hmem : (1 : Int32) ∈ s.que.connectedPlayers.map Prod.fst := by rw [hkeys]; decide
  obtain ⟨player, hplayer, hone⟩ := List.mem_map.1 hmem
  obtain ⟨i, ctx, hctx, hkey, hlive⟩ := (roster_names_live_players hreach).1 player hplayer
  exact ⟨s, i, ctx, hreach, hkeys, hctx, by rw [← hkey, hone], hlive⟩

/-- **A player who has left is announced to the next one**: the client in slot 0 logs in and its
connection fails; when the client in slot 1 logs in, slot 0 is free, and the packet that is queued
for slot 1 tells about player 0. -/
theorem left_player_is_announced :
    ∃ s player, Reach (step wireConfig) (LogsInAsSelf wireConfig) (wireServer 2) s ∧
      player ∈ s.que.connectedPlayers ∧ player.1 = slotKey 0 ∧ s.IsFree 0 ∧
      (s.que.ioSendPacketQue.getLast?.map fun p => (p.packetIndex, p.bytes)) =
        some (1, (rosterPacket wireRuntime.proto 1 player).bytes) := by
  obtain ⟨s, hreach, hfacts⟩ := Reach.exists_of_runIf (step wireConfig) (LogsInAsSelf wireConfig)
    (wireServer 2)
    (.scanSlot :: acceptEvents 7 ++ [.scanSlot, .scanSlot] ++ acceptEvents 8 ++
      serveEvents [6, 0, 2, 0, 10, 0] ++
      [.completeRecv 1 false [], .workTop 0, .getCompletion 0, .closeSocket 0, .forgetSocket 0] ++
      serveEvents [8, 0, 2, 0, 10, 2, 8, 1])
    (fun s => (s.que.connectedPlayers, s.socketAt 0,
      s.que.ioSendPacketQue.getLast?.map fun p => (p.packetIndex, p.bytes)))
    (x := ([(0, ⟨{}, {}⟩), (1, ⟨{}, {}⟩)], none,
      some (1, (rosterPacket wireRuntime.proto 1 (0, ⟨{}, {}⟩)).bytes))) (by decide +kernel)
  simp only [Prod.mk.injEq] at hfacts
  obtain ⟨hroster, hsock, hlast⟩ := hfacts
  have hlen := (SlotTable.of_reach (n := 2) hreach).length
  exact ⟨s, (0, ⟨{}, {}⟩), hreach, by rw [hroster]; simp, rfl, ⟨by omega, hsock⟩, hlast⟩

end IocpDemo
