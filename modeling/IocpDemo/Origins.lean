/-
**Nothing is invented** (`OnConnected`, the handlers, `SendThread`, `SendBroadCastThread`).

What a client is sent has gone through a queue, a sender thread and perhaps the roster.  On this way
nothing comes into being: each packet was made by a call of `OnConnected` or by a frame that was
dispatched before the packet is sent, and is what this call or frame makes of it.  A roster packet
goes back to two logins: the one that it answers, and the one that has put the player into
`ConnectedPlayers`.

Main definitions:

* `IocpDemo.framesHandled` — the frames among the calls under `SendQueLock`;
* `IocpDemo.RosterOrigin`, `IocpDemo.UnicastOrigin`, `IocpDemo.BroadCastOrigin` — where a player of
  the roster, a unicast packet and a broadcast packet come from;
* `IocpDemo.Flow`, `IocpDemo.flows` — the calls under the lock and the calls of
  `SendPendingPacket`;
* `IocpDemo.Origins` — the invariant.

Main results:

* `IocpDemo.QueOrigins.step` — **every call under the lock keeps the origins**;
* `IocpDemo.sent_packets_have_origins` — **what is sent has been made before, and is sent where it
  belongs**.
-/

import IocpDemo.Deliveries
import IocpDemo.PacketMemory

set_option relaxedAutoImplicit false
set_option autoImplicit false

namespace IocpDemo

open Bytes Transition Wire

variable {cfg : Config} {s s' : Server} {n : ℕ} {e : Event} {R : Runtime} {q : SendQue}
  {ops ops' : List QueOp} {p : PacketBuffer}

/-! ### Origins -/

/-- The frames that have been handled, each with its handler. -/
def framesHandled (ops : List QueOp) : List (RecvFunc × List UInt8) :=
  ops.flatMap fun
    | .deSerializePacket packetID data => (findFunc packetID).toList.map fun f => (f, data)
    | _ => []

/-- A login that has been handled names the player, at the place where it stands. -/
def RosterOrigin (R : Runtime) (ops : List QueOp) (player : Int32 × ClientInfo) : Prop :=
  ∃ data, (.recvLoginPacket, data) ∈ framesHandled ops ∧
    player = ((idIndex (loginMessage R data)).toInt32, loginInfo (loginMessage R data))

/-- **Where a unicast packet comes from.** -/
inductive UnicastOrigin (R : Runtime) (ops : List QueOp) : PacketBuffer → Prop
  | connected {index : UInt16} (h : .onConnected index ∈ ops) :
      UnicastOrigin R ops (connPacket R.proto index)
  | roster {data : List UInt8} {player : Int32 × ClientInfo}
      (hlogin : (.recvLoginPacket, data) ∈ framesHandled ops) (hplayer : RosterOrigin R ops player)
      (hother : player.1 ≠ (idIndex (loginMessage R data)).toInt32) :
      UnicastOrigin R ops (rosterPacket R.proto (idIndex (loginMessage R data)).toInt32 player)

/-- **Where a broadcast packet comes from.** -/
def BroadCastOrigin (R : Runtime) (ops : List QueOp) (p : PacketBuffer) : Prop :=
  ∃ f data, (f, data) ∈ framesHandled ops ∧ p = (relayOf R data f).packet

theorem framesHandled_subset (h : ops ⊆ ops') : framesHandled ops ⊆ framesHandled ops' := by
  intro frame hframe
  obtain ⟨op, hop, hmem⟩ := List.mem_flatMap.1 hframe
  exact List.mem_flatMap.2 ⟨op, h hop, hmem⟩

/-- The origins stay what they are when more is called. -/
theorem RosterOrigin.mono {player : Int32 × ClientInfo} (hp : RosterOrigin R ops player)
    (h : ops ⊆ ops') : RosterOrigin R ops' player := by
  obtain ⟨data, hdata, heq⟩ := hp
  exact ⟨data, framesHandled_subset h hdata, heq⟩

theorem UnicastOrigin.mono (hp : UnicastOrigin R ops p) (h : ops ⊆ ops') :
    UnicastOrigin R ops' p := by
  cases hp with
  | connected hconn => exact .connected (h hconn)
  | roster hlogin hplayer hother =>
      exact .roster (framesHandled_subset h hlogin) (hplayer.mono h) hother

theorem BroadCastOrigin.mono (hp : BroadCastOrigin R ops p) (h : ops ⊆ ops') :
    BroadCastOrigin R ops' p := by
  obtain ⟨f, data, hdata, heq⟩ := hp
  exact ⟨f, data, framesHandled_subset h hdata, heq⟩

/-! ### The queues -/

/-- A login puts its own player into the roster. -/
theorem eq_of_mem_emplaceLogin {login : PMovement} {r : Roster} {player : Int32 × ClientInfo}
    (h : player ∈ emplaceLogin login r) :
    player ∈ r ∨ player = ((idIndex login).toInt32, loginInfo login) := by
  simp only [emplaceLogin] at h
  split at h
  · exact Or.inl h
  · rcases List.mem_append.1 h with hold | hnew
    · exact Or.inl hold
    · exact Or.inr (List.mem_singleton.1 hnew)

/-- **What waits in the queues and stands in the roster has an origin.** -/
structure QueOrigins (R : Runtime) (ops : List QueOp) (q : SendQue) : Prop where
  roster : ∀ player ∈ q.connectedPlayers, RosterOrigin R ops player
  unicast : ∀ p ∈ q.ioSendPacketQue, UnicastOrigin R ops p
  broadCast : ∀ p ∈ q.ioSendBCPacketQue, BroadCastOrigin R ops p

namespace QueOrigins

theorem mono (hq : QueOrigins R ops q) (h : ops ⊆ ops') : QueOrigins R ops' q where
  roster player hp := (hq.roster player hp).mono h
  unicast p hp := (hq.unicast p hp).mono h
  broadCast p hp := (hq.broadCast p hp).mono h

/-- A frame: the packets that it makes come from it. -/
theorem deSerializePacket (hq : QueOrigins R ops q) {packetID : UInt16} {data : List UInt8}
    (hframe : .deSerializePacket packetID data ∈ ops) :
    QueOrigins R ops (deSerializePacket R packetID data q) := by
  obtain ⟨hunicast, hroster⟩ := deSerializePacket_que R packetID data q
  have hbc := deSerializePacket_ioSendBCPacketQue R packetID data q
  have hhandled : ∀ f, findFunc packetID = some f → (f, data) ∈ framesHandled ops := by
    intro f hf
    exact List.mem_flatMap.2 ⟨_, hframe, by simp [hf]⟩
  -- what stands in the roster behind a login
  have hplayers : findFunc packetID = some .recvLoginPacket →
      ∀ player ∈ emplaceLogin (loginMessage R data) q.connectedPlayers,
        RosterOrigin R ops player := by
    intro hf player hplayer
    rcases eq_of_mem_emplaceLogin hplayer with hold | hnew
    · exact hq.roster player hold
    · exact ⟨data, hhandled _ hf, hnew⟩
  refine ⟨fun player hp => ?_, fun p hp => ?_, fun p hp => ?_⟩
  · rw [hroster] at hp
    by_cases hf : findFunc packetID = some .recvLoginPacket
    · rw [if_pos hf] at hp
      exact hplayers hf player hp
    · rw [if_neg hf] at hp
      exact hq.roster player hp
  · rw [hunicast] at hp
    rcases List.mem_append.1 hp with hold | hnew
    · exact hq.unicast p hold
    · by_cases hf : findFunc packetID = some .recvLoginPacket
      · rw [if_pos hf] at hnew
        obtain ⟨-, player, hplayer, hother, rfl⟩ := mem_loginPackets hnew
        exact .roster (hhandled _ hf) (hq.roster player hplayer) hother
      · rw [if_neg hf] at hnew
        cases hnew
  · rw [hbc] at hp
    rcases List.mem_append.1 hp with hold | hnew
    · exact hq.broadCast p hold
    · obtain ⟨f, hf, rfl⟩ := List.mem_map.1 hnew
      exact ⟨f, data, hhandled f (Option.mem_toList.1 hf), rfl⟩

/-- **Every call under the lock keeps the origins.** -/
theorem step (hq : QueOrigins R ops q) (op : QueOp) :
    QueOrigins R (ops ++ [op]) (queStep R q op) := by
  have hold := hq.mono (List.subset_append_left ops [op])
  have hop : op ∈ ops ++ [op] := List.mem_append_right ops (List.mem_singleton_self op)
  cases op with
  | onConnected index =>
      refine ⟨hold.roster, fun p hp => ?_, hold.broadCast⟩
      rcases List.mem_append.1 hp with hqueued | hnew
      · exact hold.unicast p hqueued
      · rw [List.mem_singleton.1 hnew]
        exact .connected hop
  | deSerializePacket packetID data => exact hold.deSerializePacket hop
  | getPendingPacket =>
      refine ⟨fun player hp => hold.roster player ?_, fun p hp => hold.unicast p ?_,
        fun p hp => hold.broadCast p ?_⟩
      · simpa [queStep] using hp
      · simp only [queStep, getPendingPacket_ioSendPacketQue] at hp
        exact List.mem_of_mem_tail hp
      · simpa [queStep] using hp
  | getPendingBCPacket =>
      refine ⟨fun player hp => hold.roster player ?_, fun p hp => hold.unicast p ?_,
        fun p hp => hold.broadCast p ?_⟩
      · simpa [queStep] using hp
      · simpa [queStep] using hp
      · simp only [queStep, getPendingBCPacket_ioSendBCPacketQue] at hp
        exact List.mem_of_mem_tail hp

end QueOrigins

/-! ### The sender threads -/

/-- What `SendThread` has in its hands behind a step, it had before, or it has taken it from the
queue. -/
theorem sendPackets_of_step (h : step cfg s e = some s') (hp : p ∈ s'.sendThread.packets) :
    p ∈ s.sendThread.packets ∨ p ∈ s.que.ioSendPacketQue := by
  rcases step_sendThread h with ⟨hsame, -⟩ | hmove
  · exact Or.inl (hsame ▸ hp)
  · generalize s'.sendThread = pc at hmove hp
    cases hmove with
    | entered _ => split at hp <;> cases hp
    | popped _ hpos =>
        cases hq : s.que.ioSendPacketQue with
        | nil => simp [getPendingPacket, hq] at hpos
        | cons x rest =>
            obtain rfl : p = x := by simpa [SendPc.packets, getPendingPacket, hq] using hp
            exact Or.inr List.mem_cons_self
    | @tested x conn hpc =>
        rw [hpc]
        rcases Server.sendNext_cases s.contexts x conn with hnext | hnext | hnext <;>
          rw [hnext] at hp
        · exact Or.inl hp
        · exact Or.inl hp
        · cases hp
    | copied hpc =>
        rw [hpc]
        exact Or.inl hp
    | empty _ _ | sent _ => cases hp

/-- The same of `SendBroadCastThread`. -/
theorem broadCastPackets_of_step (h : step cfg s e = some s')
    (hp : p ∈ s'.broadCastThread.packets) :
    p ∈ s.broadCastThread.packets ∨ p ∈ s.que.ioSendBCPacketQue := by
  rcases step_broadCastThread h with ⟨hsame, -⟩ | hmove
  · exact Or.inl (hsame ▸ hp)
  · generalize s'.broadCastThread = pc at hmove hp
    cases hmove with
    | entered _ => split at hp <;> cases hp
    | popped _ hpos =>
        cases hq : s.que.ioSendBCPacketQue with
        | nil => simp [getPendingBCPacket, hq] at hpos
        | cons x rest =>
            obtain rfl : p = x := by simpa [BroadCastPc.packets, getPendingBCPacket, hq] using hp
            exact Or.inr List.mem_cons_self
    | @tested x i hpc =>
        rw [hpc]
        rcases Server.bcNext_cases s.contexts x i with hnext | hnext | hnext <;>
          rw [hnext] at hp
        · cases hp
        · exact Or.inl hp
        · exact Or.inl hp
    | copied hpc =>
        rw [hpc]
        exact Or.inl hp
    | sent hpc =>
        rw [hpc]
        split at hp <;> exact Or.inl hp
    | empty _ _ => cases hp

/-! ### The log -/

/-- What happens to packets on their way. -/
inductive Flow
  /-- A call under `SendQueLock`. -/
  | locked (op : QueOp)
  /-- What a sender thread does with a packet at a slot. -/
  | delivered (d : Delivery)

/-- What a step logs. -/
def flows (cfg : Config) (s : Server) (e : Event) : List Flow :=
  (queOp cfg s e).toList.map .locked ++ (deliveries s e).map .delivered

/-- The server with this log. -/
abbrev flowSystem (cfg : Config) : Server × List Flow → Event → Option (Server × List Flow) :=
  logged (step cfg) (flows cfg)

/-- The calls under the lock of a log. -/
def lockedCalls (log : List Flow) : List QueOp :=
  log.filterMap fun
    | .locked op => some op
    | .delivered _ => none

theorem lockedCalls_flows (log : List Flow) (cfg : Config) (s : Server) (e : Event) :
    lockedCalls (log ++ flows cfg s e) = lockedCalls log ++ (queOp cfg s e).toList := by
  have hdelivered : ((deliveries s e).map Flow.delivered).filterMap (fun
      | .locked op => some op
      | .delivered _ => none) = [] := by
    rw [List.filterMap_map, List.filterMap_eq_nil_iff]
    exact fun _ _ => rfl
  cases hop : queOp cfg s e <;> simp [lockedCalls, flows, List.filterMap_append, hop, hdelivered]

/-- Where a step takes a packet to, it makes no call under the lock. -/
theorem queOp_of_deliveries (h : deliveries s e ≠ []) : queOp cfg s e = none := by
  cases e with
  | sendPacket | bcTest => rfl
  | _ => exact absurd rfl h

theorem length_flows_le (cfg : Config) (s : Server) (e : Event) : (flows cfg s e).length ≤ 1 := by
  by_cases h : deliveries s e = []
  · rw [flows, h]
    cases queOp cfg s e <;> simp
  · rw [flows, queOp_of_deliveries h]
    simpa using length_deliveries_le s e

/-! ### The invariant -/

/-- **Everything on its way has an origin.** -/
structure Origins (R : Runtime) (n : ℕ) (s : Server) (log : List Flow) : Prop where
  table : SlotTable n s
  que : QueOrigins R (lockedCalls log) s.que
  unicast : ∀ p ∈ s.sendThread.packets, UnicastOrigin R (lockedCalls log) p
  broadCast : ∀ p ∈ s.broadCastThread.packets, BroadCastOrigin R (lockedCalls log) p
  /-- So had all that has been sent, before it was sent. -/
  sent : ∀ l r i conn p, l ++ [.delivered (.call r i conn p)] <+: log →
    (r = .unicast ∧ p.packetIndex.toNat = i ∧ UnicastOrigin R (lockedCalls l) p) ∨
      r = .broadCast ∧ p.packetIndex.toNat ≠ i ∧ BroadCastOrigin R (lockedCalls l) p

namespace Origins

variable {log : List Flow}

theorem init (mem : ℕ → Mem) (n workers : ℕ) : Origins R n (initServer mem n workers) [] where
  table := SlotTable.init mem n workers
  que := by constructor <;> intro x hx <;> cases hx
  unicast p hp := by cases hp
  broadCast p hp := by cases hp
  sent l r i conn p hl := by simp at hl

/-- What is sent in a step is in the hands of a sender thread. -/
theorem sent_of_delivery (hs : Origins cfg.runtime n s log) {r : Route} {i conn : ℕ}
    (h : .call r i conn p ∈ deliveries s e) :
    (r = .unicast ∧ p.packetIndex.toNat = i ∧
        UnicastOrigin cfg.runtime (lockedCalls log) p) ∨
      r = .broadCast ∧ p.packetIndex.toNat ≠ i ∧
        BroadCastOrigin cfg.runtime (lockedCalls log) p := by
  obtain ⟨-, -, ⟨hr, -, hi, owner, hpc⟩ | ⟨hr, -, hpc, ctx, hctx, htarget⟩⟩ :=
    call_mem_deliveries h
  · exact Or.inl ⟨hr, hi, hs.unicast p (by rw [hpc]; exact List.mem_singleton_self p)⟩
  · refine Or.inr ⟨hr, ?_, hs.broadCast p (by rw [hpc]; exact List.mem_singleton_self p)⟩
    rintro rfl
    -- the slot that the packet is addressed to is gone past
    rw [Server.isBroadCastTarget, hs.table.getIndex_eq hctx] at htarget
    simp at htarget

theorem step (hs : Origins cfg.runtime n s log) (h : IocpDemo.step cfg s e = some s') :
    Origins cfg.runtime n s' (log ++ flows cfg s e) := by
  have hcalls := lockedCalls_flows log cfg s e
  have hsub : lockedCalls log ⊆ lockedCalls (log ++ flows cfg s e) := by
    rw [hcalls]
    exact List.subset_append_left _ _
  refine ⟨hs.table.step h, ?_, fun p hp => ?_, fun p hp => ?_, fun l r i conn p hl => ?_⟩
  · rw [hcalls, step_queOp h]
    cases queOp cfg s e with
    | none => simpa using hs.que
    | some op => exact hs.que.step op
  · rcases sendPackets_of_step h hp with hheld | hqueued
    · exact (hs.unicast p hheld).mono hsub
    · exact (hs.que.unicast p hqueued).mono hsub
  · rcases broadCastPackets_of_step h hp with hheld | hqueued
    · exact (hs.broadCast p hheld).mono hsub
    · exact (hs.que.broadCast p hqueued).mono hsub
  · rcases prefix_or_new (length_flows_le cfg s e) hl with hold | ⟨rfl, hnew⟩
    · exact hs.sent l r i conn p hold
    · rcases List.mem_append.1 hnew with hlocked | hdelivered
      · obtain ⟨op, -, hop⟩ := List.mem_map.1 hlocked
        cases hop
      · obtain ⟨d, hd, hcall⟩ := List.mem_map.1 hdelivered
        obtain rfl := Flow.delivered.inj hcall
        exact hs.sent_of_delivery hd

/-- **The invariant of all runs.** -/
theorem of_reach {P : Server × List Flow → Event → Prop} {mem : ℕ → Mem} {workers : ℕ}
    (h : Reach (flowSystem cfg) P (initServer mem n workers, []) (s, log)) :
    Origins cfg.runtime n s log :=
  h.logged_invariant (init mem n workers) fun _ _ _ _ hs _ hstep => hs.step hstep

end Origins

/-- **Nothing is invented.**  In every run, whatever the clients send and whatever the operating
system answers: when `SendThread` calls `SendPendingPacket`, it is on the slot that the packet is
addressed to, and the packet is the `Conn_C` packet of an earlier call of `OnConnected`, or an
earlier login has asked for it, and it tells about another player as this player's own earlier login
has placed it.  When `SendBroadCastThread` calls it, it is not on the slot that the packet is
addressed to, and the packet is what its handler makes of an earlier frame.  And every player of the
roster stands there as an earlier login has placed it. -/
theorem sent_packets_have_origins (cfg : Config) (mem : ℕ → Mem) (workers : ℕ) {log : List Flow}
    (h : Reach (flowSystem cfg) (fun _ _ => True) (initServer mem n workers, []) (s, log)) :
    (∀ l r i conn p, l ++ [.delivered (.call r i conn p)] <+: log →
      (r = .unicast ∧ p.packetIndex.toNat = i ∧ UnicastOrigin cfg.runtime (lockedCalls l) p) ∨
        r = .broadCast ∧ p.packetIndex.toNat ≠ i ∧
          BroadCastOrigin cfg.runtime (lockedCalls l) p) ∧
      ∀ player ∈ s.que.connectedPlayers, RosterOrigin cfg.runtime (lockedCalls log) player :=
  ⟨(Origins.of_reach h).sent, (Origins.of_reach h).que.roster⟩

/-- Which slot a sender thread has called, on which route. -/
def Flow.target : Flow → Option (Route × ℕ)
  | .delivered (.call r i _ _) => some (r, i)
  | _ => none

/-- The first packet that the first client is sent is one that `OnConnected` has made. -/
theorem first_packet_has_origin :
    ∃ s l conn p, Reach (flowSystem wireConfig) (fun _ _ => True) (wireServer 1, [])
        (s, l ++ [.delivered (.call .unicast 0 conn p)]) ∧
      UnicastOrigin wireRuntime (lockedCalls l) p := by
  obtain ⟨⟨s, log⟩, hreach, hlog⟩ := Reach.exists_of_run (flowSystem wireConfig) (wireServer 1, [])
    (.scanSlot :: acceptEvents 7 ++ [.sendTop, .popPacket, .sendPacket])
    (fun x : Server × List Flow => x.2.map Flow.target)
    (x := [none, none] ++ [some (.unicast, 0)]) (by decide +kernel)
  obtain ⟨l, last, rfl, -, hlast⟩ := List.map_eq_append_iff.1 hlog
  obtain ⟨d, rfl, hd⟩ := List.map_eq_singleton_iff.1 hlast
  cases d with
  | locked op => cases hd
  | delivered d =>
      cases d with
      | missed i p => cases hd
      | call r i conn p =>
          obtain ⟨rfl, rfl⟩ := Prod.mk.inj (Option.some.inj hd)
          refine ⟨s, l, conn, p, hreach, ?_⟩
          rcases (sent_packets_have_origins wireConfig (fun _ _ => 0) 1 hreach).1 l _ _ conn p
            (List.prefix_refl _) with ⟨-, -, horigin⟩ | ⟨hroute, -⟩
          · exact horigin
          · cases hroute

end IocpDemo
