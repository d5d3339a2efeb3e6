/-
**Which unicast packets are lost** (`SendThread`, `SendPacket`).

`SendThread` takes a packet from `IOSendPacketQue` before it knows whether the packet can be sent,
and it drops the result of `SendPacket`.  So each packet is tried once: when its `WSASend` fails,
although its client is still connected, the packet is gone.

The client of a packet is the connection that occupies the slot which the packet names, at the
moment when the packet is pushed.

Main definitions:

* `IocpDemo.UnicastEvent`, `IocpDemo.unicastEvents` — the pushes to `IOSendPacketQue`, and the
  packets that `SendThread` is done with, with the results of their sends;
* `IocpDemo.SendsAccepted` — the condition on a step;
* `IocpDemo.UnicastsKept` — the invariant.

Main results:

* `IocpDemo.step_balances_finished` — each packet is finished once, in the order of the pushes;
* `IocpDemo.gone_of_step` — a client that has left its slot never occupies it again;
* `IocpDemo.unicast_not_lost` — **no packet is lost whose client stays, if no send for a connected
  client fails**.
-/

import IocpDemo.PacketMemory
import IocpDemo.Occupancy
import IocpDemo.WireLaws

set_option relaxedAutoImplicit false
set_option autoImplicit false

namespace IocpDemo

open Bytes Transition Conveyor Wire

variable {cfg : Config} {s s' : Server} {n : ℕ} {e : Event} {p : PacketBuffer} {conn : ℕ}

/-! ### What happens to unicast packets -/

/-- What happens to unicast packets. -/
inductive UnicastEvent
  /-- The packet is pushed; `client` is the connection in the slot it names, if there is one. -/
  | pushed (p : PacketBuffer) (client : Option ℕ)
  /-- `SendThread` is done with the packet, which has been sent or not. -/
  | finished (p : PacketBuffer) (sent : Bool)

namespace UnicastEvent

/-- A packet that is pushed, with its client. -/
def push : UnicastEvent → List (PacketBuffer × Option ℕ)
  | .pushed p client => [(p, client)]
  | .finished _ _ => []

/-- A packet that `SendThread` is done with, and whether it has been sent. -/
def outcome : UnicastEvent → List (PacketBuffer × Bool)
  | .finished p sent => [(p, sent)]
  | .pushed _ _ => []

end UnicastEvent

/-- The connection that occupies a slot. -/
def Server.clientAt (s : Server) (i : ℕ) : Option ℕ :=
  if s.Connected i then some (s.history.occupant i) else none

theorem Server.clientAt_eq_some_iff {i : ℕ} : s.clientAt i = some conn ↔ s.OccupiedBy i conn := by
  rw [Server.clientAt, Server.OccupiedBy, ← Server.connected_iff]
  by_cases hconnected : s.Connected i <;> simp [hconnected]

/-- The packets that `SendThread` is done with. -/
def sendOutcomes (s : Server) : Event → List UnicastEvent
  | .sendPacket =>
      match s.sendThread with
      | .holding p _ =>
          match s.contexts[p.packetIndex.toNat]? with
          | none => []
          | some c => if c.isConnected then [] else [.finished p false]
      | _ => []
  | .sendWsa r =>
      match s.sendThread with
      | .sending p _ => [.finished p r.isSome]
      | _ => []
  | _ => []

/-- What a step does to unicast packets. -/
def unicastEvents (cfg : Config) (s : Server) (e : Event) : List UnicastEvent :=
  ((traffic cfg s e).flatMap Traffic.unicastPushed).map
      (fun p => .pushed p (s.clientAt p.packetIndex.toNat)) ++ sendOutcomes s e

/-- The server with this log. -/
abbrev unicastSystem (cfg : Config) : Server × List UnicastEvent → Event →
    Option (Server × List UnicastEvent) := logged (step cfg) (unicastEvents cfg)

/-- The packets that have been pushed. -/
def pushes (log : List UnicastEvent) : List (PacketBuffer × Option ℕ) :=
  log.flatMap UnicastEvent.push

/-- The packets that `SendThread` is done with. -/
def outcomes (log : List UnicastEvent) : List (PacketBuffer × Bool) :=
  log.flatMap UnicastEvent.outcome

/-- A send of `SendThread` fails only for a packet whose client has left its slot. -/
def SendsAccepted (x : Server × List UnicastEvent) (e : Event) : Prop :=
  e = .sendWsa none → ∀ p conn, (pushes x.2)[(outcomes x.2).length]? = some (p, some conn) →
    ¬ x.1.OccupiedBy p.packetIndex.toNat conn

theorem pushes_append (log log' : List UnicastEvent) :
    pushes (log ++ log') = pushes log ++ pushes log' := List.flatMap_append

theorem outcomes_append (log log' : List UnicastEvent) :
    outcomes (log ++ log') = outcomes log ++ outcomes log' := List.flatMap_append

theorem outcomes_map_pushed (l : List PacketBuffer) :
    outcomes (l.map fun p => .pushed p (s.clientAt p.packetIndex.toNat)) = [] := by
  induction l with
  | nil => rfl
  | cons p l ih => exact ih

theorem pushes_sendOutcomes (s : Server) (e : Event) : pushes (sendOutcomes s e) = [] := by
  cases e with
  | sendPacket =>
      simp only [sendOutcomes]
      split
      · split
        · rfl
        · split <;> rfl
      · rfl
  | sendWsa r =>
      simp only [sendOutcomes]
      split <;> rfl
  | _ => rfl

/-- A step finishes at most the packet that `SendThread` holds. -/
theorem sendOutcomes_cases (s : Server) (e : Event) : outcomes (sendOutcomes s e) = [] ∨
    ∃ p sent, s.sendThread.packets = [p] ∧ outcomes (sendOutcomes s e) = [(p, sent)] := by
  cases e with
  | sendPacket =>
      cases hpc : s.sendThread with
      | holding p conn =>
          simp only [sendOutcomes, hpc]
          split
          · exact Or.inl rfl
          · split
            · exact Or.inl rfl
            · exact Or.inr ⟨p, false, rfl, rfl⟩
      | _ => exact Or.inl (by simp [sendOutcomes, hpc, outcomes])
  | sendWsa r =>
      cases hpc : s.sendThread with
      | sending p conn => exact Or.inr ⟨p, r.isSome, rfl, by simp [sendOutcomes, hpc, outcomes,
          UnicastEvent.outcome]⟩
      | _ => exact Or.inl (by simp [sendOutcomes, hpc, outcomes])
  | _ => exact Or.inl rfl

/-- A step's pushes, with their clients. -/
theorem pushes_unicastEvents (cfg : Config) (s : Server) (e : Event) :
    pushes (unicastEvents cfg s e) = ((traffic cfg s e).flatMap Traffic.unicastPushed).map
      fun p => (p, s.clientAt p.packetIndex.toNat) := by
  rw [unicastEvents, pushes_append, pushes_sendOutcomes, List.append_nil, pushes,
    List.flatMap_map, List.map_eq_flatMap]
  rfl

theorem outcomes_unicastEvents (cfg : Config) (s : Server) (e : Event) :
    outcomes (unicastEvents cfg s e) = outcomes (sendOutcomes s e) := by
  rw [unicastEvents, outcomes_append, outcomes_map_pushed, List.nil_append]

/-! ### Each packet is finished once -/

/-- `IOSendPacketQue`, and the packet that `SendThread` has taken and is not done with. -/
def Server.sendBelt (s : Server) : Belt PacketBuffer :=
  ⟨s.sendThread.packets, s.que.ioSendPacketQue⟩

/-- A step in which `SendThread` takes no packet and is done with none. -/
theorem balances_of_packets (h : step cfg s e = some s') (hpop : e ≠ .popPacket)
    (hnone : outcomes (sendOutcomes s e) = [])
    (hpackets : s'.sendThread.packets = s.sendThread.packets) :
    Balances PacketBuffer.Nonempty s.sendBelt ((traffic cfg s e).flatMap Traffic.unicastPushed)
      ((outcomes (sendOutcomes s e)).map Prod.fst) s'.sendBelt := by
  rw [Server.sendBelt, Server.sendBelt, hpackets, step_ioSendPacketQue h hpop, hnone]
  exact balances_push _ _ _ _

/-- `SendThread` takes the first packet, and drops it if its size is zero. -/
theorem popPacket_balances (h : s.popPacket = some s') :
    Balances PacketBuffer.Nonempty s.sendBelt
      ((traffic cfg s .popPacket).flatMap Traffic.unicastPushed) [] s'.sendBelt := by
  obtain ⟨hpc, rfl⟩ := Server.popPacket_some h
  have hbelt : s.sendBelt = ⟨[], s.que.ioSendPacketQue⟩ := by
    rw [Server.sendBelt, hpc]
    rfl
  rw [hbelt]
  cases hq : s.que.ioSendPacketQue with
  | nil =>
      simp [Server.sendBelt, getPendingPacket, hq, SendPc.packets, traffic, queOp, queueTraffic,
        consumed, Balances.refl]
  | cons p ps =>
      have hpop := balances_pop PacketBuffer.Nonempty p ps
      by_cases hp : p.Nonempty <;>
        simpa [Server.sendBelt, getPendingPacket, hq, hp, SendPc.packets, traffic, queOp,
          queueTraffic, consumed] using hpop

/-- A packet whose client is not connected is finished without being sent. -/
theorem sendPacket_balances (h : s.sendPacket = some s') :
    Balances PacketBuffer.Nonempty s.sendBelt
      ((traffic cfg s .sendPacket).flatMap Traffic.unicastPushed)
      ((outcomes (sendOutcomes s .sendPacket)).map Prod.fst) s'.sendBelt := by
  obtain ⟨p, conn, hpc, hs'⟩ := Server.sendPacket_some h
  have hbelt : s.sendBelt = ⟨[p], s.que.ioSendPacketQue⟩ := by
    rw [Server.sendBelt, hpc]
    rfl
  cases hctx : s.contexts[p.packetIndex.toNat]? with
  | none =>
      refine balances_of_packets (e := .sendPacket) h (by simp)
        (by simp [sendOutcomes, hpc, hctx, outcomes]) ?_
      rw [hs', hpc]
      simp [Server.sendNext, hctx, SendPc.packets]
  | some c =>
      cases hconnected : c.isConnected with
      | true =>
          refine balances_of_packets (e := .sendPacket) h (by simp)
            (by simp [sendOutcomes, hpc, hctx, hconnected, outcomes]) ?_
          rw [hs', hpc]
          simp [Server.sendNext, hctx, hconnected, SendPc.packets]
      | false =>
          have hgive := balances_give PacketBuffer.Nonempty [p] s.que.ioSendPacketQue
          rw [hbelt, hs']
          simpa [Server.sendBelt, Server.sendNext, hctx, hconnected, SendPc.packets, traffic,
            queOp, consumed, hpc, Traffic.unicastPushed, sendOutcomes, outcomes,
            UnicastEvent.outcome] using hgive

/-- **Each packet is finished once, in the order of the pushes.** -/
theorem step_balances_finished (h : step cfg s e = some s') :
    Balances PacketBuffer.Nonempty s.sendBelt ((traffic cfg s e).flatMap Traffic.unicastPushed)
      ((outcomes (sendOutcomes s e)).map Prod.fst) s'.sendBelt := by
  cases e with
  | popPacket => exact popPacket_balances h
  | sendPacket => exact sendPacket_balances h
  | sendWsa r =>
      obtain ⟨p, conn, hpc, -, rfl⟩ := Server.sendWsa_some h
      have hbelt : s.sendBelt = ⟨[p], s.que.ioSendPacketQue⟩ := by
        rw [Server.sendBelt, hpc]
        rfl
      have hgive := balances_give PacketBuffer.Nonempty [p] s.que.ioSendPacketQue
      rw [hbelt]
      simpa [Server.sendBelt, SendPc.packets, traffic, queOp, consumed, hpc, sendOutcomes, outcomes,
        UnicastEvent.outcome] using hgive
  | sendTop =>
      refine balances_of_packets h (by simp) rfl ?_
      obtain ⟨hpc, rfl⟩ := Server.sendTop_some h
      rw [hpc]
      split <;> rfl
  | sendCopy =>
      refine balances_of_packets h (by simp) rfl ?_
      obtain ⟨p, conn, hpc, rfl⟩ := Server.sendCopy_some h
      rw [hpc]
      rfl
  | _ =>
      exact balances_of_packets h (by simp) rfl
        (by rw [(step_frame h).sendThread (by simp [Event.thread])])

/-! ### The packets and their clients -/

/-- The unicast packets are connection packets and roster packets. -/
theorem mem_unicastPushed (h : p ∈ (traffic cfg s e).flatMap Traffic.unicastPushed) :
    (∃ index, p = connPacket cfg.runtime.proto index) ∨
      ∃ target player, p = rosterPacket cfg.runtime.proto target player := by
  rw [traffic, List.flatMap_append, (consumed_pushed s e).1, List.append_nil] at h
  obtain ⟨t, ht, hp⟩ := List.mem_flatMap.1 h
  obtain ⟨op, -, ht⟩ := List.mem_flatMap.1 ht
  cases op with
  | onConnected index =>
      obtain rfl := List.mem_singleton.1 ht
      exact Or.inl ⟨index, List.mem_singleton.1 hp⟩
  | deSerializePacket packetID data =>
      obtain ⟨f, -, rfl⟩ := List.mem_map.1 ht
      split at hp
      · rw [Traffic.unicastPushed, loginPackets_eq] at hp
        obtain ⟨player, -, rfl⟩ := List.mem_map.1 hp
        exact Or.inr ⟨_, player, rfl⟩
      · cases hp
  | getPendingPacket | getPendingBCPacket => cases ht

/-- None of them is taken for an empty queue. -/
theorem nonempty_of_pushed (hP : cfg.runtime.proto.Lawful)
    (h : p ∈ (traffic cfg s e).flatMap Traffic.unicastPushed) : p.Nonempty := by
  have hsize : ∀ {k : ℕ}, k ≤ maxMessage → 0 < packetSizeOf k := by
    intro k hk
    rw [UInt16.lt_iff_toNat_lt, toNat_packetSizeOf hk]
    simp
  rcases mem_unicastPushed h with ⟨index, rfl⟩ | ⟨target, player, rfl⟩
  · rw [PacketBuffer.Nonempty, connPacket_eq, serializePacket_bufferSize]
    exact hsize (hP.connMessage_le index)
  · rw [PacketBuffer.Nonempty, rosterPacket_eq, serializePacket_bufferSize]
    exact hsize (hP.rosterMessage_le player)

/-- **A client that has left its slot never occupies it again.** -/
theorem gone_of_step {i : ℕ} (ha : s.WasAttached conn) (hgone : ¬ s.OccupiedBy i conn)
    (h : step cfg s e = some s') : ¬ s'.OccupiedBy i conn := by
  rintro ⟨hsock, hocc⟩
  have hconnected : s'.Connected i := Server.connected_iff.2 hsock
  rcases occupant_of_step h with ⟨hsame, hne⟩ | ⟨-, j, sock, conn', hpc, -, hupdate⟩
  · rcases connected_of_step h hconnected with hold | ⟨he, -⟩
    · exact hgone ⟨Server.connected_iff.1 hold, hsame ▸ hocc⟩
    · exact hne he
  · rw [hupdate] at hocc
    by_cases hij : i = j
    · subst hij
      rw [Function.update_self] at hocc
      subst hocc
      exact ha.incoming i sock hpc
    · rw [Function.update_of_ne hij] at hocc
      rcases connected_of_step h hconnected with hold | ⟨-, sock', conn'', hpc'⟩
      · exact hgone ⟨Server.connected_iff.1 hold, hocc⟩
      · rw [hpc] at hpc'
        exact hij (AcceptPc.connecting.inj hpc').1.symm

/-! ### The invariant -/

/-- Where the pushed packets are, and what is known of those that have not been sent. -/
structure UnicastsKept (n : ℕ) (s : Server) (log : List UnicastEvent) : Prop where
  table : SlotTable n s
  occupancy : Occupancy s
  nonempty : ∀ entry ∈ pushes log, entry.1.Nonempty
  order : (outcomes log).map Prod.fst ++ (s.sendThread.packets ++ s.que.ioSendPacketQue) =
    (pushes log).map Prod.fst
  attached : ∀ p conn, (p, some conn) ∈ pushes log → s.WasAttached conn
  /-- The client of a packet that has not been sent has left its slot. -/
  unsent : ∀ (k : ℕ) p conn, (pushes log)[k]? = some (p, some conn) →
    (outcomes log)[k]? = some (p, false) → ¬ s.OccupiedBy p.packetIndex.toNat conn

namespace UnicastsKept

variable {log : List UnicastEvent}

theorem init (mem : ℕ → Mem) (n workers : ℕ) : UnicastsKept n (initServer mem n workers) [] where
  table := SlotTable.init mem n workers
  occupancy := Occupancy.init mem n workers
  nonempty := by simp [pushes]
  order := rfl
  attached := by simp [pushes]
  unsent := by simp [pushes]

theorem length_outcomes_le (hs : UnicastsKept n s log) :
    (outcomes log).length ≤ (pushes log).length := by
  have hlength := congrArg List.length hs.order
  rw [List.length_append, List.length_map, List.length_map] at hlength
  omega

theorem nonempty_of_queued (hs : UnicastsKept n s log) (hp : p ∈ s.que.ioSendPacketQue) :
    p.Nonempty := by
  have hmem : p ∈ (pushes log).map Prod.fst := by
    rw [← hs.order]
    exact List.mem_append_right _ (List.mem_append_right _ hp)
  obtain ⟨entry, hentry, rfl⟩ := List.mem_map.1 hmem
  exact hs.nonempty entry hentry

/-- A step keeps the order of the packets. -/
theorem order_step (hP : cfg.runtime.proto.Lawful) (hs : UnicastsKept n s log)
    (h : IocpDemo.step cfg s e = some s') :
    (outcomes (log ++ unicastEvents cfg s e)).map Prod.fst ++
      (s'.sendThread.packets ++ s'.que.ioSendPacketQue) =
        (pushes (log ++ unicastEvents cfg s e)).map Prod.fst := by
  have hqueue : ∀ p ∈ s.que.ioSendPacketQue, decide p.Nonempty = true :=
    fun p hp => decide_eq_true (hs.nonempty_of_queued hp)
  have hpushed : ∀ p ∈ (traffic cfg s e).flatMap Traffic.unicastPushed,
      decide p.Nonempty = true := fun p hp => decide_eq_true (nonempty_of_pushed hP hp)
  have hqueue' : ∀ p ∈ s'.que.ioSendPacketQue, decide p.Nonempty = true := by
    intro p hp
    by_cases hpop : e = .popPacket
    · subst hpop
      obtain ⟨-, rfl⟩ := Server.popPacket_some h
      rw [getPendingPacket_ioSendPacketQue] at hp
      exact hqueue p (List.mem_of_mem_tail hp)
    · rw [step_ioSendPacketQue h hpop] at hp
      rcases List.mem_append.1 hp with hold | hnew
      · exact hqueue p hold
      · exact hpushed p hnew
  have hbalance := step_balances_finished h
  simp only [Balances, Belt.pending, Server.sendBelt, List.filter_eq_self.2 hqueue,
    List.filter_eq_self.2 hpushed, List.filter_eq_self.2 hqueue'] at hbalance
  rw [outcomes_append, outcomes_unicastEvents, pushes_append, pushes_unicastEvents,
    List.map_append, List.map_append, ← hs.order, List.append_assoc, ← hbalance, List.append_assoc,
    List.map_map]
  simp [Function.comp_def]

/-- The packet that `SendThread` holds is the first one that is not finished. -/
theorem first_unfinished (hs : UnicastsKept n s log) (hpc : s.sendThread.packets = [p]) :
    ((pushes log)[(outcomes log).length]?).map Prod.fst = some p := by
  have horder := hs.order
  rw [hpc] at horder
  rw [← List.getElem?_map, ← horder]
  simp

/-- The clients of the packets that a step pushes have been attached. -/
theorem attached_of_pushed (hs : UnicastsKept n s log)
    (h : (p, some conn) ∈ pushes (unicastEvents cfg s e)) : s.WasAttached conn := by
  rw [pushes_unicastEvents] at h
  obtain ⟨q, -, heq⟩ := List.mem_map.1 h
  obtain ⟨rfl, hclient⟩ := Prod.mk.inj heq
  obtain ⟨hsock, rfl⟩ := Server.clientAt_eq_some_iff.1 hclient
  exact hs.occupancy.wasAttached (Server.connected_iff.2 hsock)

/-- What `SendThread` has not sent is a packet whose client has left its slot. -/
theorem client_gone (hs : UnicastsKept n s log) (h : IocpDemo.step cfg s e = some s')
    (haccepted : SendsAccepted (s, log) e) {q : PacketBuffer}
    (hout : (q, false) ∈ outcomes (sendOutcomes s e))
    (hpush : (pushes log)[(outcomes log).length]? = some (p, some conn)) :
    ¬ s.OccupiedBy p.packetIndex.toNat conn := by
  cases e with
  | sendPacket =>
      obtain ⟨r, conn', hpc, -⟩ := Server.sendPacket_some h
      have hfirst := hs.first_unfinished (p := r) (by rw [hpc]; rfl)
      rw [hpush] at hfirst
      obtain rfl : p = r := Option.some.inj hfirst
      simp only [sendOutcomes, hpc] at hout
      split at hout
      · cases hout
      · rename_i c hctx
        split at hout
        · cases hout
        · rename_i hconnected
          rintro ⟨hsock, -⟩
          exact hconnected ((Server.connected_iff_context hctx).1 (Server.connected_iff.2 hsock))
  | sendWsa r =>
      cases r with
      | none => exact haccepted rfl p conn hpush
      | some k =>
          simp only [sendOutcomes] at hout
          split at hout
          · simp [outcomes, UnicastEvent.outcome] at hout
          · cases hout
  | _ => cases hout

theorem step (hP : cfg.runtime.proto.Lawful) (hs : UnicastsKept n s log)
    (h : IocpDemo.step cfg s e = some s') (haccepted : SendsAccepted (s, log) e) :
    UnicastsKept n s' (log ++ unicastEvents cfg s e) := by
  have hnonempty : ∀ entry ∈ pushes (log ++ unicastEvents cfg s e), entry.1.Nonempty := by
    intro entry hentry
    rw [pushes_append, pushes_unicastEvents] at hentry
    rcases List.mem_append.1 hentry with hold | hnew
    · exact hs.nonempty entry hold
    · obtain ⟨q, hq, rfl⟩ := List.mem_map.1 hnew
      exact nonempty_of_pushed hP hq
  have horder : (outcomes (log ++ unicastEvents cfg s e)).map Prod.fst ++
      (s'.sendThread.packets ++ s'.que.ioSendPacketQue) =
        (pushes (log ++ unicastEvents cfg s e)).map Prod.fst := hs.order_step hP h
  have hgone : ∀ p conn, (p, some conn) ∈ pushes log → ¬ s.OccupiedBy p.packetIndex.toNat conn →
      ¬ s'.OccupiedBy p.packetIndex.toNat conn := by
    intro p conn hmem hnot
    exact gone_of_step (hs.attached p conn hmem) hnot h
  refine ⟨hs.table.step h, hs.occupancy.step h, hnonempty, horder, ?_, ?_⟩
  · intro p conn hmem
    rw [pushes_append] at hmem
    rcases List.mem_append.1 hmem with hold | hnew
    · exact (hs.attached p conn hold).step h
    · exact (hs.attached_of_pushed hnew).step h
  · intro k p conn hpush hout
    rw [outcomes_append, outcomes_unicastEvents] at hout
    rw [pushes_append] at hpush
    have hle := hs.length_outcomes_le
    rcases Nat.lt_or_ge k (outcomes log).length with hk | hk
    · rw [List.getElem?_append_left hk] at hout
      rw [List.getElem?_append_left (by omega)] at hpush
      exact hgone p conn (List.mem_of_getElem? hpush) (hs.unsent k p conn hpush hout)
    · rw [List.getElem?_append_right hk] at hout
      rcases sendOutcomes_cases s e with hnone | ⟨q, sent, hpc, hone⟩
      · rw [hnone] at hout
        cases hout
      · -- it is the packet that `SendThread` holds
        have hmem := List.mem_of_getElem? hout
        obtain rfl : k = (outcomes log).length := by
          have hlt := (List.getElem?_eq_some_iff.1 hout).1
          rw [hone, List.length_singleton] at hlt
          omega
        have hfirst := hs.first_unfinished hpc
        obtain ⟨entry, hentry, -⟩ := Option.map_eq_some_iff.1 hfirst
        have hlt := (List.getElem?_eq_some_iff.1 hentry).1
        rw [List.getElem?_append_left hlt] at hpush
        exact hgone p conn (List.mem_of_getElem? hpush) (hs.client_gone h haccepted hmem hpush)

end UnicastsKept

/-- **No packet is lost whose client stays.**  In every run of the server in which no send of
`SendThread` fails for a packet whose client still occupies the slot that the packet names: the
packets `SendThread` is done with, the one in its hands and the queued ones are the packets that
have been pushed to `IOSendPacketQue`, in their order; and each packet whose client has stayed is
among those that wait, or its one send has succeeded. -/
theorem unicast_not_lost (hP : cfg.runtime.proto.Lawful) {mem : ℕ → Mem} {workers : ℕ}
    {log : List UnicastEvent}
    (h : Reach (unicastSystem cfg) SendsAccepted (initServer mem n workers, []) (s, log)) :
    (outcomes log).map Prod.fst ++ (s.sendThread.packets ++ s.que.ioSendPacketQue) =
        (pushes log).map Prod.fst ∧
      ∀ (k : ℕ) p conn, (pushes log)[k]? = some (p, some conn) →
        s.OccupiedBy p.packetIndex.toNat conn →
          (outcomes log).length ≤ k ∨ (outcomes log)[k]? = some (p, true) := by
  have hs : UnicastsKept n s log := h.logged_invariant (I := UnicastsKept n)
    (UnicastsKept.init mem n workers) fun t log e u ht haccepted hstep => ht.step hP hstep haccepted
  refine ⟨hs.order, ?_⟩
  intro k p conn hpush hoccupied
  by_cases hk : (outcomes log).length ≤ k
  · exact Or.inl hk
  · right
    have hfirst : ((outcomes log).map Prod.fst)[k]? = some p := by
      have hmap : ((pushes log).map Prod.fst)[k]? = some p := by rw [List.getElem?_map, hpush]; rfl
      rw [← hs.order, List.getElem?_append_left (by simpa using hk)] at hmap
      exact hmap
    rw [List.getElem?_map] at hfirst
    obtain ⟨⟨q, sent⟩, hout, rfl⟩ := Option.map_eq_some_iff.1 hfirst
    cases sent with
    | true => exact hout
    | false => exact absurd hoccupied (hs.unsent k q conn hpush hout)

/-- The slots that the pushed packets name and their clients, the results of the sends, the number
of packets that wait, and the client in slot 0. -/
def unicastOutline (x : Server × List UnicastEvent) :
    List (UInt16 × Option ℕ) × List Bool × ℕ × Option ℕ :=
  ((pushes x.2).map fun entry => (entry.1.packetIndex, entry.2), (outcomes x.2).map Prod.snd,
    (x.1.sendThread.packets ++ x.1.que.ioSendPacketQue).length, x.1.clientAt 0)

/-- The packet of an outline with one packet for the client in slot 0. -/
theorem exists_packet_of_outline {log : List UnicastEvent} {sent : List Bool} {k : ℕ}
    (h : unicastOutline (s, log) = ([(0, some 0)], sent, k, some 0)) :
    ∃ p, pushes log = [(p, some 0)] ∧ s.OccupiedBy p.packetIndex.toNat 0 := by
  simp only [unicastOutline, Prod.mk.injEq] at h
  obtain ⟨hpushes, -, -, hclient⟩ := h
  obtain ⟨⟨p, client⟩, hpush, heq⟩ := List.map_eq_singleton_iff.1 hpushes
  obtain ⟨hindex, rfl⟩ := Prod.mk.inj heq
  refine ⟨p, hpush, ?_⟩
  rw [show p.packetIndex = 0 from hindex]
  exact Server.clientAt_eq_some_iff.1 hclient

/-- The connection packet of the first client is sent. -/
theorem greeting_is_sent :
    ∃ s log p, Reach (unicastSystem wireConfig) SendsAccepted (wireServer 1, []) (s, log) ∧
      pushes log = [(p, some 0)] ∧ s.OccupiedBy p.packetIndex.toNat 0 ∧
      (outcomes log)[0]? = some (p, true) := by
  obtain ⟨⟨s, log⟩, hreach, houtline⟩ := Reach.exists_of_runIf (unicastSystem wireConfig)
    (fun _ e => e ≠ .sendWsa none) (wireServer 1, [])
    (.scanSlot :: acceptEvents 7 ++ [.sendTop, .popPacket, .sendPacket, .sendCopy,
      .sendWsa (some 4)])
    unicastOutline (x := ([(0, some 0)], [true], 0, some 0)) (by decide +kernel)
  have haccepted : Reach (unicastSystem wireConfig) SendsAccepted (wireServer 1, []) (s, log) :=
    hreach.mono fun x e hne heq => absurd heq hne
  obtain ⟨p, hpush, hoccupied⟩ := exists_packet_of_outline houtline
  have hone : ((outcomes log).map Prod.snd).length = 1 := by
    simp only [unicastOutline, Prod.mk.injEq] at houtline
    rw [houtline.2.1]
    rfl
  rw [List.length_map] at hone
  rcases (unicast_not_lost lawful_wireProtobuf haccepted).2 0 p 0 (by rw [hpush]; rfl) hoccupied
    with hle | hsent
  · rw [hone] at hle
    cases hle
  · exact ⟨s, log, p, haccepted, hpush, hoccupied, hsent⟩

/-- **A refused connection packet is lost.**  The send of the first client's connection packet
fails; the client stays connected, and the packet is neither queued nor held any more. -/
theorem refused_greeting_is_lost :
    ∃ s log p, Reach (unicastSystem wireConfig) (fun _ _ => True) (wireServer 1, []) (s, log) ∧
      pushes log = [(p, some 0)] ∧ s.OccupiedBy p.packetIndex.toNat 0 ∧
      (outcomes log).map Prod.snd = [false] ∧ s.sendThread.packets = [] ∧
      s.que.ioSendPacketQue = [] := by
  obtain ⟨⟨s, log⟩, hreach, houtline⟩ := Reach.exists_of_runIf (unicastSystem wireConfig)
    (fun _ _ => True) (wireServer 1, []) (.scanSlot :: acceptEvents 7 ++ sendEvents)
    unicastOutline (x := ([(0, some 0)], [false], 0, some 0)) (by decide +kernel)
  obtain ⟨p, hpush, hoccupied⟩ := exists_packet_of_outline houtline
  simp only [unicastOutline, Prod.mk.injEq, List.length_eq_zero_iff, List.append_eq_nil_iff]
    at houtline
  exact ⟨s, log, p, hreach, hpush, hoccupied, houtline.2.1, houtline.2.2.1.1, houtline.2.2.1.2⟩

end IocpDemo
