/-
**What the sender threads do with the packets** (`SendThread`, `SendBroadCastThread`).

A unicast packet waits in its queue, is taken by `SendThread`, and is handed to `SendPendingPacket`
if the slot it names is connected.  A broadcast packet waits in its queue, is taken by
`SendBroadCastThread`, and goes round the slots; for one particular slot it is pending until the
loop has come past this slot.  So for each slot there is one list of packets it may still be given
by either thread, which grows at its end and is consumed at its front.

Main definitions:

* `IocpDemo.Delivery`, `IocpDemo.deliveries` — the calls of `SendPendingPacket`, and the free slots
  a broadcast goes past;
* `IocpDemo.Server.unicastPending`, `IocpDemo.Server.bcPending` — the pending packets;
* `IocpDemo.UnicastFlow`, `IocpDemo.BroadCastFlow` — what a step does to them.

Main results:

* `IocpDemo.step_unicastFlow`, `IocpDemo.step_broadCastFlow` — **pending packets are consumed in the
  order in which they were queued**, each with at most one call.
-/

import IocpDemo.Announcements
import IocpDemo.Occupancy

set_option relaxedAutoImplicit false
set_option autoImplicit false

namespace IocpDemo

open Bytes Transition

variable {cfg : Config} {s s' : Server} {n : ℕ} {e : Event}

/-! ### Deliveries -/

/-- The thread that delivers. -/
inductive Route
  | unicast
  | broadCast
  deriving DecidableEq, Repr

/-- What a sender thread does with a packet at a slot. -/
inductive Delivery
  /-- It calls `SendPendingPacket` on the slot, which is occupied by the connection `conn`. -/
  | call (route : Route) (slot conn : ℕ) (p : PacketBuffer)
  /-- The loop of `SendPacketBroadCast` goes past the slot, which is free. -/
  | missed (slot : ℕ) (p : PacketBuffer)

/-- What `SendThread` does with the packet it holds. -/
def Server.unicastDelivery (s : Server) (p : PacketBuffer) : List Delivery :=
  let i := p.packetIndex.toNat
  if s.Connected i then [.call .unicast i (s.history.occupant i) p] else []

/-- What the loop of `SendPacketBroadCast` does at the slot `i`. -/
def Server.broadCastDelivery (s : Server) (p : PacketBuffer) (i : ℕ) : List Delivery :=
  match s.contexts[i]? with
  | none => []
  | some ctx =>
      if Server.isBroadCastTarget p ctx then [.call .broadCast i (s.history.occupant i) p]
      else if ctx.isConnected then [] else [.missed i p]

/-- What a step delivers. -/
def deliveries (s : Server) : Event → List Delivery
  | .sendPacket =>
      match s.sendThread with
      | .holding p _ => s.unicastDelivery p
      | _ => []
  | .bcTest =>
      match s.broadCastThread with
      | .looping p i => s.broadCastDelivery p i
      | _ => []
  | _ => []

/-- A step delivers at most once. -/
theorem length_deliveries_le (s : Server) (e : Event) : (deliveries s e).length ≤ 1 := by
  cases e with
  | sendPacket =>
      cases hpc : s.sendThread with
      | holding p conn =>
          simp only [deliveries, hpc, Server.unicastDelivery]
          split <;> simp
      | _ => simp [deliveries, hpc]
  | bcTest =>
      cases hpc : s.broadCastThread with
      | looping p i =>
          simp only [deliveries, hpc, Server.broadCastDelivery]
          split
          · simp
          · split
            · simp
            · split <;> simp
      | _ => simp [deliveries, hpc]
  | _ => simp [deliveries]

/-- A free slot is gone past by the loop of `SendPacketBroadCast`. -/
theorem missed_mem_deliveries {i : ℕ} {p : PacketBuffer} (h : .missed i p ∈ deliveries s e) :
    e = .bcTest ∧ s.broadCastThread = .looping p i ∧ ¬ s.Connected i := by
  cases e with
  | sendPacket =>
      cases hpc : s.sendThread with
      | holding q conn =>
          simp only [deliveries, hpc, Server.unicastDelivery] at h
          split at h <;> simp at h
      | _ => simp [deliveries, hpc] at h
  | bcTest =>
      cases hpc : s.broadCastThread with
      | looping q k =>
          simp only [deliveries, hpc, Server.broadCastDelivery] at h
          cases hctx : s.contexts[k]? with
          | none => simp [hctx] at h
          | some ctx =>
              simp only [hctx] at h
              split at h
              · simp at h
              · split at h
                · simp at h
                · rename_i hfree
                  obtain ⟨rfl, rfl⟩ : i = k ∧ p = q := by simpa using h
                  exact ⟨rfl, rfl, fun hc => hfree ((Server.connected_iff_context hctx).1 hc)⟩
      | _ => simp [deliveries, hpc] at h
  | _ => cases h

/-- `SendPendingPacket` is called on a connected slot, by `SendThread` on the slot the packet names,
or by the loop of `SendPacketBroadCast` on the slot it looks at. -/
theorem call_mem_deliveries {r : Route} {i conn : ℕ} {p : PacketBuffer}
    (h : .call r i conn p ∈ deliveries s e) :
    s.Connected i ∧ conn = s.history.occupant i ∧
      (r = .unicast ∧ e = .sendPacket ∧ p.packetIndex.toNat = i ∧
          (∃ owner, s.sendThread = .holding p owner) ∨
        r = .broadCast ∧ e = .bcTest ∧ s.broadCastThread = .looping p i ∧
          ∃ ctx, s.contexts[i]? = some ctx ∧ Server.isBroadCastTarget p ctx = true) := by
  cases e with
  | sendPacket =>
      cases hpc : s.sendThread with
      | holding q owner =>
          simp only [deliveries, hpc, Server.unicastDelivery] at h
          split at h
          · rename_i hconn
            obtain ⟨rfl, rfl, rfl, rfl⟩ : r = .unicast ∧ i = q.packetIndex.toNat ∧
              conn = s.history.occupant q.packetIndex.toNat ∧ p = q := by simpa using h
            exact ⟨hconn, rfl, Or.inl ⟨rfl, rfl, rfl, owner, rfl⟩⟩
          · simp at h
      | _ => simp [deliveries, hpc] at h
  | bcTest =>
      cases hpc : s.broadCastThread with
      | looping q k =>
          simp only [deliveries, hpc, Server.broadCastDelivery] at h
          cases hctx : s.contexts[k]? with
          | none => simp [hctx] at h
          | some ctx =>
              simp only [hctx] at h
              split at h
              · rename_i htarget
                obtain ⟨rfl, rfl, rfl, rfl⟩ : r = .broadCast ∧ i = k ∧
                  conn = s.history.occupant k ∧ p = q := by simpa using h
                have hconn : ctx.isConnected = true := by
                  simp only [Server.isBroadCastTarget, Bool.and_eq_true] at htarget
                  exact htarget.1
                exact ⟨(Server.connected_iff_context hctx).2 hconn, rfl,
                  Or.inr ⟨rfl, rfl, rfl, ctx, hctx, htarget⟩⟩
              · split at h <;> simp at h
      | _ => simp [deliveries, hpc] at h
  | _ => cases h

/-- The broadcast packet that is about to be brought to a slot. -/
def BroadCastPc.next : BroadCastPc → Option (PacketBuffer × ℕ)
  | .looping p i => some (p, i)
  | _ => none

/-- The server with a log of its deliveries. -/
abbrev deliverySystem (cfg : Config) : Server × List Delivery → Event →
    Option (Server × List Delivery) := logged (step cfg) deliveries

/-- The log changes nothing about which states are reached. -/
theorem reach_deliverySystem_iff {Q : Server → Event → Prop} {s₀ : Server} :
    (∃ log, Reach (deliverySystem cfg) (fun x e => Q x.1 e) (s₀, []) (s, log)) ↔
      Reach (step cfg) Q s₀ s := by
  constructor
  · rintro ⟨log, h⟩
    exact Reach.of_logged (Q := Q) (fun _ _ hQ => hQ) h
  · exact fun h => h.exists_log deliveries []

/-! ### The unicast packets -/

/-- The packet that `SendThread` has taken and not yet handed over. -/
def SendPc.waiting : SendPc → List PacketBuffer
  | .holding p _ => [p]
  | _ => []

/-- The unicast packets that have not been handed over. -/
def Server.unicastPending (s : Server) : List PacketBuffer :=
  s.sendThread.waiting ++ s.que.ioSendPacketQue

/-- What a step does to the pending unicast packets. -/
inductive UnicastFlow (cfg : Config) (s s' : Server) (e : Event) : Prop
  | same (hp : s'.unicastPending = s.unicastPending) (he : e ≠ .sendPacket)
  | greeted {i conn : ℕ} {ctx : ClientContext} (hpc : s.acceptThread = .greeting i conn)
      (hctx : s.contexts[i]? = some ctx) (he : e = .greetClient)
      (hp : s'.unicastPending =
        s.unicastPending ++ [connPacket cfg.runtime.proto ctx.getIndex.toUInt16])
  | login {c : Completion} {data : List UInt8} (hlogin : loginFrame cfg s e = some (c, data))
      (hp : s'.unicastPending =
        s.unicastPending ++ loginPackets cfg.runtime data s.que.connectedPlayers)
  | passed {p : PacketBuffer} (hp : s.unicastPending = p :: s'.unicastPending)
      (he : e = .sendPacket) (hd : deliveries s e = s.unicastDelivery p)
  | dropped {p : PacketBuffer} (hp : s.unicastPending = p :: s'.unicastPending)
      (he : e = .popPacket) (hzero : p.bufferSize = 0)

theorem SendPc.waiting_sendNext (contexts : List ClientContext) (p : PacketBuffer) (conn : ℕ) :
    (Server.sendNext contexts p conn).waiting = [] := by
  rcases Server.sendNext_cases contexts p conn with hnext | hnext | hnext <;> rw [hnext] <;> rfl

/-- `SendThread` takes the first packet of its queue; one of size zero it drops. -/
theorem popPacket_flow (h : s.popPacket = some s') : UnicastFlow cfg s s' .popPacket := by
  obtain ⟨hpc, hs'⟩ := Server.popPacket_some h
  have hque : s'.que.ioSendPacketQue = s.que.ioSendPacketQue.tail := by
    rw [hs']
    exact getPendingPacket_ioSendPacketQue _
  have hwait : s.sendThread.waiting = [] := by rw [hpc]; rfl
  cases hq : s.que.ioSendPacketQue with
  | nil =>
      have hsend : s'.sendThread.waiting = [] := by
        rw [hs']
        simp [getPendingPacket, hq, SendPc.waiting]
      refine .same ?_ (by simp)
      simp only [Server.unicastPending, hque, hq, hwait, hsend, List.tail_nil]
  | cons p ps =>
      by_cases hpos : 0 < p.bufferSize
      · have hsend : s'.sendThread.waiting = [p] := by
          rw [hs']
          simp [getPendingPacket, hq, hpos, SendPc.waiting]
        refine .same ?_ (by simp)
        simp only [Server.unicastPending, hque, hq, hwait, hsend, List.tail_cons]
        rfl
      · have hsend : s'.sendThread.waiting = [] := by
          rw [hs']
          simp [getPendingPacket, hq, hpos, SendPc.waiting]
        refine .dropped (p := p) ?_ rfl ?_
        · simp only [Server.unicastPending, hque, hq, hwait, hsend, List.tail_cons]
          rfl
        · exact UInt16.le_zero_iff.1 (UInt16.not_lt.1 hpos)

/-- **What a step does to the pending unicast packets.** -/
theorem step_unicastFlow (h : step cfg s e = some s') : UnicastFlow cfg s s' e := by
  -- neither the queue nor what `SendThread` waits with has changed
  have hsame : s'.sendThread.waiting = s.sendThread.waiting → (∀ w, e ≠ .deSerialize w) →
      e ≠ .greetClient → e ≠ .popPacket → e ≠ .sendPacket → UnicastFlow cfg s s' e := by
    intro hwait hd hg hpop hsend
    refine .same ?_ hsend
    rw [Server.unicastPending, hwait, ((step_frame h).ioSendPacketQue hd hg hpop).1]
    rfl
  cases e with
  | greetClient =>
      obtain ⟨i, conn, ctx, hpc, hctx, rfl⟩ := Server.greetClient_some h
      refine .greeted hpc hctx rfl ?_
      simp [Server.unicastPending, onConnected]
  | deSerialize w =>
      have hsend := (step_frame h).sendThread (by simp [Event.thread])
      rcases deSerialize_que h with ⟨-, hque, -⟩ | ⟨c, data, hlogin, hque, -⟩
      · exact .same (by rw [Server.unicastPending, hsend, hque]; rfl) (by simp)
      · exact .login hlogin (by rw [Server.unicastPending, hsend, hque, ← List.append_assoc]; rfl)
  | popPacket => exact popPacket_flow h
  | sendPacket =>
      obtain ⟨p, conn, hpc, rfl⟩ := Server.sendPacket_some h
      refine .passed (p := p) ?_ rfl (by simp [deliveries, hpc])
      simp [Server.unicastPending, hpc, SendPc.waiting_sendNext]
      rfl
  | sendTop =>
      obtain ⟨hpc, rfl⟩ := Server.sendTop_some h
      refine hsame ?_ (by simp) (by simp) (by simp) (by simp)
      rw [hpc]
      split <;> rfl
  | sendCopy =>
      obtain ⟨p, conn, hpc, rfl⟩ := Server.sendCopy_some h
      exact hsame (by rw [hpc]; rfl) (by simp) (by simp) (by simp) (by simp)
  | sendWsa r =>
      obtain ⟨p, conn, hpc, -, rfl⟩ := Server.sendWsa_some h
      exact hsame (by rw [hpc]; rfl) (by simp) (by simp) (by simp) (by simp)
  | _ =>
      exact hsame (by rw [(step_frame h).sendThread (by simp [Event.thread])]) (by simp) (by simp)
        (by simp) (by simp)

/-! ### The broadcast packets -/

/-- The packet that `SendBroadCastThread` is about to bring to the slot `a`. -/
def BroadCastPc.ahead (a : ℕ) : BroadCastPc → List PacketBuffer
  | .looping p i => if i ≤ a then [p] else []
  | .copying p i | .sending p i => if i < a then [p] else []
  | .top | .popping | .stopped => []

/-- The broadcast packets that have not come past the slot `a`. -/
def Server.bcPending (s : Server) (a : ℕ) : List PacketBuffer :=
  s.broadCastThread.ahead a ++ s.que.ioSendBCPacketQue

/-- What a step does to the broadcast packets pending for the slot `a`. -/
inductive BroadCastFlow (cfg : Config) (s s' : Server) (e : Event) (a : ℕ) : Prop
  | same (hp : s'.bcPending a = s.bcPending a)
      (hd : e = .bcTest → ∃ p i, i ≠ a ∧ deliveries s e = s.broadCastDelivery p i)
  | queued {c : Completion} {f : RecvFunc} {data : List UInt8}
      (hframe : handledFrame cfg s e = some (c, f, data))
      (hp : s'.bcPending a = s.bcPending a ++ [(relayOf cfg.runtime data f).packet])
  | passed {p : PacketBuffer} (hp : s.bcPending a = p :: s'.bcPending a) (he : e = .bcTest)
      (hd : deliveries s e = s.broadCastDelivery p a)
  | again {p : PacketBuffer} (hp : s'.bcPending a = p :: s.bcPending a) (he : e = .bcWsa none)
  | dropped {p : PacketBuffer} (hp : s.bcPending a = p :: s'.bcPending a)
      (he : e = .popBCPacket) (hzero : p.bufferSize = 0)

section BroadCast

variable {a : ℕ}

/-- `SendBroadCastThread` takes the first packet of its queue; one of size zero it drops. -/
theorem popBCPacket_flow (h : s.popBCPacket = some s') :
    BroadCastFlow cfg s s' .popBCPacket a := by
  obtain ⟨hpc, hs'⟩ := Server.popBCPacket_some h
  have hque : s'.que.ioSendBCPacketQue = s.que.ioSendBCPacketQue.tail := by
    rw [hs']
    exact getPendingBCPacket_ioSendBCPacketQue _
  have hahead : s.broadCastThread.ahead a = [] := by rw [hpc]; rfl
  cases hq : s.que.ioSendBCPacketQue with
  | nil =>
      have hahead' : s'.broadCastThread.ahead a = [] := by
        rw [hs']
        simp [getPendingBCPacket, hq, BroadCastPc.ahead]
      refine .same ?_ (by simp)
      simp only [Server.bcPending, hque, hq, hahead, hahead', List.tail_nil]
  | cons p ps =>
      by_cases hpos : 0 < p.bufferSize
      · have hahead' : s'.broadCastThread.ahead a = [p] := by
          rw [hs']
          simp [getPendingBCPacket, hq, hpos, BroadCastPc.ahead]
        refine .same ?_ (by simp)
        simp only [Server.bcPending, hque, hq, hahead, hahead', List.tail_cons]
        rfl
      · have hahead' : s'.broadCastThread.ahead a = [] := by
          rw [hs']
          simp [getPendingBCPacket, hq, hpos, BroadCastPc.ahead]
        refine .dropped (p := p) ?_ rfl (UInt16.le_zero_iff.1 (UInt16.not_lt.1 hpos))
        simp only [Server.bcPending, hque, hq, hahead, hahead', List.tail_cons]
        rfl

/-- The loop comes past one slot. -/
theorem bcTest_flow (h : s.bcTest = some s') (ha : a < s.contexts.length) :
    BroadCastFlow cfg s s' .bcTest a := by
  obtain ⟨p, i, hpc, rfl⟩ := Server.bcTest_some h
  have hd : deliveries s .bcTest = s.broadCastDelivery p i := by simp [deliveries, hpc]
  have hahead : s.broadCastThread.ahead a = if i ≤ a then [p] else [] := by rw [hpc]; rfl
  by_cases hia : i = a
  · subst hia
    refine .passed (p := p) ?_ rfl hd
    obtain ⟨ctx, hctx⟩ := Server.exists_context ha
    have hnext : (Server.bcNext s.contexts p i).ahead i = [] := by
      cases htarget : Server.isBroadCastTarget p ctx <;>
        simp [Server.bcNext, hctx, htarget, BroadCastPc.ahead]
    simp [Server.bcPending, hahead, hnext]
  · refine .same ?_ fun _ => ⟨p, i, hia, hd⟩
    have hnext : (Server.bcNext s.contexts p i).ahead a = if i ≤ a then [p] else [] := by
      cases hctx : s.contexts[i]? with
      | none =>
          -- the loop has come past all slots
          have hle := List.getElem?_eq_none_iff.1 hctx
          rw [if_neg (by omega)]
          simp [Server.bcNext, hctx, BroadCastPc.ahead]
      | some ctx =>
          cases htarget : Server.isBroadCastTarget p ctx with
          | true =>
              simp only [Server.bcNext, hctx, htarget, BroadCastPc.ahead, if_true]
              exact if_congr (by omega) rfl rfl
          | false =>
              simp only [Server.bcNext, hctx, htarget, BroadCastPc.ahead, Bool.false_eq_true,
                if_false]
              exact if_congr (by omega) rfl rfl
    simp only [Server.bcPending, hahead, hnext]

/-- A send that has failed is made again if the packet is reliable. -/
theorem bcWsa_flow {r : Option ℕ} (h : s.bcWsa r = some s') :
    BroadCastFlow cfg s s' (.bcWsa r) a := by
  obtain ⟨p, i, hpc, -, rfl⟩ := Server.bcWsa_some h
  have hahead : s.broadCastThread.ahead a = if i < a then [p] else [] := by rw [hpc]; rfl
  by_cases hagain : r = none ∧ p.bIsReliable = true
  · by_cases hia : i = a
    · refine .again (p := p) ?_ (by rw [hagain.1])
      rw [Server.bcPending, Server.bcPending, hahead, if_pos hagain, hia]
      simp [BroadCastPc.ahead]
    · refine .same ?_ (by simp)
      have hle : i ≤ a ↔ i < a := by omega
      rw [Server.bcPending, Server.bcPending, hahead, if_pos hagain]
      simp only [BroadCastPc.ahead, hle]
  · refine .same ?_ (by simp)
    have hle : i + 1 ≤ a ↔ i < a := by omega
    rw [Server.bcPending, Server.bcPending, hahead, if_neg hagain]
    simp only [BroadCastPc.ahead, hle]

/-- **What a step does to the broadcast packets pending for a slot.** -/
theorem step_broadCastFlow (h : step cfg s e = some s') (ha : a < s.contexts.length) :
    BroadCastFlow cfg s s' e a := by
  have hsame : s'.broadCastThread.ahead a = s.broadCastThread.ahead a →
      s'.que.ioSendBCPacketQue = s.que.ioSendBCPacketQue → e ≠ .bcTest →
      BroadCastFlow cfg s s' e a := by
    intro hahead hque hne
    refine .same ?_ fun he => absurd he hne
    rw [Server.bcPending, hahead, hque]
    rfl
  have hframe := step_frame h
  cases e with
  | bcTop =>
      obtain ⟨hpc, rfl⟩ := Server.bcTop_some h
      refine hsame ?_ rfl (by simp)
      rw [hpc]
      split <;> rfl
  | popBCPacket => exact popBCPacket_flow h
  | bcTest => exact bcTest_flow h ha
  | bcCopy =>
      obtain ⟨p, i, hpc, rfl⟩ := Server.bcCopy_some h
      exact hsame (by rw [hpc]; rfl) rfl (by simp)
  | bcWsa r => exact bcWsa_flow h
  | deSerialize w =>
      have hahead := hframe.broadCastThread (by simp [Event.thread])
      have hque := deSerialize_ioSendBCPacketQue h
      cases hf : handledFrame cfg s (.deSerialize w) with
      | none =>
          rw [hf] at hque
          exact hsame (by rw [hahead]) (by simpa using hque) (by simp)
      | some frame =>
          rw [hf] at hque
          refine .queued hf ?_
          rw [Server.bcPending, Server.bcPending, hahead, hque, List.append_assoc]
          rfl
  | greetClient =>
      obtain ⟨i, conn, ctx, hpc, hctx, rfl⟩ := Server.greetClient_some h
      exact hsame rfl rfl (by simp)
  | popPacket =>
      obtain ⟨hpc, rfl⟩ := Server.popPacket_some h
      exact hsame rfl (getPendingPacket_ioSendBCPacketQue _) (by simp)
  | _ =>
      have hahead := hframe.broadCastThread (by simp [Event.thread])
      have hque := hframe.que (by simp) (by simp) (by simp) (by simp)
      exact hsame (by rw [hahead]) (by rw [hque]) (by simp)

end BroadCast

/-! ### Logins -/

theorem eq_deSerialize_of_loginFrame {login : Completion × List UInt8}
    (h : loginFrame cfg s e = some login) : ∃ w, e = .deSerialize w := by
  cases e with
  | deSerialize w => exact ⟨w, rfl⟩
  | _ => cases h

/-- What a login does to the packets, the roster and the slots. -/
structure LoginEffect (cfg : Config) (s s' : Server) (c : Completion) (data : List UInt8) :
    Prop where
  unicastPending : s'.unicastPending =
    s.unicastPending ++ loginPackets cfg.runtime data s.que.connectedPlayers
  bcPending : ∀ a, s'.bcPending a =
    s.bcPending a ++ [(relayOf cfg.runtime data .recvLoginPacket).packet]
  connectedPlayers : s'.que.connectedPlayers =
    emplaceLogin (loginMessage cfg.runtime data) s.que.connectedPlayers
  loggedIn : s'.history.loggedIn = c.conn :: s.history.loggedIn
  occupant : s'.history.occupant = s.history.occupant
  socketAt : ∀ i, s'.socketAt i = s.socketAt i

/-- **What a login does.** -/
theorem step_login {c : Completion} {data : List UInt8} (h : step cfg s e = some s')
    (hlogin : loginFrame cfg s e = some (c, data)) : LoginEffect cfg s s' c data := by
  obtain ⟨w, rfl⟩ := eq_deSerialize_of_loginFrame hlogin
  have hframe := step_frame h
  have hbc := deSerialize_ioSendBCPacketQue h
  rw [handledFrame_of_loginFrame hlogin] at hbc
  rcases deSerialize_que h with ⟨hnone, -⟩ | ⟨c', data', hsome, hque, -, hroster, hloggedIn⟩
  · rw [hnone] at hlogin
    cases hlogin
  · obtain ⟨rfl, rfl⟩ : c' = c ∧ data' = data := by
      rw [hsome] at hlogin
      simpa using hlogin
    refine ⟨?_, fun a => ?_, hroster, hloggedIn, hframe.occupant (by simp), fun i => ?_⟩
    · rw [Server.unicastPending, hframe.sendThread (by simp [Event.thread]), hque,
        ← List.append_assoc]
      rfl
    · rw [Server.bcPending, hframe.broadCastThread (by simp [Event.thread]), hbc,
        ← List.append_assoc]
      rfl
    · refine step_socketAt_eq h (by simp) ?_
      rintro (⟨v, d, he, -⟩ | ⟨k, he, -⟩) <;> cases he

end IocpDemo
