/-
**The connection packet comes first** (`AcceptThread`, `OnConnected`).

`AcceptThread` attaches a connection to its slot, and queues the `Conn_C` packet three statements
later; `SendThread` hands it over when it has worked through what is queued in front of it.  From
`ConnectClient` on the slot is a target of broadcasts and of unicast packets that name it, so what
comes first depends on what the other threads do in between.  A call of `SendPendingPacket` lasts
from the test of `IsConnected` until `WSASend` has returned: a packet is in the hands of its thread
all this time.

Main definitions:

* `IocpDemo.Handover`, `IocpDemo.handovers` — the calls of `SendPendingPacket`, with the connection
  each packet was queued for;
* `IocpDemo.Server.unicastEntries`, `IocpDemo.EntryFlow` — the unicast packets that wait, with these
  connections, and what a step does to them;
* `IocpDemo.GreetsFirst` — the condition on a step: no broadcast is brought to a slot whose greeting
  has not been sent, and no slot is taken while another packet is still on its way to it;
* `IocpDemo.Server.Undisturbed` — no broadcast is being sent to a slot whose greeting has not been
  sent;
* `IocpDemo.Greeting` — the invariant.

Main results:

* `IocpDemo.greeting_comes_first` — **under the condition the first call for each connection carries
  its `Conn_C` packet**, and no other call is made for it before this one has returned;
* `IocpDemo.broadcast_before_greeting` — a client that is sent the login of another one first.
-/

import IocpDemo.Deliveries
import IocpDemo.WireLaws

set_option relaxedAutoImplicit false
set_option autoImplicit false

namespace IocpDemo

open Bytes Transition Wire

variable {cfg : Config} {s s' : Server} {n : ℕ} {e : Event} {i j : ℕ}

/-! ### The unicast packets that wait -/

/-- The unicast packets that have not been handed over, each with the connection it was queued
for. -/
def Server.unicastEntries (s : Server) : List (PacketBuffer × ℕ) :=
  s.sendThread.popped.toList ++ s.que.ioSendPacketQue.zip s.history.owners

/-- What a step does to them. -/
inductive EntryFlow (cfg : Config) (s s' : Server) (e : Event) : Prop
  | same (hp : s'.unicastEntries = s.unicastEntries) (he : e ≠ .sendPacket) (hg : e ≠ .greetClient)
  | greeted {i conn : ℕ} {ctx : ClientContext} (hpc : s.acceptThread = .greeting i conn)
      (hctx : s.contexts[i]? = some ctx) (he : e = .greetClient)
      (hp : s'.unicastEntries =
        s.unicastEntries ++ [(connPacket cfg.runtime.proto ctx.getIndex.toUInt16, conn)])
  | login {c : Completion} {data : List UInt8} {l : List (PacketBuffer × ℕ)}
      (hlogin : loginFrame cfg s e = some (c, data))
      (hp : s'.unicastEntries = s.unicastEntries ++ l)
      (hl : ∀ x ∈ l, x.1 ∈ loginPackets cfg.runtime data s.que.connectedPlayers)
  | passed {x : PacketBuffer × ℕ} (hp : s.unicastEntries = x :: s'.unicastEntries)
      (he : e = .sendPacket) (hpc : s.sendThread = .holding x.1 x.2)
  | dropped {x : PacketBuffer × ℕ} (hp : s.unicastEntries = x :: s'.unicastEntries)
      (he : e = .popPacket) (hzero : x.1.bufferSize = 0)

theorem SendPc.popped_sendNext (contexts : List ClientContext) (p : PacketBuffer) (conn : ℕ) :
    (Server.sendNext contexts p conn).popped = none := by
  rcases Server.sendNext_cases contexts p conn with hnext | hnext | hnext <;> rw [hnext] <;> rfl

/-- `SendThread` takes the first packet of its queue, with its owner. -/
theorem popPacket_entryFlow (h : s.popPacket = some s') (ha : Aligned s) :
    EntryFlow cfg s s' .popPacket := by
  obtain ⟨hpc, hs'⟩ := Server.popPacket_some h
  have hque : s'.que.ioSendPacketQue = s.que.ioSendPacketQue.tail := by
    rw [hs']
    exact getPendingPacket_ioSendPacketQue _
  have howners : s'.history.owners = s.history.owners.tail := by rw [hs']
  have hpopped : s.sendThread.popped = none := by rw [hpc]; rfl
  cases hq : s.que.ioSendPacketQue with
  | nil =>
      have hsend : s'.sendThread.popped = none := by
        rw [hs']
        simp [getPendingPacket, hq, SendPc.popped]
      refine .same ?_ (by simp) (by simp)
      simp only [Server.unicastEntries, hque, hq, hpopped, hsend, List.tail_nil, List.zip_nil_left]
  | cons p ps =>
      rw [Aligned, hq] at ha
      cases ho : s.history.owners with
      | nil => simp [ho] at ha
      | cons owner owners =>
          by_cases hpos : 0 < p.bufferSize
          · have hsend : s'.sendThread.popped = some (p, owner) := by
              rw [hs']
              simp [getPendingPacket, hq, ho, hpos, SendPc.popped]
            refine .same ?_ (by simp) (by simp)
            simp only [Server.unicastEntries, hque, howners, hq, ho, hpopped, hsend]
            rfl
          · have hsend : s'.sendThread.popped = none := by
              rw [hs']
              simp [getPendingPacket, hq, hpos, SendPc.popped]
            refine .dropped (x := (p, owner)) ?_ rfl
              (UInt16.le_zero_iff.1 (UInt16.not_lt.1 hpos))
            simp only [Server.unicastEntries, hque, howners, hq, ho, hpopped, hsend]
            rfl

/-- **What a step does to the unicast packets that wait.** -/
theorem step_entryFlow (h : step cfg s e = some s') (ha : Aligned s) : EntryFlow cfg s s' e := by
  have hsame : s'.sendThread.popped = s.sendThread.popped → (∀ w, e ≠ .deSerialize w) →
      e ≠ .greetClient → e ≠ .popPacket → e ≠ .sendPacket → EntryFlow cfg s s' e := by
    intro hpopped hd hg hpop hsend
    obtain ⟨hque, howners⟩ := (step_frame h).ioSendPacketQue hd hg hpop
    refine .same ?_ hsend hg
    rw [Server.unicastEntries, hpopped, hque, howners]
    rfl
  have ha' : s.que.ioSendPacketQue.length = s.history.owners.length := ha.symm
  cases e with
  | greetClient =>
      obtain ⟨i, conn, ctx, hpc, hctx, rfl⟩ := Server.greetClient_some h
      refine .greeted hpc hctx rfl ?_
      simp [Server.unicastEntries, onConnected, List.zip_append ha']
  | deSerialize w =>
      have hsend := (step_frame h).sendThread (by simp [Event.thread])
      rcases deSerialize_que h with ⟨-, hque, howners, -⟩ | ⟨c, data, hlogin, hque, howners, -⟩
      · refine .same ?_ (by simp) (by simp)
        rw [Server.unicastEntries, hsend, hque, howners]
        rfl
      · refine .login (l := (loginPackets cfg.runtime data s.que.connectedPlayers).zip
          (List.replicate (loginPackets cfg.runtime data s.que.connectedPlayers).length c.conn))
          hlogin ?_ fun x hx => (List.of_mem_zip hx).1
        rw [Server.unicastEntries, hsend, hque, howners, List.zip_append ha', ← List.append_assoc]
        rfl
  | popPacket => exact popPacket_entryFlow h ha
  | sendPacket =>
      obtain ⟨p, conn, hpc, rfl⟩ := Server.sendPacket_some h
      refine .passed (x := (p, conn)) ?_ rfl hpc
      rw [Server.unicastEntries, Server.unicastEntries, hpc, SendPc.popped_sendNext]
      rfl
  | sendTop =>
      obtain ⟨hpc, rfl⟩ := Server.sendTop_some h
      refine hsame ?_ (by simp) (by simp) (by simp) (by simp)
      rw [hpc]
      split <;> rfl
  | sendCopy =>
      obtain ⟨p, conn, hpc, rfl⟩ := Server.sendCopy_some h
      exact hsame (by rw [hpc]; rfl) (by simp) (by simp) (by simp) (by simp)
  | sendWsa r =>
      obtain ⟨p, conn, hpc, -, rfl⟩ := Server.sendWsa_some h
      exact hsame (by rw [hpc]; rfl) (by simp) (by simp) (by simp) (by simp)
  | _ =>
      exact hsame (by rw [(step_frame h).sendThread (by simp [Event.thread])]) (by simp) (by simp)
        (by simp) (by simp)

/-! ### The calls -/

/-- A call of `SendPendingPacket`: the slot, the connection that occupies it, the packet, and the
connection the packet was queued for, if it is not a broadcast. -/
structure Handover where
  slot : ℕ
  conn : ℕ
  packet : PacketBuffer
  owner : Option ℕ

/-- A call among the deliveries. -/
def Delivery.handover? (s : Server) : Delivery → Option Handover
  | .call .unicast i conn p => some ⟨i, conn, p, s.sendThread.popped.map Prod.snd⟩
  | .call .broadCast i conn p => some ⟨i, conn, p, none⟩
  | .missed _ _ => none

/-- The calls of `SendPendingPacket` that a step makes. -/
def handovers (s : Server) (e : Event) : List Handover :=
  (deliveries s e).filterMap (Delivery.handover? s)

/-- The server with a log of these calls. -/
abbrev handoverSystem (cfg : Config) : Server × List Handover → Event →
    Option (Server × List Handover) := logged (step cfg) handovers

/-- The packet is the `Conn_C` packet of the slot and was queued for the connection. -/
def Handover.Greets (P : Protobuf) (c : Handover) : Prop :=
  c.owner = some c.conn ∧ c.packet = connPacket P (UInt16.ofNat c.slot)

/-- The first call for each connection carries its `Conn_C` packet. -/
def GreetedFirst (P : Protobuf) (log : List Handover) : Prop :=
  ∀ l c, l ++ [c] <+: log → (∀ d ∈ l, d.conn ≠ c.conn) → c.Greets P

/-- **Who calls** `SendPendingPacket`: `SendThread` with the first packet that waits, or the loop of
`SendPacketBroadCast`. -/
theorem mem_handovers {c : Handover} (h : c ∈ handovers s e) :
    s.Connected c.slot ∧ c.conn = s.history.occupant c.slot ∧
      (e = .sendPacket ∧ c.packet.packetIndex.toNat = c.slot ∧
          (∃ owner, c.owner = some owner ∧ s.sendThread = .holding c.packet owner) ∨
        e = .bcTest ∧ s.broadCastThread = .looping c.packet c.slot ∧
          ∃ ctx, s.contexts[c.slot]? = some ctx ∧
            Server.isBroadCastTarget c.packet ctx = true) := by
  obtain ⟨d, hd, hc⟩ := List.mem_filterMap.1 h
  cases d with
  | missed k p => cases hc
  | call r k conn p =>
      obtain ⟨hconn, hocc, ⟨rfl, rfl, hindex, owner, hpc⟩ | ⟨rfl, rfl, hpc, htarget⟩⟩ :=
        call_mem_deliveries hd
      · simp only [Delivery.handover?, hpc, SendPc.popped, Option.map_some] at hc
        obtain rfl := Option.some.inj hc
        exact ⟨hconn, hocc, Or.inl ⟨rfl, hindex, owner, rfl, hpc⟩⟩
      · obtain rfl := Option.some.inj hc
        exact ⟨hconn, hocc, Or.inr ⟨rfl, hpc, htarget⟩⟩

theorem length_handovers_le (s : Server) (e : Event) : (handovers s e).length ≤ 1 :=
  Nat.le_trans (List.length_filterMap_le _ _) (length_deliveries_le s e)

/-! ### The condition -/

/-- The slot to which the accept thread has attached a connection that it has not greeted. -/
def AcceptPc.ungreeted : AcceptPc → Option ℕ
  | .checking i _ _ | .counting i _ | .greeting i _ => some i
  | _ => none

/-- The `Conn_C` packet of the slot's connection is still to be queued, or waits in the queue, or is
in the hands of `SendThread`, which has not sent it yet. -/
def Server.Awaits (s : Server) (i : ℕ) : Prop :=
  s.acceptThread.ungreeted = some i ∨ ∃ x ∈ s.unicasts,
    x.2 = s.history.occupant i ∧ x.1.header.packetID = EPacketType.connC.code

/-- The broadcast packet for which `SendPendingPacket` is being executed, and the slot. -/
def BroadCastPc.calling : BroadCastPc → Option (PacketBuffer × ℕ)
  | .copying p i | .sending p i => some (p, i)
  | _ => none

/-- No broadcast is brought to a slot that awaits its `Conn_C` packet; no slot is taken while a
unicast packet that names it is queued or in the hands of `SendThread`, or a broadcast is being
copied or sent to it; and no login queues packets for a slot whose connection has not been
greeted. -/
def GreetsFirst (cfg : Config) (s : Server) (e : Event) : Prop :=
  (e = .bcTest → ∀ next ∈ s.broadCastThread.next, ∀ ctx ∈ s.contexts[next.2]?,
      Server.isBroadCastTarget next.1 ctx = true → ¬ s.Awaits next.2) ∧
    (e = .connectClient → ∀ i ∈ s.acceptThread.chosen,
      (∀ x ∈ s.unicasts, x.1.packetIndex.toNat ≠ i) ∧ ∀ x ∈ s.broadCastThread.calling, x.2 ≠ i) ∧
    ∀ login ∈ loginFrame cfg s e, ∀ i ∈ s.acceptThread.ungreeted,
      (loginIndex cfg login.2).toUInt16.toNat = i → AloneInRoster cfg s login.2

/-- No broadcast is being copied or sent to a slot that awaits its `Conn_C` packet. -/
def Server.Undisturbed (s : Server) : Prop :=
  ∀ x ∈ s.broadCastThread.calling, s.Connected x.2 → ¬ s.Awaits x.2

instance (s : Server) (i : ℕ) : Decidable (s.Awaits i) :=
  inferInstanceAs (Decidable (_ ∨ ∃ x ∈ s.unicasts, _))

instance (cfg : Config) (s : Server) (e : Event) : Decidable (GreetsFirst cfg s e) :=
  inferInstanceAs (Decidable (_ ∧ _ ∧ _))

/-- What has not been handed over has not been sent. -/
theorem mem_unicasts_of_mem_entries {x : PacketBuffer × ℕ} (hx : x ∈ s.unicastEntries) :
    x ∈ s.unicasts := by
  rcases List.mem_append.1 hx with hpopped | hqueued
  · refine List.mem_append_left _ ?_
    rw [SendPc.eq_holding (Option.mem_toList.1 hpopped)]
    exact List.mem_singleton_self _
  · exact List.mem_append_right _ hqueued

/-! ### The accept thread -/

/-- How a slot comes to hold a connection that has not been greeted. -/
theorem ungreeted_of_step (h : step cfg s e = some s')
    (hi : s'.acceptThread.ungreeted = some i) :
    s.acceptThread.ungreeted = some i ∧ e ≠ .connectClient ∧ e ≠ .greetClient ∨
      e = .connectClient ∧ ∃ sock conn, s.acceptThread = .connecting i sock conn := by
  rcases step_acceptThread h with ⟨hsame, hne⟩ | hmove
  · refine Or.inl ⟨hsame ▸ hi, ?_, ?_⟩ <;> rintro rfl <;> exact hne rfl
  · generalize s'.acceptThread = pc at hmove hi
    cases hmove with
    | @scanned k _ =>
        rcases Server.scanNext_cases s.contexts k with hnext | hnext | hnext <;>
          rw [hnext] at hi <;> cases hi
    | attached hpc =>
        obtain rfl := Option.some.inj hi
        exact Or.inr ⟨rfl, _, _, hpc⟩
    | kept hpc _ _ | counted hpc => exact Or.inl ⟨by rw [hpc]; exact hi, by simp, by simp⟩
    | _ => cases hi

/-- How a slot comes to be greeted. -/
theorem greeted_of_step (h : step cfg s e = some s') (hi : s.acceptThread.ungreeted = some i)
    (hi' : s'.acceptThread.ungreeted ≠ some i) :
    ¬ s.Connected i ∨ e = .greetClient ∧ ∃ conn, s.acceptThread = .greeting i conn := by
  rcases step_acceptThread h with ⟨hsame, -⟩ | hmove
  · exact absurd (hsame ▸ hi) hi'
  · generalize s'.acceptThread = pc at hmove hi'
    cases hmove with
    | kept hpc _ _ | counted hpc => exact absurd (by rw [hpc] at hi; exact hi) hi'
    | @dropped k conn sock c hpc hctx hc =>
        rw [hpc] at hi
        obtain rfl := Option.some.inj hi
        exact Or.inl fun hconn => by simp [(Server.connected_iff_context hctx).1 hconn] at hc
    | @greeted k conn c hpc hctx =>
        rw [hpc] at hi
        obtain rfl := Option.some.inj hi
        exact Or.inr ⟨rfl, conn, hpc⟩
    | scanned hpc | failed hpc | accepted hpc _ _ | attached hpc | armed hpc =>
        rw [hpc] at hi
        cases hi

/-! ### The invariant -/

/-- The first unicast packet that waits for the slot. -/
def Server.firstEntry (s : Server) (i : ℕ) : Option (PacketBuffer × ℕ) :=
  s.unicastEntries.find? fun x => x.1.packetIndex.toNat = i

/-- **Who has been greeted.** -/
structure Greeting (cfg : Config) (n : ℕ) (s : Server) (log : List Handover) : Prop where
  table : SlotTable n s
  occupancy : Occupancy s
  aligned : Aligned s
  /-- Calls have been made for connections that have been attached. -/
  called : ∀ c ∈ log, s.WasAttached c.conn
  ungreeted : ∀ i, s.acceptThread.ungreeted = some i →
    (∀ c ∈ log, c.conn ≠ s.history.occupant i) ∧
      (∀ x ∈ s.unicastEntries, x.1.packetIndex.toNat ≠ i) ∧
      ∀ j, s.Connected j → s.history.occupant j = s.history.occupant i → j = i
  greeted : ∀ i, s.Connected i → s.acceptThread.ungreeted ≠ some i →
    (∃ c ∈ log, c.conn = s.history.occupant i) ∨
      s.firstEntry i = some (connPacket cfg.runtime.proto (UInt16.ofNat i), s.history.occupant i)
  first : GreetedFirst cfg.runtime.proto log
  undisturbed : s.Undisturbed

namespace Greeting

variable {log : List Handover}

theorem init (mem : ℕ → Mem) (n workers : ℕ) : Greeting cfg n (initServer mem n workers) [] where
  table := SlotTable.init mem n workers
  occupancy := Occupancy.init mem n workers
  aligned := rfl
  called c hc := by cases hc
  ungreeted i hi := by cases hi
  greeted i hi := by simp [Server.Connected] at hi
  first l c h := by simp at h
  undisturbed x hx := by cases hx

/-- No call is made for a slot that has not been greeted. -/
theorem not_called_of_ungreeted (hs : Greeting cfg n s log) (hP : GreetsFirst cfg s e)
    {c : Handover} (hc : c ∈ handovers s e) : s.acceptThread.ungreeted ≠ some c.slot := by
  intro hslot
  obtain ⟨-, -, ⟨rfl, hindex, owner, -, hpc⟩ | ⟨rfl, hpc, ctx, hctx, htarget⟩⟩ := mem_handovers hc
  · refine (hs.ungreeted _ hslot).2.1 (c.packet, owner) ?_ hindex
    simp [Server.unicastEntries, hpc, SendPc.popped]
  · exact hP.1 rfl (c.packet, c.slot) (by simp [hpc, BroadCastPc.next]) ctx hctx htarget
      (Or.inl hslot)

/-- A call that is the first one for its connection hands the `Conn_C` packet over. -/
theorem greets_of_handover (hs : Greeting cfg n s log) (hP : GreetsFirst cfg s e) {c : Handover}
    (hc : c ∈ handovers s e) (hfirst : ∀ d ∈ log, d.conn ≠ c.conn) :
    c.Greets cfg.runtime.proto := by
  have hnot := hs.not_called_of_ungreeted hP hc
  obtain ⟨hconn, hocc, hcall⟩ := mem_handovers hc
  rcases hs.greeted c.slot hconn hnot with ⟨d, hd, hdconn⟩ | hentry
  · exact absurd (hdconn.trans hocc.symm) (hfirst d hd)
  · rcases hcall with ⟨rfl, hindex, owner, howner, hpc⟩ | ⟨rfl, hpc, ctx, hctx, htarget⟩
    · -- the packet handed over is the first one that waits for the slot
      have hfront : s.firstEntry c.slot = some (c.packet, owner) := by
        simp [Server.firstEntry, Server.unicastEntries, hpc, SendPc.popped, hindex]
      rw [hfront] at hentry
      obtain ⟨hpacket, rfl⟩ := Prod.mk.inj (Option.some.inj hentry)
      exact ⟨howner.trans (congrArg some hocc.symm), hpacket⟩
    · refine absurd ?_ (hP.1 rfl (c.packet, c.slot) (by simp [hpc, BroadCastPc.next]) ctx hctx
        htarget)
      refine Or.inr ⟨_, mem_unicasts_of_mem_entries (List.mem_of_find?_eq_some hentry), rfl, ?_⟩
      rw [connPacket_eq]
      exact packetID_serializePacket _ _ .connC _

theorem first_step (hs : Greeting cfg n s log) (hP : GreetsFirst cfg s e) :
    GreetedFirst cfg.runtime.proto (log ++ handovers s e) := by
  intro l c hprefix hfirst
  rcases prefix_or_new (length_handovers_le s e) hprefix with hold | ⟨rfl, hc⟩
  · exact hs.first l c hold hfirst
  · exact hs.greets_of_handover hP hc hfirst

/-- The calls are made for connections that occupy a slot. -/
theorem called_step (hs : Greeting cfg n s log) (h : IocpDemo.step cfg s e = some s')
    {c : Handover} (hc : c ∈ log ++ handovers s e) : s'.WasAttached c.conn := by
  rcases List.mem_append.1 hc with hc | hc
  · exact (hs.called c hc).step h
  · obtain ⟨hconn, hocc, -⟩ := mem_handovers hc
    rw [hocc]
    exact (hs.occupancy.wasAttached hconn).step h

/-- What comes to wait for a slot that has not been greeted would have to be a packet of a login. -/
theorem entries_step (hs : Greeting cfg n s log) (h : IocpDemo.step cfg s e = some s')
    (hP : GreetsFirst cfg s e) (hi : s.acceptThread.ungreeted = some i) (hg : e ≠ .greetClient) :
    ∀ x ∈ s'.unicastEntries, x.1.packetIndex.toNat ≠ i := by
  intro x hx
  have hold := (hs.ungreeted i hi).2.1
  cases step_entryFlow h hs.aligned with
  | same hp _ _ => exact hold x (hp ▸ hx)
  | greeted _ _ he _ => exact absurd he hg
  | @login c data l hlogin hp hl =>
      rw [hp] at hx
      rcases List.mem_append.1 hx with hx | hx
      · exact hold x hx
      · intro hindex
        obtain ⟨hidx, player, hplayer, hne, -⟩ := mem_loginPackets (hl x hx)
        exact hne (hP.2.2 _ hlogin i hi (by rw [← hindex, hidx]; rfl) player hplayer)
  | passed hp _ _ | dropped hp _ _ => exact hold x (hp ▸ List.mem_cons_of_mem _ hx)

theorem ungreeted_step (hs : Greeting cfg n s log) (h : IocpDemo.step cfg s e = some s')
    (hP : GreetsFirst cfg s e) (hi : s'.acceptThread.ungreeted = some i) :
    (∀ c ∈ log ++ handovers s e, c.conn ≠ s'.history.occupant i) ∧
      (∀ x ∈ s'.unicastEntries, x.1.packetIndex.toNat ≠ i) ∧
      ∀ j, s'.Connected j → s'.history.occupant j = s'.history.occupant i → j = i := by
  rcases ungreeted_of_step h hi with ⟨hi, hne, hg⟩ | ⟨rfl, sock, conn, hpc⟩
  · obtain ⟨hlog, -, halone⟩ := hs.ungreeted i hi
    rw [(step_frame h).occupant hne]
    refine ⟨fun c hc => ?_, hs.entries_step h hP hi hg, fun j hj hocc => ?_⟩
    · rcases List.mem_append.1 hc with hc' | hc'
      · exact hlog c hc'
      · obtain ⟨hconn, hocc, -⟩ := mem_handovers hc'
        intro heq
        exact hs.not_called_of_ungreeted hP hc'
          ((halone _ hconn (hocc.symm.trans heq)) ▸ hi)
    · rcases connected_of_step h hj with hj | ⟨he, -⟩
      · exact halone j hj hocc
      · exact absurd he hne
  · -- the connection has just been attached
    have hfree : ∀ x ∈ s.unicastEntries, x.1.packetIndex.toNat ≠ i := fun x hx =>
      (hP.2.1 rfl i (by rw [hpc]; rfl)).1 x (mem_unicasts_of_mem_entries hx)
    obtain ⟨k, sock', conn', hpc', hs'⟩ := Server.connectClient_some h
    rw [hpc] at hpc'
    cases hpc'
    have hocc : s'.history.occupant = Function.update s.history.occupant i conn := by rw [hs']
    refine ⟨fun c hc => ?_, fun x hx => ?_, fun j hj hji => ?_⟩
    · rw [hocc, Function.update_self]
      rcases List.mem_append.1 hc with hc | hc
      · exact fun heq => (hs.called c hc).incoming i sock (heq ▸ hpc)
      · cases hc
    · cases step_entryFlow h hs.aligned with
      | same hp _ _ => exact hfree x (hp ▸ hx)
      | login hlogin _ _ => cases hlogin
      | greeted _ _ he _ | passed _ he _ | dropped _ he _ => cases he
    · by_contra hne
      rw [hocc, Function.update_self, Function.update_of_ne hne] at hji
      rcases connected_of_step h hj with hj | ⟨-, sock', conn', hpc'⟩
      · exact (hs.occupancy.incoming i sock conn hpc).2 j hj hji
      · rw [hpc] at hpc'
        cases hpc'
        exact hne rfl

/-- The first packet that waits for a slot stays the first one until it is handed over. -/
theorem firstEntry_step (hs : Greeting cfg n s log) (hR : cfg.runtime.proto.Lawful)
    (h : IocpDemo.step cfg s e = some s') (hi : s.Connected i)
    (hfirst : s.firstEntry i =
      some (connPacket cfg.runtime.proto (UInt16.ofNat i), s.history.occupant i)) :
    (∃ c ∈ log ++ handovers s e, c.conn = s.history.occupant i) ∨
      s'.firstEntry i =
        some (connPacket cfg.runtime.proto (UInt16.ofNat i), s.history.occupant i) := by
  rw [Server.firstEntry] at hfirst ⊢
  cases step_entryFlow h hs.aligned with
  | same hp _ _ => exact Or.inr (hp ▸ hfirst)
  | greeted _ _ _ hp | login _ hp _ =>
      rw [hp, List.find?_append, hfirst]
      exact Or.inr rfl
  | @passed x hp he hpc =>
      rw [hp, List.find?_cons] at hfirst
      by_cases hindex : x.1.packetIndex.toNat = i
      · refine Or.inl ⟨⟨i, s.history.occupant i, x.1, some x.2⟩, List.mem_append_right _ ?_, rfl⟩
        simp [handovers, he, deliveries, hpc, Server.unicastDelivery, hindex, hi,
          Delivery.handover?, SendPc.popped]
      · simp only [hindex, decide_false] at hfirst
        exact Or.inr hfirst
  | @dropped x hp he hzero =>
      rw [hp, List.find?_cons] at hfirst
      by_cases hindex : x.1.packetIndex.toNat = i
      · -- the packet is not empty
        simp only [hindex, decide_true] at hfirst
        obtain rfl := Option.some.inj hfirst
        have hsize := toNat_packetSizeOf (hR.connMessage_le (UInt16.ofNat i))
        rw [connPacket_eq, serializePacket_bufferSize] at hzero
        rw [hzero] at hsize
        exact absurd hsize (Nat.succ_ne_zero _).symm
      · simp only [hindex, decide_false] at hfirst
        exact Or.inr hfirst

theorem greeted_step (hs : Greeting cfg n s log) (hR : cfg.runtime.proto.Lawful) (hn : n ≤ 65536)
    (h : IocpDemo.step cfg s e = some s') (hi : s'.Connected i)
    (hnot : s'.acceptThread.ungreeted ≠ some i) :
    (∃ c ∈ log ++ handovers s e, c.conn = s'.history.occupant i) ∨
      s'.firstEntry i =
        some (connPacket cfg.runtime.proto (UInt16.ofNat i), s'.history.occupant i) := by
  rcases connected_of_step h hi with hconn | ⟨rfl, sock, conn, hpc⟩
  · rw [occupant_of_connected h hs.table hconn]
    by_cases hold : s.acceptThread.ungreeted = some i
    · rcases greeted_of_step h hold hnot with hfree | ⟨rfl, conn, hpc⟩
      · exact absurd hconn hfree
      · -- the packet has just been queued, and nothing waits in front of it
        right
        have hnone := (hs.ungreeted i hold).2.1
        have hocc := hs.occupancy.attached i conn (by rw [hpc]; rfl)
        have hlt := hconn.lt hs.table
        cases step_entryFlow h hs.aligned with
        | @greeted k conn' ctx hpc' hctx _ hp =>
            rw [hpc] at hpc'
            cases hpc'
            have hindex : ctx.getIndex.toUInt16 = UInt16.ofNat i := by
              rw [hs.table.getIndex_eq hctx]
              exact UInt16.toNat_inj.1 (by simp)
            have hto :
                (connPacket cfg.runtime.proto ctx.getIndex.toUInt16).packetIndex.toNat = i := by
              rw [toNat_connPacket_index hs.table hctx]
              exact Nat.mod_eq_of_lt (by omega)
            have hfind : s.unicastEntries.find? (fun x => x.1.packetIndex.toNat = i) = none :=
              List.find?_eq_none.2 fun x hx => by simpa using hnone x hx
            rw [Server.firstEntry, hp, List.find?_append, hfind, Option.none_or, hocc, ← hindex]
            simp [hto]
        | same _ _ hg => exact absurd rfl hg
        | login hlogin _ _ => cases hlogin
        | passed _ he _ | dropped _ he _ => cases he
    · rcases hs.greeted i hconn hold with ⟨c, hc, hcconn⟩ | hfirst
      · exact Or.inl ⟨c, List.mem_append_left _ hc, hcconn⟩
      · exact hs.firstEntry_step hR h hconn hfirst
  · obtain ⟨k, sock', conn', hpc', rfl⟩ := Server.connectClient_some h
    rw [hpc] at hpc'
    cases hpc'
    exact absurd rfl hnot

/-- Behind a step a slot that was connected awaits its `Conn_C` packet only if it did so before. -/
theorem awaits_of_step (hs : Greeting cfg n s log) (h : IocpDemo.step cfg s e = some s')
    (hi : s.Connected i)
    (hne : ∀ sock conn, ¬ (e = .connectClient ∧ s.acceptThread = .connecting i sock conn))
    (hawaits : s'.Awaits i) : s.Awaits i := by
  rcases hawaits with hungreeted | ⟨x, hx, howner, hid⟩
  · rcases ungreeted_of_step h hungreeted with ⟨hold, -, -⟩ | ⟨he, sock, conn, hpc⟩
    · exact Or.inl hold
    · exact absurd ⟨he, hpc⟩ (hne sock conn)
  · rw [occupant_of_connected h hs.table hi] at howner
    rcases unicasts_of_step h hs.aligned hx with
      hold | ⟨k, conn, ctx, hpc, -, rfl⟩ | ⟨c, data, -, -, hlogin⟩
    · exact Or.inr ⟨x, hold, howner, hid⟩
    · -- the packet has just been queued for the connection in the slot
      have hk : s.acceptThread.ungreeted = some k := by rw [hpc]; rfl
      have hocc := hs.occupancy.attached k conn (by rw [hpc]; rfl)
      obtain rfl : i = k := (hs.ungreeted k hk).2.2 i hi (howner.symm.trans hocc.symm)
      exact Or.inl hk
    · -- what a login queues are no `Conn_C` packets
      obtain ⟨-, player, -, -, hpacket⟩ := mem_loginPackets hlogin
      rw [hpacket, rosterPacket_eq, packetID_serializePacket] at hid
      exact absurd hid (by decide)

theorem undisturbed_step (hs : Greeting cfg n s log) (h : IocpDemo.step cfg s e = some s')
    (hP : GreetsFirst cfg s e) : s'.Undisturbed := by
  intro x hcalling hi hawaits
  have hold : x ∈ s.broadCastThread.calling → False := by
    intro hcalling
    have hne : ∀ sock conn, ¬ (e = .connectClient ∧ s.acceptThread = .connecting x.2 sock conn) :=
      fun sock conn ⟨he, hpc⟩ => (hP.2.1 he x.2 (by rw [hpc]; rfl)).2 x hcalling rfl
    rcases connected_of_step h hi with hconn | ⟨he, sock, conn, hpc⟩
    · exact hs.undisturbed x hcalling hconn (hs.awaits_of_step h hconn hne hawaits)
    · exact hne sock conn ⟨he, hpc⟩
  rcases step_broadCastThread h with ⟨hsame, -⟩ | hmove
  · exact hold (hsame ▸ hcalling)
  · generalize s'.broadCastThread = pc at hmove hcalling
    cases hmove with
    | @tested p k hpc =>
        -- the test has chosen a slot that does not await its packet
        cases hctx : s.contexts[k]? with
        | none => simp [Server.bcNext, hctx, BroadCastPc.calling] at hcalling
        | some ctx =>
            cases htarget : Server.isBroadCastTarget p ctx with
            | false => simp [Server.bcNext, hctx, htarget, BroadCastPc.calling] at hcalling
            | true =>
                obtain rfl : (p, k) = x := by
                  simpa [Server.bcNext, hctx, htarget, BroadCastPc.calling] using hcalling
                have hconn : s.Connected k := by
                  simp only [Server.isBroadCastTarget, Bool.and_eq_true] at htarget
                  exact (Server.connected_iff_context hctx).2 htarget.1
                refine hP.1 rfl (p, k) (by rw [hpc]; rfl) ctx hctx htarget ?_
                exact hs.awaits_of_step h hconn (by simp) hawaits
    | copied hpc => exact hold (by rw [hpc]; exact hcalling)
    | entered _ | sent _ => split at hcalling <;> cases hcalling
    | popped _ _ | empty _ _ => cases hcalling

/-- **Every step keeps the invariant.** -/
theorem step (hs : Greeting cfg n s log) (hR : cfg.runtime.proto.Lawful) (hn : n ≤ 65536)
    (h : IocpDemo.step cfg s e = some s') (hP : GreetsFirst cfg s e) :
    Greeting cfg n s' (log ++ handovers s e) where
  table := hs.table.step h
  occupancy := hs.occupancy.step h
  aligned := hs.aligned.step h
  called _ hc := hs.called_step h hc
  ungreeted _ hi := hs.ungreeted_step h hP hi
  greeted _ hi hnot := hs.greeted_step hR hn h hi hnot
  first := hs.first_step hP
  undisturbed := hs.undisturbed_step h hP

theorem of_reach (hR : cfg.runtime.proto.Lawful) (hn : n ≤ 65536) {mem : ℕ → Mem} {workers : ℕ}
    (h : Reach (handoverSystem cfg) (fun x e => GreetsFirst cfg x.1 e)
      (initServer mem n workers, []) (s, log)) : Greeting cfg n s log :=
  h.logged_invariant (I := Greeting cfg n) (init mem n workers) fun _ _ _ _ hx hP hstep =>
    hx.step hR hn hstep hP

end Greeting

/-! ### The result -/

/-- **The connection packet comes first.**  In a run in which no broadcast is brought to a slot that
awaits its `Conn_C` packet, no slot is taken while another packet is still on its way to it, and no
login queues packets for a slot whose connection has not been greeted, the first call of
`SendPendingPacket` for each connection carries the `Conn_C` packet with the index of its slot that
`OnConnected` has queued for it; and no broadcast is copied or sent to the slot of a connection
before `WSASend` has been called with this packet. -/
theorem greeting_comes_first (hR : cfg.runtime.proto.Lawful) (hn : n ≤ 65536) {mem : ℕ → Mem}
    {workers : ℕ} {log : List Handover}
    (h : Reach (handoverSystem cfg) (fun x e => GreetsFirst cfg x.1 e)
      (initServer mem n workers, []) (s, log)) :
    GreetedFirst cfg.runtime.proto log ∧ s.Undisturbed :=
  ⟨(Greeting.of_reach hR hn h).first, (Greeting.of_reach hR hn h).undisturbed⟩

/-- A run in which two clients are accepted and greeted, and then one of them logs in. -/
theorem second_client_greeted_first :
    ∃ s log c, Reach (handoverSystem wireConfig) (fun x e => GreetsFirst wireConfig x.1 e)
        (wireServer 2, []) (s, log ++ [c]) ∧ c.conn = 1 ∧ (∀ d ∈ log, d.conn ≠ c.conn) ∧
      c.Greets wireProtobuf := by
  obtain ⟨⟨s, log⟩, hreach, hfacts⟩ := Reach.exists_of_runIf (handoverSystem wireConfig)
    (fun x e => GreetsFirst wireConfig x.1 e) (wireServer 2, [])
    (.scanSlot :: acceptEvents 7 ++ sendEvents ++ serveEvents [6, 0, 2, 0, 10, 0] ++
      [.scanSlot, .scanSlot] ++ acceptEvents 8 ++ sendEvents)
    (fun x : Server × List Handover =>
      (x.2.getLast?.map Handover.conn, x.2.dropLast.map Handover.conn))
    (x := (some 1, [0])) (by decide +kernel)
  obtain ⟨hlast, hinit⟩ := Prod.mk.inj hfacts
  obtain ⟨c, hc, hconn⟩ := Option.map_eq_some_iff.1 hlast
  obtain ⟨l, rfl⟩ := List.getLast?_eq_some_iff.1 hc
  rw [List.dropLast_concat] at hinit
  have hnew : ∀ d ∈ l, d.conn ≠ c.conn := by
    intro d hd heq
    have hmem := List.mem_map_of_mem (f := Handover.conn) hd
    rw [hinit, heq, hconn] at hmem
    exact absurd hmem (by decide)
  exact ⟨s, l, c, hreach, hconn, hnew,
    (greeting_comes_first lawful_wireProtobuf (by decide) hreach).1 l c List.prefix_rfl hnew⟩

/-- **A client is sent the login of another one before its own `Conn_C` packet**, when the login is
broadcast between `ConnectClient` and `OnConnected`. -/
theorem broadcast_before_greeting :
    ∃ s log c, Reach (handoverSystem wireConfig) (fun _ _ => True) (wireServer 2, [])
        (s, log ++ [c]) ∧ c.slot = 1 ∧ c.conn = 1 ∧ s.OccupiedBy 1 1 ∧
      (∀ d ∈ log, d.conn ≠ 1) ∧ ¬ c.Greets wireProtobuf := by
  obtain ⟨⟨s, log⟩, hreach, hfacts⟩ := Reach.exists_of_run (handoverSystem wireConfig)
    (wireServer 2, [])
    (.scanSlot :: acceptEvents 7 ++ serveEvents [6, 0, 2, 0, 10, 0] ++
      [.scanSlot, .scanSlot, .wsaAccept (some 8), .connectClient, .bcTop, .popBCPacket, .bcTest,
        .bcTest])
    (fun x : Server × List Handover =>
      (x.2.getLast?.map fun c : Handover => (c.slot, c.conn, c.owner),
        x.2.dropLast.map Handover.conn, x.1.socketAt 1, x.1.history.occupant 1))
    (x := (some (1, 1, none), [], some 8, 1)) (by decide +kernel)
  simp only [Prod.mk.injEq, List.map_eq_nil_iff] at hfacts
  obtain ⟨hlast, hinit, hsock, hocc⟩ := hfacts
  obtain ⟨c, hc, hcall⟩ := Option.map_eq_some_iff.1 hlast
  obtain ⟨l, rfl⟩ := List.getLast?_eq_some_iff.1 hc
  simp only [Prod.mk.injEq] at hcall
  obtain ⟨hslot, hconn, howner⟩ := hcall
  obtain rfl : l = [] := by rwa [List.dropLast_concat] at hinit
  refine ⟨s, [], c, hreach, hslot, hconn, ⟨⟨8, hsock⟩, hocc⟩, by simp, fun hg => ?_⟩
  rw [hg.1] at howner
  cases howner

end IocpDemo
