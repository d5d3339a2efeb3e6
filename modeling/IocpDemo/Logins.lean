/-
**What a login changes** (`RecvLoginPacket`, `SendLoginedPlayerPackets`).

Unicast packets have two sources: `OnConnected` queues one for each client that is accepted, and the
login handler queues one for each other player of the roster.  The login handler is also the only
one that changes the roster.

Main definitions:

* `IocpDemo.loginPackets` — the packets a login queues for its sender;
* `IocpDemo.loginFrame` — the login a step handles, if it handles one;
* `IocpDemo.Server.unicasts` — the unicast packets that are queued or held by `SendThread`, each
  with the connection it was pushed for.

Main results:

* `IocpDemo.unicasts_of_step` — **where the unicast packets come from**;
* `IocpDemo.step_roster` — **only a login changes the roster**.
-/

import IocpDemo.SlotTable

set_option relaxedAutoImplicit false
set_option autoImplicit false

namespace IocpDemo

open Bytes Transition

variable {cfg : Config} {s s' : Server} {n : ℕ}

/-! ### The login handler -/

/-- The message a login is parsed as. -/
def loginMessage (R : Runtime) (data : List UInt8) : PMovement :=
  (R.proto.movement.parseFromArray data).1

/-- The packets `SendLoginedPlayerPackets` queues for a login. -/
def loginPackets (R : Runtime) (data : List UInt8) (roster : Roster) : List PacketBuffer :=
  let key := (idIndex (loginMessage R data)).toInt32
  ((R.iteration (emplaceLogin (loginMessage R data) roster)).filter fun player =>
    player.1 ≠ key).map (rosterPacket R.proto key)

theorem mem_emplaceLogin {login : PMovement} {r : Roster} {player : Int32 × ClientInfo}
    (h : player ∈ emplaceLogin login r) : player ∈ r ∨ player.1 = (idIndex login).toInt32 := by
  simp only [emplaceLogin] at h
  split at h
  · exact Or.inl h
  · rcases List.mem_append.1 h with hold | hnew
    · exact Or.inl hold
    · rw [List.mem_singleton.1 hnew]
      exact Or.inr rfl

/-- A packet queued by a login is addressed to the index the login names, and tells about another
player of the roster. -/
theorem mem_loginPackets {R : Runtime} {data : List UInt8} {roster : Roster} {p : PacketBuffer}
    (h : p ∈ loginPackets R data roster) :
    p.packetIndex = (frameIdIndex R data .recvLoginPacket).toUInt16 ∧
      ∃ player ∈ roster, player.1 ≠ (frameIdIndex R data .recvLoginPacket).toInt32 ∧
        p = rosterPacket R.proto (frameIdIndex R data .recvLoginPacket).toInt32 player := by
  obtain ⟨player, hplayer, rfl⟩ := List.mem_map.1 h
  obtain ⟨hmem, hne⟩ := List.mem_filter.1 hplayer
  have hne' : player.1 ≠ (frameIdIndex R data .recvLoginPacket).toInt32 := of_decide_eq_true hne
  refine ⟨?_, player, ?_, hne', rfl⟩
  · simp [rosterPacket, frameIdIndex, loginMessage]
  · rcases mem_emplaceLogin ((R.iteration_perm _).mem_iff.1 hmem) with hold | hkey
    · exact hold
    · exact absurd hkey hne'

/-- **What a packet of a client adds to the unicast queue and to the roster.** -/
theorem deSerializePacket_que (R : Runtime) (packetID : UInt16) (data : List UInt8) (q : SendQue) :
    (deSerializePacket R packetID data q).ioSendPacketQue = q.ioSendPacketQue ++
        (if findFunc packetID = some .recvLoginPacket then loginPackets R data q.connectedPlayers
          else []) ∧
      (deSerializePacket R packetID data q).connectedPlayers =
        if findFunc packetID = some .recvLoginPacket then
          emplaceLogin (loginMessage R data) q.connectedPlayers
        else q.connectedPlayers := by
  cases hf : findFunc packetID with
  | none => simp [deSerializePacket, hf]
  | some f =>
      cases f with
      | recvLoginPacket =>
          have heq := recvLoginPacket_eq R data q
          simp only [deSerializePacket, hf, callFunc, if_true]
          rw [heq]
          exact ⟨rfl, rfl⟩
      | _ =>
          simp [deSerializePacket, hf, callFunc, recvFireEventPacket, recvMovementPacket,
            recvAnimPacket, recvWeaponPacket, recvRelay_eq]

/-- The login that a step handles: its completion and its payload. -/
def loginFrame (cfg : Config) (s : Server) : Event → Option (Completion × List UInt8)
  | .deSerialize w =>
      match s.workThreads[w]? with
      | some (.received c) =>
          match s.contexts[c.key]? with
          | some ctx =>
              match dispatchOf cfg.listenSocket ctx with
              | some (packetID, dataSize) =>
                  if findFunc packetID = some .recvLoginPacket then
                    some (c, payloadOf ctx dataSize)
                  else none
              | none => none
          | none => none
      | _ => none
  | _ => none

/-- What one step adds to the unicast queue, to the owners of its packets, to the roster and to the
connections that have logged in, when it dispatches a completion. -/
theorem deSerialize_que {w : ℕ} (h : s.deSerialize cfg w = some s') :
    loginFrame cfg s (.deSerialize w) = none ∧
        s'.que.ioSendPacketQue = s.que.ioSendPacketQue ∧ s'.history.owners = s.history.owners ∧
        s'.que.connectedPlayers = s.que.connectedPlayers ∧
        s'.history.loggedIn = s.history.loggedIn ∨
      ∃ c data, loginFrame cfg s (.deSerialize w) = some (c, data) ∧
        s'.que.ioSendPacketQue = s.que.ioSendPacketQue ++
          loginPackets cfg.runtime data s.que.connectedPlayers ∧
        s'.history.owners = s.history.owners ++ List.replicate
          (loginPackets cfg.runtime data s.que.connectedPlayers).length c.conn ∧
        s'.que.connectedPlayers =
          emplaceLogin (loginMessage cfg.runtime data) s.que.connectedPlayers ∧
        s'.history.loggedIn = c.conn :: s.history.loggedIn := by
  obtain ⟨c, ctx, hpc, hctx, ⟨hd, rfl⟩ | ⟨packetID, dataSize, hd, rfl⟩⟩ :=
    Server.deSerialize_some h
  · exact Or.inl ⟨by simp [loginFrame, hpc, hctx, hd], rfl, rfl, rfl, rfl⟩
  · obtain ⟨hque, hroster⟩ :=
      deSerializePacket_que cfg.runtime packetID (payloadOf ctx dataSize) s.que
    by_cases hf : findFunc packetID = some .recvLoginPacket
    · rw [if_pos hf] at hque hroster
      refine Or.inr ⟨c, payloadOf ctx dataSize, by simp [loginFrame, hpc, hctx, hd, hf], hque, ?_,
        hroster, by simp [Server.dispatched, hf]⟩
      simp [Server.dispatched, hque]
    · rw [if_neg hf] at hque hroster
      rw [List.append_nil] at hque
      refine Or.inl ⟨by simp [loginFrame, hpc, hctx, hd, hf], hque, ?_, hroster,
        by simp [Server.dispatched, hf]⟩
      simp [Server.dispatched, hque]

/-- **Only a login changes the roster**, and the list of those who have logged in. -/
theorem step_roster {e : Event} (h : step cfg s e = some s') :
    loginFrame cfg s e = none ∧ s'.que.connectedPlayers = s.que.connectedPlayers ∧
        s'.history.loggedIn = s.history.loggedIn ∨
      ∃ c data, loginFrame cfg s e = some (c, data) ∧
        s'.que.connectedPlayers =
          emplaceLogin (loginMessage cfg.runtime data) s.que.connectedPlayers ∧
        s'.history.loggedIn = c.conn :: s.history.loggedIn := by
  by_cases he : ∃ w, e = .deSerialize w
  · obtain ⟨w, rfl⟩ := he
    rcases deSerialize_que h with ⟨hf, -, -, hr, hl⟩ | ⟨c, data, hf, -, -, hr, hl⟩
    · exact Or.inl ⟨hf, hr, hl⟩
    · exact Or.inr ⟨c, data, hf, hr, hl⟩
  · have he' : ∀ w, e ≠ .deSerialize w := fun w hw => he ⟨w, hw⟩
    refine Or.inl ⟨?_, (step_frame h).connectedPlayers he', (step_frame h).loggedIn he'⟩
    cases e with
    | deSerialize w => exact absurd rfl (he' w)
    | _ => rfl

/-! ### The unicast packets -/

/-- The packet `SendThread` holds, with the connection it was pushed for. -/
def SendPc.held : SendPc → List (PacketBuffer × ℕ)
  | .holding p conn | .copying p conn | .sending p conn => [(p, conn)]
  | .top | .popping | .crashed _ | .stopped => []

/-- The unicast packets that are held by `SendThread` or queued, each with the connection it was
pushed for. -/
def Server.unicasts (s : Server) : List (PacketBuffer × ℕ) :=
  s.sendThread.held ++ s.que.ioSendPacketQue.zip s.history.owners

/-- Each queued packet has an owner. -/
def Aligned (s : Server) : Prop := s.history.owners.length = s.que.ioSendPacketQue.length

theorem getPendingPacket_ioSendPacketQue (q : SendQue) :
    (getPendingPacket q).2.ioSendPacketQue = q.ioSendPacketQue.tail := by
  unfold getPendingPacket
  split
  · rename_i hq
    rw [hq]
    rfl
  · rename_i hq
    rw [hq]
    rfl

/-- What a step does to the unicast queue and to the owners of its packets. -/
inductive QueChange (cfg : Config) (s s' : Server) (e : Event) : Prop
  | same (hque : s'.que.ioSendPacketQue = s.que.ioSendPacketQue)
      (howners : s'.history.owners = s.history.owners)
  | greeted {i conn : ℕ} {ctx : ClientContext} (hpc : s.acceptThread = .greeting i conn)
      (hctx : s.contexts[i]? = some ctx)
      (hque : s'.que.ioSendPacketQue =
        s.que.ioSendPacketQue ++ [connPacket cfg.runtime.proto ctx.getIndex.toUInt16])
      (howners : s'.history.owners = s.history.owners ++ [conn])
  | login {c : Completion} {data : List UInt8} (hlogin : loginFrame cfg s e = some (c, data))
      (hque : s'.que.ioSendPacketQue =
        s.que.ioSendPacketQue ++ loginPackets cfg.runtime data s.que.connectedPlayers)
      (howners : s'.history.owners = s.history.owners ++ List.replicate
        (loginPackets cfg.runtime data s.que.connectedPlayers).length c.conn)
  | popped (hque : s'.que.ioSendPacketQue = s.que.ioSendPacketQue.tail)
      (howners : s'.history.owners = s.history.owners.tail)

theorem step_que {e : Event} (h : step cfg s e = some s') : QueChange cfg s s' e := by
  by_cases hd : ∃ w, e = .deSerialize w
  · obtain ⟨w, rfl⟩ := hd
    rcases deSerialize_que h with ⟨-, hque, howners, -⟩ | ⟨c, data, hf, hque, howners, -⟩
    · exact .same hque howners
    · exact .login hf hque howners
  · by_cases hg : e = .greetClient
    · subst hg
      obtain ⟨i, conn, ctx, hpc, hctx, rfl⟩ := Server.greetClient_some h
      exact .greeted hpc hctx rfl rfl
    · by_cases hp : e = .popPacket
      · subst hp
        obtain ⟨-, rfl⟩ := Server.popPacket_some h
        exact .popped (getPendingPacket_ioSendPacketQue _) rfl
      · obtain ⟨hque, howners⟩ :=
          (step_frame h).ioSendPacketQue (fun w hw => hd ⟨w, hw⟩) hg hp
        exact .same hque howners

theorem Aligned.step {e : Event} (ha : Aligned s) (h : step cfg s e = some s') : Aligned s' := by
  rw [Aligned] at ha ⊢
  cases step_que h with
  | same hque howners => rw [hque, howners, ha]
  | greeted _ _ hque howners => simp [hque, howners, ha]
  | login _ hque howners => simp [hque, howners, ha]
  | popped hque howners => rw [hque, howners, List.length_tail, List.length_tail, ha]

/-- The packet that `SendThread` holds behind a step, it held before, or it was the first one in the
queue. -/
theorem held_packet_of_step {e : Event} (h : step cfg s e = some s') (ha : Aligned s)
    {entry : PacketBuffer × ℕ} (hentry : entry ∈ s'.sendThread.held) : entry ∈ s.unicasts := by
  rcases step_sendThread h with ⟨hsame, -⟩ | hmove
  · exact List.mem_append_left _ (hsame ▸ hentry)
  · generalize s'.sendThread = pc at hmove hentry
    cases hmove with
    | entered _ => split at hentry <;> cases hentry
    | popped _ hpos =>
        cases hq : s.que.ioSendPacketQue with
        | nil => simp [getPendingPacket, hq] at hpos
        | cons p ps =>
            rw [Aligned, hq] at ha
            cases ho : s.history.owners with
            | nil => simp [ho] at ha
            | cons conn rest =>
                obtain rfl : entry = (p, conn) := by
                  simpa [SendPc.held, getPendingPacket, hq, ho] using hentry
                exact List.mem_append_right _ (by simp [hq, ho])
    | @tested p conn hpc =>
        refine List.mem_append_left _ ?_
        rw [hpc]
        rcases Server.sendNext_cases s.contexts p conn with hnext | hnext | hnext <;>
          rw [hnext] at hentry
        · cases hentry
        · exact hentry
        · cases hentry
    | copied hpc =>
        refine List.mem_append_left _ ?_
        rw [hpc]
        exact hentry
    | empty _ _ | sent _ => cases hentry

/-- **Where the unicast packets come from**: from `OnConnected`, for the connection that has just
been accepted, and from a login, for the connection it came from. -/
theorem unicasts_of_step {e : Event} (h : step cfg s e = some s') (ha : Aligned s)
    {entry : PacketBuffer × ℕ} (hentry : entry ∈ s'.unicasts) :
    entry ∈ s.unicasts ∨
      (∃ i conn ctx, s.acceptThread = .greeting i conn ∧ s.contexts[i]? = some ctx ∧
        entry = (connPacket cfg.runtime.proto ctx.getIndex.toUInt16, conn)) ∨
      ∃ c data, loginFrame cfg s e = some (c, data) ∧ entry.2 = c.conn ∧
        entry.1 ∈ loginPackets cfg.runtime data s.que.connectedPlayers := by
  rcases List.mem_append.1 hentry with hheld | hqueued
  · exact Or.inl (held_packet_of_step h ha hheld)
  · have ha' : s.que.ioSendPacketQue.length = s.history.owners.length := ha.symm
    cases step_que h with
    | same hque howners =>
        rw [hque, howners] at hqueued
        exact Or.inl (List.mem_append_right _ hqueued)
    | @greeted i conn ctx hpc hctx hque howners =>
        rw [hque, howners, List.zip_append ha'] at hqueued
        rcases List.mem_append.1 hqueued with hold | hnew
        · exact Or.inl (List.mem_append_right _ hold)
        · exact Or.inr (Or.inl ⟨i, conn, ctx, hpc, hctx, by simpa using hnew⟩)
    | @login c data hlogin hque howners =>
        rw [hque, howners, List.zip_append ha'] at hqueued
        rcases List.mem_append.1 hqueued with hold | hnew
        · exact Or.inl (List.mem_append_right _ hold)
        · -- all packets of a login have the same owner
          obtain ⟨p, conn⟩ := entry
          obtain ⟨hp, hconn⟩ := List.of_mem_zip hnew
          exact Or.inr (Or.inr ⟨c, data, hlogin, List.eq_of_mem_replicate hconn, hp⟩)
    | popped hque howners =>
        rw [hque, howners] at hqueued
        refine Or.inl (List.mem_append_right _ ?_)
        cases hq : s.que.ioSendPacketQue with
        | nil => simp [hq] at hqueued
        | cons p ps =>
            cases ho : s.history.owners with
            | nil => simp [ho] at hqueued
            | cons conn rest =>
                rw [hq, ho] at hqueued
                exact List.mem_cons_of_mem _ hqueued

end IocpDemo
