/-
**What one step can do.**

The invariants of the server never unfold its step function: they use the lemmas of this module,
which say for each event in which states it is possible and which state it leads to, and for each
component of the state which events change it.

Main results:

* `IocpDemo.Server.scanSlot_some`, …, `IocpDemo.Server.closeThreads_some` — one inversion lemma for
  each event;
* `IocpDemo.step_contexts` — **the footprint of a step on the table of contexts**: it changes at
  most one context, in one of the ways listed by `IocpDemo.Writes`;
* `IocpDemo.step_frame` — the other components;
* `IocpDemo.step_acceptThread`, `IocpDemo.step_workThreads`, `IocpDemo.step_sendThread`,
  `IocpDemo.step_broadCastThread` — **the moves of each thread**;
* `IocpDemo.step_os` — the operating system;
* `IocpDemo.step_socketAt` — **the footprint of a step on the sockets**.
-/

import IocpDemo.Server
import Mathlib.Logic.Function.Basic

set_option relaxedAutoImplicit false
set_option autoImplicit false

namespace IocpDemo

variable {cfg : Config} {s s' : Server}

namespace Server

/-! ### The branches -/

theorem scanNext_cases (contexts : List ClientContext) (k : ℕ) :
    scanNext contexts k = .returned ∨ scanNext contexts k = .scan (k + 1) ∨
      scanNext contexts k = .accepting k := by
  cases hctx : contexts[k]? with
  | none => exact Or.inl (by simp [scanNext, hctx])
  | some c =>
      cases hc : c.isConnected with
      | true => exact Or.inr (Or.inl (by simp [scanNext, hctx, hc]))
      | false => exact Or.inr (Or.inr (by simp [scanNext, hctx, hc]))

theorem afterCompletion_cases (c : Completion) :
    afterCompletion c = .closing c ∨ afterCompletion c = .top ∨
      afterCompletion c = .received c := by
  unfold afterCompletion
  cases workBranch c.bSuccess c.data.length with
  | close => exact Or.inl rfl
  | noData => exact Or.inr (Or.inl rfl)
  | received => exact Or.inr (Or.inr rfl)

theorem sendNext_cases (contexts : List ClientContext) (p : PacketBuffer) (conn : ℕ) :
    sendNext contexts p conn = .crashed p ∨ sendNext contexts p conn = .copying p conn ∨
      sendNext contexts p conn = .top := by
  cases hctx : contexts[p.packetIndex.toNat]? with
  | none => exact Or.inl (by simp [sendNext, hctx])
  | some c =>
      cases hc : c.isConnected with
      | true => exact Or.inr (Or.inl (by simp [sendNext, hctx, hc]))
      | false => exact Or.inr (Or.inr (by simp [sendNext, hctx, hc]))

theorem bcNext_cases (contexts : List ClientContext) (p : PacketBuffer) (i : ℕ) :
    bcNext contexts p i = .top ∨ bcNext contexts p i = .copying p i ∨
      bcNext contexts p i = .looping p (i + 1) := by
  cases hctx : contexts[i]? with
  | none => exact Or.inl (by simp [bcNext, hctx])
  | some c =>
      cases hc : isBroadCastTarget p c with
      | true => exact Or.inr (Or.inl (by simp [bcNext, hctx, hc]))
      | false => exact Or.inr (Or.inr (by simp [bcNext, hctx, hc]))

/-! ### `AcceptThread` -/

theorem scanSlot_some (h : s.scanSlot = some s') :
    ∃ k, s.acceptThread = .scan k ∧ s' = { s with acceptThread := scanNext s.contexts k } := by
  cases hpc : s.acceptThread with
  | scan k => exact ⟨k, rfl, by simpa [scanSlot, hpc] using h.symm⟩
  | _ => simp [scanSlot, hpc] at h

theorem wsaAccept_none_some (h : s.wsaAccept cfg none = some s') :
    ∃ i, s.acceptThread = .accepting i ∧ s' = { s with acceptThread := .scan 0 } := by
  cases hpc : s.acceptThread with
  | accepting i => exact ⟨i, rfl, by simpa [wsaAccept, hpc] using h.symm⟩
  | _ => simp [wsaAccept, hpc] at h

theorem wsaAccept_some_some {sock : Socket} (h : s.wsaAccept cfg (some sock) = some s') :
    ∃ i, s.acceptThread = .accepting i ∧ sock ≠ cfg.listenSocket ∧ s.os.connOf sock = none ∧
      s' = { s with
        acceptThread := .connecting i sock s.os.accepted
        os := { s.os with
          sockets := s.os.sockets ++ [(sock, s.os.accepted)]
          accepted := s.os.accepted + 1 } } := by
  cases hpc : s.acceptThread with
  | accepting i =>
      simp only [wsaAccept, hpc, Option.ite_none_right_eq_some] at h
      obtain ⟨⟨hl, hc⟩, h⟩ := h
      exact ⟨i, rfl, hl, hc, (Option.some.inj h).symm⟩
  | _ => simp [wsaAccept, hpc] at h

theorem connectClient_some (h : s.connectClient = some s') :
    ∃ i sock conn, s.acceptThread = .connecting i sock conn ∧
      s' = { s.modifyContext i (·.connectClient sock) with
        acceptThread := .checking i sock conn
        os := { s.os with keys := Function.update s.os.keys conn i }
        history := { s.history with occupant := Function.update s.history.occupant i conn } } := by
  cases hpc : s.acceptThread with
  | connecting i sock conn =>
      exact ⟨i, sock, conn, rfl, by simpa [connectClient, hpc] using h.symm⟩
  | _ => simp [connectClient, hpc] at h

theorem checkConnected_some (h : s.checkConnected = some s') :
    ∃ i sock conn c, s.acceptThread = .checking i sock conn ∧ s.contexts[i]? = some c ∧
      (c.isConnected = true ∧ s' = { s with acceptThread := .counting i conn } ∨
        c.isConnected = false ∧
          s' = { s with acceptThread := .scan 0, os := s.os.close (some sock) }) := by
  cases hpc : s.acceptThread with
  | checking i sock conn =>
      cases hctx : s.contexts[i]? with
      | none => simp [checkConnected, hpc, hctx] at h
      | some c =>
          refine ⟨i, sock, conn, c, rfl, hctx, ?_⟩
          cases hc : c.isConnected with
          | true => exact Or.inl ⟨rfl, by simpa [checkConnected, hpc, hctx, hc] using h.symm⟩
          | false => exact Or.inr ⟨rfl, by simpa [checkConnected, hpc, hctx, hc] using h.symm⟩
  | _ => simp [checkConnected, hpc] at h

theorem countClient_some (h : s.countClient = some s') :
    ∃ i conn, s.acceptThread = .counting i conn ∧
      s' = { s with acceptThread := .greeting i conn, clientCount := s.clientCount + 1 } := by
  cases hpc : s.acceptThread with
  | counting i conn => exact ⟨i, conn, rfl, by simpa [countClient, hpc] using h.symm⟩
  | _ => simp [countClient, hpc] at h

theorem greetClient_some (h : s.greetClient cfg = some s') :
    ∃ i conn c, s.acceptThread = .greeting i conn ∧ s.contexts[i]? = some c ∧
      s' = { s with
        acceptThread := .arming i conn
        que := onConnected cfg.runtime c.getIndex.toUInt16 s.que
        history := { s.history with owners := s.history.owners ++ [conn] } } := by
  cases hpc : s.acceptThread with
  | greeting i conn =>
      cases hctx : s.contexts[i]? with
      | none => simp [greetClient, hpc, hctx] at h
      | some c => exact ⟨i, conn, c, rfl, hctx, by simpa [greetClient, hpc, hctx] using h.symm⟩
  | _ => simp [greetClient, hpc] at h

/-- The state behind a `ReceivePacket` on the context `i`. -/
theorem receivePacket_some {i : ℕ} {pending : Bool} (h : s.receivePacket i pending = some s') :
    ∃ c, s.contexts[i]? = some c ∧
      (pending = false ∧ s' = s.modifyContext i (·.zeroRecvBuf) ∨
        pending = true ∧ ∃ sock conn, c.socket = some sock ∧ s.os.connOf sock = some conn ∧
          s' = { s.modifyContext i (·.zeroRecvBuf) with
            os := { s.os with
              outstanding := s.os.outstanding ++ [⟨s.os.keys conn, i, conn⟩] } }) := by
  cases hctx : s.contexts[i]? with
  | none => simp [receivePacket, hctx] at h
  | some c =>
      refine ⟨c, rfl, ?_⟩
      cases pending with
      | false => exact Or.inl ⟨rfl, by simpa [receivePacket, hctx] using h.symm⟩
      | true =>
          cases hsock : c.socket with
          | none => simp [receivePacket, hctx, hsock] at h
          | some sock =>
              cases hconn : s.os.connOf sock with
              | none => simp [receivePacket, hctx, hsock, hconn, modifyContext] at h
              | some conn =>
                  refine Or.inr ⟨rfl, sock, conn, rfl, hconn, ?_⟩
                  simpa [receivePacket, hctx, hsock, hconn, modifyContext] using h.symm

theorem acceptReceive_some {pending : Bool} (h : s.acceptReceive pending = some s') :
    ∃ i conn, s.acceptThread = .arming i conn ∧
      { s with acceptThread := .scan 0 }.receivePacket i pending = some s' := by
  cases hpc : s.acceptThread with
  | arming i conn => exact ⟨i, conn, rfl, by simpa [acceptReceive, hpc] using h⟩
  | _ => simp [acceptReceive, hpc] at h

/-! ### `WorkThread` -/

theorem workTop_some {w : ℕ} (h : s.workTop w = some s') :
    s.workThreads[w]? = some .top ∧
      s' = s.setWorker w (if s.isWorkThreadRun then .waiting else .stopped) := by
  cases hpc : s.workThreads[w]? with
  | none => simp [workTop, hpc] at h
  | some pc =>
      cases pc with
      | top => exact ⟨rfl, by simpa [workTop, hpc] using h.symm⟩
      | _ => simp [workTop, hpc] at h

theorem getCompletion_some {w : ℕ} (h : s.getCompletion w = some s') :
    ∃ c rest, s.workThreads[w]? = some .waiting ∧ s.os.completions = c :: rest ∧
      s' = { s.setWorker w (afterCompletion c) with os := { s.os with completions := rest } } := by
  cases hpc : s.workThreads[w]? with
  | none => simp [getCompletion, hpc] at h
  | some pc =>
      cases pc with
      | waiting =>
          cases hq : s.os.completions with
          | nil => simp [getCompletion, hpc, hq] at h
          | cons c rest =>
              exact ⟨c, rest, rfl, rfl, by simpa [getCompletion, hpc, hq] using h.symm⟩
      | _ => simp [getCompletion, hpc] at h

theorem closeSocket_some {w : ℕ} (h : s.closeSocket w = some s') :
    ∃ c ctx, s.workThreads[w]? = some (.closing c) ∧ s.contexts[c.key]? = some ctx ∧
      s' = { s.setWorker w (.forgetting c) with os := s.os.close ctx.socket } := by
  cases hpc : s.workThreads[w]? with
  | none => simp [closeSocket, hpc] at h
  | some pc =>
      cases pc with
      | closing c =>
          cases hctx : s.contexts[c.key]? with
          | none => simp [closeSocket, hpc, hctx] at h
          | some ctx => exact ⟨c, ctx, rfl, hctx, by simpa [closeSocket, hpc, hctx] using h.symm⟩
      | _ => simp [closeSocket, hpc] at h

theorem forgetSocket_some {w : ℕ} (h : s.forgetSocket w = some s') :
    ∃ c, s.workThreads[w]? = some (.forgetting c) ∧
      s' = (s.modifyContext c.key (·.forgetSocket)).setWorker w .top := by
  cases hpc : s.workThreads[w]? with
  | none => simp [forgetSocket, hpc] at h
  | some pc =>
      cases pc with
      | forgetting c => exact ⟨c, rfl, by simpa [forgetSocket, hpc] using h.symm⟩
      | _ => simp [forgetSocket, hpc] at h

theorem deSerialize_some {w : ℕ} (h : s.deSerialize cfg w = some s') :
    ∃ c ctx, s.workThreads[w]? = some (.received c) ∧ s.contexts[c.key]? = some ctx ∧
      (dispatchOf cfg.listenSocket ctx = none ∧ s' = s.setWorker w .top ∨
        ∃ packetID dataSize, dispatchOf cfg.listenSocket ctx = some (packetID, dataSize) ∧
          s' = s.dispatched cfg w c packetID (payloadOf ctx dataSize)) := by
  cases hpc : s.workThreads[w]? with
  | none => simp [deSerialize, hpc] at h
  | some pc =>
      cases pc with
      | received c =>
          cases hctx : s.contexts[c.key]? with
          | none => simp [deSerialize, hpc, hctx] at h
          | some ctx =>
              refine ⟨c, ctx, rfl, hctx, ?_⟩
              cases hd : dispatchOf cfg.listenSocket ctx with
              | none => exact Or.inl ⟨rfl, by simpa [deSerialize, hpc, hctx, hd] using h.symm⟩
              | some d =>
                  refine Or.inr ⟨d.1, d.2, rfl, ?_⟩
                  simpa [deSerialize, hpc, hctx, hd] using h.symm
      | _ => simp [deSerialize, hpc] at h

theorem workReceive_some {w : ℕ} {pending : Bool} (h : s.workReceive w pending = some s') :
    ∃ c, s.workThreads[w]? = some (.rearming c) ∧
      (s.setWorker w .top).receivePacket c.key pending = some s' := by
  cases hpc : s.workThreads[w]? with
  | none => simp [workReceive, hpc] at h
  | some pc =>
      cases pc with
      | rearming c => exact ⟨c, rfl, by simpa [workReceive, hpc] using h⟩
      | _ => simp [workReceive, hpc] at h

/-! ### The operating system -/

theorem completeRecv_some {k : ℕ} {bSuccess : Bool} {data : List UInt8}
    (h : s.completeRecv k bSuccess data = some s') :
    ∃ r, s.os.outstanding[k]? = some r ∧ data.length ≤ maxPacketBuf ∧
      (s.os.isOpen r.conn = true ∨ bSuccess = false ∧ data = []) ∧
      s' = { s.modifyContext r.buf (·.completeRecv data) with
        os := { s.os with
          outstanding := s.os.outstanding.eraseIdx k
          completions := s.os.completions ++ [⟨r.key, bSuccess, data, r.conn⟩] } } := by
  cases hr : s.os.outstanding[k]? with
  | none => simp [completeRecv, hr] at h
  | some r =>
      simp only [completeRecv, hr, Option.ite_none_right_eq_some] at h
      exact ⟨r, rfl, h.1.1, h.1.2, (Option.some.inj h.2).symm⟩

/-! ### `SendThread` -/

theorem sendTop_some (h : s.sendTop = some s') :
    s.sendThread = .top ∧
      s' = { s with sendThread := if s.isSendThreadRun then .popping else .stopped } := by
  cases hpc : s.sendThread with
  | top => exact ⟨rfl, by simpa [sendTop, hpc] using h.symm⟩
  | _ => simp [sendTop, hpc] at h

theorem popPacket_some (h : s.popPacket = some s') :
    s.sendThread = .popping ∧
      s' = { s with
        que := (getPendingPacket s.que).2
        sendThread := if 0 < (getPendingPacket s.que).1.bufferSize then
          .holding (getPendingPacket s.que).1 (s.history.owners.headD 0) else .top
        history := { s.history with owners := s.history.owners.tail } } := by
  cases hpc : s.sendThread with
  | popping => exact ⟨rfl, by simpa [popPacket, hpc] using h.symm⟩
  | _ => simp [popPacket, hpc] at h

theorem sendPacket_some (h : s.sendPacket = some s') :
    ∃ p conn, s.sendThread = .holding p conn ∧
      s' = { s with sendThread := sendNext s.contexts p conn } := by
  cases hpc : s.sendThread with
  | holding p conn => exact ⟨p, conn, rfl, by simpa [sendPacket, hpc] using h.symm⟩
  | _ => simp [sendPacket, hpc] at h

theorem sendCopy_some (h : s.sendCopy = some s') :
    ∃ p conn, s.sendThread = .copying p conn ∧
      s' = { s.modifyContext p.packetIndex.toNat (·.copyToSend p.bytes) with
        sendThread := .sending p conn } := by
  cases hpc : s.sendThread with
  | copying p conn => exact ⟨p, conn, rfl, by simpa [sendCopy, hpc] using h.symm⟩
  | _ => simp [sendCopy, hpc] at h

theorem sendWsa_some {r : Option ℕ} (h : s.sendWsa r = some s') :
    ∃ p conn, s.sendThread = .sending p conn ∧
      s.wsaSendReturns p.packetIndex.toNat p.bufferSize.toNat r = true ∧
      s' = { s with sendThread := .top } := by
  cases hpc : s.sendThread with
  | sending p conn =>
      simp only [sendWsa, hpc, Option.ite_none_right_eq_some] at h
      exact ⟨p, conn, rfl, h.1, (Option.some.inj h.2).symm⟩
  | _ => simp [sendWsa, hpc] at h

/-! ### `SendBroadCastThread` -/

theorem bcTop_some (h : s.bcTop = some s') :
    s.broadCastThread = .top ∧
      s' = { s with
        broadCastThread := if s.isSendBroadCastThreadRun then .popping else .stopped } := by
  cases hpc : s.broadCastThread with
  | top => exact ⟨rfl, by simpa [bcTop, hpc] using h.symm⟩
  | _ => simp [bcTop, hpc] at h

theorem popBCPacket_some (h : s.popBCPacket = some s') :
    s.broadCastThread = .popping ∧
      s' = { s with
        que := (getPendingBCPacket s.que).2
        broadCastThread := if 0 < (getPendingBCPacket s.que).1.bufferSize then
          .looping (getPendingBCPacket s.que).1 0 else .top } := by
  cases hpc : s.broadCastThread with
  | popping => exact ⟨rfl, by simpa [popBCPacket, hpc] using h.symm⟩
  | _ => simp [popBCPacket, hpc] at h

theorem bcTest_some (h : s.bcTest = some s') :
    ∃ p i, s.broadCastThread = .looping p i ∧
      s' = { s with broadCastThread := bcNext s.contexts p i } := by
  cases hpc : s.broadCastThread with
  | looping p i => exact ⟨p, i, rfl, by simpa [bcTest, hpc] using h.symm⟩
  | _ => simp [bcTest, hpc] at h

theorem bcCopy_some (h : s.bcCopy = some s') :
    ∃ p i, s.broadCastThread = .copying p i ∧
      s' = { s.modifyContext i (·.copyToSend p.bytes) with broadCastThread := .sending p i } := by
  cases hpc : s.broadCastThread with
  | copying p i => exact ⟨p, i, rfl, by simpa [bcCopy, hpc] using h.symm⟩
  | _ => simp [bcCopy, hpc] at h

theorem bcWsa_some {r : Option ℕ} (h : s.bcWsa r = some s') :
    ∃ p i, s.broadCastThread = .sending p i ∧ s.wsaSendReturns i p.bufferSize.toNat r = true ∧
      s' = { s with
        broadCastThread :=
          if r = none ∧ p.bIsReliable = true then .looping p i else .looping p (i + 1) } := by
  cases hpc : s.broadCastThread with
  | sending p i =>
      simp only [bcWsa, hpc, Option.ite_none_right_eq_some] at h
      exact ⟨p, i, rfl, h.1, (Option.some.inj h.2).symm⟩
  | _ => simp [bcWsa, hpc] at h

/-! ### `DisconnectSocket` and `CloseThread` -/

theorem disconnect_some {i : ℕ} (h : s.disconnect i = some s') :
    ∃ c, s.contexts[i]? = some c ∧ c.isConnected = true ∧
      s' = { s with os := s.os.close c.socket, disconnecting := s.disconnecting ++ [i] } := by
  cases hctx : s.contexts[i]? with
  | none => simp [disconnect, hctx] at h
  | some c =>
      simp only [disconnect, hctx, Option.ite_none_right_eq_some] at h
      exact ⟨c, rfl, h.1, (Option.some.inj h.2).symm⟩

theorem disconnectForget_some {k : ℕ} (h : s.disconnectForget k = some s') :
    ∃ i, s.disconnecting[k]? = some i ∧
      s' = { s.modifyContext i (·.forgetSocket) with
        disconnecting := s.disconnecting.eraseIdx k } := by
  cases hi : s.disconnecting[k]? with
  | none => simp [disconnectForget, hi] at h
  | some i => exact ⟨i, rfl, by simpa [disconnectForget, hi] using h.symm⟩

/-- `CloseThread` changes the run flags and its own program point only. -/
theorem closeThreads_some (h : s.closeThreads = some s') :
    ∃ a w d b pc, s' = { s with
      isAcceptThreadRun := a, isWorkThreadRun := w, isSendThreadRun := d,
      isSendBroadCastThreadRun := b, closeThread := pc } := by
  cases hpc : s.closeThread with
  | notCalled => exact ⟨_, _, _, _, _, by simpa [closeThreads, hpc] using h.symm⟩
  | joinAccept =>
      simp only [closeThreads, hpc, Option.ite_none_right_eq_some] at h
      exact ⟨_, _, _, _, _, (Option.some.inj h.2).symm⟩
  | joinWork =>
      simp only [closeThreads, hpc, Option.ite_none_right_eq_some] at h
      exact ⟨_, _, _, _, _, (Option.some.inj h.2).symm⟩
  | joinSend =>
      cases hs : s.sendThread with
      | stopped => exact ⟨_, _, _, _, _, by simpa [closeThreads, hpc, hs] using h.symm⟩
      | _ => simp [closeThreads, hpc, hs] at h
  | joinBroadCast =>
      cases hs : s.broadCastThread with
      | stopped => exact ⟨_, _, _, _, _, by simpa [closeThreads, hpc, hs] using h.symm⟩
      | _ => simp [closeThreads, hpc, hs] at h
  | finished => simp [closeThreads, hpc] at h

/-- The socket of a slot; `none` when the slot is free and when there is no such slot. -/
def socketAt (s : Server) (i : ℕ) : Option Socket := s.contexts[i]?.bind ClientContext.socket

/-- The slot exists and is free. -/
def IsFree (s : Server) (i : ℕ) : Prop := i < s.contexts.length ∧ s.socketAt i = none

theorem socketAt_eq {i : ℕ} {c : ClientContext} (h : s.contexts[i]? = some c) :
    s.socketAt i = c.socket := by
  simp [socketAt, h]

theorem lt_of_context {i : ℕ} {c : ClientContext} (h : s.contexts[i]? = some c) :
    i < s.contexts.length := (List.getElem?_eq_some_iff.1 h).1

theorem exists_context {i : ℕ} (h : i < s.contexts.length) : ∃ c, s.contexts[i]? = some c :=
  ⟨_, List.getElem?_eq_getElem h⟩

end Server

/-! ### The footprint on the table of contexts -/

/-- `Writes s e i f`: in the state `s` the event `e` changes the context `i` by `f`. -/
inductive Writes (s : Server) : Event → ℕ → (ClientContext → ClientContext) → Prop
  | attach {i conn : ℕ} {sock : Socket} (hpc : s.acceptThread = .connecting i sock conn) :
      Writes s .connectClient i (·.connectClient sock)
  | forget {w : ℕ} {c : Completion} (hpc : s.workThreads[w]? = some (.forgetting c)) :
      Writes s (.forgetSocket w) c.key (·.forgetSocket)
  | disconnect {k i : ℕ} (hpc : s.disconnecting[k]? = some i) :
      Writes s (.disconnectForget k) i (·.forgetSocket)
  | acceptZero {i conn : ℕ} {pending : Bool} (hpc : s.acceptThread = .arming i conn) :
      Writes s (.acceptReceive pending) i (·.zeroRecvBuf)
  | workZero {w : ℕ} {c : Completion} {pending : Bool}
      (hpc : s.workThreads[w]? = some (.rearming c)) :
      Writes s (.workReceive w pending) c.key (·.zeroRecvBuf)
  | complete {k : ℕ} {r : PendingRecv} {bSuccess : Bool} {data : List UInt8}
      (hr : s.os.outstanding[k]? = some r) (hlen : data.length ≤ maxPacketBuf) :
      Writes s (.completeRecv k bSuccess data) r.buf (·.completeRecv data)
  | sendCopy {p : PacketBuffer} {conn : ℕ} (hpc : s.sendThread = .copying p conn) :
      Writes s .sendCopy p.packetIndex.toNat (·.copyToSend p.bytes)
  | bcCopy {p : PacketBuffer} {i : ℕ} (hpc : s.broadCastThread = .copying p i) :
      Writes s .bcCopy i (·.copyToSend p.bytes)

/-- Behind a `ReceivePacket` exactly the buffer of its context is cleared. -/
theorem Server.receivePacket_contexts {i : ℕ} {pending : Bool}
    (h : s.receivePacket i pending = some s') :
    s'.contexts = s.contexts.modify i (·.zeroRecvBuf) := by
  obtain ⟨c, -, ⟨-, rfl⟩ | ⟨-, sock, conn, -, -, rfl⟩⟩ := Server.receivePacket_some h <;> rfl

/-- **A step changes at most one context, in one of the ways `Writes` lists.** -/
theorem step_contexts {e : Event} (h : step cfg s e = some s') :
    s'.contexts = s.contexts ∨ ∃ i f, Writes s e i f ∧ s'.contexts = s.contexts.modify i f := by
  -- the inversion lemma of each event says which state it leads to
  cases e with
  | scanSlot => obtain ⟨k, -, rfl⟩ := Server.scanSlot_some h; exact Or.inl rfl
  | wsaAccept r =>
      cases r with
      | none =>
          have h : s.wsaAccept cfg none = some s' := h
          obtain ⟨i, -, rfl⟩ := Server.wsaAccept_none_some h
          exact Or.inl rfl
      | some sock => obtain ⟨i, -, -, -, rfl⟩ := Server.wsaAccept_some_some h; exact Or.inl rfl
  | connectClient =>
      obtain ⟨i, sock, conn, hpc, rfl⟩ := Server.connectClient_some h
      exact Or.inr ⟨i, _, .attach hpc, rfl⟩
  | checkConnected =>
      obtain ⟨i, sock, conn, c, -, -, ⟨-, rfl⟩ | ⟨-, rfl⟩⟩ := Server.checkConnected_some h <;>
        exact Or.inl rfl
  | countClient => obtain ⟨i, conn, -, rfl⟩ := Server.countClient_some h; exact Or.inl rfl
  | greetClient => obtain ⟨i, conn, c, -, -, rfl⟩ := Server.greetClient_some h; exact Or.inl rfl
  | acceptReceive pending =>
      obtain ⟨i, conn, hpc, h⟩ := Server.acceptReceive_some h
      have hctx := Server.receivePacket_contexts h
      exact Or.inr ⟨i, _, .acceptZero hpc, hctx⟩
  | workTop w => obtain ⟨-, rfl⟩ := Server.workTop_some h; exact Or.inl rfl
  | getCompletion w =>
      obtain ⟨c, rest, -, -, rfl⟩ := Server.getCompletion_some h
      exact Or.inl rfl
  | closeSocket w => obtain ⟨c, ctx, -, -, rfl⟩ := Server.closeSocket_some h; exact Or.inl rfl
  | forgetSocket w =>
      obtain ⟨c, hpc, rfl⟩ := Server.forgetSocket_some h
      exact Or.inr ⟨c.key, _, .forget hpc, rfl⟩
  | deSerialize w =>
      obtain ⟨c, ctx, -, -, ⟨-, rfl⟩ | ⟨packetID, dataSize, -, rfl⟩⟩ :=
        Server.deSerialize_some h <;> exact Or.inl rfl
  | workReceive w pending =>
      obtain ⟨c, hpc, h⟩ := Server.workReceive_some h
      have hctx := Server.receivePacket_contexts h
      exact Or.inr ⟨c.key, _, .workZero hpc, hctx⟩
  | completeRecv k bSuccess data =>
      obtain ⟨r, hr, hlen, -, rfl⟩ := Server.completeRecv_some h
      exact Or.inr ⟨r.buf, _, .complete hr hlen, rfl⟩
  | sendTop => obtain ⟨-, rfl⟩ := Server.sendTop_some h; exact Or.inl rfl
  | popPacket => obtain ⟨-, rfl⟩ := Server.popPacket_some h; exact Or.inl rfl
  | sendPacket => obtain ⟨p, conn, -, rfl⟩ := Server.sendPacket_some h; exact Or.inl rfl
  | sendCopy =>
      obtain ⟨p, conn, hpc, rfl⟩ := Server.sendCopy_some h
      exact Or.inr ⟨_, _, .sendCopy hpc, rfl⟩
  | sendWsa r => obtain ⟨p, conn, -, -, rfl⟩ := Server.sendWsa_some h; exact Or.inl rfl
  | bcTop => obtain ⟨-, rfl⟩ := Server.bcTop_some h; exact Or.inl rfl
  | popBCPacket => obtain ⟨-, rfl⟩ := Server.popBCPacket_some h; exact Or.inl rfl
  | bcTest => obtain ⟨p, i, -, rfl⟩ := Server.bcTest_some h; exact Or.inl rfl
  | bcCopy =>
      obtain ⟨p, i, hpc, rfl⟩ := Server.bcCopy_some h
      exact Or.inr ⟨i, _, .bcCopy hpc, rfl⟩
  | bcWsa r => obtain ⟨p, i, -, -, rfl⟩ := Server.bcWsa_some h; exact Or.inl rfl
  | disconnect i => obtain ⟨c, -, -, rfl⟩ := Server.disconnect_some h; exact Or.inl rfl
  | disconnectForget k =>
      obtain ⟨i, hi, rfl⟩ := Server.disconnectForget_some h
      exact Or.inr ⟨i, _, .disconnect hi, rfl⟩
  | closeThreads => obtain ⟨a, w, d, b, pc, rfl⟩ := Server.closeThreads_some h; exact Or.inl rfl

/-! ### The other components -/

/-- What a step leaves alone. -/
structure StepFrame (s s' : Server) (e : Event) : Prop where
  acceptThread : e.thread ≠ .accept → s'.acceptThread = s.acceptThread
  workThreads : (∀ w, e.thread ≠ .work w) → s'.workThreads = s.workThreads
  sendThread : e.thread ≠ .send → s'.sendThread = s.sendThread
  broadCastThread : e.thread ≠ .broadCast → s'.broadCastThread = s.broadCastThread
  occupant : e ≠ .connectClient → s'.history.occupant = s.history.occupant
  connectedPlayers : (∀ w, e ≠ .deSerialize w) → s'.que.connectedPlayers = s.que.connectedPlayers
  loggedIn : (∀ w, e ≠ .deSerialize w) → s'.history.loggedIn = s.history.loggedIn
  ioSendPacketQue : (∀ w, e ≠ .deSerialize w) → e ≠ .greetClient → e ≠ .popPacket →
    s'.que.ioSendPacketQue = s.que.ioSendPacketQue ∧ s'.history.owners = s.history.owners
  que : (∀ w, e ≠ .deSerialize w) → e ≠ .greetClient → e ≠ .popPacket → e ≠ .popBCPacket →
    s'.que = s.que
  disconnecting : e.thread ≠ .disconnect → s'.disconnecting = s.disconnecting
  closeThread : e ≠ .closeThreads → s'.closeThread = s.closeThread
  clientCount : e ≠ .countClient → s'.clientCount = s.clientCount

/-- The queue the broadcast thread pops from is not the one the sender thread pops from. -/
@[simp] theorem getPendingBCPacket_connectedPlayers (q : SendQue) :
    (getPendingBCPacket q).2.connectedPlayers = q.connectedPlayers := by
  unfold getPendingBCPacket
  split <;> rfl

@[simp] theorem getPendingBCPacket_ioSendPacketQue (q : SendQue) :
    (getPendingBCPacket q).2.ioSendPacketQue = q.ioSendPacketQue := by
  unfold getPendingBCPacket
  split <;> rfl

@[simp] theorem getPendingPacket_connectedPlayers (q : SendQue) :
    (getPendingPacket q).2.connectedPlayers = q.connectedPlayers := by
  unfold getPendingPacket
  split <;> rfl

theorem Server.receivePacket_frame {i : ℕ} {pending : Bool}
    (h : s.receivePacket i pending = some s') :
    s'.acceptThread = s.acceptThread ∧ s'.workThreads = s.workThreads ∧
      s'.sendThread = s.sendThread ∧ s'.broadCastThread = s.broadCastThread ∧
      s'.que = s.que ∧ s'.history = s.history ∧ s'.disconnecting = s.disconnecting ∧
      s'.closeThread = s.closeThread ∧ s'.clientCount = s.clientCount := by
  obtain ⟨c, -, ⟨-, rfl⟩ | ⟨-, sock, conn, -, -, rfl⟩⟩ := Server.receivePacket_some h <;>
    exact ⟨rfl, rfl, rfl, rfl, rfl, rfl, rfl, rfl, rfl⟩

/-- **What a step leaves alone.** -/
theorem step_frame {e : Event} (h : step cfg s e = some s') : StepFrame s s' e := by
  cases e with
  | scanSlot =>
      obtain ⟨k, -, rfl⟩ := Server.scanSlot_some h
      constructor <;> simp [Event.thread]
  | wsaAccept r =>
      cases r with
      | none =>
          have h : s.wsaAccept cfg none = some s' := h
          obtain ⟨i, -, rfl⟩ := Server.wsaAccept_none_some h
          constructor <;> simp [Event.thread]
      | some sock =>
          obtain ⟨i, -, -, -, rfl⟩ := Server.wsaAccept_some_some h
          constructor <;> simp [Event.thread]
  | connectClient =>
      obtain ⟨i, sock, conn, -, rfl⟩ := Server.connectClient_some h
      constructor <;> simp [Event.thread, Server.modifyContext]
  | checkConnected =>
      obtain ⟨i, sock, conn, c, -, -, ⟨-, rfl⟩ | ⟨-, rfl⟩⟩ := Server.checkConnected_some h <;>
        constructor <;> simp [Event.thread]
  | countClient =>
      obtain ⟨i, conn, -, rfl⟩ := Server.countClient_some h
      constructor <;> simp [Event.thread]
  | greetClient =>
      obtain ⟨i, conn, c, -, -, rfl⟩ := Server.greetClient_some h
      constructor <;> simp [Event.thread, onConnected]
  | acceptReceive pending =>
      obtain ⟨i, conn, -, h⟩ := Server.acceptReceive_some h
      obtain ⟨-, hw, hd, hb, hq, hh, hx, hc, hn⟩ := Server.receivePacket_frame h
      constructor <;> simp [Event.thread, hw, hd, hb, hq, hh, hx, hc, hn]
  | workTop w =>
      obtain ⟨-, rfl⟩ := Server.workTop_some h
      constructor <;> simp [Event.thread, Server.setWorker]
  | getCompletion w =>
      obtain ⟨c, rest, -, -, rfl⟩ := Server.getCompletion_some h
      constructor <;> simp [Event.thread, Server.setWorker]
  | closeSocket w =>
      obtain ⟨c, ctx, -, -, rfl⟩ := Server.closeSocket_some h
      constructor <;> simp [Event.thread, Server.setWorker]
  | forgetSocket w =>
      obtain ⟨c, -, rfl⟩ := Server.forgetSocket_some h
      constructor <;> simp [Event.thread, Server.setWorker, Server.modifyContext]
  | deSerialize w =>
      obtain ⟨c, ctx, -, -, ⟨-, rfl⟩ | ⟨packetID, dataSize, -, rfl⟩⟩ :=
        Server.deSerialize_some h <;>
        constructor <;> simp [Event.thread, Server.setWorker, Server.dispatched]
  | workReceive w pending =>
      obtain ⟨c, -, h⟩ := Server.workReceive_some h
      obtain ⟨ha, -, hd, hb, hq, hh, hx, hc, hn⟩ := Server.receivePacket_frame h
      constructor <;> simp [Event.thread, ha, hd, hb, hq, hh, hx, hc, hn, Server.setWorker]
  | completeRecv k bSuccess data =>
      obtain ⟨r, -, -, -, rfl⟩ := Server.completeRecv_some h
      constructor <;> simp [Event.thread, Server.modifyContext]
  | sendTop =>
      obtain ⟨-, rfl⟩ := Server.sendTop_some h
      constructor <;> simp [Event.thread]
  | popPacket =>
      obtain ⟨-, rfl⟩ := Server.popPacket_some h
      constructor <;> simp [Event.thread]
  | sendPacket =>
      obtain ⟨p, conn, -, rfl⟩ := Server.sendPacket_some h
      constructor <;> simp [Event.thread]
  | sendCopy =>
      obtain ⟨p, conn, -, rfl⟩ := Server.sendCopy_some h
      constructor <;> simp [Event.thread, Server.modifyContext]
  | sendWsa r =>
      obtain ⟨p, conn, -, -, rfl⟩ := Server.sendWsa_some h
      constructor <;> simp [Event.thread]
  | bcTop =>
      obtain ⟨-, rfl⟩ := Server.bcTop_some h
      constructor <;> simp [Event.thread]
  | popBCPacket =>
      obtain ⟨-, rfl⟩ := Server.popBCPacket_some h
      constructor <;> simp [Event.thread]
  | bcTest =>
      obtain ⟨p, i, -, rfl⟩ := Server.bcTest_some h
      constructor <;> simp [Event.thread]
  | bcCopy =>
      obtain ⟨p, i, -, rfl⟩ := Server.bcCopy_some h
      constructor <;> simp [Event.thread, Server.modifyContext]
  | bcWsa r =>
      obtain ⟨p, i, -, -, rfl⟩ := Server.bcWsa_some h
      constructor <;> simp [Event.thread]
  | disconnect i =>
      obtain ⟨c, -, -, rfl⟩ := Server.disconnect_some h
      constructor <;> simp [Event.thread]
  | disconnectForget k =>
      obtain ⟨i, -, rfl⟩ := Server.disconnectForget_some h
      constructor <;> simp [Event.thread, Server.modifyContext]
  | closeThreads =>
      obtain ⟨a, w, d, b, pc, rfl⟩ := Server.closeThreads_some h
      constructor <;> simp [Event.thread]

/-! ### The moves of the accept thread -/

/-- `AcceptMove cfg s e pc`: in the state `s` the event `e` takes the accept thread to `pc`. -/
inductive AcceptMove (cfg : Config) (s : Server) : Event → AcceptPc → Prop
  | scanned {k : ℕ} (hpc : s.acceptThread = .scan k) :
      AcceptMove cfg s .scanSlot (Server.scanNext s.contexts k)
  | failed {i : ℕ} (hpc : s.acceptThread = .accepting i) :
      AcceptMove cfg s (.wsaAccept none) (.scan 0)
  | accepted {i : ℕ} {sock : Socket} (hpc : s.acceptThread = .accepting i)
      (hlisten : sock ≠ cfg.listenSocket) (hnew : s.os.connOf sock = none) :
      AcceptMove cfg s (.wsaAccept (some sock)) (.connecting i sock s.os.accepted)
  | attached {i conn : ℕ} {sock : Socket} (hpc : s.acceptThread = .connecting i sock conn) :
      AcceptMove cfg s .connectClient (.checking i sock conn)
  | kept {i conn : ℕ} {sock : Socket} {c : ClientContext}
      (hpc : s.acceptThread = .checking i sock conn) (hctx : s.contexts[i]? = some c)
      (hc : c.isConnected = true) : AcceptMove cfg s .checkConnected (.counting i conn)
  | dropped {i conn : ℕ} {sock : Socket} {c : ClientContext}
      (hpc : s.acceptThread = .checking i sock conn) (hctx : s.contexts[i]? = some c)
      (hc : c.isConnected = false) : AcceptMove cfg s .checkConnected (.scan 0)
  | counted {i conn : ℕ} (hpc : s.acceptThread = .counting i conn) :
      AcceptMove cfg s .countClient (.greeting i conn)
  | greeted {i conn : ℕ} {c : ClientContext} (hpc : s.acceptThread = .greeting i conn)
      (hctx : s.contexts[i]? = some c) : AcceptMove cfg s .greetClient (.arming i conn)
  | armed {i conn : ℕ} {pending : Bool} (hpc : s.acceptThread = .arming i conn) :
      AcceptMove cfg s (.acceptReceive pending) (.scan 0)

/-- **The accept thread moves by its own events only**, and then in one of the ways `AcceptMove`
lists. -/
theorem step_acceptThread {e : Event} (h : step cfg s e = some s') :
    s'.acceptThread = s.acceptThread ∧ e.thread ≠ .accept ∨
      AcceptMove cfg s e s'.acceptThread := by
  by_cases he : e.thread = .accept
  · right
    cases e with
    | scanSlot => obtain ⟨k, hpc, rfl⟩ := Server.scanSlot_some h; exact .scanned hpc
    | wsaAccept r =>
        cases r with
        | none =>
            have h : s.wsaAccept cfg none = some s' := h
            obtain ⟨i, hpc, rfl⟩ := Server.wsaAccept_none_some h
            exact .failed hpc
        | some sock =>
            obtain ⟨i, hpc, hl, hc, rfl⟩ := Server.wsaAccept_some_some h
            exact .accepted hpc hl hc
    | connectClient =>
        obtain ⟨i, sock, conn, hpc, rfl⟩ := Server.connectClient_some h
        exact .attached hpc
    | checkConnected =>
        obtain ⟨i, sock, conn, c, hpc, hctx, ⟨hc, rfl⟩ | ⟨hc, rfl⟩⟩ :=
          Server.checkConnected_some h
        · exact .kept hpc hctx hc
        · exact .dropped hpc hctx hc
    | countClient => obtain ⟨i, conn, hpc, rfl⟩ := Server.countClient_some h; exact .counted hpc
    | greetClient =>
        obtain ⟨i, conn, c, hpc, hctx, rfl⟩ := Server.greetClient_some h
        exact .greeted hpc hctx
    | acceptReceive pending =>
        obtain ⟨i, conn, hpc, h⟩ := Server.acceptReceive_some h
        rw [(Server.receivePacket_frame h).1]
        exact .armed hpc
    | _ => cases he
  · exact Or.inl ⟨(step_frame h).acceptThread he, he⟩

/-! ### The moves of the worker threads -/

/-- `WorkMove cfg s e w pc pc'`: in the state `s` the event `e` takes the worker thread `w` from
`pc` to `pc'`. -/
inductive WorkMove (cfg : Config) (s : Server) : Event → ℕ → WorkPc → WorkPc → Prop
  | entered {w : ℕ} :
      WorkMove cfg s (.workTop w) w .top (if s.isWorkThreadRun then .waiting else .stopped)
  | got {w : ℕ} {c : Completion} {rest : List Completion} (hq : s.os.completions = c :: rest) :
      WorkMove cfg s (.getCompletion w) w .waiting (Server.afterCompletion c)
  | closed {w : ℕ} {c : Completion} :
      WorkMove cfg s (.closeSocket w) w (.closing c) (.forgetting c)
  | forgot {w : ℕ} {c : Completion} : WorkMove cfg s (.forgetSocket w) w (.forgetting c) .top
  | ignored {w : ℕ} {c : Completion} {ctx : ClientContext} (hctx : s.contexts[c.key]? = some ctx)
      (hd : dispatchOf cfg.listenSocket ctx = none) :
      WorkMove cfg s (.deSerialize w) w (.received c) .top
  | handled {w : ℕ} {c : Completion} {ctx : ClientContext} (hctx : s.contexts[c.key]? = some ctx)
      (hd : dispatchOf cfg.listenSocket ctx ≠ none) :
      WorkMove cfg s (.deSerialize w) w (.received c) (.rearming c)
  | rearmed {w : ℕ} {c : Completion} {pending : Bool} :
      WorkMove cfg s (.workReceive w pending) w (.rearming c) .top

/-- **A worker thread moves by its own events only**, and then in one of the ways `WorkMove`
lists. -/
theorem step_workThreads {e : Event} (h : step cfg s e = some s') :
    s'.workThreads = s.workThreads ∧ (∀ w, e.thread ≠ .work w) ∨
      ∃ w pc pc', WorkMove cfg s e w pc pc' ∧ s.workThreads[w]? = some pc ∧
        s'.workThreads = s.workThreads.set w pc' := by
  by_cases he : ∀ w, e.thread ≠ .work w
  · exact Or.inl ⟨(step_frame h).workThreads he, he⟩
  · right
    cases e with
    | workTop w => obtain ⟨hpc, rfl⟩ := Server.workTop_some h; exact ⟨w, _, _, .entered, hpc, rfl⟩
    | getCompletion w =>
        obtain ⟨c, rest, hpc, hq, rfl⟩ := Server.getCompletion_some h
        exact ⟨w, _, _, .got hq, hpc, rfl⟩
    | closeSocket w =>
        obtain ⟨c, ctx, hpc, -, rfl⟩ := Server.closeSocket_some h
        exact ⟨w, _, _, .closed, hpc, rfl⟩
    | forgetSocket w =>
        obtain ⟨c, hpc, rfl⟩ := Server.forgetSocket_some h
        exact ⟨w, _, _, .forgot, hpc, rfl⟩
    | deSerialize w =>
        obtain ⟨c, ctx, hpc, hctx, ⟨hd, rfl⟩ | ⟨packetID, dataSize, hd, rfl⟩⟩ :=
          Server.deSerialize_some h
        · exact ⟨w, _, _, .ignored hctx hd, hpc, rfl⟩
        · exact ⟨w, _, _, .handled hctx (by simp [hd]), hpc, rfl⟩
    | workReceive w pending =>
        obtain ⟨c, hpc, h⟩ := Server.workReceive_some h
        exact ⟨w, _, _, .rearmed, hpc, (Server.receivePacket_frame h).2.1⟩
    | _ => exact absurd (fun w => by simp [Event.thread]) he

/-! ### The moves of the sender threads -/

/-- `SendMove s e pc`: in the state `s` the event `e` takes `SendThread` to `pc`. -/
inductive SendMove (s : Server) : Event → SendPc → Prop
  | entered (hpc : s.sendThread = .top) :
      SendMove s .sendTop (if s.isSendThreadRun then .popping else .stopped)
  | popped (hpc : s.sendThread = .popping) (hpos : 0 < (getPendingPacket s.que).1.bufferSize) :
      SendMove s .popPacket (.holding (getPendingPacket s.que).1 (s.history.owners.headD 0))
  | empty (hpc : s.sendThread = .popping) (hzero : ¬ 0 < (getPendingPacket s.que).1.bufferSize) :
      SendMove s .popPacket .top
  | tested {p : PacketBuffer} {conn : ℕ} (hpc : s.sendThread = .holding p conn) :
      SendMove s .sendPacket (Server.sendNext s.contexts p conn)
  | copied {p : PacketBuffer} {conn : ℕ} (hpc : s.sendThread = .copying p conn) :
      SendMove s .sendCopy (.sending p conn)
  | sent {p : PacketBuffer} {conn : ℕ} {r : Option ℕ} (hpc : s.sendThread = .sending p conn) :
      SendMove s (.sendWsa r) .top

/-- **`SendThread` moves by its own events only**, and then in one of the ways `SendMove` lists. -/
theorem step_sendThread {e : Event} (h : step cfg s e = some s') :
    s'.sendThread = s.sendThread ∧ e.thread ≠ .send ∨ SendMove s e s'.sendThread := by
  by_cases he : e.thread = .send
  · right
    cases e with
    | sendTop => obtain ⟨hpc, rfl⟩ := Server.sendTop_some h; exact .entered hpc
    | popPacket =>
        obtain ⟨hpc, rfl⟩ := Server.popPacket_some h
        by_cases hpos : 0 < (getPendingPacket s.que).1.bufferSize
        · simp only [hpos, if_true]
          exact .popped hpc hpos
        · simp only [hpos, if_false]
          exact .empty hpc hpos
    | sendPacket => obtain ⟨p, conn, hpc, rfl⟩ := Server.sendPacket_some h; exact .tested hpc
    | sendCopy => obtain ⟨p, conn, hpc, rfl⟩ := Server.sendCopy_some h; exact .copied hpc
    | sendWsa r => obtain ⟨p, conn, hpc, -, rfl⟩ := Server.sendWsa_some h; exact .sent hpc
    | _ => cases he
  · exact Or.inl ⟨(step_frame h).sendThread he, he⟩

/-- `BroadCastMove s e pc`: in the state `s` the event `e` takes `SendBroadCastThread` to `pc`. -/
inductive BroadCastMove (s : Server) : Event → BroadCastPc → Prop
  | entered (hpc : s.broadCastThread = .top) :
      BroadCastMove s .bcTop (if s.isSendBroadCastThreadRun then .popping else .stopped)
  | popped (hpc : s.broadCastThread = .popping)
      (hpos : 0 < (getPendingBCPacket s.que).1.bufferSize) :
      BroadCastMove s .popBCPacket (.looping (getPendingBCPacket s.que).1 0)
  | empty (hpc : s.broadCastThread = .popping)
      (hzero : ¬ 0 < (getPendingBCPacket s.que).1.bufferSize) : BroadCastMove s .popBCPacket .top
  | tested {p : PacketBuffer} {i : ℕ} (hpc : s.broadCastThread = .looping p i) :
      BroadCastMove s .bcTest (Server.bcNext s.contexts p i)
  | copied {p : PacketBuffer} {i : ℕ} (hpc : s.broadCastThread = .copying p i) :
      BroadCastMove s .bcCopy (.sending p i)
  | sent {p : PacketBuffer} {i : ℕ} {r : Option ℕ} (hpc : s.broadCastThread = .sending p i) :
      BroadCastMove s (.bcWsa r)
        (if r = none ∧ p.bIsReliable = true then .looping p i else .looping p (i + 1))

/-- **`SendBroadCastThread` moves by its own events only**, and then in one of the ways
`BroadCastMove` lists. -/
theorem step_broadCastThread {e : Event} (h : step cfg s e = some s') :
    s'.broadCastThread = s.broadCastThread ∧ e.thread ≠ .broadCast ∨
      BroadCastMove s e s'.broadCastThread := by
  by_cases he : e.thread = .broadCast
  · right
    cases e with
    | bcTop => obtain ⟨hpc, rfl⟩ := Server.bcTop_some h; exact .entered hpc
    | popBCPacket =>
        obtain ⟨hpc, rfl⟩ := Server.popBCPacket_some h
        by_cases hpos : 0 < (getPendingBCPacket s.que).1.bufferSize
        · simp only [hpos, if_true]
          exact .popped hpc hpos
        · simp only [hpos, if_false]
          exact .empty hpc hpos
    | bcTest => obtain ⟨p, i, hpc, rfl⟩ := Server.bcTest_some h; exact .tested hpc
    | bcCopy => obtain ⟨p, i, hpc, rfl⟩ := Server.bcCopy_some h; exact .copied hpc
    | bcWsa r => obtain ⟨p, i, hpc, -, rfl⟩ := Server.bcWsa_some h; exact .sent hpc
    | _ => cases he
  · exact Or.inl ⟨(step_frame h).broadCastThread he, he⟩

/-! ### The footprint on the operating system -/

/-- The events that open, close or associate a socket. -/
def Event.movesSockets : Event → Bool
  | .wsaAccept (some _) | .connectClient | .checkConnected | .closeSocket _ | .disconnect _ => true
  | _ => false

/-- The events that issue, complete or fetch a receive. -/
def Event.movesReceives : Event → Bool
  | .acceptReceive _ | .getCompletion _ | .workReceive _ _ | .completeRecv _ _ _ => true
  | _ => false

/-- What a step leaves alone of the operating system. -/
structure OSFrame (s s' : Server) (e : Event) : Prop where
  sockets : e.movesSockets = false → s'.os.sockets = s.os.sockets ∧ s'.os.keys = s.os.keys ∧
    s'.os.accepted = s.os.accepted
  receives : e.movesReceives = false → s'.os.outstanding = s.os.outstanding ∧
    s'.os.completions = s.os.completions

theorem Server.receivePacket_sockets {i : ℕ} {pending : Bool}
    (h : s.receivePacket i pending = some s') : s'.os.sockets = s.os.sockets ∧
      s'.os.keys = s.os.keys ∧ s'.os.accepted = s.os.accepted := by
  obtain ⟨c, -, ⟨-, rfl⟩ | ⟨-, sock, conn, -, -, rfl⟩⟩ := Server.receivePacket_some h <;>
    exact ⟨rfl, rfl, rfl⟩

theorem Server.receivePacket_completions {i : ℕ} {pending : Bool}
    (h : s.receivePacket i pending = some s') : s'.os.completions = s.os.completions := by
  obtain ⟨c, -, ⟨-, rfl⟩ | ⟨-, sock, conn, -, -, rfl⟩⟩ := Server.receivePacket_some h <;> rfl

theorem step_os {e : Event} (h : step cfg s e = some s') : OSFrame s s' e := by
  cases e with
  | scanSlot => obtain ⟨k, -, rfl⟩ := Server.scanSlot_some h; constructor <;> simp
  | wsaAccept r =>
      cases r with
      | none =>
          have h : s.wsaAccept cfg none = some s' := h
          obtain ⟨i, -, rfl⟩ := Server.wsaAccept_none_some h
          constructor <;> simp
      | some sock =>
          obtain ⟨i, -, -, -, rfl⟩ := Server.wsaAccept_some_some h
          constructor <;> simp [Event.movesSockets]
  | connectClient =>
      obtain ⟨i, sock, conn, -, rfl⟩ := Server.connectClient_some h
      constructor <;> simp [Event.movesSockets]
  | checkConnected =>
      obtain ⟨i, sock, conn, c, -, -, ⟨-, rfl⟩ | ⟨-, rfl⟩⟩ := Server.checkConnected_some h <;>
        constructor <;> simp [Event.movesSockets, OS.close]
  | countClient => obtain ⟨i, conn, -, rfl⟩ := Server.countClient_some h; constructor <;> simp
  | greetClient => obtain ⟨i, conn, c, -, -, rfl⟩ := Server.greetClient_some h; constructor <;> simp
  | acceptReceive pending =>
      obtain ⟨i, conn, -, h⟩ := Server.acceptReceive_some h
      have hsock := Server.receivePacket_sockets h
      exact ⟨fun _ => hsock, fun he => by cases he⟩
  | workTop w =>
      obtain ⟨-, rfl⟩ := Server.workTop_some h
      constructor <;> simp [Server.setWorker]
  | getCompletion w =>
      obtain ⟨c, rest, -, -, rfl⟩ := Server.getCompletion_some h
      constructor <;> simp [Event.movesReceives]
  | closeSocket w =>
      obtain ⟨c, ctx, -, -, rfl⟩ := Server.closeSocket_some h
      constructor <;> simp [Event.movesSockets, OS.close]
  | forgetSocket w =>
      obtain ⟨c, -, rfl⟩ := Server.forgetSocket_some h
      constructor <;> simp [Server.setWorker, Server.modifyContext]
  | deSerialize w =>
      obtain ⟨c, ctx, -, -, ⟨-, rfl⟩ | ⟨packetID, dataSize, -, rfl⟩⟩ :=
        Server.deSerialize_some h <;> constructor <;> simp [Server.setWorker, Server.dispatched]
  | workReceive w pending =>
      obtain ⟨c, -, h⟩ := Server.workReceive_some h
      have hsock := Server.receivePacket_sockets h
      exact ⟨fun _ => hsock, fun he => by cases he⟩
  | completeRecv k bSuccess data =>
      obtain ⟨r, -, -, -, rfl⟩ := Server.completeRecv_some h
      constructor <;> simp [Event.movesReceives]
  | sendTop => obtain ⟨-, rfl⟩ := Server.sendTop_some h; constructor <;> simp
  | popPacket => obtain ⟨-, rfl⟩ := Server.popPacket_some h; constructor <;> simp
  | sendPacket => obtain ⟨p, conn, -, rfl⟩ := Server.sendPacket_some h; constructor <;> simp
  | sendCopy =>
      obtain ⟨p, conn, -, rfl⟩ := Server.sendCopy_some h
      constructor <;> simp [Server.modifyContext]
  | sendWsa r => obtain ⟨p, conn, -, -, rfl⟩ := Server.sendWsa_some h; constructor <;> simp
  | bcTop => obtain ⟨-, rfl⟩ := Server.bcTop_some h; constructor <;> simp
  | popBCPacket => obtain ⟨-, rfl⟩ := Server.popBCPacket_some h; constructor <;> simp
  | bcTest => obtain ⟨p, i, -, rfl⟩ := Server.bcTest_some h; constructor <;> simp
  | bcCopy =>
      obtain ⟨p, i, -, rfl⟩ := Server.bcCopy_some h
      constructor <;> simp [Server.modifyContext]
  | bcWsa r => obtain ⟨p, i, -, -, rfl⟩ := Server.bcWsa_some h; constructor <;> simp
  | disconnect i =>
      obtain ⟨c, -, -, rfl⟩ := Server.disconnect_some h
      constructor <;> simp [Event.movesSockets, OS.close]
  | disconnectForget k =>
      obtain ⟨i, -, rfl⟩ := Server.disconnectForget_some h
      constructor <;> simp [Server.modifyContext]
  | closeThreads =>
      obtain ⟨a, w, d, b, pc, rfl⟩ := Server.closeThreads_some h
      constructor <;> simp

/-! ### The footprint on the sockets -/

/-- In the state `s` the event `e` frees the slot `i`: a worker thread or a caller of
`DisconnectSocket` executes `Socket = INVALID_SOCKET`. -/
def Forgets (s : Server) (e : Event) (i : ℕ) : Prop :=
  (∃ w c, e = .forgetSocket w ∧ s.workThreads[w]? = some (.forgetting c) ∧ c.key = i) ∨
    ∃ k, e = .disconnectForget k ∧ s.disconnecting[k]? = some i

/-- What a step can do to the socket of the slot `i`. -/
inductive SocketChange (s : Server) (e : Event) (i : ℕ) : Option Socket → Prop
  | same : SocketChange s e i (s.socketAt i)
  | attached {sock : Socket} {conn : ℕ} (he : e = .connectClient)
      (hpc : s.acceptThread = .connecting i sock conn) : SocketChange s e i (some sock)
  | forgotten (h : Forgets s e i) : SocketChange s e i none

namespace Server

variable {f : ClientContext → ClientContext} {i : ℕ}

theorem socketAt_modify_of_ne (h : s'.contexts = s.contexts.modify i f) {j : ℕ} (hj : i ≠ j) :
    s'.socketAt j = s.socketAt j := by
  simp [socketAt, h, hj]

theorem socketAt_modify_self (h : s'.contexts = s.contexts.modify i f) {x : Option Socket}
    (hf : ∀ c, (f c).socket = x) (hi : i < s.contexts.length) : s'.socketAt i = x := by
  simp [socketAt, h, List.getElem?_eq_getElem hi, hf]

/-- A write that keeps the socket of its context keeps all sockets. -/
theorem socketAt_modify_of_eq (h : s'.contexts = s.contexts.modify i f)
    (hf : ∀ c, (f c).socket = c.socket) (j : ℕ) : s'.socketAt j = s.socketAt j := by
  by_cases hij : i = j
  · subst hij
    cases hc : s.contexts[i]? <;> simp [socketAt, h, hc, hf]
  · exact socketAt_modify_of_ne h hij

theorem socketAt_eq_none_of_le (h : s.contexts.length ≤ i) : s.socketAt i = none := by
  simp [socketAt, List.getElem?_eq_none h]

/-- Behind `Socket = INVALID_SOCKET` the slot has no socket. -/
theorem socketAt_of_forget (h : s'.contexts = s.contexts.modify i (·.forgetSocket)) :
    s'.socketAt i = none := by
  by_cases hi : i < s.contexts.length
  · exact socketAt_modify_self h (fun _ => rfl) hi
  · exact socketAt_eq_none_of_le (by rw [h, List.length_modify]; omega)

end Server

theorem step_length {e : Event} (h : step cfg s e = some s') :
    s'.contexts.length = s.contexts.length := by
  rcases step_contexts h with hc | ⟨i, f, -, hc⟩ <;> simp [hc]

/-- **The footprint of a step on the sockets**: only `ConnectClient` attaches one, only
`CloseSocket` forgets one. -/
theorem step_socketAt {e : Event} (h : step cfg s e = some s') (j : ℕ) :
    SocketChange s e j (s'.socketAt j) := by
  have hlen := step_length h
  by_cases hj : s.contexts.length ≤ j
  · have hnone : s'.socketAt j = s.socketAt j := by
      rw [Server.socketAt_eq_none_of_le hj, Server.socketAt_eq_none_of_le (by omega)]
    rw [hnone]
    exact .same
  · have hj : j < s.contexts.length := by omega
    rcases step_contexts h with hc | ⟨i, f, hw, hc⟩
    · have hsame : s'.socketAt j = s.socketAt j := by simp [Server.socketAt, hc]
      rw [hsame]
      exact .same
    · by_cases hij : i = j
      · subst hij
        cases hw with
        | @attach i conn sock hpc =>
            rw [Server.socketAt_modify_self hc (fun _ => rfl) hj]
            exact .attached rfl hpc
        | @forget w c hpc =>
            rw [Server.socketAt_modify_self hc (fun _ => rfl) hj]
            exact .forgotten (Or.inl ⟨w, c, rfl, hpc, rfl⟩)
        | @disconnect k i hpc =>
            rw [Server.socketAt_modify_self hc (fun _ => rfl) hj]
            exact .forgotten (Or.inr ⟨k, rfl, hpc⟩)
        -- the other writes concern the receive buffer
        | _ =>
            rw [Server.socketAt_modify_of_eq hc (fun _ => rfl)]
            exact .same
      · rw [Server.socketAt_modify_of_ne hc hij]
        exact .same

theorem step_socketAt_eq {e : Event} (h : step cfg s e = some s') (he : e ≠ .connectClient) {j : ℕ}
    (hforget : ¬ Forgets s e j) : s'.socketAt j = s.socketAt j := by
  have hfoot := step_socketAt h j
  generalize s'.socketAt j = x at hfoot ⊢
  cases hfoot with
  | same => rfl
  | attached hconnect _ => exact absurd hconnect he
  | forgotten hf => exact absurd hf hforget

/-- No step changes the index of a context. -/
theorem step_index {e : Event} (h : step cfg s e = some s') (j : ℕ) :
    s'.contexts[j]?.map ClientContext.index = s.contexts[j]?.map ClientContext.index := by
  rcases step_contexts h with hc | ⟨i, f, hw, hc⟩
  · rw [hc]
  · have hf : ∀ c, (f c).index = c.index := by cases hw <;> exact fun _ => rfl
    rw [hc, List.getElem?_modify]
    cases s.contexts[j]? with
    | none => rfl
    | some c => by_cases hij : i = j <;> simp [hij, hf]

end IocpDemo
