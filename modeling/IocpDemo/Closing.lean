/-
**Who closes which connection** (`CloseSocket`, `DisconnectSocket`, `AcceptThread`).

The completion key is the context, not the connection, and `CloseSocket` closes whatever socket the
context has when it is called.  When `DisconnectSocket` has freed the slot, its outstanding receive
completes with a failure all the same, and by then the slot may have been taken by another client.
The mutexes that a context declares for its buffers are locked nowhere.

Main definitions:

* `IocpDemo.Close`, `IocpDemo.closes` — the calls of `closesocket` on accepted sockets;
* `IocpDemo.ClosesOwn` — no worker thread closes a connection other than the one its receive was
  issued for, and no accepted socket is passed twice;
* `IocpDemo.Server.Releasing` — a thread has closed the slot's socket and not yet forgotten it;
* `IocpDemo.ClosesSafely` — the condition on a step;
* `IocpDemo.Closing` — the invariant.

Main results:

* `IocpDemo.stale_completion_harmless` — **under the condition every run closes its own
  connections, each of them once**;
* `IocpDemo.stale_completion_closes_newcomer` — a client that is closed on behalf of the former
  occupant of its slot.
-/

import IocpDemo.ServeOrder
import IocpDemo.WireFormat

set_option relaxedAutoImplicit false
set_option autoImplicit false

namespace IocpDemo

open Bytes Transition Wire

variable {cfg : Config} {s s' : Server} {n : ℕ} {e : Event} {i : ℕ}

/-! ### The log -/

/-- A call of `closesocket` on an accepted socket. -/
structure Close where
  /-- The connection the socket was accepted for. -/
  accepted : ℕ
  /-- The connection the socket refers to, which is closed. -/
  closed : Option ℕ
  /-- The connection whose failed receive a worker thread handles. -/
  issuedFor : Option ℕ
  deriving DecidableEq, Repr

/-- `closesocket` on the socket of a slot. -/
def Server.closeAt (s : Server) (i : ℕ) (issuedFor : Option ℕ) : List Close :=
  (s.socketAt i).toList.map fun sock => ⟨s.history.occupant i, s.os.connOf sock, issuedFor⟩

/-- The calls of `closesocket` a step makes. -/
def closes (s : Server) : Event → List Close
  | .closeSocket w =>
      match s.workThreads[w]? with
      | some (.closing c) => s.closeAt c.key (some c.conn)
      | _ => []
  | .disconnect i => s.closeAt i none
  | .checkConnected =>
      match s.acceptThread with
      | .checking i sock conn =>
          if s.Connected i then [] else [⟨conn, s.os.connOf sock, none⟩]
      | _ => []
  | _ => []

/-- The server with this log. -/
abbrev closingSystem (cfg : Config) : Server × List Close → Event → Option (Server × List Close) :=
  logged (step cfg) closes

/-- No worker thread closes a connection other than the one its failed receive was issued for, and
each accepted socket is passed to `closesocket` at most once. -/
def ClosesOwn (log : List Close) : Prop :=
  (∀ x ∈ log, ∀ issued ∈ x.issuedFor, ∀ closed ∈ x.closed, closed = issued) ∧
    (log.map Close.accepted).Nodup

instance (log : List Close) : Decidable (ClosesOwn log) := inferInstanceAs (Decidable (_ ∧ _))

theorem mem_closeAt {issuedFor : Option ℕ} {x : Close} (hx : x ∈ s.closeAt i issuedFor) :
    ∃ sock, s.socketAt i = some sock ∧ x = ⟨s.history.occupant i, s.os.connOf sock, issuedFor⟩ := by
  obtain ⟨sock, hsock, rfl⟩ := List.mem_map.1 hx
  exact ⟨sock, Option.mem_toList.1 hsock, rfl⟩

theorem length_closeAt_le (s : Server) (i : ℕ) (issuedFor : Option ℕ) :
    (s.closeAt i issuedFor).length ≤ 1 := by
  rw [Server.closeAt, List.length_map]
  cases s.socketAt i <;> simp

/-! ### The condition -/

/-- A thread has passed the slot's socket to `closesocket` and is about to forget it. -/
def Server.Releasing (s : Server) (i : ℕ) : Prop := i ∈ s.disconnecting ∨ s.Forgetting i

instance (s : Server) (i : ℕ) : Decidable (s.Releasing i) := inferInstanceAs (Decidable (_ ∨ _))

/-- The slot whose socket the event passes to `closesocket`, or to a `WSARecv` that does not
fail. -/
def Server.usedSlot (s : Server) : Event → Option ℕ
  | .closeSocket w | .workReceive w true => s.workThreads[w]?.bind WorkPc.key
  | .acceptReceive true => s.acceptThread.held
  | .disconnect i => some i
  | _ => none

/-- A slot is taken when no receive of the slot is in flight; a slot that `AcceptThread` has taken
is still connected when it is tested; and no socket is used between `closesocket` and
`Socket = INVALID_SOCKET`. -/
def ClosesSafely (s : Server) (e : Event) : Prop :=
  (e = .connectClient → ∀ i ∈ s.acceptThread.chosen, s.load i = 0) ∧
    (e = .checkConnected → ∀ i ∈ s.acceptThread.held, s.Connected i) ∧
      ∀ i ∈ s.usedSlot e, ¬ s.Releasing i

instance (s : Server) (e : Event) : Decidable (ClosesSafely s e) :=
  inferInstanceAs (Decidable (_ ∧ _ ∧ _))

/-! ### Releasing a slot -/

theorem releasing_of_closeSocket {w : ℕ} {c : Completion} (h : s.closeSocket w = some s')
    (hpc : s.workThreads[w]? = some (.closing c)) : s'.Releasing c.key := by
  obtain ⟨d, ctx, hpc', -, rfl⟩ := Server.closeSocket_some h
  obtain rfl : c = d := by simpa [hpc] using hpc'
  exact Or.inr ⟨w, c, List.getElem?_set_self (List.getElem?_eq_some_iff.1 hpc).1, rfl⟩

theorem releasing_of_disconnect (h : s.disconnect i = some s') : s'.Releasing i := by
  obtain ⟨ctx, -, -, rfl⟩ := Server.disconnect_some h
  exact Or.inl (List.mem_append_right _ (List.mem_singleton_self _))

/-- A slot is released until it is free. -/
theorem Server.Releasing.step (hi : s.Releasing i) (h : step cfg s e = some s') :
    s'.Releasing i ∨ s'.socketAt i = none := by
  by_cases hf : Forgets s e i
  · exact Or.inr (socketAt_of_forgets hf h)
  · left
    rcases hi with hi | hi
    · left
      cases e with
      | disconnect j =>
          obtain ⟨c, -, -, rfl⟩ := Server.disconnect_some h
          exact List.mem_append_left _ hi
      | disconnectForget k =>
          obtain ⟨j, hj, rfl⟩ := Server.disconnectForget_some h
          obtain ⟨m, hm⟩ := List.mem_iff_getElem?.1 hi
          refine List.mem_eraseIdx_iff_getElem?.2 ⟨m, ?_, hm⟩
          rintro rfl
          exact hf (Or.inr ⟨m, rfl, hm⟩)
      | _ =>
          rw [(step_frame h).disconnecting (by simp [Event.thread])]
          exact hi
    · exact Or.inr (hi.step h hf)

/-! ### The load of a slot -/

theorem AcceptPc.held_eq (pc : AcceptPc) : pc.held = pc.attached.map Prod.fst := by
  cases pc <;> rfl

/-- Only `ConnectClient` makes the accept thread hold a slot. -/
theorem held_of_held (h : step cfg s e = some s') (he : e ≠ .connectClient)
    (hi : s'.acceptThread.held = some i) : s.acceptThread.held = some i := by
  rw [AcceptPc.held_eq, Option.map_eq_some_iff] at hi
  obtain ⟨⟨j, conn⟩, hattached, rfl⟩ := hi
  rcases attached_origin h hattached with hold | ⟨heq, -⟩
  · rw [AcceptPc.held_eq, hold, Option.map_some]
  · exact absurd heq he

/-- A worker thread that processes a slot has fetched a completion of the slot. -/
theorem countP_worker_le (h : step cfg s e = some s') (he : ∀ w, e ≠ .getCompletion w) :
    s'.workThreads.countP (fun pc => pc.key = some i) ≤
      s.workThreads.countP (fun pc => pc.key = some i) := by
  rcases step_workThreads h with ⟨hsame, -⟩ | ⟨w, pc, pc', hmove, hpc, hset⟩
  · exact Nat.le_of_eq (by rw [hsame])
  · have hcount := countP_set_add hpc pc' (fun pc => decide (pc.key = some i))
    have hkey : pc'.key = none ∨ pc'.key = pc.key := by
      cases hmove with
      | got _ => exact absurd rfl (he _)
      | entered => exact Or.inl (by split <;> rfl)
      | forgot | ignored _ _ | rearmed => exact Or.inl rfl
      | closed | handled _ _ => exact Or.inr rfl
    rw [hset]
    rcases hkey with hkey | hkey <;> simp [hkey] at hcount <;> omega

/-- A step that moves no receive adds nothing to the load of a slot. -/
theorem load_le_of_quiet (h : step cfg s e = some s') (he : e ≠ .connectClient)
    (hmoves : e.movesReceives = false) : s'.load i ≤ s.load i := by
  obtain ⟨hout, hcom⟩ := (step_os h).receives hmoves
  have hwork := countP_worker_le (i := i) h (by rintro w rfl; cases hmoves)
  have hheld : (if s'.acceptThread.held = some i then 1 else 0) ≤
      if s.acceptThread.held = some i then 1 else 0 := by
    by_cases hi : s'.acceptThread.held = some i
    · exact Nat.le_of_eq (by rw [if_pos hi, if_pos (held_of_held h he hi)])
    · rw [if_neg hi]
      exact Nat.zero_le _
  simp only [Server.load, Server.receives, Server.processing, hout, hcom]
  omega

/-! ### Receives -/

/-- The socket of the slot refers to the connection attached to the slot. -/
def Server.HoldsOwn (s : Server) (i : ℕ) : Prop :=
  ∀ sock, s.socketAt i = some sock →
    s.os.connOf sock = some (s.history.occupant i) ∧ s.os.keys (s.history.occupant i) = i

/-- The receive is issued for the connection attached to the slot. -/
theorem receivePacket_issued {pending : Bool} (hown : pending = true → s.HoldsOwn i)
    (h : s.receivePacket i pending = some s') : s'.os.outstanding =
      s.os.outstanding ++ if pending then [⟨i, i, s.history.occupant i⟩] else [] := by
  obtain ⟨c, hctx, ⟨rfl, rfl⟩ | ⟨rfl, sock, conn, hsock, hopen, rfl⟩⟩ :=
    Server.receivePacket_some h
  · simp [Server.modifyContext]
  · obtain ⟨hconn, hkey⟩ := hown rfl sock (by rw [Server.socketAt_eq hctx]; exact hsock)
    obtain rfl : conn = s.history.occupant i := Option.some.inj (hopen.symm.trans hconn)
    simp [hkey]

/-- What a step that issues a receive does: the receive of a slot counts instead of the thread that
issues it. -/
structure Issues (s s' : Server) (i : ℕ) (pending : Bool) : Prop where
  outstanding : s'.os.outstanding =
    s.os.outstanding ++ if pending then [⟨i, i, s.history.occupant i⟩] else []
  load : ∀ j, s'.load j + (if i = j then 1 else 0) =
    s.load j + if pending = true ∧ i = j then 1 else 0

theorem Issues.load_le {pending : Bool} (hi : Issues s s' i pending) (j : ℕ) :
    s'.load j ≤ s.load j := by
  have hload := hi.load j
  by_cases hij : i = j
  · simp only [hij, and_true, if_true] at hload
    split at hload <;> omega
  · simp only [hij, and_false, if_false] at hload
    omega

/-- Every receive is issued in this way. -/
theorem issues_of_step (h : step cfg s e = some s') (hown : ∀ i, ¬ s.Releasing i → s.HoldsOwn i)
    (hP : ClosesSafely s e) {pending : Bool}
    (he : e = .acceptReceive pending ∨ ∃ w, e = .workReceive w pending) :
    ∃ i, Issues s s' i pending := by
  rcases he with rfl | ⟨w, rfl⟩
  · obtain ⟨j, conn, hpc, hrecv⟩ := Server.acceptReceive_some h
    have hheld : s.acceptThread.held = some j := by rw [hpc]; rfl
    have hout := receivePacket_issued (s := { s with acceptThread := .scan 0 }) (fun hp => ?_) hrecv
    · obtain ⟨haccept, hwork, -⟩ := Server.receivePacket_frame hrecv
      have hcom := Server.receivePacket_completions hrecv
      exact ⟨j, hout, fun k => load_of_armed hheld haccept hwork hcom hout⟩
    · subst hp
      exact hown j (hP.2.2 j (by rw [Server.usedSlot, hheld]; rfl))
  · obtain ⟨c, hpc, hrecv⟩ := Server.workReceive_some h
    have hout := receivePacket_issued (s := s.setWorker w .top) (fun hp => ?_) hrecv
    · obtain ⟨haccept, hwork, -⟩ := Server.receivePacket_frame hrecv
      have hcom := Server.receivePacket_completions hrecv
      exact ⟨c.key, hout, fun k => load_of_rearmed hpc haccept hwork hcom hout⟩
    · subst hp
      exact hown c.key (hP.2.2 c.key (by simp [Server.usedSlot, hpc]))

/-! ### Open sockets -/

theorem OS.connOf_close_of_ne' {os : OS} {x : Socket} {y : Option Socket} (h : y ≠ some x) :
    (os.close y).connOf x = os.connOf x := by
  cases y with
  | none => simp [OS.close]
  | some y =>
      refine OS.connOf_close_of_ne ?_
      rintro rfl
      exact h rfl

/-- A socket stays open until it is closed for a slot that has it. -/
theorem connOf_of_step (h : step cfg s e = some s') (hP : ClosesSafely s e) {x : Socket} {conn : ℕ}
    (hopen : s.os.connOf x = some conn) : s'.os.connOf x = some conn ∨
      ∃ i ∈ s.usedSlot e, s.socketAt i = some x ∧ s'.Releasing i := by
  cases hmoves : e.movesSockets with
  | false =>
      left
      rw [← hopen, OS.connOf, OS.connOf, ((step_os h).sockets hmoves).1]
  | true =>
      cases e with
      | wsaAccept r =>
          cases r with
          | none => cases hmoves
          | some sock =>
              obtain ⟨i, -, -, -, rfl⟩ := Server.wsaAccept_some_some h
              have hlookup : s.os.sockets.lookup x = some conn := hopen
              left
              simp [OS.connOf, List.lookup_append, hlookup]
      | connectClient =>
          obtain ⟨i, sock, conn', -, rfl⟩ := Server.connectClient_some h
          exact Or.inl hopen
      | checkConnected =>
          obtain ⟨i, sock, conn', c, hpc, hctx, ⟨-, rfl⟩ | ⟨hc, -⟩⟩ := Server.checkConnected_some h
          · exact Or.inl hopen
          · have hconn := hP.2.1 rfl i (by rw [hpc]; rfl)
            simp [(Server.connected_iff_context hctx).1 hconn] at hc
      | closeSocket w =>
          obtain ⟨c, ctx, hpc, hctx, hs'⟩ := Server.closeSocket_some h
          by_cases hx : ctx.socket = some x
          · refine Or.inr ⟨c.key, by simp [Server.usedSlot, hpc], ?_,
              releasing_of_closeSocket h hpc⟩
            rw [Server.socketAt_eq hctx, hx]
          · left
            rw [hs']
            exact (OS.connOf_close_of_ne' hx).trans hopen
      | disconnect i =>
          obtain ⟨ctx, hctx, -, hs'⟩ := Server.disconnect_some h
          by_cases hx : ctx.socket = some x
          · refine Or.inr ⟨i, rfl, ?_, releasing_of_disconnect h⟩
            rw [Server.socketAt_eq hctx, hx]
          · left
            rw [hs']
            exact (OS.connOf_close_of_ne' hx).trans hopen
      | _ => cases hmoves

/-- What a call of `closesocket` is about. -/
theorem mem_closes (h : step cfg s e = some s') (hP : ClosesSafely s e) {x : Close}
    (hx : x ∈ closes s e) : ∃ i ∈ s.usedSlot e, ∃ sock, s.socketAt i = some sock ∧ s'.Releasing i ∧
      x.accepted = s.history.occupant i ∧ x.closed = s.os.connOf sock ∧
        (∀ conn ∈ x.issuedFor, InFlight s conn i) ∧ e ≠ .connectClient := by
  cases e with
  | closeSocket w =>
      obtain ⟨c, ctx, hpc, -, -⟩ := Server.closeSocket_some h
      simp only [closes, hpc] at hx
      obtain ⟨sock, hsock, rfl⟩ := mem_closeAt hx
      refine ⟨c.key, by simp [Server.usedSlot, hpc], sock, hsock, releasing_of_closeSocket h hpc,
        rfl, rfl, fun conn hconn => ?_, by simp⟩
      obtain rfl := Option.some.inj hconn
      exact .processed hpc rfl rfl rfl
  | disconnect i =>
      obtain ⟨sock, hsock, rfl⟩ := mem_closeAt hx
      exact ⟨i, rfl, sock, hsock, releasing_of_disconnect h, rfl, rfl, by simp, by simp⟩
  | checkConnected =>
      obtain ⟨i, sock, conn, c, hpc, -, -⟩ := Server.checkConnected_some h
      have hconn := hP.2.1 rfl i (by rw [hpc]; rfl)
      simp [closes, hpc, hconn] at hx
  | _ => cases hx

theorem length_closes_le (s : Server) (e : Event) : (closes s e).length ≤ 1 := by
  cases e with
  | closeSocket w =>
      rw [closes]
      split
      · exact length_closeAt_le _ _ _
      · exact Nat.zero_le _
  | disconnect i => exact length_closeAt_le _ _ _
  | checkConnected =>
      rw [closes]
      split
      · split <;> simp
      · exact Nat.zero_le _
  | _ => exact Nat.zero_le _

/-! ### The invariant -/

/-- **Who holds which socket**, and which sockets have been closed. -/
structure Closing (n : ℕ) (s : Server) (log : List Close) : Prop where
  table : SlotTable n s
  occupancy : Occupancy s
  load : ∀ i, s.load i ≤ 1
  own : ∀ i, ¬ s.Releasing i → s.HoldsOwn i
  incoming : ∀ i sock conn, s.acceptThread = .connecting i sock conn →
    s.os.connOf sock = some conn
  inFlight : ∀ conn i, InFlight s conn i → conn = s.history.occupant i
  passed : ∀ x ∈ log, s.WasAttached x.accepted ∧
    ∀ i, s.Connected i → ¬ s.Releasing i → s.history.occupant i ≠ x.accepted
  closesOwn : ClosesOwn log

namespace Closing

variable {log : List Close}

theorem init (mem : ℕ → Mem) (n workers : ℕ) : Closing n (initServer mem n workers) [] where
  table := SlotTable.init mem n workers
  occupancy := Occupancy.init mem n workers
  load i := by simp [Server.load_initServer]
  own i _ sock hsock := by simp at hsock
  incoming i sock conn h := by cases h
  inFlight conn i hf := absurd hf (not_inFlight_initServer mem n workers)
  passed x hx := by cases hx
  closesOwn := ⟨by simp, List.nodup_nil⟩

theorem load_step (hs : Closing n s log) (h : IocpDemo.step cfg s e = some s')
    (hP : ClosesSafely s e) (i : ℕ) : s'.load i ≤ 1 := by
  have hle := hs.load i
  cases e with
  | connectClient =>
      obtain ⟨j, hchosen, -, hload⟩ := load_connectClient (i := i) h
      have hzero := hP.1 rfl j hchosen
      by_cases hj : j = i
      · exact Nat.le_of_eq (by rw [hload, if_pos hj, ← hj, hzero])
      · rw [hload, if_neg hj]
        exact hle
  | getCompletion w =>
      obtain ⟨c, -, hload⟩ := load_getCompletion (i := i) h
      omega
  | completeRecv k bSuccess data =>
      rw [load_completeRecv h]
      exact hle
  | acceptReceive pending =>
      obtain ⟨j, hissues⟩ := issues_of_step h hs.own hP (Or.inl rfl)
      exact Nat.le_trans (hissues.load_le i) hle
  | workReceive w pending =>
      obtain ⟨j, hissues⟩ := issues_of_step h hs.own hP (Or.inr ⟨w, rfl⟩)
      exact Nat.le_trans (hissues.load_le i) hle
  | _ => exact Nat.le_trans (load_le_of_quiet h (by simp) rfl) hle

/-- A slot with a receive in flight keeps its occupant. -/
theorem occupant_of_load (h : IocpDemo.step cfg s e = some s') (hP : ClosesSafely s e)
    (hpos : 0 < s.load i) : s'.history.occupant i = s.history.occupant i := by
  rcases occupant_of_step h with ⟨hocc, -⟩ | ⟨rfl, j, sock, conn, hpc, -, hocc⟩
  · rw [hocc]
  · rw [hocc]
    refine Function.update_of_ne ?_ _ _
    rintro rfl
    have hzero := hP.1 rfl i (by rw [hpc]; rfl)
    omega

theorem inFlight_step (hs : Closing n s log) (h : IocpDemo.step cfg s e = some s')
    (hP : ClosesSafely s e) {conn : ℕ} (hf : InFlight s' conn i) :
    conn = s'.history.occupant i := by
  rcases hf.of_step h with hold | ⟨r, hr, hnew, rfl, rfl⟩
  · rw [occupant_of_load h hP hold.load_pos]
    exact hs.inFlight conn i hold
  · have hissued : ∀ {i : ℕ} {pending : Bool}, Issues s s' i pending →
        e ≠ .connectClient → r.conn = s'.history.occupant r.key := by
      intro i pending hissues hne
      rw [hissues.outstanding] at hr
      rcases List.mem_append.1 hr with hold | hlast
      · exact absurd hold hnew
      · cases pending with
        | false => cases hlast
        | true =>
            obtain rfl := List.mem_singleton.1 hlast
            rw [(step_frame h).occupant hne]
    cases hmoves : e.movesReceives with
    | false => exact absurd (((step_os h).receives hmoves).1 ▸ hr) hnew
    | true =>
        cases e with
        | acceptReceive pending =>
            obtain ⟨j, hissues⟩ := issues_of_step h hs.own hP (Or.inl rfl)
            exact hissued hissues (by simp)
        | workReceive w pending =>
            obtain ⟨j, hissues⟩ := issues_of_step h hs.own hP (Or.inr ⟨w, rfl⟩)
            exact hissued hissues (by simp)
        | getCompletion w =>
            obtain ⟨c, rest, -, -, rfl⟩ := Server.getCompletion_some h
            exact absurd hr hnew
        | completeRecv k bSuccess data =>
            obtain ⟨r', -, -, -, rfl⟩ := Server.completeRecv_some h
            exact absurd (List.mem_of_mem_eraseIdx hr) hnew
        | _ => cases hmoves

/-- The socket that a step closes is the one of the slot's occupant. -/
theorem occupant_of_used (hs : Closing n s log) (hP : ClosesSafely s e) {j : ℕ} {sock : Socket}
    (hj : j ∈ s.usedSlot e) (hsock : s.socketAt j = some sock) :
    s.os.connOf sock = some (s.history.occupant j) ∧ s.Connected j :=
  ⟨(hs.own j (hP.2.2 j hj) sock hsock).1, Server.connected_iff.2 ⟨sock, hsock⟩⟩

theorem own_step (hs : Closing n s log) (h : IocpDemo.step cfg s e = some s')
    (hP : ClosesSafely s e) (hi : ¬ s'.Releasing i) : s'.HoldsOwn i := by
  intro sock hsock
  have hfoot := step_socketAt h i
  rw [hsock] at hfoot
  generalize hx : some sock = x at hfoot
  cases hfoot with
  | same =>
      have hnot : ¬ s.Releasing i := by
        intro hrel
        rcases hrel.step h with hrel | hnone
        · exact hi hrel
        · rw [hsock] at hnone
          cases hnone
      have hconn : s.Connected i := Server.connected_iff.2 ⟨sock, hx.symm⟩
      obtain ⟨hopen, hkey⟩ := hs.own i hnot sock hx.symm
      have hatt : Attached s (s.history.occupant i) i := ⟨hkey, hs.occupancy.wasAttached hconn⟩
      rw [occupant_of_connected h hs.table hconn]
      refine ⟨?_, (hatt.step h).key⟩
      rcases connOf_of_step h hP hopen with hopen' | ⟨j, hj, hsockj, hrel⟩
      · exact hopen'
      · -- the socket closed is another slot's, hence another connection's
        obtain ⟨hopenj, hconnj⟩ := hs.occupant_of_used hP hj hsockj
        have hocc := Option.some.inj (hopenj.symm.trans hopen)
        exact absurd (hs.occupancy.inj j i hconnj hconn hocc ▸ hrel) hi
  | attached he hpc =>
      subst he
      obtain ⟨j, sock', conn, hpc', rfl⟩ := Server.connectClient_some h
      obtain rfl := Option.some.inj hx
      rw [hpc] at hpc'
      cases hpc'
      have hopen := hs.incoming i sock _ hpc
      simp only [Function.update_self]
      exact ⟨hopen, trivial⟩
  | forgotten _ => cases hx

theorem incoming_step (hs : Closing n s log) (h : IocpDemo.step cfg s e = some s')
    (hP : ClosesSafely s e) {sock : Socket} {conn : ℕ}
    (hpc : s'.acceptThread = .connecting i sock conn) : s'.os.connOf sock = some conn := by
  by_cases he : ∀ x, e ≠ .wsaAccept (some x)
  · have hold := Handles.connecting_of_step h he hpc
    rcases connOf_of_step h hP (hs.incoming i sock conn hold) with hopen | ⟨j, hj, hsock, -⟩
    · exact hopen
    · -- a slot's socket refers to an attached connection
      obtain ⟨hopen, hconn⟩ := hs.occupant_of_used hP hj hsock
      rw [hs.incoming i sock conn hold] at hopen
      exact absurd (Option.some.inj hopen).symm ((hs.occupancy.incoming i sock conn hold).2 j hconn)
  · push Not at he
    obtain ⟨x, rfl⟩ := he
    obtain ⟨j, -, -, hnew, rfl⟩ := Server.wsaAccept_some_some h
    cases hpc
    have hnone : s.os.sockets.lookup sock = none := hnew
    simp [OS.connOf, List.lookup_append, hnone]

theorem passed_step (hs : Closing n s log) (h : IocpDemo.step cfg s e = some s')
    (hP : ClosesSafely s e) {x : Close} (hx : x ∈ log ++ closes s e) :
    s'.WasAttached x.accepted ∧
      ∀ i, s'.Connected i → ¬ s'.Releasing i → s'.history.occupant i ≠ x.accepted := by
  rcases List.mem_append.1 hx with hx | hx
  · obtain ⟨hatt, hnot⟩ := hs.passed x hx
    refine ⟨hatt.step h, fun i hi hrel => ?_⟩
    rcases connected_of_step h hi with hold | ⟨rfl, sock, conn, hpc⟩
    · rw [occupant_of_connected h hs.table hold]
      refine hnot i hold fun hrel' => ?_
      rcases hrel'.step h with hrel' | hnone
      · exact hrel hrel'
      · exact Server.not_connected_iff.2 hnone hi
    · -- the connection attached now was in the accept thread's hands
      obtain ⟨j, sock', conn', hpc', rfl⟩ := Server.connectClient_some h
      rw [hpc] at hpc'
      cases hpc'
      simp only [Function.update_self]
      rintro rfl
      exact hatt.incoming i sock hpc
  · obtain ⟨j, hj, sock, hsock, hrelj, hacc, -, -, he⟩ := mem_closes h hP hx
    obtain ⟨-, hconnj⟩ := hs.occupant_of_used hP hj hsock
    rw [hacc, (step_frame h).occupant he]
    refine ⟨(hs.occupancy.wasAttached hconnj).step h, fun i hi hrel hocc => ?_⟩
    rcases connected_of_step h hi with hold | ⟨hconnect, -⟩
    · exact hrel (hs.occupancy.inj i j hold hconnj hocc ▸ hrelj)
    · exact he hconnect

theorem closesOwn_step (hs : Closing n s log) (h : IocpDemo.step cfg s e = some s')
    (hP : ClosesSafely s e) : ClosesOwn (log ++ closes s e) := by
  obtain ⟨hown, hnodup⟩ := hs.closesOwn
  constructor
  · intro x hx issued hissued closed hclosed
    rcases List.mem_append.1 hx with hx | hx
    · exact hown x hx issued hissued closed hclosed
    · obtain ⟨i, hi, sock, hsock, -, -, hopen, hflight, -⟩ := mem_closes h hP hx
      obtain ⟨hconn, -⟩ := hs.occupant_of_used hP hi hsock
      rw [hopen, hconn] at hclosed
      rw [hs.inFlight issued i (hflight issued hissued)]
      exact (Option.some.inj hclosed).symm
  · rw [List.map_append]
    refine List.nodup_append.2 ⟨hnodup, ?_, fun a ha b hb hab => ?_⟩
    · exact List.nodup_iff_count.2 fun a =>
        Nat.le_trans List.count_le_length (by simpa using length_closes_le s e)
    · obtain ⟨x, hx, rfl⟩ := List.mem_map.1 ha
      obtain ⟨y, hy, rfl⟩ := List.mem_map.1 hb
      obtain ⟨i, hi, sock, hsock, -, hacc, -⟩ := mem_closes h hP hy
      obtain ⟨-, hconn⟩ := hs.occupant_of_used hP hi hsock
      exact (hs.passed x hx).2 i hconn (hP.2.2 i hi) (hacc.symm.trans hab.symm)

/-- **Every step that meets the condition keeps the invariant.** -/
theorem step (hs : Closing n s log) (h : IocpDemo.step cfg s e = some s')
    (hP : ClosesSafely s e) : Closing n s' (log ++ closes s e) where
  table := hs.table.step h
  occupancy := hs.occupancy.step h
  load := hs.load_step h hP
  own _ hi := hs.own_step h hP hi
  incoming _ _ _ hpc := hs.incoming_step h hP hpc
  inFlight _ _ hf := hs.inFlight_step h hP hf
  passed _ hx := hs.passed_step h hP hx
  closesOwn := hs.closesOwn_step h hP

theorem of_reach {mem : ℕ → Mem} {workers : ℕ}
    (h : Reach (closingSystem cfg) (fun x e => ClosesSafely x.1 e)
      (initServer mem n workers, []) (s, log)) : Closing n s log :=
  h.logged_invariant (I := Closing n) (init mem n workers) fun _ _ _ _ hx hP hstep =>
    hx.step hstep hP

end Closing

/-! ### The result -/

/-- **A stale completion closes nobody else.**  In a run in which a slot is taken only when no
receive of the slot is in flight, a slot that `AcceptThread` has taken is still connected when it is
tested, and no slot's socket is used between `closesocket` and `Socket = INVALID_SOCKET`, a worker
thread that handles a failed receive closes at most the connection this receive was issued for, and
each accepted socket is passed to `closesocket` at most once. -/
theorem stale_completion_harmless {mem : ℕ → Mem} {workers : ℕ} {log : List Close}
    (h : Reach (closingSystem cfg) (fun x e => ClosesSafely x.1 e)
      (initServer mem n workers, []) (s, log)) : ClosesOwn log :=
  (Closing.of_reach h).closesOwn

/-- A run in which a client is disconnected by the server, its receive fails, its slot is taken by
another client, and the worker thread closes this one when its own receive fails. -/
theorem disconnected_slot_is_reused :
    ∃ s log, Reach (closingSystem wireConfig) (fun x e => ClosesSafely x.1 e)
        (wireServer 1, []) (s, log) ∧
      log = [⟨0, some 0, none⟩, ⟨1, some 1, some 1⟩] ∧ ClosesOwn log := by
  obtain ⟨⟨s, log⟩, hreach, hlog⟩ := Reach.exists_of_runIf (closingSystem wireConfig)
    (fun x e => ClosesSafely x.1 e) (wireServer 1, [])
    (.scanSlot :: acceptEvents 7 ++ [.disconnect 0, .disconnectForget 0] ++ closeEvents ++
      .scanSlot :: acceptEvents 8 ++ closeEvents)
    (fun x : Server × List Close => x.2)
    (x := [⟨0, some 0, none⟩, ⟨1, some 1, some 1⟩]) (by decide +kernel)
  exact ⟨s, log, hreach, hlog, stale_completion_harmless hreach⟩

/-- **A client is closed on behalf of the former occupant of its slot**, whose receive completes
with a failure after `DisconnectSocket` has freed the slot and `AcceptThread` has taken it. -/
theorem stale_completion_closes_newcomer :
    ∃ s log, Reach (closingSystem wireConfig) (fun _ _ => True)
        (wireServer 1, []) (s, log) ∧
      ⟨1, some 1, some 0⟩ ∈ log ∧ ¬ ClosesOwn log := by
  obtain ⟨⟨s, log⟩, hreach, hlog⟩ := Reach.exists_of_run (closingSystem wireConfig)
    (wireServer 1, [])
    (.scanSlot :: acceptEvents 7 ++ [.disconnect 0, .disconnectForget 0, .scanSlot] ++
      acceptEvents 8 ++ [.completeRecv 0 false [], .workTop 0, .getCompletion 0, .closeSocket 0])
    (fun x : Server × List Close => x.2)
    (x := [⟨0, some 0, none⟩, ⟨1, some 1, some 0⟩]) (by decide +kernel)
  obtain rfl : log = [⟨0, some 0, none⟩, ⟨1, some 1, some 0⟩] := hlog
  exact ⟨s, _, hreach, by simp, by decide⟩

end IocpDemo
