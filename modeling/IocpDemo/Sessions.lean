/-
**Every slot runs the session protocol** (`AcceptThread`, `WorkThread`, `CloseSocket`).

The accept thread, any number of worker threads and the completion queue work on the same table of
slots, and a slot is known to them only by its index.  Seen from one slot all this is one sequential
protocol: a connection is attached, tested, counted and greeted; then its receive is issued,
completes, is fetched and handled, again and again, each time on the same connection; until a worker
thread fetches a failure, closes this connection and forgets its socket.  `DisconnectSocket`, which
nobody in the repository calls, is left out: it breaks the protocol.

Main definitions:

* `IocpDemo.Session`, `IocpDemo.SlotOp`, `IocpDemo.sessionStep` — **the protocol of one slot**;
* `IocpDemo.sessionWord` — the operations of a whole session;
* `IocpDemo.slotOps` — what the threads do to a slot, taken from what the step does and not from the
  protocol;
* `IocpDemo.Server.session` — where the slot stands, read off the threads and the queues;
* `IocpDemo.Replaces` — what a step does to the sessions of all slots.

Main results:

* `IocpDemo.every_slot_runs_sessions` — **what is done to a slot is a run of the protocol, and ends
  where the slot stands**;
* `IocpDemo.slot_history_is_sessions` — **the history of a slot is a sequence of whole sessions, of
  different connections, and the beginning of one more**.
-/

import IocpDemo.Closing
import Mathlib.Data.List.Flatten
import Mathlib.Data.List.Induction

set_option relaxedAutoImplicit false
set_option autoImplicit false

namespace IocpDemo

open Bytes Transition Wire

variable {cfg : Config} {s s' : Server} {n i j : ℕ} {e : Event}

/-! ### The protocol -/

/-- Where a slot stands; `conn` is its connection. -/
inductive Session
  | free
  /-- The socket has been attached; `AcceptThread` is about to test `IsConnected`. -/
  | checking (conn : ℕ)
  /-- Before `++ClientCount`. -/
  | counting (conn : ℕ)
  /-- Before `OnConnected`. -/
  | greeting (conn : ℕ)
  /-- Before the first `ReceivePacket`. -/
  | arming (conn : ℕ)
  /-- The receive is outstanding. -/
  | idle (conn : ℕ)
  /-- The receive has completed, and no worker thread has fetched the completion. -/
  | queued (conn : ℕ) (branch : WorkBranch)
  /-- A worker thread is about to call `DeSerializePacket`. -/
  | serving (conn : ℕ)
  /-- A worker thread is about to call `ReceivePacket`. -/
  | rearming (conn : ℕ)
  /-- A worker thread is about to call `closesocket`. -/
  | closing (conn : ℕ)
  /-- A worker thread is about to execute `Socket = INVALID_SOCKET`. -/
  | forgetting (conn : ℕ)
  /-- There is no receive any more: `WSARecv` has failed, or has completed with success and without
  bytes. -/
  | stranded (conn : ℕ)
  deriving DecidableEq, Repr

/-- What is done to a slot. -/
inductive SlotOp
  | attach (conn : ℕ)
  | check
  /-- `IsConnected` fails for the socket just attached, which is closed. -/
  | reject
  | count
  | greet
  /-- `WSARecv`, with the connection it is issued on unless it fails. -/
  | issue (conn : Option ℕ)
  | complete (branch : WorkBranch)
  | fetch
  | dispatch
  /-- The completion is dropped because the slot's socket is the listening one. -/
  | ignore
  /-- `closesocket`, with the connection that it closes. -/
  | close (conn : Option ℕ)
  | forget
  deriving DecidableEq, Repr

/-- Where a completion that a worker thread has fetched takes the slot. -/
def fetchedSession (conn : ℕ) : WorkBranch → Session
  | .close => .closing conn
  | .noData => .stranded conn
  | .received => .serving conn

/-- `ReceivePacket` on the connection of the slot. -/
def issuedSession (conn : ℕ) : Option ℕ → Option Session
  | none => some (.stranded conn)
  | some c => if c = conn then some (.idle conn) else none

/-- **The protocol of one slot.**  A receive is issued on the connection of the slot, and no other
one is closed; `.reject` and `.ignore` are never possible. -/
def sessionStep : Session → SlotOp → Option Session
  | .free, .attach conn => some (.checking conn)
  | .checking conn, .check => some (.counting conn)
  | .counting conn, .count => some (.greeting conn)
  | .greeting conn, .greet => some (.arming conn)
  | .arming conn, .issue c => issuedSession conn c
  | .idle conn, .complete branch => some (.queued conn branch)
  | .queued conn branch, .fetch => some (fetchedSession conn branch)
  | .serving conn, .dispatch => some (.rearming conn)
  | .rearming conn, .issue c => issuedSession conn c
  | .closing conn, .close c => if c = some conn then some (.forgetting conn) else none
  | .forgetting _, .forget => some .free
  | _, _ => none

/-! ### Whole sessions -/

/-- The operations by which a session of the connection `conn` begins. -/
def opening (conn : ℕ) : List SlotOp := [.attach conn, .check, .count, .greet, .issue (some conn)]

/-- The operations on one frame. -/
def round (conn : ℕ) : List SlotOp := [.complete .received, .fetch, .dispatch, .issue (some conn)]

/-- The operations on `k` frames. -/
def rounds (conn k : ℕ) : List SlotOp := (List.replicate k (round conn)).flatten

/-- The operations by which a session of the connection `conn` ends. -/
def ending (conn : ℕ) : List SlotOp := [.complete .close, .fetch, .close (some conn), .forget]

/-- **A whole session** of the connection `conn`, in which `k` frames are handled. -/
def sessionWord (conn k : ℕ) : List SlotOp := opening conn ++ rounds conn k ++ ending conn

theorem rounds_succ (conn k : ℕ) : rounds conn (k + 1) = rounds conn k ++ round conn := by
  rw [rounds, List.replicate_succ', List.flatten_concat, rounds]

/-- The operations by which a session gets where it stands, after `k` frames. -/
inductive Opened : Session → ℕ → List SlotOp → Prop
  | free : Opened .free 0 []
  | checking (conn : ℕ) : Opened (.checking conn) 0 [.attach conn]
  | counting (conn : ℕ) : Opened (.counting conn) 0 [.attach conn, .check]
  | greeting (conn : ℕ) : Opened (.greeting conn) 0 [.attach conn, .check, .count]
  | arming (conn : ℕ) : Opened (.arming conn) 0 [.attach conn, .check, .count, .greet]
  | idle (conn k : ℕ) : Opened (.idle conn) k (opening conn ++ rounds conn k)
  | queued (conn k : ℕ) (branch : WorkBranch) :
      Opened (.queued conn branch) k (opening conn ++ rounds conn k ++ [.complete branch])
  | serving (conn k : ℕ) :
      Opened (.serving conn) k (opening conn ++ rounds conn k ++ [.complete .received, .fetch])
  | rearming (conn k : ℕ) : Opened (.rearming conn) k
      (opening conn ++ rounds conn k ++ [.complete .received, .fetch, .dispatch])
  | closing (conn k : ℕ) :
      Opened (.closing conn) k (opening conn ++ rounds conn k ++ [.complete .close, .fetch])
  | forgetting (conn k : ℕ) : Opened (.forgetting conn) k
      (opening conn ++ rounds conn k ++ [.complete .close, .fetch, .close (some conn)])
  | unarmed (conn : ℕ) :
      Opened (.stranded conn) 0 [.attach conn, .check, .count, .greet, .issue none]
  | unrearmed (conn k : ℕ) : Opened (.stranded conn) k
      (opening conn ++ rounds conn k ++ [.complete .received, .fetch, .dispatch, .issue none])
  | noData (conn k : ℕ) :
      Opened (.stranded conn) k (opening conn ++ rounds conn k ++ [.complete .noData, .fetch])

/-- **What one operation adds to a session**: it goes on, or it has been a whole session. -/
theorem Opened.step {φ ψ : Session} {k : ℕ} {ops : List SlotOp} {op : SlotOp}
    (h : Opened φ k ops) (hstep : sessionStep φ op = some ψ) :
    (∃ k, Opened ψ k (ops ++ [op])) ∨
      ψ = .free ∧ ∃ conn, ops ++ [op] = sessionWord conn k := by
  have hissue : ∀ {conn : ℕ} {c : Option ℕ}, issuedSession conn c = some ψ →
      c = none ∧ ψ = .stranded conn ∨ c = some conn ∧ ψ = .idle conn := by
    intro conn c hissued
    cases c with
    | none => exact Or.inl ⟨rfl, (Option.some.inj hissued).symm⟩
    | some c =>
        rw [issuedSession] at hissued
        split at hissued
        · next hc => exact Or.inr ⟨by rw [hc], (Option.some.inj hissued).symm⟩
        · cases hissued
  cases h with
  | free =>
      cases op with
      | attach conn =>
          obtain rfl := Option.some.inj hstep
          exact Or.inl ⟨0, .checking conn⟩
      | _ => cases hstep
  | checking conn =>
      cases op with
      | check =>
          obtain rfl := Option.some.inj hstep
          exact Or.inl ⟨0, .counting conn⟩
      | _ => cases hstep
  | counting conn =>
      cases op with
      | count =>
          obtain rfl := Option.some.inj hstep
          exact Or.inl ⟨0, .greeting conn⟩
      | _ => cases hstep
  | greeting conn =>
      cases op with
      | greet =>
          obtain rfl := Option.some.inj hstep
          exact Or.inl ⟨0, .arming conn⟩
      | _ => cases hstep
  | arming conn =>
      cases op with
      | issue c =>
          rcases hissue hstep with ⟨rfl, rfl⟩ | ⟨rfl, rfl⟩
          · exact Or.inl ⟨0, .unarmed conn⟩
          · exact Or.inl ⟨0, .idle conn 0⟩
      | _ => cases hstep
  | idle conn k =>
      cases op with
      | complete branch =>
          obtain rfl := Option.some.inj hstep
          exact Or.inl ⟨k, .queued conn k branch⟩
      | _ => cases hstep
  | queued conn k branch =>
      cases op with
      | fetch =>
          obtain rfl := Option.some.inj hstep
          rw [List.append_assoc]
          cases branch with
          | close => exact Or.inl ⟨k, .closing conn k⟩
          | noData => exact Or.inl ⟨k, .noData conn k⟩
          | received => exact Or.inl ⟨k, .serving conn k⟩
      | _ => cases hstep
  | serving conn k =>
      cases op with
      | dispatch =>
          obtain rfl := Option.some.inj hstep
          rw [List.append_assoc]
          exact Or.inl ⟨k, .rearming conn k⟩
      | _ => cases hstep
  | rearming conn k =>
      cases op with
      | issue c =>
          rcases hissue hstep with ⟨rfl, rfl⟩ | ⟨rfl, rfl⟩
          · rw [List.append_assoc]
            exact Or.inl ⟨k, .unrearmed conn k⟩
          · -- one more frame has been handled
            have hround : opening conn ++ rounds conn k ++
                [.complete .received, .fetch, .dispatch] ++ [.issue (some conn)] =
                  opening conn ++ rounds conn (k + 1) := by
              simp [rounds_succ, round]
            rw [hround]
            exact Or.inl ⟨k + 1, .idle conn (k + 1)⟩
      | _ => cases hstep
  | closing conn k =>
      cases op with
      | close c =>
          have hclose : (if c = some conn then some (Session.forgetting conn) else none) = some ψ :=
            hstep
          split at hclose
          · next hc =>
              obtain rfl := Option.some.inj hclose
              rw [hc, List.append_assoc]
              exact Or.inl ⟨k, .forgetting conn k⟩
          · cases hclose
      | _ => cases hstep
  | forgetting conn k =>
      cases op with
      | forget =>
          obtain rfl := Option.some.inj hstep
          refine Or.inr ⟨rfl, conn, ?_⟩
          simp [sessionWord, ending]
      | _ => cases hstep
  | unarmed _ | unrearmed _ _ | noData _ _ => cases op <;> cases hstep

/-- **A run of the protocol is a sequence of whole sessions**, and of the operations of the session
that has not ended. -/
theorem exists_sessions {ops : List SlotOp} : ∀ {φ : Session},
    run sessionStep .free ops = some φ → ∃ (done : List (ℕ × ℕ)) (k : ℕ) (rest : List SlotOp),
      Opened φ k rest ∧ ops = done.flatMap (fun x => sessionWord x.1 x.2) ++ rest := by
  induction ops using List.reverseRecOn with
  | nil =>
      intro φ h
      obtain rfl := Option.some.inj h
      exact ⟨[], 0, [], .free, rfl⟩
  | append_singleton ops op ih =>
      intro φ h
      obtain ⟨ψ, hψ, hφ⟩ := run_concat_some h
      obtain ⟨done, k, rest, hopened, rfl⟩ := ih hψ
      rcases hopened.step hφ with ⟨k', hnext⟩ | ⟨rfl, conn, hword⟩
      · exact ⟨done, k', rest ++ [op], hnext, by rw [List.append_assoc]⟩
      · refine ⟨done ++ [(conn, k)], 0, [], .free, ?_⟩
        rw [List.append_assoc, hword, List.flatMap_append]
        simp

/-- The connections with which sessions begin. -/
def attaches (ops : List SlotOp) : List ℕ :=
  ops.flatMap fun
    | .attach conn => [conn]
    | _ => []

@[simp] theorem attaches_append (ops ops' : List SlotOp) :
    attaches (ops ++ ops') = attaches ops ++ attaches ops' :=
  List.flatMap_append

theorem attaches_rounds (conn k : ℕ) : attaches (rounds conn k) = [] := by
  induction k with
  | zero => rfl
  | succ k ih => rw [rounds_succ, attaches_append, ih]; rfl

/-- A session has one connection. -/
theorem attaches_sessionWord (conn k : ℕ) : attaches (sessionWord conn k) = [conn] := by
  rw [sessionWord, attaches_append, attaches_append, attaches_rounds]
  rfl

theorem attaches_sessions (done : List (ℕ × ℕ)) :
    attaches (done.flatMap fun x => sessionWord x.1 x.2) = done.map Prod.fst := by
  induction done with
  | nil => rfl
  | cons x done ih =>
      rw [List.flatMap_cons, attaches_append, attaches_sessionWord, ih, List.map_cons]
      rfl

/-! ### What the threads do to a slot -/

/-- The connection that the socket of the slot refers to. -/
def Server.connAt (s : Server) (i : ℕ) : Option ℕ := (s.socketAt i).bind s.os.connOf

/-- `ReceivePacket` on a slot, whose `WSARecv` leaves a receive outstanding or fails. -/
def Server.issueAt (s : Server) (i : ℕ) (pending : Bool) : List (ℕ × SlotOp) :=
  [(i, .issue (if pending then s.connAt i else none))]

/-- What a step does to which slot. -/
def slotOps (cfg : Config) (s : Server) : Event → List (ℕ × SlotOp)
  | .connectClient =>
      match s.acceptThread with
      | .connecting i _ conn => [(i, .attach conn)]
      | _ => []
  | .checkConnected =>
      match s.acceptThread with
      | .checking i _ _ => [(i, if s.Connected i then .check else .reject)]
      | _ => []
  | .countClient =>
      match s.acceptThread with
      | .counting i _ => [(i, .count)]
      | _ => []
  | .greetClient =>
      match s.acceptThread with
      | .greeting i _ => [(i, .greet)]
      | _ => []
  | .acceptReceive pending =>
      match s.acceptThread with
      | .arming i _ => s.issueAt i pending
      | _ => []
  | .completeRecv k bSuccess data =>
      match s.os.outstanding[k]? with
      | some r => [(r.key, .complete (workBranch bSuccess data.length))]
      | none => []
  | .getCompletion _ =>
      match s.os.completions with
      | c :: _ => [(c.key, .fetch)]
      | [] => []
  | .deSerialize w =>
      match s.workThreads[w]? with
      | some (.received c) =>
          match s.contexts[c.key]?.bind (dispatchOf cfg.listenSocket) with
          | some _ => [(c.key, .dispatch)]
          | none => [(c.key, .ignore)]
      | _ => []
  | .workReceive w pending =>
      match s.workThreads[w]? with
      | some (.rearming c) => s.issueAt c.key pending
      | _ => []
  | .closeSocket w =>
      match s.workThreads[w]? with
      | some (.closing c) => [(c.key, .close (s.connAt c.key))]
      | _ => []
  | .forgetSocket w =>
      match s.workThreads[w]? with
      | some (.forgetting c) => [(c.key, .forget)]
      | _ => []
  | _ => []

/-- The server with this log. -/
abbrev sessionSystem (cfg : Config) :
    Server × List (ℕ × SlotOp) → Event → Option (Server × List (ℕ × SlotOp)) :=
  logged (step cfg) (slotOps cfg)

/-! ### Where a slot stands -/

/-- The slot that `AcceptThread` sets up, and how far it has got. -/
def AcceptPc.session : AcceptPc → Option (ℕ × Session)
  | .checking i _ conn => some (i, .checking conn)
  | .counting i conn => some (i, .counting conn)
  | .greeting i conn => some (i, .greeting conn)
  | .arming i conn => some (i, .arming conn)
  | .scan _ | .accepting _ | .connecting _ _ _ | .returned => none

/-- The slot that a worker thread serves, and how far it has got. -/
def WorkPc.session : WorkPc → Option (ℕ × Session)
  | .closing c => some (c.key, .closing c.conn)
  | .forgetting c => some (c.key, .forgetting c.conn)
  | .received c => some (c.key, .serving c.conn)
  | .rearming c => some (c.key, .rearming c.conn)
  | .top | .waiting | .stopped => none

def PendingRecv.session (r : PendingRecv) : ℕ × Session := (r.key, .idle r.conn)

def Completion.session (c : Completion) : ℕ × Session :=
  (c.key, .queued c.conn (workBranch c.bSuccess c.data.length))

namespace Server

/-- The sessions that somebody works at. -/
def sessions (s : Server) : List (ℕ × Session) :=
  s.acceptThread.session.toList ++ s.os.outstanding.map PendingRecv.session ++
    s.os.completions.map Completion.session ++ s.workThreads.filterMap WorkPc.session

/-- **Where the slot stands.** -/
def session (s : Server) (i : ℕ) : Session :=
  match componentOf i s.sessions with
  | φ :: _ => φ
  | [] => if s.Connected i then .stranded (s.history.occupant i) else .free

theorem length_componentOf_toList (x : Option (ℕ × Session)) :
    (componentOf i x.toList).length = if x.map Prod.fst = some i then 1 else 0 := by
  cases x with
  | none => rfl
  | some x => by_cases h : x.1 = i <;> simp [componentOf, h]

theorem length_componentOf_map {α : Type} (l : List α) (f : α → ℕ × Session) :
    (componentOf i (l.map f)).length = l.countP fun a => (f a).1 = i := by
  induction l with
  | nil => rfl
  | cons a l ih =>
      have happend : a :: l = [a] ++ l := rfl
      rw [happend, List.map_append, componentOf_append, List.length_append, ih, List.countP_append]
      by_cases h : (f a).1 = i <;> simp [componentOf, h]

theorem length_componentOf_filterMap {α : Type} (l : List α) (f : α → Option (ℕ × Session)) :
    (componentOf i (l.filterMap f)).length = l.countP fun a => (f a).map Prod.fst = some i := by
  induction l with
  | nil => rfl
  | cons a l ih =>
      rw [List.countP_cons]
      cases hf : f a with
      | none => simpa [List.filterMap_cons_none hf] using ih
      | some x =>
          have happend : x :: l.filterMap f = [x] ++ l.filterMap f := rfl
          rw [List.filterMap_cons_some hf, happend, componentOf_append, List.length_append, ih]
          by_cases h : x.1 = i <;> simp [componentOf, h, Nat.add_comm]

theorem session_fst_accept (pc : AcceptPc) : pc.session.map Prod.fst = pc.held := by
  cases pc <;> rfl

theorem session_fst_work (pc : WorkPc) : pc.session.map Prod.fst = pc.key := by
  cases pc <;> rfl

/-- A slot has as many sessions as receives and threads that process it. -/
theorem length_sessions (s : Server) (i : ℕ) : (componentOf i s.sessions).length = s.load i := by
  have hout : (componentOf i (s.os.outstanding.map PendingRecv.session)).length =
      s.os.outstanding.countP fun r => r.key = i := length_componentOf_map _ _
  have hcom : (componentOf i (s.os.completions.map Completion.session)).length =
      s.os.completions.countP fun c => c.key = i := length_componentOf_map _ _
  simp only [sessions, componentOf_append, List.length_append, hout, hcom,
    length_componentOf_toList, length_componentOf_filterMap, session_fst_accept, session_fst_work,
    load, receives, processing]
  omega

variable {φ : Session}

theorem mem_componentOf : φ ∈ componentOf i s.sessions ↔ (i, φ) ∈ s.sessions := by
  simp only [componentOf, List.mem_filterMap]
  constructor
  · rintro ⟨⟨j, ψ⟩, hmem, hif⟩
    split at hif
    · next hj =>
        obtain rfl := Option.some.inj hif
        exact hj ▸ hmem
    · cases hif
  · intro hmem
    exact ⟨(i, φ), hmem, if_pos rfl⟩

/-- A slot has at most one session. -/
theorem session_of_mem (hload : s.load i ≤ 1) (h : (i, φ) ∈ s.sessions) : s.session i = φ := by
  have hmem := mem_componentOf.2 h
  rw [← length_sessions] at hload
  rw [session]
  cases hl : componentOf i s.sessions with
  | nil => rw [hl] at hmem; cases hmem
  | cons ψ rest =>
      obtain rfl : rest = [] := by simpa [hl] using hload
      exact (List.mem_singleton.1 (hl ▸ hmem)).symm

theorem session_of_load (hload : s.load i = 0) :
    s.session i = if s.Connected i then .stranded (s.history.occupant i) else .free := by
  rw [← length_sessions] at hload
  rw [session, List.eq_nil_of_length_eq_zero hload]

end Server

/-! ### What a step does to the sessions -/

/-- Taking out one entry of a list that is mapped. -/
theorem filterMap_perm_eraseIdx {α β : Type} {l : List α} {w : ℕ} {a : α} (h : l[w]? = some a)
    (f : α → Option β) : (l.filterMap f).Perm ((f a).toList ++ (l.eraseIdx w).filterMap f) := by
  obtain ⟨hw, rfl⟩ := List.getElem?_eq_some_iff.1 h
  have hperm := (List.getElem_cons_eraseIdx_perm hw).symm.filterMap f
  cases hf : f l[w] with
  | none => rwa [List.filterMap_cons_none hf] at hperm
  | some b => rwa [List.filterMap_cons_some hf] at hperm

/-- Replacing one entry of a list that is mapped. -/
theorem filterMap_set_perm {α β : Type} {l : List α} {w : ℕ} {a : α} (h : l[w]? = some a) (b : α)
    (f : α → Option β) :
    ((l.set w b).filterMap f).Perm ((f b).toList ++ (l.eraseIdx w).filterMap f) := by
  have hw := (List.getElem?_eq_some_iff.1 h).1
  have hperm := (List.set_perm_cons_eraseIdx hw b).filterMap f
  cases hf : f b with
  | none => rwa [List.filterMap_cons_none hf] at hperm
  | some b => rwa [List.filterMap_cons_some hf] at hperm

/-- The step takes the sessions `old` out and puts the sessions `new` in. -/
def Replaces (s s' : Server) (old new : List (ℕ × Session)) : Prop :=
  ∃ rest, s.sessions.Perm (old ++ rest) ∧ s'.sessions.Perm (new ++ rest)

namespace Replaces

variable {old new : List (ℕ × Session)}

/-- A step that moves no session. -/
theorem of_eq (haccept : s'.acceptThread.session = s.acceptThread.session)
    (hout : s'.os.outstanding = s.os.outstanding) (hcom : s'.os.completions = s.os.completions)
    (hwork : s'.workThreads.filterMap WorkPc.session = s.workThreads.filterMap WorkPc.session) :
    Replaces s s' [] [] := by
  refine ⟨s.sessions, List.Perm.refl _, ?_⟩
  rw [Server.sessions, haccept, hout, hcom, hwork]
  exact List.Perm.refl _

/-- The accept thread moves, and issues the receives `issued`. -/
theorem of_accept (issued : List PendingRecv) (hwork : s'.workThreads = s.workThreads)
    (hcom : s'.os.completions = s.os.completions)
    (hout : s'.os.outstanding = s.os.outstanding ++ issued) :
    Replaces s s' s.acceptThread.session.toList
      (s'.acceptThread.session.toList ++ issued.map PendingRecv.session) := by
  refine ⟨s.os.outstanding.map PendingRecv.session ++ s.os.completions.map Completion.session ++
    s.workThreads.filterMap WorkPc.session, ?_, ?_⟩
  · simp [Server.sessions]
  · refine List.perm_iff_count.2 fun x => ?_
    simp only [Server.sessions, hwork, hcom, hout, List.map_append, List.count_append]
    omega

/-- A worker thread moves, fetches the completions `fetched`, and issues the receives `issued`. -/
theorem of_worker {w : ℕ} {pc pc' : WorkPc} (fetched : List Completion) (issued : List PendingRecv)
    (hpc : s.workThreads[w]? = some pc) (hwork : s'.workThreads = s.workThreads.set w pc')
    (haccept : s'.acceptThread = s.acceptThread)
    (hcom : s.os.completions = fetched ++ s'.os.completions)
    (hout : s'.os.outstanding = s.os.outstanding ++ issued) :
    Replaces s s' (pc.session.toList ++ fetched.map Completion.session)
      (pc'.session.toList ++ issued.map PendingRecv.session) := by
  have hold := filterMap_perm_eraseIdx hpc WorkPc.session
  have hnew := filterMap_set_perm hpc pc' WorkPc.session
  refine ⟨s.acceptThread.session.toList ++ s.os.outstanding.map PendingRecv.session ++
    s'.os.completions.map Completion.session ++ (s.workThreads.eraseIdx w).filterMap WorkPc.session,
    ?_, ?_⟩
  · refine List.perm_iff_count.2 fun x => ?_
    have hcount := List.perm_iff_count.1 hold x
    simp only [List.count_append] at hcount
    simp only [Server.sessions, hcom, List.map_append, List.count_append, hcount]
    omega
  · refine List.perm_iff_count.2 fun x => ?_
    have hcount := List.perm_iff_count.1 hnew x
    simp only [List.count_append] at hcount
    simp only [Server.sessions, hwork, haccept, hout, List.map_append, List.count_append, hcount]
    omega

/-- A receive completes. -/
theorem of_complete {k : ℕ} {bSuccess : Bool} {data : List UInt8}
    (h : s.completeRecv k bSuccess data = some s') :
    ∃ r, s.os.outstanding[k]? = some r ∧ Replaces s s' [(r.key, .idle r.conn)]
      [(r.key, .queued r.conn (workBranch bSuccess data.length))] := by
  obtain ⟨r, hr, -, -, hs'⟩ := Server.completeRecv_some h
  obtain ⟨hk, rfl⟩ := List.getElem?_eq_some_iff.1 hr
  have hperm := (List.getElem_cons_eraseIdx_perm hk).map PendingRecv.session
  refine ⟨s.os.outstanding[k], hr, s.acceptThread.session.toList ++
    (s.os.outstanding.eraseIdx k).map PendingRecv.session ++
      s.os.completions.map Completion.session ++ s.workThreads.filterMap WorkPc.session, ?_, ?_⟩
  · refine List.perm_iff_count.2 fun x => ?_
    have hcount := List.perm_iff_count.1 hperm x
    simp only [List.map_cons, List.count_cons, PendingRecv.session] at hcount
    simp only [Server.sessions, List.count_append, List.count_cons, List.cons_append,
      List.nil_append, ← hcount]
    omega
  · rw [hs']
    refine List.perm_iff_count.2 fun x => ?_
    simp only [Server.sessions, Server.modifyContext, List.map_append, List.map_cons, List.map_nil,
      List.count_append, List.count_cons, List.count_nil, List.cons_append, List.nil_append,
      Completion.session]
    omega

/-- The sessions of a slot that the step does not touch. -/
theorem session_eq (hr : Replaces s s' old new) (hload : s.load j ≤ 1)
    (hold : componentOf j old = []) (hnew : componentOf j new = [])
    (hconn : s'.Connected j ↔ s.Connected j)
    (hocc : s'.history.occupant j = s.history.occupant j) : s'.session j = s.session j := by
  obtain ⟨rest, hperm, hperm'⟩ := hr
  have hrest : (componentOf j s.sessions).Perm (componentOf j rest) := by
    have := hperm.filterMap fun x => if x.1 = j then some x.2 else none
    rw [← componentOf, ← componentOf, componentOf_append, hold] at this
    exact this
  have hrest' : (componentOf j s'.sessions).Perm (componentOf j rest) := by
    have := hperm'.filterMap fun x => if x.1 = j then some x.2 else none
    rw [← componentOf, ← componentOf, componentOf_append, hnew] at this
    exact this
  rw [← Server.length_sessions] at hload
  have heq : componentOf j s'.sessions = componentOf j s.sessions := by
    have hboth := hrest'.trans hrest.symm
    cases hl : componentOf j s.sessions with
    | nil => exact List.perm_nil.1 (hl ▸ hboth)
    | cons φ l =>
        obtain rfl : l = [] := by simpa [hl] using hload
        exact List.perm_singleton.1 (hl ▸ hboth)
  simp only [Server.session, heq, hconn, hocc]

theorem mem_old (hr : Replaces s s' old new) {x : ℕ × Session} (hx : x ∈ old) : x ∈ s.sessions := by
  obtain ⟨rest, hperm, -⟩ := hr
  exact hperm.mem_iff.2 (List.mem_append_left _ hx)

theorem mem_new (hr : Replaces s s' old new) {x : ℕ × Session} (hx : x ∈ new) :
    x ∈ s'.sessions := by
  obtain ⟨rest, -, hperm⟩ := hr
  exact hperm.mem_iff.2 (List.mem_append_left _ hx)

end Replaces

/-! ### The invariants -/

/-- **The condition on the closes holds of itself** when nobody calls `DisconnectSocket`. -/
theorem Receives.closesSafely (hs : Receives cfg n s) (hd : s.disconnecting = [])
    (hno : e.thread ≠ .disconnect) (h : IocpDemo.step cfg s e = some s') : ClosesSafely s e := by
  refine ⟨fun _ i hi => ?_, fun _ i hi => ?_, fun i hi => ?_⟩
  · have hload := hs.bounded i
    have hfree := hs.table.chosen_free i hi
    simpa [hfree.2] using hload
  · exact Server.connected_iff.2 (hs.bounded.exists_socket_of_held hi)
  · have hnot : ¬ s.Forgetting i := by
      cases e with
      | closeSocket w =>
          obtain ⟨c, ctx, hpc, -, -⟩ := Server.closeSocket_some h
          obtain rfl : c.key = i := by simpa [Server.usedSlot, hpc] using hi
          exact Server.not_forgetting_of_worker (hs.bounded.le_one _) hpc rfl (by simp)
      | workReceive w pending =>
          obtain ⟨c, hpc, -⟩ := Server.workReceive_some h
          cases pending with
          | false => cases hi
          | true =>
              obtain rfl : c.key = i := by simpa [Server.usedSlot, hpc] using hi
              exact Server.not_forgetting_of_worker (hs.bounded.le_one _) hpc rfl (by simp)
      | acceptReceive pending =>
          cases pending with
          | false => cases hi
          | true => exact Server.not_forgetting_of_held (hs.bounded.le_one _) hi
      | disconnect j => exact absurd rfl hno
      | _ => cases hi
    rintro (hmem | hf)
    · rw [hd] at hmem
      cases hmem
    · exact hnot hf

/-- What holds of the slots in every run without `DisconnectSocket`. -/
structure Slots (cfg : Config) (n : ℕ) (s : Server) : Prop where
  receives : Receives cfg n s
  disconnecting : s.disconnecting = []
  closing : ∃ log, Closing n s log

namespace Slots

theorem init (mem : ℕ → Mem) (n workers : ℕ) : Slots cfg n (initServer mem n workers) :=
  ⟨Receives.init mem n workers, rfl, [], Closing.init mem n workers⟩

theorem step (hs : Slots cfg n s) (h : IocpDemo.step cfg s e = some s')
    (hno : e.thread ≠ .disconnect) : Slots cfg n s' := by
  obtain ⟨log, hclosing⟩ := hs.closing
  refine ⟨hs.receives.step h hno, ?_, _, hclosing.step h
    (hs.receives.closesSafely hs.disconnecting hno h)⟩
  rw [(step_frame h).disconnecting hno]
  exact hs.disconnecting

/-- **The invariant of all runs without `DisconnectSocket`**, whatever is logged. -/
theorem of_logged {α : Type} {obs : Server → Event → List α} {mem : ℕ → Mem} {workers : ℕ}
    {x : Server × List α} (h : Reach (logged (IocpDemo.step cfg) obs)
      (fun _ e => e.thread ≠ .disconnect) (initServer mem n workers, []) x) : Slots cfg n x.1 :=
  h.invariant (I := fun x => Slots cfg n x.1) (init mem n workers) fun _ _ _ hx hno hstep =>
    hx.step (logged_some hstep).1 hno

/-- The socket of a slot that is not about to be forgotten is that of its occupant. -/
theorem holdsOwn (hs : Slots cfg n s) (hf : ¬ s.Forgetting i) : s.HoldsOwn i := by
  obtain ⟨log, hclosing⟩ := hs.closing
  refine hclosing.own i ?_
  rintro (hmem | hf')
  · rw [hs.disconnecting] at hmem
    cases hmem
  · exact hf hf'

theorem connAt_eq (hs : Slots cfg n s) (hi : s.Connected i) (hf : ¬ s.Forgetting i) :
    s.connAt i = some (s.history.occupant i) := by
  obtain ⟨sock, hsock⟩ := Server.connected_iff.1 hi
  rw [Server.connAt, hsock]
  exact (hs.holdsOwn hf sock hsock).1

theorem conn_of_worker (hs : Slots cfg n s) {w : ℕ} {pc : WorkPc} {c : Completion}
    (hpc : s.workThreads[w]? = some pc) (hc : pc.completion = some c) :
    c.conn = s.history.occupant c.key := by
  obtain ⟨log, hclosing⟩ := hs.closing
  exact hclosing.inFlight _ _ (.processed hpc hc rfl rfl)

theorem conn_of_queued (hs : Slots cfg n s) {c : Completion} (hc : c ∈ s.os.completions) :
    s.history.occupant c.key = c.conn := by
  obtain ⟨log, hclosing⟩ := hs.closing
  exact (hclosing.inFlight _ _ (.queued hc rfl rfl)).symm

theorem conn_of_held (hs : Slots cfg n s) {conn : ℕ}
    (hpc : s.acceptThread.attached = some (i, conn)) : s.history.occupant i = conn := by
  obtain ⟨log, hclosing⟩ := hs.closing
  exact hclosing.occupancy.attached i conn hpc

theorem le_one (hs : Slots cfg n s) (i : ℕ) : s.load i ≤ 1 := hs.receives.bounded.le_one i

/-- A worker thread works at the socket of its slot's connection. -/
theorem connAt_of_worker (hs : Slots cfg n s) {w : ℕ} {pc : WorkPc} {c : Completion}
    (hpc : s.workThreads[w]? = some pc) (hc : pc.completion = some c)
    (hnot : ∀ d, pc ≠ .forgetting d) : s.connAt c.key = some c.conn := by
  have hkey := WorkPc.key_of_completion hc
  rw [hs.conn_of_worker hpc hc]
  exact hs.connAt_eq
    (Server.connected_iff.2 (hs.receives.bounded.exists_socket_of_worker hpc hkey))
    (Server.not_forgetting_of_worker (hs.le_one _) hpc hkey hnot)

/-- Nobody but the listening thread has the listening socket. -/
theorem dispatchOf_ne_none (hs : Slots cfg n s) {ctx : ClientContext}
    (hctx : s.contexts[i]? = some ctx) : dispatchOf cfg.listenSocket ctx ≠ none := by
  have hlisten := hs.receives.handles.listen i
  rw [Server.socketAt_eq hctx] at hlisten
  simp [dispatchOf, hlisten]

end Slots

/-! ### The moves of a slot -/

/-- The step does `op` to the slot `i`, and nothing to the others. -/
structure SlotMove (s s' : Server) (i : ℕ) (op : SlotOp) : Prop where
  moves : sessionStep (s.session i) op = some (s'.session i)
  others : ∀ j, j ≠ i → s'.session j = s.session j

namespace SlotMove

variable {op : SlotOp} {φ ψ : Session}

theorem run (hm : SlotMove s s' i op) (j : ℕ) :
    Transition.run sessionStep (s.session j) (componentOf j [(i, op)]) = some (s'.session j) := by
  by_cases hj : j = i
  · subst hj
    rw [componentOf_singleton_self, run_cons, hm.moves]
    rfl
  · rw [componentOf_singleton_of_ne (Ne.symm hj), hm.others j hj]
    rfl

/-- The session of the slot goes on. -/
theorem of_replaces (hs : Slots cfg n s) (hs' : Slots cfg n s')
    (hr : Replaces s s' [(i, φ)] [(i, ψ)]) (hop : sessionStep φ op = some ψ)
    (hconn : ∀ j, j ≠ i → (s'.Connected j ↔ s.Connected j))
    (hocc : ∀ j, j ≠ i → s'.history.occupant j = s.history.occupant j) : SlotMove s s' i op where
  moves := by
    rw [Server.session_of_mem (hs.le_one i) (hr.mem_old (List.mem_singleton_self _)),
      Server.session_of_mem (hs'.le_one i) (hr.mem_new (List.mem_singleton_self _))]
    exact hop
  others j hj := hr.session_eq (hs.le_one j) (componentOf_singleton_of_ne (Ne.symm hj) _)
    (componentOf_singleton_of_ne (Ne.symm hj) _) (hconn j hj) (hocc j hj)

/-- Nobody works at the session of the slot any more. -/
theorem of_lost (hs : Slots cfg n s) (hr : Replaces s s' [(i, φ)] [])
    (hop : sessionStep φ op =
      some (if s'.Connected i then .stranded (s'.history.occupant i) else .free))
    (hconn : ∀ j, j ≠ i → (s'.Connected j ↔ s.Connected j))
    (hocc : ∀ j, j ≠ i → s'.history.occupant j = s.history.occupant j) : SlotMove s s' i op where
  moves := by
    have hzero : s'.load i = 0 := by
      obtain ⟨rest, hperm, hperm'⟩ := hr
      have hload := hs.le_one i
      have hlen := (hperm.filterMap fun x => if x.1 = i then some x.2 else none).length_eq
      have hlen' := (hperm'.filterMap fun x => if x.1 = i then some x.2 else none).length_eq
      rw [← componentOf, ← componentOf, Server.length_sessions] at hlen hlen'
      rw [componentOf_append, componentOf_singleton_self] at hlen
      simp only [List.nil_append, List.length_append, List.length_singleton] at hlen hlen'
      omega
    rw [Server.session_of_mem (hs.le_one i) (hr.mem_old (List.mem_singleton_self _)),
      Server.session_of_load hzero]
    exact hop
  others j hj := hr.session_eq (hs.le_one j) (componentOf_singleton_of_ne (Ne.symm hj) _)
    (componentOf_nil _) (hconn j hj) (hocc j hj)

/-- A session begins. -/
theorem of_started (hs : Slots cfg n s) (hs' : Slots cfg n s') (hr : Replaces s s' [] [(i, ψ)])
    (hfree : ¬ s.Connected i) (hop : sessionStep .free op = some ψ)
    (hconn : ∀ j, j ≠ i → (s'.Connected j ↔ s.Connected j))
    (hocc : ∀ j, j ≠ i → s'.history.occupant j = s.history.occupant j) : SlotMove s s' i op where
  moves := by
    have hload := hs.receives.bounded i
    rw [Server.not_connected_iff.1 hfree] at hload
    rw [Server.session_of_load (Nat.le_zero.1 hload), if_neg hfree,
      Server.session_of_mem (hs'.le_one i) (hr.mem_new (List.mem_singleton_self _))]
    exact hop
  others j hj := hr.session_eq (hs.le_one j) (componentOf_nil _)
    (componentOf_singleton_of_ne (Ne.symm hj) _) (hconn j hj) (hocc j hj)

end SlotMove

/-- Only `ConnectClient` and `CloseSocket` connect and disconnect slots. -/
theorem connected_iff_of_step (h : step cfg s e = some s') (he : e ≠ .connectClient)
    (hf : ¬ Forgets s e j) : s'.Connected j ↔ s.Connected j := by
  rw [Server.Connected, Server.Connected, step_socketAt_eq h he hf]

/-- The condition on `Forgets` in runs without `DisconnectSocket`. -/
theorem not_forgets (hno : e.thread ≠ .disconnect) (he : ∀ w, e ≠ .forgetSocket w) :
    ¬ Forgets s e j := by
  rintro (⟨w, c, rfl, -, -⟩ | ⟨k, rfl, -⟩)
  · exact he w rfl
  · exact hno rfl

/-- `ConnectClient` begins a session. -/
theorem connectClient_move (hs : Slots cfg n s) (hs' : Slots cfg n s')
    (h : s.connectClient = some s') :
    ∃ i sock conn, s.acceptThread = .connecting i sock conn ∧ SlotMove s s' i (.attach conn) := by
  obtain ⟨i, sock, conn, hpc, heq⟩ := Server.connectClient_some h
  refine ⟨i, sock, conn, hpc, ?_⟩
  have hr : Replaces s s' [] [(i, .checking conn)] := by
    have hr : Replaces s s' _ _ := Replaces.of_accept [] (by rw [heq]; rfl) (by rw [heq])
      (by rw [heq]; exact (List.append_nil _).symm)
    rw [hpc, heq] at hr
    rw [heq]
    exact hr
  have hfree := hs.receives.table.chosen_free i (by rw [hpc]; rfl)
  have hctx : s'.contexts = s.contexts.modify i (·.connectClient sock) := by rw [heq]; rfl
  refine .of_started hs hs' hr (Server.not_connected_iff.2 hfree.2) rfl (fun j hj => ?_)
    (fun j hj => ?_)
  · rw [Server.Connected, Server.Connected, Server.socketAt_modify_of_ne hctx (Ne.symm hj)]
  · rw [heq]
    exact Function.update_of_ne hj _ _

/-- A step that neither attaches nor forgets a socket, and with which the session of one slot goes
on. -/
theorem SlotMove.of_step {φ ψ : Session} {op : SlotOp} (hs : Slots cfg n s)
    (h : step cfg s e = some s') (hno : e.thread ≠ .disconnect) (he : e ≠ .connectClient)
    (hf : ∀ w, e ≠ .forgetSocket w) (hr : Replaces s s' [(i, φ)] [(i, ψ)])
    (hop : sessionStep φ op = some ψ) : SlotMove s s' i op :=
  .of_replaces hs (hs.step h hno) hr hop
    (fun _ _ => connected_iff_of_step h he (not_forgets hno hf))
    (fun _ _ => by rw [(step_frame h).occupant he])

/-- A step after which nobody works at the slot, which keeps its socket. -/
theorem SlotMove.stranded_of_step {φ : Session} {op : SlotOp} {conn : ℕ} (hs : Slots cfg n s)
    (h : step cfg s e = some s') (hno : e.thread ≠ .disconnect) (he : e ≠ .connectClient)
    (hf : ∀ w, e ≠ .forgetSocket w) (hr : Replaces s s' [(i, φ)] []) (hi : s.Connected i)
    (hconn : s.history.occupant i = conn) (hop : sessionStep φ op = some (.stranded conn)) :
    SlotMove s s' i op := by
  have hsame : ∀ j, s'.Connected j ↔ s.Connected j := fun j =>
    connected_iff_of_step h he (not_forgets hno hf)
  have hocc := (step_frame h).occupant he
  refine .of_lost hs hr ?_ (fun j _ => hsame j) (fun j _ => by rw [hocc])
  rw [if_pos ((hsame i).2 hi), hocc, hconn]
  exact hop

/-- `ReceivePacket` on a slot. -/
theorem issue_move (φ : Session) {conn : ℕ} {pending : Bool} (hs : Slots cfg n s)
    (h : step cfg s e = some s') (hno : e.thread ≠ .disconnect) (he : e ≠ .connectClient)
    (hf : ∀ w, e ≠ .forgetSocket w) (hi : s.Connected i) (hnot : ¬ s.Forgetting i)
    (hconn : s.history.occupant i = conn)
    (hφ : ∀ c, sessionStep φ (.issue c) = issuedSession conn c)
    (hr : Replaces s s' [(i, φ)] (if pending then [(i, .idle conn)] else [])) :
    SlotMove s s' i (.issue (if pending then s.connAt i else none)) := by
  cases pending with
  | true =>
      refine .of_step hs h hno he hf hr ?_
      rw [hφ, if_pos rfl, hs.connAt_eq hi hnot, hconn]
      exact if_pos rfl
  | false => exact .stranded_of_step hs h hno he hf hr hi hconn (hφ none)

/-- A step of `AcceptThread` that issues no receive. -/
theorem accept_replaces (h : step cfg s e = some s') (hwork : ∀ w, e.thread ≠ .work w)
    (hmoves : e.movesReceives = false) :
    Replaces s s' s.acceptThread.session.toList s'.acceptThread.session.toList := by
  obtain ⟨hout, hcom⟩ := (step_os h).receives hmoves
  have hr := Replaces.of_accept [] ((step_frame h).workThreads hwork) hcom
    (by rw [hout, List.append_nil])
  rwa [List.map_nil, List.append_nil] at hr

/-- A step of a worker thread that issues and fetches no receive. -/
theorem work_replaces (h : step cfg s e = some s') {w : ℕ} {pc pc' : WorkPc}
    (hpc : s.workThreads[w]? = some pc) (hset : s'.workThreads = s.workThreads.set w pc')
    (haccept : e.thread ≠ .accept) (hmoves : e.movesReceives = false) :
    Replaces s s' pc.session.toList pc'.session.toList := by
  obtain ⟨hout, hcom⟩ := (step_os h).receives hmoves
  have hr := Replaces.of_worker [] [] hpc hset
    ((step_frame h).acceptThread haccept) (by rw [hcom, List.nil_append])
    (by rw [hout, List.append_nil])
  rwa [List.map_nil, List.append_nil, List.map_nil, List.append_nil] at hr

/-- A step that does nothing to any slot. -/
theorem session_eq_of_quiet (hs : Slots cfg n s) (h : step cfg s e = some s')
    (hno : e.thread ≠ .disconnect) (he : e ≠ .connectClient) (hf : ∀ w, e ≠ .forgetSocket w)
    (hr : Replaces s s' [] []) : s'.session j = s.session j :=
  hr.session_eq (hs.le_one j) (componentOf_nil _) (componentOf_nil _)
    (connected_iff_of_step h he (not_forgets hno hf)) (by rw [(step_frame h).occupant he])

/-- What a step does to a slot, when it does nothing to any slot. -/
theorem run_of_quiet (hs : Slots cfg n s) (h : step cfg s e = some s')
    (hno : e.thread ≠ .disconnect) (he : e ≠ .connectClient) (hf : ∀ w, e ≠ .forgetSocket w)
    (hops : slotOps cfg s e = []) (hr : Replaces s s' [] []) (i : ℕ) :
    run sessionStep (s.session i) (componentOf i (slotOps cfg s e)) = some (s'.session i) := by
  rw [hops, session_eq_of_quiet hs h hno he hf hr]
  rfl

/-- The slot that `AcceptThread` sets up is connected, and nobody closes it. -/
theorem Slots.held (hs : Slots cfg n s) (hi : s.acceptThread.held = some i) :
    s.Connected i ∧ ¬ s.Forgetting i :=
  ⟨Server.connected_iff.2 (hs.receives.bounded.exists_socket_of_held hi),
    Server.not_forgetting_of_held (hs.le_one i) hi⟩

/-- **What `AcceptThread` does to a slot is a run of the protocol.** -/
theorem acceptThread_session (hs : Slots cfg n s) (h : step cfg s e = some s')
    (he : e.thread = .accept) (i : ℕ) :
    run sessionStep (s.session i) (componentOf i (slotOps cfg s e)) = some (s'.session i) := by
  have hno : e.thread ≠ .disconnect := by simp [he]
  have hf : ∀ w, e ≠ .forgetSocket w := by
    rintro w rfl
    cases he
  have hr : e.movesReceives = false → Replaces s s' s.acceptThread.session.toList
      s'.acceptThread.session.toList := accept_replaces h (by simp [he])
  rcases step_acceptThread h with ⟨-, hne⟩ | hmove
  · exact absurd he hne
  generalize hpc' : s'.acceptThread = pc at hmove
  cases hmove with
  | @scanned k hpc =>
      have hnone : s'.acceptThread.session = none := by
        rw [hpc']
        rcases Server.scanNext_cases s.contexts k with hnext | hnext | hnext <;>
          simp [hnext, AcceptPc.session]
      have hr := hr rfl
      rw [hpc, hnone] at hr
      exact run_of_quiet hs h hno (by simp) hf rfl hr i
  | failed hpc | accepted hpc _ _ =>
      have hr := hr rfl
      rw [hpc, hpc'] at hr
      exact run_of_quiet hs h hno (by simp) hf rfl hr i
  | attached hpc =>
      obtain ⟨k, sock, conn, hpc₁, hmove⟩ := connectClient_move hs (hs.step h hno) h
      have hops : slotOps cfg s .connectClient = [(k, .attach conn)] := by
        rw [slotOps, hpc₁]
      rw [hops]
      exact hmove.run i
  | @kept k conn sock c hpc hctx hc =>
      have hconn := (Server.connected_iff_context hctx).2 hc
      have hops : slotOps cfg s .checkConnected = [(k, .check)] := by
        simp only [slotOps, hpc, if_pos hconn]
      have hr := hr rfl
      rw [hpc, hpc'] at hr
      rw [hops]
      exact (SlotMove.of_step hs h hno (by simp) hf hr rfl).run i
  | @dropped k conn sock c hpc hctx hc =>
      have hconn := (hs.held (i := k) (by rw [hpc]; rfl)).1
      rw [(Server.connected_iff_context hctx).1 hconn] at hc
      cases hc
  | @counted k conn hpc =>
      have hops : slotOps cfg s .countClient = [(k, .count)] := by simp only [slotOps, hpc]
      have hr := hr rfl
      rw [hpc, hpc'] at hr
      rw [hops]
      exact (SlotMove.of_step hs h hno (by simp) hf hr rfl).run i
  | @greeted k conn c hpc hctx =>
      have hops : slotOps cfg s .greetClient = [(k, .greet)] := by simp only [slotOps, hpc]
      have hr := hr rfl
      rw [hpc, hpc'] at hr
      rw [hops]
      exact (SlotMove.of_step hs h hno (by simp) hf hr rfl).run i
  | @armed k conn pending hpc =>
      have hops : slotOps cfg s (.acceptReceive pending) = s.issueAt k pending := by
        simp only [slotOps, hpc]
      obtain ⟨k', conn', hpc₁, hrecv⟩ := Server.acceptReceive_some h
      rw [hpc] at hpc₁
      cases hpc₁
      obtain ⟨hi, hnot⟩ := hs.held (i := k) (by rw [hpc]; rfl)
      have hocc : s.history.occupant k = conn := hs.conn_of_held (by rw [hpc]; rfl)
      have hout : s'.os.outstanding = s.os.outstanding ++
          if pending then [⟨k, k, s.history.occupant k⟩] else [] :=
        receivePacket_issued (s := { s with acceptThread := .scan 0 }) (fun _ => hs.holdsOwn hnot)
          hrecv
      obtain ⟨-, hwork, -⟩ := Server.receivePacket_frame hrecv
      have hcom := Server.receivePacket_completions hrecv
      have hr : Replaces s s' _ _ := Replaces.of_accept _ hwork hcom hout
      rw [hpc, hpc'] at hr
      rw [hops]
      refine (issue_move (.arming conn) hs h hno (by simp) hf hi hnot hocc (fun _ => rfl) ?_).run i
      rw [hocc] at hr
      cases pending <;> exact hr

/-- **What a worker thread does to a slot is a run of the protocol.** -/
theorem workThread_session (hs : Slots cfg n s) (h : step cfg s e = some s') {w : ℕ}
    (he : e.thread = .work w) (i : ℕ) :
    run sessionStep (s.session i) (componentOf i (slotOps cfg s e)) = some (s'.session i) := by
  have hno : e.thread ≠ .disconnect := by simp [he]
  have hconnect : e ≠ .connectClient := by
    rintro rfl
    cases he
  have haccept : e.thread ≠ .accept := by simp [he]
  rcases step_workThreads h with ⟨-, hne⟩ | ⟨v, pc, pc', hmove, hpc, hset⟩
  · exact absurd he (hne w)
  have hr : e.movesReceives = false → Replaces s s' pc.session.toList pc'.session.toList :=
    work_replaces h hpc hset haccept
  cases hmove with
  | entered =>
      have hr := hr rfl
      have hnone : (if s.isWorkThreadRun then WorkPc.waiting else .stopped).session = none := by
        split <;> rfl
      rw [hnone] at hr
      exact run_of_quiet hs h hno hconnect (by simp) rfl hr i
  | @got w c rest hq =>
      have hops : slotOps cfg s (.getCompletion v) = [(c.key, .fetch)] := by
        simp only [slotOps, hq]
      obtain ⟨c', rest', -, hq', heq⟩ := Server.getCompletion_some h
      have hout : s'.os.outstanding = s.os.outstanding ++ [] := by rw [heq, List.append_nil]
      have hr := Replaces.of_worker [c] [] hpc hset ((step_frame h).acceptThread haccept)
        (by rw [heq, hq']; rw [hq] at hq'; cases hq'; rfl) hout
      rw [List.map_nil, List.append_nil] at hr
      have hflight : InFlight s c.conn c.key := .queued (hq ▸ List.mem_cons_self) rfl rfl
      have hi := Server.connected_iff.2 (hs.receives.bounded.exists_socket hflight.load_pos)
      have hocc : s.history.occupant c.key = c.conn := hs.conn_of_queued (hq ▸ List.mem_cons_self)
      rw [hops]
      -- where the completion takes the worker thread, it takes the slot
      cases hbranch : workBranch c.bSuccess c.data.length with
      | noData =>
          simp only [Completion.session, Server.afterCompletion, hbranch, List.map_cons] at hr
          exact (SlotMove.stranded_of_step hs h hno hconnect (by simp) hr hi hocc rfl).run i
      | close | received =>
          simp only [Completion.session, Server.afterCompletion, hbranch, List.map_cons] at hr
          exact (SlotMove.of_step hs h hno hconnect (by simp) hr rfl).run i
  | @closed w c =>
      have hops : slotOps cfg s (.closeSocket v) = [(c.key, .close (some c.conn))] := by
        simp only [slotOps, hpc, hs.connAt_of_worker hpc rfl (by simp)]
      rw [hops]
      refine (SlotMove.of_step hs h hno hconnect (by simp) (hr rfl) ?_).run i
      exact if_pos rfl
  | @forgot w c => 
      have hops : slotOps cfg s (.forgetSocket v) = [(c.key, .forget)] := by
        simp only [slotOps, hpc]
      obtain ⟨c', hpc', heq⟩ := Server.forgetSocket_some h
      rw [hpc] at hpc'
      cases hpc'
      have hctx : s'.contexts = s.contexts.modify c.key (·.forgetSocket) := by rw [heq]; rfl
      have hfree : ¬ s'.Connected c.key :=
        Server.not_connected_iff.2 (Server.socketAt_of_forget hctx)
      rw [hops]
      refine (SlotMove.of_lost hs (hr rfl) ?_ (fun j hj => ?_) (fun j _ => ?_)).run i
      · rw [if_neg hfree]
        rfl
      · rw [Server.Connected, Server.Connected, Server.socketAt_modify_of_ne hctx (Ne.symm hj)]
      · rw [(step_frame h).occupant hconnect]
  | @ignored w c ctx hctx hd => exact absurd hd (hs.dispatchOf_ne_none hctx)
  | @handled w c ctx hctx hd =>
      have hops : slotOps cfg s (.deSerialize v) = [(c.key, .dispatch)] := by
        obtain ⟨x, hx⟩ := Option.ne_none_iff_exists'.1 hd
        simp only [slotOps, hpc, hctx, Option.bind_some, hx]
      rw [hops]
      exact (SlotMove.of_step hs h hno hconnect (by simp) (hr rfl) rfl).run i
  | @rearmed w c pending =>
      have hops : slotOps cfg s (.workReceive v pending) = s.issueAt c.key pending := by
        simp only [slotOps, hpc]
      obtain ⟨c', hpc', hrecv⟩ := Server.workReceive_some h
      rw [hpc] at hpc'
      cases hpc'
      have hi := Server.connected_iff.2 (hs.receives.bounded.exists_socket_of_worker hpc rfl)
      have hnot := Server.not_forgetting_of_worker (hs.le_one _) hpc rfl (by simp)
      have hocc := (hs.conn_of_worker hpc rfl).symm
      have hout : s'.os.outstanding = s.os.outstanding ++
          if pending then [⟨c.key, c.key, s.history.occupant c.key⟩] else [] :=
        receivePacket_issued (s := s.setWorker v .top) (fun _ => hs.holdsOwn hnot) hrecv
      obtain ⟨haccept, -, -⟩ := Server.receivePacket_frame hrecv
      have hcom := Server.receivePacket_completions hrecv
      have hr : Replaces s s' _ _ := Replaces.of_worker [] _ hpc hset haccept hcom.symm hout
      rw [hops]
      refine (issue_move (.rearming c.conn) hs h hno hconnect (by simp) hi hnot hocc (fun _ => rfl)
        ?_).run i
      rw [hocc] at hr
      cases pending <;> exact hr

/-- **What a step does to a slot is a run of the protocol.** -/
theorem step_session (hs : Slots cfg n s) (h : step cfg s e = some s')
    (hno : e.thread ≠ .disconnect) (i : ℕ) :
    run sessionStep (s.session i) (componentOf i (slotOps cfg s e)) = some (s'.session i) := by
  by_cases haccept : e.thread = .accept
  · exact acceptThread_session hs h haccept i
  by_cases hwork : ∃ w, e.thread = .work w
  · obtain ⟨w, hwork⟩ := hwork
    exact workThread_session hs h hwork i
  cases e with
  | completeRecv k bSuccess data =>
      obtain ⟨r, hget, hr⟩ := Replaces.of_complete h
      have hops : slotOps cfg s (.completeRecv k bSuccess data) =
          [(r.key, .complete (workBranch bSuccess data.length))] := by
        simp only [slotOps, hget]
      rw [hops]
      exact (SlotMove.of_step hs h hno (by simp) (by simp) hr rfl).run i
  | disconnect j => exact absurd rfl hno
  | disconnectForget k => exact absurd rfl hno
  | sendTop | popPacket | sendPacket | sendCopy | sendWsa _ | bcTop | popBCPacket | bcTest | bcCopy
  | bcWsa _ | closeThreads =>
      obtain ⟨hout, hcom⟩ := (step_os h).receives rfl
      have hr : Replaces s s' [] [] := Replaces.of_eq
        (by rw [(step_frame h).acceptThread haccept]) hout hcom
        (by rw [(step_frame h).workThreads (by simp [Event.thread])])
      exact run_of_quiet hs h hno (by simp) (by simp) rfl hr i
  | scanSlot | wsaAccept _ | connectClient | checkConnected | countClient | greetClient
  | acceptReceive _ => exact absurd rfl haccept
  | workTop w | getCompletion w | closeSocket w | forgetSocket w | deSerialize w
  | workReceive w _ => exact absurd ⟨w, rfl⟩ hwork

/-! ### The connections of the sessions -/

/-- **Sessions begin with the connections in the order in which they were accepted.** -/
structure AttachesInOrder (s : Server) (log : List (ℕ × SlotOp)) : Prop where
  sorted : (attaches (log.map Prod.snd)).Pairwise (· < ·)
  lt : ∀ conn ∈ attaches (log.map Prod.snd), conn < s.os.accepted
  incoming : ∀ i sock conn, s.acceptThread = .connecting i sock conn →
    conn < s.os.accepted ∧ ∀ conn' ∈ attaches (log.map Prod.snd), conn' < conn

namespace AttachesInOrder

variable {log : List (ℕ × SlotOp)}

theorem init (mem : ℕ → Mem) (n workers : ℕ) : AttachesInOrder (initServer mem n workers) [] where
  sorted := List.Pairwise.nil
  lt conn h := by cases h
  incoming i sock conn h := by cases h

/-- Only `ConnectClient` begins a session. -/
theorem attaches_slotOps (he : e ≠ .connectClient) :
    attaches ((slotOps cfg s e).map Prod.snd) = [] := by
  cases e with
  | connectClient => exact absurd rfl he
  | checkConnected =>
      rw [slotOps]
      split
      · split <;> rfl
      · rfl
  | getCompletion w =>
      rw [slotOps]
      cases s.os.completions <;> rfl
  | deSerialize w =>
      rw [slotOps]
      split
      · split <;> rfl
      · rfl
  | countClient | greetClient | acceptReceive _ | completeRecv _ _ _ | workReceive _ _
  | closeSocket _ | forgetSocket _ =>
      rw [slotOps]
      split <;> rfl
  | _ => rfl

theorem step (hs : AttachesInOrder s log) (h : IocpDemo.step cfg s e = some s') :
    AttachesInOrder s' (log ++ slotOps cfg s e) := by
  by_cases he : e = .connectClient
  · subst he
    obtain ⟨i, sock, conn, hpc, rfl⟩ := Server.connectClient_some h
    obtain ⟨hlt, hbefore⟩ := hs.incoming i sock conn hpc
    have hops : slotOps cfg s .connectClient = [(i, .attach conn)] := by rw [slotOps, hpc]
    have hattaches : attaches ((log ++ slotOps cfg s .connectClient).map Prod.snd) =
        attaches (log.map Prod.snd) ++ [conn] := by
      rw [hops, List.map_append, attaches_append]
      rfl
    refine ⟨?_, fun conn' hconn' => ?_, fun j sock' conn' hpc' => by cases hpc'⟩
    · rw [hattaches]
      refine List.pairwise_append.2 ⟨hs.sorted, List.pairwise_singleton _ _, fun a ha b hb => ?_⟩
      rw [List.mem_singleton.1 hb]
      exact hbefore a ha
    · rw [hattaches] at hconn'
      rcases List.mem_append.1 hconn' with hold | hnew
      · exact hs.lt conn' hold
      · rw [List.mem_singleton.1 hnew]
        exact hlt
  · have hattaches : attaches ((log ++ slotOps cfg s e).map Prod.snd) =
        attaches (log.map Prod.snd) := by
      rw [List.map_append, attaches_append, attaches_slotOps he, List.append_nil]
    have hle : s.os.accepted ≤ s'.os.accepted := by
      rcases accepted_of_step h with ⟨hacc, -⟩ | ⟨hacc, -⟩ <;> omega
    refine ⟨by rw [hattaches]; exact hs.sorted, fun conn hconn => ?_, fun i sock conn hpc => ?_⟩
    · exact Nat.lt_of_lt_of_le (hs.lt conn (hattaches ▸ hconn)) hle
    · rw [hattaches]
      rcases accepted_of_step h with ⟨hacc, hne⟩ | ⟨hacc, j, sock', -, hpc'⟩
      · rw [hacc]
        exact hs.incoming i sock conn (Handles.connecting_of_step h hne hpc)
      · -- the number of the new connection is larger than all others
        rw [hpc] at hpc'
        cases hpc'
        exact ⟨by omega, hs.lt⟩

theorem of_reach {P : Server × List (ℕ × SlotOp) → Event → Prop} {mem : ℕ → Mem} {workers : ℕ}
    (h : Reach (sessionSystem cfg) P (initServer mem n workers, []) (s, log)) :
    AttachesInOrder s log :=
  h.logged_invariant (I := AttachesInOrder) (init mem n workers) fun _ _ _ _ hs _ hstep =>
    hs.step hstep

end AttachesInOrder

/-! ### The results -/

/-- The slots are free at first, and what is done to a slot since is a run of the protocol. -/
theorem run_slot {mem : ℕ → Mem} {workers : ℕ} {log : List (ℕ × SlotOp)}
    (h : Reach (sessionSystem cfg) (fun _ e => e.thread ≠ .disconnect)
      (initServer mem n workers, []) (s, log)) (i : ℕ) :
    run sessionStep .free (componentOf i log) = some (s.session i) := by
  have hfree : (initServer mem n workers).session i = .free := by
    rw [Server.session_of_load (Server.load_initServer mem n workers i),
      if_neg (by simp [Server.Connected])]
  have hrun := h.run_component Server.session (Slots cfg n) (i := i)
    (fun _ hz => Slots.of_logged hz) fun t _ e u ht hno hstep => step_session ht hstep hno i
  rwa [hfree] at hrun

/-- **Every slot runs the session protocol.**  In every run in which nobody calls
`DisconnectSocket`, whatever the other threads do and whatever the operating system answers: what
is done to a slot, in the order in which it is done, is a run of the protocol from the free slot on,
and the protocol ends where the slot stands.  So the threads never work at a slot at the same time:
each receive is issued on the connection that the slot was attached to and handled before the next
one is issued, only a failed receive closes a connection, and then the slot's own; and no slot is
attached before its socket has been forgotten. -/
theorem every_slot_runs_sessions (cfg : Config) (mem : ℕ → Mem) (workers : ℕ)
    {log : List (ℕ × SlotOp)}
    (h : Reach (sessionSystem cfg) (fun _ e => e.thread ≠ .disconnect)
      (initServer mem n workers, []) (s, log)) (i : ℕ) :
    run sessionStep .free (componentOf i log) = some (s.session i) :=
  run_slot h i

/-- Two clients take the same slot one after the other: the first one sends a frame and leaves, the
second one is just set up. -/
theorem two_sessions_of_a_slot :
    ∃ s log, Reach (sessionSystem wireConfig) (fun _ e => e.thread ≠ .disconnect) (wireServer 1, [])
        (s, log) ∧
      componentOf 0 log = sessionWord 0 1 ++ opening 1 ∧
      run sessionStep .free (componentOf 0 log) = some (s.session 0) := by
  obtain ⟨⟨s, log⟩, hreach, hlog⟩ := Reach.exists_of_runIf (sessionSystem wireConfig)
    (fun _ e => e.thread ≠ .disconnect) (wireServer 1, [])
    (.scanSlot :: acceptEvents 7 ++ serveEvents [6, 0, 2, 0, 10, 0] ++ closeEvents ++
      .scanSlot :: acceptEvents 8)
    (fun x : Server × List (ℕ × SlotOp) => componentOf 0 x.2)
    (x := sessionWord 0 1 ++ opening 1) (by decide +kernel)
  exact ⟨s, log, hreach, hlog, every_slot_runs_sessions wireConfig (fun _ _ => 0) 1 hreach 0⟩

/-- **The history of a slot is a sequence of sessions.**  In every run in which nobody calls
`DisconnectSocket`, what has been done to a slot is, one after the other, whole sessions, each of
one connection with any number of frames handled one by one, and then the beginning of the session
where the slot stands; for a free slot this is nothing.  Over all slots the sessions begin in the
order in which their connections were accepted, and no connection has two of them. -/
theorem slot_history_is_sessions (cfg : Config) (mem : ℕ → Mem) (workers : ℕ)
    {log : List (ℕ × SlotOp)}
    (h : Reach (sessionSystem cfg) (fun _ e => e.thread ≠ .disconnect)
      (initServer mem n workers, []) (s, log)) (i : ℕ) :
    (∃ (done : List (ℕ × ℕ)) (k : ℕ) (rest : List SlotOp), Opened (s.session i) k rest ∧
      componentOf i log = done.flatMap (fun x => sessionWord x.1 x.2) ++ rest ∧
        (done.map Prod.fst ++ attaches rest).Sublist (attaches (log.map Prod.snd))) ∧
      (attaches (log.map Prod.snd)).Pairwise (· < ·) := by
  refine ⟨?_, (AttachesInOrder.of_reach h).sorted⟩
  obtain ⟨done, k, rest, hopened, hops⟩ := exists_sessions (run_slot h i)
  refine ⟨done, k, rest, hopened, hops, ?_⟩
  have hsub := (componentOf_sublist i log).flatMap fun
    | .attach conn => [conn]
    | _ => []
  rw [hops] at hsub
  have hattaches : attaches (done.flatMap (fun x => sessionWord x.1 x.2) ++ rest) =
      done.map Prod.fst ++ attaches rest := by
    rw [attaches_append, attaches_sessions]
  rw [← hattaches]
  exact hsub

/-- In a run in which two clients leave the same slot one after the other. -/
theorem two_clients_left :
    ∃ s log, Reach (sessionSystem wireConfig) (fun _ e => e.thread ≠ .disconnect) (wireServer 1, [])
        (s, log) ∧
      componentOf 0 log = sessionWord 0 1 ++ sessionWord 1 0 ∧ s.session 0 = .free ∧
      (attaches (log.map Prod.snd)).Pairwise (· < ·) := by
  obtain ⟨⟨s, log⟩, hreach, hlog⟩ := Reach.exists_of_runIf (sessionSystem wireConfig)
    (fun _ e => e.thread ≠ .disconnect) (wireServer 1, [])
    (.scanSlot :: acceptEvents 7 ++ serveEvents [6, 0, 2, 0, 10, 0] ++ closeEvents ++
      .scanSlot :: acceptEvents 8 ++ closeEvents)
    (fun x : Server × List (ℕ × SlotOp) => (componentOf 0 x.2, x.1.session 0))
    (x := (sessionWord 0 1 ++ sessionWord 1 0, .free)) (by decide +kernel)
  obtain ⟨hops, hfree⟩ := Prod.mk.inj hlog
  exact ⟨s, log, hreach, hops, hfree,
    (slot_history_is_sessions wireConfig (fun _ _ => 0) 1 hreach 0).2⟩

end IocpDemo
