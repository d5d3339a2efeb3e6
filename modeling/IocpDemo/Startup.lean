/-
**From `main` to the running server** (`main.cpp`, `CreateListenSocket`, `InitSocket`, `InitServer`,
`ExecuteServer`, `ExecuteMainThread`).

`main` opens the listening socket, creates the slots, and creates the threads one after the other:
the accept thread already accepts clients while the worker threads are created, and the worker
threads serve frames before there is a thread that sends.  `IocpDemo.initServer` starts with all
threads.  This makes no difference: a thread that does not exist yet is a thread that does not move
yet.  So what is proved of the runs of the server holds of the runs of the program.

`InitServer` creates the completion port, which is taken to succeed; it may fail to associate the
listening socket with the port, but `ExecuteServer` drops its result.

Main definitions:

* `IocpDemo.MainPc`, `IocpDemo.Process` — the program points of `main`, and the process;
* `IocpDemo.ProcessEvent`, `IocpDemo.processStep` — the steps of `main` and of the threads that
  exist;
* `IocpDemo.Process.complete` — the server with the worker threads that are still to be created;
* `IocpDemo.Process.Listening`, `IocpDemo.Process.Released`, `IocpDemo.Process.Leaked` — what is
  held of Winsock.

Main results:

* `IocpDemo.process_runs_server` — **a run of the program is a run of the server**;
* `IocpDemo.startup_outcomes` — **threads run on a listening socket only, and a startup that fails
  releases what it holds**, unless it is `ioctlsocket` that fails.
-/

import IocpDemo.Steps
import IocpDemo.Transition
import IocpDemo.WireFormat

set_option relaxedAutoImplicit false
set_option autoImplicit false

namespace IocpDemo

open Bytes Transition Wire

/-! ### The process -/

/-- `SERVER_PORT`. -/
def serverPort : UInt16 := 9001

/-- `SOCK_MAXCONN`. -/
def sockMaxConn : UInt16 := 5

/-- `INVALID_SOCKET`, as the value that `InitSocket` compares the result of `ioctlsocket` with. -/
def invalidSocket : UInt64 := ~~~0

/-- `main`, with the functions it calls: the call that is next. -/
inductive MainPc
  | wsaStartup
  | wsaSocket
  | bind
  | listen
  | ioctlsocket
  | initServer
  | createAcceptThread
  /-- The loop of `CreateWorkThread`. -/
  | createWorkThread
  | createSendThread
  | createSendBroadCastThread
  /-- The loop of `main`. -/
  | getline
  | returned
  deriving DecidableEq, Repr

/-- The listening socket, as the operating system knows it. -/
structure Listener where
  socket : Socket
  port : Option UInt16 := none
  backlog : Option UInt16 := none
  nonBlocking : Bool := false
  deriving DecidableEq, Repr

/-- `main`, what it has of Winsock, and the server. -/
structure Process where
  main : MainPc := .wsaStartup
  /-- The calls of `WSAStartup` that no `WSACleanup` has undone. -/
  winsock : ℕ := 0
  /-- `ListenSocket`. -/
  listenSocket : Option Socket := none
  /-- The listening socket, while it is open. -/
  listener : Option Listener := none
  maxWorkThreadCount : Int32 := 5
  /-- The rest of `CIOCPServer`; `workThreads` are the worker threads that have been created. -/
  server : Server := { contexts := [], workThreads := [] }

namespace Process

/-- `WSACleanup`; it fails without effect when there is nothing to undo. -/
def wsaCleanup (p : Process) : Process := { p with winsock := p.winsock - 1 }

/-- `closesocket` on the listening socket. -/
def closeListener (p : Process) : Process := { p with listener := none }

/-- `main` returns. -/
def exit (p : Process) : Process := { p with main := .returned }

def setServer (p : Process) (s : Server) : Process := { p with server := s }

/-! ### `CreateListenSocket` -/

/-- `WSAStartup`. -/
def wsaStartup (p : Process) (retError : Int32) : Option Process :=
  match p.main with
  | .wsaStartup =>
      if retError ≠ 0 then some p.wsaCleanup.exit
      else some { p with winsock := p.winsock + 1, main := .wsaSocket }
  | _ => none

/-- `WSASocket`. -/
def wsaSocket (p : Process) (r : Option Socket) : Option Process :=
  match p.main with
  | .wsaSocket =>
      match r with
      | none => some { p.wsaCleanup.exit with listenSocket := none }
      | some h => some { p with
          listenSocket := some h, listener := some { socket := h }, main := .bind }
  | _ => none

/-! ### `InitSocket` -/

/-- `bind`, to `SERVER_PORT` on all addresses. -/
def bind (p : Process) (retError : Int32) : Option Process :=
  match p.main with
  | .bind =>
      if retError ≠ 0 then some p.closeListener.wsaCleanup.exit
      else some { p with
        listener := p.listener.map ({ · with port := some serverPort }), main := .listen }
  | _ => none

/-- `listen`. -/
def listen (p : Process) (retError : Int32) : Option Process :=
  match p.main with
  | .listen =>
      if retError ≠ 0 then some p.closeListener.wsaCleanup.exit
      else some { p with
        listener := p.listener.map ({ · with backlog := some sockMaxConn }), main := .ioctlsocket }
  | _ => none

/-- `ioctlsocket`, which makes the socket non-blocking; its `int` result is compared with a
`SOCKET`.  Nothing is released when it fails. -/
def ioctlsocket (p : Process) (r : Int32) : Option Process :=
  match p.main with
  | .ioctlsocket =>
      if r.toInt64.toUInt64 = invalidSocket then some p.exit
      else some { p with
        listener := p.listener.map ({ · with nonBlocking := true }), main := .initServer }
  | _ => none

/-! ### `InitServer` and `ExecuteMainThread` -/

/-- `InitServer`, with the memory of the contexts and the number of processors. -/
def initServer (p : Process) (mem : ℕ → Mem) (dwNumberOfProcessors : UInt32) : Option Process :=
  match p.main with
  | .initServer => some { p with
      server := { p.server with contexts := createClient mem clientMax p.server.contexts }
      maxWorkThreadCount := (dwNumberOfProcessors * 2 + 1).toInt32
      main := .createAcceptThread }
  | _ => none

/-- `ExecuteMainThread` creates the next thread, if there is one to create. -/
def createThread (p : Process) : Option Process :=
  match p.main with
  | .createAcceptThread => some { p with main := .createWorkThread }
  | .createWorkThread =>
      if (p.server.workThreads.length : ℤ) < p.maxWorkThreadCount.toInt then
        some (p.setServer { p.server with workThreads := p.server.workThreads ++ [.top] })
      else some { p with main := .createSendThread }
  | .createSendThread => some { p with main := .createSendBroadCastThread }
  | .createSendBroadCastThread => some { p with main := .getline }
  | _ => none

/-- The loop of `main` reads a line; at the end of the input it is empty. -/
def getline (p : Process) (inputToExit : String) : Option Process :=
  match p.main with
  | .getline => some (if inputToExit = "quit" ∨ inputToExit = "QUIT" then p.exit else p)
  | _ => none

/-! ### The threads -/

/-- The thread has been created.  Nobody calls `CloseThread` before `ExecuteServer` has returned;
the process ends when `main` returns. -/
def created (p : Process) : Thread → Bool
  | .accept | .work _ | .os | .disconnect =>
      [.createWorkThread, .createSendThread, .createSendBroadCastThread, .getline].contains p.main
  | .send => [.createSendBroadCastThread, .getline].contains p.main
  | .broadCast | .close => p.main = .getline

/-- A thread that has been created makes a step. -/
def serverStep (p : Process) (R : Runtime) (e : Event) : Option Process :=
  match p.listenSocket with
  | none => none
  | some h =>
      if p.created e.thread then (step ⟨R, h⟩ p.server e).map p.setServer else none

end Process

/-- The events: the calls of `main` with what they answer, and the events of the server. -/
inductive ProcessEvent
  | wsaStartup (retError : Int32)
  | wsaSocket (r : Option Socket)
  | bind (retError : Int32)
  | listen (retError : Int32)
  | ioctlsocket (r : Int32)
  | initServer (mem : ℕ → Mem) (dwNumberOfProcessors : UInt32)
  | createThread
  | getline (inputToExit : String)
  | server (e : Event)

/-- **The step an event makes**, when it is possible. -/
def processStep (R : Runtime) (p : Process) : ProcessEvent → Option Process
  | .wsaStartup retError => p.wsaStartup retError
  | .wsaSocket r => p.wsaSocket r
  | .bind retError => p.bind retError
  | .listen retError => p.listen retError
  | .ioctlsocket r => p.ioctlsocket r
  | .initServer mem dwNumberOfProcessors => p.initServer mem dwNumberOfProcessors
  | .createThread => p.createThread
  | .getline inputToExit => p.getline inputToExit
  | .server e => p.serverStep R e

variable {R : Runtime} {cfg : Config} {p p' : Process} {s s' : Server} {e : Event}

/-! ### The worker threads that do not exist yet -/

/-- The server with more worker threads. -/
def Server.addWorkers (s : Server) (l : List WorkPc) : Server :=
  { s with workThreads := s.workThreads ++ l }

namespace Server

variable {l : List WorkPc} {w : ℕ} {pc : WorkPc}

theorem worker_addWorkers (h : s.workThreads[w]? = some pc) :
    (s.addWorkers l).workThreads[w]? = some pc := by
  obtain ⟨hlt, -⟩ := List.getElem?_eq_some_iff.1 h
  rw [← h]
  exact List.getElem?_append_left hlt

theorem setWorker_addWorkers (h : s.workThreads[w]? = some pc) (pc' : WorkPc) :
    (s.addWorkers l).setWorker w pc' = (s.setWorker w pc').addWorkers l := by
  obtain ⟨hlt, -⟩ := List.getElem?_eq_some_iff.1 h
  simp only [setWorker, addWorkers, List.set_append_left w pc' hlt]

theorem receivePacket_addWorkers {i : ℕ} {pending : Bool}
    (h : s.receivePacket i pending = some s') :
    (s.addWorkers l).receivePacket i pending = some (s'.addWorkers l) := by
  obtain ⟨c, hctx, ⟨rfl, rfl⟩ | ⟨rfl, sock, conn, hsock, hopen, rfl⟩⟩ := receivePacket_some h
  · simp [receivePacket, addWorkers, modifyContext, hctx]
  · simp [receivePacket, addWorkers, modifyContext, hctx, hsock, hopen]

end Server

/-- A worker thread that has been created does not notice those that have not. -/
theorem work_addWorkers {l : List WorkPc} (h : step cfg s e = some s') {w : ℕ}
    (he : e.thread = .work w) : step cfg (s.addWorkers l) e = some (s'.addWorkers l) := by
  cases e with
  | workTop v =>
      obtain ⟨hpc, rfl⟩ := Server.workTop_some h
      simp only [step, Server.workTop, Server.worker_addWorkers hpc,
        Server.setWorker_addWorkers hpc]
      rfl
  | getCompletion v =>
      obtain ⟨c, rest, hpc, hq, rfl⟩ := Server.getCompletion_some h
      have hq' : (s.addWorkers l).os.completions = c :: rest := hq
      simp only [step, Server.getCompletion, Server.worker_addWorkers hpc, hq',
        Server.setWorker_addWorkers hpc]
      rfl
  | closeSocket v =>
      obtain ⟨c, ctx, hpc, hctx, rfl⟩ := Server.closeSocket_some h
      have hctx' : (s.addWorkers l).contexts[c.key]? = some ctx := hctx
      simp only [step, Server.closeSocket, Server.worker_addWorkers hpc, hctx',
        Server.setWorker_addWorkers hpc]
      rfl
  | forgetSocket v =>
      obtain ⟨c, hpc, rfl⟩ := Server.forgetSocket_some h
      have hset := Server.setWorker_addWorkers (s := s.modifyContext c.key (·.forgetSocket))
        (l := l) hpc .top
      simp only [step, Server.forgetSocket, Server.worker_addWorkers hpc]
      exact congrArg some hset
  | deSerialize v =>
      obtain ⟨c, ctx, hpc, hctx, hd⟩ := Server.deSerialize_some h
      have hctx' : (s.addWorkers l).contexts[c.key]? = some ctx := hctx
      simp only [step, Server.deSerialize, Server.worker_addWorkers hpc, hctx']
      rcases hd with ⟨hd, rfl⟩ | ⟨packetID, dataSize, hd, rfl⟩
      · simp only [hd, Server.setWorker_addWorkers hpc]
      · simp only [hd, Server.dispatched, Server.setWorker_addWorkers hpc]
        rfl
  | workReceive v pending =>
      obtain ⟨c, hpc, hreceive⟩ := Server.workReceive_some h
      simp only [step, Server.workReceive, Server.worker_addWorkers hpc,
        Server.setWorker_addWorkers hpc]
      exact Server.receivePacket_addWorkers hreceive
  | _ => cases he

/-- **A step does not depend on worker threads that do not move**, unless `CloseThread` makes it. -/
theorem step_addWorkers {l : List WorkPc} (h : step cfg s e = some s') (he : e.thread ≠ .close) :
    step cfg (s.addWorkers l) e = some (s'.addWorkers l) := by
  cases e with
  | scanSlot =>
      obtain ⟨k, hpc, rfl⟩ := Server.scanSlot_some h
      simp [step, Server.scanSlot, Server.addWorkers, hpc]
  | wsaAccept r =>
      cases r with
      | none =>
          have h : s.wsaAccept cfg none = some s' := h
          obtain ⟨i, hpc, rfl⟩ := Server.wsaAccept_none_some h
          simp [step, Server.wsaAccept, Server.addWorkers, hpc]
      | some sock =>
          obtain ⟨i, hpc, hlisten, hnew, rfl⟩ := Server.wsaAccept_some_some h
          simp [step, Server.wsaAccept, Server.addWorkers, hpc, hlisten, hnew]
  | connectClient =>
      obtain ⟨i, sock, conn, hpc, rfl⟩ := Server.connectClient_some h
      simp [step, Server.connectClient, Server.addWorkers, Server.modifyContext, hpc]
  | checkConnected =>
      obtain ⟨i, sock, conn, c, hpc, hctx, ⟨hc, rfl⟩ | ⟨hc, rfl⟩⟩ :=
        Server.checkConnected_some h <;>
        simp [step, Server.checkConnected, Server.addWorkers, hpc, hctx, hc]
  | countClient =>
      obtain ⟨i, conn, hpc, rfl⟩ := Server.countClient_some h
      simp [step, Server.countClient, Server.addWorkers, hpc]
  | greetClient =>
      obtain ⟨i, conn, c, hpc, hctx, rfl⟩ := Server.greetClient_some h
      simp [step, Server.greetClient, Server.addWorkers, hpc, hctx]
  | acceptReceive pending =>
      obtain ⟨i, conn, hpc, hreceive⟩ := Server.acceptReceive_some h
      have hpc' : (s.addWorkers l).acceptThread = .arming i conn := hpc
      simp only [step, Server.acceptReceive, hpc']
      exact Server.receivePacket_addWorkers hreceive
  | workTop w | getCompletion w | closeSocket w | forgetSocket w | deSerialize w =>
      exact work_addWorkers h rfl
  | workReceive w pending => exact work_addWorkers h rfl
  | completeRecv k bSuccess data =>
      obtain ⟨r, hr, hlen, hopen, rfl⟩ := Server.completeRecv_some h
      have hr' : (s.addWorkers l).os.outstanding[k]? = some r := hr
      simp only [step, Server.completeRecv, hr']
      exact if_pos ⟨hlen, hopen⟩
  | sendTop =>
      obtain ⟨hpc, rfl⟩ := Server.sendTop_some h
      simp [step, Server.sendTop, Server.addWorkers, hpc]
  | popPacket =>
      obtain ⟨hpc, rfl⟩ := Server.popPacket_some h
      simp [step, Server.popPacket, Server.addWorkers, hpc]
  | sendPacket =>
      obtain ⟨q, conn, hpc, rfl⟩ := Server.sendPacket_some h
      simp [step, Server.sendPacket, Server.addWorkers, hpc]
  | sendCopy =>
      obtain ⟨q, conn, hpc, rfl⟩ := Server.sendCopy_some h
      simp [step, Server.sendCopy, Server.addWorkers, Server.modifyContext, hpc]
  | sendWsa r =>
      obtain ⟨q, conn, hpc, hr, rfl⟩ := Server.sendWsa_some h
      have hr' : (s.addWorkers l).wsaSendReturns q.packetIndex.toNat q.bufferSize.toNat r = true :=
        hr
      have hpc' : (s.addWorkers l).sendThread = .sending q conn := hpc
      simp only [step, Server.sendWsa, hpc', hr', if_true]
      rfl
  | bcTop =>
      obtain ⟨hpc, rfl⟩ := Server.bcTop_some h
      simp [step, Server.bcTop, Server.addWorkers, hpc]
  | popBCPacket =>
      obtain ⟨hpc, rfl⟩ := Server.popBCPacket_some h
      simp [step, Server.popBCPacket, Server.addWorkers, hpc]
  | bcTest =>
      obtain ⟨q, i, hpc, rfl⟩ := Server.bcTest_some h
      simp [step, Server.bcTest, Server.addWorkers, hpc]
  | bcCopy =>
      obtain ⟨q, i, hpc, rfl⟩ := Server.bcCopy_some h
      simp [step, Server.bcCopy, Server.addWorkers, Server.modifyContext, hpc]
  | bcWsa r =>
      obtain ⟨q, i, hpc, hr, rfl⟩ := Server.bcWsa_some h
      have hr' : (s.addWorkers l).wsaSendReturns i q.bufferSize.toNat r = true := hr
      have hpc' : (s.addWorkers l).broadCastThread = .sending q i := hpc
      simp only [step, Server.bcWsa, hpc', hr', if_true]
      rfl
  | disconnect i =>
      obtain ⟨c, hctx, hconn, rfl⟩ := Server.disconnect_some h
      simp [step, Server.disconnect, Server.addWorkers, hctx, hconn]
  | disconnectForget k =>
      obtain ⟨i, hi, rfl⟩ := Server.disconnectForget_some h
      simp [step, Server.disconnectForget, Server.addWorkers, Server.modifyContext, hi]
  | closeThreads => exact absurd rfl he

/-! ### What is held of Winsock -/

namespace Process

/-- The listening socket is open, bound, listening and non-blocking. -/
def Listening (p : Process) (sock : Socket) : Prop :=
  p.winsock = 1 ∧ p.listenSocket = some sock ∧
    p.listener = some ⟨sock, some serverPort, some sockMaxConn, true⟩

/-- Nothing is held, and the server has not been touched. -/
def Released (p : Process) : Prop :=
  p.winsock = 0 ∧ p.listener = none ∧ p.server.contexts = [] ∧ p.server.workThreads = []

/-- The server has not been touched, but the listening socket and Winsock are still held. -/
def Leaked (p : Process) : Prop :=
  p.winsock = 1 ∧ (∃ sock, p.listener = some ⟨sock, some serverPort, some sockMaxConn, false⟩) ∧
    p.server.contexts = [] ∧ p.server.workThreads = []

/-- The number of threads that the loop of `CreateWorkThread` creates. -/
def workerCount (p : Process) : ℕ := p.maxWorkThreadCount.toInt.toNat

/-- **The server with the worker threads that are still to be created.** -/
def complete (p : Process) : Server :=
  p.server.addWorkers (List.replicate (p.workerCount - p.server.workThreads.length) .top)

end Process

/-- A line that ends the loop of `main`. -/
def IsQuit (line : String) : Prop := line = "quit" ∨ line = "QUIT"

instance (line : String) : Decidable (IsQuit line) := inferInstanceAs (Decidable (_ ∨ _))

/-- The lines that `main` has read. -/
def linesRead (_ : Process) : ProcessEvent → List String
  | .getline line => [line]
  | _ => []

/-- The process with a log of the lines. -/
abbrev processSystem (R : Runtime) : Process × List String → ProcessEvent →
    Option (Process × List String) := logged (processStep R) linesRead

/-! ### The stages of a run -/

/-- The slots have been created, and the threads are being created or run. -/
structure Running (R : Runtime) (p : Process) : Prop where
  reach : ∃ sock mem, p.Listening sock ∧
    Reach (step ⟨R, sock⟩) (fun _ _ => True) (initServer mem clientMax p.workerCount) p.complete
  length : p.server.workThreads.length ≤ p.workerCount
  full : p.main ≠ .createAcceptThread → p.main ≠ .createWorkThread →
    p.workerCount ≤ p.server.workThreads.length

/-- **How far the process is**, and which lines have been read. -/
inductive Stage (R : Runtime) : Process → List String → Prop
  | starting : Stage R {} []
  | noSocket : Stage R { main := .wsaSocket, winsock := 1 } []
  | unbound (sock : Socket) : Stage R
      { main := .bind, winsock := 1, listenSocket := some sock
        listener := some ⟨sock, none, none, false⟩ } []
  | bound (sock : Socket) : Stage R
      { main := .listen, winsock := 1, listenSocket := some sock
        listener := some ⟨sock, some serverPort, none, false⟩ } []
  | blocking (sock : Socket) : Stage R
      { main := .ioctlsocket, winsock := 1, listenSocket := some sock
        listener := some ⟨sock, some serverPort, some sockMaxConn, false⟩ } []
  | listening (sock : Socket) : Stage R
      { main := .initServer, winsock := 1, listenSocket := some sock
        listener := some ⟨sock, some serverPort, some sockMaxConn, true⟩ } []
  | failed {p : Process} (hmain : p.main = .returned) (hp : p.Released ∨ p.Leaked) : Stage R p []
  | running {p : Process} {lines : List String} (hrun : Running R p)
      (hmain : p.main = .createAcceptThread ∨ p.created .accept = true)
      (hlines : ∀ line ∈ lines, ¬ IsQuit line) : Stage R p lines
  | quit {p : Process} {lines : List String} {line : String} (hrun : Running R p)
      (hmain : p.main = .returned) (hlines : ∀ line ∈ lines, ¬ IsQuit line) (hline : IsQuit line) :
      Stage R p (lines ++ [line])

/-- Behind the end of `main` nothing happens. -/
theorem not_processStep_of_returned {e : ProcessEvent} (hmain : p.main = .returned)
    (h : processStep R p e = some p') : False := by
  cases e with
  | server e =>
      have hcreated : p.created e.thread = false := by
        cases e.thread <;> simp [Process.created, hmain]
      simp only [processStep, Process.serverStep, hcreated] at h
      split at h <;> cases h
  | wsaStartup r => simp [processStep, Process.wsaStartup, hmain] at h
  | wsaSocket r => simp [processStep, Process.wsaSocket, hmain] at h
  | bind r => simp [processStep, Process.bind, hmain] at h
  | listen r => simp [processStep, Process.listen, hmain] at h
  | ioctlsocket r => simp [processStep, Process.ioctlsocket, hmain] at h
  | initServer mem k => simp [processStep, Process.initServer, hmain] at h
  | createThread => simp [processStep, Process.createThread, hmain] at h
  | getline line => simp [processStep, Process.getline, hmain] at h

/-- Nor does a thread move that has not been created. -/
theorem not_serverStep_of_opening (h : processStep R p (.server e) = some p')
    (hcreated : p.created .accept = false) : False := by
  have hnone : p.created e.thread = false := by
    have hmain : p.main ≠ .createSendBroadCastThread ∧ p.main ≠ .getline := by
      constructor <;> intro hmain <;> simp [Process.created, hmain] at hcreated
    cases hthread : e.thread with
    | accept | work w | os | disconnect => exact hcreated
    | send => simp [Process.created, hmain.1, hmain.2]
    | broadCast | close => simp [Process.created, hmain.2]
  simp only [processStep, Process.serverStep, hnone] at h
  split at h <;> cases h

theorem length_workThreads_of_step (h : step cfg s e = some s') :
    s'.workThreads.length = s.workThreads.length := by
  rcases step_workThreads h with ⟨hsame, -⟩ | ⟨w, pc, pc', -, -, hset⟩
  · rw [hsame]
  · rw [hset, List.length_set]

/-- When all worker threads have been created, the server is complete. -/
theorem Process.complete_eq (hfull : p.workerCount ≤ p.server.workThreads.length) :
    p.complete = p.server := by
  rw [Process.complete, Nat.sub_eq_zero_of_le hfull]
  simp [Server.addWorkers]

namespace Running

/-- A thread moves. -/
theorem server_step (hrun : Running R p) (h : p.serverStep R e = some p') :
    Running R p' ∧ p'.main = p.main := by
  obtain ⟨sock, mem, hlisten, hreach⟩ := hrun.reach
  simp only [Process.serverStep, hlisten.2.1] at h
  by_cases hcreated : p.created e.thread = true
  · rw [if_pos hcreated] at h
    obtain ⟨s', hstep, rfl⟩ := Option.map_eq_some_iff.1 h
    have hlength := length_workThreads_of_step hstep
    refine ⟨⟨⟨sock, mem, hlisten, hreach.tail (e := e) trivial ?_⟩, hlength.symm ▸ hrun.length,
      fun hmain hmain' => hlength.symm ▸ hrun.full hmain hmain'⟩, rfl⟩
    by_cases he : e.thread = .close
    · -- `CloseThread` finds all threads created
      have hmain : p.main = .getline := by simpa [Process.created, he] using hcreated
      have hfull := hrun.full (by simp [hmain]) (by simp [hmain])
      rw [Process.complete_eq hfull, hstep, Process.complete_eq (p := p.setServer s')]
      · rfl
      · exact hlength.symm ▸ hfull
    · rw [Process.complete, step_addWorkers hstep he, ← hlength]
      rfl
  · rw [if_neg hcreated] at h
    cases h

/-- The next thread is created. -/
theorem createThread_step (hrun : Running R p) (h : p.createThread = some p') :
    Running R p' ∧ p'.created .accept = true := by
  obtain ⟨sock, mem, hlisten, hreach⟩ := hrun.reach
  simp only [Process.createThread] at h
  cases hmain : p.main with
  | createAcceptThread =>
      simp only [hmain, Option.some.injEq] at h
      subst h
      exact ⟨⟨⟨sock, mem, hlisten, hreach⟩, hrun.length, by simp⟩, by simp [Process.created]⟩
  | createWorkThread =>
      simp only [hmain] at h
      by_cases hmore : (p.server.workThreads.length : ℤ) < p.maxWorkThreadCount.toInt
      · rw [if_pos hmore] at h
        obtain rfl := Option.some.inj h
        have hlt : p.server.workThreads.length < p.workerCount := by
          rw [Process.workerCount]
          omega
        -- the new thread is one of those that were still to be created
        have hcomplete : p.complete = (p.setServer { p.server with
            workThreads := p.server.workThreads ++ [.top] }).complete := by
          have hsucc : p.workerCount - p.server.workThreads.length =
              (p.workerCount - (p.server.workThreads.length + 1)) + 1 := by omega
          rw [Process.complete, hsucc, List.replicate_succ]
          simp [Process.complete, Process.setServer, Server.addWorkers, Process.workerCount]
        refine ⟨⟨⟨sock, mem, hlisten, hcomplete ▸ hreach⟩, ?_, fun _ hne => absurd hmain hne⟩, ?_⟩
        · rw [Process.setServer, List.length_append, List.length_singleton]
          exact hlt
        · simp [Process.created, Process.setServer, hmain]
      · rw [if_neg hmore] at h
        obtain rfl := Option.some.inj h
        refine ⟨⟨⟨sock, mem, hlisten, hreach⟩, hrun.length, fun _ _ => ?_⟩,
          by simp [Process.created]⟩
        simp only [Process.workerCount]
        omega
  | createSendThread =>
      simp only [hmain, Option.some.injEq] at h
      subst h
      have hfull := hrun.full (by simp [hmain]) (by simp [hmain])
      exact ⟨⟨⟨sock, mem, hlisten, hreach⟩, hrun.length, fun _ _ => hfull⟩,
        by simp [Process.created]⟩
  | createSendBroadCastThread =>
      simp only [hmain, Option.some.injEq] at h
      subst h
      have hfull := hrun.full (by simp [hmain]) (by simp [hmain])
      exact ⟨⟨⟨sock, mem, hlisten, hreach⟩, hrun.length, fun _ _ => hfull⟩,
        by simp [Process.created]⟩
  | _ => simp [hmain] at h

end Running

/-- Behind `InitServer` there are only the loops of `CreateWorkThread` and of `main`, and the
threads. -/
theorem running_event {d : ProcessEvent} (h : processStep R p d = some p')
    (hmain : p.main = .createAcceptThread ∨ p.created .accept = true) :
    d = .createThread ∨ (∃ line, d = .getline line) ∨ ∃ e, d = .server e := by
  have hpc : p.main = .createAcceptThread ∨ p.main = .createWorkThread ∨
      p.main = .createSendThread ∨ p.main = .createSendBroadCastThread ∨ p.main = .getline := by
    simpa [Process.created] using hmain
  cases d with
  | createThread => exact Or.inl rfl
  | getline line => exact Or.inr (Or.inl ⟨line, rfl⟩)
  | server e => exact Or.inr (Or.inr ⟨e, rfl⟩)
  | wsaStartup r =>
      rcases hpc with hpc | hpc | hpc | hpc | hpc <;>
        simp [processStep, Process.wsaStartup, hpc] at h
  | wsaSocket r =>
      rcases hpc with hpc | hpc | hpc | hpc | hpc <;>
        simp [processStep, Process.wsaSocket, hpc] at h
  | bind r =>
      rcases hpc with hpc | hpc | hpc | hpc | hpc <;> simp [processStep, Process.bind, hpc] at h
  | listen r =>
      rcases hpc with hpc | hpc | hpc | hpc | hpc <;> simp [processStep, Process.listen, hpc] at h
  | ioctlsocket r =>
      rcases hpc with hpc | hpc | hpc | hpc | hpc <;>
        simp [processStep, Process.ioctlsocket, hpc] at h
  | initServer mem k =>
      rcases hpc with hpc | hpc | hpc | hpc | hpc <;>
        simp [processStep, Process.initServer, hpc] at h

namespace Stage

variable {lines : List String} {d : ProcessEvent}

/-- `main` opens the listening socket. -/
theorem step (hs : Stage R p lines) (h : processStep R p d = some p') :
    Stage R p' (lines ++ linesRead p d) := by
  cases hs with
  | starting =>
      cases d with
      | wsaStartup r =>
          by_cases hr : r ≠ 0
          · obtain rfl := Option.some.inj ((if_pos hr).symm.trans h)
            exact .failed rfl (Or.inl ⟨rfl, rfl, rfl, rfl⟩)
          · obtain rfl := Option.some.inj ((if_neg hr).symm.trans h)
            exact .noSocket
      | _ => cases h
  | noSocket =>
      cases d with
      | wsaSocket r =>
          cases r with
          | none =>
              obtain rfl := Option.some.inj h
              exact .failed rfl (Or.inl ⟨rfl, rfl, rfl, rfl⟩)
          | some sock =>
              obtain rfl := Option.some.inj h
              exact .unbound sock
      | _ => cases h
  | unbound sock =>
      cases d with
      | bind r =>
          by_cases hr : r ≠ 0
          · obtain rfl := Option.some.inj ((if_pos hr).symm.trans h)
            exact .failed rfl (Or.inl ⟨rfl, rfl, rfl, rfl⟩)
          · obtain rfl := Option.some.inj ((if_neg hr).symm.trans h)
            exact .bound sock
      | server e => exact (not_serverStep_of_opening h rfl).elim
      | _ => cases h
  | bound sock =>
      cases d with
      | listen r =>
          by_cases hr : r ≠ 0
          · obtain rfl := Option.some.inj ((if_pos hr).symm.trans h)
            exact .failed rfl (Or.inl ⟨rfl, rfl, rfl, rfl⟩)
          · obtain rfl := Option.some.inj ((if_neg hr).symm.trans h)
            exact .blocking sock
      | server e => exact (not_serverStep_of_opening h rfl).elim
      | _ => cases h
  | blocking sock =>
      cases d with
      | ioctlsocket r =>
          by_cases hr : r.toInt64.toUInt64 = invalidSocket
          · obtain rfl := Option.some.inj ((if_pos hr).symm.trans h)
            exact .failed rfl (Or.inr ⟨rfl, ⟨sock, rfl⟩, rfl, rfl⟩)
          · obtain rfl := Option.some.inj ((if_neg hr).symm.trans h)
            exact .listening sock
      | server e => exact (not_serverStep_of_opening h rfl).elim
      | _ => cases h
  | listening sock =>
      cases d with
      | initServer mem k =>
          obtain rfl := Option.some.inj h
          refine .running ⟨⟨sock, mem, ⟨rfl, rfl, rfl⟩, ?_⟩, Nat.zero_le _, fun hne => absurd rfl hne⟩
            (Or.inl rfl) (by simp [linesRead])
          exact Reach.refl
      | server e => exact (not_serverStep_of_opening h rfl).elim
      | _ => cases h
  | failed hmain _ => exact (not_processStep_of_returned hmain h).elim
  | quit _ hmain _ _ => exact (not_processStep_of_returned hmain h).elim
  | running hrun hmain hlines =>
      rcases running_event h hmain with rfl | ⟨line, rfl⟩ | ⟨e, rfl⟩
      · obtain ⟨hrun', hcreated⟩ := hrun.createThread_step h
        simp only [linesRead, List.append_nil]
        exact .running hrun' (Or.inr hcreated) hlines
      · have h : p.getline line = some p' := h
        simp only [Process.getline] at h
        split at h
        · next hgetline =>
            have hfull := hrun.full (by simp [hgetline]) (by simp [hgetline])
            obtain rfl := Option.some.inj h
            by_cases hline : line = "quit" ∨ line = "QUIT"
            · rw [if_pos hline]
              exact .quit ⟨hrun.reach, hrun.length, fun _ _ => hfull⟩ rfl hlines hline
            · rw [if_neg hline]
              refine .running hrun hmain fun l hl => ?_
              rcases List.mem_append.1 hl with hold | hnew
              · exact hlines l hold
              · rw [List.mem_singleton.1 hnew]
                exact hline
        · cases h
      · obtain ⟨hrun', hmain'⟩ := hrun.server_step h
        simp only [linesRead, List.append_nil]
        refine .running hrun' ?_ hlines
        simpa only [Process.created, hmain'] using hmain

/-- **The stages of all runs.** -/
theorem of_reach {P : Process × List String → ProcessEvent → Prop}
    (h : Reach (processSystem R) P ({}, []) (p, lines)) : Stage R p lines :=
  h.logged_invariant (I := Stage R) .starting fun _ _ _ _ hs _ hstep => hs.step hstep

end Stage

/-- **A run of the program is a run of the server.**  The completion port exists; whatever the
other calls of the startup answer, and whichever threads have been created when the others move: in
every state of the process in which a thread exists, the server, with the worker threads that are
still to be created, has been reached by a run of the server that starts with `CLIENT_MAX` slots and
with all threads.  Once `main` has created the last thread this is the server itself. -/
theorem process_runs_server (R : Runtime) (h : Reach (processStep R) (fun _ _ => True) {} p)
    (hcreated : p.created .accept = true) :
    ∃ sock mem, p.listenSocket = some sock ∧
      Reach (step ⟨R, sock⟩) (fun _ _ => True) (initServer mem clientMax p.workerCount) p.complete ∧
      p.server.workThreads.length ≤ p.workerCount ∧
      (p.main = .getline → p.complete = p.server) := by
  obtain ⟨lines, hlogged⟩ := h.exists_log linesRead []
  cases Stage.of_reach hlogged with
  | running hrun _ _ =>
      obtain ⟨sock, mem, hlisten, hreach⟩ := hrun.reach
      refine ⟨sock, mem, hlisten.2.1, hreach, hrun.length, fun hmain => ?_⟩
      exact Process.complete_eq (hrun.full (by simp [hmain]) (by simp [hmain]))
  | failed hmain _ | quit _ hmain _ _ => simp [Process.created, hmain] at hcreated
  | _ => cases hcreated

/-- The calls of a startup that succeeds, on a machine with one processor. -/
def startupEvents (sock : Socket) : List ProcessEvent :=
  [.wsaStartup 0, .wsaSocket (some sock), .bind 0, .listen 0, .ioctlsocket 0,
    .initServer (fun _ _ => 0) 1]

/-- The accept thread finds a free slot when one of three worker threads has been created. -/
theorem accepting_during_startup :
    ∃ p mem, Reach (processStep wireRuntime) (fun _ _ => True) {} p ∧ p.server.workThreads.length = 1 ∧
      p.complete.acceptThread = .accepting 0 ∧
      Reach (step ⟨wireRuntime, 5⟩) (fun _ _ => True) (initServer mem clientMax 3) p.complete := by
  obtain ⟨p, hreach, hp⟩ := Reach.exists_of_run (processStep wireRuntime) {}
    (startupEvents 5 ++ [.createThread, .createThread, .server .scanSlot])
    (fun p : Process => (p.created .accept, p.server.workThreads.length, p.workerCount,
      p.server.acceptThread, p.listenSocket))
    (x := (true, 1, 3, .accepting 0, some 5)) (by decide +kernel)
  simp only [Prod.mk.injEq] at hp
  obtain ⟨hcreated, hlength, hcount, haccept, hsock⟩ := hp
  obtain ⟨sock, mem, hsock', hrun, -⟩ := process_runs_server wireRuntime hreach hcreated
  obtain rfl : sock = 5 := Option.some.inj (hsock'.symm.trans hsock)
  rw [hcount] at hrun
  exact ⟨p, mem, hreach, hlength, haccept, hrun⟩

/-- **How a startup ends.**  In every run of the process, whatever the calls of the startup answer:
a thread exists only while Winsock is started and the listening socket is open, bound to
`SERVER_PORT`, listening with `SOCK_MAXCONN` and non-blocking.  When `main` has returned, then
either the startup has failed and no slot and no thread has been created, with nothing held or, when
`ioctlsocket` has failed, with the listening socket and Winsock still held; or the server has been
started, and the last line read, and no earlier one, was `quit` or `QUIT`. -/
theorem startup_outcomes (R : Runtime) {lines : List String}
    (h : Reach (processSystem R) (fun _ _ => True) ({}, []) (p, lines)) :
    (∀ t, p.created t = true → ∃ sock, p.Listening sock) ∧
      (p.main = .returned → lines = [] ∧ (p.Released ∨ p.Leaked) ∨
        (∃ sock, p.Listening sock) ∧ ∃ earlier line, lines = earlier ++ [line] ∧ IsQuit line ∧
          ∀ l ∈ earlier, ¬ IsQuit l) := by
  have hstage := Stage.of_reach h
  constructor
  · intro t ht
    cases hstage with
    | running hrun _ _ =>
        obtain ⟨sock, mem, hlisten, -⟩ := hrun.reach
        exact ⟨sock, hlisten⟩
    | failed hmain _ | quit _ hmain _ _ =>
        cases t <;> simp [Process.created, hmain] at ht
    | _ => cases t <;> cases ht
  · intro hmain
    cases hstage with
    | failed _ hp => exact Or.inl ⟨rfl, hp⟩
    | quit hrun _ hlines hline =>
        obtain ⟨sock, mem, hlisten, -⟩ := hrun.reach
        exact Or.inr ⟨⟨sock, hlisten⟩, _, _, rfl, hline, hlines⟩
    | running _ hmain' _ => simp [Process.created, hmain] at hmain'
    | _ => cases hmain

/-- `ioctlsocket` fails: the listening socket is not closed.  In another run a line ends the
server. -/
theorem startup_leaks_and_quits :
    (∃ p, Reach (processSystem wireRuntime) (fun _ _ => True) ({}, []) (p, []) ∧ p.main = .returned ∧
        p.winsock = 1 ∧ p.Leaked) ∧
      ∃ p, Reach (processSystem wireRuntime) (fun _ _ => True) ({}, []) (p, ["help", "quit"]) ∧
        p.main = .returned ∧ ∃ sock, p.Listening sock := by
  constructor
  · obtain ⟨⟨p, lines⟩, hreach, hp⟩ := Reach.exists_of_run (processSystem wireRuntime) ({}, [])
      [.wsaStartup 0, .wsaSocket (some 5), .bind 0, .listen 0, .ioctlsocket (-1)]
      (fun x : Process × List String => (x.2, x.1.main, x.1.winsock, x.1.listener))
      (x := ([], .returned, 1, some ⟨5, some serverPort, some sockMaxConn, false⟩))
      (by decide +kernel)
    simp only [Prod.mk.injEq] at hp
    obtain ⟨rfl, hmain, hwinsock, hlistener⟩ := hp
    refine ⟨p, hreach, hmain, hwinsock, ?_⟩
    rcases (startup_outcomes wireRuntime hreach).2 hmain with ⟨-, hreleased | hleaked⟩ | ⟨⟨sock, hlisten⟩, -⟩
    · rw [hreleased.1] at hwinsock
      cases hwinsock
    · exact hleaked
    · rw [hlisten.2.2] at hlistener
      simp at hlistener
  · obtain ⟨⟨p, lines⟩, hreach, hp⟩ := Reach.exists_of_run (processSystem wireRuntime) ({}, [])
      (startupEvents 5 ++ List.replicate 7 .createThread ++ [.getline "help", .getline "quit"])
      (fun x : Process × List String => (x.2, x.1.main)) (x := (["help", "quit"], .returned))
      (by decide +kernel)
    obtain ⟨rfl, hmain⟩ := Prod.mk.inj hp
    refine ⟨p, hreach, hmain, ?_⟩
    rcases (startup_outcomes wireRuntime hreach).2 hmain with ⟨hlines, -⟩ | ⟨hlisten, -⟩
    · cases hlines
    · exact hlisten

end IocpDemo
