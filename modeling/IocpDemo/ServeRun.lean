/-
**One client served by one worker thread, in a run of the whole server.**

`IocpDemo/Framing.lean` describes the iterations of `WorkThread` on one context as a function of the
bytes of the completions.  Here the same iterations are steps of the server: the receive completes,
a worker thread fetches the completion, dispatches it, and issues the receive anew.  A run that does
nothing else makes exactly the calls of `DeSerializePacket` that the function lists, so what was
proved of the function holds of the server.

Main definitions:

* `IocpDemo.Serving` — the part of the state that serving one client depends on;
* `IocpDemo.handleCalls` — the calls of `DeSerializePacket`, one after the other.

Main results:

* `IocpDemo.Serving.serve_segments` — **the server makes the calls of `serveCompletions`**;
* `IocpDemo.Serving.serve_append` — what follows the first frame of a segment is never handled;
* `IocpDemo.frames_handled_in_order` — the frames of a client that sends each of them in a segment
  of its own are all handled, in order.
-/

import IocpDemo.Framing
import IocpDemo.Steps
import IocpDemo.Transition
import IocpDemo.WireFormat

set_option relaxedAutoImplicit false
set_option autoImplicit false

namespace IocpDemo

open Bytes Transition Wire

variable {cfg : Config} {s : Server} {i conn : ℕ} {c : ClientContext}

/-! ### The state while one client is served -/

/-- The context `i` is `c` and belongs to the connection `conn`, the first worker thread is at `pc`,
and `out` and `com` are the outstanding receives and the queued completions. -/
structure Serving (cfg : Config) (i conn : ℕ) (c : ClientContext) (pc : WorkPc)
    (out : List PendingRecv) (com : List Completion) (s : Server) : Prop where
  context : s.contexts[i]? = some c
  client : c.socket ≠ some cfg.listenSocket
  connOf : c.socket.bind s.os.connOf = some conn
  key : s.os.keys conn = i
  worker : s.workThreads[0]? = some pc
  running : s.isWorkThreadRun = true
  outstanding : s.os.outstanding = out
  completions : s.os.completions = com

/-- The calls of `DeSerializePacket`, one after the other. -/
def handleCalls (R : Runtime) (calls : List (UInt16 × List UInt8)) (q : SendQue) : SendQue :=
  calls.foldl (fun q call => deSerializePacket R call.1 call.2 q) q

namespace Serving

variable {pc : WorkPc} {out : List PendingRecv} {com : List Completion}

theorem isOpen (hs : Serving cfg i conn c pc out com s) : s.os.isOpen conn = true := by
  obtain ⟨sock, -, hlookup⟩ := Option.bind_eq_some_iff.1 hs.connOf
  obtain ⟨l₁, l₂, heq, -⟩ := List.lookup_eq_some_iff.1 hlookup
  rw [OS.isOpen, List.any_eq_true]
  exact ⟨(sock, conn), by rw [heq]; simp, by simp⟩

/-- Moving the worker thread. -/
theorem worker_set (hs : Serving cfg i conn c pc out com s) (pc' : WorkPc) :
    (s.workThreads.set 0 pc')[0]? = some pc' :=
  List.getElem?_set_self (List.getElem?_eq_some_iff.1 hs.worker).1

/-! ### The five steps of an iteration -/

theorem complete {r : PendingRecv} (hs : Serving cfg i conn c .top [r] [] s) (hr : r = ⟨i, i, conn⟩)
    {data : List UInt8} (hlen : data.length ≤ maxPacketBuf) :
    ∃ t, step cfg s (.completeRecv 0 true data) = some t ∧ t.que = s.que ∧
      Serving cfg i conn (c.completeRecv data) .top [] [⟨i, true, data, conn⟩] t := by
  subst hr
  have hstep : step cfg s (.completeRecv 0 true data) =
      some { s.modifyContext i (·.completeRecv data) with
        os := { s.os with outstanding := [], completions := [⟨i, true, data, conn⟩] } } := by
    simp [step, Server.completeRecv, hs.outstanding, hs.completions, hs.isOpen, hlen]
  refine ⟨_, hstep, rfl, ?_, hs.client, hs.connOf, hs.key, hs.worker, hs.running, rfl, rfl⟩
  simp [Server.modifyContext, hs.context]

theorem enter (hs : Serving cfg i conn c .top out com s) :
    ∃ t, step cfg s (.workTop 0) = some t ∧ t.que = s.que ∧
      Serving cfg i conn c .waiting out com t := by
  have hstep : step cfg s (.workTop 0) = some (s.setWorker 0 .waiting) := by
    simp [step, Server.workTop, hs.worker, hs.running]
  exact ⟨_, hstep, rfl, hs.context, hs.client, hs.connOf, hs.key, hs.worker_set _, hs.running,
    hs.outstanding, hs.completions⟩

theorem fetch {d : Completion} (hs : Serving cfg i conn c .waiting out [d] s)
    (hd : 0 < d.data.length) :
    ∃ t, step cfg s (.getCompletion 0) = some t ∧ t.que = s.que ∧
      Serving cfg i conn c (.received d) out [] t := by
  have hbranch : Server.afterCompletion d = .received d := by
    rw [Server.afterCompletion, workBranch_received _ hd]
  have hstep : step cfg s (.getCompletion 0) =
      some { s.setWorker 0 (.received d) with os := { s.os with completions := [] } } := by
    simp [step, Server.getCompletion, hs.worker, hs.completions, hbranch]
  exact ⟨_, hstep, rfl, hs.context, hs.client, hs.connOf, hs.key, hs.worker_set _, hs.running,
    hs.outstanding, rfl⟩

theorem dispatch {d : Completion} (hs : Serving cfg i conn c (.received d) out com s)
    (hkey : d.key = i) {packetID dataSize : UInt16}
    (hd : dispatchOf cfg.listenSocket c = some (packetID, dataSize)) :
    ∃ t, step cfg s (.deSerialize 0) = some t ∧
      t.que = deSerializePacket cfg.runtime packetID (payloadOf c dataSize) s.que ∧
      Serving cfg i conn c (.rearming d) out com t := by
  have hstep : step cfg s (.deSerialize 0) =
      some (s.dispatched cfg 0 d packetID (payloadOf c dataSize)) := by
    simp [step, Server.deSerialize, hs.worker, hkey, hs.context, hd]
  exact ⟨_, hstep, rfl, hs.context, hs.client, hs.connOf, hs.key, hs.worker_set _, hs.running,
    hs.outstanding, hs.completions⟩

theorem rearm {d : Completion} (hs : Serving cfg i conn c (.rearming d) [] com s)
    (hkey : d.key = i) :
    ∃ t, step cfg s (.workReceive 0 true) = some t ∧ t.que = s.que ∧
      Serving cfg i conn c.zeroRecvBuf .top [⟨i, i, conn⟩] com t := by
  have hstep : step cfg s (.workReceive 0 true) =
      some { (s.setWorker 0 .top).modifyContext i (·.zeroRecvBuf) with
        os := { s.os with outstanding := [⟨i, i, conn⟩] } } := by
    simp [step, Server.workReceive, Server.receivePacket, Server.setWorker, Server.modifyContext,
      hs.worker, hkey, hs.context, hs.connOf, hs.key, hs.outstanding]
  refine ⟨_, hstep, rfl, ?_, hs.client, hs.connOf, hs.key, hs.worker_set _, hs.running, rfl,
    hs.completions⟩
  simp [Server.modifyContext, Server.setWorker, hs.context]

/-! ### A run over segments -/

/-- **One segment**: the server makes the call of `serveCompletion`, and is ready for the next
one. -/
theorem serve_segment (hs : Serving cfg i conn c .top [⟨i, i, conn⟩] [] s) (seg : Segment) :
    ∃ t, run (step cfg) s (serveEvents seg.bytes) = some t ∧
      t.que = handleCalls cfg.runtime
        (serveCompletion cfg.listenSocket c seg.bytes).1.toList s.que ∧
      Serving cfg i conn (serveCompletion cfg.listenSocket c seg.bytes).2 .top [⟨i, i, conn⟩] []
        t := by
  have hpos : 0 < seg.bytes.length := List.length_pos_iff.2 seg.nonempty
  have hd := dispatchOf_eq (c := c.completeRecv seg.bytes) hs.client
  -- the receive completes, and the worker thread goes once around its loop
  obtain ⟨s₁, h₁, hq₁, hs₁⟩ := hs.complete rfl seg.fits
  obtain ⟨s₂, h₂, hq₂, hs₂⟩ := hs₁.enter
  obtain ⟨s₃, h₃, hq₃, hs₃⟩ := hs₂.fetch hpos
  obtain ⟨s₄, h₄, hq₄, hs₄⟩ := hs₃.dispatch rfl hd
  obtain ⟨s₅, h₅, hq₅, hs₅⟩ := hs₄.rearm rfl
  refine ⟨s₅, ?_, ?_, ?_⟩
  · simp only [serveEvents, run_cons, run_nil, h₁, h₂, h₃, h₄, h₅, Option.bind_some]
  · rw [hq₅, hq₄, hq₃, hq₂, hq₁]
    simp only [serveCompletion, workBranch_received _ hpos, hd]
    rfl
  · simp only [serveCompletion, workBranch_received _ hpos, hd]
    exact hs₅

/-- **A run of the server over segments makes the calls of `serveCompletions`.** -/
theorem serve_segments (hs : Serving cfg i conn c .top [⟨i, i, conn⟩] [] s)
    (segments : List Segment) :
    ∃ t, run (step cfg) s (segments.flatMap fun seg => serveEvents seg.bytes) = some t ∧
      t.que = handleCalls cfg.runtime
        (serveCompletions cfg.listenSocket c (segments.map Segment.bytes)) s.que := by
  -- each segment leaves a state in which the next one can be served
  induction segments generalizing s c with
  | nil => exact ⟨s, rfl, rfl⟩
  | cons seg segments ih =>
      obtain ⟨t, hrun, hque, ht⟩ := hs.serve_segment seg
      obtain ⟨u, hrun', hque'⟩ := ih ht
      refine ⟨u, run_append_some hrun hrun', ?_⟩
      rw [hque', hque, handleCalls, handleCalls, handleCalls, ← List.foldl_append]
      rfl

/-- **Whatever follows the first frame of a segment is never handled.** -/
theorem serve_append (hs : Serving cfg i conn c.zeroRecvBuf .top [⟨i, i, conn⟩] [] s) (f : Frame)
    (rest : List UInt8) (hfit : (f.encode ++ rest).length ≤ maxPacketBuf) :
    ∃ t, run (step cfg) s (serveEvents (f.encode ++ rest)) = some t ∧
      t.que = deSerializePacket cfg.runtime f.packetID f.payload s.que := by
  have hne : f.encode ++ rest ≠ [] := List.append_ne_nil_of_left_ne_nil f.marked_encode.ne_nil rest
  have hclient : c.socket ≠ some cfg.listenSocket := hs.client
  obtain ⟨t, hrun, hque, -⟩ := hs.serve_segment ⟨f.encode ++ rest, hne, hfit⟩
  refine ⟨t, hrun, ?_⟩
  rw [hque, serveCompletion_append hclient f rest hfit]
  rfl

end Serving

/-! ### Accepting a client -/

/-- The state behind `acceptEvents sock` on the slot `i`, whose context was `c`. -/
def Server.withClient (s : Server) (cfg : Config) (i : ℕ) (c : ClientContext) (sock : Socket) :
    Server :=
  { s with
    contexts := (s.contexts.modify i (·.connectClient sock)).modify i (·.zeroRecvBuf)
    que := onConnected cfg.runtime c.getIndex.toUInt16 s.que
    clientCount := s.clientCount + 1
    acceptThread := .scan 0
    os := { s.os with
      sockets := s.os.sockets ++ [(sock, s.os.accepted)]
      keys := Function.update s.os.keys s.os.accepted i
      accepted := s.os.accepted + 1
      outstanding := s.os.outstanding ++ [⟨i, i, s.os.accepted⟩] }
    history := { s.history with
      occupant := Function.update s.history.occupant i s.os.accepted
      owners := s.history.owners ++ [s.os.accepted] } }

theorem run_acceptEvents {sock : Socket} (hpc : s.acceptThread = .accepting i)
    (hctx : s.contexts[i]? = some c) (hlisten : sock ≠ cfg.listenSocket)
    (hnew : s.os.connOf sock = none) :
    run (step cfg) s (acceptEvents sock) = some (s.withClient cfg i c sock) := by
  have hconn : (c.connectClient sock).isConnected = true := rfl
  have hindex : (c.connectClient sock).getIndex = c.getIndex := rfl
  have hclosed : s.os.sockets.lookup sock = none := hnew
  have hopen : (s.os.sockets ++ [(sock, s.os.accepted)]).lookup sock = some s.os.accepted := by
    simp [List.lookup_append, hclosed]
  simp [acceptEvents, run_cons, step, Server.wsaAccept, Server.connectClient,
    Server.checkConnected, Server.countClient, Server.greetClient, Server.acceptReceive,
    Server.receivePacket, Server.modifyContext, Server.withClient, OS.connOf, hpc, hctx, hlisten,
    hclosed, hopen, hconn, hindex]

/-! ### From the start of the server on -/

/-- The first client of a server is accepted into slot 0. -/
theorem exists_serving (cfg : Config) (mem : ℕ → Mem) (n workers : ℕ) {sock : Socket}
    (hsock : sock ≠ cfg.listenSocket) :
    ∃ s c, run (step cfg) (initServer mem (n + 1) (workers + 1))
        (.scanSlot :: acceptEvents sock) = some s ∧
      s.que = onConnected cfg.runtime 0 {} ∧
      Serving cfg 0 0 (ClientContext.zeroRecvBuf c) .top [⟨0, 0, 0⟩] [] s := by
  obtain ⟨s₀, hs₀⟩ : ∃ s₀, s₀ = initServer mem (n + 1) (workers + 1) := ⟨_, rfl⟩
  have hctx : s₀.contexts[0]? = some ((ClientContext.create (mem 0)).init 0) := by
    simp [hs₀, initServer, createClient]
  have hfree : ((ClientContext.create (mem 0)).init 0).isConnected = false := rfl
  have hscan : step cfg s₀ .scanSlot = some { s₀ with acceptThread := .accepting 0 } := by
    simp [step, Server.scanSlot, Server.scanNext, hs₀, initServer, createClient, hfree]
  have hnew : s₀.os.connOf sock = none := by
    rw [hs₀]
    rfl
  have haccept := run_acceptEvents (s := { s₀ with acceptThread := .accepting 0 }) rfl hctx hsock
    hnew
  have hrun : run (step cfg) s₀ (.scanSlot :: acceptEvents sock) = some
      ({ s₀ with acceptThread := .accepting 0 }.withClient cfg 0
        ((ClientContext.create (mem 0)).init 0) sock) := by
    rw [run_cons, hscan, Option.bind_some, haccept]
  rw [← hs₀]
  refine ⟨_, ((ClientContext.create (mem 0)).init 0).connectClient sock, hrun, ?_, ?_⟩
  · rw [hs₀]
    rfl
  · rw [hs₀] at hctx ⊢
    refine ⟨?_, ?_, ?_, rfl, rfl, rfl, rfl, rfl⟩
    · simp [Server.withClient, hctx]
    · simpa using hsock
    · simp [Server.withClient, initServer, OS.connOf]

/-- **Frames in segments of their own are all handled, in order**, from the start of the server
on. -/
theorem frames_handled_in_order (cfg : Config) (mem : ℕ → Mem) (n workers : ℕ) {sock : Socket}
    (hsock : sock ≠ cfg.listenSocket) (frames : List Frame) :
    ∃ t, run (step cfg) (initServer mem (n + 1) (workers + 1))
        (.scanSlot :: acceptEvents sock ++ frames.flatMap fun f => serveEvents f.encode) = some t ∧
      t.que = handleCalls cfg.runtime (frames.map Frame.call) (onConnected cfg.runtime 0 {}) := by
  obtain ⟨s, c, hrun, hque, hs⟩ := exists_serving cfg mem n workers hsock
  obtain ⟨t, hrun', hque'⟩ := hs.serve_segments (frames.map Frame.segment)
  have hclient : c.socket ≠ some cfg.listenSocket := hs.client
  rw [List.flatMap_map] at hrun'
  refine ⟨t, run_append_some hrun hrun', ?_⟩
  rw [hque', hque, serveCompletions_segments hclient]

end IocpDemo
