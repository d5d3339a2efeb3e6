/-
**The server: its threads, its clients' slots and the operating system** (`IOCPServer.cpp`).

The accept thread, any number of worker threads, the two sender threads, callers of
`DisconnectSocket`, the caller of `CloseThread` and the operating system move one at a time.  A
thread is its program point; between two program points lies a stretch of code that no other thread
can observe half done, in most places a single statement.  What the operating system answers (an
accepted socket, a failed receive, a completion with its status and bytes, the result of a send) is
part of the event, so that a list of events is one interleaving.

A connection is numbered by the accept that made it.  Which connection a socket refers to is the
operating system's knowledge; `IocpDemo.History` keeps for the statements which connection was last
attached to a slot, for which connection each unicast packet was pushed, and which connections have
sent a login.  No step reads the history to decide what happens.

Main definitions:

* `IocpDemo.AcceptPc`, `IocpDemo.WorkPc`, `IocpDemo.SendPc`, `IocpDemo.BroadCastPc`,
  `IocpDemo.ClosePc` — the program points;
* `IocpDemo.OS` — open sockets, outstanding receives and the completion queue;
* `IocpDemo.Server`, `IocpDemo.initServer` — the state and the initial state;
* `IocpDemo.Event`, `IocpDemo.step` — the events and the step they make, if they are possible.
-/

import IocpDemo.ClientContext
import IocpDemo.SendQue

set_option relaxedAutoImplicit false
set_option autoImplicit false

namespace IocpDemo

open Bytes

/-! ### The operating system -/

/-- An outstanding receive: the completion key of its socket, the context whose buffer it fills, and
the connection it was issued for. -/
structure PendingRecv where
  key : ℕ
  buf : ℕ
  conn : ℕ
  deriving DecidableEq, Repr

/-- A completion: what `GetQueuedCompletionStatus` returns of it, the bytes it put into the receive
buffer, and the connection its receive was issued for. -/
structure Completion where
  key : ℕ
  bSuccess : Bool
  data : List UInt8
  conn : ℕ
  deriving DecidableEq, Repr

/-- What the server uses of the operating system. -/
structure OS where
  /-- The open client sockets, with the connection each refers to. -/
  sockets : List (Socket × ℕ) := []
  /-- The completion key each connection was associated with. -/
  keys : ℕ → ℕ := fun _ => 0
  /-- The number of connections accepted. -/
  accepted : ℕ := 0
  outstanding : List PendingRecv := []
  completions : List Completion := []

namespace OS

/-- The connection an open socket refers to. -/
def connOf (os : OS) (h : Socket) : Option ℕ := os.sockets.lookup h

/-- `closesocket`; it fails without effect on `INVALID_SOCKET` and on a socket that is not open. -/
def close (os : OS) (h : Option Socket) : OS :=
  { os with sockets := os.sockets.filter fun entry => some entry.1 ≠ h }

/-- The connection has not been closed. -/
def isOpen (os : OS) (conn : ℕ) : Bool := os.sockets.any fun entry => entry.2 = conn

end OS

/-! ### Program points -/

/-- `AcceptThread`. -/
inductive AcceptPc
  /-- `GetEmptyClientIndex` is about to read slot `k`. -/
  | scan (k : ℕ)
  /-- Slot `i` was found empty; `WSAAccept` is next. -/
  | accepting (i : ℕ)
  /-- `WSAAccept` returned the socket `h` of the connection `conn`. -/
  | connecting (i : ℕ) (h : Socket) (conn : ℕ)
  /-- The socket is attached and associated; `IsConnected` is next. -/
  | checking (i : ℕ) (h : Socket) (conn : ℕ)
  | counting (i : ℕ) (conn : ℕ)
  | greeting (i : ℕ) (conn : ℕ)
  | arming (i : ℕ) (conn : ℕ)
  | returned
  deriving DecidableEq, Repr

/-- A thread in `WorkThread`. -/
inductive WorkPc
  /-- About to read `IsWorkThreadRun`. -/
  | top
  /-- In `GetQueuedCompletionStatus`. -/
  | waiting
  /-- `CloseSocket`, before `closesocket`. -/
  | closing (c : Completion)
  /-- `CloseSocket`, before `Socket = INVALID_SOCKET`. -/
  | forgetting (c : Completion)
  /-- About to read the header and to dispatch. -/
  | received (c : Completion)
  /-- About to call `ReceivePacket`. -/
  | rearming (c : Completion)
  | stopped
  deriving DecidableEq, Repr

/-- `SendThread`; `conn` is the connection the packet was pushed for. -/
inductive SendPc
  | top
  | popping
  /-- `SendPacket` is about to look up the context and to test `IsConnected`. -/
  | holding (p : PacketBuffer) (conn : ℕ)
  /-- `SendPendingPacket` is about to copy the packet. -/
  | copying (p : PacketBuffer) (conn : ℕ)
  /-- `SendPendingPacket` is about to call `WSASend`. -/
  | sending (p : PacketBuffer) (conn : ℕ)
  /-- The packet's index was not a position of `ClientContexts`: undefined behaviour. -/
  | crashed (p : PacketBuffer)
  | stopped

/-- `SendBroadCastThread`; `i` is the loop index of `SendPacketBroadCast`. -/
inductive BroadCastPc
  | top
  | popping
  | looping (p : PacketBuffer) (i : ℕ)
  | copying (p : PacketBuffer) (i : ℕ)
  | sending (p : PacketBuffer) (i : ℕ)
  | stopped

/-- `CloseThread`: the join it waits in. -/
inductive ClosePc
  | notCalled
  | joinAccept
  | joinWork
  | joinSend
  | joinBroadCast
  | finished
  deriving DecidableEq, Repr

/-! ### The state -/

/-- What has happened so far, as far as the statements mention it. -/
structure History where
  /-- The connection last attached to each slot. -/
  occupant : ℕ → ℕ := fun _ => 0
  /-- The connection each packet of `IOSendPacketQue` was pushed for. -/
  owners : List ℕ := []
  /-- The connections whose login has been handled. -/
  loggedIn : List ℕ := []

/-- `CIOCPServer`, its threads and the operating system. -/
structure Server where
  contexts : List ClientContext
  que : SendQue := {}
  clientCount : ℤ := 0
  isAcceptThreadRun : Bool := true
  isWorkThreadRun : Bool := true
  isSendThreadRun : Bool := true
  isSendBroadCastThreadRun : Bool := true
  acceptThread : AcceptPc := .scan 0
  workThreads : List WorkPc
  sendThread : SendPc := .top
  broadCastThread : BroadCastPc := .top
  /-- The contexts whose `DisconnectSocket` has closed the socket and not yet forgotten it. -/
  disconnecting : List ℕ := []
  closeThread : ClosePc := .notCalled
  os : OS := {}
  history : History := {}

/-- What a run is given: the runtime and the listening socket. -/
structure Config where
  runtime : Runtime
  listenSocket : Socket

/-- `CreateClient`, with the memory where the `i`-th context is placed. -/
def createClient (mem : ℕ → Mem) (maxClientCount : ℕ) (contexts : List ClientContext) :
    List ClientContext :=
  contexts ++ (List.range maxClientCount).map fun i =>
    (ClientContext.create (mem i)).init (UInt32.ofNat i)

/-- The state in which the threads start, with `n` slots and `workers` worker threads. -/
def initServer (mem : ℕ → Mem) (n workers : ℕ) : Server where
  contexts := createClient mem n []
  workThreads := List.replicate workers .top

namespace Server

/-- Changing one context. -/
def modifyContext (s : Server) (i : ℕ) (f : ClientContext → ClientContext) : Server :=
  { s with contexts := s.contexts.modify i f }

/-- Moving one worker thread to a program point. -/
def setWorker (s : Server) (w : ℕ) (pc : WorkPc) : Server :=
  { s with workThreads := s.workThreads.set w pc }

/-- `ReceivePacket` on the context `i`: the buffer is cleared, and `WSARecv` fails at once or leaves
a receive outstanding on the connection of the context's socket. -/
def receivePacket (s : Server) (i : ℕ) (pending : Bool) : Option Server :=
  match s.contexts[i]? with
  | none => none
  | some c =>
      let s := s.modifyContext i ClientContext.zeroRecvBuf
      if pending then
        match c.socket.bind s.os.connOf with
        | none => none
        | some conn => some { s with
            os := { s.os with outstanding := s.os.outstanding ++ [⟨s.os.keys conn, i, conn⟩] } }
      else some s

/-- What a `WSASend` of `dataLen` bytes may return: it fails, or it accepts some bytes on an open
socket. -/
def wsaSendReturns (s : Server) (i dataLen : ℕ) : Option ℕ → Bool
  | none => true
  | some k =>
      ((s.contexts[i]?.bind ClientContext.socket).bind s.os.connOf).isSome && 1 ≤ k && k ≤ dataLen

/-! ### `AcceptThread` -/

/-- One comparison of `GetEmptyClientIndex`; behind the last slot it returns `-1`, and
`AcceptThread` returns. -/
def scanNext (contexts : List ClientContext) (k : ℕ) : AcceptPc :=
  match contexts[k]? with
  | none => .returned
  | some c => if c.isConnected then .scan (k + 1) else .accepting k

/-- `AcceptThread` reads the next slot. -/
def scanSlot (s : Server) : Option Server :=
  match s.acceptThread with
  | .scan k => some { s with acceptThread := scanNext s.contexts k }
  | _ => none

/-- `WSAAccept` returns `INVALID_SOCKET` or a socket that was not open. -/
def wsaAccept (s : Server) (cfg : Config) : Option Socket → Option Server
  | none =>
      match s.acceptThread with
      | .accepting _ => some { s with acceptThread := .scan 0 }
      | _ => none
  | some h =>
      match s.acceptThread with
      | .accepting i =>
          if h ≠ cfg.listenSocket ∧ s.os.connOf h = none then
            some { s with
              acceptThread := .connecting i h s.os.accepted
              os := { s.os with
                sockets := s.os.sockets ++ [(h, s.os.accepted)]
                accepted := s.os.accepted + 1 } }
          else none
      | _ => none

/-- `ConnectClient`, and `CreateIoCompletionPort` with the context as the key. -/
def connectClient (s : Server) : Option Server :=
  match s.acceptThread with
  | .connecting i h conn =>
      some { s.modifyContext i (·.connectClient h) with
        acceptThread := .checking i h conn
        os := { s.os with keys := Function.update s.os.keys conn i }
        history := { s.history with occupant := Function.update s.history.occupant i conn } }
  | _ => none

/-- The test of `IsConnected` behind the attachment; when it fails the new socket is closed. -/
def checkConnected (s : Server) : Option Server :=
  match s.acceptThread with
  | .checking i h conn =>
      match s.contexts[i]? with
      | none => none
      | some c =>
          if c.isConnected then some { s with acceptThread := .counting i conn }
          else some { s with acceptThread := .scan 0, os := s.os.close (some h) }
  | _ => none

/-- `++ClientCount`. -/
def countClient (s : Server) : Option Server :=
  match s.acceptThread with
  | .counting i conn =>
      some { s with acceptThread := .greeting i conn, clientCount := s.clientCount + 1 }
  | _ => none

/-- `OnConnected`. -/
def greetClient (s : Server) (cfg : Config) : Option Server :=
  match s.acceptThread with
  | .greeting i conn =>
      match s.contexts[i]? with
      | none => none
      | some c => some { s with
          acceptThread := .arming i conn
          que := onConnected cfg.runtime c.getIndex.toUInt16 s.que
          history := { s.history with owners := s.history.owners ++ [conn] } }
  | _ => none

/-- `ReceivePacket` in `AcceptThread`. -/
def acceptReceive (s : Server) (pending : Bool) : Option Server :=
  match s.acceptThread with
  | .arming i _ => { s with acceptThread := .scan 0 }.receivePacket i pending
  | _ => none

/-! ### `WorkThread` -/

/-- Reading `IsWorkThreadRun`. -/
def workTop (s : Server) (w : ℕ) : Option Server :=
  match s.workThreads[w]? with
  | some .top => some (s.setWorker w (if s.isWorkThreadRun then .waiting else .stopped))
  | _ => none

/-- The program point an iteration branches to on a completion. -/
def afterCompletion (c : Completion) : WorkPc :=
  match workBranch c.bSuccess c.data.length with
  | .close => .closing c
  | .noData => .top
  | .received => .received c

/-- `GetQueuedCompletionStatus` returns the oldest completion, and the iteration branches on it. -/
def getCompletion (s : Server) (w : ℕ) : Option Server :=
  match s.workThreads[w]?, s.os.completions with
  | some .waiting, c :: rest =>
      some { s.setWorker w (afterCompletion c) with os := { s.os with completions := rest } }
  | _, _ => none

/-- `CloseSocket` up to `closesocket`. -/
def closeSocket (s : Server) (w : ℕ) : Option Server :=
  match s.workThreads[w]? with
  | some (.closing c) =>
      match s.contexts[c.key]? with
      | none => none
      | some ctx => some { s.setWorker w (.forgetting c) with os := s.os.close ctx.socket }
  | _ => none

/-- `Socket = INVALID_SOCKET`. -/
def forgetSocket (s : Server) (w : ℕ) : Option Server :=
  match s.workThreads[w]? with
  | some (.forgetting c) => some ((s.modifyContext c.key (·.forgetSocket)).setWorker w .top)
  | _ => none

/-- `DeSerializePacket` on a packet that arrived with the completion `c`. -/
def dispatched (s : Server) (cfg : Config) (w : ℕ) (c : Completion) (packetID : UInt16)
    (data : List UInt8) : Server :=
  let que := deSerializePacket cfg.runtime packetID data s.que
  let pushed := que.ioSendPacketQue.length - s.que.ioSendPacketQue.length
  { s.setWorker w (.rearming c) with
    que := que
    history := { s.history with
      owners := s.history.owners ++ List.replicate pushed c.conn
      loggedIn :=
        if findFunc packetID = some .recvLoginPacket then c.conn :: s.history.loggedIn
        else s.history.loggedIn } }

/-- The call of `DeSerializePacket`, unless the context's socket is the listening one. -/
def deSerialize (s : Server) (cfg : Config) (w : ℕ) : Option Server :=
  match s.workThreads[w]? with
  | some (.received c) =>
      match s.contexts[c.key]? with
      | none => none
      | some ctx =>
          match dispatchOf cfg.listenSocket ctx with
          | none => some (s.setWorker w .top)
          | some (packetID, dataSize) =>
              some (s.dispatched cfg w c packetID (payloadOf ctx dataSize))
  | _ => none

/-- `ReceivePacket` in `WorkThread`. -/
def workReceive (s : Server) (w : ℕ) (pending : Bool) : Option Server :=
  match s.workThreads[w]? with
  | some (.rearming c) => (s.setWorker w .top).receivePacket c.key pending
  | _ => none

/-! ### The operating system -/

/-- The `k`-th outstanding receive completes.  On a connection that has been closed it fails with no
bytes; otherwise the status and the bytes are arbitrary, up to the size of the buffer. -/
def completeRecv (s : Server) (k : ℕ) (bSuccess : Bool) (data : List UInt8) : Option Server :=
  match s.os.outstanding[k]? with
  | none => none
  | some r =>
      if data.length ≤ maxPacketBuf ∧ (s.os.isOpen r.conn ∨ bSuccess = false ∧ data = []) then
        some { s.modifyContext r.buf (·.completeRecv data) with
          os := { s.os with
            outstanding := s.os.outstanding.eraseIdx k
            completions := s.os.completions ++ [⟨r.key, bSuccess, data, r.conn⟩] } }
      else none

/-! ### `SendThread` -/

/-- Reading `IsSendThreadRun`. -/
def sendTop (s : Server) : Option Server :=
  match s.sendThread with
  | .top => some { s with sendThread := if s.isSendThreadRun then .popping else .stopped }
  | _ => none

/-- `GetPendingPacket`; a packet of size zero is taken for an empty queue. -/
def popPacket (s : Server) : Option Server :=
  match s.sendThread with
  | .popping =>
      let r := getPendingPacket s.que
      some { s with
        que := r.2
        sendThread := if 0 < r.1.bufferSize then .holding r.1 (s.history.owners.headD 0) else .top
        history := { s.history with owners := s.history.owners.tail } }
  | _ => none

/-- `SendPacket` up to the test of `IsConnected`; the index is not checked. -/
def sendNext (contexts : List ClientContext) (p : PacketBuffer) (conn : ℕ) : SendPc :=
  match contexts[p.packetIndex.toNat]? with
  | none => .crashed p
  | some c => if c.isConnected then .copying p conn else .top

/-- `SendThread` calls `SendPacket`. -/
def sendPacket (s : Server) : Option Server :=
  match s.sendThread with
  | .holding p conn => some { s with sendThread := sendNext s.contexts p conn }
  | _ => none

/-- `CopyMemory` in `SendPendingPacket`, called by `SendPacket`. -/
def sendCopy (s : Server) : Option Server :=
  match s.sendThread with
  | .copying p conn =>
      some { s.modifyContext p.packetIndex.toNat (·.copyToSend p.bytes) with
        sendThread := .sending p conn }
  | _ => none

/-- `WSASend` in `SendPendingPacket`, called by `SendPacket`; its result is dropped. -/
def sendWsa (s : Server) (r : Option ℕ) : Option Server :=
  match s.sendThread with
  | .sending p _ =>
      if s.wsaSendReturns p.packetIndex.toNat p.bufferSize.toNat r then
        some { s with sendThread := .top }
      else none
  | _ => none

/-! ### `SendBroadCastThread` -/

/-- Reading `IsSendBroadCastThreadRun`. -/
def bcTop (s : Server) : Option Server :=
  match s.broadCastThread with
  | .top => some { s with
      broadCastThread := if s.isSendBroadCastThreadRun then .popping else .stopped }
  | _ => none

/-- `GetPendingBCPacket`. -/
def popBCPacket (s : Server) : Option Server :=
  match s.broadCastThread with
  | .popping =>
      let r := getPendingBCPacket s.que
      some { s with
        que := r.2
        broadCastThread := if 0 < r.1.bufferSize then .looping r.1 0 else .top }
  | _ => none

/-- The test in the loop of `SendPacketBroadCast`: the context is connected and is not the one the
packet is addressed to. -/
def isBroadCastTarget (p : PacketBuffer) (c : ClientContext) : Bool :=
  c.isConnected && p.packetIndex.toUInt32 != c.getIndex

/-- The head of the loop of `SendPacketBroadCast`. -/
def bcNext (contexts : List ClientContext) (p : PacketBuffer) (i : ℕ) : BroadCastPc :=
  match contexts[i]? with
  | none => .top
  | some c => if isBroadCastTarget p c then .copying p i else .looping p (i + 1)

/-- `SendBroadCastThread` looks at the next context. -/
def bcTest (s : Server) : Option Server :=
  match s.broadCastThread with
  | .looping p i => some { s with broadCastThread := bcNext s.contexts p i }
  | _ => none

/-- `CopyMemory` in `SendPendingPacket`, called by `SendPacketBroadCast`. -/
def bcCopy (s : Server) : Option Server :=
  match s.broadCastThread with
  | .copying p i =>
      some { s.modifyContext i (·.copyToSend p.bytes) with broadCastThread := .sending p i }
  | _ => none

/-- `WSASend` in `SendPendingPacket`, called by `SendPacketBroadCast`: a reliable packet whose send
failed is sent to the same context again. -/
def bcWsa (s : Server) (r : Option ℕ) : Option Server :=
  match s.broadCastThread with
  | .sending p i =>
      if s.wsaSendReturns i p.bufferSize.toNat r then
        some { s with
          broadCastThread :=
            if r = none ∧ p.bIsReliable = true then .looping p i else .looping p (i + 1) }
      else none
  | _ => none

/-! ### `DisconnectSocket` and `CloseThread` -/

/-- `DisconnectSocket` on a connected context, up to `closesocket`. -/
def disconnect (s : Server) (i : ℕ) : Option Server :=
  match s.contexts[i]? with
  | none => none
  | some c =>
      if c.isConnected then
        some { s with os := s.os.close c.socket, disconnecting := s.disconnecting ++ [i] }
      else none

/-- `Socket = INVALID_SOCKET` in the `k`-th pending `DisconnectSocket`. -/
def disconnectForget (s : Server) (k : ℕ) : Option Server :=
  match s.disconnecting[k]? with
  | none => none
  | some i => some { s.modifyContext i (·.forgetSocket) with
      disconnecting := s.disconnecting.eraseIdx k }

/-- `CloseThread` goes on: it clears a thread's flag and joins it before it clears the next one. -/
def closeThreads (s : Server) : Option Server :=
  match s.closeThread with
  | .notCalled => some { s with isAcceptThreadRun := false, closeThread := .joinAccept }
  | .joinAccept =>
      if s.acceptThread = .returned then
        some { s with isWorkThreadRun := false, closeThread := .joinWork }
      else none
  | .joinWork =>
      if ∀ pc ∈ s.workThreads, pc = .stopped then
        some { s with isSendThreadRun := false, closeThread := .joinSend }
      else none
  | .joinSend =>
      match s.sendThread with
      | .stopped => some { s with isSendBroadCastThreadRun := false, closeThread := .joinBroadCast }
      | _ => none
  | .joinBroadCast =>
      match s.broadCastThread with
      | .stopped => some { s with closeThread := .finished }
      | _ => none
  | .finished => none

end Server

/-! ### The step -/

/-- The events: which thread moves past which program point, and what the operating system
answers. -/
inductive Event
  | scanSlot
  | wsaAccept (r : Option Socket)
  | connectClient
  | checkConnected
  | countClient
  | greetClient
  | acceptReceive (pending : Bool)
  | workTop (w : ℕ)
  | getCompletion (w : ℕ)
  | closeSocket (w : ℕ)
  | forgetSocket (w : ℕ)
  | deSerialize (w : ℕ)
  | workReceive (w : ℕ) (pending : Bool)
  | completeRecv (k : ℕ) (bSuccess : Bool) (data : List UInt8)
  | sendTop
  | popPacket
  | sendPacket
  | sendCopy
  | sendWsa (r : Option ℕ)
  | bcTop
  | popBCPacket
  | bcTest
  | bcCopy
  | bcWsa (r : Option ℕ)
  | disconnect (i : ℕ)
  | disconnectForget (k : ℕ)
  | closeThreads
  deriving DecidableEq, Repr

/-- Whose event it is. -/
inductive Thread
  | accept
  | work (w : ℕ)
  | os
  | send
  | broadCast
  | disconnect
  | close
  deriving DecidableEq, Repr

/-- The thread that moves. -/
def Event.thread : Event → Thread
  | .scanSlot | .wsaAccept _ | .connectClient | .checkConnected | .countClient | .greetClient
  | .acceptReceive _ => .accept
  | .workTop w | .getCompletion w | .closeSocket w | .forgetSocket w | .deSerialize w
  | .workReceive w _ => .work w
  | .completeRecv _ _ _ => .os
  | .sendTop | .popPacket | .sendPacket | .sendCopy | .sendWsa _ => .send
  | .bcTop | .popBCPacket | .bcTest | .bcCopy | .bcWsa _ => .broadCast
  | .disconnect _ | .disconnectForget _ => .disconnect
  | .closeThreads => .close

/-- **The step an event makes**, when it is possible. -/
def step (cfg : Config) (s : Server) : Event → Option Server
  | .scanSlot => s.scanSlot
  | .wsaAccept r => s.wsaAccept cfg r
  | .connectClient => s.connectClient
  | .checkConnected => s.checkConnected
  | .countClient => s.countClient
  | .greetClient => s.greetClient cfg
  | .acceptReceive pending => s.acceptReceive pending
  | .workTop w => s.workTop w
  | .getCompletion w => s.getCompletion w
  | .closeSocket w => s.closeSocket w
  | .forgetSocket w => s.forgetSocket w
  | .deSerialize w => s.deSerialize cfg w
  | .workReceive w pending => s.workReceive w pending
  | .completeRecv k bSuccess data => s.completeRecv k bSuccess data
  | .sendTop => s.sendTop
  | .popPacket => s.popPacket
  | .sendPacket => s.sendPacket
  | .sendCopy => s.sendCopy
  | .sendWsa r => s.sendWsa r
  | .bcTop => s.bcTop
  | .popBCPacket => s.popBCPacket
  | .bcTest => s.bcTest
  | .bcCopy => s.bcCopy
  | .bcWsa r => s.bcWsa r
  | .disconnect i => s.disconnect i
  | .disconnectForget k => s.disconnectForget k
  | .closeThreads => s.closeThreads

end IocpDemo
