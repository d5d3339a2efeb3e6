/-
**What a client reads** (`SendPendingPacket`, `SendPacket`, `SendPacketBroadCast`).

Both sender threads write to the same connection, packet by packet, and a packet names its size in
its header.  So a client can cut what it receives into packets again, wherever the transport has cut
it, as long as the stream consists of whole packets: nobody must overwrite the buffer from which a
packet is sent, no write must be short, and no message must be too long for the size in the header.

The bytes go to the connection that the socket of the slot refers to when `WSASend` is called.

Main definitions:

* `IocpDemo.WireSend`, `IocpDemo.wireSends` — what the successful calls of `WSASend` put into the
  stream of a connection;
* `IocpDemo.streamOf`, `IocpDemo.packetsSent` — the stream of a connection, and the packets it is
  made of;
* `IocpDemo.IntactStep` — the condition on a step;
* `IocpDemo.readPackets` — cutting a stream by `PacketSize`.

Main results:

* `IocpDemo.client_reads_packets` — **a client reads the packets that have been sent to it**, each a
  well-formed one, in their order.
-/

import IocpDemo.Blocks
import IocpDemo.Origins
import IocpDemo.RecvBuffer

set_option relaxedAutoImplicit false
set_option autoImplicit false

namespace IocpDemo

open Bytes Transition Wire

variable {cfg : Config} {s s' : Server} {n i : ℕ} {e : Event} {p : PacketBuffer} {P : Protobuf}

/-! ### Cutting a stream by `PacketSize` -/

/-- `PacketSize` at the start of a stream, once its two bytes are there. -/
def packetSizeAt : List UInt8 → Option ℕ
  | lo :: hi :: _ => some (u16 lo hi).toNat
  | _ => none

/-- The packets that are all there, and the rest. -/
def readPackets (stream : List UInt8) : List (List UInt8) × List UInt8 :=
  Blocks.read packetSizeAt stream

theorem stable_packetSizeAt : Blocks.Stable packetSizeAt := by
  intro l r k hl
  match l with
  | [] | [_] => cases hl
  | lo :: hi :: l => exact hl

/-- **A well-formed packet announces its length.** -/
theorem WellFormed.block {t : EPacketType} (h : WellFormed P t p) :
    Blocks.Block packetSizeAt p.bytes := by
  have hsize : 4 ≤ p.bufferSize.toNat := h.size_ge
  obtain ⟨k, hk⟩ : ∃ k, p.bufferSize.toNat = 2 + k := ⟨p.bufferSize.toNat - 2, by omega⟩
  have hbytes : p.bytes = p.buffer 0 :: p.buffer 1 :: p.buffer.read 2 k := by
    rw [PacketBuffer.bytes, hk, Mem.read_add]
    rfl
  refine ⟨by simp [hbytes], ?_⟩
  rw [p.length_bytes, hbytes]
  exact congrArg (fun size => some (UInt16.toNat size)) h.packetSize

/-! ### The streams of the connections -/

/-- A packet whose `WSASend` has succeeded, and the bytes that the socket has accepted. -/
structure WireSend where
  packet : PacketBuffer
  bytes : List UInt8

/-- `WSASend` accepts `k` bytes of the buffer of the slot `i`. -/
def wireSend (s : Server) (i : ℕ) (p : PacketBuffer) (k : ℕ) : List (ℕ × WireSend) :=
  s.contexts[i]?.toList.flatMap fun ctx =>
    (ctx.socket.bind s.os.connOf).toList.map fun conn =>
      (conn, ⟨p, (ctx.bytesToSend p.bufferSize.toNat).take k⟩)

/-- What a step puts into the stream of a connection. -/
def wireSends (s : Server) : Event → List (ℕ × WireSend)
  | .sendWsa (some k) =>
      match s.sendThread with
      | .sending p _ => wireSend s p.packetIndex.toNat p k
      | _ => []
  | .bcWsa (some k) =>
      match s.broadCastThread with
      | .sending p i => wireSend s i p k
      | _ => []
  | _ => []

/-- The server with a log of the streams. -/
abbrev wireSystem (cfg : Config) : Server × List (ℕ × WireSend) → Event →
    Option (Server × List (ℕ × WireSend)) := logged (step cfg) wireSends

/-- The bytes that a connection has been sent. -/
def streamOf (conn : ℕ) (log : List (ℕ × WireSend)) : List UInt8 :=
  (componentOf conn log).flatMap WireSend.bytes

/-- The packets of which it has been sent bytes. -/
def packetsSent (conn : ℕ) (log : List (ℕ × WireSend)) : List PacketBuffer :=
  (componentOf conn log).map WireSend.packet

/-- `WSASend` accepts a part of the packet only. -/
def writesShort (s : Server) : Event → Bool
  | .sendWsa (some k) =>
      match s.sendThread with
      | .sending p _ => k < p.bufferSize.toNat
      | _ => false
  | .bcWsa (some k) =>
      match s.broadCastThread with
      | .sending p _ => k < p.bufferSize.toNat
      | _ => false
  | _ => false

/-- Nobody writes to a buffer from which a sender is about to send, no write is short, and every
message that is serialized fits a packet. -/
def IntactStep (cfg : Config) (s : Server) (e : Event) : Prop :=
  SparesUnsent s e ∧ writesShort s e = false ∧ ∀ op ∈ queOp cfg s e, Fits cfg.runtime s.que op

instance (cfg : Config) (s : Server) (e : Event) : Decidable (IntactStep cfg s e) :=
  inferInstanceAs (Decidable (_ ∧ _ ∧ _))

/-! ### Whole packets -/

/-- A packet that is sent whole. -/
def SentWhole (P : Protobuf) (x : WireSend) : Prop :=
  x.bytes = x.packet.bytes ∧ ∃ t, WellFormed P t x.packet

theorem UnicastPacket.exists_wellFormed (h : UnicastPacket P p) : ∃ t, WellFormed P t p := by
  rcases h.1 with hconn | hlogin
  · exact ⟨_, hconn⟩
  · exact ⟨_, hlogin⟩

theorem BroadCastPacket.exists_wellFormed (h : BroadCastPacket P p) : ∃ t, WellFormed P t p := by
  obtain ⟨f, hf, -⟩ := h
  exact ⟨_, hf⟩

/-- What `WSASend` is given is the packet, if it has been staged, and all of it is accepted. -/
theorem sentWhole_of_wireSend {k : ℕ} (hstaged : Staged s) (hunsent : (i, p) ∈ s.unsent)
    (hk : p.bufferSize.toNat ≤ k) (hp : ∃ t, WellFormed P t p) {x : ℕ × WireSend}
    (hx : x ∈ wireSend s i p k) : SentWhole P x.2 := by
  obtain ⟨ctx, hctx, hx⟩ := List.mem_flatMap.1 hx
  obtain ⟨conn, -, rfl⟩ := List.mem_map.1 hx
  have hctx : s.contexts[i]? = some ctx := Option.mem_toList.1 hctx
  have hbytes := hstaged (i, p) hunsent ctx.recvBuf (by simp [Server.bufAt, hctx])
  refine ⟨?_, hp⟩
  simp only [ClientContext.bytesToSend]
  rw [hbytes, List.take_of_length_le (by rw [p.length_bytes]; exact hk)]

/-- **The invariant**: the packets on their way are well formed, the buffers hold what is about to be
sent, and what has been sent are whole packets. -/
structure Streaming (P : Protobuf) (s : Server) (log : List (ℕ × WireSend)) : Prop where
  queues : QueuesWellFormed P s.que
  unicast : ∀ p ∈ s.sendThread.packets, UnicastPacket P p
  broadCast : ∀ p ∈ s.broadCastThread.packets, BroadCastPacket P p
  staged : Staged s
  sent : ∀ x ∈ log, SentWhole P x.2

namespace Streaming

theorem init (mem : ℕ → Mem) (n workers : ℕ) : Streaming P (initServer mem n workers) [] where
  queues := ⟨List.forall_mem_nil _, List.forall_mem_nil _⟩
  unicast p hp := by cases hp
  broadCast p hp := by cases hp
  staged entry hentry := by cases hentry
  sent x hx := by cases hx

variable {log : List (ℕ × WireSend)}

/-- What a step sends is a whole packet. -/
theorem sentWhole (hs : Streaming P s log) (h : IocpDemo.step cfg s e = some s')
    (hshort : writesShort s e = false) : ∀ x ∈ wireSends s e, SentWhole P x.2 := by
  intro x hx
  cases e with
  | sendWsa r =>
      obtain ⟨p, conn, hpc, -, -⟩ := Server.sendWsa_some h
      cases r with
      | none => cases hx
      | some k =>
          simp only [wireSends, hpc] at hx
          simp only [writesShort, hpc, decide_eq_false_iff_not, Nat.not_lt] at hshort
          have hp := (hs.unicast p (by rw [hpc]; exact List.mem_singleton_self p)).exists_wellFormed
          exact sentWhole_of_wireSend hs.staged (Server.mem_unsent_iff.2 (Or.inl ⟨conn, hpc, rfl⟩))
            hshort hp hx
  | bcWsa r =>
      obtain ⟨p, i, hpc, -, -⟩ := Server.bcWsa_some h
      cases r with
      | none => cases hx
      | some k =>
          simp only [wireSends, hpc] at hx
          simp only [writesShort, hpc, decide_eq_false_iff_not, Nat.not_lt] at hshort
          have hp :=
            (hs.broadCast p (by rw [hpc]; exact List.mem_singleton_self p)).exists_wellFormed
          exact sentWhole_of_wireSend hs.staged (Server.mem_unsent_iff.2 (Or.inr hpc)) hshort hp hx
  | _ => cases hx

theorem step (hs : Streaming cfg.runtime.proto s log) (hP : cfg.runtime.proto.Exact)
    (h : IocpDemo.step cfg s e = some s') (hintact : IntactStep cfg s e) :
    Streaming cfg.runtime.proto s' (log ++ wireSends s e) where
  queues := by
    rw [step_queOp h]
    cases hop : queOp cfg s e with
    | none => exact hs.queues
    | some op => exact hs.queues.step hP (hintact.2.2 op hop)
  unicast p hp := by
    rcases sendPackets_of_step h hp with hold | hqueued
    · exact hs.unicast p hold
    · exact hs.queues.unicast p hqueued
  broadCast p hp := by
    rcases broadCastPackets_of_step h hp with hold | hqueued
    · exact hs.broadCast p hold
    · exact hs.queues.broadCast p hqueued
  staged := hs.staged.step h hintact.1
  sent x hx := by
    rcases List.mem_append.1 hx with hold | hnew
    · exact hs.sent x hold
    · exact hs.sentWhole h hintact.2.1 x hnew

/-- What one connection has been sent are whole packets. -/
theorem streamOf_eq (hs : Streaming P s log) (conn : ℕ) :
    streamOf conn log = ((packetsSent conn log).map PacketBuffer.bytes).flatten ∧
      ∀ p ∈ packetsSent conn log, ∃ t, WellFormed P t p := by
  have hwhole : ∀ x ∈ componentOf conn log, SentWhole P x := by
    intro x hx
    obtain ⟨y, hy, rfl⟩ := List.mem_map.1 ((componentOf_sublist conn log).subset hx)
    exact hs.sent y hy
  constructor
  · rw [streamOf, packetsSent, List.map_map, ← List.flatMap_def]
    exact List.flatMap_congr fun x hx => (hwhole x hx).1
  · intro p hp
    obtain ⟨x, hx, rfl⟩ := List.mem_map.1 hp
    exact (hwhole x hx).2

end Streaming

/-- **A client reads the packets that have been sent to it.**  In every run whose steps meet the
condition, whatever both sender threads send to a connection, and whoever had the slot before: the
stream of the connection is read as the packets of which the sender threads have sent bytes to it,
in their order and with nothing left; what has arrived of the stream, wherever it is cut, is read as
the first ones of these packets and a rest; and each of the packets names its own size and its type,
with a serialized message of this type behind its header. -/
theorem client_reads_packets (cfg : Config) (mem : ℕ → Mem) (workers : ℕ)
    (hP : cfg.runtime.proto.Exact) {log : List (ℕ × WireSend)}
    (h : Reach (wireSystem cfg) (fun x e => IntactStep cfg x.1 e) (initServer mem n workers, [])
      (s, log)) (conn : ℕ) :
    readPackets (streamOf conn log) = ((packetsSent conn log).map PacketBuffer.bytes, []) ∧
      (∀ arrived, arrived <+: streamOf conn log →
        (readPackets arrived).1 <+: (packetsSent conn log).map PacketBuffer.bytes ∧
          (readPackets arrived).1.flatten ++ (readPackets arrived).2 = arrived) ∧
      ∀ p ∈ packetsSent conn log, ∃ t, WellFormed cfg.runtime.proto t p := by
  have hs : Streaming cfg.runtime.proto s log :=
    h.logged_invariant (Streaming.init mem n workers) fun _ _ _ _ hi hintact hstep =>
      hi.step hP hstep hintact
  obtain ⟨hstream, hwellFormed⟩ := hs.streamOf_eq conn
  have hblocks : ∀ b ∈ (packetsSent conn log).map PacketBuffer.bytes,
      Blocks.Block packetSizeAt b := by
    intro b hb
    obtain ⟨p, hp, rfl⟩ := List.mem_map.1 hb
    obtain ⟨t, ht⟩ := hwellFormed p hp
    exact ht.block
  rw [hstream]
  exact ⟨Blocks.read_flatten stable_packetSizeAt hblocks,
    fun arrived harrived => Blocks.read_of_prefix stable_packetSizeAt hblocks harrived, hwellFormed⟩

/-- The second client reads its connection packet, which `SendThread` has sent, and the login of the
first one, which `SendBroadCastThread` has sent. -/
theorem greeting_and_login_are_read :
    ∃ s log, Reach (wireSystem wireConfig) (fun x e => IntactStep wireConfig x.1 e)
        (wireServer 2, []) (s, log) ∧
      readPackets (streamOf 1 log) = ([[6, 0, 0, 0, 8, 1], [6, 0, 1, 0, 10, 0]], []) := by
  obtain ⟨⟨s, log⟩, hreach, hpackets⟩ := Reach.exists_of_runIf (wireSystem wireConfig)
    (fun x e => IntactStep wireConfig x.1 e) (wireServer 2, [])
    (.scanSlot :: acceptEvents 7 ++ [.scanSlot, .scanSlot] ++ acceptEvents 8 ++ sendEvents ++
      [.sendTop, .popPacket, .sendPacket, .sendCopy, .sendWsa (some 6)] ++
      serveEvents [6, 0, 2, 0, 10, 0] ++
      [.bcTop, .popBCPacket, .bcTest, .bcTest, .bcCopy, .bcWsa (some 6)])
    (fun x => (packetsSent 1 x.2).map PacketBuffer.bytes)
    (x := [[6, 0, 0, 0, 8, 1], [6, 0, 1, 0, 10, 0]]) (by decide +kernel)
  have hread := (client_reads_packets wireConfig (fun _ _ => 0) 1 lawful_wireProtobuf.toExact hreach
    1).1
  rw [hpackets] at hread
  exact ⟨s, log, hreach, hread⟩

end IocpDemo
