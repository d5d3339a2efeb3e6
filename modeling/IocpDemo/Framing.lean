/-
**From the byte stream to the packets** (`CIOCPServer::WorkThread`).

A client sends frames, each a header followed by its payload, as one stream of bytes; the transport
delivers the stream in segments, one completed receive for each.  `WorkThread` reads one header at
the start of the receive buffer, hands the bytes behind it to `DeSerializePacket`, and re-arms the
receive, which clears the buffer.  It neither keeps an unfinished frame nor looks behind the first.

Main definitions:

* `IocpDemo.Frame`, `IocpDemo.Frame.encode` — a frame that fits the receive buffer, and its bytes;
* `IocpDemo.Segment` — the bytes of one successful completion;
* `IocpDemo.serveCompletions` — the calls of `DeSerializePacket` over a run of completions.

Main results:

* `IocpDemo.sees_encode_iff` — a completion is dispatched as the frame `f` exactly when its bytes,
  continued by zeros, start with those of `f`;
* `IocpDemo.serveCompletions_eq_frames_iff` — **the frames sent are the frames dispatched exactly
  when every segment is one whole frame**;
* `IocpDemo.dispatch_within_received_iff` — **the bytes a handler parses lie within those received
  exactly when the packet size is at least that of the header and at most the number of bytes
  received**.
-/

import IocpDemo.ClientContext
import IocpDemo.Cutting

set_option relaxedAutoImplicit false
set_option autoImplicit false

namespace IocpDemo

open Bytes Cutting

/-! ### Frames and segments -/

/-- A frame a client may send: the packet size does not exceed the receive buffer. -/
structure Frame where
  packetID : UInt16
  payload : List UInt8
  fits : sizeofPacketHeader + payload.length ≤ maxPacketBuf

namespace Frame

/-- The header of a frame. -/
def header (f : Frame) : PacketHeader :=
  ⟨UInt16.ofNat (sizeofPacketHeader + f.payload.length), f.packetID⟩

/-- The bytes of a frame. -/
def encode (f : Frame) : List UInt8 := f.header.bytes ++ f.payload

/-- What a frame asks `DeSerializePacket` to be called with. -/
def call (f : Frame) : UInt16 × List UInt8 := (f.packetID, f.payload)

theorem payload_length_le (f : Frame) : f.payload.length ≤ 1020 := by
  have := f.fits
  simp only [sizeofPacketHeader, maxPacketBuf] at this
  omega

@[simp] theorem length_encode (f : Frame) :
    f.encode.length = sizeofPacketHeader + f.payload.length := by
  simp [encode]

/-- The packet size of a frame does not wrap around. -/
theorem toNat_packetSize (f : Frame) : f.header.packetSize.toNat = 4 + f.payload.length := by
  have := f.payload_length_le
  simp only [header, sizeofPacketHeader, UInt16.toNat_ofNat']
  omega

/-- The first two bytes of a frame hold its packet size, which is not zero. -/
theorem marked_encode (f : Frame) : Marked 0 f.encode := by
  refine ⟨_, _, _, rfl, ?_⟩
  rintro ⟨hlo, hhi⟩
  have hsize : u16 0 0 = f.header.packetSize := by
    rw [← u16_u16Bytes f.header.packetSize, hlo, hhi]
  have := f.toNat_packetSize
  rw [← hsize] at this
  simp only [toNat_u16, UInt8.toNat_zero] at this
  omega

end Frame

/-- The bytes of one successful completion. -/
structure Segment where
  bytes : List UInt8
  nonempty : bytes ≠ []
  fits : bytes.length ≤ maxPacketBuf

/-- A frame in a segment of its own. -/
def Frame.segment (f : Frame) : Segment where
  bytes := f.encode
  nonempty := f.marked_encode.ne_nil
  fits := by
    rw [f.length_encode]
    exact f.fits

/-! ### Serving a run of completions -/

/-- One iteration of `WorkThread` on a successful completion that put `data` into the buffer of the
context: the call of `DeSerializePacket` it makes, and the context behind it, cleared again by
`ReceivePacket` when the completion was dispatched. -/
def serveCompletion (listenSocket : Socket) (c : ClientContext) (data : List UInt8) :
    Option (UInt16 × List UInt8) × ClientContext :=
  let c := c.completeRecv data
  match workBranch true data.length with
  | .received =>
      match dispatchOf listenSocket c with
      | some (packetID, dataSize) => (some (packetID, payloadOf c dataSize), c.zeroRecvBuf)
      | none => (none, c)
  | _ => (none, c)

/-- The calls of `DeSerializePacket` over a run of successful completions on one context. -/
def serveCompletions (listenSocket : Socket) : ClientContext → List (List UInt8) →
    List (UInt16 × List UInt8)
  | _, [] => []
  | c, data :: rest =>
      let r := serveCompletion listenSocket c data
      r.1.toList ++ serveCompletions listenSocket r.2 rest

/-! ### What one completion is dispatched as -/

/-- A data size is that of a frame exactly when the packet size is: the subtraction does not wrap
around on it. -/
theorem Frame.dataSizeOf_eq_iff (f : Frame) (packetSize : UInt16) :
    (dataSizeOf packetSize).toNat = f.payload.length ↔ packetSize = f.header.packetSize := by
  have hfit := f.payload_length_le
  have hlt := packetSize.toNat_lt
  rw [← UInt16.toNat_inj, toNat_dataSizeOf, f.toNat_packetSize]
  omega

/-- The padded bytes start with a frame exactly when the memory that holds them starts with its
header and its payload. -/
theorem sees_encode_iff_ofMem (f : Frame) {m : Mem} {data : List UInt8}
    (hm : ∀ k < maxPacketBuf, m k = data.getD k 0) :
    Sees 0 data f.encode ↔ PacketHeader.ofMem m = f.header ∧
      m.read sizeofPacketHeader f.payload.length = f.payload := by
  have hfit := f.payload_length_le
  rw [PacketHeader.ofMem_eq_iff, Mem.read_eq_iff]
  constructor
  · intro h
    refine ⟨?_, ?_⟩
    · intro k hk
      simp only [sizeofPacketHeader] at hk
      rw [hm k (by simp only [maxPacketBuf]; omega), h k (by simp [sizeofPacketHeader]; omega)]
      exact List.getD_append _ _ _ _ (by simpa [sizeofPacketHeader] using hk)
    · intro k hk
      have hk' : sizeofPacketHeader + k < maxPacketBuf := by
        simp only [sizeofPacketHeader, maxPacketBuf]
        omega
      rw [hm _ hk', h _ (by simpa using hk), Frame.encode,
        List.getD_append_right _ _ _ _ (by simp)]
      simp
  · rintro ⟨hhead, hpay⟩ k hk
    rw [Frame.length_encode] at hk
    rw [← hm k (by simp only [sizeofPacketHeader, maxPacketBuf] at hk ⊢; omega)]
    by_cases hk4 : k < sizeofPacketHeader
    · rw [hhead k hk4, Frame.encode, List.getD_append _ _ _ _ (by simpa using hk4)]
    · obtain ⟨j, rfl⟩ := Nat.exists_eq_add_of_le (Nat.le_of_not_lt hk4)
      rw [hpay j (by omega), Frame.encode, List.getD_append_right _ _ _ _ (by simp)]
      simp

/-- **A completion is dispatched as the frame its padded bytes start with.** -/
theorem sees_encode_iff (f : Frame) {m : Mem} {data : List UInt8}
    (hm : ∀ k < maxPacketBuf, m k = data.getD k 0) :
    ((PacketHeader.ofMem m).packetID = f.packetID ∧
      m.read sizeofPacketHeader (dataSizeOf (PacketHeader.ofMem m).packetSize).toNat = f.payload) ↔
    Sees 0 data f.encode := by
  rw [sees_encode_iff_ofMem f hm]
  constructor
  · rintro ⟨hid, hpay⟩
    -- the length of the payload determines the packet size, hence the header
    have hdata : (dataSizeOf (PacketHeader.ofMem m).packetSize).toNat = f.payload.length := by
      simpa using congrArg List.length hpay
    have hsize := (f.dataSizeOf_eq_iff _).1 hdata
    refine ⟨?_, by rwa [hdata] at hpay⟩
    calc PacketHeader.ofMem m
        = ⟨(PacketHeader.ofMem m).packetSize, (PacketHeader.ofMem m).packetID⟩ := rfl
      _ = f.header := by rw [hsize, hid]; rfl
  · rintro ⟨hhead, hpay⟩
    have hdata : (dataSizeOf (PacketHeader.ofMem m).packetSize).toNat = f.payload.length :=
      (f.dataSizeOf_eq_iff _).2 (by rw [hhead])
    exact ⟨by rw [hhead]; rfl, by rw [hdata]; exact hpay⟩

section Run

variable {listenSocket : Socket} {c : ClientContext}

/-- A nonempty completion on a client's socket is dispatched, and leaves a cleared context. -/
theorem serveCompletion_eq (hc : c.socket ≠ some listenSocket) (s : Segment) :
    let d := c.zeroRecvBuf.completeRecv s.bytes
    serveCompletion listenSocket c.zeroRecvBuf s.bytes =
      (some ((PacketHeader.ofMem d.recvBuf).packetID,
        payloadOf d (dataSizeOf (PacketHeader.ofMem d.recvBuf).packetSize)), d.zeroRecvBuf) := by
  have hpos : 0 < s.bytes.length := List.length_pos_iff.2 s.nonempty
  have hsock : (c.zeroRecvBuf.completeRecv s.bytes).socket ≠ some listenSocket := by simpa using hc
  simp only [serveCompletion, workBranch_received true hpos, dispatchOf_eq hsock]

/-- Over a run of completions the calls are those of the frames exactly when each completion shows
its frame. -/
theorem serveCompletions_eq_iff (hc : c.socket ≠ some listenSocket) (segments : List Segment)
    (frames : List Frame) :
    serveCompletions listenSocket c.zeroRecvBuf (segments.map Segment.bytes) =
        frames.map Frame.call ↔
      List.Forall₂ (Sees 0) (segments.map Segment.bytes) (frames.map Frame.encode) := by
  induction segments generalizing c frames with
  | nil => cases frames with
    | nil => simp [serveCompletions]
    | cons f frames => simp [serveCompletions]
  | cons s segments ih =>
      have hserve := serveCompletion_eq hc s
      rw [List.map_cons, serveCompletions, hserve]
      cases frames with
      | nil => simp
      | cons f frames =>
          have hm := fun k hk => c.recvBuf_completeRecv_zero s.bytes (k := k) hk
          simp only [Option.toList_some, List.cons_append, List.nil_append, List.map_cons,
            List.cons.injEq, List.forall₂_cons, ← sees_encode_iff f hm, Frame.call, Prod.mk.injEq,
            payloadOf]
          exact and_congr_right fun _ => ih (by simpa using hc) frames

/-- Frames in segments of their own are dispatched one after the other. -/
theorem serveCompletions_segments (hc : c.socket ≠ some listenSocket) (frames : List Frame) :
    serveCompletions listenSocket c.zeroRecvBuf ((frames.map Frame.segment).map Segment.bytes) =
      frames.map Frame.call := by
  rw [serveCompletions_eq_iff hc, List.map_map]
  exact List.forall₂_same.2 fun b _ => Sees.refl b

/-- **Whatever follows the first frame of a segment is dropped.** -/
theorem serveCompletion_append (hc : c.socket ≠ some listenSocket) (f : Frame) (rest : List UInt8)
    (hfit : (f.encode ++ rest).length ≤ maxPacketBuf) :
    serveCompletion listenSocket c.zeroRecvBuf (f.encode ++ rest) =
      (some f.call, (c.zeroRecvBuf.completeRecv (f.encode ++ rest)).zeroRecvBuf) := by
  have hne : f.encode ++ rest ≠ [] := List.append_ne_nil_of_left_ne_nil f.marked_encode.ne_nil rest
  have hm := fun k hk => c.recvBuf_completeRecv_zero (f.encode ++ rest) (k := k) hk
  have hsees : Sees 0 (f.encode ++ rest) f.encode := by
    intro k hk
    exact List.getD_append _ _ _ _ hk
  obtain ⟨hid, hpayload⟩ := (sees_encode_iff f hm).2 hsees
  rw [serveCompletion_eq hc ⟨f.encode ++ rest, hne, hfit⟩]
  simp only [Frame.call, payloadOf, hid, hpayload]

/-- **The frames sent are the frames dispatched exactly when every segment is one whole frame.** -/
theorem serveCompletions_eq_frames_iff (hc : c.socket ≠ some listenSocket) (frames : List Frame)
    (segments : List Segment)
    (hstream : (segments.map Segment.bytes).flatten = (frames.map Frame.encode).flatten) :
    serveCompletions listenSocket c.zeroRecvBuf (segments.map Segment.bytes) =
        frames.map Frame.call ↔
      segments.map Segment.bytes = frames.map Frame.encode := by
  rw [serveCompletions_eq_iff hc]
  constructor
  · intro h
    refine eq_of_sees h ?_ ?_ hstream
    · intro b hb
      obtain ⟨s, -, rfl⟩ := List.mem_map.1 hb
      exact s.nonempty
    · intro b hb
      obtain ⟨f, -, rfl⟩ := List.mem_map.1 hb
      exact f.marked_encode
  · intro h
    rw [h]
    exact List.forall₂_same.2 fun b _ => Sees.refl b

end Run

/-! ### Frames that share a segment, and frames that do not -/

section Example

/-- A connected context. -/
def exampleContext : ClientContext := (ClientContext.create fun _ => 0).connectClient 5

/-- Two frames without payload, of the packet ids 4 and 6. -/
def exampleFrames : List Frame := [⟨4, [], by decide⟩, ⟨6, [], by decide⟩]

/-- Both frames in one segment. -/
def coalesced : List Segment := [⟨[4, 0, 4, 0, 4, 0, 6, 0], by decide, by decide⟩]

/-- Each frame in a segment of its own. -/
def separate : List Segment :=
  [⟨[4, 0, 4, 0], by decide, by decide⟩, ⟨[4, 0, 6, 0], by decide, by decide⟩]

/-- Two frames that arrive together: the second one is lost. -/
theorem coalesced_frame_lost :
    ¬∀ (listenSocket : Socket) (c : ClientContext) (frames : List Frame) (segments : List Segment),
      c.socket ≠ some listenSocket →
      (segments.map Segment.bytes).flatten = (frames.map Frame.encode).flatten →
      serveCompletions listenSocket c.zeroRecvBuf (segments.map Segment.bytes) =
        frames.map Frame.call := by
  intro h
  have := h 0 exampleContext exampleFrames coalesced (by decide) (by decide)
  exact absurd this (by decide +kernel)

/-- Two frames that arrive one after the other are dispatched. -/
theorem separate_frames_dispatched :
    serveCompletions 0 exampleContext.zeroRecvBuf (separate.map Segment.bytes) =
      exampleFrames.map Frame.call :=
  (serveCompletions_eq_frames_iff (by decide) exampleFrames separate (by decide)).2 (by decide)

end Example

/-! ### The bytes a handler parses -/

/-- **The bytes a handler parses lie within those received** exactly when the packet size counts the
header and does not exceed the number of bytes received; there is nothing to parse on the listening
socket. -/
theorem dispatch_within_received_iff (listenSocket : Socket) (c : ClientContext) (recvBytes : ℕ)
    (hpos : 1 ≤ recvBytes) (hle : recvBytes ≤ maxPacketBuf) :
    (∀ packetID dataSize, workBranch true recvBytes = .received →
        dispatchOf listenSocket c = some (packetID, dataSize) →
        sizeofPacketHeader + dataSize.toNat ≤ recvBytes) ↔
      c.socket = some listenSocket ∨
        (sizeofPacketHeader ≤ (PacketHeader.ofMem c.recvBuf).packetSize.toNat ∧
          (PacketHeader.ofMem c.recvBuf).packetSize.toNat ≤ recvBytes) := by
  have hlt := (PacketHeader.ofMem c.recvBuf).packetSize.toNat_lt
  simp only [workBranch_received true hpos, true_implies]
  by_cases hc : c.socket = some listenSocket
  · simp [hc, dispatchOf]
  · rw [dispatchOf_eq hc]
    simp only [hc, false_or, Option.some.injEq, Prod.mk.injEq]
    simp only [sizeofPacketHeader, maxPacketBuf] at *
    constructor
    · intro h
      have := h _ _ ⟨rfl, rfl⟩
      rw [toNat_dataSizeOf] at this
      omega
    · rintro ⟨h4, hsize⟩ _ _ ⟨-, rfl⟩
      rw [toNat_dataSizeOf]
      omega

/-- A packet size of zero, and of more than was received. -/
theorem short_packetSize_reads_past_received :
    ¬∀ (listenSocket : Socket) (c : ClientContext) (recvBytes : ℕ),
      1 ≤ recvBytes → recvBytes ≤ maxPacketBuf →
      ∀ packetID dataSize, workBranch true recvBytes = .received →
        dispatchOf listenSocket c = some (packetID, dataSize) →
        sizeofPacketHeader + dataSize.toNat ≤ recvBytes := by
  intro h
  have := h 0 (exampleContext.completeRecv [0, 0, 4, 0]) 4 (by decide) (by decide) 4 65532
    (by decide) (by decide +kernel)
  exact absurd this (by decide)

/-- A completion that holds one whole frame is dispatched within the bytes received. -/
theorem whole_frame_within_received : workBranch true 4 = .received ∧
    dispatchOf 0 (exampleContext.completeRecv [4, 0, 4, 0]) = some (4, 0) ∧
    sizeofPacketHeader + (0 : UInt16).toNat ≤ 4 := by
  have hd : dispatchOf 0 (exampleContext.completeRecv [4, 0, 4, 0]) = some (4, 0) := by
    decide +kernel
  refine ⟨by decide, hd, ?_⟩
  exact (dispatch_within_received_iff 0 (exampleContext.completeRecv [4, 0, 4, 0]) 4 (by decide)
    (by decide)).2 (Or.inr (by decide +kernel)) 4 0 (by decide) hd

end IocpDemo
