/-
**Calls of `SendPendingPacket`** (`ClientContext.cpp`).

`WSASend` on a non-blocking socket accepts as many bytes as it has room for, and reports their
number in `BytesSend`.  `SendPendingPacket` looks at the return value alone, so after a short write
it returns `true`, and the rest of the packet is never sent.

Main definitions:

* `IocpDemo.ClientContext.sendPendingPacket` — one call, given what its `WSASend` answers;
* `IocpDemo.sendCalls` — the calls of one sender thread for one client;
* `IocpDemo.MadeOfPackets` — the bytes that a socket has accepted are complete packets.

Main results:

* `IocpDemo.sendCopy_sendWsa`, `IocpDemo.bcCopy_bcWsa` — the steps of a sender thread between the
  test of `IsConnected` and the end of the call are such a call;
* `IocpDemo.packets_sent_whole_iff` — **success means a whole packet, exactly when no write is
  short**.
-/

import IocpDemo.Steps
import IocpDemo.QueuedPackets

set_option relaxedAutoImplicit false
set_option autoImplicit false

namespace IocpDemo

open Bytes Wire

variable {s s' s'' : Server} {c : ClientContext} {p : PacketBuffer} {r : Option ℕ}

/-! ### One call -/

/-- What a call leaves: the context, the bytes that the socket has accepted, and the result. -/
structure SendResult where
  context : ClientContext
  accepted : List UInt8
  sent : Bool

/-- `SendPendingPacket` on `DataLen` bytes.  `WSASend` answers `SOCKET_ERROR`, or success and
`BytesSend`; as it is given no `OVERLAPPED`, its error is never `ERROR_IO_PENDING`. -/
def ClientContext.sendPendingPacket (c : ClientContext) (inData : List UInt8) (dataLen : ℤ)
    (wsaSend : Option ℕ) : SendResult :=
  if dataLen ≤ 0 then ⟨c, [], false⟩
  else
    let c := c.copyToSend inData
    match wsaSend with
    | none => ⟨c, [], false⟩
    | some bytesSend => ⟨c, (c.bytesToSend dataLen.toNat).take bytesSend, true⟩

/-- The call that `SendPacket` and `SendPacketBroadCast` make for a packet. -/
def ClientContext.sendPacketBuffer (c : ClientContext) (p : PacketBuffer) (wsaSend : Option ℕ) :
    SendResult := c.sendPendingPacket p.bytes p.bufferSize.toNat wsaSend

theorem bytesToSend_copyToSend (c : ClientContext) (data : List UInt8) :
    (c.copyToSend data).bytesToSend data.length = data := Mem.read_write _ _ _

theorem sendPacketBuffer_of_pos (hp : 0 < p.bufferSize.toNat) : c.sendPacketBuffer p r =
    ⟨c.copyToSend p.bytes, p.bytes.take (r.getD 0), r.isSome⟩ := by
  have hread := bytesToSend_copyToSend c p.bytes
  rw [PacketBuffer.length_bytes] at hread
  have hlen : p.bufferSize.toNat ≠ 0 := by omega
  cases r with
  | none => simp [ClientContext.sendPacketBuffer, ClientContext.sendPendingPacket, hlen]
  | some k => simp [ClientContext.sendPacketBuffer, ClientContext.sendPendingPacket, hlen, hread]

theorem sendPacketBuffer_of_zero (hp : p.bufferSize.toNat = 0) :
    c.sendPacketBuffer p r = ⟨c, [], false⟩ := by
  simp [ClientContext.sendPacketBuffer, ClientContext.sendPendingPacket, hp]

/-- The bytes that are accepted are those at the start of the packet. -/
theorem accepted_sendPacketBuffer (c : ClientContext) (p : PacketBuffer) (r : Option ℕ) :
    (c.sendPacketBuffer p r).accepted = p.bytes.take (r.getD 0) := by
  rcases Nat.eq_zero_or_pos p.bufferSize.toNat with hp | hp
  · rw [sendPacketBuffer_of_zero hp, List.eq_nil_of_length_eq_zero (p.length_bytes.trans hp)]
    simp
  · rw [sendPacketBuffer_of_pos hp]

theorem sent_sendPacketBuffer (c : ClientContext) (p : PacketBuffer) (r : Option ℕ) :
    (c.sendPacketBuffer p r).sent = true ↔ 0 < p.bufferSize.toNat ∧ r.isSome = true := by
  rcases Nat.eq_zero_or_pos p.bufferSize.toNat with hp | hp
  · simp [sendPacketBuffer_of_zero hp, hp]
  · simp [sendPacketBuffer_of_pos hp, hp]

@[simp] theorem socket_sendPacketBuffer (c : ClientContext) (p : PacketBuffer) (r : Option ℕ) :
    (c.sendPacketBuffer p r).context.socket = c.socket := by
  rcases Nat.eq_zero_or_pos p.bufferSize.toNat with hp | hp
  · rw [sendPacketBuffer_of_zero hp]
  · rw [sendPacketBuffer_of_pos hp, ClientContext.socket_copyToSend]

@[simp] theorem index_sendPacketBuffer (c : ClientContext) (p : PacketBuffer) (r : Option ℕ) :
    (c.sendPacketBuffer p r).context.index = c.index := by
  rcases Nat.eq_zero_or_pos p.bufferSize.toNat with hp | hp
  · rw [sendPacketBuffer_of_zero hp]
  · rw [sendPacketBuffer_of_pos hp, ClientContext.index_copyToSend]

/-! ### The calls of the two sender threads -/

/-- A packet that is sent, and what its `WSASend` answers. -/
structure SendCall where
  packet : PacketBuffer
  wsaSend : Option ℕ

namespace SendCall

/-- `WSASend` fails, or accepts between one byte and the whole packet. -/
def Possible (call : SendCall) : Prop :=
  ∀ k ∈ call.wsaSend, 1 ≤ k ∧ k ≤ call.packet.bufferSize.toNat

/-- `WSASend` accepts a part of the packet. -/
def Short (call : SendCall) : Prop :=
  ∃ k ∈ call.wsaSend, k < call.packet.bufferSize.toNat

end SendCall

theorem contexts_copyToSend {i : ℕ} (hc : s.contexts[i]? = some c)
    (hp : 0 < p.bufferSize.toNat) : (s.modifyContext i (·.copyToSend p.bytes)).contexts[i]? =
      some (c.sendPacketBuffer p r).context := by
  rw [sendPacketBuffer_of_pos hp]
  simp [Server.modifyContext, hc]

/-- What `WSASend` answers on a run of the server. -/
theorem possible_of_wsaSendReturns {i : ℕ}
    (h : s.wsaSendReturns i p.bufferSize.toNat r = true) : (SendCall.mk p r).Possible := by
  intro k hk
  obtain rfl : r = some k := hk
  simp only [Server.wsaSendReturns, Bool.and_eq_true, decide_eq_true_eq] at h
  exact ⟨h.1.2, h.2⟩

/-- **The call of `SendThread`**: copying the packet and `WSASend`, one behind the other. -/
theorem sendCopy_sendWsa {conn : ℕ} (hpc : s.sendThread = .copying p conn)
    (hc : s.contexts[p.packetIndex.toNat]? = some c) (hp : 0 < p.bufferSize.toNat)
    (hcopy : s.sendCopy = some s') (hsend : s'.sendWsa r = some s'') :
    (SendCall.mk p r).Possible ∧
      s''.contexts[p.packetIndex.toNat]? = some (c.sendPacketBuffer p r).context ∧
      s''.sendThread = .top := by
  obtain ⟨p', conn', hpc', rfl⟩ := Server.sendCopy_some hcopy
  obtain ⟨rfl, rfl⟩ := SendPc.copying.inj (hpc.symm.trans hpc')
  obtain ⟨p', conn', hpc'', hreturns, rfl⟩ := Server.sendWsa_some hsend
  obtain ⟨rfl, rfl⟩ := SendPc.sending.inj hpc''
  exact ⟨possible_of_wsaSendReturns hreturns, contexts_copyToSend hc hp, rfl⟩

/-- **The call of `SendBroadCastThread`**: its result decides how the loop goes on. -/
theorem bcCopy_bcWsa {i : ℕ} (hpc : s.broadCastThread = .copying p i)
    (hc : s.contexts[i]? = some c) (hp : 0 < p.bufferSize.toNat)
    (hcopy : s.bcCopy = some s') (hsend : s'.bcWsa r = some s'') :
    (SendCall.mk p r).Possible ∧
      s''.contexts[i]? = some (c.sendPacketBuffer p r).context ∧
      s''.broadCastThread =
        if (c.sendPacketBuffer p r).sent = false ∧ p.bIsReliable = true then .looping p i
        else .looping p (i + 1) := by
  obtain ⟨p', i', hpc', rfl⟩ := Server.bcCopy_some hcopy
  obtain ⟨rfl, rfl⟩ := BroadCastPc.copying.inj (hpc.symm.trans hpc')
  obtain ⟨p', i', hpc'', hreturns, rfl⟩ := Server.bcWsa_some hsend
  obtain ⟨rfl, rfl⟩ := BroadCastPc.sending.inj hpc''
  refine ⟨possible_of_wsaSendReturns hreturns, contexts_copyToSend hc hp, ?_⟩
  simp [sendPacketBuffer_of_pos hp]

/-! ### The calls for one client -/

/-- The calls for one client, one after the other. -/
def sendCalls : ClientContext → List SendCall → List SendResult
  | _, [] => []
  | c, call :: calls =>
      let result := c.sendPacketBuffer call.packet call.wsaSend
      result :: sendCalls result.context calls

/-- The bytes are complete packets among the given ones, in their order. -/
def MadeOfPackets (stream : List UInt8) (packets : List PacketBuffer) : Prop :=
  ∃ complete : List PacketBuffer, complete.Sublist packets ∧
    stream = complete.flatMap PacketBuffer.bytes

variable {calls : List SendCall}

/-- Each result is that of its call, on some context. -/
theorem mem_zip_sendCalls {call : SendCall} {result : SendResult}
    (h : (call, result) ∈ calls.zip (sendCalls c calls)) :
    call ∈ calls ∧ ∃ d : ClientContext, result = d.sendPacketBuffer call.packet call.wsaSend := by
  induction calls generalizing c with
  | nil => cases h
  | cons call' calls ih =>
      rcases List.mem_cons.1 h with heq | hmem
      · obtain ⟨rfl, rfl⟩ := Prod.mk.inj heq
        exact ⟨List.mem_cons_self, c, rfl⟩
      · obtain ⟨hcall, hresult⟩ := ih hmem
        exact ⟨List.mem_cons_of_mem _ hcall, hresult⟩

theorem exists_mem_zip_sendCalls {call : SendCall} (h : call ∈ calls) (c : ClientContext) :
    ∃ d : ClientContext,
      (call, d.sendPacketBuffer call.packet call.wsaSend) ∈ calls.zip (sendCalls c calls) := by
  induction calls generalizing c with
  | nil => cases h
  | cons call' calls ih =>
      rcases List.mem_cons.1 h with rfl | hmem
      · exact ⟨c, List.mem_cons_self⟩
      · obtain ⟨d, hd⟩ := ih hmem (c.sendPacketBuffer call'.packet call'.wsaSend).context
        exact ⟨d, List.mem_cons_of_mem _ hd⟩

/-- What a write that is not short accepts: the packet or nothing. -/
theorem accepted_of_not_short {call : SendCall} (hcall : call.Possible) (hshort : ¬ call.Short)
    (c : ClientContext) : (c.sendPacketBuffer call.packet call.wsaSend).accepted =
      if call.wsaSend.isSome then call.packet.bytes else [] := by
  rw [accepted_sendPacketBuffer]
  cases hr : call.wsaSend with
  | none => simp
  | some k =>
      have hle := (hcall k hr).2
      have hge : call.packet.bufferSize.toNat ≤ k := by
        by_contra hlt
        exact hshort ⟨k, hr, by omega⟩
      have hlen := call.packet.length_bytes
      rw [Option.getD_some, List.take_of_length_le (by omega)]
      simp

/-- Without short writes the socket has accepted the packets whose write succeeded. -/
theorem madeOfPackets_of_not_short (hcalls : ∀ call ∈ calls, call.Possible)
    (hshort : ∀ call ∈ calls, ¬ call.Short) (c : ClientContext) :
    MadeOfPackets ((sendCalls c calls).flatMap SendResult.accepted)
      (calls.map SendCall.packet) := by
  induction calls generalizing c with
  | nil => exact ⟨[], List.Sublist.refl _, rfl⟩
  | cons call calls ih =>
      obtain ⟨complete, hsub, hstream⟩ := ih (fun d hd => hcalls d (List.mem_cons_of_mem _ hd))
        (fun d hd => hshort d (List.mem_cons_of_mem _ hd))
        (c.sendPacketBuffer call.packet call.wsaSend).context
      have haccepted := accepted_of_not_short (hcalls call List.mem_cons_self)
        (hshort call List.mem_cons_self) c
      rw [sendCalls, List.flatMap_cons, haccepted, hstream, List.map_cons]
      by_cases hsome : call.wsaSend.isSome
      · exact ⟨call.packet :: complete, hsub.cons_cons _, by simp [hsome]⟩
      · exact ⟨complete, hsub.cons _, by simp [hsome]⟩

/-- **When success means that the whole packet was sent.**  For every client, every sequence of
packets sent to it by one thread and every sequence of outcomes: each call that returns `true` has
had all bytes of its packet accepted, and all that the socket has accepted are complete packets, if
and only if no write is short. -/
theorem packets_sent_whole_iff (c : ClientContext) (hcalls : ∀ call ∈ calls, call.Possible) :
    ((∀ call result, (call, result) ∈ calls.zip (sendCalls c calls) → result.sent = true →
          result.accepted.length = call.packet.bufferSize.toNat) ∧
        MadeOfPackets ((sendCalls c calls).flatMap SendResult.accepted)
          (calls.map SendCall.packet)) ↔
      ∀ call ∈ calls, ¬ call.Short := by
  constructor
  · rintro ⟨hwhole, -⟩ call hcall ⟨k, hk, hlt⟩
    obtain ⟨d, hd⟩ := exists_mem_zip_sendCalls hcall c
    have hsent : (d.sendPacketBuffer call.packet call.wsaSend).sent = true := by
      rw [sent_sendPacketBuffer, hk]
      exact ⟨by omega, rfl⟩
    have hlength := hwhole call _ hd hsent
    rw [accepted_sendPacketBuffer, hk, Option.getD_some, List.length_take,
      PacketBuffer.length_bytes] at hlength
    omega
  · intro hshort
    refine ⟨?_, madeOfPackets_of_not_short hcalls hshort c⟩
    intro call result hmem hsent
    obtain ⟨hcall, d, rfl⟩ := mem_zip_sendCalls hmem
    rw [accepted_of_not_short (hcalls call hcall) (hshort call hcall) d,
      if_pos ((sent_sendPacketBuffer d _ _).1 hsent).2, PacketBuffer.length_bytes]

/-- The connection packet of slot 1 has six bytes; it is sent, and then refused. -/
theorem connection_packet_sent_whole :
    ∃ c calls, calls.map SendCall.wsaSend = [some 6, none] ∧
      (∀ call result, (call, result) ∈ calls.zip (sendCalls c calls) → result.sent = true →
        result.accepted.length = call.packet.bufferSize.toNat) ∧
      (sendCalls c calls).flatMap SendResult.accepted = [6, 0, 0, 0, 8, 1] := by
  let p := connPacket wireProtobuf 1
  let c : ClientContext := ⟨1, some 7, fun _ => 0⟩
  have hsize : p.bufferSize.toNat = 6 := by decide +kernel
  have hpossible : ∀ call ∈ [SendCall.mk p (some 6), ⟨p, none⟩], call.Possible := by
    simp [SendCall.Possible, hsize]
  have hshort : ∀ call ∈ [SendCall.mk p (some 6), ⟨p, none⟩], ¬ call.Short := by
    simp [SendCall.Short, hsize]
  exact ⟨c, _, rfl, ((packets_sent_whole_iff c hpossible).2 hshort).1, by decide +kernel⟩

/-- **A short write breaks the stream.**  The socket accepts two of the six bytes of a connection
packet, which counts as sent, and then a whole packet. -/
theorem short_write_breaks_stream :
    ∃ c calls, (∀ call ∈ calls, call.Possible) ∧ calls.map SendCall.wsaSend = [some 2, some 6] ∧
      (∃ call result, (call, result) ∈ calls.zip (sendCalls c calls) ∧ result.sent = true ∧
        result.accepted.length = 2 ∧ call.packet.bufferSize.toNat = 6) ∧
      (sendCalls c calls).flatMap SendResult.accepted = [6, 0, 6, 0, 0, 0, 8, 1] ∧
      ¬ MadeOfPackets ((sendCalls c calls).flatMap SendResult.accepted)
        (calls.map SendCall.packet) := by
  let p := connPacket wireProtobuf 1
  let c : ClientContext := ⟨1, some 7, fun _ => 0⟩
  have hsize : p.bufferSize.toNat = 6 := by decide +kernel
  have hstream : (sendCalls c [⟨p, some 2⟩, ⟨p, some 6⟩]).flatMap SendResult.accepted =
      [6, 0, 6, 0, 0, 0, 8, 1] := by decide +kernel
  refine ⟨c, [⟨p, some 2⟩, ⟨p, some 6⟩], ?_, rfl, ?_, hstream, ?_⟩
  · simp [SendCall.Possible, hsize]
  · exact ⟨_, _, List.mem_cons_self, by decide +kernel, by decide +kernel, hsize⟩
  · rw [hstream]
    rintro ⟨complete, hsub, heq⟩
    -- complete packets have a multiple of six bytes
    have hall : ∀ q ∈ complete, q.bytes.length = 6 := by
      intro q hq
      have hmem := hsub.subset hq
      obtain rfl : q = p := by simpa using hmem
      rw [PacketBuffer.length_bytes, hsize]
    have hlength := congrArg List.length heq
    rw [List.length_flatMap, List.map_congr_left hall] at hlength
    simp at hlength
    omega

end IocpDemo
