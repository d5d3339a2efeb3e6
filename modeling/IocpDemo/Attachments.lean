/-
**A slot belongs to the connection that was attached to it** (`CreateClient`, `GetEmptyClientIndex`,
`AcceptThread`, `OnConnected`).

`AcceptThread` chooses a free slot before it waits in `WSAAccept`, and fills it afterwards; in
between and behind it, worker threads and callers of `DisconnectSocket` free slots.  The index of
the slot then travels through `INT32`, `UINT32`, `UINT16` and a protobuf `uint32` into the
connection packet, by which `SendThread` looks the context up again.

Main definitions:

* `IocpDemo.SlotEvent`, `IocpDemo.slotEvents` — who is attached to a slot, who is greeted, and which
  slots are freed;
* `IocpDemo.KeptSince` — a connection was attached to a slot, and the slot has not been freed since;
* `IocpDemo.Server.getClientContext` — looking a context up;
* `IocpDemo.Attachments` — the invariant.

Main results:

* `IocpDemo.Attachments.of_reach` — **the invariant of all runs**;
* `IocpDemo.accepted_client_keeps_its_slot` — **the slot table and the connection packets, in every
  run**.
-/

import IocpDemo.Occupancy
import IocpDemo.QueuedPackets

set_option relaxedAutoImplicit false
set_option autoImplicit false

namespace IocpDemo

open Bytes Transition Wire

variable {cfg : Config} {s s' : Server} {n : ℕ} {e : Event} {i conn : ℕ} {sock : Socket}

/-! ### The log -/

/-- What happens to a slot. -/
inductive SlotEvent
  /-- `ConnectClient` stores the socket of the connection `conn`. -/
  | attached (slot : ℕ) (sock : Socket) (conn : ℕ)
  /-- `OnConnected` queues the packet for the connection `conn`. -/
  | greeted (slot conn : ℕ) (p : PacketBuffer)
  /-- `CloseSocket` executes `Socket = INVALID_SOCKET`. -/
  | freed (slot : ℕ)

/-- The slot, the socket and the connection of an event, without its packet. -/
def SlotEvent.outline : SlotEvent → ℕ × Option Socket × Option ℕ
  | .attached i sock conn => (i, some sock, some conn)
  | .greeted i conn _ => (i, none, some conn)
  | .freed i => (i, none, none)

theorem SlotEvent.eq_attached {a : SlotEvent} {i : ℕ} {sock : Socket} {conn : ℕ}
    (h : a.outline = (i, some sock, some conn)) : a = .attached i sock conn := by
  cases a <;> simp_all [outline]

theorem SlotEvent.eq_greeted {a : SlotEvent} {i conn : ℕ} (h : a.outline = (i, none, some conn)) :
    ∃ p, a = .greeted i conn p := by
  cases a <;> simp_all [outline]

/-- What a step does to the slots. -/
def slotEvents (cfg : Config) (s : Server) : Event → List SlotEvent
  | .connectClient =>
      match s.acceptThread with
      | .connecting i sock conn => [.attached i sock conn]
      | _ => []
  | .greetClient =>
      match s.acceptThread with
      | .greeting i conn => s.contexts[i]?.toList.map fun ctx =>
          .greeted i conn (connPacket cfg.runtime.proto ctx.getIndex.toUInt16)
      | _ => []
  | .forgetSocket w =>
      match s.workThreads[w]? with
      | some (.forgetting c) => [.freed c.key]
      | _ => []
  | .disconnectForget k => s.disconnecting[k]?.toList.map .freed
  | _ => []

/-- The server with this log. -/
abbrev slotSystem (cfg : Config) : Server × List SlotEvent → Event →
    Option (Server × List SlotEvent) := logged (step cfg) (slotEvents cfg)

/-- The connection `conn` was attached to the slot with the socket `sock`, and the slot has not been
freed since. -/
def KeptSince (log : List SlotEvent) (i : ℕ) (sock : Socket) (conn : ℕ) : Prop :=
  ∃ l l', log = l ++ .attached i sock conn :: l' ∧ .freed i ∉ l'

theorem KeptSince.mem {log : List SlotEvent} (h : KeptSince log i sock conn) :
    .attached i sock conn ∈ log := by
  obtain ⟨l, l', rfl, -⟩ := h
  simp

/-- What is kept has been kept before, or has just been attached. -/
theorem KeptSince.of_append {log new : List SlotEvent} (h : KeptSince (log ++ new) i sock conn) :
    KeptSince log i sock conn ∧ .freed i ∉ new ∨ .attached i sock conn ∈ new := by
  obtain ⟨l, l', heq, hkept⟩ := h
  rcases List.append_eq_append_iff.1 heq with ⟨m, -, hnew⟩ | ⟨m, hlog, hcons⟩
  · exact Or.inr (by simp [hnew])
  · cases m with
    | nil => exact Or.inr (by simp [← show SlotEvent.attached i sock conn :: l' = new from hcons])
    | cons a m =>
        obtain ⟨rfl, rfl⟩ := List.cons.inj hcons
        refine Or.inl ⟨⟨l, m, hlog, fun hm => hkept (List.mem_append_left _ hm)⟩, fun hnew => ?_⟩
        exact hkept (List.mem_append_right _ hnew)

/-- What a step can do to a slot. -/
theorem slotEvents_cases {a : SlotEvent} (h : a ∈ slotEvents cfg s e) :
    (∃ i sock conn, a = .attached i sock conn ∧ e = .connectClient ∧
        s.acceptThread = .connecting i sock conn) ∨
      (∃ (i conn : ℕ) (ctx : ClientContext),
        a = .greeted i conn (connPacket cfg.runtime.proto ctx.getIndex.toUInt16) ∧
          e = .greetClient ∧ s.acceptThread = .greeting i conn ∧ s.contexts[i]? = some ctx) ∨
      ∃ i, a = .freed i := by
  cases e with
  | connectClient =>
      cases hpc : s.acceptThread with
      | connecting i sock conn =>
          exact Or.inl ⟨i, sock, conn, by simpa [slotEvents, hpc] using h, rfl, rfl⟩
      | _ => simp [slotEvents, hpc] at h
  | greetClient =>
      cases hpc : s.acceptThread with
      | greeting i conn =>
          simp only [slotEvents, hpc, List.mem_map, Option.mem_toList] at h
          obtain ⟨ctx, hctx, rfl⟩ := h
          exact Or.inr (Or.inl ⟨i, conn, ctx, rfl, rfl, rfl, hctx⟩)
      | _ => simp [slotEvents, hpc] at h
  | forgetSocket w =>
      simp only [slotEvents] at h
      split at h
      · exact Or.inr (Or.inr ⟨_, List.mem_singleton.1 h⟩)
      · cases h
  | disconnectForget k =>
      obtain ⟨i, -, rfl⟩ := List.mem_map.1 h
      exact Or.inr (Or.inr ⟨i, rfl⟩)
  | _ => cases h

theorem attached_mem_slotEvents (h : .attached i sock conn ∈ slotEvents cfg s e) :
    e = .connectClient ∧ s.acceptThread = .connecting i sock conn := by
  rcases slotEvents_cases h with ⟨j, sock', conn', heq, he, hpc⟩ | ⟨_, _, _, heq, -⟩ | ⟨_, heq⟩
  · obtain ⟨rfl, rfl, rfl⟩ := SlotEvent.attached.inj heq
    exact ⟨he, hpc⟩
  · cases heq
  · cases heq

theorem greeted_mem_slotEvents {p : PacketBuffer} (h : .greeted i conn p ∈ slotEvents cfg s e) :
    e = .greetClient ∧ s.acceptThread = .greeting i conn ∧ ∃ ctx, s.contexts[i]? = some ctx ∧
      p = connPacket cfg.runtime.proto ctx.getIndex.toUInt16 := by
  rcases slotEvents_cases h with ⟨_, _, _, heq, -⟩ | ⟨j, conn', ctx, heq, he, hpc, hctx⟩ | ⟨_, heq⟩
  · cases heq
  · obtain ⟨rfl, rfl, rfl⟩ := SlotEvent.greeted.inj heq
    exact ⟨he, hpc, ctx, hctx, rfl⟩
  · cases heq

/-- A step that frees a slot is logged. -/
theorem freed_mem_slotEvents (h : Forgets s e i) : .freed i ∈ slotEvents cfg s e := by
  rcases h with ⟨w, c, rfl, hpc, rfl⟩ | ⟨k, rfl, hk⟩
  · simp [slotEvents, hpc]
  · simp [slotEvents, hk]

/-! ### The invariant -/

/-- **Who is attached where.** -/
structure Attachments (cfg : Config) (n : ℕ) (s : Server) (log : List SlotEvent) : Prop where
  table : SlotTable n s
  occupancy : Occupancy s
  attached : ∀ i sock conn, .attached i sock conn ∈ log → i < n ∧ s.WasAttached conn
  /-- A connection is attached to one slot. -/
  inj : ∀ i j sock sock' conn, .attached i sock conn ∈ log → .attached j sock' conn ∈ log → i = j
  current : ∀ i conn, s.acceptThread.attached = some (i, conn) →
    ∃ sock, .attached i sock conn ∈ log
  greeted : ∀ i conn p, .greeted i conn p ∈ log →
    p = connPacket cfg.runtime.proto (UInt16.ofNat i) ∧ ∃ sock, .attached i sock conn ∈ log
  kept : ∀ i sock conn, KeptSince log i sock conn → s.socketAt i = some sock

namespace Attachments

variable {log : List SlotEvent}

theorem init (mem : ℕ → Mem) (n workers : ℕ) : Attachments cfg n (initServer mem n workers) [] where
  table := SlotTable.init mem n workers
  occupancy := Occupancy.init mem n workers
  attached i sock conn h := by cases h
  inj i j sock sock' conn h := by cases h
  current i conn h := by cases h
  greeted i conn p h := by cases h
  kept i sock conn h := by cases h.mem

/-- The connection that is being attached has not been attached before. -/
theorem not_attached (hs : Attachments cfg n s log) (hpc : s.acceptThread = .connecting i sock conn)
    (j : ℕ) (sock' : Socket) : .attached j sock' conn ∉ log := fun h =>
  (hs.attached j sock' conn h).2.incoming i sock hpc

/-- The socket of a slot stays until the slot is freed. -/
theorem kept_step (hs : Attachments cfg n s log) (h : IocpDemo.step cfg s e = some s')
    (hkept : KeptSince (log ++ slotEvents cfg s e) i sock conn) : s'.socketAt i = some sock := by
  rcases hkept.of_append with ⟨hold, hfreed⟩ | hnew
  · have hsock := hs.kept i sock conn hold
    have hfoot := step_socketAt h i
    generalize s'.socketAt i = x at hfoot
    cases hfoot with
    | same => exact hsock
    | attached _ hpc =>
        -- only a free slot is taken
        have hfree := hs.table.chosen_free i (by rw [hpc]; rfl)
        rw [hfree.2] at hsock
        cases hsock
    | forgotten hforgets => exact absurd (freed_mem_slotEvents hforgets) hfreed
  · obtain ⟨rfl, hpc⟩ := attached_mem_slotEvents hnew
    obtain ⟨j, sock', conn', hpc', hs'⟩ := Server.connectClient_some h
    obtain ⟨rfl, rfl, rfl⟩ := AcceptPc.connecting.inj (hpc.symm.trans hpc')
    have hfree := hs.table.chosen_free i (by rw [hpc]; rfl)
    exact Server.socketAt_modify_self (by rw [hs']; rfl) (fun _ => rfl) hfree.1

theorem step (hs : Attachments cfg n s log) (h : IocpDemo.step cfg s e = some s') :
    Attachments cfg n s' (log ++ slotEvents cfg s e) where
  table := hs.table.step h
  occupancy := hs.occupancy.step h
  attached i sock conn hi := by
    rcases List.mem_append.1 hi with hold | hnew
    · obtain ⟨hlt, hconn⟩ := hs.attached i sock conn hold
      exact ⟨hlt, hconn.step h⟩
    · obtain ⟨rfl, hpc⟩ := attached_mem_slotEvents hnew
      have hslot := hs.table.slot_lt i (by rw [hpc]; rfl)
      have hconn := (hs.occupancy.incoming i sock conn hpc).1
      obtain ⟨_, _, _, -, rfl⟩ := Server.connectClient_some h
      exact ⟨hslot, hconn, by simp⟩
  inj i j sock sock' conn hi hj := by
    rcases List.mem_append.1 hi with hi | hi <;> rcases List.mem_append.1 hj with hj | hj
    · exact hs.inj i j sock sock' conn hi hj
    · exact absurd hi (hs.not_attached (attached_mem_slotEvents hj).2 i sock)
    · exact absurd hj (hs.not_attached (attached_mem_slotEvents hi).2 j sock')
    · have hpc := (attached_mem_slotEvents hi).2.symm.trans (attached_mem_slotEvents hj).2
      exact (AcceptPc.connecting.inj hpc).1
  current i conn hi := by
    rcases attached_origin h hi with hold | ⟨rfl, sock, hpc⟩
    · obtain ⟨sock, hsock⟩ := hs.current i conn hold
      exact ⟨sock, List.mem_append_left _ hsock⟩
    · exact ⟨sock, List.mem_append_right _ (by simp [slotEvents, hpc])⟩
  greeted i conn p hp := by
    rcases List.mem_append.1 hp with hold | hnew
    · obtain ⟨heq, sock, hsock⟩ := hs.greeted i conn p hold
      exact ⟨heq, sock, List.mem_append_left _ hsock⟩
    · obtain ⟨rfl, hpc, ctx, hctx, rfl⟩ := greeted_mem_slotEvents hnew
      obtain ⟨sock, hsock⟩ := hs.current i conn (by rw [hpc]; rfl)
      refine ⟨?_, sock, List.mem_append_left _ hsock⟩
      rw [hs.table.getIndex_eq hctx, UInt32.toUInt16_ofNat']
  kept i sock conn hi := hs.kept_step h hi

/-- **The invariant of all runs.** -/
theorem of_reach {P : Server × List SlotEvent → Event → Prop} {mem : ℕ → Mem} {workers : ℕ}
    (h : Reach (slotSystem cfg) P (initServer mem n workers, []) (s, log)) :
    Attachments cfg n s log :=
  h.logged_invariant (I := Attachments cfg n) (init mem n workers)
    fun _ _ _ _ hs _ hstep => hs.step hstep

end Attachments

/-! ### The slots and the connection packets -/

/-- `GetClientContext`. -/
def Server.getClientContext (s : Server) (clientIndex : UInt32) : Option ClientContext :=
  s.contexts[clientIndex.toNat]?

/-- The connection packet of a slot names it, in its index and in its message. -/
theorem connPacket_names (hP : cfg.runtime.proto.Lawful)
    (hround : ∀ index, cfg.runtime.proto.clientId.RoundTrips (connMessage index))
    (hi : i < 65536) {p : PacketBuffer}
    (hp : p = connPacket cfg.runtime.proto (UInt16.ofNat i)) :
    p.packetIndex.toNat = i ∧ p.header.packetID = EPacketType.connC.code ∧
      cfg.runtime.proto.clientId.parseFromArray p.payload =
        ({ index := UInt32.ofNat i }, true) := by
  have hindex : (UInt16.ofNat i).toNat = i := by
    rw [UInt16.toNat_ofNat']
    exact Nat.mod_eq_of_lt hi
  have hmessage : connMessage (UInt16.ofNat i) = { index := UInt32.ofNat i } := by
    have hwide : (UInt16.ofNat i).toUInt32 = UInt32.ofNat i := by
      rw [← UInt32.toNat_inj, UInt16.toNat_toUInt32, hindex, UInt32.toNat_ofNat']
      omega
    rw [connMessage, hwide]
  rw [hp, connPacket_eq]
  refine ⟨hindex, ?_, ?_⟩
  · rw [header_serializePacket]
    rfl
  · rw [payload_serializePacket (hP.clientId _) (hP.connMessage_le _), hround, hmessage]

/-- **An accepted client keeps its slot.**  In every run of the server with at most `2 ^ 16` slots,
whatever worker threads and callers of `DisconnectSocket` do in between: the table keeps its length,
and `GetIndex` of the `i`-th context is `i`; `ConnectClient` is executed on a slot whose socket is
`INVALID_SOCKET`; the connection packet that `OnConnected` queues then has the slot's position as
its index, and its payload is parsed to the same index; and as long as the slot has not been freed,
`GetClientContext` of the packet is the context that holds the socket accepted. -/
theorem accepted_client_keeps_its_slot (hP : cfg.runtime.proto.Lawful)
    (hround : ∀ index, cfg.runtime.proto.clientId.RoundTrips (connMessage index))
    (hn : n ≤ 65536) {mem : ℕ → Mem} {workers : ℕ} {log : List SlotEvent}
    (h : Reach (slotSystem cfg) (fun _ _ => True) (initServer mem n workers, []) (s, log)) :
    (s.contexts.length = n ∧
        ∀ (i : ℕ) (ctx : ClientContext), s.contexts[i]? = some ctx → ctx.getIndex.toNat = i) ∧
      (∀ s', step cfg s .connectClient = some s' → ∃ i sock conn,
        slotEvents cfg s .connectClient = [.attached i sock conn] ∧ s.IsFree i ∧
          s'.socketAt i = some sock) ∧
      (∀ s', step cfg s .greetClient = some s' → ∃ i conn p,
        slotEvents cfg s .greetClient = [.greeted i conn p] ∧
          s'.que.ioSendPacketQue = s.que.ioSendPacketQue ++ [p]) ∧
      (∀ i conn p, .greeted i conn p ∈ log → p.packetIndex.toNat = i ∧
        p.header.packetID = EPacketType.connC.code ∧
          cfg.runtime.proto.clientId.parseFromArray p.payload =
            ({ index := UInt32.ofNat i }, true)) ∧
      ∀ i sock conn j p, KeptSince log i sock conn → .greeted j conn p ∈ log →
        j = i ∧ ∃ ctx, s.getClientContext p.packetIndex.toUInt32 = some ctx ∧
          ctx.socket = some sock := by
  have hs := Attachments.of_reach h
  have hnames : ∀ i conn p, .greeted i conn p ∈ log → p.packetIndex.toNat = i ∧
      p.header.packetID = EPacketType.connC.code ∧
        cfg.runtime.proto.clientId.parseFromArray p.payload =
          ({ index := UInt32.ofNat i }, true) := fun i conn p hp => by
    obtain ⟨heq, sock, hsock⟩ := hs.greeted i conn p hp
    have hlt := (hs.attached i sock conn hsock).1
    exact connPacket_names hP hround (by omega) heq
  refine ⟨⟨hs.table.length, fun i ctx hctx => ?_⟩, fun s' hstep => ?_, fun s' hstep => ?_, hnames,
    fun i sock conn j p hkept hp => ?_⟩
  · have hlt := Server.lt_of_context hctx
    rw [hs.table.length] at hlt
    rw [hs.table.getIndex_eq hctx, UInt32.toNat_ofNat']
    omega
  · obtain ⟨i, sock, conn, hpc, hs'⟩ := Server.connectClient_some hstep
    have hfree := hs.table.chosen_free i (by rw [hpc]; rfl)
    refine ⟨i, sock, conn, by simp [slotEvents, hpc], hfree, ?_⟩
    exact Server.socketAt_modify_self (by rw [hs']; rfl) (fun _ => rfl) hfree.1
  · obtain ⟨i, conn, ctx, hpc, hctx, rfl⟩ := Server.greetClient_some hstep
    exact ⟨i, conn, _, by simp [slotEvents, hpc, hctx], rfl⟩
  · obtain ⟨-, sock', hsock'⟩ := hs.greeted j conn p hp
    obtain rfl := hs.inj j i sock' sock conn hsock' hkept.mem
    obtain ⟨ctx, hctx, hsocket⟩ := Option.bind_eq_some_iff.1 (hs.kept j sock conn hkept)
    refine ⟨rfl, ctx, ?_, hsocket⟩
    rw [Server.getClientContext, UInt16.toNat_toUInt32, (hnames j conn p hp).1]
    exact hctx

/-- A slot is freed and taken by a second client: the second client's connection packet leads to its
context. -/
theorem second_client_keeps_its_slot :
    ∃ s log p ctx, Reach (slotSystem wireConfig) (fun _ _ => True) (wireServer 1, []) (s, log) ∧
      KeptSince log 0 8 1 ∧ .greeted 0 1 p ∈ log ∧
      s.getClientContext p.packetIndex.toUInt32 = some ctx ∧ ctx.socket = some 8 := by
  obtain ⟨⟨s, log⟩, hreach, hlog⟩ := Reach.exists_of_runIf (slotSystem wireConfig)
    (fun _ _ => True) (wireServer 1, [])
    (.scanSlot :: acceptEvents 7 ++ closeEvents ++ .scanSlot :: acceptEvents 8)
    (fun x => x.2.map SlotEvent.outline)
    (x := [(0, some 7, some 0), (0, none, some 0), (0, none, none)] ++
      [(0, some 8, some 1), (0, none, some 1)]) (by decide +kernel)
  -- the second attachment and the packet behind it
  obtain ⟨before, last, rfl, -, hlast⟩ := List.map_eq_append_iff.1 hlog
  obtain ⟨a, rest, rfl, ha, hrest⟩ := List.map_eq_cons_iff.1 hlast
  obtain ⟨g, tail, rfl, hg, htail⟩ := List.map_eq_cons_iff.1 hrest
  obtain rfl := SlotEvent.eq_attached ha
  obtain ⟨p, rfl⟩ := SlotEvent.eq_greeted hg
  obtain rfl := List.map_eq_nil_iff.1 htail
  have hkept : KeptSince (before ++ [.attached 0 8 1, .greeted 0 1 p]) 0 8 1 :=
    ⟨before, [.greeted 0 1 p], rfl, by simp⟩
  have hp : .greeted 0 1 p ∈ before ++ [SlotEvent.attached 0 8 1, .greeted 0 1 p] := by simp
  obtain ⟨-, ctx, hctx, hsocket⟩ := (accepted_client_keeps_its_slot lawful_wireProtobuf
    roundTrips_connMessage (by decide) hreach).2.2.2.2 0 8 1 0 p hkept hp
  exact ⟨s, _, p, ctx, hreach, hkept, hp, hctx, hsocket⟩

end IocpDemo
