/-
**The accept loop and the full table** (`AcceptThread`, `GetEmptyClientIndex`).

`GetEmptyClientIndex` reads the slots one after the other while worker threads and callers of
`DisconnectSocket` free them.  When it has seen every slot connected, `AcceptThread` prints
"Client Full" and returns: the accept loop does not outlive the first moment at which it looks for a
slot and finds none, although the loop has a branch that rejects a client and goes on.

Main definitions:

* `IocpDemo.ScanFindsRoom` — the condition on a step: a scan starts only while some slot is free;
* `IocpDemo.ScanAhead` — the invariant: a scan that is under way has a free slot ahead of it.

Main results:

* `IocpDemo.accept_loop_runs` — **if every scan starts with a free slot, the accept loop never
  returns, and a pending connection can be attached whenever a slot is free**;
* `IocpDemo.full_table_ends_accept_loop` — with `CLIENT_MAX` clients connected the next scan ends
  the loop for good.
-/

import IocpDemo.SlotTable
import IocpDemo.WireFormat
import Mathlib.Data.Finset.Insert
import Mathlib.Data.Fintype.EquivFin

set_option relaxedAutoImplicit false
set_option autoImplicit false

namespace IocpDemo

open Bytes Transition Wire

variable {cfg : Config} {s s' t : Server} {n : ℕ}

/-! ### The accept thread never gives up -/

/-- A scan that starts has a free slot to find.  A slot that is freed while the scan is under way
may lie behind it: so it does not make up for a table that was full at the beginning. -/
def ScanFindsRoom (s : Server) (e : Event) : Prop :=
  e = .scanSlot → s.acceptThread = .scan 0 → ∃ j, s.IsFree j

theorem Server.exists_isFree_iff :
    (∃ j, s.IsFree j) ↔ ∃ c ∈ s.contexts, c.isConnected = false := by
  constructor
  · rintro ⟨j, hj, hnone⟩
    obtain ⟨c, hc⟩ := Server.exists_context hj
    rw [Server.socketAt_eq hc] at hnone
    exact ⟨c, List.mem_of_getElem? hc, by simp [ClientContext.isConnected, hnone]⟩
  · rintro ⟨c, hc, hconn⟩
    obtain ⟨j, hj⟩ := List.mem_iff_getElem?.1 hc
    refine ⟨j, Server.lt_of_context hj, ?_⟩
    rw [Server.socketAt_eq hj]
    simpa [ClientContext.isConnected] using hconn

instance (s : Server) : Decidable (∃ j, s.IsFree j) :=
  decidable_of_iff _ Server.exists_isFree_iff.symm

instance (s : Server) (e : Event) : Decidable (ScanFindsRoom s e) :=
  inferInstanceAs (Decidable (_ → _ → _))

/-- The accept loop is running, and a scan under way has a free slot ahead of it. -/
structure ScanAhead (s : Server) : Prop where
  running : s.acceptThread ≠ .returned
  ahead : ∀ k, s.acceptThread = .scan (k + 1) → ∃ j, k + 1 ≤ j ∧ s.IsFree j

/-- Reading a slot in front of a free one: the scan stops here, or goes on with the free slot still
ahead of it. -/
theorem scanNext_of_free {k j : ℕ} (hkj : k ≤ j) (hfree : s.IsFree j) :
    Server.scanNext s.contexts k = .accepting k ∨
      Server.scanNext s.contexts k = .scan (k + 1) ∧ k + 1 ≤ j := by
  obtain ⟨c, hc⟩ := Server.exists_context (Nat.lt_of_le_of_lt hkj hfree.1)
  cases hconn : c.isConnected with
  | false => exact Or.inl (by simp [Server.scanNext, hc, hconn])
  | true =>
      refine Or.inr ⟨by simp [Server.scanNext, hc, hconn], ?_⟩
      have hne : k ≠ j := by
        rintro rfl
        have hnone : c.socket = none := by rw [← Server.socketAt_eq hc]; exact hfree.2
        simp [ClientContext.isConnected, hnone] at hconn
      omega

theorem ScanAhead.init (mem : ℕ → Mem) (n workers : ℕ) :
    ScanAhead (initServer mem n workers) where
  running := by simp [initServer]
  ahead k h := by simp [initServer] at h

theorem ScanAhead.step {e : Event} (h : step cfg s e = some s') (hroom : ScanFindsRoom s e)
    (hs : ScanAhead s) : ScanAhead s' := by
  rcases step_acceptThread h with ⟨hsame, hthread⟩ | hmove
  · -- another thread moves: it takes no slot
    have he : e ≠ .connectClient := by
      rintro rfl
      exact hthread rfl
    refine ⟨hsame ▸ hs.running, fun k hk => ?_⟩
    obtain ⟨j, hj, hfree⟩ := hs.ahead k (hsame ▸ hk)
    exact ⟨j, hj, hfree.step h he⟩
  · generalize hpc' : s'.acceptThread = pc at hmove
    cases hmove with
    | @scanned k hpc =>
        have hahead : ∃ j, k ≤ j ∧ s.IsFree j := by
          cases k with
          -- a scan that starts: this is where the condition is needed
          | zero =>
              obtain ⟨j, hj⟩ := hroom rfl hpc
              exact ⟨j, Nat.zero_le j, hj⟩
          | succ k => exact hs.ahead k hpc
        obtain ⟨j, hkj, hfree⟩ := hahead
        rcases scanNext_of_free hkj hfree with hstop | ⟨hnext, hj⟩
        · rw [hstop] at hpc'
          exact ⟨by simp [hpc'], fun k hk => by simp [hpc'] at hk⟩
        · rw [hnext] at hpc'
          refine ⟨by simp [hpc'], fun m hm => ?_⟩
          obtain rfl : k = m := by simpa [hpc'] using hm
          exact ⟨j, hj, hfree.step h (by simp)⟩
    | _ => exact ⟨by simp [hpc'], fun k hk => by simp [hpc'] at hk⟩

/-! ### What the accept thread can do on its own -/

/-- The accept thread can take the server from one state to the other while nothing else moves. -/
abbrev AcceptRun (cfg : Config) : Server → Server → Prop :=
  Reach (step cfg) fun _ e => e.thread = .accept

variable (cfg)

namespace AcceptRun

/-- A scan finds the free slot ahead of it, or one before it. -/
theorem find {k d : ℕ} (hpc : s.acceptThread = .scan k) (hfree : s.IsFree (k + d)) :
    ∃ i, s.IsFree i ∧ AcceptRun cfg s { s with acceptThread := .accepting i } := by
  -- the scan comes one slot closer to the free one, unless it stops before it
  induction d generalizing s k with
  | zero =>
      have hstop : Server.scanNext s.contexts k = .accepting k := by
        rcases scanNext_of_free (Nat.le_add_right k 0) hfree with hstop | ⟨-, hlt⟩
        · exact hstop
        · omega
      refine ⟨k, hfree, Reach.single (e := .scanSlot) rfl ?_⟩
      simp [step, Server.scanSlot, hpc, hstop]
  | succ d ih =>
      have hstep : step cfg s .scanSlot =
          some { s with acceptThread := Server.scanNext s.contexts k } := by
        simp [step, Server.scanSlot, hpc]
      rcases scanNext_of_free (Nat.le_add_right k _) hfree with hstop | ⟨hnext, -⟩
      · rw [hstop] at hstep
        exact ⟨k, Server.isFree_of_scanNext (by rw [hstop]; rfl), Reach.single rfl hstep⟩
      · rw [hnext] at hstep
        have hfree' : { s with acceptThread := AcceptPc.scan (k + 1) }.IsFree (k + 1 + d) := by
          rw [Nat.add_assoc, Nat.add_comm 1 d]
          exact hfree
        obtain ⟨i, hi, hrun⟩ := ih rfl hfree'
        exact ⟨i, hi, Reach.head rfl hstep hrun⟩

/-- The accepted socket is attached to the slot found empty. -/
theorem attach {i conn : ℕ} {sock : Socket} (hpc : s.acceptThread = .connecting i sock conn) :
    ∃ t, AcceptRun cfg s t ∧ t.acceptThread = .checking i sock conn ∧
      t.contexts = s.contexts.modify i (·.connectClient sock) := by
  have hstep : step cfg s .connectClient = some { s.modifyContext i (·.connectClient sock) with
      acceptThread := .checking i sock conn
      os := { s.os with keys := Function.update s.os.keys conn i }
      history := { s.history with occupant := Function.update s.history.occupant i conn } } := by
    simp [step, Server.connectClient, hpc]
  exact ⟨_, Reach.single rfl hstep, rfl, rfl⟩

/-- `WSAAccept` returns a socket, and it is attached to the slot found empty. -/
theorem accept {i : ℕ} {sock : Socket} (hpc : s.acceptThread = .accepting i)
    (hlisten : sock ≠ cfg.listenSocket) (hnew : s.os.connOf sock = none) :
    ∃ t conn, AcceptRun cfg s t ∧ t.acceptThread = .checking i sock conn ∧
      t.contexts = s.contexts.modify i (·.connectClient sock) := by
  have hstep : step cfg s (.wsaAccept (some sock)) = some { s with
      acceptThread := .connecting i sock s.os.accepted
      os := { s.os with
        sockets := s.os.sockets ++ [(sock, s.os.accepted)]
        accepted := s.os.accepted + 1 } } := by
    simp [step, Server.wsaAccept, hpc, hlisten, hnew]
  obtain ⟨t, hrun, ht⟩ := attach cfg (s := { s with
      acceptThread := .connecting i sock s.os.accepted
      os := { s.os with
        sockets := s.os.sockets ++ [(sock, s.os.accepted)]
        accepted := s.os.accepted + 1 } }) rfl
  exact ⟨t, s.os.accepted, Reach.head rfl hstep hrun, ht⟩

end AcceptRun

/-! ### Back to the head of the loop -/

/-- The accept thread is back at the head of its loop, and no socket has changed. -/
structure BackAtScan (s t : Server) : Prop where
  scan : t.acceptThread = .scan 0
  length : t.contexts.length = s.contexts.length
  socketAt : ∀ j, t.socketAt j = s.socketAt j
  connOf : ∀ sock, s.os.connOf sock = none → t.os.connOf sock = none

/-- Closing a socket opens none. -/
theorem OS.connOf_close {os : OS} {sock : Socket} (h : os.connOf sock = none)
    (x : Option Socket) : (os.close x).connOf sock = none := by
  simp only [OS.connOf, List.lookup_eq_none_iff] at h ⊢
  intro entry hentry
  exact h entry (List.mem_of_mem_filter hentry)

namespace AcceptRun

variable {i conn : ℕ}

theorem back_of_arming (hpc : s.acceptThread = .arming i conn) (hi : i < s.contexts.length) :
    ∃ t, AcceptRun cfg s t ∧ BackAtScan s t := by
  obtain ⟨c, hc⟩ := Server.exists_context hi
  have hstep : step cfg s (.acceptReceive false) =
      some { s.modifyContext i (·.zeroRecvBuf) with acceptThread := .scan 0 } := by
    simp [step, Server.acceptReceive, Server.receivePacket, hpc, hc, Server.modifyContext]
  refine ⟨_, Reach.single rfl hstep, rfl, step_length hstep, fun j => ?_, fun _ h => h⟩
  exact Server.socketAt_modify_of_eq (f := (·.zeroRecvBuf)) rfl (fun _ => rfl) j

theorem back_of_greeting (hpc : s.acceptThread = .greeting i conn) (hi : i < s.contexts.length) :
    ∃ t, AcceptRun cfg s t ∧ BackAtScan s t := by
  obtain ⟨c, hc⟩ := Server.exists_context hi
  have hstep : step cfg s .greetClient = some { s with
      acceptThread := .arming i conn
      que := onConnected cfg.runtime c.getIndex.toUInt16 s.que
      history := { s.history with owners := s.history.owners ++ [conn] } } := by
    simp [step, Server.greetClient, hpc, hc]
  obtain ⟨t, hrun, ht⟩ := back_of_arming cfg (s := { s with
      acceptThread := .arming i conn
      que := onConnected cfg.runtime c.getIndex.toUInt16 s.que
      history := { s.history with owners := s.history.owners ++ [conn] } }) rfl hi
  exact ⟨t, Reach.head rfl hstep hrun, ht.scan, ht.length, ht.socketAt, ht.connOf⟩

theorem back_of_counting (hpc : s.acceptThread = .counting i conn) (hi : i < s.contexts.length) :
    ∃ t, AcceptRun cfg s t ∧ BackAtScan s t := by
  have hstep : step cfg s .countClient = some { s with
      acceptThread := .greeting i conn, clientCount := s.clientCount + 1 } := by
    simp [step, Server.countClient, hpc]
  obtain ⟨t, hrun, ht⟩ := back_of_greeting cfg (s := { s with
      acceptThread := .greeting i conn, clientCount := s.clientCount + 1 }) rfl hi
  exact ⟨t, Reach.head rfl hstep hrun, ht.scan, ht.length, ht.socketAt, ht.connOf⟩

/-- Whether the new socket is still there or not, the accept thread goes on. -/
theorem back_of_checking {sock : Socket} (hpc : s.acceptThread = .checking i sock conn)
    (hi : i < s.contexts.length) : ∃ t, AcceptRun cfg s t ∧ BackAtScan s t := by
  obtain ⟨c, hc⟩ := Server.exists_context hi
  cases hconn : c.isConnected with
  | true =>
      have hstep : step cfg s .checkConnected =
          some { s with acceptThread := .counting i conn } := by
        simp [step, Server.checkConnected, hpc, hc, hconn]
      obtain ⟨t, hrun, ht⟩ := back_of_counting cfg
        (s := { s with acceptThread := .counting i conn }) rfl hi
      exact ⟨t, Reach.head rfl hstep hrun, ht.scan, ht.length, ht.socketAt, ht.connOf⟩
  | false =>
      have hstep : step cfg s .checkConnected =
          some { s with acceptThread := .scan 0, os := s.os.close (some sock) } := by
        simp [step, Server.checkConnected, hpc, hc, hconn]
      exact ⟨_, Reach.single rfl hstep, rfl, rfl, fun _ => rfl, fun _ h => OS.connOf_close h _⟩

end AcceptRun

variable {cfg}

/-! ### A pending connection is attached -/

/-- The socket that is attached next, when `WSAAccept` would return `sock`. -/
def AcceptPc.incoming (sock : Socket) : AcceptPc → Socket
  | .connecting _ h _ => h
  | _ => sock

/-- From the head of the loop, a free slot is found and taken. -/
theorem attach_of_scan {k j : ℕ} {sock : Socket} (hpc : s.acceptThread = .scan k)
    (hkj : k ≤ j) (hfree : s.IsFree j) (hlisten : sock ≠ cfg.listenSocket)
    (hnew : s.os.connOf sock = none) :
    ∃ i t, s.IsFree i ∧ AcceptRun cfg s t ∧ t.socketAt i = some sock := by
  obtain ⟨d, rfl⟩ := Nat.exists_eq_add_of_le hkj
  obtain ⟨i, hi, hrun⟩ := AcceptRun.find cfg hpc hfree
  obtain ⟨t, conn, hrun', -, ht⟩ := AcceptRun.accept cfg
    (s := { s with acceptThread := .accepting i }) rfl hlisten hnew
  exact ⟨i, t, hi, hrun.trans hrun', Server.socketAt_modify_self ht (fun _ => rfl) hi.1⟩

/-- The same after a way back to the head of the loop. -/
theorem attach_of_back {j : ℕ} {sock : Socket} (hback : ∃ t, AcceptRun cfg s t ∧ BackAtScan s t)
    (hfree : s.IsFree j) (hlisten : sock ≠ cfg.listenSocket) (hnew : s.os.connOf sock = none) :
    ∃ i t, s.IsFree i ∧ AcceptRun cfg s t ∧ t.socketAt i = some sock := by
  obtain ⟨t, hrun, ht⟩ := hback
  have hiff : ∀ i, t.IsFree i ↔ s.IsFree i := by
    intro i
    rw [Server.IsFree, Server.IsFree, ht.length, ht.socketAt]
  obtain ⟨i, u, hi, hrun', hu⟩ :=
    attach_of_scan ht.scan (Nat.zero_le j) ((hiff j).2 hfree) hlisten (ht.connOf sock hnew)
  exact ⟨i, u, (hiff i).1 hi, hrun.trans hrun', hu⟩

/-- **The accept loop runs on.**  In a run in which every scan starts with a free slot,
`AcceptThread` never returns; and whenever a slot is free, the accept thread alone can attach the
pending connection to a free slot. -/
theorem accept_loop_runs {mem : ℕ → Mem} {workers : ℕ}
    (h : Reach (step cfg) ScanFindsRoom (initServer mem n workers) s) :
    s.acceptThread ≠ .returned ∧
      ∀ sock, sock ≠ cfg.listenSocket → s.os.connOf sock = none → (∃ j, s.IsFree j) →
        ∃ i t, s.IsFree i ∧ AcceptRun cfg s t ∧
          t.socketAt i = some (s.acceptThread.incoming sock) := by
  have hahead : ScanAhead s :=
    h.invariant (ScanAhead.init mem n workers) fun _ _ _ hi hP hs => hi.step hs hP
  have htable : SlotTable n s := SlotTable.of_reach h
  have hslot : ∀ i, s.acceptThread.slot = some i → i < s.contexts.length := by
    intro i hi
    exact htable.length.symm ▸ htable.slot_lt i hi
  refine ⟨hahead.running, fun sock hlisten hnew hroom => ?_⟩
  obtain ⟨j, hj⟩ := hroom
  cases hpc : s.acceptThread with
  | scan k =>
      cases k with
      | zero => exact attach_of_scan hpc (Nat.zero_le j) hj hlisten hnew
      | succ k =>
          obtain ⟨m, hkm, hm⟩ := hahead.ahead k hpc
          exact attach_of_scan hpc hkm hm hlisten hnew
  | accepting i =>
      have hi := htable.chosen_free i (by rw [hpc]; rfl)
      obtain ⟨t, conn, hrun, -, ht⟩ := AcceptRun.accept cfg hpc hlisten hnew
      exact ⟨i, t, hi, hrun, Server.socketAt_modify_self ht (fun _ => rfl) hi.1⟩
  | connecting i sock' conn =>
      have hi := htable.chosen_free i (by rw [hpc]; rfl)
      obtain ⟨t, hrun, -, ht⟩ := AcceptRun.attach cfg hpc
      exact ⟨i, t, hi, hrun, Server.socketAt_modify_self ht (fun _ => rfl) hi.1⟩
  -- behind the attachment of a socket, the accept thread first comes back to the scan
  | checking i sock' conn =>
      have hi := hslot i (by rw [hpc]; rfl)
      exact attach_of_back (AcceptRun.back_of_checking cfg hpc hi) hj hlisten hnew
  | counting i conn =>
      have hi := hslot i (by rw [hpc]; rfl)
      exact attach_of_back (AcceptRun.back_of_counting cfg hpc hi) hj hlisten hnew
  | greeting i conn =>
      have hi := hslot i (by rw [hpc]; rfl)
      exact attach_of_back (AcceptRun.back_of_greeting cfg hpc hi) hj hlisten hnew
  | arming i conn =>
      have hi := hslot i (by rw [hpc]; rfl)
      exact attach_of_back (AcceptRun.back_of_arming cfg hpc hi) hj hlisten hnew
  | returned => exact absurd hpc hahead.running

/-- A run with two slots in which a client has been served: a slot is free, and the socket `8` can
be attached to it. -/
theorem second_client_attached :
    ∃ s i t, Reach (step wireConfig) ScanFindsRoom (wireServer 2) s ∧
      s.socketAt 0 = some 7 ∧ s.IsFree i ∧ AcceptRun wireConfig s t ∧
      t.socketAt i = some 8 := by
  obtain ⟨s, hreach, hfacts⟩ := Reach.exists_of_runIf (step wireConfig)
    ScanFindsRoom (wireServer 2)
    (.scanSlot :: acceptEvents 7)
    (fun s => (s.socketAt 0, decide (∃ j, s.IsFree j), s.os.connOf 8, s.acceptThread))
    (x := (some 7, true, none, .scan 0)) (by decide +kernel)
  simp only [Prod.mk.injEq, decide_eq_true_eq] at hfacts
  obtain ⟨hsock, hfree, hnew, hpc⟩ := hfacts
  obtain ⟨i, t, hi, hrun, ht⟩ := (accept_loop_runs hreach).2 8 (by decide) hnew hfree
  exact ⟨s, i, t, hreach, hsock, hi, hrun, by rw [ht, hpc]; rfl⟩

/-! ### The full table -/

/-- A scan over connected slots goes on behind them. -/
theorem AcceptRun.scan_connected {d : ℕ} (hpc : s.acceptThread = .scan 0)
    (hconn : ∀ j < d, ∃ sock, s.socketAt j = some sock) :
    AcceptRun cfg s { s with acceptThread := .scan d } := by
  induction d with
  | zero =>
      rw [← hpc]
      exact Reach.refl
  | succ d ih =>
      have hrun : AcceptRun cfg s { s with acceptThread := .scan d } :=
        ih fun j hj => hconn j (by omega)
      obtain ⟨sock, hsock⟩ := hconn d (by omega)
      refine hrun.tail (e := .scanSlot) rfl ?_
      cases hc : s.contexts[d]? with
      | none => simp [Server.socketAt, hc] at hsock
      | some c =>
          have hs : c.socket = some sock := by rw [← Server.socketAt_eq hc]; exact hsock
          simp [step, Server.scanSlot, Server.scanNext, hc, ClientContext.isConnected, hs]

/-- `AcceptThread` has returned for good. -/
theorem returned_forever {P : Server → Event → Prop} (hpc : s.acceptThread = .returned)
    (h : Reach (step cfg) P s t) : t.acceptThread = .returned := by
  refine h.invariant (I := fun u => u.acceptThread = .returned) hpc fun u e v hu _ hstep => ?_
  rcases step_acceptThread hstep with ⟨hsame, -⟩ | hmove
  · rw [hsame, hu]
  · generalize v.acceptThread = pc at hmove ⊢
    cases hmove <;> simp_all

/-- The first `k` slots are connected, the others are free, and the accept thread is at the head of
its loop. -/
structure Filled (n k : ℕ) (s : Server) : Prop where
  scan : s.acceptThread = .scan 0
  length : s.contexts.length = n
  connected : ∀ j < k, ∃ sock, s.socketAt j = some sock
  free : ∀ j, k ≤ j → s.socketAt j = none

/-- There is a socket that is not open. -/
theorem exists_new_socket (os : OS) (listenSocket : Socket) :
    ∃ sock, sock ≠ listenSocket ∧ os.connOf sock = none := by
  obtain ⟨sock, hsock⟩ := Infinite.exists_notMem_finset
    (insert listenSocket (os.sockets.map Prod.fst).toFinset)
  simp only [Finset.mem_insert, List.mem_toFinset, List.mem_map, not_or, not_exists,
    not_and] at hsock
  refine ⟨sock, hsock.1, ?_⟩
  simp only [OS.connOf, List.lookup_eq_none_iff]
  intro entry hentry
  have := hsock.2 entry hentry
  simpa using Ne.symm this

variable (cfg)

/-- One more client: the accept thread finds slot `k`, attaches a socket and comes back. -/
theorem Filled.succ {k : ℕ} (hs : Filled n k s) (hk : k < n) :
    ∃ t, AcceptRun cfg s t ∧ Filled n (k + 1) t := by
  have hfree : s.IsFree k := ⟨by rw [hs.length]; exact hk, hs.free k (Nat.le_refl k)⟩
  -- all slots before `k` are connected, so the scan stops at `k`
  have hfound : AcceptRun cfg s { s with acceptThread := .accepting k } := by
    refine (AcceptRun.scan_connected hs.scan hs.connected).tail (e := .scanSlot) rfl ?_
    rcases scanNext_of_free (Nat.le_refl k) hfree with hstop | ⟨-, hlt⟩
    · simp [step, Server.scanSlot, hstop]
    · omega
  -- any socket that is not open may be the next one accepted
  obtain ⟨sock, hlisten, hnew⟩ := exists_new_socket s.os cfg.listenSocket
  obtain ⟨u, conn, haccept, hpc, hctx⟩ := AcceptRun.accept cfg
    (s := { s with acceptThread := .accepting k }) rfl hlisten hnew
  have hlen : u.contexts.length = n := by rw [hctx, List.length_modify]; exact hs.length
  obtain ⟨t, hrun, ht⟩ := AcceptRun.back_of_checking cfg hpc (by rw [hlen]; exact hk)
  have hself : u.socketAt k = some sock := Server.socketAt_modify_self hctx (fun _ => rfl) hfree.1
  have hother : ∀ j, k ≠ j → u.socketAt j = s.socketAt j := by
    intro j hj
    exact Server.socketAt_modify_of_ne hctx hj
  refine ⟨t, (hfound.trans haccept).trans hrun, ht.scan, ht.length.trans hlen, ?_, ?_⟩
  · intro j hj
    rw [ht.socketAt]
    rcases Nat.lt_succ_iff_lt_or_eq.1 hj with hlt | rfl
    · rw [hother j (by omega)]
      exact hs.connected j hlt
    · exact ⟨sock, hself⟩
  · intro j hj
    rw [ht.socketAt, hother j (by omega)]
    exact hs.free j (by omega)

theorem exists_filled (mem : ℕ → Mem) (workers : ℕ) {k : ℕ} (hk : k ≤ n) :
    ∃ s, AcceptRun cfg (initServer mem n workers) s ∧ Filled n k s := by
  induction k with
  | zero =>
      exact ⟨_, Reach.refl, rfl, (SlotTable.init mem n workers).length, fun j hj => by omega,
        fun j _ => Server.socketAt_initServer mem n workers j⟩
  | succ k ih =>
      obtain ⟨s, hrun, hs⟩ := ih (by omega)
      obtain ⟨t, hrun', ht⟩ := hs.succ cfg (by omega)
      exact ⟨t, hrun.trans hrun', ht⟩

variable {cfg}

/-- When the table is full, the next scan ends the accept loop. -/
theorem Filled.returns (hs : Filled n n s) :
    AcceptRun cfg s { s with acceptThread := .returned } := by
  refine (AcceptRun.scan_connected hs.scan hs.connected).tail (e := .scanSlot) rfl ?_
  have hnone : s.contexts[n]? = none := List.getElem?_eq_none (by rw [hs.length])
  simp [step, Server.scanSlot, Server.scanNext, hnone]

theorem AcceptRun.closeThread (h : AcceptRun cfg s t) : t.closeThread = s.closeThread := by
  refine h.invariant (I := fun u => u.closeThread = s.closeThread) rfl fun u e v hu he hstep => ?_
  rw [(step_frame hstep).closeThread (by rintro rfl; cases he), hu]

variable (cfg) in
/-- Any connected slot can be freed by `DisconnectSocket`, whatever the other threads do. -/
theorem exists_free_of_disconnect {i : ℕ} {sock : Socket} (hsock : s.socketAt i = some sock) :
    ∃ t, Reach (step cfg) (fun _ _ => True) s t ∧ t.IsFree i ∧
      t.acceptThread = s.acceptThread ∧ t.closeThread = s.closeThread := by
  obtain ⟨c, hc, hs⟩ : ∃ c, s.contexts[i]? = some c ∧ c.socket = some sock :=
    Option.bind_eq_some_iff.1 hsock
  have hclose : step cfg s (.disconnect i) =
      some { s with os := s.os.close c.socket, disconnecting := s.disconnecting ++ [i] } := by
    simp [step, Server.disconnect, hc, ClientContext.isConnected, hs]
  have hforget : ∃ t, step cfg { s with
      os := s.os.close c.socket, disconnecting := s.disconnecting ++ [i] }
      (.disconnectForget s.disconnecting.length) = some t := by
    simp [step, Server.disconnectForget]
  obtain ⟨t, ht⟩ := hforget
  have hframe := step_frame ht
  refine ⟨t, Reach.head trivial hclose (Reach.single trivial ht), ⟨?_, ?_⟩, ?_, ?_⟩
  · rw [step_length ht]
    exact Server.lt_of_context hc
  · obtain ⟨j, hj, rfl⟩ := Server.disconnectForget_some ht
    obtain rfl : i = j := by simpa using hj
    exact Server.socketAt_modify_self rfl (fun _ => rfl) (Server.lt_of_context hc)
  · exact hframe.acceptThread (by simp [Event.thread])
  · exact hframe.closeThread (by simp)

/-- **With a full table the accept loop ends**: although `CloseThread` has not been called and a
slot is free again, no later state has the accept thread running. -/
theorem full_table_ends_accept_loop :
    ∃ s, Reach (step wireConfig) (fun _ _ => True)
        (wireServer clientMax) s ∧
      s.closeThread = .notCalled ∧ s.IsFree 0 ∧ s.acceptThread = .returned ∧
      ∀ t, Reach (step wireConfig) (fun _ _ => True) s t →
        t.acceptThread = .returned := by
  obtain ⟨s, hrun, hs⟩ := exists_filled wireConfig (n := clientMax)
    (fun _ _ => 0) 1 (Nat.le_refl _)
  have hfull := hrun.trans hs.returns
  -- the slot that is freed afterwards comes too late
  obtain ⟨sock, hsock⟩ := hs.connected 0 (by decide)
  obtain ⟨t, ht, hfree, haccept, hclose⟩ := exists_free_of_disconnect
    wireConfig (s := { s with acceptThread := .returned }) hsock
  refine ⟨t, (hfull.mono fun _ _ _ => trivial).trans ht, ?_, hfree, haccept, ?_⟩
  · rw [hclose, AcceptRun.closeThread hfull]
    rfl
  · intro u hu
    exact returned_forever haccept hu

end IocpDemo
