/-
**Where the threads wait** (`AcceptThread`, `WorkThread`, `SendThread`, `SendBroadCastThread`,
`CloseThread`).

A thread that cannot move waits for something, has ended, or has done what the language leaves
undefined.  In the reachable states there are few such places: the completion queue, in which a
worker thread waits for ever if need be, the joins of `CloseThread`, the ends of the threads, and
the unchecked index of `SendPacket`.  Every other access to `ClientContexts` finds its context.

`GetQueuedCompletionStatus` is called with `INFINITE`, and nobody posts to the completion port to
wake a worker thread.  Once `AcceptThread` has returned, because it has found the table full, and
the clients have left again, no completion will ever arrive, and `CloseThread` joins the worker
threads for ever.

Main definitions:

* `IocpDemo.Server.Moves`, `IocpDemo.Server.Waits` — a thread can move, and a thread waits;
* `IocpDemo.Keys` — the contexts that the completions name are in the table;
* `IocpDemo.Server.Emptied` — no receive is in flight, and none will be issued.

Main results:

* `IocpDemo.moves_iff_not_waits` — **a thread can move unless it waits**;
* `IocpDemo.emptied_server_stays_empty` — **a server whose accept thread has returned and whose
  clients have left accepts nobody and is not shut down**.
-/

import IocpDemo.Sessions

set_option relaxedAutoImplicit false
set_option autoImplicit false

namespace IocpDemo

open Bytes Transition Wire

variable {cfg : Config} {s s' : Server} {n w : ℕ} {e : Event} {t : Thread}

/-! ### Moving and waiting -/

namespace Server

/-- The thread can move, if the operating system answers accordingly. -/
def Moves (cfg : Config) (s : Server) (t : Thread) : Prop :=
  ∃ e, e.thread = t ∧ (step cfg s e).isSome = true

/-- The thread waits for another one, has ended or has crashed. -/
def Waits (s : Server) : Thread → Prop
  | .accept => s.acceptThread = .returned
  | .work w => ∀ pc, s.workThreads[w]? = some pc →
      pc = .stopped ∨ pc = .waiting ∧ s.os.completions = []
  | .os => s.os.outstanding = []
  | .send => s.sendThread = .stopped ∨ ∃ p, s.sendThread = .crashed p
  | .broadCast => s.broadCastThread = .stopped
  | .disconnect => s.disconnecting = [] ∧ ∀ i, ¬ s.Connected i
  | .close =>
      match s.closeThread with
      | .notCalled => False
      | .joinAccept => s.acceptThread ≠ .returned
      | .joinWork => ∃ pc ∈ s.workThreads, pc ≠ .stopped
      | .joinSend => s.sendThread ≠ .stopped
      | .joinBroadCast => s.broadCastThread ≠ .stopped
      | .finished => True

end Server

/-- A thread that waits makes no step. -/
theorem not_waits_of_step (h : step cfg s e = some s') : ¬ s.Waits e.thread := by
  intro hwaits
  cases hthread : e.thread with
  | accept =>
      rw [hthread] at hwaits
      rcases step_acceptThread h with ⟨-, hne⟩ | hmove
      · exact hne hthread
      · have hpc : s.acceptThread = .returned := hwaits
        generalize s'.acceptThread = pc at hmove
        cases hmove <;> simp_all
  | work w =>
      rw [hthread] at hwaits
      rcases step_workThreads h with ⟨-, hne⟩ | ⟨v, pc, pc', hmove, hpc, -⟩
      · exact hne w hthread
      · have hvw : v = w := by cases hmove <;> exact Thread.work.inj hthread
        subst hvw
        rcases hwaits pc hpc with rfl | ⟨rfl, hempty⟩
        · cases hmove
        · cases hmove with
          | got hq => rw [hempty] at hq; cases hq
  | os =>
      rw [hthread] at hwaits
      cases e with
      | completeRecv k bSuccess data =>
          obtain ⟨r, hr, -⟩ := Server.completeRecv_some h
          have hempty : s.os.outstanding = [] := hwaits
          rw [hempty] at hr
          cases hr
      | _ => cases hthread
  | send =>
      rw [hthread] at hwaits
      rcases step_sendThread h with ⟨-, hne⟩ | hmove
      · exact hne hthread
      · generalize s'.sendThread = pc at hmove
        rcases hwaits with hpc | ⟨p, hpc⟩ <;> cases hmove <;> simp_all
  | broadCast =>
      rw [hthread] at hwaits
      rcases step_broadCastThread h with ⟨-, hne⟩ | hmove
      · exact hne hthread
      · have hpc : s.broadCastThread = .stopped := hwaits
        generalize s'.broadCastThread = pc at hmove
        cases hmove <;> simp_all
  | disconnect =>
      rw [hthread] at hwaits
      obtain ⟨hempty, hfree⟩ : s.disconnecting = [] ∧ ∀ i, ¬ s.Connected i := hwaits
      cases e with
      | disconnect i =>
          obtain ⟨c, hctx, hconn, -⟩ := Server.disconnect_some h
          exact hfree i ((Server.connected_iff_context hctx).2 hconn)
      | disconnectForget k =>
          obtain ⟨i, hi, -⟩ := Server.disconnectForget_some h
          rw [hempty] at hi
          cases hi
      | _ => cases hthread
  | close =>
      rw [hthread] at hwaits
      cases e with
      | closeThreads =>
          have h : s.closeThreads = some s' := h
          simp only [Server.Waits] at hwaits
          cases hpc : s.closeThread <;> rw [hpc] at hwaits <;>
            simp only [Server.closeThreads, hpc] at h
          · exact hwaits
          · rw [if_neg hwaits] at h
            cases h
          · obtain ⟨pc, hmem, hne⟩ := hwaits
            rw [if_neg fun hall => hne (hall pc hmem)] at h
            cases h
          -- the thread that is joined has not ended, and nothing is left to do behind the last join
          · cases h
          · cases h
          · cases h
      | _ => cases hthread

/-! ### The contexts that are looked up -/

/-- **The contexts that the operating system and the worker threads name are in the table.** -/
structure Keys (n : ℕ) (s : Server) : Prop where
  keys : 0 < n → ∀ conn, s.os.keys conn < n
  outstanding : ∀ r ∈ s.os.outstanding, r.key < n
  completions : ∀ c ∈ s.os.completions, c.key < n
  workers : ∀ pc ∈ s.workThreads, ∀ i ∈ pc.key, i < n

namespace Keys

theorem init (mem : ℕ → Mem) (n workers : ℕ) : Keys n (initServer mem n workers) where
  keys hn _ := hn
  outstanding r hr := by cases hr
  completions c hc := by cases hc
  workers pc hpc i hi := by
    obtain rfl := (List.mem_replicate.1 hpc).2
    cases hi

/-- A connection is associated with the slot it is attached to. -/
theorem keys_step (hs : Keys n s) (ht : SlotTable n s) (h : IocpDemo.step cfg s e = some s')
    (hn : 0 < n) (conn : ℕ) : s'.os.keys conn < n := by
  cases e with
  | connectClient =>
      obtain ⟨i, sock, new, hpc, rfl⟩ := Server.connectClient_some h
      have hi := ht.slot_lt i (by rw [hpc]; rfl)
      by_cases hnew : conn = new
      · simpa [hnew] using hi
      · simpa [hnew] using hs.keys hn conn
  | wsaAccept r =>
      cases r with
      | none => exact ((step_os h).sockets rfl).2.1 ▸ hs.keys hn conn
      | some sock =>
          obtain ⟨i, -, -, -, rfl⟩ := Server.wsaAccept_some_some h
          exact hs.keys hn conn
  | checkConnected =>
      obtain ⟨i, sock, new, c, -, -, ⟨-, rfl⟩ | ⟨-, rfl⟩⟩ := Server.checkConnected_some h <;>
        exact hs.keys hn conn
  | closeSocket w =>
      obtain ⟨c, ctx, -, -, rfl⟩ := Server.closeSocket_some h
      exact hs.keys hn conn
  | disconnect i =>
      obtain ⟨c, -, -, rfl⟩ := Server.disconnect_some h
      exact hs.keys hn conn
  | _ => exact ((step_os h).sockets rfl).2.1 ▸ hs.keys hn conn

/-- A receive is issued under the key of a connection. -/
theorem outstanding_of_receive {i : ℕ} {pending : Bool} (hlength : s.contexts.length = n)
    (hkeys : 0 < n → ∀ conn, s.os.keys conn < n) (hout : ∀ r ∈ s.os.outstanding, r.key < n)
    (h : s.receivePacket i pending = some s') : ∀ r ∈ s'.os.outstanding, r.key < n := by
  obtain ⟨c, hctx, ⟨-, rfl⟩ | ⟨-, sock, conn, -, -, rfl⟩⟩ := Server.receivePacket_some h
  · exact hout
  · intro r hr
    have hlt := hlength ▸ Server.lt_of_context hctx
    rcases List.mem_append.1 hr with hold | hnew
    · exact hout r hold
    · obtain rfl := List.mem_singleton.1 hnew
      exact hkeys (Nat.zero_lt_of_lt hlt) conn

theorem outstanding_step (hs : Keys n s) (ht : SlotTable n s)
    (h : IocpDemo.step cfg s e = some s') : ∀ r ∈ s'.os.outstanding, r.key < n := by
  cases e with
  | acceptReceive pending =>
      obtain ⟨i, conn, -, h⟩ := Server.acceptReceive_some h
      refine outstanding_of_receive ?_ ?_ ?_ h
      · exact ht.length
      · exact hs.keys
      · exact hs.outstanding
  | workReceive w pending =>
      obtain ⟨c, hpc, h⟩ := Server.workReceive_some h
      refine outstanding_of_receive ?_ ?_ ?_ h
      · exact ht.length
      · exact hs.keys
      · exact hs.outstanding
  | getCompletion w =>
      obtain ⟨c, rest, -, -, rfl⟩ := Server.getCompletion_some h
      exact hs.outstanding
  | completeRecv k bSuccess data =>
      obtain ⟨r, -, -, -, rfl⟩ := Server.completeRecv_some h
      exact fun r hr => hs.outstanding r (List.mem_of_mem_eraseIdx hr)
  | _ => exact ((step_os h).receives rfl).1 ▸ hs.outstanding

theorem completions_step (hs : Keys n s) (h : IocpDemo.step cfg s e = some s') :
    ∀ c ∈ s'.os.completions, c.key < n := by
  cases e with
  | acceptReceive pending =>
      obtain ⟨i, conn, -, h⟩ := Server.acceptReceive_some h
      exact Server.receivePacket_completions h ▸ hs.completions
  | workReceive w pending =>
      obtain ⟨c, -, h⟩ := Server.workReceive_some h
      exact Server.receivePacket_completions h ▸ hs.completions
  | getCompletion w =>
      obtain ⟨c, rest, -, hq, rfl⟩ := Server.getCompletion_some h
      exact fun d hd => hs.completions d (hq ▸ List.mem_cons_of_mem c hd)
  | completeRecv k bSuccess data =>
      obtain ⟨r, hr, -, -, rfl⟩ := Server.completeRecv_some h
      intro c hc
      rcases List.mem_append.1 hc with hold | hnew
      · exact hs.completions c hold
      · obtain rfl := List.mem_singleton.1 hnew
        exact hs.outstanding r (List.mem_of_getElem? hr)
  | _ => exact ((step_os h).receives rfl).2 ▸ hs.completions

/-- A worker thread works at the context of the completion it has fetched. -/
theorem workers_step (hs : Keys n s) (h : IocpDemo.step cfg s e = some s') :
    ∀ pc ∈ s'.workThreads, ∀ i ∈ pc.key, i < n := by
  intro q hq i hi
  rcases step_workThreads h with ⟨hsame, -⟩ | ⟨w, pc, pc', hmove, hpc, hset⟩
  · exact hs.workers q (hsame ▸ hq) i hi
  · rcases List.mem_or_eq_of_mem_set (hset ▸ hq) with hold | rfl
    · exact hs.workers q hold i hi
    · have hkey := hs.workers pc (List.mem_of_getElem? hpc)
      cases hmove with
      | entered => split at hi <;> cases hi
      | @got _ c rest hcompletions =>
          have hc := hs.completions c (hcompletions ▸ List.mem_cons_self)
          rcases Server.afterCompletion_cases c with hnext | hnext | hnext <;> rw [hnext] at hi
          · obtain rfl := Option.some.inj hi
            exact hc
          · cases hi
          · obtain rfl := Option.some.inj hi
            exact hc
      | closed | handled _ _ => exact hkey i hi
      | forgot | ignored _ _ | rearmed => cases hi

theorem step (hs : Keys n s) (ht : SlotTable n s) (h : IocpDemo.step cfg s e = some s') :
    Keys n s' where
  keys := hs.keys_step ht h
  outstanding := hs.outstanding_step ht h
  completions := hs.completions_step h
  workers := hs.workers_step h

/-- **The invariant of all runs.** -/
theorem of_reach {P : Server → Event → Prop} {mem : ℕ → Mem} {workers : ℕ}
    (h : Reach (IocpDemo.step cfg) P (initServer mem n workers) s) : Keys n s :=
  h.and_invariant (fun _ ht => SlotTable.of_reach ht) (init mem n workers)
    fun _ _ _ ht _ hs _ hstep => hs.step ht hstep

end Keys

/-! ### Who can move -/

/-- `ReceivePacket` finds its context; the receive may fail at once. -/
theorem receivePacket_isSome {i : ℕ} (hi : i < s.contexts.length) :
    (s.receivePacket i false).isSome = true := by
  obtain ⟨c, hctx⟩ := Server.exists_context hi
  simp [Server.receivePacket, hctx]

theorem accept_moves (ht : SlotTable n s) (hwaits : ¬ s.Waits .accept) : s.Moves cfg .accept := by
  have hslot : ∀ i, s.acceptThread.slot = some i → ∃ c, s.contexts[i]? = some c := by
    intro i hi
    have hlt := ht.slot_lt i hi
    exact Server.exists_context (ht.length.symm ▸ hlt)
  cases hpc : s.acceptThread with
  | scan k => exact ⟨.scanSlot, rfl, by simp [step, Server.scanSlot, hpc]⟩
  | accepting i => exact ⟨.wsaAccept none, rfl, by simp [step, Server.wsaAccept, hpc]⟩
  | connecting i sock conn =>
      exact ⟨.connectClient, rfl, by simp [step, Server.connectClient, hpc]⟩
  | checking i sock conn =>
      obtain ⟨c, hctx⟩ := hslot i (by rw [hpc]; rfl)
      refine ⟨.checkConnected, rfl, ?_⟩
      cases hc : c.isConnected <;> simp [step, Server.checkConnected, hpc, hctx, hc]
  | counting i conn => exact ⟨.countClient, rfl, by simp [step, Server.countClient, hpc]⟩
  | greeting i conn =>
      obtain ⟨c, hctx⟩ := hslot i (by rw [hpc]; rfl)
      exact ⟨.greetClient, rfl, by simp [step, Server.greetClient, hpc, hctx]⟩
  | arming i conn =>
      obtain ⟨c, hctx⟩ := hslot i (by rw [hpc]; rfl)
      refine ⟨.acceptReceive false, rfl, ?_⟩
      simp only [step, Server.acceptReceive, hpc]
      exact receivePacket_isSome (Server.lt_of_context hctx)
  | returned => exact absurd hpc hwaits

theorem work_moves (ht : SlotTable n s) (hs : Keys n s) (hwaits : ¬ s.Waits (.work w)) :
    s.Moves cfg (.work w) := by
  simp only [Server.Waits, not_forall, not_or, not_and] at hwaits
  obtain ⟨pc, hpc, hstopped, hwaiting⟩ := hwaits
  have hkey : ∀ i ∈ pc.key, ∃ c, s.contexts[i]? = some c := by
    intro i hi
    have hlt := hs.workers pc (List.mem_of_getElem? hpc) i hi
    exact Server.exists_context (ht.length.symm ▸ hlt)
  cases pc with
  | top => exact ⟨.workTop w, rfl, by simp [step, Server.workTop, hpc]⟩
  | waiting =>
      obtain ⟨c, rest, hq⟩ := List.exists_cons_of_ne_nil (hwaiting rfl)
      exact ⟨.getCompletion w, rfl, by simp [step, Server.getCompletion, hpc, hq]⟩
  | closing c =>
      obtain ⟨ctx, hctx⟩ := hkey c.key rfl
      exact ⟨.closeSocket w, rfl, by simp [step, Server.closeSocket, hpc, hctx]⟩
  | forgetting c => exact ⟨.forgetSocket w, rfl, by simp [step, Server.forgetSocket, hpc]⟩
  | received c =>
      obtain ⟨ctx, hctx⟩ := hkey c.key rfl
      refine ⟨.deSerialize w, rfl, ?_⟩
      cases hd : dispatchOf cfg.listenSocket ctx <;> simp [step, Server.deSerialize, hpc, hctx, hd]
  | rearming c =>
      obtain ⟨ctx, hctx⟩ := hkey c.key rfl
      refine ⟨.workReceive w false, rfl, ?_⟩
      simp only [step, Server.workReceive, hpc]
      exact receivePacket_isSome (Server.lt_of_context hctx)
  | stopped => exact absurd rfl hstopped

theorem send_moves (hwaits : ¬ s.Waits .send) : s.Moves cfg .send := by
  simp only [Server.Waits, not_or, not_exists] at hwaits
  cases hpc : s.sendThread with
  | top => exact ⟨.sendTop, rfl, by simp [step, Server.sendTop, hpc]⟩
  | popping => exact ⟨.popPacket, rfl, by simp [step, Server.popPacket, hpc]⟩
  | holding p conn => exact ⟨.sendPacket, rfl, by simp [step, Server.sendPacket, hpc]⟩
  | copying p conn => exact ⟨.sendCopy, rfl, by simp [step, Server.sendCopy, hpc]⟩
  | sending p conn =>
      exact ⟨.sendWsa none, rfl, by simp [step, Server.sendWsa, hpc, Server.wsaSendReturns]⟩
  | crashed p => exact absurd hpc (hwaits.2 p)
  | stopped => exact absurd hpc hwaits.1

theorem broadCast_moves (hwaits : ¬ s.Waits .broadCast) : s.Moves cfg .broadCast := by
  cases hpc : s.broadCastThread with
  | top => exact ⟨.bcTop, rfl, by simp [step, Server.bcTop, hpc]⟩
  | popping => exact ⟨.popBCPacket, rfl, by simp [step, Server.popBCPacket, hpc]⟩
  | looping p i => exact ⟨.bcTest, rfl, by simp [step, Server.bcTest, hpc]⟩
  | copying p i => exact ⟨.bcCopy, rfl, by simp [step, Server.bcCopy, hpc]⟩
  | sending p i =>
      exact ⟨.bcWsa none, rfl, by simp [step, Server.bcWsa, hpc, Server.wsaSendReturns]⟩
  | stopped => exact absurd hpc hwaits

/-- A receive may always fail. -/
theorem os_moves (hwaits : ¬ s.Waits .os) : s.Moves cfg .os := by
  obtain ⟨r, rest, hr⟩ := List.exists_cons_of_ne_nil hwaits
  exact ⟨.completeRecv 0 false [], rfl, by simp [step, Server.completeRecv, hr]⟩

theorem disconnect_moves (hwaits : ¬ s.Waits .disconnect) : s.Moves cfg .disconnect := by
  simp only [Server.Waits, not_and, not_forall, not_not] at hwaits
  cases hd : s.disconnecting with
  | nil =>
      obtain ⟨i, hi⟩ := hwaits hd
      obtain ⟨sock, hsock⟩ := Server.connected_iff.1 hi
      obtain ⟨c, hctx, -⟩ := Option.bind_eq_some_iff.1 hsock
      have hconn := (Server.connected_iff_context hctx).1 hi
      exact ⟨.disconnect i, rfl, by simp [step, Server.disconnect, hctx, hconn]⟩
  | cons i rest => exact ⟨.disconnectForget 0, rfl, by simp [step, Server.disconnectForget, hd]⟩

theorem close_moves (hwaits : ¬ s.Waits .close) : s.Moves cfg .close := by
  refine ⟨.closeThreads, rfl, ?_⟩
  simp only [Server.Waits] at hwaits
  cases hpc : s.closeThread <;> rw [hpc] at hwaits <;> simp only [step, Server.closeThreads, hpc]
  · rfl
  · rw [if_pos (not_not.1 hwaits)]
    rfl
  · rw [if_pos fun pc hmem => by_contra fun hne => hwaits ⟨pc, hmem, hne⟩]
    rfl
  · rw [not_not.1 hwaits]
    rfl
  · rw [not_not.1 hwaits]
    rfl
  · exact absurd trivial hwaits

/-- **A thread can move unless it waits.**  In every reachable state, whichever thread it is: some
step of the thread is possible, for some answer of the operating system, exactly when it is not at
one of its waiting places.  So the accept thread, the worker threads and the broadcast thread never
look up a context that is not in the table, and no lock or queue but the completion queue ever stops
a thread for good. -/
theorem moves_iff_not_waits (cfg : Config) (mem : ℕ → Mem) (workers : ℕ)
    (h : Reach (step cfg) (fun _ _ => True) (initServer mem n workers) s) (t : Thread) :
    s.Moves cfg t ↔ ¬ s.Waits t := by
  constructor
  · rintro ⟨e, rfl, hsome⟩
    obtain ⟨s', hstep⟩ := Option.isSome_iff_exists.1 hsome
    exact not_waits_of_step hstep
  · intro hwaits
    have ht := SlotTable.of_reach h
    cases t with
    | accept => exact accept_moves ht hwaits
    | work w => exact work_moves ht (Keys.of_reach h) hwaits
    | os => exact os_moves hwaits
    | send => exact send_moves hwaits
    | broadCast => exact broadCast_moves hwaits
    | disconnect => exact disconnect_moves hwaits
    | close => exact close_moves hwaits

/-- The only slot is taken: the accept thread has returned, a worker thread waits, and the client may
send. -/
theorem full_server_waits_for_client :
    ∃ s, Reach (step wireConfig) (fun _ _ => True) (wireServer 1) s ∧ s.Connected 0 ∧
      ¬ s.Moves wireConfig .accept ∧ ¬ s.Moves wireConfig (.work 0) ∧ s.Moves wireConfig .os := by
  obtain ⟨s, hreach, hs⟩ := Reach.exists_of_run (step wireConfig) (wireServer 1)
    (.scanSlot :: acceptEvents 7 ++ [.scanSlot, .scanSlot, .workTop 0])
    (fun s : Server => (s.acceptThread, s.workThreads, decide (s.Connected 0),
      s.os.completions.length, s.os.outstanding.length))
    (x := (.returned, [.waiting], true, 0, 1)) (by decide +kernel)
  simp only [Prod.mk.injEq, decide_eq_true_eq] at hs
  obtain ⟨hreturned, hworkers, hconn, hcompletions, houtstanding⟩ := hs
  have hmoves := moves_iff_not_waits wireConfig (fun _ _ => 0) 1 hreach
  refine ⟨s, hreach, hconn, ?_, ?_, (hmoves .os).2 fun hempty => ?_⟩
  · rw [hmoves .accept, not_not]
    exact hreturned
  · rw [hmoves (.work 0), not_not]
    intro pc hpc
    rw [hworkers] at hpc
    obtain rfl := Option.some.inj hpc
    exact .inr ⟨rfl, List.length_eq_zero_iff.1 hcompletions⟩
  · have hnil : s.os.outstanding = [] := hempty
    rw [hnil] at houtstanding
    cases houtstanding

/-! ### A server that its clients have left -/

/-- **No receive is in flight, and none will be issued**: the accept thread has returned, and no
worker thread is about to call `ReceivePacket`. -/
structure Server.Emptied (s : Server) : Prop where
  returned : s.acceptThread = .returned
  outstanding : s.os.outstanding = []
  completions : s.os.completions = []
  workers : ∀ pc ∈ s.workThreads, ∀ c, pc ≠ .received c ∧ pc ≠ .rearming c

namespace Server.Emptied

/-- In a run without `DisconnectSocket` a free slot has no receive, and nobody works at it. -/
theorem of_free (hs : Receives cfg n s) (hkeys : Keys n s) (hreturned : s.acceptThread = .returned)
    (hfree : ∀ i < n, ¬ s.Connected i) : s.Emptied := by
  have hload : ∀ i < n, s.load i = 0 := by
    intro i hi
    by_contra hne
    obtain ⟨sock, hsock⟩ := hs.bounded.exists_socket (Nat.pos_of_ne_zero hne)
    exact hfree i hi (Server.connected_iff.2 ⟨sock, hsock⟩)
  refine ⟨hreturned, ?_, ?_, fun pc hpc c => ?_⟩
  · by_contra hne
    obtain ⟨r, rest, hr⟩ := List.exists_cons_of_ne_nil hne
    have hzero := hload r.key (hkeys.outstanding r (hr ▸ List.mem_cons_self))
    simp [Server.load, Server.receives, hr] at hzero
  · by_contra hne
    obtain ⟨d, rest, hd⟩ := List.exists_cons_of_ne_nil hne
    have hzero := hload d.key (hkeys.completions d (hd ▸ List.mem_cons_self))
    simp [Server.load, Server.receives, hd] at hzero
  · have hbusy : ∀ i ∈ pc.key, False := by
      intro i hi
      obtain ⟨w, hw⟩ := List.mem_iff_getElem?.1 hpc
      obtain ⟨sock, hsock⟩ := hs.bounded.exists_socket_of_worker hw hi
      exact hfree i (hkeys.workers pc hpc i hi) (Server.connected_iff.2 ⟨sock, hsock⟩)
    constructor
    · rintro rfl
      exact hbusy c.key rfl
    · rintro rfl
      exact hbusy c.key rfl

/-- The threads that could issue or fetch a receive make no step. -/
theorem movesReceives_eq (hs : s.Emptied) (h : IocpDemo.step cfg s e = some s') :
    e.movesReceives = false := by
  cases e with
  | acceptReceive pending =>
      obtain ⟨i, conn, hpc, -⟩ := Server.acceptReceive_some h
      rw [hs.returned] at hpc
      cases hpc
  | workReceive w pending =>
      obtain ⟨c, hpc, -⟩ := Server.workReceive_some h
      exact absurd rfl (hs.workers _ (List.mem_of_getElem? hpc) c).2
  | getCompletion w =>
      obtain ⟨c, rest, -, hq, -⟩ := Server.getCompletion_some h
      rw [hs.completions] at hq
      cases hq
  | completeRecv k bSuccess data =>
      obtain ⟨r, hr, -⟩ := Server.completeRecv_some h
      rw [hs.outstanding] at hr
      cases hr
  | _ => rfl

theorem acceptThread_eq (hs : s.Emptied) (h : IocpDemo.step cfg s e = some s') :
    s'.acceptThread = .returned ∧ e.thread ≠ .accept := by
  rcases step_acceptThread h with ⟨hsame, hne⟩ | hmove
  · exact ⟨by rw [hsame, hs.returned], hne⟩
  · have hpc := hs.returned
    generalize s'.acceptThread = pc at hmove
    cases hmove <;> simp_all

/-- Nothing is dispatched. -/
theorem ne_deSerialize (hs : s.Emptied) (h : IocpDemo.step cfg s e = some s') (w : ℕ) :
    e ≠ .deSerialize w := by
  rintro rfl
  obtain ⟨c, ctx, hpc, -⟩ := Server.deSerialize_some h
  exact absurd rfl (hs.workers _ (List.mem_of_getElem? hpc) c).1

theorem step (hs : s.Emptied) (h : IocpDemo.step cfg s e = some s') : s'.Emptied := by
  have hreceives := (step_os h).receives (hs.movesReceives_eq h)
  refine ⟨(hs.acceptThread_eq h).1, by rw [hreceives.1, hs.outstanding],
    by rw [hreceives.2, hs.completions], fun q hq c => ?_⟩
  rcases step_workThreads h with ⟨hsame, -⟩ | ⟨w, pc, pc', hmove, hpc, hset⟩
  · exact hs.workers q (hsame ▸ hq) c
  · rcases List.mem_or_eq_of_mem_set (hset ▸ hq) with hold | rfl
    · exact hs.workers q hold c
    · have hidle := hs.workers pc (List.mem_of_getElem? hpc)
      cases hmove with
      | entered => split <;> simp
      | got hcompletion => rw [hs.completions] at hcompletion; cases hcompletion
      | closed => simp
      | forgot => simp
      | @ignored _ d _ _ _ => exact absurd rfl (hidle d).1
      | @handled _ d _ _ _ => exact absurd rfl (hidle d).1
      | @rearmed _ d _ => exact absurd rfl (hidle d).2

/-- A worker thread in `GetQueuedCompletionStatus` stays there. -/
theorem waiting_step (hs : s.Emptied) (h : IocpDemo.step cfg s e = some s')
    (hw : s.workThreads[w]? = some .waiting) : s'.workThreads[w]? = some .waiting := by
  rcases step_workThreads h with ⟨hsame, -⟩ | ⟨v, pc, pc', hmove, hpc, hset⟩
  · rw [hsame, hw]
  · by_cases hvw : v = w
    · subst hvw
      obtain rfl : pc = .waiting := Option.some.inj (hpc.symm.trans hw)
      cases hmove with
      | got hq => rw [hs.completions] at hq; cases hq
    · rw [hset, List.getElem?_set_ne hvw, hw]

/-- Nobody is attached. -/
theorem connected_step (hs : s.Emptied) (h : IocpDemo.step cfg s e = some s') {i : ℕ}
    (hi : s'.Connected i) : s.Connected i := by
  rcases connected_of_step h hi with hi | ⟨rfl, -⟩
  · exact hi
  · exact absurd rfl (hs.acceptThread_eq h).2

/-- What is queued is only taken out. -/
theorem que_step (hs : s.Emptied) (h : IocpDemo.step cfg s e = some s') :
    s'.que.connectedPlayers = s.que.connectedPlayers ∧
      s'.que.ioSendPacketQue <:+ s.que.ioSendPacketQue ∧
        s'.que.ioSendBCPacketQue <:+ s.que.ioSendBCPacketQue := by
  have hgreet : e ≠ .greetClient := by
    rintro rfl
    exact (hs.acceptThread_eq h).2 rfl
  refine ⟨(step_frame h).connectedPlayers (hs.ne_deSerialize h), ?_⟩
  by_cases hpop : e = .popPacket
  · subst hpop
    obtain ⟨-, rfl⟩ := Server.popPacket_some h
    unfold getPendingPacket
    split <;> simp_all
  · by_cases hpop' : e = .popBCPacket
    · subst hpop'
      obtain ⟨-, rfl⟩ := Server.popBCPacket_some h
      unfold getPendingBCPacket
      split <;> simp_all
    · rw [(step_frame h).que (hs.ne_deSerialize h) hgreet hpop hpop']
      exact ⟨List.suffix_refl _, List.suffix_refl _⟩

end Server.Emptied

/-! ### The join of the worker threads -/

/-- `CloseThread` has not joined the worker threads. -/
def ClosePc.beforeSend : ClosePc → Bool
  | .notCalled | .joinAccept | .joinWork => true
  | .joinSend | .joinBroadCast | .finished => false

/-- `CloseThread` waits for every worker thread. -/
theorem beforeSend_of_closeThreads (h : s.closeThreads = some s')
    (hs : s.closeThread.beforeSend = true) (hbusy : ∃ pc ∈ s.workThreads, pc ≠ .stopped) :
    s'.closeThread.beforeSend = true := by
  cases hpc : s.closeThread with
  | notCalled =>
      simp only [Server.closeThreads, hpc, Option.some.injEq] at h
      subst h
      rfl
  | joinAccept =>
      simp only [Server.closeThreads, hpc, Option.ite_none_right_eq_some, Option.some.injEq] at h
      obtain ⟨-, rfl⟩ := h
      rfl
  | joinWork =>
      simp only [Server.closeThreads, hpc, Option.ite_none_right_eq_some] at h
      obtain ⟨pc, hmem, hne⟩ := hbusy
      exact absurd (h.1 pc hmem) hne
  | joinSend | joinBroadCast | finished => rw [hpc] at hs; cases hs

/-- A worker thread that has ended makes no step. -/
theorem workThreads_of_stopped (h : step cfg s e = some s')
    (hs : ∀ pc ∈ s.workThreads, pc = .stopped) : s'.workThreads = s.workThreads := by
  rcases step_workThreads h with ⟨hsame, -⟩ | ⟨w, pc, pc', hmove, hpc, -⟩
  · exact hsame
  · obtain rfl := hs pc (List.mem_of_getElem? hpc)
    cases hmove

/-- **Behind the join all worker threads have ended**, in every run. -/
theorem stopped_of_reach {P : Server → Event → Prop} {mem : ℕ → Mem} {workers : ℕ}
    (h : Reach (step cfg) P (initServer mem n workers) s) :
    s.closeThread.beforeSend = false → ∀ pc ∈ s.workThreads, pc = .stopped := by
  refine h.invariant (I := fun s => s.closeThread.beforeSend = false →
    ∀ pc ∈ s.workThreads, pc = .stopped) (fun hinit => by cases hinit) ?_
  intro t e u hI _ hstep hu
  by_cases hjoined : t.closeThread.beforeSend = false
  · rw [workThreads_of_stopped hstep (hI hjoined)]
    exact hI hjoined
  · have hbefore : t.closeThread.beforeSend = true := by simpa using hjoined
    by_cases he : e = .closeThreads
    · subst he
      have hworkers := (step_frame hstep).workThreads (by simp [Event.thread])
      by_contra hbusy
      push Not at hbusy
      rw [hworkers] at hbusy
      rw [beforeSend_of_closeThreads hstep hbefore hbusy] at hu
      cases hu
    · rw [(step_frame hstep).closeThread he, hbefore] at hu
      cases hu

/-- **A server that its clients have left is at its end.**  Once the accept thread has returned,
which it does when it finds the table full, and the clients have left again, the server accepts
nobody and handles nothing any more, whatever happens: all slots stay free, the roster keeps naming
the players who have left, and of what is queued packets are only taken out.  A worker thread that
waits for a completion waits for ever, and `CloseThread` does not get past the join of this
thread. -/
theorem emptied_server_stays_empty (cfg : Config) (mem : ℕ → Mem) (workers : ℕ) {u : Server}
    (h₀ : Reach (step cfg) (fun _ e => e.thread ≠ .disconnect) (initServer mem n workers) s)
    (hreturned : s.acceptThread = .returned) (hfree : ∀ i < n, ¬ s.Connected i)
    (h : Reach (step cfg) (fun _ _ => True) s u) :
    (∀ i, ¬ u.Connected i) ∧ u.acceptThread = .returned ∧
      u.que.connectedPlayers = s.que.connectedPlayers ∧
      u.que.ioSendPacketQue <:+ s.que.ioSendPacketQue ∧
      u.que.ioSendBCPacketQue <:+ s.que.ioSendBCPacketQue ∧
      ∀ w : ℕ, s.workThreads[w]? = some .waiting →
        u.workThreads[w]? = some .waiting ∧ u.closeThread.beforeSend = true := by
  have hreceives := Receives.of_reach (fun _ _ hno => hno) h₀
  have hemptied : ∀ u, Reach (step cfg) (fun _ _ => True) s u → u.Emptied := fun _ hu =>
    hu.invariant (Server.Emptied.of_free hreceives (Keys.of_reach h₀) hreturned hfree)
      fun _ _ _ hs _ hstep => hs.step hstep
  have hnobody : ∀ i, ¬ s.Connected i := by
    intro i hi
    exact hfree i (hi.lt hreceives.table) hi
  refine ⟨?_, (hemptied u h).returned, ?_, ?_, ?_, fun w hw => ?_⟩
  · exact h.and_invariant (I := fun u => ∀ i, ¬ u.Connected i) hemptied hnobody
      fun _ _ _ hs _ hI _ hstep i hi => hI i (hs.connected_step hstep hi)
  · exact h.and_invariant (I := fun u => u.que.connectedPlayers = s.que.connectedPlayers) hemptied
      rfl fun _ _ _ hs _ hI _ hstep => (hs.que_step hstep).1.trans hI
  · exact h.and_invariant (I := fun u => u.que.ioSendPacketQue <:+ s.que.ioSendPacketQue) hemptied
      (List.suffix_refl _) fun _ _ _ hs _ hI _ hstep => (hs.que_step hstep).2.1.trans hI
  · exact h.and_invariant (I := fun u => u.que.ioSendBCPacketQue <:+ s.que.ioSendBCPacketQue)
      hemptied (List.suffix_refl _) fun _ _ _ hs _ hI _ hstep => (hs.que_step hstep).2.2.trans hI
  · refine h.and_invariant (I := fun u => u.workThreads[w]? = some .waiting ∧
      u.closeThread.beforeSend = true) hemptied ⟨hw, ?_⟩ fun t e v ht _ hI _ hstep => ?_
    · by_contra hjoined
      have hstopped := stopped_of_reach h₀ (by simpa using hjoined) _ (List.mem_of_getElem? hw)
      cases hstopped
    · refine ⟨ht.waiting_step hstep hI.1, ?_⟩
      by_cases he : e = .closeThreads
      · subst he
        exact beforeSend_of_closeThreads hstep hI.2
          ⟨_, List.mem_of_getElem? hI.1, by simp⟩
      · rw [(step_frame hstep).closeThread he]
        exact hI.2

/-- The only client of a server with one slot has left; `CloseThread` hangs. -/
theorem close_hangs_on_emptied_server :
    ∃ s u, Reach (step wireConfig) (fun _ e => e.thread ≠ .disconnect) (wireServer 1) s ∧
      Reach (step wireConfig) (fun _ _ => True) s u ∧ u.closeThread = .joinWork ∧
        u.workThreads[0]? = some .waiting ∧ u.closeThread.beforeSend = true := by
  obtain ⟨s, hreach, hs⟩ := Reach.exists_of_runIf (step wireConfig)
    (fun _ e => e.thread ≠ .disconnect) (wireServer 1)
    (.scanSlot :: acceptEvents 7 ++ [.scanSlot, .scanSlot] ++ closeEvents ++ [.workTop 0])
    (fun s : Server => (s.acceptThread, s.workThreads, decide (s.Connected 0),
      (run (step wireConfig) s [.closeThreads, .closeThreads]).map fun u => u.closeThread))
    (x := (.returned, [.waiting], false, some .joinWork)) (by decide +kernel)
  simp only [Prod.mk.injEq, decide_eq_false_iff_not, Option.map_eq_some_iff] at hs
  obtain ⟨hreturned, hworkers, hfree, u, hrun, hclose⟩ := hs
  have hu := Reach.of_run hrun
  have hfree' : ∀ i < 1, ¬ s.Connected i := by
    intro i hi
    obtain rfl : i = 0 := by omega
    exact hfree
  have hwait := (emptied_server_stays_empty wireConfig (fun _ _ => 0) 1 hreach hreturned hfree'
    hu).2.2.2.2.2 0 (by rw [hworkers]; rfl)
  exact ⟨s, u, hreach, hu, hclose, hwait⟩

end IocpDemo
