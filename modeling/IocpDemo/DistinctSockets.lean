/-
**Whose socket a slot has** (`CloseSocket`, `ConnectClient`, `SendPendingPacket`).

`CloseSocket` gives the handle back to the operating system before the slot forgets it.  In between
`WSAAccept` may return the same handle for a client of another slot.  The slot that is being closed
still counts as connected, so the sender threads use its handle, which is the other client's by
then.

Main definitions:

* `IocpDemo.HandleUse`, `IocpDemo.handleUses` — the handles that `WSAAccept` returns, and those that
  are passed to `WSASend`;
* `IocpDemo.DistinctSockets`, `IocpDemo.SendsOwn` — no two slots have one handle, and the handle
  that is passed to `WSASend` for a slot was last accepted for this slot;
* `IocpDemo.Server.Reissued` — the slot is about to forget a handle that `WSAAccept` has returned
  again;
* `IocpDemo.HandlesApart` — the condition on a step;
* `IocpDemo.SocketOwners` — the invariant.

Main results:

* `IocpDemo.slots_have_own_sockets` — **under the condition distinct slots have distinct sockets,
  and each packet goes to the client of its slot**;
* `IocpDemo.reissued_handle_is_shared` — a client that is sent another client's packet.
-/

import IocpDemo.Occupancy
import IocpDemo.WireFormat

set_option relaxedAutoImplicit false
set_option autoImplicit false

namespace IocpDemo

open Bytes Transition Wire

variable {cfg : Config} {s s' : Server} {n : ℕ} {e : Event} {i : ℕ} {sock : Socket}

/-! ### The log -/

/-- What is logged: `WSAAccept` returns a handle for the slot that `AcceptThread` has found empty,
and `SendPendingPacket` passes the handle of its slot to `WSASend`. -/
inductive HandleUse
  | accepted (i : ℕ) (sock : Socket)
  | sent (i : ℕ) (sock : Socket)
  deriving DecidableEq, Repr

/-- The slot for which the event calls `WSASend`. -/
def Server.sendSlot (s : Server) : Event → Option ℕ
  | .sendWsa _ =>
      match s.sendThread with
      | .sending p _ => some p.packetIndex.toNat
      | _ => none
  | .bcWsa _ =>
      match s.broadCastThread with
      | .sending _ i => some i
      | _ => none
  | _ => none

/-- What a step logs. -/
def handleUses (s : Server) : Event → List HandleUse
  | .wsaAccept (some sock) => s.acceptThread.slot.toList.map fun i => .accepted i sock
  | e => ((s.sendSlot e).bind fun i => (s.socketAt i).map (HandleUse.sent i)).toList

/-- The server with this log. -/
abbrev handleSystem (cfg : Config) : Server × List HandleUse → Event →
    Option (Server × List HandleUse) := logged (step cfg) handleUses

/-- The slot for which `WSAAccept` has last returned the handle. -/
def acceptedFor (log : List HandleUse) (sock : Socket) : Option ℕ :=
  log.reverse.findSome? fun
    | .accepted i x => if x = sock then some i else none
    | .sent _ _ => none

/-- No two slots have the same handle. -/
def DistinctSockets (s : Server) : Prop :=
  ∀ i j sock, s.socketAt i = some sock → s.socketAt j = some sock → i = j

/-- A handle that is passed to `WSASend` for a slot was last accepted for this slot. -/
def SendsOwn (log : List HandleUse) : Prop :=
  ∀ before i sock, before ++ [.sent i sock] <+: log → acceptedFor before sock = some i

theorem acceptedFor_accepted (log : List HandleUse) (i : ℕ) (x sock : Socket) :
    acceptedFor (log ++ [.accepted i x]) sock =
      if x = sock then some i else acceptedFor log sock := by
  by_cases hx : x = sock <;> simp [acceptedFor, hx]

theorem acceptedFor_sent (log : List HandleUse) (i : ℕ) (x sock : Socket) :
    acceptedFor (log ++ [.sent i x]) sock = acceptedFor log sock := by
  simp [acceptedFor]

theorem handleUses_accept {conn : ℕ} {x : Socket} (h : s.wsaAccept cfg (some x) = some s')
    (hpc : s'.acceptThread = .connecting i sock conn) :
    handleUses s (.wsaAccept (some x)) = [.accepted i x] ∧ sock = x := by
  obtain ⟨j, hj, -, -, rfl⟩ := Server.wsaAccept_some_some h
  obtain ⟨rfl, rfl, -⟩ : j = i ∧ x = sock ∧ s.os.accepted = conn := by simpa using hpc
  simp [handleUses, hj, AcceptPc.slot]

/-- Every step but `WSAAccept` logs a `WSASend` at most. -/
theorem handleUses_of_ne (s : Server) (he : ∀ x, e ≠ .wsaAccept (some x)) :
    handleUses s e = [] ∨ ∃ i ∈ s.sendSlot e, ∃ sock, s.socketAt i = some sock ∧
      handleUses s e = [.sent i sock] := by
  have heq : handleUses s e =
      ((s.sendSlot e).bind fun i => (s.socketAt i).map (HandleUse.sent i)).toList := by
    cases e with
    | wsaAccept r =>
        cases r with
        | none => rfl
        | some x => exact absurd rfl (he x)
    | _ => rfl
  rw [heq]
  cases hslot : s.sendSlot e with
  | none => exact Or.inl rfl
  | some i =>
      cases hsock : s.socketAt i with
      | none => exact Or.inl (by simp [hsock])
      | some sock => exact Or.inr ⟨i, rfl, sock, hsock, by simp [hsock]⟩

theorem length_handleUses_le (s : Server) (e : Event) : (handleUses s e).length ≤ 1 := by
  by_cases he : ∀ x, e ≠ .wsaAccept (some x)
  · rcases handleUses_of_ne s he with huses | ⟨i, -, x, -, huses⟩ <;> simp [huses]
  · push Not at he
    obtain ⟨x, rfl⟩ := he
    rw [handleUses, List.length_map]
    cases s.acceptThread.slot <;> simp

theorem sent_mem_handleUses (h : .sent i sock ∈ handleUses s e) :
    i ∈ s.sendSlot e ∧ s.socketAt i = some sock := by
  by_cases he : ∀ x, e ≠ .wsaAccept (some x)
  · rcases handleUses_of_ne s he with huses | ⟨j, hj, x, hx, huses⟩
    · rw [huses] at h
      cases h
    · rw [huses] at h
      obtain ⟨rfl, rfl⟩ := HandleUse.sent.inj (List.mem_singleton.1 h)
      exact ⟨hj, hx⟩
  · push Not at he
    obtain ⟨x, rfl⟩ := he
    obtain ⟨j, -, hj⟩ := List.mem_map.1 h
    cases hj

theorem acceptedFor_of_ne (log : List HandleUse) (he : ∀ x, e ≠ .wsaAccept (some x)) :
    acceptedFor (log ++ handleUses s e) sock = acceptedFor log sock := by
  rcases handleUses_of_ne s he with huses | ⟨i, -, x, -, huses⟩
  · rw [huses, List.append_nil]
  · rw [huses, acceptedFor_sent]

/-! ### The condition -/

/-- The handle that `WSAAccept` has returned and that is not attached yet. -/
def AcceptPc.inHand : AcceptPc → Option Socket
  | .connecting _ sock _ => some sock
  | _ => none

/-- A worker thread has closed the socket of the slot and is about to forget it, and `WSAAccept` has
returned the same handle since. -/
def Server.Reissued (s : Server) (i : ℕ) : Prop :=
  s.Forgetting i ∧ ∃ sock ∈ s.acceptThread.inHand, s.socketAt i = some sock

instance (s : Server) (i : ℕ) : Decidable (s.Reissued i) := inferInstanceAs (Decidable (_ ∧ _))

/-- No slot is about to forget the handle that `ConnectClient` attaches, and none for which
`WSASend` is called is about to forget a handle that has been returned again. -/
def HandlesApart (s : Server) (e : Event) : Prop :=
  (e = .connectClient → ∀ i < s.contexts.length, ¬ s.Reissued i) ∧
    ∀ i ∈ s.sendSlot e, ¬ s.Reissued i

instance (s : Server) (e : Event) : Decidable (HandlesApart s e) :=
  inferInstanceAs (Decidable (_ ∧ _))

/-- Only `ConnectClient` takes the handle out of the accept thread's hands. -/
theorem inHand_of_step (h : step cfg s e = some s') (he : e ≠ .connectClient)
    (hsock : sock ∈ s.acceptThread.inHand) : sock ∈ s'.acceptThread.inHand := by
  rcases step_acceptThread h with ⟨hsame, -⟩ | hmove
  · exact hsame ▸ hsock
  · generalize s'.acceptThread = pc at hmove
    cases hmove with
    | attached _ => exact absurd rfl he
    | scanned hpc | failed hpc | accepted hpc _ _ | kept hpc _ _ | dropped hpc _ _ | counted hpc
    | greeted hpc _ | armed hpc =>
        rw [hpc] at hsock
        cases hsock

/-! ### The invariant -/

/-- **Whose the handles are.** -/
structure SocketOwners (cfg : Config) (n : ℕ) (s : Server) (log : List HandleUse) : Prop where
  receives : Receives cfg n s
  distinct : DistinctSockets s
  owner : ∀ i sock, s.socketAt i = some sock → ¬ s.Reissued i → acceptedFor log sock = some i
  inHand : ∀ i sock conn, s.acceptThread = .connecting i sock conn →
    acceptedFor log sock = some i
  sendsOwn : SendsOwn log

namespace SocketOwners

variable {log : List HandleUse}

theorem init (mem : ℕ → Mem) (n workers : ℕ) :
    SocketOwners cfg n (initServer mem n workers) [] where
  receives := Receives.init mem n workers
  distinct i j sock hi := by simp at hi
  owner i sock hi := by simp at hi
  inHand i sock conn h := by cases h
  sendsOwn before i sock h := by simp at h

/-- Nobody has the handle that `ConnectClient` attaches. -/
theorem ne_of_connect (hs : SocketOwners cfg n s log) (hP : HandlesApart s .connectClient) {j : ℕ}
    {conn : ℕ} (hpc : s.acceptThread = .connecting i sock conn) (hij : i ≠ j) :
    s.socketAt j ≠ some sock := by
  intro hj
  obtain ⟨ctx, hctx, -⟩ := Option.bind_eq_some_iff.1 hj
  have howner := hs.owner j sock hj (hP.1 rfl j (Server.lt_of_context hctx))
  rw [hs.inHand i sock conn hpc] at howner
  exact hij (Option.some.inj howner)

theorem distinct_step (hs : SocketOwners cfg n s log) (h : IocpDemo.step cfg s e = some s')
    (hP : HandlesApart s e) : DistinctSockets s' := by
  intro i j sock hi hj
  have hfooti := step_socketAt h i
  have hfootj := step_socketAt h j
  rw [hi] at hfooti
  rw [hj] at hfootj
  generalize hx : some sock = x at hfooti
  generalize hy : some sock = y at hfootj
  cases hfooti with
  | forgotten _ => cases hx
  | same =>
      cases hfootj with
      | forgotten _ => cases hy
      | same => exact hs.distinct i j sock hx.symm hy.symm
      | attached he hpc =>
          subst he
          obtain rfl := Option.some.inj hy
          by_contra hij
          exact hs.ne_of_connect hP hpc (Ne.symm hij) hx.symm
  | attached he hpc =>
      subst he
      obtain rfl := Option.some.inj hx
      cases hfootj with
      | forgotten _ => cases hy
      | same =>
          by_contra hij
          exact hs.ne_of_connect hP hpc hij hy.symm
      | attached _ hpc' =>
          rw [hpc] at hpc'
          exact (AcceptPc.connecting.inj hpc').1

theorem owner_step (hs : SocketOwners cfg n s log) (h : IocpDemo.step cfg s e = some s')
    (hP : HandlesApart s e) (hi : s'.socketAt i = some sock) (hnot : ¬ s'.Reissued i) :
    acceptedFor (log ++ handleUses s e) sock = some i := by
  have hfoot := step_socketAt h i
  rw [hi] at hfoot
  generalize hx : some sock = x at hfoot
  cases hfoot with
  | forgotten _ => cases hx
  | attached he hpc =>
      subst he
      obtain rfl := Option.some.inj hx
      rw [acceptedFor_of_ne log (by simp)]
      exact hs.inHand i _ _ hpc
  | same =>
      by_cases he : ∀ x, e ≠ .wsaAccept (some x)
      · rw [acceptedFor_of_ne log he]
        refine hs.owner i sock hx.symm fun hre => ?_
        by_cases hconnect : e = .connectClient
        · subst hconnect
          obtain ⟨ctx, hctx, -⟩ := Option.bind_eq_some_iff.1 hx.symm
          exact hP.1 rfl i (Server.lt_of_context hctx) hre
        · obtain ⟨hforget, y, hy, hsock⟩ := hre
          obtain rfl : sock = y := Option.some.inj (hx.trans hsock)
          refine hnot ⟨hforget.step h fun hf => ?_, sock, inHand_of_step h hconnect hy, hi⟩
          rw [socketAt_of_forgets hf h] at hi
          cases hi
      · push Not at he
        obtain ⟨x, rfl⟩ := he
        obtain ⟨k, hpc, -, hnew, hs'⟩ := Server.wsaAccept_some_some h
        have huses : handleUses s (.wsaAccept (some x)) = [.accepted k x] := by
          simp [handleUses, hpc, AcceptPc.slot]
        rw [huses, acceptedFor_accepted]
        by_cases hxs : x = sock
        · -- a handle that is returned again is nobody's, unless it is about to be forgotten
          subst hxs
          have hforget : s.Forgetting i := by
            by_contra hf
            obtain ⟨conn, hopen, -⟩ := hs.receives.handles.conn i x hx.symm hf
            rw [hnew] at hopen
            cases hopen
          exact absurd ⟨hforget.step h (by simp [Forgets]), x, by rw [hs']; rfl, hi⟩ hnot
        · rw [if_neg hxs]
          refine hs.owner i sock hx.symm ?_
          rintro ⟨-, y, hy, -⟩
          rw [hpc] at hy
          cases hy

theorem inHand_step (hs : SocketOwners cfg n s log) (h : IocpDemo.step cfg s e = some s')
    {conn : ℕ} (hpc : s'.acceptThread = .connecting i sock conn) :
    acceptedFor (log ++ handleUses s e) sock = some i := by
  by_cases he : ∀ x, e ≠ .wsaAccept (some x)
  · rw [acceptedFor_of_ne log he]
    exact hs.inHand i sock conn (Handles.connecting_of_step h he hpc)
  · push Not at he
    obtain ⟨x, rfl⟩ := he
    obtain ⟨huses, rfl⟩ := handleUses_accept h hpc
    rw [huses, acceptedFor_accepted, if_pos rfl]

theorem sendsOwn_step (hs : SocketOwners cfg n s log) (hP : HandlesApart s e) :
    SendsOwn (log ++ handleUses s e) := by
  intro before i sock hprefix
  rcases prefix_or_new (length_handleUses_le s e) hprefix with hold | ⟨rfl, hnew⟩
  · exact hs.sendsOwn before i sock hold
  · obtain ⟨hslot, hsock⟩ := sent_mem_handleUses hnew
    exact hs.owner i sock hsock (hP.2 i hslot)

/-- **Every step that meets the condition keeps the invariant.** -/
theorem step (hs : SocketOwners cfg n s log) (h : IocpDemo.step cfg s e = some s')
    (hno : e.thread ≠ .disconnect) (hP : HandlesApart s e) :
    SocketOwners cfg n s' (log ++ handleUses s e) where
  receives := hs.receives.step h hno
  distinct := hs.distinct_step h hP
  owner _ _ hi hnot := hs.owner_step h hP hi hnot
  inHand _ _ _ hpc := hs.inHand_step h hpc
  sendsOwn := hs.sendsOwn_step hP

theorem of_reach {mem : ℕ → Mem} {workers : ℕ}
    (h : Reach (handleSystem cfg) (fun x e => e.thread ≠ .disconnect ∧ HandlesApart x.1 e)
      (initServer mem n workers, []) (s, log)) : SocketOwners cfg n s log :=
  h.logged_invariant (I := SocketOwners cfg n) (init mem n workers) fun _ _ _ _ hx hP hstep =>
    hx.step hstep hP.1 hP.2

end SocketOwners

/-! ### The result -/

/-- **Distinct slots have distinct sockets.**  In a run of the worker threads, the accept thread and
the sender threads in which no handle is attached to a slot while another slot is about to forget
it, and no packet is sent for a slot that is about to forget a handle which `WSAAccept` has returned
again, no two slots ever have the same handle, and `SendPendingPacket` passes to `WSASend` a handle
that was last accepted for its own slot. -/
theorem slots_have_own_sockets {mem : ℕ → Mem} {workers : ℕ} {log : List HandleUse}
    (h : Reach (handleSystem cfg) (fun x e => e.thread ≠ .disconnect ∧ HandlesApart x.1 e)
      (initServer mem n workers, []) (s, log)) : DistinctSockets s ∧ SendsOwn log := by
  have hs := SocketOwners.of_reach h
  exact ⟨hs.distinct, hs.sendsOwn⟩

/-- A run in which a handle is returned again for another slot once its former slot has forgotten
it. -/
theorem forgotten_handle_is_reused :
    ∃ s log, Reach (handleSystem wireConfig)
        (fun x e => e.thread ≠ .disconnect ∧ HandlesApart x.1 e) (wireServer 2, []) (s, log) ∧
      log = [.accepted 0 7, .sent 0 7, .accepted 1 7, .sent 1 7] ∧
        DistinctSockets s ∧ SendsOwn log := by
  obtain ⟨⟨s, log⟩, hreach, hlog⟩ := Reach.exists_of_runIf (handleSystem wireConfig)
    (fun x e => e.thread ≠ .disconnect ∧ HandlesApart x.1 e) (wireServer 2, [])
    (.scanSlot :: acceptEvents 7 ++ sendEvents ++ [.scanSlot, .scanSlot] ++ closeEvents ++
      acceptEvents 7 ++ sendEvents)
    (fun x : Server × List HandleUse => x.2)
    (x := [.accepted 0 7, .sent 0 7, .accepted 1 7, .sent 1 7]) (by decide +kernel)
  exact ⟨s, log, hreach, hlog, slots_have_own_sockets hreach⟩

/-- **A client is sent the packet of another one**, whose handle it has been given between
`closesocket` and `Socket = INVALID_SOCKET`; both slots have the same open handle then. -/
theorem reissued_handle_is_shared :
    ∃ s log, Reach (handleSystem wireConfig) (fun _ e => e.thread ≠ .disconnect) (wireServer 2, [])
        (s, log) ∧ s.os.connOf 7 = some 1 ∧ ¬ DistinctSockets s ∧ ¬ SendsOwn log := by
  obtain ⟨⟨s, log⟩, hreach, hfacts⟩ := Reach.exists_of_runIf (handleSystem wireConfig)
    (fun _ e => e.thread ≠ .disconnect) (wireServer 2, [])
    (.scanSlot :: acceptEvents 7 ++ [.scanSlot, .scanSlot, .completeRecv 0 false [], .workTop 0,
      .getCompletion 0, .closeSocket 0, .wsaAccept (some 7), .connectClient] ++ sendEvents)
    (fun x : Server × List HandleUse =>
      (x.1.os.connOf 7, x.1.socketAt 0, x.1.socketAt 1, x.2))
    (x := (some 1, some 7, some 7, [.accepted 0 7, .accepted 1 7, .sent 0 7])) (by decide +kernel)
  simp only [Prod.mk.injEq] at hfacts
  obtain ⟨hopen, hzero, hone, rfl⟩ := hfacts
  refine ⟨s, _, hreach, hopen, fun hd => ?_, fun hown => ?_⟩
  · exact absurd (hd 0 1 7 hzero hone) (by decide)
  · exact absurd (hown [.accepted 0 7, .accepted 1 7] 0 7 List.prefix_rfl) (by decide)

end IocpDemo
