/-
**The loop of `SendPacketBroadCast`** (`IOCPServer.cpp`).

The loop goes over `ClientContexts` and calls `SendPendingPacket` for each context that is connected
and is not the one the packet is addressed to.  When a reliable packet cannot be sent, `continue`
bypasses the increment, so that the same context is tried again; nothing but a successful send gets
the loop past it.

Main definitions:

* `IocpDemo.sendPacketBroadCast` — the loop, with the answers of `WSASend` given from outside;
* `IocpDemo.broadCastAttempts` — the calls that the steps of `SendBroadCastThread` make.

Main results:

* `IocpDemo.sendPacketBroadCast_eq` — the loop is the general one of `IocpDemo/RetryLoop.lean`;
* `IocpDemo.serves_of_broadCast` — the steps of `SendBroadCastThread` make the same traces;
* `IocpDemo.reliable_broadcast_returns_iff` — **when the broadcast of a reliable packet returns**;
* `IocpDemo.broadcast_serves_each_target` — **who is served, how often and in which order**.
-/

import IocpDemo.RetryLoop
import IocpDemo.SendPendingPacket
import IocpDemo.SlotTable

set_option relaxedAutoImplicit false
set_option autoImplicit false

namespace IocpDemo

open Bytes Transition RetryLoop

variable {cfg : Config} {s s' : Server} {e : Event} {p : PacketBuffer}
  {contexts : List ClientContext}
  {wsaSend : ℕ → ℕ → Option ℕ} {i j k fuel : ℕ} {trace : List Attempt}

/-! ### The loop -/

/-- `SendPacketBroadCast` from the loop index `i` on, when the context there has been sent the
packet `k` times in vain; `wsaSend i k` is what the `k`-th `WSASend` for that context answers.  The
result is the list of the calls of `SendPendingPacket`, unless the number of iterations did not
suffice. -/
def sendPacketBroadCast (p : PacketBuffer) (wsaSend : ℕ → ℕ → Option ℕ) :
    ℕ → List ClientContext → ℕ → ℕ → Option (List Attempt)
  | 0, _, _, _ => none
  | fuel + 1, contexts, i, k =>
      match contexts[i]? with
      | none => some []
      | some c =>
          if Server.isBroadCastTarget p c then
            let result := c.sendPacketBuffer p (wsaSend i k)
            let contexts := contexts.set i result.context
            if result.sent = false ∧ p.bIsReliable = true then
              (sendPacketBroadCast p wsaSend fuel contexts i (k + 1)).map
                fun trace => ⟨i, result.sent⟩ :: trace
            else
              (sendPacketBroadCast p wsaSend fuel contexts (i + 1) 0).map
                fun trace => ⟨i, result.sent⟩ :: trace
          else sendPacketBroadCast p wsaSend fuel contexts (i + 1) 0

/-- `SendPacketBroadCast` returns, having made the calls `trace`. -/
def BroadCastReturns (p : PacketBuffer) (wsaSend : ℕ → ℕ → Option ℕ)
    (contexts : List ClientContext) (trace : List Attempt) : Prop :=
  ∃ fuel, sendPacketBroadCast p wsaSend fuel contexts 0 0 = some trace

/-- The positions that the packet is sent to. -/
def broadCastTargets (p : PacketBuffer) (contexts : List ClientContext) (i : ℕ) : Bool :=
  contexts[i]?.any (Server.isBroadCastTarget p)

/-- The results of the calls of `SendPendingPacket`. -/
def broadCastAnswers (p : PacketBuffer) (wsaSend : ℕ → ℕ → Option ℕ) (i k : ℕ) : Bool :=
  decide (0 < p.bufferSize.toNat) && (wsaSend i k).isSome

theorem broadCastTargets_eq {c : ClientContext} (hc : contexts[i]? = some c) :
    broadCastTargets p contexts i = Server.isBroadCastTarget p c := by
  rw [broadCastTargets, hc, Option.any_some]

/-- A context is a target by its socket and its index. -/
theorem isBroadCastTarget_congr {c d : ClientContext} (hsocket : c.socket = d.socket)
    (hindex : c.index = d.index) : Server.isBroadCastTarget p c = Server.isBroadCastTarget p d := by
  simp only [Server.isBroadCastTarget, ClientContext.isConnected, ClientContext.getIndex,
    hsocket, hindex]

/-- Sending the packet leaves the targets alone. -/
theorem broadCastTargets_set {c : ClientContext} (hc : contexts[i]? = some c) (r : Option ℕ) :
    broadCastTargets p (contexts.set i (c.sendPacketBuffer p r).context) =
      broadCastTargets p contexts := by
  funext j
  by_cases hij : i = j
  · subst hij
    have hi : i < contexts.length := (List.getElem?_eq_some_iff.1 hc).1
    rw [broadCastTargets_eq hc, broadCastTargets_eq (List.getElem?_set_self hi)]
    exact isBroadCastTarget_congr (socket_sendPacketBuffer c p r) (index_sendPacketBuffer c p r)
  · rw [broadCastTargets, broadCastTargets, List.getElem?_set_ne hij]

theorem sent_eq_broadCastAnswers (c : ClientContext) (i k : ℕ) :
    (c.sendPacketBuffer p (wsaSend i k)).sent = broadCastAnswers p wsaSend i k := by
  rw [Bool.eq_iff_iff, sent_sendPacketBuffer, broadCastAnswers, Bool.and_eq_true,
    decide_eq_true_eq]

/-- **The loop is that of a table that is visited with retries.** -/
theorem sendPacketBroadCast_eq (p : PacketBuffer) (wsaSend : ℕ → ℕ → Option ℕ) (fuel : ℕ)
    (contexts : List ClientContext) (i k : ℕ) :
    sendPacketBroadCast p wsaSend fuel contexts i k =
      serve contexts.length (broadCastTargets p contexts) p.bIsReliable
        (broadCastAnswers p wsaSend) fuel i k := by
  induction fuel generalizing contexts i k with
  | zero => rfl
  | succ fuel ih =>
      cases hc : contexts[i]? with
      | none =>
          have hi := List.getElem?_eq_none_iff.1 hc
          rw [sendPacketBroadCast, hc, serve_of_le hi]
      | some c =>
          have hi : i < contexts.length := (List.getElem?_eq_some_iff.1 hc).1
          have htarget := broadCastTargets_eq (p := p) hc
          rw [sendPacketBroadCast, hc, serve, if_pos hi, htarget]
          simp only [sent_eq_broadCastAnswers, ih, List.length_set, broadCastTargets_set hc]

/-! ### The steps of `SendBroadCastThread` -/

/-- The calls of `SendPendingPacket` for broadcast, with their results. -/
def broadCastAttempts (s : Server) : Event → List Attempt
  | .bcWsa r =>
      match s.broadCastThread with
      | .sending _ i => [⟨i, r.isSome⟩]
      | _ => []
  | _ => []

/-- What is still to come of a broadcast of `p`, when `log` is what came before. -/
def Continues (n : ℕ) (target : ℕ → Bool) (p : PacketBuffer) (i : ℕ) (log : List Attempt) :
    BroadCastPc → Prop
  | .looping q j => q = p ∧ ∀ rest, ServesFrom n target p.bIsReliable j rest →
      ServesFrom n target p.bIsReliable i (log ++ rest)
  | .copying q j | .sending q j => q = p ∧ j < n ∧ target j = true ∧
      ∀ rest, ServesFrom n target p.bIsReliable j rest →
        ServesFrom n target p.bIsReliable i (log ++ rest)
  | .top => ServesFrom n target p.bIsReliable i log
  | .popping | .stopped => False

namespace Continues

variable {target : ℕ → Bool} {log : List Attempt}

/-- The test of a context passes it over, goes on to send, or ends the loop behind the table. -/
theorem bcTest (hs : Continues s.contexts.length (broadCastTargets p s.contexts) p i log
      s.broadCastThread) (h : s.bcTest = some s') :
    Continues s.contexts.length (broadCastTargets p s.contexts) p i log s'.broadCastThread := by
  obtain ⟨q, j, hpc, rfl⟩ := Server.bcTest_some h
  rw [hpc] at hs
  obtain ⟨rfl, hs⟩ := hs
  cases hc : s.contexts[j]? with
  | none =>
      have hlast := hs [] (.done (List.getElem?_eq_none_iff.1 hc))
      rw [List.append_nil] at hlast
      simp only [Server.bcNext, hc]
      exact hlast
  | some c =>
      have hj : j < s.contexts.length := (List.getElem?_eq_some_iff.1 hc).1
      have htarget := broadCastTargets_eq (p := q) hc
      cases ht : Server.isBroadCastTarget q c with
      | true =>
          simp only [Server.bcNext, hc, ht, if_true]
          exact ⟨rfl, hj, htarget.trans ht, hs⟩
      | false =>
          simp only [Server.bcNext, hc, ht, Bool.false_eq_true, if_false]
          exact ⟨rfl, fun rest hrest => hs rest (.skip hj (htarget.trans ht) hrest)⟩

/-- A send that fails is repeated if the packet is reliable. -/
theorem bcWsa {r : Option ℕ} (hs : Continues s.contexts.length target p i log s.broadCastThread)
    (h : s.bcWsa r = some s') : Continues s.contexts.length target p i
      (log ++ broadCastAttempts s (.bcWsa r)) s'.broadCastThread := by
  obtain ⟨q, j, hpc, -, rfl⟩ := Server.bcWsa_some h
  rw [hpc] at hs
  obtain ⟨rfl, hj, ht, hs⟩ := hs
  have hlog : broadCastAttempts s (.bcWsa r) = [⟨j, r.isSome⟩] := by
    rw [broadCastAttempts, hpc]
  rw [hlog]
  by_cases hfailed : r = none ∧ q.bIsReliable = true
  · simp only [hfailed, and_self, if_true]
    obtain ⟨rfl, hr⟩ := hfailed
    refine ⟨rfl, ?_⟩
    intro rest hrest
    rw [List.append_assoc]
    exact hs _ (.again hj ht hr hrest)
  · simp only [hfailed, if_false]
    have hpass : r.isSome = true ∨ q.bIsReliable = false := by
      cases r with
      | none => exact Or.inr (by simpa using hfailed)
      | some k => exact Or.inl rfl
    refine ⟨rfl, ?_⟩
    intro rest hrest
    rw [List.append_assoc]
    exact hs _ (.pass hj ht hpass hrest)

/-- Each step of the thread takes the broadcast on. -/
theorem step (hs : Continues s.contexts.length target p i log s.broadCastThread)
    (htarget : broadCastTargets p s.contexts = target) (he : e ≠ .bcTop)
    (h : IocpDemo.step cfg s e = some s') :
    Continues s.contexts.length target p i (log ++ broadCastAttempts s e) s'.broadCastThread := by
  cases e with
  | bcTop => exact absurd rfl he
  | popBCPacket =>
      obtain ⟨hpc, -⟩ := Server.popBCPacket_some h
      rw [hpc] at hs
      exact hs.elim
  | bcTest =>
      subst htarget
      rw [show broadCastAttempts s .bcTest = [] from rfl, List.append_nil]
      exact hs.bcTest h
  | bcCopy =>
      obtain ⟨q, j, hpc, rfl⟩ := Server.bcCopy_some h
      rw [hpc] at hs
      rw [show broadCastAttempts s .bcCopy = [] from rfl, List.append_nil]
      exact hs
  | bcWsa r => exact hs.bcWsa h
  | _ =>
      rw [show broadCastAttempts s _ = [] from rfl, List.append_nil,
        (step_frame h).broadCastThread (by simp [Event.thread])]
      exact hs

end Continues

/-- **The server's broadcasts make the same traces.**  In every run from the head of the loop to its
end in which the targets stay as they are, whatever the other threads do, the calls that
`SendBroadCastThread` makes are those of a table visited with retries. -/
theorem serves_of_broadCast {log : List Attempt} (hpc : s.broadCastThread = .looping p i)
    (h : Reach (logged (step cfg) broadCastAttempts) (fun x e =>
      broadCastTargets p x.1.contexts = broadCastTargets p s.contexts ∧ e ≠ .bcTop)
      (s, []) (s', log)) (htop : s'.broadCastThread = .top) :
    ServesFrom s.contexts.length (broadCastTargets p s.contexts) p.bIsReliable i log := by
  have hinv := h.logged_invariant (I := fun t log => t.contexts.length = s.contexts.length ∧
    Continues s.contexts.length (broadCastTargets p s.contexts) p i log t.broadCastThread) ?_ ?_
  · rw [htop] at hinv
    exact hinv.2
  · refine ⟨rfl, ?_⟩
    rw [hpc]
    exact ⟨rfl, fun rest hrest => hrest⟩
  · intro t log e u ht hP hstep
    obtain ⟨hlength, hcont⟩ := ht
    refine ⟨(step_length hstep).trans hlength, ?_⟩
    rw [← hlength] at hcont ⊢
    exact hcont.step hP.1 hP.2 hstep

/-! ### Reliable broadcasts -/

/-- The contexts that are connected and are not the one the packet is addressed to. -/
def IsTarget (p : PacketBuffer) (contexts : List ClientContext) (i : ℕ) : Prop :=
  ∃ c : ClientContext, contexts[i]? = some c ∧ c.isConnected = true ∧
    p.packetIndex.toUInt32 ≠ c.getIndex

theorem isTarget_iff : IsTarget p contexts i ↔
    i < contexts.length ∧ broadCastTargets p contexts i = true := by
  constructor
  · rintro ⟨c, hc, hconnected, hne⟩
    refine ⟨(List.getElem?_eq_some_iff.1 hc).1, ?_⟩
    rw [broadCastTargets_eq hc, Server.isBroadCastTarget, hconnected, Bool.true_and, bne_iff_ne]
    exact hne
  · rintro ⟨-, ht⟩
    obtain ⟨c, hc, ht⟩ := (Option.any_eq_true _ _).1 ht
    rw [Server.isBroadCastTarget, Bool.and_eq_true, bne_iff_ne] at ht
    exact ⟨c, hc, ht.1, ht.2⟩

/-- The calls of a broadcast that has returned are the trace of a table visited with retries. -/
theorem BroadCastReturns.serves (h : BroadCastReturns p wsaSend contexts trace) :
    ServesFrom contexts.length (broadCastTargets p contexts) p.bIsReliable 0 trace := by
  obtain ⟨fuel, h⟩ := h
  rw [sendPacketBroadCast_eq] at h
  exact serves_of_serve h

/-- A broadcast returns exactly if it is unreliable or each target can be sent the packet. -/
theorem exists_broadCastReturns_iff (hp : 0 < p.bufferSize.toNat) :
    (∃ trace, BroadCastReturns p wsaSend contexts trace) ↔
      (p.bIsReliable = true → ∀ i, IsTarget p contexts i → ∃ k, (wsaSend i k).isSome = true) := by
  have hanswer : ∀ i k, broadCastAnswers p wsaSend i k = (wsaSend i k).isSome := by
    intro i k
    simp [broadCastAnswers, hp]
  have hserve : (∃ fuel trace, serve contexts.length (broadCastTargets p contexts) p.bIsReliable
      (broadCastAnswers p wsaSend) fuel 0 0 = some trace) ↔ _ := exists_serve_iff
  simp only [hanswer, ← sendPacketBroadCast_eq] at hserve
  rw [exists_comm] at hserve
  refine hserve.trans (imp_congr_right fun _ => forall_congr' fun i => ?_)
  rw [isTarget_iff, and_imp]

/-- **When the broadcast of a reliable packet returns.**  For every table of contexts, every
excluded index, every packet that is not empty and every pattern of results: the call returns,
having attempted every other connected client, if and only if each of these has an attempt that
succeeds. -/
theorem reliable_broadcast_returns_iff (hr : p.bIsReliable = true) (hp : 0 < p.bufferSize.toNat)
    (wsaSend : ℕ → ℕ → Option ℕ) (contexts : List ClientContext) :
    (∃ trace, BroadCastReturns p wsaSend contexts trace ∧
        ∀ i, IsTarget p contexts i → ∃ a ∈ trace, a.slot = i) ↔
      ∀ i, IsTarget p contexts i → ∃ k, (wsaSend i k).isSome = true := by
  constructor
  · rintro ⟨trace, h, -⟩
    exact (exists_broadCastReturns_iff hp).1 ⟨trace, h⟩ hr
  · intro hanswer
    obtain ⟨trace, h⟩ := (exists_broadCastReturns_iff hp).2 fun _ => hanswer
    refine ⟨trace, h, ?_⟩
    intro i hi
    obtain ⟨hlt, ht⟩ := isTarget_iff.1 hi
    exact h.serves.exists_attempt (Nat.zero_le i) hlt ht

/-- A table with the given sockets. -/
def tableOf (sockets : List (Option Socket)) : List ClientContext :=
  sockets.mapIdx fun i socket =>
    { (ClientContext.create fun _ => 0).init (UInt32.ofNat i) with socket }

theorem getIndex_tableOf {sockets : List (Option Socket)} {c : ClientContext} (hi : i < 2 ^ 32)
    (hc : (tableOf sockets)[i]? = some c) : c.getIndex.toNat = i := by
  rw [tableOf, List.getElem?_mapIdx] at hc
  obtain ⟨socket, -, rfl⟩ := Option.map_eq_some_iff.1 hc
  have hindex := ClientContext.getIndex_init (ClientContext.create fun _ => 0) (UInt32.ofNat i)
  rw [ClientContext.getIndex] at hindex ⊢
  rw [hindex, UInt32.toNat_ofNat_of_lt' hi]

/-- A reliable packet of four bytes that names the player of slot 0. -/
def spawnOfZero : PacketBuffer := { bIsReliable := true, bufferSize := 4, packetIndex := 0 }

/-- The client of slot 1 refuses the packet twice, and the broadcast returns. -/
theorem refused_twice_returns :
    ∃ trace, BroadCastReturns spawnOfZero (fun _ k => if k < 2 then none else some 4)
        (tableOf [some 7, some 8, none]) trace ∧
      ∀ i, IsTarget spawnOfZero (tableOf [some 7, some 8, none]) i →
        ∃ a ∈ trace, a.slot = i :=
  (reliable_broadcast_returns_iff rfl (by decide) _ _).2 fun _ _ => ⟨2, rfl⟩

/-- **A dead client blocks the others.**  The client of slot 1 never accepts the packet: the
broadcast does not return, although the client of slot 2 would accept it at once. -/
theorem dead_client_blocks_broadcast :
    IsTarget spawnOfZero (tableOf [some 7, some 8, some 9]) 2 ∧
      ∀ trace, ¬ BroadCastReturns spawnOfZero (fun i _ => if i = 1 then none else some 4)
        (tableOf [some 7, some 8, some 9]) trace := by
  have htarget : ∀ i < 3, broadCastTargets spawnOfZero
      (tableOf [some 7, some 8, some 9]) i = decide (i ≠ 0) := by decide +kernel
  refine ⟨isTarget_iff.2 ⟨by decide, htarget 2 (by decide)⟩, ?_⟩
  intro trace h
  have hanswer := (exists_broadCastReturns_iff (by decide)).1 ⟨trace, h⟩ rfl 1
    (isTarget_iff.2 ⟨by decide, htarget 1 (by decide)⟩)
  simp at hanswer

/-! ### Who is served -/

/-- A client is connected at the position `i`. -/
def ConnectedIn (contexts : List ClientContext) (i : ℕ) : Prop :=
  ∃ c : ClientContext, contexts[i]? = some c ∧ c.isConnected = true

/-- Where each context's index is its position, the targets are the others that are connected. -/
theorem isTarget_iff_of_index
    (hindex : ∀ (i : ℕ) (c : ClientContext), contexts[i]? = some c → c.getIndex.toNat = i) :
    IsTarget p contexts i ↔ ConnectedIn contexts i ∧ i ≠ p.packetIndex.toNat := by
  have hne : ∀ c : ClientContext, contexts[i]? = some c →
      (p.packetIndex.toUInt32 ≠ c.getIndex ↔ i ≠ p.packetIndex.toNat) := by
    intro c hc
    rw [ne_eq, ← UInt32.toNat_inj, UInt16.toNat_toUInt32, hindex i c hc, eq_comm]
  constructor
  · rintro ⟨c, hc, hconnected, hother⟩
    exact ⟨⟨c, hc, hconnected⟩, (hne c hc).1 hother⟩
  · rintro ⟨⟨c, hc, hconnected⟩, hother⟩
    exact ⟨c, hc, hconnected, (hne c hc).2 hother⟩

/-- An oracle that fails finitely often succeeds at some time. -/
theorem exists_isSome_of_finite {answers : ℕ → Option ℕ} (h : {k | answers k = none}.Finite) :
    ∃ k, (answers k).isSome = true := by
  obtain ⟨k, hk⟩ := h.exists_notMem
  exact ⟨k, Option.isSome_iff_ne_none.2 hk⟩

/-- **Who is served, how often and in which order.**  For every table of contexts each of which has
its position as its index, every packet that is not empty and every oracle of results in which each
client fails finitely often: `SendPacketBroadCast` returns; it calls `SendPendingPacket` only for
clients that are connected and not excluded, in increasing order; each of these has, if the packet
is reliable, some attempts that fail and then one that succeeds, and one attempt if it is not. -/
theorem broadcast_serves_each_target
    (hindex : ∀ (i : ℕ) (c : ClientContext), contexts[i]? = some c → c.getIndex.toNat = i)
    (hp : 0 < p.bufferSize.toNat)
    (hfinite : ∀ i < contexts.length, {k | wsaSend i k = none}.Finite) :
    (∃ trace, BroadCastReturns p wsaSend contexts trace) ∧
      ∀ trace, BroadCastReturns p wsaSend contexts trace →
        (∀ a ∈ trace, ConnectedIn contexts a.slot ∧ a.slot ≠ p.packetIndex.toNat) ∧
          trace.Pairwise (fun a b => a.slot ≤ b.slot) ∧
          ∀ i, ConnectedIn contexts i → i ≠ p.packetIndex.toNat →
            (p.bIsReliable = true → ∃ m, trace.filter (fun a => a.slot = i) =
              List.replicate m ⟨i, false⟩ ++ [⟨i, true⟩]) ∧
            (p.bIsReliable = false → ∃ sent, trace.filter (fun a => a.slot = i) =
              [⟨i, sent⟩]) := by
  refine ⟨(exists_broadCastReturns_iff hp).2 ?_, ?_⟩
  · intro _ i hi
    exact exists_isSome_of_finite (hfinite i (isTarget_iff.1 hi).1)
  · intro trace h
    have hserves := h.serves
    refine ⟨?_, hserves.pairwise, ?_⟩
    · intro a ha
      obtain ⟨-, hlt, ht⟩ := hserves.slot_of_mem ha
      exact (isTarget_iff_of_index hindex).1 (isTarget_iff.2 ⟨hlt, ht⟩)
    · intro i hi hne
      obtain ⟨hlt, ht⟩ := isTarget_iff.1 ((isTarget_iff_of_index hindex).2 ⟨hi, hne⟩)
      constructor
      · intro hr
        rw [hr] at hserves
        exact hserves.attempts_retry (Nat.zero_le i) hlt ht
      · intro hr
        rw [hr] at hserves
        exact hserves.attempts_once (Nat.zero_le i) hlt ht

/-- Of three slots the second is free and the first is excluded: the third client gets the packet,
after it has refused it some times. -/
theorem third_client_is_served :
    ∃ trace m, BroadCastReturns spawnOfZero (fun _ k => if k < 2 then none else some 4)
        (tableOf [some 7, none, some 9]) trace ∧
      trace.filter (fun a => a.slot = 2) = List.replicate m ⟨2, false⟩ ++ [⟨2, true⟩] := by
  have hindex : ∀ (i : ℕ) (c : ClientContext),
      (tableOf [some 7, none, some 9])[i]? = some c → c.getIndex.toNat = i := by
    intro i c hc
    have hi : i < 3 := (List.getElem?_eq_some_iff.1 hc).1
    exact getIndex_tableOf (by omega) hc
  have hfinite : ∀ i < (tableOf [some 7, none, some 9]).length,
      {k | (fun (_ : ℕ) (k : ℕ) => if k < 2 then none else some 4) i k =
        (none : Option ℕ)}.Finite :=
    fun i _ => (Set.finite_lt_nat 2).subset fun k hk => by simpa using hk
  obtain ⟨⟨trace, h⟩, htraces⟩ :=
    broadcast_serves_each_target (p := spawnOfZero) hindex (by decide) hfinite
  obtain ⟨-, -, hserved⟩ := htraces trace h
  obtain ⟨m, hm⟩ := (hserved 2 ⟨_, rfl, rfl⟩ (by decide)).1 rfl
  exact ⟨trace, m, h, hm⟩

end IocpDemo
