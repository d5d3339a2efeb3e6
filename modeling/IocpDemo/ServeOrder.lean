/-
**The order in which a client is served** (`WorkThread`, `ReceivePacket`).

Any worker thread may be given any completion.  But a slot has at most one receive that is
outstanding, whose completion is queued, or that is being processed: `AcceptThread` issues the first
one, and a worker thread issues the next one when it has dispatched what came with the last one.  So
between the arrival of some bytes for a slot and their dispatch nothing else arrives for the slot.

Main definitions:

* `IocpDemo.Service`, `IocpDemo.serviceSystem` — the server with a log of arrivals and dispatches;
* `IocpDemo.ServedInOrder` — of the completions of a kind that have arrived with bytes all have been
  dispatched in their order, but for the last one at most;
* `IocpDemo.SlotServed`, `IocpDemo.Attached` — the invariants.

Main results:

* `IocpDemo.client_served_in_order` — **with any number of worker threads each slot has one receive,
  and each client is served in order**;
* `IocpDemo.two_frames_in_order` — a run in which two frames are served.
-/

import IocpDemo.Occupancy
import IocpDemo.RecvBuffer

set_option relaxedAutoImplicit false
set_option autoImplicit false

namespace IocpDemo

open Bytes Transition Wire

variable {cfg : Config} {s s' : Server} {n : ℕ} {e : Event} {i : ℕ} {c : Completion}

/-! ### The log -/

/-- What is logged: a completion that arrives, and a completion that is dispatched. -/
inductive Service
  | arrived (c : Completion)
  | dispatched (c : Completion)

/-- The completion whose bytes a worker thread is about to read. -/
def WorkPc.unread : WorkPc → Option Completion
  | .received c => some c
  | _ => none

/-- What a step logs: a receive completes, or `DeSerializePacket` is called. -/
def services (cfg : Config) (s : Server) : Event → List Service
  | .completeRecv k bSuccess data =>
      s.os.outstanding[k]?.toList.map fun r => .arrived ⟨r.key, bSuccess, data, r.conn⟩
  | .deSerialize w =>
      (s.workThreads[w]?.bind WorkPc.unread).toList.filter
        (fun c => (s.contexts[c.key]?.bind (dispatchOf cfg.listenSocket)).isSome) |>.map .dispatched
  | _ => []

/-- The server with this log. -/
abbrev serviceSystem (cfg : Config) : Server × List Service → Event →
    Option (Server × List Service) := logged (step cfg) (services cfg)

/-- The completions that have arrived with bytes, in their order. -/
def arrivals (log : List Service) : List Completion :=
  log.filterMap fun
    | .arrived c => if c.data = [] then none else some c
    | .dispatched _ => none

/-- The completions that have been dispatched, in their order. -/
def dispatches (log : List Service) : List Completion :=
  log.filterMap fun
    | .arrived _ => none
    | .dispatched c => some c

/-- The completions of a kind have been dispatched in the order in which they have arrived, and at
most one of them has not been dispatched. -/
def ServedInOrder (kind : Completion → Bool) (log : List Service) : Prop :=
  (dispatches log).filter kind <+: (arrivals log).filter kind ∧
    ((arrivals log).filter kind).length ≤ ((dispatches log).filter kind).length + 1

@[simp] theorem arrivals_append (l l' : List Service) :
    arrivals (l ++ l') = arrivals l ++ arrivals l' := List.filterMap_append

@[simp] theorem dispatches_append (l l' : List Service) :
    dispatches (l ++ l') = dispatches l ++ dispatches l' := List.filterMap_append

theorem filter_filter_of_imp {α : Type} {l : List α} {p q : α → Bool}
    (h : ∀ a ∈ l, p a = true → q a = true) : (l.filter q).filter p = l.filter p := by
  rw [List.filter_filter]
  refine List.filter_congr fun a ha => ?_
  cases hp : p a with
  | false => rfl
  | true => simp [h a ha hp]

/-- Who is served in order among others is served in order. -/
theorem ServedInOrder.of_imp {p q : Completion → Bool} {log : List Service}
    (h : ServedInOrder q log) (hd : ∀ c ∈ dispatches log, p c = true → q c = true)
    (ha : ∀ c ∈ arrivals log, p c = true → q c = true) : ServedInOrder p log := by
  obtain ⟨⟨rest, hrest⟩, hlen⟩ := h
  have heq : (dispatches log).filter p ++ rest.filter p = (arrivals log).filter p := by
    rw [← filter_filter_of_imp ha, ← hrest, List.filter_append, filter_filter_of_imp hd]
  refine ⟨⟨_, heq⟩, ?_⟩
  have hle := List.length_filter_le p rest
  rw [← hrest, List.length_append] at hlen
  rw [← heq, List.length_append]
  omega

theorem services_completeRecv {k : ℕ} {r : PendingRecv} (hr : s.os.outstanding[k]? = some r)
    (bSuccess : Bool) (data : List UInt8) : services cfg s (.completeRecv k bSuccess data) =
      [.arrived ⟨r.key, bSuccess, data, r.conn⟩] := by
  simp [services, hr]

theorem services_deSerialize {w : ℕ} {ctx : ClientContext}
    (hpc : s.workThreads[w]? = some (.received c)) (hctx : s.contexts[c.key]? = some ctx)
    (hd : dispatchOf cfg.listenSocket ctx ≠ none) :
    services cfg s (.deSerialize w) = [.dispatched c] := by
  have hsome : (dispatchOf cfg.listenSocket ctx).isSome = true := Option.isSome_iff_ne_none.2 hd
  simp [services, hpc, hctx, hsome, WorkPc.unread]

/-- The other steps log nothing. -/
theorem services_of_ne (hc : ∀ k b d, e ≠ .completeRecv k b d) (hd : ∀ w, e ≠ .deSerialize w) :
    services cfg s e = [] := by
  cases e with
  | completeRecv k b d => exact absurd rfl (hc k b d)
  | deSerialize w => exact absurd rfl (hd w)
  | _ => rfl

/-! ### Unread completions -/

theorem afterCompletion_of_data (hdata : c.data ≠ []) : Server.afterCompletion c = .received c := by
  have hlen : c.data.length ≠ 0 := fun h => hdata (List.length_eq_zero_iff.1 h)
  simp [Server.afterCompletion, workBranch, hlen]

/-- A completion with bytes stays unread until it is dispatched. -/
theorem Unread.step (hc : Unread s c) (h : step cfg s e = some s') (hdata : c.data ≠ []) :
    Unread s' c ∨ ∃ w, e = .deSerialize w ∧ s.workThreads[w]? = some (.received c) := by
  rcases hc with hqueued | ⟨v, hv⟩
  · cases hmoves : e.movesReceives with
    | false => exact Or.inl (Or.inl (((step_os h).receives hmoves).2 ▸ hqueued))
    | true =>
        left
        cases e with
        | acceptReceive pending =>
            obtain ⟨j, conn, -, hrecv⟩ := Server.acceptReceive_some h
            exact Or.inl ((Server.receivePacket_completions hrecv).symm ▸ hqueued)
        | workReceive w pending =>
            obtain ⟨c', -, hrecv⟩ := Server.workReceive_some h
            exact Or.inl ((Server.receivePacket_completions hrecv).symm ▸ hqueued)
        | getCompletion w =>
            obtain ⟨c', rest, hpc, hq, rfl⟩ := Server.getCompletion_some h
            rw [hq] at hqueued
            rcases List.mem_cons.1 hqueued with rfl | hrest
            · refine Or.inr ⟨w, ?_⟩
              have hlt := (List.getElem?_eq_some_iff.1 hpc).1
              rw [← afterCompletion_of_data hdata]
              exact List.getElem?_set_self hlt
            · exact Or.inl hrest
        | completeRecv k bSuccess data =>
            obtain ⟨r, -, -, -, rfl⟩ := Server.completeRecv_some h
            exact Or.inl (List.mem_append_left _ hqueued)
        | _ => cases hmoves
  · rcases step_workThreads h with ⟨hsame, -⟩ | ⟨w, pc, pc', hmove, hpc, hset⟩
    · exact Or.inl (Or.inr ⟨v, hsame ▸ hv⟩)
    · by_cases hvw : v = w
      · subst hvw
        obtain rfl : pc = .received c := Option.some.inj (hpc.symm.trans hv)
        generalize hpc' : WorkPc.received c = pc at hmove
        cases hmove with
        | ignored _ _ | handled _ _ =>
            obtain rfl := WorkPc.received.inj hpc'
            exact Or.inr ⟨v, rfl, hv⟩
        | _ => cases hpc'
      · refine Or.inl (Or.inr ⟨v, ?_⟩)
        rw [hset, List.getElem?_set_ne (Ne.symm hvw)]
        exact hv

/-- While a worker thread reads a completion, no other one is unread on its slot. -/
theorem Unread.eq_of_read (hc : Unread s c) (hb : LoadBounded s) {w : ℕ} {c' : Completion}
    (hpc : s.workThreads[w]? = some (.received c')) (hkey : c.key = c'.key) :
    s.workThreads[w]? = some (.received c) := by
  have hone := hb.le_one c'.key
  simp only [Server.load, Server.receives, Server.processing] at hone
  have hw := Server.pos_countP_of_worker hpc rfl
  rcases hc with hqueued | ⟨v, hv⟩
  · have hq : 0 < s.os.completions.countP (fun c => c.key = c'.key) :=
      List.countP_pos_iff.2 ⟨c, hqueued, by simpa using hkey⟩
    omega
  · by_cases hvw : v = w
    · exact hvw ▸ hv
    · have htwo := Server.two_le_countP_of_workers hv hpc hvw (congrArg some hkey) rfl
      omega

/-! ### The completions of a slot -/

/-- **What has arrived for a slot has been dispatched**, but for one completion at most, which is
unread. -/
inductive SlotServed (s : Server) (log : List Service) (i : ℕ) : Prop
  | drained (hnone : ∀ c, Unread s c → c.data ≠ [] → c.key ≠ i)
      (heq : (arrivals log).filter (·.key = i) = (dispatches log).filter (·.key = i))
  | waiting {c : Completion} (hc : Unread s c) (hdata : c.data ≠ []) (hkey : c.key = i)
      (heq : (arrivals log).filter (·.key = i) = (dispatches log).filter (·.key = i) ++ [c])

namespace SlotServed

variable {log : List Service}

theorem init (mem : ℕ → Mem) (n workers : ℕ) : SlotServed (initServer mem n workers) [] i := by
  refine .drained ?_ rfl
  rintro c (hq | ⟨w, hw⟩)
  · cases hq
  · simp [initServer, List.getElem?_replicate] at hw

/-- A receive of the slot completes. -/
theorem arrive (hs : SlotServed s log i) {k : ℕ} {bSuccess : Bool} {data : List UInt8}
    (h : IocpDemo.step cfg s (.completeRecv k bSuccess data) = some s') (hb : LoadBounded s) :
    SlotServed s' (log ++ services cfg s (.completeRecv k bSuccess data)) i := by
  obtain ⟨r, hr, -, -, hs'⟩ := Server.completeRecv_some h
  have hmem := List.mem_of_getElem? hr
  rw [services_completeRecv hr]
  by_cases hnew : data ≠ [] ∧ r.key = i
  · obtain ⟨hdata, hkey⟩ := hnew
    have hunread : Unread s' ⟨r.key, bSuccess, data, r.conn⟩ := by
      rw [hs']
      exact Or.inl (List.mem_append_right _ (List.mem_singleton_self _))
    cases hs with
    | drained _ heq =>
        refine .waiting hunread hdata hkey ?_
        simp [arrivals, dispatches, hdata, hkey] at heq ⊢
        exact heq
    | waiting hc _ hkey' _ => exact absurd (hkey.trans hkey'.symm) (hc.outstanding_ne hb hmem)
  · have hsame : (arrivals (log ++ [.arrived ⟨r.key, bSuccess, data, r.conn⟩])).filter
        (·.key = i) = (arrivals log).filter (·.key = i) := by
      rw [arrivals_append, List.filter_append]
      by_cases hdata : data = []
      · simp [arrivals, hdata]
      · have hkey : r.key ≠ i := fun hkey => hnew ⟨hdata, hkey⟩
        simp [arrivals, hdata, hkey]
    have hsame' : dispatches (log ++ [.arrived ⟨r.key, bSuccess, data, r.conn⟩]) =
        dispatches log := by simp [dispatches]
    cases hs with
    | drained hnone heq =>
        refine .drained (fun c hc hdata hkey => ?_) (by rw [hsame, hsame']; exact heq)
        rcases unread_of_step h hc with hold | ⟨k', r', he, hr', hkey'⟩
        · exact hnone c hold hdata hkey
        · obtain ⟨rfl, rfl, rfl⟩ : k = k' ∧ bSuccess = c.bSuccess ∧ data = c.data := by
            simpa using he
          obtain rfl : r = r' := Option.some.inj (hr.symm.trans hr')
          exact hnew ⟨hdata, hkey'.symm.trans hkey⟩
    | waiting hc hdata hkey heq =>
        rcases hc.step h hdata with hc' | ⟨w, he, -⟩
        · exact .waiting hc' hdata hkey (by rw [hsame, hsame']; exact heq)
        · cases he

/-- A completion is dispatched. -/
theorem dispatch (hs : SlotServed s log i) {w : ℕ}
    (h : IocpDemo.step cfg s (.deSerialize w) = some s') (hb : LoadBounded s)
    (hb' : LoadBounded s') (hh : Handles cfg s)
    (hread : ∀ c, s.workThreads[w]? = some (.received c) → c.data ≠ []) :
    SlotServed s' (log ++ services cfg s (.deSerialize w)) i := by
  obtain ⟨c, ctx, hpc, hctx, hcases⟩ := Server.deSerialize_some h
  have hdisp : dispatchOf cfg.listenSocket ctx ≠ none := by
    -- no slot has the listening socket
    have hlisten := hh.listen c.key
    rw [Server.socketAt_eq hctx] at hlisten
    simp [dispatchOf_eq hlisten]
  have hpc' : s'.workThreads[w]? = some (.rearming c) := by
    have hlt := (List.getElem?_eq_some_iff.1 hpc).1
    rcases hcases with ⟨hnone, -⟩ | ⟨packetID, dataSize, -, rfl⟩
    · exact absurd hnone hdisp
    · exact List.getElem?_set_self hlt
  rw [services_deSerialize hpc hctx hdisp]
  have harr : arrivals (log ++ [.dispatched c]) = arrivals log := by simp [arrivals]
  -- what is unread behind the step was unread before
  have hback : ∀ d, Unread s' d → Unread s d := by
    intro d hd
    rcases unread_of_step h hd with hold | ⟨k, r, he, -⟩
    · exact hold
    · cases he
  by_cases hkey : c.key = i
  · cases hs with
    | drained hnone _ => exact absurd hkey (hnone c (Or.inr ⟨w, hpc⟩) (hread c hpc))
    | @waiting d hd hdata hkeyd heq =>
        have hdw := hd.eq_of_read hb hpc (hkeyd.trans hkey.symm)
        obtain rfl : c = d := WorkPc.received.inj (Option.some.inj (hpc.symm.trans hdw))
        refine .drained (fun d hd' _ hkey' => ?_) ?_
        · exact hd'.rearming_ne hb' hpc' (hkey.trans hkey'.symm)
        · rw [harr, heq]
          simp [dispatches, hkey]
  · have hdis : (dispatches (log ++ [.dispatched c])).filter (·.key = i) =
        (dispatches log).filter (·.key = i) := by
      simp [dispatches, hkey]
    cases hs with
    | drained hnone heq =>
        exact .drained (fun d hd => hnone d (hback d hd)) (by rw [harr, hdis]; exact heq)
    | waiting hc hdata hkey' heq =>
        rcases hc.step h hdata with hc' | ⟨v, he, hv⟩
        · exact .waiting hc' hdata hkey' (by rw [harr, hdis]; exact heq)
        · obtain rfl := Event.deSerialize.inj he
          obtain rfl := WorkPc.received.inj (Option.some.inj (hpc.symm.trans hv))
          exact absurd hkey' hkey

/-- Another step. -/
theorem step_of_ne (hs : SlotServed s log i) (h : IocpDemo.step cfg s e = some s')
    (hc : ∀ k b d, e ≠ .completeRecv k b d) (hd : ∀ w, e ≠ .deSerialize w) :
    SlotServed s' (log ++ services cfg s e) i := by
  rw [services_of_ne hc hd, List.append_nil]
  cases hs with
  | drained hnone heq =>
      refine .drained (fun c hu => ?_) heq
      rcases unread_of_step h hu with hold | ⟨k, r, he, -⟩
      · exact hnone c hold
      · exact absurd he (hc _ _ _)
  | waiting hu hdata hkey heq =>
      rcases hu.step h hdata with hu' | ⟨w, he, -⟩
      · exact .waiting hu' hdata hkey heq
      · exact absurd he (hd w)

end SlotServed

/-! ### The connection of a completion -/

/-- Only `ConnectClient` associates a connection with a slot. -/
theorem step_keys (h : step cfg s e = some s') (he : e ≠ .connectClient) :
    s'.os.keys = s.os.keys := by
  cases hmoves : e.movesSockets with
  | false => exact ((step_os h).sockets hmoves).2.1
  | true =>
      cases e with
      | connectClient => exact absurd rfl he
      | wsaAccept r =>
          cases r with
          | none => cases hmoves
          | some sock =>
              obtain ⟨i, -, -, -, rfl⟩ := Server.wsaAccept_some_some h
              rfl
      | checkConnected =>
          obtain ⟨i, sock, conn, c, -, -, ⟨-, rfl⟩ | ⟨-, rfl⟩⟩ :=
            Server.checkConnected_some h <;> rfl
      | closeSocket w =>
          obtain ⟨c, ctx, -, -, rfl⟩ := Server.closeSocket_some h
          rfl
      | disconnect i =>
          obtain ⟨c, -, -, rfl⟩ := Server.disconnect_some h
          rfl
      | _ => cases hmoves

/-- The connection has been attached to the slot. -/
structure Attached (s : Server) (conn i : ℕ) : Prop where
  key : s.os.keys conn = i
  attached : s.WasAttached conn

/-- An attached connection stays attached to its slot. -/
theorem Attached.step {conn : ℕ} (ha : Attached s conn i) (h : IocpDemo.step cfg s e = some s') :
    Attached s' conn i := by
  refine ⟨?_, ha.attached.step h⟩
  by_cases he : e = .connectClient
  · subst he
    obtain ⟨j, sock, conn', hpc, rfl⟩ := Server.connectClient_some h
    refine (Function.update_of_ne ?_ _ _).trans ha.key
    rintro rfl
    exact ha.attached.incoming j sock hpc
  · rw [step_keys h he]
    exact ha.key

/-- The completion that a worker thread processes. -/
def WorkPc.completion : WorkPc → Option Completion
  | .closing c | .forgetting c | .received c | .rearming c => some c
  | .top | .waiting | .stopped => none

theorem WorkPc.key_of_completion {pc : WorkPc} (h : pc.completion = some c) :
    pc.key = some c.key := by
  cases pc <;> exact congrArg (Option.map Completion.key) h

/-- A worker thread processes what it has processed before, or what it has fetched. -/
theorem completion_of_step (h : step cfg s e = some s') {v : ℕ} {pc : WorkPc}
    (hv : s'.workThreads[v]? = some pc) (hc : pc.completion = some c) :
    (∃ pc', s.workThreads[v]? = some pc' ∧ pc'.completion = some c) ∨ c ∈ s.os.completions := by
  rcases step_workThreads h with ⟨hsame, -⟩ | ⟨w, pc₁, pc₂, hmove, hpc, hset⟩
  · exact Or.inl ⟨pc, hsame ▸ hv, hc⟩
  · by_cases hvw : v = w
    · subst hvw
      have hlt := (List.getElem?_eq_some_iff.1 hpc).1
      rw [hset, List.getElem?_set_self hlt] at hv
      obtain rfl := Option.some.inj hv
      cases hmove with
      | entered => split at hc <;> cases hc
      | @got _ d rest hq =>
          refine Or.inr ?_
          rcases Server.afterCompletion_cases d with hnext | hnext | hnext <;> rw [hnext] at hc <;>
            cases hc
          all_goals
            rw [hq]
            exact List.mem_cons_self
      | closed | handled _ _ => exact Or.inl ⟨_, hpc, hc⟩
      | forgot | ignored _ _ | rearmed => cases hc
    · rw [hset, List.getElem?_set_ne (Ne.symm hvw)] at hv
      exact Or.inl ⟨pc, hv, hc⟩

/-- A receive that was issued for the connection, under the key of the slot, is outstanding, queued
as a completion, or being processed. -/
inductive InFlight (s : Server) (conn i : ℕ) : Prop
  | outstanding {r : PendingRecv} (hr : r ∈ s.os.outstanding) (hconn : r.conn = conn)
      (hkey : r.key = i)
  | queued {c : Completion} (hc : c ∈ s.os.completions) (hconn : c.conn = conn) (hkey : c.key = i)
  | processed {w : ℕ} {pc : WorkPc} {c : Completion} (hpc : s.workThreads[w]? = some pc)
      (hc : pc.completion = some c) (hconn : c.conn = conn) (hkey : c.key = i)

theorem not_inFlight_initServer (mem : ℕ → Mem) (n workers : ℕ) {conn i : ℕ} :
    ¬ InFlight (initServer mem n workers) conn i := by
  intro hf
  cases hf with
  | outstanding hr _ _ => cases hr
  | queued hc _ _ => cases hc
  | processed hpc hc _ _ =>
      simp only [initServer, List.getElem?_replicate] at hpc
      split at hpc
      · obtain rfl := Option.some.inj hpc
        cases hc
      · cases hpc

/-- A receive in flight counts. -/
theorem InFlight.load_pos {conn : ℕ} (hf : InFlight s conn i) : 0 < s.load i := by
  simp only [Server.load, Server.receives, Server.processing]
  cases hf with
  | outstanding hr _ hkey =>
      have hpos : 0 < s.os.outstanding.countP (fun r => r.key = i) :=
        List.countP_pos_iff.2 ⟨_, hr, by simpa using hkey⟩
      omega
  | queued hc _ hkey =>
      have hpos : 0 < s.os.completions.countP (fun c => c.key = i) :=
        List.countP_pos_iff.2 ⟨_, hc, by simpa using hkey⟩
      omega
  | processed hpc hc _ hkey =>
      have hpos := Server.pos_countP_of_worker hpc
        ((WorkPc.key_of_completion hc).trans (congrArg some hkey))
      omega

/-- **What is in flight was in flight before**, or has just been issued. -/
theorem InFlight.of_step {conn : ℕ} (hf : InFlight s' conn i) (h : step cfg s e = some s') :
    InFlight s conn i ∨
      ∃ r ∈ s'.os.outstanding, r ∉ s.os.outstanding ∧ r.conn = conn ∧ r.key = i := by
  cases hf with
  | @outstanding r hr hconn hkey =>
      by_cases hold : r ∈ s.os.outstanding
      · exact Or.inl (.outstanding hold hconn hkey)
      · exact Or.inr ⟨r, hr, hold, hconn, hkey⟩
  | @queued c hc hconn hkey =>
      left
      cases hmoves : e.movesReceives with
      | false => exact .queued (((step_os h).receives hmoves).2 ▸ hc) hconn hkey
      | true =>
          cases e with
          | acceptReceive pending =>
              obtain ⟨j, conn, -, hrecv⟩ := Server.acceptReceive_some h
              exact .queued (Server.receivePacket_completions hrecv ▸ hc) hconn hkey
          | workReceive w pending =>
              obtain ⟨c', -, hrecv⟩ := Server.workReceive_some h
              exact .queued (Server.receivePacket_completions hrecv ▸ hc) hconn hkey
          | getCompletion w =>
              obtain ⟨c', rest, -, hq, rfl⟩ := Server.getCompletion_some h
              exact .queued (hq ▸ List.mem_cons_of_mem _ hc) hconn hkey
          | completeRecv k bSuccess data =>
              obtain ⟨r, hr, -, -, rfl⟩ := Server.completeRecv_some h
              rcases List.mem_append.1 hc with hold | hnew
              · exact .queued hold hconn hkey
              · obtain rfl := List.mem_singleton.1 hnew
                exact .outstanding (List.mem_of_getElem? hr) hconn hkey
          | _ => cases hmoves
  | processed hpc hc hconn hkey =>
      rcases completion_of_step h hpc hc with ⟨pc', hpc', hc'⟩ | hqueued
      · exact Or.inl (.processed hpc' hc' hconn hkey)
      · exact Or.inl (.queued hqueued hconn hkey)

/-- A worker thread reads a completion with bytes. -/
theorem data_of_step (h : step cfg s e = some s')
    (hs : ∀ (w : ℕ) (c : Completion), s.workThreads[w]? = some (.received c) → c.data ≠ [])
    {v : ℕ} (hv : s'.workThreads[v]? = some (.received c)) : c.data ≠ [] := by
  rcases step_workThreads h with ⟨hsame, -⟩ | ⟨w, pc₁, pc₂, hmove, hpc, hset⟩
  · exact hs v c (hsame ▸ hv)
  · by_cases hvw : v = w
    · subst hvw
      have hlt := (List.getElem?_eq_some_iff.1 hpc).1
      rw [hset, List.getElem?_set_self hlt] at hv
      obtain rfl : pc₂ = .received c := Option.some.inj hv
      generalize hpc' : WorkPc.received c = pc₂ at hmove
      cases hmove with
      | entered => split at hpc' <;> cases hpc'
      | @got _ d rest hq =>
          intro hdata
          rcases Server.afterCompletion_cases d with hnext | hnext | hnext <;>
            rw [hnext] at hpc' <;> cases hpc'
          cases hb : c.bSuccess <;> simp [Server.afterCompletion, workBranch, hdata, hb] at hnext
      | _ => cases hpc'
    · rw [hset, List.getElem?_set_ne (Ne.symm hvw)] at hv
      exact hs v c hv

/-- A receive is issued on the connection of the slot's socket. -/
theorem receivePacket_attached {pending : Bool} (hs : Handles cfg s) (hnot : ¬ s.Forgetting i)
    (h : s.receivePacket i pending = some s') {r : PendingRecv} (hr : r ∈ s'.os.outstanding) :
    r ∈ s.os.outstanding ∨ Attached s r.conn r.key := by
  obtain ⟨ctx, hctx, ⟨-, rfl⟩ | ⟨-, sock, conn, hsock, hopen, rfl⟩⟩ := Server.receivePacket_some h
  · exact Or.inl hr
  · rcases List.mem_append.1 hr with hold | hnew
    · exact Or.inl hold
    · obtain rfl := List.mem_singleton.1 hnew
      have hsocket : s.socketAt i = some sock := by
        rw [Server.socketAt_eq hctx]
        exact hsock
      refine Or.inr ⟨rfl, ?_, fun j sock' hpc => ?_⟩
      · obtain ⟨l₁, l₂, heq, -⟩ := List.lookup_eq_some_iff.1 hopen
        exact hs.accepted (sock, conn) (by simp [heq])
      · exact hnot ((hs.incoming j sock' conn hpc).2.2 i sock hsocket hopen)

/-- **Every receive is issued on the connection of its slot.** -/
theorem receive_attached_of_step (hs : Receives cfg n s) (h : step cfg s e = some s')
    {r : PendingRecv} (hr : r ∈ s'.os.outstanding) :
    r ∈ s.os.outstanding ∨ Attached s r.conn r.key := by
  cases hmoves : e.movesReceives with
  | false => exact Or.inl (((step_os h).receives hmoves).1 ▸ hr)
  | true =>
      cases e with
      | acceptReceive pending =>
          obtain ⟨j, conn, hpc, hs', hnot, hrecv⟩ :=
            receivePacket_of_acceptReceive h hs.handles hs.bounded
          refine (receivePacket_attached hs' hnot hrecv hr).imp_right
            fun ha => ⟨ha.key, ha.attached.lt, ?_⟩
          intro k sock hpc'
          rw [hpc] at hpc'
          cases hpc'
      | workReceive w pending =>
          obtain ⟨c, hpc, hs', hnot, hrecv⟩ := receivePacket_of_workReceive h hs.handles hs.bounded
          exact (receivePacket_attached hs' hnot hrecv hr).imp_right
            fun ha => ⟨ha.key, ha.attached.lt, ha.attached.incoming⟩
      | getCompletion w =>
          obtain ⟨c, rest, -, -, rfl⟩ := Server.getCompletion_some h
          exact Or.inl hr
      | completeRecv k bSuccess data =>
          obtain ⟨r', -, -, -, rfl⟩ := Server.completeRecv_some h
          exact Or.inl (List.mem_of_mem_eraseIdx hr)
      | _ => cases hmoves

/-! ### The invariant -/

/-- **How the clients have been served.** -/
structure Serves (cfg : Config) (n : ℕ) (s : Server) (log : List Service) : Prop where
  receives : Receives cfg n s
  reads : ∀ (w : ℕ) (c : Completion), s.workThreads[w]? = some (.received c) → c.data ≠ []
  slots : ∀ i, SlotServed s log i
  inFlight : ∀ conn i, InFlight s conn i → Attached s conn i
  arrived : ∀ c ∈ arrivals log, Attached s c.conn c.key

namespace Serves

variable {log : List Service}

theorem init (mem : ℕ → Mem) (n workers : ℕ) :
    Serves cfg n (initServer mem n workers) [] where
  receives := Receives.init mem n workers
  reads w c h := by simp [initServer, List.getElem?_replicate] at h
  slots _ := SlotServed.init mem n workers
  inFlight conn i hf := absurd hf (not_inFlight_initServer mem n workers)
  arrived c h := by cases h

theorem slots_step (hs : Serves cfg n s log) (h : IocpDemo.step cfg s e = some s')
    (hno : e.thread ≠ .disconnect) (i : ℕ) : SlotServed s' (log ++ services cfg s e) i := by
  have hb := hs.receives.bounded
  cases e with
  | completeRecv k bSuccess data => exact (hs.slots i).arrive h hb
  | deSerialize w =>
      exact (hs.slots i).dispatch h hb (hs.receives.bounded_step h hno) hs.receives.handles
        (hs.reads w)
  | _ => exact (hs.slots i).step_of_ne h (by simp) (by simp)

theorem arrived_step (hs : Serves cfg n s log) (h : IocpDemo.step cfg s e = some s') :
    ∀ c ∈ arrivals (log ++ services cfg s e), Attached s' c.conn c.key := by
  intro c hc
  rw [arrivals_append] at hc
  rcases List.mem_append.1 hc with hc | hc
  · exact (hs.arrived c hc).step h
  · obtain ⟨x, hx, hxc⟩ := List.mem_filterMap.1 hc
    cases e with
    | completeRecv k bSuccess data =>
        have hstep := h
        obtain ⟨r, hr, -, -, -⟩ := Server.completeRecv_some h
        rw [services_completeRecv hr] at hx
        obtain rfl := List.mem_singleton.1 hx
        obtain ⟨-, rfl⟩ : ¬ data = [] ∧ ⟨r.key, bSuccess, data, r.conn⟩ = c := by simpa using hxc
        exact (hs.inFlight _ _ (.outstanding (List.mem_of_getElem? hr) rfl rfl)).step hstep
    | deSerialize w =>
        obtain ⟨d, -, rfl⟩ := List.mem_map.1 hx
        cases hxc
    | _ => cases hx

/-- **Every step but those of `DisconnectSocket` keeps the invariant.** -/
theorem step (hs : Serves cfg n s log) (h : IocpDemo.step cfg s e = some s')
    (hno : e.thread ≠ .disconnect) : Serves cfg n s' (log ++ services cfg s e) where
  receives := hs.receives.step h hno
  reads _ _ hv := data_of_step h hs.reads hv
  slots := hs.slots_step h hno
  inFlight conn i hf := by
    rcases hf.of_step h with hold | ⟨r, hr, hnew, rfl, rfl⟩
    · exact (hs.inFlight conn i hold).step h
    · rcases receive_attached_of_step hs.receives h hr with hold | ha
      · exact absurd hold hnew
      · exact ha.step h
  arrived := hs.arrived_step h

theorem of_reach {mem : ℕ → Mem} {workers : ℕ}
    (h : Reach (serviceSystem cfg) (fun _ e => e.thread ≠ .disconnect)
      (initServer mem n workers, []) (s, log)) : Serves cfg n s log :=
  h.logged_invariant (I := Serves cfg n) (init mem n workers) fun _ _ _ _ hx hP hstep =>
    hx.step hstep hP

/-- The completions of a slot are dispatched in order. -/
theorem slot_inOrder (hs : Serves cfg n s log) (i : ℕ) :
    ServedInOrder (fun c => c.key = i) log := by
  cases hs.slots i with
  | drained _ heq =>
      rw [ServedInOrder, heq]
      exact ⟨List.prefix_rfl, Nat.le_succ _⟩
  | waiting _ _ _ heq =>
      rw [ServedInOrder, heq]
      exact ⟨List.prefix_append _ _, by simp⟩

/-- What has been dispatched has arrived. -/
theorem mem_arrivals (hs : Serves cfg n s log) (hc : c ∈ dispatches log) : c ∈ arrivals log := by
  have hmem : c ∈ (dispatches log).filter (·.key = c.key) := List.mem_filter.2 ⟨hc, by simp⟩
  exact List.mem_of_mem_filter ((hs.slot_inOrder c.key).1.subset hmem)

/-- The completions of a connection are dispatched in order, because they have the key of its
slot. -/
theorem conn_inOrder (hs : Serves cfg n s log) (conn : ℕ) :
    ServedInOrder (fun c => c.conn = conn) log := by
  have hkey : ∀ c ∈ arrivals log, c.conn = conn → c.key = s.os.keys conn := by
    rintro c hc rfl
    exact (hs.arrived c hc).key.symm
  refine (hs.slot_inOrder (s.os.keys conn)).of_imp ?_ ?_ <;>
    simp only [decide_eq_true_eq]
  · exact fun c hc => hkey c (hs.mem_arrivals hc)
  · exact hkey

/-- One worker thread at a time processes completions of a connection. -/
theorem worker_unique (hs : Serves cfg n s log) {v w : ℕ} {pc pc' : WorkPc} {c c' : Completion}
    (hv : s.workThreads[v]? = some pc) (hw : s.workThreads[w]? = some pc')
    (hc : pc.completion = some c) (hc' : pc'.completion = some c') (hconn : c.conn = c'.conn) :
    v = w := by
  by_contra hvw
  have hkey : c.key = c'.key := by
    rw [← (hs.inFlight _ _ (.processed hv hc rfl rfl)).key,
      ← (hs.inFlight _ _ (.processed hw hc' rfl rfl)).key, hconn]
  have htwo := Server.two_le_countP_of_workers hv hw hvw
    ((WorkPc.key_of_completion hc).trans (congrArg some hkey)) (WorkPc.key_of_completion hc')
  have hone := hs.receives.bounded.le_one c'.key
  simp only [Server.load, Server.processing] at hone
  omega

end Serves

/-! ### The result -/

/-- **Per-client order with many workers.**  In a run without `DisconnectSocket`, with any number of
worker threads, a slot has at most one receive that is outstanding, whose completion is queued, or
that a worker thread processes; no two worker threads process completions of one connection; and the
completions that have arrived with bytes are dispatched in the order of their arrival, for each slot
and for each connection, and the next one arrives when the last one has been dispatched. -/
theorem client_served_in_order {mem : ℕ → Mem} {workers : ℕ} {log : List Service}
    (h : Reach (serviceSystem cfg) (fun _ e => e.thread ≠ .disconnect)
      (initServer mem n workers, []) (s, log)) :
    (∀ i, s.receives i + s.workThreads.countP (fun pc => pc.key = some i) ≤ 1) ∧
      (∀ (v w : ℕ) (pc pc' : WorkPc) (c c' : Completion), s.workThreads[v]? = some pc →
        s.workThreads[w]? = some pc' → pc.completion = some c → pc'.completion = some c' →
        c.conn = c'.conn → v = w) ∧
      (∀ i, ServedInOrder (fun c => c.key = i) log) ∧
      ∀ conn, ServedInOrder (fun c => c.conn = conn) log := by
  have hs := Serves.of_reach h
  refine ⟨fun i => ?_, fun v w pc pc' c c' hv hw hc hc' => hs.worker_unique hv hw hc hc',
    hs.slot_inOrder, hs.conn_inOrder⟩
  have hone := hs.receives.bounded.le_one i
  simp only [Server.load, Server.processing] at hone
  omega

/-- A run with two worker threads, one of which serves the first frame of a client and the other one
the second frame. -/
theorem two_frames_in_order :
    ∃ s log, Reach (serviceSystem wireConfig) (fun _ e => e.thread ≠ .disconnect)
        (initServer (fun _ _ => 0) 1 2, []) (s, log) ∧
      (dispatches log).map Completion.data = [[6, 0, 2, 0, 10, 0], [6, 0, 6, 0, 10, 0]] ∧
      ServedInOrder (fun c => c.conn = 0) log := by
  obtain ⟨⟨s, log⟩, hreach, hdata⟩ := Reach.exists_of_runIf (serviceSystem wireConfig)
    (fun _ e => e.thread ≠ .disconnect) (initServer (fun _ _ => 0) 1 2, [])
    (.scanSlot :: acceptEvents 7 ++ serveEvents [6, 0, 2, 0, 10, 0] ++
      [.completeRecv 0 true [6, 0, 6, 0, 10, 0], .workTop 1, .getCompletion 1, .deSerialize 1])
    (fun x : Server × List Service => (dispatches x.2).map Completion.data)
    (x := [[6, 0, 2, 0, 10, 0], [6, 0, 6, 0, 10, 0]]) (by decide +kernel)
  exact ⟨s, log, hreach, hdata, (client_served_in_order hreach).2.2.2 0⟩

end IocpDemo
