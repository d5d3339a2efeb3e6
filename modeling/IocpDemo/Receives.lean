/-
**Receives, and the sockets they are issued on, in runs without `DisconnectSocket`.**

Nobody in the repository calls `DisconnectSocket`; without it, a slot is freed by the worker thread
that handles its failed receive and by nobody else.  Count for a slot its outstanding receives, its
queued completions, the worker threads that process one of them, and the accept thread while it sets
the slot up.  This number never exceeds one, and it is zero while the slot is free: a slot has at
most one receive, and nobody else touches the slot while a worker thread closes it.

Because the receives are issued on the slot's socket and complete under the key of its connection,
this goes together with an invariant on the sockets: the socket of a slot refers to the connection
that was associated with the slot, until a worker thread has closed it and is about to forget it.

Main definitions:

* `IocpDemo.Server.receives`, `IocpDemo.Server.processing`, `IocpDemo.Server.load` — the counts;
* `IocpDemo.Handles` — the invariant on the sockets;
* `IocpDemo.LosesReceive` — the steps after which a slot has no receive any more;
* `IocpDemo.LoadChange` — what a step does to one slot.

Main results:

* `IocpDemo.step_load` — **what a step does to the load of a slot**;
* `IocpDemo.Receives.of_reach` — the invariants of all runs without `DisconnectSocket`.
-/

import IocpDemo.SlotTable
import Mathlib.Data.List.Perm.Basic

set_option relaxedAutoImplicit false
set_option autoImplicit false

namespace IocpDemo

open Bytes Transition

variable {cfg : Config} {s s' : Server} {n : ℕ}

/-! ### Counting -/

/-- The slot whose completion the worker thread processes. -/
def WorkPc.key : WorkPc → Option ℕ
  | .closing c | .forgetting c | .received c | .rearming c => some c.key
  | .top | .waiting | .stopped => none

@[simp] theorem WorkPc.key_top : WorkPc.top.key = none := rfl
@[simp] theorem WorkPc.key_waiting : WorkPc.waiting.key = none := rfl
@[simp] theorem WorkPc.key_stopped : WorkPc.stopped.key = none := rfl
@[simp] theorem WorkPc.key_closing (c : Completion) : (WorkPc.closing c).key = some c.key := rfl
@[simp] theorem WorkPc.key_forgetting (c : Completion) :
    (WorkPc.forgetting c).key = some c.key := rfl
@[simp] theorem WorkPc.key_received (c : Completion) : (WorkPc.received c).key = some c.key := rfl
@[simp] theorem WorkPc.key_rearming (c : Completion) : (WorkPc.rearming c).key = some c.key := rfl

/-- The slot the accept thread has attached a socket to and not yet issued the receive on. -/
def AcceptPc.held : AcceptPc → Option ℕ
  | .checking i _ _ | .counting i _ | .greeting i _ | .arming i _ => some i
  | _ => none

namespace Server

/-- The receives of a slot that are outstanding or whose completion is queued. -/
def receives (s : Server) (i : ℕ) : ℕ :=
  s.os.outstanding.countP (fun r => r.key = i) + s.os.completions.countP (fun c => c.key = i)

/-- The threads that process the slot. -/
def processing (s : Server) (i : ℕ) : ℕ :=
  s.workThreads.countP (fun pc => pc.key = some i) + if s.acceptThread.held = some i then 1 else 0

def load (s : Server) (i : ℕ) : ℕ := s.receives i + s.processing i

/-- A worker thread has closed the socket of the slot and is about to forget it. -/
def Forgetting (s : Server) (i : ℕ) : Prop :=
  ∃ (w : ℕ) (c : Completion), s.workThreads[w]? = some (.forgetting c) ∧ c.key = i

end Server

/-- The slot whose socket the worker thread is about to forget. -/
def WorkPc.forgets : WorkPc → Option ℕ
  | .forgetting c => some c.key
  | _ => none

theorem Server.forgetting_iff_forgets {i : ℕ} :
    s.Forgetting i ↔ ∃ pc ∈ s.workThreads, pc.forgets = some i := by
  constructor
  · rintro ⟨w, c, hpc, rfl⟩
    exact ⟨_, List.mem_of_getElem? hpc, rfl⟩
  · rintro ⟨pc, hmem, hforgets⟩
    obtain ⟨w, hpc⟩ := List.mem_iff_getElem?.1 hmem
    cases pc with
    | forgetting c => exact ⟨w, c, hpc, Option.some.inj hforgets⟩
    | _ => cases hforgets

instance (s : Server) (i : ℕ) : Decidable (s.Forgetting i) :=
  decidable_of_iff _ Server.forgetting_iff_forgets.symm

/-- Counting after one entry has been replaced. -/
theorem countP_set_add {α : Type} {l : List α} {w : ℕ} {a : α} (h : l[w]? = some a) (b : α)
    (p : α → Bool) :
    (l.set w b).countP p + (if p a then 1 else 0) = l.countP p + if p b then 1 else 0 := by
  obtain ⟨hw, rfl⟩ := List.getElem?_eq_some_iff.1 h
  have hle := List.boole_getElem_le_countP (p := p) hw
  rw [List.countP_set hw]
  omega

/-- Counting after one entry has been taken out. -/
theorem countP_eraseIdx_add {α : Type} {l : List α} {k : ℕ} {a : α} (h : l[k]? = some a)
    (p : α → Bool) : (l.eraseIdx k).countP p + (if p a then 1 else 0) = l.countP p := by
  obtain ⟨hk, rfl⟩ := List.getElem?_eq_some_iff.1 h
  rw [← (List.getElem_cons_eraseIdx_perm hk).countP_eq p, List.countP_cons]

/-! ### Who processes a slot -/

namespace Server

variable {w : ℕ} {pc pc' : WorkPc} {i j : ℕ}

/-- Setting one worker thread aside, a slot is about to be forgotten by it or by another one. -/
theorem forgetting_iff (hpc : s.workThreads[w]? = some pc) :
    s.Forgetting j ↔ (∃ c, pc = .forgetting c ∧ c.key = j) ∨
      ∃ (v : ℕ) (c : Completion), v ≠ w ∧ s.workThreads[v]? = some (.forgetting c) ∧ c.key = j := by
  constructor
  · rintro ⟨v, c, hv, hkey⟩
    by_cases hvw : v = w
    · subst hvw
      obtain rfl : pc = .forgetting c := Option.some.inj (hpc.symm.trans hv)
      exact Or.inl ⟨c, rfl, hkey⟩
    · exact Or.inr ⟨v, c, hvw, hv, hkey⟩
  · rintro (⟨c, rfl, hkey⟩ | ⟨v, c, -, hv, hkey⟩)
    · exact ⟨w, c, hpc, hkey⟩
    · exact ⟨v, c, hv, hkey⟩

theorem forgetting_setWorker_iff (hpc : s.workThreads[w]? = some pc)
    (hset : s'.workThreads = s.workThreads.set w pc') :
    s'.Forgetting j ↔ (∃ c, pc' = .forgetting c ∧ c.key = j) ∨
      ∃ (v : ℕ) (c : Completion), v ≠ w ∧ s.workThreads[v]? = some (.forgetting c) ∧ c.key = j := by
  have hw : w < s.workThreads.length := (List.getElem?_eq_some_iff.1 hpc).1
  have hself : s'.workThreads[w]? = some pc' := by
    rw [hset, List.getElem?_set_self hw]
  rw [forgetting_iff hself]
  have hother : ∀ v, v ≠ w → s'.workThreads[v]? = s.workThreads[v]? := by
    intro v hv
    rw [hset, List.getElem?_set_ne (Ne.symm hv)]
  refine or_congr_right ?_
  constructor
  · rintro ⟨v, c, hv, hpcv, hkey⟩
    exact ⟨v, c, hv, by rw [← hother v hv]; exact hpcv, hkey⟩
  · rintro ⟨v, c, hv, hpcv, hkey⟩
    exact ⟨v, c, hv, by rw [hother v hv]; exact hpcv, hkey⟩

/-- A worker thread that moves outside `CloseSocket` changes nothing about who is to be
forgotten. -/
theorem forgetting_congr (hpc : s.workThreads[w]? = some pc)
    (hset : s'.workThreads = s.workThreads.set w pc') (h : ∀ c, pc ≠ .forgetting c)
    (h' : ∀ c, pc' ≠ .forgetting c) : s'.Forgetting j ↔ s.Forgetting j := by
  rw [forgetting_setWorker_iff hpc hset, forgetting_iff hpc]
  simp only [h, h', false_and]

theorem pos_countP_of_worker (hpc : s.workThreads[w]? = some pc) (hkey : pc.key = some i) :
    0 < s.workThreads.countP (fun pc => pc.key = some i) :=
  List.countP_pos_iff.2 ⟨pc, List.mem_of_getElem? hpc, by simpa using hkey⟩

theorem Forgetting.pos_countP (h : s.Forgetting i) :
    0 < s.workThreads.countP (fun pc => pc.key = some i) := by
  obtain ⟨w, c, hpc, rfl⟩ := h
  exact pos_countP_of_worker hpc rfl

/-- Two worker threads that process a slot count twice. -/
theorem two_le_countP_of_workers {v : ℕ} (hv : s.workThreads[v]? = some pc')
    (hw : s.workThreads[w]? = some pc) (hvw : v ≠ w) (hkey' : pc'.key = some i)
    (hkey : pc.key = some i) : 2 ≤ s.workThreads.countP (fun pc => pc.key = some i) := by
  -- set the second thread aside: the first one still counts
  have hcount := countP_set_add hw .top (fun pc => decide (pc.key = some i))
  have hstill : (s.setWorker w .top).workThreads[v]? = some pc' := by
    rw [← hv]
    exact List.getElem?_set_ne (Ne.symm hvw)
  have hpos := pos_countP_of_worker hstill hkey'
  simp only [setWorker] at hpos
  simp [hkey] at hcount
  omega

/-- While a worker thread processes a slot, no other one is about to forget it. -/
theorem not_forgetting_of_worker (hload : s.load i ≤ 1) (hpc : s.workThreads[w]? = some pc)
    (hkey : pc.key = some i) (hpc' : ∀ c, pc ≠ .forgetting c) : ¬ s.Forgetting i := by
  intro hf
  rcases (forgetting_iff hpc).1 hf with ⟨c, hc, -⟩ | ⟨v, c, hv, hpcv, rfl⟩
  · exact hpc' c hc
  · have htwo := two_le_countP_of_workers hpcv hpc hv rfl hkey
    simp only [load, processing] at hload
    omega

/-- Nor while the accept thread holds it. -/
theorem not_forgetting_of_held (hload : s.load i ≤ 1) (hheld : s.acceptThread.held = some i) :
    ¬ s.Forgetting i := by
  intro hf
  have hpos := hf.pos_countP
  simp only [load, processing, hheld] at hload
  simp at hload
  omega

end Server

/-! ### The sockets of the slots -/

/-- **Which connection the socket of a slot refers to.** -/
structure Handles (cfg : Config) (s : Server) : Prop where
  /-- The socket of a slot refers to a connection associated with the slot, unless it has been
  closed and is about to be forgotten. -/
  conn : ∀ j sock, s.socketAt j = some sock → ¬ s.Forgetting j →
    ∃ conn, s.os.connOf sock = some conn ∧ s.os.keys conn = j
  /-- A connection that has been accepted and not yet attached is no slot's connection. -/
  incoming : ∀ i sock conn, s.acceptThread = .connecting i sock conn →
    sock ≠ cfg.listenSocket ∧ s.os.connOf sock = some conn ∧
      ∀ j x, s.socketAt j = some x → s.os.connOf x = some conn → s.Forgetting j
  accepted : ∀ entry ∈ s.os.sockets, entry.2 < s.os.accepted
  listen : ∀ j, s.socketAt j ≠ some cfg.listenSocket

namespace Handles

theorem init (mem : ℕ → Mem) (n workers : ℕ) : Handles cfg (initServer mem n workers) := by
  refine ⟨?_, ?_, ?_, ?_⟩
  · intro j sock h
    rw [Server.socketAt_initServer] at h
    cases h
  · intro i sock conn h
    cases h
  · intro entry h
    cases h
  · intro j
    simp

/-- A step that moves no socket, no connection and no worker thread in `CloseSocket` keeps the
invariant. -/
theorem congr (hs : Handles cfg s) (hos : s'.os.sockets = s.os.sockets)
    (hkeys : s'.os.keys = s.os.keys) (hacc : s'.os.accepted = s.os.accepted)
    (hsock : ∀ j, s'.socketAt j = s.socketAt j) (hforget : ∀ j, s'.Forgetting j ↔ s.Forgetting j)
    (hpc : ∀ i sock conn, s'.acceptThread = .connecting i sock conn →
      s.acceptThread = .connecting i sock conn) : Handles cfg s' := by
  have hconn : ∀ x, s'.os.connOf x = s.os.connOf x := by
    intro x
    simp only [OS.connOf, hos]
  refine ⟨?_, ?_, ?_, ?_⟩
  · intro j sock h hf
    rw [hconn, hkeys]
    exact hs.conn j sock (hsock j ▸ h) fun hj => hf ((hforget j).2 hj)
  · intro i sock conn h
    obtain ⟨hlisten, hopen, hother⟩ := hs.incoming i sock conn (hpc i sock conn h)
    refine ⟨hlisten, by rw [hconn]; exact hopen, fun j x hx hxconn => ?_⟩
    exact (hforget j).2 (hother j x (hsock j ▸ hx) (hconn x ▸ hxconn))
  · intro entry h
    rw [hacc]
    exact hs.accepted entry (hos ▸ h)
  · intro j
    rw [hsock]
    exact hs.listen j

/-- A connection that has not been accepted yet is nobody's connection. -/
theorem accept_step (hs : Handles cfg s) {sock : Socket}
    (h : s.wsaAccept cfg (some sock) = some s') : Handles cfg s' := by
  obtain ⟨i, hpc, hlisten, hnew, rfl⟩ := Server.wsaAccept_some_some h
  have hkept : ∀ (x : Socket) (conn : ℕ), s.os.connOf x = some conn →
      (s.os.sockets ++ [(sock, s.os.accepted)]).lookup x = some conn := by
    intro x conn hx
    have hx' : s.os.sockets.lookup x = some conn := hx
    rw [List.lookup_append, hx']
    rfl
  refine ⟨?_, ?_, ?_, hs.listen⟩
  · intro j x hx hf
    obtain ⟨conn, hconn, hkey⟩ := hs.conn j x hx hf
    exact ⟨conn, hkept x conn hconn, hkey⟩
  · intro i' sock' conn' hpc'
    obtain ⟨-, rfl, rfl⟩ : i = i' ∧ sock = sock' ∧ s.os.accepted = conn' := by simpa using hpc'
    refine ⟨hlisten, ?_, ?_⟩
    · have hnew' : s.os.sockets.lookup sock = none := hnew
      simp [OS.connOf, List.lookup_append, hnew']
    · intro j x hx hxconn
      by_contra hf
      obtain ⟨conn, hconn, -⟩ := hs.conn j x hx hf
      -- an open connection is older than the new one
      have heq : s.os.accepted = conn := Option.some.inj (hxconn.symm.trans (hkept x conn hconn))
      obtain ⟨entry, hentry, rfl⟩ : ∃ entry ∈ s.os.sockets, entry.2 = conn := by
        have hlookup : s.os.sockets.lookup x = some conn := hconn
        obtain ⟨l₁, l₂, heq, -⟩ := List.lookup_eq_some_iff.1 hlookup
        exact ⟨(x, conn), by simp [heq], rfl⟩
      have := hs.accepted entry hentry
      omega
  · intro entry hentry
    rcases List.mem_append.1 hentry with hold | hlast
    · have := hs.accepted entry hold
      exact Nat.lt_succ_of_lt this
    · obtain rfl : entry = (sock, s.os.accepted) := by simpa using hlast
      exact Nat.lt_succ_self _

/-- The new socket refers to the connection that has just been associated with its slot. -/
theorem connect_step (hs : Handles cfg s) (h : s.connectClient = some s')
    (hlen : ∀ i, s.acceptThread.slot = some i → i < s.contexts.length) : Handles cfg s' := by
  obtain ⟨i, sock, conn, hpc, hs'⟩ := Server.connectClient_some h
  obtain ⟨hlisten, hopen, hother⟩ := hs.incoming i sock conn hpc
  have hctx : s'.contexts = s.contexts.modify i (·.connectClient sock) := by rw [hs']; rfl
  have hself : s'.socketAt i = some sock :=
    Server.socketAt_modify_self hctx (fun _ => rfl) (hlen i (by rw [hpc]; rfl))
  have hsame : ∀ j, i ≠ j → s'.socketAt j = s.socketAt j := by
    intro j hij
    exact Server.socketAt_modify_of_ne hctx hij
  have hconn : ∀ x, s'.os.connOf x = s.os.connOf x := by
    intro x
    rw [hs']; rfl
  have hkeys : s'.os.keys = Function.update s.os.keys conn i := by rw [hs']
  have hforget : ∀ j, s'.Forgetting j ↔ s.Forgetting j := by
    intro j
    rw [hs']; rfl
  refine ⟨?_, ?_, ?_, ?_⟩
  · intro j x hx hf
    rw [hconn, hkeys]
    by_cases hij : i = j
    · subst hij
      obtain rfl : sock = x := Option.some.inj (hself.symm.trans hx)
      exact ⟨conn, hopen, Function.update_self _ _ _⟩
    · rw [hsame j hij] at hx
      have hf' : ¬ s.Forgetting j := fun hj => hf ((hforget j).2 hj)
      obtain ⟨conn', hconn', hkey⟩ := hs.conn j x hx hf'
      -- the connection that is associated now was no slot's connection
      have hne : conn' ≠ conn := by
        rintro rfl
        exact hf' (hother j x hx hconn')
      exact ⟨conn', hconn', by rw [Function.update_of_ne hne, hkey]⟩
  · intro i' sock' conn' hpc'
    rw [hs'] at hpc'
    cases hpc'
  · rw [hs']
    exact hs.accepted
  · intro j hj
    by_cases hij : i = j
    · subst hij
      exact hlisten (Option.some.inj (hself.symm.trans hj))
    · exact hs.listen j (hsame j hij ▸ hj)

end Handles

/-- Closing a socket leaves the other ones open. -/
theorem OS.connOf_close_of_ne {os : OS} {x y : Socket} (h : x ≠ y) :
    (os.close (some y)).connOf x = os.connOf x := by
  simp only [OS.connOf, OS.close]
  induction os.sockets with
  | nil => rfl
  | cons entry rest ih =>
      obtain ⟨z, conn⟩ := entry
      have hxy : (x == y) = false := beq_false_of_ne h
      by_cases hz : z = y
      · rw [List.filter_cons_of_neg (by simp [hz]), ih, List.lookup_cons, hz, hxy]
      · rw [List.filter_cons_of_pos (by simp [hz]), List.lookup_cons, List.lookup_cons, ih]

theorem OS.connOf_close_self {os : OS} {x : Socket} : (os.close (some x)).connOf x = none := by
  simp only [OS.connOf, OS.close, List.lookup_eq_none_iff, List.mem_filter]
  rintro entry ⟨-, hne⟩
  have hne' : entry.1 ≠ x := by simpa using hne
  exact bne_iff_ne.2 hne'.symm

/-- A socket that is open behind a `closesocket` was open before, and refers to the same
connection. -/
theorem OS.connOf_of_close {os : OS} {x y : Socket} {conn : ℕ}
    (h : (os.close (some y)).connOf x = some conn) : x ≠ y ∧ os.connOf x = some conn := by
  have hxy : x ≠ y := by
    rintro rfl
    rw [OS.connOf_close_self] at h
    cases h
  exact ⟨hxy, by rwa [OS.connOf_close_of_ne hxy] at h⟩

/-- **A slot has at most one receive, and a free slot has none.** -/
def LoadBounded (s : Server) : Prop := ∀ i, s.load i ≤ if (s.socketAt i).isSome then 1 else 0

namespace LoadBounded

variable {i w : ℕ} {pc : WorkPc}

theorem le_one (hb : LoadBounded s) (i : ℕ) : s.load i ≤ 1 := by
  have := hb i
  split at this <;> omega

/-- A slot that somebody processes has a socket. -/
theorem exists_socket (hb : LoadBounded s) (hload : 0 < s.load i) :
    ∃ sock, s.socketAt i = some sock := by
  have := hb i
  cases hsock : s.socketAt i with
  | none => simp [hsock] at this; omega
  | some sock => exact ⟨sock, rfl⟩

theorem exists_socket_of_worker (hb : LoadBounded s) (hpc : s.workThreads[w]? = some pc)
    (hkey : pc.key = some i) : ∃ sock, s.socketAt i = some sock := by
  have := Server.pos_countP_of_worker hpc hkey
  exact hb.exists_socket (by simp only [Server.load, Server.processing]; omega)

theorem exists_socket_of_held (hb : LoadBounded s) (hheld : s.acceptThread.held = some i) :
    ∃ sock, s.socketAt i = some sock :=
  hb.exists_socket (by simp only [Server.load, Server.processing, if_pos hheld]; omega)

end LoadBounded

namespace Handles

/-- The socket that a worker thread closes is no other slot's, and not the one just accepted. -/
theorem close_step (hs : Handles cfg s) (hb : LoadBounded s) {w : ℕ}
    (h : s.closeSocket w = some s') : Handles cfg s' := by
  obtain ⟨c, ctx, hpc, hctx, hs'⟩ := Server.closeSocket_some h
  obtain ⟨x₀, hx₀⟩ := hb.exists_socket_of_worker hpc rfl
  have hnot : ¬ s.Forgetting c.key :=
    Server.not_forgetting_of_worker (hb.le_one _) hpc rfl (by simp)
  obtain ⟨c₀, hconn₀, hkey₀⟩ := hs.conn c.key x₀ hx₀ hnot
  have hsock : ctx.socket = some x₀ := by rw [← Server.socketAt_eq hctx]; exact hx₀
  have hos : s'.os = s.os.close (some x₀) := by rw [hs', hsock]
  have hsame : ∀ j, s'.socketAt j = s.socketAt j := by
    intro j
    rw [hs']; rfl
  have hforget : ∀ j, s'.Forgetting j ↔ c.key = j ∨ s.Forgetting j := by
    intro j
    rw [Server.forgetting_setWorker_iff hpc (by rw [hs']; rfl), Server.forgetting_iff hpc]
    simp
  refine ⟨?_, ?_, ?_, ?_⟩
  · intro j x hx hf
    rw [hforget, not_or] at hf
    obtain ⟨conn, hconn, hkey⟩ := hs.conn j x (hsame j ▸ hx) hf.2
    -- two slots with one socket would have one connection, hence one key
    have hne : x ≠ x₀ := by
      rintro rfl
      obtain rfl : conn = c₀ := Option.some.inj (hconn.symm.trans hconn₀)
      exact hf.1 (hkey₀.symm.trans hkey)
    exact ⟨conn, by rw [hos, OS.connOf_close_of_ne hne]; exact hconn, by rw [hos]; exact hkey⟩
  · intro i sock conn hpc'
    have hpc'' : s.acceptThread = .connecting i sock conn := by rw [← hpc', hs']; rfl
    obtain ⟨hlisten, hopen, hother⟩ := hs.incoming i sock conn hpc''
    have hne : sock ≠ x₀ := by
      rintro rfl
      exact hnot (hother c.key _ hx₀ hopen)
    refine ⟨hlisten, by rw [hos, OS.connOf_close_of_ne hne]; exact hopen, fun j x hx hxc => ?_⟩
    rw [hos] at hxc
    exact (hforget j).2 (Or.inr (hother j x (hsame j ▸ hx) (OS.connOf_of_close hxc).2))
  · intro entry hentry
    rw [hos] at hentry ⊢
    exact hs.accepted entry (List.mem_of_mem_filter hentry)
  · intro j
    rw [hsame]
    exact hs.listen j

/-- Behind `CloseSocket` the slot is free. -/
theorem forget_step (hs : Handles cfg s) {w : ℕ} (h : s.forgetSocket w = some s') :
    Handles cfg s' := by
  obtain ⟨c, hpc, hs'⟩ := Server.forgetSocket_some h
  have hctx : s'.contexts = s.contexts.modify c.key (·.forgetSocket) := by rw [hs']; rfl
  have hos : s'.os = s.os := by rw [hs']; rfl
  have hsame : ∀ j, c.key ≠ j → s'.socketAt j = s.socketAt j := by
    intro j hj
    exact Server.socketAt_modify_of_ne hctx hj
  have hforget : ∀ j, c.key ≠ j → (s'.Forgetting j ↔ s.Forgetting j) := by
    intro j hj
    have hset : s'.workThreads = s.workThreads.set w .top := by rw [hs']; rfl
    rw [Server.forgetting_setWorker_iff hpc hset, Server.forgetting_iff hpc]
    simp [hj]
  have hkey : ∀ j x, s'.socketAt j = some x → c.key ≠ j := by
    rintro j x hx rfl
    rw [Server.socketAt_of_forget hctx] at hx
    cases hx
  refine ⟨?_, ?_, ?_, ?_⟩
  · intro j x hx hf
    have hj := hkey j x hx
    rw [hos]
    exact hs.conn j x (hsame j hj ▸ hx) fun hf' => hf ((hforget j hj).2 hf')
  · intro i sock conn hpc'
    have hpc'' : s.acceptThread = .connecting i sock conn := by rw [← hpc', hs']; rfl
    obtain ⟨hlisten, hopen, hother⟩ := hs.incoming i sock conn hpc''
    refine ⟨hlisten, by rw [hos]; exact hopen, fun j x hx hxc => ?_⟩
    have hj := hkey j x hx
    exact (hforget j hj).2 (hother j x (hsame j hj ▸ hx) (hos ▸ hxc))
  · intro entry hentry
    rw [hos] at hentry ⊢
    exact hs.accepted entry hentry
  · intro j hj
    exact hs.listen j (hsame j (hkey j _ hj) ▸ hj)

/-- The slot whose connection has just been accepted is known since `WSAAccept`. -/
theorem connecting_of_step {e : Event} (h : step cfg s e = some s') {i conn : ℕ} {sock : Socket}
    (he : ∀ x, e ≠ .wsaAccept (some x)) (hpc : s'.acceptThread = .connecting i sock conn) :
    s.acceptThread = .connecting i sock conn := by
  rcases step_acceptThread h with ⟨hsame, -⟩ | hmove
  · rw [← hsame, hpc]
  · generalize s'.acceptThread = pc at hmove hpc
    cases hmove with
    | @scanned k _ =>
        rcases Server.scanNext_cases s.contexts k with hnext | hnext | hnext <;>
          rw [hnext] at hpc <;> cases hpc
    | accepted _ _ _ => exact absurd rfl (he _)
    | _ => cases hpc

/-- Only `CloseSocket` changes which sockets are about to be forgotten. -/
theorem forgetting_of_step {e : Event} (h : step cfg s e = some s') (j : ℕ)
    (hclose : ∀ w, e ≠ .closeSocket w) (hforget : ∀ w, e ≠ .forgetSocket w) :
    s'.Forgetting j ↔ s.Forgetting j := by
  rcases step_workThreads h with ⟨hsame, -⟩ | ⟨w, pc, pc', hmove, hpc, hset⟩
  · simp only [Server.Forgetting, hsame]
  · refine Server.forgetting_congr hpc hset (fun c hc => ?_) (fun c hc => ?_)
    · subst hc
      cases hmove
      exact absurd rfl (hforget _)
    · subst hc
      generalize hpc' : WorkPc.forgetting c = pc' at hmove
      cases hmove with
      | closed => exact absurd rfl (hclose _)
      | entered => split at hpc' <;> cases hpc'
      | @got _ c _ _ =>
          rcases Server.afterCompletion_cases c with hnext | hnext | hnext <;>
            rw [hnext] at hpc' <;> cases hpc'
      | _ => cases hpc'

/-- **The invariant on the sockets is kept by every step** other than those of
`DisconnectSocket`. -/
theorem step {e : Event} (hs : Handles cfg s) (h : IocpDemo.step cfg s e = some s')
    (hno : e.thread ≠ .disconnect) (hb : LoadBounded s) (ht : SlotTable n s) :
    Handles cfg s' := by
  have hquiet : e.movesSockets = false → (∀ w, e ≠ .forgetSocket w) → Handles cfg s' := by
    intro hmoves hforget
    have hclose : ∀ w, e ≠ .closeSocket w := by
      rintro w rfl
      cases hmoves
    obtain ⟨hsockets, hkeys, hacc⟩ := (step_os h).sockets hmoves
    refine hs.congr hsockets hkeys hacc (fun j => ?_) (fun j => ?_) fun i sock conn => ?_
    · refine step_socketAt_eq h (by rintro rfl; cases hmoves) ?_
      rintro (⟨w, c, rfl, -, -⟩ | ⟨k, rfl, -⟩)
      · exact hforget w rfl
      · exact hno rfl
    · exact forgetting_of_step h j hclose hforget
    · exact connecting_of_step h (by rintro x rfl; cases hmoves)
  cases e with
  | wsaAccept r =>
      cases r with
      | none => exact hquiet rfl (by simp)
      | some sock => exact accept_step hs h
  | connectClient =>
      exact connect_step hs h fun i hi => ht.length.symm ▸ ht.slot_lt i hi
  | checkConnected =>
      obtain ⟨i, sock, conn, c, hpc, hctx, ⟨-, rfl⟩ | ⟨hc, rfl⟩⟩ := Server.checkConnected_some h
      · exact hs.congr rfl rfl rfl (fun _ => rfl) (fun _ => Iff.rfl) (fun _ _ _ => by simp)
      · -- the accept thread holds the slot: its socket is still there
        obtain ⟨x, hx⟩ := hb.exists_socket_of_held (i := i) (by rw [hpc]; rfl)
        rw [Server.socketAt_eq hctx] at hx
        simp [ClientContext.isConnected, hx] at hc
  | closeSocket w => exact close_step hs hb h
  | forgetSocket w => exact forget_step hs h
  | disconnect i => exact absurd rfl hno
  | _ => exact hquiet rfl (by simp)

end Handles

/-! ### What a step does to the load of a slot -/

/-- The steps after which a slot has no receive any more: `WSARecv` fails at once, or a worker
thread finds a completion with success and no bytes. -/
def LosesReceive (s : Server) : Event → Prop
  | .acceptReceive pending => pending = false
  | .workReceive _ pending => pending = false
  | .getCompletion _ => ∃ c ∈ s.os.completions.head?, c.bSuccess = true ∧ c.data = []
  | _ => False

/-- What a step does to the load and the socket of one slot. -/
inductive LoadChange (s s' : Server) (e : Event) (i : ℕ) : Prop
  | kept (hsock : s'.socketAt i = s.socketAt i) (hload : s'.load i = s.load i)
  | lost (hsock : s'.socketAt i = s.socketAt i) (hload : s'.load i + 1 = s.load i)
      (hlost : LosesReceive s e)
  | attached (hfree : s.socketAt i = none) (hsock : ∃ sock, s'.socketAt i = some sock)
      (hload : s'.load i = s.load i + 1)
  | freed (hsock : s'.socketAt i = none) (hload : s'.load i + 1 = s.load i)

/-- The accept thread's hold on a slot begins with `ConnectClient` and ends with its receive. -/
theorem held_of_step {e : Event} (h : step cfg s e = some s') (hb : LoadBounded s)
    (hconnect : e ≠ .connectClient) (hreceive : ∀ p, e ≠ .acceptReceive p) :
    s'.acceptThread.held = s.acceptThread.held := by
  rcases step_acceptThread h with ⟨hsame, -⟩ | hmove
  · rw [hsame]
  · generalize s'.acceptThread = pc at hmove ⊢
    cases hmove with
    | @scanned k hpc =>
        rcases Server.scanNext_cases s.contexts k with hnext | hnext | hnext <;>
          rw [hpc, hnext] <;> rfl
    | attached _ => exact absurd rfl hconnect
    | armed _ => exact absurd rfl (hreceive _)
    | @dropped i conn sock c hpc hctx hc =>
        obtain ⟨x, hx⟩ := hb.exists_socket_of_held (i := i) (by rw [hpc]; rfl)
        rw [Server.socketAt_eq hctx] at hx
        simp [ClientContext.isConnected, hx] at hc
    | failed hpc | accepted hpc _ _ | kept hpc _ _ | counted hpc | greeted hpc _ =>
        rw [hpc]
        rfl

section Load

variable {i w : ℕ} {pc pc' : WorkPc}

theorem countP_of_key (hpc : s.workThreads[w]? = some pc)
    (hset : s'.workThreads = s.workThreads.set w pc') (hkey : pc'.key = pc.key) :
    s'.workThreads.countP (fun pc => pc.key = some i) =
      s.workThreads.countP (fun pc => pc.key = some i) := by
  have hcount := countP_set_add hpc pc' (fun pc => decide (pc.key = some i))
  rw [hset]
  simp only [hkey] at hcount
  omega

/-- A step that fetches and issues no receive and leaves the processing threads alone. -/
theorem load_eq_of_quiet {e : Event} (h : step cfg s e = some s') (hb : LoadBounded s)
    (hs : Handles cfg s) (hconnect : e ≠ .connectClient) (hmoves : e.movesReceives = false)
    (hforget : ∀ w, e ≠ .forgetSocket w) : s'.load i = s.load i := by
  obtain ⟨hout, hcom⟩ := (step_os h).receives hmoves
  have hheld := held_of_step h hb hconnect (by rintro p rfl; cases hmoves)
  have hcount : s'.workThreads.countP (fun pc => pc.key = some i) =
      s.workThreads.countP (fun pc => pc.key = some i) := by
    rcases step_workThreads h with ⟨hsame, -⟩ | ⟨w, pc, pc', hmove, hpc, hset⟩
    · rw [hsame]
    · refine countP_of_key hpc hset ?_
      cases hmove with
      | entered => split <;> rfl
      | closed | handled _ _ => rfl
      | @ignored w c ctx hctx hd =>
          -- no slot has the listening socket
          have hlisten := hs.listen c.key
          rw [Server.socketAt_eq hctx] at hlisten
          simp [dispatchOf_eq hlisten] at hd
      | got _ | rearmed => cases hmoves
      | forgot => exact absurd rfl (hforget _)
  simp only [Server.load, Server.receives, Server.processing, hout, hcom, hheld, hcount]

/-- The receive that `ReceivePacket` issues completes under the slot's own key. -/
theorem receivePacket_outstanding {pending : Bool} (hs : Handles cfg s) (hnot : ¬ s.Forgetting i)
    (h : s.receivePacket i pending = some s') :
    ∃ conn, s'.os.outstanding = s.os.outstanding ++ if pending then [⟨i, i, conn⟩] else [] := by
  obtain ⟨c, hctx, ⟨rfl, rfl⟩ | ⟨rfl, sock, conn, hsock, hopen, rfl⟩⟩ :=
    Server.receivePacket_some h
  · exact ⟨0, by simp [Server.modifyContext]⟩
  · obtain ⟨conn', hconn', hkey⟩ :=
      hs.conn i sock (by rw [Server.socketAt_eq hctx]; exact hsock) hnot
    obtain rfl : conn = conn' := Option.some.inj (hopen.symm.trans hconn')
    exact ⟨conn, by simp [hkey]⟩

/-- In the accept thread `ReceivePacket` is called on a slot that is not about to be forgotten. -/
theorem receivePacket_of_acceptReceive {pending : Bool} (h : s.acceptReceive pending = some s')
    (hs : Handles cfg s) (hb : LoadBounded s) :
    ∃ j conn, s.acceptThread = .arming j conn ∧ Handles cfg { s with acceptThread := .scan 0 } ∧
      ¬ { s with acceptThread := .scan 0 }.Forgetting j ∧
      { s with acceptThread := .scan 0 }.receivePacket j pending = some s' := by
  obtain ⟨j, conn, hpc, hrecv⟩ := Server.acceptReceive_some h
  have hs' : Handles cfg { s with acceptThread := .scan 0 } :=
    hs.congr rfl rfl rfl (fun _ => rfl) (fun _ => Iff.rfl) (fun _ _ _ => by simp)
  have hnot : ¬ s.Forgetting j := Server.not_forgetting_of_held (hb.le_one j) (by rw [hpc]; rfl)
  exact ⟨j, conn, hpc, hs', hnot, hrecv⟩

/-- `ReceivePacket` in the accept thread. -/
theorem acceptReceive_outstanding {pending : Bool} (h : s.acceptReceive pending = some s')
    (hs : Handles cfg s) (hb : LoadBounded s) :
    ∃ j conn, s.acceptThread.held = some j ∧ s'.acceptThread = .scan 0 ∧
      s'.workThreads = s.workThreads ∧ s'.os.completions = s.os.completions ∧
      s'.os.outstanding = s.os.outstanding ++ if pending then [⟨j, j, conn⟩] else [] := by
  obtain ⟨j, conn, hpc, hs', hnot, hrecv⟩ := receivePacket_of_acceptReceive h hs hb
  have hheld : s.acceptThread.held = some j := by rw [hpc]; rfl
  obtain ⟨conn', hout⟩ := receivePacket_outstanding hs' hnot hrecv
  obtain ⟨haccept, hwork, -⟩ := Server.receivePacket_frame hrecv
  have hcom := Server.receivePacket_completions hrecv
  exact ⟨j, conn', hheld, haccept, hwork, hcom, hout⟩

/-- In a worker thread `ReceivePacket` is called on a slot that is not about to be forgotten. -/
theorem receivePacket_of_workReceive {pending : Bool} (h : s.workReceive w pending = some s')
    (hs : Handles cfg s) (hb : LoadBounded s) :
    ∃ c, s.workThreads[w]? = some (.rearming c) ∧ Handles cfg (s.setWorker w .top) ∧
      ¬ (s.setWorker w .top).Forgetting c.key ∧
      (s.setWorker w .top).receivePacket c.key pending = some s' := by
  obtain ⟨c, hpc, hrecv⟩ := Server.workReceive_some h
  have hforget : ∀ j, (s.setWorker w .top).Forgetting j ↔ s.Forgetting j := by
    intro j
    exact Server.forgetting_congr hpc rfl (by simp) (by simp)
  have hs' : Handles cfg (s.setWorker w .top) :=
    hs.congr rfl rfl rfl (fun _ => rfl) hforget (fun _ _ _ h => h)
  have hnot : ¬ s.Forgetting c.key :=
    Server.not_forgetting_of_worker (hb.le_one _) hpc rfl (by simp)
  exact ⟨c, hpc, hs', fun hf => hnot ((hforget _).1 hf), hrecv⟩

/-- `ReceivePacket` in a worker thread. -/
theorem workReceive_outstanding {pending : Bool} (h : s.workReceive w pending = some s')
    (hs : Handles cfg s) (hb : LoadBounded s) :
    ∃ c conn, s.workThreads[w]? = some (.rearming c) ∧ s'.acceptThread = s.acceptThread ∧
      s'.workThreads = s.workThreads.set w .top ∧ s'.os.completions = s.os.completions ∧
      s'.os.outstanding = s.os.outstanding ++ if pending then [⟨c.key, c.key, conn⟩] else [] := by
  obtain ⟨c, hpc, hs', hnot, hrecv⟩ := receivePacket_of_workReceive h hs hb
  obtain ⟨conn', hout⟩ := receivePacket_outstanding hs' hnot hrecv
  obtain ⟨haccept, hwork, -⟩ := Server.receivePacket_frame hrecv
  have hcom := Server.receivePacket_completions hrecv
  exact ⟨c, conn', hpc, haccept, hwork, hcom, hout⟩

/-- The new receive is counted if `WSARecv` did not fail. -/
theorem countP_append_pending {l l' : List PendingRecv} {j conn : ℕ} {pending : Bool}
    (h : l' = l ++ if pending then [⟨j, j, conn⟩] else []) :
    l'.countP (fun r => r.key = i) =
      l.countP (fun r => r.key = i) + if pending = true ∧ j = i then 1 else 0 := by
  cases pending <;> simp [h, List.countP_singleton]

theorem receives_of_getCompletion {c : Completion} {rest : List Completion}
    (hq : s.os.completions = c :: rest) (hout : s'.os.outstanding = s.os.outstanding)
    (hcom : s'.os.completions = rest) :
    s'.receives i + (if c.key = i then 1 else 0) = s.receives i := by
  simp only [Server.receives, hout, hcom, hq, List.countP_cons, decide_eq_true_eq]
  omega

/-- The receive that the accept thread issues counts instead of the accept thread. -/
theorem load_of_armed {j conn : ℕ} {pending : Bool} (hheld : s.acceptThread.held = some j)
    (haccept : s'.acceptThread = .scan 0) (hwork : s'.workThreads = s.workThreads)
    (hcom : s'.os.completions = s.os.completions)
    (hout : s'.os.outstanding = s.os.outstanding ++ if pending then [⟨j, j, conn⟩] else []) :
    s'.load i + (if j = i then 1 else 0) =
      s.load i + if pending = true ∧ j = i then 1 else 0 := by
  have hcount := countP_append_pending (i := i) hout
  simp only [Server.load, Server.receives, Server.processing, haccept, hwork, hcom, hcount, hheld,
    Option.some.injEq]
  simp only [AcceptPc.held, reduceCtorEq, if_false]
  omega

theorem load_acceptReceive {pending : Bool} (h : s.acceptReceive pending = some s')
    (hs : Handles cfg s) (hb : LoadBounded s) :
    ∃ j, s'.load i + (if j = i then 1 else 0) =
      s.load i + if pending = true ∧ j = i then 1 else 0 := by
  obtain ⟨j, conn, hheld, haccept, hwork, hcom, hout⟩ := acceptReceive_outstanding h hs hb
  exact ⟨j, load_of_armed hheld haccept hwork hcom hout⟩

/-- The receive that a worker thread issues counts instead of the worker thread. -/
theorem load_of_rearmed {c : Completion} {conn : ℕ} {pending : Bool}
    (hpc : s.workThreads[w]? = some (.rearming c)) (haccept : s'.acceptThread = s.acceptThread)
    (hwork : s'.workThreads = s.workThreads.set w .top)
    (hcom : s'.os.completions = s.os.completions)
    (hout : s'.os.outstanding =
      s.os.outstanding ++ if pending then [⟨c.key, c.key, conn⟩] else []) :
    s'.load i + (if c.key = i then 1 else 0) =
      s.load i + if pending = true ∧ c.key = i then 1 else 0 := by
  have hcount := countP_append_pending (i := i) hout
  have hset := countP_set_add hpc .top (fun pc => decide (pc.key = some i))
  simp only [Server.load, Server.receives, Server.processing, haccept, hwork, hcom, hcount]
  simp only [WorkPc.key_rearming, WorkPc.key_top, Option.some.injEq, decide_eq_true_eq,
    reduceCtorEq, if_false] at hset
  omega

theorem load_workReceive {pending : Bool} (h : s.workReceive w pending = some s')
    (hs : Handles cfg s) (hb : LoadBounded s) :
    ∃ j, s'.load i + (if j = i then 1 else 0) =
      s.load i + if pending = true ∧ j = i then 1 else 0 := by
  obtain ⟨c, conn, hpc, haccept, hwork, hcom, hout⟩ := workReceive_outstanding h hs hb
  exact ⟨c.key, load_of_rearmed hpc haccept hwork hcom hout⟩

/-- `GetQueuedCompletionStatus`: the completion is processed, unless it has success and no bytes. -/
theorem load_getCompletion (h : s.getCompletion w = some s') :
    ∃ c ∈ s.os.completions.head?, s'.load i +
      (if workBranch c.bSuccess c.data.length = .noData ∧ c.key = i then 1 else 0) = s.load i := by
  obtain ⟨c, rest, hpc, hq, hs'⟩ := Server.getCompletion_some h
  have haccept : s'.acceptThread = s.acceptThread := by rw [hs']; rfl
  have hwork : s'.workThreads = s.workThreads.set w (Server.afterCompletion c) := by rw [hs']; rfl
  have hout : s'.os.outstanding = s.os.outstanding := by rw [hs']
  have hcount := receives_of_getCompletion (i := i) hq hout (by rw [hs'])
  have hset := countP_set_add hpc (Server.afterCompletion c) (fun pc => decide (pc.key = some i))
  refine ⟨c, by rw [hq]; rfl, ?_⟩
  simp only [Server.load, Server.processing, haccept, hwork]
  cases hbranch : workBranch c.bSuccess c.data.length <;>
    simp only [Server.afterCompletion, hbranch, WorkPc.key_waiting, WorkPc.key_closing,
      WorkPc.key_top, WorkPc.key_received, Option.some.injEq, decide_eq_true_eq, reduceCtorEq,
      if_false, false_and, true_and] at hset ⊢ <;> omega

/-- A completion arrives: the receive is queued instead of outstanding. -/
theorem load_completeRecv {k : ℕ} {bSuccess : Bool} {data : List UInt8}
    (h : s.completeRecv k bSuccess data = some s') : s'.load i = s.load i := by
  obtain ⟨r, hr, -, -, hs'⟩ := Server.completeRecv_some h
  have haccept : s'.acceptThread = s.acceptThread := by rw [hs']; rfl
  have hwork : s'.workThreads = s.workThreads := by rw [hs']; rfl
  have hout : s'.os.outstanding = s.os.outstanding.eraseIdx k := by rw [hs']
  have hcom : s'.os.completions = s.os.completions ++ [⟨r.key, bSuccess, data, r.conn⟩] := by
    rw [hs']
  have hcount := countP_eraseIdx_add hr (fun r => decide (r.key = i))
  simp only [Server.load, Server.receives, Server.processing, haccept, hwork, hout, hcom,
    List.countP_append, List.countP_singleton]
  omega

/-- `Socket = INVALID_SOCKET`: the worker thread is done with its slot. -/
theorem load_forgetSocket (h : s.forgetSocket w = some s') :
    ∃ c, s.workThreads[w]? = some (.forgetting c) ∧
      s'.load i + (if c.key = i then 1 else 0) = s.load i := by
  obtain ⟨c, hpc, hs'⟩ := Server.forgetSocket_some h
  have haccept : s'.acceptThread = s.acceptThread := by rw [hs']; rfl
  have hwork : s'.workThreads = s.workThreads.set w .top := by rw [hs']; rfl
  have hos : s'.os = s.os := by rw [hs']; rfl
  have hset := countP_set_add hpc .top (fun pc => decide (pc.key = some i))
  refine ⟨c, hpc, ?_⟩
  simp only [Server.load, Server.receives, Server.processing, haccept, hwork, hos]
  simp only [WorkPc.key_forgetting, WorkPc.key_top, Option.some.injEq, decide_eq_true_eq,
    reduceCtorEq, if_false] at hset
  omega

/-- `ConnectClient`: the accept thread holds the slot it has attached the socket to. -/
theorem load_connectClient (h : s.connectClient = some s') :
    ∃ j, s.acceptThread.chosen = some j ∧ s.acceptThread.held = none ∧
      s'.load i = s.load i + if j = i then 1 else 0 := by
  obtain ⟨j, sock, conn, hpc, rfl⟩ := Server.connectClient_some h
  refine ⟨j, by rw [hpc]; rfl, by rw [hpc]; rfl, ?_⟩
  simp only [Server.load, Server.receives, Server.processing, Server.modifyContext, hpc,
    AcceptPc.held, Option.some.injEq, reduceCtorEq, if_false]
  omega

end Load

/-- A step that changes the load of one slot by a receive that may fail. -/
theorem LoadChange.of_receive {e : Event} {i j : ℕ} {pending : Bool}
    (hsock : s'.socketAt i = s.socketAt i) (hlost : pending = false → LosesReceive s e)
    (hload : s'.load i + (if j = i then 1 else 0) =
      s.load i + if pending = true ∧ j = i then 1 else 0) : LoadChange s s' e i := by
  cases pending with
  | true =>
      refine .kept hsock ?_
      simp only [true_and] at hload
      omega
  | false =>
      by_cases hj : j = i
      · refine .lost hsock ?_ (hlost rfl)
        simpa [hj] using hload
      · refine .kept hsock ?_
        simpa [hj] using hload

/-- **What a step does to the load of a slot**: it is kept, unless the step attaches a socket to the
slot, frees the slot, or loses its receive. -/
theorem step_load {e : Event} (h : step cfg s e = some s') (hno : e.thread ≠ .disconnect)
    (ht : SlotTable n s) (hb : LoadBounded s) (hs : Handles cfg s) (i : ℕ) :
    LoadChange s s' e i := by
  have hsame : e ≠ .connectClient → (∀ w, e ≠ .forgetSocket w) → s'.socketAt i = s.socketAt i := by
    intro hconnect hforget
    refine step_socketAt_eq h hconnect ?_
    rintro (⟨w, c, rfl, -, -⟩ | ⟨k, rfl, -⟩)
    · exact hforget w rfl
    · exact hno rfl
  have hquiet : e ≠ .connectClient → (∀ w, e ≠ .forgetSocket w) → e.movesReceives = false →
      LoadChange s s' e i := by
    intro hconnect hforget hmoves
    exact .kept (hsame hconnect hforget) (load_eq_of_quiet h hb hs hconnect hmoves hforget)
  cases e with
  | connectClient =>
      obtain ⟨j, hchosen, -, hload⟩ := load_connectClient (i := i) h
      by_cases hj : j = i
      · subst hj
        have hfree := ht.chosen_free j hchosen
        obtain ⟨k, sock, conn, hpc, hs'⟩ := Server.connectClient_some h
        obtain rfl : k = j := by simpa [hpc, AcceptPc.chosen] using hchosen
        refine .attached hfree.2 ⟨sock, ?_⟩ (by simpa using hload)
        exact Server.socketAt_modify_self (by rw [hs']; rfl) (fun _ => rfl) hfree.1
      · refine .kept ?_ (by simpa [hj] using hload)
        obtain ⟨k, sock, conn, hpc, hs'⟩ := Server.connectClient_some h
        obtain rfl : k = j := by simpa [hpc, AcceptPc.chosen] using hchosen
        exact Server.socketAt_modify_of_ne (by rw [hs']; rfl) hj
  | forgetSocket w =>
      obtain ⟨c, hpc, hload⟩ := load_forgetSocket (i := i) h
      obtain ⟨c', hpc', hs'⟩ := Server.forgetSocket_some h
      obtain rfl : c = c' := by simpa [hpc] using hpc'
      have hctx : s'.contexts = s.contexts.modify c.key (·.forgetSocket) := by rw [hs']; rfl
      by_cases hj : c.key = i
      · subst hj
        exact .freed (Server.socketAt_of_forget hctx) (by simpa using hload)
      · exact .kept (Server.socketAt_modify_of_ne hctx hj) (by simpa [hj] using hload)
  | acceptReceive pending =>
      obtain ⟨j, hload⟩ := load_acceptReceive (i := i) h hs hb
      exact .of_receive (hsame (by simp) (by simp)) (fun hp => hp) hload
  | workReceive w pending =>
      obtain ⟨j, hload⟩ := load_workReceive (i := i) h hs hb
      exact .of_receive (hsame (by simp) (by simp)) (fun hp => hp) hload
  | getCompletion w =>
      obtain ⟨c, hc, hload⟩ := load_getCompletion (i := i) h
      have hsock := hsame (by simp) (by simp)
      by_cases hlost : workBranch c.bSuccess c.data.length = .noData ∧ c.key = i
      · refine .lost hsock (by simpa [hlost] using hload) ⟨c, hc, ?_⟩
        have hnoData := workBranch_eq_noData_iff.1 hlost.1
        exact ⟨hnoData.1, List.length_eq_zero_iff.1 hnoData.2⟩
      · exact .kept hsock (by simpa [hlost] using hload)
  | completeRecv k bSuccess data =>
      exact .kept (hsame (by simp) (by simp)) (load_completeRecv h)
  | disconnect j => exact absurd rfl hno
  | disconnectForget k => exact absurd rfl hno
  | _ => exact hquiet (by simp) (by simp) rfl

/-! ### The invariants of all runs without `DisconnectSocket` -/

/-- What holds in every run without `DisconnectSocket`. -/
structure Receives (cfg : Config) (n : ℕ) (s : Server) : Prop where
  table : SlotTable n s
  bounded : LoadBounded s
  handles : Handles cfg s
  /-- A receive fills the buffer of the context under whose key it completes. -/
  buf : ∀ r ∈ s.os.outstanding, r.buf = r.key

theorem Server.load_initServer (mem : ℕ → Mem) (n workers i : ℕ) :
    (initServer mem n workers).load i = 0 := by
  have hwork : (List.replicate workers WorkPc.top).countP (fun pc => pc.key = some i) = 0 := by
    simp [List.countP_replicate]
  simp only [Server.load, Server.receives, Server.processing, initServer, hwork, AcceptPc.held]
  simp

theorem Receives.init (mem : ℕ → Mem) (n workers : ℕ) :
    Receives cfg n (initServer mem n workers) := by
  refine ⟨SlotTable.init mem n workers, fun i => ?_, Handles.init mem n workers,
    fun r hr => by cases hr⟩
  rw [Server.load_initServer]
  exact Nat.zero_le _

theorem Receives.bounded_step {e : Event} (hs : Receives cfg n s)
    (h : IocpDemo.step cfg s e = some s') (hno : e.thread ≠ .disconnect) : LoadBounded s' := by
  intro i
  have hb := hs.bounded i
  rcases step_load h hno hs.table hs.bounded hs.handles i with
    ⟨hsock, hload⟩ | ⟨hsock, hload, -⟩ | ⟨hfree, ⟨sock, hsock⟩, hload⟩ | ⟨hsock, hload⟩
  · rw [hsock, hload]
    exact hb
  · rw [hsock]
    omega
  · -- the slot was free, so its load was zero
    simp only [hfree, Option.isSome_none, Bool.false_eq_true, if_false] at hb
    simp only [hsock, Option.isSome_some, if_true]
    omega
  · -- the slot is free now, and its load was at most one
    have hone := hs.bounded.le_one i
    omega

theorem Receives.buf_step {e : Event} (hs : Receives cfg n s)
    (h : IocpDemo.step cfg s e = some s') : ∀ r ∈ s'.os.outstanding, r.buf = r.key := by
  intro r hr
  cases hmoves : e.movesReceives with
  | false =>
      rw [((step_os h).receives hmoves).1] at hr
      exact hs.buf r hr
  | true =>
      -- both callers of `ReceivePacket` issue the receive under the key of its context
      have hnew : ∀ {j conn : ℕ} {pending : Bool},
          s'.os.outstanding = s.os.outstanding ++ (if pending then [⟨j, j, conn⟩] else []) →
            r.buf = r.key := by
        intro j conn pending hout
        rcases List.mem_append.1 (hout ▸ hr) with hold | hlast
        · exact hs.buf r hold
        · cases pending with
          | false => cases hlast
          | true =>
              obtain rfl := List.mem_singleton.1 hlast
              rfl
      cases e with
      | acceptReceive pending =>
          obtain ⟨j, conn, -, -, -, -, hout⟩ := acceptReceive_outstanding h hs.handles hs.bounded
          exact hnew hout
      | workReceive w pending =>
          obtain ⟨c, conn, -, -, -, -, hout⟩ := workReceive_outstanding h hs.handles hs.bounded
          exact hnew hout
      | getCompletion w =>
          obtain ⟨c, rest, -, -, rfl⟩ := Server.getCompletion_some h
          exact hs.buf r hr
      | completeRecv k bSuccess data =>
          obtain ⟨r', -, -, -, rfl⟩ := Server.completeRecv_some h
          exact hs.buf r (List.mem_of_mem_eraseIdx hr)
      | _ => cases hmoves

theorem Receives.step {e : Event} (hs : Receives cfg n s) (h : IocpDemo.step cfg s e = some s')
    (hno : e.thread ≠ .disconnect) : Receives cfg n s' where
  table := hs.table.step h
  bounded := hs.bounded_step h hno
  handles := hs.handles.step h hno hs.bounded hs.table
  buf := hs.buf_step h

/-- **The invariants of all runs without `DisconnectSocket`.** -/
theorem Receives.of_reach {P : Server → Event → Prop} (hP : ∀ t e, P t e → e.thread ≠ .disconnect)
    {mem : ℕ → Mem} {workers : ℕ}
    (h : Reach (IocpDemo.step cfg) P (initServer mem n workers) s) : Receives cfg n s :=
  h.invariant (Receives.init mem n workers) fun _ _ _ hi hPe hstep => hi.step hstep (hP _ _ hPe)

end IocpDemo
