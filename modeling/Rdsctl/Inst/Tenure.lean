import Rdsctl.Lib.Run
import Rdsctl.Inst.Exclusion

/-!
# How long the lease lasts

The lease of an instance against the time that an operation takes. A task has a watcher, which polls
every 100 ms and renews the lease; the `run_reparent` that `orch_reparent` and `orch_rollback` spawn
has none. The consensus is available: a proposal is answered, and the loop of a watcher comes round,
within a bound that leaves room in the lease. The clocks of leaders, from which entries get their
times, deviate by no more than the skew bound of the state machine.
-/

namespace Rdsctl.Inst

open Ha

/-- The lease of a manager, and how long a proposal or a turn of a watcher takes at most beside its
sleep. -/
structure Pace where
  holder : String
  ttlMs : Nat
  latencyMs : Nat
  available : 100 + latencyMs < ttlMs

/-- An operation that has locked its instance. -/
structure Holding where
  inst : String
  /-- it has a watcher, which renews the lease -/
  watched : Bool
  /-- when the lease was last asked for -/
  since : Nat
  live : Bool
deriving DecidableEq

/-- The replicated state machine, the time, and the operations of one manager. -/
structure Tenure where
  sm : StateMachine
  nowMs : Nat
  ops : List Holding

/-- What happens. Proposals carry the time at which they were made. -/
inductive TenureEvent
  /-- time goes by -/
  | elapse (ms : Nat)
  /-- the `LeaseGrant` of a `lock_instance` -/
  | lock (inst : String) (watched : Bool) (asked : Nat) (c : Commit)
  /-- the `LeaseRenew` of a watcher -/
  | renew (o : Nat) (asked : Nat) (c : Commit)
  /-- `unlock_instance` -/
  | unlock (o : Nat) (c : Commit)
  /-- `reap_own_expired_leases` -/
  | reap (inst : String) (c : Commit)
  /-- another entry of the log -/
  | entry (a : ApplyCall)

namespace Tenure

variable {pace : Pace} {s s' : Tenure} {inst : String} {op : Holding}

/-- A clock shows a time as that of a moment. -/
def shows (s : Tenure) (moment atMs : Nat) : Prop :=
  moment ≤ atMs ∧ atMs ≤ moment + s.sm.maxSkewMs ∧ atMs < u64Max

instance (s : Tenure) (moment atMs : Nat) : Decidable (s.shows moment atMs) :=
  inferInstanceAs (Decidable (_ ∧ _ ∧ _))

/-- The entries of other controllers, and those that lead nobody's operation. An expired lease is
purged when it has expired on every clock. -/
def foreign (pace : Pace) (s : Tenure) (a : ApplyCall) : Bool :=
  match a.op with
  | .leaseGrant _ holder _ atMs =>
    holder ≠ pace.holder ∧ atMs ≤ s.nowMs + s.sm.maxSkewMs ∧ atMs < u64Max
  | .leaseRenew _ holder _ | .leaseRelease _ holder => holder ≠ pace.holder
  | .leasePurge cutoffMs => cutoffMs ≤ s.nowMs
  | _ => true

/-- No watcher is behind its time. -/
def onTime (pace : Pace) (s : Tenure) (nowMs : Nat) : Bool :=
  s.ops.all fun op => op.live && op.watched → nowMs ≤ op.since + (100 + pace.latencyMs)

/-- One event. -/
def step (pace : Pace) (s : Tenure) : TenureEvent → Option Tenure
  | .elapse ms =>
    if s.onTime pace (s.nowMs + ms) = true ∧ s.nowMs + ms < u64Max then
      some { s with nowMs := s.nowMs + ms }
    else none
  | .lock inst watched asked c =>
    let a := c.entry (.leaseGrant inst pace.holder pace.ttlMs 0)
    if asked ≤ s.nowMs ∧ s.nowMs ≤ asked + pace.latencyMs ∧ s.shows asked c.nowMs then
      some { s with
        sm := s.sm.after a
        ops := if (s.sm.outcome a).isOk then s.ops ++ [⟨inst, watched, asked, true⟩] else s.ops }
    else none
  | .renew o asked c =>
    (s.ops[o]?).bind fun op =>
      if op.live = true ∧ op.watched = true ∧ op.since ≤ asked ∧ asked ≤ s.nowMs ∧
          s.shows asked c.nowMs then
        some { s with
          sm := s.sm.after (c.entry (.leaseRenew op.inst pace.holder 0))
          ops := s.ops.set o { op with since := asked } }
      else none
  | .unlock o c =>
    (s.ops[o]?).bind fun op =>
      if op.live = true then
        some { s with
          sm := s.sm.after (c.entry (.leaseRelease op.inst pace.holder))
          ops := s.ops.set o { op with live := false } }
      else none
  | .reap inst c =>
    some { s with sm := s.sm.after (c.entry (.leaseRelease inst pace.holder)) }
  | .entry a => if s.foreign pace a then some { s with sm := s.sm.after a } else none

/-- No operation before the first lock. -/
def Initial (s : Tenure) : Prop := s.ops = [] ∧ s.nowMs < u64Max

/-- No operation holds the instance. -/
def idle (s : Tenure) (inst : String) : Bool := s.ops.all fun op => !(op.live && op.inst = inst)

/-- An operation without a watcher ends before its lease does, and no other `lock_instance` of the
manager gets through, nor a reaping, while an operation holds the instance. -/
def inTime (pace : Pace) (s : Tenure) : TenureEvent → Bool
  | .elapse ms =>
    s.ops.all fun op => op.live && !op.watched → s.nowMs + ms < op.since + pace.ttlMs
  | .lock inst _ _ _ => s.idle inst
  | .reap inst _ => s.idle inst
  | _ => true

/-- An operation that has not begun to unlock its instance has the lease, and has asked for it within
the time that it lasts. -/
def Outlives (pace : Pace) (s : Tenure) : Prop :=
  ∀ op ∈ s.ops, op.live = true →
    leaseOf s.sm pace.holder op.inst = true ∧ s.nowMs < op.since + pace.ttlMs

/-! ## What an entry leaves of a lease -/

/-- The lease of an operation: it was asked for at that time. -/
def Covers (pace : Pace) (sm : StateMachine) (op : Holding) : Prop :=
  ∃ l, sm.leases[op.inst]? = some l ∧ l.holder = pace.holder ∧ l.ttlMs = pace.ttlMs ∧
    min (op.since + pace.ttlMs) u64Max ≤ l.expireAtMs

/-- Nobody else takes a lease before it has expired. -/
theorem covers_foreign {a : ApplyCall} (h : Covers pace s.sm op) (hf : s.foreign pace a = true)
    (hnow : s.nowMs < u64Max) (hlive : s.nowMs < op.since + pace.ttlMs) :
    Covers pace (s.sm.after a) op := by
  obtain ⟨l, hl, hme, httl, hexp⟩ := h
  have hexpires : s.nowMs < l.expireAtMs := by omega
  refine ⟨l, StateMachine.Spares.kept ?_ hl, hme, httl, hexp⟩
  cases hop : a.op with
  | leaseGrant i holder ttlMs atMs =>
    have hc : holder ≠ l.holder ∧ atMs ≤ s.nowMs + s.sm.maxSkewMs ∧ atMs < u64Max := by
      simpa [foreign, hop, hme] using hf
    refine fun _ => ⟨hc.1.symm, ?_⟩
    unfold satAdd
    omega
  | leaseRenew i holder | leaseRelease i holder =>
    have hc : holder ≠ l.holder := by simpa [foreign, hop, hme] using hf
    exact fun _ => hc.symm
  | leasePurge cutoffMs =>
    have hc : cutoffMs ≤ s.nowMs := by simpa [foreign, hop] using hf
    exact Nat.lt_of_le_of_lt hc hexpires
  | _ => trivial

/-- An entry on the lease of another instance. -/
theorem covers_other {a : ApplyCall} (h : Covers pace s.sm op)
    (hop : (∃ holder ttlMs atMs, a.op = .leaseGrant inst holder ttlMs atMs) ∨
      (∃ holder atMs, a.op = .leaseRenew inst holder atMs) ∨ ∃ holder, a.op = .leaseRelease inst holder)
    (hne : inst ≠ op.inst) : Covers pace (s.sm.after a) op := by
  obtain ⟨l, hl, hrest⟩ := h
  refine ⟨l, StateMachine.Spares.kept ?_ hl, hrest⟩
  rcases hop with ⟨holder, ttlMs, atMs, hop⟩ | ⟨holder, atMs, hop⟩ | ⟨holder, hop⟩ <;>
  · rw [hop]
    exact fun heq => absurd heq hne

/-- A grant to the manager. -/
theorem covers_grant {asked : Nat} {watched : Bool} {c : Commit}
    (hok : (s.sm.outcome (c.entry (.leaseGrant inst pace.holder pace.ttlMs 0))).isOk = true)
    (hc : s.shows asked c.nowMs) :
    Covers pace (s.sm.after (c.entry (.leaseGrant inst pace.holder pace.ttlMs 0)))
      ⟨inst, watched, asked, true⟩ := by
  refine ⟨_, StateMachine.lease_granted rfl hok, rfl, rfl, ?_⟩
  have hle := hc.1
  show min (asked + pace.ttlMs) u64Max ≤ min (c.nowMs + pace.ttlMs) u64Max
  omega

/-- A renewal of the manager. -/
theorem covers_renew {asked : Nat} {c : Commit} (h : Covers pace s.sm op)
    (hc : s.shows asked c.nowMs) :
    Covers pace (s.sm.after (c.entry (.leaseRenew op.inst pace.holder 0))) { op with since := asked } := by
  obtain ⟨l, hl, hme, httl, -⟩ := h
  refine ⟨_, StateMachine.lease_renewed rfl hl hme, hme, httl, ?_⟩
  have hle := hc.1
  show min (asked + pace.ttlMs) u64Max ≤ min (c.nowMs + l.ttlMs) u64Max
  rw [httl]
  omega

/-! ## Runs -/

/-- What a run that is in time keeps: an instance has one operation at most, which has the lease. -/
structure Inv (pace : Pace) (s : Tenure) : Prop where
  clock : s.nowMs < u64Max
  one : ∀ (i j : Nat) (p q : Holding), s.ops[i]? = some p → s.ops[j]? = some q → p.live = true →
    q.live = true → p.inst = q.inst → i = j
  covers : ∀ op ∈ s.ops, op.live = true → Covers pace s.sm op
  fresh : ∀ op ∈ s.ops, op.live = true → s.nowMs < op.since + pace.ttlMs

theorem idle_iff : s.idle inst = true ↔ ∀ op ∈ s.ops, op.live = true → op.inst ≠ inst := by
  unfold idle
  rw [List.all_eq_true]
  refine forall₂_congr fun op _ => ?_
  cases op.live <;> simp

/-- An entry of the manager on an instance that no operation holds. -/
theorem Inv.covers_idle (h : Inv pace s) (hidle : s.idle inst = true) {a : ApplyCall}
    (hop : (∃ holder ttlMs atMs, a.op = .leaseGrant inst holder ttlMs atMs) ∨
      (∃ holder atMs, a.op = .leaseRenew inst holder atMs) ∨ ∃ holder, a.op = .leaseRelease inst holder) :
    ∀ op ∈ s.ops, op.live = true → Covers pace (s.sm.after a) op := fun op hmem hlive =>
  covers_other (h.covers op hmem hlive) hop (idle_iff.1 hidle op hmem hlive).symm

theorem Inv.lock (h : Inv pace s) {watched : Bool} {asked : Nat} {c : Commit}
    (hg : s.idle inst = true) (hs : s.step pace (.lock inst watched asked c) = some s') :
    Inv pace s' := by
  simp only [step] at hs
  split at hs
  · next hc =>
    obtain ⟨-, hsoon, hshows⟩ := hc
    cases hs
    have hothers := h.covers_idle hg (a := c.entry (.leaseGrant inst pace.holder pace.ttlMs 0))
      (.inl ⟨pace.holder, pace.ttlMs, c.nowMs, rfl⟩)
    split
    · next hok =>
      refine ⟨h.clock, fun i j p q hi hj hp hq hpq => ?_, ?_, ?_⟩
      · dsimp only at hi hj
        rw [List.getElem?_append] at hi hj
        split at hi <;> split at hj
        · exact h.one i j p q hi hj hp hq hpq
        · rw [(List.mem_singleton.1 (List.mem_of_getElem? hj) :)] at hpq
          exact absurd hpq (idle_iff.1 hg p (List.mem_of_getElem? hi) hp)
        · rw [(List.mem_singleton.1 (List.mem_of_getElem? hi) :)] at hpq
          exact absurd hpq.symm (idle_iff.1 hg q (List.mem_of_getElem? hj) hq)
        · have hi' := (List.getElem?_eq_some_iff.1 hi).1
          have hj' := (List.getElem?_eq_some_iff.1 hj).1
          simp only [List.length_singleton] at hi' hj'
          omega
      · refine List.forall_mem_append.2 ⟨hothers, List.forall_mem_singleton.2 fun _ => ?_⟩
        exact covers_grant hok hshows
      · refine List.forall_mem_append.2 ⟨h.fresh, List.forall_mem_singleton.2 fun _ => ?_⟩
        have hroom := pace.available
        show s.nowMs < asked + pace.ttlMs
        omega
    · exact ⟨h.clock, h.one, hothers, h.fresh⟩
  · cases hs

/-- The operation that an event changes, and the others. -/
theorem Inv.set (h : Inv pace s) {o : Nat} (hop : s.ops[o]? = some op) (hlive : op.live = true)
    {a : ApplyCall} {op' : Holding} (hinst : op'.inst = op.inst)
    (ha : (∃ holder ttlMs atMs, a.op = .leaseGrant op.inst holder ttlMs atMs) ∨
      (∃ holder atMs, a.op = .leaseRenew op.inst holder atMs) ∨
      ∃ holder, a.op = .leaseRelease op.inst holder)
    (hcovers : op'.live = true → Covers pace (s.sm.after a) op')
    (hfresh : op'.live = true → s.nowMs < op'.since + pace.ttlMs) :
    Inv pace { s with sm := s.sm.after a, ops := s.ops.set o op' } := by
  have hlt : o < s.ops.length := (List.getElem?_eq_some_iff.1 hop).1
  have hat {i : Nat} {p : Holding} (hi : (s.ops.set o op')[i]? = some p) (hp : p.live = true) :
      (i = o ∧ p = op') ∨ (i ≠ o ∧ s.ops[i]? = some p) := by
    rcases eq_or_ne i o with rfl | hne
    · rw [List.getElem?_set_self hlt] at hi
      exact .inl ⟨rfl, (Option.some.inj hi).symm⟩
    · rw [List.getElem?_set_ne hne.symm] at hi
      exact .inr ⟨hne, hi⟩
  refine ⟨h.clock, fun i j p q hi hj hp hq hpq => ?_, fun p hmem hp => ?_, fun p hmem hp => ?_⟩
  · rcases hat hi hp with ⟨rfl, rfl⟩ | ⟨hio, hi'⟩ <;> rcases hat hj hq with ⟨rfl, rfl⟩ | ⟨hjo, hj'⟩
    · rfl
    · exact absurd (h.one j i q op hj' hop hq hlive (hpq.symm.trans hinst)) hjo
    · exact absurd (h.one i j p op hi' hop hp hlive (hpq.trans hinst)) hio
    · exact h.one i j p q hi' hj' hp hq hpq
  · obtain ⟨i, hi⟩ := List.getElem?_of_mem hmem
    rcases hat hi hp with ⟨rfl, rfl⟩ | ⟨hio, hi⟩
    · exact hcovers hp
    · refine covers_other (h.covers p (List.mem_of_getElem? hi) hp) ha fun heq => hio ?_
      exact h.one i o p op hi hop hp hlive heq.symm
  · obtain ⟨i, hi⟩ := List.getElem?_of_mem hmem
    rcases hat hi hp with ⟨rfl, rfl⟩ | ⟨-, hi⟩
    · exact hfresh hp
    · exact h.fresh p (List.mem_of_getElem? hi) hp

/-- One event that is in time keeps the invariant. -/
theorem Inv.step (h : Inv pace s) {e : TenureEvent} (hg : s.inTime pace e = true)
    (hs : s.step pace e = some s') : Inv pace s' := by
  cases e with
  | elapse ms =>
    simp only [Tenure.step] at hs
    split at hs
    · next hc =>
      obtain ⟨htime, hclock⟩ := hc
      cases hs
      refine ⟨hclock, h.one, h.covers, fun op hmem hlive => ?_⟩
      have htime' := of_decide_eq_true (List.all_eq_true.1 htime op hmem)
      have hg' := of_decide_eq_true (List.all_eq_true.1 hg op hmem)
      have hroom := pace.available
      cases hw : op.watched with
      | true =>
        have hle := htime' (by rw [hlive, hw]; rfl)
        show s.nowMs + ms < op.since + pace.ttlMs
        omega
      | false => exact hg' (by rw [hlive, hw]; rfl)
    · cases hs
  | lock inst watched asked c => exact h.lock hg hs
  | renew o asked c =>
    obtain ⟨op, hop, hs⟩ := Option.bind_eq_some_iff.1 hs
    split at hs
    · next hc =>
      obtain ⟨hlive, -, hsince, -, hshows⟩ := hc
      cases hs
      have hmem := List.mem_of_getElem? hop
      refine h.set hop hlive rfl (.inr (.inl ⟨_, _, rfl⟩))
        (fun _ => covers_renew (h.covers op hmem hlive) hshows) fun _ => ?_
      have hfresh := h.fresh op hmem hlive
      show s.nowMs < asked + pace.ttlMs
      omega
    · cases hs
  | unlock o c =>
    obtain ⟨op, hop, hs⟩ := Option.bind_eq_some_iff.1 hs
    split at hs
    · next hlive =>
      cases hs
      exact h.set hop hlive rfl (.inr (.inr ⟨_, rfl⟩)) nofun nofun
    · cases hs
  | reap inst c =>
    cases hs
    exact ⟨h.clock, h.one, h.covers_idle hg (.inr (.inr ⟨_, rfl⟩)), h.fresh⟩
  | entry a =>
    simp only [Tenure.step] at hs
    split at hs
    · next hf =>
      cases hs
      refine ⟨h.clock, h.one, fun op hmem hlive => ?_, h.fresh⟩
      exact covers_foreign (h.covers op hmem hlive) hf h.clock (h.fresh op hmem hlive)
    · cases hs

theorem Inv.outlives (h : Inv pace s) : Outlives pace s := fun op hmem hlive => by
  obtain ⟨l, hl, hme, -⟩ := h.covers op hmem hlive
  exact ⟨leaseOf_iff.2 ⟨l, hl, hme⟩, h.fresh op hmem hlive⟩

/-- **The lease outlives the operation.** In every run in which an operation without a watcher ends
before its lease does, an operation has the lease until it unlocks its instance. -/
theorem lease_outlives {hist : History Tenure TenureEvent}
    (hr : Run (step pace) (fun _ s e => s.inTime pace e = true) Initial hist s) : Outlives pace s := by
  have hinv : Inv pace s := by
    refine Run.invariant (I := fun _ s => Inv pace s) (fun s h0 => ?_) ?_ hr
    · refine ⟨h0.2, fun i j p q hi => ?_, fun op hmem => ?_, fun op hmem => ?_⟩ <;>
      · rw [h0.1] at *
        simp at *
    · intro hist s e s' _ hi hg hs
      exact hi.step hg hs
  exact hinv.outlives

/-- The default lease of 30 s, with proposals that take at most 5 s. -/
def usual : Pace := ⟨"node-1", 30000, 5000, by decide⟩

/-- A cluster that was just started. -/
def fresh : Tenure := ⟨.new 0 1000, 1000, []⟩

theorem fresh_initial : Initial fresh := ⟨rfl, by decide⟩

/-- A task whose watcher renews the lease late and that takes longer than one lease. -/
def longTask : List TenureEvent :=
  [.lock "db" true 1000 ⟨1, 1, 1000⟩, .elapse 5000, .renew 0 6000 ⟨1, 2, 6000⟩, .elapse 5000,
    .renew 0 11000 ⟨1, 3, 11000⟩, .elapse 5000, .renew 0 16000 ⟨1, 4, 16000⟩, .elapse 5000,
    .renew 0 21000 ⟨1, 5, 21000⟩, .elapse 5000, .renew 0 26000 ⟨1, 6, 26000⟩, .elapse 5000,
    .renew 0 31000 ⟨1, 7, 31000⟩, .elapse 5000]

/-- A switch that takes longer than its lease, and another controller that asks for it then. -/
def longSwitch : List TenureEvent :=
  [.lock "db" false 1000 ⟨1, 1, 1000⟩, .elapse 31000,
    .entry ⟨2, 1, .leaseGrant "db" "node-2" 30000 32000⟩]

/-- The lease of a task of 35 s. -/
theorem lease_outlives_task : ∃ hist s,
    Run (step usual) (fun _ s e => s.inTime usual e = true) Initial hist s ∧
    s.nowMs = 36000 ∧ s.ops.length = 1 ∧ Outlives usual s := by
  have hf : (follow (step usual) (fun _ s e => s.inTime usual e = true) longTask [] fresh).map
      (fun r => (r.2.nowMs, r.2.ops.length)) = some (36000, 1) := by
    decide +kernel
  obtain ⟨⟨hist, s⟩, hf, hs⟩ := Option.map_eq_some_iff.1 hf
  obtain ⟨hnow, hone⟩ := Prod.mk.inj hs
  have hr := Run.follow (.start fresh_initial) hf
  exact ⟨hist, s, hr, hnow, hone, lease_outlives hr⟩

/-- The other controller gets the lease while the switch goes on. -/
theorem lease_outlived : ¬ ∀ (pace : Pace) hist s,
    Run (step pace) (fun _ _ _ => True) Initial hist s → Outlives pace s := by
  intro hall
  have hf : (follow (step usual) (fun _ _ _ => True) longSwitch [] fresh).map
      (fun r => (r.2.ops, leaseOf r.2.sm "node-1" "db")) =
      some ([⟨"db", false, 1000, true⟩], false) := by
    decide +kernel
  obtain ⟨⟨hist, s⟩, hf, hs⟩ := Option.map_eq_some_iff.1 hf
  obtain ⟨hops, hlost⟩ := Prod.mk.inj hs
  have hops : s.ops = [⟨"db", false, 1000, true⟩] := hops
  have hlost : leaseOf s.sm "node-1" "db" = false := hlost
  have hheld := (hall usual hist s (Run.follow (.start fresh_initial) hf) ⟨"db", false, 1000, true⟩
    (by rw [hops]; exact .head _) rfl).1
  have hheld : leaseOf s.sm "node-1" "db" = true := hheld
  rw [hlost] at hheld
  cases hheld

end Tenure

end Rdsctl.Inst
