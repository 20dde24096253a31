import Rdsctl.Inst.Loss
import Rdsctl.Inst.Submit

/-!
# When a lease counts as lost

The operations on one instance, one after the other, with the renewals inside them. A renewal that
fails in transit says nothing about the lease, so `renew_instance_lease` records the loss when the
failures have lasted for longer than the lease. It counts from the first failure since a renewal has
last succeeded: neither the renewal before it nor `lock_instance` is the start of this time.

The time of the model is that of the fastest clock by which leaders date their entries. The manager
measures durations only, so its own clock may show anything.
-/

namespace Rdsctl.Inst

open Ha Fallible

/-- The operation that has locked the instance. -/
structure Tenant where
  /-- when `lock_instance` has got the lease, or a renewal was last known to have succeeded -/
  lastMs : Nat
  /-- the leader's time in its last `LeaseGrant` or `LeaseRenew` that was committed -/
  stampMs : Nat
  /-- what a renewal has returned, as long as it is not recorded -/
  reply : Option (Except LeaseError Fence)

/-- The failure in transit that is to be recorded. -/
def Tenant.failure? (op : Tenant) : Option LeaseError :=
  match op.reply with
  | some (.error e) => if e.fatal then none else some e
  | some (.ok _) | none => none

/-- A manager in cluster mode, with the operation on the instance. -/
structure Verdicts where
  c : Controller Unit
  nowMs : Nat
  op : Option Tenant

inductive VerdictEvent
  | elapse (ms : Nat)
  /-- `lock_instance` -/
  | lock (call : AuthorityCall)
  /-- `renew_lease_blocking` -/
  | renew (p : Proposal)
  /-- `renew_instance_lease` records what has come of it -/
  | note
  /-- `unlock_instance` -/
  | unlock (p : Proposal)
  /-- another entry of the log -/
  | entry (a : ApplyCall)

/-- The leader's time in the entry that a proposal has become. -/
def Proposal.stampMs? : Proposal → Option Nat
  | .answered c | .unanswered c _ => some c.nowMs
  | .failed _ => none

namespace Verdicts

/-- How long a lease lasts. -/
def ttlMs (s : Verdicts) : Nat := s.c.locks.lockLease * 1000

/-- `lease_lost_reason` -/
def lost (name : String) (s : Verdicts) : Bool := s.c.locks.leaseLost.contains name

def maxSkewMs (s : Verdicts) : Nat := (s.c.locks.machine.map (·.maxSkewMs)).getD 0

def withLocks (s : Verdicts) (l : Locks) : Verdicts := { s with c := { s.c with locks := l } }

/-- No leader's clock is ahead of the time. -/
def dated (s : Verdicts) (p : Proposal) : Bool := p.stampMs?.all fun t => t ≤ s.nowMs

/-- An entry that the operations on the instance have not proposed. The cutoff of a `LeasePurge` keeps
the skew bound; a `ConfigSet` is never proposed. -/
def foreign (name : String) (s : Verdicts) (a : ApplyCall) : Bool :=
  match a.op with
  | .leaseGrant i holder _ atMs => (i ≠ name ∨ holder ≠ s.c.locks.holder) ∧ atMs ≤ s.nowMs
  | .leaseRenew i holder _ | .leaseRelease i holder => i ≠ name ∨ holder ≠ s.c.locks.holder
  | .leasePurge cutoffMs => cutoffMs + s.maxSkewMs ≤ s.nowMs
  | .configSet .. => false
  | _ => true

def step (name : String) (s : Verdicts) : VerdictEvent → Option Verdicts
  | .elapse ms => if s.nowMs + ms < u64Max then some { s with nowMs := s.nowMs + ms } else none
  | .lock call =>
    if s.op.isNone ∧ s.dated call.proposal = true then
      match exec (lockInstance name call) s.c.locks with
      | (.ok (), l) =>
        some { s.withLocks l with op := some ⟨s.nowMs, call.proposal.stampMs?.getD 0, none⟩ }
      | (.error _, l) => some (s.withLocks l)
    else none
  | .renew p =>
    s.op.bind fun op =>
      if op.reply.isNone ∧ s.dated p = true then
        (s.c.locks.renew name p).map fun r =>
          { s.withLocks r.2 with
            op := some { op with stampMs := p.stampMs?.getD op.stampMs, reply := some r.1 } }
      else none
  | .note =>
    s.op.bind fun op => op.reply.map fun reply =>
      { s with
        c := s.c.record name s.nowMs reply
        op := some { op with reply := none, lastMs := if reply.isOk then s.nowMs else op.lastMs } }
  | .unlock p =>
    s.op.bind fun op =>
      if op.reply.isNone then
        some { s.withLocks (unlockInstance name p s.c.locks) with op := none }
      else none
  | .entry a =>
    if s.foreign name a = true then
      s.c.locks.machine.map fun sm =>
        s.withLocks { s.c.locks with authority := .cluster (sm.after a) }
    else none

/-- A manager that was just started. -/
def Initial (s : Verdicts) : Prop :=
  s.c.Initial ∧ s.c.failSince = ∅ ∧ s.op = none ∧ s.nowMs < u64Max

/-! ## The claim and its condition -/

/-- Neither `lock_instance` nor a renewal of the operation has succeeded for as long as a lease lasts. -/
def Overdue (s : Verdicts) (op : Tenant) : Prop := op.lastMs + s.ttlMs < s.nowMs

/-- A renewal that fails in transit records the loss exactly when the operation is overdue. -/
def Judged (name : String) (h : History Verdicts VerdictEvent) : Prop :=
  ∀ t earlier, (t, .note) :: earlier <:+ h → ∀ op e, t.op = some op → op.failure? = some e →
    ((t.c.loss name t.nowMs (.error e)).isSome = true ↔ t.Overdue op)

/-- As long as no loss is recorded, the operation has the lease, and it is too early for another holder. -/
def Safe (name : String) (s : Verdicts) : Prop :=
  ∀ op, s.op = some op → s.lost name = false → ∃ sm l, s.c.locks.machine = some sm ∧
    sm.leases[name]? = some l ∧ l.holder = s.c.locks.holder ∧ s.nowMs < l.expireAtMs + sm.maxSkewMs

/-- The first failure since a renewal has last succeeded, in this operation or an earlier one. -/
def sinceMs (name : String) (s : Verdicts) : Nat := (s.c.failSince[name]?).getD s.nowMs

/-- The operation is overdue, but its renewals have begun to fail only later. -/
def Late (name : String) (s : Verdicts) (op : Tenant) : Prop :=
  op.lastMs + s.ttlMs < s.nowMs ∧ s.nowMs ≤ s.sinceMs name + s.ttlMs

/-- The operation is not overdue, but a failure of an earlier one is still counted. -/
def Stale (name : String) (s : Verdicts) (op : Tenant) : Prop :=
  s.sinceMs name + s.ttlMs < s.nowMs ∧ s.nowMs ≤ op.lastMs + s.ttlMs

/-- A lease of that date keeps other holders out at that time. -/
def Lasting (s : Verdicts) (nowMs stampMs : Nat) : Prop := nowMs < stampMs + s.ttlMs + s.maxSkewMs

/-- No renewal fails late or with a stale start; and until a loss is recorded the next success, or the
loss, comes while the last lease keeps other holders out. -/
def InTime (name : String) (s : Verdicts) : VerdictEvent → Prop
  | .note => ∀ op ∈ s.op, op.failure?.isSome = true → ¬s.Late name op ∧ ¬s.Stale name op
  | .elapse ms => ∀ op ∈ s.op, s.lost name = false → s.Lasting (s.nowMs + ms) op.stampMs
  | .lock call => ∀ t ∈ call.proposal.stampMs?, s.Lasting s.nowMs t
  | .renew p => s.lost name = false → ∀ t ∈ p.stampMs?, s.Lasting s.nowMs t
  | .unlock _ | .entry _ => True

variable {name : String} {s s' : Verdicts} {op : Tenant} {e : LeaseError}

/-! ## The verdict -/

theorem transit (h : op.failure? = some e) : e.fatal = false := by
  unfold Tenant.failure? at h
  split at h
  · next e' _ =>
    cases hfatal : e'.fatal with
    | true => simp [hfatal] at h
    | false =>
      simp only [hfatal, Bool.false_eq_true, if_false, Option.some.injEq] at h
      exact h ▸ hfatal
  · cases h
  · cases h

theorem loss_transit (hfatal : e.fatal = false) :
    (s.c.loss name s.nowMs (.error e)).isSome = true ↔ s.sinceMs name + s.ttlMs < s.nowMs := by
  have hloss : (s.c.loss name s.nowMs (.error e)).isSome = true ↔
      s.nowMs - s.sinceMs name > s.ttlMs := by
    simp only [Controller.loss, hfatal, Bool.false_eq_true, if_false]
    split
    · next h => exact iff_of_true rfl h
    · next h => exact iff_of_false nofun h
  rw [hloss]
  omega

/-- The two starts of the time agree on the verdict exactly when the failure is neither late nor stale. -/
theorem judged_iff (h : op.failure? = some e) :
    ((s.c.loss name s.nowMs (.error e)).isSome = true ↔ s.Overdue op) ↔
      ¬s.Late name op ∧ ¬s.Stale name op := by
  rw [loss_transit (transit h)]
  unfold Overdue Late Stale
  omega

/-! ## The lease of the operation -/

/-- The lease that the operation has had granted or renewed last. -/
def Leased (name : String) (s : Verdicts) (sm : StateMachine) (op : Tenant) : Prop :=
  ∃ l, sm.leases[name]? = some l ∧ l.holder = s.c.locks.holder ∧ l.ttlMs = s.ttlMs ∧
    l.expireAtMs = satAdd op.stampMs s.ttlMs

/-- An operation whose lease is not recorded as lost has it, and it keeps other holders out. -/
structure Inv (name : String) (s : Verdicts) : Prop where
  clock : s.nowMs < u64Max
  machine : ∃ sm, s.c.locks.authority = .cluster sm
  leased : ∀ sm op, s.c.locks.authority = .cluster sm → s.op = some op → s.lost name = false →
    s.Leased name sm op ∧ s.nowMs < op.stampMs + s.ttlMs + sm.maxSkewMs

theorem machine_eq {l : Locks} {sm : StateMachine} (h : l.authority = .cluster sm) :
    l.machine = some sm := by
  simp [Locks.machine, h]

theorem maxSkewMs_eq {sm : StateMachine} (h : s.c.locks.authority = .cluster sm) :
    s.maxSkewMs = sm.maxSkewMs := by
  simp [maxSkewMs, machine_eq h]

/-- Only a `ConfigSet` changes the skew bound. -/
theorem after_maxSkewMs (sm : StateMachine) {a : ApplyCall} (h : ∀ e m, a.op ≠ .configSet e m) :
    (sm.after a).maxSkewMs = sm.maxSkewMs := by
  have hconf := congrArg Prod.snd (StateMachine.after_config sm a)
  refine hconf.trans ?_
  cases hop : a.op with
  | configSet e m => exact absurd hop (h e m)
  | _ => rfl

theorem foreign_not_configSet {a : ApplyCall} (hf : s.foreign name a = true) (e m : Nat) :
    a.op ≠ .configSet e m := fun hop => by
  simp [foreign, hop] at hf

/-- An entry of somebody else leaves the lease alone as long as it keeps other holders out. -/
theorem Leased.foreign {sm : StateMachine} {a : ApplyCall} (h : s.Leased name sm op)
    (hf : s.foreign name a = true) (hskew : s.maxSkewMs = sm.maxSkewMs) (hnow : s.nowMs < u64Max)
    (hlasts : s.nowMs < op.stampMs + s.ttlMs + sm.maxSkewMs) : s.Leased name (sm.after a) op := by
  obtain ⟨l, hl, hme, httl, hexp⟩ := h
  have hsafe : s.nowMs < satAdd l.expireAtMs sm.maxSkewMs := by
    rw [hexp]
    unfold satAdd
    omega
  refine ⟨l, StateMachine.Spares.kept ?_ hl, hme, httl, hexp⟩
  cases hop : a.op with
  | leaseGrant i holder ttlMs atMs =>
    have hc : (i ≠ name ∨ holder ≠ l.holder) ∧ atMs ≤ s.nowMs := by simpa [Verdicts.foreign, hop, hme] using hf
    exact fun hi => ⟨(hc.1.resolve_left fun hne => hne hi).symm, Nat.lt_of_le_of_lt hc.2 hsafe⟩
  | leaseRenew i holder | leaseRelease i holder =>
    have hc : i ≠ name ∨ holder ≠ l.holder := by simpa [Verdicts.foreign, hop, hme] using hf
    exact fun hi => (hc.resolve_left fun hne => hne hi).symm
  | leasePurge cutoffMs =>
    have hc : cutoffMs + s.maxSkewMs ≤ s.nowMs := by simpa [Verdicts.foreign, hop] using hf
    show cutoffMs < l.expireAtMs
    unfold satAdd at hsafe
    omega
  | _ => trivial

/-- The grant of the lease to the operation. -/
theorem leased_grant {sm : StateMachine} {c : Commit} {ttlMs : Nat} {holder : String}
    (hok : (sm.outcome (c.entry (.leaseGrant name holder ttlMs 0))).isOk = true) :
    ∃ l, (sm.after (c.entry (.leaseGrant name holder ttlMs 0))).leases[name]? = some l ∧
      l.holder = holder ∧ l.ttlMs = ttlMs ∧ l.expireAtMs = satAdd c.nowMs ttlMs :=
  ⟨_, StateMachine.lease_granted rfl hok, rfl, rfl, rfl⟩

/-- A renewal of the operation that is committed. -/
theorem Leased.renew {sm : StateMachine} (h : s.Leased name sm op) (c : Commit) :
    ∃ l, (sm.after (c.entry (.leaseRenew name s.c.locks.holder 0))).leases[name]? = some l ∧
      l.holder = s.c.locks.holder ∧ l.ttlMs = s.ttlMs ∧ l.expireAtMs = satAdd c.nowMs s.ttlMs := by
  obtain ⟨l, hl, hme, httl, -⟩ := h
  exact ⟨_, StateMachine.lease_renewed rfl hl hme, hme, httl, by rw [← httl]⟩

/-- A lease call succeeds only with an entry that was accepted. -/
theorem isOk_of_leaseReply {sm : StateMachine} {out : Applied} {fence : Fence}
    (h : leaseReply sm name (.ok out) = .ok fence) : out.isOk = true := by
  cases out with
  | ok => rfl
  | rejected r => cases h
  | stepAlreadyDone r => cases h

/-- What `lock_instance` does in cluster mode. -/
theorem lock_cluster {l l' : Locks} {sm : StateMachine} {call : AuthorityCall} {r : Except String Unit}
    (hsm : l.authority = .cluster sm) (h : exec (lockInstance name call) l = (r, l')) :
    l'.holder = l.holder ∧ l'.lockLease = l.lockLease ∧ (∃ sm', l'.authority = .cluster sm') ∧
      (r = .ok () → ∃ c, call.proposal = .answered c ∧
        (sm.outcome (c.entry (.leaseGrant name l.holder (l.lockLease * 1000) 0))).isOk = true ∧
        l'.authority = .cluster (sm.after (c.entry (.leaseGrant name l.holder (l.lockLease * 1000) 0)))) := by
  unfold lockInstance at h
  rw [exec_get_bind] at h
  cases hb : l.busy name with
  | true =>
    rw [hb] at h
    cases h
    exact ⟨rfl, rfl, ⟨sm, hsm⟩, nofun⟩
  | false =>
    rw [hb] at h
    simp only [Bool.false_eq_true, if_false, Locks.acquire, hsm] at h
    obtain ⟨secs, p⟩ := call
    cases p with
    | failed e =>
      cases h
      exact ⟨rfl, rfl, ⟨_, rfl⟩, nofun⟩
    | unanswered c e =>
      cases h
      exact ⟨rfl, rfl, ⟨_, rfl⟩, nofun⟩
    | answered c =>
      simp only [acquireLease, propose] at h
      cases hreply : leaseReply (sm.after (c.entry (.leaseGrant name l.holder (l.lockLease * 1000) 0))) name
          (.ok (sm.outcome (c.entry (.leaseGrant name l.holder (l.lockLease * 1000) 0)))) with
      | error e =>
        rw [hreply] at h
        cases h
        exact ⟨rfl, rfl, ⟨_, rfl⟩, nofun⟩
      | ok fence =>
        rw [hreply] at h
        cases h
        exact ⟨rfl, rfl, ⟨_, rfl⟩, fun _ => ⟨c, rfl, isOk_of_leaseReply hreply, rfl⟩⟩

/-- Where a change of the locks leaves the instance as it is, or the operation is over. -/
theorem Inv.idle {l : Locks} {c : Controller Unit} (h : Inv name s)
    (hl : ∃ sm, l.authority = .cluster sm) (hc : c.locks = l) : Inv name ⟨c, s.nowMs, none⟩ := by
  subst hc
  exact ⟨h.clock, hl, fun _ _ _ hop => nomatch hop⟩

theorem Inv.lock (h : Inv name s) {call : AuthorityCall} (hg : s.InTime name (.lock call))
    (hs : s.step name (.lock call) = some s') : Inv name s' := by
  obtain ⟨sm, hsm⟩ := h.machine
  simp only [step] at hs
  split at hs
  · rcases hlock : exec (lockInstance name call) s.c.locks with ⟨r, l⟩
    obtain ⟨hholder, hlease, hcluster, hok⟩ := lock_cluster hsm hlock
    rw [hlock] at hs
    cases r with
    | error e =>
      next hfree =>
      cases hs
      have hnone : s.op = none := Option.isNone_iff_eq_none.1 hfree.1
      refine ⟨h.clock, hcluster, fun _ _ _ hop => ?_⟩
      rw [show (s.withLocks l).op = s.op from rfl, hnone] at hop
      cases hop
    | ok u =>
      cases hs
      obtain ⟨c, hp, haccepted, hl⟩ := hok rfl
      refine ⟨h.clock, hcluster, fun sm' op hsm' hop _ => ?_⟩
      cases hop
      have hsm' : l.authority = .cluster sm' := hsm'
      rw [hl] at hsm'
      cases hsm'
      have hstamp : call.proposal.stampMs? = some c.nowMs := by rw [hp]; rfl
      obtain ⟨g, hget, hme, httl, hexp⟩ := leased_grant haccepted
      have hlast := hg c.nowMs (by rw [hstamp]; rfl)
      rw [Lasting, maxSkewMs_eq hsm] at hlast
      have hskew := after_maxSkewMs sm (a := c.entry (.leaseGrant name s.c.locks.holder
        (s.c.locks.lockLease * 1000) 0)) (fun e m hop => by cases hop)
      simp only [hstamp, Option.getD_some]
      refine ⟨⟨g, hget, hme.trans hholder.symm, ?_, ?_⟩, ?_⟩
      · rw [httl]
        exact congrArg (· * 1000) hlease.symm
      · rw [hexp]
        exact congrArg (fun n => satAdd c.nowMs (n * 1000)) hlease.symm
      · show s.nowMs < c.nowMs + l.lockLease * 1000 + _
        rw [hskew, hlease]
        exact hlast
  · cases hs

theorem Inv.renew (h : Inv name s) {p : Proposal} (hg : s.InTime name (.renew p))
    (hs : s.step name (.renew p) = some s') : Inv name s' := by
  obtain ⟨sm, hsm⟩ := h.machine
  obtain ⟨op, hop, hs⟩ := Option.bind_eq_some_iff.1 hs
  split at hs
  · obtain ⟨r, hr, rfl⟩ := Option.map_eq_some_iff.1 hs
    rw [Locks.renew, machine_eq hsm] at hr
    obtain rfl := Option.some.inj hr
    refine ⟨h.clock, ⟨_, rfl⟩, fun sm' op' hsm' hop' hlost => ?_⟩
    cases hop'
    cases hsm'
    have hlost : s.lost name = false := hlost
    obtain ⟨hleased, hlast⟩ := h.leased sm op hsm hop hlost
    cases p with
    | failed e => exact ⟨hleased, hlast⟩
    | answered c | unanswered c e =>
      have hnew := hg hlost c.nowMs rfl
      rw [Lasting, maxSkewMs_eq hsm] at hnew
      refine ⟨hleased.renew c, ?_⟩
      show s.nowMs < c.nowMs + s.ttlMs + (sm.after _).maxSkewMs
      rw [after_maxSkewMs sm fun e m hop => by cases hop]
      exact hnew
  · cases hs

/-- What is recorded changes neither the lease nor its terms. -/
theorem record_terms (c : Controller Unit) (nowMs : Nat) (reply : Except LeaseError Fence) :
    (c.record name nowMs reply).locks.authority = c.locks.authority ∧
      (c.record name nowMs reply).locks.holder = c.locks.holder ∧
      (c.record name nowMs reply).locks.lockLease = c.locks.lockLease ∧
      ((c.record name nowMs reply).locks.leaseLost.contains name = false →
        c.locks.leaseLost.contains name = false) := by
  unfold Controller.record
  split
  · refine ⟨rfl, rfl, rfl, fun h => ?_⟩
    rw [Locks.insertLost, Std.ExtTreeMap.contains_insert, Bool.or_eq_false_iff] at h
    exact h.2
  · exact ⟨rfl, rfl, rfl, id⟩
  · exact ⟨rfl, rfl, rfl, id⟩

theorem Inv.note (h : Inv name s) (hs : s.step name .note = some s') : Inv name s' := by
  obtain ⟨op, hop, hs⟩ := Option.bind_eq_some_iff.1 hs
  obtain ⟨reply, -, rfl⟩ := Option.map_eq_some_iff.1 hs
  obtain ⟨hauth, hholder, hlease, hlost⟩ := @record_terms name s.c s.nowMs reply
  obtain ⟨sm, hsm⟩ := h.machine
  refine ⟨h.clock, ⟨sm, hauth.trans hsm⟩, fun sm' op' hsm' hop' hlost' => ?_⟩
  cases hop'
  obtain ⟨⟨l, hl, hme, httl, hexp⟩, hlast⟩ := h.leased sm' op (hauth ▸ hsm') hop (hlost hlost')
  have hterms : (s.c.record name s.nowMs reply).locks.lockLease * 1000 = s.ttlMs :=
    congrArg (· * 1000) hlease
  refine ⟨⟨l, hl, hme.trans hholder.symm, httl.trans hterms.symm, ?_⟩, ?_⟩
  · exact hexp.trans (congrArg (satAdd op.stampMs) hterms.symm)
  · show s.nowMs < op.stampMs + (s.c.record name s.nowMs reply).locks.lockLease * 1000 + sm'.maxSkewMs
    rw [hterms]
    exact hlast

theorem unlock_cluster {l : Locks} {sm : StateMachine} (p : Proposal) (hsm : l.authority = .cluster sm) :
    ∃ sm', (unlockInstance name p l).authority = .cluster sm' := by
  refine ⟨releaseLease sm name l.holder p, ?_⟩
  simp [unlockInstance, Locks.release, Locks.removeLock, Locks.clustered, Locks.removeFence, hsm]

/-- One event that is in time keeps the invariant. -/
theorem Inv.step {e : VerdictEvent} (h : Inv name s) (hg : s.InTime name e)
    (hs : s.step name e = some s') : Inv name s' := by
  obtain ⟨sm, hsm⟩ := h.machine
  cases e with
  | elapse ms =>
    simp only [Verdicts.step] at hs
    split at hs
    · next hclock =>
      cases hs
      refine ⟨hclock, h.machine, fun sm' op hsm' hop hlost => ?_⟩
      have hlast := hg op hop hlost
      rw [Lasting, maxSkewMs_eq (s := s) hsm'] at hlast
      exact ⟨(h.leased sm' op hsm' hop hlost).1, hlast⟩
    · cases hs
  | lock call => exact h.lock hg hs
  | renew p => exact h.renew hg hs
  | note => exact h.note hs
  | unlock p =>
    obtain ⟨op, -, hs⟩ := Option.bind_eq_some_iff.1 hs
    split at hs
    · cases hs
      exact h.idle (unlock_cluster p hsm) rfl
    · cases hs
  | entry a =>
    simp only [Verdicts.step] at hs
    split at hs
    · next hf =>
      rw [machine_eq hsm] at hs
      cases hs
      refine ⟨h.clock, ⟨_, rfl⟩, fun sm' op hsm' hop hlost => ?_⟩
      cases hsm'
      obtain ⟨hleased, hlast⟩ := h.leased sm op hsm hop hlost
      refine ⟨hleased.foreign hf (maxSkewMs_eq hsm) h.clock hlast, ?_⟩
      show s.nowMs < op.stampMs + s.ttlMs + (sm.after a).maxSkewMs
      rw [after_maxSkewMs sm (foreign_not_configSet hf)]
      exact hlast
    · cases hs

theorem Inv.initial (h : s.Initial) : Inv name s := by
  obtain ⟨hc, -, hop, hclock⟩ := h
  refine ⟨hclock, ?_, fun _ op _ hop' => ?_⟩
  · have hcluster := hc.1
    unfold Locks.clustered at hcluster
    split at hcluster
    · cases hcluster
    · next sm hsm => exact ⟨sm, hsm⟩
  · rw [hop] at hop'
    cases hop'

theorem Inv.safe (h : Inv name s) : s.Safe name := by
  intro op hop hlost
  obtain ⟨sm, hsm⟩ := h.machine
  obtain ⟨⟨l, hl, hme, -, hexp⟩, hlast⟩ := h.leased sm op hsm hop hlost
  have hclock := h.clock
  refine ⟨sm, l, machine_eq hsm, hl, hme, ?_⟩
  rw [hexp]
  unfold satAdd
  omega

/-- A cluster that was just started, with the usual lease of 30 s and skew bound of 1 s. -/
def started : Verdicts :=
  ⟨⟨⟨∅, ∅, ∅, "node-1", 30, .cluster (.new 0 1000)⟩, ∅, [], [], []⟩, 1000, none⟩

theorem started_initial : started.Initial := ⟨⟨rfl, rfl, rfl, rfl, rfl, rfl⟩, rfl, rfl, by decide⟩

instance (s : Verdicts) (op : Tenant) : Decidable (s.Late name op) :=
  inferInstanceAs (Decidable (_ ∧ _))

instance (s : Verdicts) (op : Tenant) : Decidable (s.Stale name op) :=
  inferInstanceAs (Decidable (_ ∧ _))

instance (s : Verdicts) (nowMs stampMs : Nat) : Decidable (s.Lasting nowMs stampMs) :=
  inferInstanceAs (Decidable (_ < _))

instance (s : Verdicts) : (e : VerdictEvent) → Decidable (s.InTime name e)
  | .note => inferInstanceAs (Decidable (∀ op ∈ s.op, _ → _ ∧ _))
  | .elapse _ => inferInstanceAs (Decidable (∀ op ∈ s.op, _ → _))
  | .lock call => inferInstanceAs (Decidable (∀ t ∈ call.proposal.stampMs?, _))
  | .renew p => inferInstanceAs (Decidable (s.lost name = false → ∀ t ∈ p.stampMs?, _))
  | .unlock _ | .entry _ => .isTrue trivial

/-- The first renewal fails at once, and one fails when the lease is over. -/
def soonOut : List VerdictEvent :=
  [.lock ⟨0, .answered ⟨1, 1, 1000⟩⟩, .elapse 100, .renew (.failed .quorum), .note, .elapse 30050,
    .renew (.failed .quorum), .note, .elapse 10000, .entry ⟨2, 1, .leaseGrant "db" "node-2" 30000 41150⟩]

/-- The only renewal of 31 s fails, and another controller gets the lease then. -/
def lateOut : List VerdictEvent :=
  [.lock ⟨0, .answered ⟨1, 1, 1000⟩⟩, .elapse 31000, .renew (.failed .quorum), .note,
    .entry ⟨2, 1, .leaseGrant "db" "node-2" 30000 32000⟩]

end Verdicts
end Rdsctl.Inst
