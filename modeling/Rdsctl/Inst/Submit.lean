import Rdsctl.Inst.Exclusion
import Rdsctl.Inst.Manager

/-!
# Refused submissions

What a call of an entry point leaves behind when it returns an error. All of them fail before the
lock, at the lock, or not at all, but for one: `create` plans the members of a xenon instance under
the lock, and refuses more than nine of them there. At the lock, a proposal whose caller gets an
error may still have been committed.
-/

namespace Rdsctl.Inst

open Ha Dag Fallible

/-! ## The lock -/

/-- What an authority has granted: the rows of the lock table, or the leases. -/
def Authority.granted : Authority → BTreeMap String LockRow × BTreeMap String Lease
  | .store locks => (locks, ∅)
  | .cluster sm => (∅, sm.leases)

/-- The locks of the process, the fences, and what the authority has granted are the same. -/
structure Locks.Kept (l l' : Locks) : Prop where
  opLocks : l'.opLocks = l.opLocks
  fences : l'.fences = l.fences
  granted : l'.authority.granted = l.authority.granted

theorem Locks.Kept.refl (l : Locks) : l.Kept l := ⟨rfl, rfl, rfl⟩

/-- The op that `lock_instance` proposes. -/
def Locks.grantOp (l : Locks) (name : String) : Op :=
  .leaseGrant name l.holder (l.lockLease * 1000) 0

/-- The call gets an error for a proposal that is committed, and that changes the leases. -/
def Locks.GrantLost (l : Locks) (name : String) (call : AuthorityCall) : Prop :=
  l.busy name = false ∧ ∃ sm c e, l.authority = .cluster sm ∧ call.proposal = .unanswered c e ∧
    (sm.after (c.entry (l.grantOp name))).leases ≠ sm.leases

/-- A grant that is rejected changes no lease. -/
theorem StateMachine.leases_of_rejected {sm : StateMachine} {a : ApplyCall} {inst holder : String}
    {ttlMs atMs : Nat} (hop : a.op = .leaseGrant inst holder ttlMs atMs)
    (hno : sm.outcome a ≠ .ok) : (sm.after a).leases = sm.leases := by
  rcases StateMachine.applyLeaseGrant_cases sm a.term a.index inst holder ttlMs atMs with
    ⟨-, -, heq⟩ | ⟨-, r, heq⟩
  · exact absurd (StateMachine.after_eq hop heq).1 hno
  · exact (StateMachine.after_eq hop heq).2.1

/-- A grant that is accepted leaves a lease. -/
theorem StateMachine.lease_of_accepted {sm : StateMachine} {a : ApplyCall} {inst holder : String}
    {ttlMs atMs : Nat} (hop : a.op = .leaseGrant inst holder ttlMs atMs)
    (hok : sm.outcome a = .ok) : ∃ l, (sm.after a).leases[inst]? = some l := by
  obtain ⟨l, hl, -⟩ := leaseOf_iff.1 (leaseOf_of_grant hop (by rw [hok]; rfl))
  exact ⟨l, hl⟩

section

variable {l : Locks} {name e : String} {call : AuthorityCall}

theorem Locks.not_grantLost_of_store {locks : StoreLocks} (h : l.authority = .store locks) :
    ¬ l.GrantLost name call := by
  rintro ⟨-, sm, c, e, hau, -⟩
  rw [h] at hau
  cases hau

/-- A call to the authority that fails leaves what it has granted, unless the grant was lost. -/
theorem Locks.acquire_error (hb : l.busy name = false) (h : (l.acquire name call).1 = .error e) :
    l.Kept (l.acquire name call).2 ↔ ¬ l.GrantLost name call := by
  cases hau : l.authority with
  | store locks =>
    refine iff_of_true ?_ (not_grantLost_of_store hau)
    unfold acquire at h ⊢
    rw [hau] at h ⊢
    rcases locks.lockInstance_cases name l.holder l.lockLease call.nowSecs with ⟨heq, -⟩ | heq
    · simp only [heq] at h
      cases h
    · simp only [heq]
      exact ⟨rfl, rfl, by rw [hau]⟩
  | cluster sm =>
    unfold acquire acquireLease at h ⊢
    rw [hau] at h ⊢
    have hop : ∀ c : Commit, (c.entry (l.grantOp name)).op =
        .leaseGrant name l.holder (l.lockLease * 1000) c.nowMs := fun c => rfl
    cases hp : call.proposal with
    | answered c =>
      refine iff_of_true ?_ ?_
      · have hno : sm.outcome (c.entry (l.grantOp name)) ≠ .ok := by
          intro hok
          obtain ⟨lease, hlease⟩ := StateMachine.lease_of_accepted (hop c) hok
          rw [grantOp] at hok hlease
          simp only [propose, hp, leaseReply, hok, hlease] at h
          cases h
        refine ⟨rfl, rfl, ?_⟩
        rw [hau]
        show (∅, (sm.after (c.entry (l.grantOp name))).leases) = _
        rw [StateMachine.leases_of_rejected (hop c) hno]
        rfl
      · rintro ⟨-, sm', c', e', -, hp', -⟩
        rw [hp] at hp'
        cases hp'
    | unanswered c e' =>
      constructor
      · rintro hk ⟨-, sm', c', e'', hau', hp', hne⟩
        rw [hau, Authority.cluster.injEq] at hau'
        rw [hp, Proposal.unanswered.injEq] at hp'
        obtain ⟨rfl, rfl⟩ := hp'
        subst hau'
        have hgranted := hk.granted
        rw [hau] at hgranted
        exact hne (Prod.mk.inj hgranted).2
      · intro hnot
        have heq : (sm.after (c.entry (l.grantOp name))).leases = sm.leases := by
          by_contra hne
          exact hnot ⟨hb, sm, c, e', hau, hp, hne⟩
        refine ⟨rfl, rfl, ?_⟩
        rw [hau]
        show (∅, (sm.after (c.entry (l.grantOp name))).leases) = _
        rw [heq]
        rfl
    | failed e' =>
      refine iff_of_true ⟨rfl, rfl, by rw [hau]; rfl⟩ ?_
      rintro ⟨-, sm', c', e'', -, hp', -⟩
      rw [hp] at hp'
      cases hp'

/-- What `lock_instance` does. -/
inductive LockTurn (l : Locks) (name : String) (call : AuthorityCall) :
    Except String Unit × Locks → Prop
  | busy {e : String} (hb : l.busy name = true) : LockTurn l name call (.error e, l)
  | refused {e : String} (hb : l.busy name = false) (h : (l.acquire name call).1 = .error e) :
      LockTurn l name call (.error e, (l.acquire name call).2)
  | locked {l' : Locks} (hb : l.busy name = false) (hl : l'.opLocks = l.opLocks.insert name ()) :
      LockTurn l name call (.ok (), l')

theorem lockInstance_turn (l : Locks) (name : String) (call : AuthorityCall) :
    LockTurn l name call (exec (lockInstance name call) l) := by
  unfold lockInstance
  rw [exec_get_bind]
  cases hb : l.busy name with
  | true => exact .busy hb
  | false =>
    simp only [Bool.false_eq_true, if_false]
    rcases hacq : l.acquire name call with ⟨reply, l1⟩
    have hops : l1.opLocks = l.opLocks := by
      have hframe := congrArg Locks.opLocks (Locks.acquire_frame l name call).1
      rw [hacq] at hframe
      exact hframe
    cases reply with
    | error e =>
      have hrefused : LockTurn l name call (.error e, (l.acquire name call).2) :=
        .refused hb (by rw [hacq])
      rw [hacq] at hrefused
      exact hrefused
    | ok fence =>
      cases fence with
      | none => exact .locked hb (congrArg (fun o => o.insert name ()) hops)
      | some fence => exact .locked hb (congrArg (fun o => o.insert name ()) hops)

/-- A call of `lock_instance` that fails leaves the locks, unless a grant was lost. -/
theorem lockInstance_error (h : (exec (lockInstance name call) l).1 = .error e) :
    l.Kept (exec (lockInstance name call) l).2 ↔ ¬ l.GrantLost name call := by
  have hturn := lockInstance_turn l name call
  generalize exec (lockInstance name call) l = r at h hturn ⊢
  cases hturn with
  | busy hb =>
    refine iff_of_true (.refl l) fun hlost => ?_
    rw [hlost.1] at hb
    cases hb
  | refused hb hacq => exact Locks.acquire_error hb hacq
  | locked => cases h

end

/-! ## Entry points -/

/-- The instance whose lock a call asks for, when its checks pass. -/
def Entry.asks (m : Manager) : Entry → Option String
  | .create name o => (createCheck name o m).toOption
  | .destroy name => (destroyCheck name m).toOption.map fun _ => name
  | .scaleoutOpt name role _ _ shard =>
    (scaleoutCheck name role shard m).toOption.map fun _ => name
  | .replaceNode inst node host =>
    (replaceCheck (trimmed inst) (trimmed node) (trimmed host) m).toOption.map fun _ => trimmed inst
  | .migrateInstance inst region az csv =>
    (migrateCheck (trimmed inst) (trimmed region) (trimmed az) (splitHosts csv) m).toOption.map
      fun _ => trimmed inst
  | .runBackup name => (backupCheck name m).toOption.map fun _ => name
  | .orchReparent inst target mode =>
    (orchReparentCheck (trimmed inst) target mode m).toOption.map fun _ => trimmed inst
  | .orchRollback inst =>
    match orchRollbackCheck (trimmed inst) m with
    | .ok (_, false) => some (trimmed inst)
    | _ => none

/-- A creation of a xenon instance with more members than are planned. -/
def Entry.overfull : Entry → Bool
  | .create _ o => o.itype = "xenon" && 9 < xenonCount o
  | _ => false

/-- What a call of an entry point does. -/
inductive SubmitTurn (s : Surroundings) (m : Manager) (e : Entry) :
    Except String String × Manager → Prop
  | turnedDown {msg : String} (h : e.asks m = none) : SubmitTurn s m e (.error msg, m)
  | noop {text : String} (h : e.asks m = none) : SubmitTurn s m e (.ok text, m)
  | refused {name msg : String} {l : Locks} (h : e.asks m = some name)
      (hl : exec (lockInstance name s.authority) m.locks = (.error msg, l)) :
      SubmitTurn s m e (.error msg, { m with locks := l })
  | unplanned {name msg : String} {m' : Manager} (h : e.asks m = some name)
      (hx : e.overfull = true)
      (hl : exec (lockInstance name s.authority) m.locks = (.ok (), m'.locks)) :
      SubmitTurn s m e (.error msg, m')
  | submitted {name id : String} {m' : Manager} {l : Locks} (h : e.asks m = some name)
      (hx : e.overfull = false)
      (hl : exec (lockInstance name s.authority) m.locks = (.ok (), l)) :
      SubmitTurn s m e (.ok id, m')

section

variable {s : Surroundings} {m : Manager} {e : Entry}

theorem exec_checked_ok {α : Type} {f : Manager → Except String α}
    {g : α → Fallible String Manager String} {a : α} (h : f m = .ok a) :
    exec (checked f >>= g) m = exec (g a) m :=
  exec_bind_ok (by rw [checked, exec_get_bind, h]; rfl)

theorem exec_checked_error {α : Type} {f : Manager → Except String α}
    {g : α → Fallible String Manager String} {msg : String} (h : f m = .error msg) :
    exec (checked f >>= g) m = (.error msg, m) :=
  exec_bind_error (by rw [checked, exec_get_bind, h]; rfl)

/-- A call that asks for a lock and cannot fail once it has it. -/
theorem SubmitTurn.of_locked {name : String} {body : Unit → Fallible String Manager String}
    (h : e.asks m = some name) (hx : e.overfull = false)
    (hbody : ∀ l, ∃ id m', exec (body ()) { m with locks := l } = (.ok id, m')) :
    SubmitTurn s m e (exec (lockFor name s >>= body) m) := by
  rcases hl : exec (lockInstance name s.authority) m.locks with ⟨reply, l⟩
  have hlock : exec (lockFor name s) m = (reply, { m with locks := l }) := by
    rw [lockFor, exec_zoom, hl]
  cases reply with
  | error msg =>
    rw [exec_bind_error hlock]
    exact .refused h hl
  | ok =>
    rw [exec_bind_ok hlock]
    obtain ⟨id, m', heq⟩ := hbody l
    rw [heq]
    exact .submitted h hx hl

/-- A call that checks, asks for a lock, and cannot fail once it has it. -/
theorem SubmitTurn.of_checked {α : Type} {check : Manager → Except String α} {name : String}
    {body : α → Unit → Fallible String Manager String}
    (h : e.asks m = (check m).toOption.map fun _ => name) (hx : e.overfull = false)
    (hbody : ∀ a l, ∃ id m', exec (body a ()) { m with locks := l } = (.ok id, m')) :
    SubmitTurn s m e (exec (checked check >>= fun a => lockFor name s >>= body a) m) := by
  cases hc : check m with
  | error msg =>
    rw [exec_checked_error hc]
    exact .turnedDown (by rw [h, hc]; rfl)
  | ok a =>
    rw [exec_checked_ok hc]
    exact .of_locked (by rw [h, hc]; rfl) hx (hbody a)

theorem exec_drawServerIds_bind {α : Type} (n : Nat) (f : Nat → Fallible String Manager α)
    (m : Manager) : exec (drawServerIds n >>= f) m =
      exec (f m.nextServerId) { m with nextServerId := m.nextServerId + 10 * n } := rfl

/-- What the plan of a creation does: more than nine members are refused, and the locks stay. -/
theorem planCreate_turn (name : String) (o : CreateOpts) (s : Surroundings) (m : Manager) :
    (o.itype = "xenon" ∧ 9 < xenonCount o ∧
      ∃ msg m', exec (planCreate name o s) m = (.error msg, m') ∧ m'.locks = m.locks) ∨
    (¬ (o.itype = "xenon" ∧ 9 < xenonCount o) ∧
      ∃ plan m', exec (planCreate name o s) m = (.ok plan, m')) := by
  unfold planCreate
  simp only [exec_drawServerIds_bind]
  by_cases hx : o.itype = "xenon"
  · rw [if_pos hx]
    by_cases hn : 9 < xenonCount o
    · have hbuild : ∀ sid network ports, buildXenonInst s.process name o sid network ports =
          .error "xenon 节点数上限 9(lab 规模)" := fun _ _ _ => if_pos hn
      rw [hbuild]
      exact .inl ⟨hx, hn, _, _, rfl, rfl⟩
    · have hbuild : ∀ sid network ports, ∃ plan,
          buildXenonInst s.process name o sid network ports = .ok plan :=
        fun _ _ _ => ⟨_, if_neg hn⟩
      obtain ⟨plan, hplan⟩ := hbuild (m.nextServerId + 10) ("rds-" ++ name)
        fun k => s.ports (2 * proxyCount o + 1 + k)
      rw [hplan]
      exact .inr ⟨fun h => hn h.2, plan, _, rfl⟩
  · rw [if_neg hx]
    refine .inr ⟨fun h => hx h.1, ?_⟩
    split
    · exact ⟨_, _, rfl⟩
    · exact ⟨_, _, rfl⟩

theorem create_turn (s : Surroundings) (m : Manager) (name : String) (o : CreateOpts) :
    SubmitTurn s m (.create name o) (exec (create name o s) m) := by
  unfold create
  cases hc : createCheck name o m with
  | error msg =>
    rw [exec_checked_error hc]
    exact .turnedDown (by simp [Entry.asks, hc, Except.toOption])
  | ok n =>
    rw [exec_checked_ok hc]
    have hasks : (Entry.create name o).asks m = some n := by simp [Entry.asks, hc, Except.toOption]
    rcases hl : exec (lockInstance n s.authority) m.locks with ⟨reply, l⟩
    have hlock : exec (lockFor n s) m = (reply, { m with locks := l }) := by
      rw [lockFor, exec_zoom, hl]
    cases reply with
    | error msg =>
      rw [exec_bind_error hlock]
      exact .refused hasks hl
    | ok =>
      rw [exec_bind_ok hlock]
      rcases planCreate_turn n o s { m with locks := l } with
        ⟨hx, hn, msg, m', heq, hm⟩ | ⟨hx, plan, m', heq⟩
      · rw [exec_bind_error heq]
        exact .unplanned hasks (by simp [Entry.overfull, hx, hn]) (by rw [hm]; exact hl)
      · rw [exec_bind_ok heq]
        exact .submitted hasks (by simpa [Entry.overfull] using hx) hl

theorem Entry.run_turn (s : Surroundings) (m : Manager) (e : Entry) :
    SubmitTurn s m e (exec (e.run s) m) := by
  cases e with
  | create name o => exact create_turn s m name o
  | destroy name =>
    exact .of_checked rfl rfl fun _ _ => ⟨_, _, rfl⟩
  | scaleoutOpt name role region az shard =>
    exact .of_checked rfl rfl fun _ _ => ⟨_, _, rfl⟩
  | replaceNode inst node host =>
    exact .of_checked rfl rfl fun _ _ => ⟨_, _, rfl⟩
  | migrateInstance inst region az csv =>
    exact .of_checked rfl rfl fun _ _ => ⟨_, _, rfl⟩
  | runBackup name =>
    exact .of_checked rfl rfl fun _ _ => ⟨_, _, rfl⟩
  | orchReparent inst target mode =>
    exact .of_checked rfl rfl fun _ _ => ⟨_, _, rfl⟩
  | orchRollback inst =>
    show SubmitTurn s m _ (exec (Inst.orchRollback inst s) m)
    unfold Inst.orchRollback
    cases hc : orchRollbackCheck (trimmed inst) m with
    | error msg =>
      rw [exec_checked_error hc]
      exact .turnedDown (by simp [Entry.asks, hc])
    | ok r =>
      obtain ⟨prev, noop⟩ := r
      rw [exec_checked_ok hc]
      cases noop with
      | true => exact .noop (by simp [Entry.asks, hc])
      | false => exact .of_locked (by simp [Entry.asks, hc]) rfl fun l => ⟨_, _, rfl⟩

/-! ## What a failed call leaves behind -/

/-- The locks, what the authority has granted and both copies of the registry are as before. -/
structure Untouched (m m' : Manager) : Prop where
  locks : m.locks.Kept m'.locks
  instances : m'.instances = m.instances
  persisted : m'.persisted = m.persisted

/-- The call creates a xenon instance with more members than are planned, and gets its lock. -/
def Entry.PlansUnderLock (e : Entry) (s : Surroundings) (m : Manager) : Prop :=
  e.overfull = true ∧ ∃ name, e.asks m = some name ∧
    (exec (lockInstance name s.authority) m.locks).1.isOk = true

/-- The call asks for a lock, and gets an error for a grant that takes effect. -/
def Entry.LosesGrant (e : Entry) (s : Surroundings) (m : Manager) : Prop :=
  ∃ name, e.asks m = some name ∧ m.locks.GrantLost name s.authority

/-- **A failed submit leaves no lock.** A call of an entry point that fails leaves the manager
untouched, except for a creation that is refused under its lock and a grant that is lost. -/
theorem Entry.failed_untouched (s : Surroundings) (m : Manager) (e : Entry) (msg : String)
    (h : (exec (e.run s) m).1 = .error msg) :
    Untouched m (exec (e.run s) m).2 ↔ ¬ (e.PlansUnderLock s m ∨ e.LosesGrant s m) := by
  have hturn := e.run_turn s m
  generalize exec (e.run s) m = r at h hturn ⊢
  cases hturn with
  | turnedDown hasks =>
    refine iff_of_true ⟨.refl _, rfl, rfl⟩ ?_
    rintro (⟨-, n, hn, -⟩ | ⟨n, hn, -⟩) <;> rw [hasks] at hn <;> cases hn
  | noop => cases h
  | @refused name reply l hasks hl =>
    have hkept : m.locks.Kept l ↔ ¬ m.locks.GrantLost name s.authority := by
      have herr : (exec (lockInstance name s.authority) m.locks).1 = .error reply := by
        rw [hl]
      have hiff := lockInstance_error herr
      rwa [hl] at hiff
    constructor
    · rintro ⟨hk, -, -⟩ (⟨-, n, hn, hok⟩ | ⟨n, hn, hlost⟩)
      · rw [hasks, Option.some.injEq] at hn
        subst hn
        rw [hl] at hok
        cases hok
      · rw [hasks, Option.some.injEq] at hn
        subst hn
        exact hkept.1 hk hlost
    · intro hnot
      exact ⟨hkept.2 fun hlost => hnot (.inr ⟨name, hasks, hlost⟩), rfl, rfl⟩
  | @unplanned name _ m' hasks hx hl =>
    refine iff_of_false (fun hu => ?_) fun hnot => hnot (.inl ⟨hx, name, hasks, by rw [hl]; rfl⟩)
    have hturn := lockInstance_turn m.locks name s.authority
    rw [hl] at hturn
    cases hturn with
    | locked hb hops =>
      have hin : m'.locks.busy name = true := by
        unfold Locks.busy
        rw [hops, Std.ExtTreeMap.contains_insert_self]
      unfold Locks.busy at hin hb
      rw [hu.locks.opLocks, hb] at hin
      cases hin
  | submitted => cases h

end

/-- A manager that was just started on an empty store. -/
def Manager.fresh : Manager :=
  ⟨∅, ∅, ⟨∅, ∅, ∅, "node-1", 30, .store ∅⟩, 1, [], [], []⟩

/-- A call on one machine. -/
def Surroundings.plain : Surroundings :=
  ⟨⟨"default", "default", "default", "mysql:8.0", "perf-2shard-newproxy:latest",
      "xenon-local:latest", "/srv"⟩, ⟨0, .failed .quorum⟩, fun k => 35000 + k, 1⟩

/-- The default options with an architecture and a number of members. -/
def CreateOpts.plain (itype : String) (xenonNodes : Nat) : CreateOpts :=
  ⟨itype, 2, "", "", 1, false, "", xenonNodes, 0, "strong"⟩

/-- Ten members are refused under the lock, which stays. -/
theorem Entry.failed_touched : ¬ ∀ s m (e : Entry) msg, (exec (e.run s) m).1 = .error msg →
    Untouched m (exec (e.run s) m).2 := by
  intro hall
  let e := Entry.create "db" (.plain "xenon" 10)
  have hrun : (exec (e.run .plain) .fresh).1 = .error "xenon 节点数上限 9(lab 规模)" ∧
      (exec (e.run .plain) .fresh).2.locks.busy "db" = true := by decide +kernel
  have hfree : Manager.fresh.locks.busy "db" = false := by decide +kernel
  have huntouched := hall .plain .fresh e _ hrun.1
  have hbusy := hrun.2
  unfold Locks.busy at hbusy hfree
  rw [huntouched.locks.opLocks, hfree] at hbusy
  cases hbusy

/-- A bad name is refused before the lock. -/
theorem Entry.failed_untouched_name : ∃ msg,
    (exec ((Entry.create "no name" (.plain "async" 0)).run .plain) .fresh).1 = .error msg ∧
    Untouched .fresh (exec ((Entry.create "no name" (.plain "async" 0)).run .plain) .fresh).2 := by
  have herr : (exec ((Entry.create "no name" (.plain "async" 0)).run .plain) .fresh).1 =
      .error "实例名仅允许字母/数字/-/_" := by decide +kernel
  have hasks : (Entry.create "no name" (.plain "async" 0)).asks .fresh = none := by
    decide +kernel
  refine ⟨_, herr, (Entry.failed_untouched _ _ _ _ herr).2 ?_⟩
  rintro (⟨-, n, hn, -⟩ | ⟨n, hn, -⟩) <;> rw [hasks] at hn <;> cases hn

end Rdsctl.Inst
