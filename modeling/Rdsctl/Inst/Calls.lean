import Rdsctl.Inst.Records

/-!
# What calls do to a registry

A call of an entry point leaves the records as they are and hands out work that it planned from them,
or it is a creation that is accepted and adds the record that it planned, or it changes nothing.
-/

namespace Rdsctl.Inst

open Ha Dag Fallible

/-- The plans of a creation, from the server id that it draws first. -/
inductive Planned (s : Surroundings) (sid : Nat) (name : String) (o : CreateOpts) :
    RdsInstance × List (TaskNode Step) → Prop
  | xenon {plan : RdsInstance × List (TaskNode Step)} {ports : Nat → Nat} (hx : o.itype = "xenon")
      (h : buildXenonInst s.process name o (sid + 10) ("rds-" ++ name) ports = .ok plan) :
      Planned s sid name o plan
  | multi {ports : Nat → Nat} (hx : o.itype ≠ "xenon") (hm : isMulti o = true) :
      Planned s sid name o
        (buildMultiInst s.process name o (shardCount o) (sid + 10) ("rds-" ++ name)
          (proxyNodeList name (proxyCount o) s.ports) (lvsName name) (s.ports (2 * proxyCount o))
          ports)
  | single {ports : Nat → Nat} (hx : o.itype ≠ "xenon") (hm : isMulti o = false) :
      Planned s sid name o
        (buildSingleInst s.process name o ("rds-" ++ name) sid
          (proxyNodeList name (proxyCount o) s.ports) (lvsName name) (s.ports (2 * proxyCount o))
          ports)

/-- The work that a call hands out for an instance that exists. -/
inductive Hands (s : Surroundings) (m : Manager) : Entry → Work → Prop
  | destroy {name id : String} {i : RdsInstance} (h : destroyCheck name m = .ok i) :
      Hands s m (.destroy name)
        (.task id "destroy" name (destroyNodes name (i.withStatus .destroying)) .task)
  | scaleout {name id : String} {role : Role} {region az shard : Option String} {i : RdsInstance}
      {plan : ScaleoutPlan} (h : scaleoutCheck name role shard m = .ok (i, plan)) :
      Hands s m (.scaleoutOpt name role region az shard)
        (.task id "scaleout" name (scaleoutNodes s.process name i.network plan (s.ports 0) role
          (region.getD "") (az.getD "")) .task)
  | replace {inst node host id : String} {i : RdsInstance}
      (h : replaceCheck (trimmed inst) (trimmed node) (trimmed host) m = .ok i) :
      Hands s m (.replaceNode inst node host)
        (.task id "replace_node" (trimmed inst) (replaceNodes i.name (trimmed node) (trimmed host)
          (s.ports 0) (i.maxServerId + 1)) .task)
  | migrate {inst region az csv id : String}
      (h : migrateCheck (trimmed inst) (trimmed region) (trimmed az) (splitHosts csv) m = .ok ()) :
      Hands s m (.migrateInstance inst region az csv)
        (.task id "migrate" (trimmed inst) (migrateNodes (trimmed inst) (trimmed region)
          (trimmed az) (",".intercalate (splitHosts csv))) .task)
  | backup {name mc id : String} :
      Hands s m (.runBackup name) (.task id "backup" name (backupNodes name mc) .backup)
  | reparent {inst mode opId : String} {target : Option String}
      (h : orchReparentCheck (trimmed inst) target mode m = .ok ()) :
      Hands s m (.orchReparent inst target mode)
        (.reparent (trimmed inst) (target.filter (· ≠ "")) mode opId)
  | rollback {inst prev opId : String}
      (h : orchRollbackCheck (trimmed inst) m = .ok (prev, false)) :
      Hands s m (.orchRollback inst) (.reparent (trimmed inst) (some prev) "auto" opId)

/-- What a call does. -/
inductive CallTurn (s : Surroundings) (m : Manager) (e : Entry) : Manager → Prop
  | kept {m' : Manager} (hi : m'.instances = m.instances) (hp : m'.persisted = m.persisted)
      (hw : m'.work = m.work) : CallTurn s m e m'
  | created {name n : String} {o : CreateOpts} {i : RdsInstance} {dag : List (TaskNode Step)}
      {m' : Manager} (id : String) (he : e = .create name o) (hc : createCheck name o m = .ok n)
      (hplan : Planned s m.nextServerId n o (i, dag)) (hi : m'.instances = m.instances.insert n i)
      (hp : m'.persisted = (m.insertInstance n i).persist.persisted)
      (hw : m'.work = m.work ++ [.task id "create" n (createGraph n o i dag) .task]) :
      CallTurn s m e m'
  | handed {w : Work} {m' : Manager} (hh : Hands s m e w)
      (hrecords : ∀ k, m'.records k = m.records k) (hsound : m.Sound → m'.Sound)
      (hw : m'.work = m.work ++ [w]) : CallTurn s m e m'

section

variable {s : Surroundings} {m : Manager} {e : Entry}

/-- A call that gets its lock, or changes nothing but the locks. -/
theorem CallTurn.of_locked {name : String} {body : Unit → Fallible String Manager String}
    (h : ∀ l, CallTurn s m e (exec (body ()) { m with locks := l }).2) :
    CallTurn s m e (exec (lockFor name s >>= body) m).2 := by
  rcases hl : exec (lockInstance name s.authority) m.locks with ⟨reply, l⟩
  have hlock : exec (lockFor name s) m = (reply, { m with locks := l }) := by
    rw [lockFor, exec_zoom, hl]
  cases reply with
  | error msg =>
    rw [exec_bind_error hlock]
    exact .kept rfl rfl rfl
  | ok =>
    rw [exec_bind_ok hlock]
    exact h l

/-- A call that checks first. -/
theorem CallTurn.of_checked {α : Type} {check : Manager → Except String α}
    {body : α → Fallible String Manager String}
    (h : ∀ a, check m = .ok a → CallTurn s m e (exec (body a) m).2) :
    CallTurn s m e (exec (checked check >>= body) m).2 := by
  cases hc : check m with
  | error msg =>
    rw [exec_checked_error hc]
    exact .kept rfl rfl rfl
  | ok a =>
    rw [exec_checked_ok hc]
    exact h a hc

/-- A call that hands out work after it has written. -/
theorem CallTurn.of_written {w : Work} {m' : Manager} (m₁ : Manager) (hh : Hands s m e w)
    (hrecords : ∀ k, m₁.records k = m.records k) (hsound : m.Sound → m₁.Sound)
    (hi : m'.instances = m₁.instances) (hp : m'.persisted = m₁.persisted)
    (hw : m'.work = m.work ++ [w]) : CallTurn s m e m' := by
  refine .handed hh (fun k => ?_) (fun h => (hsound h).congr hi hp) hw
  rw [← hrecords k, Manager.records, hi]
  rfl

theorem sound_locks (h : m.Sound) (l : Locks) : Manager.Sound { m with locks := l } :=
  h.congr rfl rfl

theorem alive_of_running {i : RdsInstance} (h : i.status = .running) : i.alive = true := by
  unfold RdsInstance.alive
  rw [h]
  rfl

/-- A record that is inserted again with another status. -/
theorem records_insert_status {name : String} {i : RdsInstance} (l : Locks)
    (hi : m.instances[name]? = some i) {status : InstStatus}
    (halive : (i.withStatus status).alive = i.alive) (k : String) :
    (Manager.insertInstance { m with locks := l } name (i.withStatus status)).persist.records k =
      m.records k := by
  rw [Manager.records_insert]
  split
  · next heq =>
    rw [← heq, Manager.records, hi, Option.map_some]
    unfold RdsInstance.core
    rw [halive]
    rfl
  · rfl

theorem sound_insert_status {name : String} {i : RdsInstance} (l : Locks)
    (hi : m.instances[name]? = some i) (status : InstStatus) (h : m.Sound) :
    (Manager.insertInstance { m with locks := l } name (i.withStatus status)).persist.Sound :=
  (sound_locks h l).insert (h.named name i hi)

/-- A record that gets the status of a switch. -/
def markSwitching (m : Manager) (name : String) : Manager :=
  (m.alterInstance name (·.withStatus .switching)).persist

theorem records_markSwitching {m : Manager} {name : String} {i : RdsInstance} (l : Locks)
    (hi : m.instances[name]? = some i) (halive : i.alive = true) (k : String) :
    (markSwitching { m with locks := l } name).records k = m.records k := by
  unfold markSwitching
  rw [Manager.records_alter]
  split
  · next heq =>
    show ((m.instances[k]?).map fun i => (i.withStatus .switching).core) = _
    rw [← heq, Manager.records, hi, Option.map_some, Option.map_some]
    unfold RdsInstance.core
    rw [halive]
    rfl
  · rfl

theorem sound_markSwitching (h : m.Sound) (name : String) : (markSwitching m name).Sound :=
  h.alter fun _ => rfl

theorem exec_planCreate (name : String) (o : CreateOpts) (s : Surroundings) (m : Manager) :
    (∃ msg m', exec (planCreate name o s) m = (.error msg, m') ∧ m'.instances = m.instances ∧
      m'.persisted = m.persisted ∧ m'.work = m.work) ∨
    ∃ plan m', exec (planCreate name o s) m = (.ok plan, m') ∧ Planned s m.nextServerId name o plan ∧
      m'.instances = m.instances ∧ m'.persisted = m.persisted ∧ m'.work = m.work := by
  unfold planCreate
  simp only [exec_drawServerIds_bind]
  by_cases hx : o.itype = "xenon"
  · rw [if_pos hx]
    cases hb : buildXenonInst s.process name o (m.nextServerId + 10) ("rds-" ++ name)
      (fun k => s.ports (2 * proxyCount o + 1 + k)) with
    | error msg => exact .inl ⟨msg, _, rfl, rfl, rfl, rfl⟩
    | ok plan => exact .inr ⟨plan, _, rfl, .xenon hx hb, rfl, rfl, rfl⟩
  · rw [if_neg hx]
    cases hm : isMulti o with
    | true => exact .inr ⟨_, _, rfl, .multi hx hm, rfl, rfl, rfl⟩
    | false => exact .inr ⟨_, _, rfl, .single hx hm, rfl, rfl, rfl⟩

theorem create_callTurn (s : Surroundings) (m : Manager) (name : String) (o : CreateOpts) :
    CallTurn s m (.create name o) (exec (create name o s) m).2 := by
  refine .of_checked fun n hc => .of_locked fun l => ?_
  rcases exec_planCreate n o s { m with locks := l } with
    ⟨msg, m', heq, hi, hp, hw⟩ | ⟨plan, m', heq, hplan, hi, hp, hw⟩
  · rw [exec_bind_error heq]
    exact .kept hi hp hw
  · obtain ⟨i, dag⟩ := plan
    rw [exec_bind_ok heq]
    refine .created ("t-create-" ++ toString s.seq) rfl hc hplan ?_ ?_ ?_
    · show m'.instances.insert n i = _
      rw [hi]
    · show ((m'.insertInstance n i).persist).persisted = _
      unfold Manager.persist Manager.insertInstance
      dsimp only
      rw [hi, hp]
    · show m'.work ++ _ = _
      rw [hw]
      rfl

/-- What a call of an entry point does. -/
theorem Entry.run_callTurn (s : Surroundings) (m : Manager) (e : Entry) :
    CallTurn s m e (exec (e.run s) m).2 := by
  cases e with
  | create name o => exact create_callTurn s m name o
  | destroy name =>
    refine .of_checked fun i hc => .of_locked fun l => ?_
    obtain ⟨hi, hd⟩ := Submission.destroyCheck_ok hc
    have halive : (i.withStatus .destroying).alive = i.alive := by
      refine (decide_eq_true (fun heq => ?_) : i.alive = true).symm
      rw [heq] at hd
      cases hd
    exact .of_written (Manager.insertInstance { m with locks := l } name (i.withStatus .destroying)).persist
      (.destroy hc) (records_insert_status l hi halive) (sound_insert_status l hi _) rfl rfl rfl
  | scaleoutOpt name role region az shard =>
    refine .of_checked fun ⟨i, plan⟩ hc => .of_locked fun l => ?_
    obtain ⟨hi, hrunning⟩ := Submission.scaleoutCheck_ok hc
    have halive : (i.withStatus .scaling).alive = i.alive := (alive_of_running hrunning).symm
    exact .of_written (Manager.insertInstance { m with locks := l } name (i.withStatus .scaling)).persist
      (.scaleout hc) (records_insert_status l hi halive) (sound_insert_status l hi _) rfl rfl rfl
  | replaceNode inst node host =>
    refine .of_checked fun i hc => .of_locked fun l => ?_
    obtain ⟨hi, hrunning⟩ := Submission.replaceCheck_ok hc
    exact .of_written (markSwitching { m with locks := l } (trimmed inst)) (.replace hc)
      (records_markSwitching l hi (alive_of_running hrunning))
      (fun h => sound_markSwitching (sound_locks h l) _) rfl rfl
      (congrArg (· ++ _) (Manager.alterInstance_work _ _ _))
  | migrateInstance inst region az csv =>
    refine .of_checked fun _ hc => .of_locked fun l => ?_
    obtain ⟨i, hi, hrunning⟩ := Submission.migrateCheck_running hc
    exact .of_written (markSwitching { m with locks := l } (trimmed inst)) (.migrate hc)
      (records_markSwitching l hi (alive_of_running hrunning))
      (fun h => sound_markSwitching (sound_locks h l) _) rfl rfl
      (congrArg (· ++ _) (Manager.alterInstance_work _ _ _))
  | runBackup name =>
    exact .of_checked fun mc _ => .of_locked fun l =>
      .handed .backup (fun _ => rfl) (fun h => h.congr rfl rfl) rfl
  | orchReparent inst target mode =>
    exact .of_checked fun _ hc => .of_locked fun l =>
      .handed (.reparent hc) (fun _ => rfl) (fun h => h.congr rfl rfl) rfl
  | orchRollback inst =>
    refine .of_checked fun ⟨prev, noop⟩ hc => ?_
    cases noop with
    | true => exact .kept rfl rfl rfl
    | false =>
      exact .of_locked fun l => .handed (.rollback hc) (fun _ => rfl) (fun h => h.congr rfl rfl) rfl

end

end Rdsctl.Inst
