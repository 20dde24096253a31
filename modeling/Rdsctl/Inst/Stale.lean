import Rdsctl.Inst.Effects
import Rdsctl.Inst.Submit

/-!
# Submissions that read early

An entry point reads and checks the record of its instance before it has the lock, so that another
operation on the instance can complete in between. `Submission` is an entry point in two parts: its
checks read one manager, and the rest of the call runs on a later one. `destroy` and `scaleout_opt`
write the record back that they have read; `replace_node` takes its server id from it; none of them
checks again.
-/

namespace Rdsctl.Inst

open Ha Dag Fallible

/-- A call of an entry point that submits a lifecycle operation. -/
inductive Submission
  | destroy (name : String)
  | scaleoutOpt (name : String) (role : Role) (region az shard : Option String)
  | replaceNode (inst node host : String)
  | migrateInstance (inst region az hostsCsv : String)
  | orchReparent (inst : String) (target : Option String) (mode : String)

namespace Submission

/-- The entry point. -/
def entry : Submission → Entry
  | .destroy name => .destroy name
  | .scaleoutOpt name role region az shard => .scaleoutOpt name role region az shard
  | .replaceNode inst node host => .replaceNode inst node host
  | .migrateInstance inst region az csv => .migrateInstance inst region az csv
  | .orchReparent inst target mode => .orchReparent inst target mode

/-- The instance it is about. -/
def inst : Submission → String
  | .destroy name => name
  | .scaleoutOpt name _ _ _ _ => name
  | .replaceNode inst _ _ => trimmed inst
  | .migrateInstance inst _ _ _ => trimmed inst
  | .orchReparent inst _ _ => trimmed inst

/-- The checks read `seen`: the rest of the call, from `lock_instance` on. -/
def afterChecks (s : Surroundings) (seen : Manager) :
    Submission → Except String (Fallible String Manager String)
  | .destroy name => (destroyCheck name seen).map fun i => destroyLocked name i s
  | .scaleoutOpt name role region az shard =>
    (scaleoutCheck name role shard seen).map fun (i, plan) =>
      scaleoutLocked name role region az i plan s
  | .replaceNode inst node host =>
    (replaceCheck (trimmed inst) (trimmed node) (trimmed host) seen).map fun i =>
      replaceLocked (trimmed inst) (trimmed node) (trimmed host) i s
  | .migrateInstance inst region az csv =>
    (migrateCheck (trimmed inst) (trimmed region) (trimmed az) (splitHosts csv) seen).map fun _ =>
      migrateLocked (trimmed inst) (trimmed region) (trimmed az) (splitHosts csv) s
  | .orchReparent inst target mode =>
    (orchReparentCheck (trimmed inst) target mode seen).map fun _ =>
      orchReparentLocked (trimmed inst) target mode s

/-- The status an instance must have. -/
def allows : Submission → InstStatus → Bool
  | .destroy _, status => status.destroyable
  | _, status => status = .running

/-- The change that the call itself makes to the record. -/
def marks : Submission → RdsInstance → RdsInstance
  | .destroy _, i => i.withStatus .destroying
  | .scaleoutOpt .., i => i.withStatus .scaling
  | .replaceNode .., i => i.withStatus .switching
  | .migrateInstance .., i => i.withStatus .switching
  | .orchReparent .., i => i

/-- The submission loses nothing of the registry `m` that it finds when it gets the lock: the record
keeps all of `m` and is marked, its status is one the call allows, and the work handed out is what
the checks would plan from `m`. -/
structure NothingLost (sub : Submission) (s : Surroundings) (m m' : Manager) : Prop where
  status : ∃ i, m.instances[sub.inst]? = some i ∧ sub.allows i.status = true
  record : m'.instances[sub.inst]? = (m.instances[sub.inst]?).map sub.marks
  planned : ∃ k, sub.afterChecks s m = .ok k ∧ m'.work = (exec k m).2.work

/-- What the checks have read is still good when the lock is obtained: for `destroy` the record is
the same up to its status, which still allows it; for `scaleout_opt` it is the same; for
`replace_node` the checks still pass, with the same highest server id; for the others the checks
still pass. -/
def StillGood (sub : Submission) (seen m : Manager) : Prop :=
  match sub with
  | .destroy name => ∃ i j, seen.instances[name]? = some i ∧ m.instances[name]? = some j ∧
      j.status.destroyable = true ∧ j.withStatus i.status = i
  | .scaleoutOpt name .. => m.instances[name]? = seen.instances[name]?
  | .replaceNode inst node host => ∃ i j, seen.instances[trimmed inst]? = some i ∧
      replaceCheck (trimmed inst) (trimmed node) (trimmed host) m = .ok j ∧
      j.name = i.name ∧ j.maxServerId = i.maxServerId
  | .migrateInstance inst region az csv =>
      migrateCheck (trimmed inst) (trimmed region) (trimmed az) (splitHosts csv) m = .ok ()
  | .orchReparent inst target mode => orchReparentCheck (trimmed inst) target mode m = .ok ()

variable {sub : Submission} {s : Surroundings} {m m' seen : Manager} {id : String}

/-- Without anything in between it is the entry point. -/
theorem run_eq (sub : Submission) (s : Surroundings) (m : Manager) :
    exec (sub.entry.run s) m =
      match sub.afterChecks s m with
      | .ok k => exec k m
      | .error e => (.error e, m) := by
  have hchecked : ∀ {α : Type} (f : Manager → Except String α) (g : α → Fallible String Manager String),
      exec (checked f >>= g) m =
        match (f m).map g with
        | .ok k => exec k m
        | .error e => (.error e, m) := by
    intro α f g
    cases hf : f m with
    | ok a => exact exec_checked_ok hf
    | error e => exact exec_checked_error hf
  cases sub with
  | destroy name => exact hchecked _ _
  | scaleoutOpt name role region az shard => exact hchecked _ _
  | replaceNode inst node host => exact hchecked _ _
  | migrateInstance inst region az csv => exact hchecked _ _
  | orchReparent inst target mode => exact hchecked _ _

/-- A call that gets its lock goes on with it. -/
theorem exec_lockFor_bind {name : String} {body : Unit → Fallible String Manager String} {l : Locks}
    (hl : exec (lockInstance name s.authority) m.locks = (.ok (), l)) :
    exec (lockFor name s >>= body) m = exec (body ()) { m with locks := l } :=
  exec_bind_ok (by rw [lockFor, exec_zoom, hl])

/-- A call that succeeds got its lock. -/
theorem lock_of_ok {name : String} {body : Unit → Fallible String Manager String}
    (h : exec (lockFor name s >>= body) m = (.ok id, m')) :
    ∃ l, exec (lockInstance name s.authority) m.locks = (.ok (), l) := by
  rcases hl : exec (lockInstance name s.authority) m.locks with ⟨reply, l⟩
  cases reply with
  | ok => exact ⟨l, rfl⟩
  | error e =>
    have herr : exec (lockFor name s >>= body) m = (.error e, { m with locks := l }) :=
      exec_bind_error (by rw [lockFor, exec_zoom, hl])
    rw [herr] at h
    cases h

theorem map_eq_ok {α β : Type} {f : α → β} {x : Except String α} {b : β} (h : x.map f = .ok b) :
    ∃ a, x = .ok a ∧ f a = b := by
  cases x with
  | error e => cases h
  | ok a => exact ⟨a, rfl, Except.ok.inj h⟩

theorem bind_eq_ok {α β : Type} {f : α → Except String β} {x : Except String α} {b : β}
    (h : (x >>= f) = .ok b) : ∃ a, x = .ok a ∧ f a = .ok b := by
  cases x with
  | error e => cases h
  | ok a => exact ⟨a, rfl, h⟩

/-- A check that throws has been passed. -/
theorem check_eq_ok {α : Type} {c : Prop} [Decidable c] {e : String} {f : Unit → Except String α} {x : α}
    (h : (if c then throw e >>= f else f ()) = .ok x) : ¬ c ∧ f () = .ok x := by
  split at h
  · cases h
  · next hc => exact ⟨hc, h⟩

theorem destroyCheck_ok {name : String} {i : RdsInstance} (h : destroyCheck name m = .ok i) :
    m.instances[name]? = some i ∧ i.status.destroyable = true := by
  unfold destroyCheck at h
  split at h
  · cases h
  · next j hj =>
    split at h
    · next hd =>
      cases h
      exact ⟨hj, hd⟩
    · cases h

theorem destroyCheck_of {name : String} {i : RdsInstance} (hi : m.instances[name]? = some i)
    (hd : i.status.destroyable = true) : destroyCheck name m = .ok i := by
  simp only [destroyCheck, hi, hd, if_true]

theorem assertState_ok {name : String} {want : InstStatus} {i : RdsInstance}
    (h : m.assertState name want = .ok i) : m.instances[name]? = some i ∧ i.status = want := by
  unfold Manager.assertState at h
  split at h
  · cases h
  · next j hj =>
    split at h
    · cases h
    · next hs =>
      cases h
      exact ⟨hj, not_ne_iff.1 hs⟩

theorem nothingLost_destroy {name : String} {k : Fallible String Manager String}
    (hread : (Submission.destroy name).afterChecks s seen = .ok k)
    (hrun : exec k m = (.ok id, m')) :
    (Submission.destroy name).NothingLost s m m' ↔
      (Submission.destroy name).StillGood seen m := by
  obtain ⟨i, hcheck, rfl⟩ := map_eq_ok hread
  obtain ⟨hseen, -⟩ := destroyCheck_ok hcheck
  obtain ⟨l, hl⟩ := lock_of_ok hrun
  have hexec : ∀ j, exec (destroyLocked name j s) m = _ := fun j => exec_lockFor_bind hl
  rw [hexec] at hrun
  have hm : m' = _ := (Prod.mk.inj hrun).2.symm
  have hafter : m'.instances[name]? = some (i.withStatus .destroying) := by
    rw [hm]
    exact (Manager.insertInstance_get _ _ _ _).trans (if_pos rfl)
  constructor
  · rintro ⟨⟨j, hj, hd⟩, hrecord, -⟩
    refine ⟨i, j, hseen, hj, hd, ?_⟩
    rw [show (Submission.destroy name).inst = name from rfl] at hj hrecord
    rw [hafter, hj, Option.map_some, Option.some.injEq] at hrecord
    have := congrArg (RdsInstance.withStatus · i.status) hrecord
    exact this.symm
  · rintro ⟨i', j, hi', hj, hd, heq⟩
    rw [hseen, Option.some.injEq] at hi'
    subst hi'
    have hsame : i.withStatus .destroying = j.withStatus .destroying := by
      rw [← heq]
      rfl
    refine ⟨⟨j, hj, hd⟩, ?_, destroyLocked name j s, ?_, ?_⟩
    · rw [show (Submission.destroy name).inst = name from rfl, hafter, hj, hsame]
      rfl
    · simp only [afterChecks, destroyCheck_of hj hd, Except.map]
    · rw [hexec, hm, hsame]
      rfl

theorem scaleoutCheck_ok {name : String} {role : Role} {shard : Option String} {i : RdsInstance}
    {plan : ScaleoutPlan} (h : scaleoutCheck name role shard m = .ok (i, plan)) :
    m.instances[name]? = some i ∧ i.status = .running := by
  unfold scaleoutCheck at h
  cases hstate : m.assertState name .running with
  | error e => rw [hstate] at h; cases h
  | ok j =>
    have hij : j = i := by
      rw [hstate] at h
      simp only [bind, Except.bind] at h
      split at h
      · cases h
      split at h
      · cases h
      split at h
      · cases h
      · cases h
        rfl
    exact hij ▸ assertState_ok hstate

/-- The checks of a scale-out read the record only. -/
theorem scaleoutCheck_congr {name : String} {role : Role} {shard : Option String}
    (h : m.instances[name]? = seen.instances[name]?) :
    scaleoutCheck name role shard m = scaleoutCheck name role shard seen := by
  simp only [scaleoutCheck, Manager.assertState, h]

theorem nothingLost_scaleout {name : String} {role : Role} {region az shard : Option String}
    {k : Fallible String Manager String}
    (hread : (Submission.scaleoutOpt name role region az shard).afterChecks s seen = .ok k)
    (hrun : exec k m = (.ok id, m')) :
    (Submission.scaleoutOpt name role region az shard).NothingLost s m m' ↔
      (Submission.scaleoutOpt name role region az shard).StillGood seen m := by
  obtain ⟨⟨i, plan⟩, hcheck, rfl⟩ := map_eq_ok hread
  obtain ⟨hseen, hrunning⟩ := scaleoutCheck_ok hcheck
  obtain ⟨l, hl⟩ := lock_of_ok hrun
  have hexec : exec (scaleoutLocked name role region az i plan s) m = _ := exec_lockFor_bind hl
  rw [hexec] at hrun
  have hm : m' = _ := (Prod.mk.inj hrun).2.symm
  have hafter : m'.instances[name]? = some (i.withStatus .scaling) := by
    rw [hm]
    exact (Manager.insertInstance_get _ _ _ _).trans (if_pos rfl)
  show _ ↔ m.instances[name]? = seen.instances[name]?
  constructor
  · rintro ⟨⟨j, hj, hd⟩, hrecord, -⟩
    rw [show (Submission.scaleoutOpt name role region az shard).inst = name from rfl] at hj hrecord
    rw [hafter, hj, Option.map_some, Option.some.injEq] at hrecord
    have hjrun : j.status = .running := by simpa [allows] using hd
    have hback := congrArg (RdsInstance.withStatus · .running) hrecord
    rw [hj, hseen]
    calc some j = some (j.withStatus j.status) := rfl
      _ = some (j.withStatus .running) := by rw [hjrun]
      _ = some (i.withStatus .running) := congrArg some hback.symm
      _ = some (i.withStatus i.status) := by rw [hrunning]
  · intro hsame
    have hi : m.instances[name]? = some i := hsame.trans hseen
    refine ⟨⟨i, hi, by simpa [allows] using hrunning⟩, ?_,
      scaleoutLocked name role region az i plan s, ?_, ?_⟩
    · rw [show (Submission.scaleoutOpt name role region az shard).inst = name from rfl, hafter, hi]
      rfl
    · simp only [afterChecks, scaleoutCheck_congr hsame, hcheck, Except.map]
    · rw [hexec, hm]
      rfl

theorem replaceCheck_ok {name node host : String} {i : RdsInstance}
    (h : replaceCheck name node host m = .ok i) :
    m.instances[name]? = some i ∧ i.status = .running := by
  unfold replaceCheck at h
  split at h
  · cases h
  obtain ⟨j, hstate, h⟩ := bind_eq_ok h
  obtain ⟨-, -, h⟩ := bind_eq_ok h
  obtain ⟨-, -, h⟩ := bind_eq_ok h
  obtain ⟨-, -, h⟩ := bind_eq_ok h
  split at h
  · cases h
  · cases h
    exact assertState_ok hstate

theorem nothingLost_replace {inst node host : String} {k : Fallible String Manager String}
    (hread : (Submission.replaceNode inst node host).afterChecks s seen = .ok k)
    (hrun : exec k m = (.ok id, m')) :
    (Submission.replaceNode inst node host).NothingLost s m m' ↔
      (Submission.replaceNode inst node host).StillGood seen m := by
  obtain ⟨i, hcheck, rfl⟩ := map_eq_ok hread
  obtain ⟨hseen, -⟩ := replaceCheck_ok hcheck
  obtain ⟨l, hl⟩ := lock_of_ok hrun
  have hexec : ∀ j, exec (replaceLocked (trimmed inst) (trimmed node) (trimmed host) j s) m = _ :=
    fun j => exec_lockFor_bind hl
  rw [hexec] at hrun
  have hm : m' = _ := (Prod.mk.inj hrun).2.symm
  have hafter : m'.instances[trimmed inst]? =
      (m.instances[trimmed inst]?).map (·.withStatus .switching) := by
    rw [hm]
    exact (Manager.alterInstance_get _ _ _ _).trans (if_pos rfl)
  have hwork : ∀ j, (exec (replaceLocked (trimmed inst) (trimmed node) (trimmed host) j s) m).2.work =
      m.work ++ [.task ("t-replace_node-" ++ toString s.seq) "replace_node" (trimmed inst)
        (replaceNodes j.name (trimmed node) (trimmed host) (s.ports 0) (j.maxServerId + 1))
        .task] := by
    intro j
    rw [hexec]
    exact congrArg (· ++ _) (Manager.alterInstance_work _ _ _)
  have hplan : m'.work = (exec (replaceLocked (trimmed inst) (trimmed node) (trimmed host) i s) m).2.work := by
    rw [hexec, hm]
    rfl
  constructor
  · rintro ⟨-, -, k, hk, hsame⟩
    obtain ⟨j, hj, rfl⟩ := map_eq_ok hk
    refine ⟨i, j, hseen, hj, ?_⟩
    rw [hplan, hwork, hwork, List.append_cancel_left_eq] at hsame
    simp only [replaceNodes, simpleNode, List.cons.injEq, Work.task.injEq, TaskNode.mk.injEq,
      Step.replaceNodeCore.injEq, Nat.add_right_cancel_iff] at hsame
    exact ⟨hsame.1.2.2.2.1.1.2.2.2.2.2.1.1.symm, hsame.1.2.2.2.1.1.2.2.2.2.2.1.2.2.2.2.symm⟩
  · rintro ⟨i', j, hi', hj, hname, hmax⟩
    rw [hseen, Option.some.injEq] at hi'
    subst hi'
    obtain ⟨hfound, hrunning⟩ := replaceCheck_ok hj
    refine ⟨⟨j, hfound, by simpa [allows] using hrunning⟩, hafter,
      replaceLocked (trimmed inst) (trimmed node) (trimmed host) j s, ?_, ?_⟩
    · simp only [afterChecks, hj, Except.map]
    · rw [hplan, hwork, hwork, hname, hmax]

/-- A check that passes found an instance that is running. -/
theorem migrateCheck_running {name region az : String} {hosts : List String}
    (h : migrateCheck name region az hosts m = .ok ()) :
    ∃ i, m.instances[name]? = some i ∧ i.status = .running := by
  unfold migrateCheck at h
  replace h : (if region = "" ∨ az = "" then .error _ else if hosts = [] then .error _ else
    m.assertState name .running >>= fun i => _) = .ok () := h
  split at h
  · cases h
  split at h
  · cases h
  obtain ⟨i, hstate, -⟩ := bind_eq_ok h
  exact ⟨i, assertState_ok hstate⟩

theorem orchReparentCheck_running {name mode : String} {target : Option String}
    (h : orchReparentCheck name target mode m = .ok ()) :
    ∃ i, m.instances[name]? = some i ∧ i.status = .running := by
  unfold orchReparentCheck at h
  replace h : (if name = "" then .error _ else
    if (m.instances[name]?).any (·.itype = "xenon") then .error _ else
    if mode ∉ ["auto", "planned"] then .error _ else
    m.assertState name .running >>= fun i => _) = .ok () := h
  split at h
  · cases h
  split at h
  · cases h
  split at h
  · cases h
  obtain ⟨i, hstate, -⟩ := bind_eq_ok h
  exact ⟨i, assertState_ok hstate⟩

theorem nothingLost_migrate {inst region az csv : String} {k : Fallible String Manager String}
    (hread : (Submission.migrateInstance inst region az csv).afterChecks s seen = .ok k)
    (hrun : exec k m = (.ok id, m')) :
    (Submission.migrateInstance inst region az csv).NothingLost s m m' ↔
      (Submission.migrateInstance inst region az csv).StillGood seen m := by
  obtain ⟨-, -, rfl⟩ := map_eq_ok hread
  have hm : m' = (exec (migrateLocked (trimmed inst) (trimmed region) (trimmed az)
      (splitHosts csv) s) m).2 := by rw [hrun]
  constructor
  · rintro ⟨-, -, k, hk, -⟩
    exact (map_eq_ok hk).choose_spec.1
  · intro hcheck
    obtain ⟨j, hj, hrunning⟩ := migrateCheck_running hcheck
    refine ⟨⟨j, hj, by simpa [allows] using hrunning⟩, ?_, _,
      by simp only [afterChecks, show migrateCheck _ _ _ _ m = .ok () from hcheck, Except.map]; rfl,
      by rw [hm]⟩
    obtain ⟨l, hl⟩ := lock_of_ok hrun
    rw [hm, migrateLocked, exec_lockFor_bind hl]
    exact (Manager.alterInstance_get _ _ _ _).trans (if_pos rfl)

theorem nothingLost_reparent {inst mode : String} {target : Option String}
    {k : Fallible String Manager String}
    (hread : (Submission.orchReparent inst target mode).afterChecks s seen = .ok k)
    (hrun : exec k m = (.ok id, m')) :
    (Submission.orchReparent inst target mode).NothingLost s m m' ↔
      (Submission.orchReparent inst target mode).StillGood seen m := by
  obtain ⟨-, -, rfl⟩ := map_eq_ok hread
  have hm : m' = (exec (orchReparentLocked (trimmed inst) target mode s) m).2 := by rw [hrun]
  constructor
  · rintro ⟨-, -, k, hk, -⟩
    exact (map_eq_ok hk).choose_spec.1
  · intro hcheck
    obtain ⟨j, hj, hrunning⟩ := orchReparentCheck_running hcheck
    refine ⟨⟨j, hj, by simpa [allows] using hrunning⟩, ?_, _,
      by simp only [afterChecks, show orchReparentCheck _ _ _ m = .ok () from hcheck, Except.map]; rfl,
      by rw [hm]⟩
    obtain ⟨l, hl⟩ := lock_of_ok hrun
    rw [hm, orchReparentLocked, exec_lockFor_bind hl]
    exact Option.map_id'.symm

/-- **Submitting loses no registry change**, exactly when what the checks have read is still good
when the lock is obtained. -/
theorem nothingLost_iff (sub : Submission) (s : Surroundings) (seen m m' : Manager) (id : String)
    (k : Fallible String Manager String) (hread : sub.afterChecks s seen = .ok k)
    (hrun : exec k m = (.ok id, m')) : sub.NothingLost s m m' ↔ sub.StillGood seen m := by
  cases sub with
  | destroy => exact nothingLost_destroy hread hrun
  | scaleoutOpt => exact nothingLost_scaleout hread hrun
  | replaceNode => exact nothingLost_replace hread hrun
  | migrateInstance => exact nothingLost_migrate hread hrun
  | orchReparent => exact nothingLost_reparent hread hrun

/-- An instance with three nodes has been created. -/
def created : Manager :=
  ((exec (Inst.create "db" (.plain "async" 0) .plain) .fresh).2.updateInstanceStatus "db" "running").unlock
    "db" (.failed .quorum)

/-- A fourth node has joined it. -/
def scaledOut : Manager :=
  (((exec (Inst.scaleoutOpt "db" .read none none none .plain) created).2.updateInstanceTopology "db"
    "rds-db-slave-3" "read" 35000 4 "" "" "" "").updateInstanceStatus "db" "running").unlock
      "db" (.failed .quorum)

/-- `destroy` with nothing in between loses nothing. -/
theorem nothingLost_alone : ∃ m' id k, (Submission.destroy "db").afterChecks .plain created = .ok k ∧
    exec k created = (.ok id, m') ∧ (Submission.destroy "db").NothingLost .plain created m' := by
  have hfound : ((created.instances["db"]?).map (·.status)) = some .running := by decide +kernel
  obtain ⟨i, hi, hstatus⟩ := Option.map_eq_some_iff.1 hfound
  have hd : i.status.destroyable = true := by rw [hstatus]; rfl
  have hread : (Submission.destroy "db").afterChecks .plain created =
      .ok (destroyLocked "db" i .plain) := by
    simp only [afterChecks, destroyCheck_of hi hd, Except.map]
  have hok : (exec (lockInstance "db" Surroundings.plain.authority) created.locks).1 = .ok () := by
    decide +kernel
  have hlock : exec (lockInstance "db" Surroundings.plain.authority) created.locks =
      (.ok (), (exec (lockInstance "db" Surroundings.plain.authority) created.locks).2) :=
    Prod.ext hok rfl
  have hrun : exec (destroyLocked "db" i .plain) created =
      (.ok "t-destroy-1", (exec (destroyLocked "db" i .plain) created).2) :=
    Prod.ext (by rw [destroyLocked, exec_lockFor_bind hlock]; rfl) rfl
  exact ⟨_, _, _, hread, hrun, (nothingLost_iff _ _ _ _ _ _ _ hread hrun).2 ⟨i, i, hi, hi, hd, rfl⟩⟩

/-- A scale-out completes before `destroy` has its lock: the record of `destroy` is without the new
node. -/
theorem node_lost : ¬ ∀ (sub : Submission) s seen m m' id k, sub.afterChecks s seen = .ok k →
    exec k m = (.ok id, m') → sub.NothingLost s m m' := by
  intro hall
  have hfound : ((created.instances["db"]?).map fun i => (i.status, i.nodes.length)) =
      some (.running, 3) := by decide +kernel
  obtain ⟨i, hi, hthree⟩ := Option.map_eq_some_iff.1 hfound
  obtain ⟨hstatus, hthree⟩ := Prod.mk.inj hthree
  have hread : (Submission.destroy "db").afterChecks .plain created =
      .ok (destroyLocked "db" i .plain) := by
    simp only [afterChecks, destroyCheck_of hi (by rw [hstatus]; rfl), Except.map]
  have hok : (exec (lockInstance "db" Surroundings.plain.authority) scaledOut.locks).1 = .ok () := by
    decide +kernel
  have hlock : exec (lockInstance "db" Surroundings.plain.authority) scaledOut.locks =
      (.ok (), (exec (lockInstance "db" Surroundings.plain.authority) scaledOut.locks).2) :=
    Prod.ext hok rfl
  have hrun : exec (destroyLocked "db" i .plain) scaledOut =
      (.ok "t-destroy-1", (exec (destroyLocked "db" i .plain) scaledOut).2) :=
    Prod.ext (by rw [destroyLocked, exec_lockFor_bind hlock]; rfl) rfl
  obtain ⟨i', j, hi', hj, -, heq⟩ :=
    (nothingLost_destroy hread hrun).1 (hall _ _ _ _ _ _ _ hread hrun)
  rw [hi, Option.some.injEq] at hi'
  subst hi'
  have hfour : (scaledOut.instances["db"]?).map (·.nodes.length) = some 4 := by decide +kernel
  rw [hj, Option.map_some, Option.some.injEq] at hfour
  have hsame : i.nodes.length = j.nodes.length := by
    rw [← heq]
    rfl
  omega

end Submission

end Rdsctl.Inst
