import Rdsctl.Inst.Effects
import Rdsctl.Lib.Run

/-!
# The health sweep among the operations

`sweep_once` copies the running and degraded instances, checks the operation lock of each once, and
after many awaits writes a status through `set_status`. Operations check a record, take the lock,
write a status of their own and submit a task, whose steps and whose watcher write statuses as well.
`Fleet` lets all of them take their steps in any order. `Fleet.Tidy` says when the sweep finds at
its write what it found at its check, and when no operation runs past the end of a destruction.
-/

namespace Rdsctl.Inst

open Ha

/-! ## Operations -/

/-- The operations on an instance, as far as they write its status; `switch` is `replace_node` and
`migrate_instance`, `plain` one that leaves the status alone. -/
inductive OpKind
  | create
  | destroy
  | scaleout
  | switch
  | reparent
  | plain
deriving DecidableEq, Repr

/-- Where an operation is. -/
inductive OpStage
  /-- The record has been checked. -/
  | checked
  /-- The lock has been taken. -/
  | locked
  /-- The task has been submitted; the watcher runs. -/
  | submitted
  /-- The watcher has seen the task fail and given the lock back. -/
  | failing
  /-- The watcher is gone. -/
  | over
  /-- The operation has been refused. -/
  | refused
deriving DecidableEq, Repr

/-- An operation with the record it has checked, or is to insert. -/
structure LifeOp where
  kind : OpKind
  record : RdsInstance
  stage : OpStage

namespace LifeOp

/-- The instance. -/
def inst (op : LifeOp) : String := op.record.name

/-- Between `lock_instance` and `unlock_instance`. -/
def holds (op : LifeOp) : Bool := op.stage = .locked || op.stage = .submitted

/-- An operation that holds the lock and has still to write a status other than `destroyed`. -/
def writing (op : LifeOp) : Bool :=
  op.holds && op.kind ≠ .plain && !(op.kind = .destroy && op.stage = .submitted)

/-- The task of the operation is there. -/
def hasTask (op : LifeOp) : Bool :=
  op.stage = .submitted || op.stage = .failing || op.stage = .over

end LifeOp

/-- The statuses of a record that an operation accepts in its checks. -/
def OpKind.admits : OpKind → InstStatus → Bool
  | .create, _ => false
  | .destroy, st => st.destroyable
  | .scaleout, st | .switch, st | .reparent, st => st = .running
  | .plain, _ => true

/-- The statuses that the tasks name in `UpdateInstanceStatus`. -/
def OpKind.steps : OpKind → List String
  | .create | .scaleout | .switch => ["running"]
  | .destroy => ["destroyed"]
  | .reparent | .plain => []

/-- Whether `watch_task` follows the task and marks a failure in the record. -/
def OpKind.watched : OpKind → Bool
  | .create | .destroy | .scaleout | .switch => true
  | .reparent | .plain => false

/-! ## The sweep -/

/-- Where the sweep is: at rest, going through the copies, or looking at one of them with the
problems it has found. -/
inductive Sweeper
  | idle
  | scanning (rest : List RdsInstance)
  | looking (i : RdsInstance) (problems : List String) (rest : List RdsInstance)

/-- The copies that a sweep has still to judge. -/
def Sweeper.pending : Sweeper → List RdsInstance
  | idle => []
  | scanning rest => rest
  | looking i _ rest => i :: rest

/-- An instance that the sweep looks at. -/
def RdsInstance.swept (i : RdsInstance) : Bool :=
  !"demo-".toList.isPrefixOf i.network.toList && (i.status = .running || i.status = .degraded)

/-- What the sweep writes for a copy with these problems, if anything. -/
def RdsInstance.verdict (i : RdsInstance) (problems : List String) : Option (InstStatus × String) :=
  if problems = [] then
    if i.status = .degraded then some (.running, "") else none
  else
    let msg := "; ".intercalate problems
    if i.status = .running then some (.degraded, msg)
    else if i.lastError ≠ msg then some (.degraded, msg)
    else none

/-- `set_status` on a record. -/
def RdsInstance.setStatus (i : RdsInstance) (status : InstStatus) (lastError : String) :
    RdsInstance :=
  { i with status := status, lastError := if lastError = "" then i.lastError else lastError }

/-- What is recorded of the statuses: a write, or the copy that a sweep starts from. -/
inductive StatusMark
  | wrote (x : String) (status : InstStatus)
  | scanned
deriving DecidableEq, Repr

/-- The last status written to an instance since the last scan. -/
def leftSince (x : String) : List StatusMark → Option InstStatus
  | [] => none
  | .wrote y st :: log => if y = x then some st else leftSince x log
  | .scanned :: _ => none

/-- The manager with its operations and its sweep. -/
structure Fleet where
  instances : BTreeMap String RdsInstance
  opLocks : List String
  ops : List LifeOp
  sweeper : Sweeper
  log : List StatusMark

inductive FleetEvent
  /-- An operation passes its checks; `i` names the instance, and is the record to be created. -/
  | check (kind : OpKind) (i : RdsInstance)
  | lock (o : Nat)
  /-- The lock is refused, or the operation fails before it has submitted its task. -/
  | refuse (o : Nat)
  /-- The record is written and the task submitted. -/
  | submit (o : Nat)
  /-- An `UpdateInstanceStatus` step of the task, also when a failed task is rerun. -/
  | status (o : Nat) (status : String)
  /-- `run_reparent` fails. -/
  | switchFailed (o : Nat) (e : String)
  /-- The watcher sees the end of the task. -/
  | finish (o : Nat) (failed : Bool)
  /-- The watcher marks the failure. -/
  | fail (o : Nat) (taskId : String)
  /-- The watcher sees that the lease is lost. -/
  | lost (o : Nat) (reason : String)
  /-- `refresh_from_sink` at one row. -/
  | refresh (fresh : RdsInstance)
  | delete (x : String)
  | scan
  /-- The sweep takes the next copy and checks its lock. -/
  | next
  | found (problem : String)
  /-- `auto_failover_if_needed` starts a switch. -/
  | failover
  /-- The sweep writes its verdict. -/
  | judge

namespace Fleet

/-- The status of an instance. -/
def statusOf (s : Fleet) (x : String) : Option InstStatus := (s.instances[x]?).map (·.status)

/-- Write a record. -/
def put (s : Fleet) (i : RdsInstance) : Fleet :=
  { s with
    instances := s.instances.insert i.name i
    log := .wrote i.name i.status :: s.log }

/-- Alter a record that is there. -/
def alter (s : Fleet) (x : String) (f : RdsInstance → RdsInstance) : Fleet :=
  match s.instances[x]? with
  | some i => s.put (f i)
  | none => s

/-- Move an operation. -/
def move (s : Fleet) (o : Nat) (op : LifeOp) (stage : OpStage) : Fleet :=
  { s with ops := s.ops.set o { op with stage := stage } }

/-- `op_locks.insert` -/
def insertLock (s : Fleet) (x : String) : Fleet := { s with opLocks := x :: s.opLocks }

/-- `op_locks.remove` -/
def removeLock (s : Fleet) (x : String) : Fleet :=
  { s with opLocks := s.opLocks.filter (· ≠ x) }

/-- The record that an operation writes once it has the lock. -/
def enter (s : Fleet) (op : LifeOp) : Fleet :=
  match op.kind with
  | .create => s.put (op.record.withStatus .creating)
  | .destroy => s.put (op.record.withStatus .destroying)
  | .scaleout => s.put (op.record.withStatus .scaling)
  | .switch => s.alter op.inst (·.withStatus .switching)
  | .reparent | .plain => s

/-- A watcher marks a failure. -/
def markFailed (s : Fleet) (x msg : String) : Fleet :=
  s.alter x fun i => if i.status = .destroyed then i else
    { i with status := .failed, lastError := msg }

/-- `run_reparent` marks a failure. -/
def markDegraded (s : Fleet) (x e : String) : Fleet :=
  s.alter x fun i =>
    { i with
      status := .degraded
      lastError := if "切换".toList <:+: i.lastError.toList then i.lastError
        else "受管切换失败:" ++ e }

def step (s : Fleet) : FleetEvent → Option Fleet
  | .check kind i =>
    match s.instances[i.name]? with
    | none => if kind = .create then some { s with ops := s.ops ++ [⟨kind, i, .checked⟩] } else none
    | some cur =>
      if kind.admits cur.status then some { s with ops := s.ops ++ [⟨kind, cur, .checked⟩] }
      else none
  | .lock o =>
    match s.ops[o]? with
    | some op =>
      if op.stage = .checked ∧ op.inst ∉ s.opLocks then
        some ((s.move o op .locked).insertLock op.inst)
      else none
    | none => none
  | .refuse o =>
    match s.ops[o]? with
    | some op =>
      if op.stage = .checked then some (s.move o op .refused)
      else if op.stage = .locked then some ((s.move o op .refused).removeLock op.inst)
      else none
    | none => none
  | .submit o =>
    match s.ops[o]? with
    | some op => if op.stage = .locked then some ((s.enter op).move o op .submitted) else none
    | none => none
  | .status o status =>
    match s.ops[o]? with
    | some op =>
      if op.hasTask ∧ status ∈ op.kind.steps then
        some (s.alter op.inst (·.withStatus (statusNamed status)))
      else none
    | none => none
  | .switchFailed o e =>
    match s.ops[o]? with
    | some op =>
      if op.kind = .reparent ∧ op.stage = .submitted then some (s.markDegraded op.inst e) else none
    | none => none
  | .finish o failed =>
    match s.ops[o]? with
    | some op =>
      if op.stage = .submitted then
        some ((s.move o op (if failed ∧ op.kind.watched then .failing else .over)).removeLock op.inst)
      else none
    | none => none
  | .fail o taskId =>
    match s.ops[o]? with
    | some op =>
      if op.stage = .failing then
        some ((s.markFailed op.inst ("任务 " ++ taskId ++ " 失败(实例状态机已置为失败)")).move o op
          .over)
      else none
    | none => none
  | .lost o reason =>
    match s.ops[o]? with
    | some op =>
      if op.stage = .submitted ∧ op.kind.watched then
        some (((s.markFailed op.inst ("失去共识租约:" ++ reason)).move o op .over).removeLock op.inst)
      else none
    | none => none
  | .refresh fresh =>
    if fresh.name ∈ s.opLocks then none
    else
      match s.instances[fresh.name]? with
      | some cur =>
        some (s.put { cur with status := fresh.status, lastError := fresh.lastError })
      | none => some (s.put fresh)
  | .delete x =>
    match s.instances[x]? with
    | some i =>
      if i.status = .destroyed then some { s with instances := s.instances.erase x } else none
    | none => none
  | .scan =>
    match s.sweeper with
    | .idle =>
      some { s with
        sweeper := .scanning (s.instances.values.filter (·.swept))
        log := .scanned :: s.log }
    | _ => none
  | .next =>
    match s.sweeper with
    | .scanning [] => some { s with sweeper := .idle }
    | .scanning (i :: rest) =>
      some { s with
        sweeper := if i.name ∈ s.opLocks then .scanning rest else .looking i [] rest }
    | _ => none
  | .found problem =>
    match s.sweeper with
    | .looking i problems rest =>
      some { s with sweeper := .looking i (problems ++ [problem]) rest }
    | _ => none
  | .failover =>
    match s.sweeper with
    | .looking i _ _ =>
      match s.instances[i.name]? with
      | some cur =>
        if i.itype ≠ "xenon" ∧ i.enabled ∧ i.name ∉ s.opLocks ∧ cur.status = .running ∧
            cur.enabled then
          some { s with
            opLocks := i.name :: s.opLocks
            ops := s.ops ++ [⟨.reparent, cur, .submitted⟩] }
        else none
      | none => none
    | _ => none
  | .judge =>
    match s.sweeper with
    | .looking i problems rest =>
      let s := { s with sweeper := .scanning rest }
      match i.verdict problems with
      | some (status, lastError) => some (s.alter i.name (·.setStatus status lastError))
      | none => some s
    | _ => none

/-- Nothing has been done yet: some instances that lie under their names. -/
structure Initial (s : Fleet) : Prop where
  named : ∀ {x} {i : RdsInstance}, s.instances[x]? = some i → i.name = x
  opLocks : s.opLocks = []
  ops : s.ops = []
  sweeper : s.sweeper = .idle

/-! ## What is claimed of a step -/

/-- A step of the sweep changes the status only of an instance without an operation in progress
that is running or degraded, and no step changes the status `destroyed`. -/
structure Settles (s : Fleet) (e : FleetEvent) (s' : Fleet) : Prop where
  sweep : e = .judge → ∀ x, s'.statusOf x ≠ s.statusOf x →
    x ∉ s.opLocks ∧ (∀ op ∈ s.ops, op.inst = x → op.holds = false) ∧
      (s.statusOf x = some .running ∨ s.statusOf x = some .degraded)
  final : ∀ x, s.statusOf x = some .destroyed →
    s'.statusOf x = some .destroyed ∨ s'.statusOf x = none

/-- The sweep and the operations keep out of each other's way: where the sweep would change a
status, every operation on the instance has given the lock back and the last status written since
the scan is running or degraded; an operation that takes the lock does not find the instance
destroyed; a task without the lock writes neither onto a destroyed instance nor `destroyed` under
another operation; and a refresh brings no older status for a destroyed instance. -/
def Tidy (s : Fleet) : FleetEvent → Prop
  | .lock o => ∀ op, s.ops[o]? = some op → op.kind ≠ .plain → s.statusOf op.inst ≠ some .destroyed
  | .status o status => ∀ op, s.ops[o]? = some op → op.holds = false →
      if statusNamed status = .destroyed then op.inst ∉ s.opLocks
      else s.statusOf op.inst ≠ some .destroyed
  | .refresh fresh => s.statusOf fresh.name = some .destroyed → fresh.status = .destroyed
  | .judge => ∀ i problems rest status lastError cur, s.sweeper = .looking i problems rest →
      i.verdict problems = some (status, lastError) → s.statusOf i.name = some cur → cur ≠ status →
      (∀ op ∈ s.ops, op.inst = i.name → op.holds = false) ∧
        ∀ left, leftSince i.name s.log = some left → left = .running ∨ left = .degraded
  | _ => True

/-! ## The invariant -/

/-- The lock is held by one operation at a time, which does not find the instance destroyed as long
as it has a status to write, and the copies of the sweep were running or degraded at the scan. -/
structure Ok (s : Fleet) : Prop where
  named : ∀ {x} {i : RdsInstance}, s.instances[x]? = some i → i.name = x
  held : ∀ {x}, x ∈ s.opLocks →
    ∃ (o : Nat) (op : LifeOp), s.ops[o]? = some op ∧ op.inst = x ∧ op.holds = true
  locked : ∀ {o : Nat} {op : LifeOp}, s.ops[o]? = some op → op.holds = true → op.inst ∈ s.opLocks
  alone : ∀ {o o' : Nat} {op op' : LifeOp}, s.ops[o]? = some op → s.ops[o']? = some op' → op.holds = true →
    op'.holds = true → op.inst = op'.inst → o = o'
  unfinished : ∀ {o : Nat} {op : LifeOp}, s.ops[o]? = some op → op.writing = true →
    s.statusOf op.inst ≠ some .destroyed
  seen : ∀ i ∈ s.sweeper.pending, ∀ cur, s.statusOf i.name = some cur →
    leftSince i.name s.log = some cur ∨
      leftSince i.name s.log = none ∧ (cur = .running ∨ cur = .degraded)

variable {s s' : Fleet}

theorem statusOf_put (i : RdsInstance) (x : String) :
    (s.put i).statusOf x = if i.name = x then some i.status else s.statusOf x := by
  unfold statusOf put
  rw [BTreeMap.getElem?_insert_ite]
  split <;> rfl

/-- A record is written. -/
theorem Ok.put (ok : s.Ok) {i : RdsInstance}
    (h : i.status = .destroyed → ∀ (o : Nat) (op : LifeOp), s.ops[o]? = some op → op.writing = true →
      op.inst ≠ i.name) : (s.put i).Ok where
  named {x j} hj := by
    rcases BTreeMap.insert_eq_some hj with ⟨rfl, rfl⟩ | hj
    · rfl
    · exact ok.named hj
  held := ok.held
  locked := ok.locked
  alone := ok.alone
  unfinished {o op} ho hw := by
    rw [statusOf_put]
    split
    · next hn => exact fun hd => h (Option.some.inj hd) o op ho hw hn.symm
    · exact ok.unfinished ho hw
  seen j hj cur hcur := by
    rw [statusOf_put] at hcur
    simp only [Fleet.put, leftSince]
    split at hcur
    · next hn => exact .inl (by rw [if_pos hn]; exact hcur)
    · next hn => rw [if_neg hn]; exact ok.seen j hj cur hcur

/-- A record is altered. -/
theorem Ok.alter (ok : s.Ok) {x : String} {f : RdsInstance → RdsInstance}
    (hname : ∀ i, (f i).name = i.name)
    (h : ∀ i, s.instances[x]? = some i → (f i).status = .destroyed → i.status = .destroyed ∨
      ∀ (o : Nat) (op : LifeOp), s.ops[o]? = some op → op.writing = true → op.inst ≠ x) : (s.alter x f).Ok := by
  unfold Fleet.alter
  split
  · next i hi =>
    refine ok.put fun hd o op ho hw hn => ?_
    rw [hname, ok.named hi] at hn
    rcases h i hi hd with hd | hnone
    · exact ok.unfinished ho hw (by rw [hn, statusOf, hi, Option.map_some, hd])
    · exact hnone o op ho hw hn
  · exact ok

/-- An operation that holds the lock of a record it may still change. -/
theorem holds_of_writing {op : LifeOp} (h : op.writing = true) :
    op.holds = true := by
  simp only [LifeOp.writing, Bool.and_eq_true] at h
  exact h.1.1

theorem ops_move {o : Nat} {op : LifeOp} (hop : s.ops[o]? = some op) (stage : OpStage) (o' : Nat) :
    (s.move o op stage).ops[o']? = if o = o' then some { op with stage := stage } else s.ops[o']? := by
  have hlt := (List.getElem?_eq_some_iff.1 hop).1
  unfold move
  rw [List.getElem?_set]
  split
  · rfl
  · rfl

/-- An operation moves on and keeps the lock, or goes on without it. -/
theorem Ok.move (ok : s.Ok) {o : Nat} {op : LifeOp} (hop : s.ops[o]? = some op) {stage : OpStage}
    (hh : LifeOp.holds { op with stage := stage } = op.holds)
    (hw : LifeOp.writing { op with stage := stage } = true → op.writing = true) :
    (s.move o op stage).Ok := by
  -- every operation comes from one of the same instance that holds the lock if it does
  have hold : ∀ {o' : Nat} {op' : LifeOp}, (s.move o op stage).ops[o']? = some op' →
      ∃ op₀ : LifeOp, s.ops[o']? = some op₀ ∧
      op'.inst = op₀.inst ∧ op'.holds = op₀.holds ∧ (op'.writing = true → op₀.writing = true) := by
    intro o' op' h
    rw [ops_move hop] at h
    split at h
    · next heq => subst heq; cases h; exact ⟨op, hop, rfl, hh, hw⟩
    · exact ⟨op', h, rfl, rfl, id⟩
  refine { named := ok.named, held := ?_, locked := ?_, alone := ?_, unfinished := ?_, seen := ok.seen }
  · intro x hx
    obtain ⟨o', op', ho', rfl, hh'⟩ := ok.held hx
    by_cases heq : o = o'
    · subst heq
      obtain rfl : op' = op := Option.some.inj (ho'.symm.trans hop)
      exact ⟨o, { op' with stage := stage }, by rw [ops_move hop, if_pos rfl], rfl, hh ▸ hh'⟩
    · exact ⟨o', op', by rw [ops_move hop, if_neg heq, ho'], rfl, hh'⟩
  · intro o' op' ho' hh'
    obtain ⟨op₀, h₀, hi, hholds, -⟩ := hold ho'
    rw [hi]
    exact ok.locked h₀ (hholds ▸ hh')
  · intro o' o'' op' op'' h' h'' hh' hh'' hi
    obtain ⟨p, hp, hpi, hph, -⟩ := hold h'
    obtain ⟨q, hq, hqi, hqh, -⟩ := hold h''
    exact ok.alone hp hq (hph ▸ hh') (hqh ▸ hh'') (by rw [← hpi, ← hqi, hi])
  · intro o' op' ho' hw'
    obtain ⟨op₀, h₀, hi, -, hwr⟩ := hold ho'
    rw [hi]
    exact ok.unfinished h₀ (hwr hw')

/-- An operation takes the lock. -/
theorem Ok.acquire (ok : s.Ok) {o : Nat} {op : LifeOp} (hop : s.ops[o]? = some op)
    (hnot : op.holds = false) (stage : OpStage) (hh : LifeOp.holds { op with stage := stage } = true)
    (hfree : op.inst ∉ s.opLocks)
    (hw : LifeOp.writing { op with stage := stage } = true → s.statusOf op.inst ≠ some .destroyed) :
    ((s.move o op stage).insertLock op.inst).Ok := by
  refine { named := ok.named, held := ?_, locked := ?_, alone := ?_, unfinished := ?_, seen := ok.seen }
  · intro x hx
    rcases List.mem_cons.1 hx with rfl | hx
    · exact ⟨o, { op with stage := stage }, by simp [insertLock, ops_move hop], rfl, hh⟩
    · obtain ⟨o', op', ho', rfl, hh'⟩ := ok.held hx
      have hne : o ≠ o' := by
        rintro rfl
        obtain rfl : op' = op := Option.some.inj (ho'.symm.trans hop)
        rw [hnot] at hh'
        cases hh'
      exact ⟨o', op', by simp [insertLock, ops_move hop, hne, ho'], rfl, hh'⟩
  · intro o' op' ho' hh'
    simp only [insertLock, ops_move hop] at ho'
    split at ho'
    · cases ho'; exact .head _
    · exact .tail _ (ok.locked ho' hh')
  · intro o' o'' op' op'' h' h'' hh' hh'' hi
    simp only [insertLock, ops_move hop] at h' h''
    split at h' <;> split at h''
    · next h1 h2 => exact h1.symm.trans h2
    · cases h'
      exact absurd (ok.locked h'' hh'') (hi ▸ hfree)
    · cases h''
      exact absurd (ok.locked h' hh') (hi ▸ hfree)
    · exact ok.alone h' h'' hh' hh'' hi
  · intro o' op' ho' hw'
    simp only [insertLock, ops_move hop] at ho'
    split at ho'
    · cases ho'; exact hw hw'
    · exact ok.unfinished ho' hw'

/-- An operation gives the lock back. -/
theorem Ok.release (ok : s.Ok) {o : Nat} {op : LifeOp} (hop : s.ops[o]? = some op)
    (hholds : op.holds = true) {stage : OpStage}
    (hh : LifeOp.holds { op with stage := stage } = false) :
    ((s.move o op stage).removeLock op.inst).Ok := by
  -- an operation that holds a lock afterwards is another one, which held it before
  have hother : ∀ {o' : Nat} {op' : LifeOp}, (s.move o op stage).ops[o']? = some op' → op'.holds = true →
      o ≠ o' ∧ s.ops[o']? = some op' := by
    intro o' op' h hh'
    rw [ops_move hop] at h
    split at h
    · cases h; rw [hh] at hh'; cases hh'
    · next hne => exact ⟨hne, h⟩
  refine { named := ok.named, held := ?_, locked := ?_, alone := ?_, unfinished := ?_, seen := ok.seen }
  · intro x hx
    obtain ⟨hx, hne⟩ := List.mem_filter.1 hx
    obtain ⟨o', op', ho', rfl, hh'⟩ := ok.held hx
    have hdiff : o ≠ o' := by
      rintro rfl
      obtain rfl : op' = op := Option.some.inj (ho'.symm.trans hop)
      simp at hne
    exact ⟨o', op', by simp [removeLock, ops_move hop, hdiff, ho'], rfl, hh'⟩
  · intro o' op' ho' hh'
    obtain ⟨hne, ho'⟩ := hother ho' hh'
    refine List.mem_filter.2 ⟨ok.locked ho' hh', decide_eq_true fun hi => hne ?_⟩
    exact ok.alone hop ho' hholds hh' hi.symm
  · intro o' o'' op' op'' h' h'' hh' hh'' hi
    exact ok.alone (hother h' hh').2 (hother h'' hh'').2 hh' hh'' hi
  · intro o' op' ho' hw'
    exact ok.unfinished (hother ho' (holds_of_writing hw')).2 hw'

/-- A new operation that has passed its checks. -/
theorem Ok.push (ok : s.Ok) (op : LifeOp) (hnot : op.holds = false) :
    Ok { s with ops := s.ops ++ [op] } := by
  have hold : ∀ {o' : Nat} {op' : LifeOp}, (s.ops ++ [op])[o']? = some op' → op'.holds = true →
      s.ops[o']? = some op' := by
    intro o' op' h hh'
    rcases Nat.lt_or_ge o' s.ops.length with hlt | hge
    · rwa [List.getElem?_append_left hlt] at h
    · rw [List.getElem?_append_right hge] at h
      rcases List.getElem?_eq_some_iff.1 h with ⟨hlen, heq⟩
      have : o' - s.ops.length = 0 := by simpa using hlen
      simp only [this, List.getElem_cons_zero] at heq
      rw [← heq, hnot] at hh'
      cases hh'
  refine { named := ok.named, held := ?_, locked := ?_, alone := ?_, unfinished := ?_, seen := ok.seen }
  · intro x hx
    obtain ⟨o', op', ho', hi, hh'⟩ := ok.held hx
    have hlt := (List.getElem?_eq_some_iff.1 ho').1
    exact ⟨o', op', (List.getElem?_append_left hlt).trans ho', hi, hh'⟩
  · exact fun ho' hh' => ok.locked (hold ho' hh') hh'
  · exact fun h' h'' hh' hh'' hi => ok.alone (hold h' hh') (hold h'' hh'') hh' hh'' hi
  · exact fun ho' hw' => ok.unfinished (hold ho' (holds_of_writing hw')) hw'

/-- The sweep goes on with fewer copies. -/
theorem Ok.sweeps (ok : s.Ok) {sw : Sweeper} (h : ∀ i ∈ sw.pending, i ∈ s.sweeper.pending) :
    Ok { s with sweeper := sw } :=
  { named := ok.named, held := ok.held, locked := ok.locked, alone := ok.alone,
    unfinished := ok.unfinished, seen := fun i hi cur hcur => ok.seen i (h i hi) cur hcur }

/-- A scan copies running and degraded instances. -/
theorem Ok.scan (ok : s.Ok) :
    Ok { s with
      sweeper := .scanning (s.instances.values.filter (·.swept))
      log := .scanned :: s.log } where
  named := ok.named
  held := ok.held
  locked := ok.locked
  alone := ok.alone
  unfinished := ok.unfinished
  seen i hi cur hcur := by
    obtain ⟨hi, hswept⟩ := List.mem_filter.1 hi
    rw [BTreeMap.values_eq_map_toList, List.mem_map] at hi
    obtain ⟨⟨x, j⟩, hj, rfl⟩ := hi
    have hget := Std.ExtTreeMap.mem_toList_iff_getElem?_eq_some.1 hj
    have hcur' : s.statusOf j.name = some cur := hcur
    rw [statusOf, ok.named hget, hget] at hcur'
    obtain rfl : j.status = cur := Option.some.inj hcur'
    refine .inr ⟨rfl, ?_⟩
    simp only [RdsInstance.swept, Bool.and_eq_true, Bool.or_eq_true, decide_eq_true_eq] at hswept
    exact hswept.2

/-- A destroyed instance is deleted. -/
theorem Ok.erase (ok : s.Ok) (x : String) : Ok { s with instances := s.instances.erase x } := by
  have hstatus : ∀ y, Fleet.statusOf { s with instances := s.instances.erase x } y =
      if x = y then none else s.statusOf y := by
    intro y
    unfold statusOf
    rw [BTreeMap.getElem?_erase_ite]
    split <;> rfl
  refine { named := ?_, held := ok.held, locked := ok.locked, alone := ok.alone, unfinished := ?_,
           seen := ?_ }
  · intro y i hy
    rw [BTreeMap.getElem?_erase_ite] at hy
    split at hy
    · cases hy
    · exact ok.named hy
  · intro o op ho hw
    rw [hstatus]
    split
    · exact nofun
    · exact ok.unfinished ho hw
  · intro i hi cur hcur
    rw [hstatus] at hcur
    split at hcur
    · cases hcur
    · exact ok.seen i hi cur hcur

/-! ## One step -/

/-- No instance leaves the status `destroyed`. -/
def Keeps (s s' : Fleet) : Prop :=
  ∀ x, s.statusOf x = some .destroyed →
    s'.statusOf x = some .destroyed ∨ s'.statusOf x = none

theorem Keeps.refl : Keeps s s := fun _ h => .inl h

theorem keeps_put {i : RdsInstance}
    (h : s.statusOf i.name = some .destroyed → i.status = .destroyed) : Keeps s (s.put i) := by
  intro x hx
  rw [statusOf_put]
  split
  · next hn => exact .inl (by rw [h (hn ▸ hx)])
  · exact .inl hx

theorem keeps_alter (ok : s.Ok) {x : String} {f : RdsInstance → RdsInstance}
    (hname : ∀ i, (f i).name = i.name)
    (h : ∀ i, s.instances[x]? = some i → i.status = .destroyed → (f i).status = .destroyed) :
    Keeps s (s.alter x f) := by
  unfold alter
  split
  · next i hi =>
    refine keeps_put fun hd => h i hi ?_
    rw [hname, ok.named hi, statusOf, hi] at hd
    exact Option.some.inj hd
  · exact .refl

/-- An operation that has still to write a status does not find the instance destroyed. -/
theorem Ok.not_destroyed (ok : s.Ok) {o : Nat} {op : LifeOp} (hop : s.ops[o]? = some op)
    (hw : op.writing = true) {i : RdsInstance} (hi : s.instances[op.inst]? = some i) :
    i.status ≠ .destroyed := by
  have h := ok.unfinished hop hw
  rw [statusOf, hi] at h
  exact fun hd => h (congrArg some hd)

theorem writing_of_locked {op : LifeOp} (hst : op.stage = .locked) (hk : op.kind ≠ .plain) :
    op.writing = true := by
  simp [LifeOp.writing, LifeOp.holds, hst, hk]

theorem writing_of_submitted {op : LifeOp} (hst : op.stage = .submitted) (hk : op.kind ≠ .plain)
    (hd : op.kind ≠ .destroy) : op.writing = true := by
  simp [LifeOp.writing, LifeOp.holds, hst, hk, hd]

/-- The write with which an operation begins. -/
theorem Ok.enter (ok : s.Ok) {o : Nat} {op : LifeOp} (hop : s.ops[o]? = some op)
    (hst : op.stage = .locked) : (s.enter op).Ok ∧ Keeps s (s.enter op) := by
  have hput : ∀ status : InstStatus, op.kind ≠ .plain → status ≠ .destroyed →
      (s.put (op.record.withStatus status)).Ok ∧ Keeps s (s.put (op.record.withStatus status)) := by
    intro status hk hne
    refine ⟨ok.put fun h => absurd h hne, keeps_put fun h => ?_⟩
    exact absurd h (ok.unfinished hop (writing_of_locked hst hk))
  unfold Fleet.enter
  cases hk : op.kind with
  | create | destroy | scaleout => exact hput _ (by rw [hk]; decide) (by decide)
  | switch =>
    have hw := writing_of_locked hst (by rw [hk]; decide)
    exact ⟨ok.alter (fun _ => rfl) (fun _ _ h => nomatch h),
      keeps_alter ok (fun _ => rfl) fun i hi h => absurd h (ok.not_destroyed hop hw hi)⟩
  | reparent | plain => exact ⟨ok, .refl⟩

/-- A watcher's mark leaves a destroyed instance alone. -/
theorem Ok.markFailed (ok : s.Ok) (x msg : String) :
    (s.markFailed x msg).Ok ∧ Keeps s (s.markFailed x msg) := by
  refine ⟨ok.alter (fun i => ?_) fun i _ h => ?_, keeps_alter ok (fun i => ?_) fun i _ h => ?_⟩
  · split <;> rfl
  · split at h
    · next hd => exact .inl hd
    · cases h
  · split <;> rfl
  · rw [if_pos h]; exact h

/-- A status step of a task. -/
theorem Ok.status (ok : s.Ok) {o : Nat} {op : LifeOp} (hop : s.ops[o]? = some op)
    (htask : op.hasTask = true) {status : String} (hmem : status ∈ op.kind.steps)
    (htidy : op.holds = false → if statusNamed status = .destroyed then op.inst ∉ s.opLocks
      else s.statusOf op.inst ≠ some .destroyed) :
    (s.alter op.inst (·.withStatus (statusNamed status))).Ok ∧
      Keeps s (s.alter op.inst (·.withStatus (statusNamed status))) := by
  rcases Bool.eq_false_or_eq_true op.holds with hh | hh
  · have hst : op.stage = .submitted := by
      simp only [LifeOp.hasTask, LifeOp.holds, Bool.or_eq_true, decide_eq_true_eq] at htask hh
      rcases hh with hh | hh
      · rw [hh] at htask; simp at htask
      · exact hh
    have hrun : op.kind ≠ .plain → op.kind ≠ .destroy → status = "running" →
        (s.alter op.inst (·.withStatus (statusNamed status))).Ok ∧
          Keeps s (s.alter op.inst (·.withStatus (statusNamed status))) := by
      rintro hk hd rfl
      have hw := writing_of_submitted hst hk hd
      exact ⟨ok.alter (fun _ => rfl) (fun _ _ h => nomatch h),
        keeps_alter ok (fun _ => rfl) fun i hi h => absurd h (ok.not_destroyed hop hw hi)⟩
    cases hk : op.kind with
    | create | scaleout | switch =>
      rw [hk] at hmem
      exact hrun (by rw [hk]; decide) (by rw [hk]; decide) (List.mem_singleton.1 hmem)
    | destroy =>
      rw [hk] at hmem
      obtain rfl := List.mem_singleton.1 hmem
      refine ⟨ok.alter (fun _ => rfl) fun _ _ _ => .inr fun o' op' ho' hw' hi => ?_,
        keeps_alter ok (fun _ => rfl) fun _ _ _ => rfl⟩
      -- the destruction is the only operation on the instance, and has written its last status
      obtain rfl := ok.alone ho' hop (holds_of_writing hw') hh hi
      obtain rfl : op' = op := Option.some.inj (ho'.symm.trans hop)
      simp [LifeOp.writing, hk, hst] at hw'
    | reparent | plain => rw [hk] at hmem; cases hmem
  · have htidy := htidy hh
    split at htidy
    · next hd =>
      refine ⟨ok.alter (fun _ => rfl) fun _ _ _ => .inr fun o' op' ho' hw' hi => htidy ?_,
        keeps_alter ok (fun _ => rfl) fun _ _ _ => hd⟩
      exact hi ▸ ok.locked ho' (holds_of_writing hw')
    · next hd =>
      refine ⟨ok.alter (fun _ => rfl) fun _ _ h => absurd h hd,
        keeps_alter ok (fun _ => rfl) fun i hi h => absurd ?_ htidy⟩
      rw [statusOf, hi, Option.map_some, h]

@[simp] theorem alter_ops (x : String) (f : RdsInstance → RdsInstance) :
    (s.alter x f).ops = s.ops := by
  unfold alter
  split <;> rfl

@[simp] theorem enter_ops (op : LifeOp) : (s.enter op).ops = s.ops := by
  unfold enter
  split <;> first | rfl | exact alter_ops _ _

@[simp] theorem markFailed_ops (x msg : String) : (s.markFailed x msg).ops = s.ops := alter_ops _ _

/-- A failed switch is marked on an instance that is not destroyed. -/
theorem Ok.markDegraded (ok : s.Ok) {o : Nat} {op : LifeOp} (hop : s.ops[o]? = some op)
    (hw : op.writing = true) (e : String) :
    (s.markDegraded op.inst e).Ok ∧ Keeps s (s.markDegraded op.inst e) :=
  ⟨ok.alter (fun _ => rfl) (fun _ _ h => nomatch h),
    keeps_alter ok (fun _ => rfl) fun _ hi h => absurd h (ok.not_destroyed hop hw hi)⟩

/-- A row that a refresh takes over. -/
theorem Ok.refresh (ok : s.Ok) {fresh i : RdsInstance} (hfree : fresh.name ∉ s.opLocks)
    (hname : i.name = fresh.name) (hstatus : i.status = fresh.status)
    (htidy : s.statusOf fresh.name = some .destroyed → fresh.status = .destroyed) :
    (s.put i).Ok ∧ Keeps s (s.put i) := by
  refine ⟨ok.put fun _ o op ho hw hi => hfree ?_, keeps_put fun h => ?_⟩
  · rw [← hname, ← hi]
    exact ok.locked ho (holds_of_writing hw)
  · rw [hstatus]
    exact htidy (hname ▸ h)

/-- What the sweep writes, it writes where its checks still hold. -/
theorem Ok.judge (ok : s.Ok) {i : RdsInstance} {problems : List String} {rest : List RdsInstance}
    (hlook : s.sweeper = .looking i problems rest) (htidy : s.Tidy .judge)
    {status : InstStatus} {lastError : String} (hv : i.verdict problems = some (status, lastError))
    {cur : InstStatus} (hcur : s.statusOf i.name = some cur) (hne : cur ≠ status) :
    i.name ∉ s.opLocks ∧ (∀ op ∈ s.ops, op.inst = i.name → op.holds = false) ∧
      (cur = .running ∨ cur = .degraded) := by
  obtain ⟨hfree, hleft⟩ := htidy i problems rest status lastError cur hlook hv hcur hne
  refine ⟨fun hmem => ?_, hfree, ?_⟩
  · obtain ⟨o, op, ho, hi, hh⟩ := ok.held hmem
    rw [hfree op (List.mem_of_getElem? ho) hi] at hh
    cases hh
  · rcases ok.seen i (by rw [hlook]; exact .head _) cur hcur with h | ⟨-, h⟩
    · exact hleft cur h
    · exact h

theorem verdict_ne_destroyed {i : RdsInstance} {problems : List String} {status : InstStatus}
    {lastError : String} (hv : i.verdict problems = some (status, lastError)) :
    status ≠ .destroyed := by
  unfold RdsInstance.verdict at hv
  simp only at hv
  repeat' split at hv
  all_goals cases hv
  all_goals decide

/-- The sweep starts a switch, which takes the lock in the same call. -/
theorem Ok.failover (ok : s.Ok) {x : String} {cur : RdsInstance} (hcur : s.instances[x]? = some cur)
    (hrun : cur.status = .running) (hfree : x ∉ s.opLocks) :
    Ok { s with opLocks := x :: s.opLocks, ops := s.ops ++ [⟨.reparent, cur, .submitted⟩] } := by
  obtain rfl := ok.named hcur
  have hop : (s.ops ++ [(⟨.reparent, cur, .checked⟩ : LifeOp)])[s.ops.length]? =
      some ⟨.reparent, cur, .checked⟩ := List.getElem?_concat_length
  have ok' := (ok.push ⟨.reparent, cur, .checked⟩ rfl).acquire hop rfl .submitted
    rfl hfree fun _ hd => by
      have hd : s.statusOf cur.name = some .destroyed := hd
      rw [statusOf, hcur, Option.map_some, hrun] at hd
      cases hd
  simpa [Fleet.move, insertLock, LifeOp.inst] using ok'

/-- The verdict of the sweep on one copy. -/
theorem Ok.judged (ok : s.Ok) {i : RdsInstance} {problems : List String} {rest : List RdsInstance}
    (hlook : s.sweeper = .looking i problems rest) (htidy : s.Tidy .judge) {status : InstStatus}
    {lastError : String} (hv : i.verdict problems = some (status, lastError)) :
    let t := Fleet.alter { s with sweeper := .scanning rest } i.name (·.setStatus status lastError)
    t.Ok ∧ s.Settles .judge t := by
  have ok₁ : Ok { s with sweeper := .scanning rest } :=
    ok.sweeps fun j hj => by rw [hlook]; exact .tail _ hj
  -- the status of the instance where the sweep changes it
  have hchange : ∀ x cur, s.statusOf x = some cur → x = i.name → cur ≠ status →
      x ∉ s.opLocks ∧ (∀ op ∈ s.ops, op.inst = x → op.holds = false) ∧
        (cur = .running ∨ cur = .degraded) := by
    rintro x cur hcur rfl hne
    exact ok.judge hlook htidy hv hcur hne
  rcases hget : s.instances[i.name]? with _ | j
  · have ht : Fleet.alter { s with sweeper := .scanning rest } i.name (·.setStatus status lastError) =
        { s with sweeper := .scanning rest } := by
      simp only [Fleet.alter, hget]
    rw [ht]
    exact ⟨ok₁, fun _ x hx => absurd rfl hx, Keeps.refl⟩
  · have hname := ok.named hget
    have hst : s.statusOf i.name = some j.status := by rw [statusOf, hget, Option.map_some]
    have ht : Fleet.alter { s with sweeper := .scanning rest } i.name (·.setStatus status lastError) =
        Fleet.put { s with sweeper := .scanning rest } (j.setStatus status lastError) := by
      simp only [Fleet.alter, hget]
    have hof : ∀ x, (Fleet.put { s with sweeper := .scanning rest }
        (j.setStatus status lastError)).statusOf x =
        if i.name = x then some status else s.statusOf x := by
      intro x
      rw [statusOf_put]
      exact if_congr (by rw [← hname]; rfl) rfl rfl
    rw [ht]
    refine ⟨ok₁.put fun hd => absurd hd (verdict_ne_destroyed hv), fun _ x hx => ?_, fun x hx => ?_⟩
    · rw [hof] at hx
      split at hx
      · next heq =>
        subst heq
        obtain ⟨hfree, hops, hrd⟩ := hchange _ _ hst rfl fun heq => hx (by rw [hst, heq])
        exact ⟨hfree, hops, hrd.imp (fun h => by rw [hst, h]) fun h => by rw [hst, h]⟩
      · exact absurd rfl hx
    · rw [hof]
      split
      · next heq =>
        subst heq
        obtain ⟨-, -, h | h⟩ := hchange _ _ hx rfl (verdict_ne_destroyed hv).symm <;> cases h
      · exact .inl hx

/-- Every tidy step keeps the invariant and settles what it writes. -/
theorem Ok.step (ok : s.Ok) {e : FleetEvent} (htidy : s.Tidy e) (hs : s.step e = some s') :
    s'.Ok ∧ s.Settles e s' := by
  have hsettle : ∀ {t : Fleet}, e ≠ .judge → t.Ok ∧ Keeps s t → t.Ok ∧ s.Settles e t :=
    fun hne h => ⟨h.1, fun he => absurd he hne, h.2⟩
  cases e with
  | check kind i =>
    simp only [Fleet.step] at hs
    repeat' split at hs
    all_goals cases hs
    all_goals exact hsettle nofun ⟨ok.push _ rfl, .refl⟩
  | lock o =>
    simp only [Fleet.step] at hs
    split at hs
    · next op hop =>
      split at hs <;> cases hs
      next hc =>
      refine hsettle nofun ⟨ok.acquire hop (by simp [LifeOp.holds, hc.1]) _ rfl hc.2 fun hw => ?_,
        .refl⟩
      refine htidy op hop fun hk => ?_
      simp [LifeOp.writing, hk] at hw
    · cases hs
  | refuse o =>
    simp only [Fleet.step] at hs
    split at hs
    · next op hop =>
      split at hs
      · next hst =>
        cases hs
        exact hsettle nofun ⟨ok.move hop (by simp [LifeOp.holds, hst])
          (by simp [LifeOp.writing, LifeOp.holds]), .refl⟩
      · split at hs <;> cases hs
        next hst =>
        exact hsettle nofun ⟨ok.release hop (by simp [LifeOp.holds, hst]) rfl, .refl⟩
    · cases hs
  | submit o =>
    simp only [Fleet.step] at hs
    split at hs
    · next op hop =>
      split at hs <;> cases hs
      next hst =>
      obtain ⟨ok', hk⟩ := ok.enter hop hst
      refine hsettle nofun ⟨ok'.move (by rw [enter_ops]; exact hop)
        (by simp [LifeOp.holds, hst]) fun hw => ?_, hk⟩
      refine writing_of_locked hst fun hp => ?_
      simp [LifeOp.writing, hp] at hw
    · cases hs
  | status o status =>
    simp only [Fleet.step] at hs
    split at hs
    · next op hop =>
      split at hs <;> cases hs
      next hc => exact hsettle nofun (ok.status hop hc.1 hc.2 (htidy op hop))
    · cases hs
  | switchFailed o e =>
    simp only [Fleet.step] at hs
    split at hs
    · next op hop =>
      split at hs <;> cases hs
      next hc =>
      exact hsettle nofun (ok.markDegraded hop
        (writing_of_submitted hc.2 (by rw [hc.1]; decide) (by rw [hc.1]; decide)) e)
    · cases hs
  | finish o failed =>
    simp only [Fleet.step] at hs
    split at hs
    · next op hop =>
      split at hs <;> cases hs
      next hst =>
      refine hsettle nofun ⟨ok.release hop (by simp [LifeOp.holds, hst]) ?_, .refl⟩
      split <;> rfl
    · cases hs
  | fail o taskId =>
    simp only [Fleet.step] at hs
    split at hs
    · next op hop =>
      split at hs <;> cases hs
      next hst =>
      obtain ⟨ok', hk⟩ := ok.markFailed op.inst ("任务 " ++ taskId ++ " 失败(实例状态机已置为失败)")
      exact hsettle nofun ⟨ok'.move (by rw [markFailed_ops]; exact hop)
        (by simp [LifeOp.holds, hst]) (by simp [LifeOp.writing, LifeOp.holds]), hk⟩
    · cases hs
  | lost o reason =>
    simp only [Fleet.step] at hs
    split at hs
    · next op hop =>
      split at hs <;> cases hs
      next hc =>
      obtain ⟨ok', hk⟩ := ok.markFailed op.inst ("失去共识租约:" ++ reason)
      exact hsettle nofun ⟨ok'.release (by rw [markFailed_ops]; exact hop)
        (by simp [LifeOp.holds, hc.1]) rfl, hk⟩
    · cases hs
  | refresh fresh =>
    simp only [Fleet.step] at hs
    split at hs
    · cases hs
    · next hfree =>
      split at hs <;> cases hs
      · next cur hcur =>
        have hname : cur.name = fresh.name := ok.named hcur
        exact hsettle nofun (ok.refresh hfree hname rfl htidy)
      · exact hsettle nofun (ok.refresh hfree rfl rfl htidy)
  | delete x =>
    simp only [Fleet.step] at hs
    split at hs
    · split at hs <;> cases hs
      refine hsettle nofun ⟨ok.erase x, fun y hy => ?_⟩
      unfold statusOf at hy ⊢
      rw [BTreeMap.getElem?_erase_ite]
      split
      · exact .inr rfl
      · exact .inl hy
    · cases hs
  | scan =>
    simp only [Fleet.step] at hs
    split at hs <;> cases hs
    exact hsettle nofun ⟨ok.scan, .refl⟩
  | next =>
    simp only [Fleet.step] at hs
    split at hs <;> cases hs
    · exact hsettle nofun ⟨ok.sweeps nofun, .refl⟩
    · next i rest hsw =>
      refine hsettle nofun ⟨ok.sweeps fun j hj => ?_, .refl⟩
      rw [hsw]
      split at hj
      · exact .tail _ hj
      · exact hj
  | found problem =>
    simp only [Fleet.step] at hs
    split at hs <;> cases hs
    next hsw => exact hsettle nofun ⟨ok.sweeps fun j hj => by rw [hsw]; exact hj, .refl⟩
  | failover =>
    simp only [Fleet.step] at hs
    split at hs
    · next i _ _ hsw =>
      split at hs
      · next cur hcur =>
        split at hs <;> cases hs
        next hc =>
        exact hsettle nofun ⟨ok.failover hcur hc.2.2.2.1 hc.2.2.1, .refl⟩
      · cases hs
    · cases hs
  | judge =>
    simp only [Fleet.step] at hs
    split at hs
    · next i problems rest hsw =>
      split at hs <;> cases hs
      · next hv => exact ok.judged hsw htidy hv
      · exact ⟨ok.sweeps fun j hj => by rw [hsw]; exact .tail _ hj,
          fun _ x hx => absurd rfl hx, Keeps.refl⟩
    · cases hs

/-! ## Runs -/

/-- In a run of tidy steps every step settles what it writes. -/
theorem steps_settle {h : History Fleet FleetEvent} {s : Fleet}
    (hr : Run step (fun _ s e => s.Tidy e) Initial h s) :
    ∀ t e earlier, (t, e) :: earlier <:+ h → ∀ t', t.step e = some t' → t.Settles e t' := by
  intro t e earlier hsuf t' ht
  obtain ⟨hrun, htidy⟩ := hr.of_suffix hsuf
  have ok : t.Ok := by
    refine hrun.invariant (I := fun _ s => s.Ok) (fun s h0 => ?_)
      fun h s e s' _ ok hg hs => (ok.step hg hs).1
    exact
      { named := h0.named
        held := fun hx => by rw [h0.opLocks] at hx; cases hx
        locked := fun ho => by rw [h0.ops] at ho; cases ho
        alone := fun ho => by rw [h0.ops] at ho; cases ho
        unfinished := fun ho => by rw [h0.ops] at ho; cases ho
        seen := fun i hi => by rw [h0.sweeper] at hi; cases hi }
  exact (ok.step htidy ht).2

/-- A running instance. -/
def orders : RdsInstance :=
  { name := "orders", status := .running, region := "cn-bj", az := "a", shard := "s0",
    enabled := true, lvsContainer := "", lvsMysqlPort := 0, nodeHosts := ∅, proxies := [],
    shards := [], itype := "async", shardNum := 1, network := "rds-orders", nodes := [],
    proxyContainer := "rds-orders-proxy-1", proxyMysqlPort := 0, proxyMngPort := 0,
    lastError := "" }

/-- A manager with that instance only. -/
def single : Fleet := ⟨(∅ : BTreeMap String RdsInstance).insert "orders" orders, [], [], .idle, []⟩

theorem single_initial : Initial single where
  named {x i} h := by
    rcases BTreeMap.insert_eq_some h with ⟨rfl, rfl⟩ | h
    · rfl
    · simp at h
  opLocks := rfl
  ops := rfl
  sweeper := rfl

/-- The sweep degrades the instance, which is destroyed afterwards. -/
theorem steps_settle_destroyed : ∃ (h : History Fleet FleetEvent) (s : Fleet),
    Run step (fun _ s e => s.Tidy e) Initial h s ∧ s.statusOf "orders" = some .destroyed ∧
      ∀ t e earlier, (t, e) :: earlier <:+ h → ∀ t', t.step e = some t' → t.Settles e t' := by
  have r0 : Run step (fun _ s e => s.Tidy e) Initial [] single := .start single_initial
  have r1 := r0.step (e := .scan) (by exact True.intro) rfl
  have r2 := r1.step (e := .next) (by exact True.intro) rfl
  have r3 := r2.step (e := .found "代理容器 rds-orders-proxy-1 缺失") (by exact True.intro) rfl
  have r4 := r3.step (e := .judge) (by
    rintro i problems rest status lastError cur ⟨⟩ - - -
    exact ⟨(fun op hop => nomatch hop), fun left hl => nomatch hl⟩) rfl
  have r5 := r4.step (e := .check .destroy orders) (by exact True.intro) rfl
  have r6 := r5.step (e := .lock 0) (by rintro op ⟨⟩ -; decide) rfl
  have r7 := r6.step (e := .submit 0) (by exact True.intro) rfl
  have r8 := r7.step (e := .status 0 "destroyed") (by rintro op ⟨⟩ ⟨⟩) rfl
  have r9 := r8.step (e := .finish 0 false) (by exact True.intro) rfl
  exact ⟨_, _, r9, by decide, steps_settle r9⟩

/-- The sweep finds the master down, starts a switch and then degrades the instance under it. -/
theorem sweep_overrides_its_switch :
    ¬ ∀ (h : History Fleet FleetEvent) (s : Fleet),
      Run step (fun _ _ _ => True) Initial h s →
        ∀ t e earlier, (t, e) :: earlier <:+ h → ∀ t', t.step e = some t' → t.Settles e t' := by
  intro hall
  have r0 : Run step (fun _ _ _ => True) Initial [] single := .start single_initial
  have r1 := r0.step (e := .scan) trivial rfl
  have r2 := r1.step (e := .next) trivial rfl
  have r3 := r2.step (e := .found "节点 rds-orders-master 不可达") trivial rfl
  have r4 := r3.step (e := .failover) trivial rfl
  have r5 := r4.step (e := .judge) trivial rfl
  have hsettles := hall _ _ r5 _ _ _ (List.suffix_refl _) _ rfl
  exact (hsettles.sweep rfl "orders" (by decide)).1 (by decide)

end Fleet

end Rdsctl.Inst
