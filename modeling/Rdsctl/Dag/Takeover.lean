import Rdsctl.Dag.Scheduler
import Rdsctl.Ha.Basic
import Rdsctl.Lib.Run

/-!
# Tasks on several replicas

Every replica has a scheduler of its own and all share the sink. A task is executed where it is
submitted, where the leader's scan of unfinished rows resumes it, and where one of its nodes is
rerun. `Cluster` keeps the objects in the memories, the rows of the sink, the executions and the
leases apart. A task runs on one replica at a time as long as executions begin where the lease is
held and no other execution has the nodes (`Cluster.Orderly`).
-/

namespace Rdsctl.Dag

open Ha

/-! ## Tasks, rows and executions -/

/-- A node of a task with its result. -/
structure NodeState where
  deps : List String
  status : TaskStatus

/-- A task in the memory of a replica: `defs` says whether it has its definitions. -/
structure TaskObj where
  inst : String
  user : Bool
  status : TaskStatus
  defs : Bool
  nodes : BTreeMap String NodeState
  /-- `defs_order` -/
  order : List (String × List String)

/-- A task in the sink. -/
structure StoredTask where
  inst : String
  user : Bool
  status : TaskStatus
  nodes : BTreeMap String NodeState

/-- An execution of a task, or of one node of it, on a replica. -/
structure Execution where
  replica : Nat
  task : String
  inst : String
  obj : Nat
  rerun : Bool
  todo : List String
  /-- The nodes that are being executed. -/
  flying : List String
  failed : Bool
  closed : Bool

/-- The nodes that an execution has or will have in hand. -/
def Execution.nodes (x : Execution) : List String := x.todo ++ x.flying

/-- The scheduler of a replica. -/
structure Scheduler where
  leader : Bool
  /-- The task objects by id. -/
  tasks : BTreeMap String Nat
  /-- The rows that `resume_pending` has read and not gone through yet. -/
  scan : List (String × StoredTask)
  /-- The reruns that have passed their checks. -/
  checked : List (String × String × Nat)
  /-- The instances it holds a fence for. -/
  fences : List String

/-- A scheduler with an empty memory. -/
def Scheduler.empty : Scheduler := ⟨false, ∅, [], [], []⟩

structure Cluster where
  replicas : Nat → Scheduler
  objs : List TaskObj
  sink : BTreeMap String StoredTask
  leases : BTreeMap String Nat
  execs : List Execution
  /-- The ids that `next_task_seq` has given, each with the instance of its task. -/
  issued : BTreeMap String String

inductive ClusterEvent where
  | lead (r : Nat) (leader : Bool)
  | acquire (r : Nat) (inst : String)
  | release (r : Nat) (inst : String)
  | expire (inst : String)
  /-- The process stops and starts again. -/
  | crash (r : Nat)
  | submit (r : Nat) (k inst : String) (nodes : List (String × List String))
  | submitDraft (r : Nat) (k inst : String) (nodes : List (String × List String))
  | startDraft (r : Nat) (k : String)
  | deleteTask (r : Nat) (k : String)
  /-- `execute` marks the task as running. -/
  | begin (x : Nat)
  /-- `execute` spawns a node; it keeps to the order of the dependencies. -/
  | start (x : Nat) (n : String)
  | ended (x : Nat) (n : String) (ok : Bool)
  | finish (x : Nat) (canceled : Bool)
  /-- `resume_pending` reads the unfinished rows. -/
  | scan (r : Nat)
  /-- `resume_pending` goes through the next row. -/
  | resume (r : Nat)
  /-- `rerun_node` up to its last check. -/
  | rerunCheck (r : Nat) (k n : String)
  /-- `rerun_node` marks the task as running and executes the node. -/
  | rerunStart (r : Nat)
  | rerunEnd (x : Nat) (ok : Bool)

/-- The nodes of a graph, none of them executed. -/
def pendingNodes (nodes : List (String × List String)) : BTreeMap String NodeState :=
  nodes.foldl (fun m n => m.insert n.1 ⟨n.2, .pending⟩) ∅

/-- A status that no execution changes any more. -/
def TaskStatus.final : TaskStatus → Bool
  | .success | .failed => true
  | .pending | .running | .skipped => false

/-- The nodes that `resume_one` executes. -/
def StoredTask.toRun (row : StoredTask) : List String :=
  (row.nodes.toList.filter fun p => p.2.status = .pending || p.2.status = .running).map Prod.fst

/-- The result of a node in a task object. -/
def TaskObj.result (o : TaskObj) (n : String) (status : TaskStatus) : TaskObj :=
  { o with nodes := o.nodes.insert n ⟨((o.nodes[n]?).map (·.deps)).getD [], status⟩ }

/-- What `rerun_node` asks of a node. -/
def TaskObj.rerunnable (o : TaskObj) (n : String) : Bool :=
  (o.nodes[n]?).any fun d => (d.status = .failed || d.status = .skipped) &&
    d.deps.all fun u => (o.nodes[u]?).any (·.status = .success)

/-- The end of a rerun: the task is successful when all its nodes are, or are skipped. -/
def TaskObj.rerunEnd (o : TaskObj) (n : String) (status : TaskStatus) : TaskObj :=
  let o := o.result n status
  { o with
    status :=
      if o.nodes.values.all fun d => d.status = .success || d.status = .skipped then .success
      else .failed }

/-- The same execution, further on. -/
structure Execution.Shrinks (x x' : Execution) : Prop where
  replica : x'.replica = x.replica
  task : x'.task = x.task
  inst : x'.inst = x.inst
  closed : x'.closed = false → x.closed = false
  nodup : x'.closed = false → x.nodes.Nodup → x'.nodes.Nodup
  nodes : x'.closed = false → ∀ n ∈ x'.nodes, n ∈ x.nodes

theorem Execution.Shrinks.refl {x : Execution} : x.Shrinks x :=
  ⟨rfl, rfl, rfl, fun h => h, fun _ h => h, fun _ _ h => h⟩

/-- A node goes from `todo` to `flying`. -/
theorem Execution.Shrinks.start {x : Execution} {n : String} (hn : n ∈ x.todo) :
    x.Shrinks { x with todo := x.todo.erase n, flying := n :: x.flying } := by
  have hperm : (x.todo.erase n ++ n :: x.flying).Perm x.nodes :=
    List.perm_middle.trans ((List.perm_cons_erase hn).symm.append_right x.flying)
  exact ⟨rfl, rfl, rfl, fun h => h, fun _ h => hperm.nodup_iff.2 h, fun _ _ h => hperm.mem_iff.1 h⟩

/-- Fewer nodes are in hand. -/
theorem Execution.Shrinks.less {x : Execution} {todo flying : List String} {failed : Bool}
    (ht : todo.Sublist x.todo) (hf : flying.Sublist x.flying) :
    x.Shrinks { x with todo := todo, flying := flying, failed := failed } := by
  have hsub : (todo ++ flying).Sublist x.nodes := ht.append hf
  exact ⟨rfl, rfl, rfl, fun h => h, fun _ h => h.sublist hsub, fun _ _ h => hsub.subset h⟩

theorem Execution.Shrinks.ends {x : Execution} {flying : List String} :
    x.Shrinks { x with flying := flying, closed := true } :=
  ⟨rfl, rfl, rfl, fun h => (nomatch h), fun h => (nomatch h), fun h => (nomatch h)⟩

namespace Cluster

def setReplica (s : Cluster) (r : Nat) (rep : Scheduler) : Cluster :=
  { s with replicas := fun r' => if r' = r then rep else s.replicas r' }

/-- A new task object of a replica. -/
def addObj (s : Cluster) (r : Nat) (k : String) (o : TaskObj) : Cluster :=
  let rep := s.replicas r
  { s.setReplica r { rep with tasks := rep.tasks.insert k s.objs.length } with objs := s.objs ++ [o] }

/-- `tokio::spawn` of an execution. -/
def spawn (s : Cluster) (x : Execution) : Cluster := { s with execs := s.execs ++ [x] }

def setExec (s : Cluster) (x : Nat) (e : Execution) : Cluster := { s with execs := s.execs.set x e }

def setObj (s : Cluster) (o : Nat) (f : TaskObj → TaskObj) : Cluster :=
  match s.objs[o]? with
  | some t => { s with objs := s.objs.set o (f t) }
  | none => s

/-- `upsert_task` -/
def upsertTask (s : Cluster) (k inst : String) (user : Bool) (status : TaskStatus) : Cluster :=
  { s with
    sink := s.sink.insert k
      (match s.sink[k]? with
      | some row => { row with status := status }
      | none => { inst := inst, user := user, status := status, nodes := ∅ }) }

/-- `update_task_status` -/
def updateTask (s : Cluster) (k : String) (status : TaskStatus) : Cluster :=
  match s.sink[k]? with
  | some row => { s with sink := s.sink.insert k { row with status := status } }
  | none => s

/-- `persist_node`, for a task that has a row. -/
def persistNode (s : Cluster) (k n : String) (status : TaskStatus) : Cluster :=
  match s.sink[k]? with
  | some row =>
    let deps := ((row.nodes[n]?).map (·.deps)).getD []
    { s with sink := s.sink.insert k { row with nodes := row.nodes.insert n ⟨deps, status⟩ } }
  | none => s

/-- `hydrate_task` -/
def hydrate (s : Cluster) (r : Nat) (k : String) : Option (Cluster × Nat × TaskObj) :=
  match s.sink[k]? with
  | some row =>
    let o : TaskObj :=
      { inst := row.inst, user := row.user, status := row.status, defs := true, nodes := row.nodes,
        order := [] }
    some (s.addObj r k o, s.objs.length, o)
  | none => none

/-- The object of a task, from the memory or else from the sink. -/
def taskOf (s : Cluster) (r : Nat) (k : String) : Option (Cluster × Nat × TaskObj) :=
  match (s.replicas r).tasks[k]? with
  | some i => (s.objs[i]?).map fun o => (s, i, o)
  | none => s.hydrate r k

/-- `rerun_node` up to its last check; what it has hydrated stays in memory. -/
def rerunCheck (s : Cluster) (r : Nat) (k n : String) : Cluster :=
  let pass (s : Cluster) (i : Nat) (o : TaskObj) : Cluster :=
    if o.rerunnable n then
      s.setReplica r { s.replicas r with checked := (s.replicas r).checked ++ [(k, n, i)] }
    else s
  match s.taskOf r k with
  | some (s, i, o) =>
    if o.status ≠ .failed then s
    else if o.defs then pass s i o
    else
      match s.hydrate r k with
      | some (s, i, o) => pass s i o
      | none => s
  | none => s

/-- `resume_one` -/
def resumeOne (s : Cluster) (r : Nat) (k : String) (row : StoredTask) : Cluster :=
  if row.toRun = [] then s
  else
    let o : TaskObj :=
      { inst := row.inst, user := row.user, status := .running, defs := false, nodes := row.nodes,
        order := [] }
    (s.addObj r k o).spawn
      { replica := r, task := k, inst := row.inst, obj := s.objs.length, rerun := false,
        todo := row.toRun, flying := [], failed := false, closed := false }

/-- The task is in this replica's memory and not at its end. -/
def live (s : Cluster) (r : Nat) (k : String) : Bool :=
  (((s.replicas r).tasks[k]?).bind fun i => s.objs[i]?).any fun o => !o.status.final

def step (s : Cluster) : ClusterEvent → Option Cluster
  | .lead r leader => some (s.setReplica r { s.replicas r with leader := leader })
  | .acquire r inst =>
    let rep := s.replicas r
    if inst ∉ rep.fences ∧ s.leases[inst]? = none then
      some { s.setReplica r { rep with fences := inst :: rep.fences } with
        leases := s.leases.insert inst r }
    else none
  | .release r inst =>
    let rep := s.replicas r
    some { s.setReplica r { rep with fences := rep.fences.filter (· ≠ inst) } with
      leases := if s.leases[inst]? = some r then s.leases.erase inst else s.leases }
  | .expire inst => some { s with leases := s.leases.erase inst }
  | .crash r =>
    some { s.setReplica r .empty with
      execs := s.execs.map fun x => if x.replica = r then { x with closed := true } else x }
  | .submit r k inst nodes =>
    if s.issued[k]? = none ∧ inst ∈ (s.replicas r).fences then
      let o : TaskObj :=
        { inst := inst, user := false, status := .pending, defs := true, nodes := pendingNodes nodes,
          order := nodes }
      let row : StoredTask :=
        { inst := inst, user := false, status := .pending, nodes := pendingNodes nodes }
      some ({ s.addObj r k o with
        issued := s.issued.insert k inst
        sink := s.sink.insert k row }.spawn
        { replica := r, task := k, inst := inst, obj := s.objs.length, rerun := false,
          todo := nodes.map Prod.fst, flying := [], failed := false, closed := false })
    else none
  | .submitDraft r k inst nodes =>
    if s.issued[k]? = none ∧ nodes ≠ [] then
      let o : TaskObj :=
        { inst := inst, user := true, status := .pending, defs := true, nodes := pendingNodes nodes,
          order := nodes }
      some { s.addObj r k o with issued := s.issued.insert k inst }
    else none
  | .startDraft r k =>
    match (s.replicas r).tasks[k]? with
    | some i =>
      match s.objs[i]? with
      | some o =>
        if o.user ∧ o.status = .pending ∧ o.order ≠ [] then
          some (s.spawn
            { replica := r, task := k, inst := o.inst, obj := i, rerun := false,
              todo := o.order.map Prod.fst, flying := [], failed := false, closed := false })
        else none
      | none => none
    | none => none
  | .deleteTask r k =>
    let rep := s.replicas r
    let gone : Cluster := { s with sink := s.sink.erase k }
    match (rep.tasks[k]?).bind fun i => s.objs[i]? with
    | some o =>
      if o.status.final ∨ o.status = .skipped then
        some (gone.setReplica r { rep with tasks := rep.tasks.erase k })
      else none
    | none =>
      match s.sink[k]? with
      | some row => if row.status.final ∨ row.status = .skipped then some gone else none
      | none => none
  | .begin x =>
    match s.execs[x]? with
    | some e =>
      if e.closed then none
      else
        let user := ((s.objs[e.obj]?).map (·.user)).getD false
        some ((s.setObj e.obj fun o => { o with status := .running }).upsertTask e.task e.inst user
          .running)
    | none => none
  | .start x n =>
    match s.execs[x]? with
    | some e =>
      if ¬ e.closed ∧ n ∈ e.todo then
        some ((s.setExec x { e with todo := e.todo.erase n, flying := n :: e.flying }).setObj e.obj
          (·.result n .running))
      else none
    | none => none
  | .ended x n ok =>
    match s.execs[x]? with
    | some e =>
      if ¬ e.closed ∧ ¬ e.rerun ∧ n ∈ e.flying then
        let status := if ok then TaskStatus.success else .failed
        some (((s.setExec x { e with flying := e.flying.erase n, failed := e.failed || !ok }).setObj
          e.obj (·.result n status)).persistNode e.task n status)
      else none
    | none => none
  | .finish x canceled =>
    match s.execs[x]? with
    | some e =>
      if ¬ e.closed ∧ ¬ e.rerun ∧ e.flying = [] then
        let skipped := if e.failed then e.todo else []
        let status := if e.failed ∨ canceled then TaskStatus.failed else .success
        let s := s.setExec x { e with closed := true }
        let s := s.setObj e.obj fun o =>
          { skipped.foldl (·.result · .skipped) o with status := status }
        some ((skipped.foldl (·.persistNode e.task · .skipped) s).updateTask e.task status)
      else none
    | none => none
  | .scan r =>
    let rep := s.replicas r
    if rep.leader then
      some (s.setReplica r { rep with
        scan := s.sink.toList.filter fun p => p.2.status = .pending || p.2.status = .running })
    else none
  | .resume r =>
    let rep := s.replicas r
    match rep.scan with
    | (k, row) :: scan =>
      let s := s.setReplica r { rep with scan := scan }
      some (if s.live r k then s else s.resumeOne r k row)
    | [] => none
  | .rerunCheck r k n => some (s.rerunCheck r k n)
  | .rerunStart r =>
    let rep := s.replicas r
    match rep.checked with
    | (k, n, i) :: checked =>
      match s.objs[i]? with
      | some o =>
        let s := s.setReplica r { rep with checked := checked }
        let s := (s.setObj i fun o => { o with status := .running }).upsertTask k o.inst o.user .running
        some (s.spawn
          { replica := r, task := k, inst := o.inst, obj := i, rerun := true, todo := [],
            flying := [n], failed := false, closed := false })
      | none => none
    | [] => none
  | .rerunEnd x ok =>
    match s.execs[x]? with
    | some e =>
      match e.closed, e.rerun, e.flying, s.objs[e.obj]? with
      | false, true, [n], some o =>
        let status := if ok then TaskStatus.success else .failed
        let s := (s.setExec x { e with flying := [], closed := true }).setObj e.obj (·.rerunEnd n status)
        some ((s.persistNode e.task n status).updateTask e.task (o.rerunEnd n status).status)
      | _, _, _, _ => none
    | none => none

/-! ## What is promised, and when -/

/-- The replica has the lease of the instance and the fence for it. -/
def Holds (s : Cluster) (r : Nat) (inst : String) : Prop :=
  s.leases[inst]? = some r ∧ inst ∈ (s.replicas r).fences

/-- No node of a task is executed twice at a time, and every execution has lease and fence. -/
structure Single (s : Cluster) : Prop where
  once : ∀ x ∈ s.execs, x.closed = false → x.flying.Nodup
  apart : ∀ (i j : Nat) (x y : Execution), i ≠ j → s.execs[i]? = some x → s.execs[j]? = some y →
    x.closed = false → y.closed = false → x.task = y.task → ∀ n ∈ x.flying, n ∉ y.flying
  held : ∀ x ∈ s.execs, x.closed = false → s.Holds x.replica x.inst

/-- The row that a replica goes through next is of no task that another replica executes, if it is
resumed. -/
def NotTaken (s : Cluster) (r : Nat) : Prop :=
  ∀ (k : String) (row : StoredTask) (scan : List (String × StoredTask)),
    (s.replicas r).scan = (k, row) :: scan → s.live r k = false → row.toRun ≠ [] →
      ∀ x ∈ s.execs, x.closed = false → x.task = k → x.replica = r

/-- A replica may execute these nodes: it has lease and fence, and none of them is in the hands of
an execution of its own. -/
structure MayRun (s : Cluster) (r : Nat) (k inst : String) (nodes : List String) : Prop where
  nodup : nodes.Nodup
  holds : s.Holds r inst
  free : ∀ x ∈ s.execs, x.closed = false → x.replica = r → x.task = k → ∀ n ∈ x.nodes, n ∉ nodes

/-- Executions begin where lease and fence are held and the nodes are free, and the lease is given
back or expires only when no execution needs it. -/
def Orderly (_ : History Cluster ClusterEvent) (s : Cluster) : ClusterEvent → Prop
  | .submit r _ inst nodes => (nodes.map Prod.fst).Nodup ∧ s.leases[inst]? = some r
  | .startDraft r k => ∀ i o, (s.replicas r).tasks[k]? = some i → s.objs[i]? = some o →
      s.MayRun r k o.inst (o.order.map Prod.fst)
  | .resume r => ∀ k row scan, (s.replicas r).scan = (k, row) :: scan → s.live r k = false →
      row.toRun ≠ [] → s.MayRun r k row.inst row.toRun
  | .rerunStart r => ∀ k n i checked o, (s.replicas r).checked = (k, n, i) :: checked →
      s.objs[i]? = some o → s.MayRun r k o.inst [n]
  | .release r inst => ∀ x ∈ s.execs, x.closed = false → x.replica = r → x.inst ≠ inst
  | .expire inst => ∀ x ∈ s.execs, x.closed = false → x.inst ≠ inst
  | _ => True

/-- Replicas that have just started, over any sink. -/
structure Initial (s : Cluster) : Prop where
  replicas : ∀ r, s.replicas r = .empty
  execs : s.execs = []
  rows : ∀ (k : String) (row : StoredTask), s.sink[k]? = some row → s.issued[k]? = some row.inst

/-! ## A task belongs to one instance -/

end Cluster

/-- Every task that a replica knows has the instance that was given with its id. -/
structure Scheduler.Named (issued : BTreeMap String String) (insts : List String)
    (rep : Scheduler) : Prop where
  tasks : ∀ (k : String) (i : Nat), rep.tasks[k]? = some i →
    ∃ inst, insts[i]? = some inst ∧ issued[k]? = some inst
  scan : ∀ p ∈ rep.scan, issued[p.1]? = some p.2.inst
  checked : ∀ p ∈ rep.checked, ∃ inst, insts[p.2.2]? = some inst ∧ issued[p.1]? = some inst

/-- More task objects and more ids. -/
theorem Scheduler.Named.extend {issued issued' : BTreeMap String String} {insts insts' : List String}
    {rep : Scheduler} (hn : rep.Named issued insts)
    (hpre : ∀ (i : Nat) (inst : String), insts[i]? = some inst → insts'[i]? = some inst)
    (hext : ∀ k inst : String, issued[k]? = some inst → issued'[k]? = some inst) :
    rep.Named issued' insts' where
  tasks k i hi := by
    obtain ⟨inst, hinst, hk⟩ := hn.tasks k i hi
    exact ⟨inst, hpre _ _ hinst, hext _ _ hk⟩
  scan p hp := hext _ _ (hn.scan p hp)
  checked p hp := by
    obtain ⟨inst, hinst, hk⟩ := hn.checked p hp
    exact ⟨inst, hpre _ _ hinst, hext _ _ hk⟩

namespace Cluster

/-- The instances of the task objects. -/
def insts (s : Cluster) : List String := s.objs.map TaskObj.inst

/-- Everywhere a task has the instance that was given with its id. -/
structure Named (s : Cluster) : Prop where
  execs : ∀ x ∈ s.execs, s.issued[x.task]? = some x.inst
  rows : ∀ (k : String) (row : StoredTask), s.sink[k]? = some row → s.issued[k]? = some row.inst
  memory : ∀ r, (s.replicas r).Named s.issued s.insts

section
variable {s : Cluster} {r : Nat} {k inst : String}

theorem Named.setReplica (hn : s.Named) {rep : Scheduler} (hrep : rep.Named s.issued s.insts) :
    (s.setReplica r rep).Named := by
  refine ⟨hn.execs, hn.rows, fun r' => ?_⟩
  simp only [Cluster.setReplica]
  split
  · exact hrep
  · exact hn.memory r'

theorem Named.issue (hn : s.Named) (hk : s.issued[k]? = none) :
    { s with issued := s.issued.insert k inst }.Named := by
  have hext : ∀ k' inst' : String, s.issued[k']? = some inst' →
      (s.issued.insert k inst)[k']? = some inst' := by
    intro k' inst' h
    rw [BTreeMap.getElem?_insert_ite, if_neg]
    · exact h
    · rintro rfl
      cases hk.symm.trans h
  exact ⟨fun x hx => hext _ _ (hn.execs x hx), fun k' row h => hext _ _ (hn.rows k' row h),
    fun r => (hn.memory r).extend (fun _ _ h => h) hext⟩

theorem Named.addObj (hn : s.Named) {o : TaskObj} (hk : s.issued[k]? = some o.inst) :
    (s.addObj r k o).Named := by
  have hpre : ∀ (i : Nat) (inst : String), s.insts[i]? = some inst →
      (s.addObj r k o).insts[i]? = some inst := by
    intro i inst h
    have hlt := (List.getElem?_eq_some_iff.1 h).1
    simp only [insts, Cluster.addObj, List.map_append]
    exact (List.getElem?_append_left hlt).trans h
  have hall : ∀ r, (s.replicas r).Named s.issued (s.addObj r k o).insts := fun r =>
    (hn.memory r).extend hpre fun _ _ h => h
  refine ⟨hn.execs, hn.rows, fun r' => ?_⟩
  simp only [Cluster.addObj, Cluster.setReplica]
  split
  · refine ⟨fun k' i hi => ?_, (hall r).scan, (hall r).checked⟩
    rcases BTreeMap.insert_eq_some hi with ⟨rfl, rfl⟩ | hi
    · exact ⟨o.inst, by simp [insts], hk⟩
    · exact (hall r).tasks k' i hi
  · exact hall r'

theorem Named.spawn (hn : s.Named) {x : Execution} (hx : s.issued[x.task]? = some x.inst) :
    (s.spawn x).Named := by
  refine ⟨fun y hy => ?_, hn.rows, hn.memory⟩
  rcases List.mem_append.1 hy with hy | hy
  · exact hn.execs y hy
  · obtain rfl := List.mem_singleton.1 hy
    exact hx

theorem Named.setExec (hn : s.Named) {x : Nat} {e : Execution}
    (he : s.issued[e.task]? = some e.inst) : (s.setExec x e).Named := by
  refine ⟨fun y hy => ?_, hn.rows, hn.memory⟩
  rcases List.mem_or_eq_of_mem_set hy with hy | rfl
  · exact hn.execs y hy
  · exact he

/-- The instance of a task object never changes. -/
theorem insts_setObj {i : Nat} {f : TaskObj → TaskObj} (hf : ∀ o, (f o).inst = o.inst) :
    (s.setObj i f).insts = s.insts := by
  unfold Cluster.setObj
  split
  · next o ho =>
    obtain ⟨hlt, rfl⟩ := List.getElem?_eq_some_iff.1 ho
    simp only [insts, List.map_set, hf]
    rw [← List.getElem_map TaskObj.inst (h := by simpa using hlt), List.set_getElem_self]
  · rfl

theorem issued_setObj {i : Nat} {f : TaskObj → TaskObj} : (s.setObj i f).issued = s.issued := by
  unfold Cluster.setObj
  split <;> rfl

theorem Named.setObj (hn : s.Named) {i : Nat} {f : TaskObj → TaskObj}
    (hf : ∀ o, (f o).inst = o.inst) : (s.setObj i f).Named := by
  have hinsts := insts_setObj (s := s) (i := i) hf
  unfold Cluster.setObj at hinsts ⊢
  split
  · next o ho =>
    simp only [ho] at hinsts
    refine ⟨hn.execs, hn.rows, fun r => ?_⟩
    rw [hinsts]
    exact hn.memory r
  · exact hn

/-- A row is written. -/
theorem Named.write (hn : s.Named) {row : StoredTask} (hk : s.issued[k]? = some row.inst) :
    { s with sink := s.sink.insert k row }.Named := by
  refine ⟨hn.execs, fun k' row' h => ?_, hn.memory⟩
  rcases BTreeMap.insert_eq_some h with ⟨rfl, rfl⟩ | h
  · exact hk
  · exact hn.rows k' row' h

theorem Named.upsertTask (hn : s.Named) {user : Bool} {status : TaskStatus}
    (hk : s.issued[k]? = some inst) : (s.upsertTask k inst user status).Named := by
  refine hn.write ?_
  split
  · next row hrow => exact hn.rows k row hrow
  · exact hk

theorem Named.updateTask (hn : s.Named) {status : TaskStatus} : (s.updateTask k status).Named := by
  unfold Cluster.updateTask
  split
  · next row hrow => exact hn.write (hn.rows k row hrow)
  · exact hn

theorem Named.persistNode (hn : s.Named) {n : String} {status : TaskStatus} :
    (s.persistNode k n status).Named := by
  unfold Cluster.persistNode
  split
  · next row hrow => exact hn.write (hn.rows k row hrow)
  · exact hn

theorem Named.erase (hn : s.Named) : { s with sink := s.sink.erase k }.Named := by
  refine ⟨hn.execs, fun k' row h => ?_, hn.memory⟩
  rw [BTreeMap.getElem?_erase_ite] at h
  split at h
  · cases h
  · exact hn.rows k' row h

theorem Named.hydrate (hn : s.Named) {s' : Cluster} {i : Nat} {o : TaskObj}
    (h : s.hydrate r k = some (s', i, o)) :
    s'.Named ∧ s'.insts[i]? = some o.inst ∧ s'.issued[k]? = some o.inst := by
  unfold Cluster.hydrate at h
  split at h <;> cases h
  next row hrow =>
  exact ⟨hn.addObj (hn.rows k row hrow), by simp [insts, Cluster.addObj], hn.rows k row hrow⟩

theorem Named.taskOf (hn : s.Named) {s' : Cluster} {i : Nat} {o : TaskObj}
    (h : s.taskOf r k = some (s', i, o)) :
    s'.Named ∧ s'.insts[i]? = some o.inst ∧ s'.issued[k]? = some o.inst := by
  unfold Cluster.taskOf at h
  split at h
  · next j hj =>
    obtain ⟨o', ho, heq⟩ := Option.map_eq_some_iff.1 h
    cases heq
    obtain ⟨inst, hinst, hk⟩ := (hn.memory r).tasks k i hj
    have hi : s.insts[i]? = some o.inst := by simp [insts, ho]
    cases hi.symm.trans hinst
    exact ⟨hn, hi, hk⟩
  · exact hn.hydrate h

theorem Named.rerunCheck (hn : s.Named) {n : String} : (s.rerunCheck r k n).Named := by
  have hpass : ∀ {s' : Cluster} {i : Nat} {o : TaskObj},
      s'.Named ∧ s'.insts[i]? = some o.inst ∧ s'.issued[k]? = some o.inst →
        (if o.rerunnable n then
          s'.setReplica r { s'.replicas r with checked := (s'.replicas r).checked ++ [(k, n, i)] }
        else s').Named := by
    rintro s' i o ⟨hn', hi, hk⟩
    split
    · have hnr := hn'.memory r
      refine hn'.setReplica ⟨hnr.tasks, hnr.scan, fun p hp => ?_⟩
      rcases List.mem_append.1 hp with hp | hp
      · exact hnr.checked p hp
      · obtain rfl := List.mem_singleton.1 hp
        exact ⟨o.inst, hi, hk⟩
    · exact hn'
  simp only [Cluster.rerunCheck]
  split
  · next s' i o ht =>
    have hn' := hn.taskOf ht
    split
    · exact hn'.1
    · split
      · exact hpass hn'
      · split
        · next hh => exact hpass (hn'.1.hydrate hh)
        · exact hn'.1
  · exact hn

/-- `resume_pending` takes a row. -/
theorem Named.nextRow (hn : s.Named) {row : StoredTask} {scan : List (String × StoredTask)}
    (hscan : (s.replicas r).scan = (k, row) :: scan) :
    (s.setReplica r { s.replicas r with scan := scan }).Named ∧ s.issued[k]? = some row.inst := by
  have hnr := hn.memory r
  have hall := hnr.scan
  rw [hscan] at hall
  exact ⟨hn.setReplica ⟨hnr.tasks, fun p hp => hall p (.tail _ hp), hnr.checked⟩,
    hall _ (.head _)⟩

/-- `rerun_node` marks the task as running. -/
theorem Named.nextChecked (hn : s.Named) {n : String} {i : Nat} {o : TaskObj}
    {checked : List (String × String × Nat)} (hc : (s.replicas r).checked = (k, n, i) :: checked)
    (ho : s.objs[i]? = some o) :
    (((s.setReplica r { s.replicas r with checked := checked }).setObj i fun o =>
        { o with status := .running }).upsertTask k o.inst o.user .running).Named ∧
      ((s.setReplica r { s.replicas r with checked := checked }).setObj i fun o =>
        { o with status := .running }).issued[k]? = some o.inst := by
  have hnr := hn.memory r
  have hall := hnr.checked
  rw [hc] at hall
  obtain ⟨inst, hinst, hk⟩ := hall _ (.head _)
  obtain rfl : o.inst = inst := by simpa [insts, ho] using hinst
  have hn' : (s.setReplica r { s.replicas r with checked := checked }).Named :=
    hn.setReplica ⟨hnr.tasks, hnr.scan, fun p hp => hall p (.tail _ hp)⟩
  have hk' : ((s.setReplica r { s.replicas r with checked := checked }).setObj i fun o =>
      { o with status := .running }).issued[k]? = some o.inst := by
    rw [issued_setObj]
    exact hk
  refine ⟨(hn'.setObj ?_).upsertTask hk', hk'⟩
  exact fun _ => rfl

theorem Named.resumeOne (hn : s.Named) {row : StoredTask} (hk : s.issued[k]? = some row.inst) :
    (s.resumeOne r k row).Named := by
  unfold Cluster.resumeOne
  split
  · exact hn
  · exact (hn.addObj hk).spawn hk

theorem inst_foldl_result {o : TaskObj} {ns : List String} {status : TaskStatus} :
    (ns.foldl (·.result · status) o).inst = o.inst := by
  induction ns generalizing o with
  | nil => rfl
  | cons n ns ih => exact ih

theorem Named.foldl_persistNode (hn : s.Named) {ns : List String} {status : TaskStatus} :
    (ns.foldl (·.persistNode k · status) s).Named := by
  induction ns generalizing s with
  | nil => exact hn
  | cons n ns ih => exact ih hn.persistNode

theorem Named.step (hn : s.Named) {e : ClusterEvent} {s' : Cluster} (hs : s.step e = some s') :
    s'.Named := by
  cases e with
  | lead r b =>
    cases hs
    exact hn.setReplica ⟨(hn.memory r).tasks, (hn.memory r).scan, (hn.memory r).checked⟩
  | acquire r inst =>
    simp only [Cluster.step] at hs
    split at hs <;> cases hs
    have hn' : (s.setReplica r { s.replicas r with fences := inst :: (s.replicas r).fences }).Named :=
      hn.setReplica ⟨(hn.memory r).tasks, (hn.memory r).scan, (hn.memory r).checked⟩
    exact ⟨hn'.execs, hn'.rows, hn'.memory⟩
  | release r inst =>
    cases hs
    have hn' : (s.setReplica r { s.replicas r with
        fences := (s.replicas r).fences.filter (· ≠ inst) }).Named :=
      hn.setReplica ⟨(hn.memory r).tasks, (hn.memory r).scan, (hn.memory r).checked⟩
    exact ⟨hn'.execs, hn'.rows, hn'.memory⟩
  | expire inst => cases hs; exact ⟨hn.execs, hn.rows, hn.memory⟩
  | crash r =>
    cases hs
    have hn' : (s.setReplica r .empty).Named := by
      refine hn.setReplica ⟨fun k i h => ?_, fun _ h => (nomatch h), fun _ h => (nomatch h)⟩
      simp [Scheduler.empty] at h
    refine ⟨fun x hx => ?_, hn'.rows, hn'.memory⟩
    obtain ⟨y, hy, rfl⟩ := List.mem_map.1 hx
    have hyk := hn.execs y hy
    split <;> exact hyk
  | submit r k inst nodes =>
    simp only [Cluster.step] at hs
    split at hs <;> cases hs
    next hnew =>
    have hk : (s.issued.insert k inst)[k]? = some inst := by simp
    exact (((hn.issue hnew.1).addObj hk).write hk).spawn hk
  | submitDraft r k inst nodes =>
    simp only [Cluster.step] at hs
    split at hs <;> cases hs
    next hnew =>
    have hk : (s.issued.insert k inst)[k]? = some inst := by simp
    exact (hn.issue hnew.1).addObj hk
  | startDraft r k =>
    simp only [Cluster.step] at hs
    split at hs
    · next i hi =>
      split at hs
      · next o ho =>
        split at hs <;> cases hs
        obtain ⟨inst, hinst, hk⟩ := (hn.memory r).tasks k i hi
        obtain rfl : o.inst = inst := by simpa [insts, ho] using hinst
        exact hn.spawn hk
      · cases hs
    · cases hs
  | deleteTask r k =>
    simp only [Cluster.step] at hs
    split at hs
    · split at hs <;> cases hs
      refine hn.erase.setReplica ⟨fun k' i h => ?_, (hn.memory r).scan, (hn.memory r).checked⟩
      rw [BTreeMap.getElem?_erase_ite] at h
      split at h
      · cases h
      · exact (hn.memory r).tasks k' i h
    · split at hs
      · split at hs <;> cases hs
        exact hn.erase
      · cases hs
  | begin x =>
    simp only [Cluster.step] at hs
    split at hs
    · next e he =>
      split at hs <;> cases hs
      refine (hn.setObj ?_).upsertTask ?_
      · exact fun _ => rfl
      · rw [issued_setObj]
        exact hn.execs e (List.mem_of_getElem? he)
    · cases hs
  | start x n =>
    simp only [Cluster.step] at hs
    split at hs
    · next e he =>
      split at hs <;> cases hs
      refine Named.setObj (hn.setExec ?_) ?_
      · exact hn.execs e (List.mem_of_getElem? he)
      · exact fun _ => rfl
    · cases hs
  | ended x n ok =>
    simp only [Cluster.step] at hs
    split at hs
    · next e he =>
      split at hs <;> cases hs
      refine (Named.setObj (hn.setExec ?_) ?_).persistNode
      · exact hn.execs e (List.mem_of_getElem? he)
      · exact fun _ => rfl
    · cases hs
  | finish x canceled =>
    simp only [Cluster.step] at hs
    split at hs
    · next e he =>
      split at hs <;> cases hs
      refine (Named.setObj (hn.setExec ?_) ?_).foldl_persistNode.updateTask
      · exact hn.execs e (List.mem_of_getElem? he)
      · exact fun _ => inst_foldl_result
    · cases hs
  | scan r =>
    simp only [Cluster.step] at hs
    split at hs <;> cases hs
    refine hn.setReplica ⟨(hn.memory r).tasks, fun p hp => ?_, (hn.memory r).checked⟩
    have hmem := (List.mem_filter.1 hp).1
    exact hn.rows p.1 p.2 (Std.ExtTreeMap.mem_toList_iff_getElem?_eq_some.1 hmem)
  | resume r =>
    simp only [Cluster.step] at hs
    split at hs
    · next k row scan hscan =>
      cases hs
      obtain ⟨hn', hk⟩ := hn.nextRow hscan
      split
      · exact hn'
      · exact hn'.resumeOne hk
    · cases hs
  | rerunCheck r k n => cases hs; exact hn.rerunCheck
  | rerunStart r =>
    simp only [Cluster.step] at hs
    split at hs
    · next k n i checked hchecked =>
      split at hs <;> cases hs
      next o ho =>
      obtain ⟨hn', hk⟩ := hn.nextChecked hchecked ho
      exact hn'.spawn hk
    · cases hs
  | rerunEnd x ok =>
    simp only [Cluster.step] at hs
    split at hs
    · next e he =>
      split at hs <;> cases hs
      refine (Named.setObj (hn.setExec ?_) ?_).persistNode.updateTask
      · exact hn.execs e (List.mem_of_getElem? he)
      · exact fun _ => rfl
    · cases hs

/-! ## What executions need -/

/-- Executions, leases and fences are the same. -/
structure SameRuns (s s' : Cluster) : Prop where
  execs : s'.execs = s.execs
  leases : s'.leases = s.leases
  fences : ∀ r, (s'.replicas r).fences = (s.replicas r).fences

theorem SameRuns.refl : s.SameRuns s := ⟨rfl, rfl, fun _ => rfl⟩

theorem SameRuns.trans {s₁ s₂ s₃ : Cluster} (h : s₁.SameRuns s₂) (h' : s₂.SameRuns s₃) :
    s₁.SameRuns s₃ :=
  ⟨h'.execs.trans h.execs, h'.leases.trans h.leases, fun r => (h'.fences r).trans (h.fences r)⟩

theorem SameRuns.setReplica {rep : Scheduler} (hf : rep.fences = (s.replicas r).fences) :
    s.SameRuns (s.setReplica r rep) := by
  refine ⟨rfl, rfl, fun r' => ?_⟩
  simp only [Cluster.setReplica]
  split
  · next heq => rw [hf, heq]
  · rfl

theorem SameRuns.addObj {o : TaskObj} : s.SameRuns (s.addObj r k o) := by
  have h : s.SameRuns (s.setReplica r { s.replicas r with
      tasks := (s.replicas r).tasks.insert k s.objs.length }) := SameRuns.setReplica rfl
  exact ⟨h.execs, h.leases, h.fences⟩

theorem SameRuns.record {o : TaskObj} {issued : BTreeMap String String}
    {sink : BTreeMap String StoredTask} :
    s.SameRuns { s.addObj r k o with issued := issued, sink := sink } :=
  ⟨rfl, rfl, (SameRuns.addObj (o := o)).fences⟩

theorem SameRuns.setObj {i : Nat} {f : TaskObj → TaskObj} : s.SameRuns (s.setObj i f) := by
  unfold Cluster.setObj
  split <;> exact ⟨rfl, rfl, fun _ => rfl⟩

theorem SameRuns.upsertTask {user : Bool} {status : TaskStatus} :
    s.SameRuns (s.upsertTask k inst user status) :=
  ⟨rfl, rfl, fun _ => rfl⟩

theorem SameRuns.updateTask {status : TaskStatus} : s.SameRuns (s.updateTask k status) := by
  unfold Cluster.updateTask
  split <;> exact ⟨rfl, rfl, fun _ => rfl⟩

theorem SameRuns.persistNode {n : String} {status : TaskStatus} :
    s.SameRuns (s.persistNode k n status) := by
  unfold Cluster.persistNode
  split <;> exact ⟨rfl, rfl, fun _ => rfl⟩

theorem SameRuns.foldl_persistNode {ns : List String} {status : TaskStatus} :
    s.SameRuns (ns.foldl (·.persistNode k · status) s) := by
  induction ns generalizing s with
  | nil => exact SameRuns.refl
  | cons n ns ih => exact SameRuns.persistNode.trans ih

theorem SameRuns.hydrate {s' : Cluster} {i : Nat} {o : TaskObj}
    (h : s.hydrate r k = some (s', i, o)) : s.SameRuns s' := by
  unfold Cluster.hydrate at h
  split at h <;> cases h
  exact SameRuns.addObj

theorem SameRuns.taskOf {s' : Cluster} {i : Nat} {o : TaskObj}
    (h : s.taskOf r k = some (s', i, o)) : s.SameRuns s' := by
  unfold Cluster.taskOf at h
  split at h
  · obtain ⟨o', ho, heq⟩ := Option.map_eq_some_iff.1 h
    cases heq
    exact SameRuns.refl
  · exact SameRuns.hydrate h

theorem SameRuns.rerunCheck {n : String} : s.SameRuns (s.rerunCheck r k n) := by
  have hpass : ∀ {s' : Cluster} {i : Nat} {o : TaskObj}, s.SameRuns s' → s.SameRuns
      (if o.rerunnable n then
        s'.setReplica r { s'.replicas r with checked := (s'.replicas r).checked ++ [(k, n, i)] }
      else s') := by
    intro s' i o h
    split
    · exact h.trans (SameRuns.setReplica rfl)
    · exact h
  simp only [Cluster.rerunCheck]
  split
  · next ht =>
    have h := SameRuns.taskOf ht
    split
    · exact h
    · split
      · exact hpass h
      · split
        · next hh => exact hpass (h.trans (SameRuns.hydrate hh))
        · exact h
  · exact SameRuns.refl

/-- Executions that have not ended have distinct nodes, two of one task have none in common, and
each has lease and fence. -/
structure Alone (s : Cluster) : Prop where
  nodup : ∀ x ∈ s.execs, x.closed = false → x.nodes.Nodup
  apart : ∀ (i j : Nat) (x y : Execution), i ≠ j → s.execs[i]? = some x → s.execs[j]? = some y →
    x.closed = false → y.closed = false → x.task = y.task → ∀ n ∈ x.nodes, n ∉ y.nodes
  held : ∀ x ∈ s.execs, x.closed = false → s.Holds x.replica x.inst

/-- Executions go on. -/
theorem Alone.go {s' : Cluster} (ha : s.Alone)
    (hx : ∀ (i : Nat) (x' : Execution), s'.execs[i]? = some x' →
      ∃ x, s.execs[i]? = some x ∧ x.Shrinks x')
    (hh : ∀ x ∈ s'.execs, x.closed = false → s.Holds x.replica x.inst →
      s'.Holds x.replica x.inst) : s'.Alone where
  nodup x' hmem hov := by
    obtain ⟨i, hi⟩ := List.mem_iff_getElem?.1 hmem
    obtain ⟨x, hxi, hsh⟩ := hx i x' hi
    exact hsh.nodup hov (ha.nodup x (List.mem_of_getElem? hxi) (hsh.closed hov))
  apart i j x' y' hij hi hj hox hoy htask n hn hn' := by
    obtain ⟨x, hxi, hshx⟩ := hx i x' hi
    obtain ⟨y, hyj, hshy⟩ := hx j y' hj
    have htask' : x.task = y.task := by rw [← hshx.task, ← hshy.task, htask]
    exact ha.apart i j x y hij hxi hyj (hshx.closed hox) (hshy.closed hoy) htask' n
      (hshx.nodes hox n hn) (hshy.nodes hoy n hn')
  held x' hmem hov := by
    obtain ⟨i, hi⟩ := List.mem_iff_getElem?.1 hmem
    obtain ⟨x, hxi, hsh⟩ := hx i x' hi
    refine hh x' hmem hov ?_
    rw [hsh.replica, hsh.inst]
    exact ha.held x (List.mem_of_getElem? hxi) (hsh.closed hov)

theorem Holds.congr {s' : Cluster} (hh : s.Holds r inst) (h : s.SameRuns s') : s'.Holds r inst :=
  ⟨h.leases ▸ hh.1, h.fences r ▸ hh.2⟩

theorem Alone.congr {s' : Cluster} (ha : s.Alone) (h : s.SameRuns s') : s'.Alone := by
  exact ha.go (fun i x hx => ⟨x, h.execs ▸ hx, Execution.Shrinks.refl⟩) fun x _ _ hh => hh.congr h

theorem Alone.setExec (ha : s.Alone) {x : Nat} {e e' : Execution} (he : s.execs[x]? = some e)
    (hsh : e.Shrinks e') : (s.setExec x e').Alone := by
  refine ha.go (fun i y hy => ?_) fun _ _ _ hh => hh
  simp only [Cluster.setExec, List.getElem?_set] at hy
  split at hy
  · next heq =>
    subst heq
    split at hy <;> cases hy
    exact ⟨e, he, hsh⟩
  · exact ⟨y, hy, Execution.Shrinks.refl⟩

/-- A new execution, of nodes that no execution of its task has in hand. -/
theorem Alone.spawn (ha : s.Alone) {x : Execution} (hnd : x.nodes.Nodup)
    (hh : s.Holds x.replica x.inst)
    (hfree : ∀ y ∈ s.execs, y.closed = false → y.task = x.task → ∀ n ∈ y.nodes, n ∉ x.nodes) :
    (s.spawn x).Alone where
  nodup y hy hov := by
    rcases List.mem_append.1 hy with hy | hy
    · exact ha.nodup y hy hov
    · obtain rfl := List.mem_singleton.1 hy
      exact hnd
  apart i j y z hij hi hj hoy hoz htask n hn hn' := by
    have hor : ∀ {i : Nat} {y : Execution}, (s.spawn x).execs[i]? = some y →
        s.execs[i]? = some y ∨ (i = s.execs.length ∧ y = x) := by
      intro i y hi
      simp only [Cluster.spawn, List.getElem?_append] at hi
      split at hi
      · exact .inl hi
      · next hlt =>
        obtain ⟨h0, rfl⟩ := List.getElem?_eq_some_iff.1 hi
        simp only [List.length_singleton] at h0
        exact .inr ⟨by omega, by simp⟩
    rcases hor hi with hold | ⟨hlast, rfl⟩ <;> rcases hor hj with hold' | ⟨hlast', rfl⟩
    · exact ha.apart i j y z hij hold hold' hoy hoz htask n hn hn'
    · exact hfree y (List.mem_of_getElem? hold) hoy htask n hn hn'
    · exact hfree z (List.mem_of_getElem? hold') hoz htask.symm n hn' hn
    · exact hij (hlast.trans hlast'.symm)
  held y hy hov := by
    rcases List.mem_append.1 hy with hy | hy
    · exact ha.held y hy hov
    · obtain rfl := List.mem_singleton.1 hy
      exact hh

/-- Whoever has the lease executes the tasks of the instance. -/
theorem Alone.replica_eq (ha : s.Alone) (hn : s.Named) (hk : s.issued[k]? = some inst)
    (hl : s.leases[inst]? = some r) {x : Execution} (hx : x ∈ s.execs) (hov : x.closed = false)
    (htask : x.task = k) : x.replica = r := by
  subst htask
  cases (hn.execs x hx).symm.trans hk
  exact Option.some.inj ((ha.held x hx hov).1.symm.trans hl)

/-- Nodes that a replica may execute are free. -/
theorem Alone.mayRun (ha : s.Alone) (hn : s.Named) {x : Execution}
    (hk : s.issued[x.task]? = some x.inst) (hm : s.MayRun x.replica x.task x.inst x.nodes) :
    (s.spawn x).Alone := by
  refine ha.spawn hm.nodup hm.holds fun y hy hoy htask => ?_
  exact hm.free y hy hoy (ha.replica_eq hn hk hm.holds.1 hy hoy htask) htask

theorem Alone.single (ha : s.Alone) : s.Single where
  once x hx hov := (List.nodup_append.1 (ha.nodup x hx hov)).2.1
  apart i j x y hij hi hj hox hoy htask n hn hn' :=
    ha.apart i j x y hij hi hj hox hoy htask n (List.mem_append_right _ hn)
      (List.mem_append_right _ hn')
  held := ha.held

theorem Initial.named (h0 : Initial s) : s.Named := by
  refine ⟨fun x hx => ?_, h0.rows, fun r => ?_⟩
  · rw [h0.execs] at hx
    cases hx
  · rw [h0.replicas]
    refine ⟨fun k i h => ?_, fun _ h => (nomatch h), fun _ h => (nomatch h)⟩
    simp [Scheduler.empty] at h

theorem Initial.alone (h0 : Initial s) : s.Alone := by
  refine ⟨?_, ?_, ?_⟩ <;> simp [h0.execs]

theorem MayRun.congr {s' : Cluster} {nodes : List String} (hm : s.MayRun r k inst nodes)
    (h : s.SameRuns s') : s'.MayRun r k inst nodes :=
  ⟨hm.nodup, hm.holds.congr h, h.execs ▸ hm.free⟩

theorem Alone.acquire (ha : s.Alone) (hfree : s.leases[inst]? = none) :
    { s.setReplica r { s.replicas r with fences := inst :: (s.replicas r).fences } with
      leases := s.leases.insert inst r }.Alone := by
  refine ha.go (fun i x hx => ⟨x, hx, Execution.Shrinks.refl⟩) fun x _ _ hh => ⟨?_, ?_⟩
  · rw [BTreeMap.getElem?_insert_ite, if_neg]
    · exact hh.1
    · intro heq
      cases (heq ▸ hfree).symm.trans hh.1
  · simp only [Cluster.setReplica]
    split
    · next heq => exact .tail _ (heq ▸ hh.2)
    · exact hh.2

theorem Alone.release (ha : s.Alone)
    (hg : ∀ x ∈ s.execs, x.closed = false → x.replica = r → x.inst ≠ inst) :
    { s.setReplica r { s.replicas r with fences := (s.replicas r).fences.filter (· ≠ inst) } with
      leases := if s.leases[inst]? = some r then s.leases.erase inst else s.leases }.Alone := by
  refine ha.go (fun i x hx => ⟨x, hx, Execution.Shrinks.refl⟩) fun x hx hov hh => ⟨?_, ?_⟩
  · simp only
    split
    · next hl =>
      rw [BTreeMap.getElem?_erase_ite, if_neg]
      · exact hh.1
      · rintro rfl
        exact hg x hx hov (Option.some.inj (hh.1.symm.trans hl)) rfl
    · exact hh.1
  · simp only [Cluster.setReplica]
    split
    · next heq => exact List.mem_filter.2 ⟨heq ▸ hh.2, by simpa using hg x hx hov heq⟩
    · exact hh.2

theorem Alone.expire (ha : s.Alone) (hg : ∀ x ∈ s.execs, x.closed = false → x.inst ≠ inst) :
    { s with leases := s.leases.erase inst }.Alone := by
  refine ha.go (fun i x hx => ⟨x, hx, Execution.Shrinks.refl⟩) fun x hx hov hh => ⟨?_, hh.2⟩
  rw [BTreeMap.getElem?_erase_ite, if_neg]
  · exact hh.1
  · exact fun heq => hg x hx hov heq.symm

/-- A replica that stops takes its executions with it. -/
theorem Alone.crash (ha : s.Alone) :
    { s.setReplica r .empty with
      execs := s.execs.map fun x : Execution =>
        if x.replica = r then { x with closed := true } else x }.Alone := by
  refine ha.go (fun i x' hx => ?_) fun x' hx' hov hh => ⟨hh.1, ?_⟩
  · rw [List.getElem?_map] at hx
    obtain ⟨x, hi, rfl⟩ := Option.map_eq_some_iff.1 hx
    refine ⟨x, hi, ?_⟩
    split
    · exact ⟨rfl, rfl, rfl, fun h => (nomatch h), fun h => (nomatch h), fun h => (nomatch h)⟩
    · exact Execution.Shrinks.refl
  · obtain ⟨x, hx, rfl⟩ := List.mem_map.1 hx'
    simp only [Cluster.setReplica]
    split at hov
    · cases hov
    · next hne =>
      rw [if_neg hne] at hh ⊢
      rw [if_neg hne]
      exact hh.2

/-- Every orderly step keeps the executions apart. -/
theorem Alone.step {h : History Cluster ClusterEvent} {e : ClusterEvent} {s' : Cluster}
    (ha : s.Alone) (hn : s.Named) (hg : Orderly h s e) (hs : s.step e = some s') : s'.Alone := by
  cases e with
  | lead r b => cases hs; exact ha.congr (SameRuns.setReplica rfl)
  | acquire r inst =>
    simp only [Cluster.step] at hs
    split at hs <;> cases hs
    next hfree => exact ha.acquire hfree.2
  | release r inst => cases hs; exact ha.release hg
  | expire inst => cases hs; exact ha.expire hg
  | crash r => cases hs; exact ha.crash
  | submit r k inst nodes =>
    simp only [Cluster.step] at hs
    split at hs <;> cases hs
    next hnew =>
    have hh : s.Holds r inst := ⟨hg.2, hnew.2⟩
    refine (ha.congr SameRuns.record).spawn ?_ (hh.congr SameRuns.record) fun y hy _ htask => ?_
    · simpa [Execution.nodes] using hg.1
    · -- the id is new
      have hy' := hn.execs y hy
      rw [htask] at hy'
      cases hnew.1.symm.trans hy'
  | submitDraft r k inst nodes =>
    simp only [Cluster.step] at hs
    split at hs <;> cases hs
    exact ha.congr SameRuns.record
  | startDraft r k =>
    simp only [Cluster.step] at hs
    split at hs
    · next i hi =>
      split at hs
      · next o ho =>
        split at hs <;> cases hs
        obtain ⟨inst, hinst, hk⟩ := (hn.memory r).tasks k i hi
        obtain rfl : o.inst = inst := by simpa [insts, ho] using hinst
        refine ha.mayRun hn hk ?_
        simpa [Execution.nodes] using hg i o hi ho
      · cases hs
    · cases hs
  | deleteTask r k =>
    simp only [Cluster.step] at hs
    split at hs
    · split at hs <;> cases hs
      have hgone : s.SameRuns { s with sink := s.sink.erase k } := ⟨rfl, rfl, fun _ => rfl⟩
      exact ha.congr (hgone.trans (SameRuns.setReplica rfl))
    · split at hs
      · split at hs <;> cases hs
        exact ha.congr ⟨rfl, rfl, fun _ => rfl⟩
      · cases hs
  | begin x =>
    simp only [Cluster.step] at hs
    split at hs
    · split at hs <;> cases hs
      exact ha.congr (SameRuns.setObj.trans SameRuns.upsertTask)
    · cases hs
  | start x n =>
    simp only [Cluster.step] at hs
    split at hs
    · next e he =>
      split at hs <;> cases hs
      next hn => exact (ha.setExec he (Execution.Shrinks.start hn.2)).congr SameRuns.setObj
    · cases hs
  | ended x n ok =>
    simp only [Cluster.step] at hs
    split at hs
    · next e he =>
      split at hs <;> cases hs
      refine (ha.setExec he ?_).congr (SameRuns.setObj.trans SameRuns.persistNode)
      exact Execution.Shrinks.less (List.Sublist.refl _) List.erase_sublist
    · cases hs
  | finish x canceled =>
    simp only [Cluster.step] at hs
    split at hs
    · next e he =>
      split at hs <;> cases hs
      refine (ha.setExec he Execution.Shrinks.ends).congr
        ((SameRuns.setObj.trans SameRuns.foldl_persistNode).trans SameRuns.updateTask)
    · cases hs
  | scan r =>
    simp only [Cluster.step] at hs
    split at hs <;> cases hs
    exact ha.congr (SameRuns.setReplica rfl)
  | resume r =>
    simp only [Cluster.step] at hs
    split at hs
    · next k row scan hscan =>
      cases hs
      have hsame : s.SameRuns (s.setReplica r { s.replicas r with scan := scan }) :=
        SameRuns.setReplica rfl
      obtain ⟨hn', hk⟩ := hn.nextRow hscan
      split
      · exact ha.congr hsame
      · next hlive =>
        unfold Cluster.resumeOne
        split
        · exact ha.congr hsame
        · next hrun =>
          have hlive' : s.live r k = false := by simpa [live, Cluster.setReplica] using hlive
          have hm := hg k row scan hscan hlive' hrun
          refine (ha.congr (hsame.trans SameRuns.addObj)).mayRun (hn'.addObj hk) hk ?_
          simpa [Execution.nodes] using hm.congr (hsame.trans SameRuns.addObj)
    · cases hs
  | rerunCheck r k n => cases hs; exact ha.congr SameRuns.rerunCheck
  | rerunStart r =>
    simp only [Cluster.step] at hs
    split at hs
    · next k n i checked hchecked =>
      split at hs <;> cases hs
      next o ho =>
      obtain ⟨hn', hk⟩ := hn.nextChecked hchecked ho
      have hsame : s.SameRuns (((s.setReplica r { s.replicas r with checked := checked }).setObj i
          fun o => { o with status := .running }).upsertTask k o.inst o.user .running) := by
        refine (SameRuns.trans (SameRuns.setReplica ?_) SameRuns.setObj).trans SameRuns.upsertTask
        rfl
      refine (ha.congr hsame).mayRun hn' hk ?_
      simpa [Execution.nodes] using (hg k n i checked o hchecked ho).congr hsame
    · cases hs
  | rerunEnd x ok =>
    simp only [Cluster.step] at hs
    split at hs
    · next e he =>
      split at hs <;> cases hs
      exact (ha.setExec he Execution.Shrinks.ends).congr
        ((SameRuns.setObj.trans SameRuns.persistNode).trans SameRuns.updateTask)
    · cases hs

end

/-- When every execution begins with lease and fence and with nodes that are free, and leases
outlive the executions, a task runs on one replica at a time. -/
theorem one_replica_at_a_time {h : History Cluster ClusterEvent} {s : Cluster}
    (hr : Run step Orderly Initial h s) :
    (∀ u ∈ h.states s, u.Single) ∧ ∀ t r, (t, .resume r) ∈ h → t.NotTaken r := by
  have hinv : (∀ u ∈ h.states s, u.Named ∧ u.Alone) ∧
      ∀ t r, (t, .resume r) ∈ h → t.NotTaken r := by
    refine hr.invariant (I := fun h s => (∀ u ∈ h.states s, u.Named ∧ u.Alone) ∧
      ∀ t r, (t, .resume r) ∈ h → t.NotTaken r) (fun s h0 => ?_) fun h s e s' _ ih hg hs => ?_
    · refine ⟨fun u hu => ?_, fun _ _ hm => nomatch hm⟩
      obtain rfl : u = s := by simpa using hu
      exact ⟨h0.named, h0.alone⟩
    · obtain ⟨hn, ha⟩ := ih.1 s (History.mem_states.2 (.inl rfl))
      refine ⟨fun u hu => ?_, fun t r hm => ?_⟩
      · rcases List.mem_cons.1 hu with rfl | hu
        · exact ⟨hn.step hs, ha.step hn hg hs⟩
        · exact ih.1 u hu
      · rcases List.mem_cons.1 hm with heq | hm
        · cases heq
          intro k row scan hscan hlive hrun x hx hov htask
          have hk := (hn.nextRow hscan).2
          exact ha.replica_eq hn hk (hg k row scan hscan hlive hrun).holds.1 hx hov htask
        · exact ih.2 t r hm
  exact ⟨fun u hu => (hinv.1 u hu).2.single, hinv.2⟩

/-! ## Two replicas -/

instance {s : Cluster} {r : Nat} {inst : String} : Decidable (s.Holds r inst) :=
  inferInstanceAs (Decidable (_ ∧ _))

theorem mayRun_iff {s : Cluster} {r : Nat} {k inst : String} {nodes : List String} :
    s.MayRun r k inst nodes ↔ nodes.Nodup ∧ s.Holds r inst ∧
      ∀ x ∈ s.execs.filter fun x => !x.closed && x.replica == r && x.task == k,
        ∀ n ∈ x.nodes, n ∉ nodes := by
  have hmem (x : Execution) : (x ∈ s.execs.filter fun x => !x.closed && x.replica == r && x.task == k) ↔
      x ∈ s.execs ∧ x.closed = false ∧ x.replica = r ∧ x.task = k := by
    simp [List.mem_filter, and_assoc]
  constructor
  · intro h
    refine ⟨h.nodup, h.holds, fun x hx => ?_⟩
    obtain ⟨hs, hc, hr, hk⟩ := (hmem x).1 hx
    exact h.free x hs hc hr hk
  · rintro ⟨hnodup, hholds, hfree⟩
    exact ⟨hnodup, hholds, fun x hs hc hr hk => hfree x ((hmem x).2 ⟨hs, hc, hr, hk⟩)⟩

instance {s : Cluster} {r : Nat} {k inst : String} {nodes : List String} :
    Decidable (s.MayRun r k inst nodes) :=
  decidable_of_iff' _ mayRun_iff

/-- The condition on `resume`, as a check. -/
def resumeOk (s : Cluster) (r : Nat) : List (String × StoredTask) → Bool
  | (k, row) :: _ => s.live r k || decide (row.toRun = []) || decide (s.MayRun r k row.inst row.toRun)
  | [] => true

/-- The conditions on a first execution and on one that is resumed, as a check; of the other events
those are let through that have no condition. -/
def orderlyCheck (s : Cluster) : ClusterEvent → Bool
  | .submit r _ inst nodes => (nodes.map Prod.fst).Nodup ∧ s.leases[inst]? = some r
  | .resume r => s.resumeOk r (s.replicas r).scan
  | .release r inst => ∀ x ∈ s.execs, x.closed = false → x.replica = r → x.inst ≠ inst
  | .expire inst => ∀ x ∈ s.execs, x.closed = false → x.inst ≠ inst
  | .startDraft _ _ | .rerunStart _ => false
  | _ => true

theorem orderly_of_check {h : History Cluster ClusterEvent} {s : Cluster} {e : ClusterEvent}
    (hc : s.orderlyCheck e = true) : Orderly h s e := by
  cases e with
  | submit | release | expire => simpa [orderlyCheck, Orderly] using hc
  | resume r =>
    intro k row scan hscan hlive hrun
    simp only [orderlyCheck, hscan, resumeOk, hlive, Bool.false_or, Bool.or_eq_true] at hc
    rcases hc with hc | hc
    · exact absurd (of_decide_eq_true hc) hrun
    · exact of_decide_eq_true hc
  | startDraft | rerunStart => cases hc
  | _ => trivial

/-- Replicas over an empty sink. -/
def fresh : Cluster := ⟨fun _ => .empty, [], ∅, ∅, [], ∅⟩

theorem fresh_initial : Initial fresh where
  replicas _ := rfl
  execs := rfl
  rows k row h := by simp [fresh] at h

/-- Replica 0 stops while it executes a task, and replica 1 takes the lease and resumes it. -/
theorem one_replica_at_a_time_crash : ∃ (h : History Cluster ClusterEvent) (s : Cluster),
    Run step Orderly Initial h s ∧ s.execs.map (fun x => (x.replica, x.closed)) =
      [(0, true), (1, true)] ∧ (∀ u ∈ h.states s, u.Single) ∧
        ∀ t r, (t, .resume r) ∈ h → t.NotTaken r := by
  have hf : (follow step (fun _ s e => s.orderlyCheck e = true)
      [ .lead 0 true, .acquire 0 "orders", .submit 0 "t-create-1" "orders" [("run", [])], .begin 0,
        .start 0 "run", .crash 0, .expire "orders", .lead 1 true, .acquire 1 "orders", .scan 1,
        .resume 1, .begin 1, .start 1 "run", .ended 1 "run" true, .finish 1 false ] [] fresh).map
      (fun p => p.2.execs.map fun x => (x.replica, x.closed)) = some [(0, true), (1, true)] := by
    decide +kernel
  obtain ⟨⟨h, s⟩, hfollow, hval⟩ := Option.map_eq_some_iff.1 hf
  have hr : Run step Orderly Initial h s :=
    ((Run.start fresh_initial).follow hfollow).mono fun _ _ _ => orderly_of_check
  exact ⟨h, s, hr, hval, one_replica_at_a_time hr⟩

/-- Replica 1 executes a task that it has submitted, and replica 0, the leader, has found the same
task in the sink and executes it too. -/
theorem task_executed_by_two_replicas :
    ¬ ∀ (h : History Cluster ClusterEvent) (s : Cluster),
      Run step (fun _ _ _ => True) Initial h s →
        (∀ u ∈ h.states s, u.Single) ∧ ∀ t r, (t, .resume r) ∈ h → t.NotTaken r := by
  intro hall
  have hf : (follow step (fun _ _ _ => True)
      [ .lead 0 true, .acquire 1 "orders", .submit 1 "t-create-1" "orders" [("run", [])], .begin 0,
        .scan 0, .resume 0, .begin 1, .start 0 "run", .start 1 "run" ] [] fresh).map
      (fun p => p.2.execs.map fun x => (x.replica, x.task, x.flying, x.closed)) =
        some [(1, "t-create-1", ["run"], false), (0, "t-create-1", ["run"], false)] := by
    decide +kernel
  obtain ⟨⟨h, s⟩, hfollow, hval⟩ := Option.map_eq_some_iff.1 hf
  have hr : Run step (fun _ _ _ => True) Initial h s := (Run.start fresh_initial).follow hfollow
  have hs := (hall h s hr).1 s (History.mem_states.2 (.inl rfl))
  simp only [List.map_eq_cons_iff, List.map_eq_nil_iff, Prod.mk.injEq] at hval
  obtain ⟨x, _, hexecs, ⟨-, hkx, hfx, hox⟩, y, _, rfl, ⟨-, hky, hfy, hoy⟩, rfl⟩ := hval
  refine hs.apart 0 1 x y (by decide) ?_ ?_ hox hoy (hkx.trans hky.symm) "run" ?_ ?_
  · rw [hexecs]
    rfl
  · rw [hexecs]
    rfl
  · simp [hfx]
  · simp [hfy]

end Cluster

end Rdsctl.Dag
