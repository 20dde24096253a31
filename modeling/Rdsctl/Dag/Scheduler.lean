import Mathlib.Data.List.Basic

/-!
# The scheduler of task graphs

`src/dag.rs`: a task is a list of nodes with dependencies, each a sequence of steps. `execute` runs
them in waves of nodes whose dependencies have ended. A step is what the step executor is given;
nothing here looks inside it.

What the scheduler does not decide is the `Env` of a run: the answers of the executor, the order in
which the nodes of a wave end, panics of their futures, and the cancel flag whenever it is read.
`execute` leaves a trace of the attempts it starts and of the rows it writes to the store, oldest
first.
-/

namespace Rdsctl.Dag

/-- The status of a node or a task. -/
inductive TaskStatus
  | pending
  | running
  | success
  | failed
  | skipped
deriving DecidableEq, Repr

/-- The result of a node. -/
structure NodeResult where
  status : TaskStatus
  output : String
  attempts : Nat
deriving DecidableEq, Repr

/-- What the executor is told about the step it is given. -/
structure StepCtx where
  taskId : String
  inst : String
  nodeId : String
  stepIdx : Nat
deriving DecidableEq, Repr

/-- A node of a task. -/
structure TaskNode (Step : Type) where
  id : String
  name : String
  deps : List String
  retries : Nat
  timeoutSecs : Option Nat
  steps : List Step

/-- A node as the store keeps it; the lists of dependencies and steps are stored as JSON. -/
structure NodeRow (Step : Type) where
  nodeId : String
  name : String
  deps : List String
  steps : List Step
  status : TaskStatus
  output : String
  attempts : Nat
  retries : Nat
  timeoutSecs : Option Nat

/-- What becomes of a step: the answer of the executor, and whether the node's time is over
before. -/
structure Reply where
  answer : Except String String
  late : Bool

/-- What a run leaves behind. -/
inductive Event (Step : Type)
  /-- the steps of the node are started for this attempt -/
  | start (id : String) (attempt : Nat)
  /-- `upsert_node` -/
  | node (row : NodeRow Step)
  /-- `upsert_task` and `update_task_status` -/
  | task (status : TaskStatus)

/-- What is not decided by the scheduler. -/
structure Env (Step : Type) where
  executor : StepCtx → Nat → Step → Reply
  /-- the order in which the nodes of a wave end -/
  completion : Nat → List (TaskNode Step) → List (TaskNode Step)
  /-- the attempt in which the future of this node panics -/
  panics : String → Option Nat
  /-- the cancel flag before a wave, when a node is spawned, and at the end -/
  canceledAt : Nat → Bool
  canceledFor : Nat → String → Bool
  canceledAtEnd : Bool

/-- The task that a run belongs to. -/
structure TaskInfo where
  id : String
  inst : String

variable {Step : Type}

/-! ## One node -/

/-- The outcome of a step, with the timeout of its node. -/
def stepOutcome (env : Env Step) (ctx : StepCtx) (attempt : Nat) (node : TaskNode Step)
    (step : Step) : Except String String :=
  match node.timeoutSecs with
  | some secs =>
    if (env.executor ctx attempt step).late then .error ("步骤超时(>" ++ toString secs ++ "s)")
    else (env.executor ctx attempt step).answer
  | none => (env.executor ctx attempt step).answer

/-- Run steps until one fails: the outputs, and the error. -/
def runSteps (env : Env Step) (task : TaskInfo) (node : TaskNode Step) (attempt : Nat) :
    Nat → List Step → List String × Option String
  | _, [] => ([], none)
  | idx, step :: steps =>
    match stepOutcome env ⟨task.id, task.inst, node.id, idx⟩ attempt node step with
    | .error e => ([], some e)
    | .ok o =>
      let (logs, err) := runSteps env task node attempt (idx + 1) steps
      (o :: logs, err)

/-- The output of a node that has failed. -/
def failureOutput (logs : List String) (attempts : Nat) (err : String) : String :=
  let out := "\n".intercalate logs
  (if out.isEmpty then out else out ++ "\n") ++ "[第 " ++ toString attempts ++ " 次尝试失败] " ++ err

/-- Attempt the steps, after `attempts` attempts, with `left` retries left. -/
def runLoop (env : Env Step) (task : TaskInfo) (node : TaskNode Step) :
    Nat → Nat → Except String String × Nat
  | left, attempts =>
    match runSteps env task node (attempts + 1) 0 node.steps with
    | (logs, none) => (.ok ("\n".intercalate logs), attempts + 1)
    | (logs, some err) =>
      match left with
      | left + 1 => runLoop env task node left (attempts + 1)
      | 0 => (.error (failureOutput logs (attempts + 1) err), attempts + 1)

/-- Run a node: its output or error, and the number of attempts. -/
def runNode (env : Env Step) (task : TaskInfo) (node : TaskNode Step) :
    Except String String × Nat :=
  runLoop env task node node.retries 0

/-! ## Cycles -/

/-- The depth-first search for a cycle from `id`; `seen` is the pair of the nodes being visited and
the nodes that were. `fuel` exceeds the depth of the search. -/
def cycleDfs (nodes : List (TaskNode Step)) :
    Nat → String → List String × List String → Bool × (List String × List String)
  | 0, _, seen => (true, seen)
  | fuel + 1, id, (visiting, visited) =>
    if id ∈ visiting then (true, (visiting, visited))
    else if id ∈ visited then (false, (visiting, visited))
    else
      let deps := ((nodes.find? fun n => n.id = id).map TaskNode.deps).getD []
      let (found, (visiting, visited)) := deps.foldl
        (fun acc d => if acc.1 then acc else cycleDfs nodes fuel d acc.2)
        (false, (id :: visiting, visited))
      if found then (true, (visiting, visited))
      else (false, (visiting.filter (· ≠ id), id :: visited))

/-- The search from each of some nodes. -/
def findCycleFrom (nodes : List (TaskNode Step)) :
    List (TaskNode Step) → List String × List String → Option String
  | [], _ => none
  | n :: ns, seen =>
    match cycleDfs nodes (nodes.length + 1) n.id seen with
    | (true, _) => some n.id
    | (false, seen) => findCycleFrom nodes ns seen

/-- The first node from which a cycle is found. -/
def findCycle (nodes : List (TaskNode Step)) : Option String := findCycleFrom nodes nodes ([], [])

/-! ## The run of a task -/

/-- The variables of `execute`. -/
structure Exec (Step : Type) where
  results : String → Option NodeResult
  depsLeft : String → Nat
  pending : List String
  ready : List (TaskNode Step)
  failed : Bool
  trace : List (Event Step)

/-- The node that a map built from the list holds under an id: the last one. -/
def nodeById (nodes : List (TaskNode Step)) (id : String) : Option (TaskNode Step) :=
  nodes.reverse.find? fun n => n.id = id

/-- The ids of the nodes that name `id` as a dependency, once for each time they do. -/
def dependents (nodes : List (TaskNode Step)) (id : String) : List String :=
  nodes.flatMap fun n => (n.deps.filter (· = id)).map fun _ => n.id

/-- `results.insert` -/
def insertResult (results : String → Option NodeResult) (id : String) (r : NodeResult) :
    String → Option NodeResult :=
  fun x => if x = id then some r else results x

/-- The row of a node with a result. -/
def TaskNode.row (n : TaskNode Step) (r : NodeResult) : NodeRow Step :=
  ⟨n.id, n.name, n.deps, n.steps, r.status, r.output, r.attempts, n.retries, n.timeoutSecs⟩

/-- `persist_node` -/
def persistNode (n : TaskNode Step) (r : NodeResult) : Event Step := .node (n.row r)

/-- `persist_node` of the node that `node_by_id` holds. -/
def persistById (nodes : List (TaskNode Step)) (id : String) (r : NodeResult) : List (Event Step) :=
  match nodeById nodes id with
  | some n => [persistNode n r]
  | none => []

/-- What comes of a spawned node: nothing when it panics. -/
def outcome (env : Env Step) (task : TaskInfo) (wave : Nat) (n : TaskNode Step) :
    Option (Except String String × Nat) :=
  if env.canceledFor wave n.id then some (.error "任务已取消", 0)
  else if (env.panics n.id).isSome then none
  else some (runNode env task n)

/-- How many attempts a spawned node makes. -/
def attemptsOf (env : Env Step) (task : TaskInfo) (wave : Nat) (n : TaskNode Step) : Nat :=
  match outcome env task wave n with
  | some out => out.2
  | none => (env.panics n.id).getD 0

/-- The starts of the first attempts of a node. -/
def starts (id : String) (attempts : Nat) : List (Event Step) :=
  (List.range attempts).map fun k => .start id (k + 1)

/-- Spawn a node of the wave. The trace tells the attempts that it will make. -/
def spawn (env : Env Step) (task : TaskInfo) (wave : Nat) (st : Exec Step) (n : TaskNode Step) :
    Exec Step :=
  { st with
    pending := st.pending.filter (· ≠ n.id)
    results := insertResult st.results n.id ⟨.running, "", 0⟩
    trace := st.trace ++ starts n.id (attemptsOf env task wave n) }

/-- One dependency of `d` has ended. -/
def release (nodes : List (TaskNode Step)) (st : Exec Step) (d : String) : Exec Step :=
  let c := st.depsLeft d - 1
  let st := { st with depsLeft := fun x => if x = d then c else st.depsLeft x }
  if c = 0 ∧ d ∈ st.pending then
    match nodeById nodes d with
    | some n => { st with ready := st.ready ++ [n] }
    | none => st
  else st

/-- The result of a node that has ended. -/
def resultOf : Except String String × Nat → NodeResult
  | (.ok out, attempts) => ⟨.success, out, attempts⟩
  | (.error out, attempts) => ⟨.failed, out, attempts⟩

/-- A node of the wave has ended. -/
def settle (env : Env Step) (task : TaskInfo) (nodes : List (TaskNode Step)) (wave : Nat)
    (st : Exec Step) (n : TaskNode Step) : Exec Step :=
  match outcome env task wave n with
  | none =>
    { st with
      failed := true
      results := insertResult st.results "__panic__" ⟨.failed, "节点执行异常: panic", 0⟩ }
  | some out =>
    let r := resultOf out
    let st := { st with
      failed := st.failed || r.status = .failed
      results := insertResult st.results n.id r
      trace := st.trace ++ persistById nodes n.id r }
    (dependents nodes n.id).foldl (release nodes) st

/-- The result of a node that is skipped. -/
def skippedResult : NodeResult := ⟨.skipped, "上游节点失败,跳过", 0⟩

/-- A node that is still pending after a failure is skipped. -/
def skip (st : Exec Step) (n : TaskNode Step) : Exec Step :=
  if n.id ∈ st.pending then
    { st with
      pending := st.pending.filter (· ≠ n.id)
      results := insertResult st.results n.id skippedResult
      trace := st.trace ++ [persistNode n skippedResult] }
  else st

/-- The loop of `execute`. `fuel` exceeds the number of waves. -/
def waves (env : Env Step) (task : TaskInfo) (nodes : List (TaskNode Step)) :
    Nat → Nat → Exec Step → Option (Exec Step)
  | 0, _, _ => none
  | fuel + 1, wave, st =>
    if st.ready.isEmpty || env.canceledAt wave then some st
    else
      let spawned := st.ready.foldl (spawn env task wave) st
      let st := (env.completion wave st.ready).foldl (settle env task nodes wave)
        { spawned with ready := [] }
      if st.failed then some (nodes.foldl skip st)
      else waves env task nodes fuel (wave + 1) st

/-- The variables before the first wave. -/
def initExec (results : String → Option NodeResult) (nodes : List (TaskNode Step)) : Exec Step :=
  let depsLeft id := ((nodeById nodes id).map fun n => n.deps.length).getD 0
  { results := results
    depsLeft := depsLeft
    pending := nodes.map TaskNode.id
    ready := nodes.filter fun n => depsLeft n.id = 0
    failed := false
    trace := [.task .running] }

/-- The node that closes a cycle fails, the others are skipped. -/
def rejectCycle (cycle : String) (st : Exec Step) (n : TaskNode Step) : Exec Step :=
  let r : NodeResult :=
    if n.id = cycle then ⟨.failed, "DAG 检测到环: " ++ cycle, 0⟩ else skippedResult
  { st with results := insertResult st.results n.id r, trace := st.trace ++ [persistNode n r] }

/-- What `execute` leaves: the status of the task, the results of its nodes, and the trace. -/
structure Outcome (Step : Type) where
  status : TaskStatus
  results : String → Option NodeResult
  trace : List (Event Step)

/-- `finish_task` -/
def finishTask (st : Exec Step) (status : TaskStatus) : Outcome Step :=
  ⟨status, st.results, st.trace ++ [.task status]⟩

/-- Run the nodes of a task whose results so far are `results`. -/
def execute (env : Env Step) (task : TaskInfo) (results : String → Option NodeResult)
    (nodes : List (TaskNode Step)) (fuel : Nat) : Option (Outcome Step) :=
  let st := initExec results nodes
  match findCycle nodes with
  | some cycle => some (finishTask (nodes.foldl (rejectCycle cycle) st) .failed)
  | none =>
    (waves env task nodes fuel 0 st).map fun st =>
      finishTask st (if st.failed || env.canceledAtEnd then .failed else .success)

end Rdsctl.Dag
