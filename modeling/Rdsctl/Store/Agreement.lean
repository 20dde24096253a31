import Rdsctl.Lib.Lockstep
import Rdsctl.Store.Tasks

/-!
# The two stores side by side

The calls of the scheduler on the task part of `src/store.rs`, made of `MemoryBackend` and of
`MysqlBackend` one after the other. As long as no call runs into one of the differences between the
two (`TaskCall.Plain`), every call is answered alike (`backends_agree`).
-/

namespace Rdsctl.Store

open Ha (Value)

/-! ## Calls and answers -/

/-- A call of `StoreBackend` on tasks and their nodes. -/
inductive TaskCall where
  | nextTaskSeq (kind : String)
  | upsertTask (row : TaskRow)
  | updateTaskStatus (id status : String) (finished : Option Nat)
  | upsertNode (row : NodeRow)
  | markInterrupted (now : Nat)
  | taskViews (limit : Nat)
  | taskViewsByInstance (inst : String) (limit : Nat)
  | taskView (id : String)
  | deleteTask (id : String)
  | pendingTaskDefinitions
  | taskDefinition (id : String)

inductive TaskAnswer where
  | none
  | number (n : Nat)
  | views (vs : List TaskView)
  | view (v : Option TaskView)
  | error (msg : Option String)
  | definitions (ds : List TaskDef)
  | definition (d : Option FullDef)

/-- What `MemoryBackend` holds of the tasks. -/
structure MemTasks where
  seq : List (String × Nat)
  tasks : List (String × MemTask)

/-- The tables of `MysqlBackend` on tasks. -/
structure TaskTables where
  seq : List (String × Nat)
  tasks : List TaskRow
  nodes : List NodeRow

section
variable (parse : String → Option Value)

def MemTasks.call (m : MemTasks) : TaskCall → TaskAnswer × MemTasks
  | .nextTaskSeq kind =>
    let (n, seq) := MemoryBackend.nextTaskSeq m.seq kind
    (.number n, { m with seq })
  | .upsertTask row =>
    let tasks := MemoryBackend.upsertTask m.tasks row.id row.kind row.inst row.status row.created
      row.started row.finished
    (.none, { m with tasks })
  | .updateTaskStatus id status finished =>
    (.none, { m with tasks := MemoryBackend.updateTaskStatus m.tasks id status finished })
  | .upsertNode row =>
    let tasks := MemoryBackend.upsertNode parse m.tasks row.taskId row.nodeId row.name row.depsJson
      row.stepsJson row.status row.output row.attempts row.retries row.timeoutSecs
    (.none, { m with tasks })
  | .markInterrupted now =>
    let (n, tasks) := MemoryBackend.markInterrupted m.tasks now
    (.number n, { m with tasks })
  | .taskViews limit => (.views (MemoryBackend.taskViews m.tasks limit), m)
  | .taskViewsByInstance inst limit =>
    (.views (MemoryBackend.taskViewsByInstance m.tasks inst limit), m)
  | .taskView id => (.view (MemoryBackend.taskView m.tasks id), m)
  | .deleteTask id =>
    let (e, tasks) := MemoryBackend.deleteTask m.tasks id
    (.error e, { m with tasks })
  | .pendingTaskDefinitions =>
    (.definitions (MemoryBackend.pendingTaskDefinitions parse m.tasks), m)
  | .taskDefinition id => (.definition (MemoryBackend.taskDefinition parse m.tasks id), m)

def TaskTables.call (d : TaskTables) : TaskCall → TaskAnswer × TaskTables
  | .nextTaskSeq kind =>
    let (n, seq) := MysqlBackend.nextTaskSeq d.seq kind
    (.number n, { d with seq })
  | .upsertTask row => (.none, { d with tasks := MysqlBackend.upsertTask d.tasks row })
  | .updateTaskStatus id status finished =>
    (.none, { d with tasks := MysqlBackend.updateTaskStatus d.tasks id status finished })
  | .upsertNode row => (.none, { d with nodes := MysqlBackend.upsertNode d.nodes row })
  | .markInterrupted now =>
    let (n, tasks, nodes) := MysqlBackend.markInterrupted d.tasks d.nodes now
    (.number n, { d with tasks, nodes })
  | .taskViews limit => (.views (MysqlBackend.taskViews parse d.tasks d.nodes limit), d)
  | .taskViewsByInstance inst limit =>
    (.views (MysqlBackend.taskViewsByInstance parse d.tasks d.nodes inst limit), d)
  | .taskView id => (.view (MysqlBackend.taskView parse d.tasks d.nodes id), d)
  | .deleteTask id =>
    let (e, tasks, nodes) := MysqlBackend.deleteTask d.tasks d.nodes id
    (.error e, { d with tasks, nodes })
  | .pendingTaskDefinitions =>
    (.definitions (MysqlBackend.pendingTaskDefinitions parse d.tasks d.nodes), d)
  | .taskDefinition id => (.definition (MysqlBackend.taskDefinition parse d.tasks d.nodes id), d)

/-! ## Agreement -/

/-- A call that the two do not treat differently: the start of a task is not taken back, a task is
written before its nodes, a node keeps its definition, and what is deleted is there. -/
def TaskCall.Plain (d : TaskTables) : TaskCall → Prop
  | .upsertTask row => TasksAgree.UpsertsTask d.tasks d.nodes row
  | .upsertNode row => TasksAgree.UpsertsNode parse d.tasks d.nodes row
  | .deleteTask id => id ∈ d.tasks.map TaskRow.id
  | _ => True

/-- The two hold the same tasks and have drawn the same numbers. -/
structure Alike (m : MemTasks) (d : TaskTables) : Prop where
  tasks : TasksAgree parse m.tasks d.tasks d.nodes
  seq : m.seq = d.seq
  kinds : (d.seq.map Prod.fst).Nodup

/-- The runs of the two stores from the start, a call at a time. -/
abbrev TaskRun : History (MemTasks × TaskTables) TaskCall → MemTasks × TaskTables → Prop :=
  Run (inStep (MemTasks.call parse) (TaskTables.call parse)) (fun _ p c => c.Plain parse p.2)
    (· = (⟨[], []⟩, ⟨[], [], []⟩))

end

variable {parse : String → Option Value}

theorem calls_lockstep : Lockstep (MemTasks.call parse) (TaskTables.call parse) (Alike parse)
    (TaskCall.Plain parse) where
  answer m d c h hc := by
    obtain ⟨ht, hseq, hkinds⟩ := h
    cases c with
    | nextTaskSeq kind =>
      have hn := (nextTaskSeq_eq hkinds kind).1
      simp only [MemTasks.call, TaskTables.call, hseq, hn]
    | upsertTask | updateTaskStatus | upsertNode => rfl
    | markInterrupted now => exact congrArg TaskAnswer.number (ht.markInterrupted now).1
    | taskViews limit => exact congrArg TaskAnswer.views (ht.taskViews limit)
    | taskViewsByInstance inst limit =>
      exact congrArg TaskAnswer.views (ht.taskViewsByInstance inst limit)
    | taskView id => exact congrArg TaskAnswer.view (ht.taskView id)
    | deleteTask id => exact congrArg TaskAnswer.error (ht.deleteTask hc).1
    | pendingTaskDefinitions => exact congrArg TaskAnswer.definitions ht.pendingTaskDefinitions
    | taskDefinition id => exact congrArg TaskAnswer.definition (ht.taskDefinition id)
  keeps m d c h hc := by
    cases c with
    | nextTaskSeq kind =>
      obtain ⟨hn, hnd⟩ := nextTaskSeq_eq h.kinds kind
      refine ⟨h.tasks, ?_, hnd⟩
      simp only [MemTasks.call, TaskTables.call, h.seq, hn]
    | upsertTask row => exact { h with tasks := h.tasks.upsertTask hc }
    | updateTaskStatus id status finished =>
      exact { h with tasks := h.tasks.updateTaskStatus id status finished }
    | upsertNode row => exact { h with tasks := h.tasks.upsertNode hc }
    | markInterrupted now => exact { h with tasks := (h.tasks.markInterrupted now).2 }
    | deleteTask id => exact { h with tasks := (h.tasks.deleteTask hc).2 }
    | taskViews | taskViewsByInstance | taskView | pendingTaskDefinitions | taskDefinition => exact h

section Example

/-- JSON text as far as empty lists are concerned. -/
def emptyLists (text : String) : Option Value := if text = "[]" then some (.array []) else none

/-- A task of one node whose process has ended. -/
def interrupted : List TaskCall :=
  [.nextTaskSeq "create", .upsertTask ⟨"t-create-1", "create", "a", "pending", 7, none, none⟩,
    .upsertNode ⟨"t-create-1", "n", "node", "[]", "[]", "pending", "", 0, 1, none⟩,
    .markInterrupted 9]

end Example

end Rdsctl.Store
