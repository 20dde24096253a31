import Mathlib.Data.Multiset.MapFold
import Rdsctl.Ha.Basic
import Rdsctl.Lib.Table

/-!
# Tasks in the two stores

The calls of `src/store.rs` on tasks and their nodes, in `MemoryBackend` and in `MysqlBackend`. The
first one keeps the nodes inside their task, the second one in a table of their own, so that it takes
nodes of a task that is not there. `TasksAgree` is what the two have to have in common for their
answers to be the same; each call keeps it that does not run into one of the differences
(`TasksAgree.upsertTask`, `TasksAgree.upsertNode`, and so on).

`parse` reads JSON text, as `serde_json` and the server do. The entries of a `HashMap` and the rows
that a query answers in no order are lists here, and what is answered of them is a multiset.
-/

namespace Rdsctl.Store

open Ha (Value)

/-! ## What is answered -/

/-- A node in `task_view`. -/
structure NodeView where
  id : String
  name : String
  status : String
  output : String
  attempts : Nat
  deps : Value

structure TaskView where
  id : String
  kind : String
  inst : String
  status : String
  created : Nat
  started : Option Nat
  finished : Option Nat
  nodes : Multiset NodeView

/-- A node in `task_definition`. -/
structure NodeDef where
  nodeId : String
  name : String
  deps : Value
  steps : Value
  status : String
  output : String
  attempts : Nat
  retries : Nat
  timeoutSecs : Option Nat

structure TaskDef where
  id : String
  kind : String
  inst : String
  created : Nat
  nodes : Multiset NodeDef

/-- What `task_definition` adds. -/
structure FullDef extends TaskDef where
  status : String
  started : Option Nat
  finished : Option Nat

/-- The order of `task_views`: the latest first, and then by descending id. -/
def TaskView.before (a b : TaskView) : Bool :=
  b.created < a.created || (a.created = b.created && b.id ≤ a.id)

/-- A list of strings as JSON. -/
def strings (l : List String) : Value := .array (l.map .string)

/-- The statuses that `mark_interrupted` takes away. -/
def isOpen (status : String) : Bool := status = "pending" || status = "running"

/-! ## `MemoryBackend` -/

structure MemNode where
  name : String
  deps : List String
  status : String
  output : String
  attempts : Nat
  retries : Nat
  timeoutSecs : Option Nat
  steps : String

structure MemTask where
  kind : String
  inst : String
  status : String
  created : Nat
  started : Option Nat
  finished : Option Nat
  nodes : List (String × MemNode)

/-- `serde_json::from_str::<Vec<String>>(…).unwrap_or_default()` -/
def depsOf (parse : String → Option Value) (json : String) : List String :=
  (((parse json).bind Value.asArray).bind fun vs => vs.mapM Value.asStr).getD []

namespace MemNode

def view (e : String × MemNode) : NodeView :=
  ⟨e.1, e.2.name, e.2.status, e.2.output, e.2.attempts, strings e.2.deps⟩

def definition (parse : String → Option Value) (e : String × MemNode) : NodeDef :=
  ⟨e.1, e.2.name, strings e.2.deps, (parse e.2.steps).getD (.array []), e.2.status, e.2.output,
    e.2.attempts, e.2.retries, e.2.timeoutSecs⟩

/-- What `mark_interrupted` makes of a node of a failed task. -/
def skip (n : MemNode) : MemNode :=
  if isOpen n.status then { n with status := "skipped", output := "进程中断,任务未完成" } else n

end MemNode

namespace MemTask

/-- `mem_task_view` -/
def view (e : String × MemTask) : TaskView :=
  ⟨e.1, e.2.kind, e.2.inst, e.2.status, e.2.created, e.2.started, e.2.finished,
    (e.2.nodes.map MemNode.view : List NodeView)⟩

def definition (parse : String → Option Value) (e : String × MemTask) : TaskDef :=
  ⟨e.1, e.2.kind, e.2.inst, e.2.created, (e.2.nodes.map (MemNode.definition parse) : List NodeDef)⟩

/-- The two loops of `mark_interrupted`. -/
def fail (now : Nat) (t : MemTask) : MemTask :=
  if isOpen t.status then { t with status := "failed", finished := some now } else t

def skipNodes (t : MemTask) : MemTask :=
  if t.status = "failed" then { t with nodes := t.nodes.map fun e => (e.1, e.2.skip) } else t

end MemTask

/-- `HashMap::get_mut`, and a change of what it finds. -/
def modifyAt {α : Type} (m : List (String × α)) (k : String) (f : α → α) : List (String × α) :=
  m.map fun e => if e.1 = k then (k, f e.2) else e

/-- `HashMap::insert` -/
def insertAt {α : Type} (m : List (String × α)) (k : String) (a : α) : List (String × α) :=
  Table.upsert Prod.fst (fun _ e => e) m (k, a)

namespace MemoryBackend

def nextTaskSeq (seq : List (String × Nat)) (kind : String) : Nat × List (String × Nat) :=
  match seq.lookup kind with
  | some v => (v + 1, modifyAt seq kind fun _ => v + 1)
  | none => (1, seq ++ [(kind, 1)])

def upsertTask (tasks : List (String × MemTask)) (id kind inst status : String) (created : Nat)
    (started finished : Option Nat) : List (String × MemTask) :=
  if (tasks.lookup id).isSome then
    modifyAt tasks id fun t => { t with
      status, started := if started.isSome then started else t.started, finished }
  else tasks ++ [(id, ⟨kind, inst, status, created, started, finished, []⟩)]

def updateTaskStatus (tasks : List (String × MemTask)) (id status : String)
    (finished : Option Nat) : List (String × MemTask) :=
  modifyAt tasks id fun t => { t with status, finished }

/-- Nothing is kept of a node whose task is not there. -/
def upsertNode (parse : String → Option Value) (tasks : List (String × MemTask))
    (taskId nodeId name depsJson stepsJson status output : String) (attempts retries : Nat)
    (timeoutSecs : Option Nat) : List (String × MemTask) :=
  modifyAt tasks taskId fun t => { t with
    nodes := insertAt t.nodes nodeId ⟨name, depsOf parse depsJson, status, output, attempts,
      retries, timeoutSecs, stepsJson⟩ }

def markInterrupted (tasks : List (String × MemTask)) (now : Nat) :
    Nat × List (String × MemTask) :=
  (tasks.countP fun e => isOpen e.2.status,
    (tasks.map fun e => (e.1, e.2.fail now)).map fun e => (e.1, e.2.skipNodes))

def taskViews (tasks : List (String × MemTask)) (limit : Nat) : List TaskView :=
  ((tasks.map MemTask.view).mergeSort TaskView.before).take limit

def taskViewsByInstance (tasks : List (String × MemTask)) (inst : String) (limit : Nat) :
    List TaskView :=
  taskViews (tasks.filter fun e => e.2.inst = inst) limit

def taskView (tasks : List (String × MemTask)) (id : String) : Option TaskView :=
  (tasks.find? fun e => e.1 = id).map MemTask.view

/-- The text of the error, when the task is not there. -/
def deleteTask (tasks : List (String × MemTask)) (id : String) :
    Option String × List (String × MemTask) :=
  if (tasks.lookup id).isSome then (none, tasks.filter fun e => e.1 ≠ id)
  else (some ("任务 " ++ id ++ " 不存在"), tasks)

def pendingTaskDefinitions (parse : String → Option Value) (tasks : List (String × MemTask)) :
    List TaskDef :=
  (tasks.filter fun e => isOpen e.2.status).map (MemTask.definition parse)

def taskDefinition (parse : String → Option Value) (tasks : List (String × MemTask))
    (id : String) : Option FullDef :=
  (tasks.find? fun e => e.1 = id).map fun e =>
    ⟨MemTask.definition parse e, e.2.status, e.2.started, e.2.finished⟩

end MemoryBackend

/-! ## `MysqlBackend` -/

/-- A row of `tasks`. -/
structure TaskRow where
  id : String
  kind : String
  inst : String
  status : String
  created : Nat
  started : Option Nat
  finished : Option Nat

/-- A row of `task_nodes`. -/
structure NodeRow where
  taskId : String
  nodeId : String
  name : String
  depsJson : String
  stepsJson : String
  status : String
  output : String
  attempts : Nat
  retries : Nat
  timeoutSecs : Option Nat

namespace NodeRow

/-- `PRIMARY KEY (task_id, node_id)` -/
def key (r : NodeRow) : String × String := (r.taskId, r.nodeId)

/-- A text that is not JSON fails the whole statement. -/
def view (parse : String → Option Value) (r : NodeRow) : Option NodeView :=
  (parse r.depsJson).map fun deps => ⟨r.nodeId, r.name, r.status, r.output, r.attempts, deps⟩

def definition (parse : String → Option Value) (r : NodeRow) : Option NodeDef := do
  let deps ← parse r.depsJson
  let steps ← parse r.stepsJson
  some ⟨r.nodeId, r.name, deps, steps, r.status, r.output, r.attempts, r.retries, r.timeoutSecs⟩

/-- `ON DUPLICATE KEY UPDATE`, without `name`, `deps_json` and `steps_json`. -/
def merge (old new : NodeRow) : NodeRow :=
  { new with
    taskId := old.taskId, nodeId := old.nodeId
    name := old.name, depsJson := old.depsJson, stepsJson := old.stepsJson }

def skip (r : NodeRow) : NodeRow :=
  if isOpen r.status then { r with status := "skipped", output := "进程中断,任务未完成" } else r

end NodeRow

namespace TaskRow

/-- The nodes of a task. -/
def nodesOf (nodes : List NodeRow) (t : TaskRow) : List NodeRow :=
  nodes.filter fun r => r.taskId = t.id

def view (parse : String → Option Value) (nodes : List NodeRow) (t : TaskRow) : Option TaskView :=
  ((t.nodesOf nodes).mapM (NodeRow.view parse)).map fun vs =>
    ⟨t.id, t.kind, t.inst, t.status, t.created, t.started, t.finished, vs⟩

def definition (parse : String → Option Value) (nodes : List NodeRow) (t : TaskRow) :
    Option TaskDef :=
  ((t.nodesOf nodes).mapM (NodeRow.definition parse)).map fun ds =>
    ⟨t.id, t.kind, t.inst, t.created, ds⟩

def fail (now : Nat) (t : TaskRow) : TaskRow :=
  if isOpen t.status then { t with status := "failed", finished := some now } else t

end TaskRow

namespace MysqlBackend

/-- `LAST_INSERT_ID` carries the number that is written. -/
def nextTaskSeq (seq : List (String × Nat)) (kind : String) : Nat × List (String × Nat) :=
  (((seq.lookup kind).map (· + 1)).getD 1,
    Table.upsert Prod.fst (fun old _ => (old.1, old.2 + 1)) seq (kind, 1))

def upsertTask (tasks : List TaskRow) (row : TaskRow) : List TaskRow :=
  Table.upsert TaskRow.id (fun old row => { old with
    status := row.status, started := row.started, finished := row.finished }) tasks row

def updateTaskStatus (tasks : List TaskRow) (id status : String) (finished : Option Nat) :
    List TaskRow :=
  tasks.map fun t => if t.id = id then { t with status, finished } else t

def upsertNode (nodes : List NodeRow) (row : NodeRow) : List NodeRow :=
  Table.upsert NodeRow.key NodeRow.merge nodes row

/-- The first `UPDATE`, its `ROW_COUNT()`, and the `UPDATE` of the nodes, joined with their task. -/
def markInterrupted (tasks : List TaskRow) (nodes : List NodeRow) (now : Nat) :
    Nat × List TaskRow × List NodeRow :=
  let failed := tasks.map (TaskRow.fail now)
  (tasks.countP fun t => isOpen t.status, failed,
    nodes.map fun r =>
      if failed.any fun t => r.taskId = t.id && t.status = "failed" then r.skip else r)

def taskViews (parse : String → Option Value) (tasks : List TaskRow) (nodes : List NodeRow)
    (limit : Nat) : List TaskView :=
  (((tasks.mapM (TaskRow.view parse nodes)).getD []).mergeSort TaskView.before).take limit

def taskViewsByInstance (parse : String → Option Value) (tasks : List TaskRow)
    (nodes : List NodeRow) (inst : String) (limit : Nat) : List TaskView :=
  taskViews parse (tasks.filter fun t => t.inst = inst) nodes limit

def taskView (parse : String → Option Value) (tasks : List TaskRow) (nodes : List NodeRow)
    (id : String) : Option TaskView :=
  (tasks.find? fun t => t.id = id).bind (TaskRow.view parse nodes)

def deleteTask (tasks : List TaskRow) (nodes : List NodeRow) (id : String) :
    Option String × List TaskRow × List NodeRow :=
  (none, tasks.filter fun t => t.id ≠ id, nodes.filter fun r => r.taskId ≠ id)

def pendingTaskDefinitions (parse : String → Option Value) (tasks : List TaskRow)
    (nodes : List NodeRow) : List TaskDef :=
  ((tasks.filter fun t => isOpen t.status).mapM (TaskRow.definition parse nodes)).getD []

def taskDefinition (parse : String → Option Value) (tasks : List TaskRow) (nodes : List NodeRow)
    (id : String) : Option FullDef :=
  (tasks.find? fun t => t.id = id).bind fun t =>
    (t.definition parse nodes).map fun d => ⟨d, t.status, t.started, t.finished⟩

end MysqlBackend

/-! ## What they have in common -/

section
variable {parse : String → Option Value}

/-- An entry and a row of one node. -/
structure SameNode (parse : String → Option Value) (e : String × MemNode) (r : NodeRow) : Prop where
  id : e.1 = r.nodeId
  name : e.2.name = r.name
  deps : parse r.depsJson = some (strings e.2.deps)
  steps : ∃ v, parse r.stepsJson = some v ∧ parse e.2.steps = some v
  status : e.2.status = r.status
  output : e.2.output = r.output
  attempts : e.2.attempts = r.attempts
  retries : e.2.retries = r.retries
  timeoutSecs : e.2.timeoutSecs = r.timeoutSecs

/-- An entry and a row of one task, with its nodes. -/
structure SameTask (parse : String → Option Value) (nodes : List NodeRow) (e : String × MemTask)
    (t : TaskRow) : Prop where
  id : e.1 = t.id
  kind : e.2.kind = t.kind
  inst : e.2.inst = t.inst
  status : e.2.status = t.status
  created : e.2.created = t.created
  started : e.2.started = t.started
  finished : e.2.finished = t.finished
  nodes : List.Forall₂ (SameNode parse) e.2.nodes (t.nodesOf nodes)

/-- The tasks of the two stores are the same. -/
structure TasksAgree (parse : String → Option Value) (mem : List (String × MemTask))
    (tasks : List TaskRow) (nodes : List NodeRow) : Prop where
  rows : List.Forall₂ (SameTask parse nodes) mem tasks
  nodup : (tasks.map TaskRow.id).Nodup

variable {mem : List (String × MemTask)} {tasks : List TaskRow} {nodes : List NodeRow}
  {e : String × MemTask} {t : TaskRow} {id : String}

/-! ## Answers -/

theorem SameNode.view {n : String × MemNode} {r : NodeRow} (h : SameNode parse n r) :
    r.view parse = some (MemNode.view n) := by
  obtain ⟨hid, hname, hdeps, -, hstatus, houtput, hattempts, -, -⟩ := h
  simp [NodeRow.view, MemNode.view, hdeps, hid, hname, hstatus, houtput, hattempts]

theorem SameNode.definition {n : String × MemNode} {r : NodeRow} (h : SameNode parse n r) :
    r.definition parse = some (MemNode.definition parse n) := by
  obtain ⟨hid, hname, hdeps, ⟨v, hv, hv'⟩, hstatus, houtput, hattempts, hretries, htimeout⟩ := h
  simp [NodeRow.definition, MemNode.definition, hdeps, hv, hv', hid, hname, hstatus, houtput,
    hattempts, hretries, htimeout]

theorem SameTask.view (h : SameTask parse nodes e t) : t.view parse nodes = some (MemTask.view e) := by
  have hnodes := Table.mapM_of_forall₂ (h.nodes.imp fun _ _ hn => hn.view)
  obtain ⟨hid, hkind, hinst, hstatus, hcreated, hstarted, hfinished, -⟩ := h
  simp [TaskRow.view, MemTask.view, hnodes, hid, hkind, hinst, hstatus, hcreated, hstarted,
    hfinished]

theorem SameTask.definition (h : SameTask parse nodes e t) :
    t.definition parse nodes = some (MemTask.definition parse e) := by
  have hnodes := Table.mapM_of_forall₂ (h.nodes.imp fun _ _ hn => hn.definition)
  obtain ⟨hid, hkind, hinst, -, hcreated, -, -, -⟩ := h
  simp [TaskRow.definition, MemTask.definition, hnodes, hid, hkind, hinst, hcreated]

/-- Entries and rows are found together. -/
theorem forall₂_find? {α β : Type} {R : α → β → Prop} {p : α → Bool} {q : β → Bool} {as : List α}
    {bs : List β} (hpq : ∀ a b, R a b → p a = q b) (h : List.Forall₂ R as bs) :
    Option.Rel R (as.find? p) (bs.find? q) := by
  induction h with
  | nil => exact .none
  | @cons a b as bs hab _ ih =>
    rw [List.find?_cons, List.find?_cons, ← hpq a b hab]
    cases p a with
    | true => exact .some hab
    | false => exact ih

theorem isSome_lookup_iff {α : Type} (m : List (String × α)) (k : String) :
    (m.lookup k).isSome = decide (k ∈ m.map Prod.fst) := by
  induction m with
  | nil => rfl
  | cons e m ih =>
    rw [List.lookup_cons, List.map_cons]
    rcases eq_or_ne k e.1 with hk | hk
    · simp [hk]
    · simp [beq_false_of_ne hk, hk, ih]

namespace TasksAgree

theorem sameId (h : SameTask parse nodes e t) (id : String) :
    decide (e.1 = id) = decide (t.id = id) := by rw [h.id]

theorem taskViews (h : TasksAgree parse mem tasks nodes) (limit : Nat) :
    MemoryBackend.taskViews mem limit = MysqlBackend.taskViews parse tasks nodes limit := by
  have hviews := Table.mapM_of_forall₂ (h.rows.imp fun _ _ ht => ht.view)
  rw [MemoryBackend.taskViews, MysqlBackend.taskViews, hviews]
  rfl

theorem filter (h : TasksAgree parse mem tasks nodes) {p : String × MemTask → Bool}
    {q : TaskRow → Bool} (hpq : ∀ e t, SameTask parse nodes e t → p e = q t) :
    TasksAgree parse (mem.filter p) (tasks.filter q) nodes where
  rows := List.rel_filter (fun e t ht => by simp only [hpq e t ht]) h.rows
  nodup := h.nodup.sublist (List.filter_sublist.map _)

theorem taskViewsByInstance (h : TasksAgree parse mem tasks nodes) (inst : String) (limit : Nat) :
    MemoryBackend.taskViewsByInstance mem inst limit =
      MysqlBackend.taskViewsByInstance parse tasks nodes inst limit :=
  (h.filter fun e t ht => by rw [ht.inst]).taskViews limit

theorem taskView (h : TasksAgree parse mem tasks nodes) (id : String) :
    MemoryBackend.taskView mem id = MysqlBackend.taskView parse tasks nodes id := by
  rw [MemoryBackend.taskView, MysqlBackend.taskView]
  have hfind := forall₂_find? (fun e t (ht : SameTask parse nodes e t) => sameId ht id) h.rows
  generalize (mem.find? fun e => e.1 = id) = o, (tasks.find? fun t => t.id = id) = o' at hfind ⊢
  cases hfind with
  | none => rfl
  | some ht => exact ht.view.symm

theorem pendingTaskDefinitions (h : TasksAgree parse mem tasks nodes) :
    MemoryBackend.pendingTaskDefinitions parse mem =
      MysqlBackend.pendingTaskDefinitions parse tasks nodes := by
  have hopen := (h.filter fun e t (ht : SameTask parse nodes e t) => by
    rw [ht.status] : TasksAgree parse (mem.filter fun e => isOpen e.2.status)
      (tasks.filter fun t => isOpen t.status) nodes)
  have hdefs := Table.mapM_of_forall₂ (hopen.rows.imp fun _ _ ht => ht.definition)
  rw [MemoryBackend.pendingTaskDefinitions, MysqlBackend.pendingTaskDefinitions, hdefs]
  rfl

theorem taskDefinition (h : TasksAgree parse mem tasks nodes) (id : String) :
    MemoryBackend.taskDefinition parse mem id =
      MysqlBackend.taskDefinition parse tasks nodes id := by
  rw [MemoryBackend.taskDefinition, MysqlBackend.taskDefinition]
  have hfind := forall₂_find? (fun e t (ht : SameTask parse nodes e t) => sameId ht id) h.rows
  generalize (mem.find? fun e => e.1 = id) = o, (tasks.find? fun t => t.id = id) = o' at hfind ⊢
  cases hfind with
  | none => rfl
  | some ht => simp [ht.definition, ht.status, ht.started, ht.finished]

/-! ## Changes -/

/-- Corresponding changes of the tasks. -/
theorem map (h : TasksAgree parse mem tasks nodes) {nodes' : List NodeRow}
    {f : String × MemTask → String × MemTask} {g : TaskRow → TaskRow}
    (hfg : ∀ e, ∀ t ∈ tasks, SameTask parse nodes e t → SameTask parse nodes' (f e) (g t))
    (hid : ∀ t, (g t).id = t.id) : TasksAgree parse (mem.map f) (tasks.map g) nodes' where
  rows := by
    obtain ⟨hrows, -⟩ := h
    induction hrows with
    | nil => exact .nil
    | cons het _ ih =>
      exact .cons (hfg _ _ List.mem_cons_self het)
        (ih fun e t ht => hfg e t (List.mem_cons_of_mem _ ht))
  nodup := by
    have hsame : TaskRow.id ∘ g = TaskRow.id := funext hid
    rw [List.map_map, hsame]
    exact h.nodup

theorem ids (h : TasksAgree parse mem tasks nodes) : mem.map Prod.fst = tasks.map TaskRow.id := by
  obtain ⟨hrows, -⟩ := h
  induction hrows with
  | nil => rfl
  | cons het _ ih => rw [List.map_cons, List.map_cons, ih, het.id]

theorem isSome_lookup (h : TasksAgree parse mem tasks nodes) (id : String) :
    (mem.lookup id).isSome = decide (id ∈ tasks.map TaskRow.id) := by
  rw [isSome_lookup_iff, h.ids]

/-- `upsert_task` keeps the start of a task in one store only, and finds nodes that were written
before their task in the other one. -/
def UpsertsTask (tasks : List TaskRow) (nodes : List NodeRow) (row : TaskRow) : Prop :=
  (∀ t ∈ tasks, t.id = row.id → t.started.isSome → row.started.isSome) ∧
    (row.id ∉ tasks.map TaskRow.id → row.nodesOf nodes = [])

theorem upsertTask (h : TasksAgree parse mem tasks nodes) {row : TaskRow}
    (hc : UpsertsTask tasks nodes row) :
    TasksAgree parse (MemoryBackend.upsertTask mem row.id row.kind row.inst row.status row.created
      row.started row.finished) (MysqlBackend.upsertTask tasks row) nodes := by
  rw [MemoryBackend.upsertTask, h.isSome_lookup, MysqlBackend.upsertTask]
  rcases Decidable.em (row.id ∈ tasks.map TaskRow.id) with hmem | hnew
  · rw [if_pos (decide_eq_true hmem), Table.upsert_eq_map h.nodup hmem]
    refine h.map (fun e t ht het => ?_) fun t => by split <;> rfl
    simp only [het.id]
    split
    next hid =>
      refine ⟨hid.symm, het.kind, het.inst, rfl, het.created, ?_, rfl, het.nodes⟩
      show (if row.started.isSome then row.started else e.2.started) = row.started
      split
      · rfl
      next hnone =>
        have hold : ¬t.started.isSome := fun hs => hnone (hc.1 t ht hid hs)
        rw [het.started, Option.not_isSome_iff_eq_none.1 hold,
          Option.not_isSome_iff_eq_none.1 hnone]
    · exact het
  · rw [if_neg (by simpa using hnew), Table.upsert_eq_append hnew]
    refine ⟨List.rel_append h.rows (.cons ?_ .nil), ?_⟩
    · refine ⟨rfl, rfl, rfl, rfl, rfl, rfl, rfl, ?_⟩
      rw [hc.2 hnew]
      exact .nil
    · rw [List.map_append]
      exact List.nodup_append'.2 ⟨h.nodup, List.nodup_singleton _,
        List.disjoint_singleton.2 hnew⟩

theorem updateTaskStatus (h : TasksAgree parse mem tasks nodes) (id status : String)
    (finished : Option Nat) :
    TasksAgree parse (MemoryBackend.updateTaskStatus mem id status finished)
      (MysqlBackend.updateTaskStatus tasks id status finished) nodes := by
  refine h.map (fun e t ht het => ?_) fun t => by split <;> rfl
  simp only [het.id]
  split
  next hid => exact ⟨hid.symm, het.kind, het.inst, rfl, het.created, het.started, rfl, het.nodes⟩
  · exact het

theorem nodesOf_upsert (nodes : List NodeRow) (row : NodeRow) (t : TaskRow) :
    t.nodesOf (MysqlBackend.upsertNode nodes row) =
      if row.taskId = t.id then MysqlBackend.upsertNode (t.nodesOf nodes) row
      else t.nodesOf nodes := by
  rw [TaskRow.nodesOf, MysqlBackend.upsertNode, Table.filter_upsert]
  · simp [TaskRow.nodesOf, MysqlBackend.upsertNode]
  · intro r hr
    have htask : r.taskId = row.taskId := (Prod.ext_iff.1 hr).1
    rw [htask]
  · intro old hold
    have htask : old.taskId = row.taskId := (Prod.ext_iff.1 hold).1
    rw [NodeRow.merge, htask]

end TasksAgree

/-- The row has the name, the dependencies and the steps that `row` brings. -/
def NodeRow.Carries (parse : String → Option Value) (r row : NodeRow) : Prop :=
  r.name = row.name ∧ parse r.depsJson = some (strings (depsOf parse row.depsJson)) ∧
    ∃ v, parse r.stepsJson = some v ∧ parse row.stepsJson = some v

/-- Every row has an entry. -/
theorem exists_entry {α β : Type} {R : α → β → Prop} {as : List α} {bs : List β} {b : β}
    (h : List.Forall₂ R as bs) (hb : b ∈ bs) : ∃ a ∈ as, R a b := by
  induction h with
  | nil => cases hb
  | @cons a b' as bs hab _ ih =>
    rcases List.mem_cons.1 hb with rfl | hb
    · exact ⟨a, List.mem_cons_self, hab⟩
    · obtain ⟨a', ha', hab'⟩ := ih hb
      exact ⟨a', List.mem_cons_of_mem _ ha', hab'⟩

/-- The nodes of a task after one of them has been written. -/
theorem SameTask.upsertNode {row : NodeRow} (h : SameTask parse nodes e t) (htask : row.taskId = t.id)
    (hc : (∀ old ∈ nodes, old.key = row.key → old.Carries parse row) ∧
      ((∀ old ∈ nodes, old.key ≠ row.key) → row.Carries parse row)) :
    List.Forall₂ (SameNode parse)
      (insertAt e.2.nodes row.nodeId ⟨row.name, depsOf parse row.depsJson, row.status, row.output,
        row.attempts, row.retries, row.timeoutSecs, row.stepsJson⟩)
      (MysqlBackend.upsertNode (t.nodesOf nodes) row) := by
  have hmem : ∀ r ∈ t.nodesOf nodes, r ∈ nodes ∧ r.taskId = row.taskId := fun r hr => by
    obtain ⟨hr, hid⟩ := List.mem_filter.1 hr
    exact ⟨hr, (of_decide_eq_true hid).trans htask.symm⟩
  refine Table.forall₂_upsert (fun n r hr hnr => ?_) (fun n r hr hnr hkey => ?_) (fun hnot => ?_)
    h.nodes
  · rw [hnr.id]
    exact ⟨fun hid => Prod.ext (hmem r hr).2 hid, fun hkey => (Prod.ext_iff.1 hkey).2⟩
  · have hid : r.nodeId = row.nodeId := hnr.id.symm.trans hkey
    obtain ⟨hname, hdeps, hsteps⟩ := hc.1 r (hmem r hr).1 (Prod.ext (hmem r hr).2 hid)
    exact ⟨hid.symm, hname.symm, hdeps, hsteps, rfl, rfl, rfl, rfl, rfl⟩
  · have hnone : ∀ old ∈ nodes, old.key ≠ row.key := by
      intro old hold hkey
      obtain ⟨htaskId, hnodeId⟩ := Prod.ext_iff.1 hkey
      have hold : old ∈ t.nodesOf nodes :=
        List.mem_filter.2 ⟨hold, decide_eq_true (htaskId.trans htask)⟩
      obtain ⟨n, hn, hsame⟩ := exists_entry h.nodes hold
      exact hnot (List.mem_map.2 ⟨n, hn, hsame.id.trans hnodeId⟩)
    obtain ⟨-, hdeps, hsteps⟩ := hc.2 hnone
    exact ⟨rfl, rfl, hdeps, hsteps, rfl, rfl, rfl, rfl, rfl⟩

theorem SameNode.skip {n : String × MemNode} {r : NodeRow} (h : SameNode parse n r) :
    SameNode parse (n.1, n.2.skip) r.skip := by
  unfold MemNode.skip NodeRow.skip
  rw [h.status]
  split
  · exact ⟨h.id, h.name, h.deps, h.steps, rfl, rfl, h.attempts, h.retries, h.timeoutSecs⟩
  · exact h

namespace TasksAgree

/-- `upsert_node` takes the definition of a node over in one store only, and reads the dependencies
as names there. A node without a task is a row in the other one, but nothing shows it. -/
def UpsertsNode (parse : String → Option Value) (tasks : List TaskRow) (nodes : List NodeRow)
    (row : NodeRow) : Prop :=
  row.taskId ∈ tasks.map TaskRow.id →
    (∀ old ∈ nodes, old.key = row.key → old.Carries parse row) ∧
      ((∀ old ∈ nodes, old.key ≠ row.key) → row.Carries parse row)

theorem upsertNode (h : TasksAgree parse mem tasks nodes) {row : NodeRow}
    (hc : UpsertsNode parse tasks nodes row) :
    TasksAgree parse (MemoryBackend.upsertNode parse mem row.taskId row.nodeId row.name row.depsJson
        row.stepsJson row.status row.output row.attempts row.retries row.timeoutSecs) tasks
      (MysqlBackend.upsertNode nodes row) := by
  let node : MemNode := ⟨row.name, depsOf parse row.depsJson, row.status, row.output, row.attempts,
    row.retries, row.timeoutSecs, row.stepsJson⟩
  let put (t : MemTask) : MemTask := { t with nodes := insertAt t.nodes row.nodeId node }
  have hmap : TasksAgree parse (modifyAt mem row.taskId put) (tasks.map id)
      (MysqlBackend.upsertNode nodes row) := by
    refine h.map (fun e t ht het => ?_) fun _ => rfl
    have hnodes := nodesOf_upsert nodes row t
    split
    next hid =>
      have htask : row.taskId = t.id := hid.symm.trans het.id
      rw [if_pos htask] at hnodes
      refine ⟨htask, het.kind, het.inst, het.status, het.created, het.started, het.finished, ?_⟩
      rw [id, hnodes]
      exact het.upsertNode htask (hc (List.mem_map.2 ⟨t, ht, htask.symm⟩))
    next hid =>
      have htask : row.taskId ≠ t.id := fun hc => hid (het.id.trans hc.symm)
      rw [if_neg htask] at hnodes
      refine ⟨het.id, het.kind, het.inst, het.status, het.created, het.started, het.finished, ?_⟩
      rw [id, hnodes]
      exact het.nodes
  rw [List.map_id] at hmap
  exact hmap

/-- A task after `mark_interrupted`. -/
theorem interrupted {nodes' : List NodeRow} (het : SameTask parse nodes e t) (now : Nat)
    (hnodes : (t.fail now).nodesOf nodes' =
      (t.nodesOf nodes).map fun r => if (t.fail now).status = "failed" then r.skip else r) :
    SameTask parse nodes' (e.1, (e.2.fail now).skipNodes) (t.fail now) := by
  have hfail : SameTask parse nodes (e.1, e.2.fail now) (t.fail now) := by
    unfold MemTask.fail TaskRow.fail
    rw [het.status]
    split
    · exact ⟨het.id, het.kind, het.inst, rfl, het.created, het.started, rfl, het.nodes⟩
    · exact het
  have hstatus : (e.2.fail now).status = (t.fail now).status := hfail.status
  have hold : (e.2.fail now).nodes = e.2.nodes := by
    unfold MemTask.fail
    split <;> rfl
  unfold MemTask.skipNodes
  rw [hstatus]
  split
  next hs =>
    refine ⟨hfail.id, hfail.kind, hfail.inst, rfl, hfail.created, hfail.started, hfail.finished, ?_⟩
    simp only [if_pos hs] at hnodes
    rw [hnodes, hold]
    exact List.rel_map (fun _ _ hn => hn.skip) het.nodes
  next hs =>
    refine ⟨hfail.id, hfail.kind, hfail.inst, hfail.status, hfail.created, hfail.started,
      hfail.finished, ?_⟩
    simp only [if_neg hs, List.map_id'] at hnodes
    rw [hnodes, hold]
    exact het.nodes

/-- `delete_task` tells in one store only that the task is not there. -/
theorem deleteTask (h : TasksAgree parse mem tasks nodes) (hid : id ∈ tasks.map TaskRow.id) :
    (MemoryBackend.deleteTask mem id).1 = (MysqlBackend.deleteTask tasks nodes id).1 ∧
      TasksAgree parse (MemoryBackend.deleteTask mem id).2
        (MysqlBackend.deleteTask tasks nodes id).2.1
        (MysqlBackend.deleteTask tasks nodes id).2.2 := by
  rw [MemoryBackend.deleteTask, h.isSome_lookup, if_pos (decide_eq_true hid)]
  refine ⟨rfl, ?_⟩
  have hleft : TasksAgree parse (mem.filter fun e => e.1 ≠ id) (tasks.filter fun t => t.id ≠ id)
      nodes := h.filter fun e t ht => by rw [ht.id]
  -- the nodes of the tasks that are left are left
  have hnodes : ∀ t : TaskRow, t.id ≠ id →
      t.nodesOf (nodes.filter fun r => r.taskId ≠ id) = t.nodesOf nodes := by
    intro t hne
    rw [TaskRow.nodesOf, TaskRow.nodesOf, List.filter_filter]
    refine List.filter_congr fun r _ => ?_
    rcases eq_or_ne r.taskId t.id with hr | hr <;> simp [hr, hne]
  have hmap : TasksAgree parse ((mem.filter fun e => e.1 ≠ id).map fun e => e)
      ((tasks.filter fun t => t.id ≠ id).map fun t => t) (nodes.filter fun r => r.taskId ≠ id) := by
    refine hleft.map (fun e t ht het => ?_) fun _ => rfl
    have hne : t.id ≠ id := of_decide_eq_true (List.mem_filter.1 ht).2
    exact ⟨het.id, het.kind, het.inst, het.status, het.created, het.started, het.finished,
      hnodes t hne ▸ het.nodes⟩
  rw [List.map_id', List.map_id'] at hmap
  exact hmap

theorem nodesOf_interrupted (hnd : (tasks.map TaskRow.id).Nodup) (ht : t ∈ tasks) (now : Nat) :
    (t.fail now).nodesOf (MysqlBackend.markInterrupted tasks nodes now).2.2 =
      (t.nodesOf nodes).map fun r => if (t.fail now).status = "failed" then r.skip else r := by
  have hid : ∀ t : TaskRow, (t.fail now).id = t.id := fun t => by
    unfold TaskRow.fail
    split <;> rfl
  have hskip : ∀ r : NodeRow, r.skip.taskId = r.taskId := fun r => by
    unfold NodeRow.skip
    split <;> rfl
  have hfailed : ∀ r : NodeRow, r.taskId = t.id →
      (((tasks.map (TaskRow.fail now)).any fun t => r.taskId = t.id && t.status = "failed") = true ↔
        (t.fail now).status = "failed") := by
    intro r hr
    simp only [List.any_map, List.any_eq_true, Function.comp_apply, hid, hr, Bool.and_eq_true,
      decide_eq_true_eq]
    constructor
    · rintro ⟨t', ht', heq, hs⟩
      rw [List.inj_on_of_nodup_map hnd ht ht' heq]
      exact hs
    · exact fun hs => ⟨t, ht, rfl, hs⟩
  rw [TaskRow.nodesOf, TaskRow.nodesOf, MysqlBackend.markInterrupted, List.filter_map, hid]
  have hkeep : ((fun r : NodeRow => decide (r.taskId = t.id)) ∘ fun r =>
      if (tasks.map (TaskRow.fail now)).any fun t => r.taskId = t.id && t.status = "failed"
      then r.skip else r) = fun r => decide (r.taskId = t.id) := by
    funext r
    simp only [Function.comp_apply]
    split
    · rw [hskip]
    · rfl
  rw [hkeep]
  refine List.map_congr_left fun r hr => ?_
  have hr : r.taskId = t.id := of_decide_eq_true (List.mem_filter.1 hr).2
  simp only [hfailed r hr]

theorem markInterrupted (h : TasksAgree parse mem tasks nodes) (now : Nat) :
    (MemoryBackend.markInterrupted mem now).1 = (MysqlBackend.markInterrupted tasks nodes now).1 ∧
      TasksAgree parse (MemoryBackend.markInterrupted mem now).2
        (MysqlBackend.markInterrupted tasks nodes now).2.1
        (MysqlBackend.markInterrupted tasks nodes now).2.2 := by
  constructor
  · obtain ⟨hrows, -⟩ := h
    induction hrows with
    | nil => rfl
    | cons het _ ih =>
      simp only [MemoryBackend.markInterrupted, MysqlBackend.markInterrupted, List.countP_cons,
        het.status] at ih ⊢
      rw [ih]
  · rw [MemoryBackend.markInterrupted, List.map_map]
    refine h.map (fun e t ht het => ?_) fun t => by unfold TaskRow.fail; split <;> rfl
    exact interrupted het now (nodesOf_interrupted h.nodup ht now)

end TasksAgree

theorem lookup_of_mem {α : Type} {m : List (String × α)} {e : String × α}
    (hnd : (m.map Prod.fst).Nodup) (he : e ∈ m) : m.lookup e.1 = some e.2 := by
  induction m with
  | nil => cases he
  | cons e' m ih =>
    obtain ⟨hnot, hnd⟩ := List.nodup_cons.1 hnd
    rw [List.lookup_cons]
    rcases List.mem_cons.1 he with rfl | he
    · simp
    · have hne : e.1 ≠ e'.1 := fun hc => hnot (hc ▸ List.mem_map_of_mem he)
      rw [beq_false_of_ne hne]
      exact ih hnd he

/-- The counters of the tasks' names. -/
theorem nextTaskSeq_eq {seq : List (String × Nat)} (hnd : (seq.map Prod.fst).Nodup) (kind : String) :
    MemoryBackend.nextTaskSeq seq kind = MysqlBackend.nextTaskSeq seq kind ∧
      ((MysqlBackend.nextTaskSeq seq kind).2.map Prod.fst).Nodup := by
  refine ⟨?_, Table.nodup_upsert (fun old row hkey => hkey) hnd⟩
  rcases hv : seq.lookup kind with _ | v
  · have hnew : kind ∉ seq.map Prod.fst := by
      simpa [hv] using isSome_lookup_iff seq kind
    rw [MemoryBackend.nextTaskSeq, MysqlBackend.nextTaskSeq, hv, Table.upsert_eq_append hnew]
    rfl
  · have hmem : kind ∈ seq.map Prod.fst := by
      simpa [hv] using isSome_lookup_iff seq kind
    have hmap : Table.upsert Prod.fst (fun old _ => (old.1, old.2 + 1)) seq (kind, 1) =
        seq.map fun old => if old.1 = kind then (old.1, old.2 + 1) else old :=
      Table.upsert_eq_map hnd hmem
    simp only [MemoryBackend.nextTaskSeq, MysqlBackend.nextTaskSeq, hv, hmap, modifyAt]
    refine Prod.ext rfl (List.map_congr_left fun e he => ?_)
    split
    next hk =>
      have hlookup := lookup_of_mem hnd he
      rw [hk, hv] at hlookup
      cases hlookup
      rw [hk]
    · rfl

end

end Rdsctl.Store
