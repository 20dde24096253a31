import Rdsctl.Lib.Run
import Rdsctl.Inst.Reparent
import Rdsctl.Inst.Joining

/-!
# The registry over a sequence of operations

A run of lifecycle operations one after the other, with the containers that they start. A call of an
entry point hands out work; the steps of a task then take effect, in any order, repeatedly or not at
all, until its watcher ends it; a managed switch is one event. A process may restart at any time, and
may resume the task that was under way, whose steps then take effect again.

A migration is a number of moves (`migrate_move_slave`, `migrate_move_master`). Each starts a container
unless it is there already, and commits the binding unless it fails.
-/

namespace Rdsctl.Inst

open Ha Dag Fallible

/-- A container that was started for a node, with what the registry says of that node. -/
structure Start where
  master : Bool
  args : List String
deriving DecidableEq, Repr

/-- A manager, the containers that were started for nodes of its instances, and whether the node of
the scale-out under way has joined. -/
structure Registry where
  manager : Manager
  started : List Start
  joined : Bool

/-- An event. -/
inductive RegistryEvent
  | call (e : Entry) (s : Surroundings)
  | perform (p : Process) (step : Step)
  | move (p : Process) (node host : String) (hostPort : Nat) (starts commits : Bool)
  | settle (region az hosts : String)
  | switch (e : SwitchEnv) (servers : Servers) (answer : Proposal)
  | finish (failed : Bool) (answer : Proposal)
  | restart (p : Process) (resumes : Bool)

/-! ## Work -/

/-- The steps of a task. -/
def Work.steps : Work → List Step
  | .task _ _ _ nodes _ => nodes.flatMap (·.steps)
  | .reparent .. => []

/-- The instance that work is for. -/
def Work.inst : Work → String
  | .task _ _ inst _ _ => inst
  | .reparent inst .. => inst

/-- Work of the scheduler, which a process that restarts may resume. -/
def Work.isTask : Work → Bool
  | .task .. => true
  | .reparent .. => false

/-- The step of a migration. -/
def Step.isMigration : Step → Bool
  | .migrateInstance .. => true
  | _ => false

namespace Manager

/-- The registry says that this container is a master. -/
def recordsMaster (m : Manager) (inst container : String) : Bool :=
  (m.instances[inst]?).any fun i =>
    (i.nodes.find? (·.container = container)).any (·.role = .master)

/-- `run_reparent` after `reparent_core` failed. -/
def switchFailed (m : Manager) (inst msg : String) : Manager :=
  (m.alterInstance inst fun i =>
    { i with
      status := .degraded
      lastError := if "切换".toList <:+: i.lastError.toList then i.lastError
        else "受管切换失败:" ++ msg }).persist

/-- `run_reparent` after `reparent_core`. -/
def afterSwitch (inst : String) : Except String (List String) × SwitchState → Manager
  | (.ok _, st) => st.manager
  | (.error msg, st) => st.manager.switchFailed inst msg

/-- The watcher of a task when the task ends. -/
def taskEnded (m : Manager) (inst taskId : String) (watcher : Watcher) (failed : Bool)
    (answer : Proposal) : Manager :=
  let m := m.unlock inst answer
  if failed ∧ watcher = .task then m.taskFailed inst taskId else m

end Manager

/-- A migration moves the slaves and the first master. -/
def RdsInstance.movable (i : RdsInstance) (node : String) : Bool :=
  i.nodes.any (fun n => n.container = node ∧ n.role ≠ .master) ∨
    i.master.map (·.container) = some node

/-- The facts are of nodes of the record: they are at most a few seconds old, and nodes stay. -/
def RdsInstance.knows (i : RdsInstance) (facts : List Fact) : Bool :=
  facts.all fun f => f.role ≠ "slave" ∨ i.nodes.any (·.container = f.container)

namespace Registry

/-- Start a container for a node. -/
def start (r : Registry) (inst container : String) (args : List String) : Registry :=
  { r with started := r.started ++ [⟨r.manager.recordsMaster inst container, args⟩] }

/-- A step of a task takes effect. -/
def performStep (p : Process) (r : Registry) (inst : String) : Step → Registry
  | .dockerRun container args => r.start inst container args
  | .replaceNodeCore i node _ hostPort serverId =>
    match r.manager.instances[i]? with
    | some rec => r.start i node (mysqlArgs p rec.network (some hostPort) serverId [])
    | none => r
  | .updateInstanceStatus i status =>
    { r with manager := r.manager.updateInstanceStatus i status }
  | .updateInstanceTopology i container role hostPort serverId region az shard parent =>
    { r with
      manager := r.manager.updateInstanceTopology i container role hostPort serverId region az
        shard parent
      joined := true }
  | .replaceNodeCommit i node host hostPort serverId =>
    { r with manager := r.manager.commitReplaceNode i node host hostPort serverId }
  | _ => r

/-- A migration moves a node; the server id is one more than the highest. -/
def moveNode (p : Process) (r : Registry) (inst : String) (i : RdsInstance) (node host : String)
    (hostPort : Nat) (starts commits : Bool) : Registry :=
  let sid := i.maxServerId + 1
  let r := if starts then r.start inst node (mysqlArgs p i.network (some hostPort) sid []) else r
  if commits then { r with manager := r.manager.commitReplaceNode inst node host hostPort sid }
  else r

/-- What an event does, before the limit on vectors. -/
def act (r : Registry) : RegistryEvent → Option Registry
  | .call e s =>
    if r.manager.work.isEmpty then
      some { r with manager := (exec (e.run s) r.manager).2, joined := false }
    else none
  | .perform p step =>
    match r.manager.work with
    | [w] => if step ∈ w.steps then some (r.performStep p w.inst step) else none
    | _ => none
  | .move p node host hostPort starts commits =>
    match r.manager.work with
    | [w] =>
      if w.steps.any Step.isMigration then
        match r.manager.instances[w.inst]? with
        | some i =>
          if i.movable node then
            some (r.moveNode p w.inst i node host hostPort starts commits)
          else none
        | none => none
      else none
    | _ => none
  | .settle region az hosts =>
    match r.manager.work with
    | [w] =>
      if .migrateInstance w.inst region az hosts ∈ w.steps then
        some { r with
          manager := (r.manager.alterInstance w.inst (·.atSite region az)).persist }
      else none
    | _ => none
  | .switch e servers answer =>
    match r.manager.work with
    | [.reparent inst target mode _] =>
      if (r.manager.instances[inst]?).all (·.knows e.facts) then
        let m := Manager.afterSwitch inst (exec (reparentCore e inst target mode) ⟨r.manager, servers⟩)
        some { r with manager := { m.unlock inst answer with work := [] } }
      else none
    | _ => none
  | .finish failed answer =>
    match r.manager.work with
    | [.task id _ inst _ watcher] =>
      some { r with manager := { r.manager.taskEnded inst id watcher failed answer with work := [] } }
    | _ => none
  | .restart p resumes =>
    some { r with
      manager := { r.manager.loadPersisted p with
        work := if resumes then r.manager.work.filter (·.isTask) else [] } }

/-- A vector holds less than `2 ^ 63` elements. -/
def fits (r : Registry) : Bool := r.manager.instances.values.all (·.nodes.length < 2 ^ 63)

/-- What an event does. -/
def step (r : Registry) (ev : RegistryEvent) : Option Registry := (r.act ev).filter fits

/-- A registry without instances. -/
structure Initial (r : Registry) : Prop where
  instances : r.manager.instances = ∅
  persisted : r.manager.persisted = ∅
  work : r.manager.work = []
  started : r.started = []

end Registry

end Rdsctl.Inst
