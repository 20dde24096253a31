import Rdsctl.Inst.Manager

/-!
# What work does to the registry

`src/instance.rs`: the steps of the executor, the role swap of `reparent_core`, the watcher and
`load_persisted`, as far as they write instance records. Each is given on a record first.
-/

namespace Rdsctl.Inst

open Ha Dag

/-! ## On a record -/

/-- The status that `UpdateInstanceStatus` names. -/
def statusNamed (status : String) : InstStatus :=
  if status = "running" then .running
  else if status = "destroyed" then .destroyed
  else if status = "failed" then .failed
  else if status = "degraded" then .degraded
  else .failed

/-- The role that `UpdateInstanceTopology` names. -/
def roleNamed (role : String) : Role :=
  if role = "read" then .read
  else if role = "offline" ∨ role = "stats" ∨ role = "backup" then .offline
  else .read

/-- Change the first element that meets a condition. -/
def modifyFirst {α : Type} (p : α → Bool) (f : α → α) : List α → List α
  | [] => []
  | a :: as => if p a then f a :: as else a :: modifyFirst p f as

/-- Add a slave to a shard row. -/
def ShardInfo.addSlave (row : ShardInfo) (container role : String) : ShardInfo :=
  { row with
    slaves := if row.slaves.any (·.name = container) then row.slaves
      else row.slaves ++ [⟨container, if role = "read" then "read" else "offline"⟩]
    slave := if row.slave = "" then container else row.slave }

namespace RdsInstance

/-- The shard and the parent that `UpdateInstanceTopology` gives a node. -/
def shardFor (i : RdsInstance) (shard : String) : String := if shard = "" then i.shard else shard

def parentFor (i : RdsInstance) (parent : String) : String :=
  if parent = "" then masterC i else parent

/-- The node that `UpdateInstanceTopology` adds. -/
def newNode (i : RdsInstance) (container role : String) (hostPort serverId : Nat)
    (region az shard parent : String) : InstNode :=
  freshNode container (roleNamed role) hostPort serverId (if region = "" then i.region else region)
    (if az = "" then i.az else az) (i.shardFor shard) (i.parentFor parent)

/-- `UpdateInstanceTopology` -/
def addNode (i : RdsInstance) (container role : String) (hostPort serverId : Nat)
    (region az shard parent : String) : RdsInstance :=
  { i with
    nodes := i.nodes ++ [i.newNode container role hostPort serverId region az shard parent]
    shards := if i.shards ≠ [] ∧ i.shardFor shard ≠ "" then
      modifyFirst (·.id = i.shardFor shard) (·.addSlave container role) i.shards else i.shards }

/-- `commit_replace_node` -/
def commitReplace (i : RdsInstance) (node host : String) (hostPort serverId : Nat) : RdsInstance :=
  { i with
    nodeHosts := if trimmed host = "" then i.nodeHosts.erase node
      else i.nodeHosts.insert node (trimmed host)
    nodes := modifyFirst (·.container = node)
      (fun n => { n with hostPort := hostPort, serverId := serverId, host := node }) i.nodes }

/-- The facts that a migration ends with. -/
def atSite (i : RdsInstance) (region az : String) : RdsInstance :=
  { i with
    region := region, az := az, nodes := i.nodes.map fun n => { n with region := region, az := az } }

end RdsInstance

/-- What the role swap of `reparent_core` does to a node. -/
def InstNode.swapped (old cand : String) (n : InstNode) : InstNode :=
  if n.container = old ∧ n.role = .master then { n with role := .read, parent := cand }
  else if n.container = cand ∧ n.role ≠ .master then { n with role := .master, parent := "" }
  else if n.role ≠ .master ∧ n.container ≠ old ∧ n.parent = old then { n with parent := cand }
  else n

/-- The role swap matches this node. -/
def InstNode.swaps (old cand : String) (n : InstNode) : Bool :=
  (n.container = old ∧ n.role = .master) ∨ (n.container = cand ∧ n.role ≠ .master)

/-- The role swap of `reparent_core`. -/
def RdsInstance.swapRoles (i : RdsInstance) (old cand : String) : RdsInstance :=
  { i with nodes := i.nodes.map (·.swapped old cand) }

/-- An operation on the instance is under way. -/
def InstStatus.inProgress : InstStatus → Bool
  | .creating | .scaling | .switching | .destroying => true
  | _ => false

/-- A record as `load_persisted` takes it over; in a cluster the status stays. -/
def RdsInstance.loaded (p : Process) (clustered : Bool) (i : RdsInstance) : RdsInstance :=
  let i := { i with
    region := if i.region = "" then p.region else i.region
    az := if i.az = "" then p.az else i.az
    shard := if i.shard = "" then p.shard else i.shard }
  if ¬ clustered ∧ i.status.inProgress then
    { i with status := .failed, lastError := "进程中断,操作未完成(可销毁残留后重建)" }
  else i

/-! ## On the manager -/

namespace Manager

/-- `UpdateInstanceStatus` -/
def updateInstanceStatus (m : Manager) (inst status : String) : Manager :=
  (m.alterInstance inst (·.withStatus (statusNamed status))).persist

/-- `UpdateInstanceTopology` -/
def updateInstanceTopology (m : Manager) (inst container role : String) (hostPort serverId : Nat)
    (region az shard parent : String) : Manager :=
  (m.alterInstance inst (·.addNode container role hostPort serverId region az shard parent)).persist

/-- `commit_replace_node`, for an instance that exists. -/
def commitReplaceNode (m : Manager) (inst node host : String) (hostPort serverId : Nat) : Manager :=
  (m.alterInstance inst (·.commitReplace node host hostPort serverId)).persist

/-- A task failed: `watch_task` marks the record. -/
def taskFailed (m : Manager) (inst taskId : String) : Manager :=
  (m.alterInstance inst fun i =>
    if i.status = .destroyed then i
    else { i with
      status := .failed, lastError := "任务 " ++ taskId ++ " 失败(实例状态机已置为失败)" }).persist

/-- `unlock_instance` -/
def unlock (m : Manager) (inst : String) (p : Proposal) : Manager :=
  { m with locks := unlockInstance inst p m.locks }

/-- `load_persisted`, in a new process. -/
def loadPersisted (p : Process) (m : Manager) : Manager :=
  { m with
    instances := m.persisted.map fun _ i => i.loaded p m.locks.clustered
    nextServerId := (m.persisted.values.flatMap fun i => i.nodes.map (·.serverId)).foldl max 1 + 1
    locks := { m.locks with opLocks := ∅, fences := ∅, leaseLost := ∅ }
    work := [] }

end Manager

end Rdsctl.Inst
