import Rdsctl.Dag.Scheduler
import Rdsctl.Ha.Text
import Rdsctl.Inst.Lock

/-!
# Instances and their records

`src/instance.rs`: the record of an instance with its nodes, proxies and shard rows, where its nodes
are executed, and the state of `RdsManager` that lifecycle operations read and write. Fields that
are only displayed are left out. `host_list` of the store is a list of rows; ports are `Nat`.
-/

namespace Rdsctl.Inst

open Ha Dag

/-- The status of an instance. -/
inductive InstStatus
  | creating
  | running
  | paused
  | scaling
  | switching
  | maintenance
  | degraded
  | destroying
  | destroyed
  | failed
deriving DecidableEq, Repr

def InstStatus.label : InstStatus → String
  | .creating => "创建中"
  | .running => "运行中"
  | .paused => "已暂停"
  | .scaling => "扩容中"
  | .switching => "切换中"
  | .maintenance => "维护中"
  | .degraded => "降级(异常)"
  | .destroying => "销毁中"
  | .destroyed => "已销毁"
  | .failed => "失败"

/-- The `Debug` form of a status. -/
def InstStatus.debug : InstStatus → String
  | .creating => "Creating"
  | .running => "Running"
  | .paused => "Paused"
  | .scaling => "Scaling"
  | .switching => "Switching"
  | .maintenance => "Maintenance"
  | .degraded => "Degraded"
  | .destroying => "Destroying"
  | .destroyed => "Destroyed"
  | .failed => "Failed"

/-- The role of a node. -/
inductive Role
  | master
  | read
  | offline
  | stats
  | backup
deriving DecidableEq, Repr

/-- `is_offline` -/
def Role.isOffline : Role → Bool
  | .offline | .stats | .backup => true
  | .master | .read => false

/-- A MySQL node of an instance. -/
structure InstNode where
  container : String
  role : Role
  host : String
  port : Nat
  hostPort : Nat
  serverId : Nat
  region : String
  az : String
  shard : String
  parent : String
  rpcHostPort : Nat
deriving DecidableEq, Repr

/-- A proxy of an instance. -/
structure ProxyNode where
  container : String
  mysqlPort : Nat
  mngPort : Nat
deriving DecidableEq, Repr

/-- A reference to a slave in a shard row. -/
structure ShardSlaveRef where
  name : String
  role : String
deriving DecidableEq, Repr

/-- A shard row. -/
structure ShardInfo where
  id : String
  master : String
  slave : String
  slaves : List ShardSlaveRef
deriving DecidableEq, Repr

/-- The options of `create`. -/
structure CreateOpts where
  itype : String
  proxies : Nat
  region : String
  az : String
  shardNum : Nat
  dts : Bool
  dtsSpec : String
  xenonNodes : Nat
  xenonProxy : Nat
  xenonConsistency : String
deriving DecidableEq, Repr

/-- The record of an instance. -/
structure RdsInstance where
  name : String
  status : InstStatus
  region : String
  az : String
  shard : String
  enabled : Bool
  lvsContainer : String
  lvsMysqlPort : Nat
  nodeHosts : BTreeMap String String
  proxies : List ProxyNode
  shards : List ShardInfo
  itype : String
  shardNum : Nat
  network : String
  nodes : List InstNode
  proxyContainer : String
  proxyMysqlPort : Nat
  proxyMngPort : Nat
  lastError : String

/-- A row of the host table. -/
structure HostRow where
  name : String
  ip : String
  memGb : Nat
  agentPort : Nat
  status : String
deriving DecidableEq, Repr

/-- Where a node is executed. `direct` is `Local`. -/
inductive NodeRoute
  | direct
  | agent (host ip : String) (port : Nat)
  | unmanaged (host : String)
deriving DecidableEq, Repr

namespace RdsInstance

/-- `master` -/
def master (i : RdsInstance) : Option InstNode := i.nodes.find? (·.role = .master)

/-- `slaves` -/
def slaves (i : RdsInstance) : List InstNode := i.nodes.filter (·.role ≠ .master)

/-- The highest server id of the nodes. -/
def maxServerId (i : RdsInstance) : Nat := (i.nodes.map (·.serverId)).foldl max 0

end RdsInstance

/-- `node_host_binding` -/
def nodeHostBinding (i : RdsInstance) (container : String) : Option String :=
  (i.nodeHosts[container]?).filter (· ≠ "")

/-- `resolve_route_of`; the port of an agent is cut to a `u16`. -/
def resolveRouteOf (i : RdsInstance) (container : String) (hosts : List HostRow) : NodeRoute :=
  match nodeHostBinding i container with
  | none => .direct
  | some h =>
    match hosts.find? (·.name = h) with
    | some hr => if hr.agentPort % 2 ^ 16 = 0 then .unmanaged h else .agent h hr.ip (hr.agentPort % 2 ^ 16)
    | none => .unmanaged h

/-- A node of this route is on this host. -/
def NodeRoute.isOn (host : String) : NodeRoute → Bool
  | .direct => false
  | .agent h _ _ | .unmanaged h => h = host

/-- `trim` -/
def trimmed (s : String) : String := String.ofList (trim s.toList)

/-! ## Steps of tasks -/

/-- The steps that lifecycle tasks are made of. What a file is to contain is left out. -/
inductive Step
  | dockerRun (container : String) (args : List String)
  | dockerExec (container : String) (args : List String)
  | dockerRm (container : String)
  | networkCreate (name : String)
  | networkRm (name : String)
  | execSql (container user pass sql : String)
  | waitMysql (container user pass : String) (timeoutSecs : Nat)
  | writeHostFile (path : String)
  | updateInstanceStatus (inst status : String)
  | updateInstanceTopology (inst container role : String) (hostPort serverId : Nat)
      (region az shard parent : String)
  | verifyReplication (master : String) (slaves : List String) (proxyPort : Nat)
  | verifyScaleout (master newSlave : String)
  | verifyXenon (members : List String)
  | ensureLvs (inst : String)
  | stopLvs (inst : String)
  | audit (inst action params : String)
  | dtsRun (inst node dtsContainer targetLabel spec : String)
  | replaceNodeCore (inst node host : String) (hostPort serverId : Nat)
  | replaceNodeCommit (inst node host : String) (hostPort serverId : Nat)
  | migrateInstance (inst region az hosts : String)
deriving DecidableEq, Repr

/-- Who follows a task to its end. -/
inductive Watcher
  | task
  | backup
deriving DecidableEq, Repr

/-- Work that was handed out: a task to the scheduler, or a spawned `run_reparent`. -/
inductive Work
  | task (id kind inst : String) (nodes : List (TaskNode Step)) (watcher : Watcher)
  | reparent (inst : String) (target : Option String) (mode opId : String)

/-- An evidence snapshot. -/
structure Evidence where
  inst : String
  kind : String
  prevMaster : Option String
deriving DecidableEq, Repr

/-- `RdsManager` with its store. -/
structure Manager where
  instances : BTreeMap String RdsInstance
  /-- the rows of the instance table, decoded -/
  persisted : BTreeMap String RdsInstance
  locks : Locks
  nextServerId : Nat
  hosts : List HostRow
  evidence : List Evidence
  work : List Work

/-- The environment of a process. -/
structure Process where
  region : String
  az : String
  shard : String
  mysqlImage : String
  proxyImage : String
  xenonImage : String
  cwd : String
deriving DecidableEq, Repr

/-- What a call of an entry point meets: its process, the answer of the authority, the ports that
`alloc_host_port` finds, and the number that `next_task_seq` gives. -/
structure Surroundings where
  process : Process
  authority : AuthorityCall
  ports : Nat → Nat
  seq : Nat

namespace Manager

/-- `persist` -/
def persist (m : Manager) : Manager :=
  { m with persisted := m.instances.foldl (fun rows _ i => rows.insert i.name i) m.persisted }

/-- `instances.insert` -/
def insertInstance (m : Manager) (name : String) (i : RdsInstance) : Manager :=
  { m with instances := m.instances.insert name i }

/-- `instances.get_mut` -/
def alterInstance (m : Manager) (name : String) (f : RdsInstance → RdsInstance) : Manager :=
  match m.instances[name]? with
  | some i => m.insertInstance name (f i)
  | none => m

/-- `host_binding_count`: the bindings to this host in all instances. -/
def hostBindingCount (m : Manager) (host : String) : Nat :=
  (m.instances.values.map fun i => i.nodeHosts.values.countP (· = host)).sum

/-- `schedule_check` -/
def scheduleCheck (m : Manager) (host : String) (extra : Nat) : Except String String :=
  match m.hosts.find? (·.name = host) with
  | none => .error ("宿主机 " ++ host ++ " 未登记")
  | some hr =>
    let slots := max (hr.memGb / 8) 1
    let used := m.hostBindingCount host
    if used + extra > slots then
      .error ("宿主机 " ++ host ++ " 容量水位不足:已用 " ++ toString used ++ " 槽位,将再占 " ++
        toString extra ++ ",上限 " ++ toString slots ++ "(mem " ++ toString hr.memGb ++
        "GiB,按每节点 8GiB 估算);请更换/扩容目标机器")
    else .ok ("宿主机 " ++ host ++ " 容量水位 ok: " ++ toString used ++ "/" ++ toString slots ++ " 槽位")

/-- `evidence_latest` -/
def evidenceLatest (m : Manager) (inst : String) (n : Nat) : List Evidence :=
  (m.evidence.reverse.filter (·.inst = inst)).take n

/-! ## What the updates leave alone -/

variable (m : Manager) (name : String) (i : RdsInstance) (f : RdsInstance → RdsInstance)

@[simp] theorem persist_instances : m.persist.instances = m.instances := rfl

@[simp] theorem persist_hosts : m.persist.hosts = m.hosts := rfl

theorem insertInstance_get (n : String) :
    (m.insertInstance name i).instances[n]? = if name = n then some i else m.instances[n]? :=
  BTreeMap.getElem?_insert_ite _ _ _ _

@[simp] theorem alterInstance_work : (m.alterInstance name f).work = m.work := by
  unfold alterInstance
  split <;> rfl

theorem alterInstance_get (n : String) :
    (m.alterInstance name f).instances[n]? =
      if name = n then (m.instances[n]?).map f else m.instances[n]? := by
  unfold alterInstance
  split
  · next i hi =>
    rw [insertInstance_get]
    split
    · next h => rw [← h, hi, Option.map_some]
    · rfl
  · next hi =>
    split
    · next h => rw [← h, hi, Option.map_none]
    · rfl

end Manager

end Rdsctl.Inst
