import Rdsctl.Inst.Plan

/-!
# Entry points of lifecycle operations

`src/instance.rs`: `create`, `destroy`, `scaleout_opt`, `replace_node`, `migrate_instance`,
`run_backup`, `orch_reparent` and `orch_rollback`. Each reads and checks, asks for the lock of the
instance, and then writes its record and hands its work out. What is read and checked before the
lock is a function of its own (`…Check`), so that another operation can come in between. Audit
entries, which nothing here reads, are left out.
-/

namespace Rdsctl.Inst

open Ha Dag Fallible

/-! ## Building blocks -/

/-- A check that only reads the manager. -/
def checked {α : Type} (f : Manager → Except String α) : Fallible String Manager α := do
  match f (← get) with
  | .ok a => pure a
  | .error e => throw e

/-- `lock_instance` -/
def lockFor (name : String) (s : Surroundings) : Fallible String Manager Unit :=
  zoom (·.locks) (fun l m => { m with locks := l }) (lockInstance name s.authority)

/-- `scheduler.submit`, with the watcher that follows the task. -/
def submit (kind name : String) (nodes : List (TaskNode Step)) (watcher : Watcher)
    (s : Surroundings) : Fallible String Manager String := do
  let id := "t-" ++ kind ++ "-" ++ toString s.seq
  update fun m => { m with work := m.work ++ [.task id kind name nodes watcher] }
  pure id

/-- Spawn `run_reparent`. -/
def spawnReparent (name : String) (target : Option String) (mode opId : String) :
    Fallible String Manager String := do
  update fun m => { m with work := m.work ++ [.reparent name target mode opId] }
  pure opId

namespace Manager

/-- `assert_state` -/
def assertState (m : Manager) (name : String) (want : InstStatus) : Except String RdsInstance :=
  match m.instances[name]? with
  | none => .error ("实例 " ++ name ++ " 不存在")
  | some i =>
    if i.status ≠ want then
      .error ("实例 " ++ name ++ " 当前状态 " ++ i.status.debug ++ ",不允许该操作")
    else .ok i

end Manager

def disabledText (name : String) : String :=
  "实例 " ++ name ++ " 已停用(管理暂停),请先启用再操作"

/-! ## Creation -/

/-- The characters of an instance name. -/
def isNameChar (c : Char) : Bool := c.isAlphanum || c = '-' || c = '_'

/-- The number of shards that a creation asks for. -/
def shardCount (o : CreateOpts) : Nat := min (max o.shardNum 1) 128

/-- The creation is of several shards. -/
def isMulti (o : CreateOpts) : Bool := shardCount o > 1 && (o.itype = "async" || o.itype = "sync")

def itypeText : String :=
  "架构类型需为 single/async/sync/xenon(distributed 需分布式引擎模板,暂不可创建)"

/-- What `create` checks before the lock. -/
def createCheck (name : String) (o : CreateOpts) (m : Manager) : Except String String := do
  let name := trimmed name
  if name = "" ∨ name.toList.all isNameChar = false then throw "实例名仅允许字母/数字/-/_"
  if o.itype ∉ ["single", "async", "sync", "xenon"] then throw itypeText
  if m.instances.contains name then throw ("实例 " ++ name ++ " 已存在")
  if shardCount o > 1 ∧ o.itype = "single" then
    throw "单节点(single)不支持多分片,请选主从异步/同步或保持 1 分片"
  if shardCount o > 1 ∧ o.itype = "xenon" then
    throw "xenon(raft)架构本身即多节点高可用,不支持再分片"
  if o.itype = "xenon" ∧ o.xenonConsistency ≠ "" ∧
      o.xenonConsistency ∉ ["strong", "causal", "session", "eventual"] then
    throw "xenon 读一致性档位需为 strong/causal/session/eventual"
  if shardCount o > 1 ∧ o.itype ∉ ["async", "sync"] then throw itypeText
  pure name

/-- How many proxies a creation asks for. -/
def proxyCount (o : CreateOpts) : Nat := max 1 (min o.proxies 4)

/-- `next_server_id.fetch_add(10)`, for `n` ids. -/
def drawServerIds (n : Nat) : Fallible String Manager Nat := do
  let m ← get
  update fun m => { m with nextServerId := m.nextServerId + 10 * n }
  pure m.nextServerId

/-- The plan of a creation. Every creation draws a server id, several shards and xenon one more for
each of their groups. -/
def planCreate (name : String) (o : CreateOpts) (s : Surroundings) :
    Fallible String Manager (RdsInstance × List (TaskNode Step)) := do
  let network := "rds-" ++ name
  let masterSid ← drawServerIds 1
  let n := proxyCount o
  let proxies := proxyNodeList name n s.ports
  let lvsPort := s.ports (2 * n)
  let ports := fun k => s.ports (2 * n + 1 + k)
  if o.itype = "xenon" then
    match buildXenonInst s.process name o (masterSid + 10) network ports with
    | .error e => throw e
    | .ok plan =>
      let _ ← drawServerIds (xenonCount o)
      pure plan
  else if isMulti o then
    let firstSid ← drawServerIds (shardCount o)
    pure (buildMultiInst s.process name o (shardCount o) firstSid network proxies (lvsName name)
      lvsPort ports)
  else
    pure (buildSingleInst s.process name o network masterSid proxies (lvsName name) lvsPort ports)

/-- The task graph of a creation, with its placeholder links. -/
def createGraph (name : String) (o : CreateOpts) (i : RdsInstance) (dag : List (TaskNode Step)) :
    List (TaskNode Step) :=
  if o.dts then dag ++ dtsTail name o i dag else dag

/-- `create` -/
def create (name : String) (o : CreateOpts) (s : Surroundings) :
    Fallible String Manager String := do
  let name ← checked (createCheck name o)
  lockFor name s
  let (i, dag) ← planCreate name o s
  update fun m => (m.insertInstance name i).persist
  submit "create" name (createGraph name o i dag) .task s

/-! ## Destruction -/

/-- The status of a record with an operation under way. -/
def RdsInstance.withStatus (i : RdsInstance) (status : InstStatus) : RdsInstance :=
  { i with status := status }

/-- An instance of this status may be destroyed. -/
def InstStatus.destroyable : InstStatus → Bool
  | .running | .degraded | .failed => true
  | _ => false

/-- What `destroy` checks before the lock. -/
def destroyCheck (name : String) (m : Manager) : Except String RdsInstance :=
  match m.instances[name]? with
  | none => .error ("实例 " ++ name ++ " 不存在")
  | some i =>
    if i.status.destroyable then .ok i
    else .error ("实例 " ++ name ++ " 当前状态 " ++ i.status.label ++ ",仅 运行/降级/失败 状态可销毁")

/-- `destroy` after its checks, with the record they read. -/
def destroyLocked (name : String) (i : RdsInstance) (s : Surroundings) :
    Fallible String Manager String := do
  lockFor name s
  let i := i.withStatus .destroying
  update fun m => (m.insertInstance name i).persist
  submit "destroy" name (destroyNodes name i) .task s

/-- `destroy` -/
def destroy (name : String) (s : Surroundings) : Fallible String Manager String := do
  let i ← checked (destroyCheck name)
  destroyLocked name i s

/-! ## Scale-out -/

/-- `next_shard_slave_idx` -/
def nextShardSlaveIdx (nodes : List InstNode) (shard : String) : Nat :=
  (nodes.filter (·.shard = shard)).foldl
    (fun best n => max best ((parseUInt (2 ^ 64) (lastPiece n.container).toList).getD 0)) 0 + 1

/-- The number of masters of a record. -/
def masterCnt (i : RdsInstance) : Nat := i.nodes.countP (·.role = .master)

/-- What a scale-out settles for an instance with one master. -/
def scaleoutSingle (name : String) (i : RdsInstance) (role : Role) : Except String ScaleoutPlan := do
  if role.isOffline ∧ i.nodes.any (·.role.isOffline) then
    throw ("实例 " ++ name ++
      " 已存在离线从节点(备份/统计/大查询共用,仅允许一个);如需第二个请先销毁再扩容")
  match i.master with
  | none => throw ("实例 " ++ name ++ " 缺少主节点,无法扩容")
  | some m =>
    let idx := i.slaves.length + 1
    pure ⟨m.host, slaveName name idx, m.serverId + idx, "", ""⟩

/-- What a scale-out settles for an instance with several masters. -/
def scaleoutMulti (name : String) (i : RdsInstance) (role : Role) (shard : Option String) :
    Except String ScaleoutPlan := do
  match shard.filter (· ≠ "") with
  | none => throw ("实例 " ++ name ++ " 为 " ++ toString (masterCnt i) ++
      " 分片集群,请指定目标分片(shard=s1..sN)")
  | some sh =>
    if i.nodes.any (·.shard = sh) = false ∧ i.shards.any (·.id = sh) = false then
      throw ("实例 " ++ name ++ " 不存在分片 " ++ sh)
    if role.isOffline ∧ i.nodes.any fun n => n.shard = sh ∧ n.role.isOffline then
      throw ("分片 " ++ sh ++ " 已存在离线从节点(备份/统计/大查询共用,每分片仅允许一个)")
    match i.nodes.find? fun n => n.role = .master ∧ n.shard = sh with
    | none => throw ("分片 " ++ sh ++ " 缺少主节点,无法扩容")
    | some m =>
      let next := nextShardSlaveIdx i.nodes sh
      pure ⟨m.host, shardSlaveName name sh next, m.serverId + next, sh, m.container⟩

/-- What a scale-out settles from the record. -/
def scaleoutPlan (name : String) (i : RdsInstance) (role : Role) (shard : Option String) :
    Except String ScaleoutPlan :=
  if masterCnt i ≤ 1 then scaleoutSingle name i role else scaleoutMulti name i role shard

/-- What `scaleout_opt` checks before the lock. -/
def scaleoutCheck (name : String) (role : Role) (shard : Option String) (m : Manager) :
    Except String (RdsInstance × ScaleoutPlan) := do
  let i ← m.assertState name .running
  if i.itype = "xenon" then
    throw "xenon(raft)实例不支持从节点扩容(节点数变更属 raft 成员运维,暂未开放)"
  if i.enabled = false then throw (disabledText name)
  let plan ← scaleoutPlan name i role shard
  pure (i, plan)

/-- `scaleout_opt` after its checks, with the record they read. -/
def scaleoutLocked (name : String) (role : Role) (region az : Option String) (i : RdsInstance)
    (plan : ScaleoutPlan) (s : Surroundings) : Fallible String Manager String := do
  lockFor name s
  update fun m => (m.insertInstance name (i.withStatus .scaling)).persist
  submit "scaleout" name (scaleoutNodes s.process name i.network plan (s.ports 0) role
    (region.getD "") (az.getD "")) .task s

/-- `scaleout_opt` -/
def scaleoutOpt (name : String) (role : Role) (region az shard : Option String)
    (s : Surroundings) : Fallible String Manager String := do
  let (i, plan) ← checked (scaleoutCheck name role shard)
  scaleoutLocked name role region az i plan s

/-! ## Replacement -/

/-- What `replace_node` checks of the record. -/
def replaceable (name node : String) (i : RdsInstance) : Except String Unit := do
  if i.enabled = false then throw (disabledText name)
  if i.itype = "xenon" then
    throw "xenon(raft)实例不支持节点替换工作流(raft 成员变更属引擎侧运维,暂未开放)"
  match i.nodes.find? (·.container = node) with
  | none => throw ("节点 " ++ node ++ " 不属于实例 " ++ name)
  | some n =>
    if n.role = .master then
      throw "主节点不可直接替换:请先用受管 PRS(planned)把主角色切到健康从,再替换该节点"
    else if i.master = none then throw ("实例 " ++ name ++ " 缺少主节点,无法执行替换")
    else pure ()

/-- What `replace_node` checks of the target. -/
def replaceTarget (host : String) (m : Manager) : Except String Unit :=
  match m.hosts.find? (·.name = host) with
  | none => .error ("宿主机 " ++ host ++ " 未登记,请先创建机器")
  | some hr =>
    if hr.status = "retiring" then
      .error ("宿主机 " ++ host ++ " 处于 retiring(退役),禁止作为替换目标")
    else if hr.agentPort = 0 then
      .error ("宿主机 " ++ host ++ " 未接入 agent(agent_port=0),无法在其上执行容器操作")
    else .ok ()

/-- What `replace_node` checks before the lock; the arguments are trimmed. -/
def replaceCheck (name node host : String) (m : Manager) : Except String RdsInstance := do
  if node = "" ∨ host = "" then throw "缺少 node/host 参数(目标宿主机须已登记且 agent 接入)"
  let i ← m.assertState name .running
  replaceable name node i
  replaceTarget host m
  let _ ← m.scheduleCheck host 1
  if (resolveRouteOf i node m.hosts).isOn host then
    throw ("节点 " ++ node ++ " 已在宿主机 " ++ host ++ ",无需替换")
  pure i

/-- `replace_node` after its checks, with the record they read. -/
def replaceLocked (name node host : String) (i : RdsInstance) (s : Surroundings) :
    Fallible String Manager String := do
  lockFor name s
  update fun m => (m.alterInstance name (·.withStatus .switching)).persist
  submit "replace_node" name
    (replaceNodes i.name node host (s.ports 0) (i.maxServerId + 1)) .task s

/-- `replace_node` -/
def replaceNode (inst node host : String) (s : Surroundings) : Fallible String Manager String := do
  let i ← checked (replaceCheck (trimmed inst) (trimmed node) (trimmed host))
  replaceLocked (trimmed inst) (trimmed node) (trimmed host) i s

/-! ## Migration -/

/-- The hosts of a list with commas. -/
def splitHosts (csv : String) : List String :=
  ((csv.splitOn ",").map trimmed).filter (· ≠ "")

/-- A host may be the target of a migration. -/
def migrateHost (m : Manager) (h : String) : Except String Unit :=
  match m.hosts.find? (·.name = h) with
  | some hr =>
    if hr.agentPort > 0 ∧ hr.status ≠ "retiring" then .ok ()
    else if hr.status = "retiring" then
      .error ("宿主机 " ++ h ++ " 处于 retiring,不可作为迁移目标")
    else .error ("宿主机 " ++ h ++ " 未登记或未接入 agent")
  | none => .error ("宿主机 " ++ h ++ " 未登记或未接入 agent")

/-- The one node of an instance is where it is to go. -/
def alreadyThere (i : RdsInstance) (region az : String) (hosts : List String) : Bool :=
  match i.nodes, hosts with
  | [n], [h] => nodeHostBinding i n.container = some h && i.region = region && i.az = az
  | _, _ => false

/-- What `migrate_instance` checks of the record. -/
def migratable (name : String) (i : RdsInstance) : Except String Unit := do
  if i.enabled = false then throw (disabledText name)
  if i.network.startsWith "demo-" then throw "演示实例无真实容器,不支持迁移"
  if i.itype = "xenon" then
    throw "xenon(raft)实例不支持跨机迁移工作流(raft 成员迁移属引擎侧运维,暂未开放)"
  if i.master = none then throw ("实例 " ++ name ++ " 缺少主节点,无法迁移")

/-- What `migrate_instance` checks before the lock; the arguments are trimmed. -/
def migrateCheck (name region az : String) (hosts : List String) (m : Manager) :
    Except String Unit := do
  if region = "" ∨ az = "" then throw "缺少 region/az(迁移目标机房事实)"
  if hosts = [] then throw "缺少目标宿主机列表(hosts=a,b…)"
  let i ← m.assertState name .running
  migratable name i
  hosts.forM (migrateHost m)
  if alreadyThere i region az hosts then
    throw ("实例 " ++ name ++ " 已在目标机房(region=" ++ region ++ " az=" ++ az ++ "),无需迁移")
  hosts.forM fun h => (m.scheduleCheck h 1).map fun _ => ()

/-- `migrate_instance` after its checks. -/
def migrateLocked (name region az : String) (hosts : List String) (s : Surroundings) :
    Fallible String Manager String := do
  lockFor name s
  update fun m => (m.alterInstance name (·.withStatus .switching)).persist
  submit "migrate" name (migrateNodes name region az (",".intercalate hosts)) .task s

/-- `migrate_instance` -/
def migrateInstance (inst region az hostsCsv : String) (s : Surroundings) :
    Fallible String Manager String := do
  checked (migrateCheck (trimmed inst) (trimmed region) (trimmed az) (splitHosts hostsCsv))
  migrateLocked (trimmed inst) (trimmed region) (trimmed az) (splitHosts hostsCsv) s

/-! ## Backup -/

/-- What `run_backup` checks before the lock: the container of the master. -/
def backupCheck (name : String) (m : Manager) : Except String String := do
  let i ← m.assertState name .running
  if i.enabled = false then throw (disabledText name)
  if i.itype = "xenon" then
    throw "xenon(raft)实例的备份链路尚未接入(主从复制语义的备份任务不适用)"
  if masterC i = "" then throw ("实例 " ++ name ++ " 缺少主节点,无法执行备份")
  pure (masterC i)

/-- `run_backup` -/
def runBackup (name : String) (s : Surroundings) : Fallible String Manager String := do
  let mc ← checked (backupCheck name)
  lockFor name s
  submit "backup" name (backupNodes name mc) .backup s

/-! ## Switches -/

/-- What `orch_reparent` checks of the record. -/
def reparentable (name : String) (target : Option String) (i : RdsInstance) : Except String Unit := do
  if i.enabled = false then throw (disabledText name)
  if i.network.startsWith "demo-" then throw "演示实例无真实容器,不支持受管切换"
  match target.filter (· ≠ "") with
  | some t =>
    if i.nodes.any (fun n => n.container = t ∧ n.role ≠ .master) = false then
      throw ("目标 " ++ t ++ " 不是该实例的从节点")
  | none => pure ()

/-- What `orch_reparent` checks before the lock; the name is trimmed. -/
def orchReparentCheck (name : String) (target : Option String) (mode : String) (m : Manager) :
    Except String Unit := do
  if name = "" then throw "缺少实例名"
  if (m.instances[name]?).any (·.itype = "xenon") then
    throw "xenon(raft)实例由 xenon 自动选主,不支持管控面 orchestrator 切换"
  if mode ∉ ["auto", "planned"] then throw "mode 需为 auto(ERS) / planned(PRS)"
  let i ← m.assertState name .running
  reparentable name target i

/-- `orch_reparent` after its checks. -/
def orchReparentLocked (name : String) (target : Option String) (mode : String)
    (s : Surroundings) : Fallible String Manager String := do
  lockFor name s
  spawnReparent name (target.filter (· ≠ "")) mode ("reparent-" ++ name)

/-- `orch_reparent` -/
def orchReparent (inst : String) (target : Option String) (mode : String) (s : Surroundings) :
    Fallible String Manager String := do
  checked (orchReparentCheck (trimmed inst) target mode)
  orchReparentLocked (trimmed inst) target mode s

/-- What `orch_rollback` checks before the lock: the old master, and whether it is the master. -/
def orchRollbackCheck (name : String) (m : Manager) : Except String (String × Bool) := do
  if name = "" then throw "缺少实例名"
  let i ← m.assertState name .running
  if i.network.startsWith "demo-" then throw "演示实例不支持回滚"
  match (m.evidenceLatest name 10).find? (·.kind = "reparent_snapshot") with
  | none => throw "无可用切换快照(尚未进行过受管切换)"
  | some snap =>
    match snap.prevMaster with
    | none => throw "快照缺少 prev_master"
    | some prev =>
      if i.nodes.any (·.container = prev) = false then
        throw ("快照旧主 " ++ prev ++ " 已不在实例节点中,无法回滚")
      match i.master with
      | none => throw "当前缺主节点,无法回滚"
      | some cur => pure (prev, cur.container = prev)

/-- `orch_rollback` -/
def orchRollback (inst : String) (s : Surroundings) : Fallible String Manager String := do
  let name := trimmed inst
  let (prev, noop) ← checked (orchRollbackCheck name)
  if noop then pure ("noop:" ++ prev ++ " 已是当前主,无需回滚")
  else
    lockFor name s
    spawnReparent name (some prev) "auto" ("reparent-rollback-" ++ name)

/-! ## All of them -/

/-- A call of an entry point. -/
inductive Entry
  | create (name : String) (o : CreateOpts)
  | destroy (name : String)
  | scaleoutOpt (name : String) (role : Role) (region az shard : Option String)
  | replaceNode (inst node host : String)
  | migrateInstance (inst region az hostsCsv : String)
  | runBackup (name : String)
  | orchReparent (inst : String) (target : Option String) (mode : String)
  | orchRollback (inst : String)

/-- Run an entry point. -/
def Entry.run (s : Surroundings) : Entry → Fallible String Manager String
  | .create name o => Inst.create name o s
  | .destroy name => Inst.destroy name s
  | .scaleoutOpt name role region az shard => Inst.scaleoutOpt name role region az shard s
  | .replaceNode inst node host => Inst.replaceNode inst node host s
  | .migrateInstance inst region az csv => Inst.migrateInstance inst region az csv s
  | .runBackup name => Inst.runBackup name s
  | .orchReparent inst target mode => Inst.orchReparent inst target mode s
  | .orchRollback inst => Inst.orchRollback inst s

end Rdsctl.Inst
