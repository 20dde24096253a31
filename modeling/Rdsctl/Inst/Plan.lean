import Rdsctl.Inst.Basic

/-!
# Plans of lifecycle operations

`src/instance.rs`: the record that `create` plans for each architecture, and the task graphs of
`create`, `destroy`, `scaleout_opt` and `run_backup`. A planner takes the server ids and the ports
it is to use; `create` draws them.
-/

namespace Rdsctl.Inst

open Ha Dag

/-! ## Arguments of containers -/

def tokenRootPass : String := "__RDSCTL_ROOT_PASSWORD__"

def tokenReplPass : String := "__RDSCTL_REPL_PASSWORD__"

/-- The arguments of `mysqld`, which come after the image. -/
def mysqldArgs (serverId : Nat) (extra : List String) : List String :=
  ["--server-id", toString serverId] ++
    (if serverId % 10 ≠ 1 then ["--read-only=1"] else []) ++
      ["--gtid-mode=ON", "--enforce-gtid-consistency=ON",
        "--default-authentication-plugin=mysql_native_password"] ++ extra

/-- `mysql_args` -/
def mysqlArgs (p : Process) (network : String) (hostPort : Option Nat) (serverId : Nat)
    (extra : List String) : List String :=
  ["--network", network] ++
    (match hostPort with
      | some hp => ["-p", "127.0.0.1:" ++ toString hp ++ ":3306"]
      | none => []) ++
    ["-e", "MYSQL_ROOT_PASSWORD=" ++ tokenRootPass, "-e", "MYSQL_ALLOW_EMPTY_PASSWORD=yes",
      p.mysqlImage] ++ mysqldArgs serverId extra

def xenonRpcPort : Nat := 8801

/-- `xenon_node_c` -/
def xenonNodeC (name : String) (i : Nat) : String := "rds-" ++ name ++ "-xenon" ++ toString i

/-- `xenon_node_args` -/
def xenonNodeArgs (p : Process) (network nodeC peers initRole : String) (mysqlHp rpcHp : Nat) :
    List String :=
  ["--network", network, "--hostname", nodeC,
    "-p", "127.0.0.1:" ++ toString mysqlHp ++ ":3306",
    "-p", "127.0.0.1:" ++ toString rpcHp ++ ":" ++ toString xenonRpcPort,
    "-v", "xenon-data-" ++ nodeC ++ ":/var/lib/mysql",
    "-v", "xenon-meta-" ++ nodeC ++ ":/data/raft.meta",
    "-e", "NODE_NAME=" ++ nodeC,
    "-e", "RPC_PORT=" ++ toString xenonRpcPort,
    "-e", "MYSQL_PORT=3306",
    "-e", "MYSQL_ROOT_PASSWORD=" ++ tokenRootPass,
    "-e", "REPL_USER=repl",
    "-e", "REPL_PASSWD=" ++ tokenReplPass,
    "-e", "CLUSTER_PEERS=" ++ peers,
    "-e", "INIT_ROLE=" ++ initRole,
    "-e", "LOG_LEVEL=INFO",
    p.xenonImage]

/-- `conf_abs_path` -/
def confAbsPath (p : Process) (name : String) : String :=
  p.cwd ++ "/logs/rds/" ++ name ++ "/newproxy.conf"

/-- The arguments of a proxy. -/
def proxyArgs (p : Process) (name network : String) (proxy : ProxyNode) : List String :=
  ["--network", network, "-p", "127.0.0.1:" ++ toString proxy.mysqlPort ++ ":4051",
    "-p", "127.0.0.1:" ++ toString proxy.mngPort ++ ":9111",
    "-v", confAbsPath p name ++ ":/app/conf/newproxy.conf:rw", p.proxyImage]

/-! ## Nodes that several graphs share -/

def waitMysqlRoot (container : String) (timeoutSecs : Nat) : Step :=
  .waitMysql container "root" "" timeoutSecs

def netNode (network : String) : TaskNode Step where
  id := "net"
  name := "创建专属网络"
  deps := []
  retries := 1
  timeoutSecs := some 60
  steps := [.networkCreate network]

def createReplSql : String :=
  "CREATE USER IF NOT EXISTS 'repl'@'%' IDENTIFIED WITH mysql_native_password BY '" ++
    tokenReplPass ++ "'; GRANT REPLICATION SLAVE, REPLICATION CLIENT ON *.* TO 'repl'@'%'; " ++
    "FLUSH PRIVILEGES;"

def changeSourceSql (source : String) : String :=
  "CHANGE REPLICATION SOURCE TO SOURCE_HOST='" ++ source ++ "', SOURCE_PORT=3306, " ++
    "SOURCE_USER='repl', SOURCE_PASSWORD='" ++ tokenReplPass ++
    "', SOURCE_AUTO_POSITION=1; START REPLICA;"

/-- The steps that start a master. -/
def masterSteps (p : Process) (network masterC : String) (sid : Nat) : List Step :=
  [.dockerRun masterC
      (mysqlArgs p network none sid ["--log-bin=mysql-bin", "--binlog-format=ROW"]),
    waitMysqlRoot masterC 120,
    .execSql masterC "root" "" createReplSql]

/-- `slave_steps` -/
def slaveSteps (p : Process) (slaveC network masterC : String) (sid : Nat) : List Step :=
  [.dockerRun slaveC (mysqlArgs p network none sid []),
    waitMysqlRoot slaveC 120,
    .execSql slaveC "root" "" (changeSourceSql masterC)]

/-- The id of the `k`-th proxy node, from zero. -/
def proxyId (k : Nat) : String := if k = 0 then "proxy" else "proxy" ++ toString (k + 1)

def proxyNodes (p : Process) (name network : String) (proxies : List ProxyNode) :
    List (TaskNode Step) :=
  proxies.mapIdx fun k proxy =>
    { id := proxyId k
      name := "启动 newproxy 代理 #" ++ toString (k + 1)
      deps := ["proxy_conf"]
      retries := 1
      timeoutSecs := some 180
      steps := [.dockerRun proxy.container (proxyArgs p name network proxy)] }

/-- The id of the last proxy node. -/
def lastProxyId (proxies : List ProxyNode) : String := proxyId (proxies.length - 1)

def lvsNode (name label : String) (proxies : List ProxyNode) : TaskNode Step where
  id := "lvs"
  name := label
  deps := [lastProxyId proxies]
  retries := 2
  timeoutSecs := some 60
  steps := [.ensureLvs name]

def doneNode (name : String) (deps : List String) : TaskNode Step where
  id := "done"
  name := "全部就绪"
  deps := deps
  retries := 0
  timeoutSecs := some 30
  steps := [.updateInstanceStatus name "running"]

def lvsLabel : String := "启动 LVS 接入(VIP 转发 Proxy 集群)"

/-! ## Instances with one shard -/

/-- The slaves of an architecture with one shard. -/
def slaveRoles (itype : String) : List Role :=
  if itype = "single" then [] else if itype = "sync" then [.read] else [.read, .offline]

/-- A node of an instance that is being planned. -/
def freshNode (container : String) (role : Role) (hostPort serverId : Nat)
    (region az shard parent : String) : InstNode where
  container := container
  role := role
  host := container
  port := 3306
  hostPort := hostPort
  serverId := serverId
  region := region
  az := az
  shard := shard
  parent := parent
  rpcHostPort := 0

/-- The region and the zone of a new instance. -/
def regionOf (p : Process) (o : CreateOpts) : String := if o.region = "" then p.region else o.region

def azOf (p : Process) (o : CreateOpts) : String := if o.az = "" then p.az else o.az

def masterName (name : String) : String := "rds-" ++ name ++ "-master"

def slaveName (name : String) (idx : Nat) : String := "rds-" ++ name ++ "-slave-" ++ toString idx

/-- The kind of a slave in the plan of its task. -/
def slaveKind : Role → String
  | .read => "read"
  | _ => "offline"

/-- The nodes of an instance with one shard. -/
def singleNodes (p : Process) (name : String) (o : CreateOpts) (masterSid : Nat)
    (ports : Nat → Nat) : List InstNode :=
  freshNode (masterName name) .master (ports 0) masterSid (regionOf p o) (azOf p o) p.shard "" ::
    (slaveRoles o.itype).mapIdx fun k role =>
      freshNode (slaveName name (k + 1)) role (ports (k + 1)) (masterSid + (k + 1)) (regionOf p o)
        (azOf p o) p.shard (masterName name)

/-- A record that is being created. -/
def freshInstance (p : Process) (name : String) (o : CreateOpts) (shard itype : String)
    (lvsC : String) (lvsPort : Nat) (proxies : List ProxyNode) (shards : List ShardInfo)
    (shardNum : Nat) (network : String) (nodes : List InstNode) : RdsInstance where
  name := name
  status := .creating
  region := regionOf p o
  az := azOf p o
  shard := shard
  enabled := true
  lvsContainer := lvsC
  lvsMysqlPort := lvsPort
  nodeHosts := ∅
  proxies := proxies
  shards := shards
  itype := itype
  shardNum := shardNum
  network := network
  nodes := nodes
  proxyContainer := (proxies.head?.map (·.container)).getD ""
  proxyMysqlPort := (proxies.head?.map (·.mysqlPort)).getD 0
  proxyMngPort := (proxies.head?.map (·.mngPort)).getD 0
  lastError := ""

/-- `create_nodes2` -/
def createNodes2 (p : Process) (name network masterC : String)
    (slaves : List (String × String × Nat)) (proxies : List ProxyNode) (masterSid lvsPort : Nat) :
    List (TaskNode Step) :=
  let slaveIds := (List.range slaves.length).map fun k => "slave" ++ toString (k + 1)
  let slaveNodes := slaves.mapIdx fun k (c, kind, sid) =>
    { id := "slave" ++ toString (k + 1)
      name := if kind = "offline" then "启动从节点(统计/备份)" else "启动从节点(读流量)"
      deps := ["master"]
      retries := 1
      timeoutSecs := some 300
      steps := slaveSteps p c network masterC sid }
  [netNode network,
    { id := "master"
      name := "启动 MySQL 主节点"
      deps := ["net"]
      retries := 1
      timeoutSecs := some 300
      steps := masterSteps p network masterC masterSid }] ++
  slaveNodes ++
  [{ id := "proxy_conf"
     name := "生成 newproxy 配置"
     deps := "master" :: slaveIds
     retries := 0
     timeoutSecs := some 30
     steps := [.writeHostFile ("logs/rds/" ++ name ++ "/newproxy.conf")] }] ++
  proxyNodes p name network proxies ++
  [lvsNode name lvsLabel proxies,
    { id := "verify"
      name := "连通性验证"
      deps := ["lvs"]
      retries := 2
      timeoutSecs := some 300
      steps := (if slaves = [] then []
        else [.verifyReplication masterC (slaves.map (·.1)) lvsPort]) ++
        [.updateInstanceStatus name "running"] }]

/-- `build_single_inst` -/
def buildSingleInst (p : Process) (name : String) (o : CreateOpts) (network : String)
    (masterSid : Nat) (proxies : List ProxyNode) (lvsC : String) (lvsPort : Nat)
    (ports : Nat → Nat) : RdsInstance × List (TaskNode Step) :=
  let nodes := singleNodes p name o masterSid ports
  let slaveSpecs := (nodes.filter (·.role ≠ .master)).mapIdx fun k n =>
    (n.container, slaveKind n.role, masterSid + (k + 1))
  (freshInstance p name o p.shard o.itype lvsC lvsPort proxies [] 1 network nodes,
    createNodes2 p name network (masterName name) slaveSpecs proxies masterSid lvsPort)

/-! ## Instances with several shards -/

/-- `MultiGroup`: the nodes planned for a shard. -/
structure MultiGroup where
  shardId : String
  masterC : String
  readC : String
  offlineC : Option String
  masterSid : Nat
deriving DecidableEq, Repr

def shardId (k : Nat) : String := "s" ++ toString k

def shardMasterName (name : String) (k : Nat) : String :=
  "rds-" ++ name ++ "-" ++ shardId k ++ "-master"

def shardSlaveName (name shard : String) (idx : Nat) : String :=
  "rds-" ++ name ++ "-" ++ shard ++ "-slave-" ++ toString idx

/-- The group of the `k`-th shard, from one. -/
def multiGroup (name itype : String) (k masterSid : Nat) : MultiGroup where
  shardId := shardId k
  masterC := shardMasterName name k
  readC := shardSlaveName name (shardId k) 1
  offlineC := if itype = "async" then some (shardSlaveName name (shardId k) 2) else none
  masterSid := masterSid

/-- The nodes of a group. -/
def MultiGroup.nodes (g : MultiGroup) (region az : String) (ports : Nat → Nat) : List InstNode :=
  [freshNode g.masterC .master (ports 0) g.masterSid region az g.shardId "",
    freshNode g.readC .read (ports 1) (g.masterSid + 1) region az g.shardId g.masterC] ++
  match g.offlineC with
  | some c => [freshNode c .offline (ports 2) (g.masterSid + 2) region az g.shardId g.masterC]
  | none => []

/-- The shard row of a group. -/
def MultiGroup.row (g : MultiGroup) : ShardInfo where
  id := g.shardId
  master := g.masterC
  slave := g.readC
  slaves := ⟨g.readC, "read"⟩ ::
    match g.offlineC with
    | some c => [⟨c, "offline"⟩]
    | none => []

/-- The groups of `shardN` shards. Every shard draws a server id. -/
def multiGroups (name itype : String) (shardN firstSid : Nat) : List MultiGroup :=
  (List.range shardN).map fun j => multiGroup name itype (j + 1) (firstSid + 10 * j)

/-- `create_nodes_multi` -/
def createNodesMulti (p : Process) (name network : String) (groups : List MultiGroup)
    (proxies : List ProxyNode) (lvsPort : Nat) : List (TaskNode Step) :=
  let shardNodes := groups.flatMap fun g =>
    [{ id := g.shardId ++ "_master"
       name := "启动主节点(分片 " ++ g.shardId ++ " )"
       deps := ["net"]
       retries := 1
       timeoutSecs := some 300
       steps := masterSteps p network g.masterC g.masterSid },
     { id := g.shardId ++ "_read"
       name := "启动从节点(分片 " ++ g.shardId ++ " · 读从)"
       deps := [g.shardId ++ "_master"]
       retries := 1
       timeoutSecs := some 300
       steps := slaveSteps p g.readC network g.masterC (g.masterSid + 1) }] ++
    match g.offlineC with
    | some c =>
      [{ id := g.shardId ++ "_offline"
         name := "启动从节点(分片 " ++ g.shardId ++ " · 离线从)"
         deps := [g.shardId ++ "_master"]
         retries := 1
         timeoutSecs := some 300
         steps := slaveSteps p c network g.masterC (g.masterSid + 2) }]
    | none => []
  let first := (groups.head?.map (·.shardId)).getD ""
  let verifyNodes := groups.map fun g =>
    { id := g.shardId ++ "_verify"
      name := "分片 " ++ g.shardId ++ " 复制/连通校验"
      deps := [g.shardId ++ "_read"] ++ (g.offlineC.toList.map fun _ => g.shardId ++ "_offline") ++
        ["lvs"]
      retries := 2
      timeoutSecs := some 300
      steps := [.verifyReplication g.masterC (g.readC :: g.offlineC.toList) lvsPort] }
  netNode network :: shardNodes ++
  [{ id := "proxy_conf"
     name := "生成 newproxy 配置(分片1 入口)"
     deps := [first ++ "_master", first ++ "_read"]
     retries := 0
     timeoutSecs := some 30
     steps := [.writeHostFile ("logs/rds/" ++ name ++ "/newproxy.conf")] }] ++
  proxyNodes p name network proxies ++ [lvsNode name lvsLabel proxies] ++ verifyNodes ++
  [doneNode name (groups.map fun g => g.shardId ++ "_verify")]

/-- How many ports a group takes. -/
def groupPorts (itype : String) : Nat := if itype = "async" then 3 else 2

/-- The nodes of an instance with several shards. -/
def multiNodes (p : Process) (name : String) (o : CreateOpts) (shardN firstSid : Nat)
    (ports : Nat → Nat) : List InstNode :=
  ((multiGroups name o.itype shardN firstSid).mapIdx fun j g =>
    g.nodes (regionOf p o) (azOf p o) fun i => ports (groupPorts o.itype * j + i)).flatten

/-- `build_multi_inst` -/
def buildMultiInst (p : Process) (name : String) (o : CreateOpts) (shardN firstSid : Nat)
    (network : String) (proxies : List ProxyNode) (lvsC : String) (lvsPort : Nat)
    (ports : Nat → Nat) : RdsInstance × List (TaskNode Step) :=
  let groups := multiGroups name o.itype shardN firstSid
  (freshInstance p name o "" o.itype lvsC lvsPort proxies (groups.map (·.row)) shardN network
      (multiNodes p name o shardN firstSid ports),
    createNodesMulti p name network groups proxies lvsPort)

/-! ## Instances of xenon -/

/-- The node of the `k`-th member, from zero. -/
def xenonNode (name : String) (firstSid : Nat) (ports : Nat → Nat) (k : Nat) : InstNode where
  container := xenonNodeC name (k + 1)
  role := if k = 0 then .master else .read
  host := xenonNodeC name (k + 1)
  port := 3306
  hostPort := ports (2 * k)
  serverId := firstSid + 10 * k
  region := ""
  az := ""
  shard := ""
  parent := ""
  rpcHostPort := ports (2 * k + 1)

def proxyName (name : String) (k : Nat) : String := "rds-" ++ name ++ "-proxy-" ++ toString k

def lvsName (name : String) : String := "rds-" ++ name ++ "-lvs"

/-- `n` proxies with the ports they are given. -/
def proxyNodeList (name : String) (n : Nat) (ports : Nat → Nat) : List ProxyNode :=
  (List.range n).map fun k => ⟨proxyName name (k + 1), ports (2 * k), ports (2 * k + 1)⟩

/-- The number of members that a xenon instance is asked to have. -/
def xenonCount (o : CreateOpts) : Nat := if o.xenonNodes = 0 then 3 else o.xenonNodes

/-- The task graph that `build_xenon_inst` plans. -/
def xenonNodesGraph (p : Process) (name network consistency : String) (n : Nat)
    (proxies : List ProxyNode) (nodePorts : Nat → Nat) : List (TaskNode Step) :=
  let members := (List.range n).map fun k => xenonNodeC name (k + 1)
  let peers := ",".intercalate (members.map fun c => c ++ ":" ++ toString xenonRpcPort)
  let nodes := (List.range n).map fun k =>
    let c := xenonNodeC name (k + 1)
    let role := if k = 0 then "LEADER" else "FOLLOWER"
    { id := "node" ++ toString (k + 1)
      name := "启动 xenon 节点 #" ++ toString (k + 1) ++ "(" ++ role ++ ")"
      deps := ["net"]
      retries := 1
      timeoutSecs := some 600
      steps := [.dockerRun c
          (xenonNodeArgs p network c peers role (nodePorts (2 * k)) (nodePorts (2 * k + 1))),
        waitMysqlRoot c 300] }
  let access : List (TaskNode Step) :=
    if proxies = [] then []
    else
      [{ id := "proxy_conf"
         name := "生成 rsproxy 配置(含 XenonRaft leader 发现)"
         deps := ["verify"]
         retries := 0
         timeoutSecs := some 30
         steps := [.writeHostFile (confAbsPath p name)] }] ++
      (proxyNodes p name network proxies).mapIdx (fun k node =>
        { node with name := "启动 rsproxy 代理 #" ++ toString (k + 1) ++ "(" ++ consistency ++ ")" }) ++
      [lvsNode name "启动 LVS 接入(VIP 转发 rsproxy 集群)" proxies]
  netNode network :: nodes ++
  [{ id := "verify"
     name := "xenon raft 集群就绪校验"
     deps := (List.range n).map fun k => "node" ++ toString (k + 1)
     retries := 2
     timeoutSecs := some 300
     steps := [.verifyXenon members] }] ++
  access ++ [doneNode name [if proxies = [] then "verify" else "lvs"]]

/-- `build_xenon_inst` -/
def buildXenonInst (p : Process) (name : String) (o : CreateOpts) (firstSid : Nat)
    (network : String) (ports : Nat → Nat) : Except String (RdsInstance × List (TaskNode Step)) :=
  let n := xenonCount o
  if n > 9 then .error "xenon 节点数上限 9(lab 规模)"
  else
    let consistency := if o.xenonConsistency = "" then "strong" else o.xenonConsistency
    let nProxy := min o.xenonProxy 4
    let proxies := proxyNodeList name nProxy fun i => ports (2 * n + i)
    let lvsC := if nProxy = 0 then "" else lvsName name
    let lvsPort := if nProxy = 0 then 0 else ports (2 * n + 2 * nProxy)
    .ok (freshInstance p name o p.shard "xenon" lvsC lvsPort proxies [] 1 network
        ((List.range n).map (xenonNode name firstSid ports)),
      xenonNodesGraph p name network consistency n proxies ports)

/-! ## The tail for placeholder links -/

/-- `dts_container` -/
def dtsContainer (name node : String) : String :=
  "rds-" ++ name ++ "-dts-" ++
    node.map fun c => if c.isAlphanum ∨ c = '-' then c else '-'

/-- The first read slave of every shard. -/
def firstReads (nodes : List InstNode) : List InstNode :=
  nodes.foldl (fun targets n =>
    if n.role = .read ∧ ¬ targets.any (·.shard = n.shard) then targets ++ [n] else targets) []

/-- The nodes that get a placeholder link. -/
def dtsTargets (nodes : List InstNode) : List InstNode :=
  if (nodes.filter (·.role.isOffline)) = [] then firstReads nodes else nodes.filter (·.role.isOffline)

/-- The nodes that `create` appends for the placeholder links. -/
def dtsTail (name : String) (o : CreateOpts) (i : RdsInstance) (dag : List (TaskNode Step)) :
    List (TaskNode Step) :=
  let spec := if o.dtsSpec = "" then "2C4G" else o.dtsSpec
  (dtsTargets i.nodes).map fun n =>
    { id := "dts-" ++ n.container
      name := "占位 DTS(canal) " ++ spec ++ " ← " ++ n.container ++ "(随实例创建)"
      deps := (dag.getLast?.map (·.id)).toList
      retries := 0
      timeoutSecs := some 30
      steps := [.dtsRun name n.container (dtsContainer name n.container)
        (if n.role.isOffline then "数据仓库(BigData)" else "下游业务(Downstream)") spec] }

/-! ## Other graphs -/

def simpleNode (id name : String) (deps : List String) (retries timeoutSecs : Nat)
    (steps : List Step) : TaskNode Step :=
  ⟨id, name, deps, retries, some timeoutSecs, steps⟩

/-- The node that ends a `destroy`. -/
def cleanupNode (name : String) : TaskNode Step :=
  simpleNode "cleanup" "清理记录" ["net_rm"] 0 30
    [.updateInstanceStatus name "destroyed", .audit name "destroy" "done"]

/-- The proxies of a record, with the old field for records without a list. -/
def proxyContainers (i : RdsInstance) : List String :=
  if i.proxies = [] then [i.proxyContainer] else i.proxies.map (·.container)

/-- The container of the first master. -/
def masterC (i : RdsInstance) : String := (i.master.map (·.container)).getD ""

/-- `destroy_nodes` of a xenon instance. -/
def destroyXenon (name : String) (i : RdsInstance) : List (TaskNode Step) :=
  let hasProxy := (proxyContainers i).any (· ≠ "")
  let mc := masterC i
  (if hasProxy then
    [simpleNode "lvs_stop" "停止接入(LVS)" [] 1 30 [.stopLvs name],
      simpleNode "proxy_stop" "停止 rsproxy 代理" ["lvs_stop"] 1 150
        (((proxyContainers i).filter (· ≠ "")).map .dockerRm)]
  else []) ++
  (if mc ≠ "" then
    [simpleNode "raft_stop" "停止 xenon raft 集群" (if hasProxy then ["proxy_stop"] else []) 0 60
      [.dockerExec mc ["xenoncli", "raft", "stop"]]]
  else []) ++
  [simpleNode "nodes_stop" "停止 xenon 节点"
      (if mc ≠ "" then ["raft_stop"] else if hasProxy then ["proxy_stop"] else []) 1 180
      (i.nodes.map (.dockerRm ·.container)),
    simpleNode "net_rm" "移除网络" ["nodes_stop"] 1 60 [.networkRm i.network],
    cleanupNode name]

/-- `destroy_nodes` -/
def destroyNodes (name : String) (i : RdsInstance) : List (TaskNode Step) :=
  if i.itype = "xenon" then destroyXenon name i
  else
    [simpleNode "lvs_stop" "停止接入(LVS)" [] 1 30 [.stopLvs name],
      simpleNode "proxy_stop" "停止代理" ["lvs_stop"] 1 150 ((proxyContainers i).map .dockerRm),
      simpleNode "slaves_stop" "停止从节点" ["proxy_stop"] 1 180 (i.nodes.map (.dockerRm ·.container)),
      simpleNode "master_stop" "停止主节点" ["slaves_stop"] 1 120 [.dockerRm (masterC i)],
      simpleNode "net_rm" "移除网络" ["master_stop"] 1 60 [.networkRm i.network],
      cleanupNode name]

/-- What a scale-out has settled before it asks for the lock. -/
structure ScaleoutPlan where
  sourceHost : String
  container : String
  serverId : Nat
  shard : String
  parent : String
deriving DecidableEq, Repr

/-- The name of a role in the plan of a scale-out. -/
def scaleoutRole : Role → String
  | .offline | .stats | .backup => "offline"
  | .read | .master => "read"

/-- The piece after the last `-`. -/
def lastPiece (s : String) : String := String.ofList ((s.toList.splitOn '-').getLast?.getD [])

/-- `scaleout_nodes` -/
def scaleoutNodes (p : Process) (name network : String) (plan : ScaleoutPlan) (hp : Nat)
    (role : Role) (region az : String) : List (TaskNode Step) :=
  let head := if plan.shard = "" then "启动新从节点 " ++ lastPiece plan.container
    else "启动从节点(分片 " ++ plan.shard ++ " · " ++ scaleoutRole role ++ ")"
  [simpleNode "new_slave" head [] 1 300
      [.dockerRun plan.container (mysqlArgs p network (some hp) plan.serverId []),
        waitMysqlRoot plan.container 120],
    simpleNode "repl" "配置并启动复制" ["new_slave"] 2 120
      [.execSql plan.container "root" "" (changeSourceSql plan.sourceHost)],
    simpleNode "verify" "复制状态与数据校验" ["repl"] 2 300
      [.verifyScaleout plan.sourceHost plan.container,
        .updateInstanceTopology name plan.container (scaleoutRole role) hp plan.serverId region az
          plan.shard plan.parent,
        .updateInstanceStatus name "running"]]

/-- The node of `replace_node`. -/
def replaceNodes (inst node host : String) (hp sid : Nat) : List (TaskNode Step) :=
  [simpleNode "replace" ("替换节点 " ++ node ++ " → 宿主机 " ++ host) [] 1 600
    [.replaceNodeCore inst node host hp sid, .replaceNodeCommit inst node host hp sid,
      .updateInstanceStatus inst "running"]]

/-- The node of `migrate_instance`. -/
def migrateNodes (name region az hosts : String) : List (TaskNode Step) :=
  [simpleNode "migrate" ("实例 " ++ name ++ " 迁移 → " ++ region ++ "/" ++ az) [] 0 1800
    [.migrateInstance name region az hosts, .updateInstanceStatus name "running"]]

def appDb : String := "appdb"

/-- `backup_nodes` -/
def backupNodes (name masterC : String) : List (TaskNode Step) :=
  let dump := "/tmp/rds-" ++ name ++ "-backup.sql"
  let cmd := "set -e; mysqldump -u root -p\"$MYSQL_ROOT_PASSWORD\" --single-transaction --quick " ++
    "--databases " ++ appDb ++ " > " ++ dump ++ " 2> /tmp/rds-" ++ name ++
    "-dump.err; echo 'backup-ok bytes='$(wc -c < " ++ dump ++ ")"
  [simpleNode "backup" "执行逻辑备份(mysqldump)" [] 2 600
    [.dockerExec masterC ["sh", "-c", cmd],
      .writeHostFile ("logs/rds/" ++ name ++ "/backup/README.txt")]]

end Rdsctl.Inst
