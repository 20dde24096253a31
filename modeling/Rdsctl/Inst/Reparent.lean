import Rdsctl.Inst.Effects
import Rdsctl.Inst.Stale

/-!
# Managed switches

`src/instance.rs`, `reparent_core`, with `pick_candidate` of `src/orch.rs` and `route_for_workload`
of `src/exec/mod.rs`: the candidate, the SQL calls to the old master and to it, and the role swap in
the registry. A call takes effect and is answered, or has no effect and gets an error: it has to
reach the server, the server has to run, and the rest is left open (`SwitchEnv`).
-/

namespace Rdsctl.Inst

open Ha Fallible

/-! ## Servers -/

/-- Where a server replicates from, and whether its threads run. -/
structure Replication where
  source : String
  running : Bool
deriving DecidableEq, Repr

/-- A server that runs. -/
structure Server where
  readOnly : Bool
  replication : Option Replication
deriving DecidableEq, Repr

/-- The servers that run, by container. -/
abbrev Servers : Type := String → Option Server

/-- The calls of a switch, in the order in which they are made. -/
inductive SqlCall
  | probe
  | readOnly
  | stopSlave
  | resetSlave
  | writable
  | rollback
  | reattach
deriving DecidableEq, Repr

namespace Server

def setReadOnly (b : Bool) (s : Server) : Server := { s with readOnly := b }

/-- `STOP SLAVE` -/
def stopSlave (s : Server) : Server :=
  { s with replication := s.replication.map fun r => { r with running := false } }

/-- `RESET SLAVE ALL` -/
def resetSlave (s : Server) : Server := { s with replication := none }

/-- `STOP SLAVE; CHANGE MASTER TO …; START SLAVE` -/
def changeMaster (source : String) (s : Server) : Server :=
  { s with replication := some ⟨source, true⟩ }

end Server

/-! ## The candidate -/

/-- What the fact layer says of a node. -/
structure Fact where
  container : String
  role : String
  alive : Bool
  slaveEnabled : Bool
deriving DecidableEq, Repr

/-- A candidate. -/
structure Candidate where
  name : String
  lagSecs : Int
  ackSafe : Bool
deriving DecidableEq, Repr

/-- The lag of the `i`-th candidate. -/
def lagAt (cands : List Candidate) (i : Nat) : Int := ((cands[i]?).map (·.lagSecs)).getD 0

/-- `pick_candidate` -/
def pickCandidate (cands : List Candidate) (zeroLoss : Bool) : Option Nat :=
  let idx := (List.range cands.length).filter fun i => !zeroLoss || (cands[i]?).any (·.ackSafe)
  (idx.mergeSort fun a b => lagAt cands a < lagAt cands b || (lagAt cands a = lagAt cands b && a ≤ b)).head?

/-- The candidates among the facts. Their lag is always zero. -/
def candidates (facts : List Fact) : List Candidate :=
  (facts.filter fun f => f.role = "slave" ∧ f.alive = true).map fun f =>
    ⟨f.container, 0, f.slaveEnabled⟩

/-- The candidate: the target, or one of the facts. -/
def chooseCandidate (name itype : String) (facts : List Fact) (target : Option String) :
    Except String String :=
  match target.filter (· ≠ "") with
  | some t => .ok t
  | none =>
    let zero : Bool := itype = "sync"
    let cands := candidates facts
    if cands = [] then .error ("实例 " ++ name ++ " 无可用候选从(事实层无存活从)")
    else
      match (pickCandidate cands zero).bind fun k => cands[k]? with
      | some c => .ok c.name
      | none => .error ("实例 " ++ name ++ " 无 " ++ (if zero then "ack-safe" else "可用") ++
          "(近零丢)候选")

/-! ## Calls -/

/-- `route_for_workload`: only a bound workload is routed. -/
def routeForWorkload (m : Manager) (container : String) : NodeRoute :=
  match m.instances.values.find? fun i => i.nodeHosts.contains container with
  | some i => resolveRouteOf i container m.hosts
  | none => .direct

/-- What a switch does not decide: the answers to its calls, and the facts it is given. -/
structure SwitchEnv where
  replies : SqlCall → Except String Unit
  downText : String
  facts : List Fact

/-- A manager and the servers of its instances. -/
structure SwitchState where
  manager : Manager
  servers : Servers

/-- The answer to a call. -/
def SwitchState.reply (st : SwitchState) (e : SwitchEnv) (call : SqlCall) (container : String) :
    Except String Unit :=
  match routeForWorkload st.manager container with
  | .unmanaged host =>
    .error ("节点绑定宿主机 " ++ host ++ " 但 agent 未接入,无法执行(不代跑本机)")
  | .direct | .agent .. =>
    if (st.servers container).isNone then .error e.downText else e.replies call

/-- `exec_mysql_local`: the statement takes effect, or the call fails. -/
def execMysql (e : SwitchEnv) (call : SqlCall) (container : String) (f : Server → Server) :
    Fallible String SwitchState Unit := do
  let st ← get
  match st.reply e call container with
  | .error msg => throw msg
  | .ok _ =>
    update fun st =>
      { st with servers := Function.update st.servers container ((st.servers container).map f) }

/-- The statements that promote the candidate. -/
def promoteSqls : List (SqlCall × String × (Server → Server)) :=
  [(.stopSlave, "STOP SLAVE", Server.stopSlave), (.resetSlave, "RESET SLAVE ALL", Server.resetSlave),
    (.writable, "SET GLOBAL read_only=OFF", Server.setReadOnly false)]

/-- Promote the candidate. When a statement fails, a live old master is made writable again. -/
def promote (e : SwitchEnv) (old cand : String) (oldAlive : Bool) :
    List (SqlCall × String × (Server → Server)) → Fallible String SwitchState Unit
  | [] => pure ()
  | (call, text, f) :: rest => do
    match ← attempt (execMysql e call cand f) with
    | .ok _ => promote e old cand oldAlive rest
    | .error msg => do
      if oldAlive then ignore (execMysql e .rollback old (Server.setReadOnly false))
      throw ("提升候选 " ++ cand ++ " 失败(" ++ text ++ "): " ++ msg)

/-- Change the manager. -/
def onManager (f : Manager → Manager) : Fallible String SwitchState Unit :=
  update fun st => { st with manager := f st.manager }

/-- The snapshot and the role swap of `reparent_core`. -/
def registerSwitch (name old cand : String) : Fallible String SwitchState Unit := do
  onManager fun m => { m with evidence := m.evidence ++ [⟨name, "reparent_snapshot", some old⟩] }
  let st ← get
  match st.manager.instances[name]? with
  | none => throw ("实例 " ++ name ++ " 不存在")
  | some i => do
    onManager fun m => m.insertInstance name (i.swapRoles old cand)
    if i.nodes.any (·.swaps old cand) = false then
      throw ("登记节点未匹配(旧主 " ++ old ++ "/候选 " ++ cand ++ "),未切换")
    onManager Manager.persist

/-- Stop the writes of a live old master. -/
def haltOld (e : SwitchEnv) (old : String) (oldAlive : Bool) : Fallible String SwitchState Unit := do
  if oldAlive then
    match ← attempt (execMysql e .readOnly old (Server.setReadOnly true)) with
    | .ok _ => pure ()
    | .error msg => throw ("旧主 " ++ old ++ " 置只读失败:" ++ msg)

/-- Attach a live old master to the new one, if possible. -/
def reattachOld (e : SwitchEnv) (old cand : String) (oldAlive : Bool) :
    Fallible String SwitchState (Except String Unit) :=
  if oldAlive then attempt (execMysql e .reattach old (Server.changeMaster cand)) else pure (.ok ())

/-- The log of a switch. -/
def switchLog (old cand : String) (oldAlive : Bool) (attached : Except String Unit) : List String :=
  [if oldAlive then "旧主 " ++ old ++ " 已置只读" else "旧主 " ++ old ++ " 不可达,跳过只读(ERS)",
    "候选 " ++ cand ++ " 提升为主(STOP/RESET SLAVE,可写)"] ++
  (if oldAlive then
    [match attached with
      | .ok _ => "旧主 " ++ old ++ " 已重挂到新主 " ++ cand
      | .error msg => "旧主 " ++ old ++ " 重挂失败(可后续手工修复):" ++ msg]
  else []) ++
  ["登记角色互换完成:master " ++ old ++ "→" ++ cand]

/-- `reparent_core` from the choice of the candidate on. -/
def switchTo (e : SwitchEnv) (name old cand mode : String) :
    Fallible String SwitchState (List String) := do
  if cand = old then throw "候选不能是当前主节点"
  let st ← get
  let oldAlive := (st.reply e .probe old).isOk
  if oldAlive = false ∧ mode = "planned" then
    throw "旧主不可达,planned(PRS)要求旧主在线;请用 auto(ERS)"
  haltOld e old oldAlive
  promote e old cand oldAlive promoteSqls
  let attached ← reattachOld e old cand oldAlive
  registerSwitch name old cand
  pure (switchLog old cand oldAlive attached)

/-- `reparent_core` -/
def reparentCore (e : SwitchEnv) (name : String) (target : Option String) (mode : String) :
    Fallible String SwitchState (List String) := do
  let st ← get
  match st.manager.instances[name]? with
  | none => throw ("实例 " ++ name ++ " 不存在")
  | some i =>
    match i.master with
    | none => throw ("实例 " ++ name ++ " 缺主节点,无法切换")
    | some m =>
      match chooseCandidate name i.itype e.facts target with
      | .error msg => throw msg
      | .ok cand => switchTo e name m.container cand mode

end Rdsctl.Inst
