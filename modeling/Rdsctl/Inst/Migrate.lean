import Rdsctl.Inst.Reparent
import Rdsctl.Inst.Replace
import Rdsctl.Inst.ServerIds
import Rdsctl.Lib.Procedure

/-!
# Migrating an instance

`src/instance.rs`, `exec_migrate_instance_core`, `migrate_move_slave`, `migrate_move_master` and
`wait_slave_caught`. The slaves are moved first, each by a replacement, which is one call here. For
the master a stand-in `master-mgn` is started on the target host and catches up; then the master is
made read-only, the stand-in catches up once more and takes the name of the master, whose container
is removed, and is made writable.

Clients commit transactions on the master in the meantime. A client with the `SUPER` privilege does so
on a read-only server as well. `Migration.Safe` is what a migration owes to them, and `Calm` is when
it keeps it.
-/

namespace Rdsctl.Inst

open Ha

/-! ## Servers -/

/-- A MySQL container that runs, with the transactions it has executed. -/
structure Mysqld where
  serverId : Nat
  port : Nat
  server : Server
  executed : List Nat
deriving DecidableEq, Repr

namespace Mysqld

def setReadOnly (b : Bool) (v : Mysqld) : Mysqld := { v with server := v.server.setReadOnly b }

/-- `CHANGE REPLICATION SOURCE TO …; START REPLICA;` -/
def attach (source : String) (v : Mysqld) : Mysqld := { v with server := v.server.changeMaster source }

/-- `STOP REPLICA` -/
def stopReplica (v : Mysqld) : Mysqld := { v with server := v.server.stopSlave }

/-- What replication has brought. -/
def catchUp (txns : List Nat) (v : Mysqld) : Mysqld := { v with executed := txns ++ v.executed }

/-- A transaction is committed. -/
def commit (txn : Nat) (v : Mysqld) : Mysqld := { v with executed := txn :: v.executed }

/-- Both replication threads run, and read from this source. -/
def follows (source : String) (v : Mysqld) : Bool := v.server.replication = some ⟨source, true⟩

end Mysqld

/-! ## The procedure -/

/-- A migration, with the targets that `exec_migrate_instance_core` splits the list of hosts into. -/
structure Migration where
  inst : String
  region : String
  az : String
  targets : List String
  trimmed : ∀ h ∈ targets, trimmed h = h ∧ h ≠ ""

theorem mem_splitHosts {csv h : String} (hmem : h ∈ splitHosts csv) : trimmed h = h ∧ h ≠ "" := by
  simp only [splitHosts, List.mem_filter, List.mem_map, decide_eq_true_eq] at hmem
  obtain ⟨⟨x, -, rfl⟩, hne⟩ := hmem
  exact ⟨trimmed_trimmed x, hne⟩

/-- The arguments of `MigrateInstance`. -/
def Migration.ofCsv (inst region az hostsCsv : String) : Migration where
  inst := inst
  region := region
  az := az
  targets := splitHosts hostsCsv
  trimmed _ := mem_splitHosts

/-- What `migrate_move_master` reads before its first call. -/
structure MovePlan where
  target : NodeRoute
  old : NodeRoute
  master : String
  hostPort : Nat
  serverId : Nat
deriving DecidableEq, Repr

/-- The calls of `migrate_move_master`, in their order. -/
inductive MoveCall where
  /-- the stand-in exists -/
  | standIn
  | run
  | ready
  | attach
  | readyAgain
  /-- `wait_slave_caught` -/
  | caughtUp
  /-- `r_rm` of the stand-in, when it does not catch up -/
  | giveUp
  | giveUpRemove
  | readOnly
  | caughtAgain
  | stopReplica
  /-- `r_rm` of the old master -/
  | old
  | oldRemove
  /-- the target has a container of the master's name -/
  | inPlace
  /-- `r_rm` of the stand-in, when the master is in place -/
  | spare
  | spareRemove
  | rename
  | renamed
  | writable
  /-- `commit_replace_node`; whether the slaves can be pointed at the new master is ignored -/
  | commit
deriving DecidableEq, Repr

inductive MigrateCall where
  /-- The slave is moved to the host; the slaves after it, with their hosts. -/
  | slave (node host : String) (rest : List (String × String))
  | move (c : MoveCall) (p : MovePlan)
  /-- region and availability zone are written -/
  | facts
deriving DecidableEq, Repr

/-- The hosts, the transactions that clients have committed on the master, and how many ports
`alloc_host_port` has drawn. -/
structure Moving where
  hosts : Hosts Mysqld
  committed : List Nat
  drawn : Nat

/-- A transaction that a client commits on the server of a host that has the master's name. -/
structure ClientCommit where
  host : Nat
  txn : Nat
  super : Bool
deriving DecidableEq, Repr

namespace MovePlan

variable (p : MovePlan)

/-- The name of the stand-in. -/
def temp : String := p.master ++ "-mgn"

/-- The stand-in when it has been started; `mysql_args` makes it read-only or not. -/
def fresh : Mysqld := ⟨p.serverId, p.hostPort, ⟨decide (p.serverId % 10 ≠ 1), none⟩, []⟩

end MovePlan

namespace Moving

/-- A change to the hosts, if it is possible. -/
def onHosts (s : Moving) (f : Hosts Mysqld → Option (Hosts Mysqld)) : Option Moving :=
  (f s.hosts).map fun h => { s with hosts := h }

end Moving

namespace Migration

variable (d : NodeRoute → Nat) (ports : Nat → Nat) (mg : Migration)

/-- The target of the master. -/
def host : String := mg.targets.headD ""

/-- The name of the container that the registry has for the master. -/
def master (m : Manager) : Option String :=
  (m.instances[mg.inst]?).bind fun i => i.master.map (·.container)

/-- What `exec_migrate_instance_core` checks first. -/
def check (m : Manager) : Except String RdsInstance :=
  match m.instances[mg.inst]? with
  | none => .error ("实例 " ++ mg.inst ++ " 不存在")
  | some i => do
    if mg.targets = [] then throw "缺少目标宿主机列表(hosts=a,b)"
    mg.targets.forM (migrateHost m)
    if i.master = none then throw "实例缺少主节点,无法迁移"
    pure i

/-- The slaves and their targets, by turns. -/
def slaves (i : RdsInstance) : List (String × String) :=
  i.slaves.zipIdx.map fun p => (p.1.container, mg.targets.getD ((p.2 + 1) % mg.targets.length) "")

/-- What `migrate_move_master` reads before its first call; nothing when the master is bound to its
target. -/
def movePlan (m : Manager) (port : Nat) : Except String (Option MovePlan) :=
  match m.instances[mg.inst]? with
  | none => .error ("实例 " ++ mg.inst ++ " 不存在")
  | some i =>
    match i.master with
    | none => .error ("实例 " ++ mg.inst ++ " 缺少主节点")
    | some n =>
      if nodeHostBinding i n.container = some mg.host then .ok none
      else
        (targetRoute mg.host m.hosts).map fun target =>
          some ⟨target, resolveRouteOf i n.container m.hosts, n.container, port, i.maxServerId + 1⟩

/-- The next call: a slave that is not bound to its target, or else the master. -/
def goOn (s : Moving) : List (String × String) → Option MigrateCall
  | [] =>
    match mg.movePlan s.hosts.manager (ports s.drawn) with
    | .ok (some p) => some (.move .standIn p)
    | .ok none => some .facts
    | .error _ => none
  | (node, host) :: rest =>
    match s.hosts.manager.instances[mg.inst]? with
    | some i =>
      if nodeHostBinding i node = some host then goOn s rest else some (.slave node host rest)
    | none => none

/-- `wait_slave_caught`: the threads run and everything that the master has executed has come. A
server does not replicate from one with its own id. -/
def catchUp (p : MovePlan) (s : Moving) : Option Moving :=
  (s.hosts.box d p.old p.master).bind fun v =>
    (s.hosts.box d p.target p.temp).bind fun u =>
      if u.follows p.master = true ∧ u.serverId ≠ v.serverId then
        s.onHosts (·.alter d p.target p.temp (·.catchUp v.executed))
      else none

/-- A call that has an effect and a call after it, or else ends the migration. -/
def orEnd (ok : Bool) (s : Moving) (t : Option Moving) (next : MigrateCall) :
    Moving × Option MigrateCall :=
  match if ok then t else none with
  | some t => (t, some next)
  | none => (s, none)

/-- `migrate_move_master`, call by call. -/
def move (p : MovePlan) (ok : Bool) (s : Moving) : MoveCall → Moving × Option MigrateCall
  | .standIn =>
    ({ s with drawn := s.drawn + 1 },
      some (.move (if ok && (s.hosts.box d p.target p.temp).isSome then .readyAgain else .run) p))
  | .run =>
    orEnd ok s (s.onHosts (·.run d Mysqld.port p.target p.temp p.fresh)) (.move .ready p)
  | .ready =>
    (s, if ok && (s.hosts.box d p.target p.temp).isSome then some (.move .attach p) else none)
  | .attach =>
    orEnd ok s (s.onHosts (·.alter d p.target p.temp (·.attach p.master))) (.move .caughtUp p)
  | .readyAgain =>
    (s, if ok && (s.hosts.box d p.target p.temp).isSome then some (.move .caughtUp p) else none)
  | .caughtUp =>
    match if ok then catchUp d p s else none with
    | some s => (s, some (.move .readOnly p))
    | none => (s, some (.move .giveUp p))
  | .giveUp =>
    (s, if ok && (s.hosts.box d p.target p.temp).isSome then some (.move .giveUpRemove p) else none)
  | .giveUpRemove =>
    (if ok then { s with hosts := s.hosts.remove d p.target p.temp } else s, none)
  | .readOnly =>
    orEnd ok s (s.onHosts (·.alter d p.old p.master (·.setReadOnly true))) (.move .caughtAgain p)
  | .caughtAgain => orEnd ok s (catchUp d p s) (.move .stopReplica p)
  | .stopReplica =>
    (if ok then (s.onHosts (·.alter d p.target p.temp (·.stopReplica))).getD s else s,
      some (.move .old p))
  | .old =>
    (s, some (.move (if ok && (s.hosts.box d p.old p.master).isSome then .oldRemove else .inPlace) p))
  | .oldRemove =>
    (if ok then { s with hosts := s.hosts.remove d p.old p.master } else s, some (.move .inPlace p))
  | .inPlace =>
    (s, some (.move (if ok && (s.hosts.box d p.target p.master).isSome then .spare else .rename) p))
  | .spare =>
    (s, some (.move
      (if ok && (s.hosts.box d p.target p.temp).isSome then .spareRemove else .writable) p))
  | .spareRemove =>
    (if ok then { s with hosts := s.hosts.remove d p.target p.temp } else s, some (.move .writable p))
  | .rename =>
    orEnd ok s (s.onHosts (·.rename d p.target p.temp p.master)) (.move .renamed p)
  | .renamed =>
    (s, if ok && (s.hosts.box d p.target p.master).isSome then some (.move .writable p) else none)
  | .writable =>
    orEnd ok s (s.onHosts (·.alter d p.target p.master (·.setReadOnly false))) (.move .commit p)
  | .commit =>
    ({ s with
      hosts := { s.hosts with
        manager := s.hosts.manager.commitReplaceNode mg.inst p.master mg.host p.hostPort p.serverId } },
      some .facts)

/-- `exec_migrate_instance_core`, call by call. -/
def call : MigrateCall → Bool → Moving → Moving × Option MigrateCall
  | .slave node host rest, ok, s =>
    let sid := ((s.hosts.manager.instances[mg.inst]?).map (·.maxServerId)).getD 0 + 1
    let m := s.hosts.manager.commitReplaceNode mg.inst node host (ports s.drawn) sid
    if ok then
      let s : Moving := { s with hosts := { s.hosts with manager := m }, drawn := s.drawn + 1 }
      (s, mg.goOn ports s rest)
    else ({ s with drawn := s.drawn + 1 }, none)
  | .move c p, ok, s => mg.move d p ok s c
  | .facts, _, s =>
    ({ s with
      hosts := { s.hosts with
        manager := (s.hosts.manager.alterInstance mg.inst (·.atSite mg.region mg.az)).persist } },
      none)

/-- A client commits a transaction, if the server lets it. -/
def clientCommit (e : ClientCommit) (s : Moving) : Option Moving :=
  (mg.master s.hosts.manager).bind fun name =>
    ((s.hosts.boxes e.host)[name]?).bind fun v =>
      if ¬ v.server.readOnly ∨ e.super then
        some { s with
          hosts := s.hosts.onHost e.host (·.insert name (v.commit e.txn))
          committed := e.txn :: s.committed }
      else none

/-- The migration, which is rerun as a whole. -/
def procedure : Procedure Moving MigrateCall ClientCommit where
  first s :=
    match mg.check s.hosts.manager with
    | .ok i => mg.goOn ports s (mg.slaves i)
    | .error _ => none
  call := mg.call d ports
  other := mg.clientCommit

/-! ## What is promised, and when -/

/-- The container of the master's name on a host. -/
def named (s : Moving) (k : Nat) : Option Mysqld :=
  (mg.master s.hosts.manager).bind fun name => (s.hosts.boxes k)[name]?

/-- The server has every transaction that clients have committed. -/
def Complete (s : Moving) (v : Mysqld) : Prop := ∀ txn ∈ s.committed, txn ∈ v.executed

/-- The master runs on its target, as the registry has it, is writable and complete; a container of
its name elsewhere is read-only. -/
structure InPlace (s : Moving) (i : RdsInstance) (n : InstNode) (target : NodeRoute) (k : Nat)
    (v : Mysqld) : Prop where
  inst : s.hosts.manager.instances[mg.inst]? = some i
  node : i.master = some n
  bound : nodeHostBinding i n.container = some mg.host
  route : targetRoute mg.host s.hosts.manager.hosts = .ok target
  daemon : target.daemon d = some k
  box : mg.named s k = some v
  writable : v.server.readOnly = false
  complete : Complete s v
  alone : ∀ k' v', k' ≠ k → mg.named s k' = some v' → v'.server.readOnly = true

def Migrated (s : Moving) : Prop := ∃ i n target k v, mg.InPlace d s i n target k v

/-- When a migration has ended, with an error or not, the master that the registry names is writable
as long as its container is there, and a rerun in which no call fails migrates the instance, whatever
clients do of what is admitted. There are never two writable servers of the master's name. -/
structure Safe (admits : Moving → ClientCommit → Prop) (g : Progress Moving MigrateCall) : Prop where
  writable : g.next = none → ∀ (i : RdsInstance) (n : InstNode) (k : Nat) (v : Mysqld),
    g.state.hosts.manager.instances[mg.inst]? = some i → i.master = some n →
    (resolveRouteOf i n.container g.state.hosts.manager.hosts).daemon d = some k →
    mg.named g.state k = some v → v.serverId = n.serverId → v.server.readOnly = false
  one : ∀ (k k' : Nat) (v v' : Mysqld), mg.named g.state k = some v → mg.named g.state k' = some v' →
    v.server.readOnly = false → v'.server.readOnly = false → k = k'
  resumes : g.next = none → (mg.procedure d ports).Settles admits (mg.Migrated d)
    ((mg.procedure d ports).begun g.state)

/-- Clients do not write to a server that is read-only. -/
def Polite (s : Moving) (e : ClientCommit) : Prop :=
  ∀ v ∈ mg.named s e.host, v.server.readOnly = false

/-- The stand-in that has been started is attached; the master that is read-only is caught up with and
makes way, and the new one is made writable. -/
def Calm (g : Progress Moving MigrateCall) : ProcedureEvent ClientCommit → Prop
  | .again => True
  | .cut => False
  | .other e => mg.Polite g.state e
  | .answer ok =>
    match g.next with
    | some (.move .ready _) | some (.move .attach _) | some (.move .caughtAgain _)
    | some (.move .renamed _) | some (.move .writable _) => ok = true
    | some (.move .rename p) => ok = true ∧ g.state.hosts.box d p.target p.master = none
    | _ => True

instance (s : Moving) (e : ClientCommit) : Decidable (mg.Polite s e) := by
  unfold Polite
  infer_instance

instance (g : Progress Moving MigrateCall) (e : ProcedureEvent ClientCommit) :
    Decidable (mg.Calm d g e) := by
  cases e with
  | again | cut | other => simp only [Calm]; infer_instance
  | answer ok =>
    simp only [Calm]
    split <;> infer_instance

/-- The migration passes its checks, the slaves have other names than the master, and its hosts are
reached. -/
structure Setting (m : Manager) (i : RdsInstance) (n : InstNode) (target : NodeRoute) (ko kt : Nat) :
    Prop where
  check : mg.check m = .ok i
  master : i.master = some n
  apart : ∀ u ∈ i.nodes, u.container = n.container → u.role = .master
  route : targetRoute mg.host m.hosts = .ok target
  oldAt : (resolveRouteOf i n.container m.hosts).daemon d = some ko
  targetAt : target.daemon d = some kt

/-- The master runs where the registry has it, and nowhere else, is writable and complete; the name of
the stand-in and the ports that are drawn are free on the target. -/
structure Ready (s : Moving) (i : RdsInstance) (n : InstNode) (target : NodeRoute) (ko kt : Nat)
    (v : Mysqld) : Prop where
  setting : mg.Setting d s.hosts.manager i n target ko kt
  box : (s.hosts.boxes ko)[n.container]? = some v
  serverId : v.serverId = n.serverId
  writable : v.server.readOnly = false
  complete : Complete s v
  alone : ∀ k, k ≠ ko → (s.hosts.boxes k)[n.container]? = none
  free : (s.hosts.boxes kt)[n.container ++ "-mgn"]? = none
  port : ∀ (name : String) (v : Mysqld) (j : Nat), (s.hosts.boxes kt)[name]? = some v →
    v.port ≠ ports j

def Initial (g : Progress Moving MigrateCall) : Prop :=
  g.next = none ∧ ∃ i n target ko kt v, mg.Ready d ports g.state i n target ko kt v

/-! ## The registry during a migration -/

/-- What a migration of the master starts from. -/
structure Site where
  rows : List HostRow
  master : String
  serverId : Nat
  bound : Option String
  target : NodeRoute
  old : NodeRoute
  ko : Nat
  kt : Nat

/-- The name of the stand-in. -/
def Site.temp (w : Site) : String := w.master ++ "-mgn"

/-- The site is that of a migration that passes its checks. -/
structure At (w : Site) : Prop where
  targets : mg.targets ≠ []
  checked : ∀ m : Manager, m.hosts = w.rows → mg.targets.forM (migrateHost m) = .ok ()
  route : targetRoute mg.host w.rows = .ok w.target
  old : ∀ i : RdsInstance, nodeHostBinding i w.master = w.bound →
    resolveRouteOf i w.master w.rows = w.old
  oldAt : w.old.daemon d = some w.ko
  targetAt : w.target.daemon d = some w.kt

/-- The registry has this master, bound like this and with this server id. -/
structure FitsAt (w : Site) (m : Manager) (bound : Option String) (sid : Nat) (i : RdsInstance)
    (n : InstNode) : Prop where
  rows : m.hosts = w.rows
  inst : m.instances[mg.inst]? = some i
  node : i.master = some n
  master : n.container = w.master
  serverId : n.serverId = sid
  apart : ∀ u ∈ i.nodes, u.container = w.master → u.role = .master
  bound : nodeHostBinding i w.master = bound

def Fits (w : Site) (m : Manager) (bound : Option String) (sid : Nat) : Prop :=
  ∃ i n, mg.FitsAt w m bound sid i n

section
variable {d} {ports} {mg} {w : Site} {m : Manager} {b : Option String} {sid : Nat}

theorem host_mem (h : mg.targets ≠ []) : mg.host ∈ mg.targets := by
  unfold host
  cases ht : mg.targets with
  | nil => exact absurd ht h
  | cons t ts => simp

/-- The target of the master is a name without blanks around it. -/
theorem trimmed_host (h : mg.targets ≠ []) : Inst.trimmed mg.host = mg.host ∧ mg.host ≠ "" :=
  mg.trimmed _ (host_mem h)

theorem Fits.master_eq (h : mg.Fits w m b sid) : mg.master m = some w.master := by
  obtain ⟨i, n, h⟩ := h
  simp [master, h.inst, h.node, h.master]

theorem Fits.check (h : mg.Fits w m b sid) (hw : mg.At d w) : ∃ i, mg.check m = .ok i ∧
    m.instances[mg.inst]? = some i := by
  obtain ⟨i, n, h⟩ := h
  refine ⟨i, ?_, h.inst⟩
  simp [Migration.check, h.inst, hw.targets, hw.checked m h.rows, h.node]

theorem Fits.apart (h : mg.Fits w m b sid) {i : RdsInstance} (hi : m.instances[mg.inst]? = some i) :
    ∀ u ∈ i.slaves, u.container ≠ w.master := by
  obtain ⟨i', n, h⟩ := h
  cases h.inst.symm.trans hi
  intro u hu heq
  obtain ⟨hmem, hrole⟩ := List.mem_filter.1 hu
  simp [h.apart u hmem heq] at hrole

/-- The containers of a role keep their names. -/
theorem apart_of_topology {i i' : RdsInstance} {c : String} (ht : i'.topology = i.topology)
    (h : ∀ u ∈ i.nodes, u.container = c → u.role = .master) :
    ∀ u ∈ i'.nodes, u.container = c → u.role = .master := by
  intro u hu hc
  have hmem : u.member ∈ i.nodes.map InstNode.member := by
    have hnodes : i'.nodes.map InstNode.member = i.nodes.map InstNode.member :=
      congrArg Topology.members ht
    exact hnodes ▸ List.mem_map_of_mem hu
  obtain ⟨u', hu', heq⟩ := List.mem_map.1 hmem
  have hrole := h u' hu' ((congrArg Member.container heq).trans hc)
  exact (congrArg Member.role heq).symm.trans hrole

/-- A slave is committed. -/
theorem Fits.slave (h : mg.Fits w m b sid) {node host : String} {hp sid' : Nat}
    (hne : node ≠ w.master) : mg.Fits w (m.commitReplaceNode mg.inst node host hp sid') b sid := by
  obtain ⟨i, n, h⟩ := h
  refine ⟨i.commitReplace node host hp sid', n, Manager.commitReplaceNode_hosts.trans h.rows,
    Manager.commitReplaceNode_get h.inst, ?_, h.master, h.serverId,
    apart_of_topology (i.topology_commitReplace _ _ _ _) h.apart, ?_⟩
  · refine find?_modifyFirst_other (fun _ => rfl) h.node ?_
    simpa [h.master] using hne.symm
  · rw [← h.bound]
    unfold nodeHostBinding
    simp only [RdsInstance.commitReplace]
    split
    · rw [BTreeMap.getElem?_erase_ite, if_neg hne]
    · rw [BTreeMap.getElem?_insert_ite, if_neg hne]

/-- The master is committed. -/
theorem Fits.move (h : mg.Fits w m b sid) (ht : mg.targets ≠ []) {hp sid' : Nat} :
    mg.Fits w (m.commitReplaceNode mg.inst w.master mg.host hp sid') (some mg.host) sid' := by
  obtain ⟨i, n, h⟩ := h
  obtain ⟨htrim, hne⟩ := trimmed_host ht
  refine ⟨i.commitReplace w.master mg.host hp sid',
    { n with hostPort := hp, serverId := sid', host := w.master },
    Manager.commitReplaceNode_hosts.trans h.rows, Manager.commitReplaceNode_get h.inst, ?_, h.master,
    rfl, apart_of_topology (i.topology_commitReplace _ _ _ _) h.apart, ?_⟩
  · refine find?_modifyFirst_found (fun _ => rfl) (fun u hu hc => ?_) h.node ?_
    · simpa using h.apart u hu (by simpa using hc)
    · simp [h.master]
  · simp [nodeHostBinding, RdsInstance.commitReplace, htrim, hne, Option.filter]

/-- Region and availability zone are written. -/
theorem Fits.facts (h : mg.Fits w m b sid) {region az : String} :
    mg.Fits w (m.alterInstance mg.inst (·.atSite region az)).persist b sid := by
  obtain ⟨i, n, h⟩ := h
  refine ⟨i.atSite region az, { n with region := region, az := az }, ?_, ?_, ?_, h.master, h.serverId,
    fun u hu hc => ?_, h.bound⟩
  · rw [Manager.persist_hosts, Manager.alterInstance_hosts, h.rows]
  · rw [Manager.persist_instances, Manager.alterInstance_get, if_pos rfl, h.inst, Option.map_some]
  · simp only [RdsInstance.master, RdsInstance.atSite, List.find?_map]
    exact congrArg (Option.map _) h.node
  · obtain ⟨u', hu', rfl⟩ := List.mem_map.1 hu
    exact h.apart u' hu' hc

/-- A plan for moving the master from this site. -/
structure Planned (ports : Nat → Nat) (w : Site) (p : MovePlan) : Prop where
  target : p.target = w.target
  old : p.old = w.old
  master : p.master = w.master
  port : ∃ j, p.hostPort = ports j
  serverId : p.serverId ≠ w.serverId

/-- The master is to be moved. -/
theorem Fits.movePlan (ports : Nat → Nat) (h : mg.Fits w m w.bound w.serverId) (hw : mg.At d w)
    (hb : w.bound ≠ some mg.host) (j : Nat) :
    ∃ p, mg.movePlan m (ports j) = .ok (some p) ∧ Planned ports w p := by
  obtain ⟨i, n, h⟩ := h
  refine ⟨⟨w.target, w.old, w.master, ports j, i.maxServerId + 1⟩, ?_, rfl, rfl, rfl, ⟨j, rfl⟩, ?_⟩
  · simp [Migration.movePlan, h.inst, h.node, h.master, h.bound, hb, h.rows, hw.route,
      hw.old i h.bound, Except.map]
  · have hle := le_maxServerId (List.mem_of_find?_eq_some h.node)
    rw [h.serverId] at hle
    show i.maxServerId + 1 ≠ w.serverId
    omega

/-- The master is where it is to go. -/
theorem Fits.moved (h : mg.Fits w m (some mg.host) sid) (j : Nat) :
    mg.movePlan m (ports j) = .ok none := by
  obtain ⟨i, n, h⟩ := h
  simp [Migration.movePlan, h.inst, h.node, h.master, h.bound]

end

/-! ## What holds before each call -/

/-- A stand-in that replicates from the master. -/
def Follower (w : Site) (u : Mysqld) : Prop := u.follows w.master = true ∧ u.serverId ≠ w.serverId

/-- The master has not been moved: its container, if it is there, and its stand-in. -/
structure Before (w : Site) (s : Moving) (old standIn : Option Mysqld) : Prop
    extends Hosts.Swap w.master w.temp w.ko w.kt (fun v => ∀ j, v.port ≠ ports j) s.hosts old
      standIn where
  fits : mg.Fits w s.hosts.manager w.bound w.serverId
  unbound : w.bound ≠ some mg.host

/-- The old master is in charge. -/
structure Charge (w : Site) (s : Moving) (v : Mysqld) (standIn : Option Mysqld) : Prop
    extends mg.Before ports w s (some v) standIn where
  serverId : v.serverId = w.serverId
  writable : v.server.readOnly = false
  complete : Complete s v

/-- The old master has been made read-only. -/
structure Frozen (w : Site) (s : Moving) (v u : Mysqld) : Prop
    extends mg.Before ports w s (some v) (some u) where
  serverId : v.serverId = w.serverId
  readOnly : v.server.readOnly = true
  complete : Complete s v
  follower : Follower w u

/-- The stand-in is complete, and the old master, if it is there, still read-only. -/
structure Caught (w : Site) (s : Moving) (o : Option Mysqld) (u : Mysqld) : Prop
    extends mg.Before ports w s o (some u) where
  complete : Complete s u
  readOnly : ∀ v ∈ o, v.server.readOnly = true ∧ Complete s v

/-- A complete server runs on the target under the master's name, and the others of that name are
read-only. -/
structure Moved (w : Site) (s : Moving) (b : Option String) (v : Mysqld) : Prop where
  fits : ∃ sid, mg.Fits w s.hosts.manager b sid
  box : (s.hosts.boxes w.kt)[w.master]? = some v
  complete : Complete s v
  alone : ∀ (k : Nat) (v' : Mysqld), k ≠ w.kt → (s.hosts.boxes k)[w.master]? = some v' →
    v'.server.readOnly = true

/-- The old master is in charge, beside such a stand-in. -/
def Open (w : Site) (standIn : Option Mysqld → Prop) (s : Moving) : Prop :=
  ∃ v u, mg.Charge ports w s v u ∧ standIn u

/-- The migration of the master is over. -/
def Done (w : Site) (s : Moving) : Prop :=
  ∃ v, mg.Moved w s (some mg.host) v ∧ v.server.readOnly = false

/-- What holds when the master is not being moved. -/
def Rest (w : Site) (s : Moving) : Prop :=
  mg.Open ports w (fun u => ∀ u' ∈ u, Follower w u') s ∨ mg.Done w s

/-- What holds before each call, in every run or, when `clean`, in one in which no call fails. -/
def stage (w : Site) (clean : Bool) : Option MigrateCall → Moving → Prop
  | none, s => mg.Rest ports w s
  | some (.slave node _ rest), s =>
    mg.Rest ports w s ∧ node ≠ w.master ∧ ∀ q ∈ rest, q.1 ≠ w.master
  | some .facts, s => mg.Done w s
  | some (.move c p), s => Planned ports w p ∧
    match c with
    | .standIn => mg.Open ports w (fun u => ∀ u' ∈ u, Follower w u') s
    | .run => mg.Open ports w (fun u => (∀ u' ∈ u, Follower w u') ∧ (clean = true → u = none)) s
    | .ready | .attach => mg.Open ports w (· = some p.fresh) s
    | .readyAgain | .caughtUp | .readOnly =>
      mg.Open ports w (fun u => ∃ u', u = some u' ∧ Follower w u') s
    | .giveUp | .giveUpRemove =>
      clean = false ∧ mg.Open ports w (fun u => ∃ u', u = some u' ∧ Follower w u') s
    | .caughtAgain => ∃ v u, mg.Frozen ports w s v u
    | .stopReplica | .old | .oldRemove => ∃ old u, mg.Caught ports w s old u
    | .inPlace | .rename => ∃ old u, mg.Caught ports w s old u ∧ (clean = true → old = none)
    | .spare | .spareRemove => clean = false ∧ w.kt = w.ko ∧ ∃ v u, mg.Before ports w s (some v) u ∧
      v.server.readOnly = true ∧ Complete s v
    | .renamed | .writable => ∃ v, mg.Moved w s w.bound v
    | .commit => ∃ v, mg.Moved w s w.bound v ∧ v.server.readOnly = false

/-- The calls that are left at most. -/
def left : MigrateCall → Nat
  | .slave _ _ rest => 18 + rest.length
  | .move .standIn _ => 17
  | .move .run _ => 16
  | .move .ready _ => 15
  | .move .attach _ | .move .readyAgain _ => 14
  | .move .caughtUp _ => 13
  | .move .readOnly _ => 12
  | .move .caughtAgain _ => 11
  | .move .stopReplica _ => 10
  | .move .old _ => 9
  | .move .oldRemove _ => 8
  | .move .inPlace _ => 7
  | .move .rename _ => 6
  | .move .renamed _ => 5
  | .move .writable _ => 4
  | .move .commit _ => 3
  | .move .giveUp _ | .move .spare _ => 2
  | .move .giveUpRemove _ | .move .spareRemove _ => 1
  | .facts => 0

/-- How a call may be answered. -/
def Admitted (clean : Bool) (s : Moving) (i : MigrateCall) (ok : Bool) : Prop :=
  if clean then ok = true else mg.Calm d ⟨s, some i⟩ (.answer ok)

/-- What a call leads to. -/
def Goes (w : Site) (clean : Bool) (i : MigrateCall) (q : Moving × Option MigrateCall) : Prop :=
  mg.stage ports w clean q.2 q.1 ∧
    (clean = true → match q.2 with | none => mg.Migrated d q.1 | some j => left j < left i)

section
variable {d} {ports} {mg} {w : Site} {clean : Bool} {s s' : Moving} {i : MigrateCall} {p : MovePlan}

theorem Goes.next {j : MigrateCall} (h : mg.stage ports w clean (some j) s) (hl : left j < left i) :
    mg.Goes d ports w clean i (s, some j) := ⟨h, fun _ => hl⟩

theorem Goes.stop (hc : clean = false) (h : mg.Rest ports w s) :
    mg.Goes d ports w clean i (s, none) := ⟨h, fun hc' => nomatch hc.symm.trans hc'⟩

/-- A call that cannot fail here, or that may. -/
theorem Goes.orEnd {ok : Bool} {t : Option Moving} {j : MigrateCall} (hl : left j < left i)
    (hok : ok = true → ∃ s', t = some s' ∧ mg.stage ports w clean (some j) s')
    (hend : ok = false → clean = false ∧ mg.Rest ports w s) :
    mg.Goes d ports w clean i (orEnd ok s t j) := by
  unfold Migration.orEnd
  cases ok with
  | true =>
    obtain ⟨s', rfl, h⟩ := hok rfl
    exact .next h hl
  | false =>
    obtain ⟨hc, h⟩ := hend rfl
    exact .stop hc h

/-! ### Clients -/

/-- What a polite commit does. -/
structure Commits (w : Site) (e : ClientCommit) (v : Mysqld) (s s' : Moving) : Prop where
  box : (s.hosts.boxes e.host)[w.master]? = some v
  writable : v.server.readOnly = false
  hosts : s'.hosts = s.hosts.onHost e.host (·.insert w.master (v.commit e.txn))
  committed : s'.committed = e.txn :: s.committed

theorem commits_of_clientCommit {b : Option String} {sid : Nat} {e : ClientCommit}
    (hfit : mg.Fits w s.hosts.manager b sid) (h : mg.clientCommit e s = some s')
    (hp : mg.Polite s e) : ∃ v, Commits w e v s s' := by
  simp only [clientCommit, hfit.master_eq, Option.bind_some] at h
  obtain ⟨v, hv, h⟩ := Option.bind_eq_some_iff.1 h
  split at h
  · cases h
    refine ⟨v, hv, hp v ?_, rfl, rfl⟩
    simp [named, hfit.master_eq, hv]
  · cases h

theorem Commits.complete {e : ClientCommit} {v : Mysqld} (h : Commits w e v s s')
    (hc : Complete s v) : Complete s' (v.commit e.txn) := by
  intro txn htxn
  rw [h.committed] at htxn
  rcases List.mem_cons.1 htxn with rfl | htxn
  · exact List.mem_cons_self
  · exact List.mem_cons_of_mem _ (hc txn htxn)

/-- Clients commit on the container of the master only. -/
theorem Before.commits {o u : Option Mysqld} {e : ClientCommit} {v : Mysqld}
    (h : mg.Before ports w s o u) (hc : Commits w e v s s') :
    o = some v ∧ mg.Before ports w s' (some (v.commit e.txn)) u := by
  have hk : e.host = w.ko := by
    by_contra hk
    cases hc.box.symm.trans (h.alone _ hk)
  have hbox := hc.box
  rw [hk] at hbox
  obtain rfl : o = some v := h.old.symm.trans hbox
  have hm : s'.hosts.manager = s.hosts.manager := by
    rw [hc.hosts]
    rfl
  refine ⟨rfl, ?_, hm ▸ h.fits, h.unbound⟩
  rw [hc.hosts, hk]
  exact h.toSwap.change fun hfree => hfree

theorem Open.commits {P : Option Mysqld → Prop} {e : ClientCommit} {v : Mysqld}
    (h : mg.Open ports w P s) (hc : Commits w e v s s') : mg.Open ports w P s' := by
  obtain ⟨v', u, h, hP⟩ := h
  obtain ⟨heq, hb⟩ := h.toBefore.commits hc
  cases heq
  exact ⟨_, u, ⟨hb, h.serverId, h.writable, hc.complete h.complete⟩, hP⟩

/-- Nobody commits while what is left of the old master is read-only. -/
theorem Before.not_commits {o u : Option Mysqld} {e : ClientCommit} {v : Mysqld}
    (h : mg.Before ports w s o u) (ho : ∀ v ∈ o, v.server.readOnly = true)
    (hc : Commits w e v s s') : False := by
  obtain ⟨rfl, -⟩ := h.commits hc
  cases hc.writable.symm.trans (ho v rfl)

theorem Moved.commits {b : Option String} {e : ClientCommit} {v v' : Mysqld}
    (h : mg.Moved w s b v') (hc : Commits w e v s s') :
    ∃ v₁, mg.Moved w s' b v₁ ∧ v₁.server.readOnly = v'.server.readOnly := by
  have hk : e.host = w.kt := by
    by_contra hk
    cases hc.writable.symm.trans (h.alone _ _ hk hc.box)
  have hbox := hc.box
  rw [hk] at hbox
  cases h.box.symm.trans hbox
  have hm : s'.hosts.manager = s.hosts.manager := by
    rw [hc.hosts]
    rfl
  refine ⟨v.commit e.txn, ⟨hm ▸ h.fits, ?_, hc.complete h.complete, fun k v₁ hne hget => ?_⟩, rfl⟩
  · rw [hc.hosts, Hosts.boxes_insert, if_pos ⟨hk.symm, rfl⟩]
  · rw [hc.hosts, Hosts.boxes_insert, if_neg fun hx => hne (hx.1.trans hk)] at hget
    exact h.alone k v₁ hne hget

theorem Done.commits {e : ClientCommit} {v : Mysqld} (h : mg.Done w s) (hc : Commits w e v s s') :
    mg.Done w s' := by
  obtain ⟨v', h, hro⟩ := h
  obtain ⟨v₁, h, hro'⟩ := h.commits hc
  exact ⟨v₁, h, hro'.trans hro⟩

theorem Rest.commits {e : ClientCommit} {v : Mysqld} (h : mg.Rest ports w s)
    (hc : Commits w e v s s') : mg.Rest ports w s' :=
  h.imp (·.commits hc) (·.commits hc)

/-- The master has been moved or not. -/
theorem stage_moved {n : Option MigrateCall} (h : mg.stage ports w clean n s) :
    (∃ o u, mg.Before ports w s o u) ∨ ∃ b v, mg.Moved w s b v := by
  have hopen : ∀ P, mg.Open ports w P s → ∃ o u, mg.Before ports w s o u :=
    fun P ⟨v, u, h, _⟩ => ⟨some v, u, h.toBefore⟩
  have hdone : mg.Done w s → ∃ b v, mg.Moved w s b v := fun ⟨v, h, _⟩ => ⟨_, v, h⟩
  have hrest : mg.Rest ports w s → (∃ o u, mg.Before ports w s o u) ∨ ∃ b v, mg.Moved w s b v :=
    fun h => h.imp (hopen _) hdone
  rcases n with _ | ⟨node, host, rest⟩ | ⟨c, p⟩ | _
  · exact hrest h
  · exact hrest h.1
  · obtain ⟨-, h⟩ := h
    cases c with
    | standIn | run | ready | attach | readyAgain | caughtUp | readOnly => exact .inl (hopen _ h)
    | giveUp | giveUpRemove => exact .inl (hopen _ h.2)
    | caughtAgain =>
      obtain ⟨v, u, h⟩ := h
      exact .inl ⟨_, _, h.toBefore⟩
    | stopReplica | old | oldRemove =>
      obtain ⟨o, u, h⟩ := h
      exact .inl ⟨_, _, h.toBefore⟩
    | inPlace | rename =>
      obtain ⟨o, u, h, -⟩ := h
      exact .inl ⟨_, _, h.toBefore⟩
    | spare | spareRemove =>
      obtain ⟨-, -, v, u, h, -⟩ := h
      exact .inl ⟨_, _, h⟩
    | renamed | writable =>
      obtain ⟨v, h⟩ := h
      exact .inr ⟨_, v, h⟩
    | commit =>
      obtain ⟨v, h, -⟩ := h
      exact .inr ⟨_, v, h⟩
  · exact .inr (hdone h)

theorem stage_fits {n : Option MigrateCall} (h : mg.stage ports w clean n s) :
    ∃ b sid, mg.Fits w s.hosts.manager b sid := by
  rcases stage_moved h with ⟨o, u, h⟩ | ⟨b, v, h⟩
  · exact ⟨_, _, h.fits⟩
  · exact ⟨b, h.fits⟩

/-- What a stage says outlives the commits of polite clients. -/
theorem stage_commits {n : Option MigrateCall} {e : ClientCommit} {v : Mysqld}
    (h : mg.stage ports w clean n s) (hc : Commits w e v s s') : mg.stage ports w clean n s' := by
  rcases n with _ | ⟨node, host, rest⟩ | ⟨c, p⟩ | _
  · exact Rest.commits h hc
  · exact ⟨h.1.commits hc, h.2⟩
  · obtain ⟨hp, h⟩ := h
    refine ⟨hp, ?_⟩
    cases c with
    | standIn | run | ready | attach | readyAgain | caughtUp | readOnly => exact Open.commits h hc
    | giveUp | giveUpRemove => exact ⟨h.1, h.2.commits hc⟩
    | caughtAgain =>
      obtain ⟨v, u, h⟩ := h
      exact (h.toBefore.not_commits (fun _ hv => Option.some.inj hv ▸ h.readOnly) hc).elim
    | stopReplica | old | oldRemove =>
      obtain ⟨o, u, h⟩ := h
      exact (h.toBefore.not_commits (fun v hv => (h.readOnly v hv).1) hc).elim
    | inPlace | rename =>
      obtain ⟨o, u, h, -⟩ := h
      exact (h.toBefore.not_commits (fun v hv => (h.readOnly v hv).1) hc).elim
    | spare | spareRemove =>
      obtain ⟨-, -, v, u, h, hro, -⟩ := h
      exact (h.not_commits (fun _ hv => Option.some.inj hv ▸ hro) hc).elim
    | renamed | writable =>
      obtain ⟨v', h⟩ := h
      obtain ⟨v₁, h, -⟩ := h.commits hc
      exact ⟨v₁, h⟩
    | commit =>
      obtain ⟨v', h, hro⟩ := h
      obtain ⟨v₁, h, hro'⟩ := h.commits hc
      exact ⟨v₁, h, hro'.trans hro⟩
  · exact Done.commits h hc

theorem stage_other {n : Option MigrateCall} {e : ClientCommit} (h : mg.stage ports w clean n s)
    (hs : mg.clientCommit e s = some s') (hp : mg.Polite s e) : mg.stage ports w clean n s' := by
  obtain ⟨b, sid, hfit⟩ := stage_fits h
  obtain ⟨v, hc⟩ := commits_of_clientCommit hfit hs hp
  exact stage_commits h hc

/-! ### The calls -/

theorem rest_fits (h : mg.Rest ports w s) : ∃ b sid, mg.Fits w s.hosts.manager b sid :=
  stage_fits (show mg.stage ports w false none s from h)

/-- The migration goes on with a slave, with the master or with the facts. -/
theorem goOn_stage (clean : Bool) (hw : mg.At d w) (h : mg.Rest ports w s) {l : List (String × String)}
    (hl : ∀ q ∈ l, q.1 ≠ w.master) :
    ∃ i, mg.goOn ports s l = some i ∧ mg.stage ports w clean (some i) s ∧ left i < 18 + l.length := by
  induction l with
  | nil =>
    simp only [goOn]
    rcases h with h | h
    · obtain ⟨v, u, hc, hu⟩ := h
      obtain ⟨p, hp, hplan⟩ := hc.fits.movePlan ports hw hc.unbound s.drawn
      rw [hp]
      exact ⟨_, rfl, ⟨hplan, v, u, hc, hu⟩, by simp [left]⟩
    · obtain ⟨v, hm, hro⟩ := h
      obtain ⟨sid, hfit⟩ := hm.fits
      rw [hfit.moved]
      exact ⟨_, rfl, ⟨v, hm, hro⟩, by simp [left]⟩
  | cons q l ih =>
    obtain ⟨b, sid, i, n, hfit⟩ := rest_fits h
    obtain ⟨hq, hl⟩ := List.forall_mem_cons.1 hl
    simp only [goOn, hfit.inst]
    split
    · obtain ⟨j, hj, hst, hlt⟩ := ih hl
      exact ⟨j, hj, hst, hlt.trans_le (by simp)⟩
    · exact ⟨_, rfl, ⟨h, hq, hl⟩, by simp [left]⟩

/-- A migration begins. -/
theorem first_stage (clean : Bool) (hw : mg.At d w) (h : mg.Rest ports w s) :
    ∃ i, (mg.procedure d ports).first s = some i ∧ mg.stage ports w clean (some i) s := by
  obtain ⟨b, sid, hfit⟩ := rest_fits h
  obtain ⟨i, hcheck, hi⟩ := hfit.check hw
  have hslaves : ∀ q ∈ mg.slaves i, q.1 ≠ w.master := by
    intro q hq
    obtain ⟨⟨u, k⟩, hu, rfl⟩ := List.mem_map.1 hq
    exact hfit.apart hi u (List.fst_mem_of_mem_zipIdx hu)
  obtain ⟨j, hj, hst, -⟩ := goOn_stage clean hw h hslaves
  refine ⟨j, ?_, hst⟩
  simp only [procedure, hcheck]
  exact hj

/-- A slave is committed, and the master is not touched. -/
theorem Rest.slave (h : mg.Rest ports w s) {node host : String} {hp sid drawn : Nat}
    (hne : node ≠ w.master) : mg.Rest ports w { s with
      hosts := { s.hosts with
        manager := s.hosts.manager.commitReplaceNode mg.inst node host hp sid }
      drawn := drawn } := by
  rcases h with h | h
  · obtain ⟨v, u, h, hu⟩ := h
    exact .inl ⟨v, u, { h with fits := h.fits.slave hne }, hu⟩
  · obtain ⟨v, h, hro⟩ := h
    obtain ⟨sid', hfit⟩ := h.fits
    exact .inr ⟨v, { h with fits := ⟨sid', hfit.slave hne⟩ }, hro⟩

theorem Rest.drawn (h : mg.Rest ports w s) {n : Nat} : mg.Rest ports w { s with drawn := n } := by
  rcases h with ⟨v, u, h, hu⟩ | ⟨v, h, hro⟩
  · exact .inl ⟨v, u, { h with }, hu⟩
  · exact .inr ⟨v, { h with }, hro⟩

theorem Done.migrated (h : mg.Done w s) (hw : mg.At d w) : mg.Migrated d s := by
  obtain ⟨v, h, hro⟩ := h
  obtain ⟨sid, i, n, hfit⟩ := h.fits
  have hnamed : ∀ k, mg.named s k = (s.hosts.boxes k)[w.master]? := fun k => by
    simp [named, Fits.master_eq ⟨i, n, hfit⟩]
  refine ⟨i, n, w.target, w.kt, v, hfit.inst, hfit.node, ?_, ?_, hw.targetAt, ?_, hro, h.complete,
    fun k v' hk hv => ?_⟩
  · rw [hfit.master]
    exact hfit.bound
  · rw [hfit.rows]
    exact hw.route
  · rw [hnamed]
    exact h.box
  · rw [hnamed] at hv
    exact h.alone k v' hk hv

theorem Done.facts (h : mg.Done w s) : mg.Done w { s with
    hosts := { s.hosts with
      manager := (s.hosts.manager.alterInstance mg.inst (·.atSite mg.region mg.az)).persist } } := by
  obtain ⟨v, h, hro⟩ := h
  obtain ⟨sid, hfit⟩ := h.fits
  exact ⟨v, { h with fits := ⟨sid, hfit.facts⟩ }, hro⟩

theorem Planned.temp_eq (hp : Planned ports w p) : p.temp = w.temp := by
  rw [MovePlan.temp, hp.master, Site.temp]

theorem At.box_target (hw : mg.At d w) (name : String) :
    s.hosts.box d w.target name = (s.hosts.boxes w.kt)[name]? :=
  Hosts.box_of_daemon d hw.targetAt name

theorem At.box_old (hw : mg.At d w) (name : String) :
    s.hosts.box d w.old name = (s.hosts.boxes w.ko)[name]? :=
  Hosts.box_of_daemon d hw.oldAt name

theorem Admitted.not_clean {ok : Bool} (h : mg.Admitted d clean s i ok) (hok : ok = false) :
    clean = false := by
  cases clean with
  | true => exact absurd (hok.symm.trans h) Bool.false_ne_true
  | false => rfl

/-- A call that has to succeed. -/
theorem Admitted.ok {ok : Bool} (h : mg.Admitted d clean s i ok)
    (hcalm : mg.Calm d ⟨s, some i⟩ (.answer ok) → ok = true) : ok = true := by
  cases clean with
  | true => exact h
  | false => exact hcalm h

/-- The stand-in changes. -/
theorem Before.insertTemp {o u : Option Mysqld} (h : mg.Before ports w s o u) (u' : Mysqld) :
    mg.Before ports w { s with hosts := s.hosts.onHost w.kt (·.insert w.temp u') } o (some u') :=
  { h with toSwap := h.toSwap.insert }

theorem Charge.insertTemp {v : Mysqld} {u : Option Mysqld} (h : mg.Charge ports w s v u) (u' : Mysqld) :
    mg.Charge ports w { s with hosts := s.hosts.onHost w.kt (·.insert w.temp u') } v (some u') :=
  { h with toBefore := h.toBefore.insertTemp u' }

theorem Before.removeTemp {o u : Option Mysqld} (h : mg.Before ports w s o u) (hw : mg.At d w) :
    mg.Before ports w { s with hosts := s.hosts.remove d w.target w.temp } o none := by
  refine ⟨h.toSwap.removeTemp hw.targetAt, ?_, h.unbound⟩
  simp only [Hosts.remove, hw.targetAt]
  exact h.fits

theorem Before.removeOld {o u : Option Mysqld} (h : mg.Before ports w s o u) (hw : mg.At d w) :
    mg.Before ports w { s with hosts := s.hosts.remove d w.old w.master } none u := by
  refine ⟨h.toSwap.removeOld hw.oldAt, ?_, h.unbound⟩
  simp only [Hosts.remove, hw.oldAt]
  exact h.fits

theorem follower_of_some {u : Option Mysqld} (h : ∃ u', u = some u' ∧ Follower w u') :
    ∀ u' ∈ u, Follower w u' := by
  obtain ⟨u', rfl, hf⟩ := h
  exact fun _ hu => Option.some.inj hu ▸ hf

theorem goes_standIn {ok : Bool} (hw : mg.At d w)
    (h : mg.stage ports w clean (some (.move .standIn p)) s)
    (ha : mg.Admitted d clean s (.move .standIn p) ok) :
    mg.Goes d ports w clean (.move .standIn p) (mg.move d p ok s .standIn) := by
  obtain ⟨hp, v, u, hc, hu⟩ := h
  have hc' : mg.Charge ports w { s with drawn := s.drawn + 1 } v u := { hc with }
  simp only [Migration.move, hp.target, hp.temp_eq, hw.box_target, hc.standIn]
  split
  · next hok =>
    obtain ⟨u', rfl⟩ := Option.isSome_iff_exists.1 (Bool.and_eq_true_iff.1 hok).2
    exact .next ⟨hp, v, _, hc', u', rfl, hu u' rfl⟩ (by simp [left])
  · next hok =>
    refine .next ⟨hp, v, u, hc', hu, fun hclean => ?_⟩ (by simp [left])
    subst hclean
    obtain rfl : ok = true := ha
    simpa using hok

theorem goes_run {ok : Bool} (hw : mg.At d w) (h : mg.stage ports w clean (some (.move .run p)) s)
    (ha : mg.Admitted d clean s (.move .run p) ok) :
    mg.Goes d ports w clean (.move .run p) (mg.move d p ok s .run) := by
  obtain ⟨hp, v, u, hc, hu, hclean⟩ := h
  have hrest : mg.Rest ports w s := .inl ⟨v, u, hc, hu⟩
  simp only [Migration.move, hp.target, hp.temp_eq]
  rcases u with _ | u
  · refine .orEnd (by simp [left]) (fun _ => ?_) fun hok => ⟨ha.not_clean hok, hrest⟩
    obtain ⟨j, hj⟩ := hp.port
    have hrun := hc.toSwap.run Mysqld.port (b := p.fresh) hw.targetAt fun v hv =>
      (show p.fresh.port = ports j from hj) ▸ hv j
    exact ⟨_, by rw [Moving.onHosts, hrun, Option.map_some], hp, v, _, Charge.insertTemp hc p.fresh, rfl⟩
  · -- the name is taken
    have hnone : s.onHosts (·.run d Mysqld.port w.target w.temp p.fresh) = none := by
      simp only [Moving.onHosts, Hosts.run, hw.targetAt, Option.bind_some, hc.standIn]
      simp
    have hc0 : clean = false := by
      cases clean with
      | true => cases hclean rfl
      | false => rfl
    simp only [hnone, orEnd, ite_self]
    exact .stop hc0 hrest

theorem goes_ready {ok : Bool} (hw : mg.At d w)
    (h : mg.stage ports w clean (some (.move .ready p)) s)
    (ha : mg.Admitted d clean s (.move .ready p) ok) :
    mg.Goes d ports w clean (.move .ready p) (mg.move d p ok s .ready) := by
  obtain rfl := ha.ok id
  obtain ⟨hp, v, u, hc, rfl⟩ := h
  simp only [Migration.move, hp.target, hp.temp_eq, hw.box_target, hc.standIn]
  exact .next ⟨hp, v, _, hc, rfl⟩ (by simp [left])

theorem goes_attach {ok : Bool} (hw : mg.At d w)
    (h : mg.stage ports w clean (some (.move .attach p)) s)
    (ha : mg.Admitted d clean s (.move .attach p) ok) :
    mg.Goes d ports w clean (.move .attach p) (mg.move d p ok s .attach) := by
  obtain rfl := ha.ok id
  obtain ⟨hp, v, u, hc, rfl⟩ := h
  simp only [Migration.move, hp.target, hp.temp_eq, hp.master]
  refine .orEnd (by simp [left]) (fun _ => ?_) fun hok => nomatch hok
  have hatt := hc.toSwap.alterTemp hw.targetAt (·.attach w.master)
  refine ⟨_, by rw [Moving.onHosts, hatt, Option.map_some], hp, v, _, Charge.insertTemp hc _,
    p.fresh.attach w.master, rfl, ?_, hp.serverId⟩
  simp [Mysqld.follows, Mysqld.attach, Server.changeMaster]

theorem goes_readyAgain {ok : Bool} (hw : mg.At d w)
    (h : mg.stage ports w clean (some (.move .readyAgain p)) s)
    (ha : mg.Admitted d clean s (.move .readyAgain p) ok) :
    mg.Goes d ports w clean (.move .readyAgain p) (mg.move d p ok s .readyAgain) := by
  obtain ⟨hp, v, u, hc, u', rfl, hf⟩ := h
  simp only [Migration.move, hp.target, hp.temp_eq, hw.box_target, hc.standIn]
  cases ok with
  | true => exact .next ⟨hp, v, _, hc, u', rfl, hf⟩ (by simp [left])
  | false =>
    exact .stop (ha.not_clean rfl) (.inl ⟨v, _, hc, follower_of_some ⟨u', rfl, hf⟩⟩)

/-- The stand-in catches up with a container of the master's name. -/
theorem catchUp_eq {v u : Mysqld} (hw : mg.At d w) (hp : Planned ports w p)
    (hb : mg.Before ports w s (some v) (some u)) (hf : Follower w u) (hsid : v.serverId = w.serverId) :
    catchUp d p s = some { s with
      hosts := s.hosts.onHost w.kt (·.insert w.temp (u.catchUp v.executed)) } := by
  have hne : u.serverId ≠ v.serverId := fun heq => hf.2 (heq.trans hsid)
  have halter := hb.toSwap.alterTemp hw.targetAt (·.catchUp v.executed)
  simp only [catchUp, hp.target, hp.old, hp.master, hp.temp_eq, hw.box_target, hw.box_old, hb.old,
    hb.standIn, Option.bind_some, hf.1, hne, ne_eq, not_false_eq_true, and_self, if_true,
    Moving.onHosts, halter, Option.map_some]

theorem goes_caughtUp {ok : Bool} (hw : mg.At d w)
    (h : mg.stage ports w clean (some (.move .caughtUp p)) s)
    (ha : mg.Admitted d clean s (.move .caughtUp p) ok) :
    mg.Goes d ports w clean (.move .caughtUp p) (mg.move d p ok s .caughtUp) := by
  obtain ⟨hp, v, u, hc, u', rfl, hf⟩ := h
  simp only [Migration.move]
  cases ok with
  | true =>
    simp only [if_true, catchUp_eq hw hp hc.toBefore hf hc.serverId]
    exact .next ⟨hp, v, _, Charge.insertTemp hc _, u'.catchUp v.executed, rfl, hf⟩ (by simp [left])
  | false =>
    exact .next ⟨hp, ha.not_clean rfl, v, _, hc, u', rfl, hf⟩ (by simp [left])

theorem goes_giveUp {ok : Bool} (hw : mg.At d w)
    (h : mg.stage ports w clean (some (.move .giveUp p)) s) :
    mg.Goes d ports w clean (.move .giveUp p) (mg.move d p ok s .giveUp) := by
  obtain ⟨hp, hclean, v, u, hc, u', rfl, hf⟩ := h
  simp only [Migration.move, hp.target, hp.temp_eq, hw.box_target, hc.standIn]
  cases ok with
  | true => exact .next ⟨hp, hclean, v, _, hc, u', rfl, hf⟩ (by simp [left])
  | false => exact .stop hclean (.inl ⟨v, _, hc, follower_of_some ⟨u', rfl, hf⟩⟩)

theorem goes_giveUpRemove {ok : Bool} (hw : mg.At d w)
    (h : mg.stage ports w clean (some (.move .giveUpRemove p)) s) :
    mg.Goes d ports w clean (.move .giveUpRemove p) (mg.move d p ok s .giveUpRemove) := by
  obtain ⟨hp, hclean, v, u, hc, u', rfl, hf⟩ := h
  simp only [Migration.move, hp.target, hp.temp_eq]
  refine .stop hclean ?_
  cases ok with
  | true =>
    refine .inl ⟨v, none, ?_, fun _ hu => nomatch hu⟩
    exact { hc with toBefore := hc.toBefore.removeTemp hw }
  | false => exact .inl ⟨v, _, hc, follower_of_some ⟨u', rfl, hf⟩⟩

theorem goes_readOnly {ok : Bool} (hw : mg.At d w)
    (h : mg.stage ports w clean (some (.move .readOnly p)) s)
    (ha : mg.Admitted d clean s (.move .readOnly p) ok) :
    mg.Goes d ports w clean (.move .readOnly p) (mg.move d p ok s .readOnly) := by
  obtain ⟨hp, v, u, hc, u', rfl, hf⟩ := h
  simp only [Migration.move, hp.old, hp.master]
  refine .orEnd (by simp [left]) (fun _ => ?_) fun hok =>
    ⟨ha.not_clean hok, .inl ⟨v, _, hc, follower_of_some ⟨u', rfl, hf⟩⟩⟩
  have halter := hc.toSwap.alterOld hw.oldAt (·.setReadOnly true)
  refine ⟨_, by rw [Moving.onHosts, halter, Option.map_some], hp, v.setReadOnly true, u', ?_⟩
  exact { toBefore := { hc.toBefore with toSwap := hc.toSwap.change fun hfree => hfree }
          serverId := hc.serverId, readOnly := rfl, complete := hc.complete, follower := hf }

theorem goes_caughtAgain {ok : Bool} (hw : mg.At d w)
    (h : mg.stage ports w clean (some (.move .caughtAgain p)) s)
    (ha : mg.Admitted d clean s (.move .caughtAgain p) ok) :
    mg.Goes d ports w clean (.move .caughtAgain p) (mg.move d p ok s .caughtAgain) := by
  obtain rfl := ha.ok id
  obtain ⟨hp, v, u, hc⟩ := h
  simp only [Migration.move, catchUp_eq hw hp hc.toBefore hc.follower hc.serverId]
  refine .orEnd (by simp [left]) (fun _ => ⟨_, rfl, hp, some v, u.catchUp v.executed, ?_⟩)
    fun hok => nomatch hok
  exact { toBefore := hc.toBefore.insertTemp _
          complete := fun txn htxn => List.mem_append_left _ (hc.complete txn htxn)
          readOnly := fun _ hv => Option.some.inj hv ▸ ⟨hc.readOnly, hc.complete⟩ }

theorem goes_stopReplica {ok : Bool} (hw : mg.At d w)
    (h : mg.stage ports w clean (some (.move .stopReplica p)) s) :
    mg.Goes d ports w clean (.move .stopReplica p) (mg.move d p ok s .stopReplica) := by
  obtain ⟨hp, o, u, hc⟩ := h
  simp only [Migration.move, hp.target, hp.temp_eq]
  cases ok with
  | true =>
    have halter := hc.toSwap.alterTemp hw.targetAt (·.stopReplica)
    simp only [if_true, Moving.onHosts, halter, Option.map_some, Option.getD_some]
    refine .next ⟨hp, o, u.stopReplica, ?_⟩ (by simp [left])
    exact { hc with toBefore := hc.toBefore.insertTemp _, complete := hc.complete }
  | false => exact .next ⟨hp, o, u, hc⟩ (by simp [left])

theorem goes_old {ok : Bool} (hw : mg.At d w) (h : mg.stage ports w clean (some (.move .old p)) s)
    (ha : mg.Admitted d clean s (.move .old p) ok) :
    mg.Goes d ports w clean (.move .old p) (mg.move d p ok s .old) := by
  obtain ⟨hp, o, u, hc⟩ := h
  simp only [Migration.move, hp.old, hp.master, hw.box_old, hc.old]
  split
  · exact .next ⟨hp, o, u, hc⟩ (by simp [left])
  · next hnone =>
    refine .next ⟨hp, o, u, hc, fun hclean => ?_⟩ (by simp [left])
    subst hclean
    obtain rfl : ok = true := ha
    simpa using hnone

theorem goes_oldRemove {ok : Bool} (hw : mg.At d w)
    (h : mg.stage ports w clean (some (.move .oldRemove p)) s)
    (ha : mg.Admitted d clean s (.move .oldRemove p) ok) :
    mg.Goes d ports w clean (.move .oldRemove p) (mg.move d p ok s .oldRemove) := by
  obtain ⟨hp, o, u, hc⟩ := h
  simp only [Migration.move, hp.old, hp.master]
  cases ok with
  | true =>
    refine .next ⟨hp, none, u, ?_, fun _ => rfl⟩ (by simp [left])
    exact { toBefore := hc.toBefore.removeOld hw
            complete := hc.complete, readOnly := fun _ hv => nomatch hv }
  | false =>
    refine .next ⟨hp, o, u, hc, fun hclean => ?_⟩ (by simp [left])
    cases (ha.not_clean rfl).symm.trans hclean

/-- Before the move, the target has a container of the master's name only if it is the old one. -/
theorem Before.shared {o u : Option Mysqld} {v : Mysqld} (h : mg.Before ports w s o u)
    (hv : (s.hosts.boxes w.kt)[w.master]? = some v) : w.kt = w.ko ∧ o = some v := by
  have hk : w.kt = w.ko := by
    by_contra hk
    cases hv.symm.trans (h.alone _ hk)
  rw [hk] at hv
  exact ⟨hk, h.old.symm.trans hv⟩

theorem goes_inPlace {ok : Bool} (hw : mg.At d w)
    (h : mg.stage ports w clean (some (.move .inPlace p)) s) :
    mg.Goes d ports w clean (.move .inPlace p) (mg.move d p ok s .inPlace) := by
  obtain ⟨hp, o, u, hc, hclean⟩ := h
  simp only [Migration.move, hp.target, hp.master, hw.box_target]
  split
  · next hok =>
    obtain ⟨v, hv⟩ := Option.isSome_iff_exists.1 (Bool.and_eq_true_iff.1 hok).2
    obtain ⟨hk, rfl⟩ := hc.toBefore.shared hv
    have hc0 : clean = false := by
      cases clean with
      | true => cases hclean rfl
      | false => rfl
    obtain ⟨hro, hcomp⟩ := hc.readOnly v rfl
    exact .next ⟨hp, hc0, hk, v, _, hc.toBefore, hro, hcomp⟩ (by simp [left])
  · exact .next ⟨hp, o, u, hc, hclean⟩ (by simp [left])

theorem goes_rename {ok : Bool} (hw : mg.At d w)
    (h : mg.stage ports w clean (some (.move .rename p)) s)
    (ha : mg.Admitted d clean s (.move .rename p) ok) :
    mg.Goes d ports w clean (.move .rename p) (mg.move d p ok s .rename) := by
  obtain rfl := ha.ok And.left
  obtain ⟨hp, o, u, hc, hclean⟩ := h
  have hfree : (s.hosts.boxes w.kt)[w.master]? = none := by
    cases clean with
    | true =>
      cases hclean rfl
      exact hc.toSwap.node_none _
    | false =>
      have hbox : s.hosts.box d p.target p.master = none := ha.2
      rwa [hp.target, hp.master, hw.box_target] at hbox
  obtain ⟨s', hren, hm, hbox, hother⟩ := hc.toSwap.rename hw.targetAt hfree
  simp only [Migration.move, hp.target, hp.temp_eq, hp.master]
  refine .orEnd (by simp [left]) (fun _ => ?_) fun hok => nomatch hok
  refine ⟨{ s with hosts := s' }, by rw [Moving.onHosts, hren, Option.map_some], hp, u, ⟨w.serverId, ?_⟩, hbox,
    hc.complete, fun k v hk hv => ?_⟩
  · exact hm ▸ hc.fits
  · -- what is left of the old master
    rw [hother k hk] at hv
    have hko : k = w.ko := by
      by_contra hko
      cases hv.symm.trans (hc.alone k hko)
    rw [hko, hc.old] at hv
    exact (hc.readOnly v hv).1

/-- The old master stays where it is. -/
theorem moved_of_shared {v : Mysqld} {u : Option Mysqld} (hk : w.kt = w.ko)
    (h : mg.Before ports w s (some v) u) (hc : Complete s v) : mg.Moved w s w.bound v := by
  refine ⟨⟨_, h.fits⟩, hk ▸ h.old, hc, fun k v' hne hv => ?_⟩
  cases hv.symm.trans (h.alone k (hk ▸ hne))

theorem goes_spare {ok : Bool} (h : mg.stage ports w clean (some (.move .spare p)) s) :
    mg.Goes d ports w clean (.move .spare p) (mg.move d p ok s .spare) := by
  obtain ⟨hp, hc0, hk, v, u, hc, hro, hcomp⟩ := h
  subst hc0
  simp only [Migration.move]
  split
  · exact ⟨⟨hp, rfl, hk, v, u, hc, hro, hcomp⟩, fun hclean => nomatch hclean⟩
  · exact ⟨⟨hp, v, moved_of_shared hk hc hcomp⟩, fun hclean => nomatch hclean⟩

theorem goes_spareRemove {ok : Bool} (hw : mg.At d w)
    (h : mg.stage ports w clean (some (.move .spareRemove p)) s) :
    mg.Goes d ports w clean (.move .spareRemove p) (mg.move d p ok s .spareRemove) := by
  obtain ⟨hp, hc0, hk, v, u, hc, hro, hcomp⟩ := h
  subst hc0
  simp only [Migration.move, hp.target, hp.temp_eq]
  refine ⟨⟨hp, v, ?_⟩, fun hclean => nomatch hclean⟩
  cases ok with
  | true => exact moved_of_shared hk (hc.removeTemp hw) hcomp
  | false => exact moved_of_shared hk hc hcomp

theorem goes_renamed {ok : Bool} (hw : mg.At d w)
    (h : mg.stage ports w clean (some (.move .renamed p)) s)
    (ha : mg.Admitted d clean s (.move .renamed p) ok) :
    mg.Goes d ports w clean (.move .renamed p) (mg.move d p ok s .renamed) := by
  obtain rfl := ha.ok id
  obtain ⟨hp, v, hm⟩ := h
  simp only [Migration.move, hp.target, hp.master, hw.box_target, hm.box]
  exact .next ⟨hp, v, hm⟩ (by simp [left])

theorem goes_writable {ok : Bool} (hw : mg.At d w)
    (h : mg.stage ports w clean (some (.move .writable p)) s)
    (ha : mg.Admitted d clean s (.move .writable p) ok) :
    mg.Goes d ports w clean (.move .writable p) (mg.move d p ok s .writable) := by
  obtain rfl := ha.ok id
  obtain ⟨hp, v, hm⟩ := h
  simp only [Migration.move, hp.target, hp.master]
  refine .orEnd (by simp [left]) (fun _ => ?_) fun hok => nomatch hok
  refine ⟨{ s with hosts := s.hosts.onHost w.kt (·.insert w.master (v.setReadOnly false)) }, ?_, hp,
    v.setReadOnly false, ⟨hm.fits, ?_, hm.complete, fun k v' hk hv => ?_⟩, rfl⟩
  · simp only [Moving.onHosts, Hosts.alter, hw.targetAt, Option.bind_some, hm.box, Option.map_some]
  · rw [Hosts.boxes_insert, if_pos ⟨rfl, rfl⟩]
  · rw [Hosts.boxes_insert, if_neg fun hx => hk hx.1] at hv
    exact hm.alone k v' hk hv

theorem goes_commit (ok : Bool) (hw : mg.At d w)
    (h : mg.stage ports w clean (some (.move .commit p)) s) :
    mg.Goes d ports w clean (.move .commit p) (mg.move d p ok s .commit) := by
  obtain ⟨hp, v, hm, hro⟩ := h
  obtain ⟨sid, hfit⟩ := hm.fits
  simp only [Migration.move, hp.master]
  exact .next ⟨v, { hm with fits := ⟨_, hfit.move hw.targets⟩ }, hro⟩ (by simp [left])

/-- After a slave the migration goes on. -/
theorem goes_slave {node host : String} {rest : List (String × String)} (hw : mg.At d w)
    (h : mg.Rest ports w s) (hl : ∀ q ∈ rest, q.1 ≠ w.master) :
    mg.Goes d ports w clean (.slave node host rest) (s, mg.goOn ports s rest) := by
  obtain ⟨j, hj, hst, hlt⟩ := goOn_stage clean hw h hl
  rw [hj]
  exact .next hst hlt

/-- Every call leads to the stage of the next one. -/
theorem goes (ok : Bool) (hw : mg.At d w) (h : mg.stage ports w clean (some i) s)
    (ha : mg.Admitted d clean s i ok) : mg.Goes d ports w clean i (mg.call d ports i ok s) := by
  rcases i with ⟨node, host, rest⟩ | ⟨c, p⟩ | _
  · obtain ⟨hrest, hne, hl⟩ := h
    simp only [call]
    cases ok with
    | true => exact goes_slave hw (hrest.slave hne) hl
    | false => exact .stop (ha.not_clean rfl) hrest.drawn
  · cases c with
    | standIn => exact goes_standIn hw h ha
    | run => exact goes_run hw h ha
    | ready => exact goes_ready hw h ha
    | attach => exact goes_attach hw h ha
    | readyAgain => exact goes_readyAgain hw h ha
    | caughtUp => exact goes_caughtUp hw h ha
    | giveUp => exact goes_giveUp hw h
    | giveUpRemove => exact goes_giveUpRemove hw h
    | readOnly => exact goes_readOnly hw h ha
    | caughtAgain => exact goes_caughtAgain hw h ha
    | stopReplica => exact goes_stopReplica hw h
    | old => exact goes_old hw h ha
    | oldRemove => exact goes_oldRemove hw h ha
    | inPlace => exact goes_inPlace hw h
    | spare => exact goes_spare h
    | spareRemove => exact goes_spareRemove hw h
    | rename => exact goes_rename hw h ha
    | renamed => exact goes_renamed hw h ha
    | writable => exact goes_writable hw h ha
    | commit => exact goes_commit ok hw h
  · exact ⟨.inr h.facts, fun _ => h.facts.migrated hw⟩

/-! ### Runs -/

theorem outlined (hw : mg.At d w) :
    (mg.procedure d ports).Outline (mg.Calm d) (mg.stage ports w false) where
  again s h := by
    obtain ⟨i, hi, hst⟩ := first_stage false hw h
    rw [hi]
    exact hst
  answer i ok s h hg := (goes ok hw h hg).1
  cut i s _ hg := hg.elim
  other n e s s' h hs hg := stage_other h hs hg

/-- Between two runs, one in which all calls succeed migrates the instance. -/
theorem settles_of_rest (hw : mg.At d w) (h : mg.Rest ports w s) :
    (mg.procedure d ports).Settles mg.Polite (mg.Migrated d) ((mg.procedure d ports).begun s) := by
  obtain ⟨i, hi, hst⟩ := first_stage true hw h
  rw [Procedure.begun, hi]
  refine Procedure.Settles.of_rank (B := fun i s => mg.stage ports w true (some i) s) left ?_ ?_ hst
  · exact fun i e s s' h hp hs => stage_other h hs hp
  · intro i s h
    obtain ⟨hnext, hlead⟩ := goes true hw h rfl
    have hlead := hlead rfl
    show Procedure.Leads _ _ _ _ (mg.call d ports i true s)
    generalize mg.call d ports i true s = q at hnext hlead ⊢
    obtain ⟨s', _ | j⟩ := q
    · exact hlead
    · exact ⟨hnext, hlead⟩

theorem named_eq {b : Option String} {sid : Nat} (h : mg.Fits w s.hosts.manager b sid) (k : Nat) :
    mg.named s k = (s.hosts.boxes k)[w.master]? := by
  simp [named, h.master_eq]

/-- Writable servers of the master's name are on one host. -/
theorem stage_one {n : Option MigrateCall} (h : mg.stage ports w clean n s) :
    ∃ k₀, ∀ (k : Nat) (v : Mysqld), (s.hosts.boxes k)[w.master]? = some v →
      v.server.readOnly = false → k = k₀ := by
  rcases stage_moved h with ⟨o, u, h⟩ | ⟨b, v₀, h⟩
  · refine ⟨w.ko, fun k v hv _ => ?_⟩
    by_contra hk
    cases hv.symm.trans (h.alone k hk)
  · refine ⟨w.kt, fun k v hv hro => ?_⟩
    by_contra hk
    cases hro.symm.trans (h.alone k v hk hv)

/-- When nothing is under way, the master is writable. -/
theorem Rest.writable (h : mg.Rest ports w s) (hw : mg.At d w) {i : RdsInstance} {n : InstNode}
    {k : Nat} {v : Mysqld} (hi : s.hosts.manager.instances[mg.inst]? = some i)
    (hn : i.master = some n)
    (hk : (resolveRouteOf i n.container s.hosts.manager.hosts).daemon d = some k)
    (hv : mg.named s k = some v) : v.server.readOnly = false := by
  obtain ⟨b, sid, hfit⟩ := rest_fits h
  rw [named_eq hfit] at hv
  rcases h with ⟨v', u, h, -⟩ | ⟨v', h, hro⟩
  · obtain ⟨i', n', hfit⟩ := h.fits
    cases hfit.inst.symm.trans hi
    cases hfit.node.symm.trans hn
    rw [hfit.master, hfit.rows, hw.old _ hfit.bound, hw.oldAt] at hk
    cases hk
    cases h.old.symm.trans hv
    exact h.writable
  · obtain ⟨sid', i', n', hfit⟩ := h.fits
    cases hfit.inst.symm.trans hi
    cases hfit.node.symm.trans hn
    rw [hfit.master, hfit.rows, resolveRouteOf_of_bound hfit.bound (trimmed_host hw.targets) hw.route,
      hw.targetAt] at hk
    cases hk
    cases h.box.symm.trans hv
    exact hro

theorem safe_of_stage (hw : mg.At d w) {n : Option MigrateCall} (h : mg.stage ports w false n s) :
    mg.Safe d ports mg.Polite ⟨s, n⟩ where
  writable hn i n' k v hi hn' hk hv _ := by
    obtain rfl : n = none := hn
    exact Rest.writable h hw hi hn' hk hv
  one k k' v v' hv hv' hro hro' := by
    obtain ⟨b, sid, hfit⟩ := stage_fits h
    obtain ⟨k₀, hone⟩ := stage_one h
    rw [named_eq hfit] at hv hv'
    exact (hone k v hv hro).trans (hone k' v' hv' hro').symm
  resumes hn := by
    obtain rfl : n = none := hn
    exact settles_of_rest hw h

theorem check_eq_ok {m : Manager} {i : RdsInstance} (h : mg.check m = .ok i) :
    m.instances[mg.inst]? = some i ∧ mg.targets ≠ [] ∧
      mg.targets.forM (migrateHost m) = .ok () := by
  unfold check at h
  split at h
  · cases h
  · next i' hi =>
    by_cases htargets : mg.targets = []
    · simp [htargets, throw, throwThe, MonadExceptOf.throw, bind, Except.bind] at h
    · simp only [if_neg htargets, bind, Except.bind, pure, Except.pure] at h
      cases hhosts : mg.targets.forM (migrateHost m) with
      | error e => simp [hhosts] at h
      | ok _ =>
        simp only [hhosts] at h
        split at h
        · cases h
        · cases h
          exact ⟨hi, htargets, rfl⟩

theorem migrateHost_congr {m m' : Manager} (h : m.hosts = m'.hosts) :
    migrateHost m = migrateHost m' := by
  funext host
  simp only [migrateHost, h]

/-- The site of a migration. -/
theorem Ready.site {i : RdsInstance} {n : InstNode} {target : NodeRoute} {ko kt : Nat} {v : Mysqld}
    (h : mg.Ready d ports s i n target ko kt v) : ∃ w, mg.At d w ∧ mg.Rest ports w s := by
  obtain ⟨hi, htargets, hchecked⟩ := check_eq_ok h.setting.check
  have hroute := h.setting.route
  refine ⟨⟨s.hosts.manager.hosts, n.container, n.serverId, nodeHostBinding i n.container, target,
    resolveRouteOf i n.container s.hosts.manager.hosts, ko, kt⟩, ?_, ?_⟩
  · exact ⟨htargets, fun m hm => by rw [← hchecked, migrateHost_congr hm], hroute,
      fun i' hi' => by simp only [resolveRouteOf, hi'], h.setting.oldAt, h.setting.targetAt⟩
  · have hfit : mg.FitsAt ⟨s.hosts.manager.hosts, n.container, n.serverId,
        nodeHostBinding i n.container, target,
        resolveRouteOf i n.container s.hosts.manager.hosts, ko, kt⟩ s.hosts.manager
        (nodeHostBinding i n.container) n.serverId i n :=
      ⟨rfl, hi, h.setting.master, rfl, rfl, h.setting.apart, rfl⟩
    rcases eq_or_ne (nodeHostBinding i n.container) (some mg.host) with hb | hb
    · -- the master is where it is to go
      have hk : ko = kt := by
        have hold := h.setting.oldAt
        rw [resolveRouteOf_of_bound hb (trimmed_host htargets) hroute, h.setting.targetAt] at hold
        exact (Option.some.inj hold).symm
      subst hk
      refine .inr ⟨v, ⟨⟨n.serverId, i, n, hb ▸ hfit⟩, h.box, h.complete, fun k v' hk hv => ?_⟩,
        h.writable⟩
      cases hv.symm.trans (h.alone k hk)
    · refine .inl ⟨v, none, ⟨⟨⟨?_, h.box, h.free, h.alone, fun name v' _ hv' j => ?_⟩,
        ⟨i, n, hfit⟩, hb⟩, h.serverId, h.writable, h.complete⟩, fun _ hu => by cases hu⟩
      · intro heq
        have hlen := congrArg String.length heq
        simp [Site.temp, String.length_append] at hlen
      · exact h.port name v' j hv'

/-- A migration whose steps are calm is safe in every state. -/
theorem migration_safe {h : History (Progress Moving MigrateCall) (ProcedureEvent ClientCommit)}
    {g : Progress Moving MigrateCall}
    (hr : Run (mg.procedure d ports).step (fun _ => mg.Calm d) (mg.Initial d ports) h g) :
    ∀ u ∈ h.states g, mg.Safe d ports mg.Polite u := by
  obtain ⟨⟨s₀, n₀⟩, ⟨rfl, i, n, target, ko, kt, v, h0⟩, hr⟩ := hr.starts
  obtain ⟨w, hw, hrest⟩ := h0.site
  have hA : ∀ u ∈ h.states g, mg.stage ports w false u.next u.state := by
    refine (outlined hw).run ?_ hr
    rintro _ rfl
    exact hrest
  exact fun u hu => safe_of_stage hw (hA u hu)

end

/-! ## A migration to a second machine -/

/-- An instance of three nodes whose master is on one machine, and a second machine. -/
def moving : Moving where
  hosts :=
    { manager := { Submission.created with hosts := [⟨"h2", "10.0.0.2", 32, 9199, "online"⟩] }
      boxes := fun k =>
        if k = 0 then (∅ : BTreeMap String Mysqld).insert "rds-db-master" ⟨1, 35000, ⟨false, none⟩, [7]⟩
        else ∅ }
  committed := [7]
  drawn := 0

def toSecond : Migration := ⟨"db", "r1", "z1", ["h2"], by decide +kernel⟩

/-- The ports that are drawn. -/
def drawnPort (j : Nat) : Nat := 36000 + j

theorem ready_moving : ∃ i n, toSecond.Ready Replacement.machines drawnPort moving i n
    (.agent "h2" "10.0.0.2" 9199) 0 1 ⟨1, 35000, ⟨false, none⟩, [7]⟩ := by
  have hfound : (moving.hosts.manager.instances["db"]?).map (fun i =>
      (i.master.map fun n => (n.container, n.serverId), nodeHostBinding i "rds-db-master",
        i.nodes.all fun u => u.container ≠ "rds-db-master" || u.role = .master)) =
      some (some ("rds-db-master", 1), none, true) := by decide +kernel
  have hcheck : (toSecond.check moving.hosts.manager).toOption.isSome = true := by decide +kernel
  obtain ⟨i, hi, hval⟩ := Option.map_eq_some_iff.1 hfound
  simp only [Prod.mk.injEq] at hval
  obtain ⟨hmaster, hbound, hroles⟩ := hval
  obtain ⟨n, hn, hval⟩ := Option.map_eq_some_iff.1 hmaster
  obtain ⟨hc, hsid⟩ := Prod.mk.inj hval
  refine ⟨i, n, ?_, ?_, hsid.symm, rfl, by simp [Complete, moving], fun k hk => ?_, ?_,
    fun name v j h => ?_⟩
  · refine ⟨?_, hn, fun u hu hcu => ?_, by decide +kernel, ?_, rfl⟩
    · cases hchk : toSecond.check moving.hosts.manager with
      | error e => simp [hchk, Except.toOption] at hcheck
      | ok i' =>
        cases (check_eq_ok hchk).1.symm.trans hi
        rfl
    · rw [hc] at hcu
      have hu := List.all_eq_true.1 hroles u hu
      simpa [hcu] using hu
    · rw [hc, resolveRouteOf, hbound]
      rfl
  · rw [hc]
    decide +kernel
  · simp [moving, hk]
  · simp [moving]
  · simp [moving] at h

/-- The stand-in does not catch up at first; a client commits, and the rerun brings that along. -/
theorem migration_safe_rerun : ∃ h g,
    Run (toSecond.procedure Replacement.machines drawnPort).step
      (fun _ => toSecond.Calm Replacement.machines)
      (toSecond.Initial Replacement.machines drawnPort) h g ∧ g.next = none ∧
    g.state.committed = [8, 7] ∧
    (g.state.hosts.box Replacement.machines (.agent "h2" "10.0.0.2" 9199) "rds-db-master").map
      (fun v => (v.server.readOnly, v.executed.dedup)) = some (false, [8, 7]) ∧
    ∀ u ∈ h.states g, toSecond.Safe Replacement.machines drawnPort toSecond.Polite u := by
  have hf : (follow (toSecond.procedure Replacement.machines drawnPort).step
      (fun _ => toSecond.Calm Replacement.machines)
      (.again :: List.replicate 6 (.answer true) ++ .other ⟨0, 8, false⟩ :: .answer false ::
        List.replicate 2 (.answer true) ++ .again :: List.replicate 16 (.answer true)) []
      ⟨moving, none⟩).map (fun q => (q.2.next, q.2.state.committed,
        (q.2.state.hosts.box Replacement.machines (.agent "h2" "10.0.0.2" 9199) "rds-db-master").map
          fun v => (v.server.readOnly, v.executed.dedup))) =
      some (none, [8, 7], some (false, [8, 7])) := by
    decide +kernel
  obtain ⟨⟨h, g⟩, hfollow, hval⟩ := Option.map_eq_some_iff.1 hf
  simp only [Prod.mk.injEq] at hval
  obtain ⟨hnext, hcomm, hbox⟩ := hval
  obtain ⟨i, n, hready⟩ := ready_moving
  have hr : Run (toSecond.procedure Replacement.machines drawnPort).step
      (fun _ => toSecond.Calm Replacement.machines)
      (toSecond.Initial Replacement.machines drawnPort) h g :=
    (Run.start ⟨rfl, _, _, _, _, _, _, hready⟩).follow hfollow
  exact ⟨h, g, hr, hnext, hcomm, hbox, migration_safe hr⟩

/-- The stand-in does not catch up with the master that has been made read-only, which stays so. -/
theorem master_stranded : ¬ ∀ (d : NodeRoute → Nat) (ports : Nat → Nat) (mg : Migration) h g,
    Run (mg.procedure d ports).step (fun _ _ e => e ≠ .cut) (mg.Initial d ports) h g →
      ∀ u ∈ h.states g, mg.Safe d ports (fun _ _ => True) u := by
  intro hall
  have hf : (follow (toSecond.procedure Replacement.machines drawnPort).step (fun _ _ e => e ≠ .cut)
      (.again :: List.replicate 8 (.answer true) ++ [.answer false]) [] ⟨moving, none⟩).map
      (fun q => (q.2.next, toSecond.named q.2.state 0,
        (q.2.state.hosts.manager.instances["db"]?).bind fun i => i.master.map fun n =>
          (n.serverId, (resolveRouteOf i n.container q.2.state.hosts.manager.hosts).daemon
            Replacement.machines))) =
      some (none, some ⟨1, 35000, ⟨true, none⟩, [7]⟩, some (1, some 0)) := by
    decide +kernel
  obtain ⟨⟨h, g⟩, hfollow, hval⟩ := Option.map_eq_some_iff.1 hf
  simp only [Prod.mk.injEq] at hval
  obtain ⟨hnext, hbox, hinst⟩ := hval
  obtain ⟨i, hi, hmaster⟩ := Option.bind_eq_some_iff.1 hinst
  obtain ⟨n, hn, hval⟩ := Option.map_eq_some_iff.1 hmaster
  obtain ⟨hsid, hroute⟩ := Prod.mk.inj hval
  obtain ⟨i₀, n₀, hready⟩ := ready_moving
  have hr : Run (toSecond.procedure Replacement.machines drawnPort).step (fun _ _ e => e ≠ .cut)
      (toSecond.Initial Replacement.machines drawnPort) h g :=
    (Run.start ⟨rfl, _, _, _, _, _, _, hready⟩).follow hfollow
  have hsafe := hall Replacement.machines drawnPort toSecond h g hr g (History.mem_states.2 (.inl rfl))
  cases hsafe.writable hnext i n 0 _ hi hn hroute hbox hsid.symm

end Migration

end Rdsctl.Inst
