import Rdsctl.Inst.Turns

/-!
# Containers that plans start

The steps of a creation: it starts a container for each node that it plans, with the arguments that
belong to the server id of the node, and containers for access, and it says that the instance runs. All
its other steps leave the records as they are.
-/

namespace Rdsctl.Inst

open Ha Dag

/-- A step that starts no container and leaves the records as they are. -/
def Step.keeps : Step → Bool
  | .dockerRun .. => false
  | .replaceNodeCore .. => false
  | .updateInstanceStatus .. => false
  | .updateInstanceTopology .. => false
  | .replaceNodeCommit .. => false
  | .migrateInstance .. => false
  | _ => true

/-- The steps of the creation of a record. -/
inductive CreationStep (i : RdsInstance) : Step → Prop
  | node {n : InstNode} {p : Process} {network : String} {hostPort : Option Nat} {extra : List String}
      (hx : i.itype ≠ "xenon") (hn : n ∈ i.nodes) (hextra : "--read-only=1" ∉ extra) :
      CreationStep i (.dockerRun n.container (mysqlArgs p network hostPort n.serverId extra))
  | raft {p : Process} {container network node peers role : String} {hostPort rpcPort : Nat} :
      CreationStep i (.dockerRun container (xenonNodeArgs p network node peers role hostPort rpcPort))
  | proxy {p : Process} {container name network : String} {proxy : ProxyNode} :
      CreationStep i (.dockerRun container (proxyArgs p name network proxy))
  | done : CreationStep i (.updateInstanceStatus i.name "running")
  | other {step : Step} (h : step.keeps = true) : CreationStep i step

/-- All steps of a graph. -/
def AllSteps (P : Step → Prop) (dag : List (TaskNode Step)) : Prop :=
  ∀ node ∈ dag, ∀ step ∈ node.steps, P step

section

variable {P : Step → Prop} {dag dag' : List (TaskNode Step)} {node : TaskNode Step}

theorem AllSteps.nil : AllSteps P [] := fun _ h => by cases h

theorem AllSteps.cons (h : ∀ step ∈ node.steps, P step) (hs : AllSteps P dag) :
    AllSteps P (node :: dag) :=
  List.forall_mem_cons.2 ⟨h, hs⟩

theorem AllSteps.append (h : AllSteps P dag) (h' : AllSteps P dag') : AllSteps P (dag ++ dag') :=
  List.forall_mem_append.2 ⟨h, h'⟩

/-- A node of one step. -/
theorem AllSteps.one {step : Step} (hnode : node.steps = [step]) (h : P step) (hs : AllSteps P dag) :
    AllSteps P (node :: dag) := by
  refine .cons (fun s hmem => ?_) hs
  rw [hnode, List.mem_singleton] at hmem
  exact hmem ▸ h

variable (hkeeps : ∀ step : Step, step.keeps = true → P step)
include hkeeps

theorem masterSteps_all {p : Process} {network masterC : String} {sid : Nat}
    (h : P (.dockerRun masterC
      (mysqlArgs p network none sid ["--log-bin=mysql-bin", "--binlog-format=ROW"]))) :
    ∀ step ∈ masterSteps p network masterC sid, P step :=
  List.forall_mem_cons.2 ⟨h, List.forall_mem_cons.2 ⟨hkeeps _ rfl,
    List.forall_mem_singleton.2 (hkeeps _ rfl)⟩⟩

theorem slaveSteps_all {p : Process} {slaveC network masterC : String} {sid : Nat}
    (h : P (.dockerRun slaveC (mysqlArgs p network none sid []))) :
    ∀ step ∈ slaveSteps p slaveC network masterC sid, P step :=
  List.forall_mem_cons.2 ⟨h, List.forall_mem_cons.2 ⟨hkeeps _ rfl,
    List.forall_mem_singleton.2 (hkeeps _ rfl)⟩⟩

omit hkeeps in
theorem proxyNodes_all {p : Process} {name network : String} {proxies : List ProxyNode}
    (h : ∀ x ∈ proxies, P (.dockerRun x.container (proxyArgs p name network x))) :
    AllSteps P (proxyNodes p name network proxies) := by
  intro node hnode step hstep
  obtain ⟨k, hk, rfl⟩ := List.mem_mapIdx.1 hnode
  rw [List.mem_singleton.1 hstep]
  exact h _ (List.getElem_mem hk)

theorem createNodes2_all {p : Process} {name network masterC : String}
    {slaves : List (String × String × Nat)} {proxies : List ProxyNode} {masterSid lvsPort : Nat}
    (hdone : P (.updateInstanceStatus name "running"))
    (hmaster : P (.dockerRun masterC
      (mysqlArgs p network none masterSid ["--log-bin=mysql-bin", "--binlog-format=ROW"])))
    (hslave : ∀ q ∈ slaves, P (.dockerRun q.1 (mysqlArgs p network none q.2.2 [])))
    (hproxy : ∀ x ∈ proxies, P (.dockerRun x.container (proxyArgs p name network x))) :
    AllSteps P (createNodes2 p name network masterC slaves proxies masterSid lvsPort) := by
  unfold createNodes2
  refine .append (.append (.append (.append ?_ ?_) ?_) (proxyNodes_all hproxy)) ?_
  · exact .one rfl (hkeeps _ rfl) (.cons (masterSteps_all hkeeps hmaster) .nil)
  · intro node hnode
    obtain ⟨k, hk, rfl⟩ := List.mem_mapIdx.1 hnode
    exact slaveSteps_all hkeeps (hslave _ (List.getElem_mem hk))
  · exact .one rfl (hkeeps _ rfl) .nil
  · refine .one rfl (hkeeps _ rfl) (.cons (List.forall_mem_append.2 ⟨?_, ?_⟩) .nil)
    · split
      · exact fun _ h => by cases h
      · exact List.forall_mem_singleton.2 (hkeeps _ rfl)
    · exact List.forall_mem_singleton.2 hdone

theorem createNodesMulti_all {p : Process} {name network : String} {groups : List MultiGroup}
    {proxies : List ProxyNode} {lvsPort : Nat} (hdone : P (.updateInstanceStatus name "running"))
    (hmaster : ∀ g ∈ groups, P (.dockerRun g.masterC
      (mysqlArgs p network none g.masterSid ["--log-bin=mysql-bin", "--binlog-format=ROW"])))
    (hread : ∀ g ∈ groups, P (.dockerRun g.readC (mysqlArgs p network none (g.masterSid + 1) [])))
    (hoffline : ∀ g ∈ groups, ∀ c ∈ g.offlineC,
      P (.dockerRun c (mysqlArgs p network none (g.masterSid + 2) [])))
    (hproxy : ∀ x ∈ proxies, P (.dockerRun x.container (proxyArgs p name network x))) :
    AllSteps P (createNodesMulti p name network groups proxies lvsPort) := by
  unfold createNodesMulti
  refine .one rfl (hkeeps _ rfl) (.append (.append (.append (.append (.append ?_ ?_)
    (proxyNodes_all hproxy)) ?_) ?_) ?_)
  · intro node hnode
    obtain ⟨g, hg, hnode⟩ := List.mem_flatMap.1 hnode
    refine AllSteps.append (.cons (masterSteps_all hkeeps (hmaster g hg))
      (.cons (slaveSteps_all hkeeps (hread g hg)) .nil)) ?_ node hnode
    cases hoff : g.offlineC with
    | none => exact .nil
    | some c => exact .cons (slaveSteps_all hkeeps (hoffline g hg c hoff)) .nil
  · exact .one rfl (hkeeps _ rfl) .nil
  · exact .one rfl (hkeeps _ rfl) .nil
  · intro node hnode
    obtain ⟨g, -, rfl⟩ := List.mem_map.1 hnode
    exact List.forall_mem_singleton.2 (hkeeps _ rfl)
  · exact .one rfl hdone .nil

theorem xenonNodesGraph_all {p : Process} {name network consistency : String} {n : Nat}
    {proxies : List ProxyNode} {ports : Nat → Nat} (hdone : P (.updateInstanceStatus name "running"))
    (hraft : ∀ container peers role hostPort rpcPort, P (.dockerRun container
      (xenonNodeArgs p network container peers role hostPort rpcPort)))
    (hproxy : ∀ x ∈ proxies, P (.dockerRun x.container (proxyArgs p name network x))) :
    AllSteps P (xenonNodesGraph p name network consistency n proxies ports) := by
  unfold xenonNodesGraph
  refine .one rfl (hkeeps _ rfl) (.append (.append (.append ?_ ?_) ?_) ?_)
  · intro node hnode
    obtain ⟨k, -, rfl⟩ := List.mem_map.1 hnode
    exact List.forall_mem_cons.2 ⟨hraft _ _ _ _ _, List.forall_mem_singleton.2 (hkeeps _ rfl)⟩
  · exact .one rfl (hkeeps _ rfl) .nil
  · split
    · exact .nil
    · refine .append (.append (.one rfl (hkeeps _ rfl) .nil) fun node hnode => ?_)
        (.one rfl (hkeeps _ rfl) .nil)
      obtain ⟨k, hk, rfl⟩ := List.mem_mapIdx.1 hnode
      exact fun step hstep => proxyNodes_all hproxy _ (List.getElem_mem hk) step hstep
  · exact .one rfl hdone .nil

theorem destroyNodes_all (name : String) (i : RdsInstance)
    (hdone : P (.updateInstanceStatus name "destroyed")) : AllSteps P (destroyNodes name i) := by
  have hremove {ms : List String} {node : TaskNode Step} {dag : List (TaskNode Step)}
      (hnode : node.steps = ms.map .dockerRm) (hs : AllSteps P dag) : AllSteps P (node :: dag) := by
    refine .cons (fun step hstep => ?_) hs
    rw [hnode] at hstep
    obtain ⟨c, -, rfl⟩ := List.mem_map.1 hstep
    exact hkeeps _ rfl
  have hcleanup : AllSteps P [cleanupNode name] := by
    refine .cons (fun step hstep => ?_) .nil
    simp only [cleanupNode, simpleNode, List.mem_cons, List.not_mem_nil, or_false] at hstep
    rcases hstep with rfl | rfl
    · exact hdone
    · exact hkeeps _ rfl
  have hnodes : i.nodes.map (fun n => Step.dockerRm n.container) =
      (i.nodes.map (·.container)).map .dockerRm := by
    rw [List.map_map]
    rfl
  unfold destroyNodes
  split
  · unfold destroyXenon
    refine .append (.append ?_ ?_) (hremove hnodes (.one rfl (hkeeps _ rfl) hcleanup))
    · split
      · exact .one rfl (hkeeps _ rfl) (hremove rfl .nil)
      · exact .nil
    · split
      · exact .one rfl (hkeeps _ rfl) .nil
      · exact .nil
  · exact .one rfl (hkeeps _ rfl) (hremove rfl (hremove hnodes (.one rfl (hkeeps _ rfl)
      (.one rfl (hkeeps _ rfl) hcleanup))))

theorem createGraph_all {name : String} {o : CreateOpts} {i : RdsInstance} (h : AllSteps P dag) :
    AllSteps P (createGraph name o i dag) := by
  unfold createGraph
  split
  · refine .append h fun node hnode => ?_
    obtain ⟨n, -, rfl⟩ := List.mem_map.1 hnode
    exact List.forall_mem_singleton.2 (hkeeps _ rfl)
  · exact h

end

/-! ## Creations -/

section

variable {s : Surroundings} {sid : Nat} {name : String} {o : CreateOpts}
  {plan : RdsInstance × List (TaskNode Step)}

theorem CreationStep.of_node {i : RdsInstance} {p : Process} {network container : String}
    {hostPort : Option Nat} {extra : List String} {sid : Nat} (hx : i.itype ≠ "xenon")
    (h : (container, sid) ∈ i.nodes.map fun n => (n.container, n.serverId))
    (hextra : "--read-only=1" ∉ extra) :
    CreationStep i (.dockerRun container (mysqlArgs p network hostPort sid extra)) := by
  obtain ⟨n, hn, heq⟩ := List.mem_map.1 h
  cases heq
  exact .node hx hn hextra

/-- The nodes of a group are planned. -/
theorem mem_multiNodes {p : Process} {itype : String} {shardN firstSid : Nat} {ports : Nat → Nat}
    {g : MultiGroup} {c : String × Nat} (hitype : o.itype = itype)
    (hg : g ∈ multiGroups name itype shardN firstSid)
    (h : ∀ region az q, c ∈ (g.nodes region az q).map fun n => (n.container, n.serverId)) :
    c ∈ (multiNodes p name o shardN firstSid ports).map fun n => (n.container, n.serverId) := by
  subst hitype
  obtain ⟨j, hj, rfl⟩ := List.mem_iff_getElem.1 hg
  obtain ⟨n, hn, heq⟩ := List.mem_map.1 (h (regionOf p o) (azOf p o)
    fun i => ports (groupPorts o.itype * j + i))
  exact List.mem_map.2 ⟨n, List.mem_flatten.2 ⟨_, List.mem_mapIdx.2 ⟨j, hj, rfl⟩, hn⟩, heq⟩

/-- The slaves of an instance with one shard, as its task graph has them. -/
theorem mem_singleNodes {p : Process} {ports : Nat → Nat} {q : String × String × Nat}
    (h : q ∈ ((singleNodes p name o sid ports).filter (·.role ≠ .master)).mapIdx fun k n =>
      (n.container, slaveKind n.role, sid + (k + 1))) :
    (q.1, q.2.2) ∈ (singleNodes p name o sid ports).map fun n => (n.container, n.serverId) := by
  have hslaves : (singleNodes p name o sid ports).filter (·.role ≠ .master) =
      (slaveRoles o.itype).mapIdx fun k role =>
        freshNode (slaveName name (k + 1)) role (ports (k + 1)) (sid + (k + 1)) (regionOf p o)
          (azOf p o) p.shard (masterName name) := by
    unfold singleNodes
    rcases slaveRoles_cases o.itype with hr | hr | hr <;> rw [hr] <;> rfl
  rw [hslaves, List.mapIdx_mapIdx] at h
  obtain ⟨k, hk, rfl⟩ := List.mem_mapIdx.1 h
  exact List.mem_map.2 ⟨_, .tail _ (List.mem_mapIdx.2 ⟨k, hk, rfl⟩), rfl⟩

/-- The steps of a creation. -/
theorem Planned.steps (h : Planned s sid name o plan) :
    AllSteps (CreationStep plan.1) (createGraph name o plan.1 plan.2) := by
  refine createGraph_all (fun step hkeeps => .other hkeeps) ?_
  cases h with
  | @xenon plan ports hx hb =>
    unfold buildXenonInst at hb
    dsimp only at hb
    split at hb
    · cases hb
    · cases hb
      exact xenonNodesGraph_all (fun step hkeeps => .other hkeeps) .done (fun _ _ _ _ _ => .raft)
        fun _ _ => .proxy
  | multi hx hm =>
    refine createNodesMulti_all (fun step hkeeps => .other hkeeps) .done
      (fun g hg => .of_node hx (mem_multiNodes rfl hg fun _ _ _ => .head _) (by decide))
      (fun g hg => .of_node hx (mem_multiNodes rfl hg fun _ _ _ => .tail _ (.head _)) (by decide))
      (fun g hg c hc => .of_node hx (mem_multiNodes rfl hg fun _ _ _ => ?_) (by decide))
      fun _ _ => .proxy
    unfold MultiGroup.nodes
    rw [show g.offlineC = some c from hc]
    exact .tail _ (.tail _ (.head _))
  | single hx hm =>
    exact createNodes2_all (fun step hkeeps => .other hkeeps) .done
      (.of_node hx (.head _) (by decide)) (fun q hq => .of_node hx (mem_singleNodes hq) (by decide)) fun _ _ => .proxy

/-- The topology of a creation. -/
theorem Planned.topology_cases (h : Planned s sid name o plan) :
    (o.itype = "xenon" ∧ ∃ ports,
      buildXenonInst s.process name o (sid + 10) ("rds-" ++ name) ports = .ok plan) ∨
    (o.itype ≠ "xenon" ∧ isMulti o = true ∧ 1 < shardCount o ∧
      plan.1.topology = multiTopology name o.itype (shardCount o) (sid + 10) (proxyCount o)) ∨
    (o.itype ≠ "xenon" ∧ isMulti o = false ∧
      plan.1.topology = singleTopology s.process.shard name (slaveRoles o.itype) (proxyCount o)) := by
  cases h with
  | @xenon plan ports hx hb => exact .inl ⟨hx, ports, hb⟩
  | multi hx hm =>
    have hshards : 1 < shardCount o := by
      unfold isMulti at hm
      rw [Bool.and_eq_true, decide_eq_true_eq] at hm
      exact hm.1
    exact .inr (.inl ⟨hx, hm, hshards, topology_buildMultiInst _ _ _ _ _ _ _ _ _ _ hx⟩)
  | single hx hm => exact .inr (.inr ⟨hx, hm, topology_buildSingleInst _ _ _ _ _ _ _ _ _ hx⟩)

end

/-! ## Other operations -/

section

variable {s : Surroundings} {m : Manager} {e : Entry} {w : Work}

theorem Work.mem_steps {id kind inst : String} {nodes : List (TaskNode Step)} {watcher : Watcher}
    {step : Step} :
    step ∈ (Work.task id kind inst nodes watcher).steps ↔ ∃ node ∈ nodes, step ∈ node.steps :=
  List.mem_flatMap

/-- The steps of an operation on an instance that exists. -/
inductive OperationStep (s : Surroundings) (m : Manager) : Entry → String → Step → Prop
  | destroyed {name : String} :
      OperationStep s m (.destroy name) name (.updateInstanceStatus name "destroyed")
  | slave {name : String} {role : Role} {region az shard : Option String} {i : RdsInstance}
      {plan : ScaleoutPlan} (h : scaleoutCheck name role shard m = .ok (i, plan)) :
      OperationStep s m (.scaleoutOpt name role region az shard) name (.dockerRun plan.container
        (mysqlArgs s.process i.network (some (s.ports 0)) plan.serverId []))
  | joins {name : String} {role : Role} {region az shard : Option String} {i : RdsInstance}
      {plan : ScaleoutPlan} (h : scaleoutCheck name role shard m = .ok (i, plan)) :
      OperationStep s m (.scaleoutOpt name role region az shard) name
        (.updateInstanceTopology name plan.container (scaleoutRole role) (s.ports 0) plan.serverId
          (region.getD "") (az.getD "") plan.shard plan.parent)
  | core {inst node host : String} {i : RdsInstance}
      (h : replaceCheck (trimmed inst) (trimmed node) (trimmed host) m = .ok i) :
      OperationStep s m (.replaceNode inst node host) (trimmed inst) (.replaceNodeCore i.name
        (trimmed node) (trimmed host) (s.ports 0) (i.maxServerId + 1))
  | commit {inst node host : String} {i : RdsInstance}
      (h : replaceCheck (trimmed inst) (trimmed node) (trimmed host) m = .ok i) :
      OperationStep s m (.replaceNode inst node host) (trimmed inst) (.replaceNodeCommit i.name
        (trimmed node) (trimmed host) (s.ports 0) (i.maxServerId + 1))
  | moves {inst region az csv : String} :
      OperationStep s m (.migrateInstance inst region az csv) (trimmed inst)
        (.migrateInstance (trimmed inst) (trimmed region) (trimmed az)
          (",".intercalate (splitHosts csv)))
  | running {e : Entry} {name : String} {i : RdsInstance} (he : ∀ name, e ≠ .destroy name)
      (hi : m.instances[name]? = some i) (hrunning : i.status = .running) :
      OperationStep s m e name (.updateInstanceStatus name "running")
  | other {e : Entry} {name : String} {step : Step} (h : step.keeps = true) :
      OperationStep s m e name step

/-- The steps of an operation on an instance that exists. -/
theorem Hands.steps (hs : m.Sound) (h : Hands s m e w) :
    ∀ step ∈ w.steps, OperationStep s m e w.inst step := by
  intro step hstep
  cases h with
  | @destroy name id i hc =>
    obtain ⟨node, hnode, hstep⟩ := Work.mem_steps.1 hstep
    have hall : AllSteps (OperationStep s m (.destroy name) name)
        (destroyNodes name (i.withStatus .destroying)) :=
      destroyNodes_all (fun _ hkeeps => .other hkeeps) _ _ .destroyed
    exact hall node hnode step hstep
  | @scaleout name id role region az shard i plan hc =>
    obtain ⟨hi, hrunning⟩ := Submission.scaleoutCheck_ok hc
    simp only [Work.steps, scaleoutNodes, simpleNode, List.flatMap_cons, List.flatMap_nil,
      List.append_nil, List.mem_append, List.mem_cons, List.not_mem_nil, or_false] at hstep
    rcases hstep with (rfl | rfl) | rfl | rfl | rfl | rfl
    · exact .slave hc
    · exact .other rfl
    · exact .other rfl
    · exact .other rfl
    · exact .joins hc
    · exact .running (by rintro _ ⟨⟩) hi hrunning
  | @replace inst node host id i hc =>
    obtain ⟨hi, hrunning⟩ := Submission.replaceCheck_ok hc
    have hdone : OperationStep s m (.replaceNode inst node host) (trimmed inst)
        (.updateInstanceStatus i.name "running") := by
      rw [hs.named _ _ hi]
      exact .running (by rintro _ ⟨⟩) hi hrunning
    simp only [Work.steps, replaceNodes, simpleNode, List.flatMap_cons, List.flatMap_nil,
      List.append_nil, List.mem_cons, List.not_mem_nil, or_false] at hstep
    rcases hstep with rfl | rfl | rfl
    · exact .core hc
    · exact .commit hc
    · exact hdone
  | @migrate inst region az csv id hc =>
    obtain ⟨i, hi, hrunning⟩ := Submission.migrateCheck_running hc
    simp only [Work.steps, migrateNodes, simpleNode, List.flatMap_cons, List.flatMap_nil,
      List.append_nil, List.mem_cons, List.not_mem_nil, or_false] at hstep
    rcases hstep with rfl | rfl
    · exact .moves
    · exact .running (by rintro _ ⟨⟩) hi hrunning
  | backup =>
    simp only [Work.steps, backupNodes, simpleNode, List.flatMap_cons, List.flatMap_nil,
      List.append_nil, List.mem_cons, List.not_mem_nil, or_false] at hstep
    rcases hstep with rfl | rfl <;> exact .other rfl
  | reparent => cases hstep
  | rollback => cases hstep

end

end Rdsctl.Inst
