import Rdsctl.Inst.WellFormed

/-!
# Topologies of plans

The topologies that `build_single_inst`, `build_multi_inst` and `build_xenon_inst` plan have the names
that they should, and are well formed but for a xenon instance of several members, whose members have
no parent.
-/

namespace Rdsctl.Inst

open Ha Dag Topology

theorem map_mapIdx {α β γ : Type} (l : List α) (f : Nat → α → β) (g : β → γ) :
    (l.mapIdx f).map g = l.mapIdx fun k a => g (f k a) := by
  refine List.ext_getElem? fun k => ?_
  simp [Function.comp_def]

/-! ## Access -/

theorem proxyNodeList_containers (name : String) (n : Nat) (ports : Nat → Nat) :
    (proxyNodeList name n ports).map (·.container) =
      (List.range n).map fun k => proxyName name (k + 1) := by
  simp [proxyNodeList]

/-! ## One shard -/

section Single

variable (p : Process) (name : String) (o : CreateOpts) (network : String) (masterSid : Nat)
  (lvsPort n : Nat) (ports nodePorts : Nat → Nat)

theorem slaveRoles_cases (itype : String) :
    slaveRoles itype = [] ∨ slaveRoles itype = [.read] ∨ slaveRoles itype = [.read, .offline] := by
  unfold slaveRoles
  split_ifs <;> simp

/-- The topology of an instance with one shard. -/
def singleTopology (shard name : String) (roles : List Role) (n : Nat) : Topology where
  name := name
  xenon := false
  rows := []
  members := ⟨masterName name, .master, shard, ""⟩ ::
    roles.mapIdx fun k role => ⟨slaveName name (k + 1), role, shard, masterName name⟩
  proxies := (List.range n).map fun k => proxyName name (k + 1)
  access := lvsName name

theorem topology_buildSingleInst (hx : o.itype ≠ "xenon") :
    (buildSingleInst p name o network masterSid (proxyNodeList name n ports) (lvsName name) lvsPort
      nodePorts).1.topology = singleTopology p.shard name (slaveRoles o.itype) n := by
  unfold buildSingleInst freshInstance RdsInstance.topology singleTopology singleNodes
  simp only [proxyNodeList_containers, hx, decide_false, List.map_cons, map_mapIdx]
  rfl

/-- The only group of an instance with one shard. -/
theorem groupOk_single (shard : String) {roles : List Role}
    (h : roles = [] ∨ roles = [.read] ∨ roles = [.read, .offline]) :
    GroupOk (singleTopology shard name roles n).members ⟨masterName name, .master, shard, ""⟩ := by
  have hmaster : (singleTopology shard name roles n).members.filter (·.isMaster) =
      [⟨masterName name, .master, shard, ""⟩] := by
    rcases h with rfl | rfl | rfl <;> rfl
  refine ⟨hmaster, fun m hm hslave => ?_⟩
  rcases List.mem_cons.1 hm with rfl | hm
  · cases hslave
  · obtain ⟨k, hk, rfl⟩ := List.mem_mapIdx.1 hm
    rfl

theorem named_single (shard : String) {roles : List Role}
    (h : roles = [] ∨ roles = [.read] ∨ roles = [.read, .offline]) :
    Named (singleTopology shard name roles n) where
  belongs := fun hrows => absurd rfl hrows
  rowIds := rfl
  members := by
    intro _ sh _
    rw [group_of_rows rfl]
    rcases h with rfl | rfl | rfl <;> rfl
  raft := fun hx => by cases hx
  one := fun _ _ => ⟨_, (groupOk_single name n shard h).master⟩
  proxies := by simp [singleTopology]
  access := .inr rfl

theorem wellFormed_single (shard : String) {roles : List Role}
    (h : roles = [] ∨ roles = [.read] ∨ roles = [.read, .offline]) :
    WellFormed (singleTopology shard name roles n) where
  belongs := fun hrows => absurd rfl hrows
  groups := by
    intro sh _
    rw [group_of_rows rfl]
    exact ⟨_, groupOk_single name n shard h, fun row hrow => by cases hrow⟩

end Single

/-! ## Several shards -/

section Multi

variable (p : Process) (name : String) (o : CreateOpts) (shardN firstSid : Nat) (network : String)
  (lvsPort n : Nat) (ports nodePorts : Nat → Nat)

/-- The members of a group that is planned. -/
def MultiGroup.members (g : MultiGroup) : List Member :=
  [⟨g.masterC, .master, g.shardId, ""⟩, ⟨g.readC, .read, g.shardId, g.masterC⟩] ++
  match g.offlineC with
  | some c => [⟨c, .offline, g.shardId, g.masterC⟩]
  | none => []

theorem MultiGroup.member_nodes (g : MultiGroup) (region az : String) (ports : Nat → Nat) :
    (g.nodes region az ports).map InstNode.member = g.members := by
  unfold MultiGroup.nodes MultiGroup.members
  cases g.offlineC <;> rfl

/-- The topology of an instance with several shards. -/
def multiTopology (name itype : String) (shardN firstSid n : Nat) : Topology where
  name := name
  xenon := false
  rows := (multiGroups name itype shardN firstSid).map (·.row)
  members := (multiGroups name itype shardN firstSid).flatMap (·.members)
  proxies := (List.range n).map fun k => proxyName name (k + 1)
  access := lvsName name

theorem topology_buildMultiInst (hx : o.itype ≠ "xenon") :
    (buildMultiInst p name o shardN firstSid network (proxyNodeList name n ports) (lvsName name)
      lvsPort nodePorts).1.topology = multiTopology name o.itype shardN firstSid n := by
  have hmembers : (multiNodes p name o shardN firstSid nodePorts).map InstNode.member =
      (multiGroups name o.itype shardN firstSid).flatMap (·.members) := by
    unfold multiNodes
    rw [List.map_flatten, map_mapIdx]
    simp only [MultiGroup.member_nodes]
    rw [List.flatMap_def]
    refine congrArg _ (List.ext_getElem? fun k => ?_)
    simp
  unfold buildMultiInst freshInstance RdsInstance.topology multiTopology
  simp only [proxyNodeList_containers, hx, decide_false, hmembers]

theorem MultiGroup.shard_of_mem {g : MultiGroup} {m : Member} (h : m ∈ g.members) :
    m.shard = g.shardId := by
  unfold MultiGroup.members at h
  cases hoff : g.offlineC with
  | none =>
    simp only [hoff, List.append_nil, List.mem_cons, List.not_mem_nil, or_false] at h
    rcases h with rfl | rfl <;> rfl
  | some c =>
    simp only [hoff, List.cons_append, List.nil_append, List.mem_cons, List.not_mem_nil,
      or_false] at h
    rcases h with rfl | rfl | rfl <;> rfl

/-- The members of one of several groups. -/
theorem filter_groups {gs : List MultiGroup} (hnd : (gs.map (·.shardId)).Nodup) {g : MultiGroup}
    (hg : g ∈ gs) : (gs.flatMap (·.members)).filter (fun m => m.shard = g.shardId) = g.members := by
  induction gs with
  | nil => cases hg
  | cons g' gs ih =>
    rw [List.map_cons, List.nodup_cons] at hnd
    rw [List.flatMap_cons, List.filter_append]
    rcases List.mem_cons.1 hg with rfl | hg
    · have hself : g.members.filter (fun m => m.shard = g.shardId) = g.members :=
        List.filter_eq_self.2 fun m hm => by simpa using MultiGroup.shard_of_mem hm
      have hrest : (gs.flatMap (·.members)).filter (fun m => m.shard = g.shardId) = [] := by
        refine List.filter_eq_nil_iff.2 fun m hm => ?_
        obtain ⟨g', hg', hm⟩ := List.mem_flatMap.1 hm
        simp only [decide_eq_true_eq]
        intro heq
        rw [MultiGroup.shard_of_mem hm] at heq
        exact hnd.1 (heq ▸ List.mem_map_of_mem hg')
      rw [hself, hrest, List.append_nil]
    · have hnone : g'.members.filter (fun m => m.shard = g.shardId) = [] := by
        refine List.filter_eq_nil_iff.2 fun m hm => ?_
        simp only [decide_eq_true_eq]
        intro heq
        rw [MultiGroup.shard_of_mem hm] at heq
        exact hnd.1 (heq ▸ List.mem_map_of_mem hg)
      rw [hnone, List.nil_append, ih hnd.2 hg]

theorem shardIds_multiGroups (itype : String) : (multiGroups name itype shardN firstSid).map
    (·.shardId) = (List.range shardN).map fun k => shardId (k + 1) := by
  unfold multiGroups
  rw [List.map_map]
  rfl

variable {name shardN firstSid n} {itype : String}

/-- The group of a shard that is planned. -/
theorem group_multi (hshards : 1 < shardN) {sh : String}
    (hsh : sh ∈ (multiTopology name itype shardN firstSid n).groupIds) :
    ∃ k, k < shardN ∧ sh = shardId (k + 1) ∧
      (multiTopology name itype shardN firstSid n).group sh =
        (multiGroup name itype (k + 1) (firstSid + 10 * k)).members := by
  have hrows : (multiTopology name itype shardN firstSid n).rows ≠ [] := by
    have hne : shardN ≠ 0 := by omega
    simp [multiTopology, multiGroups, hne]
  rw [groupIds, if_neg hrows] at hsh
  simp only [multiTopology, multiGroups, List.map_map, List.mem_map, List.mem_range] at hsh
  obtain ⟨k, hk, rfl⟩ := hsh
  refine ⟨k, hk, rfl, ?_⟩
  have hnd : ((multiGroups name itype shardN firstSid).map (·.shardId)).Nodup := by
    rw [shardIds_multiGroups]
    exact List.nodup_range.map fun _ _ heq => Nat.succ_inj.1 (shardId_inj heq)
  have hmem : multiGroup name itype (k + 1) (firstSid + 10 * k) ∈
      multiGroups name itype shardN firstSid :=
    List.mem_map.2 ⟨k, List.mem_range.2 hk, rfl⟩
  refine Eq.trans (List.filter_congr fun m _ => ?_) (filter_groups hnd hmem)
  simp only [inGroup, hrows, false_or]
  rfl

theorem rows_multi (hshards : 1 < shardN) :
    (multiTopology name itype shardN firstSid n).rows ≠ [] := by
  have hne : shardN ≠ 0 := by omega
  simp [multiTopology, multiGroups, hne]

theorem groupOk_multi (k sid : Nat) : GroupOk (multiGroup name itype k sid).members
    ⟨shardMasterName name k, .master, shardId k, ""⟩ := by
  unfold multiGroup MultiGroup.members
  by_cases hasync : itype = "async"
  · simp only [hasync, if_true]
    refine ⟨rfl, fun m hm hslave => ?_⟩
    simp only [List.cons_append, List.nil_append, List.mem_cons, List.not_mem_nil, or_false] at hm
    rcases hm with rfl | rfl | rfl
    · cases hslave
    · rfl
    · rfl
  · simp only [hasync, if_false]
    refine ⟨rfl, fun m hm hslave => ?_⟩
    simp only [List.append_nil, List.mem_cons, List.not_mem_nil, or_false] at hm
    rcases hm with rfl | rfl
    · cases hslave
    · rfl

theorem rowOk_multi (k sid : Nat) : RowOk (multiGroup name itype k sid).row
    (multiGroup name itype k sid).members ⟨shardMasterName name k, .master, shardId k, ""⟩ := by
  unfold multiGroup MultiGroup.members MultiGroup.row
  by_cases hasync : itype = "async"
  · simp only [hasync, if_true]
    exact ⟨rfl, rfl, .head _⟩
  · simp only [hasync, if_false]
    exact ⟨rfl, rfl, .head _⟩

theorem named_multi (hshards : 1 < shardN) :
    Named (multiTopology name itype shardN firstSid n) where
  belongs := by
    intro _ m hm
    obtain ⟨g, hg, hm⟩ := List.mem_flatMap.1 hm
    rw [MultiGroup.shard_of_mem hm]
    simp only [multiTopology, List.map_map]
    exact List.mem_map.2 ⟨g, hg, rfl⟩
  rowIds := by
    simp only [multiTopology, List.map_map, List.length_map]
    refine (shardIds_multiGroups name shardN firstSid itype).trans ?_
    rw [show (multiGroups name itype shardN firstSid).length = shardN by simp [multiGroups]]
  members := by
    intro _ sh hsh
    obtain ⟨k, -, rfl, hgroup⟩ := group_multi hshards hsh
    rw [hgroup, stem, if_neg (rows_multi hshards)]
    unfold multiGroup MultiGroup.members
    by_cases hasync : itype = "async"
    · simp only [hasync, if_true]
      rfl
    · simp only [hasync, if_false]
      rfl
  raft := fun hx => by cases hx
  one := fun _ hrows => absurd hrows (rows_multi hshards)
  proxies := by simp [multiTopology]
  access := .inr rfl

theorem wellFormed_multi (hshards : 1 < shardN) :
    WellFormed (multiTopology name itype shardN firstSid n) where
  belongs := (named_multi hshards).belongs
  groups := by
    intro sh hsh
    obtain ⟨k, -, rfl, hgroup⟩ := group_multi hshards hsh
    rw [hgroup]
    refine ⟨_, groupOk_multi _ _, fun row hrow hid => ?_⟩
    simp only [multiTopology, multiGroups, List.map_map, List.mem_map] at hrow
    obtain ⟨k', -, rfl⟩ := hrow
    have hsame : k' = k := Nat.succ_inj.1 (shardId_inj hid)
    subst hsame
    exact rowOk_multi _ _

end Multi

/-! ## Members of xenon -/

section Xenon

variable {p : Process} {name : String} {o : CreateOpts} {firstSid : Nat} {network : String}
  {ports : Nat → Nat} {plan : RdsInstance × List (TaskNode Step)}

theorem buildXenonInst_ok (h : buildXenonInst p name o firstSid network ports = .ok plan) :
    plan.1.topology.name = name ∧ plan.1.topology.xenon = true ∧ plan.1.topology.rows = [] ∧
      plan.1.nodes = (List.range (xenonCount o)).map (xenonNode name firstSid ports) ∧
      plan.1.topology.proxies =
        (List.range (min o.xenonProxy 4)).map (fun k => proxyName name (k + 1)) ∧
      (plan.1.topology.access = "" ∨ plan.1.topology.access = lvsName name) := by
  unfold buildXenonInst at h
  dsimp only at h
  split at h
  · cases h
  · cases h
    refine ⟨rfl, rfl, rfl, rfl, ?_, ?_⟩
    · simp only [RdsInstance.topology, freshInstance, proxyNodeList_containers]
    simp only [RdsInstance.topology, freshInstance]
    split
    · exact .inl rfl
    · exact .inr rfl

theorem named_xenon (h : buildXenonInst p name o firstSid network ports = .ok plan) :
    Named plan.1.topology := by
  obtain ⟨hname, hx, hrows, hnodes, hproxies, haccess⟩ := buildXenonInst_ok h
  have hmembers : plan.1.topology.members =
      (List.range (xenonCount o)).map fun k => (xenonNode name firstSid ports k).member := by
    show plan.1.nodes.map InstNode.member = _
    rw [hnodes, List.map_map]
    rfl
  constructor
  · exact fun hno => absurd hrows hno
  · rw [hrows]
    rfl
  · exact fun hno => by rw [hx] at hno; cases hno
  · refine fun _ => ⟨hrows, ?_⟩
    rw [hmembers, List.length_map, List.length_range, List.map_map, hname]
    rfl
  · exact fun hno => by rw [hx] at hno; cases hno
  · rw [hproxies, List.length_map, List.length_range, hname]
  · rw [hname]
    exact haccess

theorem wellFormed_xenon (h : buildXenonInst p name o firstSid network ports = .ok plan)
    (hone : xenonCount o = 1) : WellFormed plan.1.topology := by
  obtain ⟨-, -, hrows, hnodes, -, -⟩ := buildXenonInst_ok h
  have hmembers : plan.1.topology.members = [(xenonNode name firstSid ports 0).member] := by
    show plan.1.nodes.map InstNode.member = _
    rw [hnodes, hone]
    rfl
  refine ⟨fun hno => absurd hrows hno, fun sh _ => ?_⟩
  rw [group_of_rows hrows, hmembers]
  refine ⟨_, ⟨rfl, fun m hm hslave => ?_⟩, fun row hrow => ?_⟩
  · rw [List.mem_singleton.1 hm] at hslave
    cases hslave
  · rw [hrows] at hrow
    cases hrow

end Xenon

end Rdsctl.Inst
