import Rdsctl.Inst.Fresh
import Rdsctl.Inst.Stale

/-!
# Nodes that a scale-out plans

What `scaleout_opt` settles for a record whose names are as they should be: the new node is the next
member of its group, under the master of the group, and its server id is that of the master and the
number of the member.
-/

namespace Rdsctl.Inst

open Ha Dag Topology

/-- The master that a scale-out adds a slave to. -/
def scaleoutSource (i : RdsInstance) (shard : Option String) : Option InstNode :=
  if i.shards = [] then i.master
  else i.nodes.find? fun n => n.role = .master ∧ n.shard = shard.getD ""

/-- The server id of a new slave of this master. -/
def scaleoutSid (i : RdsInstance) (n : InstNode) : Nat :=
  n.serverId + if i.shards = [] then i.slaves.length + 1 else nextShardSlaveIdx i.nodes n.shard

/-- The node that a scale-out plans. -/
def ScaleoutPlan.node (plan : ScaleoutPlan) (i : RdsInstance) (role : Role) : Member :=
  ⟨plan.container, roleNamed (scaleoutRole role), i.shardFor plan.shard, i.parentFor plan.parent⟩

theorem roleNamed_ne_master (role : String) : roleNamed role ≠ .master := by
  unfold roleNamed
  split_ifs <;> nofun

section

variable {i : RdsInstance}

theorem topology_members (i : RdsInstance) :
    i.topology.members.map (·.container) = i.nodes.map (·.container) := by
  unfold RdsInstance.topology
  rw [List.map_map]
  rfl

theorem masterCnt_eq (i : RdsInstance) :
    masterCnt i = (i.topology.members.filter (·.isMaster)).length := by
  unfold masterCnt RdsInstance.topology
  rw [← List.countP_eq_length_filter, List.countP_map]
  rfl

theorem slaves_length (i : RdsInstance) : i.slaves.length + masterCnt i = i.nodes.length := by
  unfold RdsInstance.slaves masterCnt
  have hsplit := i.nodes.length_eq_countP_add_countP (p := fun n => n.role = .master)
  rw [← List.countP_eq_length_filter]
  simp only [decide_not, Bool.decide_eq_true] at hsplit ⊢
  omega

/-- The first master is one. -/
theorem master_mem {m : InstNode} (h : i.master = some m) :
    m.member ∈ i.topology.members ∧ m.member.isMaster = true := by
  refine ⟨List.mem_map_of_mem (List.mem_of_find?_eq_some h), ?_⟩
  have hrole : m.role = .master := by simpa using List.find?_some h
  exact Member.isMaster_iff.2 hrole

/-- The container of the first master, as the topology tells it. -/
theorem masterC_eq (i : RdsInstance) :
    masterC i = ((i.topology.members.find? (·.isMaster)).map (·.container)).getD "" := by
  unfold masterC RdsInstance.master RdsInstance.topology
  rw [List.find?_map, Option.map_map]
  rfl

/-- A node that a scale-out plans is admitted by every record with the topology that it read. -/
theorem Admits.of_topology {i' : RdsInstance} {container shard parent : String} {role : Role}
    (h : Admits i.topology ⟨container, role, i.shardFor shard, i.parentFor parent⟩)
    (ht : i'.topology = i.topology) (hshard : i.shards = [] ∨ shard ≠ "") :
    Admits i'.topology ⟨container, role, i'.shardFor shard, i'.parentFor parent⟩ := by
  have hparent : i'.parentFor parent = i.parentFor parent := by
    unfold RdsInstance.parentFor
    rw [masterC_eq, masterC_eq, ht]
  rw [ht, hparent]
  rcases hshard with hrows | hne
  · have hrows' : i.topology.rows = [] := hrows
    obtain ⟨sh, hsh, -, hname, hsource⟩ := h.member
    exact ⟨h.raft, h.slave, fun hno => absurd hrows' hno, sh, hsh, inGroup_iff.2 (.inl hrows'), hname,
      hsource⟩
  · have hsame : i'.shardFor shard = i.shardFor shard := by
      unfold RdsInstance.shardFor
      rw [if_neg hne, if_neg hne]
    rw [hsame]
    exact h

/-- The numbers of the members of a group. -/
theorem foldl_max_range (n : Nat) : (List.range (n + 1)).foldl max 0 = n := by
  induction n with
  | zero => rfl
  | succ n ih =>
    rw [List.range_succ, List.foldl_append, ih]
    simp

/-- The next number in a group whose names are as they should be. -/
theorem nextShardSlaveIdx_eq {nodes : List InstNode} {sh stem : String} {n : Nat}
    (h : (nodes.filter (·.shard = sh)).map (·.container) = memberNames stem (n + 1))
    (hn : n < 2 ^ 64) : nextShardSlaveIdx nodes sh = n + 1 := by
  have hfold : (nodes.filter (·.shard = sh)).foldl (fun best m => max best
      ((parseUInt (2 ^ 64) (lastPiece m.container).toList).getD 0)) 0 =
        ((nodes.filter (·.shard = sh)).map (·.container)).foldl (fun best c => max best
          ((parseUInt (2 ^ 64) (lastPiece c).toList).getD 0)) 0 := by
    rw [List.foldl_map]
  unfold nextShardSlaveIdx
  rw [hfold, h, memberNames, List.foldl_map]
  have hparse : ∀ (ks : List Nat) (b : Nat), (∀ k ∈ ks, k < 2 ^ 64) →
      ks.foldl (fun best k => max best
        ((parseUInt (2 ^ 64) (lastPiece (memberName stem k)).toList).getD 0)) b =
          ks.foldl max b := by
    intro ks
    induction ks with
    | nil => exact fun _ _ => rfl
    | cons k ks ih =>
      intro b hks
      rw [List.foldl_cons, List.foldl_cons, parse_memberName stem (hks k (.head _)),
        ih _ fun k' hk' => hks k' (.tail _ hk')]
  rw [hparse _ _ fun k hk => ?_, foldl_max_range]
  have hlt := List.mem_range.1 hk
  omega

variable {name : String} {role : Role} {shard : Option String} {plan : ScaleoutPlan}

theorem scaleoutSingle_ok (h : scaleoutSingle name i role = .ok plan) :
    ∃ m, i.master = some m ∧ plan = ⟨m.host, slaveName name (i.slaves.length + 1),
      m.serverId + (i.slaves.length + 1), "", ""⟩ := by
  unfold scaleoutSingle at h
  obtain ⟨-, h⟩ := Submission.check_eq_ok h
  cases hm : i.master with
  | none => rw [hm] at h; cases h
  | some m =>
    rw [hm] at h
    cases h
    exact ⟨m, rfl, rfl⟩

theorem scaleoutMulti_ok (h : scaleoutMulti name i role shard = .ok plan) :
    ∃ sh m, shard = some sh ∧ sh ≠ "" ∧
      i.nodes.find? (fun n => n.role = .master ∧ n.shard = sh) = some m ∧
      plan = ⟨m.host, shardSlaveName name sh (nextShardSlaveIdx i.nodes sh),
        m.serverId + nextShardSlaveIdx i.nodes sh, sh, m.container⟩ := by
  unfold scaleoutMulti at h
  cases hfilter : shard.filter (· ≠ "") with
  | none => rw [hfilter] at h; cases h
  | some sh =>
    obtain ⟨hshard, hne⟩ := Option.filter_eq_some_iff.1 hfilter
    rw [hfilter] at h
    obtain ⟨-, h⟩ := Submission.check_eq_ok h
    obtain ⟨-, h⟩ := Submission.check_eq_ok h
    cases hm : i.nodes.find? (fun n => n.role = .master ∧ n.shard = sh) with
    | none => rw [hm] at h; cases h
    | some m =>
      rw [hm] at h
      cases h
      exact ⟨sh, m, hshard, by simpa using hne, hm, rfl⟩

/-- What a scale-out has checked of the record that it plans for. -/
theorem scaleoutCheck_plan {m : Manager} (h : scaleoutCheck name role shard m = .ok (i, plan)) :
    i.itype ≠ "xenon" ∧ scaleoutPlan name i role shard = .ok plan := by
  unfold scaleoutCheck at h
  obtain ⟨j, -, hbody⟩ := Submission.bind_eq_ok h
  replace hbody : (if j.itype = "xenon" then .error _
    else if j.enabled = false then .error _
    else scaleoutPlan name j role shard >>= fun plan => .ok (j, plan) :
    Except String (RdsInstance × ScaleoutPlan)) = .ok (i, plan) := hbody
  split at hbody
  · cases hbody
  next hx =>
    split at hbody
    · cases hbody
    obtain ⟨plan', hplan, heq⟩ := Submission.bind_eq_ok hbody
    cases heq
    exact ⟨hx, hplan⟩

/-- A scale-out of one group plans its next member. -/
theorem admits_single (hn : Named i.topology) (hname : i.name = name) (hx : i.itype ≠ "xenon")
    (hrows : i.shards = []) (h : scaleoutPlan name i role shard = .ok plan) :
    Admits i.topology (plan.node i role) ∧
      ∃ m, scaleoutSource i shard = some m ∧ plan.serverId = scaleoutSid i m := by
  have hraft : i.topology.xenon = false := by simpa [RdsInstance.topology] using hx
  obtain ⟨s, hs⟩ := hn.one hraft hrows
  have hcnt : masterCnt i = 1 := by rw [masterCnt_eq, hs]; rfl
  unfold scaleoutPlan at h
  rw [if_pos (by omega)] at h
  obtain ⟨m, hm, rfl⟩ := scaleoutSingle_ok h
  have hlength := slaves_length i
  have hrows' : i.topology.rows = [] := hrows
  constructor
  · refine ⟨hraft, Member.isMaster_eq_false.2 (roleNamed_ne_master _), fun hno => absurd hrows hno,
      "", by simp [groupIds_of_rows hrows'], inGroup_iff.2 (.inl hrows), ?_, m.member, ?_⟩
    · rw [group_of_rows hrows', stem, if_pos hrows']
      have hsize : i.topology.members.length = i.slaves.length + 1 := by
        rw [RdsInstance.topology, List.length_map]
        omega
      rw [hsize, ← slaveName_eq, ← hname]
      rfl
    · rw [group_of_rows hrows']
      refine ⟨(master_mem hm).1, (master_mem hm).2, ?_⟩
      simp [ScaleoutPlan.node, RdsInstance.parentFor, masterC, hm, InstNode.member]
  · refine ⟨m, (if_pos hrows).trans hm, ?_⟩
    rw [scaleoutSid, if_pos hrows]

/-- A scale-out of a shard plans the next member of its group. -/
theorem admits_multi (hn : Named i.topology) (hname : i.name = name) (hx : i.itype ≠ "xenon")
    (hrows : i.shards ≠ []) (hmasters : 1 < masterCnt i) (hsize : i.nodes.length < 2 ^ 63)
    (h : scaleoutPlan name i role shard = .ok plan) :
    Admits i.topology (plan.node i role) ∧
      ∃ m, scaleoutSource i shard = some m ∧ plan.serverId = scaleoutSid i m ∧
        plan.shard = m.shard ∧ plan.shard ≠ "" := by
  have hraft : i.topology.xenon = false := by simpa [RdsInstance.topology] using hx
  unfold scaleoutPlan at h
  rw [if_neg (by omega)] at h
  obtain ⟨sh, m, rfl, hne, hm, rfl⟩ := scaleoutMulti_ok h
  have hspec := List.find?_some hm
  simp only [decide_eq_true_eq] at hspec
  have hmem : m.member ∈ i.topology.members := List.mem_map_of_mem (List.mem_of_find?_eq_some hm)
  have hrows' : i.topology.rows ≠ [] := hrows
  have hsh : sh ∈ i.topology.groupIds := by
    rw [groupIds, if_neg hrows', ← hspec.2]
    exact hn.belongs hrows _ hmem
  have hgroup : (i.nodes.filter (·.shard = sh)).map InstNode.member = i.topology.group sh := by
    unfold group RdsInstance.topology
    rw [List.filter_map]
    refine congrArg _ (List.filter_congr fun n _ => ?_)
    simp [inGroup, hrows, InstNode.member]
  have hin : m.member ∈ i.topology.group sh := mem_group.2 ⟨hmem, .inr hspec.2⟩
  obtain ⟨k, hk⟩ : ∃ k, (i.topology.group sh).length = k + 1 :=
    ⟨_, (Nat.succ_pred_eq_of_pos (List.length_pos_of_mem hin)).symm⟩
  have hcontainers : (i.nodes.filter (·.shard = sh)).map (·.container) =
      memberNames (i.topology.stem sh) (k + 1) := by
    rw [← hk, ← hn.members hraft sh hsh, ← hgroup, List.map_map]
    rfl
  have hbound : k < 2 ^ 64 := by
    have hle : (i.topology.group sh).length ≤ i.topology.members.length :=
      List.length_filter_le _ _
    rw [RdsInstance.topology, List.length_map] at hle
    have hlt : i.nodes.length < 2 ^ 63 := hsize
    have hsmall : (2 : Nat) ^ 63 < 2 ^ 64 := by decide
    have hk' : k + 1 ≤ i.nodes.length := hk ▸ hle
    omega
  have hnext : nextShardSlaveIdx i.nodes sh = k + 1 := nextShardSlaveIdx_eq hcontainers hbound
  constructor
  · refine ⟨hraft, Member.isMaster_eq_false.2 (roleNamed_ne_master _), fun _ => ?_, sh, hsh,
      inGroup_iff.2 (.inr ?_), ?_, m.member, hin, Member.isMaster_iff.2 hspec.1, ?_⟩
    · simpa only [ScaleoutPlan.node, RdsInstance.shardFor, hne, if_false] using hne
    · simp [ScaleoutPlan.node, RdsInstance.shardFor, hne]
    · rw [hk, stem, if_neg hrows', hnext, shardSlaveName_eq, ← hname]
      rfl
    · have hc : m.container ≠ "" := by
        have hname' : m.container ∈ memberNames (i.topology.stem sh) (k + 1) := by
          rw [← hcontainers]
          exact List.mem_map_of_mem (List.mem_filter.2
            ⟨List.mem_of_find?_eq_some hm, by simpa using hspec.2⟩)
        obtain ⟨j, -, hj⟩ := mem_memberNames.1 hname'
        rw [← hj]
        intro hempty
        have hlength := congrArg (fun s => s.toList.length) hempty
        cases j <;> simp [memberName] at hlength
      simp [ScaleoutPlan.node, RdsInstance.parentFor, hc, InstNode.member]
  · refine ⟨m, (if_neg hrows).trans hm, ?_, hspec.2.symm, hne⟩
    rw [scaleoutSid, if_neg hrows, hspec.2]

end

end Rdsctl.Inst
