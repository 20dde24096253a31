import Rdsctl.Inst.Orderly

/-!
# Server ids

The server ids of a group are different when the record is created, and stay so when a node joins with
an id that is new to its group and when a node gets an id that the others do not have.
-/

namespace Rdsctl.Inst

open Ha Dag Topology

/-- Within each group server ids are different. -/
def IdsApart (t : Topology) (nodes : List InstNode) : Prop :=
  ∀ sh ∈ t.groupIds, ((nodes.filter fun n => t.inGroup sh n.member).map (·.serverId)).Nodup

section

variable {t : Topology} {nodes : List InstNode} {i : RdsInstance}

theorem inGroup_member {sh : String} {n : InstNode} :
    t.inGroup sh n.member = true ↔ t.rows = [] ∨ n.shard = sh := inGroup_iff

/-- Ids that are all different are different within each group. -/
theorem IdsApart.of_nodup (h : (nodes.map (·.serverId)).Nodup) : IdsApart t nodes :=
  fun _ _ => h.sublist (List.filter_sublist.map _)

/-- An update that groups and ids do not notice. -/
theorem IdsApart.map (h : IdsApart t nodes) {f : InstNode → InstNode}
    (hshard : ∀ n, (f n).shard = n.shard) (hid : ∀ n, (f n).serverId = n.serverId) :
    IdsApart t (nodes.map f) := by
  intro sh hsh
  have hfilter : (nodes.map f).filter (fun n => t.inGroup sh n.member) =
      (nodes.filter fun n => t.inGroup sh n.member).map f := by
    rw [List.filter_map]
    refine congrArg _ (List.filter_congr fun n _ => ?_)
    show decide _ = decide _
    rw [show (f n).member.shard = n.member.shard from hshard n]
  rw [hfilter, List.map_map]
  simp only [Function.comp_def, hid]
  exact h sh hsh

theorem IdsApart.swapRoles (h : IdsApart i.topology i.nodes) (old cand : String) :
    IdsApart (i.swapRoles old cand).topology (i.swapRoles old cand).nodes := by
  rw [RdsInstance.topology_swapRoles]
  have hmap : IdsApart i.topology (i.nodes.map (·.swapped old cand)) := by
    refine h.map (fun n => ?_) fun n => ?_
    · unfold InstNode.swapped
      split_ifs <;> rfl
    · unfold InstNode.swapped
      split_ifs <;> rfl
  exact hmap

theorem IdsApart.atSite (h : IdsApart i.topology i.nodes) (region az : String) :
    IdsApart (i.atSite region az).topology (i.atSite region az).nodes := by
  rw [RdsInstance.topology_atSite]
  exact h.map (fun _ => rfl) fun _ => rfl

/-- A node joins with an id that its group does not have. -/
theorem IdsApart.addNode (h : IdsApart i.topology i.nodes)
    {container role region az shard parent : String} {hostPort sid : Nat}
    (hnew : ∀ n ∈ i.nodes, i.shards = [] ∨ n.shard = i.shardFor shard → n.serverId ≠ sid) :
    IdsApart (i.addNode container role hostPort sid region az shard parent).topology
      (i.addNode container role hostPort sid region az shard parent).nodes := by
  rw [RdsInstance.topology_addNode]
  intro sh hsh
  rw [join_groupIds] at hsh
  rw [join_inGroup]
  show ((i.nodes ++ [i.newNode container role hostPort sid region az shard parent]).filter _
    |>.map _).Nodup
  rw [List.filter_append, List.map_append, List.filter_singleton]
  cases hin : i.topology.inGroup sh
    (i.newNode container role hostPort sid region az shard parent).member with
  | true =>
    rw [cond_true, List.map_singleton]
    refine (h sh hsh).append (List.nodup_singleton _) fun id hid hid' => ?_
    obtain ⟨n, hn, rfl⟩ := List.mem_map.1 hid
    obtain ⟨hn, hgroup⟩ := List.mem_filter.1 hn
    refine hnew n hn ?_ (List.mem_singleton.1 hid')
    rcases inGroup_member.1 hgroup with hrows | hshard
    · exact .inl hrows
    · rcases inGroup_member.1 hin with hrows | hshard'
      · exact .inl hrows
      · exact .inr (hshard.trans hshard'.symm)
  | false =>
    rw [cond_false, List.map_nil, List.append_nil]
    exact h sh hsh

/-- A node gets an id that the others do not have. -/
theorem IdsApart.commitReplace (h : IdsApart i.topology i.nodes)
    (hnd : (i.nodes.map (·.container)).Nodup) {node host : String} {hostPort sid : Nat}
    (hnew : ∀ n ∈ i.nodes, n.container ≠ node → n.serverId ≠ sid) :
    IdsApart (i.commitReplace node host hostPort sid).topology
      (i.commitReplace node host hostPort sid).nodes := by
  rw [RdsInstance.topology_commitReplace]
  intro sh hsh
  have hnodes : (i.commitReplace node host hostPort sid).nodes = i.nodes.map fun n =>
      if n.container = node then { n with hostPort := hostPort, serverId := sid, host := node }
      else n := modifyFirst_eq_map hnd
  have hfilter : (i.commitReplace node host hostPort sid).nodes.filter
      (fun n => i.topology.inGroup sh n.member) =
      (i.nodes.filter fun n => i.topology.inGroup sh n.member).map fun n =>
        if n.container = node then { n with hostPort := hostPort, serverId := sid, host := node }
        else n := by
    rw [hnodes, List.filter_map]
    refine congrArg _ (List.filter_congr fun n _ => ?_)
    simp only [Function.comp_apply]
    split <;> rfl
  rw [hfilter, List.map_map]
  have hgroup : (i.nodes.filter fun n => i.topology.inGroup sh n.member).Nodup :=
    (List.Nodup.of_map _ hnd).filter _
  refine hgroup.map_on fun n hn n' hn' heq => ?_
  have hmem := List.mem_of_mem_filter hn
  have hmem' := List.mem_of_mem_filter hn'
  simp only [Function.comp_apply] at heq
  by_cases hc : n.container = node
  · by_cases hc' : n'.container = node
    · exact List.inj_on_of_nodup_map hnd hmem hmem' (hc.trans hc'.symm)
    · rw [if_pos hc, if_neg hc'] at heq
      exact absurd heq.symm (hnew n' hmem' hc')
  · by_cases hc' : n'.container = node
    · rw [if_neg hc, if_pos hc'] at heq
      exact absurd heq (hnew n hmem hc)
    · rw [if_neg hc, if_neg hc'] at heq
      exact List.inj_on_of_nodup_map (h sh hsh) hn hn' heq

theorem le_foldl_max {l : List Nat} {b k : Nat} (h : k ≤ b ∨ k ∈ l) : k ≤ l.foldl max b := by
  induction l generalizing b with
  | nil => exact h.resolve_right nofun
  | cons a l ih =>
    refine ih ?_
    rcases h with h | h
    · exact .inl (h.trans (le_max_left _ _))
    · rcases List.mem_cons.1 h with rfl | h
      · exact .inl (le_max_right _ _)
      · exact .inr h

theorem le_maxServerId {n : InstNode} (h : n ∈ i.nodes) : n.serverId ≤ i.maxServerId :=
  le_foldl_max (.inr (List.mem_map_of_mem h))

/-! ## Creations -/

/-- Nodes whose containers and ids come from numbers have different ids. -/
theorem nodup_of_numbers (hnd : (nodes.map (·.container)).Nodup) (name : Nat → String)
    (id : Nat → Nat) (hid : Function.Injective id)
    (h : ∀ n ∈ nodes, ∃ k, n.container = name k ∧ n.serverId = id k) :
    (nodes.map (·.serverId)).Nodup := by
  refine (List.Nodup.of_map _ hnd).map_on fun n hn n' hn' heq => ?_
  obtain ⟨k, hc, hs⟩ := h n hn
  obtain ⟨k', hc', hs'⟩ := h n' hn'
  rw [hs, hs'] at heq
  have hsame := hid heq
  subst hsame
  exact List.inj_on_of_nodup_map hnd hn hn' (hc.trans hc'.symm)

/-- The server ids of a creation. -/
theorem idsApart_created {s : Surroundings} {sid : Nat} {name : String} {o : CreateOpts}
    {plan : RdsInstance × List (TaskNode Step)} (h : Planned s sid name o plan) :
    IdsApart plan.1.topology plan.1.nodes := by
  have hnd : (plan.1.nodes.map (·.container)).Nodup := by
    rw [← topology_members]
    exact (Registry.named_created h).nodup
  refine .of_nodup ?_
  cases h with
  | @xenon plan ports hx hb =>
    have hnodes := (buildXenonInst_ok hb).2.2.2.1
    refine nodup_of_numbers hnd (fun k => xenonNodeC name (k + 1))
      (fun k => sid + 10 + 10 * k) (fun a b hab => by simp only at hab; omega) fun n hn => ?_
    rw [hnodes] at hn
    obtain ⟨k, -, rfl⟩ := List.mem_map.1 hn
    exact ⟨k, rfl, rfl⟩
  | @multi ports hx hm =>
    refine nodup_of_numbers hnd
      (fun k => memberName (shardStem name (shardId (k / 10 + 1))) (k % 10))
      (fun k => sid + 10 + k) (fun a b hab => by simp only at hab; omega) fun n hn => ?_
    obtain ⟨l, hl, hn⟩ := List.mem_flatten.1 hn
    obtain ⟨j, hj, rfl⟩ := List.mem_mapIdx.1 hl
    obtain ⟨k, -, hg⟩ := List.mem_map.1 (List.getElem_mem hj)
    rw [← hg] at hn
    have hnumber : ∀ r, r < 10 → (10 * k + r) / 10 + 1 = k + 1 ∧ (10 * k + r) % 10 = r := by omega
    have hof : ∀ r, r < 10 → n.container = memberName (shardStem name (shardId (k + 1))) r →
        n.serverId = sid + 10 + 10 * k + r → ∃ e,
          n.container = memberName (shardStem name (shardId (e / 10 + 1))) (e % 10) ∧
          n.serverId = sid + 10 + e := by
      intro r hr hc hs
      obtain ⟨hdiv, hmod⟩ := hnumber r hr
      exact ⟨10 * k + r, by rw [hdiv, hmod]; exact hc, by omega⟩
    simp only [MultiGroup.nodes, multiGroup] at hn
    by_cases hasync : o.itype = "async"
    · simp only [hasync, if_true, List.cons_append, List.nil_append, List.mem_cons,
        List.not_mem_nil, or_false] at hn
      rcases hn with rfl | rfl | rfl
      · exact hof 0 (by decide) rfl rfl
      · exact hof 1 (by decide) rfl rfl
      · exact hof 2 (by decide) rfl rfl
    · simp only [hasync, if_false, List.append_nil, List.mem_cons, List.not_mem_nil,
        or_false] at hn
      rcases hn with rfl | rfl
      · exact hof 0 (by decide) rfl rfl
      · exact hof 1 (by decide) rfl rfl
  | @single ports hx hm =>
    refine nodup_of_numbers hnd (memberName (stemOf name)) (fun k => sid + k)
      (fun a b hab => by simp only at hab; omega) fun n hn => ?_
    rcases List.mem_cons.1 hn with rfl | hn
    · exact ⟨0, rfl, rfl⟩
    · obtain ⟨k, hk, rfl⟩ := List.mem_mapIdx.1 hn
      exact ⟨k + 1, rfl, rfl⟩

end

end Rdsctl.Inst
