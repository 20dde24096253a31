import Rdsctl.Inst.Orderly

/-!
# Topologies over runs

Every record of a registry has a well formed topology, in every run in which no managed switch of an
instance with several shards goes through, no xenon instance with several members is created, and a
node joins once. A switch looks up neither the master nor the candidate by shard, and leaves the shard
rows as they are; the members of a xenon instance have no source.
-/

namespace Rdsctl.Inst

open Ha Dag Topology

instance (st : SwitchState) (e : SwitchEnv) (old cand mode : String) :
    Decidable (Proceeds st e old cand mode) :=
  inferInstanceAs (Decidable (_ ∧ _ ∧ _))

/-- The masters of different shards are different. -/
theorem WellFormed.masters {t : Topology} (h : WellFormed t) (hn : Named t)
    (hrows : 1 < t.rows.length) : 1 < (t.members.filter (·.isMaster)).length := by
  have hne : t.rows ≠ [] := fun heq => by rw [heq] at hrows; cases hrows
  have hmaster : ∀ k, k < t.rows.length → ∃ m ∈ t.members.filter (·.isMaster),
      m.shard = shardId (k + 1) := by
    intro k hk
    have hid : shardId (k + 1) ∈ t.groupIds := by
      rw [groupIds, if_neg hne, hn.rowIds]
      exact List.mem_map.2 ⟨k, List.mem_range.2 hk, rfl⟩
    obtain ⟨m, hm, -⟩ := h.groups _ hid
    obtain ⟨hmem, hmaster⟩ := mem_of_master hm.master
    obtain ⟨hmem, hshard⟩ := mem_group.1 hmem
    exact ⟨m, List.mem_filter.2 ⟨hmem, hmaster⟩, hshard.resolve_left hne⟩
  obtain ⟨m, hm, hshard⟩ := hmaster 0 (by omega)
  obtain ⟨m', hm', hshard'⟩ := hmaster 1 hrows
  generalize t.members.filter (·.isMaster) = masters at hm hm'
  rcases masters with _ | ⟨a, _ | ⟨b, l⟩⟩
  · cases hm
  · rw [List.mem_singleton] at hm hm'
    rw [hm, ← hm', hshard'] at hshard
    cases shardId_inj hshard
  · simp

namespace Registry

/-- A switch of an instance with several shards goes through. -/
def switchesShards (r : Registry) (e : SwitchEnv) (servers : Servers) : Bool :=
  match r.manager.work with
  | [.reparent inst target mode _] =>
    (r.manager.instances[inst]?).any fun i => i.shards ≠ [] ∧ i.master.any fun m =>
      match chooseCandidate inst i.itype e.facts target with
      | .ok cand => Proceeds ⟨r.manager, servers⟩ e m.container cand mode ∧
          failing ⟨r.manager, servers⟩ e cand = none
      | .error _ => false
  | _ => false

/-- No instance with several shards is switched, a new xenon instance has one member, and a node joins
once. -/
def unsharded (r : Registry) : RegistryEvent → Bool
  | .call (.create _ o) _ => o.itype ≠ "xenon" ∨ xenonCount o = 1
  | .perform _ (.updateInstanceTopology ..) => !r.joined
  | .switch e servers _ => !r.switchesShards e servers
  | _ => true

/-- Every record has a well formed topology, with no shard rows or several. -/
structure Upright (r : Registry) : Prop where
  tidy : Tidy r
  wellFormed : ∀ k t, r.manager.topologyOf k = some t → WellFormed t
  rows : ∀ k t, r.manager.topologyOf k = some t → t.rows = [] ∨ 1 < t.rows.length

section

variable {r r' : Registry} {ev : RegistryEvent} {i : RdsInstance}

/-- A scale-out of an instance with several shards sees their masters. -/
theorem Upright.orderly (h : Upright r) (hg : r.unsharded ev = true) : r.orderly ev = true := by
  cases ev with
  | call e s =>
    cases e with
    | scaleoutOpt name role region az shard =>
      show (r.manager.instances[name]?).all (fun i => i.shards = [] ∨ 1 < masterCnt i) = true
      cases hi : r.manager.instances[name]? with
      | none => rfl
      | some i =>
        refine decide_eq_true ((h.rows _ _ (topologyOf_of_get hi)).imp id fun hrows => ?_)
        rw [masterCnt_eq]
        exact (h.wellFormed _ _ (topologyOf_of_get hi)).masters
          (h.tidy.named _ _ (topologyOf_of_get hi)) hrows
    | _ => rfl
  | perform p step =>
    cases step with
    | updateInstanceTopology => exact hg
    | _ => rfl
  | _ => rfl

/-- A step that leaves the topologies. -/
theorem Upright.keep (h : Upright r) (ht : Tidy r')
    (hsame : r'.manager.topologyOf = r.manager.topologyOf) : Upright r' :=
  ⟨ht, hsame ▸ h.wellFormed, hsame ▸ h.rows⟩

/-- A step that changes one topology. -/
theorem Upright.set (h : Upright r) (ht : Tidy r') {name : String} (hset : r.Sets r' name i)
    (hwf : WellFormed i.topology) (hrows : i.topology.rows = [] ∨ 1 < i.topology.rows.length) :
    Upright r' := by
  refine ⟨ht, fun k t hk => ?_, fun k t hk => ?_⟩
  · rw [hset.topologyOf] at hk
    split at hk
    · cases hk
      exact hwf
    · exact h.wellFormed k t hk
  · rw [hset.topologyOf] at hk
    split at hk
    · cases hk
      exact hrows
    · exact h.rows k t hk

/-- The record of a creation. -/
theorem wellFormed_created {s : Surroundings} {sid : Nat} {n : String} {o : CreateOpts}
    {plan : RdsInstance × List (TaskNode Step)} (hplan : Planned s sid n o plan)
    (hone : o.itype ≠ "xenon" ∨ xenonCount o = 1) :
    WellFormed plan.1.topology ∧ (plan.1.topology.rows = [] ∨ 1 < plan.1.topology.rows.length) := by
  rcases hplan.topology_cases with
    ⟨hx, ports, hb⟩ | ⟨-, -, hshards, ht⟩ | ⟨-, -, ht⟩
  · exact ⟨wellFormed_xenon hb (hone.resolve_left fun hno => hno hx), .inl (buildXenonInst_ok hb).2.2.1⟩
  · rw [ht]
    refine ⟨wellFormed_multi hshards, .inr ?_⟩
    simpa [multiTopology, multiGroups] using hshards
  · rw [ht]
    exact ⟨wellFormed_single n _ _ (slaveRoles_cases _), .inl rfl⟩

/-- A call leaves well formed topologies. -/
theorem Upright.called (h : Upright r) {e : Entry} {s : Surroundings} {m : Manager}
    (hg : r.unsharded (.call e s) = true) (hturn : CallTurn s r.manager e m)
    (ht : Tidy ⟨m, r.started, false⟩) : Upright ⟨m, r.started, false⟩ := by
  cases hturn with
  | kept hi hp hw =>
    refine h.keep ht (topologyOf_congr fun k => ?_)
    unfold Manager.records
    rw [hi]
  | handed hh hrecords hsound hw => exact h.keep ht (topologyOf_congr hrecords)
  | @created name n o i dag _ id he hc hplan hi hp hw =>
    subst he
    obtain ⟨hwf, hrows⟩ := wellFormed_created hplan (of_decide_eq_true hg)
    have hset : r.Sets ⟨m, r.started, false⟩ n i := fun k => by
      show (m.instances[k]?).map (·.core) = _
      rw [hi, BTreeMap.getElem?_insert_ite]
      split <;> rfl
    exact h.set ht hset hwf hrows

/-- Every step keeps topologies well formed, unless it switches an instance with several shards. -/
theorem Upright.step (h : Upright r) (hg : r.unsharded ev = true) (hs : r.step ev = some r') :
    Upright r' := by
  have ht : Tidy r' := h.tidy.step (h.orderly hg) hs
  cases (step_turn h.tidy.sound hs).1 with
  | called hidle hcall => exact h.called hg hcall ht
  | quiet hrecords => exact h.keep ht (topologyOf_congr hrecords)
  | @marked _ r' w inst status i hw hmark hi hset =>
    exact h.keep ht (hset.same hi (i.topology_withStatus status))
  | started => exact h.keep ht rfl
  | replaced => exact h.keep ht rfl
  | @committed p w inst node host hostPort sid i r' hw hstep hi hset =>
    exact h.keep ht (hset.same hi (i.topology_commitReplace _ _ _ _))
  | @moved p w node host hostPort starts commits i r' hw hmig hi hmov hset =>
    cases commits with
    | true => exact h.keep ht (Sets.same hset hi (i.topology_commitReplace _ _ _ _))
    | false => exact h.keep ht (topologyOf_congr hset)
  | @settled w region az hosts i r' hw hmig hi hset =>
    exact h.keep ht (hset.same hi (i.topology_atSite _ _))
  | @joined p w inst container role region az shard parent hostPort sid i r' hw hstep hi hset =>
    have hfalse : r.joined = false := by
      have hnot : (!r.joined) = true := hg
      simpa using hnot
    have hget := topologyOf_of_get hi
    have hadmits := (h.tidy.fits w (by rw [hw]; exact .head _)).joins hstep hfalse i hget
    refine h.set ht hset ?_ ?_
    · rw [RdsInstance.topology_addNode]
      exact (h.wellFormed _ _ hget).join (h.tidy.named _ _ hget) hadmits
    · rw [RdsInstance.topology_addNode, join_rows_eq_nil, join_length]
      exact h.rows _ _ hget
  | @switched e servers answer inst mode opId cand target i m r' hw hi hm hpicked hknows hproceeds
      hfailing hset =>
    have hget := topologyOf_of_get hi
    have hrows : i.topology.rows = [] := by
      by_contra hne
      have hnot : (!r.switchesShards e servers) = true := hg
      have hyes : r.switchesShards e servers = true := by
        unfold switchesShards
        rw [hw]
        simp only [hi, hm, Option.any_some, chooseCandidate_ok.2 hpicked, hproceeds, hfailing,
          decide_true, and_true]
        exact decide_eq_true hne
      rw [hyes] at hnot
      cases hnot
    have hcand := picked_mem hpicked hknows fun t ht' => by
      subst ht'
      exact (h.tidy.fits _ (by rw [hw]; exact .head _)).target rfl _ hget
    obtain ⟨c, hc, rfl⟩ := List.mem_map.1 hcand
    refine h.set ht hset ?_ (.inl ?_)
    · rw [RdsInstance.topology_swapRoles]
      exact (h.wellFormed _ _ hget).swap (h.tidy.named _ _ hget) hrows (master_mem hm).1
        (master_mem hm).2 hc hproceeds.1
    · rw [RdsInstance.topology_swapRoles]
      exact hrows

/-- A registry without instances. -/
theorem Upright.initial (h : Initial r) : Upright r := by
  have hnone : ∀ k, r.manager.topologyOf k = none := fun k => by
    rw [topologyOf_eq, h.instances]
    rfl
  refine ⟨.initial h, fun k t hk => ?_, fun k t hk => ?_⟩ <;>
  · rw [hnone] at hk
    cases hk

/-- **Topologies stay well formed.** In every run in which no instance with several shards is switched,
a new xenon instance has one member and a node joins once, every shard has one master, which the other
nodes replicate from, and the shard rows name them. -/
theorem topologies_wellFormed {h : History Registry RegistryEvent}
    (hr : Run step (fun _ r ev => r.unsharded ev = true) Initial h r) :
    ∀ (name : String) (i : RdsInstance), r.manager.instances[name]? = some i →
      WellFormed i.topology := by
  have hup : Upright r := by
    refine Run.invariant (I := fun _ r => Upright r) (fun r h0 => .initial h0) ?_ hr
    intro h r ev r' _ hu hg hs
    exact hu.step hg hs
  exact fun name i hi => hup.wellFormed name i.topology (topologyOf_of_get hi)

end

/-- A manager without instances, on one machine. -/
def fresh : Registry := ⟨.fresh, [], false⟩

theorem fresh_initial : Initial fresh := ⟨rfl, rfl, rfl, rfl⟩

/-- An instance is created and serves. -/
def creates (o : CreateOpts) : List RegistryEvent :=
  [.call (.create "db" o) .plain,
    .perform Surroundings.plain.process (.updateInstanceStatus "db" "running"),
    .finish false (.failed .quorum)]

/-- Two shards with a master and two slaves. -/
def twoShards : CreateOpts := { CreateOpts.plain "async" 0 with shardNum := 2 }

/-- A slave joins the second of two shards. -/
def joins : List RegistryEvent :=
  creates twoShards ++
  [.call (.scaleoutOpt "db" .read none none (some "s2")) .plain,
    .perform Surroundings.plain.process (.updateInstanceTopology "db" "rds-db-s2-slave-3" "read" 35000
      24 "" "" "s2" "rds-db-s2-master"),
    .finish false (.failed .quorum)]

/-- The first master of two shards is switched to a slave of the second shard. -/
def switches : List RegistryEvent :=
  creates twoShards ++
  [.call (.orchReparent "db" (some "rds-db-s2-slave-1") "planned") .plain,
    .switch answered (fun _ => some ⟨true, none⟩) (.failed .quorum)]

/-- A shard is scaled out. -/
theorem topologies_wellFormed_joined : ∃ h r i,
    Run step (fun _ r ev => r.unsharded ev = true) Initial h r ∧
    r.manager.instances["db"]? = some i ∧ i.nodes.length = 7 ∧ WellFormed i.topology := by
  have hf : (follow step (fun _ r ev => r.unsharded ev = true) joins [] fresh).bind
      (fun r => (r.2.manager.instances["db"]?).map (·.nodes.length)) = some 7 := by
    decide +kernel
  obtain ⟨⟨h, r⟩, hf, hi⟩ := Option.bind_eq_some_iff.1 hf
  obtain ⟨i, hi, hseven⟩ := Option.map_eq_some_iff.1 hi
  have hr : Run step (fun _ r ev => r.unsharded ev = true) Initial h r :=
    Run.follow (.start fresh_initial) hf
  exact ⟨h, r, i, hr, hi, hseven, topologies_wellFormed hr "db" i hi⟩

/-- The first shard has no master after a switch to a slave of the second. -/
theorem topology_broken : ¬ ∀ h r, Run step (fun _ _ _ => True) Initial h r →
    ∀ (name : String) (i : RdsInstance), r.manager.instances[name]? = some i →
      WellFormed i.topology := by
  intro hall
  have hf : (follow step (fun _ _ _ => True) switches [] fresh).bind
      (fun r => (r.2.manager.instances["db"]?).map fun i =>
        (decide ("s1" ∈ i.topology.groupIds), (i.topology.group "s1").filter (·.isMaster))) =
      some (true, []) := by
    decide +kernel
  obtain ⟨⟨h, r⟩, hf, hi⟩ := Option.bind_eq_some_iff.1 hf
  obtain ⟨i, hi, heq⟩ := Option.map_eq_some_iff.1 hi
  obtain ⟨hid, hmaster⟩ := Prod.mk.inj heq
  have hwf := hall h r (Run.follow (.start fresh_initial) hf) "db" i hi
  obtain ⟨m, hm, -⟩ := hwf.groups "s1" (of_decide_eq_true hid)
  have hnone := hm.master
  rw [hmaster] at hnone
  cases hnone

end Registry

end Rdsctl.Inst
