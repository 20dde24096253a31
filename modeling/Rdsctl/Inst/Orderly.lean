import Rdsctl.Inst.Starts

/-!
# Orderly runs

The invariant that the names of a registry rest on: every record is as its names tell (`Named`), and
the work at hand fits the records. Every step keeps it, except for a scale-out of an instance with
several shards that sees at most one master, and takes it for an instance with one shard, and for a
node that joins twice.
-/

namespace Rdsctl.Inst

open Ha Dag Topology

/-- The topology of a record. -/
def Manager.topologyOf (m : Manager) (k : String) : Option Topology := (m.records k).map Prod.fst

/-- What work needs of the topologies, before a node has joined. -/
structure Fits (topologyOf : String → Option Topology) (joined : Bool) (w : Work) : Prop where
  joins : ∀ {inst container role region az shard parent : String} {hostPort sid : Nat},
    .updateInstanceTopology inst container role hostPort sid region az shard parent ∈ w.steps →
    joined = false → ∀ i : RdsInstance, topologyOf inst = some i.topology →
      Admits i.topology ⟨container, roleNamed role, i.shardFor shard, i.parentFor parent⟩
  target : ∀ {inst t mode opId : String}, w = .reparent inst (some t) mode opId →
    ∀ topo, topologyOf inst = some topo → t ∈ topo.members.map (·.container)

/-- Work goes on fitting when a node joins, or when nothing happens. -/
theorem Fits.mono {topologyOf : String → Option Topology} {joined joined' : Bool} {w : Work}
    (h : Fits topologyOf joined w) (hj : joined = true → joined' = true) :
    Fits topologyOf joined' w := by
  refine ⟨fun hstep hno => h.joins hstep ?_, h.target⟩
  cases hjoined : joined with
  | true => rw [hj hjoined] at hno; cases hno
  | false => rfl

namespace Registry

/-- A scale-out of an instance with several shards sees several masters, and a node joins once. -/
def orderly (r : Registry) : RegistryEvent → Bool
  | .call (.scaleoutOpt name _ _ _ _) _ =>
    (r.manager.instances[name]?).all fun i => i.shards = [] ∨ 1 < masterCnt i
  | .perform _ (.updateInstanceTopology ..) => !r.joined
  | _ => true

/-- Every record is as its names tell, and the work at hand fits the records. -/
structure Tidy (r : Registry) : Prop where
  sound : r.manager.Sound
  named : ∀ k t, r.manager.topologyOf k = some t → Named t
  sizes : ∀ (k : String) (i : RdsInstance), r.manager.instances[k]? = some i →
    i.nodes.length < 2 ^ 63
  fits : ∀ w ∈ r.manager.work, Fits r.manager.topologyOf r.joined w

section

variable {r r' : Registry} {ev : RegistryEvent} {m m' : Manager} {k name : String} {i i' : RdsInstance}

theorem topologyOf_eq (m : Manager) (k : String) :
    m.topologyOf k = (m.instances[k]?).map (·.topology) := by
  unfold Manager.topologyOf Manager.records
  rw [Option.map_map]
  rfl

theorem topologyOf_of_get (hi : m.instances[k]? = some i) : m.topologyOf k = some i.topology := by
  rw [topologyOf_eq, hi]
  rfl

theorem topologyOf_congr (h : ∀ k, m'.records k = m.records k) : m'.topologyOf = m.topologyOf :=
  funext fun k => congrArg (Option.map Prod.fst) (h k)

theorem Sets.topologyOf (h : r.Sets r' name i') (k : String) :
    r'.manager.topologyOf k = if name = k then some i'.topology else r.manager.topologyOf k := by
  unfold Manager.topologyOf
  rw [h k]
  split <;> rfl

/-- An update that topologies do not notice. -/
theorem Sets.same (h : r.Sets r' name i') (hi : r.manager.instances[name]? = some i)
    (ht : i'.topology = i.topology) : r'.manager.topologyOf = r.manager.topologyOf := by
  refine funext fun k => ?_
  rw [h.topologyOf]
  split
  · next heq => rw [← heq, topologyOf_of_get hi, ht]
  · rfl

/-- A step that leaves the topologies, with work that was there before. -/
theorem Tidy.keep (h : Tidy r) (hs : r'.manager.Sound)
    (hsizes : ∀ (k : String) (i : RdsInstance), r'.manager.instances[k]? = some i →
      i.nodes.length < 2 ^ 63)
    (ht : r'.manager.topologyOf = r.manager.topologyOf) (hj : r.joined = true → r'.joined = true)
    (hw : ∀ w ∈ r'.manager.work, w ∈ r.manager.work) : Tidy r' where
  sound := hs
  named := ht ▸ h.named
  sizes := hsizes
  fits := fun w hmem => ht ▸ (h.fits w (hw w hmem)).mono hj

/-- The node that a scale-out plans. -/
theorem Tidy.admits (h : Tidy r) {name : String} {role : Role} {shard : Option String}
    {plan : ScaleoutPlan} (hc : scaleoutCheck name role shard r.manager = .ok (i, plan))
    (hmasters : i.shards = [] ∨ 1 < masterCnt i) :
    Admits i.topology (plan.node i role) ∧ (i.shards = [] ∨ plan.shard ≠ "") ∧
      ∃ n, scaleoutSource i shard = some n ∧ plan.serverId = scaleoutSid i n ∧
        (i.shards = [] ∨ plan.shard = n.shard) := by
  have hi := (Submission.scaleoutCheck_ok hc).1
  obtain ⟨hx, hplan⟩ := scaleoutCheck_plan hc
  have hn := h.named _ _ (topologyOf_of_get hi)
  have hname := h.sound.named _ _ hi
  by_cases hrows : i.shards = []
  · obtain ⟨hadmits, n, hsrc, hsid⟩ := admits_single hn hname hx hrows hplan
    exact ⟨hadmits, .inl hrows, n, hsrc, hsid, .inl hrows⟩
  · obtain ⟨hadmits, n, hsrc, hsid, hshard, hne⟩ := admits_multi hn hname hx hrows
      (hmasters.resolve_left hrows) (h.sizes _ _ hi) hplan
    exact ⟨hadmits, .inr hne, n, hsrc, hsid, .inr hshard⟩

/-- What `orch_reparent` has checked. -/
theorem orchReparentCheck_nodes {mode : String} {target : Option String}
    (h : orchReparentCheck name target mode m = .ok ()) :
    ∃ i, m.instances[name]? = some i ∧
      ∀ t, target.filter (· ≠ "") = some t → t ∈ i.nodes.map (·.container) := by
  unfold orchReparentCheck at h
  replace h : (if name = "" then .error _ else
    if (m.instances[name]?).any (·.itype = "xenon") then .error _ else
    if mode ∉ ["auto", "planned"] then .error _ else
    m.assertState name .running >>= fun i => reparentable name target i) = .ok () := h
  split at h
  · cases h
  split at h
  · cases h
  split at h
  · cases h
  obtain ⟨i, hstate, hbody⟩ := Submission.bind_eq_ok h
  refine ⟨i, (Submission.assertState_ok hstate).1, fun t ht => ?_⟩
  unfold reparentable at hbody
  rw [ht] at hbody
  replace hbody : (if i.enabled = false then .error _ else
    if i.network.startsWith "demo-" then .error _ else
    if i.nodes.any (fun n => n.container = t ∧ n.role ≠ .master) = false then .error _ else
    .ok () : Except String Unit) = .ok () := hbody
  split at hbody
  · cases hbody
  split at hbody
  · cases hbody
  split at hbody
  · cases hbody
  next hany =>
    obtain ⟨n, hn, hp⟩ := List.any_eq_true.1 (Bool.eq_true_of_not_eq_false hany)
    simp only [decide_eq_true_eq] at hp
    exact List.mem_map.2 ⟨n, hn, hp.1⟩

/-- What `orch_rollback` has checked. -/
theorem orchRollbackCheck_nodes {prev : String} {noop : Bool}
    (h : orchRollbackCheck name m = .ok (prev, noop)) :
    ∃ i, m.instances[name]? = some i ∧ prev ∈ i.nodes.map (·.container) := by
  unfold orchRollbackCheck at h
  replace h : (if name = "" then .error _ else m.assertState name .running >>= fun i => _) =
    .ok (prev, noop) := h
  split at h
  · cases h
  obtain ⟨i, hstate, hbody⟩ := Submission.bind_eq_ok h
  refine ⟨i, (Submission.assertState_ok hstate).1, ?_⟩
  obtain ⟨-, hbody⟩ := Submission.check_eq_ok hbody
  cases hsnap : (m.evidenceLatest name 10).find? (·.kind = "reparent_snapshot") with
  | none => rw [hsnap] at hbody; cases hbody
  | some snap =>
    rw [hsnap] at hbody
    simp only [] at hbody
    cases hold : snap.prevMaster with
    | none => rw [hold] at hbody; cases hbody
    | some old =>
      rw [hold] at hbody
      obtain ⟨hany, hbody⟩ := Submission.check_eq_ok hbody
      cases hm : i.master with
      | none => rw [hm] at hbody; cases hbody
      | some cur =>
        rw [hm] at hbody
        cases hbody
        obtain ⟨n, hn, hp⟩ := List.any_eq_true.1 (Bool.eq_true_of_not_eq_false hany)
        exact List.mem_map.2 ⟨n, hn, of_decide_eq_true hp⟩

/-- Work that a call hands out fits the records. -/
theorem Tidy.handed (h : Tidy r) {e : Entry} {s : Surroundings} {w : Work}
    (hg : r.orderly (.call e s) = true) (hh : Hands s r.manager e w) :
    Fits r.manager.topologyOf false w where
  joins := by
    intro inst container role region az shard parent hostPort sid hstep _ i' hi'
    have hop := hh.steps h.sound _ hstep
    generalize hname : w.inst = name at hop
    cases hop with
    | other hkeeps => cases hkeeps
    | @joins inst role' region' az' shard' i plan hc =>
      have hi := (Submission.scaleoutCheck_ok hc).1
      rw [topologyOf_of_get hi, Option.some.injEq] at hi'
      have hmasters : i.shards = [] ∨ 1 < masterCnt i := by
        have hall : ((r.manager.instances[inst]?).all fun i => i.shards = [] ∨ 1 < masterCnt i) =
          true := hg
        rw [hi] at hall
        exact of_decide_eq_true hall
      obtain ⟨hadmits, hshard, -⟩ := h.admits hc hmasters
      exact hadmits.of_topology hi'.symm hshard
  target := by
    intro inst t mode opId heq topo htopo
    have hmem {i : RdsInstance} (hi : r.manager.instances[inst]? = some i)
        (ht : t ∈ i.nodes.map (·.container)) : t ∈ topo.members.map (·.container) := by
      rw [topologyOf_of_get hi, Option.some.injEq] at htopo
      rwa [← htopo, topology_members]
    cases hh with
    | @reparent inst' mode' opId' target hc =>
      simp only [Work.reparent.injEq] at heq
      obtain ⟨rfl, htarget, -, -⟩ := heq
      obtain ⟨i, hi, hnodes⟩ := orchReparentCheck_nodes hc
      exact hmem hi (hnodes t htarget)
    | rollback hc =>
      simp only [Work.reparent.injEq, Option.some.injEq] at heq
      obtain ⟨rfl, rfl, -, -⟩ := heq
      obtain ⟨i, hi, hnode⟩ := orchRollbackCheck_nodes hc
      exact hmem hi hnode
    | _ => cases heq

/-- Work of a creation fits, as it lets no node join. -/
theorem fits_created {s : Surroundings} {sid : Nat} {n id : String} {o : CreateOpts}
    {plan : RdsInstance × List (TaskNode Step)} (hplan : Planned s sid n o plan)
    (topologyOf : String → Option Topology) (joined : Bool) :
    Fits topologyOf joined (.task id "create" n (createGraph n o plan.1 plan.2) .task) where
  joins := by
    intro inst container role region az shard parent hostPort sid hstep
    obtain ⟨node, hnode, hstep⟩ := Work.mem_steps.1 hstep
    cases hplan.steps node hnode _ hstep with
    | other h => cases h
  target := fun heq => by cases heq

/-- The record of a creation is as its names tell. -/
theorem named_created {s : Surroundings} {sid : Nat} {n : String} {o : CreateOpts}
    {plan : RdsInstance × List (TaskNode Step)} (hplan : Planned s sid n o plan) :
    Named plan.1.topology := by
  rcases hplan.topology_cases with
    ⟨-, ports, hb⟩ | ⟨-, -, hshards, ht⟩ | ⟨-, -, ht⟩
  · exact named_xenon hb
  · rw [ht]
    exact named_multi hshards
  · rw [ht]
    exact named_single n _ _ (slaveRoles_cases _)

/-- A call leaves a tidy registry. -/
theorem Tidy.called (h : Tidy r) (hidle : r.manager.work = []) {e : Entry} {s : Surroundings}
    (hg : r.orderly (.call e s) = true) (hturn : CallTurn s r.manager e m) (hs : m.Sound)
    (hsizes : ∀ (k : String) (i : RdsInstance), m.instances[k]? = some i → i.nodes.length < 2 ^ 63) :
    Tidy ⟨m, r.started, false⟩ := by
  cases hturn with
  | kept hi hp hw =>
    have ht : m.topologyOf = r.manager.topologyOf := topologyOf_congr fun k => by
      unfold Manager.records
      rw [hi]
    refine ⟨hs, fun k t hk => h.named k t (ht ▸ hk), hsizes, fun w (hmem : w ∈ m.work) => ?_⟩
    rw [hw, hidle] at hmem
    cases hmem
  | handed hh hrecords hsound hw =>
    have ht : m.topologyOf = r.manager.topologyOf := topologyOf_congr hrecords
    refine ⟨hs, fun k t hk => h.named k t (ht ▸ hk), hsizes, fun w (hmem : w ∈ m.work) => ?_⟩
    rw [hw, hidle, List.nil_append, List.mem_singleton] at hmem
    show Fits m.topologyOf false w
    rw [ht, hmem]
    exact h.handed hg hh
  | @created n o _ i dag _ id he hc hplan hi hp hw =>
    refine ⟨hs, fun k t hk => ?_, hsizes, fun w (hmem : w ∈ m.work) => ?_⟩
    · have hk' : (m.instances[k]?).map (·.topology) = some t := (topologyOf_eq m k).symm.trans hk
      rw [hi, BTreeMap.getElem?_insert_ite] at hk'
      split at hk'
      · cases hk'
        exact named_created hplan
      · exact h.named k t ((topologyOf_eq _ k).trans hk')
    · rw [hw, hidle, List.nil_append, List.mem_singleton] at hmem
      rw [hmem]
      exact fits_created hplan _ _

/-- What a switch promotes is a node of the record. -/
theorem picked_mem {cand : String} {target : Option String} {facts : List Fact}
    (hpicked : Picked i.itype facts target cand) (hknows : i.knows facts = true)
    (htarget : ∀ t, target = some t → t ∈ i.topology.members.map (·.container)) :
    cand ∈ i.topology.members.map (·.container) := by
  unfold Picked at hpicked
  split at hpicked
  · next t ht =>
    rw [hpicked]
    exact htarget t (Option.filter_eq_some_iff.1 ht).1
  · obtain ⟨f, hf, rfl⟩ := Option.map_eq_some_iff.1 hpicked
    have hlive := List.find?_some hf
    have hknown := List.all_eq_true.1 hknows f (List.mem_of_find?_eq_some hf)
    simp only [Fact.live, decide_eq_true_eq] at hlive hknown
    obtain ⟨n, hn, hc⟩ := List.any_eq_true.1 (hknown.resolve_left fun hno => hno hlive.1.1)
    rw [topology_members]
    exact List.mem_map.2 ⟨n, hn, of_decide_eq_true hc⟩

/-- Every orderly step keeps a registry tidy. -/
theorem Tidy.step (h : Tidy r) (hg : r.orderly ev = true) (hs : r.step ev = some r') :
    Tidy r' := by
  obtain ⟨hturn, hsound⟩ := step_turn h.sound hs
  have hsizes : ∀ (k : String) (i : RdsInstance), r'.manager.instances[k]? = some i →
      i.nodes.length < 2 ^ 63 := fun k i hi => length_lt hs hi
  cases hturn with
  | called hidle hcall => exact h.called hidle hg hcall hsound hsizes
  | quiet hrecords hstarted hjoined hwork =>
    exact h.keep hsound hsizes (topologyOf_congr hrecords) hjoined hwork
  | @marked _ r' w inst status i hw hmark hi hset hstarted hjoined hwork =>
    exact h.keep hsound hsizes (hset.same hi (i.topology_withStatus status))
      (fun hj => hjoined.trans hj) hwork
  | started hw hstep => exact h.keep hsound hsizes rfl (fun hj => hj) fun _ hmem => hmem
  | replaced hw hstep hi => exact h.keep hsound hsizes rfl (fun hj => hj) fun _ hmem => hmem
  | @committed p w inst node host hostPort sid i r' hw hstep hi hset hstarted hjoined hwork =>
    exact h.keep hsound hsizes (hset.same hi (i.topology_commitReplace _ _ _ _))
      (fun hj => hjoined.trans hj) fun _ hmem => hwork ▸ hmem
  | @moved p w node host hostPort starts commits i r' hw hmig hi hmov hset hstarted hjoined hwork =>
    refine h.keep hsound hsizes ?_ (fun hj => hjoined.trans hj) fun _ hmem => hwork ▸ hmem
    cases commits with
    | true => exact Sets.same hset hi (i.topology_commitReplace _ _ _ _)
    | false => exact topologyOf_congr hset
  | @settled w region az hosts i r' hw hmig hi hset hstarted hjoined hwork =>
    exact h.keep hsound hsizes (hset.same hi (i.topology_atSite _ _)) (fun hj => hjoined.trans hj)
      fun _ hmem => hwork ▸ hmem
  | @joined p w inst container role region az shard parent hostPort sid i r' hw hstep hi hset hstarted
      hjoined hwork =>
    have hwmem : w ∈ r.manager.work := by rw [hw]; exact .head _
    have hfalse : r.joined = false := by
      have hnot : (!r.joined) = true := hg
      simpa using hnot
    have hadmits := (h.fits w hwmem).joins hstep hfalse i (topologyOf_of_get hi)
    refine ⟨hsound, fun k t hk => ?_, hsizes, fun w' hmem => ?_⟩
    · rw [hset.topologyOf] at hk
      split at hk
      · cases hk
        rw [RdsInstance.topology_addNode]
        exact (h.named _ _ (topologyOf_of_get hi)).join hadmits
      · exact h.named k t hk
    · rw [hwork, hw, List.mem_singleton] at hmem
      subst hmem
      refine ⟨fun _ hno => ?_, fun heq => ?_⟩
      · rw [hjoined] at hno
        cases hno
      · rw [heq] at hstep
        cases hstep
  | @switched e servers answer inst mode opId cand target i m r' hw hi hm hpicked hknows hproceeds
      hfailing hset hstarted hjoined hwork =>
    have hwmem : .reparent inst target mode opId ∈ r.manager.work := by rw [hw]; exact .head _
    have hcand := picked_mem hpicked hknows fun t ht => by
      subst ht
      exact (h.fits _ hwmem).target rfl _ (topologyOf_of_get hi)
    obtain ⟨c, hc, rfl⟩ := List.mem_map.1 hcand
    refine ⟨hsound, fun k t hk => ?_, hsizes, fun w' hmem => ?_⟩
    · rw [hset.topologyOf] at hk
      split at hk
      · cases hk
        rw [RdsInstance.topology_swapRoles]
        exact (h.named _ _ (topologyOf_of_get hi)).swap fun _ _ =>
          ⟨(master_mem hm).1, (master_mem hm).2, hc, hproceeds.1⟩
      · exact h.named k t hk
    · rw [hwork] at hmem
      cases hmem

/-- A registry without instances is tidy. -/
theorem Tidy.initial (h : Initial r) : Tidy r := by
  have hnone : ∀ k : String, r.manager.instances[k]? = none := fun k => by
    rw [h.instances]
    rfl
  refine ⟨⟨fun k i hi => ?_, fun k => ?_⟩, fun k t hk => ?_, fun k i hi => ?_, fun w hw => ?_⟩
  · rw [hnone] at hi
    cases hi
  · rw [Manager.records, hnone, h.persisted]
    rfl
  · rw [topologyOf_eq, hnone] at hk
    cases hk
  · rw [hnone] at hi
    cases hi
  · rw [h.work] at hw
    cases hw

end

end Registry

end Rdsctl.Inst
