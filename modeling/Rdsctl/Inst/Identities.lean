import Rdsctl.Inst.Alive
import Rdsctl.Inst.Containers
import Rdsctl.Inst.ServerIds
import Rdsctl.Inst.ReadOnly

/-!
# Identities over runs

The server ids of a group and the containers of live instances are different, in every run in which a
slave gets an id that is new to its group and no instance is named like a shard of another.
-/

namespace Rdsctl.Inst

open Ha Dag Topology

/-- The containers of a record. -/
def RdsInstance.containers (i : RdsInstance) : List String :=
  i.nodes.map (·.container) ++
    (i.proxies.map (·.container) ++ if i.lvsContainer = "" then [] else [i.lvsContainer])

theorem topology_containers (i : RdsInstance) : i.topology.containers = i.containers := by
  unfold Topology.containers
  rw [topology_members]
  rfl

/-- A record that exists has the name of a shard of a new instance, or the other way round. -/
def RdsInstance.clashes (i : RdsInstance) (name : String) (o : CreateOpts) : Bool :=
  o.itype ≠ "xenon" ∧
    if isMulti o then
      i.itype ≠ "xenon" ∧ i.shards = [] ∧
        (List.range (shardCount o)).any fun k => i.name = name ++ "-" ++ shardId (k + 1)
    else i.shards.any fun row => name = i.name ++ "-" ++ row.id

/-- A step that changes the nodes of a record. -/
def Step.changes : Step → Bool
  | .updateInstanceTopology .. => true
  | .replaceNodeCommit .. => true
  | .migrateInstance .. => true
  | _ => false

theorem Step.changes_of_keeps {step : Step} (h : step.keeps = true) : step.changes = false := by
  cases step <;> first | rfl | cases h

/-- An operation changes nodes in one way. -/
theorem OperationStep.unique {s : Surroundings} {m : Manager} {name : String} {e : Entry}
    {step step' : Step} (h : OperationStep s m e name step) (h' : OperationStep s m e name step')
    (hc : step.changes = true) (hc' : step'.changes = true) : step = step' := by
  cases h with
  | joins hcheck =>
    cases h' with
    | joins hcheck' =>
      rw [hcheck] at hcheck'
      cases hcheck'
      rfl
    | other h => rw [Step.changes_of_keeps h] at hc'; cases hc'
    | _ => cases hc'
  | commit hcheck =>
    cases h' with
    | commit hcheck' =>
      rw [hcheck] at hcheck'
      cases hcheck'
      rfl
    | other h => rw [Step.changes_of_keeps h] at hc'; cases hc'
    | _ => cases hc'
  | moves =>
    cases h' with
    | moves => rfl
    | other h => rw [Step.changes_of_keeps h] at hc'; cases hc'
    | _ => cases hc'
  | other h => rw [Step.changes_of_keeps h] at hc; cases hc
  | _ => cases hc

/-- The nodes of a record, with its topology. -/
def Manager.nodesOf (m : Manager) (k : String) : Option (Topology × List InstNode) :=
  (m.records k).map fun c => (c.1, c.2.1)

/-- The ids that work gives to nodes are new where they have to be. -/
structure IdsNew (nodesOf : String → Option (Topology × List InstNode)) (joined : Bool) (w : Work) :
    Prop where
  alone : ∀ step ∈ w.steps, ∀ step' ∈ w.steps, step.changes = true → step'.changes = true →
    step = step'
  joins : ∀ {inst container role region az shard parent : String} {hostPort sid : Nat},
    .updateInstanceTopology inst container role hostPort sid region az shard parent ∈ w.steps →
    joined = false → ∀ t nodes, nodesOf inst = some (t, nodes) →
      (t.rows = [] ∨ shard ≠ "") ∧ ∀ n ∈ nodes, t.rows = [] ∨ n.shard = shard → n.serverId ≠ sid
  replaces : ∀ {inst node host : String} {hostPort sid : Nat},
    .replaceNodeCommit inst node host hostPort sid ∈ w.steps →
    ∀ t nodes, nodesOf inst = some (t, nodes) → ∀ n ∈ nodes, n.container ≠ node → n.serverId ≠ sid

/-- Work that changes nodes in another way gives them no ids. -/
theorem IdsNew.of_step {nodesOf nodesOf' : String → Option (Topology × List InstNode)}
    {joined joined' : Bool} {w : Work} (h : IdsNew nodesOf joined w) {step : Step}
    (hstep : step ∈ w.steps) (hc : step.changes = true)
    (hjoins : ∀ {inst container role region az shard parent : String} {hostPort sid : Nat},
      step = .updateInstanceTopology inst container role hostPort sid region az shard parent →
      joined' = false → ∀ t nodes, nodesOf' inst = some (t, nodes) →
        (t.rows = [] ∨ shard ≠ "") ∧ ∀ n ∈ nodes, t.rows = [] ∨ n.shard = shard → n.serverId ≠ sid)
    (hreplaces : ∀ {inst node host : String} {hostPort sid : Nat},
      step = .replaceNodeCommit inst node host hostPort sid →
      ∀ t nodes, nodesOf' inst = some (t, nodes) →
        ∀ n ∈ nodes, n.container ≠ node → n.serverId ≠ sid) :
    IdsNew nodesOf' joined' w :=
  ⟨h.alone, fun hstep' => hjoins (h.alone _ hstep _ hstep' hc rfl),
    fun hstep' => hreplaces (h.alone _ hstep _ hstep' hc rfl)⟩

/-- A migration gives ids itself. -/
theorem IdsNew.of_migration {nodesOf : String → Option (Topology × List InstNode)} {joined : Bool}
    {w : Work} (h : IdsNew nodesOf joined w) (hmig : w.steps.any Step.isMigration = true)
    (nodesOf' : String → Option (Topology × List InstNode)) (joined' : Bool) :
    IdsNew nodesOf' joined' w := by
  obtain ⟨step, hstep, hm⟩ := List.any_eq_true.1 hmig
  cases step with
  | migrateInstance =>
    exact h.of_step hstep rfl (fun heq => by cases heq) fun heq => by cases heq
  | _ => cases hm

/-- Work goes on giving new ids when the nodes stay and joining is not undone. -/
theorem IdsNew.mono {nodesOf : String → Option (Topology × List InstNode)} {joined joined' : Bool}
    {w : Work} (h : IdsNew nodesOf joined w) (hj : joined = true → joined' = true) :
    IdsNew nodesOf joined' w := by
  refine ⟨h.alone, fun hstep hno => h.joins hstep ?_, h.replaces⟩
  cases hjoined : joined with
  | true => rw [hj hjoined] at hno; cases hno
  | false => rfl

namespace Registry

/-- A slave gets an id that is new to its group, no new instance is named like a shard of a live one or
has a shard that is named like one, and names stay orderly. -/
def unambiguous (r : Registry) : RegistryEvent → Bool
  | .call (.create name o) _ =>
    r.manager.instances.values.all fun i => !(i.alive && i.clashes (trimmed name) o)
  | .call (.scaleoutOpt name _ _ _ shard) _ =>
    (r.manager.instances[name]?).all fun i => (i.shards = [] ∨ 1 < masterCnt i) ∧
      (scaleoutSource i shard).all fun src => i.nodes.all fun n =>
        (i.shards = [] ∨ n.shard = src.shard) → n.serverId ≠ scaleoutSid i src
  | .perform _ (.updateInstanceTopology ..) => !r.joined
  | _ => true

/-- Server ids are different within their groups, and live instances are not named like shards of
others. -/
structure Apart (r : Registry) : Prop where
  tidy : Tidy r
  spares : ∀ w ∈ r.manager.work, w.Spares r.manager.aliveOf
  ids : ∀ k t nodes, r.manager.nodesOf k = some (t, nodes) → IdsApart t nodes
  new : ∀ w ∈ r.manager.work, IdsNew r.manager.nodesOf r.joined w
  names : ∀ k k' t t', r.manager.aliveOf k = true → r.manager.aliveOf k' = true →
    r.manager.topologyOf k = some t → r.manager.topologyOf k' = some t' → ¬ t.Clashes t'

/-- No two containers of live instances share a name, and no two nodes of a group a server id. -/
structure Identities (r : Registry) : Prop where
  ids : ∀ (name : String) (i : RdsInstance), r.manager.instances[name]? = some i →
    IdsApart i.topology i.nodes
  containers : ((r.manager.instances.values.filter (·.alive)).flatMap (·.containers)).Nodup

section

variable {r r' : Registry} {ev : RegistryEvent} {m m' : Manager} {k name : String}
  {i i' : RdsInstance}

theorem nodesOf_of_get (hi : m.instances[k]? = some i) : m.nodesOf k = some (i.topology, i.nodes) := by
  unfold Manager.nodesOf Manager.records
  rw [hi]
  rfl

theorem nodesOf_congr (h : ∀ k, m'.records k = m.records k) : m'.nodesOf = m.nodesOf := by
  funext k
  unfold Manager.nodesOf
  rw [h k]

theorem Sets.nodesOf (h : r.Sets r' name i') (k : String) :
    r'.manager.nodesOf k = if name = k then some (i'.topology, i'.nodes) else r.manager.nodesOf k := by
  unfold Manager.nodesOf
  rw [h k]
  split <;> rfl

/-- An update that nodes do not notice. -/
theorem Sets.nodes_same (h : r.Sets r' name i') (hi : r.manager.instances[name]? = some i)
    (ht : i'.topology = i.topology) (hn : i'.nodes = i.nodes) :
    r'.manager.nodesOf = r.manager.nodesOf := by
  refine funext fun k => ?_
  rw [h.nodesOf]
  split
  · next heq => rw [← heq, nodesOf_of_get hi, ht, hn]
  · rfl

/-- A live instance of names that are in order has no container in common with another. -/
theorem Apart.identities (h : Apart r) : Identities r := by
  refine ⟨fun name i hi => h.ids _ _ _ (nodesOf_of_get hi), ?_⟩
  have hvalue : ∀ p ∈ r.manager.instances.toList, r.manager.instances[p.1]? = some p.2 := fun p hp =>
    Std.ExtTreeMap.mem_toList_iff_getElem?_eq_some.1 hp
  have hkeys : r.manager.instances.toList.Pairwise fun p q => p.1 ≠ q.1 :=
    Std.ExtTreeMap.distinct_keys_toList.imp fun hne heq => hne (by rw [heq]; exact Std.ReflOrd.compare_self)
  rw [BTreeMap.values_eq_map_toList, List.filter_map, List.flatMap_map, List.nodup_flatMap]
  constructor
  · intro p hp
    have hi := hvalue p (List.mem_of_mem_filter hp)
    rw [← topology_containers]
    exact (h.tidy.named _ _ (topologyOf_of_get hi)).nodup_containers
  · refine (hkeys.filter _).imp_of_mem fun {p q} hp hq hne => ?_
    obtain ⟨hp, halive⟩ := List.mem_filter.1 hp
    obtain ⟨hq, halive'⟩ := List.mem_filter.1 hq
    have hi := hvalue p hp
    have hi' := hvalue q hq
    have ha : r.manager.aliveOf p.1 = true := (aliveOf_of_get hi).trans halive
    have ha' : r.manager.aliveOf q.1 = true := (aliveOf_of_get hi').trans halive'
    have ht := topologyOf_of_get hi
    have ht' := topologyOf_of_get hi'
    intro c (hc : c ∈ p.2.containers) (hc' : c ∈ q.2.containers)
    rw [← topology_containers] at hc hc'
    rcases (h.tidy.named _ _ ht).name_of_containers (h.tidy.named _ _ ht') hc hc' with
      hname | hclash | hclash
    · refine hne ?_
      rw [← h.tidy.sound.named _ _ hi, ← h.tidy.sound.named _ _ hi']
      exact hname
    · exact h.names _ _ _ _ ha ha' ht ht' hclash
    · exact h.names _ _ _ _ ha' ha ht' ht hclash

/-- A new instance whose name is told from those of live ones. -/
theorem not_clashes_created {s : Surroundings} {sid : Nat} {n : String} {o : CreateOpts}
    {plan : RdsInstance × List (TaskNode Step)} (hplan : Planned s sid n o plan)
    (hc : i.clashes n o = false) :
    ¬ i.topology.Clashes plan.1.topology ∧ ¬ plan.1.topology.Clashes i.topology := by
  unfold RdsInstance.clashes at hc
  rcases hplan.topology_cases with ⟨-, ports, hb⟩ | ⟨hx, hm, hshards, ht⟩ | ⟨hx, hm, ht⟩
  · obtain ⟨-, hxenon, hrows, -, -⟩ := buildXenonInst_ok hb
    constructor
    · intro hclash
      rw [hclash.1] at hxenon
      cases hxenon
    · rintro ⟨-, -, sh, hsh, -⟩
      rw [hrows] at hsh
      cases hsh
  · rw [ht]
    refine ⟨fun hclash => rows_multi hshards hclash.2.1, ?_⟩
    rintro ⟨hxenon, hrows, sh, hsh, hname⟩
    obtain ⟨k, hk, rfl⟩ := (named_multi hshards).exists_shardId hsh
    have hlength : (multiTopology n o.itype (shardCount o) (sid + 10) (proxyCount o)).rows.length =
        shardCount o := by simp [multiTopology, multiGroups]
    rw [hlength] at hk
    have hitype : i.itype ≠ "xenon" := of_decide_eq_false hxenon
    have hyes : decide (o.itype ≠ "xenon" ∧ if isMulti o then i.itype ≠ "xenon" ∧ i.shards = [] ∧
        (List.range (shardCount o)).any fun k => i.name = n ++ "-" ++ shardId (k + 1)
      else i.shards.any fun row => n = i.name ++ "-" ++ row.id) = true := by
      refine decide_eq_true ⟨hx, ?_⟩
      rw [if_pos hm]
      exact ⟨hitype, hrows, List.any_eq_true.2 ⟨k, List.mem_range.2 hk, decide_eq_true hname⟩⟩
    rw [hyes] at hc
    cases hc
  · rw [ht]
    refine ⟨?_, by rintro ⟨-, -, sh, hsh, -⟩; cases hsh⟩
    rintro ⟨-, -, sh, hsh, hname⟩
    obtain ⟨row, hrow, rfl⟩ := List.mem_map.1 hsh
    have hyes : decide (o.itype ≠ "xenon" ∧ if isMulti o then i.itype ≠ "xenon" ∧ i.shards = [] ∧
        (List.range (shardCount o)).any fun k => i.name = n ++ "-" ++ shardId (k + 1)
      else i.shards.any fun row => n = i.name ++ "-" ++ row.id) = true := by
      refine decide_eq_true ⟨hx, ?_⟩
      rw [hm, if_neg Bool.false_ne_true]
      exact List.any_eq_true.2 ⟨row, hrow, decide_eq_true hname⟩
    rw [hyes] at hc
    cases hc

/-- The name of a new instance is what was asked for, and no record had it. -/
theorem createCheck_name {o : CreateOpts} {n : String} (h : createCheck name o m = .ok n) :
    n = trimmed name ∧ m.instances[n]? = none := by
  have hbody : (if trimmed name = "" ∨ (trimmed name).toList.all isNameChar = false then .error _
    else if o.itype ∉ ["single", "async", "sync", "xenon"] then .error _
    else if m.instances.contains (trimmed name) then .error _
    else if shardCount o > 1 ∧ o.itype = "single" then .error _
    else if shardCount o > 1 ∧ o.itype = "xenon" then .error _
    else if o.itype = "xenon" ∧ o.xenonConsistency ≠ "" ∧
      o.xenonConsistency ∉ ["strong", "causal", "session", "eventual"] then .error _
    else if shardCount o > 1 ∧ o.itype ∉ ["async", "sync"] then .error _
    else .ok (trimmed name) : Except String String) = .ok n := h
  split at hbody
  · cases hbody
  split at hbody
  · cases hbody
  split at hbody
  · cases hbody
  next hno =>
    split at hbody
    · cases hbody
    split at hbody
    · cases hbody
    split at hbody
    · cases hbody
    split at hbody
    · cases hbody
    cases hbody
    exact ⟨rfl, Std.ExtTreeMap.getElem?_eq_none_of_contains_eq_false (Bool.eq_false_iff.2 hno)⟩

/-- Work of a creation changes no nodes. -/
theorem idsNew_created {s : Surroundings} {sid : Nat} {n id : String} {o : CreateOpts}
    {plan : RdsInstance × List (TaskNode Step)} (hplan : Planned s sid n o plan)
    (nodesOf : String → Option (Topology × List InstNode)) (joined : Bool) :
    IdsNew nodesOf joined (.task id "create" n (createGraph n o plan.1 plan.2) .task) := by
  have hnone : ∀ step ∈ (Work.task id "create" n (createGraph n o plan.1 plan.2) .task).steps,
      step.changes = false := by
    intro step hstep
    obtain ⟨node, hnode, hstep⟩ := Work.mem_steps.1 hstep
    cases hplan.steps node hnode _ hstep with
    | other h => exact Step.changes_of_keeps h
    | _ => rfl
  refine ⟨fun step hstep step' _ hc => ?_, fun hstep => ?_, fun hstep => ?_⟩
  · rw [hnone step hstep] at hc
    cases hc
  · cases hnone _ hstep
  · cases hnone _ hstep

/-- The ids that the work of a call gives to nodes. -/
theorem Apart.handed (h : Apart r) {e : Entry} {s : Surroundings} {w : Work}
    (hg : r.unambiguous (.call e s) = true) (hh : Hands s r.manager e w) :
    IdsNew r.manager.nodesOf false w where
  alone := fun step hstep step' hstep' =>
    (hh.steps h.tidy.sound step hstep).unique (hh.steps h.tidy.sound step' hstep')
  joins := by
    intro inst container role region az shard parent hostPort sid hstep _ t nodes ht
    have hop := hh.steps h.tidy.sound _ hstep
    generalize hname : w.inst = name at hop
    cases hop with
    | other hkeeps => cases hkeeps
    | @joins inst role' region' az' shard' i plan hc =>
      have hi := (Submission.scaleoutCheck_ok hc).1
      rw [nodesOf_of_get hi, Option.some.injEq, Prod.mk.injEq] at ht
      obtain ⟨rfl, rfl⟩ := ht
      have hall : ((r.manager.instances[inst]?).all fun i => (i.shards = [] ∨ 1 < masterCnt i) ∧
        (scaleoutSource i shard').all fun src => i.nodes.all fun n =>
          (i.shards = [] ∨ n.shard = src.shard) → n.serverId ≠ scaleoutSid i src) = true := hg
      rw [hi] at hall
      obtain ⟨hmasters, hnew⟩ := of_decide_eq_true hall
      obtain ⟨-, hshard, src, hsrc, hsid, hsame⟩ := h.tidy.admits hc hmasters
      rw [hsrc, Option.all_some] at hnew
      refine ⟨hshard, fun n hn hgroup => ?_⟩
      have hn' := of_decide_eq_true (List.all_eq_true.1 hnew n hn)
      rw [hsid]
      rcases hgroup with hrows | hshard'
      · exact hn' (.inl hrows)
      · exact hn' (hsame.imp id fun heq => hshard'.trans heq)
  replaces := by
    intro inst node host hostPort sid hstep t nodes ht
    have hop := hh.steps h.tidy.sound _ hstep
    generalize hname : w.inst = name at hop
    cases hop with
    | other hkeeps => cases hkeeps
    | @commit inst' node' host' i hc =>
      have hi := (Submission.replaceCheck_ok hc).1
      rw [h.tidy.sound.named _ _ hi, nodesOf_of_get hi, Option.some.injEq, Prod.mk.injEq] at ht
      obtain ⟨rfl, rfl⟩ := ht
      intro n hn _ heq
      have hle := le_maxServerId hn
      omega

/-- A step that leaves nodes, and who is live. -/
theorem Apart.keep (h : Apart r) (ht : Tidy r')
    (hnodes : r'.manager.nodesOf = r.manager.nodesOf)
    (halive : ∀ k, r'.manager.aliveOf k = true → r.manager.aliveOf k = true)
    (hspares : ∀ w ∈ r'.manager.work, w.Spares r'.manager.aliveOf)
    (hj : r.joined = true → r'.joined = true) (hw : ∀ w ∈ r'.manager.work, w ∈ r.manager.work) :
    Apart r' where
  tidy := ht
  spares := hspares
  ids := hnodes ▸ h.ids
  new := fun w hmem => hnodes ▸ (h.new w (hw w hmem)).mono hj
  names := by
    have htopology : r'.manager.topologyOf = r.manager.topologyOf := by
      funext k
      have hk := congrArg (Option.map Prod.fst) (congrFun hnodes k)
      unfold Manager.nodesOf at hk
      rw [Option.map_map, Option.map_map] at hk
      exact hk
    exact fun k k' t t' ha ha' hk hk' =>
      h.names k k' t t' (halive k ha) (halive k' ha') (htopology ▸ hk) (htopology ▸ hk')

/-- A step that leaves nodes, and the statuses. -/
theorem Apart.keep_all (h : Apart r) (ht : Tidy r')
    (hnodes : r'.manager.nodesOf = r.manager.nodesOf)
    (halive : r'.manager.aliveOf = r.manager.aliveOf) (hj : r.joined = true → r'.joined = true)
    (hw : ∀ w ∈ r'.manager.work, w ∈ r.manager.work) : Apart r' :=
  h.keep ht hnodes (fun _ hk => halive ▸ hk) (fun w hmem => halive ▸ h.spares w (hw w hmem)) hj hw

/-- A step that changes the nodes of one record, and not its name, its shard rows or its status. -/
theorem Apart.set (h : Apart r) (ht : Tidy r') (hset : r.Sets r' name i')
    (hi : r.manager.instances[name]? = some i) (hids : IdsApart i'.topology i'.nodes)
    (halive : i'.alive = i.alive)
    (hclash : ∀ t, (i'.topology.Clashes t → i.topology.Clashes t) ∧
      (t.Clashes i'.topology → t.Clashes i.topology))
    (hnew : ∀ w ∈ r'.manager.work, IdsNew r'.manager.nodesOf r'.joined w)
    (hw : ∀ w ∈ r'.manager.work, w ∈ r.manager.work) : Apart r' where
  tidy := ht
  spares := fun w hmem => hset.alive_same hi halive ▸ h.spares w (hw w hmem)
  ids := by
    intro k t nodes hk
    rw [hset.nodesOf] at hk
    split at hk
    · cases hk
      exact hids
    · exact h.ids k t nodes hk
  new := hnew
  names := by
    rw [hset.alive_same hi halive]
    have hof : ∀ k t, r'.manager.topologyOf k = some t → ∃ t₀, r.manager.topologyOf k = some t₀ ∧
        ∀ t', (t.Clashes t' → t₀.Clashes t') ∧ (t'.Clashes t → t'.Clashes t₀) := by
      intro k t hk
      rw [hset.topologyOf] at hk
      split at hk
      · next heq =>
        cases hk
        exact ⟨i.topology, heq ▸ topologyOf_of_get hi, hclash⟩
      · exact ⟨t, hk, fun t' => ⟨id, id⟩⟩
    intro k k' t t' ha ha' hk hk' hc
    obtain ⟨t₀, hk₀, hfrom⟩ := hof k t hk
    obtain ⟨t₁, hk₁, hto⟩ := hof k' t' hk'
    exact h.names k k' t₀ t₁ ha ha' hk₀ hk₁ ((hto t₀).2 ((hfrom t').1 hc))

theorem orderly_of_unambiguous (hg : r.unambiguous ev = true) : r.orderly ev = true := by
  cases ev with
  | call e s =>
    cases e with
    | scaleoutOpt name role region az shard =>
      have hall : ((r.manager.instances[name]?).all fun i => (i.shards = [] ∨ 1 < masterCnt i) ∧
        (scaleoutSource i shard).all fun src => i.nodes.all fun n =>
          (i.shards = [] ∨ n.shard = src.shard) → n.serverId ≠ scaleoutSid i src) = true := hg
      show (r.manager.instances[name]?).all (fun i => i.shards = [] ∨ 1 < masterCnt i) = true
      cases hi : r.manager.instances[name]? with
      | none => rfl
      | some i =>
        rw [hi] at hall
        exact decide_eq_true (of_decide_eq_true hall).1
    | _ => rfl
  | perform p step =>
    cases step with
    | updateInstanceTopology => exact hg
    | _ => rfl
  | _ => rfl

/-- A new record is live. -/
theorem alive_created {s : Surroundings} {sid : Nat} {n : String} {o : CreateOpts}
    {plan : RdsInstance × List (TaskNode Step)} (hplan : Planned s sid n o plan) :
    plan.1.alive = true := by
  cases hplan with
  | @xenon plan ports hx hb =>
    unfold buildXenonInst at hb
    dsimp only at hb
    split at hb
    · cases hb
    · cases hb
      rfl
  | multi => rfl
  | single => rfl

/-- A live record that has a topology. -/
theorem get_of_topologyOf {t : Topology} (ht : m.topologyOf k = some t) (ha : m.aliveOf k = true) :
    ∃ i, m.instances[k]? = some i ∧ i.topology = t ∧ i.alive = true := by
  rw [topologyOf_eq] at ht
  obtain ⟨i, hi, rfl⟩ := Option.map_eq_some_iff.1 ht
  exact ⟨i, hi, rfl, (aliveOf_of_get hi).symm.trans ha⟩

/-- A new record beside the others. -/
theorem Apart.created (h : Apart r) (id : String) {s : Surroundings} {n : String} {o : CreateOpts}
    {dag : List (TaskNode Step)} (hplan : Planned s r.manager.nextServerId n o (i, dag))
    (hall : ∀ (k : String) (j : RdsInstance), r.manager.instances[k]? = some j → j.alive = true →
      j.clashes n o = false) (ht : Tidy r') (hset : r.Sets r' n i)
    (hw : r'.manager.work = [.task id "create" n (createGraph n o i dag) .task]) : Apart r' where
  tidy := ht
  spares := by
    intro w hmem
    rw [hw, List.mem_singleton] at hmem
    rw [hmem]
    refine spares_created hplan ?_
    rw [hset.aliveOf, if_pos rfl]
    exact alive_created hplan
  ids := by
    intro k t nodes hk
    rw [hset.nodesOf] at hk
    split at hk
    · cases hk
      exact idsApart_created hplan
    · exact h.ids k t nodes hk
  new := by
    intro w hmem
    rw [hw, List.mem_singleton] at hmem
    rw [hmem]
    exact idsNew_created hplan _ _
  names := by
    have hbeside {k : String} {t : Topology} (ha : r.manager.aliveOf k = true)
        (hk : r.manager.topologyOf k = some t) : ¬ t.Clashes i.topology ∧ ¬ i.topology.Clashes t := by
      obtain ⟨j, hj, rfl, halive⟩ := get_of_topologyOf hk ha
      exact not_clashes_created hplan (hall k j hj halive)
    intro k k' t t' ha ha' hk hk' hclash
    rw [hset.aliveOf] at ha ha'
    rw [hset.topologyOf] at hk hk'
    by_cases hn : n = k
    · rw [if_pos hn] at hk
      cases hk
      by_cases hn' : n = k'
      · rw [if_pos hn'] at hk'
        cases hk'
        obtain ⟨-, hrows, sh, hsh, -⟩ := hclash
        rw [hrows] at hsh
        cases hsh
      · rw [if_neg hn'] at ha' hk'
        exact (hbeside ha' hk').2 hclash
    · rw [if_neg hn] at ha hk
      by_cases hn' : n = k'
      · rw [if_pos hn'] at hk'
        cases hk'
        exact (hbeside ha hk).1 hclash
      · rw [if_neg hn'] at ha' hk'
        exact h.names k k' t t' ha ha' hk hk' hclash

/-- A call leaves identities apart. -/
theorem Apart.called (h : Apart r) (hidle : r.manager.work = []) {e : Entry} {s : Surroundings}
    (hg : r.unambiguous (.call e s) = true) (hturn : CallTurn s r.manager e m)
    (ht : Tidy ⟨m, r.started, false⟩) : Apart ⟨m, r.started, false⟩ := by
  cases hturn with
  | kept hi hp hw =>
    have hrecords : ∀ k, m.records k = r.manager.records k := fun k => by
      unfold Manager.records
      rw [hi]
    have hnone : ∀ w, w ∉ m.work := fun w hmem => by
      rw [hw, hidle] at hmem
      cases hmem
    exact ⟨ht, fun w hmem => absurd hmem (hnone w), nodesOf_congr hrecords ▸ h.ids,
      fun w hmem => absurd hmem (hnone w),
      aliveOf_congr hrecords ▸ topologyOf_congr hrecords ▸ h.names⟩
  | @handed w _ hh hrecords hsound hw =>
    have hwork : ∀ w' ∈ m.work, w' = w := fun w' hmem => by
      rwa [hw, hidle, List.nil_append, List.mem_singleton] at hmem
    refine ⟨ht, fun w' hmem => ?_, nodesOf_congr hrecords ▸ h.ids, fun w' hmem => ?_,
      aliveOf_congr hrecords ▸ topologyOf_congr hrecords ▸ h.names⟩
    · rw [hwork w' hmem]
      show w.Spares m.aliveOf
      rw [aliveOf_congr hrecords]
      exact spares_handed h.tidy.sound hh
    · rw [hwork w' hmem]
      show IdsNew m.nodesOf false w
      rw [nodesOf_congr hrecords]
      exact h.handed hg hh
  | @created name n o i dag _ id he hc hplan hi hp hw =>
    subst he
    obtain ⟨hn, hfresh⟩ := createCheck_name hc
    have hset : r.Sets ⟨m, r.started, false⟩ n i := fun k => by
      show (m.instances[k]?).map (·.core) = _
      rw [hi, BTreeMap.getElem?_insert_ite]
      split <;> rfl
    refine h.created id hplan (fun k j hj halive => ?_) ht hset ?_
    · have hmem : j ∈ r.manager.instances.values := by
        rw [BTreeMap.values_eq_map_toList]
        exact List.mem_map.2 ⟨(k, j), Std.ExtTreeMap.mem_toList_iff_getElem?_eq_some.2 hj, rfl⟩
      have hno := List.all_eq_true.1 hg j hmem
      rw [halive, Bool.true_and] at hno
      rw [hn]
      simpa using hno
    · show m.work = _
      rw [hw, hidle]
      rfl

/-- A record gets another status. -/
theorem Apart.marked (h : Apart r) (ht : Tidy r') {w : Work} {inst : String} {status : InstStatus}
    (hw : r.manager.work = [w]) (hmark : w.Marks inst status)
    (hi : r.manager.instances[inst]? = some i) (hset : r.Sets r' inst (i.withStatus status))
    (hjoined : r'.joined = r.joined) (hwork : ∀ w ∈ r'.manager.work, w ∈ r.manager.work) :
    Apart r' := by
  have hnodes := hset.nodes_same hi (i.topology_withStatus status) rfl
  have hj : r.joined = true → r'.joined = true := fun hj => hjoined.trans hj
  rcases h.spares w (by rw [hw]; exact .head _) with hdestroys | hlives
  · refine h.keep ht hnodes (fun k ha => ?_) (fun w' hmem => .inl ?_) hj hwork
    · rw [hset.aliveOf, hdestroys inst status hmark] at ha
      split at ha
      · cases ha
      · exact ha
    · have hsame := hwork w' hmem
      rw [hw, List.mem_singleton] at hsame
      exact hsame ▸ hdestroys
  · obtain ⟨hne, halive⟩ := hlives inst status hmark
    rw [aliveOf_of_get hi] at halive
    exact h.keep_all ht hnodes (hset.alive_same hi ((decide_eq_true hne).trans halive.symm)) hj hwork

/-- Every step keeps identities apart, unless a name or an id is ambiguous. -/
theorem Apart.step (h : Apart r) (hg : r.unambiguous ev = true) (hs : r.step ev = some r') :
    Apart r' := by
  have ht : Tidy r' := h.tidy.step (orderly_of_unambiguous hg) hs
  cases (step_turn h.tidy.sound hs).1 with
  | called hidle hcall => exact h.called hidle hg hcall ht
  | quiet hrecords hstarted hjoined hwork =>
    exact h.keep_all ht (nodesOf_congr hrecords) (aliveOf_congr hrecords) hjoined hwork
  | marked hw hmark hi hset hstarted hjoined hwork =>
    exact h.marked ht hw hmark hi hset hjoined hwork
  | started hw hstep => exact h.keep_all ht rfl rfl (fun hj => hj) fun _ hmem => hmem
  | replaced hw hstep hi => exact h.keep_all ht rfl rfl (fun hj => hj) fun _ hmem => hmem
  | @joined p w inst container role region az shard parent hostPort sid i r' hw hstep hi hset hstarted
      hjoined hwork =>
    have hwmem : w ∈ r.manager.work := by rw [hw]; exact .head _
    have hfalse : r.joined = false := by
      have hnot : (!r.joined) = true := hg
      simpa using hnot
    obtain ⟨hshard, hnew⟩ := (h.new w hwmem).joins hstep hfalse _ _ (nodesOf_of_get hi)
    refine h.set ht hset hi ((h.ids _ _ _ (nodesOf_of_get hi)).addNode fun n hn hgroup => ?_) rfl
      (fun t => ?_) (fun w' hmem => ?_) fun w' hmem => hwork ▸ hmem
    · rcases hgroup with hrows | hsame
      · exact hnew n hn (.inl hrows)
      · refine hnew n hn (hshard.imp id fun hne => ?_)
        rw [hsame]
        exact if_neg hne
    · rw [RdsInstance.topology_addNode, clashes_join, clashes_join_right]
      exact ⟨id, id⟩
    · rw [hwork, hw, List.mem_singleton] at hmem
      subst hmem
      refine (h.new _ hwmem).of_step hstep rfl (fun _ hno => ?_) fun heq => by cases heq
      rw [hjoined] at hno
      cases hno
  | @committed p w inst node host hostPort sid i r' hw hstep hi hset hstarted hjoined hwork =>
    have hwmem : w ∈ r.manager.work := by rw [hw]; exact .head _
    have hnew := (h.new w hwmem).replaces hstep _ _ (nodesOf_of_get hi)
    have hnd : (i.nodes.map (·.container)).Nodup := by
      rw [← topology_members]
      exact (h.tidy.named _ _ (topologyOf_of_get hi)).nodup
    refine h.set ht hset hi ((h.ids _ _ _ (nodesOf_of_get hi)).commitReplace hnd hnew) rfl
      (fun t => ?_) (fun w' hmem => ?_) fun w' hmem => hwork ▸ hmem
    · rw [RdsInstance.topology_commitReplace]
      exact ⟨id, id⟩
    · rw [hwork, hw, List.mem_singleton] at hmem
      subst hmem
      refine (h.new _ hwmem).of_step hstep rfl (fun heq => by cases heq) fun heq t nodes hnodes => ?_
      cases heq
      rw [hset.nodesOf, if_pos rfl] at hnodes
      cases hnodes
      intro n hn hne
      have hmod : (i.commitReplace node host hostPort sid).nodes = i.nodes.map fun n =>
          if n.container = node then { n with hostPort := hostPort, serverId := sid, host := node }
          else n := modifyFirst_eq_map hnd
      rw [hmod] at hn
      obtain ⟨n₀, hn₀, rfl⟩ := List.mem_map.1 hn
      split at hne
      · next hc => exact absurd hc hne
      next hc =>
        rw [if_neg hc]
        exact hnew n₀ hn₀ hc
  | @moved p w node host hostPort starts commits i r' hw hmig hi hmov hset hstarted hjoined hwork =>
    have hwmem : w ∈ r.manager.work := by rw [hw]; exact .head _
    cases commits with
    | false =>
      exact h.keep_all ht (nodesOf_congr hset) (aliveOf_congr hset) (fun hj => hjoined.trans hj)
        fun w' hmem => hwork ▸ hmem
    | true =>
      have hset' : r.Sets r' w.inst (i.commitReplace node host hostPort (i.maxServerId + 1)) := hset
      have hnd : (i.nodes.map (·.container)).Nodup := by
        rw [← topology_members]
        exact (h.tidy.named _ _ (topologyOf_of_get hi)).nodup
      refine h.set ht hset' hi ((h.ids _ _ _ (nodesOf_of_get hi)).commitReplace hnd
        fun n hn _ heq => ?_) rfl (fun t => ?_) (fun w' hmem => ?_) fun w' hmem => hwork ▸ hmem
      · have hle := le_maxServerId hn
        omega
      · rw [RdsInstance.topology_commitReplace]
        exact ⟨id, id⟩
      · rw [hwork, hw, List.mem_singleton] at hmem
        subst hmem
        exact (h.new _ hwmem).of_migration hmig _ _
  | @settled w region az hosts i r' hw hmig hi hset hstarted hjoined hwork =>
    have hwmem : w ∈ r.manager.work := by rw [hw]; exact .head _
    refine h.set ht hset hi ((h.ids _ _ _ (nodesOf_of_get hi)).atSite region az) rfl (fun t => ?_)
      (fun w' hmem => ?_) fun w' hmem => hwork ▸ hmem
    · rw [RdsInstance.topology_atSite]
      exact ⟨id, id⟩
    · rw [hwork, hw, List.mem_singleton] at hmem
      subst hmem
      exact (h.new _ hwmem).of_migration hmig _ _
  | @switched e servers answer inst mode opId cand target i m r' hw hi hm hpicked hknows hproceeds
      hfailing hset hstarted hjoined hwork =>
    refine h.set ht hset hi ((h.ids _ _ _ (nodesOf_of_get hi)).swapRoles m.container cand) rfl
      (fun t => ?_) (fun w hmem => ?_) fun w hmem => ?_
    · rw [RdsInstance.topology_swapRoles]
      exact ⟨id, id⟩
    · rw [hwork] at hmem
      cases hmem
    · rw [hwork] at hmem
      cases hmem

/-- **Identities never collide.** In every run in which a slave gets an id that is new to its group, no
instance is named like a shard of a live one and a node joins once, the server ids of a group are
different and no two containers of live instances share a name. -/
theorem identities_apart {h : History Registry RegistryEvent}
    (hr : Run step (fun _ r ev => r.unambiguous ev = true) Initial h r) : Identities r := by
  have hapart : Apart r := by
    refine Run.invariant (I := fun _ r => Apart r) (fun r h0 => ?_) ?_ hr
    · have hnone : ∀ k, r.manager.records k = none := fun k => by
        unfold Manager.records
        rw [h0.instances]
        rfl
      refine ⟨.initial h0, fun w hw => ?_, fun k t nodes hk => ?_, fun w hw => ?_,
        fun k k' t t' _ _ hk => ?_⟩
      · rw [h0.work] at hw
        cases hw
      · rw [Manager.nodesOf, hnone] at hk
        cases hk
      · rw [h0.work] at hw
        cases hw
      · rw [Manager.topologyOf, hnone] at hk
        cases hk
    · intro h r ev r' _ ha hg hs
      exact ha.step hg hs
  exact hapart.identities

end

/-- The containers of live instances. -/
def liveContainers (r : Registry) : List String :=
  (r.manager.instances.values.filter (·.alive)).flatMap (·.containers)

/-- An instance beside two shards, one of which it is named like. -/
def namesakes : List RegistryEvent :=
  creates twoShards ++ [.call (.create "db-s1" (.plain "async" 0)) .plain]

/-- A shard is scaled out. -/
theorem identities_apart_joined : ∃ h r,
    Run step (fun _ r ev => r.unambiguous ev = true) Initial h r ∧ liveContainers r =
      ["rds-db-s1-master", "rds-db-s1-slave-1", "rds-db-s1-slave-2", "rds-db-s2-master",
        "rds-db-s2-slave-1", "rds-db-s2-slave-2", "rds-db-s2-slave-3", "rds-db-proxy-1", "rds-db-proxy-2",
        "rds-db-lvs"] ∧ Identities r := by
  have hf : (follow step (fun _ r ev => r.unambiguous ev = true) joins [] fresh).map
      (fun r => liveContainers r.2) =
      some ["rds-db-s1-master", "rds-db-s1-slave-1", "rds-db-s1-slave-2", "rds-db-s2-master",
        "rds-db-s2-slave-1", "rds-db-s2-slave-2", "rds-db-s2-slave-3", "rds-db-proxy-1", "rds-db-proxy-2",
        "rds-db-lvs"] := by
    decide +kernel
  obtain ⟨⟨h, r⟩, hf, hlive⟩ := Option.map_eq_some_iff.1 hf
  have hr : Run step (fun _ r ev => r.unambiguous ev = true) Initial h r :=
    Run.follow (.start fresh_initial) hf
  exact ⟨h, r, hr, hlive, identities_apart hr⟩

/-- The master of the new instance has the container name of the master of the shard. -/
theorem identities_shared : ¬ ∀ h r, Run step (fun _ _ _ => True) Initial h r → Identities r := by
  intro hall
  have hf : (follow step (fun _ _ _ => True) namesakes [] fresh).map
      (fun r => decide (liveContainers r.2).Nodup) = some false := by
    decide +kernel
  obtain ⟨⟨h, r⟩, hf, hnodup⟩ := Option.map_eq_some_iff.1 hf
  have hids := hall h r (Run.follow (.start fresh_initial) hf)
  exact of_decide_eq_false hnodup hids.containers

end Registry

end Rdsctl.Inst
