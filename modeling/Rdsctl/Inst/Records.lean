import Rdsctl.Inst.Registry

/-!
# Records of a registry

What the updates of `RdsManager` leave of the records: their topologies and their nodes. `Sound` says
that records are kept under their names and that the store has the same ones; every update that
`src/instance.rs` makes keeps it, as it is followed by `persist`, so that a restart finds the records
as they were.
-/

namespace Rdsctl.Inst

open Ha Dag Fallible

/-- The instance has not been destroyed. -/
def RdsInstance.alive (i : RdsInstance) : Bool := i.status ≠ .destroyed

/-- What a record says of its topology and of its nodes, and whether it is of a live instance. -/
def RdsInstance.core (i : RdsInstance) : Topology × List InstNode × Bool :=
  (i.topology, i.nodes, i.alive)

namespace Manager

/-- The records, as far as nodes go. -/
def records (m : Manager) (k : String) : Option (Topology × List InstNode × Bool) :=
  (m.instances[k]?).map (·.core)

/-- Records are kept under their names, and the store has the same ones. -/
structure Sound (m : Manager) : Prop where
  named : ∀ k (i : RdsInstance), m.instances[k]? = some i → i.name = k
  synced : ∀ k, (m.persisted[k]?).map (·.core) = m.records k

variable {m : Manager} {k name : String}

/-- Rows that are inserted in turn. -/
theorem foldl_insert_of_ne {l : List (String × RdsInstance)} {rows : BTreeMap String RdsInstance}
    (h : ∀ p ∈ l, p.2.name ≠ k) :
    (l.foldl (fun rows p => rows.insert p.2.name p.2) rows)[k]? = rows[k]? := by
  induction l generalizing rows with
  | nil => rfl
  | cons p l ih =>
    rw [List.foldl_cons, ih fun q hq => h q (.tail _ hq), BTreeMap.getElem?_insert_ite,
      if_neg (h p (.head _))]

theorem foldl_insert_of_eq {l : List (String × RdsInstance)} {rows : BTreeMap String RdsInstance}
    {i : RdsInstance} (h : ∀ p ∈ l, p.2.name = k → p.2 = i)
    (hin : rows[k]? = some i ∨ ∃ p ∈ l, p.2.name = k) :
    (l.foldl (fun rows p => rows.insert p.2.name p.2) rows)[k]? = some i := by
  induction l generalizing rows with
  | nil => exact hin.resolve_right fun ⟨p, hp, _⟩ => by cases hp
  | cons p l ih =>
    rw [List.foldl_cons]
    refine ih (fun q hq => h q (.tail _ hq)) ?_
    by_cases hp : p.2.name = k
    · exact .inl (by rw [BTreeMap.getElem?_insert_ite, if_pos hp, h p (.head _) hp])
    · rw [BTreeMap.getElem?_insert_ite, if_neg hp]
      refine hin.imp id ?_
      rintro ⟨q, hq, hqk⟩
      rcases List.mem_cons.1 hq with rfl | hq
      · exact absurd hqk hp
      · exact ⟨q, hq, hqk⟩

/-- The rows after `persist`. -/
theorem persist_get (h : ∀ k (i : RdsInstance), m.instances[k]? = some i → i.name = k) (k : String) :
    m.persist.persisted[k]? = (m.instances[k]?).or m.persisted[k]? := by
  have hmem : ∀ p ∈ m.instances.toList, m.instances[p.1]? = some p.2 := fun p hp =>
    Std.ExtTreeMap.mem_toList_iff_getElem?_eq_some.1 hp
  show (m.instances.foldl (fun rows _ i => rows.insert i.name i) m.persisted)[k]? = _
  rw [Std.ExtTreeMap.foldl_eq_foldl_toList]
  cases hi : m.instances[k]? with
  | none =>
    refine foldl_insert_of_ne fun p hp heq => ?_
    rw [h _ _ (hmem p hp)] at heq
    rw [← heq, hmem p hp] at hi
    cases hi
  | some i =>
    refine foldl_insert_of_eq (i := i) (fun p hp heq => ?_) (.inr ⟨(k, i), ?_, h k i hi⟩)
    · rw [h _ _ (hmem p hp)] at heq
      have hp' := hmem p hp
      rw [heq, hi] at hp'
      exact (Option.some.inj hp').symm
    · exact Std.ExtTreeMap.mem_toList_iff_getElem?_eq_some.2 hi

namespace Sound

theorem congr {m' : Manager} (h : m.Sound) (hi : m'.instances = m.instances)
    (hp : m'.persisted = m.persisted) : m'.Sound := by
  refine ⟨fun k i => ?_, fun k => ?_⟩
  · rw [hi]
    exact h.named k i
  · rw [hp, records, hi]
    exact h.synced k

/-- A record of a sound manager is persisted under its name. -/
theorem persist (h : m.Sound) {m' : Manager}
    (hnamed : ∀ k (i : RdsInstance), m'.instances[k]? = some i → i.name = k)
    (hold : ∀ k : String, m'.instances[k]? = none → m.instances[k]? = none)
    (hp : m'.persisted = m.persisted) : m'.persist.Sound := by
  refine ⟨hnamed, fun k => ?_⟩
  rw [persist_get hnamed, records, persist_instances]
  cases hi : m'.instances[k]? with
  | some i => rfl
  | none =>
    rw [Option.none_or, hp, h.synced k, records, hold k hi]

theorem insert (h : m.Sound) {i : RdsInstance} (hi : i.name = name) :
    (m.insertInstance name i).persist.Sound := by
  refine h.persist (fun k j hj => ?_) (fun k hk => ?_) rfl
  · rw [insertInstance_get] at hj
    split at hj
    · next heq => rw [← Option.some.inj hj, hi, heq]
    · exact h.named k j hj
  · rw [insertInstance_get] at hk
    split at hk
    · cases hk
    · exact hk

theorem alter (h : m.Sound) {f : RdsInstance → RdsInstance} (hf : ∀ i, (f i).name = i.name) :
    (m.alterInstance name f).persist.Sound := by
  have hp : (m.alterInstance name f).persisted = m.persisted := by
    unfold alterInstance
    split <;> rfl
  refine h.persist (fun k j hj => ?_) (fun k hk => ?_) hp
  · rw [alterInstance_get] at hj
    split at hj
    · obtain ⟨i, hi, rfl⟩ := Option.map_eq_some_iff.1 hj
      rw [hf, h.named k i hi]
    · exact h.named k j hj
  · rw [alterInstance_get] at hk
    split at hk
    · exact Option.map_eq_none_iff.1 hk
    · exact hk

end Sound

theorem records_insert (i : RdsInstance) (k : String) :
    (m.insertInstance name i).persist.records k = if name = k then some i.core else m.records k := by
  unfold records
  rw [persist_instances, insertInstance_get]
  split <;> rfl

theorem records_alter (f : RdsInstance → RdsInstance) (k : String) :
    (m.alterInstance name f).persist.records k =
      if name = k then (m.instances[k]?).map fun i => (f i).core else m.records k := by
  unfold records
  rw [persist_instances, alterInstance_get]
  split
  · rw [Option.map_map]
    rfl
  · rfl

/-- An update that nodes do not notice. -/
theorem records_alter_same {f : RdsInstance → RdsInstance} (hf : ∀ i, (f i).core = i.core)
    (k : String) : (m.alterInstance name f).persist.records k = m.records k := by
  rw [records_alter]
  split
  · simp only [hf]
    rfl
  · rfl

/-- An update of one record. -/
theorem records_alter_some {f : RdsInstance → RdsInstance} {i : RdsInstance}
    (hi : m.instances[name]? = some i) (k : String) :
    (m.alterInstance name f).persist.records k =
      if name = k then some (f i).core else m.records k := by
  rw [records_alter]
  split
  · next heq => rw [← heq, hi, Option.map_some]
  · rfl

theorem core_loaded (p : Process) (clustered : Bool) (i : RdsInstance) :
    (i.loaded p clustered).core = i.core := by
  have hnodes : (i.loaded p clustered).nodes = i.nodes := by
    unfold RdsInstance.loaded
    dsimp only
    split <;> rfl
  have halive : (i.loaded p clustered).alive = i.alive := by
    unfold RdsInstance.loaded
    dsimp only
    split
    · next hprogress =>
      refine (decide_eq_true (fun heq => ?_) : i.alive = true).symm
      rw [heq] at hprogress
      exact absurd hprogress.2 (by decide)
    · rfl
  unfold RdsInstance.core
  rw [RdsInstance.topology_loaded, hnodes, halive]

/-- A restart finds the records as they were. -/
theorem records_loadPersisted (h : m.Sound) (p : Process) (k : String) :
    (m.loadPersisted p).records k = m.records k := by
  unfold records loadPersisted
  dsimp only
  rw [Std.ExtTreeMap.getElem?_map, Option.map_map]
  simp only [Function.comp_def, core_loaded]
  exact h.synced k

theorem Sound.loadPersisted (h : m.Sound) (p : Process) : (m.loadPersisted p).Sound := by
  refine ⟨fun k i hi => ?_, fun k => ?_⟩
  · have hrecord : (m.loadPersisted p).records k = some i.core := by rw [records, hi]; rfl
    rw [records_loadPersisted h, records] at hrecord
    obtain ⟨j, hj, hcore⟩ := Option.map_eq_some_iff.1 hrecord
    rw [← h.named k j hj]
    exact (congrArg (fun c => c.1.name) hcore).symm
  · rw [records_loadPersisted h]
    exact h.synced k

/-! ## What the steps of tasks do -/

section

variable (h : m.Sound)
include h

theorem Sound.updateInstanceStatus (inst status : String) :
    (m.updateInstanceStatus inst status).Sound :=
  h.alter fun _ => rfl

theorem Sound.taskFailed (inst taskId : String) : (m.taskFailed inst taskId).Sound :=
  h.alter fun i => by split <;> rfl

theorem Sound.switchFailed (inst msg : String) : (m.switchFailed inst msg).Sound :=
  h.alter fun _ => rfl

theorem Sound.unlock (inst : String) (answer : Proposal) : (m.unlock inst answer).Sound :=
  h.congr rfl rfl

theorem Sound.taskEnded (inst taskId : String) (watcher : Watcher) (failed : Bool)
    (answer : Proposal) : (m.taskEnded inst taskId watcher failed answer).Sound := by
  unfold Manager.taskEnded
  dsimp only
  split
  · exact (h.unlock inst answer).taskFailed inst taskId
  · exact h.unlock inst answer

end

theorem records_taskFailed (inst taskId k : String) :
    (m.taskFailed inst taskId).records k = m.records k := by
  unfold taskFailed
  refine records_alter_same (fun i => ?_) k
  split
  · rfl
  · next halive =>
    have hsame : i.alive = true := decide_eq_true halive
    unfold RdsInstance.core
    rw [hsame]
    rfl

theorem records_taskEnded (inst taskId : String) (watcher : Watcher) (failed : Bool)
    (answer : Proposal) (k : String) :
    (m.taskEnded inst taskId watcher failed answer).records k = m.records k := by
  unfold Manager.taskEnded
  dsimp only
  split
  · exact records_taskFailed inst taskId k
  · rfl

end Manager

end Rdsctl.Inst
