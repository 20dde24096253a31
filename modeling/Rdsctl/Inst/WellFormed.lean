import Rdsctl.Inst.Topology

/-!
# Well formed topologies

What names tell about a topology (`Named`), and what a topology is for (`WellFormed`): one master in
every group, which the others replicate from, and shard rows that name them. A node that joins under
the master of its group keeps both; a role swap keeps the names, and keeps a topology well formed when
there are no shard rows, which it does not touch.
-/

namespace Rdsctl.Inst

open Ha Dag

/-- The names of a topology. -/
structure Named (t : Topology) : Prop where
  belongs : t.rows ≠ [] → ∀ m ∈ t.members, m.shard ∈ t.rows.map (·.id)
  rowIds : t.rows.map (·.id) = (List.range t.rows.length).map fun k => shardId (k + 1)
  members : t.xenon = false → ∀ sh ∈ t.groupIds,
    (t.group sh).map (·.container) = memberNames (t.stem sh) (t.group sh).length
  raft : t.xenon = true → t.rows = [] ∧ t.members.map (·.container) =
    (List.range t.members.length).map fun k => xenonNodeC t.name (k + 1)
  one : t.xenon = false → t.rows = [] → ∃ m, t.members.filter (·.isMaster) = [m]
  proxies : t.proxies = (List.range t.proxies.length).map fun k => proxyName t.name (k + 1)
  access : t.access = "" ∨ t.access = lvsName t.name

/-- A shard row names the nodes of its group. -/
structure RowOk (row : ShardInfo) (g : List Member) (m : Member) : Prop where
  master : row.master = m.container
  slaves : row.slaves.map (·.name) = (g.filter (!·.isMaster)).map (·.container)
  slave : row.slave ∈ row.slaves.map (·.name)

/-- Every group has one master, which the others replicate from, and its shard row names them. -/
structure WellFormed (t : Topology) : Prop where
  belongs : t.rows ≠ [] → ∀ m ∈ t.members, m.shard ∈ t.rows.map (·.id)
  groups : ∀ sh ∈ t.groupIds, ∃ m, GroupOk (t.group sh) m ∧
    ∀ row ∈ t.rows, row.id = sh → RowOk row (t.group sh) m

/-- A node that a scale-out plans: the next of its group, under the master of the group. -/
structure Admits (t : Topology) (m : Member) : Prop where
  raft : t.xenon = false
  slave : m.isMaster = false
  shard : t.rows ≠ [] → m.shard ≠ ""
  member : ∃ sh ∈ t.groupIds, t.inGroup sh m = true ∧
    m.container = memberName (t.stem sh) (t.group sh).length ∧
    ∃ s ∈ t.group sh, s.isMaster = true ∧ s.container = m.parent

namespace Topology

variable {t : Topology} {sh : String} {m : Member} {role old cand : String}

theorem inGroup_iff : t.inGroup sh m = true ↔ t.rows = [] ∨ m.shard = sh := by
  simp [inGroup]

theorem group_of_rows (h : t.rows = []) : t.group sh = t.members := by
  unfold group
  refine List.filter_eq_self.2 fun m _ => inGroup_iff.2 (.inl h)

theorem mem_group : m ∈ t.group sh ↔ m ∈ t.members ∧ (t.rows = [] ∨ m.shard = sh) := by
  unfold group
  rw [List.mem_filter, inGroup_iff]

theorem groupIds_of_rows (h : t.rows = []) : t.groupIds = [""] := if_pos h

theorem mem_groupIds_of_row {row : ShardInfo} (h : row ∈ t.rows) : row.id ∈ t.groupIds := by
  unfold groupIds
  rw [if_neg (List.ne_nil_of_mem h)]
  exact List.mem_map_of_mem h

/-! ### Joining -/

theorem join_rowIds : (t.join m role).rows.map (·.id) = t.rows.map (·.id) := by
  unfold join
  dsimp only
  split
  · exact RdsInstance.map_modifyFirst _ fun _ => rfl
  · rfl

theorem join_rows_eq_nil : (t.join m role).rows = [] ↔ t.rows = [] := by
  rw [← List.map_eq_nil_iff (f := ShardInfo.id), join_rowIds, List.map_eq_nil_iff]

theorem join_length : (t.join m role).rows.length = t.rows.length := by
  have hids : (t.join m role).rows.map (·.id) = t.rows.map (·.id) := t.join_rowIds
  have hlength := congrArg List.length hids
  rwa [List.length_map, List.length_map] at hlength

theorem join_groupIds : (t.join m role).groupIds = t.groupIds := by
  unfold groupIds
  rw [join_rowIds]
  simp only [join_rows_eq_nil]

theorem join_stem : (t.join m role).stem sh = t.stem sh := by
  unfold stem
  simp only [join_rows_eq_nil]
  rfl

theorem join_inGroup : (t.join m role).inGroup sh = t.inGroup sh := by
  unfold inGroup
  simp only [join_rows_eq_nil]

theorem join_group : (t.join m role).group sh =
    t.group sh ++ if t.inGroup sh m then [m] else [] := by
  unfold group
  rw [join_inGroup]
  show (t.members ++ [m]).filter _ = _
  rw [List.filter_append, List.filter_singleton]
  cases t.inGroup sh m <;> rfl

/-- A node is in one group. -/
theorem inGroup_unique {sh' : String} (h : sh ∈ t.groupIds) (h' : sh' ∈ t.groupIds)
    (hm : t.inGroup sh m = true) (hm' : t.inGroup sh' m = true) : sh = sh' := by
  by_cases hrows : t.rows = []
  · rw [groupIds_of_rows hrows, List.mem_singleton] at h h'
    rw [h, h']
  · exact ((inGroup_iff.1 hm).resolve_left hrows).symm.trans
      ((inGroup_iff.1 hm').resolve_left hrows)

/-! ### Swapping -/

theorem swap_group : (t.swap old cand).group sh = (t.group sh).map (·.swapped old cand) := by
  unfold group swap
  dsimp only
  rw [List.filter_map]
  refine congrArg _ (List.filter_congr fun m _ => ?_)
  simp [inGroup]

theorem swap_containers :
    (t.swap old cand).members.map (·.container) = t.members.map (·.container) := by
  unfold swap
  rw [List.map_map]
  exact List.map_congr_left fun m _ => m.swapped_container old cand

end Topology

open Topology

/-! ## Names -/

namespace Named

variable {t : Topology} {m : Member} {role sh : String} (h : Named t)
include h

theorem exists_shardId {sh : String} (hsh : sh ∈ t.rows.map (·.id)) :
    ∃ k, k < t.rows.length ∧ shardId (k + 1) = sh := by
  rw [h.rowIds] at hsh
  obtain ⟨k, hk, rfl⟩ := List.mem_map.1 hsh
  exact ⟨k, List.mem_range.1 hk, rfl⟩

theorem rowIds_nodup : (t.rows.map (·.id)).Nodup := by
  rw [h.rowIds]
  exact List.nodup_range.map fun _ _ heq => Nat.succ_inj.1 (shardId_inj heq)

theorem nodup_group (hx : t.xenon = false) (hsh : sh ∈ t.groupIds) :
    ((t.group sh).map (·.container)).Nodup := by
  rw [h.members hx sh hsh]
  exact nodup_memberNames _ _

/-- The name of a member, with its group. -/
theorem container_eq (hx : t.xenon = false) (hm : m ∈ t.members) :
    ∃ sh ∈ t.groupIds, t.inGroup sh m = true ∧
      ∃ k, k < (t.group sh).length ∧ m.container = memberName (t.stem sh) k := by
  obtain ⟨sh, hsh, hin⟩ : ∃ sh ∈ t.groupIds, t.inGroup sh m = true := by
    by_cases hrows : t.rows = []
    · exact ⟨"", by simp [groupIds_of_rows hrows], inGroup_iff.2 (.inl hrows)⟩
    · refine ⟨m.shard, ?_, inGroup_iff.2 (.inr rfl)⟩
      rw [groupIds, if_neg hrows]
      exact h.belongs hrows m hm
  refine ⟨sh, hsh, hin, ?_⟩
  have hmem : m.container ∈ (t.group sh).map (·.container) :=
    List.mem_map_of_mem (List.mem_filter.2 ⟨hm, hin⟩)
  rw [h.members hx sh hsh, mem_memberNames] at hmem
  obtain ⟨k, hk, heq⟩ := hmem
  exact ⟨k, hk, heq.symm⟩

/-- Groups have different stems. -/
theorem stem_inj {sh sh' : String} (hsh : sh ∈ t.groupIds) (hsh' : sh' ∈ t.groupIds)
    (heq : t.stem sh = t.stem sh') : sh = sh' := by
  by_cases hrows : t.rows = []
  · rw [groupIds_of_rows hrows, List.mem_singleton] at hsh hsh'
    rw [hsh, hsh']
  · rw [groupIds, if_neg hrows] at hsh hsh'
    obtain ⟨k, -, rfl⟩ := h.exists_shardId hsh
    obtain ⟨k', -, rfl⟩ := h.exists_shardId hsh'
    rw [stem, stem, if_neg hrows, if_neg hrows] at heq
    exact (shardStem_inj (plain_shardId _) (plain_shardId _) heq).2

/-- Nodes have different names. -/
theorem nodup : (t.members.map (·.container)).Nodup := by
  cases hx : t.xenon with
  | true =>
    rw [(h.raft hx).2]
    exact List.nodup_range.map fun _ _ heq => Nat.succ_inj.1 (xenonNodeC_inj heq).2
  | false =>
    by_cases hrows : t.rows = []
    · have hgroup : ((t.group "").map (·.container)).Nodup :=
        h.nodup_group hx (by simp [groupIds_of_rows hrows])
      rwa [group_of_rows hrows] at hgroup
    · have hkey : ∀ m ∈ t.members, ∀ n ∈ t.members, m.container = n.container →
          m.shard = n.shard := by
        intro m hm n hn heq
        obtain ⟨sh, hsh, hin, k, -, hc⟩ := h.container_eq hx hm
        obtain ⟨sh', hsh', hin', k', -, hc'⟩ := h.container_eq hx hn
        have hstem := (memberName_inj (hc.symm.trans (heq.trans hc'))).1
        rw [(inGroup_iff.1 hin).resolve_left hrows, (inGroup_iff.1 hin').resolve_left hrows]
        exact h.stem_inj hsh hsh' hstem
      refine nodup_map_of_key hkey fun sh => ?_
      by_cases hsh : sh ∈ t.rows.map (·.id)
      · have hgroup : ((t.group sh).map (·.container)).Nodup :=
          h.nodup_group hx (by rwa [groupIds, if_neg hrows])
        have hfilter : t.members.filter (fun m => m.shard = sh) = t.group sh :=
          List.filter_congr fun m _ => by simp [inGroup, hrows]
        rwa [hfilter]
      · rw [List.filter_eq_nil_iff.2 fun m hm => ?_]
        · exact .nil
        · simp only [decide_eq_true_eq]
          exact fun heq => hsh (heq ▸ h.belongs hrows m hm)

/-- The name of a node that joins is new. -/
theorem fresh (ha : Admits t m) : m.container ∉ t.members.map (·.container) := by
  intro hmem
  obtain ⟨n, hn, heq⟩ := List.mem_map.1 hmem
  obtain ⟨sh, hsh, -, hc, -⟩ := ha.member
  obtain ⟨sh', hsh', hin', k, hk, hc'⟩ := h.container_eq ha.raft hn
  obtain ⟨hstem, hlength⟩ := memberName_inj (hc'.symm.trans (heq.trans hc))
  have hsame := h.stem_inj hsh' hsh hstem
  subst hsame
  omega

theorem join (ha : Admits t m) : Named (t.join m role) where
  belongs := by
    intro hrows n hn
    rw [join_rowIds]
    have hrows' : t.rows ≠ [] := fun heq => hrows (join_rows_eq_nil.2 heq)
    rcases List.mem_append.1 hn with hn | hn
    · exact h.belongs hrows' n hn
    · obtain ⟨sh, hsh, hin, -, -⟩ := ha.member
      rw [List.mem_singleton.1 hn, (inGroup_iff.1 hin).resolve_left hrows']
      rwa [groupIds, if_neg hrows'] at hsh
  rowIds := by rw [join_rowIds, join_length, h.rowIds]
  members := by
    intro hx sh hsh
    rw [join_groupIds] at hsh
    rw [join_group, join_stem]
    obtain ⟨sh', hsh', hin, hc, -⟩ := ha.member
    cases hsame : t.inGroup sh m with
    | true =>
      obtain rfl := inGroup_unique hsh hsh' hsame hin
      rw [if_pos rfl, List.map_append, h.members hx sh hsh, List.length_append, List.map_cons,
        List.map_nil, hc]
      exact (memberNames_succ _ _).symm
    | false =>
      rw [if_neg (by simp), List.append_nil, h.members hx sh hsh]
  raft := fun hx => by
    have hraft := ha.raft
    rw [show t.xenon = true from hx] at hraft
    cases hraft
  one := by
    intro hx hrows
    obtain ⟨s, hs⟩ := h.one hx (join_rows_eq_nil.1 hrows)
    refine ⟨s, ?_⟩
    show (t.members ++ [m]).filter _ = _
    rw [List.filter_append, hs, List.filter_singleton, ha.slave]
    rfl
  proxies := h.proxies
  access := h.access

theorem swap {old c : Member} (hx : t.xenon = false → t.rows = [] →
      old ∈ t.members ∧ old.isMaster = true ∧ c ∈ t.members ∧ c.container ≠ old.container) :
    Named (t.swap old.container c.container) where
  belongs := by
    intro hrows n hn
    obtain ⟨m, hm, rfl⟩ := List.mem_map.1 hn
    rw [Member.swapped_shard]
    exact h.belongs hrows m hm
  rowIds := h.rowIds
  members := by
    intro hno sh hsh
    rw [swap_group, List.length_map, List.map_map]
    have hmembers := h.members hno sh hsh
    refine Eq.trans (List.map_congr_left fun m _ => ?_) hmembers
    exact m.swapped_container _ _
  raft := by
    intro hraft
    rw [swap_containers]
    refine ⟨(h.raft hraft).1, (h.raft hraft).2.trans ?_⟩
    rw [show (t.swap old.container c.container).members.length = t.members.length from
      List.length_map _]
    rfl
  one := by
    intro hno hrows
    obtain ⟨hold, hmaster, hc, hne⟩ := hx hno hrows
    obtain ⟨m, hm⟩ := h.one hno hrows
    obtain rfl := eq_of_master hm hold hmaster
    exact ⟨_, filter_swapped hm h.nodup hc hne⟩
  proxies := h.proxies
  access := h.access

end Named

/-! ## Well formed topologies -/

/-- With different keys, the first element with a key is the only one. -/
theorem modifyFirst_eq_map {α κ : Type} [DecidableEq κ] {l : List α} {key : α → κ} {k : κ}
    {f : α → α} (hnd : (l.map key).Nodup) :
    modifyFirst (fun a => key a = k) f l = l.map fun a => if key a = k then f a else a := by
  induction l with
  | nil => rfl
  | cons a as ih =>
    rw [List.map_cons, List.nodup_cons] at hnd
    rw [modifyFirst, List.map_cons]
    by_cases hk : key a = k
    · have hrest : (as.map fun b => if key b = k then f b else b) = as := by
        refine (List.map_congr_left fun b hb => if_neg fun hkb => ?_).trans (List.map_id as)
        exact hnd.1 (hk.trans hkb.symm ▸ List.mem_map_of_mem hb)
      rw [if_pos (by simpa using hk), if_pos hk, hrest]
    · rw [if_neg (by simpa using hk), if_neg hk, ih hnd.2]

/-- A slave that is not in the row yet is added at its end. -/
theorem RowOk.addSlave {row : ShardInfo} {g : List Member} {m n : Member} {role : String}
    (h : RowOk row g m) (hslave : n.isMaster = false)
    (hnew : n.container ∉ g.map (·.container)) (hne : row.slave ≠ "") :
    RowOk (row.addSlave n.container role) (g ++ [n]) m := by
  have hno : row.slaves.any (·.name = n.container) = false := by
    rw [Bool.eq_false_iff, ne_eq, List.any_eq_true]
    rintro ⟨s, hs, heq⟩
    have hmem : s.name ∈ row.slaves.map (·.name) := List.mem_map_of_mem hs
    rw [h.slaves, of_decide_eq_true heq] at hmem
    exact hnew ((List.filter_sublist.map _).subset hmem)
  have hslaves : (row.addSlave n.container role).slaves.map (·.name) =
      row.slaves.map (·.name) ++ [n.container] := by
    unfold ShardInfo.addSlave
    rw [hno]
    simp
  have hkeep : (row.addSlave n.container role).slave = row.slave := if_neg hne
  constructor
  · exact h.master
  · rw [hslaves, h.slaves, List.filter_append, List.map_append, List.filter_singleton, hslave]
    rfl
  · rw [hslaves, hkeep]
    exact List.mem_append_left _ h.slave

namespace WellFormed

variable {t : Topology} {m : Member} {role : String}

/-- The names in a row are those of nodes. -/
theorem slave_ne_empty (hn : Named t) (hx : t.xenon = false) {row : ShardInfo} {s : Member}
    (hrow : row ∈ t.rows) (hok : RowOk row (t.group row.id) s) : row.slave ≠ "" := by
  have hmem := hok.slave
  rw [hok.slaves] at hmem
  have hname := (List.filter_sublist.map _).subset hmem
  rw [hn.members hx _ (mem_groupIds_of_row hrow), mem_memberNames] at hname
  obtain ⟨k, -, hk⟩ := hname
  rw [← hk]
  intro hempty
  have hlength := congrArg (fun s => s.toList.length) hempty
  cases k <;> simp [memberName] at hlength

theorem join (h : WellFormed t) (hn : Named t) (ha : Admits t m) : WellFormed (t.join m role) where
  belongs := (hn.join ha).belongs
  groups := by
    intro sh hsh
    rw [join_groupIds] at hsh
    obtain ⟨s, hs, hrows⟩ := h.groups sh hsh
    have hrow_of : ∀ row ∈ (t.join m role).rows, ∃ r ∈ t.rows, r.id = row.id ∧
        row = if r.id = m.shard then r.addSlave m.container role else r := by
      intro row hrow
      have hne : t.rows ≠ [] := fun heq => by
        rw [join_rows_eq_nil.2 heq] at hrow
        cases hrow
      have hjoin : (t.join m role).rows =
          t.rows.map fun r => if r.id = m.shard then r.addSlave m.container role else r :=
        (if_pos ⟨hne, ha.shard hne⟩).trans (modifyFirst_eq_map hn.rowIds_nodup)
      rw [hjoin] at hrow
      obtain ⟨r, hr, heq⟩ := List.mem_map.1 hrow
      refine ⟨r, hr, ?_, heq.symm⟩
      rw [← heq]
      split <;> rfl
    rw [join_group]
    cases hin : t.inGroup sh m with
    | false =>
      rw [if_neg (by simp), List.append_nil]
      refine ⟨s, hs, fun row hrow hid => ?_⟩
      obtain ⟨r, hr, hrid, rfl⟩ := hrow_of row hrow
      have hother : r.id ≠ m.shard := by
        intro heq
        rw [hrid, hid] at heq
        rw [inGroup_iff.2 (.inr heq.symm)] at hin
        cases hin
      rw [if_neg hother]
      exact hrows r hr (hrid.trans hid)
    | true =>
      rw [if_pos rfl]
      obtain ⟨sh', hsh', hin', hc, src, hsrc, hmaster, hparent⟩ := ha.member
      obtain rfl := inGroup_unique hsh hsh' hin hin'
      have hsame : src = s := eq_of_master hs.master hsrc hmaster
      subst hsame
      refine ⟨src, hs.join ha.slave hparent.symm, fun row hrow hid => ?_⟩
      obtain ⟨r, hr, hrid, rfl⟩ := hrow_of row hrow
      have hne : t.rows ≠ [] := List.ne_nil_of_mem hr
      have hshard : r.id = m.shard :=
        (hrid.trans hid).trans ((inGroup_iff.1 hin).resolve_left hne).symm
      rw [if_pos hshard]
      have hok := hrows r hr (hrid.trans hid)
      have hnew : m.container ∉ (t.group sh).map (·.container) := fun hmem =>
        hn.fresh ha ((List.filter_sublist.map _).subset hmem)
      refine hok.addSlave ha.slave hnew (slave_ne_empty hn ha.raft hr (s := src) ?_)
      rwa [hrid.trans hid]

/-- Without shard rows a role swap keeps a topology well formed. -/
theorem swap (h : WellFormed t) (hn : Named t) (hrows : t.rows = []) {old c : Member}
    (hold : old ∈ t.members) (hmaster : old.isMaster = true) (hc : c ∈ t.members)
    (hne : c.container ≠ old.container) : WellFormed (t.swap old.container c.container) where
  belongs := fun hno => absurd hrows hno
  groups := by
    intro sh hsh
    obtain ⟨s, hs, -⟩ := h.groups sh hsh
    rw [swap_group]
    rw [group_of_rows hrows] at hs ⊢
    obtain rfl := eq_of_master hs.master hold hmaster
    refine ⟨_, hs.swap hn.nodup hc hne, fun row hrow => ?_⟩
    rw [show (t.swap old.container c.container).rows = [] from hrows] at hrow
    cases hrow

end WellFormed

end Rdsctl.Inst
