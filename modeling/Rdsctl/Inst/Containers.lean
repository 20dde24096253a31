import Rdsctl.Inst.WellFormed

/-!
# Containers of instances

The names of the containers of a topology: its members, its proxies and its access. Two topologies with
different names share one only when one is a shard of the other by name: `name-s1` without shard rows,
beside `name` with a shard `s1`.
-/

namespace Rdsctl.Inst

open Topology

namespace Topology

/-- The containers of a topology. -/
def containers (t : Topology) : List String :=
  t.members.map (·.container) ++ (t.proxies ++ if t.access = "" then [] else [t.access])

/-- One topology has the name of a shard of another. -/
def Clashes (t t' : Topology) : Prop :=
  t'.xenon = false ∧ t'.rows = [] ∧ ∃ sh ∈ t.rows.map (·.id), t'.name = t.name ++ "-" ++ sh

/-- What the name of a container of a topology is made of. -/
inductive Names (t : Topology) : String → Prop
  | member {sh : String} {k : Nat} (hx : t.xenon = false) (hsh : sh ∈ t.groupIds) :
      Names t (memberName (t.stem sh) k)
  | raft {k : Nat} : Names t (xenonNodeC t.name k)
  | proxy {k : Nat} : Names t (proxyName t.name k)
  | access : Names t (lvsName t.name)

end Topology

variable {t t' : Topology} {c : String}

theorem Topology.clashes_join {m : Member} {role : String} :
    (t.join m role).Clashes t' ↔ t.Clashes t' := by
  unfold Clashes
  rw [join_rowIds]
  rfl

theorem Topology.clashes_join_right {m : Member} {role : String} :
    t.Clashes (t'.join m role) ↔ t.Clashes t' := by
  unfold Clashes
  rw [join_rows_eq_nil]
  rfl

theorem Named.names_member (h : Named t) (hc : c ∈ t.members.map (·.container)) :
    (∃ sh k, t.xenon = false ∧ sh ∈ t.groupIds ∧ c = memberName (t.stem sh) k) ∨
      ∃ k, c = xenonNodeC t.name k := by
  cases hx : t.xenon with
  | true =>
    rw [(h.raft hx).2] at hc
    obtain ⟨k, -, rfl⟩ := List.mem_map.1 hc
    exact .inr ⟨_, rfl⟩
  | false =>
    obtain ⟨m, hm, rfl⟩ := List.mem_map.1 hc
    obtain ⟨sh, hsh, -, k, -, heq⟩ := h.container_eq hx hm
    exact .inl ⟨sh, k, rfl, hsh, heq⟩

theorem Named.names_proxy (h : Named t) (hc : c ∈ t.proxies) : ∃ k, c = proxyName t.name k := by
  rw [h.proxies] at hc
  obtain ⟨k, -, rfl⟩ := List.mem_map.1 hc
  exact ⟨_, rfl⟩

theorem Named.names_access (h : Named t) (hc : c ∈ if t.access = "" then [] else [t.access]) :
    c = lvsName t.name := by
  split at hc
  · cases hc
  next hne => exact (List.mem_singleton.1 hc).trans (h.access.resolve_left hne)

theorem Named.names (h : Named t) (hc : c ∈ t.containers) : t.Names c := by
  rcases List.mem_append.1 hc with hc | hc
  · rcases h.names_member hc with ⟨sh, k, hx, hsh, rfl⟩ | ⟨k, rfl⟩
    · exact .member hx hsh
    · exact .raft
  rcases List.mem_append.1 hc with hc | hc
  · obtain ⟨k, rfl⟩ := h.names_proxy hc
    exact .proxy
  · rw [h.names_access hc]
    exact .access

/-- The containers of a topology have different names. -/
theorem Named.nodup_containers (h : Named t) : t.containers.Nodup := by
  have hproxies : t.proxies.Nodup := by
    rw [h.proxies]
    exact List.nodup_range.map fun _ _ heq => Nat.succ_inj.1 (proxyName_inj heq).2
  have haccess : (if t.access = "" then [] else [t.access]).Nodup := by
    split
    · exact .nil
    · exact List.nodup_singleton _
  refine h.nodup.append (hproxies.append haccess ?_) ?_
  · intro c hc hc'
    obtain ⟨k, rfl⟩ := h.names_proxy hc
    exact proxyName_ne_lvsName _ _ _ (h.names_access hc')
  · intro c hc hc'
    rcases h.names_member hc with ⟨sh, k, -, -, rfl⟩ | ⟨k, rfl⟩
    · rcases List.mem_append.1 hc' with hc' | hc'
      · obtain ⟨n, heq⟩ := h.names_proxy hc'
        exact memberName_ne_proxyName _ _ _ _ heq
      · exact memberName_ne_lvsName _ _ _ (h.names_access hc')
    · rcases List.mem_append.1 hc' with hc' | hc'
      · obtain ⟨n, heq⟩ := h.names_proxy hc'
        exact proxyName_ne_xenonNodeC _ _ _ _ heq.symm
      · exact lvsName_ne_xenonNodeC _ _ _ (h.names_access hc').symm

/-- Groups of one stem are of one instance, or one instance is a shard of the other by name. -/
theorem Named.name_of_stem (h : Named t) (h' : Named t') (hx : t.xenon = false)
    (hx' : t'.xenon = false) {sh sh' : String} (hsh : sh ∈ t.groupIds) (hsh' : sh' ∈ t'.groupIds)
    (heq : t.stem sh = t'.stem sh') : t.name = t'.name ∨ t.Clashes t' ∨ t'.Clashes t := by
  have hid {t : Topology} {sh : String} (hrows : t.rows ≠ []) (hsh : sh ∈ t.groupIds) :
      sh ∈ t.rows.map (·.id) := by
    rwa [groupIds, if_neg hrows] at hsh
  by_cases hrows : t.rows = []
  · by_cases hrows' : t'.rows = []
    · rw [stem, stem, if_pos hrows, if_pos hrows'] at heq
      exact .inl (stemOf_inj heq)
    · rw [stem, stem, if_pos hrows, if_neg hrows', stemOf_eq_shardStem] at heq
      exact .inr (.inr ⟨hx, hrows, sh', hid hrows' hsh', heq⟩)
  · by_cases hrows' : t'.rows = []
    · rw [stem, stem, if_neg hrows, if_pos hrows', eq_comm, stemOf_eq_shardStem] at heq
      exact .inr (.inl ⟨hx', hrows', sh, hid hrows hsh, heq⟩)
    · rw [stem, stem, if_neg hrows, if_neg hrows'] at heq
      obtain ⟨k, -, rfl⟩ := h.exists_shardId (hid hrows hsh)
      obtain ⟨k', -, rfl⟩ := h'.exists_shardId (hid hrows' hsh')
      exact .inl (shardStem_inj (plain_shardId _) (plain_shardId _) heq).1

/-- A container that two topologies share. -/
theorem Named.name_of_containers (h : Named t) (h' : Named t') (hc : c ∈ t.containers)
    (hc' : c ∈ t'.containers) : t.name = t'.name ∨ t.Clashes t' ∨ t'.Clashes t := by
  have hother := h'.names hc'
  cases h.names hc with
  | @member sh k hx hsh =>
    generalize heq : memberName (t.stem sh) k = c at hother
    cases hother with
    | member hx' hsh' => exact h.name_of_stem h' hx hx' hsh hsh' (memberName_inj heq).1
    | raft => exact absurd heq (memberName_ne_xenonNodeC _ _ _ _)
    | proxy => exact absurd heq (memberName_ne_proxyName _ _ _ _)
    | access => exact absurd heq (memberName_ne_lvsName _ _ _)
  | @raft k =>
    generalize heq : xenonNodeC t.name k = c at hother
    cases hother with
    | member => exact absurd heq.symm (memberName_ne_xenonNodeC _ _ _ _)
    | raft => exact .inl (stemOf_inj (xenonNodeC_inj heq).1)
    | proxy => exact absurd heq.symm (proxyName_ne_xenonNodeC _ _ _ _)
    | access => exact absurd heq.symm (lvsName_ne_xenonNodeC _ _ _)
  | @proxy k =>
    generalize heq : proxyName t.name k = c at hother
    cases hother with
    | member => exact absurd heq.symm (memberName_ne_proxyName _ _ _ _)
    | raft => exact absurd heq (proxyName_ne_xenonNodeC _ _ _ _)
    | proxy => exact .inl (stemOf_inj (proxyName_inj heq).1)
    | access => exact absurd heq (proxyName_ne_lvsName _ _ _)
  | access =>
    generalize heq : lvsName t.name = c at hother
    cases hother with
    | member => exact absurd heq.symm (memberName_ne_lvsName _ _ _)
    | raft => exact absurd heq (lvsName_ne_xenonNodeC _ _ _)
    | proxy => exact absurd heq.symm (proxyName_ne_lvsName _ _ _)
    | access => exact .inl (stemOf_inj (lvsName_inj heq))

end Rdsctl.Inst
