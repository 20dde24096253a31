import Rdsctl.Inst.Names
import Rdsctl.Inst.Effects

/-!
# Topologies

What a registry record says of replication, without hosts, ports and server ids: who is in which
group, who is whose source, and what the shard rows say. `Named` is what names tell about a topology,
`WellFormed` is what it is for. A node joins a group, two nodes swap their roles, and nothing else
that `src/instance.rs` does to a record changes its topology.
-/

namespace Rdsctl.Inst

open Ha Dag

/-- A node of a topology. -/
structure Member where
  container : String
  role : Role
  shard : String
  parent : String
deriving DecidableEq, Repr

/-- What a record says of replication. -/
structure Topology where
  name : String
  xenon : Bool
  rows : List ShardInfo
  members : List Member
  proxies : List String
  access : String

def InstNode.member (n : InstNode) : Member := ⟨n.container, n.role, n.shard, n.parent⟩

def RdsInstance.topology (i : RdsInstance) : Topology where
  name := i.name
  xenon := i.itype = "xenon"
  rows := i.shards
  members := i.nodes.map InstNode.member
  proxies := i.proxies.map (·.container)
  access := i.lvsContainer

namespace Member

def isMaster (m : Member) : Bool := m.role = .master

theorem isMaster_iff {m : Member} : m.isMaster = true ↔ m.role = .master := decide_eq_true_iff

theorem isMaster_eq_false {m : Member} : m.isMaster = false ↔ m.role ≠ .master :=
  decide_eq_false_iff_not

/-- What the role swap does. -/
def swapped (old cand : String) (m : Member) : Member :=
  if m.container = old ∧ m.role = .master then { m with role := .read, parent := cand }
  else if m.container = cand ∧ m.role ≠ .master then { m with role := .master, parent := "" }
  else if m.role ≠ .master ∧ m.container ≠ old ∧ m.parent = old then { m with parent := cand }
  else m

@[simp] theorem swapped_container (old cand : String) (m : Member) :
    (m.swapped old cand).container = m.container := by
  unfold swapped
  split_ifs <;> rfl

@[simp] theorem swapped_shard (old cand : String) (m : Member) :
    (m.swapped old cand).shard = m.shard := by
  unfold swapped
  split_ifs <;> rfl

end Member

namespace Topology

variable (t : Topology)

/-- A member is in the group of a shard; without shard rows there is one group. -/
def inGroup (sh : String) (m : Member) : Bool := t.rows = [] ∨ m.shard = sh

/-- The group of a shard. -/
def group (sh : String) : List Member := t.members.filter (t.inGroup sh)

/-- The shards. -/
def groupIds : List String := if t.rows = [] then [""] else t.rows.map (·.id)

/-- The stem of the names in a group. -/
def stem (sh : String) : String := if t.rows = [] then stemOf t.name else shardStem t.name sh

/-- A node joins. -/
def join (m : Member) (role : String) : Topology :=
  { t with
    members := t.members ++ [m]
    rows := if t.rows ≠ [] ∧ m.shard ≠ "" then
      modifyFirst (·.id = m.shard) (·.addSlave m.container role) t.rows else t.rows }

/-- Two nodes swap their roles. -/
def swap (old cand : String) : Topology := { t with members := t.members.map (·.swapped old cand) }

end Topology

/-! ## What updates of a record do to its topology -/

namespace RdsInstance

variable (i : RdsInstance)

@[simp] theorem topology_withStatus (status : InstStatus) :
    (i.withStatus status).topology = i.topology := rfl

theorem topology_addNode (container role : String) (hostPort serverId : Nat)
    (region az shard parent : String) :
    (i.addNode container role hostPort serverId region az shard parent).topology =
      i.topology.join ⟨container, roleNamed role, i.shardFor shard, i.parentFor parent⟩ role := by
  simp only [topology, addNode, Topology.join, List.map_append, List.map_cons, List.map_nil]
  rfl

theorem map_modifyFirst {α β : Type} {p : α → Bool} {f : α → α} {g : α → β} (l : List α)
    (h : ∀ a, g (f a) = g a) : (modifyFirst p f l).map g = l.map g := by
  induction l with
  | nil => rfl
  | cons a as ih =>
    rw [modifyFirst]
    split
    · rw [List.map_cons, List.map_cons, h]
    · rw [List.map_cons, List.map_cons, ih]

@[simp] theorem topology_commitReplace (node host : String) (hostPort serverId : Nat) :
    (i.commitReplace node host hostPort serverId).topology = i.topology := by
  have hnodes : (i.commitReplace node host hostPort serverId).nodes.map InstNode.member =
      i.nodes.map InstNode.member := map_modifyFirst _ fun _ => rfl
  show ({ i.topology with
    members := (i.commitReplace node host hostPort serverId).nodes.map InstNode.member } : Topology) =
      i.topology
  rw [hnodes]
  rfl

@[simp] theorem topology_atSite (region az : String) :
    (i.atSite region az).topology = i.topology := by
  simp only [topology, atSite, List.map_map]
  rfl

theorem topology_swapRoles (old cand : String) :
    (i.swapRoles old cand).topology = i.topology.swap old cand := by
  simp only [topology, swapRoles, Topology.swap, List.map_map]
  congr 1
  refine List.map_congr_left fun n _ => ?_
  simp only [Function.comp_apply, InstNode.swapped, Member.swapped]
  split_ifs <;> first | rfl | contradiction

@[simp] theorem topology_loaded (p : Process) (clustered : Bool) :
    (i.loaded p clustered).topology = i.topology := by
  unfold loaded
  dsimp only
  split <;> rfl

end RdsInstance

/-! ## Groups -/

/-- The element of a list that an image tells. -/
theorem filter_eq_singleton {α β : Type} [DecidableEq β] {l : List α} {f : α → β} {a : α}
    (hnd : (l.map f).Nodup) (ha : a ∈ l) : l.filter (fun b => f b = f a) = [a] := by
  induction l with
  | nil => cases ha
  | cons b l ih =>
    rw [List.map_cons, List.nodup_cons] at hnd
    rcases List.mem_cons.1 ha with rfl | ha
    · rw [List.filter_cons_of_pos (by simp), List.filter_eq_nil_iff.2 fun c hc => ?_]
      simp only [decide_eq_true_eq]
      exact fun heq => hnd.1 (heq ▸ List.mem_map_of_mem hc)
    · rw [List.filter_cons_of_neg, ih hnd.2 ha]
      simp only [decide_eq_true_eq]
      exact fun heq => hnd.1 (heq ▸ List.mem_map_of_mem ha)

/-- Elements with one image are the same. -/
theorem eq_of_nodup_map {α β : Type} {l : List α} {f : α → β} {a b : α} (hnd : (l.map f).Nodup)
    (ha : a ∈ l) (hb : b ∈ l) (h : f a = f b) : a = b :=
  List.inj_on_of_nodup_map hnd ha hb h

/-- Elements have different images if those of one key do and the image tells the key. -/
theorem nodup_map_of_key {α β κ : Type} [DecidableEq κ] {l : List α} {f : α → β} {key : α → κ}
    (hkey : ∀ a ∈ l, ∀ b ∈ l, f a = f b → key a = key b)
    (hgroup : ∀ k, ((l.filter (key · = k)).map f).Nodup) : (l.map f).Nodup := by
  induction l with
  | nil => exact .nil
  | cons a l ih =>
    rw [List.map_cons, List.nodup_cons]
    refine ⟨fun hmem => ?_, ih (fun b hb c hc => hkey b (.tail _ hb) c (.tail _ hc)) fun k => ?_⟩
    · obtain ⟨b, hb, hf⟩ := List.mem_map.1 hmem
      have hk := hkey b (.tail _ hb) a (.head _) hf
      have hnodup := hgroup (key a)
      rw [List.filter_cons_of_pos (by simp), List.map_cons, List.nodup_cons] at hnodup
      exact hnodup.1 (List.mem_map.2 ⟨b, List.mem_filter.2 ⟨hb, by simpa using hk⟩, hf⟩)
    · exact (hgroup k).sublist (((List.sublist_cons_self a l).filter _).map f)

/-- A group of nodes has one master, and the others replicate from it. -/
structure GroupOk (g : List Member) (m : Member) : Prop where
  master : g.filter (·.isMaster) = [m]
  parent : ∀ n ∈ g, n.isMaster = false → n.parent = m.container

section

variable {g : List Member} {m c : Member}

theorem mem_of_master (h : g.filter (·.isMaster) = [m]) : m ∈ g ∧ m.isMaster = true := by
  rw [← List.mem_filter, h]
  exact List.mem_singleton_self _

theorem eq_of_master (h : g.filter (·.isMaster) = [m]) {n : Member} (hn : n ∈ g)
    (hmaster : n.isMaster = true) : n = m := by
  have hmem : n ∈ g.filter (·.isMaster) := List.mem_filter.2 ⟨hn, hmaster⟩
  rw [h] at hmem
  exact List.mem_singleton.1 hmem

/-- The role swap makes the candidate the only master. -/
theorem filter_swapped (h : g.filter (·.isMaster) = [m]) (hnd : (g.map (·.container)).Nodup)
    (hc : c ∈ g) (hne : c.container ≠ m.container) :
    (g.map (·.swapped m.container c.container)).filter (·.isMaster) =
      [{ c with role := .master, parent := "" }] := by
  have hslave : c.role ≠ .master := by
    intro hrole
    have hmaster : c.isMaster = true := by simpa [Member.isMaster] using hrole
    exact hne (congrArg Member.container (eq_of_master h hc hmaster))
  have hfilter : g.filter (fun n => (n.swapped m.container c.container).isMaster) = [c] := by
    rw [← filter_eq_singleton hnd hc]
    refine List.filter_congr fun n hn => ?_
    by_cases hcand : n.container = c.container
    · obtain rfl := eq_of_nodup_map hnd hn hc hcand
      simp [Member.swapped, Member.isMaster, hslave, hne]
    · have hn' : (n.swapped m.container c.container).isMaster = false := by
        by_cases hmaster : n.role = .master
        · have hm : n = m := eq_of_master h hn (by simpa [Member.isMaster] using hmaster)
          subst hm
          simp [Member.swapped, Member.isMaster, hmaster]
        · unfold Member.swapped
          split_ifs <;> simp_all [Member.isMaster]
      simp [hn', hcand]
  rw [List.filter_map, Function.comp_def, hfilter]
  simp [Member.swapped, hslave, hne]

theorem GroupOk.swap (h : GroupOk g m) (hnd : (g.map (·.container)).Nodup) (hc : c ∈ g)
    (hne : c.container ≠ m.container) :
    GroupOk (g.map (·.swapped m.container c.container)) { c with role := .master, parent := "" } := by
  refine ⟨filter_swapped h.master hnd hc hne, fun n' hn' hslave => ?_⟩
  obtain ⟨n, hn, rfl⟩ := List.mem_map.1 hn'
  by_cases hmaster : n.role = .master
  · have hm : n = m := eq_of_master h.master hn (by simpa [Member.isMaster] using hmaster)
    subst hm
    simp [Member.swapped, hmaster]
  · have hparent := h.parent n hn (by simpa [Member.isMaster] using hmaster)
    by_cases hcand : n.container = c.container
    · simp [Member.swapped, Member.isMaster, hmaster, hcand] at hslave
    · have hold : n.container ≠ m.container := by
        intro heq
        have hm := eq_of_nodup_map hnd hn (mem_of_master h.master).1 heq
        exact hmaster (by simpa [Member.isMaster, hm] using (mem_of_master h.master).2)
      simp [Member.swapped, hmaster, hcand, hold, hparent]

theorem GroupOk.join (h : GroupOk g m) {n : Member} (hslave : n.isMaster = false)
    (hparent : n.parent = m.container) : GroupOk (g ++ [n]) m := by
  constructor
  · rw [List.filter_append, h.master, List.filter_singleton, hslave]
    rfl
  · intro n' hn' hs
    rcases List.mem_append.1 hn' with hn' | hn'
    · exact h.parent n' hn' hs
    · rw [List.mem_singleton.1 hn', hparent]

end

end Rdsctl.Inst
