import Rdsctl.Agent.Handle
import Rdsctl.Inst.Manager
import Rdsctl.Inst.Watch

/-!
# Whose fence a workload carries

`owner_instance` and `meta_for_workload` of `src/exec/mod.rs`. A workload belongs to the instance
that records it, otherwise to the only instance whose prefix it has. The map of instances is scanned
in any order, and the two scans need not agree.
-/

namespace Rdsctl.Inst

open Ha Agent

def ownsContainer (i : RdsInstance) (c : String) : Bool :=
  i.nodeHosts.contains c || i.nodes.any (·.container == c) || i.proxies.any (·.container == c) ||
    i.proxyContainer == c || i.lvsContainer == c

/-- `str::starts_with` -/
def startsWith (s p : String) : Bool := p.toList.isPrefixOf s.toList

/-- The workload is called like the instance, or begins like its containers. -/
def anchored (container n : String) : Bool :=
  container == "rds-" ++ n || startsWith container ("rds-" ++ n ++ "-")

/-- The loop of `prefix_owner`: `hit` is the name found so far. -/
def prefixOwnerFrom (container : String) : Option String → List String → Option String
  | hit, [] => hit
  | hit, n :: names =>
    if anchored container n then
      match hit with
      | none => prefixOwnerFrom container (some n) names
      | some prev => if prev = n then prefixOwnerFrom container hit names else none
    else prefixOwnerFrom container hit names

def prefixOwner (names : List String) (container : String) : Option String :=
  prefixOwnerFrom container none names

/-- The instance that `owner_instance` finds when it scans the map first as `scan` and then as
`again`. -/
def ownerInstance (scan again : List RdsInstance) (container : String) : Option String :=
  if container = "" then none
  else match scan.find? (ownsContainer · container) with
    | some i => some i.name
    | none => prefixOwner (again.map (·.name)) container

def callMeta (l : Locks) (inst : String) : ExecMeta :=
  match l.fenceOf inst with
  | some f => { fence := some f }
  | none => {}

def metaForWorkload (l : Locks) (scan again : List RdsInstance) (container : String) : ExecMeta :=
  match ownerInstance scan again container with
  | some inst => callMeta l inst
  | none => {}

/-! ## What an instance records -/

/-- The names of the containers of an instance. -/
def RdsInstance.recorded (i : RdsInstance) : List String :=
  i.nodeHosts.keys ++ i.nodes.map (·.container) ++ i.proxies.map (·.container) ++
    [i.proxyContainer, i.lvsContainer].filter (· ≠ "")

/-- The names of the containers that stand in for a node while it is replaced or migrated. -/
def InstNode.temps (n : InstNode) : List String := [n.container ++ "-rnx", n.container ++ "-mgn"]

/-- The instances have names of their own that `create` accepts, and so have their containers. -/
structure NamedApart (reg : List RdsInstance) : Prop where
  names : (reg.map (·.name)).Nodup
  accepted : ∀ i ∈ reg, i.name ≠ "" ∧ i.name.toList.all isNameChar = true
  prefixed : ∀ i ∈ reg, ∀ c ∈ i.recorded, startsWith c ("rds-" ++ i.name ++ "-") = true
  apart : reg.Pairwise fun i j => List.Disjoint i.recorded j.recorded

theorem startsWith_iff {s p : String} : startsWith s p = true ↔ p.toList <+: s.toList :=
  List.isPrefixOf_iff_prefix

theorem ownsContainer_iff {i : RdsInstance} {c : String} (hc : c ≠ "") :
    ownsContainer i c = true ↔ c ∈ i.recorded := by
  simp only [ownsContainer, RdsInstance.recorded, Bool.or_eq_true, List.any_eq_true, beq_iff_eq,
    List.mem_append, List.mem_map, List.mem_filter, List.mem_cons, List.not_mem_nil, or_false,
    decide_eq_true_eq, Std.ExtTreeMap.mem_keys, Std.ExtTreeMap.mem_iff_contains, or_assoc]
  rw [and_iff_left hc, eq_comm (a := c), eq_comm (a := c)]

/-- A text with a prefix that is not empty is not empty. -/
theorem ne_empty_of_startsWith {s n : String} (h : startsWith s ("rds-" ++ n ++ "-") = true) :
    s ≠ "" := by
  rintro rfl
  rw [startsWith_iff, String.toList_empty, List.prefix_nil] at h
  simp at h

theorem startsWith_append {s p : String} (t : String) (h : startsWith s p = true) :
    startsWith (s ++ t) p = true := by
  rw [startsWith_iff] at h ⊢
  rw [String.toList_append]
  exact h.trans (List.prefix_append _ _)

/-! ## The scan by prefix -/

/-- The name found is the only one that fits, and the one found before, if there was one. -/
theorem prefixOwnerFrom_eq_some {container x : String} {hit : Option String} {names : List String}
    (h : prefixOwnerFrom container hit names = some x) :
    (∀ y ∈ hit, y = x) ∧ ∀ n ∈ names, anchored container n = true → n = x := by
  induction names generalizing hit with
  | nil =>
    rw [prefixOwnerFrom] at h
    subst h
    exact ⟨fun y hy => (Option.some.inj hy).symm, nofun⟩
  | cons n names ih =>
    unfold prefixOwnerFrom at h
    split at h
    · next hfits =>
      cases hit with
      | none =>
        obtain ⟨hn, hrest⟩ := ih h
        refine ⟨nofun, fun m hm hfit => ?_⟩
        rcases List.mem_cons.1 hm with rfl | hm
        · exact hn m rfl
        · exact hrest m hm hfit
      | some prev =>
        dsimp only at h
        split at h
        · next heq =>
          subst heq
          obtain ⟨hn, hrest⟩ := ih h
          refine ⟨hn, fun m hm hfit => ?_⟩
          rcases List.mem_cons.1 hm with rfl | hm
          · exact hn m rfl
          · exact hrest m hm hfit
        · cases h
    · next hno =>
      obtain ⟨hn, hrest⟩ := ih h
      refine ⟨hn, fun m hm hfit => ?_⟩
      rcases List.mem_cons.1 hm with rfl | hm
      · exact absurd hfit hno
      · exact hrest m hm hfit

/-- Where an instance fits, the scan finds it or nobody. -/
theorem prefixOwner_of_anchored {names : List String} {container n : String} (hn : n ∈ names)
    (h : anchored container n = true) :
    prefixOwner names container = some n ∨ prefixOwner names container = none := by
  cases hfound : prefixOwner names container with
  | none => exact .inr rfl
  | some x =>
    obtain rfl := (prefixOwnerFrom_eq_some hfound).2 n hn h
    exact .inl rfl

/-! ## The owner -/

section
variable {reg scan again : List RdsInstance} {J : RdsInstance} {c : String}

/-- An instance that records a container is the only one that does. -/
theorem NamedApart.unique (hreg : NamedApart reg) {i : RdsInstance} (hi : i ∈ reg) (hJ : J ∈ reg)
    (hci : c ∈ i.recorded) (hcJ : c ∈ J.recorded) : i = J := by
  by_contra hne
  have : Std.Symm fun i j : RdsInstance => List.Disjoint i.recorded j.recorded :=
    ⟨fun _ _ h => h.symm⟩
  exact hreg.apart.forall hi hJ hne hci hcJ

/-- The owner of a container that nobody records is found by prefix. -/
theorem ownerInstance_of_unrecorded (hc : c ≠ "") (h : ∀ i ∈ scan, c ∉ i.recorded) :
    ownerInstance scan again c = prefixOwner (again.map (·.name)) c := by
  have hnone : scan.find? (ownsContainer · c) = none := by
    rw [List.find?_eq_none]
    intro i hi howns
    exact h i hi ((ownsContainer_iff hc).1 howns)
  rw [ownerInstance, if_neg hc, hnone]

/-- The owner of a container that only one instance records is this instance. -/
theorem ownerInstance_of_recorded (hc : c ≠ "") (hJ : J ∈ scan) (hcJ : c ∈ J.recorded)
    (h : ∀ i ∈ scan, c ∈ i.recorded → i = J) : ownerInstance scan again c = some J.name := by
  cases hfind : scan.find? (ownsContainer · c) with
  | none =>
    rw [List.find?_eq_none] at hfind
    exact absurd ((ownsContainer_iff hc).2 hcJ) (hfind J hJ)
  | some i =>
    have howns := List.find?_some hfind
    obtain rfl := h i (List.mem_of_find?_eq_some hfind) ((ownsContainer_iff hc).1 howns)
    rw [ownerInstance, if_neg hc, hfind]

/-- The fence of a workload is one of its owner. -/
theorem fence_metaForWorkload {l : Locks} {f : Fence}
    (h : (metaForWorkload l scan again c).fence = some f) :
    ∃ inst, ownerInstance scan again c = some inst ∧ l.fenceOf inst = some f := by
  unfold metaForWorkload at h
  split at h
  · next inst howner =>
    refine ⟨inst, howner, ?_⟩
    unfold callMeta at h
    split at h
    · next g hg => exact hg.trans h
    · cases h
  · cases h

/-- **The fence of the owner.** A container that an instance records is found to be its own, and one
that stands in for a node of it, and that no other instance records, is its own or nobody's, however
the instances are scanned. The fence it carries is a fence of this instance. -/
theorem fence_of_owner {l : Locks} (hreg : NamedApart reg) (hscan : scan.Perm reg)
    (hagain : again.Perm reg) (hJ : J ∈ reg)
    (hc : c ∈ J.recorded ∨ (∃ n ∈ J.nodes, c ∈ n.temps) ∧ ∀ i ∈ reg, i ≠ J → c ∉ i.recorded) :
    (ownerInstance scan again c = some J.name ∨ ownerInstance scan again c = none) ∧
      (c ∈ J.recorded → ownerInstance scan again c = some J.name) ∧
      ∀ f, (metaForWorkload l scan again c).fence = some f → l.fenceOf J.name = some f := by
  have hpre : startsWith c ("rds-" ++ J.name ++ "-") = true := by
    rcases hc with hc | ⟨⟨n, hn, hc⟩, -⟩
    · exact hreg.prefixed J hJ c hc
    · have hnode : n.container ∈ J.recorded := by
        simp only [RdsInstance.recorded, List.mem_append, List.mem_map]
        exact .inl (.inl (.inr ⟨n, hn, rfl⟩))
      have hp := hreg.prefixed J hJ _ hnode
      simp only [InstNode.temps, List.mem_cons, List.not_mem_nil, or_false] at hc
      rcases hc with rfl | rfl
      · exact startsWith_append _ hp
      · exact startsWith_append _ hp
  have hne : c ≠ "" := ne_empty_of_startsWith hpre
  have hothers : ∀ i ∈ scan, c ∈ i.recorded → i = J := by
    intro i hi hci
    by_contra hij
    rcases hc with hc | ⟨-, hno⟩
    · exact hij (hreg.unique (hscan.mem_iff.1 hi) hJ hci hc)
    · exact hno i (hscan.mem_iff.1 hi) hij hci
  have hrec : c ∈ J.recorded → ownerInstance scan again c = some J.name := fun h =>
    ownerInstance_of_recorded hne (hscan.mem_iff.2 hJ) h hothers
  have howner : ownerInstance scan again c = some J.name ∨ ownerInstance scan again c = none := by
    by_cases hcJ : c ∈ J.recorded
    · exact .inl (hrec hcJ)
    · rw [ownerInstance_of_unrecorded hne fun i hi hci => hcJ (hothers i hi hci ▸ hci)]
      have hfits : anchored c J.name = true := by rw [anchored, hpre, Bool.or_true]
      exact prefixOwner_of_anchored (List.mem_map.2 ⟨J, hagain.mem_iff.2 hJ, rfl⟩) hfits
  refine ⟨howner, hrec, fun f hf => ?_⟩
  obtain ⟨inst, hinst, hfence⟩ := fence_metaForWorkload hf
  rcases howner with h | h
  · rw [h] at hinst
    cases hinst
    exact hfence
  · rw [h] at hinst
    cases hinst

end

/-! ## Two instances -/

/-- An instance with one node. -/
def lone (name container : String) : RdsInstance where
  name := name
  status := .running
  region := ""
  az := ""
  shard := ""
  enabled := true
  lvsContainer := ""
  lvsMysqlPort := 0
  nodeHosts := ∅
  proxies := []
  shards := []
  itype := "single"
  shardNum := 1
  network := ""
  nodes := [⟨container, .master, "", 3306, 0, 1, "", "", "", "", 0⟩]
  proxyContainer := ""
  proxyMysqlPort := 0
  proxyMngPort := 0
  lastError := ""

theorem recorded_lone (name container : String) : (lone name container).recorded = [container] := by
  simp [RdsInstance.recorded, lone]

/-- The second instance is called like the first one and a piece, and records a container that is
called like the one that stands in for the node of the first. -/
def lookalikes : List RdsInstance := [lone "a" "rds-a-b-x", lone "a-b" "rds-a-b-x-rnx"]

theorem lookalikes_apart : NamedApart lookalikes where
  names := by decide
  accepted := by decide
  prefixed := by
    intro i hi c hc
    simp only [lookalikes, List.mem_cons, List.not_mem_nil, or_false] at hi
    rcases hi with rfl | rfl
    · rw [recorded_lone, List.mem_singleton] at hc
      subst hc
      decide
    · rw [recorded_lone, List.mem_singleton] at hc
      subst hc
      decide
  apart := by
    rw [lookalikes, List.pairwise_pair, recorded_lone, recorded_lone]
    simp

/-- The stand-in of the first instance is taken for the container of the second. -/
theorem stand_in_mistaken : ¬ ∀ (reg scan again : List RdsInstance) (J : RdsInstance) (c : String),
    NamedApart reg → scan.Perm reg → again.Perm reg → J ∈ reg →
    (c ∈ J.recorded ∨ ∃ n ∈ J.nodes, c ∈ n.temps) →
    ownerInstance scan again c = some J.name ∨ ownerInstance scan again c = none := by
  intro hall
  have hwrong : ownerInstance lookalikes lookalikes "rds-a-b-x-rnx" = some "a-b" := by
    refine ownerInstance_of_recorded (J := lone "a-b" "rds-a-b-x-rnx") (by decide) (by simp [lookalikes])
      (by simp [recorded_lone]) fun i hi hci => ?_
    simp only [lookalikes, List.mem_cons, List.not_mem_nil, or_false] at hi
    rcases hi with rfl | rfl
    · simp [recorded_lone] at hci
    · rfl
  have h := hall lookalikes lookalikes lookalikes (lone "a" "rds-a-b-x") "rds-a-b-x-rnx"
    lookalikes_apart (.refl _) (.refl _) (by simp [lookalikes])
    (.inr ⟨_, List.mem_singleton.2 rfl, by simp [InstNode.temps]⟩)
  rw [hwrong] at h
  revert h
  decide

/-- The other stand-in of the same node is nobody's, since both names fit. -/
theorem fence_of_owner_lookalikes :
    ownerInstance lookalikes lookalikes.reverse "rds-a-b-x-mgn" = some "a" ∨
      ownerInstance lookalikes lookalikes.reverse "rds-a-b-x-mgn" = none := by
  refine (fence_of_owner (J := lone "a" "rds-a-b-x") (l := ⟨∅, ∅, ∅, "", 0, .cluster (.new 0 1000)⟩)
    lookalikes_apart (.refl _) (List.reverse_perm _) (by simp [lookalikes]) (.inr ⟨?_, ?_⟩)).1
  · exact ⟨_, List.mem_singleton.2 rfl, by simp [InstNode.temps]⟩
  · intro i hi _ hci
    simp only [lookalikes, List.mem_cons, List.not_mem_nil, or_false] at hi
    rcases hi with rfl | rfl
    · simp [recorded_lone] at hci
    · simp [recorded_lone] at hci

end Rdsctl.Inst
