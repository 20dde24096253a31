import Rdsctl.Dag.Scheduler
import Rdsctl.Lib.CycleSearch
import Rdsctl.Lib.Waves

/-!
# The search for a cycle

`find_cycle` of `src/dag.rs` as a `CycleSearch.search` along the dependencies: it answers the first node
of the list that leads to a cycle, and nothing in a graph without cycles. The depth it is given is
enough.
-/

namespace Rdsctl.Dag

open Relation

variable {Step : Type}

/-- The ids of the nodes. -/
def ids (nodes : List (TaskNode Step)) : List String := nodes.map TaskNode.id

/-- The dependencies of the first node with this id. -/
def depsOf (nodes : List (TaskNode Step)) (id : String) : List String :=
  ((nodes.find? fun n => n.id = id).map TaskNode.deps).getD []

variable {nodes : List (TaskNode Step)} {id : String}

/-- Only nodes have dependencies. -/
theorem mem_ids_of_mem_depsOf {d : String} (h : d ∈ depsOf nodes id) : id ∈ ids nodes := by
  unfold depsOf at h
  cases hf : nodes.find? fun n => n.id = id with
  | none =>
    rw [hf] at h
    cases h
  | some n =>
    have hid : n.id = id := by simpa using List.find?_some hf
    exact List.mem_map.2 ⟨n, List.mem_of_find?_eq_some hf, hid⟩

theorem cycleDfs_eq (fuel : Nat) (id : String) (seen : List String × List String) :
    cycleDfs nodes fuel id seen = CycleSearch.search (depsOf nodes) fuel id seen := by
  induction fuel generalizing id seen with
  | zero => rfl
  | succ fuel ih =>
    obtain ⟨visiting, visited⟩ := seen
    rw [cycleDfs, CycleSearch.search]
    simp only [ih]
    rfl

/-- The loop of `find_cycle`, with its recursion to any depth. -/
inductive FindsCycle (nodes : List (TaskNode Step)) :
    List (TaskNode Step) → List String × List String → Option String → Prop
  | nil {seen : List String × List String} : FindsCycle nodes [] seen none
  | found {n : TaskNode Step} {ns : List (TaskNode Step)} {seen seen' : List String × List String}
    (h : CycleSearch.Visit (depsOf nodes) n.id seen (true, seen')) :
    FindsCycle nodes (n :: ns) seen (some n.id)
  | next {n : TaskNode Step} {ns : List (TaskNode Step)} {seen seen' : List String × List String}
    {r : Option String} (h : CycleSearch.Visit (depsOf nodes) n.id seen (false, seen'))
    (hs : FindsCycle nodes ns seen' r) : FindsCycle nodes (n :: ns) seen r

/-- The first of some nodes that leads to a cycle is answered. -/
def FirstOf (nodes ns : List (TaskNode Step)) : Option String → Prop
  | none => ∀ n ∈ ns, ¬CycleSearch.Leads (depsOf nodes) n.id
  | some id => ∃ pre n post, ns = pre ++ n :: post ∧ n.id = id ∧
      CycleSearch.Leads (depsOf nodes) n.id ∧ ∀ m ∈ pre, ¬CycleSearch.Leads (depsOf nodes) m.id

theorem findCycleFrom_spec (ns : List (TaskNode Step)) {visited : List String}
    (h : CycleSearch.Explored (depsOf nodes) [] visited) :
    FindsCycle nodes ns ([], visited) (findCycleFrom nodes ns ([], visited)) ∧
      FirstOf nodes ns (findCycleFrom nodes ns ([], visited)) := by
  induction ns generalizing visited with
  | nil => exact ⟨.nil, nofun⟩
  | cons n ns ih =>
    have hids : ∀ id, depsOf nodes id ≠ [] → id ∈ ids nodes := fun id hne => by
      obtain ⟨d, hd⟩ := List.exists_mem_of_ne_nil _ hne
      exact mem_ids_of_mem_depsOf hd
    have hspec := CycleSearch.search_spec hids List.nodup_nil
      (fun v hv => (List.not_mem_nil hv).elim) (by simp [ids] : _ < nodes.length + 1 + _) h (a := n.id)
    obtain ⟨hvisit, hanswer⟩ := hspec
    rw [findCycleFrom, cycleDfs_eq]
    generalize CycleSearch.search (depsOf nodes) (nodes.length + 1) n.id ([], visited) = out
      at hvisit hanswer ⊢
    obtain ⟨_ | _, visiting', visited'⟩ := out
    · obtain ⟨rfl, hmem, -, hexp⟩ := hanswer
      obtain ⟨hruns, hfirst⟩ := ih hexp
      have hn : ¬CycleSearch.Leads (depsOf nodes) n.id := hexp.not_leads (hmem _ List.mem_cons_self)
      refine ⟨.next hvisit hruns, ?_⟩
      show FirstOf nodes (n :: ns) (findCycleFrom nodes ns ([], visited'))
      generalize findCycleFrom nodes ns ([], visited') = r at hfirst ⊢
      cases r with
      | none =>
        intro m hm
        rcases List.mem_cons.1 hm with rfl | hm
        · exact hn
        · exact hfirst m hm
      | some id =>
        obtain ⟨pre, m, post, rfl, hid, hlead, hpre⟩ := hfirst
        exact ⟨n :: pre, m, post, rfl, hid, hlead, List.forall_mem_cons.2 ⟨hn, hpre⟩⟩
    · exact ⟨.found hvisit, [], n, ns, rfl, rfl, hanswer, nofun⟩

/-- The first node that leads to a cycle is answered, after finitely many calls. -/
theorem findCycle_spec (nodes : List (TaskNode Step)) :
    FindsCycle nodes nodes ([], []) (findCycle nodes) ∧ FirstOf nodes nodes (findCycle nodes) :=
  findCycleFrom_spec nodes (.nil [])

/-- No cycle is found in a graph without one. -/
theorem findCycle_eq_none (hacyc : Waves.Acyclic (ids nodes) (depsOf nodes)) :
    findCycle nodes = none := by
  have hnot : ∀ id, ¬CycleSearch.OnCycle (depsOf nodes) id := fun id hc =>
    hacyc id (TransGen.mono (fun a d hd => ⟨mem_ids_of_mem_depsOf hd, hd⟩) _ _ hc)
  have hfirst := (findCycle_spec nodes).2
  rcases hr : findCycle nodes with _ | id
  · rfl
  · rw [hr] at hfirst
    obtain ⟨-, -, -, -, -, ⟨c, -, hc⟩, -⟩ := hfirst
    exact absurd hc (hnot c)

end Rdsctl.Dag
