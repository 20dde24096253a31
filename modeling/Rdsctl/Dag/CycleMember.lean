import Rdsctl.Dag.Wave

/-!
# The node that is reported for a cycle

`find_cycle` of `src/dag.rs` is to find the first member of a cycle. It answers the node its search
started from, and `execute` marks that node as failed, so that a node is blamed that only depends on a
cycle when it is listed before the members (`cycleExact_iff`).
-/

namespace Rdsctl.Dag

open Relation

variable {Step : Type} {nodes : List (TaskNode Step)} {a b id : String}

/-- A dependency between listed nodes. -/
def DependsOn (nodes : List (TaskNode Step)) (a b : String) : Prop :=
  b ∈ ids nodes ∧ ∃ n ∈ nodes, n.id = a ∧ b ∈ n.deps

/-- The node lies on a cycle of dependencies. -/
def CycleMember (nodes : List (TaskNode Step)) (id : String) : Prop := TransGen (DependsOn nodes) id id

/-- The node depends on a cycle, or lies on it. -/
def LeadsToCycle (nodes : List (TaskNode Step)) (id : String) : Prop :=
  ∃ c, ReflTransGen (DependsOn nodes) id c ∧ CycleMember nodes c

/-- The search ends, finds a cycle if there is one, and answers a member of it; `execute` marks no
other node as failed. -/
structure CycleExact (nodes : List (TaskNode Step)) : Prop where
  ends : FindsCycle nodes nodes ([], []) (findCycle nodes)
  none_iff : findCycle nodes = none ↔ ∀ id, ¬CycleMember nodes id
  member : ∀ id, findCycle nodes = some id → CycleMember nodes id
  failed : ∀ (env : Env Step) (task : TaskInfo) (fuel : Nat) (out : Outcome Step),
    findCycle nodes ≠ none → execute env task (fun _ => none) nodes fuel = some out →
    ∀ id r, out.results id = some r → r.status = .failed → CycleMember nodes id

/-! ## The graph of the search -/

theorem dependsOn_iff (hnd : (ids nodes).Nodup) :
    DependsOn nodes a b ↔ b ∈ depsOf nodes a ∧ b ∈ ids nodes := by
  constructor
  · rintro ⟨hb, n, hn, rfl, hdep⟩
    rw [depsOf_id hnd hn]
    exact ⟨hdep, hb⟩
  · rintro ⟨hdep, hb⟩
    obtain ⟨n, hn, rfl⟩ := mem_ids.1 (mem_ids_of_mem_depsOf hdep)
    rw [depsOf_id hnd hn] at hdep
    exact ⟨hb, n, hn, rfl, hdep⟩

/-- All nodes on a path to a listed node are listed. -/
theorem dependsOn_path (hnd : (ids nodes).Nodup)
    (h : ReflTransGen (fun a b => b ∈ depsOf nodes a) a b) (hb : b ∈ ids nodes) :
    ReflTransGen (DependsOn nodes) a b := by
  induction h with
  | refl => exact .refl
  | tail _ hbc ih =>
    exact (ih (mem_ids_of_mem_depsOf hbc)).tail ((dependsOn_iff hnd).2 ⟨hbc, hb⟩)

theorem cycleMember_iff (hnd : (ids nodes).Nodup) :
    CycleMember nodes id ↔ CycleSearch.OnCycle (depsOf nodes) id := by
  constructor
  · exact TransGen.mono (fun a b hab => ((dependsOn_iff hnd).1 hab).1) _ _
  · intro h
    obtain ⟨d, hd, hback⟩ := TransGen.head'_iff.1 h
    have hid : id ∈ ids nodes := mem_ids_of_mem_depsOf hd
    obtain ⟨x, hx, hlast⟩ := TransGen.tail'_iff.1 h
    have hpath := dependsOn_path hnd hx (mem_ids_of_mem_depsOf hlast)
    exact TransGen.tail' hpath ((dependsOn_iff hnd).2 ⟨hlast, hid⟩)

theorem leadsToCycle_iff (hnd : (ids nodes).Nodup) :
    LeadsToCycle nodes id ↔ CycleSearch.Leads (depsOf nodes) id := by
  constructor
  · rintro ⟨c, hpath, hc⟩
    exact ⟨c, ReflTransGen.mono (fun a b hab => ((dependsOn_iff hnd).1 hab).1) _ _ hpath,
      (cycleMember_iff hnd).1 hc⟩
  · rintro ⟨c, hpath, hc⟩
    obtain ⟨d, hd, -⟩ := TransGen.head'_iff.1 hc
    exact ⟨c, dependsOn_path hnd hpath (mem_ids_of_mem_depsOf hd), (cycleMember_iff hnd).2 hc⟩

theorem CycleMember.mem_ids (h : CycleMember nodes id) : id ∈ ids nodes := by
  obtain ⟨x, -, hlast⟩ := TransGen.tail'_iff.1 h
  exact hlast.1

/-! ## What is reported -/

/-- The results that the rejection of a cycle leaves. -/
theorem results_rejectCycle (cycle : String) (ns : List (TaskNode Step)) (st : Exec Step)
    {r : NodeResult} (h : (ns.foldl (rejectCycle cycle) st).results id = some r) :
    st.results id = some r ∨ r.status = .skipped ∨ id = cycle := by
  induction ns generalizing st with
  | nil => exact .inl h
  | cons n ns ih =>
    rcases ih _ h with hr | hr | hr
    · simp only [rejectCycle, insertResult] at hr
      split at hr
      next hid =>
        obtain rfl := Option.some.inj hr
        split
        next hcycle => exact .inr (.inr (hid.trans hcycle))
        · exact .inr (.inl rfl)
      · exact .inl hr
    · exact .inr (.inl hr)
    · exact .inr (.inr hr)

/-- Only the node that is answered is marked as failed. -/
theorem eq_of_failed {cycle : String} (hcycle : findCycle nodes = some cycle) {env : Env Step}
    {task : TaskInfo} {fuel : Nat} {out : Outcome Step}
    (h : execute env task (fun _ => none) nodes fuel = some out) {r : NodeResult}
    (hr : out.results id = some r) (hfailed : r.status = .failed) : id = cycle := by
  rw [execute, hcycle] at h
  obtain rfl := Option.some.inj h
  rcases results_rejectCycle cycle nodes _ hr with hold | hskip | hid
  · cases hold
  · rw [hskip] at hfailed
    cases hfailed
  · exact hid

/-- The report is exact if and only if the first node of the list that leads to a cycle lies on one. -/
theorem cycleExact_iff (hnd : (ids nodes).Nodup) :
    CycleExact nodes ↔ ∀ pre n post, nodes = pre ++ n :: post → LeadsToCycle nodes n.id →
      (∀ m ∈ pre, ¬LeadsToCycle nodes m.id) → CycleMember nodes n.id := by
  obtain ⟨hruns, hfirst⟩ := findCycle_spec nodes
  constructor
  · intro h pre n post hsplit hlead hpre
    refine h.member n.id ?_
    rcases hr : findCycle nodes with _ | id
    · rw [hr] at hfirst
      have hn : n ∈ nodes := by
        rw [hsplit]
        exact List.mem_append_right _ List.mem_cons_self
      exact absurd ((leadsToCycle_iff hnd).1 hlead) (hfirst n hn)
    · -- both nodes are the first one that leads to a cycle
      rw [hr] at hfirst
      obtain ⟨pre', m, post', hsplit', rfl, hlead', hpre'⟩ := hfirst
      have heq : pre ++ n :: post = pre' ++ m :: post' := hsplit.symm.trans hsplit'
      rcases List.append_eq_append_iff.1 heq with ⟨l, rfl, hl⟩ | ⟨l, rfl, hl⟩
      · cases l with
        | nil => rw [(List.cons.inj hl).1]
        | cons x l =>
          obtain ⟨rfl, -⟩ := List.cons.inj hl
          exact absurd ((leadsToCycle_iff hnd).1 hlead)
            (hpre' n (List.mem_append_right _ List.mem_cons_self))
      · cases l with
        | nil => rw [(List.cons.inj hl).1]
        | cons x l =>
          obtain ⟨rfl, -⟩ := List.cons.inj hl
          exact absurd ((leadsToCycle_iff hnd).2 hlead')
            (hpre m (List.mem_append_right _ List.mem_cons_self))
  · intro h
    have hmember : ∀ id, findCycle nodes = some id → CycleMember nodes id := by
      intro id hr
      rw [hr] at hfirst
      obtain ⟨pre, n, post, hsplit, rfl, hlead, hpre⟩ := hfirst
      exact h pre n post hsplit ((leadsToCycle_iff hnd).2 hlead) fun m hm hm' =>
        hpre m hm ((leadsToCycle_iff hnd).1 hm')
    refine ⟨hruns, ⟨fun hr id hc => ?_, fun hnone => ?_⟩, hmember, ?_⟩
    · rw [hr] at hfirst
      obtain ⟨n, hn, rfl⟩ := mem_ids.1 hc.mem_ids
      exact hfirst n hn ((cycleMember_iff hnd).1 hc).leads
    · rcases hr : findCycle nodes with _ | id
      · rfl
      · exact absurd (hmember id hr) (hnone id)
    · intro env task fuel out hsome hout id r hr hfailed
      obtain ⟨cycle, hcycle⟩ := Option.ne_none_iff_exists'.1 hsome
      rw [eq_of_failed hcycle hout hr hfailed]
      exact hmember cycle hcycle

/-! ## Two lists -/

/-- A node without steps. -/
def bare (id : String) (deps : List String) : TaskNode Unit :=
  { id, name := id, deps, retries := 0, timeoutSecs := none, steps := [] }

/-- Two nodes that depend on each other. -/
theorem cycleExact_pair : CycleExact [bare "a" ["b"], bare "b" ["a"]] := by
  refine (cycleExact_iff (by decide)).2 fun pre n post hsplit _ _ => ?_
  have hab : DependsOn [bare "a" ["b"], bare "b" ["a"]] "a" "b" :=
    ⟨by decide, bare "a" ["b"], by simp, rfl, by decide⟩
  have hba : DependsOn [bare "a" ["b"], bare "b" ["a"]] "b" "a" :=
    ⟨by decide, bare "b" ["a"], by simp, rfl, by decide⟩
  have hn : n ∈ [bare "a" ["b"], bare "b" ["a"]] := by
    rw [hsplit]
    exact List.mem_append_right _ List.mem_cons_self
  rcases List.mem_cons.1 hn with rfl | hn
  · exact TransGen.tail (.single hab) hba
  · rw [List.mem_singleton.1 hn]
    exact TransGen.tail (.single hba) hab

/-- A node that depends on them and is listed first is reported, and lies on no cycle. -/
theorem upstream_reported :
    (ids [bare "m" ["a"], bare "a" ["b"], bare "b" ["a"]]).Nodup ∧
      ¬CycleExact [bare "m" ["a"], bare "a" ["b"], bare "b" ["a"]] := by
  refine ⟨by decide, fun h => ?_⟩
  have hm : CycleMember [bare "m" ["a"], bare "a" ["b"], bare "b" ["a"]] "m" :=
    h.member "m" (by decide)
  obtain ⟨x, -, -, n, hn, -, hdep⟩ := TransGen.tail'_iff.1 hm
  have hnone : ∀ n ∈ [bare "m" ["a"], bare "a" ["b"], bare "b" ["a"]], "m" ∉ n.deps := by decide
  exact hnone n hn hdep

end Rdsctl.Dag
