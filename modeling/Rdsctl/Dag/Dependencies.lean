import Rdsctl.Dag.Execute

/-!
# Runs respect dependencies

What `execute` of `src/dag.rs` promises for a task without cycles whose dependencies are among its
nodes: `RespectsDeps`, whatever its steps answer and in whatever order the nodes of a wave end.
-/

namespace Rdsctl.Dag

variable {Step : Type} {nodes : List (TaskNode Step)} {env : Env Step} {task : TaskInfo}
  {seed : String → Option NodeResult} {out : Outcome Step}

/-- The status of a node after a run. -/
def Outcome.statusOf (out : Outcome Step) (n : TaskNode Step) : Option TaskStatus :=
  (out.results n.id).map NodeResult.status

/-- The steps of a node fail in an attempt. -/
def AttemptFails (env : Env Step) (task : TaskInfo) (n : TaskNode Step) (attempt : Nat) : Prop :=
  (runSteps env task n attempt 0 n.steps).2 ≠ none

/-- What a run of the nodes leaves. -/
structure RespectsDeps (env : Env Step) (task : TaskInfo) (nodes : List (TaskNode Step))
    (out : Outcome Step) : Prop where
  /-- no attempt of a node is started twice -/
  once : (out.trace.filterMap Event.started).Nodup
  /-- there is one attempt, and a further one for each that failed, as far as retries go -/
  attempts : ∀ n ∈ nodes, ∀ k, .start n.id k ∈ out.trace →
    1 ≤ k ∧ k ≤ n.retries + 1 ∧ ∀ j, 1 ≤ j → j < k → AttemptFails env task n j
  /-- when an attempt starts, all dependencies have ended in success -/
  afterDeps : ∀ (i : Nat) (k : Nat), ∀ n ∈ nodes, out.trace[i]? = some (Event.start n.id k) →
    ∀ d ∈ n.deps, ∃ j < i, ∃ row : NodeRow Step, out.trace[j]? = some (.node row) ∧
      row.nodeId = d ∧ row.status = .success
  ended : ∀ n ∈ nodes, out.statusOf n = some .success ∨ out.statusOf n = some .failed ∨
    out.statusOf n = some .skipped
  dependents : ∀ n ∈ nodes, out.statusOf n = some .failed → ∀ m ∈ nodes,
    Relation.TransGen (Waves.Dep (ids nodes) (depsOf nodes)) m.id n.id →
      out.statusOf m = some .skipped
  task : (out.status = .success ∨ out.status = .failed) ∧
    (out.status = .success ↔ ∀ n ∈ nodes, out.statusOf n = some .success)

/-- The attempts of a node: all but the last one failed. -/
theorem runLoop_attempts (env : Env Step) (task : TaskInfo) (n : TaskNode Step) (left a : Nat) :
    a + 1 ≤ (runLoop env task n left a).2 ∧ (runLoop env task n left a).2 ≤ left + a + 1 ∧
      ∀ j, a + 1 ≤ j → j < (runLoop env task n left a).2 → AttemptFails env task n j := by
  induction left generalizing a with
  | zero =>
    rw [runLoop]
    split
    · exact ⟨le_rfl, by omega, fun j h1 h2 => absurd h2 (by omega)⟩
    · dsimp only
      exact ⟨le_rfl, by omega, fun j h1 h2 => absurd h2 (by omega)⟩
  | succ left ih =>
    rw [runLoop]
    split
    · exact ⟨le_rfl, by omega, fun j h1 h2 => absurd h2 (by omega)⟩
    · next logs err hs =>
      obtain ⟨h1, h2, h3⟩ := ih (a + 1)
      dsimp only
      refine ⟨by omega, by omega, fun j hj1 hj2 => ?_⟩
      rcases Nat.eq_or_lt_of_le hj1 with rfl | hlt
      · rw [AttemptFails, hs]
        simp
      · exact h3 j hlt hj2

/-- The nodes of an executed plan respect their dependencies. -/
theorem Executed.respectsDeps {run : List String} {failed : Bool} (hnd : (ids nodes).Nodup)
    (hclosed : ∀ n ∈ nodes, ∀ d ∈ n.deps, d ∈ ids nodes)
    (hacyc : Waves.Acyclic (ids nodes) (depsOf nodes))
    (hp : Waves.plan (ids nodes) (depsOf nodes) (fails env task nodes) (nodes.length + 1) [] =
      some (run, failed))
    (h : Executed env task nodes seed run failed out) : RespectsDeps env task nodes out := by
  obtain ⟨hs, hfail, hok⟩ := Waves.plan_sound hnd Waves.sound_nil (by simp) hp
  obtain ⟨tr, htrace, htr⟩ := h.trace
  have hstart : ∀ x k, Event.start x k ∈ out.trace → Event.start x k ∈ tr := by
    intro x k hx
    rw [htrace] at hx
    simpa using hx
  -- a node that is run has its own result, any other one is skipped
  have hrun : ∀ n ∈ nodes, n.id ∈ run → out.statusOf n = some (own env task n).status := by
    intro n hn hx
    rw [Outcome.statusOf, h.results, if_pos hx, ownAt_id hnd hn]
    rfl
  have hskip : ∀ n ∈ nodes, n.id ∉ run → failed = true → out.statusOf n = some .skipped := by
    intro n hn hx hf
    have hsk : n.id ∈ skips nodes run failed := by
      simpa [skips, hf, hx] using mem_ids.2 ⟨n, hn, rfl⟩
    rw [Outcome.statusOf, h.results, if_neg hx, if_pos hsk]
    rfl
  have hall : failed = false → ∀ n ∈ nodes, n.id ∈ run ∧ (own env task n).status = .success := by
    intro hf n hn
    have hid : n.id ∈ ids nodes := mem_ids.2 ⟨n, hn, rfl⟩
    have hclosed' : ∀ x ∈ ids nodes, ∀ d ∈ depsOf nodes x, d ∈ ids nodes := by
      intro x hx d hd
      obtain ⟨m, hm, rfl⟩ := mem_ids.1 hx
      rw [depsOf_id hnd hm] at hd
      exact hclosed m hm d hd
    have hmem := (hok hf).2 n.id (Waves.startable_of_acyclic hclosed' hacyc n.id hid)
    exact ⟨hmem, own_success hnd hn ((hok hf).1 n.id hmem)⟩
  have hattempts : ∀ n : TaskNode Step, (runNode env task n).2 ≤ n.retries + 1 ∧
      ∀ j, 1 ≤ j → j < (runNode env task n).2 → AttemptFails env task n j := by
    intro n
    obtain ⟨-, h2, h3⟩ := runLoop_attempts env task n n.retries 0
    exact ⟨h2, fun j hj1 hj2 => h3 j hj1 hj2⟩
  refine ⟨?_, ?_, ?_, ?_, ?_, ?_, ?_⟩
  · have hlast : [(.task out.status : Event Step)].filterMap Event.started = [] := rfl
    rw [htrace, List.filterMap_append, hlast, List.append_nil]
    exact htr.once
  · intro n hn k hx
    obtain ⟨-, h1, h2⟩ := htr.started n.id k (hstart _ _ hx)
    have hk := h2 n hn rfl
    obtain ⟨h3, h4⟩ := hattempts n
    exact ⟨h1, by omega, fun j hj1 hj2 => h4 j hj1 (by omega)⟩
  · intro i k n hn hi d hd
    have hlt : i < tr.length := by
      by_contra hge
      rw [htrace, List.getElem?_append_right (by omega)] at hi
      have := List.mem_of_getElem? hi
      simp at this
    rw [htrace, List.getElem?_append_left hlt] at hi
    obtain ⟨m, hm, rfl, hsucc, j, hj, hrow⟩ := htr.ordered i n.id k hi n hn rfl d hd
    refine ⟨j, hj, m.row (own env task m), ?_, rfl, hsucc⟩
    rw [htrace, List.getElem?_append_left (by omega), hrow]
    rfl
  · intro n hn
    by_cases hx : n.id ∈ run
    · rw [hrun n hn hx]
      rcases own_status env task n with hs | hs
      · exact .inl (congrArg some hs)
      · exact .inr (.inl (congrArg some hs))
    · cases failed with
      | true => exact .inr (.inr (hskip n hn hx rfl))
      | false => exact absurd (hall rfl n hn).1 hx
  · intro n hn hfailed m hm hdep
    have hx : n.id ∈ run := by
      by_contra hx
      cases failed with
      | true =>
        rw [hskip n hn hx rfl] at hfailed
        cases hfailed
      | false => exact hx (hall rfl n hn).1
    rw [hrun n hn hx] at hfailed
    have hnf : fails env task nodes n.id = true := by
      rw [fails_id hnd hn]
      simpa using hfailed
    have hm' : m.id ∉ run := by
      intro hmr
      have := (hs.trans hdep hmr).2
      rw [hnf] at this
      cases this
    cases failed with
    | true => exact hskip m hm hm' rfl
    | false => exact absurd (hall rfl m hm).1 hm'
  · rw [h.status]
    cases failed with
    | true => exact .inr rfl
    | false => exact .inl rfl
  · rw [h.status]
    cases failed with
    | false =>
      refine ⟨fun _ n hn => ?_, fun _ => rfl⟩
      obtain ⟨hx, hsucc⟩ := hall rfl n hn
      rw [hrun n hn hx, hsucc]
    | true =>
      refine ⟨fun hc => (by cases hc), fun hsucc => ?_⟩
      obtain ⟨x, hx, hfx⟩ := hfail rfl
      obtain ⟨n, hn, rfl⟩ := mem_ids.1 (hs.mem x hx)
      rw [fails_id hnd hn] at hfx
      have hst := hsucc n hn
      rw [hrun n hn hx, show (own env task n).status = .failed by simpa using hfx] at hst
      cases hst

/-- What a node does is up to the executor. -/
theorem runNode_congr {env env' : Env Step} (h : env'.executor = env.executor) (task : TaskInfo)
    (n : TaskNode Step) : runNode env' task n = runNode env task n := by
  have hsteps : ∀ a idx (steps : List Step),
      runSteps env' task n a idx steps = runSteps env task n a idx steps := by
    intro a idx steps
    induction steps generalizing idx with
    | nil => rfl
    | cons s ss ih => simp only [runSteps, stepOutcome, h, ih]
  have hloop : ∀ left a, runLoop env' task n left a = runLoop env task n left a := by
    intro left
    induction left with
    | zero =>
      intro a
      rw [runLoop, runLoop, hsteps]
    | succ left ih =>
      intro a
      rw [runLoop, runLoop, hsteps]
      simp only [ih]
  exact hloop n.retries 0

/-- **Running a task.** A task with distinct ids, dependencies among its nodes and no cycles runs to
its end and respects its dependencies, and the order in which the nodes of a wave end changes
neither the status of the task nor a result. -/
theorem execute_respectsDeps (henv : env.Calm) (hnd : (ids nodes).Nodup)
    (hclosed : ∀ n ∈ nodes, ∀ d ∈ n.deps, d ∈ ids nodes)
    (hacyc : Waves.Acyclic (ids nodes) (depsOf nodes)) (task : TaskInfo)
    (seed : String → Option NodeResult) :
    ∃ out, (∀ fuel, nodes.length < fuel → execute env task seed nodes fuel = some out) ∧
      RespectsDeps env task nodes out ∧
      ∀ env' : Env Step, env'.Calm → env'.executor = env.executor → ∀ fuel out',
        execute env' task seed nodes fuel = some out' →
          out'.status = out.status ∧ ∀ n ∈ nodes, out'.results n.id = out.results n.id := by
  obtain ⟨run, failed, out, hp, hrun, hx⟩ := execute_refines henv hnd hacyc task seed
  refine ⟨out, hrun, hx.respectsDeps hnd hclosed hacyc hp, ?_⟩
  intro env' henv' hexec fuel out' hrun'
  have hown : ownAt env' task nodes = ownAt env task nodes := by
    funext x
    have hown' : own env' task = own env task := by
      funext n
      rw [own, own, runNode_congr hexec]
    rw [ownAt, ownAt, hown']
  have hfails : fails env' task nodes = fails env task nodes := by
    funext x
    rw [fails, fails, hown]
  obtain ⟨run', failed', out'', hp', hrun'', hx'⟩ := execute_refines henv' hnd hacyc task seed
  rw [hfails, hp] at hp'
  cases hp'
  have heq : out' = out'' := by
    have h1 := execute_mono hrun' (Nat.le_max_left fuel (nodes.length + 1))
    have h2 := hrun'' (max fuel (nodes.length + 1)) (by omega)
    rw [h1] at h2
    exact Option.some.inj h2
  subst heq
  refine ⟨by rw [hx.status, hx'.status], fun n _ => ?_⟩
  rw [hx.results, hx'.results, hown]

section Example

/-- An executor with these answers, the nodes of a wave ending in the order in which they were
spawned. -/
def calmEnv (answer : String → Nat → Except String String) : Env Unit where
  executor ctx attempt _ := ⟨answer ctx.nodeId attempt, false⟩
  completion _ l := l
  panics _ := none
  canceledAt _ := false
  canceledFor _ _ := false
  canceledAtEnd := false

theorem calmEnv_calm (answer : String → Nat → Except String String) : (calmEnv answer).Calm where
  completion _ _ := .refl _
  panics _ := rfl
  canceledAt _ := rfl
  canceledFor _ _ := rfl
  canceledAtEnd := rfl

/-- Node `b` waits for node `a`, which has one retry. -/
def chain : List (TaskNode Unit) :=
  [⟨"a", "a", [], 1, none, [()]⟩, ⟨"b", "b", ["a"], 0, none, [()]⟩]

theorem chain_closed : ∀ n ∈ chain, ∀ d ∈ n.deps, d ∈ ids chain := by
  simp [chain, ids]

theorem chain_acyclic : Waves.Acyclic (ids chain) (depsOf chain) := by
  refine Waves.acyclic_of_rank (fun x => if x = "b" then 1 else 0) fun x hx d hd => ?_
  rcases (by simpa [chain, ids] using hx : x = "a" ∨ x = "b") with rfl | rfl
  · simp [depsOf, chain] at hd
  · obtain rfl : d = "a" := by simpa [depsOf, chain] using hd
    decide

/-- The first attempt of `a` fails: its steps are started a second time. -/
def flaky : Env Unit := calmEnv fun id attempt =>
  if id = "a" ∧ attempt = 1 then .error "boom" else .ok "done"

/-- A node with a retry is started twice. -/
theorem steps_restarted :
    flaky.Calm ∧ (ids chain).Nodup ∧ (∀ n ∈ chain, ∀ d ∈ n.deps, d ∈ ids chain) ∧
      Waves.Acyclic (ids chain) (depsOf chain) ∧
      ∃ out, execute flaky ⟨"t", "i"⟩ (fun _ => none) chain 3 = some out ∧
        out.trace.filterMap Event.started = [("a", 1), ("a", 2), ("b", 1)] :=
  ⟨calmEnv_calm _, by decide, chain_closed, chain_acyclic, _, rfl, rfl⟩

/-- The chain with an executor that fails on `a`. -/
theorem chain_respectsDeps :
    ∃ out, (∀ fuel, 2 < fuel → execute (calmEnv fun _ _ => .error "boom") ⟨"t", "i"⟩ (fun _ => none)
        chain fuel = some out) ∧
      RespectsDeps (calmEnv fun _ _ => .error "boom") ⟨"t", "i"⟩ chain out := by
  obtain ⟨out, hrun, hx, -⟩ := execute_respectsDeps (calmEnv_calm fun _ _ => .error "boom")
    (by decide) chain_closed chain_acyclic ⟨"t", "i"⟩ fun _ => none
  exact ⟨out, hrun, hx⟩

end Example

end Rdsctl.Dag
