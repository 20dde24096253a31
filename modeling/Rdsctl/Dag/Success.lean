import Rdsctl.Dag.CycleMember
import Rdsctl.Dag.Execute
import Rdsctl.Lib.Countdown

/-!
# Tasks that end as a success

`execute` of `src/dag.rs` counts an id down when a node it depends on has ended, and calls the task a
success when no node is ready any more and none has failed. A node whose id is not counted down to
zero is left out, as when it names a dependency that is not in the list, and the task is a success all
the same. Ids may be repeated: the count starts at the dependencies of the last node with the id, that
node is the one that gets ready, and the dependencies of every node with the id count down. `countdown`
is that count without `execute`; it decides which tasks a success says everything of
(`completeOnSuccess_iff`).
-/

namespace Rdsctl.Dag

variable {Step : Type} {nodes : List (TaskNode Step)} {n : TaskNode Step} {env : Env Step}
  {task : TaskInfo} {st st' : Exec Step} {k fuel : Nat} {t done : List String}

/-- `deps_left` before the first wave. -/
def waitsOf (nodes : List (TaskNode Step)) (id : String) : Nat :=
  ((nodeById nodes id).map fun n => n.deps.length).getD 0

/-- How the ids of a task are counted down. -/
def countdown (nodes : List (TaskNode Step)) : Countdown String :=
  ⟨ids nodes, waitsOf nodes, dependents nodes⟩

/-- The node gets ready with its id: at the beginning all nodes with the id do, later the one that
`node_by_id` holds. -/
def GetsReady (nodes : List (TaskNode Step)) (n : TaskNode Step) : Prop :=
  waitsOf nodes n.id = 0 ∨ nodeById nodes n.id = some n

/-- A cycle is found, or every id is counted down to zero and every node gets ready with its id. -/
def Covered (nodes : List (TaskNode Step)) : Prop :=
  findCycle nodes ≠ none ∨ ∀ n ∈ nodes, (countdown nodes).Reached n.id ∧ GetsReady nodes n

/-- What a wave leaves when its last node has ended. -/
def waveEnd (env : Env Step) (task : TaskInfo) (nodes : List (TaskNode Step)) (wave : Nat)
    (st : Exec Step) : Exec Step :=
  (env.completion wave st.ready).foldl (settle env task nodes wave)
    { st.ready.foldl (spawn env task wave) st with ready := [] }

/-- The nodes that the loop of `execute` spawns. -/
def spawnedNodes (env : Env Step) (task : TaskInfo) (nodes : List (TaskNode Step)) :
    Nat → Nat → Exec Step → List (TaskNode Step)
  | 0, _, _ => []
  | fuel + 1, wave, st =>
    if st.ready.isEmpty || env.canceledAt wave then []
    else
      st.ready ++ if (waveEnd env task nodes wave st).failed then []
        else spawnedNodes env task nodes fuel (wave + 1) (waveEnd env task nodes wave st)

/-- Whenever the nodes are executed and the task ends as a success, each of them was spawned and has
succeeded. -/
def CompleteOnSuccess (nodes : List (TaskNode Step)) : Prop :=
  ∀ (env : Env Step) (task : TaskInfo) (fuel : Nat) (out : Outcome Step), env.Fair →
    execute env task (fun _ => none) nodes fuel = some out → out.status = .success →
    ∀ n ∈ nodes, n ∈ spawnedNodes env task nodes fuel 0 (initExec (fun _ => none) nodes) ∧
      ∃ r, out.results n.id = some r ∧ r.status = .success

/-! ## The nodes of a wave end -/

theorem nodeById_of_mem {x : String} (hx : x ∈ ids nodes) :
    ∃ m, nodeById nodes x = some m ∧ m.id = x ∧ m ∈ nodes := by
  obtain ⟨m, hm, rfl⟩ := mem_ids.1 hx
  cases hf : nodeById nodes m.id with
  | none => simpa using List.find?_eq_none.1 hf m (List.mem_reverse.2 hm)
  | some m' =>
    have hid : m'.id = m.id := by simpa using List.find?_some hf
    exact ⟨m', rfl, hid, List.mem_reverse.1 (List.mem_of_find?_eq_some hf)⟩

/-- While nodes end that were spawned before: the ids `t` were counted down. -/
structure Drained (nodes : List (TaskNode Step)) (t : List String) (st : Exec Step) : Prop where
  depsLeft : ∀ x, st.depsLeft x = waitsOf nodes x - t.count x
  ready : ∀ x, (ids st.ready).count x =
    if x ∈ st.pending ∧ waitsOf nodes x ≤ t.count x then t.count x + 1 - waitsOf nodes x else 0
  held : ∀ n ∈ st.ready, nodeById nodes n.id = some n
  pending : ∀ x ∈ st.pending, x ∈ ids nodes

/-- One more id is counted down. -/
theorem Drained.release (h : Drained nodes t st) (d : String) :
    Drained nodes (t ++ [d]) (release nodes st d) := by
  have hcount : ∀ x, (t ++ [d]).count x = t.count x + if x = d then 1 else 0 := by
    intro x
    rw [List.count_append, List.count_singleton]
    rcases eq_or_ne x d with rfl | hne
    · simp
    · simp [hne, hne.symm]
  have hleft : ∀ x, (if x = d then st.depsLeft d - 1 else st.depsLeft x) =
      waitsOf nodes x - (t ++ [d]).count x := by
    intro x
    rw [hcount]
    split
    · next hx =>
      rw [hx, h.depsLeft]
      omega
    · rw [h.depsLeft, Nat.add_zero]
  unfold Dag.release
  dsimp only
  split
  · next hzero =>
    obtain ⟨hzero, hpend⟩ := hzero
    have hle : waitsOf nodes d ≤ t.count d + 1 := by
      rw [h.depsLeft] at hzero
      omega
    obtain ⟨m, hm, rfl, -⟩ := nodeById_of_mem (h.pending d hpend)
    rw [hm]
    refine ⟨hleft, fun x => ?_, fun n hn => ?_, h.pending⟩
    · rw [ids, List.map_append, List.count_append, ← ids, h.ready, hcount]
      rcases eq_or_ne x m.id with rfl | hne
      · simp only [hpend, true_and, if_true, hle, List.map_cons, List.map_nil, List.count_singleton_self]
        split <;> omega
      · simp [hne, hne.symm]
    · rcases List.mem_append.1 hn with hn | hn
      · exact h.held n hn
      · rwa [List.mem_singleton.1 hn]
  · next hnot =>
    refine ⟨hleft, fun x => ?_, h.held, h.pending⟩
    rw [h.ready, hcount]
    rcases eq_or_ne x d with rfl | hne
    · -- the id is not pending, or waits on
      have hlong : x ∈ st.pending → ¬waitsOf nodes x ≤ t.count x + 1 := fun hpend hle =>
        hnot ⟨by rw [h.depsLeft]; omega, hpend⟩
      by_cases hpend : x ∈ st.pending
      · have := hlong hpend
        rw [if_neg (by rintro ⟨-, hle⟩; omega), if_neg (by rintro ⟨-, hle⟩; simp at hle; omega)]
      · rw [if_neg fun h => hpend h.1, if_neg fun h => hpend h.1]
    · simp [hne]

theorem Drained.releases (h : Drained nodes t st) (ds : List String) :
    Drained nodes (t ++ ds) (ds.foldl (Dag.release nodes) st) := by
  induction ds generalizing t st with
  | nil => rwa [List.append_nil]
  | cons d ds ih =>
    rw [List.foldl_cons, List.append_cons]
    exact ih (h.release d)

/-- The node has succeeded. -/
def Succeeded (st : Exec Step) (x : String) : Prop := ∃ r, st.results x = some r ∧ r.status = .success

/-- A node that ends well. -/
theorem outcome_of_not_bad (h : bad env task k n = false) :
    ∃ out, outcome env task k n = some out ∧ (resultOf out).status = .success := by
  unfold bad at h
  cases ho : outcome env task k n with
  | none =>
    rw [ho] at h
    cases h
  | some out =>
    rw [ho] at h
    exact ⟨out, rfl, (resultOf_status out).resolve_right (of_decide_eq_false h)⟩

theorem Drained.settle (h : Drained nodes t st) (hok : bad env task k n = false) :
    Drained nodes (t ++ dependents nodes n.id) (Dag.settle env task nodes k st n) ∧
      ∀ x, (x = n.id ∨ Succeeded st x) → Succeeded (Dag.settle env task nodes k st n) x := by
  obtain ⟨out, ho, hs⟩ := outcome_of_not_bad hok
  rw [Dag.settle, ho]
  have hsame : Drained nodes t { st with
      failed := st.failed || (resultOf out).status = .failed
      results := insertResult st.results n.id (resultOf out)
      trace := st.trace ++ persistById nodes n.id (resultOf out) } :=
    ⟨h.depsLeft, h.ready, h.held, h.pending⟩
  refine ⟨hsame.releases _, fun x hx => ?_⟩
  unfold Succeeded
  dsimp only
  rw [(release_frame nodes _ _).1]
  dsimp only [insertResult]
  split
  · exact ⟨_, rfl, hs⟩
  · next hne => exact hx.resolve_left hne

theorem Drained.settles (h : Drained nodes t st) {l : List (TaskNode Step)}
    (hok : l.any (bad env task k) = false) :
    Drained nodes (t ++ (ids l).flatMap (dependents nodes)) (l.foldl (Dag.settle env task nodes k) st) ∧
      ∀ x, (x ∈ ids l ∨ Succeeded st x) → Succeeded (l.foldl (Dag.settle env task nodes k) st) x := by
  induction l generalizing t st with
  | nil =>
    refine ⟨?_, fun x hx => hx.resolve_left List.not_mem_nil⟩
    rwa [ids, List.map_nil, List.flatMap_nil, List.append_nil]
  | cons n l ih =>
    rw [List.any_cons, Bool.or_eq_false_iff] at hok
    obtain ⟨hd, hs⟩ := h.settle hok.1
    obtain ⟨hd', hs'⟩ := ih hd hok.2
    rw [List.foldl_cons]
    refine ⟨?_, fun x hx => hs' x ?_⟩
    · rw [ids, List.map_cons, List.flatMap_cons, ← List.append_assoc]
      exact hd'
    · rcases hx with hx | hx
      · rcases List.mem_cons.1 hx with rfl | hx
        · exact .inr (hs _ (.inl rfl))
        · exact .inl hx
      · exact .inr (hs x (.inr hx))

/-! ## The waves -/

/-- Before a wave, when the runs `done` were successful. -/
structure Standing (nodes : List (TaskNode Step)) (done : List String) (st : Exec Step) : Prop where
  pending : ∀ x, x ∈ st.pending ↔ x ∈ ids nodes ∧ x ∉ done
  depsLeft : ∀ x, st.depsLeft x = waitsOf nodes x - (countdown nodes).counted done x
  ready : (ids st.ready).Perm ((countdown nodes).next done)
  held : ∀ n ∈ st.ready, GetsReady nodes n
  failed : st.failed = false
  succeeded : ∀ x ∈ done, Succeeded st x

theorem standing_init (nodes : List (TaskNode Step)) :
    Standing nodes [] (initExec (fun _ => none) nodes) where
  pending x := by simp [initExec, ids]
  depsLeft x := rfl
  ready := by
    refine List.perm_iff_count.2 fun x => ?_
    rw [Countdown.count_next]
    show (((nodes.filter fun n => decide (waitsOf nodes n.id = 0)).map TaskNode.id).count x) = _
    have hfilter : (nodes.filter fun n => decide (waitsOf nodes n.id = 0)).map TaskNode.id =
        (ids nodes).filter fun x => decide (waitsOf nodes x = 0) := by
      rw [ids, List.filter_map]
      rfl
    rw [hfilter]
    by_cases hz : waitsOf nodes x = 0
    · rw [List.count_filter (by simpa using hz)]
      have htimes : (countdown nodes).times [] x = (ids nodes).count x := if_pos hz
      split
      · exact htimes.symm
      · next hnot =>
        refine List.count_eq_zero.2 fun hx => hnot ⟨hx, List.not_mem_nil, ?_⟩
        exact hz.le.trans (Nat.zero_le _)
    · rw [if_neg fun h => hz (Nat.le_zero.1 h.2.2)]
      exact List.count_eq_zero.2 fun hx => hz (of_decide_eq_true (List.mem_filter.1 hx).2)
  held n hn := .inl (of_decide_eq_true (List.mem_filter.1 hn).2)
  failed := rfl
  succeeded := nofun

/-- The nodes of a wave are spawned. -/
theorem Standing.drained (h : Standing nodes done st) :
    Drained nodes (done.flatMap (dependents nodes))
      { st.ready.foldl (spawn env task k) st with ready := [] } := by
  obtain ⟨hpend, hleft, -⟩ := spawn_all env task k st st.ready
  refine ⟨fun x => ?_, fun x => ?_, nofun, fun x hx => ?_⟩
  · rw [hleft]
    exact h.depsLeft x
  · rw [if_neg]
    · rfl
    · rintro ⟨hx, hle⟩
      obtain ⟨hx, hnot⟩ := (hpend x).1 hx
      obtain ⟨hx, hdone⟩ := (h.pending x).1 hx
      exact hnot (h.ready.mem_iff.2 (Countdown.mem_next.2 ⟨hx, hdone, hle⟩))
  · exact ((h.pending x).1 ((hpend x).1 hx).1).1

/-- A wave that does not fail. -/
theorem Standing.wave (hperm : (env.completion k st.ready).Perm st.ready)
    (h : Standing nodes done st) (hok : (waveEnd env task nodes k st).failed = false) :
    Standing nodes (done ++ (countdown nodes).next done) (waveEnd env task nodes k st) := by
  obtain ⟨hpend, -, hfailed, -, hresults⟩ := spawn_all env task k st st.ready
  obtain ⟨hfail, hsame⟩ := settle_frame env task nodes k
    { st.ready.foldl (spawn env task k) st with ready := [] } (env.completion k st.ready)
  have hgood : (env.completion k st.ready).any (bad env task k) = false := by
    rw [waveEnd, hfail, Bool.or_eq_false_iff] at hok
    exact hok.2
  have hids : (ids (env.completion k st.ready)).Perm ((countdown nodes).next done) :=
    (hperm.map TaskNode.id).trans h.ready
  have hall : Drained nodes (done.flatMap (dependents nodes) ++
      (ids (env.completion k st.ready)).flatMap (dependents nodes)) (waveEnd env task nodes k st) ∧
      ∀ x, (x ∈ ids (env.completion k st.ready) ∨
        Succeeded { st.ready.foldl (spawn env task k) st with ready := [] } x) →
          Succeeded (waveEnd env task nodes k st) x := h.drained.settles hgood
  obtain ⟨hd, hs⟩ := hall
  have hcount : ∀ x, (done.flatMap (dependents nodes) ++
      (ids (env.completion k st.ready)).flatMap (dependents nodes)).count x =
        (countdown nodes).counted (done ++ (countdown nodes).next done) x := by
    intro x
    rw [Countdown.counted_append, List.count_append]
    exact congrArg (_ + ·) ((hids.flatMap_right (dependents nodes)).count_eq x)
  have hpending : ∀ x, x ∈ (waveEnd env task nodes k st).pending ↔
      x ∈ ids nodes ∧ x ∉ done ++ (countdown nodes).next done := by
    intro x
    rw [waveEnd, hsame, hpend, h.pending, h.ready.mem_iff, List.mem_append, not_or, and_assoc]
  refine ⟨hpending, fun x => ?_, List.perm_iff_count.2 fun x => ?_, fun n hn => .inr (hd.held n hn), hok,
    fun x hx => hs x ?_⟩
  · rw [← hcount]
    exact hd.depsLeft x
  · rw [Countdown.count_next, hd.ready, hcount]
    have hiff := and_congr_left (c := waitsOf nodes x ≤
      (countdown nodes).counted (done ++ (countdown nodes).next done) x) fun _ => hpending x
    rw [and_assoc] at hiff
    split
    · next hx =>
      obtain ⟨hx, hnot, hle⟩ := hiff.1 hx
      rw [List.mem_append, not_or] at hnot
      -- what waits for nothing has run in the first wave
      have hpos : waitsOf nodes x ≠ 0 := fun hz =>
        hnot.2 (Countdown.mem_next.2 ⟨hx, hnot.1, hz.le.trans (Nat.zero_le _)⟩)
      rw [if_pos ⟨hx, by rwa [List.mem_append, not_or], hle⟩]
      exact (if_neg hpos).symm
    · next hx => exact (if_neg (mt hiff.2 hx)).symm
  · rcases List.mem_append.1 hx with hx | hx
    · refine .inr ?_
      obtain ⟨r, hr, hst⟩ := h.succeeded x hx
      refine ⟨r, (hresults x fun hnext => ?_).trans hr, hst⟩
      exact (Countdown.mem_next.1 (h.ready.mem_iff.1 hnext)).2.1 hx
    · exact .inl (hids.mem_iff.2 hx)

theorem failed_skip (l : List (TaskNode Step)) (st : Exec Step) :
    (l.foldl skip st).failed = st.failed := by
  induction l generalizing st with
  | nil => rfl
  | cons n l ih =>
    rw [List.foldl_cons, ih, skip]
    split <;> rfl

theorem Standing.ready_eq_nil (h : Standing nodes done st) :
    st.ready = [] ↔ (countdown nodes).next done = [] := by
  rw [← List.length_eq_zero_iff, ← List.length_eq_zero_iff, ← h.ready.length_eq, ids, List.length_map]

/-- A run that does not fail and is not cancelled is that of the countdown, to its end. -/
theorem Standing.run {j : Nat} (hperm : ∀ k l, (env.completion k l).Perm l)
    (hcancel : ∀ k, env.canceledAt k = false) (h : Standing nodes ((countdown nodes).schedule j) st)
    (hrun : waves env task nodes fuel k st = some st') (hok : st'.failed = false) :
    ∃ l, (countdown nodes).next ((countdown nodes).schedule l) = [] ∧ j ≤ l ∧
      Standing nodes ((countdown nodes).schedule l) st' ∧
      (∀ n ∈ spawnedNodes env task nodes fuel k st,
        n.id ∈ (countdown nodes).schedule l ∧ GetsReady nodes n) ∧
      ∀ x ∈ (countdown nodes).schedule l, x ∈ (countdown nodes).schedule j ∨
        ∃ n ∈ spawnedNodes env task nodes fuel k st, n.id = x := by
  induction fuel generalizing j k st with
  | zero => cases hrun
  | succ fuel ih =>
    rw [waves] at hrun
    unfold spawnedNodes
    rw [hcancel, Bool.or_false] at hrun ⊢
    cases hempty : st.ready.isEmpty with
    | true =>
      rw [hempty] at hrun
      cases hrun
      exact ⟨j, h.ready_eq_nil.1 (List.isEmpty_iff.1 hempty), Nat.le_refl j, h,
        fun n hn => absurd hn List.not_mem_nil, fun x hx => .inl hx⟩
    | false =>
      rw [hempty] at hrun
      replace hrun : (if (waveEnd env task nodes k st).failed then
          some (nodes.foldl skip (waveEnd env task nodes k st))
        else waves env task nodes fuel (k + 1) (waveEnd env task nodes k st)) = some st' := hrun
      cases hfailed : (waveEnd env task nodes k st).failed with
      | true =>
        rw [hfailed] at hrun
        cases hrun
        rw [failed_skip, hfailed] at hok
        cases hok
      | false =>
        rw [hfailed] at hrun
        obtain ⟨l, hnil, hjl, hlast, hspawned, hrest⟩ :=
          ih (j := j + 1) (h.wave (hperm k st.ready) hfailed) hrun
        refine ⟨l, hnil, Nat.le_of_succ_le hjl, hlast, fun n hn => ?_, fun x hx => ?_⟩
        · rcases List.mem_append.1 hn with hn | hn
          · refine ⟨Countdown.schedule_subset hjl (List.mem_append_right _ ?_), h.held n hn⟩
            exact h.ready.mem_iff.1 (mem_ids.2 ⟨n, hn, rfl⟩)
          · exact hspawned n hn
        · rcases hrest x hx with hx | ⟨n, hn, rfl⟩
          · refine (List.mem_append.1 hx).imp_right fun hx => ?_
            obtain ⟨n, hn, rfl⟩ := mem_ids.1 (h.ready.mem_iff.2 hx)
            exact ⟨n, List.mem_append_left _ hn, rfl⟩
          · exact .inr ⟨n, List.mem_append_right _ hn, rfl⟩

/-- What is ready is spawned. -/
theorem mem_spawnedNodes (hcancel : env.canceledAt k = false) (hn : n ∈ st.ready) :
    n ∈ spawnedNodes env task nodes (fuel + 1) k st := by
  have hne : st.ready.isEmpty = false := by
    rw [List.isEmpty_eq_false_iff]
    exact List.ne_nil_of_mem hn
  unfold spawnedNodes
  rw [hcancel, hne]
  exact List.mem_append_left _ hn

theorem Covered.complete (h : Covered nodes) : CompleteOnSuccess nodes := by
  intro env task fuel out henv hout hstatus n hn
  unfold execute at hout
  rcases hfind : findCycle nodes with _ | cycle
  · rw [hfind] at hout
    obtain ⟨st', hrun, rfl⟩ := Option.map_eq_some_iff.1 hout
    have hgood : (st'.failed || env.canceledAtEnd) = false := by
      refine Bool.eq_false_iff.2 fun hbad => ?_
      rw [hbad] at hstatus
      cases hstatus
    obtain ⟨hok, hend⟩ := Bool.or_eq_false_iff.1 hgood
    have hcancel : ∀ k, env.canceledAt k = false := fun k => (henv.canceled hend k).1
    obtain ⟨l, hnil, -, hlast, hspawned, hall⟩ :=
      Standing.run (j := 0) henv.completion hcancel (standing_init nodes) hrun hok
    obtain ⟨hreached, hready⟩ := h.resolve_left (fun hc => hc hfind) n hn
    have hmem := Countdown.mem_of_reached hnil hreached
    refine ⟨?_, hlast.succeeded n.id hmem⟩
    obtain ⟨m, hm, hid⟩ := (hall n.id hmem).resolve_left List.not_mem_nil
    have hfirst : waitsOf nodes n.id = 0 →
        n ∈ spawnedNodes env task nodes fuel 0 (initExec (fun _ => none) nodes) := fun hz => by
      cases fuel with
      | zero => cases hrun
      | succ fuel => exact mem_spawnedNodes (hcancel 0) (List.mem_filter.2 ⟨hn, decide_eq_true hz⟩)
    rcases hready with hz | hlookup
    · exact hfirst hz
    · rcases (hspawned m hm).2 with hz | hlookup'
      · exact hfirst (hid ▸ hz)
      · rw [hid, hlookup] at hlookup'
        rwa [Option.some.inj hlookup']
  · rw [hfind] at hout
    obtain rfl := Option.some.inj hout
    cases hstatus

/-! ## A world in which all steps succeed -/

/-- Every step succeeds, and nothing is cancelled. -/
def smooth : Env Step where
  executor _ _ _ := ⟨.ok "", false⟩
  completion _ l := l
  panics _ := none
  canceledAt _ := false
  canceledFor _ _ := false
  canceledAtEnd := false

theorem smooth_fair : (smooth : Env Step).Fair where
  completion _ l := .refl l
  canceled _ _ := ⟨rfl, fun _ => rfl⟩

theorem runSteps_smooth (task : TaskInfo) (n : TaskNode Step) (attempt idx : Nat) (steps : List Step) :
    (runSteps smooth task n attempt idx steps).2 = none := by
  induction steps generalizing idx with
  | nil => rfl
  | cons step steps ih =>
    have hok : stepOutcome smooth ⟨task.id, task.inst, n.id, idx⟩ attempt n step = .ok "" := by
      unfold stepOutcome
      split <;> rfl
    rw [runSteps, hok]
    exact ih (idx + 1)

theorem bad_smooth (task : TaskInfo) (k : Nat) (n : TaskNode Step) : bad smooth task k n = false := by
  have hnone := runSteps_smooth task n 1 0 n.steps
  show decide ((resultOf (runLoop smooth task n n.retries 0)).status = .failed) = false
  rw [runLoop]
  rcases hrun : runSteps smooth task n (0 + 1) 0 n.steps with ⟨logs, _ | err⟩
  · rfl
  · rw [hrun] at hnone
    cases hnone

/-- There the waves end without a failure. -/
theorem Standing.ends {j : Nat} (h : Standing nodes ((countdown nodes).schedule j) st)
    (hfuel : nodes.length < fuel + ((countdown nodes).schedule j).dedup.length) :
    ∃ st', waves smooth task nodes fuel k st = some st' ∧ st'.failed = false := by
  induction fuel generalizing j k st with
  | zero =>
    have hle : ((countdown nodes).schedule j).dedup.length ≤ (countdown nodes).jobs.length :=
      Countdown.dedup_le fun x hx => Countdown.mem_jobs hx
    have hlen : (countdown nodes).jobs.length = nodes.length := List.length_map _
    omega
  | succ fuel ih =>
    rw [waves]
    have hcancel : (smooth : Env Step).canceledAt k = false := rfl
    rw [hcancel, Bool.or_false]
    cases hempty : st.ready.isEmpty with
    | true => exact ⟨st, rfl, h.failed⟩
    | false =>
      have hok : (waveEnd smooth task nodes k st).failed = false := by
        rw [waveEnd, (settle_frame smooth task nodes k _ _).1, Bool.or_eq_false_iff]
        refine ⟨(spawn_all smooth task k st st.ready).2.2.1.trans h.failed, ?_⟩
        exact List.any_eq_false.2 fun n _ => by rw [bad_smooth]; exact Bool.false_ne_true
      have hne : (countdown nodes).next ((countdown nodes).schedule j) ≠ [] := fun hnil => by
        rw [List.isEmpty_eq_false_iff] at hempty
        exact hempty (h.ready_eq_nil.2 hnil)
      have hlt := Countdown.dedup_lt hne
      obtain ⟨st', hrun, hok'⟩ := ih (j := j + 1) (k := k + 1) (h.wave (.refl _) hok)
        (by rw [Countdown.schedule]; omega)
      refine ⟨st', ?_, hok'⟩
      show (if (waveEnd smooth task nodes k st).failed then
          some (nodes.foldl skip (waveEnd smooth task nodes k st))
        else waves smooth task nodes fuel (k + 1) (waveEnd smooth task nodes k st)) = some st'
      rw [hok]
      exact hrun

theorem covered_of_complete (h : CompleteOnSuccess nodes) : Covered nodes := by
  refine Classical.or_iff_not_imp_left.2 fun hfind => ?_
  rw [not_not] at hfind
  have hends : ∃ st', waves smooth ⟨"t", "i"⟩ nodes (nodes.length + 1) 0
      (initExec (fun _ => none) nodes) = some st' ∧ st'.failed = false :=
    Standing.ends (j := 0) (standing_init nodes) (by omega)
  obtain ⟨st', hrun, hok⟩ := hends
  have hout : execute smooth ⟨"t", "i"⟩ (fun _ => none) nodes (nodes.length + 1) =
      some (finishTask st' .success) := by
    rw [execute, hfind]
    show (waves smooth ⟨"t", "i"⟩ nodes (nodes.length + 1) 0 _).map _ = _
    rw [hrun, Option.map_some, hok]
    rfl
  obtain ⟨l, -, -, -, hspawned, -⟩ := Standing.run (j := 0) smooth_fair.completion (fun _ => rfl)
    (standing_init nodes) hrun hok
  intro n hn
  obtain ⟨hmem, hready⟩ := hspawned n (h smooth _ _ _ smooth_fair hout rfl n hn).1
  exact ⟨⟨l, hmem⟩, hready⟩

/-! ## Distinct ids -/

/-- There is a cycle, or the dependencies name listed nodes only. -/
def Listed (nodes : List (TaskNode Step)) : Prop :=
  (∃ id, CycleMember nodes id) ∨ ∀ n ∈ nodes, ∀ d ∈ n.deps, d ∈ ids nodes

theorem findCycle_ne_none_iff (hnd : (ids nodes).Nodup) :
    findCycle nodes ≠ none ↔ ∃ id, CycleMember nodes id := by
  have hfirst := (findCycle_spec nodes).2
  constructor
  · intro hfind
    obtain ⟨id, hid⟩ := Option.ne_none_iff_exists'.1 hfind
    rw [hid] at hfirst
    obtain ⟨_, n, _, -, -, hlead, -⟩ := hfirst
    obtain ⟨c, -, hc⟩ := (leadsToCycle_iff hnd).2 hlead
    exact ⟨c, hc⟩
  · rintro ⟨id, hc⟩ hnone
    rw [hnone] at hfirst
    obtain ⟨n, hn, rfl⟩ := mem_ids.1 hc.mem_ids
    exact hfirst n hn ((cycleMember_iff hnd).1 hc).leads

theorem acyclic_iff (hnd : (ids nodes).Nodup) :
    Waves.Acyclic (ids nodes) (depsOf nodes) ↔ ¬∃ id, CycleMember nodes id := by
  constructor
  · rintro hacyc ⟨id, hc⟩
    refine hacyc id (Relation.TransGen.mono (fun a b hab => ?_) _ _ ((cycleMember_iff hnd).1 hc))
    exact ⟨mem_ids_of_mem_depsOf hab, hab⟩
  · intro hnone id hc
    refine hnone ⟨id, (cycleMember_iff hnd).2 ?_⟩
    exact Relation.TransGen.mono (fun a b hab => hab.2) _ _ hc

theorem mem_dependents {d x : String} (h : x ∈ dependents nodes d) : x ∈ ids nodes := by
  obtain ⟨n, hn, hx⟩ := List.mem_flatMap.1 h
  obtain ⟨-, -, rfl⟩ := List.mem_map.1 hx
  exact mem_ids.2 ⟨n, hn, rfl⟩

/-- An id is counted down as often as its node names the one that has ended. -/
theorem count_dependents (hnd : (ids nodes).Nodup) {x : String} (hx : x ∈ ids nodes) (d : String) :
    (dependents nodes d).count x = (depsOf nodes x).count d := by
  obtain ⟨n, hn, rfl⟩ := mem_ids.1 hx
  rw [depsOf_id hnd hn]
  clear hx
  induction nodes with
  | nil => cases hn
  | cons m ms ih =>
    obtain ⟨hnot, hms⟩ := List.nodup_cons.1 hnd
    have hown : ((m.deps.filter (· = d)).map fun _ => m.id) = List.replicate (m.deps.count d) m.id := by
      rw [List.map_const', List.count_eq_length_filter]
      rfl
    have hcons : dependents (m :: ms) d = List.replicate (m.deps.count d) m.id ++ dependents ms d := by
      rw [← hown]
      rfl
    rw [hcons, List.count_append]
    rcases List.mem_cons.1 hn with rfl | hn
    · rw [List.count_replicate_self, List.count_eq_zero.2 fun h => hnot (mem_dependents h), Nat.add_zero]
    · have hne : n.id ≠ m.id := fun heq => hnot (heq ▸ mem_ids.2 ⟨n, hn, rfl⟩)
      rw [ih hms hn, List.count_replicate, if_neg (by simpa using hne.symm), Nat.zero_add]

theorem waitsOf_eq (hnd : (ids nodes).Nodup) {x : String} (hx : x ∈ ids nodes) :
    waitsOf nodes x = (depsOf nodes x).length := by
  obtain ⟨n, hn, rfl⟩ := mem_ids.1 hx
  rw [waitsOf, nodeById_id hnd hn, depsOf_id hnd hn]
  rfl

/-- Among nodes with distinct ids, those are covered that name each other only. -/
theorem covered_iff_listed (hnd : (ids nodes).Nodup) : Covered nodes ↔ Listed nodes := by
  unfold Covered Listed
  rw [findCycle_ne_none_iff hnd]
  refine or_congr_right' fun hnone => ⟨fun h n hn d hd => ?_, fun h n hn => ⟨?_, .inr (nodeById_id hnd hn)⟩⟩
  · rw [← depsOf_id hnd hn] at hd
    exact (h n hn).1.listed hnd (fun x hx d => (count_dependents hnd hx d).le)
      (fun x hx => (waitsOf_eq hnd hx).ge) d hd
  · have hclosed : ∀ x ∈ ids nodes, ∀ d ∈ depsOf nodes x, d ∈ ids nodes := by
      intro x hx d hd
      obtain ⟨m, hm, rfl⟩ := mem_ids.1 hx
      rw [depsOf_id hnd hm] at hd
      exact h m hm d hd
    have hstart := Waves.startable_of_acyclic hclosed ((acyclic_iff hnd).2 hnone) n.id
      (mem_ids.2 ⟨n, hn, rfl⟩)
    exact .of_startable (c := countdown nodes) (fun x hx d => (count_dependents hnd hx d).ge)
      (fun x hx => (waitsOf_eq hnd hx).le) hstart

/-- A success means that every node was executed and has succeeded exactly for the tasks that are covered;
where the ids are distinct, for those whose dependencies name listed nodes only or form a cycle. -/
theorem completeOnSuccess_iff (nodes : List (TaskNode Step)) :
    (CompleteOnSuccess nodes ↔ Covered nodes) ∧
      ((ids nodes).Nodup → (CompleteOnSuccess nodes ↔ Listed nodes)) := by
  have hiff : CompleteOnSuccess nodes ↔ Covered nodes := ⟨covered_of_complete, Covered.complete⟩
  exact ⟨hiff, fun hnd => hiff.trans (covered_iff_listed hnd)⟩

/-- The one node of this task waits for a node that is not there; the task is a success. -/
theorem ghost_unexecuted : ¬CompleteOnSuccess [bare "a" ["ghost"]] := by
  intro h
  have hout : execute smooth ⟨"t", "i"⟩ (fun _ => none) [bare "a" ["ghost"]] 1 =
      some ⟨.success, fun _ => none, [.task .running, .task .success]⟩ := rfl
  obtain ⟨-, r, hr, -⟩ := h smooth ⟨"t", "i"⟩ 1 _ smooth_fair hout rfl _ List.mem_cons_self
  cases hr

end Rdsctl.Dag
