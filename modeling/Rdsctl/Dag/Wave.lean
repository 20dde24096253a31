import Rdsctl.Dag.Cycle
import Rdsctl.Lib.Table

/-!
# One wave

What `execute` of `src/dag.rs` does with a wave of nodes. `Mid` is what holds while they end: it
speaks about the sets of nodes that have ended, never about an order.
-/

namespace Rdsctl.Dag

variable {Step : Type}

/-- The nodes of a wave all end, and a cancel flag that is seen is still there at the end. -/
structure Env.Fair (env : Env Step) : Prop where
  completion : ∀ wave l, (env.completion wave l).Perm l
  canceled : env.canceledAtEnd = false →
    ∀ wave, env.canceledAt wave = false ∧ ∀ id, env.canceledFor wave id = false

/-- Nothing panics and nothing is cancelled, either. -/
structure Env.Calm (env : Env Step) : Prop where
  completion : ∀ wave l, (env.completion wave l).Perm l
  panics : ∀ id, env.panics id = none
  canceledAt : ∀ wave, env.canceledAt wave = false
  canceledFor : ∀ wave id, env.canceledFor wave id = false
  canceledAtEnd : env.canceledAtEnd = false

theorem Env.Calm.fair {env : Env Step} (h : env.Calm) : env.Fair where
  completion := h.completion
  canceled := fun _ wave => ⟨h.canceledAt wave, h.canceledFor wave⟩

/-- The result of a node that is run. -/
def own (env : Env Step) (task : TaskInfo) (n : TaskNode Step) : NodeResult :=
  resultOf (runNode env task n)

/-- The result of the node with this id, when it is run. -/
def ownAt (env : Env Step) (task : TaskInfo) (nodes : List (TaskNode Step)) (id : String) :
    Option NodeResult :=
  (nodes.find? fun n => n.id = id).map (own env task)

/-- The node with this id fails when it is run. -/
def fails (env : Env Step) (task : TaskInfo) (nodes : List (TaskNode Step)) (id : String) : Bool :=
  (ownAt env task nodes id).any fun r => r.status = .failed

section Nodes

variable {nodes : List (TaskNode Step)} {n m : TaskNode Step} {env : Env Step} {task : TaskInfo}

theorem mem_ids {x : String} : x ∈ ids nodes ↔ ∃ n ∈ nodes, n.id = x := by simp [ids]

theorem eq_of_id (hnd : (ids nodes).Nodup) (hn : n ∈ nodes) (hm : m ∈ nodes) (h : n.id = m.id) :
    n = m := List.inj_on_of_nodup_map hnd hn hm h

/-- The node that is found under an id. -/
theorem find?_id (hnd : (ids nodes).Nodup) (hn : n ∈ nodes) :
    (nodes.find? fun m => m.id = n.id) = some n := Table.find?_of_mem hnd hn

theorem nodeById_id (hnd : (ids nodes).Nodup) (hn : n ∈ nodes) : nodeById nodes n.id = some n := by
  rw [nodeById, Table.find?_reverse hnd, find?_id hnd hn]

theorem persistById_id (hnd : (ids nodes).Nodup) (hn : n ∈ nodes) (r : NodeResult) :
    persistById nodes n.id r = [persistNode n r] := by
  rw [persistById, nodeById_id hnd hn]

theorem depsOf_id (hnd : (ids nodes).Nodup) (hn : n ∈ nodes) : depsOf nodes n.id = n.deps := by
  rw [depsOf, find?_id hnd hn]
  rfl

theorem ownAt_id (hnd : (ids nodes).Nodup) (hn : n ∈ nodes) :
    ownAt env task nodes n.id = some (own env task n) := by
  rw [ownAt, find?_id hnd hn]
  rfl

theorem fails_id (hnd : (ids nodes).Nodup) (hn : n ∈ nodes) :
    fails env task nodes n.id = decide ((own env task n).status = .failed) := by
  rw [fails, ownAt_id hnd hn]
  rfl

theorem resultOf_status (out : Except String String × Nat) :
    (resultOf out).status = .success ∨ (resultOf out).status = .failed := by
  unfold resultOf
  split
  · exact .inl rfl
  · exact .inr rfl

/-- A node that is run succeeds or fails. -/
theorem own_status (env : Env Step) (task : TaskInfo) (n : TaskNode Step) :
    (own env task n).status = .success ∨ (own env task n).status = .failed :=
  resultOf_status (runNode env task n)

end Nodes

/-! ## One node ends -/

section Drive

variable {nodes : List (TaskNode Step)} {n m : TaskNode Step} {st : Exec Step}

/-- Counting down touches neither results nor trace. -/
theorem release_frame (nodes : List (TaskNode Step)) (st : Exec Step) (ds : List String) :
    (ds.foldl (release nodes) st).results = st.results ∧
      (ds.foldl (release nodes) st).trace = st.trace ∧
      (ds.foldl (release nodes) st).failed = st.failed ∧
      (ds.foldl (release nodes) st).pending = st.pending := by
  induction ds generalizing st with
  | nil => exact ⟨rfl, rfl, rfl, rfl⟩
  | cons d ds ih =>
    have hone : (release nodes st d).results = st.results ∧ (release nodes st d).trace = st.trace ∧
        (release nodes st d).failed = st.failed ∧ (release nodes st d).pending = st.pending := by
      unfold release
      dsimp only
      split
      · split <;> exact ⟨rfl, rfl, rfl, rfl⟩
      · exact ⟨rfl, rfl, rfl, rfl⟩
    obtain ⟨h1, h2, h3, h4⟩ := @ih (release nodes st d)
    rw [List.foldl_cons, h1, h2, h3, h4]
    exact hone

theorem release_one (st : Exec Step) (hm : nodeById nodes m.id = some m) :
    (∀ x, (release nodes st m.id).depsLeft x =
        if x = m.id then st.depsLeft m.id - 1 else st.depsLeft x) ∧
      (release nodes st m.id).ready =
        st.ready ++ (if st.depsLeft m.id - 1 = 0 ∧ m.id ∈ st.pending then [m] else []) ∧
      (release nodes st m.id).pending = st.pending := by
  unfold release
  dsimp only
  split
  · rw [hm]
    exact ⟨fun _ => rfl, rfl, rfl⟩
  · exact ⟨fun _ => rfl, (List.append_nil _).symm, rfl⟩

/-- A node that names the one that ended `c` times counts down by `c`, and is ready when that was
all it waited for. -/
theorem release_replicate (hm : nodeById nodes m.id = some m) {c : Nat}
    (hle : c ≤ st.depsLeft m.id) :
    (∀ x, ((List.replicate c m.id).foldl (release nodes) st).depsLeft x =
        if x = m.id then st.depsLeft m.id - c else st.depsLeft x) ∧
      ((List.replicate c m.id).foldl (release nodes) st).ready =
        st.ready ++ if 0 < c ∧ c = st.depsLeft m.id ∧ m.id ∈ st.pending then [m] else [] := by
  induction c generalizing st with
  | zero =>
    refine ⟨fun x => ?_, by simp⟩
    split
    · next h => rw [h]; rfl
    · rfl
  | succ c ih =>
    obtain ⟨hd, hr, hp⟩ := release_one st hm
    have hself : (release nodes st m.id).depsLeft m.id = st.depsLeft m.id - 1 := by
      rw [hd, if_pos rfl]
    obtain ⟨ihd, ihr⟩ := @ih (release nodes st m.id) (by omega)
    rw [List.replicate_succ, List.foldl_cons, ihr, hself, hr, hp]
    constructor
    · intro x
      rw [ihd, hself, hd]
      split
      · omega
      · rfl
    · rw [List.append_assoc]
      congr 1
      by_cases hpend : m.id ∈ st.pending
      · rcases Nat.eq_zero_or_pos (st.depsLeft m.id - 1) with hz | hz
        · have hc : c = 0 := by omega
          have h1 : st.depsLeft m.id = 1 := by omega
          simp [hc, h1, hpend]
        · rw [if_neg (by omega), List.nil_append]
          congr 1
          apply propext
          constructor <;> rintro ⟨-, h2, h3⟩ <;> exact ⟨by omega, by omega, h3⟩
      · simp [hpend]

/-- How often a node names another. -/
def named (p : String) (m : TaskNode Step) : Nat := (m.deps.filter (· = p)).length

/-- Every node counts down by how often it names `p`, and is ready when that was all it waited
for. -/
theorem release_dependents {ms : List (TaskNode Step)} {p : String} (hnd : (ids ms).Nodup)
    (hms : ∀ m ∈ ms, nodeById nodes m.id = some m) (hle : ∀ m ∈ ms, named p m ≤ st.depsLeft m.id) :
    (∀ m ∈ ms, ((dependents ms p).foldl (release nodes) st).depsLeft m.id =
        st.depsLeft m.id - named p m) ∧
      (∀ x, x ∉ ids ms → ((dependents ms p).foldl (release nodes) st).depsLeft x = st.depsLeft x) ∧
      ((dependents ms p).foldl (release nodes) st).ready = st.ready ++ ms.filter fun m =>
        decide (0 < named p m ∧ named p m = st.depsLeft m.id ∧ m.id ∈ st.pending) := by
  induction ms generalizing st with
  | nil => simp [dependents]
  | cons m ms ih =>
    have hm : nodeById nodes m.id = some m := hms m List.mem_cons_self
    obtain ⟨hnot, hnd'⟩ := List.nodup_cons.1 hnd
    have hdeps : dependents (m :: ms) p = List.replicate (named p m) m.id ++ dependents ms p := by
      rw [dependents, List.flatMap_cons, List.map_const', named]
      rfl
    obtain ⟨hd, hr⟩ := release_replicate hm (hle m List.mem_cons_self)
    obtain ⟨-, -, -, hp⟩ := release_frame nodes st (List.replicate (named p m) m.id)
    generalize hst' : (List.replicate (named p m) m.id).foldl (release nodes) st = st' at hd hr hp
    have hother : ∀ m' ∈ ms, st'.depsLeft m'.id = st.depsLeft m'.id := by
      intro m' hm'
      rw [hd, if_neg]
      intro heq
      exact hnot (mem_ids.2 ⟨m', hm', heq⟩)
    obtain ⟨ih1, ih2, ih3⟩ := @ih st' hnd' (fun m' hm' => hms m' (List.mem_cons_of_mem _ hm'))
      fun m' hm' => by
        rw [hother m' hm']
        exact hle m' (List.mem_cons_of_mem _ hm')
    rw [hdeps, List.foldl_append, hst']
    refine ⟨fun m' hm' => ?_, fun x hx => ?_, ?_⟩
    · rcases List.mem_cons.1 hm' with rfl | hm'
      · rw [ih2 _ hnot, hd, if_pos rfl]
      · rw [ih1 m' hm', hother m' hm']
    · have hx' : x ≠ m.id ∧ x ∉ ids ms := by simpa [ids] using hx
      rw [ih2 x hx'.2, hd, if_neg hx'.1]
    · have hfilter : ms.filter (fun m' => decide (0 < named p m' ∧ named p m' = st'.depsLeft m'.id ∧
            m'.id ∈ st'.pending)) =
          ms.filter fun m' => decide (0 < named p m' ∧ named p m' = st.depsLeft m'.id ∧
            m'.id ∈ st.pending) := by
        refine List.filter_congr fun m' hm' => ?_
        rw [hother m' hm', hp]
      rw [ih3, hfilter, hr, List.append_assoc, List.filter_cons]
      split
      · next h => rw [if_pos (by simpa using h)]; rfl
      · next h => rw [if_neg (by simpa using h)]; rfl

end Drive

/-! ## A wave -/

section Wave

variable {nodes : List (TaskNode Step)} {env : Env Step} {task : TaskInfo} {st : Exec Step}
  {done wave ended : List String}

/-- The nodes outside a wave whose dependencies have all ended. -/
def readyNodes (nodes : List (TaskNode Step)) (done wave ended : List String) :
    List (TaskNode Step) :=
  nodes.filter fun n =>
    decide (n.id ∉ done ∧ n.id ∉ wave ∧ ∀ d ∈ n.deps, d ∈ done ∨ d ∈ ended)

/-- While the nodes of a wave end: `done` ended in the waves before, `ended` in this one. -/
structure Mid (nodes : List (TaskNode Step)) (done wave ended : List String) (st : Exec Step) :
    Prop where
  pending : ∀ x, x ∈ st.pending ↔ x ∈ ids nodes ∧ x ∉ done ∧ x ∉ wave
  depsLeft : ∀ n ∈ nodes, st.depsLeft n.id =
    (n.deps.filter fun d => decide (d ∉ done ∧ d ∉ ended)).length
  ready : st.ready.Perm (readyNodes nodes done wave ended)

/-- One more dependency has ended. -/
theorem named_add {p : String} (hp : p ∉ done) (hp' : p ∉ ended) (n : TaskNode Step) :
    (n.deps.filter fun d => decide (d ∉ done ∧ d ∉ ended)).length =
      (n.deps.filter fun d => decide (d ∉ done ∧ d ∉ p :: ended)).length + named p n := by
  rw [named]
  induction n.deps with
  | nil => rfl
  | cons d ds ih =>
    rw [List.filter_cons, List.filter_cons, List.filter_cons]
    rcases eq_or_ne d p with rfl | hd
    · rw [if_pos (decide_eq_true ⟨hp, hp'⟩), if_neg (by simp), if_pos (by simp),
        List.length_cons, List.length_cons, ih]
      rfl
    · have hne : ¬decide (d = p) = true := by simpa using hd
      rw [if_neg hne]
      by_cases h : d ∉ done ∧ d ∉ ended
      · rw [if_pos (decide_eq_true h), if_pos (by simp [hd, h]), List.length_cons,
          List.length_cons, ih]
        omega
      · have h' : ¬(d ∉ done ∧ d ∉ p :: ended) := fun hc =>
          h ⟨hc.1, fun hx => hc.2 (List.mem_cons_of_mem p hx)⟩
        rw [if_neg (by simpa using h), if_neg (by simpa using h'), ih]

/-- What a node waits for is nothing exactly when its dependencies have ended. -/
theorem waits_zero (n : TaskNode Step) :
    (n.deps.filter fun d => decide (d ∉ done ∧ d ∉ ended)).length = 0 ↔
      ∀ d ∈ n.deps, d ∈ done ∨ d ∈ ended := by
  rw [List.length_eq_zero_iff, List.filter_eq_nil_iff]
  constructor
  · intro h d hd
    have := h d hd
    simp only [decide_eq_true_eq, not_and_or, not_not] at this
    exact this
  · intro h d hd
    simp only [decide_eq_true_eq, not_and_or, not_not]
    exact h d hd

/-- A node of the wave ends. -/
theorem Mid.release {p : String} (hnd : (ids nodes).Nodup) (h : Mid nodes done wave ended st)
    (hp : p ∉ done) (hp' : p ∉ ended) :
    Mid nodes done wave (p :: ended) ((dependents nodes p).foldl (Dag.release nodes) st) := by
  have hle : ∀ m ∈ nodes, named p m ≤ st.depsLeft m.id := by
    intro m hm
    rw [h.depsLeft m hm, named_add hp hp' m]
    omega
  obtain ⟨hd, -, hr⟩ := release_dependents hnd (fun m hm => nodeById_id hnd hm) hle
  obtain ⟨-, -, -, hpend⟩ := release_frame nodes st (dependents nodes p)
  refine ⟨fun x => ?_, fun m hm => ?_, ?_⟩
  · rw [hpend]
    exact h.pending x
  · rw [hd m hm, h.depsLeft m hm, named_add hp hp' m]
    omega
  · rw [hr]
    have hnew : nodes.filter (fun m =>
          decide (0 < named p m ∧ named p m = st.depsLeft m.id ∧ m.id ∈ st.pending)) =
        (readyNodes nodes done wave (p :: ended)).filter fun m =>
          !decide (m.id ∉ done ∧ m.id ∉ wave ∧ ∀ d ∈ m.deps, d ∈ done ∨ d ∈ ended) := by
      rw [readyNodes, List.filter_filter]
      refine List.filter_congr fun m hm => ?_
      have hadd := named_add hp hp' m
      have hold : (m.deps.filter fun d => decide (d ∉ done ∧ d ∉ ended)).length = 0 ↔ _ :=
        waits_zero m
      have hnew : (m.deps.filter fun d => decide (d ∉ done ∧ d ∉ p :: ended)).length = 0 ↔ _ :=
        waits_zero m
      have hid : m.id ∈ ids nodes := mem_ids.2 ⟨m, hm, rfl⟩
      rw [Bool.eq_iff_iff]
      simp only [Bool.and_eq_true, Bool.not_eq_true', decide_eq_true_eq, decide_eq_false_iff_not,
        h.depsLeft m hm, h.pending m.id, ← hold, ← hnew]
      constructor
      · rintro ⟨h1, h2, -, h3, h4⟩
        exact ⟨fun hc => by omega, h3, h4, by omega⟩
      · rintro ⟨h1, h3, h4, h5⟩
        have h6 : (m.deps.filter fun d => decide (d ∉ done ∧ d ∉ ended)).length ≠ 0 :=
          fun hz => h1 ⟨h3, h4, hz⟩
        exact ⟨by omega, by omega, hid, h3, h4⟩
    have hold : readyNodes nodes done wave ended =
        (readyNodes nodes done wave (p :: ended)).filter fun m =>
          decide (m.id ∉ done ∧ m.id ∉ wave ∧ ∀ d ∈ m.deps, d ∈ done ∨ d ∈ ended) := by
      rw [readyNodes, readyNodes, List.filter_filter]
      refine List.filter_congr fun m _ => ?_
      rw [Bool.eq_iff_iff]
      simp only [Bool.and_eq_true, decide_eq_true_eq]
      refine ⟨fun ⟨h1, h2, h3⟩ => ⟨⟨h1, h2, h3⟩, h1, h2, fun d hd => ?_⟩, fun hx => hx.1⟩
      exact (h3 d hd).imp_right (List.mem_cons_of_mem p)
    rw [hnew]
    exact ((h.ready.trans (.of_eq hold)).append_right _).trans (List.filter_append_perm _ _)

/-- The future of a node ends as `run_node` does. -/
def Regular (env : Env Step) (wave : Nat) (id : String) : Prop :=
  env.canceledFor wave id = false ∧ env.panics id = none

theorem Regular.outcome {k : Nat} {n : TaskNode Step} (h : Regular env k n.id)
    (task : TaskInfo) : outcome env task k n = some (runNode env task n) := by
  simp [Dag.outcome, h.1, h.2]

/-- The attempts of the nodes of a wave. -/
def attempts (env : Env Step) (task : TaskInfo) (l : List (TaskNode Step)) : List (Event Step) :=
  l.flatMap fun n => starts n.id (runNode env task n).2

/-- The nodes of a wave are spawned. -/
theorem spawn_all (env : Env Step) (task : TaskInfo) (k : Nat) (st : Exec Step)
    (l : List (TaskNode Step)) :
    (∀ x, x ∈ (l.foldl (spawn env task k) st).pending ↔ x ∈ st.pending ∧ x ∉ ids l) ∧
      (l.foldl (spawn env task k) st).depsLeft = st.depsLeft ∧
      (l.foldl (spawn env task k) st).failed = st.failed ∧
      (l.foldl (spawn env task k) st).trace =
        st.trace ++ l.flatMap (fun n => starts n.id (attemptsOf env task k n)) ∧
      (∀ x, x ∉ ids l → (l.foldl (spawn env task k) st).results x = st.results x) := by
  induction l generalizing st with
  | nil => simp [ids]
  | cons n l ih =>
    obtain ⟨h1, h2, h3, h4, h5⟩ := ih (spawn env task k st n)
    rw [List.foldl_cons]
    refine ⟨fun x => ?_, h2, h3, ?_, fun x hx => ?_⟩
    · rw [h1]
      simp [spawn, ids, and_assoc]
    · rw [h4]
      simp [spawn]
    · have hx' : x ≠ n.id ∧ x ∉ ids l := by simpa [ids] using hx
      rw [h5 x hx'.2]
      simp [spawn, insertResult, hx'.1]

/-- The row of a node that ends. -/
def rowOf (env : Env Step) (task : TaskInfo) (k : Nat) (n : TaskNode Step) : Option (Event Step) :=
  (outcome env task k n).map fun out => persistNode n (resultOf out)

/-- The node does not end in success. -/
def bad (env : Env Step) (task : TaskInfo) (k : Nat) (n : TaskNode Step) : Bool :=
  (outcome env task k n).all fun out => (resultOf out).status = .failed

/-- When nodes of a wave end, the task fails with the first that does not succeed. -/
theorem settle_frame (env : Env Step) (task : TaskInfo) (nodes : List (TaskNode Step)) (k : Nat)
    (st : Exec Step) (l : List (TaskNode Step)) :
    (l.foldl (settle env task nodes k) st).failed = (st.failed || l.any (bad env task k)) ∧
      (l.foldl (settle env task nodes k) st).pending = st.pending := by
  induction l generalizing st with
  | nil => simp
  | cons n l ih =>
    obtain ⟨h1, h2⟩ := ih (settle env task nodes k st n)
    have hone : (settle env task nodes k st n).failed = (st.failed || bad env task k n) ∧
        (settle env task nodes k st n).pending = st.pending := by
      rw [settle, bad]
      cases outcome env task k n with
      | none => simp
      | some out =>
        obtain ⟨-, -, hf, hp⟩ := release_frame nodes
          { st with
            failed := st.failed || (resultOf out).status = .failed
            results := insertResult st.results n.id (resultOf out)
            trace := st.trace ++ persistById nodes n.id (resultOf out) } (dependents nodes n.id)
        exact ⟨hf, hp⟩
    rw [List.foldl_cons]
    exact ⟨by rw [h1, hone.1, List.any_cons, Bool.or_assoc], h2.trans hone.2⟩

/-- What the nodes of a wave leave in the trace. -/
theorem settle_trace (env : Env Step) (task : TaskInfo) (hnd : (ids nodes).Nodup) (k : Nat)
    (st : Exec Step) {l : List (TaskNode Step)} (hl : ∀ n ∈ l, n ∈ nodes) :
    (l.foldl (settle env task nodes k) st).trace = st.trace ++ l.filterMap (rowOf env task k) := by
  induction l generalizing st with
  | nil => simp
  | cons n l ih =>
    have hone : (settle env task nodes k st n).trace = st.trace ++ (rowOf env task k n).toList := by
      rw [settle, rowOf]
      cases outcome env task k n with
      | none => simp
      | some out =>
        have hrow := persistById_id hnd (hl n List.mem_cons_self) (resultOf out)
        exact (release_frame nodes _ _).2.1.trans (congrArg (st.trace ++ ·) hrow)
    rw [List.foldl_cons, ih _ fun m hm => hl m (List.mem_cons_of_mem _ hm), hone, List.append_assoc,
      List.filterMap_cons]
    cases rowOf env task k n with
    | none => rfl
    | some e => rfl

/-- A wave whose nodes all end as `run_node` does. -/
theorem regular_rows {k : Nat} {l : List (TaskNode Step)} (task : TaskInfo)
    (hreg : ∀ n ∈ l, Regular env k n.id) :
    l.flatMap (fun n => starts n.id (attemptsOf env task k n)) = attempts env task l ∧
      l.filterMap (rowOf env task k) = l.map fun n => persistNode n (own env task n) := by
  induction l with
  | nil => exact ⟨rfl, rfl⟩
  | cons n l ih =>
    obtain ⟨h1, h2⟩ := ih fun m hm => hreg m (List.mem_cons_of_mem _ hm)
    have hn := (hreg n List.mem_cons_self).outcome task
    have hrow : rowOf env task k n = some (persistNode n (own env task n)) := by
      rw [rowOf, hn]
      rfl
    have hatt : attemptsOf env task k n = (runNode env task n).2 := by
      rw [attemptsOf, hn]
    rw [List.flatMap_cons, h1, hatt, List.filterMap_cons_some hrow, h2]
    exact ⟨rfl, rfl⟩

theorem any_bad (hnd : (ids nodes).Nodup) {k : Nat} {l : List (TaskNode Step)}
    (hreg : ∀ n ∈ l, Regular env k n.id) (hl : ∀ n ∈ l, n ∈ nodes) :
    l.any (bad env task k) = (ids l).any (fails env task nodes) := by
  rw [ids, List.any_map, Bool.eq_iff_iff, List.any_eq_true, List.any_eq_true]
  refine exists_congr fun n => and_congr_right fun hn => ?_
  rw [bad, (hreg n hn).outcome, Function.comp_apply, fails_id hnd (hl n hn)]
  rfl

/-- A node that does not end as `run_node` does fails the wave. -/
theorem bad_of_not_regular {k : Nat} {n : TaskNode Step} (h : ¬Regular env k n.id) :
    bad env task k n = true := by
  unfold bad outcome
  split
  · rfl
  · next hc =>
    have hp : (env.panics n.id).isSome = true := by
      rw [Option.isSome_iff_ne_none]
      exact fun hp => h ⟨by simpa using hc, hp⟩
    rw [if_pos hp]
    rfl

/-- The nodes `l` of a wave end one after the other. -/
theorem settle_all (hnd : (ids nodes).Nodup) {k : Nat} {l : List (TaskNode Step)}
    (hreg : ∀ n ∈ l, Regular env k n.id) (hl : ∀ n ∈ l, n ∈ nodes) (hlnd : (ids l).Nodup)
    (hdone : ∀ x ∈ ids l, x ∉ done ∧ x ∉ ended) (h : Mid nodes done wave ended st) :
    Mid nodes done wave ((ids l).reverse ++ ended) (l.foldl (settle env task nodes k) st) ∧
      (∀ x, (l.foldl (settle env task nodes k) st).results x =
        if x ∈ ids l then ownAt env task nodes x else st.results x) := by
  induction l generalizing st ended with
  | nil => simpa [ids] using h
  | cons n l ih =>
    have hn : n ∈ nodes := hl n List.mem_cons_self
    obtain ⟨hnot, hlnd'⟩ := List.nodup_cons.1 hlnd
    obtain ⟨hd, he⟩ := hdone n.id List.mem_cons_self
    have hset : settle env task nodes k st n = (dependents nodes n.id).foldl (release nodes)
        { st with
          failed := st.failed || (own env task n).status = .failed
          results := insertResult st.results n.id (own env task n)
          trace := st.trace ++ [persistNode n (own env task n)] } := by
      rw [settle, (hreg n List.mem_cons_self).outcome, ← persistById_id hnd hn]
      rfl
    have hmid : Mid nodes done wave (n.id :: ended) (settle env task nodes k st n) := by
      rw [hset]
      exact Mid.release hnd ⟨h.pending, h.depsLeft, h.ready⟩ hd he
    have hres : (settle env task nodes k st n).results =
        insertResult st.results n.id (own env task n) := by
      rw [hset]
      exact (release_frame _ _ _).1
    obtain ⟨h1, h2⟩ := ih (fun m hm => hreg m (List.mem_cons_of_mem _ hm))
      (fun m hm => hl m (List.mem_cons_of_mem _ hm)) hlnd'
      (fun x hx => ⟨(hdone x (List.mem_cons_of_mem _ hx)).1, fun hc => by
        rcases List.mem_cons.1 hc with rfl | hc
        · exact hnot hx
        · exact (hdone x (List.mem_cons_of_mem _ hx)).2 hc⟩) hmid
    rw [List.foldl_cons]
    refine ⟨?_, fun x => ?_⟩
    · simpa [ids] using h1
    · rw [h2, hres]
      simp only [insertResult]
      rcases eq_or_ne x n.id with rfl | hx
      · simp [ids, ownAt_id hnd hn]
      · simp [ids, hx]

/-- The nodes that are ready are those of the next wave. -/
theorem ids_readyNodes (hnd : (ids nodes).Nodup) (done : List String) :
    ids (readyNodes nodes done [] []) = Waves.next (ids nodes) (depsOf nodes) done := by
  rw [readyNodes, Waves.next, ids, ids, List.filter_map]
  congr 1
  refine List.filter_congr fun n hn => ?_
  simp [depsOf_id hnd hn]

/-- The wave has ended. -/
theorem Mid.close {done' : List String} (h : Mid nodes done wave ended st)
    (hw : ∀ x, x ∈ done' ↔ x ∈ done ∨ x ∈ wave) (he : ∀ x, x ∈ ended ↔ x ∈ wave) :
    Mid nodes done' [] [] st where
  pending := by
    intro x
    rw [h.pending, hw]
    simp
  depsLeft := by
    intro n hn
    rw [h.depsLeft n hn]
    congr 1
    refine List.filter_congr fun d _ => ?_
    simp [hw, he]
  ready := by
    refine h.ready.trans (.of_eq (List.filter_congr fun n _ => ?_))
    simp [hw, he, and_assoc]

/-- A wave is spawned. -/
theorem Mid.spawned {k : Nat} (hnd : (ids nodes).Nodup) (h : Mid nodes done [] [] st) :
    Mid nodes done (Waves.next (ids nodes) (depsOf nodes) done) []
      { st.ready.foldl (spawn env task k) st with ready := [] } := by
  have hready : ∀ x, x ∈ ids st.ready ↔ x ∈ Waves.next (ids nodes) (depsOf nodes) done := by
    intro x
    rw [← ids_readyNodes hnd]
    exact (h.ready.map TaskNode.id).mem_iff
  obtain ⟨h1, h2, -⟩ := spawn_all env task k st st.ready
  refine ⟨fun x => ?_, fun n hn => ?_, ?_⟩
  · rw [h1, hready, h.pending]
    simp [and_assoc]
  · rw [h2]
    exact h.depsLeft n hn
  · have hnil : readyNodes nodes done (Waves.next (ids nodes) (depsOf nodes) done) [] = [] := by
      refine List.filter_eq_nil_iff.2 fun n hn hx => ?_
      simp only [decide_eq_true_eq, List.not_mem_nil, or_false] at hx
      exact hx.2.1 (Waves.mem_next.2 ⟨mem_ids.2 ⟨n, hn, rfl⟩, hx.1, by
        rw [depsOf_id hnd hn]
        exact hx.2.2⟩)
    rw [hnil]

end Wave

end Rdsctl.Dag
