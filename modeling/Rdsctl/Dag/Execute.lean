import Rdsctl.Dag.Wave

/-!
# What a run of a task does

`execute` of `src/dag.rs` refines `Waves.plan`: whatever the order in which the nodes of a wave end,
it runs the nodes that the plan runs (`execute_refines`). `Head` is what holds before every wave.
When a node panics or the task is cancelled the trace is still `Loose`: a node is started after its
dependencies have ended in success (`waves_cases`).
-/

namespace Rdsctl.Dag

variable {Step : Type}

/-! ## The trace -/

section Trace

variable {nodes : List (TaskNode Step)} {env : Env Step} {task : TaskInfo}
  {done : List String} {tr : List (Event Step)}

/-- The attempt that an event starts. -/
def Event.started : Event Step → Option (String × Nat)
  | .start id k => some (id, k)
  | _ => none

/-- What the trace of a run shows once the nodes `done` have ended and the nodes `skips` were
skipped. -/
structure Traced (env : Env Step) (task : TaskInfo) (nodes : List (TaskNode Step))
    (done skips : List String) (tr : List (Event Step)) : Prop where
  started : ∀ x k, .start x k ∈ tr → x ∈ done ∧ 1 ≤ k ∧
    ∀ n ∈ nodes, n.id = x → k ≤ (runNode env task n).2
  once : (tr.filterMap Event.started).Nodup
  ended : ∀ n ∈ nodes, n.id ∈ done → persistNode n (own env task n) ∈ tr
  skipped : ∀ n ∈ nodes, n.id ∈ skips → persistNode n skippedResult ∈ tr
  rows : ∀ row, .node row ∈ tr → ∃ n ∈ nodes,
    (n.id ∈ done ∧ row = n.row (own env task n)) ∨ (n.id ∈ skips ∧ row = n.row skippedResult)
  tasks : ∀ s, .task s ∈ tr → s = .running
  ordered : ∀ (i : Nat) (x : String) (k : Nat), tr[i]? = some (Event.start x k) → ∀ n ∈ nodes, n.id = x → ∀ d ∈ n.deps,
    ∃ m ∈ nodes, m.id = d ∧ (own env task m).status = .success ∧
      ∃ j < i, tr[j]? = some (persistNode m (own env task m))

theorem mem_starts {e : Event Step} {x : String} {a : Nat} :
    e ∈ starts x a ↔ ∃ k < a, e = .start x (k + 1) := by
  simp [starts, eq_comm]

/-- The attempts of the nodes of a wave are all different. -/
theorem attempts_once (env : Env Step) (task : TaskInfo) {l : List (TaskNode Step)}
    (hl : (ids l).Nodup) :
    ((attempts env task l).filterMap Event.started).Nodup ∧
      ∀ p ∈ (attempts env task l).filterMap Event.started, p.1 ∈ ids l := by
  induction l with
  | nil => simp [attempts]
  | cons n l ih =>
    obtain ⟨hnot, hl'⟩ := List.nodup_cons.1 hl
    obtain ⟨ih1, ih2⟩ := ih hl'
    have hone : (attempts env task (n :: l)).filterMap Event.started =
        ((List.range (runNode env task n).2).map fun k => (n.id, k + 1)) ++
          (attempts env task l).filterMap Event.started := by
      simp [attempts, starts, List.filterMap_map, Event.started, Function.comp_def]
    rw [hone]
    constructor
    · refine List.nodup_append'.2 ⟨?_, ih1, ?_⟩
      · exact List.nodup_range.map fun a b h => by simpa using h
      · rw [List.disjoint_left]
        intro p hp hp'
        obtain ⟨k, -, rfl⟩ := List.mem_map.1 hp
        exact hnot (ih2 _ hp')
    · intro p hp
      rcases List.mem_append.1 hp with hp | hp
      · obtain ⟨k, -, rfl⟩ := List.mem_map.1 hp
        exact List.mem_cons_self
      · exact List.mem_cons_of_mem _ (ih2 p hp)

/-- A wave adds the attempts of its nodes and their rows. -/
theorem Traced.wave {l l' : List (TaskNode Step)} (hnd : (ids nodes).Nodup)
    (h : Traced env task nodes done [] tr)
    (hok : ∀ n ∈ nodes, n.id ∈ done → (own env task n).status = .success)
    (hdone : ∀ x ∈ done, x ∈ ids nodes)
    (hl : ∀ x, x ∈ ids l ↔ x ∈ Waves.next (ids nodes) (depsOf nodes) done)
    (hln : ∀ n ∈ l, n ∈ nodes) (hlnd : (ids l).Nodup) (hperm : l'.Perm l) :
    Traced env task nodes (done ++ Waves.next (ids nodes) (depsOf nodes) done) []
      (tr ++ attempts env task l ++ l'.map fun n => persistNode n (own env task n)) := by
  have hnode : ∀ n ∈ nodes, n.id ∈ Waves.next (ids nodes) (depsOf nodes) done → n ∈ l := by
    intro n hn hx
    obtain ⟨m, hm, hid⟩ := mem_ids.1 ((hl n.id).2 hx)
    rwa [← eq_of_id hnd (hln m hm) hn hid]
  refine ⟨?_, ?_, ?_, fun _ _ hx => absurd hx List.not_mem_nil, ?_, ?_, ?_⟩
  · intro x k hx
    simp only [List.mem_append, attempts, List.mem_flatMap, List.mem_map, mem_starts] at hx
    rcases hx with (hx | ⟨n, hn, j, hj, heq⟩) | ⟨n, _, heq⟩
    · obtain ⟨h1, h2, h3⟩ := h.started x k hx
      exact ⟨List.mem_append_left _ h1, h2, h3⟩
    · cases heq
      refine ⟨List.mem_append_right _ ((hl _).1 (mem_ids.2 ⟨n, hn, rfl⟩)), by omega, ?_⟩
      intro m hm hid
      rw [eq_of_id hnd hm (hln n hn) hid]
      exact hj
    · cases heq
  · have hrows : (l'.map fun n => persistNode n (own env task n)).filterMap Event.started = [] := by
      simp [List.filterMap_map, persistNode, Event.started, Function.comp_def]
    obtain ⟨h1, h2⟩ := attempts_once env task hlnd
    rw [List.filterMap_append, List.filterMap_append, hrows, List.append_nil]
    refine List.nodup_append'.2 ⟨h.once, h1, ?_⟩
    rw [List.disjoint_left]
    intro p hp hp'
    obtain ⟨e, he, hpe⟩ := List.mem_filterMap.1 hp
    have hold : p.1 ∈ done := by
      cases e with
      | start x k =>
        cases hpe
        exact (h.started x k he).1
      | node row => cases hpe
      | task s => cases hpe
    exact (Waves.mem_next.1 ((hl _).1 (h2 p hp'))).2.1 hold
  · intro n hn hx
    rcases List.mem_append.1 hx with hx | hx
    · simp [h.ended n hn hx]
    · have hm : n ∈ l' := hperm.mem_iff.2 (hnode n hn hx)
      exact List.mem_append_right _ (List.mem_map.2 ⟨n, hm, rfl⟩)
  · intro row hrow
    simp only [List.mem_append, attempts, List.mem_flatMap, List.mem_map, mem_starts] at hrow
    rcases hrow with (hrow | ⟨n, _, j, _, heq⟩) | ⟨n, hn, heq⟩
    · obtain ⟨n, hn, ⟨hx, rfl⟩ | ⟨hx, -⟩⟩ := h.rows row hrow
      · exact ⟨n, hn, .inl ⟨List.mem_append_left _ hx, rfl⟩⟩
      · cases hx
    · cases heq
    · cases heq
      have hnl := hperm.mem_iff.1 hn
      have hx := (hl n.id).1 (mem_ids.2 ⟨n, hnl, rfl⟩)
      exact ⟨n, hln n hnl, .inl ⟨List.mem_append_right _ hx, rfl⟩⟩
  · intro s hs
    simp only [List.mem_append, attempts, List.mem_flatMap, List.mem_map, mem_starts] at hs
    rcases hs with (hs | ⟨n, _, j, _, heq⟩) | ⟨n, hn, heq⟩
    · exact h.tasks s hs
    · cases heq
    · cases heq
  · intro i x k hi n hn hid d hd
    rw [List.append_assoc] at hi ⊢
    rcases Nat.lt_or_ge i tr.length with hlt | hge
    · rw [List.getElem?_append_left hlt] at hi
      obtain ⟨m, hm, hmd, hok', j, hj, hrow⟩ := h.ordered i x k hi n hn hid d hd
      exact ⟨m, hm, hmd, hok', j, hj, by rw [List.getElem?_append_left (by omega), hrow]⟩
    · -- the node is one of the wave, so its dependencies are in the trace before
      rw [List.getElem?_append_right hge] at hi
      have hx : x ∈ Waves.next (ids nodes) (depsOf nodes) done := by
        have hmem := List.mem_of_getElem? hi
        simp only [List.mem_append, attempts, List.mem_flatMap, List.mem_map, mem_starts] at hmem
        rcases hmem with ⟨m, hm, j, _, heq⟩ | ⟨m, _, heq⟩
        · cases heq
          exact (hl _).1 (mem_ids.2 ⟨m, hm, rfl⟩)
        · cases heq
      subst hid
      have hddone : d ∈ done := (Waves.mem_next.1 hx).2.2 d (by rwa [depsOf_id hnd hn])
      obtain ⟨m, hm, rfl⟩ := mem_ids.1 (hdone d hddone)
      obtain ⟨j, hj⟩ := List.getElem?_of_mem (h.ended m hm hddone)
      have hjlt : j < tr.length := (List.getElem?_eq_some_iff.1 hj).1
      exact ⟨m, hm, rfl, hok m hm hddone, j, by omega,
        by rw [List.getElem?_append_left hjlt, hj]⟩

/-- Skipping adds the rows of the skipped nodes. -/
theorem Traced.skip {sk : List String} (h : Traced env task nodes done [] tr)
    {l : List (TaskNode Step)} (hl : ∀ n, n ∈ l ↔ n ∈ nodes ∧ n.id ∈ sk) :
    Traced env task nodes done sk (tr ++ l.map fun n => persistNode n skippedResult) := by
  have hnew : ∀ e, e ∈ tr ++ l.map (fun n => persistNode n skippedResult) ↔
      e ∈ tr ∨ ∃ n ∈ l, persistNode n skippedResult = e := by simp
  refine ⟨fun x k hx => ?_, ?_, fun n hn hx => (hnew _).2 (.inl (h.ended n hn hx)),
    fun n hn hx => (hnew _).2 (.inr ⟨n, (hl n).2 ⟨hn, hx⟩, rfl⟩), fun row hrow => ?_,
    fun s hs => ?_, fun i x k hi n hn hid d hd => ?_⟩
  · rcases (hnew _).1 hx with hx | ⟨n, -, heq⟩
    · exact h.started x k hx
    · cases heq
  · have hrows : (l.map fun n => persistNode n skippedResult).filterMap Event.started = [] := by
      simp [List.filterMap_map, persistNode, Event.started, Function.comp_def]
    rw [List.filterMap_append, hrows, List.append_nil]
    exact h.once
  · rcases (hnew _).1 hrow with hrow | ⟨n, hn, heq⟩
    · obtain ⟨n, hn, ⟨hx, rfl⟩ | ⟨hx, -⟩⟩ := h.rows row hrow
      · exact ⟨n, hn, .inl ⟨hx, rfl⟩⟩
      · cases hx
    · cases heq
      obtain ⟨hn', hx⟩ := (hl n).1 hn
      exact ⟨n, hn', .inr ⟨hx, rfl⟩⟩
  · rcases (hnew _).1 hs with hs | ⟨n, -, heq⟩
    · exact h.tasks s hs
    · cases heq
  · rcases Nat.lt_or_ge i tr.length with hlt | hge
    · rw [List.getElem?_append_left hlt] at hi
      obtain ⟨m, hm, hmd, hok, j, hj, hrow⟩ := h.ordered i x k hi n hn hid d hd
      exact ⟨m, hm, hmd, hok, j, hj, by rw [List.getElem?_append_left (by omega), hrow]⟩
    · rw [List.getElem?_append_right hge] at hi
      obtain ⟨m, -, heq⟩ := List.mem_map.1 (List.mem_of_getElem? hi)
      cases heq

/-- The nodes that are still pending are skipped. -/
theorem skip_all (st : Exec Step) {l : List (TaskNode Step)} (hl : (ids l).Nodup) :
    (l.foldl skip st).failed = st.failed ∧
      (l.foldl skip st).trace = st.trace ++
        (l.filter fun n => decide (n.id ∈ st.pending)).map (fun n => persistNode n skippedResult) ∧
      (∀ x, (l.foldl skip st).results x =
        if x ∈ ids l ∧ x ∈ st.pending then some skippedResult else st.results x) := by
  induction l generalizing st with
  | nil => simp [ids]
  | cons n l ih =>
    obtain ⟨hnot, hl'⟩ := List.nodup_cons.1 hl
    obtain ⟨h1, h2, h3⟩ := ih (skip st n) hl'
    have hpend : ∀ m ∈ l, (m.id ∈ (skip st n).pending ↔ m.id ∈ st.pending) := by
      intro m hm
      have hne : m.id ≠ n.id := fun heq => hnot (mem_ids.2 ⟨m, hm, heq⟩)
      unfold skip
      split
      · simp [hne]
      · rfl
    have hfilter : (l.filter fun m => decide (m.id ∈ (skip st n).pending)) =
        l.filter fun m => decide (m.id ∈ st.pending) :=
      List.filter_congr fun m hm => by simp [hpend m hm]
    rw [List.foldl_cons]
    refine ⟨?_, ?_, fun x => ?_⟩
    · rw [h1, skip]
      split <;> rfl
    · rw [h2, hfilter, List.filter_cons]
      by_cases hn : n.id ∈ st.pending
      · simp [skip, hn]
      · simp [skip, hn]
    · rw [h3]
      by_cases hn : n.id ∈ st.pending
      · rcases eq_or_ne x n.id with rfl | hx
        · simp [skip, hn, insertResult, ids]
        · simp [skip, hn, insertResult, ids, hx]
      · rcases eq_or_ne x n.id with rfl | hx
        · simp [skip, hn]
        · simp [skip, hn, ids, hx]

/-- What the trace of any run shows, also when nodes panic or the task is cancelled. -/
structure Loose (nodes : List (TaskNode Step)) (tr : List (Event Step)) : Prop where
  rows : ∀ row, .node row ∈ tr → ∃ n ∈ nodes, ∃ r : NodeResult, row = n.row r ∧
    (r.status = .success ∨ r.status = .failed ∨ r.status = .skipped)
  agree : ∀ row row', .node row ∈ tr → .node row' ∈ tr → row.nodeId = row'.nodeId → row = row'
  tasks : ∀ s, .task s ∈ tr → s = .running
  ordered : ∀ (i : Nat) (x : String) (k : Nat), tr[i]? = some (Event.start x k) →
    ∃ n ∈ nodes, n.id = x ∧ ∀ d ∈ n.deps, ∃ j < i, ∃ row : NodeRow Step,
      tr[j]? = some (.node row) ∧ row.nodeId = d ∧ row.status = .success

theorem Traced.loose {sk : List String} (hnd : (ids nodes).Nodup) (hdone : ∀ x ∈ done, x ∈ ids nodes)
    (hsk : ∀ x ∈ sk, x ∉ done) (h : Traced env task nodes done sk tr) : Loose nodes tr where
  rows := by
    intro row hrow
    obtain ⟨n, hn, ⟨-, rfl⟩ | ⟨-, rfl⟩⟩ := h.rows row hrow
    · exact ⟨n, hn, own env task n, rfl, (own_status env task n).imp_right .inl⟩
    · exact ⟨n, hn, skippedResult, rfl, .inr (.inr rfl)⟩
  agree := by
    intro row row' hrow hrow' hid
    obtain ⟨n, hn, hx⟩ := h.rows row hrow
    obtain ⟨m, hm, hx'⟩ := h.rows row' hrow'
    have hnm : n = m := by
      refine eq_of_id hnd hn hm ?_
      rcases hx with ⟨-, rfl⟩ | ⟨-, rfl⟩ <;> rcases hx' with ⟨-, rfl⟩ | ⟨-, rfl⟩ <;> exact hid
    subst hnm
    rcases hx with ⟨hd, rfl⟩ | ⟨hs, rfl⟩ <;> rcases hx' with ⟨hd', rfl⟩ | ⟨hs', rfl⟩
    · rfl
    · exact absurd hd (hsk _ hs')
    · exact absurd hd' (hsk _ hs)
    · rfl
  tasks := h.tasks
  ordered := by
    intro i x k hi
    obtain ⟨n, hn, rfl⟩ := mem_ids.1 (hdone x (h.started x k (List.mem_of_getElem? hi)).1)
    refine ⟨n, hn, rfl, fun d hd => ?_⟩
    obtain ⟨m, -, hmd, hok, j, hj, hrow⟩ := h.ordered i n.id k hi n hn rfl d hd
    exact ⟨j, hj, m.row (own env task m), hrow, hmd, hok⟩

/-- Nodes whose dependencies have ended in success may be started. -/
theorem Loose.append_starts (h : Loose nodes tr) {l : List (TaskNode Step)}
    (a : TaskNode Step → Nat) (hl : ∀ n ∈ l, n ∈ nodes)
    (hdeps : ∀ n ∈ l, ∀ d ∈ n.deps, ∃ row : NodeRow Step, .node row ∈ tr ∧ row.nodeId = d ∧
      row.status = .success) :
    Loose nodes (tr ++ l.flatMap fun n => starts n.id (a n)) := by
  have hnew : ∀ e : Event Step, e ∈ l.flatMap (fun n => starts n.id (a n)) →
      ∃ n ∈ l, ∃ k, e = .start n.id k := by
    intro e he
    obtain ⟨n, hn, he⟩ := List.mem_flatMap.1 he
    obtain ⟨k, -, rfl⟩ := mem_starts.1 he
    exact ⟨n, hn, k + 1, rfl⟩
  have hrow : ∀ row, .node row ∈ tr ++ l.flatMap (fun n => starts n.id (a n)) → .node row ∈ tr := by
    intro row hx
    rcases List.mem_append.1 hx with hx | hx
    · exact hx
    · obtain ⟨n, -, k, heq⟩ := hnew _ hx
      cases heq
  refine ⟨fun row hx => h.rows row (hrow row hx),
    fun row row' hx hx' => h.agree row row' (hrow row hx) (hrow row' hx'), fun s hs => ?_,
    fun i x k hi => ?_⟩
  · rcases List.mem_append.1 hs with hs | hs
    · exact h.tasks s hs
    · obtain ⟨n, -, k, heq⟩ := hnew _ hs
      cases heq
  · rcases Nat.lt_or_ge i tr.length with hlt | hge
    · rw [List.getElem?_append_left hlt] at hi
      obtain ⟨n, hn, hid, hx⟩ := h.ordered i x k hi
      refine ⟨n, hn, hid, fun d hd => ?_⟩
      obtain ⟨j, hj, row, hj', hr⟩ := hx d hd
      exact ⟨j, hj, row, by rw [List.getElem?_append_left (by omega), hj'], hr⟩
    · rw [List.getElem?_append_right hge] at hi
      obtain ⟨n, hn, _, heq⟩ := hnew _ (List.mem_of_getElem? hi)
      cases heq
      refine ⟨n, hl n hn, rfl, fun d hd => ?_⟩
      obtain ⟨row, hmem, hr⟩ := hdeps n hn d hd
      obtain ⟨j, hj⟩ := List.getElem?_of_mem hmem
      have hjlt : j < tr.length := (List.getElem?_eq_some_iff.1 hj).1
      exact ⟨j, by omega, row, by rw [List.getElem?_append_left hjlt, hj], hr⟩

/-- Rows may be written of nodes that have none yet. -/
theorem Loose.append_rows (hnd : (ids nodes).Nodup) (h : Loose nodes tr) {es : List (Event Step)}
    (r : TaskNode Step → Option NodeResult)
    (hr : ∀ n x, r n = some x → x.status = .success ∨ x.status = .failed ∨ x.status = .skipped)
    (hes : ∀ e ∈ es, ∃ n ∈ nodes, ∃ x, r n = some x ∧ e = persistNode n x ∧
      ∀ row, .node row ∈ tr → row.nodeId ≠ n.id) : Loose nodes (tr ++ es) := by
  refine ⟨fun row hx => ?_, fun row row' hx hx' hid => ?_, fun s hs => ?_, fun i x k hi => ?_⟩
  · rcases List.mem_append.1 hx with hx | hx
    · exact h.rows row hx
    · obtain ⟨n, hn, x, hr', heq, -⟩ := hes _ hx
      cases heq
      exact ⟨n, hn, x, rfl, hr n x hr'⟩
  · rcases List.mem_append.1 hx with hx | hx <;> rcases List.mem_append.1 hx' with hx' | hx'
    · exact h.agree row row' hx hx' hid
    · obtain ⟨n, -, x, -, heq, hfresh⟩ := hes _ hx'
      cases heq
      exact absurd hid (hfresh row hx)
    · obtain ⟨n, -, x, -, heq, hfresh⟩ := hes _ hx
      cases heq
      exact absurd hid.symm (hfresh row' hx')
    · obtain ⟨n, hn, x, hr1, heq, -⟩ := hes _ hx
      obtain ⟨m, hm, x', hr2, heq', -⟩ := hes _ hx'
      cases heq
      cases heq'
      obtain rfl : n = m := eq_of_id hnd hn hm hid
      rw [hr1] at hr2
      cases hr2
      rfl
  · rcases List.mem_append.1 hs with hs | hs
    · exact h.tasks s hs
    · obtain ⟨n, -, x, -, heq, -⟩ := hes _ hs
      cases heq
  · rcases Nat.lt_or_ge i tr.length with hlt | hge
    · rw [List.getElem?_append_left hlt] at hi
      obtain ⟨n, hn, hid, hx⟩ := h.ordered i x k hi
      refine ⟨n, hn, hid, fun d hd => ?_⟩
      obtain ⟨j, hj, row, hj', hr⟩ := hx d hd
      exact ⟨j, hj, row, by rw [List.getElem?_append_left (by omega), hj'], hr⟩
    · rw [List.getElem?_append_right hge] at hi
      obtain ⟨n, -, x, -, heq, -⟩ := hes _ (List.mem_of_getElem? hi)
      cases heq

end Trace

/-! ## The run -/

section Run

variable {nodes : List (TaskNode Step)} {env : Env Step} {task : TaskInfo}
  {seed : String → Option NodeResult} {done run : List String} {failed : Bool} {st : Exec Step}
  {fuel : Nat}

/-- What holds before every wave: the nodes `done` have ended, and all succeeded. -/
structure Head (env : Env Step) (task : TaskInfo) (nodes : List (TaskNode Step))
    (seed : String → Option NodeResult) (done : List String) (st : Exec Step) : Prop where
  mid : Mid nodes done [] [] st
  failed : st.failed = false
  results : ∀ x, st.results x = if x ∈ done then ownAt env task nodes x else seed x
  traced : Traced env task nodes done [] st.trace
  sound : Waves.Sound (ids nodes) (depsOf nodes) (fails env task nodes) done
  ok : ∀ x ∈ done, fails env task nodes x = false
  calm : ∀ x ∈ done, env.panics x = none

/-- The nodes that are skipped after a run. -/
def skips (nodes : List (TaskNode Step)) (run : List String) (failed : Bool) : List String :=
  if failed then (ids nodes).filter fun x => decide (x ∉ run) else []

/-- What holds after the last wave: the nodes `run` have ended. -/
structure Last (env : Env Step) (task : TaskInfo) (nodes : List (TaskNode Step))
    (seed : String → Option NodeResult) (run : List String) (failed : Bool) (st : Exec Step) :
    Prop where
  failed_eq : st.failed = failed
  results : ∀ x, st.results x = if x ∈ run then ownAt env task nodes x
    else if x ∈ skips nodes run failed then some skippedResult else seed x
  traced : Traced env task nodes run (skips nodes run failed) st.trace

/-- Nodes that did not fail succeeded. -/
theorem own_success (hnd : (ids nodes).Nodup) {n : TaskNode Step} (hn : n ∈ nodes)
    (h : fails env task nodes n.id = false) : (own env task n).status = .success := by
  rw [fails_id hnd hn] at h
  exact (own_status env task n).resolve_right (by simpa using h)

/-- Before the first wave. -/
theorem head_init (hnd : (ids nodes).Nodup) :
    Head env task nodes seed [] (initExec seed nodes) where
  mid :=
    { pending := by intro x; simp [initExec, ids]
      depsLeft := by
        intro n hn
        simp [initExec, nodeById_id hnd hn]
      ready := by
        refine .of_eq (List.filter_congr fun n hn => ?_)
        rw [Bool.eq_iff_iff]
        simp [nodeById_id hnd hn, List.eq_nil_iff_forall_not_mem] }
  failed := rfl
  results := by simp [initExec]
  traced :=
    { started := by simp [initExec]
      once := List.nodup_nil
      ended := by simp
      skipped := by simp
      rows := by simp [initExec]
      tasks := by simp [initExec]
      ordered := by
        intro i x k hi
        have := List.mem_of_getElem? hi
        simp [initExec] at this }
  sound := Waves.sound_nil
  ok := by simp
  calm := by simp

/-- The nodes that are ready are those of the next wave. -/
theorem Head.mem_ready (hnd : (ids nodes).Nodup) (h : Head env task nodes seed done st)
    (x : String) : x ∈ ids st.ready ↔ x ∈ Waves.next (ids nodes) (depsOf nodes) done := by
  rw [← ids_readyNodes hnd]
  exact (h.mid.ready.map TaskNode.id).mem_iff

theorem Head.ready_mem (h : Head env task nodes seed done st) {n : TaskNode Step}
    (hn : n ∈ st.ready) : n ∈ nodes := (List.mem_filter.1 (h.mid.ready.mem_iff.1 hn)).1

/-- A wave that is run: what holds when its last node has ended. -/
theorem Head.wave {k : Nat} (hperm : (env.completion k st.ready).Perm st.ready)
    (hnd : (ids nodes).Nodup) (hreg : ∀ n ∈ st.ready, Regular env k n.id)
    (h : Head env task nodes seed done st) :
    let done' := done ++ Waves.next (ids nodes) (depsOf nodes) done
    let st' := (env.completion k st.ready).foldl (settle env task nodes k)
      { st.ready.foldl (spawn env task k) st with ready := [] }
    Mid nodes done' [] [] st' ∧
      st'.failed = (Waves.next (ids nodes) (depsOf nodes) done).any (fails env task nodes) ∧
      (∀ x, st'.results x = if x ∈ done' then ownAt env task nodes x else seed x) ∧
      Traced env task nodes done' [] st'.trace := by
  intro done' st'
  have hl : ∀ n ∈ st.ready, n ∈ nodes := fun n hn => h.ready_mem hn
  have hready := h.mem_ready hnd
  have hlnd : (ids st.ready).Nodup := by
    refine (h.mid.ready.map TaskNode.id).nodup_iff.2 ?_
    exact (List.filter_sublist.map TaskNode.id).nodup hnd
  have hids : ∀ x, x ∈ ids (env.completion k st.ready) ↔
      x ∈ Waves.next (ids nodes) (depsOf nodes) done := by
    intro x
    rw [← hready]
    exact (hperm.map TaskNode.id).mem_iff
  have hreg' : ∀ n ∈ env.completion k st.ready, Regular env k n.id := fun n hn =>
    hreg n (hperm.mem_iff.1 hn)
  obtain ⟨-, -, hsf, hst, hsr⟩ := spawn_all env task k st st.ready
  obtain ⟨h2, -⟩ := settle_frame env task nodes k
    { st.ready.foldl (spawn env task k) st with ready := [] } (env.completion k st.ready)
  have h3 := settle_trace env task hnd k
    { st.ready.foldl (spawn env task k) st with ready := [] } fun n hn => hl n (hperm.mem_iff.1 hn)
  obtain ⟨h1, h4⟩ := settle_all hnd hreg'
    (fun n hn => hl n (hperm.mem_iff.1 hn)) ((hperm.map TaskNode.id).nodup_iff.2 hlnd)
    (fun x hx => ⟨(Waves.mem_next.1 ((hids x).1 hx)).2.1, List.not_mem_nil⟩)
    (@Mid.spawned _ _ env task _ _ k hnd h.mid)
  refine ⟨?_, ?_, fun x => ?_, ?_⟩
  · exact h1.close (fun x => List.mem_append) fun x => by simp [hids]
  · rw [h2, any_bad hnd hreg' fun n hn => hl n (hperm.mem_iff.1 hn), Bool.eq_iff_iff]
    simp only [hsf, h.failed, Bool.false_or, List.any_eq_true, hids]
  · rw [h4]
    by_cases hx : x ∈ Waves.next (ids nodes) (depsOf nodes) done
    · rw [if_pos ((hids x).2 hx), if_pos (List.mem_append_right _ hx)]
    · rw [if_neg (fun hc => hx ((hids x).1 hc)), hsr x (fun hc => hx ((hready x).1 hc)), h.results]
      by_cases hd : x ∈ done
      · rw [if_pos hd, if_pos (List.mem_append_left _ hd)]
      · rw [if_neg hd, if_neg (fun hc => (List.mem_append.1 hc).elim hd hx)]
  · rw [h3, (regular_rows task hreg').2]
    show Traced env task nodes done' [] ((st.ready.foldl (spawn env task k) st).trace ++ _)
    rw [hst, (regular_rows task hreg).1]
    refine h.traced.wave hnd (fun n hn hx => ?_) h.sound.mem hready hl hlnd hperm
    exact own_success hnd hn (h.ok n.id hx)

/-- After a failure the nodes that are still pending are skipped. -/
theorem Mid.last (hnd : (ids nodes).Nodup) (h : Mid nodes done [] [] st) (hf : st.failed = true)
    (hres : ∀ x, st.results x = if x ∈ done then ownAt env task nodes x else seed x)
    (htr : Traced env task nodes done [] st.trace) :
    Last env task nodes seed done true (nodes.foldl skip st) := by
  obtain ⟨h1, h2, h3⟩ := skip_all st hnd
  have hsk : ∀ x, x ∈ skips nodes done true ↔ x ∈ ids nodes ∧ x ∉ done := by
    intro x
    simp [skips]
  refine ⟨h1.trans hf, fun x => ?_, ?_⟩
  · rw [h3, hres]
    by_cases hx : x ∈ done
    · simp [h.pending, hx]
    · simp [h.pending, hsk, hx]
  · rw [h2]
    refine htr.skip fun n => ?_
    rw [List.mem_filter, hsk, decide_eq_true_iff, h.pending]
    refine and_congr_right fun hn => ⟨fun hx => ⟨hx.1, hx.2.1⟩, fun hx => ⟨hx.1, hx.2, ?_⟩⟩
    exact List.not_mem_nil

/-- Before a wave the trace is loose. -/
theorem Head.loose (hnd : (ids nodes).Nodup) (h : Head env task nodes seed done st) :
    Loose nodes st.trace :=
  h.traced.loose hnd h.sound.mem fun _ hx => absurd hx List.not_mem_nil

/-- A wave with a node that panics or is cancelled is the last one, and leaves a loose trace. -/
theorem Head.abort {k : Nat} (hperm : (env.completion k st.ready).Perm st.ready)
    (hnd : (ids nodes).Nodup) (h : Head env task nodes seed done st) {n : TaskNode Step}
    (hn : n ∈ st.ready) (hreg : ¬Regular env k n.id) :
    let st' := (env.completion k st.ready).foldl (settle env task nodes k)
      { st.ready.foldl (spawn env task k) st with ready := [] }
    st'.failed = true ∧ Loose nodes (nodes.foldl skip st').trace := by
  intro st'
  obtain ⟨hsp, -, hsf, hst, -⟩ := spawn_all env task k st st.ready
  obtain ⟨hf, hpend⟩ := settle_frame env task nodes k
    { st.ready.foldl (spawn env task k) st with ready := [] } (env.completion k st.ready)
  have htr := settle_trace env task hnd k
    { st.ready.foldl (spawn env task k) st with ready := [] } fun n hn => h.ready_mem (hperm.mem_iff.1 hn)
  have hfailed : st'.failed = true := by
    rw [hf, List.any_eq_true.2 ⟨n, hperm.mem_iff.2 hn, bad_of_not_regular hreg⟩, Bool.or_true]
  refine ⟨hfailed, ?_⟩
  have hrow : ∀ row, .node row ∈ st.trace → row.nodeId ∈ done := by
    intro row hrow
    obtain ⟨m, -, ⟨hd, rfl⟩ | ⟨hs, -⟩⟩ := h.traced.rows row hrow
    · exact hd
    · cases hs
  have hnext : ∀ m ∈ st.ready, m.id ∈ Waves.next (ids nodes) (depsOf nodes) done := fun m hm =>
    (h.mem_ready hnd m.id).1 (mem_ids.2 ⟨m, hm, rfl⟩)
  -- the nodes of the wave are started
  have hstart : Loose nodes (st.ready.foldl (spawn env task k) st).trace := by
    rw [hst]
    refine (h.loose hnd).append_starts _ (fun m hm => h.ready_mem hm) fun m hm d hd => ?_
    have hd' : d ∈ done := (Waves.mem_next.1 (hnext m hm)).2.2 d
      (by rwa [depsOf_id hnd (h.ready_mem hm)])
    obtain ⟨m', hm', rfl⟩ := mem_ids.1 (h.sound.mem d hd')
    exact ⟨m'.row (own env task m'), h.traced.ended m' hm' hd', rfl,
      own_success hnd hm' (h.ok _ hd')⟩
  have hrow' : ∀ row, .node row ∈ (st.ready.foldl (spawn env task k) st).trace →
      row.nodeId ∈ done := by
    intro row hx
    rw [hst, List.mem_append] at hx
    rcases hx with hx | hx
    · exact hrow row hx
    · obtain ⟨m, -, hx⟩ := List.mem_flatMap.1 hx
      obtain ⟨j, -, heq⟩ := mem_starts.1 hx
      cases heq
  -- those that end write their rows
  have hsettle : Loose nodes st'.trace := by
    rw [htr]
    refine hstart.append_rows hnd (fun m => (outcome env task k m).map resultOf)
      (fun m x hx => ?_) fun e he => ?_
    · obtain ⟨out, -, rfl⟩ := Option.map_eq_some_iff.1 hx
      exact (resultOf_status out).imp_right .inl
    · obtain ⟨m, hm, hx⟩ := List.mem_filterMap.1 he
      obtain ⟨out, ho, rfl⟩ := Option.map_eq_some_iff.1 hx
      have hm' := hperm.mem_iff.1 hm
      refine ⟨m, h.ready_mem hm', resultOf out, by rw [ho]; rfl, rfl, fun row hx heq => ?_⟩
      exact (Waves.mem_next.1 (hnext m hm')).2.1 (heq ▸ hrow' row hx)
  -- and the others are skipped
  obtain ⟨-, hskip, -⟩ := skip_all st' hnd
  rw [hskip]
  refine hsettle.append_rows hnd (fun _ => some skippedResult) (fun m x hx => ?_) fun e he => ?_
  · cases hx
    exact .inr (.inr rfl)
  · obtain ⟨m, hm, rfl⟩ := List.mem_map.1 he
    obtain ⟨hm, hp⟩ := List.mem_filter.1 hm
    rw [decide_eq_true_iff, hpend, hsp, h.mid.pending] at hp
    refine ⟨m, hm, skippedResult, rfl, rfl, fun row hx heq => ?_⟩
    rw [htr, List.mem_append] at hx
    rcases hx with hx | hx
    · exact hp.1.2.1 (heq ▸ hrow' row hx)
    · obtain ⟨m', hm', hx⟩ := List.mem_filterMap.1 hx
      obtain ⟨out, -, hx⟩ := Option.map_eq_some_iff.1 hx
      cases hx
      exact hp.2 (mem_ids.2 ⟨m', hperm.mem_iff.1 hm', heq⟩)

/-- A cancel flag is seen before the end. -/
def Env.Canceled (env : Env Step) : Prop :=
  ∃ wave, env.canceledAt wave = true ∨ ∃ x, env.canceledFor wave x = true

/-- The waves end, and they are those of the plan unless a node panics or the task is cancelled. -/
theorem waves_cases (hperm : ∀ wave l, (env.completion wave l).Perm l) (hnd : (ids nodes).Nodup)
    (k : Nat) (h : Head env task nodes seed done st) (hfuel : (ids nodes).length < fuel + done.length) :
    ∃ st', waves env task nodes fuel k st = some st' ∧ Loose nodes st'.trace ∧
      ((∃ run failed, Waves.plan (ids nodes) (depsOf nodes) (fails env task nodes) fuel done =
          some (run, failed) ∧ Last env task nodes seed run failed st' ∧
            ∀ x ∈ run, env.panics x = none) ∨
        env.Canceled ∨
        st'.failed = true ∧ ∃ x, Waves.Startable (ids nodes) (depsOf nodes) x ∧
          env.panics x ≠ none) := by
  induction fuel generalizing done st k with
  | zero =>
    have hle := (h.sound.nodup.subperm h.sound.mem).length_le
    omega
  | succ fuel ih =>
    have hempty : st.ready = [] ↔ Waves.next (ids nodes) (depsOf nodes) done = [] := by
      rw [List.eq_nil_iff_forall_not_mem, List.eq_nil_iff_forall_not_mem]
      constructor
      · intro hn x hx
        obtain ⟨n, hn', -⟩ := mem_ids.1 ((h.mem_ready hnd x).2 hx)
        exact hn n hn'
      · intro hn n hx
        exact hn n.id ((h.mem_ready hnd n.id).1 (mem_ids.2 ⟨n, hx, rfl⟩))
    rw [waves, Waves.plan]
    rcases Decidable.em (Waves.next (ids nodes) (depsOf nodes) done = []) with hnil | hne
    · refine ⟨st, by rw [hempty.2 hnil]; rfl, h.loose hnd, .inl ⟨done, false, if_pos hnil, ?_,
        h.calm⟩⟩
      refine ⟨h.failed, fun x => ?_, ?_⟩
      · rw [h.results]
        simp [skips]
      · simpa [skips] using h.traced
    · have hne' : st.ready.isEmpty = false := by simpa using fun hc => hne (hempty.1 hc)
      rw [hne', Bool.false_or, if_neg hne]
      cases hc : env.canceledAt k with
      | true => exact ⟨st, rfl, h.loose hnd, .inr (.inl ⟨k, .inl hc⟩)⟩
      | false =>
        rw [if_neg Bool.false_ne_true]
        dsimp only
        rcases Classical.em (∀ n ∈ st.ready, Regular env k n.id) with hreg | hreg
        · obtain ⟨hmid, hfail, hres, htr⟩ := h.wave (hperm k st.ready) hnd hreg
          have hcalm : ∀ x ∈ done ++ Waves.next (ids nodes) (depsOf nodes) done,
              env.panics x = none := by
            intro x hx
            rcases List.mem_append.1 hx with hx | hx
            · exact h.calm x hx
            · obtain ⟨n, hn, rfl⟩ := mem_ids.1 ((h.mem_ready hnd x).2 hx)
              exact (hreg n hn).2
          have hs := h.sound.wave hnd h.ok
          cases hany : (Waves.next (ids nodes) (depsOf nodes) done).any (fails env task nodes) with
          | true =>
            rw [if_pos (hfail.trans hany), if_pos rfl]
            have hlast := hmid.last hnd (hfail.trans hany) hres htr
            refine ⟨_, rfl, hlast.traced.loose hnd hs.mem ?_, .inl ⟨_, true, rfl, hlast, hcalm⟩⟩
            intro x hx
            simpa using (List.mem_filter.1 hx).2
          | false =>
            rw [if_neg (by rw [hfail, hany]; exact Bool.false_ne_true), if_neg Bool.false_ne_true]
            refine ih (k + 1) ⟨hmid, hfail.trans hany, hres, htr, hs, fun x hx => ?_, hcalm⟩ ?_
            · rcases List.mem_append.1 hx with hx | hx
              · exact h.ok x hx
              · simpa using List.any_eq_false.1 hany x hx
            · have hpos := List.length_pos_iff.2 hne
              rw [List.length_append]
              omega
        · obtain ⟨n, hn⟩ := not_forall.1 hreg
          obtain ⟨hn, hreg⟩ := Classical.not_imp.1 hn
          obtain ⟨hfailed, hloose⟩ := h.abort (hperm k st.ready) hnd hn hreg
          rw [if_pos hfailed]
          refine ⟨_, rfl, hloose, .inr ?_⟩
          cases hcf : env.canceledFor k n.id with
          | true => exact .inl ⟨k, .inr ⟨n.id, hcf⟩⟩
          | false =>
            refine .inr ⟨(skip_all _ hnd).1.trans hfailed, n.id, ?_, fun hp => hreg ⟨hcf, hp⟩⟩
            exact (h.sound.wave hnd h.ok).startable n.id
              (List.mem_append_right _ ((h.mem_ready hnd n.id).1 (mem_ids.2 ⟨n, hn, rfl⟩)))

/-- More fuel makes no difference. -/
theorem waves_mono {fuel' k : Nat} {st' : Exec Step}
    (h : waves env task nodes fuel k st = some st') (hle : fuel ≤ fuel') :
    waves env task nodes fuel' k st = some st' := by
  induction fuel generalizing fuel' k st with
  | zero => cases h
  | succ fuel ih =>
    obtain ⟨fuel', rfl⟩ : ∃ f, fuel' = f + 1 := ⟨fuel' - 1, by omega⟩
    rw [waves] at h ⊢
    split at h
    · next hc => rwa [if_pos hc]
    · next hc =>
      rw [if_neg hc]
      dsimp only at h ⊢
      split at h
      · next hf => rwa [if_pos hf]
      · next hf =>
        rw [if_neg hf]
        exact ih h (by omega)

theorem execute_mono {fuel' : Nat} {out : Outcome Step}
    (h : execute env task seed nodes fuel = some out) (hle : fuel ≤ fuel') :
    execute env task seed nodes fuel' = some out := by
  unfold execute at h ⊢
  dsimp only at h ⊢
  split
  · next hc =>
    rw [hc] at h
    exact h
  · next hc =>
    rw [hc] at h
    obtain ⟨st', hw, hx⟩ := Option.map_eq_some_iff.1 h
    rw [waves_mono hw hle, ← hx]
    rfl

/-- What is left of a run of the nodes `run`. -/
structure Executed (env : Env Step) (task : TaskInfo) (nodes : List (TaskNode Step))
    (seed : String → Option NodeResult) (run : List String) (failed : Bool) (out : Outcome Step) :
    Prop where
  status : out.status = if failed then .failed else .success
  results : ∀ x, out.results x = if x ∈ run then ownAt env task nodes x
    else if x ∈ skips nodes run failed then some skippedResult else seed x
  trace : ∃ tr, out.trace = tr ++ [.task out.status] ∧
    Traced env task nodes run (skips nodes run failed) tr

/-- The run of a task without cycles ends, and it is that of the plan unless a node panics or the
task is cancelled. -/
theorem execute_cases (hperm : ∀ wave l, (env.completion wave l).Perm l) (hnd : (ids nodes).Nodup)
    (hacyc : Waves.Acyclic (ids nodes) (depsOf nodes)) (task : TaskInfo)
    (seed : String → Option NodeResult) :
    ∃ st' out, (∀ fuel, nodes.length < fuel → execute env task seed nodes fuel = some out) ∧
      out = finishTask st' (if st'.failed || env.canceledAtEnd then .failed else .success) ∧
      Loose nodes st'.trace ∧
      ((∃ run failed,
          Waves.plan (ids nodes) (depsOf nodes) (fails env task nodes) (nodes.length + 1) [] =
            some (run, failed) ∧ Last env task nodes seed run failed st' ∧
            ∀ x ∈ run, env.panics x = none) ∨
        env.Canceled ∨
        st'.failed = true ∧ ∃ x, Waves.Startable (ids nodes) (depsOf nodes) x ∧
          env.panics x ≠ none) := by
  have h0 : Head env task nodes seed [] (initExec seed nodes) := head_init hnd
  have hfuel : (ids nodes).length < nodes.length + 1 + ([] : List String).length := by simp [ids]
  obtain ⟨st', hw, hl, hc⟩ := waves_cases hperm hnd 0 h0 hfuel
  refine ⟨st', _, fun fuel hfuel => ?_, rfl, hl, hc⟩
  rw [execute, findCycle_eq_none hacyc, waves_mono hw hfuel]
  rfl

/-- The run of a task without cycles is that of the plan, and it ends. -/
theorem execute_refines (henv : env.Calm) (hnd : (ids nodes).Nodup)
    (hacyc : Waves.Acyclic (ids nodes) (depsOf nodes)) (task : TaskInfo)
    (seed : String → Option NodeResult) :
    ∃ run failed out,
      Waves.plan (ids nodes) (depsOf nodes) (fails env task nodes) (nodes.length + 1) [] =
        some (run, failed) ∧
      (∀ fuel, nodes.length < fuel → execute env task seed nodes fuel = some out) ∧
      Executed env task nodes seed run failed out := by
  obtain ⟨st', out, hrun, hout, -, ⟨run, failed, hp, hl, -⟩ | ⟨wave, hc | ⟨x, hc⟩⟩ | ⟨-, x, -, hx⟩⟩ :=
    execute_cases henv.completion hnd hacyc task seed
  · refine ⟨run, failed, out, hp, hrun, ?_⟩
    subst hout
    refine ⟨?_, hl.results, st'.trace, rfl, hl.traced⟩
    rw [finishTask, henv.canceledAtEnd, Bool.or_false, hl.failed_eq]
  · rw [henv.canceledAt] at hc
    cases hc
  · rw [henv.canceledFor] at hc
    cases hc
  · exact absurd (henv.panics x) hx

end Run

end Rdsctl.Dag
