import Rdsctl.Dag.Dependencies
import Rdsctl.Dag.Success

/-!
# Cancelling a task

`cancel` of `src/dag.rs` sets a flag that `execute` reads at the head of its loop, when it spawns a node,
and at the end. A node that is spawned under the flag fails, and the nodes that wait are skipped; the
other two reads only stop the loop and fail the task. `Finished` is what one may ask of a task whose
execution has returned, with `rerun_node` among those who ask.
-/

namespace Rdsctl.Dag

variable {Step : Type} {nodes : List (TaskNode Step)} {env : Env Step} {task : TaskInfo}
  {st : Exec Step} {k fuel : Nat} {done : List String} {tr : List (Event Step)} {n : TaskNode Step}

/-! ## What is left of a task -/

/-- A status that tells how the node has ended. -/
def TaskStatus.Ended (s : TaskStatus) : Prop := s = .success ∨ s = .failed ∨ s = .skipped

/-- The status that a row of the node gives it. -/
def Event.statusOf (id : String) : Event Step → Option TaskStatus
  | .node row => if row.nodeId = id then some row.status else none
  | _ => none

/-- The status of a node in the store, where `submit` has left it pending. -/
def storedStatus (tr : List (Event Step)) (id : String) : TaskStatus :=
  ((tr.filterMap (Event.statusOf id)).getLast?).getD .pending

/-- The status of a node as `rerun_node` reads it. -/
def Outcome.current (out : Outcome Step) (id : String) : TaskStatus :=
  ((out.results id).map NodeResult.status).getD .pending

/-- `rerun_node` up to its last check, for a task that is in memory. -/
def admitRerun (nodes : List (TaskNode Step)) (out : Outcome Step) (nodeId : String) :
    Except String (TaskNode Step) :=
  if out.status ≠ .failed then .error "仅失败/跳过(终态)的任务支持手动重试步骤"
  else
    match nodeById nodes nodeId with
    | none => .error ("节点 " ++ nodeId ++ " 定义缺失,无法手动重试(节点步骤未持久化)")
    | some node =>
      if out.current nodeId ≠ .failed ∧ out.current nodeId ≠ .skipped then
        .error ("节点 " ++ nodeId ++ " 当前状态无需重试")
      else
        match node.deps.find? fun d => out.current d ≠ .success with
        | some d => .error ("上游节点 " ++ d ++ " 未成功,请先重试上游")
        | none => .ok node

/-- The ids of a wave of the graph. -/
def waveOf (nodes : List (TaskNode Step)) (k : Nat) : List String :=
  Waves.wave (ids nodes) (depsOf nodes) k

/-- A node that starts was spawned when no read had seen the flag: neither its own one nor any that
belongs to an earlier wave or to a head of the loop. -/
def StartsUncanceled (env : Env Step) (nodes : List (TaskNode Step)) (tr : List (Event Step)) : Prop :=
  ∀ x a, .start x a ∈ tr → ∃ k, x ∈ waveOf nodes k ∧ env.canceledFor k x = false ∧
    ∀ j ≤ k, env.canceledAt j = false ∧ (j < k → ∀ y ∈ waveOf nodes j, env.canceledFor j y = false)

/-- The task is finished: all nodes have ended, for the memory and for the store, the status of the task
tells how, and a node that has not succeeded can be run again once its dependencies have. -/
structure Finished (nodes : List (TaskNode Step)) (out : Outcome Step) : Prop where
  memory : ∀ n ∈ nodes, ∃ s, out.statusOf n = some s ∧ s.Ended
  store : ∀ n ∈ nodes, (storedStatus out.trace n.id).Ended
  task : out.status = .success ↔ ∀ n ∈ nodes, out.statusOf n = some .success
  rerun : ∀ n ∈ nodes, out.statusOf n ≠ some .success →
    (∀ d ∈ n.deps, (out.results d).map NodeResult.status = some .success) →
      admitRerun nodes out n.id = .ok n

/-- The loop comes to a wave: in the waves before, no read sees the flag, and every node succeeds. -/
def ComesTo (env : Env Step) (task : TaskInfo) (nodes : List (TaskNode Step)) (k : Nat) : Prop :=
  ∀ j < k, env.canceledAt j = false ∧ ∀ x ∈ waveOf nodes j,
    env.canceledFor j x = false ∧ env.panics x = none ∧ fails env task nodes x = false

/-- At a wave the flag is seen by nodes that are spawned, if at all, and those that are run do not panic;
after the last wave it is not seen. -/
def InTime (env : Env Step) (nodes : List (TaskNode Step)) (k : Nat) : Prop :=
  if waveOf nodes k = [] then env.canceledAtEnd = false
  else env.canceledAt k = false ∧
    ∀ x ∈ waveOf nodes k, env.canceledFor k x = false → env.panics x = none

/-- The flag is seen by nodes that are spawned or after one has failed, if at all, and no node panics. -/
def SeenInTime (env : Env Step) (task : TaskInfo) (nodes : List (TaskNode Step)) : Prop :=
  ∀ k, ComesTo env task nodes k → InTime env nodes k

/-! ## The store and the reruns -/

/-- When the rows of a node agree, any of them gives the status in the store. -/
theorem Loose.storedStatus (h : Loose nodes tr) {row : NodeRow Step} (hrow : .node row ∈ tr) :
    storedStatus tr row.nodeId = row.status := by
  have hall : ∀ s ∈ tr.filterMap (Event.statusOf row.nodeId), s = row.status := by
    intro s hs
    obtain ⟨e, he, hstat⟩ := List.mem_filterMap.1 hs
    cases e with
    | start x a => cases hstat
    | task s => cases hstat
    | node row' =>
      simp only [Event.statusOf] at hstat
      split at hstat
      next hid =>
        cases hstat
        rw [h.agree row' row he hrow hid]
      · cases hstat
  have hmem : row.status ∈ tr.filterMap (Event.statusOf row.nodeId) :=
    List.mem_filterMap.2 ⟨.node row, hrow, by simp [Event.statusOf]⟩
  obtain ⟨s, hs⟩ := Option.ne_none_iff_exists'.1 (mt List.getLast?_eq_none_iff.1 (List.ne_nil_of_mem hmem))
  rw [Dag.storedStatus, hs, Option.getD_some]
  exact hall s (List.mem_of_getLast? hs)

/-- A node without a row is pending in the store. -/
theorem storedStatus_of_no_row {id : String} (h : ∀ row, .node row ∈ tr → row.nodeId ≠ id) :
    storedStatus tr id = .pending := by
  have hnil : tr.filterMap (Event.statusOf id) = [] := by
    refine List.filterMap_eq_nil_iff.2 fun e he => ?_
    cases e with
    | start x a => rfl
    | task s => rfl
    | node row => exact if_neg (h row he)
  rw [storedStatus, hnil]
  rfl

theorem pending_not_ended : ¬TaskStatus.pending.Ended := by
  rintro (h | h | h) <;> cases h

/-- `rerun_node` takes a node of a failed task that has failed or was skipped and whose dependencies have
succeeded. -/
theorem admitRerun_ok (hnd : (ids nodes).Nodup) (hn : n ∈ nodes) {out : Outcome Step}
    (htask : out.status = .failed) {s : TaskStatus} (hs : out.statusOf n = some s)
    (hend : s = .failed ∨ s = .skipped)
    (hdeps : ∀ d ∈ n.deps, (out.results d).map NodeResult.status = some .success) :
    admitRerun nodes out n.id = .ok n := by
  have hnode : out.current n.id = s := by
    have hres : (out.results n.id).map NodeResult.status = some s := hs
    rw [Outcome.current, hres]
    rfl
  have hfind : (n.deps.find? fun d => decide (out.current d ≠ .success)) = none := by
    refine List.find?_eq_none.2 fun d hd => ?_
    simp [Outcome.current, hdeps d hd]
  rw [admitRerun, if_neg (not_not.2 htask), nodeById_id hnd hn]
  dsimp only
  rw [hnode, hfind, if_neg]
  rintro ⟨hf, hsk⟩
  exact hend.elim hf hsk

/-! ## The last wave -/

/-- The nodes of a wave end one after the other, each with a result. -/
theorem settle_results (env : Env Step) (task : TaskInfo) (nodes : List (TaskNode Step)) (k : Nat)
    (st : Exec Step) {l : List (TaskNode Step)} (hlnd : (ids l).Nodup)
    (hall : ∀ n ∈ l, (outcome env task k n).isSome) :
    (∀ x, x ∉ ids l → (l.foldl (settle env task nodes k) st).results x = st.results x) ∧
      ∀ n ∈ l, ∀ out, outcome env task k n = some out →
        (l.foldl (settle env task nodes k) st).results n.id = some (resultOf out) := by
  induction l generalizing st with
  | nil => exact ⟨fun _ _ => rfl, fun n hn => by cases hn⟩
  | cons n l ih =>
    obtain ⟨hnot, hlnd⟩ := List.nodup_cons.1 hlnd
    obtain ⟨hrest, heach⟩ := ih (settle env task nodes k st n) hlnd
      fun m hm => hall m (List.mem_cons_of_mem _ hm)
    obtain ⟨out, hout⟩ := Option.isSome_iff_exists.1 (hall n List.mem_cons_self)
    have hone : (settle env task nodes k st n).results = insertResult st.results n.id (resultOf out) := by
      rw [settle, hout]
      exact (release_frame _ _ _).1
    rw [List.foldl_cons]
    refine ⟨fun x hx => ?_, fun m hm out' hout' => ?_⟩
    · have hx' : x ≠ n.id ∧ x ∉ ids l := by simpa [ids] using hx
      rw [hrest x hx'.2, hone, insertResult, if_neg hx'.1]
    · rcases List.mem_cons.1 hm with rfl | hm
      · rw [hout] at hout'
        cases hout'
        rw [hrest m.id hnot, hone, insertResult, if_pos rfl]
      · exact heach m hm out' hout'

/-- What is still pending after a wave. -/
theorem Head.pending_waveEnd {seed : String → Option NodeResult} (h : Head env task nodes seed done st)
    (k : Nat) (x : String) : x ∈ (waveEnd env task nodes k st).pending ↔
      x ∈ ids nodes ∧ x ∉ done ∧ x ∉ ids st.ready := by
  rw [waveEnd, (settle_frame env task nodes k _ _).2, (spawn_all env task k st st.ready).1,
    h.mid.pending]
  simp [and_assoc]

/-- The trace of a wave. -/
theorem Head.trace_waveEnd {seed : String → Option NodeResult} (hnd : (ids nodes).Nodup)
    (hperm : (env.completion k st.ready).Perm st.ready) (h : Head env task nodes seed done st) :
    (waveEnd env task nodes k st).trace =
      st.trace ++ st.ready.flatMap (fun n => starts n.id (attemptsOf env task k n)) ++
        (env.completion k st.ready).filterMap (rowOf env task k) := by
  rw [waveEnd, settle_trace env task hnd k _ fun n hn => h.ready_mem (hperm.mem_iff.1 hn)]
  exact congrArg (· ++ _) (spawn_all env task k st st.ready).2.2.2.1

theorem mem_trace_skips (hnd : (ids nodes).Nodup) {e : Event Step} :
    e ∈ (nodes.foldl skip st).trace ↔
      e ∈ st.trace ∨ ∃ n ∈ nodes, n.id ∈ st.pending ∧ persistNode n skippedResult = e := by
  rw [(skip_all st hnd).2.1, List.mem_append, List.mem_map]
  simp [and_assoc]

/-- When no node panics in the last wave, every node has a result, and the row of it. -/
theorem Head.ends {seed : String → Option NodeResult} (hnd : (ids nodes).Nodup)
    (hperm : (env.completion k st.ready).Perm st.ready) (h : Head env task nodes seed done st)
    (hall : ∀ n ∈ st.ready, (outcome env task k n).isSome) (hn : n ∈ nodes) :
    ∃ r, (nodes.foldl skip (waveEnd env task nodes k st)).results n.id = some r ∧ r.status.Ended ∧
      .node (n.row r) ∈ (nodes.foldl skip (waveEnd env task nodes k st)).trace ∧
      ∀ out, n ∈ st.ready → outcome env task k n = some out → r = resultOf out := by
  have hlnd : (ids (env.completion k st.ready)).Nodup := by
    refine (hperm.map TaskNode.id).nodup_iff.2 ((h.mid.ready.map TaskNode.id).nodup_iff.2 ?_)
    exact (List.filter_sublist.map TaskNode.id).nodup hnd
  have hids : ∀ x, x ∈ ids (env.completion k st.ready) ↔ x ∈ ids st.ready := fun x =>
    (hperm.map TaskNode.id).mem_iff
  obtain ⟨hrest, heach⟩ := settle_results env task nodes k
    { st.ready.foldl (spawn env task k) st with ready := [] } hlnd
    fun m hm => hall m (hperm.mem_iff.1 hm)
  have hskip := (skip_all (waveEnd env task nodes k st) hnd).2.2 n.id
  have hpend := h.pending_waveEnd k n.id
  have htrace := h.trace_waveEnd hnd hperm
  rcases Decidable.em (n.id ∈ ids st.ready) with hready | hready
  · -- the node has ended in the wave
    obtain ⟨m, hm, hid⟩ := mem_ids.1 hready
    obtain rfl := eq_of_id hnd (h.ready_mem hm) hn hid
    obtain ⟨out, hout⟩ := Option.isSome_iff_exists.1 (hall m hm)
    refine ⟨resultOf out, ?_, (resultOf_status out).imp_right .inl, ?_, fun out' _ hout' => ?_⟩
    · rw [hskip, if_neg fun hc => (hpend.1 hc.2).2.2 hready]
      exact heach m (hperm.mem_iff.2 hm) out hout
    · refine (mem_trace_skips hnd).2 (.inl ?_)
      rw [htrace]
      refine List.mem_append_right _ (List.mem_filterMap.2 ⟨m, hperm.mem_iff.2 hm, ?_⟩)
      rw [rowOf, hout]
      rfl
    · rw [hout] at hout'
      cases hout'
      rfl
  · have hnot : n ∉ st.ready := fun hm => hready (mem_ids.2 ⟨n, hm, rfl⟩)
    rcases Decidable.em (n.id ∈ done) with hdone | hdone
    · -- it has ended in a wave before
      refine ⟨own env task n, ?_, (own_status env task n).imp_right .inl, ?_, fun _ hm => absurd hm hnot⟩
      · rw [hskip, if_neg fun hc => (hpend.1 hc.2).2.1 hdone, waveEnd,
          hrest n.id (fun hc => hready ((hids _).1 hc))]
        have hspawn := (spawn_all env task k st st.ready).2.2.2.2 n.id hready
        exact hspawn.trans ((h.results n.id).trans (by rw [if_pos hdone, ownAt_id hnd hn]))
      · refine (mem_trace_skips hnd).2 (.inl ?_)
        rw [htrace, List.append_assoc]
        exact List.mem_append_left _ (h.traced.ended n hn hdone)
    · -- it has been skipped
      have hp := hpend.2 ⟨mem_ids.2 ⟨n, hn, rfl⟩, hdone, hready⟩
      refine ⟨skippedResult, ?_, .inr (.inr rfl), ?_, fun _ hm => absurd hm hnot⟩
      · rw [hskip, if_pos ⟨mem_ids.2 ⟨n, hn, rfl⟩, hp⟩]
      · exact (mem_trace_skips hnd).2 (.inr ⟨n, hn, hp, rfl⟩)

/-- A node that panics leaves no row. -/
theorem Head.no_row {seed : String → Option NodeResult} (hnd : (ids nodes).Nodup)
    (hperm : (env.completion k st.ready).Perm st.ready) (h : Head env task nodes seed done st)
    (hn : n ∈ st.ready) (hout : outcome env task k n = none) :
    ∀ row, .node row ∈ (nodes.foldl skip (waveEnd env task nodes k st)).trace → row.nodeId ≠ n.id := by
  intro row hrow hid
  have hnext := (h.mem_ready hnd n.id).1 (mem_ids.2 ⟨n, hn, rfl⟩)
  rcases (mem_trace_skips hnd).1 hrow with hrow | ⟨m, hm, hpend, heq⟩
  · rw [h.trace_waveEnd hnd hperm, List.mem_append, List.mem_append] at hrow
    rcases hrow with (hrow | hrow) | hrow
    · obtain ⟨m, -, ⟨hd, rfl⟩ | ⟨hs, -⟩⟩ := h.traced.rows row hrow
      · exact (Waves.mem_next.1 hnext).2.1 (hid ▸ hd)
      · cases hs
    · obtain ⟨m, -, hmem⟩ := List.mem_flatMap.1 hrow
      obtain ⟨j, -, heq⟩ := mem_starts.1 hmem
      cases heq
    · obtain ⟨m, hm, hrow⟩ := List.mem_filterMap.1 hrow
      obtain ⟨out, hm', heq⟩ := Option.map_eq_some_iff.1 hrow
      cases heq
      have hmn : m = n := eq_of_id hnd (h.ready_mem (hperm.mem_iff.1 hm)) (h.ready_mem hn) hid
      rw [hmn, hout] at hm'
      cases hm'
  · cases heq
    have hmid : m.id = n.id := hid
    rw [hmid, h.pending_waveEnd] at hpend
    exact hpend.2.2 (mem_ids.2 ⟨n, hn, rfl⟩)

/-! ## Along the waves -/

/-- Before a wave that the loop comes to. -/
abbrev Comes (env : Env Step) (task : TaskInfo) (nodes : List (TaskNode Step)) (k : Nat)
    (st : Exec Step) : Prop :=
  Head env task nodes (fun _ => none) (Waves.before (ids nodes) (depsOf nodes) k) st ∧
    ComesTo env task nodes k

/-- The attempts up to a wave belong to nodes that were spawned without the flag. -/
theorem Comes.starts (h : Comes env task nodes k st) : StartsUncanceled env nodes st.trace := by
  intro x a hx
  obtain ⟨j, hj, hmem⟩ := Waves.mem_before.1 (h.1.traced.started x a hx).1
  refine ⟨j, hmem, ((h.2 j hj).2 x hmem).1, fun i hi => ?_⟩
  have hcomes := h.2 i (by omega)
  exact ⟨hcomes.1, fun _ y hy => (hcomes.2 y hy).1⟩

/-- So do those of the wave itself. -/
theorem Comes.starts_wave (hnd : (ids nodes).Nodup) (hperm : (env.completion k st.ready).Perm st.ready)
    (h : Comes env task nodes k st) (hat : env.canceledAt k = false) :
    StartsUncanceled env nodes (nodes.foldl skip (waveEnd env task nodes k st)).trace := by
  intro x a hx
  rcases (mem_trace_skips hnd).1 hx with hx | ⟨n, -, -, heq⟩
  · rw [h.1.trace_waveEnd hnd hperm, List.mem_append, List.mem_append] at hx
    rcases hx with (hx | hx) | hx
    · exact h.starts x a hx
    · obtain ⟨n, hn, hmem⟩ := List.mem_flatMap.1 hx
      obtain ⟨j, hj, heq⟩ := mem_starts.1 hmem
      cases heq
      refine ⟨k, (h.1.mem_ready hnd n.id).1 (mem_ids.2 ⟨n, hn, rfl⟩), ?_, fun i hi => ?_⟩
      · -- a node that sees the flag makes no attempt
        refine Bool.eq_false_iff.2 fun hc => ?_
        rw [attemptsOf, outcome, if_pos hc] at hj
        exact absurd hj (Nat.not_lt_zero j)
      · rcases Nat.lt_or_eq_of_le hi with hlt | rfl
        · exact ⟨(h.2 i hlt).1, fun _ y hy => ((h.2 i hlt).2 y hy).1⟩
        · exact ⟨hat, fun hc => absurd hc (lt_irrefl i)⟩
    · obtain ⟨n, -, hrow⟩ := List.mem_filterMap.1 hx
      obtain ⟨out, -, heq⟩ := Option.map_eq_some_iff.1 hrow
      cases heq
  · cases heq

/-- A wave in which every node is run and succeeds leads to the next one. -/
theorem Comes.succ (hnd : (ids nodes).Nodup) (hperm : (env.completion k st.ready).Perm st.ready)
    (h : Comes env task nodes k st) (hat : env.canceledAt k = false)
    (hgood : (waveEnd env task nodes k st).failed = false) :
    Comes env task nodes (k + 1) (waveEnd env task nodes k st) := by
  have hbad : ∀ n ∈ st.ready, bad env task k n = false := by
    intro n hn
    rw [waveEnd, (settle_frame env task nodes k _ _).1, Bool.or_eq_false_iff, List.any_eq_false] at hgood
    simpa using hgood.2 n (hperm.mem_iff.2 hn)
  have hreg : ∀ n ∈ st.ready, Regular env k n.id := by
    intro n hn
    by_contra hc
    have htrue : bad env task k n = true := bad_of_not_regular hc
    rw [hbad n hn] at htrue
    cases htrue
  obtain ⟨hmid, hfail, hres, htr⟩ := h.1.wave hperm hnd hreg
  have hok : ∀ x ∈ waveOf nodes k, fails env task nodes x = false := by
    have hany := hfail.symm.trans hgood
    exact fun x hx => by simpa using List.any_eq_false.1 hany x hx
  have hwave : ∀ x ∈ waveOf nodes k, Regular env k x := fun x hx => by
    obtain ⟨n, hn, rfl⟩ := mem_ids.1 ((h.1.mem_ready hnd x).2 hx)
    exact hreg n hn
  refine ⟨⟨hmid, hgood, hres, htr, h.1.sound.wave hnd h.1.ok, fun x hx => ?_, fun x hx => ?_⟩,
    fun j hj => ?_⟩
  · exact (List.mem_append.1 hx).elim (h.1.ok x) (hok x)
  · exact (List.mem_append.1 hx).elim (h.1.calm x) fun hx => (hwave x hx).2
  · rcases Nat.lt_succ_iff_lt_or_eq.1 hj with hj | rfl
    · exact h.2 j hj
    · exact ⟨hat, fun x hx => ⟨(hwave x hx).1, (hwave x hx).2, hok x hx⟩⟩

/-- What `execute` returns when its loop has ended in a state. -/
def closing (env : Env Step) (st : Exec Step) : Outcome Step :=
  finishTask st (if st.failed || env.canceledAtEnd then .failed else .success)

theorem storedStatus_closing (env : Env Step) (st : Exec Step) (id : String) :
    storedStatus (closing env st).trace id = storedStatus st.trace id := by
  simp [storedStatus, closing, finishTask, Event.statusOf]

/-- The loop has no wave left. -/
theorem Comes.finished_nil (hnd : (ids nodes).Nodup) (hclosed : ∀ n ∈ nodes, ∀ d ∈ n.deps, d ∈ ids nodes)
    (hacyc : Waves.Acyclic (ids nodes) (depsOf nodes)) (h : Comes env task nodes k st)
    (hloose : Loose nodes st.trace) (hnil : waveOf nodes k = []) :
    Finished nodes (closing env st) ↔ env.canceledAtEnd = false := by
  have hall : ∀ n ∈ nodes, n.id ∈ Waves.before (ids nodes) (depsOf nodes) k := by
    intro n hn
    refine Waves.mem_of_next_eq_nil hnil (Waves.startable_of_acyclic (fun x hx d hd => ?_) hacyc n.id
      (mem_ids.2 ⟨n, hn, rfl⟩))
    obtain ⟨m, hm, rfl⟩ := mem_ids.1 hx
    rw [depsOf_id hnd hm] at hd
    exact hclosed m hm d hd
  have hres : ∀ n ∈ nodes, st.results n.id = some (own env task n) := fun n hn => by
    rw [h.1.results, if_pos (hall n hn), ownAt_id hnd hn]
  have hsucc : ∀ n ∈ nodes, (closing env st).statusOf n = some .success := fun n hn => by
    show (st.results n.id).map NodeResult.status = _
    rw [hres n hn, Option.map_some, own_success hnd hn (h.1.ok _ (hall n hn))]
  have htask : (closing env st).status = if env.canceledAtEnd then .failed else .success := by
    simp [closing, finishTask, h.1.failed]
  constructor
  · intro hfin
    have hstatus := hfin.task.2 hsucc
    rw [htask] at hstatus
    refine Bool.eq_false_iff.2 fun hc => ?_
    rw [hc] at hstatus
    cases hstatus
  · intro hend
    rw [hend] at htask
    refine ⟨fun n hn => ⟨.success, hsucc n hn, .inl rfl⟩, fun n hn => ?_, ⟨fun _ => hsucc, fun _ => htask⟩,
      fun n hn hne => absurd (hsucc n hn) hne⟩
    rw [storedStatus_closing]
    have hrow := hloose.storedStatus (h.1.traced.ended n hn (hall n hn))
    exact hrow.symm ▸ (own_status env task n).imp_right .inl

/-- The loop stops before a wave that the flag keeps from being spawned. -/
theorem Comes.unfinished_at (hnd : (ids nodes).Nodup) (h : Comes env task nodes k st)
    (hne : waveOf nodes k ≠ []) : ¬Finished nodes (closing env st) := by
  intro hfin
  obtain ⟨x, hx⟩ := List.exists_mem_of_ne_nil _ hne
  obtain ⟨n, hn, rfl⟩ := mem_ids.1 ((h.1.mem_ready hnd x).2 hx)
  obtain ⟨s, hs, -⟩ := hfin.memory n (h.1.ready_mem hn)
  have hnone : st.results n.id = none := by
    rw [h.1.results, if_neg (Waves.mem_next.1 hx).2.1]
  have hs' : (st.results n.id).map NodeResult.status = some s := hs
  rw [hnone] at hs'
  cases hs'

/-- A node of the last wave panics. -/
theorem Comes.unfinished_panic (hnd : (ids nodes).Nodup)
    (hperm : (env.completion k st.ready).Perm st.ready) (h : Comes env task nodes k st)
    (hn : n ∈ st.ready) (hout : outcome env task k n = none) :
    ¬Finished nodes (closing env (nodes.foldl skip (waveEnd env task nodes k st))) := by
  intro hfin
  have hend := hfin.store n (h.1.ready_mem hn)
  rw [storedStatus_closing, storedStatus_of_no_row (h.1.no_row hnd hperm hn hout)] at hend
  exact pending_not_ended hend

/-- In the last wave a node fails, or is spawned under the flag. -/
theorem Comes.finished_failed (hnd : (ids nodes).Nodup)
    (hperm : (env.completion k st.ready).Perm st.ready) (h : Comes env task nodes k st)
    (hall : ∀ n ∈ st.ready, (outcome env task k n).isSome)
    (hfailed : (waveEnd env task nodes k st).failed = true)
    (hloose : Loose nodes (nodes.foldl skip (waveEnd env task nodes k st)).trace) :
    Finished nodes (closing env (nodes.foldl skip (waveEnd env task nodes k st))) := by
  have hends := fun n hn => h.1.ends (n := n) hnd hperm hall hn
  have htask : (closing env (nodes.foldl skip (waveEnd env task nodes k st))).status = .failed := by
    simp [closing, finishTask, failed_skip, hfailed]
  have hstatus : ∀ n r, (nodes.foldl skip (waveEnd env task nodes k st)).results n.id = some r →
      (closing env (nodes.foldl skip (waveEnd env task nodes k st))).statusOf n = some r.status :=
    fun n r hr => congrArg (Option.map NodeResult.status) hr
  refine ⟨fun n hn => ?_, fun n hn => ?_, ⟨fun hc => ?_, fun hsucc => ?_⟩, fun n hn hne hdeps => ?_⟩
  · obtain ⟨r, hr, hend, -⟩ := hends n hn
    exact ⟨r.status, hstatus n r hr, hend⟩
  · obtain ⟨r, -, hend, hrow, -⟩ := hends n hn
    rw [storedStatus_closing, show n.id = (n.row r).nodeId from rfl, hloose.storedStatus hrow]
    exact hend
  · rw [htask] at hc
    cases hc
  · -- the node that has failed the wave
    rw [waveEnd, (settle_frame env task nodes k _ _).1] at hfailed
    have hspawn := (spawn_all env task k st st.ready).2.2.1
    rw [show ({ st.ready.foldl (spawn env task k) st with ready := [] } : Exec Step).failed = st.failed
      from hspawn, h.1.failed, Bool.false_or, List.any_eq_true] at hfailed
    obtain ⟨n, hn, hbad⟩ := hfailed
    have hready := hperm.mem_iff.1 hn
    obtain ⟨out, hout⟩ := Option.isSome_iff_exists.1 (hall n hready)
    obtain ⟨r, hr, -, -, hrout⟩ := hends n (h.1.ready_mem hready)
    rw [bad, hout] at hbad
    have hfail : (resultOf out).status = .failed := of_decide_eq_true hbad
    have hs := (hstatus n r hr).symm.trans (hsucc n (h.1.ready_mem hready))
    rw [hrout out hready hout, hfail] at hs
    cases hs
  · obtain ⟨r, hr, hend, -⟩ := hends n hn
    refine admitRerun_ok hnd hn htask (hstatus n r hr) (hend.resolve_left fun hc => hne ?_) hdeps
    rw [hstatus n r hr, hc]

/-- When the loop comes to a later wave, this one has not failed. -/
theorem Comes.not_failed (hnd : (ids nodes).Nodup) (hperm : (env.completion k st.ready).Perm st.ready)
    (h : Comes env task nodes k st) {j : Nat} (hcomes : ComesTo env task nodes j) (hj : k < j) :
    (waveEnd env task nodes k st).failed = false := by
  obtain ⟨-, hwave⟩ := hcomes k hj
  have hreg : ∀ n ∈ st.ready, Regular env k n.id := fun n hn => by
    obtain ⟨hfor, hpanics, -⟩ := hwave n.id ((h.1.mem_ready hnd n.id).1 (mem_ids.2 ⟨n, hn, rfl⟩))
    exact ⟨hfor, hpanics⟩
  refine (h.1.wave hperm hnd hreg).2.1.trans (List.any_eq_false.2 fun x hx => ?_)
  simp [(hwave x hx).2.2]

theorem isSome_outcome (env : Env Step) (task : TaskInfo) (k : Nat) (n : TaskNode Step) :
    (outcome env task k n).isSome ↔ (env.canceledFor k n.id = false → env.panics n.id = none) := by
  unfold outcome
  split
  · next hc => simp [hc]
  · next hc =>
    split
    · next hp => simpa [hc] using Option.isSome_iff_ne_none.1 hp
    · next hp => simpa [hc] using hp

/-- From a wave that the loop comes to, the task is left finished exactly when the flag is seen in time. -/
theorem Comes.finished_iff (hnd : (ids nodes).Nodup) (hclosed : ∀ n ∈ nodes, ∀ d ∈ n.deps, d ∈ ids nodes)
    (hacyc : Waves.Acyclic (ids nodes) (depsOf nodes)) (hperm : ∀ k l, (env.completion k l).Perm l)
    (h : Comes env task nodes k st) {st' : Exec Step} (hrun : waves env task nodes fuel k st = some st')
    (hloose : Loose nodes st'.trace) :
    StartsUncanceled env nodes st'.trace ∧
      (Finished nodes (closing env st') ↔ ∀ j ≥ k, ComesTo env task nodes j → InTime env nodes j) := by
  induction fuel generalizing k st with
  | zero => cases hrun
  | succ fuel ih =>
    have hempty : st.ready = [] ↔ waveOf nodes k = [] := by
      rw [List.eq_nil_iff_forall_not_mem, List.eq_nil_iff_forall_not_mem]
      constructor
      · intro hn x hx
        obtain ⟨n, hn', -⟩ := mem_ids.1 ((h.1.mem_ready hnd x).2 hx)
        exact hn n hn'
      · intro hn n hx
        exact hn n.id ((h.1.mem_ready hnd n.id).1 (mem_ids.2 ⟨n, hx, rfl⟩))
    rw [waves] at hrun
    rcases Decidable.em (waveOf nodes k = []) with hnil | hne
    · rw [hempty.2 hnil] at hrun
      cases hrun
      refine ⟨h.starts, (h.finished_nil hnd hclosed hacyc hloose hnil).trans ⟨fun hend j hj _ => ?_, fun hin => ?_⟩⟩
      · have hnil' : waveOf nodes j = [] := Waves.wave_eq_nil hj hnil
        rw [InTime, if_pos hnil']
        exact hend
      · have hk := hin k (le_refl k) h.2
        rwa [InTime, if_pos hnil] at hk
    · have hne' : st.ready.isEmpty = false := by simpa using fun hc => hne (hempty.1 hc)
      rw [hne', Bool.false_or] at hrun
      have hin : InTime env nodes k ↔ env.canceledAt k = false ∧
          ∀ x ∈ waveOf nodes k, env.canceledFor k x = false → env.panics x = none := by
        rw [InTime, if_neg hne]
      cases hat : env.canceledAt k with
      | true =>
        rw [hat, if_pos rfl] at hrun
        cases hrun
        refine ⟨h.starts, iff_of_false (h.unfinished_at hnd hne) fun hall => ?_⟩
        have hk := (hin.1 (hall k (le_refl k) h.2)).1
        rw [hat] at hk
        cases hk
      | false =>
        rw [hat, if_neg Bool.false_ne_true] at hrun
        replace hrun : (if (waveEnd env task nodes k st).failed then
            some (nodes.foldl skip (waveEnd env task nodes k st))
          else waves env task nodes fuel (k + 1) (waveEnd env task nodes k st)) = some st' := hrun
        have hout : (∀ n ∈ st.ready, (outcome env task k n).isSome) ↔ InTime env nodes k := by
          rw [hin]
          constructor
          · refine fun hall => ⟨hat, fun x hx => ?_⟩
            obtain ⟨n, hn, rfl⟩ := mem_ids.1 ((h.1.mem_ready hnd x).2 hx)
            exact (isSome_outcome env task k n).1 (hall n hn)
          · exact fun hall n hn => (isSome_outcome env task k n).2
              (hall.2 n.id ((h.1.mem_ready hnd n.id).1 (mem_ids.2 ⟨n, hn, rfl⟩)))
        cases hfailed : (waveEnd env task nodes k st).failed with
        | true =>
          rw [hfailed, if_pos rfl] at hrun
          cases hrun
          refine ⟨h.starts_wave hnd (hperm k st.ready) hat, ?_⟩
          -- no later wave counts
          have hlast : (∀ j ≥ k, ComesTo env task nodes j → InTime env nodes j) ↔ InTime env nodes k := by
            refine ⟨fun hall => hall k (le_refl k) h.2, fun hk j hj hcomes => ?_⟩
            rcases Nat.eq_or_lt_of_le hj with rfl | hj
            · exact hk
            · rw [h.not_failed hnd (hperm k st.ready) hcomes hj] at hfailed
              cases hfailed
          rw [hlast, ← hout]
          refine ⟨fun hfin n hn => ?_, fun hall => h.finished_failed hnd (hperm k st.ready) hall hfailed hloose⟩
          refine Option.isSome_iff_ne_none.2 fun hnone => ?_
          exact h.unfinished_panic hnd (hperm k st.ready) hn hnone hfin
        | false =>
          rw [hfailed, if_neg Bool.false_ne_true] at hrun
          have hsucc := h.succ hnd (hperm k st.ready) hat hfailed
          obtain ⟨hstarts, hiff⟩ := ih hsucc hrun
          refine ⟨hstarts, hiff.trans ⟨fun hall j hj hj' => ?_, fun hall j hj => hall j (by omega)⟩⟩
          rcases Nat.eq_or_lt_of_le hj with rfl | hj
          · refine hin.2 ⟨hat, fun x hx _ => ?_⟩
            exact ((hsucc.2 k (Nat.lt_succ_self k)).2 x hx).2.1
          · exact hall j hj hj'

/-- The execution of a fresh task without cycles, whose dependencies are among its nodes, returns. It spawns
no node once it has seen the cancel flag, and it leaves the task finished exactly when the flag is seen
in time and no node panics. -/
theorem finished_iff_seenInTime (hperm : ∀ k l, (env.completion k l).Perm l) (hnd : (ids nodes).Nodup)
    (hclosed : ∀ n ∈ nodes, ∀ d ∈ n.deps, d ∈ ids nodes)
    (hacyc : Waves.Acyclic (ids nodes) (depsOf nodes)) (task : TaskInfo) :
    ∃ out, (∀ fuel, nodes.length < fuel → execute env task (fun _ => none) nodes fuel = some out) ∧
      StartsUncanceled env nodes out.trace ∧
      (Finished nodes out ↔ SeenInTime env task nodes) := by
  have h0 : Head env task nodes (fun _ => none) [] (initExec (fun _ => none) nodes) := head_init hnd
  have hfuel : (ids nodes).length < nodes.length + 1 + ([] : List String).length := by simp [ids]
  obtain ⟨st', hrun, hloose, -⟩ := waves_cases hperm hnd 0 h0 hfuel
  have hcomes : Comes env task nodes 0 (initExec (fun _ => none) nodes) :=
    ⟨h0, fun j hj => absurd hj (Nat.not_lt_zero j)⟩
  obtain ⟨hstarts, hiff⟩ := hcomes.finished_iff hnd hclosed hacyc hperm hrun hloose
  refine ⟨closing env st', fun fuel hfuel => ?_, fun x a hx => ?_, ?_⟩
  · rw [execute, findCycle_eq_none hacyc, waves_mono hrun hfuel]
    rfl
  · rcases List.mem_append.1 hx with hx | hx
    · exact hstarts x a hx
    · cases List.mem_singleton.1 hx
  · rw [hiff]
    exact ⟨fun hall k => hall k (Nat.zero_le k), fun hall k _ => hall k⟩

section Example

/-- All steps succeed. The flag is set when the loop has come to its second round, before the node of that
round is spawned. -/
def canceledSpawning : Env Unit :=
  { smooth with canceledAt := fun k => decide (2 ≤ k), canceledFor := fun k _ => decide (1 ≤ k)
                canceledAtEnd := true }

/-- The same, while the first wave runs. -/
def canceledRunning : Env Unit :=
  { smooth with canceledAt := fun k => decide (1 ≤ k), canceledFor := fun k _ => decide (1 ≤ k)
                canceledAtEnd := true }

/-- The node that is spawned under the flag fails, and the task is finished. -/
theorem chain_canceledSpawning :
    ∃ out, (∀ fuel, 2 < fuel → execute canceledSpawning ⟨"t", "i"⟩ (fun _ => none) chain fuel = some out) ∧
      StartsUncanceled canceledSpawning chain out.trace ∧ Finished chain out := by
  obtain ⟨out, hrun, hstarts, hiff⟩ := @finished_iff_seenInTime _ chain canceledSpawning
    (fun _ _ => .refl _) (by decide) chain_closed chain_acyclic ⟨"t", "i"⟩
  refine ⟨out, hrun, hstarts, hiff.2 fun k hcomes => ?_⟩
  match k with
  | 0 => exact ⟨rfl, fun _ _ _ => rfl⟩
  | 1 => exact ⟨rfl, fun _ _ _ => rfl⟩
  | k + 2 =>
    have hb := ((hcomes 1 (by omega)).2 "b" (by decide)).1
    cases hb

/-- The second node is left without a result, in the memory and in the store, and `rerun_node` does not
take it. -/
theorem chain_canceledRunning :
    ∃ out, execute canceledRunning ⟨"t", "i"⟩ (fun _ => none) chain 3 = some out ∧ out.status = .failed ∧
      (out.results "a").map NodeResult.status = some .success ∧ out.results "b" = none ∧
      storedStatus out.trace "b" = .pending ∧
      admitRerun chain out "b" = .error "节点 b 当前状态无需重试" ∧ ¬Finished chain out := by
  refine ⟨_, rfl, rfl, rfl, rfl, rfl, rfl, fun hfin => ?_⟩
  obtain ⟨s, hs, -⟩ := hfin.memory ⟨"b", "b", ["a"], 0, none, [()]⟩ (by simp [chain])
  cases hs

end Example

end Rdsctl.Dag
