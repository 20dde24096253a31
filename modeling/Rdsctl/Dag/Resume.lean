import Rdsctl.Dag.Dependencies

/-!
# Resuming a task

`resume_pending` of `src/dag.rs` after a crash. `execute` writes rows as it goes, so a crash leaves a
prefix of its writes in the store (`Crashed`), whether the task was submitted, started as a draft or
itself resumed. `resume_one` runs the rows that are pending, without their dependencies on nodes that
succeeded, and does nothing when there are none.

A resumed run starts a node only after its dependencies have succeeded and starts no node that
succeeded before, but what it makes of the whole task is right under a condition only
(`Crashed.soundResume_iff`).
-/

namespace Rdsctl.Dag

variable {Step : Type}

/-! ## The store -/

/-- A task as the store keeps it. -/
structure TaskRow (Step : Type) where
  status : TaskStatus
  nodes : List (NodeRow Step)

/-- The row that is there after an upsert over `old`: one of the two stores keeps the columns that
the statement does not name (`keep`), the other one replaces the row. -/
def upsertRow (keep : Bool) (old row : NodeRow Step) : NodeRow Step :=
  if keep then { row with name := old.name, deps := old.deps, steps := old.steps } else row

/-- `upsert_node` -/
def upsertNode (keep : Bool) : List (NodeRow Step) → NodeRow Step → List (NodeRow Step)
  | [], row => [row]
  | old :: rows, row =>
    if old.nodeId = row.nodeId then upsertRow keep old row :: rows
    else old :: upsertNode keep rows row

/-- What an event of a run writes. -/
def TaskRow.write (keep : Bool) (p : TaskRow Step) : Event Step → TaskRow Step
  | .start _ _ => p
  | .node row => { p with nodes := upsertNode keep p.nodes row }
  | .task status => { p with status := status }

/-- The row of a node. -/
def TaskRow.find (p : TaskRow Step) (id : String) : Option (NodeRow Step) :=
  p.nodes.find? fun r => r.nodeId = id

/-- The status of a node in the store. -/
def TaskRow.statusOf (p : TaskRow Step) (id : String) : Option TaskStatus :=
  (p.find id).map NodeRow.status

/-- What `submit` writes. -/
def submitted (nodes : List (TaskNode Step)) : TaskRow Step :=
  ⟨.pending, nodes.map fun n =>
    ⟨n.id, n.name, n.deps, n.steps, .pending, "", 0, n.retries, n.timeoutSecs⟩⟩

/-- A draft is not written before it runs; its row is there from the first write of the run on. -/
def drafted : TaskRow Step := ⟨.pending, []⟩

/-! ## Resuming -/

/-- The nodes that succeeded. -/
def succeeded (rows : List (NodeRow Step)) : List String :=
  (rows.filter fun r => r.status = .success).map NodeRow.nodeId

/-- The nodes to run: those that are pending, without the dependencies that succeeded. -/
def toRun (rows : List (NodeRow Step)) : List (TaskNode Step) :=
  (rows.filter fun r => r.status = .pending ∨ r.status = .running).map fun r =>
    ⟨r.nodeId, r.name, r.deps.filter (· ∉ succeeded rows), r.retries, r.timeoutSecs, r.steps⟩

/-- The results that a resumed task starts from. -/
def seedResults (rows : List (NodeRow Step)) (id : String) : Option NodeResult :=
  (rows.find? fun r => r.nodeId = id).map fun r =>
    if r.status = .success ∨ r.status = .failed ∨ r.status = .skipped then
      ⟨r.status, r.output, r.attempts⟩
    else ⟨.running, "", 0⟩

/-- What `resume_one` leaves behind, for rows in the order in which the store gives them. -/
def resumeOne (env : Env Step) (task : TaskInfo) (rows : List (NodeRow Step)) (fuel : Nat) :
    Option (List (Event Step)) :=
  if (toRun rows).isEmpty then some []
  else (execute env task (seedResults rows) (toRun rows) fuel).map Outcome.trace

/-- What `resume_pending` leaves behind for a task: `leader` is whether this process leads, in a
cluster, and `live` the status of the task when this process knows it. -/
def resumePending (leader : Option Bool) (live : Option TaskStatus) (env : Env Step)
    (task : TaskInfo) (p : TaskRow Step) (rows : List (NodeRow Step)) (fuel : Nat) :
    Option (List (Event Step)) :=
  if leader = some false then some []
  else if p.status ≠ .pending ∧ p.status ≠ .running then some []
  else
    match live with
    | some status =>
      if status ≠ .success ∧ status ≠ .failed then some [] else resumeOne env task rows fuel
    | none => resumeOne env task rows fuel

/-- What a crash leaves in the store: a task that was submitted and not begun, or the first writes of
a run of its nodes, or those of a run that resumed it. -/
inductive Crashed (keep : Bool) (task : TaskInfo) (nodes : List (TaskNode Step)) :
    TaskRow Step → Prop
  | submitted : Crashed keep task nodes (submitted nodes)
  | executed {env : Env Step} {p : TaskRow Step} {seed : String → Option NodeResult} {fuel : Nat}
      {out : Outcome Step} (k : Nat) (henv : env.Fair) (hp : p = Dag.submitted nodes ∨ p = drafted)
      (hrun : execute env task seed nodes fuel = some out) :
      Crashed keep task nodes ((out.trace.take (k + 1)).foldl (TaskRow.write keep) p)
  | resumed {env : Env Step} {p : TaskRow Step} {rows : List (NodeRow Step)} {fuel : Nat}
      {live : Option TaskStatus} {leader : Option Bool} {tr : List (Event Step)} (k : Nat)
      (hp : Crashed keep task nodes p) (henv : env.Fair) (hrows : rows.Perm p.nodes)
      (hrun : resumePending leader live env task p rows fuel = some tr) :
      Crashed keep task nodes ((tr.take k).foldl (TaskRow.write keep) p)

/-- What is asked of a resumed run. -/
structure SoundResume (keep : Bool) (nodes : List (TaskNode Step)) (p : TaskRow Step)
    (tr : List (Event Step)) : Prop where
  /-- the task is marked as a success only when every node is one -/
  success : .task .success ∈ tr → ∀ n ∈ nodes,
    (tr.foldl (TaskRow.write keep) p).statusOf n.id = some .success
  /-- when a node is started its dependencies are successes -/
  afterDeps : ∀ (i : Nat) (x : String) (k : Nat), tr[i]? = some (Event.start x k) →
    ∃ n ∈ nodes, n.id = x ∧ ∀ d ∈ n.deps,
      ((tr.take i).foldl (TaskRow.write keep) p).statusOf d = some .success
  /-- a node that was a success is not started -/
  notAgain : ∀ x k, .start x k ∈ tr → p.statusOf x ≠ some .success
  /-- the task has ended -/
  ended : (tr.foldl (TaskRow.write keep) p).status = .success ∨
    (tr.foldl (TaskRow.write keep) p).status = .failed

/-- The run of these nodes ends in failure: it is cancelled, or a node that can be run panics or
fails. -/
def Aborts (env : Env Step) (task : TaskInfo) (nodes : List (TaskNode Step)) : Prop :=
  env.canceledAtEnd = true ∨ ∃ x, Waves.Startable (ids nodes) (depsOf nodes) x ∧
    (env.panics x ≠ none ∨ fails env task nodes x = true)

/-! ## What is written -/

section Writes

variable {keep : Bool} {p : TaskRow Step} {rows : List (NodeRow Step)} {row : NodeRow Step}
  {x : String}

@[simp] theorem upsertRow_nodeId (old row : NodeRow Step) :
    (upsertRow keep old row).nodeId = row.nodeId := by
  cases keep <;> rfl

@[simp] theorem upsertRow_status (old row : NodeRow Step) :
    (upsertRow keep old row).status = row.status := by
  cases keep <;> rfl

theorem find?_upsertNode (rows : List (NodeRow Step)) (row : NodeRow Step) (x : String) :
    (upsertNode keep rows row).find? (fun r => r.nodeId = x) =
      if row.nodeId = x then
        some (((rows.find? fun r => r.nodeId = x).map fun old => upsertRow keep old row).getD row)
      else rows.find? fun r => r.nodeId = x := by
  induction rows with
  | nil =>
    rw [upsertNode, List.find?_cons]
    rcases eq_or_ne row.nodeId x with hx | hx <;> simp [hx]
  | cons old rows ih =>
    rw [upsertNode]
    rcases eq_or_ne old.nodeId row.nodeId with ho | ho
    · rw [if_pos ho]
      rcases eq_or_ne row.nodeId x with hx | hx
      · simp [hx, ho.trans hx]
      · have hox : old.nodeId ≠ x := fun hc => hx (ho.symm.trans hc)
        simp [hx, hox]
    · rw [if_neg ho, List.find?_cons, List.find?_cons, ih]
      rcases eq_or_ne row.nodeId x with hx | hx
      · have hox : old.nodeId ≠ x := fun hc => ho (hc.trans hx.symm)
        simp [hx, hox]
      · rw [if_neg hx, if_neg hx]

theorem ids_upsertNode (rows : List (NodeRow Step)) (row : NodeRow Step) :
    (upsertNode keep rows row).map NodeRow.nodeId =
      if row.nodeId ∈ rows.map NodeRow.nodeId then rows.map NodeRow.nodeId
      else rows.map NodeRow.nodeId ++ [row.nodeId] := by
  induction rows with
  | nil => rfl
  | cons old rows ih =>
    rw [upsertNode]
    rcases eq_or_ne old.nodeId row.nodeId with ho | ho
    · simp [ho]
    · rw [if_neg ho, List.map_cons, ih, List.map_cons]
      rcases Decidable.em (row.nodeId ∈ rows.map NodeRow.nodeId) with hm | hm
      · rw [if_pos hm, if_pos (List.mem_cons_of_mem _ hm)]
      · rw [if_neg hm, if_neg]
        · rfl
        · intro hc
          exact (List.mem_cons.1 hc).elim (fun h => ho h.symm) hm

/-- The status that an event gives a node. -/
def Event.statusFor (x : String) : Event Step → Option TaskStatus
  | .node row => if row.nodeId = x then some row.status else none
  | _ => none

theorem statusOf_write (p : TaskRow Step) (e : Event Step) (x : String) :
    (p.write keep e).statusOf x = (e.statusFor x).or (p.statusOf x) := by
  cases e with
  | start y k => rfl
  | task s => rfl
  | node row =>
    rw [TaskRow.statusOf, TaskRow.find, TaskRow.write, find?_upsertNode, Event.statusFor]
    rcases eq_or_ne row.nodeId x with hx | hx
    · rw [if_pos hx, if_pos hx]
      cases p.nodes.find? fun r => r.nodeId = x with
      | none => rfl
      | some old => simp
    · rw [if_neg hx, if_neg hx]
      rfl

/-- The last write of a row is the one that is there. -/
theorem statusOf_foldl (p : TaskRow Step) (es : List (Event Step)) (x : String) :
    (es.foldl (TaskRow.write keep) p).statusOf x =
      ((es.filterMap (Event.statusFor x)).getLast?).or (p.statusOf x) := by
  induction es generalizing p with
  | nil => rfl
  | cons e es ih =>
    rw [List.foldl_cons, ih, statusOf_write, List.filterMap_cons]
    cases e.statusFor x with
    | none => rfl
    | some s =>
      rw [List.getLast?_cons]
      cases (es.filterMap (Event.statusFor x)).getLast? <;> rfl

theorem statusFor_eq_some {e : Event Step} {s : TaskStatus} (h : e.statusFor x = some s) :
    ∃ row, e = .node row ∧ row.nodeId = x ∧ row.status = s := by
  cases e with
  | node row =>
    rw [Event.statusFor] at h
    split at h
    · next hx => exact ⟨row, rfl, hx, Option.some.inj h⟩
    · cases h
  | _ => cases h

/-- A node of which no row is written keeps its status. -/
theorem statusOf_foldl_of_not_mem {es : List (Event Step)}
    (h : ∀ row, .node row ∈ es → row.nodeId ≠ x) :
    (es.foldl (TaskRow.write keep) p).statusOf x = p.statusOf x := by
  have hnil : es.filterMap (Event.statusFor x) = [] := by
    refine List.filterMap_eq_nil_iff.2 fun e he => ?_
    cases hs : e.statusFor x with
    | none => rfl
    | some s =>
      obtain ⟨row, rfl, hx, -⟩ := statusFor_eq_some hs
      exact absurd hx (h row he)
  rw [statusOf_foldl, hnil]
  rfl

/-- When the rows of a node are all the same, it has their status. -/
theorem statusOf_foldl_of_mem {es : List (Event Step)} (hrow : .node row ∈ es)
    (h : ∀ row', .node row' ∈ es → row'.nodeId = row.nodeId → row' = row) :
    (es.foldl (TaskRow.write keep) p).statusOf row.nodeId = some row.status := by
  have hmem : row.status ∈ es.filterMap (Event.statusFor row.nodeId) :=
    List.mem_filterMap.2 ⟨_, hrow, if_pos rfl⟩
  obtain ⟨s, hs⟩ : ∃ s, (es.filterMap (Event.statusFor row.nodeId)).getLast? = some s :=
    Option.isSome_iff_exists.1 (by
      rw [List.getLast?_isSome]
      exact List.ne_nil_of_mem hmem)
  obtain ⟨e, he, hse⟩ := List.mem_filterMap.1 (List.mem_of_getLast? hs)
  obtain ⟨row', rfl, hid, rfl⟩ := statusFor_eq_some hse
  rw [statusOf_foldl, hs, h row' he hid]
  rfl

/-- The status of the task is the last one written. -/
theorem status_foldl_append (p : TaskRow Step) (es : List (Event Step)) (s : TaskStatus) :
    ((es ++ [Event.task s]).foldl (TaskRow.write keep) p).status = s := by
  rw [List.foldl_append]
  rfl

end Writes

/-! ## What is there after a crash -/

section Picture

variable {keep : Bool} {nodes : List (TaskNode Step)} {S : String → Prop} {p : TaskRow Step}
  {rows : List (NodeRow Step)} {task : TaskInfo}

/-- The store after a crash: the rows are those of the nodes, without dependencies that are in `S`,
and the nodes in `S` are successes. -/
structure Picture (nodes : List (TaskNode Step)) (S : String → Prop) (p : TaskRow Step) : Prop where
  nodup : (p.nodes.map NodeRow.nodeId).Nodup
  status : p.status = .pending ∨ p.status = .running ∨ p.status = .success ∨ p.status = .failed
  node : ∀ x r, p.find x = some r → ∃ n ∈ nodes, n.id = x ∧ (∀ d ∈ r.deps, d ∈ n.deps) ∧
    ∀ d ∈ n.deps, d ∈ r.deps ∨ S d
  kept : ∀ x, S x → p.statusOf x = some .success

theorem find_nodeId {x : String} {r : NodeRow Step} (h : p.find x = some r) : r.nodeId = x := by
  simpa using List.find?_some h

/-- Every success may be counted in. -/
theorem Picture.all (h : Picture nodes S p) :
    Picture nodes (fun x => p.statusOf x = some .success) p where
  nodup := h.nodup
  status := h.status
  node := by
    intro x r hr
    obtain ⟨n, hn, hid, h1, h2⟩ := h.node x r hr
    exact ⟨n, hn, hid, h1, fun d hd => (h2 d hd).imp_right (h.kept d)⟩
  kept := fun _ hx => hx

/-- A write for a node that is not in `S`. -/
theorem Picture.write (h : Picture nodes S p) {e : Event Step}
    (hrow : ∀ row, e = .node row → ¬S row.nodeId ∧ ∃ n ∈ nodes, n.id = row.nodeId ∧
      (∀ d ∈ row.deps, d ∈ n.deps) ∧ ∀ d ∈ n.deps, d ∈ row.deps ∨ S d)
    (htask : ∀ s, e = .task s → s = .running ∨ s = .success ∨ s = .failed) :
    Picture nodes S (p.write keep e) := by
  cases e with
  | start y k => exact h
  | task s => exact ⟨h.nodup, .inr (htask s rfl), h.node, h.kept⟩
  | node row =>
    obtain ⟨hS, n, hn, hid, h1, h2⟩ := hrow row rfl
    refine ⟨?_, h.status, fun x r hr => ?_, fun x hx => ?_⟩
    · rw [TaskRow.write, ids_upsertNode]
      split
      · exact h.nodup
      · next hnew =>
        exact List.nodup_append'.2 ⟨h.nodup, List.nodup_singleton _,
          List.disjoint_singleton.2 hnew⟩
    · rw [TaskRow.find, TaskRow.write, find?_upsertNode] at hr
      split at hr
      · next hx =>
        subst hx
        cases hold : p.nodes.find? fun r => r.nodeId = row.nodeId with
        | none =>
          rw [hold] at hr
          cases hr
          exact ⟨n, hn, hid, h1, h2⟩
        | some old =>
          rw [hold] at hr
          cases hr
          cases keep with
          | false => exact ⟨n, hn, hid, h1, h2⟩
          | true => exact h.node row.nodeId old hold
      · exact h.node x r hr
    · rw [statusOf_write, Event.statusFor, if_neg]
      · exact h.kept x hx
      · rintro rfl
        exact hS hx

/-- Writes for nodes that are not in `S`. -/
theorem Picture.foldl (h : Picture nodes S p) {run : List (TaskNode Step)} {tr : List (Event Step)}
    (hrun : ∀ n ∈ run, ¬S n.id ∧ ∃ m ∈ nodes, m.id = n.id ∧
      (∀ d ∈ n.deps, d ∈ m.deps) ∧ ∀ d ∈ m.deps, d ∈ n.deps ∨ S d)
    (hrow : ∀ row, .node row ∈ tr → ∃ n ∈ run, ∃ r : NodeResult, row = n.row r)
    (htask : ∀ s, .task s ∈ tr → s = .running ∨ s = .success ∨ s = .failed) :
    Picture nodes S (tr.foldl (TaskRow.write keep) p) := by
  induction tr generalizing p with
  | nil => exact h
  | cons e tr ih =>
    rw [List.foldl_cons]
    refine ih (h.write (fun row he => ?_) fun s he => htask s (he ▸ List.mem_cons_self))
      (fun row hx => hrow row (List.mem_cons_of_mem _ hx))
      fun s hx => htask s (List.mem_cons_of_mem _ hx)
    obtain ⟨n, hn, r, rfl⟩ := hrow row (he ▸ List.mem_cons_self)
    exact hrun n hn

theorem Picture.find_of_mem (h : Picture nodes S p) {r : NodeRow Step} (hr : r ∈ p.nodes) :
    p.find r.nodeId = some r := by
  cases hf : p.find r.nodeId with
  | none => simpa using List.find?_eq_none.1 hf r hr
  | some r' =>
    have hr' : r' ∈ p.nodes := List.mem_of_find?_eq_some hf
    rw [List.inj_on_of_nodup_map h.nodup hr' hr (find_nodeId hf)]

theorem Picture.mem_succeeded (h : Picture nodes S p) (hrows : rows.Perm p.nodes) {x : String} :
    x ∈ succeeded rows ↔ p.statusOf x = some .success := by
  rw [succeeded, List.mem_map]
  constructor
  · rintro ⟨r, hr, rfl⟩
    obtain ⟨hr, hs⟩ := List.mem_filter.1 hr
    rw [TaskRow.statusOf, h.find_of_mem (hrows.mem_iff.1 hr), Option.map_some]
    exact congrArg some (by simpa using hs)
  · intro hx
    obtain ⟨r, hr, hs⟩ := Option.map_eq_some_iff.1 hx
    refine ⟨r, List.mem_filter.2 ⟨?_, by simpa using hs⟩, find_nodeId hr⟩
    exact hrows.mem_iff.2 (List.mem_of_find?_eq_some hr)

/-- A node that is resumed. -/
theorem Picture.mem_toRun (h : Picture nodes S p) (hrows : rows.Perm p.nodes) {n : TaskNode Step}
    (hn : n ∈ toRun rows) :
    p.statusOf n.id ≠ some .success ∧ (∀ d ∈ n.deps, p.statusOf d ≠ some .success) ∧
      ∃ m ∈ nodes, m.id = n.id ∧ (∀ d ∈ n.deps, d ∈ m.deps) ∧
        ∀ d ∈ m.deps, d ∈ n.deps ∨ p.statusOf d = some .success := by
  obtain ⟨r, hr, rfl⟩ := List.mem_map.1 hn
  obtain ⟨hr, hs⟩ := List.mem_filter.1 hr
  have hfind := h.find_of_mem (hrows.mem_iff.1 hr)
  have hdeps : ∀ d, d ∈ r.deps.filter (· ∉ succeeded rows) ↔
      d ∈ r.deps ∧ p.statusOf d ≠ some .success := by
    intro d
    simp [h.mem_succeeded hrows]
  refine ⟨?_, fun d hd => ((hdeps d).1 hd).2, ?_⟩
  · show p.statusOf r.nodeId ≠ some .success
    rw [TaskRow.statusOf, hfind, Option.map_some]
    intro hc
    rw [Option.some.inj hc] at hs
    simp at hs
  · obtain ⟨m, hm, hid, h1, h2⟩ := h.node _ r hfind
    refine ⟨m, hm, hid, fun d hd => h1 d ((hdeps d).1 hd).1, fun d hd => ?_⟩
    rcases h2 d hd with hx | hx
    · rcases Decidable.em (p.statusOf d = some .success) with hsd | hsd
      · exact .inr hsd
      · exact .inl ((hdeps d).2 ⟨hx, hsd⟩)
    · exact .inr (h.kept d hx)

theorem Picture.nodup_toRun (h : Picture nodes S p) (hrows : rows.Perm p.nodes) :
    (ids (toRun rows)).Nodup := by
  have hids : ids (toRun rows) =
      (rows.filter fun r => r.status = .pending ∨ r.status = .running).map NodeRow.nodeId := by
    rw [ids, toRun, List.map_map]
    rfl
  rw [hids]
  exact (List.filter_sublist.map NodeRow.nodeId).nodup
    ((hrows.map NodeRow.nodeId).nodup_iff.2 h.nodup)

/-- Nodes that are resumed form no cycle either. -/
theorem Picture.acyclic_toRun (hnd : (ids nodes).Nodup)
    (hacyc : Waves.Acyclic (ids nodes) (depsOf nodes)) (h : Picture nodes S p)
    (hrows : rows.Perm p.nodes) : Waves.Acyclic (ids (toRun rows)) (depsOf (toRun rows)) := by
  have hdep : ∀ a d, Waves.Dep (ids (toRun rows)) (depsOf (toRun rows)) a d →
      Waves.Dep (ids nodes) (depsOf nodes) a d := by
    rintro a d ⟨ha, hd⟩
    obtain ⟨n, hn, rfl⟩ := mem_ids.1 ha
    rw [depsOf_id (h.nodup_toRun hrows) hn] at hd
    obtain ⟨-, -, m, hm, hid, hsub, -⟩ := h.mem_toRun hrows hn
    rw [← hid]
    refine ⟨mem_ids.2 ⟨m, hm, rfl⟩, ?_⟩
    rw [depsOf_id hnd hm]
    exact hsub d hd
  exact fun a ha => hacyc a (Relation.TransGen.mono hdep _ _ ha)

/-- What a run writes. -/
theorem execute_writes {env : Env Step} {seed : String → Option NodeResult} {fuel : Nat}
    {out : Outcome Step} (hperm : ∀ wave l, (env.completion wave l).Perm l)
    (hnd : (ids nodes).Nodup) (hacyc : Waves.Acyclic (ids nodes) (depsOf nodes))
    (hrun : execute env task seed nodes fuel = some out) :
    (∀ row, .node row ∈ out.trace → ∃ n ∈ nodes, ∃ r : NodeResult, row = n.row r) ∧
      ∀ s, .task s ∈ out.trace → s = .running ∨ s = .success ∨ s = .failed := by
  obtain ⟨st', out', hrun', hout, hl, -⟩ := execute_cases hperm hnd hacyc task seed
  have heq : out = out' := by
    have h1 := execute_mono hrun (Nat.le_max_left fuel (nodes.length + 1))
    rw [hrun' _ (by omega)] at h1
    exact (Option.some.inj h1).symm
  subst heq
  subst hout
  constructor
  · intro row hx
    obtain ⟨n, hn, r, hr, -⟩ := hl.rows row (by simpa [finishTask] using hx)
    exact ⟨n, hn, r, hr⟩
  · intro s hs
    rcases List.mem_append.1 hs with hs | hs
    · exact .inl (hl.tasks s hs)
    · cases List.mem_singleton.1 hs
      split
      · exact .inr (.inr rfl)
      · exact .inr (.inl rfl)

/-- What is resumed is a run of the nodes that are pending, or nothing. -/
theorem resumePending_cases {leader : Option Bool} {live : Option TaskStatus} {env : Env Step}
    {fuel : Nat} {tr : List (Event Step)}
    (h : resumePending leader live env task p rows fuel = some tr) :
    tr = [] ∨ ∃ out, execute env task (seedResults rows) (toRun rows) fuel = some out ∧
      tr = out.trace := by
  have hone : ∀ {tr}, resumeOne env task rows fuel = some tr → tr = [] ∨
      ∃ out, execute env task (seedResults rows) (toRun rows) fuel = some out ∧
        tr = out.trace := by
    intro tr h
    unfold resumeOne at h
    split at h
    · cases h
      exact .inl rfl
    · obtain ⟨out, ho, rfl⟩ := Option.map_eq_some_iff.1 h
      exact .inr ⟨out, ho, rfl⟩
  unfold resumePending at h
  split at h
  · cases h
    exact .inl rfl
  · split at h
    · cases h
      exact .inl rfl
    · cases live with
      | none => exact hone h
      | some status =>
        dsimp only at h
        split at h
        · cases h
          exact .inl rfl
        · exact hone h

theorem find_submitted (nodes : List (TaskNode Step)) (x : String) :
    (submitted nodes).find x = (nodes.find? fun n => n.id = x).map fun n =>
      ⟨n.id, n.name, n.deps, n.steps, .pending, "", 0, n.retries, n.timeoutSecs⟩ := by
  rw [TaskRow.find, submitted, List.find?_map]
  rfl

theorem submitted_picture (hnd : (ids nodes).Nodup) :
    Picture nodes (fun _ => False) (submitted nodes) where
  nodup := by
    rw [submitted, List.map_map]
    exact hnd
  status := .inl rfl
  node := by
    intro x r hr
    rw [find_submitted] at hr
    obtain ⟨n, hn, rfl⟩ := Option.map_eq_some_iff.1 hr
    exact ⟨n, List.mem_of_find?_eq_some hn, by simpa using List.find?_some hn, fun d hd => hd,
      fun d hd => .inl hd⟩
  kept := fun _ hx => hx.elim

theorem drafted_picture (nodes : List (TaskNode Step)) :
    Picture nodes (fun _ => False) drafted where
  nodup := List.nodup_nil
  status := .inl rfl
  node := fun _ _ hr => by cases hr
  kept := fun _ hx => hx.elim

/-- Whatever crashes there were, the store is a picture of the nodes. -/
theorem Crashed.picture (hnd : (ids nodes).Nodup)
    (hacyc : Waves.Acyclic (ids nodes) (depsOf nodes)) (h : Crashed keep task nodes p) :
    ∃ S, Picture nodes S p := by
  induction h with
  | submitted => exact ⟨_, submitted_picture hnd⟩
  | @executed env p seed fuel out k henv hp hrun =>
    obtain ⟨hrow, htask⟩ := execute_writes henv.completion hnd hacyc hrun
    have hpic : Picture nodes (fun _ => False) p := by
      rcases hp with rfl | rfl
      · exact submitted_picture hnd
      · exact drafted_picture nodes
    refine ⟨_, hpic.foldl (fun n hn => ⟨id, n, hn, rfl, fun _ hd => hd, fun _ hd => .inl hd⟩)
      (fun row hx => hrow row (List.mem_of_mem_take hx))
      fun s hs => htask s (List.mem_of_mem_take hs)⟩
  | @resumed env p rows fuel live leader tr k hp henv hrows hrun ih =>
    obtain ⟨S, hpic⟩ := ih
    rcases resumePending_cases hrun with rfl | ⟨out, hout, rfl⟩
    · rw [List.take_nil]
      exact ⟨S, hpic⟩
    · obtain ⟨hrow, htask⟩ := execute_writes henv.completion (hpic.nodup_toRun hrows)
        (hpic.acyclic_toRun hnd hacyc hrows) hout
      refine ⟨_, hpic.all.foldl (fun n hn => ?_)
        (fun row hx => hrow row (List.mem_of_mem_take hx))
        fun s hs => htask s (List.mem_of_mem_take hs)⟩
      obtain ⟨h1, -, h2⟩ := hpic.mem_toRun hrows hn
      exact ⟨h1, h2⟩

end Picture

/-! ## What resuming does -/

section Resume

variable {keep : Bool} {nodes : List (TaskNode Step)} {S : String → Prop} {p : TaskRow Step}
  {rows : List (NodeRow Step)} {task : TaskInfo} {env : Env Step} {tr : List (Event Step)}

/-- A resumed node is started after its dependencies have succeeded, those that had before
included. -/
theorem Picture.afterDeps (h : Picture nodes S p) (hrows : rows.Perm p.nodes)
    (hl : Loose (toRun rows) tr) {i k : Nat} {x : String}
    (hi : tr[i]? = some (Event.start x k)) :
    ∃ n ∈ nodes, n.id = x ∧ ∀ d ∈ n.deps,
      ((tr.take i).foldl (TaskRow.write keep) p).statusOf d = some .success := by
  obtain ⟨n, hn, rfl, hdeps⟩ := hl.ordered i x k hi
  obtain ⟨-, -, m, hm, hid, -, hm2⟩ := h.mem_toRun hrows hn
  have htake : ∀ row, .node row ∈ tr.take i → .node row ∈ tr := fun row hx =>
    List.mem_of_mem_take hx
  refine ⟨m, hm, hid, fun d hd => ?_⟩
  rcases hm2 d hd with hx | hx
  · obtain ⟨j, hj, row, hrow, rfl, hs⟩ := hdeps d hx
    have hmem : .node row ∈ tr.take i := by
      refine List.mem_of_getElem? (i := j) ?_
      rw [List.getElem?_take_of_lt hj, hrow]
    rw [statusOf_foldl_of_mem hmem fun row' hrow' hid' =>
      hl.agree row' row (htake row' hrow') (htake row hmem) hid', hs]
  · rw [statusOf_foldl_of_not_mem, hx]
    intro row hrow hid'
    obtain ⟨n', hn', r, hr, -⟩ := hl.rows row (htake row hrow)
    subst hr
    subst hid'
    exact (h.mem_toRun hrows hn').1 hx

/-- When the run of the pending nodes ends in success, the nodes that are successes are those that
were and those that were run. -/
theorem Picture.success_iff (h : Picture nodes S p) (hrows : rows.Perm p.nodes)
    {seed : String → Option NodeResult} {run : List String} {st : Exec Step}
    (hsound : Waves.Sound (ids (toRun rows)) (depsOf (toRun rows))
      (fails env task (toRun rows)) run)
    (hok : ∀ x ∈ run, fails env task (toRun rows) x = false)
    (hl : Last env task (toRun rows) seed run false st) (x : String) :
    (st.trace.foldl (TaskRow.write keep) p).statusOf x = some .success ↔
      p.statusOf x = some .success ∨ x ∈ run := by
  have hnd := h.nodup_toRun hrows
  have hloose : Loose (toRun rows) st.trace :=
    hl.traced.loose hnd hsound.mem fun _ hx => absurd hx List.not_mem_nil
  rcases Decidable.em (x ∈ run) with hx | hx
  · obtain ⟨n, hn, rfl⟩ := mem_ids.1 (hsound.mem x hx)
    have hrow := hl.traced.ended n hn hx
    have hst : (st.trace.foldl (TaskRow.write keep) p).statusOf n.id =
        some (own env task n).status :=
      statusOf_foldl_of_mem hrow fun row' hrow' hid => hloose.agree row' _ hrow' hrow hid
    rw [hst, own_success hnd hn (hok n.id hx)]
    simp [hx]
  · rw [statusOf_foldl_of_not_mem]
    · simp [hx]
    · rintro row hrow rfl
      obtain ⟨n, -, ⟨hd, rfl⟩ | ⟨hd, -⟩⟩ := hl.traced.rows row hrow
      · exact hx hd
      · cases hd

/-- What a resumed run leaves is sound when it does not end in success too early. -/
theorem Picture.soundResume (h : Picture nodes S p) (hrows : rows.Perm p.nodes)
    (hl : Loose (toRun rows) tr) {s : TaskStatus} (hs : s = .success ∨ s = .failed) :
    SoundResume keep nodes p (tr ++ [.task s]) ↔ (s = .success → ∀ n ∈ nodes,
      (tr.foldl (TaskRow.write keep) p).statusOf n.id = some .success) := by
  have hstart : ∀ x k, Event.start x k ∈ tr ++ [.task s] → Event.start x k ∈ tr := by
    intro x k hx
    simpa using hx
  have hstatus : ∀ x, ((tr ++ [Event.task s]).foldl (TaskRow.write keep) p).statusOf x =
      (tr.foldl (TaskRow.write keep) p).statusOf x := by
    intro x
    rw [List.foldl_append]
    rfl
  constructor
  · rintro hr rfl n hn
    rw [← hstatus]
    exact hr.success (List.mem_append_right _ List.mem_cons_self) n hn
  · intro hok
    refine ⟨fun hx n hn => ?_, fun i x k hi => ?_, fun x k hx => ?_, ?_⟩
    · rw [hstatus]
      rcases List.mem_append.1 hx with hx | hx
      · cases hl.tasks _ hx
      · cases List.mem_singleton.1 hx
        exact hok rfl n hn
    · have hlt : i < tr.length := by
        by_contra hge
        rw [List.getElem?_append_right (by omega)] at hi
        have := List.mem_of_getElem? hi
        simp at this
      rw [List.getElem?_append_left hlt] at hi
      rw [List.take_append_of_le_length hlt.le]
      exact h.afterDeps hrows hl hi
    · obtain ⟨i, hi⟩ := List.getElem?_of_mem (hstart x k hx)
      obtain ⟨n, hn, rfl, -⟩ := hl.ordered i x k hi
      exact (h.mem_toRun hrows hn).1
    · rw [status_foldl_append]
      exact hs

/-- The run of some nodes ends in failure exactly when it aborts. Otherwise all nodes are run that can
be, and none of them fails. -/
theorem execute_fair (henv : env.Fair) (hnd : (ids nodes).Nodup)
    (hacyc : Waves.Acyclic (ids nodes) (depsOf nodes)) (task : TaskInfo)
    (seed : String → Option NodeResult) :
    ∃ st s, (∀ fuel, nodes.length < fuel →
        execute env task seed nodes fuel = some (finishTask st s)) ∧ Loose nodes st.trace ∧
      (s = .failed ∧ Aborts env task nodes ∨
        s = .success ∧ ¬Aborts env task nodes ∧ ∃ run, Last env task nodes seed run false st ∧
          Waves.Sound (ids nodes) (depsOf nodes) (fails env task nodes) run ∧
          (∀ x ∈ run, fails env task nodes x = false) ∧
          ∀ x, Waves.Startable (ids nodes) (depsOf nodes) x → x ∈ run) := by
  obtain ⟨st, out, hrun, rfl, hloose, hcases⟩ := execute_cases henv.completion hnd hacyc task seed
  refine ⟨st, _, hrun, hloose, ?_⟩
  cases hend : env.canceledAtEnd with
  | true =>
    rw [Bool.or_true, if_pos rfl]
    exact .inl ⟨rfl, .inl hend⟩
  | false =>
    rw [Bool.or_false]
    obtain ⟨run, failed, hp, hl, hcalm⟩ | ⟨wave, hc⟩ | ⟨hf, x, hx, hpanic⟩ := hcases
    · obtain ⟨hs, hfail, hok⟩ := Waves.plan_sound hnd Waves.sound_nil (by simp) hp
      rw [hl.failed_eq]
      cases failed with
      | true =>
        obtain ⟨x, hx, hfx⟩ := hfail rfl
        exact .inl ⟨if_pos rfl, .inr ⟨x, hs.startable x hx, .inr hfx⟩⟩
      | false =>
        obtain ⟨hnone, hall⟩ := hok rfl
        refine .inr ⟨if_neg Bool.false_ne_true, ?_, run, hl, hs, hnone, hall⟩
        rintro (hc | ⟨x, hx, hpanic | hfx⟩)
        · rw [hend] at hc
          cases hc
        · exact hpanic (hcalm x (hall x hx))
        · rw [hnone x (hall x hx)] at hfx
          cases hfx
    · obtain ⟨h1, h2⟩ := henv.canceled hend wave
      obtain hc | ⟨x, hc⟩ := hc
      · rw [h1] at hc
        cases hc
      · rw [h2 x] at hc
        cases hc
    · rw [if_pos hf]
      exact .inl ⟨rfl, .inr ⟨x, hx, .inl hpanic⟩⟩

/-- **Resuming after a crash.** The scan goes through the pending nodes of a task that has not
ended, and ends. What it leaves is sound exactly when the task had ended before, or there is a node to
run and either every node of the task is a success or can be run, or the run fails. -/
theorem Crashed.soundResume_iff (hnd : (ids nodes).Nodup)
    (hacyc : Waves.Acyclic (ids nodes) (depsOf nodes)) (h : Crashed keep task nodes p)
    (henv : env.Fair) (hrows : rows.Perm p.nodes) {leader : Option Bool} {live : Option TaskStatus}
    (hleader : leader ≠ some false)
    (hlive : ∀ status, live = some status → status = .success ∨ status = .failed) :
    ∃ tr, (∀ fuel, rows.length < fuel →
        resumePending leader live env task p rows fuel = some tr) ∧
      (SoundResume keep nodes p tr ↔
        (p.status = .success ∨ p.status = .failed) ∨
          toRun rows ≠ [] ∧
            ((∀ n ∈ nodes, p.statusOf n.id = some .success ∨
                Waves.Startable (ids (toRun rows)) (depsOf (toRun rows)) n.id) ∨
              Aborts env task (toRun rows))) := by
  obtain ⟨S, hpic⟩ := h.picture hnd hacyc
  have hnothing : SoundResume keep nodes p [] ↔ p.status = .success ∨ p.status = .failed :=
    ⟨fun hs => hs.ended, fun hs => ⟨fun hx => (by cases hx), fun i x k hi => (by cases hi),
      fun x k hx => (by cases hx), hs⟩⟩
  have hresume : p.status = .pending ∨ p.status = .running → ∀ fuel,
      resumePending leader live env task p rows fuel = resumeOne env task rows fuel := by
    intro hp fuel
    unfold resumePending
    rw [if_neg hleader, if_neg (by rcases hp with hp | hp <;> simp [hp])]
    cases live with
    | none => rfl
    | some status =>
      dsimp only
      rw [if_neg]
      rcases hlive status rfl with rfl | rfl <;> simp
  rcases (or_assoc.2 hpic.status) with hopen | hend
  · rcases eq_or_ne (toRun rows) [] with hnil | hne
    · refine ⟨[], fun fuel _ => ?_, ?_⟩
      · rw [hresume hopen, resumeOne, hnil]
        rfl
      · rw [hnothing]
        simp [hnil]
    · obtain ⟨st, s, hrun, hl, hs⟩ := execute_fair henv (hpic.nodup_toRun hrows)
        (hpic.acyclic_toRun hnd hacyc hrows) task (seedResults rows)
      refine ⟨st.trace ++ [.task s], fun fuel hfuel => ?_, ?_⟩
      · have hlen : (toRun rows).length ≤ rows.length := by
          rw [toRun, List.length_map]
          exact List.length_filter_le _ _
        rw [hresume hopen, resumeOne, if_neg (by simpa using hne), hrun fuel (by omega)]
        rfl
      · have hend : ¬(p.status = .success ∨ p.status = .failed) := by
          rcases hopen with hp | hp <;> simp [hp]
        rw [hpic.soundResume hrows hl (hs.symm.imp And.left And.left), or_iff_right hend,
          and_iff_right hne]
        rcases hs with ⟨rfl, hab⟩ | ⟨rfl, hab, run, hlast, hsound, hok, hall⟩
        · exact ⟨fun _ => .inr hab, fun _ hc => by cases hc⟩
        · have hmem : ∀ x, x ∈ run ↔
              Waves.Startable (ids (toRun rows)) (depsOf (toRun rows)) x := fun x =>
            ⟨hsound.startable x, hall x⟩
          rw [or_iff_left hab]
          simp only [forall_const, hpic.success_iff hrows hsound hok hlast, hmem]
  · refine ⟨[], fun fuel _ => ?_, ?_⟩
    · unfold resumePending
      rw [if_neg hleader, if_pos]
      rcases hend with hend | hend <;> simp [hend]
    · rw [hnothing]
      simp [hend]

end Resume

section Example

/-- In the submitted chain all nodes can be run. -/
theorem chain_soundResume :
    ∃ tr, (∀ fuel, 2 < fuel → resumePending none none (calmEnv fun _ _ => .ok "done") ⟨"t", "i"⟩
        (submitted chain) (submitted chain).nodes fuel = some tr) ∧
      SoundResume false chain (submitted chain) tr := by
  have hstart : ∀ n ∈ chain, Waves.Startable (ids chain) (depsOf chain) n.id := by
    intro n hn
    refine Waves.startable_of_acyclic (fun x hx d hd => ?_) chain_acyclic n.id
      (mem_ids.2 ⟨n, hn, rfl⟩)
    obtain ⟨m, hm, rfl⟩ := mem_ids.1 hx
    rw [depsOf_id (by decide) hm] at hd
    exact chain_closed m hm d hd
  have hcrash : Crashed false ⟨"t", "i"⟩ chain (submitted chain) := .submitted
  have hleader : (none : Option Bool) ≠ some false := by simp
  have hlive : ∀ status, (none : Option TaskStatus) = some status →
      status = .success ∨ status = .failed := by simp
  obtain ⟨tr, hrun, hiff⟩ := hcrash.soundResume_iff (by decide) chain_acyclic
    (calmEnv_calm fun _ _ => .ok "done").fair (.refl _) hleader hlive
  exact ⟨tr, hrun, hiff.2 (.inr ⟨by simp [toRun, submitted, chain],
    .inl fun n hn => .inr (hstart n hn)⟩)⟩

/-- The store after a crash between the rows of `a`, which failed, and `b`, which was to be
skipped. -/
def halfFailed : TaskRow Unit :=
  ⟨.running, [⟨"a", "a", [], [()], .failed, "[第 2 次尝试失败] boom", 2, 1, none⟩,
    ⟨"b", "b", ["a"], [()], .pending, "", 0, 0, none⟩]⟩

theorem halfFailed_crashed : Crashed false ⟨"t", "i"⟩ chain halfFailed := by
  have hrun : ∃ out, execute (calmEnv fun _ _ => .error "boom") ⟨"t", "i"⟩ (fun _ => none) chain 3 =
      some out ∧ (out.trace.take 4).foldl (TaskRow.write false) (submitted chain) = halfFailed :=
    ⟨_, rfl, rfl⟩
  obtain ⟨out, hout, heq⟩ := hrun
  rw [← heq]
  exact Crashed.executed 3 (calmEnv_calm fun _ _ => .error "boom").fair (.inl rfl) hout

/-- The task is marked as a success although `a` failed and `b` never ran. -/
theorem halfFailed_success :
    (ids chain).Nodup ∧ Waves.Acyclic (ids chain) (depsOf chain) ∧
      Crashed false ⟨"t", "i"⟩ chain halfFailed ∧
      ∃ tr, resumePending none none (calmEnv fun _ _ => .ok "done") ⟨"t", "i"⟩ halfFailed
          halfFailed.nodes 3 = some tr ∧
        .task .success ∈ tr ∧
        (tr.foldl (TaskRow.write false) halfFailed).statusOf "a" = some .failed ∧
        (tr.foldl (TaskRow.write false) halfFailed).statusOf "b" = some .pending ∧
        ¬SoundResume false chain halfFailed tr := by
  refine ⟨by decide, chain_acyclic, halfFailed_crashed, [.task .running, .task .success], rfl,
    by simp, rfl, rfl, fun h => ?_⟩
  have ha : some TaskStatus.failed = some TaskStatus.success :=
    h.success (by simp) ⟨"a", "a", [], 1, none, [()]⟩ (by simp [chain])
  cases ha

end Example

end Rdsctl.Dag
