import Rdsctl.Dag.Resume
import Rdsctl.Dag.Live
import Rdsctl.Lib.Run
import Rdsctl.Lib.Table

/-!
# The persisted definition of a task

What `task_definition` of `src/store.rs` answers while a task of `src/dag.rs` goes through its life.
The rows of its nodes are written by `submit`, one after the other, and again by `persist_node` when
a node has ended; a draft is in memory only until `start_draft`, so that its rows appear as its nodes
end. A run that `resume_one` begins writes the nodes as it was given them, without the dependencies
that had succeeded before: one store takes those over, the other one keeps what the first write of
the row said.

So the definition is the one that the task was accepted with exactly when every node has been
written and, in the store that replaces rows, the last run that wrote a node was given all of its
dependencies (`stored_iff`). `TaskLife` follows one task. Its writes are those of `execute`, in the
order of the trace; any number of runs of the task may write in turn, since a run may go on in one
replica while another one takes the task up.
-/

namespace Rdsctl.Dag

variable {Step : Type}

/-! ## What a run writes -/

section Written

variable {nodes : List (TaskNode Step)} {env : Env Step} {task : TaskInfo} {st st' : Exec Step}

/-- The rows that a run writes are those of its nodes, and it begins by marking the task. -/
structure Written (nodes : List (TaskNode Step)) (st : Exec Step) : Prop where
  head : ∃ es, st.trace = .task .running :: es
  rows : ∀ row, .node row ∈ st.trace → ∃ n ∈ nodes, ∃ r : NodeResult, row = n.row r
  ready : ∀ n ∈ st.ready, n ∈ nodes

theorem Written.append (h : Written nodes st) {es : List (Event Step)}
    (ht : st'.trace = st.trace ++ es)
    (hes : ∀ row, .node row ∈ es → ∃ n ∈ nodes, ∃ r : NodeResult, row = n.row r)
    (hready : ∀ n ∈ st'.ready, n ∈ nodes) : Written nodes st' := by
  obtain ⟨es', hhead⟩ := h.head
  refine ⟨⟨es' ++ es, by rw [ht, hhead, List.cons_append]⟩, fun row hrow => ?_, hready⟩
  rw [ht] at hrow
  exact (List.mem_append.1 hrow).elim (h.rows row) (hes row)

/-- A step of a fold that writes rows of the nodes only. -/
theorem Written.foldl {f : Exec Step → TaskNode Step → Exec Step}
    (hf : ∀ st, ∀ n ∈ nodes, Written nodes st → Written nodes (f st n))
    {l : List (TaskNode Step)} (hl : ∀ n ∈ l, n ∈ nodes) (h : Written nodes st) :
    Written nodes (l.foldl f st) := by
  induction l generalizing st with
  | nil => exact h
  | cons n l ih =>
    exact ih (fun m hm => hl m (List.mem_cons_of_mem n hm)) (hf st n (hl n List.mem_cons_self) h)

theorem Written.persist (h : Written nodes st) {n : TaskNode Step} (hn : n ∈ nodes) (r : NodeResult)
    (ht : st'.trace = st.trace ++ [persistNode n r]) (hready : ∀ n ∈ st'.ready, n ∈ nodes) :
    Written nodes st' := by
  refine h.append ht (fun row hrow => ⟨n, hn, r, ?_⟩) hready
  cases List.mem_singleton.1 hrow
  rfl

theorem Written.spawn (h : Written nodes st) (wave : Nat) (n : TaskNode Step) :
    Written nodes (spawn env task wave st n) := by
  refine h.append rfl (fun row hrow => ?_) h.ready
  obtain ⟨k, -, hk⟩ := mem_starts.1 hrow
  cases hk

theorem Written.settle (h : Written nodes st) (wave : Nat) {n : TaskNode Step} (hn : n ∈ nodes) :
    Written nodes (settle env task nodes wave st n) := by
  unfold Dag.settle
  split
  · exact ⟨h.head, h.rows, h.ready⟩
  · next out _ =>
    refine h.append (release_frame nodes _ _).2.1 (fun row hrow => ?_) fun m hm => ?_
    · unfold persistById at hrow
      split at hrow
      · next m hm =>
        cases List.mem_singleton.1 hrow
        exact ⟨m, List.mem_reverse.1 (List.mem_of_find?_eq_some hm), resultOf out, rfl⟩
      · cases hrow
    · exact (mem_ready_release hm).elim (h.ready m) And.left

theorem Written.skip (h : Written nodes st) {n : TaskNode Step} (hn : n ∈ nodes) :
    Written nodes (skip st n) := by
  unfold Dag.skip
  split
  · exact h.persist hn skippedResult rfl h.ready
  · exact h

theorem Written.waves (henv : ∀ wave l, (env.completion wave l).Perm l) {fuel wave : Nat}
    (h : Written nodes st) (hrun : waves env task nodes fuel wave st = some st') :
    Written nodes st' := by
  induction fuel generalizing wave st with
  | zero => cases hrun
  | succ fuel ih =>
    rw [Dag.waves] at hrun
    split at hrun
    · cases hrun
      exact h
    · have hspawn : Written nodes (st.ready.foldl (Dag.spawn env task wave) st) :=
        h.foldl (fun st n _ h => h.spawn wave n) h.ready
      have hwave : Written nodes ((env.completion wave st.ready).foldl
          (Dag.settle env task nodes wave)
          { st.ready.foldl (Dag.spawn env task wave) st with ready := [] }) := by
        refine Written.foldl (fun st n hn h => h.settle wave hn)
          (fun n hn => h.ready n ((henv wave st.ready).mem_iff.1 hn)) ?_
        exact ⟨hspawn.head, hspawn.rows, by simp⟩
      dsimp only at hrun
      split at hrun
      · cases hrun
        exact hwave.foldl (fun st n hn h => h.skip hn) fun n hn => hn
      · exact ih hwave hrun

/-- A run marks the task first, and the rows that it writes are those of its nodes. -/
theorem execute_written (henv : ∀ wave l, (env.completion wave l).Perm l)
    {seed : String → Option NodeResult} {fuel : Nat} {out : Outcome Step}
    (hrun : execute env task seed nodes fuel = some out) :
    (∃ es, out.trace = .task .running :: es) ∧
      ∀ row, .node row ∈ out.trace → ∃ n ∈ nodes, ∃ r : NodeResult, row = n.row r := by
  have hinit : Written nodes (initExec seed nodes) :=
    ⟨⟨[], rfl⟩, by simp [initExec], fun n hn => (List.mem_filter.1 hn).1⟩
  obtain ⟨st, s, hw, rfl⟩ : ∃ st s, Written nodes st ∧ out = finishTask st s := by
    unfold execute at hrun
    dsimp only at hrun
    split at hrun
    · next cycle _ =>
      cases hrun
      refine ⟨_, _, hinit.foldl (fun st n hn h => ?_) fun n hn => hn, rfl⟩
      exact h.persist hn _ rfl h.ready
    · obtain ⟨st, hst, rfl⟩ := Option.map_eq_some_iff.1 hrun
      exact ⟨st, _, hinit.waves henv hst, rfl⟩
  obtain ⟨es, hes⟩ := hw.head
  refine ⟨⟨es ++ [.task s], by simp [finishTask, hes]⟩, fun row hrow => hw.rows row ?_⟩
  simpa [finishTask] using hrow

end Written

/-! ## The life of a task -/

/-- The node that a row defines. -/
def NodeRow.node (r : NodeRow Step) : TaskNode Step :=
  ⟨r.nodeId, r.name, r.deps, r.retries, r.timeoutSecs, r.steps⟩

/-- The ids of the rows. -/
def TaskRow.ids (p : TaskRow Step) : List String := p.nodes.map NodeRow.nodeId

/-- The nodes that `task_definition` lists. -/
def TaskRow.definition (p : TaskRow Step) : List (TaskNode Step) := p.nodes.map NodeRow.node

/-- The node rows that `mark_interrupted` changes are the open ones of a task that has failed. -/
def NodeRow.interrupted (task : TaskStatus) (r : NodeRow Step) : NodeRow Step :=
  if task = .failed ∧ (r.status = .pending ∨ r.status = .running) then
    { r with status := .skipped, output := "进程中断,任务未完成" }
  else r

/-- `mark_interrupted` -/
def TaskRow.interrupted (p : TaskRow Step) : TaskRow Step :=
  let status := if p.status = .pending ∨ p.status = .running then .failed else p.status
  { status := status, nodes := p.nodes.map (NodeRow.interrupted status) }

/-- A write to a store that may not have the task: only `upsert_task` makes a row for it. -/
def writeTo (keep : Bool) : Option (TaskRow Step) → Event Step → Option (TaskRow Step)
  | some p, e => some (p.write keep e)
  | none, .task status => some ⟨status, []⟩
  | none, _ => none

/-- What `submit` writes, in its order. -/
def skeleton (nodes : List (TaskNode Step)) : List (Event Step) :=
  .task .pending :: nodes.map fun n => persistNode n ⟨.pending, "", 0⟩

/-- A task in the scheduler and in the store. -/
structure TaskLife (Step : Type) where
  /-- the nodes of the draft, until it is started -/
  draft : Option (List (TaskNode Step))
  /-- the nodes that the task was accepted with: those of `submit` or of the draft that is started -/
  accepted : Option (List (TaskNode Step))
  /-- the definitions that the scheduler has in memory -/
  defs : List (TaskNode Step)
  stored : Option (TaskRow Step)
  /-- what each run of the task has still to write -/
  runs : List (List (Event Step))

/-- What happens to a task. -/
inductive LifeEvent (Step : Type)
  | submit (nodes : List (TaskNode Step)) (env : Env Step) (fuel : Nat)
  | submitDraft (nodes : List (TaskNode Step))
  | editDraft (nodes : List (TaskNode Step))
  | startDraft (env : Env Step) (fuel : Nat)
  /-- a run makes its next write -/
  | write (run : Nat)
  /-- a scan of `resume_pending` takes the task up; the store gives its rows in any order -/
  | resume (leader : Option Bool) (live : Option TaskStatus) (env : Env Step)
      (rows : List (NodeRow Step)) (fuel : Nat)
  /-- `hydrate_task` -/
  | hydrate
  /-- `rerun_node`, after its checks; `ok` is whether all the nodes are well after it -/
  | rerun (env : Env Step) (id : String) (ok : Bool)
  | interrupt
  | crash

namespace TaskLife

/-- A task that is not there yet. -/
def new : TaskLife Step := ⟨none, none, [], none, []⟩

/-- One thing that happens to the task. A draft is edited and started while it is in memory and has
not been started. -/
def step (keep : Bool) (task : TaskInfo) (s : TaskLife Step) :
    LifeEvent Step → Option (TaskLife Step)
  | .submit nodes env fuel =>
    if s.accepted.isSome || s.draft.isSome then none
    else
      (execute env task (fun _ => none) nodes fuel).map fun out =>
        { s with accepted := some nodes, defs := nodes, runs := [skeleton nodes ++ out.trace] }
  | .submitDraft nodes =>
    if nodes.isEmpty || s.accepted.isSome || s.draft.isSome then none
    else some { s with draft := some nodes }
  | .editDraft nodes =>
    if nodes.isEmpty || s.draft.isNone then none else some { s with draft := some nodes }
  | .startDraft env fuel =>
    match s.draft with
    | none => none
    | some nodes =>
      (execute env task (fun _ => none) nodes fuel).map fun out =>
        { s with draft := none, accepted := some nodes, defs := nodes, runs := [out.trace] }
  | .write run =>
    match s.runs[run]? with
    | some (e :: es) => some { s with stored := writeTo keep s.stored e, runs := s.runs.set run es }
    | _ => none
  | .resume leader live env rows fuel =>
    match s.stored with
    | none => none
    | some p =>
      (resumePending leader live env task p rows fuel).map fun tr =>
        { s with defs := if tr.isEmpty then s.defs else [], runs := s.runs ++ [tr] }
  | .hydrate => s.stored.map fun p => { s with defs := p.definition }
  | .rerun env id ok =>
    (nodeById s.defs id).map fun n =>
      { s with runs := s.runs ++ [[.task .running, persistNode n (resultOf (runNode env task n)),
          .task (if ok then .success else .failed)]] }
  | .interrupt => some { s with stored := s.stored.map TaskRow.interrupted }
  | .crash => some { s with draft := none, defs := [], runs := [] }

/-- A wave joins the nodes that it spawned, and the store gives the rows that it has. -/
def Proper (_ : History (TaskLife Step) (LifeEvent Step)) (s : TaskLife Step) :
    LifeEvent Step → Prop
  | .submit _ env _ | .startDraft env _ => ∀ wave l, (env.completion wave l).Perm l
  | .resume _ _ env rows _ =>
    (∀ wave l, (env.completion wave l).Perm l) ∧ ∀ p, s.stored = some p → rows.Perm p.nodes
  | _ => True

/-- The row that `upsert_node` is handed in a step. -/
def handed (s : TaskLife Step) : LifeEvent Step → Option (NodeRow Step)
  | .write run =>
    match s.runs[run]? with
    | some (.node row :: _) => some row
    | _ => none
  | _ => none

/-- The node as the last run that wrote it was given it. -/
def lastWritten : History (TaskLife Step) (LifeEvent Step) → String → Option (TaskNode Step)
  | [], _ => none
  | (s, e) :: h, id =>
    (((s.handed e).filter fun row => row.nodeId = id).map NodeRow.node).or (lastWritten h id)


/-! ## What the rows say -/

section Rows

variable {keep : Bool} {task : TaskInfo} {nodes : List (TaskNode Step)} {p : TaskRow Step}
  {row : NodeRow Step} {s s' : TaskLife Step} {h : History (TaskLife Step) (LifeEvent Step)} {e : LifeEvent Step}

/-- An accepted node, maybe with other dependencies. -/
def OfNode (nodes : List (TaskNode Step)) (m : TaskNode Step) : Prop :=
  ∃ n ∈ nodes, m = { n with deps := m.deps }

/-- The ids of the nodes that the store has. -/
def storedIds (s : TaskLife Step) : List String := (s.stored.map TaskRow.ids).getD []

/-- A node that a run may write: an accepted one, or one with a row. -/
def Known (nodes : List (TaskNode Step)) (s : TaskLife Step) (m : TaskNode Step) : Prop :=
  m ∈ nodes ∨ OfNode nodes m ∧ m.id ∈ s.storedIds

/-- What holds of a task whose nodes have distinct ids. -/
structure Kept (keep : Bool) (nodes : List (TaskNode Step))
    (h : History (TaskLife Step) (LifeEvent Step)) (s : TaskLife Step) : Prop where
  runs : ∀ es ∈ s.runs, ∀ row, .node row ∈ es → Known nodes s row.node
  defs : ∀ m ∈ s.defs, Known nodes s m
  /-- a row says what the last run was given, or in the store that keeps what it has, what was
  accepted -/
  rows : ∀ p, s.stored = some p → ∀ r ∈ p.nodes, ∃ m, lastWritten h r.nodeId = some m ∧
    OfNode nodes m ∧ if keep then r.node ∈ nodes else r.node = m

structure Ok (keep : Bool) (h : History (TaskLife Step) (LifeEvent Step)) (s : TaskLife Step) :
    Prop where
  early : s.accepted = none → s.runs = [] ∧ s.defs = [] ∧ s.stored = none
  drafted : s.draft.isSome → s.accepted = none
  nodup : s.storedIds.Nodup
  /-- a run marks the task before it writes anything else -/
  begins : s.stored = none → ∀ es ∈ s.runs, ∀ e es', es = e :: es' → ∃ status, e = .task status
  written : ∀ id m, lastWritten h id = some m → id ∈ s.storedIds
  kept : ∀ nodes, s.accepted = some nodes → (ids nodes).Nodup → Kept keep nodes h s

theorem OfNode.of_mem {m : TaskNode Step} (h : m ∈ nodes) : OfNode nodes m := ⟨m, h, rfl⟩

theorem Known.ofNode {m : TaskNode Step} (h : Known nodes s m) : OfNode nodes m :=
  h.elim OfNode.of_mem And.left

theorem Known.mono {m : TaskNode Step} (hs : ∀ id ∈ s.storedIds, id ∈ s'.storedIds)
    (h : Known nodes s m) : Known nodes s' m :=
  h.imp_right fun h => ⟨h.1, hs _ h.2⟩

theorem lastWritten_cons_of_none (h : s.handed e = none) (h' : History _ _) (id : String) :
    lastWritten ((s, e) :: h') id = lastWritten h' id := by
  rw [lastWritten, h]
  rfl

/-- A step that leaves the rows as they are and may add a run. -/
theorem Ok.of_stored (hok : Ok keep h s) (hh : s.handed e = none)
    (hacc : s'.accepted = s.accepted) (hst : s'.stored = s.stored)
    (hdraft : s'.draft.isSome → s.accepted = none)
    (hearly : s.accepted = none → s'.runs = [] ∧ s'.defs = [])
    (hbegins : s.stored = none → ∀ es ∈ s'.runs, ∀ e es', es = e :: es' → ∃ status, e = .task status)
    (hruns : ∀ nodes, s.accepted = some nodes → (ids nodes).Nodup → Kept keep nodes h s →
      ∀ es ∈ s'.runs, ∀ row, .node row ∈ es → Known nodes s row.node)
    (hdefs : ∀ nodes, s.accepted = some nodes → (ids nodes).Nodup → Kept keep nodes h s →
      ∀ m ∈ s'.defs, Known nodes s m) : Ok keep ((s, e) :: h) s' := by
  have hids : s'.storedIds = s.storedIds := by rw [storedIds, storedIds, hst]
  have hmono : ∀ id ∈ s.storedIds, id ∈ s'.storedIds := fun id hid => hids ▸ hid
  refine ⟨fun ha => ?_, fun hd => hacc.trans (hdraft hd), hids ▸ hok.nodup,
    fun hs => hbegins (hst ▸ hs), fun id m hm => ?_, fun nodes ha hnd => ?_⟩
  · obtain ⟨h1, h2⟩ := hearly (hacc ▸ ha)
    exact ⟨h1, h2, hst.trans (hok.early (hacc ▸ ha)).2.2⟩
  · rw [lastWritten_cons_of_none hh] at hm
    exact hmono id (hok.written id m hm)
  · have hk := hok.kept nodes (hacc ▸ ha) hnd
    refine ⟨fun es hes row hrow => ?_, fun m hm => ?_, fun p hp r hr => ?_⟩
    · exact (hruns nodes (hacc ▸ ha) hnd hk es hes row hrow).mono hmono
    · exact (hdefs nodes (hacc ▸ ha) hnd hk m hm).mono hmono
    · rw [lastWritten_cons_of_none hh]
      exact hk.rows p (hst ▸ hp) r hr

/-- The task is accepted: its first run writes rows of its nodes. -/
theorem Ok.accept (hok : Ok keep h s) (hnone : s.accepted = none) (hh : s.handed e = none)
    {es : List (Event Step)} (hhead : ∃ status es', es = .task status :: es')
    (hrows : ∀ row, .node row ∈ es → ∃ n ∈ nodes, ∃ r : NodeResult, row = n.row r) :
    Ok keep ((s, e) :: h)
      { s with draft := none, accepted := some nodes, defs := nodes, runs := [es] } := by
  obtain ⟨-, -, hst⟩ := hok.early hnone
  refine ⟨by simp, by simp, hok.nodup, fun _ es₁ hes e₁ es' heq => ?_, fun id m hm => ?_,
    fun nodes₁ ha hnd => ?_⟩
  · obtain ⟨status, es₂, hhead⟩ := hhead
    rw [List.mem_singleton.1 hes, hhead] at heq
    cases heq
    exact ⟨status, rfl⟩
  · rw [lastWritten_cons_of_none hh] at hm
    exact hok.written id m hm
  · cases ha
    refine ⟨fun es₁ hes row hrow => ?_, fun m hm => .inl hm, fun p hp => ?_⟩
    · rw [List.mem_singleton.1 hes] at hrow
      obtain ⟨n, hn, r, rfl⟩ := hrows row hrow
      exact .inl hn
    · rw [hst] at hp
      cases hp

theorem ids_write_node (p : TaskRow Step) (row : NodeRow Step) :
    (p.write keep (.node row)).ids =
      if row.nodeId ∈ p.ids then p.ids else p.ids ++ [row.nodeId] :=
  ids_upsertNode p.nodes row

theorem node_interrupted (status : TaskStatus) (r : NodeRow Step) :
    (r.interrupted status).node = r.node := by
  unfold NodeRow.interrupted
  split <;> rfl

theorem ids_interrupted (p : TaskRow Step) : p.interrupted.ids = p.ids := by
  rw [TaskRow.ids, TaskRow.interrupted, List.map_map]
  exact List.map_congr_left fun r _ => congrArg TaskNode.id (node_interrupted _ r)

theorem upsertNode_eq (rows : List (NodeRow Step)) (row : NodeRow Step) :
    upsertNode keep rows row = Table.upsert NodeRow.nodeId (upsertRow keep) rows row := by
  induction rows with
  | nil => rfl
  | cons old rows ih => rw [upsertNode, Table.upsert, ih]

/-- A row of a node that a run may write is written. -/
theorem Kept.write (hk : Kept keep nodes h s) (hnd : (ids nodes).Nodup) (hst : s.stored = some p)
    (hp : p.ids.Nodup) (hh : s.handed e = some row) (hrow : Known nodes s row.node)
    {r : NodeRow Step} (hr : r ∈ (p.write keep (.node row)).nodes) :
    ∃ m, lastWritten ((s, e) :: h) r.nodeId = some m ∧ OfNode nodes m ∧
      if keep then r.node ∈ nodes else r.node = m := by
  have hlast : ∀ id, lastWritten ((s, e) :: h) id =
      if row.nodeId = id then some row.node else lastWritten h id := by
    intro id
    rw [lastWritten, hh, Option.filter_some]
    rcases eq_or_ne row.nodeId id with hid | hid <;> simp [hid]
  rw [TaskRow.write, upsertNode_eq] at hr
  rcases Table.mem_upsert hp hr with ⟨hr, hne⟩ | ⟨old, hold, hid, rfl⟩ | ⟨hnew, rfl⟩
  · rw [hlast, if_neg hne.symm]
    exact hk.rows p hst r hr
  · refine ⟨row.node, by rw [hlast, upsertRow_nodeId, if_pos rfl], hrow.ofNode, ?_⟩
    cases keep with
    | false => rfl
    | true =>
      -- the store keeps the columns that the first write gave the row
      obtain ⟨_, _, _, hmem⟩ := hk.rows p hst old hold
      obtain ⟨n, hn, heq⟩ := hrow.ofNode
      have hid' : old.node.id = n.id := by
        rw [show n.id = row.node.id by rw [heq]]
        exact hid
      have hon : old.node = n := eq_of_id hnd hmem hn hid'
      have hrn : (upsertRow true old row).node = n := by
        subst hon
        have h1 : row.retries = old.retries := congrArg TaskNode.retries heq
        have h2 : row.timeoutSecs = old.timeoutSecs := congrArg TaskNode.timeoutSecs heq
        simp only [upsertRow, if_true, NodeRow.node, ← hid, h1, h2]
      exact hrn ▸ hn
  · refine ⟨r.node, by rw [hlast, if_pos rfl], hrow.ofNode, ?_⟩
    rcases hrow with hmem | ⟨-, hid⟩
    · split
      · exact hmem
      · rfl
    · rw [storedIds, hst] at hid
      exact absurd hid hnew

/-- A step that changes what is stored. -/
theorem Ok.of_rows (hok : Ok keep h s) {stored : Option (TaskRow Step)}
    {runs : List (List (Event Step))} (hacc : s.accepted ≠ none) (hst : stored ≠ none)
    (hnd : ((stored.map TaskRow.ids).getD []).Nodup)
    (hids : ∀ id ∈ s.storedIds, id ∈ (stored.map TaskRow.ids).getD [])
    (hruns : ∀ es' ∈ runs, ∃ es ∈ s.runs, ∀ w ∈ es', w ∈ es)
    (hwritten : ∀ id m, lastWritten ((s, e) :: h) id = some m →
      id ∈ (stored.map TaskRow.ids).getD [])
    (hrows : ∀ nodes, s.accepted = some nodes → (ids nodes).Nodup → Kept keep nodes h s →
      ∀ p, stored = some p → ∀ r ∈ p.nodes, ∃ m, lastWritten ((s, e) :: h) r.nodeId = some m ∧
        OfNode nodes m ∧ if keep then r.node ∈ nodes else r.node = m) :
    Ok keep ((s, e) :: h) { s with stored := stored, runs := runs } := by
  refine ⟨fun ha => absurd ha hacc, hok.drafted, hnd, fun hnone => absurd hnone hst, hwritten,
    fun nodes ha hnd => ?_⟩
  have hk := hok.kept nodes ha hnd
  refine ⟨fun es' hes row hrow => ?_, fun m hm => (hk.defs m hm).mono hids,
    hrows nodes ha hnd hk⟩
  obtain ⟨es, hes, hsub⟩ := hruns es' hes
  exact (hk.runs es hes row (hsub _ hrow)).mono hids

/-- A run makes its next write. -/
theorem Ok.write (hok : Ok keep h s) {run : Nat} {w : Event Step} {es : List (Event Step)}
    (hrun : s.runs[run]? = some (w :: es)) :
    Ok keep ((s, .write run) :: h)
      { s with stored := writeTo keep s.stored w, runs := s.runs.set run es } := by
  have hmem : w :: es ∈ s.runs := List.mem_of_getElem? hrun
  have hruns : ∀ es' ∈ s.runs.set run es, ∃ es'' ∈ s.runs, ∀ w' ∈ es', w' ∈ es'' := by
    intro es' hes
    rcases List.mem_or_eq_of_mem_set hes with hes | rfl
    · exact ⟨es', hes, fun _ => id⟩
    · exact ⟨w :: es', hmem, fun w' => List.mem_cons_of_mem w⟩
  have hacc : s.accepted ≠ none := by
    intro hnone
    rw [(hok.early hnone).1] at hmem
    cases hmem
  have hhead : s.stored = none → ∃ status, w = .task status := fun hnone =>
    hok.begins hnone _ hmem w es rfl
  have hold : s.stored = none → ∀ id, id ∉ s.storedIds := by
    intro hnone id hid
    rw [storedIds, hnone] at hid
    cases hid
  cases hst : s.stored with
  | none =>
    obtain ⟨status, rfl⟩ := hhead hst
    have hh : s.handed (.write run) = none := by rw [handed, hrun]
    refine hok.of_rows hacc (by simp [writeTo]) (by simp [writeTo, TaskRow.ids])
      (fun id hid => absurd hid (hold hst id)) hruns (fun id m hm => ?_)
      fun nodes ha hnd hk p hp r hr => ?_
    · rw [lastWritten_cons_of_none hh] at hm
      exact absurd (hok.written id m hm) (hold hst id)
    · cases hp
      cases hr
  | some p =>
    have hids : s.storedIds = p.ids := by rw [storedIds, hst]; rfl
    have hp : p.ids.Nodup := hids ▸ hok.nodup
    -- a write that is not a row leaves the rows as they are
    have hother : ∀ p', writeTo keep (some p) w = some p' → p'.nodes = p.nodes →
        s.handed (.write run) = none → Ok keep ((s, .write run) :: h)
          { s with stored := writeTo keep (some p) w, runs := s.runs.set run es } := by
      intro p' hp' hnodes hh
      have hids' : ((writeTo keep (some p) w).map TaskRow.ids).getD [] = s.storedIds := by
        rw [hp', hids, TaskRow.ids, ← hnodes]
        rfl
      refine hok.of_rows hacc (by rw [hp']; simp) (hids' ▸ hok.nodup) (fun id hid => hids' ▸ hid)
        hruns (fun id m hm => ?_) fun nodes ha hnd hk p₁ hp₁ r hr => ?_
      · rw [lastWritten_cons_of_none hh] at hm
        exact hids' ▸ hok.written id m hm
      · rw [hp'] at hp₁
        cases hp₁
        rw [lastWritten_cons_of_none hh]
        exact hk.rows p hst r (hnodes ▸ hr)
    cases w with
    | start x k => exact hother p rfl rfl (by rw [handed, hrun])
    | task status => exact hother _ rfl rfl (by rw [handed, hrun])
    | node row =>
      have hh : s.handed (.write run) = some row := by rw [handed, hrun]
      have hsub : ∀ id ∈ p.ids, id ∈ (p.write keep (.node row)).ids := by
        intro id hid
        rw [ids_write_node]
        split
        · exact hid
        · exact List.mem_append_left _ hid
      refine hok.of_rows hacc (by simp [writeTo]) ?_ (fun id hid => hsub id (hids ▸ hid)) hruns
        (fun id m hm => ?_) fun nodes ha hnd hk p₁ hp₁ r hr => ?_
      · show (p.write keep (.node row)).ids.Nodup
        rw [ids_write_node]
        split
        · exact hp
        · next hnew =>
          exact List.nodup_append'.2 ⟨hp, List.nodup_singleton _, List.disjoint_singleton.2 hnew⟩
      · rw [lastWritten, hh, Option.filter_some] at hm
        show id ∈ (p.write keep (.node row)).ids
        rcases eq_or_ne row.nodeId id with rfl | hne
        · rw [ids_write_node]
          split
          · assumption
          · exact List.mem_append_right _ (List.mem_singleton_self _)
        · refine hsub id (hids ▸ hok.written id m ?_)
          simpa [hne] using hm
      · cases hp₁
        exact hk.write hnd hst hp hh (hk.runs _ hmem row List.mem_cons_self) hr

/-- The rows of a task are taken up: a run may write them again. -/
theorem Kept.known (hk : Kept keep nodes h s) (hst : s.stored = some p) {r : NodeRow Step}
    (hr : r ∈ p.nodes) : Known nodes s r.node := by
  obtain ⟨m, -, hof, hrow⟩ := hk.rows p hst r hr
  split at hrow
  · exact .inl hrow
  · refine .inr ⟨hrow ▸ hof, ?_⟩
    rw [storedIds, hst]
    exact List.mem_map.2 ⟨r, hr, rfl⟩

/-- Every step keeps what holds of the rows. -/
theorem Ok.step (hok : Ok keep h s) (hg : Proper h s e) (hs : step keep task s e = some s') :
    Ok keep ((s, e) :: h) s' := by
  cases e with
  | submit nodes env fuel =>
    rw [TaskLife.step] at hs
    split at hs
    · cases hs
    · next hfree =>
      obtain ⟨out, hout, rfl⟩ := Option.map_eq_some_iff.1 hs
      simp only [Bool.or_eq_true, not_or, Bool.not_eq_true, Option.isSome_eq_false_iff,
        Option.isNone_iff_eq_none] at hfree
      have hrows : ∀ row, .node row ∈ skeleton nodes ++ out.trace →
          ∃ n ∈ nodes, ∃ r : NodeResult, row = n.row r := by
        intro row hrow
        rcases List.mem_append.1 hrow with hrow | hrow
        · rcases List.mem_cons.1 hrow with hrow | hrow
          · cases hrow
          · obtain ⟨n, hn, heq⟩ := List.mem_map.1 hrow
            cases heq
            exact ⟨n, hn, _, rfl⟩
        · exact (execute_written hg hout).2 row hrow
      have hstep : Ok keep ((s, .submit nodes env fuel) :: h) _ :=
        hok.accept hfree.1 rfl ⟨.pending, _, rfl⟩ hrows
      rw [← hfree.2] at hstep
      exact hstep
  | submitDraft nodes =>
    rw [TaskLife.step] at hs
    split at hs
    · cases hs
    · next hfree =>
      cases hs
      simp only [Bool.or_eq_true, not_or, Bool.not_eq_true, Option.isSome_eq_false_iff,
        Option.isNone_iff_eq_none] at hfree
      exact hok.of_stored rfl rfl rfl (fun _ => hfree.1.2) (fun ha => ⟨(hok.early ha).1,
        (hok.early ha).2.1⟩) hok.begins (fun _ _ _ hk => hk.runs) fun _ _ _ hk => hk.defs
  | editDraft nodes =>
    rw [TaskLife.step] at hs
    split at hs
    · cases hs
    · next hfree =>
      cases hs
      simp only [Bool.or_eq_true, not_or, Bool.not_eq_true, Option.isNone_eq_false_iff] at hfree
      exact hok.of_stored rfl rfl rfl (fun _ => hok.drafted hfree.2) (fun ha => ⟨(hok.early ha).1,
        (hok.early ha).2.1⟩) hok.begins (fun _ _ _ hk => hk.runs) fun _ _ _ hk => hk.defs
  | startDraft env fuel =>
    rw [TaskLife.step] at hs
    split at hs
    · cases hs
    · next nodes hd =>
      obtain ⟨out, hout, rfl⟩ := Option.map_eq_some_iff.1 hs
      have hw := execute_written hg hout
      obtain ⟨es, hes⟩ := hw.1
      exact hok.accept (hok.drafted (by rw [hd]; rfl)) rfl ⟨.running, es, hes⟩ hw.2
  | write run =>
    rw [TaskLife.step] at hs
    split at hs
    · next w es hrun =>
      cases hs
      exact hok.write hrun
    · cases hs
  | resume leader live env rows fuel =>
    rw [TaskLife.step] at hs
    split at hs
    · cases hs
    · next p hst =>
      obtain ⟨tr, htr, rfl⟩ := Option.map_eq_some_iff.1 hs
      have hacc : s.accepted ≠ none := fun hnone => by
        rw [(hok.early hnone).2.2] at hst
        cases hst
      have hstored : s.stored ≠ none := by rw [hst]; simp
      refine hok.of_stored rfl rfl rfl hok.drafted (fun hnone => absurd hnone hacc)
        (fun hnone => absurd hnone hstored) (fun nodes ha hnd hk es hes row hrow => ?_)
        fun nodes ha hnd hk m hm => ?_
      · rcases List.mem_append.1 hes with hes | hes
        · exact hk.runs es hes row hrow
        · rw [List.mem_singleton.1 hes] at hrow
          rcases resumePending_cases htr with rfl | ⟨out, hout, rfl⟩
          · cases hrow
          · obtain ⟨n, hn, res, rfl⟩ := (execute_written hg.1 hout).2 row hrow
            obtain ⟨r, hr, rfl⟩ := List.mem_map.1 hn
            have hr' : r ∈ p.nodes := (hg.2 p hst).mem_iff.1 (List.mem_filter.1 hr).1
            obtain ⟨n, hn, heq⟩ := (hk.known hst hr').ofNode
            refine .inr ⟨⟨n, hn, ?_⟩, ?_⟩
            · have h1 := congrArg TaskNode.id heq
              have h2 := congrArg TaskNode.name heq
              have h3 := congrArg TaskNode.retries heq
              have h4 := congrArg TaskNode.timeoutSecs heq
              have h5 := congrArg TaskNode.steps heq
              simp only [NodeRow.node] at h1 h2 h3 h4 h5
              simp only [TaskNode.row, NodeRow.node, h1, h2, h3, h4, h5]
            · rw [storedIds, hst]
              exact List.mem_map.2 ⟨r, hr', rfl⟩
      · dsimp only at hm
        split at hm
        · exact hk.defs m hm
        · cases hm
  | hydrate =>
    obtain ⟨p, hst, rfl⟩ := Option.map_eq_some_iff.1 hs
    refine hok.of_stored rfl rfl rfl hok.drafted (fun hnone => ?_) hok.begins
      (fun nodes ha hnd hk => hk.runs) fun nodes ha hnd hk m hm => ?_
    · rw [(hok.early hnone).2.2] at hst
      cases hst
    · obtain ⟨r, hr, rfl⟩ := List.mem_map.1 hm
      exact hk.known hst hr
  | rerun env id ok =>
    obtain ⟨n, hn, rfl⟩ := Option.map_eq_some_iff.1 hs
    have hmem : n ∈ s.defs := List.mem_reverse.1 (List.mem_of_find?_eq_some hn)
    refine hok.of_stored rfl rfl rfl hok.drafted (fun hnone => ?_)
      (fun hnone es hes w es' heq => ?_) (fun nodes ha hnd hk es hes row hrow => ?_)
      fun nodes ha hnd hk => hk.defs
    · rw [(hok.early hnone).2.1] at hmem
      cases hmem
    · rcases List.mem_append.1 hes with hes | hes
      · exact hok.begins hnone es hes w es' heq
      · rw [List.mem_singleton.1 hes] at heq
        cases heq
        exact ⟨.running, rfl⟩
    · rcases List.mem_append.1 hes with hes | hes
      · exact hk.runs es hes row hrow
      · rw [List.mem_singleton.1 hes] at hrow
        obtain rfl : row = n.row (resultOf (runNode env task n)) := by
          simpa [persistNode] using hrow
        exact hk.defs n hmem
  | interrupt =>
    cases hs
    cases hst : s.stored with
    | none =>
      exact hok.of_stored rfl rfl hst.symm hok.drafted
        (fun ha => ⟨(hok.early ha).1, (hok.early ha).2.1⟩) hok.begins
        (fun _ _ _ hk => hk.runs) fun _ _ _ hk => hk.defs
    | some p =>
      have hids : s.storedIds = p.ids := by rw [storedIds, hst]; rfl
      have hids' : ((some p.interrupted).map TaskRow.ids).getD [] = s.storedIds :=
        (ids_interrupted p).trans hids.symm
      have hacc : s.accepted ≠ none := fun hnone => by
        rw [(hok.early hnone).2.2] at hst
        cases hst
      refine Ok.of_rows hok hacc (by simp) (hids' ▸ hok.nodup) (fun id hid => hids' ▸ hid)
        (fun es hes => ⟨es, hes, fun _ => id⟩) (fun id m hm => hids' ▸ hok.written id m hm)
        fun nodes ha hnd hk p₁ hp₁ r hr => ?_
      cases hp₁
      obtain ⟨r₀, hr₀, rfl⟩ := List.mem_map.1 hr
      have hnode := node_interrupted (if p.status = .pending ∨ p.status = .running then .failed
        else p.status) r₀
      have hid : (r₀.interrupted _).nodeId = r₀.nodeId := congrArg TaskNode.id hnode
      rw [hnode, hid]
      exact hk.rows p hst r₀ hr₀
  | crash =>
    cases hs
    exact hok.of_stored rfl rfl rfl (by simp) (fun _ => ⟨rfl, rfl⟩) (by simp) (by simp) (by simp)

theorem Ok.new : Ok keep [] (TaskLife.new : TaskLife Step) where
  early := fun _ => ⟨rfl, rfl, rfl⟩
  drafted := by simp [TaskLife.new]
  nodup := List.nodup_nil
  begins := by simp [TaskLife.new]
  written := by simp [lastWritten]
  kept := by simp [TaskLife.new]

theorem Ok.run (hr : Run (TaskLife.step keep task) Proper (· = .new) h s) : Ok keep h s :=
  hr.invariant (by rintro _ rfl; exact .new) fun _ _ _ _ _ hok hg hs => hok.step hg hs

/-- **What is persisted is what runs.** At a moment of the life of a task at which the store has it,
its definition lists the nodes that it was accepted with, as they were, exactly when their ids are
distinct, each of them has been written, and in the store that replaces rows the last run that wrote
it was given all of its dependencies. -/
theorem stored_iff (hr : Run (TaskLife.step keep task) Proper (· = .new) h s)
    (hacc : s.accepted = some nodes) (hst : s.stored = some p) :
    p.definition.Perm nodes ↔ (ids nodes).Nodup ∧ ∀ n ∈ nodes, ∃ m,
      lastWritten h n.id = some m ∧ (keep = true ∨ m.deps = n.deps) := by
  have hok := Ok.run hr
  have hids : s.storedIds = p.definition.map TaskNode.id := by
    rw [storedIds, hst, TaskRow.definition, List.map_map]
    rfl
  have hnd : (p.definition.map TaskNode.id).Nodup := hids ▸ hok.nodup
  constructor
  · intro hperm
    have hnodes : (ids nodes).Nodup := (hperm.map TaskNode.id).nodup_iff.1 hnd
    refine ⟨hnodes, fun n hn => ?_⟩
    obtain ⟨r, hmem, rfl⟩ := List.mem_map.1 (hperm.mem_iff.2 hn)
    obtain ⟨m, hm, -, hrow⟩ := (hok.kept nodes hacc hnodes).rows p hst r hmem
    refine ⟨m, hm, ?_⟩
    split at hrow
    · exact .inl ‹_›
    · exact .inr (by rw [hrow])
  · rintro ⟨hnodes, hall⟩
    have hk := hok.kept nodes hacc hnodes
    -- a row says what was accepted: it was kept, or the last run had all the dependencies
    have hsame : ∀ r ∈ p.nodes, r.node ∈ nodes := by
      intro r hmem
      obtain ⟨m, hm, ⟨n, hn, heq⟩, hrow⟩ := hk.rows p hst r hmem
      split at hrow
      · exact hrow
      · next hkeep =>
        have hid : n.id = r.nodeId := by
          rw [← hrow] at heq
          exact (congrArg TaskNode.id heq).symm
        obtain ⟨m', hm', hdeps⟩ := hall n hn
        rw [hid, hm] at hm'
        cases hm'
        rw [hrow, heq, hdeps.resolve_left hkeep]
        exact hn
    refine (List.perm_ext_iff_of_nodup hnd.of_map hnodes.of_map).2 fun n => ⟨fun hn => ?_,
      fun hn => ?_⟩
    · obtain ⟨r, hmem, rfl⟩ := List.mem_map.1 hn
      exact hsame r hmem
    · obtain ⟨m, hm, -⟩ := hall n hn
      have hid := hok.written n.id m hm
      rw [hids] at hid
      obtain ⟨n', hn', heq⟩ := List.mem_map.1 hid
      obtain ⟨r, hmem, rfl⟩ := List.mem_map.1 hn'
      rw [← eq_of_id hnodes (hsame r hmem) hn heq]
      exact hn'

end Rows

section Example

/-- Every step answers. -/
def wellEnv : Env Unit := calmEnv fun _ _ => .ok "done"

theorem wellEnv_completion (wave : Nat) (l : List (TaskNode Unit)) :
    (wellEnv.completion wave l).Perm l := .refl l

/-- The first run makes some writes. -/
def writes (keep : Bool) (task : TaskInfo) : Nat → TaskLife Step → Option (TaskLife Step)
  | 0, s => some s
  | k + 1, s => (step keep task s (.write 0)).bind (writes keep task k)

theorem run_writes {keep : Bool} {task : TaskInfo} {k : Nat} {s s' : TaskLife Step}
    {h : History (TaskLife Step) (LifeEvent Step)}
    (hr : Run (step keep task) Proper (· = .new) h s) (hs : writes keep task k s = some s') :
    ∃ h', Run (step keep task) Proper (· = .new) h' s' := by
  induction k generalizing h s with
  | zero =>
    cases hs
    exact ⟨h, hr⟩
  | succ k ih =>
    obtain ⟨s₁, hs₁, hs⟩ := Option.bind_eq_some_iff.1 hs
    exact ih (hr.step (e := LifeEvent.write 0) trivial hs₁) hs

/-- Once `submit` has written its rows, the definition is the task. -/
theorem stored_iff_submitted : ∃ h s p,
    Run (step false ⟨"t", "i"⟩) Proper (· = .new) h s ∧ s.accepted = some chain ∧
      s.stored = some p ∧ p.definition.Perm chain := by
  have h0 : Run (step false ⟨"t", "i"⟩) Proper (· = .new) [] (.new : TaskLife Unit) := .start rfl
  have h1 := h0.step (e := LifeEvent.submit chain wellEnv 3) wellEnv_completion rfl
  have h2 := h1.step (e := LifeEvent.write 0) trivial rfl
  have h3 := h2.step (e := LifeEvent.write 0) trivial rfl
  have h4 := h3.step (e := LifeEvent.write 0) trivial rfl
  refine ⟨_, _, submitted chain, h4, rfl, rfl, (stored_iff h4 rfl rfl).2 ⟨by decide, ?_⟩⟩
  intro n hn
  refine ⟨n, ?_, .inr rfl⟩
  rcases List.mem_cons.1 hn with rfl | hn
  · rfl
  · rw [List.mem_singleton.1 hn]
    rfl

/-- The row of a node of the chain that succeeded. -/
def done (id : String) (deps : List String) (retries : Nat) : NodeRow Unit :=
  ⟨id, id, deps, [()], .success, "done", 1, retries, none⟩

/-- The store after a crash between the row of `a` and the row of `b`. -/
def halfDone : TaskRow Unit :=
  ⟨.running, [done "a" [] 1, ⟨"b", "b", ["a"], [()], .pending, "", 0, 0, none⟩]⟩

/-- A draft that has been started has no nodes in the store, and nothing of it can be resumed. And
after a resumed run, the store that replaces rows has lost the dependency of `b` on `a`. -/
theorem not_persisted :
    (∃ h s p, Run (step true ⟨"t", "i"⟩) Proper (· = .new) h s ∧ s.accepted = some chain ∧
      s.stored = some p ∧ p.definition = [] ∧ toRun p.nodes = [] ∧
      ¬p.definition.Perm chain) ∧
    ∃ h s p, Run (step false ⟨"t", "i"⟩) Proper (· = .new) h s ∧ s.accepted = some chain ∧
      s.stored = some p ∧ p.status = .success ∧ p.definition.map TaskNode.deps = [[], []] ∧
      ¬p.definition.Perm chain := by
  constructor
  · have h0 : Run (step true ⟨"t", "i"⟩) Proper (· = .new) [] (.new : TaskLife Unit) := .start rfl
    have h1 := h0.step (e := LifeEvent.submitDraft chain) trivial rfl
    have h2 := h1.step (e := LifeEvent.startDraft wellEnv 3) wellEnv_completion rfl
    have h3 := h2.step (e := LifeEvent.write 0) trivial rfl
    refine ⟨_, _, _, h3, rfl, rfl, rfl, rfl, fun h => ?_⟩
    exact absurd h.length_eq (by decide)
  · have h0 : Run (step false ⟨"t", "i"⟩) Proper (· = .new) [] (.new : TaskLife Unit) := .start rfl
    have h1 : Run (step false ⟨"t", "i"⟩) Proper (· = .new) _ ⟨none, some chain, chain, none,
        [skeleton chain ++ [.task .running, .start "a" 1, .node (done "a" [] 1), .start "b" 1,
          .node (done "b" ["a"] 0), .task .success]]⟩ :=
      h0.step (e := LifeEvent.submit chain wellEnv 3) wellEnv_completion rfl
    -- the rows of `submit`, then the run as far as the row of `a`
    obtain ⟨_, h2⟩ : ∃ h, Run (step false ⟨"t", "i"⟩) Proper (· = .new) h
        ⟨none, some chain, chain, some halfDone,
          [[.start "b" 1, .node (done "b" ["a"] 0), .task .success]]⟩ :=
      run_writes (k := 6) h1 rfl
    have h3 := h2.step (e := LifeEvent.crash) trivial rfl
    have h4 : Run (step false ⟨"t", "i"⟩) Proper (· = .new) _ ⟨none, some chain, [], some halfDone,
        [[.task .running, .start "b" 1, .node (done "b" [] 0), .task .success]]⟩ :=
      h3.step (e := LifeEvent.resume none none wellEnv halfDone.nodes 2)
        ⟨wellEnv_completion, fun p hp => by cases hp; exact .refl _⟩ rfl
    obtain ⟨h, h5⟩ : ∃ h, Run (step false ⟨"t", "i"⟩) Proper (· = .new) h
        ⟨none, some chain, [], some ⟨.success, [done "a" [] 1, done "b" [] 0]⟩, [[]]⟩ :=
      run_writes (k := 4) h4 rfl
    refine ⟨h, _, _, h5, rfl, rfl, rfl, rfl, fun hperm => ?_⟩
    have hdeps := hperm.map TaskNode.deps
    exact absurd hdeps (by decide)

end Example

end TaskLife

end Rdsctl.Dag
