import Rdsctl.Ha.Safety
import Rdsctl.Ha.Projection

/-!
# The projection loop of a cluster

Every process of a cluster runs the projection loop of `src/main.rs`: when it has seen itself lead it
scans its log from its cursor on, writes the rows whose markers the audit table does not have, and
moves its cursor. All write to one table, and other code does too. The steps of the loops come in any
order between those of the cluster: a process may have lost the lead while it writes.

The loop is not safe by itself: it does not know the results of ops, what a compaction has taken out
of the log, and whether a row was written. `Projects` says of a step that it does not run into one of
these, and along runs of such steps the table is complete and faithful (`Run.projected`).
-/

namespace Rdsctl.Ha

open Fallible

/-- How far the loop of a process is. -/
inductive Phase
  | idle
  /-- the process has seen itself lead -/
  | leading
  /-- the rows that are still to be written of those that were pending up to an applied index, all or
  as many as the limit allows; what the check of the first one has found, with the length of the table
  at that time; and the index of the last row done -/
  | writing (appliedIndex : Nat) (full : Bool) (rows : List ProjectedAudit)
    (looked : Option (Bool × Nat)) (last : Option Nat)

/-- The loop of a process. -/
structure ProjectionLoop where
  proj : Projector
  phase : Phase

/-- A row of the audit table, with the index of the op that a loop wrote it for. -/
structure SinkRow where
  row : AuditLogRow
  origin : Option Nat

/-- A cluster with its history, the loops of its processes, and the audit table. -/
structure SinkSystem where
  cluster : Cluster
  history : History Cluster Event
  loops : String → ProjectionLoop
  sink : List SinkRow

/-- What happens next. -/
inductive SinkEvent
  | node (e : Event)
  | lead (i : String)
  | scan (i : String)
  /-- `audit_marker_exists` for the next row, which the table answers or not -/
  | look (i : String) (answered : Bool)
  /-- `audit` of the next row, if it is missing; the insertion may fail -/
  | put (i : String) (written : Bool)
  /-- the end of the round: `left` is what the cursor file holds when it cannot be written -/
  | commit (i : String) (left : Option Nat)
  /-- other code writes a row -/
  | other (row : AuditLogRow)

namespace SinkSystem

/-- Change a loop. -/
def setLoop (s : SinkSystem) (i : String) (l : ProjectionLoop) : SinkSystem :=
  { s with loops := Function.update s.loops i l }

theorem setLoop_self (s : SinkSystem) (i : String) (l : ProjectionLoop) :
    (s.setLoop i l).loops i = l := by
  simp [setLoop]

theorem setLoop_of_ne (s : SinkSystem) {i j : String} (l : ProjectionLoop) (h : j ≠ i) :
    (s.setLoop i l).loops j = s.loops j := by
  simp [setLoop, h]

/-- Change the phase of a loop. -/
def setPhase (s : SinkSystem) (i : String) (phase : Phase) : SinkSystem :=
  s.setLoop i ⟨(s.loops i).proj, phase⟩

/-- The table has a row with the marker. -/
def auditMarkerExists (s : SinkSystem) (mk : String) : Bool := s.sink.any fun r => r.row.hasMarker mk

variable [SerdeJson]

/-- A step of the cluster; a process that restarts begins with the cursor of the file. -/
def nodeStep (voters : List String) (s : SinkSystem) (e : Event) : Option SinkSystem :=
  (Cluster.step voters s.cluster e).map fun c =>
    { s with
      cluster := c
      history := (s.cluster, e) :: s.history
      loops := match e.call with
        | .restart _ =>
          Function.update s.loops e.node ⟨(s.loops e.node).proj.reopen, .idle⟩
        | _ => s.loops }

/-- One step. -/
def step (text : Value → String) (voters : List String) (s : SinkSystem) :
    SinkEvent → Option SinkSystem
  | .node e => s.nodeStep voters e
  | .lead i =>
    match (s.loops i).phase with
    | .idle =>
      if i ∈ voters ∧ (s.cluster.hosts i).node.role = .leader then some (s.setPhase i .leading)
      else none
    | _ => none
  | .scan i =>
    let n := (s.cluster.hosts i).node
    match (s.loops i).phase with
    | .leading =>
      -- an index is a `u64`
      if i ∈ voters ∧ n.sm.appliedIndex < 2 ^ 64 then
        let rows := (s.loops i).proj.pending text n.log n.sm.appliedIndex 500
        some (s.setPhase i
          (.writing n.sm.appliedIndex (decide (500 ≤ rows.length)) rows none none))
      else none
    | _ => none
  | .look i answered =>
    match (s.loops i).phase with
    | .writing a full (row :: rows) none last =>
      let found := answered && s.auditMarkerExists (projectionMarker row.shard row.index)
      some (s.setPhase i (.writing a full (row :: rows) (some (found, s.sink.length)) last))
    | _ => none
  | .put i written =>
    match (s.loops i).phase with
    | .writing a full (row :: rows) (some (found, _)) _ =>
      let s := s.setPhase i (.writing a full rows none (some row.index))
      if found = false ∧ written = true then
        some { s with sink := s.sink ++ [⟨row.stored, some row.index⟩] }
      else some s
    | _ => none
  | .commit i left =>
    match (s.loops i).phase with
    | .writing _ _ [] none last =>
      if left.all fun l => decide (l ≤ last.getD 0) then
        let proj := (s.loops i).proj
        some (s.setLoop i ⟨(last.map fun upto => proj.commit upto left).getD proj, .idle⟩)
      else none
    | _ => none
  | .other row => some { s with sink := s.sink ++ [⟨row, none⟩] }

/-- The cluster starts, with cursors at 0 and no row of a loop in the table. -/
def Initial (voters : List String) (shard : Nat) (s : SinkSystem) : Prop :=
  Cluster.Initial voters shard s.cluster ∧ s.history = [] ∧
    (∀ i, s.loops i = ⟨⟨0, 0⟩, .idle⟩) ∧ ∀ r ∈ s.sink, r.origin = none

/-! ## What is to be projected -/

/-- A member has applied this op at the index: it was handed to `apply`, or it is in the log under
the applied index. -/
def Decides (voters : List String) (h : History Cluster Event) (c : Cluster) (idx : Nat) (op : Op) :
    Prop :=
  ∃ d ∈ h.states c, ∃ i ∈ voters,
    (∃ call ∈ (d.hosts i).node.calls, call.index = idx ∧ call.op = op) ∨
      ∃ r, (d.hosts i).node.log.get idx = some r ∧ idx ≤ (d.hosts i).node.sm.appliedIndex ∧
        opOfPayload r.payload = op

/-- A member has rejected what stands at the index. -/
def Rejects (voters : List String) (h : History Cluster Event) (c : Cluster) (idx : Nat) : Prop :=
  ∃ d ∈ h.states c, ∃ i ∈ voters, ∃ why, (d.hosts i).node.resultOf idx = some (.rejected why)

/-- The table has a row that was written for the op at the index. -/
def HasRow (s : SinkSystem) (idx : Nat) : Prop := ∃ r ∈ s.sink, r.origin = some idx

/-- The table is complete and faithful. -/
structure Projected (text : Value → String) (voters : List String) (s : SinkSystem) : Prop where
  /-- a row of a loop is that of a decision that was applied and not rejected -/
  faithful : ∀ r ∈ s.sink, ∀ idx, r.origin = some idx →
    (∃ op row, Decides voters s.history s.cluster idx op ∧ projectOp text 0 0 idx op = some row ∧
      r.row = row.stored) ∧ ¬Rejects voters s.history s.cluster idx
  /-- there is one row at most for an index -/
  once : (s.sink.filterMap SinkRow.origin).Nodup
  /-- when a loop has written all that was pending, every decision has its row -/
  complete : ∀ i appliedIndex last, (s.loops i).phase = .writing appliedIndex false [] none last →
    ∀ idx op, idx ≤ appliedIndex → Decides voters s.history s.cluster idx op →
      op.isDecision = true → ¬Rejects voters s.history s.cluster idx → s.HasRow idx

/-! ## The condition -/

/-- What stands at the index has its row, or needs none. -/
def Covered (voters : List String) (s : SinkSystem) (idx : Nat) : Prop :=
  s.HasRow idx ∨ ∃ op, Decides voters s.history s.cluster idx op ∧ op.isDecision = false

/-- No decision is rejected. -/
def Accepts (voters : List String) (h : History Cluster Event) (c : Cluster) : Prop :=
  ∀ idx, Rejects voters h c idx → ∀ op, Decides voters h c idx op → op.isDecision = false

/-- The step takes the log for what it is and rejects no decision; what the scanned log has lost
behind the cursor is covered; the table answers, and the marker is not on a row of other code; the row
is written, and no other loop has written it since. -/
def Projects (voters : List String) (s : SinkSystem) : SinkEvent → Prop
  | .node e => Cluster.Sound voters s.history s.cluster e ∧
    ∀ c, Cluster.step voters s.cluster e = some c → Accepts voters ((s.cluster, e) :: s.history) c
  | .scan i => ∀ idx, (s.loops i).proj.cursor < idx →
    idx ≤ (s.cluster.hosts i).node.sm.appliedIndex →
      (s.cluster.hosts i).node.log.get idx = none → s.Covered voters idx
  | .look i answered => answered = true ∧
    ∀ a full row rows last, (s.loops i).phase = .writing a full (row :: rows) none last →
      ∀ r ∈ s.sink, r.origin = none →
        r.row.hasMarker (projectionMarker row.shard row.index) = false
  | .put i written =>
    ∀ a full row rows n last,
      (s.loops i).phase = .writing a full (row :: rows) (some (false, n)) last →
        written = true ∧ ∀ r ∈ s.sink.drop n, r.origin ≠ some row.index
  | _ => True

/-- The runs whose steps meet the condition. -/
abbrev ProjectingRun (text : Value → String) (voters : List String) (shard : Nat) :
    History SinkSystem SinkEvent → SinkSystem → Prop :=
  Run (step text voters) (fun _ => Projects voters) (Initial voters shard)

/-! ## What was applied -/

section Decided

variable {voters : List String} {shard : Nat} {h : History Cluster Event} {c : Cluster} {idx : Nat}
  {op op' : Op}

/-- What was applied at an index is settled. -/
theorem Decides.settled {a : Copies} (hr : Cluster.SoundRun voters shard h c)
    (hv : Cluster.Mirrored voters shard a h c) (hd : Decides voters h c idx op) :
    ∃ u e, a.Settled u idx e ∧ e.op = op := by
  obtain ⟨d, hmem, i, hi, ⟨call, hcall, rfl, rfl⟩ | ⟨r, hget, hle, rfl⟩⟩ := hd
  · obtain ⟨u, e, he, -, hop⟩ := (hv.recorded d hmem).calls i hi call hcall
    exact ⟨u, e, he, hop.symm⟩
  · obtain ⟨h', hr'⟩ := hr.of_mem hmem
    obtain ⟨a', hv'⟩ := Cluster.SoundRun.mirrored hr'
    have hcommit : idx ≤ (d.hosts i).node.commitIndex := hle.trans (hv'.replicas i hi).applied.2
    obtain ⟨e, he, hsp⟩ := (hv.recorded d hmem).settled i hi idx r hcommit hget
    refine ⟨_, e, he, ?_⟩
    rw [LogEntry.op, hsp.2]

/-- One op at most was applied at an index. -/
theorem Decides.unique (hr : Cluster.SoundRun voters shard h c) (hd : Decides voters h c idx op)
    (hd' : Decides voters h c idx op') : op = op' := by
  obtain ⟨a, hv⟩ := Cluster.SoundRun.mirrored hr
  obtain ⟨u, e, he, rfl⟩ := hd.settled hr hv
  obtain ⟨u', e', he', rfl⟩ := hd'.settled hr hv
  rw [hv.inv.settled_unique he he']

theorem Decides.pos (hr : Cluster.SoundRun voters shard h c) (hd : Decides voters h c idx op) :
    0 < idx := by
  obtain ⟨a, hv⟩ := Cluster.SoundRun.mirrored hr
  obtain ⟨u, e, he, -⟩ := hd.settled hr hv
  exact he.1

/-- What was applied stays so. -/
theorem Decides.later {e : Event} {c' : Cluster} (hd : Decides voters h c idx op) :
    Decides voters ((c, e) :: h) c' idx op := by
  obtain ⟨d, hmem, hx⟩ := hd
  exact ⟨d, List.mem_cons_of_mem _ hmem, hx⟩

/-- At the start nothing was applied. -/
theorem not_decides_initial (hc : Cluster.Initial voters shard c) : ¬Decides voters [] c idx op := by
  intro hd
  obtain ⟨u, e, ⟨-, t, m, r, hchosen, -⟩, -⟩ :=
    hd.settled (Run.start hc) (Cluster.Mirrored.init hc)
  exact hchosen

end Decided

/-! ## Steps -/

section Steps

variable {text : Value → String} {voters : List String} {shard : Nat} {s s' : SinkSystem}

/-- Nothing is lost in a step: rows are added, and what was applied stays so. -/
structure Grows (voters : List String) (s s' : SinkSystem) : Prop where
  sink : s.sink <+: s'.sink
  decides : ∀ idx op, Decides voters s.history s.cluster idx op →
    Decides voters s'.history s'.cluster idx op

theorem Grows.hasRow (h : Grows voters s s') {idx : Nat} (hx : s.HasRow idx) : s'.HasRow idx := by
  obtain ⟨r, hr, ho⟩ := hx
  exact ⟨r, h.sink.subset hr, ho⟩

theorem Grows.covered (h : Grows voters s s') {idx : Nat} (hx : s.Covered voters idx) :
    s'.Covered voters idx := by
  rcases hx with hx | ⟨op, hd, hop⟩
  · exact .inl (h.hasRow hx)
  · exact .inr ⟨op, h.decides idx op hd, hop⟩

/-- What stands at the indices up to `m` is covered once the rows are written. -/
def Settles (voters : List String) (s : SinkSystem) (rows : List ProjectedAudit) (m : Nat) : Prop :=
  ∀ idx, 0 < idx → idx ≤ m → s.Covered voters idx ∨ ∃ row ∈ rows, row.index = idx

theorem Grows.settles (h : Grows voters s s') {rows : List ProjectedAudit} {m : Nat}
    (hx : Settles voters s rows m) : Settles voters s' rows m := by
  intro idx hpos hle
  exact (hx idx hpos hle).imp_left h.covered

/-- The first row is done. -/
theorem Settles.tail {row : ProjectedAudit} {rows : List ProjectedAudit} {m : Nat}
    (h : Settles voters s (row :: rows) m) (hrow : s.HasRow row.index) :
    Settles voters s rows m := by
  intro idx hpos hle
  rcases h idx hpos hle with hx | ⟨row', hmem, rfl⟩
  · exact .inl hx
  · rcases List.mem_cons.1 hmem with rfl | hmem
    · exact .inl (.inl hrow)
    · exact .inr ⟨row', hmem, rfl⟩

/-- What holds of a loop that is writing. -/
structure Writing (text : Value → String) (voters : List String) (s : SinkSystem) (appliedIndex : Nat)
    (full : Bool) (rows : List ProjectedAudit) (looked : Option (Bool × Nat)) (last : Option Nat) :
    Prop where
  decided : ∀ row ∈ rows, row.shard = 0 ∧ row.index < 2 ^ 64 ∧
    ∃ op, Decides voters s.history s.cluster row.index op ∧
      projectOp text 0 0 row.index op = some row
  upTo : ∀ row ∈ rows, Settles voters s rows row.index
  done : ∀ m, last = some m → Settles voters s rows m
  all : full = false → Settles voters s rows appliedIndex
  found : ∀ n, looked = some (true, n) → ∀ row rest, rows = row :: rest → s.HasRow row.index
  missing : ∀ n, looked = some (false, n) → n ≤ s.sink.length ∧
    ∀ row rest, rows = row :: rest → ∀ r ∈ s.sink.take n, r.origin ≠ some row.index

/-- What holds of a phase. -/
def PhaseOk (text : Value → String) (voters : List String) (s : SinkSystem) : Phase → Prop
  | .writing appliedIndex full rows looked last =>
    Writing text voters s appliedIndex full rows looked last
  | _ => True

theorem Grows.phaseOk (h : Grows voters s s') {phase : Phase} (hx : PhaseOk text voters s phase) :
    PhaseOk text voters s' phase := by
  cases phase with
  | writing a full rows looked last =>
    refine ⟨fun row hrow => ?_, fun row hrow => h.settles (hx.upTo row hrow),
      fun m hm => h.settles (hx.done m hm), fun hf => h.settles (hx.all hf),
      fun n hn row rest hr => h.hasRow (hx.found n hn row rest hr), fun n hn => ?_⟩
    · obtain ⟨h1, h2, op, hd, hp⟩ := hx.decided row hrow
      exact ⟨h1, h2, op, h.decides _ _ hd, hp⟩
    · obtain ⟨hle, hmiss⟩ := hx.missing n hn
      obtain ⟨new, hnew⟩ := h.sink
      rw [← hnew, List.take_append_of_le_length hle, List.length_append]
      exact ⟨by omega, hmiss⟩
  | _ => exact trivial

/-- What holds in every state of a run. -/
structure Inv (text : Value → String) (voters : List String) (shard : Nat) (s : SinkSystem) :
    Prop where
  run : Cluster.SoundRun voters shard s.history s.cluster
  accepts : Accepts voters s.history s.cluster
  rows : ∀ r ∈ s.sink, ∀ idx, r.origin = some idx → idx < 2 ^ 64 ∧
    ∃ op row, Decides voters s.history s.cluster idx op ∧ projectOp text 0 0 idx op = some row ∧
      r.row = row.stored
  once : (s.sink.filterMap SinkRow.origin).Nodup
  cursor : ∀ i idx, 0 < idx → idx ≤ (s.loops i).proj.cursor ∨ idx ≤ (s.loops i).proj.saved →
    s.Covered voters idx
  phase : ∀ i, PhaseOk text voters s (s.loops i).phase

/-- A step that changes one loop and adds no row. -/
theorem Inv.setLoop (h : Inv text voters shard s) (i : String) {l : ProjectionLoop}
    (hcursor : ∀ idx, 0 < idx → idx ≤ l.proj.cursor ∨ idx ≤ l.proj.saved → s.Covered voters idx)
    (hphase : PhaseOk text voters s l.phase) : Inv text voters shard (s.setLoop i l) := by
  have hg : Grows voters s (s.setLoop i l) := ⟨List.prefix_rfl, fun _ _ hd => hd⟩
  refine ⟨h.run, h.accepts, h.rows, h.once, fun j => ?_, fun j => ?_⟩
  · intro idx hpos hle
    rcases eq_or_ne j i with rfl | hj
    · rw [setLoop_self] at hle
      exact hcursor idx hpos hle
    · rw [setLoop_of_ne s l hj] at hle
      exact h.cursor j idx hpos hle
  · rcases eq_or_ne j i with rfl | hj
    · rw [setLoop_self]
      exact hg.phaseOk hphase
    · rw [setLoop_of_ne s l hj]
      exact hg.phaseOk (h.phase j)

theorem Inv.setPhase (h : Inv text voters shard s) (i : String) {phase : Phase}
    (hphase : PhaseOk text voters s phase) : Inv text voters shard (s.setPhase i phase) :=
  h.setLoop i (h.cursor i) hphase

/-- A row is added, by a loop for an op that had none, or by other code. -/
theorem Inv.addRow (h : Inv text voters shard s) {r : SinkRow}
    (hr : ∀ idx, r.origin = some idx → idx < 2 ^ 64 ∧ ¬s.HasRow idx ∧
      ∃ op row, Decides voters s.history s.cluster idx op ∧ projectOp text 0 0 idx op = some row ∧
        r.row = row.stored) :
    Inv text voters shard { s with sink := s.sink ++ [r] } := by
  have hg : Grows voters s { s with sink := s.sink ++ [r] } :=
    ⟨List.prefix_append _ _, fun _ _ hd => hd⟩
  refine ⟨h.run, h.accepts, fun r' hr' idx ho => ?_, ?_, fun i idx hpos hle => ?_, fun i => ?_⟩
  · rcases List.mem_append.1 hr' with hr' | hr'
    · exact h.rows r' hr' idx ho
    · rw [List.mem_singleton.1 hr'] at ho ⊢
      obtain ⟨hidx, -, hx⟩ := hr idx ho
      exact ⟨hidx, hx⟩
  · rw [List.filterMap_append]
    refine List.nodup_append'.2 ⟨h.once, ?_, ?_⟩
    · cases ho : r.origin with
      | none => simp [ho]
      | some idx => simp [ho]
    · rw [List.disjoint_left]
      intro idx hidx hnew
      obtain ⟨r', hr', ho'⟩ := List.mem_filterMap.1 hidx
      obtain ⟨r'', hr'', ho''⟩ := List.mem_filterMap.1 hnew
      rw [List.mem_singleton.1 hr''] at ho''
      exact (hr idx ho'').2.1 ⟨r', hr', ho'⟩
  · exact hg.covered (h.cursor i idx hpos hle)
  · exact hg.phaseOk (h.phase i)

/-- A step of the cluster. -/
theorem Inv.node {e : Event} (h : Inv text voters shard s)
    (hg : Projects voters s (.node e)) (hs : s.nodeStep voters e = some s') :
    Inv text voters shard s' := by
  obtain ⟨c, hc, rfl⟩ := Option.map_eq_some_iff.1 hs
  have hgrow : Grows voters s { s with cluster := c, history := (s.cluster, e) :: s.history } :=
    ⟨List.prefix_rfl, fun _ _ hd => hd.later⟩
  have hbase : Inv text voters shard
      { s with cluster := c, history := (s.cluster, e) :: s.history } := by
    refine ⟨.step h.run hg.1 hc, hg.2 c hc, fun r hr idx ho => ?_, h.once,
      fun i idx hpos hle => hgrow.covered (h.cursor i idx hpos hle),
      fun i => hgrow.phaseOk (h.phase i)⟩
    obtain ⟨hidx, op, row, hd, hx⟩ := h.rows r hr idx ho
    exact ⟨hidx, op, row, hd.later, hx⟩
  cases hcall : e.call with
  | restart cfg =>
    exact hbase.setLoop e.node
      (fun idx hpos hle => hbase.cursor e.node idx hpos (.inr (hle.elim id id))) trivial
  | _ => exact hbase

/-- The rows of a scan. -/
theorem Inv.scan {i : String} (h : Inv text voters shard s) (hi : i ∈ voters)
    (hgap : Projects voters s (.scan i))
    (hlt : (s.cluster.hosts i).node.sm.appliedIndex < 2 ^ 64) :
    Writing text voters s (s.cluster.hosts i).node.sm.appliedIndex
      (decide (500 ≤ ((s.loops i).proj.pending text (s.cluster.hosts i).node.log
        (s.cluster.hosts i).node.sm.appliedIndex 500).length))
      ((s.loops i).proj.pending text (s.cluster.hosts i).node.log
        (s.cluster.hosts i).node.sm.appliedIndex 500) none none := by
  obtain ⟨a, hv⟩ := Cluster.SoundRun.mirrored h.run
  generalize hn : (s.cluster.hosts i).node = n at hlt hgap
  have hindexed : Log.Indexed (n.snapshotIndex + 1) n.log.entries := by
    rw [← hn]
    exact (hv.replicas i hi).records.indexed
  -- an applied record is a decision with its row, or needs none
  have hrecord : ∀ r ∈ n.log.entries, r.index ≤ n.sm.appliedIndex →
      ∃ op, Decides voters s.history s.cluster r.index op ∧
        projectRecord text r = projectOp text 0 r.term r.index op := by
    intro r hr hle
    have hget : n.log.get r.index = some r := hindexed.get_eq_some_iff.2 ⟨hr, rfl⟩
    refine ⟨opOfPayload r.payload, ⟨s.cluster, List.mem_cons_self, i, hi, .inr ⟨r, ?_, ?_, rfl⟩⟩, ?_⟩
    · rw [hn]
      exact hget
    · rw [hn]
      exact hle
    · unfold projectRecord opOfPayload
      cases SerdeJson.opFromSlice r.payload with
      | ok op => rfl
      | error e => rfl
  -- what is pending, what the log has lost and what the cursor has passed are all there is
  have hsettles : ∀ m ≤ n.sm.appliedIndex,
      (∀ row ∈ (s.loops i).proj.outstanding text n.log n.sm.appliedIndex, row.index ≤ m →
        row ∈ (s.loops i).proj.pending text n.log n.sm.appliedIndex 500) →
      Settles voters s ((s.loops i).proj.pending text n.log n.sm.appliedIndex 500) m := by
    intro m hm hpend idx hpos hle
    rcases Nat.lt_or_ge (s.loops i).proj.cursor idx with hc | hc
    · cases hget : n.log.get idx with
      | none => exact .inl (hgap idx hc (by rw [hn]; omega) (by rw [hn]; exact hget))
      | some r =>
        obtain ⟨hr, rfl⟩ := hindexed.get_eq_some_iff.1 hget
        obtain ⟨op, hd, hrow⟩ := hrecord r hr (by omega)
        cases hp : projectRecord text r with
        | none =>
          refine .inl (.inr ⟨op, hd, ?_⟩)
          rw [← projectOp_isSome text 0 r.term r.index, ← hrow, hp]
          rfl
        | some row =>
          have hidx := projectRecord_index hp
          refine .inr ⟨row, hpend row ?_ (by omega), hidx⟩
          exact (mem_outstanding hindexed).2 ⟨r, hr, hc, by omega, hp⟩
    · exact .inl (h.cursor i idx hpos (.inl hc))
  have hrow : ∀ row ∈ (s.loops i).proj.pending text n.log n.sm.appliedIndex 500,
      ∃ r ∈ n.log.entries, r.index ≤ n.sm.appliedIndex ∧ projectRecord text r = some row := by
    intro row hx
    obtain ⟨r, hr, -, hle, hp⟩ := (mem_outstanding hindexed).1 (mem_pending hx)
    exact ⟨r, hr, hle, hp⟩
  refine ⟨fun row hx => ?_, fun row hx => ?_, nofun, fun hf => ?_, nofun, nofun⟩
  · obtain ⟨r, hr, hle, hp⟩ := hrow row hx
    obtain ⟨op, hd, heq⟩ := hrecord r hr hle
    rw [hp] at heq
    obtain ⟨hidx, -⟩ := projectOp_marker heq.symm
    rw [hidx]
    refine ⟨projectOp_shard heq.symm, by omega, op, hd, ?_⟩
    rw [projectOp_term text 0 0 r.term]
    exact heq.symm
  · obtain ⟨r, hr, hle, hp⟩ := hrow row hx
    have hidx := projectRecord_index hp
    exact hsettles row.index (by omega) fun row' hx' hle' =>
      pending_complete hindexed hx' (.inr ⟨row, hx, hle'⟩)
  · refine hsettles _ (Nat.le_refl _) fun row' hx' _ => pending_complete hindexed hx' (.inl ?_)
    simpa using hf

/-- The check of a row: markers are unique to the rows of the loops. -/
theorem Inv.look {i : String} {answered : Bool} {a : Nat} {full : Bool} {row : ProjectedAudit}
    {rows : List ProjectedAudit} {last : Option Nat} (h : Inv text voters shard s)
    (hg : Projects voters s (.look i answered))
    (hphase : (s.loops i).phase = .writing a full (row :: rows) none last) :
    Writing text voters s a full (row :: rows)
      (some (answered && s.auditMarkerExists (projectionMarker row.shard row.index), s.sink.length))
      last := by
  have hw : Writing text voters s a full (row :: rows) none last := by
    have := h.phase i
    rwa [hphase] at this
  obtain ⟨hshard, hlt, -⟩ := hw.decided row List.mem_cons_self
  obtain ⟨hans, hother⟩ := hg
  have hother := hother a full row rows last hphase
  rw [hshard] at hother ⊢
  rw [hans, Bool.true_and]
  refine ⟨hw.decided, hw.upTo, hw.done, hw.all, fun n hn row' rest hr => ?_, fun n hn => ?_⟩
  · cases hr
    obtain ⟨hx, -⟩ := Prod.mk.inj (Option.some.inj hn)
    obtain ⟨r, hr, hmark⟩ := List.any_eq_true.1 hx
    cases ho : r.origin with
    | none =>
      rw [hother r hr ho] at hmark
      cases hmark
    | some idx =>
      obtain ⟨-, op, row', -, hp, heq⟩ := h.rows r hr idx ho
      rw [heq] at hmark
      exact ⟨r, hr, by rw [ho, stored_marker_unique hp hmark]⟩
  · obtain ⟨hx, rfl⟩ := Prod.mk.inj (Option.some.inj hn)
    refine ⟨Nat.le_refl _, fun row' rest hr r hmem ho => ?_⟩
    cases hr
    rw [List.take_length] at hmem
    obtain ⟨hidx, op, row', -, hp, heq⟩ := h.rows r hmem row.index ho
    have hmark := List.any_eq_false.1 hx r hmem
    rw [heq, stored_hasMarker hp hidx] at hmark
    exact hmark rfl

/-- The first row is done. -/
theorem Writing.tail {a : Nat} {full : Bool} {row : ProjectedAudit} {rows : List ProjectedAudit}
    {looked : Option (Bool × Nat)} {last : Option Nat}
    (h : Writing text voters s a full (row :: rows) looked last) (hrow : s.HasRow row.index) :
    Writing text voters s a full rows none (some row.index) where
  decided := fun row' hx => h.decided row' (List.mem_cons_of_mem _ hx)
  upTo := fun row' hx => (h.upTo row' (List.mem_cons_of_mem _ hx)).tail hrow
  done := by
    rintro m ⟨⟩
    exact (h.upTo row List.mem_cons_self).tail hrow
  all := fun hf => (h.all hf).tail hrow
  found := nofun
  missing := nofun

/-- A row is written, or found. -/
theorem Inv.put {i : String} {written : Bool} {a n : Nat} {full found : Bool} {row : ProjectedAudit}
    {rows : List ProjectedAudit} {last : Option Nat} (h : Inv text voters shard s)
    (hg : Projects voters s (.put i written))
    (hphase : (s.loops i).phase = .writing a full (row :: rows) (some (found, n)) last)
    (hs : step text voters s (.put i written) = some s') : Inv text voters shard s' := by
  have hw : Writing text voters s a full (row :: rows) (some (found, n)) last := by
    have := h.phase i
    rwa [hphase] at this
  simp only [step, hphase] at hs
  cases found with
  | true =>
    cases hs
    exact h.setPhase i (hw.tail (hw.found n rfl row rows rfl))
  | false =>
    obtain ⟨rfl, hdrop⟩ := hg a full row rows n last hphase
    cases hs
    obtain ⟨hshard, hlt, op, hd, hp⟩ := hw.decided row List.mem_cons_self
    have hmissing : ¬s.HasRow row.index := by
      rintro ⟨r, hr, ho⟩
      rw [← List.take_append_drop n s.sink] at hr
      rcases List.mem_append.1 hr with hr | hr
      · exact (hw.missing n rfl).2 row rows rfl r hr ho
      · exact hdrop r hr ho
    have hadd : Inv text voters shard
        { s with sink := s.sink ++ [⟨row.stored, some row.index⟩] } := by
      refine h.addRow fun idx ho => ?_
      cases ho
      exact ⟨hlt, hmissing, op, row, hd, hp, rfl⟩
    have hgrow : Grows voters s { s with sink := s.sink ++ [⟨row.stored, some row.index⟩] } :=
      ⟨List.prefix_append _ _, fun _ _ hd => hd⟩
    have hw' : Writing text voters { s with sink := s.sink ++ [⟨row.stored, some row.index⟩] } a full
        (row :: rows) (some (false, n)) last := by
      have hok : PhaseOk text voters s (.writing a full (row :: rows) (some (false, n)) last) := hw
      exact hgrow.phaseOk hok
    exact hadd.setPhase i (hw'.tail ⟨_, List.mem_append_right _ List.mem_cons_self, rfl⟩)

/-- A round ends. -/
theorem Inv.commit {i : String} {left : Option Nat} {a : Nat} {full : Bool} {last : Option Nat}
    (h : Inv text voters shard s)
    (hphase : (s.loops i).phase = .writing a full [] none last)
    (hs : step text voters s (.commit i left) = some s') : Inv text voters shard s' := by
  have hw : Writing text voters s a full [] none last := by
    have := h.phase i
    rwa [hphase] at this
  simp only [step, hphase] at hs
  split at hs
  · next hleft =>
    cases hs
    refine h.setLoop i (fun idx hpos hle => ?_) trivial
    cases last with
    | none => exact h.cursor i idx hpos hle
    | some upto =>
      have hcov : ∀ idx, 0 < idx → idx ≤ upto → s.Covered voters idx := fun idx hpos hle =>
        (hw.done upto rfl idx hpos hle).resolve_right (by simp)
      simp only [Option.map_some, Option.getD_some, Projector.commit] at hle
      split at hle
      · cases left with
        | none => exact hcov idx hpos (hle.elim id id)
        | some l =>
          have hl : l ≤ upto := by simpa using hleft
          exact hcov idx hpos (hle.elim id fun hx => le_trans hx hl)
      · exact h.cursor i idx hpos hle
  · cases hs

/-- Every step keeps the invariant. -/
theorem Inv.step {e : SinkEvent} (h : Inv text voters shard s) (hg : Projects voters s e)
    (hs : step text voters s e = some s') : Inv text voters shard s' := by
  cases e with
  | node e => exact h.node hg hs
  | lead i =>
    simp only [SinkSystem.step] at hs
    split at hs
    · split at hs
      · cases hs
        exact h.setPhase i trivial
      · cases hs
    · cases hs
  | scan i =>
    simp only [SinkSystem.step] at hs
    split at hs
    · split at hs
      · next hi =>
        cases hs
        exact h.setPhase i (h.scan hi.1 hg hi.2)
      · cases hs
    · cases hs
  | look i answered =>
    simp only [SinkSystem.step] at hs
    split at hs
    · next a full row rows last hphase =>
      cases hs
      exact h.setPhase i (h.look hg hphase)
    · cases hs
  | put i written =>
    have hs' := hs
    simp only [SinkSystem.step] at hs'
    split at hs'
    · next a full row rows found n last hphase => exact h.put hg hphase hs
    · cases hs'
  | commit i left =>
    have hs' := hs
    simp only [SinkSystem.step] at hs'
    split at hs'
    · next a full last hphase => exact h.commit hphase hs
    · cases hs'
  | other row =>
    cases hs
    exact h.addRow nofun

theorem inv_initial (h : Initial voters shard s) : Inv text voters shard s := by
  obtain ⟨hc, hh, hloops, hsink⟩ := h
  have hnone : ∀ idx op, ¬Decides voters s.history s.cluster idx op := by
    intro idx op
    rw [hh]
    exact not_decides_initial hc
  refine ⟨by rw [hh]; exact .start hc, fun idx _ op hd => absurd hd (hnone idx op),
    fun r hr idx ho => ?_, ?_, fun i idx hpos hle => ?_, fun i => ?_⟩
  · rw [hsink r hr] at ho
    cases ho
  · have hnil : s.sink.filterMap SinkRow.origin = [] := List.filterMap_eq_nil_iff.2 hsink
    rw [hnil]
    exact List.nodup_nil
  · have hzero : idx ≤ 0 := by simpa [hloops] using hle
    omega
  · rw [hloops]
    exact trivial

/-- **The projection along a run.** -/
theorem ProjectingRun.projected {h : History SinkSystem SinkEvent}
    (hr : ProjectingRun text voters shard h s) : Projected text voters s := by
  have hinv : Inv text voters shard s := by
    refine Run.invariant (I := fun _ s => Inv text voters shard s) (fun s h0 => inv_initial h0) ?_ hr
    intro h s e s' _ hi hg hs
    exact hi.step hg hs
  refine ⟨fun r hmem idx ho => ?_, hinv.once, fun i a last hphase idx op hle hd hop _ => ?_⟩
  · obtain ⟨-, op, row, hd, hp, heq⟩ := hinv.rows r hmem idx ho
    refine ⟨⟨op, row, hd, hp, heq⟩, fun hrej => ?_⟩
    have hno := hinv.accepts idx hrej op hd
    rw [← projectOp_isSome text 0 0 idx, hp] at hno
    cases hno
  · have hw : Writing text voters s a false [] none last := by
      have := hinv.phase i
      rwa [hphase] at this
    rcases hw.all rfl idx (hd.pos hinv.run) hle with (hx | ⟨op', hd', hop'⟩) | ⟨row, hx, -⟩
    · exact hx
    · rw [hd.unique hinv.run hd', hop'] at hop
      cases hop
    · cases hx

end Steps

end SinkSystem

/-! ## Runs of three nodes -/

/-- The texts of `Noop` and of lease ops of names that need no escapes. -/
def leaseText : Op → String
  | .leaseGrant inst holder ttlMs atMs =>
    "\x7b\"op\":\"lease_grant\",\"instance\":\"" ++ inst ++ "\",\"holder\":\"" ++ holder ++
      "\",\"ttl_ms\":" ++ toString ttlMs ++ ",\"at_ms\":" ++ toString atMs ++ "\x7d"
  | .leaseRelease inst holder =>
    "\x7b\"op\":\"lease_release\",\"instance\":\"" ++ inst ++ "\",\"holder\":\"" ++ holder ++
      "\"\x7d"
  | _ => "\x7b\"op\":\"noop\"\x7d"

/-- An instance is leased. -/
def grantDb : Op := .leaseGrant "db" "n1" 30000 100

/-- It is released, which is rejected when nobody has the lease. -/
def releaseDb : Op := .leaseRelease "db" "n1"

/-- The op of such a text. -/
def leaseParse (b : List UInt8) : Except String Op :=
  if b = asBytes (leaseText .noop) then .ok .noop
  else if b = asBytes (leaseText grantDb) then .ok grantDb
  else if b = asBytes (leaseText releaseDb) then .ok releaseDb
  else .error "unknown variant"

/-- `serde_json` on these values. -/
@[reducible] def SerdeJson.leases : SerdeJson := ⟨leaseText, leaseParse, SerdeJson.sampleImage⟩

def Applied.isRejected : Applied → Bool
  | .rejected _ => true
  | _ => false

namespace SinkSystem

section
attribute [local instance] SerdeJson.leases

/-- Three members with an empty audit table. -/
def three : SinkSystem := ⟨Cluster.three, [], fun _ => ⟨⟨0, 0⟩, .idle⟩, []⟩

theorem three_initial : Initial threeVoters 0 three := by
  refine ⟨⟨rfl, fun i hi => ⟨threeCfg i, 0, rfl, rfl, rfl, ?_⟩⟩, rfl, fun _ => rfl, nofun⟩
  have hv : (threeCfg i).validate = .ok () := by
    fin_cases hi <;> decide +kernel
  simp only [Host.openNode, hv]
  rfl

/-- The first member leads, commits an op, and projects it. -/
def projectOne (op : Op) : List SinkEvent :=
  (electFirst ++ [callAt "n1" (.propose op), callAt "n1" .flush, callAt "n2" (.deliver 8),
    callAt "n1" (.deliver 10)]).map SinkEvent.node ++
    [.lead "n1", .scan "n1", .look "n1" true, .put "n1" true]

/-- No text of a value is asked for. -/
def noText : Value → String := fun _ => "null"

/-- The table shows a release as `ok` that was rejected. -/
theorem rejected_as_ok : ¬ ∀ h s,
    Run (step noText threeVoters) (fun _ _ _ => True) (Initial threeVoters 0) h s →
      Projected noText threeVoters s := by
  intro hall
  have hrun : (follow (step noText threeVoters) (fun _ _ _ => True) (projectOne releaseDb) []
      three).map (fun r => (r.2.sink.map fun x => (x.row.action, x.row.result, x.origin),
        ((r.2.cluster.hosts "n1").node.resultOf 2).map Applied.isRejected)) =
      some ([("lease_release", "ok", some 2)], some true) := by
    decide +kernel
  obtain ⟨⟨h, s⟩, hf, hl⟩ := Option.map_eq_some_iff.1 hrun
  obtain ⟨hsink, hres⟩ := Prod.mk.inj hl
  have hp := hall h s (Run.follow (.start three_initial) hf)
  obtain ⟨r, hr, ho⟩ : ∃ r ∈ s.sink, r.origin = some 2 := by
    obtain ⟨r, hr, hx⟩ := List.mem_map.1 (hsink ▸ List.mem_cons_self)
    exact ⟨r, hr, (Prod.mk.inj (Prod.mk.inj hx).2).2⟩
  obtain ⟨result, hresult, hrej⟩ := Option.map_eq_some_iff.1 hres
  cases result with
  | rejected why =>
    exact (hp.faithful r hr 2 ho).2
      ⟨s.cluster, List.mem_cons_self, "n1", by simp [threeVoters], why, hresult⟩
  | ok => cases hrej
  | stepAlreadyDone _ => cases hrej

/-- Nobody has rejected anything. -/
def noRejects (h : History Cluster Event) (c : Cluster) : Bool :=
  (h.states c).all fun d => threeVoters.all fun i =>
    (d.hosts i).node.results.toList.all fun p => !p.2.isRejected

/-- A condition that can be computed: nothing is rejected or compacted away, and there are neither
failures of the table nor rows of other code or other loops in between. -/
def quiet (s : SinkSystem) : SinkEvent → Bool
  | .node e => decide (Cluster.Sound threeVoters s.history s.cluster e) &&
    (Cluster.step threeVoters s.cluster e).all fun c => noRejects ((s.cluster, e) :: s.history) c
  | .scan i =>
    let cursor := (s.loops i).proj.cursor
    let n := (s.cluster.hosts i).node
    (List.range' (cursor + 1) (n.sm.appliedIndex - cursor)).all fun idx => (n.log.get idx).isSome
  | .look _ answered => answered && s.sink.all fun r => r.origin.isSome
  | .put i written => written &&
    match (s.loops i).phase with
    | .writing _ _ _ (some (_, n)) _ => decide (s.sink.length ≤ n)
    | _ => true
  | _ => true

theorem noRejects_accepts {h : History Cluster Event} {c : Cluster} (hn : noRejects h c = true) :
    Accepts threeVoters h c := by
  rintro idx ⟨d, hd, i, hi, why, hres⟩
  have hall := List.all_eq_true.1 (List.all_eq_true.1 hn d hd) i hi
  have hmem : (idx, Applied.rejected why) ∈ (d.hosts i).node.results.toList :=
    Std.ExtTreeMap.mem_toList_iff_getElem?_eq_some.2 hres
  cases List.all_eq_true.1 hall _ hmem

theorem quiet_projects {s : SinkSystem} {e : SinkEvent} (hq : quiet s e = true) :
    Projects threeVoters s e := by
  cases e with
  | node e =>
    obtain ⟨hsound, hacc⟩ := Bool.and_eq_true_iff.1 hq
    refine ⟨of_decide_eq_true hsound, fun c hc => noRejects_accepts ?_⟩
    rwa [hc] at hacc
  | scan i =>
    intro idx hlt hle hget
    have hmem : idx ∈ List.range' ((s.loops i).proj.cursor + 1)
        ((s.cluster.hosts i).node.sm.appliedIndex - (s.loops i).proj.cursor) := by
      rw [List.mem_range'_1]
      omega
    have hsome := List.all_eq_true.1 hq idx hmem
    rw [hget] at hsome
    cases hsome
  | look i answered =>
    obtain ⟨hans, hall⟩ := Bool.and_eq_true_iff.1 hq
    refine ⟨hans, fun a full row rows last _ r hr ho => ?_⟩
    have hsome := List.all_eq_true.1 hall r hr
    rw [ho] at hsome
    cases hsome
  | put i written =>
    intro a full row rows n last hphase
    obtain ⟨hwritten, hlen⟩ := Bool.and_eq_true_iff.1 hq
    rw [hphase] at hlen
    refine ⟨hwritten, fun r hr => ?_⟩
    rw [List.drop_of_length_le (of_decide_eq_true hlen)] at hr
    cases hr
  | _ => exact trivial

/-- The grant of a lease is projected. -/
theorem grantDb_projected : ∃ s : SinkSystem,
    (s.sink.map fun x => (x.row.action, x.row.result, x.origin)) =
      [("lease_grant", "ok", some 2)] ∧ Projected noText threeVoters s := by
  have hrun : (follow (step noText threeVoters) (fun _ s e => quiet s e = true) (projectOne grantDb) []
      three).map (fun r => r.2.sink.map fun x => (x.row.action, x.row.result, x.origin)) =
      some [("lease_grant", "ok", some 2)] := by
    decide +kernel
  obtain ⟨⟨h, s⟩, hf, hl⟩ := Option.map_eq_some_iff.1 hrun
  have hr : ProjectingRun noText threeVoters 0 h s :=
    (Run.follow (.start three_initial) hf).mono fun _ _ _ hq => quiet_projects hq
  exact ⟨s, hl, hr.projected⟩

end

end SinkSystem

end Rdsctl.Ha
