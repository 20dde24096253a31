import Rdsctl.Ha.Batch
import Rdsctl.Ha.Fallback
import Rdsctl.Ha.Progress

/-!
# A crash while a snapshot is taken

`maybe_snapshot` of `src/ha/raft.rs` writes a snapshot (`snapshot::save`) and then the log behind it
(`Log::compact_upto`). A crash is the first file operation that fails, and `Node::open` on what is
left. The node opens with nothing missing wherever that is, except between the rename of the snapshot
and that of the log: there a log with records starts from the older snapshot (`snapshot_crash`).
-/

namespace Rdsctl.Ha

open Fallible Host

/-! ## Where a computation stops -/

/-- How many of `n` operations come before the first one that fails. -/
def reachOf : Nat → List Bool → Nat
  | 0, _ => 0
  | n + 1, [] => n + 1
  | _ + 1, false :: _ => 0
  | n + 1, true :: l => reachOf n l + 1

/-- The computation makes `n` operations in the shard's directory, and `I i` holds of the files when
it stops after `i` of them. -/
def StoreM.Stops {α : Type} (m : StoreM α) (n : Nat) (I : Nat → Disk → Prop) (st : Store) : Prop :=
  I (reachOf n st.faults.shard) (exec m st).2.disk

namespace StoreM.Stops

variable {α : Type} {n : Nat} {I : Nat → Disk → Prop} {st : Store}

theorem pure (a : α) (h : I 0 st.disk) : Stops (Pure.pure a) 0 I st := h

theorem read {g : Store → StoreM α} (h : (g st).Stops n I st) : Stops (get >>= g) n I st := by
  unfold Stops
  rw [exec_get_bind]
  exact h

/-- One operation, and what comes after it. -/
theorem op {f : Disk → Disk} {g : Unit → StoreM α}
    (hg : ∀ fs, (g ()).Stops n (fun i => I (i + 1)) ⟨f st.disk, fs⟩) (h : I 0 st.disk) :
    Stops (fileOp .shard f >>= g) (n + 1) I st := by
  obtain ⟨k, ⟨hard, l⟩⟩ := st
  unfold Stops
  rw [exec_bind]
  rcases l with _ | ⟨b, l⟩
  · have hall : reachOf n [] = n := by cases n <;> rfl
    have hrest := hg ⟨hard, []⟩
    unfold Stops at hrest
    rw [hall] at hrest
    exact hrest
  · cases b with
    | false => exact h
    | true => exact hg ⟨hard, l⟩

end StoreM.Stops

/-! ## The writes of a snapshot -/

section
variable [SerdeJson]

/-- The records of the log behind a snapshot, chained to it. -/
def Log.behind (l : Log) (f : SnapshotFile) : List Record :=
  rechain l.shard f.seedBytes (l.entries.filter fun r => decide (f.lastIncludedIndex < r.index))

/-- What `i` operations of taking the snapshot `f` leave of the files `k`: the snapshot that is loaded
is the new one from its rename on, and the log is the new one from its own rename on. -/
def Disk.LeftAt (k : Disk) (f : SnapshotFile) (staged : List Record) (i : Nat) (k' : Disk) : Prop :=
  Snapshot.load k' = .ok (if i < saveOps k then k.snapshot else some f) ∧
    k'.log = if i < saveOps k + 5 then k.log else staged

/-- The file operations of `maybe_snapshot`, one after another. -/
theorem Snapshot.stops {k : Disk} {fs : Faults} {f : SnapshotFile} {l : Log} (hf : f.verify = .ok ())
    (hcur : ∀ g ∈ k.snapshot, g.verify = .ok ()) (hprev : k.snapshot = none → k.snapshotPrev = none) :
    (Log.sync >>= fun _ => save f >>= fun _ =>
      l.compactUpto f.lastIncludedIndex f.seedBytes).Stops (saveOps k + 7)
        (k.LeftAt f (l.behind f)) ⟨k, fs⟩ := by
  obtain ⟨hard, hardTmp, snap, prev, tmp, log, logTmp⟩ := k
  simp only [Log.sync, save, Log.compactUpto, Log.rewrite, bind_assoc]
  cases snap with
  | none =>
    obtain rfl : prev = none := hprev rfl
    iterate 5 refine .op (fun _ => ?_) ?_
    refine .read ?_
    simp only [id_eq, Option.isSome_none, Bool.false_eq_true, reduceIte, bind_assoc]
    iterate 8 refine .op (fun _ => ?_) ?_
    refine .pure _ ?_
    all_goals simp [Disk.LeftAt, saveOps, load, readOne, hf, Log.behind]
  | some g =>
    have hg : g.verify = .ok () := hcur g rfl
    iterate 5 refine .op (fun _ => ?_) ?_
    refine .read ?_
    simp only [id_eq, Option.isSome_some, reduceIte, bind_assoc]
    iterate 9 refine .op (fun _ => ?_) ?_
    refine .pure _ ?_
    all_goals simp [Disk.LeftAt, saveOps, load, readOne, hf, hg, Log.behind]

/-- The snapshot that `maybe_snapshot` writes, if it writes one. -/
def Node.dueSnapshot (n : Node) : Option SnapshotFile :=
  if n.cfg.snapshotEntryThreshold = 0 ∨ n.log.len ≤ n.cfg.snapshotEntryThreshold then none
  else if n.sm.appliedIndex = 0 ∨ n.sm.appliedIndex ≤ n.snapshotIndex then none
  else some (SnapshotFile.new n.cfg.shard n.sm.appliedIndex
    ((n.log.termAt n.sm.appliedIndex).getD n.sm.appliedTerm) n.sm.configEpoch n.sm.toJson)

omit [SerdeJson] in
/-- A computation on the files, and what comes after it. -/
theorem Host.store_bind {α β γ : Type} {m : StoreM α} {g : α → HostM β} {g' : α → StoreM γ} {h : Host}
    (hg : ∀ a st, (exec (g a) { h with store := st }).2.store = (exec (g' a) st).2) :
    (exec (onStore m >>= g) h).2.store = (exec (m >>= g') h.store).2 := by
  rw [exec_bind, exec_bind, exec_onStore]
  rcases exec m h.store with ⟨e | a, st⟩
  · rfl
  · exact hg a st

/-- What `maybe_snapshot` does with the files. -/
theorem Host.maybeSnapshot_store {h : Host} {f : SnapshotFile} (hf : h.node.dueSnapshot = some f) :
    (exec maybeSnapshot h).2.store = (exec (Log.sync >>= fun _ => Snapshot.save f >>= fun _ =>
      h.node.log.compactUpto f.lastIncludedIndex f.seedBytes) h.store).2 := by
  unfold Node.dueSnapshot at hf
  split at hf
  · cases hf
  next hlong =>
  split at hf
  · cases hf
  next hnew =>
  cases hf
  unfold maybeSnapshot
  rw [exec_get_bind]
  simp only [if_neg hlong, if_neg hnew]
  refine store_bind fun _ _ => store_bind fun _ _ => ?_
  rw [← bind_pure (Log.compactUpto _ _ _)]
  simp only [onLog, bind_assoc, exec_get_bind]
  exact store_bind fun _ _ => rfl

theorem Node.dueSnapshot_intact {n : Node} {f : SnapshotFile} (hf : n.dueSnapshot = some f) :
    f.Intact ∧ n.snapshotIndex < f.lastIncludedIndex := by
  unfold dueSnapshot at hf
  split at hf
  · cases hf
  split at hf
  · cases hf
  next hnew =>
  cases hf
  rw [not_or, not_le] at hnew
  exact ⟨⟨SnapshotFile.verify_new .., _, StateMachine.fromJson_toJson n.sm⟩, hnew.2⟩

/-! ## Opening what is left -/

/-- The log continues the snapshot that is loaded. -/
def Log.Continues (snap : Option SnapshotFile) (rs : List Record) : Prop :=
  ∀ r ∈ rs.head?, r.prevHash = seedOf snap ∧ (seedOf snap = zeroHash → r.index = 1)

/-- A directory whose log continues its snapshot opens. -/
theorem Host.opens_of_continues {cfg : RaftConfig} {k : Disk} {snap : Option SnapshotFile}
    {seed : Hash} (hv : cfg.validate = .ok ()) (hload : Snapshot.load k = .ok snap)
    (hsnap : ∀ f ∈ snap, f.Intact) (hc : Log.Chained cfg.shard seed k.log)
    (hi : ∃ a, Log.Indexed a k.log) (hcont : Log.Continues snap k.log) (now : Nat) :
    ∃ n st, exec (openNode cfg now) ⟨k, Faults.none⟩ = (.ok n, st) ∧ n.log.entries = k.log ∧
      n.snapshotIndex = (snap.map (·.lastIncludedIndex)).getD 0 := by
  obtain ⟨sm, hsm⟩ : ∃ sm, startMachine cfg snap = .ok sm := by
    cases snap with
    | none => exact ⟨_, rfl⟩
    | some f => exact (hsnap f rfl).machine
  have hlog := Log.exec_open_continued (k := k) hc hi hcont
  obtain ⟨n, st, hopen⟩ : ∃ n st, exec (openNode cfg now) ⟨k, Faults.none⟩ = (.ok n, st) := by
    unfold openNode
    simp only [hv, exec_fileOp_bind_none, exec_get_bind, id, hload, hsm]
    unfold openOver
    exact ⟨_, _, by rw [exec_bind_ok hlog, exec_get_bind, exec_pure]⟩
  obtain ⟨-, snap', -, l, hload', hlog', hn, -⟩ := openNode_read hopen
  obtain rfl : snap = snap' := Except.ok.inj (hload.symm.trans hload')
  rw [Faults.none_next, hlog] at hlog'
  cases hlog'
  simp only [Node.filed, Prod.mk.injEq] at hn
  exact ⟨n, _, hopen, by rw [hn.2.1], hn.2.2⟩

/-! ## Crashes -/

/-- How many file operations of `maybe_snapshot` are done. -/
def Host.written (s : Host) (faults : Faults) : Nat :=
  reachOf (saveOps s.store.disk + 7) faults.shard

/-- The node `n` has a snapshot as new as `s` had, and every entry of the log behind it. -/
structure Host.Recovered (s : Host) (n : Node) : Prop where
  snapshot : s.node.snapshotIndex ≤ n.snapshotIndex
  entries : ∀ r ∈ s.node.log.entries, n.snapshotIndex < r.index →
    ∃ r' ∈ n.log.entries, r'.index = r.index ∧ r'.term = r.term ∧ r'.payload = r.payload

theorem Host.Backed.previous_none {s : Host} (hb : s.Backed) (hnone : s.store.disk.snapshot = none) :
    s.store.disk.snapshotPrev = none := by
  cases hp : s.store.disk.snapshotPrev with
  | none => rfl
  | some p =>
    obtain ⟨-, g, hg, -⟩ := hb.previous p hp
    rw [hnone] at hg
    cases hg

/-- What `maybe_snapshot` leaves. -/
theorem Host.Backed.leftAt {s : Host} {f : SnapshotFile} (hb : s.Backed)
    (hdue : s.node.dueSnapshot = some f) (now : Nat) (faults : Faults) :
    s.store.disk.LeftAt f (s.node.log.behind f) (s.written faults)
      (exec maybeSnapshot (s.prepared now faults)).2.store.disk := by
  rw [maybeSnapshot_store (h := s.prepared now faults) hdue]
  exact Snapshot.stops (s.node.dueSnapshot_intact hdue).1.verified
    (fun g hg => (hb.current g hg).verified) hb.previous_none

/-- The directory of a node is loaded as it is. -/
theorem Host.Backed.load {s : Host} (hb : s.Backed) :
    Snapshot.load s.store.disk = .ok s.store.disk.snapshot := by
  unfold Snapshot.load
  cases hs : s.store.disk.snapshot with
  | none =>
    rw [hb.previous_none hs]
    rfl
  | some g => simp only [Snapshot.readOne, (hb.current g hs).verified]

/-- **A crash while a snapshot is taken.** In every run of a process without failures, let
`maybe_snapshot` write `f` and stop at any file operation, or come to its end, in a directory that
could be opened before. What is left opens, with nothing missing, exactly when it does not stop between
the two renames over a log that does not continue `f`. -/
theorem snapshot_crash {h : History Host Input} {s : Host} {f : SnapshotFile} {cfg : RaftConfig}
    {faults : Faults} {now now₀ now' : Nat} {n₀ : Node} {st₀ : Store} (hr : Process.NormalRun h s)
    (hdue : s.node.dueSnapshot = some f) (hcfg : s.node.cfg.sameMember cfg)
    (hopen : exec (openNode cfg now₀) ⟨s.store.disk, Faults.none⟩ = (.ok n₀, st₀))
    (hz : saveOps s.store.disk + 5 ≤ s.written faults → f.seedBytes ≠ zeroHash) :
    (∃ n st, exec (openNode cfg now')
        ⟨(exec maybeSnapshot (s.prepared now faults)).2.store.disk, Faults.none⟩ = (.ok n, st) ∧
      s.Recovered n) ↔
    ¬(saveOps s.store.disk ≤ s.written faults ∧ s.written faults < saveOps s.store.disk + 5 ∧
      ¬f.Continued s.store.disk.log) := by
  have hb := hr.backed
  obtain ⟨hintact, hnew⟩ := s.node.dueSnapshot_intact hdue
  obtain ⟨hload, hlog⟩ := hb.leftAt hdue now faults
  generalize (exec maybeSnapshot (s.prepared now faults)).2.store.disk = k' at hload hlog ⊢
  obtain ⟨hv, snap, -, l, hsnap, hopened, -⟩ := openNode_read hopen
  obtain rfl : s.store.disk.snapshot = snap := Except.ok.inj (hb.load.symm.trans hsnap)
  obtain ⟨hchained, a, hi⟩ := hb.log_chained
  rw [← hcfg.2.2] at hchained
  have hcont := Log.continued_of_open hchained hopened
  have hfile := hb.file
  -- a snapshot that the log of the node continues
  have hsame : ∀ snap, k'.log = s.store.disk.log → Snapshot.load k' = .ok snap →
      (∀ g ∈ snap, g.Intact) → Log.Continues snap s.store.disk.log →
      s.node.snapshotIndex ≤ (snap.map (·.lastIncludedIndex)).getD 0 →
      ∃ n st, exec (openNode cfg now') ⟨k', Faults.none⟩ = (.ok n, st) ∧ s.Recovered n := by
    intro snap hk hload hg hcont hle
    obtain ⟨n, st, hx, hn, hidx⟩ := opens_of_continues hv hload hg (hk ▸ hchained) ⟨a, hk ▸ hi⟩
      (hk ▸ hcont) now'
    refine ⟨n, st, hx, hidx ▸ hle, fun r hr _ => ⟨r, ?_, rfl, rfl, rfl⟩⟩
    rw [hn, hk, hfile]
    exact hr
  rcases Nat.lt_or_ge (s.written faults) (saveOps s.store.disk) with hlt | hge
  · -- the older snapshot over its log
    rw [if_pos hlt] at hload
    rw [if_pos (Nat.lt_add_right 5 hlt)] at hlog
    exact iff_of_true (hsame _ hlog hload hb.current hcont hb.index.le) fun hcut =>
      absurd hcut.1 (Nat.not_le.2 hlt)
  rw [if_neg (Nat.not_lt.2 hge)] at hload
  have hf : ∀ g ∈ some f, g.Intact := fun g hg => Option.some.inj hg ▸ hintact
  rcases Nat.lt_or_ge (s.written faults) (saveOps s.store.disk + 5) with hlt | hdone
  · -- the new one over the same log
    rw [if_pos hlt] at hlog
    constructor
    · rintro ⟨n, st, hx, -⟩ ⟨-, -, hnot⟩
      obtain ⟨-, snap, -, l, hsnap, hopened, -⟩ := openNode_read hx
      obtain rfl : some f = snap := Except.ok.inj (hload.symm.trans hsnap)
      have hc := Log.continued_of_open (hlog ▸ hchained) hopened
      exact hnot (hlog ▸ hc)
    · intro hcut
      exact hsame _ hlog hload hf (not_not.1 fun hnot => hcut ⟨hge, hlt, hnot⟩) hnew.le
  · -- the new one and the log behind it
    rw [if_neg (Nat.not_lt.2 hdone)] at hlog
    have hshard : s.node.log.shard = cfg.shard := hb.ofShard.trans hcfg.2.2.symm
    rw [hfile] at hchained hi
    have hc : Log.Chained cfg.shard f.seedBytes (s.node.log.behind f) := by
      rw [Log.behind, hshard]
      exact Log.chained_rechain _ fun r hr => hchained.shard_eq r (List.mem_of_mem_filter hr)
    have hindexed : Log.Indexed (a + (f.lastIncludedIndex + 1 - a)) (s.node.log.behind f) := by
      rw [Log.behind, hi.filter_gt]
      exact LogFile.indexed_rechain (LogFile.indexed_drop hi _) _ _
    have hhead : Log.Continues (some f) k'.log := by
      intro r hr
      obtain ⟨rs, hrs⟩ := List.head?_eq_some_iff.1 hr
      rw [← hlog, hrs] at hc
      exact ⟨(Log.scan_cons.1 hc).2.2.2.1, fun hzero => absurd hzero (hz hdone)⟩
    obtain ⟨n, st, hx, hn, hidx⟩ :=
      opens_of_continues hv hload hf (hlog ▸ hc) ⟨_, hlog ▸ hindexed⟩ hhead now'
    refine iff_of_true ⟨n, st, hx, hidx ▸ hnew.le, fun r hr hlt => ?_⟩ fun hcut =>
      absurd hcut.2.1 (Nat.not_lt.2 hdone)
    rw [hidx] at hlt
    rw [hn, hlog]
    exact Log.exists_mem_rechain (List.mem_filter.2 ⟨hr, by simpa using hlt⟩)

end

section
attribute [local instance] SerdeJson.sample

/-- It learns three entries, of which two are committed, and is to snapshot. -/
theorem threeEntries_run : ∃ h s f, Process.NormalRun h s ∧ s.node.dueSnapshot = some f ∧
    s.store.disk.snapshot = none ∧ s.node.cfg.validate = .ok () ∧
    s.node.log.entries.map (·.index) = [1, 2, 3] := by
  have hrun : (follow Process.step (fun _ _ e => e.faults = Faults.none) (twoSnapshots.take 1) []
      eagerNode).map (fun r => (r.2.node.dueSnapshot.isSome, r.2.store.disk.snapshot.isSome,
        r.2.node.cfg.validate.toBool, r.2.node.log.entries.map (·.index))) =
          some (true, false, true, [1, 2, 3]) := by
    decide +kernel
  obtain ⟨⟨h, s⟩, hf, hl⟩ := Option.map_eq_some_iff.1 hrun
  simp only [Prod.mk.injEq, Option.isSome_eq_false_iff, Option.isNone_iff_eq_none] at hl
  obtain ⟨hdue, hnone, hv, hindex⟩ := hl
  obtain ⟨f, hdue⟩ := Option.isSome_iff_exists.1 hdue
  refine ⟨h, s, f, Run.follow (.start ⟨threeCfg "n1", 0, eagerNode_opens⟩) hf, hdue, hnone, ?_,
    hindex⟩
  cases hx : s.node.cfg.validate with
  | ok u => rfl
  | error e => rw [hx] at hv; cases hv

/-- The process stops at the second file operation of a snapshot, and comes back with all its
entries. -/
theorem snapshot_crash_early : ∃ h s f, Process.NormalRun h s ∧ s.node.dueSnapshot = some f ∧
    ∃ n st, exec (openNode s.node.cfg 30)
      ⟨(exec maybeSnapshot (s.prepared 20 ⟨[], [true, false]⟩)).2.store.disk, Faults.none⟩ =
        (.ok n, st) ∧ s.Recovered n := by
  obtain ⟨h, s, f, hr, hdue, hnone, hv, hindex⟩ := threeEntries_run
  have hb := hr.backed
  obtain ⟨hchained, hi⟩ := hb.log_chained
  have hcont : Log.Continues s.store.disk.snapshot s.store.disk.log := by
    intro r hr
    rw [← hb.seed]
    rw [hb.file] at hr hchained
    obtain ⟨rs, hrs⟩ := List.head?_eq_some_iff.1 hr
    rw [hrs] at hchained hindex
    exact ⟨(Log.scan_cons.1 hchained).2.2.2.1, fun _ => by simpa using (List.cons.inj hindex).1⟩
  obtain ⟨n₀, st₀, hopen, -⟩ := opens_of_continues hv hb.load hb.current hchained hi hcont 0
  have hone : s.written ⟨[], [true, false]⟩ = 1 := rfl
  have hsix : 6 ≤ saveOps s.store.disk := by
    unfold saveOps
    split <;> omega
  exact ⟨h, s, f, hr, hdue, (snapshot_crash hr hdue ⟨rfl, rfl, rfl⟩ hopen
    (fun hle => by omega)).2 fun hcut => by omega⟩

end

end Rdsctl.Ha
