import Rdsctl.Ha.Frame
import Rdsctl.Ha.Refine
import Rdsctl.Ha.Reopen

/-!
# Falling back to the previous snapshot

`load` of `src/ha/snapshot.rs` takes the previous snapshot when the current one cannot be read, and
`Node::open` of `src/ha/raft.rs` opens the log over it. Only the first record of the log shows that
a newer snapshot was there: its hash chain starts from that one. A log that was compacted away
shows nothing (`coversDamaged_iff`).
-/

namespace Rdsctl.Ha

open Fallible Host

section
variable [SerdeJson]

/-- A snapshot file that `read_one` gives nothing for: it fails its check, it does not parse, or it
is not there. -/
def Snapshot.Unreadable (d : Option SnapshotFile) : Prop := ∀ s, readOne d ≠ .ok (some s)

/-- The part of a node that its files answer to. -/
def Node.filed (n : Node) : RaftConfig × Log × Nat := (n.cfg, n.log, n.snapshotIndex)

/-- A snapshot as it was written. -/
structure SnapshotFile.Intact (f : SnapshotFile) : Prop where
  verified : f.verify = .ok ()
  machine : ∃ sm, StateMachine.fromJson f.stateJson = .ok sm

/-- The first record of the log continues the hash chain from the snapshot; an empty log does. -/
def SnapshotFile.Continued (p : SnapshotFile) (rs : List Record) : Prop :=
  ∀ r ∈ rs.head?, r.prevHash = p.seedBytes ∧ (p.seedBytes = zeroHash → r.index = 1)

/-- The directory with `d` in the place of the current snapshot. -/
def Disk.damaged (k : Disk) (d : Option SnapshotFile) : Disk := { k with snapshot := d }

/-- However the current snapshot `f` is damaged, and however the node is opened then: if it opens,
it is as far as the snapshot was. -/
def Host.CoversDamaged (h : Host) (f : SnapshotFile) : Prop :=
  ∀ d cfg now faults n st, Snapshot.Unreadable d → h.node.cfg.sameMember cfg →
    exec (openNode cfg now) ⟨h.store.disk.damaged d, faults⟩ = (.ok n, st) →
    f.lastIncludedIndex ≤ n.commitIndex ∧ f.lastIncludedIndex ≤ n.sm.appliedIndex

/-- The runs of a process from an empty directory in which no file operation fails. -/
abbrev Process.NormalRun : History Host Input → Host → Prop :=
  Run Process.step (fun _ _ e => e.faults = Faults.none) fun h =>
    ∃ cfg now, exec (openNode cfg now) ⟨Disk.empty, Faults.none⟩ = (.ok h.node, h.store)

/-! ## What the directory holds -/

/-- The directory after a snapshot was saved. -/
def Disk.saved (k : Disk) (f : SnapshotFile) : Disk :=
  { k with snapshot := some f, snapshotTmp := none, snapshotPrev := k.snapshot.or k.snapshotPrev }

omit [SerdeJson] in
theorem Snapshot.exec_save (f : SnapshotFile) (k : Disk) :
    exec (save f) ⟨k, Faults.none⟩ = (.ok (), ⟨k.saved f, Faults.none⟩) := by
  unfold save
  simp only [exec_fileOp_bind_none, exec_get_bind, id, exec_ite, exec_fileOp_none]
  cases hk : k.snapshot with
  | none => simp [Disk.saved, hk]
  | some g => simp [Disk.saved, hk]

/-- The node is backed by its directory: the file is that of its log, the chain of the log starts
from the current snapshot, and the previous snapshot is older. -/
structure Host.Backed (h : Host) : Prop where
  faults : h.store.faults = Faults.none
  valid : h.node.cfg.validate = .ok ()
  ofShard : h.node.log.shard = h.node.cfg.shard
  file : h.store.disk.log = h.node.log.entries
  chained : Log.Chained h.node.cfg.shard h.node.log.seedHash h.node.log.entries
  indexed : ∃ a, Log.Indexed a h.node.log.entries
  seed : h.node.log.seedHash = seedOf h.store.disk.snapshot
  index : h.node.snapshotIndex = (h.store.disk.snapshot.map (·.lastIncludedIndex)).getD 0
  current : ∀ f ∈ h.store.disk.snapshot, f.Intact
  previous : ∀ p ∈ h.store.disk.snapshotPrev, p.Intact ∧
    ∃ f ∈ h.store.disk.snapshot, p.lastIncludedIndex < f.lastIncludedIndex

theorem Host.Backed.congr {h h' : Host} (hb : h.Backed) (hn : h'.node.filed = h.node.filed)
    (hs : h'.store = h.store) : h'.Backed := by
  simp only [Node.filed, Prod.mk.injEq] at hn
  obtain ⟨hcfg, hlog, hindex⟩ := hn
  constructor
  · rw [hs]; exact hb.faults
  · rw [hcfg]; exact hb.valid
  · rw [hcfg, hlog]; exact hb.ofShard
  · rw [hs, hlog]; exact hb.file
  · rw [hcfg, hlog]; exact hb.chained
  · rw [hlog]; exact hb.indexed
  · rw [hs, hlog]; exact hb.seed
  · rw [hs, hindex]; exact hb.index
  · rw [hs]; exact hb.current
  · rw [hs]; exact hb.previous

omit [SerdeJson] in
/-- A batch that is taken is numbered on. -/
theorem Log.indexed_appended {l : Log} {batch : List PendingEntry} {a : Nat}
    (h : Indexed a l.entries) (hgap : numberingGap (l.lastIndex + 1) batch = none) :
    ∃ b, Indexed b (l.appended batch).entries := by
  have hst := LogFile.indexed_stage hgap l.shard l.prevHashForNext
  cases he : l.entries with
  | nil => exact ⟨l.lastIndex + 1, by simpa [appended, he] using hst⟩
  | cons r rs =>
    rw [LogFile.lastIndex_succ h (by simp [he])] at hst
    exact ⟨a, by simpa [appended, he] using LogFile.indexed_append h hst⟩

theorem Host.Backed.append {h : Host} (hb : h.Backed) (batch : List PendingEntry) :
    (exec (appendBatch batch) h).2.Backed := by
  obtain ⟨n, ⟨k, f⟩, now⟩ := h
  obtain rfl : f = Faults.none := hb.faults
  rcases eq_or_ne batch [] with rfl | hne
  · exact hb
  cases hgap : Log.numberingGap (n.log.lastIndex + 1) batch with
  | some g =>
    obtain ⟨e, he⟩ : ∃ e, exec (appendBatch batch) ⟨n, ⟨k, Faults.none⟩, now⟩ =
        (.error e, ⟨{ n with fsyncOk := false }, ⟨k, Faults.none⟩, now⟩) :=
      exec_appendBatch_gap hne hgap
    rw [he]
    exact hb.congr rfl rfl
  | none =>
    rw [exec_appendBatch_ok hne hgap]
    obtain ⟨a, ha⟩ := hb.indexed
    have hfile : k.log = n.log.entries := hb.file
    exact { hb with
      file := by
        show k.log ++ _ = _
        rw [hfile]
        rfl
      chained := Log.Chained.appended hb.chained hb.ofShard
      indexed := Log.indexed_appended ha hgap }

theorem Host.Backed.truncate {h : Host} (hb : h.Backed) (start : Nat) :
    (exec (onLog fun l => l.truncateSuffix start) h).2.Backed := by
  obtain ⟨n, ⟨k, f⟩, now⟩ := h
  obtain rfl : f = Faults.none := hb.faults
  rcases Nat.lt_or_ge n.log.lastIndex start with hlt | hge
  · have hx : exec (n.log.truncateSuffix start) ⟨k, Faults.none⟩ =
        (.ok n.log, ⟨k, Faults.none⟩) := by
      rw [Log.truncateSuffix, if_pos hlt, exec_pure]
    rw [exec_onLog_ok hx]
    exact hb
  · have hx : exec (n.log.truncateSuffix start) ⟨k, Faults.none⟩ = exec (n.log.rewrite
        (n.log.entries.filter fun r => decide (r.index < start)) n.log.seedHash)
        ⟨k, Faults.none⟩ := by
      rw [Log.truncateSuffix, if_neg (Nat.not_lt.2 hge)]
    rw [exec_onLog_ok (hx.trans (Log.exec_rewrite_none _ _ _ _))]
    obtain ⟨a, ha⟩ := hb.indexed
    have ha : Log.Indexed a n.log.entries := ha
    exact { hb with
      file := rfl
      chained := Log.Chained.rewritten hb.chained hb.ofShard fun _ hr => List.mem_of_mem_filter hr
      indexed := ⟨a, by
        show Log.Indexed a (Log.rechain _ _ _)
        rw [ha.filter_lt]
        exact LogFile.indexed_rechain (LogFile.indexed_take ha _) _ _⟩ }

/-- The log is compacted to a newer snapshot. -/
theorem Host.Backed.compact {n n' : Node} {k : Disk} {now : Nat} {f : SnapshotFile}
    (hb : Backed ⟨n, ⟨k, Faults.none⟩, now⟩) (hf : f.Intact)
    (hnew : n.snapshotIndex < f.lastIncludedIndex)
    (hn : n'.filed = (n.cfg, n.log.rewritten
      (n.log.entries.filter fun r => decide (f.lastIncludedIndex < r.index)) f.seedBytes,
      f.lastIncludedIndex)) :
    Backed ⟨n', ⟨{ k.saved f with
      log := Log.rechain n.log.shard f.seedBytes
        (n.log.entries.filter fun r => decide (f.lastIncludedIndex < r.index))
      logTmp := [] }, Faults.none⟩, now⟩ := by
  simp only [Node.filed, Prod.mk.injEq] at hn
  obtain ⟨hcfg, hlog, hindex⟩ := hn
  obtain ⟨a, ha⟩ := hb.indexed
  have ha : Log.Indexed a n.log.entries := ha
  have hprev : ∀ p ∈ (k.saved f).snapshotPrev, p.Intact ∧
      ∃ g ∈ (k.saved f).snapshot, p.lastIncludedIndex < g.lastIncludedIndex := by
    intro p hp
    have hidx : n.snapshotIndex = (k.snapshot.map (·.lastIncludedIndex)).getD 0 := hb.index
    cases hk : k.snapshot with
    | some g =>
      have hp : k.snapshot.or k.snapshotPrev = some p := hp
      rw [hk, Option.some_or] at hp
      cases hp
      rw [hk] at hidx
      have hidx : n.snapshotIndex = p.lastIncludedIndex := hidx
      exact ⟨hb.current p hk, f, rfl, hidx ▸ hnew⟩
    | none =>
      have hp : k.snapshot.or k.snapshotPrev = some p := hp
      rw [hk, Option.none_or] at hp
      obtain ⟨-, g, hg, -⟩ := hb.previous p hp
      rw [show k.snapshot = some g from hg] at hk
      cases hk
  constructor
  · rfl
  · rw [hcfg]; exact hb.valid
  · rw [hcfg, hlog]; exact hb.ofShard
  · rw [hlog]; rfl
  · rw [hcfg, hlog]
    exact Log.Chained.rewritten hb.chained hb.ofShard fun _ hr => List.mem_of_mem_filter hr
  · rw [hlog]
    refine ⟨a + (f.lastIncludedIndex + 1 - a), ?_⟩
    show Log.Indexed _ (Log.rechain _ _ _)
    rw [ha.filter_gt]
    exact LogFile.indexed_rechain (LogFile.indexed_drop ha _) _ _
  · rw [hlog]; rfl
  · rw [hindex]; rfl
  · intro g hg
    cases hg
    exact hf
  · exact hprev

theorem Host.Backed.install {h : Host} {f : SnapshotFile} (hb : h.Backed)
    (hv : f.verify = .ok ()) (hnew : h.node.snapshotIndex < f.lastIncludedIndex) :
    (exec (installSnapshot f) h).2.Backed := by
  obtain ⟨n, ⟨k, fs⟩, now⟩ := h
  obtain rfl : fs = Faults.none := hb.faults
  unfold installSnapshot
  cases hparse : StateMachine.fromJson f.stateJson with
  | error e => exact hb
  | ok sm =>
    have hsave : exec (onStore (Snapshot.save f)) ⟨n, ⟨k, Faults.none⟩, now⟩ =
        (.ok (), ⟨n, ⟨k.saved f, Faults.none⟩, now⟩) := by
      rw [exec_onStore, Snapshot.exec_save]
    have hcut : exec (onLog fun l => l.compactUpto f.lastIncludedIndex f.seedBytes)
        ⟨{ n with sm }, ⟨k.saved f, Faults.none⟩, now⟩ = (.ok (), _) :=
      exec_onLog_ok (Log.exec_rewrite_none _ _ _ _)
    rw [exec_bind_ok hsave, exec_modifyNode_bind, exec_bind_ok hcut, exec_modifyNode]
    exact hb.compact ⟨hv, sm, hparse⟩ hnew rfl

/-- Without faults `maybe_snapshot` does nothing, or it compacts the log to a new snapshot. -/
theorem Host.exec_maybeSnapshot_none (n : Node) (k : Disk) (now : Nat) :
    (exec maybeSnapshot ⟨n, ⟨k, Faults.none⟩, now⟩).2 = ⟨n, ⟨k, Faults.none⟩, now⟩ ∨
      ∃ f : SnapshotFile, f.Intact ∧ n.snapshotIndex < f.lastIncludedIndex ∧
        (exec maybeSnapshot ⟨n, ⟨k, Faults.none⟩, now⟩).2 =
          ⟨n.compactedTo f, ⟨(k.saved f).compactedTo n f, Faults.none⟩, now⟩ := by
  unfold maybeSnapshot
  rw [exec_get_bind]
  simp only [exec_ite]
  split
  · exact .inl rfl
  split
  · exact .inl rfl
  next hgo =>
  rw [not_or, not_le] at hgo
  generalize (n.log.termAt n.sm.appliedIndex).getD n.sm.appliedTerm = term
  obtain ⟨f, hf⟩ : ∃ f, SnapshotFile.new n.cfg.shard n.sm.appliedIndex term n.sm.configEpoch
    n.sm.toJson = f := ⟨_, rfl⟩
  have hidx : n.sm.appliedIndex = f.lastIncludedIndex := by rw [← hf]; rfl
  have hterm : term = f.lastIncludedTerm := by rw [← hf]; rfl
  have hintact : f.Intact :=
    { verified := by rw [← hf, SnapshotFile.verify_new]
      machine := ⟨_, by rw [← hf]; exact StateMachine.fromJson_toJson n.sm⟩ }
  have hsync : exec (onStore Log.sync) ⟨n, ⟨k, Faults.none⟩, now⟩ =
      (.ok (), ⟨n, ⟨k, Faults.none⟩, now⟩) := rfl
  have hsave : exec (onStore (Snapshot.save f)) ⟨n, ⟨k, Faults.none⟩, now⟩ =
      (.ok (), ⟨n, ⟨k.saved f, Faults.none⟩, now⟩) := by
    rw [exec_onStore, Snapshot.exec_save]
  have hcut : exec (onLog fun l => l.compactUpto f.lastIncludedIndex f.seedBytes)
      ⟨n, ⟨k.saved f, Faults.none⟩, now⟩ = (.ok (), _) :=
    exec_onLog_ok (Log.exec_rewrite_none _ _ _ _)
  refine .inr ⟨f, hintact, hidx ▸ hgo.2, ?_⟩
  rw [hf, hidx, hterm, exec_bind_ok hsync, exec_bind_ok hsave, exec_bind_ok hcut,
    exec_modifyNode_bind, exec_pure]
  rfl

theorem Host.Backed.snapshot {h : Host} (hb : h.Backed) : (exec maybeSnapshot h).2.Backed := by
  obtain ⟨n, ⟨k, fs⟩, now⟩ := h
  obtain rfl : fs = Faults.none := hb.faults
  rcases exec_maybeSnapshot_none n k now with hx | ⟨f, hintact, hnew, hx⟩
  · rw [hx]
    exact hb
  · rw [hx]
    exact hb.compact hintact hnew rfl

/-- A change of the node that its files do not answer to. -/
theorem Host.Backed.modify {f : Node → Node} (hf : ∀ n, (f n).filed = n.filed) :
    Respects (fun h h' : Host => h.Backed → h'.Backed) (modifyNode f) :=
  fun h hb => hb.congr (hf h.node) rfl

theorem Host.Backed.persist : Respects (fun h h' : Host => h.Backed → h'.Backed)
    persistHardState := by
  rintro ⟨n, ⟨k, fs⟩, now⟩ hb
  obtain rfl : fs = Faults.none := hb.faults
  rw [exec_persist_none]
  exact { hb with }

instance : Std.Refl fun h h' : Host => h.Backed → h'.Backed := ⟨fun _ hb => hb⟩

instance : IsTrans Host fun h h' => h.Backed → h'.Backed :=
  ⟨fun _ _ _ hab hbc hb => hbc (hab hb)⟩

/-- Every call but a restart keeps the node backed. -/
theorem Host.Backed.rule (t : Nat) : CallRule t fun h h' => h.Backed → h'.Backed where
  refl _ hb := hb
  trans _ _ _ hab hbc hb := hbc (hab hb)
  quiet f hf := Backed.modify fun n => by
    have hcore := hf n
    simp only [Node.core, Prod.mk.injEq] at hcore
    simp [Node.filed, hcore]
  follow term leader h _ := by
    refine Respects.bind (R := fun h h' => h.Backed → h'.Backed) .get (fun h => ?_) h
    split
    · refine .bind (Backed.modify fun _ => rfl) fun _ => .bind Backed.persist fun _ => ?_
      exact Backed.modify fun _ => rfl
    · exact Backed.modify fun _ => rfl
  votes candidate := Backed.modify fun _ => rfl
  leads now := Backed.modify fun _ => rfl
  persist := Backed.persist
  append batch h hb := hb.append batch
  truncate start h hb := hb.truncate start
  install f h hv hnew hb := hb.install hv hnew
  snapshot h hb := hb.snapshot

theorem Host.Backed.election : ElectionRule fun h h' => h.Backed → h'.Backed where
  asks now := Backed.modify fun n => by
    obtain ⟨_, _, hn⟩ := n.resetElectionDeadline_frame now
    simp only [Node.startPreVote, hn]
    split <;> rfl
  counts voter := Backed.modify fun _ => rfl
  stands := by
    refine .bind (Backed.modify fun _ => rfl) fun _ => .bind Backed.persist fun _ => ?_
    refine .bind (Backed.modify fun _ => rfl) fun _ => .bind .get fun h => ?_
    refine .bind (Backed.modify fun n => ?_) fun _ => .bind .get fun _ => .pure _
    obtain ⟨_, _, hn⟩ := n.resetElectionDeadline_frame h.now
    rw [hn]
    rfl

/-! ## Opening -/

/-- What a node that opens has read, whatever the faults. -/
theorem openNode_read {cfg : RaftConfig} {now : Nat} {k : Disk} {fs : Faults} {n : Node}
    {st : Store} (hx : exec (openNode cfg now) ⟨k, fs⟩ = (.ok n, st)) :
    cfg.validate = .ok () ∧ ∃ snap sm l, Snapshot.load k = .ok snap ∧
      exec (Log.open' cfg.shard (seedOf snap)) ⟨k, (fs.next .node).2⟩ = (.ok l, st) ∧
      n.filed = (cfg, l, (snap.map (·.lastIncludedIndex)).getD 0) ∧
      n.snapshotTerm = (snap.map (·.lastIncludedTerm)).getD 0 ∧
      n.commitIndex = (snap.map (·.lastIncludedIndex)).getD 0 ∧
      startMachine cfg snap = .ok sm := by
  unfold openNode at hx
  split at hx
  · cases hx
  next hv =>
  refine ⟨hv, ?_⟩
  have hfile : exec (fileOp .node id) ⟨k, fs⟩ =
      if (fs.next .node).1 then (.ok (), ⟨k, (fs.next .node).2⟩)
      else (.error .io, ⟨k, (fs.next .node).2⟩) := rfl
  rw [exec_bind, hfile] at hx
  split at hx
  · next u st1 hst =>
    split at hst
    · cases hst
      rw [exec_get_bind] at hx
      split at hx
      · cases hx
      next snap hload =>
      split at hx
      · cases hx
      next sm hsm =>
      unfold openOver at hx
      rcases ho : exec (Log.open' cfg.shard (seedOf snap)) ⟨k, (fs.next .node).2⟩ with ⟨(e | l), st2⟩
      · rw [exec_bind_error ho] at hx
        cases hx
      rw [exec_bind_ok ho, exec_get_bind] at hx
      cases hx
      obtain ⟨_, _, hreset⟩ := (opened cfg l sm
        (st.disk.hardState.getD HardState.default) snap).resetElectionDeadline_frame now
      obtain ⟨_, _, _, happ⟩ := ((opened cfg l sm
        (st.disk.hardState.getD HardState.default) snap).resetElectionDeadline
          now).applyCommitted_frame
      rw [happ, hreset]
      exact ⟨snap, sm, l, hload, ho, rfl, rfl, rfl, hsm⟩
    · cases hst
  · cases hx

/-- A directory that holds a log on its current snapshot, and an older snapshot beside it. -/
structure Disk.Sound (shard : Nat) (k : Disk) : Prop where
  chained : Log.Chained shard (seedOf k.snapshot) k.log
  indexed : ∃ a, Log.Indexed a k.log
  current : ∀ f ∈ k.snapshot, f.Intact
  previous : ∀ p ∈ k.snapshotPrev, p.Intact ∧
    ∃ f ∈ k.snapshot, p.lastIncludedIndex < f.lastIncludedIndex

theorem Disk.sound_empty (shard : Nat) : Disk.empty.Sound shard where
  chained := Log.chained_nil _ _
  indexed := ⟨0, by intro j r hr; simp [Disk.empty] at hr⟩
  current f hf := by cases hf
  previous p hp := by cases hp

theorem Host.Backed.sound {h : Host} (hb : h.Backed) : h.store.disk.Sound h.node.cfg.shard where
  chained := by
    rw [← hb.seed, hb.file]
    exact hb.chained
  indexed := by
    rw [hb.file]
    exact hb.indexed
  current := hb.current
  previous := hb.previous

/-- A node that opens such a directory has read what it holds. -/
theorem Disk.Sound.opened {cfg : RaftConfig} {now : Nat} {k : Disk} {n : Node} {st : Store}
    (hk : k.Sound cfg.shard) (hx : exec (openNode cfg now) ⟨k, Faults.none⟩ = (.ok n, st)) :
    cfg.validate = .ok () ∧ st = ⟨k, Faults.none⟩ ∧
      n.filed = (cfg, ⟨cfg.shard, k.log, seedOf k.snapshot, 0⟩,
        (k.snapshot.map (·.lastIncludedIndex)).getD 0) ∧
      n.snapshotTerm = (k.snapshot.map (·.lastIncludedTerm)).getD 0 := by
  obtain ⟨hv, snap, sm, l, hload, hopen, hn, hterm, -⟩ := openNode_read hx
  obtain rfl : k.snapshot = snap := by
    unfold Snapshot.load at hload
    cases hs : k.snapshot with
    | some f =>
      rw [hs, Snapshot.readOne, (hk.current f hs).verified] at hload
      exact Except.ok.inj hload
    | none =>
      have hp : k.snapshotPrev = none := by
        cases hp : k.snapshotPrev with
        | none => rfl
        | some p =>
          obtain ⟨-, f, hf, -⟩ := hk.previous p hp
          rw [show k.snapshot = some f from hf] at hs
          cases hs
      rw [hs, hp] at hload
      exact Except.ok.inj hload
  rw [Faults.none_next] at hopen
  obtain ⟨rfl, rfl⟩ := Log.exec_open_none hk.chained hopen
  exact ⟨hv, rfl, hn, hterm⟩

/-- A directory opens to a node that it backs. -/
theorem Host.backed_of_open {cfg : RaftConfig} {now now' : Nat} {k : Disk} {n : Node} {st : Store}
    (hk : k.Sound cfg.shard) (hx : exec (openNode cfg now) ⟨k, Faults.none⟩ = (.ok n, st)) :
    Backed ⟨n, st, now'⟩ := by
  obtain ⟨hv, rfl, hn, -⟩ := hk.opened hx
  simp only [Node.filed, Prod.mk.injEq] at hn
  obtain ⟨rfl, hlog, hindex⟩ := hn
  constructor
  · rfl
  · exact hv
  · rw [hlog]
  · rw [hlog]
  · rw [hlog]; exact hk.chained
  · rw [hlog]; exact hk.indexed
  · rw [hlog]
  · exact hindex
  · exact hk.current
  · exact hk.previous

/-- An invariant that backs the node holds in every run, if opening brings it about and the calls
keep it. -/
theorem Process.NormalRun.keeps {I : Host → Prop} (hback : ∀ s, I s → s.Backed)
    (hopen : ∀ {cfg now now' k n st}, Disk.Sound cfg.shard k →
      exec (openNode cfg now) ⟨k, Faults.none⟩ = (.ok n, st) → I ⟨n, st, now'⟩)
    (hready : ∀ s now, I s → I (s.prepared now Faults.none))
    (hrule : ∀ t, CallRule t fun h h' => I h → I h') (helect : ElectionRule fun h h' => I h → I h')
    {h : History Host Input} {s : Host} (hr : NormalRun h s) : I s := by
  refine Run.invariant (I := fun _ s => I s) ?_ ?_ hr
  · rintro ⟨n, st, now'⟩ ⟨cfg, now, hx⟩
    exact hopen (Disk.sound_empty _) hx
  · intro h s e s' _ hs hfaults hstep
    obtain ⟨⟨out, s''⟩, hserve, rfl⟩ := Option.map_eq_some_iff.1 hstep
    rw [hfaults] at hserve
    have hready := hready s e.now hs
    by_cases hreq : ∀ cfg, e.request ≠ .restart cfg
    · exact CallRule.serve hrule helect hreq hserve hready
    · simp only [not_forall, not_not] at hreq
      obtain ⟨cfg, hreq⟩ := hreq
      rw [hreq, Host.serve] at hserve
      split at hserve
      · next hcfg =>
        split at hserve
        · next n st hx =>
          cases hserve
          have hsound := (hback s hs).sound
          rw [show s.node.cfg.shard = cfg.shard from hcfg.2.2.symm] at hsound
          exact hopen hsound hx
        · cases hserve
      · cases hserve

theorem Process.NormalRun.backed {h : History Host Input} {s : Host} (hr : NormalRun h s) :
    s.Backed :=
  hr.keeps (fun _ hb => hb) Host.backed_of_open (fun _ _ hb => { hb with faults := rfl })
    Host.Backed.rule Host.Backed.election

/-! ## Opening over the previous snapshot -/

omit [SerdeJson] in
/-- A chained log only opens over a snapshot that it continues. -/
theorem Log.continued_of_open {shard : Nat} {seed seed' : Hash} {k : Disk} {fs : Faults} {l : Log}
    {st : Store} (hc : Chained shard seed' k.log)
    (hx : exec (open' shard seed) ⟨k, fs⟩ = (.ok l, st)) :
    ∀ r ∈ k.log.head?, r.prevHash = seed ∧ (seed = zeroHash → r.index = 1) := by
  intro r hr
  obtain ⟨rs, hlog⟩ : ∃ rs, k.log = r :: rs := by
    cases hk : k.log with
    | nil => simp [hk] at hr
    | cons r' rs => exact ⟨rs, by simpa [hk] using hr⟩
  have hfile : exec (fileOp .shard id) ⟨k, fs⟩ =
      if (fs.next .shard).1 then (.ok (), ⟨k, (fs.next .shard).2⟩)
      else (.error .io, ⟨k, (fs.next .shard).2⟩) := rfl
  unfold open' at hx
  rw [exec_bind, hfile] at hx
  split at hx
  · next u st1 hst =>
    split at hst
    · cases hst
      rw [exec_get_bind] at hx
      simp only [replay, exec_get_bind] at hx
      rw [hlog] at hx hc
      obtain ⟨h1, h2, h3, h4, -⟩ := scan_cons.1 hc
      rcases eq_or_ne seed' seed with rfl | hne
      · refine ⟨h4, fun hz => ?_⟩
        rw [show scan shard 0 seed' (r :: rs) = .whole from hc] at hx
        by_contra hfirst
        simp only [checkIndices, List.head?_cons] at hx
        split at hx
        · cases hx
        · rw [if_pos ⟨hz, hfirst⟩] at hx
          cases hx
      · -- the first record belongs to another chain
        rw [scan, if_neg (not_not.2 h1), if_neg (not_not.2 h2), if_neg (by simp [h3]),
          if_pos (by rw [h4]; exact hne)] at hx
        cases hx
    · cases hst
  · cases hx

omit [SerdeJson] in
/-- A chained log opens over any snapshot that it continues. -/
theorem Log.exec_open_continued {shard : Nat} {seed seed' : Hash} {k : Disk}
    (hc : Chained shard seed' k.log) (hi : ∃ a, Indexed a k.log)
    (hcont : ∀ r ∈ k.log.head?, r.prevHash = seed ∧ (seed = zeroHash → r.index = 1)) :
    exec (open' shard seed) ⟨k, Faults.none⟩ =
      (.ok ⟨shard, k.log, seed, 0⟩, ⟨k, Faults.none⟩) := by
  obtain ⟨a, ha⟩ := hi
  have hgap : indexGap k.log = none := LogFile.indexGap_none ha
  unfold open'
  rw [exec_fileOp_bind_none, exec_get_bind, id]
  simp only [replay, exec_get_bind]
  cases hk : k.log with
  | nil => rfl
  | cons r rs =>
    rw [hk] at hc hcont hgap
    obtain ⟨hprev, hfirst⟩ := hcont r rfl
    obtain ⟨h1, h2, h3, h4, h5⟩ := scan_cons.1 hc
    have hwhole : scan shard 0 seed (r :: rs) = .whole := scan_cons.2 ⟨h1, h2, h3, hprev, h5⟩
    have hhead : ¬(seed = zeroHash ∧ r.index ≠ 1) := fun h => h.2 (hfirst h.1)
    rw [hwhole]
    simp only [checkIndices, hgap, List.head?_cons, if_neg hhead]
    rfl

/-- Whatever the current snapshot is damaged into, the previous one is loaded. -/
theorem Snapshot.load_damaged {k : Disk} {p : SnapshotFile} {d : Option SnapshotFile}
    (hp : k.snapshotPrev = some p) (hv : p.verify = .ok ()) (hd : Unreadable d) :
    load (k.damaged d) = .ok (some p) := by
  have hprev : readOne k.snapshotPrev = .ok (some p) := by
    rw [hp, readOne, hv]
  unfold load
  split
  · next s hs => exact absurd hs (hd s)
  · exact hprev

theorem Host.Backed.log_chained {s : Host} (hb : s.Backed) :
    Log.Chained s.node.cfg.shard s.node.log.seedHash s.store.disk.log ∧
      ∃ a, Log.Indexed a s.store.disk.log := by
  rw [hb.file]
  exact ⟨hb.chained, hb.indexed⟩

/-- Where the log continues the previous snapshot, the node opens at it. -/
theorem Host.Backed.opens_behind {s : Host} {p : SnapshotFile} {d : Option SnapshotFile}
    (hb : s.Backed) (hp : s.store.disk.snapshotPrev = some p) (hd : Snapshot.Unreadable d)
    (hcont : p.Continued s.store.disk.log) :
    ∃ n st, exec (openNode s.node.cfg 0) ⟨s.store.disk.damaged d, Faults.none⟩ = (.ok n, st) ∧
      n.commitIndex = p.lastIncludedIndex := by
  obtain ⟨hintact, -⟩ := hb.previous p hp
  obtain ⟨hchained, hindexed⟩ := hb.log_chained
  obtain ⟨sm, hsm⟩ := hintact.machine
  have hload := Snapshot.load_damaged hp hintact.verified hd
  have hmach : startMachine s.node.cfg (some p) = .ok sm := hsm
  have hlog : exec (Log.open' s.node.cfg.shard (seedOf (some p)))
      ⟨s.store.disk.damaged d, Faults.none⟩ =
        (.ok ⟨s.node.cfg.shard, s.store.disk.log, p.seedBytes, 0⟩,
          ⟨s.store.disk.damaged d, Faults.none⟩) :=
    Log.exec_open_continued (k := s.store.disk.damaged d) hchained hindexed hcont
  have hopen : ∃ n st, exec (openNode s.node.cfg 0)
      ⟨s.store.disk.damaged d, Faults.none⟩ = (.ok n, st) := by
    unfold openNode
    simp only [hb.valid, exec_fileOp_bind_none, exec_get_bind, id, hload, hmach]
    unfold openOver
    exact ⟨_, _, by rw [exec_bind_ok hlog, exec_get_bind, exec_pure]⟩
  obtain ⟨n, st, hopen⟩ := hopen
  obtain ⟨-, snap, -, -, hsnap, -, -, -, hcommit, -⟩ := openNode_read hopen
  obtain rfl : some p = snap := Except.ok.inj (hload.symm.trans hsnap)
  exact ⟨n, st, hopen, hcommit⟩

/-- **Falling back.** In every run without failures, let a node have a current and a previous
snapshot. However the current one is damaged afterwards, the node does not open behind it exactly
when the log is not empty and its first record does not continue the previous one. -/
theorem coversDamaged_iff {h : History Host Input} {s : Host} {f p : SnapshotFile}
    (hr : Process.NormalRun h s) (hf : s.store.disk.snapshot = some f)
    (hp : s.store.disk.snapshotPrev = some p) :
    s.CoversDamaged f ↔ ¬p.Continued s.store.disk.log := by
  have hb := hr.backed
  obtain ⟨hintact, g, hg, hlt⟩ := hb.previous p hp
  obtain rfl : f = g := Option.some.inj (hf.symm.trans hg)
  constructor
  · -- it opens over the previous snapshot, and stays there
    intro hcovers hcont
    have hnone : Snapshot.Unreadable none := by intro s hs; cases hs
    obtain ⟨n, st, hopen, hcommit⟩ := hb.opens_behind hp hnone hcont
    have hle := (hcovers none s.node.cfg 0 Faults.none n st hnone ⟨rfl, rfl, rfl⟩ hopen).1
    rw [hcommit] at hle
    exact Nat.not_lt.2 hle hlt
  · -- it does not open
    intro hnot d cfg now faults n st hd hcfg hx
    obtain ⟨-, snap, -, l, hsnap, hlog, -⟩ := openNode_read hx
    obtain rfl : some p = snap :=
      Except.ok.inj ((Snapshot.load_damaged hp hintact.verified hd).symm.trans hsnap)
    rw [show cfg.shard = s.node.cfg.shard from hcfg.2.2] at hlog
    exact absurd
      (Log.continued_of_open (k := s.store.disk.damaged d) hb.log_chained.1 hlog) hnot

end

section
attribute [local instance] SerdeJson.sample

/-- A member that takes a snapshot of every two entries. It has opened an empty directory. -/
def eagerNode : Host where
  node := ((opened (threeCfg "n1") ⟨0, [], zeroHash, 0⟩
    (StateMachine.new 0 (threeCfg "n1").maxSkewMs) HardState.default none).resetElectionDeadline
      0).applyCommitted
  store := ⟨Disk.empty, Faults.none⟩
  now := 0

/-- It learns three entries, of which two are committed, and takes a snapshot. With the fourth one
all are committed, and the second snapshot leaves no record. -/
def twoSnapshots : List Input :=
  [⟨10, Faults.none, .handle "n2" (.appendEntries 1 "n2" 0 0 [⟨1, 1, "a"⟩, ⟨1, 2, "b"⟩, ⟨1, 3, "c"⟩]
      2 10 0)⟩,
    ⟨20, Faults.none, .maybeSnapshot⟩,
    ⟨30, Faults.none, .handle "n2" (.appendEntries 1 "n2" 3 1 [⟨1, 4, "d"⟩] 4 30 0)⟩,
    ⟨40, Faults.none, .maybeSnapshot⟩]

theorem eagerNode_opens :
    exec (openNode (threeCfg "n1") 0) ⟨Disk.empty, Faults.none⟩ =
      (.ok eagerNode.node, eagerNode.store) := by
  have hv : (threeCfg "n1").validate = .ok () := by decide +kernel
  simp only [openNode, hv]
  rfl

theorem twoSnapshots_run : ∃ h s, Process.NormalRun h s ∧ s.store.disk.log = [] ∧
    (∃ f, s.store.disk.snapshot = some f ∧ f.lastIncludedIndex = 4) ∧
    ∃ p, s.store.disk.snapshotPrev = some p ∧ p.lastIncludedIndex = 2 := by
  have hrun : (follow Process.step (fun _ _ e => e.faults = Faults.none) twoSnapshots []
      eagerNode).map (fun r => (r.2.store.disk.log.isEmpty,
        r.2.store.disk.snapshot.map (·.lastIncludedIndex),
        r.2.store.disk.snapshotPrev.map (·.lastIncludedIndex))) = some (true, some 4, some 2) := by
    decide +kernel
  obtain ⟨⟨h, s⟩, hf, hl⟩ := Option.map_eq_some_iff.1 hrun
  simp only [Prod.mk.injEq, List.isEmpty_iff, Option.map_eq_some_iff] at hl
  exact ⟨h, s, Run.follow (.start ⟨threeCfg "n1", 0, eagerNode_opens⟩) hf, hl⟩

/-- With its second snapshot altered, it opens at the first one, and the entries are missing. -/
theorem opens_behind_snapshot : ∃ h s f n st, Process.NormalRun h s ∧
    s.store.disk.snapshot = some f ∧ f.lastIncludedIndex = 4 ∧
    (∃ p, s.store.disk.snapshotPrev = some p ∧ p.Intact) ∧
    exec (openNode s.node.cfg 0)
      ⟨s.store.disk.damaged (some { f with formatVer := 2 }), Faults.none⟩ = (.ok n, st) ∧
    n.commitIndex = 2 := by
  obtain ⟨h, s, hr, hlog, ⟨f, hf, hidx⟩, p, hp, hpidx⟩ := twoSnapshots_run
  have hd : Snapshot.Unreadable (some { f with formatVer := 2 }) := by
    intro g hg
    have hbad : ({ f with formatVer := 2 } : SnapshotFile).verify = .error _ := 
      if_pos (by decide : (2 : Nat) ≠ SNAPSHOT_FORMAT_VER)
    rw [Snapshot.readOne, hbad] at hg
    cases hg
  have hcont : p.Continued s.store.disk.log := by
    rw [hlog]
    intro r hr
    cases hr
  obtain ⟨n, st, hopen, hcommit⟩ := hr.backed.opens_behind hp hd hcont
  exact ⟨h, s, f, n, st, hr, hf, hidx, ⟨p, hp, (hr.backed.previous p hp).1⟩, hopen,
    hcommit.trans hpidx⟩

theorem not_covers_compacted : ∃ h s f, Process.NormalRun h s ∧ s.store.disk.snapshot = some f ∧
    s.store.disk.log = [] ∧ ¬s.CoversDamaged f := by
  obtain ⟨h, s, hr, hlog, ⟨f, hf, -⟩, p, hp, -⟩ := twoSnapshots_run
  refine ⟨h, s, f, hr, hf, hlog, fun hcovers => (coversDamaged_iff hr hf hp).1 hcovers ?_⟩
  rw [hlog]
  intro r hr
  cases hr

end

end Rdsctl.Ha
