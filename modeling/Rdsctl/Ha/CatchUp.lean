import Rdsctl.Ha.Batch
import Rdsctl.Ha.Fallback

/-!
# Catching up with a snapshot

A leader of `src/ha/raft.rs` whose log is compacted sends its snapshot to a follower that ends
before it, and the entries behind the snapshot next. The follower takes over the state and knows the
term of the last entry in it. Its log is empty then, and `append_batch` of `src/ha/log.rs` numbers
an empty log from 1 (`catchesUp_iff`).
-/

namespace Rdsctl.Ha

open Fallible Host

section
variable [SerdeJson]

/-- A leader with a next index for a peer. -/
def Node.expecting (n : Node) (peer : String) (next : Nat) : Node :=
  { n with nextIndex := n.nextIndex.insert peer next }

/-- A message arrives at a host, and no file operation fails. -/
def Host.receive (h : Host) (now : Nat) (sender : String) (o : Outbound) : List Outbound × Host :=
  handle sender o.msg (h.prepared now Faults.none)

/-- A leader whose log is compacted, and a follower that is not in a later term and whose snapshot
and log end before the leader's snapshot. -/
structure Host.Leaves (l h : Host) : Prop where
  leads : l.node.role = .leader
  term : h.node.hard.currentTerm ≤ l.node.hard.currentTerm
  snapshot : h.node.snapshotIndex < l.node.snapshotIndex
  log : h.node.log.lastIndex < l.node.snapshotIndex

/-- The follower answers the snapshot of the leader and has its state. -/
def Host.TakesOver (l h : Host) (next sentMs now : Nat) (answer : Outbound) (h' : Host) : Prop :=
  ∃ install, (l.node.expecting h.node.cfg.nodeId next).appendFor l.store.disk sentMs
      h.node.cfg.nodeId = [install] ∧
    h.receive now l.node.cfg.nodeId install = ([answer], h') ∧
    ∃ f, l.store.disk.snapshot = some f ∧ StateMachine.fromJson f.stateJson = .ok h'.node.sm

/-- With the answer the leader goes on behind its snapshot, and the follower accepts what it sends
and has it in its log. -/
def Host.Continues (l h : Host) (answer : Outbound) (sentMs now : Nat) : Prop :=
  ∃ l' append reply h', l.receive sentMs h.node.cfg.nodeId answer = ([], l') ∧
    l'.node.nextIndex[h.node.cfg.nodeId]? = some (l.node.snapshotIndex + 1) ∧
    l'.node.appendFor l'.store.disk sentMs h.node.cfg.nodeId = [append] ∧
    h.receive now l.node.cfg.nodeId append = ([reply], h') ∧ reply.matched.isSome = true ∧
    h'.node.log.HoldsBatch (batchOf append.msg)

/-- However often the leader has to go back for it, the follower installs the snapshot and
continues. -/
def Host.CatchesUp (l h : Host) : Prop :=
  ∀ next t t' now now', next ≤ l.node.snapshotIndex →
    ∃ answer h', l.TakesOver h next t now answer h' ∧ l.Continues h' answer t' now'

/-- The records that a leader sends next behind its snapshot. -/
def Node.behindSnapshot (n : Node) : List Record :=
  (n.log.entriesFrom (n.snapshotIndex + 1)).take n.cfg.maxEntriesPerAppend

/-! ## The term of the snapshot -/

/-- The node is backed by its directory, and knows the term of the last entry in its snapshot. -/
structure Host.Dated (h : Host) : Prop where
  backed : h.Backed
  term : h.node.snapshotTerm = (h.store.disk.snapshot.map (·.lastIncludedTerm)).getD 0

/-- The snapshot file stays. -/
def Store.SameSnapshot (st st' : Store) : Prop := st'.disk.snapshot = st.disk.snapshot

instance : Std.Refl Store.SameSnapshot := ⟨fun _ => rfl⟩

instance : IsTrans Store Store.SameSnapshot := ⟨fun _ _ _ hab hbc => hbc.trans hab⟩

/-- The snapshot file and its term stay. -/
def Host.SameSnapshot (h h' : Host) : Prop :=
  h'.node.snapshotTerm = h.node.snapshotTerm ∧ h.store.SameSnapshot h'.store

instance : Std.Refl Host.SameSnapshot := ⟨fun _ => ⟨rfl, rfl⟩⟩

instance : IsTrans Host Host.SameSnapshot :=
  ⟨fun _ _ _ hab hbc => ⟨hbc.1.trans hab.1, hbc.2.trans hab.2⟩⟩

section
omit [SerdeJson]

theorem fileOp_sameSnapshot (d : Dir) {f : Disk → Disk} (hf : ∀ k, (f k).snapshot = k.snapshot) :
    Respects Store.SameSnapshot (fileOp d f) := by
  intro st
  unfold exec fileOp
  split
  · exact hf st.disk
  · rfl

theorem Log.rewrite_sameSnapshot (l : Log) (keep : List Record) (seed : Hash) :
    Respects Store.SameSnapshot (l.rewrite keep seed) := by
  refine .bind (fileOp_sameSnapshot _ fun _ => rfl) fun _ => ?_
  refine .bind (fileOp_sameSnapshot _ fun _ => rfl) fun _ => ?_
  refine .bind (fileOp_sameSnapshot _ fun _ => rfl) fun _ => ?_
  refine .bind (fileOp_sameSnapshot _ fun _ => rfl) fun _ => ?_
  refine .bind (fileOp_sameSnapshot _ fun _ => rfl) fun _ => ?_
  exact .bind (fileOp_sameSnapshot _ fun _ => rfl) fun _ => .pure _

theorem Log.truncateSuffix_sameSnapshot (l : Log) (start : Nat) :
    Respects Store.SameSnapshot (l.truncateSuffix start) :=
  .ite (.pure _) (l.rewrite_sameSnapshot _ _)

theorem Log.appendBatch_sameSnapshot (l : Log) (batch : List PendingEntry) :
    Respects Store.SameSnapshot (l.appendBatch batch) := by
  refine .ite (.pure _) ?_
  split
  · exact .throw _
  · refine .bind (fileOp_sameSnapshot _ fun _ => rfl) fun _ => ?_
    exact .bind (fileOp_sameSnapshot _ fun _ => rfl) fun _ => .pure _

namespace Host

theorem modifyNode_sameSnapshot {f : Node → Node} (hf : ∀ n, (f n).snapshotTerm = n.snapshotTerm) :
    Respects SameSnapshot (modifyNode f) := fun h => ⟨hf h.node, rfl⟩

theorem onStore_sameSnapshot {α : Type} {m : StoreM α} (hm : Respects Store.SameSnapshot m) :
    Respects SameSnapshot (onStore m) := fun h => ⟨rfl, hm h.store⟩

theorem onLog_sameSnapshot {f : Log → StoreM Log}
    (hf : ∀ l, Respects Store.SameSnapshot (f l)) : Respects SameSnapshot (onLog f) := by
  refine .bind .get fun h => .bind (onStore_sameSnapshot (hf _)) fun _ => ?_
  exact modifyNode_sameSnapshot fun _ => rfl

theorem persist_sameSnapshot : Respects SameSnapshot persistHardState := by
  refine .bind .get fun h => onStore_sameSnapshot ?_
  refine .bind (fileOp_sameSnapshot _ fun _ => rfl) fun _ => ?_
  refine .bind (fileOp_sameSnapshot _ fun _ => rfl) fun _ => ?_
  refine .bind (fileOp_sameSnapshot _ fun _ => rfl) fun _ => ?_
  refine .bind (fileOp_sameSnapshot _ fun _ => rfl) fun _ => ?_
  exact fileOp_sameSnapshot _ fun _ => rfl

theorem becomeFollower_sameSnapshot (term : Nat) (leader : Option String) :
    Respects SameSnapshot (becomeFollower term leader) := by
  refine .bind .get fun h => ?_
  split
  · refine .bind (modifyNode_sameSnapshot fun _ => rfl) fun _ => ?_
    exact .bind persist_sameSnapshot fun _ => modifyNode_sameSnapshot fun _ => rfl
  · exact modifyNode_sameSnapshot fun _ => rfl

end Host

end

theorem Host.Dated.of_same {h h' : Host} (hd : h.Dated) (hb : h.Backed → h'.Backed)
    (hs : h.SameSnapshot h') : h'.Dated where
  backed := hb hd.backed
  term := by
    rw [hs.1, hs.2]
    exact hd.term

theorem Host.Dated.install {h : Host} {f : SnapshotFile} (hd : h.Dated) (hv : f.verify = .ok ())
    (hnew : h.node.snapshotIndex < f.lastIncludedIndex) :
    (exec (installSnapshot f) h).2.Dated := by
  obtain ⟨n, ⟨k, fs⟩, now⟩ := h
  obtain rfl : fs = Faults.none := hd.backed.faults
  have hb := hd.backed.install hv hnew
  cases hparse : StateMachine.fromJson f.stateJson with
  | error e =>
    unfold installSnapshot
    rw [hparse]
    exact hd
  | ok sm =>
    obtain ⟨k', hx, hsnap, -, -⟩ := exec_installSnapshot_none n k now hparse
    rw [hx] at hb ⊢
    refine ⟨hb, ?_⟩
    show f.lastIncludedTerm = (k'.snapshot.map (·.lastIncludedTerm)).getD 0
    rw [hsnap]
    rfl

theorem Host.Dated.snapshot {h : Host} (hd : h.Dated) : (exec maybeSnapshot h).2.Dated := by
  obtain ⟨n, ⟨k, fs⟩, now⟩ := h
  obtain rfl : fs = Faults.none := hd.backed.faults
  rcases exec_maybeSnapshot_none n k now with hx | ⟨f, hintact, hnew, hx⟩
  · rw [hx]
    exact hd
  · rw [hx]
    exact ⟨hd.backed.compact hintact hnew rfl, rfl⟩

omit [SerdeJson] in
theorem Host.startElection_sameSnapshot : Respects SameSnapshot startElection := by
  refine .bind (modifyNode_sameSnapshot fun _ => rfl) fun _ => ?_
  refine .bind persist_sameSnapshot fun _ => ?_
  refine .bind (modifyNode_sameSnapshot fun _ => rfl) fun _ => .bind .get fun h => ?_
  refine .bind (modifyNode_sameSnapshot fun n => ?_) fun _ => .bind .get fun _ => .pure _
  obtain ⟨_, _, hn⟩ := n.resetElectionDeadline_frame h.now
  rw [hn]

/-- Every call but a restart keeps the term known. -/
theorem Host.Dated.rule (t : Nat) : CallRule t fun h h' => h.Dated → h'.Dated where
  refl _ hd := hd
  trans _ _ _ hab hbc hd := hbc (hab hd)
  quiet f hf h hd := by
    refine hd.of_same ((Backed.rule t).quiet f hf h) ⟨?_, rfl⟩
    have hcore := hf h.node
    simp only [Node.core, Prod.mk.injEq] at hcore
    exact hcore.2.2.2.2.2.2.2
  follow term leader h hle hd :=
    hd.of_same ((Backed.rule t).follow term leader h hle)
      (becomeFollower_sameSnapshot term leader h)
  votes candidate h hd := hd.of_same ((Backed.rule t).votes candidate h) ⟨rfl, rfl⟩
  leads now h hd := hd.of_same ((Backed.rule t).leads now h) ⟨rfl, rfl⟩
  persist h hd := hd.of_same ((Backed.rule t).persist h) (persist_sameSnapshot h)
  append batch h hd := by
    have hsame : Respects SameSnapshot (appendBatch batch) :=
      .onError (onLog_sameSnapshot fun l => l.appendBatch_sameSnapshot batch) fun _ => ⟨rfl, rfl⟩
    exact hd.of_same ((Backed.rule t).append batch h) (hsame h)
  truncate start h hd := by
    refine hd.of_same ((Backed.rule t).truncate start h) ?_
    exact onLog_sameSnapshot (fun l => l.truncateSuffix_sameSnapshot start) h
  install f h hv hnew hd := hd.install hv hnew
  snapshot h hd := hd.snapshot

theorem Host.Dated.election : ElectionRule fun h h' => h.Dated → h'.Dated where
  asks now h hd := by
    have hsame : Respects SameSnapshot (modifyNode fun n => n.startPreVote now) := by
      refine modifyNode_sameSnapshot fun n => ?_
      obtain ⟨_, _, hn⟩ := n.resetElectionDeadline_frame now
      simp only [Node.startPreVote, hn]
      split <;> rfl
    exact hd.of_same (Backed.election.asks now h) (hsame h)
  counts voter h hd := hd.of_same (Backed.election.counts voter h) ⟨rfl, rfl⟩
  stands h hd := hd.of_same (Backed.election.stands h) (startElection_sameSnapshot h)

theorem Process.NormalRun.dated {h : History Host Input} {s : Host} (hr : NormalRun h s) :
    s.Dated := by
  refine hr.keeps (fun _ hd => hd.backed) ?_ ?_ Host.Dated.rule Host.Dated.election
  · intro cfg now now' k n st hk hx
    obtain ⟨-, rfl, -, hterm⟩ := hk.opened hx
    exact ⟨Host.backed_of_open hk hx, hterm⟩
  · intro s now hd
    exact ⟨{ hd.backed with faults := rfl }, hd.term⟩

/-- A leader with a snapshot has it in its directory. -/
theorem Host.Dated.exists_snapshot {l : Host} (hd : l.Dated) (hpos : 0 < l.node.snapshotIndex) :
    ∃ f sm, l.store.disk.snapshot = some f ∧ f.verify = .ok () ∧
      StateMachine.fromJson f.stateJson = .ok sm ∧ l.node.snapshotIndex = f.lastIncludedIndex ∧
      l.node.snapshotTerm = f.lastIncludedTerm := by
  have hidx := hd.backed.index
  have hterm := hd.term
  cases hs : l.store.disk.snapshot with
  | none =>
    rw [hs] at hidx
    exact absurd hidx hpos.ne'
  | some f =>
    rw [hs] at hidx hterm
    obtain ⟨hv, sm, hsm⟩ := hd.backed.current f hs
    exact ⟨f, sm, rfl, hv, hsm, hidx, hterm⟩

/-! ## The snapshot -/

theorem Host.receive_ok {h h' : Host} {now : Nat} {sender : String} {o : Outbound}
    {out : List Outbound}
    (hx : exec (handleInner sender o.msg) (h.prepared now Faults.none) = (.ok out, h')) :
    h.receive now sender o = (out, h') := by
  unfold receive handle
  rw [hx]

theorem Host.receive_error {h h' : Host} {now : Nat} {sender : String} {o : Outbound} {e : HaError}
    (hx : exec (handleInner sender o.msg) (h.prepared now Faults.none) = (.error e, h')) :
    (h.receive now sender o).1 = [] := by
  unfold receive handle
  rw [hx]

/-- What a leader sends for a next index that its snapshot covers. -/
theorem appendFor_covered {n : Node} {k : Disk} {now next : Nat} {peer : String} {f : SnapshotFile}
    (hf : k.snapshot = some f) (hv : f.verify = .ok ()) (hpos : 0 < n.snapshotIndex)
    (hle : next ≤ n.snapshotIndex) :
    (n.expecting peer next).appendFor k now peer =
      [⟨peer, .installSnapshot n.hard.currentTerm n.cfg.nodeId (JsonText.toString f), false⟩] := by
  have hnext : (n.expecting peer next).nextIndex.getD peer
      ((n.expecting peer next).log.lastIndex + 1) = next := Std.ExtTreeMap.getD_insert_self
  have hload : Snapshot.load k = .ok (some f) := by
    unfold Snapshot.load
    rw [hf, Snapshot.readOne, hv]
  unfold Node.appendFor
  simp only [hnext, hload]
  rw [if_pos ⟨hle, hpos⟩]
  rfl

omit [SerdeJson] in
/-- A message whose term is not below a node's puts the node in that term. -/
theorem Host.exec_adoptTerm_none (msg : Message) (n : Node) (k : Disk) (now : Nat)
    (hle : n.hard.currentTerm ≤ msg.term) (hpre : msg.isPreVote = false) :
    ∃ n' k', exec (adoptTerm msg) ⟨n, ⟨k, Faults.none⟩, now⟩ =
        (.ok (), ⟨n', ⟨k', Faults.none⟩, now⟩) ∧
      n'.filed = n.filed ∧ n'.hard.currentTerm = msg.term := by
  unfold adoptTerm
  rw [exec_get_bind]
  rcases Nat.lt_or_ge n.hard.currentTerm msg.term with hlt | hge
  · rw [if_pos ⟨hlt, hpre⟩]
    unfold becomeFollower
    rw [exec_get_bind, if_pos hlt, exec_modifyNode_bind, exec_bind_ok (exec_persist_none _ _ _),
      exec_modifyNode]
    exact ⟨_, _, rfl, rfl, rfl⟩
  · rw [if_neg fun hc => Nat.not_lt.2 hge hc.1, exec_pure]
    exact ⟨n, k, rfl, rfl, Nat.le_antisymm hle hge⟩

omit [SerdeJson] in
/-- A message of the node's own term leaves the node in it. -/
theorem Host.exec_adoptTerm_same {msg : Message} {h : Host}
    (hterm : h.node.hard.currentTerm = msg.term) : exec (adoptTerm msg) h = (.ok (), h) := by
  unfold adoptTerm
  rw [exec_get_bind, if_neg fun hc => Nat.lt_irrefl _ (hterm ▸ hc.1), exec_pure]

/-- The follower that has installed the snapshot `f`: no record is left of a log that ended before
it. -/
structure Host.AtSnapshot (h : Host) (t : Nat) (f : SnapshotFile) (sm : StateMachine) : Prop where
  faults : h.store.faults = Faults.none
  term : h.node.hard.currentTerm = t
  machine : h.node.sm = sm
  empty : h.node.log.entries = []
  index : h.node.snapshotIndex = f.lastIncludedIndex
  snapshotTerm : h.node.snapshotTerm = f.lastIncludedTerm

omit [SerdeJson] in
/-- No record of a log that ends before an index lies behind it. -/
theorem Log.filter_gt_eq_nil {l : Log} {a upto : Nat} (h : Indexed a l.entries)
    (hlt : l.lastIndex < upto) : (l.entries.filter fun r => decide (upto < r.index)) = [] := by
  rcases eq_or_ne l.entries [] with hnil | hne
  · rw [hnil]
    rfl
  · have hlast := LogFile.lastIndex_succ h hne
    rw [h.filter_gt, List.drop_eq_nil_iff]
    omega

omit [SerdeJson] in
/-- A node whose log ends before the snapshot installs it. -/
theorem Host.exec_installSnapshot_at {n : Node} {a : Nat} {f : SnapshotFile} {sm : StateMachine}
    (k : Disk) (now : Nat) (hparse : StateMachine.fromJson f.stateJson = .ok sm)
    (hi : Log.Indexed a n.log.entries) (hlog : n.log.lastIndex < f.lastIncludedIndex) :
    ∃ h', exec (installSnapshot f) ⟨n, ⟨k, Faults.none⟩, now⟩ = (.ok (), h') ∧
      h'.AtSnapshot n.hard.currentTerm f sm ∧ h'.node.cfg = n.cfg := by
  obtain ⟨k', hinst, -⟩ := exec_installSnapshot_none n k now hparse
  refine ⟨_, hinst, ?_, rfl⟩
  exact {
    faults := rfl
    term := rfl
    machine := rfl
    empty := by
      show Log.rechain _ _ (n.log.entries.filter _) = []
      rw [Log.filter_gt_eq_nil hi hlog, Log.rechain]
    index := rfl
    snapshotTerm := rfl }

/-- A node in the term of the message, whose snapshot and log end before the one that is sent. -/
theorem Host.exec_handleInstallSnapshot {n : Node} {a t : Nat} {f : SnapshotFile}
    {sm : StateMachine} (k : Disk) (now : Nat) (leader : String) (hv : f.verify = .ok ())
    (hparse : StateMachine.fromJson f.stateJson = .ok sm) (hterm : n.hard.currentTerm = t)
    (hsnap : n.snapshotIndex < f.lastIncludedIndex) (hi : Log.Indexed a n.log.entries)
    (hlog : n.log.lastIndex < f.lastIncludedIndex) :
    ∃ h', exec (handleInstallSnapshot t leader (JsonText.toString f)) ⟨n, ⟨k, Faults.none⟩, now⟩ =
        (.ok [⟨leader, .installSnapshotResp t n.cfg.nodeId true f.lastIncludedIndex, false⟩], h') ∧
      h'.AtSnapshot t f sm ∧ h'.node.cfg = n.cfg := by
  have hstay : exec (becomeFollower t (some leader)) ⟨n.acked leader now, ⟨k, Faults.none⟩, now⟩ =
      (.ok (), ⟨(n.acked leader now).retire (some leader), ⟨k, Faults.none⟩, now⟩) :=
    exec_becomeFollower_stay hterm.ge
  obtain ⟨h', hinst, hat, hcfg⟩ := exec_installSnapshot_at
    (n := ((n.acked leader now).retire (some leader)).heard now) k now hparse hi hlog
  have hat : h'.AtSnapshot t f sm := hterm ▸ hat
  have hnew : ¬f.lastIncludedIndex ≤
      (((n.acked leader now).retire (some leader)).heard now).snapshotIndex := Nat.not_le.2 hsnap
  refine ⟨h', ?_, hat, hcfg⟩
  unfold handleInstallSnapshot
  rw [exec_get_bind, exec_modifyNode_bind, if_neg (Nat.not_lt.2 hterm.le), exec_bind_ok hstay,
    exec_modifyNode_bind]
  simp only [takeSnapshot, JsonText.toString, JsonText.fromStr, hv]
  rw [exec_get_bind, if_neg hnew, exec_bind_ok hinst, exec_get_bind, exec_pure,
    installResp, hat.term, hcfg]
  rfl

/-- The follower installs the snapshot. -/
theorem Host.Backed.takesOver {h : Host} (hb : h.Backed) {f : SnapshotFile} {sm : StateMachine}
    {t : Nat} (now : Nat) (leader peer : String) (hv : f.verify = .ok ())
    (hparse : StateMachine.fromJson f.stateJson = .ok sm) (hterm : h.node.hard.currentTerm ≤ t)
    (hsnap : h.node.snapshotIndex < f.lastIncludedIndex)
    (hlog : h.node.log.lastIndex < f.lastIncludedIndex) :
    ∃ h', h.receive now leader ⟨peer, .installSnapshot t leader (JsonText.toString f), false⟩ =
        ([⟨leader, .installSnapshotResp t h.node.cfg.nodeId true f.lastIncludedIndex, false⟩], h') ∧
      h'.AtSnapshot t f sm ∧ h'.node.cfg = h.node.cfg := by
  obtain ⟨n', k', hadopt, hfiled, hterm'⟩ := exec_adoptTerm_none
    (.installSnapshot t leader (JsonText.toString f)) h.node h.store.disk now hterm rfl
  simp only [Node.filed, Prod.mk.injEq] at hfiled
  obtain ⟨hcfg, hl, hindex⟩ := hfiled
  obtain ⟨a, ha⟩ := hb.indexed
  rw [← hindex] at hsnap
  rw [← hl] at ha hlog
  obtain ⟨h', hx, hat, hcfg'⟩ :=
    exec_handleInstallSnapshot k' now leader hv hparse hterm' hsnap ha hlog
  refine ⟨h', ?_, hat, hcfg'.trans hcfg⟩
  rw [← hcfg]
  exact receive_ok ((exec_bind_ok hadopt).trans hx)

/-! ## The answer -/

/-- The answer moves the leader behind its snapshot. -/
theorem Host.receive_installed {l : Host} (now idx : Nat) (peer : String)
    (hrole : l.node.role = .leader) : l.receive now peer
      ⟨l.node.cfg.nodeId, .installSnapshotResp l.node.hard.currentTerm peer true idx, false⟩ =
        ([], ⟨(l.node.acked peer now).matched peer idx, ⟨l.store.disk, Faults.none⟩, now⟩) := by
  refine receive_ok ?_
  unfold handleInner
  rw [exec_bind_ok (exec_adoptTerm_same rfl)]
  simp only [handleInstallSnapshotResp]
  have hterm : ¬(l.prepared now Faults.none).node.hard.currentTerm < l.node.hard.currentTerm :=
    Nat.lt_irrefl _
  have hrole' : (l.prepared now Faults.none).node.role = .leader := hrole
  rw [exec_get_bind, exec_modifyNode_bind, if_neg hterm, if_pos ⟨hrole', trivial⟩,
    exec_modifyNode_bind, exec_pure]
  rfl

omit [SerdeJson] in
/-- The records from an index on have that index at least. -/
theorem Log.le_of_mem_entriesFrom {l : Log} {a start : Nat} {r : Record} (h : Indexed a l.entries)
    (hr : r ∈ l.entriesFrom start) : start ≤ r.index := by
  unfold entriesFrom at hr
  cases hl : l.entries with
  | nil =>
    rw [hl] at hr
    cases hr
  | cons first rest =>
    rw [hl] at h hr
    have hfirst : first.index = a := h 0 first rfl
    rw [List.head?_cons] at hr
    dsimp only at hr
    split at hr
    · obtain ⟨j, hj⟩ := List.getElem?_of_mem hr
      have := h j r hj
      omega
    · obtain ⟨j, hj⟩ := List.getElem?_of_mem hr
      rw [List.getElem?_drop] at hj
      have := h _ r hj
      omega

/-- What a leader sends next behind its snapshot. -/
theorem appendFor_behind {n : Node} (k : Disk) (now : Nat) (peer : String)
    (hpos : 0 < n.snapshotIndex) :
    ∃ senderMs peerSkewMs, ((n.acked peer now).matched peer n.snapshotIndex).appendFor k now peer =
      [⟨peer, .appendEntries n.hard.currentTerm n.cfg.nodeId n.snapshotIndex n.snapshotTerm
        (n.behindSnapshot.map Node.entryMeta) n.commitIndex senderMs peerSkewMs, true⟩] := by
  have hnext : ((n.acked peer now).matched peer n.snapshotIndex).nextIndex.getD peer
      (((n.acked peer now).matched peer n.snapshotIndex).log.lastIndex + 1) =
        n.snapshotIndex + 1 := Std.ExtTreeMap.getD_insert_self
  have hprev : ((n.acked peer now).matched peer n.snapshotIndex).prevTermFor n.snapshotIndex =
      n.snapshotTerm := by
    unfold Node.prevTermFor
    rw [if_neg hpos.ne']
    exact if_pos rfl
  unfold Node.appendFor
  simp only [hnext, Nat.add_sub_cancel, hprev]
  rw [if_neg fun hc => Nat.not_succ_le_self _ hc.1]
  exact ⟨_, _, rfl⟩

/-! ## The entries -/

/-- An empty batch behind the snapshot is accepted. -/
theorem Host.exec_takeEntries_nil {n : Node} (st : Store) (now : Nat) {prev prevTerm : Nat}
    (leader : String) (commit senderMs : Nat) (hempty : n.log.entries = [])
    (hprev : n.prevMatches prev prevTerm = true) :
    exec (takeEntries leader prev prevTerm [] commit senderMs) ⟨n, st, now⟩ =
      (.ok [appendResp n leader true 0 none now senderMs], ⟨n, st, now⟩) := by
  have hlast : n.log.lastIndex = 0 := Log.lastIndex_nil hempty
  have hcommit : followCommit commit n = n := by
    unfold followCommit
    simp [hlast]
  unfold takeEntries
  rw [exec_get_bind, if_neg (by simp [hprev])]
  unfold appendAndAnswer
  have hcut : exec (cutConflict []) ⟨n, st, now⟩ = (.ok (), ⟨n, st, now⟩) := rfl
  rw [exec_bind_ok hcut, exec_bind_ok (exec_appendMissing_nil _), exec_modifyNode_bind,
    exec_get_bind, exec_pure, hcommit, hlast]

/-- Any other batch behind it is refused. -/
theorem Host.exec_takeEntries_cons {n : Node} (st : Store) (now : Nat) {prev prevTerm : Nat}
    (leader : String) (commit senderMs : Nat) {first : EntryMeta} (rest : List EntryMeta)
    (hempty : n.log.entries = []) (hprev : n.prevMatches prev prevTerm = true)
    (hfirst : 1 < first.index) :
    ∃ e h', exec (takeEntries leader prev prevTerm (first :: rest) commit senderMs) ⟨n, st, now⟩ =
      (.error e, h') := by
  have hlast : n.log.lastIndex = 0 := Log.lastIndex_nil hempty
  have hget : n.log.get first.index = none := by
    unfold Log.get
    rw [hempty]
    rfl
  have hnoconflict : n.firstConflicts (first :: rest) = false := by
    simp [Node.firstConflicts, Log.termAt, hget]
  obtain ⟨e, he⟩ : ∃ e, exec (appendMissing (first :: rest)) ⟨n, st, now⟩ = (.error e, _) :=
    exec_appendMissing_gap st now hget (by omega)
  unfold takeEntries
  rw [exec_get_bind, if_neg (by simp [hprev])]
  unfold appendAndAnswer
  rw [exec_bind_ok (exec_cutConflict_none hnoconflict st), exec_bind_error he]
  exact ⟨e, _, rfl⟩

/-- A follower at the snapshot comes to the entries behind it with an empty log. -/
theorem Host.AtSnapshot.exec_append {h : Host} {t : Nat} {f : SnapshotFile} {sm : StateMachine}
    (hat : h.AtSnapshot t f sm) (now : Nat) (leader : String) (entries : List EntryMeta)
    (commit senderMs skewMs : Nat) :
    ∃ n : Node, n.log.entries = [] ∧
      n.prevMatches f.lastIncludedIndex f.lastIncludedTerm = true ∧
      exec (handleInner leader (.appendEntries t leader f.lastIncludedIndex f.lastIncludedTerm
        entries commit senderMs skewMs)) (h.prepared now Faults.none) =
      exec (takeEntries leader f.lastIncludedIndex f.lastIncludedTerm entries commit senderMs)
        ⟨n, ⟨h.store.disk, Faults.none⟩, now⟩ := by
  obtain ⟨n, hn⟩ : ∃ n, h.node.observeLeader leader senderMs skewMs now = n := ⟨_, rfl⟩
  have hrep := observeLeader_replica h.node h.store.disk leader senderMs skewMs now
  rw [hn] at hrep
  have hlog : n.log = h.node.log := congrArg Replica.log hrep
  have hterm : n.hard.currentTerm = t := (congrArg (·.hard.currentTerm) hrep).trans hat.term
  have hidx : n.snapshotIndex = f.lastIncludedIndex :=
    (congrArg Replica.snapshotIndex hrep).trans hat.index
  have hsterm : n.snapshotTerm = f.lastIncludedTerm :=
    (congrArg Replica.snapshotTerm hrep).trans hat.snapshotTerm
  obtain ⟨rng, d, hreset⟩ := ((n.retire (some leader)).heard now).resetElectionDeadline_frame now
  have hstay : exec (becomeFollower t (some leader)) ⟨n, ⟨h.store.disk, Faults.none⟩, now⟩ =
      (.ok (), ⟨n.retire (some leader), ⟨h.store.disk, Faults.none⟩, now⟩) :=
    exec_becomeFollower_stay hterm.ge
  refine ⟨((n.retire (some leader)).heard now).resetElectionDeadline now, ?_, ?_, ?_⟩
  · rw [hreset]
    exact (congrArg Log.entries hlog).trans hat.empty
  · rw [hreset]
    have hlocal : n.localTerm f.lastIncludedIndex = some f.lastIncludedTerm := by
      rw [Node.localTerm, if_pos hidx.symm, hsterm]
    show (_ || n.localTerm f.lastIncludedIndex == some f.lastIncludedTerm) = true
    rw [hlocal, beq_self_eq_true, Bool.or_true]
  · have hadopt : exec (adoptTerm (.appendEntries t leader f.lastIncludedIndex f.lastIncludedTerm
        entries commit senderMs skewMs)) (h.prepared now Faults.none) =
          (.ok (), h.prepared now Faults.none) := exec_adoptTerm_same hat.term
    have hobs : (h.prepared now Faults.none).node.observeLeader leader senderMs skewMs
        (h.prepared now Faults.none).now = n := hn
    unfold handleInner
    rw [exec_bind_ok hadopt]
    simp only [handleAppendEntries]
    rw [exec_get_bind, exec_modifyNode_bind, hobs, exec_get_bind, if_neg (Nat.not_lt.2 hterm.le)]
    exact (exec_bind_ok hstay).trans (exec_modifyNode_bind _ _ _)

theorem Host.TakesOver.unique {l h h₁ h₂ : Host} {next t now : Nat} {a₁ a₂ : Outbound}
    (h1 : l.TakesOver h next t now a₁ h₁) (h2 : l.TakesOver h next t now a₂ h₂) :
    a₁ = a₂ ∧ h₁ = h₂ := by
  obtain ⟨o₁, hs₁, hr₁, -⟩ := h1
  obtain ⟨o₂, hs₂, hr₂, -⟩ := h2
  obtain rfl : o₁ = o₂ := List.singleton_inj.1 (hs₁.symm.trans hs₂)
  have hr := hr₁.symm.trans hr₂
  simp only [Prod.mk.injEq, List.singleton_inj] at hr
  exact hr

/-- The follower comes to the leader's snapshot. -/
theorem Host.Leaves.takesOver {l h : Host} (hleaves : l.Leaves h) (hb : h.Backed) {f : SnapshotFile}
    {sm : StateMachine} (hf : l.store.disk.snapshot = some f) (hv : f.verify = .ok ())
    (hsm : StateMachine.fromJson f.stateJson = .ok sm)
    (hidx : l.node.snapshotIndex = f.lastIncludedIndex) {next : Nat} (t now : Nat)
    (hnext : next ≤ l.node.snapshotIndex) :
    ∃ h', l.TakesOver h next t now ⟨l.node.cfg.nodeId, .installSnapshotResp l.node.hard.currentTerm
        h'.node.cfg.nodeId true l.node.snapshotIndex, false⟩ h' ∧
      h'.AtSnapshot l.node.hard.currentTerm f sm ∧ h'.node.cfg = h.node.cfg := by
  have hsnap := hleaves.snapshot
  have hlog := hleaves.log
  rw [hidx] at hsnap hlog
  obtain ⟨h', hx, hat, hcfg⟩ := hb.takesOver now l.node.cfg.nodeId h.node.cfg.nodeId
    hv hsm hleaves.term hsnap hlog
  rw [← hidx, ← hcfg] at hx
  have hpos : 0 < l.node.snapshotIndex := Nat.lt_of_le_of_lt (Nat.zero_le _) hleaves.snapshot
  refine ⟨h', ⟨_, ?_, hx, f, hf, ?_⟩, hat, hcfg⟩
  · rw [appendFor_covered hf hv hpos hnext, hcfg]
  · rw [hat.machine, hsm]

/-- From there it continues with nothing only. -/
theorem Host.AtSnapshot.continues_iff {l h : Host} {f : SnapshotFile} {sm : StateMachine} {a : Nat}
    (hat : h.AtSnapshot l.node.hard.currentTerm f sm) (hrole : l.node.role = .leader)
    (hpos : 0 < l.node.snapshotIndex) (hi : Log.Indexed a l.node.log.entries)
    (hidx : l.node.snapshotIndex = f.lastIncludedIndex)
    (hterm : l.node.snapshotTerm = f.lastIncludedTerm) (t now : Nat) :
    l.Continues h ⟨l.node.cfg.nodeId, .installSnapshotResp l.node.hard.currentTerm
        h.node.cfg.nodeId true l.node.snapshotIndex, false⟩ t now ↔
      l.node.behindSnapshot = [] := by
  have hl' := receive_installed t l.node.snapshotIndex h.node.cfg.nodeId hrole
  obtain ⟨senderMs, skewMs, happ⟩ := appendFor_behind l.store.disk t h.node.cfg.nodeId hpos
  obtain ⟨batch, hbatch⟩ : ∃ batch, l.node.behindSnapshot = batch := ⟨_, rfl⟩
  rw [hbatch] at happ ⊢
  obtain ⟨n, hempty, hprev, hx⟩ := hat.exec_append now l.node.cfg.nodeId
    (batch.map Node.entryMeta) l.node.commitIndex senderMs skewMs
  rw [← hidx, ← hterm] at hprev hx
  constructor
  · rintro ⟨l', append, reply, h', h1, -, h3, h4, -, -⟩
    obtain rfl := (Prod.mk.inj (hl'.symm.trans h1)).2
    obtain rfl := List.singleton_inj.1 (happ.symm.trans h3)
    cases batch with
    | nil => rfl
    | cons r rs =>
      have hr : r ∈ l.node.log.entriesFrom (l.node.snapshotIndex + 1) :=
        List.mem_of_mem_take (hbatch ▸ List.mem_cons_self)
      have hfirst : 1 < (Node.entryMeta r).index :=
        Nat.lt_of_lt_of_le (Nat.succ_lt_succ hpos) (Log.le_of_mem_entriesFrom hi hr)
      obtain ⟨e, h'', he⟩ := exec_takeEntries_cons ⟨h.store.disk, Faults.none⟩ now
        l.node.cfg.nodeId l.node.commitIndex senderMs (rs.map Node.entryMeta) hempty hprev hfirst
      have hnone := receive_error (o := ⟨h.node.cfg.nodeId, _, true⟩) (hx.trans he)
      rw [h4] at hnone
      cases hnone
  · rintro rfl
    refine ⟨_, _, _, _, hl', ?_, happ, receive_ok (hx.trans (exec_takeEntries_nil _ _ _ _ _
      hempty hprev)), rfl, ?_⟩
    · exact Std.ExtTreeMap.getElem?_insert_self
    · intro e he
      cases he

/-- **Catching up.** Let `l` be a leader and `h` a follower that it leaves behind its snapshot, both
reached in runs without failures. The follower installs the snapshot and continues behind it exactly
when there is nothing to continue with: the leader has no entries above its snapshot to send. -/
theorem catchesUp_iff {hist hist' : History Host Input} {l h : Host}
    (hl : Process.NormalRun hist l) (hh : Process.NormalRun hist' h) (hleaves : l.Leaves h) :
    l.CatchesUp h ↔ l.node.behindSnapshot = [] := by
  have hpos : 0 < l.node.snapshotIndex := Nat.lt_of_le_of_lt (Nat.zero_le _) hleaves.snapshot
  obtain ⟨f, sm, hf, hv, hsm, hidx, hterm⟩ := hl.dated.exists_snapshot hpos
  obtain ⟨a, ha⟩ := hl.backed.indexed
  constructor
  · intro hc
    obtain ⟨answer, h', hinst, hcont⟩ := hc 0 0 0 0 0 (Nat.zero_le _)
    obtain ⟨h'', hinst', hat, -⟩ :=
      hleaves.takesOver hh.backed hf hv hsm hidx 0 0 (Nat.zero_le l.node.snapshotIndex)
    obtain ⟨rfl, rfl⟩ := hinst.unique hinst'
    exact (hat.continues_iff hleaves.leads hpos ha hidx hterm 0 0).1 hcont
  · intro hnone next t t' now now' hnext
    obtain ⟨h', hinst, hat, -⟩ := hleaves.takesOver hh.backed hf hv hsm hidx t now hnext
    exact ⟨_, h', hinst, (hat.continues_iff hleaves.leads hpos ha hidx hterm t' now').2 hnone⟩

end

section
attribute [local instance] SerdeJson.sample

/-- The first member is elected by the second one, which has its first entry, and proposes. -/
def electAndPropose : List Input :=
  [⟨5000, Faults.none, .tick⟩,
    ⟨5010, Faults.none, .handle "n2" (.requestVoteResp 0 "n2" true 5005 5000)⟩,
    ⟨5020, Faults.none, .handle "n2" (.requestVoteResp 1 "n2" true 5015 5010)⟩,
    ⟨5030, Faults.none, .handle "n2" (.appendEntriesResp 1 "n2" true 1 none 5025 5020)⟩,
    ⟨5040, Faults.none, .propose .noop⟩]

/-- It takes a snapshot then, or when the second member has the second entry, too. -/
def snapshotAtOne : List Input := electAndPropose ++ [⟨5050, Faults.none, .maybeSnapshot⟩]

def snapshotAtTwo : List Input :=
  electAndPropose ++
    [⟨5050, Faults.none, .handle "n2" (.appendEntriesResp 1 "n2" true 2 none 5045 5040)⟩,
      ⟨5060, Faults.none, .maybeSnapshot⟩]

/-- A member that has opened an empty directory. -/
theorem Process.NormalRun.opened {i : String} (hi : i ∈ threeVoters) :
    NormalRun [] (Cluster.three.hosts i) := by
  obtain ⟨cfg, now, -, -, -, hx⟩ := Cluster.three_initial.2 i hi
  exact .start ⟨cfg, now, hx⟩

/-- The first member after such a run, and how many entries it would send behind its snapshot. The
third member has heard nothing. -/
theorem Process.NormalRun.leaves (es : List Input) {idx count : Nat}
    (hidx : 0 < idx) (hrun : (follow Process.step (fun _ _ e => e.faults = Faults.none) es []
      (Cluster.three.hosts "n1")).map (fun r => (decide (r.2.node.role = .leader),
        r.2.node.snapshotIndex, r.2.node.behindSnapshot.length)) = some (true, idx, count)) :
    ∃ hist l, NormalRun hist l ∧ l.Leaves (Cluster.three.hosts "n3") ∧
      l.node.snapshotIndex = idx ∧ l.node.behindSnapshot.length = count := by
  obtain ⟨⟨hist, l⟩, hf, hl⟩ := Option.map_eq_some_iff.1 hrun
  simp only [Prod.mk.injEq, decide_eq_true_eq] at hl
  obtain ⟨hrole, hsnap, hcount⟩ := hl
  refine ⟨hist, l, Run.follow (NormalRun.opened (by decide)) hf, ?_, hsnap, hcount⟩
  exact {
    leads := hrole
    term := Nat.zero_le _
    snapshot := hsnap ▸ hidx
    log := hsnap ▸ hidx }

/-- With its whole log in the snapshot, the leader has the third member catch up. -/
theorem catchesUp_iff_compacted : ∃ hist l, Process.NormalRun hist l ∧ l.node.snapshotIndex = 2 ∧
    l.CatchesUp (Cluster.three.hosts "n3") := by
  obtain ⟨hist, l, hl, hleaves, hidx, hcount⟩ :=
    Process.NormalRun.leaves snapshotAtTwo (by decide : 0 < 2)
      (by decide +kernel : _ = some (true, 2, 0))
  exact ⟨hist, l, hl, hidx, (catchesUp_iff hl (Process.NormalRun.opened (by decide)) hleaves).2
    (List.eq_nil_of_length_eq_zero hcount)⟩

/-- With one entry behind its snapshot, it does not. -/
theorem not_catchesUp : ¬ ∀ hist hist' l h, Process.NormalRun hist l → Process.NormalRun hist' h →
    l.Leaves h → l.CatchesUp h := by
  intro hall
  obtain ⟨hist, l, hl, hleaves, -, hcount⟩ :=
    Process.NormalRun.leaves snapshotAtOne (by decide : 0 < 1)
      (by decide +kernel : _ = some (true, 1, 1))
  have hh := Process.NormalRun.opened (i := "n3") (by decide)
  have hnone := (catchesUp_iff hl hh hleaves).1 (hall hist [] l _ hl hh hleaves)
  rw [hnone] at hcount
  cases hcount

end

end Rdsctl.Ha
