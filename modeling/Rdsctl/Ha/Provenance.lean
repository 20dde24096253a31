import Rdsctl.Ha.Ballot
import Rdsctl.Ha.Cluster

/-!
# Where state machines come from

A state machine is new, or it is one that applied its next entry, or it is read from a snapshot; a
snapshot is one of a state machine, and goes from directory to directory. A `Lineage` is a pair of
properties, of state machines and of snapshots, that are handed on in these ways. What holds of the
machines a cluster starts with holds of every machine, every snapshot file and every snapshot on
its way, in every run and whatever file operations fail (`Cluster.sourced`).
-/

namespace Rdsctl.Ha

open Fallible

variable [SerdeJson]

/-- Properties of state machines and of snapshots that are handed on. -/
structure Lineage where
  machine : StateMachine → Prop
  file : SnapshotFile → Prop
  applied : ∀ sm term op, machine sm → machine (sm.apply term (sm.appliedIndex + 1) op).2
  saved : ∀ sm shard term, machine sm →
    file (SnapshotFile.new shard sm.appliedIndex term sm.configEpoch sm.toJson)
  loaded : ∀ f sm, file f → StateMachine.fromJson f.stateJson = .ok sm → machine sm

variable {L : Lineage}

/-- The snapshot files of a directory have the property. -/
structure Disk.Sourced (L : Lineage) (k : Disk) : Prop where
  snapshot : ∀ f, k.snapshot = some f → L.file f
  snapshotPrev : ∀ f, k.snapshotPrev = some f → L.file f
  snapshotTmp : ∀ f, k.snapshotTmp = some f → L.file f

theorem Disk.empty_sourced : Disk.empty.Sourced L := by
  constructor <;> intro f hf <;> cases hf

/-- The state machine and the snapshot files of a host have the properties. -/
structure Host.Sourced (L : Lineage) (h : Host) : Prop where
  machine : L.machine h.node.sm
  disk : h.store.disk.Sourced L

/-- The snapshot a message carries has the property. -/
def Message.Sourced (L : Lineage) : Message → Prop
  | .installSnapshot _ _ json => ∀ f, json.fromStr = .ok f → L.file f
  | _ => True

/-- Every snapshot sent has the property. -/
def AllSourced (L : Lineage) (out : List Outbound) : Prop := ∀ o ∈ out, o.msg.Sourced L

theorem allSourced_nil : AllSourced L [] := nofun

theorem allSourced_singleton {o : Outbound} (h : o.msg.Sourced L) : AllSourced L [o] := by
  simpa [AllSourced] using h

theorem AllSourced.append {out out' : List Outbound} (h : AllSourced L out)
    (h' : AllSourced L out') : AllSourced L (out ++ out') := by
  intro o ho
  rcases List.mem_append.1 ho with ho | ho
  · exact h o ho
  · exact h' o ho

/-! ## Files -/

/-- The invariant of a computation on files. -/
abbrev StoreM.KeepsSource (L : Lineage) {α : Type} (m : StoreM α) : Prop :=
  Keeps (fun st => st.disk.Sourced L) (fun _ => True) m

theorem fileOp_source {d : Dir} {f : Disk → Disk} (hf : ∀ k, k.Sourced L → (f k).Sourced L) :
    StoreM.KeepsSource L (fileOp d f) := by
  intro st hst
  refine ⟨?_, fun _ _ => trivial⟩
  unfold exec fileOp
  split
  · exact hf st.disk hst
  · exact hst

/-- An operation on other files. -/
theorem fileOp_other {d : Dir} {f : Disk → Disk}
    (hf : ∀ k, (f k).snapshot = k.snapshot ∧ (f k).snapshotPrev = k.snapshotPrev ∧
      (f k).snapshotTmp = k.snapshotTmp) : StoreM.KeepsSource L (fileOp d f) := by
  refine fileOp_source fun k hk => ?_
  obtain ⟨h1, h2, h3⟩ := hf k
  exact ⟨fun x hx => hk.snapshot x (h1 ▸ hx), fun x hx => hk.snapshotPrev x (h2 ▸ hx),
    fun x hx => hk.snapshotTmp x (h3 ▸ hx)⟩

theorem Log.rewrite_source (l : Log) (keep : List Record) (seed : Hash) :
    StoreM.KeepsSource L (l.rewrite keep seed) := by
  refine .bind (fileOp_other fun _ => ⟨rfl, rfl, rfl⟩) fun _ _ => ?_
  refine .bind (fileOp_other fun _ => ⟨rfl, rfl, rfl⟩) fun _ _ => ?_
  refine .bind (fileOp_other fun _ => ⟨rfl, rfl, rfl⟩) fun _ _ => ?_
  refine .bind (fileOp_other fun _ => ⟨rfl, rfl, rfl⟩) fun _ _ => ?_
  refine .bind (fileOp_other fun _ => ⟨rfl, rfl, rfl⟩) fun _ _ => ?_
  refine .bind (fileOp_other fun _ => ⟨rfl, rfl, rfl⟩) fun _ _ => ?_
  exact .pure trivial

theorem Log.appendBatch_source (l : Log) (batch : List PendingEntry) :
    StoreM.KeepsSource L (l.appendBatch batch) := by
  refine .ite (.pure trivial) ?_
  split
  · exact .throw _
  · refine .bind (fileOp_other fun _ => ⟨rfl, rfl, rfl⟩) fun _ _ => ?_
    exact .bind (fileOp_other fun _ => ⟨rfl, rfl, rfl⟩) fun _ _ => .pure trivial

theorem Log.truncateSuffix_source (l : Log) (start : Nat) :
    StoreM.KeepsSource L (l.truncateSuffix start) :=
  .ite (.pure trivial) (l.rewrite_source _ _)

theorem Log.replay_source (fuel : Nat) (l : Log) : StoreM.KeepsSource L (Log.replay fuel l) := by
  induction fuel generalizing l with
  | zero => exact .pure trivial
  | succ fuel ih =>
    refine .read fun st _ => ?_
    split
    · unfold checkIndices
      split
      · exact .throw _
      · split
        · exact .ite (.throw _) (.pure trivial)
        · exact .pure trivial
    · exact .throw _
    · refine .ite (.throw _) ?_
      refine .bind (fileOp_other fun _ => ⟨rfl, rfl, rfl⟩) fun _ _ => ?_
      exact .bind (fileOp_other fun _ => ⟨rfl, rfl, rfl⟩) fun _ _ => ih _

theorem Log.open_source (shard : Nat) (seedHash : Hash) :
    StoreM.KeepsSource L (Log.open' shard seedHash) :=
  .bind (fileOp_other fun _ => ⟨rfl, rfl, rfl⟩) fun _ _ => .read fun _ _ => Log.replay_source _ _

theorem Snapshot.save_source {f : SnapshotFile} (hf : L.file f) :
    StoreM.KeepsSource L (Snapshot.save f) := by
  have hrename : StoreM.KeepsSource L
      (fileOp .shard fun k => { k with snapshot := k.snapshotTmp, snapshotTmp := none }) :=
    fileOp_source fun k hk => ⟨hk.snapshotTmp, hk.snapshotPrev, nofun⟩
  refine .bind (fileOp_other fun _ => ⟨rfl, rfl, rfl⟩) fun _ _ => ?_
  refine .bind (fileOp_source fun k hk => ⟨hk.snapshot, hk.snapshotPrev, nofun⟩) fun _ _ => ?_
  refine .bind (fileOp_source fun k hk => ⟨hk.snapshot, hk.snapshotPrev, ?_⟩) fun _ _ => ?_
  · rintro _ ⟨⟩
    exact hf
  refine .bind (fileOp_other fun _ => ⟨rfl, rfl, rfl⟩) fun _ _ => .read fun st _ => ?_
  split
  · refine .bind (fileOp_source fun k hk => ⟨nofun, hk.snapshot, hk.snapshotTmp⟩) fun _ _ => ?_
    exact .bind hrename fun _ _ => fileOp_other fun _ => ⟨rfl, rfl, rfl⟩
  · exact .bind hrename fun _ _ => fileOp_other fun _ => ⟨rfl, rfl, rfl⟩

theorem Snapshot.readOne_source {o : Option SnapshotFile} {f : SnapshotFile}
    (h : readOne o = .ok (some f)) : o = some f := by
  unfold readOne at h
  split at h
  · cases h
  · split at h
    · cases h
      rfl
    · cases h

/-- The snapshot a node loads is one of its files. -/
theorem Snapshot.load_source {k : Disk} (hk : k.Sourced L) {f : SnapshotFile}
    (h : load k = .ok (some f)) : L.file f := by
  unfold load at h
  split at h
  · next s hs =>
    cases h
    exact hk.snapshot f (readOne_source hs)
  · exact hk.snapshotPrev f (readOne_source h)

/-! ## Applying -/

theorem Node.applyRecord_source {n : Node} (hn : L.machine n.sm) (r : Record) :
    L.machine (n.applyRecord (n.sm.appliedIndex + 1) r).sm := by
  unfold applyRecord
  split
  · exact L.applied _ _ _ hn
  · exact L.applied n.sm r.term .noop hn

theorem Node.applyLoop_source (fuel : Nat) {n : Node} (hn : L.machine n.sm) :
    L.machine (applyLoop fuel n).sm := by
  induction fuel generalizing n with
  | zero => exact hn
  | succ fuel ih =>
    rw [applyLoop]
    split
    · exact hn
    · exact ih (applyRecord_source hn _)

theorem Node.applyCommitted_source {n : Node} (hn : L.machine n.sm) :
    L.machine n.applyCommitted.sm :=
  applyLoop_source (n.commitIndex - n.sm.appliedIndex) hn

/-! ## The calls of a node -/

/-- The snapshots a leader sends are files of its directory. -/
theorem Node.appendFor_source {k : Disk} (hk : k.Sourced L) (n : Node) (now : Nat)
    (peer : String) : AllSourced L (n.appendFor k now peer) := by
  unfold appendFor
  simp only
  split
  · split
    · next s hs =>
      refine allSourced_singleton fun f hf => ?_
      cases hf
      exact Snapshot.load_source hk hs
    · exact allSourced_singleton trivial
  · exact allSourced_singleton trivial

theorem Node.broadcastAppend_source {k : Disk} (hk : k.Sourced L) (n : Node) (now : Nat) :
    AllSourced L (n.broadcastAppend k now) := by
  intro o ho
  obtain ⟨peer, -, hp⟩ := List.mem_flatMap.1 ho
  exact appendFor_source hk n now peer o hp

theorem Node.sendToOthers_source (n : Node) {msg : Message} (h : msg.Sourced L) :
    AllSourced L (n.sendToOthers msg) := by
  intro o ho
  obtain ⟨dest, -, rfl⟩ := List.mem_map.1 ho
  exact h

namespace Host

/-- The invariant of a method of a node, and what it sends. -/
abbrev KeepsSource (L : Lineage) (m : HostM (List Outbound)) : Prop :=
  Keeps (Sourced L) (AllSourced L) m

/-- The invariant of a method that sends nothing. -/
abbrev StaysSourced (L : Lineage) {α : Type} (m : HostM α) : Prop :=
  Keeps (Sourced L) (fun _ => True) m

/-- A change that leaves the state machine alone. -/
theorem modifyNode_source {f : Node → Node} (hf : ∀ n, (f n).sm = n.sm) :
    StaysSourced L (modifyNode f) :=
  .update fun h hh => ⟨by rw [hf]; exact hh.machine, hh.disk⟩

theorem modifyNode_applied {f : Node → Node} (hf : ∀ n, L.machine n.sm → L.machine (f n).sm) :
    StaysSourced L (modifyNode f) :=
  .update fun h hh => ⟨hf h.node hh.machine, hh.disk⟩

theorem onStore_source {α : Type} {m : StoreM α} (hm : m.KeepsSource L) :
    StaysSourced L (onStore m) :=
  fun h hh => ⟨⟨hh.machine, (hm h.store hh.disk).1⟩, fun _ _ => trivial⟩

theorem onLog_source {f : Log → StoreM Log} (hf : ∀ l, (f l).KeepsSource L) :
    StaysSourced L (onLog f) :=
  .read fun h _ => .bind (onStore_source (hf h.node.log)) fun _ _ => modifyNode_source fun _ => rfl

theorem persist_source : StaysSourced L persistHardState := by
  refine .read fun h _ => onStore_source ?_
  refine .bind (fileOp_other fun _ => ⟨rfl, rfl, rfl⟩) fun _ _ => ?_
  refine .bind (fileOp_other fun _ => ⟨rfl, rfl, rfl⟩) fun _ _ => ?_
  refine .bind (fileOp_other fun _ => ⟨rfl, rfl, rfl⟩) fun _ _ => ?_
  refine .bind (fileOp_other fun _ => ⟨rfl, rfl, rfl⟩) fun _ _ => ?_
  exact fileOp_other fun _ => ⟨rfl, rfl, rfl⟩

theorem becomeFollower_source (term : Nat) (leader : Option String) :
    StaysSourced L (becomeFollower term leader) := by
  refine .read fun h _ => ?_
  split
  · refine .bind (modifyNode_source fun _ => rfl) fun _ _ => .bind persist_source fun _ _ => ?_
    exact modifyNode_source fun _ => rfl
  · exact modifyNode_source fun _ => rfl

theorem adoptTerm_source (msg : Message) : StaysSourced L (adoptTerm msg) :=
  .read fun _ _ => .ite (becomeFollower_source _ _) (.pure trivial)

theorem appendBatch_source (batch : List PendingEntry) :
    StaysSourced L (appendBatch batch) :=
  .onError (onLog_source fun l => l.appendBatch_source batch) fun _ hh => ⟨hh.machine, hh.disk⟩

theorem cutConflict_source (entries : List EntryMeta) : StaysSourced L (cutConflict entries) := by
  unfold cutConflict
  split
  · exact .pure trivial
  · refine .read fun h _ => ?_
    split
    · exact .ite (onLog_source fun l => l.truncateSuffix_source _) (.pure trivial)
    · exact .pure trivial

theorem appendMissing_source (entries : List EntryMeta) :
    StaysSourced L (appendMissing entries) :=
  .read fun _ _ => .ite (.pure trivial) (appendBatch_source _)

theorem followCommit_source (leaderCommit : Nat) {n : Node} (hn : L.machine n.sm) :
    L.machine (followCommit leaderCommit n).sm := by
  unfold followCommit
  simp only
  split
  · exact Node.applyCommitted_source hn
  · exact hn

omit [SerdeJson] in
theorem reset_sm (n : Node) (now : Nat) : (n.resetElectionDeadline now).sm = n.sm := by
  obtain ⟨_, _, h⟩ := n.resetElectionDeadline_frame now
  rw [h]

omit [SerdeJson] in
theorem observe_sm (n : Node) (peer : String) (senderMs now : Nat) :
    ((n.acked peer now).observeClock peer senderMs now).sm = n.sm := by
  obtain ⟨_, h⟩ := (n.acked peer now).observeClock_frame peer senderMs now
  rw [h]
  rfl

omit [SerdeJson] in
theorem observeRtt_sm (n : Node) (peer : String) (senderMs now echoMs : Nat) :
    ((n.acked peer now).observeClockRtt peer senderMs now echoMs).sm = n.sm := by
  obtain ⟨_, h⟩ := (n.acked peer now).observeClockRtt_frame peer senderMs now echoMs
  rw [h]
  rfl

omit [SerdeJson] in
theorem observeLeader_sm (n : Node) (leader : String) (senderMs peerSkewMs now : Nat) :
    (n.observeLeader leader senderMs peerSkewMs now).sm = n.sm := by
  unfold Node.observeLeader
  split
  · rfl
  · exact observe_sm n leader senderMs now

omit [SerdeJson] in
theorem startPreVote_sm (n : Node) (now : Nat) : (n.startPreVote now).sm = n.sm := by
  obtain ⟨_, _, h⟩ := n.resetElectionDeadline_frame now
  simp only [Node.startPreVote, h]
  split <;> rfl

theorem reset_source (now : Nat) :
    StaysSourced L (modifyNode fun n => n.resetElectionDeadline now) :=
  modifyNode_source fun n => reset_sm n now

theorem observed_source (peer : String) (senderMs now : Nat) :
    StaysSourced L (modifyNode fun n => (n.acked peer now).observeClock peer senderMs now) :=
  modifyNode_source fun n => observe_sm n peer senderMs now

theorem startElection_source : KeepsSource L startElection := by
  refine .bind (modifyNode_source fun _ => rfl) fun _ _ => .bind persist_source fun _ _ => ?_
  refine .bind (modifyNode_source fun _ => rfl) fun _ _ => .read fun h _ => ?_
  refine .bind (reset_source h.now) fun _ _ => .read fun h _ => ?_
  exact .pure (h.node.sendToOthers_source trivial)

theorem tick_source : KeepsSource L tick := by
  refine .read fun h hh => .ite (.ite ?_ (.pure allSourced_nil)) (.ite ?_ (.pure allSourced_nil))
  · refine .bind (modifyNode_source fun _ => rfl) fun _ _ => ?_
    exact .pure (h.node.broadcastAppend_source hh.disk h.now)
  · refine .bind (modifyNode_source fun n => startPreVote_sm n h.now) fun _ _ => .read fun h _ => ?_
    exact .ite (.pure (h.node.sendToOthers_source trivial)) (.pure allSourced_nil)

theorem appendLocal_source (op : Op) : StaysSourced L (appendLocal op) := by
  refine .read fun _ _ => .ite (.throw _) (.bind (appendBatch_source _) fun _ _ => ?_)
  exact .bind (modifyNode_source fun _ => rfl) fun _ _ => .pure trivial

theorem flush_source : KeepsSource L flush := by
  refine .read fun h hh => .ite ?_ (.pure allSourced_nil)
  refine .bind (modifyNode_source fun _ => rfl) fun _ _ => ?_
  exact .pure (h.node.broadcastAppend_source hh.disk h.now)

theorem takeLead_source (now : Nat) : StaysSourced L (modifyNode fun n => n.takeLead now) :=
  modifyNode_source fun _ => rfl

theorem firstEntry_source : KeepsSource L (appendLocal .noop >>= fun _ => get >>= fun h =>
      pure (h.node.broadcastAppend h.store.disk h.now)) := by
  refine .bind (appendLocal_source _) fun _ _ => .read fun h hh => ?_
  exact .pure (h.node.broadcastAppend_source hh.disk h.now)

theorem becomeLeader_source : KeepsSource L becomeLeader :=
  .read fun h _ => .bind (takeLead_source h.now) fun _ _ => firstEntry_source

theorem voteResp_source (n : Node) (candidate : String) (granted : Bool) (now senderMs : Nat) :
    AllSourced L [voteResp n candidate granted now senderMs] := allSourced_singleton trivial

theorem handleRequestVote_source (sender : String) (term : Nat) (candidate : String)
    (lastLogIndex lastLogTerm : Nat) (preVote : Bool) (senderMs : Nat) :
    KeepsSource L
      (handleRequestVote sender term candidate lastLogIndex lastLogTerm preVote senderMs) := by
  have hvote : StaysSourced L (modifyNode fun n => n.voteFor candidate) :=
    modifyNode_source fun _ => rfl
  refine .read fun h _ => .bind (observed_source sender senderMs h.now) fun _ _ => ?_
  refine .read fun h _ => .ite (.pure ?_) (.ite (.pure ?_) (.ite ?_ (.pure ?_)))
  · exact voteResp_source _ _ _ _ _
  · exact voteResp_source _ _ _ _ _
  · refine .bind hvote fun _ _ => .bind persist_source fun _ _ => ?_
    refine .bind (reset_source h.now) fun _ _ => .read fun _ _ => .pure ?_
    exact voteResp_source _ _ _ _ _
  · exact voteResp_source _ _ _ _ _

theorem handleRequestVoteResp_source (term : Nat) (voter : String) (granted : Bool)
    (senderMs echoMs : Nat) :
    KeepsSource L (handleRequestVoteResp term voter granted senderMs echoMs) := by
  refine .read fun h _ => ?_
  refine .bind (modifyNode_source fun n => observeRtt_sm n voter senderMs h.now echoMs)
    fun _ _ => .read fun h1 _ => ?_
  refine .ite (.pure allSourced_nil) (.ite (.pure allSourced_nil) ?_)
  have hpre : StaysSourced L (modifyNode fun n => n.countPreVote voter) :=
    modifyNode_source fun _ => rfl
  have hvote : StaysSourced L (modifyNode fun n => n.countVote voter) :=
    modifyNode_source fun _ => rfl
  split
  · exact .bind hpre fun _ _ => .read fun _ _ => .ite startElection_source (.pure allSourced_nil)
  · exact .bind hvote fun _ _ => .read fun _ _ => .ite becomeLeader_source (.pure allSourced_nil)
  · exact .pure allSourced_nil

theorem appendResp_source (n : Node) (leader : String) (success : Bool) (matchIndex : Nat)
    (conflictIndex : Option Nat) (now senderMs : Nat) :
    AllSourced L [appendResp n leader success matchIndex conflictIndex now senderMs] :=
  allSourced_singleton trivial

theorem observedLeader_source (leader : String) (senderMs peerSkewMs now : Nat) :
    StaysSourced L (modifyNode fun n => n.observeLeader leader senderMs peerSkewMs now) :=
  modifyNode_source fun n => observeLeader_sm n leader senderMs peerSkewMs now

theorem heard_source (now : Nat) :
    StaysSourced L (modifyNode fun n => (n.heard now).resetElectionDeadline now) :=
  modifyNode_source fun n => reset_sm (n.heard now) now

theorem appendAndAnswer_source (leader : String) (entries : List EntryMeta)
    (leaderCommit senderMs : Nat) :
    KeepsSource L (appendAndAnswer leader entries leaderCommit senderMs) := by
  have hcommit : StaysSourced L (modifyNode (followCommit leaderCommit)) :=
    modifyNode_applied fun n => followCommit_source leaderCommit
  refine .bind (appendMissing_source entries) fun _ _ => .bind hcommit fun _ _ => ?_
  exact .read fun _ _ => .pure (appendResp_source _ _ _ _ _ _ _)

theorem takeEntries_source (leader : String) (prevLogIndex prevLogTerm : Nat)
    (entries : List EntryMeta) (leaderCommit senderMs : Nat) :
    KeepsSource L
      (takeEntries leader prevLogIndex prevLogTerm entries leaderCommit senderMs) := by
  refine .read fun _ _ => .ite (.pure (appendResp_source _ _ _ _ _ _ _)) ?_
  exact .bind (cutConflict_source entries) fun _ _ => appendAndAnswer_source _ _ _ _

theorem handleAppendEntries_source (term : Nat) (leader : String) (prevLogIndex prevLogTerm : Nat)
    (entries : List EntryMeta) (leaderCommit senderMs peerSkewMs : Nat) :
    KeepsSource L (handleAppendEntries term leader prevLogIndex prevLogTerm entries leaderCommit
      senderMs peerSkewMs) := by
  refine .read fun h _ => ?_
  refine .bind (observedLeader_source leader senderMs peerSkewMs h.now) fun _ _ => ?_
  refine .read fun h _ => .ite (.pure (appendResp_source _ _ _ _ _ _ _)) ?_
  refine .bind (becomeFollower_source _ _) fun _ _ => ?_
  exact .bind (heard_source h.now) fun _ _ => takeEntries_source _ _ _ _ _ _

theorem handleAppendEntriesResp_source (term : Nat) (follower : String) (success : Bool)
    (matchIndex : Nat) (conflictIndex : Option Nat) (senderMs echoMs : Nat) :
    KeepsSource L
      (handleAppendEntriesResp term follower success matchIndex conflictIndex senderMs echoMs) := by
  refine .read fun h _ => ?_
  refine .bind (modifyNode_source fun n => observeRtt_sm n follower senderMs h.now echoMs)
    fun _ _ => .read fun _ _ => ?_
  refine .ite (.bind (becomeFollower_source _ _) fun _ _ => .pure allSourced_nil) ?_
  refine .ite (.pure allSourced_nil) (.ite ?_ ?_)
  · refine .bind (modifyNode_applied fun n hn => ?_) fun _ _ => .pure allSourced_nil
    exact Node.applyCommitted_source hn
  · refine .bind (modifyNode_source fun _ => rfl) fun _ _ => .read fun h1 hh => ?_
    exact .pure (h1.node.appendFor_source hh.disk h1.now follower)

/-- An installed snapshot brings its own state machine. -/
theorem installSnapshot_source {f : SnapshotFile} (hf : L.file f) :
    StaysSourced L (installSnapshot f) := by
  unfold installSnapshot
  split
  · exact .throw _
  · next sm hsm =>
    refine .bind (onStore_source (Snapshot.save_source hf)) fun _ _ => ?_
    refine .bind (modifyNode_applied fun _ _ => L.loaded f sm hf hsm) fun _ _ => ?_
    refine .bind (onLog_source fun l => l.rewrite_source _ _) fun _ _ => ?_
    exact modifyNode_source fun _ => rfl

theorem handleInstallSnapshot_source (term : Nat) (leader : String)
    {json : JsonText SnapshotFile} (hjson : ∀ f, json.fromStr = .ok f → L.file f) :
    KeepsSource L (handleInstallSnapshot term leader json) := by
  have hresp : ∀ n idx, AllSourced L [installResp n leader idx] :=
    fun _ _ => allSourced_singleton trivial
  refine .read fun h _ => .bind (modifyNode_source fun _ => rfl) fun _ _ => ?_
  refine .ite (.pure allSourced_nil) (.bind (becomeFollower_source _ _) fun _ _ => ?_)
  refine .bind (modifyNode_source fun _ => rfl) fun _ _ => ?_
  unfold takeSnapshot
  split
  · exact .throw _
  · next f hf =>
    split
    · exact .throw _
    · refine .read fun _ _ => .ite (.pure (hresp _ _)) ?_
      refine .bind (installSnapshot_source (hjson f hf)) fun _ _ => .read fun _ _ => ?_
      exact .pure (hresp _ _)

theorem handleInstallSnapshotResp_source (term : Nat) (follower : String) (success : Bool)
    (lastIncludedIndex : Nat) :
    KeepsSource L (handleInstallSnapshotResp term follower success lastIncludedIndex) := by
  refine .read fun _ _ => .bind (modifyNode_source fun _ => rfl) fun _ _ => ?_
  refine .ite (.bind (becomeFollower_source _ _) fun _ _ => .pure allSourced_nil) ?_
  refine .ite ?_ (.pure allSourced_nil)
  exact .bind (modifyNode_source fun _ => rfl) fun _ _ => .pure allSourced_nil

theorem handleTimeoutNow_source (term : Nat) : KeepsSource L (handleTimeoutNow term) := by
  refine .read fun h _ => .ite (.pure allSourced_nil) (.ite (.pure allSourced_nil) ?_)
  exact .bind (reset_source h.now) fun _ _ => startElection_source

theorem handleInner_source (sender : String) {msg : Message} (hmsg : msg.Sourced L) :
    KeepsSource L (handleInner sender msg) := by
  refine .bind (adoptTerm_source msg) fun _ _ => ?_
  cases msg with
  | requestVote => exact handleRequestVote_source _ _ _ _ _ _ _
  | requestVoteResp => exact handleRequestVoteResp_source _ _ _ _ _
  | appendEntries => exact handleAppendEntries_source _ _ _ _ _ _ _ _
  | appendEntriesResp => exact handleAppendEntriesResp_source _ _ _ _ _ _ _
  | installSnapshot => exact handleInstallSnapshot_source _ _ hmsg
  | installSnapshotResp => exact handleInstallSnapshotResp_source _ _ _ _
  | timeoutNow => exact handleTimeoutNow_source _

theorem maybeSnapshot_source : StaysSourced L maybeSnapshot := by
  refine .read fun h hh => .ite (.pure trivial) (.ite (.pure trivial) ?_)
  refine .bind (onStore_source (fileOp_other fun _ => ⟨rfl, rfl, rfl⟩)) fun _ _ => ?_
  refine .bind (onStore_source (Snapshot.save_source (L.saved _ _ _ hh.machine))) fun _ _ => ?_
  refine .bind (onLog_source fun l => l.rewrite_source _ _) fun _ _ => ?_
  exact .bind (modifyNode_source fun _ => rfl) fun _ _ => .pure trivial

theorem stepDown_source : KeepsSource L stepDown := by
  refine .read fun _ _ => .ite (.pure allSourced_nil) ?_
  refine .bind (.ignore (appendLocal_source _)) fun _ _ => .read fun h hh => ?_
  refine .bind (becomeFollower_source _ _) fun _ _ => ?_
  refine .bind (modifyNode_source fun n => reset_sm n h.now) fun _ _ => .pure ?_
  refine (h.node.broadcastAppend_source hh.disk h.now).append ?_
  split
  · split
    · exact allSourced_singleton trivial
    · exact allSourced_nil
  · exact allSourced_nil
end Host

/-! ## Runs -/

namespace Host

theorem outputs_source {m : HostM (List Outbound)} (hm : KeepsSource L m) {h : Host}
    (hh : h.Sourced L) : AllSourced L (outputs (exec m h).1) := by
  cases hx : (exec m h).1 with
  | ok out => exact (hm h hh).2 out hx
  | error e => exact allSourced_nil

theorem handle_source {h : Host} (hh : h.Sourced L) (sender : String) {msg : Message}
    (hmsg : msg.Sourced L) :
    (handle sender msg h).2.Sourced L ∧ AllSourced L (handle sender msg h).1 := by
  obtain ⟨h1, h2⟩ := handleInner_source sender hmsg h hh
  unfold handle
  rcases hx : exec (handleInner sender msg) h with ⟨(e | out), h'⟩
  · rw [hx] at h1
    exact ⟨⟨h1.machine, h1.disk⟩, allSourced_nil⟩
  · rw [hx] at h1 h2
    exact ⟨h1, h2 out rfl⟩

/-- An opened node starts from a snapshot of its directory, or from a new state machine. -/
theorem openNode_source {cfg : RaftConfig} {now : Nat} {st st' : Store} {n : Node}
    (hst : st.disk.Sourced L) (hnew : L.machine (StateMachine.new cfg.shard cfg.maxSkewMs))
    (hx : exec (openNode cfg now) st = (.ok n, st')) :
    L.machine n.sm ∧ st'.disk.Sourced L := by
  have hover : ∀ snap sm, L.machine sm → Keeps (fun st : Store => st.disk.Sourced L)
      (fun n : Node => L.machine n.sm) (openOver cfg now snap sm) := by
    intro snap sm hsm
    refine .bind (Log.open_source _ _) fun log _ => .read fun st _ => .pure ?_
    refine Node.applyCommitted_source ?_
    rw [reset_sm]
    exact hsm
  have hopen : Keeps (fun st : Store => st.disk.Sourced L) (fun n : Node => L.machine n.sm)
      (openNode cfg now) := by
    unfold openNode
    split
    · exact .throw _
    · refine .bind (fileOp_other fun _ => ⟨rfl, rfl, rfl⟩) fun _ _ => .read fun st hst => ?_
      split
      · exact .throw _
      · next snap hload =>
        split
        · exact .throw _
        · next sm hsm =>
          refine hover snap sm ?_
          cases snap with
          | none =>
            cases hsm
            exact hnew
          | some f => exact L.loaded f sm (Snapshot.load_source hst hload) hsm
  obtain ⟨h1, h2⟩ := hopen st hst
  rw [hx] at h1 h2
  exact ⟨h2 n rfl, h1⟩

end Host

/-- What a request brings with it: a snapshot, or the settings of a new state machine. -/
def Request.Sourced (L : Lineage) : Request → Prop
  | .handle _ msg => msg.Sourced L
  | .restart cfg => L.machine (StateMachine.new cfg.shard cfg.maxSkewMs)
  | _ => True

theorem Host.serve_source {h h' : Host} {req : Request} {out : List Outbound}
    (hh : h.Sourced L) (hreq : req.Sourced L) (hs : h.serve req = some (out, h')) :
    h'.Sourced L ∧ AllSourced L out := by
  cases req with
  | tick =>
    cases hs
    exact ⟨(tick_source h hh).1, outputs_source tick_source hh⟩
  | propose op =>
    cases hs
    exact ⟨(appendLocal_source op h hh).1, allSourced_nil⟩
  | flush =>
    cases hs
    exact ⟨(flush_source h hh).1, outputs_source flush_source hh⟩
  | stepDown =>
    cases hs
    exact ⟨(stepDown_source h hh).1, outputs_source stepDown_source hh⟩
  | maybeSnapshot =>
    cases hs
    exact ⟨(maybeSnapshot_source h hh).1, allSourced_nil⟩
  | handle sender msg =>
    have hx := handle_source hh sender hreq
    rw [serve, Option.some.injEq] at hs
    rw [hs] at hx
    exact hx
  | restart cfg =>
    simp only [serve] at hs
    split at hs
    · split at hs
      · next n st hx =>
        cases hs
        obtain ⟨h1, h2⟩ := openNode_source hh.disk hreq hx
        exact ⟨⟨h1, h2⟩, allSourced_nil⟩
      · cases hs
    · cases hs

omit [SerdeJson] in
/-- A restart is a call of its own. -/
theorem Call.request_restart {net : List Packet} {i : String} {call : Call} {cfg : RaftConfig}
    (h : call.request net i = some (.restart cfg)) : call = .restart cfg := by
  cases call with
  | restart cfg' =>
    cases h
    rfl
  | deliver k =>
    simp only [request] at h
    split at h
    · split at h <;> cases h
    · cases h
  | _ => cases h

namespace Cluster

/-- Every state machine, every snapshot file and every snapshot on its way has the property. -/
structure Sourced (L : Lineage) (voters : List String) (c : Cluster) : Prop where
  hosts : ∀ i ∈ voters, (c.hosts i).Sourced L
  net : ∀ p ∈ c.net, p.msg.Sourced L

/-- A member that is restarted in a step is given settings of the fleet `S`. -/
def Settles (S : RaftConfig → Prop) (_ : History Cluster Event) (_ : Cluster) (e : Event) : Prop :=
  ∀ cfg, e.call = .restart cfg → S cfg

/-- The members have opened empty directories with settings of the fleet `S`. -/
def FleetInitial (voters : List String) (shard : Nat) (S : RaftConfig → Prop) (c : Cluster) : Prop :=
  Initial voters shard c ∧ ∀ i ∈ voters, S (c.hosts i).node.cfg

/-- The runs of a cluster whose members have settings of the fleet `S`. -/
abbrev FleetRun (voters : List String) (shard : Nat) (S : RaftConfig → Prop) :
    History Cluster Event → Cluster → Prop :=
  Run (step voters) (Settles S) (FleetInitial voters shard S)

variable {voters : List String} {shard : Nat} {S : RaftConfig → Prop} {c c' : Cluster} {e : Event}

theorem Sourced.request (hc : c.Sourced L voters) {req : Request}
    (hreq : e.call.request c.net e.node = some req)
    (hset : ∀ cfg, e.call = .restart cfg → L.machine (StateMachine.new cfg.shard cfg.maxSkewMs)) :
    req.Sourced L := by
  cases req with
  | handle sender msg => exact hc.net _ (Call.request_handle hreq)
  | restart cfg => exact hset cfg (Call.request_restart hreq)
  | _ => trivial

theorem Sourced.step (hc : c.Sourced L voters)
    (hset : ∀ cfg, e.call = .restart cfg → L.machine (StateMachine.new cfg.shard cfg.maxSkewMs))
    (hs : Cluster.step voters c e = some c') : c'.Sourced L voters := by
  obtain ⟨hi, req, out, h, hreq, hserve, rfl⟩ := step_eq_some hs
  have hprep : ((c.hosts e.node).prepared e.now e.faults).Sourced L :=
    ⟨(hc.hosts e.node hi).machine, (hc.hosts e.node hi).disk⟩
  obtain ⟨hh, hout⟩ := Host.serve_source hprep (hc.request hreq hset) hserve
  constructor
  · intro i hv
    rcases eq_or_ne i e.node with rfl | hne
    · simpa using hh
    · simpa [Function.update_of_ne hne] using hc.hosts i hv
  · intro p hp
    rcases List.mem_append.1 hp with hp | hp
    · exact hc.net p hp
    · obtain ⟨o, ho, rfl⟩ := List.mem_map.1 hp
      exact hout o ho

theorem Sourced.init (hnew : ∀ cfg, S cfg → L.machine (StateMachine.new cfg.shard cfg.maxSkewMs))
    (hc : FleetInitial voters shard S c) : c.Sourced L voters := by
  obtain ⟨⟨hnet, hopen⟩, hfleet⟩ := hc
  constructor
  · intro i hi
    obtain ⟨cfg, now, -, -, -, hx⟩ := hopen i hi
    have hcfg : (c.hosts i).node.cfg = cfg := congrArg Ballot.cfg (Host.openNode_ballot hx).2
    obtain ⟨h1, h2⟩ := Host.openNode_source Disk.empty_sourced (hnew cfg (hcfg ▸ hfleet i hi)) hx
    exact ⟨h1, h2⟩
  · intro p hp
    rw [hnet] at hp
    cases hp

/-- What the state machines of new nodes have, and is handed on, every state machine and every
snapshot of a run has. -/
theorem sourced (hnew : ∀ cfg, S cfg → L.machine (StateMachine.new cfg.shard cfg.maxSkewMs))
    {h : History Cluster Event} (hr : FleetRun voters shard S h c) : c.Sourced L voters := by
  induction hr with
  | start hi => exact .init hnew hi
  | step _ hg hs ih => exact ih.step (fun cfg hcall => hnew cfg (hg cfg hcall)) hs

end Cluster

end Rdsctl.Ha
