import Rdsctl.Ha.Advance
import Rdsctl.Ha.Provenance

/-!
# The progress of a node

The term, the commit index, the snapshot index and the applied index of a node, and the entries it
has handed to its state machine. Every call moves them forward (`Node.Progress`), with one
exception: a snapshot is installed whenever it is newer than the node's last snapshot, also when the
state machine is further than that (`Host.Installs`, `Host.Forward`).
-/

namespace Rdsctl.Ha

open Fallible

/-- Entries handed over one after another, newest first, above `lo` and up to `hi`. -/
def Handed (lo hi : Nat) (new : List ApplyCall) : Prop :=
  new.Pairwise (fun later earlier => earlier.index < later.index) ∧
    ∀ a ∈ new, lo < a.index ∧ a.index ≤ hi

theorem Handed.nil {lo hi : Nat} : Handed lo hi [] := ⟨.nil, nofun⟩

theorem Handed.append {lo mid hi : Nat} {new new' : List ApplyCall} (h : Handed lo mid new)
    (h' : Handed mid hi new') (hlo : lo ≤ mid) (hhi : mid ≤ hi) : Handed lo hi (new' ++ new) := by
  refine ⟨List.pairwise_append.2 ⟨h'.1, h.1, fun a ha b hb => ?_⟩, fun a ha => ?_⟩
  · exact lt_of_le_of_lt (h.2 b hb).2 (h'.2 a ha).1
  · rcases List.mem_append.1 ha with ha | ha
    · exact ⟨lt_of_le_of_lt hlo (h'.2 a ha).1, (h'.2 a ha).2⟩
    · exact ⟨(h.2 a ha).1, (h.2 a ha).2.trans hhi⟩

/-- No counter goes back, and only entries above the applied index are handed over. -/
structure Node.Progress (n n' : Node) : Prop where
  term : n.hard.currentTerm ≤ n'.hard.currentTerm
  commit : n.commitIndex ≤ n'.commitIndex
  snapshot : n.snapshotIndex ≤ n'.snapshotIndex
  applied : n.sm.appliedIndex ≤ n'.sm.appliedIndex
  within : n.sm.appliedIndex ≤ n.commitIndex → n'.sm.appliedIndex ≤ n'.commitIndex
  calls : ∃ new, n'.calls = new ++ n.calls ∧ Handed n.sm.appliedIndex n'.sm.appliedIndex new

/-- What committing and applying change. -/
def Node.counters (n : Node) : Nat × Nat × StateMachine × List ApplyCall :=
  (n.commitIndex, n.snapshotIndex, n.sm, n.calls)

namespace Node

variable {n n' n'' : Node}

theorem Progress.refl (n : Node) : n.Progress n :=
  ⟨le_rfl, le_rfl, le_rfl, le_rfl, id, [], rfl, .nil⟩

theorem Progress.trans (h : n.Progress n') (h' : n'.Progress n'') : n.Progress n'' where
  term := h.term.trans h'.term
  commit := h.commit.trans h'.commit
  snapshot := h.snapshot.trans h'.snapshot
  applied := h.applied.trans h'.applied
  within := fun hw => h'.within (h.within hw)
  calls := by
    obtain ⟨new, hc, hn⟩ := h.calls
    obtain ⟨new', hc', hn'⟩ := h'.calls
    exact ⟨new' ++ new, by rw [hc', hc, List.append_assoc], hn.append hn' h.applied h'.applied⟩

/-- A change of the term alone. -/
theorem Progress.of_counters (hc : n'.counters = n.counters)
    (ht : n.hard.currentTerm ≤ n'.hard.currentTerm) : n.Progress n' := by
  simp only [counters, Prod.mk.injEq] at hc
  obtain ⟨h1, h2, h3, h4⟩ := hc
  exact ⟨ht, h1.ge, h2.ge, by rw [h3], by rw [h1, h3]; exact id, [], h4, .nil⟩

section
variable [SerdeJson]

/-- Applying the next record. -/
theorem applyRecord_progress {r : Record} (hlt : n.sm.appliedIndex < n.commitIndex) :
    n.Progress (n.applyRecord (n.sm.appliedIndex + 1) r) := by
  obtain ⟨sm, results, hn, hsm⟩ := n.applyRecord_eq (n.sm.appliedIndex + 1) r
  rw [hn]
  refine ⟨le_rfl, le_rfl, le_rfl, ?_, fun _ => ?_, [_], rfl, List.pairwise_singleton _ _, ?_⟩
  · show n.sm.appliedIndex ≤ sm.appliedIndex
    omega
  · show sm.appliedIndex ≤ n.commitIndex
    omega
  · intro a ha
    obtain rfl := List.mem_singleton.1 ha
    show n.sm.appliedIndex < n.sm.appliedIndex + 1 ∧ n.sm.appliedIndex + 1 ≤ sm.appliedIndex
    omega

theorem applyLoop_progress (fuel : Nat) (n : Node)
    (hle : fuel ≤ n.commitIndex - n.sm.appliedIndex) : n.Progress (applyLoop fuel n) := by
  induction fuel generalizing n with
  | zero => exact .refl n
  | succ fuel ih =>
    rw [applyLoop]
    split
    · exact .refl n
    · next r _ =>
      obtain ⟨sm, results, hn, hsm⟩ := n.applyRecord_eq (n.sm.appliedIndex + 1) r
      refine (applyRecord_progress (by omega)).trans (ih _ ?_)
      rw [hn]
      show fuel ≤ n.commitIndex - sm.appliedIndex
      omega

theorem applyCommitted_progress (n : Node) : n.Progress n.applyCommitted := by
  have h := applyLoop_progress (n.commitIndex - n.sm.appliedIndex) n le_rfl
  exact ⟨h.term, h.commit, h.snapshot, h.applied, h.within, h.calls⟩

omit [SerdeJson] in
theorem commitTo_progress {index : Nat} (h : n.commitIndex ≤ index) :
    n.Progress (n.commitTo index) :=
  ⟨le_rfl, h, le_rfl, le_rfl, fun hw => hw.trans h, [], rfl, .nil⟩

theorem advanceCommit_progress (n : Node) : n.Progress n.advanceCommit := by
  refine (commitTo_progress ?_).trans (applyCommitted_progress _)
  rcases n.foldl_commitAt (List.range' (n.commitIndex + 1) (n.log.lastIndex - n.commitIndex))
    n.commitIndex with h | ⟨hmem, -, -⟩
  · exact h.ge
  · have := (List.mem_range'_1.1 hmem).1
    omega

end

end Node

/-! ## File operations that may fail -/

/-- The next `n` operations in the shard's directory succeed. -/
def Faults.allows (f : Faults) (n : Nat) : Prop := ∀ ok ∈ f.shard.take n, ok = true

instance (f : Faults) (n : Nat) : Decidable (f.allows n) := inferInstanceAs (Decidable (∀ _ ∈ _, _))

/-- The computation makes `n` operations in the shard's directory and succeeds when they do. -/
structure StoreM.Makes {α : Type} (m : StoreM α) (n : Nat) (st : Store) : Prop where
  ok : st.faults.allows n →
    ∃ a st', exec m st = (.ok a, st') ∧ st'.faults.shard = st.faults.shard.drop n
  error : ¬ st.faults.allows n → ∃ e st', exec m st = (.error e, st')

theorem StoreM.makes_pure {α : Type} (a : α) (st : Store) : StoreM.Makes (pure a) 0 st :=
  ⟨fun _ => ⟨a, st, rfl, rfl⟩, fun h => absurd (by simp [Faults.allows]) h⟩

/-- One operation, and what comes after it. -/
theorem StoreM.makes_fileOp {α : Type} {f : Disk → Disk} {g : Unit → StoreM α} {n : Nat}
    {st : Store} (h : ∀ st' : Store, st'.disk = f st.disk →
      st'.faults.shard = st.faults.shard.tail → (g ()).Makes n st') :
    StoreM.Makes (fileOp .shard f >>= g) (n + 1) st := by
  obtain ⟨k, ⟨o, l⟩⟩ := st
  rcases l with _ | ⟨b, l⟩
  · obtain ⟨hok, herr⟩ := h ⟨f k, ⟨o, []⟩⟩ rfl rfl
    constructor
    · intro ha
      obtain ⟨a, st', hx, hst⟩ := hok (by simp [Faults.allows])
      exact ⟨a, st', hx, by simpa using hst⟩
    · intro ha
      exact absurd (by simp [Faults.allows]) ha
  · cases b with
    | false =>
      constructor
      · intro ha
        exact absurd (ha false (by simp)) (by simp)
      · intro _
        exact ⟨.io, ⟨k, ⟨o, l⟩⟩, rfl⟩
    | true =>
      obtain ⟨hok, herr⟩ := h ⟨f k, ⟨o, l⟩⟩ rfl rfl
      have hiff : Faults.allows ⟨o, true :: l⟩ (n + 1) ↔ Faults.allows ⟨o, l⟩ n := by
        simp [Faults.allows]
      constructor
      · intro ha
        obtain ⟨a, st', hx, hst⟩ := hok (hiff.1 ha)
        exact ⟨a, st', hx, by simpa using hst⟩
      · intro ha
        exact herr fun h' => ha (hiff.2 h')

theorem StoreM.makes_last {f : Disk → Disk} {st : Store} :
    StoreM.Makes (fileOp .shard f) 1 st := by
  have h : StoreM.Makes (fileOp .shard f >>= pure) 1 st := makes_fileOp fun st' _ _ => makes_pure _ _
  rwa [bind_pure] at h

theorem Faults.allows_add {f : Faults} {m n : Nat} :
    f.allows (m + n) ↔ f.allows m ∧ ∀ ok ∈ (f.shard.drop m).take n, ok = true := by
  unfold allows
  rw [List.take_add]
  simp only [List.mem_append]
  constructor
  · exact fun h => ⟨fun ok hok => h ok (.inl hok), fun ok hok => h ok (.inr hok)⟩
  · rintro ⟨h1, h2⟩ ok (hok | hok)
    · exact h1 ok hok
    · exact h2 ok hok

/-- The operations of writing a snapshot: one more when there is one to keep. -/
def saveOps (k : Disk) : Nat := if k.snapshot.isSome then 7 else 6

/-- The operations of rewriting the log. -/
def rewriteOps : Nat := 6

open StoreM in
theorem Snapshot.save_makes (f : SnapshotFile) (st : Store) :
    StoreM.Makes (Snapshot.save f) (saveOps st.disk) st := by
  rcases hs : st.disk.snapshot with _ | g
  · rw [saveOps, hs]
    refine makes_fileOp fun st1 h1 _ => makes_fileOp fun st2 h2 _ => ?_
    refine makes_fileOp fun st3 h3 _ => makes_fileOp fun st4 h4 _ => ?_
    have hnone : st4.disk.snapshot.isSome = false := by simp [h4, h3, h2, h1, hs]
    constructor
    all_goals
      rw [exec_get_bind, hnone]
      intro ha
    · exact (makes_fileOp fun _ _ _ => makes_last).ok ha
    · exact (makes_fileOp fun _ _ _ => makes_last).error ha
  · rw [saveOps, hs]
    refine makes_fileOp fun st1 h1 _ => makes_fileOp fun st2 h2 _ => ?_
    refine makes_fileOp fun st3 h3 _ => makes_fileOp fun st4 h4 _ => ?_
    have hsome : st4.disk.snapshot.isSome = true := by simp [h4, h3, h2, h1, hs]
    constructor
    all_goals
      rw [exec_get_bind, hsome]
      intro ha
    · exact (makes_fileOp fun _ _ _ => makes_fileOp fun _ _ _ => makes_last).ok ha
    · exact (makes_fileOp fun _ _ _ => makes_fileOp fun _ _ _ => makes_last).error ha

open StoreM in
theorem Log.rewrite_makes (l : Log) (keep : List Record) (seed : Hash) (st : Store) :
    StoreM.Makes (l.rewrite keep seed) rewriteOps st := by
  refine makes_fileOp fun _ _ _ => makes_fileOp fun _ _ _ => makes_fileOp fun _ _ _ => ?_
  refine makes_fileOp fun _ _ _ => makes_fileOp fun _ _ _ => makes_fileOp fun _ _ _ => ?_
  exact makes_pure _ _

/-! ## The calls that go forward -/

/-- The counters and the term stay. -/
def SameCounters (h h' : Host) : Prop :=
  h'.node.counters = h.node.counters ∧ h'.node.hard.currentTerm = h.node.hard.currentTerm

instance : Std.Refl SameCounters := ⟨fun _ => ⟨rfl, rfl⟩⟩

instance : IsTrans Host SameCounters :=
  ⟨fun _ _ _ hab hbc => ⟨hbc.1.trans hab.1, hbc.2.trans hab.2⟩⟩

/-- A host whose node goes forward. -/
def Advances (h h' : Host) : Prop := h.node.Progress h'.node

instance : Std.Refl Advances := ⟨fun h => .refl h.node⟩

instance : IsTrans Host Advances := ⟨fun _ _ _ hab hbc => Node.Progress.trans hab hbc⟩

theorem SameCounters.advances {h h' : Host} (hs : SameCounters h h') : Advances h h' :=
  .of_counters hs.1 hs.2.ge

namespace Host

theorem modifyNode_counters {f : Node → Node} (hf : ∀ n, (f n).counters = n.counters)
    (ht : ∀ n, (f n).hard.currentTerm = n.hard.currentTerm) :
    Respects SameCounters (modifyNode f) := fun h => ⟨hf h.node, ht h.node⟩

theorem onStore_counters {α : Type} (m : StoreM α) : Respects SameCounters (onStore m) :=
  fun _ => ⟨rfl, rfl⟩

theorem onLog_counters (f : Log → StoreM Log) : Respects SameCounters (onLog f) :=
  .bind .get fun _ => .bind (onStore_counters _) fun _ =>
    modifyNode_counters (fun _ => rfl) fun _ => rfl

theorem persist_counters : Respects SameCounters persistHardState :=
  .bind .get fun _ => onStore_counters _

theorem appendBatch_counters (batch : List PendingEntry) :
    Respects SameCounters (appendBatch batch) :=
  .onError (onLog_counters _) fun _ => ⟨rfl, rfl⟩

theorem cutConflict_counters (entries : List EntryMeta) :
    Respects SameCounters (cutConflict entries) := by
  unfold cutConflict
  split
  · exact .pure _
  · refine .bind .get fun h => ?_
    split
    · exact .ite (onLog_counters _) (.pure _)
    · exact .pure _

theorem appendMissing_counters (entries : List EntryMeta) :
    Respects SameCounters (appendMissing entries) :=
  .bind .get fun _ => .ite (.pure _) (appendBatch_counters _)

/-- What is respected by the counters goes forward. -/
theorem advances_of_counters {α : Type} {m : HostM α} (hm : Respects SameCounters m) :
    Respects Advances m := fun h => (hm h).advances

theorem modifyNode_advances {f : Node → Node} (hf : ∀ n : Node, n.Progress (f n)) :
    Respects Advances (modifyNode f) := fun h => hf h.node

theorem becomeFollower_advances (term : Nat) (leader : Option String) :
    Respects Advances (becomeFollower term leader) := by
  have hretire : Respects Advances (modifyNode fun n => n.retire leader) :=
    modifyNode_advances fun n => .of_counters rfl le_rfl
  refine .read fun h => ?_
  split
  · next hlt =>
    have hrest : Respects Advances
        (persistHardState >>= fun _ => modifyNode fun n => n.retire leader) :=
      .bind (advances_of_counters persist_counters) fun _ => hretire
    have hterm : Advances h { h with node := h.node.inTerm term } := .of_counters rfl hlt.le
    rw [exec_modifyNode_bind]
    exact IsTrans.trans _ _ _ hterm (hrest _)
  · exact hretire h

theorem adoptTerm_advances (msg : Message) : Respects Advances (adoptTerm msg) :=
  .bind .get fun _ => .ite (becomeFollower_advances _ _) (.pure _)

theorem reset_counters (now : Nat) :
    Respects SameCounters (modifyNode fun n => n.resetElectionDeadline now) := by
  intro h
  obtain ⟨_, _, hn⟩ := h.node.resetElectionDeadline_frame now
  rw [exec_modifyNode, hn]
  exact ⟨rfl, rfl⟩

theorem heard_counters (now : Nat) :
    Respects SameCounters (modifyNode fun n => (n.heard now).resetElectionDeadline now) := by
  intro h
  obtain ⟨_, _, hn⟩ := (h.node.heard now).resetElectionDeadline_frame now
  rw [exec_modifyNode, hn]
  exact ⟨rfl, rfl⟩

theorem observed_counters (peer : String) (senderMs now : Nat) : Respects SameCounters
    (modifyNode fun n => (n.acked peer now).observeClock peer senderMs now) := by
  intro h
  obtain ⟨_, hn⟩ := (h.node.acked peer now).observeClock_frame peer senderMs now
  rw [exec_modifyNode, hn]
  exact ⟨rfl, rfl⟩

theorem observedRtt_counters (peer : String) (senderMs now echoMs : Nat) : Respects SameCounters
    (modifyNode fun n => (n.acked peer now).observeClockRtt peer senderMs now echoMs) := by
  intro h
  obtain ⟨_, hn⟩ := (h.node.acked peer now).observeClockRtt_frame peer senderMs now echoMs
  rw [exec_modifyNode, hn]
  exact ⟨rfl, rfl⟩

theorem observedLeader_counters (leader : String) (senderMs peerSkewMs now : Nat) :
    Respects SameCounters
      (modifyNode fun n => n.observeLeader leader senderMs peerSkewMs now) := by
  intro h
  rw [exec_modifyNode]
  unfold Node.observeLeader
  split
  · exact ⟨rfl, rfl⟩
  · obtain ⟨_, hn⟩ := (h.node.acked leader now).observeClock_frame leader senderMs now
    rw [hn]
    exact ⟨rfl, rfl⟩

theorem startPreVote_counters (now : Nat) :
    Respects SameCounters (modifyNode fun n => n.startPreVote now) := by
  intro h
  obtain ⟨_, _, hn⟩ := h.node.resetElectionDeadline_frame now
  rw [exec_modifyNode]
  simp only [Node.startPreVote, hn]
  split <;> exact ⟨rfl, rfl⟩

theorem takeLead_counters (now : Nat) :
    Respects SameCounters (modifyNode fun n => n.takeLead now) := fun _ => ⟨rfl, rfl⟩

theorem voteFor_counters (candidate : String) :
    Respects SameCounters (modifyNode fun n => n.voteFor candidate) := fun _ => ⟨rfl, rfl⟩

theorem countPreVote_counters (voter : String) :
    Respects SameCounters (modifyNode fun n => n.countPreVote voter) := fun _ => ⟨rfl, rfl⟩

theorem countVote_counters (voter : String) :
    Respects SameCounters (modifyNode fun n => n.countVote voter) := fun _ => ⟨rfl, rfl⟩

theorem acked_counters (peer : String) (now : Nat) :
    Respects SameCounters (modifyNode fun n => n.acked peer now) := fun _ => ⟨rfl, rfl⟩

theorem stand_counters : Respects SameCounters (modifyNode Node.stand) := fun _ => ⟨rfl, rfl⟩

theorem nextTerm_advances : Respects Advances (modifyNode Node.nextTerm) :=
  modifyNode_advances fun _ => .of_counters rfl (Nat.le_succ _)

section
variable [SerdeJson]

omit [SerdeJson] in
theorem startElection_advances : Respects Advances startElection := by
  have hrest : Respects SameCounters (modifyNode Node.stand >>= fun _ => get >>= fun h =>
      modifyNode (fun n => n.resetElectionDeadline h.now) >>= fun _ => get >>= fun h =>
        (pure (h.node.sendToOthers (.requestVote h.node.hard.currentTerm h.node.cfg.nodeId
          h.node.log.lastIndex h.node.log.lastTerm false h.now)) : HostM (List Outbound))) :=
    .bind stand_counters fun _ => .bind .get fun h =>
      .bind (reset_counters h.now) fun _ => .bind .get fun _ => .pure _
  refine .bind nextTerm_advances fun _ => ?_
  exact .bind (advances_of_counters persist_counters) fun _ => advances_of_counters hrest

theorem tick_advances : Respects Advances tick := by
  have hheard : ∀ now, Respects SameCounters (modifyNode fun n => n.heard now) :=
    fun _ _ => ⟨rfl, rfl⟩
  refine advances_of_counters (.bind .get fun h => .ite (.ite ?_ (.pure _)) (.ite ?_ (.pure _)))
  · exact .bind (hheard h.now) fun _ => .pure _
  · exact .bind (startPreVote_counters h.now) fun _ => .bind .get fun _ => .ite (.pure _) (.pure _)

theorem appendLocal_counters (op : Op) : Respects SameCounters (appendLocal op) := by
  have hmatched : ∀ index, Respects SameCounters (modifyNode fun n => n.matchedSelf index) :=
    fun _ _ => ⟨rfl, rfl⟩
  refine .bind .get fun _ => .ite (.throw _) (.bind (appendBatch_counters _) fun _ => ?_)
  exact .bind (hmatched _) fun _ => .pure _

theorem flush_advances : Respects Advances flush := by
  have hheard : ∀ now, Respects SameCounters (modifyNode fun n => n.heard now) :=
    fun _ _ => ⟨rfl, rfl⟩
  refine advances_of_counters (.bind .get fun h => .ite ?_ (.pure _))
  exact .bind (hheard h.now) fun _ => .pure _

theorem firstEntry_counters : Respects SameCounters (appendLocal .noop >>= fun _ =>
    get >>= fun h => (pure (h.node.broadcastAppend h.store.disk h.now) : HostM (List Outbound))) :=
  .bind (appendLocal_counters _) fun _ => .bind .get fun _ => .pure _

theorem becomeLeader_counters : Respects SameCounters becomeLeader :=
  .bind .get fun h => .bind (takeLead_counters h.now) fun _ => firstEntry_counters

omit [SerdeJson] in
theorem handleRequestVote_advances (sender : String) (term : Nat) (candidate : String)
    (lastLogIndex lastLogTerm : Nat) (preVote : Bool) (senderMs : Nat) :
    Respects Advances
      (handleRequestVote sender term candidate lastLogIndex lastLogTerm preVote senderMs) := by
  refine advances_of_counters (.bind .get fun h => ?_)
  refine .bind (observed_counters sender senderMs h.now) fun _ => .bind .get fun h => ?_
  refine .ite (.pure _) (.ite (.pure _) (.ite ?_ (.pure _)))
  refine .bind (voteFor_counters candidate) fun _ => .bind persist_counters fun _ => ?_
  exact .bind (reset_counters h.now) fun _ => .bind .get fun _ => .pure _

theorem handleRequestVoteResp_advances (term : Nat) (voter : String) (granted : Bool)
    (senderMs echoMs : Nat) :
    Respects Advances (handleRequestVoteResp term voter granted senderMs echoMs) := by
  refine .bind .get fun h => ?_
  refine .bind (advances_of_counters (observedRtt_counters voter senderMs h.now echoMs))
    fun _ => .bind .get fun h1 => .ite (.pure _) (.ite (.pure _) ?_)
  split
  · refine .bind (advances_of_counters (countPreVote_counters voter)) fun _ => ?_
    exact .bind .get fun _ => .ite startElection_advances (.pure _)
  · refine .bind (advances_of_counters (countVote_counters voter)) fun _ => ?_
    exact .bind .get fun _ => .ite (advances_of_counters becomeLeader_counters) (.pure _)
  · exact .pure _

theorem followCommit_progress (leaderCommit : Nat) (n : Node) :
    n.Progress (followCommit leaderCommit n) := by
  unfold followCommit
  simp only
  split
  · next hlt => exact (Node.commitTo_progress hlt.le).trans (Node.applyCommitted_progress _)
  · exact .refl n

theorem appendAndAnswer_advances (leader : String) (entries : List EntryMeta)
    (leaderCommit senderMs : Nat) :
    Respects Advances (appendAndAnswer leader entries leaderCommit senderMs) := by
  refine .bind (advances_of_counters (appendMissing_counters entries)) fun _ => ?_
  refine .bind (modifyNode_advances (followCommit_progress leaderCommit)) fun _ => ?_
  exact .bind .get fun _ => .pure _

theorem takeEntries_advances (leader : String) (prevLogIndex prevLogTerm : Nat)
    (entries : List EntryMeta) (leaderCommit senderMs : Nat) : Respects Advances
      (takeEntries leader prevLogIndex prevLogTerm entries leaderCommit senderMs) := by
  refine .bind .get fun _ => .ite (.pure _) ?_
  exact .bind (advances_of_counters (cutConflict_counters entries)) fun _ =>
    appendAndAnswer_advances _ _ _ _

theorem handleAppendEntries_advances (term : Nat) (leader : String)
    (prevLogIndex prevLogTerm : Nat) (entries : List EntryMeta)
    (leaderCommit senderMs peerSkewMs : Nat) : Respects Advances
      (handleAppendEntries term leader prevLogIndex prevLogTerm entries leaderCommit senderMs
        peerSkewMs) := by
  refine .bind .get fun h => ?_
  refine .bind (advances_of_counters
    (observedLeader_counters leader senderMs peerSkewMs h.now)) fun _ => ?_
  refine .bind .get fun h => .ite (.pure _) (.bind (becomeFollower_advances _ _) fun _ => ?_)
  exact .bind (advances_of_counters (heard_counters h.now)) fun _ => takeEntries_advances _ _ _ _ _ _

theorem handleAppendEntriesResp_advances (term : Nat) (follower : String) (success : Bool)
    (matchIndex : Nat) (conflictIndex : Option Nat) (senderMs echoMs : Nat) : Respects Advances
      (handleAppendEntriesResp term follower success matchIndex conflictIndex senderMs
        echoMs) := by
  have hmatched : ∀ n : Node, n.Progress (n.matched follower matchIndex).advanceCommit := by
    intro n
    have hfirst : n.Progress (n.matched follower matchIndex) := .of_counters rfl le_rfl
    exact hfirst.trans (Node.advanceCommit_progress _)
  have hnext : ∀ next, Respects SameCounters
      (modifyNode fun n => { n with nextIndex := n.nextIndex.insert follower next }) :=
    fun _ _ => ⟨rfl, rfl⟩
  refine .bind .get fun h => ?_
  refine .bind (advances_of_counters (observedRtt_counters follower senderMs h.now echoMs))
    fun _ => .bind .get fun h => ?_
  refine .ite (.bind (becomeFollower_advances _ _) fun _ => .pure _) (.ite (.pure _) (.ite ?_ ?_))
  · exact .bind (modifyNode_advances hmatched) fun _ => .pure _
  · exact .bind (advances_of_counters (hnext _)) fun _ => .bind .get fun _ => .pure _

omit [SerdeJson] in
theorem handleInstallSnapshotResp_advances (term : Nat) (follower : String) (success : Bool)
    (lastIncludedIndex : Nat) : Respects Advances
      (handleInstallSnapshotResp term follower success lastIncludedIndex) := by
  have hmatched : Respects SameCounters
      (modifyNode fun n => n.matched follower lastIncludedIndex) := fun _ => ⟨rfl, rfl⟩
  refine .bind .get fun h => .bind (advances_of_counters (acked_counters follower h.now)) fun _ => ?_
  refine .ite (.bind (becomeFollower_advances _ _) fun _ => .pure _) (.ite ?_ (.pure _))
  exact .bind (advances_of_counters hmatched) fun _ => .pure _

omit [SerdeJson] in
theorem handleTimeoutNow_advances (term : Nat) : Respects Advances (handleTimeoutNow term) := by
  refine .bind .get fun h => .ite (.pure _) (.ite (.pure _) ?_)
  exact .bind (advances_of_counters (reset_counters h.now)) fun _ => startElection_advances

theorem stepDown_advances : Respects Advances stepDown := by
  have hgrace : ∀ now, Respects SameCounters (modifyNode fun n =>
      { n.resetElectionDeadline now with
        electionDeadlineMs := now + satMul n.cfg.electionTimeoutMs.2 2 }) := by
    intro now h
    obtain ⟨_, _, hn⟩ := h.node.resetElectionDeadline_frame now
    rw [exec_modifyNode, hn]
    exact ⟨rfl, rfl⟩
  refine .bind .get fun _ => .ite (.pure _) ?_
  refine .bind (advances_of_counters (.ignore (appendLocal_counters _))) fun _ => ?_
  refine .bind .get fun h => .bind (becomeFollower_advances _ _) fun _ => ?_
  exact .bind (advances_of_counters (hgrace h.now)) fun _ => .pure _

end

/-! ## Installing a snapshot -/

/-- The counters stay, and the term does not fall. -/
def KeepsCounters (h h' : Host) : Prop :=
  h'.node.counters = h.node.counters ∧ h.node.hard.currentTerm ≤ h'.node.hard.currentTerm

/-- What the installation of a snapshot leaves: the state machine is replaced first, and the
indices follow when the log could be compacted. -/
structure Installed (h : Host) (f : SnapshotFile) (sm : StateMachine) (h' : Host) : Prop where
  machine : h'.node.sm = sm
  calls : h'.node.calls = h.node.calls
  term : h.node.hard.currentTerm ≤ h'.node.hard.currentTerm
  done : h.store.faults.allows (saveOps h.store.disk + rewriteOps) →
    h'.node.commitIndex = max h.node.commitIndex f.lastIncludedIndex ∧
      h'.node.snapshotIndex = f.lastIncludedIndex
  failed : ¬ h.store.faults.allows (saveOps h.store.disk + rewriteOps) →
    h'.node.commitIndex = h.node.commitIndex ∧ h'.node.snapshotIndex = h.node.snapshotIndex

theorem onStore_makes {α : Type} {m : StoreM α} {n : Nat} {h : Host} (hm : m.Makes n h.store) :
    (h.store.faults.allows n → ∃ a st, exec (onStore m) h = (.ok a, { h with store := st }) ∧
      st.faults.shard = h.store.faults.shard.drop n) ∧
    (¬ h.store.faults.allows n → ∃ e st, exec (onStore m) h = (.error e, { h with store := st })) := by
  constructor
  · intro ha
    obtain ⟨a, st, hx, hst⟩ := hm.ok ha
    exact ⟨a, st, by rw [exec_onStore, hx], hst⟩
  · intro ha
    obtain ⟨e, st, hx⟩ := hm.error ha
    exact ⟨e, st, by rw [exec_onStore, hx]⟩

/-- Compacting the log and moving the indices to the snapshot. -/
theorem exec_adopt {f : SnapshotFile} {h h' : Host} {r : Except HaError Unit}
    (hx : exec (do
      onLog fun l => l.compactUpto f.lastIncludedIndex f.seedBytes
      modifyNode fun n => (n.snapshotAt f.lastIncludedIndex f.lastIncludedTerm).commitTo
        (max n.commitIndex f.lastIncludedIndex)) h = (r, h')) :
    h'.node.sm = h.node.sm ∧ h'.node.calls = h.node.calls ∧
    h'.node.hard.currentTerm = h.node.hard.currentTerm ∧
    (h.store.faults.allows rewriteOps →
      h'.node.commitIndex = max h.node.commitIndex f.lastIncludedIndex ∧
        h'.node.snapshotIndex = f.lastIncludedIndex) ∧
    (¬ h.store.faults.allows rewriteOps →
      h'.node.commitIndex = h.node.commitIndex ∧
        h'.node.snapshotIndex = h.node.snapshotIndex) := by
  obtain ⟨hok, herr⟩ := onStore_makes (h := h) ((h.node.log).rewrite_makes
    (h.node.log.entries.filter fun r => decide (f.lastIncludedIndex < r.index)) f.seedBytes h.store)
  by_cases ha : h.store.faults.allows rewriteOps
  · obtain ⟨l, st, hlog, -⟩ := hok ha
    have hon : exec (onLog fun l => l.compactUpto f.lastIncludedIndex f.seedBytes) h =
        (.ok (), ⟨{ h.node with log := l }, st, h.now⟩) := by
      unfold onLog Log.compactUpto
      rw [exec_get_bind, exec_bind_ok hlog, exec_modifyNode]
    rw [exec_bind_ok hon, exec_modifyNode] at hx
    cases hx
    exact ⟨rfl, rfl, rfl, fun _ => ⟨rfl, rfl⟩, fun h => absurd ha h⟩
  · obtain ⟨e, st, hlog⟩ := herr ha
    have hon : exec (onLog fun l => l.compactUpto f.lastIncludedIndex f.seedBytes) h =
        (.error e, { h with store := st }) := by
      unfold onLog Log.compactUpto
      rw [exec_get_bind, exec_bind_error hlog]
    rw [exec_bind_error hon] at hx
    cases hx
    exact ⟨rfl, rfl, rfl, fun h => absurd h ha, fun _ => ⟨rfl, rfl⟩⟩

/-- A snapshot is installed when it could be written. -/
theorem exec_installSnapshot {f : SnapshotFile} {sm : StateMachine} {h h' : Host}
    {r : Except HaError Unit} (hparse : StateMachine.fromJson f.stateJson = .ok sm)
    (hx : exec (installSnapshot f) h = (r, h')) :
    (h.store.faults.allows (saveOps h.store.disk) → Installed h f sm h') ∧
      (¬ h.store.faults.allows (saveOps h.store.disk) → SameCounters h h') := by
  obtain ⟨hok, herr⟩ := onStore_makes (h := h) (Snapshot.save_makes f h.store)
  unfold installSnapshot at hx
  rw [hparse] at hx
  constructor
  · intro ha
    obtain ⟨_, st, hsave, hst⟩ := hok ha
    rw [exec_bind_ok hsave, exec_modifyNode_bind] at hx
    obtain ⟨hsm, hcalls, hterm, hdone, hfailed⟩ := exec_adopt hx
    have hallows : st.faults.allows rewriteOps ↔
        h.store.faults.allows (saveOps h.store.disk + rewriteOps) := by
      rw [Faults.allows_add, and_iff_right ha, ← hst]
      rfl
    exact ⟨hsm, hcalls, hterm.ge, fun h => hdone (hallows.2 h),
      fun h => hfailed fun h' => h (hallows.1 h')⟩
  · intro ha
    obtain ⟨e, st, hsave⟩ := herr ha
    rw [exec_bind_error hsave] at hx
    cases hx
    exact ⟨rfl, rfl⟩

section
variable [SerdeJson]

/-- The snapshot of a message of the term `term` replaces the state machine by `sm`. -/
structure Installs (h : Host) (term : Nat) (f : SnapshotFile) (sm : StateMachine) : Prop where
  current : h.node.hard.currentTerm ≤ term
  adopted : h.node.hard.currentTerm < term → persistSucceeds h.store.faults.hard = true
  verified : f.verify = .ok ()
  newer : h.node.snapshotIndex < f.lastIncludedIndex
  machine : StateMachine.fromJson f.stateJson = .ok sm
  saved : h.store.faults.allows (saveOps h.store.disk)

/-- A snapshot a request installs is not behind the state machine, and the indices follow it. -/
def Forward (h : Host) : Request → Prop
  | .handle _ (.installSnapshot term _ json) =>
    ∀ f sm, json.fromStr = .ok f → h.Installs term f sm →
      h.node.sm.appliedIndex ≤ f.lastIncludedIndex ∧
        (f.lastIncludedIndex ≤ h.node.commitIndex ∨
          h.store.faults.allows (saveOps h.store.disk + rewriteOps))
  | _ => True

theorem exec_takeSnapshot {leader : String} {json : JsonText SnapshotFile} {h h' : Host}
    {r : Except HaError (List Outbound)} (hx : exec (takeSnapshot leader json) h = (r, h')) :
    (∃ f sm, json.fromStr = .ok f ∧ f.verify = .ok () ∧
        h.node.snapshotIndex < f.lastIncludedIndex ∧ StateMachine.fromJson f.stateJson = .ok sm ∧
        h.store.faults.allows (saveOps h.store.disk) ∧ Installed h f sm h') ∨
      ((∀ f sm, json.fromStr = .ok f → f.verify = .ok () →
        h.node.snapshotIndex < f.lastIncludedIndex → StateMachine.fromJson f.stateJson = .ok sm →
        ¬ h.store.faults.allows (saveOps h.store.disk)) ∧ SameCounters h h') := by
  unfold takeSnapshot at hx
  split at hx
  · next hjson =>
    cases hx
    exact .inr ⟨fun f sm hf => by simp [hjson] at hf, rfl, rfl⟩
  next f hjson =>
  have hsame : ∀ g, json.fromStr = .ok g → g = f := fun g hg => by simpa [hjson] using hg.symm
  split at hx
  · next hbad =>
    cases hx
    refine .inr ⟨fun g sm hg hv => ?_, rfl, rfl⟩
    rw [hsame g hg, hbad] at hv
    cases hv
  next hv =>
  rw [exec_get_bind, exec_ite] at hx
  split at hx
  · next hle =>
    cases hx
    refine .inr ⟨fun g sm hg _ hlt => ?_, rfl, rfl⟩
    rw [hsame g hg] at hlt
    omega
  next hlt =>
  rcases hi : exec (installSnapshot f) h with ⟨ri, hi'⟩
  have hfinal : h' = hi' := by
    rcases ri with e | u
    · rw [exec_bind_error hi] at hx
      exact (congrArg Prod.snd hx).symm
    · rw [exec_bind_ok hi] at hx
      exact (congrArg Prod.snd hx).symm
  rw [hfinal]
  rcases hparse : StateMachine.fromJson f.stateJson with e | sm
  · have hstop : exec (installSnapshot f) h = (.error (.corrupt ("快照状态机解析失败:" ++ e)), h) := by
      unfold installSnapshot
      rw [hparse, exec_throw]
    rw [hstop] at hi
    cases hi
    refine .inr ⟨fun g sm hg _ _ hm => ?_, rfl, rfl⟩
    rw [hsame g hg, hparse] at hm
    cases hm
  · obtain ⟨hdone, hnot⟩ := exec_installSnapshot hparse hi
    by_cases ha : h.store.faults.allows (saveOps h.store.disk)
    · exact .inl ⟨f, sm, hjson, hv, Nat.lt_of_not_le hlt, hparse, ha, hdone ha⟩
    · exact .inr ⟨fun _ _ _ _ _ _ => ha, hnot ha⟩

end

/-! ### The way of the message to the node -/

/-- The part of the shard's directory that an installation depends on. -/
def SameDir (st st' : Store) : Prop :=
  st'.faults.shard = st.faults.shard ∧ st'.disk.snapshot = st.disk.snapshot

instance : IsTrans Store SameDir := ⟨fun _ _ _ hab hbc => ⟨hbc.1.trans hab.1, hbc.2.trans hab.2⟩⟩

theorem fileOp_sameDir {f : Disk → Disk} (hf : ∀ k, (f k).snapshot = k.snapshot) :
    Respects SameDir (fileOp .node f) := by
  intro st
  unfold exec fileOp
  split
  · exact ⟨rfl, hf st.disk⟩
  · exact ⟨rfl, rfl⟩

/-- The same of two hosts. -/
def SameShardDir (h h' : Host) : Prop := SameDir h.store h'.store

instance : Std.Refl SameShardDir := ⟨fun _ => ⟨rfl, rfl⟩⟩

instance : IsTrans Host SameShardDir :=
  ⟨fun _ _ _ hab hbc => ⟨hbc.1.trans hab.1, hbc.2.trans hab.2⟩⟩

theorem modifyNode_shardDir (f : Node → Node) : Respects SameShardDir (modifyNode f) :=
  fun _ => ⟨rfl, rfl⟩

theorem onStore_shardDir {α : Type} {m : StoreM α} (hm : Respects SameDir m) :
    Respects SameShardDir (onStore m) := fun h => hm h.store

theorem persist_shardDir : Respects SameShardDir persistHardState := by
  refine .bind .get fun h => onStore_shardDir ?_
  refine .bind (fileOp_sameDir fun _ => rfl) fun _ => ?_
  refine .bind (fileOp_sameDir fun _ => rfl) fun _ => ?_
  refine .bind (fileOp_sameDir fun _ => rfl) fun _ => ?_
  refine .bind (fileOp_sameDir fun _ => rfl) fun _ => ?_
  exact fileOp_sameDir fun _ => rfl

theorem becomeFollower_shardDir (term : Nat) (leader : Option String) :
    Respects SameShardDir (becomeFollower term leader) := by
  refine .bind .get fun h => ?_
  split
  · refine .bind (modifyNode_shardDir _) fun _ => .bind persist_shardDir fun _ => ?_
    exact modifyNode_shardDir _
  · exact modifyNode_shardDir _

theorem becomeFollower_keeps (term : Nat) (leader : Option String) :
    Respects (fun h h' : Host => h'.node.counters = h.node.counters)
      (becomeFollower term leader) := by
  have htrans : IsTrans Host fun h h' => h'.node.counters = h.node.counters :=
    ⟨fun _ _ _ hab hbc => hbc.trans hab⟩
  have hrefl : Std.Refl fun h h' : Host => h'.node.counters = h.node.counters := ⟨fun _ => rfl⟩
  have hmodify : ∀ f : Node → Node, (∀ n, (f n).counters = n.counters) →
      Respects (fun h h' : Host => h'.node.counters = h.node.counters) (modifyNode f) :=
    fun _ hf h => hf h.node
  refine .bind .get fun h => ?_
  split
  · refine .bind (hmodify _ fun _ => rfl) fun _ => .bind (fun h => (persist_counters h).1) fun _ => ?_
    exact hmodify _ fun _ => rfl
  · exact hmodify _ fun _ => rfl

/-- A node follows a leader of its term or a higher one, unless the term cannot be written. -/
theorem exec_becomeFollower {term : Nat} {leader : Option String} {h h' : Host}
    {r : Except HaError Unit} (hx : exec (becomeFollower term leader) h = (r, h'))
    (hle : h.node.hard.currentTerm ≤ term) : h'.node.hard.currentTerm = term ∧
      ((∃ e, r = .error e) ↔
        h.node.hard.currentTerm < term ∧ persistSucceeds h.store.faults.hard = false) := by
  have hf := becomeFollower_follows hx
  obtain ⟨b', hb'⟩ : ∃ b', h'.ballot = b' := ⟨_, rfl⟩
  obtain ⟨ok, hok⟩ : ∃ ok, r.toBool = ok := ⟨_, rfl⟩
  have hterm : h'.node.hard.currentTerm = b'.hard.currentTerm := by rw [← hb']; rfl
  have hr : (∃ e, r = .error e) ↔ ok = false := by
    rw [← hok]
    rcases r with e | u
    · simp [Except.toBool]
    · simp [Except.toBool]
  rw [hb', hok] at hf
  rw [hterm, hr]
  cases hf with
  | stays h1 =>
    have h2 : term ≤ h.node.hard.currentTerm := h1
    exact ⟨le_antisymm hle h2, by simp; omega⟩
  | adopts h1 hp =>
    have h2 : persistSucceeds h.store.faults.hard = true := hp
    exact ⟨rfl, by simp [h2]⟩
  | fails h1 hp =>
    have h2 : persistSucceeds h.store.faults.hard = false := hp
    exact ⟨rfl, by simp only [h2, and_true, true_iff]; exact h1⟩

theorem SameShardDir.allows {h h' : Host} (hs : SameShardDir h h') (n : Nat) :
    h'.store.faults.allows (saveOps h'.store.disk + n) ↔
      h.store.faults.allows (saveOps h.store.disk + n) := by
  unfold Faults.allows saveOps
  rw [hs.1, hs.2]

section
variable [SerdeJson]

omit [SerdeJson] in
/-- The rule on higher terms, for a message that is not below the node's term. -/
theorem exec_adoptTerm_install {term : Nat} {leader : String} {json : JsonText SnapshotFile}
    {h h' : Host} {r : Except HaError Unit}
    (hx : exec (adoptTerm (.installSnapshot term leader json)) h = (r, h'))
    (hle : h.node.hard.currentTerm ≤ term) :
    h'.node.counters = h.node.counters ∧ SameShardDir h h' ∧ h'.node.hard.currentTerm = term ∧
      ((∃ e, r = .error e) ↔
        h.node.hard.currentTerm < term ∧ persistSucceeds h.store.faults.hard = false) := by
  unfold adoptTerm at hx
  rw [exec_get_bind, exec_ite] at hx
  split at hx
  · have hk := becomeFollower_keeps term none h
    have hd := becomeFollower_shardDir term none h
    obtain ⟨hterm, herr⟩ := exec_becomeFollower hx hle
    have hx' : exec (becomeFollower term none) h = (r, h') := hx
    rw [hx'] at hk hd
    exact ⟨hk, hd, hterm, herr⟩
  · next hn =>
    have hge : ¬ h.node.hard.currentTerm < term := fun hlt => hn ⟨hlt, rfl⟩
    cases hx
    refine ⟨rfl, ⟨rfl, rfl⟩, le_antisymm hle (Nat.le_of_not_lt hge), ?_⟩
    simp [hge]

/-- What a message with a snapshot does to the counters. -/
theorem exec_install {sender : String} {term : Nat} {leader : String}
    {json : JsonText SnapshotFile} {h h' : Host} {r : Except HaError (List Outbound)}
    (hx : exec (handleInner sender (.installSnapshot term leader json)) h = (r, h')) :
    (∃ f sm, json.fromStr = .ok f ∧ h.Installs term f sm ∧ Installed h f sm h') ∨
      ((∀ f sm, json.fromStr = .ok f → ¬ h.Installs term f sm) ∧ KeepsCounters h h') := by
  unfold handleInner at hx
  rcases Nat.lt_or_ge term h.node.hard.currentTerm with hlt | hle
  · have hstay : exec (adoptTerm (.installSnapshot term leader json)) h = (.ok (), h) := by
      unfold adoptTerm
      rw [exec_get_bind, if_neg fun hc => absurd hc.1 (Nat.lt_asymm hlt), exec_pure]
    rw [exec_bind_ok hstay] at hx
    simp only [handleInstallSnapshot] at hx
    rw [exec_get_bind, exec_modifyNode_bind, if_pos hlt, exec_pure] at hx
    cases hx
    exact .inr ⟨fun f sm _ hi => absurd hi.current (Nat.not_le.2 hlt), rfl, le_rfl⟩
  rcases ha : exec (adoptTerm (.installSnapshot term leader json)) h with ⟨ra, h1⟩
  obtain ⟨hcount, hdir, hterm, herr⟩ := exec_adoptTerm_install ha hle
  rcases ra with e | u
  · obtain ⟨hlt, hp⟩ := herr.1 ⟨e, rfl⟩
    rw [exec_bind_error ha] at hx
    cases hx
    refine .inr ⟨fun f sm _ hi => ?_, hcount, hle.trans hterm.ge⟩
    rw [hi.adopted hlt] at hp
    cases hp
  have hadopted : h.node.hard.currentTerm < term → persistSucceeds h.store.faults.hard = true := by
    intro hlt
    by_contra hp
    obtain ⟨e, he⟩ := herr.2 ⟨hlt, by simpa using hp⟩
    cases he
  rw [exec_bind_ok ha] at hx
  simp only [handleInstallSnapshot] at hx
  have hstay : exec (becomeFollower term (some leader)) ⟨h1.node.acked leader h1.now, h1.store, h1.now⟩
      = (.ok (), _) := exec_becomeFollower_stay hterm.ge
  rw [exec_get_bind, exec_modifyNode_bind, if_neg hterm.le.not_gt, exec_bind_ok hstay,
    exec_modifyNode_bind] at hx
  have hsnap : h1.node.snapshotIndex = h.node.snapshotIndex :=
    congrArg (fun c => c.2.1) hcount
  have hcommit : h1.node.commitIndex = h.node.commitIndex := congrArg Prod.fst hcount
  have hcalls : h1.node.calls = h.node.calls := congrArg (fun c => c.2.2.2) hcount
  have hone := hdir.allows 0
  have hboth := hdir.allows rewriteOps
  simp only [Nat.add_zero] at hone
  rcases exec_takeSnapshot hx with ⟨f, sm, hjson, hv, hnew, hparse, hsave, hinst⟩ | ⟨hnone, hsame⟩
  · refine .inl ⟨f, sm, hjson, ⟨hle, hadopted, hv, hsnap ▸ hnew, hparse, hone.1 hsave⟩, ?_⟩
    constructor
    · exact hinst.machine
    · exact hinst.calls.trans hcalls
    · exact (hle.trans hterm.ge).trans hinst.term
    · intro hall
      obtain ⟨hc, hs⟩ := hinst.done (hboth.2 hall)
      exact ⟨hc.trans (congrArg (max · f.lastIncludedIndex) hcommit), hs⟩
    · intro hall
      obtain ⟨hc, hs⟩ := hinst.failed fun h' => hall (hboth.1 h')
      exact ⟨hc.trans hcommit, hs.trans hsnap⟩
  · refine .inr ⟨fun f sm hjson hi => ?_, hsame.1.trans hcount, ?_⟩
    · exact hnone f sm hjson hi.verified (hsnap.symm ▸ hi.newer) hi.machine (hone.2 hi.saved)
    · exact (hle.trans hterm.ge).trans hsame.2.ge

end

/-- What comes after a part that leaves the counters alone. -/
theorem advances_after {α β : Type} {m : HostM α} {f : α → HostM β} {h h1 : Host}
    (hm : Respects SameCounters m) (hs : SameCounters h h1)
    (hf : ∀ a h', SameCounters h h' → Advances h (exec (f a) h').2) :
    Advances h (exec (m >>= f) h1).2 := by
  have h2 := IsTrans.trans _ _ _ hs (hm h1)
  rw [exec_bind]
  rcases hx : exec m h1 with ⟨(e | a), h'⟩
  · rw [hx] at h2
    exact SameCounters.advances h2
  · rw [hx] at h2
    exact hf a h' h2

section
variable [SerdeJson]

theorem maybeSnapshot_advances : Respects Advances maybeSnapshot := by
  refine .read fun h => ?_
  simp only
  split
  · exact Node.Progress.refl _
  split
  · exact Node.Progress.refl _
  · next hupto =>
    rw [not_or, not_le] at hupto
    refine advances_after (onStore_counters _) (Std.Refl.refl h) fun _ h1 hs1 => ?_
    refine advances_after (onStore_counters _) hs1 fun _ h2 hs2 => ?_
    refine advances_after (onLog_counters _) hs2 fun _ h3 hs3 => ?_
    obtain ⟨hc, ht⟩ := hs3
    simp only [Node.counters, Prod.mk.injEq] at hc
    obtain ⟨hcommit, hsnap, hsm, hcalls⟩ := hc
    rw [exec_modifyNode_bind]
    exact ⟨ht.ge, hcommit.ge, hupto.2.le, (congrArg _ hsm).ge,
      fun hw => (congrArg _ hsm).le.trans (hw.trans hcommit.ge), [], hcalls, .nil⟩

end

/-! ## Every call -/

variable [SerdeJson]

theorem handle_node (sender : String) (msg : Message) (h : Host) :
    (handle sender msg h).2.node.counters = (exec (handleInner sender msg) h).2.node.counters ∧
      (handle sender msg h).2.node.hard = (exec (handleInner sender msg) h).2.node.hard := by
  unfold handle
  rcases exec (handleInner sender msg) h with ⟨(e | out), h'⟩ <;> exact ⟨rfl, rfl⟩

theorem handle_advances {sender : String} {msg : Message} {h : Host}
    (hx : Advances h (exec (handleInner sender msg) h).2) :
    Advances h (handle sender msg h).2 :=
  hx.trans (.of_counters (handle_node sender msg h).1
    (congrArg HardState.currentTerm (handle_node sender msg h).2).ge)

/-- A call other than the handling of a snapshot goes forward. -/
theorem serve_advances {h h' : Host} {req : Request} {out : List Outbound}
    (hs : h.serve req = some (out, h')) (hrestart : ∀ cfg, req ≠ .restart cfg)
    (hsnap : ∀ sender term leader json, req ≠ .handle sender (.installSnapshot term leader json)) :
    Advances h h' := by
  cases req with
  | tick =>
    cases hs
    exact tick_advances h
  | propose op =>
    cases hs
    exact (appendLocal_counters op h).advances
  | flush =>
    cases hs
    exact flush_advances h
  | stepDown =>
    cases hs
    exact stepDown_advances h
  | maybeSnapshot =>
    cases hs
    exact maybeSnapshot_advances h
  | restart cfg => exact absurd rfl (hrestart cfg)
  | handle sender msg =>
    rw [serve, Option.some.injEq] at hs
    obtain rfl : (handle sender msg h).2 = h' := congrArg Prod.snd hs
    refine handle_advances ((Respects.bind (adoptTerm_advances msg) fun _ => ?_) h)
    cases msg with
    | requestVote => exact handleRequestVote_advances _ _ _ _ _ _ _
    | requestVoteResp => exact handleRequestVoteResp_advances _ _ _ _ _
    | appendEntries => exact handleAppendEntries_advances _ _ _ _ _ _ _ _
    | appendEntriesResp => exact handleAppendEntriesResp_advances _ _ _ _ _ _ _
    | installSnapshot => exact absurd rfl (hsnap _ _ _ _)
    | installSnapshotResp => exact handleInstallSnapshotResp_advances _ _ _ _
    | timeoutNow => exact handleTimeoutNow_advances _

/-- A snapshot says up to which entry its state machine is. -/
def sealed : Lineage where
  machine _ := True
  file f := ∀ sm, StateMachine.fromJson f.stateJson = .ok sm →
    sm.appliedIndex = f.lastIncludedIndex
  applied := fun _ _ _ _ => trivial
  saved := by
    intro sm shard term _ sm' hx
    have hparse : StateMachine.fromJson sm.toJson = .ok sm' := hx
    rw [StateMachine.fromJson_toJson] at hparse
    cases hparse
    rfl
  loaded := fun _ _ _ _ => trivial

/-- A snapshot is sealed with its digest. -/
def checked : Lineage where
  machine _ := True
  file f := f.verify = .ok ()
  applied := fun _ _ _ _ => trivial
  saved := fun _ _ _ _ => SnapshotFile.verify_new _ _ _ _ _
  loaded := fun _ _ _ _ => trivial

/-- A call goes forward exactly when the snapshot it installs does. -/
theorem serve_forward {h h' : Host} {req : Request} {out : List Outbound}
    (hs : h.serve req = some (out, h')) (hrestart : ∀ cfg, req ≠ .restart cfg)
    (hreq : req.Sourced sealed) (hw : h.node.sm.appliedIndex ≤ h.node.commitIndex) :
    (h.node.Progress h'.node ∧ h'.node.sm.appliedIndex ≤ h'.node.commitIndex) ↔
      h.Forward req := by
  by_cases hsnap : ∀ sender term leader json, req ≠ .handle sender (.installSnapshot term leader json)
  · have hadv : h.node.Progress h'.node := serve_advances hs hrestart hsnap
    have htrue : h.Forward req := by
      unfold Forward
      split
      · exact absurd rfl (hsnap _ _ _ _)
      · trivial
    exact iff_of_true ⟨hadv, hadv.within hw⟩ htrue
  simp only [not_forall, not_not] at hsnap
  obtain ⟨sender, term, leader, json, rfl⟩ := hsnap
  rw [serve, Option.some.injEq] at hs
  obtain rfl : (handle sender (.installSnapshot term leader json) h).2 = h' := congrArg Prod.snd hs
  obtain ⟨hcount, hhard⟩ := handle_node sender (.installSnapshot term leader json) h
  generalize (handle sender (.installSnapshot term leader json) h).2.node = n' at hcount hhard ⊢
  rcases hx : exec (handleInner sender (.installSnapshot term leader json)) h with ⟨r, h1⟩
  rw [hx] at hcount hhard
  simp only [Node.counters, Prod.mk.injEq] at hcount
  obtain ⟨hcommit, hindex, hsm, hcalls⟩ := hcount
  rcases exec_install hx with ⟨f, sm, hjson, hinst, hdone⟩ | ⟨hnone, hkeep⟩
  · have happ : sm.appliedIndex = f.lastIncludedIndex := hreq f hjson sm hinst.machine
    have hsm' : n'.sm = sm := hsm.trans hdone.machine
    constructor
    · rintro ⟨hp, hwithin⟩ g sm' hg -
      obtain rfl : f = g := Except.ok.inj (hjson.symm.trans hg)
      refine ⟨?_, ?_⟩
      · rw [← happ, ← hsm']
        exact hp.applied
      · by_contra hno
        rw [not_or] at hno
        obtain ⟨hc, -⟩ := hdone.failed hno.2
        rw [hsm', happ, hcommit, hc] at hwithin
        exact hno.1 hwithin
    · intro hforward
      obtain ⟨hle, hdown⟩ := hforward f sm hjson hinst
      have hcases : n'.commitIndex = max h.node.commitIndex f.lastIncludedIndex ∧
          n'.snapshotIndex = f.lastIncludedIndex ∨
          f.lastIncludedIndex ≤ h.node.commitIndex ∧ n'.commitIndex = h.node.commitIndex ∧
          n'.snapshotIndex = h.node.snapshotIndex := by
        by_cases hall : h.store.faults.allows (saveOps h.store.disk + rewriteOps)
        · exact .inl ⟨hcommit.trans (hdone.done hall).1, hindex.trans (hdone.done hall).2⟩
        · exact .inr ⟨hdown.resolve_right hall, hcommit.trans (hdone.failed hall).1,
            hindex.trans (hdone.failed hall).2⟩
      have hnewer := hinst.newer
      have happ' : n'.sm.appliedIndex = f.lastIncludedIndex := by rw [hsm', happ]
      have hwithin : n'.sm.appliedIndex ≤ n'.commitIndex := by omega
      refine ⟨⟨?_, by omega, by omega, by omega, fun _ => hwithin, [], ?_, .nil⟩, hwithin⟩
      · rw [hhard]
        exact hdone.term
      · exact hcalls.trans hdone.calls
  · have hadv : h.node.Progress n' := by
      refine .of_counters ?_ (by rw [hhard]; exact hkeep.2)
      refine Eq.trans ?_ hkeep.1
      simp only [Node.counters, hcommit, hindex, hsm, hcalls]
    refine iff_of_true ⟨hadv, hadv.within hw⟩ fun f sm hjson hinst => ?_
    exact absurd hinst (hnone f sm hjson)

/-- A node that has just opened is at its snapshot, and has handed over nothing. -/
theorem openNode_progress {cfg : RaftConfig} {now : Nat} {st st' : Store} {n : Node}
    (hst : st.disk.Sourced sealed) (hx : exec (openNode cfg now) st = (.ok n, st')) :
    n.sm.appliedIndex ≤ n.commitIndex ∧ n.calls = [] := by
  let P : Node → Prop := fun n => n.sm.appliedIndex ≤ n.commitIndex ∧ n.calls = []
  have hover : ∀ snap sm, sm.appliedIndex = (snap.map (·.lastIncludedIndex)).getD 0 →
      Keeps (fun st : Store => st.disk.Sourced sealed) P (openOver cfg now snap sm) := by
    intro snap sm happ
    refine .bind (Log.open_source _ _) fun log _ => .read fun st _ => .pure ?_
    obtain ⟨_, _, hreset⟩ := (opened cfg log sm
      (st.disk.hardState.getD HardState.default) snap).resetElectionDeadline_frame now
    rw [hreset]
    have hzero : (opened cfg log sm (st.disk.hardState.getD HardState.default) snap).commitIndex -
        sm.appliedIndex = 0 := by
      rw [happ]
      exact Nat.sub_self _
    refine ⟨?_, ?_⟩
    · simp only [Node.applyCommitted]
      rw [show (opened cfg log sm _ snap).sm.appliedIndex = sm.appliedIndex from rfl, hzero]
      exact happ.le
    · simp only [Node.applyCommitted]
      rw [show (opened cfg log sm _ snap).sm.appliedIndex = sm.appliedIndex from rfl, hzero]
      rfl
  have hopen : Keeps (fun st : Store => st.disk.Sourced sealed) P (openNode cfg now) := by
    unfold openNode
    split
    · exact .throw _
    · refine .bind (fileOp_other fun _ => ⟨rfl, rfl, rfl⟩) fun _ _ => .read fun st hst => ?_
      split
      · exact .throw _
      · next snap hload =>
        split
        · exact .throw _
        · next sm hsm =>
          refine hover snap sm ?_
          cases snap with
          | none =>
            cases hsm
            rfl
          | some f => exact Snapshot.load_source hst hload sm hsm
  have hP := (hopen st hst).2
  rw [hx] at hP
  exact hP n rfl

end Host

/-! ## Runs -/

/-- What is applied is committed, and no entry was handed over twice. -/
structure Node.InOrder (n : Node) : Prop where
  within : n.sm.appliedIndex ≤ n.commitIndex
  once : Handed 0 n.sm.appliedIndex n.calls

theorem Node.InOrder.progress {n n' : Node} (h : n.InOrder) (hp : n.Progress n')
    (hw : n'.sm.appliedIndex ≤ n'.commitIndex) : n'.InOrder := by
  obtain ⟨new, hcalls, hnew⟩ := hp.calls
  refine ⟨hw, ?_⟩
  rw [hcalls]
  exact h.once.append hnew (Nat.zero_le _) hp.applied

namespace Cluster

section
variable [SerdeJson]

/-- In a step every node goes forward, but for one that is restarted, and is in order after it. -/
def StepKept (voters : List String) (c : Cluster) (e : Event) (c' : Cluster) : Prop :=
  ∀ i ∈ voters, ((∀ cfg, e.call = .restart cfg → i ≠ e.node) →
    (c.hosts i).node.Progress (c'.hosts i).node) ∧ (c'.hosts i).node.InOrder

/-- Progress never regresses along the run. -/
def ProgressKept (voters : List String) : History Cluster Event → Cluster → Prop
  | [], c => ∀ i ∈ voters, (c.hosts i).node.InOrder
  | (c, e) :: h, c' => ProgressKept voters h c ∧ StepKept voters c e c'

/-- The snapshot that a step installs is not behind the state machine it replaces, and the indices
follow it. -/
def Forward (c : Cluster) (e : Event) : Prop :=
  ∀ req, e.call.request c.net e.node = some req →
    ((c.hosts e.node).prepared e.now e.faults).Forward req

/-- All runs of a cluster. -/
abbrev FreeRun (voters : List String) (shard : Nat) : History Cluster Event → Cluster → Prop :=
  GuardedRun voters shard fun _ _ _ => True

variable {voters : List String} {shard : Nat} {h : History Cluster Event} {c c' : Cluster}
  {e : Event}

theorem FreeRun.sourced {L : Lineage} (hr : FreeRun voters shard h c)
    (hnew : ∀ cfg : RaftConfig, L.machine (StateMachine.new cfg.shard cfg.maxSkewMs)) :
    c.Sourced L voters := by
  have hfleet : FleetRun voters shard (fun _ => True) h c := by
    induction hr with
    | start hi => exact .start ⟨hi, fun _ _ => trivial⟩
    | step _ _ hs ih => exact .step ih (fun _ _ => trivial) hs
  exact Cluster.sourced (fun cfg _ => hnew cfg) hfleet

theorem FreeRun.sealed (hr : FreeRun voters shard h c) : c.Sourced Host.sealed voters :=
  hr.sourced fun _ => trivial

omit [SerdeJson] in
theorem ProgressKept.inOrder (hk : ProgressKept voters h c) {i : String} (hi : i ∈ voters) :
    (c.hosts i).node.InOrder := by
  rcases h with _ | ⟨⟨c0, e⟩, h⟩
  · exact hk i hi
  · exact (hk.2 i hi).2

theorem initial_inOrder (hc : Initial voters shard c) {i : String} (hi : i ∈ voters) :
    (c.hosts i).node.InOrder := by
  obtain ⟨cfg, now, -, -, -, hx⟩ := hc.2 i hi
  obtain ⟨hw, hcalls⟩ := Host.openNode_progress Disk.empty_sourced hx
  exact ⟨hw, hcalls ▸ .nil⟩

/-- A step keeps the progress exactly when the snapshot it installs does. -/
theorem stepKept_iff (hc : c.Sourced Host.sealed voters)
    (hin : ∀ i ∈ voters, (c.hosts i).node.InOrder) (hs : step voters c e = some c') :
    StepKept voters c e c' ↔ c.Forward e := by
  obtain ⟨hv, req, out, h, hreq, hserve, hc'⟩ := step_eq_some hs
  have hsource : req.Sourced Host.sealed := hc.request hreq fun _ _ => trivial
  have hdisk : ((c.hosts e.node).prepared e.now e.faults).Sourced Host.sealed :=
    ⟨trivial, (hc.hosts e.node hv).disk⟩
  have hiff : c.Forward e ↔ ((c.hosts e.node).prepared e.now e.faults).Forward req :=
    ⟨fun hf => hf req hreq, fun hf r hr => Option.some.inj (hreq.symm.trans hr) ▸ hf⟩
  have hself : c'.hosts e.node = h := by simp [hc']
  have hother : ∀ i ≠ e.node, c'.hosts i = c.hosts i := fun i hne => by simp [hc', hne]
  rw [hiff]
  by_cases hrestart : ∀ cfg, req ≠ .restart cfg
  · have hcall : ∀ cfg, e.call = .restart cfg → e.node ≠ e.node := by
      intro cfg hcall
      rw [hcall] at hreq
      exact absurd (Option.some.inj hreq).symm (hrestart cfg)
    rw [← Host.serve_forward hserve hrestart hsource (hin e.node hv).within]
    constructor
    · intro hk
      obtain ⟨hp, horder⟩ := hk e.node hv
      rw [hself] at hp horder
      exact ⟨hp hcall, horder.within⟩
    · rintro ⟨hp, hw⟩ i hi
      rcases eq_or_ne i e.node with rfl | hne
      · rw [hself]
        exact ⟨fun _ => hp, (hin _ hv).progress hp hw⟩
      · rw [hother i hne]
        exact ⟨fun _ => .refl _, hin i hi⟩
  · simp only [not_forall, not_not] at hrestart
    obtain ⟨cfg, rfl⟩ := hrestart
    refine iff_of_true (fun i hi => ?_) trivial
    rcases eq_or_ne i e.node with rfl | hne
    · rw [hself]
      refine ⟨fun hcall => absurd rfl (hcall cfg (Call.request_restart hreq)), ?_⟩
      simp only [Host.serve] at hserve
      split at hserve
      · split at hserve
        · next hx =>
          cases hserve
          obtain ⟨hw, hcalls⟩ := Host.openNode_progress hdisk.disk hx
          exact ⟨hw, hcalls ▸ .nil⟩
        · cases hserve
      · cases hserve
    · rw [hother i hne]
      exact ⟨fun _ => .refl _, hin i hi⟩

/-- Progress never regresses exactly in the runs in which no snapshot that is installed lies behind
the state machine it replaces, or leaves the commit index behind. -/
theorem progressKept_iff (hr : FreeRun voters shard h c) :
    ProgressKept voters h c ↔ ∀ p ∈ h, p.1.Forward p.2 := by
  induction hr with
  | start hi => exact iff_of_true (fun i hv => initial_inOrder hi hv) nofun
  | @step h c c' e hr _ hs ih =>
    rw [List.forall_mem_cons]
    constructor
    · rintro ⟨hk, hstep⟩
      exact ⟨(stepKept_iff (FreeRun.sealed hr) (fun i hi => hk.inOrder hi) hs).1 hstep, ih.1 hk⟩
    · rintro ⟨hf, hrest⟩
      have hk := ih.2 hrest
      exact ⟨hk, (stepKept_iff (FreeRun.sealed hr) (fun i hi => hk.inOrder hi) hs).2 hf⟩

/-- A member to which a snapshot is delivered that it installs has its state machine. -/
theorem step_installs {k : Nat} {p : Packet} {term : Nat} {leader : String}
    {json : JsonText SnapshotFile} {f : SnapshotFile} {sm : StateMachine} (hv : e.node ∈ voters)
    (hcall : e.call = .deliver k) (hp : c.net[k]? = some p) (hd : p.dest = e.node)
    (hmsg : p.msg = .installSnapshot term leader json) (hjson : json.fromStr = .ok f)
    (hi : ((c.hosts e.node).prepared e.now e.faults).Installs term f sm) :
    ∃ c', step voters c e = some c' ∧ (c'.hosts e.node).node.sm = sm := by
  have hreq : e.call.request c.net e.node = some (.handle p.sender p.msg) := by
    simp only [hcall, Call.request, hp, hd, if_true]
  unfold step
  rw [if_pos hv, hreq, hmsg]
  refine ⟨_, rfl, ?_⟩
  dsimp only
  rw [Function.update_self]
  obtain ⟨hcount, -⟩ := Host.handle_node p.sender (.installSnapshot term leader json)
    ((c.hosts e.node).prepared e.now e.faults)
  refine (congrArg (fun x => x.2.2.1) hcount).trans ?_
  rcases hx : exec (Host.handleInner p.sender (.installSnapshot term leader json))
    ((c.hosts e.node).prepared e.now e.faults) with ⟨r, h1⟩
  rcases Host.exec_install hx with ⟨g, sm', hg, hinst, hdone⟩ | ⟨hnone, -⟩
  · obtain rfl : f = g := Except.ok.inj (hjson.symm.trans hg)
    obtain rfl : sm = sm' := Except.ok.inj (hi.machine.symm.trans hinst.machine)
    exact hdone.machine
  · exact absurd hi (hnone f sm hjson)

/-- A leader's flush sends each member what its log or its snapshot holds for it. -/
theorem step_flush (hv : e.node ∈ voters) (hcall : e.call = .flush)
    (hrole : (c.hosts e.node).node.role = .leader) :
    step voters c e = some
      { hosts := Function.update c.hosts e.node
          ⟨(c.hosts e.node).node.heard e.now, ⟨(c.hosts e.node).store.disk, e.faults⟩, e.now⟩
        net := c.net ++ ((c.hosts e.node).node.broadcastAppend (c.hosts e.node).store.disk
          e.now).map fun o => ⟨e.node, o.dest, o.msg⟩ } := by
  have hreq : e.call.request c.net e.node = some .flush := by rw [hcall, Call.request]
  have hflush : exec Host.flush ((c.hosts e.node).prepared e.now e.faults) =
      (.ok ((c.hosts e.node).node.broadcastAppend (c.hosts e.node).store.disk e.now),
        ⟨(c.hosts e.node).node.heard e.now, ⟨(c.hosts e.node).store.disk, e.faults⟩, e.now⟩) := by
    unfold Host.flush
    rw [exec_get_bind, if_pos (show ((c.hosts e.node).prepared e.now e.faults).node.role = .leader
      from hrole), Host.exec_modifyNode_bind, exec_pure]
    rfl
  unfold step
  rw [if_pos hv, hreq]
  simp only [Host.serve, hflush, Host.outputs]

/-- A snapshot that a member has written is the one it sends. -/
theorem load_checked {k : Disk} (hk : k.Sourced Host.checked) {f : SnapshotFile}
    (hf : k.snapshot = some f) : Snapshot.load k = .ok (some f) := by
  have hv : f.verify = .ok () := hk.snapshot f hf
  rw [Snapshot.load, hf, Snapshot.readOne, hv]

/-- What a message with a snapshot carries: its term, the index of the snapshot and that of the
state machine. -/
def carried (p : Packet) : Option (String × Nat × Nat × Nat) :=
  match p.msg with
  | .installSnapshot term _ (.ofValue f) =>
    match StateMachine.fromJson f.stateJson with
    | .ok sm => some (p.dest, term, f.lastIncludedIndex, sm.appliedIndex)
    | .error _ => none
  | _ => none

omit [SerdeJson] in
theorem carried_some {p : Packet} {dest : String} {term i j : Nat}
    (h : carried p = some (dest, term, i, j)) :
    p.dest = dest ∧ ∃ leader f sm, p.msg = .installSnapshot term leader (.ofValue f) ∧
      f.lastIncludedIndex = i ∧ StateMachine.fromJson f.stateJson = .ok sm ∧ sm.appliedIndex = j := by
  unfold carried at h
  split at h
  · next hmsg =>
    split at h
    · next hsm =>
      cases h
      exact ⟨rfl, _, _, _, hmsg, rfl, hsm, rfl⟩
    · cases h
  · cases h

end

/-! ## A late snapshot -/

section
attribute [local instance] SerdeJson.sample

/-- The first member commits an entry, appends another one, compacts the first away and sends its
snapshot to the last member, which has both entries by then and learns that both are committed. -/
def lateSnapshot : List Event :=
  electFirst ++
    [callAt "n2" (.deliver 6), callAt "n1" (.deliver 8), callAt "n1" (.propose .noop),
      callAt "n1" .flush, callAt "n3" (.deliver 10), callAt "n1" .maybeSnapshot, callAt "n1" .flush,
      callAt "n1" (.deliver 11), callAt "n1" .flush, callAt "n3" (.deliver 15)]

/-- What has happened before the first member sends its snapshot. -/
def compacted : Option (History Cluster Event × Cluster) :=
  follow (Cluster.step threeVoters) (fun _ _ _ => True) (lateSnapshot.take 11) [] Cluster.three

/-- The cluster once the snapshot is on its way to the last member. -/
def snapshotSent (c : Cluster) : Cluster where
  hosts := Function.update c.hosts "n1"
    ⟨(c.hosts "n1").node.heard 5000, ⟨(c.hosts "n1").store.disk, Faults.none⟩, 5000⟩
  net := c.net ++ (((c.hosts "n1").node.appendFor (c.hosts "n1").store.disk 5000 "n2" ++
    (c.hosts "n1").store.disk.snapshot.toList.map fun f =>
      Outbound.mk "n3" (.installSnapshot (c.hosts "n1").node.hard.currentTerm
        (c.hosts "n1").node.cfg.nodeId (JsonText.toString f)) false).map
      fun o => ⟨"n1", o.dest, o.msg⟩)

theorem step_snapshotSent {c : Cluster} (hc : c.Sourced Host.checked threeVoters)
    (hrole : (c.hosts "n1").node.role = .leader)
    (hothers : (c.hosts "n1").node.cfg.others = ["n2", "n3"])
    (hnext : (c.hosts "n1").node.nextIndex.getD "n3" ((c.hosts "n1").node.log.lastIndex + 1) ≤
      (c.hosts "n1").node.snapshotIndex) (hpos : 0 < (c.hosts "n1").node.snapshotIndex)
    (hsome : (c.hosts "n1").store.disk.snapshot.isSome) :
    step threeVoters c (callAt "n1" .flush) = some (snapshotSent c) := by
  have hv : "n1" ∈ threeVoters := by simp [threeVoters]
  obtain ⟨f, hf⟩ := Option.isSome_iff_exists.1 hsome
  have hload := load_checked (hc.hosts "n1" hv).disk hf
  have hsent : (c.hosts "n1").node.appendFor (c.hosts "n1").store.disk 5000 "n3" =
      [⟨"n3", .installSnapshot (c.hosts "n1").node.hard.currentTerm (c.hosts "n1").node.cfg.nodeId
        (JsonText.toString f), false⟩] := by
    unfold Node.appendFor
    simp only [hnext, hpos, and_self, if_true, hload]
  rw [step_flush (e := callAt "n1" .flush) hv rfl hrole]
  simp only [snapshotSent, Node.broadcastAppend, callAt, hothers, List.flatMap_cons,
    List.flatMap_nil, List.append_nil, hsent, hf, Option.toList_some, List.map_cons, List.map_nil]

/-- It has applied both when the snapshot arrives, and one afterwards. -/
theorem lateSnapshot_run : ∃ h c, FreeRun threeVoters 0 h c ∧
    (c.hosts "n3").node.sm.appliedIndex = 2 ∧
    ∃ c', Cluster.step threeVoters c (callAt "n3" (.deliver 13)) = some c' ∧
      (c'.hosts "n3").node.sm.appliedIndex = 1 := by
  have hfirst : compacted.map (fun r => ((r.2.hosts "n1").node.role,
      (r.2.hosts "n1").node.cfg.others, (r.2.hosts "n1").store.disk.snapshot.isSome)) =
        some (.leader, ["n2", "n3"], true) := by
    decide +kernel
  have hnext : compacted.map (fun r => ((r.2.hosts "n1").node.nextIndex.getD "n3"
      ((r.2.hosts "n1").node.log.lastIndex + 1), (r.2.hosts "n1").node.snapshotIndex)) =
        some (1, 1) := by
    decide +kernel
  have hrun : (compacted.bind fun r => follow (Cluster.step threeVoters) (fun _ _ _ => True)
      (lateSnapshot.drop 12) ((r.2, callAt "n1" .flush) :: r.1) (snapshotSent r.2)).map (fun r =>
        ((r.2.hosts "n3").node.sm.appliedIndex,
        ((r.2.hosts "n3").node.hard.currentTerm, (r.2.hosts "n3").node.snapshotIndex),
        r.2.net[13]?.bind carried)) = some (2, (1, 0), some ("n3", 1, 1, 1)) := by
    decide +kernel
  obtain ⟨⟨h1, c1⟩, hf1, hl1⟩ := Option.map_eq_some_iff.1 hfirst
  obtain ⟨⟨h, c⟩, hf, hl⟩ := Option.map_eq_some_iff.1 hrun
  rw [hf1, Option.map_some, Option.some.injEq] at hnext
  rw [hf1, Option.bind_some] at hf
  simp only [Prod.mk.injEq] at hl1 hl hnext
  obtain ⟨hrole, hothers, hsome⟩ := hl1
  obtain ⟨hbefore, ⟨hterm, hsnap⟩, hnet⟩ := hl
  have hr1 : FreeRun threeVoters 0 h1 c1 := Run.follow (.start three_initial) hf1
  have hsent := step_snapshotSent (FreeRun.sourced (L := Host.checked) hr1 fun _ => trivial) hrole
    hothers (hnext.1.le.trans hnext.2.ge) (by rw [hnext.2]; exact Nat.one_pos) hsome
  have hr : FreeRun threeVoters 0 h c := Run.follow (.step hr1 trivial hsent) hf
  refine ⟨h, c, hr, hbefore, ?_⟩
  obtain ⟨p, hp, hcarried⟩ := Option.bind_eq_some_iff.1 hnet
  obtain ⟨hdest, leader, f, sm, hmsg, hindex, hparse, hafter⟩ := carried_some hcarried
  have hsource := (FreeRun.sourced (L := Host.checked) hr fun _ => trivial).net p
    (List.mem_of_getElem? hp)
  rw [hmsg] at hsource
  obtain ⟨c', hs, hsm⟩ := step_installs (e := callAt "n3" (.deliver 13))
    (show "n3" ∈ threeVoters by simp [threeVoters]) rfl hp hdest hmsg rfl {
      current := hterm.le
      adopted := fun _ => rfl
      verified := hsource f rfl
      newer := by
        rw [hindex]
        exact Nat.lt_of_le_of_lt hsnap.le Nat.one_pos
      machine := hparse
      saved := fun ok hok => absurd hok (by simp [Host.prepared, callAt, Faults.none]) }
  exact ⟨c', hs, by rw [← hafter, ← hsm]; rfl⟩

theorem progressKept_iff_lateSnapshot : ∃ h c, (c.hosts "n3").node.sm.appliedIndex = 2 ∧
    (ProgressKept threeVoters h c ↔ ∀ p ∈ h, p.1.Forward p.2) := by
  obtain ⟨h, c, hr, hc, -⟩ := lateSnapshot_run
  exact ⟨h, c, hc, progressKept_iff hr⟩

/-- When the snapshot arrives after the entries, the state machine falls back to it. -/
theorem progress_regresses : ¬ ∀ h c, FreeRun threeVoters 0 h c → ProgressKept threeVoters h c := by
  intro hall
  obtain ⟨h, c, hr, hbefore, c', hs, hafter⟩ := lateSnapshot_run
  have hkept := (hall _ c' (.step hr trivial hs)).2 "n3" (by simp [threeVoters])
  have hle := (hkept.1 fun cfg hcall => by cases hcall).applied
  rw [hbefore, hafter] at hle
  omega

end

end Cluster

end Rdsctl.Ha
