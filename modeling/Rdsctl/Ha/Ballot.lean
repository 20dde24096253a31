import Rdsctl.Ha.Process

/-!
# The part of a node that elections depend on

The `Ballot` of a host is its term and vote, in memory and on disk, its role, and the votes it has
counted. This module says once what every call can do to the ballot, whatever file operations fail:
`Ballot.Adopts` for the rule on higher terms, `Ballot.Answers` for the rest of `handle`, and
`call_ballot` lemmas for the other calls. The election results need nothing else of the code.
-/

namespace Rdsctl.Ha

open Fallible

/-- The messages of elections. -/
def Message.isVote : Message → Bool
  | .requestVote .. => true
  | .requestVoteResp .. => true
  | _ => false

/-- The part of a host that elections depend on. -/
structure Ballot where
  cfg : RaftConfig
  hard : HardState
  role : Role
  campaign : Campaign
  votes : Finset String
  /-- the hard state the directory holds -/
  saved : HardState
  /-- the outcomes of the file operations to come in the node's directory -/
  outcomes : List Bool

/-- The ballot of a host. -/
def Host.ballot (h : Host) : Ballot where
  cfg := h.node.cfg
  hard := h.node.hard
  role := h.node.role
  campaign := h.node.campaign
  votes := h.node.votes
  saved := h.store.disk.hardState.getD HardState.default
  outcomes := h.store.faults.hard

/-- The five file operations of `persist_hard_state` succeed. -/
def persistSucceeds (outcomes : List Bool) : Bool := (outcomes.take 5).all id

@[simp] theorem persistSucceeds_nil : persistSucceeds [] = true := rfl

namespace Ballot

/-- The hard state is on disk. -/
def written (b : Ballot) : Ballot := { b with saved := b.hard, outcomes := b.outcomes.drop 5 }

/-- The hard state could not be made durable; what the directory holds is open. -/
def unwritten (b : Ballot) (saved : HardState) (outcomes : List Bool) : Ballot :=
  { b with saved, outcomes }

/-- A follower, with no campaign and no votes. -/
def retired (b : Ballot) : Ballot :=
  { b with role := .follower, campaign := .none, votes := ∅ }

/-- In a pre-vote campaign. -/
def probing (b : Ballot) : Ballot :=
  { b with role := .candidate, campaign := .preVote, votes := ∅ }

/-- In the term `term`, in which it has not voted. -/
def inTerm (b : Ballot) (term : Nat) : Ballot := { b with hard := ⟨term, none⟩ }

/-- With a vote for `candidate`. -/
def votingFor (b : Ballot) (candidate : String) : Ballot :=
  { b with hard := { b.hard with votedFor := some candidate } }

/-- In the next term, with a vote for itself. -/
def nextTerm (b : Ballot) : Ballot :=
  { b with hard := ⟨b.hard.currentTerm + 1, some b.cfg.nodeId⟩ }

/-- In an election, with its own vote counted. -/
def standing (b : Ballot) : Ballot :=
  { b with role := .candidate, campaign := .vote, votes := {b.cfg.nodeId} }

/-- With one more vote counted. -/
def counting (b : Ballot) (voter : String) : Ballot := { b with votes := insert voter b.votes }

/-- As leader. -/
def leading (b : Ballot) : Ballot := { b with role := .leader }

/-- Of a node that has just opened. -/
def opened (cfg : RaftConfig) (saved : HardState) (outcomes : List Bool) : Ballot where
  cfg := cfg
  hard := saved
  role := .follower
  campaign := .none
  votes := ∅
  saved := saved
  outcomes := outcomes

/-- What `become_follower` does: the outcome (`true` for success) and the ballot it leaves. -/
inductive Follows (b : Ballot) (term : Nat) : Bool → Ballot → Prop
  | stays (h : term ≤ b.hard.currentTerm) : Follows b term true b.retired
  | adopts (h : b.hard.currentTerm < term) (hp : persistSucceeds b.outcomes = true) :
      Follows b term true (b.inTerm term).written.retired
  | fails (h : b.hard.currentTerm < term) (hp : persistSucceeds b.outcomes = false)
      (saved : HardState) (outcomes : List Bool) :
      Follows b term false ((b.inTerm term).unwritten saved outcomes)

/-- What the rule on higher terms does before a message is answered. -/
inductive Adopts (b : Ballot) (msg : Message) : Bool → Ballot → Prop
  | keeps (h : msg.term ≤ b.hard.currentTerm ∨ msg.isPreVote = true) : Adopts b msg true b
  | adopts (h : b.hard.currentTerm < msg.term) (hv : msg.isPreVote = false)
      (hp : persistSucceeds b.outcomes = true) :
      Adopts b msg true (b.inTerm msg.term).written.retired
  | fails (h : b.hard.currentTerm < msg.term) (hv : msg.isPreVote = false)
      (hp : persistSucceeds b.outcomes = false) (saved : HardState) (outcomes : List Bool) :
      Adopts b msg false ((b.inTerm msg.term).unwritten saved outcomes)

/-- What answering a message does to the ballot, and what it sends. A failure sends nothing. -/
inductive Answers (b : Ballot) : Message → List Outbound → Ballot → Prop
  | quiet {msg : Message} {out : List Outbound} (hout : ∀ o ∈ out, o.msg.isVote = false) :
      Answers b msg out b
  | retires {msg : Message} {out : List Outbound} (hout : ∀ o ∈ out, o.msg.isVote = false) :
      Answers b msg out b.retired
  | probed {term lastIndex lastTerm senderMs now : Nat} {candidate : String} (granted : Bool)
      (hg : granted = true → b.hard.currentTerm < term) :
      Answers b (.requestVote term candidate lastIndex lastTerm true senderMs)
        [⟨candidate, .requestVoteResp b.hard.currentTerm b.cfg.nodeId granted now senderMs, false⟩]
        b
  | refuses {term lastIndex lastTerm senderMs now : Nat} {candidate : String} :
      Answers b (.requestVote term candidate lastIndex lastTerm false senderMs)
        [⟨candidate, .requestVoteResp b.hard.currentTerm b.cfg.nodeId false now senderMs, false⟩] b
  | votes {lastIndex lastTerm senderMs now : Nat} {candidate : String}
      (hv : b.hard.votedFor = none ∨ b.hard.votedFor = some candidate)
      (hp : persistSucceeds b.outcomes = true) :
      Answers b (.requestVote b.hard.currentTerm candidate lastIndex lastTerm false senderMs)
        [⟨candidate, .requestVoteResp b.hard.currentTerm b.cfg.nodeId true now senderMs, false⟩]
        (b.votingFor candidate).written
  | voteFails {lastIndex lastTerm senderMs : Nat} {candidate : String}
      (hp : persistSucceeds b.outcomes = false) (saved : HardState) (outcomes : List Bool) :
      Answers b (.requestVote b.hard.currentTerm candidate lastIndex lastTerm false senderMs) []
        ((b.votingFor candidate).unwritten saved outcomes)
  | stands {msg : Message} {lastIndex lastTerm now : Nat}
      (hp : persistSucceeds b.outcomes = true) :
      Answers b msg
        (b.cfg.others.map fun dest => ⟨dest, .requestVote (b.hard.currentTerm + 1) b.cfg.nodeId
          lastIndex lastTerm false now, true⟩)
        b.nextTerm.written.standing
  | standFails {msg : Message} (hp : persistSucceeds b.outcomes = false)
      (hm : (∃ term leader, msg = .timeoutNow term leader ∧ b.hard.currentTerm ≤ term) ∨
        (b.role = .candidate ∧ b.campaign = .preVote))
      (saved : HardState) (outcomes : List Bool) :
      Answers b msg [] (b.nextTerm.unwritten saved outcomes)
  | counts {voter : String} {senderMs echoMs : Nat} {out : List Outbound}
      (hr : b.role = .candidate) (hc : b.campaign = .vote)
      (hout : ∀ o ∈ out, o.msg.isVote = false) :
      Answers b (.requestVoteResp b.hard.currentTerm voter true senderMs echoMs) out
        (b.counting voter)
  | wins {voter : String} {senderMs echoMs : Nat} {out : List Outbound}
      (hr : b.role = .candidate) (hc : b.campaign = .vote)
      (hm : b.cfg.majority ≤ (b.counting voter).votes.card)
      (hout : ∀ o ∈ out, o.msg.isVote = false) :
      Answers b (.requestVoteResp b.hard.currentTerm voter true senderMs echoMs) out
        (b.counting voter).leading

/-- What serving a request does to the ballot, and what it sends. -/
inductive Turns (b : Ballot) : Request → List Outbound → Ballot → Prop
  | quiet {req : Request} {out : List Outbound} (hout : ∀ o ∈ out, o.msg.isVote = false) :
      Turns b req out b
  | retires {req : Request} {out : List Outbound} (hout : ∀ o ∈ out, o.msg.isVote = false) :
      Turns b req out b.retired
  | probes {lastIndex lastTerm now : Nat} :
      Turns b .tick
        (b.cfg.others.map fun dest => ⟨dest, .requestVote (b.hard.currentTerm + 1) b.cfg.nodeId
          lastIndex lastTerm true now, true⟩)
        b.probing
  | answers {sender : String} {msg : Message} {out : List Outbound} {b' b'' : Ballot}
      (ha : b.Adopts msg true b') (hb : b'.Answers msg out b'') :
      Turns b (.handle sender msg) out b''
  | adoptFails {sender : String} {msg : Message} {b' : Ballot} (ha : b.Adopts msg false b') :
      Turns b (.handle sender msg) [] b'
  | reopens {cfg : RaftConfig} (hc : b.cfg.sameMember cfg) (hv : cfg.validate = .ok ()) :
      Turns b (.restart cfg) [] (opened cfg b.saved b.outcomes.tail)

end Ballot

/-! ## Computations that leave the ballot alone -/

/-- Two hosts with one ballot. -/
def SameBallot (h h' : Host) : Prop := h'.ballot = h.ballot

instance : Std.Refl SameBallot := ⟨fun _ => rfl⟩

instance : IsTrans Host SameBallot := ⟨fun _ _ _ hab hbc => Eq.trans hbc hab⟩

/-- Two stores that agree on what persists the hard state. -/
def SameHard (st st' : Store) : Prop :=
  st'.disk.hardState = st.disk.hardState ∧ st'.faults.hard = st.faults.hard

instance : Std.Refl SameHard := ⟨fun _ => ⟨rfl, rfl⟩⟩

instance : IsTrans Store SameHard :=
  ⟨fun _ _ _ hab hbc => ⟨hbc.1.trans hab.1, hbc.2.trans hab.2⟩⟩

section

open Fallible.Respects

theorem fileOp_sameHard {f : Disk → Disk} (hf : ∀ k, (f k).hardState = k.hardState) :
    Respects SameHard (fileOp .shard f) := by
  intro st
  unfold exec fileOp
  split
  · exact ⟨hf st.disk, rfl⟩
  · exact ⟨rfl, rfl⟩

theorem Log.rewrite_sameHard (l : Log) (keep : List Record) (seed : Hash) :
    Respects SameHard (l.rewrite keep seed) := by
  refine bind (fileOp_sameHard fun _ => rfl) fun _ => ?_
  refine bind (fileOp_sameHard fun _ => rfl) fun _ => ?_
  refine bind (fileOp_sameHard fun _ => rfl) fun _ => ?_
  refine bind (fileOp_sameHard fun _ => rfl) fun _ => ?_
  refine bind (fileOp_sameHard fun _ => rfl) fun _ => ?_
  refine bind (fileOp_sameHard fun _ => rfl) fun _ => ?_
  exact pure _

theorem Log.truncateSuffix_sameHard (l : Log) (start : Nat) :
    Respects SameHard (l.truncateSuffix start) :=
  ite (pure _) (l.rewrite_sameHard _ _)

theorem Log.compactUpto_sameHard (l : Log) (upto : Nat) (snapHash : Hash) :
    Respects SameHard (l.compactUpto upto snapHash) :=
  l.rewrite_sameHard _ _

theorem Log.appendBatch_sameHard (l : Log) (batch : List PendingEntry) :
    Respects SameHard (l.appendBatch batch) := by
  refine ite (pure _) ?_
  split
  · exact throw _
  · refine bind (fileOp_sameHard fun _ => rfl) fun _ => ?_
    exact bind (fileOp_sameHard fun _ => rfl) fun _ => pure _

theorem Log.checkIndices_sameHard (l : Log) (file : List Record) :
    Respects SameHard (l.checkIndices file) := by
  unfold checkIndices
  split
  · exact throw _
  · split
    · exact ite (throw _) (pure _)
    · exact pure _

theorem Log.replay_sameHard (fuel : Nat) (l : Log) : Respects SameHard (Log.replay fuel l) := by
  induction fuel generalizing l with
  | zero => exact pure _
  | succ fuel ih =>
    refine bind .get fun st => ?_
    split
    · exact l.checkIndices_sameHard _
    · exact throw _
    · refine ite (throw _) ?_
      refine bind (fileOp_sameHard fun _ => rfl) fun _ => ?_
      exact bind (fileOp_sameHard fun _ => rfl) fun _ => ih _

theorem Log.open_sameHard (shard : Nat) (seedHash : Hash) :
    Respects SameHard (Log.open' shard seedHash) :=
  bind (fileOp_sameHard fun _ => rfl) fun _ => bind .get fun _ => Log.replay_sameHard _ _

theorem Snapshot.save_sameHard (snap : SnapshotFile) : Respects SameHard (Snapshot.save snap) := by
  refine bind (fileOp_sameHard fun _ => rfl) fun _ => ?_
  refine bind (fileOp_sameHard fun _ => rfl) fun _ => ?_
  refine bind (fileOp_sameHard fun _ => rfl) fun _ => ?_
  refine bind (fileOp_sameHard fun _ => rfl) fun _ => ?_
  refine bind get fun st => ?_
  split
  · refine bind (fileOp_sameHard fun _ => rfl) fun _ => ?_
    refine bind (fileOp_sameHard fun _ => rfl) fun _ => ?_
    exact fileOp_sameHard fun _ => rfl
  · refine bind (fileOp_sameHard fun _ => rfl) fun _ => ?_
    exact fileOp_sameHard fun _ => rfl

end

/-- The fields of a node that enter the ballot. -/
def Node.part (n : Node) : RaftConfig × HardState × Role × Campaign × Finset String :=
  (n.cfg, n.hard, n.role, n.campaign, n.votes)

namespace Host

theorem modifyNode_same {f : Node → Node} (hf : ∀ n, (f n).part = n.part) :
    Respects SameBallot (modifyNode f) := by
  intro h
  have hp := hf h.node
  simp only [Node.part, Prod.mk.injEq] at hp
  obtain ⟨h1, h2, h3, h4, h5⟩ := hp
  simp [SameBallot, modifyNode, ballot, h1, h2, h3, h4, h5]

theorem onStore_same {α : Type} {m : StoreM α} (hm : Respects SameHard m) :
    Respects SameBallot (onStore m) := by
  intro h
  obtain ⟨h1, h2⟩ := hm h.store
  simp [SameBallot, onStore, ballot, h1, h2]

theorem onLog_same {f : Log → StoreM Log} (hf : ∀ l, Respects SameHard (f l)) :
    Respects SameBallot (onLog f) := by
  refine .bind .get fun h => .bind (onStore_same (hf h.node.log)) fun l => ?_
  exact modifyNode_same fun n => rfl

theorem appendBatch_same (batch : List PendingEntry) : Respects SameBallot (appendBatch batch) :=
  .onError (onLog_same fun l => l.appendBatch_sameHard batch) fun _ => rfl

theorem cutConflict_same (entries : List EntryMeta) : Respects SameBallot (cutConflict entries) := by
  unfold cutConflict
  split
  · exact .pure _
  · refine .bind .get fun h => ?_
    split
    · exact .ite (onLog_same fun l => l.truncateSuffix_sameHard _) (.pure _)
    · exact .pure _

theorem appendMissing_same (entries : List EntryMeta) :
    Respects SameBallot (appendMissing entries) :=
  .bind .get fun _ => .ite (.pure _) (appendBatch_same _)

theorem installSnapshot_same (snap : SnapshotFile) :
    Respects SameBallot (installSnapshot snap) := by
  unfold installSnapshot
  split
  · exact .throw _
  · refine .bind (onStore_same (Snapshot.save_sameHard snap)) fun _ => ?_
    refine .bind (modifyNode_same fun n => rfl) fun _ => ?_
    refine .bind (onLog_same fun l => l.compactUpto_sameHard _ _) fun _ => ?_
    exact modifyNode_same fun n => rfl

section
variable [SerdeJson]

theorem appendLocal_same (op : Op) : Respects SameBallot (appendLocal op) := by
  refine .bind .get fun h => .ite (.throw _) ?_
  refine .bind (appendBatch_same _) fun _ => ?_
  exact .bind (modifyNode_same fun n => rfl) fun _ => .pure _

theorem propose_same (op : Op) : Respects SameBallot (propose op) := appendLocal_same op

theorem flush_same : Respects SameBallot flush := by
  refine .bind .get fun h => .ite ?_ (.pure _)
  exact .bind (modifyNode_same fun n => rfl) fun _ => .pure _

theorem followCommit_part (leaderCommit : Nat) (n : Node) :
    (followCommit leaderCommit n).part = n.part := by
  unfold followCommit
  simp only
  split
  · obtain ⟨sm, results, calls, h⟩ := Node.applyCommitted_frame
      (n.commitTo (min leaderCommit n.log.lastIndex))
    rw [h]; rfl
  · rfl

theorem maybeSnapshot_same : Respects SameBallot maybeSnapshot := by
  refine .bind .get fun h => .ite (.pure _) (.ite (.pure _) ?_)
  refine .bind (onStore_same (fileOp_sameHard fun _ => rfl)) fun _ => ?_
  refine .bind (onStore_same (Snapshot.save_sameHard _)) fun _ => ?_
  refine .bind (onLog_same fun l => l.compactUpto_sameHard _ _) fun _ => ?_
  exact .bind (modifyNode_same fun n => rfl) fun _ => .pure _

end

/-! ## Persisting, following, standing -/

/-- A `persist_hard_state` whose operations succeed puts the hard state on disk. -/
theorem persist_ok {h : Host} (hp : persistSucceeds h.store.faults.hard = true) :
    ∃ st, exec persistHardState h = (.ok (), { h with store := st }) ∧
      { h with store := st }.ballot = h.ballot.written := by
  obtain ⟨n, ⟨k, ⟨o, o'⟩⟩, now⟩ := h
  simp only [persistSucceeds] at hp
  rcases o with _ | ⟨a, o⟩
  · exact ⟨_, rfl, rfl⟩
  rcases o with _ | ⟨b, o⟩
  · obtain rfl : a = true := by simpa using hp
    exact ⟨_, rfl, rfl⟩
  rcases o with _ | ⟨c, o⟩
  · obtain ⟨rfl, rfl⟩ : a = true ∧ b = true := by simpa using hp
    exact ⟨_, rfl, rfl⟩
  rcases o with _ | ⟨d, o⟩
  · obtain ⟨rfl, rfl, rfl⟩ : a = true ∧ b = true ∧ c = true := by simpa using hp
    exact ⟨_, rfl, rfl⟩
  rcases o with _ | ⟨e, o⟩
  · obtain ⟨rfl, rfl, rfl, rfl⟩ : a = true ∧ b = true ∧ c = true ∧ d = true := by simpa using hp
    exact ⟨_, rfl, rfl⟩
  · obtain ⟨rfl, rfl, rfl, rfl, rfl⟩ :
        a = true ∧ b = true ∧ c = true ∧ d = true ∧ e = true := by simpa using hp
    exact ⟨_, rfl, rfl⟩

/-- A `persist_hard_state` with a failing operation changes files only. -/
theorem persist_error {h : Host} (hp : persistSucceeds h.store.faults.hard = false) :
    ∃ st, exec persistHardState h = (.error .io, { h with store := st }) := by
  obtain ⟨n, ⟨k, ⟨o, o'⟩⟩, now⟩ := h
  simp only [persistSucceeds] at hp
  rcases o with _ | ⟨a, o⟩
  · cases hp
  cases a
  · exact ⟨_, rfl⟩
  rcases o with _ | ⟨a, o⟩
  · cases hp
  cases a
  · exact ⟨_, rfl⟩
  rcases o with _ | ⟨a, o⟩
  · cases hp
  cases a
  · exact ⟨_, rfl⟩
  rcases o with _ | ⟨a, o⟩
  · cases hp
  cases a
  · exact ⟨_, rfl⟩
  rcases o with _ | ⟨a, o⟩
  · cases hp
  cases a
  · exact ⟨_, rfl⟩
  · cases hp

/-- In a term that is not higher, `become_follower` only retires the node. -/
theorem exec_becomeFollower_stay {h : Host} {term : Nat} {leader : Option String}
    (ht : term ≤ h.node.hard.currentTerm) :
    exec (becomeFollower term leader) h = (.ok (), { h with node := h.node.retire leader }) := by
  unfold becomeFollower
  rw [exec_get_bind, if_neg (by omega)]
  rfl

theorem ballot_resetElectionDeadline (n : Node) (st : Store) (now t : Nat) :
    Host.ballot ⟨n.resetElectionDeadline t, st, now⟩ = Host.ballot ⟨n, st, now⟩ := by
  obtain ⟨rng, d, hn⟩ := n.resetElectionDeadline_frame t
  rw [hn]; rfl

theorem ballot_stand (n : Node) (st : Store) (now : Nat) :
    Host.ballot ⟨n.stand, st, now⟩ = (Host.ballot ⟨n, st, now⟩).standing := rfl

theorem ballot_retire (n : Node) (st : Store) (now : Nat) (leader : Option String) :
    Host.ballot ⟨n.retire leader, st, now⟩ = (Host.ballot ⟨n, st, now⟩).retired := rfl

theorem becomeFollower_follows {h h' : Host} {term : Nat} {leader : Option String}
    {r : Except HaError Unit} (hx : exec (becomeFollower term leader) h = (r, h')) :
    h.ballot.Follows term r.toBool h'.ballot := by
  by_cases ht : h.node.hard.currentTerm < term
  · unfold becomeFollower at hx
    rw [exec_get_bind, if_pos ht, exec_modifyNode_bind] at hx
    cases hp : persistSucceeds h.store.faults.hard with
    | true =>
      obtain ⟨st, hst, hb⟩ := persist_ok
        (h := { h with node := h.node.inTerm term }) hp
      rw [exec_bind_ok hst, exec_modifyNode] at hx
      cases hx
      rw [ballot_retire, hb]
      exact .adopts ht hp
    | false =>
      obtain ⟨st, hst⟩ := persist_error
        (h := { h with node := h.node.inTerm term }) hp
      rw [exec_bind_error hst] at hx
      cases hx
      exact .fails ht hp _ _
  · rw [exec_becomeFollower_stay (by omega)] at hx
    cases hx
    exact .stays (Nat.le_of_not_lt ht)

/-- An election starts: the next term and the vote are on disk before anything is sent. -/
theorem startElection_answers {h h' : Host} {msg : Message} {r : Except HaError (List Outbound)}
    (hm : (∃ term leader, msg = .timeoutNow term leader ∧ h.node.hard.currentTerm ≤ term) ∨
      (h.node.role = .candidate ∧ h.node.campaign = .preVote))
    (hx : exec startElection h = (r, h')) : h.ballot.Answers msg (outputs r) h'.ballot := by
  unfold startElection at hx
  rw [exec_modifyNode_bind] at hx
  cases hp : persistSucceeds h.store.faults.hard with
  | true =>
    obtain ⟨st, hst, hb⟩ := persist_ok (h := { h with node := h.node.nextTerm }) hp
    rw [exec_bind_ok hst] at hx
    simp only [exec_modifyNode_bind, exec_get_bind, exec_pure, Prod.mk.injEq] at hx
    obtain ⟨rfl, rfl⟩ := hx
    rw [ballot_resetElectionDeadline, ballot_stand, hb]
    exact .stands hp
  | false =>
    obtain ⟨st, hst⟩ := persist_error (h := { h with node := h.node.nextTerm }) hp
    rw [exec_bind_error hst] at hx
    cases hx
    exact .standFails hp hm _ _

/-! ## The handlers -/

theorem observe_part (n : Node) (peer : String) (senderMs now : Nat) :
    ((n.acked peer now).observeClock peer senderMs now).part = n.part := by
  obtain ⟨w, hw⟩ := (n.acked peer now).observeClock_frame peer senderMs now
  rw [hw]; rfl

theorem observeRtt_part (n : Node) (peer : String) (senderMs now echoMs : Nat) :
    ((n.acked peer now).observeClockRtt peer senderMs now echoMs).part = n.part := by
  obtain ⟨w, hw⟩ := (n.acked peer now).observeClockRtt_frame peer senderMs now echoMs
  rw [hw]; rfl

theorem observeLeader_part (n : Node) (leader : String) (senderMs peerSkewMs now : Nat) :
    (n.observeLeader leader senderMs peerSkewMs now).part = n.part := by
  unfold Node.observeLeader
  split
  · rfl
  · exact observe_part n leader senderMs now

/-- A node with the same part gives the same ballot. -/
theorem ballot_congr {n n' : Node} (hp : n'.part = n.part) (st : Store) (now : Nat) :
    Host.ballot ⟨n', st, now⟩ = Host.ballot ⟨n, st, now⟩ := by
  simp only [Node.part, Prod.mk.injEq] at hp
  obtain ⟨h1, h2, h3, h4, h5⟩ := hp
  simp [ballot, h1, h2, h3, h4, h5]

theorem handleRequestVote_answers {h h' : Host} {sender candidate : String}
    {term lastIndex lastTerm senderMs : Nat} {preVote : Bool} {r : Except HaError (List Outbound)}
    (hx : exec (handleRequestVote sender term candidate lastIndex lastTerm preVote senderMs) h =
      (r, h')) :
    h.ballot.Answers (.requestVote term candidate lastIndex lastTerm preVote senderMs)
      (outputs r) h'.ballot := by
  unfold handleRequestVote at hx
  simp only [exec_get_bind, exec_modifyNode_bind] at hx
  have hb := ballot_congr (observe_part h.node sender senderMs h.now) h.store h.now
  generalize (h.node.acked sender h.now).observeClock sender senderMs h.now = n at hx hb
  rw [show h.ballot = Host.ballot ⟨n, h.store, h.now⟩ from hb.symm]
  cases preVote with
  | true =>
    cases hx
    refine .probed _ fun hg => ?_
    simp only [preVoteGranted, Bool.and_eq_true, decide_eq_true_eq] at hg
    exact hg.1.1
  | false =>
    rw [if_neg (by simp), exec_ite] at hx
    split at hx
    · cases hx
      exact .refuses
    rw [exec_ite] at hx
    split at hx
    · next hg =>
      simp only [voteGranted, Bool.and_eq_true, Bool.or_eq_true, beq_iff_eq,
        Option.isNone_iff_eq_none] at hg
      obtain ⟨⟨rfl, hv⟩, -⟩ := hg
      rw [exec_modifyNode_bind] at hx
      cases hp : persistSucceeds h.store.faults.hard with
      | true =>
        obtain ⟨st, hst, hw⟩ := persist_ok (h := ⟨n.voteFor candidate, h.store, h.now⟩) hp
        rw [exec_bind_ok hst] at hx
        simp only [exec_modifyNode_bind, exec_get_bind, exec_pure, Prod.mk.injEq] at hx
        obtain ⟨rfl, rfl⟩ := hx
        rw [ballot_resetElectionDeadline, hw]
        exact .votes hv hp
      | false =>
        obtain ⟨st, hst⟩ := persist_error (h := ⟨n.voteFor candidate, h.store, h.now⟩) hp
        rw [exec_bind_error hst] at hx
        cases hx
        exact .voteFails hp _ _
    · cases hx
      exact .refuses

/-! ## Messages that are no votes -/

/-- None of the messages belongs to an election. -/
def NoVotes (out : List Outbound) : Prop := ∀ o ∈ out, o.msg.isVote = false

theorem noVotes_nil : NoVotes [] := by simp [NoVotes]

theorem noVotes_append {out out' : List Outbound} (h : NoVotes out) (h' : NoVotes out') :
    NoVotes (out ++ out') := by
  intro o ho
  rcases List.mem_append.1 ho with ho | ho
  · exact h o ho
  · exact h' o ho

theorem noVotes_singleton {o : Outbound} (h : o.msg.isVote = false) : NoVotes [o] := by
  simpa [NoVotes] using h

theorem outputs_noVotes {m : HostM (List Outbound)} (hm : Returns NoVotes m) (h : Host) :
    NoVotes (outputs (exec m h).1) := by
  cases hx : (exec m h).1 with
  | ok out => exact hm h out hx
  | error e => exact noVotes_nil

theorem handleInstallSnapshotResp_answers {h h' : Host} {follower : String} {msg : Message}
    {term lastIncludedIndex : Nat} {success : Bool} {r : Except HaError (List Outbound)}
    (ht : term ≤ h.node.hard.currentTerm)
    (hx : exec (handleInstallSnapshotResp term follower success lastIncludedIndex) h = (r, h')) :
    h.ballot.Answers msg (outputs r) h'.ballot := by
  unfold handleInstallSnapshotResp at hx
  rw [exec_get_bind, exec_modifyNode_bind, if_neg (by omega), exec_ite] at hx
  split at hx
  · cases hx
    exact .quiet noVotes_nil
  · cases hx
    exact .quiet noVotes_nil

theorem handleTimeoutNow_answers {h h' : Host} {leader : String} {term : Nat}
    {r : Except HaError (List Outbound)} (hx : exec (handleTimeoutNow term) h = (r, h')) :
    h.ballot.Answers (.timeoutNow term leader) (outputs r) h'.ballot := by
  unfold handleTimeoutNow at hx
  rw [exec_get_bind, exec_ite] at hx
  split at hx
  · cases hx
    exact .quiet noVotes_nil
  rw [exec_ite] at hx
  split at hx
  · cases hx
    exact .quiet noVotes_nil
  · next ht _ =>
    obtain ⟨rng, d, hd⟩ := h.node.resetElectionDeadline_frame h.now
    rw [exec_modifyNode_bind, hd] at hx
    refine startElection_answers
      (h := ⟨{ h.node with rng, electionDeadlineMs := d }, h.store, h.now⟩)
      (.inl ⟨term, leader, rfl, ?_⟩) hx
    exact Nat.le_of_not_lt ht

theorem adoptTerm_adopts {h h' : Host} {msg : Message} {r : Except HaError Unit}
    (hx : exec (adoptTerm msg) h = (r, h')) : h.ballot.Adopts msg r.toBool h'.ballot := by
  unfold adoptTerm at hx
  rw [exec_get_bind, exec_ite] at hx
  split at hx
  · next hc =>
    have hf := becomeFollower_follows hx
    obtain ⟨b', hb'⟩ : ∃ b', h'.ballot = b' := ⟨_, rfl⟩
    obtain ⟨ok, hok⟩ : ∃ ok, r.toBool = ok := ⟨_, rfl⟩
    rw [hb', hok] at hf ⊢
    cases hf with
    | stays hle => exact absurd hc.1 (Nat.not_lt.2 hle)
    | adopts hlt hp => exact .adopts hc.1 hc.2 hp
    | fails hlt hp saved outcomes => exact .fails hc.1 hc.2 hp saved outcomes
  · next hc =>
    cases hx
    refine .keeps ?_
    rcases Nat.lt_or_ge h.node.hard.currentTerm msg.term with hlt | hge
    · exact .inr (by simpa using fun hv => hc ⟨hlt, hv⟩)
    · exact .inl hge

/-- After the rule on higher terms only a pre-vote is ahead of the node. -/
theorem Adopts.reached {b b' : Ballot} {msg : Message} (ha : b.Adopts msg true b') :
    msg.term ≤ b'.hard.currentTerm ∨ msg.isPreVote = true := by
  cases ha with
  | keeps h => exact h
  | adopts => exact .inl (Nat.le_refl _)

section
variable [SerdeJson]

theorem appendFor_noVotes (n : Node) (k : Disk) (now : Nat) (peer : String) :
    NoVotes (n.appendFor k now peer) := by
  unfold Node.appendFor
  simp only
  split
  · split
    · exact noVotes_singleton rfl
    · exact noVotes_singleton rfl
  · exact noVotes_singleton rfl

theorem broadcastAppend_noVotes (n : Node) (k : Disk) (now : Nat) :
    NoVotes (n.broadcastAppend k now) := by
  intro o ho
  obtain ⟨peer, -, hp⟩ := List.mem_flatMap.1 ho
  exact appendFor_noVotes n k now peer o hp

/-- A new leader: the append of its first entry may fail, which leaves it leader all the same. -/
theorem becomeLeader_leads {h h' : Host} {r : Except HaError (List Outbound)}
    (hx : exec becomeLeader h = (r, h')) : h'.ballot = h.ballot.leading ∧ NoVotes (outputs r) := by
  have hr : Returns NoVotes becomeLeader :=
    .bind fun _ => .bind fun _ => .bind fun _ => .bind fun _ =>
      .pure (broadcastAppend_noVotes _ _ _)
  refine ⟨?_, by have := outputs_noVotes hr h; rwa [hx] at this⟩
  unfold becomeLeader at hx
  rw [exec_get_bind, exec_modifyNode_bind] at hx
  have hs := (Respects.bind (appendLocal_same .noop) fun _ => .bind .get fun h =>
    .pure (h.node.broadcastAppend h.store.disk h.now)) { h with node := h.node.takeLead h.now }
  rw [hx] at hs
  exact hs

theorem handleRequestVoteResp_answers {h h' : Host} {voter : String} {term senderMs echoMs : Nat}
    {granted : Bool} {r : Except HaError (List Outbound)}
    (hx : exec (handleRequestVoteResp term voter granted senderMs echoMs) h = (r, h')) :
    h.ballot.Answers (.requestVoteResp term voter granted senderMs echoMs) (outputs r)
      h'.ballot := by
  unfold handleRequestVoteResp at hx
  simp only [exec_get_bind, exec_modifyNode_bind] at hx
  have hb := ballot_congr (observeRtt_part h.node voter senderMs h.now echoMs) h.store h.now
  generalize (h.node.acked voter h.now).observeClockRtt voter senderMs h.now echoMs = n at hx hb
  rw [show h.ballot = Host.ballot ⟨n, h.store, h.now⟩ from hb.symm]
  rw [exec_ite] at hx
  split at hx
  · cases hx
    exact .quiet noVotes_nil
  next hg =>
  rw [not_or, not_not, Bool.not_eq_false] at hg
  obtain ⟨rfl, rfl⟩ := hg
  rw [exec_ite] at hx
  split at hx
  · cases hx
    exact .quiet noVotes_nil
  next hrole =>
  rw [not_not] at hrole
  split at hx
  · next hc =>
    rw [exec_modifyNode_bind, exec_get_bind, exec_ite] at hx
    split at hx
    · exact startElection_answers (h := ⟨n.countPreVote voter, h.store, h.now⟩)
        (.inr ⟨hrole, hc⟩) hx
    · cases hx
      exact .quiet noVotes_nil
  · next hc =>
    rw [exec_modifyNode_bind, exec_get_bind, exec_ite] at hx
    split at hx
    · next hm =>
      obtain ⟨hl, hout⟩ := becomeLeader_leads hx
      rw [hl]
      exact .wins hrole hc hm hout
    · cases hx
      exact .counts hrole hc noVotes_nil
  · cases hx
    exact .quiet noVotes_nil

theorem takeEntries_same (leader : String) (prevLogIndex prevLogTerm : Nat)
    (entries : List EntryMeta) (leaderCommit senderMs : Nat) :
    Respects SameBallot
      (takeEntries leader prevLogIndex prevLogTerm entries leaderCommit senderMs) := by
  refine .bind .get fun h => .ite (.pure _) ?_
  refine .bind (cutConflict_same entries) fun _ => ?_
  refine .bind (appendMissing_same entries) fun _ => ?_
  refine .bind (modifyNode_same (followCommit_part leaderCommit)) fun _ => ?_
  exact .bind .get fun h => .pure _

theorem takeEntries_noVotes (leader : String) (prevLogIndex prevLogTerm : Nat)
    (entries : List EntryMeta) (leaderCommit senderMs : Nat) :
    Returns NoVotes (takeEntries leader prevLogIndex prevLogTerm entries leaderCommit senderMs) := by
  refine .bind fun h => .ite (.pure (noVotes_singleton rfl)) ?_
  exact .bind fun _ => .bind fun _ => .bind fun _ => .bind fun _ => .pure (noVotes_singleton rfl)

/-- In a term the node has reached, `AppendEntries` retires the node and leaves its term and vote
alone. -/
theorem handleAppendEntries_answers {h h' : Host} {leader : String} {msg : Message}
    {term prevLogIndex prevLogTerm leaderCommit senderMs peerSkewMs : Nat}
    {entries : List EntryMeta} {r : Except HaError (List Outbound)}
    (ht : term ≤ h.node.hard.currentTerm)
    (hx : exec (handleAppendEntries term leader prevLogIndex prevLogTerm entries leaderCommit
      senderMs peerSkewMs) h = (r, h')) :
    h.ballot.Answers msg (outputs r) h'.ballot := by
  unfold handleAppendEntries at hx
  simp only [exec_get_bind, exec_modifyNode_bind] at hx
  have hb := ballot_congr (observeLeader_part h.node leader senderMs peerSkewMs h.now) h.store h.now
  generalize h.node.observeLeader leader senderMs peerSkewMs h.now = n at hx hb
  have hn : n.hard = h.node.hard := congrArg Ballot.hard hb
  rw [show h.ballot = Host.ballot ⟨n, h.store, h.now⟩ from hb.symm]
  rw [exec_ite] at hx
  split at hx
  · cases hx
    exact .quiet (noVotes_singleton rfl)
  rw [exec_bind_ok (exec_becomeFollower_stay (by simpa [hn] using ht)), exec_modifyNode_bind] at hx
  have hs := takeEntries_same leader prevLogIndex prevLogTerm entries leaderCommit senderMs
    ⟨((n.retire (some leader)).heard h.now).resetElectionDeadline h.now, h.store, h.now⟩
  have hout := outputs_noVotes
    (takeEntries_noVotes leader prevLogIndex prevLogTerm entries leaderCommit senderMs)
    ⟨((n.retire (some leader)).heard h.now).resetElectionDeadline h.now, h.store, h.now⟩
  rw [hx] at hs hout
  rw [show h'.ballot = _ from hs, ballot_resetElectionDeadline]
  exact .retires hout

theorem handleAppendEntriesResp_answers {h h' : Host} {follower : String} {msg : Message}
    {term matchIndex senderMs echoMs : Nat} {success : Bool} {conflictIndex : Option Nat}
    {r : Except HaError (List Outbound)} (ht : term ≤ h.node.hard.currentTerm)
    (hx : exec (handleAppendEntriesResp term follower success matchIndex conflictIndex senderMs
      echoMs) h = (r, h')) :
    h.ballot.Answers msg (outputs r) h'.ballot := by
  unfold handleAppendEntriesResp at hx
  simp only [exec_get_bind, exec_modifyNode_bind] at hx
  have hb := ballot_congr (observeRtt_part h.node follower senderMs h.now echoMs) h.store h.now
  generalize (h.node.acked follower h.now).observeClockRtt follower senderMs h.now echoMs = n
    at hx hb
  have hn : n.hard = h.node.hard := congrArg Ballot.hard hb
  rw [show h.ballot = Host.ballot ⟨n, h.store, h.now⟩ from hb.symm]
  rw [if_neg (by simpa [hn] using ht), exec_ite] at hx
  split at hx
  · cases hx
    exact .quiet noVotes_nil
  rw [exec_ite] at hx
  split at hx
  · rw [exec_modifyNode_bind] at hx
    cases hx
    obtain ⟨c, sm, results, calls, ha⟩ := (n.matched follower matchIndex).advanceCommit_frame
    rw [ha]
    exact .quiet noVotes_nil
  · rw [exec_modifyNode_bind, exec_get_bind] at hx
    cases hx
    exact .quiet (appendFor_noVotes _ _ _ _)

theorem takeSnapshot_same (leader : String) (snapshotJson : JsonText SnapshotFile) :
    Respects SameBallot (takeSnapshot leader snapshotJson) := by
  unfold takeSnapshot
  split
  · exact .throw _
  split
  · exact .throw _
  · refine .bind .get fun h => .ite (.pure _) ?_
    exact .bind (installSnapshot_same _) fun _ => .bind .get fun h => .pure _

theorem takeSnapshot_noVotes (leader : String) (snapshotJson : JsonText SnapshotFile) :
    Returns NoVotes (takeSnapshot leader snapshotJson) := by
  unfold takeSnapshot
  split
  · exact .throw _
  split
  · exact .throw _
  · refine .bind fun h => .ite (.pure (noVotes_singleton rfl)) ?_
    exact .bind fun _ => .bind fun h => .pure (noVotes_singleton rfl)

theorem handleInstallSnapshot_answers {h h' : Host} {leader : String} {msg : Message} {term : Nat}
    {snapshotJson : JsonText SnapshotFile} {r : Except HaError (List Outbound)}
    (ht : term ≤ h.node.hard.currentTerm)
    (hx : exec (handleInstallSnapshot term leader snapshotJson) h = (r, h')) :
    h.ballot.Answers msg (outputs r) h'.ballot := by
  unfold handleInstallSnapshot at hx
  rw [exec_get_bind, exec_modifyNode_bind, exec_ite] at hx
  split at hx
  · cases hx
    exact .quiet noVotes_nil
  rw [exec_bind_ok (exec_becomeFollower_stay (h := { h with node := h.node.acked leader h.now }) ht),
    exec_modifyNode_bind] at hx
  have hs := takeSnapshot_same leader snapshotJson
    ⟨((h.node.acked leader h.now).retire (some leader)).heard h.now, h.store, h.now⟩
  have hout := outputs_noVotes (takeSnapshot_noVotes leader snapshotJson)
    ⟨((h.node.acked leader h.now).retire (some leader)).heard h.now, h.store, h.now⟩
  rw [hx] at hs hout
  rw [show h'.ballot = h.ballot.retired from hs]
  exact .retires hout

/-! ## The calls -/

/-- What `handle` does to the ballot: the rule on higher terms, then the answer. -/
theorem handle_ballot {h h' : Host} {sender : String} {msg : Message} {out : List Outbound}
    (hx : handle sender msg h = (out, h')) :
    (∃ b, h.ballot.Adopts msg true b ∧ b.Answers msg out h'.ballot) ∨
      (h.ballot.Adopts msg false h'.ballot ∧ out = []) := by
  unfold handle at hx
  have hb : ∃ h1 r, exec (handleInner sender msg) h = (r, h1) ∧ out = outputs r ∧
      h'.ballot = h1.ballot := by
    rcases hi : exec (handleInner sender msg) h with ⟨(e | o), h1⟩
    · rw [hi] at hx
      cases hx
      exact ⟨h1, _, rfl, rfl, rfl⟩
    · rw [hi] at hx
      cases hx
      exact ⟨h', _, rfl, rfl, rfl⟩
  obtain ⟨h1, r, hi, rfl, hb1⟩ := hb
  rw [hb1]
  unfold handleInner at hi
  rcases ha : exec (adoptTerm msg) h with ⟨(e | u), h0⟩
  · rw [exec_bind_error ha] at hi
    cases hi
    exact .inr ⟨adoptTerm_adopts ha, rfl⟩
  · rw [exec_bind_ok ha] at hi
    have had := adoptTerm_adopts ha
    have hre := Adopts.reached had
    refine .inl ⟨h0.ballot, had, ?_⟩
    cases msg with
    | requestVote => exact handleRequestVote_answers hi
    | requestVoteResp => exact handleRequestVoteResp_answers hi
    | appendEntries => exact handleAppendEntries_answers (hre.resolve_right (by simp [Message.isPreVote])) hi
    | appendEntriesResp =>
      exact handleAppendEntriesResp_answers (hre.resolve_right (by simp [Message.isPreVote])) hi
    | installSnapshot =>
      exact handleInstallSnapshot_answers (hre.resolve_right (by simp [Message.isPreVote])) hi
    | installSnapshotResp =>
      exact handleInstallSnapshotResp_answers (hre.resolve_right (by simp [Message.isPreVote])) hi
    | timeoutNow => exact handleTimeoutNow_answers hi

/-- What `tick` does to the ballot: nothing, or it opens a pre-vote campaign. -/
theorem tick_ballot {h h' : Host} {r : Except HaError (List Outbound)}
    (hx : exec tick h = (r, h')) :
    (h'.ballot = h.ballot ∧ NoVotes (outputs r)) ∨
      (h'.ballot = h.ballot.probing ∧ ∃ lastIndex lastTerm now, outputs r =
        h.ballot.cfg.others.map fun dest => ⟨dest, .requestVote (h.ballot.hard.currentTerm + 1)
          h.ballot.cfg.nodeId lastIndex lastTerm true now, true⟩) := by
  unfold tick at hx
  rw [exec_get_bind, exec_ite] at hx
  split at hx
  · rw [exec_ite] at hx
    split at hx
    · cases hx
      exact .inl ⟨rfl, broadcastAppend_noVotes _ _ _⟩
    · cases hx
      exact .inl ⟨rfl, noVotes_nil⟩
  · next hrole =>
    rw [exec_ite] at hx
    split at hx
    · obtain ⟨rng, d, hd⟩ := h.node.resetElectionDeadline_frame h.now
      have hs : h.node.startPreVote h.now =
          { h.node with
            rng, electionDeadlineMs := d, role := .candidate, campaign := .preVote,
            leaderId := none, preVotes := {h.node.cfg.nodeId}, votes := ∅ } := by
        simp only [Node.startPreVote, hd]
        rw [if_neg hrole]
      rw [exec_modifyNode_bind, exec_get_bind, hs, if_pos rfl] at hx
      cases hx
      exact .inr ⟨rfl, _, _, _, rfl⟩
    · cases hx
      exact .inl ⟨rfl, noVotes_nil⟩

/-- What `step_down` does to the ballot: nothing, or it retires the node in its term. -/
theorem stepDown_ballot {h h' : Host} {r : Except HaError (List Outbound)}
    (hx : exec stepDown h = (r, h')) :
    (h'.ballot = h.ballot ∨ h'.ballot = h.ballot.retired) ∧ NoVotes (outputs r) := by
  unfold stepDown at hx
  rw [exec_get_bind, exec_ite] at hx
  split at hx
  · cases hx
    exact ⟨.inl rfl, noVotes_nil⟩
  · rw [exec_ignore_bind] at hx
    have hs := appendLocal_same .noop h
    generalize (exec (appendLocal .noop) h).2 = h1 at hx hs
    rw [exec_get_bind, exec_bind_ok (exec_becomeFollower_stay (Nat.le_refl _)),
      exec_modifyNode_bind] at hx
    obtain ⟨rng, d, hd⟩ := (h1.node.retire none).resetElectionDeadline_frame h1.now
    rw [hd] at hx
    cases hx
    refine ⟨.inr ?_, noVotes_append (broadcastAppend_noVotes _ _ _) ?_⟩
    · exact congrArg Ballot.retired hs
    · split
      · split
        · exact noVotes_singleton rfl
        · exact noVotes_nil
      · exact noVotes_nil

/-- A node opens as a follower with the hard state of its directory. -/
theorem openNode_ballot {cfg : RaftConfig} {now : Nat} {st st' : Store} {n : Node}
    (hx : exec (openNode cfg now) st = (.ok n, st')) :
    cfg.validate = .ok () ∧ Host.ballot ⟨n, st', now⟩ =
      .opened cfg (st.disk.hardState.getD HardState.default) st.faults.hard.tail := by
  unfold openNode at hx
  split at hx
  · cases hx
  next hv =>
  refine ⟨hv, ?_⟩
  have hd : ∀ f : Disk → Disk, exec (fileOp .node f) st = (.ok (), ⟨f st.disk,
      ⟨st.faults.hard.tail, st.faults.shard⟩⟩) ∨ (exec (fileOp .node f) st).1 = .error .io := by
    intro f
    simp only [exec, fileOp]
    split
    · exact .inl rfl
    · exact .inr rfl
  rcases hd id with hf | hf
  · rw [exec_bind_ok hf, exec_get_bind] at hx
    split at hx
    · cases hx
    split at hx
    · cases hx
    next snap _ _ sm _ =>
    unfold openOver at hx
    have hl := Log.open_sameHard cfg.shard (seedOf snap)
      ⟨st.disk, ⟨st.faults.hard.tail, st.faults.shard⟩⟩
    rcases ho : exec (Log.open' cfg.shard (seedOf snap))
      ⟨st.disk, ⟨st.faults.hard.tail, st.faults.shard⟩⟩ with ⟨(e | log), st2⟩
    · rw [id, exec_bind_error ho] at hx
      cases hx
    rw [ho] at hl
    obtain ⟨h1, h2⟩ := hl
    rw [id, exec_bind_ok ho, exec_get_bind] at hx
    obtain ⟨sm', results, calls, hc⟩ := ((opened cfg log sm
      (st2.disk.hardState.getD HardState.default) snap).resetElectionDeadline
        now).applyCommitted_frame
    obtain ⟨rng, d, hr⟩ := (opened cfg log sm
      (st2.disk.hardState.getD HardState.default) snap).resetElectionDeadline_frame now
    rw [hc, hr] at hx
    cases hx
    simp only at h1 h2
    simp only [ballot, Ballot.opened, opened, h1, h2]
  · rw [exec_bind] at hx
    rcases hf' : exec (fileOp .node id) st with ⟨(e | u), st1⟩
    · rw [hf'] at hx
      cases hx
    · rw [hf'] at hf
      cases hf

/-- What every request does to the ballot. -/
theorem serve_turns {h h' : Host} {req : Request} {out : List Outbound}
    (hs : h.serve req = some (out, h')) : h.ballot.Turns req out h'.ballot := by
  cases req with
  | tick =>
    cases hs
    have hx : exec tick h = ((exec tick h).1, (exec tick h).2) := rfl
    rcases tick_ballot hx with ⟨hb, hout⟩ | ⟨hb, i, t, now, hout⟩
    · rw [hb]
      exact .quiet hout
    · rw [hb, hout]
      exact .probes
  | propose op =>
    cases hs
    rw [show (exec (propose op) h).2.ballot = h.ballot from propose_same op h]
    exact .quiet noVotes_nil
  | flush =>
    cases hs
    have hr : Returns NoVotes flush := .bind fun _ =>
      .ite (.bind fun _ => .pure (broadcastAppend_noVotes _ _ _)) (.pure noVotes_nil)
    rw [show (exec flush h).2.ballot = h.ballot from flush_same h]
    exact .quiet (outputs_noVotes hr h)
  | stepDown =>
    cases hs
    have hx : exec stepDown h = ((exec stepDown h).1, (exec stepDown h).2) := rfl
    obtain ⟨hb | hb, hout⟩ := stepDown_ballot hx
    · rw [hb]
      exact .quiet hout
    · rw [hb]
      exact .retires hout
  | maybeSnapshot =>
    cases hs
    rw [show (exec maybeSnapshot h).2.ballot = h.ballot from maybeSnapshot_same h]
    exact .quiet noVotes_nil
  | handle sender msg =>
    simp only [serve, Option.some.injEq] at hs
    rcases handle_ballot hs with ⟨b, ha, hb⟩ | ⟨ha, rfl⟩
    · exact .answers ha hb
    · exact .adoptFails ha
  | restart cfg =>
    simp only [serve] at hs
    split at hs
    · next hc =>
      split at hs
      · next n st ho =>
        cases hs
        obtain ⟨hv, hb⟩ := openNode_ballot ho
        rw [hb]
        exact .reopens hc hv
      · cases hs
    · cases hs

end

end Host

end Rdsctl.Ha
