import Rdsctl.Ha.Cluster

/-!
# Steps that take the log for what it is

The end of a log is read off its records. Compaction can remove all of them, and then
`Log::last_index` and `Log::last_term` say 0 although the node holds every entry up to its snapshot:
`Node.EndKnown` fails. A follower compares only the first entry of a batch with its log, and answers
and commits up to its own last index, so it may count records as the leader's that no leader has
sent it. `Cluster.Sound` says of a step that it runs into neither: what uses the end of the log finds
it known, and what an `AppendEntries` leaves above `prev_log_index` is the leader's.
-/

namespace Rdsctl.Ha

/-- The end of the log, the part under the snapshot included. -/
def Node.logicalLast (n : Node) : Nat := max n.snapshotIndex n.log.lastIndex

/-- The records reach up to the snapshot: compaction has not emptied the log. -/
def Node.EndKnown (n : Node) : Prop := n.snapshotIndex ≤ n.log.lastIndex

instance (n : Node) : Decidable n.EndKnown := inferInstanceAs (Decidable (_ ≤ _))

/-- The request uses the end of the log: for a new entry, for a vote request, or to grant a vote. -/
def Node.readsEnd (n : Node) : Request → Prop
  | .propose _ | .stepDown => n.role = .leader
  | .handle _ (.requestVote term _ _ _ false _) =>
    n.hard.currentTerm < term ∨ (n.hard.currentTerm = term ∧ n.hard.votedFor = none)
  | .handle _ (.requestVoteResp term voter true _ _) =>
    term = n.hard.currentTerm ∧ n.role = .candidate ∧
      ((n.campaign = .preVote ∧ n.cfg.majority ≤ (n.countPreVote voter).preVotes.card) ∨
        (n.campaign = .vote ∧ n.cfg.majority ≤ (n.countVote voter).votes.card))
  | .handle _ (.appendEntries term _ prevLogIndex _ entries _ _ _) =>
    n.hard.currentTerm ≤ term ∧ prevLogIndex = 0 ∧ entries ≠ []
  | .handle _ (.timeoutNow term _) => n.hard.currentTerm ≤ term
  | _ => False

instance (n : Node) (req : Request) : Decidable (n.readsEnd req) := by
  unfold Node.readsEnd
  split <;> infer_instance

/-- The first entry of the batch has another term than the record at its index. -/
def Node.firstConflicts (n : Node) : List EntryMeta → Bool
  | [] => false
  | first :: _ =>
    match n.log.termAt first.index with
    | some t => decide (first.term ≠ t)
    | none => false

/-- The records above `prev_log_index` that an `AppendEntries` leaves in the log and counts as the
leader's. -/
def Node.keeps (n : Node) (prevLogIndex prevLogTerm : Nat) (entries : List EntryMeta) :
    List Record :=
  if n.prevMatches prevLogIndex prevLogTerm = true ∧ n.firstConflicts entries = false ∧
      (n.snapshotIndex ≤ prevLogIndex ∨ entries = []) then
    n.log.entries.filter fun r => decide (prevLogIndex < r.index)
  else []

namespace Cluster

/-- A leader of the term has held a record of this index and term. -/
def HeldByLeader (voters : List String) (h : History Cluster Event) (c : Cluster) (term : Nat)
    (r : Record) : Prop :=
  ∃ d ∈ h.states c, ∃ i ∈ voters, (d.hosts i).node.role = .leader ∧
    (d.hosts i).node.hard.currentTerm = term ∧ (d.hosts i).node.log.termAt r.index = some r.term

instance (voters : List String) (h : History Cluster Event) (c : Cluster) (term : Nat)
    (r : Record) : Decidable (HeldByLeader voters h c term r) :=
  inferInstanceAs (Decidable (∃ d ∈ _, ∃ i ∈ _, _))

/-- What the node keeps for the message are records of the leader. -/
def KeepsLeaders (voters : List String) (h : History Cluster Event) (c : Cluster) (n : Node) :
    Request → Prop
  | .handle _ (.appendEntries term _ prevLogIndex prevLogTerm entries _ _ _) =>
    n.hard.currentTerm ≤ term →
      ∀ r ∈ n.keeps prevLogIndex prevLogTerm entries, HeldByLeader voters h c term r
  | _ => True

instance (voters : List String) (h : History Cluster Event) (c : Cluster) (n : Node)
    (req : Request) : Decidable (KeepsLeaders voters h c n req) := by
  unfold KeepsLeaders
  split <;> infer_instance

/-- A step without faults that takes the log for what it is. -/
def Sound (voters : List String) (h : History Cluster Event) (c : Cluster) (e : Event) : Prop :=
  e.faults = Faults.none ∧
    match e.call.request c.net e.node with
    | some req =>
      ((c.hosts e.node).node.readsEnd req → (c.hosts e.node).node.EndKnown) ∧
        KeepsLeaders voters h c (c.hosts e.node).node req
    | none => True

instance (voters : List String) (h : History Cluster Event) (c : Cluster) (e : Event) :
    Decidable (Sound voters h c e) := by
  unfold Sound
  cases e.call.request c.net e.node <;> infer_instance

end Cluster

end Rdsctl.Ha
