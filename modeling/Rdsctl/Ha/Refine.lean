import Rdsctl.Ha.Follow

/-!
# The calls of a node refine the replicated log

Every call of a node whose replica agrees with the abstract state is a series of moves of that
member, and what it sends agrees with the history after them (`Host.serve_yields`). There are no file
faults here, and the premises on the end of the log and on what a follower keeps are those of
`Cluster.Sound`.
-/

namespace Rdsctl.Ha

open Fallible

variable [SerdeJson] {voters : List String} {shard : Nat} {s s' : Copies} {i : String} {n : Node}
  {k : Disk} {now : Nat}

/-! ## What a leader sends -/

/-- A leader knows its commit index of its own log. -/
theorem Replica.Ok.knows_commit (hc : (n.replica k).Ok voters shard s i) (hi : s.Inv voters)
    {r : Reign String LogEntry} (hreign : s.reigns n.hard.currentTerm = some r)
    (hlog : r.log = s.log i) : s.Knows n.hard.currentTerm r.log n.commitIndex := by
  have hcom : n.commitIndex ≤ max n.snapshotIndex (s.known i) := hc.committed
  rcases Nat.lt_or_ge (s.known i) n.commitIndex with hlt | hge
  · -- it is committed by a snapshot
    rcases hc.anchored with ⟨h0, -⟩ | ⟨f, -, hf, hidx, -⟩
    · rw [show n.snapshotIndex = 0 from h0] at hcom
      omega
    · obtain ⟨e, he, -⟩ := hf.settled
      rw [show f.lastIncludedIndex = n.snapshotIndex from hidx] at he
      exact (hi.knows_of_settled he hreign (Nat.le_refl _)).le (by omega)
  · have hk := hi.known i
    rw [show s.term i = n.hard.currentTerm from hc.term] at hk
    rw [hlog]
    exact hk.le hge

/-- The term a leader puts before its entries is that of its log, or 0. -/
theorem Replica.Ok.prevTermFor (hc : (n.replica k).Ok voters shard s i) (hi : s.Inv voters)
    {r : Reign String LogEntry} (hreign : s.reigns n.hard.currentTerm = some r)
    (hlog : r.log = s.log i) (prev : Nat) :
    prev = 0 ∨ n.prevTermFor prev = 0 ∨
      ∃ e, r.log[prev - 1]? = some e ∧ e.term = n.prevTermFor prev := by
  have hrec : Log.Holds n.snapshotIndex n.log.entries (s.log i) := hc.records
  unfold Node.prevTermFor
  split
  · next h0 => exact .inl h0
  next h0 =>
  split
  · next hS =>
    rcases hc.anchored with ⟨h, -⟩ | ⟨f, -, hf, hidx, hterm, -⟩
    · rw [show n.snapshotIndex = 0 from h] at hS
      exact absurd hS h0
    · obtain ⟨e, he, ht⟩ := hf.settled
      rw [show f.lastIncludedIndex = n.snapshotIndex from hidx, ← hS] at he
      exact .inr (.inr ⟨e, hi.log_of_settled he hreign (Nat.le_refl _), ht.trans hterm⟩)
  · cases hg : n.log.get prev with
    | none => exact .inr (.inl (by simp [Log.termAt, hg]))
    | some rec =>
      obtain ⟨-, -, e, he, hsp⟩ := hrec.get_some hg
      exact .inr (.inr ⟨e, hlog ▸ he, by simp [Log.termAt, hg, hsp.1]⟩)

/-- The entries a leader sends are those of its log. -/
theorem Replica.Ok.sent_entries (hc : (n.replica k).Ok voters shard s i) {next max : Nat}
    (hnext : ¬ (next ≤ n.snapshotIndex ∧ 0 < n.snapshotIndex)) {j : Nat} {e : EntryMeta}
    (he : (((n.log.entriesFrom next).take max).map Node.entryMeta)[j]? = some e) :
    e.index = next - 1 + 1 + j ∧ (s.log i)[next - 1 + j]? = some ⟨e.term, e.opJson⟩ := by
  have hrec : Log.Holds n.snapshotIndex n.log.entries (s.log i) := hc.records
  -- `next_index` 0 sends what 1 sends
  have hfrom : n.log.entriesFrom next = n.log.entriesFrom (next - 1 + 1) := by
    rcases Nat.eq_zero_or_pos next with h0 | hpos
    · subst h0
      unfold Log.entriesFrom
      cases hf : n.log.entries.head? with
      | none => rfl
      | some first =>
        have hfirst : first.index = n.snapshotIndex + 1 := by
          have h0 : n.log.entries[0]? = some first := by rwa [List.head?_eq_getElem?] at hf
          simpa using hrec.indexed 0 first h0
        simp only
        rw [if_pos (by omega), if_neg (by omega), show 0 - 1 + 1 - first.index = 0 by omega,
          List.drop_zero]
    · rw [Nat.sub_add_cancel hpos]
  rw [hfrom, List.getElem?_map] at he
  obtain ⟨rec, hrec', rfl⟩ := Option.map_eq_some_iff.1 he
  rw [List.getElem?_take] at hrec'
  split at hrec'
  · obtain ⟨hidx, e', he', hsp⟩ := hrec.entriesFrom (show n.snapshotIndex < next - 1 + 1 by omega) hrec'
    refine ⟨hidx, ?_⟩
    rw [show next - 1 + j = next - 1 + 1 - 1 + j by omega, he', Node.entryMeta, hsp.2,
      fromUtf8Lossy_asBytes, hsp.1]
  · cases hrec'

/-- What a leader sends agrees with its reign. -/
theorem Replica.Ok.appendFor_carries (hc : (n.replica k).Ok voters shard s i) (hi : s.Inv voters)
    (hrole : n.role = .leader) (peer : String) :
    ∀ o ∈ n.appendFor k now peer, o.msg.Carries voters s := by
  obtain ⟨⟨r, hreign, -, hlog⟩, -⟩ := hc.leads hrole
  unfold Node.appendFor
  generalize n.nextIndex.getD peer (n.log.lastIndex + 1) = next
  simp only
  split
  · next hnext =>
    -- the snapshot that covers the entries is on disk
    rcases hc.anchored with ⟨h0, -⟩ | ⟨f, hsnap, hf, -⟩
    · rw [show n.snapshotIndex = 0 from h0] at hnext
      omega
    · have hload : Snapshot.load k = .ok (some f) := by
        rw [Snapshot.load, show k.snapshot = some f from hsnap, Snapshot.readOne, hf.verified]
      rw [hload]
      intro o ho
      rw [List.mem_singleton.1 ho]
      exact ⟨f, rfl, hf⟩
  · next hnext =>
    intro o ho
    rw [List.mem_singleton.1 ho]
    refine ⟨r, hreign, hc.prevTermFor hi hreign hlog _, fun j e he => ?_, hc.knows_commit hi hreign hlog⟩
    rw [hlog]
    exact hc.sent_entries hnext he

theorem Replica.Ok.broadcast_carries (hc : (n.replica k).Ok voters shard s i) (hi : s.Inv voters)
    (hrole : n.role = .leader) : ∀ o ∈ n.broadcastAppend k now, o.msg.Carries voters s := by
  intro o ho
  obtain ⟨peer, -, hp⟩ := List.mem_flatMap.1 ho
  exact hc.appendFor_carries hi hrole peer o hp

/-! ## Elections -/

omit [SerdeJson] in
theorem Host.exec_persist_none (n : Node) (k : Disk) (now : Nat) :
    exec persistHardState ⟨n, ⟨k, Faults.none⟩, now⟩ =
      (.ok (), ⟨n, ⟨{ k with hardState := some n.hard, hardTmp := none }, Faults.none⟩, now⟩) := rfl

omit [SerdeJson] in
theorem replica_resetElectionDeadline (n : Node) (k : Disk) (now : Nat) :
    (n.resetElectionDeadline now).replica k = n.replica k := by
  obtain ⟨_, _, h⟩ := n.resetElectionDeadline_frame now
  rw [h]
  rfl

/-- An election starts: the vote requests show the log the candidate stands with. -/
theorem Replica.Ok.startElection (hc : (n.replica k).Ok voters shard s i) (hi : s.Inv voters)
    (he : n.EndKnown) {res : Except HaError (List Outbound)} {h' : Host}
    (hx : exec Host.startElection ⟨n, ⟨k, Faults.none⟩, now⟩ = (res, h')) :
    Yields voters shard s i (n.replica k) (Host.outputs res) h'.replica := by
  have hid : n.cfg.nodeId = i := hc.nodeId
  have hterm : s.term i = n.hard.currentTerm := hc.term
  obtain ⟨hend, hlast⟩ := hc.end_eq he
  have ha := hc.stand hi
  obtain ⟨rng, d, hd⟩ := n.nextTerm.stand.resetElectionDeadline_frame now
  unfold Host.startElection at hx
  rw [Host.exec_modifyNode_bind, exec_bind_ok (Host.exec_persist_none _ _ _),
    Host.exec_modifyNode_bind, exec_get_bind, Host.exec_modifyNode_bind, exec_get_bind, hd] at hx
  cases hx
  refine ⟨_, ha, fun o ho => ?_⟩
  obtain ⟨dest, -, rfl⟩ := List.mem_map.1 ho
  refine ⟨s.log i, ?_, hend, hlast⟩
  show update₂ s.bid i (s.term i + 1) (some (s.log i)) n.cfg.nodeId (n.hard.currentTerm + 1) = _
  rw [hid, ← hterm, update₂_self]

omit [SerdeJson] in
/-- A node that looks like another one to replication. -/
theorem replica_congr {n n' : Node} {k : Disk} (h : n'.replica k = n.replica k) :
    n'.hard = n.hard ∧ n'.role = n.role ∧ n'.campaign = n.campaign ∧ n'.cfg = n.cfg ∧
      n'.log = n.log ∧ n'.snapshotIndex = n.snapshotIndex := by
  simp only [Node.replica, Replica.mk.injEq] at h
  obtain ⟨h1, h2, h3, h4, h5, -, -, -, h6, -⟩ := h
  exact ⟨h2, h3, h4, h1, h5, h6⟩

omit [SerdeJson] in
theorem observe_replica (n : Node) (k : Disk) (peer : String) (senderMs now : Nat) :
    ((n.acked peer now).observeClock peer senderMs now).replica k = n.replica k := by
  obtain ⟨w, hw⟩ := (n.acked peer now).observeClock_frame peer senderMs now
  rw [hw]
  rfl

omit [SerdeJson] in
theorem observeRtt_replica (n : Node) (k : Disk) (peer : String) (senderMs now echoMs : Nat) :
    ((n.acked peer now).observeClockRtt peer senderMs now echoMs).replica k = n.replica k := by
  obtain ⟨w, hw⟩ := (n.acked peer now).observeClockRtt_frame peer senderMs now echoMs
  rw [hw]
  rfl

omit [SerdeJson] in
theorem observeLeader_replica (n : Node) (k : Disk) (leader : String)
    (senderMs peerSkewMs now : Nat) :
    (n.observeLeader leader senderMs peerSkewMs now).replica k = n.replica k := by
  unfold Node.observeLeader
  split
  · rfl
  · exact observe_replica n k leader senderMs now

omit [SerdeJson] in
/-- Where the end of the log is known, a log that is as far as the records is as far as the abstract
log. -/
theorem upToDate_of_logIsUpToDate {b ℓ : List LogEntry} (hend : n.log.lastIndex = ℓ.length)
    (hlast : n.log.lastTerm = lastTm LogEntry.term ℓ)
    (hu : n.logIsUpToDate b.length (lastTm LogEntry.term b) = true) :
    UpToDate LogEntry.term b ℓ := by
  unfold Node.logIsUpToDate at hu
  rw [hlast, hend] at hu
  split at hu
  · exact .inl (by simpa using hu)
  · next ht =>
    rw [not_not] at ht
    exact .inr ⟨ht.symm, by simpa using hu⟩

theorem Replica.Ok.handleRequestVote (hc : (n.replica k).Ok voters shard s i) (hi : s.Inv voters)
    {sender candidate : String} {term lastIndex lastTerm senderMs : Nat} {preVote : Bool}
    (hm : (Message.requestVote term candidate lastIndex lastTerm preVote senderMs).Carries voters s)
    (hend : preVote = false → term = n.hard.currentTerm → n.hard.votedFor = none → n.EndKnown)
    {res : Except HaError (List Outbound)} {h' : Host}
    (hx : exec (Host.handleRequestVote sender term candidate lastIndex lastTerm preVote senderMs)
      ⟨n, ⟨k, Faults.none⟩, now⟩ = (res, h')) :
    Yields voters shard s i (n.replica k) (Host.outputs res) h'.replica := by
  have hquiet : ∀ (n : Node) (granted : Bool) (t : Nat),
      ∀ o ∈ [Host.voteResp n candidate granted now t], o.msg.Carries voters s := by
    intro n granted t o ho
    rw [List.mem_singleton.1 ho]
    trivial
  unfold Host.handleRequestVote at hx
  simp only [exec_get_bind, Host.exec_modifyNode_bind] at hx
  have hrep := observe_replica n k sender senderMs now
  generalize (n.acked sender now).observeClock sender senderMs now = n1 at hx hrep
  obtain ⟨hhard, -, -, hcfg, hlog, hS⟩ := replica_congr hrep
  rw [← hrep] at hc ⊢
  cases preVote with
  | true =>
    cases hx
    exact ⟨s, .still hc (Nat.le_refl _), hquiet _ _ _⟩
  | false =>
    rw [if_neg (by simp), exec_ite] at hx
    split at hx
    · cases hx
      exact ⟨s, .still hc (Nat.le_refl _), hquiet _ _ _⟩
    rw [exec_ite] at hx
    split at hx
    · next hg =>
      simp only [Host.voteGranted, Bool.and_eq_true, Bool.or_eq_true, beq_iff_eq,
        Option.isNone_iff_eq_none] at hg
      obtain ⟨⟨rfl, hv⟩, hu⟩ := hg
      rw [Host.exec_modifyNode_bind, exec_bind_ok (Host.exec_persist_none _ _ _),
        Host.exec_modifyNode_bind, exec_get_bind] at hx
      cases hx
      show Yields voters shard s i (n1.replica k) _
        (((n1.voteFor candidate).resetElectionDeadline now).replica _)
      rw [replica_resetElectionDeadline]
      obtain ⟨b, hb, rfl, rfl⟩ := hm
      rcases hv with hv | hv
      · -- a new vote
        have he : n1.EndKnown := by
          have := hend rfl (by rw [hhard]) (by rw [← hhard]; exact hv)
          rwa [Node.EndKnown, hlog, hS]
        obtain ⟨hlen, hlast⟩ := hc.end_eq he
        have ha := hc.voteFor hi hv hb (upToDate_of_logIsUpToDate hlen hlast hu)
        refine ⟨_, ha, fun o ho => ?_⟩
        rw [List.mem_singleton.1 ho]
        trivial
      · -- the vote it has cast before
        refine ⟨s, .still ?_ (Nat.le_refl _), fun o ho => ?_⟩
        · exact { hc with
            saved := rfl
            cast := by
              show s.cast i n1.hard.currentTerm = some candidate
              rw [← hv]
              exact hc.cast
            leads := fun hr => ⟨(hc.leads hr).reign, (hc.leads hr).holding⟩ }
        · rw [List.mem_singleton.1 ho]
          trivial
    · cases hx
      exact ⟨s, .still hc (Nat.le_refl _), hquiet _ _ _⟩

/-- A leader appends an op without faults. -/
theorem Host.exec_appendLocal (hrole : n.role = .leader) (op : Op) (k : Disk) (now : Nat) :
    exec (appendLocal op) ⟨n, ⟨k, Faults.none⟩, now⟩ =
      (.ok (n.log.lastIndex + 1), ⟨n.withEntry op, ⟨k.withEntry n op, Faults.none⟩, now⟩) := by
  have hgap : Log.numberingGap (n.log.lastIndex + 1) [n.pendingFor op] = none := by
    simp [Log.numberingGap, Node.pendingFor]
  unfold appendLocal
  rw [exec_get_bind, exec_ite, if_neg (by simp [hrole])]
  have happ : exec (appendBatch [n.pendingFor op]) ⟨n, ⟨k, Faults.none⟩, now⟩ = _ :=
    exec_appendBatch_ok (by simp) hgap
  exact (exec_bind_ok happ).trans rfl

/-- A candidate that has won leads, with a first entry of its term. -/
theorem Replica.Ok.becomeLeader (hc : (n.replica k).Ok voters shard s i) (hi : s.Inv voters)
    (hmem : i ∈ voters) (hr : n.role = .candidate) (hcam : n.campaign = .vote)
    (hw : (electorate voters).Won s.cast n.hard.currentTerm i) (he : n.EndKnown)
    {res : Except HaError (List Outbound)} {h' : Host}
    (hx : exec Host.becomeLeader ⟨n, ⟨k, Faults.none⟩, now⟩ = (res, h')) :
    Yields voters shard s i (n.replica k) (Host.outputs res) h'.replica := by
  have ha1 := hc.takeLead hi hr hcam hw now
  have hi1 := (ha1.moves.inv hi).1
  obtain ⟨s2, ha2⟩ := ha1.ok.appendEntry hi1 hmem rfl (show (n.takeLead now).EndKnown from he) .noop
  have hi2 := (ha2.moves.inv hi1).1
  unfold Host.becomeLeader at hx
  rw [exec_get_bind, Host.exec_modifyNode_bind,
    exec_bind_ok (Host.exec_appendLocal (n := n.takeLead now) rfl .noop k now), exec_get_bind] at hx
  cases hx
  exact ⟨s2, ha1.trans ha2, ha2.ok.broadcast_carries hi2 rfl⟩

theorem Replica.Ok.handleRequestVoteResp (hc : (n.replica k).Ok voters shard s i)
    (hi : s.Inv voters) (hmem : i ∈ voters) (sender : String) {voter : String}
    {term senderMs echoMs : Nat} {granted : Bool}
    (hend : n.readsEnd (.handle sender (.requestVoteResp term voter granted senderMs echoMs)) →
      n.EndKnown)
    {res : Except HaError (List Outbound)} {h' : Host}
    (hwon : n.role = .candidate → h'.node.role = .leader → h'.node.hard = n.hard →
      (electorate voters).Won s.cast n.hard.currentTerm i)
    (hx : exec (Host.handleRequestVoteResp term voter granted senderMs echoMs)
      ⟨n, ⟨k, Faults.none⟩, now⟩ = (res, h')) :
    Yields voters shard s i (n.replica k) (Host.outputs res) h'.replica := by
  unfold Host.handleRequestVoteResp at hx
  simp only [exec_get_bind, Host.exec_modifyNode_bind] at hx
  have hrep := observeRtt_replica n k voter senderMs now echoMs
  obtain ⟨w, hw⟩ := (n.acked voter now).observeClockRtt_frame voter senderMs now echoMs
  have hvotes : ((n.acked voter now).observeClockRtt voter senderMs now echoMs).votes = n.votes ∧
      ((n.acked voter now).observeClockRtt voter senderMs now echoMs).preVotes = n.preVotes := by
    rw [hw]
    exact ⟨rfl, rfl⟩
  generalize (n.acked voter now).observeClockRtt voter senderMs now echoMs = n1 at hx hrep hvotes
  obtain ⟨hhard, hrole1, hcam1, hcfg, hlog, hS⟩ := replica_congr hrep
  rw [← hrep] at hc ⊢
  have hknown : n.EndKnown → n1.EndKnown := fun h => by rwa [Node.EndKnown, hlog, hS]
  rw [exec_ite] at hx
  split at hx
  · cases hx
    exact .silent hc
  next hg =>
  rw [not_or, not_not, Bool.not_eq_false] at hg
  obtain ⟨rfl, rfl⟩ := hg
  rw [exec_ite] at hx
  split at hx
  · cases hx
    exact .silent hc
  next hrole =>
  rw [not_not] at hrole
  have hr : n.role = .candidate := by rw [← hrole1, hrole]
  split at hx
  · next hcam =>
    rw [Host.exec_modifyNode_bind, exec_get_bind, exec_ite] at hx
    split at hx
    · next hm =>
      have he : n.EndKnown := by
        refine hend ⟨by rw [hhard], hr, .inl ⟨by rw [← hcam1, hcam], ?_⟩⟩
        have hm' : n1.cfg.majority ≤ (insert voter n1.preVotes).card := hm
        rwa [hcfg, hvotes.2] at hm'
      exact Replica.Ok.startElection (n := n1.countPreVote voter) hc hi (hknown he) hx
    · cases hx
      exact .silent hc
  · next hcam =>
    rw [Host.exec_modifyNode_bind, exec_get_bind, exec_ite] at hx
    split at hx
    · next hm =>
      have he : n.EndKnown := by
        refine hend ⟨by rw [hhard], hr, .inr ⟨by rw [← hcam1, hcam], ?_⟩⟩
        have hm' : n1.cfg.majority ≤ (insert voter n1.votes).card := hm
        rwa [hcfg, hvotes.1] at hm'
      have hb := (Host.becomeLeader_leads hx).1
      have hwon' := hwon hr (congrArg Ballot.role hb)
        ((congrArg Ballot.hard hb).trans (show n1.hard = n.hard from hhard))
      rw [← hhard] at hwon'
      exact Replica.Ok.becomeLeader (n := n1.countVote voter) hc hi hmem hrole hcam hwon'
        (hknown he) hx
    · cases hx
      exact .silent hc
  · cases hx
    exact .silent hc

theorem Replica.Ok.handleTimeoutNow (hc : (n.replica k).Ok voters shard s i) (hi : s.Inv voters)
    {term : Nat} (hend : n.hard.currentTerm ≤ term → n.EndKnown)
    {res : Except HaError (List Outbound)} {h' : Host}
    (hx : exec (Host.handleTimeoutNow term) ⟨n, ⟨k, Faults.none⟩, now⟩ = (res, h')) :
    Yields voters shard s i (n.replica k) (Host.outputs res) h'.replica := by
  unfold Host.handleTimeoutNow at hx
  rw [exec_get_bind, exec_ite] at hx
  split at hx
  · cases hx
    exact .silent hc
  next ht =>
  rw [exec_ite] at hx
  split at hx
  · cases hx
    exact .silent hc
  · obtain ⟨rng, d, hd⟩ := n.resetElectionDeadline_frame now
    rw [Host.exec_modifyNode_bind, hd] at hx
    exact Replica.Ok.startElection (n := { n with rng, electionDeadlineMs := d }) hc hi
      (hend (Nat.le_of_not_lt ht)) hx

/-! ## Replication -/

omit [SerdeJson] in
theorem Node.keeps_congr {n1 : Node} (hlog : n1.log = n.log)
    (hS : n1.snapshotIndex = n.snapshotIndex) (hST : n1.snapshotTerm = n.snapshotTerm)
    {prev prevTerm : Nat} {entries : List EntryMeta} :
    n1.keeps prev prevTerm entries = n.keeps prev prevTerm entries := by
  have hf : n1.firstConflicts entries = n.firstConflicts entries := by
    cases entries with
    | nil => rfl
    | cons first rest => simp only [Node.firstConflicts, hlog]
  have hm : n1.prevMatches prev prevTerm = n.prevMatches prev prevTerm := by
    simp only [Node.prevMatches, Node.localTerm, hlog, hS, hST]
  unfold Node.keeps
  rw [hm, hf, hlog, hS]

theorem Replica.Ok.handleAppendEntries (hc : (n.replica k).Ok voters shard s i) (hi : s.Inv voters)
    (hmem : i ∈ voters) (sender : String) {term prev prevTerm commit senderMs skew : Nat}
    {leader : String} {entries : List EntryMeta} (ht : term ≤ n.hard.currentTerm)
    (hm : (Message.appendEntries term leader prev prevTerm entries commit senderMs skew).Carries
      voters s)
    (hend : n.readsEnd (.handle sender
      (.appendEntries term leader prev prevTerm entries commit senderMs skew)) → n.EndKnown)
    (hkeep : n.hard.currentTerm ≤ term → ∀ r, s.reigns term = some r →
      ∀ rec ∈ n.keeps prev prevTerm entries, ∃ e, r.log[rec.index - 1]? = some e ∧ e.term = rec.term)
    {res : Except HaError (List Outbound)} {h' : Host}
    (hx : exec (Host.handleAppendEntries term leader prev prevTerm entries commit senderMs skew)
      ⟨n, ⟨k, Faults.none⟩, now⟩ = (res, h')) :
    Yields voters shard s i (n.replica k) (Host.outputs res) h'.replica := by
  unfold Host.handleAppendEntries at hx
  simp only [exec_get_bind, Host.exec_modifyNode_bind] at hx
  have hrep := observeLeader_replica n k leader senderMs skew now
  generalize n.observeLeader leader senderMs skew now = n1 at hx hrep
  obtain ⟨hhard, hrole1, hcam1, hcfg, hlog, hS⟩ := replica_congr hrep
  have hst : n1.snapshotTerm = n.snapshotTerm := congrArg Replica.snapshotTerm hrep
  rw [← hrep] at hc ⊢
  rw [exec_ite] at hx
  split at hx
  · cases hx
    refine ⟨s, .still hc (Nat.le_refl _), fun o ho => ?_⟩
    rw [List.mem_singleton.1 ho]
    trivial
  next hge =>
  have heq : n1.hard.currentTerm = term := by
    rw [hhard] at hge ⊢
    omega
  obtain ⟨rng, d, hd⟩ := ((n1.retire (some leader)).heard now).resetElectionDeadline_frame now
  rw [exec_bind_ok (Host.exec_becomeFollower_stay (h := ⟨n1, ⟨k, Faults.none⟩, now⟩)
    (Nat.le_of_eq heq.symm)), Host.exec_modifyNode_bind, hd] at hx
  obtain ⟨r, hreign, hp, hes, hk⟩ := hm
  subst heq
  have hcur : n.hard.currentTerm ≤ n1.hard.currentTerm := by rw [hhard]
  have hc' := hc.retire (some leader)
  refine .after (.still hc' (Nat.le_refl _)) (Replica.Ok.takeEntries
    (n := { (n1.retire (some leader)).heard now with rng, electionDeadlineMs := d })
    hc' hi hmem rfl hreign hp (.of_getElem? hes) hk (fun h0 hne => ?_) (fun rec hrec => ?_) hx)
  · have he := hend ⟨hcur, h0, hne⟩
    show n1.snapshotIndex ≤ n1.log.lastIndex
    rwa [hlog, hS]
  · have hrec' : rec ∈ n1.keeps prev prevTerm entries := hrec
    rw [Node.keeps_congr hlog hS hst] at hrec'
    exact hkeep hcur r hreign rec hrec'

theorem Replica.Ok.handleAppendEntriesResp (hc : (n.replica k).Ok voters shard s i)
    (hi : s.Inv voters) {term matchIndex senderMs echoMs : Nat} {follower : String} {success : Bool}
    {conflict : Option Nat} (ht : term ≤ n.hard.currentTerm)
    (hm : (Message.appendEntriesResp term follower success matchIndex conflict senderMs
      echoMs).Carries voters s)
    {res : Except HaError (List Outbound)} {h' : Host}
    (hx : exec (Host.handleAppendEntriesResp term follower success matchIndex conflict senderMs
      echoMs) ⟨n, ⟨k, Faults.none⟩, now⟩ = (res, h')) :
    Yields voters shard s i (n.replica k) (Host.outputs res) h'.replica := by
  unfold Host.handleAppendEntriesResp at hx
  simp only [exec_get_bind, Host.exec_modifyNode_bind] at hx
  have hrep := observeRtt_replica n k follower senderMs now echoMs
  generalize (n.acked follower now).observeClockRtt follower senderMs now echoMs = n1 at hx hrep
  obtain ⟨hhard, hrole1, hcam1, hcfg, hlog, hS⟩ := replica_congr hrep
  rw [← hrep] at hc ⊢
  rw [if_neg (by rw [hhard]; omega), exec_ite] at hx
  split at hx
  · cases hx
    exact .silent hc
  next hg =>
  rw [not_or, not_not, not_not] at hg
  obtain ⟨hrole, rfl⟩ := hg
  rw [exec_ite] at hx
  split at hx
  · next hsucc =>
    subst hsucc
    rw [Host.exec_modifyNode_bind] at hx
    cases hx
    have hc' : ((n1.matched follower matchIndex).replica k).Ok voters shard s i :=
      { hc with
        leads := by
          intro hr
          refine ⟨(hc.leads hr).reign, fun v m hv => ?_⟩
          rcases BTreeMap.insert_eq_some hv with ⟨rfl, rfl⟩ | hv
          · exact ⟨hm.1, .inl hm.2⟩
          · exact (hc.leads hr).holding v m hv }
    obtain ⟨s', ha⟩ := hc'.advanceCommit hi hrole
    exact ⟨s', ⟨ha.moves, ha.ok, ha.snapshot⟩, by simp [Host.outputs]⟩
  · rw [Host.exec_modifyNode_bind, exec_get_bind] at hx
    generalize n1.nextIndex.insert follower _ = m at hx
    cases hx
    exact ⟨s, .still hc (Nat.le_refl _), Replica.Ok.appendFor_carries
      (n := { n1 with nextIndex := m }) hc hi hrole follower⟩

theorem Replica.Ok.handleInstallSnapshot (hc : (n.replica k).Ok voters shard s i)
    (hmem : i ∈ voters) {term : Nat} {leader : String} {json : JsonText SnapshotFile}
    (ht : term ≤ n.hard.currentTerm)
    (hm : (Message.installSnapshot term leader json).Carries voters s)
    {res : Except HaError (List Outbound)} {h' : Host}
    (hx : exec (Host.handleInstallSnapshot term leader json) ⟨n, ⟨k, Faults.none⟩, now⟩ =
      (res, h')) :
    Yields voters shard s i (n.replica k) (Host.outputs res) h'.replica := by
  unfold Host.handleInstallSnapshot at hx
  rw [exec_get_bind, Host.exec_modifyNode_bind, exec_ite] at hx
  split at hx
  · cases hx
    exact .silent hc
  next hge =>
  have heq : n.hard.currentTerm = term := by
    have : ¬ term < n.hard.currentTerm := hge
    omega
  rw [exec_bind_ok (Host.exec_becomeFollower_stay
    (h := ⟨n.acked leader now, ⟨k, Faults.none⟩, now⟩) ht), Host.exec_modifyNode_bind] at hx
  obtain ⟨f, rfl, hf⟩ := hm
  subst heq
  have hc' := hc.retire (some leader)
  exact .after (.still hc' (Nat.le_refl _)) (Replica.Ok.takeSnapshot
    (n := ((n.acked leader now).retire (some leader)).heard now) hc' hmem hf hx)

theorem Replica.Ok.handleInstallSnapshotResp (hc : (n.replica k).Ok voters shard s i)
    {term lastIncluded : Nat} {follower : String} {success : Bool} (ht : term ≤ n.hard.currentTerm)
    (hm : (Message.installSnapshotResp term follower success lastIncluded).Carries voters s)
    {res : Except HaError (List Outbound)} {h' : Host}
    (hx : exec (Host.handleInstallSnapshotResp term follower success lastIncluded)
      ⟨n, ⟨k, Faults.none⟩, now⟩ = (res, h')) :
    Yields voters shard s i (n.replica k) (Host.outputs res) h'.replica := by
  unfold Host.handleInstallSnapshotResp at hx
  rw [exec_get_bind, Host.exec_modifyNode_bind, if_neg (by simpa using ht), exec_ite] at hx
  split at hx
  · next hg =>
    obtain ⟨-, rfl⟩ := hg
    rw [Host.exec_modifyNode_bind] at hx
    cases hx
    refine ⟨s, .still ?_ (Nat.le_refl _), by simp [Host.outputs]⟩
    exact { hc with
      leads := by
        intro hr
        refine ⟨(hc.leads hr).reign, fun v m hv => ?_⟩
        rcases BTreeMap.insert_eq_some hv with ⟨rfl, rfl⟩ | hv
        · obtain ⟨hf, e, he⟩ := hm
          exact ⟨hf, .inr ⟨e, he.later ht⟩⟩
        · exact (hc.leads hr).holding v m hv }
  · cases hx
    exact .silent hc

/-! ## The calls -/

/-- The rule on higher terms: nothing, or a move to the term of the message. -/
theorem Replica.Ok.adoptTerm (hc : (n.replica k).Ok voters shard s i) (hi : s.Inv voters)
    (msg : Message) (now : Nat) :
    ∃ n1 k1 s1, exec (Host.adoptTerm msg) ⟨n, ⟨k, Faults.none⟩, now⟩ =
        (.ok (), ⟨n1, ⟨k1, Faults.none⟩, now⟩) ∧
      (n.replica k).Advances voters shard s i (n1.replica k1) s1 ∧ s1.reigns = s.reigns ∧
      n1.log = n.log ∧ n1.snapshotIndex = n.snapshotIndex ∧ n1.snapshotTerm = n.snapshotTerm ∧
      (msg.term ≤ n1.hard.currentTerm ∨ msg.isPreVote = true) ∧
      ((n1 = n ∧ s1 = s) ∨
        (n.hard.currentTerm < msg.term ∧ n1.hard.currentTerm = msg.term ∧ n1.role = .follower)) := by
  unfold Host.adoptTerm
  by_cases hlt : n.hard.currentTerm < msg.term ∧ msg.isPreVote = false
  · refine ⟨_, _, _, ?_, hc.raise hi hlt.1 none, rfl, rfl, rfl, rfl, .inl (Nat.le_refl _),
      .inr ⟨hlt.1, rfl, rfl⟩⟩
    rw [exec_get_bind, exec_ite, if_pos hlt]
    unfold Host.becomeFollower
    rw [exec_get_bind, if_pos hlt.1, Host.exec_modifyNode_bind,
      exec_bind_ok (Host.exec_persist_none _ _ _), Host.exec_modifyNode]
    rfl
  · refine ⟨n, k, s, ?_, .still hc (Nat.le_refl _), rfl, rfl, rfl, rfl, ?_, .inl ⟨rfl, rfl⟩⟩
    · rw [exec_get_bind, exec_ite, if_neg hlt]
      rfl
    · rcases Nat.lt_or_ge n.hard.currentTerm msg.term with h | h
      · exact .inr (by simpa using fun hv => hlt ⟨h, hv⟩)
      · exact .inl h

/-- What a follower keeps of its log at an `AppendEntries` is the leader's. -/
def Node.KeepsReign (s : Copies) (n : Node) : Request → Prop
  | .handle _ (.appendEntries term _ prevLogIndex prevLogTerm entries _ _ _) =>
    n.hard.currentTerm ≤ term → ∀ r, s.reigns term = some r →
      ∀ rec ∈ n.keeps prevLogIndex prevLogTerm entries,
        ∃ e, r.log[rec.index - 1]? = some e ∧ e.term = rec.term
  | _ => True

theorem Replica.Ok.handle (hc : (n.replica k).Ok voters shard s i) (hi : s.Inv voters)
    (hmem : i ∈ voters) {sender : String} {msg : Message} (hm : msg.Carries voters s)
    (hend : n.readsEnd (.handle sender msg) → n.EndKnown)
    (hkeep : n.KeepsReign s (.handle sender msg)) {out : List Outbound} {h' : Host}
    (hwon : n.role = .candidate → h'.node.role = .leader → h'.node.hard = n.hard →
      (electorate voters).Won s.cast n.hard.currentTerm i)
    (hx : Host.handle sender msg ⟨n, ⟨k, Faults.none⟩, now⟩ = (out, h')) :
    Yields voters shard s i (n.replica k) out h'.replica := by
  obtain ⟨n1, k1, s1, hadopt, ha, hreigns, hlog, hS, hST, hreach, hcase⟩ := hc.adoptTerm hi msg now
  obtain ⟨hi1, hx1⟩ := ha.moves.inv hi
  have hm1 := hm.evolves hi hx1
  have hknown : n.EndKnown → n1.EndKnown := fun h => by rwa [Node.EndKnown, hlog, hS]
  refine .after ha ?_
  -- an error leaves the replica as it is, and sends nothing
  have hres : ∃ res h1, exec (Host.handleInner sender msg) ⟨n, ⟨k, Faults.none⟩, now⟩ = (res, h1) ∧
      out = Host.outputs res ∧ h'.replica = h1.replica ∧ h'.node.role = h1.node.role ∧
      h'.node.hard = h1.node.hard := by
    unfold Host.handle at hx
    rcases hr : exec (Host.handleInner sender msg) ⟨n, ⟨k, Faults.none⟩, now⟩ with ⟨(e | o), h1⟩
    · rw [hr] at hx
      cases hx
      exact ⟨_, h1, rfl, rfl, rfl, rfl, rfl⟩
    · rw [hr] at hx
      cases hx
      exact ⟨_, h', rfl, rfl, rfl, rfl, rfl⟩
  obtain ⟨res, h1, hinner, rfl, hrep, hrole', hhard'⟩ := hres
  rw [hrep]
  rw [hrole', hhard'] at hwon
  unfold Host.handleInner at hinner
  rw [exec_bind_ok hadopt] at hinner
  have hc1 := ha.ok
  cases msg with
  | requestVote term candidate lastIndex lastTerm preVote senderMs =>
    refine hc1.handleRequestVote hi1 hm1 (fun hpv ht hv => hknown (hend ?_)) hinner
    subst hpv
    rcases hcase with ⟨rfl, -⟩ | ⟨hlt, -, -⟩
    · exact .inr ⟨ht.symm, hv⟩
    · exact .inl hlt
  | requestVoteResp term voter granted senderMs echoMs =>
    rcases hcase with ⟨rfl, rfl⟩ | ⟨-, -, hrole⟩
    · exact hc1.handleRequestVoteResp hi1 hmem sender hend hwon hinner
    · refine hc1.handleRequestVoteResp hi1 hmem sender (fun h => ?_) (fun hr => ?_) hinner
      · cases granted with
        | true =>
          obtain ⟨-, hcand, -⟩ := h
          rw [hrole] at hcand
          cases hcand
        | false => cases h
      · rw [hrole] at hr
        cases hr
  | appendEntries term leader prev prevTerm entries commit senderMs skew =>
    have hle : n.hard.currentTerm ≤ n1.hard.currentTerm := by
      rcases hcase with ⟨rfl, -⟩ | ⟨hlt, heq, -⟩
      · exact Nat.le_refl _
      · rw [heq]
        exact Nat.le_of_lt hlt
    refine hc1.handleAppendEntries hi1 hmem sender
      (hreach.resolve_right (by simp [Message.isPreVote])) hm1 (fun h => hknown (hend ?_)) ?_ hinner
    · exact ⟨hle.trans h.1, h.2⟩
    · intro ht r hr rec hrec
      rw [hreigns] at hr
      refine hkeep (hle.trans ht) r hr rec ?_
      rwa [Node.keeps_congr hlog hS hST] at hrec
  | appendEntriesResp =>
    exact hc1.handleAppendEntriesResp hi1 (hreach.resolve_right (by simp [Message.isPreVote])) hm1 hinner
  | installSnapshot =>
    exact hc1.handleInstallSnapshot hmem (hreach.resolve_right (by simp [Message.isPreVote])) hm1 hinner
  | installSnapshotResp =>
    exact hc1.handleInstallSnapshotResp (hreach.resolve_right (by simp [Message.isPreVote])) hm1 hinner
  | timeoutNow term leader =>
    refine hc1.handleTimeoutNow hi1 (fun h => hknown (hend ?_)) hinner
    rcases hcase with ⟨rfl, -⟩ | ⟨hlt, -, -⟩
    · exact h
    · exact Nat.le_of_lt hlt

/-- A leader appends an op of a client. -/
theorem Replica.Ok.propose (hc : (n.replica k).Ok voters shard s i) (hi : s.Inv voters)
    (hmem : i ∈ voters) (he : n.role = .leader → n.EndKnown) (op : Op) {res : Except HaError Nat}
    {h' : Host} (hx : exec (Host.appendLocal op) ⟨n, ⟨k, Faults.none⟩, now⟩ = (res, h')) :
    ∃ s', (n.replica k).Advances voters shard s i h'.replica s' ∧ h'.node.role = n.role ∧
      h'.store.faults = Faults.none := by
  by_cases hrole : n.role = .leader
  · rw [Host.exec_appendLocal hrole] at hx
    cases hx
    obtain ⟨s', ha⟩ := hc.appendEntry hi hmem hrole (he hrole) op
    exact ⟨s', ha, rfl, rfl⟩
  · unfold Host.appendLocal at hx
    rw [exec_get_bind, exec_ite, if_pos hrole] at hx
    cases hx
    exact ⟨s, .still hc (Nat.le_refl _), rfl, rfl⟩

theorem Replica.Ok.tick (hc : (n.replica k).Ok voters shard s i) (hi : s.Inv voters)
    {res : Except HaError (List Outbound)} {h' : Host}
    (hx : exec Host.tick ⟨n, ⟨k, Faults.none⟩, now⟩ = (res, h')) :
    Yields voters shard s i (n.replica k) (Host.outputs res) h'.replica := by
  unfold Host.tick at hx
  rw [exec_get_bind, exec_ite] at hx
  split at hx
  · next hrole =>
    rw [exec_ite] at hx
    split at hx
    · rw [Host.exec_modifyNode_bind] at hx
      cases hx
      exact ⟨s, .still hc (Nat.le_refl _), hc.broadcast_carries hi hrole⟩
    · cases hx
      exact .silent hc
  · next hrole =>
    rw [exec_ite] at hx
    split at hx
    · obtain ⟨rng, d, hd⟩ := n.resetElectionDeadline_frame now
      have hs : n.startPreVote now =
          { n with
            rng, electionDeadlineMs := d, role := .candidate, campaign := .preVote,
            leaderId := none, preVotes := {n.cfg.nodeId}, votes := ∅ } := by
        simp only [Node.startPreVote, hd]
        rw [if_neg hrole]
      rw [Host.exec_modifyNode_bind, exec_get_bind, hs, if_pos rfl] at hx
      cases hx
      refine ⟨s, .still ?_ (Nat.le_refl _), fun o ho => ?_⟩
      · exact { hc with
          stands := by intro _ hcam; cases hcam
          leads := by intro hr; cases hr }
      · obtain ⟨dest, -, rfl⟩ := List.mem_map.1 ho
        trivial
    · cases hx
      exact .silent hc

theorem Replica.Ok.flush (hc : (n.replica k).Ok voters shard s i) (hi : s.Inv voters)
    {res : Except HaError (List Outbound)} {h' : Host}
    (hx : exec Host.flush ⟨n, ⟨k, Faults.none⟩, now⟩ = (res, h')) :
    Yields voters shard s i (n.replica k) (Host.outputs res) h'.replica := by
  unfold Host.flush at hx
  rw [exec_get_bind, exec_ite] at hx
  split at hx
  · next hrole =>
    rw [Host.exec_modifyNode_bind] at hx
    cases hx
    exact ⟨s, .still hc (Nat.le_refl _), hc.broadcast_carries hi hrole⟩
  · cases hx
    exact .silent hc

theorem Replica.Ok.stepDown (hc : (n.replica k).Ok voters shard s i) (hi : s.Inv voters)
    (hmem : i ∈ voters) (he : n.role = .leader → n.EndKnown)
    {res : Except HaError (List Outbound)} {h' : Host}
    (hx : exec Host.stepDown ⟨n, ⟨k, Faults.none⟩, now⟩ = (res, h')) :
    Yields voters shard s i (n.replica k) (Host.outputs res) h'.replica := by
  unfold Host.stepDown at hx
  rw [exec_get_bind, exec_ite] at hx
  split at hx
  · cases hx
    exact .silent hc
  next hrole =>
  rw [not_not] at hrole
  obtain ⟨s1, ha⟩ := hc.appendEntry hi hmem hrole (he hrole) .noop
  have hi1 := (ha.moves.inv hi).1
  have hbc : ∀ o ∈ (n.withEntry .noop).broadcastAppend (k.withEntry n .noop) now,
      o.msg.Carries voters s1 := ha.ok.broadcast_carries hi1 hrole
  have hok := ha.ok.retire none
  rw [exec_ignore_bind, Host.exec_appendLocal hrole] at hx
  obtain ⟨rng, d, hd⟩ := ((n.withEntry .noop).retire none).resetElectionDeadline_frame now
  rw [exec_get_bind, exec_bind_ok (Host.exec_becomeFollower_stay (Nat.le_refl _)),
    Host.exec_modifyNode_bind, hd] at hx
  cases hx
  refine ⟨s1, ⟨ha.moves, hok, ha.snapshot⟩, fun o ho => ?_⟩
  rcases List.mem_append.1 ho with ho | ho
  · exact hbc o ho
  · revert ho
    split
    · split
      · intro ho
        rw [List.mem_singleton.1 ho]
        trivial
      · intro ho
        cases ho
    · intro ho
      cases ho

/-- A node opens on the directory it has left. -/
theorem Replica.Ok.reopen (hc : (n.replica k).Ok voters shard s i) (hi : s.Inv voters)
    {cfg : RaftConfig} (hcfg : n.cfg.sameMember cfg) {n' : Node} {st : Store}
    (hx : exec (Host.openNode cfg now) ⟨k, Faults.none⟩ = (.ok n', st)) :
    (n.replica k).Advances voters shard s i (n'.replica st.disk) s := by
  obtain ⟨h1, h2, h3⟩ := hcfg
  have hshard : cfg.shard = shard := h3.trans hc.ofShard
  have hsaved : k.hardState.getD HardState.default = n.hard := hc.saved
  -- the snapshot that is loaded, and the state machine in it
  have hsnap : ∃ snap : Option SnapshotFile, Snapshot.load k = .ok snap ∧
      Host.seedOf snap = n.log.seedHash ∧
      (snap.map (·.lastIncludedIndex)).getD 0 = n.snapshotIndex ∧
      (∀ sm, Host.startMachine cfg snap = .ok sm → sm.appliedIndex = n.snapshotIndex) ∧
      Replica.Anchored s n.hard.currentTerm ((Host.opened cfg ⟨shard, k.log, Host.seedOf snap, 0⟩
        n.sm n.hard snap).replica k) := by
    rcases hc.anchored with ⟨h0, hs, hp, hseed⟩ | ⟨f, hs, hf, hidx, hterm, hseed⟩
    · have h0' : n.snapshotIndex = 0 := h0
      refine ⟨none, ?_, hseed.symm, h0'.symm, fun sm hsm => ?_, .inl ⟨rfl, hs, hp, rfl⟩⟩
      · rw [Snapshot.load, show k.snapshot = none from hs, show k.snapshotPrev = none from hp]
        rfl
      · cases hsm
        rw [h0']
        rfl
    · refine ⟨some f, ?_, hseed.symm, hidx, fun sm hsm => ?_, .inr ⟨f, hs, hf, rfl, rfl, rfl⟩⟩
      · rw [Snapshot.load, show k.snapshot = some f from hs, Snapshot.readOne, hf.verified]
      · obtain ⟨sm', hparse, happ⟩ := hf.machine
        have heq : StateMachine.fromJson f.stateJson = .ok sm := hsm
        rw [hparse] at heq
        cases heq
        exact happ.trans hidx
  obtain ⟨snap, hload, hseed, hidx, hmach, hanch⟩ := hsnap
  unfold Host.openNode at hx
  split at hx
  · cases hx
  rw [exec_fileOp_bind_none, exec_get_bind] at hx
  simp only [id, hload] at hx
  split at hx
  · cases hx
  next sm hsm =>
  unfold Host.openOver at hx
  have hchained : Log.Chained cfg.shard (Host.seedOf snap) k.log := by
    rw [hshard, hseed, show k.log = n.log.entries from hc.file]
    exact hc.chained
  rcases ho : exec (Log.open' cfg.shard (Host.seedOf snap)) ⟨k, Faults.none⟩ with ⟨(e | l), st'⟩
  · rw [exec_bind_error ho] at hx
    cases hx
  rw [exec_bind_ok ho, exec_get_bind] at hx
  obtain ⟨rfl, rfl⟩ := Log.exec_open_none hchained ho
  cases hx
  have happ := hmach sm hsm
  have hok : ((Host.opened cfg ⟨cfg.shard, k.log, Host.seedOf snap, 0⟩ sm
      (k.hardState.getD HardState.default) snap).replica k).Ok voters shard s i := by
    rw [hsaved, hshard]
    exact {
      nodeId := h1.trans hc.nodeId
      members := h2.trans hc.members
      ofShard := hshard
      saved := hsaved
      term := hc.term
      cast := hc.cast
      stands := by intro hr; cases hr
      leads := by intro hr; cases hr
      records := by
        show Log.Holds ((snap.map (·.lastIncludedIndex)).getD 0) k.log (s.log i)
        rw [hidx, show k.log = n.log.entries from hc.file]
        exact hc.records
      logShard := rfl
      chained := by
        rw [← hshard]
        exact hchained
      file := rfl
      anchored := hanch
      applied := by
        show (snap.map (·.lastIncludedIndex)).getD 0 ≤ sm.appliedIndex ∧
          sm.appliedIndex ≤ (snap.map (·.lastIncludedIndex)).getD 0
        omega
      committed := Nat.le_max_left _ _
      calls := by intro call h; cases h }
  have hreset := replica_resetElectionDeadline (Host.opened cfg ⟨cfg.shard, k.log, Host.seedOf snap, 0⟩ sm
      (k.hardState.getD HardState.default) snap) k now
  generalize (Host.opened cfg ⟨cfg.shard, k.log, Host.seedOf snap, 0⟩ sm
      (k.hardState.getD HardState.default) snap).resetElectionDeadline now = n1 at hreset ⊢
  rw [← hreset] at hok
  refine .still (hok.applyCommitted hi) ?_
  obtain ⟨_, _, _, hf⟩ := n1.applyCommitted_frame
  rw [hf]
  have hS : n1.snapshotIndex = (snap.map (·.lastIncludedIndex)).getD 0 :=
    congrArg Replica.snapshotIndex hreset
  show n.snapshotIndex ≤ n1.snapshotIndex
  rw [hS, hidx]

/-- Every call of a node refines the replicated log. -/
theorem Host.serve_yields {h h' : Host} {req : Request} {out : List Outbound}
    (hfaults : h.store.faults = Faults.none) (hc : h.replica.Ok voters shard s i)
    (hi : s.Inv voters) (hmem : i ∈ voters)
    (hm : ∀ sender msg, req = .handle sender msg → msg.Carries voters s)
    (hend : h.node.readsEnd req → h.node.EndKnown) (hkeep : h.node.KeepsReign s req)
    (hwon : h.node.role = .candidate → h'.node.role = .leader → h'.node.hard = h.node.hard →
      (electorate voters).Won s.cast h.node.hard.currentTerm i)
    (hs : h.serve req = some (out, h')) :
    Yields voters shard s i h.replica out h'.replica := by
  obtain ⟨n, ⟨k, f⟩, now⟩ := h
  simp only at hfaults
  subst hfaults
  cases req with
  | tick =>
    cases hs
    exact Replica.Ok.tick hc hi rfl
  | propose op =>
    cases hs
    obtain ⟨s', ha, -⟩ := Replica.Ok.propose hc hi hmem hend op rfl
    exact ⟨s', ha, by simp⟩
  | flush =>
    cases hs
    exact Replica.Ok.flush hc hi rfl
  | stepDown =>
    cases hs
    exact Replica.Ok.stepDown hc hi hmem hend rfl
  | maybeSnapshot =>
    cases hs
    exact ⟨s, Replica.Ok.maybeSnapshot hc hi rfl, by simp⟩
  | handle sender msg =>
    simp only [serve, Option.some.injEq] at hs
    exact Replica.Ok.handle hc hi hmem (hm sender msg rfl) hend hkeep hwon hs
  | restart cfg =>
    simp only [serve] at hs
    split at hs
    · next hcfg =>
      split at hs
      · next n' st ho =>
        cases hs
        exact ⟨s, Replica.Ok.reopen hc hi hcfg ho, by simp⟩
      · cases hs
    · cases hs

end Rdsctl.Ha
