import Rdsctl.Lib.Settled
import Rdsctl.Ha.LogView
import Rdsctl.Ha.Election

/-!
# A cluster as replicas of a log

The `Replica` of a host is the part of it that replication depends on. `Replica.Ok` relates it to
the abstract `Replicas` with the voters of the cluster as members: the records are those of the
abstract log above the snapshot, a leader's log is that of its reign, what is committed or applied
is known to be chosen. `Message.Carries` relates messages to the history the abstract state keeps.
-/

namespace Rdsctl.Ha

open Fallible

/-- The replicated log of a cluster, with its history. -/
abbrev Copies : Type := Replicas String LogEntry

/-- The moves of a member of the cluster. -/
abbrev Moves (voters : List String) (i : String) : Copies → Copies → Prop :=
  Replicas.Acts (electorate voters) LogEntry.term i

/-- The invariant of the replicated log. -/
abbrev Copies.Inv (voters : List String) (s : Copies) : Prop :=
  Replicas.Inv (electorate voters) LogEntry.term s

/-- The part of a host that replication depends on. -/
structure Replica where
  cfg : RaftConfig
  hard : HardState
  role : Role
  campaign : Campaign
  log : Log
  sm : StateMachine
  commitIndex : Nat
  matchIndex : BTreeMap String Nat
  snapshotIndex : Nat
  snapshotTerm : Nat
  calls : List ApplyCall
  /-- the hard state the directory holds -/
  saved : HardState
  /-- the records of the log file -/
  file : List Record
  snapshot : Option SnapshotFile
  snapshotPrev : Option SnapshotFile

/-- The replica of a node and its directory. -/
def Node.replica (n : Node) (k : Disk) : Replica where
  cfg := n.cfg
  hard := n.hard
  role := n.role
  campaign := n.campaign
  log := n.log
  sm := n.sm
  commitIndex := n.commitIndex
  matchIndex := n.matchIndex
  snapshotIndex := n.snapshotIndex
  snapshotTerm := n.snapshotTerm
  calls := n.calls
  saved := k.hardState.getD HardState.default
  file := k.log
  snapshot := k.snapshot
  snapshotPrev := k.snapshotPrev

/-- The replica of a host. -/
def Host.replica (h : Host) : Replica := h.node.replica h.store.disk

variable [SerdeJson]

/-- The op that `apply_committed` reads out of a payload. -/
def opOfPayload (b : List UInt8) : Op :=
  match SerdeJson.opFromSlice b with
  | .ok op => op
  | .error _ => .noop

def LogEntry.op (e : LogEntry) : Op := opOfPayload (asBytes e.opJson)

/-- A call of `apply` hands over a settled entry at its index. -/
def ApplyCall.Ok (s : Copies) (call : ApplyCall) : Prop :=
  ∃ u e, s.Settled u call.index e ∧ call.term = e.term ∧ call.op = e.op

/-- A snapshot of the entries up to a settled one. -/
structure SnapshotFile.Ok (s : Copies) (u : Nat) (f : SnapshotFile) : Prop where
  verified : f.verify = .ok ()
  machine : ∃ sm, StateMachine.fromJson f.stateJson = .ok sm ∧
    sm.appliedIndex = f.lastIncludedIndex
  settled : ∃ e, s.Settled u f.lastIncludedIndex e ∧ e.term = f.lastIncludedTerm

namespace Replica

/-- The snapshot file, the position of the snapshot and the seed of the hash chain fit. -/
def Anchored (s : Copies) (u : Nat) (c : Replica) : Prop :=
  (c.snapshotIndex = 0 ∧ c.snapshot = none ∧ c.snapshotPrev = none ∧ c.log.seedHash = zeroHash) ∨
    ∃ f : SnapshotFile, c.snapshot = some f ∧ f.Ok s u ∧ f.lastIncludedIndex = c.snapshotIndex ∧
      f.lastIncludedTerm = c.snapshotTerm ∧ c.log.seedHash = f.seedBytes

/-- The node stands with its log, and nobody can have made it leader yet. -/
def Stands (s : Copies) (i : String) (c : Replica) : Prop :=
  s.bid i c.hard.currentTerm = some (s.log i) ∧
    ∀ r, s.reigns c.hard.currentTerm = some r → r.leader ≠ i

/-- Member `v` has acknowledged the log of term `t` up to `m`, or `m` is settled. -/
def Holding (s : Copies) (voters : List String) (t : Nat) (v : String) (m : Nat) : Prop :=
  v ∈ voters ∧ (m ≤ s.acked v t ∨ ∃ e, s.Settled t m e)

/-- The node leads with the log of its reign, and its match indices are earned. -/
structure Leads (voters : List String) (s : Copies) (i : String) (c : Replica) : Prop where
  reign : ∃ r, s.reigns c.hard.currentTerm = some r ∧ r.leader = i ∧ r.log = s.log i
  holding : ∀ v m, c.matchIndex[v]? = some m → Holding s voters c.hard.currentTerm v m

/-- The replica of member `i` agrees with the abstract state. -/
structure Ok (voters : List String) (shard : Nat) (s : Copies) (i : String)
    (c : Replica) : Prop where
  nodeId : c.cfg.nodeId = i
  members : c.cfg.voters = voters
  ofShard : c.cfg.shard = shard
  saved : c.saved = c.hard
  term : s.term i = c.hard.currentTerm
  cast : s.cast i c.hard.currentTerm = c.hard.votedFor
  stands : c.role = .candidate → c.campaign = .vote → c.Stands s i
  leads : c.role = .leader → c.Leads voters s i
  records : Log.Holds c.snapshotIndex c.log.entries (s.log i)
  logShard : c.log.shard = shard
  chained : Log.Chained shard c.log.seedHash c.log.entries
  file : c.file = c.log.entries
  anchored : c.Anchored s c.hard.currentTerm
  applied : c.snapshotIndex ≤ c.sm.appliedIndex ∧ c.sm.appliedIndex ≤ c.commitIndex
  committed : c.commitIndex ≤ max c.snapshotIndex (s.known i)
  calls : ∀ call ∈ c.calls, call.Ok s

end Replica

/-- A message agrees with the history: a vote request shows the log its candidate stood with, an
`AppendEntries` shows a part of the log of its term, an answer what its sender has acknowledged or
knows to be settled. -/
def Message.Carries (voters : List String) (s : Copies) : Message → Prop
  | .requestVote term candidate lastLogIndex lastLogTerm false _ =>
    ∃ b, s.bid candidate term = some b ∧ lastLogIndex = b.length ∧
      lastLogTerm = lastTm LogEntry.term b
  | .appendEntries term _ prevLogIndex prevLogTerm entries leaderCommit _ _ =>
    ∃ r, s.reigns term = some r ∧
      (prevLogIndex = 0 ∨ prevLogTerm = 0 ∨
        ∃ e, r.log[prevLogIndex - 1]? = some e ∧ e.term = prevLogTerm) ∧
      (∀ j e, entries[j]? = some e → e.index = prevLogIndex + 1 + j ∧
        r.log[prevLogIndex + j]? = some ⟨e.term, e.opJson⟩) ∧
      s.Knows term r.log leaderCommit
  | .appendEntriesResp term follower true matchIndex _ _ _ =>
    follower ∈ voters ∧ matchIndex ≤ s.acked follower term
  | .installSnapshot term _ snapshotJson => ∃ f, snapshotJson = .ofValue f ∧ f.Ok s term
  | .installSnapshotResp term follower true lastIncludedIndex =>
    follower ∈ voters ∧ ∃ e, s.Settled term lastIncludedIndex e
  | _ => True

/-! ## What survives the moves of others -/

variable {voters : List String} {shard : Nat} {s s' : Copies} {i v : String} {c c' : Replica}

theorem SnapshotFile.Ok.evolves {f : SnapshotFile} {u u' : Nat} (h : f.Ok s u)
    (hx : s.Evolves v s') (hu : u ≤ u') : f.Ok s' u' where
  verified := h.verified
  machine := h.machine
  settled := by
    obtain ⟨e, he, ht⟩ := h.settled
    exact ⟨e, (he.evolves hx).later hu, ht⟩

theorem ApplyCall.Ok.evolves {call : ApplyCall} (h : call.Ok s) (hx : s.Evolves v s') :
    call.Ok s' := by
  obtain ⟨u, e, he, h1, h2⟩ := h
  exact ⟨u, e, he.evolves hx, h1, h2⟩

theorem Replica.Anchored.evolves {u u' : Nat} (h : c.Anchored s u) (hx : s.Evolves v s')
    (hu : u ≤ u') : c.Anchored s' u' :=
  h.imp id fun ⟨f, hf, hok, h1, h2, h3⟩ => ⟨f, hf, hok.evolves hx hu, h1, h2, h3⟩

omit [SerdeJson] in
theorem Replica.Holding.evolves {t m : Nat} {w : String} (h : Holding s voters t w m)
    (hx : s.Evolves v s') : Holding s' voters t w m :=
  ⟨h.1, h.2.imp (fun hm => hm.trans (hx.acked w t)) fun ⟨e, he⟩ => ⟨e, he.evolves hx⟩⟩

/-- The moves of another member do not touch a replica. -/
theorem Replica.Ok.evolves (hc : c.Ok voters shard s i) (hx : s.Evolves v s')
    (hne : i ≠ v) : c.Ok voters shard s' i := by
  obtain ⟨hterm, hlog, hcast⟩ := hx.others i hne
  exact {
    nodeId := hc.nodeId
    members := hc.members
    ofShard := hc.ofShard
    saved := hc.saved
    term := hterm.trans hc.term
    cast := by rw [hcast, hc.cast]
    stands := by
      intro hr hcam
      obtain ⟨hb, hno⟩ := hc.stands hr hcam
      refine ⟨by rw [hlog]; exact hx.bid _ _ _ hb, fun r hr hl => ?_⟩
      exact hno r (hx.rest _ r hr (by rw [hl]; exact hne)) hl
    leads := by
      intro hr
      obtain ⟨⟨r, hr, hl, hlog'⟩, hm⟩ := hc.leads hr
      refine ⟨?_, fun w m h => (hm w m h).evolves hx⟩
      obtain ⟨r', hr', hl', -, -⟩ := hx.reigns.log hr
      -- nobody else adds to the log of the reign
      have hold := hx.rest _ r' hr' (by rw [hl', hl]; exact hne)
      rw [hr] at hold
      cases hold
      exact ⟨r, hr', hl, by rw [hlog, hlog']⟩
    records := by rw [hlog]; exact hc.records
    logShard := hc.logShard
    chained := hc.chained
    file := hc.file
    anchored := hc.anchored.evolves hx (Nat.le_refl _)
    applied := hc.applied
    committed := hc.committed.trans (max_le_max_left _ (hx.known i))
    calls := fun call h => (hc.calls call h).evolves hx }

theorem Message.Carries.evolves {msg : Message} (hi : s.Inv voters) (h : msg.Carries voters s)
    (hx : s.Evolves v s') : msg.Carries voters s' := by
  cases msg with
  | requestVote term candidate lastIndex lastTerm preVote senderMs =>
    cases preVote with
    | true => trivial
    | false =>
      obtain ⟨b, hb, h1, h2⟩ := h
      exact ⟨b, hx.bid _ _ _ hb, h1, h2⟩
  | requestVoteResp => trivial
  | appendEntries term leader prev prevTerm entries commit senderMs skew =>
    obtain ⟨r, hr, hp, hes, hk⟩ := h
    obtain ⟨r', hr', -, -, hle⟩ := hx.reigns.log hr
    refine ⟨r', hr', ?_, fun j e he => ?_, hi.knows_evolves hx hk (Nat.le_refl _) hle⟩
    · exact hp.imp id fun hp => hp.imp id fun ⟨e, he, ht⟩ => ⟨e, getElem?_mono hle he, ht⟩
    · exact ⟨(hes j e he).1, getElem?_mono hle (hes j e he).2⟩
  | appendEntriesResp term follower success m conflict senderMs echoMs =>
    cases success with
    | true => exact ⟨h.1, h.2.trans (hx.acked _ _)⟩
    | false => trivial
  | installSnapshot term leader json =>
    obtain ⟨f, hf, hok⟩ := h
    exact ⟨f, hf, hok.evolves hx (Nat.le_refl _)⟩
  | installSnapshotResp term follower success k =>
    cases success with
    | true =>
      obtain ⟨hf, e, he⟩ := h
      exact ⟨hf, e, he.evolves hx⟩
    | false => trivial
  | timeoutNow => trivial

end Rdsctl.Ha
