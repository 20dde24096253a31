import Mathlib.Data.Finset.Card
import Mathlib.Data.List.MinMax
import Mathlib.Data.Int.Lemmas
import Rdsctl.Ha.Log
import Rdsctl.Ha.Snapshot

/-!
# The state of a node

`src/ha/raft.rs`: the configuration, the messages, the fields of a node, and those of its methods
that touch no file. A method that reads the clock takes the time as an argument; the reads of one
call are one instant.
-/

namespace Rdsctl.Ha

inductive Role
  | follower
  | candidate
  | leader
deriving DecidableEq, Repr

/-- The phase of a campaign. -/
inductive Campaign
  | none
  | preVote
  | vote
deriving DecidableEq, Repr

def CLOCK_SAMPLE_WINDOW : Nat := 16
def CLOCK_SAMPLE_TTL_MS : Nat := 10000
def CLOCK_RTT_CORRECTION_CAP_MS : Nat := 2000

/-- One observation of a peer's clock. -/
structure ClockSample where
  offsetMs : Int
  rawMs : Int
  rttMs : Nat
  atMs : Nat
deriving DecidableEq, Repr

structure RaftConfig where
  nodeId : String
  shard : Nat
  voters : List String
  electionTimeoutMs : Nat × Nat
  heartbeatMs : Nat
  maxEntriesPerAppend : Nat
  snapshotEntryThreshold : Nat
  maxSkewMs : Nat
deriving DecidableEq, Repr

namespace RaftConfig

def new (nodeId : String) (shard : Nat) (voters : List String) : RaftConfig where
  nodeId := nodeId
  shard := shard
  voters := voters
  electionTimeoutMs := (1500, 3000)
  heartbeatMs := 300
  maxEntriesPerAppend := 256
  snapshotEntryThreshold := 50000
  maxSkewMs := 1000

def majority (c : RaftConfig) : Nat := c.voters.length / 2 + 1

def others (c : RaftConfig) : List String := c.voters.filter fun v => decide (v ≠ c.nodeId)

/-- The checks a configuration must pass before a node opens. -/
def validate (c : RaftConfig) : Except HaError Unit :=
  if c.voters.length < 3 then
    .error (.config ("voter 数不足(" ++ toString c.voters.length ++ "):至少 3 个才有多数派容错"))
  else if c.voters.length % 2 = 0 then
    .error (.config ("voter 数为偶数(" ++ toString c.voters.length ++ "):必须为奇数"))
  else if ¬ c.voters.Nodup then .error (.config "成员表存在重复 id")
  else if c.nodeId ∉ c.voters then
    .error (.config ("自身 " ++ c.nodeId ++ " 不在成员表中"))
  else if c.maxSkewMs = 0 then .error (.config "max_skew_ms 不能为 0(前提 A1)")
  else if c.heartbeatMs = 0 then .error (.config "心跳周期不能为 0")
  else if c.electionTimeoutMs.1 = 0 ∨ c.electionTimeoutMs.2 < c.electionTimeoutMs.1 then
    .error (.config ("选举超时区间非法:(" ++ toString c.electionTimeoutMs.1 ++ ", " ++
      toString c.electionTimeoutMs.2 ++ ")(需 0 < 下限 ≤ 上限)"))
  else if c.electionTimeoutMs.1 < satMul c.heartbeatMs 2 then
    .error (.config ("心跳周期 " ++ toString c.heartbeatMs ++ "ms 不得 ≥ 选举超时下限 " ++
      toString c.electionTimeoutMs.1 ++ "ms 的一半(时间参数必须同档):" ++
      "跨区/跨 AZ 部署请把两者一起放大,并保证选举超时 ≥ 4×实测 p99 RTT;" ++
      "见 docs/control-plane-ha-design.md §20 跨区部署"))
  else .ok ()

end RaftConfig

/-- A log entry on the wire. -/
structure EntryMeta where
  term : Nat
  index : Nat
  opJson : String
deriving DecidableEq, Repr

inductive Message
  | requestVote (term : Nat) (candidate : String) (lastLogIndex lastLogTerm : Nat)
      (preVote : Bool) (senderMs : Nat)
  | requestVoteResp (term : Nat) (voter : String) (granted : Bool) (senderMs echoMs : Nat)
  | appendEntries (term : Nat) (leader : String) (prevLogIndex prevLogTerm : Nat)
      (entries : List EntryMeta) (leaderCommit senderMs peerSkewMs : Nat)
  | appendEntriesResp (term : Nat) (follower : String) (success : Bool) (matchIndex : Nat)
      (conflictIndex : Option Nat) (senderMs echoMs : Nat)
  | installSnapshot (term : Nat) (leader : String) (snapshotJson : JsonText SnapshotFile)
  | installSnapshotResp (term : Nat) (follower : String) (success : Bool)
      (lastIncludedIndex : Nat)
  | timeoutNow (term : Nat) (leader : String)

def Message.term : Message → Nat
  | .requestVote t .. => t
  | .requestVoteResp t .. => t
  | .appendEntries t .. => t
  | .appendEntriesResp t .. => t
  | .installSnapshot t .. => t
  | .installSnapshotResp t .. => t
  | .timeoutNow t .. => t

/-- A pre-vote request: the one message that carries a term its sender is not in. -/
def Message.isPreVote : Message → Bool
  | .requestVote _ _ _ _ preVote _ => preVote
  | _ => false

structure Outbound where
  dest : String
  msg : Message
  critical : Bool

/-- A call of `StateMachine::apply` by `apply_committed`. -/
structure ApplyCall where
  index : Nat
  term : Nat
  op : Op

/-- The key an op writes. -/
def Op.writes : Op → Option String
  | .put key _ _ => some key
  | .delete key _ => some key
  | _ => none

/-- `Applied::is_ok`. -/
def Applied.isOk : Applied → Bool
  | .ok => true
  | _ => false

/-- What the state machine answers to an entry. -/
def StateMachine.outcome (sm : StateMachine) (a : ApplyCall) : Applied :=
  (sm.apply a.term a.index a.op).1

/-- What an entry makes of the state machine. -/
def StateMachine.after (sm : StateMachine) (a : ApplyCall) : StateMachine :=
  (sm.apply a.term a.index a.op).2

/-- The state machine after some entries, the oldest first. -/
def StateMachine.afterAll (sm : StateMachine) (log : List ApplyCall) : StateMachine :=
  log.foldl StateMachine.after sm

theorem StateMachine.afterAll_concat (sm : StateMachine) (log : List ApplyCall) (a : ApplyCall) :
    sm.afterAll (log ++ [a]) = (sm.afterAll log).after a := by
  simp [afterAll]

structure Node where
  cfg : RaftConfig
  log : Log
  sm : StateMachine
  hard : HardState
  role : Role
  commitIndex : Nat
  leaderId : Option String
  votes : Finset String
  preVotes : Finset String
  campaign : Campaign
  electionDeadlineMs : Nat
  lastHeartbeatMs : Nat
  nextIndex : BTreeMap String Nat
  matchIndex : BTreeMap String Nat
  peerAckMs : BTreeMap String Nat
  results : BTreeMap Nat Applied
  fsyncOk : Bool
  peerOffsetSamples : BTreeMap String (List ClockSample)
  rng : UInt64
  snapshotIndex : Nat
  snapshotTerm : Nat
  /-- The calls of `apply` this process has made, newest first. A history: no code reads it. -/
  calls : List ApplyCall

namespace Node

def term (n : Node) : Nat := n.hard.currentTerm

/-! ## Timers -/

/-- splitmix64: the next state of the generator and the number it yields. -/
def nextRand (rng : UInt64) : UInt64 × UInt64 :=
  let rng := rng + 0x9E3779B97F4A7C15
  let z := (rng ^^^ (rng >>> 30)) * 0xBF58476D1CE4E5B9
  let z := (z ^^^ (z >>> 27)) * 0x94D049BB133111EB
  (rng, z ^^^ (z >>> 31))

def seedRng (nodeId : String) (shard : Nat) : UInt64 :=
  let h := (asBytes nodeId).foldl (fun h b => (h ^^^ b.toUInt64) * 0x100000001b3)
    0xcbf29ce484222325
  h ^^^ (UInt64.ofNat shard * 0x9E3779B97F4A7C15)

def resetElectionDeadline (n : Node) (now : Nat) : Node :=
  let span := max (n.cfg.electionTimeoutMs.2 - n.cfg.electionTimeoutMs.1) 1
  let jitter := (nextRand n.rng).2.toNat % span
  { n with
    rng := (nextRand n.rng).1
    electionDeadlineMs := now + n.cfg.electionTimeoutMs.1 + jitter }

theorem resetElectionDeadline_frame (n : Node) (now : Nat) :
    ∃ rng electionDeadlineMs,
      n.resetElectionDeadline now = { n with rng, electionDeadlineMs } := ⟨_, _, rfl⟩

/-! ## Clock samples -/

/-- The conversion `u64 as i64`, and the wrapping of `i64` arithmetic. -/
def wrapI64 (x : Int) : Int := Int.bmod x (2 ^ 64)

def i64Max : Int := 2 ^ 63 - 1

/-- `i64::saturating_add`. -/
def satAddI64 (a b : Int) : Int := max (-2 ^ 63) (min (a + b) i64Max)

def pushSample (n : Node) (peer : String) (s : ClockSample) : Node :=
  let w := n.peerOffsetSamples.getD peer []
  let w := if CLOCK_SAMPLE_WINDOW ≤ w.length then w.tail else w
  { n with peerOffsetSamples := n.peerOffsetSamples.insert peer (w ++ [s]) }

/-- The one-way observation `sender_ms - local_ms`. -/
def rawOffset (senderMs localMs : Nat) : Int := wrapI64 (wrapI64 senderMs - wrapI64 localMs)

/-- An observation without a round trip. -/
def observeClock (n : Node) (peer : String) (senderMs localMs : Nat) : Node :=
  if senderMs = 0 then n
  else n.pushSample peer
    ⟨rawOffset senderMs localMs, rawOffset senderMs localMs, 0, localMs⟩

/-- An observation corrected by half the round trip. -/
def observeClockRtt (n : Node) (peer : String) (senderMs localMs echoMs : Nat) : Node :=
  if senderMs = 0 ∨ echoMs = 0 then n.observeClock peer senderMs localMs
  else
    let raw := rawOffset senderMs localMs
    let rtt := localMs - echoMs
    let corr : Nat := min (rtt / 2) CLOCK_RTT_CORRECTION_CAP_MS
    n.pushSample peer ⟨satAddI64 raw corr, raw, rtt, localMs⟩

/-- An estimate the peer reports. -/
def observePeerSkew (n : Node) (peer : String) (skewMs localMs : Nat) : Node :=
  let v : Int := min (skewMs : Int) i64Max
  n.pushSample peer ⟨v, v, 0, localMs⟩

def peerOffsetFiltered (n : Node) (peer : String) (now : Nat) : Option Int :=
  match n.peerOffsetSamples[peer]? with
  | none => none
  | some w =>
    let fresh := w.filter fun s => decide (now - s.atMs ≤ CLOCK_SAMPLE_TTL_MS)
    match (fresh.filter fun s => decide (0 < s.rttMs)).argmin (·.rttMs) with
    | some best => some best.offsetMs
    | none => (fresh.argmin (·.offsetMs.natAbs)).map (·.offsetMs)

def peerSkewEstimateMs (n : Node) (peer : String) (now : Nat) : Option Nat :=
  (n.peerOffsetFiltered peer now).map Int.natAbs

/-- What the clock observations change: the samples. -/
theorem pushSample_frame (n : Node) (peer : String) (s : ClockSample) :
    ∃ w, n.pushSample peer s = { n with peerOffsetSamples := w } := ⟨_, rfl⟩

theorem observeClock_frame (n : Node) (peer : String) (senderMs localMs : Nat) :
    ∃ w, n.observeClock peer senderMs localMs = { n with peerOffsetSamples := w } := by
  unfold observeClock
  split
  · exact ⟨n.peerOffsetSamples, rfl⟩
  · exact pushSample_frame n peer _

theorem observeClockRtt_frame (n : Node) (peer : String) (senderMs localMs echoMs : Nat) :
    ∃ w, n.observeClockRtt peer senderMs localMs echoMs = { n with peerOffsetSamples := w } := by
  unfold observeClockRtt
  split
  · exact observeClock_frame n peer senderMs localMs
  · exact pushSample_frame n peer _

/-! ## Reading the log -/

/-- The candidate's log is at least as far as this node's. -/
def logIsUpToDate (n : Node) (candLastIndex candLastTerm : Nat) : Bool :=
  if candLastTerm ≠ n.log.lastTerm then decide (n.log.lastTerm < candLastTerm)
  else decide (n.log.lastIndex ≤ candLastIndex)

/-- The term this node knows at `prev_log_index`: the snapshot's term at the snapshot. -/
def localTerm (n : Node) (index : Nat) : Option Nat :=
  if index = n.snapshotIndex then some n.snapshotTerm else n.log.termAt index

/-- The consistency check of `AppendEntries`. -/
def prevMatches (n : Node) (prevLogIndex prevLogTerm : Nat) : Bool :=
  prevLogIndex == 0 || n.localTerm prevLogIndex == some prevLogTerm

/-- The back-off hint of a failed check. -/
def conflictHint (n : Node) (prevLogIndex : Nat) : Nat :=
  min (max (n.log.firstIndex - 1) 1) (max prevLogIndex 1)

/-- The wire form of a record. -/
def entryMeta (r : Record) : EntryMeta := ⟨r.term, r.index, fromUtf8Lossy r.payload⟩

/-- The term a leader puts before the entries it sends. -/
def prevTermFor (n : Node) (prevIndex : Nat) : Nat :=
  if prevIndex = 0 then 0
  else if prevIndex = n.snapshotIndex then n.snapshotTerm
  else (n.log.termAt prevIndex).getD 0

def commitTo (n : Node) (index : Nat) : Node := { n with commitIndex := index }

section
variable [SerdeJson]

/-- What the leader sends to `peer`: the entries from its `next_index`, or the snapshot when these
are compacted away. -/
def appendFor (n : Node) (k : Disk) (now : Nat) (peer : String) : List Outbound :=
  let next := n.nextIndex.getD peer (n.log.lastIndex + 1)
  let append : List Outbound :=
    [{ dest := peer
       msg := .appendEntries n.hard.currentTerm n.cfg.nodeId (next - 1) (n.prevTermFor (next - 1))
         (((n.log.entriesFrom next).take n.cfg.maxEntriesPerAppend).map entryMeta)
         n.commitIndex now ((n.peerSkewEstimateMs peer now).getD 0)
       critical := true }]
  if next ≤ n.snapshotIndex ∧ 0 < n.snapshotIndex then
    match Snapshot.load k with
    | .ok (some s) =>
      [{ dest := peer
         msg := .installSnapshot n.hard.currentTerm n.cfg.nodeId (JsonText.toString s)
         critical := false }]
    | _ => append
  else append

def broadcastAppend (n : Node) (k : Disk) (now : Nat) : List Outbound :=
  n.cfg.others.flatMap (n.appendFor k now)

/-! ## Committing and applying -/

/-- Drop the oldest results beyond the newest 4096. -/
def trimResults : Nat → BTreeMap Nat Applied → BTreeMap Nat Applied
  | 0, m => m
  | fuel + 1, m =>
    if 4096 < m.size then
      match m.minKey? with
      | some k => trimResults fuel (m.erase k)
      | none => m
    else m

/-- Hand one record to the state machine. A payload that spells no op counts as a `Noop`, and its
result is not kept. -/
def applyRecord (n : Node) (idx : Nat) (r : Record) : Node :=
  match SerdeJson.opFromSlice r.payload with
  | .ok op =>
    let (applied, sm) := n.sm.apply r.term idx op
    { n with sm, results := n.results.insert idx applied, calls := ⟨idx, r.term, op⟩ :: n.calls }
  | .error _ =>
    { n with sm := (n.sm.apply r.term idx .noop).2, calls := ⟨idx, r.term, .noop⟩ :: n.calls }

/-- Apply the next `fuel` committed records, as long as the log has them. -/
def applyLoop : Nat → Node → Node
  | 0, n => n
  | fuel + 1, n =>
    match n.log.get (n.sm.appliedIndex + 1) with
    | none => n
    | some r => applyLoop fuel (n.applyRecord (n.sm.appliedIndex + 1) r)

def applyCommitted (n : Node) : Node :=
  let n := applyLoop (n.commitIndex - n.sm.appliedIndex) n
  { n with results := trimResults n.results.size n.results }

/-- How many members are known to hold index `i`. -/
def matchCount (n : Node) (i : Nat) : Nat :=
  (n.matchIndex.values.filter fun m => decide (i ≤ m)).length

/-- One turn of the loop of `advance_commit`. -/
def commitAt (n : Node) (commit i : Nat) : Nat :=
  if n.log.termAt i ≠ some n.hard.currentTerm then commit
  else if n.cfg.majority ≤ n.matchCount i then i
  else commit

def advanceCommit (n : Node) : Node :=
  let range := List.range' (n.commitIndex + 1) (n.log.lastIndex - n.commitIndex)
  applyCommitted (n.commitTo (range.foldl n.commitAt n.commitIndex))

/-- What applying changes: the state machine, the results and the history of calls. -/
theorem applyRecord_frame (n : Node) (idx : Nat) (r : Record) :
    ∃ sm results calls, n.applyRecord idx r = { n with sm, results, calls } := by
  unfold applyRecord
  split
  · exact ⟨_, _, _, rfl⟩
  · exact ⟨_, n.results, _, rfl⟩

theorem applyLoop_frame (fuel : Nat) (n : Node) :
    ∃ sm results calls, applyLoop fuel n = { n with sm, results, calls } := by
  induction fuel generalizing n with
  | zero => exact ⟨n.sm, n.results, n.calls, rfl⟩
  | succ fuel ih =>
    rw [applyLoop]
    split
    · exact ⟨n.sm, n.results, n.calls, rfl⟩
    · next r _ =>
      obtain ⟨sm, results, calls, h⟩ := applyRecord_frame n (n.sm.appliedIndex + 1) r
      rw [h]
      exact ih { n with sm, results, calls }

theorem applyCommitted_frame (n : Node) :
    ∃ sm results calls, n.applyCommitted = { n with sm, results, calls } := by
  obtain ⟨sm, results, calls, h⟩ := applyLoop_frame (n.commitIndex - n.sm.appliedIndex) n
  exact ⟨sm, _, calls, by rw [applyCommitted, h]⟩

theorem advanceCommit_frame (n : Node) :
    ∃ commitIndex sm results calls,
      n.advanceCommit = { n with commitIndex, sm, results, calls } := by
  obtain ⟨sm, results, calls, h⟩ := applyCommitted_frame
    (n.commitTo ((List.range' (n.commitIndex + 1)
      (n.log.lastIndex - n.commitIndex)).foldl n.commitAt n.commitIndex))
  exact ⟨_, sm, results, calls, h⟩

end

def resultOf (n : Node) (index : Nat) : Option Applied := n.results[index]?

/-- Drop to follower, without touching the term. -/
def retire (n : Node) (leader : Option String) : Node :=
  { n with
    role := .follower
    campaign := .none
    leaderId := leader
    votes := ∅
    preVotes := ∅ }

/-- In a higher term, in which it has not voted. -/
def inTerm (n : Node) (term : Nat) : Node := { n with hard := ⟨term, none⟩ }

/-- In the next term, with a vote for itself. -/
def nextTerm (n : Node) : Node :=
  { n with hard := ⟨n.hard.currentTerm + 1, some n.cfg.nodeId⟩ }

def voteFor (n : Node) (candidate : String) : Node :=
  { n with hard := { n.hard with votedFor := some candidate } }

/-- Standing in an election, its own vote counted. -/
def stand (n : Node) : Node :=
  { n with
    role := .candidate
    campaign := .vote
    leaderId := none
    votes := {n.cfg.nodeId}
    preVotes := ∅ }

def countPreVote (n : Node) (voter : String) : Node :=
  { n with preVotes := insert voter n.preVotes }

def countVote (n : Node) (voter : String) : Node := { n with votes := insert voter n.votes }

/-- The fields of a node that has just won. -/
def takeLead (n : Node) (now : Nat) : Node :=
  let last := n.log.lastIndex
  { n with
    role := .leader
    leaderId := some n.cfg.nodeId
    nextIndex := n.cfg.voters.foldl (fun m v => m.insert v (last + 1)) ∅
    matchIndex := n.cfg.voters.foldl (fun m v => m.insert v 0) ∅
    lastHeartbeatMs := now
    peerAckMs := n.peerAckMs.insert n.cfg.nodeId now }

/-- A peer answered. -/
def acked (n : Node) (peer : String) (now : Nat) : Node :=
  { n with peerAckMs := n.peerAckMs.insert peer now }

/-- The observations an `AppendEntries` allows: the estimate the leader sends back, else the
one-way offset. -/
def observeLeader (n : Node) (leader : String) (senderMs peerSkewMs now : Nat) : Node :=
  if 0 < peerSkewMs then (n.acked leader now).observePeerSkew leader peerSkewMs now
  else (n.acked leader now).observeClock leader senderMs now

/-- The time of the last heartbeat, sent or received. -/
def heard (n : Node) (now : Nat) : Node := { n with lastHeartbeatMs := now }

/-- A follower is known to hold the log up to `index`. -/
def matched (n : Node) (follower : String) (index : Nat) : Node :=
  { n with
    matchIndex := n.matchIndex.insert follower index
    nextIndex := n.nextIndex.insert follower (index + 1) }

def matchedSelf (n : Node) (index : Nat) : Node :=
  { n with matchIndex := n.matchIndex.insert n.cfg.nodeId index }

def snapshotAt (n : Node) (index term : Nat) : Node :=
  { n with snapshotIndex := index, snapshotTerm := term }

def startPreVote (n : Node) (now : Nat) : Node :=
  let n := n.resetElectionDeadline now
  if n.role = .leader then n
  else
    { n with
      role := .candidate
      campaign := .preVote
      leaderId := none
      preVotes := {n.cfg.nodeId}
      votes := ∅ }

def sendToOthers (n : Node) (msg : Message) : List Outbound :=
  n.cfg.others.map fun dest => ⟨dest, msg, true⟩

def quorumOk (n : Node) (now : Nat) : Bool :=
  let window := max (satMul n.cfg.heartbeatMs 4) (satMul n.cfg.electionTimeoutMs.1 3)
  let alive := n.cfg.others.filter fun o =>
    match n.peerAckMs[o]? with
    | some t => decide (now - t ≤ window)
    | none => false
  decide (n.cfg.majority ≤ 1 + alive.length)

end Node

end Rdsctl.Ha
