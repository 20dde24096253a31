import Rdsctl.Ha.Node

/-!
# The consensus core

`src/ha/raft.rs`: the methods of a node that may write files. A call runs on a `Host`, the node
with its directory and the time, and keeps what it did when it fails part way (`Fallible`).
-/

namespace Rdsctl.Ha

open Fallible

/-- A node, its directory, and the time its clock shows. -/
structure Host where
  node : Node
  store : Store
  now : Nat

/-- A method of a node. -/
abbrev HostM (α : Type) : Type := Fallible HaError Host α

namespace Host

/-- Change the node. -/
def modifyNode (f : Node → Node) : HostM Unit := update fun h => { h with node := f h.node }

/-- A computation on the files. -/
def onStore {α : Type} (m : StoreM α) : HostM α :=
  zoom Host.store (fun st h => { h with store := st }) m

/-- A method of the log, whose new value the node keeps when it succeeds. -/
def onLog (f : Log → StoreM Log) : HostM Unit := do
  let h ← get
  let l ← onStore (f h.node.log)
  modifyNode fun n => { n with log := l }

/-- Write the hard state: temporary file, fsync, rename, fsync of the directory. -/
def persistHardState : HostM Unit := do
  let h ← get
  onStore do
    fileOp .node fun k => { k with hardTmp := none }
    fileOp .node fun k => { k with hardTmp := some h.node.hard }
    fileOp .node id
    fileOp .node fun k => { k with hardState := k.hardTmp, hardTmp := none }
    fileOp .node id

@[simp] theorem exec_modifyNode (f : Node → Node) (h : Host) :
    exec (modifyNode f) h = (.ok (), { h with node := f h.node }) := rfl

@[simp] theorem exec_modifyNode_bind {α : Type} (f : Node → Node) (g : Unit → HostM α) (h : Host) :
    exec (modifyNode f >>= g) h = exec (g ()) { h with node := f h.node } :=
  exec_update_bind _ _ _

/-- A computation on the files of a host. -/
theorem exec_onStore {α : Type} (m : StoreM α) (h : Host) :
    exec (onStore m) h = ((exec m h.store).1, { h with store := (exec m h.store).2 }) := rfl

def becomeFollower (term : Nat) (leader : Option String) : HostM Unit := do
  let h ← get
  if h.node.hard.currentTerm < term then
    modifyNode fun n => n.inTerm term
    persistHardState
  modifyNode fun n => n.retire leader

section
variable [SerdeJson]

def startElection : HostM (List Outbound) := do
  modifyNode Node.nextTerm
  persistHardState
  modifyNode Node.stand
  let h ← get
  modifyNode fun n => n.resetElectionDeadline h.now
  let h ← get
  pure (h.node.sendToOthers (.requestVote h.node.hard.currentTerm h.node.cfg.nodeId
    h.node.log.lastIndex h.node.log.lastTerm false h.now))

def tick : HostM (List Outbound) := do
  let h ← get
  if h.node.role = .leader then
    if h.node.cfg.heartbeatMs ≤ h.now - h.node.lastHeartbeatMs then
      modifyNode fun n => n.heard h.now
      pure (h.node.broadcastAppend h.store.disk h.now)
    else pure []
  else if h.node.electionDeadlineMs ≤ h.now then
    modifyNode fun n => n.startPreVote h.now
    let h ← get
    if h.node.campaign = .preVote then
      pure (h.node.sendToOthers (.requestVote (h.node.hard.currentTerm + 1) h.node.cfg.nodeId
        h.node.log.lastIndex h.node.log.lastTerm true h.now))
    else pure []
  else pure []

/-- Append to the log; a failure marks the node as degraded. -/
def appendBatch (batch : List PendingEntry) : HostM Unit :=
  onError (onLog fun l => l.appendBatch batch)
    fun h => { h with node := { h.node with fsyncOk := false } }

/-- The leader appends an op to its log and syncs; the index of the op. -/
def appendLocal (op : Op) : HostM Nat := do
  let h ← get
  if h.node.role ≠ .leader then throw (.notLeader h.node.leaderId)
  else
    let index := h.node.log.lastIndex + 1
    let entry : PendingEntry :=
      ⟨KIND_ENTRY, h.node.hard.currentTerm, index, asBytes (SerdeJson.opToString op)⟩
    appendBatch [entry]
    modifyNode fun n => n.matchedSelf index
    pure index

def propose (op : Op) : HostM Nat := appendLocal op

def flush : HostM (List Outbound) := do
  let h ← get
  if h.node.role = .leader then
    modifyNode fun n => n.heard h.now
    pure (h.node.broadcastAppend h.store.disk h.now)
  else pure []

def becomeLeader : HostM (List Outbound) := do
  let h ← get
  modifyNode fun n => n.takeLead h.now
  -- the first entry of the term: committing it commits what is before it
  let _ ← appendLocal .noop
  let h ← get
  pure (h.node.broadcastAppend h.store.disk h.now)

/-! ## Handling a message -/

/-- A higher term makes the node a follower in it, unless the message is a pre-vote. -/
def adoptTerm (msg : Message) : HostM Unit := do
  let h ← get
  if h.node.hard.currentTerm < msg.term ∧ msg.isPreVote = false then
    becomeFollower msg.term none

/-- The answer to a vote request. -/
def voteResp (n : Node) (candidate : String) (granted : Bool) (now echoMs : Nat) : Outbound :=
  ⟨candidate, .requestVoteResp n.hard.currentTerm n.cfg.nodeId granted now echoMs, false⟩

/-- Whether a pre-vote is granted: a higher term, a log as far, and no leader heard of lately. -/
def preVoteGranted (n : Node) (now term lastLogIndex lastLogTerm : Nat) : Bool :=
  let leaderAlive := n.leaderId.isSome && decide (now - n.lastHeartbeatMs < n.cfg.electionTimeoutMs.1)
  decide (n.hard.currentTerm < term) && n.logIsUpToDate lastLogIndex lastLogTerm && !leaderAlive

/-- Whether a vote is granted. -/
def voteGranted (n : Node) (term : Nat) (candidate : String) (lastLogIndex lastLogTerm : Nat) :
    Bool :=
  let canVote := n.hard.votedFor.isNone || n.hard.votedFor == some candidate
  term == n.hard.currentTerm && canVote && n.logIsUpToDate lastLogIndex lastLogTerm

def handleRequestVote (sender : String) (term : Nat) (candidate : String)
    (lastLogIndex lastLogTerm : Nat) (preVote : Bool) (senderMs : Nat) :
    HostM (List Outbound) := do
  let h ← get
  modifyNode fun n => (n.acked sender h.now).observeClock sender senderMs h.now
  let h ← get
  if preVote then
    pure [voteResp h.node candidate
      (preVoteGranted h.node h.now term lastLogIndex lastLogTerm) h.now senderMs]
  else if term < h.node.hard.currentTerm then
    pure [voteResp h.node candidate false h.now senderMs]
  else if voteGranted h.node term candidate lastLogIndex lastLogTerm then
    modifyNode fun n => n.voteFor candidate
    persistHardState
    modifyNode fun n => n.resetElectionDeadline h.now
    let h ← get
    pure [voteResp h.node candidate true h.now senderMs]
  else pure [voteResp h.node candidate false h.now senderMs]

def handleRequestVoteResp (term : Nat) (voter : String) (granted : Bool)
    (senderMs echoMs : Nat) : HostM (List Outbound) := do
  let h ← get
  modifyNode fun n => (n.acked voter h.now).observeClockRtt voter senderMs h.now echoMs
  let h ← get
  if term ≠ h.node.hard.currentTerm ∨ granted = false then pure []
  else if h.node.role ≠ .candidate then pure []
  else match h.node.campaign with
    -- a majority of pre-votes only starts the real election
    | .preVote => do
      modifyNode fun n => n.countPreVote voter
      let h ← get
      if h.node.cfg.majority ≤ h.node.preVotes.card then startElection else pure []
    | .vote => do
      modifyNode fun n => n.countVote voter
      let h ← get
      if h.node.cfg.majority ≤ h.node.votes.card then becomeLeader else pure []
    | .none => pure []

/-- The answer to `AppendEntries`. -/
def appendResp (n : Node) (dest : String) (success : Bool) (matchIndex : Nat)
    (conflictIndex : Option Nat) (now echoMs : Nat) : Outbound :=
  ⟨dest, .appendEntriesResp n.hard.currentTerm n.cfg.nodeId success matchIndex conflictIndex now
    echoMs, false⟩

/-- The record to append for an entry received. -/
def pendingOf (e : EntryMeta) : PendingEntry := ⟨KIND_ENTRY, e.term, e.index, asBytes e.opJson⟩

/-- Cut the log where the first entry of the batch conflicts with it. Later entries are not
compared. -/
def cutConflict : List EntryMeta → HostM Unit
  | [] => pure ()
  | first :: _ => do
    let h ← get
    match h.node.log.termAt first.index with
    | some t => if first.term ≠ t then onLog fun l => l.truncateSuffix first.index else pure ()
    | none => pure ()

/-- Append the entries of the batch at whose index the log has no record. -/
def appendMissing (entries : List EntryMeta) : HostM Unit := do
  let h ← get
  let pending := (entries.filter fun e => (h.node.log.get e.index).isNone).map pendingOf
  if pending.isEmpty then pure ()
  else appendBatch pending

/-- The follower's commit index after an `AppendEntries`, bounded by its own last index. -/
def followCommit (leaderCommit : Nat) (n : Node) : Node :=
  let newCommit := min leaderCommit n.log.lastIndex
  if n.commitIndex < newCommit then (n.commitTo newCommit).applyCommitted else n

/-- Append what is missing of the batch, commit, and answer. -/
def appendAndAnswer (leader : String) (entries : List EntryMeta) (leaderCommit senderMs : Nat) :
    HostM (List Outbound) := do
  appendMissing entries
  modifyNode (followCommit leaderCommit)
  let h ← get
  pure [appendResp h.node leader true h.node.log.lastIndex none h.now senderMs]

/-- Check the batch against the log and take it over. -/
def takeEntries (leader : String) (prevLogIndex prevLogTerm : Nat) (entries : List EntryMeta)
    (leaderCommit senderMs : Nat) : HostM (List Outbound) := do
  let h ← get
  if h.node.prevMatches prevLogIndex prevLogTerm = false then
    pure [appendResp h.node leader false 0 (some (h.node.conflictHint prevLogIndex)) h.now senderMs]
  else do
    cutConflict entries
    appendAndAnswer leader entries leaderCommit senderMs

def handleAppendEntries (term : Nat) (leader : String) (prevLogIndex prevLogTerm : Nat)
    (entries : List EntryMeta) (leaderCommit senderMs peerSkewMs : Nat) :
    HostM (List Outbound) := do
  let h ← get
  modifyNode fun n => n.observeLeader leader senderMs peerSkewMs h.now
  let h ← get
  if term < h.node.hard.currentTerm then
    pure [appendResp h.node leader false 0 (some h.node.log.lastIndex) h.now senderMs]
  else do
    becomeFollower term (some leader)
    modifyNode fun n => (n.heard h.now).resetElectionDeadline h.now
    takeEntries leader prevLogIndex prevLogTerm entries leaderCommit senderMs

def handleAppendEntriesResp (term : Nat) (follower : String) (success : Bool)
    (matchIndex : Nat) (conflictIndex : Option Nat) (senderMs echoMs : Nat) :
    HostM (List Outbound) := do
  let h ← get
  modifyNode fun n => (n.acked follower h.now).observeClockRtt follower senderMs h.now echoMs
  let h ← get
  if h.node.hard.currentTerm < term then do
    becomeFollower term none
    pure []
  else if h.node.role ≠ .leader ∨ term ≠ h.node.hard.currentTerm then pure []
  else if success then do
    modifyNode fun n => (n.matched follower matchIndex).advanceCommit
    pure []
  else do
    let hint := conflictIndex.getD 1
    let cur := h.node.nextIndex.getD follower (h.node.log.lastIndex + 1)
    let next := max (max (min cur hint) (h.node.snapshotIndex + 1)) 1
    modifyNode fun n => { n with nextIndex := n.nextIndex.insert follower next }
    let h ← get
    pure (h.node.appendFor h.store.disk h.now follower)

/-- The answer to `InstallSnapshot`. -/
def installResp (n : Node) (dest : String) (lastIncludedIndex : Nat) : Outbound :=
  ⟨dest, .installSnapshotResp n.hard.currentTerm n.cfg.nodeId true lastIncludedIndex, false⟩

/-- Replace the state machine, the snapshot file and the prefix of the log by a snapshot. -/
def installSnapshot (snap : SnapshotFile) : HostM Unit :=
  match StateMachine.fromJson snap.stateJson with
  | .error e => throw (.corrupt ("快照状态机解析失败:" ++ e))
  | .ok sm => do
    onStore (Snapshot.save snap)
    modifyNode fun n => { n with sm }
    onLog fun l => l.compactUpto snap.lastIncludedIndex snap.seedBytes
    modifyNode fun n => (n.snapshotAt snap.lastIncludedIndex snap.lastIncludedTerm).commitTo
      (max n.commitIndex snap.lastIncludedIndex)

/-- Check the snapshot and install it, unless the node has one as new. -/
def takeSnapshot (leader : String) (snapshotJson : JsonText SnapshotFile) :
    HostM (List Outbound) :=
  match snapshotJson.fromStr with
  | .error e => throw (.corrupt ("InstallSnapshot 解析失败:" ++ e))
  | .ok snap =>
    match snap.verify with
    | .error e => throw e
    | .ok () => do
      let h ← get
      if snap.lastIncludedIndex ≤ h.node.snapshotIndex then
        pure [installResp h.node leader h.node.snapshotIndex]
      else do
        installSnapshot snap
        let h ← get
        pure [installResp h.node leader snap.lastIncludedIndex]

def handleInstallSnapshot (term : Nat) (leader : String) (snapshotJson : JsonText SnapshotFile) :
    HostM (List Outbound) := do
  let h ← get
  modifyNode fun n => n.acked leader h.now
  if term < h.node.hard.currentTerm then pure []
  else do
    becomeFollower term (some leader)
    modifyNode fun n => n.heard h.now
    takeSnapshot leader snapshotJson

def handleInstallSnapshotResp (term : Nat) (follower : String) (success : Bool)
    (lastIncludedIndex : Nat) : HostM (List Outbound) := do
  let h ← get
  modifyNode fun n => n.acked follower h.now
  if h.node.hard.currentTerm < term then do
    becomeFollower term none
    pure []
  else if h.node.role = .leader ∧ success = true then do
    modifyNode fun n => n.matched follower lastIncludedIndex
    pure []
  else pure []

def handleTimeoutNow (term : Nat) : HostM (List Outbound) := do
  let h ← get
  if term < h.node.hard.currentTerm then pure []
  else if h.node.cfg.nodeId ∉ h.node.cfg.voters then pure []
  else do
    modifyNode fun n => n.resetElectionDeadline h.now
    startElection

def handleInner (sender : String) (msg : Message) : HostM (List Outbound) := do
  adoptTerm msg
  match msg with
  | .requestVote term candidate lastLogIndex lastLogTerm preVote senderMs =>
    handleRequestVote sender term candidate lastLogIndex lastLogTerm preVote senderMs
  | .requestVoteResp term voter granted senderMs echoMs =>
    handleRequestVoteResp term voter granted senderMs echoMs
  | .appendEntries term leader prevLogIndex prevLogTerm entries leaderCommit senderMs peerSkewMs =>
    handleAppendEntries term leader prevLogIndex prevLogTerm entries leaderCommit senderMs
      peerSkewMs
  | .appendEntriesResp term follower success matchIndex conflictIndex senderMs echoMs =>
    handleAppendEntriesResp term follower success matchIndex conflictIndex senderMs echoMs
  | .installSnapshot term leader snapshotJson => handleInstallSnapshot term leader snapshotJson
  | .timeoutNow term _ => handleTimeoutNow term
  | .installSnapshotResp term follower success lastIncludedIndex =>
    handleInstallSnapshotResp term follower success lastIncludedIndex

/-- Handle a message. An error marks the node as degraded and sends nothing. -/
def handle (sender : String) (msg : Message) (h : Host) : List Outbound × Host :=
  match exec (handleInner sender msg) h with
  | (.ok out, h') => (out, h')
  | (.error _, h') => ([], { h' with node := { h'.node with fsyncOk := false } })

/-! ## Snapshots, stepping down, opening -/

def maybeSnapshot : HostM Bool := do
  let h ← get
  let n := h.node
  let threshold := n.cfg.snapshotEntryThreshold
  let upto := n.sm.appliedIndex
  if threshold = 0 ∨ n.log.len ≤ threshold then pure false
  else if upto = 0 ∨ upto ≤ n.snapshotIndex then pure false
  else do
    let term := (n.log.termAt upto).getD n.sm.appliedTerm
    let snap := SnapshotFile.new n.cfg.shard upto term n.sm.configEpoch n.sm.toJson
    onStore Log.sync
    onStore (Snapshot.save snap)
    onLog fun l => l.compactUpto upto snap.seedBytes
    modifyNode fun n => n.snapshotAt upto term
    pure true

/-- The member the leadership goes to: the first one with the largest match index. -/
def successor (n : Node) : Option (String × Nat) :=
  n.cfg.others.foldl (fun best v =>
    let m := n.matchIndex.getD v 0
    match best with
    | none => some (v, m)
    | some (_, bm) => if bm < m then some (v, m) else best) none

def stepDown : HostM (List Outbound) := do
  let h ← get
  if h.node.role ≠ .leader then pure []
  else do
    ignore (appendLocal .noop)
    let h ← get
    let outs := h.node.broadcastAppend h.store.disk h.now
    let transfer : List Outbound :=
      match successor h.node with
      | some (t, _) =>
        if h.node.log.lastIndex ≤ h.node.matchIndex.getD t 0 then
          [⟨t, .timeoutNow h.node.hard.currentTerm h.node.cfg.nodeId, false⟩]
        else []
      | none => []
    becomeFollower h.node.hard.currentTerm none
    -- a grace period in which the old leader does not stand again
    modifyNode fun n =>
      { n.resetElectionDeadline h.now with
        electionDeadlineMs := h.now + satMul n.cfg.electionTimeoutMs.2 2 }
    pure (outs ++ transfer)

/-- The node built from what its directory holds. -/
def opened (cfg : RaftConfig) (log : Log) (sm : StateMachine) (hard : HardState)
    (snap : Option SnapshotFile) : Node where
  cfg := cfg
  log := log
  sm := sm
  hard := hard
  role := .follower
  commitIndex := (snap.map (·.lastIncludedIndex)).getD 0
  leaderId := none
  votes := ∅
  preVotes := ∅
  campaign := .none
  electionDeadlineMs := 0
  lastHeartbeatMs := 0
  nextIndex := ∅
  matchIndex := ∅
  peerAckMs := ∅
  results := ∅
  fsyncOk := true
  peerOffsetSamples := ∅
  rng := Node.seedRng cfg.nodeId cfg.shard
  snapshotIndex := (snap.map (·.lastIncludedIndex)).getD 0
  snapshotTerm := (snap.map (·.lastIncludedTerm)).getD 0
  calls := []

/-- The state machine a node starts from: the snapshot's, or an empty one. -/
def startMachine (cfg : RaftConfig) : Option SnapshotFile → Except String StateMachine
  | some s => StateMachine.fromJson s.stateJson
  | none => .ok (StateMachine.new cfg.shard cfg.maxSkewMs)

/-- The hash the log's chain starts from. -/
def seedOf (snap : Option SnapshotFile) : Hash := (snap.map SnapshotFile.seedBytes).getD zeroHash

/-- Open the log over a snapshot, read the hard state and apply what is committed. -/
def openOver (cfg : RaftConfig) (now : Nat) (snap : Option SnapshotFile) (sm : StateMachine) :
    StoreM Node := do
  let log ← Log.open' cfg.shard (seedOf snap)
  let st ← get
  pure ((opened cfg log sm (st.disk.hardState.getD HardState.default) snap).resetElectionDeadline
    now).applyCommitted

/-- Open a node: snapshot, state machine, log, hard state. -/
def openNode (cfg : RaftConfig) (now : Nat) : StoreM Node :=
  match cfg.validate with
  | .error e => throw e
  | .ok () => do
    fileOp .node id
    let st ← get
    match Snapshot.load st.disk with
    | .error e => throw e
    | .ok snap =>
      match startMachine cfg snap with
      | .error e => throw (.corrupt ("快照状态机解析失败:" ++ e))
      | .ok sm => openOver cfg now snap sm

end

end Host

end Rdsctl.Ha
