import Rdsctl.Ha.Process

/-!
# What every call leaves alone

The calls of `src/ha/raft.rs` change what the others turn on, and the files of a node, in a few
places only. A relation that holds over these places holds over every call (`CallRule.serve`).
-/

namespace Rdsctl.Ha

open Fallible

/-- What the calls of a node turn on, besides clocks and the counts of a leader. -/
def Node.core (n : Node) :
    RaftConfig × HardState × Role × Campaign × Finset String × Log × Nat × Nat :=
  (n.cfg, n.hard, n.role, n.campaign, n.preVotes, n.log, n.snapshotIndex, n.snapshotTerm)

/-- The message is part of an election: it is counted, or it starts one. -/
def Message.elects : Message → Bool
  | .requestVoteResp .. => true
  | .timeoutNow .. => true
  | _ => false

namespace Host

variable [SerdeJson]

/-- A relation holds over what the calls are made of, where terms up to `t` are heard of. -/
structure CallRule (t : Nat) (R : Host → Host → Prop) : Prop where
  refl : ∀ h, R h h
  trans : ∀ a b c, R a b → R b c → R a c
  quiet : ∀ f : Node → Node, (∀ n, (f n).core = n.core) → Respects R (modifyNode f)
  follow : ∀ term leader h, term ≤ max h.node.hard.currentTerm t →
    R h (exec (becomeFollower term leader) h).2
  votes : ∀ candidate, Respects R (modifyNode fun n => n.voteFor candidate)
  leads : ∀ now, Respects R (modifyNode fun n => n.takeLead now)
  persist : Respects R persistHardState
  append : ∀ batch, Respects R (appendBatch batch)
  truncate : ∀ start, Respects R (onLog fun l => l.truncateSuffix start)
  install : ∀ f h, f.verify = .ok () → h.node.snapshotIndex < f.lastIncludedIndex →
    R h (exec (installSnapshot f) h).2
  snapshot : Respects R maybeSnapshot

/-- It holds over the steps of an election, too. -/
structure ElectionRule (R : Host → Host → Prop) : Prop where
  asks : ∀ now, Respects R (modifyNode fun n => n.startPreVote now)
  counts : ∀ voter, Respects R (modifyNode fun n => n.countPreVote voter)
  stands : Respects R startElection

namespace CallRule

variable {t : Nat} {R : Host → Host → Prop}

theorem stdRefl (hr : CallRule t R) : Std.Refl R := ⟨hr.refl⟩

theorem isTrans (hr : CallRule t R) : IsTrans Host R := ⟨hr.trans⟩

omit [SerdeJson] in
/-- What is read comes before the rest. -/
theorem read {α : Type} {f : Host → HostM α} (h : ∀ s, Respects R (f s)) :
    Respects R (get >>= f) :=
  .read fun s => h s s

theorem reset (hr : CallRule t R) (f : Node → Node) (now : Nat) (hf : ∀ n, (f n).core = n.core) :
    Respects R (modifyNode fun n => (f n).resetElectionDeadline now) := by
  refine hr.quiet _ fun n => ?_
  obtain ⟨_, _, hn⟩ := (f n).resetElectionDeadline_frame now
  rw [hn]
  exact hf n

theorem observed (hr : CallRule t R) (peer : String) (senderMs now : Nat) :
    Respects R (modifyNode fun n => (n.acked peer now).observeClock peer senderMs now) := by
  refine hr.quiet _ fun n => ?_
  obtain ⟨_, hn⟩ := (n.acked peer now).observeClock_frame peer senderMs now
  rw [hn]
  rfl

theorem observedRtt (hr : CallRule t R) (peer : String) (senderMs now echoMs : Nat) : Respects R
    (modifyNode fun n => (n.acked peer now).observeClockRtt peer senderMs now echoMs) := by
  refine hr.quiet _ fun n => ?_
  obtain ⟨_, hn⟩ := (n.acked peer now).observeClockRtt_frame peer senderMs now echoMs
  rw [hn]
  rfl

theorem observedLeader (hr : CallRule t R) (leader : String) (senderMs peerSkewMs now : Nat) :
    Respects R (modifyNode fun n => n.observeLeader leader senderMs peerSkewMs now) := by
  refine hr.quiet _ fun n => ?_
  unfold Node.observeLeader
  split
  · rfl
  · obtain ⟨_, hn⟩ := (n.acked leader now).observeClock_frame leader senderMs now
    rw [hn]
    rfl

/-! ## The parts of the calls -/

/-- Following in a term that is heard of. -/
theorem becomeFollower (hr : CallRule t R) {term : Nat} (hle : term ≤ t) (leader : Option String) :
    Respects R (becomeFollower term leader) :=
  fun h => hr.follow term leader h (Nat.le_trans hle (Nat.le_max_right _ _))

theorem appendLocal (hr : CallRule t R) (op : Op) : Respects R (appendLocal op) := by
  have := hr.stdRefl
  have := hr.isTrans
  refine read fun _ => .ite (.throw _) (.bind (hr.append _) fun _ => ?_)
  exact .bind (hr.quiet _ fun _ => rfl) fun _ => .pure _

theorem becomeLeader (hr : CallRule t R) : Respects R becomeLeader := by
  have := hr.stdRefl
  have := hr.isTrans
  refine read fun h => .bind (hr.leads h.now) fun _ => ?_
  exact .bind (hr.appendLocal _) fun _ => read fun _ => .pure _

theorem cutConflict (hr : CallRule t R) (entries : List EntryMeta) :
    Respects R (cutConflict entries) := by
  have := hr.stdRefl
  unfold Host.cutConflict
  split
  · exact .pure _
  · refine read fun h => ?_
    split
    · exact .ite (hr.truncate _) (.pure _)
    · exact .pure _

theorem appendMissing (hr : CallRule t R) (entries : List EntryMeta) :
    Respects R (appendMissing entries) := by
  have := hr.stdRefl
  exact read fun _ => .ite (.pure _) (hr.append _)

theorem followCommit_core (commit : Nat) (n : Node) :
    (followCommit commit n).core = n.core := by
  unfold followCommit
  simp only
  split
  · obtain ⟨_, _, _, hn⟩ := (n.commitTo (min commit n.log.lastIndex)).applyCommitted_frame
    rw [hn]
    rfl
  · rfl

/-! ## The calls -/

theorem tick (hr : CallRule t R) (he : ElectionRule R) : Respects R tick := by
  have := hr.stdRefl
  have := hr.isTrans
  refine read fun h => .ite (.ite ?_ (.pure _)) (.ite ?_ (.pure _))
  · exact .bind (hr.quiet _ fun _ => rfl) fun _ => .pure _
  · exact .bind (he.asks h.now) fun _ => read fun _ => .ite (.pure _) (.pure _)

theorem flush (hr : CallRule t R) : Respects R flush := by
  have := hr.stdRefl
  have := hr.isTrans
  exact read fun h => .ite (.bind (hr.quiet _ fun _ => rfl) fun _ => .pure _) (.pure _)

theorem stepDown (hr : CallRule t R) : Respects R stepDown := by
  have := hr.stdRefl
  have := hr.isTrans
  have hgrace : ∀ now, Respects R (modifyNode fun n =>
      { n.resetElectionDeadline now with
        electionDeadlineMs := now + satMul n.cfg.electionTimeoutMs.2 2 }) := by
    intro now
    refine hr.quiet _ fun n => ?_
    obtain ⟨_, _, hn⟩ := n.resetElectionDeadline_frame now
    rw [hn]
    rfl
  have hretire : ∀ h : Host, ∀ f : Unit → HostM (List Outbound), (∀ u, Respects R (f u)) →
      R h (exec (Host.becomeFollower h.node.hard.currentTerm none >>= f) h).2 := by
    intro h f hf
    rw [exec_bind]
    have h1 := hr.follow h.node.hard.currentTerm none h (Nat.le_max_left _ _)
    rcases hx : exec (Host.becomeFollower h.node.hard.currentTerm none) h with ⟨(e | u), h'⟩
    · rw [hx] at h1
      exact h1
    · rw [hx] at h1
      exact hr.trans _ _ _ h1 (hf u h')
  refine read fun _ => .ite (.pure _) (.bind (.ignore (hr.appendLocal _)) fun _ => ?_)
  exact .read fun h => hretire h _ fun _ => .bind (hgrace h.now) fun _ => .pure _

theorem handleRequestVote (hr : CallRule t R) (sender : String) (term : Nat) (candidate : String)
    (lastLogIndex lastLogTerm : Nat) (preVote : Bool) (senderMs : Nat) : Respects R
      (handleRequestVote sender term candidate lastLogIndex lastLogTerm preVote senderMs) := by
  have := hr.stdRefl
  have := hr.isTrans
  refine read fun h => .bind (hr.observed sender senderMs h.now) fun _ => ?_
  refine read fun h => .ite (.pure _) (.ite (.pure _) (.ite ?_ (.pure _)))
  refine .bind (hr.votes candidate) fun _ => .bind hr.persist fun _ => ?_
  exact .bind (hr.reset id h.now fun _ => rfl) fun _ => read fun _ => .pure _

theorem handleRequestVoteResp (hr : CallRule t R) (he : ElectionRule R) (term : Nat) (voter : String)
    (granted : Bool) (senderMs echoMs : Nat) :
    Respects R (handleRequestVoteResp term voter granted senderMs echoMs) := by
  have := hr.stdRefl
  have := hr.isTrans
  have hvote : Respects R (modifyNode fun n => n.countVote voter) := hr.quiet _ fun _ => rfl
  refine read fun h => .bind (hr.observedRtt voter senderMs h.now echoMs) fun _ => ?_
  refine read fun _ => .ite (.pure _) (.ite (.pure _) ?_)
  split
  · exact .bind (he.counts voter) fun _ => read fun _ => .ite he.stands (.pure _)
  · exact .bind hvote fun _ => read fun _ => .ite hr.becomeLeader (.pure _)
  · exact .pure _

theorem handleAppendEntries (hr : CallRule t R) {term : Nat} (hle : term ≤ t) (leader : String)
    (prevLogIndex prevLogTerm : Nat) (entries : List EntryMeta)
    (leaderCommit senderMs peerSkewMs : Nat) : Respects R
      (handleAppendEntries term leader prevLogIndex prevLogTerm entries leaderCommit senderMs
        peerSkewMs) := by
  have := hr.stdRefl
  have := hr.isTrans
  refine read fun h => .bind (hr.observedLeader leader senderMs peerSkewMs h.now) fun _ => ?_
  refine read fun h => .ite (.pure _) (.bind (hr.becomeFollower hle _) fun _ => ?_)
  refine .bind (hr.reset (fun n => n.heard h.now) h.now fun _ => rfl) fun _ => ?_
  refine read fun _ => .ite (.pure _) (.bind (hr.cutConflict _) fun _ => ?_)
  refine .bind (hr.appendMissing _) fun _ => ?_
  exact .bind (hr.quiet _ (followCommit_core leaderCommit)) fun _ => read fun _ => .pure _

theorem handleAppendEntriesResp (hr : CallRule t R) {term : Nat} (hle : term ≤ t) (follower : String)
    (success : Bool) (matchIndex : Nat) (conflictIndex : Option Nat) (senderMs echoMs : Nat) :
    Respects R
      (handleAppendEntriesResp term follower success matchIndex conflictIndex senderMs
        echoMs) := by
  have := hr.stdRefl
  have := hr.isTrans
  refine read fun h => .bind (hr.observedRtt follower senderMs h.now echoMs) fun _ => ?_
  refine read fun _ => .ite (.bind (hr.becomeFollower hle _) fun _ => .pure _) ?_
  refine .ite (.pure _) (.ite (.bind (hr.quiet _ fun n => ?_) fun _ => .pure _) ?_)
  · obtain ⟨_, _, _, _, hn⟩ := (n.matched follower matchIndex).advanceCommit_frame
    rw [hn]
    rfl
  · exact .bind (hr.quiet _ fun _ => rfl) fun _ => read fun _ => .pure _

theorem handleInstallSnapshot (hr : CallRule t R) {term : Nat} (hle : term ≤ t) (leader : String)
    (json : JsonText SnapshotFile) : Respects R (handleInstallSnapshot term leader json) := by
  have := hr.stdRefl
  have := hr.isTrans
  refine read fun h => .bind (hr.quiet _ fun _ => rfl) fun _ => .ite (.pure _) ?_
  refine .bind (hr.becomeFollower hle _) fun _ => .bind (hr.quiet _ fun _ => rfl) fun _ => ?_
  unfold takeSnapshot
  split
  · exact .throw _
  · next f _ =>
    split
    · exact .throw _
    · next hv =>
      intro h1
      rw [exec_get_bind, exec_ite]
      split
      · exact hr.refl h1
      · next hnew =>
        have hin := hr.install f h1 hv (Nat.lt_of_not_le hnew)
        rw [exec_bind]
        rcases hx : exec (installSnapshot f) h1 with ⟨(e | u), h2⟩
        · rw [hx] at hin
          exact hin
        · rw [hx] at hin
          exact hin

theorem handleInstallSnapshotResp (hr : CallRule t R) {term : Nat} (hle : term ≤ t) (follower : String)
    (success : Bool) (lastIncludedIndex : Nat) :
    Respects R (handleInstallSnapshotResp term follower success lastIncludedIndex) := by
  have := hr.stdRefl
  have := hr.isTrans
  refine read fun h => .bind (hr.quiet _ fun _ => rfl) fun _ => ?_
  refine .ite (.bind (hr.becomeFollower hle _) fun _ => .pure _) (.ite ?_ (.pure _))
  exact .bind (hr.quiet _ fun _ => rfl) fun _ => .pure _

theorem handleTimeoutNow (hr : CallRule t R) (hstands : Respects R startElection) (term : Nat) :
    Respects R (handleTimeoutNow term) := by
  have := hr.stdRefl
  have := hr.isTrans
  refine read fun h => .ite (.pure _) (.ite (.pure _) (.bind ?_ fun _ => hstands))
  exact hr.reset id h.now fun _ => rfl

theorem adoptTerm (hr : CallRule t R) {msg : Message} (hle : msg.term ≤ t) :
    Respects R (adoptTerm msg) := by
  have := hr.stdRefl
  exact read fun _ => .ite (hr.becomeFollower hle _) (.pure _)

/-- The other messages. -/
theorem handleInner (hr : CallRule t R) (sender : String) {msg : Message} (hle : msg.term ≤ t)
    (hmsg : msg.elects = false) : Respects R (handleInner sender msg) := by
  have := hr.stdRefl
  have := hr.isTrans
  refine .bind (hr.adoptTerm hle) fun _ => ?_
  cases msg with
  | requestVote => exact hr.handleRequestVote _ _ _ _ _ _ _
  | requestVoteResp => cases hmsg
  | appendEntries => exact hr.handleAppendEntries hle _ _ _ _ _ _ _
  | appendEntriesResp => exact hr.handleAppendEntriesResp hle _ _ _ _ _ _
  | installSnapshot => exact hr.handleInstallSnapshot hle _ _
  | timeoutNow => cases hmsg
  | installSnapshotResp => exact hr.handleInstallSnapshotResp hle _ _ _

/-- A message whose handling leaves the relation does so with its error, too. -/
theorem handle (hr : CallRule t R) {sender : String} {msg : Message} {h : Host}
    (hin : R h (exec (Host.handleInner sender msg) h).2) : R h (handle sender msg h).2 := by
  unfold Host.handle
  rcases hx : exec (Host.handleInner sender msg) h with ⟨(e | out), h'⟩
  · rw [hx] at hin
    exact hr.trans _ _ _ hin (hr.quiet (fun n => { n with fsyncOk := false }) (fun _ => rfl) h')
  · rw [hx] at hin
    exact hin

/-- The relation holds over every call but a restart. -/
theorem serve (hr : ∀ t, CallRule t R) (he : ElectionRule R) {h h' : Host} {req : Request}
    {out : List Outbound} (hreq : ∀ cfg, req ≠ .restart cfg) (hs : h.serve req = some (out, h')) :
    R h h' := by
  have hany := hr 0
  cases req with
  | tick => cases hs; exact hany.tick he h
  | propose op => cases hs; exact hany.appendLocal op h
  | flush => cases hs; exact hany.flush h
  | stepDown => cases hs; exact hany.stepDown h
  | maybeSnapshot => cases hs; exact hany.snapshot h
  | handle sender msg =>
    have hr := hr msg.term
    have hx : R h (Host.handle sender msg h).2 := by
      refine hr.handle ?_
      have := hr.isTrans
      cases msg with
      | requestVoteResp =>
        exact Respects.bind (hr.adoptTerm (Nat.le_refl _))
          (fun _ => hr.handleRequestVoteResp he _ _ _ _ _) h
      | timeoutNow =>
        exact Respects.bind (hr.adoptTerm (Nat.le_refl _))
          (fun _ => hr.handleTimeoutNow he.stands _) h
      | _ => exact hr.handleInner sender (Nat.le_refl _) rfl h
    rw [Host.serve, Option.some_inj] at hs
    rw [hs] at hx
    exact hx
  | restart cfg => exact absurd rfl (hreq cfg)

end CallRule

end Host

end Rdsctl.Ha
