import Rdsctl.Ha.Frame
import Rdsctl.Ha.Skew

/-!
# What the messages of a leader and a follower observe

An `AppendEntries` and its answer each give the receiver one sample of the sender's clock, if it is in
time with the term of the message. Nothing else that the two calls do touches the samples, nor does
anything that the two messages about snapshots do.
-/

namespace Rdsctl.Ha

open Fallible

/-- What the observations of clocks read and write. -/
structure ClockView where
  cfg : RaftConfig
  samples : BTreeMap String (List ClockSample)

def Node.clockView (n : Node) : ClockView := ⟨n.cfg, n.peerOffsetSamples⟩

theorem Node.clockView_pushSample {n m : Node} (h : n.clockView = m.clockView) (peer : String)
    (s : ClockSample) : (n.pushSample peer s).clockView = (m.pushSample peer s).clockView := by
  obtain ⟨hcfg, hsamples⟩ := ClockView.mk.inj h
  simp only [clockView, pushSample]
  rw [hcfg, hsamples]

theorem Node.clockView_observeLeader {n m : Node} (h : n.clockView = m.clockView) (leader : String)
    (senderMs peerSkewMs now : Nat) : (n.observeLeader leader senderMs peerSkewMs now).clockView =
      (m.observeLeader leader senderMs peerSkewMs now).clockView := by
  have hacked : (n.acked leader now).clockView = (m.acked leader now).clockView := h
  unfold observeLeader observePeerSkew observeClock
  split
  · exact clockView_pushSample hacked leader _
  · split
    · exact hacked
    · exact clockView_pushSample hacked leader _

theorem Node.clockView_observeClockRtt {n m : Node} (h : n.clockView = m.clockView) (peer : String)
    (senderMs now echoMs : Nat) : (n.observeClockRtt peer senderMs now echoMs).clockView =
      (m.observeClockRtt peer senderMs now echoMs).clockView := by
  unfold observeClockRtt observeClock
  split
  · split
    · exact h
    · exact clockView_pushSample h peer _
  · exact clockView_pushSample h peer _

/-- The estimate of a peer is read from the samples. -/
theorem Node.peerSkewEstimateMs_clockView {n m : Node} (h : n.clockView = m.clockView) (peer : String) (now : Nat) :
    n.peerSkewEstimateMs peer now = m.peerSkewEstimateMs peer now := by
  have hsamples : n.peerOffsetSamples = m.peerOffsetSamples := (ClockView.mk.inj h).2
  unfold peerSkewEstimateMs peerOffsetFiltered
  rw [hsamples]

namespace Host

/-- The configuration, the samples and the time of a host. -/
def Shows (w : ClockView) (now : Nat) (h : Host) : Prop :=
  h.node.clockView = w ∧ h.now = now

variable {w : ClockView} {now : Nat}

/-! ## Calls that observe nothing -/

theorem modifyNode_shows {f : Node → Node} (hf : ∀ n, (f n).clockView = n.clockView) :
    Keeps (Shows w now) (fun _ => True) (modifyNode f) :=
  .update fun h hh => ⟨(hf h.node).trans hh.1, hh.2⟩

theorem onStore_shows {α : Type} (m : StoreM α) :
    Keeps (Shows w now) (fun _ => True) (onStore m) :=
  fun _ hh => ⟨hh, fun _ _ => trivial⟩

theorem onLog_shows (f : Log → StoreM Log) : Keeps (Shows w now) (fun _ => True) (onLog f) :=
  .read fun _ _ => .bind (onStore_shows _) fun _ _ => modifyNode_shows fun _ => rfl

theorem persist_shows : Keeps (Shows w now) (fun _ => True) persistHardState :=
  .read fun _ _ => onStore_shows _

theorem becomeFollower_shows (term : Nat) (leader : Option String) :
    Keeps (Shows w now) (fun _ => True) (becomeFollower term leader) := by
  refine .read fun h _ => ?_
  have hretire : Keeps (Shows w now) (fun _ => True) (modifyNode fun n => n.retire leader) :=
    modifyNode_shows fun _ => rfl
  have hterm : Keeps (Shows w now) (fun _ => True) (modifyNode fun n => n.inTerm term) :=
    modifyNode_shows fun _ => rfl
  rcases Nat.lt_or_ge h.node.hard.currentTerm term with hlt | hge
  · simp only [hlt, if_true]
    exact .bind hterm fun _ _ => .bind persist_shows fun _ _ => hretire
  · simp only [Nat.not_lt.2 hge, if_false]
    exact hretire

theorem adoptTerm_shows (msg : Message) : Keeps (Shows w now) (fun _ => True) (adoptTerm msg) :=
  .read fun _ _ => .ite (becomeFollower_shows _ _) (.pure trivial)

theorem heard_shows (t : Nat) :
    Keeps (Shows w now) (fun _ => True) (modifyNode fun n => (n.heard t).resetElectionDeadline t) :=
  modifyNode_shows fun n => by
    obtain ⟨_, _, hn⟩ := (n.heard t).resetElectionDeadline_frame t
    rw [hn]
    rfl

variable [SerdeJson]

omit [SerdeJson] in
theorem cutConflict_shows (entries : List EntryMeta) :
    Keeps (Shows w now) (fun _ => True) (cutConflict entries) := by
  unfold cutConflict
  split
  · exact .pure trivial
  · refine .read fun _ _ => ?_
    split
    · exact .ite (onLog_shows _) (.pure trivial)
    · exact .pure trivial

omit [SerdeJson] in
theorem appendMissing_shows (entries : List EntryMeta) :
    Keeps (Shows w now) (fun _ => True) (appendMissing entries) :=
  .read fun _ _ => .ite (.pure trivial) (.onError (onLog_shows _) fun _ hh => hh)

theorem followCommit_shows (commit : Nat) :
    Keeps (Shows w now) (fun _ => True) (modifyNode (followCommit commit)) :=
  modifyNode_shows fun n => by
    unfold followCommit
    simp only
    split
    · obtain ⟨_, _, _, hn⟩ := (n.commitTo (min commit n.log.lastIndex)).applyCommitted_frame
      rw [hn]
      rfl
    · rfl

/-! ## The four messages -/

/-- Answers to an `AppendEntries` with that stamp, sent at that time. -/
def Answer (c : RaftConfig) (now echoMs : Nat) (o : Outbound) : Prop :=
  ∃ term success matchIndex conflictIndex,
    o.msg = .appendEntriesResp term c.nodeId success matchIndex conflictIndex now echoMs

omit [SerdeJson] in
theorem appendResp_answer {h : Host} (hh : h.Shows w now) (leader : String) (success : Bool)
    (matchIndex : Nat) (conflictIndex : Option Nat) (echoMs : Nat) :
    ∀ o ∈ [appendResp h.node leader success matchIndex conflictIndex h.now echoMs],
      Answer w.cfg now echoMs o := by
  obtain ⟨rfl, rfl⟩ := hh
  rintro o ho
  obtain rfl := List.mem_singleton.1 ho
  exact ⟨_, _, _, _, rfl⟩

theorem takeEntries_shows (leader : String) (prevLogIndex prevLogTerm : Nat)
    (entries : List EntryMeta) (leaderCommit senderMs : Nat) :
    Keeps (Shows w now) (fun outs => ∀ o ∈ outs, Answer w.cfg now senderMs o)
      (takeEntries leader prevLogIndex prevLogTerm entries leaderCommit senderMs) := by
  refine .read fun _ hh => .ite (.pure (appendResp_answer hh _ _ _ _ _)) ?_
  refine .bind (cutConflict_shows _) fun _ _ => .bind (appendMissing_shows _) fun _ _ => ?_
  refine .bind (followCommit_shows _) fun _ _ => .read fun _ hh => ?_
  exact .pure (appendResp_answer hh _ _ _ _ _)

/-- The call of `handle` after the term of the message is adopted. -/
theorem handle_of_adopt {sender : String} {msg : Message} {h : Host} {m : HostM (List Outbound)}
    (hm : handleInner sender msg = adoptTerm msg >>= fun _ => m) :
    ((exec (adoptTerm msg) h).1.isOk = false →
      (handle sender msg h).2.Shows h.node.clockView h.now ∧ (handle sender msg h).1 = []) ∧
    ((exec (adoptTerm msg) h).1.isOk = true → ∀ {w' : ClockView}
      {P : List Outbound → Prop}, P [] →
      (∀ h', h'.Shows h.node.clockView h.now →
        Shows w' h.now (exec m h').2 ∧ ∀ a, (exec m h').1 = .ok a → P a) →
      (handle sender msg h).2.Shows w' h.now ∧ P (handle sender msg h).1) := by
  have hadopt : (exec (adoptTerm msg) h).2.Shows h.node.clockView h.now :=
    (adoptTerm_shows msg h ⟨rfl, rfl⟩).1
  unfold handle
  rw [hm, exec_bind]
  rcases hx : exec (adoptTerm msg) h with ⟨(e | u), h'⟩
  · rw [hx] at hadopt
    exact ⟨fun _ => ⟨hadopt, rfl⟩, nofun⟩
  · rw [hx] at hadopt
    refine ⟨nofun, fun _ w' P hnil hall => ?_⟩
    obtain ⟨hw, hP⟩ := hall h' hadopt
    dsimp only
    rcases hy : exec m h' with ⟨(e | outs), h''⟩
    · rw [hy] at hw
      exact ⟨hw, hnil⟩
    · rw [hy] at hw hP
      exact ⟨hw, hP outs rfl⟩

omit [SerdeJson] in
theorem observeLeader_cfg (n : Node) (leader : String) (senderMs peerSkewMs now : Nat) :
    (n.observeLeader leader senderMs peerSkewMs now).cfg = n.cfg := by
  unfold Node.observeLeader
  split
  · rfl
  · obtain ⟨_, hn⟩ := (n.acked leader now).observeClock_frame leader senderMs now
    rw [hn]
    rfl

/-- An `AppendEntries` whose term is adopted shows the clock of its leader, and is answered. -/
theorem handle_appendEntries {h : Host} (sender : String) {term : Nat} {leader : String}
    {prevLogIndex prevLogTerm : Nat} {entries : List EntryMeta} {leaderCommit senderMs peerSkewMs : Nat}
    {msg : Message} (hmsg : msg = .appendEntries term leader prevLogIndex prevLogTerm entries leaderCommit
      senderMs peerSkewMs) (hadopt : (exec (adoptTerm msg) h).1.isOk = true) :
    (handle sender msg h).2.Shows (h.node.observeLeader leader senderMs peerSkewMs h.now).clockView h.now ∧
      ∀ o ∈ (handle sender msg h).1, Answer h.node.cfg h.now senderMs o := by
  have hinner : handleInner sender msg = adoptTerm msg >>= fun _ => handleAppendEntries term leader
      prevLogIndex prevLogTerm entries leaderCommit senderMs peerSkewMs := by
    rw [hmsg]
    rfl
  refine (handle_of_adopt hinner).2 hadopt (P := fun outs => ∀ o ∈ outs, Answer h.node.cfg h.now senderMs o)
    (fun _ ho => nomatch ho) fun h' hh' => ?_
  obtain ⟨hview, hnow⟩ := hh'
  have hcfg : (h.node.observeLeader leader senderMs peerSkewMs h.now).clockView.cfg = h.node.cfg :=
    observeLeader_cfg _ _ _ _ _
  rw [← hcfg, ← hnow]
  unfold handleAppendEntries
  rw [exec_get_bind, exec_modifyNode_bind]
  generalize hw : (h.node.observeLeader leader senderMs peerSkewMs h'.now).clockView = w
  have hshows : Host.Shows w h'.now
      { h' with node := h'.node.observeLeader leader senderMs peerSkewMs h'.now } :=
    ⟨(Node.clockView_observeLeader hview leader senderMs peerSkewMs h'.now).trans hw, rfl⟩
  refine (?_ : Keeps (Host.Shows w h'.now) (fun outs => ∀ o ∈ outs, Answer w.cfg h'.now senderMs o) _) _ hshows
  refine .read fun h₁ hh₁ => .ite (.pure (appendResp_answer hh₁ _ _ _ _ _)) ?_
  refine .bind (becomeFollower_shows _ _) fun _ _ => .bind (heard_shows h₁.now) fun _ _ => ?_
  exact takeEntries_shows _ _ _ _ _ _

/-- An answer whose term is adopted shows the clock of the follower, and may be followed by what
`append_for` gives. -/
theorem handle_appendEntriesResp {h : Host} (sender : String) {term : Nat} {follower : String}
    {success : Bool} {matchIndex : Nat} {conflictIndex : Option Nat} {senderMs echoMs : Nat}
    {msg : Message} (hmsg : msg = .appendEntriesResp term follower success matchIndex conflictIndex
      senderMs echoMs) (hadopt : (exec (adoptTerm msg) h).1.isOk = true) :
    (handle sender msg h).2.Shows (h.node.observeClockRtt follower senderMs h.now echoMs).clockView h.now ∧
      ∀ o ∈ (handle sender msg h).1, ∃ (n : Node) (k : Disk),
        n.clockView = (h.node.observeClockRtt follower senderMs h.now echoMs).clockView ∧
          o ∈ n.appendFor k h.now follower := by
  have hinner : handleInner sender msg = adoptTerm msg >>= fun _ => handleAppendEntriesResp term follower
      success matchIndex conflictIndex senderMs echoMs := by
    rw [hmsg]
    rfl
  refine (handle_of_adopt hinner).2 hadopt (P := fun outs => ∀ o ∈ outs, ∃ (n : Node) (k : Disk),
    n.clockView = (h.node.observeClockRtt follower senderMs h.now echoMs).clockView ∧
      o ∈ n.appendFor k h.now follower) (fun _ ho => nomatch ho) fun h' hh' => ?_
  obtain ⟨hview, hnow⟩ := hh'
  rw [← hnow]
  unfold handleAppendEntriesResp
  rw [exec_get_bind, exec_modifyNode_bind]
  generalize hw : (h.node.observeClockRtt follower senderMs h'.now echoMs).clockView = w
  have hshows : Host.Shows w h'.now
      { h' with node := (h'.node.acked follower h'.now).observeClockRtt follower senderMs h'.now echoMs } :=
    ⟨(Node.clockView_observeClockRtt (n := h'.node.acked follower h'.now) hview follower senderMs h'.now
      echoMs).trans hw, rfl⟩
  have hnil : ∀ o ∈ ([] : List Outbound), ∃ (n : Node) (k : Disk),
      n.clockView = w ∧ o ∈ n.appendFor k h'.now follower := nofun
  refine (?_ : Keeps (Host.Shows w h'.now) (fun outs => ∀ o ∈ outs, ∃ (n : Node) (k : Disk),
    n.clockView = w ∧ o ∈ n.appendFor k h'.now follower) _) _ hshows
  refine .read fun h₁ hh₁ => .ite ?_ (.ite (.pure hnil) (.ite ?_ ?_))
  · exact .bind (becomeFollower_shows _ _) fun _ _ => .pure hnil
  · refine .bind (modifyNode_shows fun n => ?_) fun _ _ => .pure hnil
    obtain ⟨_, _, _, _, hn⟩ := (n.matched follower matchIndex).advanceCommit_frame
    rw [hn]
    rfl
  · refine .bind (modifyNode_shows fun _ => rfl) fun _ _ => .read fun h₂ hh₂ => .pure ?_
    intro o ho
    rw [hh₂.2] at ho
    exact ⟨h₂.node, h₂.store.disk, hh₂.1, ho⟩

/-- A snapshot shows no clock, nor does its answer. -/
theorem handle_installSnapshot (h : Host) (sender : String) (term : Nat) (leader : String)
    (json : JsonText SnapshotFile) :
    (handle sender (.installSnapshot term leader json) h).2.Shows h.node.clockView h.now ∧
      ∀ o ∈ (handle sender (.installSnapshot term leader json) h).1,
        ∃ t f ok i, o.msg = .installSnapshotResp t f ok i := by
  have hinstall : ∀ (snap : SnapshotFile),
      Keeps (Host.Shows h.node.clockView h.now) (fun _ => True) (installSnapshot snap) := fun snap => by
    unfold installSnapshot
    split
    · exact .throw _
    · refine .bind (onStore_shows _) fun _ _ => .bind (modifyNode_shows fun _ => rfl) fun _ _ => ?_
      exact .bind (onLog_shows _) fun _ _ => modifyNode_shows fun _ => rfl
  have hresp : ∀ n i, ∀ o ∈ [installResp n leader i], ∃ t f ok i, o.msg = .installSnapshotResp t f ok i := by
    rintro n i o ho
    obtain rfl := List.mem_singleton.1 ho
    exact ⟨_, _, _, _, rfl⟩
  have hnil : ∀ o ∈ ([] : List Outbound), ∃ t f ok i, o.msg = .installSnapshotResp t f ok i := nofun
  have hinner : handleInner sender (.installSnapshot term leader json) =
      adoptTerm (.installSnapshot term leader json) >>= fun _ => handleInstallSnapshot term leader json := rfl
  cases hadopt : (exec (adoptTerm (.installSnapshot term leader json)) h).1.isOk with
  | false =>
    obtain ⟨hshows, hnone⟩ := (handle_of_adopt hinner).1 hadopt
    rw [hnone]
    exact ⟨hshows, hnil⟩
  | true =>
    refine (handle_of_adopt hinner).2 hadopt
      (P := fun outs => ∀ o ∈ outs, ∃ t f ok i, o.msg = .installSnapshotResp t f ok i) hnil ?_
    refine (?_ : Keeps (Host.Shows h.node.clockView h.now)
      (fun outs => ∀ o ∈ outs, ∃ t f ok i, o.msg = .installSnapshotResp t f ok i)
      (handleInstallSnapshot term leader json))
    refine .read fun _ _ => .bind (modifyNode_shows fun _ => rfl) fun _ _ => .ite (.pure hnil) ?_
    refine .bind (becomeFollower_shows _ _) fun _ _ => .bind (modifyNode_shows fun _ => rfl) fun _ _ => ?_
    unfold takeSnapshot
    split
    · exact .throw _
    · split
      · exact .throw _
      · refine .read fun _ _ => .ite (.pure (hresp _ _)) ?_
        exact .bind (hinstall _) fun _ _ => .read fun _ _ => .pure (hresp _ _)

theorem handle_installSnapshotResp (h : Host) (sender : String) (term : Nat) (follower : String)
    (success : Bool) (i : Nat) :
    (handle sender (.installSnapshotResp term follower success i) h).2.Shows h.node.clockView h.now ∧
      (handle sender (.installSnapshotResp term follower success i) h).1 = [] := by
  have hinner : handleInner sender (.installSnapshotResp term follower success i) =
      adoptTerm (.installSnapshotResp term follower success i) >>= fun _ =>
        handleInstallSnapshotResp term follower success i := rfl
  cases hadopt : (exec (adoptTerm (.installSnapshotResp term follower success i)) h).1.isOk with
  | false => exact (handle_of_adopt hinner).1 hadopt
  | true =>
    refine (handle_of_adopt hinner).2 hadopt (P := fun outs => outs = []) rfl ?_
    refine (?_ : Keeps (Host.Shows h.node.clockView h.now) (fun outs => outs = [])
      (handleInstallSnapshotResp term follower success i))
    refine .read fun _ _ => .bind (modifyNode_shows fun _ => rfl) fun _ _ => ?_
    refine .ite (.bind (becomeFollower_shows _ _) fun _ _ => .pure rfl) (.ite ?_ (.pure rfl))
    exact .bind (modifyNode_shows fun _ => rfl) fun _ _ => .pure rfl

end Host
end Rdsctl.Ha
