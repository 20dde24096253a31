import Rdsctl.Lib.Run
import Rdsctl.Ha.Observe

/-!
# The estimate that a leader hands on

A leader and a follower over links that take the same time both ways. The leader measures the offset by
round trips and sends its estimate along with each `AppendEntries`, as a number in which zero stands for
none. The follower takes over what is sent, and falls back to the one-way observation where nothing is:
before the leader has measured anything, and whenever the clocks agree (`adopts_and_sound_iff`).
-/

namespace Rdsctl.Ha

/-- How far the clock of the follower is ahead of the leader's, and how long a message takes. -/
structure Link where
  theta : Int
  delayMs : Nat
  delay_le : delayMs ≤ CLOCK_RTT_CORRECTION_CAP_MS

/-- A message to the follower in flight, with the estimate of the leader if it had a fresh sample with a
round trip when it sent it. -/
structure Sent where
  sentMs : Nat
  msg : Message
  corrected : Option Nat

/-- The two nodes and what is in flight, the oldest first, with the leader's time of sending. -/
structure Exchange where
  leader : Host
  follower : Host
  toFollower : List Sent
  toLeader : List (Nat × Message)
  /-- when the follower has taken a sample of the leader's clock, and the estimate that came with it -/
  seen : List (Nat × Nat)

inductive ExchangeEvent
  | elapse (ms : Nat)
  /-- The leader sends what `append_for` gives. -/
  | send
  /-- The follower handles the message that is due. -/
  | receive
  /-- The leader handles the answer that is due. -/
  | hear
  /-- A node does something else that observes no clock. -/
  | leaderElse (h : Host)
  | followerElse (h : Host)

/-- The estimate of a peer, if a fresh sample has a round trip. -/
def Node.correctedEstimateMs (n : Node) (peer : String) (now : Nat) : Option Nat :=
  if (n.freshSamples peer now).any fun s => decide (0 < s.rttMs) then n.peerSkewEstimateMs peer now
  else none

namespace Host

/-- The estimate in an `AppendEntries` of which a sample is taken. A node that cannot write a higher
term takes none. -/
def taken (h : Host) (msg : Message) : Option Nat :=
  match msg with
  | .appendEntries _ _ _ _ _ _ _ peerSkewMs =>
    if (Fallible.exec (adoptTerm msg) h).1.isOk then some peerSkewMs else none
  | _ => none

/-- What a host sends to a peer. -/
def sends (h : Host) (peer : String) (outs : List Outbound) : List Sent :=
  (outs.filter fun o => o.dest = peer).map fun o => ⟨h.now, o.msg, h.node.correctedEstimateMs peer h.now⟩

/-- A host that has done something else. -/
def otherwise (h h' : Host) : Host :=
  { h' with
    node := { h'.node with cfg := h.node.cfg, peerOffsetSamples := h.node.peerOffsetSamples }
    now := h.now }

end Host

/-- The sample that the follower takes: the estimate, or else the one-way observation. -/
def Link.shown (k : Link) (g : Nat × Nat) : ClockSample :=
  if 0 < g.2 then ⟨g.2, g.2, 0, g.1⟩ else ⟨-k.theta - k.delayMs, -k.theta - k.delayMs, 0, g.1⟩

namespace Exchange

def leaderId (s : Exchange) : String := s.leader.node.cfg.nodeId

def followerId (s : Exchange) : String := s.follower.node.cfg.nodeId

/-- No message is overdue. -/
def onTime (k : Link) (s : Exchange) (now : Nat) : Bool :=
  (s.toFollower.all fun m => decide (now ≤ m.sentMs + k.delayMs)) &&
    s.toLeader.all fun m => decide (now ≤ m.1 + k.delayMs)

section
variable [SerdeJson]

def step (k : Link) (s : Exchange) : ExchangeEvent → Option Exchange
  | .elapse ms =>
    if s.onTime k (s.leader.now + ms) = true ∧ s.leader.now + ms < 2 ^ 63 ∧
        s.follower.now + ms < 2 ^ 63 then
      some { s with
        leader := { s.leader with now := s.leader.now + ms }
        follower := { s.follower with now := s.follower.now + ms } }
    else none
  | .send =>
    let outs := s.leader.node.appendFor s.leader.store.disk s.leader.now s.followerId
    some { s with toFollower := s.toFollower ++ s.leader.sends s.followerId outs }
  | .receive =>
    match s.toFollower with
    | [] => none
    | m :: rest =>
      if s.leader.now = m.sentMs + k.delayMs then
        let (outs, h) := Host.handle s.leaderId m.msg s.follower
        some { s with
          follower := h
          toFollower := rest
          toLeader := s.toLeader ++
            (outs.filter fun o => o.dest = s.leaderId).map fun o => (s.leader.now, o.msg)
          seen := s.seen ++ ((s.follower.taken m.msg).map fun skewMs => (s.follower.now, skewMs)).toList }
      else none
  | .hear =>
    match s.toLeader with
    | [] => none
    | m :: rest =>
      if s.leader.now = m.1 + k.delayMs then
        let (outs, h) := Host.handle s.followerId m.2 s.leader
        some { s with
          leader := h
          toLeader := rest
          toFollower := s.toFollower ++ h.sends s.followerId outs }
      else none
  | .leaderElse h => some { s with leader := s.leader.otherwise h }
  | .followerElse h => some { s with follower := s.follower.otherwise h }

/-! ## The claim and its condition -/

/-- The follower takes over the estimate of every `AppendEntries` that the leader has sent with one from
a fresh sample with a round trip. -/
def Adopts (k : Link) (h : History Exchange ExchangeEvent) : Prop :=
  ∀ t earlier, (t, .receive) :: earlier <:+ h → ∀ m rest e, t.toFollower = m :: rest →
    m.corrected = some e → (t.follower.taken m.msg).isSome = true → ∀ t', t.step k .receive = some t' →
      ∃ x, (t'.follower.node.samplesOf t.leaderId).getLast? = some x ∧ x.offsetMs = e

/-- Neither node finds the skew exceeded when it is not. -/
def Sound (k : Link) (s : Exchange) : Prop :=
  (k.theta.natAbs ≤ s.leader.node.cfg.maxSkewMs → s.leader.node.skewExceeded s.leader.now = false) ∧
    (k.theta.natAbs ≤ s.follower.node.cfg.maxSkewMs →
      s.follower.node.skewExceeded s.follower.now = false)

/-- The follower is about to take a sample from a message that was sent with a corrected estimate. -/
def Informed (s : Exchange) : Prop :=
  ∃ m rest, s.toFollower = m :: rest ∧ m.corrected.isSome = true ∧ (s.follower.taken m.msg).isSome = true

/-- What the follower has seen lately. -/
def recent (s : Exchange) : List (Nat × Nat) :=
  (Node.windowOf s.seen).filter fun g => decide (s.follower.now - g.1 ≤ CLOCK_SAMPLE_TTL_MS)

/-- The follower has seen the leader's clock often enough lately, but never an estimate. -/
def Blind (s : Exchange) : Prop :=
  CLOCK_VIOLATION_MIN_SAMPLES ≤ s.recent.length ∧ ∀ g ∈ s.recent, g.2 = 0

/-- The nodes have seen each other's clocks in elections at most: the leader by round trips, the follower
by one-way observations. -/
structure Initial (k : Link) (s : Exchange) : Prop where
  clock : (s.follower.now : Int) = s.leader.now + k.theta
  leader_pos : 0 < s.leader.now
  follower_pos : 0 < s.follower.now
  leader_lt : s.leader.now < 2 ^ 63
  follower_lt : s.follower.now < 2 ^ 63
  measured : ∀ peer, ∀ x ∈ s.leader.node.samplesOf peer,
    peer = s.followerId ∧ x.offsetMs = k.theta ∧ x.rttMs = 2 * k.delayMs
  shown : ∀ peer, s.follower.node.samplesOf peer =
    if peer = s.leaderId then (Node.windowOf s.seen).map k.shown else []
  unadopted : ∀ g ∈ s.seen, g.2 = 0
  noneDown : s.toFollower = []
  noneUp : s.toLeader = []

/-! ## What is in flight -/

/-- A message to the follower: it carries no estimate or the right one. -/
def Request (k : Link) (leader : String) (m : Sent) : Prop :=
  0 < m.sentMs ∧ 0 < (m.sentMs : Int) + k.theta ∧
    ((∃ term prevLogIndex prevLogTerm entries leaderCommit peerSkewMs,
      m.msg = .appendEntries term leader prevLogIndex prevLogTerm entries leaderCommit m.sentMs peerSkewMs ∧
        (peerSkewMs = 0 ∨ peerSkewMs = k.theta.natAbs) ∧
        ∀ e, m.corrected = some e → e = k.theta.natAbs ∧ peerSkewMs = e ∧ 0 < k.delayMs) ∨
      ∃ term l json, m.msg = .installSnapshot term l json)

/-- A message to the leader: it is stamped by the follower's clock and echoes the leader's. -/
def Reply (k : Link) (follower : String) (m : Nat × Message) : Prop :=
  (∃ term success matchIndex conflictIndex senderMs echoMs,
    m.2 = .appendEntriesResp term follower success matchIndex conflictIndex senderMs echoMs ∧
      echoMs + k.delayMs = m.1 ∧ 0 < echoMs ∧ (senderMs : Int) = m.1 + k.theta ∧ 0 < senderMs ∧
      senderMs < 2 ^ 63) ∨
    ∃ term f success i, m.2 = .installSnapshotResp term f success i

/-- What every run keeps. -/
structure Inv (k : Link) (s : Exchange) : Prop where
  clock : (s.follower.now : Int) = s.leader.now + k.theta
  leader_pos : 0 < s.leader.now
  follower_pos : 0 < s.follower.now
  leader_lt : s.leader.now < 2 ^ 63
  follower_lt : s.follower.now < 2 ^ 63
  measured : ∀ peer, ∀ x ∈ s.leader.node.samplesOf peer,
    peer = s.followerId ∧ x.offsetMs = k.theta ∧ x.rttMs = 2 * k.delayMs
  shown : ∀ peer, s.follower.node.samplesOf peer =
    if peer = s.leaderId then (Node.windowOf s.seen).map k.shown else []
  adopted : ∀ g ∈ s.seen, g.2 = 0 ∨ g.2 = k.theta.natAbs
  down : ∀ m ∈ s.toFollower, Request k s.leaderId m
  up : ∀ m ∈ s.toLeader, Reply k s.followerId m

variable {k : Link} {s s' : Exchange}

omit [SerdeJson] in
theorem Inv.initial (h : Initial k s) : Inv k s where
  clock := h.clock
  leader_pos := h.leader_pos
  follower_pos := h.follower_pos
  leader_lt := h.leader_lt
  follower_lt := h.follower_lt
  measured := h.measured
  shown := h.shown
  adopted g hg := .inl (h.unadopted g hg)
  down m hm := by
    rw [h.noneDown] at hm
    cases hm
  up m hm := by
    rw [h.noneUp] at hm
    cases hm

/-! ## What the leader sends -/

omit [SerdeJson] in
theorem peerOffsetFiltered_mem {n : Node} {peer : String} {now : Nat} {v : Int}
    (h : n.peerOffsetFiltered peer now = some v) : ∃ x ∈ n.freshSamples peer now, x.offsetMs = v := by
  rw [Node.peerOffsetFiltered_eq] at h
  split at h
  · next best hbest =>
    cases h
    exact ⟨best, (List.mem_filter.1 (List.argmin_mem hbest)).1, rfl⟩
  · obtain ⟨b, hb, rfl⟩ := Option.map_eq_some_iff.1 h
    exact ⟨b, List.argmin_mem hb, rfl⟩

omit [SerdeJson] in
/-- An estimate from exact samples is exact. -/
theorem estimate_exact {n : Node} {peer : String} {now e : Nat}
    (hexact : ∀ x ∈ n.samplesOf peer, x.offsetMs = k.theta)
    (h : n.peerSkewEstimateMs peer now = some e) : e = k.theta.natAbs := by
  obtain ⟨v, hv, rfl⟩ := Option.map_eq_some_iff.1 h
  obtain ⟨x, hx, rfl⟩ := peerOffsetFiltered_mem hv
  rw [hexact x (List.mem_filter.1 hx).1]

/-- What `append_for` gives, when the samples are exact. -/
theorem request_appendFor {n m : Node} {d : Disk} {now : Nat} {leader peer : String} {o : Outbound}
    (hmeasured : ∀ x ∈ n.samplesOf peer, x.offsetMs = k.theta ∧ x.rttMs = 2 * k.delayMs)
    (hview : m.clockView = n.clockView) (hid : n.cfg.nodeId = leader) (hpos : 0 < now)
    (hpos' : 0 < (now : Int) + k.theta) (ho : o ∈ m.appendFor d now peer) :
    Request k leader ⟨now, o.msg, n.correctedEstimateMs peer now⟩ := by
  refine ⟨hpos, hpos', ?_⟩
  have hest : m.peerSkewEstimateMs peer now = n.peerSkewEstimateMs peer now :=
    Node.peerSkewEstimateMs_clockView hview peer now
  have hid' : m.cfg.nodeId = leader := by
    rw [show m.cfg = n.cfg from (ClockView.mk.inj hview).1, hid]
  have hexact : ∀ e, n.peerSkewEstimateMs peer now = some e → e = k.theta.natAbs := fun e =>
    estimate_exact fun x hx => (hmeasured x hx).1
  have happend : ∃ term prevLogIndex prevLogTerm entries leaderCommit peerSkewMs,
      (Message.appendEntries m.hard.currentTerm m.cfg.nodeId
        (m.nextIndex.getD peer (m.log.lastIndex + 1) - 1)
        (m.prevTermFor (m.nextIndex.getD peer (m.log.lastIndex + 1) - 1))
        (((m.log.entriesFrom (m.nextIndex.getD peer (m.log.lastIndex + 1))).take
          m.cfg.maxEntriesPerAppend).map Node.entryMeta)
        m.commitIndex now ((m.peerSkewEstimateMs peer now).getD 0)) =
        .appendEntries term leader prevLogIndex prevLogTerm entries leaderCommit now peerSkewMs ∧
      (peerSkewMs = 0 ∨ peerSkewMs = k.theta.natAbs) ∧
      ∀ e, n.correctedEstimateMs peer now = some e →
        e = k.theta.natAbs ∧ peerSkewMs = e ∧ 0 < k.delayMs := by
    refine ⟨_, _, _, _, _, (n.peerSkewEstimateMs peer now).getD 0, by rw [hid', hest], ?_, fun e he => ?_⟩
    · cases he : n.peerSkewEstimateMs peer now with
      | none => exact .inl rfl
      | some e => exact .inr (hexact e he)
    · unfold Node.correctedEstimateMs at he
      split at he
      · next hrtt =>
        obtain ⟨x, hx, hpos⟩ := List.any_eq_true.1 hrtt
        have hx' := (hmeasured x (List.mem_filter.1 hx).1).2
        have hpos : 0 < x.rttMs := of_decide_eq_true hpos
        refine ⟨hexact e he, by rw [he]; rfl, by omega⟩
      · cases he
  unfold Node.appendFor at ho
  simp only at ho
  split at ho
  · split at ho
    · obtain rfl := List.mem_singleton.1 ho
      exact .inr ⟨_, _, _, rfl⟩
    · obtain rfl := List.mem_singleton.1 ho
      exact .inl happend
  · obtain rfl := List.mem_singleton.1 ho
    exact .inl happend

/-! ## What a message makes of the samples -/

omit [SerdeJson] in
theorem samplesOf_clockView {n m : Node} (h : n.clockView = m.clockView) (peer : String) :
    n.samplesOf peer = m.samplesOf peer := by
  unfold Node.samplesOf
  rw [show n.peerOffsetSamples = m.peerOffsetSamples from (ClockView.mk.inj h).2]

omit [SerdeJson] in
theorem samplesOf_pushSample_ne {n : Node} {peer other : String} (hne : other ≠ peer) (x : ClockSample) :
    (n.pushSample peer x).samplesOf other = n.samplesOf other := by
  unfold Node.samplesOf Node.pushSample
  exact (Std.ExtTreeMap.getD_insert ..).trans (if_neg fun h => hne (Std.LawfulEqCmp.eq_of_compare h).symm)

omit [SerdeJson] in
/-- The follower takes the sample that the link shows. -/
theorem observeLeader_shown (hinv : Inv k s) {sentMs peerSkewMs : Nat} (hsent : 0 < sentMs)
    (hsent' : 0 < (sentMs : Int) + k.theta) (hskew : peerSkewMs = 0 ∨ peerSkewMs = k.theta.natAbs)
    (hdue : s.leader.now = sentMs + k.delayMs) :
    s.follower.node.observeLeader s.leaderId sentMs peerSkewMs s.follower.now =
      (s.follower.node.acked s.leaderId s.follower.now).pushSample s.leaderId
        (k.shown (s.follower.now, peerSkewMs)) := by
  have hclock := hinv.clock
  have hlt := hinv.leader_lt
  have hlt' := hinv.follower_lt
  unfold Node.observeLeader Link.shown
  split
  · have hfits : min (peerSkewMs : Int) Node.i64Max = peerSkewMs := by
      unfold Node.i64Max
      omega
    unfold Node.observePeerSkew
    rw [hfits]
  · have hx : ∃ x : OneWay (-k.theta), x.stamp = sentMs ∧ x.arrival = s.follower.now ∧ x.delay = k.delayMs := by
      refine ⟨⟨((sentMs : Int) + k.theta).toNat, k.delayMs, sentMs, by omega, hsent, by omega, by omega⟩,
        rfl, ?_, rfl⟩
      show ((sentMs : Int) + k.theta).toNat + k.delayMs = s.follower.now
      omega
    obtain ⟨x, hstamp, harrival, hdelay⟩ := hx
    rw [← hstamp, ← harrival, Node.observeClock_eq, ← hdelay]
    rfl

/-- What the follower makes of a message that is due. -/
theorem follower_handles (hinv : Inv k s) {m : Sent} (hm : Request k s.leaderId m)
    (hdue : s.leader.now = m.sentMs + k.delayMs) {outs : List Outbound} {h : Host}
    (hh : Host.handle s.leaderId m.msg s.follower = (outs, h)) :
    h.now = s.follower.now ∧ h.node.cfg = s.follower.node.cfg ∧
      (∀ peer, h.node.samplesOf peer = if peer = s.leaderId then
        (Node.windowOf (s.seen ++ ((s.follower.taken m.msg).map fun skewMs =>
          (s.follower.now, skewMs)).toList)).map k.shown else []) ∧
      (∀ g ∈ s.seen ++ ((s.follower.taken m.msg).map fun skewMs => (s.follower.now, skewMs)).toList,
        g.2 = 0 ∨ g.2 = k.theta.natAbs) ∧
      ∀ o ∈ outs, Reply k s.followerId (s.leader.now, o.msg) := by
  have hstill : h.Shows s.follower.node.clockView s.follower.now → s.follower.taken m.msg = none →
      h.now = s.follower.now ∧ h.node.cfg = s.follower.node.cfg ∧
      (∀ peer, h.node.samplesOf peer = if peer = s.leaderId then
        (Node.windowOf (s.seen ++ ((s.follower.taken m.msg).map fun skewMs =>
          (s.follower.now, skewMs)).toList)).map k.shown else []) ∧
      ∀ g ∈ s.seen ++ ((s.follower.taken m.msg).map fun skewMs => (s.follower.now, skewMs)).toList,
        g.2 = 0 ∨ g.2 = k.theta.natAbs := by
    rintro ⟨hview, hnow⟩ hnone
    rw [hnone]
    simp only [Option.map_none, Option.toList_none, List.append_nil]
    refine ⟨hnow, (ClockView.mk.inj hview).1, fun peer => ?_, hinv.adopted⟩
    rw [samplesOf_clockView hview]
    exact hinv.shown peer
  obtain ⟨hsent, hsent', ⟨term, prevLogIndex, prevLogTerm, entries, leaderCommit, skewMs, hmsg, hskew, -⟩ |
    ⟨term, l, json, hmsg⟩⟩ := hm
  · cases hadopt : (Fallible.exec (Host.adoptTerm m.msg) s.follower).1.isOk with
    | false =>
      have hinner : Host.handleInner s.leaderId m.msg = Host.adoptTerm m.msg >>= fun _ =>
          Host.handleAppendEntries term s.leaderId prevLogIndex prevLogTerm entries leaderCommit m.sentMs
            skewMs := by
        rw [hmsg]
        rfl
      obtain ⟨hshows, hnone⟩ := (Host.handle_of_adopt hinner).1 hadopt
      rw [hh] at hshows hnone
      have htaken : s.follower.taken m.msg = none := by
        rw [hmsg] at hadopt ⊢
        simp [Host.taken, hadopt]
      obtain ⟨hnow, hcfg, hsamples, hseen⟩ := hstill hshows htaken
      refine ⟨hnow, hcfg, hsamples, hseen, fun o ho => ?_⟩
      have hnone : outs = [] := hnone
      rw [hnone] at ho
      cases ho
    | true =>
      obtain ⟨⟨hview, hnow⟩, houts⟩ := Host.handle_appendEntries s.leaderId hmsg hadopt
      rw [hh] at hview hnow houts
      have htaken : s.follower.taken m.msg = some skewMs := by
        rw [hmsg] at hadopt ⊢
        simp [Host.taken, hadopt]
      rw [observeLeader_shown hinv hsent hsent' hskew hdue] at hview
      rw [htaken]
      simp only [Option.map_some, Option.toList_some]
      refine ⟨hnow, (ClockView.mk.inj hview).1, fun peer => ?_, fun g hg => ?_, fun o ho => ?_⟩
      · rw [samplesOf_clockView hview]
        split
        · next heq =>
          subst heq
          refine Node.samplesOf_push_window (f := k.shown) ?_ (s.follower.now, skewMs)
          exact (hinv.shown s.leaderId).trans (if_pos rfl)
        · next hne =>
          rw [samplesOf_pushSample_ne hne]
          exact (hinv.shown peer).trans (if_neg hne)
      · rcases List.mem_append.1 hg with hg | hg
        · exact hinv.adopted g hg
        · obtain rfl := List.mem_singleton.1 hg
          exact hskew
      · obtain ⟨t, ok, i, c, hmsg'⟩ := houts o ho
        have hclock := hinv.clock
        exact .inl ⟨t, ok, i, c, _, m.sentMs, hmsg', hdue.symm, hsent, hclock, hinv.follower_pos,
          hinv.follower_lt⟩
  · obtain ⟨hshows, houts⟩ := Host.handle_installSnapshot s.follower s.leaderId term l json
    rw [← hmsg, hh] at hshows houts
    have htaken : s.follower.taken m.msg = none := by
      rw [hmsg]
      rfl
    obtain ⟨hnow, hcfg, hsamples, hseen⟩ := hstill hshows htaken
    refine ⟨hnow, hcfg, hsamples, hseen, fun o ho => ?_⟩
    obtain ⟨t, f, ok, i, hmsg'⟩ := houts o ho
    exact .inr ⟨t, f, ok, i, hmsg'⟩

/-- What the leader makes of an answer that is due. -/
theorem leader_handles (hinv : Inv k s) {m : Nat × Message} (hm : Reply k s.followerId m)
    (hdue : s.leader.now = m.1 + k.delayMs) {outs : List Outbound} {h : Host}
    (hh : Host.handle s.followerId m.2 s.leader = (outs, h)) :
    h.now = s.leader.now ∧ h.node.cfg = s.leader.node.cfg ∧
      (∀ peer, ∀ x ∈ h.node.samplesOf peer,
        peer = s.followerId ∧ x.offsetMs = k.theta ∧ x.rttMs = 2 * k.delayMs) ∧
      ∀ o ∈ outs, Request k s.leaderId ⟨h.now, o.msg, h.node.correctedEstimateMs s.followerId h.now⟩ := by
  have hstill : h.Shows s.leader.node.clockView s.leader.now → h.now = s.leader.now ∧
      h.node.cfg = s.leader.node.cfg ∧ ∀ peer, ∀ x ∈ h.node.samplesOf peer,
        peer = s.followerId ∧ x.offsetMs = k.theta ∧ x.rttMs = 2 * k.delayMs := by
    rintro ⟨hview, hnow⟩
    refine ⟨hnow, (ClockView.mk.inj hview).1, fun peer => ?_⟩
    rw [samplesOf_clockView hview]
    exact hinv.measured peer
  obtain ⟨term, success, matchIndex, conflictIndex, senderMs, echoMs, hmsg, hecho, hepos, hstamp, hspos, hslt⟩ |
    ⟨term, f, success, i, hmsg⟩ := hm
  · cases hadopt : (Fallible.exec (Host.adoptTerm m.2) s.leader).1.isOk with
    | false =>
      have hinner : Host.handleInner s.followerId m.2 = Host.adoptTerm m.2 >>= fun _ =>
          Host.handleAppendEntriesResp term s.followerId success matchIndex conflictIndex senderMs
            echoMs := by
        rw [hmsg]
        rfl
      obtain ⟨hshows, hnone⟩ := (Host.handle_of_adopt hinner).1 hadopt
      rw [hh] at hshows hnone
      obtain ⟨hnow, hcfg, hsamples⟩ := hstill hshows
      have hnone : outs = [] := hnone
      rw [hnone]
      exact ⟨hnow, hcfg, hsamples, fun o ho => nomatch ho⟩
    | true =>
      obtain ⟨⟨hview, hnow⟩, houts⟩ := Host.handle_appendEntriesResp s.followerId hmsg hadopt
      rw [hh] at hview hnow houts
      have hlt := hinv.leader_lt
      have hcap := k.delay_le
      obtain ⟨x, hxstamp, hxarrival, hxsent, hxback, hxthere⟩ : ∃ x : RoundTrip k.theta, x.stamp = senderMs ∧
          x.arrival = s.leader.now ∧ x.sent = echoMs ∧ x.back = k.delayMs ∧ x.there = k.delayMs := by
        refine ⟨⟨echoMs, k.delayMs, k.delayMs, senderMs, by omega, hepos, hspos, hslt, by omega, by omega⟩,
          rfl, ?_, rfl, rfl, rfl⟩
        show echoMs + k.delayMs + k.delayMs = s.leader.now
        omega
      rw [← hxstamp, ← hxarrival, ← hxsent, Node.observeClockRtt_eq] at hview
      have hnow' : h.now = s.leader.now := hnow
      have hcfg : h.node.cfg = s.leader.node.cfg := (ClockView.mk.inj hview).1
      have hsamples : ∀ peer, ∀ y ∈ h.node.samplesOf peer,
          peer = s.followerId ∧ y.offsetMs = k.theta ∧ y.rttMs = 2 * k.delayMs := by
        intro peer y hy
        rw [samplesOf_clockView hview] at hy
        rcases eq_or_ne peer s.followerId with rfl | hne
        · obtain ⟨w, hw, heq⟩ := Node.samplesOf_pushSample s.leader.node s.followerId x.sample
          rw [heq, List.mem_append, List.mem_singleton] at hy
          rcases hy with hy | rfl
          · exact hinv.measured _ y (hw y hy)
          · refine ⟨rfl, ?_, ?_⟩
            · show k.theta - x.back + ((x.there + x.back) / 2 : Nat) = k.theta
              rw [hxback, hxthere]
              omega
            · show x.there + x.back = 2 * k.delayMs
              omega
        · rw [samplesOf_pushSample_ne hne] at hy
          exact hinv.measured peer y hy
      refine ⟨hnow', hcfg, hsamples, fun o ho => ?_⟩
      obtain ⟨n, d, hn, ho⟩ := houts o ho
      rw [← hnow'] at ho
      have hclock := hinv.clock
      have hpos := hinv.follower_pos
      refine request_appendFor (n := h.node) (fun x hx => (hsamples _ x hx).2) ?_
        (congrArg RaftConfig.nodeId hcfg) (by rw [hnow']; exact hinv.leader_pos) (by omega) ho
      rw [hn, hview, ← hxstamp, ← hxarrival, ← hxsent, Node.observeClockRtt_eq]
  · obtain ⟨hshows, hnone⟩ := Host.handle_installSnapshotResp s.leader s.followerId term f success i
    rw [← hmsg, hh] at hshows hnone
    obtain ⟨hnow, hcfg, hsamples⟩ := hstill hshows
    have hnone : outs = [] := hnone
    rw [hnone]
    exact ⟨hnow, hcfg, hsamples, fun o ho => nomatch ho⟩

/-! ## Runs -/

theorem Inv.step (hinv : Inv k s) {e : ExchangeEvent} (hs : s.step k e = some s') : Inv k s' := by
  cases e with
  | elapse ms =>
    simp only [Exchange.step] at hs
    split at hs
    · next hc =>
      cases hs
      have hclock := hinv.clock
      have hpos := hinv.leader_pos
      have hpos' := hinv.follower_pos
      exact { hinv with
        clock := by push_cast; omega
        leader_pos := by show 0 < s.leader.now + ms; omega
        follower_pos := by show 0 < s.follower.now + ms; omega
        leader_lt := hc.2.1
        follower_lt := hc.2.2 }
    · cases hs
  | send =>
    cases hs
    have hpos := hinv.follower_pos
    have hclock := hinv.clock
    refine { hinv with down := fun m hm => ?_ }
    rcases List.mem_append.1 hm with hm | hm
    · exact hinv.down m hm
    · obtain ⟨o, ho, rfl⟩ := List.mem_map.1 hm
      exact request_appendFor (fun x hx => (hinv.measured _ x hx).2) rfl rfl hinv.leader_pos (by omega)
        (List.mem_filter.1 ho).1
  | receive =>
    simp only [Exchange.step] at hs
    split at hs
    · cases hs
    · next m rest hdown =>
      split at hs
      · next hdue =>
        rcases hh : Host.handle s.leaderId m.msg s.follower with ⟨outs, h⟩
        rw [hh] at hs
        cases hs
        have hm : Request k s.leaderId m := hinv.down m (by rw [hdown]; exact .head _)
        obtain ⟨hnow, hcfg, hsamples, hseen, houts⟩ := follower_handles hinv hm hdue hh
        have hid : h.node.cfg.nodeId = s.followerId := congrArg RaftConfig.nodeId hcfg
        refine ⟨?_, hinv.leader_pos, ?_, hinv.leader_lt, ?_, ?_, hsamples, hseen, fun m' hm' => ?_, fun m' hm' => ?_⟩
        · exact (congrArg Nat.cast hnow).trans hinv.clock
        · exact hnow ▸ hinv.follower_pos
        · exact hnow ▸ hinv.follower_lt
        · intro peer x hx
          exact (hinv.measured peer x hx).imp_left (·.trans hid.symm)
        · exact hinv.down m' (by rw [hdown]; exact .tail _ hm')
        · show Reply k h.node.cfg.nodeId m'
          rw [hid]
          rcases List.mem_append.1 hm' with hm' | hm'
          · exact hinv.up m' hm'
          · obtain ⟨o, ho, rfl⟩ := List.mem_map.1 hm'
            exact houts o (List.mem_filter.1 ho).1
      · cases hs
  | hear =>
    simp only [Exchange.step] at hs
    split at hs
    · cases hs
    · next m rest hup =>
      split at hs
      · next hdue =>
        rcases hh : Host.handle s.followerId m.2 s.leader with ⟨outs, h⟩
        rw [hh] at hs
        cases hs
        have hm : Reply k s.followerId m := hinv.up m (by rw [hup]; exact .head _)
        obtain ⟨hnow, hcfg, hsamples, houts⟩ := leader_handles hinv hm hdue hh
        have hid : h.node.cfg.nodeId = s.leaderId := congrArg RaftConfig.nodeId hcfg
        refine ⟨?_, ?_, hinv.follower_pos, ?_, hinv.follower_lt, hsamples, fun peer => ?_, hinv.adopted,
          fun m' hm' => ?_, fun m' hm' => ?_⟩
        · exact hinv.clock.trans (by rw [← hnow])
        · exact hnow ▸ hinv.leader_pos
        · exact hnow ▸ hinv.leader_lt
        · show s.follower.node.samplesOf peer = if peer = h.node.cfg.nodeId then _ else _
          rw [hid]
          exact hinv.shown peer
        · show Request k h.node.cfg.nodeId m'
          rw [hid]
          rcases List.mem_append.1 hm' with hm' | hm'
          · exact hinv.down m' hm'
          · obtain ⟨o, ho, rfl⟩ := List.mem_map.1 hm'
            exact houts o (List.mem_filter.1 ho).1
        · exact hinv.up m' (by rw [hup]; exact .tail _ hm')
      · cases hs
  | leaderElse h =>
    cases hs
    exact ⟨hinv.clock, hinv.leader_pos, hinv.follower_pos, hinv.leader_lt, hinv.follower_lt, hinv.measured,
      hinv.shown, hinv.adopted, hinv.down, hinv.up⟩
  | followerElse h =>
    cases hs
    exact ⟨hinv.clock, hinv.leader_pos, hinv.follower_pos, hinv.leader_lt, hinv.follower_lt, hinv.measured,
      hinv.shown, hinv.adopted, hinv.down, hinv.up⟩

theorem Inv.run {h : History Exchange ExchangeEvent}
    (hr : Run (Exchange.step k) (fun _ _ _ => True) (Initial k) h s) : Inv k s := by
  refine hr.invariant (I := fun _ s => Inv k s) (fun _ h0 => .initial h0) ?_
  intro _ t e t' _ hinv _ hs
  exact hinv.step hs

/-! ## The two-sample rule -/

omit [SerdeJson] in
/-- The leader's estimate is exact. -/
theorem Inv.leader_sound (hinv : Inv k s) (hle : k.theta.natAbs ≤ s.leader.node.cfg.maxSkewMs) :
    s.leader.node.skewExceeded s.leader.now = false := by
  refine Bool.eq_false_iff.2 fun hex => ?_
  obtain ⟨peer, -, v, hv, hlt⟩ := (Node.skewExceeded_iff _ _).1 hex
  obtain ⟨x, hx, rfl⟩ := peerOffsetFiltered_mem hv
  rw [(hinv.measured peer x (List.mem_filter.1 hx).1).2.1] at hlt
  omega

omit [SerdeJson] in
theorem Inv.freshSamples_eq (hinv : Inv k s) :
    s.follower.node.freshSamples s.leaderId s.follower.now = s.recent.map k.shown := by
  have hat : ∀ g, (k.shown g).atMs = g.1 := fun g => by
    unfold Link.shown
    split <;> rfl
  have hshown := (hinv.shown s.leaderId).trans (if_pos rfl)
  unfold Node.freshSamples recent
  rw [hshown, List.filter_map]
  refine congrArg _ (List.filter_congr fun g _ => ?_)
  simp only [Function.comp_apply, hat]

omit [SerdeJson] in
/-- A skew that is not exceeded is taken for one exactly where the follower is blind and the one-way
observation exceeds the bound. -/
theorem Inv.follower_exceeded_iff (hinv : Inv k s)
    (hle : k.theta.natAbs ≤ s.follower.node.cfg.maxSkewMs) :
    s.follower.node.skewExceeded s.follower.now = true ↔
      s.follower.node.cfg.maxSkewMs < (k.theta + k.delayMs).natAbs ∧ s.Blind := by
  have hfresh := hinv.freshSamples_eq
  have hz : ∀ x ∈ s.follower.node.freshSamples s.leaderId s.follower.now, x.rttMs = 0 := by
    rw [hfresh]
    intro x hx
    obtain ⟨g, -, rfl⟩ := List.mem_map.1 hx
    unfold Link.shown
    split <;> rfl
  rw [Node.skewExceeded_iff]
  constructor
  · rintro ⟨peer, htwo, v, hv, hlt⟩
    have hpeer : peer = s.leaderId := by
      by_contra hne
      have hnone : s.follower.node.samplesOf peer = [] := (hinv.shown peer).trans (if_neg hne)
      simp [Node.freshSamples, hnone, CLOCK_VIOLATION_MIN_SAMPLES] at htwo
    subst hpeer
    rw [Node.peerOffsetFiltered_oneWay hz] at hv
    obtain ⟨b, hb, rfl⟩ := Option.map_eq_some_iff.1 hv
    have hall : ∀ g ∈ s.recent, s.follower.node.cfg.maxSkewMs < (k.shown g).offsetMs.natAbs := by
      intro g hg
      have hmem : k.shown g ∈ s.follower.node.freshSamples s.leaderId s.follower.now := by
        rw [hfresh]
        exact List.mem_map_of_mem hg
      have hmin : b.offsetMs.natAbs ≤ (k.shown g).offsetMs.natAbs :=
        List.le_of_mem_argmin (f := fun x : ClockSample => x.offsetMs.natAbs) hmem hb
      omega
    have hzero : ∀ g ∈ s.recent, g.2 = 0 := by
      intro g hg
      have hmem : g ∈ s.seen := List.mem_of_mem_drop (List.mem_filter.1 hg).1
      have hover := hall g hg
      rcases hinv.adopted g hmem with h0 | habs
      · exact h0
      · by_contra hne
        rw [Link.shown, if_pos (Nat.pos_of_ne_zero hne)] at hover
        simp only [Int.natAbs_natCast] at hover
        omega
    rw [hfresh, List.length_map] at htwo
    refine ⟨?_, htwo, hzero⟩
    obtain ⟨g, hg⟩ := List.exists_mem_of_length_pos (Nat.lt_of_lt_of_le (by decide) htwo)
    have hover := hall g hg
    rw [Link.shown, if_neg (Nat.not_lt.2 (Nat.le_of_eq (hzero g hg)))] at hover
    simp only at hover
    omega
  · rintro ⟨hover, htwo, hzero⟩
    have hlen : CLOCK_VIOLATION_MIN_SAMPLES ≤
        (s.follower.node.freshSamples s.leaderId s.follower.now).length := by
      rw [hfresh, List.length_map]
      exact htwo
    refine ⟨s.leaderId, hlen, ?_⟩
    obtain ⟨b, hb⟩ := Node.exists_smallest (List.ne_nil_of_length_pos (Nat.lt_of_lt_of_le (by decide) hlen))
    refine ⟨b.offsetMs, by rw [Node.peerOffsetFiltered_oneWay hz, hb]; rfl, ?_⟩
    have hmem := List.argmin_mem hb
    rw [hfresh] at hmem
    obtain ⟨g, hg, rfl⟩ := List.mem_map.1 hmem
    rw [Link.shown, if_neg (Nat.not_lt.2 (Nat.le_of_eq (hzero g hg)))]
    simp only
    omega

/-! ## The main theorem -/

omit [SerdeJson] in
theorem getLast?_windowOf {α : Type} (xs : List α) (x : α) :
    (Node.windowOf (xs ++ [x])).getLast? = some x := by
  unfold Node.windowOf
  rw [List.getLast?_drop, if_neg, List.getLast?_append]
  · rfl
  · rw [List.length_append, List.length_singleton]
    unfold CLOCK_SAMPLE_WINDOW
    omega

/-- A corrected estimate is taken over exactly if the clocks differ. -/
theorem receive_adopts (hinv : Inv k s) (hs : s.step k .receive = some s') {m : Sent} {rest : List Sent}
    {e : Nat} (hdown : s.toFollower = m :: rest) (hcorr : m.corrected = some e)
    (htaken : (s.follower.taken m.msg).isSome = true) :
    ∃ x, (s'.follower.node.samplesOf s.leaderId).getLast? = some x ∧ (x.offsetMs = e ↔ k.theta ≠ 0) := by
  have hm : Request k s.leaderId m := hinv.down m (by rw [hdown]; exact .head _)
  obtain ⟨skewMs, htaken⟩ := Option.isSome_iff_exists.1 htaken
  have hskew : e = k.theta.natAbs ∧ skewMs = e ∧ 0 < k.delayMs := by
    obtain ⟨-, -, ⟨term, prevLogIndex, prevLogTerm, entries, leaderCommit, skewMs', hmsg, -, hest⟩ |
      ⟨term, l, json, hmsg⟩⟩ := hm
    · obtain ⟨he, hsk, hpos⟩ := hest e hcorr
      rw [hmsg, Host.taken] at htaken
      split at htaken
      · cases htaken
        exact ⟨he, hsk, hpos⟩
      · cases htaken
    · rw [hmsg] at htaken
      cases htaken
  obtain ⟨he, rfl, hpos⟩ := hskew
  simp only [Exchange.step, hdown] at hs
  split at hs
  · next hdue =>
    rcases hh : Host.handle s.leaderId m.msg s.follower with ⟨outs, h⟩
    rw [hh] at hs
    cases hs
    obtain ⟨-, -, hsamples, -, -⟩ := follower_handles hinv hm hdue hh
    have hshown := (hsamples s.leaderId).trans (if_pos rfl)
    rw [htaken] at hshown
    refine ⟨k.shown (s.follower.now, skewMs), ?_, ?_⟩
    · show (h.node.samplesOf s.leaderId).getLast? = _
      rw [hshown, List.getLast?_map]
      simp only [Option.map_some, Option.toList_some]
      rw [getLast?_windowOf]
      rfl
    · unfold Link.shown
      split
      · next hlt =>
        have hlt : 0 < skewMs := hlt
        simp only [true_iff]
        omega
      · next hge =>
        have hge : ¬0 < skewMs := hge
        simp only
        omega
  · cases hs

/-- **What the follower takes over.** In every run, the follower takes over each corrected estimate and
neither node finds a skew exceeded that is not, exactly if it is told no corrected estimate of clocks that
agree, and is not blind while the one-way observation exceeds a bound that the skew keeps. -/
theorem adopts_and_sound_iff (k : Link) {h : History Exchange ExchangeEvent}
    (hr : Run (step k) (fun _ _ _ => True) (Initial k) h s) :
    (Adopts k h ∧ ∀ t ∈ h.states s, t.Sound k) ↔
      (k.theta = 0 → ∀ t earlier, (t, .receive) :: earlier <:+ h → ¬t.Informed) ∧
        ∀ t ∈ h.states s, k.theta.natAbs ≤ t.follower.node.cfg.maxSkewMs →
          t.follower.node.cfg.maxSkewMs < (k.theta + k.delayMs).natAbs → ¬t.Blind := by
  refine and_congr ⟨fun hadopts hzero t earlier hsuf hinf => ?_, fun hnone t earlier hsuf => ?_⟩
    (forall₂_congr fun t ht => ?_)
  · obtain ⟨m, rest, hdown, hcorr, htaken⟩ := hinf
    obtain ⟨e, hcorr⟩ := Option.isSome_iff_exists.1 hcorr
    obtain ⟨later, rfl⟩ := hsuf
    obtain ⟨t', hs, -⟩ := Run.rel_after (R := fun _ _ => True) (fun _ => trivial)
      (fun _ _ _ _ _ => trivial) (fun _ _ _ _ _ _ _ => trivial) hr
    have hinv := Inv.run (hr.of_suffix ⟨later, rfl⟩).1
    obtain ⟨x, hx, hoff⟩ := hadopts t earlier ⟨later, rfl⟩ m rest e hdown hcorr htaken t' hs
    obtain ⟨y, hy, hiff⟩ := receive_adopts hinv hs hdown hcorr htaken
    rw [hx] at hy
    cases hy
    exact hiff.1 hoff hzero
  · intro m rest e hdown hcorr htaken t' hs
    have hinv := Inv.run (hr.of_suffix hsuf).1
    obtain ⟨x, hx, hiff⟩ := receive_adopts hinv hs hdown hcorr htaken
    refine ⟨x, hx, hiff.2 fun hzero => hnone hzero t earlier hsuf ?_⟩
    exact ⟨m, rest, hdown, by rw [hcorr]; rfl, htaken⟩
  · obtain ⟨h', hr'⟩ := hr.of_mem ht
    have hinv := Inv.run hr'
    unfold Sound
    rw [and_iff_right fun hle => hinv.leader_sound hle]
    refine forall_congr' fun hle => ?_
    rw [Bool.eq_false_iff, ne_eq, hinv.follower_exceeded_iff hle, not_and]

end

section
attribute [local instance] SerdeJson.sample

/-- One of two nodes, as opened. -/
def opened (nodeId : String) (now : Nat) : Host :=
  ⟨Host.opened (RaftConfig.new nodeId 0 ["n1", "n2"]) ⟨0, [], zeroHash, 0⟩ (StateMachine.new 0 1000)
    HardState.default none, ⟨Disk.empty, Faults.none⟩, now⟩

/-- The clock of the follower is that much ahead. -/
def started (ahead : Nat) : Exchange := ⟨opened "n1" 1000, opened "n2" (1000 + ahead), [], [], []⟩

/-- An `AppendEntries` is answered, and another one is sent. -/
def twice (delayMs : Nat) : List ExchangeEvent :=
  [.send, .elapse delayMs, .receive, .elapse delayMs, .hear, .send, .elapse delayMs, .receive]

theorem samplesOf_opened (nodeId peer : String) (now : Nat) : (opened nodeId now).node.samplesOf peer = [] :=
  Std.ExtTreeMap.getD_empty

theorem started_initial {k : Link} {ahead : Nat} (hk : k.theta = ahead) (hlt : ahead < 2 ^ 62) :
    Initial k (started ahead) where
  clock := by
    rw [hk]
    exact Nat.cast_add 1000 ahead
  leader_pos := Nat.succ_pos _
  follower_pos := by show 0 < 1000 + ahead; omega
  leader_lt := by show 1000 < 2 ^ 63; omega
  follower_lt := by show 1000 + ahead < 2 ^ 63; omega
  measured peer x hx := by
    rw [show (started ahead).leader.node.samplesOf peer = [] from samplesOf_opened _ _ _] at hx
    cases hx
  shown peer := by
    rw [show (started ahead).follower.node.samplesOf peer = [] from samplesOf_opened _ _ _]
    split <;> rfl
  unadopted g hg := by cases hg
  noneDown := rfl
  noneUp := rfl

def nearby : Link := ⟨300, 100, by decide⟩

def far : Link := ⟨0, 1500, by decide⟩

theorem twice_nearby : ∃ h s, Run (step nearby) (fun _ _ _ => True) (Initial nearby) h s ∧
    (s.follower.node.samplesOf "n1").map (·.offsetMs) = [-400, 300] ∧ Adopts nearby h ∧
    ∀ t ∈ h.states s, t.Sound nearby := by
  have hfollow : (follow (step nearby) (fun _ _ _ => True) (twice 100) [] (started 300)).map
      (fun r => ((r.2.follower.node.samplesOf "n1").map (·.offsetMs),
        (r.1.states r.2).all fun t => decide (t.follower.node.cfg.maxSkewMs = 1000))) =
      some ([-400, 300], true) := by decide +kernel
  obtain ⟨⟨h, s⟩, hf, hs⟩ := Option.map_eq_some_iff.1 hfollow
  simp only [Prod.mk.injEq] at hs
  obtain ⟨hsamples, hmax⟩ := hs
  have hr := Run.follow (.start (started_initial (k := nearby) rfl (by decide))) hf
  refine ⟨h, s, hr, hsamples, (adopts_and_sound_iff nearby hr).2 ⟨fun hzero => ?_, fun t ht _ hlt => ?_⟩⟩
  · exact absurd hzero (by decide)
  · have hthousand : t.follower.node.cfg.maxSkewMs = 1000 := of_decide_eq_true (List.all_eq_true.1 hmax t ht)
    rw [hthousand] at hlt
    exact absurd hlt (by decide)

/-- The clocks agree, and the follower takes them to be a second and a half apart. -/
theorem twice_far : ¬∀ k h s, Run (step k) (fun _ _ _ => True) (Initial k) h s →
    Adopts k h ∧ ∀ t ∈ h.states s, t.Sound k := by
  intro hall
  have hfollow : (follow (step far) (fun _ _ _ => True) (twice 1500) [] (started 0)).map
      (fun r => (r.2.follower.node.cfg.maxSkewMs, r.2.follower.node.skewExceeded r.2.follower.now)) =
      some (1000, true) := by decide +kernel
  obtain ⟨⟨h, s⟩, hf, hs⟩ := Option.map_eq_some_iff.1 hfollow
  simp only [Prod.mk.injEq] at hs
  obtain ⟨hmax, hexceeded⟩ := hs
  have hr := Run.follow (.start (started_initial (k := far) rfl (by decide))) hf
  have hsound := ((hall far h s hr).2 s (History.mem_states.2 (.inl rfl))).2 (by rw [hmax]; decide)
  rw [hexceeded] at hsound
  cases hsound

end

end Exchange
end Rdsctl.Ha
