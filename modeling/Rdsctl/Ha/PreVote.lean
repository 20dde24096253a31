import Rdsctl.Ha.Cluster
import Rdsctl.Ha.Frame
import Rdsctl.Ha.Ballot

/-!
# Pre-votes

A node asks for pre-votes before it raises its term (`start_pre_vote`, `start_election` and the
`RequestVoteResp` arm of `src/ha/raft.rs`). A reply names neither the round nor the kind of vote it
answers, so a grant of an earlier round, or of a real election of the same term, is counted with
those of the round that is going on. `gated_of_fresh` says that the pre-vote gates the elections of
every run in which no such grant arrives.
-/

namespace Rdsctl.Ha

open Fallible

/-- The node collects pre-votes. -/
def Node.probing (n : Node) : Prop := n.role = .candidate ∧ n.campaign = .preVote

instance (n : Node) : Decidable n.probing := inferInstanceAs (Decidable (_ ∧ _))

/-- The fields of a node that a round of pre-votes depends on. -/
def Node.round (n : Node) : RaftConfig × HardState × Role × Campaign × Finset String :=
  (n.cfg, n.hard, n.role, n.campaign, n.preVotes)

/-- The term a request brings. -/
def Request.term : Request → Nat
  | .handle _ msg => msg.term
  | _ => 0

namespace Host

/-! ## What a call does to a round -/

/-- A round that goes on is the one that went on before, with the same pre-votes. -/
structure SameRound (h h' : Host) : Prop where
  cfg : h'.node.cfg = h.node.cfg
  probe : h'.node.probing → h.node.probing ∧ h'.node.preVotes = h.node.preVotes

/-- And the term is raised to that of a message at most. -/
structure Calm (t : Nat) (h h' : Host) : Prop extends SameRound h h' where
  term : h'.node.hard.currentTerm ≤ max h.node.hard.currentTerm t

variable {t : Nat}

theorem SameRound.refl (h : Host) : SameRound h h := ⟨rfl, fun hp => ⟨hp, rfl⟩⟩

theorem SameRound.trans {a b c : Host} (hab : SameRound a b) (hbc : SameRound b c) :
    SameRound a c := by
  refine ⟨hbc.cfg.trans hab.cfg, fun hp => ?_⟩
  obtain ⟨hpb, hcb⟩ := hbc.probe hp
  obtain ⟨hpa, hba⟩ := hab.probe hpb
  exact ⟨hpa, hcb.trans hba⟩

theorem Calm.refl (h : Host) : Calm t h h := ⟨.refl h, Nat.le_max_left _ _⟩

theorem Calm.trans {a b c : Host} (hab : Calm t a b) (hbc : Calm t b c) : Calm t a c := by
  refine ⟨hab.toSameRound.trans hbc.toSameRound, ?_⟩
  have h1 := hab.term
  have h2 := hbc.term
  omega

instance : Std.Refl SameRound := ⟨.refl⟩

instance : IsTrans Host SameRound := ⟨fun _ _ _ => .trans⟩

instance : Std.Refl (Calm t) := ⟨.refl⟩

instance : IsTrans Host (Calm t) := ⟨fun _ _ _ => .trans⟩

theorem Calm.of_round {h h' : Host} (hn : h'.node.round = h.node.round) : Calm t h h' := by
  simp only [Node.round, Prod.mk.injEq] at hn
  obtain ⟨hcfg, hhard, hrole, hcam, hpre⟩ := hn
  refine ⟨⟨hcfg, fun hp => ?_⟩, by rw [hhard]; exact Nat.le_max_left _ _⟩
  rw [Node.probing, hrole, hcam] at hp
  exact ⟨hp, hpre⟩

theorem modifyNode_calm {f : Node → Node} (hf : ∀ n, (f n).round = n.round) :
    Respects (Calm t) (modifyNode f) := fun h => .of_round (hf h.node)

theorem onStore_calm {α : Type} (m : StoreM α) : Respects (Calm t) (onStore m) :=
  fun _ => .of_round rfl

theorem onLog_calm (f : Log → StoreM Log) : Respects (Calm t) (onLog f) :=
  .bind .get fun _ => .bind (onStore_calm _) fun _ => modifyNode_calm fun _ => rfl

theorem persist_calm : Respects (Calm t) persistHardState := .bind .get fun _ => onStore_calm _

/-- A follower collects no pre-votes. -/
theorem retire_calm (leader : Option String) :
    Respects (Calm t) (modifyNode fun n => n.retire leader) :=
  fun _ => ⟨⟨rfl, fun hp => by cases hp.1⟩, Nat.le_max_left _ _⟩

theorem becomeFollower_calm {term : Nat} {leader : Option String} {h : Host}
    (hle : term ≤ max h.node.hard.currentTerm t) :
    Calm t h (exec (becomeFollower term leader) h).2 := by
  have hstep : Calm t h { h with node := h.node.inTerm term } := ⟨⟨rfl, fun hp => ⟨hp, rfl⟩⟩, hle⟩
  unfold becomeFollower
  rw [exec_get_bind]
  split
  · rw [exec_modifyNode_bind]
    exact hstep.trans (Respects.bind persist_calm (fun _ => retire_calm leader) _)
  · exact retire_calm leader h

section
variable [SerdeJson]

/-- What the calls are made of leaves a round alone. -/
theorem calmRule (t : Nat) : CallRule t (Calm t) where
  refl := .refl
  trans _ _ _ := .trans
  quiet f hf := modifyNode_calm fun n => by
    have hcore := hf n
    simp only [Node.core, Prod.mk.injEq] at hcore
    simp [Node.round, hcore]
  follow term leader h hle := becomeFollower_calm hle
  votes candidate h := ⟨⟨rfl, fun hp => ⟨hp, rfl⟩⟩, Nat.le_max_left _ _⟩
  leads now h := ⟨⟨rfl, fun hp => by cases hp.1⟩, Nat.le_max_left _ _⟩
  persist := persist_calm
  append batch := .onError (onLog_calm _) fun _ => .of_round rfl
  truncate start := onLog_calm _
  install f h _ _ := by
    unfold installSnapshot
    split
    · exact .refl h
    · refine Respects.bind (onStore_calm _) (fun _ => ?_) h
      refine .bind (modifyNode_calm fun _ => rfl) fun _ => ?_
      exact .bind (onLog_calm _) fun _ => modifyNode_calm fun _ => rfl
  snapshot := by
    refine .bind .get fun h => .ite (.pure _) (.ite (.pure _) ?_)
    refine .bind (onStore_calm _) fun _ => .bind (onStore_calm _) fun _ => ?_
    exact .bind (onLog_calm _) fun _ => .bind (modifyNode_calm fun _ => rfl) fun _ => .pure _

theorem startElection_round : Respects SameRound startElection := by
  have hcalm : ∀ {α : Type} {m : HostM α}, Respects (Calm 0) m → Respects SameRound m :=
    fun hm h => (hm h).toSameRound
  have hnext : Respects SameRound (modifyNode Node.nextTerm) := fun _ => ⟨rfl, fun hp => ⟨hp, rfl⟩⟩
  have hstand : Respects SameRound (modifyNode Node.stand) := fun _ => ⟨rfl, fun hp => by cases hp.2⟩
  refine .bind hnext fun _ => .bind (hcalm persist_calm) fun _ => .bind hstand fun _ => ?_
  refine .bind .get fun h => .bind (hcalm ((calmRule 0).reset id h.now fun _ => rfl)) fun _ => ?_
  exact .bind .get fun _ => .pure _

/-- What serving a request does to a round of pre-votes. -/
inductive Rounds (h : Host) : Request → Host → Prop
  | calm {req : Request} {h' : Host} (hc : Calm req.term h h')
      (hidle : req = .tick → h.node.role = .leader ∨ ¬h.node.electionDeadlineMs ≤ h.now) :
      Rounds h req h'
  | asks {h' : Host} (hrole : h.node.role ≠ .leader) (hdue : h.node.electionDeadlineMs ≤ h.now)
      (hcfg : h'.node.cfg = h.node.cfg) (hterm : h'.node.hard = h.node.hard)
      (hv : h'.node.preVotes = {h.node.cfg.nodeId}) : Rounds h .tick h'
  | counts {sender voter : String} {senderMs echoMs : Nat} {h' : Host} (hp : h.node.probing)
      (hcfg : h'.node.cfg = h.node.cfg)
      (hv : h'.node.probing → h'.node.preVotes = insert voter h.node.preVotes)
      (hterm : h'.node.hard.currentTerm ≤ h.node.hard.currentTerm ∨
        h.node.cfg.majority ≤ (insert voter h.node.preVotes).card) :
      Rounds h (.handle sender
        (.requestVoteResp h.node.hard.currentTerm voter true senderMs echoMs)) h'
  | told {sender leader : String} {term : Nat} {h' : Host} (hs : SameRound h h') :
      Rounds h (.handle sender (.timeoutNow term leader)) h'
  | reopens {cfg : RaftConfig} {h' : Host} (hm : h.node.cfg.sameMember cfg)
      (hcfg : h'.node.cfg = cfg) (hp : ¬h'.node.probing) : Rounds h (.restart cfg) h'

omit [SerdeJson] in
/-- Only the round counts. -/
theorem Rounds.congr {h h1 h2 : Host} {req : Request} (hr : Rounds h req h1)
    (hn : h2.node.round = h1.node.round) : Rounds h req h2 := by
  have hcalm : ∀ t, Calm t h1 h2 := fun t => .of_round hn
  have hhard : h2.node.hard = h1.node.hard := congrArg (fun r => r.2.1) hn
  have hpre : h2.node.preVotes = h1.node.preVotes := congrArg (fun r => r.2.2.2.2) hn
  have hcfg : h2.node.cfg = h1.node.cfg := (hcalm 0).cfg
  have hprobe : h2.node.probing → h1.node.probing := fun hp => ((hcalm 0).probe hp).1
  cases hr with
  | calm hc hidle => exact .calm (hc.trans (hcalm _)) hidle
  | asks hrole hdue hcfg1 hterm hv =>
    exact .asks hrole hdue (hcfg.trans hcfg1) (hhard.trans hterm) (hpre.trans hv)
  | counts hp hcfg1 hv hterm =>
    exact .counts hp (hcfg.trans hcfg1) (fun hp2 => hpre.trans (hv (hprobe hp2)))
      (by rw [hhard]; exact hterm)
  | told hs => exact .told (hs.trans (hcalm 0).toSameRound)
  | reopens hm hcfg1 hp => exact .reopens hm (hcfg.trans hcfg1) fun hp2 => hp (hprobe hp2)

theorem tick_rounds (h : Host) : Rounds h .tick (exec tick h).2 := by
  unfold tick
  rw [exec_get_bind]
  split
  · next hlead =>
    split
    · exact .calm (.of_round rfl) fun _ => .inl hlead
    · exact .calm (.refl h) fun _ => .inl hlead
  · next hrole =>
    split
    · next hdue =>
      rw [exec_modifyNode_bind, exec_get_bind]
      have hasks : Rounds h .tick { h with node := h.node.startPreVote h.now } := by
        obtain ⟨_, _, hn⟩ := h.node.resetElectionDeadline_frame h.now
        refine .asks hrole hdue ?_ ?_ ?_ <;>
          simp only [Node.startPreVote, hn, if_neg hrole]
      split
      · exact hasks
      · exact hasks
    · next hdue => exact .calm (.refl h) fun _ => .inr hdue

omit [SerdeJson] in
/-- The rule on higher terms leaves a node that collects pre-votes as it is, or stops. -/
theorem exec_adoptTerm_probing {msg : Message} {h h' : Host} {u : Unit}
    (hx : exec (adoptTerm msg) h = (.ok u, h')) : h' = h ∨ ¬h'.node.probing := by
  unfold adoptTerm becomeFollower at hx
  rw [exec_get_bind] at hx
  split at hx
  · refine .inr fun hp => ?_
    rw [exec_get_bind] at hx
    split at hx
    · rw [exec_modifyNode_bind] at hx
      rcases hs : exec persistHardState { h with node := h.node.inTerm msg.term } with ⟨(e | v), h1⟩
      · rw [exec_bind_error hs] at hx
        cases hx
      · rw [exec_bind_ok hs] at hx
        cases hx
        cases hp.1
    · cases hx
      cases hp.1
  · cases hx
    exact .inl rfl

theorem reply_rounds (sender : String) (term : Nat) (voter : String) (granted : Bool)
    (senderMs echoMs : Nat) (h : Host) :
    Rounds h (.handle sender (.requestVoteResp term voter granted senderMs echoMs))
      (exec (handleInner sender (.requestVoteResp term voter granted senderMs echoMs)) h).2 := by
  have hcalm : Calm term h (exec (adoptTerm (.requestVoteResp term voter granted senderMs echoMs))
      h).2 := (calmRule term).adoptTerm (Nat.le_refl _) h
  unfold handleInner
  rcases ha : exec (adoptTerm (.requestVoteResp term voter granted senderMs echoMs)) h with
    ⟨(e | u), h1⟩
  · rw [exec_bind_error ha]
    rw [ha] at hcalm
    exact .calm hcalm nofun
  have hprobe := exec_adoptTerm_probing ha
  rw [ha] at hcalm
  rw [exec_bind_ok ha]
  simp only [handleRequestVoteResp]
  rw [exec_get_bind, exec_modifyNode_bind, exec_get_bind]
  have hround : ((h1.node.acked voter h1.now).observeClockRtt voter senderMs h1.now echoMs).round =
      h1.node.round := by
    obtain ⟨_, hn⟩ := (h1.node.acked voter h1.now).observeClockRtt_frame voter senderMs h1.now echoMs
    rw [hn]
    rfl
  generalize (h1.node.acked voter h1.now).observeClockRtt voter senderMs h1.now echoMs = n1
    at hround ⊢
  have hseen : Calm term h ⟨n1, h1.store, h1.now⟩ := hcalm.trans (.of_round hround)
  simp only [Node.round, Prod.mk.injEq] at hround
  obtain ⟨hcfg, hhard, hrole1, hcam1, hpre⟩ := hround
  split
  · exact .calm hseen nofun
  next hterm =>
  rw [not_or, not_not, Bool.not_eq_false] at hterm
  obtain ⟨hterm, rfl⟩ := hterm
  split
  · exact .calm hseen nofun
  next hrole =>
  rw [not_not] at hrole
  split
  · next hcam =>
    have hp1 : h1.node.probing := ⟨hrole1 ▸ hrole, hcam1 ▸ hcam⟩
    obtain rfl : h1 = h := hprobe.resolve_right (not_not.2 hp1)
    obtain rfl : term = h1.node.hard.currentTerm := hterm.trans (congrArg _ hhard)
    have hcount : (n1.countPreVote voter).preVotes = insert voter h1.node.preVotes := by
      rw [← hpre]
      rfl
    rw [exec_modifyNode_bind, exec_get_bind]
    split
    · next hmaj =>
      have hstand := startElection_round ⟨n1.countPreVote voter, h1.store, h1.now⟩
      refine .counts hp1 (hstand.cfg.trans hcfg) (fun hp => (hstand.probe hp).2.trans hcount) ?_
      rw [← hcount, ← hcfg]
      exact .inr hmaj
    · refine .counts hp1 hcfg (fun _ => hcount) (.inl ?_)
      rw [← hhard]
      exact Nat.le_refl _
  · rw [exec_modifyNode_bind, exec_get_bind]
    have hvote : Calm term h ⟨n1.countVote voter, h1.store, h1.now⟩ := hseen.trans (.of_round rfl)
    split
    · exact .calm (hvote.trans ((calmRule term).becomeLeader _)) nofun
    · exact .calm hvote nofun
  · exact .calm hseen nofun

/-- Serving a request. -/
theorem serve_rounds {h h' : Host} {req : Request} {out : List Outbound}
    (hs : h.serve req = some (out, h')) : Rounds h req h' := by
  cases req with
  | tick => cases hs; exact tick_rounds h
  | propose op => cases hs; exact .calm ((calmRule 0).appendLocal op h) (by rintro ⟨⟩)
  | flush => cases hs; exact .calm ((calmRule 0).flush h) (by rintro ⟨⟩)
  | stepDown => cases hs; exact .calm ((calmRule 0).stepDown h) (by rintro ⟨⟩)
  | maybeSnapshot => cases hs; exact .calm ((calmRule 0).snapshot h) (by rintro ⟨⟩)
  | restart cfg =>
    rw [serve] at hs
    split at hs
    · next hm =>
      split at hs
      · next n st hx =>
        cases hs
        have hb := (openNode_ballot hx).2
        refine .reopens hm (congrArg Ballot.cfg hb) fun hp => ?_
        have hrole : n.role = .follower := congrArg Ballot.role hb
        exact absurd (hrole.symm.trans hp.1) (by decide)
      · cases hs
    · cases hs
  | handle sender msg =>
    rw [serve, Option.some_inj] at hs
    obtain rfl : (handle sender msg h).2 = h' := congrArg Prod.snd hs
    have hin : (handle sender msg h).2.node.round = (exec (handleInner sender msg) h).2.node.round := by
      unfold handle
      rcases exec (handleInner sender msg) h with ⟨(e | out), h1⟩ <;> rfl
    cases msg with
    | requestVoteResp term voter granted senderMs echoMs =>
      exact (reply_rounds sender term voter granted senderMs echoMs h).congr hin
    | timeoutNow term leader =>
      have hadopt : Respects SameRound (adoptTerm (.timeoutNow term leader)) :=
        fun h => ((calmRule _).adoptTerm (Nat.le_refl _) h).toSameRound
      have hreset : ∀ now, Respects SameRound (modifyNode fun n => n.resetElectionDeadline now) :=
        fun now h => ((calmRule 0).reset id now (fun _ => rfl) h).toSameRound
      have htold : Respects SameRound (handleInner sender (.timeoutNow term leader)) := by
        refine .bind hadopt fun _ => .bind .get fun h => .ite (.pure _) (.ite (.pure _) ?_)
        exact .bind (hreset h.now) fun _ => startElection_round
      exact (Rounds.told (htold h)).congr hin
    | _ =>
      exact .calm (((calmRule _).handleInner sender (Nat.le_refl _) rfl h).trans (.of_round hin))
        (by rintro ⟨⟩)

/-- A pre-vote request is answered by one reply, and nothing else is done. -/
theorem handle_probe (sender : String) (term : Nat) (candidate : String)
    (lastLogIndex lastLogTerm senderMs : Nat) (h : Host) :
    ∃ now dest, (handle sender (.requestVote term candidate lastLogIndex lastLogTerm true senderMs)
      h).1 = [⟨dest, .requestVoteResp h.node.hard.currentTerm h.node.cfg.nodeId
        (preVoteGranted h.node h.now term lastLogIndex lastLogTerm) now senderMs, false⟩] := by
  obtain ⟨_, hn⟩ := (h.node.acked sender h.now).observeClock_frame sender senderMs h.now
  have hstay : exec (adoptTerm (.requestVote term candidate lastLogIndex lastLogTerm true senderMs))
      h = (.ok (), h) := by
    unfold adoptTerm
    rw [exec_get_bind, if_neg (fun hc => by cases hc.2), exec_pure]
  unfold handle handleInner
  rw [exec_bind_ok hstay]
  simp only [handleRequestVote]
  rw [exec_get_bind, exec_modifyNode_bind, exec_get_bind, if_pos trivial, exec_pure, hn]
  exact ⟨h.now, candidate, rfl⟩

end

end Host

/-! ## Rounds of a cluster -/

/-- A pre-vote request of `i`. -/
def Message.isProbeOf (i : String) : Message → Bool
  | .requestVote _ candidate _ _ true _ => candidate == i
  | _ => false

def Message.isTimeoutNow : Message → Bool
  | .timeoutNow .. => true
  | _ => false

namespace Cluster

/-- The step is a `start_pre_vote` of `i`. -/
def startsRound (i : String) (c : Cluster) (e : Event) : Bool :=
  match e.call with
  | .tick => e.node == i && decide ((c.hosts i).node.role ≠ .leader) &&
      decide ((c.hosts i).node.electionDeadlineMs ≤ e.now)
  | _ => false

/-- The number of the first message after the last `start_pre_vote` of `i`. -/
def roundStart (i : String) : History Cluster Event → Option Nat
  | [] => none
  | (c, e) :: h => if startsRound i c e then some c.net.length else roundStart i h

/-- The step delivers a pre-vote request of `i` that was sent as number `r` or later. -/
def deliversProbe (i : String) (r : Nat) (c : Cluster) (e : Event) : Bool :=
  match e.call with
  | .deliver k => decide (r ≤ k) && (c.net[k]?).any fun p => p.msg.isProbeOf i
  | _ => false

/-- And `v`, which it is delivered to, grants it. -/
def grantsProbe (i v : String) (r : Nat) (c : Cluster) (e : Event) : Bool :=
  deliversProbe i r c e && e.node == v &&
    match e.call with
    | .deliver k =>
      match (c.net[k]?).map Packet.msg with
      | some (.requestVote term _ lastLogIndex lastLogTerm _ _) =>
        Host.preVoteGranted (c.hosts v).node e.now term lastLogIndex lastLogTerm
      | _ => false
    | _ => false

/-- The voters that have granted the pre-vote of the current round of `i`, and `i` itself. -/
def grantors (voters : List String) (i : String) (h : History Cluster Event) : Finset String :=
  (voters.filter fun v => v == i ||
    (roundStart i h).any fun r => h.any fun q => grantsProbe i v r q.1 q.2).toFinset

/-- The highest term the node knows in a step: its own, or that of the message delivered. -/
def knownTerm (c : Cluster) (e : Event) : Nat :=
  match e.call with
  | .deliver k =>
    max (c.hosts e.node).node.hard.currentTerm (((c.net[k]?).map fun p => p.msg.term).getD 0)
  | _ => (c.hosts e.node).node.hard.currentTerm

/-- The step is neither a restart nor a `TimeoutNow`. -/
def isOrdinary (c : Cluster) (e : Event) : Bool :=
  match e.call with
  | .restart _ => false
  | .deliver k => !(c.net[k]?).any fun p => p.msg.isTimeoutNow
  | _ => true

/-- An ordinary step that starts an election, which raises the term above those it knows, is one of
a node whose pre-vote a majority has granted in its current round. -/
def StepGated (voters : List String) (h : History Cluster Event) (c : Cluster) (e : Event)
    (c' : Cluster) : Prop :=
  isOrdinary c e = true → knownTerm c e < (c'.hosts e.node).node.hard.currentTerm →
    (c.hosts e.node).node.cfg.majority ≤ (grantors voters e.node h).card

/-- The pre-vote gates the elections of a run. -/
def Gated (voters : List String) : History Cluster Event → Cluster → Prop
  | [], _ => True
  | (c, e) :: h, c' => Gated voters h c ∧ StepGated voters h c e c'

/-- Message `k` was sent when a pre-vote request of the current round of `i` was delivered. -/
def answersRound (i : String) (h : History Cluster Event) (k : Nat) : Bool :=
  (roundStart i h).any fun r => h.any fun q => q.1.net.length == k && deliversProbe i r q.1 q.2

/-- The grant that the step counts as a pre-vote: one of its term that reaches a node in its pre-vote
campaign. -/
def countedGrant (c : Cluster) (e : Event) : Option Nat :=
  match e.call with
  | .deliver k =>
    match (c.net[k]?).map Packet.msg with
    | some (.requestVoteResp term _ true _ _) =>
      if (c.hosts e.node).node.probing ∧ term = (c.hosts e.node).node.hard.currentTerm then some k
      else none
    | _ => none
  | _ => none

/-- The grant that the step counts answers a request of the current round. -/
def FreshVotes (h : History Cluster Event) (c : Cluster) (e : Event) : Prop :=
  ∀ k ∈ countedGrant c e, answersRound e.node h k = true

instance (h : History Cluster Event) (c : Cluster) (e : Event) : Decidable (FreshVotes h c e) :=
  inferInstanceAs (Decidable (∀ k ∈ countedGrant c e, _))

instance (voters : List String) (h : History Cluster Event) (c : Cluster) (e : Event)
    (c' : Cluster) : Decidable (StepGated voters h c e c') :=
  inferInstanceAs (Decidable (_ → _ → _))

variable {voters : List String} {h : History Cluster Event} {c c' : Cluster} {e : Event}
  {i v : String} {r : Nat}

theorem mem_grantors : v ∈ grantors voters i h ↔ v ∈ voters ∧
    (v = i ∨ ∃ r, roundStart i h = some r ∧ ∃ q ∈ h, grantsProbe i v r q.1 q.2 = true) := by
  cases hr : roundStart i h with
  | none => simp [grantors, hr]
  | some r => simp [grantors, hr]

theorem answersRound_eq_true {k : Nat} : answersRound i h k = true ↔
    ∃ r, roundStart i h = some r ∧
      ∃ q ∈ h, q.1.net.length = k ∧ deliversProbe i r q.1 q.2 = true := by
  cases hr : roundStart i h with
  | none => simp [answersRound, hr]
  | some r => simp [answersRound, hr]

/-- Who has granted in the round has done so after a step that starts no other. -/
theorem grantors_cons (hidle : startsRound i c e = false) :
    grantors voters i h ⊆ grantors voters i ((c, e) :: h) := by
  intro v hv
  rw [mem_grantors] at hv ⊢
  refine ⟨hv.1, hv.2.imp id ?_⟩
  rintro ⟨r, hr, q, hq, hg⟩
  exact ⟨r, by rw [roundStart, hidle, if_neg (by simp), hr], q, List.mem_cons_of_mem _ hq, hg⟩

section
variable [SerdeJson]

/-- The pre-votes counted are grants of the round, and a reply says whether its request was
granted. -/
structure RoundsKept (voters : List String) (h : History Cluster Event) (c : Cluster) : Prop where
  members : ∀ i ∈ voters, (c.hosts i).node.cfg.nodeId = i
  counted : ∀ i ∈ voters, (c.hosts i).node.probing →
    (c.hosts i).node.preVotes ⊆ grantors voters i h
  answered : ∀ q ∈ h, ∀ i r, deliversProbe i r q.1 q.2 = true → q.2.node ∈ voters ∧
    ∃ p, c.net[q.1.net.length]? = some p ∧ ∃ term granted senderMs echoMs,
      p.msg = .requestVoteResp term q.2.node granted senderMs echoMs ∧
        (granted = true → grantsProbe i q.2.node r q.1 q.2 = true)

omit [SerdeJson] in
/-- A reply that answers the round is one of a voter that grants it. -/
theorem RoundsKept.granted (hk : RoundsKept voters h c) {k : Nat} {p : Packet} {term : Nat}
    {voter : String} {senderMs echoMs : Nat} (ha : answersRound i h k = true)
    (hp : c.net[k]? = some p) (hm : p.msg = .requestVoteResp term voter true senderMs echoMs) :
    voter ∈ grantors voters i h := by
  obtain ⟨r, hr, q, hq, rfl, hd⟩ := answersRound_eq_true.1 ha
  obtain ⟨hv, p', hp', _, granted, _, _, hm', hg⟩ := hk.answered q hq i r hd
  obtain rfl : p = p' := Option.some.inj (hp.symm.trans hp')
  rw [hm] at hm'
  cases hm'
  exact mem_grantors.2 ⟨hv, .inr ⟨r, hr, q, hq, hg rfl⟩⟩

omit [SerdeJson] in
/-- What the request of a call is. -/
theorem request_deliver {k : Nat} {req : Request} (hcall : e.call = .deliver k)
    (hreq : e.call.request c.net e.node = some req) :
    ∃ p, c.net[k]? = some p ∧ req = .handle p.sender p.msg := by
  rw [hcall, Call.request] at hreq
  split at hreq
  · next p hp =>
    split at hreq
    · exact ⟨p, hp, (Option.some.inj hreq).symm⟩
    · cases hreq
  · cases hreq

/-- The delivery of a pre-vote request is answered. -/
theorem step_answered (hid : (c.hosts e.node).node.cfg.nodeId = e.node)
    (hs : step voters c e = some c') (hd : deliversProbe i r c e = true) :
    ∃ p, c'.net[c.net.length]? = some p ∧ ∃ term granted senderMs echoMs,
      p.msg = .requestVoteResp term e.node granted senderMs echoMs ∧
        (granted = true → grantsProbe i e.node r c e = true) := by
  obtain ⟨-, req, out, host, hreq, hserve, rfl⟩ := step_eq_some hs
  unfold deliversProbe at hd
  split at hd
  · next k hcall =>
    obtain ⟨p, hp, rfl⟩ := request_deliver hcall hreq
    simp only [hp, Option.any_some, Bool.and_eq_true, decide_eq_true_eq] at hd
    obtain ⟨hle, hprobe⟩ := hd
    unfold Message.isProbeOf at hprobe
    split at hprobe
    · next term candidate lastIndex lastTerm senderMs hm =>
      obtain rfl : candidate = i := by simpa using hprobe
      rw [Host.serve, Option.some_inj, hm] at hserve
      obtain ⟨now, dest, hout⟩ := Host.handle_probe p.sender term candidate lastIndex lastTerm
        senderMs ((c.hosts e.node).prepared e.now e.faults)
      have hid' : ((c.hosts e.node).prepared e.now e.faults).node.cfg.nodeId = e.node := hid
      rw [hserve, hid'] at hout
      simp only at hout
      refine ⟨_, by rw [hout, List.getElem?_append_right (Nat.le_refl _), Nat.sub_self]; rfl, _, _,
        _, _, rfl, fun hg => ?_⟩
      have hg : Host.preVoteGranted (c.hosts e.node).node e.now term lastIndex lastTerm = true := hg
      simp [grantsProbe, deliversProbe, hcall, hp, hm, Message.isProbeOf, hle, hg]
    · cases hprobe
  · cases hd

omit [SerdeJson] in
/-- The term of the request is known in the step. -/
theorem term_le_knownTerm {req : Request} (hreq : e.call.request c.net e.node = some req) :
    max (c.hosts e.node).node.hard.currentTerm req.term ≤ knownTerm c e := by
  cases hcall : e.call with
  | deliver k =>
    obtain ⟨p, hp, rfl⟩ := request_deliver hcall hreq
    simp [knownTerm, hcall, hp, Request.term]
  | _ =>
    rw [hcall] at hreq
    cases hreq
    simp [knownTerm, hcall, Request.term]

omit [SerdeJson] in
/-- A handled message is one that is delivered. -/
theorem handled_deliver {sender : String} {msg : Message}
    (hreq : e.call.request c.net e.node = some (.handle sender msg)) :
    ∃ k p, e.call = .deliver k ∧ c.net[k]? = some p ∧ p.msg = msg := by
  cases hcall : e.call with
  | deliver k =>
    obtain ⟨p, hp, heq⟩ := request_deliver hcall hreq
    cases heq
    exact ⟨k, p, rfl, hp, rfl⟩
  | _ =>
    rw [hcall] at hreq
    cases hreq

omit [SerdeJson] in
/-- A step that starts a round for its node is a tick when that is due. -/
theorem startsRound_self {req : Request} (hreq : e.call.request c.net e.node = some req)
    (hr : req = .tick → (c.hosts e.node).node.role = .leader ∨
      ¬(c.hosts e.node).node.electionDeadlineMs ≤ e.now) : startsRound e.node c e = false := by
  cases hcall : e.call with
  | tick =>
    rw [hcall] at hreq
    rcases hr (Option.some.inj hreq).symm with hlead | hdue
    · simp [startsRound, hcall, hlead]
    · simp [startsRound, hcall, hdue]
  | _ => simp [startsRound, hcall]

/-- A step in which no stale grant arrives keeps the rounds, and the pre-vote gates it. -/
theorem RoundsKept.step (hk : RoundsKept voters h c) (hfresh : FreshVotes h c e)
    (hs : Cluster.step voters c e = some c') :
    RoundsKept voters ((c, e) :: h) c' ∧ StepGated voters h c e c' := by
  obtain ⟨hv, req, out, host, hreq, hserve, hc'⟩ := step_eq_some hs
  have hrounds := Host.serve_rounds hserve
  have hself : c'.hosts e.node = host := by simp [hc']
  have hother : ∀ j ≠ e.node, c'.hosts j = c.hosts j := fun j hne => by simp [hc', hne]
  have hid : (c.hosts e.node).node.cfg.nodeId = e.node := hk.members e.node hv
  have hanswered : ∀ q ∈ (c, e) :: h, ∀ i r, deliversProbe i r q.1 q.2 = true →
      q.2.node ∈ voters ∧ ∃ p, c'.net[q.1.net.length]? = some p ∧
        ∃ term granted senderMs echoMs,
          p.msg = .requestVoteResp term q.2.node granted senderMs echoMs ∧
            (granted = true → grantsProbe i q.2.node r q.1 q.2 = true) := by
    intro q hq i r hd
    rcases List.mem_cons.1 hq with rfl | hq
    · exact ⟨hv, step_answered hid hs hd⟩
    · obtain ⟨hqv, p, hp, hrest⟩ := hk.answered q hq i r hd
      have hlt := (List.getElem?_eq_some_iff.1 hp).1
      exact ⟨hqv, p, by rw [hc', List.getElem?_append_left hlt, hp], hrest⟩
  -- the other members, and then the node itself
  have hmembers : host.node.cfg.nodeId = e.node →
      ∀ i ∈ voters, (c'.hosts i).node.cfg.nodeId = i := by
    intro hhost i hi
    rcases eq_or_ne i e.node with rfl | hne
    · rw [hself, hhost]
    · rw [hother i hne, hk.members i hi]
  have hcounted : (host.node.probing → host.node.preVotes ⊆ grantors voters e.node ((c, e) :: h)) →
      ∀ i ∈ voters, (c'.hosts i).node.probing →
        (c'.hosts i).node.preVotes ⊆ grantors voters i ((c, e) :: h) := by
    intro hhost i hi hp
    rcases eq_or_ne i e.node with rfl | hne
    · rw [hself] at hp ⊢
      exact hhost hp
    · rw [hother i hne] at hp ⊢
      have hidle : startsRound i c e = false := by
        unfold startsRound
        split
        · simp [hne.symm]
        · rfl
      exact (hk.counted i hi hp).trans (grantors_cons hidle)
  -- a round that goes on unchanged
  have hsame : startsRound e.node c e = false →
      Host.SameRound ((c.hosts e.node).prepared e.now e.faults) host →
      RoundsKept voters ((c, e) :: h) c' := by
    intro hidle hround
    refine ⟨hmembers (by rw [hround.cfg]; exact hid), hcounted fun hp => ?_, hanswered⟩
    obtain ⟨hp0, hpre⟩ := hround.probe hp
    rw [hpre]
    exact (hk.counted e.node hv hp0).trans (grantors_cons hidle)
  have hidle : req ≠ .tick → startsRound e.node c e = false := fun hne =>
    startsRound_self hreq fun heq => absurd heq hne
  cases hrounds with
  | calm hc hwait =>
    refine ⟨hsame (startsRound_self hreq hwait) hc.toSameRound, fun _ hlt => ?_⟩
    rw [hself] at hlt
    exact absurd (Nat.le_trans hc.term (term_le_knownTerm hreq)) (Nat.not_le.2 hlt)
  | asks hrole hdue hcfg hhard hpre =>
    refine ⟨⟨hmembers (by rw [hcfg]; exact hid), hcounted fun _ => ?_, hanswered⟩, fun _ hlt => ?_⟩
    · rw [hpre, show ((c.hosts e.node).prepared e.now e.faults).node.cfg.nodeId = e.node from hid]
      exact Finset.singleton_subset_iff.2 (mem_grantors.2 ⟨hv, .inl rfl⟩)
    · rw [hself, hhard] at hlt
      have hle := term_le_knownTerm hreq
      exact absurd (Nat.le_trans (Nat.le_max_left _ _) hle) (Nat.not_le.2 hlt)
  | @counts sender voter senderMs echoMs _ hp hcfg hpre hterm =>
    obtain ⟨k, p, hcall, hnet, hm⟩ := handled_deliver hreq
    have hgrant : voter ∈ grantors voters e.node h := by
      refine hk.granted ?_ hnet hm
      refine hfresh k ?_
      simp only [countedGrant, hcall, hnet, Option.map_some, hm]
      rw [if_pos ⟨hp, rfl⟩]
      rfl
    have hsub : insert voter ((c.hosts e.node).prepared e.now e.faults).node.preVotes ⊆
        grantors voters e.node h := Finset.insert_subset hgrant (hk.counted e.node hv hp)
    refine ⟨⟨hmembers (by rw [hcfg]; exact hid), hcounted fun hp' => ?_, hanswered⟩, fun _ hlt => ?_⟩
    · rw [hpre hp']
      exact hsub.trans (grantors_cons (hidle nofun))
    · rw [hself] at hlt
      have hle := term_le_knownTerm hreq
      refine Nat.le_trans (hterm.resolve_left fun hno => ?_) (Finset.card_le_card hsub)
      exact absurd (Nat.le_trans hno (Nat.le_trans (Nat.le_max_left _ _) hle)) (Nat.not_le.2 hlt)
  | told hround =>
    refine ⟨hsame (hidle nofun) hround, fun hord _ => ?_⟩
    obtain ⟨k, p, hcall, hnet, hm⟩ := handled_deliver hreq
    simp [isOrdinary, hcall, hnet, hm, Message.isTimeoutNow] at hord
  | reopens hmem hcfg hp =>
    refine ⟨⟨hmembers ?_, hcounted fun hp' => absurd hp' hp, hanswered⟩, fun hord _ => ?_⟩
    · rw [hcfg, hmem.1]
      exact hid
    · cases hcall : e.call with
      | restart cfg => simp [isOrdinary, hcall] at hord
      | deliver k =>
        obtain ⟨p, -, heq⟩ := request_deliver hcall hreq
        cases heq
      | _ =>
        rw [hcall] at hreq
        cases hreq

/-- **Pre-votes.** In every run in which each grant that reaches a node in its pre-vote campaign
answers the round that is going on, an election is only started after a majority has granted its
pre-vote in the round. -/
theorem gated_of_fresh {shard : Nat} (hr : GuardedRun voters shard FreshVotes h c) :
    Gated voters h c := by
  have hboth : RoundsKept voters h c ∧ Gated voters h c := by
    refine Run.invariant (I := fun h c => RoundsKept voters h c ∧ Gated voters h c) ?_ ?_ hr
    · rintro c ⟨hnet, hinit⟩
      have hball : ∀ i ∈ voters, ∃ cfg o, cfg.nodeId = i ∧
          (c.hosts i).ballot = .opened cfg .default o := by
        intro i hi
        obtain ⟨cfg, now, hid, -, -, ho⟩ := hinit i hi
        exact ⟨cfg, _, hid, (Host.openNode_ballot ho).2⟩
      refine ⟨⟨fun i hi => ?_, fun i hi hp => ?_, nofun⟩, trivial⟩
      · obtain ⟨cfg, o, hid, hb⟩ := hball i hi
        have hcfg : (c.hosts i).node.cfg = cfg := congrArg Ballot.cfg hb
        rw [hcfg, hid]
      · obtain ⟨cfg, o, -, hb⟩ := hball i hi
        have hrole : (c.hosts i).node.role = .follower := congrArg Ballot.role hb
        exact absurd (hrole.symm.trans hp.1) (by decide)
    · rintro h c e c' - ⟨hk, hgated⟩ hfresh hs
      obtain ⟨hk', hstep⟩ := hk.step hfresh hs
      exact ⟨hk', hgated, hstep⟩
  exact hboth.2

end

section
attribute [local instance] SerdeJson.sample

theorem gated_electFirst : ∃ h c, (c.hosts "n1").node.role = .leader ∧
    (c.hosts "n1").node.hard.currentTerm = 1 ∧ Gated threeVoters h c := by
  have hrun : (follow (Cluster.step threeVoters) FreshVotes electFirst [] Cluster.three).map
      (fun r => ((r.2.hosts "n1").node.role, (r.2.hosts "n1").node.hard.currentTerm)) =
        some (.leader, 1) := by
    decide +kernel
  obtain ⟨⟨h, c⟩, hf, hl⟩ := Option.map_eq_some_iff.1 hrun
  simp only [Prod.mk.injEq] at hl
  exact ⟨h, c, hl.1, hl.2, gated_of_fresh (Run.follow (.start three_initial) hf)⟩

/-- The first member asks for pre-votes and the second one grants; the grant is late, and the first
member asks again. -/
def askTwice : List Event :=
  [callAt "n1" .tick, callAt "n2" (.deliver 0), ⟨"n1", 9000, Faults.none, .tick⟩]

/-- The late grant is counted in the second round, which nobody has granted. -/
theorem late_grant_elects : ¬ ∀ h c, GuardedRun threeVoters 0 (fun _ _ _ => True) h c →
    Gated threeVoters h c := by
  intro hall
  have hrun : (follow (Cluster.step threeVoters) (fun _ _ _ => True) askTwice []
      Cluster.three).bind (fun r => (Cluster.step threeVoters r.2 (callAt "n1" (.deliver 2))).map
        fun c' => decide (StepGated threeVoters r.1 r.2 (callAt "n1" (.deliver 2)) c')) =
          some false := by
    decide +kernel
  obtain ⟨⟨h, c⟩, hf, hl⟩ := Option.bind_eq_some_iff.1 hrun
  obtain ⟨c', hs, hno⟩ := Option.map_eq_some_iff.1 hl
  have hr : GuardedRun threeVoters 0 (fun _ _ _ => True) h c :=
    Run.follow (.start three_initial) hf
  exact of_decide_eq_false hno (hall _ c' (hr.step trivial hs)).2

end

end Cluster

end Rdsctl.Ha
