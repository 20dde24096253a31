import Rdsctl.Ha.Ballot

/-!
# Leadership and a failing disk

One node with an environment that sends it any messages and lets any file operation fail. A leader
is meant to lead a term in which it has collected a majority of votes. `become_follower` and
`start_election` move the term before they persist it and the role after, so a failing
`persist_hard_state` leaves a leader, or a node that stands, in a term it has only learnt.
-/

namespace Rdsctl.Ha

open Fallible

/-- The vote a step counts for term `t`: a grant of that term that reaches the node while it stands
in it. -/
def Host.voteCounted (t : Nat) (s : Host) (e : Input) : Option String :=
  match e.request with
  | .handle _ (.requestVoteResp term voter true _ _) =>
    if s.node.role = .candidate ∧ s.node.campaign = .vote ∧ s.node.term = t ∧ term = t then
      some voter
    else none
  | _ => none

/-- The votes a node has counted for term `t` while it stood in it. -/
def votesCollected (h : History Host Input) (t : Nat) : Finset String :=
  (h.filterMap fun p => p.1.voteCounted t p.2).toFinset

/-- A leader leads a term in which it has collected, with its own vote, a majority. -/
def LeadsEarned (h : History Host Input) (s : Host) : Prop :=
  s.node.role = .leader →
    s.node.cfg.majority ≤ (insert s.node.cfg.nodeId (votesCollected h s.node.term)).card

instance (h : History Host Input) (s : Host) : Decidable (LeadsEarned h s) :=
  inferInstanceAs (Decidable (_ → _))

/-- The node leads, or stands in a real election: the votes it holds belong to its term. -/
def Node.holdsVotes (n : Node) : Prop :=
  n.role = .leader ∨ (n.role = .candidate ∧ n.campaign = .vote)

/-- The message makes the node move to another term. -/
def Node.movesTerm (n : Node) : Message → Prop
  | .timeoutNow term _ => n.hard.currentTerm ≤ term
  | msg => n.hard.currentTerm < msg.term ∧ msg.isPreVote = false

instance (n : Node) : Decidable n.holdsVotes := inferInstanceAs (Decidable (_ ∨ _))

instance (n : Node) (msg : Message) : Decidable (n.movesTerm msg) :=
  match msg with
  | .timeoutNow .. => inferInstanceAs (Decidable (_ ≤ _))
  | .requestVote .. | .requestVoteResp .. | .appendEntries .. | .appendEntriesResp ..
  | .installSnapshot .. | .installSnapshotResp .. => inferInstanceAs (Decidable (_ ∧ _))

/-- A node that holds votes moves to another term only with the move on disk. -/
def TermKept (_ : History Host Input) (s : Host) (e : Input) : Prop :=
  match e.request with
  | .handle _ msg =>
    s.node.holdsVotes → s.node.movesTerm msg → persistSucceeds e.faults.hard = true
  | _ => True

instance (h : History Host Input) (s : Host) (e : Input) : Decidable (TermKept h s e) :=
  match e with
  | ⟨_, _, .handle ..⟩ => inferInstanceAs (Decidable (_ → _ → _))
  | ⟨_, _, .tick⟩ | ⟨_, _, .propose _⟩ | ⟨_, _, .flush⟩ | ⟨_, _, .stepDown⟩
  | ⟨_, _, .maybeSnapshot⟩ | ⟨_, _, .restart _⟩ => isTrue trivial

theorem TermKept.persists {h : History Host Input} {s : Host} {e : Input} {sender : String}
    {msg : Message} (hg : TermKept h s e) (he : e.request = .handle sender msg)
    (hr : s.node.holdsVotes) (hm : s.node.movesTerm msg) :
    persistSucceeds e.faults.hard = true := by
  unfold TermKept at hg
  rw [he] at hg
  exact hg hr hm

theorem votesCollected_cons_subset (h : History Host Input) (t : Nat) (s : Host) (e : Input) :
    votesCollected h t ⊆ votesCollected ((s, e) :: h) t := by
  intro v hv
  simp only [votesCollected, List.mem_toFinset, List.mem_filterMap] at hv ⊢
  obtain ⟨p, hp, hvote⟩ := hv
  exact ⟨p, List.mem_cons_of_mem _ hp, hvote⟩

/-- A vote for the term the node stands in is collected. -/
theorem mem_votesCollected_cons {h : History Host Input} {s : Host} {e : Input} {sender voter : String}
    {senderMs echoMs : Nat} (hr : s.node.role = .candidate) (hc : s.node.campaign = .vote)
    (he : e.request =
      .handle sender (.requestVoteResp s.node.hard.currentTerm voter true senderMs echoMs)) :
    voter ∈ votesCollected ((s, e) :: h) s.node.hard.currentTerm := by
  simp only [votesCollected, List.mem_toFinset, List.mem_filterMap]
  refine ⟨(s, e), List.mem_cons_self, ?_⟩
  simp [Host.voteCounted, he, hr, hc, Node.term]

namespace Ballot

/-- The votes a ballot holds were collected in its term, and a leader's are a majority. -/
structure Earned (h : History Host Input) (b : Ballot) : Prop where
  counted : b.role = .leader ∨ (b.role = .candidate ∧ b.campaign = .vote) →
    b.votes ⊆ insert b.cfg.nodeId (votesCollected h b.hard.currentTerm)
  lead : b.role = .leader → b.cfg.majority ≤ b.votes.card

variable {h : History Host Input} {b b' : Ballot}

theorem Earned.retired (b : Ballot) : b.retired.Earned h where
  counted := by
    rintro (hr | ⟨hr, -⟩)
    · cases hr
    · cases hr
  lead := by intro hr; cases hr

theorem Earned.cons (hb : b.Earned h) (s : Host) (e : Input) : b.Earned ((s, e) :: h) where
  counted := fun hr =>
    (hb.counted hr).trans (Finset.insert_subset_insert _ (votesCollected_cons_subset h _ s e))
  lead := hb.lead

/-- A ballot of a node that holds no votes has earned what it shows. -/
theorem Earned.of_none (hr : ¬ (b.role = .leader ∨ (b.role = .candidate ∧ b.campaign = .vote))) :
    b.Earned h where
  counted := fun hn => absurd hn hr
  lead := fun hl => absurd (.inl hl) hr

/-- Counting a vote that has just been collected. -/
theorem Earned.counting {voter : String} (hb : b.Earned h) (hr : b.role = .candidate)
    (hc : b.campaign = .vote) (hv : voter ∈ votesCollected h b.hard.currentTerm) :
    (b.counting voter).votes ⊆ insert b.cfg.nodeId (votesCollected h b.hard.currentTerm) := by
  intro v hmem
  rcases Finset.mem_insert.1 hmem with rfl | hmem
  · exact Finset.mem_insert_of_mem hv
  · exact hb.counted (.inr ⟨hr, hc⟩) hmem

/-- Answering a message keeps what is earned, if a start of an election that cannot be persisted
finds a node without votes. -/
theorem Answers.earned {msg : Message} {out : List Outbound} (hb : b.Earned h)
    (hvote : ∀ voter senderMs echoMs,
      msg = .requestVoteResp b.hard.currentTerm voter true senderMs echoMs →
      b.role = .candidate → b.campaign = .vote → voter ∈ votesCollected h b.hard.currentTerm)
    (hstand : ∀ term leader, msg = .timeoutNow term leader → b.hard.currentTerm ≤ term →
      b.role = .leader ∨ (b.role = .candidate ∧ b.campaign = .vote) →
      persistSucceeds b.outcomes = true)
    (ha : b.Answers msg out b') : b'.Earned h := by
  cases ha with
  | quiet => exact hb
  | retires => exact .retired b
  | probed => exact hb
  | refuses => exact hb
  | votes => exact ⟨hb.counted, hb.lead⟩
  | voteFails => exact ⟨hb.counted, hb.lead⟩
  | stands =>
    refine ⟨fun _ => ?_, fun hl => by cases hl⟩
    exact Finset.singleton_subset_iff.2 (Finset.mem_insert_self _ _)
  | standFails hp hm =>
    refine .of_none fun hr => ?_
    rcases hm with ⟨term, leader, rfl, hle⟩ | ⟨hrole, hcam⟩
    · rw [hstand term leader rfl hle hr] at hp
      cases hp
    · -- in a pre-vote campaign the node holds no votes
      have hrole' : b.role = .leader ∨ (b.role = .candidate ∧ b.campaign = .vote) := hr
      simp [hrole, hcam] at hrole'
  | counts hr hc =>
    refine ⟨fun _ => hb.counting hr hc (hvote _ _ _ rfl hr hc), fun hl => ?_⟩
    rw [show (b.counting _).role = b.role from rfl, hr] at hl
    cases hl
  | wins hr hc hq => exact ⟨fun _ => hb.counting hr hc (hvote _ _ _ rfl hr hc), fun _ => hq⟩

end Ballot

section
variable [SerdeJson]

/-- A step that keeps its term keeps what is earned. -/
theorem Process.step_earned {h : History Host Input} {s s' : Host} {e : Input}
    (hb : s.ballot.Earned h) (hg : TermKept h s e) (hs : Process.step s e = some s') :
    s'.ballot.Earned ((s, e) :: h) := by
  obtain ⟨⟨out, h'⟩, hserve, rfl⟩ := Option.map_eq_some_iff.1 hs
  have hb' : (s.prepared e.now e.faults).ballot.Earned ((s, e) :: h) :=
    ⟨(hb.cons s e).counted, hb.lead⟩
  have hturn := Host.serve_turns hserve
  show h'.ballot.Earned _
  generalize hreq : e.request = req at hturn
  generalize h'.ballot = b' at hturn ⊢
  cases hturn with
  | quiet => exact hb'
  | retires => exact .retired _
  | probes =>
    refine .of_none ?_
    rintro (hr | ⟨-, hc⟩)
    · cases hr
    · cases hc
  | @answers sender msg _ b1 _ ha hans =>
    cases ha with
    | keeps hk =>
      refine hans.earned hb' ?_ ?_
      · rintro voter senderMs echoMs rfl hr hc
        exact mem_votesCollected_cons hr hc hreq
      · rintro term leader rfl hle hr
        exact hg.persists hreq hr hle
    | adopts =>
      refine hans.earned (.retired _) ?_ ?_
      · rintro _ _ _ - hr
        cases hr
      · rintro _ _ - - (hr | ⟨hr, -⟩)
        · cases hr
        · cases hr
  | @adoptFails sender msg _ ha =>
    cases ha with
    | fails hlt hv hp =>
      refine .of_none fun hr => ?_
      have hm : s.node.movesTerm msg := by
        cases msg with
        | timeoutNow => exact Nat.le_of_lt hlt
        | _ => exact ⟨hlt, hv⟩
      have hp' : persistSucceeds e.faults.hard = false := hp
      rw [hg.persists hreq hr hm] at hp'
      cases hp'
  | reopens =>
    refine .of_none ?_
    rintro (hr | ⟨hr, -⟩)
    · cases hr
    · cases hr

/-- In every run whose steps keep their term when the node holds votes, a leader leads a term it has
won. -/
theorem leads_earned {h : History Host Input} {s : Host} (hr : Process.GuardedRun TermKept h s) :
    LeadsEarned h s := by
  have hb : s.ballot.Earned h := by
    refine Run.invariant (I := fun h s => s.ballot.Earned h) ?_ ?_ hr
    · rintro s ⟨cfg, now, st, ho⟩
      have hball := (Host.openNode_ballot ho).2
      refine .of_none ?_
      rw [show s.ballot = _ from hball]
      rintro (hr | ⟨hr, -⟩)
      · cases hr
      · cases hr
    · exact fun h s e s' _ hb hg hs => Process.step_earned hb hg hs
  intro hl
  exact (hb.lead hl).trans (Finset.card_le_card (hb.counted (.inl hl)))

end

section
attribute [local instance] SerdeJson.sample

/-- A member of three that has opened an empty directory. -/
def freshNode : Host where
  node := (((Host.opened (RaftConfig.new "n1" 0 ["n1", "n2", "n3"]) ⟨0, [], zeroHash, 0⟩
    (StateMachine.new 0 1000) HardState.default none).resetElectionDeadline 0).applyCommitted)
  store := ⟨Disk.empty, Faults.none⟩
  now := 0

/-- It is elected in term 1. -/
def winFirst : List Input :=
  [⟨5000, Faults.none, .tick⟩,
    ⟨5000, Faults.none, .handle "n2" (.requestVoteResp 0 "n2" true 0 0)⟩,
    ⟨5000, Faults.none, .handle "n2" (.requestVoteResp 1 "n2" true 0 0)⟩]

/-- Then an `AppendEntries` of term 5 reaches it, and the first file operation fails. -/
def learnFifth : List Input :=
  [⟨5000, ⟨[false], []⟩, .handle "n3" (.appendEntries 5 "n3" 0 0 [] 0 0 0)⟩]

theorem freshNode_initial : Process.Initial freshNode := by
  refine ⟨RaftConfig.new "n1" 0 ["n1", "n2", "n3"], 0, ⟨Disk.empty, Faults.none⟩, ?_⟩
  have hv : (RaftConfig.new "n1" 0 ["n1", "n2", "n3"]).validate = .ok () := by decide +kernel
  simp only [Host.openNode, hv]
  rfl

theorem leads_earned_won : ∃ h s, s.node.role = .leader ∧ s.node.term = 1 ∧ LeadsEarned h s := by
  have hrun : (follow Process.step TermKept winFirst [] freshNode).map (fun r =>
      (r.2.node.role, r.2.node.term)) = some (.leader, 1) := by
    decide +kernel
  obtain ⟨⟨h, s⟩, hf, hl⟩ := Option.map_eq_some_iff.1 hrun
  simp only [Prod.mk.injEq] at hl
  exact ⟨h, s, hl.1, hl.2, leads_earned (Run.follow (.start freshNode_initial) hf)⟩

/-- A leader that learns of term 5 and cannot persist it leads term 5. -/
theorem leads_unearned : ¬ ∀ h s, Process.GuardedRun (fun _ _ _ => True) h s → LeadsEarned h s := by
  intro hall
  have hrun : (follow Process.step (fun _ _ _ => True) (winFirst ++ learnFifth) []
      freshNode).map (fun r => decide (LeadsEarned r.1 r.2)) = some false := by
    decide +kernel
  obtain ⟨⟨h, s⟩, hf, hl⟩ := Option.map_eq_some_iff.1 hrun
  exact of_decide_eq_false hl (hall h s (Run.follow (.start freshNode_initial) hf))

end

end Rdsctl.Ha
