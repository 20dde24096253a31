import Rdsctl.Lib.Votes
import Rdsctl.Ha.Ballot
import Rdsctl.Ha.Cluster

/-!
# Election safety

Along every run in which `persist_hard_state` succeeds the votes of the cluster form a record
(`Votes`): each member votes once a term, restarts included, and a leader has the votes of a
majority in its term. Pre-vote grants and votes share a message; what separates them is the term a
grant carries, which its candidate has already passed or is in without standing (`Ballot.Past`).
-/

namespace Rdsctl.Ha

open Fallible

/-- The members of a voter list, with the majority of `RaftConfig.majority`. -/
def electorate (voters : List String) : Electorate String where
  voters := voters.toFinset
  quorum := voters.length / 2 + 1
  meet := by
    have := voters.toFinset_card_le
    omega

namespace Ballot

/-- The node will never stand for election in term `t` again, and does not stand in it now. -/
def Past (b : Ballot) (t : Nat) : Prop :=
  t < b.hard.currentTerm ∨ (t = b.hard.currentTerm ∧ b.campaign ≠ .vote)

theorem Past.of_le {b : Ballot} {t t' : Nat} (h : b.Past t) (hle : t' ≤ t) : b.Past t' := by
  rcases Nat.lt_or_ge t' b.hard.currentTerm with hlt | hge
  · exact .inl hlt
  · rcases h with h | ⟨h, hc⟩
    · omega
    · exact .inr ⟨by omega, hc⟩

/-- The ballot of member `i` agrees with the record of votes. -/
structure Ok (voters : List String) (cast : Votes String) (i : String) (b : Ballot) : Prop where
  nodeId : b.cfg.nodeId = i
  members : b.cfg.voters = voters
  saved : b.saved = b.hard
  /-- the vote of the current term is the recorded one -/
  current : cast i b.hard.currentTerm = b.hard.votedFor
  /-- no vote is recorded in a later term -/
  future : ∀ t, b.hard.currentTerm < t → cast i t = none
  /-- what a node that stands has counted are votes for it in its term -/
  counted : b.campaign = .vote → ∀ v ∈ b.votes, v ∈ voters ∧
    cast v b.hard.currentTerm = some i
  /-- a leader stands, and has counted a majority -/
  lead : b.role = .leader → b.campaign = .vote ∧ b.cfg.majority ≤ b.votes.card

/-- A leader has won its term. -/
theorem Ok.won {voters : List String} {cast : Votes String} {i : String} {b : Ballot}
    (hb : b.Ok voters cast i) (hr : b.role = .leader) :
    (electorate voters).Won cast b.hard.currentTerm i := by
  obtain ⟨hc, hm⟩ := hb.lead hr
  refine ⟨b.votes, fun v hv => ?_, ?_, fun v hv => (hb.counted hc v hv).2⟩
  · exact List.mem_toFinset.2 (hb.counted hc v hv).1
  · rw [RaftConfig.majority, hb.members] at hm
    exact hm

/-- The ballot of a node is not touched by the votes of others. -/
theorem Ok.mono {voters : List String} {cast cast' : Votes String} {i : String} {b : Ballot}
    (hb : b.Ok voters cast i) (hle : cast.Le cast') (hi : cast' i = cast i) :
    b.Ok voters cast' i where
  nodeId := hb.nodeId
  members := hb.members
  saved := hb.saved
  current := by rw [hi, hb.current]
  future := fun t ht => by rw [hi, hb.future t ht]
  counted := fun hc v hv => ⟨(hb.counted hc v hv).1, hle _ _ _ (hb.counted hc v hv).2⟩
  lead := hb.lead

end Ballot

/-- A message agrees with the record of votes: a pre-vote request asks for a term that its candidate
is not yet in, and a grant is a vote or comes too late to be taken for one. `past` says in which
terms a node will never count votes. -/
def Message.Ok (voters : List String) (cast : Votes String) (past : String → Nat → Prop)
    (dest : String) : Message → Prop
  | .requestVote term candidate _ _ true _ => ∃ t, term = t + 1 ∧ past candidate t
  | .requestVoteResp term voter true _ _ => voter ∈ voters ∧
      (cast voter term = some dest ∨ past dest term)
  | _ => True

theorem Message.Ok.of_not_isVote {voters : List String} {cast : Votes String}
    {past : String → Nat → Prop} {dest : String} {msg : Message} (h : msg.isVote = false) :
    msg.Ok voters cast past dest := by
  cases msg with
  | requestVote => cases h
  | requestVoteResp => cases h
  | _ => trivial

theorem Message.Ok.mono {voters : List String} {cast cast' : Votes String}
    {past past' : String → Nat → Prop} {dest : String} {msg : Message} (hle : cast.Le cast')
    (hp : ∀ c t, past c t → past' c t) (h : msg.Ok voters cast past dest) :
    msg.Ok voters cast' past' dest := by
  cases msg with
  | requestVote term candidate lastIndex lastTerm preVote senderMs =>
    cases preVote with
    | true =>
      obtain ⟨t, ht, hc⟩ := h
      exact ⟨t, ht, hp _ _ hc⟩
    | false => trivial
  | requestVoteResp term voter granted senderMs echoMs =>
    cases granted with
    | true => exact ⟨h.1, h.2.imp (hle _ _ _) (hp _ _)⟩
    | false => trivial
  | _ => trivial

namespace Ballot

variable {voters : List String} {cast : Votes String} {i : String} {b b' : Ballot}

/-- What a step of member `i` from the ballot `b` to `b'` does to the record of votes. -/
structure Extends (voters : List String) (cast : Votes String) (i : String) (b b' : Ballot)
    (cast' : Votes String) : Prop where
  le : cast.Le cast'
  others : ∀ v, v ≠ i → cast' v = cast v
  ok : b'.Ok voters cast' i
  /-- a new vote is the one the ballot now shows -/
  fresh : ∀ t c, cast' i t = some c → cast i t = some c ∨ b'.hard = ⟨t, some c⟩
  past : ∀ t, b.Past t → b'.Past t

/-- A step that casts no vote. -/
theorem Extends.same (ok : b'.Ok voters cast i) (past : ∀ t, b.Past t → b'.Past t) :
    Extends voters cast i b b' cast where
  le := .refl cast
  others := fun _ _ => rfl
  ok := ok
  fresh := fun _ _ h => .inl h
  past := past

/-- A step that casts the vote it shows. -/
theorem Extends.record {t : Nat} {c : String} (hfree : cast i t = none ∨ cast i t = some c)
    (hb : b'.hard = ⟨t, some c⟩) (ok : b'.Ok voters (cast.record i t c) i)
    (past : ∀ t, b.Past t → b'.Past t) : Extends voters cast i b b' (cast.record i t c) where
  le := Votes.le_record hfree
  others := fun _ hv => Votes.record_other hv
  ok := ok
  fresh := by
    intro t' c' h
    rcases Votes.record_inv h with ⟨-, rfl, rfl⟩ | ⟨-, h⟩
    · exact .inr hb
    · exact .inl h
  past := past

theorem Ok.retired (hb : b.Ok voters cast i) : b.retired.Ok voters cast i where
  nodeId := hb.nodeId
  members := hb.members
  saved := hb.saved
  current := hb.current
  future := hb.future
  counted := by intro hc; cases hc
  lead := by intro hr; cases hr

theorem Past.retired {t : Nat} (h : b.Past t) : b.retired.Past t :=
  h.imp id fun h => ⟨h.1, by simp [Ballot.retired]⟩

/-- The rule on higher terms casts no vote. -/
theorem Adopts.ok {msg : Message} {done : Bool} (hb : b.Ok voters cast i) (ho : b.outcomes = [])
    (ha : b.Adopts msg done b') :
    done = true ∧ b'.outcomes = [] ∧ b'.Ok voters cast i ∧ ∀ t, b.Past t → b'.Past t := by
  cases ha with
  | keeps => exact ⟨rfl, ho, hb, fun _ h => h⟩
  | adopts hlt =>
    refine ⟨rfl, by simp [Ballot.retired, written, inTerm, ho], ?_, fun t ht => .inl ?_⟩
    · exact {
        nodeId := hb.nodeId
        members := hb.members
        saved := rfl
        current := hb.future _ hlt
        future := fun t ht => hb.future t (Nat.lt_trans hlt ht)
        counted := by intro hc; cases hc
        lead := by intro hr; cases hr }
    · rcases ht with ht | ⟨ht, -⟩
      · exact Nat.lt_trans ht hlt
      · exact ht ▸ hlt
  | fails _ _ hp =>
    rw [ho] at hp
    cases hp

/-- Casting a vote that is free. -/
theorem Ok.votes {candidate : String} (hb : b.Ok voters cast i)
    (hv : b.hard.votedFor = none ∨ b.hard.votedFor = some candidate) :
    Extends voters cast i b (b.votingFor candidate).written
      (cast.record i b.hard.currentTerm candidate) := by
  have hfree : cast i b.hard.currentTerm = none ∨ cast i b.hard.currentTerm = some candidate := by
    rwa [hb.current]
  refine .record hfree rfl ?_ fun t ht => ht
  exact {
    nodeId := hb.nodeId
    members := hb.members
    saved := rfl
    current := Votes.record_self _ _ _ _
    future := fun t ht => by
      have hlt : b.hard.currentTerm < t := ht
      rw [Votes.record_term (Nat.ne_of_gt hlt)]
      exact hb.future t hlt
    counted := fun hc v hv =>
      ⟨(hb.counted hc v hv).1, Votes.le_record hfree _ _ _ (hb.counted hc v hv).2⟩
    lead := hb.lead }

/-- Standing in the next term, with its own vote. -/
theorem Ok.stands (hi : i ∈ voters) (hb : b.Ok voters cast i) :
    Extends voters cast i b b.nextTerm.written.standing
      (cast.record i (b.hard.currentTerm + 1) i) := by
  have hid := hb.nodeId
  refine .record (.inl (hb.future _ (Nat.lt_succ_self _))) ?_ ?_ fun t ht => ?_
  · simp [standing, written, nextTerm, hid]
  · exact {
      nodeId := hb.nodeId
      members := hb.members
      saved := rfl
      current := by simp [standing, written, nextTerm, hid]
      future := fun t ht => by
        have hlt : b.hard.currentTerm + 1 < t := ht
        rw [Votes.record_term (Nat.ne_of_gt hlt)]
        exact hb.future t (by omega)
      counted := by
        intro _ v hv
        simp only [standing, Finset.mem_singleton] at hv
        subst hv
        rw [show (written (nextTerm b)).cfg.nodeId = i from hid]
        exact ⟨hi, Votes.record_self _ _ _ _⟩
      lead := by intro hr; cases hr }
  · rcases ht with ht | ⟨ht, -⟩
    · exact .inl (Nat.lt_succ_of_lt ht)
    · exact .inl (ht ▸ Nat.lt_succ_self _)

/-- Counting a vote for the term the node stands in. -/
theorem Ok.counts {voter : String} (hb : b.Ok voters cast i) (hr : b.role = .candidate)
    (hv : voter ∈ voters) (hc : cast voter b.hard.currentTerm = some i) :
    (b.counting voter).Ok voters cast i where
  nodeId := hb.nodeId
  members := hb.members
  saved := hb.saved
  current := hb.current
  future := hb.future
  counted := by
    intro hcam v hmem
    rcases Finset.mem_insert.1 hmem with rfl | hmem
    · exact ⟨hv, hc⟩
    · exact hb.counted hcam v hmem
  lead := by
    intro hl
    rw [show (b.counting voter).role = b.role from rfl, hr] at hl
    cases hl

/-- Answering a message keeps the record of votes, and what is sent agrees with it. -/
theorem Answers.ok {msg : Message} {out : List Outbound} {past : String → Nat → Prop}
    (hi : i ∈ voters) (hb : b.Ok voters cast i) (ho : b.outcomes = [])
    (hm : msg.Ok voters cast past i) (hpast : ∀ t, past i t → b.Past t)
    (hdown : ∀ c t t', past c t → t' ≤ t → past c t') (ha : b.Answers msg out b') :
    ∃ cast', Extends voters cast i b b' cast' ∧ ∀ o ∈ out, o.msg.Ok voters cast' past o.dest := by
  cases ha with
  | quiet hout => exact ⟨cast, .same hb fun _ h => h, fun o ho => .of_not_isVote (hout o ho)⟩
  | retires hout =>
    exact ⟨cast, .same hb.retired fun _ h => h.retired, fun o ho => .of_not_isVote (hout o ho)⟩
  | probed granted hg =>
    refine ⟨cast, .same hb fun _ h => h, fun o ho => ?_⟩
    rw [List.mem_singleton.1 ho]
    cases granted with
    | true =>
      obtain ⟨t, rfl, ht⟩ := hm
      rw [show b.cfg.nodeId = i from hb.nodeId]
      exact ⟨hi, .inr (hdown _ _ _ ht (Nat.le_of_lt_succ (hg rfl)))⟩
    | false => trivial
  | refuses =>
    refine ⟨cast, .same hb fun _ h => h, fun o ho => ?_⟩
    rw [List.mem_singleton.1 ho]
    trivial
  | votes hv =>
    refine ⟨_, hb.votes hv, fun o ho => ?_⟩
    rw [List.mem_singleton.1 ho]
    rw [show b.cfg.nodeId = i from hb.nodeId]
    exact ⟨hi, .inl (Votes.record_self _ _ _ _)⟩
  | voteFails hp =>
    rw [ho] at hp
    cases hp
  | stands =>
    refine ⟨_, hb.stands hi, fun o ho => ?_⟩
    obtain ⟨dest, -, rfl⟩ := List.mem_map.1 ho
    trivial
  | standFails hp =>
    rw [ho] at hp
    cases hp
  | counts hr hc hout =>
    obtain ⟨hv, hcast⟩ := hm
    -- a grant of a pre-vote comes too late for a node that stands
    have hvote := hcast.resolve_right fun h => by
      rcases hpast _ h with hlt | ⟨-, hne⟩
      · exact Nat.lt_irrefl _ hlt
      · exact hne hc
    exact ⟨cast, .same (hb.counts hr hv hvote) fun _ h => h, fun o ho => .of_not_isVote (hout o ho)⟩
  | wins hr hc hq hout =>
    obtain ⟨hv, hcast⟩ := hm
    have hvote := hcast.resolve_right fun h => by
      rcases hpast _ h with hlt | ⟨-, hne⟩
      · exact Nat.lt_irrefl _ hlt
      · exact hne hc
    have hk := hb.counts hr hv hvote
    refine ⟨cast, .same ?_ fun _ h => h, fun o ho => .of_not_isVote (hout o ho)⟩
    exact {
      nodeId := hk.nodeId
      members := hk.members
      saved := hk.saved
      current := hk.current
      future := hk.future
      counted := hk.counted
      lead := fun _ => ⟨hc, hq⟩ }

/-- Serving a request keeps the record of votes, and what is sent agrees with it. -/
theorem Turns.ok {req : Request} {out : List Outbound} {past : String → Nat → Prop}
    (hi : i ∈ voters) (hb : b.Ok voters cast i) (ho : b.outcomes = [])
    (hm : ∀ sender msg, req = .handle sender msg → msg.Ok voters cast past i)
    (hpast : ∀ t, past i t → b.Past t) (hdown : ∀ c t t', past c t → t' ≤ t → past c t')
    (ht : b.Turns req out b') :
    ∃ cast', Extends voters cast i b b' cast' ∧
      ∀ o ∈ out, o.msg.Ok voters cast' (fun c t => past c t ∨ (c = i ∧ b'.Past t)) o.dest := by
  cases ht with
  | quiet hout => exact ⟨cast, .same hb fun _ h => h, fun o ho => .of_not_isVote (hout o ho)⟩
  | retires hout =>
    exact ⟨cast, .same hb.retired fun _ h => h.retired, fun o ho => .of_not_isVote (hout o ho)⟩
  | probes =>
    refine ⟨cast, .same ?_ fun t h => ?_, fun o ho => ?_⟩
    · exact { hb.retired with
        counted := by intro hc; cases hc
        lead := by intro hr; cases hr }
    · exact h.imp id fun h => ⟨h.1, by simp [probing]⟩
    · obtain ⟨dest, -, rfl⟩ := List.mem_map.1 ho
      exact ⟨_, rfl, .inr ⟨hb.nodeId, .inr ⟨rfl, by simp [probing]⟩⟩⟩
  | @answers sender msg out b1 _ ha hans =>
    obtain ⟨-, ho1, hb1, hp1⟩ := ha.ok hb ho
    obtain ⟨cast', hx, hout⟩ :=
      hans.ok hi hb1 ho1 (hm sender msg rfl) (fun t h => hp1 t (hpast t h)) hdown
    exact ⟨cast', { hx with past := fun t h => hx.past t (hp1 t h) },
      fun o ho => (hout o ho).mono (.refl _) fun _ _ h => .inl h⟩
  | adoptFails ha =>
    obtain ⟨h, -⟩ := ha.ok hb ho
    cases h
  | reopens hc hv =>
    refine ⟨cast, .same ?_ fun t h => ?_, fun o ho => by cases ho⟩
    · exact {
        nodeId := hc.1.trans hb.nodeId
        members := hc.2.1.trans hb.members
        saved := rfl
        current := by rw [opened, hb.saved]; exact hb.current
        future := by rw [opened, hb.saved]; exact hb.future
        counted := by intro h; cases h
        lead := by intro h; cases h }
    · rw [Past, opened, hb.saved]
      exact h.imp id fun h => ⟨h.1, by simp⟩

end Ballot

namespace Cluster

variable {voters : List String}

/-- The votes of a cluster: its members, its messages and the past of its run agree with the record
`cast`, and every recorded vote was the hard state of its voter at some point of the run. -/
structure Voting (voters : List String) (cast : Votes String) (h : History Cluster Event)
    (c : Cluster) : Prop where
  members : ∀ i ∈ voters, (c.hosts i).ballot.Ok voters cast i
  net : ∀ p ∈ c.net, p.msg.Ok voters cast (fun i t => (c.hosts i).ballot.Past t) p.dest
  won : ∀ d ∈ h.states c, ∀ i ∈ voters, (d.hosts i).node.role = .leader →
    (electorate voters).Won cast (d.hosts i).node.hard.currentTerm i
  kept : ∀ d ∈ h.states c, ∀ i ∈ voters, ∀ x, (d.hosts i).node.hard.votedFor = some x →
    cast i (d.hosts i).node.hard.currentTerm = some x
  counted : ∀ d ∈ h.states c, ∀ i ∈ voters, (d.hosts i).node.campaign = .vote →
    ∀ v ∈ (d.hosts i).node.votes, v ∈ voters ∧ cast v (d.hosts i).node.hard.currentTerm = some i
  real : ∀ i ∈ voters, ∀ t x, cast i t = some x →
    ∃ d ∈ h.states c, (d.hosts i).node.hard = ⟨t, some x⟩

variable [SerdeJson]

/-- Nobody has voted at the start. -/
theorem Voting.init {shard : Nat} {c : Cluster} (hc : Initial voters shard c) :
    Voting voters (fun _ _ => none) [] c := by
  obtain ⟨hnet, hosts⟩ := hc
  have hball : ∀ i ∈ voters, ∃ cfg o, cfg.nodeId = i ∧ cfg.voters = voters ∧
      (c.hosts i).ballot = .opened cfg .default o := by
    intro i hi
    obtain ⟨cfg, now, h1, h2, -, ho⟩ := hosts i hi
    exact ⟨cfg, _, h1, h2, (Host.openNode_ballot ho).2⟩
  have hok : ∀ i ∈ voters, (c.hosts i).ballot.Ok voters (fun _ _ => none) i := by
    intro i hi
    obtain ⟨cfg, o, h1, h2, hb⟩ := hball i hi
    rw [hb]
    exact {
      nodeId := h1
      members := h2
      saved := rfl
      current := rfl
      future := fun _ _ => rfl
      counted := by intro h; cases h
      lead := by intro h; cases h }
  refine ⟨hok, by simp [hnet], ?_, ?_, ?_, by simp⟩
  · intro d hd i hi hr
    rw [List.mem_singleton.1 hd] at hr ⊢
    exact (hok i hi).won hr
  · intro d hd i hi x hx
    rw [List.mem_singleton.1 hd] at hx
    exact (hok i hi).current.trans hx
  · intro d hd i hi hcam v hv
    rw [List.mem_singleton.1 hd] at hcam hv
    exact (hok i hi).counted hcam v hv

/-- A step whose `persist_hard_state` succeeds keeps the votes in order. -/
theorem Voting.step {cast : Votes String} {h : History Cluster Event} {c c' : Cluster} {e : Event}
    (hv : Voting voters cast h c) (hg : e.faults.hard = []) (hs : Cluster.step voters c e = some c') :
    ∃ cast', Voting voters cast' ((c, e) :: h) c' := by
  obtain ⟨hi, req, out, host, hreq, hserve, rfl⟩ := step_eq_some hs
  have hturn := Host.serve_turns hserve
  have hb : ((c.hosts e.node).prepared e.now e.faults).ballot.Ok voters cast e.node := by
    have hk := hv.members e.node hi
    exact { hk with }
  have hm : ∀ sender msg, req = .handle sender msg →
      msg.Ok voters cast (fun i t => (c.hosts i).ballot.Past t) e.node :=
    fun sender msg h => hv.net _ (Call.request_handle (h ▸ hreq))
  obtain ⟨cast', hx, hout⟩ :=
    hturn.ok hi hb hg hm (fun _ h => h) (fun _ _ _ h hle => h.of_le hle)
  have hpast : ∀ i t, (c.hosts i).ballot.Past t →
      ((Function.update c.hosts e.node host) i).ballot.Past t := by
    intro i t h
    by_cases hne : i = e.node
    · subst hne
      rw [Function.update_self]
      exact hx.past t h
    · rwa [Function.update_of_ne hne]
  have hmem : ∀ i ∈ voters, ((Function.update c.hosts e.node host) i).ballot.Ok voters cast' i := by
    intro i hiv
    by_cases hne : i = e.node
    · subst hne
      rw [Function.update_self]
      exact hx.ok
    · rw [Function.update_of_ne hne]
      exact (hv.members i hiv).mono hx.le (hx.others i hne)
  refine ⟨cast', hmem, ?_, ?_, ?_, ?_, ?_⟩
  · intro p hp
    rcases List.mem_append.1 hp with hp | hp
    · exact (hv.net p hp).mono hx.le hpast
    · obtain ⟨o, ho, rfl⟩ := List.mem_map.1 hp
      refine (hout o ho).mono (.refl _) fun i t h => ?_
      rcases h with h | ⟨rfl, h⟩
      · exact hpast i t h
      · simpa using h
  · intro d hd i hiv hr
    rcases List.mem_cons.1 hd with rfl | hd
    · exact (hmem i hiv).won hr
    · exact (hv.won d hd i hiv hr).mono hx.le
  · intro d hd i hiv x hd'
    rcases List.mem_cons.1 hd with rfl | hd
    · exact (hmem i hiv).current.trans hd'
    · exact hx.le _ _ _ (hv.kept d hd i hiv x hd')
  · intro d hd i hiv hcam v hvote
    rcases List.mem_cons.1 hd with rfl | hd
    · exact (hmem i hiv).counted hcam v hvote
    · have hk := hv.counted d hd i hiv hcam v hvote
      exact ⟨hk.1, hx.le _ _ _ hk.2⟩
  · intro i hiv t x hcast
    by_cases hne : i = e.node
    · subst hne
      rcases hx.fresh t x hcast with hold | hnew
      · obtain ⟨d, hd, heq⟩ := hv.real _ hiv t x hold
        exact ⟨d, List.mem_cons_of_mem _ hd, heq⟩
      · refine ⟨_, List.mem_cons_self, ?_⟩
        show (Function.update c.hosts e.node host e.node).node.hard = _
        rw [Function.update_self]
        exact hnew
    · rw [hx.others i hne] at hcast
      obtain ⟨d, hd, heq⟩ := hv.real i hiv t x hcast
      exact ⟨d, List.mem_cons_of_mem _ hd, heq⟩

/-- The runs in which `persist_hard_state` succeeds; operations on logs and snapshots may fail. -/
abbrev HardRun (voters : List String) (shard : Nat) : History Cluster Event → Cluster → Prop :=
  GuardedRun voters shard fun _ _ e => e.faults.hard = []

/-- The votes of such a run are in order. -/
theorem HardRun.voting {shard : Nat} {h : History Cluster Event} {c : Cluster}
    (hr : HardRun voters shard h c) : ∃ cast, Voting voters cast h c :=
  Run.invariant (I := fun h c => ∃ cast, Voting voters cast h c) (fun _ h => ⟨_, .init h⟩)
    (fun _ _ _ _ _ ⟨_, hv⟩ hg hs => hv.step hg hs) hr

/-- What elections promise of a run: one leader in a term, whenever the two lead; every vote a
standing node has counted is the vote, in its term, that its voter has persisted for it; and no
member ever votes for two candidates in one term. -/
structure ElectionSafe (voters : List String) (h : History Cluster Event) (c : Cluster) : Prop where
  leader : ∀ d ∈ h.states c, ∀ d' ∈ h.states c, ∀ i ∈ voters, ∀ j ∈ voters,
    (d.hosts i).node.role = .leader → (d'.hosts j).node.role = .leader →
    (d.hosts i).node.term = (d'.hosts j).node.term → i = j
  counted : ∀ d ∈ h.states c, ∀ i ∈ voters, (d.hosts i).node.campaign = .vote →
    ∀ v ∈ (d.hosts i).node.votes, ∃ d' ∈ h.states c,
      (d'.hosts v).node.hard = ⟨(d.hosts i).node.term, some i⟩
  vote : ∀ d ∈ h.states c, ∀ d' ∈ h.states c, ∀ i ∈ voters, ∀ x y,
    (d.hosts i).node.term = (d'.hosts i).node.term → (d.hosts i).node.hard.votedFor = some x →
    (d'.hosts i).node.hard.votedFor = some y → x = y

/-- Elections are safe in every run in which `persist_hard_state` succeeds. -/
theorem election_safety {voters : List String} {shard : Nat} {h : History Cluster Event}
    {c : Cluster} (hr : HardRun voters shard h c) : ElectionSafe voters h c := by
  obtain ⟨cast, hv⟩ := hr.voting
  refine ⟨?_, ?_, ?_⟩
  · intro d hd d' hd' i hi j hj hli hlj ht
    have hwi := hv.won d hd i hi hli
    have hwj := hv.won d' hd' j hj hlj
    rw [show (d.hosts i).node.hard.currentTerm = (d'.hosts j).node.hard.currentTerm from ht] at hwi
    exact hwi.unique hwj
  · intro d hd i hi hcam v hvote
    obtain ⟨hvm, hcast⟩ := hv.counted d hd i hi hcam v hvote
    exact hv.real v hvm _ _ hcast
  · intro d hd d' hd' i hi x y ht hx hy
    have h1 := hv.kept d hd i hi x hx
    have h2 := hv.kept d' hd' i hi y hy
    rw [show (d.hosts i).node.hard.currentTerm = (d'.hosts i).node.hard.currentTerm from ht,
      h2] at h1
    exact (Option.some.inj h1).symm

end Cluster

section
attribute [local instance] SerdeJson.sample

/-- The run in which the first of three nodes is elected. -/
def electedRun : Option (History Cluster Event × Cluster) :=
  follow (Cluster.step threeVoters) (fun _ _ e => e.faults.hard = []) electFirst [] Cluster.three

theorem election_safety_elected : ∃ h c, (c.hosts "n1").node.role = .leader ∧
    Cluster.ElectionSafe threeVoters h c := by
  have hrun : electedRun.map (fun r => (r.2.hosts "n1").node.role) = some .leader := by
    decide +kernel
  obtain ⟨⟨h, c⟩, hf, hl⟩ := Option.map_eq_some_iff.1 hrun
  exact ⟨h, c, hl, Cluster.election_safety (Run.follow (.start Cluster.three_initial) hf)⟩

end

end Rdsctl.Ha
