import Rdsctl.Ha.Refine

/-!
# Safety of the replicated log

Along every run whose steps are sound (`Cluster.Sound`) the cluster mirrors an abstract replicated
log (`Cluster.Mirrored`), and with it the states the run has been through: what was applied or
committed stays settled, and what a leader held is in the log of its reign. The safety results read
off this: state-machine safety, leader completeness, log matching, and that the position in the log
survives compaction. Each of them fails in a run with an unsound step.
-/

namespace Rdsctl.Ha

open Fallible

namespace Cluster

variable {voters : List String} {shard : Nat}

section
variable [SerdeJson]

/-- The runs whose steps are sound. -/
abbrev SoundRun (voters : List String) (shard : Nat) : History Cluster Event → Cluster → Prop :=
  GuardedRun voters shard (Sound voters)

/-- What a state of a run has left behind in the abstract log. -/
structure Recorded (voters : List String) (s : Copies) (d : Cluster) : Prop where
  voted : ∀ i ∈ voters, ∀ x, (d.hosts i).node.hard.votedFor = some x →
    s.cast i (d.hosts i).node.hard.currentTerm = some x
  led : ∀ i ∈ voters, (d.hosts i).node.role = .leader →
    ∃ r ℓ, s.reigns (d.hosts i).node.hard.currentTerm = some r ∧ r.base <+: ℓ ∧ ℓ <+: r.log ∧
      Log.Holds (d.hosts i).node.snapshotIndex (d.hosts i).node.log.entries ℓ
  settled : ∀ i ∈ voters, ∀ idx rec, idx ≤ (d.hosts i).node.commitIndex →
    (d.hosts i).node.log.get idx = some rec →
    ∃ e, s.Settled (d.hosts i).node.hard.currentTerm idx e ∧ rec.spells e
  calls : ∀ i ∈ voters, ∀ call ∈ (d.hosts i).node.calls, call.Ok s

/-- The cluster mirrors the abstract log, and its run is recorded in it. -/
structure Mirrored (voters : List String) (shard : Nat) (s : Copies) (h : History Cluster Event)
    (c : Cluster) : Prop where
  inv : s.Inv voters
  replicas : ∀ i ∈ voters, (c.hosts i).replica.Ok voters shard s i
  net : ∀ p ∈ c.net, p.msg.Carries voters s
  recorded : ∀ d ∈ h.states c, Recorded voters s d
  committed : ∀ d ∈ h.states c, ∀ i ∈ voters,
    (d.hosts i).node.commitIndex ≤ max (c.hosts i).node.snapshotIndex (s.known i)

/-- The state a run is in is recorded. -/
theorem recorded_of_replicas {s : Copies} {c : Cluster} (hi : s.Inv voters)
    (hc : ∀ i ∈ voters, (c.hosts i).replica.Ok voters shard s i) : Recorded voters s c where
  voted := fun i hmem x hx => (hc i hmem).cast.trans hx
  led := by
    intro i hmem hr
    obtain ⟨⟨r, hreign, -, hlog⟩, -⟩ := (hc i hmem).leads hr
    refine ⟨r, s.log i, hreign, ?_, ?_, (hc i hmem).records⟩
    · rw [← hlog]
      exact r.base_prefix
    · rw [hlog]
  settled := fun i hmem idx rec hle hg => (hc i hmem).settled_get hi hle hg
  calls := fun i hmem => (hc i hmem).calls

theorem Recorded.evolves {s s' : Copies} {d : Cluster} {v : String} (h : Recorded voters s d)
    (hx : s.Evolves v s') : Recorded voters s' d where
  voted := fun i hmem x hv => hx.cast _ _ _ (h.voted i hmem x hv)
  led := by
    intro i hmem hr
    obtain ⟨r, ℓ, hreign, hb, hp, hholds⟩ := h.led i hmem hr
    obtain ⟨r', hr', -, hbase, hle⟩ := hx.reigns.log hreign
    exact ⟨r', ℓ, hr', hbase ▸ hb, hp.trans hle, hholds⟩
  settled := by
    intro i hmem idx rec hle hg
    obtain ⟨e, he, hsp⟩ := h.settled i hmem idx rec hle hg
    exact ⟨e, he.evolves hx, hsp⟩
  calls := fun i hmem call hcall => (h.calls i hmem call hcall).evolves hx

/-- A record that a leader has held is in the log of its reign. -/
theorem Recorded.held {s : Copies} {d : Cluster} (h : Recorded voters s d) {i : String}
    (hmem : i ∈ voters) (hr : (d.hosts i).node.role = .leader) {r : Reign String LogEntry}
    (hreign : s.reigns (d.hosts i).node.hard.currentTerm = some r) {idx t : Nat}
    (ht : (d.hosts i).node.log.termAt idx = some t) :
    ∃ e, r.log[idx - 1]? = some e ∧ e.term = t := by
  obtain ⟨r', ℓ, hr', -, hp, hholds⟩ := h.led i hmem hr
  rw [hreign] at hr'
  cases hr'
  obtain ⟨rec, hg, rfl⟩ := Option.map_eq_some_iff.1 ht
  obtain ⟨-, -, e, he, hsp⟩ := hholds.get_some hg
  exact ⟨e, getElem?_mono hp he, hsp.1.symm⟩

/-- At the start the abstract log is empty. -/
theorem Mirrored.init {c : Cluster} (hc : Initial voters shard c) :
    Mirrored voters shard Replicas.init [] c := by
  obtain ⟨hnet, hosts⟩ := hc
  have hinv : Copies.Inv voters Replicas.init := Replicas.inv_init
  have hok : ∀ i ∈ voters, (c.hosts i).replica.Ok voters shard Replicas.init i := by
    intro i hmem
    obtain ⟨cfg, now, rfl, rfl, rfl, ho⟩ := hosts i hmem
    -- opening an empty directory is opening what a fresh node has left
    let n0 := Host.opened cfg ⟨cfg.shard, [], zeroHash, 0⟩
      (StateMachine.new cfg.shard cfg.maxSkewMs) HardState.default none
    have hn0 : (n0.replica Disk.empty).Ok cfg.voters cfg.shard Replicas.init cfg.nodeId := {
      nodeId := rfl
      members := rfl
      ofShard := rfl
      saved := rfl
      term := rfl
      cast := rfl
      stands := by intro hr; cases hr
      leads := by intro hr; cases hr
      records := Log.holds_nil (Nat.le_refl _)
      logShard := rfl
      chained := Log.chained_nil _ _
      file := rfl
      anchored := .inl ⟨rfl, rfl, rfl, rfl⟩
      applied := ⟨Nat.le_refl _, Nat.le_refl _⟩
      committed := Nat.zero_le _
      calls := by intro call h; cases h }
    exact (hn0.reopen hinv ⟨rfl, rfl, rfl⟩ ho).ok
  refine ⟨hinv, hok, by simp [hnet], fun d hd => ?_, fun d hd i hmem => ?_⟩
  · rw [List.mem_singleton.1 hd]
    exact recorded_of_replicas hinv hok
  · rw [List.mem_singleton.1 hd]
    exact (hok i hmem).committed

/-- The votes a new leader has counted are recorded. -/
theorem Mirrored.won {s : Copies} {h : History Cluster Event} {c c' : Cluster} {e : Event}
    (hv : Mirrored voters shard s h c) (hr : SoundRun voters shard ((c, e) :: h) c')
    (hmem : e.node ∈ voters) (hothers : ∀ v, v ≠ e.node → c'.hosts v = c.hosts v)
    (hl : (c'.hosts e.node).node.role = .leader)
    (hhard : (c'.hosts e.node).node.hard = (c.hosts e.node).node.hard) :
    (electorate voters).Won s.cast (c.hosts e.node).node.hard.currentTerm e.node := by
  have hhr : HardRun voters shard ((c, e) :: h) c' :=
    hr.mono fun _ _ _ hg => congrArg Faults.hard hg.1
  obtain ⟨cast, hvote⟩ := hhr.voting
  obtain ⟨Q, hQ, hq, hcast⟩ := hvote.won c' (by simp) e.node hmem hl
  refine ⟨Q, hQ, hq, fun v hvQ => ?_⟩
  have hvm : v ∈ voters := List.mem_toFinset.1 (hQ hvQ)
  obtain ⟨d, hd, hdh⟩ := hvote.real v hvm _ _ (hcast v hvQ)
  rw [hhard] at hdh
  -- the vote was on record before this step
  have hbefore : ∃ d ∈ h.states c, (d.hosts v).node.hard =
      ⟨(c.hosts e.node).node.hard.currentTerm, some e.node⟩ := by
    rcases List.mem_cons.1 hd with rfl | hd
    · refine ⟨c, by simp, ?_⟩
      by_cases hne : v = e.node
      · subst hne
        rw [← hhard, hdh]
      · rw [← hothers v hne, hdh]
    · exact ⟨d, hd, hdh⟩
  obtain ⟨d, hd, hdh⟩ := hbefore
  have := (hv.recorded d hd).voted v hvm e.node (by rw [hdh])
  rwa [hdh] at this

/-- What a sound step lets a follower keep is the leader's. -/
theorem Mirrored.keepsReign {s : Copies} {h : History Cluster Event} {c : Cluster} {n : Node}
    {req : Request} (hv : Mirrored voters shard s h c) (hk : KeepsLeaders voters h c n req) :
    n.KeepsReign s req := by
  unfold Node.KeepsReign
  split
  · next term _ prev prevTerm entries _ _ _ =>
    intro ht r hreign rec hrec
    obtain ⟨d, hd, j, hj, hl, rfl, hterm⟩ := hk ht rec hrec
    exact (hv.recorded d hd).held hj hl hreign hterm
  · trivial

/-- A sound step is a series of moves of the member it is a call of. -/
theorem Mirrored.step {s : Copies} {h : History Cluster Event} {c c' : Cluster} {e : Event}
    (hv : Mirrored voters shard s h c) (hr : SoundRun voters shard h c)
    (hg : Sound voters h c e) (hs : Cluster.step voters c e = some c') :
    ∃ s', Mirrored voters shard s' ((c, e) :: h) c' := by
  have hr' : SoundRun voters shard ((c, e) :: h) c' := .step hr hg hs
  obtain ⟨hmem, req, out, host, hreq, hserve, rfl⟩ := step_eq_some hs
  obtain ⟨hfaults, hguard⟩ := hg
  rw [hreq] at hguard
  have hothers : ∀ v, v ≠ e.node → Function.update c.hosts e.node host v = c.hosts v :=
    fun v hne => Function.update_of_ne hne _ _
  have hself : Function.update c.hosts e.node host e.node = host := Function.update_self _ _ _
  have hm : ∀ sender msg, req = .handle sender msg → msg.Carries voters s := by
    rintro sender msg rfl
    exact hv.net _ (Call.request_handle hreq)
  have hwon : (c.hosts e.node).node.role = .candidate → host.node.role = .leader →
      host.node.hard = (c.hosts e.node).node.hard →
      (electorate voters).Won s.cast (c.hosts e.node).node.hard.currentTerm e.node :=
    fun _ hl hh => hv.won hr' hmem hothers
      ((congrArg (fun x : Host => x.node.role) hself).trans hl)
      ((congrArg (fun x : Host => x.node.hard) hself).trans hh)
  obtain ⟨s', ha, hout⟩ := Host.serve_yields (h := (c.hosts e.node).prepared e.now e.faults)
    hfaults (hv.replicas e.node hmem) hv.inv hmem hm hguard.1 (hv.keepsReign hguard.2) hwon hserve
  obtain ⟨hi', hx⟩ := ha.moves.inv hv.inv
  have hok : ∀ i ∈ voters,
      (Function.update c.hosts e.node host i).replica.Ok voters shard s' i := by
    intro i him
    by_cases hne : i = e.node
    · subst hne
      rw [hself]
      exact ha.ok
    · rw [hothers i hne]
      exact (hv.replicas i him).evolves hx hne
  refine ⟨s', hi', hok, fun p hp => ?_, fun d hd => ?_, fun d hd i him => ?_⟩
  · rcases List.mem_append.1 hp with hp | hp
    · exact (hv.net p hp).evolves hv.inv hx
    · obtain ⟨o, ho, rfl⟩ := List.mem_map.1 hp
      exact hout o ho
  · rcases List.mem_cons.1 hd with rfl | hd
    · exact recorded_of_replicas hi' hok
    · exact (hv.recorded d hd).evolves hx
  · rcases List.mem_cons.1 hd with rfl | hd
    · exact (hok i him).committed
    · refine (hv.committed d hd i him).trans (max_le_max ?_ (hx.known i))
      by_cases hne : i = e.node
      · subst hne
        show _ ≤ (Function.update c.hosts e.node host e.node).node.snapshotIndex
        rw [hself]
        exact ha.snapshot
      · show _ ≤ (Function.update c.hosts e.node host i).node.snapshotIndex
        rw [hothers i hne]

/-- A sound run mirrors an abstract log. -/
theorem SoundRun.mirrored {h : History Cluster Event} {c : Cluster}
    (hr : SoundRun voters shard h c) : ∃ s, Mirrored voters shard s h c :=
  Run.invariant (I := fun h c => ∃ s, Mirrored voters shard s h c) (fun _ h => ⟨_, .init h⟩)
    (fun _ _ _ _ hr ⟨_, hv⟩ hg hs => hv.step hr hg hs) hr

end

/-! ## Runs of three nodes -/

section
attribute [local instance] SerdeJson.sample

/-- A call at some time, with no faults. -/
def callAtMs (now : Nat) (node : String) (call : Call) : Event := ⟨node, now, Faults.none, call⟩

/-- The first member leads, commits two entries, appends a third one and compacts the two away; the
second one has the third entry too, and leads the next term with the vote of the last one. -/
def takeover : List Event :=
  electFirst ++
    [callAt "n1" (.propose (.delete "a" none)), callAt "n1" .flush, callAt "n2" (.deliver 8),
      callAt "n1" (.deliver 10), callAt "n1" (.propose (.delete "b" none)), callAt "n1" .flush,
      callAt "n1" .maybeSnapshot, callAt "n1" (.propose .noop), callAt "n2" (.deliver 11),
      callAt "n3" (.deliver 4), callAtMs 9000 "n2" .tick, callAtMs 9000 "n3" (.deliver 16),
      callAtMs 9000 "n2" (.deliver 17), callAtMs 9000 "n3" (.deliver 19),
      callAtMs 9000 "n2" (.deliver 20)]

/-- That run is sound. -/
theorem takeover_sound : ∃ h c, SoundRun threeVoters 0 h c ∧ (c.hosts "n2").node.role = .leader ∧
    (c.hosts "n2").node.term = 2 ∧ (c.hosts "n2").node.commitIndex = 2 ∧
    (c.hosts "n1").node.snapshotIndex = 2 := by
  have hrun : (follow (Cluster.step threeVoters) (Sound threeVoters) takeover [] Cluster.three).map
      (fun r => ((r.2.hosts "n2").node.role, (r.2.hosts "n2").node.term,
        (r.2.hosts "n2").node.commitIndex, (r.2.hosts "n1").node.snapshotIndex)) =
      some (.leader, 2, 2, 2) := by
    decide +kernel
  obtain ⟨⟨h, c⟩, hf, hl⟩ := Option.map_eq_some_iff.1 hrun
  simp only [Prod.mk.injEq] at hl
  exact ⟨h, c, Run.follow (.start three_initial) hf, hl⟩

/-- The first member leads term 1 and keeps an op to itself. The second one leads terms 2 and 3 by
the votes of the last one, with other entries, and sends the first one its whole log once the check
has failed. Only the first entry of that batch is compared, and it is in both logs. -/
def staleSuffix : List Event :=
  electFirst ++
    [callAt "n2" (.deliver 6), callAt "n1" (.propose (.delete "a" none)), callAt "n3" (.deliver 4),
      callAtMs 9000 "n2" .tick, callAtMs 9000 "n3" (.deliver 11), callAtMs 9000 "n2" (.deliver 12),
      callAtMs 9000 "n3" (.deliver 14), callAtMs 9000 "n2" (.deliver 15),
      callAtMs 9000 "n2" .stepDown, callAtMs 15000 "n2" .tick, callAtMs 15000 "n3" (.deliver 21),
      callAtMs 15000 "n2" (.deliver 22), callAtMs 15000 "n3" (.deliver 24),
      callAtMs 15000 "n2" (.deliver 25), callAtMs 15000 "n1" (.deliver 26),
      callAtMs 15000 "n2" (.deliver 28), callAtMs 15000 "n1" (.deliver 29),
      callAtMs 15000 "n2" (.deliver 30), callAtMs 15000 "n2" .flush,
      callAtMs 15000 "n1" (.deliver 31)]

/-- The first member commits two entries and compacts its whole log. -/
def emptied : List Event :=
  electFirst ++
    [callAt "n1" (.propose (.delete "a" none)), callAt "n1" .flush, callAt "n2" (.deliver 8),
      callAt "n1" (.deliver 10), callAt "n1" .maybeSnapshot]

/-- The last member, which has no entries, stands in term 2, and the first one votes for it. -/
def electEmpty : List Event :=
  [callAt "n3" (.deliver 4), callAtMs 9000 "n3" .tick, callAtMs 9000 "n1" (.deliver 12),
    callAtMs 9000 "n3" (.deliver 14), callAtMs 9000 "n1" (.deliver 15),
    callAtMs 9000 "n3" (.deliver 17)]

/-- The runs in which no file operation fails. -/
abbrev PlainRun : History Cluster Event → Cluster → Prop :=
  GuardedRun threeVoters 0 fun _ _ e => e.faults = Faults.none

/-- Such a run, followed event by event. -/
theorem PlainRun.of_follow {β : Type} (es : List Event) (f : History Cluster Event × Cluster → β)
    {b : β}
    (hf : (follow (Cluster.step threeVoters) (fun _ _ e => e.faults = Faults.none) es []
      Cluster.three).map f = some b) : ∃ h c, PlainRun h c ∧ f (h, c) = b := by
  obtain ⟨⟨h, c⟩, hf, hb⟩ := Option.map_eq_some_iff.1 hf
  exact ⟨h, c, Run.follow (.start three_initial) hf, hb⟩

end

section
variable [SerdeJson]

/-! ## What holds along a sound run -/

/-- No two nodes apply different ops, or entries of different terms, at one index. -/
def StateMachineSafe (voters : List String) (h : History Cluster Event) (c : Cluster) : Prop :=
  ∀ d ∈ h.states c, ∀ d' ∈ h.states c, ∀ i ∈ voters, ∀ j ∈ voters,
    ∀ a ∈ (d.hosts i).node.calls, ∀ b ∈ (d'.hosts j).node.calls,
      a.index = b.index → a.term = b.term ∧ a.op = b.op

/-- In every sound run the state machines are fed one sequence of entries. -/
theorem state_machine_safety {h : History Cluster Event} {c : Cluster}
    (hr : SoundRun voters shard h c) : StateMachineSafe voters h c := by
  obtain ⟨s, hv⟩ := SoundRun.mirrored hr
  intro d hd d' hd' i hi j hj a ha b hb hidx
  obtain ⟨u, e, he, hat, hao⟩ := (hv.recorded d hd).calls i hi a ha
  obtain ⟨u', e', he', hbt, hbo⟩ := (hv.recorded d' hd').calls j hj b hb
  rw [← hidx] at he'
  obtain rfl := hv.inv.settled_unique he he'
  exact ⟨hat.trans hbt.symm, hao.trans hbo.symm⟩

end

section
attribute [local instance] SerdeJson.sample

theorem state_machine_safety_takeover : ∃ h c, (c.hosts "n2").node.role = .leader ∧
    StateMachineSafe threeVoters h c := by
  obtain ⟨h, c, hr, hl, -⟩ := takeover_sound
  exact ⟨h, c, hl, state_machine_safety hr⟩

/-- Two members apply a `Delete` and a `Noop` at one index. -/
theorem state_machines_diverge : ¬ ∀ h c, PlainRun h c → StateMachineSafe threeVoters h c := by
  intro hall
  obtain ⟨h, c, hr, hc⟩ := PlainRun.of_follow staleSuffix (fun r => decide
    (∃ a ∈ (r.2.hosts "n1").node.calls, ∃ b ∈ (r.2.hosts "n2").node.calls,
      a.index = b.index ∧ SerdeJson.sampleOp a.op ≠ SerdeJson.sampleOp b.op)) (b := true)
    (by decide +kernel)
  obtain ⟨a, ha, b, hb, hidx, hne⟩ := of_decide_eq_true hc
  have hop := (hall h c hr c (by simp) c (by simp) "n1" (by simp [threeVoters]) "n2"
    (by simp [threeVoters]) a ha b hb hidx).2
  exact hne (congrArg SerdeJson.sampleOp hop)

end

section
variable [SerdeJson]

/-- A committed record is with every leader of a higher term, in its log or under its snapshot. -/
def LeaderComplete (voters : List String) (h : History Cluster Event) (c : Cluster) : Prop :=
  ∀ d ∈ h.states c, ∀ d' ∈ h.states c, ∀ i ∈ voters, ∀ j ∈ voters, ∀ idx rec,
    idx ≤ (d.hosts i).node.commitIndex → (d.hosts i).node.log.get idx = some rec →
    (d'.hosts j).node.role = .leader → (d.hosts i).node.term < (d'.hosts j).node.term →
    idx ≤ (d'.hosts j).node.snapshotIndex ∨ ∃ rec', (d'.hosts j).node.log.get idx = some rec' ∧
      rec'.term = rec.term ∧ rec'.payload = rec.payload

/-- In every sound run later leaders have what is committed. -/
theorem leader_completeness {h : History Cluster Event} {c : Cluster}
    (hr : SoundRun voters shard h c) : LeaderComplete voters h c := by
  obtain ⟨s, hv⟩ := SoundRun.mirrored hr
  intro d hd d' hd' i hi j hj idx rec hle hg hl hlt
  obtain ⟨e, he, hsp⟩ := (hv.recorded d hd).settled i hi idx rec hle hg
  obtain ⟨r, ℓ, hreign, hbase, -, hholds⟩ := (hv.recorded d' hd').led j hj hl
  have hget : ℓ[idx - 1]? = some e :=
    getElem?_mono hbase (hv.inv.base_of_settled he hreign hlt)
  rcases Nat.lt_or_ge (d'.hosts j).node.snapshotIndex idx with hS | hS
  · obtain ⟨rec', hg', hsp'⟩ := hholds.get_of_entry hS hget
    exact .inr ⟨rec', hg', hsp'.1.trans hsp.1.symm, hsp'.2.trans hsp.2.symm⟩
  · exact .inl hS

end

section
attribute [local instance] SerdeJson.sample

theorem leader_completeness_takeover : ∃ h c, (c.hosts "n2").node.role = .leader ∧
    (c.hosts "n2").node.term = 2 ∧ LeaderComplete threeVoters h c := by
  obtain ⟨h, c, hr, hl, ht, -⟩ := takeover_sound
  exact ⟨h, c, hl, ht, leader_completeness hr⟩

/-- A member with no entries leads a term after a committed one. -/
theorem leader_incomplete : ¬ ∀ h c, PlainRun h c → LeaderComplete threeVoters h c := by
  intro hall
  obtain ⟨h, c, hr, hc⟩ := PlainRun.of_follow (emptied ++ electEmpty) (fun r => decide
    ((∃ d ∈ r.1.states r.2, (d.hosts "n1").node.commitIndex = 2 ∧ (d.hosts "n1").node.term = 1 ∧
      ((d.hosts "n1").node.log.get 2).isSome) ∧ (r.2.hosts "n3").node.role = .leader ∧
      (r.2.hosts "n3").node.term = 2 ∧ (r.2.hosts "n3").node.snapshotIndex = 0 ∧
      ((r.2.hosts "n3").node.log.get 2).isSome = false)) (b := true) (by decide +kernel)
  obtain ⟨⟨d, hd, hcommit, hterm, hget⟩, hrole, hterm', hsnap, hnone⟩ := of_decide_eq_true hc
  obtain ⟨rec, hrec⟩ := Option.isSome_iff_exists.1 hget
  rcases hall h c hr d hd c (by simp) "n1" (by simp [threeVoters]) "n3" (by simp [threeVoters]) 2
    rec (Nat.le_of_eq hcommit.symm) hrec hrole
    (by rw [hterm, show (c.hosts "n3").node.term = 2 from hterm']; omega) with hle | ⟨rec', hrec', -⟩
  · rw [show (c.hosts "n3").node.snapshotIndex = 0 from hsnap] at hle
    omega
  · rw [hrec'] at hnone
    cases hnone

end

section
variable [SerdeJson]

/-- Logs that hold records of one term at one index agree there and below. -/
def LogMatching (voters : List String) (c : Cluster) : Prop :=
  ∀ i ∈ voters, ∀ j ∈ voters, ∀ idx r r',
    (c.hosts i).node.log.get idx = some r → (c.hosts j).node.log.get idx = some r' →
    r.term = r'.term → r.payload = r'.payload ∧ ∀ idx' < idx, ∀ q q',
      (c.hosts i).node.log.get idx' = some q → (c.hosts j).node.log.get idx' = some q' →
      q.term = q'.term ∧ q.payload = q'.payload

/-- In every sound run the logs match. -/
theorem log_matching {h : History Cluster Event} {c : Cluster} (hr : SoundRun voters shard h c) :
    LogMatching voters c := by
  obtain ⟨s, hv⟩ := SoundRun.mirrored hr
  intro i hi j hj idx r r' hg hg' ht
  have hrec : Log.Holds (c.hosts i).node.snapshotIndex _ (s.log i) := (hv.replicas i hi).records
  have hrec' : Log.Holds (c.hosts j).node.snapshotIndex _ (s.log j) := (hv.replicas j hj).records
  obtain ⟨hpos, -, e, he, hsp⟩ := hrec.get_some hg
  obtain ⟨-, -, e', he', hsp'⟩ := hrec'.get_some hg'
  have htake : (s.log i).take idx = (s.log j).take idx := by
    have := (hv.inv.traced i).take_eq (hv.inv.traced j) he he'
      (hsp.1.symm.trans (ht.trans hsp'.1))
    rwa [Nat.sub_add_cancel (by omega)] at this
  -- below `idx` the abstract logs are one
  have hsame : ∀ idx' ≤ idx, ∀ q q', (c.hosts i).node.log.get idx' = some q →
      (c.hosts j).node.log.get idx' = some q' → q.term = q'.term ∧ q.payload = q'.payload := by
    intro idx' hle q q' hq hq'
    obtain ⟨hpos', -, x, hx, hspx⟩ := hrec.get_some hq
    obtain ⟨-, -, x', hx', hspx'⟩ := hrec'.get_some hq'
    have hxx : some x = some x' := by
      rw [← hx, ← hx', ← List.getElem?_take_of_lt (show idx' - 1 < idx by omega), htake,
        List.getElem?_take_of_lt (by omega)]
    cases hxx
    exact ⟨hspx.1.trans hspx'.1.symm, hspx.2.trans hspx'.2.symm⟩
  exact ⟨(hsame idx (Nat.le_refl _) r r' hg hg').2,
    fun idx' hlt q q' hq hq' => hsame idx' (Nat.le_of_lt hlt) q q' hq hq'⟩

end

section
attribute [local instance] SerdeJson.sample

theorem log_matching_takeover : ∃ h c, SoundRun threeVoters 0 h c ∧
    (c.hosts "n2").node.role = .leader ∧ LogMatching threeVoters c := by
  obtain ⟨h, c, hr, hl, -⟩ := takeover_sound
  exact ⟨h, c, hr, hl, log_matching hr⟩

/-- Two logs share a record of term 3 at index 4 and differ at index 2. -/
theorem logs_mismatch : ¬ ∀ h c, PlainRun h c → LogMatching threeVoters c := by
  intro hall
  obtain ⟨h, c, hr, hc⟩ := PlainRun.of_follow staleSuffix (fun r =>
    ([4, 2].map (r.2.hosts "n1").node.log.termAt, [4, 2].map (r.2.hosts "n2").node.log.termAt))
    (b := ([some 3, some 1], [some 3, some 2])) (by decide +kernel)
  simp only [List.map_cons, List.map_nil, Prod.mk.injEq, List.cons.injEq, and_true] at hc
  obtain ⟨⟨h14, h12⟩, h24, h22⟩ := hc
  obtain ⟨r, hr4, hrt⟩ := Option.map_eq_some_iff.1 h14
  obtain ⟨r', hr4', hrt'⟩ := Option.map_eq_some_iff.1 h24
  obtain ⟨q, hq, hqt⟩ := Option.map_eq_some_iff.1 h12
  obtain ⟨q', hq', hqt'⟩ := Option.map_eq_some_iff.1 h22
  have hmatch := hall h c hr "n1" (by simp [threeVoters]) "n2" (by simp [threeVoters]) 4 r r' hr4
    hr4' (by omega)
  have := (hmatch.2 2 (by omega) q q' hq hq').1
  omega

end

section
variable [SerdeJson]

/-- No position that a member has committed is ever left, and every proposal of a leader has got the
position after the end of its log. -/
structure PositionKept (voters : List String) (h : History Cluster Event) (c : Cluster) : Prop where
  committed : ∀ d ∈ h.states c, ∀ i ∈ voters,
    (d.hosts i).node.commitIndex ≤ (c.hosts i).node.logicalLast
  proposed : ∀ d e, (d, e) ∈ h → ∀ op, e.call = .propose op →
    (d.hosts e.node).node.role = .leader →
    (exec (Host.propose op) ((d.hosts e.node).prepared e.now e.faults)).1 =
      .ok ((d.hosts e.node).node.logicalLast + 1)

/-- A node mirrors no more than its log and its snapshot hold. -/
theorem Mirrored.length_le {s : Copies} {h : History Cluster Event} {c : Cluster}
    (hv : Mirrored voters shard s h c) {i : String} (hi : i ∈ voters) :
    (s.log i).length ≤ (c.hosts i).node.logicalLast := by
  have hrec : Log.Holds (c.hosts i).node.snapshotIndex (c.hosts i).node.log.entries (s.log i) :=
    (hv.replicas i hi).records
  unfold Node.logicalLast
  by_cases hne : (c.hosts i).node.log.entries = []
  · have hlen := hrec.length
    rw [hne, List.length_nil] at hlen
    omega
  · rw [hrec.lastIndex hne]
    exact le_max_right _ _

/-- A sound proposal gets the position after the end of the log. -/
theorem Sound.propose {h : History Cluster Event} {c : Cluster} {e : Event} {op : Op}
    (hg : Sound voters h c e) (hcall : e.call = .propose op)
    (hrole : (c.hosts e.node).node.role = .leader) :
    (exec (Host.propose op) ((c.hosts e.node).prepared e.now e.faults)).1 =
      .ok ((c.hosts e.node).node.logicalLast + 1) := by
  obtain ⟨hfaults, hguard⟩ := hg
  rw [hcall] at hguard
  have hend : (c.hosts e.node).node.snapshotIndex ≤ (c.hosts e.node).node.log.lastIndex :=
    hguard.1 hrole
  rw [hfaults, Node.logicalLast, max_eq_right hend]
  exact congrArg Prod.fst (Host.exec_appendLocal hrole op (c.hosts e.node).store.disk e.now)

/-- In every sound run no position in the log is given away twice. -/
theorem log_position_kept {h : History Cluster Event} {c : Cluster} (hr : SoundRun voters shard h c) :
    PositionKept voters h c where
  committed := by
    obtain ⟨s, hv⟩ := SoundRun.mirrored hr
    intro d hd i hi
    have hknown := hv.inv.le_length_of_knows (hv.inv.known i)
    have hlen := hv.length_le hi
    have hle := hv.committed d hd i hi
    have hsnap : (c.hosts i).node.snapshotIndex ≤ (c.hosts i).node.logicalLast := le_max_left _ _
    omega
  proposed := by
    intro d e hmem op hcall hrole
    induction hr with
    | start => cases hmem
    | step _ hg _ ih =>
      rcases List.mem_cons.1 hmem with heq | hmem
      · cases heq
        exact hg.propose hcall hrole
      · exact ih hmem

end

section
attribute [local instance] SerdeJson.sample

theorem log_position_kept_takeover : ∃ h c, (c.hosts "n1").node.snapshotIndex = 2 ∧
    PositionKept threeVoters h c := by
  obtain ⟨h, c, hr, -, -, -, hs⟩ := takeover_sound
  exact ⟨h, c, hs, log_position_kept hr⟩

/-- After its log is compacted away a leader gives out index 1 again. -/
theorem log_position_lost : ¬ ∀ h c, PlainRun h c → PositionKept threeVoters h c := by
  intro hall
  let e := callAt "n1" (.propose (.delete "b" none))
  obtain ⟨h, c, hr, hc⟩ := PlainRun.of_follow emptied (fun r => decide
    ((r.2.hosts "n1").node.role = .leader ∧ (r.2.hosts "n1").node.logicalLast = 2 ∧
      (exec (Host.propose (.delete "b" none)) ((r.2.hosts "n1").prepared e.now e.faults)).1.toOption =
        some 1 ∧ (Cluster.step threeVoters r.2 e).isSome)) (b := true) (by decide +kernel)
  obtain ⟨hrole, hlast, hidx, hstep⟩ := of_decide_eq_true hc
  obtain ⟨c', hs⟩ := Option.isSome_iff_exists.1 hstep
  have hnext := (hall _ c' (.step hr rfl hs)).proposed c e (by simp) _ rfl hrole
  rw [show (c.hosts e.node).node.logicalLast = 2 from hlast] at hnext
  rw [show (c.hosts "n1").prepared e.now e.faults = (c.hosts e.node).prepared e.now e.faults from rfl,
    hnext] at hidx
  cases hidx

end

end Cluster

end Rdsctl.Ha
