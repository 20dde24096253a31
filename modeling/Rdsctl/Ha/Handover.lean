import Mathlib.Data.List.MinMax
import Rdsctl.Ha.Batch

/-!
# Stepping down

`step_down` appends an empty op before it looks for a successor, so the last index it compares the
match indices with is one that no follower has heard of.
-/

namespace Rdsctl.Ha

open Fallible

namespace Host

section
variable [SerdeJson]

/-- The log after an op of the leader, and what else of the node an append may change. -/
theorem exec_appendLocal_of_ok {op : Op} {h h' : Host} {i : Nat}
    (hx : exec (appendLocal op) h = (.ok i, h')) :
    ∃ l, l.lastIndex = h.node.log.lastIndex + 1 ∧
      h'.node = ({ h.node with log := l } : Node).matchedSelf i := by
  unfold appendLocal at hx
  rw [exec_get_bind, exec_ite] at hx
  split at hx
  · cases hx
  · unfold appendBatch at hx
    rw [exec_bind, exec_onError] at hx
    unfold onLog at hx
    rw [exec_get_bind, exec_bind, exec_onStore] at hx
    set batch : List PendingEntry :=
      [⟨KIND_ENTRY, h.node.hard.currentTerm, h.node.log.lastIndex + 1,
        asBytes (SerdeJson.opToString op)⟩] with hbatch
    rcases ha : exec (h.node.log.appendBatch batch) h.store with ⟨e | l, st⟩
    · rw [ha] at hx
      cases hx
    · rw [ha] at hx
      have hl : l = h.node.log.appended batch :=
        (h.node.log.appendBatch_returns (List.cons_ne_nil _ _) h.store l (by rw [ha])).2
      cases hx
      refine ⟨l, ?_, rfl⟩
      rw [hl, hbatch]
      simp [Log.appended, Log.lastIndex, Log.stage, Log.sealEntry]

omit [SerdeJson] in
/-- The successor is the first of the others with the largest match index. -/
theorem successor_eq (n : Node) :
    successor n = (n.cfg.others.argmax fun v => n.matchIndex.getD v 0).map
      fun v => (v, n.matchIndex.getD v 0) := by
  unfold successor List.argmax
  -- the fold keeps the best of the others with its index, that of `argmax` without
  refine @List.foldl_hom _ _ _ (Option.map fun v => (v, n.matchIndex.getD v 0)) _ _ _ none ?_
  intro best v
  rcases best with _ | b
  · rfl
  · simp only [Option.map_some, List.argAux]
    split <;> rfl

theorem appendFor_noTimeoutNow (n : Node) (k : Disk) (now : Nat) (peer : String) :
    ∀ o ∈ n.appendFor k now peer, ∀ t l, o.msg ≠ .timeoutNow t l := by
  unfold Node.appendFor
  intro o ho t l
  simp only at ho
  split at ho
  · split at ho <;> (rw [List.mem_singleton] at ho; subst ho; exact Message.noConfusion)
  · rw [List.mem_singleton] at ho
    subst ho
    exact Message.noConfusion

theorem broadcastAppend_noTimeoutNow (n : Node) (k : Disk) (now : Nat) :
    ∀ o ∈ n.broadcastAppend k now, ∀ t l, o.msg ≠ .timeoutNow t l := by
  intro o ho
  obtain ⟨peer, -, hp⟩ := List.mem_flatMap.1 ho
  exact appendFor_noTimeoutNow n k now peer o hp

/-- The messages tell a follower with the largest match index to stand. -/
def HandsOver (n : Node) (r : Except HaError (List Outbound)) : Prop :=
  ∃ outs, r = .ok outs ∧ ∃ o ∈ outs, (∃ t l, o.msg = .timeoutNow t l) ∧ o.dest ∈ n.cfg.others ∧
    ∀ v ∈ n.cfg.others, n.matchIndex.getD v 0 ≤ n.matchIndex.getD o.dest 0

omit [SerdeJson] in
theorem successor_spec {n : Node} {t : String} {m : Nat} (h : successor n = some (t, m)) :
    t ∈ n.cfg.others ∧ ∀ v ∈ n.cfg.others, n.matchIndex.getD v 0 ≤ n.matchIndex.getD t 0 := by
  rw [successor_eq, Option.map_eq_some_iff] at h
  obtain ⟨b, hb, he⟩ := h
  cases he
  exact ⟨List.argmax_mem hb, fun v hv => List.le_of_mem_argmax hv hb⟩

omit [SerdeJson] in
theorem successor_ne_none {n : Node} {v : String} (hv : v ∈ n.cfg.others) : successor n ≠ none := by
  rw [successor_eq]
  intro h
  rw [Option.map_eq_none_iff, List.argmax_eq_none] at h
  rw [h] at hv
  cases hv

/-- What a leader that steps down sends: the log with the empty op, and the word to the successor
when it has that op already. -/
theorem exec_stepDown {h : Host} (hrole : h.node.role = .leader) :
    let h' := (exec (appendLocal .noop) h).2
    (exec stepDown h).1 = .ok (h'.node.broadcastAppend h'.store.disk h'.now ++
      match successor h'.node with
      | some (t, _) =>
        if h'.node.log.lastIndex ≤ h'.node.matchIndex.getD t 0 then
          [⟨t, .timeoutNow h'.node.hard.currentTerm h'.node.cfg.nodeId, false⟩]
        else []
      | none => []) := by
  intro h'
  unfold stepDown
  rw [exec_get_bind, exec_ite, if_neg (by simp [hrole]), exec_ignore_bind, exec_get_bind,
    exec_bind_ok (exec_becomeFollower_stay (Nat.le_refl _)), exec_modifyNode_bind]
  exact congrArg Prod.fst (exec_pure _ _)

/-- A leader whose log takes the empty op hands over exactly if the match index of a follower lies
above its last index: one that has the leader's whole log is not told. -/
theorem stepDown_handsOver_iff {h : Host} {i : Nat} (hrole : h.node.role = .leader)
    (happend : (exec (appendLocal .noop) h).1 = .ok i) :
    HandsOver h.node (exec stepDown h).1 ↔
      ∃ v ∈ h.node.cfg.others, h.node.log.lastIndex < h.node.matchIndex.getD v 0 := by
  have happ : exec (appendLocal .noop) h = (.ok i, (exec (appendLocal .noop) h).2) :=
    Prod.ext happend rfl
  obtain ⟨l, hl, hn⟩ := exec_appendLocal_of_ok happ
  have hcfg : (exec (appendLocal .noop) h).2.node.cfg = h.node.cfg := by rw [hn]; rfl
  have hlast : (exec (appendLocal .noop) h).2.node.log.lastIndex = h.node.log.lastIndex + 1 := by
    rw [hn]
    exact hl
  have hget : ∀ v ∈ h.node.cfg.others,
      (exec (appendLocal .noop) h).2.node.matchIndex.getD v 0 = h.node.matchIndex.getD v 0 := by
    intro v hv
    have hv' : h.node.cfg.nodeId ≠ v := fun he => by simp [RaftConfig.others, he] at hv
    rw [hn, Node.matchedSelf, Std.ExtTreeMap.getD_insert]
    simp [hv']
  have hmsgs := exec_stepDown hrole
  simp only at hmsgs
  generalize (exec (appendLocal .noop) h).2 = h' at hmsgs hcfg hlast hget
  have hcast := broadcastAppend_noTimeoutNow h'.node h'.store.disk h'.now
  constructor
  · rintro ⟨outs, houts, o, ho, ⟨t, l, ht⟩, -, hmax⟩
    rw [hmsgs, Except.ok.injEq] at houts
    subst houts
    rcases List.mem_append.1 ho with ho | ho
    · exact absurd ht (hcast o ho t l)
    · cases hs : successor h'.node with
      | none => rw [hs] at ho; cases ho
      | some p =>
        obtain ⟨v, m⟩ := p
        have hmem := (successor_spec hs).1
        rw [hcfg] at hmem
        rw [hs] at ho
        simp only at ho
        split at ho
        · next hle =>
          rw [hlast, hget v hmem] at hle
          exact ⟨v, hmem, by omega⟩
        · cases ho
  · rintro ⟨v, hv, hlt⟩
    have hv' : v ∈ h'.node.cfg.others := hcfg ▸ hv
    cases hs : successor h'.node with
    | none => exact absurd hs (successor_ne_none hv')
    | some p =>
      obtain ⟨t, m⟩ := p
      obtain ⟨hmem, hmax⟩ := successor_spec hs
      rw [hcfg] at hmem hmax
      have hmax' : ∀ w ∈ h.node.cfg.others,
          h.node.matchIndex.getD w 0 ≤ h.node.matchIndex.getD t 0 := by
        intro w hw
        rw [← hget w hw, ← hget t hmem]
        exact hmax w hw
      refine ⟨_, hmsgs, ⟨t, .timeoutNow h'.node.hard.currentTerm h'.node.cfg.nodeId, false⟩, ?_,
        ⟨_, _, rfl⟩, hmem, hmax'⟩
      rw [hs]
      simp only
      rw [if_pos (by rw [hlast, hget t hmem]; exact Nat.lt_of_lt_of_le hlt (hmax' v hv))]
      exact List.mem_append_right _ (List.mem_singleton_self _)

end

section
attribute [local instance] SerdeJson.sample

open Cluster

/-- The first member leads, and the second one has its whole log. -/
def caughtUp : List Event :=
  electFirst ++ [callAt "n2" (.deliver 6), callAt "n1" (.deliver 8)]

theorem stepDown_handsOver_longer : ∃ h c, PlainRun h c ∧
    HandsOver (c.hosts "n2").node (exec stepDown (c.hosts "n2")).1 := by
  obtain ⟨h, c, hr, hc⟩ := PlainRun.of_follow (b := (Role.leader, true, true)) longerFollower
    (fun r => ((r.2.hosts "n2").node.role,
      (exec (appendLocal .noop) (r.2.hosts "n2")).1.toBool,
      (r.2.hosts "n2").node.cfg.others.any fun v =>
        decide ((r.2.hosts "n2").node.log.lastIndex < (r.2.hosts "n2").node.matchIndex.getD v 0)))
    (by decide +kernel)
  simp only [Prod.mk.injEq, List.any_eq_true, decide_eq_true_eq] at hc
  obtain ⟨hrole, happend, hlonger⟩ := hc
  obtain ⟨i, hi⟩ : ∃ i, (exec (appendLocal .noop) (c.hosts "n2")).1 = .ok i := by
    cases hx : (exec (appendLocal .noop) (c.hosts "n2")).1 with
    | error e => rw [hx] at happend; cases happend
    | ok i => exact ⟨i, rfl⟩
  exact ⟨h, c, hr, (stepDown_handsOver_iff hrole hi).2 hlonger⟩

/-- Somebody is told to stand. -/
def tellsToStand : Except HaError (List Outbound) → Bool
  | .ok outs => outs.any fun o => match o.msg with
    | .timeoutNow _ _ => true
    | _ => false
  | .error _ => false

/-- A leader with a follower that has its whole log tells nobody to stand. -/
theorem stepDown_tells_nobody : ∃ h c, PlainRun h c ∧
    (c.hosts "n1").node.role = .leader ∧
    (c.hosts "n1").node.matchIndex.getD "n2" 0 = (c.hosts "n1").node.log.lastIndex ∧
    (exec (appendLocal .noop) (c.hosts "n1")).1.toBool = true ∧
    ¬ HandsOver (c.hosts "n1").node (exec stepDown (c.hosts "n1")).1 := by
  obtain ⟨h, c, hr, hc⟩ := PlainRun.of_follow (b := (Role.leader, true, true, false)) caughtUp
    (fun r => ((r.2.hosts "n1").node.role,
      decide ((r.2.hosts "n1").node.matchIndex.getD "n2" 0 =
        (r.2.hosts "n1").node.log.lastIndex),
      (exec (appendLocal .noop) (r.2.hosts "n1")).1.toBool,
      tellsToStand (exec stepDown (r.2.hosts "n1")).1))
    (by decide +kernel)
  simp only [Prod.mk.injEq, decide_eq_true_eq] at hc
  obtain ⟨hrole, hmatch, happend, hquiet⟩ := hc
  refine ⟨h, c, hr, hrole, hmatch, happend, ?_⟩
  rintro ⟨outs, houts, o, ho, ⟨t, l, ht⟩, -⟩
  rw [houts, tellsToStand, List.any_eq_false] at hquiet
  have := hquiet o ho
  rw [ht] at this
  exact absurd rfl this

end

end Host

end Rdsctl.Ha
