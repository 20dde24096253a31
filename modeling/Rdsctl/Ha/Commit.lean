import Mathlib.Data.List.Perm.Basic
import Mathlib.Order.Bounds.Basic
import Rdsctl.Ha.Advance

/-!
# Committing by count

`advance_commit` and `apply_committed` of `src/ha/raft.rs`, on any state of a leader. The commit
index becomes the greatest index with an entry of the current term that a majority of the voters is
known to hold (`commitIndex_isGreatest`), when there is one above the old index. What is applied is
the part of the log between the applied index and the commit index (`Log.between`), unless the
entry after the applied index is compacted away: then nothing is (`applyLoop_of_gap`).
-/

namespace Rdsctl.Ha

/-! ## The last index that passes -/

/-- Going through increasing numbers and keeping each one that passes ends at the greatest. -/
theorem isGreatest_foldl {P : Nat → Prop} [DecidablePred P] {l : List Nat} {c : Nat}
    (h : (c :: l).Pairwise (· < ·)) :
    IsGreatest (insert c {i | i ∈ l ∧ P i}) (l.foldl (fun c i => if P i then i else c) c) := by
  induction l generalizing c with
  | nil => simp [IsGreatest, upperBounds]
  | cons a l ih =>
    obtain ⟨hc, hl⟩ := List.pairwise_cons.1 h
    have hca : c < a := hc a List.mem_cons_self
    rw [List.foldl_cons]
    by_cases hP : P a
    · rw [if_pos hP]
      obtain ⟨hmem, hub⟩ := ih hl
      refine ⟨?_, ?_⟩
      · rcases hmem with heq | ⟨hmem, hp⟩
        · rw [heq]
          exact .inr ⟨List.mem_cons_self, hP⟩
        · exact .inr ⟨List.mem_cons_of_mem a hmem, hp⟩
      · have ha := hub (Set.mem_insert a _)
        rintro i (rfl | ⟨hi, hp⟩)
        · omega
        · rcases List.mem_cons.1 hi with rfl | hi
          · exact ha
          · exact hub (.inr ⟨hi, hp⟩)
    · rw [if_neg hP]
      obtain ⟨hmem, hub⟩ := ih (h.sublist (List.Sublist.cons_cons c (List.sublist_cons_self a l)))
      refine ⟨?_, ?_⟩
      · rcases hmem with heq | ⟨hmem, hp⟩
        · exact .inl heq
        · exact .inr ⟨List.mem_cons_of_mem a hmem, hp⟩
      · rintro i (rfl | ⟨hi, hp⟩)
        · exact hub (Set.mem_insert i _)
        · rcases List.mem_cons.1 hi with rfl | hi
          · exact absurd hp hP
          · exact hub (.inr ⟨hi, hp⟩)

/-! ## The part of a log between two indices -/

namespace Log

variable {l : Log} {a lo hi : Nat}

/-- The records above `lo` and up to `hi`. -/
def between (l : Log) (lo hi : Nat) : List Record :=
  l.entries.filter fun r => decide (lo < r.index ∧ r.index ≤ hi)

theorem between_eq (h : Indexed a l.entries) (lo hi : Nat) :
    l.between lo hi = (l.entries.take (hi + 1 - a)).drop (lo + 1 - a) := by
  have htake : Indexed a (l.entries.take (hi + 1 - a)) := by
    intro j r hr
    rw [List.getElem?_take] at hr
    split at hr
    · exact h j r hr
    · cases hr
  have hsplit : l.between lo hi =
      (l.entries.filter fun r => decide (r.index < hi + 1)).filter fun r => decide (lo < r.index) := by
    rw [between, List.filter_filter]
    refine List.filter_congr fun r _ => ?_
    rw [Bool.decide_and]
    congr 2
    exact propext Nat.lt_succ_iff.symm
  rw [hsplit, h.filter_lt, htake.filter_gt]

theorem between_of_le (h : hi ≤ lo) : l.between lo hi = [] := by
  refine List.filter_eq_nil_iff.2 fun r _ => ?_
  simp only [decide_eq_true_eq]
  omega

/-- The first record after `lo` begins what lies between. -/
theorem between_of_get (h : Indexed a l.entries) {r : Record} (hg : l.get (lo + 1) = some r)
    (hlt : lo < hi) : l.between lo hi = r :: l.between (lo + 1) hi := by
  obtain ⟨hr, hidx⟩ := h.get_eq_some_iff.1 hg
  obtain ⟨j, hj⟩ := List.getElem?_of_mem hr
  have hja := h j r hj
  rw [between_eq h, between_eq h, show lo + 1 - a = j by omega, show lo + 1 + 1 - a = j + 1 by omega]
  have hj' : (l.entries.take (hi + 1 - a))[j]? = some r := by
    rw [List.getElem?_take, if_pos (by omega)]
    exact hj
  obtain ⟨hlen, hget⟩ := List.getElem?_eq_some_iff.1 hj'
  rw [List.drop_eq_getElem_cons hlen, hget]

/-- Nothing lies between when the log ends before. -/
theorem between_of_get_none (h : Indexed a l.entries) (hle : a ≤ lo + 1)
    (hg : l.get (lo + 1) = none) : l.between lo hi = [] := by
  refine List.filter_eq_nil_iff.2 fun r hr => ?_
  simp only [decide_eq_true_eq]
  rintro ⟨hlo, -⟩
  obtain ⟨j, hj⟩ := List.getElem?_of_mem hr
  have hja := h j r hj
  have hlen : j < l.entries.length := (List.getElem?_eq_some_iff.1 hj).1
  -- the log has a record at every index from its first to this one
  have hfirst : lo + 1 - a < l.entries.length := by omega
  have hat : l.entries[lo + 1 - a]? = some l.entries[lo + 1 - a] := List.getElem?_eq_getElem hfirst
  have := h _ _ hat
  have hsome := h.get_eq_some_iff.2 ⟨List.mem_of_getElem? hat, show _ = lo + 1 by omega⟩
  rw [hg] at hsome
  cases hsome

/-- The index before the first record: everything up to it is compacted away. -/
def compactedTo (l : Log) : Nat := l.firstIndex - 1

/-- The entry after `lo` is gone when the log is compacted beyond it. -/
theorem get_none_of_compacted (h : lo < l.compactedTo) : l.get (lo + 1) = none := by
  unfold compactedTo firstIndex at h
  unfold get
  cases hl : l.entries with
  | nil => rfl
  | cons first rest =>
    rw [hl] at h
    simp only [List.head?_cons, Option.map_some, Option.getD_some] at h ⊢
    exact if_pos (by omega)

end Log

theorem RaftConfig.nodup_of_validate {c : RaftConfig} (h : c.validate = .ok ()) :
    c.voters.Nodup := by
  by_contra hdup
  unfold validate at h
  simp only [hdup, not_false_eq_true, if_true] at h
  split at h
  · cases h
  · split at h
    · cases h
    · cases h

namespace Node

variable {n : Node}

/-! ## The commit index -/

/-- A leader: its configuration has passed the checks, its map of match indices is about voters, the
records of its log are numbered, and the log is compacted up to the commit index at most. -/
structure Leads (n : Node) : Prop where
  leader : n.role = .leader
  configured : n.cfg.validate = .ok ()
  tracked : ∀ v ∈ n.matchIndex, v ∈ n.cfg.voters
  numbered : Log.Indexed n.log.firstIndex n.log.entries
  compacted : n.log.compactedTo ≤ n.commitIndex

/-- The voters that are known to hold index `i`. -/
def holders (n : Node) (i : Nat) : List String :=
  n.cfg.voters.filter fun v => n.matchIndex[v]?.any fun m => decide (i ≤ m)

/-- What may be committed by counting: an entry of the current term that a majority holds. -/
def Committable (n : Node) (i : Nat) : Prop :=
  n.log.termAt i = some n.hard.currentTerm ∧ n.cfg.majority ≤ (n.holders i).length

/-- Counting match indices is counting voters. -/
theorem matchCount_eq (htracked : ∀ v ∈ n.matchIndex, v ∈ n.cfg.voters)
    (hdistinct : n.cfg.voters.Nodup) (i : Nat) : n.matchCount i = (n.holders i).length := by
  obtain ⟨vs, hnd, hcount, hmem⟩ := n.exists_matched i
  have hperm : vs.Perm (n.holders i) := by
    refine (List.perm_ext_iff_of_nodup hnd (hdistinct.filter _)).2 fun v => ?_
    rw [hmem, List.mem_filter, Option.any_eq_true]
    constructor
    · rintro ⟨m, hget, hle⟩
      have hv := Std.ExtTreeMap.isSome_getElem?_iff_mem.1 (Option.isSome_of_eq_some hget)
      exact ⟨htracked v hv, m, hget, decide_eq_true hle⟩
    · rintro ⟨-, m, hget, hle⟩
      exact ⟨m, hget, of_decide_eq_true hle⟩
  rw [hcount, hperm.length_eq]

section
variable [SerdeJson]

theorem commitIndex_advanceCommit (n : Node) : n.advanceCommit.commitIndex =
    (List.range' (n.commitIndex + 1) (n.log.lastIndex - n.commitIndex)).foldl n.commitAt
      n.commitIndex := by
  obtain ⟨sm, results, calls, h⟩ := applyCommitted_frame
    (n.commitTo ((List.range' (n.commitIndex + 1)
      (n.log.lastIndex - n.commitIndex)).foldl n.commitAt n.commitIndex))
  rw [advanceCommit, h]
  rfl

/-- The commit index becomes the greatest of its old value and the indices that may be committed. -/
theorem commitIndex_isGreatest (hn : n.Leads) :
    IsGreatest (insert n.commitIndex {i | i ≤ n.log.lastIndex ∧ n.Committable i})
      n.advanceCommit.commitIndex := by
  classical
  have hstep : n.commitAt = fun c i => if n.Committable i then i else c := by
    funext c i
    rw [commitAt, matchCount_eq hn.tracked (RaftConfig.nodup_of_validate hn.configured)]
    by_cases ht : n.log.termAt i = some n.hard.currentTerm
    · rw [if_neg (not_not.2 ht)]
      simp only [Committable, ht, true_and]
    · rw [if_pos ht, if_neg fun h => ht h.1]
  rw [commitIndex_advanceCommit, hstep]
  have hsorted : (n.commitIndex :: List.range' (n.commitIndex + 1)
      (n.log.lastIndex - n.commitIndex)).Pairwise (· < ·) := by
    refine List.pairwise_cons.2 ⟨fun i hi => ?_, List.pairwise_lt_range'⟩
    have := (List.mem_range'_1.1 hi).1
    omega
  obtain ⟨hmem, hub⟩ := isGreatest_foldl (P := n.Committable) hsorted
  refine ⟨?_, ?_⟩
  · rcases hmem with heq | ⟨hi, hp⟩
    · exact .inl heq
    · have := List.mem_range'_1.1 hi
      exact .inr ⟨by omega, hp⟩
  · rintro i (rfl | ⟨hle, hp⟩)
    · exact hub (Set.mem_insert _ _)
    · -- what lies below the old index is no greater than it
      rcases Nat.lt_or_ge n.commitIndex i with hlt | hge
      · exact hub (.inr ⟨List.mem_range'_1.2 (by omega), hp⟩)
      · exact hge.trans (hub (Set.mem_insert _ _))

/-! ## What is applied -/

/-- The call that hands over a record. -/
def callOf (r : Record) : ApplyCall := ⟨r.index, r.term, opOfPayload r.payload⟩

/-- From `n` to `n'` the records `rs` have been applied, each once, in this order. -/
structure Applies (n n' : Node) (rs : List Record) : Prop where
  calls : n'.calls = (rs.map callOf).reverse ++ n.calls
  sm : n'.sm = n.sm.afterAll (rs.map callOf)

theorem Applies.refl (n : Node) : n.Applies n [] := ⟨rfl, rfl⟩

theorem applyRecord_applies {r : Record} : n.Applies (n.applyRecord r.index r) [r] := by
  unfold applyRecord
  split
  · next op h =>
    have hcall : callOf r = ⟨r.index, r.term, op⟩ := by simp only [callOf, opOfPayload, h]
    constructor
    · simp [hcall]
    · simp [hcall, StateMachine.afterAll, StateMachine.after]
  · next msg h =>
    have hcall : callOf r = ⟨r.index, r.term, .noop⟩ := by simp only [callOf, opOfPayload, h]
    constructor
    · simp [hcall]
    · simp [hcall, StateMachine.afterAll, StateMachine.after]

theorem Applies.cons {n' n'' : Node} {r : Record} {rs : List Record} (h : n.Applies n' [r])
    (h' : n'.Applies n'' rs) : n.Applies n'' (r :: rs) where
  calls := by simp [h'.calls, h.calls]
  sm := by simp [h'.sm, h.sm, StateMachine.afterAll]

/-- The loop applies what the log has between the applied index and `fuel` above it. -/
theorem applyLoop_applies {a : Nat} (fuel : Nat) (n : Node) (h : Log.Indexed a n.log.entries)
    (hle : a ≤ n.sm.appliedIndex + 1) : n.Applies (applyLoop fuel n)
      (n.log.between n.sm.appliedIndex (n.sm.appliedIndex + fuel)) := by
  induction fuel generalizing n with
  | zero =>
    rw [Log.between_of_le (show n.sm.appliedIndex + 0 ≤ n.sm.appliedIndex from Nat.le_refl _)]
    exact .refl n
  | succ fuel ih =>
    rw [applyLoop]
    split
    · next hg =>
      rw [Log.between_of_get_none h hle hg]
      exact .refl n
    · next r hg =>
      have hidx : r.index = n.sm.appliedIndex + 1 := (h.get_eq_some_iff.1 hg).2
      obtain ⟨sm, results, hn, hsm⟩ := n.applyRecord_eq (n.sm.appliedIndex + 1) r
      have hone := applyRecord_applies (n := n) (r := r)
      rw [hidx, hn] at hone
      rw [Log.between_of_get h hg (by omega), hn]
      have hrest := ih { n with
        sm, results, calls := ⟨n.sm.appliedIndex + 1, r.term, opOfPayload r.payload⟩ :: n.calls } h
        (by dsimp only; omega)
      dsimp only at hrest
      rw [hsm, show n.sm.appliedIndex + 1 + fuel = n.sm.appliedIndex + (fuel + 1) by omega] at hrest
      exact hone.cons hrest

/-- Nothing is applied when the next entry is compacted away. -/
theorem applyLoop_of_gap {n : Node} (fuel : Nat) (h : n.sm.appliedIndex < n.log.compactedTo) :
    applyLoop fuel n = n := by
  cases fuel with
  | zero => rfl
  | succ fuel => rw [applyLoop, Log.get_none_of_compacted h]

/-- What the loop of `apply_committed` does up to the commit index, a gap apart. -/
theorem applyCommitted_between {a : Nat} (n : Node) (h : Log.Indexed a n.log.entries)
    (hle : a ≤ n.sm.appliedIndex + 1) :
    n.Applies n.applyCommitted (n.log.between n.sm.appliedIndex n.commitIndex) := by
  have hloop := applyLoop_applies (n.commitIndex - n.sm.appliedIndex) n h hle
  have hend : n.log.between n.sm.appliedIndex
      (n.sm.appliedIndex + (n.commitIndex - n.sm.appliedIndex)) =
        n.log.between n.sm.appliedIndex n.commitIndex := by
    rcases Nat.le_total n.sm.appliedIndex n.commitIndex with hc | hc
    · rw [Nat.add_sub_cancel' hc]
    · rw [Log.between_of_le hc, Log.between_of_le (by omega)]
  rw [hend] at hloop
  exact ⟨hloop.calls, hloop.sm⟩

theorem advanceCommit_eq (n : Node) :
    n.advanceCommit = (n.commitTo n.advanceCommit.commitIndex).applyCommitted := by
  rw [commitIndex_advanceCommit]
  rfl

theorem advanceCommit_applies (h : Log.Indexed n.log.firstIndex n.log.entries)
    (hc : n.log.compactedTo ≤ n.sm.appliedIndex) : n.Applies n.advanceCommit
      (n.log.between n.sm.appliedIndex n.advanceCommit.commitIndex) := by
  have hle : n.log.firstIndex ≤ n.sm.appliedIndex + 1 := by
    unfold Log.compactedTo at hc
    omega
  have happ := applyCommitted_between (n.commitTo n.advanceCommit.commitIndex) h hle
  rw [← advanceCommit_eq] at happ
  exact ⟨happ.calls, happ.sm⟩

theorem advanceCommit_of_gap (hgap : n.sm.appliedIndex < n.log.compactedTo) :
    n.Applies n.advanceCommit [] := by
  have hnone := applyLoop_of_gap (n := n.commitTo n.advanceCommit.commitIndex)
    (n.advanceCommit.commitIndex - n.sm.appliedIndex) hgap
  have hcalls := congrArg Node.calls hnone
  have hsm := congrArg Node.sm hnone
  rw [advanceCommit_eq]
  exact ⟨hcalls, hsm⟩

/-- `advance_commit` on a leader. The commit index becomes the greatest of its old value and the
indices of the log with an entry of the current term that a majority of the voters holds. The log's
entries above the applied index and up to the new commit index are applied, each once and in order,
when the log is not compacted beyond the applied index; when it is, none is. -/
theorem advanceCommit_exact (hn : n.Leads) :
    IsGreatest (insert n.commitIndex {i | i ≤ n.log.lastIndex ∧ n.Committable i})
      n.advanceCommit.commitIndex ∧
    (n.log.compactedTo ≤ n.sm.appliedIndex → n.Applies n.advanceCommit
      (n.log.between n.sm.appliedIndex n.advanceCommit.commitIndex)) ∧
    (n.sm.appliedIndex < n.log.compactedTo → n.Applies n.advanceCommit []) :=
  ⟨commitIndex_isGreatest hn, advanceCommit_applies hn.numbered, advanceCommit_of_gap⟩

end

/-! ## Behind the compaction -/

/-- A log that is compacted up to index 2 and holds one more entry. -/
def thirdEntry : Log :=
  ⟨0, [⟨LOG_VER, KIND_ENTRY, 0, 0, 1, 3, zeroHash, [], zeroHash⟩], zeroHash, 0⟩

/-- A leader with this log, which has committed up to index 2. One other voter has the entry. -/
def leaderOfThree (applied : Nat) : Node :=
  { Host.opened (RaftConfig.new "n1" 0 ["n1", "n2", "n3"]) thirdEntry
      { StateMachine.new 0 1000 with appliedIndex := applied } ⟨1, some "n1"⟩ none with
    role := .leader
    commitIndex := 2
    snapshotIndex := 2
    matchIndex := ((∅ : BTreeMap String Nat).insert "n1" 3).insert "n2" 3 }

theorem leaderOfThree_leads (applied : Nat) : (leaderOfThree applied).Leads where
  leader := rfl
  configured := by
    show (RaftConfig.new "n1" 0 ["n1", "n2", "n3"]).validate = .ok ()
    decide +kernel
  tracked := by
    intro v hv
    show v ∈ ["n1", "n2", "n3"]
    simp only [leaderOfThree, Std.ExtTreeMap.mem_insert, Std.LawfulEqOrd.compare_eq_iff_eq] at hv
    rcases hv with rfl | rfl | hv
    · simp
    · simp
    · cases hv
  numbered := by
    intro j r hr
    cases j with
    | zero =>
      obtain rfl := Option.some.inj hr
      rfl
    | succ j => cases hr
  compacted := Nat.le_refl 2

theorem committable_three : (leaderOfThree 0).Committable 3 :=
  ⟨rfl, show (leaderOfThree 0).cfg.majority ≤ _ by decide +kernel⟩

section
attribute [local instance] SerdeJson.sample

/-- When it has applied what is compacted away, it applies the entry. -/
theorem advanceCommit_exact_applied : ∃ n : Node, n.Leads ∧ n.log.compactedTo ≤ n.sm.appliedIndex ∧
    n.Applies n.advanceCommit (n.log.between n.sm.appliedIndex n.advanceCommit.commitIndex) :=
  ⟨leaderOfThree 2, leaderOfThree_leads 2, Nat.le_refl 2,
    (advanceCommit_exact (leaderOfThree_leads 2)).2.1 (Nat.le_refl 2)⟩

/-- When it has applied nothing, it commits the entry and does not apply it. -/
theorem commits_unapplied : ¬ ∀ n : Node, n.Leads → n.Applies n.advanceCommit
    (n.log.between n.sm.appliedIndex n.advanceCommit.commitIndex) := by
  intro hall
  have hcommit : 3 ≤ (leaderOfThree 0).advanceCommit.commitIndex :=
    (commitIndex_isGreatest (leaderOfThree_leads 0)).2
      (.inr ⟨Nat.le_refl 3, committable_three⟩)
  have hnone := advanceCommit_of_gap (n := leaderOfThree 0) (show 0 < 2 by decide)
  have hcalls := (hall _ (leaderOfThree_leads 0)).calls
  rw [hnone.calls, List.map_nil, List.reverse_nil, List.nil_append] at hcalls
  have hin : thirdEntry.entries.head (by decide) ∈
      (leaderOfThree 0).log.between 0 (leaderOfThree 0).advanceCommit.commitIndex :=
    List.mem_filter.2 ⟨List.mem_cons_self, decide_eq_true ⟨show 0 < 3 by decide, hcommit⟩⟩
  have hlen := congrArg List.length hcalls
  rw [List.length_append, List.length_reverse, List.length_map] at hlen
  have hpos := List.length_pos_of_mem hin
  have hzero : (leaderOfThree 0).sm.appliedIndex = 0 := rfl
  rw [hzero] at hlen
  omega

end

end Node

end Rdsctl.Ha
