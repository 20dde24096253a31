import Rdsctl.Lib.Newest
import Rdsctl.Ha.Cluster

/-!
# Waiting for an applied index

`src/ha/runtime.rs`: `wait_applied_async` and its callers. The wait ends when the applied index has
reached the index, and then reads the result kept of it. A process keeps results only of what it
has applied itself since it started, from payloads that spell an op, and only the newest ones;
`results_eq` says which, for every run.
-/

namespace Rdsctl.Ha

open Fallible

/-! ## The wait and its callers -/

/-- `wait_applied_async`: the node as it is at each poll before the deadline. -/
def waitApplied (index : Nat) : List Node → Option Applied
  | [] => none
  | n :: polls => if index ≤ n.sm.appliedIndex then n.resultOf index else waitApplied index polls

/-- `AuthError::Lagged`. -/
structure Lagged where
  applied : Nat
  commit : Nat
deriving DecidableEq, Repr

/-- `await_local`; `after` is the node when the error is made. -/
def awaitLocal (index : Nat) (polls : List Node) (after : Node) : Except Lagged Unit :=
  match waitApplied index polls with
  | some _ => .ok ()
  | none => .error ⟨after.sm.appliedIndex, after.commitIndex⟩

/-- `read_index`, once the leader's commit index is known. -/
def readIndex (target : Nat) (polls : List Node) (after : Node) : Except Lagged Nat :=
  match waitApplied target polls with
  | some _ => .ok target
  | none => .error ⟨after.sm.appliedIndex, after.commitIndex⟩

/-- `await_local_lease_apply`: the lease read after the wait, or nothing, which the callers report
as a replica that lags. -/
def awaitLocalLeaseApply {α : Type} (lease : Node → Option α) (index : Nat) (polls : List Node)
    (after : Node) : Option α :=
  (waitApplied index polls).bind fun _ => lease after

/-- A replica that has applied the index is not taken for one that lags, at whatever time the first
poll finds it so. -/
def SeenApplied (index : Nat) (n : Node) : Prop :=
  ∀ (early polls : List Node) (after : Node),
    (∀ m ∈ early, m.sm.appliedIndex < index) →
      (waitApplied index (early ++ n :: polls)).isSome ∧
      awaitLocal index (early ++ n :: polls) after = .ok () ∧
      readIndex index (early ++ n :: polls) after = .ok index ∧
      ∀ {α : Type} (lease : Node → Option α),
        awaitLocalLeaseApply lease index (early ++ n :: polls) after = lease after

theorem waitApplied_append {index : Nat} {n : Node} {early polls : List Node}
    (he : ∀ m ∈ early, m.sm.appliedIndex < index) (hn : index ≤ n.sm.appliedIndex) :
    waitApplied index (early ++ n :: polls) = n.resultOf index := by
  induction early with
  | nil => rw [List.nil_append, waitApplied, if_pos hn]
  | cons m ms ih =>
    have hm := he m List.mem_cons_self
    rw [List.cons_append, waitApplied, if_neg (by omega),
      ih fun k hk => he k (List.mem_cons_of_mem m hk)]

/-- That is so exactly if the result of the index is kept. -/
theorem seenApplied_iff {index : Nat} {n : Node} (hn : index ≤ n.sm.appliedIndex) :
    SeenApplied index n ↔ index ∈ n.results := by
  constructor
  · intro h
    have hs := (h [] [] n (by simp)).1
    rw [waitApplied_append (by simp) hn] at hs
    exact Std.ExtTreeMap.mem_iff_isSome_getElem?.2 hs
  · intro h early polls after he
    have hs := Std.ExtTreeMap.mem_iff_isSome_getElem?.1 h
    obtain ⟨a, ha⟩ := Option.isSome_iff_exists.1 hs
    have hw : waitApplied index (early ++ n :: polls) = some a :=
      (waitApplied_append he hn).trans ha
    unfold awaitLocal readIndex awaitLocalLeaseApply
    rw [hw]
    exact ⟨rfl, rfl, rfl, fun _ => rfl⟩

/-! ## The indices with a result -/

/-- The keys of a map of results. -/
def keysOf (m : BTreeMap Nat Applied) : Finset Nat := m.keys.toFinset

theorem mem_keysOf {m : BTreeMap Nat Applied} {i : Nat} : i ∈ keysOf m ↔ i ∈ m := by
  rw [keysOf, List.mem_toFinset, Std.ExtTreeMap.mem_keys]

@[simp] theorem keysOf_empty : keysOf ∅ = ∅ := by
  ext i
  simp [mem_keysOf]

theorem card_keysOf (m : BTreeMap Nat Applied) : (keysOf m).card = m.size := by
  rw [keysOf, List.toFinset_card_of_nodup Std.ExtTreeMap.nodup_keys, Std.ExtTreeMap.length_keys]

theorem keysOf_insert (m : BTreeMap Nat Applied) (i : Nat) (a : Applied) :
    keysOf (m.insert i a) = insert i (keysOf m) := by
  ext j
  rw [mem_keysOf, Std.ExtTreeMap.mem_insert, Std.compare_eq_iff_eq, Finset.mem_insert, mem_keysOf,
    eq_comm]

theorem keysOf_erase (m : BTreeMap Nat Applied) (i : Nat) :
    keysOf (m.erase i) = (keysOf m).erase i := by
  ext j
  rw [mem_keysOf, Std.ExtTreeMap.mem_erase, Ne, Std.compare_eq_iff_eq, Finset.mem_erase, mem_keysOf,
    eq_comm]

/-- Trimming keeps the newest 4096. -/
theorem keysOf_trimResults (fuel : Nat) (m : BTreeMap Nat Applied) (hf : m.size ≤ fuel) :
    keysOf (Node.trimResults fuel m) = newest 4096 (keysOf m) := by
  induction fuel generalizing m with
  | zero =>
    rw [Node.trimResults, newest_of_card_le (by rw [card_keysOf]; omega)]
  | succ fuel ih =>
    rw [Node.trimResults]
    split
    · next hbig =>
      cases hk : m.minKey? with
      | none =>
        rw [Std.ExtTreeMap.minKey?_eq_none_iff.1 hk] at hbig
        exact absurd hbig (by simp)
      | some k =>
        obtain ⟨hmem, hmin⟩ := Std.ExtTreeMap.minKey?_eq_some_iff_mem_and_forall.1 hk
        have habove := le_card_above_min (K := 4096) (mem_keysOf.2 hmem) (fun j hj => by
          simpa [Nat.isLE_compare] using hmin j (mem_keysOf.1 hj)) (by rw [card_keysOf]; omega)
        have hsize : (m.erase k).size ≤ fuel := by
          rw [Std.ExtTreeMap.size_erase, if_pos (Std.ExtTreeMap.contains_iff_mem.2 hmem)]
          omega
        rw [ih _ hsize, keysOf_erase, newest_erase habove]
    · rw [newest_of_card_le (by rw [card_keysOf]; omega)]

section
variable [SerdeJson]

/-- The log holds, at index `i`, a record whose payload spells an op. -/
def Log.spellsAt (l : Log) (i : Nat) : Bool :=
  (l.get i).any fun r => (SerdeJson.opFromSlice r.payload).toBool

/-- The indices of some calls of the state machine at which the log's payload spells an op. -/
def Log.answered (l : Log) (calls : List ApplyCall) : Finset Nat :=
  ((calls.map (·.index)).filter l.spellsAt).toFinset

@[simp] theorem Log.answered_nil (l : Log) : l.answered [] = ∅ := rfl

theorem Log.answered_append (l : Log) (cs ds : List ApplyCall) :
    l.answered (cs ++ ds) = l.answered cs ∪ l.answered ds := by
  simp [Log.answered, List.toFinset_append]

/-- A node that has applied the records of `cs` on top of the results `keys`. -/
def Node.AppliedOver (keys : Finset Nat) (calls cs : List ApplyCall) (n : Node) : Prop :=
  n.calls = cs ++ calls ∧ keysOf n.results = keys ∪ n.log.answered cs

theorem Node.applyRecord_appliedOver {n : Node} {idx : Nat} {r : Record}
    (hr : n.log.get idx = some r) : ∃ c,
      Node.AppliedOver (keysOf n.results) n.calls [c] (n.applyRecord idx r) := by
  unfold Node.applyRecord
  cases hp : SerdeJson.opFromSlice r.payload with
  | ok op =>
    refine ⟨⟨idx, r.term, op⟩, rfl, ?_⟩
    have hs : n.log.spellsAt idx = true := by simp [Log.spellsAt, hr, hp, Except.toBool]
    rw [keysOf_insert, Finset.insert_eq, Finset.union_comm]
    simp [Log.answered, hs]
  | error e =>
    refine ⟨⟨idx, r.term, .noop⟩, rfl, ?_⟩
    have hs : n.log.spellsAt idx = false := by simp [Log.spellsAt, hr, hp, Except.toBool]
    simp [Log.answered, hs]

theorem Node.applyLoop_appliedOver (fuel : Nat) (n : Node) : ∃ cs,
    Node.AppliedOver (keysOf n.results) n.calls cs (Node.applyLoop fuel n) ∧
      (Node.applyLoop fuel n).log = n.log := by
  induction fuel generalizing n with
  | zero => exact ⟨[], ⟨rfl, by simp [Node.applyLoop]⟩, rfl⟩
  | succ fuel ih =>
    rw [Node.applyLoop]
    split
    · exact ⟨[], ⟨rfl, by simp⟩, rfl⟩
    · next r hr =>
      obtain ⟨c, hcalls, hkeys⟩ := Node.applyRecord_appliedOver hr
      obtain ⟨sm, results, calls, hframe⟩ := n.applyRecord_frame (n.sm.appliedIndex + 1) r
      have hlog : (n.applyRecord (n.sm.appliedIndex + 1) r).log = n.log := by rw [hframe]
      obtain ⟨cs, ⟨hcalls', hkeys'⟩, hlog'⟩ := ih (n.applyRecord (n.sm.appliedIndex + 1) r)
      refine ⟨cs ++ [c], ⟨?_, ?_⟩, hlog'.trans hlog⟩
      · rw [hcalls', hcalls, List.append_assoc]
      · rw [hkeys', hkeys, hlog', hlog, Log.answered_append, Finset.union_assoc,
          Finset.union_comm (n.log.answered [c])]

/-- What applying leaves: the newest results of the old ones and those of the records applied. -/
theorem Node.applyCommitted_applies (n : Node) : ∃ cs,
    n.applyCommitted.calls = cs ++ n.calls ∧ n.applyCommitted.log = n.log ∧
      keysOf n.applyCommitted.results = newest 4096 (keysOf n.results ∪ n.log.answered cs) := by
  obtain ⟨cs, ⟨hcalls, hkeys⟩, hlog⟩ :=
    Node.applyLoop_appliedOver (n.commitIndex - n.sm.appliedIndex) n
  refine ⟨cs, hcalls, hlog, ?_⟩
  rw [hlog] at hkeys
  rw [← hkeys]
  exact keysOf_trimResults _ _ le_rfl

end

/-! ## What a call does to the results -/

/-- The results and the history of calls stay. -/
def SameResults (h h' : Host) : Prop :=
  h'.node.results = h.node.results ∧ h'.node.calls = h.node.calls

instance : Std.Refl SameResults := ⟨fun _ => ⟨rfl, rfl⟩⟩

instance : IsTrans Host SameResults :=
  ⟨fun _ _ _ hab hbc => ⟨hbc.1.trans hab.1, hbc.2.trans hab.2⟩⟩

section
variable [SerdeJson]

/-- The results stay, or records of the log that is left have been applied on top of them. -/
def Applies (h h' : Host) : Prop :=
  SameResults h h' ∨ ∃ cs, h'.node.calls = cs ++ h.node.calls ∧
    keysOf h'.node.results = newest 4096 (keysOf h.node.results ∪ h'.node.log.answered cs)

theorem SameResults.applies {h h₁ h' : Host} (hs : SameResults h h₁) (ha : Applies h₁ h') :
    Applies h h' := by
  rcases ha with ha | ⟨cs, hcalls, hkeys⟩
  · exact .inl (IsTrans.trans _ _ _ hs ha)
  · exact .inr ⟨cs, by rw [hcalls, hs.2], by rw [hkeys, hs.1]⟩

end

namespace Host

theorem modifyNode_results {f : Node → Node} (hr : ∀ n, (f n).results = n.results)
    (hc : ∀ n, (f n).calls = n.calls) : Respects SameResults (modifyNode f) :=
  fun h => ⟨hr h.node, hc h.node⟩

theorem onStore_results {α : Type} (m : StoreM α) : Respects SameResults (onStore m) :=
  fun _ => ⟨rfl, rfl⟩

theorem onLog_results (f : Log → StoreM Log) : Respects SameResults (onLog f) :=
  .bind .get fun _ => .bind (onStore_results _) fun _ =>
    modifyNode_results (fun _ => rfl) fun _ => rfl

theorem persist_results : Respects SameResults persistHardState :=
  .bind .get fun _ => onStore_results _

theorem appendBatch_results (batch : List PendingEntry) :
    Respects SameResults (appendBatch batch) :=
  .onError (onLog_results _) fun _ => ⟨rfl, rfl⟩

theorem becomeFollower_results (term : Nat) (leader : Option String) :
    Respects SameResults (becomeFollower term leader) := by
  have hterm : Respects SameResults (modifyNode fun n => n.inTerm term) := fun _ => ⟨rfl, rfl⟩
  have hretire : Respects SameResults (modifyNode fun n => n.retire leader) := fun _ => ⟨rfl, rfl⟩
  refine .bind .get fun h => ?_
  split
  · exact .bind hterm fun _ => .bind persist_results fun _ => hretire
  · exact hretire

theorem reset_results (f : Node → Node) (now : Nat) (hr : ∀ n, (f n).results = n.results)
    (hc : ∀ n, (f n).calls = n.calls) :
    Respects SameResults (modifyNode fun n => (f n).resetElectionDeadline now) := by
  intro h
  obtain ⟨_, _, hn⟩ := (f h.node).resetElectionDeadline_frame now
  rw [exec_modifyNode, hn]
  exact ⟨hr h.node, hc h.node⟩

theorem observedRtt_results (peer : String) (senderMs now echoMs : Nat) : Respects SameResults
    (modifyNode fun n => (n.acked peer now).observeClockRtt peer senderMs now echoMs) := by
  intro h
  obtain ⟨_, hn⟩ := (h.node.acked peer now).observeClockRtt_frame peer senderMs now echoMs
  rw [exec_modifyNode, hn]
  exact ⟨rfl, rfl⟩

theorem observed_results (peer : String) (senderMs now : Nat) : Respects SameResults
    (modifyNode fun n => (n.acked peer now).observeClock peer senderMs now) := by
  intro h
  obtain ⟨_, hn⟩ := (h.node.acked peer now).observeClock_frame peer senderMs now
  rw [exec_modifyNode, hn]
  exact ⟨rfl, rfl⟩

theorem observedLeader_results (leader : String) (senderMs peerSkewMs now : Nat) :
    Respects SameResults (modifyNode fun n => n.observeLeader leader senderMs peerSkewMs now) := by
  intro h
  rw [exec_modifyNode]
  unfold Node.observeLeader
  split
  · exact ⟨rfl, rfl⟩
  · obtain ⟨_, hn⟩ := (h.node.acked leader now).observeClock_frame leader senderMs now
    rw [hn]
    exact ⟨rfl, rfl⟩

theorem startPreVote_results (now : Nat) :
    Respects SameResults (modifyNode fun n => n.startPreVote now) := by
  intro h
  obtain ⟨_, _, hn⟩ := h.node.resetElectionDeadline_frame now
  rw [exec_modifyNode]
  simp only [Node.startPreVote, hn]
  split <;> exact ⟨rfl, rfl⟩

theorem startElection_results : Respects SameResults startElection := by
  have hnext : Respects SameResults (modifyNode Node.nextTerm) := fun _ => ⟨rfl, rfl⟩
  have hstand : Respects SameResults (modifyNode Node.stand) := fun _ => ⟨rfl, rfl⟩
  refine .bind hnext fun _ => .bind persist_results fun _ => .bind hstand fun _ => ?_
  refine .bind .get fun h => .bind ?_ fun _ => .bind .get fun _ => .pure _
  exact reset_results id h.now (fun _ => rfl) fun _ => rfl

theorem cutConflict_results (entries : List EntryMeta) :
    Respects SameResults (cutConflict entries) := by
  unfold cutConflict
  split
  · exact .pure _
  · refine .bind .get fun h => ?_
    split
    · exact .ite (onLog_results _) (.pure _)
    · exact .pure _

theorem appendMissing_results (entries : List EntryMeta) :
    Respects SameResults (appendMissing entries) :=
  .bind .get fun _ => .ite (.pure _) (appendBatch_results _)

section
variable [SerdeJson]

/-- What leaves the results alone may come before what applies. -/
theorem applies_bind {α β : Type} {m : HostM α} {f : α → HostM β} (hm : Respects SameResults m)
    (hf : ∀ a, Respects Applies (f a)) : Respects Applies (m >>= f) := by
  intro h
  have h1 := hm h
  rw [exec_bind]
  rcases hx : exec m h with ⟨e | a, h'⟩
  · rw [hx] at h1
    exact .inl h1
  · rw [hx] at h1
    exact h1.applies (hf a h')

theorem applies_of_same {α : Type} {m : HostM α} (hm : Respects SameResults m) :
    Respects Applies m := fun h => .inl (hm h)

/-- A call whose last change is one that applies. -/
theorem applies_modifyNode {β : Type} {f : Node → Node} {g : Unit → HostM β}
    (hf : ∀ n : Node, (f n).calls = n.calls ∧ (f n).results = n.results ∨ ∃ cs,
      (f n).calls = cs ++ n.calls ∧
        keysOf (f n).results = newest 4096 (keysOf n.results ∪ (f n).log.answered cs))
    (hg : ∀ h, (exec (g ()) h).2 = h) : Respects Applies (modifyNode f >>= g) := by
  intro h
  rw [exec_modifyNode_bind, hg]
  rcases hf h.node with ⟨hc, hr⟩ | ha
  · exact .inl ⟨hr, hc⟩
  · exact .inr ha

theorem tick_results : Respects SameResults tick := by
  have hheard : ∀ now, Respects SameResults (modifyNode fun n => n.heard now) :=
    fun _ _ => ⟨rfl, rfl⟩
  refine .bind .get fun h => .ite (.ite ?_ (.pure _)) (.ite ?_ (.pure _))
  · exact .bind (hheard h.now) fun _ => .pure _
  · exact .bind (startPreVote_results h.now) fun _ => .bind .get fun _ => .ite (.pure _) (.pure _)

theorem appendLocal_results (op : Op) : Respects SameResults (appendLocal op) := by
  have hmatched : ∀ index, Respects SameResults (modifyNode fun n => n.matchedSelf index) :=
    fun _ _ => ⟨rfl, rfl⟩
  refine .bind .get fun _ => .ite (.throw _) (.bind (appendBatch_results _) fun _ => ?_)
  exact .bind (hmatched _) fun _ => .pure _

theorem flush_results : Respects SameResults flush := by
  have hheard : ∀ now, Respects SameResults (modifyNode fun n => n.heard now) :=
    fun _ _ => ⟨rfl, rfl⟩
  exact .bind .get fun h => .ite (.bind (hheard h.now) fun _ => .pure _) (.pure _)

theorem becomeLeader_results : Respects SameResults becomeLeader := by
  have hlead : ∀ now, Respects SameResults (modifyNode fun n => n.takeLead now) :=
    fun _ _ => ⟨rfl, rfl⟩
  refine .bind .get fun h => .bind (hlead h.now) fun _ => .bind (appendLocal_results _) fun _ => ?_
  exact .bind .get fun _ => .pure _

theorem stepDown_results : Respects SameResults stepDown := by
  have hgrace : ∀ now, Respects SameResults (modifyNode fun n =>
      { n.resetElectionDeadline now with
        electionDeadlineMs := now + satMul n.cfg.electionTimeoutMs.2 2 }) := by
    intro now h
    obtain ⟨_, _, hn⟩ := h.node.resetElectionDeadline_frame now
    rw [exec_modifyNode, hn]
    exact ⟨rfl, rfl⟩
  refine .bind .get fun _ => .ite (.pure _) (.bind (.ignore (appendLocal_results _)) fun _ => ?_)
  refine .bind .get fun h => .bind (becomeFollower_results _ _) fun _ => ?_
  exact .bind (hgrace h.now) fun _ => .pure _

theorem maybeSnapshot_results : Respects SameResults maybeSnapshot := by
  have hat : ∀ index term, Respects SameResults (modifyNode fun n => n.snapshotAt index term) :=
    fun _ _ _ => ⟨rfl, rfl⟩
  refine .bind .get fun h => .ite (.pure _) (.ite (.pure _) ?_)
  refine .bind (onStore_results _) fun _ => .bind (onStore_results _) fun _ => ?_
  exact .bind (onLog_results _) fun _ => .bind (hat _ _) fun _ => .pure _

omit [SerdeJson] in
theorem handleRequestVote_results (sender : String) (term : Nat) (candidate : String)
    (lastLogIndex lastLogTerm : Nat) (preVote : Bool) (senderMs : Nat) : Respects SameResults
      (handleRequestVote sender term candidate lastLogIndex lastLogTerm preVote senderMs) := by
  have hvote : Respects SameResults (modifyNode fun n => n.voteFor candidate) :=
    fun _ => ⟨rfl, rfl⟩
  refine .bind .get fun h => .bind (observed_results sender senderMs h.now) fun _ => ?_
  refine .bind .get fun h => .ite (.pure _) (.ite (.pure _) (.ite ?_ (.pure _)))
  refine .bind hvote fun _ => .bind persist_results fun _ => .bind ?_ fun _ => ?_
  · exact reset_results id h.now (fun _ => rfl) fun _ => rfl
  · exact .bind .get fun _ => .pure _

theorem handleRequestVoteResp_results (term : Nat) (voter : String) (granted : Bool)
    (senderMs echoMs : Nat) :
    Respects SameResults (handleRequestVoteResp term voter granted senderMs echoMs) := by
  have hpre : Respects SameResults (modifyNode fun n => n.countPreVote voter) :=
    fun _ => ⟨rfl, rfl⟩
  have hvote : Respects SameResults (modifyNode fun n => n.countVote voter) := fun _ => ⟨rfl, rfl⟩
  refine .bind .get fun h => .bind (observedRtt_results voter senderMs h.now echoMs) fun _ => ?_
  refine .bind .get fun _ => .ite (.pure _) (.ite (.pure _) ?_)
  split
  · exact .bind hpre fun _ => .bind .get fun _ => .ite startElection_results (.pure _)
  · exact .bind hvote fun _ => .bind .get fun _ => .ite becomeLeader_results (.pure _)
  · exact .pure _

theorem followCommit_applies (leaderCommit : Nat) (n : Node) :
    (followCommit leaderCommit n).calls = n.calls ∧
        (followCommit leaderCommit n).results = n.results ∨
      ∃ cs, (followCommit leaderCommit n).calls = cs ++ n.calls ∧
        keysOf (followCommit leaderCommit n).results =
          newest 4096 (keysOf n.results ∪ (followCommit leaderCommit n).log.answered cs) := by
  unfold followCommit
  simp only
  split
  · obtain ⟨cs, hcalls, hlog, hkeys⟩ :=
      (n.commitTo (min leaderCommit n.log.lastIndex)).applyCommitted_applies
    refine .inr ⟨cs, hcalls, ?_⟩
    rw [hkeys, hlog]
    rfl
  · exact .inl ⟨rfl, rfl⟩

theorem handleAppendEntries_applies (term : Nat) (leader : String)
    (prevLogIndex prevLogTerm : Nat) (entries : List EntryMeta)
    (leaderCommit senderMs peerSkewMs : Nat) : Respects Applies
      (handleAppendEntries term leader prevLogIndex prevLogTerm entries leaderCommit senderMs
        peerSkewMs) := by
  have hpure : ∀ outs : List Outbound, Respects Applies (pure outs : HostM _) :=
    fun outs => applies_of_same (.pure outs)
  refine applies_bind .get fun h => applies_bind
    (observedLeader_results leader senderMs peerSkewMs h.now) fun _ => applies_bind .get fun h => ?_
  split
  · exact hpure _
  · refine applies_bind (becomeFollower_results _ _) fun _ => ?_
    refine applies_bind (reset_results (fun n => n.heard h.now) h.now (fun _ => rfl) fun _ => rfl)
      fun _ => applies_bind .get fun _ => ?_
    split
    · exact hpure _
    · refine applies_bind (cutConflict_results _) fun _ => ?_
      exact applies_bind (appendMissing_results _) fun _ =>
        applies_modifyNode (followCommit_applies leaderCommit) fun _ => rfl

theorem handleAppendEntriesResp_applies (term : Nat) (follower : String) (success : Bool)
    (matchIndex : Nat) (conflictIndex : Option Nat) (senderMs echoMs : Nat) : Respects Applies
      (handleAppendEntriesResp term follower success matchIndex conflictIndex senderMs
        echoMs) := by
  have hnext : ∀ next, Respects SameResults
      (modifyNode fun n => { n with nextIndex := n.nextIndex.insert follower next }) :=
    fun _ _ => ⟨rfl, rfl⟩
  refine applies_bind .get fun h => applies_bind
    (observedRtt_results follower senderMs h.now echoMs) fun _ => applies_bind .get fun h => ?_
  split
  · exact applies_of_same (.bind (becomeFollower_results _ _) fun _ => .pure _)
  · split
    · exact applies_of_same (.pure _)
    · split
      · refine applies_modifyNode (fun n => .inr ?_) fun _ => rfl
        obtain ⟨cs, hcalls, hlog, hkeys⟩ :=
          ((n.matched follower matchIndex).commitTo _).applyCommitted_applies
        exact ⟨cs, hcalls, hlog ▸ hkeys⟩
      · exact applies_of_same (.bind (hnext _) fun _ => .bind .get fun _ => .pure _)

theorem handleInstallSnapshot_results (term : Nat) (leader : String)
    (snapshotJson : JsonText SnapshotFile) :
    Respects SameResults (handleInstallSnapshot term leader snapshotJson) := by
  have hacked : ∀ now, Respects SameResults (modifyNode fun n => n.acked leader now) :=
    fun _ _ => ⟨rfl, rfl⟩
  have hheard : ∀ now, Respects SameResults (modifyNode fun n => n.heard now) :=
    fun _ _ => ⟨rfl, rfl⟩
  have hinstall : ∀ snap, Respects SameResults (installSnapshot snap) := by
    intro snap
    unfold installSnapshot
    split
    · exact .throw _
    · refine .bind (onStore_results _) fun _ => .bind (fun _ => ⟨rfl, rfl⟩) fun _ => ?_
      exact .bind (onLog_results _) fun _ => fun _ => ⟨rfl, rfl⟩
  refine .bind .get fun h => .bind (hacked h.now) fun _ => .ite (.pure _) ?_
  refine .bind (becomeFollower_results _ _) fun _ => .bind (hheard h.now) fun _ => ?_
  unfold takeSnapshot
  split
  · exact .throw _
  · split
    · exact .throw _
    · refine .bind .get fun _ => .ite (.pure _) ?_
      exact .bind (hinstall _) fun _ => .bind .get fun _ => .pure _

omit [SerdeJson] in
theorem handleInstallSnapshotResp_results (term : Nat) (follower : String) (success : Bool)
    (lastIncludedIndex : Nat) : Respects SameResults
      (handleInstallSnapshotResp term follower success lastIncludedIndex) := by
  have hacked : ∀ now, Respects SameResults (modifyNode fun n => n.acked follower now) :=
    fun _ _ => ⟨rfl, rfl⟩
  have hmatched : Respects SameResults
      (modifyNode fun n => n.matched follower lastIncludedIndex) := fun _ => ⟨rfl, rfl⟩
  refine .bind .get fun h => .bind (hacked h.now) fun _ => ?_
  refine .ite (.bind (becomeFollower_results _ _) fun _ => .pure _) (.ite ?_ (.pure _))
  exact .bind hmatched fun _ => .pure _

omit [SerdeJson] in
theorem handleTimeoutNow_results (term : Nat) :
    Respects SameResults (handleTimeoutNow term) := by
  refine .bind .get fun h => .ite (.pure _) (.ite (.pure _) (.bind ?_ fun _ => ?_))
  · exact reset_results id h.now (fun _ => rfl) fun _ => rfl
  · exact startElection_results

theorem handleInner_applies (sender : String) (msg : Message) :
    Respects Applies (handleInner sender msg) := by
  have hadopt : Respects SameResults (adoptTerm msg) :=
    .bind .get fun _ => .ite (becomeFollower_results _ _) (.pure _)
  refine applies_bind hadopt fun _ => ?_
  cases msg with
  | requestVote => exact applies_of_same (handleRequestVote_results _ _ _ _ _ _ _)
  | requestVoteResp => exact applies_of_same (handleRequestVoteResp_results _ _ _ _ _)
  | appendEntries => exact handleAppendEntries_applies _ _ _ _ _ _ _ _
  | appendEntriesResp => exact handleAppendEntriesResp_applies _ _ _ _ _ _ _
  | installSnapshot => exact applies_of_same (handleInstallSnapshot_results _ _ _)
  | timeoutNow => exact applies_of_same (handleTimeoutNow_results _)
  | installSnapshotResp => exact applies_of_same (handleInstallSnapshotResp_results _ _ _ _)

theorem handle_applies (sender : String) (msg : Message) (h : Host) :
    Applies h (handle sender msg h).2 := by
  have ha := handleInner_applies sender msg h
  unfold handle
  rcases hx : exec (handleInner sender msg) h with ⟨e | out, h'⟩
  · rw [hx] at ha
    exact ha
  · rw [hx] at ha
    exact ha

/-- A node that opens has the results of what it applies then. -/
theorem openNode_applies {cfg : RaftConfig} {now : Nat} {st st' : Store} {n : Node}
    (hx : exec (openNode cfg now) st = (.ok n, st')) :
    keysOf n.results = newest 4096 (n.log.answered n.calls) := by
  have hret : Returns (fun n : Node => keysOf n.results = newest 4096 (n.log.answered n.calls))
      (openNode cfg now) := by
    unfold openNode
    split
    · exact .throw _
    · refine .bind fun _ => .bind fun _ => ?_
      split
      · exact .throw _
      · split
        · exact .throw _
        · refine .bind fun log => .bind fun st => .pure ?_
          obtain ⟨_, _, hn⟩ := (opened cfg log _ (st.disk.hardState.getD HardState.default)
            _).resetElectionDeadline_frame now
          rw [hn]
          obtain ⟨cs, hcalls, hlog, hkeys⟩ := Node.applyCommitted_applies _
          rw [hkeys, hlog, hcalls]
          simp [opened]
  exact hret st n (by rw [hx])

end

end Host

/-! ## The results of a run -/

section
variable [SerdeJson]

/-- The indices at which a call has applied a payload that spells an op. -/
def Node.answeredSince (n' n : Node) : Finset Nat :=
  n'.log.answered (n'.calls.take (n'.calls.length - n.calls.length))

/-- The indices at which a process has applied a payload that spells an op, since it opened last. -/
def answeredIn : History Host Input → Host → Finset Nat
  | [], s => s.node.log.answered s.node.calls
  | (s₀, e) :: h, s =>
    match e.request with
    | .restart _ => s.node.log.answered s.node.calls
    | _ => answeredIn h s₀ ∪ s.node.answeredSince s₀.node

/-- A call that is no restart answers, on top of the results, what it applies. -/
theorem Applies.keysOf_eq {h h' : Host} {keys : Finset Nat} (ha : Applies h h')
    (hk : keysOf h.node.results = newest 4096 keys) :
    keysOf h'.node.results = newest 4096 (keys ∪ h'.node.answeredSince h.node) := by
  unfold Node.answeredSince
  rcases ha with ⟨hr, hc⟩ | ⟨cs, hcalls, hkeys⟩
  · rw [hr, hc, hk]
    simp
  · rw [hkeys, hk, newest_newest_union, hcalls]
    simp

theorem Host.serve_applies {h h' : Host} {req : Request} {out : List Outbound}
    (hreq : ∀ cfg, req ≠ .restart cfg) (hs : h.serve req = some (out, h')) : Applies h h' := by
  cases req with
  | tick => cases hs; exact .inl (Host.tick_results h)
  | propose op => cases hs; exact .inl (Host.appendLocal_results op h)
  | flush => cases hs; exact .inl (Host.flush_results h)
  | stepDown => cases hs; exact .inl (Host.stepDown_results h)
  | maybeSnapshot => cases hs; exact .inl (Host.maybeSnapshot_results h)
  | handle sender msg =>
    have ha := Host.handle_applies sender msg h
    rw [Host.serve, Option.some_inj] at hs
    rw [hs] at ha
    exact ha
  | restart cfg => exact absurd rfl (hreq cfg)

theorem Host.serve_restart_applies {h h' : Host} {cfg : RaftConfig} {out : List Outbound}
    (hs : h.serve (.restart cfg) = some (out, h')) :
    keysOf h'.node.results = newest 4096 (h'.node.log.answered h'.node.calls) := by
  rw [Host.serve] at hs
  split at hs
  · split at hs
    · next hx =>
      cases hs
      exact Host.openNode_applies hx
    · cases hs
  · cases hs

/-- In every run the results kept are those of the newest 4096 indices that the process has
answered. -/
theorem results_eq {h : History Host Input} {s : Host}
    (hr : Process.GuardedRun (fun _ _ _ => True) h s) :
    keysOf s.node.results = newest 4096 (answeredIn h s) := by
  refine Run.invariant (I := fun h s => keysOf s.node.results = newest 4096 (answeredIn h s))
    ?_ ?_ hr
  · rintro s ⟨cfg, now, st, hx⟩
    exact Host.openNode_applies hx
  · intro h s e s' _ ih _ hstep
    obtain ⟨⟨out, s''⟩, hserve, rfl⟩ := Option.map_eq_some_iff.1 hstep
    rw [answeredIn]
    split
    · next cfg hcfg =>
      rw [hcfg] at hserve
      exact Host.serve_restart_applies hserve
    · next hreq => exact (Host.serve_applies hreq hserve).keysOf_eq ih

/-- Where the applied index has reached an index, the replica is seen to have applied it exactly if
the process itself has applied an op there since it opened, and fewer than 4096 after it. -/
theorem seenApplied_answered {h : History Host Input} {s : Host}
    (hr : Process.GuardedRun (fun _ _ _ => True) h s) {index : Nat}
    (hi : index ≤ s.node.sm.appliedIndex) :
    SeenApplied index s.node ↔ index ∈ answeredIn h s ∧
      ((answeredIn h s).filter (index < ·)).card < 4096 := by
  rw [seenApplied_iff hi, ← mem_keysOf, results_eq hr, mem_newest]

end

section
attribute [local instance] SerdeJson.sample

open Cluster

/-- A leader's first two entries, both of them committed; `op` is the text of the second. -/
def twoEntries (op : String) : Input :=
  ⟨5000, Faults.none, .handle "n1" (.appendEntries 1 "n1" 0 0
    [⟨1, 1, SerdeJson.opToString .noop⟩, ⟨1, 2, op⟩] 2 5000 0)⟩

/-- A run of the second member, followed request by request. -/
theorem run_of_follow {β : Type} (es : List Input) (f : History Host Input × Host → β) {b : β}
    (hf : (follow Process.step (fun _ _ _ => True) es [] (three.hosts "n2")).map f = some b) :
    ∃ h s, Process.GuardedRun (fun _ _ _ => True) h s ∧ f (h, s) = b := by
  obtain ⟨⟨h, s⟩, hf, hb⟩ := Option.map_eq_some_iff.1 hf
  obtain ⟨cfg, now, -, -, -, hx⟩ := three_initial.2 "n2" (by decide)
  exact ⟨h, s, Run.follow (.start ⟨cfg, now, _, hx⟩) hf, hb⟩

theorem seenApplied_answered_two : ∃ h s, Process.GuardedRun (fun _ _ _ => True) h s ∧
    SeenApplied 2 s.node ∧ ¬ SeenApplied 0 s.node := by
  obtain ⟨h, s, hr, hs⟩ := run_of_follow (b := (2, true)) [twoEntries (SerdeJson.opToString .noop)]
    (fun r => (r.2.node.sm.appliedIndex, decide (answeredIn r.1 r.2 = {1, 2})))
    (by decide +kernel)
  simp only [Prod.mk.injEq, decide_eq_true_eq] at hs
  obtain ⟨happlied, hans⟩ := hs
  refine ⟨h, s, hr, (seenApplied_answered hr (by omega)).2 ?_, fun h0 => ?_⟩
  · rw [hans]
    decide
  · have := ((seenApplied_answered hr (Nat.zero_le _)).1 h0).1
    rw [hans] at this
    exact absurd this (by decide)

/-- A node that has applied an entry whose payload spells no op is taken for one that lags. -/
theorem unparsable_taken_for_lagging : ∃ h s, Process.GuardedRun (fun _ _ _ => True) h s ∧
    s.node.sm.appliedIndex = 2 ∧ waitApplied 2 [s.node] = none ∧
    readIndex 2 [s.node] s.node = .error ⟨2, 2⟩ := by
  obtain ⟨h, s, hr, hs⟩ := run_of_follow (b := (2, true, some (⟨2, 2⟩ : Lagged))) [twoEntries "?"]
    (fun r => (r.2.node.sm.appliedIndex, (waitApplied 2 [r.2.node]).isNone,
      match readIndex 2 [r.2.node] r.2.node with
      | .ok _ => none
      | .error e => some e))
    (by decide +kernel)
  simp only [Prod.mk.injEq] at hs
  obtain ⟨happlied, hwait, hread⟩ := hs
  refine ⟨h, s, hr, happlied, Option.isNone_iff_eq_none.1 hwait, ?_⟩
  cases hx : readIndex 2 [s.node] s.node with
  | ok n => rw [hx] at hread; cases hread
  | error e => rw [hx] at hread; cases hread; rfl

end

end Rdsctl.Ha
