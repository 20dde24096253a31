import Rdsctl.Ha.Guard
import Rdsctl.Ha.Mirror

/-!
# What single changes of a node are to the replicated log

`Replica.Advances` says that a member has gone from one replica to another by moves of the abstract
log. This module has one lemma for each change the code makes to a node: a new term, a vote, an
election, a new entry, a new commit index, an applied record, a compaction.
-/

namespace Rdsctl.Ha

open Fallible

variable [SerdeJson]

/-- Member `i` has gone from the replica `c` to `c'` by moves that lead to `s'`. -/
structure Replica.Advances (voters : List String) (shard : Nat) (s : Copies) (i : String)
    (c c' : Replica) (s' : Copies) : Prop where
  moves : Moves voters i s s'
  ok : c'.Ok voters shard s' i
  snapshot : c.snapshotIndex ≤ c'.snapshotIndex

variable {voters : List String} {shard : Nat} {s s' s'' : Copies} {i : String} {n : Node} {k : Disk}

theorem Replica.Advances.trans {c c' c'' : Replica} (h : c.Advances voters shard s i c' s')
    (h' : c'.Advances voters shard s' i c'' s'') : c.Advances voters shard s i c'' s'' :=
  ⟨h.moves.trans h'.moves, h'.ok, h.snapshot.trans h'.snapshot⟩

/-- A change without moves. -/
theorem Replica.Advances.still {c c' : Replica} (h : c'.Ok voters shard s i)
    (hs : c.snapshotIndex ≤ c'.snapshotIndex) : c.Advances voters shard s i c' s :=
  ⟨.refl, h, hs⟩

/-- A change with one move. -/
theorem Replica.Advances.moved {c c' : Replica} (h : c'.Ok voters shard s' i)
    (hm : Replicas.Step (electorate voters) LogEntry.term s i s')
    (hs : c.snapshotIndex ≤ c'.snapshotIndex) : c.Advances voters shard s i c' s' :=
  ⟨.single hm, h, hs⟩

/-- Where the end of the log is known, the log says what it is. -/
theorem Replica.Ok.end_eq (hc : (n.replica k).Ok voters shard s i) (he : n.EndKnown) :
    n.log.lastIndex = (s.log i).length ∧ n.log.lastTerm = lastTm LogEntry.term (s.log i) := by
  have hrec : Log.Holds n.snapshotIndex n.log.entries (s.log i) := hc.records
  by_cases hne : n.log.entries = []
  · have hli := Log.lastIndex_nil hne
    have hlen := hrec.length
    have hlt : n.log.lastTerm = 0 := by simp [Log.lastTerm, hne]
    rw [Node.EndKnown, hli] at he
    rw [hne, List.length_nil] at hlen
    have hnil : s.log i = [] := List.eq_nil_of_length_eq_zero (by omega)
    rw [hli, hlt, hnil]
    exact ⟨rfl, rfl⟩
  · exact ⟨hrec.lastIndex hne, hrec.lastTerm hne⟩

/-! ## Terms and votes -/

theorem Replica.Ok.retire (hc : (n.replica k).Ok voters shard s i) (leader : Option String) :
    ((n.retire leader).replica k).Ok voters shard s i :=
  { hc with
    stands := by intro hr; cases hr
    leads := by intro hr; cases hr }

/-- A higher term, on disk. -/
theorem Replica.Ok.raise (hi : s.Inv voters) (hc : (n.replica k).Ok voters shard s i) {t : Nat}
    (ht : n.hard.currentTerm < t) (leader : Option String) :
    (n.replica k).Advances voters shard s i
      (((n.inTerm t).retire leader).replica { k with hardState := some ⟨t, none⟩, hardTmp := none })
      (s.raise i t) := by
  have hlt : s.term i < t := hc.term ▸ ht
  have hm : Replicas.Step (electorate voters) LogEntry.term s i (s.raise i t) := .raise hlt
  refine .moved ?_ hm (Nat.le_refl _)
  exact { hc with
    saved := rfl
    term := Function.update_self _ _ _
    cast := hi.cast_none hlt
    stands := by intro hr; cases hr
    leads := by intro hr; cases hr
    anchored := hc.anchored.evolves (hm.evolves hi) (Nat.le_of_lt ht) }

/-- Standing in the next term, with its own vote on disk. -/
theorem Replica.Ok.stand (hi : s.Inv voters) (hc : (n.replica k).Ok voters shard s i) :
    (n.replica k).Advances voters shard s i
      (n.nextTerm.stand.replica
        { k with hardState := some ⟨n.hard.currentTerm + 1, some n.cfg.nodeId⟩, hardTmp := none })
      (s.stand i) := by
  have hid : n.cfg.nodeId = i := hc.nodeId
  have hterm : s.term i = n.hard.currentTerm := hc.term
  have hm : Replicas.Step (electorate voters) LogEntry.term s i (s.stand i) := .stand
  refine .moved ?_ hm (Nat.le_refl _)
  exact { hc with
    saved := rfl
    term := by
      show Function.update s.term i (s.term i + 1) i = n.hard.currentTerm + 1
      rw [Function.update_self, hterm]
    cast := by
      show (s.cast.record i (s.term i + 1) i) i (n.hard.currentTerm + 1) = some n.cfg.nodeId
      rw [hterm, hid, Votes.record_self]
    stands := by
      intro _ _
      show update₂ s.bid i (s.term i + 1) (some (s.log i)) i (n.hard.currentTerm + 1) = _ ∧
        ∀ r, s.reigns (n.hard.currentTerm + 1) = some r → _
      rw [hterm]
      refine ⟨update₂_self _ _ _ _, fun r hr hl => ?_⟩
      -- nobody has stood in a term it has not reached
      have hb := (hi.won _ r hr).2
      rw [hl, hi.bid_none (by omega)] at hb
      cases hb
    leads := by intro hr; cases hr
    anchored := hc.anchored.evolves (hm.evolves hi) (Nat.le_succ _) }

/-- A vote for a candidate whose log is as far, on disk. -/
theorem Replica.Ok.voteFor (hi : s.Inv voters) (hc : (n.replica k).Ok voters shard s i)
    {candidate : String} {b : List LogEntry} (hv : n.hard.votedFor = none)
    (hb : s.bid candidate n.hard.currentTerm = some b)
    (hu : UpToDate LogEntry.term b (s.log i)) :
    (n.replica k).Advances voters shard s i
      ((n.voteFor candidate).replica
        { k with hardState := some ⟨n.hard.currentTerm, some candidate⟩, hardTmp := none })
      (s.vote i candidate) := by
  have hterm : s.term i = n.hard.currentTerm := hc.term
  have hfree : s.cast i (s.term i) = none := by
    rw [hterm]
    exact hc.cast.trans hv
  have hm : Replicas.Step (electorate voters) LogEntry.term s i (s.vote i candidate) :=
    .vote hfree (hterm ▸ hb) hu
  refine .moved ?_ hm (Nat.le_refl _)
  exact { hc with
    saved := rfl
    cast := by
      show (s.cast.record i (s.term i) candidate) i n.hard.currentTerm = some candidate
      rw [hterm, Votes.record_self]
    leads := fun hr => ⟨(hc.leads hr).reign, (hc.leads hr).holding⟩
    anchored := hc.anchored.evolves (hm.evolves hi) (Nat.le_refl _) }

/-! ## Leading -/

omit [SerdeJson] in
/-- A new leader counts no entry of anybody. -/
theorem Node.takeLead_matchIndex (now : Nat) {m : Nat} {v : String}
    (h : (n.takeLead now).matchIndex[v]? = some m) : v ∈ n.cfg.voters ∧ m = 0 := by
  have hfold : ∀ (vs : List String) (b : BTreeMap String Nat),
      (vs.foldl (fun b w => b.insert w 0) b)[v]? = some m → (v ∈ vs ∧ m = 0) ∨ b[v]? = some m := by
    intro vs
    induction vs with
    | nil => exact fun b h => .inr h
    | cons w vs ih =>
      intro b hb
      rcases ih _ hb with ⟨hv, hm⟩ | hb
      · exact .inl ⟨List.mem_cons_of_mem _ hv, hm⟩
      · exact (BTreeMap.insert_eq_some hb).imp (fun ⟨hv, hm⟩ => ⟨by simp [hv], hm⟩) id
  rcases hfold n.cfg.voters ∅ h with h | h
  · exact h
  · simp at h

/-- A candidate that has won leads with the log it stood with. -/
theorem Replica.Ok.takeLead (hc : (n.replica k).Ok voters shard s i) (hi : s.Inv voters)
    (hr : n.role = .candidate) (hcam : n.campaign = .vote)
    (hw : (electorate voters).Won s.cast n.hard.currentTerm i) (now : Nat) :
    (n.replica k).Advances voters shard s i ((n.takeLead now).replica k) (s.elect i) := by
  have hterm : s.term i = n.hard.currentTerm := hc.term
  obtain ⟨hbid, hno⟩ := hc.stands hr hcam
  have hnew : s.reigns (s.term i) = none := by
    cases hx : s.reigns (s.term i) with
    | none => rfl
    | some r =>
      rw [hterm] at hx
      exact absurd ((hi.won _ r hx).1.unique hw) (hno r hx)
  have hm : Replicas.Step (electorate voters) LogEntry.term s i (s.elect i) :=
    .elect (hterm ▸ hw) (hterm ▸ hbid) hnew
  have hx := hm.evolves hi
  refine .moved ?_ hm (Nat.le_refl _)
  exact { hc with
    stands := by intro hr; cases hr
    leads := by
      intro _
      refine ⟨⟨⟨i, s.log i, []⟩, ?_, rfl, List.append_nil _⟩, fun v m hv => ?_⟩
      · show Function.update s.reigns (s.term i) _ n.hard.currentTerm = _
        rw [hterm, Function.update_self]
      · obtain ⟨hmem, rfl⟩ := Node.takeLead_matchIndex now hv
        rw [show n.cfg.voters = voters from hc.members] at hmem
        exact ⟨hmem, .inl (Nat.zero_le _)⟩
    anchored := hc.anchored.evolves hx (Nat.le_refl _)
    calls := fun call h => (hc.calls call h).evolves hx }

/-- The entry of an op. -/
def entryOf (term : Nat) (op : Op) : LogEntry := ⟨term, SerdeJson.opToString op⟩

/-- What `append_local` writes for an op. -/
def Node.pendingFor (n : Node) (op : Op) : PendingEntry :=
  ⟨KIND_ENTRY, n.hard.currentTerm, n.log.lastIndex + 1, asBytes (SerdeJson.opToString op)⟩

/-- The log with what `append_local` writes for an op. -/
def Node.withEntry (n : Node) (op : Op) : Node :=
  { n with log := n.log.appended [n.pendingFor op] }.matchedSelf (n.log.lastIndex + 1)

/-- The file with what `append_local` writes for an op. -/
def Disk.withEntry (k : Disk) (n : Node) (op : Op) : Disk :=
  { k with log := k.log ++ Log.stage n.log.shard n.log.prevHashForNext [n.pendingFor op] }

/-- The leader's log with one more entry, acknowledged by the leader itself. -/
theorem Replica.Ok.appendEntry (hc : (n.replica k).Ok voters shard s i) (hi : s.Inv voters)
    (hmem : i ∈ voters) (hr : n.role = .leader) (he : n.EndKnown) (op : Op) :
    ∃ s', (n.replica k).Advances voters shard s i
      ((n.withEntry op).replica (k.withEntry n op)) s' := by
  have hterm : s.term i = n.hard.currentTerm := hc.term
  obtain ⟨hend, -⟩ := hc.end_eq he
  obtain ⟨⟨r, hreign, hl, hlog⟩, hhold⟩ := hc.leads hr
  have hrec : Log.Holds n.snapshotIndex n.log.entries (s.log i) := hc.records
  have hS : n.snapshotIndex ≤ (s.log i).length := hend ▸ he
  let e := entryOf n.hard.currentTerm op
  let r' : Reign String LogEntry := ⟨r.leader, r.base, r.own ++ [e]⟩
  let s1 := s.append i r e
  have hreign' : s.reigns (s.term i) = some r := hterm ▸ hreign
  have hm1 : Replicas.Step (electorate voters) LogEntry.term s i s1 :=
    .append hreign' hl hlog (show e.term = s.term i from hterm.symm)
  have hlog1 : s1.log i = s.log i ++ [e] := Function.update_self i _ s.log
  have hr1 : s1.reigns n.hard.currentTerm = some r' := by
    rw [← hterm]
    exact Function.update_self (s.term i) _ s.reigns
  have hr'log : r'.log = s.log i ++ [e] := by
    rw [← hlog, Reign.log, Reign.log, List.append_assoc]
  have hm2 : Replicas.Step (electorate voters) LogEntry.term s1 i
      (s1.ack i ((s.log i).length + 1)) := by
    refine .ack (r := r') (by rw [← hr1, ← hterm]; rfl) ?_ ?_
    · rw [hr'log, List.length_append, List.length_singleton]
    · rw [hr'log, hlog1]
      exact List.take_prefix _ _
  have hi1 := hm1.inv hi
  have hx := (hm1.evolves hi).trans (hm2.evolves hi1)
  refine ⟨s1.ack i ((s.log i).length + 1), (Relation.ReflTransGen.single hm1).tail hm2, ?_,
    Nat.le_refl _⟩
  have hp : ∀ (j : Nat) (p : PendingEntry), [n.pendingFor op][j]? = some p →
      p.index = (s.log i).length + 1 + j ∧
        ∃ e', [e][j]? = some e' ∧ p.term = e'.term ∧ p.payload = asBytes e'.opJson := by
    intro j p hp
    cases j with
    | zero =>
      simp only [List.getElem?_cons_zero, Option.some.injEq] at hp
      subst hp
      exact ⟨congrArg (· + 1) hend, e, rfl, rfl, rfl⟩
    | succ j => simp at hp
  exact { hc with
    stands := by
      intro hcand
      rw [show n.role = _ from hcand] at hr
      cases hr
    leads := by
      intro _
      refine ⟨⟨r', hr1, hl, by rw [hr'log]; exact hlog1.symm⟩, fun v m hv => ?_⟩
      rcases BTreeMap.insert_eq_some hv with ⟨rfl, rfl⟩ | hv
      · rw [show n.cfg.nodeId = i from hc.nodeId]
        refine ⟨hmem, .inl ?_⟩
        show n.log.lastIndex + 1 ≤ update₂ s1.acked i (s.term i) _ i n.hard.currentTerm
        rw [hterm, update₂_self, hend]
        exact Nat.le_max_right _ _
      · exact (hhold v m hv).evolves hx
    records := by
      show Log.Holds n.snapshotIndex (n.log.appended _).entries (s1.log i)
      rw [hlog1]
      exact hrec.appended hS rfl hp
    chained := Log.Chained.appended hc.chained hc.logShard
    file := by
      show k.log ++ _ = n.log.entries ++ _
      rw [show k.log = n.log.entries from hc.file]
    anchored := (hc.anchored.evolves hx (Nat.le_refl _))
    calls := fun call h => (hc.calls call h).evolves hx }

/-! ## Committing and applying -/

/-- A higher commit index, once it is known to be chosen. -/
theorem Replica.Ok.learn (hc : (n.replica k).Ok voters shard s i) (hi : s.Inv voters) {c : Nat}
    (hk : s.Knows n.hard.currentTerm (s.log i) c) (hle : n.commitIndex ≤ c) :
    (n.replica k).Advances voters shard s i ((n.commitTo c).replica k) (s.learn i c) := by
  have hm : Replicas.Step (electorate voters) LogEntry.term s i (s.learn i c) :=
    .learn (by rw [hc.term]; exact hk)
  have hx := hm.evolves hi
  refine .moved ?_ hm (Nat.le_refl _)
  exact { hc with
    leads := fun hr => ⟨(hc.leads hr).reign, fun v m hv => ((hc.leads hr).holding v m hv).evolves hx⟩
    anchored := hc.anchored.evolves hx (Nat.le_refl _)
    applied := ⟨hc.applied.1, hc.applied.2.trans hle⟩
    committed := by
      show c ≤ max n.snapshotIndex (Function.update s.known i (max (s.known i) c) i)
      rw [Function.update_self]
      omega
    calls := fun call h => (hc.calls call h).evolves hx }

/-- A committed record above the snapshot is a settled entry. -/
theorem Replica.Ok.settled_get (hc : (n.replica k).Ok voters shard s i) (hi : s.Inv voters)
    {idx : Nat} {r : Record} (hle : idx ≤ n.commitIndex) (hg : n.log.get idx = some r) :
    ∃ e, s.Settled n.hard.currentTerm idx e ∧ r.spells e := by
  have hrec : Log.Holds n.snapshotIndex n.log.entries (s.log i) := hc.records
  have hcom : n.commitIndex ≤ max n.snapshotIndex (s.known i) := hc.committed
  obtain ⟨hs, -, e, he, hsp⟩ := hrec.get_some hg
  have hk := hi.known i
  rw [hc.term] at hk
  exact ⟨e, hi.settled_of_knows hk (by omega) (by omega) he, hsp⟩

/-- One application: the record goes to the state machine and into the history of calls. -/
theorem Node.applyRecord_eq (n : Node) (idx : Nat) (r : Record) :
    ∃ sm results, n.applyRecord idx r =
        { n with sm, results, calls := ⟨idx, r.term, opOfPayload r.payload⟩ :: n.calls } ∧
      sm.appliedIndex = idx := by
  unfold Node.applyRecord opOfPayload
  cases SerdeJson.opFromSlice r.payload with
  | ok op => exact ⟨_, _, rfl, rfl⟩
  | error msg => exact ⟨_, _, rfl, rfl⟩

/-- Applying the next committed record. -/
theorem Replica.Ok.applyRecord (hc : (n.replica k).Ok voters shard s i) (hi : s.Inv voters)
    {r : Record} (hlt : n.sm.appliedIndex < n.commitIndex)
    (hg : n.log.get (n.sm.appliedIndex + 1) = some r) :
    ((n.applyRecord (n.sm.appliedIndex + 1) r).replica k).Ok voters shard s i := by
  obtain ⟨e, he, ht, hp⟩ := hc.settled_get hi hlt hg
  obtain ⟨sm, results, hn, hsm⟩ := n.applyRecord_eq (n.sm.appliedIndex + 1) r
  have happ : n.snapshotIndex ≤ n.sm.appliedIndex := hc.applied.1
  rw [hn]
  exact { hc with
    leads := fun hr => ⟨(hc.leads hr).reign, (hc.leads hr).holding⟩
    applied := by
      show n.snapshotIndex ≤ sm.appliedIndex ∧ sm.appliedIndex ≤ n.commitIndex
      omega
    calls := by
      intro call hcall
      rcases List.mem_cons.1 hcall with rfl | hcall
      · exact ⟨_, e, he, ht, congrArg opOfPayload hp⟩
      · exact hc.calls call hcall }

/-- Applying what is committed. -/
theorem Replica.Ok.applyCommitted (hc : (n.replica k).Ok voters shard s i) (hi : s.Inv voters) :
    (n.applyCommitted.replica k).Ok voters shard s i := by
  have hloop : ∀ (fuel : Nat) (n : Node), (n.replica k).Ok voters shard s i →
      n.sm.appliedIndex + fuel ≤ n.commitIndex →
      ((Node.applyLoop fuel n).replica k).Ok voters shard s i := by
    intro fuel
    induction fuel with
    | zero => exact fun n hc _ => hc
    | succ fuel ih =>
      intro n hc hle
      rw [Node.applyLoop]
      split
      · exact hc
      · next r hg =>
        refine ih _ (hc.applyRecord hi (by omega) hg) ?_
        obtain ⟨sm, results, hn, hsm⟩ := n.applyRecord_eq (n.sm.appliedIndex + 1) r
        rw [hn]
        show sm.appliedIndex + fuel ≤ n.commitIndex
        omega
  have happ : n.sm.appliedIndex ≤ n.commitIndex := hc.applied.2
  exact hloop (n.commitIndex - n.sm.appliedIndex) n hc (by omega)

omit [SerdeJson] in
/-- Where the loop of `advance_commit` ends. -/
theorem Node.foldl_commitAt (n : Node) (is : List Nat) (commit : Nat) :
    is.foldl n.commitAt commit = commit ∨
      (is.foldl n.commitAt commit ∈ is ∧
        n.log.termAt (is.foldl n.commitAt commit) = some n.hard.currentTerm ∧
        n.cfg.majority ≤ n.matchCount (is.foldl n.commitAt commit)) := by
  induction is generalizing commit with
  | nil => exact .inl rfl
  | cons a is ih =>
    rw [List.foldl_cons]
    rcases ih (n.commitAt commit a) with h | ⟨h1, h2, h3⟩
    · rw [h]
      unfold Node.commitAt
      split
      · exact .inl rfl
      · next ht =>
        rw [not_not] at ht
        split
        · next hm => exact .inr ⟨List.mem_cons_self, ht, hm⟩
        · exact .inl rfl
    · exact .inr ⟨List.mem_cons_of_mem _ h1, h2, h3⟩

omit [SerdeJson] in
/-- The members a count of match indices is about. -/
theorem Node.exists_matched (n : Node) (i : Nat) :
    ∃ vs : List String, vs.Nodup ∧ n.matchCount i = vs.length ∧
      ∀ v, v ∈ vs ↔ ∃ m, n.matchIndex[v]? = some m ∧ i ≤ m := by
  let ps := n.matchIndex.toList.filter fun p => decide (i ≤ p.2)
  refine ⟨ps.map Prod.fst, ?_, ?_, fun v => ?_⟩
  · refine List.Sublist.nodup (List.Sublist.map _ List.filter_sublist) ?_
    rw [Std.ExtTreeMap.map_fst_toList_eq_keys]
    exact n.matchIndex.nodup_keys
  · rw [List.length_map, Node.matchCount, BTreeMap.values_eq_map_toList, List.filter_map,
      List.length_map]
    rfl
  · rw [List.mem_map]
    constructor
    · rintro ⟨⟨w, m⟩, hp, rfl⟩
      obtain ⟨hmem, hle⟩ := List.mem_filter.1 hp
      exact ⟨m, Std.ExtTreeMap.mem_toList_iff_getElem?_eq_some.1 hmem, by simpa using hle⟩
    · rintro ⟨m, hget, hle⟩
      exact ⟨(v, m), List.mem_filter.2
        ⟨Std.ExtTreeMap.mem_toList_iff_getElem?_eq_some.2 hget, by simpa using hle⟩, rfl⟩

/-- What a leader commits by counting is chosen: a majority has acknowledged it, or one of them has
it settled. -/
theorem Replica.Ok.chooses (hc : (n.replica k).Ok voters shard s i) (hi : s.Inv voters)
    (hr : n.role = .leader) {c : Nat} (ht : n.log.termAt c = some n.hard.currentTerm)
    (hm : n.cfg.majority ≤ n.matchCount c) :
    ∃ s1, (n.replica k).Advances voters shard s i (n.replica k) s1 ∧
      s1.Knows n.hard.currentTerm (s1.log i) c := by
  obtain ⟨⟨r, hreign, hl, hlog⟩, hhold⟩ := hc.leads hr
  have hrec : Log.Holds n.snapshotIndex n.log.entries (s.log i) := hc.records
  obtain ⟨rec, hg, hrt⟩ := Option.map_eq_some_iff.1 ht
  obtain ⟨hs, -, e, he, hsp⟩ := hrec.get_some hg
  obtain ⟨vs, hnd, hcount, hmem⟩ := n.exists_matched c
  by_cases hset : ∃ v ∈ vs, ∃ m, c ≤ m ∧ ∃ e', s.Settled n.hard.currentTerm m e'
  · -- a member answered from its snapshot
    obtain ⟨v, -, m, hle, e', he'⟩ := hset
    refine ⟨s, .still hc (Nat.le_refl _), ?_⟩
    have := (hi.knows_of_settled he' hreign (Nat.le_refl _)).le hle
    rwa [hlog] at this
  · -- a majority has acknowledged the record
    have hq : ∃ Q' ⊆ (electorate voters).voters, (electorate voters).quorum ≤ Q'.card ∧
        ∀ w ∈ Q', c - 1 + 1 ≤ s.acked w n.hard.currentTerm := by
      refine ⟨vs.toFinset, fun v hv => ?_, ?_, fun v hv => ?_⟩
      · obtain ⟨m, hget, -⟩ := (hmem v).1 (List.mem_toFinset.1 hv)
        exact List.mem_toFinset.2 (hhold v m hget).1
      · rw [List.toFinset_card_of_nodup hnd, ← hcount]
        rw [RaftConfig.majority, show n.cfg.voters = voters from hc.members] at hm
        exact hm
      · obtain ⟨m, hget, hle⟩ := (hmem v).1 (List.mem_toFinset.1 hv)
        have hack : m ≤ s.acked v n.hard.currentTerm :=
          (hhold v m hget).2.resolve_right fun h => hset ⟨v, List.mem_toFinset.1 hv, m, hle, h⟩
        omega
    have hetm : e.term = n.hard.currentTerm := hsp.1.symm.trans hrt
    have hstep : Replicas.Step (electorate voters) LogEntry.term s i
        (s.choose n.hard.currentTerm (c - 1 + 1)) :=
      .choose hreign (hlog ▸ he) hetm hq
    have hx := hstep.evolves hi
    refine ⟨_, .moved ?_ hstep (Nat.le_refl _), ?_⟩
    · exact { hc with
        leads := fun hr =>
          ⟨(hc.leads hr).reign, fun v m hv => ((hc.leads hr).holding v m hv).evolves hx⟩
        anchored := hc.anchored.evolves hx (Nat.le_refl _)
        calls := fun call h => (hc.calls call h).evolves hx }
    · refine .inr ⟨n.hard.currentTerm, c - 1 + 1, r, .inr ⟨rfl, rfl⟩, hreign, Nat.le_refl _,
        by omega, ?_⟩
      rw [hlog]
      exact List.take_prefix _ _

/-- A leader that advances its commit index. -/
theorem Replica.Ok.advanceCommit (hc : (n.replica k).Ok voters shard s i) (hi : s.Inv voters)
    (hr : n.role = .leader) :
    ∃ s', (n.replica k).Advances voters shard s i (n.advanceCommit.replica k) s' := by
  let range := List.range' (n.commitIndex + 1) (n.log.lastIndex - n.commitIndex)
  show ∃ s', (n.replica k).Advances voters shard s i
    ((n.commitTo (range.foldl n.commitAt n.commitIndex)).applyCommitted.replica k) s'
  rcases n.foldl_commitAt range n.commitIndex with h | ⟨hmem, ht, hm⟩
  · rw [h]
    exact ⟨s, .still (Replica.Ok.applyCommitted (n := n.commitTo n.commitIndex) hc hi)
      (by obtain ⟨_, _, _, ha⟩ := (n.commitTo n.commitIndex).applyCommitted_frame; rw [ha]; rfl)⟩
  · obtain ⟨s1, ha1, hk⟩ := hc.chooses hi hr ht hm
    have hi1 := (ha1.moves.inv hi).1
    have hle : n.commitIndex ≤ range.foldl n.commitAt n.commitIndex := by
      have := (List.mem_range'_1.1 hmem).1
      omega
    have ha2 := ha1.ok.learn hi1 hk hle
    have hi2 := (ha2.moves.inv hi1).1
    refine ⟨_, ha1.trans (ha2.trans (.still (ha2.ok.applyCommitted hi2) ?_))⟩
    obtain ⟨_, _, _, ha⟩ :=
      (n.commitTo (range.foldl n.commitAt n.commitIndex)).applyCommitted_frame
    rw [ha]
    rfl

end Rdsctl.Ha
