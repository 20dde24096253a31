import Rdsctl.Ha.Advance

/-!
# What a follower does to the replicated log

`AppendEntries` and `InstallSnapshot`, and the compaction that `maybe_snapshot` shares with the
latter, without file faults. Under the guard of `Cluster.Sound` a follower that takes a batch ends up
with a prefix of the leader's log (`Replica.Ok.takeEntries`); compaction is no move of the abstract
log at all.
-/

namespace Rdsctl.Ha

open Fallible

/-! ## Runs of the parts -/

namespace Host

theorem exec_onLog_ok {f : Log → StoreM Log} {n : Node} {k k' : Disk} {now : Nat} {l : Log}
    (hx : exec (f n.log) ⟨k, Faults.none⟩ = (.ok l, ⟨k', Faults.none⟩)) :
    exec (onLog f) ⟨n, ⟨k, Faults.none⟩, now⟩ =
      (.ok (), ⟨{ n with log := l }, ⟨k', Faults.none⟩, now⟩) := by
  unfold onLog
  rw [exec_get_bind, exec_bind, exec_onStore]
  simp only [hx, exec_modifyNode]

theorem exec_onLog_error {f : Log → StoreM Log} {n : Node} {st st' : Store} {now : Nat}
    {e : HaError} (hx : exec (f n.log) st = (.error e, st')) :
    exec (onLog f) ⟨n, st, now⟩ = (.error e, ⟨n, st', now⟩) := by
  unfold onLog
  rw [exec_get_bind, exec_bind, exec_onStore]
  simp only [hx]

/-- The log takes a batch that continues it. -/
theorem exec_appendBatch_ok {n : Node} {k : Disk} {now : Nat} {batch : List PendingEntry}
    (hne : batch ≠ []) (hgap : Log.numberingGap (n.log.lastIndex + 1) batch = none) :
    exec (appendBatch batch) ⟨n, ⟨k, Faults.none⟩, now⟩ =
      (.ok (), ⟨{ n with log := n.log.appended batch },
        ⟨{ k with log := k.log ++ Log.stage n.log.shard n.log.prevHashForNext batch },
          Faults.none⟩, now⟩) := by
  unfold appendBatch
  rw [exec_onError, exec_onLog_ok (Log.exec_appendBatch_ok hne hgap)]

/-- The log refuses any other batch. -/
theorem exec_appendBatch_gap {n : Node} {st : Store} {now : Nat} {batch : List PendingEntry}
    {g : Nat × Nat} (hne : batch ≠ [])
    (hgap : Log.numberingGap (n.log.lastIndex + 1) batch = some g) :
    ∃ e, exec (appendBatch batch) ⟨n, st, now⟩ =
      (.error e, ⟨{ n with fsyncOk := false }, st, now⟩) := by
  obtain ⟨e, he⟩ := Log.exec_appendBatch_gap st hne hgap
  unfold appendBatch
  rw [exec_onError, exec_onLog_error he]
  exact ⟨e, rfl⟩

end Host

/-- The entry of a wire entry. -/
def EntryMeta.entry (e : EntryMeta) : LogEntry := ⟨e.term, e.opJson⟩

/-- A batch shows the log `ℓ` after the index `prev`. -/
structure BatchOf (ℓ : List LogEntry) (prev : Nat) (entries : List EntryMeta) : Prop where
  numbered : ∀ j e, entries[j]? = some e → e.index = prev + 1 + j
  shown : entries.map EntryMeta.entry <+: ℓ.drop prev

theorem BatchOf.of_getElem? {ℓ : List LogEntry} {prev : Nat} {entries : List EntryMeta}
    (h : ∀ j e, entries[j]? = some e → e.index = prev + 1 + j ∧
      ℓ[prev + j]? = some ⟨e.term, e.opJson⟩) : BatchOf ℓ prev entries where
  numbered := fun j e he => (h j e he).1
  shown := by
    rw [List.prefix_iff_getElem?]
    intro j hj
    rw [List.length_map] at hj
    rw [List.getElem?_drop, (h j _ (List.getElem?_eq_getElem hj)).2, List.getElem_map]
    rfl

theorem BatchOf.getElem? {ℓ : List LogEntry} {prev : Nat} {entries : List EntryMeta}
    (h : BatchOf ℓ prev entries) {j : Nat} {e : EntryMeta} (he : entries[j]? = some e) :
    ℓ[prev + j]? = some e.entry := by
  rw [← List.getElem?_drop]
  exact getElem?_mono h.shown (by rw [List.getElem?_map, he]; rfl)

/-- The rest of a batch, from where a prefix of the log ends. -/
theorem BatchOf.drop {ℓ ℓ' : List LogEntry} {prev : Nat} {entries : List EntryMeta}
    (h : BatchOf ℓ prev entries) (hp : ℓ' <+: ℓ) (hle : prev ≤ ℓ'.length) :
    BatchOf ℓ ℓ'.length (entries.drop (ℓ'.length - prev)) ∧
      ℓ' ++ (entries.drop (ℓ'.length - prev)).map EntryMeta.entry <+: ℓ := by
  have hb : BatchOf ℓ ℓ'.length (entries.drop (ℓ'.length - prev)) := by
    refine .of_getElem? fun j e he => ?_
    rw [List.getElem?_drop] at he
    have hn := h.numbered _ e he
    have hs := h.getElem? he
    refine ⟨by omega, ?_⟩
    rw [← show prev + (ℓ'.length - prev + j) = ℓ'.length + j by omega]
    exact hs
  refine ⟨hb, ?_⟩
  obtain ⟨rest, hrest⟩ := hb.shown
  refine ⟨rest, ?_⟩
  rw [List.append_assoc, hrest]
  obtain ⟨t, rfl⟩ := hp
  rw [List.drop_left]

/-- In a numbered batch the entries above an index are the last ones. -/
theorem filter_index_gt {entries : List EntryMeta} {a L : Nat}
    (h : ∀ j e, entries[j]? = some e → e.index = a + j) {p : EntryMeta → Bool}
    (hp : ∀ e ∈ entries, p e = decide (L < e.index)) :
    entries.filter p = entries.drop (L + 1 - a) := by
  induction entries generalizing a with
  | nil => simp
  | cons e es ih =>
    have he : e.index = a := by simpa using h 0 e rfl
    have ht : ∀ j e', es[j]? = some e' → e'.index = a + 1 + j := by
      intro j e' he'
      have := h (j + 1) e' (by simpa using he')
      omega
    rw [List.filter_cons, ih ht fun e' he' => hp e' (List.mem_cons_of_mem _ he'),
      hp e List.mem_cons_self, he]
    by_cases hlt : L < a
    · rw [if_pos (by simpa using hlt), show L + 1 - a = 0 by omega,
        show L + 1 - (a + 1) = 0 by omega, List.drop_zero, List.drop_zero]
    · rw [if_neg (by simpa using hlt), show L + 1 - a = (L + 1 - (a + 1)) + 1 by omega,
        List.drop_succ_cons]

section
variable [SerdeJson] {voters : List String} {shard : Nat} {s : Copies} {i : String} {n : Node}
  {k : Disk} {now : Nat} {r : Reign String LogEntry}

/-- What a follower does not have of a batch: the entries beyond its log. -/
theorem Replica.Ok.missing_eq (hc : (n.replica k).Ok voters shard s i) {prev : Nat}
    {entries : List EntryMeta} (hb : BatchOf r.log prev entries) (hS : n.snapshotIndex ≤ prev) :
    (entries.filter fun e => (n.log.get e.index).isNone) =
      entries.drop ((s.log i).length - prev) := by
  have hrec : Log.Holds n.snapshotIndex n.log.entries (s.log i) := hc.records
  rw [show (s.log i).length - prev = (s.log i).length + 1 - (prev + 1) by omega]
  refine filter_index_gt hb.numbered fun e he => ?_
  obtain ⟨j, hj⟩ := List.mem_iff_getElem?.1 he
  have hidx := hb.numbered j e hj
  cases hg : n.log.get e.index with
  | none =>
    have := hrec.get_none (by omega) hg
    simpa using this
  | some rec =>
    obtain ⟨-, -, e', he', -⟩ := hrec.get_some hg
    obtain ⟨hlt, -⟩ := List.getElem?_eq_some_iff.1 he'
    simp only [Option.isNone_some]
    symm
    rw [decide_eq_false_iff_not]
    omega

/-- A follower whose log is a prefix of the leader's appends the rest of the batch. -/
theorem Replica.Ok.appendMissing (hc : (n.replica k).Ok voters shard s i) (hi : s.Inv voters)
    (hreign : s.reigns n.hard.currentTerm = some r) (hrole : n.role = .follower)
    (hp : s.log i <+: r.log) (he : n.EndKnown) {prev : Nat} {entries : List EntryMeta}
    (hb : BatchOf r.log prev entries) (hS : n.snapshotIndex ≤ prev)
    (hprev : prev ≤ (s.log i).length) (now : Nat) :
    ∃ n' k' s', exec (Host.appendMissing entries) ⟨n, ⟨k, Faults.none⟩, now⟩ =
        (.ok (), ⟨n', ⟨k', Faults.none⟩, now⟩) ∧
      (n.replica k).Advances voters shard s i (n'.replica k') s' ∧
      n'.hard = n.hard ∧ n'.role = .follower ∧ n'.cfg = n.cfg ∧
      s'.reigns = s.reigns ∧ s'.log i <+: r.log ∧ n'.EndKnown := by
  obtain ⟨hend, -⟩ := hc.end_eq he
  have hrec : Log.Holds n.snapshotIndex n.log.entries (s.log i) := hc.records
  have hterm : s.term i = n.hard.currentTerm := hc.term
  obtain ⟨hb', hp'⟩ := hb.drop hp hprev
  unfold Host.appendMissing
  rw [exec_get_bind, hc.missing_eq hb hS]
  generalize entries.drop ((s.log i).length - prev) = es at hb' hp' ⊢
  by_cases hnil : es = []
  · subst hnil
    exact ⟨n, k, s, rfl, .still hc (Nat.le_refl _), rfl, hrole, rfl, rfl, hp, he⟩
  have hne : es.map Host.pendingOf ≠ [] := by simpa using hnil
  have hgap : Log.numberingGap (n.log.lastIndex + 1) (es.map Host.pendingOf) = none := by
    refine Log.numberingGap_none fun j p hp => ?_
    rw [List.getElem?_map] at hp
    obtain ⟨e, he, rfl⟩ := Option.map_eq_some_iff.1 hp
    rw [hend]
    exact hb'.numbered j e he
  rw [if_neg (by simpa using hnil), Host.exec_appendBatch_ok hne hgap]
  have hps : ∀ (j : Nat) (p : PendingEntry), (es.map Host.pendingOf)[j]? = some p →
      p.index = (s.log i).length + 1 + j ∧ ∃ e', (es.map EntryMeta.entry)[j]? = some e' ∧
        p.term = e'.term ∧ p.payload = asBytes e'.opJson := by
    intro j p hp
    rw [List.getElem?_map] at hp
    obtain ⟨e, he, rfl⟩ := Option.map_eq_some_iff.1 hp
    exact ⟨hb'.numbered j e he, e.entry, by rw [List.getElem?_map, he]; rfl, rfl, rfl⟩
  let ℓ' := s.log i ++ es.map EntryMeta.entry
  have hm : Replicas.Step (electorate voters) LogEntry.term s i (s.accept i ℓ') :=
    .accept (hterm ▸ hreign) hp' fun p hp _ => hp.trans (List.prefix_append _ _)
  have hx := hm.evolves hi
  have hlog : (s.accept i ℓ').log i = ℓ' := Function.update_self _ _ _
  have hS' : n.snapshotIndex ≤ (s.log i).length := hS.trans hprev
  have hok : (({ n with log := n.log.appended (es.map Host.pendingOf) } : Node).replica
      { k with log := k.log ++ Log.stage n.log.shard n.log.prevHashForNext
                (es.map Host.pendingOf) }).Ok voters shard (s.accept i ℓ') i := by
    exact { hc with
      stands := by
        intro hr
        rw [show n.role = _ from hr] at hrole
        cases hrole
      leads := by
        intro hr
        rw [show n.role = _ from hr] at hrole
        cases hrole
      records := by
        show Log.Holds n.snapshotIndex (n.log.appended _).entries ((s.accept i ℓ').log i)
        rw [hlog]
        exact hrec.appended hS' (by simp) hps
      chained := Log.Chained.appended hc.chained hc.logShard
      file := by
        show k.log ++ _ = n.log.entries ++ _
        rw [show k.log = n.log.entries from hc.file]
      anchored := hc.anchored.evolves hx (Nat.le_refl _)
      calls := fun call h => (hc.calls call h).evolves hx }
  refine ⟨_, _, _, rfl, .moved hok hm (Nat.le_refl _), rfl, hrole, rfl, rfl, by rwa [hlog], ?_⟩
  have hent : (n.log.appended (es.map Host.pendingOf)).entries ≠ [] := by
    have hst := Log.length_stage n.log.shard n.log.prevHashForNext (es.map Host.pendingOf)
    intro h
    rw [Log.appended, List.append_eq_nil_iff] at h
    rw [h.2, List.length_map] at hst
    exact hnil (List.length_eq_zero_iff.1 hst.symm)
  have hrec' : Log.Holds n.snapshotIndex (n.log.appended (es.map Host.pendingOf)).entries
      ((s.accept i ℓ').log i) := hok.records
  have hli := hrec'.lastIndex hent
  have hlen : ℓ'.length = (s.log i).length + es.length := by simp [ℓ']
  rw [hlog, hlen] at hli
  show n.snapshotIndex ≤ (n.log.appended _).lastIndex
  omega

/-- Where the consistency check of a batch may pass: at the start, at the snapshot, or at a record up
to which the logs agree. -/
theorem Replica.Ok.prev_cases (hc : (n.replica k).Ok voters shard s i) (hi : s.Inv voters)
    {prev prevTerm : Nat} (hreign : s.reigns n.hard.currentTerm = some r)
    (hm : n.prevMatches prev prevTerm = true)
    (hp : prev = 0 ∨ prevTerm = 0 ∨ ∃ e, r.log[prev - 1]? = some e ∧ e.term = prevTerm) :
    prev = 0 ∨ prev = n.snapshotIndex ∨
      (n.snapshotIndex < prev ∧ prev ≤ (s.log i).length ∧ (s.log i).take prev <+: r.log) := by
  have hrec : Log.Holds n.snapshotIndex n.log.entries (s.log i) := hc.records
  simp only [Node.prevMatches, Node.localTerm, Bool.or_eq_true, beq_iff_eq] at hm
  rcases hm with h0 | hm
  · exact .inl h0
  split at hm
  · next hS => exact .inr (.inl hS)
  · obtain ⟨rec, hg, ht⟩ := Option.map_eq_some_iff.1 hm
    obtain ⟨hlt, -, e, he, hsp⟩ := hrec.get_some hg
    obtain ⟨hlen, -⟩ := List.getElem?_eq_some_iff.1 he
    have hterm : e.term = prevTerm := hsp.1.symm.trans ht
    have hpos := hi.tm_pos (hi.traced i) he
    rcases hp with h0 | h0 | ⟨e', he', ht'⟩
    · omega
    · omega
    · have heq := (hi.traced i).take_eq (hi.leads _ r hreign) he he' (hterm.trans ht'.symm)
      rw [show prev - 1 + 1 = prev by omega] at heq
      refine .inr (.inr ⟨hlt, by omega, ?_⟩)
      rw [heq]
      exact List.take_prefix _ _

/-- The node with the log cut from index `start` on. -/
def Node.cutAt (n : Node) (start : Nat) : Node :=
  { n with
    log := n.log.rewritten (n.log.entries.filter fun r => decide (r.index < start))
      n.log.seedHash }

/-- The file of a log cut from index `start` on. -/
def Disk.cutAt (k : Disk) (n : Node) (start : Nat) : Disk :=
  { k with
    log := Log.rechain n.log.shard n.log.seedHash
      (n.log.entries.filter fun r => decide (r.index < start))
    logTmp := [] }

/-- Cutting the log at the first entry of a batch that conflicts. The abstract log keeps what it
shares with the leader's, which ends before that entry. -/
theorem Replica.Ok.cut (hc : (n.replica k).Ok voters shard s i) (hi : s.Inv voters)
    (hreign : s.reigns n.hard.currentTerm = some r) (hrole : n.role = .follower) {prev : Nat}
    {first : LogEntry} {rec : Record} (hS : n.snapshotIndex ≤ prev)
    (hpre : n.snapshotIndex = prev ∨ (s.log i).take prev <+: r.log)
    (hg : n.log.get (prev + 1) = some rec) (hf : r.log[prev]? = some first)
    (hne : first.term ≠ rec.term) :
    ∃ ℓ, (n.replica k).Advances voters shard s i
        ((n.cutAt (prev + 1)).replica (k.cutAt n (prev + 1))) (s.accept i ℓ) ∧
      ℓ <+: r.log ∧ ℓ.length ≤ prev ∧
      (n.snapshotIndex < prev → ℓ.length = prev) := by
  have hrec : Log.Holds n.snapshotIndex n.log.entries (s.log i) := hc.records
  have hterm : s.term i = n.hard.currentTerm := hc.term
  obtain ⟨-, -, e, he, hsp⟩ := hrec.get_some hg
  rw [Nat.add_sub_cancel] at he
  obtain ⟨hlen, -⟩ := List.getElem?_eq_some_iff.1 he
  obtain ⟨ℓ, hℓ, hℓr, hmax⟩ := exists_common_prefix (s.log i) r.log
  -- the two logs have different entries at the conflict
  have hle : ℓ.length ≤ prev := by
    by_contra hlt
    have h1 := prefix_getElem? hℓ (by omega) he
    have h2 := prefix_getElem? hℓr (by omega) hf
    rw [h1] at h2
    cases h2
    exact hne hsp.1.symm
  have hfull : n.snapshotIndex < prev → ℓ = (s.log i).take prev := by
    intro hlt
    have htake := hmax _ (List.take_prefix prev _) (hpre.resolve_left (by omega))
    have hl : ((s.log i).take prev).length = prev := by
      simp only [List.length_take]
      omega
    exact (htake.eq_of_length (by have := htake.length_le; omega)).symm
  have hm : Replicas.Step (electorate voters) LogEntry.term s i (s.accept i ℓ) :=
    .accept (hterm ▸ hreign) hℓr hmax
  have hx := hm.evolves hi
  have hlog : (s.accept i ℓ).log i = ℓ := Function.update_self _ _ _
  refine ⟨ℓ, .moved ?_ hm (Nat.le_refl _), hℓr, hle, fun hlt => ?_⟩
  · exact { hc with
      stands := by
        intro hr
        rw [show n.role = _ from hr] at hrole
        cases hrole
      leads := by
        intro hr
        rw [show n.role = _ from hr] at hrole
        cases hrole
      records := by
        show Log.Holds n.snapshotIndex (Log.rechain _ _ _) ((s.accept i ℓ).log i)
        rw [hlog, hrec.indexed.filter_lt]
        refine Log.Holds.rechain ?_ _ _
        rcases Nat.lt_or_ge n.snapshotIndex prev with hlt | hge
        · rw [hfull hlt]
          exact hrec.take (prev + 1)
        · rw [show prev + 1 - (n.snapshotIndex + 1) = 0 by omega, List.take_zero]
          exact Log.holds_nil (hle.trans hge)
      chained := Log.Chained.rewritten hc.chained hc.logShard fun _ hr => List.mem_of_mem_filter hr
      file := rfl
      anchored := hc.anchored.evolves hx (Nat.le_refl _)
      calls := fun call h => (hc.calls call h).evolves hx }
  · rw [hfull hlt]
    simp only [List.length_take]
    omega

/-- A follower acknowledges a prefix of the leader's log that it holds. -/
theorem Replica.Ok.ack (hc : (n.replica k).Ok voters shard s i) (hi : s.Inv voters)
    (hreign : s.reigns n.hard.currentTerm = some r) (hp : s.log i <+: r.log) :
    ∃ s', (n.replica k).Advances voters shard s i (n.replica k) s' ∧
      (s.log i).length ≤ s'.acked i n.hard.currentTerm := by
  have hterm : s.term i = n.hard.currentTerm := hc.term
  have hm : Replicas.Step (electorate voters) LogEntry.term s i (s.ack i (s.log i).length) := by
    refine .ack (hterm ▸ hreign) hp.length_le ?_
    rw [← List.prefix_iff_eq_take.1 hp]
  have hx := hm.evolves hi
  refine ⟨_, .moved ?_ hm (Nat.le_refl _), ?_⟩
  · exact { hc with
      leads := fun hr =>
        ⟨(hc.leads hr).reign, fun v m hv => ((hc.leads hr).holding v m hv).evolves hx⟩
      anchored := hc.anchored.evolves hx (Nat.le_refl _)
      calls := fun call h => (hc.calls call h).evolves hx }
  · rw [← hterm]
    exact (Nat.le_max_right _ _).trans (Nat.le_of_eq (update₂_self _ _ _ _).symm)

/-- The follower's commit index moves up to what the leader knows of the log they share. -/
theorem Replica.Ok.followCommit (hc : (n.replica k).Ok voters shard s i) (hi : s.Inv voters)
    {commit : Nat} (hk : s.Knows n.hard.currentTerm r.log commit)
    (hp : n.log.entries = [] ∨ s.log i <+: r.log) :
    ∃ s', (n.replica k).Advances voters shard s i ((Host.followCommit commit n).replica k) s' ∧
      s'.reigns = s.reigns ∧ s'.log = s.log := by
  have hrec : Log.Holds n.snapshotIndex n.log.entries (s.log i) := hc.records
  unfold Host.followCommit
  simp only
  split
  · next hlt =>
    have hne : n.log.entries ≠ [] := by
      intro h
      have := Log.lastIndex_nil h
      omega
    have hli := hrec.lastIndex hne
    have hk' : s.Knows n.hard.currentTerm (s.log i) (min commit n.log.lastIndex) :=
      (hk.le (Nat.min_le_left _ _)).shorten (hp.resolve_left hne) (by omega)
    have ha := hc.learn hi hk' (Nat.le_of_lt hlt)
    have hi' := (ha.moves.inv hi).1
    obtain ⟨_, _, _, hf⟩ := (n.commitTo (min commit n.log.lastIndex)).applyCommitted_frame
    refine ⟨_, ha.trans (.still (ha.ok.applyCommitted hi') ?_), rfl, rfl⟩
    rw [hf]
    rfl
  · exact ⟨s, .still hc (Nat.le_refl _), rfl, rfl⟩

theorem followCommit_frame (commit : Nat) (n : Node) :
    ∃ commitIndex sm results calls,
      Host.followCommit commit n = { n with commitIndex, sm, results, calls } := by
  unfold Host.followCommit
  simp only
  split
  · obtain ⟨sm, results, calls, h⟩ := (n.commitTo (min commit n.log.lastIndex)).applyCommitted_frame
    exact ⟨_, sm, results, calls, h⟩
  · exact ⟨n.commitIndex, n.sm, n.results, n.calls, rfl⟩

/-- Committing and answering, once the log is a prefix of the leader's or has no records. -/
theorem Replica.Ok.answer (hc : (n.replica k).Ok voters shard s i) (hi : s.Inv voters)
    (hmem : i ∈ voters) (hreign : s.reigns n.hard.currentTerm = some r) {commit : Nat}
    (hk : s.Knows n.hard.currentTerm r.log commit)
    (hp : n.log.entries = [] ∨ s.log i <+: r.log) (dest : String) (now echoMs : Nat) :
    ∃ s', (n.replica k).Advances voters shard s i ((Host.followCommit commit n).replica k) s' ∧
      (Host.appendResp (Host.followCommit commit n) dest true
        (Host.followCommit commit n).log.lastIndex none now echoMs).msg.Carries voters s' := by
  have hrec : Log.Holds n.snapshotIndex n.log.entries (s.log i) := hc.records
  obtain ⟨s1, ha1, hr1, hl1⟩ := hc.followCommit hi hk hp
  have hi1 := (ha1.moves.inv hi).1
  obtain ⟨_, _, _, _, hf⟩ := followCommit_frame commit n
  have hid : n.cfg.nodeId = i := hc.nodeId
  have hcarry : ∀ s' : Copies, n.log.lastIndex ≤ s'.acked i n.hard.currentTerm →
      (Host.appendResp (Host.followCommit commit n) dest true
        (Host.followCommit commit n).log.lastIndex none now echoMs).msg.Carries voters s' := by
    intro s' hle
    rw [hf]
    show n.cfg.nodeId ∈ voters ∧ n.log.lastIndex ≤ s'.acked n.cfg.nodeId n.hard.currentTerm
    rw [hid]
    exact ⟨hmem, hle⟩
  by_cases hne : n.log.entries = []
  · refine ⟨s1, ha1, hcarry s1 ?_⟩
    rw [Log.lastIndex_nil hne]
    exact Nat.zero_le _
  · obtain ⟨s2, ha2, hack⟩ := ha1.ok.ack hi1 (r := r) (by rw [hf, hr1]; exact hreign)
      (by rw [hl1]; exact hp.resolve_left hne)
    refine ⟨s2, ha1.trans ha2, hcarry s2 ?_⟩
    rw [hl1, hf] at hack
    rw [hrec.lastIndex hne]
    exact hack

/-- What handling a message leaves: moves, and messages that agree with the history after them. -/
def Yields (voters : List String) (shard : Nat) (s : Copies) (i : String) (c : Replica)
    (out : List Outbound) (c' : Replica) : Prop :=
  ∃ s', c.Advances voters shard s i c' s' ∧ ∀ o ∈ out, o.msg.Carries voters s'

theorem Yields.after {c c' c'' : Replica} {out : List Outbound} {s' : Copies}
    (ha : c.Advances voters shard s i c' s') (hy : Yields voters shard s' i c' out c'') :
    Yields voters shard s i c out c'' := by
  obtain ⟨s'', ha', hout⟩ := hy
  exact ⟨s'', ha.trans ha', hout⟩

/-- Nothing is sent, and the replica is the old one. -/
theorem Yields.silent {c : Replica} (hc : c.Ok voters shard s i) :
    Yields voters shard s i c [] c :=
  ⟨s, .still hc (Nat.le_refl _), by simp⟩

omit [SerdeJson] in
theorem Host.exec_appendMissing_nil (h : Host) : exec (Host.appendMissing []) h = (.ok (), h) := rfl

omit [SerdeJson] in
/-- A batch whose first entry is missing and does not continue the log is refused. -/
theorem Host.exec_appendMissing_gap {first : EntryMeta} {rest : List EntryMeta} (st : Store)
    (now : Nat) (hg : n.log.get first.index = none) (hne : first.index ≠ n.log.lastIndex + 1) :
    ∃ e, exec (Host.appendMissing (first :: rest)) ⟨n, st, now⟩ =
      (.error e, ⟨{ n with fsyncOk := false }, st, now⟩) := by
  unfold Host.appendMissing
  have hf : ((first :: rest).filter fun e => (n.log.get e.index).isNone) =
      first :: rest.filter fun e => (n.log.get e.index).isNone :=
    List.filter_cons_of_pos (by simp [hg])
  rw [exec_get_bind, hf, List.map_cons, if_neg (by simp)]
  refine exec_appendBatch_gap (g := (n.log.lastIndex + 1, first.index)) (by simp) ?_
  exact if_pos hne

/-- How a follower stands to a batch once the conflict check is over. -/
inductive Node.Ready (s : Copies) (i : String) (n : Node) (r : Reign String LogEntry) (prev : Nat) :
    List EntryMeta → Prop
  /-- it will refuse the batch -/
  | gap {first : EntryMeta} {rest : List EntryMeta} (hg : n.log.get first.index = none)
      (hne : first.index ≠ n.log.lastIndex + 1) : Ready s i n r prev (first :: rest)
  /-- there is nothing to append -/
  | nothing (hp : n.log.entries = [] ∨ s.log i <+: r.log) : Ready s i n r prev []
  /-- it will append what is missing -/
  | extends {entries : List EntryMeta} (hp : s.log i <+: r.log) (he : n.EndKnown)
      (hS : n.snapshotIndex ≤ prev) (hle : prev ≤ (s.log i).length) : Ready s i n r prev entries

/-- Appending, committing and answering. -/
theorem Replica.Ok.appendAndAnswer (hc : (n.replica k).Ok voters shard s i) (hi : s.Inv voters)
    (hmem : i ∈ voters) (hreign : s.reigns n.hard.currentTerm = some r) (hrole : n.role = .follower)
    {prev commit senderMs : Nat} {entries : List EntryMeta} {leader : String}
    (hb : BatchOf r.log prev entries) (hk : s.Knows n.hard.currentTerm r.log commit)
    (hready : n.Ready s i r prev entries) {res : Except HaError (List Outbound)} {h' : Host}
    (hx : exec (Host.appendAndAnswer leader entries commit senderMs) ⟨n, ⟨k, Faults.none⟩, now⟩ =
      (res, h')) :
    Yields voters shard s i (n.replica k) (Host.outputs res) h'.replica := by
  unfold Host.appendAndAnswer at hx
  cases hready with
  | gap hg hne =>
    obtain ⟨e, he⟩ := Host.exec_appendMissing_gap ⟨k, Faults.none⟩ now hg hne
    rw [exec_bind_error he] at hx
    cases hx
    exact .silent hc
  | nothing hp =>
    rw [exec_bind_ok (Host.exec_appendMissing_nil _), Host.exec_modifyNode_bind] at hx
    cases hx
    obtain ⟨s', ha, hcar⟩ := hc.answer hi hmem hreign hk hp leader now senderMs
    exact ⟨s', ha, by simpa [Host.outputs] using hcar⟩
  | «extends» hp he hS hle =>
    obtain ⟨n1, k1, s1, hx1, ha1, hhard, hrole1, -, hreigns, hp1, he1⟩ :=
      hc.appendMissing hi hreign hrole hp he hb hS hle now
    have hi1 := (ha1.moves.inv hi).1
    rw [exec_bind_ok hx1, Host.exec_modifyNode_bind] at hx
    cases hx
    have hreign1 : s1.reigns n1.hard.currentTerm = some r := by rw [hhard, hreigns, hreign]
    have hk1 : s1.Knows n1.hard.currentTerm r.log commit := by
      rw [hhard]
      exact hi.knows_evolves (ha1.moves.inv hi).2 hk (Nat.le_refl _) (List.prefix_refl _)
    obtain ⟨s', ha, hcar⟩ := ha1.ok.answer hi1 hmem hreign1 hk1 (.inr hp1) leader now senderMs
    exact ⟨s', ha1.trans ha, by simpa [Host.outputs] using hcar⟩

/-- A follower whose records above `prev` are all the leader's has a prefix of the leader's log. -/
theorem Replica.Ok.prefix_of_kept (hc : (n.replica k).Ok voters shard s i) (hi : s.Inv voters)
    (hreign : s.reigns n.hard.currentTerm = some r) {prev : Nat} (hne : n.log.entries ≠ [])
    (hprev : prev = 0 ∨ prev = n.snapshotIndex ∨
      (n.snapshotIndex < prev ∧ prev ≤ (s.log i).length ∧ (s.log i).take prev <+: r.log))
    (hkeep : ∀ rec ∈ n.log.entries, prev < rec.index →
      ∃ e, r.log[rec.index - 1]? = some e ∧ e.term = rec.term) : s.log i <+: r.log := by
  have hrec : Log.Holds n.snapshotIndex n.log.entries (s.log i) := hc.records
  have hlen := hrec.length
  have hpos := List.length_pos_iff.2 hne
  rcases Nat.lt_or_ge prev (s.log i).length with hlt | hge
  · -- the last record is the leader's, and with it all before
    have hlast : n.log.entries[n.log.entries.length - 1]? = some (n.log.entries.getLast hne) := by
      rw [← List.getLast?_eq_getElem?, List.getLast?_eq_some_getLast hne]
    have hidx := hrec.indexed _ _ hlast
    obtain ⟨e, he, hsp⟩ := hrec.spells _ _ hlast
    obtain ⟨e', he', ht⟩ := hkeep _ (List.getLast_mem hne) (by omega)
    rw [show n.snapshotIndex + (n.log.entries.length - 1) = (s.log i).length - 1 by omega] at he
    rw [show (n.log.entries.getLast hne).index - 1 = (s.log i).length - 1 by omega] at he'
    have heq := (hi.traced i).take_eq (hi.leads _ r hreign) he he' (hsp.1.symm.trans ht.symm)
    rw [show (s.log i).length - 1 + 1 = (s.log i).length by omega, List.take_length] at heq
    rw [heq]
    exact List.take_prefix _ _
  · rcases hprev with h | h | ⟨-, -, htake⟩
    · omega
    · omega
    · rwa [List.take_of_length_le hge] at htake

/-- Without a conflict the follower is ready for the batch. -/
theorem Replica.Ok.ready_of_kept (hc : (n.replica k).Ok voters shard s i) (hi : s.Inv voters)
    (hreign : s.reigns n.hard.currentTerm = some r) {prev : Nat} {entries : List EntryMeta}
    (hb : BatchOf r.log prev entries)
    (hprev : prev = 0 ∨ prev = n.snapshotIndex ∨
      (n.snapshotIndex < prev ∧ prev ≤ (s.log i).length ∧ (s.log i).take prev <+: r.log))
    (hend : prev = 0 → entries ≠ [] → n.EndKnown)
    (hkeep : n.snapshotIndex ≤ prev ∨ entries = [] → ∀ rec ∈ n.log.entries, prev < rec.index →
      ∃ e, r.log[rec.index - 1]? = some e ∧ e.term = rec.term) :
    n.Ready s i r prev entries := by
  have hrec : Log.Holds n.snapshotIndex n.log.entries (s.log i) := hc.records
  have hlen := hrec.length
  cases entries with
  | nil =>
    by_cases hne : n.log.entries = []
    · exact .nothing (.inl hne)
    · exact .nothing (.inr (hc.prefix_of_kept hi hreign hne hprev (hkeep (.inr rfl))))
  | cons first rest =>
    have hfirst : first.index = prev + 1 := by simpa using hb.numbered 0 first rfl
    have hget : ∀ idx, idx ≤ n.snapshotIndex ∨ (s.log i).length < idx → n.log.get idx = none := by
      intro idx hidx
      cases hg : n.log.get idx with
      | none => rfl
      | some rec =>
        obtain ⟨hS, -, e, he, -⟩ := hrec.get_some hg
        obtain ⟨hlt, -⟩ := List.getElem?_eq_some_iff.1 he
        omega
    by_cases hne : n.log.entries = []
    · rw [hne, List.length_nil] at hlen
      rcases Nat.eq_zero_or_pos prev with h0 | hpos
      · -- the end of the log is known, so there is no snapshot either
        have he := hend h0 (by simp)
        have he' : n.snapshotIndex ≤ 0 := (Log.lastIndex_nil hne) ▸ he
        refine .extends ?_ he (by omega) (by omega)
        rw [List.eq_nil_of_length_eq_zero (show (s.log i).length = 0 by omega)]
        exact List.nil_prefix
      · refine .gap (hget _ (by omega)) ?_
        rw [Log.lastIndex_nil hne]
        omega
    · have hpos := List.length_pos_iff.2 hne
      have hli := hrec.lastIndex hne
      rcases Nat.lt_or_ge prev n.snapshotIndex with hlt | hge
      · exact .gap (hget _ (by omega)) (by omega)
      · have hp := hc.prefix_of_kept hi hreign hne hprev (hkeep (.inl hge))
        refine .extends hp ?_ hge (by omega)
        show n.snapshotIndex ≤ n.log.lastIndex
        omega

/-- After a cut the follower is ready for the batch. -/
theorem Replica.Ok.ready_of_cut {first : EntryMeta} {rest : List EntryMeta} {prev : Nat}
    {ℓ : List LogEntry} (hc : (n.replica k).Ok voters shard s i) (hlog : s.log i = ℓ)
    (hfirst : first.index = prev + 1) (hS : n.snapshotIndex ≤ prev)
    (hp : ℓ <+: r.log) (hle : ℓ.length ≤ prev)
    (hfull : n.snapshotIndex < prev → ℓ.length = prev) :
    n.Ready s i r prev (first :: rest) := by
  subst hlog
  have hrec : Log.Holds n.snapshotIndex n.log.entries (s.log i) := hc.records
  have hlen := hrec.length
  by_cases hcase : n.snapshotIndex < prev ∨ prev = 0
  · refine .extends hp ?_ hS (by omega)
    show n.snapshotIndex ≤ n.log.lastIndex
    by_cases hne : n.log.entries = []
    · rw [hne, List.length_nil] at hlen
      omega
    · have := hrec.lastIndex hne
      omega
  · -- the cut has emptied a compacted log
    have hne : n.log.entries = [] := List.eq_nil_of_length_eq_zero (by omega)
    refine .gap ?_ ?_
    · cases hg : n.log.get first.index with
      | none => rfl
      | some rec =>
        obtain ⟨-, -, e, he, -⟩ := hrec.get_some hg
        obtain ⟨hlt, -⟩ := List.getElem?_eq_some_iff.1 he
        omega
    · rw [Log.lastIndex_nil hne]
      omega

omit [SerdeJson] in
/-- The conflict check when there is a conflict. -/
theorem Host.exec_cutConflict {first : EntryMeta} {rest : List EntryMeta} {t : Nat}
    (ht : n.log.termAt first.index = some t) (hne : first.term ≠ t)
    (hle : first.index ≤ n.log.lastIndex) :
    exec (cutConflict (first :: rest)) ⟨n, ⟨k, Faults.none⟩, now⟩ =
      (.ok (), ⟨n.cutAt first.index, ⟨k.cutAt n first.index, Faults.none⟩, now⟩) := by
  unfold cutConflict
  rw [exec_get_bind]
  simp only [ht]
  rw [if_pos hne]
  refine exec_onLog_ok ?_
  unfold Log.truncateSuffix
  rw [if_neg (by omega)]
  exact Log.exec_rewrite_none _ _ _ _

omit [SerdeJson] in
/-- The conflict check when there is none. -/
theorem Host.exec_cutConflict_none {entries : List EntryMeta}
    (hf : n.firstConflicts entries = false) (st : Store) :
    exec (cutConflict entries) ⟨n, st, now⟩ = (.ok (), ⟨n, st, now⟩) := by
  cases entries with
  | nil => rfl
  | cons first rest =>
    unfold cutConflict
    rw [exec_get_bind]
    simp only [Node.firstConflicts] at hf
    cases ht : n.log.termAt first.index with
    | none => rfl
    | some t =>
      rw [ht] at hf
      simp only [decide_eq_false_iff_not, not_not] at hf
      simp only [if_neg (not_not.2 hf), exec_pure]

/-- A batch of the leader of the term, at a follower in that term. -/
theorem Replica.Ok.takeEntries (hc : (n.replica k).Ok voters shard s i) (hi : s.Inv voters)
    (hmem : i ∈ voters) (hrole : n.role = .follower)
    (hreign : s.reigns n.hard.currentTerm = some r) {prev prevTerm commit senderMs : Nat}
    {entries : List EntryMeta} {leader : String}
    (hp : prev = 0 ∨ prevTerm = 0 ∨ ∃ e, r.log[prev - 1]? = some e ∧ e.term = prevTerm)
    (hb : BatchOf r.log prev entries) (hk : s.Knows n.hard.currentTerm r.log commit)
    (hend : prev = 0 → entries ≠ [] → n.EndKnown)
    (hkeep : ∀ rec ∈ n.keeps prev prevTerm entries,
      ∃ e, r.log[rec.index - 1]? = some e ∧ e.term = rec.term)
    {res : Except HaError (List Outbound)} {h' : Host}
    (hx : exec (Host.takeEntries leader prev prevTerm entries commit senderMs)
      ⟨n, ⟨k, Faults.none⟩, now⟩ = (res, h')) :
    Yields voters shard s i (n.replica k) (Host.outputs res) h'.replica := by
  have hrec : Log.Holds n.snapshotIndex n.log.entries (s.log i) := hc.records
  unfold Host.takeEntries at hx
  rw [exec_get_bind, exec_ite] at hx
  split at hx
  · cases hx
    exact ⟨s, .still hc (Nat.le_refl _), by simp [Host.outputs, Host.appendResp, Message.Carries]⟩
  next hm =>
  rw [Bool.not_eq_false] at hm
  have hprev := hc.prev_cases hi hreign hm hp
  cases hf : n.firstConflicts entries with
  | false =>
    rw [exec_bind_ok (Host.exec_cutConflict_none hf _)] at hx
    refine hc.appendAndAnswer hi hmem hreign hrole hb hk
      (hc.ready_of_kept hi hreign hb hprev hend fun hcase rec hrec hlt => hkeep rec ?_) hx
    rw [Node.keeps, if_pos ⟨hm, hf, hcase⟩]
    exact List.mem_filter.2 ⟨hrec, by simpa using hlt⟩
  | true =>
    cases entries with
    | nil => cases hf
    | cons first rest =>
      have hfirst : first.index = prev + 1 := by simpa using hb.numbered 0 first rfl
      have hshown : r.log[prev]? = some first.entry := by simpa using hb.getElem? (j := 0) rfl
      simp only [Node.firstConflicts] at hf
      cases ht : n.log.termAt first.index with
      | none =>
        rw [ht] at hf
        cases hf
      | some t =>
        rw [ht] at hf
        simp only [decide_eq_true_eq] at hf
        obtain ⟨rec, hg, hrt⟩ := Option.map_eq_some_iff.1 ht
        obtain ⟨hS, -, e, he, -⟩ := hrec.get_some hg
        obtain ⟨hlt, -⟩ := List.getElem?_eq_some_iff.1 he
        have hlen := hrec.length
        have hne : n.log.entries ≠ [] := by
          intro h
          rw [h, List.length_nil] at hlen
          omega
        have hli := hrec.lastIndex hne
        rw [exec_bind_ok (Host.exec_cutConflict ht hf (by omega))] at hx
        rw [hfirst] at hx hg
        have hpre : n.snapshotIndex = prev ∨ (s.log i).take prev <+: r.log := by
          rcases hprev with h0 | hS | ⟨-, -, htake⟩
          · exact .inr (by rw [h0, List.take_zero]; exact List.nil_prefix)
          · exact .inl hS.symm
          · exact .inr htake
        obtain ⟨ℓ, ha, hℓ, hle, hfull⟩ := hc.cut hi hreign hrole (by omega) hpre hg hshown
          (by rw [hrt]; exact hf)
        have hi1 := (ha.moves.inv hi).1
        have hlog : (s.accept i ℓ).log i = ℓ := Function.update_self _ _ _
        exact .after ha (ha.ok.appendAndAnswer hi1 hmem hreign hrole hb hk
          (ha.ok.ready_of_cut hlog hfirst (show n.snapshotIndex ≤ prev by omega) hℓ hle hfull) hx)

/-! ## Compaction -/

omit [SerdeJson] in
/-- Saving a snapshot without faults. -/
theorem Snapshot.exec_save_none (f : SnapshotFile) (k : Disk) :
    ∃ k', exec (Snapshot.save f) ⟨k, Faults.none⟩ = (.ok (), ⟨k', Faults.none⟩) ∧
      k'.snapshot = some f ∧ k'.log = k.log ∧ k'.hardState = k.hardState := by
  unfold Snapshot.save
  simp only [exec_fileOp_bind_none, exec_get_bind, id, exec_ite]
  split
  · simp only [exec_fileOp_none]
    exact ⟨_, rfl, rfl, rfl, rfl⟩
  · simp only [exec_fileOp_none]
    exact ⟨_, rfl, rfl, rfl, rfl⟩

/-- The node with its log compacted to a snapshot. -/
def Node.compactedTo (n : Node) (f : SnapshotFile) : Node :=
  { n.snapshotAt f.lastIncludedIndex f.lastIncludedTerm with
    log := n.log.rewritten (n.log.entries.filter fun r => decide (f.lastIncludedIndex < r.index))
      f.seedBytes }

/-- The files of a log compacted to a snapshot. -/
def Disk.compactedTo (k : Disk) (n : Node) (f : SnapshotFile) : Disk :=
  { k with
    log := Log.rechain n.log.shard f.seedBytes
      (n.log.entries.filter fun r => decide (f.lastIncludedIndex < r.index))
    logTmp := [] }

/-- Compacting the log to a snapshot of settled entries, from which the state machine goes on. -/
theorem Replica.Ok.compact (hc : (n.replica k).Ok voters shard s i) {f : SnapshotFile}
    (hf : f.Ok s n.hard.currentTerm) (hS : n.snapshotIndex ≤ f.lastIncludedIndex) {k' : Disk}
    (hsnap : k'.snapshot = some f) (hhard : k'.hardState = k.hardState) {sm : StateMachine}
    {commit : Nat} (hsm : f.lastIncludedIndex ≤ sm.appliedIndex ∧ sm.appliedIndex ≤ commit)
    (hcom : commit = max n.commitIndex f.lastIncludedIndex) :
    (n.replica k).Advances voters shard s i
      (({ n.compactedTo f with sm, commitIndex := commit } : Node).replica (k'.compactedTo n f))
      s := by
  have hrec : Log.Holds n.snapshotIndex n.log.entries (s.log i) := hc.records
  have hold : n.commitIndex ≤ max n.snapshotIndex (s.known i) := hc.committed
  refine .still ?_ hS
  exact { hc with
    saved := by
      show k'.hardState.getD HardState.default = n.hard
      rw [hhard]
      exact hc.saved
    leads := fun hr => ⟨(hc.leads hr).reign, (hc.leads hr).holding⟩
    records := by
      show Log.Holds f.lastIncludedIndex (Log.rechain _ _ _) (s.log i)
      rw [hrec.indexed.filter_gt]
      exact (hrec.drop hS).rechain _ _
    chained := Log.Chained.rewritten hc.chained hc.logShard fun _ hr => List.mem_of_mem_filter hr
    file := rfl
    anchored := .inr ⟨f, hsnap, hf, rfl, rfl, rfl⟩
    applied := hsm
    committed := by
      show commit ≤ max f.lastIncludedIndex (s.known i)
      omega }

/-- `maybe_snapshot` is no move of the log. -/
theorem Replica.Ok.maybeSnapshot (hc : (n.replica k).Ok voters shard s i) (hi : s.Inv voters)
    {res : Except HaError Bool} {h' : Host}
    (hx : exec Host.maybeSnapshot ⟨n, ⟨k, Faults.none⟩, now⟩ = (res, h')) :
    (n.replica k).Advances voters shard s i h'.replica s := by
  have hrec : Log.Holds n.snapshotIndex n.log.entries (s.log i) := hc.records
  have happ : n.snapshotIndex ≤ n.sm.appliedIndex ∧ n.sm.appliedIndex ≤ n.commitIndex := hc.applied
  have hcom : n.commitIndex ≤ max n.snapshotIndex (s.known i) := hc.committed
  unfold Host.maybeSnapshot at hx
  rw [exec_get_bind] at hx
  simp only [exec_ite] at hx
  split at hx
  · cases hx
    exact .still hc (Nat.le_refl _)
  split at hx
  · cases hx
    exact .still hc (Nat.le_refl _)
  next hgo =>
  have hlt : n.snapshotIndex < n.sm.appliedIndex := by
    rw [not_or, not_le] at hgo
    exact hgo.2
  -- the entry at the applied index is settled, and its record is still there
  have hk := hi.known i
  rw [hc.term] at hk
  have hpos : 0 < n.sm.appliedIndex := by omega
  obtain ⟨e, he, hset⟩ := hi.exists_settled hk hpos (by omega)
  obtain ⟨rec, hg, hsp⟩ := hrec.get_of_entry hlt he
  have ht : n.log.termAt n.sm.appliedIndex = some e.term := by
    rw [Log.termAt, hg, ← hsp.1]
    rfl
  rw [ht, Option.getD_some] at hx
  generalize hf : SnapshotFile.new n.cfg.shard n.sm.appliedIndex e.term n.sm.configEpoch
    n.sm.toJson = f at hx
  have hidx : f.lastIncludedIndex = n.sm.appliedIndex := by rw [← hf]; rfl
  have hterm : f.lastIncludedTerm = e.term := by rw [← hf]; rfl
  have hok : f.Ok s n.hard.currentTerm := by
    refine ⟨by rw [← hf, SnapshotFile.verify_new], ?_, e, by rw [hidx]; exact hset, hterm.symm⟩
    refine ⟨{ n.sm with auditTailCap := 2000 }, ?_, by rw [hidx]⟩
    rw [← hf]
    exact StateMachine.fromJson_toJson n.sm
  obtain ⟨k', hsave, h1, -, h3⟩ := Snapshot.exec_save_none f k
  have hsave' : exec (Host.onStore (Snapshot.save f)) ⟨n, ⟨k, Faults.none⟩, now⟩ =
      (.ok (), ⟨n, ⟨k', Faults.none⟩, now⟩) := by
    rw [Host.exec_onStore, hsave]
  have hsync : exec (Host.onStore Log.sync) ⟨n, ⟨k, Faults.none⟩, now⟩ =
      (.ok (), ⟨n, ⟨k, Faults.none⟩, now⟩) := rfl
  have hcut : exec (Host.onLog fun l => l.compactUpto n.sm.appliedIndex f.seedBytes)
      ⟨n, ⟨k', Faults.none⟩, now⟩ = (.ok (), _) :=
    Host.exec_onLog_ok (Log.exec_rewrite_none _ _ _ _)
  rw [exec_bind_ok hsync, exec_bind_ok hsave', exec_bind_ok hcut, Host.exec_modifyNode_bind] at hx
  cases hx
  rw [← hidx, ← hterm]
  have hsm : f.lastIncludedIndex ≤ n.sm.appliedIndex ∧ n.sm.appliedIndex ≤ n.commitIndex := by omega
  have hmax : n.commitIndex = max n.commitIndex f.lastIncludedIndex := by omega
  exact hc.compact hok (by omega) h1 h3 hsm hmax

omit [SerdeJson] in
/-- Installing a snapshot without faults. -/
theorem Host.exec_installSnapshot_none {f : SnapshotFile} {sm : StateMachine} (n : Node) (k : Disk)
    (now : Nat) (hparse : StateMachine.fromJson f.stateJson = .ok sm) :
    ∃ k' : Disk, exec (Host.installSnapshot f) ⟨n, ⟨k, Faults.none⟩, now⟩ =
        (.ok (), ⟨{ n.compactedTo f with sm, commitIndex := max n.commitIndex f.lastIncludedIndex },
          ⟨k'.compactedTo n f, Faults.none⟩, now⟩) ∧
      k'.snapshot = some f ∧ k'.log = k.log ∧ k'.hardState = k.hardState := by
  obtain ⟨k', hsave, h1, h2, h3⟩ := Snapshot.exec_save_none f k
  have hsave' : exec (Host.onStore (Snapshot.save f)) ⟨n, ⟨k, Faults.none⟩, now⟩ =
      (.ok (), ⟨n, ⟨k', Faults.none⟩, now⟩) := by
    rw [Host.exec_onStore, hsave]
  have hcut : exec (Host.onLog fun l => l.compactUpto f.lastIncludedIndex f.seedBytes)
      ⟨{ n with sm }, ⟨k', Faults.none⟩, now⟩ = (.ok (), _) :=
    Host.exec_onLog_ok (Log.exec_rewrite_none _ _ _ _)
  refine ⟨k', ?_, h1, h2, h3⟩
  unfold Host.installSnapshot
  simp only [hparse]
  rw [exec_bind_ok hsave', Host.exec_modifyNode_bind, exec_bind_ok hcut, Host.exec_modifyNode]
  rfl

/-- A snapshot of settled entries, at a node in the term of its leader. -/
theorem Replica.Ok.takeSnapshot (hc : (n.replica k).Ok voters shard s i) (hmem : i ∈ voters)
    {f : SnapshotFile} (hf : f.Ok s n.hard.currentTerm) {leader : String}
    {res : Except HaError (List Outbound)} {h' : Host}
    (hx : exec (Host.takeSnapshot leader (.ofValue f)) ⟨n, ⟨k, Faults.none⟩, now⟩ = (res, h')) :
    Yields voters shard s i (n.replica k) (Host.outputs res) h'.replica := by
  obtain ⟨sm, hparse, hsm⟩ := hf.machine
  have hid : n.cfg.nodeId = i := hc.nodeId
  unfold Host.takeSnapshot at hx
  simp only [JsonText.fromStr, hf.verified, exec_get_bind, exec_ite] at hx
  split at hx
  · next hle =>
    cases hx
    refine ⟨s, .still hc (Nat.le_refl _), ?_⟩
    intro o ho
    rw [List.mem_singleton.1 ho]
    refine ⟨hid ▸ hmem, ?_⟩
    -- the snapshot the node has ends with a settled entry, too
    rcases hc.anchored with ⟨h0, -⟩ | ⟨g, -, hg, hidx, -⟩
    · obtain ⟨e, ⟨hpos, -⟩, -⟩ := hf.settled
      rw [show n.snapshotIndex = 0 from h0] at hle
      omega
    · obtain ⟨e, he, -⟩ := hg.settled
      rw [hidx] at he
      exact ⟨e, he⟩
  · next hlt =>
    obtain ⟨k', hinst, h1, -, h3⟩ := Host.exec_installSnapshot_none n k now hparse
    rw [exec_bind_ok hinst] at hx
    cases hx
    have hcom : f.lastIncludedIndex ≤ sm.appliedIndex ∧
        sm.appliedIndex ≤ max n.commitIndex f.lastIncludedIndex := by omega
    refine ⟨s, hc.compact hf (by omega) h1 h3 hcom rfl, ?_⟩
    intro o ho
    rw [List.mem_singleton.1 ho]
    obtain ⟨e, he, -⟩ := hf.settled
    exact ⟨hid ▸ hmem, e, he⟩

end

end Rdsctl.Ha
