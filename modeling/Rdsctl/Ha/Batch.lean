import Rdsctl.Ha.Reopen
import Rdsctl.Ha.Safety

/-!
# What an accepted batch leaves

A follower that accepts an `AppendEntries` has cut its log where the first entry conflicts, has
appended the entries at whose index it then has no record, and answers and commits up to the end of
its log. `Log.Takes` is this without the file operations; what is said here of the answer and of the
log holds for every follower, whatever its log and its faults.
-/

namespace Rdsctl.Ha

open Fallible

namespace Log

variable {l l' : Log} {entries : List EntryMeta} {a i : Nat}

/-- The first entry of the batch has another term than the record at its index. -/
def firstConflicts (l : Log) : List EntryMeta → Bool
  | [] => false
  | first :: _ =>
    match l.termAt first.index with
    | some t => decide (first.term ≠ t)
    | none => false

/-- The log cut where the first entry conflicts. -/
def cut (l : Log) (entries : List EntryMeta) : Log :=
  match entries with
  | [] => l
  | first :: _ =>
    if l.firstConflicts entries then
      l.rewritten (l.entries.filter fun r => decide (r.index < first.index)) l.seedHash
    else l

/-- The records to append: those of the entries at whose index there is none. -/
def missing (l : Log) (entries : List EntryMeta) : List PendingEntry :=
  (entries.filter fun e => (l.get e.index).isNone).map Host.pendingOf

/-- The log after a batch that was taken. -/
def Takes (l : Log) (entries : List EntryMeta) (l' : Log) : Prop :=
  ((l.cut entries).missing entries = [] ∧ l' = l.cut entries) ∨
    ((l.cut entries).missing entries ≠ [] ∧
      numberingGap ((l.cut entries).lastIndex + 1) ((l.cut entries).missing entries) = none ∧
      l' = (l.cut entries).appended ((l.cut entries).missing entries))

/-- The entries of a batch have the indices from `i` on. -/
def Numbered (i : Nat) (entries : List EntryMeta) : Prop :=
  ∀ j e, entries[j]? = some e → e.index = i + j

theorem Numbered.le {e : EntryMeta} (h : Numbered i entries) (he : e ∈ entries) : i ≤ e.index := by
  obtain ⟨j, hj⟩ := List.getElem?_of_mem he
  have := h j e hj
  omega

theorem cut_of_not_conflicts (h : l.firstConflicts entries = false) : l.cut entries = l := by
  unfold cut
  split
  · rfl
  · rw [if_neg (by rw [h]; exact Bool.false_ne_true)]

/-- What is left of a log whose first entry conflicts: copies of the records below. -/
theorem cut_of_conflicts {first : EntryMeta} {rest : List EntryMeta}
    (h : l.firstConflicts (first :: rest) = true) : l.cut (first :: rest) =
      l.rewritten (l.entries.filter fun r => decide (r.index < first.index)) l.seedHash := by
  simp only [cut]
  rw [if_pos h]

/-- The records that survive the cut, in the order they had, each moved onto another hash. -/
theorem indexed_cut (h : Indexed a l.entries) (entries : List EntryMeta) :
    Indexed a (l.cut entries).entries := by
  unfold cut
  split
  · exact h
  · split
    · rw [rewritten, h.filter_lt]
      exact LogFile.indexed_rechain (LogFile.indexed_take h _) _ _
    · exact h

/-- The record is there after the cut, but for its hash. -/
def Kept (l : Log) (entries : List EntryMeta) (r : Record) : Prop :=
  r ∈ l.entries ∧ ∀ first ∈ entries.head?, l.firstConflicts entries = true → r.index < first.index

theorem exists_mem_rechain {shard : Nat} {prev : Hash} {rs : List Record} {r : Record}
    (hr : r ∈ rs) : ∃ r' ∈ rechain shard prev rs,
      r'.index = r.index ∧ r'.term = r.term ∧ r'.payload = r.payload := by
  induction rs generalizing prev with
  | nil => cases hr
  | cons x xs ih =>
    rw [rechain]
    rcases List.mem_cons.1 hr with rfl | hr
    · exact ⟨_, List.mem_cons_self, rfl, rfl, rfl⟩
    · obtain ⟨r', hr', h⟩ := ih hr
      exact ⟨r', List.mem_cons_of_mem _ hr', h⟩

/-- The records of the cut log are those kept. -/
theorem mem_cut {r' : Record} (h : r' ∈ (l.cut entries).entries) :
    ∃ r, l.Kept entries r ∧ r'.index = r.index ∧ r'.term = r.term ∧ r'.payload = r.payload := by
  cases hc : l.firstConflicts entries with
  | false =>
    rw [cut_of_not_conflicts hc] at h
    exact ⟨r', ⟨h, fun _ _ ht => by rw [hc] at ht; cases ht⟩, rfl, rfl, rfl⟩
  | true =>
    cases entries with
    | nil => cases hc
    | cons first rest =>
      rw [cut_of_conflicts hc] at h
      obtain ⟨j, hj⟩ := List.getElem?_of_mem h
      obtain ⟨r, hr, hi, ht, hp⟩ := getElem?_rechain hj
      obtain ⟨hmem, hlt⟩ := List.mem_filter.1 (List.mem_of_getElem? hr)
      refine ⟨r, ⟨hmem, fun f hf _ => ?_⟩, hi, ht, hp⟩
      cases hf
      simpa using hlt

theorem exists_mem_cut {r : Record} (h : l.Kept entries r) :
    ∃ r' ∈ (l.cut entries).entries,
      r'.index = r.index ∧ r'.term = r.term ∧ r'.payload = r.payload := by
  cases hc : l.firstConflicts entries with
  | false =>
    rw [cut_of_not_conflicts hc]
    exact ⟨r, h.1, rfl, rfl, rfl⟩
  | true =>
    cases entries with
    | nil => cases hc
    | cons first rest =>
      rw [cut_of_conflicts hc]
      exact exists_mem_rechain (List.mem_filter.2 ⟨h.1, by simpa using h.2 first rfl hc⟩)

/-! ## Taking a batch -/

theorem mem_stage {shard : Nat} {prev : Hash} {ps : List PendingEntry} {p : PendingEntry}
    (hp : p ∈ ps) : ∃ r ∈ stage shard prev ps,
      r.index = p.index ∧ r.term = p.term ∧ r.payload = p.payload := by
  induction ps generalizing prev with
  | nil => cases hp
  | cons q qs ih =>
    rw [stage]
    rcases List.mem_cons.1 hp with rfl | hp
    · exact ⟨_, List.mem_cons_self, rfl, rfl, rfl⟩
    · obtain ⟨r, hr, h⟩ := ih hp
      exact ⟨r, List.mem_cons_of_mem _ hr, h⟩

/-- The entries of `missing`. -/
theorem mem_missing {p : PendingEntry} (h : p ∈ l.missing entries) :
    ∃ e ∈ entries, l.get e.index = none ∧ p = Host.pendingOf e := by
  obtain ⟨e, he, rfl⟩ := List.mem_map.1 h
  obtain ⟨hmem, hnone⟩ := List.mem_filter.1 he
  exact ⟨e, hmem, Option.isNone_iff_eq_none.1 hnone, rfl⟩

theorem missing_of_mem {e : EntryMeta} (he : e ∈ entries) (hn : l.get e.index = none) :
    Host.pendingOf e ∈ l.missing entries :=
  List.mem_map.2 ⟨e, List.mem_filter.2 ⟨he, by rw [hn]; rfl⟩, rfl⟩

/-- A log that took a batch is numbered. -/
theorem Takes.indexed (ht : l.Takes entries l') (hl : Indexed a l.entries) :
    ∃ b, Indexed b l'.entries := by
  have hcut := indexed_cut hl entries
  rcases ht with ⟨-, rfl⟩ | ⟨-, hgap, rfl⟩
  · exact ⟨a, hcut⟩
  · have hstage := LogFile.indexed_stage hgap (l.cut entries).shard (l.cut entries).prevHashForNext
    rcases eq_or_ne (l.cut entries).entries [] with hnil | hne
    · refine ⟨(l.cut entries).lastIndex + 1, ?_⟩
      rw [appended, hnil]
      exact hstage
    · rw [LogFile.lastIndex_succ hcut hne] at hstage
      exact ⟨a, LogFile.indexed_append hcut hstage⟩

theorem Takes.of_cut (ht : l.Takes entries l') {r : Record} (hr : r ∈ (l.cut entries).entries) :
    r ∈ l'.entries := by
  rcases ht with ⟨-, rfl⟩ | ⟨-, -, rfl⟩
  · exact hr
  · exact List.mem_append_left _ hr

theorem Takes.of_missing (ht : l.Takes entries l') {e : EntryMeta} (he : e ∈ entries)
    (hn : (l.cut entries).get e.index = none) :
    ∃ r ∈ l'.entries, r.index = e.index ∧ r.term = e.term ∧ r.payload = asBytes e.opJson := by
  have hp := missing_of_mem he hn
  rcases ht with ⟨hnil, -⟩ | ⟨-, -, rfl⟩
  · rw [hnil] at hp
    cases hp
  · obtain ⟨r, hr, h⟩ := mem_stage hp
    exact ⟨r, List.mem_append_right _ hr, h⟩

/-- A record of the new log was kept, or is that of an entry. -/
theorem Takes.mem (ht : l.Takes entries l') {r : Record} (hr : r ∈ l'.entries) :
    r ∈ (l.cut entries).entries ∨ ∃ e ∈ entries, r.index = e.index ∧ r.term = e.term := by
  rcases ht with ⟨-, rfl⟩ | ⟨-, -, rfl⟩
  · exact .inl hr
  · rcases List.mem_append.1 hr with hr | hr
    · exact .inl hr
    · obtain ⟨j, hj⟩ := List.getElem?_of_mem hr
      obtain ⟨p, hp, hi, htm, -⟩ := getElem?_stage hj
      obtain ⟨e, he, -, rfl⟩ := mem_missing (List.mem_of_getElem? hp)
      exact .inr ⟨e, he, hi, htm⟩

/-- After a conflict none of the entries has a record left. -/
theorem get_cut_of_conflicts (hl : Indexed a l.entries) (hn : Numbered i entries)
    (hc : l.firstConflicts entries = true) {e : EntryMeta} (he : e ∈ entries) :
    (l.cut entries).get e.index = none := by
  cases hg : (l.cut entries).get e.index with
  | none => rfl
  | some r' =>
    obtain ⟨hmem, hidx⟩ := (indexed_cut hl entries).get_eq_some_iff.1 hg
    obtain ⟨r, hkept, hi, -⟩ := mem_cut hmem
    cases entries with
    | nil => cases he
    | cons first rest =>
      have hlt := hkept.2 first rfl hc
      have hfirst : first.index = i := hn 0 first rfl
      have := hn.le he
      omega

/-- The log holds a record of every entry of the batch. -/
def HoldsBatch (l : Log) (entries : List EntryMeta) : Prop :=
  ∀ e ∈ entries, ∃ r, l.get e.index = some r ∧ r.term = e.term ∧ r.payload = asBytes e.opJson

instance (l : Log) (entries : List EntryMeta) : Decidable (l.HoldsBatch entries) :=
  decidable_of_iff (∀ e ∈ entries, ((l.get e.index).any fun r =>
      decide (r.term = e.term ∧ r.payload = asBytes e.opJson)) = true) (by
    simp [HoldsBatch, Option.any_eq_true])

/-- What the log has at the indices of the batch is what the batch has there. -/
def AgreesWith (l : Log) (entries : List EntryMeta) : Prop :=
  ∀ e ∈ entries, ∀ r, l.get e.index = some r → r.term = e.term ∧ r.payload = asBytes e.opJson

/-- A log that took a batch holds it, unless it had other records at its indices and the first
entry did not give that away. -/
theorem Takes.holds_iff (ht : l.Takes entries l') (hl : Indexed a l.entries)
    (hn : Numbered i entries) :
    l'.HoldsBatch entries ↔ l.firstConflicts entries = true ∨ l.AgreesWith entries := by
  obtain ⟨b, hl'⟩ := ht.indexed hl
  have hmissing : ∀ e ∈ entries, (l.cut entries).get e.index = none →
      ∃ r, l'.get e.index = some r ∧ r.term = e.term ∧ r.payload = asBytes e.opJson := by
    intro e he hnone
    obtain ⟨r, hr, hi, h⟩ := ht.of_missing he hnone
    exact ⟨r, hl'.get_eq_some_iff.2 ⟨hr, hi⟩, h⟩
  cases hc : l.firstConflicts entries with
  | true =>
    refine ⟨fun _ => .inl rfl, fun _ e he => ?_⟩
    exact hmissing e he (get_cut_of_conflicts hl hn hc he)
  | false =>
    have hcut := cut_of_not_conflicts hc
    have hpresent : ∀ e ∈ entries, ∀ r, l.get e.index = some r → l'.get e.index = some r := by
      intro e he r hr
      obtain ⟨hmem, hi⟩ := hl.get_eq_some_iff.1 hr
      exact hl'.get_eq_some_iff.2 ⟨ht.of_cut (by rw [hcut]; exact hmem), hi⟩
    constructor
    · intro h
      refine .inr fun e he r hr => ?_
      obtain ⟨r', hr', hsame⟩ := h e he
      rw [hpresent e he r hr, Option.some_inj] at hr'
      rw [hr']
      exact hsame
    · rintro (h | h) e he
      · cases h
      · cases hg : l.get e.index with
        | none => exact hmissing e he (by rw [hcut]; exact hg)
        | some r => exact ⟨r, hpresent e he r hg, h e he r hg⟩

/-- A batch that is there already changes nothing. -/
theorem Takes.eq_of_present (ht : l.Takes entries l')
    (hp : ∀ e ∈ entries, l.termAt e.index = some e.term) : l' = l := by
  have hc : l.firstConflicts entries = false := by
    cases entries with
    | nil => rfl
    | cons first rest => simp [firstConflicts, hp first List.mem_cons_self]
  have hcut := cut_of_not_conflicts hc
  rcases ht with ⟨-, rfl⟩ | ⟨hne, -, -⟩
  · exact hcut
  · refine absurd ?_ hne
    rw [hcut, missing, List.map_eq_nil_iff, List.filter_eq_nil_iff]
    intro e he hnone
    have := hp e he
    rw [termAt, Option.isNone_iff_eq_none.1 hnone] at this
    cases this

/-! ## The end of the log -/

theorem Indexed.le_lastIndex (h : Indexed a l.entries) {r : Record} (hr : r ∈ l.entries) :
    r.index ≤ l.lastIndex := by
  have hlast := LogFile.lastIndex_succ h (List.ne_nil_of_mem hr)
  obtain ⟨j, hj⟩ := List.getElem?_of_mem hr
  have hidx := h j r hj
  have hlt := (List.getElem?_eq_some_iff.1 hj).1
  omega

theorem lastIndex_appended {batch : List PendingEntry} (hne : batch ≠ [])
    (hgap : numberingGap (l.lastIndex + 1) batch = none) :
    (l.appended batch).lastIndex = l.lastIndex + batch.length := by
  have hlen := length_stage l.shard l.prevHashForNext batch
  have hpos := List.length_pos_iff.2 hne
  have hst : stage l.shard l.prevHashForNext batch ≠ [] := by
    intro h
    rw [h] at hlen
    simp only [List.length_nil] at hlen
    omega
  have hlast := LogFile.indexed_stage hgap l.shard l.prevHashForNext
    (batch.length - 1) ((stage l.shard l.prevHashForNext batch).getLast hst) (by
      rw [← List.getLast?_eq_some_getLast hst, List.getLast?_eq_getElem?, hlen])
  rw [lastIndex, appended, List.getLast?_append, List.getLast?_eq_some_getLast hst]
  simp only [Option.some_or, Option.map_some, Option.getD_some]
  omega

/-- The index of the last entry. -/
def endOf (entries : List EntryMeta) : Nat := (entries.getLast?.map (·.index)).getD 0

theorem le_endOf (hn : Numbered i entries) {e : EntryMeta} (he : e ∈ entries) :
    e.index ≤ endOf entries := by
  have hne := List.ne_nil_of_mem he
  obtain ⟨j, hj⟩ := List.getElem?_of_mem he
  have hlt := (List.getElem?_eq_some_iff.1 hj).1
  have hlast := hn (entries.length - 1) (entries.getLast hne) (by
    rw [← List.getLast?_eq_getElem?, List.getLast?_eq_some_getLast hne])
  have := hn j e hj
  rw [endOf, List.getLast?_eq_some_getLast hne]
  simp only [Option.map_some, Option.getD_some]
  omega

theorem endOf_mem (hne : entries ≠ []) : ∃ e ∈ entries, e.index = endOf entries := by
  refine ⟨entries.getLast hne, List.getLast_mem hne, ?_⟩
  rw [endOf, List.getLast?_eq_some_getLast hne]
  rfl

/-- Where a log that takes a batch ends: the tail beyond the batch stays when the first entry does
not conflict. -/
def reach (l : Log) (entries : List EntryMeta) : Nat :=
  if l.firstConflicts entries then endOf entries else max l.lastIndex (endOf entries)

theorem Takes.lastIndex_eq (ht : l.Takes entries l') (hl : Indexed a l.entries)
    (hn : Numbered i entries) : l'.lastIndex = l.reach entries := by
  have hcut := indexed_cut hl entries
  rcases ht with ⟨hnil, rfl⟩ | ⟨hne, hgap, rfl⟩
  · have hpresent : ∀ e ∈ entries, (l.cut entries).get e.index ≠ none := by
      intro e he hnone
      have := missing_of_mem he hnone
      rw [hnil] at this
      cases this
    have hc : l.firstConflicts entries = false := by
      cases hc : l.firstConflicts entries with
      | false => rfl
      | true =>
        cases entries with
        | nil => cases hc
        | cons first rest =>
          exact absurd (get_cut_of_conflicts hl hn hc List.mem_cons_self)
            (hpresent first List.mem_cons_self)
    rw [cut_of_not_conflicts hc] at hpresent ⊢
    have hle : endOf entries ≤ l.lastIndex := by
      rcases eq_or_ne entries [] with rfl | hne
      · exact Nat.zero_le _
      · obtain ⟨e, he, hend⟩ := endOf_mem hne
        obtain ⟨r, hr⟩ := Option.ne_none_iff_exists'.1 (hpresent e he)
        obtain ⟨hmem, hi⟩ := hl.get_eq_some_iff.1 hr
        have := hl.le_lastIndex hmem
        omega
    rw [reach, hc, if_neg Bool.false_ne_true, max_eq_left hle]
  · -- the last entry is among the missing ones, and it is the last of them
    rw [lastIndex_appended hne hgap]
    have hnum := numberingGap_eq_none hgap
    have hlen := List.length_pos_iff.2 hne
    obtain ⟨e₁, he₁, -, hp₁⟩ := mem_missing (List.getLast_mem hne)
    have hlast := hnum (((l.cut entries).missing entries).length - 1) _ (by
      rw [← List.getLast?_eq_getElem?, List.getLast?_eq_some_getLast hne])
    rw [hp₁] at hlast
    have hle₁ := le_endOf hn he₁
    have hidx₁ : (Host.pendingOf e₁).index = e₁.index := rfl
    obtain ⟨e, he, hend⟩ := endOf_mem (List.ne_nil_of_mem he₁)
    have hmiss : (l.cut entries).get e.index = none := by
      cases hg : (l.cut entries).get e.index with
      | none => rfl
      | some r =>
        obtain ⟨hmem, hi⟩ := hcut.get_eq_some_iff.1 hg
        have := hcut.le_lastIndex hmem
        omega
    obtain ⟨j, hj⟩ := List.getElem?_of_mem (missing_of_mem he hmiss)
    have hidx := hnum j _ hj
    have hlt := (List.getElem?_eq_some_iff.1 hj).1
    have hidx' : (Host.pendingOf e).index = e.index := rfl
    have heq : (l.cut entries).lastIndex + ((l.cut entries).missing entries).length =
        endOf entries := by omega
    rw [heq, reach]
    split
    · rfl
    · next hc =>
      rw [Bool.not_eq_true] at hc
      rw [cut_of_not_conflicts hc] at hidx
      omega

end Log

/-! ## The handler -/

/-- The match index of an answer that accepts an `AppendEntries`. -/
def Outbound.matched (o : Outbound) : Option Nat :=
  match o.msg with
  | .appendEntriesResp _ _ true matchIndex _ _ _ => some matchIndex
  | _ => none

/-- The log and the commit index stay. -/
def SameLog (h h' : Host) : Prop :=
  h'.node.log = h.node.log ∧ h'.node.commitIndex = h.node.commitIndex

instance : Std.Refl SameLog := ⟨fun _ => ⟨rfl, rfl⟩⟩

instance : IsTrans Host SameLog :=
  ⟨fun _ _ _ hab hbc => ⟨hbc.1.trans hab.1, hbc.2.trans hab.2⟩⟩

namespace Host

theorem exec_onLog_of_ok {f : Log → StoreM Log} {h h' : Host} {u : Unit}
    (hx : exec (onLog f) h = (.ok u, h')) :
    ∃ l, (exec (f h.node.log) h.store).1 = .ok l ∧ h'.node = { h.node with log := l } := by
  unfold onLog at hx
  rw [exec_get_bind, exec_bind, exec_onStore] at hx
  rcases ha : exec (f h.node.log) h.store with ⟨e | l, st⟩
  · rw [ha] at hx
    cases hx
  · rw [ha] at hx
    cases hx
    exact ⟨l, rfl, rfl⟩

theorem exec_cutConflict_of_ok {entries : List EntryMeta} {h h' : Host} {u : Unit} {a : Nat}
    (hl : Log.Indexed a h.node.log.entries) (hx : exec (cutConflict entries) h = (.ok u, h')) :
    h'.node = { h.node with log := h.node.log.cut entries } := by
  cases entries with
  | nil => cases hx; rfl
  | cons first rest =>
    rw [cutConflict, exec_get_bind] at hx
    cases hterm : h.node.log.termAt first.index with
    | none =>
      have hc : h.node.log.firstConflicts (first :: rest) = false := by
        simp [Log.firstConflicts, hterm]
      rw [hterm] at hx
      cases hx
      rw [Log.cut_of_not_conflicts hc]
    | some t =>
      rw [hterm] at hx
      simp only [exec_ite] at hx
      split at hx
      · next hne =>
        have hc : h.node.log.firstConflicts (first :: rest) = true := by
          simp [Log.firstConflicts, hterm, hne]
        obtain ⟨r, hr, -⟩ := Option.map_eq_some_iff.1 hterm
        obtain ⟨hmem, hi⟩ := hl.get_eq_some_iff.1 hr
        have hle := hl.le_lastIndex hmem
        obtain ⟨l, hret, hn⟩ := exec_onLog_of_ok hx
        unfold Log.truncateSuffix at hret
        rw [if_neg (by omega)] at hret
        rw [hn, h.node.log.rewrite_returns _ _ _ _ hret, Log.cut_of_conflicts hc]
      · next heq =>
        have hc : h.node.log.firstConflicts (first :: rest) = false := by
          simp only [ne_eq, not_not] at heq
          simp [Log.firstConflicts, hterm, heq]
        cases hx
        rw [Log.cut_of_not_conflicts hc]

theorem exec_appendMissing_of_ok {entries : List EntryMeta} {h h' : Host} {u : Unit}
    (hx : exec (appendMissing entries) h = (.ok u, h')) :
    h'.node.commitIndex = h.node.commitIndex ∧
      ((h.node.log.missing entries = [] ∧ h'.node.log = h.node.log) ∨
        (h.node.log.missing entries ≠ [] ∧
          Log.numberingGap (h.node.log.lastIndex + 1) (h.node.log.missing entries) = none ∧
          h'.node.log = h.node.log.appended (h.node.log.missing entries))) := by
  rw [appendMissing, exec_get_bind] at hx
  change exec (if (h.node.log.missing entries).isEmpty then _ else
    appendBatch (h.node.log.missing entries)) h = _ at hx
  rw [exec_ite] at hx
  split at hx
  · next hnil =>
    cases hx
    exact ⟨rfl, .inl ⟨List.isEmpty_iff.1 hnil, rfl⟩⟩
  · next hne =>
    have hne' : h.node.log.missing entries ≠ [] := fun h => hne (List.isEmpty_iff.2 h)
    unfold appendBatch at hx
    rw [exec_onError] at hx
    rcases ha : exec (onLog fun l => l.appendBatch (h.node.log.missing entries)) h with ⟨e | v, h₁⟩
    · rw [ha] at hx
      cases hx
    · rw [ha] at hx
      cases hx
      obtain ⟨l, hl, hn⟩ := exec_onLog_of_ok ha
      obtain ⟨hgap, rfl⟩ := h.node.log.appendBatch_returns hne' _ _ hl
      exact ⟨by rw [hn], .inr ⟨hne', hgap, by rw [hn]⟩⟩

theorem becomeFollower_sameLog (term : Nat) (leader : Option String) :
    Respects SameLog (becomeFollower term leader) := by
  have hterm : Respects SameLog (modifyNode fun n => n.inTerm term) := fun _ => ⟨rfl, rfl⟩
  have hretire : Respects SameLog (modifyNode fun n => n.retire leader) := fun _ => ⟨rfl, rfl⟩
  have hpersist : Respects SameLog persistHardState := .bind .get fun _ _ => ⟨rfl, rfl⟩
  refine .bind .get fun h => ?_
  split
  · exact .bind hterm fun _ => .bind hpersist fun _ => hretire
  · exact hretire

theorem observeLeader_sameLog (leader : String) (senderMs peerSkewMs now : Nat) :
    Respects SameLog (modifyNode fun n => n.observeLeader leader senderMs peerSkewMs now) := by
  intro h
  rw [exec_modifyNode]
  unfold Node.observeLeader
  split
  · exact ⟨rfl, rfl⟩
  · obtain ⟨_, hn⟩ := (h.node.acked leader now).observeClock_frame leader senderMs now
    rw [hn]
    exact ⟨rfl, rfl⟩

theorem heard_sameLog (now : Nat) :
    Respects SameLog (modifyNode fun n => (n.heard now).resetElectionDeadline now) := by
  intro h
  obtain ⟨_, _, hn⟩ := (h.node.heard now).resetElectionDeadline_frame now
  rw [exec_modifyNode, hn]
  exact ⟨rfl, rfl⟩

section
variable [SerdeJson]

/-- What a run that accepts the batch leaves, and how far it says the log reaches. -/
def TakesBatch (entries : List EntryMeta) (leaderCommit matchIndex : Nat) (h h' : Host) : Prop :=
  h.node.log.Takes entries h'.node.log ∧
    h'.node.commitIndex = max h.node.commitIndex (min leaderCommit h'.node.log.lastIndex) ∧
    matchIndex = h'.node.log.lastIndex

/-- Every run of `m` over a numbered log that answers with an acceptance takes the batch. -/
def TakesOnAccept (entries : List EntryMeta) (leaderCommit : Nat) (m : HostM (List Outbound)) :
    Prop :=
  ∀ (h h' : Host) (outs : List Outbound) (a : Nat), Log.Indexed a h.node.log.entries →
    exec m h = (.ok outs, h') → ∀ o ∈ outs, ∀ k ∈ o.matched,
      TakesBatch entries leaderCommit k h h'

variable {entries : List EntryMeta} {leaderCommit : Nat}

omit [SerdeJson] in
theorem takesOnAccept_bind {α : Type} {m : HostM α} {f : α → HostM (List Outbound)}
    (hm : Respects SameLog m) (hf : ∀ a, TakesOnAccept entries leaderCommit (f a)) :
    TakesOnAccept entries leaderCommit (m >>= f) := by
  intro h h' outs a hl hx o ho k hk
  have hsame := hm h
  rw [exec_bind] at hx
  rcases hr : exec m h with ⟨e | v, h₁⟩
  · rw [hr] at hx
    cases hx
  · rw [hr] at hx hsame
    have hl₁ : Log.Indexed a h₁.node.log.entries := by rw [hsame.1]; exact hl
    obtain ⟨ht, hc, hk⟩ := hf v h₁ h' outs a hl₁ hx o ho k hk
    exact ⟨hsame.1 ▸ ht, by rw [hc, hsame.2], hk⟩

omit [SerdeJson] in
theorem takesOnAccept_refuse (n : Node) (dest : String) (conflictIndex : Option Nat)
    (now echoMs : Nat) :
    TakesOnAccept entries leaderCommit
      (pure [appendResp n dest false 0 conflictIndex now echoMs]) := by
  intro h h' outs a _ hx o ho k hk
  cases hx
  rw [List.mem_singleton] at ho
  subst ho
  cases hk

theorem followCommit_eq (leaderCommit : Nat) (n : Node) :
    (followCommit leaderCommit n).log = n.log ∧
      (followCommit leaderCommit n).commitIndex =
        max n.commitIndex (min leaderCommit n.log.lastIndex) := by
  unfold followCommit
  simp only
  split
  · next hlt =>
    obtain ⟨sm, results, calls, hframe⟩ :=
      (n.commitTo (min leaderCommit n.log.lastIndex)).applyCommitted_frame
    rw [hframe]
    refine ⟨rfl, ?_⟩
    rw [max_eq_right hlt.le]
    rfl
  · next hle =>
    refine ⟨rfl, ?_⟩
    rw [max_eq_left (by omega)]

theorem takeEntries_takesOnAccept (leader : String) (prevLogIndex prevLogTerm senderMs : Nat) :
    TakesOnAccept entries leaderCommit
      (takeEntries leader prevLogIndex prevLogTerm entries leaderCommit senderMs) := by
  refine takesOnAccept_bind .get fun h₀ => ?_
  split
  · exact takesOnAccept_refuse _ _ _ _ _
  · intro h h' outs a hl hx o ho k hk
    rw [exec_bind] at hx
    rcases hcut : exec (cutConflict entries) h with ⟨e | u, h₁⟩
    · rw [hcut] at hx
      cases hx
    · rw [hcut] at hx
      have hn₁ := exec_cutConflict_of_ok hl hcut
      unfold appendAndAnswer at hx
      simp only at hx
      rw [exec_bind] at hx
      rcases happ : exec (appendMissing entries) h₁ with ⟨e | u, h₂⟩
      · rw [happ] at hx
        cases hx
      · rw [happ] at hx
        obtain ⟨hcommit, htakes⟩ := exec_appendMissing_of_ok happ
        obtain ⟨hlog, hfollow⟩ := followCommit_eq leaderCommit h₂.node
        simp only [exec_modifyNode_bind, exec_get_bind, exec_pure] at hx
        cases hx
        rw [List.mem_singleton] at ho
        subst ho
        cases hk
        rw [hn₁] at htakes hcommit
        refine ⟨?_, ?_, rfl⟩
        · show Log.Takes h.node.log entries (followCommit leaderCommit h₂.node).log
          rw [hlog]
          exact htakes
        · show (followCommit leaderCommit h₂.node).commitIndex = _
          rw [hfollow, hcommit, hlog]

/-- An accepted `AppendEntries`. -/
theorem handle_appendEntries_accepted {h : Host} {sender leader : String}
    {term prevLogIndex prevLogTerm senderMs peerSkewMs matchIndex a : Nat} {o : Outbound}
    (hl : Log.Indexed a h.node.log.entries)
    (ho : o ∈ (handle sender (.appendEntries term leader prevLogIndex prevLogTerm entries
      leaderCommit senderMs peerSkewMs) h).1) (hm : o.matched = some matchIndex) :
    TakesBatch entries leaderCommit matchIndex h (handle sender (.appendEntries term leader
      prevLogIndex prevLogTerm entries leaderCommit senderMs peerSkewMs) h).2 := by
  have hinner : TakesOnAccept entries leaderCommit (handleInner sender (.appendEntries term leader
      prevLogIndex prevLogTerm entries leaderCommit senderMs peerSkewMs)) := by
    have hadopt : ∀ msg, Respects SameLog (adoptTerm msg) := fun msg =>
      .bind .get fun _ => .ite (becomeFollower_sameLog _ _) (.pure _)
    refine takesOnAccept_bind (hadopt _) fun _ => takesOnAccept_bind .get fun h₁ => ?_
    refine takesOnAccept_bind (observeLeader_sameLog leader senderMs peerSkewMs h₁.now) fun _ => ?_
    refine takesOnAccept_bind .get fun h₂ => ?_
    split
    · exact takesOnAccept_refuse _ _ _ _ _
    · refine takesOnAccept_bind (becomeFollower_sameLog _ _) fun _ => ?_
      exact takesOnAccept_bind (heard_sameLog h₂.now) fun _ => takeEntries_takesOnAccept _ _ _ _
  unfold handle at ho ⊢
  rcases hx : exec (handleInner sender (.appendEntries term leader prevLogIndex prevLogTerm entries
      leaderCommit senderMs peerSkewMs)) h with ⟨e | outs, h'⟩
  · rw [hx] at ho
    cases ho
  · rw [hx] at ho
    exact hinner h h' outs a hl hx o ho matchIndex hm

/-- A follower that accepts a batch holds it exactly if the first entry conflicts, so that the rest
is cut, or what it has at the indices of the batch is what the batch has. One that has every entry
already keeps its log. -/
theorem accepted_batch {h : Host} {sender leader : String}
    {term prevLogIndex prevLogTerm senderMs peerSkewMs matchIndex a i : Nat} {o : Outbound}
    (hl : Log.Indexed a h.node.log.entries) (hn : Log.Numbered i entries)
    (ho : o ∈ (handle sender (.appendEntries term leader prevLogIndex prevLogTerm entries
      leaderCommit senderMs peerSkewMs) h).1) (hm : o.matched = some matchIndex) :
    let l' := (handle sender (.appendEntries term leader prevLogIndex prevLogTerm entries
      leaderCommit senderMs peerSkewMs) h).2.node.log
    (l'.HoldsBatch entries ↔
      h.node.log.firstConflicts entries = true ∨ h.node.log.AgreesWith entries) ∧
    ((∀ e ∈ entries, h.node.log.termAt e.index = some e.term) → l' = h.node.log) := by
  have htakes := (handle_appendEntries_accepted hl ho hm).1
  exact ⟨htakes.holds_iff hl hn, htakes.eq_of_present⟩

/-! ## What is acknowledged -/

/-- Every record of the log above the leader's snapshot is in the leader's log. -/
def OfLeader (leader : Node) (l : Log) : Prop :=
  ∀ r ∈ l.entries, leader.snapshotIndex < r.index → leader.log.termAt r.index = some r.term

/-- The follower acknowledges no more than the batch shows, unless all it has is the leader's, and
does not commit beyond it. -/
def VerifiedRange (leader : Node) (prevLogIndex : Nat) (entries : List EntryMeta)
    (matchIndex : Nat) (h h' : Host) : Prop :=
  (matchIndex ≤ prevLogIndex + entries.length ∨ OfLeader leader h'.node.log) ∧
    (h'.node.commitIndex = h.node.commitIndex ∨
      h'.node.commitIndex ≤ prevLogIndex + entries.length)

instance (leader : Node) (l : Log) : Decidable (OfLeader leader l) :=
  inferInstanceAs (Decidable (∀ r ∈ _, _ → _))

instance (leader : Node) (prevLogIndex : Nat) (entries : List EntryMeta) (matchIndex : Nat)
    (h h' : Host) : Decidable (VerifiedRange leader prevLogIndex entries matchIndex h h') :=
  inferInstanceAs (Decidable ((_ ∨ _) ∧ (_ ∨ _)))

/-- What a leader sends is taken from its log, in order. -/
theorem appendFor_entries {n : Node} {k : Disk} {now : Nat} {peer dest leader : String}
    {term prevLogIndex prevLogTerm senderMs peerSkewMs b : Nat} {critical : Bool}
    (hb : Log.Indexed b n.log.entries)
    (h : ⟨dest, .appendEntries term leader prevLogIndex prevLogTerm entries leaderCommit senderMs
      peerSkewMs, critical⟩ ∈ n.appendFor k now peer) :
    (∃ i, Log.Numbered i entries) ∧ ∀ e ∈ entries, n.log.termAt e.index = some e.term := by
  have hentries : entries = ((n.log.entriesFrom (n.nextIndex.getD peer (n.log.lastIndex + 1))).take
      n.cfg.maxEntriesPerAppend).map Node.entryMeta := by
    unfold Node.appendFor at h
    simp only at h
    split at h
    · split at h
      · cases List.mem_singleton.1 h
      · cases List.mem_singleton.1 h
        rfl
    · cases List.mem_singleton.1 h
      rfl
  obtain ⟨d, hd⟩ : ∃ d, n.log.entriesFrom (n.nextIndex.getD peer (n.log.lastIndex + 1)) =
      n.log.entries.drop d := by
    unfold Log.entriesFrom
    split
    · next hnil => exact ⟨0, by rw [List.head?_eq_none_iff.1 hnil]; rfl⟩
    · split
      · exact ⟨0, rfl⟩
      · exact ⟨_, rfl⟩
  rw [hd] at hentries
  subst hentries
  have hnum := LogFile.indexed_take (LogFile.indexed_drop hb d) n.cfg.maxEntriesPerAppend
  refine ⟨⟨b + d, fun j e he => ?_⟩, fun e he => ?_⟩
  · rw [List.getElem?_map] at he
    obtain ⟨r, hr, rfl⟩ := Option.map_eq_some_iff.1 he
    exact hnum j r hr
  · obtain ⟨r, hr, rfl⟩ := List.mem_map.1 he
    have hmem := List.mem_of_mem_drop (List.mem_of_mem_take hr)
    show (n.log.get r.index).map (·.term) = some r.term
    rw [hb.get_eq_some_iff.2 ⟨hmem, rfl⟩]
    rfl

omit [SerdeJson] in
/-- What a log that took a leader's batch holds is the leader's exactly if what it kept is. -/
theorem takes_ofLeader_iff {n : Node} {l l' : Log} (ht : l.Takes entries l')
    (hterm : ∀ e ∈ entries, n.log.termAt e.index = some e.term) :
    OfLeader n l' ↔ ∀ r, l.Kept entries r → n.snapshotIndex < r.index →
      n.log.termAt r.index = some r.term := by
  constructor
  · intro h r hr hs
    obtain ⟨r', hr', hi, htm, -⟩ := Log.exists_mem_cut hr
    rw [← hi] at hs ⊢
    rw [← htm]
    exact h r' (ht.of_cut hr') hs
  · intro h r' hr' hs
    rcases ht.mem hr' with hr | ⟨e, he, hi, htm⟩
    · obtain ⟨r, hk, hi, htm, -⟩ := Log.mem_cut hr
      rw [hi] at hs ⊢
      rw [htm]
      exact h r hk hs
    · rw [hi, htm]
      exact hterm e he

end

/-! ## Runs -/

section
attribute [local instance] SerdeJson.sample

open Cluster

/-- The entries of an `AppendEntries`. -/
def batchOf : Message → List EntryMeta
  | .appendEntries _ _ _ _ entries _ _ _ => entries
  | _ => []

/-- The index before them. -/
def prevOf : Message → Nat
  | .appendEntries _ _ prevLogIndex _ _ _ _ _ => prevLogIndex
  | _ => 0

/-- The first member leads term 1 and keeps four ops to itself. The second one leads terms 2 and 3,
sends the first one a batch that is short of these ops, and hears of a log longer than its own. -/
def longerFollower : List Event :=
  electFirst ++
    [callAt "n2" (.deliver 6), callAt "n1" (.propose .noop), callAt "n1" (.propose .noop),
      callAt "n1" (.propose .noop), callAt "n1" (.propose .noop), callAt "n3" (.deliver 4),
      callAtMs 9000 "n2" .tick, callAtMs 9000 "n3" (.deliver 11), callAtMs 9000 "n2" (.deliver 12),
      callAtMs 9000 "n3" (.deliver 14), callAtMs 9000 "n2" (.deliver 15),
      callAtMs 9000 "n2" .stepDown, callAtMs 15000 "n2" .tick, callAtMs 15000 "n3" (.deliver 21),
      callAtMs 15000 "n2" (.deliver 22), callAtMs 15000 "n3" (.deliver 24),
      callAtMs 15000 "n2" (.deliver 25), callAtMs 15000 "n1" (.deliver 26),
      callAtMs 15000 "n2" (.deliver 28), callAtMs 15000 "n1" (.deliver 29),
      callAtMs 15000 "n2" (.deliver 30)]

/-- Two entries for a follower that has none. -/
theorem accepted_batch_two :
    (handle "n1" (.appendEntries 1 "n1" 0 0
      [⟨1, 1, SerdeJson.opToString .noop⟩, ⟨1, 2, SerdeJson.opToString .noop⟩] 2 5000 0)
      (three.hosts "n2")).2.node.log.HoldsBatch
        [⟨1, 1, SerdeJson.opToString .noop⟩, ⟨1, 2, SerdeJson.opToString .noop⟩] := by
  have hout : ((handle "n1" (.appendEntries 1 "n1" 0 0
      [⟨1, 1, SerdeJson.opToString .noop⟩, ⟨1, 2, SerdeJson.opToString .noop⟩] 2 5000 0)
      (three.hosts "n2")).1.any fun o => o.matched == some 2) = true := by decide +kernel
  obtain ⟨o, ho, hm⟩ := List.any_eq_true.1 hout
  have hl : Log.Indexed 1 (three.hosts "n2").node.log.entries := by
    intro j r hr
    cases (show (none : Option Record) = some r from hr)
  have hn : Log.Numbered 1 [⟨1, 1, SerdeJson.opToString .noop⟩,
      ⟨1, 2, SerdeJson.opToString .noop⟩] := by
    intro j e he
    match j, he with
    | 0, he => cases he; rfl
    | 1, he => cases he; rfl
  refine (accepted_batch hl hn ho (by simpa using hm)).1.2 (.inr ?_)
  intro e _ r hr
  cases (show (none : Option Record) = some r from hr)

/-- Of a packet in a run of `longerFollower` before the first member has it: to whom it is, the
indices of its entries, whether the member accepts it up to index 5, and whether it then holds the
batch. -/
def onArrival (c : Cluster) : Option (String × List Nat × Bool × Bool) :=
  (c.net[29]?).map fun p =>
    (p.dest, (batchOf p.msg).map (·.index),
      (handle p.sender p.msg (c.hosts "n1")).1.any fun o => o.matched == some 5,
      decide ((handle p.sender p.msg (c.hosts "n1")).2.node.log.HoldsBatch (batchOf p.msg)))

/-- A batch is accepted, and the follower keeps other records at its indices. -/
theorem accepted_batch_not_held : ∃ h c, PlainRun h c ∧ ∃ p ∈ c.net, p.dest = "n1" ∧
    (batchOf p.msg).map (·.index) = [1, 2, 3, 4] ∧
    (∃ o ∈ (handle p.sender p.msg (c.hosts "n1")).1, o.matched = some 5) ∧
    ¬ (handle p.sender p.msg (c.hosts "n1")).2.node.log.HoldsBatch (batchOf p.msg) := by
  obtain ⟨h, c, hr, hc⟩ := PlainRun.of_follow (b := some ("n1", [1, 2, 3, 4], true, false))
    (longerFollower.take 24) (fun r => onArrival r.2) (by decide +kernel)
  obtain ⟨p, hp, hc⟩ := Option.map_eq_some_iff.1 hc
  simp only [Prod.mk.injEq, List.any_eq_true, decide_eq_false_iff_not] at hc
  obtain ⟨hdest, hidx, ⟨o, ho, hm⟩, hnot⟩ := hc
  exact ⟨h, c, hr, p, List.mem_of_getElem? hp, hdest, hidx, ⟨o, ho, by simpa using hm⟩, hnot⟩

end

end Host

end Rdsctl.Ha
