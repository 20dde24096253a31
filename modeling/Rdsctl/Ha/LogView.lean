import Rdsctl.Ha.Log

/-!
# A log and the entries it stands for

A node keeps the records above its snapshot. `Log.Holds` says that records are those of a sequence
of entries that starts at index 1, and `Log.Chained` that they form a hash chain that `Log.replay`
accepts. This module says what the operations of a log do to both, when no file operation fails.
-/

namespace Rdsctl.Ha

open Fallible

/-- An entry of the replicated log; its place is its index. -/
structure LogEntry where
  term : Nat
  opJson : String
deriving DecidableEq, Repr

/-- The record of an entry. -/
def Record.spells (r : Record) (e : LogEntry) : Prop :=
  r.term = e.term ∧ r.payload = asBytes e.opJson

namespace Log

/-- The records have the indices from `a` on. -/
def Indexed (a : Nat) (rs : List Record) : Prop := ∀ j r, rs[j]? = some r → r.index = a + j

/-- The records are those of the entries `ℓ` above index `s`. -/
structure Holds (s : Nat) (rs : List Record) (ℓ : List LogEntry) : Prop where
  length : rs.length = ℓ.length - s
  indexed : Indexed (s + 1) rs
  spells : ∀ j r, rs[j]? = some r → ∃ e, ℓ[s + j]? = some e ∧ r.spells e

variable {s a : Nat} {rs : List Record} {ℓ : List LogEntry} {l : Log}

theorem Indexed.tail {r : Record} (h : Indexed a (r :: rs)) : Indexed (a + 1) rs := by
  intro j r' hr
  have := h (j + 1) r' (by simpa using hr)
  omega

/-- The records below an index are the first ones. -/
theorem Indexed.filter_lt (h : Indexed a rs) (start : Nat) :
    rs.filter (fun r => decide (r.index < start)) = rs.take (start - a) := by
  induction rs generalizing a with
  | nil => simp
  | cons r rs ih =>
    have hr : r.index = a := by simpa using h 0 r rfl
    rw [List.filter_cons, ih h.tail, hr]
    by_cases hlt : a < start
    · rw [if_pos (by simpa using hlt), show start - a = (start - (a + 1)) + 1 by omega,
        List.take_succ_cons]
    · rw [if_neg (by simpa using hlt), show start - (a + 1) = 0 by omega,
        show start - a = 0 by omega, List.take_zero, List.take_zero]

/-- The records above an index are the last ones. -/
theorem Indexed.filter_gt (h : Indexed a rs) (upto : Nat) :
    rs.filter (fun r => decide (upto < r.index)) = rs.drop (upto + 1 - a) := by
  induction rs generalizing a with
  | nil => simp
  | cons r rs ih =>
    have hr : r.index = a := by simpa using h 0 r rfl
    rw [List.filter_cons, ih h.tail, hr]
    by_cases hlt : upto < a
    · rw [if_pos (by simpa using hlt), show upto + 1 - a = 0 by omega,
        show upto + 1 - (a + 1) = 0 by omega, List.drop_zero, List.drop_zero]
    · rw [if_neg (by simpa using hlt), show upto + 1 - a = (upto + 1 - (a + 1)) + 1 by omega,
        List.drop_succ_cons]

/-- The record of an index is the one that has it. -/
theorem Indexed.get_eq_some_iff (h : Indexed a l.entries) {idx : Nat} {r : Record} :
    l.get idx = some r ↔ r ∈ l.entries ∧ r.index = idx := by
  unfold Log.get
  cases hl : l.entries with
  | nil => simp
  | cons first rest =>
    rw [hl] at h
    have hfirst : first.index = a := h 0 first rfl
    rw [List.head?_cons]
    dsimp only
    split
    · next hlt =>
      refine ⟨nofun, fun ⟨hr, hi⟩ => ?_⟩
      obtain ⟨j, hj⟩ := List.getElem?_of_mem hr
      have := h j r hj
      omega
    · next hge =>
      constructor
      · intro hr
        have := h _ r hr
        exact ⟨List.mem_of_getElem? hr, by omega⟩
      · rintro ⟨hr, hi⟩
        obtain ⟨j, hj⟩ := List.getElem?_of_mem hr
        have := h j r hj
        rw [← hj]
        congr 1
        omega

/-- No records stand for entries that the snapshot covers. -/
theorem holds_nil (h : ℓ.length ≤ s) : Holds s [] ℓ where
  length := by
    simp only [List.length_nil]
    omega
  indexed := by intro j r hr; simp at hr
  spells := by intro j r hr; simp at hr

/-- The records below `start` stand for the entries below it. -/
theorem Holds.take (h : Holds s rs ℓ) (start : Nat) :
    Holds s (rs.take (start - (s + 1))) (ℓ.take (start - 1)) where
  length := by
    simp only [List.length_take, h.length]
    omega
  indexed := by
    intro j r hr
    rw [List.getElem?_take] at hr
    split at hr
    · exact h.indexed j r hr
    · cases hr
  spells := by
    intro j r hr
    rw [List.getElem?_take] at hr
    split at hr
    · obtain ⟨e, he, hs⟩ := h.spells j r hr
      exact ⟨e, by rw [List.getElem?_take_of_lt (by omega), he], hs⟩
    · cases hr

/-- The records above `upto` stand for the entries above it. -/
theorem Holds.drop (h : Holds s rs ℓ) {upto : Nat} (hs : s ≤ upto) :
    Holds upto (rs.drop (upto + 1 - (s + 1))) ℓ where
  length := by
    simp only [List.length_drop, h.length]
    omega
  indexed := by
    intro j r hr
    rw [List.getElem?_drop] at hr
    have := h.indexed _ r hr
    omega
  spells := by
    intro j r hr
    rw [List.getElem?_drop] at hr
    obtain ⟨e, he, hsp⟩ := h.spells _ r hr
    exact ⟨e, by rw [← he]; congr 1; omega, hsp⟩

/-- New records for new entries. -/
theorem Holds.append {rs' : List Record} {es : List LogEntry} (h : Holds s rs ℓ)
    (hs : s ≤ ℓ.length) (hi : Indexed (ℓ.length + 1) rs') (hl : rs'.length = es.length)
    (hsp : ∀ (j : Nat) (r : Record), rs'[j]? = some r → ∃ e, es[j]? = some e ∧ r.spells e) :
    Holds s (rs ++ rs') (ℓ ++ es) where
  length := by
    have := h.length
    simp only [List.length_append]
    omega
  indexed := by
    intro j r hr
    have hlen := h.length
    rcases Nat.lt_or_ge j rs.length with hj | hj
    · rw [List.getElem?_append_left hj] at hr
      exact h.indexed j r hr
    · rw [List.getElem?_append_right hj] at hr
      have := hi _ r hr
      omega
  spells := by
    intro j r hr
    have hlen := h.length
    rcases Nat.lt_or_ge j rs.length with hj | hj
    · rw [List.getElem?_append_left hj] at hr
      obtain ⟨e, he, hr⟩ := h.spells j r hr
      have hlt : s + j < ℓ.length := by omega
      exact ⟨e, by rw [List.getElem?_append_left hlt, he], hr⟩
    · rw [List.getElem?_append_right hj] at hr
      obtain ⟨e, he, hr⟩ := hsp _ r hr
      refine ⟨e, ?_, hr⟩
      rw [List.getElem?_append_right (by omega), ← he]
      congr 1
      omega

/-! ## Reading -/

theorem lastIndex_nil (h : l.entries = []) : l.lastIndex = 0 := by
  simp [lastIndex, h]

/-- A log with records ends where the entries end. -/
theorem Holds.lastIndex (h : Holds s l.entries ℓ) (hne : l.entries ≠ []) :
    l.lastIndex = ℓ.length := by
  have hlen := h.length
  have hpos := List.length_pos_iff.2 hne
  have hlast : l.entries.getLast? = some (l.entries.getLast hne) := List.getLast?_eq_some_getLast hne
  have hget : l.entries[l.entries.length - 1]? = some (l.entries.getLast hne) := by
    rw [← List.getLast?_eq_getElem?, hlast]
  have := h.indexed _ _ hget
  simp only [Log.lastIndex, hlast, Option.map_some, Option.getD_some]
  omega

/-- A log with records ends in the term the entries end in. -/
theorem Holds.lastTerm (h : Holds s l.entries ℓ) (hne : l.entries ≠ []) :
    l.lastTerm = (ℓ.getLast?.map LogEntry.term).getD 0 := by
  have hlen := h.length
  have hpos := List.length_pos_iff.2 hne
  have hlast : l.entries.getLast? = some (l.entries.getLast hne) := List.getLast?_eq_some_getLast hne
  have hget : l.entries[l.entries.length - 1]? = some (l.entries.getLast hne) := by
    rw [← List.getLast?_eq_getElem?, hlast]
  obtain ⟨e, he, hsp⟩ := h.spells _ _ hget
  have hidx : s + (l.entries.length - 1) = ℓ.length - 1 := by omega
  rw [hidx, ← List.getLast?_eq_getElem?] at he
  simp only [Log.lastTerm, hlast, he, Option.map_some, Option.getD_some]
  exact hsp.1

/-- A record that is found has the index asked for, and spells the entry there. -/
theorem Holds.get_some (h : Holds s l.entries ℓ) {idx : Nat} {r : Record}
    (hg : l.get idx = some r) :
    s < idx ∧ r.index = idx ∧ ∃ e, ℓ[idx - 1]? = some e ∧ r.spells e := by
  unfold Log.get at hg
  split at hg
  · cases hg
  · next first hf =>
    have hfi : first.index = s + 1 := by
      have h0 : l.entries[0]? = some first := by rwa [List.head?_eq_getElem?] at hf
      simpa using h.indexed 0 first h0
    split at hg
    · cases hg
    · next hlt =>
      rw [hfi] at hlt hg
      obtain ⟨e, he, hsp⟩ := h.spells _ r hg
      have hidx := h.indexed _ r hg
      refine ⟨by omega, by omega, e, ?_, hsp⟩
      rw [← he]
      congr 1
      omega

/-- An entry above the snapshot has a record. -/
theorem Holds.get_of_entry (h : Holds s l.entries ℓ) {idx : Nat} {e : LogEntry} (hs : s < idx)
    (he : ℓ[idx - 1]? = some e) : ∃ r, l.get idx = some r ∧ r.spells e := by
  obtain ⟨hlt, -⟩ := List.getElem?_eq_some_iff.1 he
  have hlen := h.length
  have hj : idx - (s + 1) < l.entries.length := by omega
  have hget : l.entries[idx - (s + 1)]? = some l.entries[idx - (s + 1)] :=
    List.getElem?_eq_getElem hj
  obtain ⟨e', he', hsp⟩ := h.spells _ _ hget
  have heq : s + (idx - (s + 1)) = idx - 1 := by omega
  rw [heq, he] at he'
  cases he'
  obtain ⟨first, hf⟩ : ∃ first, l.entries.head? = some first := by
    cases hh : l.entries.head? with
    | some first => exact ⟨first, rfl⟩
    | none =>
      rw [List.head?_eq_none_iff] at hh
      rw [hh] at hj
      simp at hj
  have hfi : first.index = s + 1 := by
    have h0 : l.entries[0]? = some first := by rwa [List.head?_eq_getElem?] at hf
    simpa using h.indexed 0 first h0
  refine ⟨_, ?_, hsp⟩
  simp only [Log.get, hf, hfi]
  rw [if_neg (by omega), hget]

/-- Where no record is found above the snapshot, the entries have ended. -/
theorem Holds.get_none (h : Holds s l.entries ℓ) {idx : Nat} (hs : s < idx)
    (hg : l.get idx = none) : ℓ.length < idx := by
  by_contra hle
  have hlt : idx - 1 < ℓ.length := by omega
  obtain ⟨r, hr, -⟩ := h.get_of_entry hs (List.getElem?_eq_getElem hlt)
  rw [hg] at hr
  cases hr

/-- What is sent from `start` on. -/
theorem Holds.entriesFrom (h : Holds s l.entries ℓ) {start : Nat} (hs : s < start) {j : Nat}
    {r : Record} (hr : (l.entriesFrom start)[j]? = some r) :
    r.index = start + j ∧ ∃ e, ℓ[start - 1 + j]? = some e ∧ r.spells e := by
  unfold Log.entriesFrom at hr
  split at hr
  · simp at hr
  · next first hf =>
    have hfi : first.index = s + 1 := by
      have h0 : l.entries[0]? = some first := by rwa [List.head?_eq_getElem?] at hf
      simpa using h.indexed 0 first h0
    rw [hfi] at hr
    rw [if_neg (by omega), List.getElem?_drop] at hr
    obtain ⟨e, he, hsp⟩ := h.spells _ r hr
    have hidx := h.indexed _ r hr
    refine ⟨by omega, e, ?_, hsp⟩
    rw [← he]
    congr 1
    omega

/-! ## The hash chain -/

/-- Reading the records succeeds. -/
def Chained (shard : Nat) (seed : Hash) (rs : List Record) : Prop := scan shard 0 seed rs = .whole

/-- The hash the chain has reached. -/
def chainEnd (seed : Hash) (rs : List Record) : Hash := (rs.getLast?.map (·.hash)).getD seed

/-- What one record has to satisfy. -/
theorem scan_cons {shard pos : Nat} {prev : Hash} {r : Record} :
    scan shard pos prev (r :: rs) = .whole ↔
      r.ver = LOG_VER ∧ r.shard = shard ∧ r.verifyHash = true ∧ r.prevHash = prev ∧
        scan shard (pos + 1) r.hash rs = .whole := by
  simp only [scan]
  split
  · next h => simp [h]
  · next h1 =>
    split
    · next h => simp [h]
    · next h2 =>
      split
      · next h => simp [h]
      · next h3 =>
        split
        · next h => simp [h]
        · next h4 =>
          rw [not_not] at h1 h2 h4
          simp [h1, h2, h3, h4]

/-- The position only names the broken record. -/
theorem scan_pos {shard pos pos' : Nat} {prev : Hash} :
    scan shard pos prev rs = .whole ↔ scan shard pos' prev rs = .whole := by
  induction rs generalizing pos pos' prev with
  | nil => simp [scan]
  | cons r rs ih => rw [scan_cons, scan_cons, ih]

theorem chained_nil (shard : Nat) (seed : Hash) : Chained shard seed [] := rfl

theorem Chained.append {shard : Nat} {seed : Hash} {rs' : List Record} (h : Chained shard seed rs)
    (h' : Chained shard (chainEnd seed rs) rs') : Chained shard seed (rs ++ rs') := by
  unfold Chained at *
  induction rs generalizing seed with
  | nil => exact h'
  | cons r rs ih =>
    rw [List.cons_append, scan_cons]
    obtain ⟨h1, h2, h3, h4, h5⟩ := scan_cons.1 h
    refine ⟨h1, h2, h3, h4, scan_pos.1 (ih (scan_pos.1 h5) ?_)⟩
    cases rs with
    | nil => exact h'
    | cons r' rs => exact h'

theorem Chained.shard_eq {shard : Nat} {seed : Hash} (h : Chained shard seed rs) :
    ∀ r ∈ rs, r.shard = shard := by
  unfold Chained at h
  induction rs generalizing seed with
  | nil => simp
  | cons r rs ih =>
    obtain ⟨-, h2, -, -, h5⟩ := scan_cons.1 h
    intro r' hr'
    rcases List.mem_cons.1 hr' with rfl | hr'
    · exact h2
    · exact ih (scan_pos.1 h5) r' hr'

/-- A staged batch is chained to the hash it was staged on. -/
theorem chained_stage (shard : Nat) (prev : Hash) (es : List PendingEntry) :
    Chained shard prev (stage shard prev es) := by
  induction es generalizing prev with
  | nil => rfl
  | cons e es ih =>
    refine scan_cons.2 ⟨rfl, rfl, ?_, rfl, scan_pos.1 (ih _)⟩
    simp [Record.verifyHash, sealEntry, Record.header]

/-- Records of this shard are chained to the hash they are rechained on. -/
theorem chained_rechain {shard : Nat} (prev : Hash) (h : ∀ r ∈ rs, r.shard = shard) :
    Chained shard prev (rechain shard prev rs) := by
  induction rs generalizing prev with
  | nil => rfl
  | cons r rs ih =>
    have hr : r.shard = shard := h r List.mem_cons_self
    refine scan_cons.2 ⟨rfl, hr, ?_, rfl, scan_pos.1 (ih _ fun r' hr' => h r' (by simp [hr']))⟩
    simp [Record.verifyHash, reseal, Record.header, hr]

/-! ## The records of batches and of rewritten logs -/

theorem length_stage (shard : Nat) (prev : Hash) (es : List PendingEntry) :
    (stage shard prev es).length = es.length := by
  induction es generalizing prev with
  | nil => rfl
  | cons e es ih => simp [stage, ih]

/-- A staged record has the fields of its entry. -/
theorem getElem?_stage {shard : Nat} {prev : Hash} {es : List PendingEntry} {j : Nat} {r : Record}
    (h : (stage shard prev es)[j]? = some r) :
    ∃ e, es[j]? = some e ∧ r.index = e.index ∧ r.term = e.term ∧ r.payload = e.payload := by
  induction es generalizing prev j with
  | nil => simp [stage] at h
  | cons e es ih =>
    cases j with
    | zero =>
      simp only [stage, List.getElem?_cons_zero, Option.some.injEq] at h
      subst h
      exact ⟨e, rfl, rfl, rfl, rfl⟩
    | succ j =>
      simp only [stage, List.getElem?_cons_succ] at h
      obtain ⟨e', he', hf⟩ := ih h
      exact ⟨e', by simpa using he', hf⟩

theorem length_rechain (shard : Nat) (prev : Hash) (rs : List Record) :
    (rechain shard prev rs).length = rs.length := by
  induction rs generalizing prev with
  | nil => rfl
  | cons r rs ih => simp [rechain, ih]

/-- A rechained record keeps its index, term and payload. -/
theorem getElem?_rechain {shard : Nat} {prev : Hash} {j : Nat} {r : Record}
    (h : (rechain shard prev rs)[j]? = some r) :
    ∃ r', rs[j]? = some r' ∧ r.index = r'.index ∧ r.term = r'.term ∧ r.payload = r'.payload := by
  induction rs generalizing prev j with
  | nil => simp [rechain] at h
  | cons r0 rs ih =>
    cases j with
    | zero =>
      simp only [rechain, List.getElem?_cons_zero, Option.some.injEq] at h
      subst h
      exact ⟨r0, rfl, rfl, rfl, rfl⟩
    | succ j =>
      simp only [rechain, List.getElem?_cons_succ] at h
      obtain ⟨r', hr', hf⟩ := ih h
      exact ⟨r', by simpa using hr', hf⟩

/-- Rechained records stand for the same entries. -/
theorem Holds.rechain (h : Holds s rs ℓ) (shard : Nat) (prev : Hash) :
    Holds s (Log.rechain shard prev rs) ℓ where
  length := by rw [length_rechain, h.length]
  indexed := by
    intro j r hr
    obtain ⟨r', hr', hi, -⟩ := getElem?_rechain hr
    rw [hi, h.indexed j r' hr']
  spells := by
    intro j r hr
    obtain ⟨r', hr', -, ht, hp⟩ := getElem?_rechain hr
    obtain ⟨e, he, hs1, hs2⟩ := h.spells j r' hr'
    exact ⟨e, he, ht.trans hs1, hp.trans hs2⟩

/-- A batch that is numbered from `a` on has no gap. -/
theorem numberingGap_none {a : Nat} {es : List PendingEntry}
    (h : ∀ j e, es[j]? = some e → e.index = a + j) : numberingGap a es = none := by
  induction es generalizing a with
  | nil => rfl
  | cons e es ih =>
    have he : e.index = a := by simpa using h 0 e rfl
    simp only [numberingGap, he, ne_eq, not_true_eq_false, if_false]
    refine ih fun j e' he' => ?_
    have := h (j + 1) e' (by simpa using he')
    omega

/-- A batch without a gap is numbered. -/
theorem numberingGap_eq_none {a : Nat} {es : List PendingEntry} (h : numberingGap a es = none) :
    ∀ j e, es[j]? = some e → e.index = a + j := by
  induction es generalizing a with
  | nil => intro j e he; simp at he
  | cons e es ih =>
    simp only [numberingGap] at h
    split at h
    · cases h
    · next hi =>
      rw [not_not] at hi
      intro j e' he'
      cases j with
      | zero =>
        simp only [List.getElem?_cons_zero, Option.some.injEq] at he'
        subst he'
        exact hi
      | succ j =>
        have := ih h j e' (by simpa using he')
        omega

/-! ## Runs without faults -/

/-- The batch that the log takes. -/
def appended (l : Log) (batch : List PendingEntry) : Log :=
  { l with entries := l.entries ++ stage l.shard l.prevHashForNext batch }

/-- The records of a batch stand for its entries. -/
theorem Holds.appended {ps : List PendingEntry} {es : List LogEntry}
    (h : Holds s l.entries ℓ) (hs : s ≤ ℓ.length) (hlen : ps.length = es.length)
    (hps : ∀ (j : Nat) (p : PendingEntry), ps[j]? = some p → p.index = ℓ.length + 1 + j ∧
      ∃ e, es[j]? = some e ∧ p.term = e.term ∧ p.payload = asBytes e.opJson) :
    Holds s (l.appended ps).entries (ℓ ++ es) := by
  refine h.append hs (fun j r hr => ?_) ((length_stage _ _ _).trans hlen) fun j r hr => ?_
  · obtain ⟨p, hp, hi, -⟩ := getElem?_stage hr
    rw [hi, (hps j p hp).1]
  · obtain ⟨p, hp, -, ht, hb⟩ := getElem?_stage hr
    obtain ⟨-, e, he, ht', hb'⟩ := hps j p hp
    exact ⟨e, he, ht.trans ht', hb.trans hb'⟩

theorem Chained.appended {shard : Nat} {ps : List PendingEntry}
    (h : Chained shard l.seedHash l.entries) (hl : l.shard = shard) :
    Chained shard (l.appended ps).seedHash (l.appended ps).entries := by
  subst hl
  exact h.append (chained_stage _ _ _)

/-- The log rewritten to `keep` on the hash `seed`. -/
def rewritten (l : Log) (keep : List Record) (seed : Hash) : Log :=
  { l with entries := rechain l.shard seed keep, seedHash := seed }

/-- Some of the records of a chained log, on another hash. -/
theorem Chained.rewritten {shard : Nat} {keep : List Record} {seed : Hash}
    (h : Chained shard l.seedHash l.entries) (hl : l.shard = shard) (hk : keep ⊆ l.entries) :
    Chained shard (l.rewritten keep seed).seedHash (l.rewritten keep seed).entries := by
  subst hl
  exact chained_rechain seed fun r hr => h.shard_eq r (hk hr)

/-- A log that takes a batch, whatever the faults, numbers it on and has its records at the end. -/
theorem appendBatch_returns (l : Log) {batch : List PendingEntry} (hne : batch ≠ []) :
    Returns (fun l' => numberingGap (l.lastIndex + 1) batch = none ∧ l' = l.appended batch)
      (l.appendBatch batch) := by
  unfold Log.appendBatch
  rw [if_neg (by simpa using hne)]
  split
  · exact .throw _
  · next hgap => exact .bind fun _ => .bind fun _ => .pure ⟨hgap, rfl⟩

theorem rewrite_returns (l : Log) (keep : List Record) (seed : Hash) :
    Returns (· = l.rewritten keep seed) (l.rewrite keep seed) :=
  .bind fun _ => .bind fun _ => .bind fun _ => .bind fun _ => .bind fun _ => .bind fun _ => .pure rfl

theorem exec_appendBatch_ok {batch : List PendingEntry} {k : Disk} (hne : batch ≠ [])
    (hgap : numberingGap (l.lastIndex + 1) batch = none) :
    exec (l.appendBatch batch) ⟨k, Faults.none⟩ =
      (.ok (l.appended batch),
        ⟨{ k with log := k.log ++ stage l.shard l.prevHashForNext batch }, Faults.none⟩) := by
  unfold appendBatch
  rw [if_neg (by simpa using hne), hgap]
  simp only [exec_fileOp_bind_none, exec_pure]
  rfl

theorem exec_appendBatch_gap {batch : List PendingEntry} (st : Store) {g : Nat × Nat}
    (hne : batch ≠ []) (hgap : numberingGap (l.lastIndex + 1) batch = some g) :
    ∃ e, exec (l.appendBatch batch) st = (.error e, st) := by
  unfold appendBatch
  rw [if_neg (by simpa using hne), hgap]
  exact ⟨_, rfl⟩

theorem exec_rewrite_none (l : Log) (keep : List Record) (seed : Hash) (k : Disk) :
    exec (l.rewrite keep seed) ⟨k, Faults.none⟩ =
      (.ok (l.rewritten keep seed),
        ⟨{ k with log := rechain l.shard seed keep, logTmp := [] }, Faults.none⟩) := by
  unfold rewrite
  simp only [exec_fileOp_bind_none, exec_pure]
  rfl

/-- A chained log of this shard opens with all its records, if it opens. -/
theorem exec_open_none {shard : Nat} {seed : Hash} {k : Disk} {st : Store} {l : Log}
    (hc : Chained shard seed k.log)
    (hx : exec (open' shard seed) ⟨k, Faults.none⟩ = (.ok l, st)) :
    l = ⟨shard, k.log, seed, 0⟩ ∧ st = ⟨k, Faults.none⟩ := by
  unfold open' at hx
  rw [exec_fileOp_bind_none, exec_get_bind, id] at hx
  simp only [replay, exec_get_bind] at hx
  rw [show scan shard 0 seed k.log = .whole from hc] at hx
  simp only [checkIndices] at hx
  split at hx
  · cases hx
  · split at hx
    · split at hx
      · cases hx
      · cases hx
        exact ⟨rfl, rfl⟩
    · cases hx
      exact ⟨rfl, rfl⟩

end Log

end Rdsctl.Ha
