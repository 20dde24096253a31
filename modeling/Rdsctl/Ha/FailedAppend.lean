import Rdsctl.Ha.TornTail

/-!
# Appends that fail

`append_batch` of `src/ha/log.rs` when the write or the fsync fails. The file is opened for
appending and is not cut back, so the bytes that have reached it stay there, between what the log
holds and what it writes next. `exact_iff` says what that does to the next opening: a file that does
not hold just the records of the log is one that some further append makes unreadable.
-/

namespace Rdsctl.Ha.LogFile

open Sha256

variable {shard k : Nat} {seed : Hash} {f f' : LogFile} {batch : List PendingEntry}

/-- `append_batch` after the index check, when the first `k` bytes of the batch reach the file and
the write or the fsync fails: the log in memory stays as it was. -/
def failAppend (f : LogFile) (batch : List PendingEntry) (k : Nat) : LogFile :=
  ⟨f.log, f.bytes ++ (appendBytes f.log.shard f.log.prevHashForNext batch).take k⟩

/-- What may happen to a log: a call, an append that fails, and the file opened again. -/
inductive Attempt
  | call (op : Op)
  | fails (batch : List PendingEntry) (k : Nat)
  | reopen

/-- The log after an attempt. -/
def tryStep (shard : Nat) (f : LogFile) : Attempt → Option LogFile
  | .call op => f.step op
  | .fails batch k =>
    if batch ≠ [] ∧ Log.numberingGap (f.log.lastIndex + 1) batch = none ∧
        k ≤ (appendBytes f.log.shard f.log.prevHashForNext batch).length then
      some (f.failAppend batch k)
    else none
  | .reopen => (open' shard f.log.seedHash f.bytes).toOption

def Attempt.Admissible : Attempt → Prop
  | .call op => op.Admissible
  | .fails batch _ => ∀ e ∈ batch, e.Fits
  | .reopen => True

/-- The runs from an empty directory. -/
abbrev AttemptRun (shard : Nat) (seed : Hash) : History LogFile Attempt → LogFile → Prop :=
  Run (tryStep shard) (fun _ _ a => a.Admissible) fun f => open' shard seed [] = .ok f

/-! ## The log in memory -/

/-- The log with a file that holds just its records. -/
def cleaned (f : LogFile) : LogFile :=
  ⟨{ f.log with truncatedTailBytes := 0 }, encodeAll f.log.entries⟩

/-- The log in memory is sound, and the file is no shorter than its records. -/
structure Held (shard : Nat) (f : LogFile) : Prop where
  sound : Sound shard f.cleaned
  length_le : (encodeAll f.log.entries).length ≤ f.bytes.length

/-- What a sound log leaves, whatever was cut when the file was opened. -/
theorem Held.of_sound {g : LogFile} (hg : Sound shard g) (hlog : f.cleaned.log = g.log)
    (hb : f.bytes = g.bytes) : Held shard f := by
  have hentries : f.log.entries = g.log.entries :=
    show f.cleaned.log.entries = g.log.entries from congrArg Log.entries hlog
  have hf : f.cleaned = g := by
    have hbytes : encodeAll f.log.entries = g.bytes := by rw [hentries, hg.bytes_eq]
    calc f.cleaned = ⟨f.cleaned.log, encodeAll f.log.entries⟩ := rfl
      _ = g := by rw [hlog, hbytes]
  exact { sound := hf ▸ hg, length_le := Nat.le_of_eq (by rw [hb, hg.bytes_eq, hentries]) }

/-- The next batch does not look at the bytes of the file. -/
theorem cleaned_append (hx : f.appendBatch batch = .ok f') :
    f.cleaned.appendBatch batch = .ok f'.cleaned := by
  unfold appendBatch at hx ⊢
  split at hx
  · next he =>
    cases hx
    rw [if_pos he]
  · next he =>
    split at hx
    · cases hx
    · next hgap =>
      cases hx
      have hgap' : Log.numberingGap (f.cleaned.log.lastIndex + 1) batch = none := hgap
      rw [if_neg he, hgap']
      simp only [cleaned, appendBytes_eq, encodeAll_append]
      rfl

theorem length_appendBatch (hx : f.appendBatch batch = .ok f')
    (h : (encodeAll f.log.entries).length ≤ f.bytes.length) :
    (encodeAll f'.log.entries).length ≤ f'.bytes.length := by
  obtain ⟨-, rfl⟩ := appendBatch_ok hx
  simp only [Log.appended, encodeAll_append, List.length_append]
  omega

theorem Held.append (hs : shard < 2 ^ 16) (h : Held shard f) (hb : ∀ e ∈ batch, e.Fits)
    (hx : f.appendBatch batch = .ok f') : Held shard f' where
  sound := h.sound.append hs hb (cleaned_append hx)
  length_le := length_appendBatch hx h.length_le

theorem Held.rewrite {keep : List Record} (h : Held shard f) (hk : ∀ r ∈ keep, r ∈ f.log.entries)
    (hi : ∃ a, Log.Indexed a keep ∧ (seed = zeroHash → a = 1)) :
    Held shard (f.rewrite keep seed) :=
  .of_sound (h.sound.rewrite hk hi) rfl rfl

theorem Held.truncate (h : Held shard f) (start : Nat) : Held shard (f.truncateSuffix start) := by
  unfold truncateSuffix
  split
  · exact h
  · obtain ⟨a, ha, h1⟩ := h.sound.indexed
    have ha : Log.Indexed a f.log.entries := ha
    refine h.rewrite (fun r hr => (List.mem_filter.1 hr).1) ⟨a, ?_, h1⟩
    rw [ha.filter_lt]
    exact indexed_take ha _

theorem Held.compact {snapHash : Hash} (h : Held shard f) (hz : snapHash ≠ zeroHash)
    (upto : Nat) : Held shard (f.compactUpto upto snapHash) := by
  obtain ⟨a, ha, -⟩ := h.sound.indexed
  have ha : Log.Indexed a f.log.entries := ha
  refine h.rewrite (fun r hr => (List.mem_filter.1 hr).1)
    ⟨a + (upto + 1 - a), ?_, fun heq => absurd heq hz⟩
  rw [ha.filter_gt]
  exact indexed_drop ha _

/-- What a file opens to. -/
theorem held_of_open {bytes : List UInt8} (h : open' shard seed bytes = .ok f) : Held shard f := by
  obtain ⟨rs, u, rfl, hv, -, rfl⟩ := open_ok_iff.1 h
  have hopen : open' shard seed (encodeAll rs) = .ok ⟨⟨shard, rs, seed, 0⟩, encodeAll rs⟩ :=
    open_ok_iff.2 ⟨rs, [], by simp, hv, .inl rfl, rfl⟩
  exact .of_sound (sound_of_open hopen).1 rfl rfl

/-- Every attempt keeps it. -/
theorem Held.step {a : Attempt} (hs : shard < 2 ^ 16) (h : Held shard f) (ha : a.Admissible)
    (hx : tryStep shard f a = some f') : Held shard f' := by
  cases a with
  | call op =>
    cases op with
    | append batch =>
      refine h.append hs ha ?_
      cases hb : f.appendBatch batch with
      | error e => simp [tryStep, LogFile.step, hb, Except.toOption] at hx
      | ok g => simpa [tryStep, LogFile.step, hb, Except.toOption] using hx
    | truncate start =>
      cases hx
      exact h.truncate start
    | compact upto snapHash =>
      cases hx
      exact h.compact ha upto
  | fails batch k =>
    rw [tryStep] at hx
    split at hx
    · cases hx
      exact { sound := h.sound, length_le := Nat.le_trans h.length_le (by simp [failAppend]) }
    · cases hx
  | reopen =>
    rw [tryStep] at hx
    cases ho : open' shard f.log.seedHash f.bytes with
    | error e => simp [ho, Except.toOption] at hx
    | ok g =>
      obtain rfl : g = f' := by simpa [ho, Except.toOption] using hx
      exact held_of_open ho

theorem held_run {h : History LogFile Attempt} (hs : shard < 2 ^ 16)
    (hr : AttemptRun shard seed h f) : Held shard f := by
  refine Run.invariant (I := fun _ g => Held shard g) (fun g h0 => held_of_open h0) ?_ hr
  intro h g a g' _ hheld ha hx
  exact hheld.step hs ha hx

/-! ## Further appends -/

/-- The log after `batches`, when all of them are taken. -/
def appendAll (f : LogFile) (batches : List (List PendingEntry)) : Except HaError LogFile :=
  batches.foldlM appendBatch f

/-- After any further batches, the file opens to the entries that are held. -/
def OpensExactly (shard : Nat) (f : LogFile) : Prop :=
  ∀ batches g, (∀ batch ∈ batches, ∀ e ∈ batch, e.Fits) → f.appendAll batches = .ok g →
    ∃ g', open' shard g.log.seedHash g.bytes = .ok g' ∧ g'.log.entries = g.log.entries

/-- An append that failed at `f` and left `f'` has left no trace. -/
def NoTrace (shard : Nat) (f f' : LogFile) : Prop :=
  f'.log.entries = f.log.entries ∧ OpensExactly shard f'

theorem appendAll_cons {batches : List (List PendingEntry)} {g : LogFile} :
    f.appendAll (batch :: batches) = .ok g ↔
      ∃ f', f.appendBatch batch = .ok f' ∧ f'.appendAll batches = .ok g := by
  unfold appendAll
  rw [List.foldlM_cons]
  cases f.appendBatch batch with
  | error e => simp [bind, Except.bind]
  | ok f' => simp [bind, Except.bind]

/-- A file that holds just the records of the log goes on doing so. -/
theorem exact_appendAll {batches : List (List PendingEntry)} {g : LogFile} (hs : shard < 2 ^ 16)
    (h : Held shard f) (hb : f.bytes = encodeAll f.log.entries)
    (hfit : ∀ batch ∈ batches, ∀ e ∈ batch, e.Fits) (hx : f.appendAll batches = .ok g) :
    Held shard g ∧ g.bytes = encodeAll g.log.entries := by
  induction batches generalizing f with
  | nil =>
    cases hx
    exact ⟨h, hb⟩
  | cons batch batches ih =>
    obtain ⟨f', hf', hrest⟩ := appendAll_cons.1 hx
    refine ih (h.append hs (hfit batch List.mem_cons_self) hf') ?_
      (fun b hmem => hfit b (List.mem_cons_of_mem _ hmem)) hrest
    obtain ⟨-, rfl⟩ := appendBatch_ok hf'
    rw [Log.appended, encodeAll_append, hb]

/-! ## Bytes that were left -/

/-- One more entry, of term `t`. Its payload ends in a byte that its other bytes differ from. -/
def probe (f : LogFile) (t : Nat) : PendingEntry :=
  ⟨KIND_ENTRY, t, f.log.lastIndex + 1, List.replicate 18 0 ++ [1]⟩

/-- A record that is read where `u` stands is the one that was written behind `u`, as far as the
two overlap. -/
theorem shifted {r : Record} {u v : List UInt8} (h : u ++ r.encode = r.encode ++ v) {i : Nat}
    (hi : i + u.length < r.encode.length) : r.encode[i + u.length]? = r.encode[i]? := by
  have hget := congrArg (fun bs : List UInt8 => bs[i + u.length]?) h
  simp only [List.getElem?_append_left hi] at hget
  rw [← hget, List.getElem?_append_right (by omega)]
  congr 1
  omega

/-- A byte of the payload. -/
theorem getElem?_payload {r : Record} {i : Nat} (hi : i < r.payload.length) :
    r.encode[HEADER_LEN + i]? = r.payload[i]? := by
  have hlen := length_header r
  rw [Record.encode, List.append_assoc, List.getElem?_append_right (by omega),
    List.getElem?_append_left (by omega)]
  congr 1
  omega

/-- Bytes that are followed by the probe and read as the probe are as long as a header up to its
term, and hold the term. -/
theorem term_of_shifted {r : Record} {u v : List UInt8} (h : u ++ r.encode = r.encode ++ v)
    (hu : u ≠ []) (hp : r.payload = List.replicate 18 0 ++ [1]) :
    slice u 10 18 = beBytes 8 r.term := by
  have hpos := List.length_pos_iff.2 hu
  have hlen : r.encode.length = 113 := by
    rw [length_encode, Record.wireLen, hp]
    rfl
  have hfar : 18 ≤ u.length := by
    rcases Nat.lt_or_ge u.length 18 with hlt | hge
    · -- the last byte of the payload would be one of the others
      exfalso
      have hpay : ∀ i < 19, r.encode[62 + i]? = (List.replicate 18 0 ++ [1])[i]? := fun i hi => by
        rw [← hp]
        exact getElem?_payload (by rw [hp]; exact hi)
      have hshift := shifted h (show 62 + (18 - u.length) + u.length < r.encode.length by omega)
      have hlast : r.encode[62 + 18]? = some 1 := hpay 18 (by decide)
      have hother : r.encode[62 + (18 - u.length)]? = some 0 := by
        rw [hpay _ (by omega), List.getElem?_append_left (by rw [List.length_replicate]; omega),
          List.getElem?_replicate_of_lt (by omega)]
      rw [show 62 + (18 - u.length) + u.length = 62 + 18 by omega, hlast, hother] at hshift
      cases hshift
    · exact hge
  obtain ⟨-, -, -, -, -, hterm, -⟩ := slice_header r v
  rw [← hterm, ← h]
  exact slice_prefix (List.prefix_append _ _) hfar

/-- The probe is taken, and the file that it leaves opens to the log only when the bytes that were
left hold its term. -/
theorem term_of_opens {u : List UInt8} {t : Nat}
    (hbytes : f.bytes = encodeAll f.log.entries ++ u) (hu : u ≠ []) (ht : t < 2 ^ 64)
    (hlast : f.log.lastIndex + 1 < 2 ^ 64) (hopen : OpensExactly shard f) :
    slice u 10 18 = beBytes 8 t := by
  have hfit : ∀ e ∈ [probe f t], e.Fits := by
    intro e he
    obtain rfl := List.mem_singleton.1 he
    exact
      { kind := (by decide : KIND_ENTRY < 2 ^ 8)
        term := ht
        index := hlast
        payload := by rw [probe, List.length_append, List.length_replicate]; decide }
  have hgap : Log.numberingGap (f.log.lastIndex + 1) [probe f t] = none := by
    simp [Log.numberingGap, probe]
  have htaken : ∃ g, f.appendBatch [probe f t] = .ok g := by
    rw [appendBatch, if_neg (by simp), hgap]
    exact ⟨_, rfl⟩
  obtain ⟨g, hg⟩ := htaken
  obtain ⟨g', hg', hentries⟩ := hopen [[probe f t]] g
    (fun batch hm => by rw [List.mem_singleton.1 hm]; exact hfit)
    (appendAll_cons.2 ⟨g, hg, rfl⟩)
  obtain ⟨-, rfl⟩ := appendBatch_ok hg
  obtain ⟨rs, v, hfile, -, -, rfl⟩ := open_ok_iff.1 hg'
  have hstage : Log.stage f.log.shard f.log.prevHashForNext [probe f t] =
      [Log.sealEntry f.log.shard f.log.prevHashForNext (probe f t)] := rfl
  obtain rfl : rs = f.log.entries ++
      [Log.sealEntry f.log.shard f.log.prevHashForNext (probe f t)] := hentries
  rw [hstage] at hfile
  generalize hr : Log.sealEntry f.log.shard f.log.prevHashForNext (probe f t) = r at hfile
  simp only [hbytes, encodeAll_append, encodeAll_cons, encodeAll_nil, List.append_nil,
    List.append_assoc, List.append_cancel_left_eq] at hfile
  have hterm : r.term = t := by rw [← hr]; rfl
  rw [← hterm]
  exact term_of_shifted hfile hu (by rw [← hr]; rfl)

/-- The file opens to the log after any further appends exactly when it holds just the records of
the log. -/
theorem exact_iff (hs : shard < 2 ^ 16) (h : Held shard f)
    (hlast : f.log.lastIndex + 1 < 2 ^ 64) :
    OpensExactly shard f ↔ f.bytes = encodeAll f.log.entries := by
  constructor
  · intro hopen
    obtain ⟨g', hg', hentries⟩ := hopen [] f (by simp) rfl
    obtain ⟨rs, u, hbytes, -, -, rfl⟩ := open_ok_iff.1 hg'
    obtain rfl : rs = f.log.entries := hentries
    rcases eq_or_ne u [] with rfl | hu
    · rw [hbytes, List.append_nil]
    · -- they would hold every term
      have h0 : slice u 10 18 = beBytes 8 0 :=
        term_of_opens hbytes hu (by decide) hlast hopen
      have h1 : slice u 10 18 = beBytes 8 1 :=
        term_of_opens hbytes hu (by decide) hlast hopen
      exact absurd (h0.symm.trans h1) (by decide)
  · intro hb batches g hfit hx
    obtain ⟨hg, hgb⟩ := exact_appendAll hs h hb hfit hx
    have hopen : open' shard g.log.seedHash (encodeAll g.log.entries) = .ok g.cleaned :=
      hg.sound.open_eq
    exact ⟨g.cleaned, by rw [hgb, hopen], rfl⟩

/-! ## The failed append -/

/-- A batch that is numbered on has bytes, and a number for its first entry. -/
theorem numbered_batch (hgap : Log.numberingGap (f.log.lastIndex + 1) batch = none)
    (hne : batch ≠ []) (hb : ∀ e ∈ batch, e.Fits) :
    appendBytes f.log.shard f.log.prevHashForNext batch ≠ [] ∧ f.log.lastIndex + 1 < 2 ^ 64 := by
  obtain ⟨e, es, rfl⟩ := List.exists_cons_of_ne_nil hne
  have he : e.index = f.log.lastIndex + 1 := by
    have := Log.numberingGap_eq_none hgap 0 e rfl
    omega
  refine ⟨fun hnil => ?_, he ▸ (hb e List.mem_cons_self).index⟩
  rw [appendBytes_eq, Log.stage, encodeAll_cons] at hnil
  have hpos := length_encode_pos (Log.sealEntry f.log.shard f.log.prevHashForNext e)
  rw [(List.append_eq_nil_iff.1 hnil).1] at hpos
  simp at hpos

/-- **Failed appends.** In every run, an append of entries that are numbered on fails after `k` of
its bytes have reached the file. It leaves no trace exactly when none have, and nothing was left in
the file by an earlier one. -/
theorem noTrace_iff {h : History LogFile Attempt} (hs : shard < 2 ^ 16)
    (hr : AttemptRun shard seed h f) (hne : batch ≠ []) (hb : ∀ e ∈ batch, e.Fits)
    (hgap : Log.numberingGap (f.log.lastIndex + 1) batch = none)
    (hk : k ≤ (appendBytes f.log.shard f.log.prevHashForNext batch).length) :
    NoTrace shard f (f.failAppend batch k) ↔ k = 0 ∧ f.bytes = encodeAll f.log.entries := by
  have hheld := held_run hs hr
  obtain ⟨hbytes, hlast⟩ := numbered_batch hgap hne hb
  have hfail : Held shard (f.failAppend batch k) :=
    { sound := hheld.sound, length_le := Nat.le_trans hheld.length_le (by simp [failAppend]) }
  have hiff : OpensExactly shard (f.failAppend batch k) ↔
      f.bytes ++ (appendBytes f.log.shard f.log.prevHashForNext batch).take k =
        encodeAll f.log.entries := exact_iff hs hfail hlast
  rw [NoTrace, hiff]
  constructor
  · rintro ⟨-, heq⟩
    have hlen := congrArg List.length heq
    have hle := hheld.length_le
    rw [List.length_append, List.length_take, Nat.min_eq_left hk] at hlen
    obtain rfl : k = 0 := by omega
    exact ⟨rfl, by simpa using heq⟩
  · rintro ⟨rfl, heq⟩
    exact ⟨rfl, by simpa using heq⟩

section Example

theorem magicBatch_fits : ∀ e ∈ magicBatch, e.Fits := by
  intro e he
  obtain rfl := List.mem_singleton.1 he
  exact ⟨by decide, by decide, by decide, by decide⟩

theorem emptyFile_run : AttemptRun 0 zeroHash [] emptyFile := .start rfl

/-- The first byte of a record reaches an empty log, and the write fails. The next append of the
same record is taken, and the log does not open any more. -/
theorem failAppend_fatal :
    AttemptRun 0 zeroHash [] emptyFile ∧ (∀ e ∈ magicBatch, e.Fits) ∧
      Log.numberingGap (emptyFile.log.lastIndex + 1) magicBatch = none ∧
      (∃ g, (emptyFile.failAppend magicBatch 1).appendAll [magicBatch] = .ok g ∧
        open' 0 g.log.seedHash g.bytes =
          .error (.corrupt "magic 失配 且其后仍存在合法记录(offset=0):中间损坏,拒绝启动")) ∧
      ¬NoTrace 0 emptyFile (emptyFile.failAppend magicBatch 1) := by
  have hfatal : ∃ g, (emptyFile.failAppend magicBatch 1).appendAll [magicBatch] = .ok g ∧
      open' 0 g.log.seedHash g.bytes =
        .error (.corrupt "magic 失配 且其后仍存在合法记录(offset=0):中间损坏,拒绝启动") :=
    ⟨_, rfl, rfl⟩
  refine ⟨emptyFile_run, magicBatch_fits, rfl, hfatal, fun hno => ?_⟩
  obtain ⟨g, hg, herr⟩ := hfatal
  obtain ⟨g', hopen, -⟩ := hno.2 [magicBatch] g
    (fun batch hm => List.mem_singleton.1 hm ▸ magicBatch_fits) hg
  rw [herr] at hopen
  cases hopen

/-- When none of its bytes have reached the file, it can be tried again. -/
theorem failAppend_retried :
    NoTrace 0 emptyFile (emptyFile.failAppend magicBatch 0) :=
  (noTrace_iff (by decide) emptyFile_run (by decide) magicBatch_fits rfl (Nat.zero_le _)).2
    ⟨rfl, rfl⟩

end Example

end Rdsctl.Ha.LogFile
