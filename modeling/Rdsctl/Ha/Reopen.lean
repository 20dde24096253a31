import Rdsctl.Ha.LogFile
import Rdsctl.Lib.Run

/-!
# Opening a log again

`append_batch`, `truncate_suffix` and `compact_upto` of `src/ha/log.rs` on the bytes of the file,
and the runs of these calls from an empty directory. `LogFile.Sound` is what they keep, and it is
enough for the file to open to the log that is held.
-/

namespace Rdsctl.Ha

open Sha256

/-- The entries of a batch have the widths of the source, and the payload a length that fits its
field. -/
structure PendingEntry.Fits (e : PendingEntry) : Prop where
  kind : e.kind < 2 ^ 8
  term : e.term < 2 ^ 64
  index : e.index < 2 ^ 64
  payload : e.payload.length < 2 ^ 32

namespace LogFile

/-! ## Writing -/

/-- The bytes of a batch, chained from `prev`. -/
def appendBytes (shard : Nat) : Hash → List PendingEntry → List UInt8
  | _, [] => []
  | prev, e :: es =>
    let header := headerBytes LOG_VER e.kind 0 shard e.term e.index prev e.payload.length
    let hash := recordHash header e.payload
    header ++ e.payload ++ hash.toList ++ appendBytes shard hash es

/-- Append a batch. -/
def appendBatch (f : LogFile) (batch : List PendingEntry) : Except HaError LogFile :=
  if batch.isEmpty then .ok f
  else match Log.numberingGap (f.log.lastIndex + 1) batch with
    | some (expect, actual) =>
      .error (.corrupt ("追加索引不连续:期望 " ++ toString expect ++ ",实际 " ++ toString actual ++
        "(raft 指派错误)"))
    | none =>
      let prev := f.log.prevHashForNext
      .ok ⟨{ f.log with entries := f.log.entries ++ Log.stage f.log.shard prev batch },
        f.bytes ++ appendBytes f.log.shard prev batch⟩

/-- The bytes of records that are moved onto the hash `prev`; the header is written with the shard
of the log. -/
def rewriteBytes (shard : Nat) : Hash → List Record → List UInt8
  | _, [] => []
  | prev, r :: rs =>
    let header := headerBytes LOG_VER r.kind r.flags shard r.term r.index prev r.payload.length
    let hash := recordHash header r.payload
    header ++ r.payload ++ hash.toList ++ rewriteBytes shard hash rs

/-- Replace the file by `keep`, chained from `seed`. -/
def rewrite (f : LogFile) (keep : List Record) (seed : Hash) : LogFile :=
  ⟨{ f.log with entries := Log.rechain f.log.shard seed keep, seedHash := seed },
    rewriteBytes f.log.shard seed keep⟩

/-- Drop the records from `start` on. -/
def truncateSuffix (f : LogFile) (start : Nat) : LogFile :=
  if f.log.lastIndex < start then f
  else f.rewrite (f.log.entries.filter fun r => decide (r.index < start)) f.log.seedHash

/-- Drop the records up to `upto` and anchor the chain at the snapshot's hash. -/
def compactUpto (f : LogFile) (upto : Nat) (snapHash : Hash) : LogFile :=
  f.rewrite (f.log.entries.filter fun r => decide (upto < r.index)) snapHash

/-- A call on an open log. -/
inductive Op
  | append (batch : List PendingEntry)
  | truncate (start : Nat)
  | compact (upto : Nat) (snapHash : Hash)

/-- The log after a successful call. -/
def step (f : LogFile) : Op → Option LogFile
  | .append batch => (f.appendBatch batch).toOption
  | .truncate start => some (f.truncateSuffix start)
  | .compact upto snapHash => some (f.compactUpto upto snapHash)

/-- The calls in question: entries that fit, and the hash of a snapshot. -/
def Op.Admissible : Op → Prop
  | .append batch => ∀ e ∈ batch, e.Fits
  | .truncate _ => True
  | .compact _ snapHash => snapHash ≠ zeroHash

/-! ## Indices -/

variable {shard a : Nat} {seed prev : Hash} {rs : List Record} {es : List PendingEntry}
  {f f' : LogFile}

/-- Records that are numbered have no gap. -/
theorem indexGap_none (h : Log.Indexed a rs) : Log.indexGap rs = none := by
  induction rs generalizing a with
  | nil => rfl
  | cons r rs ih =>
    cases rs with
    | nil => rfl
    | cons r' rs =>
      have hr : r.index = a := by simpa using h 0 r rfl
      have hr' : r'.index = a + 1 := h 1 r' rfl
      rw [Log.indexGap, if_neg (by omega), ih h.tail]

theorem indexed_append {rs' : List Record} (h : Log.Indexed a rs)
    (h' : Log.Indexed (a + rs.length) rs') : Log.Indexed a (rs ++ rs') := by
  intro j r hr
  rcases Nat.lt_or_ge j rs.length with hj | hj
  · rw [List.getElem?_append_left hj] at hr
    exact h j r hr
  · rw [List.getElem?_append_right hj] at hr
    have := h' _ r hr
    omega

theorem indexed_take (h : Log.Indexed a rs) (k : Nat) : Log.Indexed a (rs.take k) := by
  intro j r hr
  rw [List.getElem?_take] at hr
  split at hr
  · exact h j r hr
  · cases hr

theorem indexed_drop (h : Log.Indexed a rs) (k : Nat) : Log.Indexed (a + k) (rs.drop k) := by
  intro j r hr
  rw [List.getElem?_drop] at hr
  have := h _ r hr
  omega

theorem indexed_rechain (h : Log.Indexed a rs) (shard : Nat) (prev : Hash) :
    Log.Indexed a (Log.rechain shard prev rs) := by
  intro j r hr
  obtain ⟨r', hr', hi, -⟩ := Log.getElem?_rechain hr
  rw [hi, h j r' hr']

theorem indexed_stage (h : Log.numberingGap a es = none) (shard : Nat) (prev : Hash) :
    Log.Indexed a (Log.stage shard prev es) := by
  intro j r hr
  obtain ⟨e, he, hi, -⟩ := Log.getElem?_stage hr
  rw [hi, Log.numberingGap_eq_none h j e he]

/-- Where the next entry goes. -/
theorem lastIndex_succ {l : Log} (h : Log.Indexed a l.entries) (hne : l.entries ≠ []) :
    l.lastIndex + 1 = a + l.entries.length := by
  have hlast : l.entries.getLast? = some (l.entries.getLast hne) := List.getLast?_eq_some_getLast hne
  have hpos := List.length_pos_iff.2 hne
  have hi := h _ _ (List.getLast?_eq_getElem? ▸ hlast)
  simp only [Log.lastIndex, hlast, Option.map_some, Option.getD_some]
  omega

/-! ## Bytes -/

/-- The bytes of a batch are those of its records. -/
theorem appendBytes_eq (shard : Nat) (prev : Hash) (es : List PendingEntry) :
    appendBytes shard prev es = encodeAll (Log.stage shard prev es) := by
  induction es generalizing prev with
  | nil => rfl
  | cons e es ih =>
    rw [appendBytes, Log.stage, encodeAll_cons, ih]
    rfl

/-- The bytes of a rewritten log are those of its records, when these are of its shard. -/
theorem rewriteBytes_eq (prev : Hash) (h : ∀ r ∈ rs, r.shard = shard) :
    rewriteBytes shard prev rs = encodeAll (Log.rechain shard prev rs) := by
  induction rs generalizing prev with
  | nil => rfl
  | cons r rs ih =>
    have hr : r.shard = shard := h r List.mem_cons_self
    rw [rewriteBytes, Log.rechain, encodeAll_cons, ih _ fun r' hr' => h r' (by simp [hr'])]
    simp only [Record.encode, Record.header, Log.reseal, hr]

theorem fits_stage (hs : shard < 2 ^ 16) (h : ∀ e ∈ es, e.Fits) (prev : Hash) :
    ∀ r ∈ Log.stage shard prev es, r.Fits := by
  induction es generalizing prev with
  | nil => simp [Log.stage]
  | cons e es ih =>
    have he : e.Fits := h e List.mem_cons_self
    intro r hr
    rcases List.mem_cons.1 hr with rfl | hr
    · exact ⟨(by decide : LOG_VER < 2 ^ 16), he.kind, (by decide : 0 < 2 ^ 8), hs, he.term, he.index, he.payload⟩
    · exact ih (fun e' he' => h e' (by simp [he'])) _ r hr

theorem fits_rechain (h : ∀ r ∈ rs, r.Fits) (shard : Nat) (prev : Hash) :
    ∀ r ∈ Log.rechain shard prev rs, r.Fits := by
  induction rs generalizing prev with
  | nil => simp [Log.rechain]
  | cons r rs ih =>
    have hr : r.Fits := h r List.mem_cons_self
    intro r' hr'
    rcases List.mem_cons.1 hr' with rfl | hr'
    · exact ⟨(by decide : LOG_VER < 2 ^ 16), hr.kind, hr.flags, hr.shard, hr.term, hr.index, hr.payload⟩
    · exact ih (fun r'' hr'' => h r'' (by simp [hr''])) _ r' hr'

/-! ## What the calls keep -/

/-- The file holds exactly the records of the log, and these are chained, numbered and of the
log's shard; the numbers start at 1 when there is no snapshot. -/
structure Sound (shard : Nat) (f : LogFile) : Prop where
  shard_eq : f.log.shard = shard
  reads : Reads shard f.log.seedHash f.log.entries
  indexed : ∃ a, Log.Indexed a f.log.entries ∧ (f.log.seedHash = zeroHash → a = 1)
  bytes_eq : f.bytes = encodeAll f.log.entries
  truncated : f.log.truncatedTailBytes = 0

/-- A sound log is that of a file that opens. -/
theorem Sound.valid (h : Sound shard f) : Valid shard f.log.seedHash f.log.entries := by
  obtain ⟨a, ha, h1⟩ := h.indexed
  refine { toReads := h.reads, consecutive := indexGap_none ha, first := fun hz r hr => ?_ }
  have h0 : f.log.entries[0]? = some r := by rwa [← List.head?_eq_getElem?]
  have := ha 0 r h0
  have := h1 hz
  omega

/-- The file of a sound log opens to it. -/
theorem Sound.open_eq (h : Sound shard f) : open' shard f.log.seedHash f.bytes = .ok f := by
  have hf : f = ⟨⟨shard, f.log.entries, f.log.seedHash, 0⟩, encodeAll f.log.entries⟩ := by
    rw [← h.bytes_eq, ← h.truncated, ← h.shard_eq]
  exact open_ok_iff.2 ⟨f.log.entries, [], by simp [h.bytes_eq], h.valid, .inl rfl, hf⟩

/-- An empty file opens to a sound log. -/
theorem sound_open (h : open' shard seed [] = .ok f) : Sound shard f := by
  obtain ⟨rs, u, hnil, hv, -, rfl⟩ := open_ok_iff.1 h
  obtain ⟨hrs, rfl⟩ := List.append_eq_nil_iff.1 hnil.symm
  cases rs with
  | nil =>
    exact
      { shard_eq := rfl
        reads := hv.toReads
        indexed := ⟨1, by intro j r hr; simp at hr, fun _ => rfl⟩
        bytes_eq := rfl
        truncated := rfl }
  | cons r rs =>
    have hpos := length_encode_pos r
    rw [encodeAll_cons] at hrs
    obtain ⟨hr, -⟩ := List.append_eq_nil_iff.1 hrs
    rw [hr] at hpos
    simp at hpos

/-- What a batch that is taken leaves. -/
theorem appendBatch_ok (hx : f.appendBatch es = .ok f') :
    Log.numberingGap (f.log.lastIndex + 1) es = none ∧
      f' = ⟨f.log.appended es,
        f.bytes ++ encodeAll (Log.stage f.log.shard f.log.prevHashForNext es)⟩ := by
  unfold appendBatch at hx
  split at hx
  · next he =>
    cases hx
    rw [List.isEmpty_iff] at he
    subst he
    exact ⟨rfl, by simp [Log.appended, Log.stage]⟩
  · split at hx
    · cases hx
    · next hgap =>
      cases hx
      exact ⟨hgap, by rw [appendBytes_eq]; rfl⟩

theorem Sound.append (hs : shard < 2 ^ 16) (h : Sound shard f) (hb : ∀ e ∈ es, e.Fits)
    (hx : f.appendBatch es = .ok f') : Sound shard f' := by
  obtain ⟨hgap, rfl⟩ := appendBatch_ok hx
  obtain ⟨a, ha, h1⟩ := h.indexed
  obtain ⟨rfl⟩ := h.shard_eq
  refine
    { shard_eq := rfl
      reads := { chained := h.reads.chained.appended rfl, fits := fun r hr => ?_ }
      indexed := ?_
      bytes_eq := by rw [Log.appended, encodeAll_append, h.bytes_eq]
      truncated := h.truncated }
  · rcases List.mem_append.1 hr with hr | hr
    · exact h.reads.fits r hr
    · exact fits_stage hs hb _ r hr
  · have hst := indexed_stage hgap f.log.shard f.log.prevHashForNext
    cases he : f.log.entries with
    | nil =>
      rw [Log.lastIndex_nil he] at hst
      exact ⟨1, by simpa [Log.appended, he] using hst, fun _ => rfl⟩
    | cons r rs =>
      rw [lastIndex_succ ha (by simp [he])] at hst
      exact ⟨a, by simpa [Log.appended, he] using indexed_append ha hst, h1⟩

theorem Sound.rewrite {keep : List Record} (h : Sound shard f) (hk : ∀ r ∈ keep, r ∈ f.log.entries)
    (hi : ∃ a, Log.Indexed a keep ∧ (seed = zeroHash → a = 1)) :
    Sound shard (f.rewrite keep seed) := by
  obtain ⟨rfl⟩ := h.shard_eq
  have hshard : ∀ r ∈ keep, r.shard = f.log.shard := fun r hr =>
    h.reads.chained.shard_eq r (hk r hr)
  obtain ⟨a, ha, h1⟩ := hi
  exact
    { shard_eq := rfl
      reads :=
        { chained := Log.chained_rechain seed hshard
          fits := fits_rechain (fun r hr => h.reads.fits r (hk r hr)) _ _ }
      indexed := ⟨a, indexed_rechain ha _ _, h1⟩
      bytes_eq := rewriteBytes_eq seed hshard
      truncated := h.truncated }

theorem Sound.truncate (h : Sound shard f) (start : Nat) : Sound shard (f.truncateSuffix start) := by
  unfold truncateSuffix
  split
  · exact h
  · obtain ⟨a, ha, h1⟩ := h.indexed
    refine h.rewrite (fun r hr => (List.mem_filter.1 hr).1) ⟨a, ?_, h1⟩
    rw [ha.filter_lt]
    exact indexed_take ha _

theorem Sound.compact {snapHash : Hash} (h : Sound shard f) (hz : snapHash ≠ zeroHash)
    (upto : Nat) : Sound shard (f.compactUpto upto snapHash) := by
  obtain ⟨a, ha, -⟩ := h.indexed
  refine h.rewrite (fun r hr => (List.mem_filter.1 hr).1)
    ⟨a + (upto + 1 - a), ?_, fun heq => absurd heq hz⟩
  rw [ha.filter_gt]
  exact indexed_drop ha _

/-- Every call keeps a log sound. -/
theorem Sound.step {op : Op} (hs : shard < 2 ^ 16) (h : Sound shard f) (hop : op.Admissible)
    (hx : f.step op = some f') : Sound shard f' := by
  cases op with
  | append batch =>
    refine h.append hs hop ?_
    cases ha : f.appendBatch batch with
    | error e => simp [LogFile.step, ha, Except.toOption] at hx
    | ok g => simpa [LogFile.step, ha, Except.toOption] using hx
  | truncate start =>
    cases hx
    exact h.truncate start
  | compact upto snapHash =>
    cases hx
    exact h.compact hop upto

/-- The runs of calls from an empty directory, opened with the hash `seed`. -/
abbrev CallRun (shard : Nat) (seed : Hash) : History LogFile Op → LogFile → Prop :=
  Run step (fun _ _ op => op.Admissible) fun f => open' shard seed [] = .ok f

theorem sound_run {h : History LogFile Op} (hs : shard < 2 ^ 16) (hr : CallRun shard seed h f) :
    Sound shard f := by
  refine Run.invariant (I := fun _ g => Sound shard g) (fun g h0 => sound_open h0) ?_ hr
  intro h g op g' _ hsound hop hx
  exact hsound.step hs hop hx

/-- **Opening again.** After any calls, the file opens with the current seed hash to the log that is
held, and nothing is cut. -/
theorem open_again {h : History LogFile Op} (hs : shard < 2 ^ 16) (hr : CallRun shard seed h f) :
    open' shard f.log.seedHash f.bytes = .ok f ∧ f.log.truncatedTailBytes = 0 :=
  ⟨(sound_run hs hr).open_eq, (sound_run hs hr).truncated⟩

/-- Two entries appended to the log of shard 3, and a snapshot that covers the first. -/
theorem open_again_compacted :
    ∃ f, f.log.lastIndex = 2 ∧ f.log.len = 1 ∧ open' 3 f.log.seedHash f.bytes = .ok f ∧
      f.log.truncatedTailBytes = 0 := by
  let batch : List PendingEntry := [⟨KIND_ENTRY, 1, 1, [82, 68, 83, 67]⟩, ⟨KIND_ENTRY, 1, 2, []⟩]
  let snap : Hash := Vector.replicate 32 7
  have h0 : open' 3 zeroHash [] = .ok ⟨⟨3, [], zeroHash, 0⟩, []⟩ := rfl
  have hb : (Op.append batch).Admissible := by
    intro e he
    rcases List.mem_cons.1 he with rfl | he
    · exact ⟨by decide, by decide, by decide, by decide⟩
    · obtain rfl := List.mem_singleton.1 he
      exact ⟨by decide, by decide, by decide, by decide⟩
  have hsnap : (Op.compact 1 snap).Admissible := by
    show snap ≠ zeroHash
    decide
  exact ⟨_, rfl, rfl, open_again (by decide) (.step (.step (.start h0) hb rfl) hsnap rfl)⟩

end LogFile

end Rdsctl.Ha
