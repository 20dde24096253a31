import Rdsctl.Ha.Reopen

/-!
# Torn and altered files

What `Log::open` of `src/ha/log.rs` makes of a file whose last append was cut short, and of a file
in which the bytes of a record before the last one were changed. Both turn on the search for the
magic number behind the place where the reading stops.
-/

namespace Rdsctl.Ha.LogFile

open Sha256

variable {shard : Nat} {seed prev : Hash} {r r' : Record} {rs rs' : List Record}
  {u t bs bs' : List UInt8} {f g : LogFile}

/-! ## The search for a magic number -/

theorem hasMagic_append (h : Log.hasMagic bs = true) (as : List UInt8) :
    Log.hasMagic (as ++ bs) = true := by
  induction as with
  | nil => exact h
  | cons a as ih => rw [List.cons_append, Log.hasMagic, ih, Bool.or_true]

/-- A record starts with the magic number. -/
theorem hasMagic_encode (r : Record) (rest : List UInt8) :
    Log.hasMagic (r.encode ++ rest) = true := by
  have hm : (r.encode ++ rest).take 4 = beBytes 4 MAGIC := by
    simpa [slice] using (slice_header r rest).1
  cases hx : r.encode ++ rest with
  | nil =>
    have := length_encode_pos r
    simp [(List.append_eq_nil_iff.1 hx).1] at this
  | cons b bs => rw [Log.hasMagic, ← hx, hm, BEq.rfl, Bool.true_or]

/-! ## Valid files -/

/-- Records without a gap are numbered from the first. -/
theorem indexed_of_gap (h : Log.indexGap (r :: rs) = none) : Log.Indexed r.index (r :: rs) := by
  induction rs generalizing r with
  | nil =>
    intro j r' hr
    cases j with
    | zero => simpa using (congrArg (Option.map Record.index) hr).symm
    | succ j => simp at hr
  | cons r1 rs ih =>
    rw [Log.indexGap] at h
    split at h
    · cases h
    · next hi =>
      rw [not_not] at hi
      intro j r' hr
      cases j with
      | zero => simpa using (congrArg (Option.map Record.index) hr).symm
      | succ j =>
        have := ih h j r' (by simpa using hr)
        omega

/-- What a file opens to, when nothing is cut, is sound. -/
theorem sound_of_open (h : open' shard seed f.bytes = .ok f) :
    Sound shard f ∧ f.log.seedHash = seed := by
  obtain ⟨rs, u, hb, hv, -, rfl⟩ := open_ok_iff.1 h
  have hu : u = [] := List.self_eq_append_right.1 hb
  subst hu
  refine ⟨?_, rfl⟩
  refine
    { shard_eq := rfl, reads := hv.toReads, indexed := ?_, bytes_eq := rfl, truncated := rfl }
  cases rs with
  | nil => exact ⟨1, by intro j r hr; simp at hr, fun _ => rfl⟩
  | cons r rs => exact ⟨r.index, indexed_of_gap hv.consecutive, fun hz => hv.first hz r rfl⟩

theorem Valid.left (h : Valid shard seed (rs ++ rs')) : Valid shard seed rs := by
  refine { toReads := (reads_append.1 h.toReads).1, consecutive := ?_, first := ?_ }
  · cases rs with
    | nil => rfl
    | cons r rs =>
      have hi := indexed_take (indexed_of_gap h.consecutive) (rs.length + 1)
      exact indexGap_none (by simpa using hi)
  · intro hz r hr
    refine h.first hz r ?_
    cases rs with
    | nil => simp at hr
    | cons r1 rs => simpa using hr

/-! ## An append that was cut short -/

/-- The records of a batch that are completely in `t`, and the bytes after them. -/
def written : List Record → List UInt8 → List Record × List UInt8
  | [], t => ([], t)
  | r :: rs, t =>
    if r.encode.length ≤ t.length then
      (r :: (written rs (t.drop r.encode.length)).1, (written rs (t.drop r.encode.length)).2)
    else ([], t)

/-- A proper prefix of a batch: some records, and a proper prefix of the next one. -/
theorem written_spec (h : t <+: encodeAll rs) (hne : t ≠ encodeAll rs) :
    ∃ r rest, rs = (written rs t).1 ++ r :: rest ∧
      t = encodeAll (written rs t).1 ++ (written rs t).2 ∧
      (written rs t).2 <+: r.encode ∧ (written rs t).2.length < r.encode.length := by
  induction rs generalizing t with
  | nil =>
    rw [encodeAll_nil] at h hne
    exact absurd (List.prefix_nil.1 h) hne
  | cons r rs ih =>
    rw [written]
    rw [encodeAll_cons] at h hne
    split
    · next hle =>
      obtain ⟨t', rfl⟩ := List.prefix_of_prefix_length_le (List.prefix_append _ _) h hle
      rw [List.drop_left]
      obtain ⟨r1, rest, hrs, ht, hu, hlen⟩ :=
        ih ((List.prefix_append_right_inj _).1 h) fun heq => hne (by rw [heq])
      exact ⟨r1, rest, by rw [List.cons_append, ← hrs],
        by rw [encodeAll_cons, List.append_assoc, ← ht], hu, hlen⟩
    · next hlt =>
      have hlt : t.length < r.encode.length := Nat.lt_of_not_le hlt
      exact ⟨r, rs, rfl, rfl, List.prefix_of_prefix_length_le h (List.prefix_append _ _) (Nat.le_of_lt hlt),
        hlt⟩

theorem slice_prefix {a b : Nat} (h : bs <+: bs') (hb : b ≤ bs.length) :
    slice bs a b = slice bs' a b := by
  obtain ⟨cs, rfl⟩ := h
  rcases Nat.lt_or_ge b a with hab | hab
  · simp [slice, show b - a = 0 by omega]
  · rw [slice, slice, List.drop_append_of_le_length (by omega),
      List.take_append_of_le_length (by rw [List.length_drop]; omega)]

/-- A proper prefix of a record is taken for a tail. -/
theorem nextRecord_torn (hf : r.Fits) (hver : r.ver = LOG_VER) (hs : r.shard = shard)
    (hu : u <+: r.encode) (hlen : u.length < r.encode.length) :
    u = [] ∨ ∃ why, nextRecord shard prev u = .error (.tail why) := by
  rcases eq_or_ne u [] with hnil | hnil
  · exact .inl hnil
  refine .inr ?_
  rcases Nat.lt_or_ge u.length HEADER_LEN with hh | hh
  · unfold nextRecord
    simp only [if_neg hnil, if_pos hh]
    exact ⟨_, rfl⟩
  obtain ⟨hm', hver', -, -, hs', -, -, -, hl'⟩ := slice_header r []
  have hfield : ∀ a b, b ≤ HEADER_LEN → slice u a b = slice (r.encode ++ []) a b := fun a b hb =>
    slice_prefix (by rwa [List.append_nil]) (by omega)
  have hm : ofBeBytes (slice u 0 4) = MAGIC := by
    rw [hfield 0 4 (by decide), hm']
    decide
  have hv : (recordAt u).ver = LOG_VER := by
    rw [recordAt, hfield 4 6 (by decide), hver', ofBeBytes_of_lt hf.ver, hver]
  have hsh : (recordAt u).shard = shard := by
    rw [recordAt, hfield 8 10 (by decide), hs', ofBeBytes_of_lt hf.shard, hs]
  have hpl : payloadLen u = r.payload.length := by
    rw [payloadLen, hfield 58 62 (by decide), hl', ofBeBytes_of_lt hf.payload]
  have hshort : u.length < HEADER_LEN + payloadLen u + HASH_LEN := by
    rwa [hpl, ← Record.wireLen, ← length_encode]
  simp only [nextRecord, if_neg hnil, if_neg (Nat.not_lt.2 hh), hm, hv, hsh, ne_eq,
    not_true_eq_false, if_false, if_pos hshort]
  split
  · exact ⟨_, rfl⟩
  · exact ⟨_, rfl⟩

/-- **Torn tails.** While the batch is appended to a file that is in order, the power fails, and the
file ends after `t`. It opens with the old entries and the completely written ones exactly when the
torn record shows no magic number after its first four bytes. -/
theorem torn_iff {batch : List PendingEntry} (hs : shard < 2 ^ 16)
    (hf : open' shard seed f.bytes = .ok f) (hb : ∀ e ∈ batch, e.Fits)
    (hx : f.appendBatch batch = .ok g) (ht : f.bytes ++ t <+: g.bytes)
    (hne : f.bytes ++ t ≠ g.bytes) :
    (∃ f', open' shard seed (f.bytes ++ t) = .ok f' ∧ f'.log.entries = f.log.entries ++
        (written (Log.stage shard f.log.prevHashForNext batch) t).1) ↔
      Log.hasMagic
        ((written (Log.stage shard f.log.prevHashForNext batch) t).2.drop 4) = false := by
  obtain ⟨hsound, rfl⟩ := sound_of_open hf
  have hvalid := (hsound.append hs hb hx).valid
  obtain ⟨-, rfl⟩ := appendBatch_ok hx
  rw [hsound.shard_eq] at ht hne
  rw [List.prefix_append_right_inj] at ht
  obtain ⟨r, rest, hst, hu, hpre, hlen⟩ := written_spec ht fun heq => hne (by rw [heq])
  generalize (written (Log.stage shard f.log.prevHashForNext batch) t).1 = w at hst hu ⊢
  generalize (written (Log.stage shard f.log.prevHashForNext batch) t).2 = u at hu hpre hlen ⊢
  have hentries : (f.log.appended batch).entries = (f.log.entries ++ w) ++ r :: rest := by
    rw [Log.appended, hsound.shard_eq, hst, List.append_assoc]
  have hall : Valid shard f.log.seedHash ((f.log.entries ++ w) ++ r :: rest) := hentries ▸ hvalid
  obtain ⟨⟨hfits, hver, hshard, -⟩, -⟩ := reads_cons.1 (reads_append.1 hall.toReads).2
  have hfile : f.bytes ++ t = encodeAll (f.log.entries ++ w) ++ u := by
    rw [hu, hsound.bytes_eq, encodeAll_append, List.append_assoc]
  rw [hfile]
  have htorn : u = [] ∨ ∃ why, nextRecord shard
      (Log.chainEnd f.log.seedHash (f.log.entries ++ w)) u = .error (.tail why) :=
    nextRecord_torn hfits hver hshard hpre hlen
  rcases htorn with rfl | ⟨why, htail⟩
  · exact ⟨fun _ => rfl, fun _ => ⟨_, open_ok_iff.2 ⟨_, [], rfl, hall.left, .inl rfl, rfl⟩, rfl⟩⟩
  · refine ⟨fun hopen => ?_, fun hm =>
      ⟨_, open_ok_iff.2 ⟨_, u, rfl, hall.left, .inr ⟨⟨why, htail⟩, hm⟩, rfl⟩, rfl⟩⟩
    obtain ⟨f', hopen, -⟩ := hopen
    rw [open_tail hall.left.toReads htail] at hopen
    split at hopen
    · cases hopen
    · next hm => simpa using hm

section TornExample

/-- A batch of one entry whose payload is the magic number. -/
def magicBatch : List PendingEntry := [⟨KIND_ENTRY, 1, 1, [0x52, 0x44, 0x53, 0x43]⟩]

/-- An empty log of shard 0. -/
def emptyFile : LogFile := ⟨⟨0, [], zeroHash, 0⟩, []⟩

/-- The torn batch: its header and its payload. -/
def tornBatch : List UInt8 := (appendBytes 0 zeroHash magicBatch).take 66

/-- A torn entry whose payload is the magic number keeps an empty log from opening. -/
theorem torn_magic_fatal :
    open' 0 zeroHash emptyFile.bytes = .ok emptyFile ∧ (∀ e ∈ magicBatch, e.Fits) ∧
      (∃ g, emptyFile.appendBatch magicBatch = .ok g ∧ emptyFile.bytes ++ tornBatch <+: g.bytes ∧
        emptyFile.bytes ++ tornBatch ≠ g.bytes) ∧
      open' 0 zeroHash (emptyFile.bytes ++ tornBatch) =
        .error (.corrupt "哈希不完整 且其后仍存在合法记录(offset=0):中间损坏,拒绝启动") := by
  refine ⟨rfl, ?_, ⟨_, rfl, ?_, ?_⟩, ?_⟩
  · intro e he
    obtain rfl := List.mem_singleton.1 he
    exact ⟨by decide, by decide, by decide, by decide⟩
  · exact List.take_prefix 66 (appendBytes 0 zeroHash magicBatch)
  · intro h
    exact absurd (congrArg List.length h) (by decide +kernel)
  · rfl

/-- The same entry cut in its header leaves the empty log. -/
theorem torn_header_dropped :
    ∃ f', open' 0 zeroHash ((appendBytes 0 zeroHash magicBatch).take 10) = .ok f' ∧
      f'.log.entries = [] := by
  have hb : ∀ e ∈ magicBatch, e.Fits := by
    intro e he
    obtain rfl := List.mem_singleton.1 he
    exact ⟨by decide, by decide, by decide, by decide⟩
  have hne : emptyFile.bytes ++ (appendBytes 0 zeroHash magicBatch).take 10 ≠
      emptyFile.bytes ++ appendBytes 0 zeroHash magicBatch := by
    intro h
    exact absurd (congrArg List.length h) (by decide +kernel)
  have hpre : emptyFile.bytes ++ (appendBytes 0 zeroHash magicBatch).take 10 <+:
      emptyFile.bytes ++ appendBytes 0 zeroHash magicBatch :=
    List.take_prefix 10 (appendBytes 0 zeroHash magicBatch)
  have hopen : open' 0 zeroHash emptyFile.bytes = .ok emptyFile := rfl
  obtain ⟨f', hf', hentries⟩ := (torn_iff (by decide) hopen hb rfl hpre hne).2 rfl
  exact ⟨f', hf', hentries⟩

end TornExample

/-! ## An altered record -/

/-- Reading goes through known records and stops behind them. -/
theorem encodeAll_append_eq {y : List UInt8} {stop : Stop} (hr : Reads shard seed rs)
    (hr' : Reads shard seed rs') (h : encodeAll rs ++ y = encodeAll rs' ++ u)
    (hu : nextRecord shard (Log.chainEnd seed rs') u = .error stop) :
    ∃ ws, rs' = rs ++ ws ∧ y = encodeAll ws ++ u := by
  induction rs generalizing seed rs' with
  | nil => exact ⟨rs', rfl, h⟩
  | cons r rs ih =>
    rw [encodeAll_cons, List.append_assoc] at h
    have hx := nextRecord_encode hr (encodeAll rs ++ y)
    cases rs' with
    | nil =>
      rw [encodeAll_nil, List.nil_append] at h
      rw [h] at hx
      rw [show Log.chainEnd seed [] = seed from rfl, hx] at hu
      cases hu
    | cons r' rs' =>
      rw [encodeAll_cons, List.append_assoc] at h
      rw [h, nextRecord_encode hr'] at hx
      obtain ⟨rfl, hrest⟩ : r' = r ∧ encodeAll rs' ++ u = encodeAll rs ++ y := by
        simpa using hx
      rw [chainEnd_cons] at hu
      obtain ⟨ws, rfl, hy⟩ := ih (reads_cons.1 hr).2 (reads_cons.1 hr').2 hrest.symm hu
      exact ⟨ws, rfl, hy⟩

theorem Droppable.stops (h : Droppable shard prev u) :
    ∃ stop, nextRecord shard prev u = .error stop := by
  rcases h with rfl | ⟨⟨why, hu⟩, -⟩
  · exact ⟨_, nextRecord_nil shard prev⟩
  · exact ⟨_, hu⟩

/-- The altered bytes, with the records that follow them, can still be cut into records that are
read after `pre` and an end that is dropped, where the first record has another payload length
than `r`. -/
def Reframed (shard : Nat) (seed : Hash) (pre : List Record) (r : Record) (post : List Record)
    (x : List UInt8) : Prop :=
  ∃ r' rs u, x ++ encodeAll post = encodeAll (r' :: rs) ++ u ∧
    r'.payload.length ≠ r.payload.length ∧ Valid shard seed (pre ++ r' :: rs) ∧
    Droppable shard (Log.chainEnd seed (pre ++ r' :: rs)) u

/-- SHA-256 does not collide on a record and the record that was altered into `x`. -/
def NoCollision (r : Record) (x : List UInt8) : Prop :=
  ∀ r' : Record, x = r'.encode → recordHash r'.header r'.payload = recordHash r.header r.payload →
    r'.payload ++ r'.header = r.payload ++ r.header

variable {pre post ws : List Record} {x : List UInt8}

/-- An altered record of the same payload length breaks the chain. -/
theorem altered_hash_ne (hr : r.verifyHash = true) (hr' : r'.verifyHash = true)
    (hne : r'.encode ≠ r.encode) (hcoll : NoCollision r r'.encode) : r'.hash ≠ r.hash := by
  intro heq
  have hh : recordHash r.header r.payload = r.hash := by simpa [Record.verifyHash] using hr
  have hh' : recordHash r'.header r'.payload = r'.hash := by simpa [Record.verifyHash] using hr'
  have hsum := hcoll r' rfl (by rw [hh, hh', heq])
  obtain ⟨hp, hhd⟩ := List.append_inj' hsum (by rw [length_header, length_header])
  exact hne (by rw [Record.encode, Record.encode, hp, hhd, heq])

/-- Records that are chained to one hash are not read after another. -/
theorem unchained_stuck (hpost : Reads shard prev post) (hne : post ≠ []) {prev' : Hash}
    (hp : prev' ≠ prev) (hws : Reads shard prev' ws) (hcut : encodeAll post = encodeAll ws ++ u)
    (hd : Droppable shard (Log.chainEnd prev' ws) u) : False := by
  obtain ⟨r, rs, rfl⟩ := List.exists_cons_of_ne_nil hne
  obtain ⟨⟨hf, hver, hs, hv, rfl⟩, -⟩ := reads_cons.1 hpost
  have hx : nextRecord shard prev' (r.encode ++ encodeAll rs) = _ :=
    nextRecord_verified hf hver hs hv (encodeAll rs)
  rw [if_pos hp.symm, ← encodeAll_cons, hcut] at hx
  cases ws with
  | nil =>
    rw [encodeAll_nil, List.nil_append] at hx hcut
    rcases hd with rfl | ⟨⟨why, hu⟩, -⟩
    · rw [nextRecord_nil] at hx
      cases hx
    · rw [show Log.chainEnd prev' [] = prev' from rfl, hx] at hu
      cases hu
  | cons r' ws =>
    rw [encodeAll_cons, List.append_assoc, nextRecord_encode hws] at hx
    cases hx

/-- A file with an altered record opens only when it was reframed. -/
theorem reframed_of_open (hv : Valid shard seed (pre ++ r :: post)) (hpost : post ≠ [])
    (hlen : x.length = r.encode.length) (hne : x ≠ r.encode) (hcoll : NoCollision r x)
    (hopen : open' shard seed (encodeAll pre ++ x ++ encodeAll post) = .ok f) :
    Reframed shard seed pre r post x := by
  obtain ⟨hpre, hrest⟩ := reads_append.1 hv.toReads
  obtain ⟨⟨-, -, -, hrv, -⟩, hreads⟩ := reads_cons.1 hrest
  obtain ⟨rs', u, hcut, hvalid, hdrop, -⟩ := open_ok_iff.1 hopen
  obtain ⟨stop, hu⟩ := hdrop.stops
  rw [List.append_assoc] at hcut
  obtain ⟨ws, rfl, hy⟩ := encodeAll_append_eq hpre hvalid.toReads hcut hu
  cases ws with
  | nil =>
    -- the reading stops at the altered record, and the next one is in sight
    exfalso
    obtain ⟨r2, post', rfl⟩ := List.exists_cons_of_ne_nil hpost
    rw [encodeAll_nil, List.nil_append] at hy
    have h4 : 4 ≤ x.length := by
      rw [hlen, length_encode, Record.wireLen, HEADER_LEN]
      omega
    have hmagic : Log.hasMagic (u.drop 4) = true := by
      rw [← hy, List.drop_append_of_le_length h4, encodeAll_cons]
      exact hasMagic_append (hasMagic_encode r2 _) _
    rcases hdrop with rfl | ⟨-, hm⟩
    · simp [Log.hasMagic] at hmagic
    · rw [hm] at hmagic
      cases hmagic
  | cons r' ws =>
    refine ⟨r', ws, u, hy, fun hpl => ?_, hvalid, hdrop⟩
    have hreads' := (reads_append.1 hvalid.toReads).2
    obtain ⟨⟨-, -, -, hrv', -⟩, hws⟩ := reads_cons.1 hreads'
    have hlen' : x.length = r'.encode.length := by
      rw [hlen, length_encode, length_encode, Record.wireLen, Record.wireLen, hpl]
    rw [encodeAll_cons, List.append_assoc] at hy
    obtain ⟨rfl, hrest'⟩ := List.append_inj hy hlen'
    refine unchained_stuck hreads hpost (altered_hash_ne hrv hrv' hne hcoll) hws hrest' ?_
    rwa [chainEnd_append, chainEnd_cons] at hdrop

/-- **Altered records.** A record before the last one is altered. Opening reports corruption
exactly when the altered bytes do not reframe the file. -/
theorem altered_iff (hv : Valid shard seed (pre ++ r :: post)) (hpost : post ≠ [])
    (hlen : x.length = r.encode.length) (hne : x ≠ r.encode) (hcoll : NoCollision r x) :
    (∃ msg, open' shard seed (encodeAll pre ++ x ++ encodeAll post) = .error (.corrupt msg)) ↔
      ¬Reframed shard seed pre r post x := by
  constructor
  · rintro ⟨msg, herr⟩ ⟨r', rs, u, hcut, -, hvalid, hdrop⟩
    have hfile : encodeAll pre ++ x ++ encodeAll post = encodeAll (pre ++ r' :: rs) ++ u := by
      rw [List.append_assoc, hcut, encodeAll_append, List.append_assoc]
    rw [open_ok_iff.2 ⟨_, u, hfile, hvalid, hdrop, rfl⟩] at herr
    cases herr
  · intro hnot
    cases hopen : open' shard seed (encodeAll pre ++ x ++ encodeAll post) with
    | ok f => exact absurd (reframed_of_open hv hpost hlen hne hcoll hopen) hnot
    | error e =>
      obtain ⟨msg, rfl⟩ := open_error hopen
      exact ⟨msg, rfl⟩

section AlteredExample

/-- The first record of a log of two. -/
def firstRecord : Record := Log.sealEntry 0 zeroHash ⟨KIND_ENTRY, 1, 1, [0, 0, 0, 0]⟩

/-- The second one. -/
def secondRecord : Record := Log.sealEntry 0 firstRecord.hash ⟨KIND_ENTRY, 1, 2, []⟩

/-- A shorter first record. -/
def shorterRecord : Record := Log.sealEntry 0 zeroHash ⟨KIND_ENTRY, 1, 1, [0]⟩

/-- The bytes of the first record, altered into the shorter one and three bytes of rest. -/
def reframed : List UInt8 := shorterRecord.encode ++ [0, 0, 0]

/-- The bytes of the first record with another first byte. -/
def otherMagic : List UInt8 := 0 :: firstRecord.encode.tail

theorem valid_example : Valid 0 zeroHash [firstRecord, secondRecord] where
  chained := Log.chained_stage 0 zeroHash
    [⟨KIND_ENTRY, 1, 1, [0, 0, 0, 0]⟩, ⟨KIND_ENTRY, 1, 2, []⟩]
  fits := by
    have hb : ∀ e ∈ ([⟨KIND_ENTRY, 1, 1, [0, 0, 0, 0]⟩, ⟨KIND_ENTRY, 1, 2, []⟩] :
        List PendingEntry), e.Fits := by
      intro e he
      rcases List.mem_cons.1 he with rfl | he
      · exact ⟨by decide, by decide, by decide, by decide⟩
      · obtain rfl := List.mem_singleton.1 he
        exact ⟨by decide, by decide, by decide, by decide⟩
    exact fits_stage (by decide) hb zeroHash
  consecutive := rfl
  first := by
    intro _ r hr
    cases hr
    rfl

/-- No record is spelt by the reframed bytes. -/
theorem reframed_ne (r' : Record) : reframed ≠ r'.encode := by
  intro h
  have hlen : r'.encode.length = 98 := by
    rw [← h, reframed, List.length_append, length_encode]
    rfl
  rw [length_encode, Record.wireLen, HEADER_LEN, HASH_LEN] at hlen
  have hp : payloadLen (r'.encode ++ []) = r'.payload.length := payloadLen_encode (by omega) []
  have hx : payloadLen (shorterRecord.encode ++ [0, 0, 0]) = 1 := payloadLen_encode (by decide) _
  rw [List.append_nil, ← h, reframed, hx] at hp
  omega

/-- Four payload bytes of the first record become one, its length and hash follow, and the file
opens with this record only: the magic number of the second record lies within the four bytes that
the search leaves out. -/
theorem reframed_unnoticed :
    Valid 0 zeroHash ([] ++ firstRecord :: [secondRecord]) ∧
      reframed.length = firstRecord.encode.length ∧ reframed ≠ firstRecord.encode ∧
      NoCollision firstRecord reframed ∧
      ∃ f, open' 0 zeroHash (encodeAll [] ++ reframed ++ encodeAll [secondRecord]) = .ok f ∧
        f.log.entries = [shorterRecord] := by
  refine ⟨valid_example, ?_, reframed_ne _, fun r' h => absurd h (reframed_ne r'), ?_⟩
  · rw [reframed, List.length_append, length_encode, length_encode]
    rfl
  · have hvalid : Valid 0 zeroHash [shorterRecord] :=
      { chained := Log.chained_stage 0 zeroHash [⟨KIND_ENTRY, 1, 1, [0]⟩]
        fits := by
          have hb : ∀ e ∈ ([⟨KIND_ENTRY, 1, 1, [0]⟩] : List PendingEntry), e.Fits := by
            intro e he
            obtain rfl := List.mem_singleton.1 he
            exact ⟨by decide, by decide, by decide, by decide⟩
          exact fits_stage (by decide) hb zeroHash
        consecutive := rfl
        first := by
          intro _ r hr
          cases hr
          rfl }
    have hfile : encodeAll [] ++ reframed ++ encodeAll [secondRecord] =
        encodeAll [shorterRecord] ++ ([0, 0, 0] ++ secondRecord.encode) := by
      simp [reframed]
    have htail : nextRecord 0 shorterRecord.hash ([0, 0, 0] ++ secondRecord.encode) =
        .error (.tail "magic 失配") := by
      have hne : [0, 0, 0] ++ secondRecord.encode ≠ [] := by simp
      have hlen : ¬([0, 0, 0] ++ secondRecord.encode).length < HEADER_LEN := by
        rw [List.length_append, length_encode]
        decide
      have hm : ofBeBytes (slice ([0, 0, 0] ++ secondRecord.encode) 0 4) ≠ MAGIC := by
        decide +kernel
      simp only [nextRecord, if_neg hne, if_neg hlen, if_pos hm]
    have hquiet : Log.hasMagic (([0, 0, 0] ++ secondRecord.encode).drop 4) = false := by
      decide +kernel
    exact ⟨_, open_ok_iff.2 ⟨_, _, hfile, hvalid, .inr ⟨⟨_, htail⟩, hquiet⟩, rfl⟩, rfl⟩

/-- Another first byte in the first record is fatal. -/
theorem otherMagic_fatal :
    ∃ msg, open' 0 zeroHash (encodeAll [] ++ otherMagic ++ encodeAll [secondRecord]) =
      .error (.corrupt msg) := by
  have hhead : ∀ (r' : Record) (rest : List UInt8), (r'.encode ++ rest).head? = some 0x52 := by
    intro r' rest
    have hm : (r'.encode ++ rest).take 4 = beBytes 4 MAGIC := by
      simpa [slice] using (slice_header r' rest).1
    have hh : ((r'.encode ++ rest).take 4).head? = (r'.encode ++ rest).head? := by
      rw [List.head?_take, if_neg (by decide)]
    rw [← hh, hm]
    rfl
  have hne : ∀ r' : Record, otherMagic ≠ r'.encode := by
    intro r' h
    have := hhead r' []
    rw [List.append_nil, ← h, otherMagic] at this
    simp at this
  have hlen : otherMagic.length = firstRecord.encode.length := by
    have := length_encode_pos firstRecord
    rw [otherMagic, List.length_cons, List.length_tail]
    omega
  refine (altered_iff valid_example (by simp) hlen (hne _) fun r' h => absurd h (hne r')).2 ?_
  rintro ⟨r', rs, u, hcut, -⟩
  have := hhead r' (encodeAll rs ++ u)
  rw [← List.append_assoc, ← encodeAll_cons, ← hcut, otherMagic] at this
  simp at this

end AlteredExample

end Rdsctl.Ha.LogFile
