import Rdsctl.Ha.Lossy
import Rdsctl.Ha.Text
import Rdsctl.Lib.Fields
import Rdsctl.Lib.Table

/-!
# Result tables

`src/query.rs`: `unescape_field`, `parse_table` and the masking in `run_query`, over the output of
`mysql --batch --column-names`, which `cli_output` of `src/exec/docker.rs` has trimmed.

A value is NULL (`none`) or a text. `ResultSet.render` is how the client prints a result.
-/

namespace Rdsctl.Query

open Ha Utf8 Fields

/-- `Value`, of which a table has `Null` and `String`. -/
abbrev Value : Type := Option (List Char)

/-! ## Parsing -/

/-- What an escaped byte stands for. -/
def unescapeByte (b : UInt8) : List UInt8 :=
  match Char.ofNat b.toNat with
  | 't' => [9]
  | 'n' => [10]
  | 'r' => [13]
  | '0' => [0]
  | '\\' => [92]
  | '\'' => [39]
  | '"' => [34]
  | _ => [92, b]

/-- The loop of `unescape_field`. -/
def unescapeBytes : List UInt8 → List UInt8
  | b :: next :: bs =>
    if b = 92 then unescapeByte next ++ unescapeBytes bs else b :: unescapeBytes (next :: bs)
  | bs => bs

/-- `unescape_field` -/
def unescapeField (f : List Char) : List Char := lossy (unescapeBytes (encode f))

/-- `trim_end_matches('\r')` -/
def trimEndCr (s : List Char) : List Char := s.rdropWhile (· == '\r')

/-- `ParsedTable` -/
structure ParsedTable where
  columns : List (List Char)
  rows : List (List Value)
  truncated : Bool
deriving DecidableEq, Repr

/-- The names of the header line. -/
def parseHeader (header : List Char) : List (List Char) :=
  ((header.splitOn '\t').filter (· ≠ [])).map fun s => unescapeField (trimEndCr s)

/-- A field of a line. -/
def parseField (f : List Char) : Value := if f = "NULL".toList then none else some (unescapeField f)

/-- The values of a line. -/
def parseLine (line : List Char) : List Value := ((trimEndCr line).splitOn '\t').map parseField

/-- `s.len() + 1` for every text of a row. -/
def rowBytes (row : List Value) : Nat := (row.map fun v => v.elim 0 fun s => byteLen s + 1).sum

/-- The loop of `parse_table` over the lines behind the header. -/
def parseRows (capRows capBytes : Nat) : List (List Char) → List (List Value) → Nat →
    List (List Value) × Bool
  | [], rows, _ => (rows, false)
  | line :: lines, rows, bytesUsed =>
    if line = [] then parseRows capRows capBytes lines rows bytesUsed
    else if capRows ≤ rows.length then (rows, true)
    else
      let row := parseLine line
      let bytesUsed := bytesUsed + rowBytes row
      if capBytes < bytesUsed then (rows, true)
      else parseRows capRows capBytes lines (rows ++ [row]) bytesUsed

/-- `parse_table` -/
def parseTable (out : List Char) (capRows capBytes : Nat) : ParsedTable :=
  let lines := out.splitOn '\n'
  let (rows, truncated) := parseRows capRows capBytes lines.tail [] 0
  ⟨parseHeader (lines.headD []), rows, truncated⟩

/-! ## Masking -/

/-- `mask_rules`, with the list of the environment and `str::to_lowercase`. -/
def maskRules (env : Option (List Char)) (toLowercase : List Char → List Char) : List (List Char) :=
  ["password", "passwd", "secret", "token", "credential", "private_key", "salt", "access_key",
    "secret_key", "api_key"].map String.toList ++
  match env with
  | some x => ((x.splitOn ',').map fun p => toLowercase (trim p)).filter (· ≠ [])
  | none => []

/-- `is_masked_col` -/
def isMaskedCol (env : Option (List Char)) (toLowercase : List Char → List Char)
    (name : List Char) : Bool :=
  (maskRules env toLowercase).any fun r => decide (r <:+: toLowercase name)

/-- The masking of a row from a column on; `none` where `columns[i]` panics. -/
def maskRow (columns maskedCols : List (List Char)) : Nat → List Value → Option (List Value)
  | _, [] => some []
  | i, v :: vs => do
    let name ← columns[i]?
    let vs ← maskRow columns maskedCols (i + 1) vs
    return (if name ∈ maskedCols then some "***".toList else v) :: vs

/-- The masking of `run_query`: the names of the masked columns and the rows. -/
def mask (isMasked : List Char → Bool) (t : ParsedTable) :
    Option (List (List Char) × List (List Value)) :=
  let maskedCols := t.columns.filter isMasked
  if maskedCols = [] then some (maskedCols, t.rows)
  else (t.rows.mapM (maskRow t.columns maskedCols 0)).map (maskedCols, ·)

/-! ## Printed results -/

/-- How the client prints a character of a value. -/
def escapeChar (c : Char) : List Char :=
  if c = '\t' then ['\\', 't']
  else if c = '\n' then ['\\', 'n']
  else if c = '\x00' then ['\\', '0']
  else if c = '\\' then ['\\', '\\']
  else [c]

/-- How the client prints a value. -/
def printValue : Value → List Char
  | none => "NULL".toList
  | some text => text.flatMap escapeChar

/-- How the client prints a row. -/
def printRow (row : List Value) : List Char := ['\t'].intercalate (row.map printValue)

/-- The result of a statement: columns with names, and rows as wide as the names. -/
structure ResultSet where
  names : List (List Char)
  rows : List (List Value)
  nonempty : names ≠ []
  plain : ∀ name ∈ names, '\t' ∉ name ∧ '\n' ∉ name
  width : ∀ row ∈ rows, row.length = names.length
  notNull : ∀ row ∈ rows, some "NULL".toList ∉ row

namespace ResultSet

/-- The lines of a printed result. -/
def lines (t : ResultSet) : List (List Char) := ['\t'].intercalate t.names :: t.rows.map printRow

/-- What `mysql --batch --column-names` prints. -/
def render (t : ResultSet) : List Char := t.lines.flatMap (· ++ ['\n'])

/-- `cli_output` of the printed result. -/
def out (t : ResultSet) : List Char := trim t.render

end ResultSet

/-! ## Escapes -/

/-- What an escaped character stands for. -/
def unescapeChar (c : Char) : List Char :=
  match c with
  | 't' => ['\t']
  | 'n' => ['\n']
  | 'r' => ['\r']
  | '0' => ['\x00']
  | '\\' => ['\\']
  | '\'' => ['\'']
  | '"' => ['"']
  | c => ['\\', c]

/-- `unescape_field`, by characters. -/
def unescape : List Char → List Char
  | c :: next :: cs => if c = '\\' then unescapeChar next ++ unescape cs else c :: unescape (next :: cs)
  | cs => cs

theorem unescape_cons {c : Char} (h : c ≠ '\\') (cs : List Char) :
    unescape (c :: cs) = c :: unescape cs := by
  cases cs with
  | nil => rfl
  | cons d cs => rw [unescape, if_neg h]

theorem unescapeBytes_append {bs : List UInt8} (h : ∀ b ∈ bs, b ≠ 92) (rest : List UInt8) :
    unescapeBytes (bs ++ rest) = bs ++ unescapeBytes rest := by
  induction bs with
  | nil => rfl
  | cons b bs ih =>
    have hcons (l : List UInt8) : unescapeBytes (b :: l) = b :: unescapeBytes l := by
      cases l with
      | nil => rfl
      | cons d l => rw [unescapeBytes, if_neg (h b List.mem_cons_self)]
    rw [List.cons_append, hcons, ih fun x hx => h x (List.mem_cons_of_mem _ hx), List.cons_append]

/-- No byte of another character is a backslash. -/
theorem ne_backslash_of_mem {c : Char} (h : c ≠ '\\') {b : UInt8} (hb : b ∈ String.utf8EncodeChar c) :
    b ≠ 92 := by
  rintro rfl
  have hcount := count_utf8EncodeChar (x := '\\') (by decide) c
  rw [if_neg h, List.count_eq_zero] at hcount
  exact hcount hb

/-- The first byte of an escaped character decides like the character. -/
theorem unescapeBytes_escaped (c : Char) (rest : List UInt8) :
    unescapeBytes (92 :: (String.utf8EncodeChar c ++ rest)) =
      encode (unescapeChar c) ++ unescapeBytes rest := by
  by_cases hc : c.utf8Size = 1
  · have hval : c.val.toNat ≤ 127 := Char.utf8Size_eq_one_iff.1 hc
    have hn : c.val.toUInt8.toNat = c.toNat := by
      rw [UInt32.toNat_toUInt8, Nat.mod_eq_of_lt (by omega)]
      rfl
    have hbyte : unescapeByte c.val.toUInt8 = encode (unescapeChar c) := by
      unfold unescapeByte unescapeChar
      rw [hn, Char.ofNat_toNat]
      split
      all_goals try rfl
      rw [encode_cons, encode_cons, String.utf8EncodeChar_eq_singleton hc]
      rfl
    rw [String.utf8EncodeChar_eq_singleton hc, List.singleton_append, unescapeBytes, if_pos rfl, hbyte]
  · obtain ⟨b, bs, hb⟩ := List.exists_cons_of_ne_nil (String.utf8EncodeChar_ne_nil (c := c))
    have h128 : 128 ≤ b.toNat := le_of_mem_utf8EncodeChar hc (by simp [hb])
    have hbyte : unescapeByte b = [92, b] := by
      have hn := toNat_ofNat_byte b
      unfold unescapeByte
      split
      case h_8 => rfl
      all_goals
        next heq =>
          rw [heq] at hn
          simp at hn
          omega
    have hchar : unescapeChar c = ['\\', c] := by
      unfold unescapeChar
      split
      all_goals first | rfl | exact absurd rfl hc
    have hrest : ∀ x ∈ bs, x ≠ 92 := fun x hx =>
      ne_backslash_of_mem (c := c) (fun h => hc (h ▸ rfl)) (hb ▸ List.mem_cons_of_mem _ hx)
    rw [hb, List.cons_append, unescapeBytes, if_pos rfl, hbyte, unescapeBytes_append hrest, hchar,
      encode_cons, encode_cons, encode_nil, hb, List.append_nil,
      show String.utf8EncodeChar '\\' = [92] from rfl]
    simp only [List.cons_append, List.nil_append]

/-- `unescape_field` decodes what it makes of the characters. -/
theorem unescapeBytes_encode (f : List Char) : unescapeBytes (encode f) = encode (unescape f) := by
  fun_induction unescape f with
  | case1 next cs ih =>
    rw [encode_cons, encode_cons, encode_append, ← ih]
    exact unescapeBytes_escaped next (encode cs)
  | case2 c next cs hc ih =>
    rw [encode_cons, unescapeBytes_append fun b hb => ne_backslash_of_mem hc hb, ih, encode_cons]
  | case3 cs h =>
    rcases cs with _ | ⟨c, _ | ⟨d, cs⟩⟩
    · rfl
    · rcases eq_or_ne c '\\' with rfl | hc
      · rfl
      · rw [encode_cons, unescapeBytes_append fun b hb => ne_backslash_of_mem hc hb]
        rfl
    · exact absurd rfl (h c d cs)

theorem unescapeField_eq (f : List Char) : unescapeField f = unescape f := by
  have h := lossy_encode_append (unescape f) []
  rw [List.append_nil] at h
  rw [unescapeField, unescapeBytes_encode, h]
  exact List.append_nil _

theorem length_unescape (cs : List Char) : (unescape cs).length ≤ cs.length := by
  fun_induction unescape cs with
  | case1 next cs ih =>
    have hle : (unescapeChar next).length ≤ 2 := by
      unfold unescapeChar
      split <;> simp
    simp only [List.length_append, List.length_cons]
    omega
  | case2 c next cs hc ih => exact Nat.succ_le_succ ih
  | case3 cs h => exact Nat.le_refl _

/-- The characters that a backslash escapes. -/
def escapable : List Char := ['t', 'n', 'r', '0', '\\', '\'', '"']

theorem unescapeChar_of_not_mem {c : Char} (h : c ∉ escapable) : unescapeChar c = ['\\', c] := by
  unfold unescapeChar
  split
  all_goals first | rfl | exact absurd (by decide) h

theorem length_unescapeChar {c : Char} (h : c ∈ escapable) : (unescapeChar c).length = 1 := by
  have hall : escapable.all (fun c => decide ((unescapeChar c).length = 1)) = true := by decide
  simpa using List.all_eq_true.1 hall c h

/-- A text stands for itself when no backslash is in front of a character that it escapes. -/
theorem unescape_eq_self_iff {cs : List Char} :
    unescape cs = cs ↔ ∀ c ∈ escapable, ¬ ['\\', c] <:+: cs := by
  have hskip {d : Char} (hd : d ≠ '\\') (l : List Char) (c : Char) :
      ['\\', c] <:+: d :: l ↔ ['\\', c] <:+: l := by
    rw [List.infix_cons_iff, List.cons_prefix_cons]
    exact or_iff_right fun h => hd h.1.symm
  fun_induction unescape cs with
  | case1 next cs ih =>
    by_cases hn : next ∈ escapable
    · constructor
      · intro h
        have hlen := congrArg List.length h
        have hle := length_unescape cs
        simp only [List.length_append, List.length_cons, length_unescapeChar hn] at hlen
        omega
      · exact fun h => absurd ⟨[], cs, rfl⟩ (h next hn)
    · have hne : next ≠ '\\' := fun h => hn (by rw [h]; decide)
      rw [unescapeChar_of_not_mem hn, List.cons_append, List.singleton_append, List.cons_inj_right,
        List.cons_inj_right]
      refine Iff.trans ih (forall₂_congr fun c hc => not_congr ?_)
      rw [List.infix_cons_iff, List.cons_prefix_cons, List.cons_prefix_cons, hskip hne]
      refine (or_iff_right fun h => ?_).symm
      exact hn (h.2.1 ▸ hc)
  | case2 c next cs hc ih =>
    rw [List.cons_inj_right]
    exact Iff.trans ih (forall₂_congr fun d _ => not_congr (hskip hc _ d).symm)
  | case3 cs h =>
    refine ⟨fun _ c _ hin => ?_, fun _ => rfl⟩
    have hlen := hin.length_le
    rcases cs with _ | ⟨c, _ | ⟨d, cs⟩⟩
    · simp at hlen
    · simp at hlen
    · exact absurd rfl (h c d cs)

theorem ne_backslash {c : Char} (h : isWhiteSpace c = true) : c ≠ '\\' := by
  rintro rfl
  revert h
  decide

theorem not_escapable {c : Char} (h : isWhiteSpace c = true) : c ∉ escapable := by
  have hall : escapable.all (fun d => !isWhiteSpace d) = true := by decide
  intro hc
  simpa [h] using List.all_eq_true.1 hall c hc

theorem unescape_whiteSpace {ws : List Char} (h : ∀ c ∈ ws, isWhiteSpace c = true) :
    unescape ws = ws := by
  induction ws with
  | nil => rfl
  | cons c ws ih =>
    rw [unescape_cons (ne_backslash (h c List.mem_cons_self)),
      ih fun d hd => h d (List.mem_cons_of_mem _ hd)]

/-- White space does not take part in escapes. -/
theorem unescape_append {ws : List Char} (h : ∀ c ∈ ws, isWhiteSpace c = true) (cs : List Char) :
    unescape (cs ++ ws) = unescape cs ++ ws := by
  fun_induction unescape cs with
  | case1 next cs ih =>
    rw [List.cons_append, List.cons_append, unescape, if_pos rfl, ih, List.append_assoc]
  | case2 c next cs hc ih => rw [List.cons_append, unescape_cons hc, ih, List.cons_append]
  | case3 cs hcs =>
    rcases cs with _ | ⟨c, _ | ⟨d, cs⟩⟩
    · exact unescape_whiteSpace h
    · rcases eq_or_ne c '\\' with rfl | hc
      · -- the last backslash does not escape a blank
        rcases ws with _ | ⟨w, ws⟩
        · rfl
        · rw [List.cons_append, List.nil_append, unescape, if_pos rfl,
            unescapeChar_of_not_mem (not_escapable (h w List.mem_cons_self)),
            unescape_whiteSpace fun d hd => h d (List.mem_cons_of_mem _ hd)]
          rfl
      · rw [List.cons_append, unescape_cons hc, List.nil_append, unescape_whiteSpace h]
    · exact absurd rfl (hcs c d cs)

/-- What the client prints for a text is read back. -/
theorem unescape_escape (text : List Char) : unescape (text.flatMap escapeChar) = text := by
  induction text with
  | nil => rfl
  | cons c text ih =>
    rw [List.flatMap_cons, escapeChar]
    split_ifs with ht hn h0 hb
    · rw [List.cons_append, List.singleton_append, unescape, if_pos rfl, ih, ht]
      rfl
    · rw [List.cons_append, List.singleton_append, unescape, if_pos rfl, ih, hn]
      rfl
    · rw [List.cons_append, List.singleton_append, unescape, if_pos rfl, ih, h0]
      rfl
    · rw [List.cons_append, List.singleton_append, unescape, if_pos rfl, ih, hb]
      rfl
    · rw [List.singleton_append, unescape_cons hb, ih]

/-! ## The two caps -/

/-- The rows that the lines behind the header hold. -/
def readRows (lines : List (List Char)) : List (List Value) :=
  (lines.filter (· ≠ [])).map parseLine

/-- The caps cut off the rows behind some place, and the table says so. -/
theorem parseRows_eq (capRows capBytes : Nat) (lines : List (List Char)) (rows : List (List Value))
    (bytesUsed : Nat) : ∃ k ≤ (readRows lines).length,
      parseRows capRows capBytes lines rows bytesUsed =
        (rows ++ (readRows lines).take k, decide (k < (readRows lines).length)) := by
  induction lines generalizing rows bytesUsed with
  | nil => exact ⟨0, Nat.le_refl _, by simp [parseRows, readRows]⟩
  | cons line lines ih =>
    rw [parseRows]
    split
    · next hl => simpa [readRows, hl] using ih rows bytesUsed
    next hl =>
    have hread : readRows (line :: lines) = parseLine line :: readRows lines := by
      simp [readRows, hl]
    rw [hread]
    split
    · exact ⟨0, Nat.zero_le _, by simp⟩
    dsimp only
    split
    · exact ⟨0, Nat.zero_le _, by simp⟩
    obtain ⟨k, hk, heq⟩ := ih (rows ++ [parseLine line]) (bytesUsed + rowBytes (parseLine line))
    exact ⟨k + 1, Nat.succ_le_succ hk, by rw [heq]; simp⟩

/-- Wide caps cut off nothing. -/
theorem parseRows_of_le {capRows capBytes : Nat} {lines : List (List Char)} {rows : List (List Value)}
    {bytesUsed : Nat} (hr : rows.length + lines.length ≤ capRows)
    (hb : bytesUsed + ((readRows lines).map rowBytes).sum ≤ capBytes) :
    parseRows capRows capBytes lines rows bytesUsed = (rows ++ readRows lines, false) := by
  induction lines generalizing rows bytesUsed with
  | nil => simp [parseRows, readRows]
  | cons line lines ih =>
    rw [List.length_cons] at hr
    rw [parseRows]
    split
    · next hl =>
      rw [ih (by omega) (by simpa [readRows, hl] using hb)]
      simp [readRows, hl]
    next hl =>
    have hread : readRows (line :: lines) = parseLine line :: readRows lines := by
      simp [readRows, hl]
    rw [hread, List.map_cons, List.sum_cons] at hb
    rw [if_neg (by omega), if_neg (by omega), ih (by simp; omega) (by omega), hread]
    simp

/-! ## When the table is exact -/

/-- The parsed table has the names and the first rows of a result, and says whether some are left out. -/
structure Exact (names : List (List Char)) (rows : List (List Value)) (p : ParsedTable) : Prop where
  columns : p.columns = names
  rows : ∃ k ≤ rows.length, p.rows = rows.take k ∧ (p.truncated = true ↔ k < rows.length)

/-- Under every pair of caps the table is exact when header and lines are read back. -/
theorem exact_iff {out : List Char} {names : List (List Char)} {rows : List (List Value)} :
    (∀ capRows capBytes, Exact names rows (parseTable out capRows capBytes)) ↔
      parseHeader ((out.splitOn '\n').headD []) = names ∧
        readRows (out.splitOn '\n').tail = rows := by
  constructor
  · intro h
    obtain ⟨hcols, k, hk, hrows, htr⟩ :=
      h (out.splitOn '\n').tail.length ((readRows (out.splitOn '\n').tail).map rowBytes).sum
    rw [parseTable, parseRows_of_le (by simp) (by simp)] at hcols hrows htr
    refine ⟨hcols, ?_⟩
    have hlast : k = rows.length := by
      simp only [Bool.false_eq_true, false_iff] at htr
      omega
    simpa [hlast] using hrows
  · rintro ⟨hcols, hrows⟩ capRows capBytes
    obtain ⟨k, hk, heq⟩ := parseRows_eq capRows capBytes (out.splitOn '\n').tail [] 0
    rw [hrows] at hk heq
    refine ⟨hcols, k, hk, ?_, ?_⟩
    · rw [parseTable, heq]
      rfl
    · rw [parseTable, heq]
      exact decide_eq_true_iff

/-! ## The lines of a printed result -/

theorem length_trimEndCr (cs : List Char) : (trimEndCr cs).length ≤ cs.length :=
  (List.rdropWhile_prefix _ _).length_le

theorem trimEndCr_eq_self {cs : List Char} (h : cs.getLast? ≠ some '\r') : trimEndCr cs = cs :=
  rdropWhile_eq_self fun c hc => by
    rw [beq_eq_false_iff_ne]
    rintro rfl
    exact h hc

theorem trimEndCr_eq_append (cs : List Char) :
    ∃ crs, cs = trimEndCr cs ++ crs ∧ ∀ c ∈ crs, isWhiteSpace c = true := by
  obtain ⟨crs, heq, hcrs⟩ := eq_rdropWhile_append (· == '\r') cs
  refine ⟨crs, heq, fun c hc => ?_⟩
  rw [eq_of_beq (hcrs c hc)]
  decide

/-- A column name is read back when it has neither escapes nor a carriage return at its end. -/
theorem name_eq_iff {name : List Char} : unescapeField (trimEndCr name) = name ↔
    name.getLast? ≠ some '\r' ∧ ∀ c ∈ escapable, ¬ ['\\', c] <:+: name := by
  rw [unescapeField_eq]
  constructor
  · intro h
    have hlen : name.length ≤ (trimEndCr name).length :=
      (congrArg List.length h).ge.trans (length_unescape _)
    have heq : trimEndCr name = name := (List.rdropWhile_prefix _ _).eq_of_length_le hlen
    rw [heq] at h
    refine ⟨fun hcr => ?_, unescape_eq_self_iff.1 h⟩
    have hcut : (name.rdropWhile (· == '\r')).getLast? = some '\r' := (congrArg _ heq).trans hcr
    have hlast := getLast?_rdropWhile hcut
    simp at hlast
  · rintro ⟨hcr, hesc⟩
    rw [trimEndCr_eq_self hcr, unescape_eq_self_iff.2 hesc]

/-- A line that holds the header, with something before and behind it, is the header. -/
theorem header_eq {names : List (List Char)} {a h b : List Char} (hne : names ≠ [])
    (htab : ∀ name ∈ names, '\t' ∉ name) (heq : ['\t'].intercalate names = a ++ h ++ b)
    (hp : parseHeader h = names) :
    a = [] ∧ b = [] ∧ ∀ name ∈ names, name ≠ [] ∧ unescapeField (trimEndCr name) = name := by
  have hsplit : (a ++ h ++ b).splitOn '\t' = names := by
    rw [← heq, List.splitOn_intercalate '\t' htab hne]
  -- the fields of `h` are as many as the names, and as long together
  have hcount : names.length = (a ++ h ++ b).count '\t' + 1 := by rw [← hsplit, length_splitOn]
  have hfields : names.length ≤ (h.splitOn '\t').length := by
    conv_lhs => rw [← hp]
    rw [parseHeader, List.length_map]
    exact List.length_filter_le _ _
  rw [length_splitOn, hcount] at hfields
  simp only [List.count_append] at hfields hcount
  have hall : (h.splitOn '\t').filter (· ≠ []) = h.splitOn '\t' := by
    refine (List.filter_sublist).eq_of_length_le ?_
    have hl := congrArg List.length hp
    rw [parseHeader, List.length_map] at hl
    rw [hl, length_splitOn]
    omega
  rw [parseHeader, hall] at hp
  have hshort : names.flatten.length ≤ (h.splitOn '\t').flatten.length := by
    conv_lhs => rw [← hp]
    generalize h.splitOn '\t' = fields
    induction fields with
    | nil => exact Nat.le_refl _
    | cons f fields ih =>
      have hf : (unescapeField (trimEndCr f)).length ≤ f.length := by
        rw [unescapeField_eq]
        exact (length_unescape _).trans (length_trimEndCr _)
      simp only [List.map_cons, List.flatten_cons, List.length_append]
      omega
  have hlong := length_flatten_splitOn '\t' (a ++ h ++ b)
  have hpart := length_flatten_splitOn '\t' h
  rw [hsplit] at hlong
  simp only [List.count_append, List.length_append] at hlong
  obtain rfl : a = [] := List.length_eq_zero_iff.1 (by omega)
  obtain rfl : b = [] := List.length_eq_zero_iff.1 (by omega)
  rw [List.nil_append, List.append_nil] at hsplit
  rw [hsplit] at hall hp
  refine ⟨rfl, rfl, fun name hname => ⟨?_, ?_⟩⟩
  · rw [← hall] at hname
    simpa using (List.mem_filter.1 hname).2
  · exact List.map_inj_left.1 (hp.trans (List.map_id _).symm) name hname

/-! ## Rows -/

theorem sep_not_mem_escape {c : Char} (hc : c = '\t' ∨ c = '\n') (text : List Char) :
    c ∉ text.flatMap escapeChar := by
  rw [List.mem_flatMap]
  rintro ⟨d, -, hd⟩
  unfold escapeChar at hd
  rcases hc with rfl | rfl
  all_goals
    split_ifs at hd
    all_goals grind

theorem sep_not_mem_printValue {c : Char} (hc : c = '\t' ∨ c = '\n') (v : Value) :
    c ∉ printValue v := by
  cases v with
  | none => rcases hc with rfl | rfl <;> decide
  | some text => exact sep_not_mem_escape hc text

/-- A printed value is read back. -/
theorem parseField_printValue {v : Value} (h : v ≠ some "NULL".toList) :
    parseField (printValue v) = v := by
  cases v with
  | none => rfl
  | some text =>
    have hne : text.flatMap escapeChar ≠ "NULL".toList := fun heq => h <| by
      rw [← unescape_escape text, heq]
      rfl
    rw [parseField, printValue, if_neg hne, unescapeField_eq, unescape_escape]

/-- The last value of a row stands behind a tab, or alone. -/
theorem printRow_concat (init : List Value) (v : Value) : ∃ pre,
    printRow (init ++ [v]) = pre ++ printValue v ∧ (pre = [] ∨ pre.getLast? = some '\t') := by
  rcases init with _ | ⟨w, init⟩
  · exact ⟨[], by simp [printRow], Or.inl rfl⟩
  · refine ⟨printRow (w :: init) ++ ['\t'], ?_, Or.inr (by simp)⟩
    rw [printRow, List.map_append, List.map_singleton, intercalate_concat (by simp), printRow]
    simp

theorem splitOn_printRow {row : List Value} (h : row ≠ []) :
    (printRow row).splitOn '\t' = row.map printValue :=
  List.splitOn_intercalate '\t' (fun l hl => by
    obtain ⟨v, -, rfl⟩ := List.mem_map.1 hl
    exact sep_not_mem_printValue (Or.inl rfl) v) (by simpa using h)

/-- Only a text that ends in a blank is printed with a blank at its end. -/
theorem getLast?_escape {init : List Char} {d c : Char}
    (h : ((init ++ [d]).flatMap escapeChar).getLast? = some c) :
    (c = d ∧ d ≠ '\t' ∧ d ≠ '\n') ∨ isWhiteSpace c = false := by
  rw [List.flatMap_append, List.flatMap_singleton] at h
  unfold escapeChar at h
  split_ifs at h with ht hn h0 hb
  all_goals simp at h
  · exact Or.inr (by rw [← h]; decide)
  · exact Or.inr (by rw [← h]; decide)
  · exact Or.inr (by rw [← h]; decide)
  · exact Or.inr (by rw [← h]; decide)
  · exact Or.inl ⟨h.symm, ht, hn⟩

/-- The last value of a printed row is not shortened by trimming. -/
def Value.Kept (v : Value) : Prop :=
  ∀ text, v = some text →
    text ≠ [] ∧ ∀ c ∈ text.getLast?, isWhiteSpace c = true → c = '\t' ∨ c = '\n'

theorem kept_iff (init : List Value) {v : Value} : v.Kept ↔
    ∃ c, (printRow (init ++ [v])).getLast? = some c ∧ isWhiteSpace c = false := by
  obtain ⟨pre, heq, hpre⟩ := printRow_concat init v
  rw [heq]
  cases v with
  | none => exact ⟨fun _ => ⟨'L', by simp [printValue], by decide⟩, fun _ text h => by cases h⟩
  | some text =>
    rcases List.eq_nil_or_concat' text with rfl | ⟨l, d, rfl⟩
    · constructor
      · exact fun h => absurd rfl (h [] rfl).1
      · rintro ⟨c, hc, hw⟩
        rw [printValue, List.flatMap_nil, List.append_nil] at hc
        rcases hpre with rfl | hpre
        · cases hc
        · rw [hpre] at hc
          cases hc
          exact absurd hw (by decide)
    · have hne : (l ++ [d]).flatMap escapeChar ≠ [] := by
        rw [List.flatMap_append, List.flatMap_singleton]
        unfold escapeChar
        split_ifs <;> simp
      have hlast : (pre ++ printValue (some (l ++ [d]))).getLast? =
          ((l ++ [d]).flatMap escapeChar).getLast? := List.getLast?_append_of_ne_nil _ hne
      rw [hlast]
      constructor
      · intro h
        obtain ⟨c, hc⟩ := List.getLast?_isSome.2 hne |> Option.isSome_iff_exists.1
        refine ⟨c, hc, ?_⟩
        rcases getLast?_escape hc with ⟨rfl, ht, hn⟩ | hw
        · refine Bool.eq_false_iff.2 fun hw => ?_
          rcases (h _ rfl).2 c (by simp) hw with h | h
          · exact ht h
          · exact hn h
        · exact hw
      · rintro ⟨c, hc, hw⟩ text htext
        cases htext
        refine ⟨by simp, fun e he hwe => ?_⟩
        obtain rfl : e = d := by simpa using he.symm
        by_contra hno
        obtain ⟨ht, hn⟩ := not_or.1 hno
        have hself : escapeChar e = [e] := by
          rw [escapeChar, if_neg ht, if_neg hn, if_neg, if_neg]
          · rintro rfl
            exact absurd hwe (by decide)
          · rintro rfl
            exact absurd hwe (by decide)
        rw [List.flatMap_append, List.flatMap_singleton, hself] at hc
        obtain rfl : e = c := by simpa using hc
        rw [hwe] at hw
        cases hw

/-- A printed row ends in a carriage return when its last value does. -/
theorem carriage_iff (init : List Value) {v : Value} :
    (printRow (init ++ [v])).getLast? = some '\r' ↔
      ∃ text, v = some text ∧ text.getLast? = some '\r' := by
  obtain ⟨pre, heq, hpre⟩ := printRow_concat init v
  rw [heq]
  cases v with
  | none => simp [printValue]
  | some text =>
    rcases List.eq_nil_or_concat' text with rfl | ⟨l, d, rfl⟩
    · rw [printValue, List.flatMap_nil, List.append_nil]
      rcases hpre with rfl | hpre <;> simp_all
    · have hne : (l ++ [d]).flatMap escapeChar ≠ [] := by
        rw [List.flatMap_append, List.flatMap_singleton]
        unfold escapeChar
        split_ifs <;> simp
      rw [printValue, List.getLast?_append_of_ne_nil _ hne]
      constructor
      · intro h
        rcases getLast?_escape h with ⟨rfl, -⟩ | hw
        · exact ⟨_, rfl, by simp⟩
        · exact absurd hw (by decide)
      · rintro ⟨text, htext, hcr⟩
        cases htext
        obtain rfl : d = '\r' := by simpa using hcr
        rw [List.flatMap_append]
        simp [escapeChar]

theorem printRow_eq_nil {row : List Value} (h : row ≠ []) : printRow row = [] ↔ row = [some []] := by
  constructor
  · intro hnil
    have hfields := splitOn_printRow h
    rw [hnil, List.splitOn_nil] at hfields
    obtain ⟨v, rfl⟩ : ∃ v, row = [v] := List.length_eq_one_iff.1 (by
      simpa using (congrArg List.length hfields).symm)
    cases v with
    | none => cases hfields
    | some text =>
      have htext := unescape_escape text
      have hprint : text.flatMap escapeChar = [] := by simpa [printValue] using hfields.symm
      rw [hprint] at htext
      rw [← htext]
      rfl
  · rintro rfl
    rfl

/-- A line that holds a row, with white space behind it, is the row. -/
theorem row_eq {row : List Value} {l ws : List Char} (hne : row ≠ [])
    (heq : printRow row = l ++ ws) (hws : ∀ c ∈ ws, isWhiteSpace c = true)
    (hp : parseLine l = row) : ws = [] ∧ trimEndCr l = l := by
  obtain ⟨crs, hl, hcrs⟩ := trimEndCr_eq_append l
  rw [parseLine] at hp
  have hvs : ∀ c ∈ crs ++ ws, isWhiteSpace c = true := fun c hc =>
    (List.mem_append.1 hc).elim (hcrs c) (hws c)
  have hprint : (trimEndCr l ++ (crs ++ ws)).splitOn '\t' = row.map printValue := by
    rw [← List.append_assoc, ← hl, ← heq, splitOn_printRow hne]
  -- the fields are as many as the values, so what is behind the line has no tab
  have htab : '\t' ∉ crs ++ ws := by
    have hfields := congrArg List.length hp
    have hvalues := congrArg List.length hprint
    rw [List.length_map, length_splitOn] at hfields
    rw [List.length_map, length_splitOn, List.count_append] at hvalues
    exact List.count_eq_zero.1 (by omega)
  obtain ⟨init, last, hlast, hbehind⟩ := splitOn_append_right htab (trimEndCr l)
  rw [hbehind] at hprint
  rw [hlast, List.map_append, List.map_singleton] at hp
  have hv : printValue (parseField last) = last ++ (crs ++ ws) := by
    rw [← hp, List.map_append, List.map_singleton] at hprint
    exact (List.singleton_inj.1 (List.append_inj' hprint rfl).2).symm
  have hnone : crs ++ ws = [] := by
    unfold parseField at hv
    split at hv
    · next hnull => simpa [printValue, hnull] using hv
    · rw [printValue, unescapeField_eq] at hv
      have htext := unescape_escape (unescape last)
      rw [hv, unescape_append hvs] at htext
      simpa using htext
  obtain ⟨rfl, rfl⟩ := List.append_eq_nil_iff.1 hnone
  exact ⟨rfl, by rw [List.append_nil] at hl; exact hl.symm⟩

/-- A row is read back from its line when the line is not shortened. -/
theorem parseLine_printRow {row : List Value} (hne : row ≠ []) (hnull : some "NULL".toList ∉ row)
    (hcr : (printRow row).getLast? ≠ some '\r') : parseLine (printRow row) = row := by
  rw [parseLine, trimEndCr_eq_self hcr, splitOn_printRow hne, List.map_map]
  refine (List.map_congr_left fun v hv => ?_).trans (List.map_id row)
  exact parseField_printValue fun h => hnull (h ▸ hv)

/-! ## Trimmed results -/

theorem trim_eq (cs : List Char) : trim cs = (cs.dropWhile isWhiteSpace).rdropWhile isWhiteSpace := rfl

theorem trim_concat {c : Char} (hc : isWhiteSpace c = true) (cs : List Char) :
    trim (cs ++ [c]) = trim cs := by
  rw [trim_eq, trim_eq, List.dropWhile_append]
  split
  · next h =>
    rw [List.isEmpty_iff.1 h, List.dropWhile_cons_of_pos hc]
    rfl
  · exact List.rdropWhile_concat_pos _ _ _ hc

/-- A text that neither starts nor ends with white space is kept by trimming. -/
theorem trim_eq_self {cs : List Char} (hh : ∀ c ∈ cs.head?, isWhiteSpace c = false)
    (hl : ∀ c ∈ cs.getLast?, isWhiteSpace c = false) : trim cs = cs := by
  have hdrop : cs.dropWhile isWhiteSpace = cs := by
    cases cs with
    | nil => rfl
    | cons c cs => rw [List.dropWhile_cons_of_neg (by simp [hh c rfl])]
  rw [trim_eq, hdrop, rdropWhile_eq_self hl]

theorem getLast?_trim {cs : List Char} {c : Char} (h : (trim cs).getLast? = some c) :
    isWhiteSpace c = false := getLast?_rdropWhile h

theorem head?_trim {cs : List Char} {c : Char} (h : (trim cs).head? = some c) :
    isWhiteSpace c = false := by
  rw [trim_eq] at h
  have hpre := List.rdropWhile_prefix isWhiteSpace (cs.dropWhile isWhiteSpace)
  obtain ⟨vs, hvs⟩ := hpre
  have hhead : (cs.dropWhile isWhiteSpace).head? = some c := by
    rw [← hvs, List.head?_append, h]
    rfl
  have hnot := List.head?_dropWhile_not isWhiteSpace cs
  rw [hhead] at hnot
  exact hnot

namespace ResultSet

variable (t : ResultSet)

/-- The printed lines, with line ends between them only. -/
def text : List Char := ['\n'].intercalate t.lines

theorem lines_ne_nil : t.lines ≠ [] := List.cons_ne_nil _ _

theorem row_ne_nil {row : List Value} (h : row ∈ t.rows) : row ≠ [] := by
  rintro rfl
  have hw := t.width _ h
  exact t.nonempty (List.length_eq_zero_iff.1 hw.symm)

theorem out_eq : t.out = trim t.text := by
  have hflat (ls : List (List Char)) (hne : ls ≠ []) :
      ls.flatMap (· ++ ['\n']) = ['\n'].intercalate ls ++ ['\n'] := by
    induction ls with
    | nil => exact absurd rfl hne
    | cons l ls ih =>
      rcases ls with _ | ⟨m, ls⟩
      · simp
      · rw [List.flatMap_cons, ih (List.cons_ne_nil _ _), List.intercalate_cons_cons]
        simp
  rw [out, render, hflat _ t.lines_ne_nil, trim_concat (by decide)]
  rfl

theorem splitOn_text : t.text.splitOn '\n' = t.lines := by
  have hline {ls : List (List Char)} (h : ∀ l ∈ ls, '\n' ∉ l) : '\n' ∉ ['\t'].intercalate ls := by
    induction ls with
    | nil => simp
    | cons l ls ih =>
      have hl := h l List.mem_cons_self
      have hrest := ih fun m hm => h m (List.mem_cons_of_mem _ hm)
      rcases ls with _ | ⟨m, ls⟩
      · simpa using hl
      · rw [List.intercalate_cons_cons]
        simp [hl, hrest]
  refine List.splitOn_intercalate '\n' (fun l hl => ?_) t.lines_ne_nil
  rcases List.mem_cons.1 hl with rfl | hl
  · exact hline fun name hname => (t.plain name hname).2
  · obtain ⟨row, -, rfl⟩ := List.mem_map.1 hl
    refine hline fun l hl => ?_
    obtain ⟨v, -, rfl⟩ := List.mem_map.1 hl
    exact sep_not_mem_printValue (Or.inr rfl) v

/-- The lines of the trimmed output are those of the result, but for what trimming has taken off the
first and the last one, when there are as many. -/
theorem lines_out (h : t.rows.length ≤ (t.out.splitOn '\n').tail.length) : ∃ us vs,
    t.text = us ++ t.out ++ vs ∧ (∀ c ∈ us, isWhiteSpace c = true) ∧
      (∀ c ∈ vs, isWhiteSpace c = true) ∧
      ((∃ l, t.out.splitOn '\n' = [l] ∧ t.lines = [us ++ l ++ vs]) ∨
        ∃ first init last, t.out.splitOn '\n' = first :: (init ++ [last]) ∧
          t.lines = (us ++ first) :: (init ++ [last ++ vs])) := by
  obtain ⟨us, vs, htext, hus, hvs⟩ := trimmed_eq isWhiteSpace t.text
  rw [← trim_eq, ← out_eq] at htext
  refine ⟨us, vs, htext, hus, hvs, ?_⟩
  have hcount : us.count '\n' + t.out.count '\n' + vs.count '\n' = t.rows.length := by
    have hlen := congrArg List.length t.splitOn_text
    rw [length_splitOn, htext, List.count_append, List.count_append, lines, List.length_cons,
      List.length_map] at hlen
    omega
  rw [List.length_tail, length_splitOn] at h
  have hus' : '\n' ∉ us := List.count_eq_zero.1 (by omega)
  have hvs' : '\n' ∉ vs := List.count_eq_zero.1 (by omega)
  obtain ⟨init, last, hout, hlast⟩ := splitOn_append_right hvs' t.out
  obtain ⟨first, rest, hfirst, hall⟩ := splitOn_append_left hus' (t.out ++ vs)
  rw [← List.append_assoc, ← htext, splitOn_text] at hall
  rw [hlast] at hfirst
  rcases init with _ | ⟨l, init⟩
  · obtain ⟨rfl, rfl⟩ := List.cons_eq_cons.1 hfirst
    exact Or.inl ⟨last, hout, by simpa using hall⟩
  · obtain ⟨rfl, rfl⟩ := List.cons_eq_cons.1 hfirst
    exact Or.inr ⟨l, init, last, hout, hall⟩

end ResultSet

/-- A result whose printed lines mean what they say after trimming. -/
structure ResultSet.Clean (t : ResultSet) : Prop where
  names : ∀ name ∈ t.names, name ≠ [] ∧ name.getLast? ≠ some '\r' ∧
    ∀ c ∈ escapable, ¬ ['\\', c] <:+: name
  first : ∀ name ∈ t.names.head?, ∀ c ∈ name.head?, isWhiteSpace c = false
  last : t.rows = [] → ∀ name ∈ t.names.getLast?, ∀ c ∈ name.getLast?, isWhiteSpace c = false
  rows : ∀ row ∈ t.rows, row ≠ [some []] ∧
    ∀ text, row.getLast? = some (some text) → text.getLast? ≠ some '\r'
  lastRow : ∀ row ∈ t.rows.getLast?, ∀ v ∈ row.getLast?, v.Kept

namespace ResultSet

variable {t : ResultSet}

/-- Header and rows are read back from the lines of a clean result. -/
theorem Clean.read (h : t.Clean) : parseHeader ((t.out.splitOn '\n').headD []) = t.names ∧
    readRows (t.out.splitOn '\n').tail = t.rows := by
  obtain ⟨name, names, hnames⟩ := List.exists_cons_of_ne_nil t.nonempty
  have hname : name ≠ [] := (h.names name (by simp [hnames])).1
  have hheader : ['\t'].intercalate t.names ≠ [] := by
    rw [hnames]
    intro hnil
    have hfirst : (['\t'].intercalate (name :: names)).head? = name.head? := head?_intercalate hname names
    rw [hnil] at hfirst
    exact hname (List.head?_eq_none_iff.1 hfirst.symm)
  have hhead : ∀ c ∈ t.text.head?, isWhiteSpace c = false := by
    rw [text, lines, head?_intercalate hheader, hnames, head?_intercalate hname]
    exact h.first name (by simp [hnames])
  have hlast : ∀ c ∈ t.text.getLast?, isWhiteSpace c = false := by
    rcases t.rows.eq_nil_or_concat' with hrows | ⟨init, row, hrows⟩
    · obtain ⟨pre, lastName, hcat⟩ := (t.names.eq_nil_or_concat').resolve_left t.nonempty
      have hne : lastName ≠ [] := (h.names lastName (by simp [hcat])).1
      have htext : t.text = ['\t'].intercalate t.names := by simp [text, lines, hrows]
      rw [htext, hcat, getLast?_intercalate hne]
      exact h.last hrows lastName (by simp [hcat])
    · obtain ⟨pre, v, rfl⟩ := (row.eq_nil_or_concat').resolve_left (t.row_ne_nil (by simp [hrows]))
      obtain ⟨c, hc, hw⟩ := (kept_iff _).1 (h.lastRow (pre ++ [v]) (by simp [hrows]) v (by simp))
      have hne : printRow (pre ++ [v]) ≠ [] := by
        rintro hnil
        rw [hnil] at hc
        cases hc
      rw [text, lines, hrows, List.map_append, List.map_singleton, ← List.cons_append,
        getLast?_intercalate hne, hc]
      rintro d ⟨⟩
      exact hw
  rw [t.out_eq, trim_eq_self hhead hlast, t.splitOn_text, lines, List.headD_cons, List.tail_cons]
  constructor
  · rw [parseHeader, List.splitOn_intercalate '\t' (fun n hn => (t.plain n hn).1) t.nonempty,
      List.filter_eq_self.2 fun n hn => by simpa using (h.names n hn).1]
    exact (List.map_congr_left fun n hn => name_eq_iff.2 (h.names n hn).2).trans (List.map_id _)
  · have hlines : (t.rows.map printRow).filter (· ≠ []) = t.rows.map printRow := by
      refine List.filter_eq_self.2 fun l hl => ?_
      obtain ⟨row, hrow, rfl⟩ := List.mem_map.1 hl
      simpa using fun hnil => (h.rows row hrow).1 ((printRow_eq_nil (t.row_ne_nil hrow)).1 hnil)
    rw [readRows, hlines, List.map_map]
    refine (List.map_congr_left fun row hrow => ?_).trans (List.map_id _)
    refine parseLine_printRow (t.row_ne_nil hrow) (t.notNull row hrow) fun hcr => ?_
    obtain ⟨pre, v, rfl⟩ := (row.eq_nil_or_concat').resolve_left (t.row_ne_nil hrow)
    obtain ⟨text, rfl, htext⟩ := (carriage_iff _).1 hcr
    exact (h.rows _ hrow).2 text (by simp) htext

/-- The first name starts the output, and without rows the last one ends it. -/
theorem names_of_header (hne : ∀ name ∈ t.names, name ≠ []) (hout : t.out = t.text) :
    (∀ name ∈ t.names.head?, ∀ c ∈ name.head?, isWhiteSpace c = false) ∧
      (t.rows = [] → ∀ name ∈ t.names.getLast?, ∀ c ∈ name.getLast?, isWhiteSpace c = false) := by
  have htrim : t.out = trim t.text := t.out_eq
  constructor
  · intro name hname c hc
    obtain ⟨names, hnames⟩ : ∃ names, t.names = name :: names := List.head?_eq_some_iff.1 hname
    have hn : name ≠ [] := hne name (by simp [hnames])
    have hheader : (['\t'].intercalate t.names).head? = some c := by
      rw [hnames, head?_intercalate hn]
      exact hc
    refine head?_trim (?_ : (trim t.text).head? = some c)
    rw [← htrim, hout, text, lines, head?_intercalate, hheader]
    rintro hnil
    rw [hnil] at hheader
    cases hheader
  · intro hrows name hname c hc
    obtain ⟨init, hinit⟩ := List.getLast?_eq_some_iff.1 hname
    have hn : name ≠ [] := hne name (by simp [hinit])
    have hheader : t.text = ['\t'].intercalate t.names := by simp [text, lines, hrows]
    refine getLast?_trim (?_ : (trim t.text).getLast? = some c)
    rw [← htrim, hout, hheader, hinit, getLast?_intercalate hn]
    exact hc

/-- A result whose header and rows are read back is clean. -/
theorem clean_of_read (hh : parseHeader ((t.out.splitOn '\n').headD []) = t.names)
    (hr : readRows (t.out.splitOn '\n').tail = t.rows) : t.Clean := by
  have hlen : t.rows.length ≤ (t.out.splitOn '\n').tail.length := by
    rw [← hr, readRows, List.length_map]
    exact List.length_filter_le _ _
  have htab : ∀ name ∈ t.names, '\t' ∉ name := fun name hname => (t.plain name hname).1
  obtain ⟨us, vs, htext, hus, hvs, hlines⟩ := t.lines_out hlen
  rcases hlines with ⟨l, hl, hall⟩ | ⟨first, init, last, hl, hall⟩
  · -- the header is the only line
    obtain ⟨hheader, hrows⟩ := List.cons_eq_cons.1 hall
    rw [hl] at hh
    obtain ⟨rfl, rfl, hnames⟩ := header_eq t.nonempty htab hheader hh
    have hrows : t.rows = [] := List.map_eq_nil_iff.1 hrows
    have hout : t.out = t.text := by simpa using htext.symm
    obtain ⟨hfirst, hlast⟩ := names_of_header (fun name hname => (hnames name hname).1) hout
    exact {
      names := fun name hname => ⟨(hnames name hname).1, name_eq_iff.1 (hnames name hname).2⟩
      first := hfirst
      last := hlast
      rows := by simp [hrows]
      lastRow := by simp [hrows] }
  · obtain ⟨hheader, hrows⟩ := List.cons_eq_cons.1 hall
    rw [hl] at hh hr
    obtain ⟨rfl, -, hnames⟩ := header_eq (b := []) t.nonempty htab (by simpa using hheader) hh
    -- every line is a row, so none is empty
    rw [List.tail_cons, readRows] at hr
    have hkeep : (init ++ [last]).filter (· ≠ []) = init ++ [last] := by
      refine List.filter_sublist.eq_of_length_le ?_
      have hl₁ := congrArg List.length hr
      have hl₂ := congrArg List.length hrows
      simp only [List.length_map, List.length_append, List.length_singleton] at hl₁ hl₂ ⊢
      omega
    have hfull : ∀ l ∈ init ++ [last], l ≠ [] := fun l hmem => by
      rw [← hkeep] at hmem
      simpa using (List.mem_filter.1 hmem).2
    rw [hkeep, List.map_append, List.map_singleton] at hr
    have hrow {l : List Char} (hmem : l ∈ init ++ [last]) : parseLine l ∈ t.rows := by
      rw [← hr, ← List.map_singleton, ← List.map_append]
      exact List.mem_map_of_mem hmem
    rw [← hr, List.map_append, List.map_map, List.map_singleton] at hrows
    obtain ⟨hinit, hlast⟩ := List.append_inj' hrows rfl
    -- nothing is trimmed off a line
    obtain ⟨rfl, hcr⟩ := row_eq (t.row_ne_nil (hrow (by simp))) (List.singleton_inj.1 hlast) hvs rfl
    have hline {l : List Char} (hmem : l ∈ init ++ [last]) :
        printRow (parseLine l) = l ∧ trimEndCr l = l := by
      rcases List.mem_append.1 hmem with hmem | hmem
      · have hprint : printRow (parseLine l) = l :=
          List.map_inj_left.1 (hinit.trans (List.map_id _).symm) l hmem
        exact ⟨hprint, (row_eq (t.row_ne_nil (hrow (List.mem_append_left _ hmem)))
          (hprint.trans (List.append_nil l).symm) (by simp) rfl).2⟩
      · obtain rfl := List.mem_singleton.1 hmem
        exact ⟨by simpa using List.singleton_inj.1 hlast, hcr⟩
    have hout : t.out = t.text := by simpa using htext.symm
    obtain ⟨hfirst, hlastName⟩ := names_of_header (fun name hname => (hnames name hname).1) hout
    refine ⟨fun name hname => ⟨(hnames name hname).1, name_eq_iff.1 (hnames name hname).2⟩, hfirst,
      hlastName, fun row hmem => ?_, fun row hmem v hv => ?_⟩
    · rw [← hr, ← List.map_singleton, ← List.map_append] at hmem
      obtain ⟨l, hl, rfl⟩ := List.mem_map.1 hmem
      refine ⟨fun hempty => hfull l hl ?_, fun text htext hcarriage => ?_⟩
      · rw [← (hline hl).1, hempty]
        rfl
      · obtain ⟨pre, hpre⟩ := List.getLast?_eq_some_iff.1 htext
        have hend := (carriage_iff pre).2 ⟨text, rfl, hcarriage⟩
        rw [← hpre, (hline hl).1, ← (hline hl).2] at hend
        have := getLast?_rdropWhile hend
        simp at this
    · rw [← hr, List.getLast?_concat] at hmem
      obtain rfl : parseLine last = row := Option.some.inj hmem
      obtain ⟨pre, hpre⟩ := List.getLast?_eq_some_iff.1 hv
      obtain ⟨c, hc⟩ := Option.isSome_iff_exists.1 (List.getLast?_isSome.2 (hfull last (by simp)))
      refine (kept_iff pre).2 ⟨c, by rw [← hpre, (hline (by simp)).1, hc], ?_⟩
      refine getLast?_trim (?_ : (trim t.text).getLast? = some c)
      rw [← t.out_eq, hout, text, hall, List.append_nil, ← List.cons_append,
        getLast?_intercalate (hfull last (by simp)), hc]

end ResultSet

/-! ## Masked values -/

/-- A row with the values of the masked columns hidden. -/
def hideRow (isMasked : List Char → Bool) (names : List (List Char)) (row : List Value) : List Value :=
  List.zipWith (fun name v => if isMasked name then some "***".toList else v) names row

section Mask

variable {isMasked : List Char → Bool} {names : List (List Char)}

theorem maskRow_eq {row : List Value} {i : Nat} (h : i + row.length ≤ names.length) :
    maskRow names (names.filter isMasked) i row = some (hideRow isMasked (names.drop i) row) := by
  induction row generalizing i with
  | nil => simp [maskRow, hideRow]
  | cons v vs ih =>
    rw [List.length_cons] at h
    have hi : i < names.length := by omega
    have hmem : names[i] ∈ names.filter isMasked ↔ isMasked names[i] = true := by
      simp [List.mem_filter]
    rw [maskRow, ih (by omega), List.getElem?_eq_getElem hi, hideRow, hideRow,
      List.drop_eq_getElem_cons hi, List.zipWith_cons_cons]
    simp only [Option.bind_eq_bind, Option.bind_some, Option.pure_def, hmem]

/-- Without a masked column nothing is hidden. -/
theorem hideRow_eq_self {row : List Value} (hn : names.filter isMasked = [])
    (h : row.length ≤ names.length) : hideRow isMasked names row = row := by
  induction names generalizing row with
  | nil => rw [List.length_eq_zero_iff.1 (Nat.le_zero.1 h), hideRow, List.zipWith_nil_left]
  | cons name names ih =>
    have hname : isMasked name = false := by
      by_contra hm
      simp [List.filter_cons_of_pos (p := isMasked) (by simpa using hm)] at hn
    rw [List.filter_cons_of_neg (by simp [hname])] at hn
    cases row with
    | nil => simp [hideRow]
    | cons v vs =>
      have hvs : hideRow isMasked names vs = vs := ih hn (by simpa using h)
      rw [hideRow] at hvs ⊢
      rw [List.zipWith_cons_cons, hvs, hname]
      rfl

/-- The masking of rows that are as wide as the names hides the masked columns. -/
theorem mask_eq {p : ParsedTable} (h : ∀ row ∈ p.rows, row.length = p.columns.length) :
    mask isMasked p = some (p.columns.filter isMasked, p.rows.map (hideRow isMasked p.columns)) := by
  unfold mask
  dsimp only
  split
  · next hn =>
    rw [(List.map_congr_left fun row hrow => hideRow_eq_self hn (h row hrow).le).trans (List.map_id _)]
  · have hrows : p.rows.mapM (maskRow p.columns (p.columns.filter isMasked) 0) =
        some (p.rows.map (hideRow isMasked p.columns)) := by
      refine Table.mapM_of_forall₂ (List.forall₂_same.2 fun row hrow => ?_)
      exact maskRow_eq (by rw [h row hrow, Nat.zero_add])
    rw [hrows]
    rfl

end Mask

/-- The console shows a result: the table is exact, and masking hides the columns that a rule names. -/
structure Shown (isMasked : List Char → Bool) (t : ResultSet) (p : ParsedTable) : Prop
    extends Exact t.names t.rows p where
  masked : mask isMasked p =
    some (t.names.filter isMasked, p.rows.map (hideRow isMasked t.names))

/-- The console shows a result under all caps and rules exactly when the result is clean. -/
theorem shown_iff_clean (t : ResultSet) :
    (∀ capRows capBytes env toLowercase,
      Shown (isMaskedCol env toLowercase) t (parseTable t.out capRows capBytes)) ↔ t.Clean := by
  constructor
  · intro h
    obtain ⟨hh, hr⟩ := exact_iff.1 fun capRows capBytes => (h capRows capBytes none id).toExact
    exact ResultSet.clean_of_read hh hr
  · intro h capRows capBytes env toLowercase
    have hexact := exact_iff.2 h.read capRows capBytes
    refine ⟨hexact, ?_⟩
    obtain ⟨k, -, hrows, -⟩ := hexact.rows
    rw [mask_eq, hexact.columns]
    intro row hrow
    rw [hrows] at hrow
    rw [hexact.columns, t.width row (List.mem_of_mem_take hrow)]

/-- A result whose first column has no name. -/
def nameless : ResultSet where
  names := [[], "password".toList]
  rows := [[some ['1'], some ['x']]]
  nonempty := by decide
  plain := by decide
  width := by decide
  notNull := by decide

theorem nameless_not_shown : ¬ ∀ (t : ResultSet) capRows capBytes env toLowercase,
    Shown (isMaskedCol env toLowercase) t (parseTable t.out capRows capBytes) := fun h => by
  obtain ⟨hh, hr⟩ := exact_iff.1 fun capRows capBytes => (h nameless capRows capBytes none id).toExact
  exact ((ResultSet.clean_of_read hh hr).names [] (by decide)).1 rfl

end Rdsctl.Query
