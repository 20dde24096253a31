import Rdsctl.Ha.Text

/-!
# Screening of statements

`src/query.rs`: `scan_sql`, `contains_outside_quotes`, `classify_sql` and `blocked_table`. The scanner
reads the bytes of a statement one by one as characters. Where the source takes an element or a slice,
the model does so in `Option`, and `none` is a panic. Loops have fuel, and running out of it is `none`
too.

`visible` says what the scanner leaves of a statement, by recursion on its text.
-/

namespace Rdsctl.Query

open Ha Utf8

/-! ## The scanner -/

/-- The bytes of a text, each `as char`. -/
def bytesAsChars (text : List Char) : List Char := (encode text).map fun b => Char.ofNat b.toNat

/-- `char::is_ascii_whitespace` -/
def isAsciiWhitespace (c : Char) : Bool :=
  c = ' ' || c = '\t' || c = '\n' || c = '\x0c' || c = '\r'

/-- The loop over a string literal. -/
def skipLiteral (b : List Char) (q : Char) : Nat → Nat → Bool → Option Nat
  | 0, _, _ => none
  | fuel + 1, i, prevBs =>
    if i < b.length then do
      let cc ← b[i]?
      if cc = '\\' ∧ prevBs = false then skipLiteral b q fuel (i + 1) true
      else if cc = q ∧ prevBs = false then some i
      else skipLiteral b q fuel (i + 1) false
    else some i

/-- `while i < b.len() && b[i] != stop` -/
def skipTo (b : List Char) (stop : Char) : Nat → Nat → Option Nat
  | 0, _ => none
  | fuel + 1, i =>
    if i < b.length then do
      let cc ← b[i]?
      if cc ≠ stop then skipTo b stop fuel (i + 1) else some i
    else some i

/-- The loop over a comment. -/
def skipComment (b : List Char) : Nat → Nat → Option Nat
  | 0, _ => none
  | fuel + 1, i =>
    if i + 1 < b.length then do
      let c ← b[i]?
      let d ← b[i + 1]?
      if ¬ (c = '*' ∧ d = '/') then skipComment b fuel (i + 1) else some i
    else some i

/-- `i + 1 < b.len() && b[i + 1] == d` -/
def nextIs (b : List Char) (i : Nat) (d : Char) : Option Bool :=
  if i + 1 < b.length then b[i + 1]?.map (· == d) else some false

/-- `Scan` -/
structure Scan where
  skeletonLower : List Char
  firstKw : List Char
  topSemicolons : Nat
deriving DecidableEq, Repr

/-- The variables of `scan_sql`. -/
structure Scanning where
  sk : List Char := []
  firstKw : Option (List Char) := none
  semis : Nat := 0
  pendingKw : List Char := []

namespace Scanning

/-- `flush_word!` -/
def flushWord (s : Scanning) : Scanning :=
  if s.pendingKw = [] then s
  else { s with
    firstKw := s.firstKw.or (some s.pendingKw)
    sk := s.sk ++ s.pendingKw.map Char.toLower
    pendingKw := [] }

/-- `sk.push(c)` -/
def push (s : Scanning) (c : Char) : Scanning := { s with sk := s.sk ++ [c] }

/-- `semis += 1` -/
def semicolon (s : Scanning) : Scanning := { s with semis := s.semis + 1 }

/-- What `scan_sql` does with a character outside of strings and comments. -/
def other (s : Scanning) (c : Char) : Scanning :=
  if c.isAlphanum ∨ c = '_' ∨ c = '$' then
    { s with pendingKw := s.pendingKw ++ [if c.isAlpha then c.toUpper else c] }
  else if isAsciiWhitespace c ∨ c = '(' then s.flushWord.push ' '
  else if c = '.' ∧ s.pendingKw ≠ [] then { s with pendingKw := s.pendingKw ++ ['.'] }
  else if s.pendingKw = [] then s.push c
  else s

/-- The loop of `scan_sql` from an index on. -/
def scan (b : List Char) : Nat → Nat → Scanning → Option Scanning
  | 0, _, _ => none
  | fuel + 1, i, s =>
    if i < b.length then do
      let c ← b[i]?
      let dash ← nextIs b i '-'
      let star ← nextIs b i '*'
      if c = '\'' ∨ c = '"' then
        let j ← skipLiteral b c (b.length + 1) (i + 1) false
        scan b fuel (j + 1) (s.flushWord.push ' ')
      else if c = '`' then
        let j ← skipTo b '`' (b.length + 1) (i + 1)
        scan b fuel (j + 1) (s.flushWord.push ' ')
      else if c = '-' ∧ dash ∨ c = '#' then
        let j ← skipTo b '\n' (b.length + 1) i
        scan b fuel j (s.flushWord.push ' ')
      else if c = '/' ∧ star then
        let j ← skipComment b (b.length + 1) (i + 2)
        scan b fuel (j + 2) (s.flushWord.push ' ')
      else if c = ';' then scan b fuel (i + 1) (s.flushWord.semicolon.push ' ')
      else scan b fuel (i + 1) (s.other c)
    else some s.flushWord

end Scanning

/-- `scan_sql` -/
def scanSql (sql : List Char) : Option Scan :=
  let b := bytesAsChars sql
  (Scanning.scan b (b.length + 1) 0 {}).map fun s => ⟨s.sk, s.firstKw.getD [], s.semis⟩

/-! ## Forbidden words -/

/-- The first `n` bytes of a text, as `s[..n]`. -/
def sliceTo : Nat → List Char → Option (List Char)
  | 0, _ => some []
  | _ + 1, [] => none
  | n + 1, c :: cs =>
    if c.utf8Size ≤ n + 1 then (sliceTo (n + 1 - c.utf8Size) cs).map (c :: ·) else none

/-- `s[i..i + n]` -/
def slice (i n : Nat) (s : List Char) : Option (List Char) := (sliceFrom i s).bind (sliceTo n)

/-- `i == 0 || !bytes[i - 1].is_ascii_alphanumeric()` -/
def beforeOk (bytes : List Char) (i : Nat) : Option Bool :=
  if i = 0 then some true else bytes[i - 1]?.map fun c => !c.isAlphanum

/-- `i + kw.len() >= bytes.len() || !bytes[i + kw.len()].is_ascii_alphanumeric()` -/
def afterOk (bytes : List Char) (i : Nat) : Option Bool :=
  if bytes.length ≤ i then some true else bytes[i]?.map fun c => !c.isAlphanum

/-- The loop of `contains_outside_quotes`. -/
def findWord (sk kw : List Char) : Nat → Nat → Option Bool
  | 0, _ => none
  | fuel + 1, i =>
    let bytes := bytesAsChars sk
    if i + byteLen kw ≤ bytes.length then do
      let w ← slice i (byteLen kw) sk
      if w = kw then
        let before ← beforeOk bytes i
        let after ← afterOk bytes (i + byteLen kw)
        if before && after then return true
        findWord sk kw fuel (i + 1)
      else findWord sk kw fuel (i + 1)
    else some false

/-- `contains_outside_quotes` -/
def containsOutsideQuotes (sql upper : List Char) : Option Bool := do
  let sk := (← scanSql sql).skeletonLower
  findWord sk (upper.map Char.toLower) ((bytesAsChars sk).length + 1) 0

/-! ## Classification -/

/-- `Classified` -/
structure Classified where
  readOnly : Bool
deriving DecidableEq, Repr

/-- `READ_KW` -/
def readKw : List String := ["SELECT", "WITH", "SHOW", "EXPLAIN", "DESCRIBE", "DESC", "HELP"]

/-- `WRITE_KW` -/
def writeKw : List String := ["INSERT", "UPDATE", "DELETE", "REPLACE"]

/-- `DENY_KW` -/
def denyKw : List String :=
  ["ALTER", "CREATE", "DROP", "TRUNCATE", "RENAME", "GRANT", "REVOKE", "LOCK", "UNLOCK", "CALL", "LOAD",
    "SET", "START", "STOP", "ANALYZE", "OPTIMIZE", "REPAIR", "FLUSH", "KILL", "RESET", "CHANGE",
    "INSTALL", "UNINSTALL", "USE", "BEGIN", "COMMIT", "ROLLBACK", "SAVEPOINT"]

/-- `FORBIDDEN` -/
def forbidden : List String :=
  ["OUTFILE", "DUMPFILE", "LOAD_FILE", "SYS_EXEC", "BENCHMARK", "SLEEP"]

/-- The first forbidden word of a statement. -/
def findForbidden (sql : List Char) : List String → Option (Option String)
  | [] => some none
  | f :: fs => do
    if ← containsOutsideQuotes sql f.toList then return some f
    findForbidden sql fs

/-- `sql.trim_end().ends_with(';')` -/
def endsWithSemicolon (sql : List Char) : Bool :=
  (sql.reverse.dropWhile isWhiteSpace).head? == some ';'

/-- What the first word of a statement makes of it. -/
def classifyWord (kw : String) : Except String Classified :=
  if kw = "" then .error "无法识别语句首词,已拒绝(注释/特殊开头)"
  else if kw ∈ readKw then .ok ⟨true⟩
  else if kw ∈ writeKw then .ok ⟨false⟩
  else if kw ∈ denyKw then .error s!"语句 {kw} 属 DDL/管理类,查询台不开放(请走实例生命周期或运维通道)"
  else .error s!"首词 {kw} 不在允许范围(只读需 SELECT/SHOW/EXPLAIN/DESCRIBE 等)"

/-- `classify_sql` -/
def classifySql (maxSqlLen : Nat) (sql : List Char) : Option (Except String Classified) :=
  if trim sql = [] then some (.error "SQL 为空")
  else if maxSqlLen < byteLen sql then some (.error s!"SQL 超过长度上限({maxSqlLen} 字符)")
  else do
    let s ← scanSql sql
    let n := if endsWithSemicolon sql then s.topSemicolons - 1 else s.topSemicolons
    if 0 < n then return .error "不支持多语句(一次仅一条 SQL)"
    match ← findForbidden sql forbidden with
    | some f => return .error s!"语句包含禁止词 {f}"
    | none => return classifyWord (String.ofList s.firstKw)

/-! ## Blocked tables -/

/-- `block_prefixes`, with the list of the environment and `str::to_lowercase`. -/
def blockPrefixes (env : Option (List Char)) (toLowercase : List Char → List Char) :
    List (List Char) :=
  ["mysql.", "performance_schema.", "information_schema.user_privileges",
    "information_schema.schema_privileges", "information_schema.role_", "sys."].map String.toList ++
  match env with
  | some x => ((x.splitOn ',').map fun p => toLowercase (trim p)).filter (· ≠ [])
  | none => []

/-- `str::find`: where a text starts in another one, in bytes. -/
def find (pat : List Char) : List Char → Option Nat
  | [] => if pat = [] then some 0 else none
  | c :: cs => if pat.isPrefixOf (c :: cs) then some 0 else (find pat cs).map (c.utf8Size + ·)

/-- The name behind a pattern. -/
def identAt (tail : List Char) : List Char :=
  (tail.takeWhile fun ch => ch.isAlphanum || ch == '_' || ch == '.' || ch == '`').filter (· ≠ '`')

/-- The loop of `blocked_table` for a pattern. -/
def blockedBehind (bp : List (List Char)) (pat : List Char) :
    Nat → List Char → Option (Option (List Char))
  | 0, _ => none
  | fuel + 1, rest =>
    match find pat rest with
    | none => some none
    | some pos => do
      let tail ← sliceFrom (pos + byteLen pat) rest
      let ident := identAt tail
      if bp.any (·.isPrefixOf ident) then return some ident
      blockedBehind bp pat fuel tail

/-- The first blocked name behind one of the patterns. -/
def firstBlocked (bp : List (List Char)) (s : List Char) : List String → Option (Option (List Char))
  | [] => some none
  | pat :: pats => do
    match ← blockedBehind bp pat.toList (s.length + 1) s with
    | some ident => return some ident
    | none => firstBlocked bp s pats

/-- `blocked_table` -/
def blockedTable (bp : List (List Char)) (sql : List Char) : Option (Option (List Char)) := do
  let s := (← scanSql sql).skeletonLower
  firstBlocked bp s ["from ", "join ", "into ", "update ", "table ", "alter ", "drop "]

/-! ## What the scanner leaves -/

/-- What is behind a string literal. -/
def afterLiteral (q : Char) : Bool → List Char → List Char
  | _, [] => []
  | prevBs, c :: cs =>
    if c = '\\' ∧ prevBs = false then afterLiteral q true cs
    else if c = q ∧ prevBs = false then cs
    else afterLiteral q false cs

/-- What is behind a comment. -/
def afterComment : List Char → List Char
  | c :: d :: cs => if c = '*' ∧ d = '/' then cs else afterComment (d :: cs)
  | _ => []

theorem length_afterLiteral (q : Char) (prevBs : Bool) (cs : List Char) :
    (afterLiteral q prevBs cs).length ≤ cs.length := by
  fun_induction afterLiteral q prevBs cs with
  | case1 => exact Nat.le_refl _
  | case2 => exact Nat.le_succ_of_le ‹_›
  | case3 => exact Nat.le_succ _
  | case4 => exact Nat.le_succ_of_le ‹_›

theorem length_afterComment (cs : List Char) : (afterComment cs).length ≤ cs.length := by
  fun_induction afterComment cs with
  | case1 => simp; omega
  | case2 => exact Nat.le_succ_of_le ‹_›
  | case3 => exact Nat.zero_le _

theorem length_dropWhile_ne (stop : Char) (cs : List Char) :
    (cs.dropWhile (· ≠ stop)).length ≤ cs.length :=
  (List.dropWhile_sublist _).length_le

/-- The text that is left when every string, quoted name, comment and semicolon is a blank, behind the
word `w`: words in lower case, blanks and single characters between them. -/
def visible (w : List Char) : List Char → List Char
  | [] => w
  | c :: cs =>
    if c = '\'' ∨ c = '"' then w ++ ' ' :: visible [] (afterLiteral c false cs)
    else if c = '`' then w ++ ' ' :: visible [] (cs.dropWhile (· ≠ '`')).tail
    else if c = '-' ∧ cs.head? = some '-' ∨ c = '#' then
      w ++ ' ' :: visible [] (cs.dropWhile (· ≠ '\n'))
    else if c = '/' ∧ cs.head? = some '*' then w ++ ' ' :: visible [] (afterComment cs.tail)
    else if c = ';' then w ++ ' ' :: visible [] cs
    else if c.isAlphanum ∨ c = '_' ∨ c = '$' then visible (w ++ [c.toLower]) cs
    else if isAsciiWhitespace c ∨ c = '(' then w ++ ' ' :: visible [] cs
    else if c = '.' ∧ w ≠ [] then visible (w ++ ['.']) cs
    else if w = [] then c :: visible [] cs
    else visible w cs
  termination_by cs => cs.length
  decreasing_by
    all_goals simp only [List.length_cons, List.length_tail]
    · exact Nat.lt_succ_of_le (length_afterLiteral _ _ _)
    · have := length_dropWhile_ne '`' cs
      omega
    · exact Nat.lt_succ_of_le (length_dropWhile_ne _ _)
    · have := length_afterComment cs.tail
      rw [List.length_tail] at this
      omega
    all_goals omega

section Scan

variable {b : List Char} {i fuel : Nat}

theorem drop_eq_nil (h : b.drop i = []) : ¬ i < b.length := Nat.not_lt.2 (List.drop_eq_nil_iff.1 h)

theorem drop_eq_cons {c : Char} {cs : List Char} (h : b.drop i = c :: cs) :
    i < b.length ∧ b[i]? = some c ∧ b.drop (i + 1) = cs := by
  refine ⟨?_, ?_, ?_⟩
  · have hlen := congrArg List.length h
    simp at hlen
    omega
  · rw [← List.head?_drop, h, List.head?_cons]
  · rw [← List.tail_drop, h, List.tail_cons]

theorem skipLiteral_eq {q : Char} (prevBs : Bool) (h : (b.drop i).length < fuel) :
    ∃ j, skipLiteral b q fuel i prevBs = some j ∧
      b.drop (j + 1) = afterLiteral q prevBs (b.drop i) := by
  induction fuel generalizing i prevBs with
  | zero => cases h
  | succ fuel ih =>
    cases hd : b.drop i with
    | nil =>
      refine ⟨i, by rw [skipLiteral, if_neg (drop_eq_nil hd)], ?_⟩
      rw [← List.tail_drop, hd, afterLiteral, List.tail_nil]
    | cons c cs =>
      obtain ⟨hi, hc, hcs⟩ := drop_eq_cons hd
      have hfuel : (b.drop (i + 1)).length < fuel := by
        rw [hcs]
        simpa [hd] using h
      simp only [skipLiteral, if_pos hi, hc, Option.bind_eq_bind, Option.bind_some, afterLiteral]
      split
      · simpa only [hcs] using ih _ hfuel
      · split
        · exact ⟨i, rfl, hcs⟩
        · simpa only [hcs] using ih _ hfuel

theorem skipTo_eq (stop : Char) (h : (b.drop i).length < fuel) :
    ∃ j, skipTo b stop fuel i = some j ∧ b.drop j = (b.drop i).dropWhile (· ≠ stop) := by
  induction fuel generalizing i with
  | zero => cases h
  | succ fuel ih =>
    cases hd : b.drop i with
    | nil => exact ⟨i, by rw [skipTo, if_neg (drop_eq_nil hd)], hd⟩
    | cons c cs =>
      obtain ⟨hi, hc, hcs⟩ := drop_eq_cons hd
      have hfuel : (b.drop (i + 1)).length < fuel := by
        rw [hcs]
        simpa [hd] using h
      simp only [skipTo, if_pos hi, hc, Option.bind_eq_bind, Option.bind_some]
      split
      · next hne =>
        rw [List.dropWhile_cons_of_pos (by simpa using hne)]
        simpa only [hcs] using ih hfuel
      · next heq =>
        rw [List.dropWhile_cons_of_neg (by simpa using heq)]
        exact ⟨i, rfl, hd⟩

theorem skipComment_eq (h : (b.drop i).length < fuel) :
    ∃ j, skipComment b fuel i = some j ∧ b.drop (j + 2) = afterComment (b.drop i) := by
  induction fuel generalizing i with
  | zero => cases h
  | succ fuel ih =>
    have hstop (hi : ¬ i + 1 < b.length) : skipComment b (fuel + 1) i = some i ∧
        b.drop (i + 2) = [] :=
      ⟨by rw [skipComment, if_neg hi], List.drop_eq_nil_of_le (by omega)⟩
    cases hd : b.drop i with
    | nil =>
      have hi := drop_eq_nil hd
      exact ⟨i, (hstop (by omega)).1, (hstop (by omega)).2⟩
    | cons c cs =>
      obtain ⟨-, hc, hcs⟩ := drop_eq_cons hd
      cases cs with
      | nil => exact ⟨i, (hstop (drop_eq_nil hcs)).1, (hstop (drop_eq_nil hcs)).2⟩
      | cons d cs =>
        obtain ⟨hi, hd', hcs'⟩ := drop_eq_cons hcs
        have hfuel : (b.drop (i + 1)).length < fuel := by
          rw [hcs]
          simpa [hd] using h
        simp only [skipComment, if_pos hi, hc, hd', Option.bind_eq_bind, Option.bind_some,
          afterComment]
        split
        · simpa only [hcs] using ih hfuel
        · next heq =>
          rw [if_pos (not_not.1 heq)]
          exact ⟨i, rfl, hcs'⟩

theorem nextIs_eq {d : Char} : nextIs b i d = some ((b.drop (i + 1)).head? == some d) := by
  rw [nextIs, List.head?_drop]
  split
  · next hi => simp [List.getElem?_eq_getElem hi]
  · next hi => simp [List.getElem?_eq_none (Nat.not_lt.1 hi)]

theorem toLower_toUpper {c : Char} (h : c.isAlpha) : c.toUpper.toLower = c.toLower := by
  have hlt : c.toNat < 128 := isAlphanum_lt (by simp [Char.isAlphanum, h])
  have hall : ∀ n : Fin 128, (Char.ofNat n).toUpper.toLower = (Char.ofNat n).toLower := by decide
  simpa using hall ⟨c.toNat, hlt⟩

/-- The word in the scanner's hands, as the skeleton will have it. -/
def Scanning.word (s : Scanning) : List Char := s.pendingKw.map Char.toLower

@[simp] theorem Scanning.sk_flushWord (s : Scanning) : s.flushWord.sk = s.sk ++ s.word := by
  unfold Scanning.flushWord Scanning.word
  split <;> simp [*]

@[simp] theorem Scanning.word_flushWord (s : Scanning) : s.flushWord.word = [] := by
  unfold Scanning.flushWord Scanning.word
  split <;> simp [*]

@[simp] theorem Scanning.sk_push (s : Scanning) (c : Char) : (s.push c).sk = s.sk ++ [c] := rfl

@[simp] theorem Scanning.word_push (s : Scanning) (c : Char) : (s.push c).word = s.word := rfl

@[simp] theorem Scanning.sk_semicolon (s : Scanning) : s.semicolon.sk = s.sk := rfl

@[simp] theorem Scanning.word_semicolon (s : Scanning) : s.semicolon.word = s.word := rfl

theorem Scanning.word_append (s : Scanning) (l : List Char) :
    ({ s with pendingKw := s.pendingKw ++ l } : Scanning).word = s.word ++ l.map Char.toLower :=
  List.map_append

theorem Scanning.word_eq_nil {s : Scanning} : s.word = [] ↔ s.pendingKw = [] := List.map_eq_nil_iff

/-- A character between strings and comments goes to the skeleton or to the word before it. -/
theorem Scanning.visible_other (s : Scanning) {c : Char} (cs : List Char)
    (hq : ¬ (c = '\'' ∨ c = '"')) (ht : c ≠ '`') (hd : ¬ (c = '-' ∧ cs.head? = some '-' ∨ c = '#'))
    (hm : ¬ (c = '/' ∧ cs.head? = some '*')) (hs : c ≠ ';') :
    (s.other c).sk ++ visible (s.other c).word cs = s.sk ++ visible s.word (c :: cs) := by
  rw [visible, if_neg hq, if_neg ht, if_neg hd, if_neg hm, if_neg hs]
  unfold Scanning.other
  by_cases hw : c.isAlphanum ∨ c = '_' ∨ c = '$'
  · have hlow : (if c.isAlpha then c.toUpper else c).toLower = c.toLower := by
      split
      · next ha => exact toLower_toUpper ha
      · rfl
    rw [if_pos hw, if_pos hw, Scanning.word_append, List.map_singleton, hlow]
  rw [if_neg hw, if_neg hw]
  by_cases hb : isAsciiWhitespace c ∨ c = '('
  · simp [hb]
  rw [if_neg hb, if_neg hb]
  simp only [ne_eq, ← s.word_eq_nil]
  by_cases hdot : c = '.' ∧ ¬ s.word = []
  · rw [if_pos hdot, if_pos hdot, Scanning.word_append]
    rfl
  rw [if_neg hdot, if_neg hdot]
  split
  · next hp => simp [hp]
  · rfl

/-- The scanner reads a statement to its end and leaves what is visible of it. -/
theorem Scanning.scan_eq (s : Scanning) (h : (b.drop i).length < fuel) :
    ∃ r, Scanning.scan b fuel i s = some r ∧ r.sk = s.sk ++ visible s.word (b.drop i) := by
  induction fuel generalizing i s with
  | zero => cases h
  | succ fuel ih =>
    cases hd : b.drop i with
    | nil => exact ⟨s.flushWord, by rw [Scanning.scan, if_neg (drop_eq_nil hd)], by simp [visible]⟩
    | cons c cs =>
      obtain ⟨hi, hc, hcs⟩ := drop_eq_cons hd
      have hlen : cs.length < fuel := by simpa [hd] using h
      have hin (k : Nat) : (b.drop k).length < b.length + 1 :=
        Nat.lt_succ_of_le (List.length_drop ▸ Nat.sub_le _ _)
      -- an arm goes on behind what it has read, with a blank behind the flushed word
      have arm {j : Nat} {rest : List Char} {t : Scanning} (ht : t.sk = s.sk ++ s.word)
          (hw : t.word = []) (hj : b.drop j = rest) (hle : rest.length ≤ cs.length) :
          ∃ r, Scanning.scan b fuel j (t.push ' ') = some r ∧
            r.sk = s.sk ++ (s.word ++ ' ' :: visible [] rest) := by
        obtain ⟨r, hr, hsk⟩ := ih (i := j) (t.push ' ') (by rw [hj]; omega)
        exact ⟨r, hr, by simp [hsk, ht, hw, hj]⟩
      simp only [Scanning.scan, if_pos hi, hc, nextIs_eq, hcs, Option.bind_eq_bind,
        Option.bind_some, beq_iff_eq]
      by_cases hq : c = '\'' ∨ c = '"'
      · obtain ⟨j, hj, hrest⟩ := skipLiteral_eq (q := c) false (hin (i + 1))
        rw [hcs] at hrest
        simpa only [if_pos hq, visible, hj, Option.bind_some] using
          arm s.sk_flushWord s.word_flushWord hrest (length_afterLiteral _ _ _)
      by_cases ht : c = '`'
      · obtain ⟨j, hj, hrest⟩ := skipTo_eq '`' (hin (i + 1))
        rw [hcs] at hrest
        have hnext : b.drop (j + 1) = (cs.dropWhile (· ≠ '`')).tail := by rw [← List.tail_drop, hrest]
        have hle := length_dropWhile_ne '`' cs
        simpa only [if_neg hq, if_pos ht, visible, hj, Option.bind_some] using
          arm s.sk_flushWord s.word_flushWord hnext (by rw [List.length_tail]; omega)
      by_cases hcom : c = '-' ∧ cs.head? = some '-' ∨ c = '#'
      · obtain ⟨j, hj, hrest⟩ := skipTo_eq '\n' (hin i)
        have hne : c ≠ '\n' := by
          rcases hcom with ⟨rfl, -⟩ | rfl
          · decide
          · decide
        rw [hd, List.dropWhile_cons_of_pos (by simpa using hne)] at hrest
        simpa only [if_neg hq, if_neg ht, if_pos hcom, visible, hj, Option.bind_some] using
          arm s.sk_flushWord s.word_flushWord hrest (length_dropWhile_ne _ _)
      by_cases hblock : c = '/' ∧ cs.head? = some '*'
      · obtain ⟨j, hj, hrest⟩ := skipComment_eq (hin (i + 2))
        have htail : b.drop (i + 2) = cs.tail := by rw [← hcs, List.tail_drop]
        have hle := length_afterComment cs.tail
        rw [htail] at hrest
        rw [List.length_tail] at hle
        simpa only [if_neg hq, if_neg ht, if_neg hcom, if_pos hblock, visible, hj, Option.bind_some] using
          arm s.sk_flushWord s.word_flushWord hrest (by omega)
      by_cases hsemi : c = ';'
      · simpa only [if_neg hq, if_neg ht, if_neg hcom, if_neg hblock, if_pos hsemi, visible] using
          arm (t := s.flushWord.semicolon) s.sk_flushWord s.word_flushWord hcs (Nat.le_refl _)
      · obtain ⟨r, hr, hsk⟩ := ih (i := i + 1) (s.other c) (by rw [hcs]; exact hlen)
        refine ⟨r, by simpa only [if_neg hq, if_neg ht, if_neg hcom, if_neg hblock, if_neg hsemi]
          using hr, ?_⟩
        rw [hsk, hcs, s.visible_other cs hq ht hcom hblock hsemi]

end Scan

/-- What the screening sees of a statement. -/
def skeleton (sql : List Char) : List Char := visible [] (bytesAsChars sql)

/-- `scan_sql` ends on every text. -/
theorem scanSql_eq (sql : List Char) : ∃ s, scanSql sql = some s ∧ s.skeletonLower = skeleton sql := by
  have hfuel : ((bytesAsChars sql).drop 0).length < (bytesAsChars sql).length + 1 := by simp
  obtain ⟨r, hr, hsk⟩ := Scanning.scan_eq {} hfuel
  exact ⟨⟨r.sk, r.firstKw.getD [], r.semis⟩, by rw [scanSql, hr]; rfl,
    by simpa [Scanning.word, skeleton] using hsk⟩

/-! ## When the search gets through -/

/-- A place between two characters of a text, counted in bytes. -/
def Boundary (text : List Char) (i : Nat) : Prop := ∃ p s, text = p ++ s ∧ byteLen p = i

/-- A word stands at a place of a text with no letter and no digit next to it. -/
def WordAt (word text : List Char) (i : Nat) : Prop :=
  ∃ p s, text = p ++ word ++ s ∧ byteLen p = i ∧
    (∀ c ∈ p.getLast?, c.isAlphanum = false) ∧ ∀ c ∈ s.head?, c.isAlphanum = false

/-- Every window as long as the word lies between characters, or the word stands by itself before the
window. -/
def Screenable (word text : List Char) : Prop :=
  ∀ i, i + byteLen word ≤ byteLen text →
    Boundary text i ∧ Boundary text (i + byteLen word) ∨ ∃ m < i, WordAt word text m

theorem sliceTo_eq_some {n : Nat} {text w : List Char} :
    sliceTo n text = some w ↔ ∃ s, text = w ++ s ∧ byteLen w = n := by
  constructor
  · intro h
    fun_induction sliceTo n text generalizing w with
    | case1 cs =>
      cases h
      exact ⟨cs, rfl, rfl⟩
    | case2 => cases h
    | case3 n c cs hle ih =>
      obtain ⟨v, hv, rfl⟩ := Option.map_eq_some_iff.1 h
      obtain ⟨s, rfl, hn⟩ := ih hv
      exact ⟨s, rfl, by rw [byteLen_cons]; omega⟩
    | case4 => cases h
  · rintro ⟨s, rfl, rfl⟩
    induction w with
    | nil => cases s <;> rfl
    | cons c w ih =>
      have hpos := c.utf8Size_pos
      obtain ⟨n, hn⟩ : ∃ n, byteLen (c :: w) = n + 1 := Nat.exists_eq_add_one.2 (by simp; omega)
      rw [hn, List.cons_append, sliceTo, ← hn, byteLen_cons, if_pos (Nat.le_add_right _ _),
        Nat.add_sub_cancel_left, ih]
      rfl

/-- A slice is the text between two boundaries. -/
theorem slice_eq_some {i n : Nat} {text w : List Char} :
    slice i n text = some w ↔ ∃ p s, text = p ++ w ++ s ∧ byteLen p = i ∧ byteLen w = n := by
  constructor
  · intro h
    obtain ⟨tail, ht, hw⟩ := Option.bind_eq_some_iff.1 h
    obtain ⟨p, rfl, hp⟩ := sliceFrom_eq_some.1 ht
    obtain ⟨s, rfl, hn⟩ := sliceTo_eq_some.1 hw
    exact ⟨p, s, by simp, hp, hn⟩
  · rintro ⟨p, s, rfl, hp, hn⟩
    rw [slice, List.append_assoc, sliceFrom_eq_some.2 ⟨p, rfl, hp⟩]
    exact sliceTo_eq_some.2 ⟨s, rfl, hn⟩

/-- A slice is taken when both ends are boundaries. -/
theorem isSome_slice {i n : Nat} {text : List Char} :
    (slice i n text).isSome ↔ Boundary text i ∧ Boundary text (i + n) := by
  rw [Option.isSome_iff_exists]
  constructor
  · rintro ⟨w, hw⟩
    obtain ⟨p, s, rfl, rfl, rfl⟩ := slice_eq_some.1 hw
    exact ⟨⟨p, w ++ s, by simp, rfl⟩, ⟨p ++ w, s, rfl, byteLen_append _ _⟩⟩
  · rintro ⟨⟨p, s, rfl, rfl⟩, ⟨q, t, h, hq⟩⟩
    obtain ⟨w, rfl, rfl⟩ := append_inj_byteLen h (by omega)
    rw [byteLen_append] at hq
    exact ⟨w, slice_eq_some.2 ⟨p, t, by simp, rfl, by omega⟩⟩

@[simp] theorem bytesAsChars_append (cs ds : List Char) :
    bytesAsChars (cs ++ ds) = bytesAsChars cs ++ bytesAsChars ds := by
  simp [bytesAsChars]

@[simp] theorem length_bytesAsChars (cs : List Char) : (bytesAsChars cs).length = byteLen cs := by
  simp [bytesAsChars]

@[simp] theorem bytesAsChars_eq_nil {cs : List Char} : bytesAsChars cs = [] ↔ cs = [] := by
  simp [bytesAsChars]

/-- Every byte of a character is a letter or a digit when the character is one. -/
theorem isAlphanum_byte {c d : Char} (h : d ∈ bytesAsChars [c]) : d.isAlphanum = c.isAlphanum := by
  by_cases hc : c.utf8Size = 1
  · have hval : c.val.toNat ≤ 127 := Char.utf8Size_eq_one_iff.1 hc
    have hd : d = Char.ofNat c.val.toUInt8.toNat := by
      simpa [bytesAsChars, String.utf8EncodeChar_eq_singleton hc] using h
    have hn : c.val.toUInt8.toNat = c.toNat := by
      rw [UInt32.toNat_toUInt8, Nat.mod_eq_of_lt (by omega)]
      rfl
    rw [hd, hn, Char.ofNat_toNat]
  · have hval : ¬ c.val.toNat ≤ 127 := fun hle => hc (Char.utf8Size_eq_one_iff.2 hle)
    obtain ⟨b, hb, rfl⟩ : ∃ b ∈ encode [c], Char.ofNat b.toNat = d := by
      simpa [bytesAsChars] using h
    have h128 : 128 ≤ b.toNat := le_of_mem_utf8EncodeChar hc (by simpa using hb)
    have hnot : (Char.ofNat b.toNat).isAlphanum = false := Bool.eq_false_iff.2 fun ha => by
      have := isAlphanum_lt ha
      rw [toNat_ofNat_byte] at this
      omega
    rw [hnot, Bool.eq_false_iff.2 fun ha => hval (Nat.le_of_lt_succ (isAlphanum_lt ha))]

theorem beforeOk_eq (p s : List Char) :
    beforeOk (bytesAsChars (p ++ s)) (byteLen p) = some (p.getLast?.all (!·.isAlphanum)) := by
  rcases List.eq_nil_or_concat p with rfl | ⟨q, c, rfl⟩
  · rfl
  · have hpos := c.utf8Size_pos
    have hne : bytesAsChars [c] ≠ [] := by simp
    have hlast : (bytesAsChars (q ++ [c] ++ s))[byteLen (q ++ [c]) - 1]? =
        some ((bytesAsChars [c]).getLast hne) := by
      rw [bytesAsChars_append, List.getElem?_append_left (by simp; omega), ← length_bytesAsChars,
        ← List.getLast?_eq_getElem?, bytesAsChars_append, List.getLast?_append_of_ne_nil _ hne,
        List.getLast?_eq_getLast_of_ne_nil hne]
    simp only [List.concat_eq_append]
    rw [beforeOk, if_neg (by simp; omega), hlast, Option.map_some,
      isAlphanum_byte (List.getLast_mem hne)]
    simp

theorem afterOk_eq (p s : List Char) :
    afterOk (bytesAsChars (p ++ s)) (byteLen p) = some (s.head?.all (!·.isAlphanum)) := by
  rcases s with _ | ⟨c, s⟩
  · simp [afterOk]
  · have hpos := c.utf8Size_pos
    obtain ⟨d, ds, hd⟩ := List.exists_cons_of_ne_nil (show bytesAsChars [c] ≠ [] by simp)
    have hnext : (bytesAsChars (p ++ c :: s))[byteLen p]? = some d := by
      rw [bytesAsChars_append, List.getElem?_append_right (by simp), length_bytesAsChars,
        Nat.sub_self, show c :: s = [c] ++ s from rfl, bytesAsChars_append, hd]
      rfl
    rw [afterOk, if_neg (by simp; omega), hnext, Option.map_some,
      isAlphanum_byte (hd ▸ List.mem_cons_self)]
    simp

/-- Where the slice is the word, the looks at its neighbours tell whether it stands by itself. -/
theorem wordAt_iff {i : Nat} {sk kw : List Char} (h : slice i (byteLen kw) sk = some kw) :
    ∃ before after, beforeOk (bytesAsChars sk) i = some before ∧
      afterOk (bytesAsChars sk) (i + byteLen kw) = some after ∧
      ((before && after) = true ↔ WordAt kw sk i) := by
  obtain ⟨p, s, rfl, rfl, -⟩ := slice_eq_some.1 h
  refine ⟨_, _, by rw [List.append_assoc, beforeOk_eq], by rw [← byteLen_append, afterOk_eq], ?_⟩
  constructor
  · intro hok
    rw [Bool.and_eq_true, Option.all_eq_true, Option.all_eq_true] at hok
    exact ⟨p, s, rfl, rfl, by simpa using hok.1, by simpa using hok.2⟩
  · rintro ⟨q, t, heq, hq, hp, hs⟩
    rw [List.append_assoc, List.append_assoc] at heq
    obtain ⟨w, rfl, htail⟩ := append_inj_byteLen heq (Nat.le_of_eq hq.symm)
    have hw : w = [] := by
      rcases w with _ | ⟨c, w⟩
      · rfl
      · have hpos := c.utf8Size_pos
        simp at hq
        omega
    subst hw
    obtain rfl : s = t := by simpa using htail
    rw [List.append_nil] at hp
    rw [Bool.and_eq_true, Option.all_eq_true, Option.all_eq_true]
    exact ⟨by simpa using hp, by simpa using hs⟩

theorem slice_of_wordAt {i : Nat} {sk kw : List Char} (h : WordAt kw sk i) :
    slice i (byteLen kw) sk = some kw := by
  obtain ⟨p, s, rfl, hp, -⟩ := h
  exact slice_eq_some.2 ⟨p, s, rfl, hp, rfl⟩

/-- The search from a place on gets through when the windows up to the first word do. -/
theorem findWord_ne_none {sk kw : List Char} (hk : 0 < byteLen kw) {fuel i : Nat} (hpos : 0 < fuel)
    (h : byteLen sk < i + fuel) :
    findWord sk kw fuel i ≠ none ↔ ∀ j, i ≤ j → j + byteLen kw ≤ byteLen sk →
      (slice j (byteLen kw) sk).isSome ∨ ∃ m, i ≤ m ∧ m < j ∧ WordAt kw sk m := by
  induction fuel generalizing i with
  | zero => cases hpos
  | succ fuel ih =>
    rw [findWord, length_bytesAsChars]
    by_cases hi : i + byteLen kw ≤ byteLen sk
    swap
    · rw [if_neg hi]
      exact ⟨fun _ j hj hle => absurd hle (by omega), fun _ => by simp⟩
    rw [if_pos hi]
    -- without the word at `i` the search goes on behind it
    have hnext (hw : ¬ WordAt kw sk i) (hsome : (slice i (byteLen kw) sk).isSome) :
        findWord sk kw fuel (i + 1) ≠ none ↔ ∀ j, i ≤ j → j + byteLen kw ≤ byteLen sk →
          (slice j (byteLen kw) sk).isSome ∨ ∃ m, i ≤ m ∧ m < j ∧ WordAt kw sk m := by
      rw [ih (by omega) (by omega)]
      constructor
      · intro hall j hj hle
        rcases Nat.eq_or_lt_of_le hj with rfl | hlt
        · exact Or.inl hsome
        · exact (hall j hlt hle).imp_right fun ⟨m, hm, hr⟩ => ⟨m, Nat.le_of_succ_le hm, hr⟩
      · intro hall j hj hle
        refine (hall j (Nat.le_of_succ_le hj) hle).imp_right fun ⟨m, hm, hlt, hat⟩ => ?_
        rcases Nat.eq_or_lt_of_le hm with rfl | hm
        · exact absurd hat hw
        · exact ⟨m, hm, hlt, hat⟩
    cases hs : slice i (byteLen kw) sk with
    | none =>
      refine ⟨fun hno => absurd rfl hno, fun hall => ?_⟩
      rcases hall i (Nat.le_refl _) hi with hsome | ⟨m, hm, hlt, -⟩
      · rw [hs] at hsome
        cases hsome
      · omega
    | some w =>
      simp only [Option.bind_eq_bind, Option.bind_some]
      by_cases hw : w = kw
      swap
      · rw [if_neg hw]
        refine hnext (fun hat => hw ?_) (by rw [hs]; rfl)
        have := slice_of_wordAt hat
        rw [hs] at this
        exact Option.some.inj this
      subst hw
      obtain ⟨before, after, hb, ha, hiff⟩ := wordAt_iff hs
      rw [if_pos rfl, hb, ha]
      simp only [Option.bind_some]
      split
      · next hok =>
        refine ⟨fun _ j hj hle => ?_, fun _ => by simp⟩
        rcases Nat.eq_or_lt_of_le hj with rfl | hlt
        · exact Or.inl (by rw [hs]; rfl)
        · exact Or.inr ⟨i, Nat.le_refl _, hlt, hiff.1 hok⟩
      · next hok => exact hnext (fun hat => hok (hiff.2 hat)) (by rw [hs]; rfl)

/-- `contains_outside_quotes` gets through exactly on the texts that are screenable for the word. -/
theorem containsOutsideQuotes_ne_none {sql upper : List Char}
    (h : 0 < byteLen (upper.map Char.toLower)) : containsOutsideQuotes sql upper ≠ none ↔
      Screenable (upper.map Char.toLower) (skeleton sql) := by
  obtain ⟨s, hs, hsk⟩ := scanSql_eq sql
  rw [containsOutsideQuotes, hs]
  simp only [Option.bind_eq_bind, Option.bind_some, hsk, length_bytesAsChars]
  rw [findWord_ne_none h (Nat.succ_pos _) (by omega)]
  simp [Screenable, isSome_slice]

theorem findForbidden_ne_none {sql : List Char} {fs : List String}
    (h : ∀ f ∈ fs, containsOutsideQuotes sql f.toList ≠ none) : findForbidden sql fs ≠ none := by
  induction fs with
  | nil => simp [findForbidden]
  | cons f fs ih =>
    obtain ⟨found, hf⟩ := Option.ne_none_iff_exists'.1 (h f List.mem_cons_self)
    rw [findForbidden, hf]
    cases found
    · simpa using ih fun g hg => h g (List.mem_cons_of_mem _ hg)
    · simp

/-- `classify_sql` gets through where the search for every forbidden word does. -/
theorem classifySql_ne_none {sql : List Char} {maxSqlLen : Nat}
    (h : ∀ f ∈ forbidden, containsOutsideQuotes sql f.toList ≠ none) :
    classifySql maxSqlLen sql ≠ none := by
  obtain ⟨s, hs, -⟩ := scanSql_eq sql
  obtain ⟨found, hf⟩ := Option.ne_none_iff_exists'.1 (findForbidden_ne_none h)
  unfold classifySql
  rw [hs, hf]
  split_ifs
  · simp
  · simp
  all_goals
    simp only [Option.bind_eq_bind, Option.bind_some]
    split
    · simp
    · cases found <;> simp

/-! ## Blocked tables -/

/-- A pattern is found between two characters. -/
theorem find_eq_some {pat text : List Char} {pos : Nat} (h : find pat text = some pos) :
    ∃ p s, text = p ++ pat ++ s ∧ byteLen p = pos := by
  fun_induction find pat text generalizing pos with
  | case1 hp =>
    cases h
    exact ⟨[], [], by simp [hp], rfl⟩
  | case2 => cases h
  | case3 c cs hp =>
    cases h
    obtain ⟨s, hs⟩ := List.isPrefixOf_iff_prefix.1 hp
    exact ⟨[], s, hs.symm, rfl⟩
  | case4 c cs hp ih =>
    obtain ⟨n, hn, rfl⟩ := Option.map_eq_some_iff.1 h
    obtain ⟨p, s, rfl, rfl⟩ := ih hn
    exact ⟨c :: p, s, rfl, rfl⟩

theorem blockedBehind_ne_none (bp : List (List Char)) {pat : List Char} (hpat : pat ≠ [])
    {fuel : Nat} {rest : List Char} (h : rest.length < fuel) : blockedBehind bp pat fuel rest ≠ none := by
  induction fuel generalizing rest with
  | zero => cases h
  | succ fuel ih =>
    rw [blockedBehind]
    cases hf : find pat rest with
    | none => simp
    | some pos =>
      obtain ⟨p, s, rfl, rfl⟩ := find_eq_some hf
      have hslice : sliceFrom (byteLen p + byteLen pat) (p ++ pat ++ s) = some s := by
        rw [← byteLen_append, sliceFrom_append]
      have hlen : s.length < fuel := by
        have := List.length_pos_iff.2 hpat
        simp at h
        omega
      simp only [hslice, Option.bind_eq_bind, Option.bind_some]
      split
      · simp
      · exact ih hlen

theorem firstBlocked_ne_none {bp : List (List Char)} {s : List Char} {pats : List String}
    (h : ∀ pat ∈ pats, pat.toList ≠ []) : firstBlocked bp s pats ≠ none := by
  induction pats with
  | nil => simp [firstBlocked]
  | cons pat pats ih =>
    obtain ⟨found, hf⟩ := Option.ne_none_iff_exists'.1
      (blockedBehind_ne_none bp (h pat List.mem_cons_self) (Nat.lt_succ_self s.length))
    rw [firstBlocked, hf]
    cases found
    · exact ih fun p hp => h p (List.mem_cons_of_mem _ hp)
    · simp

/-- `blocked_table` gets through on every text. -/
theorem blockedTable_ne_none (bp : List (List Char)) (sql : List Char) : blockedTable bp sql ≠ none := by
  obtain ⟨s, hs, -⟩ := scanSql_eq sql
  rw [blockedTable, hs]
  exact firstBlocked_ne_none (by decide)

/-! ## Panics -/

/-- None of the screening functions panics on a statement. -/
structure NeverPanics (sql : List Char) : Prop where
  scan : scanSql sql ≠ none
  contains : ∀ f ∈ forbidden, containsOutsideQuotes sql f.toList ≠ none
  classify : ∀ maxSqlLen, classifySql maxSqlLen sql ≠ none
  blocked : ∀ env toLowercase, blockedTable (blockPrefixes env toLowercase) sql ≠ none

/-- The screening gets through exactly on the statements that are screenable for each of the forbidden
words. -/
theorem neverPanics_iff (sql : List Char) :
    NeverPanics sql ↔ ∀ f ∈ forbidden, Screenable (f.toList.map Char.toLower) (skeleton sql) := by
  have hk (f : String) (hf : f ∈ forbidden) : 0 < byteLen (f.toList.map Char.toLower) := by
    revert f
    decide
  obtain ⟨s, hs, -⟩ := scanSql_eq sql
  constructor
  · intro h f hf
    exact (containsOutsideQuotes_ne_none (hk f hf)).1 (h.contains f hf)
  · intro h
    have hcon (f : String) (hf : f ∈ forbidden) : containsOutsideQuotes sql f.toList ≠ none :=
      (containsOutsideQuotes_ne_none (hk f hf)).2 (h f hf)
    exact ⟨by simp [hs], hcon, fun _ => classifySql_ne_none hcon, fun _ _ => blockedTable_ne_none _ _⟩

/-- A condition on the value of a column in Chinese, without quotes. -/
def unquoted : List Char := "SELECT * FROM t WHERE a = 你".toList

theorem unquoted_panics : ¬ ∀ sql, NeverPanics sql := fun h =>
  (h unquoted).classify 65536 (by decide)

end Rdsctl.Query
