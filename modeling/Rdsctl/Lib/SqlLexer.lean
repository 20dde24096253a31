import Mathlib.Data.List.Basic

/-!
# How MySQL reads a statement

The lexical rules of a MySQL server under its default modes: quotes with backslash escapes and doubled
quotes, backticks, the three kinds of comments, and the comments that are executed from a version on.
A scanner reads one character after another; `scan` is what it reads in a text.

A text between quotes denotes itself when its backslashes and quotes are escaped (`after_escape`), and
without that exactly when it is plain (`literal_eq_self_iff`).
-/

namespace Rdsctl.Sql

inductive Token where
  /-- A string, by what it denotes. -/
  | str (text : List Char)
  /-- A name in backticks. -/
  | quoted (name : List Char)
  | word (text : List Char)
  | sign (c : Char)
deriving DecidableEq, Repr

/-- Where the scanner is. What it has read so far is kept in reverse. -/
inductive Place where
  | code (word : List Char)
  | str (q : Char) (text : List Char)
  | escaped (q : Char) (text : List Char)
  /-- a quote in a string, which ends it or is doubled -/
  | closing (q : Char) (text : List Char)
  | name (text : List Char)
  | nameClosing (text : List Char)
  | dash
  | dashes
  | line
  | slash
  | opening
  /-- the version of a comment that is executed -/
  | version (digits : List Char)
  | block
  | blockStar
  | codeStar
deriving DecidableEq, Repr

/-- The scanner of a server of this version. -/
structure Scanner where
  server : Nat
  place : Place
  /-- inside a comment that is executed -/
  inside : Bool
deriving DecidableEq, Repr

def isSpace (c : Char) : Bool := c = ' ' || ('\t' ≤ c && c ≤ '\r')

/-- The characters of words. -/
def isWord (c : Char) : Bool := c.isAlphanum || c = '_' || c = '$' || '\x80' ≤ c

/-- What a character after a backslash stands for; before `%` and `_` the backslash stays. -/
def unescape : Char → List Char
  | '0' => ['\x00']
  | 'b' => ['\x08']
  | 'n' => ['\n']
  | 'r' => ['\r']
  | 't' => ['\t']
  | 'Z' => ['\x1a']
  | '%' => ['\\', '%']
  | '_' => ['\\', '_']
  | c => [c]

namespace Scanner

variable (m : Scanner)

/-- At the start of a text. -/
def start (server : Nat) : Scanner := ⟨server, .code [], false⟩

/-- The word that ends here. -/
def wordOf (word : List Char) : List Token := if word = [] then [] else [.word word.reverse]

/-- A character outside strings, names and comments. -/
def code (word : List Char) (c : Char) : Scanner × List Token :=
  if isWord c then ({ m with place := .code (c :: word) }, [])
  else if c = '\'' ∨ c = '"' then ({ m with place := .str c [] }, wordOf word)
  else if c = '`' then ({ m with place := .name [] }, wordOf word)
  else if c = '-' then ({ m with place := .dash }, wordOf word)
  else if c = '#' then ({ m with place := .line }, wordOf word)
  else if c = '/' then ({ m with place := .slash }, wordOf word)
  else if c = '*' ∧ m.inside then ({ m with place := .codeStar }, wordOf word)
  else if isSpace c then ({ m with place := .code [] }, wordOf word)
  else ({ m with place := .code [] }, wordOf word ++ [.sign c])

/-- Code goes on after these tokens. -/
def codeAfter (ts : List Token) (c : Char) : Scanner × List Token :=
  ((m.code [] c).1, ts ++ (m.code [] c).2)

/-- One character. -/
def step (c : Char) : Scanner × List Token :=
  match m.place with
  | .code word => m.code word c
  | .str q text =>
    if c = '\\' then ({ m with place := .escaped q text }, [])
    else if c = q then ({ m with place := .closing q text }, [])
    else ({ m with place := .str q (c :: text) }, [])
  | .escaped q text => ({ m with place := .str q ((unescape c).reverse ++ text) }, [])
  | .closing q text =>
    if c = q then ({ m with place := .str q (q :: text) }, []) else m.codeAfter [.str text.reverse] c
  | .name text =>
    ({ m with place := if c = '`' then .nameClosing text else .name (c :: text) }, [])
  | .nameClosing text =>
    if c = '`' then ({ m with place := .name ('`' :: text) }, [])
    else m.codeAfter [.quoted text.reverse] c
  | .dash => if c = '-' then ({ m with place := .dashes }, []) else m.codeAfter [.sign '-'] c
  | .dashes =>
    if c = '\n' then ({ m with place := .code [] }, [])
    else if c ≤ ' ' ∨ c = '\x7f' then ({ m with place := .line }, [])
    else if c = '-' then (m, [.sign '-'])
    else m.codeAfter [.sign '-', .sign '-'] c
  | .line => ({ m with place := if c = '\n' then .code [] else .line }, [])
  | .slash => if c = '*' then ({ m with place := .opening }, []) else m.codeAfter [.sign '/'] c
  | .opening =>
    ({ m with place := if c = '!' then .version [] else if c = '*' then .blockStar else .block }, [])
  | .version digits =>
    if c.isDigit then
      if digits.length < 4 then ({ m with place := .version (c :: digits) }, [])
      else if Nat.ofDigitChars 10 (c :: digits).reverse 0 ≤ m.server then
        ({ m with place := .code [], inside := true }, [])
      else ({ m with place := .block }, [])
    else { m with inside := true }.code digits c
  | .block => ({ m with place := if c = '*' then .blockStar else .block }, [])
  | .blockStar =>
    ({ m with place := if c = '/' then .code [] else if c = '*' then .blockStar else .block }, [])
  | .codeStar =>
    if c = '/' then ({ m with place := .code [], inside := false }, []) else m.codeAfter [.sign '*'] c

/-- What is read when the text ends; nothing in an open string, name or comment. -/
def stop : Option (List Token) :=
  match m.place, m.inside with
  | .code word, false => some (wordOf word)
  | .closing _ text, false => some [.str text.reverse]
  | .nameClosing text, false => some [.quoted text.reverse]
  | .dash, false => some [.sign '-']
  | .dashes, false | .line, false => some []
  | .slash, false => some [.sign '/']
  | _, _ => none

/-- What is read in a text from here. -/
def scan (m : Scanner) : List Char → Option (List Token)
  | [] => m.stop
  | c :: cs => (scan (m.step c).1 cs).map ((m.step c).2 ++ ·)

/-- Where the scanner is after a text, and what it has read by then. -/
def after (m : Scanner) : List Char → Scanner
  | [] => m
  | c :: cs => after (m.step c).1 cs

def emitted (m : Scanner) : List Char → List Token
  | [] => []
  | c :: cs => (m.step c).2 ++ emitted (m.step c).1 cs

end Scanner

/-- What a server of this version reads in a text. -/
def tokens (server : Nat) (text : List Char) : Option (List Token) := (Scanner.start server).scan text

namespace Scanner

variable {m : Scanner}

theorem scan_append (a b : List Char) :
    m.scan (a ++ b) = ((m.after a).scan b).map (m.emitted a ++ ·) := by
  induction a generalizing m with
  | nil => simp [after, emitted]
  | cons c a ih =>
    simp only [List.cons_append, scan, ih, after, emitted, Option.map_map]
    congr 1
    funext ts
    simp

end Scanner

/-! ## Strings -/

/-- What a text denotes up to the quote that ends it, and what comes after that. -/
@[grind =] def literal : List Char → Option (List Char × List Char)
  | [] => none
  | ['\\'] => none
  | '\\' :: c :: cs => (literal cs).map fun r => (unescape c ++ r.1, r.2)
  | '\'' :: '\'' :: cs => (literal cs).map fun r => ('\'' :: r.1, r.2)
  | '\'' :: cs => some ([], cs)
  | c :: cs => (literal cs).map fun r => (c :: r.1, r.2)

/-- A text in which a backslash stands before each backslash and each quote. -/
def escape (text : List Char) : List Char :=
  text.flatMap fun c => if c = '\\' then ['\\', '\\'] else if c = '\'' then ['\\', '\''] else [c]

/-- No quote, and no backslash that escapes anything. -/
@[grind =] def Plain : List Char → Prop
  | [] => True
  | '\\' :: c :: cs => (c = '%' ∨ c = '_') ∧ Plain cs
  | c :: cs => c ≠ '\\' ∧ c ≠ '\'' ∧ Plain cs

/-- The characters that have to be escaped. -/
def Special (c : Char) : Prop := c = '\\' ∨ c = '\''

/-- What may come after a string: neither a quote nor a backslash. -/
def Ends (rest : List Char) : Prop := ∀ c ∈ rest.head?, ¬Special c

theorem Ends.of_cons {c : Char} {cs : List Char} (h : Ends (c :: cs)) : c ≠ '\\' ∧ c ≠ '\'' :=
  not_or.1 (h c rfl)

theorem literal_cons {c : Char} {cs : List Char} (h : c ≠ '\\') (h' : c ≠ '\'') :
    literal (c :: cs) = (literal cs).map fun r => (c :: r.1, r.2) := by
  rw [literal] <;> simp_all

theorem literal_quote {cs : List Char} (h : Ends cs) : literal ('\'' :: cs) = some ([], cs) := by
  cases cs with
  | nil => rfl
  | cons c cs => rw [literal]; simp_all [h.of_cons.2]

/-- The quote that ends a string is the last one in a row. -/
theorem literal_rest {cs d rest : List Char} (h : literal cs = some (d, rest)) :
    ∀ c ∈ rest.head?, c ≠ '\'' := by
  induction cs using literal.induct generalizing d with
  | case1 | case2 => simp [literal] at h
  | case3 c cs ih | case4 cs ih =>
    simp only [literal, Option.map_eq_some_iff, Prod.mk.injEq] at h
    obtain ⟨⟨d', _⟩, hlit, -, rfl⟩ := h
    exact ih hlit
  | case5 cs hne =>
    rw [literal] at h
    · simp only [Option.some.injEq, Prod.mk.injEq] at h
      obtain ⟨-, rfl⟩ := h
      intro c hc hq
      cases cs with
      | nil => cases hc
      | cons c' cs' => exact hne cs' (by simp_all)
    · exact hne
  | case6 c cs h1 h2 h3 h4 ih =>
    rw [literal] at h
    · simp only [Option.map_eq_some_iff, Prod.mk.injEq] at h
      obtain ⟨⟨d', _⟩, hlit, -, rfl⟩ := h
      exact ih hlit
    all_goals assumption

/-- A character that is escaped stands for one character, or for itself and its backslash. -/
theorem unescape_cases (c : Char) :
    (c = '%' ∨ c = '_') ∧ unescape c = ['\\', c] ∨
      ∃ d, unescape c = [d] ∧ (Special d → Special c) := by
  unfold unescape
  split
  case h_7 => exact .inl ⟨.inl rfl, rfl⟩
  case h_8 => exact .inl ⟨.inr rfl, rfl⟩
  case h_9 => exact .inr ⟨_, rfl, id⟩
  all_goals exact .inr ⟨_, rfl, fun h => absurd h (by unfold Special; decide)⟩

/-- Where no character comes that has to be escaped, the string does not go on with one. -/
theorem literal_head {rest d r : List Char} (h : Ends rest) (hlit : literal rest = some (d, r)) :
    ∃ c cs, d = c :: cs ∧ ¬Special c := by
  cases rest with
  | nil => simp [literal] at hlit
  | cons c rest =>
    rw [literal_cons h.of_cons.1 h.of_cons.2, Option.map_eq_some_iff] at hlit
    obtain ⟨⟨d', _⟩, -, hd⟩ := hlit
    obtain ⟨rfl, rfl⟩ := Prod.mk.inj hd
    exact ⟨c, d', rfl, h c rfl⟩

/-- An ordinary character denotes itself. -/
theorem literal_ordinary {b c : Char} {cs ds r : List Char} (hb : Special b) (hc : ¬Special c) :
    literal (c :: cs) ≠ some (b :: ds, r) := by
  rw [literal_cons (fun h => hc (.inl h)) (fun h => hc (.inr h))]
  intro h
  obtain ⟨⟨d, _⟩, -, hd⟩ := Option.map_eq_some_iff.1 h
  exact hc ((List.cons.inj (Prod.mk.inj hd).1).1 ▸ hb)

/-- A string that has fallen behind the text it was to denote does not catch up: what it still has to
denote takes two characters each, and these have to be denoted as well. -/
theorem literal_behind {rest r : List Char} (hrest : Ends rest) (behind : List Char)
    (hne : behind ≠ []) (hs : ∀ c ∈ behind, Special c) : (w : List Char) →
    literal (w ++ '\'' :: rest) ≠ some (behind ++ w, r)
  | [] => by
    rw [List.nil_append, literal_quote hrest, List.append_nil]
    intro h
    exact hne (Prod.mk.inj (Option.some.inj h)).1.symm
  | [c] => by
    intro h
    obtain ⟨b, behind, rfl⟩ := List.exists_cons_of_ne_nil hne
    have hb : Special b := hs b List.mem_cons_self
    rw [List.singleton_append, List.cons_append] at h
    by_cases hc : Special c
    · -- the quote that was to end the string is the second character of a pair
      have hpair : ∃ d, literal rest = some (d, r) ∧ '\'' :: d = b :: (behind ++ [c]) := by
        rcases hc with rfl | rfl <;>
        · simp only [literal, unescape, Option.map_eq_some_iff, Prod.mk.injEq] at h
          obtain ⟨⟨d, _⟩, hlit, hd, rfl⟩ := h
          exact ⟨d, hlit, hd⟩
      obtain ⟨d, hlit, hd⟩ := hpair
      obtain ⟨x, xs, rfl, hx⟩ := literal_head hrest hlit
      have hmem : x ∈ behind ++ [c] := by
        rw [← (List.cons.inj hd).2]
        exact List.mem_cons_self
      rcases List.mem_append.1 hmem with hmem | hmem
      · exact hx (hs x (List.mem_cons_of_mem _ hmem))
      · exact hx (List.mem_singleton.1 hmem ▸ hc)
    · exact literal_ordinary hb hc h
  | c :: c' :: w => by
    intro h
    obtain ⟨b, behind, rfl⟩ := List.exists_cons_of_ne_nil hne
    have hb : Special b := hs b List.mem_cons_self
    have hb' : ∀ c ∈ behind, Special c := fun c hc => hs c (List.mem_cons_of_mem _ hc)
    rw [List.cons_append, List.cons_append, List.cons_append] at h
    by_cases hc : Special c
    · -- a pair denotes one of the characters that it has fallen behind with, and leaves two
      have hpair : Special c' ∧ ∃ d, literal (w ++ '\'' :: rest) = some (d, r) ∧
          d = behind ++ c :: c' :: w := by
        rcases hc with rfl | rfl
        · simp only [literal, Option.map_eq_some_iff, Prod.mk.injEq] at h
          obtain ⟨⟨d, _⟩, hlit, hd, rfl⟩ := h
          rcases unescape_cases c' with ⟨hc', he⟩ | ⟨x, he, hx⟩
          · -- the backslash stays, and what comes after it has to be denoted too
            rw [he] at hd
            have hd := (List.cons.inj hd).2
            have hord : ¬Special c' := by rcases hc' with rfl | rfl <;> (unfold Special; decide)
            cases behind with
            | nil => rcases hc' with rfl | rfl <;> cases (List.cons.inj hd).1
            | cons b' behind => exact absurd ((List.cons.inj hd).1 ▸ hb' b' List.mem_cons_self) hord
          · rw [he, List.singleton_append] at hd
            obtain ⟨rfl, htail⟩ := List.cons.inj hd
            exact ⟨hx hb, d, hlit, htail⟩
        · by_cases hc' : c' = '\''
          · subst hc'
            simp only [literal, Option.map_eq_some_iff, Prod.mk.injEq] at h
            obtain ⟨⟨d, _⟩, hlit, hd, rfl⟩ := h
            exact ⟨.inr rfl, d, hlit, (List.cons.inj hd).2⟩
          · rw [literal] at h
            · cases h
            · rintro cs hcs
              exact hc' (List.cons.inj hcs).1
      obtain ⟨hc', d, hlit, rfl⟩ := hpair
      refine literal_behind hrest (behind ++ [c, c']) (by simp) ?_ w (by simpa using hlit)
      intro x hx
      rcases List.mem_append.1 hx with hx | hx
      · exact hb' x hx
      · rcases List.mem_cons.1 hx with rfl | hx
        · exact hc
        · exact List.mem_singleton.1 hx ▸ hc'
    · exact literal_ordinary hb hc h

theorem plain_cons {c : Char} {cs : List Char} (hc : ¬Special c) : Plain (c :: cs) ↔ Plain cs := by
  have hc' := not_or.1 hc
  rw [Plain]
  · simp [hc'.1, hc'.2]
  · rintro c' cs' hcs
    exact absurd hcs hc'.1

theorem plain_of_forall {text : List Char} (h : ∀ c ∈ text, ¬Special c) : Plain text := by
  induction text with
  | nil => trivial
  | cons c cs ih =>
    exact (plain_cons (h c List.mem_cons_self)).2 (ih fun d hd => h d (List.mem_cons_of_mem _ hd))

theorem plain_quote (cs : List Char) : ¬Plain ('\'' :: cs) := by simp [Plain]

/-- A text between quotes denotes itself when it is plain, and only then. -/
theorem literal_eq_self_iff {rest r : List Char} (hrest : Ends rest) : (text : List Char) →
    (literal (text ++ '\'' :: rest) = some (text, r) ↔ Plain text ∧ r = rest)
  | [] => by simp [literal_quote hrest, Plain, eq_comm]
  | [c] => by
    rw [List.singleton_append]
    by_cases hc : Special c
    · refine iff_of_false ?_ (by rcases hc with rfl | rfl <;> simp [Plain])
      intro h
      rcases hc with rfl | rfl <;>
        simp only [literal, unescape, Option.map_eq_some_iff, Prod.mk.injEq] at h <;>
        obtain ⟨⟨d, _⟩, hlit, hd, -⟩ := h
      · cases (List.cons.inj hd).1
      · obtain ⟨x, xs, rfl, -⟩ := literal_head hrest hlit
        cases hd
    · have hc' := not_or.1 hc
      rw [literal_cons hc'.1 hc'.2, literal_quote hrest, plain_cons hc]
      simp [Plain, eq_comm]
  | c :: c' :: w => by
    rw [List.cons_append, List.cons_append]
    by_cases hc : Special c
    · rcases hc with rfl | rfl
      · simp only [literal, Plain, Option.map_eq_some_iff, Prod.mk.injEq]
        rcases unescape_cases c' with ⟨hc', he⟩ | ⟨x, he, hx⟩
        · rw [he, and_iff_right hc', ← literal_eq_self_iff hrest w]
          refine ⟨?_, fun hlit => ⟨(w, r), hlit, rfl, rfl⟩⟩
          rintro ⟨⟨d, _⟩, hlit, hd, rfl⟩
          obtain rfl : d = w := (List.cons.inj (List.cons.inj hd).2).2
          exact hlit
        · rw [he]
          refine iff_of_false ?_ ?_
          · rintro ⟨⟨d, _⟩, hlit, hd, rfl⟩
            rw [List.singleton_append] at hd
            obtain ⟨rfl, rfl⟩ := List.cons.inj hd
            refine literal_behind hrest [c'] (by simp) ?_ w hlit
            simpa using hx (.inl rfl)
          · rintro ⟨⟨rfl | rfl, -⟩, -⟩ <;> cases he
      · refine iff_of_false ?_ fun h => plain_quote _ h.1
        intro h
        by_cases hc' : c' = '\''
        · subst hc'
          simp only [literal, Option.map_eq_some_iff, Prod.mk.injEq] at h
          obtain ⟨⟨d, _⟩, hlit, hd, rfl⟩ := h
          obtain rfl : d = _ := (List.cons.inj hd).2
          exact literal_behind hrest ['\''] (by simp) (by simp [Special]) w hlit
        · rw [literal] at h
          · cases h
          · rintro cs hcs
            exact hc' (List.cons.inj hcs).1
    · have hc' := not_or.1 hc
      rw [plain_cons hc, ← literal_eq_self_iff hrest (c' :: w), literal_cons hc'.1 hc'.2]
      simp only [Option.map_eq_some_iff, Prod.mk.injEq, List.cons.injEq, true_and]
      refine ⟨?_, fun hlit => ⟨(c' :: w, r), hlit, rfl, rfl⟩⟩
      rintro ⟨⟨d, _⟩, hlit, rfl, rfl⟩
      exact hlit

namespace Scanner

variable {v : Nat} {b : Bool} {text : List Char}

theorem scan_cons {m m' : Scanner} {c : Char} {ts : List Token} (h : m.step c = (m', ts))
    (cs : List Char) : m.scan (c :: cs) = (m'.scan cs).map (ts ++ ·) := by
  rw [scan, h]

theorem scan_quiet {m m' : Scanner} {c : Char} (h : m.step c = (m', [])) (cs : List Char) :
    m.scan (c :: cs) = m'.scan cs := by
  simp [scan_cons h]

theorem step_str {c : Char} (hc : ¬Special c) :
    (⟨v, .str '\'' text, b⟩ : Scanner).step c = (⟨v, .str '\'' (c :: text), b⟩, []) := by
  have hc' := not_or.1 hc
  simp [step, hc'.1, hc'.2]

theorem step_str_quote :
    (⟨v, .str '\'' text, b⟩ : Scanner).step '\'' = (⟨v, .closing '\'' text, b⟩, []) := rfl

theorem step_str_backslash :
    (⟨v, .str '\'' text, b⟩ : Scanner).step '\\' = (⟨v, .escaped '\'' text, b⟩, []) := rfl

theorem step_escaped (c : Char) : (⟨v, .escaped '\'' text, b⟩ : Scanner).step c =
    (⟨v, .str '\'' ((unescape c).reverse ++ text), b⟩, []) := rfl

theorem step_closing_quote :
    (⟨v, .closing '\'' text, b⟩ : Scanner).step '\'' = (⟨v, .str '\'' ('\'' :: text), b⟩, []) := rfl

theorem step_closing {c : Char} (hc : c ≠ '\'') : (⟨v, .closing '\'' text, b⟩ : Scanner).step c =
    (⟨v, .closing '\'' text, b⟩ : Scanner).codeAfter [.str text.reverse] c := by
  simp [step, hc]

/-- A string is read up to the quote that ends it. -/
theorem scan_str (cs : List Char) : (⟨v, .str '\'' text, b⟩ : Scanner).scan cs =
    (literal cs).bind fun r => (⟨v, .closing '\'' (r.1.reverse ++ text), b⟩ : Scanner).scan r.2 := by
  induction cs using literal.induct generalizing text with
  | case1 => rfl
  | case2 => rfl
  | case3 c cs ih =>
    rw [scan_quiet step_str_backslash, scan_quiet (step_escaped c), ih, literal]
    simp [Option.bind_map, Function.comp_def]
  | case4 cs ih =>
    rw [scan_quiet step_str_quote, scan_quiet step_closing_quote, ih, literal]
    simp [Option.bind_map, Function.comp_def]
  | case5 cs hne =>
    rw [scan_quiet step_str_quote, literal]
    · rfl
    · exact hne
  | case6 c cs h1 h2 h3 h4 ih =>
    have hc : ¬Special c := by
      rintro (rfl | rfl)
      · cases cs with
        | nil => exact h1 rfl rfl
        | cons c cs => exact h2 c cs rfl rfl
      · exact h4 rfl
    have hc' := not_or.1 hc
    rw [scan_quiet (step_str hc), ih, literal_cons hc'.1 hc'.2]
    simp [Option.bind_map, Function.comp_def]

/-- After the quote that ends a string the code goes on. -/
theorem scan_closing {cs : List Char} (hcs : ∀ c ∈ cs.head?, c ≠ '\'') :
    (⟨v, .closing '\'' text, false⟩ : Scanner).scan cs =
      ((⟨v, .code [], false⟩ : Scanner).scan cs).map (.str text.reverse :: ·) := by
  cases cs with
  | nil => rfl
  | cons c cs =>
    rw [scan, scan, step_closing (hcs c rfl), Option.map_map]
    have hcode : (⟨v, .closing '\'' text, false⟩ : Scanner).code [] c =
        (⟨v, .code [], false⟩ : Scanner).code [] c := rfl
    simp only [codeAfter, step, hcode]
    rfl

/-- What is escaped is read as itself. -/
theorem after_escape (s : List Char) : (⟨v, .str '\'' text, b⟩ : Scanner).after (escape s) =
      ⟨v, .str '\'' (s.reverse ++ text), b⟩ ∧
    (⟨v, .str '\'' text, b⟩ : Scanner).emitted (escape s) = [] := by
  induction s generalizing text with
  | nil => exact ⟨rfl, rfl⟩
  | cons c s ih =>
    have hcons : escape (c :: s) =
        (if c = '\\' then ['\\', '\\'] else if c = '\'' then ['\\', '\''] else [c]) ++ escape s :=
      List.flatMap_cons
    rw [hcons]
    by_cases hc : Special c
    · rcases hc with rfl | rfl <;>
        simpa [after, emitted, step, unescape] using ih
    · have hc' := not_or.1 hc
      rw [if_neg hc'.1, if_neg hc'.2]
      simpa [after, emitted, step_str hc] using ih

end Scanner

end Rdsctl.Sql
