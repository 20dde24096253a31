import Rdsctl.Ha.Basic
import Rdsctl.Lib.Delimiter
import Rdsctl.Lib.Utf8

/-!
# Reading text

What the kernel uses of `str`: trimming, splitting, numbers, and slices by bytes. A `str` is a list
of characters.
-/

namespace Rdsctl.Ha

open Utf8 Delimiter

/-- `str::trim`, as characters. -/
def trim (cs : List Char) : List Char :=
  ((cs.dropWhile isWhiteSpace).reverse.dropWhile isWhiteSpace).reverse

/-- The digits of an unsigned integer, without the optional `+`. -/
def stripPlus : List Char → List Char
  | '+' :: c :: rest => c :: rest
  | cs => cs

/-- The number that digits spell, when there are some and it is below a bound. -/
def readDigits (bound : Nat) (digits : List Char) : Option Nat :=
  if digits = [] ∨ digits.all Char.isDigit = false then none
  else if Nat.ofDigitChars 10 digits 0 < bound then some (Nat.ofDigitChars 10 digits 0)
  else none

/-- `str::parse` of an unsigned integer below a bound. -/
def parseUInt (bound : Nat) (cs : List Char) : Option Nat := readDigits bound (stripPlus cs)

/-- The pieces between white space. -/
def splitWhitespace (cs : List Char) : List (List Char) :=
  (cs.splitOnP isWhiteSpace).filter (· ≠ [])

/-- The pieces between line breaks. -/
def splitCrlf : List Char → List (List Char)
  | [] => [[]]
  | '\r' :: '\n' :: cs => [] :: splitCrlf cs
  | c :: cs =>
    match splitCrlf cs with
    | line :: lines => (c :: line) :: lines
    | [] => [[c]]

/-- The text up to the first empty line, with it. -/
def findHead : List Char → Option (List Char)
  | '\r' :: '\n' :: '\r' :: '\n' :: _ => some ['\r', '\n', '\r', '\n']
  | c :: cs => (findHead cs).map (c :: ·)
  | [] => none

/-- `cs[i..]`, which panics inside a character and behind the end. -/
def sliceFrom : Nat → List Char → Option (List Char)
  | 0, cs => some cs
  | _ + 1, [] => none
  | i + 1, c :: cs => if c.utf8Size ≤ i + 1 then sliceFrom (i + 1 - c.utf8Size) cs else none

/-- A digit is no white space, no colon and no plus sign. -/
theorem isDigit_spec {c : Char} (h : c.isDigit = true) :
    isWhiteSpace c = false ∧ c ≠ ':' ∧ c ≠ '+' := by
  have hb : 48 ≤ c.toNat ∧ c.toNat ≤ 57 := by
    simpa [Char.isDigit, UInt32.le_iff_toNat_le] using h
  refine ⟨?_, ?_, ?_⟩
  · unfold isWhiteSpace
    simp
    omega
  · rintro rfl
    exact absurd hb.2 (by decide)
  · rintro rfl
    exact absurd hb.1 (by decide)

theorem isDigit_of_mem {n : Nat} {c : Char} (h : c ∈ Nat.toDigits 10 n) : c.isDigit = true :=
  Nat.isDigit_of_mem_toDigits (by decide) (by decide) h

/-- What is parsed is below the bound. -/
theorem parseUInt_lt {bound n : Nat} {cs : List Char} (h : parseUInt bound cs = some n) :
    n < bound := by
  unfold parseUInt readDigits at h
  split at h
  · cases h
  · split at h
    · next hlt =>
      cases h
      exact hlt
    · cases h

/-- A number is read back from its digits. -/
theorem parseUInt_toDigits {n bound : Nat} (h : n < bound) :
    parseUInt bound (Nat.toDigits 10 n) = some n := by
  have hplus : stripPlus (Nat.toDigits 10 n) = Nat.toDigits 10 n := by
    unfold stripPlus
    split
    · next c rest heq =>
      have hd : ('+' : Char).isDigit = true :=
        isDigit_of_mem (n := n) (by rw [heq]; exact List.mem_cons_self)
      exact absurd rfl (isDigit_spec hd).2.2
    · rfl
  have hall : (Nat.toDigits 10 n).all Char.isDigit = true :=
    List.all_eq_true.2 fun c => isDigit_of_mem
  simp [parseUInt, hplus, readDigits, hall, Nat.toDigits_ne_nil, Nat.ofDigitChars_ten_toDigits, h]

/-- Trimming takes off white space at the end, and nothing from text without white space. -/
theorem trim_append {cs ws : List Char} (h : ∀ c ∈ cs, isWhiteSpace c = false)
    (hw : ∀ c ∈ ws, isWhiteSpace c = true) : trim (cs ++ ws) = cs := by
  have hstop : ∀ l : List Char, (∀ c ∈ l, isWhiteSpace c = false) → l.dropWhile isWhiteSpace = l := by
    intro l hl
    cases l with
    | nil => rfl
    | cons c l => rw [List.dropWhile_cons_of_neg (by simp [hl c List.mem_cons_self])]
  have hrev : (cs ++ ws).reverse.dropWhile isWhiteSpace = cs.reverse := by
    rw [List.reverse_append, List.dropWhile_append_of_pos fun c hc => hw c (List.mem_reverse.1 hc),
      hstop _ fun c hc => h c (List.mem_reverse.1 hc)]
  cases cs with
  | nil =>
    have hall : (ws ++ []).dropWhile isWhiteSpace = [] := List.dropWhile_append_of_pos hw
    rw [List.append_nil] at hall
    rw [trim, List.nil_append, hall]
    rfl
  | cons c l =>
    have hfront : (c :: l ++ ws).dropWhile isWhiteSpace = c :: l ++ ws :=
      List.dropWhile_cons_of_neg (by simp [h c List.mem_cons_self])
    rw [trim, hfront, hrev, List.reverse_reverse]

/-- White space in front is trimmed off. -/
theorem trim_cons {c : Char} (hc : isWhiteSpace c = true) (cs : List Char) :
    trim (c :: cs) = trim cs := by
  rw [trim, trim, List.dropWhile_cons_of_pos hc]

/-- A line and its break are split off. -/
theorem splitCrlf_append {line : List Char} (h : '\r' ∉ line) (cs : List Char) :
    splitCrlf (line ++ '\r' :: '\n' :: cs) = line :: splitCrlf cs := by
  induction line with
  | nil => rw [List.nil_append, splitCrlf]
  | cons c line ih =>
    simp only [List.mem_cons, not_or] at h
    rw [List.cons_append, splitCrlf, ih h.2]
    exact fun _ hc => absurd hc.symm h.1

theorem findHead_cons {c : Char} (h : '\r' ≠ c) (cs : List Char) :
    findHead (c :: cs) = (findHead cs).map (c :: ·) := by
  rw [findHead]
  exact fun _ hc => absurd hc.symm h

theorem findHead_append {line : List Char} (h : '\r' ∉ line) (cs : List Char) :
    findHead (line ++ cs) = (findHead cs).map (line ++ ·) := by
  induction line with
  | nil => simp
  | cons c line ih =>
    simp only [List.mem_cons, not_or] at h
    rw [List.cons_append, findHead_cons h.1, ih h.2, Option.map_map]
    rfl

/-- Lines, each with its break, and an empty one. -/
def headOfLines (lines : List (List Char)) : List Char :=
  lines.flatMap (· ++ ['\r', '\n']) ++ ['\r', '\n']

@[simp] theorem headOfLines_cons (line : List Char) (lines : List (List Char)) :
    headOfLines (line :: lines) = line ++ '\r' :: '\n' :: headOfLines lines := by
  simp [headOfLines]

theorem splitCrlf_headOfLines {lines : List (List Char)} (h : ∀ l ∈ lines, '\r' ∉ l) :
    splitCrlf (headOfLines lines) = lines ++ [[], []] := by
  induction lines with
  | nil => rfl
  | cons line lines ih =>
    rw [headOfLines_cons, splitCrlf_append (h line List.mem_cons_self),
      ih fun l hl => h l (List.mem_cons_of_mem _ hl), List.cons_append]

/-- The head of a text ends with its first empty line. -/
theorem findHead_headOfLines {lines : List (List Char)} (hne : lines ≠ [])
    (h : ∀ l ∈ lines, l ≠ [] ∧ '\r' ∉ l) (cs : List Char) :
    findHead (headOfLines lines ++ cs) = some (headOfLines lines) := by
  induction lines with
  | nil => exact absurd rfl hne
  | cons line lines ih =>
    rw [headOfLines_cons, List.append_assoc, findHead_append (h line List.mem_cons_self).2]
    rcases lines with _ | ⟨next, lines⟩
    · simp [headOfLines, findHead]
    · -- the next line is not empty, so this break does not end the head
      obtain ⟨c, l, hnext⟩ := List.exists_cons_of_ne_nil (h next (by simp)).1
      have hc : '\r' ≠ c := by
        have hno := (h next (by simp)).2
        rw [hnext, List.mem_cons, not_or] at hno
        exact hno.1
      have hih := ih (by simp) fun l hl => h l (List.mem_cons_of_mem _ hl)
      have hbreak : findHead ('\r' :: '\n' :: (headOfLines (next :: lines) ++ cs)) =
          (findHead (headOfLines (next :: lines) ++ cs)).map ('\r' :: '\n' :: ·) := by
        rw [headOfLines_cons, hnext]
        simp only [List.cons_append]
        rw [findHead, findHead_cons (by decide), Option.map_map]
        · rfl
        · intro cs' _ heq
          simp only [List.cons.injEq] at heq
          exact hc heq.2.1.symm
      rw [List.cons_append, List.cons_append, hbreak, hih]
      rfl

/-- A slice that starts behind a text. -/
theorem sliceFrom_append (cs ds : List Char) : sliceFrom (byteLen cs) (cs ++ ds) = some ds := by
  induction cs with
  | nil => cases ds <;> rfl
  | cons c cs ih =>
    have hpos := c.utf8Size_pos
    obtain ⟨i, hi⟩ : ∃ i, byteLen (c :: cs) = i + 1 := Nat.exists_eq_add_one.2 (by simp; omega)
    rw [hi, List.cons_append, sliceFrom, ← hi, byteLen_cons, if_pos (Nat.le_add_right _ _),
      Nat.add_sub_cancel_left, ih]

/-- A slice starts at a boundary. -/
theorem sliceFrom_eq_some {i : Nat} {text tail : List Char} :
    sliceFrom i text = some tail ↔ ∃ p, text = p ++ tail ∧ byteLen p = i := by
  constructor
  · intro h
    fun_induction sliceFrom i text with
    | case1 cs => exact ⟨[], by simpa using h, rfl⟩
    | case2 => cases h
    | case3 i c cs hle ih =>
      obtain ⟨p, rfl, hp⟩ := ih h
      exact ⟨c :: p, rfl, by rw [byteLen_cons]; omega⟩
    | case4 => cases h
  · rintro ⟨p, rfl, rfl⟩
    exact sliceFrom_append p tail

/-- Boundaries split a text at the same places. -/
theorem append_inj_byteLen {p q s t : List Char} (h : p ++ s = q ++ t) (hl : byteLen p ≤ byteLen q) :
    ∃ w, q = p ++ w ∧ s = w ++ t := by
  rcases List.append_eq_append_iff.1 h with ⟨w, rfl, rfl⟩ | ⟨w, rfl, rfl⟩
  · exact ⟨w, rfl, rfl⟩
  · rcases w with _ | ⟨c, w⟩
    · exact ⟨[], by simp, by simp⟩
    · have hpos := c.utf8Size_pos
      simp at hl
      omega

/-! ## The empty line -/

/-- The end of a head. -/
def emptyLine : List Char := ['\r', '\n', '\r', '\n']

/-- The head of a text ends with its first empty line. -/
theorem findHead_eq_some {text head : List Char} :
    findHead text = some head ↔ ∃ u, First emptyLine u text ∧ head = u ++ emptyLine := by
  induction text generalizing head with
  | nil =>
    refine ⟨nofun, ?_⟩
    rintro ⟨u, hu, -⟩
    have hlen := hu.length_le
    simp [emptyLine] at hlen
  | cons c text ih =>
    by_cases hpre : emptyLine <+: c :: text
    · obtain ⟨rest, hrest⟩ := hpre
      rw [← hrest]
      have hfirst : First emptyLine [] (emptyLine ++ rest) := First.of_prefix (List.prefix_append _ _)
      constructor
      · intro h
        cases h
        exact ⟨[], hfirst, rfl⟩
      · rintro ⟨u, hu, rfl⟩
        rw [hu.unique hfirst]
        rfl
    · have hstep : findHead (c :: text) = (findHead text).map (c :: ·) := by
        rw [findHead]
        rintro rest rfl rfl
        exact hpre (List.prefix_append emptyLine rest)
      rw [hstep]
      constructor
      · intro h
        obtain ⟨tail, htail, rfl⟩ := Option.map_eq_some_iff.1 h
        obtain ⟨u, hu, rfl⟩ := ih.1 htail
        exact ⟨c :: u, (First.cons_iff hpre).2 hu, rfl⟩
      · rintro ⟨u, hu, rfl⟩
        obtain ⟨v, rfl, hv⟩ := hu.cons_inv hpre
        exact Option.map_eq_some_iff.2 ⟨_, ih.2 ⟨v, hv, rfl⟩, rfl⟩

theorem findHead_eq_none {text : List Char} : findHead text = none ↔ ∀ u, ¬First emptyLine u text := by
  rw [Option.eq_none_iff_forall_ne_some]
  constructor
  · exact fun h u hu => h _ (findHead_eq_some.2 ⟨u, hu, rfl⟩)
  · rintro h head hhead
    obtain ⟨u, hu, -⟩ := findHead_eq_some.1 hhead
    exact h u hu

end Rdsctl.Ha
