import Mathlib.Data.List.Basic

/-!
# Text in lines

The operations on text that read the output of a command: trimming, cutting into lines and cutting a
line at a character. `lines_trim` reads back lines that were printed one after the other, provided
that no line holds a line end and none begins or ends with a blank.
-/

namespace Rdsctl.Lines

/-- The property `White_Space` of Unicode. -/
def isWhitespace (c : Char) : Bool :=
  let n := c.toNat
  (9 ≤ n && n ≤ 13) || n = 32 || n = 0x85 || n = 0xA0 || n = 0x1680 || (0x2000 ≤ n && n ≤ 0x200A) ||
    n = 0x2028 || n = 0x2029 || n = 0x202F || n = 0x205F || n = 0x3000

/-- A text without the blanks around it. -/
def trim (cs : List Char) : List Char :=
  ((cs.dropWhile isWhitespace).reverse.dropWhile isWhitespace).reverse

/-- A line that ended in a newline, without a carriage return in front of it. -/
def chomp (line : List Char) : List Char :=
  if line.getLast? = some '\r' then line.dropLast else line

/-- Cut into lines; `line` is the part of the present one, reversed. The last line need not end in a
newline. -/
def linesFrom (line : List Char) : List Char → List (List Char)
  | [] => if line.isEmpty then [] else [line.reverse]
  | c :: cs => if c = '\n' then chomp line.reverse :: linesFrom [] cs else linesFrom (c :: line) cs

def lines (cs : List Char) : List (List Char) := linesFrom [] cs

/-- Cut at the first occurrence of a character. -/
def splitOnce (at' : Char) : List Char → Option (List Char × List Char)
  | [] => none
  | c :: cs =>
    if c = at' then some ([], cs) else (splitOnce at' cs).map fun (a, b) => (c :: a, b)

/-- Lines, each with its end. -/
def print (ls : List (List Char)) : List Char := ls.flatMap (· ++ ['\n'])

/-- A line that is kept by trimming and has no end within. -/
structure Clean (line : List Char) : Prop where
  noEnd : '\n' ∉ line
  starts : ∃ c cs, line = c :: cs ∧ isWhitespace c = false
  ends : ∃ cs c, line = cs ++ [c] ∧ isWhitespace c = false

section

variable {line : List Char} {ls : List (List Char)}

theorem Clean.chomp (h : Clean line) : chomp line = line := by
  obtain ⟨cs, c, rfl, hc⟩ := h.ends
  have hne : c ≠ '\r' := by
    rintro rfl
    cases hc
  simp [Lines.chomp, hne]

theorem linesFrom_append (h : '\n' ∉ line) (acc rest : List Char) :
    linesFrom acc (line ++ rest) = linesFrom (line.reverse ++ acc) rest := by
  induction line generalizing acc with
  | nil => rfl
  | cons c cs ih =>
    obtain ⟨hc, hcs⟩ := not_or.1 (mt List.mem_cons.2 h)
    rw [List.cons_append, linesFrom, if_neg (Ne.symm hc), ih hcs]
    simp

theorem lines_newline (h : Clean line) (rest : List Char) :
    lines (line ++ '\n' :: rest) = line :: lines rest := by
  rw [lines, linesFrom_append h.noEnd, linesFrom, if_pos rfl]
  simp [h.chomp, lines]

theorem lines_last (h : Clean line) : lines line = [line] := by
  have happ := linesFrom_append h.noEnd [] []
  obtain ⟨c, cs, rfl, -⟩ := h.starts
  rw [List.append_nil, List.append_nil] at happ
  rw [lines, happ]
  simp [linesFrom]

theorem lines_print_append (h : ∀ l ∈ ls, Clean l) (hline : Clean line) :
    lines (print ls ++ line) = ls ++ [line] := by
  induction ls with
  | nil => exact lines_last hline
  | cons l ls ih =>
    have hcut : print (l :: ls) ++ line = l ++ '\n' :: (print ls ++ line) := by
      simp [print]
    rw [hcut, lines_newline (h l List.mem_cons_self), ih fun x hx => h x (List.mem_cons_of_mem l hx)]
    rfl

theorem trim_newline {cs : List Char} (hstart : ∃ c ds, cs = c :: ds ∧ isWhitespace c = false)
    (hend : ∃ ds c, cs = ds ++ [c] ∧ isWhitespace c = false) : trim (cs ++ ['\n']) = cs := by
  obtain ⟨c, ds, rfl, hc⟩ := hstart
  have hdrop : (c :: ds ++ ['\n']).dropWhile isWhitespace = c :: ds ++ ['\n'] := by
    rw [List.cons_append, List.dropWhile_cons_of_neg (by simp [hc])]
  obtain ⟨es, d, heq, hd⟩ := hend
  rw [trim, hdrop, heq, List.reverse_append, List.reverse_append, List.reverse_singleton,
    List.reverse_singleton, List.singleton_append, List.dropWhile_cons_of_pos (by decide),
    List.singleton_append, List.dropWhile_cons_of_neg (by simp [hd]), List.reverse_cons,
    List.reverse_reverse]

/-- Lines that were printed are read back. -/
theorem lines_trim (h : ∀ l ∈ ls, Clean l) : lines (trim (print ls)) = ls := by
  rcases ls.eq_nil_or_concat with rfl | ⟨init, last, rfl⟩
  · rfl
  · have hlast := h last (by simp)
    have hprint : print (init ++ [last]) = print init ++ last ++ ['\n'] := by
      simp [print]
    obtain ⟨es, d, rfl, hd⟩ := hlast.ends
    rw [List.concat_eq_append] at h ⊢
    rw [hprint, trim_newline ?_ ⟨print init ++ es, d, by simp, hd⟩]
    · exact lines_print_append (fun l hl => h l (by simp [hl])) hlast
    · cases init with
      | nil => exact hlast.starts
      | cons l init =>
        obtain ⟨c, cs, rfl, hc⟩ := (h l (by simp)).starts
        exact ⟨c, _, rfl, hc⟩

theorem splitOnce_append {at' : Char} {a : List Char} (h : at' ∉ a) (b : List Char) :
    splitOnce at' (a ++ at' :: b) = some (a, b) := by
  induction a with
  | nil => rw [List.nil_append, splitOnce, if_pos rfl]
  | cons c cs ih =>
    obtain ⟨hc, hcs⟩ := not_or.1 (mt List.mem_cons.2 h)
    rw [List.cons_append, splitOnce, if_neg (Ne.symm hc), ih hcs]
    rfl

end

end Rdsctl.Lines
