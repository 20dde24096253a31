import Mathlib.Data.List.Infix

/-!
# Words of shell commands

How a POSIX shell cuts a text into words and takes the quotes off: quoting with backslashes, single and
double quotes, blanks between words. `words` is `none` where the text is more than the words of one
simple command that stand for themselves: operators, line ends, comments, expansions, patterns and
quotes that are not closed.

Words with a blank behind each are read back exactly when each of them is bare (`after_join_iff`), and a
single-quoted text behind them is read back whatever it is (`words_join_quote_iff`).
-/

namespace Rdsctl.Shell

/-- Where the shell is in a word. -/
inductive Place
  | bare
  | single
  | escape
  | double
  | doubleEscape
deriving DecidableEq, Repr

/-- The words that are complete, the one that has begun, and the place. -/
structure Lexer where
  words : List (List Char) := []
  cur : Option (List Char) := none
  place : Place := .bare
deriving DecidableEq, Repr

/-- Characters that an unquoted word does not keep: operators, line ends, expansions, patterns. -/
def active (c : Char) : Bool := c ∈ [';', '&', '|', '<', '>', '(', ')', '\n', '$', '`', '*', '?', '[']

/-- A comment or a tilde expansion, at the start of a word. -/
def leading (c : Char) : Bool := c = '#' || c = '~'

namespace Lexer

/-- A character that is kept. -/
def push (m : Lexer) (c : Char) : Lexer := { m with cur := some (m.cur.getD [] ++ [c]) }

/-- A blank, which ends a word that has begun. -/
def blank (m : Lexer) : Lexer :=
  match m.cur with
  | none => m
  | some w => { m with words := m.words ++ [w], cur := none }

/-- A quote or a backslash, which begins a word. -/
def enter (m : Lexer) (place : Place) : Lexer :=
  { m with cur := some (m.cur.getD []), place := place }

def goto (m : Lexer) (place : Place) : Lexer := { m with place := place }

/-- One character. -/
def step (m : Lexer) (c : Char) : Option Lexer :=
  if c = '\x00' then none
  else match m.place with
    | .bare =>
      if c = ' ' ∨ c = '\t' then some m.blank
      else if c = '\'' then some (m.enter .single)
      else if c = '"' then some (m.enter .double)
      else if c = '\\' then some (m.goto .escape)
      else if active c ∨ m.cur = none ∧ leading c then none
      else some (m.push c)
    | .single => if c = '\'' then some (m.goto .bare) else some (m.push c)
    | .escape => if c = '\n' then some (m.goto .bare) else some ((m.push c).goto .bare)
    | .double =>
      if c = '"' then some (m.goto .bare)
      else if c = '\\' then some (m.goto .doubleEscape)
      else if c = '$' ∨ c = '`' then none
      else some (m.push c)
    | .doubleEscape =>
      if c = '\n' then some (m.goto .double)
      else if c ∈ ['$', '`', '"', '\\'] then some ((m.push c).goto .double)
      else some (((m.push '\\').push c).goto .double)

/-- A text. -/
def after (m : Lexer) : List Char → Option Lexer
  | [] => some m
  | c :: cs => (m.step c).bind fun m' => after m' cs

/-- The end of the text. -/
def stop (m : Lexer) : Option (List (List Char)) :=
  if m.place = .bare then some (m.words ++ m.cur.toList) else none

end Lexer

/-- The words of a text. -/
def words (text : List Char) : Option (List (List Char)) := (Lexer.after {} text).bind Lexer.stop

/-- A quote in a text closes, stands escaped, and opens again. -/
def escapeQuotes (text : List Char) : List Char :=
  text.flatMap fun c => if c = '\'' then ['\'', '\\', '\'', '\''] else [c]

/-- A single-quoted text. -/
def quote (text : List Char) : List Char := '\'' :: escapeQuotes text ++ ['\'']

/-- Words with a blank behind each. -/
def join (ws : List (List Char)) : List Char := ws.flatMap (· ++ [' '])

/-- A character that an unquoted word keeps. -/
def plain (c : Char) : Bool := !active c && c ∉ ['\x00', ' ', '\t', '\'', '"', '\\']

/-- A word that stands for itself without quotes. -/
def Bare (w : List Char) : Prop :=
  (∀ c ∈ w, plain c = true) ∧ ∃ c cs, w = c :: cs ∧ leading c = false

/-! ## Steps -/

namespace Lexer

variable {m m' : Lexer} {c : Char} {a b : List Char}

theorem after_append (a b : List Char) : m.after (a ++ b) = (m.after a).bind (·.after b) := by
  induction a generalizing m with
  | nil => rfl
  | cons c a ih => simp only [List.cons_append, after, Option.bind_assoc, ih]

theorem after_concat (a : List Char) (c : Char) : m.after (a ++ [c]) = (m.after a).bind (·.step c) := by
  rw [after_append]
  refine Option.bind_congr fun m' _ => ?_
  simp only [after]
  cases m'.step c <;> rfl

theorem plain_spec (h : plain c = true) : active c = false ∧ c ≠ '\x00' ∧ c ≠ ' ' ∧ c ≠ '\t' ∧ c ≠ '\'' ∧
    c ≠ '"' ∧ c ≠ '\\' := by
  simpa [plain] using h

/-- An unquoted character is kept when it is plain, and does not lead a word that it must not lead. -/
theorem step_bare (hp : m.place = .bare) (h : plain c = true) (hl : m.cur = none → leading c = false) :
    m.step c = some (m.push c) := by
  obtain ⟨ha, h0, hs, ht, hq, hd, hb⟩ := plain_spec h
  rw [step, if_neg h0, hp]
  dsimp only
  rw [if_neg (by simp [hs, ht]), if_neg hq, if_neg hd, if_neg hb, if_neg]
  rintro (hact | ⟨hcur, hlead⟩)
  · rw [ha] at hact
    cases hact
  · rw [hl hcur] at hlead
    cases hlead

theorem step_blank (hp : m.place = .bare) : m.step ' ' = some m.blank := by
  rw [step, hp]
  rfl

/-- Between single quotes every character but the quote is kept. -/
theorem step_single (hp : m.place = .single) (h0 : c ≠ '\x00') (hq : c ≠ '\'') :
    m.step c = some (m.push c) := by
  rw [step, if_neg h0, hp]
  exact if_neg hq

/-- A word that has begun goes on with plain characters. -/
theorem after_plain {us : List (List Char)} {w x : List Char} (h : ∀ c ∈ x, plain c = true) :
    (⟨us, some w, .bare⟩ : Lexer).after x = some ⟨us, some (w ++ x), .bare⟩ := by
  induction x generalizing w with
  | nil => simp [after]
  | cons c x ih =>
    rw [after, step_bare rfl (h c List.mem_cons_self) (by simp)]
    have hx := ih (w := w ++ [c]) fun d hd => h d (List.mem_cons_of_mem _ hd)
    simpa [push] using hx

/-- A bare word and a blank are a word. -/
theorem after_bare {us : List (List Char)} {w : List Char} (h : Bare w) (rest : List Char) :
    (⟨us, none, .bare⟩ : Lexer).after (w ++ ' ' :: rest) =
      (⟨us ++ [w], none, .bare⟩ : Lexer).after rest := by
  obtain ⟨hplain, c, cs, rfl, hlead⟩ := h
  rw [List.cons_append, after, step_bare rfl (hplain c List.mem_cons_self) fun _ => hlead]
  simp only [Option.bind_some, push, Option.getD_none, List.nil_append]
  rw [after_append, after_plain fun d hd => hplain d (List.mem_cons_of_mem _ hd)]
  rw [Option.bind_some, after, step_blank rfl]
  rfl

theorem after_join (us : List (List Char)) {ws : List (List Char)} (h : ∀ w ∈ ws, Bare w) :
    (⟨us, none, .bare⟩ : Lexer).after (join ws) = some ⟨us ++ ws, none, .bare⟩ := by
  induction ws generalizing us with
  | nil => simp [join, after]
  | cons w ws ih =>
    have hjoin : join (w :: ws) = w ++ ' ' :: join ws := by simp [join]
    rw [hjoin, after_bare (h w List.mem_cons_self), ih _ fun x hx => h x (List.mem_cons_of_mem _ hx)]
    simp

/-- A quoted text goes on from inside the quotes. -/
theorem after_single {us : List (List Char)} {w text : List Char} (h : '\x00' ∉ text) :
    (⟨us, some w, .single⟩ : Lexer).after (escapeQuotes text) =
      some ⟨us, some (w ++ text), .single⟩ := by
  unfold escapeQuotes
  induction text generalizing w with
  | nil => simp [after]
  | cons c text ih =>
    rw [List.mem_cons, not_or] at h
    rw [List.flatMap_cons, after_append]
    rcases eq_or_ne c '\'' with rfl | hc
    · rw [if_pos rfl]
      have hsteps : (⟨us, some w, .single⟩ : Lexer).after ['\'', '\\', '\'', '\''] =
          some ⟨us, some (w ++ ['\'']), .single⟩ := by
        simp [after, step, goto, enter, push]
      rw [hsteps, Option.bind_some, ih h.2]
      simp
    · rw [if_neg hc, after, step_single rfl (Ne.symm h.1) hc]
      simp only [Option.bind_some, after, push, Option.getD_some]
      rw [ih h.2]
      simp

/-! ## Nothing is taken off bare words

`weight` counts the kept characters and the complete words. No character adds more than one to it, and
the text of words with a blank behind each has as many characters as the words weigh. So there every
character is kept or ends a word, and none begins a quote. -/

/-- Kept characters and complete words; a backslash between double quotes may yet be kept. -/
def weight (m : Lexer) : Nat :=
  m.words.flatten.length + m.words.length + (m.cur.getD []).length +
    if m.place = .doubleEscape then 1 else 0

theorem step_weight (h : m.step c = some m') : m'.weight ≤ m.weight + 1 := by
  unfold step at h
  split at h
  · cases h
  split at h
  · next hp =>
    split_ifs at h
    all_goals cases h
    · unfold blank
      split
      · exact Nat.le_succ _
      · next w hw => simp [weight, hp, hw]; omega
    all_goals simp [weight, enter, goto, push, hp]
    omega
  · next hp =>
    split_ifs at h
    all_goals
      cases h
      simp [weight, goto, push, hp]
    omega
  · next hp =>
    split_ifs at h
    all_goals
      cases h
      simp [weight, goto, push, hp]
    omega
  · next hp =>
    split_ifs at h
    all_goals
      cases h
      simp [weight, goto, push, hp]
    omega
  · next hp =>
    split_ifs at h
    all_goals
      cases h
      simp [weight, goto, push, hp]
      omega

theorem after_weight (h : m.after a = some m') : m'.weight ≤ m.weight + a.length := by
  induction a generalizing m with
  | nil =>
    cases h
    exact Nat.le_refl _
  | cons c a ih =>
    obtain ⟨m₁, h₁, h₂⟩ := Option.bind_eq_some_iff.1 h
    have := step_weight h₁
    have := ih h₂
    rw [List.length_cons]
    omega

/-- Complete words stay. -/
theorem step_words (h : m.step c = some m') : m.words <+: m'.words := by
  unfold step at h
  split at h
  · cases h
  split at h
  all_goals
    split_ifs at h
    all_goals cases h
    all_goals try exact List.prefix_refl _
  unfold blank
  split
  · exact List.prefix_refl _
  · exact List.prefix_append _ _

theorem after_words (h : m.after a = some m') : m.words <+: m'.words := by
  induction a generalizing m with
  | nil =>
    cases h
    exact List.prefix_refl _
  | cons c a ih =>
    obtain ⟨m₁, h₁, h₂⟩ := Option.bind_eq_some_iff.1 h
    exact (step_words h₁).trans (ih h₂)

/-- A character in an unquoted place that adds to the weight is kept or ends a word. -/
theorem exact_step (hp : m.place = .bare) (h : m.step c = some m') (hw : m.weight < m'.weight) :
    (plain c = true ∧ (m.cur = none → leading c = false) ∧ m' = m.push c) ∨
      ∃ w, m.cur = some w ∧ m' = ⟨m.words ++ [w], none, .bare⟩ := by
  unfold step at h
  split at h
  · cases h
  next h0 =>
  rw [hp] at h
  dsimp only at h
  split_ifs at h with hb hq hd hs hact
  all_goals cases h
  · refine Or.inr ?_
    cases hcur : m.cur with
    | none => simp [blank, hcur] at hw
    | some w => exact ⟨w, rfl, by simp [blank, hcur, hp]⟩
  · simp [weight, enter, hp] at hw
  · simp [weight, enter, hp] at hw
  · simp [weight, goto, hp] at hw
  · obtain ⟨ha, hl⟩ := not_or.1 hact
    obtain ⟨hsp, ht⟩ := not_or.1 hb
    refine Or.inl ⟨?_, fun hcur => ?_, rfl⟩
    · simp [plain, h0, hsp, ht, hq, hd, hs, Bool.eq_false_iff.2 ha]
    · exact Bool.eq_false_iff.2 fun hlead => hl ⟨hcur, hlead⟩

/-- The rest of a word and a blank, when nothing is taken off. -/
theorem exact_word {us : List (List Char)} (vs : List (List Char)) (acc : List Char) {x rest : List Char}
    (h : (⟨us, some acc, .bare⟩ : Lexer).after (x ++ ' ' :: rest) = some m')
    (hw : m'.words = us ++ (acc ++ x) :: vs)
    (hx : m'.weight = (⟨us, some acc, .bare⟩ : Lexer).weight + (x ++ ' ' :: rest).length) :
    (∀ c ∈ x, plain c = true) ∧ (⟨us ++ [acc ++ x], none, .bare⟩ : Lexer).after rest = some m' := by
  induction x generalizing acc with
  | nil =>
    rw [List.nil_append, after, step_blank rfl] at h
    exact ⟨by simp, by simpa [blank] using h⟩
  | cons c x ih =>
    rw [List.cons_append, after] at h
    obtain ⟨m₁, h₁, h₂⟩ := Option.bind_eq_some_iff.1 h
    have hle := after_weight h₂
    rw [List.cons_append, List.length_cons] at hx
    rcases exact_step rfl h₁ (by omega) with ⟨hc, -, rfl⟩ | ⟨w, hcur, rfl⟩
    · obtain ⟨hplain, hrest⟩ := ih (acc ++ [c]) h₂ (by simpa using hw) (by
        simp only [weight, Option.getD_some, List.length_append, List.length_cons,
          List.length_nil] at hx ⊢
        omega)
      refine ⟨fun d hd => ?_, by simpa using hrest⟩
      rcases List.mem_cons.1 hd with rfl | hd
      · exact hc
      · exact hplain d hd
    · -- the word would end before its last character
      cases hcur
      obtain ⟨tl, htl⟩ := after_words h₂
      rw [hw, List.append_assoc, List.append_cancel_left_eq] at htl
      have hlen := congrArg List.length (List.cons_eq_cons.1 htl).1
      simp at hlen

/-- Words with a blank behind each that are read back are bare. -/
theorem bare_of_after_join (us : List (List Char)) {ws : List (List Char)}
    (h : (⟨us, none, .bare⟩ : Lexer).after (join ws) = some ⟨us ++ ws, none, .bare⟩) :
    ∀ w ∈ ws, Bare w := by
  induction ws generalizing us with
  | nil => simp
  | cons w ws ih =>
    have hjoin : join (w :: ws) = w ++ ' ' :: join ws := by simp [join]
    have hlen : (join ws).length = ws.flatten.length + ws.length := by
      simp only [join, List.length_flatMap, List.length_append, List.length_flatten]
      clear ih h hjoin
      induction ws with
      | nil => rfl
      | cons v ws ih =>
        simp only [List.map_cons, List.sum_cons, List.length_cons, List.length_nil] at ih ⊢
        omega
    rw [hjoin] at h
    have hx : (⟨us ++ w :: ws, none, .bare⟩ : Lexer).weight =
        (⟨us, none, .bare⟩ : Lexer).weight + (w ++ ' ' :: join ws).length := by
      simp [weight, hlen]
      omega
    rcases w with _ | ⟨c, x⟩
    · -- a blank that ends no word adds nothing
      rw [List.nil_append, after, step_blank rfl, Option.bind_some] at h
      have hb : (⟨us, none, .bare⟩ : Lexer).blank = ⟨us, none, .bare⟩ := rfl
      have hle := after_weight h
      rw [hx, hb, List.nil_append, List.length_cons] at hle
      omega
    · rw [List.cons_append, after] at h
      obtain ⟨m₁, h₁, h₂⟩ := Option.bind_eq_some_iff.1 h
      have hle := after_weight h₂
      rw [List.cons_append, List.length_cons] at hx
      rcases exact_step rfl h₁ (by omega) with ⟨hc, hlead, rfl⟩ | ⟨v, hcur, -⟩
      · obtain ⟨hplain, hrest⟩ := exact_word ws [c] h₂ (by simp) (by
          simp only [weight, Option.getD_none, Option.getD_some, List.length_nil,
            List.length_singleton] at hx ⊢
          omega)
        intro v hv
        rcases List.mem_cons.1 hv with rfl | hv
        · refine ⟨fun d hd => ?_, c, x, rfl, hlead rfl⟩
          rcases List.mem_cons.1 hd with rfl | hd
          · exact hc
          · exact hplain d hd
        · exact ih (us ++ [c :: x]) (by simpa using hrest) v hv
      · cases hcur

/-- Words with a blank behind each are read back exactly when they are bare. -/
theorem after_join_iff {ws : List (List Char)} :
    Lexer.after {} (join ws) = some ⟨ws, none, .bare⟩ ↔ ∀ w ∈ ws, Bare w :=
  ⟨fun h => bare_of_after_join [] h, fun h => by simpa using after_join [] h⟩

/-! ## Behind the words

What is read of the quoted text decides, from its end to its start, where the shell was in it. -/

theorem step_single_inv (h : m.step c = some m') (hp : m'.place = .single) :
    (m.place = .single ∧ c ≠ '\'' ∧ m' = m.push c) ∨
      (m.place = .bare ∧ c = '\'' ∧ m' = m.enter .single) := by
  unfold step at h
  split at h
  · cases h
  split at h
  case h_1 hb =>
    split_ifs at h
    all_goals cases h
    · unfold blank at hp
      split at hp
      all_goals simp [hb] at hp
    · exact Or.inr ⟨hb, by assumption, rfl⟩
    all_goals simp_all [enter, goto, push]
  case h_2 hs =>
    split_ifs at h
    all_goals cases h
    · simp [goto] at hp
    · exact Or.inl ⟨hs, by assumption, rfl⟩
  all_goals
    split_ifs at h
    all_goals
      cases h
      simp_all [goto, push]

/-- A quote after which the shell is outside of quotes closes them, or stands behind a backslash. -/
theorem step_quote_inv (h : m.step '\'' = some m') (hp : m'.place = .bare) :
    (m.place = .single ∧ m' = m.goto .bare) ∨
      (m.place = .escape ∧ m' = (m.push '\'').goto .bare) := by
  unfold step at h
  rw [if_neg (by decide)] at h
  split at h
  all_goals simp_all [enter, goto, push]
  all_goals (subst h; simp_all)

theorem step_escape_inv (h : m.step c = some m') (hp : m'.place = .escape) :
    c = '\\' ∧ m.place = .bare ∧ m' = m.goto .escape := by
  unfold step at h
  split at h
  · cases h
  split at h
  case h_1 hb =>
    split_ifs at h
    all_goals cases h
    · unfold blank at hp
      split at hp
      all_goals simp [hb] at hp
    all_goals simp_all [enter, goto, push]
  all_goals
    split_ifs at h
    all_goals
      cases h
      simp_all [goto, push]

section Behind

variable {start : Lexer} {p x : List Char} {ws : List (List Char)}

theorem escapeQuotes_concat (x : List Char) (c : Char) : escapeQuotes (x ++ [c]) =
    escapeQuotes x ++ if c = '\'' then ['\'', '\\', '\'', '\''] else [c] := by
  simp [escapeQuotes]

/-- Behind a backslash of the quoted text the text has a backslash at its end. -/
theorem getLast?_of_escape (h : start.after (p ++ '\'' :: escapeQuotes x) = some m)
    (hp : m.place = .escape) : x.getLast? = some '\\' := by
  rcases x.eq_nil_or_concat' with rfl | ⟨y, c, rfl⟩
  · have hstep : (start.after p).bind (·.step '\'') = some m := by
      rw [← after_concat]
      exact h
    obtain ⟨m₁, -, h₁⟩ := Option.bind_eq_some_iff.1 hstep
    exact absurd (step_escape_inv h₁ hp).1 (by decide)
  · rw [escapeQuotes_concat] at h
    split at h
    · have hsplit : p ++ '\'' :: (escapeQuotes y ++ ['\'', '\\', '\'', '\'']) =
          (p ++ '\'' :: (escapeQuotes y ++ ['\'', '\\', '\''])) ++ ['\''] := by simp
      rw [hsplit, after_concat] at h
      obtain ⟨m₁, -, h₁⟩ := Option.bind_eq_some_iff.1 h
      exact absurd (step_escape_inv h₁ hp).1 (by decide)
    · have hsplit : p ++ '\'' :: (escapeQuotes y ++ [c]) = (p ++ '\'' :: escapeQuotes y) ++ [c] := by
        simp
      rw [hsplit, after_concat] at h
      obtain ⟨m₁, -, h₁⟩ := Option.bind_eq_some_iff.1 h
      rw [(step_escape_inv h₁ hp).1]
      simp

/-- After a text the shell is inside single quotes, with these words and this one begun. -/
def Inside (o : Option Lexer) (ws : List (List Char)) (x : List Char) : Prop :=
  ∃ w, o = some ⟨ws, w, .single⟩ ∧ w.getD [] = x

/-- One character of the quoted text back, the shell was inside the quotes too. -/
theorem back_one {c : Char} (h : Inside (start.after (p ++ '\'' :: escapeQuotes (x ++ [c]))) ws (x ++ [c])) :
    Inside (start.after (p ++ '\'' :: escapeQuotes x)) ws x := by
  obtain ⟨w', h, hw'⟩ := h
  rw [escapeQuotes_concat, ← List.cons_append, ← List.append_assoc, after_append] at h
  obtain ⟨⟨us, w, place⟩, hm, hsteps⟩ := Option.bind_eq_some_iff.1 h
  rw [hm]
  split at hsteps
  · next hc =>
    subst hc
    simp only [after] at hsteps
    obtain ⟨m₁, h₁, hsteps⟩ := Option.bind_eq_some_iff.1 hsteps
    obtain ⟨m₂, h₂, hsteps⟩ := Option.bind_eq_some_iff.1 hsteps
    obtain ⟨m₃, h₃, hsteps⟩ := Option.bind_eq_some_iff.1 hsteps
    obtain ⟨m₄, h₄, hsteps⟩ := Option.bind_eq_some_iff.1 hsteps
    cases hsteps
    -- the last quote opens, so the one before it is a character of the text
    obtain ⟨-, hne, -⟩ | ⟨hb₃, -, he₄⟩ := step_single_inv h₄ rfl
    · exact absurd rfl hne
    obtain ⟨hw, hcur, -⟩ := Lexer.mk.inj he₄
    have hx : m₃.cur.getD [] = x ++ ['\''] := by
      rw [hcur] at hw'
      exact hw'
    obtain ⟨hs₂, rfl⟩ | ⟨he₂, rfl⟩ := step_quote_inv h₃ hb₃
    · -- inside quotes the backslash would be kept
      obtain ⟨-, -, rfl⟩ | ⟨-, hno, -⟩ := step_single_inv h₂ hs₂
      · have hlast := (List.append_inj' (show m₁.cur.getD [] ++ ['\\'] = x ++ ['\''] from hx) rfl).2
        exact absurd hlast (by decide)
      · exact absurd hno (by decide)
    obtain ⟨-, hb₁, rfl⟩ := step_escape_inv h₂ he₂
    have hx₁ : m₁.cur.getD [] = x :=
      (List.append_inj' (show m₁.cur.getD [] ++ ['\''] = x ++ ['\''] from hx) rfl).1
    obtain ⟨hs, rfl⟩ | ⟨he, rfl⟩ := step_quote_inv h₁ hb₁
    · exact ⟨w, by rw [show place = .single from hs, show us = ws from hw.symm], hx₁⟩
    · -- the quote would stand behind a backslash of the text and be kept
      have hlast := getLast?_of_escape hm he
      rw [← hx₁] at hlast
      simp [goto, push] at hlast
  · next hc =>
    simp only [after] at hsteps
    obtain ⟨m₁, h₁, hsteps⟩ := Option.bind_eq_some_iff.1 hsteps
    cases hsteps
    obtain ⟨hs, -, heq⟩ | ⟨-, hq, -⟩ := step_single_inv h₁ rfl
    · obtain ⟨hw, hcur, -⟩ := Lexer.mk.inj heq
      rw [hcur] at hw'
      refine ⟨w, by rw [show place = .single from hs, show us = ws from hw.symm], ?_⟩
      exact (List.append_inj' (show w.getD [] ++ [c] = x ++ [c] from hw') rfl).1
    · exact absurd hq hc

/-- All the way back, the shell was inside the quotes where they start. -/
theorem back_all {y : List Char} (h : Inside (start.after (p ++ '\'' :: escapeQuotes (x ++ y))) ws (x ++ y)) :
    Inside (start.after (p ++ '\'' :: escapeQuotes x)) ws x := by
  induction y using List.reverseRecOn with
  | nil => simpa using h
  | append_singleton y c ih =>
    rw [← List.append_assoc] at h
    exact ih (back_one h)

/-- A word has begun where the shell is inside single quotes. -/
theorem cur_ne_none (h : start.after (p ++ '\'' :: x) = some m) (hp : m.place = .single) :
    m.cur ≠ none := by
  obtain ⟨y, c, hy⟩ : ∃ y c, p ++ '\'' :: x = y ++ [c] :=
    (List.eq_nil_or_concat' _).resolve_left (by simp)
  rw [hy, after_concat] at h
  obtain ⟨m₁, -, hstep⟩ := Option.bind_eq_some_iff.1 h
  obtain ⟨-, -, rfl⟩ | ⟨-, -, rfl⟩ := step_single_inv hstep hp
  · exact Option.some_ne_none _
  · exact Option.some_ne_none _

/-- When the quoted text is the last word that is read, the other words are read in front of it. -/
theorem inside_of_quote {text : List Char}
    (h : (start.after (p ++ quote text)).bind stop = some (ws ++ [text])) :
    Inside (start.after (p ++ ['\''])) ws [] := by
  obtain ⟨m, hm, hstop⟩ := Option.bind_eq_some_iff.1 h
  unfold stop at hstop
  split at hstop
  swap
  · cases hstop
  next hp =>
  rw [quote, ← List.append_assoc, after_concat] at hm
  obtain ⟨m₁, hm₁, hstep⟩ := Option.bind_eq_some_iff.1 hm
  refine back_all (x := []) (y := text) ?_
  obtain ⟨hs, rfl⟩ | ⟨he, rfl⟩ := step_quote_inv hstep hp
  · obtain ⟨w, hw⟩ := Option.ne_none_iff_exists'.1 (cur_ne_none hm₁ hs)
    obtain ⟨hws, htext⟩ := List.append_inj'
      (show m₁.words ++ [w] = ws ++ [text] by simpa [goto, hw] using hstop) rfl
    refine ⟨some w, ?_, List.singleton_inj.1 htext⟩
    rw [List.nil_append, hm₁, ← hws, ← hw, ← hs]
  · -- the last quote would stand behind a backslash of the text and be kept
    obtain ⟨-, htext⟩ := List.append_inj'
      (show m₁.words ++ [m₁.cur.getD [] ++ ['\'']] = ws ++ [text] by simpa [goto, push] using hstop) rfl
    have hlast := getLast?_of_escape hm₁ he
    rw [← List.singleton_inj.1 htext] at hlast
    simp at hlast

end Behind

/-- A blank outside of quotes ends the word, or stands behind a backslash and is kept. -/
theorem step_space_inv (h : m.step ' ' = some m') (hp : m'.place = .bare) :
    m'.cur = none ∨ m'.cur.getD [] ≠ [] := by
  unfold step at h
  rw [if_neg (by decide)] at h
  split at h
  · cases h
    unfold blank
    split
    · next hcur => exact Or.inl hcur
    · exact Or.inl rfl
  all_goals simp_all [goto, push]
  all_goals (subst h; simp_all)

end Lexer

/-- A quoted text behind words with a blank behind each is read, with the words, exactly when they are
bare. -/
theorem words_join_quote_iff {ws : List (List Char)} {text : List Char} (h : '\x00' ∉ text) :
    words (join ws ++ quote text) = some (ws ++ [text]) ↔ ∀ w ∈ ws, Bare w := by
  constructor
  · intro hwords
    obtain ⟨w, hw, hempty⟩ := Lexer.inside_of_quote hwords
    rw [Lexer.after_concat] at hw
    obtain ⟨m, hm, hstep⟩ := Option.bind_eq_some_iff.1 hw
    obtain ⟨-, hno, -⟩ | ⟨hb, -, heq⟩ := Lexer.step_single_inv hstep rfl
    · exact absurd rfl hno
    obtain ⟨hws, hcur, -⟩ := Lexer.mk.inj heq
    have hnil : m.cur.getD [] = [] := by
      rw [hcur] at hempty
      exact hempty
    have hnone : m.cur = none := by
      rcases ws.eq_nil_or_concat' with rfl | ⟨init, v, rfl⟩
      · cases hm
        rfl
      · have hjoin : join (init ++ [v]) = join init ++ v ++ [' '] := by simp [join]
        rw [hjoin, Lexer.after_concat] at hm
        obtain ⟨m₁, -, hstep'⟩ := Option.bind_eq_some_iff.1 hm
        exact (Lexer.step_space_inv hstep' hb).resolve_right fun hne => hne hnil
    refine Lexer.after_join_iff.1 ?_
    rw [hm, hws, ← hnone, ← hb]
  · intro hbare
    rw [words, quote, Lexer.after_append, Lexer.after_join_iff.2 hbare, Option.bind_some,
      Lexer.after_concat, Lexer.after]
    have henter : (⟨ws, none, .bare⟩ : Lexer).step '\'' = some ⟨ws, some [], .single⟩ := rfl
    rw [henter, Option.bind_some, Lexer.after_single h]
    simp [Lexer.step, Lexer.goto, Lexer.stop]

end Rdsctl.Shell
