import Rdsctl.Lib.SqlLexer

/-!
# Statements that are put together from a template

A template is a text with holes; numbers stand in its holes, and texts stand in those between quotes,
escaped or as they are. `Carries.readAs_iff`: a server reads the statement as its template, with each
text in its place, exactly when the texts that were not escaped are plain.
-/

namespace Rdsctl.Sql

/-- A number as it is written out, or `NULL`. -/
structure Numeral where
  negative : Bool
  digits : List Char
  some_digit : digits ≠ []
  all_digits : ∀ c ∈ digits, isWord c ∨ c = '.'

def Numeral.text (n : Numeral) : List Char := if n.negative then '-' :: n.digits else n.digits

inductive Item where
  | char (c : Char)
  | num (n : Numeral)
  | esc (text : List Char)
  | raw (text : List Char)

def Item.text : Item → List Char
  | .char c => [c]
  | .num n => n.text
  | .esc text => escape text
  | .raw text => text

/-- A template whose holes are filled one after another. -/
def fill : List Char → List Item → List Item
  | '\x7b' :: '\x7d' :: t, a :: args => a :: fill t args
  | c :: t, args => .char c :: fill t args
  | [], _ => []

/-- The text that the server gets. -/
def render (st : List Item) : List Char := st.flatMap Item.text

/-- A text as data, in the string where it stands. -/
def Scanner.hold (m : Scanner) (text : List Char) : Option Scanner :=
  match m.place with
  | .str q sofar => some { m with place := .str q (text.reverse ++ sofar) }
  | _ => none

/-- What the template says, with each text as data; nothing when a text stands outside strings. -/
def Scanner.reads (m : Scanner) : List Item → Option (List Token)
  | [] => m.stop
  | .char c :: st => ((m.step c).1.reads st).map ((m.step c).2 ++ ·)
  | .num n :: st => ((m.after n.text).reads st).map (m.emitted n.text ++ ·)
  | .esc text :: st | .raw text :: st =>
    match m.hold text with
    | some m' => m'.reads st
    | none => none

/-- A server reads the statement as its template, in which the texts are strings. -/
def ReadAs (server : Nat) (st : List Item) : Prop :=
  ((Scanner.start server).reads st).isSome ∧
    tokens server (render st) = (Scanner.start server).reads st

/-! ## Templates -/

/-- The characters after which code is still code. -/
def inCode (c : Char) : Bool := !(['\'', '"', '`', '-', '#', '/', '\\'].contains c)

/-- What may stand after a string. -/
def startsCode : List Item → Bool
  | [] => true
  | .char c :: _ => c != '\'' && c != '\\'
  | .num _ :: _ => true
  | _ => false

/-- Where a template is: outside quotes, in a string, in a name in backticks, or behind one. -/
inductive Part where
  | code
  | string
  | name
  | afterName

/-- Texts stand between quotes, those that are not escaped alone, and numbers outside; the template
has no comments and no other strings. -/
def check : Part → List Item → Bool
  | .code, [] => true
  | .code, .char c :: st =>
    if c = '\'' then check .string st else if c = '`' then check .name st
    else inCode c && check .code st
  | .code, .num _ :: st => check .code st
  | .string, .char c :: st =>
    if c = '\'' then startsCode st && check .code st else c != '\\' && check .string st
  | .string, .esc _ :: st => check .string st
  | .string, .raw _ :: .char '\'' :: st => startsCode st && check .code st
  | .name, .char c :: st => if c = '`' then check .afterName st else check .name st
  | .afterName, .char c :: st => inCode c && check .code st
  | _, _ => false

/-- A statement, or a part of one. -/
def Sound (st : List Item) : Prop := startsCode st && check .code st

/-! ## How a template is read -/

section

variable {v : Nat} {m : Scanner} {t : List Char} {st : List Item}

theorem Numeral.text_starts (n : Numeral) : ∃ c cs, n.text = c :: cs ∧ ¬Special c := by
  have hord : ∀ c, isWord c ∨ c = '.' → ¬Special c := by
    rintro c hc (rfl | rfl) <;> revert hc <;> decide
  unfold text
  split
  · exact ⟨'-', n.digits, rfl, by unfold Special; decide⟩
  · obtain ⟨c, cs, hcs⟩ := List.exists_cons_of_ne_nil n.some_digit
    exact ⟨c, cs, hcs, hord c (n.all_digits c (hcs ▸ List.mem_cons_self))⟩

theorem ends_of_startsCode (h : startsCode st) : Ends (render st) := by
  intro c hc
  match st with
  | [] => cases hc
  | .char d :: st =>
    obtain rfl : d = c := by simpa [render, Item.text] using hc
    rintro (rfl | rfl) <;> cases h
  | .num n :: st =>
    obtain ⟨d, ds, hd, hs⟩ := n.text_starts
    obtain rfl : d = c := by simpa [render, Item.text, hd] using hc
    exact hs

namespace Scanner

/-- Code that goes on after a string. -/
theorem after_closing {c : Char} (hc : c ≠ '\'') (cs : List Char) :
    (⟨v, .closing '\'' t, false⟩ : Scanner).after (c :: cs) =
        (⟨v, .code [], false⟩ : Scanner).after (c :: cs) ∧
      (⟨v, .closing '\'' t, false⟩ : Scanner).emitted (c :: cs) =
        .str t.reverse :: (⟨v, .code [], false⟩ : Scanner).emitted (c :: cs) := by
  simp only [after, emitted, step_closing hc]
  exact ⟨rfl, rfl⟩

theorem step_nameClosing {c : Char} (hc : c ≠ '`') : (⟨v, .nameClosing t, false⟩ : Scanner).step c =
    (⟨v, .nameClosing t, false⟩ : Scanner).codeAfter [.quoted t.reverse] c := by
  simp [step, hc]

theorem reads_closing (h : startsCode st) : (⟨v, .closing '\'' t, false⟩ : Scanner).reads st =
    ((⟨v, .code [], false⟩ : Scanner).reads st).map (.str t.reverse :: ·) := by
  match st with
  | [] => rfl
  | .char c :: st =>
    have hc : c ≠ '\'' := by
      rintro rfl
      cases h
    rw [reads, reads, step_closing hc, Option.map_map]
    rfl
  | .num n :: st =>
    obtain ⟨c, cs, hcs, hs⟩ := n.text_starts
    obtain ⟨ha, he⟩ := after_closing (v := v) (t := t) (not_or.1 hs).2 cs
    rw [reads, reads, hcs, ha, he, Option.map_map]
    rfl

end Scanner

/-- The template says something here, and it is what the server reads when the texts are plain. -/
structure Reads (m : Scanner) (st : List Item) : Prop where
  total : (m.reads st).isSome
  iff : m.scan (render st) = m.reads st ↔ ∀ text, Item.raw text ∈ st → Plain text

namespace Reads

theorem nil (h : m.stop.isSome) : Reads m [] := ⟨h, by simp [render, Scanner.scan, Scanner.reads]⟩

/-- A text that is the same in the template. -/
theorem run {a : Item} (h : Reads (m.after a.text) st) (ha : ∀ text, a ≠ .raw text)
    (hr : m.reads (a :: st) = ((m.after a.text).reads st).map (m.emitted a.text ++ ·)) :
    Reads m (a :: st) := by
  have hrender : render (a :: st) = a.text ++ render st := List.flatMap_cons
  refine ⟨by rw [hr, Option.isSome_map]; exact h.total, ?_⟩
  have hinj : Function.Injective (m.emitted a.text ++ ·) := List.append_right_injective _
  rw [hrender, Scanner.scan_append, hr, (Option.map_injective hinj).eq_iff, h.iff]
  refine forall_congr' fun text => ?_
  rw [List.mem_cons, or_iff_right fun hr => ha text hr.symm]

theorem char {c : Char} (h : Reads (m.step c).1 st) : Reads m (.char c :: st) :=
  run h (by simp) (by simp [Scanner.reads, Item.text, Scanner.emitted, Scanner.after])

theorem num {n : Numeral} (h : Reads (m.after n.text) st) : Reads m (.num n :: st) :=
  run h (by simp) rfl

theorem esc {text : List Char} (h : Reads ⟨v, .str '\'' (text.reverse ++ t), false⟩ st) :
    Reads ⟨v, .str '\'' t, false⟩ (.esc text :: st) := by
  obtain ⟨ha, he⟩ : (⟨v, .str '\'' t, false⟩ : Scanner).after (escape text) =
      ⟨v, .str '\'' (text.reverse ++ t), false⟩ ∧
      (⟨v, .str '\'' t, false⟩ : Scanner).emitted (escape text) = [] := Scanner.after_escape text
  refine run (by rw [Item.text, ha]; exact h) (by simp) ?_
  simp [Scanner.reads, Scanner.hold, Item.text, ha, he]

theorem raw {text : List Char} (hs : startsCode st)
    (h : Reads ⟨v, .str '\'' (text.reverse ++ t), false⟩ (.char '\'' :: st)) :
    Reads ⟨v, .str '\'' t, false⟩ (.raw text :: .char '\'' :: st) := by
  have hquote : (⟨v, .str '\'' (text.reverse ++ t), false⟩ : Scanner).reads (.char '\'' :: st) =
      (⟨v, .closing '\'' (text.reverse ++ t), false⟩ : Scanner).reads st := by
    simp [Scanner.reads, Scanner.step_str_quote]
  have h : Reads ⟨v, .closing '\'' (text.reverse ++ t), false⟩ st := by
    refine ⟨hquote ▸ h.total, ?_⟩
    have hiff := h.iff
    rw [hquote] at hiff
    have hscan : (⟨v, .str '\'' (text.reverse ++ t), false⟩ : Scanner).scan
        (render (.char '\'' :: st)) =
        (⟨v, .closing '\'' (text.reverse ++ t), false⟩ : Scanner).scan (render st) :=
      Scanner.scan_quiet Scanner.step_str_quote _
    rw [hscan] at hiff
    simpa using hiff
  have hreads : (⟨v, .str '\'' t, false⟩ : Scanner).reads (.raw text :: .char '\'' :: st) =
      (⟨v, .closing '\'' (text.reverse ++ t), false⟩ : Scanner).reads st := by
    rw [← hquote]
    rfl
  have hrender : render (.raw text :: .char '\'' :: st) = text ++ '\'' :: render st := by
    simp [render, Item.text]
  have hends := ends_of_startsCode hs
  refine ⟨hreads ▸ h.total, ?_⟩
  have hall : (∀ s, Item.raw s ∈ .raw text :: .char '\'' :: st → Plain s) ↔
      Plain text ∧ ∀ s, .raw s ∈ st → Plain s := by
    simp
  rw [hreads, hrender, Scanner.scan_str, hall]
  by_cases hp : Plain text
  · rw [(literal_eq_self_iff hends text).2 ⟨hp, rfl⟩, and_iff_right hp]
    exact h.iff
  · refine iff_of_false ?_ fun hp' => hp hp'.1
    intro heq
    have htotal := h.total
    rw [← heq] at htotal
    obtain ⟨⟨d, r⟩, hlit, -⟩ := Option.bind_eq_some_iff.1 (Option.get_mem htotal)
    rw [hlit, Option.bind_some, Scanner.scan_closing (literal_rest hlit),
      Scanner.reads_closing hs] at heq
    rw [hlit, Option.bind_some, Scanner.scan_closing (literal_rest hlit), Option.isSome_map] at htotal
    obtain ⟨ts, hts⟩ := Option.isSome_iff_exists.1 htotal
    obtain ⟨ts', -, hts'⟩ := Option.map_eq_some_iff.1 (heq.symm.trans (by rw [hts]; rfl))
    -- the first token is the string, which would denote the text
    have hd : text = d := by simpa using (List.cons.inj hts').1
    subst hd
    exact hp ((literal_eq_self_iff hends text).1 hlit).1

end Reads

/-- Where the server is: in code, or behind a string that ends here; in a string; in a name. -/
def Fits (v : Nat) (m : Scanner) (st : List Item) : Part → Prop
  | .code => (∃ w, m = ⟨v, .code w, false⟩) ∨ (∃ t, m = ⟨v, .closing '\'' t, false⟩) ∧ startsCode st
  | .string => ∃ t, m = ⟨v, .str '\'' t, false⟩
  | .name => ∃ t, m = ⟨v, .name t, false⟩
  | .afterName => ∃ t, m = ⟨v, .nameClosing t, false⟩

theorem code_stays {c : Char} (hc : inCode c) (w : List Char) :
    ∃ w', ((⟨v, .code [], false⟩ : Scanner).code w c).1 = ⟨v, .code w', false⟩ := by
  have hc' : c ≠ '\'' ∧ c ≠ '"' ∧ c ≠ '`' ∧ c ≠ '-' ∧ c ≠ '#' ∧ c ≠ '/' ∧ c ≠ '\\' := by
    simpa [inCode] using hc
  obtain ⟨h1, h2, h3, h4, h5, h6, -⟩ := hc'
  by_cases hw : isWord c
  · rw [Scanner.code, if_pos hw]
    exact ⟨_, rfl⟩
  rw [Scanner.code, if_neg hw, if_neg (not_or.2 ⟨h1, h2⟩), if_neg h3, if_neg h4, if_neg h5,
    if_neg h6, if_neg (by simp)]
  split <;> exact ⟨_, rfl⟩

theorem Fits.in_code {c : Char} (h : Fits v m (.char c :: st) .code) (hc : inCode c) :
    ∃ w, (m.step c).1 = ⟨v, .code w, false⟩ := by
  obtain ⟨w, rfl⟩ | ⟨⟨t, rfl⟩, hs⟩ := h
  · exact code_stays hc w
  · have hq : c ≠ '\'' := by
      rintro rfl
      cases hs
    rw [Scanner.step_closing hq]
    exact code_stays hc []

theorem inCode_of_digit {c : Char} (h : isWord c ∨ c = '.') : inCode c := by
  rcases h with hw | rfl
  · by_contra hc
    have hmem : c ∈ ['\'', '"', '`', '-', '#', '/', '\\'] := by
      by_contra hn
      exact hc (by rw [inCode, List.contains_eq_mem, decide_eq_false hn]; rfl)
    simp only [List.mem_cons, List.not_mem_nil, or_false] at hmem
    rcases hmem with rfl | rfl | rfl | rfl | rfl | rfl | rfl <;> cases hw
  · decide

theorem after_digits {digits : List Char} (h : ∀ c ∈ digits, isWord c ∨ c = '.') {m : Scanner}
    (hm : ∃ w, m = ⟨v, .code w, false⟩) : ∃ w, m.after digits = ⟨v, .code w, false⟩ := by
  induction digits generalizing m with
  | nil => exact hm
  | cons c digits ih =>
    obtain ⟨w, rfl⟩ := hm
    exact ih (fun c hc => h c (List.mem_cons_of_mem _ hc))
      (code_stays (inCode_of_digit (h c List.mem_cons_self)) w)

theorem Fits.in_num {n : Numeral} (h : Fits v m (.num n :: st) .code) :
    ∃ w, m.after n.text = ⟨v, .code w, false⟩ := by
  obtain ⟨c, cs, hcs⟩ := List.exists_cons_of_ne_nil n.some_digit
  have hdigit := n.all_digits
  rw [hcs] at hdigit
  have hc := inCode_of_digit (hdigit c List.mem_cons_self)
  have hrest : ∀ d ∈ cs, isWord d ∨ d = '.' := fun d hd => hdigit d (List.mem_cons_of_mem _ hd)
  unfold Numeral.text
  split
  · have hdash : (m.step '-').1 = ⟨v, .dash, false⟩ := by
      obtain ⟨w, rfl⟩ | ⟨⟨t, rfl⟩, -⟩ := h <;> rfl
    have hne : c ≠ '-' := by
      rintro rfl
      cases hc
    rw [hcs, Scanner.after, hdash, Scanner.after, Scanner.step, if_neg hne]
    exact after_digits hrest (code_stays hc [])
  · have hm : Fits v m (.char c :: st) .code := by
      obtain hw | ⟨ht, -⟩ := h
      · exact .inl hw
      · refine .inr ⟨ht, ?_⟩
        have hc' : c ≠ '\'' ∧ c ≠ '\\' := by
          constructor <;> (rintro rfl; cases hc)
        simp [startsCode, hc'.1, hc'.2]
    rw [hcs]
    exact after_digits hrest (hm.in_code hc)

/-- Where the server is after an item. -/
def Scanner.advance (m : Scanner) : Item → Option Scanner
  | .char c => some (m.step c).1
  | .num n => some (m.after n.text)
  | .esc text | .raw text => m.hold text

/-- The check goes on where the server does. -/
theorem Fits.advance {a : Item} {part : Part} (h : check part (a :: st)) (hm : Fits v m (a :: st) part) :
    ∃ m' part', m.advance a = some m' ∧ check part' st ∧ Fits v m' st part' := by
  cases part with
  | code =>
    cases a with
    | char c =>
      simp only [check] at h
      split at h
      · next hc =>
        subst hc
        refine ⟨_, .string, rfl, h, ?_⟩
        obtain ⟨w, rfl⟩ | ⟨-, hs⟩ := hm
        · exact ⟨[], rfl⟩
        · cases hs
      split at h
      · next hc =>
        subst hc
        refine ⟨_, .name, rfl, h, ?_⟩
        obtain ⟨w, rfl⟩ | ⟨⟨t, rfl⟩, -⟩ := hm <;> exact ⟨[], rfl⟩
      · rw [Bool.and_eq_true_iff] at h
        exact ⟨_, .code, rfl, h.2, .inl (hm.in_code h.1)⟩
    | num n => exact ⟨_, .code, rfl, h, .inl hm.in_num⟩
    | esc text | raw text => cases h
  | string =>
    obtain ⟨t, rfl⟩ := hm
    cases a with
    | char c =>
      simp only [check] at h
      split at h
      · next hc =>
        subst hc
        rw [Bool.and_eq_true_iff] at h
        exact ⟨_, .code, rfl, h.2, .inr ⟨⟨t, rfl⟩, h.1⟩⟩
      · next hc =>
        rw [Bool.and_eq_true_iff, bne_iff_ne] at h
        refine ⟨_, .string, rfl, h.2, c :: t, ?_⟩
        rw [Scanner.step_str (not_or.2 ⟨h.1, hc⟩)]
    | esc text => exact ⟨_, .string, rfl, h, _, rfl⟩
    | raw text =>
      match st with
      | .char c :: st =>
        by_cases hc : c = '\''
        · subst hc
          exact ⟨_, .string, rfl, h, _, rfl⟩
        · simp [check, hc] at h
      | [] | .num _ :: _ | .esc _ :: _ | .raw _ :: _ => cases h
    | num n => cases h
  | name =>
    obtain ⟨t, rfl⟩ := hm
    cases a with
    | char c =>
      simp only [check] at h
      split at h
      · next hc =>
        subst hc
        exact ⟨_, .afterName, rfl, h, t, rfl⟩
      · next hc => exact ⟨_, .name, rfl, h, c :: t, by simp [Scanner.step, hc]⟩
    | num n | esc text | raw text => cases h
  | afterName =>
    obtain ⟨t, rfl⟩ := hm
    cases a with
    | char c =>
      rw [check, Bool.and_eq_true_iff] at h
      have hc : c ≠ '`' := by
        rintro rfl
        cases h.1
      refine ⟨_, .code, rfl, h.2, .inl ?_⟩
      rw [Scanner.step_nameClosing hc]
      exact code_stays h.1 []
    | num n | esc text | raw text => cases h

/-- A template that passes the check is read as it says when the texts in it are plain. -/
theorem reads_of_check {part : Part} (h : check part st) (hm : Fits v m st part) : Reads m st := by
  induction st generalizing m part with
  | nil =>
    cases part with
    | code => exact Reads.nil (by obtain ⟨w, rfl⟩ | ⟨⟨t, rfl⟩, -⟩ := hm <;> rfl)
    | string | name | afterName => cases h
  | cons a st ih =>
    obtain ⟨m', part', hadv, hcheck, hfits⟩ := hm.advance h
    have hr := ih hcheck hfits
    cases a with
    | char c =>
      cases hadv
      exact Reads.char hr
    | num n =>
      cases hadv
      exact Reads.num hr
    | esc text =>
      cases part with
      | string =>
        obtain ⟨t, rfl⟩ := hm
        cases hadv
        exact Reads.esc hr
      | code | name | afterName => cases h
    | raw text =>
      cases part with
      | string =>
        obtain ⟨t, rfl⟩ := hm
        cases hadv
        match st with
        | .char c :: st =>
          by_cases hc : c = '\''
          · subst hc
            exact Reads.raw (Bool.and_eq_true_iff.1 h).1 hr
          · simp [check, hc] at h
        | [] | .num _ :: _ | .esc _ :: _ | .raw _ :: _ => cases h
      | code | name | afterName => cases h

end

/-! ## Checking a template -/

/-- An item by what the check sees of it. -/
def Item.blank : Item → Item
  | .char c => .char c
  | .num _ => .num ⟨false, ['0'], List.cons_ne_nil _ _, by simp [isWord]⟩
  | .esc _ => .esc []
  | .raw _ => .raw []

theorem startsCode_blank (st : List Item) : startsCode (st.map Item.blank) = startsCode st := by
  match st with
  | [] | .char _ :: _ | .num _ :: _ | .esc _ :: _ | .raw _ :: _ => rfl

theorem check_blank : (part : Part) → (st : List Item) →
    check part (st.map Item.blank) = check part st
  | .code, [] | .string, [] | .name, [] | .afterName, [] => rfl
  | .code, .char c :: st => by
    simp [check, Item.blank, check_blank .string st, check_blank .name st, check_blank .code st]
  | .code, .num _ :: st => check_blank .code st
  | .string, .char c :: st => by
    simp [check, Item.blank, startsCode_blank, check_blank .string st, check_blank .code st]
  | .string, .esc _ :: st => check_blank .string st
  | .string, .raw _ :: .char c :: st => by
    by_cases hc : c = '\''
    · subst hc
      simp [check, Item.blank, startsCode_blank, check_blank .code st]
    · simp [check, Item.blank, hc]
  | .name, .char c :: st => by
    simp [check, Item.blank, check_blank .name st, check_blank .afterName st]
  | .afterName, .char c :: st => by simp [check, Item.blank, check_blank .code st]
  | .code, .esc _ :: _ | .code, .raw _ :: _ | .string, .num _ :: _ | .string, [.raw _]
  | .string, .raw _ :: .num _ :: _ | .string, .raw _ :: .esc _ :: _ | .string, .raw _ :: .raw _ :: _
  | .name, .num _ :: _ | .name, .esc _ :: _ | .name, .raw _ :: _
  | .afterName, .num _ :: _ | .afterName, .esc _ :: _ | .afterName, .raw _ :: _ => rfl

theorem fill_blank (t : List Char) (args : List Item) :
    (fill t args).map Item.blank = fill t (args.map Item.blank) := by
  fun_induction fill t args with
  | case1 t a args ih => simp [fill, ih]
  | case2 c t args hne ih =>
    rw [List.map_cons, ih, fill]
    · rfl
    · rintro t' a args' hargs
      cases args with
      | nil => cases hargs
      | cons a' args => exact hne t' a' args rfl
  | case3 args => rfl

theorem startsCode_append {a b : List Item} (ha : startsCode a) (hb : startsCode b) :
    startsCode (a ++ b) := by
  match a with
  | [] => exact hb
  | .char _ :: _ | .num _ :: _ => exact ha

theorem check_append {part : Part} {a b : List Item} (ha : check part a) (hb : Sound b) :
    check part (a ++ b) := by
  have hb' := Bool.and_eq_true_iff.1 hb
  fun_induction check part a with
  | case1 => exact hb'.2
  | case2 st ih | case3 st _ ih | case10 st ih => simpa [check] using ih ha
  | case4 c st hq hn ih =>
    rw [Bool.and_eq_true_iff] at ha
    simp [check, hq, hn, ha.1, ih ha.2]
  | case5 n st ih | case8 text st ih => exact ih ha
  | case6 st ih | case9 text st ih =>
    rw [Bool.and_eq_true_iff] at ha
    simp [check, startsCode_append ha.1 hb'.1, ih ha.2]
  | case7 c st hc ih =>
    rw [Bool.and_eq_true_iff, bne_iff_ne] at ha
    simp [check, hc, ha.1, ih ha.2]
  | case11 c st hc ih => simpa [check, hc] using ih ha
  | case12 c st ih =>
    rw [Bool.and_eq_true_iff] at ha
    simp [check, ha.1, ih ha.2]
  | case13 => cases ha

/-- The texts in a statement that are not escaped. -/
def raws (st : List Item) : List (List Char) :=
  st.filterMap fun
    | .raw text => some text
    | _ => none

/-- The holes of a template. -/
def holes : List Char → Nat
  | '\x7b' :: '\x7d' :: t => holes t + 1
  | _ :: t => holes t
  | [] => 0

theorem mem_raws {st : List Item} {text : List Char} : text ∈ raws st ↔ Item.raw text ∈ st := by
  rw [raws, List.mem_filterMap]
  constructor
  · rintro ⟨a, ha, hr⟩
    cases a with
    | raw t => exact Option.some.inj hr ▸ ha
    | _ => cases hr
  · exact fun h => ⟨_, h, rfl⟩

theorem raws_fill {t : List Char} {args : List Item} (h : holes t = args.length) :
    raws (fill t args) = raws args := by
  fun_induction fill t args with
  | case1 t a args ih =>
    have hrest : raws (fill t args) = raws args := ih (by simpa [holes] using h)
    unfold raws at hrest ⊢
    rw [List.filterMap_cons, List.filterMap_cons, hrest]
  | case2 c t args hne ih =>
    have hholes : holes (c :: t) = holes t := by
      rw [holes]
      rintro t' rfl rfl
      cases args with
      | nil => simp [holes] at h
      | cons a args => exact hne t' a args rfl rfl rfl
    exact ih (hholes ▸ h)
  | case3 args =>
    obtain rfl := List.eq_nil_of_length_eq_zero h.symm
    rfl

/-- A statement that is sound, and carries these texts without escaping them. -/
structure Carries (st : List Item) (texts : List (List Char)) : Prop where
  sound : Sound st
  raws : raws st = texts

namespace Carries

theorem nil : Carries [] [] := ⟨rfl, rfl⟩

theorem append {a b : List Item} {ta tb : List (List Char)} (ha : Carries a ta) (hb : Carries b tb) :
    Carries (a ++ b) (ta ++ tb) := by
  have hs := Bool.and_eq_true_iff.1 ha.sound
  have hb' := Bool.and_eq_true_iff.1 hb.sound
  refine ⟨Bool.and_eq_true_iff.2 ⟨startsCode_append hs.1 hb'.1, check_append hs.2 hb.sound⟩, ?_⟩
  rw [Sql.raws, List.filterMap_append, ← Sql.raws, ← Sql.raws, ha.raws, hb.raws]

theorem append_eq_ofList {s t : String} {cs ds : List Char} (hs : s = String.ofList cs)
    (ht : t = String.ofList ds) : s ++ t = String.ofList (cs ++ ds) := by
  rw [hs, ht, String.ofList_append]

/-- A template with a hole for each of its arguments. -/
theorem of_template {t : String} {cs : List Char} {args blanks : List Item}
    (ht : t = String.ofList cs := by
      repeat' first | exact rfl | apply Rdsctl.Sql.Carries.append_eq_ofList)
    (hb : args.map Item.blank = blanks := by simp; rfl)
    (h : startsCode (fill cs blanks) && check .code (fill cs blanks) && holes cs == blanks.length
      := by decide +kernel) :
    Carries (fill t.toList args) (Sql.raws args) := by
  subst hb
  rw [ht, String.toList_ofList]
  rw [Bool.and_eq_true_iff, beq_iff_eq, List.length_map, ← fill_blank, startsCode_blank,
    check_blank] at h
  exact ⟨h.1, raws_fill h.2⟩

/-- A server reads such a statement as its template with the texts in it when those that are not
escaped are plain, and only then. -/
theorem readAs_iff {server : Nat} {st : List Item} {texts : List (List Char)} (h : Carries st texts) :
    ReadAs server st ↔ ∀ text ∈ texts, Plain text := by
  have hreads : Reads (.start server) st :=
    reads_of_check (Bool.and_eq_true_iff.1 h.sound).2 (.inl ⟨[], rfl⟩)
  rw [ReadAs, and_iff_right hreads.total, tokens, hreads.iff, ← h.raws]
  exact forall_congr' fun text => by rw [mem_raws]

end Carries

/-- A text outside strings is no part of a template. -/
theorem reads_none {v : Nat} {a b : List Item} {text : List Char} {part : Part} {m : Scanner}
    (h : check part a) (hm : Fits v m a part) : m.reads (a ++ .esc text :: b) = none := by
  induction a generalizing m part with
  | nil =>
    cases part with
    | code => obtain ⟨w, rfl⟩ | ⟨⟨t, rfl⟩, -⟩ := hm <;> rfl
    | string | name | afterName => cases h
  | cons a st ih =>
    obtain ⟨m', part', hadv, hcheck, hfits⟩ := hm.advance h
    have hr := ih hcheck hfits
    cases a with
    | char c | num n =>
      cases hadv
      rw [List.cons_append, Scanner.reads, hr]
      rfl
    | esc t | raw t =>
      rw [List.cons_append, Scanner.reads, show m.hold t = some m' from hadv]
      exact hr

/-- A statement with a text outside strings is not read as its template. -/
theorem not_readAs {server : Nat} {a b : List Item} {text : List Char} (h : check .code a) :
    ¬ReadAs server (a ++ .esc text :: b) := by
  rintro ⟨hsome, -⟩
  have hnone : (Scanner.start server).reads (a ++ .esc text :: b) = none :=
    reads_none h (.inl ⟨[], rfl⟩)
  rw [hnone] at hsome
  cases hsome

end Rdsctl.Sql
