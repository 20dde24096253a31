import Mathlib.Data.List.Basic
import Mathlib.Data.List.DropRight

/-!
# Fields between separators

What cutting a list at a separator says about its parts: how many fields there are and how long they
are together, and that a piece without a separator at either end belongs to the first or the last
field. A list is its trimmed part with something removable on both sides (`trimmed_eq`).
-/

namespace Rdsctl.Fields

variable {α : Type}

/-! ## Cutting -/

theorem intercalate_concat {sep : α} {init : List (List α)} (h : init ≠ []) (l : List α) :
    [sep].intercalate (init ++ [l]) = [sep].intercalate init ++ sep :: l := by
  induction init with
  | nil => exact absurd rfl h
  | cons a init ih =>
    rcases init with _ | ⟨b, init⟩
    · simp
    · have hne : b :: init ≠ [] := List.cons_ne_nil _ _
      rw [List.cons_append, List.intercalate_cons_of_ne_nil (List.append_ne_nil_of_left_ne_nil hne _),
        ih hne, List.intercalate_cons_of_ne_nil hne]
      simp only [List.append_assoc]

theorem head?_intercalate {sep : α} {l : List α} (h : l ≠ []) (ls : List (List α)) :
    ([sep].intercalate (l :: ls)).head? = l.head? := by
  obtain ⟨x, l, rfl⟩ := List.exists_cons_of_ne_nil h
  cases ls <;> simp

theorem getLast?_intercalate {sep : α} {l : List α} (h : l ≠ []) (init : List (List α)) :
    ([sep].intercalate (init ++ [l])).getLast? = l.getLast? := by
  rcases init.eq_nil_or_concat' with rfl | ⟨a, b, rfl⟩
  · simp
  · rw [intercalate_concat (by simp), List.getLast?_append_of_ne_nil _ (List.cons_ne_nil _ _),
      List.getLast?_cons_of_ne_nil h]

section Cut

variable [DecidableEq α] {sep : α} {xs us vs : List α}

theorem not_mem_of_mem_splitOn {l : List α} (h : l ∈ xs.splitOn sep) : sep ∉ l := by
  induction xs generalizing l with
  | nil =>
    rw [List.splitOn_nil, List.mem_singleton] at h
    simp [h]
  | cons x xs ih =>
    rw [List.splitOn_cons_eq_if_modifyHead] at h
    split at h
    · rcases List.mem_cons.1 h with rfl | h
      · simp
      · exact ih h
    · next hx =>
      obtain ⟨first, rest, hs⟩ := List.exists_cons_of_ne_nil (List.splitOn_ne_nil sep xs)
      rw [hs, List.modifyHead_cons] at h
      rcases List.mem_cons.1 h with rfl | h
      · have hfirst : sep ∉ first := ih (by rw [hs]; exact List.mem_cons_self)
        rw [beq_iff_eq] at hx
        rw [List.mem_cons, not_or]
        exact ⟨fun heq => hx heq.symm, hfirst⟩
      · exact ih (by rw [hs]; exact List.mem_cons_of_mem _ h)

/-- There is one field more than there are separators. -/
theorem length_splitOn (xs : List α) : (xs.splitOn sep).length = xs.count sep + 1 := by
  induction xs with
  | nil => simp
  | cons x xs ih =>
    rw [List.splitOn_cons_eq_if_modifyHead, List.count_cons]
    split <;> simp_all

/-- Fields and separators are as long as the list. -/
theorem length_flatten_splitOn (sep : α) (xs : List α) :
    (xs.splitOn sep).flatten.length + xs.count sep = xs.length := by
  induction xs with
  | nil => simp
  | cons x xs ih =>
    rw [List.splitOn_cons_eq_if_modifyHead, List.count_cons]
    obtain ⟨first, rest, hs⟩ := List.exists_cons_of_ne_nil (List.splitOn_ne_nil sep xs)
    rw [hs] at ih ⊢
    split
    · simp at ih ⊢
      omega
    · simp at ih ⊢
      omega

/-- What is put in front of a list is part of the first field. -/
theorem splitOn_append_left (h : sep ∉ us) (xs : List α) :
    ∃ first rest, xs.splitOn sep = first :: rest ∧ (us ++ xs).splitOn sep = (us ++ first) :: rest := by
  obtain ⟨first, rest, hs⟩ := List.exists_cons_of_ne_nil (List.splitOn_ne_nil sep xs)
  refine ⟨first, rest, hs, ?_⟩
  have hno : ∀ l ∈ (us ++ first) :: rest, sep ∉ l := by
    intro l hl
    rcases List.mem_cons.1 hl with rfl | hl
    · have hfirst : sep ∉ first := not_mem_of_mem_splitOn (by rw [hs]; exact List.mem_cons_self)
      simp [h, hfirst]
    · exact not_mem_of_mem_splitOn (by rw [hs]; exact List.mem_cons_of_mem _ hl)
  calc (us ++ xs).splitOn sep
      = (us ++ [sep].intercalate (first :: rest)).splitOn sep := by
        rw [← hs, List.intercalate_splitOn]
    _ = ([sep].intercalate ((us ++ first) :: rest)).splitOn sep := by
        cases rest <;> simp
    _ = (us ++ first) :: rest := List.splitOn_intercalate sep hno (List.cons_ne_nil _ _)

/-- What is put behind a list is part of the last field. -/
theorem splitOn_append_right (h : sep ∉ vs) (xs : List α) :
    ∃ init last, xs.splitOn sep = init ++ [last] ∧ (xs ++ vs).splitOn sep = init ++ [last ++ vs] := by
  obtain ⟨init, last, hs⟩ : ∃ init last, xs.splitOn sep = init ++ [last] :=
    (List.eq_nil_or_concat' _).resolve_left (List.splitOn_ne_nil sep xs)
  refine ⟨init, last, hs, ?_⟩
  have hno : ∀ l ∈ init ++ [last ++ vs], sep ∉ l := by
    intro l hl
    rcases List.mem_append.1 hl with hl | hl
    · exact not_mem_of_mem_splitOn (by rw [hs]; exact List.mem_append_left _ hl)
    · have hlast : sep ∉ last :=
        not_mem_of_mem_splitOn (by rw [hs]; exact List.mem_append_right _ List.mem_cons_self)
      rw [List.mem_singleton.1 hl]
      simp [h, hlast]
  calc (xs ++ vs).splitOn sep
      = ([sep].intercalate (init ++ [last]) ++ vs).splitOn sep := by
        rw [← hs, List.intercalate_splitOn]
    _ = ([sep].intercalate (init ++ [last ++ vs])).splitOn sep := by
        rcases init with _ | ⟨a, init⟩
        · simp
        · rw [intercalate_concat (by simp), intercalate_concat (by simp)]
          simp
    _ = init ++ [last ++ vs] := List.splitOn_intercalate sep hno (by simp)

end Cut

/-! ## Trimming -/

section Trim

variable {p : α → Bool}

theorem eq_rdropWhile_append (p : α → Bool) (xs : List α) :
    ∃ vs, xs = xs.rdropWhile p ++ vs ∧ ∀ v ∈ vs, p v := by
  refine ⟨xs.rtakeWhile p, List.rdropWhile_append_rtakeWhile.symm, fun v hv => ?_⟩
  exact List.mem_rtakeWhile_imp hv

/-- A list is what trimming leaves, with elements that are trimmed off before and behind it. -/
theorem trimmed_eq (p : α → Bool) (xs : List α) :
    ∃ us vs, xs = us ++ (xs.dropWhile p).rdropWhile p ++ vs ∧ (∀ u ∈ us, p u) ∧ ∀ v ∈ vs, p v := by
  obtain ⟨vs, hvs, hp⟩ := eq_rdropWhile_append p (xs.dropWhile p)
  refine ⟨xs.takeWhile p, vs, ?_, fun u hu => List.mem_takeWhile_imp hu, hp⟩
  rw [List.append_assoc, ← hvs, List.takeWhile_append_dropWhile]

/-- What ends in something else is not trimmed at its end. -/
theorem rdropWhile_eq_self {xs : List α} (h : ∀ x ∈ xs.getLast?, p x = false) :
    xs.rdropWhile p = xs := by
  rw [List.rdropWhile_eq_self_iff]
  intro hne
  simp [h _ (List.getLast?_eq_getLast_of_ne_nil hne)]

theorem getLast?_rdropWhile {xs : List α} {x : α} (h : (xs.rdropWhile p).getLast? = some x) :
    p x = false := by
  have hne : xs.rdropWhile p ≠ [] := by
    rintro hnil
    rw [hnil] at h
    cases h
  rw [List.getLast?_eq_getLast_of_ne_nil hne, Option.some.injEq] at h
  rw [← h]
  simpa using List.rdropWhile_last_not p xs hne

end Trim

end Rdsctl.Fields
