import Mathlib.Data.List.Basic
import Std.Data.String.ToNat

/-!
# Lists of pieces between separators

Two lists that end in a separator and a piece without one are the same only when both parts are. So
text that is put together from the left, piece by piece, is taken apart from the right.
-/

namespace Rdsctl.Pieces

section

variable {α : Type}

/-- The last piece tells what comes before it. -/
theorem append_cons_inj [DecidableEq α] {sep : α} {xs ys us vs : List α} (hu : sep ∉ us)
    (hv : sep ∉ vs) (h : xs ++ sep :: us = ys ++ sep :: vs) : xs = ys ∧ us = vs := by
  have hpieces := congrArg (List.splitOn sep) h
  rw [List.splitOn_append_cons_self, List.splitOn_append_cons_self, List.splitOn_eq_singleton hu,
    List.splitOn_eq_singleton hv] at hpieces
  obtain ⟨hinit, hlast⟩ := List.append_inj' hpieces rfl
  have hxs : xs = ys := calc
    xs = [sep].intercalate (xs.splitOn sep) := (List.intercalate_splitOn sep).symm
    _ = [sep].intercalate (ys.splitOn sep) := by rw [hinit]
    _ = ys := List.intercalate_splitOn sep
  exact ⟨hxs, List.singleton_inj.1 hlast⟩

/-- The last piece of a list that ends in a separator and a piece. -/
theorem getLast?_splitOn [DecidableEq α] {sep : α} {xs us : List α} (hu : sep ∉ us) :
    ((xs ++ sep :: us).splitOn sep).getLast? = some us := by
  rw [List.splitOn_append_cons_self, List.splitOn_eq_singleton hu, List.getLast?_concat]

end

/-! ## Pieces of strings -/

/-- A piece has no separator. -/
def Plain (s : String) : Prop := '-' ∉ s.toList

instance (s : String) : Decidable (Plain s) := inferInstanceAs (Decidable ('-' ∉ s.toList))

theorem isDigit_of_mem {n : Nat} {c : Char} (h : c ∈ (toString n).toList) : c.isDigit = true := by
  have hmem : c ∈ Nat.toDigits 10 n := Nat.toList_repr ▸ h
  exact Nat.isDigit_of_mem_toDigits (by decide) (by decide) hmem

theorem plain_toString (n : Nat) : Plain (toString n) := fun h => absurd (isDigit_of_mem h) (by decide)

/-- Text in front of digits is no number. -/
theorem toString_ne {s : String} {n : Nat} {c : Char} (hc : c ∈ s.toList)
    (hd : c.isDigit = false) : s ≠ toString n := by
  rintro rfl
  rw [isDigit_of_mem hc] at hd
  cases hd

theorem Plain.append {s t : String} (hs : Plain s) (ht : Plain t) : Plain (s ++ t) := by
  unfold Plain
  rw [String.toList_append, List.mem_append]
  exact fun h => h.elim hs ht

theorem toList_dash (s t : String) : (s ++ "-" ++ t).toList = s.toList ++ '-' :: t.toList := by
  simp

/-- The last piece of a string tells what comes before it. -/
theorem dash_inj {a b s t : String} (hs : Plain s) (ht : Plain t)
    (h : a ++ "-" ++ s = b ++ "-" ++ t) : a = b ∧ s = t := by
  have hlist := congrArg String.toList h
  rw [toList_dash, toList_dash] at hlist
  obtain ⟨hinit, hlast⟩ := append_cons_inj hs ht hlist
  exact ⟨String.toList_injective hinit, String.toList_injective hlast⟩

end Rdsctl.Pieces
