import Mathlib.Data.Finset.Card
import Mathlib.Order.Lattice
import Mathlib.Data.Finset.Max

/-!
# Keeping the newest

A bounded memory of keys that come in any order: from time to time the smallest keys beyond the
`K` largest are forgotten. What it holds depends only on all the keys ever put in, not on when it
forgot: `newest_newest_union`.
-/

namespace Rdsctl

variable {α : Type} [LinearOrder α]

/-- The `K` largest members of a set. -/
def newest (K : Nat) (s : Finset α) : Finset α := s.filter fun i => (s.filter (i < ·)).card < K

variable {K : Nat} {s t : Finset α} {i m : α}

theorem mem_newest : i ∈ newest K s ↔ i ∈ s ∧ (s.filter (i < ·)).card < K := by
  simp [newest]

@[simp] theorem newest_empty : newest K (∅ : Finset α) = ∅ := rfl

/-- A set of at most `K` members is kept whole. -/
theorem newest_of_card_le (h : s.card ≤ K) : newest K s = s := by
  refine Finset.filter_true_of_mem fun i hi => ?_
  have hlt : (s.filter (i < ·)).card < s.card :=
    Finset.card_lt_card (Finset.filter_ssubset.2 ⟨i, hi, lt_irrefl i⟩)
  omega

/-- A member below `K` others makes no difference. -/
theorem newest_erase (hm : K ≤ (s.filter (m < ·)).card) : newest K (s.erase m) = newest K s := by
  ext i
  rw [mem_newest, mem_newest, Finset.mem_erase]
  rcases lt_trichotomy i m with hlt | rfl | hgt
  · -- both sides leave `i` out, as at least `K` others are above it
    have hsub : s.filter (m < ·) ⊆ (s.erase m).filter (i < ·) := by
      intro j hj
      rw [Finset.mem_filter] at hj
      exact Finset.mem_filter.2
        ⟨Finset.mem_erase.2 ⟨hj.2.ne', hj.1⟩, hlt.trans hj.2⟩
    have h₁ := Finset.card_le_card hsub
    have h₂ := Finset.card_le_card
      (Finset.filter_subset_filter (i < ·) (Finset.erase_subset m s))
    constructor
    · rintro ⟨-, h⟩
      omega
    · rintro ⟨-, h⟩
      omega
  · constructor
    · rintro ⟨⟨h, -⟩, -⟩
      exact absurd rfl h
    · rintro ⟨-, h⟩
      omega
  · have heq : (s.erase m).filter (i < ·) = s.filter (i < ·) := by
      ext j
      simp only [Finset.mem_filter, Finset.mem_erase]
      constructor
      · rintro ⟨⟨-, hj⟩, hij⟩
        exact ⟨hj, hij⟩
      · rintro ⟨hj, hij⟩
        exact ⟨⟨(hgt.trans hij).ne', hj⟩, hij⟩
    rw [heq]
    simp [hgt.ne']

/-- The least of more than `K` members has at least `K` above it. -/
theorem le_card_above_min (hs : m ∈ s) (hmin : ∀ j ∈ s, m ≤ j) (hK : K < s.card) :
    K ≤ (s.filter (m < ·)).card := by
  have heq : s.filter (m < ·) = s.erase m := by
    ext j
    rw [Finset.mem_filter, Finset.mem_erase]
    constructor
    · rintro ⟨hj, hlt⟩
      exact ⟨hlt.ne', hj⟩
    · rintro ⟨hne, hj⟩
      exact ⟨hj, lt_of_le_of_ne (hmin j hj) (Ne.symm hne)⟩
  rw [heq, Finset.card_erase_of_mem hs]
  omega

/-- Forgetting before new keys come makes no difference to what is kept in the end. -/
theorem newest_newest_union : newest K (newest K s ∪ t) = newest K (s ∪ t) := by
  induction hn : s.card generalizing s with
  | zero =>
    rw [Finset.card_eq_zero.1 hn]
    rfl
  | succ n ih =>
    rcases Nat.lt_or_ge K s.card with hK | hK
    · have hne : s.Nonempty := Finset.card_pos.1 (by omega)
      have hmem : s.min' hne ∈ s := s.min'_mem hne
      have habove := le_card_above_min hmem (fun j hj => s.min'_le j hj) hK
      rw [← newest_erase habove, ih (by rw [Finset.card_erase_of_mem hmem]; omega)]
      by_cases ht : s.min' hne ∈ t
      · congr 1
        ext j
        simp only [Finset.mem_union, Finset.mem_erase]
        constructor
        · rintro (⟨-, hj⟩ | hj)
          · exact .inl hj
          · exact .inr hj
        · rintro (hj | hj)
          · rcases eq_or_ne j (s.min' hne) with rfl | hj'
            · exact .inr ht
            · exact .inl ⟨hj', hj⟩
          · exact .inr hj
      · have heq : s.erase (s.min' hne) ∪ t = (s ∪ t).erase (s.min' hne) := by
          rw [Finset.erase_union_distrib, Finset.erase_eq_of_notMem ht]
        rw [heq]
        refine newest_erase (habove.trans (Finset.card_le_card ?_))
        exact Finset.filter_subset_filter _ Finset.subset_union_left
    · rw [newest_of_card_le hK]

end Rdsctl
