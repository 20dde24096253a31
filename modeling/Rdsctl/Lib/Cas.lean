/-!
# Records under compare-and-set

A cell holds at most one record, and every record carries a version. A writer reads the cell, makes
a record of what it read, and asks for it to be written on the condition that the cell still holds
the version it read. `Kept` is what such writes do to a cell over time: a record is still there, or
a newer version is, which a measure `μ` of the records never falls behind. A writer whose condition
is met has then read the record it replaces (`Kept.eq_of_ver`).
-/

namespace Rdsctl.Cas

variable {ρ : Type} (ver μ : ρ → Nat)

/-- What the cell held earlier it holds later, or a newer version of no smaller measure. -/
def Kept (earlier later : Option ρ) : Prop :=
  ∀ r ∈ earlier, ∃ r' ∈ later, r = r' ∨ ver r < ver r' ∧ μ r ≤ μ r'

variable {ver μ} {a b c : Option ρ} {r r' : ρ}

theorem Kept.refl (a : Option ρ) : Kept ver μ a a := fun r hr => ⟨r, hr, .inl rfl⟩

theorem Kept.trans (hab : Kept ver μ a b) (hbc : Kept ver μ b c) : Kept ver μ a c := by
  intro r hr
  obtain ⟨s, hs, hrs⟩ := hab r hr
  obtain ⟨t, ht, hst⟩ := hbc s hs
  refine ⟨t, ht, ?_⟩
  rcases hrs with rfl | ⟨hv, hm⟩
  · exact hst
  · rcases hst with rfl | ⟨hv', hm'⟩
    · exact .inr ⟨hv, hm⟩
    · exact .inr ⟨Nat.lt_trans hv hv', Nat.le_trans hm hm'⟩

/-- The measure of the record never falls. -/
theorem Kept.measure_le (h : Kept ver μ a b) (hr : r ∈ a) (hr' : r' ∈ b) : μ r ≤ μ r' := by
  obtain ⟨s, hs, hrs⟩ := h r hr
  cases Option.mem_unique hr' hs
  rcases hrs with rfl | ⟨-, hm⟩
  · exact Nat.le_refl _
  · exact hm

/-- A version names one record. -/
theorem Kept.eq_of_ver (h : Kept ver μ a b) (hr : r ∈ a) (hr' : r' ∈ b) (hv : ver r' = ver r) :
    r' = r := by
  obtain ⟨s, hs, hrs⟩ := h r hr
  cases Option.mem_unique hr' hs
  rcases hrs with rfl | ⟨hlt, -⟩
  · rfl
  · exact absurd hv (Nat.ne_of_gt hlt)

/-- A newer version of no smaller measure than what the cell held may be written. -/
theorem Kept.replace (h : ∀ r ∈ a, ver r < ver r' ∧ μ r ≤ μ r') : Kept ver μ a (some r') :=
  fun r hr => ⟨r', rfl, .inr (h r hr)⟩

end Rdsctl.Cas
