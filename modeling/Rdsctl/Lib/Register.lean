import Mathlib.Order.Basic
import Mathlib.Data.List.Basic

/-!
# Registers that are only raised

A register over a partial order takes a value that is at least the one it holds, and refuses any
other. What it has taken bounds what it takes later (`Holds`).
-/

namespace Rdsctl.Register

variable {α : Type} [PartialOrder α]

/-- The value is at least the one the register holds. -/
def Admits (seen : Option α) (x : α) : Prop := ∀ s ∈ seen, s ≤ x

/-- The register holds at least this value. -/
def Holds (seen : Option α) (y : α) : Prop := ∃ s ∈ seen, y ≤ s

instance [DecidableLE α] (seen : Option α) (x : α) : Decidable (Admits seen x) :=
  decidable_of_iff (∀ s ∈ seen.toList, s ≤ x) (by simp [Admits])

@[simp] theorem admits_none (x : α) : Admits none x := by
  intro s hs
  cases hs

@[simp] theorem admits_some {s x : α} : Admits (some s) x ↔ s ≤ x := by
  simp [Admits]

@[simp] theorem holds_some {s y : α} : Holds (some s) y ↔ y ≤ s := by
  simp [Holds]

/-- A value that is not above one the register holds is refused. -/
theorem Holds.not_admits {seen : Option α} {x y : α} (h : Holds seen y) (hxy : ¬ y ≤ x) :
    ¬ Admits seen x := by
  obtain ⟨s, hs, hle⟩ := h
  exact fun ha => hxy (hle.trans (ha s hs))

/-- A register that takes a value loses none. -/
theorem Holds.of_admits {seen : Option α} {x y : α} (h : Holds seen y) (ha : Admits seen x) :
    y ≤ x := by
  obtain ⟨s, hs, hle⟩ := h
  exact hle.trans (ha s hs)

section
variable [DecidableLE α]

/-- The register after a value is offered to it. -/
def raise (seen : Option α) (x : α) : Option α := if Admits seen x then some x else seen

theorem raise_of_admits {seen : Option α} {x : α} (h : Admits seen x) : raise seen x = some x :=
  if_pos h

theorem raise_of_not_admits {seen : Option α} {x : α} (h : ¬ Admits seen x) :
    raise seen x = seen := if_neg h

/-- What a register holds it goes on holding. -/
theorem Holds.raise {seen : Option α} {y : α} (h : Holds seen y) (x : α) :
    Holds (raise seen x) y := by
  by_cases ha : Admits seen x
  · rw [raise_of_admits ha, holds_some]
    exact h.of_admits ha
  · rwa [raise_of_not_admits ha]

/-- The values a register takes of those offered to it, in their order. -/
def taken : Option α → List α → List α
  | _, [] => []
  | seen, x :: xs =>
    if Admits seen x then x :: taken (some x) xs else taken seen xs

/-- A register holds the last value it has taken. -/
theorem foldl_raise (seen : Option α) (xs : List α) :
    xs.foldl raise seen = (taken seen xs).getLast?.or seen := by
  induction xs generalizing seen with
  | nil => rfl
  | cons x xs ih =>
    rw [List.foldl_cons, ih, taken]
    by_cases ha : Admits seen x
    · rw [if_pos ha, raise_of_admits ha]
      cases taken (some x) xs with
      | nil => rfl
      | cons y ys => rw [List.getLast?_cons_cons, List.getLast?_eq_some_getLast (by simp)]; rfl
    · rw [if_neg ha, raise_of_not_admits ha]

/-- What is taken is at least what the register held. -/
theorem le_of_mem_taken {seen : Option α} {s x : α} (hs : Holds seen s) {xs : List α}
    (hx : x ∈ taken seen xs) : s ≤ x := by
  induction xs generalizing seen with
  | nil => cases hx
  | cons x' xs ih =>
    rw [taken] at hx
    by_cases ha : Admits seen x'
    · rw [if_pos ha] at hx
      rcases List.mem_cons.1 hx with rfl | hx
      · exact hs.of_admits ha
      · exact ih (holds_some.2 (hs.of_admits ha)) hx
    · rw [if_neg ha] at hx
      exact ih hs hx

/-- The last value taken is the greatest. -/
theorem le_getLast_taken {seen : Option α} {m x : α} {xs : List α}
    (hm : (taken seen xs).getLast? = some m) (hx : x ∈ taken seen xs) : x ≤ m := by
  induction xs generalizing seen with
  | nil => cases hx
  | cons x' xs ih =>
    rw [taken] at hx hm
    by_cases ha : Admits seen x'
    · rw [if_pos ha] at hx hm
      rcases List.mem_cons.1 hx with rfl | hx
      · rcases hrest : taken (some x) xs with _ | ⟨y, ys⟩
        · rw [hrest] at hm
          cases hm
          exact le_rfl
        · rw [hrest, List.getLast?_cons_cons] at hm
          have hmem : m ∈ taken (some x) xs := hrest ▸ List.mem_of_getLast? hm
          exact le_of_mem_taken (holds_some.2 le_rfl) hmem
      · rcases hrest : taken (some x') xs with _ | ⟨y, ys⟩
        · rw [hrest] at hx
          cases hx
        · rw [hrest, List.getLast?_cons_cons, ← hrest] at hm
          exact ih hm hx
    · rw [if_neg ha] at hx hm
      exact ih hm hx

end

end Rdsctl.Register
