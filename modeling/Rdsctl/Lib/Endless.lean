import Rdsctl.Lib.Run

/-!
# Endless runs

A run of a system that never stops, as the sequence of its states and events. What holds along every
finite run holds along an endless one (`Endless.run`). `Endless.first` follows a state to the first
event of some kind, and `Endless.seldom` is the ranking rule: events that lower a number which nothing
raises are finitely many.
-/

namespace Rdsctl

variable {σ ε : Type}

/-- The endless runs of `step` from `init` whose steps all meet `guard`. -/
structure Endless (step : σ → ε → Option σ) (guard : σ → ε → Prop) (init : σ → Prop) where
  state : Nat → σ
  event : Nat → ε
  starts : init (state 0)
  meets : ∀ k, guard (state k) (event k)
  next : ∀ k, step (state k) (event k) = some (state (k + 1))

namespace Endless

variable {step : σ → ε → Option σ} {guard : σ → ε → Prop} {init : σ → Prop}
  (ρ : Endless step guard init)

/-- Every state of an endless run is the end of a finite one. -/
theorem run (k : Nat) : ∃ h, Run step (fun _ s e => guard s e) init h (ρ.state k) := by
  induction k with
  | zero => exact ⟨[], .start ρ.starts⟩
  | succ k ih =>
    obtain ⟨h, hr⟩ := ih
    exact ⟨_, hr.step (ρ.meets k) (ρ.next k)⟩

/-- What holds now and is kept until the next event of a kind holds at the first such event. -/
theorem first {P : Nat → Prop} {φ : σ → Prop} {k : Nat} (hφ : φ (ρ.state k))
    (hkeep : ∀ j, k ≤ j → φ (ρ.state j) → ¬P j → φ (ρ.state (j + 1))) (hP : ∃ j, k ≤ j ∧ P j) :
    ∃ j, k ≤ j ∧ P j ∧ φ (ρ.state j) := by
  obtain ⟨j, hj, hPj⟩ := hP
  obtain ⟨d, rfl⟩ := Nat.exists_eq_add_of_le hj
  clear hj
  induction d generalizing k with
  | zero => exact ⟨k, Nat.le_refl _, hPj, hφ⟩
  | succ d ih =>
    rcases Classical.em (P k) with hk | hk
    · exact ⟨k, Nat.le_refl _, hk, hφ⟩
    · have hstep : k + 1 + d = k + (d + 1) := by omega
      obtain ⟨j, hj, hj', hφj⟩ := ih (hkeep k (Nat.le_refl _) hφ hk)
        (fun j hj => hkeep j (Nat.le_of_succ_le hj)) (hstep ▸ hPj)
      exact ⟨j, Nat.le_of_succ_le hj, hj', hφj⟩

/-- A property that no step destroys holds from then on. -/
theorem always {φ : σ → Prop} {k : Nat} (hφ : φ (ρ.state k))
    (hkeep : ∀ j, k ≤ j → φ (ρ.state j) → φ (ρ.state (j + 1))) {j : Nat} (hj : k ≤ j) :
    φ (ρ.state j) := by
  induction hj with
  | refl => exact hφ
  | @step j hj ih => exact hkeep j hj ih

/-- Where a number is never raised, the events that lower it come to an end. -/
theorem seldom {P : Nat → Prop} {μ : σ → Nat} {k : Nat}
    (hle : ∀ j, k ≤ j → μ (ρ.state (j + 1)) ≤ μ (ρ.state j))
    (hlt : ∀ j, k ≤ j → P j → μ (ρ.state (j + 1)) < μ (ρ.state j)) :
    ∃ n, k ≤ n ∧ ∀ j, n ≤ j → ¬P j := by
  induction hμ : μ (ρ.state k) using Nat.strongRecOn generalizing k with
  | ind m ih =>
    rcases Classical.em (∃ j, k ≤ j ∧ P j) with ⟨j, hj, hPj⟩ | hnone
    · have hdown : μ (ρ.state j) ≤ μ (ρ.state k) := by
        clear hPj
        induction hj with
        | refl => exact Nat.le_refl _
        | @step j hj ih' => exact Nat.le_trans (hle j hj) ih'
      obtain ⟨n, hn, hfree⟩ := ih (μ (ρ.state (j + 1))) (hμ ▸ Nat.lt_of_lt_of_le (hlt j hj hPj) hdown)
        (k := j + 1) (fun i hi => hle i (by omega)) (fun i hi => hlt i (by omega)) rfl
      exact ⟨n, by omega, hfree⟩
    · exact ⟨k, Nat.le_refl _, fun j hj hPj => hnone ⟨j, hj, hPj⟩⟩

end Endless
end Rdsctl
