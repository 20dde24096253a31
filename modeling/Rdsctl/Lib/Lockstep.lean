import Rdsctl.Lib.Run

/-!
# Two machines in lockstep

Two machines take the same calls, and each answers. `Lockstep` is what has to be shown of one call:
where the states are related and the call meets the guard, the answers are the same and the states are
related again. Along a run of both machines all answers are then the same (`Lockstep.run`).
-/

namespace Rdsctl

variable {σ τ κ α : Type}

/-- Both machines take a call. -/
def inStep (f : σ → κ → α × σ) (g : τ → κ → α × τ) (p : σ × τ) (c : κ) : Option (σ × τ) :=
  some ((f p.1 c).2, (g p.2 c).2)

/-- A relation that calls under the guard keep, and under which they are answered alike. -/
structure Lockstep (f : σ → κ → α × σ) (g : τ → κ → α × τ) (R : σ → τ → Prop)
    (guard : τ → κ → Prop) : Prop where
  answer : ∀ s t c, R s t → guard t c → (f s c).1 = (g t c).1
  keeps : ∀ s t c, R s t → guard t c → R (f s c).2 (g t c).2

variable {f : σ → κ → α × σ} {g : τ → κ → α × τ} {R : σ → τ → Prop} {guard : τ → κ → Prop}
  {init : σ × τ → Prop} {h : History (σ × τ) κ} {p : σ × τ}

theorem Lockstep.run (hl : Lockstep f g R guard) (hinit : ∀ p, init p → R p.1 p.2)
    (hr : Run (inStep f g) (fun _ p c => guard p.2 c) init h p) :
    R p.1 p.2 ∧ ∀ q ∈ h, (f q.1.1 q.2).1 = (g q.1.2 q.2).1 := by
  induction hr with
  | start hi => exact ⟨hinit _ hi, fun q hq => absurd hq List.not_mem_nil⟩
  | @step h p p' c _ hg hs ih =>
    cases hs
    refine ⟨hl.keeps _ _ _ ih.1 hg, fun q hq => ?_⟩
    rcases List.mem_cons.1 hq with rfl | hq
    · exact hl.answer _ _ _ ih.1 hg
    · exact ih.2 q hq

end Rdsctl
