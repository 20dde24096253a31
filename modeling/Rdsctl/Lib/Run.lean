import Mathlib.Data.List.Basic

/-!
# Runs of a system under a guard

A system is a partial step function `step : σ → ε → Option σ` on states and events. `Run` is its
set of finite runs from the states of `init` in which every step meets a guard. The guard reads
the history of the run, so that a condition on a step may speak about earlier states. A run is
given by its history, the newest step first, and the state it is in.

`Run.invariant` packages the induction; `Run.rel` carries a preorder from any earlier state of a
run to any later one.
-/

namespace Rdsctl

/-- The steps a run has taken, newest first: the state each left and the event it handled. -/
abbrev History (σ ε : Type) : Type := List (σ × ε)

variable {σ ε : Type}

/-- The states of a run: the one it is in and the ones it left. -/
def History.states (h : History σ ε) (s : σ) : List σ := s :: h.map Prod.fst

@[simp] theorem History.mem_states {h : History σ ε} {s t : σ} :
    t ∈ h.states s ↔ t = s ∨ ∃ e, (t, e) ∈ h := by
  simp [History.states]

/-- The runs of `step` from `init` whose steps all meet `guard`. -/
inductive Run (step : σ → ε → Option σ) (guard : History σ ε → σ → ε → Prop)
    (init : σ → Prop) : History σ ε → σ → Prop
  | start {s : σ} (h0 : init s) : Run step guard init [] s
  | step {h : History σ ε} {s s' : σ} {e : ε} (hr : Run step guard init h s)
      (hg : guard h s e) (hs : step s e = some s') : Run step guard init ((s, e) :: h) s'

namespace Run

variable {step : σ → ε → Option σ} {guard guard' : History σ ε → σ → ε → Prop}
  {init : σ → Prop} {h : History σ ε} {s : σ}

/-- What holds at the start and survives every guarded step of a run holds along the run. -/
theorem invariant {I : History σ ε → σ → Prop} (h0 : ∀ s, init s → I [] s)
    (hstep : ∀ h s e s', Run step guard init h s → I h s → guard h s e → step s e = some s' →
      I ((s, e) :: h) s') (hr : Run step guard init h s) : I h s := by
  induction hr with
  | start hi => exact h0 _ hi
  | step hr hg hs ih => exact hstep _ _ _ _ hr ih hg hs

/-- A run under a guard is a run under any weaker one. -/
theorem mono (hw : ∀ h s e, guard h s e → guard' h s e) (hr : Run step guard init h s) :
    Run step guard' init h s := by
  induction hr with
  | start hi => exact .start hi
  | step _ hg hs ih => exact .step ih (hw _ _ _ hg) hs

/-- A run starts in one of the initial states. -/
theorem starts (hr : Run step guard init h s) :
    ∃ s₀, init s₀ ∧ Run step guard (· = s₀) h s := by
  induction hr with
  | @start s hi => exact ⟨s, hi, .start rfl⟩
  | step _ hg hs ih =>
    obtain ⟨s₀, hi, hr⟩ := ih
    exact ⟨s₀, hi, hr.step hg hs⟩

/-- Every state of a run is the end of a run. -/
theorem of_mem (hr : Run step guard init h s) {t : σ} (ht : t ∈ h.states s) :
    ∃ h', Run step guard init h' t := by
  induction hr with
  | start hi => simp at ht; subst ht; exact ⟨_, .start hi⟩
  | @step h s s' e hr hg hs ih =>
    rcases List.mem_cons.1 ht with rfl | ht
    · exact ⟨_, .step hr hg hs⟩
    · exact ih ht

/-- A relation that is reflexive and transitive and along which every guarded step moves relates
every state of a run to the one it is in. -/
theorem rel {R : σ → σ → Prop} (hrefl : ∀ s, R s s) (htrans : ∀ a b c, R a b → R b c → R a c)
    (hstep : ∀ h s e s', Run step guard init h s → guard h s e → step s e = some s' → R s s')
    (hr : Run step guard init h s) {t : σ} (ht : t ∈ h.states s) : R t s := by
  induction hr with
  | start hi => simp at ht; subst ht; exact hrefl _
  | @step h s s' e hr hg hs ih =>
    rcases List.mem_cons.1 ht with rfl | ht
    · exact hrefl _
    · exact htrans _ _ _ (ih ht) (hstep _ _ _ _ hr hg hs)

/-- Such a relation relates any earlier state of a run to any later one. -/
theorem pairwise {R : σ → σ → Prop} (hrefl : ∀ s, R s s)
    (htrans : ∀ a b c, R a b → R b c → R a c)
    (hstep : ∀ h s e s', Run step guard init h s → guard h s e → step s e = some s' → R s s')
    (hr : Run step guard init h s) : (h.states s).Pairwise fun later earlier => R earlier later := by
  induction hr with
  | start hi => exact List.pairwise_singleton _ _
  | @step h s s' e hr hg hs ih =>
    refine List.Pairwise.cons (fun t ht => ?_) ih
    exact htrans _ _ _ (hr.rel hrefl htrans hstep ht) (hstep _ _ _ _ hr hg hs)

/-- A step of a run leads to a state that such a relation relates to every later one. -/
theorem rel_after {R : σ → σ → Prop} (hrefl : ∀ s, R s s) (htrans : ∀ a b c, R a b → R b c → R a c)
    (hstep : ∀ h s e s', Run step guard init h s → guard h s e → step s e = some s' → R s s')
    {later h' : History σ ε} {t : σ} {e : ε} (hr : Run step guard init (later ++ (t, e) :: h') s) :
    ∃ t', step t e = some t' ∧ ∀ u ∈ later.states s, R t' u := by
  induction later generalizing s with
  | nil =>
    cases hr with
    | step hr hg hs => exact ⟨s, hs, fun u hu => by simp at hu; exact hu ▸ hrefl s⟩
  | cons p later ih =>
    cases hr with
    | step hr hg hs =>
      obtain ⟨t', ht, hall⟩ := ih hr
      refine ⟨t', ht, fun u hu => ?_⟩
      rcases List.mem_cons.1 hu with rfl | hu
      · exact htrans _ _ _ (hall _ (by simp)) (hstep _ _ _ _ hr hg hs)
      · exact hall u hu

/-- A step of a run starts where a run ends, and meets the guard. -/
theorem of_suffix (hr : Run step guard init h s) {h' : History σ ε} {t : σ} {e : ε}
    (hs : (t, e) :: h' <:+ h) : Run step guard init h' t ∧ guard h' t e := by
  induction hr with
  | start hi => cases List.suffix_nil.1 hs
  | @step h s s' e' hr hg hx ih =>
    rcases List.suffix_cons_iff.1 hs with heq | hs
    · cases heq
      exact ⟨hr, hg⟩
    · exact ih hs

/-- A run whose steps all meet another guard is a run under that one. -/
theorem restrict (hr : Run step guard init h s)
    (hall : ∀ t e h', (t, e) :: h' <:+ h → guard' h' t e) : Run step guard' init h s := by
  induction hr with
  | start hi => exact .start hi
  | @step h s s' e hr hg hx ih =>
    refine .step (ih fun t e h' hs => hall t e h' ?_) (hall s e h (List.suffix_refl _)) hx
    exact hs.trans (List.suffix_cons _ _)

end Run

section Follow

variable (step : σ → ε → Option σ) (guard : History σ ε → σ → ε → Prop)
  [∀ h s e, Decidable (guard h s e)]

/-- Follow a list of events, oldest first, from a state with its history, as long as they meet the
guard. -/
def follow : List ε → History σ ε → σ → Option (History σ ε × σ)
  | [], h, s => some (h, s)
  | e :: es, h, s =>
    if guard h s e then
      match step s e with
      | some s' => follow es ((s, e) :: h) s'
      | none => none
    else none

variable {step guard} {init : σ → Prop}

/-- Events that can be followed extend a run. -/
theorem Run.follow {es : List ε} {h h' : History σ ε} {s s' : σ}
    (hr : Run step guard init h s) (hf : Rdsctl.follow step guard es h s = some (h', s')) :
    Run step guard init h' s' := by
  induction es generalizing h s with
  | nil =>
    simp only [Rdsctl.follow, Option.some.injEq, Prod.mk.injEq] at hf
    obtain ⟨rfl, rfl⟩ := hf
    exact hr
  | cons e es ih =>
    simp only [Rdsctl.follow] at hf
    split at hf
    · next hg =>
      split at hf
      · next hs => exact ih (.step hr hg hs) hf
      · cases hf
    · cases hf

end Follow

end Rdsctl
