import Mathlib.Order.Defs.Unbundled

/-!
# Computations whose effects survive a failure

`Fallible ε σ α` is a computation on a mutable state `σ` that may stop early with an error of
type `ε`. What it did to the state before the error stays done: this is a method of a mutable
object with early returns, not a transaction. `Fallible.exec` runs one, and the `exec` equations
reduce a run to the runs of its parts. `Fallible.Respects` is the two-state rule: a preorder that
every primitive step respects is respected by the whole computation, whether it fails or not.
`Fallible.Keeps` is the one-state rule: an invariant with what is known of the value returned.
-/

namespace Rdsctl

/-- A computation on a mutable state that may stop early and keeps its effects when it does. -/
abbrev Fallible (ε σ α : Type) : Type := ExceptT ε (StateM σ) α

namespace Fallible

variable {ε σ τ α β : Type}

/-- Run a computation: its outcome, and the state it leaves. -/
def exec (m : Fallible ε σ α) (s : σ) : Except ε α × σ := m s

/-- A computation that changes the state by `f`. -/
def update (f : σ → σ) : Fallible ε σ Unit := modify f

/-- Run a computation on a component of the state. -/
def zoom (view : σ → τ) (put : τ → σ → σ) (m : Fallible ε τ α) : Fallible ε σ α := fun s =>
  ((exec m (view s)).1, put (exec m (view s)).2 s)

/-- Run a computation and go on whatever its outcome. -/
def ignore (m : Fallible ε σ α) : Fallible ε σ Unit := fun s => (.ok (), (exec m s).2)

/-- Run a computation and go on with its outcome. -/
def attempt (m : Fallible ε σ α) : Fallible ε σ (Except ε α) := fun s =>
  (.ok (exec m s).1, (exec m s).2)

/-- Run a computation and, if it fails, change the state by `f` before passing the error on. -/
def onError (m : Fallible ε σ α) (f : σ → σ) : Fallible ε σ α := fun s =>
  match exec m s with
  | (.ok a, s') => (.ok a, s')
  | (.error e, s') => (.error e, f s')

/-! ## Runs of the primitives -/

@[simp] theorem exec_pure (a : α) (s : σ) :
    exec (pure a : Fallible ε σ α) s = (.ok a, s) := rfl

@[simp] theorem exec_throw (e : ε) (s : σ) :
    exec (throw e : Fallible ε σ α) s = (.error e, s) := rfl

@[simp] theorem exec_get (s : σ) : exec (get : Fallible ε σ σ) s = (.ok s, s) := rfl

@[simp] theorem exec_update (f : σ → σ) (s : σ) :
    exec (update f : Fallible ε σ Unit) s = (.ok (), f s) := rfl

@[simp] theorem exec_zoom (view : σ → τ) (put : τ → σ → σ) (m : Fallible ε τ α) (s : σ) :
    exec (zoom view put m) s = ((exec m (view s)).1, put (exec m (view s)).2 s) := rfl

@[simp] theorem exec_attempt (m : Fallible ε σ α) (s : σ) :
    exec (attempt m) s = (.ok (exec m s).1, (exec m s).2) := rfl

@[simp] theorem exec_ignore (m : Fallible ε σ α) (s : σ) :
    exec (ignore m) s = (.ok (), (exec m s).2) := rfl

/-- A run of `m >>= f` runs `m`, and then `f` unless `m` stopped early. -/
theorem exec_bind (m : Fallible ε σ α) (f : α → Fallible ε σ β) (s : σ) :
    exec (m >>= f) s =
      match exec m s with
      | (.ok a, s') => exec (f a) s'
      | (.error e, s') => (.error e, s') := by
  show (ExceptT.bind m f : ExceptT ε (StateM σ) β) s = _
  unfold exec ExceptT.bind ExceptT.mk ExceptT.bindCont
  simp only [bind, StateT.bind]
  rcases h : m s with ⟨(e | a), s'⟩ <;> rfl

/-- A run of `m >>= f` after `m` succeeded. -/
theorem exec_bind_ok {m : Fallible ε σ α} {f : α → Fallible ε σ β} {s s' : σ} {a : α}
    (h : exec m s = (.ok a, s')) : exec (m >>= f) s = exec (f a) s' := by
  rw [exec_bind, h]

/-- A run of `m >>= f` after `m` failed. -/
theorem exec_bind_error {m : Fallible ε σ α} {f : α → Fallible ε σ β} {s s' : σ} {e : ε}
    (h : exec m s = (.error e, s')) : exec (m >>= f) s = (.error e, s') := by
  rw [exec_bind, h]

@[simp] theorem exec_get_bind (f : σ → Fallible ε σ β) (s : σ) :
    exec (get >>= f) s = exec (f s) s := by rw [exec_bind]; rfl

@[simp] theorem exec_update_bind (g : σ → σ) (f : Unit → Fallible ε σ β) (s : σ) :
    exec (update g >>= f) s = exec (f ()) (g s) := by rw [exec_bind]; rfl

@[simp] theorem exec_ignore_bind (m : Fallible ε σ α) (f : Unit → Fallible ε σ β) (s : σ) :
    exec (ignore m >>= f) s = exec (f ()) (exec m s).2 := by rw [exec_bind]; rfl

@[simp] theorem exec_attempt_bind (m : Fallible ε σ α) (f : Except ε α → Fallible ε σ β) (s : σ) :
    exec (attempt m >>= f) s = exec (f (exec m s).1) (exec m s).2 := by rw [exec_bind]; rfl

/-- A failing run passes its error on after the repair. -/
theorem exec_onError (m : Fallible ε σ α) (f : σ → σ) (s : σ) :
    exec (onError m f) s =
      match exec m s with
      | (.ok a, s') => (.ok a, s')
      | (.error e, s') => (.error e, f s') := rfl

theorem exec_ite (c : Prop) [Decidable c] (m₁ m₂ : Fallible ε σ α) (s : σ) :
    exec (if c then m₁ else m₂) s = if c then exec m₁ s else exec m₂ s := by
  split <;> rfl

/-! ## What a successful run returns -/

/-- Every run of `m` that succeeds returns a value with `P`. -/
def Returns (P : α → Prop) (m : Fallible ε σ α) : Prop := ∀ s a, (exec m s).1 = .ok a → P a

namespace Returns

variable {P : β → Prop}

theorem pure {b : β} (h : P b) : Returns P (Pure.pure b : Fallible ε σ β) := by
  intro s a ha
  cases ha
  exact h

theorem throw (e : ε) : Returns P (MonadExcept.throw e : Fallible ε σ β) := by
  intro s a ha
  cases ha

theorem bind {m : Fallible ε σ α} {f : α → Fallible ε σ β} (hf : ∀ a, Returns P (f a)) :
    Returns P (m >>= f) := by
  intro s b hb
  rw [exec_bind] at hb
  rcases h : exec m s with ⟨(e | a), s'⟩
  · rw [h] at hb; cases hb
  · rw [h] at hb; exact hf a s' b hb

theorem ite {c : Prop} [Decidable c] {m₁ m₂ : Fallible ε σ β}
    (h₁ : Returns P m₁) (h₂ : Returns P m₂) : Returns P (if c then m₁ else m₂) := by
  split
  · exact h₁
  · exact h₂

end Returns

/-! ## Preorders that a computation respects -/

/-- Every run of `m` moves the state along `R`, also when it fails. -/
def Respects (R : σ → σ → Prop) (m : Fallible ε σ α) : Prop := ∀ s, R s (exec m s).2

namespace Respects

variable {R : σ → σ → Prop}

theorem pure [Std.Refl R] (a : α) : Respects R (Pure.pure a : Fallible ε σ α) :=
  fun s => Std.Refl.refl s

theorem throw [Std.Refl R] (e : ε) :
    Respects R (MonadExcept.throw e : Fallible ε σ α) := fun s => Std.Refl.refl s

theorem get [Std.Refl R] : Respects R (MonadState.get : Fallible ε σ σ) :=
  fun s => Std.Refl.refl s

theorem bind [IsTrans σ R] {m : Fallible ε σ α} {f : α → Fallible ε σ β}
    (hm : Respects R m) (hf : ∀ a, Respects R (f a)) : Respects R (m >>= f) := by
  intro s
  have h1 := hm s
  rw [exec_bind]
  rcases h : exec m s with ⟨(e | a), s'⟩
  · rw [h] at h1; exact h1
  · rw [h] at h1; exact IsTrans.trans _ _ _ h1 (hf a s')

/-- After a read of the state only that state matters. -/
theorem read {f : σ → Fallible ε σ α} (h : ∀ s, R s (exec (f s) s).2) :
    Respects R (MonadState.get >>= f) := by
  intro s
  rw [exec_get_bind]
  exact h s

theorem ite {c : Prop} [Decidable c] {m₁ m₂ : Fallible ε σ α}
    (h₁ : Respects R m₁) (h₂ : Respects R m₂) : Respects R (if c then m₁ else m₂) := by
  split
  · exact h₁
  · exact h₂

theorem ignore {m : Fallible ε σ α} (h : Respects R m) : Respects R (Fallible.ignore m) := h

theorem onError [IsTrans σ R] {m : Fallible ε σ α} {f : σ → σ}
    (hm : Respects R m) (hf : ∀ s, R s (f s)) : Respects R (Fallible.onError m f) := by
  intro s
  have h1 := hm s
  rw [exec_onError]
  rcases h : exec m s with ⟨(e | a), s'⟩
  · rw [h] at h1; exact IsTrans.trans _ _ _ h1 (hf s')
  · rw [h] at h1; exact h1

end Respects

/-! ## Invariants that a computation keeps -/

/-- From a state with `I` every run of `m` ends in one, also when it fails, and what it returns
has `P`. -/
def Keeps (I : σ → Prop) (P : α → Prop) (m : Fallible ε σ α) : Prop :=
  ∀ s, I s → I (exec m s).2 ∧ ∀ a, (exec m s).1 = .ok a → P a

namespace Keeps

variable {I : σ → Prop} {P : α → Prop} {Q : β → Prop}

theorem pure {a : α} (h : P a) : Keeps I P (Pure.pure a : Fallible ε σ α) := by
  intro s hs
  refine ⟨hs, fun b hb => ?_⟩
  cases hb
  exact h

theorem throw (e : ε) : Keeps I P (MonadExcept.throw e : Fallible ε σ α) := by
  intro s hs
  exact ⟨hs, fun b hb => by cases hb⟩

theorem bind {m : Fallible ε σ α} {f : α → Fallible ε σ β} (hm : Keeps I P m)
    (hf : ∀ a, P a → Keeps I Q (f a)) : Keeps I Q (m >>= f) := by
  intro s hs
  obtain ⟨h1, h2⟩ := hm s hs
  rw [exec_bind]
  rcases h : exec m s with ⟨(e | a), s'⟩
  · rw [h] at h1
    exact ⟨h1, fun b hb => by cases hb⟩
  · rw [h] at h1 h2
    exact hf a (h2 a rfl) s' h1

/-- After a read of the state it is one with `I`. -/
theorem read {f : σ → Fallible ε σ α} (h : ∀ s, I s → Keeps I P (f s)) :
    Keeps I P (MonadState.get >>= f) := by
  intro s hs
  rw [exec_get_bind]
  exact h s hs s hs

theorem update {f : σ → σ} (h : ∀ s, I s → I (f s)) :
    Keeps I (fun _ => True) (Fallible.update f : Fallible ε σ Unit) :=
  fun s hs => ⟨h s hs, fun _ _ => trivial⟩

theorem ite {c : Prop} [Decidable c] {m₁ m₂ : Fallible ε σ α}
    (h₁ : Keeps I P m₁) (h₂ : Keeps I P m₂) : Keeps I P (if c then m₁ else m₂) := by
  split
  · exact h₁
  · exact h₂

theorem ignore {m : Fallible ε σ α} (h : Keeps I P m) :
    Keeps I (fun _ => True) (Fallible.ignore m) :=
  fun s hs => ⟨(h s hs).1, fun _ _ => trivial⟩

theorem onError {m : Fallible ε σ α} {f : σ → σ} (hm : Keeps I P m) (hf : ∀ s, I s → I (f s)) :
    Keeps I P (Fallible.onError m f) := by
  intro s hs
  obtain ⟨h1, h2⟩ := hm s hs
  rw [exec_onError]
  rcases h : exec m s with ⟨(e | a), s'⟩
  · rw [h] at h1
    exact ⟨hf s' h1, fun b hb => by cases hb⟩
  · rw [h] at h1 h2
    exact ⟨h1, h2⟩

end Keeps

end Fallible

end Rdsctl
