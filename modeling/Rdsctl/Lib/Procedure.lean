import Mathlib.Logic.Relation
import Rdsctl.Lib.Run

/-!
# Procedures that make calls

A procedure makes its calls one after another, and each takes effect or fails without one. It can be
cut off before any of them and be begun again, and others can act between two calls. `Outline` is
what holds before each call along every run; `Settles` says that a procedure comes to a good end when
no call that is left fails.
-/

namespace Rdsctl

open Relation

/-- A procedure on states `σ` with the calls `ι`, among others that make the changes `ε`. -/
structure Procedure (σ ι ε : Type) where
  /-- The call that it begins with, if any. -/
  first : σ → Option ι
  /-- What a call does, by whether it succeeds, and the call after it. -/
  call : ι → Bool → σ → σ × Option ι
  other : ε → σ → Option σ

inductive ProcedureEvent (ε : Type) where
  | again
  | answer (ok : Bool)
  | cut
  | other (e : ε)
deriving DecidableEq

/-- A state and the call that comes next. -/
structure Progress (σ ι : Type) where
  state : σ
  next : Option ι

namespace Procedure

variable {σ ι ε : Type} (p : Procedure σ ι ε)

/-- The procedure goes on after a call. -/
def after (i : ι) (ok : Bool) (s : σ) : Progress σ ι := ⟨(p.call i ok s).1, (p.call i ok s).2⟩

/-- The procedure begins. -/
def begun (s : σ) : Progress σ ι := ⟨s, p.first s⟩

def step (g : Progress σ ι) : ProcedureEvent ε → Option (Progress σ ι)
  | .again => if g.next.isNone then some (p.begun g.state) else none
  | .answer ok => g.next.map fun i => p.after i ok g.state
  | .cut => some ⟨g.state, none⟩
  | .other e => (p.other e g.state).map fun s => ⟨s, g.next⟩

/-- What others do between two calls, as far as it is admitted. -/
def Others (admits : σ → ε → Prop) : σ → σ → Prop :=
  ReflTransGen fun s s' => ∃ e, admits s e ∧ p.other e s = some s'

/-- The procedure ends with `P` when none of its calls fails any more, whatever others do of what is
admitted. -/
inductive Settles (admits : σ → ε → Prop) (P : σ → Prop) : Progress σ ι → Prop
  | done {s : σ} (h : P s) : Settles admits P ⟨s, none⟩
  | call {s : σ} {i : ι} (h : ∀ s', p.Others admits s s' → Settles admits P (p.after i true s')) :
      Settles admits P ⟨s, some i⟩

/-- What holds before each call, and when the procedure is not under way, as long as the steps meet a
guard. -/
structure Outline (guard : Progress σ ι → ProcedureEvent ε → Prop) (A : Option ι → σ → Prop) :
    Prop where
  again : ∀ s, A none s → A (p.first s) s
  answer : ∀ i ok s, A (some i) s → guard ⟨s, some i⟩ (.answer ok) →
    A (p.call i ok s).2 (p.call i ok s).1
  cut : ∀ i s, A (some i) s → guard ⟨s, some i⟩ .cut → A none s
  other : ∀ n e s s', A n s → p.other e s = some s' → guard ⟨s, n⟩ (.other e) → A n s'

variable {p} {guard : Progress σ ι → ProcedureEvent ε → Prop} {A : Option ι → σ → Prop}
  {admits : σ → ε → Prop} {P : σ → Prop}

/-- An outline holds in every state of a run. -/
theorem Outline.run (o : p.Outline guard A) {init : Progress σ ι → Prop}
    (h0 : ∀ g, init g → A g.next g.state) {h : History (Progress σ ι) (ProcedureEvent ε)}
    {g : Progress σ ι} (hr : Run p.step (fun _ => guard) init h g) :
    ∀ u ∈ h.states g, A u.next u.state := by
  refine hr.invariant (I := fun h g => ∀ u ∈ h.states g, A u.next u.state) (fun g hi u hu => ?_) ?_
  · obtain rfl : u = g := by simpa using hu
    exact h0 u hi
  · rintro h ⟨s, n⟩ e g' - ih hg hs u hu
    have hA : A n s := ih _ (History.mem_states.2 (.inl rfl))
    rcases List.mem_cons.1 hu with rfl | hu
    · cases e with
      | again =>
        cases n with
        | none => cases hs; exact o.again s hA
        | some i => cases hs
      | answer ok =>
        cases n with
        | none => cases hs
        | some i => cases hs; exact o.answer i ok s hA hg
      | cut =>
        cases hs
        cases n with
        | none => exact hA
        | some i => exact o.cut i s hA hg
      | other e =>
        obtain ⟨s', hs', rfl⟩ := Option.map_eq_some_iff.1 hs
        exact o.other n e s s' hA hs' hg
    · exact ih u hu

/-- A successful call has led to the end with `P`, or to a call of lower rank. -/
abbrev Leads (P : σ → Prop) (B : ι → σ → Prop) (rank : ι → Nat) (i : ι) : σ × Option ι → Prop
  | (s, none) => P s
  | (s, some j) => B j s ∧ rank j < rank i

/-- A procedure settles when each successful call leads to a later one or to the end. -/
theorem Settles.of_rank {B : ι → σ → Prop} (rank : ι → Nat)
    (hother : ∀ i e s s', B i s → admits s e → p.other e s = some s' → B i s')
    (hcall : ∀ i s, B i s → Leads P B rank i (p.call i true s)) {i : ι} {s : σ} (hB : B i s) :
    p.Settles admits P ⟨s, some i⟩ := by
  induction hn : rank i using Nat.strongRecOn generalizing i s with
  | ind n ih =>
    refine .call fun s' hs' => ?_
    have hB' : B i s' := by
      induction hs' with
      | refl => exact hB
      | tail _ hstep ih =>
        obtain ⟨e, had, he⟩ := hstep
        exact hother i e _ _ ih had he
    have hnext := hcall i s' hB'
    unfold Procedure.after
    generalize p.call i true s' = c at hnext ⊢
    obtain ⟨t, _ | j⟩ := c
    · exact .done hnext
    · exact ih _ (hn ▸ hnext.2) hnext.1 rfl

/-- Some calls of the procedure, all of them successful. -/
def succeed (p : Procedure σ ι ε) : Nat → Progress σ ι → Progress σ ι
  | 0, g => g
  | n + 1, g =>
    match g.next with
    | some i => succeed p n (p.after i true g.state)
    | none => g

/-- A procedure that settles ends well when its calls succeed and nobody else acts. -/
theorem Settles.succeed {g : Progress σ ι} (h : p.Settles admits P g) (n : Nat) :
    p.Settles admits P (p.succeed n g) := by
  induction n generalizing g with
  | zero => exact h
  | succ n ih =>
    cases h with
    | done h => exact .done h
    | call h => exact ih (h _ .refl)

/-- What a procedure that settles has come to when such calls have ended it. -/
theorem Settles.of_succeed {g : Progress σ ι} (h : p.Settles admits P g) {n : Nat}
    (hn : (p.succeed n g).next = none) : P (p.succeed n g).state := by
  have hs := h.succeed n
  generalize p.succeed n g = g' at hs hn
  cases hs with
  | done h => exact h
  | call h => cases hn

end Procedure

end Rdsctl
