import Mathlib.Data.List.Nodup
import Mathlib.Data.Set.Finite.List
import Mathlib.Order.WellFounded
import Mathlib.Logic.Relation

/-!
# Running a dependency graph in waves

Jobs `ids` with dependencies `deps` are run wave by wave: a wave consists of the jobs that have not
run and whose dependencies all have. When a job of a wave fails, the wave is the last one. `plan`
computes which jobs are run and whether one of them fails; it knows nothing of the order in which
the jobs of a wave end.

`Startable` is what can be run at all when nothing fails. `plan` runs startable jobs only, all of
them when nothing fails, and a failing one when there is one (`plan_sound`).
-/

namespace Rdsctl.Waves

variable {α : Type} (ids : List α) (deps : α → List α) (fails : α → Bool)

/-- The jobs that can be run: they, their dependencies, and so on, are all among `ids`, and the
dependencies end. -/
inductive Startable : α → Prop
  | intro {a : α} (hmem : a ∈ ids) (hdeps : ∀ d ∈ deps a, Startable d) : Startable a

/-- A job depends on another. -/
def Dep (a d : α) : Prop := a ∈ ids ∧ d ∈ deps a

/-- No job depends on itself, directly or through others. -/
def Acyclic : Prop := ∀ a, ¬Relation.TransGen (Dep ids deps) a a

variable {ids deps fails} {done run : List α} {fuel : Nat} {failed : Bool}

/-- What `plan` builds up: jobs that are run once, after their dependencies, none of which fails. -/
structure Sound (ids : List α) (deps : α → List α) (fails : α → Bool) (run : List α) : Prop where
  mem : ∀ a ∈ run, a ∈ ids
  nodup : run.Nodup
  ended : ∀ a ∈ run, ∀ d ∈ deps a, d ∈ run ∧ fails d = false
  startable : ∀ a ∈ run, Startable ids deps a

theorem sound_nil : Sound ids deps fails [] where
  mem := by simp
  nodup := List.nodup_nil
  ended := by simp
  startable := by simp

/-- Jobs that run depend, through any number of others, on jobs that run and do not fail. -/
theorem Sound.trans (h : Sound ids deps fails run) {a d : α}
    (hd : Relation.TransGen (Dep ids deps) a d) (ha : a ∈ run) : d ∈ run ∧ fails d = false := by
  induction hd with
  | single hd => exact h.ended a ha _ hd.2
  | tail _ hd ih => exact h.ended _ ih.1 _ hd.2

/-- Dependencies of lower rank form no cycle. -/
theorem acyclic_of_rank (rank : α → Nat) (h : ∀ a ∈ ids, ∀ d ∈ deps a, rank d < rank a) :
    Acyclic ids deps := by
  have hlt : ∀ a d, Relation.TransGen (Dep ids deps) a d → rank d < rank a := by
    intro a d hd
    induction hd with
    | single hd => exact h a hd.1 _ hd.2
    | tail _ hd ih => exact Nat.lt_trans (h _ hd.1 _ hd.2) ih
  exact fun a ha => Nat.lt_irrefl _ (hlt a a ha)

/-- When the dependencies are among the jobs and form no cycle, every job is startable. -/
theorem startable_of_acyclic (hclosed : ∀ a ∈ ids, ∀ d ∈ deps a, d ∈ ids)
    (hacyc : Acyclic ids deps) : ∀ a ∈ ids, Startable ids deps a := by
  let R : {a // a ∈ ids} → {a // a ∈ ids} → Prop := fun d a =>
    Relation.TransGen (Dep ids deps) a.1 d.1
  have hfin : Finite {a // a ∈ ids} := List.finite_toSet ids
  have htrans : IsTrans _ R := ⟨fun _ _ _ h1 h2 => h2.trans h1⟩
  have hirrefl : Std.Irrefl R := ⟨fun a h => hacyc a.1 h⟩
  have hwf : WellFounded R := Finite.wellFounded_of_trans_of_irrefl R
  intro a ha
  have key : ∀ x : {a // a ∈ ids}, Startable ids deps x.1 := by
    intro x
    induction x using hwf.induction with
    | _ x ih =>
      exact .intro x.2 fun d hd =>
        ih ⟨d, hclosed x.1 x.2 d hd⟩ (.single ⟨x.2, hd⟩)
  exact key ⟨a, ha⟩

/-! ## The waves -/

section Plan

variable [DecidableEq α]

variable (ids deps fails) in
/-- The wave after the jobs `done`. -/
def next (done : List α) : List α :=
  ids.filter fun a => decide (a ∉ done ∧ ∀ d ∈ deps a, d ∈ done)

variable (ids deps fails) in
/-- The jobs that are run after `done`, those included, and whether one of them fails. `fuel` exceeds
the number of waves. -/
def plan : Nat → List α → Option (List α × Bool)
  | 0, _ => none
  | fuel + 1, done =>
    if next ids deps done = [] then some (done, false)
    else if (next ids deps done).any fails then some (done ++ next ids deps done, true)
    else plan fuel (done ++ next ids deps done)

theorem mem_next {a : α} :
    a ∈ next ids deps done ↔ a ∈ ids ∧ a ∉ done ∧ ∀ d ∈ deps a, d ∈ done := by
  simp [next]

theorem nodup_next (h : ids.Nodup) (done : List α) : (next ids deps done).Nodup := h.filter _

/-- A wave after jobs that did not fail. -/
theorem Sound.wave (hids : ids.Nodup) (h : Sound ids deps fails done)
    (hok : ∀ a ∈ done, fails a = false) :
    Sound ids deps fails (done ++ next ids deps done) where
  mem := by
    intro a ha
    rcases List.mem_append.1 ha with ha | ha
    · exact h.mem a ha
    · exact (mem_next.1 ha).1
  nodup := List.nodup_append'.2 ⟨h.nodup, nodup_next hids done,
    List.disjoint_left.2 fun a ha hn => (mem_next.1 hn).2.1 ha⟩
  ended := by
    intro a ha d hd
    have hdone : d ∈ done := by
      rcases List.mem_append.1 ha with ha | ha
      · exact (h.ended a ha d hd).1
      · exact (mem_next.1 ha).2.2 d hd
    exact ⟨List.mem_append_left _ hdone, hok d hdone⟩
  startable := by
    intro a ha
    rcases List.mem_append.1 ha with ha | ha
    · exact h.startable a ha
    · exact .intro (mem_next.1 ha).1 fun d hd => h.startable d ((mem_next.1 ha).2.2 d hd)

variable (ids deps) in
/-- The jobs of the first waves, when none of them fails. -/
def before : Nat → List α
  | 0 => []
  | k + 1 => before k ++ next ids deps (before k)

variable (ids deps) in
/-- The jobs of a wave, when none fails before. -/
def wave (k : Nat) : List α := next ids deps (before ids deps k)

theorem mem_before {a : α} {k : Nat} : a ∈ before ids deps k ↔ ∃ j < k, a ∈ wave ids deps j := by
  induction k with
  | zero => simp [before]
  | succ k ih =>
    rw [before, List.mem_append, ih]
    constructor
    · rintro (⟨j, hj, ha⟩ | ha)
      · exact ⟨j, Nat.lt_succ_of_lt hj, ha⟩
      · exact ⟨k, Nat.lt_succ_self k, ha⟩
    · rintro ⟨j, hj, ha⟩
      rcases Nat.lt_succ_iff_lt_or_eq.1 hj with hj | rfl
      · exact .inl ⟨j, hj, ha⟩
      · exact .inr ha

/-- After an empty wave there is no other. -/
theorem wave_eq_nil {j k : Nat} (hjk : j ≤ k) (h : wave ids deps j = []) : wave ids deps k = [] := by
  have hstay : before ids deps k = before ids deps j ∧ wave ids deps k = [] := by
    induction k, hjk using Nat.le_induction with
    | base => exact ⟨rfl, h⟩
    | succ k _ ih =>
      have hbefore : before ids deps (k + 1) = before ids deps j := by
        have hk : next ids deps (before ids deps k) = [] := ih.2
        rw [before, hk, List.append_nil, ih.1]
      refine ⟨hbefore, ?_⟩
      rw [wave, hbefore]
      exact h
  exact hstay.2

/-- When no wave is left, all startable jobs have run. -/
theorem mem_of_next_eq_nil {a : α} (hnil : next ids deps run = []) (ha : Startable ids deps a) :
    a ∈ run := by
  induction ha with
  | @intro a hmem _ ihd =>
    by_contra hnot
    have hnext : a ∈ next ids deps run := mem_next.2 ⟨hmem, hnot, ihd⟩
    rw [hnil] at hnext
    cases hnext

/-- The jobs that are run are sound, and at the end either one fails or all startable ones are
run. -/
theorem plan_sound (hids : ids.Nodup) (h : Sound ids deps fails done)
    (hok : ∀ a ∈ done, fails a = false) (hp : plan ids deps fails fuel done = some (run, failed)) :
    Sound ids deps fails run ∧ (failed = true → ∃ a ∈ run, fails a = true) ∧
      (failed = false → (∀ a ∈ run, fails a = false) ∧ ∀ a, Startable ids deps a → a ∈ run) := by
  induction fuel generalizing done with
  | zero => cases hp
  | succ fuel ih =>
    rw [plan] at hp
    split at hp
    · next hnil =>
      cases hp
      exact ⟨h, by simp, fun _ => ⟨hok, fun a ha => mem_of_next_eq_nil hnil ha⟩⟩
    · split at hp
      · next hany =>
        cases hp
        obtain ⟨a, ha, hf⟩ := List.any_eq_true.1 hany
        exact ⟨h.wave hids hok, fun _ => ⟨a, List.mem_append_right _ ha, hf⟩, by simp⟩
      · next hany =>
        refine ih (h.wave hids hok) (fun a ha => ?_) hp
        rcases List.mem_append.1 ha with ha | ha
        · exact hok a ha
        · simpa using fun hf => hany (List.any_eq_true.2 ⟨a, ha, hf⟩)

end Plan

end Rdsctl.Waves
