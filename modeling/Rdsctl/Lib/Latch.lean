import Mathlib.Data.List.Chain
import Mathlib.Order.Lattice

/-!
# Running once a period

A loop polls a clock and runs a job when it is due. A latch keeps the period of the last run, so that
polls in order run the job once in each period it was due in, however often they come
(`countP_runs`).

A job that is due in a window of time runs when a poll is in the window. Polls from before the window
to behind it are so just when no two of them in a row step over it (`exists_mem_iff_watches`).
-/

namespace Rdsctl

/-- When a job is due, and the periods of which each runs it once. -/
structure Latch (τ π : Type) where
  period : τ → π
  due : τ → Bool

namespace Latch

/-- The period of the last run, and all the runs. -/
@[ext] structure State (τ π : Type) where
  last : Option π
  runs : List τ

variable {τ π : Type} (l : Latch τ π)

/-- It was due in the period at one of the times. -/
def DueIn (ts : List τ) (p : π) : Prop := ∃ t ∈ ts, l.due t ∧ l.period t = p

instance [DecidableEq π] (ts : List τ) (p : π) : Decidable (l.DueIn ts p) :=
  inferInstanceAs (Decidable (∃ t ∈ ts, l.due t ∧ l.period t = p))

theorem dueIn_append {ts : List τ} {t : τ} {p : π} :
    l.DueIn (ts ++ [t]) p ↔ l.DueIn ts p ∨ l.due t ∧ l.period t = p := by
  unfold DueIn
  constructor
  · rintro ⟨u, hu, h⟩
    rcases List.mem_append.1 hu with hu | hu
    · exact .inl ⟨u, hu, h⟩
    · rw [List.mem_singleton] at hu
      subst hu
      exact .inr h
  · rintro (⟨u, hu, h⟩ | h)
    · exact ⟨u, List.mem_append_left _ hu, h⟩
    · exact ⟨t, by simp, h⟩

/-! ## Runs -/

variable [LinearOrder π]

/-- A poll at some time. -/
def poll (s : State τ π) (t : τ) : State τ π :=
  if l.due t ∧ s.last ≠ some (l.period t) then ⟨some (l.period t), s.runs ++ [t]⟩ else s

/-- The polls of a loop, from the start. -/
def run (ts : List τ) : State τ π := ts.foldl l.poll ⟨none, []⟩

/-- What holds of a latch after polls: the last run was in the last period it was due in, and there
was one run in each such period. -/
structure Inv (ts : List τ) (s : State τ π) : Prop where
  last : ∀ p, s.last = some p → l.DueIn ts p
  newest : ∀ p, l.DueIn ts p → ∃ q, s.last = some q ∧ p ≤ q
  once : ∀ p, s.runs.countP (fun t => l.period t = p) = if l.DueIn ts p then 1 else 0

variable {l} {s : State τ π} {ts : List τ} {t : τ}

theorem Inv.nil : Inv l [] ⟨none, []⟩ where
  last := nofun
  newest := by simp [DueIn]
  once := by simp [DueIn]

/-- A poll that is not in an earlier period than those before it keeps this. -/
theorem Inv.poll (h : Inv l ts s) (ht : ∀ u ∈ ts, l.period u ≤ l.period t) :
    Inv l (ts ++ [t]) (l.poll s t) := by
  unfold Latch.poll
  split
  case isTrue hrun =>
    obtain ⟨hd, hlast⟩ := hrun
    -- an earlier run in this period would be the last one
    have hnew : ¬ l.DueIn ts (l.period t) := by
      intro hdue
      obtain ⟨q, hq, hle⟩ := h.newest _ hdue
      obtain ⟨u, hu, -, rfl⟩ := h.last q hq
      exact hlast (by rw [hq, le_antisymm (ht u hu) hle])
    refine ⟨?_, ?_, ?_⟩
    · rintro _ ⟨⟩
      exact l.dueIn_append.2 (.inr ⟨hd, rfl⟩)
    · intro p hp
      refine ⟨_, rfl, ?_⟩
      rcases l.dueIn_append.1 hp with ⟨u, hu, -, rfl⟩ | ⟨-, rfl⟩
      · exact ht u hu
      · exact le_rfl
    · intro p
      rw [List.countP_append, h.once p]
      rcases eq_or_ne (l.period t) p with rfl | hne
      · simp [dueIn_append, hnew, hd]
      · simp [dueIn_append, hne]
  case isFalse hrun =>
    have hdue : ∀ p, l.DueIn (ts ++ [t]) p ↔ l.DueIn ts p := by
      intro p
      rw [dueIn_append]
      refine ⟨?_, .inl⟩
      rintro (hp | ⟨hd, rfl⟩)
      · exact hp
      · -- it was due, so the last run was in its period
        exact h.last _ (not_not.1 fun hlast => hrun ⟨hd, hlast⟩)
    refine ⟨fun p hp => (hdue p).2 (h.last p hp), fun p hp => h.newest p ((hdue p).1 hp), ?_⟩
    intro p
    simp only [h.once p, hdue]

theorem inv_run (h : ts.Pairwise (l.period · ≤ l.period ·)) : Inv l ts (l.run ts) := by
  induction ts using List.reverseRecOn with
  | nil => exact .nil
  | append_singleton ts t ih =>
    obtain ⟨hts, -, ht⟩ := List.pairwise_append.1 h
    rw [run, List.foldl_append]
    exact (ih hts).poll fun u hu => ht u hu t (by simp)

/-- Polls in order run the job once in each period it was due in. -/
theorem countP_runs (h : ts.Pairwise (l.period · ≤ l.period ·)) (p : π) :
    (l.run ts).runs.countP (fun t => l.period t = p) = if l.DueIn ts p then 1 else 0 :=
  (inv_run h).once p

end Latch

/-! ## Windows -/

section Windows
variable {τ : Type} [LinearOrder τ] {lo hi : τ} {ts : List τ}

/-- No two times in a row step over the window from `lo` to before `hi`. -/
def Watches (lo hi : τ) (ts : List τ) : Prop := ts.IsChain fun a b => ¬ (a < lo ∧ hi ≤ b)

theorem watches_of_mem {t : τ} (hs : ts.Pairwise (· ≤ ·)) (ht : t ∈ ts) (hlo : lo ≤ t)
    (hhi : t < hi) : Watches lo hi ts := by
  refine List.isChain_iff_forall_rel_of_append_cons_cons.2 ?_
  rintro a b l₁ l₂ rfl ⟨ha, hb⟩
  obtain ⟨-, hab, hcross⟩ := List.pairwise_append.1 hs
  obtain ⟨-, hb₂⟩ := List.pairwise_cons.1 hab
  rcases List.mem_append.1 ht with ht | ht
  · exact absurd (hcross t ht a (by simp)) (not_le.2 (ha.trans_le hlo))
  · rcases List.mem_cons.1 ht with rfl | ht
    · exact absurd hlo (not_le.2 ha)
    · rcases List.mem_cons.1 ht with rfl | ht
      · exact absurd hb (not_le.2 hhi)
      · exact absurd ((List.pairwise_cons.1 hb₂).1 t ht) (not_le.2 (hhi.trans_le hb))

/-- Times that watch a window cannot get from before it to behind it without a time in it. -/
theorem exists_mem_of_watches {a : τ} (h : Watches lo hi (a :: ts)) (ha : a < lo)
    (hhi : ∃ t ∈ ts, hi ≤ t) : ∃ t ∈ ts, lo ≤ t ∧ t < hi := by
  induction ts generalizing a with
  | nil => simp at hhi
  | cons b ts ih =>
    obtain ⟨hab, hts⟩ := List.isChain_cons_cons.1 h
    have hb : b < hi := not_le.1 fun hb => hab ⟨ha, hb⟩
    rcases lt_or_ge b lo with hlo | hlo
    · obtain ⟨t, ht, hle⟩ := hhi
      rcases List.mem_cons.1 ht with rfl | ht
      · exact absurd hb (not_lt.2 hle)
      · obtain ⟨u, hu, hwin⟩ := ih hts hlo ⟨t, ht, hle⟩
        exact ⟨u, List.mem_cons_of_mem _ hu, hwin⟩
    · exact ⟨b, by simp, hlo, hb⟩

/-- Of times in order, from before a window to behind it, one is in it just when no two in a row step
over it. -/
theorem exists_mem_iff_watches (hs : ts.Pairwise (· ≤ ·)) (hwin : lo < hi) (hlo : ∃ t ∈ ts, t ≤ lo)
    (hhi : ∃ t ∈ ts, hi ≤ t) : (∃ t ∈ ts, lo ≤ t ∧ t < hi) ↔ Watches lo hi ts := by
  constructor
  · rintro ⟨t, ht, hle, hlt⟩
    exact watches_of_mem hs ht hle hlt
  · intro h
    cases ts with
    | nil => simp at hlo
    | cons a ts =>
      obtain ⟨u, hu, hul⟩ := hlo
      have hau : a ≤ lo := by
        rcases List.mem_cons.1 hu with rfl | hu
        · exact hul
        · exact ((List.pairwise_cons.1 hs).1 u hu).trans hul
      rcases hau.eq_or_lt with rfl | ha
      · exact ⟨a, by simp, le_rfl, hwin⟩
      · obtain ⟨t, ht, hle⟩ := hhi
        rcases List.mem_cons.1 ht with rfl | ht
        · exact absurd (ha.trans hwin) (not_lt.2 hle)
        · obtain ⟨v, hv, h⟩ := exists_mem_of_watches h ha ⟨t, ht, hle⟩
          exact ⟨v, List.mem_cons_of_mem _ hv, h⟩

end Windows

end Rdsctl
