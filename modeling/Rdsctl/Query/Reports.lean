import Rdsctl.Ha.Text
import Rdsctl.Lib.Latch
import Mathlib.Data.String.Basic

/-!
# Scheduled reports

The loop of `start` in `src/report.rs`. It sleeps for a minute, reads the clock and generates the daily
report when the minute of the day is that of `RDSCTL_REPORT_HHMM`, on a Monday also the weekly one, and
prunes the reports once an hour. It keeps the day of the last daily and of the last weekly report and the
hour of the last pruning, so each is a latch (`daily_wake`, `weekly_wake`, `prunes_wake`).

The minute is only compared when the loop wakes up. As it sleeps for 60 seconds after its work, two
wake-ups are more than a minute apart and may step over the minute of the report; and a number such as
1275 is kept, which is no time of day. `reportedOnce_iff` says that nothing else goes wrong.
-/

namespace Rdsctl.Query

open Ha

/-! ## The clock -/

def DAY : Nat := 86400

def hhmmOf (secs : Nat) : Nat := secs % DAY / 3600 * 100 + secs % 3600 / 60

def parseHhmm (raw : String) : Nat :=
  match parseUInt (2 ^ 64) (trim raw.toList) with
  | some n => if n ≤ 2359 then n else 5
  | none => 5

def isMonday (secs : Nat) : Bool := (secs / DAY + 3) % 7 == 0

/-- The day is a Monday. Day 0, 1970-01-01, was a Thursday. -/
def Monday (day : Nat) : Prop := day % 7 = 4

instance (day : Nat) : Decidable (Monday day) := inferInstanceAs (Decidable (day % 7 = 4))

/-- A number `hh * 100 + mm` that is a time of day. -/
def TimeOfDay (hhmm : Nat) : Prop := hhmm / 100 < 24 ∧ hhmm % 100 < 60

instance (hhmm : Nat) : Decidable (TimeOfDay hhmm) :=
  inferInstanceAs (Decidable (hhmm / 100 < 24 ∧ hhmm % 100 < 60))

/-- The second at which a minute of a day begins. -/
def minuteOf (day hhmm : Nat) : Nat := day * DAY + hhmm / 100 * 3600 + hhmm % 100 * 60

theorem isMonday_iff {secs : Nat} : isMonday secs = true ↔ Monday (secs / DAY) := by
  simp only [isMonday, Monday, beq_iff_eq]
  omega

theorem timeOfDay_hhmmOf (secs : Nat) : TimeOfDay (hhmmOf secs) := by
  unfold TimeOfDay hhmmOf DAY
  omega

/-- A number is shown on a day in the minute that begins then, if it is a time of day. -/
theorem hhmmOf_eq_iff {day hhmm secs : Nat} : hhmmOf secs = hhmm ∧ secs / DAY = day ↔
    TimeOfDay hhmm ∧ minuteOf day hhmm ≤ secs ∧ secs < minuteOf day hhmm + 60 := by
  constructor
  · rintro ⟨rfl, rfl⟩
    refine ⟨timeOfDay_hhmmOf secs, ?_⟩
    unfold minuteOf hhmmOf DAY
    omega
  · unfold TimeOfDay minuteOf hhmmOf DAY
    omega

/-- The text is a number that `parseHhmm` keeps. -/
def Kept (raw : String) (hhmm : Nat) : Prop :=
  parseUInt (2 ^ 64) (trim raw.toList) = some hhmm ∧ hhmm ≤ 2359

theorem Kept.parse {raw : String} {hhmm : Nat} (h : Kept raw hhmm) : parseHhmm raw = hhmm := by
  rw [parseHhmm, h.1]
  exact if_pos h.2

/-! ## The loop -/

inductive RType
  | daily
  | weekly
deriving DecidableEq, Repr

/-- What the loop calls: `run_generate` or `prune_once`. -/
inductive ReportCall
  | generate (rtype : RType)
  | prune
deriving DecidableEq, Repr

/-- The variables of the loop, and its calls with the times of the wake-ups they came at. -/
structure ReportLoop where
  dailyDay : Option Nat
  weeklyDay : Option Nat
  pruneHour : Option Nat
  calls : List (ReportCall × Nat)
deriving DecidableEq, Repr

namespace ReportLoop

def init : ReportLoop := ⟨none, none, none, []⟩

def called (s : ReportLoop) (c : ReportCall) (now : Nat) : ReportLoop :=
  { s with calls := s.calls ++ [(c, now)] }

def dailyReport (s : ReportLoop) (now : Nat) : ReportLoop :=
  if s.dailyDay ≠ some (now / DAY) then
    called { s with dailyDay := some (now / DAY) } (.generate .daily) now
  else s

def weeklyReport (s : ReportLoop) (now : Nat) : ReportLoop :=
  if isMonday now ∧ s.weeklyDay ≠ some (now / DAY) then
    called { s with weeklyDay := some (now / DAY) } (.generate .weekly) now
  else s

def hourlyPrune (s : ReportLoop) (now : Nat) : ReportLoop :=
  if s.pruneHour ≠ some (now / 3600) then
    called { s with pruneHour := some (now / 3600) } .prune now
  else s

/-- The body of the loop behind the sleep, where the clock reads `now`. -/
def wake (target : Nat) (s : ReportLoop) (now : Nat) : ReportLoop :=
  hourlyPrune (if hhmmOf now = target then weeklyReport (dailyReport s now) now else s) now

/-- `start` with the text of `RDSCTL_REPORT_HHMM`, after these wake-ups. -/
def start (raw : String) (wakes : List Nat) : ReportLoop :=
  wakes.foldl (wake (parseHhmm raw)) init

/-- The times of the calls of a kind. -/
def timesOf (s : ReportLoop) (c : ReportCall) : List Nat := (s.calls.filter (·.1 = c)).map (·.2)

/-- How often a report of the type was generated on a day. -/
def generated (s : ReportLoop) (rtype : RType) (day : Nat) : Nat :=
  (s.timesOf (.generate rtype)).countP (· / DAY = day)

/-! ## Its three latches -/

def daily (s : ReportLoop) : Latch.State Nat Nat := ⟨s.dailyDay, s.timesOf (.generate .daily)⟩

def weekly (s : ReportLoop) : Latch.State Nat Nat := ⟨s.weeklyDay, s.timesOf (.generate .weekly)⟩

def prunes (s : ReportLoop) : Latch.State Nat Nat := ⟨s.pruneHour, s.timesOf .prune⟩

end ReportLoop

def dailyLatch (target : Nat) : Latch Nat Nat where
  period := (· / DAY)
  due now := hhmmOf now = target

def weeklyLatch (target : Nat) : Latch Nat Nat where
  period := (· / DAY)
  due now := hhmmOf now = target ∧ isMonday now

def pruneLatch : Latch Nat Nat where
  period := (· / 3600)
  due _ := true

namespace ReportLoop

variable {s : ReportLoop} {raw : String} {target now : Nat} {wakes : List Nat}

theorem daily_dailyReport (h : hhmmOf now = target) :
    (s.dailyReport now).daily = (dailyLatch target).poll s.daily now := by
  unfold dailyReport Latch.poll
  rcases eq_or_ne s.dailyDay (some (now / DAY)) with hd | hd
  · simp [dailyLatch, daily, hd]
  · simp [dailyLatch, daily, timesOf, called, h, hd]

theorem weekly_weeklyReport (h : hhmmOf now = target) :
    (s.weeklyReport now).weekly = (weeklyLatch target).poll s.weekly now := by
  unfold weeklyReport Latch.poll
  rcases eq_or_ne s.weeklyDay (some (now / DAY)) with hd | hd
  · simp [weeklyLatch, weekly, hd]
  · cases hm : isMonday now with
    | false => simp [weeklyLatch, hm]
    | true => simp [weeklyLatch, weekly, timesOf, called, h, hm, hd]

theorem prunes_hourlyPrune : (s.hourlyPrune now).prunes = pruneLatch.poll s.prunes now := by
  unfold hourlyPrune Latch.poll
  rcases eq_or_ne s.pruneHour (some (now / 3600)) with hh | hh
  · simp [pruneLatch, prunes, hh]
  · simp [pruneLatch, prunes, timesOf, called, hh]

@[simp] theorem daily_weeklyReport : (s.weeklyReport now).daily = s.daily := by
  unfold weeklyReport
  split
  · simp [daily, timesOf, called]
  · rfl

@[simp] theorem daily_hourlyPrune : (s.hourlyPrune now).daily = s.daily := by
  unfold hourlyPrune
  split
  · simp [daily, timesOf, called]
  · rfl

@[simp] theorem weekly_dailyReport : (s.dailyReport now).weekly = s.weekly := by
  unfold dailyReport
  split
  · simp [weekly, timesOf, called]
  · rfl

@[simp] theorem weekly_hourlyPrune : (s.hourlyPrune now).weekly = s.weekly := by
  unfold hourlyPrune
  split
  · simp [weekly, timesOf, called]
  · rfl

@[simp] theorem prunes_dailyReport : (s.dailyReport now).prunes = s.prunes := by
  unfold dailyReport
  split
  · simp [prunes, timesOf, called]
  · rfl

@[simp] theorem prunes_weeklyReport : (s.weeklyReport now).prunes = s.prunes := by
  unfold weeklyReport
  split
  · simp [prunes, timesOf, called]
  · rfl

theorem daily_wake : (wake target s now).daily = (dailyLatch target).poll s.daily now := by
  unfold wake
  rw [daily_hourlyPrune]
  split
  case isTrue h => rw [daily_weeklyReport, daily_dailyReport h]
  case isFalse h => simp [Latch.poll, dailyLatch, h]

theorem weekly_wake : (wake target s now).weekly = (weeklyLatch target).poll s.weekly now := by
  unfold wake
  rw [weekly_hourlyPrune]
  split
  case isTrue h => rw [weekly_weeklyReport h, weekly_dailyReport]
  case isFalse h => simp [Latch.poll, weeklyLatch, h]

theorem prunes_wake : (wake target s now).prunes = pruneLatch.poll s.prunes now := by
  unfold wake
  rw [prunes_hourlyPrune]
  split
  · rw [prunes_weeklyReport, prunes_dailyReport]
  · rfl

/-- Each is polled at every wake-up. -/
theorem daily_start : (start raw wakes).daily = (dailyLatch (parseHhmm raw)).run wakes :=
  (List.foldl_hom daily fun _ _ => daily_wake.symm).symm

theorem weekly_start : (start raw wakes).weekly = (weeklyLatch (parseHhmm raw)).run wakes :=
  (List.foldl_hom weekly fun _ _ => weekly_wake.symm).symm

theorem prunes_start : (start raw wakes).prunes = pruneLatch.run wakes :=
  (List.foldl_hom prunes fun _ _ => prunes_wake.symm).symm

/-- Once on a day with a wake-up in its minute. -/
theorem generated_daily (h : wakes.Pairwise (· ≤ ·)) (day : Nat) :
    (start raw wakes).generated .daily day =
      if (dailyLatch (parseHhmm raw)).DueIn wakes day then 1 else 0 := by
  rw [← Latch.countP_runs (h.imp fun hle => Nat.div_le_div_right hle), ← daily_start]
  rfl

theorem generated_weekly (h : wakes.Pairwise (· ≤ ·)) (day : Nat) :
    (start raw wakes).generated .weekly day =
      if (weeklyLatch (parseHhmm raw)).DueIn wakes day then 1 else 0 := by
  rw [← Latch.countP_runs (h.imp fun hle => Nat.div_le_div_right hle), ← weekly_start]
  rfl

/-- **The calls of the loop.** Each report comes once in a day it is due in, and reports are pruned once
in an hour with a wake-up; else never. -/
theorem calls_exact (h : wakes.Pairwise (· ≤ ·)) (t : Nat) :
    (start raw wakes).generated .daily t =
        (if (dailyLatch (parseHhmm raw)).DueIn wakes t then 1 else 0) ∧
      (start raw wakes).generated .weekly t =
        (if (weeklyLatch (parseHhmm raw)).DueIn wakes t then 1 else 0) ∧
      ((start raw wakes).timesOf .prune).countP (· / 3600 = t) =
        if pruneLatch.DueIn wakes t then 1 else 0 := by
  refine ⟨generated_daily h t, generated_weekly h t, ?_⟩
  rw [← Latch.countP_runs (h.imp fun hle => Nat.div_le_div_right hle), ← prunes_start]
  rfl

theorem calls_exact_minute : (start "" [299, 300, 330]).generated .daily 0 = 1 :=
  (calls_exact (by decide) 0).1.trans (by decide)

end ReportLoop

theorem dailyLatch_dueIn {target day : Nat} {wakes : List Nat} : (dailyLatch target).DueIn wakes day ↔
    TimeOfDay target ∧
      ∃ w ∈ wakes, minuteOf day target ≤ w ∧ w < minuteOf day target + 60 := by
  simp only [Latch.DueIn, dailyLatch, decide_eq_true_eq, hhmmOf_eq_iff]
  constructor
  · rintro ⟨w, hw, ht, hwin⟩
    exact ⟨ht, w, hw, hwin⟩
  · rintro ⟨ht, w, hw, hwin⟩
    exact ⟨w, hw, ht, hwin⟩

/-- On a Monday the weekly report is due with the daily one. -/
theorem weeklyLatch_dueIn {target day : Nat} {wakes : List Nat} (hm : Monday day) :
    (weeklyLatch target).DueIn wakes day ↔ (dailyLatch target).DueIn wakes day := by
  simp only [Latch.DueIn, weeklyLatch, dailyLatch, decide_eq_true_eq, isMonday_iff]
  constructor
  · rintro ⟨w, hw, ⟨hd, -⟩, rfl⟩
    exact ⟨w, hw, hd, rfl⟩
  · rintro ⟨w, hw, hd, rfl⟩
    exact ⟨w, hw, ⟨hd, hm⟩, rfl⟩

/-! ## Wake-ups -/

/-- The times at which the loop wakes up: a sleep of 60 seconds and less than another 60 seconds of
work lie between two. -/
structure WakeUps where
  times : List Nat
  gaps : times.IsChain fun a b => a + 60 ≤ b ∧ b < a + 120

namespace WakeUps

/-- Wake-ups at the same distance from each other, from the first second of 1970. -/
def every (gap : Nat) (h : 60 ≤ gap ∧ gap < 120) (n : Nat) : WakeUps where
  times := List.range' 0 n gap
  gaps := (List.isChain_range' 0 n gap).imp fun a b hb => by omega

theorem mem_every {gap n k : Nat} {h : 60 ≤ gap ∧ gap < 120} :
    k ∈ (every gap h n).times ↔ ∃ i < n, k = gap * i := by
  simp [every, List.mem_range']

variable (ws : WakeUps)

/-- The day lies between two wake-ups. -/
def Covers (day : Nat) : Prop :=
  (∃ w ∈ ws.times, w ≤ day * DAY) ∧ ∃ w ∈ ws.times, (day + 1) * DAY ≤ w

/-- No two wake-ups in a row step over the minute of the day. -/
def WatchesMinute (day hhmm : Nat) : Prop :=
  Watches (minuteOf day hhmm) (minuteOf day hhmm + 60) ws.times

theorem pairwise_le : ws.times.Pairwise (· ≤ ·) :=
  (ws.gaps.imp fun _ _ h => by omega : ws.times.IsChain (· ≤ ·)).pairwise

variable {ws} {day hhmm : Nat}

/-- On a day that is covered a wake-up is in the minute unless two step over it. -/
theorem exists_mem_minute_iff (hd : ws.Covers day) (ht : TimeOfDay hhmm) :
    (∃ w ∈ ws.times, minuteOf day hhmm ≤ w ∧ w < minuteOf day hhmm + 60) ↔
      ws.WatchesMinute day hhmm := by
  obtain ⟨⟨a, ha, hle⟩, b, hb, hge⟩ := hd
  have hlo : day * DAY ≤ minuteOf day hhmm := by
    unfold minuteOf
    omega
  have hhi : minuteOf day hhmm + 60 ≤ (day + 1) * DAY := by
    unfold TimeOfDay at ht
    unfold minuteOf DAY
    omega
  exact exists_mem_iff_watches ws.pairwise_le (by omega) ⟨a, ha, hle.trans hlo⟩
    ⟨b, hb, hhi.trans hge⟩

/-- Wake-ups that are at most a minute apart watch every minute. -/
theorem watchesMinute_of_gaps (h : ws.times.IsChain fun a b => b ≤ a + 60) :
    ws.WatchesMinute day hhmm :=
  h.imp fun a b hb => by omega

theorem covers_every {gap n : Nat} {h : 60 ≤ gap ∧ gap < 120} (hn : (day + 1) * DAY ≤ gap * n) :
    (every gap h (n + 1)).Covers day :=
  ⟨⟨0, mem_every.2 ⟨0, by omega, rfl⟩, Nat.zero_le _⟩, gap * n, mem_every.2 ⟨n, by omega, rfl⟩, hn⟩

end WakeUps

/-- The daily report is generated once on the day, and on a Monday the weekly one. -/
def ReportedOnce (s : ReportLoop) (day : Nat) : Prop :=
  s.generated .daily day = 1 ∧ (Monday day → s.generated .weekly day = 1)

/-- On a day that is covered the reports come once just when the number is a time of day and no two
wake-ups in a row step over its minute. -/
theorem reportedOnce_iff (raw : String) (hhmm : Nat) (hraw : Kept raw hhmm) (ws : WakeUps)
    (day : Nat) (hd : ws.Covers day) : ReportedOnce (ReportLoop.start raw ws.times) day ↔
      TimeOfDay hhmm ∧ ws.WatchesMinute day hhmm := by
  have hdue : (dailyLatch hhmm).DueIn ws.times day ↔ TimeOfDay hhmm ∧ ws.WatchesMinute day hhmm := by
    rw [dailyLatch_dueIn]
    exact and_congr_right fun ht => WakeUps.exists_mem_minute_iff hd ht
  unfold ReportedOnce
  rw [ReportLoop.generated_daily ws.pairwise_le, ReportLoop.generated_weekly ws.pairwise_le,
    hraw.parse, ← hdue]
  constructor
  · rintro ⟨h, -⟩
    by_contra hn
    simp [hn] at h
  · intro h
    refine ⟨if_pos h, fun hm => ?_⟩
    exact if_pos ((weeklyLatch_dueIn hm).2 h)

/-- 1970-01-05 was a Monday. -/
theorem reportedOnce_iff_every_minute :
    Monday 4 ∧ ReportedOnce (ReportLoop.start " 1205 " (WakeUps.every 60 (by decide) 7201).times) 4 :=
  ⟨by decide, (reportedOnce_iff " 1205 " 1205 ⟨by decide, by decide⟩ (.every 60 (by decide) 7201) 4
    (WakeUps.covers_every (by decide))).2 ⟨by decide,
      WakeUps.watchesMinute_of_gaps ((List.isChain_range' 0 7201 60).imp fun a b hb => by omega)⟩⟩

/-- Wake-ups every 90 seconds come at 00:04:30 and 00:06:00. -/
theorem stepsOver_default : ¬ ∀ (raw : String) (hhmm : Nat), Kept raw hhmm →
    ∀ (ws : WakeUps) (day : Nat), ws.Covers day →
      ReportedOnce (ReportLoop.start raw ws.times) day := by
  intro h
  have hkept : Kept "0005" 5 := ⟨by decide, by decide⟩
  have h₁ := (h "0005" 5 hkept (.every 90 (by decide) 961) 0 (WakeUps.covers_every (by decide))).1
  rw [ReportLoop.generated_daily (WakeUps.pairwise_le _), hkept.parse] at h₁
  have hdue : ¬ (dailyLatch 5).DueIn (WakeUps.every 90 (by decide) 961).times 0 := by
    rw [dailyLatch_dueIn]
    rintro ⟨-, w, hw, hwin⟩
    obtain ⟨i, -, rfl⟩ := WakeUps.mem_every.1 hw
    have hmin : minuteOf 0 5 = 300 := rfl
    omega
  rw [if_neg hdue] at h₁
  exact absurd h₁ (by decide)

end Rdsctl.Query
