import Rdsctl.Ha.Clock

/-!
# Skew seen from one side

A message shows the clock of its sender as it was when it left, so an observation without a round trip
is the sender's offset less the time the message took (`observe_clock`). The estimate is the smallest
of the fresh ones (`peer_offset_filtered`): an upper bound of the skew where the sender is behind, but
not where it is ahead.
-/

namespace Rdsctl.Ha

def CLOCK_VIOLATION_MIN_SAMPLES : Nat := 2

/-- A message from a peer whose clock is `theta` ahead, which takes `delay` ms. A stamp of zero stands
for none. -/
structure OneWay (theta : Int) where
  /-- when it is sent, by the clock of the receiver -/
  sent : Nat
  delay : Nat
  stamp : Nat
  stamp_eq : (stamp : Int) = sent + theta
  stamp_pos : 0 < stamp
  stamp_lt : stamp < 2 ^ 63
  arrival_lt : sent + delay < 2 ^ 63

namespace OneWay

variable {theta : Int}

def arrival (x : OneWay theta) : Nat := x.sent + x.delay

/-- What is recorded of a message. -/
def sample (x : OneWay theta) : ClockSample := ⟨theta - x.delay, theta - x.delay, 0, x.arrival⟩

/-- The message is not too old. -/
def Fresh (x : OneWay theta) (now : Nat) : Prop := now - x.arrival ≤ CLOCK_SAMPLE_TTL_MS

/-- The message took some time, but less than would make up for twice the offset. -/
def Hides (x : OneWay theta) : Prop := 0 < x.delay ∧ (x.delay : Int) < 2 * theta

/-- A sample is smaller than the offset exactly when its message hides it. -/
theorem hides_iff (x : OneWay theta) : x.Hides ↔ x.sample.offsetMs.natAbs < theta.natAbs := by
  unfold Hides sample
  dsimp only
  omega

end OneWay

namespace Node

variable {theta : Int}

/-- The fresh samples of a peer: how many are over a limit, and how many there are. -/
def peerOffsetCounts (n : Node) (peer : String) (limit now : Nat) : Nat × Nat :=
  match n.peerOffsetSamples[peer]? with
  | none => (0, 0)
  | some w =>
    let fresh := w.filter fun s => decide (now - s.atMs ≤ CLOCK_SAMPLE_TTL_MS)
    (fresh.countP fun s => decide (limit < s.offsetMs.natAbs), fresh.length)

def skewExceeded (n : Node) (now : Nat) : Bool :=
  n.peerOffsetSamples.keys.any fun peer =>
    decide (CLOCK_VIOLATION_MIN_SAMPLES ≤ (n.peerOffsetCounts peer n.cfg.maxSkewMs now).2) &&
      (n.peerOffsetFiltered peer now).any fun v => decide (n.cfg.maxSkewMs < v.natAbs)

theorem peerOffsetCounts_snd (n : Node) (peer : String) (limit now : Nat) :
    (n.peerOffsetCounts peer limit now).2 = (n.freshSamples peer now).length := by
  unfold peerOffsetCounts freshSamples samplesOf
  rw [Std.ExtTreeMap.getD_eq_getD_getElem?]
  cases n.peerOffsetSamples[peer]? with
  | none => rfl
  | some w => rfl

/-- The skew is exceeded when the estimate of some peer is, of which there are samples enough. -/
theorem skewExceeded_iff (n : Node) (now : Nat) : n.skewExceeded now = true ↔
    ∃ peer, CLOCK_VIOLATION_MIN_SAMPLES ≤ (n.freshSamples peer now).length ∧
      ∃ v, n.peerOffsetFiltered peer now = some v ∧ n.cfg.maxSkewMs < v.natAbs := by
  simp only [skewExceeded, List.any_eq_true, Std.ExtTreeMap.mem_keys, Bool.and_eq_true, decide_eq_true_eq,
    peerOffsetCounts_snd, Option.any_eq_true]
  refine exists_congr fun peer => ⟨And.right, fun h => ⟨?_, h⟩⟩
  by_contra hnone
  have hempty : n.samplesOf peer = [] := by
    rw [samplesOf, Std.ExtTreeMap.getD_eq_fallback hnone]
  have hlen := h.1
  simp [freshSamples, hempty, CLOCK_VIOLATION_MIN_SAMPLES] at hlen

/-! ## A sequence of messages -/

/-- The node after messages from a peer. -/
def observed (n : Node) (peer : String) (xs : List (OneWay theta)) : Node :=
  xs.foldl (fun n x => n.observeClock peer x.stamp x.arrival) n

/-- Those of a sequence that a window holds. -/
def windowOf {α : Type} (xs : List α) : List α := xs.drop (xs.length - CLOCK_SAMPLE_WINDOW)

theorem observeClock_eq (n : Node) (peer : String) (x : OneWay theta) :
    n.observeClock peer x.stamp x.arrival = n.pushSample peer x.sample := by
  have h := x.stamp_eq
  have ha : x.arrival < 2 ^ 63 := x.arrival_lt
  have hraw : rawOffset x.stamp x.arrival = theta - x.delay := by
    rw [rawOffset_of_small x.stamp_lt ha]
    unfold OneWay.arrival
    omega
  unfold observeClock
  rw [if_neg (Nat.ne_of_gt x.stamp_pos), hraw]
  rfl

/-- One more sample moves the window on. -/
theorem samplesOf_push_window {α : Type} {f : α → ClockSample} {n : Node} {peer : String} {xs : List α}
    (h : n.samplesOf peer = (windowOf xs).map f) (x : α) :
    (n.pushSample peer (f x)).samplesOf peer = (windowOf (xs ++ [x])).map f := by
  have hlen : ((windowOf xs).map f).length = min xs.length CLOCK_SAMPLE_WINDOW := by
    simp only [windowOf, List.length_map, List.length_drop]
    omega
  rw [samplesOf_pushSample_eq, h, hlen]
  unfold windowOf
  rw [List.length_append, List.length_singleton]
  split
  · next hfull =>
    have hge : CLOCK_SAMPLE_WINDOW ≤ xs.length := by omega
    rw [← List.map_tail, List.tail_drop, List.drop_append_of_le_length (by unfold CLOCK_SAMPLE_WINDOW; omega),
      List.map_append, Nat.sub_add_comm hge]
    rfl
  · next hroom =>
    have hlt : xs.length + 1 - CLOCK_SAMPLE_WINDOW = 0 := by omega
    have hlt' : xs.length - CLOCK_SAMPLE_WINDOW = 0 := by omega
    rw [hlt, hlt', List.drop_zero, List.drop_zero, List.map_append]
    rfl

theorem samplesOf_observed (n : Node) (peer : String) (xs : List (OneWay theta))
    (h0 : n.samplesOf peer = []) : (n.observed peer xs).samplesOf peer = (windowOf xs).map (·.sample) := by
  induction xs using List.reverseRecOn with
  | nil => exact h0
  | append_singleton xs x ih =>
    rw [observed, List.foldl_append, List.foldl_cons, List.foldl_nil, ← observed, observeClock_eq]
    exact samplesOf_push_window ih x

/-- The fresh samples are those of the fresh messages in the window. -/
theorem mem_freshSamples {n : Node} {peer : String} {xs : List (OneWay theta)} {now : Nat}
    (h0 : n.samplesOf peer = []) {s : ClockSample} :
    s ∈ (n.observed peer xs).freshSamples peer now ↔ ∃ x ∈ windowOf xs, x.Fresh now ∧ x.sample = s := by
  rw [freshSamples, samplesOf_observed n peer xs h0, List.mem_filter, List.mem_map, decide_eq_true_eq]
  constructor
  · rintro ⟨⟨x, hx, rfl⟩, hf⟩
    exact ⟨x, hx, hf, rfl⟩
  · rintro ⟨x, hx, hf, rfl⟩
    exact ⟨⟨x, hx, rfl⟩, hf⟩

/-- No estimate of the peer is below its offset, and an offset above the bound is found out by two fresh
samples. -/
def NeverHides (n : Node) (peer : String) (now : Nat) (theta : Int) : Prop :=
  (∀ v, n.peerOffsetFiltered peer now = some v → theta.natAbs ≤ v.natAbs) ∧
    (n.cfg.maxSkewMs < theta.natAbs → CLOCK_VIOLATION_MIN_SAMPLES ≤ (n.freshSamples peer now).length →
      n.skewExceeded now = true)

/-- Samples without round trips hide the offset unless they are all as large. -/
theorem neverHides_oneWay {n : Node} {peer : String} {now : Nat}
    (hz : ∀ s ∈ n.freshSamples peer now, s.rttMs = 0) :
    n.NeverHides peer now theta ↔
      ∀ s ∈ n.freshSamples peer now, theta.natAbs ≤ s.offsetMs.natAbs := by
  constructor
  · rintro ⟨h, -⟩ s hs
    obtain ⟨b, hb⟩ := exists_smallest (List.ne_nil_of_mem hs)
    have hle : b.offsetMs.natAbs ≤ s.offsetMs.natAbs :=
      List.le_of_mem_argmin (f := fun s : ClockSample => s.offsetMs.natAbs) hs hb
    exact (h b.offsetMs (by rw [peerOffsetFiltered_oneWay hz, hb]; rfl)).trans hle
  · intro h
    refine ⟨fun v hv => ?_, fun hskew htwo => (skewExceeded_iff n now).2 ⟨peer, htwo, ?_⟩⟩
    · rw [peerOffsetFiltered_oneWay hz] at hv
      obtain ⟨b, hb, rfl⟩ := Option.map_eq_some_iff.1 hv
      exact h b (List.argmin_mem hb)
    · obtain ⟨b, hb⟩ := exists_smallest (List.ne_nil_of_length_pos (Nat.lt_of_lt_of_le (by decide) htwo))
      refine ⟨b.offsetMs, by rw [peerOffsetFiltered_oneWay hz, hb]; rfl, ?_⟩
      exact Nat.lt_of_lt_of_le hskew (h b (List.argmin_mem hb))

/-- **What one-way observations hide.** A sequence of messages never hides the offset of its sender
exactly when none of the fresh ones in the window took some time, but less than twice the offset. -/
theorem neverHides_iff (n : Node) (peer : String) (xs : List (OneWay theta)) (now : Nat)
    (h0 : n.samplesOf peer = []) :
    (n.observed peer xs).NeverHides peer now theta ↔ ∀ x ∈ windowOf xs, x.Fresh now → ¬x.Hides := by
  have hz : ∀ s ∈ (n.observed peer xs).freshSamples peer now, s.rttMs = 0 := by
    intro s hs
    obtain ⟨x, -, -, rfl⟩ := (mem_freshSamples h0).1 hs
    rfl
  rw [neverHides_oneWay hz]
  constructor
  · intro h x hx hf hhides
    exact absurd ((x.hides_iff).1 hhides) (Nat.not_lt.2 (h _ ((mem_freshSamples h0).2 ⟨x, hx, hf, rfl⟩)))
  · intro h s hs
    obtain ⟨x, hx, hf, rfl⟩ := (mem_freshSamples h0).1 hs
    exact Nat.le_of_not_lt fun hlt => h x hx hf ((x.hides_iff).2 hlt)

/-- A peer two seconds behind, whose messages take a tenth of a second. -/
def behind : OneWay (-2000) where
  sent := 5000
  delay := 100
  stamp := 3000
  stamp_eq := by decide
  stamp_pos := by decide
  stamp_lt := by decide
  arrival_lt := by decide

/-- A peer two seconds ahead, whose messages take one second. -/
def ahead : OneWay 2000 where
  sent := 5000
  delay := 1000
  stamp := 7000
  stamp_eq := by decide
  stamp_pos := by decide
  stamp_lt := by decide
  arrival_lt := by decide

theorem neverHides_behind : (fresh.observed "n2" [behind, behind]).NeverHides "n2" 6000 (-2000) := by
  refine (neverHides_iff fresh "n2" [behind, behind] 6000 (by decide +kernel)).2 fun x _ _ => ?_
  unfold OneWay.Hides
  omega

/-- Half of the offset is hidden, and the rest is not above the bound. -/
theorem hides_ahead : ¬∀ (theta : Int) (xs : List (OneWay theta)) (now : Nat),
    (fresh.observed "n2" xs).NeverHides "n2" now theta := by
  intro hall
  have hest : (fresh.observed "n2" [ahead, ahead]).peerOffsetFiltered "n2" 6000 = some 1000 := by
    decide +kernel
  have hle := (hall 2000 [ahead, ahead] 6000).1 1000 hest
  exact absurd hle (by decide)

end Node
end Rdsctl.Ha
