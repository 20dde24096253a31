import Rdsctl.Ha.Raft

/-!
# The offset measured of a peer's clock

A node that sent a request at `sent` and hears the answer at `arrival` records what the peer's
clock showed, less its own time, plus half the round trip (`observe_clock_rtt`). The estimate of
the peer's offset is taken from the fresh samples of its window (`peer_offset_filtered`). A sample
whose round trip is zero reads there as one without a round trip.
-/

namespace Rdsctl.Ha

/-- A request that arrives after `there` ms at a peer whose clock is `theta` ahead, is answered at
once, and its answer that arrives after `back` ms. The round trip is one the correction covers. A
stamp of zero stands for none, so neither is. -/
structure RoundTrip (theta : Int) where
  sent : Nat
  there : Nat
  back : Nat
  stamp : Nat
  stamp_eq : (stamp : Int) = sent + there + theta
  sent_pos : 0 < sent
  stamp_pos : 0 < stamp
  stamp_lt : stamp < 2 ^ 63
  arrival_lt : sent + there + back < 2 ^ 63
  rtt_le : there + back ≤ 2 * CLOCK_RTT_CORRECTION_CAP_MS

namespace RoundTrip

variable {theta : Int}

def arrival (x : RoundTrip theta) : Nat := x.sent + x.there + x.back

def rtt (x : RoundTrip theta) : Nat := x.there + x.back

/-- What is recorded of a round trip. -/
def sample (x : RoundTrip theta) : ClockSample :=
  ⟨theta - x.back + (x.rtt / 2 : Nat), theta - x.back, x.rtt, x.arrival⟩

end RoundTrip

namespace Node

/-- What fits in 64 bits is converted as it is. -/
theorem wrapI64_of_small {x : Int} (h₁ : -2 ^ 63 ≤ x) (h₂ : x < 2 ^ 63) : wrapI64 x = x := by
  unfold wrapI64
  rw [Int.bmod_eq_of_le] <;> omega

/-- The window of a peer. -/
def samplesOf (n : Node) (peer : String) : List ClockSample := n.peerOffsetSamples.getD peer []

/-- The samples of a peer that are not too old. -/
def freshSamples (n : Node) (peer : String) (now : Nat) : List ClockSample :=
  (n.samplesOf peer).filter fun s => decide (now - s.atMs ≤ CLOCK_SAMPLE_TTL_MS)

theorem samplesOf_pushSample_eq (n : Node) (peer : String) (s : ClockSample) :
    (n.pushSample peer s).samplesOf peer =
      (if CLOCK_SAMPLE_WINDOW ≤ (n.samplesOf peer).length then (n.samplesOf peer).tail
        else n.samplesOf peer) ++ [s] := by
  unfold samplesOf pushSample
  exact Std.ExtTreeMap.getD_insert_self

theorem samplesOf_pushSample (n : Node) (peer : String) (s : ClockSample) :
    ∃ w, (∀ t ∈ w, t ∈ n.samplesOf peer) ∧ (n.pushSample peer s).samplesOf peer = w ++ [s] := by
  rw [samplesOf_pushSample_eq]
  split
  · exact ⟨_, fun t ht => List.mem_of_mem_tail ht, rfl⟩
  · exact ⟨_, fun t ht => ht, rfl⟩

/-- The estimate is read from the fresh samples: the one with the shortest round trip, or when
none has one, the smallest offset. -/
theorem peerOffsetFiltered_eq (n : Node) (peer : String) (now : Nat) :
    n.peerOffsetFiltered peer now =
      match ((n.freshSamples peer now).filter fun s => decide (0 < s.rttMs)).argmin (·.rttMs) with
      | some best => some best.offsetMs
      | none => ((n.freshSamples peer now).argmin (·.offsetMs.natAbs)).map (·.offsetMs) := by
  unfold peerOffsetFiltered freshSamples samplesOf
  rw [Std.ExtTreeMap.getD_eq_getD_getElem?]
  cases n.peerOffsetSamples[peer]? with
  | none => rfl
  | some w => rfl

variable {theta : Int}

/-- What one clock showed less what the other does, for clocks that read below `2 ^ 63`. -/
theorem rawOffset_of_small {sender now : Nat} (hs : sender < 2 ^ 63) (hn : now < 2 ^ 63) :
    rawOffset sender now = (sender : Int) - now := by
  have h₁ : wrapI64 (sender : Int) = sender := wrapI64_of_small (by omega) (by omega)
  have h₂ : wrapI64 (now : Int) = now := wrapI64_of_small (by omega) (by omega)
  unfold rawOffset
  rw [h₁, h₂, wrapI64_of_small (by omega) (by omega)]

theorem rawOffset_of_roundTrip (x : RoundTrip theta) :
    rawOffset x.stamp x.arrival = theta - x.back := by
  have h := x.stamp_eq
  have ha : x.arrival < 2 ^ 63 := x.arrival_lt
  rw [rawOffset_of_small x.stamp_lt ha]
  unfold RoundTrip.arrival
  omega

theorem observeClockRtt_eq (n : Node) (peer : String) (x : RoundTrip theta) :
    n.observeClockRtt peer x.stamp x.arrival x.sent = n.pushSample peer x.sample := by
  have h := x.stamp_eq
  have hs := x.stamp_lt
  have ha := x.arrival_lt
  have hr := x.rtt_le
  have hsent := x.sent_pos
  have hstamp := x.stamp_pos
  have hback : x.arrival - x.sent = x.rtt := by
    unfold RoundTrip.arrival RoundTrip.rtt
    omega
  have hcorr : min (x.rtt / 2) CLOCK_RTT_CORRECTION_CAP_MS = x.rtt / 2 := by
    unfold RoundTrip.rtt
    omega
  have hsat : satAddI64 (theta - x.back) (x.rtt / 2 : Nat) =
      theta - x.back + (x.rtt / 2 : Nat) := by
    unfold satAddI64 i64Max RoundTrip.rtt
    omega
  unfold observeClockRtt
  rw [if_neg (by omega)]
  simp only [rawOffset_of_roundTrip, hback, hcorr, hsat]
  rfl

/-- A sample is that of a round trip with a peer `theta` ahead. -/
def Measured (theta : Int) (s : ClockSample) : Prop := ∃ x : RoundTrip theta, s = x.sample

/-- A window of measured samples stays one. -/
theorem measured_observeClockRtt {n : Node} {peer : String} (x : RoundTrip theta)
    (h : ∀ s ∈ n.samplesOf peer, Measured theta s) :
    ∀ s ∈ (n.observeClockRtt peer x.stamp x.arrival x.sent).samplesOf peer, Measured theta s := by
  rw [observeClockRtt_eq]
  obtain ⟨w, hw, he⟩ := samplesOf_pushSample n peer x.sample
  intro s hs
  rw [he, List.mem_append, List.mem_singleton] at hs
  rcases hs with hs | rfl
  · exact h s (hw s hs)
  · exact ⟨x, rfl⟩

theorem Measured.error_le {s : ClockSample} (h : Measured theta s) :
    (s.offsetMs - theta).natAbs ≤ (s.rttMs + 1) / 2 := by
  obtain ⟨x, rfl⟩ := h
  simp only [RoundTrip.sample, RoundTrip.rtt]
  omega

/-- A round trip of no time measures the offset exactly. -/
theorem Measured.exact {s : ClockSample} (h : Measured theta s) (hs : s.rttMs = 0) :
    s.offsetMs = theta := by
  have := h.error_le
  omega

/-- The estimate is off by at most half the shortest round trip of the fresh samples. -/
def EstimateWithin (n : Node) (peer : String) (now : Nat) (theta : Int) : Prop :=
  ∃ v, n.peerOffsetFiltered peer now = some v ∧
    ∀ s ∈ n.freshSamples peer now, (v - theta).natAbs ≤ (s.rttMs + 1) / 2

/-- The first of the fresh samples with the shortest round trip, of those with one. -/
def Shortest (n : Node) (peer : String) (now : Nat) (s : ClockSample) : Prop :=
  s ∈ ((n.freshSamples peer now).filter fun s => decide (0 < s.rttMs)).argmin (·.rttMs)

theorem Shortest.mem {n : Node} {peer : String} {now : Nat} {s : ClockSample}
    (h : n.Shortest peer now s) : s ∈ n.freshSamples peer now ∧ 0 < s.rttMs := by
  simpa using List.argmin_mem h

theorem Shortest.le {n : Node} {peer : String} {now : Nat} {s t : ClockSample}
    (h : n.Shortest peer now s) (ht : t ∈ n.freshSamples peer now) (hpos : 0 < t.rttMs) :
    s.rttMs ≤ t.rttMs :=
  List.le_of_mem_argmin (List.mem_filter.2 ⟨ht, by simpa using hpos⟩) h

/-- The estimate when a fresh sample has a round trip: that of the shortest. It keeps the bound
unless a round trip of no time stands beside it. -/
theorem estimateWithin_of_shortest {n : Node} {peer : String} {now : Nat} {b : ClockSample}
    (hm : ∀ s ∈ n.freshSamples peer now, Measured theta s) (hb : n.Shortest peer now b) :
    n.EstimateWithin peer now theta ↔
      ((∃ s ∈ n.freshSamples peer now, s.rttMs = 0) → b.offsetMs = theta) := by
  have heq : n.peerOffsetFiltered peer now = some b.offsetMs := by
    rw [peerOffsetFiltered_eq, Option.mem_def.1 hb]
  constructor
  · rintro ⟨v, hv, hall⟩ ⟨s, hs, hzero⟩
    rw [heq, Option.some_inj] at hv
    have := hall s hs
    omega
  · intro h
    refine ⟨b.offsetMs, heq, fun s hs => ?_⟩
    have herr := (hm b hb.mem.1).error_le
    rcases Nat.eq_zero_or_pos s.rttMs with hzero | hpos
    · have := h ⟨s, hs, hzero⟩
      omega
    · have := hb.le hs hpos
      omega

/-- Without round trips the estimate is the smallest of the fresh samples. -/
theorem peerOffsetFiltered_oneWay {n : Node} {peer : String} {now : Nat}
    (hz : ∀ s ∈ n.freshSamples peer now, s.rttMs = 0) :
    n.peerOffsetFiltered peer now = ((n.freshSamples peer now).argmin (·.offsetMs.natAbs)).map (·.offsetMs) := by
  have hnone : ((n.freshSamples peer now).filter fun s => decide (0 < s.rttMs)) = [] := by
    rw [List.filter_eq_nil_iff]
    intro s hs
    simp [hz s hs]
  rw [peerOffsetFiltered_eq, hnone]
  rfl

theorem exists_smallest {n : Node} {peer : String} {now : Nat} (hne : n.freshSamples peer now ≠ []) :
    ∃ b, (n.freshSamples peer now).argmin (·.offsetMs.natAbs) = some b :=
  Option.ne_none_iff_exists'.1 fun hnil => hne (List.argmin_eq_none.1 hnil)

/-- The estimate when no fresh sample has a round trip: every one is exact. -/
theorem estimateWithin_of_zero {n : Node} {peer : String} {now : Nat}
    (hne : n.freshSamples peer now ≠ [])
    (hm : ∀ s ∈ n.freshSamples peer now, Measured theta s)
    (hz : ∀ s ∈ n.freshSamples peer now, s.rttMs = 0) : n.EstimateWithin peer now theta := by
  obtain ⟨b, hb⟩ := exists_smallest hne
  have hmem := List.argmin_mem hb
  refine ⟨b.offsetMs, ?_, fun s _ => ?_⟩
  · rw [peerOffsetFiltered_oneWay hz, hb]
    rfl
  · rw [(hm b hmem).exact (hz b hmem)]
    omega

/-- The offset recorded is off by at most half the round trip. The estimate is off by at most half
the shortest round trip of the fresh samples, unless one of them took no time and the shortest of
the others is not exact. -/
theorem offset_error (n : Node) (peer : String) (now : Nat) (x : RoundTrip theta)
    (hne : n.freshSamples peer now ≠ [])
    (hm : ∀ s ∈ n.freshSamples peer now, Measured theta s) :
    (∃ s, ((n.observeClockRtt peer x.stamp x.arrival x.sent).samplesOf peer).getLast? = some s ∧
        (s.offsetMs - theta).natAbs ≤ (x.rtt + 1) / 2) ∧
    (n.EstimateWithin peer now theta ↔
      ((∃ s ∈ n.freshSamples peer now, s.rttMs = 0) →
        ∀ b, n.Shortest peer now b → b.offsetMs = theta)) := by
  constructor
  · rw [observeClockRtt_eq]
    obtain ⟨w, -, he⟩ := samplesOf_pushSample n peer x.sample
    have hx : Measured theta x.sample := ⟨x, rfl⟩
    exact ⟨x.sample, by simp [he], hx.error_le⟩
  · cases hb : ((n.freshSamples peer now).filter fun s => decide (0 < s.rttMs)).argmin
        (·.rttMs) with
    | none =>
      have hz : ∀ s ∈ n.freshSamples peer now, s.rttMs = 0 := by
        intro s hs
        have h := List.filter_eq_nil_iff.1 (List.argmin_eq_none.1 hb) s hs
        simpa using h
      refine ⟨fun _ _ b h => ?_, fun _ => estimateWithin_of_zero hne hm hz⟩
      have := h.mem
      have := hz b h.mem.1
      omega
    | some b =>
      rw [estimateWithin_of_shortest hm hb]
      refine forall_congr' fun _ => ⟨fun h c hc => ?_, fun h => h b hb⟩
      unfold Shortest at hc
      rw [hb, Option.mem_some_iff] at hc
      exact hc ▸ h

/-- A request and its answer through the local network, within one millisecond. -/
def atOnce : RoundTrip 0 where
  sent := 1000
  there := 0
  back := 0
  stamp := 1000
  stamp_eq := by decide
  sent_pos := by decide
  stamp_pos := by decide
  stamp_lt := by decide
  arrival_lt := by decide
  rtt_le := by decide

/-- One whose answer was held up by 100 ms. -/
def heldUp : RoundTrip 0 where
  sent := 2000
  there := 0
  back := 100
  stamp := 2000
  stamp_eq := by decide
  sent_pos := by decide
  stamp_pos := by decide
  stamp_lt := by decide
  arrival_lt := by decide
  rtt_le := by decide

/-- A node as opened. -/
def fresh : Node :=
  Host.opened (RaftConfig.new "n1" 0 ["n1", "n2"]) ⟨0, [], zeroHash, 0⟩ (StateMachine.new 0 0)
    HardState.default none

/-- The node after a round trip with `n2`. -/
def afterTrip (n : Node) (x : RoundTrip theta) : Node :=
  n.observeClockRtt "n2" x.stamp x.arrival x.sent

theorem measured_afterTrips (x y : RoundTrip 0) (now : Nat) :
    ∀ s ∈ ((fresh.afterTrip x).afterTrip y).freshSamples "n2" now, Measured 0 s := by
  have h0 : ∀ s ∈ fresh.samplesOf "n2", Measured 0 s := by
    intro s hs
    cases (show s ∈ ([] : List ClockSample) from hs)
  intro s hs
  exact measured_observeClockRtt y (measured_observeClockRtt x h0) s (List.mem_filter.1 hs).1

theorem offset_error_twice :
    ((fresh.afterTrip heldUp).afterTrip heldUp).EstimateWithin "n2" 3000 0 := by
  have h := offset_error ((fresh.afterTrip heldUp).afterTrip heldUp) "n2" 3000 heldUp
    (by decide +kernel) (measured_afterTrips heldUp heldUp 3000)
  refine h.2.2 ?_
  rintro ⟨s, hs, hz⟩
  have hall : ∀ s ∈ ((fresh.afterTrip heldUp).afterTrip heldUp).freshSamples "n2" 3000,
      s.rttMs ≠ 0 := by decide +kernel
  exact absurd hz (hall s hs)

/-- A round trip of no time beside one of 100 ms: the estimate is off by 50 ms. -/
theorem offset_estimate_off :
    (∀ s ∈ ((fresh.afterTrip atOnce).afterTrip heldUp).freshSamples "n2" 3000, Measured 0 s) ∧
    ¬ ((fresh.afterTrip atOnce).afterTrip heldUp).EstimateWithin "n2" 3000 0 := by
  refine ⟨measured_afterTrips atOnce heldUp 3000, ?_⟩
  rintro ⟨v, hv, hall⟩
  have hoff : ((fresh.afterTrip atOnce).afterTrip heldUp).peerOffsetFiltered "n2" 3000 =
      some (-50) := by decide +kernel
  rw [hoff, Option.some_inj] at hv
  have hmem : atOnce.sample ∈
      ((fresh.afterTrip atOnce).afterTrip heldUp).freshSamples "n2" 3000 := by decide +kernel
  have := hall _ hmem
  subst hv
  exact absurd this (by decide)

end Node

end Rdsctl.Ha
