import Mathlib.Logic.Relation
import Rdsctl.Lib.Votes
import Rdsctl.Lib.LeaderLog

/-!
# Replication by elected leaders

The members of an electorate vote, lead and copy logs. `Replicas` is the state of such a system with
its history: every vote with the log it was cast on, every reign, what each member has acknowledged
in each term, what has been chosen, and how much of its log each member knows to be chosen.
`Replicas.Step` are the moves an implementation may make, and `Replicas.Inv` is kept by each of them
(`Step.inv`). A chosen prefix is in the log of every later leader (`Inv.complete_of_chosen`), two
chosen prefixes agree (`Inv.chosen_agree`), and what a member knows to be chosen stays in its log.
-/

namespace Rdsctl

/-- A function of two arguments, changed at one pair. -/
def update₂ {V α : Type} [DecidableEq V] (f : V → Nat → α) (v : V) (t : Nat) (a : α) : V → Nat → α :=
  Function.update f v (Function.update (f v) t a)

theorem update₂_self {V α : Type} [DecidableEq V] (f : V → Nat → α) (v : V) (t : Nat) (a : α) :
    update₂ f v t a v t = a := by
  simp [update₂]

theorem update₂_of_ne {V α : Type} [DecidableEq V] {f : V → Nat → α} {v v' : V} {t t' : Nat} {a : α}
    (h : v' ≠ v ∨ t' ≠ t) : update₂ f v t a v' t' = f v' t' := by
  unfold update₂
  by_cases hv : v' = v
  · subst hv
    rw [Function.update_self, Function.update_of_ne (h.resolve_left fun hn => hn rfl)]
  · rw [Function.update_of_ne hv]

/-- The members of a replicated log and their history. -/
structure Replicas (V E : Type) where
  /-- the term a member is in -/
  term : V → Nat
  log : V → List E
  cast : Votes V
  /-- the log a voter had when it voted -/
  shown : V → Nat → List E
  /-- the log a candidate stood with -/
  bid : V → Nat → Option (List E)
  reigns : Reigns V E
  /-- how much of the leader's log a member has acknowledged in a term -/
  acked : V → Nat → Nat
  /-- the leader of a term has had the first entries of its log acknowledged by a quorum -/
  chosen : Nat → Nat → Prop
  /-- how much of its log a member knows to be chosen -/
  known : V → Nat

namespace Replicas

variable {V E : Type}

/-- Nothing has happened. -/
def init : Replicas V E where
  term := fun _ => 0
  log := fun _ => []
  cast := fun _ _ => none
  shown := fun _ _ => []
  bid := fun _ _ => none
  reigns := fun _ => none
  acked := fun _ _ => 0
  chosen := fun _ _ => False
  known := fun _ => 0

/-- What is chosen with the first `k` entries of term `t`, for a member in term `u` whose log is
`ℓ`. -/
def Knows (s : Replicas V E) (u : Nat) (ℓ : List E) (k : Nat) : Prop :=
  k = 0 ∨ ∃ t m r, s.chosen t m ∧ s.reigns t = some r ∧ t ≤ u ∧ k ≤ m ∧ r.log.take k <+: ℓ

section Moves
variable [DecidableEq V]

/-- The member `v` moves to a later term. -/
def raise (s : Replicas V E) (v : V) (t : Nat) : Replicas V E :=
  { s with term := Function.update s.term v t }

/-- The member `v` stands in the next term and votes for itself. -/
def stand (s : Replicas V E) (v : V) : Replicas V E :=
  { s with
    term := Function.update s.term v (s.term v + 1)
    cast := s.cast.record v (s.term v + 1) v
    shown := update₂ s.shown v (s.term v + 1) (s.log v)
    bid := update₂ s.bid v (s.term v + 1) (some (s.log v)) }

/-- The member `v` votes for `c` in its term. -/
def vote (s : Replicas V E) (v c : V) : Replicas V E :=
  { s with
    cast := s.cast.record v (s.term v) c
    shown := update₂ s.shown v (s.term v) (s.log v) }

/-- The member `c` takes the lead in its term. -/
def elect (s : Replicas V E) (c : V) : Replicas V E :=
  { s with reigns := Function.update s.reigns (s.term c) (some ⟨c, s.log c, []⟩) }

/-- The leader `c` of the reign `r` adds an entry. -/
def append (s : Replicas V E) (c : V) (r : Reign V E) (e : E) : Replicas V E :=
  { s with
    log := Function.update s.log c (s.log c ++ [e])
    reigns := Function.update s.reigns (s.term c) (some ⟨r.leader, r.base, r.own ++ [e]⟩) }

/-- The member `v` takes over the log `ℓ`. -/
def accept (s : Replicas V E) (v : V) (ℓ : List E) : Replicas V E :=
  { s with log := Function.update s.log v ℓ }

/-- The member `v` acknowledges `k` entries in its term. -/
def ack (s : Replicas V E) (v : V) (k : Nat) : Replicas V E :=
  { s with acked := update₂ s.acked v (s.term v) (max (s.acked v (s.term v)) k) }

/-- The first `k` entries of term `t` are chosen. -/
def choose (s : Replicas V E) (t k : Nat) : Replicas V E :=
  { s with chosen := fun t' k' => s.chosen t' k' ∨ (t' = t ∧ k' = k) }

/-- The member `v` learns that the first `k` entries of its log are chosen. -/
def learn (s : Replicas V E) (v : V) (k : Nat) : Replicas V E :=
  { s with known := Function.update s.known v (max (s.known v) k) }

variable (El : Electorate V) (tm : E → Nat)

/-- The moves of a member. -/
inductive Step (s : Replicas V E) (v : V) : Replicas V E → Prop
  | raise {t : Nat} (h : s.term v < t) : Step s v (s.raise v t)
  | stand : Step s v (s.stand v)
  | vote {c : V} {b : List E} (hfree : s.cast v (s.term v) = none)
      (hb : s.bid c (s.term v) = some b) (hu : UpToDate tm b (s.log v)) : Step s v (s.vote v c)
  | elect (hw : El.Won s.cast (s.term v) v) (hb : s.bid v (s.term v) = some (s.log v))
      (hnew : s.reigns (s.term v) = none) : Step s v (s.elect v)
  | append {r : Reign V E} {e : E} (hr : s.reigns (s.term v) = some r) (hv : r.leader = v)
      (hl : r.log = s.log v) (he : tm e = s.term v) : Step s v (s.append v r e)
  | accept {r : Reign V E} {ℓ : List E} (hr : s.reigns (s.term v) = some r)
      (hℓ : ℓ <+: r.log) (hkeep : ∀ p, p <+: s.log v → p <+: r.log → p <+: ℓ) :
      Step s v (s.accept v ℓ)
  | ack {r : Reign V E} {k : Nat} (hr : s.reigns (s.term v) = some r)
      (hk : k ≤ r.log.length) (hl : r.log.take k <+: s.log v) : Step s v (s.ack v k)
  | choose {t k : Nat} {r : Reign V E} {e : E} (hr : s.reigns t = some r)
      (he : r.log[k]? = some e) (ht : tm e = t)
      (hq : ∃ Q ⊆ El.voters, El.quorum ≤ Q.card ∧ ∀ w ∈ Q, k + 1 ≤ s.acked w t) :
      Step s v (s.choose t (k + 1))
  | learn {k : Nat} (hk : s.Knows (s.term v) (s.log v) k) : Step s v (s.learn v k)

/-- Some moves of a member, one after the other. -/
abbrev Acts (v : V) : Replicas V E → Replicas V E → Prop :=
  Relation.ReflTransGen fun s s' => Step El tm s v s'

end Moves

variable (El : Electorate V) (tm : E → Nat)

/-- A quorum could still acknowledge the first `k` entries of term `t`. -/
def Open (s : Replicas V E) (t k : Nat) : Prop :=
  ∃ Q ⊆ El.voters, El.quorum ≤ Q.card ∧ ∀ v ∈ Q, k ≤ s.acked v t ∨ s.term v ≤ t

/-- A log `ℓ` held in term `u` has the prefix `p` of term `t`, or lost it to a leader of a later term
that started without it. -/
def Keeps (s : Replicas V E) (t u : Nat) (p ℓ : List E) : Prop :=
  p <+: ℓ ∨ ∃ t' r, t < t' ∧ t' ≤ u ∧ s.reigns t' = some r ∧ ¬ p <+: r.base

/-- What the moves keep. -/
structure Inv (s : Replicas V E) : Prop where
  voted : ∀ v t c, s.cast v t = some c → t ≤ s.term v
  backed : ∀ v t c, s.cast v t = some c →
    Traced tm s.reigns (s.shown v t) ∧ ∃ b, s.bid c t = some b ∧ UpToDate tm b (s.shown v t)
  bids : ∀ c t b, s.bid c t = some b →
    t ≤ s.term c ∧ Traced tm s.reigns b ∧ ∀ e ∈ b, tm e < t
  positive : ∀ c t b, s.bid c t = some b → 0 < t
  won : ∀ t r, s.reigns t = some r → El.Won s.cast t r.leader ∧ s.bid r.leader t = some r.base
  inTerm : ∀ t r, s.reigns t = some r → r.InTerm tm t
  leads : ∀ t r, s.reigns t = some r → Traced tm s.reigns r.log
  traced : ∀ v, Traced tm s.reigns (s.log v)
  bounded : ∀ v, ∀ e ∈ s.log v, tm e ≤ s.term v
  acks : ∀ v t, 0 < s.acked v t →
    t ≤ s.term v ∧ ∃ r, s.reigns t = some r ∧ s.acked v t ≤ r.log.length
  kept : ∀ v t r k, s.reigns t = some r → k ≤ s.acked v t →
    s.Keeps t (s.term v) (r.log.take k) (s.log v)
  keptVote : ∀ v t c u r k, s.cast v u = some c → t < u → s.reigns t = some r → k ≤ s.acked v t →
    s.Keeps t u (r.log.take k) (s.shown v u)
  complete : ∀ t r t' r' i e, s.reigns t = some r → s.reigns t' = some r' → t < t' →
    r.log[i]? = some e → tm e = t → s.Open El t (i + 1) → r.log.take (i + 1) <+: r'.base
  quorum : ∀ t k, s.chosen t k → ∃ r i e, k = i + 1 ∧ s.reigns t = some r ∧ r.log[i]? = some e ∧
    tm e = t ∧ ∃ Q ⊆ El.voters, El.quorum ≤ Q.card ∧ ∀ v ∈ Q, k ≤ s.acked v t
  known : ∀ v, s.Knows (s.term v) (s.log v) (s.known v)

variable {El tm} {s s' : Replicas V E}

theorem inv_init : Inv El tm (init : Replicas V E) where
  voted := by intro v t c h; cases h
  backed := by intro v t c h; cases h
  bids := by intro c t b h; cases h
  positive := by intro c t b h; cases h
  won := by intro t r h; cases h
  inTerm := by intro t r h; cases h
  leads := by intro t r h; cases h
  traced := fun _ => traced_nil
  bounded := by intro v e h; cases h
  acks := by intro v t h; cases h
  kept := by intro v t r k h; cases h
  keptVote := by intro v t c u r k h; cases h
  complete := by intro t r t' r' i e h; cases h
  quorum := by intro t k h; cases h
  known := fun _ => .inl rfl

/-! ## What follows from the invariant -/

/-- A chosen prefix is in the log every later leader starts with. -/
theorem Inv.complete_of_chosen (h : s.Inv El tm) {t k t' : Nat} {r r' : Reign V E}
    (hc : s.chosen t k) (hr : s.reigns t = some r) (hr' : s.reigns t' = some r') (hlt : t < t') :
    r.log.take k <+: r'.base := by
  obtain ⟨r1, i, e, rfl, hr1, he, ht, Q, hQ, hq, hack⟩ := h.quorum t k hc
  rw [hr] at hr1
  cases hr1
  exact h.complete t r t' r' i e hr hr' hlt he ht ⟨Q, hQ, hq, fun v hv => .inl (hack v hv)⟩

/-- A chosen prefix is in the log of its own and every later leader. -/
theorem Inv.chosen_prefix (h : s.Inv El tm) {t k t' : Nat} {r r' : Reign V E}
    (hc : s.chosen t k) (hr : s.reigns t = some r) (hr' : s.reigns t' = some r') (hle : t ≤ t') :
    r.log.take k <+: r'.log := by
  rcases Nat.lt_or_eq_of_le hle with hlt | rfl
  · exact (h.complete_of_chosen hc hr hr' hlt).trans r'.base_prefix
  · rw [hr] at hr'
    cases hr'
    exact List.take_prefix _ _

/-- Chosen prefixes agree. -/
theorem Inv.chosen_agree (h : s.Inv El tm) {t k t' k' i : Nat} {r r' : Reign V E}
    (hc : s.chosen t k) (hc' : s.chosen t' k') (hr : s.reigns t = some r)
    (hr' : s.reigns t' = some r') (hi : i < k) (hi' : i < k') : r.log[i]? = r'.log[i]? := by
  wlog hle : t ≤ t' generalizing t t' k k' r r'
  · exact (this hc' hc hr' hr hi' hi (Nat.le_of_not_le hle)).symm
  obtain ⟨r1, j, e, rfl, hr1, he, -⟩ := h.quorum t k hc
  rw [hr] at hr1
  cases hr1
  obtain ⟨hj, -⟩ := List.getElem?_eq_some_iff.1 he
  have hlt : i < r.log.length := by omega
  have hget : r.log[i]? = some r.log[i] := List.getElem?_eq_getElem hlt
  have htake : (r.log.take (j + 1))[i]? = some r.log[i] := by
    rw [List.getElem?_take_of_lt hi, hget]
  rw [hget, getElem?_mono (h.chosen_prefix hc hr hr' hle) htake]

theorem Inv.reign_pos (h : s.Inv El tm) {t : Nat} {r : Reign V E} (hr : s.reigns t = some r) :
    0 < t :=
  h.positive _ _ _ (h.won t r hr).2

/-- Entries are written in terms that somebody has won. -/
theorem Inv.tm_pos (h : s.Inv El tm) {ℓ : List E} (hℓ : Traced tm s.reigns ℓ) {i : Nat} {e : E}
    (he : ℓ[i]? = some e) : 0 < tm e := by
  obtain ⟨r, hr, -⟩ := hℓ i e he
  exact h.reign_pos hr

/-- What is known of a log is known of its shorter prefixes. -/
theorem Knows.le {u k k' : Nat} {ℓ : List E} (hk : s.Knows u ℓ k) (hle : k' ≤ k) :
    s.Knows u ℓ k' := by
  rcases hk with rfl | ⟨t, m, r, hc, hr, ht, hm, hp⟩
  · exact .inl (Nat.le_zero.1 hle)
  · refine .inr ⟨t, m, r, hc, hr, ht, hle.trans hm, ?_⟩
    exact (List.take_prefix_take_left hle).trans hp

/-- What is known of a log is known of a prefix of it that is long enough. -/
theorem Knows.shorten {u k : Nat} {ℓ ℓ' : List E} (hk : s.Knows u ℓ k) (hp : ℓ' <+: ℓ)
    (hle : k ≤ ℓ'.length) : s.Knows u ℓ' k := by
  rcases hk with rfl | ⟨t, m, r, hc, hr, ht, hm, hpre⟩
  · exact .inl rfl
  · refine .inr ⟨t, m, r, hc, hr, ht, hm, List.prefix_of_prefix_length_le hpre hp ?_⟩
    exact (List.length_take_le _ _).trans hle

/-- A chosen prefix is as long as it says. -/
theorem Inv.le_length_of_chosen (h : s.Inv El tm) {t m : Nat} {r : Reign V E}
    (hc : s.chosen t m) (hr : s.reigns t = some r) : m ≤ r.log.length := by
  obtain ⟨r1, i, e, rfl, hr1, he, -⟩ := h.quorum t m hc
  rw [hr] at hr1
  cases hr1
  obtain ⟨hi, -⟩ := List.getElem?_eq_some_iff.1 he
  exact hi

/-- A log has what is known of it. -/
theorem Inv.le_length_of_knows (h : s.Inv El tm) {u k : Nat} {ℓ : List E} (hk : s.Knows u ℓ k) :
    k ≤ ℓ.length := by
  rcases hk with rfl | ⟨t, m, r, hc, hr, -, hm, hp⟩
  · exact Nat.zero_le _
  · have := h.le_length_of_chosen hc hr
    have := hp.length_le
    simp only [List.length_take] at this
    omega

theorem Keeps.later {t u u' : Nat} {p ℓ : List E} (h : s.Keeps t u p ℓ) (hle : u ≤ u') :
    s.Keeps t u' p ℓ :=
  h.imp id fun ⟨t', r, h1, h2, h3⟩ => ⟨t', r, h1, Nat.le_trans h2 hle, h3⟩

/-- What a log keeps, a log that extends it keeps, whatever reigns begin. -/
theorem Keeps.grows {t u : Nat} {p ℓ ℓ' : List E} (h : s.Keeps t u p ℓ)
    (hg : s.reigns.Grows s'.reigns) (hℓ : ℓ <+: ℓ') : s'.Keeps t u p ℓ' := by
  rcases h with h | ⟨t', r, h1, h2, hr, hn⟩
  · exact .inl (h.trans hℓ)
  · obtain ⟨r', hr', -, hbase, -⟩ := hg.log hr
    exact .inr ⟨t', r', h1, h2, hr', hbase ▸ hn⟩

theorem keeps_nil {t u : Nat} {ℓ : List E} : s.Keeps t u [] ℓ := .inl List.nil_prefix

theorem take_zero_keeps {t u : Nat} {p ℓ : List E} : s.Keeps t u (p.take 0) ℓ := by
  rw [List.take_zero]
  exact keeps_nil

/-- What is known stays known while reigns grow, if the log keeps what the prefix needs. -/
theorem Inv.knows_mono (h : s.Inv El tm) {u u' k : Nat} {ℓ ℓ' : List E} (hk : s.Knows u ℓ k)
    (hc : ∀ t m, s.chosen t m → s'.chosen t m) (hg : s.reigns.Grows s'.reigns) (hu : u ≤ u')
    (hℓ : ∀ t m r, s.chosen t m → s.reigns t = some r → t ≤ u → k ≤ m → r.log.take k <+: ℓ →
      r.log.take k <+: ℓ') : s'.Knows u' ℓ' k := by
  rcases hk with rfl | ⟨t, m, r, hcm, hr, ht, hkm, hp⟩
  · exact .inl rfl
  · obtain ⟨r', hr', -, -, hle⟩ := hg.log hr
    refine .inr ⟨t, m, r', hc t m hcm, hr', Nat.le_trans ht hu, hkm, ?_⟩
    obtain ⟨r1, i, e, rfl, hr1, he, -⟩ := h.quorum t m hcm
    rw [hr] at hr1
    cases hr1
    obtain ⟨hi, -⟩ := List.getElem?_eq_some_iff.1 he
    have htake : r'.log.take k = r.log.take k :=
      eq_of_prefix_of_length (List.take_prefix _ _) ((List.take_prefix _ _).trans hle) (by
        have := hle.length_le
        simp only [List.length_take]
        omega)
    rw [htake]
    exact hℓ t _ r hcm hr ht hkm hp

/-- A quorum that could acknowledge still can, looking back. -/
theorem Open.of_le {t k : Nat} (h : s'.Open El t k)
    (hback : ∀ v, k ≤ s'.acked v t ∨ s'.term v ≤ t → k ≤ s.acked v t ∨ s.term v ≤ t) :
    s.Open El t k := by
  obtain ⟨Q, hQ, hq, hv⟩ := h
  exact ⟨Q, hQ, hq, fun v hm => hback v (hv v hm)⟩

theorem Inv.cast_none (h : s.Inv El tm) {v : V} {t : Nat} (ht : s.term v < t) :
    s.cast v t = none := by
  cases hc : s.cast v t with
  | none => rfl
  | some c => exact absurd (h.voted v t c hc) (Nat.not_le.2 ht)

theorem Inv.bid_none (h : s.Inv El tm) {v : V} {t : Nat} (ht : s.term v < t) :
    s.bid v t = none := by
  cases hc : s.bid v t with
  | none => rfl
  | some b => exact absurd (h.bids v t b hc).1 (Nat.not_le.2 ht)

/-! ## The moves keep the invariant -/

/-- Choosing keeps the invariant. -/
theorem Inv.choose (h : s.Inv El tm) {t k : Nat} {r : Reign V E} {e : E}
    (hr : s.reigns t = some r) (he : r.log[k]? = some e) (ht : tm e = t)
    (hq : ∃ Q ⊆ El.voters, El.quorum ≤ Q.card ∧ ∀ v ∈ Q, k + 1 ≤ s.acked v t) :
    (s.choose t (k + 1)).Inv El tm where
  voted := h.voted
  backed := h.backed
  bids := h.bids
  positive := h.positive
  won := h.won
  inTerm := h.inTerm
  leads := h.leads
  traced := h.traced
  bounded := h.bounded
  acks := h.acks
  kept := h.kept
  keptVote := h.keptVote
  complete := h.complete
  quorum := by
    rintro t' k' (hc | ⟨rfl, rfl⟩)
    · exact h.quorum t' k' hc
    · exact ⟨r, k, e, rfl, hr, he, ht, hq⟩
  known := fun v => h.knows_mono (h.known v) (fun _ _ hc => .inl hc) (.refl _) (Nat.le_refl _)
    fun _ _ _ _ _ _ _ hp => hp

variable [DecidableEq V]

/-- Nobody wins in a term its members have not reached. -/
theorem Inv.exists_reached (h : s.Inv El tm) {t : Nat} {c : V} (hw : El.Won s.cast t c)
    {Q : Finset V} (hQ : Q ⊆ El.voters) (hq : El.quorum ≤ Q.card) :
    ∃ v ∈ Q, s.cast v t = some c ∧ t ≤ s.term v := by
  obtain ⟨Q', hQ', hq', hc⟩ := hw
  obtain ⟨v, hv, hv'⟩ := Electorate.exists_common hQ hQ' hq hq'
  exact ⟨v, hv, hc v hv', h.voted v t c (hc v hv')⟩

theorem le_update {f : V → Nat} {v : V} {t : Nat} (h : f v ≤ t) (w : V) :
    f w ≤ Function.update f v t w := by
  by_cases hw : w = v
  · subst hw
    rwa [Function.update_self]
  · rw [Function.update_of_ne hw]

theorem Inv.raise (h : s.Inv El tm) {v : V} {t : Nat} (ht : s.term v < t) :
    (s.raise v t).Inv El tm := by
  have hle : ∀ w, s.term w ≤ (s.raise v t).term w := le_update (Nat.le_of_lt ht)
  exact {
    voted := fun w t c hc => (h.voted w t c hc).trans (hle w)
    backed := h.backed
    bids := fun c t b hb =>
      ⟨(h.bids c t b hb).1.trans (hle c), (h.bids c t b hb).2⟩
    positive := h.positive
    won := h.won
    inTerm := h.inTerm
    leads := h.leads
    traced := h.traced
    bounded := fun w e he => (h.bounded w e he).trans (hle w)
    acks := fun w t ha => ⟨(h.acks w t ha).1.trans (hle w), (h.acks w t ha).2⟩
    kept := fun w t r k hr hk => (h.kept w t r k hr hk).later (hle w)
    keptVote := h.keptVote
    complete := fun t r t' r' i e hr hr' hlt he htm ho =>
      h.complete t r t' r' i e hr hr' hlt he htm
        (ho.of_le fun w hw => hw.imp id fun hw => (hle w).trans hw)
    quorum := h.quorum
    known := fun w => h.knows_mono (h.known w) (fun _ _ hc => hc) (.refl _) (hle w)
      fun _ _ _ _ _ _ _ hp => hp }

theorem Inv.stand (h : s.Inv El tm) (v : V) : (s.stand v).Inv El tm := by
  have hlt : s.term v < s.term v + 1 := Nat.lt_succ_self _
  have hle : ∀ w, s.term w ≤ (s.stand v).term w := le_update (Nat.le_of_lt hlt)
  have hself : (s.stand v).term v = s.term v + 1 := Function.update_self _ _ _
  have hcast : s.cast.Le (s.stand v).cast := Votes.le_record (.inl (h.cast_none hlt))
  -- a bid that was there is not the new one
  have hbid : ∀ c t b, s.bid c t = some b → (s.stand v).bid c t = some b := by
    intro c t b hb
    refine (update₂_of_ne ?_).trans hb
    by_contra hn
    rw [not_or, not_not, not_not] at hn
    obtain ⟨rfl, rfl⟩ := hn
    rw [h.bid_none hlt] at hb
    cases hb
  exact {
    voted := by
      intro w t c hc
      rcases Votes.record_inv hc with ⟨rfl, rfl, -⟩ | ⟨-, hc⟩
      · exact Nat.le_of_eq hself.symm
      · exact (h.voted w t c hc).trans (hle w)
    backed := by
      intro w t c hc
      rcases Votes.record_inv hc with ⟨rfl, rfl, rfl⟩ | ⟨hne, hc⟩
      · have hshown : (s.stand c).shown c (s.term c + 1) = s.log c := update₂_self _ _ _ _
        rw [hshown]
        exact ⟨h.traced c, _, update₂_self _ _ _ _, .refl tm _⟩
      · have hshown : (s.stand v).shown w t = s.shown w t := update₂_of_ne hne
        rw [hshown]
        obtain ⟨ht, b, hb, hu⟩ := h.backed w t c hc
        exact ⟨ht, b, hbid c t b hb, hu⟩
    bids := by
      intro c t b hb
      by_cases hn : c ≠ v ∨ t ≠ s.term v + 1
      · have hb' : s.bid c t = some b := (update₂_of_ne hn).symm.trans hb
        obtain ⟨h1, h2⟩ := h.bids c t b hb'
        exact ⟨h1.trans (hle c), h2⟩
      · rw [not_or, not_not, not_not] at hn
        obtain ⟨rfl, rfl⟩ := hn
        have hb' : some (s.log c) = some b := (update₂_self _ _ _ _).symm.trans hb
        cases hb'
        exact ⟨Nat.le_of_eq hself.symm, h.traced c, fun e he => Nat.lt_succ_of_le (h.bounded c e he)⟩
    positive := by
      intro c t b hb
      by_cases hn : c ≠ v ∨ t ≠ s.term v + 1
      · exact h.positive c t b ((update₂_of_ne hn).symm.trans hb)
      · rw [not_or, not_not, not_not] at hn
        obtain ⟨rfl, rfl⟩ := hn
        exact Nat.succ_pos _
    won := fun t r hr => ⟨(h.won t r hr).1.mono hcast, hbid _ _ _ (h.won t r hr).2⟩
    inTerm := h.inTerm
    leads := h.leads
    traced := h.traced
    bounded := fun w e he => (h.bounded w e he).trans (hle w)
    acks := fun w t ha => ⟨(h.acks w t ha).1.trans (hle w), (h.acks w t ha).2⟩
    kept := fun w t r k hr hk => (h.kept w t r k hr hk).later (hle w)
    keptVote := by
      intro w t c u r k hc htu hr hk
      rcases Votes.record_inv hc with ⟨rfl, rfl, -⟩ | ⟨hne, hc⟩
      · have hshown : (s.stand w).shown w (s.term w + 1) = s.log w := update₂_self _ _ _ _
        rw [hshown]
        exact (h.kept w t r k hr hk).later (Nat.le_of_lt hlt)
      · have hshown : (s.stand v).shown w u = s.shown w u := update₂_of_ne hne
        rw [hshown]
        exact h.keptVote w t c u r k hc htu hr hk
    complete := fun t r t' r' i e hr hr' hlt he htm ho =>
      h.complete t r t' r' i e hr hr' hlt he htm
        (ho.of_le fun w hw => hw.imp id fun hw => (hle w).trans hw)
    quorum := h.quorum
    known := fun w => h.knows_mono (h.known w) (fun _ _ hc => hc) (.refl _) (hle w)
      fun _ _ _ _ _ _ _ hp => hp }

theorem Inv.vote (h : s.Inv El tm) {v c : V} {b : List E} (hfree : s.cast v (s.term v) = none)
    (hb : s.bid c (s.term v) = some b) (hu : UpToDate tm b (s.log v)) :
    (s.vote v c).Inv El tm := by
  have hcast : s.cast.Le (s.vote v c).cast := Votes.le_record (.inl hfree)
  exact {
    voted := by
      intro w t c' hc
      rcases Votes.record_inv hc with ⟨rfl, rfl, -⟩ | ⟨-, hc⟩
      · exact Nat.le_refl _
      · exact h.voted w t c' hc
    backed := by
      intro w t c' hc
      rcases Votes.record_inv hc with ⟨rfl, rfl, rfl⟩ | ⟨hne, hc⟩
      · have hshown : (s.vote w c').shown w (s.term w) = s.log w := update₂_self _ _ _ _
        rw [hshown]
        exact ⟨h.traced w, b, hb, hu⟩
      · have hshown : (s.vote v c).shown w t = s.shown w t := update₂_of_ne hne
        rw [hshown]
        exact h.backed w t c' hc
    bids := h.bids
    positive := h.positive
    won := fun t r hr => ⟨(h.won t r hr).1.mono hcast, (h.won t r hr).2⟩
    inTerm := h.inTerm
    leads := h.leads
    traced := h.traced
    bounded := h.bounded
    acks := h.acks
    kept := h.kept
    keptVote := by
      intro w t c' u r k hc htu hr hk
      rcases Votes.record_inv hc with ⟨rfl, rfl, -⟩ | ⟨hne, hc⟩
      · have hshown : (s.vote w c).shown w (s.term w) = s.log w := update₂_self _ _ _ _
        rw [hshown]
        exact h.kept w t r k hr hk
      · have hshown : (s.vote v c).shown w u = s.shown w u := update₂_of_ne hne
        rw [hshown]
        exact h.keptVote w t c' u r k hc htu hr hk
    complete := h.complete
    quorum := h.quorum
    known := h.known }

/-- An election keeps the invariant. The new leader has every prefix that is chosen or still can be:
a voter that may count for the prefix has also voted for it. -/
theorem Inv.elect (h : s.Inv El tm) {c : V} (hw : El.Won s.cast (s.term c) c)
    (hb : s.bid c (s.term c) = some (s.log c)) (hnew : s.reigns (s.term c) = none) :
    (s.elect c).Inv El tm := by
  have hself : (s.elect c).reigns (s.term c) = some ⟨c, s.log c, []⟩ := Function.update_self _ _ _
  have hother : ∀ t, t ≠ s.term c → (s.elect c).reigns t = s.reigns t :=
    fun t ht => Function.update_of_ne ht _ _
  have hg : s.reigns.Grows (s.elect c).reigns := by
    intro t r hr
    refine ⟨[], ?_⟩
    rw [hother t (fun ht => by rw [ht, hnew] at hr; cases hr), hr]
    simp
  -- a reign of the new state is the new one or an old one
  have hinv : ∀ t r, (s.elect c).reigns t = some r →
      (t = s.term c ∧ r = ⟨c, s.log c, []⟩) ∨ s.reigns t = some r := by
    intro t r hr
    by_cases ht : t = s.term c
    · subst ht
      rw [hself] at hr
      exact .inl ⟨rfl, (Option.some.inj hr).symm⟩
    · rw [hother t ht] at hr
      exact .inr hr
  have hack : ∀ v, s.acked v (s.term c) = 0 := by
    intro v
    by_contra hn
    obtain ⟨-, r, hr, -⟩ := h.acks v (s.term c) (Nat.pos_of_ne_zero hn)
    rw [hnew] at hr
    cases hr
  have hbid := h.bids c _ _ hb
  exact {
    voted := h.voted
    backed := fun v t c' hc => ⟨(h.backed v t c' hc).1.grows hg, (h.backed v t c' hc).2⟩
    bids := fun c' t b hb =>
      ⟨(h.bids c' t b hb).1, (h.bids c' t b hb).2.1.grows hg, (h.bids c' t b hb).2.2⟩
    positive := h.positive
    won := by
      intro t r hr
      rcases hinv t r hr with ⟨rfl, rfl⟩ | hr
      · exact ⟨hw, hb⟩
      · exact h.won t r hr
    inTerm := by
      intro t r hr
      rcases hinv t r hr with ⟨rfl, rfl⟩ | hr
      · exact ⟨hbid.2.2, fun e he => by cases he⟩
      · exact h.inTerm t r hr
    leads := by
      intro t r hr
      rcases hinv t r hr with ⟨rfl, rfl⟩ | hr
      · rw [Reign.log, List.append_nil]
        exact (h.traced c).grows hg
      · exact (h.leads t r hr).grows hg
    traced := fun v => (h.traced v).grows hg
    bounded := h.bounded
    acks := by
      intro v t ha
      obtain ⟨ht, r, hr, hlen⟩ := h.acks v t ha
      obtain ⟨r', hr', -, -, hp⟩ := hg.log hr
      exact ⟨ht, r', hr', hlen.trans hp.length_le⟩
    kept := by
      intro v t r k hr hk
      rcases hinv t r hr with ⟨rfl, rfl⟩ | hr
      · obtain rfl : k = 0 := Nat.le_zero.1 (hack v ▸ hk)
        exact take_zero_keeps
      · exact (h.kept v t r k hr hk).grows hg (List.prefix_refl _)
    keptVote := by
      intro v t c' u r k hc htu hr hk
      rcases hinv t r hr with ⟨rfl, rfl⟩ | hr
      · obtain rfl : k = 0 := Nat.le_zero.1 (hack v ▸ hk)
        exact take_zero_keeps
      · exact (h.keptVote v t c' u r k hc htu hr hk).grows hg (List.prefix_refl _)
    complete := by
      intro t r t' r' i e hr hr' hlt he htm ho
      rcases hinv t r hr with ⟨rfl, rfl⟩ | hr
      · -- the new reign has no entries of its own yet
        rw [Reign.log, List.append_nil] at he
        have := hbid.2.2 e (List.mem_of_getElem? he)
        omega
      rcases hinv t' r' hr' with ⟨rfl, rfl⟩ | hr'
      · obtain ⟨Q, hQ, hq, hv⟩ := ho
        obtain ⟨v, hvQ, hcast, hterm⟩ := h.exists_reached hw hQ hq
        have hacked : i + 1 ≤ s.acked v t := by
          rcases hv v hvQ with ha | ha
          · exact ha
          · exact absurd (Nat.lt_of_lt_of_le hlt hterm) (Nat.not_lt.2 ha)
        have ho' : s.Open El t (i + 1) := ⟨Q, hQ, hq, hv⟩
        have hshown : r.log.take (i + 1) <+: s.shown v (s.term c) := by
          rcases h.keptVote v t c _ r _ hcast hlt hr hacked with hp | ⟨t'', r'', h1, -, h2, h3⟩
          · exact hp
          · exact absurd (h.complete t r t'' r'' i e hr h2 h1 he htm ho') h3
        obtain ⟨htr, b, hb', hu⟩ := h.backed v _ c hcast
        rw [hb] at hb'
        cases hb'
        have hget : (r.log.take (i + 1))[i]? = some e := by
          rw [List.getElem?_take_of_lt (Nat.lt_succ_self i), he]
        exact htr.prefix_of_upToDate h.inTerm (h.traced c) hu hshown hget htm
          fun e' _ r'' hlt' hr'' => h.complete t r _ r'' i e hr hr'' hlt' he htm ho'
      · exact h.complete t r t' r' i e hr hr' hlt he htm ho
    quorum := by
      intro t k hc
      obtain ⟨r, i, e, hk, hr, he, htm, hq⟩ := h.quorum t k hc
      obtain ⟨r', hr', -, -, hp⟩ := hg.log hr
      exact ⟨r', i, e, hk, hr', getElem?_mono hp he, htm, hq⟩
    known := fun v => h.knows_mono (h.known v) (fun _ _ hc => hc) hg (Nat.le_refl _)
      fun _ _ _ _ _ _ _ hp => hp }

/-- A leader's entry keeps the invariant. No quorum has it, and a later leader's quorum never
will. -/
theorem Inv.append (h : s.Inv El tm) {c : V} {r : Reign V E} {e : E}
    (hr : s.reigns (s.term c) = some r) (hl : r.log = s.log c) (he : tm e = s.term c) :
    (s.append c r e).Inv El tm := by
  have hself : (s.append c r e).reigns (s.term c) = some ⟨r.leader, r.base, r.own ++ [e]⟩ :=
    Function.update_self _ _ _
  have hg : s.reigns.Grows (s.append c r e).reigns := by
    intro t r0 hr0
    by_cases ht : t = s.term c
    · subst ht
      rw [hr] at hr0
      cases hr0
      exact ⟨[e], hself⟩
    · exact ⟨[], by rw [List.append_nil, ← hr0]; exact Function.update_of_ne ht _ _⟩
  have hinv : ∀ t r0, (s.append c r e).reigns t = some r0 →
      ∃ r1, s.reigns t = some r1 ∧ r1.leader = r0.leader ∧ r1.base = r0.base ∧
        r1.log <+: r0.log := by
    intro t r0 hr0
    by_cases ht : t = s.term c
    · subst ht
      rw [hself] at hr0
      cases hr0
      exact ⟨r, hr, rfl, rfl, [e], by simp [Reign.log]⟩
    · have hr1 : s.reigns t = some r0 := (Function.update_of_ne ht _ _).symm.trans hr0
      exact ⟨r0, hr1, rfl, rfl, List.prefix_refl _⟩
  -- what is acknowledged lies below the new entry
  have htake : ∀ v t (r0 r1 : Reign V E) k, s.reigns t = some r1 → r1.log <+: r0.log → k ≤ s.acked v t →
      r0.log.take k = r1.log.take k := by
    intro v t r0 r1 k hr1 hp hk
    rcases Nat.eq_zero_or_pos (s.acked v t) with h0 | hpos
    · obtain rfl : k = 0 := Nat.le_zero.1 (h0 ▸ hk)
      rw [List.take_zero, List.take_zero]
    · obtain ⟨-, r2, hr2, hlen⟩ := h.acks v t hpos
      rw [hr1] at hr2
      cases hr2
      refine eq_of_prefix_of_length (List.take_prefix _ _) ((List.take_prefix _ _).trans hp) ?_
      have := hp.length_le
      simp only [List.length_take]
      omega
  have hnewlog : s.log c ++ [e] <+: (⟨r.leader, r.base, r.own ++ [e]⟩ : Reign V E).log := by
    rw [← hl]
    exact ⟨[], by simp [Reign.log]⟩
  have htraced : Traced tm (s.append c r e).reigns (s.log c ++ [e]) :=
    ((h.traced c).grows hg).append (he ▸ hself) hnewlog
  have hlogc : (s.append c r e).log c = s.log c ++ [e] := Function.update_self _ _ _
  have hlogv : ∀ v, v ≠ c → (s.append c r e).log v = s.log v :=
    fun v hv => Function.update_of_ne hv _ _
  have hlog : ∀ v, s.log v <+: (s.append c r e).log v := by
    intro v
    by_cases hv : v = c
    · subst hv
      exact ⟨[e], hlogc.symm⟩
    · rw [hlogv v hv]
  exact {
    voted := h.voted
    backed := fun v t c' hc => ⟨(h.backed v t c' hc).1.grows hg, (h.backed v t c' hc).2⟩
    bids := fun c' t b hb =>
      ⟨(h.bids c' t b hb).1, (h.bids c' t b hb).2.1.grows hg, (h.bids c' t b hb).2.2⟩
    positive := h.positive
    won := by
      intro t r0 hr0
      obtain ⟨r1, hr1, hlead, hbase, -⟩ := hinv t r0 hr0
      rw [← hlead, ← hbase]
      exact h.won t r1 hr1
    inTerm := by
      intro t r0 hr0
      by_cases ht : t = s.term c
      · subst ht
        rw [hself] at hr0
        cases hr0
        obtain ⟨hb, ho⟩ := h.inTerm _ _ hr
        refine ⟨hb, fun e' he' => ?_⟩
        rcases List.mem_append.1 he' with he' | he'
        · exact ho e' he'
        · rw [List.mem_singleton.1 he', he]
      · have hr2 : s.reigns t = some r0 := (Function.update_of_ne ht _ _).symm.trans hr0
        exact h.inTerm t r0 hr2
    leads := by
      intro t r0 hr0
      by_cases ht : t = s.term c
      · subst ht
        rw [hself] at hr0
        cases hr0
        rw [show (⟨r.leader, r.base, r.own ++ [e]⟩ : Reign V E).log = s.log c ++ [e] by
          rw [← hl]; simp [Reign.log]]
        exact htraced
      · have hr2 : s.reigns t = some r0 := (Function.update_of_ne ht _ _).symm.trans hr0
        exact (h.leads t r0 hr2).grows hg
    traced := by
      intro v
      by_cases hv : v = c
      · subst hv
        rw [hlogc]
        exact htraced
      · rw [hlogv v hv]
        exact (h.traced v).grows hg
    bounded := by
      intro v e' he'
      by_cases hv : v = c
      · subst hv
        rw [hlogc] at he'
        rcases List.mem_append.1 he' with he' | he'
        · exact h.bounded v e' he'
        · rw [List.mem_singleton.1 he', he]
          exact Nat.le_refl _
      · rw [hlogv v hv] at he'
        exact h.bounded v e' he'
    acks := by
      intro v t ha
      obtain ⟨ht, r1, hr1, hlen⟩ := h.acks v t ha
      obtain ⟨r', hr', -, -, hp⟩ := hg.log hr1
      exact ⟨ht, r', hr', hlen.trans hp.length_le⟩
    kept := by
      intro v t r0 k hr0 hk
      obtain ⟨r1, hr1, -, -, hp⟩ := hinv t r0 hr0
      rw [htake v t r0 r1 k hr1 hp hk]
      exact (h.kept v t r1 k hr1 hk).grows hg (hlog v)
    keptVote := by
      intro v t c' u r0 k hc htu hr0 hk
      obtain ⟨r1, hr1, -, -, hp⟩ := hinv t r0 hr0
      rw [htake v t r0 r1 k hr1 hp hk]
      exact (h.keptVote v t c' u r1 k hc htu hr1 hk).grows hg (List.prefix_refl _)
    complete := by
      intro t r0 t' r0' i e' hr0 hr0' hlt hget htm ho
      obtain ⟨r1, hr1, -, -, hp⟩ := hinv t r0 hr0
      obtain ⟨r1', hr1', -, hbase', -⟩ := hinv t' r0' hr0'
      rw [← hbase']
      rcases Nat.lt_or_ge i r1.log.length with hi | hi
      · have hget1 : r1.log[i]? = some e' := prefix_getElem? hp hi hget
        have heq : r0.log.take (i + 1) = r1.log.take (i + 1) := by
          refine eq_of_prefix_of_length (List.take_prefix _ _)
            ((List.take_prefix _ _).trans hp) ?_
          rw [length_take_succ hget, length_take_succ hget1]
        rw [heq]
        exact h.complete t r1 t' r1' i e' hr1 hr1' hlt hget1 htm ho
      · -- the quorum of the later leader has left the term
        obtain ⟨Q, hQ, hq, hv⟩ := ho
        obtain ⟨v, hvQ, -, hterm⟩ := h.exists_reached (h.won t' r1' hr1').1 hQ hq
        rcases hv v hvQ with ha | ha
        · have ha' : i + 1 ≤ s.acked v t := ha
          obtain ⟨-, r2, hr2, hlen⟩ := h.acks v t (Nat.lt_of_lt_of_le (Nat.succ_pos i) ha')
          rw [hr1] at hr2
          cases hr2
          omega
        · have ha' : s.term v ≤ t := ha
          omega
    quorum := by
      intro t k hc
      obtain ⟨r1, i, e', hk, hr1, he', htm, hq⟩ := h.quorum t k hc
      obtain ⟨r', hr', -, -, hp⟩ := hg.log hr1
      exact ⟨r', i, e', hk, hr', getElem?_mono hp he', htm, hq⟩
    known := fun v => h.knows_mono (h.known v) (fun _ _ hc => hc) hg (Nat.le_refl _)
      fun _ _ _ _ _ _ _ hp => hp.trans (hlog v) }

/-- Taking over a log keeps the invariant: what is lost, the leader of the term does not have. -/
theorem Inv.accept (h : s.Inv El tm) {v : V} {r : Reign V E} {ℓ : List E}
    (hr : s.reigns (s.term v) = some r) (hℓ : ℓ <+: r.log)
    (hkeep : ∀ p, p <+: s.log v → p <+: r.log → p <+: ℓ) : (s.accept v ℓ).Inv El tm := by
  have hself : (s.accept v ℓ).log v = ℓ := Function.update_self _ _ _
  have hother : ∀ w, w ≠ v → (s.accept v ℓ).log w = s.log w :=
    fun w hw => Function.update_of_ne hw _ _
  exact {
    voted := h.voted
    backed := h.backed
    bids := h.bids
    positive := h.positive
    won := h.won
    inTerm := h.inTerm
    leads := h.leads
    traced := by
      intro w
      by_cases hw : w = v
      · subst hw
        rw [hself]
        exact (h.leads _ r hr).restrict hℓ
      · rw [hother w hw]
        exact h.traced w
    bounded := by
      intro w e he
      by_cases hw : w = v
      · subst hw
        rw [hself] at he
        obtain ⟨hb, ho⟩ := h.inTerm _ r hr
        rcases List.mem_append.1 (hℓ.subset he) with hm | hm
        · exact Nat.le_of_lt (hb e hm)
        · exact Nat.le_of_eq (ho e hm)
      · rw [hother w hw] at he
        exact h.bounded w e he
    acks := h.acks
    kept := by
      intro w t r0 k hr0 hk
      by_cases hw : w = v
      · subst hw
        rw [hself]
        rcases h.kept w t r0 k hr0 hk with hp | hlost
        · by_cases hin : r0.log.take k <+: r.log
          · exact .inl (hkeep _ hp hin)
          · rcases Nat.eq_zero_or_pos k with rfl | hpos
            · exact take_zero_keeps
            · obtain ⟨hle, -⟩ := h.acks w t (Nat.lt_of_lt_of_le hpos hk)
              rcases Nat.lt_or_eq_of_le hle with hlt | rfl
              · exact .inr ⟨_, r, hlt, Nat.le_refl _, hr, fun hb => hin (hb.trans r.base_prefix)⟩
              · have hr1 : s.reigns (s.term w) = some r0 := hr0
                rw [hr] at hr1
                cases hr1
                exact absurd (List.take_prefix _ _) hin
        · exact .inr hlost
      · have hl := h.kept w t r0 k hr0 hk
        rw [← hother w hw] at hl
        exact hl
    keptVote := h.keptVote
    complete := h.complete
    quorum := h.quorum
    known := by
      intro w
      by_cases hw : w = v
      · subst hw
        rw [hself]
        refine h.knows_mono (h.known w) (fun _ _ hc => hc) (.refl _) (Nat.le_refl _) ?_
        intro t m r0 hc hr0 ht hkm hp
        have hle := List.take_prefix_take_left (l := r0.log) hkm
        exact hkeep _ hp (hle.trans (h.chosen_prefix hc hr0 hr ht))
      · rw [hother w hw]
        exact h.known w }

/-- An acknowledgement keeps the invariant. -/
theorem Inv.ack (h : s.Inv El tm) {v : V} {r : Reign V E} {k : Nat}
    (hr : s.reigns (s.term v) = some r) (hk : k ≤ r.log.length)
    (hl : r.log.take k <+: s.log v) : (s.ack v k).Inv El tm := by
  have hself : (s.ack v k).acked v (s.term v) = max (s.acked v (s.term v)) k := update₂_self _ _ _ _
  have hother : ∀ w t, w ≠ v ∨ t ≠ s.term v → (s.ack v k).acked w t = s.acked w t :=
    fun w t hne => update₂_of_ne hne
  have hmono : ∀ w t, s.acked w t ≤ (s.ack v k).acked w t := by
    intro w t
    by_cases hne : w ≠ v ∨ t ≠ s.term v
    · rw [hother w t hne]
    · rw [not_or, not_not, not_not] at hne
      obtain ⟨rfl, rfl⟩ := hne
      rw [hself]
      exact Nat.le_max_left _ _
  exact {
    voted := h.voted
    backed := h.backed
    bids := h.bids
    positive := h.positive
    won := h.won
    inTerm := h.inTerm
    leads := h.leads
    traced := h.traced
    bounded := h.bounded
    acks := by
      intro w t ha
      by_cases hne : w ≠ v ∨ t ≠ s.term v
      · rw [hother w t hne] at ha ⊢
        exact h.acks w t ha
      · rw [not_or, not_not, not_not] at hne
        obtain ⟨rfl, rfl⟩ := hne
        refine ⟨Nat.le_refl _, r, hr, ?_⟩
        rw [hself]
        refine Nat.max_le.2 ⟨?_, hk⟩
        rcases Nat.eq_zero_or_pos (s.acked w (s.term w)) with h0 | hpos
        · rw [h0]
          exact Nat.zero_le _
        · obtain ⟨-, r1, hr1, hlen⟩ := h.acks w _ hpos
          rw [hr] at hr1
          cases hr1
          exact hlen
    kept := by
      intro w t r0 j hr0 hj
      by_cases hne : w ≠ v ∨ t ≠ s.term v
      · rw [hother w t hne] at hj
        exact h.kept w t r0 j hr0 hj
      · rw [not_or, not_not, not_not] at hne
        obtain ⟨rfl, rfl⟩ := hne
        rw [hself] at hj
        rcases le_max_iff.1 hj with hold | hnew
        · exact h.kept w _ r0 j hr0 hold
        · have hr1 : s.reigns (s.term w) = some r0 := hr0
          rw [hr] at hr1
          cases hr1
          exact .inl ((List.take_prefix_take_left hnew).trans hl)
    keptVote := by
      intro w t c u r0 j hc htu hr0 hj
      have hle := h.voted w u c hc
      rw [hother w t (by
        by_contra hne
        rw [not_or, not_not, not_not] at hne
        obtain ⟨rfl, rfl⟩ := hne
        omega)] at hj
      exact h.keptVote w t c u r0 j hc htu hr0 hj
    complete := by
      intro t r0 t' r' i e hr0 hr' hlt he htm ho
      refine h.complete t r0 t' r' i e hr0 hr' hlt he htm (ho.of_le fun w hw => ?_)
      by_cases hne : w ≠ v ∨ t ≠ s.term v
      · rwa [hother w t hne] at hw
      · -- who acknowledges in a term is still in it
        rw [not_or, not_not, not_not] at hne
        obtain ⟨rfl, rfl⟩ := hne
        exact .inr (Nat.le_refl _)
    quorum := by
      intro t j hc
      obtain ⟨r0, i, e, hj, hr0, he, htm, Q, hQ, hq, hv⟩ := h.quorum t j hc
      exact ⟨r0, i, e, hj, hr0, he, htm, Q, hQ, hq, fun w hw => (hv w hw).trans (hmono w t)⟩
    known := h.known }

/-- Learning keeps the invariant. -/
theorem Inv.learn (h : s.Inv El tm) {v : V} {k : Nat} (hk : s.Knows (s.term v) (s.log v) k) :
    (s.learn v k).Inv El tm where
  voted := h.voted
  backed := h.backed
  bids := h.bids
  positive := h.positive
  won := h.won
  inTerm := h.inTerm
  leads := h.leads
  traced := h.traced
  bounded := h.bounded
  acks := h.acks
  kept := h.kept
  keptVote := h.keptVote
  complete := h.complete
  quorum := h.quorum
  known := by
    intro w
    by_cases hw : w = v
    · subst hw
      rw [show (s.learn w k).known w = max (s.known w) k from Function.update_self _ _ _]
      rcases Nat.le_total (s.known w) k with hle | hle
      · rw [Nat.max_eq_right hle]
        exact hk
      · rw [Nat.max_eq_left hle]
        exact h.known w
    · rw [show (s.learn v k).known w = s.known w from Function.update_of_ne hw _ _]
      exact h.known w

/-- Every move keeps the invariant. -/
theorem Step.inv {v : V} (hs : Step El tm s v s') (h : s.Inv El tm) : s'.Inv El tm := by
  cases hs with
  | raise ht => exact h.raise ht
  | stand => exact h.stand v
  | vote hfree hb hu => exact h.vote hfree hb hu
  | elect hw hb hnew => exact h.elect hw hb hnew
  | append hr _ hl he => exact h.append hr hl he
  | accept hr hℓ hkeep => exact h.accept hr hℓ hkeep
  | ack hr hk hl => exact h.ack hr hk hl
  | choose hr he ht hq => exact h.choose hr he ht hq
  | learn hk => exact h.learn hk

/-! ## What moves leave behind -/

/-- What only grows, and what the moves of `v` leave alone. -/
structure Evolves (v : V) (s s' : Replicas V E) : Prop where
  term : ∀ w, s.term w ≤ s'.term w
  cast : s.cast.Le s'.cast
  bid : ∀ c t b, s.bid c t = some b → s'.bid c t = some b
  reigns : s.reigns.Grows s'.reigns
  acked : ∀ w t, s.acked w t ≤ s'.acked w t
  chosen : ∀ t k, s.chosen t k → s'.chosen t k
  known : ∀ w, s.known w ≤ s'.known w
  others : ∀ w, w ≠ v → s'.term w = s.term w ∧ s'.log w = s.log w ∧ s'.cast w = s.cast w
  /-- the reigns of others -/
  rest : ∀ t r, s'.reigns t = some r → r.leader ≠ v → s.reigns t = some r

omit [DecidableEq V] in
theorem Evolves.refl (v : V) (s : Replicas V E) : s.Evolves v s :=
  ⟨fun _ => Nat.le_refl _, .refl _, fun _ _ _ h => h, .refl _, fun _ _ => Nat.le_refl _,
    fun _ _ h => h, fun _ => Nat.le_refl _, fun _ _ => ⟨rfl, rfl, rfl⟩, fun _ _ h _ => h⟩

omit [DecidableEq V] in
theorem Evolves.trans {v : V} {s s' s'' : Replicas V E} (h : s.Evolves v s')
    (h' : s'.Evolves v s'') : s.Evolves v s'' where
  term := fun w => (h.term w).trans (h'.term w)
  cast := h.cast.trans h'.cast
  bid := fun c t b hb => h'.bid c t b (h.bid c t b hb)
  reigns := h.reigns.trans h'.reigns
  acked := fun w t => (h.acked w t).trans (h'.acked w t)
  chosen := fun t k hc => h'.chosen t k (h.chosen t k hc)
  known := fun w => (h.known w).trans (h'.known w)
  others := fun w hw => by
    obtain ⟨h1, h2, h3⟩ := h.others w hw
    obtain ⟨h1', h2', h3'⟩ := h'.others w hw
    exact ⟨h1'.trans h1, h2'.trans h2, h3'.trans h3⟩
  rest := fun t r hr hv => h.rest t r (h'.rest t r hr hv) hv

theorem Step.evolves {v : V} (hs : Step El tm s v s') (h : s.Inv El tm) : s.Evolves v s' := by
  have hx := Evolves.refl v s
  cases hs with
  | raise ht =>
    exact { hx with
      term := le_update (Nat.le_of_lt ht)
      others := fun w hw => ⟨Function.update_of_ne hw _ _, rfl, rfl⟩ }
  | stand =>
    have hlt : s.term v < s.term v + 1 := Nat.lt_succ_self _
    exact { hx with
      term := le_update (Nat.le_of_lt hlt)
      cast := Votes.le_record (.inl (h.cast_none hlt))
      bid := fun c t b hb => by
        refine (update₂_of_ne ?_).trans hb
        by_contra hn
        rw [not_or, not_not, not_not] at hn
        obtain ⟨rfl, rfl⟩ := hn
        rw [h.bid_none hlt] at hb
        cases hb
      others := fun w hw => ⟨Function.update_of_ne hw _ _, rfl, Votes.record_other hw⟩ }
  | vote hfree =>
    exact { hx with
      cast := Votes.le_record (.inl hfree)
      others := fun w hw => ⟨rfl, rfl, Votes.record_other hw⟩ }
  | elect hw hb hnew =>
    exact { hx with
      reigns := fun t r hr => by
        refine ⟨[], ?_⟩
        rw [List.append_nil, ← hr]
        exact Function.update_of_ne (fun ht => by rw [ht, hnew] at hr; cases hr) _ _
      others := fun w hw => ⟨rfl, rfl, rfl⟩
      rest := fun t r hr hne => by
        by_cases ht : t = s.term v
        · subst ht
          have hr' : some (⟨v, s.log v, []⟩ : Reign V E) = some r :=
            (Function.update_self (s.term v) _ s.reigns).symm.trans hr
          cases hr'
          exact absurd rfl hne
        · exact (Function.update_of_ne ht _ _).symm.trans hr }
  | @append r e hr hv hl he =>
    exact { hx with
      reigns := fun t r0 hr0 => by
        by_cases ht : t = s.term v
        · subst ht
          rw [hr] at hr0
          cases hr0
          exact ⟨[e], Function.update_self _ _ _⟩
        · exact ⟨[], by rw [List.append_nil, ← hr0]; exact Function.update_of_ne ht _ _⟩
      others := fun w hw => ⟨rfl, Function.update_of_ne hw _ _, rfl⟩
      rest := fun t r0 hr0 hne => by
        by_cases ht : t = s.term v
        · subst ht
          have hr' : some (⟨r.leader, r.base, r.own ++ [e]⟩ : Reign V E) = some r0 :=
            (Function.update_self (s.term v) _ s.reigns).symm.trans hr0
          cases hr'
          exact absurd hv hne
        · exact (Function.update_of_ne ht _ _).symm.trans hr0 }
  | accept => exact { hx with others := fun w hw => ⟨rfl, Function.update_of_ne hw _ _, rfl⟩ }
  | ack =>
    exact { hx with
      acked := fun w t => by
        by_cases hne : w ≠ v ∨ t ≠ s.term v
        · exact Nat.le_of_eq (update₂_of_ne hne).symm
        · rw [not_or, not_not, not_not] at hne
          obtain ⟨rfl, rfl⟩ := hne
          exact (Nat.le_max_left _ _).trans (Nat.le_of_eq (update₂_self _ _ _ _).symm)
      others := fun w hw => ⟨rfl, rfl, rfl⟩ }
  | choose => exact { hx with chosen := fun _ _ hc => .inl hc, others := fun w hw => ⟨rfl, rfl, rfl⟩ }
  | learn =>
    exact { hx with
      known := le_update (Nat.le_max_left _ _)
      others := fun w hw => ⟨rfl, rfl, rfl⟩ }

/-- A series of moves keeps the invariant, and leaves behind what one move does. -/
theorem Acts.inv {v : V} (ha : Acts El tm v s s') (h : s.Inv El tm) :
    s'.Inv El tm ∧ s.Evolves v s' := by
  induction ha with
  | refl => exact ⟨h, .refl v s⟩
  | tail _ hs ih => exact ⟨hs.inv ih.1, ih.2.trans (hs.evolves ih.1)⟩

omit [DecidableEq V] in
/-- What is known of a log is known of a longer one, later on. -/
theorem Inv.knows_evolves (h : s.Inv El tm) {v : V} (hx : s.Evolves v s') {u u' k : Nat}
    {ℓ ℓ' : List E} (hk : s.Knows u ℓ k) (hu : u ≤ u') (hℓ : ℓ <+: ℓ') : s'.Knows u' ℓ' k :=
  h.knows_mono hk hx.chosen hx.reigns hu fun _ _ _ _ _ _ _ hp => hp.trans hℓ

end Replicas

end Rdsctl
