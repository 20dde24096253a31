import Mathlib.Data.List.Basic
import Mathlib.Data.List.Infix

/-!
# Logs written by leaders

Entries carry the term they were written in. A `Reign` is the log of the leader of one term: what
it started with and what it added. A log is `Traced` when every entry of it stands, below the same
entries, in the log of the leader of its term. Two traced logs that agree on the term at a position
agree up to it (`Traced.take_eq`), and a traced log that is up to date with respect to another one
has, with the logs of later leaders, what that one has (`Traced.prefix_of_upToDate`).
-/

namespace Rdsctl

variable {V E : Type}

/-- The log of a leader: its owner, what it started with, and what it has added. -/
structure Reign (V E : Type) where
  leader : V
  base : List E
  own : List E

/-- The log of a reign. -/
def Reign.log (r : Reign V E) : List E := r.base ++ r.own

theorem Reign.base_prefix (r : Reign V E) : r.base <+: r.log := List.prefix_append _ _

/-- The reigns known so far, one for a term at most. -/
abbrev Reigns (V E : Type) : Type := Nat → Option (Reign V E)

/-- Reigns begin and add to their logs; nothing else happens to them. -/
def Reigns.Grows (R R' : Reigns V E) : Prop :=
  ∀ t r, R t = some r → ∃ own, R' t = some ⟨r.leader, r.base, r.own ++ own⟩

theorem Reigns.Grows.refl (R : Reigns V E) : R.Grows R := fun _ _ h => ⟨[], by simpa using h⟩

theorem Reigns.Grows.trans {R R' R'' : Reigns V E} (h : R.Grows R') (h' : R'.Grows R'') :
    R.Grows R'' := by
  intro t r hr
  obtain ⟨own, h1⟩ := h t r hr
  obtain ⟨own', h2⟩ := h' t _ h1
  exact ⟨own ++ own', by simpa using h2⟩

/-- The log of a reign only grows. -/
theorem Reigns.Grows.log {R R' : Reigns V E} (h : R.Grows R') {t : Nat} {r : Reign V E}
    (hr : R t = some r) :
    ∃ r', R' t = some r' ∧ r'.leader = r.leader ∧ r'.base = r.base ∧ r.log <+: r'.log := by
  obtain ⟨own, h1⟩ := h t r hr
  exact ⟨_, h1, rfl, rfl, own, by simp [Reign.log]⟩

variable (tm : E → Nat)

/-- The term of the last entry; 0 for an empty log. -/
def lastTm (ℓ : List E) : Nat := (ℓ.getLast?.map tm).getD 0

/-- A candidate's log `b` is as far as a voter's log `ℓ`. -/
def UpToDate (b ℓ : List E) : Prop :=
  lastTm tm ℓ < lastTm tm b ∨ (lastTm tm ℓ = lastTm tm b ∧ ℓ.length ≤ b.length)

theorem UpToDate.refl (ℓ : List E) : UpToDate tm ℓ ℓ := .inr ⟨rfl, Nat.le_refl _⟩

/-- Every entry stands, below the same entries, in the log of the leader of its term. -/
def Traced (R : Reigns V E) (ℓ : List E) : Prop :=
  ∀ i e, ℓ[i]? = some e → ∃ r, R (tm e) = some r ∧ ℓ.take (i + 1) <+: r.log

/-- A leader starts with entries of earlier terms and adds entries of its own. -/
def Reign.InTerm (t : Nat) (r : Reign V E) : Prop :=
  (∀ e ∈ r.base, tm e < t) ∧ ∀ e ∈ r.own, tm e = t

variable {tm} {R R' : Reigns V E} {ℓ ℓ' p b : List E}

theorem traced_nil : Traced tm R [] := by
  intro i e h
  simp at h

theorem Traced.grows (h : Traced tm R ℓ) (hg : R.Grows R') : Traced tm R' ℓ := by
  intro i e he
  obtain ⟨r, hr, hp⟩ := h i e he
  obtain ⟨r', hr', -, -, hle⟩ := hg.log hr
  exact ⟨r', hr', hp.trans hle⟩

/-- A prefix agrees with the whole on the positions it has. -/
theorem getElem?_mono (hp : p <+: ℓ) {i : Nat} {e : E} (h : p[i]? = some e) :
    ℓ[i]? = some e := by
  obtain ⟨s, rfl⟩ := hp
  obtain ⟨hi, -⟩ := List.getElem?_eq_some_iff.1 h
  rw [List.getElem?_append_left hi, h]

/-- What the whole has at a position of the prefix, the prefix has. -/
theorem prefix_getElem? (hp : p <+: ℓ) {i : Nat} {e : E} (hi : i < p.length)
    (h : ℓ[i]? = some e) : p[i]? = some e := by
  obtain ⟨s, rfl⟩ := hp
  rwa [List.getElem?_append_left hi] at h

/-- Two prefixes of one list, of one length, are one. -/
theorem eq_of_prefix_of_length {q : List E} (hp : p <+: ℓ) (hq : q <+: ℓ)
    (h : p.length = q.length) : p = q :=
  (List.prefix_of_prefix_length_le hp hq (Nat.le_of_eq h)).eq_of_length h

/-- Two lists have a longest common prefix. -/
theorem exists_common_prefix (a b : List E) :
    ∃ p, p <+: a ∧ p <+: b ∧ ∀ q, q <+: a → q <+: b → q <+: p := by
  induction a generalizing b with
  | nil => exact ⟨[], List.nil_prefix, List.nil_prefix, fun q hq _ => hq⟩
  | cons x a ih =>
    by_cases hb : ∃ b', b = x :: b'
    · obtain ⟨b', rfl⟩ := hb
      obtain ⟨p, hpa, hpb, hmax⟩ := ih b'
      refine ⟨x :: p, List.cons_prefix_cons.2 ⟨rfl, hpa⟩, List.cons_prefix_cons.2 ⟨rfl, hpb⟩, ?_⟩
      intro q hqa hqb
      cases q with
      | nil => exact List.nil_prefix
      | cons y q =>
        obtain ⟨rfl, ha⟩ := List.cons_prefix_cons.1 hqa
        exact List.cons_prefix_cons.2 ⟨rfl, hmax q ha (List.cons_prefix_cons.1 hqb).2⟩
    · -- the lists differ at once
      refine ⟨[], List.nil_prefix, List.nil_prefix, fun q hqa hqb => ?_⟩
      cases q with
      | nil => exact List.nil_prefix
      | cons y q =>
        obtain ⟨rfl, -⟩ := List.cons_prefix_cons.1 hqa
        obtain ⟨t, rfl⟩ := hqb
        exact absurd ⟨_, rfl⟩ hb

theorem length_take_succ {i : Nat} {e : E} (h : ℓ[i]? = some e) :
    (ℓ.take (i + 1)).length = i + 1 := by
  obtain ⟨hi, -⟩ := List.getElem?_eq_some_iff.1 h
  simp only [List.length_take]
  omega

theorem Traced.restrict (h : Traced tm R ℓ) (hp : p <+: ℓ) : Traced tm R p := by
  intro i e he
  obtain ⟨r, hr, hle⟩ := h i e (getElem?_mono hp he)
  refine ⟨r, hr, ?_⟩
  rw [List.prefix_iff_eq_take.1 hp, List.take_take]
  obtain ⟨hi, -⟩ := List.getElem?_eq_some_iff.1 he
  rwa [Nat.min_eq_left hi]

/-- An entry that is added to a traced log and ends the log of its leader is traced. -/
theorem Traced.append {e : E} {r : Reign V E} (h : Traced tm R ℓ) (hr : R (tm e) = some r)
    (hp : ℓ ++ [e] <+: r.log) : Traced tm R (ℓ ++ [e]) := by
  intro i e' he
  rcases Nat.lt_or_ge i ℓ.length with hi | hi
  · rw [List.getElem?_append_left hi] at he
    rw [List.take_append_of_le_length hi]
    exact h i e' he
  · obtain ⟨hlt, -⟩ := List.getElem?_eq_some_iff.1 he
    have heq : i = ℓ.length := by
      simp only [List.length_append, List.length_singleton] at hlt
      omega
    subst heq
    rw [List.getElem?_concat_length] at he
    cases he
    exact ⟨r, hr, (List.take_prefix _ _).trans hp⟩

/-- Log matching: traced logs with one term at a position agree up to it. -/
theorem Traced.take_eq (h : Traced tm R ℓ) (h' : Traced tm R ℓ') {i : Nat} {e e' : E}
    (he : ℓ[i]? = some e) (he' : ℓ'[i]? = some e') (ht : tm e = tm e') :
    ℓ.take (i + 1) = ℓ'.take (i + 1) := by
  obtain ⟨r, hr, hp⟩ := h i e he
  obtain ⟨r', hr', hp'⟩ := h' i e' he'
  rw [← ht, hr] at hr'
  cases hr'
  exact eq_of_prefix_of_length hp hp' (by rw [length_take_succ he, length_take_succ he'])

theorem lastTm_eq_of_getLast? {e : E} (h : ℓ.getLast? = some e) : lastTm tm ℓ = tm e := by
  simp [lastTm, h]

theorem getElem?_length_sub_one {e : E} (h : ℓ.getLast? = some e) :
    ℓ[ℓ.length - 1]? = some e := by
  rwa [List.getLast?_eq_getElem?] at h

/-- A traced log is a prefix of the log of the leader of its last term. -/
theorem Traced.prefix_last (h : Traced tm R ℓ) {e : E} (he : ℓ.getLast? = some e) :
    ∃ r, R (tm e) = some r ∧ ℓ <+: r.log := by
  obtain ⟨r, hr, hp⟩ := h _ e (getElem?_length_sub_one he)
  refine ⟨r, hr, ?_⟩
  have hne : ℓ ≠ [] := by rintro rfl; cases he
  have hlen : ℓ.length - 1 + 1 = ℓ.length := by
    have := List.length_pos_iff.2 hne
    omega
  rwa [hlen, List.take_length] at hp

/-- The terms of a traced log do not fall towards its end. -/
theorem Traced.tm_le_lastTm (hr : ∀ t r, R t = some r → r.InTerm tm t) (h : Traced tm R ℓ) {i : Nat}
    {e : E} (he : ℓ[i]? = some e) : tm e ≤ lastTm tm ℓ := by
  cases hl : ℓ.getLast? with
  | none =>
    rw [List.getLast?_eq_none_iff] at hl
    subst hl
    simp at he
  | some e' =>
    rw [lastTm_eq_of_getLast? hl]
    obtain ⟨r, hr', hp⟩ := h.prefix_last hl
    obtain ⟨hb, ho⟩ := hr _ _ hr'
    have hmem : e ∈ r.base ++ r.own := List.mem_of_getElem? (getElem?_mono hp he)
    rcases List.mem_append.1 hmem with hm | hm
    · exact Nat.le_of_lt (hb e hm)
    · exact Nat.le_of_eq (ho e hm)

/-- The start of a reign is a prefix of every traced log that ends in the term of the reign. -/
theorem Traced.base_prefix (hr : ∀ t r, R t = some r → r.InTerm tm t) (h : Traced tm R ℓ) {e : E}
    {r : Reign V E} (he : ℓ.getLast? = some e) (hR : R (tm e) = some r) : r.base <+: ℓ := by
  obtain ⟨r', hr', hp⟩ := h.prefix_last he
  rw [hR] at hr'
  cases hr'
  obtain ⟨hb, -⟩ := hr _ _ hR
  refine List.prefix_of_prefix_length_le r.base_prefix hp ?_
  by_contra hlt
  have hle : ℓ <+: r.base := List.prefix_of_prefix_length_le hp r.base_prefix (by omega)
  have hmem : e ∈ r.base := hle.subset (List.mem_of_getLast? he)
  exact Nat.lt_irrefl _ (hb e hmem)

/-- What an up-to-date log keeps of an older one: the older log's prefix `p` of term `t`, when every
leader of a later term has started with `p`. -/
theorem Traced.prefix_of_upToDate {t : Nat} (hr : ∀ t r, R t = some r → r.InTerm tm t)
    (hℓ : Traced tm R ℓ) (hb : Traced tm R b) (hu : UpToDate tm b ℓ) (hp : p <+: ℓ) {i : Nat} {e : E}
    (he : p[i]? = some e) (ht : tm e = t)
    (hlater : ∀ e', b.getLast? = some e' → ∀ r, t < tm e' → R (tm e') = some r → p <+: r.base) :
    p <+: b := by
  have hge : t ≤ lastTm tm ℓ := ht ▸ hℓ.tm_le_lastTm hr (getElem?_mono hp he)
  have hne : ℓ ≠ [] := by
    rintro rfl
    rw [List.prefix_nil.1 hp] at he
    simp at he
  obtain ⟨x, hx⟩ : ∃ x, ℓ.getLast? = some x := ⟨_, List.getLast?_eq_some_getLast hne⟩
  rw [lastTm_eq_of_getLast? hx] at hge
  cases hy : b.getLast? with
  | none =>
    -- an empty log is up to date with empty logs only
    have hb0 : b = [] := List.getLast?_eq_none_iff.1 hy
    subst hb0
    rcases hu with hu | ⟨-, hu⟩
    · simp [lastTm] at hu
    · exact absurd (List.length_eq_zero_iff.1 (Nat.le_zero.1 hu)) hne
  | some y =>
    rw [UpToDate, lastTm_eq_of_getLast? hx, lastTm_eq_of_getLast? hy] at hu
    rcases hu with hu | ⟨heq, hlen⟩
    · -- `b` ends in a later term, whose leader started with `p`
      obtain ⟨r, hR, -⟩ := hb.prefix_last hy
      exact (hlater y hy r (Nat.lt_of_le_of_lt hge hu) hR).trans (hb.base_prefix hr hy hR)
    · -- both logs are prefixes of the log of one leader
      obtain ⟨r, hR, hpℓ⟩ := hℓ.prefix_last hx
      obtain ⟨r', hR', hpb⟩ := hb.prefix_last hy
      rw [← heq, hR] at hR'
      cases hR'
      exact hp.trans (List.prefix_of_prefix_length_le hpℓ hpb hlen)

end Rdsctl
