import Mathlib.Data.Finset.Card
import Mathlib.Logic.Function.Basic

/-!
# Votes and quorums

An electorate is a finite set of voters with a quorum size two of which always meet. A record of
votes gives each voter at most one vote in each term; it only grows. A candidate that a quorum has
voted for has won its term, for ever, and no other candidate wins it.
-/

namespace Rdsctl

variable {V : Type}

/-- A set of voters any two quorums of which share a member. -/
structure Electorate (V : Type) where
  voters : Finset V
  quorum : Nat
  meet : voters.card < quorum + quorum

/-- Who each voter has voted for, term by term. -/
abbrev Votes (V : Type) : Type := V → Nat → Option V

namespace Votes

/-- No vote is withdrawn. -/
def Le (cast cast' : Votes V) : Prop := ∀ v t c, cast v t = some c → cast' v t = some c

theorem Le.refl (cast : Votes V) : cast.Le cast := fun _ _ _ h => h

theorem Le.trans {cast cast' cast'' : Votes V} (h : cast.Le cast') (h' : cast'.Le cast'') :
    cast.Le cast'' := fun v t c hc => h' v t c (h v t c hc)

section
variable [DecidableEq V]

/-- The record with one more vote. -/
def record (cast : Votes V) (v : V) (t : Nat) (c : V) : Votes V :=
  Function.update cast v (Function.update (cast v) t (some c))

@[simp] theorem record_self (cast : Votes V) (v : V) (t : Nat) (c : V) :
    cast.record v t c v t = some c := by
  simp [record]

theorem record_term {cast : Votes V} {v : V} {t t' : Nat} {c : V} (h : t' ≠ t) :
    cast.record v t c v t' = cast v t' := by
  simp [record, h]

theorem record_other {cast : Votes V} {v v' : V} {t : Nat} {c : V} (h : v' ≠ v) :
    cast.record v t c v' = cast v' := by
  simp [record, h]

/-- A voter that has not voted for another candidate may vote. -/
theorem le_record {cast : Votes V} {v : V} {t : Nat} {c : V}
    (h : cast v t = none ∨ cast v t = some c) : cast.Le (cast.record v t c) := by
  intro v' t' c' hc
  by_cases hv : v' = v
  · subst hv
    by_cases ht : t' = t
    · subst ht
      rw [hc] at h
      rcases h with h | h
      · cases h
      · cases h
        simp
    · rw [record_term ht, hc]
  · rw [record_other hv, hc]

/-- A recorded vote is the new one or an old one. -/
theorem record_inv {cast : Votes V} {v w c c' : V} {t t' : Nat}
    (h : cast.record v t c w t' = some c') :
    (w = v ∧ t' = t ∧ c' = c) ∨ ((w ≠ v ∨ t' ≠ t) ∧ cast w t' = some c') := by
  by_cases hw : w = v
  · subst hw
    by_cases ht : t' = t
    · subst ht
      rw [record_self] at h
      exact .inl ⟨rfl, rfl, (Option.some.inj h).symm⟩
    · rw [record_term ht] at h
      exact .inr ⟨.inr ht, h⟩
  · rw [record_other hw] at h
    exact .inr ⟨.inl hw, h⟩

end

end Votes

namespace Electorate

/-- Two quorums share a voter. -/
theorem exists_common [DecidableEq V] {E : Electorate V} {Q Q' : Finset V} (hQ : Q ⊆ E.voters)
    (hQ' : Q' ⊆ E.voters) (hq : E.quorum ≤ Q.card) (hq' : E.quorum ≤ Q'.card) :
    ∃ v, v ∈ Q ∧ v ∈ Q' := by
  have hlt : E.voters.card < Q.card + Q'.card := by
    have := E.meet
    omega
  obtain ⟨v, hv⟩ := Finset.inter_nonempty_of_card_lt_card_add_card hQ hQ' hlt
  exact ⟨v, Finset.mem_inter.1 hv⟩

/-- A quorum has voted for the candidate. -/
def Won (E : Electorate V) (cast : Votes V) (t : Nat) (c : V) : Prop :=
  ∃ Q ⊆ E.voters, E.quorum ≤ Q.card ∧ ∀ v ∈ Q, cast v t = some c

variable {E : Electorate V} {cast cast' : Votes V} {t : Nat} {c c' : V}

/-- A term once won stays won. -/
theorem Won.mono (hle : cast.Le cast') (h : E.Won cast t c) : E.Won cast' t c := by
  obtain ⟨Q, hQ, hq, hc⟩ := h
  exact ⟨Q, hQ, hq, fun v hv => hle v t c (hc v hv)⟩

/-- A term has one winner. -/
theorem Won.unique [DecidableEq V] (h : E.Won cast t c) (h' : E.Won cast t c') : c = c' := by
  obtain ⟨Q, hQ, hq, hc⟩ := h
  obtain ⟨Q', hQ', hq', hc'⟩ := h'
  obtain ⟨v, hv, hv'⟩ := exists_common hQ hQ' hq hq'
  have hvote : some c = some c' := (hc v hv).symm.trans (hc' v hv')
  exact Option.some.inj hvote

end Electorate

end Rdsctl
