import Rdsctl.Lib.Replication

/-!
# Settled entries

An entry is settled at an index when it stands there in a chosen prefix. Settled entries do not
contradict each other, they stay settled, and every later leader starts with them.
-/

namespace Rdsctl

namespace Replicas

variable {V E : Type}

/-- The entry `e` stands at index `idx`, counted from 1, of a prefix chosen in a term up to `u`. -/
def Settled (s : Replicas V E) (u idx : Nat) (e : E) : Prop :=
  0 < idx ∧ ∃ t m r, s.chosen t m ∧ s.reigns t = some r ∧ t ≤ u ∧ idx ≤ m ∧ r.log[idx - 1]? = some e

variable {El : Electorate V} {tm : E → Nat} {s s' : Replicas V E} {u idx : Nat} {e e' : E}

theorem Settled.later {u' : Nat} (h : s.Settled u idx e) (hu : u ≤ u') : s.Settled u' idx e := by
  obtain ⟨hpos, t, m, r, hc, hr, ht, hm, he⟩ := h
  exact ⟨hpos, t, m, r, hc, hr, ht.trans hu, hm, he⟩

theorem Settled.evolves {v : V} (h : s.Settled u idx e) (hx : s.Evolves v s') :
    s'.Settled u idx e := by
  obtain ⟨hpos, t, m, r, hc, hr, ht, hm, he⟩ := h
  obtain ⟨r', hr', -, -, hle⟩ := hx.reigns.log hr
  exact ⟨hpos, t, m, r', hx.chosen t m hc, hr', ht, hm, getElem?_mono hle he⟩

/-- One entry at most is settled at an index. -/
theorem Inv.settled_unique (h : s.Inv El tm) {u' : Nat} (he : s.Settled u idx e)
    (he' : s.Settled u' idx e') : e = e' := by
  obtain ⟨hpos, t, m, r, hc, hr, -, hm, he⟩ := he
  obtain ⟨-, t', m', r', hc', hr', -, hm', he'⟩ := he'
  have hag : r.log[idx - 1]? = r'.log[idx - 1]? :=
    h.chosen_agree hc hc' hr hr' (by omega) (by omega)
  rw [he, he'] at hag
  exact Option.some.inj hag

/-- What is known of a log is settled. -/
theorem Inv.settled_of_knows (h : s.Inv El tm) {k : Nat} {ℓ : List E} (hk : s.Knows u ℓ k)
    (hpos : 0 < idx) (hle : idx ≤ k) (he : ℓ[idx - 1]? = some e) : s.Settled u idx e := by
  rcases hk with rfl | ⟨t, m, r, hc, hr, ht, hm, hp⟩
  · omega
  · refine ⟨hpos, t, m, r, hc, hr, ht, hle.trans hm, ?_⟩
    have hlen := h.le_length_of_chosen hc hr
    have hlt : idx - 1 < (r.log.take k).length := by
      simp only [List.length_take]
      omega
    exact getElem?_mono (List.take_prefix _ _) (prefix_getElem? hp hlt he)

/-- Every entry that is known of a log is settled. -/
theorem Inv.exists_settled (h : s.Inv El tm) {k : Nat} {ℓ : List E} (hk : s.Knows u ℓ k)
    (hpos : 0 < idx) (hle : idx ≤ k) : ∃ e, ℓ[idx - 1]? = some e ∧ s.Settled u idx e := by
  have hlen := h.le_length_of_knows hk
  have hlt : idx - 1 < ℓ.length := by omega
  exact ⟨_, List.getElem?_eq_getElem hlt,
    h.settled_of_knows hk hpos hle (List.getElem?_eq_getElem hlt)⟩

/-- A leader knows the prefix that ends with a settled entry. -/
theorem Inv.knows_of_settled (h : s.Inv El tm) {t : Nat} {r : Reign V E} (he : s.Settled u idx e)
    (hr : s.reigns t = some r) (hu : u ≤ t) : s.Knows t r.log idx := by
  obtain ⟨-, t', m, r', hc, hr', ht, hm, -⟩ := he
  refine .inr ⟨t', m, r', hc, hr', ht.trans hu, hm, ?_⟩
  exact (List.take_prefix_take_left hm).trans (h.chosen_prefix hc hr' hr (ht.trans hu))

/-- The log of a leader has the settled entries. -/
theorem Inv.log_of_settled (h : s.Inv El tm) {t : Nat} {r : Reign V E} (he : s.Settled u idx e)
    (hr : s.reigns t = some r) (hu : u ≤ t) : r.log[idx - 1]? = some e := by
  obtain ⟨hpos, t', m, r', hc, hr', ht, hm, he⟩ := he
  have hp := h.chosen_prefix hc hr' hr (ht.trans hu)
  have hlt : idx - 1 < m := by omega
  exact getElem?_mono hp (by rw [List.getElem?_take_of_lt hlt, he])

/-- The leader of a later term starts with the settled entries. -/
theorem Inv.base_of_settled (h : s.Inv El tm) {t : Nat} {r : Reign V E} (he : s.Settled u idx e)
    (hr : s.reigns t = some r) (hu : u < t) : r.base[idx - 1]? = some e := by
  obtain ⟨hpos, t', m, r', hc, hr', ht, hm, he⟩ := he
  have hp := h.complete_of_chosen hc hr' hr (ht.trans_lt hu)
  have hlt : idx - 1 < m := by omega
  exact getElem?_mono hp (by rw [List.getElem?_take_of_lt hlt, he])

end Replicas

end Rdsctl
