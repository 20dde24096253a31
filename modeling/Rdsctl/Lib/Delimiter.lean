import Mathlib.Data.List.Infix

/-!
# The first occurrence of a delimiter

What stands in front of the first occurrence of a delimiter in a list. It stays the same when the list is
continued (`First.append`), and it is the same in a part of the list that has all of the delimiter
(`First.of_append`). `position` finds it.
-/

namespace Rdsctl.Delimiter

variable {α : Type} {pat u v l m : List α} {a : α}

/-- `u` stands in front of the first `pat` in `l`. -/
structure First (pat u l : List α) : Prop where
  occurs : u ++ pat <+: l
  least : ∀ u', u' ++ pat <+: l → u.length ≤ u'.length

namespace First

/-- There is only one first occurrence. -/
theorem unique (hu : First pat u l) (hv : First pat v l) : u = v := by
  have hlen := Nat.le_antisymm (hu.least v hv.occurs) (hv.least u hu.occurs)
  have hpre := List.prefix_of_prefix_length_le ((List.prefix_append u pat).trans hu.occurs)
    ((List.prefix_append v pat).trans hv.occurs) (Nat.le_of_eq hlen)
  exact hpre.eq_of_length hlen

theorem of_prefix (h : pat <+: l) : First pat [] l := ⟨h, fun _ _ => Nat.zero_le _⟩

theorem length_le (h : First pat u l) : u.length + pat.length ≤ l.length := by
  simpa using h.occurs.length_le

/-- What follows does not matter. -/
theorem append (h : First pat u l) (m : List α) : First pat u (l ++ m) where
  occurs := h.occurs.trans (List.prefix_append l m)
  least u' hu' := by
    by_contra hlt
    have hle := h.length_le
    refine hlt (h.least u' (List.prefix_of_prefix_length_le hu' (List.prefix_append l m) ?_))
    rw [List.length_append]
    omega

/-- An occurrence that ends in a part of the list is the first one there. -/
theorem of_append (h : First pat u (l ++ m)) (hlen : u.length + pat.length ≤ l.length) :
    First pat u l where
  occurs := List.prefix_of_prefix_length_le h.occurs (List.prefix_append l m) (by simpa using hlen)
  least u' hu' := h.least u' (hu'.trans (List.prefix_append l m))

/-- Where the delimiter does not begin the list, an element can be taken off. -/
theorem cons_iff (hno : ¬pat <+: a :: l) : First pat (a :: u) (a :: l) ↔ First pat u l := by
  constructor
  · intro h
    refine ⟨(List.cons_prefix_cons.1 h.occurs).2, fun u' hu' => ?_⟩
    exact Nat.le_of_succ_le_succ (h.least (a :: u') (List.cons_prefix_cons.2 ⟨rfl, hu'⟩))
  · intro h
    refine ⟨List.cons_prefix_cons.2 ⟨rfl, h.occurs⟩, fun u' hu' => ?_⟩
    rcases u' with _ | ⟨b, u'⟩
    · exact absurd hu' hno
    · exact Nat.succ_le_succ (h.least u' (List.cons_prefix_cons.1 hu').2)

theorem cons_inv (hno : ¬pat <+: a :: l) (h : First pat u (a :: l)) :
    ∃ v, u = a :: v ∧ First pat v l := by
  rcases u with _ | ⟨b, v⟩
  · exact absurd h.occurs hno
  · obtain ⟨rfl, -⟩ := List.cons_prefix_cons.1 h.occurs
    exact ⟨v, rfl, (cons_iff hno).1 h⟩

/-- Where a delimiter occurs, one occurs first. -/
theorem exists_of_occurs (h : u ++ pat <+: l) : ∃ v, First pat v l := by
  classical
  induction l generalizing u with
  | nil =>
    obtain ⟨-, rfl⟩ := List.append_eq_nil_iff.1 (List.prefix_nil.1 h)
    exact ⟨[], of_prefix (List.nil_prefix)⟩
  | cons a l ih =>
    by_cases hpre : pat <+: a :: l
    · exact ⟨[], of_prefix hpre⟩
    · rcases u with _ | ⟨b, u⟩
      · exact absurd h hpre
      · obtain ⟨v, hv⟩ := ih (List.cons_prefix_cons.1 h).2
        exact ⟨a :: v, (cons_iff hpre).2 hv⟩

end First

/-- The place of the first window that is equal to the delimiter. -/
def position [DecidableEq α] (pat : List α) : List α → Option Nat
  | [] => if pat = [] then some 0 else none
  | a :: l => if pat <+: a :: l then some 0 else (position pat l).map (· + 1)

theorem position_eq_some [DecidableEq α] {i : Nat} :
    position pat l = some i ↔ ∃ u, First pat u l ∧ u.length = i := by
  induction l generalizing i with
  | nil =>
    rw [position]
    split
    next h =>
      subst h
      constructor
      · intro hi
        exact ⟨[], First.of_prefix List.nil_prefix, Option.some.inj hi⟩
      · rintro ⟨u, hu, rfl⟩
        rw [(List.append_eq_nil_iff.1 (List.prefix_nil.1 hu.occurs)).1]
        rfl
    next h =>
      refine ⟨nofun, ?_⟩
      rintro ⟨u, hu, -⟩
      exact absurd (List.append_eq_nil_iff.1 (List.prefix_nil.1 hu.occurs)).2 h
  | cons a l ih =>
    rw [position]
    split
    next hpre =>
      constructor
      · intro hi
        exact ⟨[], First.of_prefix hpre, Option.some.inj hi⟩
      · rintro ⟨u, hu, rfl⟩
        rw [hu.unique (First.of_prefix hpre)]
        rfl
    next hno =>
      constructor
      · intro hi
        obtain ⟨j, hj, rfl⟩ := Option.map_eq_some_iff.1 hi
        obtain ⟨u, hu, rfl⟩ := ih.1 hj
        exact ⟨a :: u, (First.cons_iff hno).2 hu, rfl⟩
      · rintro ⟨u, hu, rfl⟩
        obtain ⟨v, rfl, hv⟩ := hu.cons_inv hno
        exact Option.map_eq_some_iff.2 ⟨v.length, ih.2 ⟨v, hv, rfl⟩, rfl⟩

theorem position_eq_none [DecidableEq α] : position pat l = none ↔ ∀ u, ¬First pat u l := by
  rw [Option.eq_none_iff_forall_ne_some]
  exact ⟨fun h u hu => h _ (position_eq_some.2 ⟨u, hu, rfl⟩), fun h i hi =>
    (position_eq_some.1 hi).elim fun u hu => h u hu.1⟩

end Rdsctl.Delimiter
