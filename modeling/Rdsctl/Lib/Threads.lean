import Mathlib.Data.List.Basic

/-!
# Threads that take turns

The threads of an interleaved system are a list of their states, and a step changes one entry or
appends one. `Apart R` says of any two of them that their states may stand together; a step keeps it
when the new state may stand beside every other thread's.
-/

namespace Rdsctl

/-- Any two threads are in states that may stand together. -/
def Apart {α : Type} (R : α → α → Prop) (ts : List α) : Prop :=
  ∀ (i j : Nat) (a b : α), i ≠ j → ts[i]? = some a → ts[j]? = some b → R a b

namespace Apart

variable {α : Type} {R : α → α → Prop} {ts : List α}

theorem nil : Apart R [] := by
  intro i j a b _ ha
  cases ha

/-- A thread moves to a state that may stand beside every other thread's. -/
theorem set (h : Apart R ts) (i : Nat) {a : α}
    (hnew : ∀ j b, j ≠ i → ts[j]? = some b → R a b ∧ R b a) : Apart R (ts.set i a) := by
  intro j k b c hne hb hc
  rw [List.getElem?_set] at hb hc
  by_cases hj : i = j
  · rw [if_pos hj] at hb
    rw [if_neg fun hk => hne (hj.symm.trans hk)] at hc
    split at hb
    · cases hb
      exact (hnew k c (fun hk => hne (hj.symm.trans hk.symm)) hc).1
    · cases hb
  · rw [if_neg hj] at hb
    by_cases hk : i = k
    · rw [if_pos hk] at hc
      split at hc
      · cases hc
        exact (hnew j b (fun he => hj he.symm) hb).2
      · cases hc
    · rw [if_neg hk] at hc
      exact h j k b c hne hb hc

/-- A thread moves to a state that may stand beside whatever its old one may. -/
theorem weaken (h : Apart R ts) {i : Nat} {a a' : α} (hi : ts[i]? = some a)
    (hw : ∀ b, (R a b → R a' b) ∧ (R b a → R b a')) : Apart R (ts.set i a') :=
  h.set i fun j b hj hb =>
    ⟨(hw b).1 (h i j a b hj.symm hi hb), (hw b).2 (h j i b a hj hb hi)⟩

/-- A thread starts in a state that may stand beside every other thread's. -/
theorem append (h : Apart R ts) {a : α} (hnew : ∀ b ∈ ts, R a b ∧ R b a) :
    Apart R (ts ++ [a]) := by
  intro j k b c hne hb hc
  rw [List.getElem?_append] at hb hc
  split at hb
  · split at hc
    · exact h j k b c hne hb hc
    · rcases List.getElem?_eq_some_iff.1 hc with ⟨hlen, heq⟩
      rw [List.getElem_singleton] at heq
      subst heq
      exact (hnew b (List.mem_of_getElem? hb)).2
  · split at hc
    · rcases List.getElem?_eq_some_iff.1 hb with ⟨hlen, heq⟩
      rw [List.getElem_singleton] at heq
      subst heq
      exact (hnew c (List.mem_of_getElem? hc)).1
    · rcases List.getElem?_eq_some_iff.1 hb with ⟨hb, -⟩
      rcases List.getElem?_eq_some_iff.1 hc with ⟨hc, -⟩
      rw [List.length_singleton] at hb hc
      omega

/-- Two threads whose states may not stand together are one. -/
theorem eq_of_not (h : Apart R ts) {i j : Nat} {a b : α} (ha : ts[i]? = some a)
    (hb : ts[j]? = some b) (hn : ¬ R a b) : i = j := by
  by_contra hne
  exact hn (h i j a b hne ha hb)

end Apart

/-- After a step of a thread, a thread is the one that has moved or is where it was. -/
theorem getElem?_set_cases {α : Type} {ts : List α} {i j : Nat} {a b : α}
    (h : (ts.set i a)[j]? = some b) : j = i ∧ b = a ∨ j ≠ i ∧ ts[j]? = some b := by
  rw [List.getElem?_set] at h
  split at h
  next hij =>
    split at h
    · cases h
      exact .inl ⟨hij.symm, rfl⟩
    · cases h
  next hij => exact .inr ⟨fun hji => hij hji.symm, h⟩

/-- After a start, a thread is the one that has started or was there before. -/
theorem getElem?_concat_cases {α : Type} {ts : List α} {j : Nat} {a b : α}
    (h : (ts ++ [a])[j]? = some b) : b = a ∨ ts[j]? = some b := by
  rw [List.getElem?_append] at h
  split at h
  · exact .inr h
  · exact .inl (List.mem_singleton.1 (List.mem_of_getElem? h))

/-- What holds of the other threads and of the new state of one holds of all threads. -/
theorem forall_mem_set {α : Type} {P : α → Prop} {ts : List α} {i : Nat} {a : α} (ha : P a)
    (h : ∀ (j : Nat) (b : α), j ≠ i → ts[j]? = some b → P b) : ∀ b ∈ ts.set i a, P b := by
  intro b hb
  obtain ⟨j, hj⟩ := List.mem_iff_getElem?.1 hb
  rw [List.getElem?_set] at hj
  split at hj
  · split at hj
    · cases hj
      exact ha
    · cases hj
  · next hne => exact h j b (fun he => hne he.symm) hj

end Rdsctl
