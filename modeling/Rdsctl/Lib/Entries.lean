import Mathlib.Data.List.Perm.Basic
import Std.Data.ExtTreeMap
import Mathlib.Algebra.Ring.Nat

/-!
# Sums over the entries of a map

A weight of values, summed over the entries of a map. An insertion changes the sum by the value that
comes and the value that it replaces (`total_insert`), a removal by the value that goes (`total_erase`).
-/

namespace Rdsctl.Entries

variable {α β : Type} [Ord α] [Std.TransOrd α] [Std.LawfulEqOrd α]

/-- The sum of a weight over the entries. -/
def total (w : β → Nat) (m : Std.ExtTreeMap α β) : Nat := (m.toList.map fun e => w e.2).sum

omit [Std.LawfulEqOrd α] in
theorem nodup_toList (m : Std.ExtTreeMap α β) : m.toList.Nodup :=
  m.distinct_keys_toList.imp fun {a b} h heq => by
    rw [heq] at h
    exact h Std.ReflOrd.compare_self

theorem mem_toList_iff {m : Std.ExtTreeMap α β} {e : α × β} : e ∈ m.toList ↔ m[e.1]? = some e.2 :=
  Std.ExtTreeMap.mem_toList_iff_getElem?_eq_some

theorem mem_toList_erase {m : Std.ExtTreeMap α β} {k : α} {e : α × β} :
    e ∈ (m.erase k).toList ↔ e.1 ≠ k ∧ e ∈ m.toList := by
  simp only [mem_toList_iff, Std.ExtTreeMap.getElem?_erase, Std.LawfulEqCmp.compare_eq_iff_eq]
  rcases eq_or_ne e.1 k with heq | hne
  · simp [heq]
  · simp [hne, hne.symm]

/-- The entry under a key, and what a removal leaves. -/
theorem toList_perm_erase {m : Std.ExtTreeMap α β} {k : α} {v : β} (h : m[k]? = some v) :
    m.toList.Perm ((k, v) :: (m.erase k).toList) := by
  have hnew : (k, v) ∉ (m.erase k).toList := fun hmem => (mem_toList_erase.1 hmem).1 rfl
  refine (List.perm_ext_iff_of_nodup (nodup_toList m)
    (List.nodup_cons.2 ⟨hnew, nodup_toList _⟩)).2 fun e => ?_
  rw [List.mem_cons, mem_toList_erase]
  rcases eq_or_ne e.1 k with heq | hne
  · rw [mem_toList_iff, heq, h, Prod.ext_iff, heq]
    simp [eq_comm]
  · simp [hne, Prod.ext_iff]

/-- An insertion puts an entry to what a removal leaves. -/
theorem toList_insert_perm (m : Std.ExtTreeMap α β) (k : α) (v : β) :
    (m.insert k v).toList.Perm ((k, v) :: (m.erase k).toList) := by
  have hsame : (m.insert k v).erase k = m.erase k := by
    refine Std.ExtTreeMap.ext_getElem? fun k' => ?_
    simp only [Std.ExtTreeMap.getElem?_erase, Std.ExtTreeMap.getElem?_insert]
    split <;> rfl
  rw [← hsame]
  exact toList_perm_erase Std.ExtTreeMap.getElem?_insert_self

theorem total_erase (w : β → Nat) (m : Std.ExtTreeMap α β) (k : α) :
    total w (m.erase k) + (m[k]?).elim 0 w = total w m := by
  cases h : m[k]? with
  | none =>
    have hsame : m.erase k = m := by
      refine Std.ExtTreeMap.ext_getElem? fun k' => ?_
      rw [Std.ExtTreeMap.getElem?_erase]
      split
      · next heq => rw [← Std.LawfulEqCmp.eq_of_compare heq, h]
      · rfl
    rw [hsame]
    rfl
  | some v =>
    have hp := ((toList_perm_erase h).map fun e => w e.2).sum_nat
    simp only [List.map_cons, List.sum_cons] at hp
    simp only [total, Option.elim_some]
    omega

theorem total_insert (w : β → Nat) (m : Std.ExtTreeMap α β) (k : α) (v : β) :
    total w (m.insert k v) + (m[k]?).elim 0 w = total w m + w v := by
  have hp := ((toList_insert_perm m k v).map fun e => w e.2).sum_nat
  have he := total_erase w m k
  simp only [List.map_cons, List.sum_cons] at hp
  simp only [total] at he ⊢
  omega

end Rdsctl.Entries
