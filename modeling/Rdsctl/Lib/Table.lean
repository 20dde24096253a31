import Mathlib.Data.List.Forall2
import Mathlib.Data.List.Nodup

/-!
# Rows under a key

A table as a list of rows, with one row for each key. `upsert` merges a row into the one that has
its key, or appends it. Two tables whose rows correspond one by one still do after an upsert of
corresponding rows (`forall₂_upsert`).
-/

namespace Rdsctl.Table

variable {α κ : Type} [DecidableEq κ]

/-- Merge a row into the one with its key, if there is one. -/
def upsert (key : α → κ) (merge : α → α → α) : List α → α → List α
  | [], row => [row]
  | old :: rows, row =>
    if key old = key row then merge old row :: rows else old :: upsert key merge rows row

variable {key : α → κ} {merge : α → α → α} {rows : List α} {row r : α}

/-- The merged row has the key of the row that is there. -/
def Keeps (key : α → κ) (merge : α → α → α) : Prop :=
  ∀ old row, key old = key row → key (merge old row) = key row

theorem keys_upsert (hm : Keeps key merge) (rows : List α) (row : α) :
    (upsert key merge rows row).map key =
      if key row ∈ rows.map key then rows.map key else rows.map key ++ [key row] := by
  induction rows with
  | nil => rfl
  | cons old rows ih =>
    rw [upsert]
    rcases eq_or_ne (key old) (key row) with ho | ho
    · simp [ho, hm old row ho]
    · rw [if_neg ho, List.map_cons, ih, List.map_cons]
      rcases Decidable.em (key row ∈ rows.map key) with hmem | hmem
      · rw [if_pos hmem, if_pos (List.mem_cons_of_mem _ hmem)]
      · rw [if_neg hmem, if_neg]
        · rfl
        · exact fun hc => (List.mem_cons.1 hc).elim (fun h => ho h.symm) hmem

theorem nodup_upsert (hm : Keeps key merge) (h : (rows.map key).Nodup) :
    ((upsert key merge rows row).map key).Nodup := by
  rw [keys_upsert hm]
  split
  · exact h
  · next hnew =>
    exact List.nodup_append'.2 ⟨h, List.nodup_singleton _, List.disjoint_singleton.2 hnew⟩

theorem mem_keys_upsert (hm : Keeps key merge) {k : κ} :
    k ∈ (upsert key merge rows row).map key ↔ k ∈ rows.map key ∨ k = key row := by
  rw [keys_upsert hm]
  split
  · next hmem =>
    exact ⟨.inl, fun h => h.elim id fun h => h ▸ hmem⟩
  · simp only [List.mem_append, List.mem_singleton]

/-- What an upsert leaves: the other rows, and the row itself, merged into one that was there or
new. -/
theorem mem_upsert (hnd : (rows.map key).Nodup) (hr : r ∈ upsert key merge rows row) :
    r ∈ rows ∧ key r ≠ key row ∨
      (∃ old ∈ rows, key old = key row ∧ r = merge old row) ∨
      key row ∉ rows.map key ∧ r = row := by
  induction rows with
  | nil => exact .inr (.inr ⟨by simp, List.mem_singleton.1 hr⟩)
  | cons old rows ih =>
    obtain ⟨hold, hnd⟩ := List.nodup_cons.1 hnd
    rw [upsert] at hr
    rcases eq_or_ne (key old) (key row) with ho | ho
    · rw [if_pos ho] at hr
      rcases List.mem_cons.1 hr with rfl | hr
      · exact .inr (.inl ⟨old, List.mem_cons_self, ho, rfl⟩)
      · refine .inl ⟨List.mem_cons_of_mem _ hr, fun hc => hold ?_⟩
        exact List.mem_map.2 ⟨r, hr, hc.trans ho.symm⟩
    · rw [if_neg ho] at hr
      rcases List.mem_cons.1 hr with rfl | hr
      · exact .inl ⟨List.mem_cons_self, ho⟩
      · rcases ih hnd hr with ⟨hr, hne⟩ | ⟨old', hr, heq⟩ | ⟨hnew, heq⟩
        · exact .inl ⟨List.mem_cons_of_mem _ hr, hne⟩
        · exact .inr (.inl ⟨old', List.mem_cons_of_mem _ hr, heq⟩)
        · refine .inr (.inr ⟨fun hc => ?_, heq⟩)
          exact (List.mem_cons.1 hc).elim (fun hc => ho hc.symm) hnew

/-- A row is found under its key from either end. -/
theorem find?_reverse (hnd : (rows.map key).Nodup) (k : κ) :
    (rows.reverse.find? fun r => key r = k) = rows.find? fun r => key r = k := by
  induction rows with
  | nil => rfl
  | cons row rows ih =>
    obtain ⟨hnot, hnd⟩ := List.nodup_cons.1 hnd
    rw [List.reverse_cons, List.find?_append, ih hnd]
    rcases eq_or_ne (key row) k with rfl | hk
    · have hnone : (rows.find? fun r => key r = key row) = none := by
        refine List.find?_eq_none.2 fun r hr => ?_
        simpa using fun hkey : key r = key row => hnot (hkey ▸ List.mem_map_of_mem hr)
      simp [hnone]
    · cases hf : rows.find? fun r => key r = k <;> simp [hk, hf]

/-- The row that is found under its own key. -/
theorem find?_of_mem (hnd : (rows.map key).Nodup) (hr : r ∈ rows) :
    (rows.find? fun r' => key r' = key r) = some r := by
  cases hf : rows.find? fun r' => key r' = key r with
  | none => simpa using List.find?_eq_none.1 hf r hr
  | some r' =>
    have hkey : key r' = key r := by simpa using List.find?_some hf
    rw [List.inj_on_of_nodup_map hnd (List.mem_of_find?_eq_some hf) hr hkey]

theorem upsert_eq_append (h : key row ∉ rows.map key) : upsert key merge rows row = rows ++ [row] := by
  induction rows with
  | nil => rfl
  | cons old rows ih =>
    obtain ⟨hne, hrows⟩ := not_or.1 fun hc => h (List.mem_cons.2 hc)
    rw [upsert, if_neg fun hc => hne hc.symm, ih hrows, List.cons_append]

/-- Where a row is there, an upsert is an update. -/
theorem upsert_eq_map (hnd : (rows.map key).Nodup) (h : key row ∈ rows.map key) :
    upsert key merge rows row =
      rows.map fun old => if key old = key row then merge old row else old := by
  induction rows with
  | nil => cases h
  | cons old rows ih =>
    obtain ⟨hold, hnd⟩ := List.nodup_cons.1 hnd
    rw [upsert, List.map_cons]
    rcases eq_or_ne (key old) (key row) with ho | ho
    · have hrest : ∀ r ∈ rows, (if key r = key row then merge r row else r) = id r := fun r hr =>
        if_neg fun hc => hold (List.mem_map.2 ⟨r, hr, hc.trans ho.symm⟩)
      rw [if_pos ho, if_pos ho, List.map_congr_left hrest, List.map_id]
    · rw [if_neg ho, if_neg ho, ih hnd ((List.mem_cons.1 h).resolve_left fun hc => ho hc.symm)]

/-- An upsert in a part of the table that is told by the keys. -/
theorem filter_upsert {p : α → Bool} (hp : ∀ r, key r = key row → p r = p row)
    (hm : ∀ old, key old = key row → p (merge old row) = p row) :
    (upsert key merge rows row).filter p =
      if p row then upsert key merge (rows.filter p) row else rows.filter p := by
  induction rows with
  | nil => cases h : p row <;> simp [upsert, h]
  | cons old rows ih =>
    rw [upsert]
    rcases eq_or_ne (key old) (key row) with ho | ho
    · cases h : p row <;> simp [ho, upsert, hp old ho, hm old ho, h]
    · rw [if_neg ho, List.filter_cons, List.filter_cons, ih]
      cases h : p row <;> cases h' : p old <;> simp [upsert, ho]

variable {β μ : Type} [DecidableEq μ] {key' : β → μ} {merge' : β → β → β} {R : α → β → Prop}
  {rows' : List β} {row' : β}

/-- Corresponding upserts in corresponding tables. -/
theorem forall₂_upsert
    (hkey : ∀ a, ∀ b ∈ rows', R a b → (key a = key row ↔ key' b = key' row'))
    (hmerge : ∀ a, ∀ b ∈ rows', R a b → key a = key row → R (merge a row) (merge' b row'))
    (hnew : key row ∉ rows.map key → R row row') (h : List.Forall₂ R rows rows') :
    List.Forall₂ R (upsert key merge rows row) (upsert key' merge' rows' row') := by
  induction h with
  | nil => exact .cons (hnew List.not_mem_nil) .nil
  | @cons a b as bs hab hrest ih =>
    rw [upsert, upsert]
    rcases eq_or_ne (key a) (key row) with ho | ho
    · rw [if_pos ho, if_pos ((hkey a b List.mem_cons_self hab).1 ho)]
      exact .cons (hmerge a b List.mem_cons_self hab ho) hrest
    · rw [if_neg ho, if_neg fun hc => ho ((hkey a b List.mem_cons_self hab).2 hc)]
      refine .cons hab (ih (fun a b hb => hkey a b (List.mem_cons_of_mem _ hb))
        (fun a b hb => hmerge a b (List.mem_cons_of_mem _ hb)) fun hnot => hnew fun hc => ?_)
      exact (List.mem_cons.1 hc).elim (fun hc => ho hc.symm) hnot

/-- A function that succeeds on every row of a table, with the values of the corresponding rows. -/
theorem mapM_of_forall₂ {γ : Type} {f : α → γ} {g : β → Option γ}
    (h : List.Forall₂ (fun a b => g b = some (f a)) rows rows') :
    rows'.mapM g = some (rows.map f) := by
  induction h with
  | nil => rfl
  | cons hab _ ih => simp [List.mapM_cons, hab, ih]

end Rdsctl.Table
