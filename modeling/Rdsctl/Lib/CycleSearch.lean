import Mathlib.Data.List.Nodup
import Mathlib.Data.List.Perm.Subperm
import Mathlib.Logic.Relation

/-!
# A depth-first search for a cycle

`search` follows the edges of a graph from a vertex, with the vertices that are being visited and those
that were in two lists, and stops at the first vertex that it meets again while it is being visited.
It finds something exactly when an edge path leads from the vertex to a cycle (`search_spec`), and the
vertex need not lie on that cycle itself. `search` is given a depth; `Visit` is the same recursion
without one, and in a graph with finitely many vertices that have edges the search is a run of it.
-/

namespace Rdsctl.CycleSearch

open Relation

variable {α : Type} {next : α → List α} {a b : α} {visiting visited : List α}

/-- The vertex lies on a cycle. -/
def OnCycle (next : α → List α) (a : α) : Prop := TransGen (fun a b => b ∈ next a) a a

/-- Edges lead from the vertex to a cycle. -/
def Leads (next : α → List α) (a : α) : Prop :=
  ∃ c, ReflTransGen (fun a b => b ∈ next a) a c ∧ OnCycle next c

theorem OnCycle.leads (h : OnCycle next a) : Leads next a := ⟨a, .refl, h⟩

theorem Leads.of_edge (hb : b ∈ next a) (h : Leads next b) : Leads next a := by
  obtain ⟨c, hpath, hc⟩ := h
  exact ⟨c, .head hb hpath, hc⟩

/-- What the search has left behind: edges stay in it, and it has no vertex of a cycle. -/
structure Explored (next : α → List α) (visiting visited : List α) : Prop where
  closed : ∀ x ∈ visited, ∀ y ∈ next x, y ∈ visited
  clean : ∀ x ∈ visited, ¬OnCycle next x
  apart : ∀ x ∈ visited, x ∉ visiting

namespace Explored

theorem nil (visiting : List α) : Explored next visiting [] where
  closed := nofun
  clean := nofun
  apart := nofun

theorem path (h : Explored next visiting visited) (ha : a ∈ visited)
    (hab : ReflTransGen (fun a b => b ∈ next a) a b) : b ∈ visited := by
  induction hab with
  | refl => exact ha
  | tail _ hbc ih => exact h.closed _ ih _ hbc

theorem not_leads (h : Explored next visiting visited) (ha : a ∈ visited) : ¬Leads next a := by
  rintro ⟨c, hac, hc⟩
  exact h.clean c (h.path ha hac) hc

/-- A vertex is left when all that it has edges to have been. -/
theorem finish (h : Explored next (a :: visiting) visited) (ha : a ∉ visiting)
    (hnext : ∀ d ∈ next a, d ∈ visited) : Explored next visiting (a :: visited) where
  closed x hx y hy := by
    rcases List.mem_cons.1 hx with rfl | hx
    · exact List.mem_cons_of_mem _ (hnext y hy)
    · exact List.mem_cons_of_mem _ (h.closed x hx y hy)
  clean x hx hc := by
    rcases List.mem_cons.1 hx with rfl | hx
    · -- a cycle through `x` would come back to it out of what has been left
      obtain ⟨d, hd, hdx⟩ := TransGen.head'_iff.1 hc
      exact h.apart x (h.path (hnext d hd) hdx) List.mem_cons_self
    · exact h.clean x hx hc
  apart x hx hv := by
    rcases List.mem_cons.1 hx with rfl | hx
    · exact ha hv
    · exact h.apart x hx (List.mem_cons_of_mem _ hv)

end Explored

variable [DecidableEq α]

/-- The search from a vertex. -/
def search (next : α → List α) : Nat → α → List α × List α → Bool × (List α × List α)
  | 0, _, seen => (true, seen)
  | fuel + 1, a, (visiting, visited) =>
    if a ∈ visiting then (true, (visiting, visited))
    else if a ∈ visited then (false, (visiting, visited))
    else
      let (found, (visiting, visited)) := (next a).foldl
        (fun acc d => if acc.1 then acc else search next fuel d acc.2)
        (false, (a :: visiting, visited))
      if found then (true, (visiting, visited))
      else (false, (visiting.filter (· ≠ a), a :: visited))

mutual

/-- The recursion of `search`, to any depth. -/
inductive Visit (next : α → List α) : α → List α × List α → Bool × (List α × List α) → Prop
  | found {a : α} {visiting visited : List α} (ha : a ∈ visiting) :
    Visit next a (visiting, visited) (true, (visiting, visited))
  | known {a : α} {visiting visited : List α} (ha : a ∉ visiting) (hv : a ∈ visited) :
    Visit next a (visiting, visited) (false, (visiting, visited))
  | stop {a : α} {visiting visited : List α} {seen : List α × List α} (ha : a ∉ visiting)
    (hv : a ∉ visited)
    (h : VisitAll next (next a) (a :: visiting, visited) (true, seen)) :
    Visit next a (visiting, visited) (true, seen)
  | leave {a : α} {visiting visited visiting' visited' : List α} (ha : a ∉ visiting)
    (hv : a ∉ visited)
    (h : VisitAll next (next a) (a :: visiting, visited) (false, (visiting', visited'))) :
    Visit next a (visiting, visited) (false, (visiting'.filter (· ≠ a), a :: visited'))

inductive VisitAll (next : α → List α) :
    List α → List α × List α → Bool × (List α × List α) → Prop
  | nil {seen : List α × List α} : VisitAll next [] seen (false, seen)
  | stop {d : α} {ds : List α} {seen seen' : List α × List α} (h : Visit next d seen (true, seen')) :
    VisitAll next (d :: ds) seen (true, seen')
  | cons {d : α} {ds : List α} {seen seen' : List α × List α} {r : Bool × (List α × List α)}
    (h : Visit next d seen (false, seen')) (hs : VisitAll next ds seen' r) :
    VisitAll next (d :: ds) seen r

end

/-- What the search answers, and what it leaves behind when it has not found anything. -/
def Answers (next : α → List α) (as : List α) (top : α) (visiting visited : List α) :
    Bool × (List α × List α) → Prop
  | (true, _) => Leads next top
  | (false, (visiting', visited')) =>
    visiting' = visiting ∧ (∀ a ∈ as, a ∈ visited') ∧ (∀ x ∈ visited, x ∈ visited') ∧
      Explored next visiting visited'

/-- The loop of `search`. -/
def searchAll (next : α → List α) (fuel : Nat) (ds : List α) (seen : List α × List α) :
    Bool × (List α × List α) :=
  ds.foldl (fun acc d => if acc.1 then acc else search next fuel d acc.2) (false, seen)

/-- The loop stops at the first vertex from which something is found. -/
theorem searchAll_cons (fuel : Nat) (d : α) (ds : List α) (seen : List α × List α) :
    searchAll next fuel (d :: ds) seen =
      if (search next fuel d seen).1 then search next fuel d seen
      else searchAll next fuel ds (search next fuel d seen).2 := by
  have hkeep : ∀ (l : List α) (acc : List α × List α),
      l.foldl (fun acc d => if acc.1 then acc else search next fuel d acc.2) (true, acc) =
        (true, acc) := by
    intro l acc
    induction l with
    | nil => rfl
    | cons _ l ih => exact ih
  simp only [searchAll, List.foldl_cons, Bool.false_eq_true, if_false]
  rcases search next fuel d seen with ⟨_ | _, seen'⟩
  · rfl
  · exact hkeep ds seen'

/-- The search of some of the vertices that `a` has edges to, when that of each of them is right. -/
theorem searchAll_spec {fuel : Nat} (ds : List α) (hds : ∀ d ∈ ds, d ∈ next a)
    (h : Explored next visiting visited)
    (ih : ∀ d ∈ next a, ∀ visited, Explored next visiting visited →
      Visit next d (visiting, visited) (search next fuel d (visiting, visited)) ∧
        Answers next [d] d visiting visited (search next fuel d (visiting, visited))) :
    VisitAll next ds (visiting, visited) (searchAll next fuel ds (visiting, visited)) ∧
      Answers next ds a visiting visited (searchAll next fuel ds (visiting, visited)) := by
  induction ds generalizing visited with
  | nil => exact ⟨.nil, rfl, nofun, fun _ hx => hx, h⟩
  | cons d ds ihds =>
    obtain ⟨hd, hds⟩ := List.forall_mem_cons.1 hds
    obtain ⟨hvisit, hone⟩ := ih d hd visited h
    rw [searchAll_cons]
    generalize search next fuel d (visiting, visited) = out at hvisit hone ⊢
    obtain ⟨_ | _, visiting', visited'⟩ := out
    · obtain ⟨rfl, hmem, hsub, hexp⟩ := hone
      obtain ⟨hall, hrest⟩ := ihds hds hexp
      refine ⟨.cons hvisit hall, ?_⟩
      rw [if_neg Bool.false_ne_true]
      generalize searchAll next fuel ds _ = out at hrest ⊢
      obtain ⟨_ | _, visiting'', visited''⟩ := out
      · obtain ⟨rfl, hin, hsub', hexp'⟩ := hrest
        refine ⟨rfl, List.forall_mem_cons.2 ⟨?_, hin⟩, fun x hx => hsub' x (hsub x hx), hexp'⟩
        exact hsub' d (hmem d List.mem_cons_self)
      · exact hrest
    · exact ⟨.stop hvisit, Leads.of_edge hd hone⟩

/-- The search from a vertex to which all vertices lead that are being visited, at a depth that
exceeds the number of vertices: it finds something if and only if the vertex leads to a cycle. -/
theorem search_spec {ids : List α} (hids : ∀ a, next a ≠ [] → a ∈ ids) {fuel : Nat}
    (hnd : visiting.Nodup)
    (hpath : ∀ v ∈ visiting, v ∈ ids ∧ TransGen (fun a b => b ∈ next a) v a)
    (hfuel : ids.length < fuel + visiting.length) (h : Explored next visiting visited) :
    Visit next a (visiting, visited) (search next fuel a (visiting, visited)) ∧
      Answers next [a] a visiting visited (search next fuel a (visiting, visited)) := by
  induction fuel generalizing a visiting visited with
  | zero =>
    have hle := (hnd.subperm fun v hv => (hpath v hv).1).length_le
    omega
  | succ fuel ih =>
    rw [search]
    split
    next ha => exact ⟨.found ha, OnCycle.leads (hpath a ha).2⟩
    next ha =>
    split
    next hv => exact ⟨.known ha hv, rfl, by simpa using hv, fun _ hx => hx, h⟩
    next hv =>
      have hexp : Explored next (a :: visiting) visited :=
        ⟨h.closed, h.clean, fun x hx hx' => by
          rcases List.mem_cons.1 hx' with rfl | hx'
          · exact hv hx
          · exact h.apart x hx hx'⟩
      have hstep : ∀ d ∈ next a, ∀ visited, Explored next (a :: visiting) visited →
          Visit next d (a :: visiting, visited) (search next fuel d (a :: visiting, visited)) ∧
            Answers next [d] d (a :: visiting) visited
              (search next fuel d (a :: visiting, visited)) := by
        intro d hd visited hexp
        refine ih (List.nodup_cons.2 ⟨ha, hnd⟩) (fun v hv => ?_) ?_ hexp
        · rcases List.mem_cons.1 hv with rfl | hv
          · exact ⟨hids v (List.ne_nil_of_mem hd), .single hd⟩
          · exact ⟨(hpath v hv).1, (hpath v hv).2.tail hd⟩
        · rw [List.length_cons]
          omega
      obtain ⟨hall, hanswer⟩ := searchAll_spec (next a) (fun d hd => hd) hexp hstep
      rw [searchAll] at hall hanswer
      generalize List.foldl _ _ (next a) = out at hall hanswer ⊢
      obtain ⟨_ | _, visiting', visited'⟩ := out
      · obtain ⟨rfl, hin, hsub, hexp'⟩ := hanswer
        have hrest : (a :: visiting).filter (· ≠ a) = visiting := by
          rw [List.filter_cons_of_neg (by simp), List.filter_eq_self]
          intro v hv
          exact decide_eq_true fun hva => ha (hva ▸ hv)
        refine ⟨.leave ha hv hall, ?_⟩
        simp only [Bool.false_eq_true, if_false, hrest]
        exact ⟨rfl, by simp, fun x hx => List.mem_cons_of_mem _ (hsub x hx), hexp'.finish ha hin⟩
      · exact ⟨.stop ha hv hall, hanswer⟩

end Rdsctl.CycleSearch
