import Mathlib.Data.List.DropRight
import Rdsctl.Inst.Effects

/-!
# Containers on hosts

What `src/instance.rs` does to containers along a route: `r_run`, `r_rm`, `r_rename` and SQL that
changes a server. The containers of a host are kept by name; what is known of one is left open.
-/

namespace Rdsctl.Inst

open Ha

/-- A manager and the containers of the hosts, by name. -/
structure Hosts (β : Type) where
  manager : Manager
  boxes : Nat → BTreeMap String β

/-- The host that a route leads to; an unmanaged one is not reached. -/
def NodeRoute.daemon (d : NodeRoute → Nat) : NodeRoute → Option Nat
  | .unmanaged _ => none
  | r => some (d r)

/-- `target_route` -/
def targetRoute (host : String) (hosts : List HostRow) : Except String NodeRoute :=
  let host := trimmed host
  if host = "" then .ok .direct
  else
    match hosts.find? (·.name = host) with
    | some hr =>
      if hr.agentPort % 2 ^ 16 = 0 then .error ("宿主机 " ++ host ++ " 未接入 agent(agent_port=0)")
      else .ok (.agent host hr.ip (hr.agentPort % 2 ^ 16))
    | none => .error ("宿主机 " ++ host ++ " 未登记")

namespace Hosts

variable {β : Type} (d : NodeRoute → Nat)

/-- The container of this name at a route. -/
def box (s : Hosts β) (r : NodeRoute) (name : String) : Option β :=
  (r.daemon d).bind fun k => (s.boxes k)[name]?

/-- The containers of one host change. -/
def onHost (s : Hosts β) (k : Nat) (f : BTreeMap String β → BTreeMap String β) : Hosts β :=
  { s with boxes := fun k' => if k' = k then f (s.boxes k') else s.boxes k' }

/-- `r_run`: the name has to be free, and the port on that host. -/
def run (port : β → Nat) (s : Hosts β) (r : NodeRoute) (name : String) (b : β) : Option (Hosts β) :=
  (r.daemon d).bind fun k =>
    if (s.boxes k)[name]? = none ∧ (s.boxes k).values.all (port · ≠ port b) then
      some (s.onHost k (·.insert name b))
    else none

/-- The removal in `r_rm`. -/
def remove (s : Hosts β) (r : NodeRoute) (name : String) : Hosts β :=
  match r.daemon d with
  | some k => s.onHost k (·.erase name)
  | none => s

/-- `r_rename` -/
def rename (s : Hosts β) (r : NodeRoute) (old new : String) : Option (Hosts β) :=
  (r.daemon d).bind fun k =>
    ((s.boxes k)[old]?).bind fun b =>
      if (s.boxes k)[new]? = none then some (s.onHost k fun m => (m.erase old).insert new b)
      else none

/-- A statement changes a server. -/
def alter (s : Hosts β) (r : NodeRoute) (name : String) (f : β → β) : Option (Hosts β) :=
  (r.daemon d).bind fun k => ((s.boxes k)[name]?).map fun b => s.onHost k (·.insert name (f b))

section
variable {s : Hosts β} {k k' : Nat} {name name' : String} {b : β}

theorem boxes_insert : ((s.onHost k (·.insert name b)).boxes k')[name']? =
    if k' = k ∧ name' = name then some b else (s.boxes k')[name']? := by
  simp only [onHost]
  split
  · next hk =>
    rw [BTreeMap.getElem?_insert_ite]
    simp only [hk, eq_comm, true_and]
  · next hk => rw [if_neg fun h => hk h.1]

theorem boxes_erase : ((s.onHost k (·.erase name)).boxes k')[name']? =
    if k' = k ∧ name' = name then none else (s.boxes k')[name']? := by
  simp only [onHost]
  split
  · next hk =>
    rw [BTreeMap.getElem?_erase_ite]
    simp only [hk, eq_comm, true_and]
  · next hk => rw [if_neg fun h => hk h.1]

end

/-! ## A container and its stand-in -/

/-- A container that runs on one host only, and its stand-in; no other container of the target takes
what the stand-in needs. -/
structure Swap (node temp : String) (ko kt : Nat) (free : β → Prop) (s : Hosts β)
    (old standIn : Option β) : Prop where
  apart : temp ≠ node
  old : (s.boxes ko)[node]? = old
  standIn : (s.boxes kt)[temp]? = standIn
  alone : ∀ k, k ≠ ko → (s.boxes k)[node]? = none
  port : ∀ (name : String) (b : β), name ≠ temp → (s.boxes kt)[name]? = some b → free b

namespace Swap

variable {d} {node temp : String} {ko kt : Nat} {free : β → Prop} {s : Hosts β} {old standIn : Option β}
  {b b' : β} {r : NodeRoute}

/-- The stand-in changes. -/
theorem insert (h : Swap node temp ko kt free s old standIn) :
    Swap node temp ko kt free (s.onHost kt (·.insert temp b)) old (some b) := by
  refine ⟨h.apart, ?_, ?_, fun k hk => ?_, fun name b' hne hget => ?_⟩
  · rw [boxes_insert, if_neg fun hx => h.apart hx.2.symm]
    exact h.old
  · rw [boxes_insert, if_pos ⟨rfl, rfl⟩]
  · rw [boxes_insert, if_neg fun hx => h.apart hx.2.symm]
    exact h.alone k hk
  · rw [boxes_insert, if_neg fun hx => hne hx.2] at hget
    exact h.port name b' hne hget

/-- The container changes. -/
theorem change (h : Swap node temp ko kt free s (some b) standIn) (hfree : free b → free b') :
    Swap node temp ko kt free (s.onHost ko (·.insert node b')) (some b') standIn := by
  refine ⟨h.apart, ?_, ?_, fun k hk => ?_, fun name b₁ hne hget => ?_⟩
  · rw [boxes_insert, if_pos ⟨rfl, rfl⟩]
  · rw [boxes_insert, if_neg fun hx => h.apart hx.2]
    exact h.standIn
  · rw [boxes_insert, if_neg fun hx => hk hx.1]
    exact h.alone k hk
  · rw [boxes_insert] at hget
    split at hget
    · next hx =>
      obtain ⟨rfl, rfl⟩ := hx
      obtain rfl := Option.some.inj hget
      exact hfree (h.port _ _ hne h.old)
    · exact h.port name b₁ hne hget

/-- The stand-in is removed. -/
theorem removeTemp (h : Swap node temp ko kt free s old standIn) (ht : r.daemon d = some kt) :
    Swap node temp ko kt free (s.remove d r temp) old none := by
  simp only [remove, ht]
  refine ⟨h.apart, ?_, ?_, fun k hk => ?_, fun name b' hne hget => ?_⟩
  · rw [boxes_erase, if_neg fun hx => h.apart hx.2.symm]
    exact h.old
  · rw [boxes_erase, if_pos ⟨rfl, rfl⟩]
  · rw [boxes_erase, if_neg fun hx => h.apart hx.2.symm]
    exact h.alone k hk
  · rw [boxes_erase, if_neg fun hx => hne hx.2] at hget
    exact h.port name b' hne hget

/-- The container is removed. -/
theorem removeOld (h : Swap node temp ko kt free s old standIn) (ho : r.daemon d = some ko) :
    Swap node temp ko kt free (s.remove d r node) none standIn := by
  simp only [remove, ho]
  refine ⟨h.apart, ?_, ?_, fun k hk => ?_, fun name b' hne hget => ?_⟩
  · rw [boxes_erase, if_pos ⟨rfl, rfl⟩]
  · rw [boxes_erase, if_neg fun hx => h.apart hx.2]
    exact h.standIn
  · rw [boxes_erase, if_neg fun hx => hk hx.1]
    exact h.alone k hk
  · rw [boxes_erase] at hget
    split at hget
    · cases hget
    · exact h.port name b' hne hget

theorem node_none (h : Swap node temp ko kt free s none standIn) (k : Nat) :
    (s.boxes k)[node]? = none := by
  rcases eq_or_ne k ko with rfl | hk
  · exact h.old
  · exact h.alone k hk

/-- The stand-in takes the name where it is free. -/
theorem rename (h : Swap node temp ko kt free s old (some b)) (ht : r.daemon d = some kt)
    (hfree : (s.boxes kt)[node]? = none) :
    ∃ s', s.rename d r temp node = some s' ∧ s'.manager = s.manager ∧
      (s'.boxes kt)[node]? = some b ∧ ∀ k, k ≠ kt → s'.boxes k = s.boxes k := by
  refine ⟨s.onHost kt fun m => (m.erase temp).insert node b, ?_, rfl, ?_, fun k hk => ?_⟩
  · simp only [Hosts.rename, ht, Option.bind_some, h.standIn, hfree, if_true]
  · simp only [onHost, if_true]
    exact Std.ExtTreeMap.getElem?_insert_self
  · simp only [onHost, if_neg hk]

/-- A stand-in is started where there is none. -/
theorem run (port : β → Nat) (h : Swap node temp ko kt free s old none) (ht : r.daemon d = some kt)
    (hfree : ∀ b', free b' → port b' ≠ port b) :
    s.run d port r temp b = some (s.onHost kt (·.insert temp b)) := by
  have hport : (s.boxes kt).values.all (port · ≠ port b) = true := by
    rw [BTreeMap.values_eq_map_toList]
    simp only [List.all_eq_true, List.mem_map, decide_eq_true_eq]
    rintro _ ⟨⟨name, b'⟩, hmem, rfl⟩
    have hget := Std.ExtTreeMap.mem_toList_iff_getElem?_eq_some.1 hmem
    refine hfree b' (h.port name b' ?_ hget)
    rintro rfl
    cases h.standIn.symm.trans hget
  simp only [Hosts.run, ht, Option.bind_some, h.standIn, hport, true_and, if_true]

theorem alterTemp (h : Swap node temp ko kt free s old (some b)) (ht : r.daemon d = some kt)
    (f : β → β) : s.alter d r temp f = some (s.onHost kt (·.insert temp (f b))) := by
  simp only [alter, ht, Option.bind_some, h.standIn, Option.map_some]

theorem alterOld (h : Swap node temp ko kt free s (some b) standIn) (ho : r.daemon d = some ko)
    (f : β → β) : s.alter d r node f = some (s.onHost ko (·.insert node (f b))) := by
  simp only [alter, ho, Option.bind_some, h.old, Option.map_some]

end Swap

theorem box_of_daemon {s : Hosts β} {r : NodeRoute} {k : Nat} (h : r.daemon d = some k)
    (name : String) : s.box d r name = (s.boxes k)[name]? := by
  simp [box, h]

end Hosts

/-! ## The registry -/

theorem trim_trim (cs : List Char) : trim (trim cs) = trim cs := by
  have htrim : ∀ l : List Char, trim l = (l.dropWhile isWhiteSpace).rdropWhile isWhiteSpace :=
    fun _ => rfl
  have hstart : ((cs.dropWhile isWhiteSpace).rdropWhile isWhiteSpace).dropWhile isWhiteSpace =
      (cs.dropWhile isWhiteSpace).rdropWhile isWhiteSpace := by
    have hpre := List.rdropWhile_prefix isWhiteSpace (l := cs.dropWhile isWhiteSpace)
    have hself := List.dropWhile_eq_self_iff.1 (List.dropWhile_idempotent isWhiteSpace cs)
    refine List.dropWhile_eq_self_iff.2 fun hl => ?_
    rw [hpre.getElem hl]
    exact hself (hl.trans_le hpre.length_le)
  rw [htrim cs, htrim, hstart, List.rdropWhile_idempotent]

theorem trimmed_trimmed (s : String) : trimmed (trimmed s) = trimmed s := by
  simp only [trimmed, String.toList_ofList, trim_trim]

/-- A node that is bound to a host is on it, whether it is managed or not. -/
theorem isOn_of_bound {i : RdsInstance} {c host : String} {hosts : List HostRow}
    (h : nodeHostBinding i c = some host) : (resolveRouteOf i c hosts).isOn host = true := by
  simp only [resolveRouteOf, h]
  split
  · split <;> simp [NodeRoute.isOn]
  · simp [NodeRoute.isOn]

/-- A node that is bound to a target is reached there. -/
theorem resolveRouteOf_of_bound {i : RdsInstance} {c host : String} {hosts : List HostRow}
    {target : NodeRoute} (h : nodeHostBinding i c = some host)
    (hhost : trimmed host = host ∧ host ≠ "") (ht : targetRoute host hosts = .ok target) :
    resolveRouteOf i c hosts = target := by
  simp only [targetRoute, hhost.1, if_neg hhost.2] at ht
  simp only [resolveRouteOf, h]
  split at ht
  · next hr hfind =>
    split at ht
    · cases ht
    · next hport =>
      cases ht
      simp only [hfind, if_neg hport]
  · cases ht

/-- The first element that a condition on the element picks, after a change that the condition does
not see. -/
theorem find?_modifyFirst_map {α β : Type} {p q : α → Bool} {f : α → α} {g : α → β} {l : List α}
    (hq : ∀ a, q (f a) = q a) (hg : ∀ a, g (f a) = g a) :
    ((modifyFirst p f l).find? q).map g = (l.find? q).map g := by
  induction l with
  | nil => rfl
  | cons a l ih =>
    simp only [modifyFirst]
    split
    · simp only [List.find?_cons, hq]
      split
      · exact congrArg some (hg a)
      · rfl
    · simp only [List.find?_cons]
      split
      · rfl
      · exact ih

/-- The first node of this name is the one that changes. -/
theorem find?_modifyFirst_self {name : String} {f : InstNode → InstNode} {l : List InstNode}
    (hf : ∀ n, (f n).container = n.container) (hmem : name ∈ l.map (·.container)) :
    ∃ n, (modifyFirst (·.container = name) f l).find? (·.container = name) = some (f n) := by
  induction l with
  | nil => cases hmem
  | cons a l ih =>
    simp only [modifyFirst]
    split
    · next ha =>
      refine ⟨a, ?_⟩
      simp only [List.find?_cons, hf, ha]
    · next ha =>
      simp only [List.find?_cons, ha]
      refine ih ?_
      rcases List.mem_cons.1 hmem with rfl | hmem
      · simp at ha
      · exact hmem

/-- The first element that a condition picks is changed, where no element before it is. -/
theorem find?_modifyFirst_found {α : Type} {p q : α → Bool} {f : α → α} {l : List α} {n : α}
    (hq : ∀ a, q (f a) = q a) (hpq : ∀ a ∈ l, p a = true → q a = true) (h : l.find? q = some n)
    (hp : p n = true) : (modifyFirst p f l).find? q = some (f n) := by
  induction l with
  | nil => cases h
  | cons a l ih =>
    simp only [modifyFirst]
    rw [List.find?_cons] at h
    split at h
    · next ha =>
      cases h
      simp only [hp, if_true, List.find?_cons, hq, ha]
    · next ha =>
      have hpa : p a = false := by
        by_contra hpa
        simp [hpq a List.mem_cons_self (by simpa using hpa)] at ha
      simp only [hpa, Bool.false_eq_true, if_false, List.find?_cons, ha]
      exact ih (fun b hb => hpq b (List.mem_cons_of_mem _ hb)) h

/-- The first element that a condition picks, when it is not the one that changes. -/
theorem find?_modifyFirst_other {α : Type} {p q : α → Bool} {f : α → α} {l : List α} {n : α}
    (hq : ∀ a, q (f a) = q a) (h : l.find? q = some n) (hp : p n = false) :
    (modifyFirst p f l).find? q = some n := by
  induction l with
  | nil => cases h
  | cons a l ih =>
    simp only [modifyFirst]
    rw [List.find?_cons] at h
    split at h
    · next ha =>
      cases h
      simp only [hp, Bool.false_eq_true, if_false, List.find?_cons, ha]
    · next ha =>
      split
      · simp only [List.find?_cons, hq, ha]
        exact h
      · simp only [List.find?_cons, ha]
        exact ih h

namespace Manager

variable {m : Manager} {inst node host : String} {hostPort serverId : Nat} {i : RdsInstance}

theorem commitReplaceNode_get (hi : m.instances[inst]? = some i) :
    (m.commitReplaceNode inst node host hostPort serverId).instances[inst]? =
      some (i.commitReplace node host hostPort serverId) := by
  simp [commitReplaceNode, alterInstance_get, hi]

theorem alterInstance_hosts {f : RdsInstance → RdsInstance} :
    (m.alterInstance inst f).hosts = m.hosts := by
  unfold alterInstance
  split <;> rfl

theorem commitReplaceNode_hosts :
    (m.commitReplaceNode inst node host hostPort serverId).hosts = m.hosts := by
  rw [commitReplaceNode, persist_hosts, alterInstance_hosts]

end Manager

end Rdsctl.Inst
