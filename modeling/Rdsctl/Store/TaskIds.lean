import Mathlib.Logic.Function.Basic
import Rdsctl.Lib.Pieces
import Rdsctl.Lib.Run
import Rdsctl.Lib.Threads
import Rdsctl.Store.Tasks

/-!
# Ids of tasks

`src/dag.rs`: `submit` and `submit_draft` on replicas that share the MySQL store, with
`next_task_seq` of `src/store.rs`. A call draws a number for its kind, makes the id of the task from it,
enters the task into the map of its replica and writes its rows, a statement at a time. Any statement may
fail; the counter then gives 0, and a failed write is only logged.

A task is known by the call that has submitted it. Maps and tables hold the task that was written last
under a key.
-/

namespace Rdsctl.Store

open Pieces

/-! ## Calls -/

/-- Where a call of `submit` or `submit_draft` is. -/
inductive SubmitPhase
  | drawing
  | entering
  | storing
  | nodes (left : List String)
  | returned
deriving DecidableEq, Repr

/-- A call, with the kind of its task, the ids of its nodes, the number it has drawn and what it has
written so far. -/
structure SubmitCall where
  replica : Nat
  kind : String
  draft : Bool
  nodes : List String
  phase : SubmitPhase := .drawing
  seq : Nat := 0
  stored : Bool := false
  storedNodes : List String := []
deriving DecidableEq, Repr

/-- `t-{kind}-{seq}` -/
def taskId (kind : String) (seq : Nat) : String := "t-" ++ kind ++ "-" ++ toString seq

namespace SubmitCall

/-- The id of the task. -/
def id (c : SubmitCall) : String := taskId c.kind c.seq

/-- The call has its number. -/
def Drawn (c : SubmitCall) : Prop := c.phase ≠ .drawing

/-- The call has entered its task. -/
def Entered (c : SubmitCall) : Prop := c.phase ≠ .drawing ∧ c.phase ≠ .entering

end SubmitCall

/-- How the query of the counter ends: it is answered, it is not executed, or it is executed and its
answer is lost or cannot be read. -/
inductive DrawOutcome
  | answered
  | refused
  | lost
deriving DecidableEq, Repr

/-- The replicas with their maps, and the store. -/
structure Submits where
  taskSeq : List (String × Nat) := []
  tasks : String → Option Nat := fun _ => none
  taskNodes : String × String → Option Nat := fun _ => none
  entries : Nat × String → Option Nat := fun _ => none
  calls : List SubmitCall := []

inductive SubmitEvent
  | submit (replica : Nat) (kind : String) (nodes : List String)
  | submitDraft (replica : Nat) (nodes : List String)
  | draw (c : Nat) (outcome : DrawOutcome)
  | enter (c : Nat)
  | upsertTask (c : Nat) (ok : Bool)
  | upsertNode (c : Nat) (ok : Bool)
  | finish (c : Nat)
deriving DecidableEq, Repr

namespace Submits

def addCall (s : Submits) (k : SubmitCall) : Submits := { s with calls := s.calls ++ [k] }

def setCall (s : Submits) (c : Nat) (k : SubmitCall) : Submits := { s with calls := s.calls.set c k }

/-- `next_task_seq`: what the call gets, and what is left in the table. -/
def nextTaskSeq (taskSeq : List (String × Nat)) (kind : String) : DrawOutcome → Nat × List (String × Nat)
  | .answered => MysqlBackend.nextTaskSeq taskSeq kind
  | .refused => (0, taskSeq)
  | .lost => (0, (MysqlBackend.nextTaskSeq taskSeq kind).2)

def step (s : Submits) : SubmitEvent → Option Submits
  | .submit replica kind nodes => some (s.addCall ⟨replica, kind, false, nodes, .drawing, 0, false, []⟩)
  | .submitDraft replica nodes =>
    if nodes = [] then none
    else some (s.addCall ⟨replica, "user", true, nodes, .drawing, 0, false, []⟩)
  | .draw c outcome =>
    match s.calls[c]? with
    | some k =>
      if k.phase = .drawing then
        let (seq, taskSeq) := nextTaskSeq s.taskSeq k.kind outcome
        some ({ s with taskSeq := taskSeq }.setCall c { k with seq := seq, phase := .entering })
      else none
    | none => none
  | .enter c =>
    match s.calls[c]? with
    | some k =>
      if k.phase = .entering then
        some ({ s with entries := Function.update s.entries (k.replica, k.id) (some c) }.setCall c
          { k with phase := if k.draft then .returned else .storing })
      else none
    | none => none
  | .upsertTask c ok =>
    match s.calls[c]? with
    | some k =>
      if k.phase = .storing then
        some ({ s with tasks := if ok then Function.update s.tasks k.id (some c) else s.tasks }.setCall c
          { k with phase := .nodes k.nodes, stored := ok })
      else none
    | none => none
  | .upsertNode c ok =>
    match s.calls[c]? with
    | some k =>
      match k.phase with
      | .nodes (n :: left) =>
        some ({ s with taskNodes :=
            if ok then Function.update s.taskNodes (k.id, n) (some c) else s.taskNodes }.setCall c
          { k with phase := .nodes left, storedNodes := if ok then n :: k.storedNodes else k.storedNodes })
      | _ => none
    | none => none
  | .finish c =>
    match s.calls[c]? with
    | some k => if k.phase = .nodes [] then some (s.setCall c { k with phase := .returned }) else none
    | none => none

/-! ## Ids of one's own -/

/-- No two tasks have the same id. -/
def Distinct (s : Submits) : Prop :=
  Apart (fun k k' => k.Drawn → k'.Drawn → k.id ≠ k'.id) s.calls

/-- What a call has written is there as it has written it. -/
def Holds (s : Submits) (i : Nat) (k : SubmitCall) : Prop :=
  (k.Entered → s.entries (k.replica, k.id) = some i) ∧
    (k.stored = true → s.tasks k.id = some i) ∧
    ∀ n ∈ k.storedNodes, s.taskNodes (k.id, n) = some i

/-- No call has replaced what another one has written. -/
def Kept (s : Submits) : Prop := ∀ (i : Nat) (k : SubmitCall), s.calls[i]? = some k → s.Holds i k

/-- The query of the counter has failed for this call, whose task is of this kind. -/
def Failed (h : History Submits SubmitEvent) (kind : String) (c : Nat) : Prop :=
  ∃ t outcome k, (t, SubmitEvent.draw c outcome) ∈ h ∧ outcome ≠ .answered ∧
    t.calls[c]? = some k ∧ k.kind = kind

/-- At most one query of the counter fails for each kind. -/
def FailsOnce (h : History Submits SubmitEvent) : Prop :=
  ∀ kind c c', Failed h kind c → Failed h kind c' → c = c'

/-- The runs from an empty store and empty maps. -/
abbrev Runs : History Submits SubmitEvent → Submits → Prop :=
  Run step (fun _ _ _ => True) (· = ({} : Submits))

/-! ## The counters -/

/-- The number a kind has come to. -/
def counter (taskSeq : List (String × Nat)) (kind : String) : Nat := (taskSeq.lookup kind).getD 0

theorem nextTaskSeq_fst (taskSeq : List (String × Nat)) (kind : String) :
    (MysqlBackend.nextTaskSeq taskSeq kind).1 = counter taskSeq kind + 1 := by
  rw [MysqlBackend.nextTaskSeq, counter]
  rcases taskSeq.lookup kind with _ | v <;> rfl

/-- A query of the counter moves the counter of its kind. -/
theorem counter_nextTaskSeq (taskSeq : List (String × Nat)) (kind kind' : String) :
    counter (MysqlBackend.nextTaskSeq taskSeq kind).2 kind' =
      counter taskSeq kind' + if kind' = kind then 1 else 0 := by
  simp only [MysqlBackend.nextTaskSeq, counter]
  induction taskSeq with
  | nil =>
    simp only [Table.upsert, List.lookup_cons, List.lookup_nil]
    rcases eq_or_ne kind' kind with rfl | hk
    · simp
    · simp [hk, beq_false_of_ne hk]
  | cons e rows ih =>
    rw [Table.upsert]
    rcases eq_or_ne e.1 kind with he | he
    · rw [if_pos he, List.lookup_cons, List.lookup_cons]
      rcases eq_or_ne kind' kind with rfl | hk
      · simp [he]
      · have hke : kind' ≠ e.1 := he ▸ hk
        simp [hk, beq_false_of_ne hke]
    · rw [if_neg he, List.lookup_cons, List.lookup_cons]
      rcases eq_or_ne kind' e.1 with rfl | hk
      · simp [he]
      · rw [beq_false_of_ne hk]
        exact ih

/-- A call gets the next number of its kind, or 0 from a query that fails. -/
theorem nextTaskSeq_cases (taskSeq : List (String × Nat)) (kind : String) (outcome : DrawOutcome) :
    (outcome = .answered ∧ (nextTaskSeq taskSeq kind outcome).1 = counter taskSeq kind + 1 ∧
        (nextTaskSeq taskSeq kind outcome).1 = counter (nextTaskSeq taskSeq kind outcome).2 kind) ∨
      (outcome ≠ .answered ∧ (nextTaskSeq taskSeq kind outcome).1 = 0) := by
  cases outcome with
  | answered =>
    refine .inl ⟨rfl, nextTaskSeq_fst taskSeq kind, ?_⟩
    simp only [nextTaskSeq]
    rw [nextTaskSeq_fst, counter_nextTaskSeq, if_pos rfl]
  | refused => exact .inr ⟨by simp, rfl⟩
  | lost => exact .inr ⟨by simp, rfl⟩

/-- No query moves a counter back. -/
theorem counter_le (taskSeq : List (String × Nat)) (kind kind' : String) (outcome : DrawOutcome) :
    counter taskSeq kind' ≤ counter (nextTaskSeq taskSeq kind outcome).2 kind' := by
  have hmove := counter_nextTaskSeq taskSeq kind kind'
  cases outcome with
  | refused => exact le_refl _
  | answered | lost =>
    simp only [nextTaskSeq]
    omega

/-! ## What a step does -/

/-- A step of a call that has its number leaves the number, and writes under the id of its task only. -/
structure Writes (s : Submits) (c : Nat) (k k' : SubmitCall) (s' : Submits) : Prop where
  found : s.calls[c]? = some k
  calls : s'.calls = s.calls.set c k'
  taskSeq : s'.taskSeq = s.taskSeq
  before : k.Drawn
  after : k'.Drawn
  kind : k'.kind = k.kind
  seq : k'.seq = k.seq
  entries : ∀ key, key.2 ≠ k.id → s'.entries key = s.entries key
  tasks : ∀ id, id ≠ k.id → s'.tasks id = s.tasks id
  taskNodes : ∀ key, key.1 ≠ k.id → s'.taskNodes key = s.taskNodes key
  own : s.Holds c k → s'.Holds c k'

/-- A step starts a call, draws the number of one, or writes for one. -/
theorem step_cases {s s' : Submits} {e : SubmitEvent} (h : step s e = some s') :
    (∃ k, k.phase = .drawing ∧ k.stored = false ∧ k.storedNodes = [] ∧ s' = s.addCall k ∧
        ∀ c outcome, e ≠ .draw c outcome) ∨
      (∃ c outcome k, e = .draw c outcome ∧ s.calls[c]? = some k ∧ k.phase = .drawing ∧
        s' = { s with taskSeq := (nextTaskSeq s.taskSeq k.kind outcome).2 }.setCall c
          { k with seq := (nextTaskSeq s.taskSeq k.kind outcome).1, phase := .entering }) ∨
      (∃ c k k', s.Writes c k k' s' ∧ ∀ c outcome, e ≠ .draw c outcome) := by
  cases e with
  | submit replica kind nodes =>
    cases h
    exact .inl ⟨_, rfl, rfl, rfl, rfl, by simp⟩
  | submitDraft replica nodes =>
    rw [step] at h
    split at h
    · cases h
    · cases h
      exact .inl ⟨_, rfl, rfl, rfl, rfl, by simp⟩
  | draw c outcome =>
    rw [step] at h
    split at h
    next k hk =>
      split at h
      next hp =>
        cases h
        exact .inr (.inl ⟨c, outcome, k, rfl, hk, hp, rfl⟩)
      · cases h
    · cases h
  | enter c =>
    rw [step] at h
    split at h
    next k hk =>
      split at h
      next hp =>
        cases h
        have hdrawn : k.Drawn := by simp [SubmitCall.Drawn, hp]
        refine .inr (.inr ⟨c, k, _, ⟨hk, rfl, rfl, hdrawn, ?_, rfl, rfl, fun key hkey => ?_,
          fun _ _ => rfl, fun _ _ => rfl, fun hown => ⟨fun _ => ?_, hown.2⟩⟩, by simp⟩)
        · simp only [SubmitCall.Drawn]
          split <;> simp
        · exact Function.update_of_ne (fun hc => hkey (congrArg Prod.snd hc)) _ _
        · exact Function.update_self (k.replica, k.id) (some c) s.entries
      · cases h
    · cases h
  | upsertTask c ok =>
    rw [step] at h
    split at h
    next k hk =>
      split at h
      next hp =>
        cases h
        have hdrawn : k.Drawn := by simp [SubmitCall.Drawn, hp]
        have hentered : k.Entered := by simp [SubmitCall.Entered, hp]
        refine .inr (.inr ⟨c, k, _, ⟨hk, rfl, rfl, hdrawn, by simp [SubmitCall.Drawn], rfl, rfl,
          fun _ _ => rfl, fun id hid => ?_, fun _ _ => rfl,
          fun hown => ⟨fun _ => hown.1 hentered, fun hok => ?_, hown.2.2⟩⟩, by simp⟩)
        · simp only [setCall]
          split
          · exact Function.update_of_ne hid _ _
          · rfl
        · simp only [setCall]
          rw [if_pos hok]
          exact Function.update_self k.id (some c) s.tasks
      · cases h
    · cases h
  | upsertNode c ok =>
    rw [step] at h
    split at h
    next k hk =>
      split at h
      next n left hp =>
        cases h
        have hdrawn : k.Drawn := by simp [SubmitCall.Drawn, hp]
        have hentered : k.Entered := by simp [SubmitCall.Entered, hp]
        refine .inr (.inr ⟨c, k, _, ⟨hk, rfl, rfl, hdrawn, by simp [SubmitCall.Drawn], rfl, rfl,
          fun _ _ => rfl, fun _ _ => rfl, fun key hkey => ?_,
          fun hown => ⟨fun _ => hown.1 hentered, hown.2.1, fun m hm => ?_⟩⟩, by simp⟩)
        · simp only [setCall]
          split
          · exact Function.update_of_ne (fun hc => hkey (congrArg Prod.fst hc)) _ _
          · rfl
        · simp only [setCall] at hm ⊢
          split at hm
          next hok =>
            rw [if_pos hok]
            rcases eq_or_ne m n with rfl | hmn
            · exact Function.update_self (k.id, m) (some c) s.taskNodes
            · have hold : m ∈ k.storedNodes := (List.mem_cons.1 hm).resolve_left hmn
              refine (Function.update_of_ne (fun hc => hmn ?_) _ _).trans (hown.2.2 m hold)
              exact congrArg Prod.snd hc
          next hok =>
            rw [if_neg hok]
            exact hown.2.2 m hm
      · cases h
    · cases h
  | finish c =>
    rw [step] at h
    split at h
    next k hk =>
      split at h
      next hp =>
        cases h
        have hdrawn : k.Drawn := by simp [SubmitCall.Drawn, hp]
        have hentered : k.Entered := by simp [SubmitCall.Entered, hp]
        exact .inr (.inr ⟨c, k, _, ⟨hk, rfl, rfl, hdrawn, by simp [SubmitCall.Drawn], rfl, rfl,
          fun _ _ => rfl, fun _ _ => rfl, fun _ _ => rfl,
          fun hown => ⟨fun _ => hown.1 hentered, hown.2⟩⟩, by simp⟩)
      · cases h
    · cases h

/-! ## Numbers along a run -/

/-- Two calls of a kind that have the same number have none. -/
def Numbers (k k' : SubmitCall) : Prop :=
  k.Drawn → k'.Drawn → k.kind = k'.kind → k.seq = k'.seq → k.seq = 0

/-- The numbers of the calls are those that the counters have given out, and 0 where the query has
failed. -/
structure Numbered (h : History Submits SubmitEvent) (s : Submits) : Prop where
  fresh : ∀ k ∈ s.calls, k.phase = .drawing → k.stored = false ∧ k.storedNodes = []
  le : ∀ k ∈ s.calls, k.Drawn → k.seq ≤ counter s.taskSeq k.kind
  apart : Apart Numbers s.calls
  failed : ∀ (i : Nat) (k : SubmitCall), s.calls[i]? = some k → k.Drawn → k.seq = 0 →
    Failed h k.kind i
  zero : ∀ kind i, Failed h kind i → ∃ k : SubmitCall, s.calls[i]? = some k ∧ k.kind = kind ∧
    k.Drawn ∧ k.seq = 0

variable {h : History Submits SubmitEvent} {s s' : Submits} {e : SubmitEvent}

theorem Failed.cons {kind : String} {i : Nat} (hf : Failed h kind i) : Failed ((s, e) :: h) kind i := by
  obtain ⟨t, outcome, k, hmem, hout⟩ := hf
  exact ⟨t, outcome, k, List.mem_cons_of_mem _ hmem, hout⟩

/-- A step that queries no counter makes no query fail. -/
theorem Failed.of_cons {kind : String} {i : Nat} (he : ∀ c outcome, e ≠ .draw c outcome)
    (hf : Failed ((s, e) :: h) kind i) : Failed h kind i := by
  obtain ⟨t, outcome, k, hmem, hout⟩ := hf
  rcases List.mem_cons.1 hmem with heq | hmem
  · cases heq
    exact absurd rfl (he i outcome)
  · exact ⟨t, outcome, k, hmem, hout⟩

namespace Numbered

theorem addCall (hn : Numbered h s) {k : SubmitCall} (hk : k.phase = .drawing)
    (hclean : k.stored = false ∧ k.storedNodes = []) (he : ∀ c outcome, e ≠ .draw c outcome) :
    Numbered ((s, e) :: h) (s.addCall k) where
  fresh := fun x hx hp => by
    rcases List.mem_append.1 hx with hx | hx
    · exact hn.fresh x hx hp
    · cases List.mem_singleton.1 hx
      exact hclean
  le := fun x hx hd => by
    rcases List.mem_append.1 hx with hx | hx
    · exact hn.le x hx hd
    · cases List.mem_singleton.1 hx
      exact absurd hk hd
  apart := hn.apart.append fun x _ => ⟨fun hd => absurd hk hd, fun _ hd => absurd hk hd⟩
  failed := fun i x hx hd hzero => by
    rcases getElem?_concat_cases hx with rfl | hx
    · exact absurd hk hd
    · exact (hn.failed i x hx hd hzero).cons
  zero := fun kind i hf => by
    obtain ⟨x, hx, hrest⟩ := hn.zero kind i (hf.of_cons he)
    refine ⟨x, ?_, hrest⟩
    simp only [Submits.addCall]
    rw [List.getElem?_append_left (List.getElem?_eq_some_iff.1 hx).1]
    exact hx

theorem writes (hn : Numbered h s) {c : Nat} {k k' : SubmitCall} (hw : s.Writes c k k' s')
    (he : ∀ c outcome, e ≠ .draw c outcome) : Numbered ((s, e) :: h) s' where
  fresh := fun x hx hp => by
    rw [hw.calls] at hx
    rcases List.mem_or_eq_of_mem_set hx with hx | rfl
    · exact hn.fresh x hx hp
    · exact absurd hp hw.after
  le := fun x hx hd => by
    rw [hw.calls] at hx
    rw [hw.taskSeq]
    rcases List.mem_or_eq_of_mem_set hx with hx | rfl
    · exact hn.le x hx hd
    · rw [hw.kind, hw.seq]
      exact hn.le k (List.mem_of_getElem? hw.found) hw.before
  apart := by
    rw [hw.calls]
    refine hn.apart.weaken hw.found fun x => ⟨fun hx _ hd hkind hseq => ?_, fun hx hd _ hkind hseq => ?_⟩
    · rw [hw.kind] at hkind
      rw [hw.seq] at hseq ⊢
      exact hx hw.before hd hkind hseq
    · rw [hw.kind] at hkind
      rw [hw.seq] at hseq
      exact hx hd hw.before hkind hseq
  failed := fun i x hx hd hzero => by
    rw [hw.calls] at hx
    rcases getElem?_set_cases hx with ⟨rfl, rfl⟩ | ⟨-, hx⟩
    · rw [hw.kind]
      exact (hn.failed i k hw.found hw.before (hw.seq ▸ hzero)).cons
    · exact (hn.failed i x hx hd hzero).cons
  zero := fun kind i hf => by
    obtain ⟨x, hx, hkind, hd, hzero⟩ := hn.zero kind i (hf.of_cons he)
    rw [hw.calls]
    rcases eq_or_ne c i with rfl | hci
    · obtain rfl := Option.some.inj (hw.found.symm.trans hx)
      exact ⟨k', List.getElem?_set_self (List.getElem?_eq_some_iff.1 hx).1, hw.kind.trans hkind,
        hw.after, hw.seq.trans hzero⟩
    · exact ⟨x, by rw [List.getElem?_set_ne hci, hx], hkind, hd, hzero⟩

theorem draw (hn : Numbered h s) {c : Nat} {outcome : DrawOutcome} {k : SubmitCall}
    (hk : s.calls[c]? = some k) (hp : k.phase = .drawing) :
    Numbered ((s, .draw c outcome) :: h)
      ({ s with taskSeq := (nextTaskSeq s.taskSeq k.kind outcome).2 }.setCall c
        { k with seq := (nextTaskSeq s.taskSeq k.kind outcome).1, phase := .entering }) where
  fresh := fun x hx hpx => by
    rcases List.mem_or_eq_of_mem_set hx with hx | rfl
    · exact hn.fresh x hx hpx
    · cases hpx
  le := fun x hx hd => by
    rcases List.mem_or_eq_of_mem_set hx with hx | rfl
    · exact le_trans (hn.le x hx hd) (counter_le s.taskSeq k.kind x.kind outcome)
    · rcases nextTaskSeq_cases s.taskSeq k.kind outcome with ⟨-, -, heq⟩ | ⟨-, heq⟩
      · exact heq.le
      · exact heq ▸ Nat.zero_le _
  apart := by
    -- the number is 0 or above the counter, which bounds the numbers of the other calls
    refine hn.apart.set c fun j x _ hx => ⟨fun _ hd hkind hseq => ?_, fun hd _ hkind hseq => ?_⟩
    all_goals
      have hle := hn.le x (List.mem_of_getElem? hx) hd
      simp only at hkind hseq
      rcases nextTaskSeq_cases s.taskSeq k.kind outcome with ⟨-, heq, -⟩ | ⟨-, heq⟩
    · rw [← hkind] at hle
      omega
    · exact heq
    · rw [hkind] at hle
      omega
    · rw [hseq, heq]
  failed := fun i x hx hd hzero => by
    rcases getElem?_set_cases hx with ⟨rfl, rfl⟩ | ⟨-, hx⟩
    · rcases nextTaskSeq_cases s.taskSeq k.kind outcome with ⟨-, heq, -⟩ | ⟨hout, -⟩
      · simp only at hzero
        omega
      · exact ⟨s, outcome, k, List.mem_cons_self, hout, hk, rfl⟩
    · exact (hn.failed i x hx hd hzero).cons
  zero := fun kind i hf => by
    obtain ⟨t, outcome', x, hmem, hout, hx, hkind⟩ := hf
    rcases List.mem_cons.1 hmem with heq | hmem
    · cases heq
      obtain rfl := Option.some.inj (hk.symm.trans hx)
      have hzero := (nextTaskSeq_cases s.taskSeq k.kind outcome).resolve_left fun hc => hout hc.1
      exact ⟨_, List.getElem?_set_self (List.getElem?_eq_some_iff.1 hx).1, hkind,
        by simp [SubmitCall.Drawn], hzero.2⟩
    · obtain ⟨y, hy, hrest⟩ := hn.zero kind i ⟨t, outcome', x, hmem, hout, hx, hkind⟩
      have hci : c ≠ i := by
        rintro rfl
        obtain rfl := Option.some.inj (hk.symm.trans hy)
        exact hrest.2.1 hp
      exact ⟨y, (List.getElem?_set_ne hci).trans hy, hrest⟩

theorem step (hn : Numbered h s) (hs : step s e = some s') : Numbered ((s, e) :: h) s' := by
  rcases step_cases hs with ⟨k, hk, hstored, hnodes, rfl, he⟩ | ⟨c, outcome, k, rfl, hc, hp, rfl⟩ |
    ⟨c, k, k', hw, he⟩
  · exact hn.addCall hk ⟨hstored, hnodes⟩ he
  · exact hn.draw hc hp
  · exact hn.writes hw he

end Numbered

theorem Runs.numbered (hr : Runs h s) : Numbered h s := by
  refine Run.invariant (fun s hs => ?_) (fun h s e s' _ hn _ hs => hn.step hs) hr
  subst hs
  refine ⟨by simp, by simp, Apart.nil, by simp, fun kind i hf => ?_⟩
  obtain ⟨t, outcome, k, hmem, -⟩ := hf
  cases hmem

/-! ## Ids along a run -/

/-- The kind and the number of a task are read off its id. -/
theorem taskId_inj {kind kind' : String} {seq seq' : Nat} (h : taskId kind seq = taskId kind' seq') :
    kind = kind' ∧ seq = seq' := by
  obtain ⟨hkind, hseq⟩ := dash_inj (plain_toString seq) (plain_toString seq') h
  exact ⟨(String.append_right_inj "t-").1 hkind, Nat.repr_injective hseq⟩

/-- Ids are the calls' own when no two queries of a counter have failed. -/
theorem Numbered.distinct (hn : Numbered h s) (ho : FailsOnce h) : s.Distinct := by
  intro i j k k' hij hk hk' hd hd' hid
  obtain ⟨hkind, hseq⟩ := taskId_inj hid
  have hzero := hn.apart i j k k' hij hk hk' hd hd' hkind hseq
  refine hij (ho k.kind i j (hn.failed i k hk hd hzero) ?_)
  rw [hkind]
  exact hn.failed j k' hk' hd' (hseq ▸ hzero)

/-- Two failed queries of a counter give one id to two calls. -/
theorem Numbered.failsOnce (hn : Numbered h s) (hdist : s.Distinct) : FailsOnce h := by
  intro kind i j hi hj
  obtain ⟨k, hk, hkind, hd, hzero⟩ := hn.zero kind i hi
  obtain ⟨k', hk', hkind', hd', hzero'⟩ := hn.zero kind j hj
  by_contra hij
  refine hdist i j k k' hij hk hk' hd hd' ?_
  rw [SubmitCall.id, SubmitCall.id, hkind, hzero, hkind', hzero']

theorem FailsOnce.of_cons (ho : FailsOnce ((s, e) :: h)) : FailsOnce h :=
  fun kind i j hi hj => ho kind i j hi.cons hj.cons

/-- A step that leaves all ids distinct replaces nothing. -/
theorem Kept.step (hk : s.Kept) (hfresh : ∀ k ∈ s.calls, k.phase = .drawing → k.stored = false ∧
    k.storedNodes = []) (hs : step s e = some s') (hd : s'.Distinct) : s'.Kept := by
  intro i x hx
  rcases step_cases hs with ⟨k, hp, hstored, hnodes, rfl, -⟩ | ⟨c, outcome, k, rfl, hc, hp, rfl⟩ |
    ⟨c, k, k', hw, -⟩
  · rcases getElem?_concat_cases hx with rfl | hx
    · exact ⟨fun hent => absurd hp hent.1, by simp [hstored], by simp [hnodes]⟩
    · exact hk i x hx
  · rcases getElem?_set_cases hx with ⟨rfl, rfl⟩ | ⟨-, hx⟩
    · obtain ⟨hstored, hnodes⟩ := hfresh k (List.mem_of_getElem? hc) hp
      exact ⟨fun hent => absurd rfl hent.2, by simp [hstored], by simp [hnodes]⟩
    · exact hk i x hx
  · have hcalls := hx
    rw [hw.calls] at hx
    rcases getElem?_set_cases hx with ⟨rfl, rfl⟩ | ⟨hic, hx⟩
    · exact hw.own (hk i k hw.found)
    · -- a call that has written something has its number, so its id is not the writer's
      have hc' : s'.calls[c]? = some k' := by
        rw [hw.calls]
        exact List.getElem?_set_self (List.getElem?_eq_some_iff.1 hw.found).1
      have hne : x.Drawn → x.id ≠ k.id := fun hdx heq => by
        refine hd i c x k' hic hcalls hc' hdx hw.after (heq.trans ?_)
        rw [SubmitCall.id, SubmitCall.id, hw.kind, hw.seq]
      have hold := hk i x hx
      have hclean := hfresh x (List.mem_of_getElem? hx)
      refine ⟨fun hent => ?_, fun hst => ?_, fun n hn => ?_⟩
      · rw [hw.entries _ (hne hent.1)]
        exact hold.1 hent
      · have hdx : x.Drawn := fun hp => by simp [hclean hp] at hst
        rw [hw.tasks _ (hne hdx)]
        exact hold.2.1 hst
      · have hdx : x.Drawn := fun hp => by simp [hclean hp] at hn
        rw [hw.taskNodes _ (hne hdx)]
        exact hold.2.2 n hn

/-- Along a run in which no two queries of a counter fail, every id is its task's own. -/
theorem Runs.distinct_kept (hr : Runs h s) (ho : FailsOnce h) :
    ∀ t ∈ h.states s, t.Distinct ∧ t.Kept := by
  induction hr with
  | @start s hi =>
    intro t ht
    simp only [History.states, List.map_nil, List.mem_singleton] at ht
    subst ht hi
    exact ⟨Apart.nil, fun i k hk => by cases hk⟩
  | @step h s s' e hr hg hs ih =>
    have hall := ih ho.of_cons
    have hn := Runs.numbered (Run.step hr hg hs)
    have hdist := hn.distinct ho
    intro t ht
    rcases List.mem_cons.1 ht with rfl | ht
    · have hkept := (hall s (by simp)).2
      exact ⟨hdist, hkept.step (Runs.numbered hr).fresh hs hdist⟩
    · exact hall t ht

/-- In a run, every task has an id of its own, under which nothing of it is replaced, exactly when no two
queries of the counter of a kind fail. -/
theorem ids_kept_iff (hr : Runs h s) : (∀ t ∈ h.states s, t.Distinct ∧ t.Kept) ↔ FailsOnce h := by
  refine ⟨fun hall => ?_, hr.distinct_kept⟩
  exact (Runs.numbered hr).failsOnce (hall s (by simp)).1

/-- A call whose query fails, beside one whose query is answered. -/
theorem ids_kept_mixed : ∃ h s, Runs h s ∧ Failed h "create" 0 ∧ (∃ k : SubmitCall,
    s.calls[1]? = some k ∧ k.id = "t-create-1") ∧ ∀ t ∈ h.states s, t.Distinct ∧ t.Kept := by
  have hrun := Run.step (e := .enter 1) (Run.step (e := .draw 1 .answered)
    (Run.step (e := .enter 0) (Run.step (e := .draw 0 .refused)
    (Run.step (e := .submit 0 "create" []) (Run.step (e := .submit 0 "create" [])
    (show Runs [] {} from .start rfl)
    trivial rfl) trivial rfl) trivial rfl) trivial rfl) trivial rfl) trivial rfl
  have hn := Runs.numbered hrun
  have honly : ∀ kind i, Failed _ kind i → i = 0 := fun kind i hi => by
    obtain ⟨k, hk, -, -, hzero⟩ := hn.zero kind i hi
    match i, hk with
    | 0, _ => rfl
    | 1, hk =>
      cases hk
      cases hzero
  refine ⟨_, _, hrun, hn.failed 0 _ rfl (by simp [SubmitCall.Drawn]) rfl, ⟨_, rfl, rfl⟩, ?_⟩
  exact (ids_kept_iff hrun).2 fun kind i j hi hj => (honly kind i hi).trans (honly kind j hj).symm

/-- Two calls of a replica whose queries fail: the second one replaces the entry of the first. -/
theorem ids_reused : ∃ h s, Runs h s ∧ ¬ s.Distinct ∧ ¬ s.Kept ∧
    s.entries (0, "t-create-0") = some 1 ∧ (s.calls[0]?).map SubmitCall.id = some "t-create-0" := by
  have hrun := Run.step (e := .enter 1) (Run.step (e := .enter 0) (Run.step (e := .draw 1 .refused)
    (Run.step (e := .draw 0 .refused) (Run.step (e := .submit 0 "create" [])
    (Run.step (e := .submit 0 "create" [])
    (show Runs [] {} from .start rfl)
    trivial rfl) trivial rfl) trivial rfl) trivial rfl) trivial rfl) trivial rfl
  refine ⟨_, _, hrun, fun hd => ?_, fun hk => ?_, rfl, rfl⟩
  · exact hd 0 1 _ _ (by decide) rfl rfl (by simp [SubmitCall.Drawn]) (by simp [SubmitCall.Drawn]) rfl
  · have hentry := (hk 0 _ rfl).1 (by simp [SubmitCall.Entered])
    cases hentry

end Submits

end Rdsctl.Store
