import Rdsctl.Dag.Scheduler
import Rdsctl.Lib.Run

/-!
# A draft and the calls on it

`start_draft`, `edit_draft` and `delete_task` get the object of a draft, check its status and act on
it in steps of their own, and the execution that `start_draft` spawns marks the object as running
only when it is scheduled. `Drafts.step` interleaves any number of calls on one draft with its
executions. The node steps are executed at most once as long as no check accepts a call while an
accepted one is still on its way (`Drafts.Settled`).
-/

namespace Rdsctl.Dag

/-- A `DagTask` of the draft; `nodes` is its `defs_order`, ids with their dependencies. -/
structure Draft where
  status : TaskStatus
  nodes : List (String × List String)
deriving DecidableEq

/-- How far a call has come. -/
inductive DraftCall where
  /-- `start_draft` has the object. -/
  | startGot (o : Nat)
  /-- `start_draft` has found it pending. -/
  | startPassed (o : Nat)
  | editGot (o : Nat) (nodes : List (String × List String))
  | editPassed (nodes : List (String × List String))
  /-- `delete_task` has found the task in a final state. -/
  | deletePassed
  | returned
deriving DecidableEq

/-- `start_draft` has been accepted and has not spawned the execution yet. -/
def DraftCall.starting : DraftCall → Bool
  | .startPassed _ => true
  | .startGot _ | .editGot .. | .editPassed _ | .deletePassed | .returned => false

/-- `edit_draft` has been accepted and has not replaced the object yet. -/
def DraftCall.editing : DraftCall → Bool
  | .editPassed _ => true
  | .startGot _ | .startPassed _ | .editGot .. | .deletePassed | .returned => false

/-- The object that `start_draft` is going to check. -/
def DraftCall.startGot? : DraftCall → Option Nat
  | .startGot o => some o
  | .startPassed _ | .editGot .. | .editPassed _ | .deletePassed | .returned => none

/-- The object that `edit_draft` is going to check, if it was given nodes. -/
def DraftCall.editGot? : DraftCall → Option Nat
  | .editGot o (_ :: _) => some o
  | .editGot _ [] | .startGot _ | .startPassed _ | .editPassed _ | .deletePassed | .returned => none

inductive Phase where
  | spawned
  | running
  | finished
deriving DecidableEq

/-- An execution of the draft. -/
structure DraftExec where
  obj : Nat
  phase : Phase
  todo : List (String × List String)
  /-- The nodes that have succeeded. -/
  succeeded : List String
  failed : Bool
deriving DecidableEq

/-- The objects that the draft has had, the one that `tasks` holds, the calls and the executions. -/
structure Drafts where
  objs : List Draft
  entry : Option Nat
  calls : List DraftCall
  execs : List DraftExec
  /-- The node steps that were executed, each with its execution. -/
  steps : List (Nat × String)
deriving DecidableEq

inductive DraftEvent where
  | startGet
  | startCheck (c : Nat)
  /-- `tokio::spawn` in `start_draft` -/
  | spawn (c : Nat)
  | editGet (nodes : List (String × List String))
  | editCheck (c : Nat)
  /-- `edit_draft` puts the new object into `tasks`. -/
  | editInsert (c : Nat)
  | deleteCheck
  | deleteRemove (c : Nat)
  /-- `execute` begins: the object is running. -/
  | begin (x : Nat)
  /-- `execute` executes a node whose dependencies have succeeded. -/
  | node (x : Nat) (n : String) (ok : Bool)
  /-- The loop of `execute` ends. -/
  | finish (x : Nat) (canceled : Bool)

namespace Drafts

/-- What `submit_draft` leaves behind. -/
def Submitted (s : Drafts) : Prop :=
  ∃ nodes : List (String × List String), nodes ≠ [] ∧ s = ⟨[⟨.pending, nodes⟩], some 0, [], [], []⟩

def addCall (s : Drafts) (k : DraftCall) : Drafts := { s with calls := s.calls ++ [k] }

def setCall (s : Drafts) (c : Nat) (k : DraftCall) : Drafts := { s with calls := s.calls.set c k }

def setExec (s : Drafts) (x : Nat) (e : DraftExec) : Drafts := { s with execs := s.execs.set x e }

def setStatus (s : Drafts) (o : Nat) (status : TaskStatus) : Drafts :=
  { s with objs := s.objs.modify o fun d => { d with status := status } }

/-- The status of an object. -/
def statusOf (s : Drafts) (o : Nat) : Option TaskStatus := s.objs[o]?.map (·.status)

def step (s : Drafts) : DraftEvent → Option Drafts
  | .startGet => s.entry.map fun o => s.addCall (.startGot o)
  | .startCheck c =>
    match s.calls[c]? with
    | some (.startGot o) =>
      some (s.setCall c (if s.statusOf o = some .pending then .startPassed o else .returned))
    | _ => none
  | .spawn c =>
    match s.calls[c]? with
    | some (.startPassed o) =>
      let s := s.setCall c .returned
      match s.objs[o]? with
      | some ⟨_, n :: ns⟩ => some { s with execs := s.execs ++ [⟨o, .spawned, n :: ns, [], false⟩] }
      | _ => some s
    | _ => none
  | .editGet nodes => s.entry.map fun o => s.addCall (.editGot o nodes)
  | .editCheck c =>
    match s.calls[c]? with
    | some (.editGot o nodes) =>
      some (s.setCall c
        (if s.statusOf o = some .pending ∧ nodes ≠ [] then .editPassed nodes else .returned))
    | _ => none
  | .editInsert c =>
    match s.calls[c]? with
    | some (.editPassed nodes) =>
      some { s.setCall c .returned with
        objs := s.objs ++ [⟨.pending, nodes⟩], entry := some s.objs.length }
    | _ => none
  | .deleteCheck =>
    s.entry.bind fun o =>
      match s.statusOf o with
      | some .success | some .failed | some .skipped => some (s.addCall .deletePassed)
      | _ => none
  | .deleteRemove c =>
    match s.calls[c]? with
    | some .deletePassed => some { s.setCall c .returned with entry := none }
    | _ => none
  | .begin x =>
    match s.execs[x]? with
    | some ⟨o, .spawned, todo, succeeded, failed⟩ =>
      some ((s.setExec x ⟨o, .running, todo, succeeded, failed⟩).setStatus o .running)
    | _ => none
  | .node x n ok =>
    match s.execs[x]? with
    | some ⟨o, .running, todo, succeeded, failed⟩ =>
      if todo.any fun t => t.1 = n && t.2.all succeeded.contains then
        some { s.setExec x ⟨o, .running, todo.eraseP (·.1 = n),
            if ok then n :: succeeded else succeeded, failed || !ok⟩ with
          steps := s.steps ++ [(x, n)] }
      else none
    | _ => none
  | .finish x canceled =>
    match s.execs[x]? with
    | some ⟨o, .running, todo, succeeded, failed⟩ =>
      some ((s.setExec x ⟨o, .finished, todo, succeeded, failed⟩).setStatus o
        (if failed || canceled then .failed else .success))
    | _ => none

/-! ## What is promised, and when -/

/-- All node steps of the draft were executed by one execution, and there is no other. -/
def Once (s : Drafts) : Prop :=
  s.execs.length ≤ 1 ∧ ∀ p ∈ s.steps, ∀ q ∈ s.steps, p.1 = q.1

/-- A start is accepted and the object is not running yet. -/
def Starting (s : Drafts) : Prop :=
  (∃ k ∈ s.calls, k.starting = true) ∨ ∃ e ∈ s.execs, e.phase = .spawned

/-- An edit is accepted and the new object is not in its place yet. -/
def Editing (s : Drafts) : Prop := ∃ k ∈ s.calls, k.editing = true

instance (s : Drafts) : Decidable s.Starting :=
  inferInstanceAs (Decidable ((∃ k ∈ s.calls, k.starting = true) ∨ ∃ e ∈ s.execs, e.phase = .spawned))

instance (s : Drafts) : Decidable s.Editing :=
  inferInstanceAs (Decidable (∃ k ∈ s.calls, k.editing = true))

/-- No check accepts a call while an accepted one is on its way. What is started is the object that
`tasks` holds, and what is edited is pending there. -/
def Settled (s : Drafts) : DraftEvent → Prop
  | .startCheck c =>
    ∀ o ∈ s.calls[c]?.bind DraftCall.startGot?, s.statusOf o = some .pending →
      s.entry = some o ∧ ¬s.Starting ∧ ¬s.Editing
  | .editCheck c =>
    ∀ o ∈ s.calls[c]?.bind DraftCall.editGot?, s.statusOf o = some .pending →
      s.entry.bind s.statusOf = some .pending ∧ ¬s.Starting
  | _ => True

instance (s : Drafts) : (e : DraftEvent) → Decidable (s.Settled e)
  | .startCheck c =>
    inferInstanceAs (Decidable (∀ o ∈ s.calls[c]?.bind DraftCall.startGot?,
      s.statusOf o = some .pending → s.entry = some o ∧ ¬s.Starting ∧ ¬s.Editing))
  | .editCheck c =>
    inferInstanceAs (Decidable (∀ o ∈ s.calls[c]?.bind DraftCall.editGot?,
      s.statusOf o = some .pending → s.entry.bind s.statusOf = some .pending ∧ ¬s.Starting))
  | .startGet | .spawn _ | .editGet _ | .editInsert _ | .deleteCheck | .deleteRemove _ | .begin _
  | .node .. | .finish .. => isTrue trivial

/-! ## Two starts of a draft -/

/-- Both starts find the draft pending, and each spawns an execution. -/
def twoStarts : List DraftEvent :=
  [.startGet, .startGet, .startCheck 0, .startCheck 1, .spawn 0, .spawn 1, .begin 0, .begin 1,
    .node 0 "a" true, .node 1 "a" true]

theorem twoStarts_executed :
    ¬∀ h s, Run step (fun _ _ _ => True) Submitted h s → s.Once := by
  intro hall
  have hinit : Submitted ⟨[⟨.pending, [("a", [])]⟩], some 0, [], [], []⟩ :=
    ⟨[("a", [])], by simp, rfl⟩
  have hfollow : ∃ h s, follow step (fun _ _ _ => True) twoStarts []
      ⟨[⟨.pending, [("a", [])]⟩], some 0, [], [], []⟩ = some (h, s) ∧ ¬s.Once := by
    refine ⟨_, _, rfl, fun honce => ?_⟩
    have := honce.2 (0, "a") (by decide) (1, "a") (by decide)
    cases this
  obtain ⟨h, s, hf, hs⟩ := hfollow
  exact hs (hall h s ((Run.start hinit).follow hf))

/-! ## Settled runs -/

/-- At most one start is accepted or executed, and then the object in `tasks` is the one started, or
it is not pending any more. -/
structure Ok (s : Drafts) : Prop where
  steps : ∀ p ∈ s.steps, p.1 < s.execs.length
  one : s.execs.length + s.calls.countP DraftCall.starting ≤ 1
  editing : s.Editing → s.execs = [] ∧ s.calls.countP DraftCall.starting = 0
  accepted : ∀ o, .startPassed o ∈ s.calls → s.entry = some o ∨ s.entry = none
  spawned : ∀ e ∈ s.execs, e.phase = .spawned → s.entry = some e.obj ∨ s.entry = none
  begun : ∀ e ∈ s.execs, e.phase ≠ .spawned → s.entry.bind s.statusOf ≠ some .pending

variable {s s' : Drafts}

theorem Ok.once (hok : Ok s) : s.Once := by
  have hlen := hok.one
  refine ⟨by omega, fun p hp q hq => ?_⟩
  have hp := hok.steps p hp
  have hq := hok.steps q hq
  omega

theorem Ok.submitted (h : s.Submitted) : Ok s := by
  obtain ⟨nodes, -, rfl⟩ := h
  exact ⟨by simp, by simp, by simp [Editing], by simp, by simp, by simp⟩

theorem starts_eq_zero (h : ¬s.Starting) : s.calls.countP DraftCall.starting = 0 :=
  List.countP_eq_zero.2 fun k hk hs => h (.inl ⟨k, hk, hs⟩)

/-- While the object in `tasks` is pending and no start is on its way, nothing was started. -/
theorem Ok.nothing_started (hok : Ok s) (hp : s.entry.bind s.statusOf = some .pending)
    (hs : ¬s.Starting) : s.execs = [] := by
  rcases he : s.execs with - | ⟨e, es⟩
  · rfl
  · have hmem : e ∈ s.execs := by simp [he]
    exact absurd hp (hok.begun e hmem fun h => hs (.inr ⟨e, hmem, h⟩))

/-- No call is accepted. -/
theorem Ok.calls (hok : Ok s) {calls : List DraftCall}
    (hc : calls.countP DraftCall.starting ≤ s.calls.countP DraftCall.starting)
    (hm : ∀ k ∈ calls, k ∈ s.calls ∨ k.starting = false ∧ k.editing = false) :
    Ok { s with calls := calls } where
  steps := hok.steps
  one := Nat.le_trans (Nat.add_le_add_left hc _) hok.one
  editing := by
    rintro ⟨k, hk, he⟩
    rcases hm k hk with hk | ⟨-, hf⟩
    · obtain ⟨hx, h0⟩ := hok.editing ⟨k, hk, he⟩
      exact ⟨hx, Nat.le_zero.1 (h0 ▸ hc)⟩
    · exact absurd he (by simp [hf])
  accepted o ho := by
    rcases hm _ ho with ho | ⟨hf, -⟩
    · exact hok.accepted o ho
    · simp [DraftCall.starting] at hf
  spawned := hok.spawned
  begun := hok.begun

theorem countP_set_le {l : List DraftCall} {c : Nat} {k : DraftCall} (hk : k.starting = false) :
    (l.set c k).countP DraftCall.starting ≤ l.countP DraftCall.starting := by
  induction l generalizing c with
  | nil => simp
  | cons a l ih =>
    cases c with
    | zero => simp [List.countP_cons, hk]
    | succ c =>
      simp only [List.set_cons_succ, List.countP_cons]
      exact Nat.add_le_add_right ih _

theorem Ok.addCall (hok : Ok s) {k : DraftCall} (hs : k.starting = false)
    (he : k.editing = false) : Ok (s.addCall k) := by
  refine hok.calls (by simp [hs]) fun k' hk' => ?_
  rcases List.mem_append.1 hk' with hk' | hk'
  · exact .inl hk'
  · rw [List.mem_singleton.1 hk']
    exact .inr ⟨hs, he⟩

theorem Ok.setCall (hok : Ok s) {c : Nat} {k : DraftCall} (hs : k.starting = false)
    (he : k.editing = false) : Ok (s.setCall c k) := by
  refine hok.calls (countP_set_le hs) fun k' hk' => ?_
  rcases List.mem_or_eq_of_mem_set hk' with hk' | rfl
  · exact .inl hk'
  · exact .inr ⟨hs, he⟩

/-- A start is accepted. -/
theorem Ok.startPassed (hok : Ok s) {c o : Nat} (hc : c < s.calls.length)
    (hp : s.statusOf o = some .pending) (he : s.entry = some o) (hs : ¬s.Starting)
    (hed : ¬s.Editing) : Ok (s.setCall c (.startPassed o)) := by
  have h0 := starts_eq_zero hs
  have hx := hok.nothing_started (by simp [he, hp]) hs
  refine ⟨hok.steps, ?_, ?_, fun o' ho' => ?_, hok.spawned, hok.begun⟩
  · have : (s.calls.set c (.startPassed o)).countP DraftCall.starting ≤ 1 := by
      rw [List.countP_set hc, h0]
      simp [DraftCall.starting]
    simpa [Drafts.setCall, hx] using this
  · rintro ⟨k, hk, hke⟩
    rcases List.mem_or_eq_of_mem_set hk with hk | rfl
    · exact absurd ⟨k, hk, hke⟩ hed
    · simp [DraftCall.editing] at hke
  · rcases List.mem_or_eq_of_mem_set ho' with ho' | ho'
    · exact hok.accepted o' ho'
    · cases ho'
      exact .inl he

/-- An edit is accepted. -/
theorem Ok.editPassed (hok : Ok s) {c : Nat} {nodes : List (String × List String)}
    (hp : s.entry.bind s.statusOf = some .pending) (hs : ¬s.Starting) :
    Ok (s.setCall c (.editPassed nodes)) := by
  have h0 := starts_eq_zero hs
  have hx := hok.nothing_started hp hs
  have hc : (s.calls.set c (.editPassed nodes)).countP DraftCall.starting = 0 :=
    Nat.le_zero.1 (h0 ▸ countP_set_le rfl)
  refine ⟨hok.steps, by simp [Drafts.setCall, hx, hc], fun _ => ⟨hx, hc⟩, fun o ho => ?_,
    hok.spawned, hok.begun⟩
  rcases List.mem_or_eq_of_mem_set ho with ho | ho
  · exact hok.accepted o ho
  · cases ho

/-- An accepted start acts, and its call is over. -/
theorem Ok.startOver (hok : Ok s) {c o : Nat} (hc : s.calls[c]? = some (.startPassed o)) :
    s.execs = [] ∧ (s.setCall c .returned).calls.countP DraftCall.starting = 0 ∧ ¬s.Editing ∧
      (s.entry = some o ∨ s.entry = none) := by
  obtain ⟨hlt, hget⟩ := List.getElem?_eq_some_iff.1 hc
  have hmem : .startPassed o ∈ s.calls := List.mem_of_getElem? hc
  have hpos : 0 < s.calls.countP DraftCall.starting := List.countP_pos_iff.2 ⟨_, hmem, rfl⟩
  have hone := hok.one
  refine ⟨List.length_eq_zero_iff.1 (by omega), ?_, fun he => ?_, hok.accepted o hmem⟩
  · rw [Drafts.setCall, List.countP_set hlt, hget]
    simp only [DraftCall.starting]
    simp
    omega
  · have := (hok.editing he).2
    omega

theorem Ok.spawn (hok : Ok s) {c o : Nat} (hc : s.calls[c]? = some (.startPassed o))
    {nodes : List (String × List String)} :
    Ok { s.setCall c .returned with execs := s.execs ++ [⟨o, .spawned, nodes, [], false⟩] } := by
  obtain ⟨hx, h0, hed, he⟩ := hok.startOver hc
  have hsteps : s.steps = [] := by
    refine List.eq_nil_iff_forall_not_mem.2 fun p hp => ?_
    have := hok.steps p hp
    simp [hx] at this
  refine ⟨by simp [Drafts.setCall, hsteps], by simp [hx, h0], ?_, fun o' ho' => ?_, ?_, ?_⟩
  · rintro ⟨k, hk, hke⟩
    rcases List.mem_or_eq_of_mem_set hk with hk | rfl
    · exact absurd ⟨k, hk, hke⟩ hed
    · simp [DraftCall.editing] at hke
  · exact absurd rfl (List.countP_eq_zero.1 h0 _ ho')
  · simpa [hx, Drafts.setCall] using he
  · simp [hx]

theorem Ok.editInsert (hok : Ok s) {c : Nat} {nodes : List (String × List String)}
    (hc : s.calls[c]? = some (.editPassed nodes)) :
    Ok { s.setCall c .returned with
      objs := s.objs ++ [⟨.pending, nodes⟩], entry := some s.objs.length } := by
  obtain ⟨hx, h0⟩ := hok.editing ⟨_, List.mem_of_getElem? hc, rfl⟩
  have h0' : (s.calls.set c .returned).countP DraftCall.starting = 0 :=
    Nat.le_zero.1 (h0 ▸ countP_set_le rfl)
  exact ⟨hok.steps, by simp [Drafts.setCall, hx, h0'], fun _ => ⟨hx, h0'⟩,
    fun o ho => absurd rfl (List.countP_eq_zero.1 h0' _ ho), by simp [Drafts.setCall, hx],
    by simp [Drafts.setCall, hx]⟩

theorem Ok.deleteRemove (hok : Ok s) : Ok { s with entry := none } :=
  ⟨hok.steps, hok.one, hok.editing, fun _ _ => .inr rfl, fun _ _ _ => .inr rfl, by simp⟩

/-- Writing a status other than pending makes no object pending. -/
theorem statusOf_setStatus {o o' : Nat} {status : TaskStatus} (h : status ≠ .pending)
    (ho : (s.setStatus o status).statusOf o' = some .pending) :
    o' ≠ o ∧ s.statusOf o' = some .pending := by
  simp only [statusOf, setStatus, List.getElem?_modify] at ho ⊢
  rcases hd : s.objs[o']? with - | d
  · simp [hd] at ho
  · rcases eq_or_ne o o' with rfl | hne
    · simp [hd, h] at ho
    · exact ⟨hne.symm, by simpa [hd, hne] using ho⟩

/-- An execution goes on: it writes its object only when it leaves a phase. -/
theorem Ok.exec (hok : Ok s) {x : Nat} {e : DraftExec} (hx : s.execs[x]? = some e) (e' : DraftExec)
    (objs : List Draft) (hp : e'.phase ≠ .spawned) {steps : List (Nat × String)}
    (hsteps : ∀ p ∈ steps, p ∈ s.steps ∨ p.1 = x)
    (hbegun : ∀ o, ({ s with objs := objs } : Drafts).statusOf o = some .pending →
      s.statusOf o = some .pending ∧ (e.phase = .spawned → o ≠ e.obj)) :
    Ok { s.setExec x e' with objs := objs, steps := steps } := by
  obtain ⟨hlt, -⟩ := List.getElem?_eq_some_iff.1 hx
  have hmem := List.mem_of_getElem? hx
  have hne : s.execs ≠ [] := List.ne_nil_of_mem hmem
  refine ⟨fun p hpm => ?_, by simpa [setExec] using hok.one, fun he => absurd (hok.editing he).1 hne,
    hok.accepted, fun e'' he'' hs => ?_, fun e'' he'' hs hpend => ?_⟩
  · rcases hsteps p hpm with hpm | rfl
    · simpa [setExec] using hok.steps p hpm
    · simpa [setExec] using hlt
  · rcases List.mem_or_eq_of_mem_set he'' with he'' | rfl
    · exact hok.spawned e'' he'' hs
    · exact absurd hs hp
  · obtain ⟨o, ho, hst⟩ := Option.bind_eq_some_iff.1 hpend
    have ho : s.entry = some o := ho
    obtain ⟨hst, hother⟩ := hbegun o hst
    rcases eq_or_ne e.phase .spawned with hph | hph
    · rcases hok.spawned e hmem hph with h | h
      · exact hother hph (Option.some.inj (ho.symm.trans h))
      · simp [h] at ho
    · exact hok.begun e hmem hph (by simp [ho, hst])

/-- What holds of a draft is kept by every step of a settled run. -/
theorem Ok.step {e : DraftEvent} (hok : Ok s) (hg : s.Settled e) (hs : s.step e = some s') :
    Ok s' := by
  cases e with
  | startGet =>
    obtain ⟨o, -, rfl⟩ := Option.map_eq_some_iff.1 hs
    exact hok.addCall rfl rfl
  | startCheck c =>
    simp only [Drafts.step] at hs
    split at hs
    · rename_i o hc
      cases hs
      split
      · rename_i hp
        obtain ⟨he, hns, hne⟩ := hg o (by simp [hc, DraftCall.startGot?]) hp
        exact hok.startPassed (List.getElem?_eq_some_iff.1 hc).1 hp he hns hne
      · exact hok.setCall rfl rfl
    · cases hs
  | spawn c =>
    simp only [Drafts.step] at hs
    split at hs
    · rename_i o hc
      split at hs
      · cases hs
        exact hok.spawn hc
      · cases hs
        exact hok.setCall rfl rfl
    · cases hs
  | editGet nodes =>
    obtain ⟨o, -, rfl⟩ := Option.map_eq_some_iff.1 hs
    exact hok.addCall rfl rfl
  | editCheck c =>
    simp only [Drafts.step] at hs
    split at hs
    · rename_i o nodes hc
      cases hs
      split
      · rename_i hp
        obtain ⟨n, ns, rfl⟩ := List.exists_cons_of_ne_nil hp.2
        obtain ⟨he, hns⟩ := hg o (by simp [hc, DraftCall.editGot?]) hp.1
        exact hok.editPassed he hns
      · exact hok.setCall rfl rfl
    · cases hs
  | editInsert c =>
    simp only [Drafts.step] at hs
    split at hs
    · rename_i nodes hc
      cases hs
      exact hok.editInsert hc
    · cases hs
  | deleteCheck =>
    obtain ⟨o, -, hs⟩ := Option.bind_eq_some_iff.1 hs
    split at hs <;> cases hs <;> exact hok.addCall rfl rfl
  | deleteRemove c =>
    simp only [Drafts.step] at hs
    split at hs
    · cases hs
      exact (hok.setCall (k := .returned) rfl rfl).deleteRemove
    · cases hs
  | begin x =>
    simp only [Drafts.step] at hs
    split at hs
    · rename_i o todo succeeded failed hx
      cases hs
      refine hok.exec hx ⟨o, .running, todo, succeeded, failed⟩ _ (by simp) (fun p hp => .inl hp)
        fun o' ho' => ?_
      obtain ⟨hne, hp⟩ := statusOf_setStatus (s := s) (by simp) ho'
      exact ⟨hp, fun _ => hne⟩
    · cases hs
  | node x n ok =>
    simp only [Drafts.step] at hs
    split at hs
    · rename_i o todo succeeded failed hx
      split at hs
      · cases hs
        refine hok.exec hx ⟨o, .running, _, _, _⟩ s.objs (by simp) (fun p hp => ?_)
          fun o' ho' => ⟨ho', by simp⟩
        rcases List.mem_append.1 hp with hp | hp
        · exact .inl hp
        · exact .inr (by simp [List.mem_singleton.1 hp])
      · cases hs
    · cases hs
  | finish x canceled =>
    simp only [Drafts.step] at hs
    split at hs
    · rename_i o todo succeeded failed hx
      cases hs
      have hfinal : (if failed || canceled then TaskStatus.failed else .success) ≠ .pending := by
        split <;> simp
      exact hok.exec hx ⟨o, .finished, todo, succeeded, failed⟩ _ (by simp) (fun p hp => .inl hp)
        fun o' ho' => ⟨(statusOf_setStatus (s := s) hfinal ho').2, by simp⟩
    · cases hs

theorem executed_once {h : History Drafts DraftEvent}
    (hr : Run step (fun _ s e => s.Settled e) Submitted h s) : s.Once := by
  have hok : Ok s := by
    refine hr.invariant (I := fun _ s => Ok s) (fun _ h0 => .submitted h0) ?_
    intro _ t e t' _ hok hg hs
    exact hok.step hg hs
  exact hok.once

/-- A draft is edited, started, refused to a second start and an edit, executed and deleted. -/
def oneStart : List DraftEvent :=
  [.editGet [("b", [])], .editCheck 0, .editInsert 0, .startGet, .startGet, .startCheck 1, .spawn 1,
    .begin 0, .startCheck 2, .editGet [("c", [])], .editCheck 3, .node 0 "b" true, .finish 0 false,
    .deleteCheck, .deleteRemove 4]

theorem oneStart_once : ∃ h s, Run step (fun _ s e => s.Settled e) Submitted h s ∧
    s.steps = [(0, "b")] ∧ s.Once := by
  have hinit : Submitted ⟨[⟨.pending, [("a", [])]⟩], some 0, [], [], []⟩ :=
    ⟨[("a", [])], by simp, rfl⟩
  have hfollow : ∃ h s, follow step (fun _ s e => s.Settled e) oneStart []
      ⟨[⟨.pending, [("a", [])]⟩], some 0, [], [], []⟩ = some (h, s) ∧ s.steps = [(0, "b")] :=
    ⟨_, _, rfl, rfl⟩
  obtain ⟨h, s, hf, hs⟩ := hfollow
  have hr := (Run.start hinit).follow hf
  exact ⟨h, s, hr, hs, executed_once hr⟩

end Drafts
end Rdsctl.Dag
