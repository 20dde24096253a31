import Rdsctl.Inst.Stale
import Rdsctl.Inst.Sweep
import Rdsctl.Inst.Reparent

/-!
# Automatic failover, sweep after sweep

`sweep_once` of `src/instance.rs` looks at running and degraded instances, and
`auto_failover_if_needed` asks `orch_reparent` for a switch when the registered master is down.
`orch_reparent` takes running instances only, and the sweep that finds the master down degrades the
instance itself. `Sweeps` follows the sweeps of one instance; `submits_iff` says which of them submit
a switch.
-/

namespace Rdsctl.Inst

open Ha Fallible

/-! ## One attempt -/

/-- Why nothing can be said of the master: its host has no agent, or one that does not answer. -/
def blindReason (i : RdsInstance) (container : String) (hosts : List HostRow) (ping : String → Bool) :
    Option String :=
  match resolveRouteOf i container hosts with
  | .direct => none
  | .unmanaged host => some ("主节点绑定宿主机 " ++ host ++ "(agent 未接入),不执行自动 ERS")
  | .agent host _ _ =>
    if ping host then none
    else some ("主节点绑定宿主机 " ++ host ++ "(agent 不可达),不执行自动 ERS")

/-- What `auto_failover_if_needed` decides. -/
inductive FailoverGate
  | quiet
  | skipped (message : String)
  | attempt
deriving DecidableEq, Repr

/-- `auto_failover_if_needed` up to `orch_reparent`, on the copy `i` of the record, whose
`auto_failover` is `auto`. `tried` is the entry of `AUTO_TRY`; a time of the future is past all
limits, since the difference wraps. -/
def failoverGate (i : RdsInstance) (auto : Bool) (facts : List Fact) (ping : String → Bool) (now : Nat)
    (tried : Option Nat) (m : Manager) : FailoverGate :=
  if i.network.startsWith "demo-" then .quiet
  else if i.itype = "xenon" then .quiet
  else match i.master with
    | none => .quiet
    | some mc =>
      match blindReason i mc.container m.hosts ping with
      | some message => .skipped message
      | none =>
        if facts.any fun f => f.container = mc.container && f.alive then .quiet
        else if !i.enabled || !auto then
          .skipped "实例未启用自动故障转移(auto_failover=off)或已停用"
        else if m.locks.busy i.name then .skipped "实例操作锁占用(有任务进行中)"
        else if (facts.filter fun f => f.role = "slave" && f.alive) = [] then
          .skipped "无存活从节点候选(事实层无 alive 从)"
        else if tried.any fun t => decide (t ≤ now ∧ now - t < 60) then
          .skipped "60s 限频防抖,上次尝试后未满 60s"
        else .attempt

/-! ## The sweeps of an instance -/

/-- Where the sweep is: at rest, with a copy of the record and of its `auto_failover`, looking at it
with the lock free, or after `auto_failover_if_needed`. -/
inductive SweepPlace
  | idle
  | copied (i : RdsInstance) (auto : Bool)
  | looking (i : RdsInstance) (auto : Bool)
  | acted (i : RdsInstance)

/-- The copy that the sweep has. -/
def SweepPlace.copy : SweepPlace → Option RdsInstance
  | .idle => none
  | .copied i _ | .looking i _ | .acted i => some i

structure Sweeps where
  m : Manager
  /-- `auto_failover` of the record -/
  autoFailover : Bool
  tried : Option Nat
  place : SweepPlace

inductive SweepEvent
  | scan
  /-- The sweep comes to the copy and checks the lock. -/
  | next
  | failover (facts : List Fact) (ping : String → Bool) (now : Nat) (env : Surroundings)
  | judge (problems : List String)
  /-- `run_reparent` fails. -/
  | switchFailed (e : String)
  /-- `run_reparent` registers the new master. -/
  | switched (old cand : String)
  | lock (call : AuthorityCall)
  | unlock (p : Proposal)
  /-- The record is edited. -/
  | edit (enabled autoFailover : Bool)

/-- The spawned switch of an instance. -/
def Work.isReparent (x : String) : Work → Bool
  | .task .. => false
  | .reparent inst _ _ _ => inst = x

namespace Sweeps

def withManager (s : Sweeps) (m : Manager) : Sweeps := { s with m := m }

/-- The switch of the instance has ended. -/
def switchOver (x : String) (m : Manager) : Manager :=
  { m with work := m.work.eraseP (·.isReparent x) }

/-- What `run_reparent` makes of the record when it fails. -/
def degradedBy (e : String) (i : RdsInstance) : RdsInstance :=
  { i with
    status := .degraded
    lastError := if "切换".toList <:+: i.lastError.toList then i.lastError
      else "受管切换失败:" ++ e }

def step (x : String) (s : Sweeps) : SweepEvent → Option Sweeps
  | .scan =>
    match s.place, s.m.instances[x]? with
    | .idle, some i => if i.swept then some { s with place := .copied i s.autoFailover } else none
    | _, _ => none
  | .next =>
    match s.place with
    | .copied i auto =>
      some { s with
        place := if s.m.locks.busy i.name ∨ i.itype = "xenon" then .idle else .looking i auto }
    | _ => none
  | .failover facts ping now env =>
    match s.place with
    | .looking i auto =>
      let s := { s with place := .acted i }
      match failoverGate i auto facts ping now s.tried s.m with
      | .attempt =>
        some { s with tried := some now, m := (exec (orchReparent i.name none "auto" env) s.m).2 }
      | .quiet | .skipped _ => some s
    | _ => none
  | .judge problems =>
    match s.place with
    | .acted i =>
      let s := { s with place := .idle }
      match i.verdict problems with
      | some (status, lastError) =>
        some (s.withManager (s.m.alterInstance i.name (·.setStatus status lastError)).persist)
      | none => some s
    | _ => none
  | .switchFailed e =>
    if s.m.work.any (·.isReparent x) then
      some (s.withManager ((switchOver x s.m).alterInstance x (degradedBy e)).persist)
    else none
  | .switched old cand =>
    if s.m.work.any (·.isReparent x) then
      some (s.withManager ((switchOver x s.m).alterInstance x (·.swapRoles old cand)).persist)
    else none
  | .lock call => some (s.withManager { s.m with locks := (exec (lockInstance x call) s.m.locks).2 })
  | .unlock p => some (s.withManager { s.m with locks := unlockInstance x p s.m.locks })
  | .edit enabled autoFailover =>
    some { s.withManager (s.m.alterInstance x fun i => { i with enabled := enabled }).persist with
      autoFailover := autoFailover }

/-- No sweep has begun; the instance is an ordinary one that is swept. -/
structure Initial (x : String) (status : InstStatus) (s : Sweeps) : Prop where
  place : s.place = .idle
  record : ∃ i, s.m.instances[x]? = some i ∧ i.name = x ∧ i.status = status ∧
    i.network.startsWith "demo-" = false ∧ i.itype ≠ "xenon"
  swept : status = .running ∨ status = .degraded
  named : trimmed x = x ∧ x ≠ ""

/-- The registered master is down while a slave is alive, the instance is enabled with its failover
on, no operation holds the lock, and the last attempt is 60 s ago. -/
structure Due (x : String) (s : Sweeps) (facts : List Fact) (now : Nat) : Prop where
  looks : ∃ i mc, s.place = .looking i true ∧ i.enabled = true ∧ i.master = some mc ∧
    ∀ f ∈ facts, f.container = mc.container → f.alive = false
  slave : ∃ f ∈ facts, f.role = "slave" ∧ f.alive = true
  enabled : ∀ i, s.m.instances[x]? = some i → i.enabled = true
  free : s.m.locks.busy x = false
  rested : ∀ t, s.tried = some t → t + 60 ≤ now

/-- The sweep asks for a switch, and `orch_reparent` gets past its checks. -/
def Submits (x : String) (s : Sweeps) (facts : List Fact) (ping : String → Bool) (now : Nat) : Prop :=
  ∃ i auto, s.place = .looking i auto ∧
    failoverGate i auto facts ping now s.tried s.m = .attempt ∧
      orchReparentCheck (trimmed x) none "auto" s.m = .ok ()

/-- The host of the master has an agent that answers, if it is not the local one. -/
def Sees (s : Sweeps) (ping : String → Bool) : Prop :=
  ∀ i auto mc, s.place = .looking i auto → i.master = some mc →
    blindReason i mc.container s.m.hosts ping = none

/-- Since the instance was running last, at the start or by a sweep that has found it well again, no
sweep has found a problem and no switch has failed. -/
def unharmed (status : InstStatus) : History Sweeps SweepEvent → Bool
  | [] => status = .running
  | (s, .judge problems) :: h =>
    problems = [] && ((s.place.copy.any fun i => i.status = .degraded) || unharmed status h)
  | (_, .switchFailed _) :: _ => false
  | _ :: h => unharmed status h

/-! ## What the sweeps make of the record -/

/-- The record is running or degraded as `unharmed` says, and the copy was so when it was taken. -/
structure Ok (x : String) (status : InstStatus) (h : History Sweeps SweepEvent) (s : Sweeps) : Prop where
  record : ∃ i, s.m.instances[x]? = some i ∧ i.name = x ∧ i.network.startsWith "demo-" = false ∧
    i.itype ≠ "xenon" ∧ i.status = if unharmed status h then .running else .degraded
  copy : ∀ c, s.place.copy = some c → c.name = x ∧ c.network.startsWith "demo-" = false ∧
    c.itype ≠ "xenon" ∧ (c.status = .running ∨ c.status = .degraded) ∧
      (c.status = .degraded → unharmed status h = false)
  named : trimmed x = x ∧ x ≠ ""

variable {x : String} {status : InstStatus} {h h' : History Sweeps SweepEvent} {s s' : Sweeps}

theorem Ok.initial (h0 : Initial x status s) : Ok x status [] s where
  record := by
    obtain ⟨i, hi, hname, hst, hnet, hty⟩ := h0.record
    refine ⟨i, hi, hname, hnet, hty, ?_⟩
    rcases h0.swept with rfl | rfl <;> simp [hst, unharmed]
  copy c hc := by
    rw [h0.place] at hc
    cases hc
  named := h0.named

/-- The record stays, and the place of the sweep with the copy it has. -/
theorem Ok.keep (hok : Ok x status h s) (hu : unharmed status h' = unharmed status h)
    (hm : s'.m.instances = s.m.instances) (hp : ∀ c, s'.place.copy = some c → s.place.copy = some c) :
    Ok x status h' s' where
  record := by rw [hu, hm]; exact hok.record
  copy c hc := by rw [hu]; exact hok.copy c (hp c hc)
  named := hok.named

theorem alterInstance_persist_get {m : Manager} {i : RdsInstance} {f : RdsInstance → RdsInstance}
    (hi : m.instances[x]? = some i) :
    (m.alterInstance x f).persist.instances[x]? = some (f i) := by
  simp [Manager.alterInstance, hi, Manager.insertInstance_get]

/-- The record is altered: only its status matters. -/
theorem Ok.alter (hok : Ok x status h s) {m : Manager} (f : RdsInstance → RdsInstance)
    (hs : s'.m = (m.alterInstance x f).persist) (hm : m.instances = s.m.instances)
    (hf : ∀ i, (f i).name = i.name ∧ (f i).network = i.network ∧ (f i).itype = i.itype)
    (hst : ∀ i, s.m.instances[x]? = some i →
      i.status = (if unharmed status h then .running else .degraded) →
        (f i).status = if unharmed status h' then .running else .degraded)
    (hplace : ∀ c, s'.place.copy = some c → s.place.copy = some c ∧
      (unharmed status h = false → unharmed status h' = false)) : Ok x status h' s' where
  record := by
    obtain ⟨i, hi, hname, hnet, hty, hi'⟩ := hok.record
    obtain ⟨h1, h2, h3⟩ := hf i
    refine ⟨f i, ?_, h1.trans hname, by rw [h2]; exact hnet, by rw [h3]; exact hty, hst i hi hi'⟩
    rw [hs]
    exact alterInstance_persist_get (hm ▸ hi)
  copy c hc := by
    obtain ⟨hc, hle⟩ := hplace c hc
    obtain ⟨h1, h2, h3, h4, h5⟩ := hok.copy c hc
    exact ⟨h1, h2, h3, h4, fun hd => hle (h5 hd)⟩
  named := hok.named

theorem orchReparent_instances (i : String) (env : Surroundings) (m : Manager) :
    (exec (orchReparent i none "auto" env) m).2.instances = m.instances := by
  unfold orchReparent
  rcases hc : orchReparentCheck (trimmed i) none "auto" m with e | u
  · rw [exec_checked_error hc]
  · rw [exec_checked_ok hc, orchReparentLocked]
    rcases hl : exec (lockFor (trimmed i) env) m with ⟨_ | u, m'⟩
    · rw [exec_bind_error hl]
      rw [lockFor, exec_zoom] at hl
      obtain ⟨-, rfl⟩ := Prod.mk.inj hl
      rfl
    · rw [exec_bind_ok hl]
      rw [lockFor, exec_zoom] at hl
      obtain ⟨-, rfl⟩ := Prod.mk.inj hl
      rfl

/-- What a sweep writes for its copy, and what the copy says of the record. -/
theorem verdict_status {c : RdsInstance} {problems : List String} {st : InstStatus} {msg : String}
    (hv : c.verdict problems = some (st, msg)) :
    st = if problems = [] then .running else .degraded := by
  unfold RdsInstance.verdict at hv
  split at hv
  · next hnil =>
    split at hv <;> cases hv
    rw [if_pos hnil]
  · next hne =>
    rw [if_neg hne]
    split at hv
    · cases hv
      rfl
    · dsimp only at hv
      split at hv <;> cases hv
      rfl

theorem verdict_none {c : RdsInstance} {problems : List String} (hv : c.verdict problems = none) :
    if problems = [] then c.status ≠ .degraded else c.status ≠ .running := by
  unfold RdsInstance.verdict at hv
  split at hv
  · next hnil =>
    rw [if_pos hnil]
    split at hv
    · cases hv
    · assumption
  · next hne =>
    rw [if_neg hne]
    split at hv
    · cases hv
    · assumption

/-- The sweep judges its copy. -/
theorem Ok.judge (hok : Ok x status h s) {problems : List String}
    (hs : s.step x (.judge problems) = some s') : Ok x status ((s, .judge problems) :: h) s' := by
  simp only [Sweeps.step] at hs
  split at hs
  · next c hplace =>
    obtain ⟨hname, -, -, hswept, hdeg⟩ := hok.copy c (by rw [hplace]; rfl)
    have hcopy : (s.place.copy.any fun i => decide (i.status = .degraded)) =
        decide (c.status = .degraded) := by rw [hplace]; rfl
    have hu : unharmed status ((s, .judge problems) :: h) =
        (decide (problems = []) && (decide (c.status = .degraded) || unharmed status h)) := by
      rw [unharmed, hcopy]
    split at hs
    · next st msg hv =>
      cases hs
      have hst := verdict_status hv
      rw [hname]
      refine hok.alter (·.setStatus st msg) rfl rfl (fun _ => ⟨rfl, rfl, rfl⟩) (fun i _ _ => ?_) nofun
      rw [hu]
      show st = _
      rcases eq_or_ne problems [] with rfl | hne
      · -- a sweep that finds nothing writes only for a degraded copy
        have hcd : c.status = .degraded := by
          by_contra hnot
          simp [RdsInstance.verdict, hnot] at hv
        simp [hst, hcd]
      · simp [hst, hne]
    · next hv =>
      cases hs
      have hst := verdict_none hv
      refine ⟨?_, nofun, hok.named⟩
      obtain ⟨i, hi, hn, hnet, hty, hi'⟩ := hok.record
      refine ⟨i, hi, hn, hnet, hty, hi'.trans ?_⟩
      rw [hu]
      rcases eq_or_ne problems [] with rfl | hne
      · simp only [if_true] at hst
        simp [hst]
      · rw [if_neg hne] at hst
        simp [hne, hdeg (hswept.resolve_left hst)]
  · cases hs

theorem Ok.step {e : SweepEvent} (hok : Ok x status h s) (hs : s.step x e = some s') :
    Ok x status ((s, e) :: h) s' := by
  cases e with
  | scan =>
    simp only [Sweeps.step] at hs
    split at hs
    · next i hplace hi =>
      split at hs
      · next hswept =>
        cases hs
        refine ⟨hok.record, ?_, hok.named⟩
        rintro c ⟨⟩
        obtain ⟨j, hj, hname, hnet, hty, hst⟩ := hok.record
        obtain rfl := Option.some.inj (hi.symm.trans hj)
        refine ⟨hname, hnet, hty, ?_, fun hd => ?_⟩
        · rw [hst]
          split
          · exact .inl rfl
          · exact .inr rfl
        · show unharmed status h = false
          rw [hst] at hd
          rcases hu : unharmed status h
          · rfl
          · rw [hu] at hd
            cases hd
      · cases hs
    · cases hs
  | next =>
    simp only [Sweeps.step] at hs
    split at hs
    · next i auto hplace =>
      cases hs
      refine hok.keep rfl rfl fun c hc => ?_
      rw [hplace]
      simp only at hc
      split at hc
      · cases hc
      · exact hc
    · cases hs
  | failover facts ping now env =>
    simp only [Sweeps.step] at hs
    split at hs
    · next i auto hplace =>
      split at hs <;> cases hs
      · exact hok.keep rfl (orchReparent_instances i.name env s.m) fun c hc => by rw [hplace]; exact hc
      · exact hok.keep rfl rfl fun c hc => by rw [hplace]; exact hc
      · exact hok.keep rfl rfl fun c hc => by rw [hplace]; exact hc
    · cases hs
  | judge problems => exact hok.judge hs
  | switchFailed e =>
    simp only [Sweeps.step] at hs
    split at hs <;> cases hs
    exact hok.alter (degradedBy e) rfl rfl (fun _ => ⟨rfl, rfl, rfl⟩) (fun _ _ _ => rfl)
      fun c hc => ⟨hc, fun _ => rfl⟩
  | switched old cand =>
    simp only [Sweeps.step] at hs
    split at hs <;> cases hs
    exact hok.alter (·.swapRoles old cand) rfl rfl (fun _ => ⟨rfl, rfl, rfl⟩) (fun _ _ hst => hst)
      fun c hc => ⟨hc, id⟩
  | lock call =>
    cases hs
    exact hok.keep rfl rfl fun _ hc => hc
  | unlock p =>
    cases hs
    exact hok.keep rfl rfl fun _ hc => hc
  | edit enabled autoFailover =>
    cases hs
    exact hok.alter (fun i => { i with enabled := enabled }) rfl rfl (fun _ => ⟨rfl, rfl, rfl⟩)
      (fun _ _ hst => hst) fun c hc => ⟨hc, id⟩

theorem Ok.run (hr : Run (Sweeps.step x) (fun _ _ _ => True) (Initial x status) h s) : Ok x status h s := by
  refine hr.invariant (I := fun h s => Ok x status h s) (fun _ h0 => .initial h0) ?_
  intro h s e s' _ hok _ hs
  exact hok.step hs

/-! ## Which sweeps submit a switch -/

/-- A sweep that is due asks for a switch when it can see the master. -/
theorem Due.gate {facts : List Fact} {now : Nat} {ping : String → Bool} (hok : Ok x status h s)
    (hd : Due x s facts now) : (∃ i auto, s.place = .looking i auto ∧
      failoverGate i auto facts ping now s.tried s.m = .attempt) ↔ s.Sees ping := by
  obtain ⟨i, mc, hplace, hen, hmc, hdead⟩ := hd.looks
  obtain ⟨hname, hnet, hty, -⟩ := hok.copy i (by rw [hplace]; rfl)
  have hfree : s.m.locks.busy i.name = false := by rw [hname]; exact hd.free
  have hdown : (facts.any fun f => f.container = mc.container && f.alive) = false := by
    rw [List.any_eq_false]
    intro f hf hc
    obtain ⟨hcont, halive⟩ := Bool.and_eq_true_iff.1 hc
    rw [hdead f hf (of_decide_eq_true hcont)] at halive
    cases halive
  have hslave : (facts.filter fun f => f.role = "slave" && f.alive) ≠ [] := by
    obtain ⟨f, hf, hrole, halive⟩ := hd.slave
    exact List.ne_nil_of_mem (List.mem_filter.2 ⟨hf, by simp [hrole, halive]⟩)
  have hrest : (s.tried.any fun t => decide (t ≤ now ∧ now - t < 60)) = false := by
    rcases ht : s.tried with _ | t
    · rfl
    · have := hd.rested t ht
      simp only [Option.any_some, decide_eq_false_iff_not]
      omega
  have hgate : failoverGate i true facts ping now s.tried s.m =
      match blindReason i mc.container s.m.hosts ping with
      | some message => .skipped message
      | none => .attempt := by
    simp only [failoverGate, hnet, hty, hmc, hen, hfree, hdown, hslave, hrest, Bool.false_eq_true,
      if_false, Bool.not_true, Bool.or_self]
  constructor
  · rintro ⟨i', auto', hp, hg⟩ j auto'' mc' hj hmc'
    obtain ⟨rfl, rfl⟩ := SweepPlace.looking.inj (hplace.symm.trans hp)
    obtain ⟨rfl, -⟩ := SweepPlace.looking.inj (hplace.symm.trans hj)
    obtain rfl := Option.some.inj (hmc.symm.trans hmc')
    rw [hgate] at hg
    split at hg
    · cases hg
    · assumption
  · intro hsees
    exact ⟨i, true, hplace, by rw [hgate, hsees i true mc hplace hmc]⟩

/-- `orch_reparent` takes a running instance, and no other. -/
theorem Ok.check (hok : Ok x status h s)
    (hen : ∀ i, s.m.instances[x]? = some i → i.enabled = true) :
    orchReparentCheck (trimmed x) none "auto" s.m = .ok () ↔ unharmed status h = true := by
  obtain ⟨i, hi, -, hnet, hty, hst⟩ := hok.record
  obtain ⟨hname, hne⟩ := hok.named
  rw [hname]
  constructor
  · intro hc
    obtain ⟨j, hj, hrun⟩ := Submission.orchReparentCheck_running hc
    obtain rfl := Option.some.inj (hi.symm.trans hj)
    rw [hst] at hrun
    split at hrun
    · assumption
    · cases hrun
  · intro hu
    rw [hu, if_pos rfl] at hst
    have hassert : s.m.assertState x .running = .ok i := by
      simp [Manager.assertState, hi, hst]
    have hxenon : ¬(s.m.instances[x]?).any (·.itype = "xenon") = true := by simp [hi, hty]
    have hpasses : reparentable x none i = .ok () := by
      unfold reparentable
      rw [if_neg (by rw [hen i hi]; decide), hnet]
      rfl
    unfold orchReparentCheck
    show (if x = "" then .error _ else
      if (s.m.instances[x]?).any (·.itype = "xenon") then .error _ else
      if "auto" ∉ ["auto", "planned"] then .error _ else
      s.m.assertState x .running >>= fun i => reparentable x none i) = .ok ()
    rw [if_neg hne, if_neg hxenon, if_neg (by decide), hassert]
    exact hpasses

/-- In a run of sweeps, one that is due submits a switch exactly when the host of the master answers
and, since the instance was running last, no sweep has found a problem and no switch has failed. -/
theorem submits_iff (hr : Run (step x) (fun _ _ _ => True) (Initial x status) h s) {facts : List Fact}
    {now : Nat} (hd : Due x s facts now) (ping : String → Bool) :
    Submits x s facts ping now ↔ s.Sees ping ∧ unharmed status h = true := by
  have hok := Ok.run hr
  rw [← hd.gate hok, ← hok.check hd.enabled]
  constructor
  · rintro ⟨i, auto, hp, hg, hc⟩
    exact ⟨⟨i, auto, hp, hg⟩, hc⟩
  · rintro ⟨⟨i, auto, hp, hg⟩, hc⟩
    exact ⟨i, auto, hp, hg, hc⟩

/-! ## A switch that fails -/

def ordersMaster : InstNode :=
  ⟨"orders-1", .master, "orders-1", 3306, 13306, 1, "cn-bj", "a", "s0", "", 0⟩

/-- An instance with a master and a slave. -/
def ordersPair : RdsInstance :=
  { Fleet.orders with
    nodes := [ordersMaster,
      ⟨"orders-2", .read, "orders-2", 3306, 13307, 2, "cn-bj", "a", "s0", "orders-1", 0⟩] }

/-- The instance alone on a manager that shares no store. -/
def alone : Sweeps where
  m :=
    { instances := (∅ : BTreeMap String RdsInstance).insert "orders" ordersPair
      persisted := ∅
      locks := ⟨∅, ∅, ∅, "node-1", 60, .store ∅⟩
      nextServerId := 3
      hosts := []
      evidence := []
      work := [] }
  autoFailover := true
  tried := none
  place := .idle

/-- What the fact layer sees while the master is down. -/
def masterDown : List Fact :=
  [⟨"orders-1", "master", false, false⟩, ⟨"orders-2", "slave", true, true⟩]

/-- What a call to `orch_reparent` meets at this time. -/
def quietEnv (now : Nat) : Surroundings where
  process := ⟨"cn-bj", "a", "s0", "mysql", "proxy", "xenon", "/"⟩
  authority := ⟨now, .failed .quorum⟩
  ports _ := 0
  seq := 1

/-- The sweep has come to it. -/
def firstLook : Sweeps := { alone with place := .looking ordersPair true }

/-- The first sweep has submitted a switch. -/
def submitted : Sweeps where
  m :=
    { alone.m with
      locks := (exec (lockInstance "orders" (quietEnv 1000).authority) alone.m.locks).2
      work := [.reparent "orders" none "auto" "reparent-orders"] }
  autoFailover := true
  tried := some 1000
  place := .acted ordersPair

theorem trimmed_orders : trimmed "orders" = "orders" := by decide +kernel

theorem alone_initial : Initial "orders" .running alone where
  place := rfl
  record := ⟨ordersPair, rfl, rfl, rfl, by decide +kernel, by decide⟩
  swept := .inl rfl
  named := ⟨trimmed_orders, by decide⟩

theorem follow_firstLook : ∃ h, follow (step "orders") (fun _ _ _ => True) [.scan, .next] [] alone =
    some (h, firstLook) ∧ unharmed .running h = true :=
  ⟨_, rfl, rfl⟩

/-- The first sweep is due, and submits. -/
theorem first_submits : ∃ h s, Run (step "orders") (fun _ _ _ => True) (Initial "orders" .running) h s ∧
    Due "orders" s masterDown 1000 ∧ Submits "orders" s masterDown (fun _ => true) 1000 := by
  obtain ⟨h, hf, hu⟩ := follow_firstLook
  have hr := (Run.start alone_initial).follow hf
  have hd : Due "orders" firstLook masterDown 1000 :=
    { looks := ⟨ordersPair, ordersMaster, rfl, rfl, rfl, by decide⟩
      slave := by decide
      enabled := fun i hi => Option.some.inj hi ▸ rfl
      free := rfl
      rested := fun t ht => nomatch ht }
  exact ⟨h, _, hr, hd, (submits_iff hr hd _).2 ⟨by rintro i auto mc ⟨⟩ ⟨⟩; rfl, hu⟩⟩

theorem step_firstLook : step "orders" firstLook
    (.failover masterDown (fun _ => true) 1000 (quietEnv 1000)) = some submitted := by
  have hgate : failoverGate ordersPair true masterDown (fun _ => true) 1000 none alone.m = .attempt := by
    decide +kernel
  have hcheck := ((Ok.initial alone_initial).check fun i hi => Option.some.inj hi ▸ rfl).2 rfl
  rw [trimmed_orders] at hcheck
  have hswitch : (exec (orchReparent "orders" none "auto" (quietEnv 1000)) alone.m).2 = submitted.m := by
    unfold orchReparent
    rw [trimmed_orders, exec_checked_ok hcheck]
    rfl
  show (match failoverGate ordersPair true masterDown (fun _ => true) 1000 none alone.m with
    | .attempt => some (Sweeps.mk (exec (orchReparent "orders" none "auto" (quietEnv 1000)) alone.m).2
        true (some 1000) (.acted ordersPair))
    | .quiet | .skipped _ => some { alone with place := .acted ordersPair }) = some submitted
  rw [hgate, hswitch]
  rfl

/-- The second sweep is due as well, and is refused by `orch_reparent`: the first one has submitted a
switch, which failed, and has degraded the instance. -/
theorem second_refused :
    ¬∀ x status h s, Run (step x) (fun _ _ _ => True) (Initial x status) h s →
      ∀ facts now, Due x s facts now → Submits x s facts (fun _ => true) now := by
  intro hall
  obtain ⟨h, hf, -⟩ := follow_firstLook
  have hr := ((Run.start alone_initial).follow hf).step trivial step_firstLook
  have hfollow : ∃ h' s, follow (step "orders") (fun _ _ _ => True)
      [.judge ["节点 orders-1 MySQL 不可达"], .switchFailed "候选 orders-2 提升失败",
        .unlock (.failed .quorum), .scan, .next]
      ((firstLook, .failover masterDown (fun _ => true) 1000 (quietEnv 1000)) :: h) submitted =
        some (h', s) ∧ Due "orders" s masterDown 1100 ∧
        ∀ i, s.m.instances["orders"]? = some i → i.status = .degraded := by
    refine ⟨_, _, rfl, ?_, fun i hi => Option.some.inj hi ▸ rfl⟩
    exact
      { looks := ⟨_, ordersMaster, rfl, rfl, rfl, by decide⟩
        slave := by decide
        enabled := fun i hi => Option.some.inj hi ▸ rfl
        free := rfl
        rested := fun t ht => by cases ht; decide }
  obtain ⟨h', s, hf, hd, hst⟩ := hfollow
  obtain ⟨-, -, -, -, hc⟩ := hall _ _ h' s (hr.follow hf) masterDown 1100 hd
  obtain ⟨i, hi, hrun⟩ := Submission.orchReparentCheck_running hc
  rw [trimmed_orders] at hi
  rw [hst i hi] at hrun
  cases hrun

end Sweeps
end Rdsctl.Inst
