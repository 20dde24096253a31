import Rdsctl.Dag.Live
import Rdsctl.Lib.Run
import Rdsctl.Inst.Lock

/-!
# Operations and their watchers

A manager in cluster mode with any number of operations, on any instances, each with its
`lock_instance`, the task it submits, and the watcher that renews the lease and unlocks the instance
(`watch_task`, `watch_backup_task`, `watch_dts_lifecycle` of `src/instance.rs`). Everything is given
call by call and move by move, as all of it runs at the same time. `run_reparent` has a lock but
neither task nor watcher; a task that is resumed, or started by hand, has neither lock nor watcher.
-/

namespace Rdsctl.Inst

open Ha Dag

/-- Which loop watches the task of an operation. -/
inductive Follower
  | task
  | backup
  | dts
deriving DecidableEq, Repr

/-- Where the loop stands: at the status of the task, at the renewal of the lease, at what comes of
it, at `lease_lost`, or in `unlock_instance`. -/
inductive Watch
  | polls
  | renews
  | notes (reply : Except LeaseError Fence) (nowMs : Nat)
  | looks
  | unlocks

/-- The loop is over. -/
def Watch.over : Watch → Bool
  | .unlocks => true
  | _ => false

/-- How far the lock of an operation is. -/
inductive Stage
  | checked
  | acquired (fence : Fence)
  | fenced
  | cleared
  | holds
  | refused
  | unlocking
  | released
  | ended
  /-- a task without a lock -/
  | adopted
deriving DecidableEq

/-- An operation. `run_reparent` has no follower. -/
structure Operation (Step : Type) where
  inst : String
  stage : Stage
  follower : Option Follower
  task : Option (Live Step)
  watch : Watch
  /-- `lease_lost` was recorded for the instance while there was this task -/
  lost : Bool

/-- A side effect on an execution back end, with the fence that `call_meta` gives for it. -/
structure Act where
  inst : String
  /-- its step began after the loss of the lease was recorded -/
  late : Bool
  /-- its task has no lock -/
  adopted : Bool
  fence : Option Fence
deriving DecidableEq

/-- A manager with its operations. -/
structure Controller (Step : Type) where
  locks : Locks
  /-- `lease_fail_since` -/
  failSince : BTreeMap String Nat
  ops : List (Operation Step)
  /-- the expired leases that `reap_own_expired_leases` is at, and whether they were released -/
  reaping : List (String × Bool)
  acts : List Act

/-- A call or a move. -/
inductive ControlEvent (Step : Type)
  /-- `lock_instance` looks at the map -/
  | lock (name : String) (follower : Option Follower)
  | acquire (o : Nat) (call : AuthorityCall)
  | insertFence (o : Nat)
  | clearLost (o : Nat)
  | insertLock (o : Nat)
  | submit (o : Nat) (nodes : List (TaskNode Step))
  /-- a task is resumed, or a draft or a node is started by hand -/
  | adopt (name : String) (nodes : List (TaskNode Step))
  /-- the next step of a node of the wave begins -/
  | begin (o k : Nat)
  /-- the step in flight reaches a back end -/
  | act (o k : Nat)
  | move (o : Nat) (m : Move)
  | poll (o : Nat)
  | renew (o : Nat) (p : Proposal) (nowMs : Nat)
  | note (o : Nat)
  | look (o : Nat)
  /-- `unlock_instance` removes from the map -/
  | removeLock (o : Nat)
  | release (o : Nat) (p : Proposal)
  | removeFence (o : Nat)
  /-- `reap_own_expired_leases` finds a lease -/
  | reapCheck (name : String) (nowMs : Nat)
  | reapRelease (k : Nat) (p : Proposal)
  | reapEnd (k : Nat)
  /-- another entry of the log -/
  | entry (a : ApplyCall)

/-- The state machine says that the lease is not here. -/
def LeaseError.fatal : LeaseError → Bool
  | .held _ | .skew _ => true
  | _ => false

/-- The replicated state machine, in cluster mode. -/
def Locks.machine (l : Locks) : Option StateMachine :=
  match l.authority with
  | .store _ => none
  | .cluster sm => some sm

/-- The call in `renew_instance_lease`. -/
def Locks.renew (l : Locks) (name : String) (p : Proposal) :
    Option (Except LeaseError Fence × Locks) :=
  l.machine.map fun sm =>
    let (reply, sm') := renewLease sm name l.holder p
    (reply, { l with authority := .cluster sm' })

def Locks.insertLost (l : Locks) (name reason : String) : Locks :=
  { l with leaseLost := l.leaseLost.insert name reason }

/-- `fence_of`, which `call_meta` sends, or nothing. -/
def Locks.fenceOf (l : Locks) (name : String) : Option Fence := l.fences[name]?

variable {Step : Type}

namespace Operation

/-- The lock is on its way. -/
def entering (op : Operation Step) : Bool :=
  match op.stage with
  | .checked | .acquired _ | .fenced | .cleared | .refused => true
  | _ => false

/-- The lock is taken, and the task that it is taken for is not yet submitted. -/
def unsubmitted (op : Operation Step) : Bool :=
  op.follower.isSome && op.task.isNone

/-- No step of the kind begins any more, and none will. -/
def calm (kind : Step → Bool) (op : Operation Step) : Bool :=
  op.task.all (fun t => !t.mayBegin kind) &&
    !(op.unsubmitted && (op.stage = .cleared || op.stage = .holds))

/-- Nor is one in flight. -/
def still (kind : Step → Bool) (op : Operation Step) : Bool :=
  op.task.all (fun t => !t.mayBegin kind && !t.inside kind) &&
    !(op.unsubmitted && (op.stage = .fenced || op.stage = .cleared || op.stage = .holds))

end Operation

namespace Controller

/-- Replace an operation. -/
def set (c : Controller Step) (o : Nat) (op : Operation Step) (l : Locks) : Controller Step :=
  { c with locks := l, ops := c.ops.set o op }

/-- What a renewal makes the manager record: the loss of the lease at once when the state machine
says so, otherwise when renewals have failed for longer than the lease lasts. -/
def loss (c : Controller Step) (name : String) (nowMs : Nat) :
    Except LeaseError Fence → Option String
  | .ok _ => none
  | .error e =>
    if e.fatal then some e.text
    else
      let heldMs := nowMs - (c.failSince[name]?).getD nowMs
      if heldMs > c.locks.lockLease * 1000 then
        some ("共识租约已连续续约失败 " ++ toString heldMs ++ "ms(> TTL " ++
          toString c.locks.lockLease ++ "s):按过期处理:" ++ e.text)
      else none

/-- Every task on the instance has lost its lease. -/
def lose (name : String) (op : Operation Step) : Operation Step :=
  if op.inst = name ∧ op.task.isSome then { op with lost := true } else op

/-- `renew_instance_lease` records what came of the call. -/
def record (c : Controller Step) (name : String) (nowMs : Nat)
    (reply : Except LeaseError Fence) : Controller Step :=
  match c.loss name nowMs reply, reply with
  | some reason, .error e =>
    { c with
      locks := c.locks.insertLost name reason
      failSince := if e.fatal then c.failSince
        else c.failSince.insert name ((c.failSince[name]?).getD nowMs)
      ops := c.ops.map (lose name) }
  | _, .ok fence =>
    { c with locks := c.locks.insertFence name fence, failSince := c.failSince.erase name }
  | none, .error _ =>
    { c with failSince := c.failSince.insert name ((c.failSince[name]?).getD nowMs) }

/-- Change the loop of a watcher. -/
def watches (c : Controller Step) (o : Nat) (op : Operation Step) (w : Watch) : Controller Step :=
  c.set o { op with watch := w } c.locks

/-- Change the stage of a lock. -/
def moves (c : Controller Step) (o : Nat) (op : Operation Step) (st : Stage) (l : Locks) :
    Controller Step :=
  c.set o { op with stage := st } l

/-- One call or move. `kind` are the steps that act on a back end. -/
def step (kind : Step → Bool) (c : Controller Step) : ControlEvent Step → Option (Controller Step)
  | .lock name follower =>
    some { c with ops := c.ops ++
      [⟨name, if c.locks.busy name then .refused else .checked, follower, none, .polls, false⟩] }
  | .acquire o call =>
    (c.ops[o]?).bind fun op =>
      if op.stage = .checked then
        match c.locks.acquire op.inst call with
        | (.ok (some fence), l) => some (c.moves o op (.acquired fence) l)
        | (.ok none, l) => some (c.moves o op .fenced l)
        | (.error _, l) => some (c.moves o op .refused l)
      else none
  | .insertFence o =>
    (c.ops[o]?).bind fun op =>
      match op.stage with
      | .acquired fence => some (c.moves o op .fenced (c.locks.insertFence op.inst fence))
      | _ => none
  | .clearLost o =>
    (c.ops[o]?).bind fun op =>
      if op.stage = .fenced then some (c.moves o op .cleared (c.locks.clearLost op.inst)) else none
  | .insertLock o =>
    (c.ops[o]?).bind fun op =>
      if op.stage = .cleared then some (c.moves o op .holds (c.locks.insertLock op.inst)) else none
  | .submit o nodes =>
    (c.ops[o]?).bind fun op =>
      if op.stage = .holds ∧ op.unsubmitted = true then
        some (c.set o { op with task := some (.submitted nodes) } c.locks)
      else none
  | .adopt name nodes =>
    some { c with ops := c.ops ++
      [⟨name, .adopted, none, some (.submitted nodes), .polls, false⟩] }
  | .begin o k =>
    (c.ops[o]?).bind fun op =>
      op.task.bind fun t =>
        (t.begin k (op.lost || c.locks.leaseLost.contains op.inst)).map fun t =>
          c.set o { op with task := some t } c.locks
  | .act o k =>
    (c.ops[o]?).bind fun op =>
      (op.task.bind fun t => (t.wave[k]?).bind Spawned.inFlight).bind fun f =>
        if kind f.1 then
          some { c with acts := c.acts ++
            [⟨op.inst, f.2, op.stage = .adopted, c.locks.fenceOf op.inst⟩] }
        else none
  | .move o m =>
    (c.ops[o]?).bind fun op =>
      op.task.bind fun t => (t.move m).map fun t => c.set o { op with task := some t } c.locks
  | .poll o =>
    (c.ops[o]?).bind fun op =>
      match op.watch with
      | .polls =>
        if op.stage = .holds then
          op.task.map fun t => c.watches o op (if t.status.terminal then .unlocks else .renews)
        else none
      | _ => none
  | .renew o p nowMs =>
    (c.ops[o]?).bind fun op =>
      match op.watch with
      | .renews => (c.locks.renew op.inst p).map fun r =>
          c.set o { op with watch := .notes r.1 nowMs } r.2
      | _ => none
  | .note o =>
    (c.ops[o]?).bind fun op =>
      match op.watch with
      | .notes reply nowMs => some ((c.watches o op .looks).record op.inst nowMs reply)
      | _ => none
  | .look o =>
    (c.ops[o]?).bind fun op =>
      match op.watch with
      | .looks =>
        -- only `watch_task` asks for the loss
        some (c.watches o op
          (if op.follower = some .task ∧ c.locks.leaseLost.contains op.inst = true then .unlocks
            else .polls))
      | _ => none
  | .removeLock o =>
    (c.ops[o]?).bind fun op =>
      if op.stage = .holds ∧ (op.follower = none ∨ op.watch.over = true) then
        some (c.moves o op .unlocking (c.locks.removeLock op.inst))
      else none
  | .release o p =>
    (c.ops[o]?).bind fun op =>
      if op.stage = .unlocking then some (c.moves o op .released (c.locks.release op.inst p))
      else none
  | .removeFence o =>
    (c.ops[o]?).bind fun op =>
      if op.stage = .released then some (c.moves o op .ended (c.locks.removeFence op.inst)) else none
  | .reapCheck name nowMs =>
    c.locks.machine.bind fun sm =>
      if c.locks.busy name = false ∧
          (sm.leases[name]?).any (fun l => l.holder = c.locks.holder ∧ l.expireAtMs ≤ nowMs) then
        some { c with reaping := c.reaping ++ [(name, false)] }
      else none
  | .reapRelease k p =>
    (c.reaping[k]?).bind fun r =>
      if r.2 then none
      else c.locks.machine.map fun sm =>
        let (out, sm') := propose sm (.leaseRelease r.1 c.locks.holder) p
        { c with
          locks := { c.locks with authority := .cluster sm' }
          reaping := match out with
            | .ok .ok => c.reaping.set k (r.1, true)
            | _ => c.reaping.eraseIdx k }
  | .reapEnd k =>
    (c.reaping[k]?).bind fun r =>
      if r.2 then
        some { c with locks := c.locks.removeFence r.1, reaping := c.reaping.eraseIdx k }
      else none
  | .entry a =>
    c.locks.machine.map fun sm =>
      { c with locks := { c.locks with authority := .cluster (sm.after a) } }

/-- A manager of a cluster that was just started. -/
def Initial (c : Controller Step) : Prop :=
  c.locks.clustered = true ∧ c.locks.fences = ∅ ∧ c.locks.leaseLost = ∅ ∧ c.ops = [] ∧
    c.reaping = [] ∧ c.acts = []

/-- Every operation on the instance that has a lock is still. -/
def quietOn (kind : Step → Bool) (c : Controller Step) (name : String) : Bool :=
  c.ops.all fun op => op.inst ≠ name || op.stage = .adopted || op.still kind

/-- The instance whose lease this watcher is about to record as lost. -/
def losing (c : Controller Step) (o : Nat) : Option String :=
  (c.ops[o]?).bind fun op =>
    match op.watch with
    | .notes reply nowMs => (c.loss op.inst nowMs reply).map fun _ => op.inst
    | _ => none

/-- The loss of a lease is recorded when nothing is left to begin on the instance, no task without a
lock is begun while it is, and a fence is removed when nothing is in flight there either. -/
def inTime (kind : Step → Bool) (c : Controller Step) : ControlEvent Step → Bool
  | .note o => (c.losing o).all fun name => c.ops.all fun op => op.inst ≠ name || op.calm kind
  | .adopt name nodes =>
    !c.locks.leaseLost.contains name || !(Live.submitted nodes).mayBegin kind
  | .removeFence o => (c.ops[o]?).all fun op => c.quietOn kind op.inst
  | .reapEnd k => (c.reaping[k]?).all fun r => c.quietOn kind r.1
  | _ => true

/-- No act belongs to a step that began after the loss was recorded, and none of a task whose
operation has locked the instance goes without a fence. -/
def Heeds (c : Controller Step) : Prop :=
  ∀ a ∈ c.acts, a.late = false ∧ (a.adopted = false → a.fence ≠ none)

end Controller

end Rdsctl.Inst
