import Rdsctl.Lib.Fallible
import Rdsctl.Ha.Lease

/-!
# The operation lock of an instance

`src/instance.rs`, `lock_instance` and `unlock_instance`: the map of operation locks of the process
in front of an authority, which is the lock table of the store (`src/store.rs`) or the replicated
lease of `src/ha/state.rs`. Both calls are given call by call, as other calls may come in between.

A call to the consensus proposes an op. `Proposal` is what becomes of it: committed and answered,
committed while its caller gets an error, or not committed as long as its caller waits.
-/

namespace Rdsctl.Inst

open Ha Fallible

/-! ## The lock table of the store -/

/-- A row of `instance_locks`. -/
structure LockRow where
  holder : String
  leaseUntil : Nat
deriving DecidableEq, Repr

abbrev StoreLocks : Type := BTreeMap String LockRow

namespace StoreLocks

/-- `lock_instance` of the store. -/
def lockInstance (locks : StoreLocks) (name holder : String) (leaseSecs now : Nat) :
    Bool × StoreLocks :=
  match locks[name]? with
  | none => (true, locks.insert name ⟨holder, now + leaseSecs⟩)
  | some row =>
    if row.holder = holder ∨ row.leaseUntil ≤ now then
      (true, locks.insert name ⟨holder, now + leaseSecs⟩)
    else (false, locks)

/-- `renew_instance_lock` of the store. -/
def renewInstanceLock (locks : StoreLocks) (name holder : String) (leaseSecs now : Nat) :
    Bool × StoreLocks :=
  match locks[name]? with
  | some row =>
    if row.holder = holder then (true, locks.insert name ⟨holder, now + leaseSecs⟩)
    else (false, locks)
  | none => (false, locks)

/-- `unlock_instance` of the store. -/
def unlockInstance (locks : StoreLocks) (name holder : String) : StoreLocks :=
  match locks[name]? with
  | some row => if row.holder = holder then locks.erase name else locks
  | none => locks

end StoreLocks

/-! ## Calls to the consensus -/

/-- Why a lease call fails. -/
inductive LeaseError
  | held (msg : String)
  | notLeader (leader : Option String)
  | quorum
  | skew (ms : Nat)
  | internal (msg : String)
deriving DecidableEq, Repr

def LeaseError.text : LeaseError → String
  | .held m => "实例租约被占用:" ++ m
  | .notLeader (some l) => "本节点不是 leader(leader=" ++ l ++ ")"
  | .notLeader none => "本节点不是 leader 且当前无 leader"
  | .quorum => "失去多数派,无法获取实例租约"
  | .skew ms => "实测时钟偏移 " ++ toString ms ++ "ms 持续超出上限:拒绝授予新租约(前提 A1)。" ++
      "该值已按最小延迟样本过滤并要求持续超界,因此单一网络/调度尖峰不会触发;" ++
      "持续如此请修 NTP(/readyz 的 skew_measured_ms 为过滤值,skew_latest_ms 为最新采样)"
  | .internal m => "租约操作内部错误:" ++ m

/-- The text of a refusal of the state machine. -/
def rejectText : Reject → String
  | .versionConflict key expect actual => "版本冲突:key=" ++ key ++ " expect=" ++ toString expect ++
      " actual=" ++ toString actual
  | .notFound key => "键不存在:" ++ key
  | .leaseHeld name holder => "实例 " ++ name ++ " 的租约由 " ++ holder ++ " 持有"
  | .leaseConflictNotYetSafe name safeFromMs => "实例 " ++ name ++ " 的旧租约尚未安全过期(需等到 " ++
      toString safeFromMs ++ "ms;expire + max_skew)"
  | .leaseNotHeld name holder => "实例 " ++ name ++ " 的租约不由 " ++ holder ++ " 持有"
  | .invalid m => "op 非法:" ++ m

/-- The place of an entry in the log, and the clock of the leader that proposed it. -/
structure Commit where
  term : Nat
  index : Nat
  nowMs : Nat
deriving DecidableEq, Repr

/-- What becomes of a proposal. -/
inductive Proposal
  | answered (c : Commit)
  | unanswered (c : Commit) (e : LeaseError)
  | failed (e : LeaseError)
deriving DecidableEq, Repr

/-- The entry that an op becomes. -/
def Commit.entry (c : Commit) (op : Op) : ApplyCall := ⟨c.index, c.term, op.withNow c.nowMs⟩

/-- `propose_op` -/
def propose (sm : StateMachine) (op : Op) : Proposal → Except LeaseError Applied × StateMachine
  | .answered c => (.ok (sm.outcome (c.entry op)), sm.after (c.entry op))
  | .unanswered c e => (.error e, sm.after (c.entry op))
  | .failed e => (.error e, sm)

/-- What `acquire_lease` and `renew_lease` return: the fence of the lease in the local state
machine, once the entry is applied there. -/
def leaseReply (sm : StateMachine) (name : String) :
    Except LeaseError Applied → Except LeaseError Fence
  | .ok .ok =>
    match sm.leases[name]? with
    | some l => .ok (l.fence sm.shard)
    | none => .error (.internal ("租约已提交但本副本未追平;实例 " ++ name ++ " 本次操作未开始,可安全重试"))
  | .ok (.rejected r) => .error (.held (rejectText r))
  | .ok (.stepAlreadyDone _) => .error (.internal "未知 apply 结果")
  | .error e => .error e

/-- `acquire_lease_blocking` -/
def acquireLease (sm : StateMachine) (name holder : String) (ttlMs : Nat) (p : Proposal) :
    Except LeaseError Fence × StateMachine :=
  let (out, sm') := propose sm (.leaseGrant name holder ttlMs 0) p
  (leaseReply sm' name out, sm')

/-- `renew_lease_blocking` -/
def renewLease (sm : StateMachine) (name holder : String) (p : Proposal) :
    Except LeaseError Fence × StateMachine :=
  let (out, sm') := propose sm (.leaseRenew name holder 0) p
  (leaseReply sm' name out, sm')

/-- `release_lease_blocking`; its result is only logged. -/
def releaseLease (sm : StateMachine) (name holder : String) (p : Proposal) : StateMachine :=
  (propose sm (.leaseRelease name holder) p).2

/-! ## The locks of a manager -/

/-- Who decides on the exclusion of controllers, with its present state. -/
inductive Authority
  | store (locks : StoreLocks)
  | cluster (sm : StateMachine)

/-- The fields of `RdsManager` that guard operations. -/
structure Locks where
  opLocks : BTreeMap String Unit
  fences : BTreeMap String Fence
  leaseLost : BTreeMap String String
  holder : String
  lockLease : Nat
  authority : Authority

/-- What a call to the authority meets: the clock of a controller, and what becomes of a proposal. -/
structure AuthorityCall where
  nowSecs : Nat
  proposal : Proposal
deriving DecidableEq, Repr

namespace Locks

/-- `op_locks.contains_key` -/
def busy (l : Locks) (name : String) : Bool := l.opLocks.contains name

/-- The call to the authority in `lock_instance`, with the fence that is to be stored. -/
def acquire (l : Locks) (name : String) (call : AuthorityCall) :
    Except String (Option Fence) × Locks :=
  match l.authority with
  | .store locks =>
    let (ok, locks') := locks.lockInstance name l.holder l.lockLease call.nowSecs
    (if ok then .ok none
      else .error ("实例 " ++ name ++ " 的 lease 被其它控制端持有(可能有其它控制器在操作),请稍后重试"),
      { l with authority := .store locks' })
  | .cluster sm =>
    let (reply, sm') := acquireLease sm name l.holder (l.lockLease * 1000) call.proposal
    (match reply with
      | .ok fence => .ok (some fence)
      | .error e => .error ("实例 " ++ name ++ " 操作被拒:" ++ e.text),
      { l with authority := .cluster sm' })

def insertFence (l : Locks) (name : String) (fence : Fence) : Locks :=
  { l with fences := l.fences.insert name fence }

def clearLost (l : Locks) (name : String) : Locks :=
  { l with leaseLost := l.leaseLost.erase name }

def insertLock (l : Locks) (name : String) : Locks :=
  { l with opLocks := l.opLocks.insert name () }

def removeLock (l : Locks) (name : String) : Locks :=
  { l with opLocks := l.opLocks.erase name }

/-- The call to the authority in `unlock_instance`. -/
def release (l : Locks) (name : String) (p : Proposal) : Locks :=
  match l.authority with
  | .store locks => { l with authority := .store (locks.unlockInstance name l.holder) }
  | .cluster sm => { l with authority := .cluster (releaseLease sm name l.holder p) }

def removeFence (l : Locks) (name : String) : Locks :=
  { l with fences := l.fences.erase name }

/-- The authority is the consensus. -/
def clustered (l : Locks) : Bool :=
  match l.authority with
  | .store _ => false
  | .cluster _ => true

/-- The authority has the lock of an instance down to this manager. -/
def owns (l : Locks) (name : String) : Bool :=
  match l.authority with
  | .store locks => (locks[name]?).any fun row => row.holder = l.holder
  | .cluster sm => (sm.leases[name]?).any fun lease => lease.holder = l.holder

end Locks

/-- `lock_instance` -/
def lockInstance (name : String) (call : AuthorityCall) : Fallible String Locks Unit := do
  let l ← get
  if l.busy name then throw ("实例 " ++ name ++ " 有其他操作进行中,请等待完成")
  let (reply, l) := l.acquire name call
  update fun _ => l
  match reply with
  | .error e => throw e
  | .ok fence =>
    match fence with
    | some fence => update fun l => l.insertFence name fence
    | none => pure ()
    update fun l => l.clearLost name
    update fun l => l.insertLock name

/-- `unlock_instance` -/
def unlockInstance (name : String) (p : Proposal) (l : Locks) : Locks :=
  let l := (l.removeLock name).release name p
  if l.clustered then l.removeFence name else l

end Rdsctl.Inst
