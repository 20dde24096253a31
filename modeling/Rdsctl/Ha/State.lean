import Rdsctl.Ha.Basic

/-!
# The replicated state machine

`src/ha/state.rs`: the versioned key-value store, the instance leases, the step ledger and the
audit tail, with `StateMachine.apply`. All times come from the payload of an op; `apply` reads no
clock.
-/

namespace Rdsctl.Ha

/-- Why the state machine refuses an op. -/
inductive Reject
  | versionConflict (key : String) (expect actual : Nat)
  | notFound (key : String)
  | leaseHeld (inst holder : String)
  | leaseConflictNotYetSafe (inst : String) (safeFromMs : Nat)
  | leaseNotHeld (inst holder : String)
  | invalid (msg : String)
deriving DecidableEq, Repr

/-- The outcome of applying an op. -/
inductive Applied
  | ok
  | rejected (r : Reject)
  | stepAlreadyDone (result : Option Value)
deriving Repr

structure KvEntry where
  value : Value
  ver : Nat
  updatedIndex : Nat
deriving Repr

structure Lease where
  inst : String
  holder : String
  grantedTerm : Nat
  grantedIndex : Nat
  expireAtMs : Nat
  ttlMs : Nat
  renewals : Nat
deriving DecidableEq, Repr

def Lease.fence (l : Lease) (shard : Nat) : Fence := ⟨shard, l.grantedTerm, l.grantedIndex⟩

inductive StepState
  | started
  | done
deriving DecidableEq, Repr

structure StepRecord where
  state : StepState
  attempts : UInt32
  result : Option Value
  startedIndex : Nat
  doneIndex : Option Nat
deriving Repr

structure AuditRow where
  seq : Nat
  index : Nat
  who : String
  inst : String
  action : String
  params : String
  result : String
  taskId : String
deriving DecidableEq, Repr

/-- The ops of the log. -/
inductive Op
  | noop
  | put (key : String) (value : Value) (expectVer : Option Nat)
  | delete (key : String) (expectVer : Option Nat)
  | configSet (configEpoch maxSkewMs : Nat)
  | leaseGrant (inst holder : String) (ttlMs atMs : Nat)
  | leaseRenew (inst holder : String) (atMs : Nat)
  | leaseRelease (inst holder : String)
  | leasePurge (cutoffMs : Nat)
  | stepBegin (taskId node : String) (step : UInt32) (idemKey : String)
  | stepDone (taskId node : String) (step : UInt32) (idemKey : String) (result : Value)
  | auditAppend (who inst action params result taskId : String)
deriving Repr

/-- Fill in the time of a lease op that carries none. -/
def Op.withNow (nowMs : Nat) : Op → Op
  | .leaseGrant i h ttl 0 => .leaseGrant i h ttl nowMs
  | .leaseRenew i h 0 => .leaseRenew i h nowMs
  | op => op

/-- `s.replace('|', "||")`. -/
def escBar (s : String) : String :=
  String.ofList (s.toList.flatMap fun c => if c = '|' then ['|', '|'] else [c])

/-- The ledger key of a step. -/
def stepKey (taskId node : String) (step : UInt32) (idemKey : String) : String :=
  escBar taskId ++ "|" ++ escBar node ++ "|" ++ toString step.toNat ++ "|" ++ escBar idemKey

/-- The image of a state machine, for snapshots. -/
structure StateImage where
  shard : Nat
  configEpoch : Nat
  maxSkewMs : Nat
  appliedIndex : Nat
  appliedTerm : Nat
  auditSeq : Nat
  kv : BTreeMap String KvEntry
  leases : BTreeMap String Lease
  steps : BTreeMap String StepRecord
  auditTail : List AuditRow

/-- What the kernel asks of `serde_json` on ops and images: the text of an op, the op that the
bytes of a payload spell, and the text of an image. -/
class SerdeJson where
  opToString : Op → String
  opFromSlice : List UInt8 → Except String Op
  imageToString : StateImage → String

/-- The characters of the JSON text of an image. -/
def stateText [SerdeJson] : JsonText StateImage → String
  | .ofValue img => SerdeJson.imageToString img
  | .malformed raw => raw

structure StateMachine where
  shard : Nat
  configEpoch : Nat
  maxSkewMs : Nat
  appliedIndex : Nat
  appliedTerm : Nat
  auditSeq : Nat
  kv : BTreeMap String KvEntry
  leases : BTreeMap String Lease
  steps : BTreeMap String StepRecord
  auditTail : List AuditRow
  auditTailCap : Nat

namespace StateMachine

def new (shard maxSkewMs : Nat) : StateMachine where
  shard := shard
  configEpoch := 0
  maxSkewMs := maxSkewMs
  appliedIndex := 0
  appliedTerm := 0
  auditSeq := 0
  kv := ∅
  leases := ∅
  steps := ∅
  auditTail := []
  auditTailCap := 2000

/-- `apply` of `Op::Put`. -/
def applyPut (sm : StateMachine) (index : Nat) (key : String) (value : Value)
    (expectVer : Option Nat) : Applied × StateMachine :=
  let write : Applied × StateMachine :=
    let ver := match sm.kv[key]? with
      | some e => e.ver + 1
      | none => 1
    (.ok, { sm with kv := sm.kv.insert key ⟨value, ver, index⟩ })
  if trimIsEmpty key then (.rejected (.invalid "key 为空"), sm)
  else match sm.kv[key]?, expectVer with
    | none, some 0 => write
    | none, none => write
    -- `tap_expect` writes the expected version into the key of the report
    | none, some expect =>
      (.rejected (.notFound (key ++ "(期望版本 " ++ toString expect ++ ")")), sm)
    | some cur, some expect =>
      if cur.ver ≠ expect then (.rejected (.versionConflict key expect cur.ver), sm) else write
    | some _, none => write

/-- `apply` of `Op::Delete`. -/
def applyDelete (sm : StateMachine) (key : String) (expectVer : Option Nat) :
    Applied × StateMachine :=
  match sm.kv[key]?, expectVer with
  | none, _ => (.rejected (.notFound key), sm)
  | some cur, some expect =>
    if cur.ver ≠ expect then (.rejected (.versionConflict key expect cur.ver), sm)
    else (.ok, { sm with kv := sm.kv.erase key })
  | some _, none => (.ok, { sm with kv := sm.kv.erase key })

/-- `apply` of `Op::ConfigSet`. -/
def applyConfigSet (sm : StateMachine) (configEpoch maxSkewMs : Nat) : Applied × StateMachine :=
  if configEpoch ≤ sm.configEpoch then
    (.rejected (.invalid ("config_epoch 必须递增:当前 " ++ toString sm.configEpoch ++ ",收到 " ++
      toString configEpoch)), sm)
  else if maxSkewMs = 0 then (.rejected (.invalid "max_skew_ms 不能为 0"), sm)
  else (.ok, { sm with configEpoch := configEpoch, maxSkewMs := maxSkewMs })

/-- `apply` of `Op::LeaseGrant`. -/
def applyLeaseGrant (sm : StateMachine) (term index : Nat) (inst holder : String)
    (ttlMs atMs : Nat) : Applied × StateMachine :=
  let lease : Lease :=
    { inst, holder, grantedTerm := term, grantedIndex := index,
      expireAtMs := satAdd atMs ttlMs, ttlMs, renewals := 0 }
  let grant : Applied × StateMachine := (.ok, { sm with leases := sm.leases.insert inst lease })
  if trimIsEmpty inst || trimIsEmpty holder then
    (.rejected (.invalid "instance/holder 为空"), sm)
  else if ttlMs = 0 then (.rejected (.invalid "ttl_ms 不能为 0"), sm)
  else if ttlMs < satMul sm.maxSkewMs 10 then
    (.rejected (.invalid ("ttl_ms=" ++ toString ttlMs ++ " 违反前提 A1:必须 ≥ 10×max_skew(=" ++
      toString (satMul sm.maxSkewMs 10) ++ ")")), sm)
  else match sm.leases[inst]? with
    | some old =>
      if old.holder ≠ holder ∧ atMs < satAdd old.expireAtMs sm.maxSkewMs then
        (.rejected (.leaseConflictNotYetSafe inst (satAdd old.expireAtMs sm.maxSkewMs)), sm)
      else grant
    | none => grant

/-- `apply` of `Op::LeaseRenew`. -/
def applyLeaseRenew (sm : StateMachine) (term index : Nat) (inst holder : String)
    (atMs : Nat) : Applied × StateMachine :=
  match sm.leases[inst]? with
  | none => (.rejected (.leaseNotHeld inst holder), sm)
  | some cur =>
    if cur.holder ≠ holder then (.rejected (.leaseNotHeld inst holder), sm)
    else
      let lease : Lease :=
        { cur with expireAtMs := satAdd atMs cur.ttlMs, renewals := cur.renewals + 1,
                   grantedTerm := term, grantedIndex := index }
      (.ok, { sm with leases := sm.leases.insert inst lease })

/-- `apply` of `Op::LeaseRelease`. -/
def applyLeaseRelease (sm : StateMachine) (inst holder : String) : Applied × StateMachine :=
  match sm.leases[inst]? with
  | none => (.rejected (.leaseNotHeld inst holder), sm)
  | some cur =>
    if cur.holder ≠ holder then (.rejected (.leaseNotHeld inst holder), sm)
    else (.ok, { sm with leases := sm.leases.erase inst })

/-- `apply` of `Op::StepBegin`. -/
def applyStepBegin (sm : StateMachine) (index : Nat) (k : String) : Applied × StateMachine :=
  match sm.steps[k]? with
  | some r =>
    if r.state = .done then (.stepAlreadyDone r.result, sm)
    else (.ok, { sm with steps := sm.steps.insert k { r with attempts := r.attempts + 1 } })
  | none => (.ok, { sm with steps := sm.steps.insert k ⟨.started, 1, none, index, none⟩ })

/-- `apply` of `Op::StepDone`. -/
def applyStepDone (sm : StateMachine) (index : Nat) (k : String) (result : Value) :
    Applied × StateMachine :=
  match sm.steps[k]? with
  | some r =>
    if r.state = .done then (.stepAlreadyDone r.result, sm)
    else
      let r := { r with state := .done, result := some result, doneIndex := some index }
      (.ok, { sm with steps := sm.steps.insert k r })
  | none =>
    (.ok, { sm with steps := sm.steps.insert k ⟨.done, 0, some result, index, some index⟩ })

/-- `apply` of `Op::AuditAppend`. The tail keeps the newest `audit_tail_cap` rows. -/
def applyAuditAppend (sm : StateMachine) (index : Nat)
    (who inst action params result taskId : String) : Applied × StateMachine :=
  let seq := sm.auditSeq + 1
  let tail := sm.auditTail ++ [⟨seq, index, who, inst, action, params, result, taskId⟩]
  (.ok, { sm with auditSeq := seq, auditTail := tail.drop (tail.length - sm.auditTailCap) })

def applyInner (sm : StateMachine) (term index : Nat) : Op → Applied × StateMachine
  | .noop => (.ok, sm)
  | .put key value expectVer => sm.applyPut index key value expectVer
  | .delete key expectVer => sm.applyDelete key expectVer
  | .configSet configEpoch maxSkewMs => sm.applyConfigSet configEpoch maxSkewMs
  | .leaseGrant i h ttlMs atMs => sm.applyLeaseGrant term index i h ttlMs atMs
  | .leaseRenew i h atMs => sm.applyLeaseRenew term index i h atMs
  | .leaseRelease i h => sm.applyLeaseRelease i h
  | .leasePurge cutoffMs =>
    (.ok, { sm with leases := sm.leases.filter fun _ l => decide (cutoffMs < l.expireAtMs) })
  | .stepBegin taskId node step idemKey =>
    sm.applyStepBegin index (stepKey taskId node step idemKey)
  | .stepDone taskId node step idemKey result =>
    sm.applyStepDone index (stepKey taskId node step idemKey) result
  | .auditAppend who i action params result taskId =>
    sm.applyAuditAppend index who i action params result taskId

/-- Apply a committed op at its place in the log. -/
def apply (sm : StateMachine) (term index : Nat) (op : Op) : Applied × StateMachine :=
  let (out, sm') := sm.applyInner term index op
  (out, { sm' with appliedIndex := index, appliedTerm := term })

def toImage (sm : StateMachine) : StateImage where
  shard := sm.shard
  configEpoch := sm.configEpoch
  maxSkewMs := sm.maxSkewMs
  appliedIndex := sm.appliedIndex
  appliedTerm := sm.appliedTerm
  auditSeq := sm.auditSeq
  kv := sm.kv
  leases := sm.leases
  steps := sm.steps
  auditTail := sm.auditTail

def fromImage (img : StateImage) : StateMachine where
  shard := img.shard
  configEpoch := img.configEpoch
  maxSkewMs := img.maxSkewMs
  appliedIndex := img.appliedIndex
  appliedTerm := img.appliedTerm
  auditSeq := img.auditSeq
  kv := img.kv
  leases := img.leases
  steps := img.steps
  auditTail := img.auditTail
  auditTailCap := 2000

def toJson (sm : StateMachine) : JsonText StateImage := JsonText.toString sm.toImage

def fromJson (s : JsonText StateImage) : Except String StateMachine :=
  match s.fromStr with
  | .ok img => .ok (fromImage img)
  | .error e => .error e

/-- An image restores everything but the cap of the audit tail, which is a constant. -/
theorem fromJson_toJson (sm : StateMachine) :
    fromJson sm.toJson = .ok { sm with auditTailCap := 2000 } := rfl

/-- `apply` never moves the cap of the audit tail. -/
theorem apply_auditTailCap (sm : StateMachine) (term index : Nat) (op : Op) :
    (sm.apply term index op).2.auditTailCap = sm.auditTailCap := by
  show (sm.applyInner term index op).2.auditTailCap = _
  cases op <;> simp only [applyInner, applyPut, applyDelete, applyConfigSet, applyLeaseGrant,
    applyLeaseRenew, applyLeaseRelease, applyStepBegin, applyStepDone, applyAuditAppend]
  all_goals (repeat' split) <;> rfl

end StateMachine

/-! ## The texts of a few values -/

namespace SerdeJson

/-- The text `serde_json` writes for a `Noop`, and for a `Delete` of any version of a key that needs
no escapes. -/
def sampleOp : Op → String
  | .delete key none =>
    "\x7b\"op\":\"delete\",\"key\":\"" ++ key ++ "\",\"expect_ver\":null\x7d"
  | _ => "\x7b\"op\":\"noop\"\x7d"

/-- The op of such a text. -/
def sampleParse (b : List UInt8) : Except String Op :=
  let before := asBytes "\x7b\"op\":\"delete\",\"key\":\""
  let after := asBytes "\",\"expect_ver\":null\x7d"
  if b = asBytes (sampleOp .noop) then .ok .noop
  else if before <+: b ∧ after <:+ b then
    .ok (.delete (fromUtf8Lossy ((b.drop before.length).take
      (b.length - before.length - after.length))) none)
  else .error "unknown variant"

/-- The text of an image whose tables are empty. -/
def sampleImage (img : StateImage) : String :=
  "\x7b\"shard\":" ++ toString img.shard ++ ",\"config_epoch\":" ++ toString img.configEpoch ++
    ",\"max_skew_ms\":" ++ toString img.maxSkewMs ++ ",\"applied_index\":" ++
    toString img.appliedIndex ++ ",\"applied_term\":" ++ toString img.appliedTerm ++
    ",\"audit_seq\":" ++ toString img.auditSeq ++
    ",\"kv\":\x7b\x7d,\"leases\":\x7b\x7d,\"steps\":\x7b\x7d,\"audit_tail\":[]\x7d"

/-- `serde_json` on these values. -/
@[reducible] def sample : SerdeJson := ⟨sampleOp, sampleParse, sampleImage⟩

end SerdeJson

end Rdsctl.Ha
