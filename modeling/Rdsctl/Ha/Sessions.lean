import Rdsctl.Ha.Auth
import Rdsctl.Ha.Raft

/-!
# What a replica answers about a session

`auth_barrier` and `auth_session_lookup` of `src/ha/runtime.rs`. The barrier compares what a replica
has applied with the commit index it knows. `Node::open` sets both back to the snapshot, and with
them the records, so a replica that has just opened passes the barrier (`openNode_barrier`) and may
answer from a state in which a session it has seen revoked is still there. The replicas here apply
one committed log; each applies, saves, installs and restarts in its own time.
-/

namespace Rdsctl.Ha

open Fallible

/-! ## The answer -/

def sessionKey (tokenHash : String) : String := "s/" ++ tokenHash

/-- `str::strip_prefix`. -/
def stripPrefix (start s : String) : Option String :=
  if start.toList <+: s.toList then some (String.ofList (s.toList.drop start.toList.length))
  else none

def entryPerms (e : Value) : List String := ((e.get "perms").bind Value.strings).getD []

def PERMISSIONS : List String :=
  ["instances.view", "instances.create", "instances.destroy", "instances.scaleout",
    "instances.manage", "instances.query", "instances.query.write", "tasks.view", "tasks.cancel",
    "tasks.manage", "audit.view", "alerts.view", "alerts.handle", "users.manage", "roles.manage",
    "cluster.view", "cluster.manage"]

def expandPerms (roles : List String) (rolePerms : List (String × List String))
    (all : List String) : List String :=
  if "super" ∈ roles then sortDedup all
  else sortDedup (roles.flatMap fun r => (rolePerms.lookup r).getD [])

def rolePermsMap (sm : StateMachine) : List (String × List String) :=
  sm.kv.toList.filterMap fun (k, e) => (stripPrefix "r/" k).map fun role => (role, entryPerms e.value)

def permsOf (sm : StateMachine) (user : Value) : List String :=
  expandPerms (entryRoles user) (rolePermsMap sm) PERMISSIONS

def authBarrierOk (applied commit : Nat) : Bool := decide (commit ≤ applied)

def authSessionLookup (sm : StateMachine) (tokenHash : String) (nowMs : Nat) :
    Option (String × List String) := do
  let sess ← sm.kv[sessionKey tokenHash]?
  let userName ← entryUser sess.value
  let user ← sm.kv[userKey userName]?
  if sessionUsable sess.value userName user.value nowMs then
    some (userName, permsOf sm user.value)
  else none

/-! ## Revocations -/

abbrev Records : Type := BTreeMap String KvEntry

/-- No session of the token is there, or it is of an older epoch than its user. -/
def Revoked (kv : Records) (tokenHash : String) : Prop :=
  ∀ s ∈ kv[sessionKey tokenHash]?, ∀ name ∈ entryUser s.value,
    ∃ u ∈ kv[userKey name]?, entryEpoch s.value < entryEpoch u.value

/-- What takes the records `kv` to `kv'` deletes the session of the token, or raises the epoch of
its user over the session's. -/
def Revokes (kv kv' : Records) (tokenHash : String) : Prop :=
  ∃ s ∈ kv[sessionKey tokenHash]?, kv'[sessionKey tokenHash]? = none ∨
    ∃ name ∈ entryUser s.value, ∃ u ∈ kv[userKey name]?, ∃ u' ∈ kv'[userKey name]?,
      entryEpoch u.value < entryEpoch u'.value ∧ entryEpoch s.value < entryEpoch u'.value

theorem Revoked.lookup {sm : StateMachine} {tok : String} (h : Revoked sm.kv tok) (nowMs : Nat) :
    authSessionLookup sm tok nowMs = none := by
  rcases hs : sm.kv[sessionKey tok]? with _ | s
  · simp [authSessionLookup, hs]
  rcases hn : entryUser s.value with _ | name
  · simp [authSessionLookup, hs, hn]
  obtain ⟨u, hu, hlt⟩ := h s hs name hn
  have hu : sm.kv[userKey name]? = some u := hu
  have hne : sessionUsable s.value name u.value nowMs = false :=
    sessionUsable_of_ne (Nat.ne_of_lt hlt) name nowMs
  simp [authSessionLookup, hs, hn, hu, hne]

/-- What an entry makes of the records depends on the records only. -/
theorem after_kv_congr {sm sm' : StateMachine} (h : sm.kv = sm'.kv) (a : ApplyCall) :
    (sm.after a).kv = (sm'.after a).kv := by
  show (sm.applyInner a.term a.index a.op).2.kv = (sm'.applyInner a.term a.index a.op).2.kv
  cases a.op with
  | put key value expectVer =>
    simp only [StateMachine.applyInner, StateMachine.applyPut, h]
    repeat' split
    all_goals first
      | rfl
      | exact h
  | delete key expectVer =>
    simp only [StateMachine.applyInner, StateMachine.applyDelete, h]
    repeat' split
    all_goals first
      | rfl
      | exact h
  | _ =>
    simp only [StateMachine.applyInner, StateMachine.applyConfigSet, StateMachine.applyLeaseGrant,
      StateMachine.applyLeaseRenew, StateMachine.applyLeaseRelease, StateMachine.applyStepBegin,
      StateMachine.applyStepDone, StateMachine.applyAuditAppend]
    repeat' split
    all_goals exact h

theorem sessionKey_ne_userKey (tok name : String) : sessionKey tok ≠ userKey name := by
  intro h
  have hl := congrArg String.toList h
  simp [sessionKey, userKey] at hl

/-- An entry that revokes leaves the token revoked. -/
theorem Revokes.revoked {sm : StateMachine} {a : ApplyCall} {tok : String}
    (h : Revokes sm.kv (sm.after a).kv tok) : Revoked (sm.after a).kv tok := by
  intro s' hs' name hname
  obtain ⟨s, hs, hgone | ⟨n, hn, u, hu, u', hu', hlt, hlts⟩⟩ := h
  · rw [hgone] at hs'
    cases hs'
  -- the entry writes the record of the user, so it leaves the session alone
  · have hw : a.op.writes = some (userKey n) := by
      by_contra hne
      have hsame : (sm.after a).kv[userKey n]? = sm.kv[userKey n]? :=
        AuthCluster.after_kv_of_not_writes hne
      rw [hsame] at hu'
      cases Option.mem_unique hu hu'
      omega
    have hkept : (sm.after a).kv[sessionKey tok]? = sm.kv[sessionKey tok]? := by
      refine AuthCluster.after_kv_of_not_writes fun hmem => ?_
      rw [hw] at hmem
      exact sessionKey_ne_userKey tok n (Option.some.inj hmem).symm
    rw [hkept] at hs'
    cases Option.mem_unique hs hs'
    cases Option.mem_unique hn hname
    exact ⟨u', hu', hlts⟩

/-! ## The log -/

/-- The records after the first `n` entries of a log. -/
def recordsAt (log : List ApplyCall) (n : Nat) : Records :=
  ((StateMachine.new 0 0).afterAll (log.take n)).kv

/-- The entry at the index `n` revokes the session of the token. -/
def RevokedBy (log : List ApplyCall) (tok : String) (n : Nat) : Prop :=
  ∃ m, n = m + 1 ∧ n ≤ log.length ∧ Revokes (recordsAt log m) (recordsAt log n) tok

/-- The state machine has applied the beginning of the log. -/
def AppliedOf (log : List ApplyCall) (sm : StateMachine) : Prop :=
  sm.appliedIndex ≤ log.length ∧ sm.kv = recordsAt log sm.appliedIndex

section
variable {log : List ApplyCall} {a : ApplyCall} {sm : StateMachine} {tok : String} {n : Nat}

theorem recordsAt_succ (ha : log[n]? = some a) :
    recordsAt log (n + 1) = (((StateMachine.new 0 0).afterAll (log.take n)).after a).kv := by
  obtain ⟨hn, rfl⟩ := List.getElem?_eq_some_iff.1 ha
  rw [recordsAt, ← List.take_concat_get' log n hn, StateMachine.afterAll_concat]

theorem recordsAt_append (hn : n ≤ log.length) (a : ApplyCall) :
    recordsAt (log ++ [a]) n = recordsAt log n := by
  rw [recordsAt, List.take_append_of_le_length hn, recordsAt]

theorem AppliedOf.after (h : AppliedOf log sm) (ha : log[sm.appliedIndex]? = some a)
    (hi : a.index = sm.appliedIndex + 1) : AppliedOf log (sm.after a) := by
  have hindex : (sm.after a).appliedIndex = sm.appliedIndex + 1 := hi
  obtain ⟨hlt, -⟩ := List.getElem?_eq_some_iff.1 ha
  refine ⟨?_, ?_⟩
  · rw [hindex]
    exact hlt
  · rw [hindex, recordsAt_succ ha]
    exact after_kv_congr h.2 a

theorem AppliedOf.append (h : AppliedOf log sm) (a : ApplyCall) : AppliedOf (log ++ [a]) sm :=
  ⟨by simp only [List.length_append]; exact Nat.le_add_right_of_le h.1,
    by rw [recordsAt_append h.1]; exact h.2⟩

/-- An entry of the log that revokes leaves the token revoked. -/
theorem RevokedBy.revoked (h : RevokedBy log tok n) : Revoked (recordsAt log n) tok := by
  obtain ⟨m, rfl, hle, hrev⟩ := h
  have ha : log[m]? = some log[m] := List.getElem?_eq_getElem hle
  rw [recordsAt_succ ha] at hrev ⊢
  exact hrev.revoked

theorem RevokedBy.append (h : RevokedBy log tok n) (a : ApplyCall) :
    RevokedBy (log ++ [a]) tok n := by
  obtain ⟨m, rfl, hle, hrev⟩ := h
  refine ⟨m, rfl, ?_, ?_⟩
  · rw [List.length_append]
    omega
  · rw [recordsAt_append (by omega), recordsAt_append hle]
    exact hrev

/-- A revocation of a longer log is one of the log, or it is the new entry. -/
theorem RevokedBy.of_append (h : RevokedBy (log ++ [a]) tok n) :
    RevokedBy log tok n ∨ n = log.length + 1 := by
  obtain ⟨m, rfl, hle, hrev⟩ := h
  rw [List.length_append, List.length_singleton] at hle
  rcases Nat.lt_or_eq_of_le hle with hlt | heq
  · refine .inl ⟨m, rfl, by omega, ?_⟩
    rw [recordsAt_append (by omega), recordsAt_append (by omega)] at hrev
    exact hrev
  · exact .inr heq

end

/-! ## Replicas -/

/-- A replica: what it has applied, the commit index it knows, and its snapshot files. -/
structure SessionReplica where
  cfg : RaftConfig
  sm : StateMachine
  commit : Nat
  snapshotIndex : Nat
  snapshot : Option SnapshotFile
  snapshotPrev : Option SnapshotFile

namespace SessionReplica

/-- The index of the next commit a leader or a follower learns of. -/
def learn (r : SessionReplica) (index : Nat) : SessionReplica :=
  { r with commit := max r.commit index }

/-- `apply_committed`, one entry. -/
def applyNext (r : SessionReplica) (log : List ApplyCall) : Option SessionReplica :=
  if r.sm.appliedIndex < r.commit then
    log[r.sm.appliedIndex]?.map fun a => { r with sm := r.sm.after a }
  else none

/-- The current file becomes the previous one, if there is one. -/
def save (r : SessionReplica) (f : SnapshotFile) : SessionReplica :=
  { r with
    snapshotIndex := f.lastIncludedIndex
    snapshot := some f
    snapshotPrev := if r.snapshot.isSome then r.snapshot else r.snapshotPrev }

/-- `install_snapshot`, of a snapshot newer than the replica's own. -/
def install (r : SessionReplica) (f : SnapshotFile) : Option SessionReplica :=
  if f.lastIncludedIndex ≤ r.snapshotIndex then none
  else match StateMachine.fromJson f.stateJson with
    | .ok sm => some { r.save f with sm, commit := max r.commit f.lastIncludedIndex }
    | .error _ => none

/-- The snapshot a restart reads: the previous file when the current one is missing or broken. -/
def loaded (r : SessionReplica) (broken : Bool) : Option SnapshotFile :=
  match broken, r.snapshot with
  | false, some f => some f
  | _, _ => r.snapshotPrev

/-- The index of a snapshot, or of an empty log. -/
def indexOf (f : Option SnapshotFile) : Nat := (f.map (·.lastIncludedIndex)).getD 0

/-- `Node::open`, as far as it reads the snapshot. -/
def reopen (r : SessionReplica) (broken : Bool) : Option SessionReplica :=
  match Host.startMachine r.cfg (r.loaded broken) with
  | .ok sm => some { r with
      sm, commit := indexOf (r.loaded broken), snapshotIndex := indexOf (r.loaded broken) }
  | .error _ => none

variable [SerdeJson]

/-- `maybe_snapshot`, when there is something to save. -/
def snapshotFile (r : SessionReplica) : SnapshotFile :=
  SnapshotFile.new r.cfg.shard r.sm.appliedIndex r.sm.appliedTerm r.sm.configEpoch r.sm.toJson

end SessionReplica

/-- A call of `wait_visible_on_all`: the members it has no answer of. -/
structure VisibleWait where
  index : Nat
  pending : List String

/-- Replicas of one committed log, every snapshot that has been saved, and the calls of
`wait_visible_on_all`. -/
structure SessionCluster where
  log : List ApplyCall
  replicas : String → SessionReplica
  saved : List SnapshotFile
  waits : List VisibleWait

inductive SessionEvent
  /-- an entry joins the committed log -/
  | commit (term : Nat) (op : Op)
  | learn (i : String) (index : Nat)
  | apply (i : String)
  | snapshot (i : String)
  /-- replica `i` is sent the snapshot that was saved as number `k` -/
  | install (i : String) (k : Nat)
  | restart (i : String) (broken : Bool)
  | wait (i : String) (index : Nat)
  /-- replica `i` answers the `k`-th wait -/
  | poll (k : Nat) (i : String)
  /-- the task that asks replica `i` ends without an answer -/
  | lost (k : Nat) (i : String)

/-! ## A node that has just opened -/

section
variable [SerdeJson]

theorem openOver_returns {cfg : RaftConfig} {now : Nat} {snap : Option SnapshotFile}
    {sm : StateMachine} (hsm : SessionReplica.indexOf snap ≤ sm.appliedIndex) :
    Returns (fun n : Node => n.sm = sm ∧ n.commitIndex = SessionReplica.indexOf snap)
      (Host.openOver cfg now snap sm) := by
  refine .bind fun log => .bind fun st => .pure ?_
  obtain ⟨rng, deadline, hreset⟩ := (Host.opened cfg log sm
    (st.disk.hardState.getD HardState.default) snap).resetElectionDeadline_frame now
  -- nothing is committed that the snapshot has not applied
  have hfuel : (Host.opened cfg log sm (st.disk.hardState.getD HardState.default)
      snap).commitIndex - sm.appliedIndex = 0 := Nat.sub_eq_zero_of_le hsm
  rw [hreset, Node.applyCommitted]
  simp only [Host.opened] at hfuel ⊢
  rw [hfuel]
  exact ⟨rfl, rfl⟩

/-- `Node::open` leaves a node with the state machine of the snapshot it loads, or an empty one, and
its index as the commit index: the node passes the barrier at once. -/
theorem openNode_barrier {cfg : RaftConfig} {now : Nat} {st st' : Store} {n : Node}
    (hindex : ∀ f sm, Snapshot.load st.disk = .ok (some f) →
      StateMachine.fromJson f.stateJson = .ok sm → sm.appliedIndex = f.lastIncludedIndex)
    (hx : exec (Host.openNode cfg now) st = (.ok n, st')) :
    ∃ snap, Snapshot.load st.disk = .ok snap ∧ Host.startMachine cfg snap = .ok n.sm ∧
      n.commitIndex = SessionReplica.indexOf snap ∧
      authBarrierOk n.sm.appliedIndex n.commitIndex = true := by
  unfold Host.openNode at hx
  split at hx
  · cases hx
  have hdisk : (exec (fileOp .node id) st).2.disk = st.disk := by
    simp only [exec, fileOp]
    split <;> rfl
  rw [exec_bind] at hx
  rcases hf : exec (fileOp .node id) st with ⟨(e | u), st₁⟩
  · rw [hf] at hx
    cases hx
  rw [hf] at hx hdisk
  have hdisk : st₁.disk = st.disk := hdisk
  simp only [exec_get_bind, hdisk] at hx
  split at hx
  · cases hx
  next snap hload =>
  split at hx
  · cases hx
  next sm hsm =>
  have hle : SessionReplica.indexOf snap = sm.appliedIndex := by
    cases snap with
    | none =>
      cases hsm
      rfl
    | some f => exact (hindex f sm hload hsm).symm
  obtain ⟨rfl, hcommit⟩ := openOver_returns hle.le st₁ n (by rw [hx])
  refine ⟨snap, hload, hsm, hcommit, ?_⟩
  rw [authBarrierOk, hcommit, hle]
  exact decide_eq_true (Nat.le_refl _)

end

namespace SessionCluster

def set (c : SessionCluster) (i : String) (r : SessionReplica) : SessionCluster :=
  { c with replicas := Function.update c.replicas i r }

/-- The entry that comes next. -/
def entry (c : SessionCluster) (term : Nat) (op : Op) : ApplyCall := ⟨c.log.length + 1, term, op⟩

/-- A wait without a member. -/
def drop (c : SessionCluster) (k : Nat) (i : String) : SessionCluster :=
  { c with waits := c.waits.modify k fun w => { w with pending := w.pending.filter (· ≠ i) } }

section
variable [SerdeJson]

def step (voters : List String) (c : SessionCluster) : SessionEvent → Option SessionCluster
  | .commit term op => some { c with log := c.log ++ [c.entry term op] }
  | .learn i index =>
    if i ∈ voters ∧ index ≤ c.log.length then some (c.set i ((c.replicas i).learn index)) else none
  | .apply i => if i ∈ voters then ((c.replicas i).applyNext c.log).map (c.set i) else none
  | .snapshot i =>
    let r := c.replicas i
    if i ∈ voters ∧ r.snapshotIndex < r.sm.appliedIndex then
      some { c.set i (r.save r.snapshotFile) with saved := c.saved ++ [r.snapshotFile] }
    else none
  | .install i k =>
    if i ∈ voters then do
      let f ← c.saved[k]?
      ((c.replicas i).install f).map (c.set i)
    else none
  | .restart i broken =>
    if i ∈ voters then ((c.replicas i).reopen broken).map (c.set i) else none
  -- the caller has applied the entry itself
  | .wait i index =>
    if i ∈ voters ∧ index ≤ (c.replicas i).sm.appliedIndex then
      some { c with waits := c.waits ++ [⟨index, voters.filter (· ≠ i)⟩] }
    else none
  | .poll k i => do
    let w ← c.waits[k]?
    if w.index ≤ (c.replicas i).sm.appliedIndex then some (c.drop k i) else some c
  | .lost k i => some (c.drop k i)

/-- Every member has opened an empty directory. -/
def Initial (voters : List String) (c : SessionCluster) : Prop :=
  c.log = [] ∧ c.saved = [] ∧ c.waits = [] ∧ ∀ i ∈ voters, ∃ cfg,
    c.replicas i = ⟨cfg, .new cfg.shard cfg.maxSkewMs, 0, 0, none, none⟩

abbrev SessionRun (voters : List String) :
    History SessionCluster SessionEvent → SessionCluster → Prop :=
  Run (step voters) (fun _ _ _ => True) (Initial voters)

omit [SerdeJson] in
/-- The entry that the replica applies next revokes the session of the token. -/
def Revoking (c : SessionCluster) (i tok : String) : Prop :=
  ∃ a ∈ c.log[(c.replicas i).sm.appliedIndex]?,
    Revokes (c.replicas i).sm.kv ((c.replicas i).sm.after a).kv tok

/-- What a replica answers that has passed the barrier in the state `b`. -/
def answer (b c : SessionCluster) (i tok : String) (nowMs : Nat) : Option (String × List String) :=
  if authBarrierOk (b.replicas i).sm.appliedIndex (b.replicas i).commit then
    authSessionLookup (c.replicas i).sm tok nowMs
  else none

/-- What is promised of a run: a token that a replica has seen revoked it does not take again, and
none does once a wait for the revocation has ended without a member left. -/
structure RevokedStays (voters : List String) (h : History SessionCluster SessionEvent)
    (c : SessionCluster) : Prop where
  own : ∀ (later earlier : History SessionCluster SessionEvent) d i,
    h = later ++ (d, .apply i) :: earlier → ∀ tok, d.Revoking i tok →
    ∀ b ∈ later.states c, ∀ nowMs, answer b c i tok nowMs = none
  all : ∀ d i, (d, .apply i) ∈ h → ∀ tok, d.Revoking i tok →
    ∀ s ∈ h.states c, ∀ w ∈ s.waits, w.index = (d.replicas i).sm.appliedIndex + 1 →
    w.pending = [] → ∀ j ∈ voters, ∀ b ∈ h.states c, ∀ nowMs, answer b c j tok nowMs = none

/-! ## The condition -/

/-- The replica has had the entry at the index `n` applied in some state of the run. -/
def Reached (h : History SessionCluster SessionEvent) (c : SessionCluster) (i : String) (n : Nat) :
    Prop :=
  ∃ d ∈ h.states c, n ≤ (d.replicas i).sm.appliedIndex

/-- A replica that goes back to the index `n` finds the tokens it has seen revoked revoked there, and
in every later state of the log. -/
def Covers (h : History SessionCluster SessionEvent) (c : SessionCluster) (i : String) (n : Nat) :
    Prop :=
  ∀ tok m, RevokedBy c.log tok m → Reached h c i m → ∀ k, n ≤ k → k < m →
    Revoked (recordsAt c.log k) tok

/-- The step takes nothing back that has been revoked: a new entry leaves the revoked tokens
revoked, a snapshot that is loaded covers what the replica has seen, and no member leaves a wait
without an answer. -/
def KeepsRevoked (h : History SessionCluster SessionEvent) (c : SessionCluster) :
    SessionEvent → Prop
  | .commit term op => ∀ tok m, RevokedBy c.log tok m → Revoked (recordsAt c.log c.log.length) tok →
      Revoked (recordsAt (c.log ++ [c.entry term op]) (c.log.length + 1)) tok
  | .install i k => ∀ f ∈ c.saved[k]?, (c.replicas i).snapshotIndex < f.lastIncludedIndex →
      Covers h c i f.lastIncludedIndex
  | .restart i broken => Covers h c i (SessionReplica.indexOf ((c.replicas i).loaded broken))
  | .lost k i => ∀ w ∈ c.waits[k]?, w.index ≤ (c.replicas i).sm.appliedIndex
  | _ => True

abbrev KeptRun (voters : List String) :
    History SessionCluster SessionEvent → SessionCluster → Prop :=
  Run (step voters) KeepsRevoked (Initial voters)

/-! ## Replicas of the log -/

/-- The snapshot is one of the log. -/
def FileOf (log : List ApplyCall) (f : SnapshotFile) : Prop :=
  ∃ sm, StateMachine.fromJson f.stateJson = .ok sm ∧ AppliedOf log sm ∧
    sm.appliedIndex = f.lastIncludedIndex

/-- The replica and its snapshots are of the log. -/
structure ReplicaOf (log : List ApplyCall) (r : SessionReplica) : Prop where
  machine : AppliedOf log r.sm
  snapshot : ∀ f ∈ r.snapshot, FileOf log f
  snapshotPrev : ∀ f ∈ r.snapshotPrev, FileOf log f

/-- The log is numbered from one, and all replicas are of it. -/
structure OneLog (voters : List String) (c : SessionCluster) : Prop where
  numbered : ∀ k a, c.log[k]? = some a → a.index = k + 1
  replicas : ∀ i ∈ voters, ReplicaOf c.log (c.replicas i)
  saved : ∀ f ∈ c.saved, FileOf c.log f

section
variable {voters : List String} {c c' : SessionCluster} {e : SessionEvent} {i : String}
  {h : History SessionCluster SessionEvent} {log : List ApplyCall} {r r' : SessionReplica}
  {f : SnapshotFile}

omit [SerdeJson] in
theorem FileOf.append (hf : FileOf log f) (a : ApplyCall) : FileOf (log ++ [a]) f :=
  hf.imp fun _ ⟨hx, hsm, hi⟩ => ⟨hx, hsm.append a, hi⟩

omit [SerdeJson] in
theorem ReplicaOf.append (hr : ReplicaOf log r) (a : ApplyCall) : ReplicaOf (log ++ [a]) r where
  machine := hr.machine.append a
  snapshot f hf := (hr.snapshot f hf).append a
  snapshotPrev f hf := (hr.snapshotPrev f hf).append a

omit [SerdeJson] in
theorem ReplicaOf.save (hr : ReplicaOf log r) (hf : FileOf log f) : ReplicaOf log (r.save f) := by
  refine ⟨hr.machine, fun g hg => ?_, fun g hg => ?_⟩
  · cases hg
    exact hf
  · simp only [SessionReplica.save] at hg
    split at hg
    · exact hr.snapshot g hg
    · exact hr.snapshotPrev g hg

omit [SerdeJson] in
theorem ReplicaOf.loaded (hr : ReplicaOf log r) (broken : Bool) :
    ∀ f ∈ r.loaded broken, FileOf log f := by
  intro f hf
  unfold SessionReplica.loaded at hf
  split at hf
  next g hg =>
    cases hf
    exact hr.snapshot f hg
  · exact hr.snapshotPrev f hf

omit [SerdeJson] in
/-- The state machine a replica starts from is at the index of its snapshot. -/
theorem startMachine_of {cfg : RaftConfig} {o : Option SnapshotFile} {sm : StateMachine}
    (ho : ∀ f ∈ o, FileOf log f) (hx : Host.startMachine cfg o = .ok sm) :
    AppliedOf log sm ∧ sm.appliedIndex = SessionReplica.indexOf o := by
  cases o with
  | none =>
    cases hx
    exact ⟨⟨Nat.zero_le _, rfl⟩, rfl⟩
  | some f =>
    obtain ⟨sm', hx', hsm, hi⟩ := ho f rfl
    have heq : sm' = sm := Except.ok.inj (hx'.symm.trans hx)
    subst heq
    exact ⟨hsm, hi⟩

/-- A snapshot of a replica is one of the log. -/
theorem ReplicaOf.snapshotFile (hr : ReplicaOf log r) : FileOf log r.snapshotFile :=
  ⟨{ r.sm with auditTailCap := 2000 }, StateMachine.fromJson_toJson r.sm, hr.machine, rfl⟩

/-! ## Steps -/

omit [SerdeJson] in
theorem applyNext_eq_some (hx : r.applyNext log = some r') :
    ∃ a, log[r.sm.appliedIndex]? = some a ∧ r' = { r with sm := r.sm.after a } := by
  unfold SessionReplica.applyNext at hx
  split at hx
  · obtain ⟨a, ha, rfl⟩ := Option.map_eq_some_iff.1 hx
    exact ⟨a, ha, rfl⟩
  · cases hx

omit [SerdeJson] in
theorem install_eq_some (hx : r.install f = some r') :
    r.snapshotIndex < f.lastIncludedIndex ∧ ∃ sm, StateMachine.fromJson f.stateJson = .ok sm ∧
      r' = { r.save f with sm, commit := max r.commit f.lastIncludedIndex } := by
  unfold SessionReplica.install at hx
  split at hx
  · cases hx
  next hlt =>
  split at hx
  next sm hsm =>
    cases hx
    exact ⟨Nat.not_le.1 hlt, sm, hsm, rfl⟩
  · cases hx

omit [SerdeJson] in
theorem reopen_eq_some {broken : Bool} (hx : r.reopen broken = some r') :
    ∃ sm, Host.startMachine r.cfg (r.loaded broken) = .ok sm ∧ r' = { r with
      sm, commit := SessionReplica.indexOf (r.loaded broken)
      snapshotIndex := SessionReplica.indexOf (r.loaded broken) } := by
  unfold SessionReplica.reopen at hx
  split at hx
  next sm hsm =>
    cases hx
    exact ⟨sm, hsm, rfl⟩
  · cases hx

omit [SerdeJson] in
/-- A wait that lacks a member after `drop` has lacked it before, or it is the one dropped. -/
theorem mem_drop {k : Nat} {w : VisibleWait} (hw : w ∈ (c.drop k i).waits) :
    ∃ w₀ ∈ c.waits, w₀.index = w.index ∧
      (w.pending = w₀.pending ∨
        (c.waits[k]? = some w₀ ∧ w.pending = w₀.pending.filter (· ≠ i))) := by
  obtain ⟨n, hn⟩ := List.mem_iff_getElem?.1 hw
  rw [drop, List.getElem?_modify] at hn
  obtain ⟨w₀, hw₀, heq⟩ := Option.map_eq_some_iff.1 hn
  refine ⟨w₀, List.mem_of_getElem? hw₀, ?_⟩
  by_cases hk : k = n
  · subst hk
    simp only [if_pos] at heq
    subst heq
    exact ⟨rfl, .inr ⟨hw₀, rfl⟩⟩
  · simp only [hk, if_false] at heq
    subst heq
    exact ⟨rfl, .inl rfl⟩

omit [SerdeJson] in
/-- The members that `drop` takes out of a wait have applied its entry. -/
theorem drop_answered {k : Nat} (hk : ∀ w ∈ c.waits[k]?, w.index ≤ (c.replicas i).sm.appliedIndex) :
    ∀ w ∈ (c.drop k i).waits, ∀ j ∈ voters, j ∉ w.pending →
      (∃ w₀ ∈ c.waits, w₀.index = w.index ∧ j ∉ w₀.pending) ∨
        w.index ≤ (c.replicas j).sm.appliedIndex := by
  intro w hw j _ hj
  obtain ⟨w₀, hw₀, hi, hsame | ⟨hat, hfilter⟩⟩ := mem_drop hw
  · exact .inl ⟨w₀, hw₀, hi, hsame ▸ hj⟩
  by_cases hji : j = i
  · subst hji
    exact .inr (hi ▸ hk w₀ hat)
  · refine .inl ⟨w₀, hw₀, hi, fun hmem => hj ?_⟩
    rw [hfilter]
    exact List.mem_filter.2 ⟨hmem, by simpa using hji⟩

/-- A replica goes forwards, or to a snapshot that covers what it has seen. -/
def Moves (h : History SessionCluster SessionEvent) (c : SessionCluster) (i : String)
    (r : SessionReplica) : Prop :=
  ReplicaOf c.log r ∧
    ((c.replicas i).sm.appliedIndex ≤ r.sm.appliedIndex ∨ Covers h c i r.sm.appliedIndex)

/-- A step appends an entry, moves a replica, or hears from members that have applied the entry
waited for. -/
theorem step_cases (hc : OneLog voters c) (hg : KeepsRevoked h c e)
    (hs : step voters c e = some c') :
    (∃ term op, e = .commit term op ∧ c' = { c with log := c.log ++ [c.entry term op] }) ∨
    (∃ i ∈ voters, ∃ r saved, Moves h c i r ∧ (∀ f ∈ saved, FileOf c.log f) ∧
      c' = ⟨c.log, Function.update c.replicas i r, saved, c.waits⟩) ∨
    (∃ waits, c' = { c with waits } ∧ ∀ w ∈ waits, ∀ j ∈ voters, j ∉ w.pending →
      (∃ w₀ ∈ c.waits, w₀.index = w.index ∧ j ∉ w₀.pending) ∨
        w.index ≤ (c.replicas j).sm.appliedIndex) := by
  have hmoves : ∀ {i r}, i ∈ voters → Moves h c i r → ∃ j ∈ voters, ∃ r' saved, Moves h c j r' ∧
      (∀ f ∈ saved, FileOf c.log f) ∧
      c.set i r = ⟨c.log, Function.update c.replicas j r', saved, c.waits⟩ :=
    fun {i r} hi hr => ⟨i, hi, r, c.saved, hr, hc.saved, rfl⟩
  cases e with
  | commit term op =>
    cases hs
    exact .inl ⟨term, op, rfl, rfl⟩
  | learn i index =>
    obtain ⟨⟨hi, -⟩, hs⟩ := Option.ite_none_right_eq_some.1 hs
    cases hs
    have hr := hc.replicas i hi
    have hlearn : ReplicaOf c.log ((c.replicas i).learn index) :=
      ⟨hr.machine, hr.snapshot, hr.snapshotPrev⟩
    exact .inr (.inl (hmoves hi ⟨hlearn, .inl (Nat.le_refl _)⟩))
  | apply i =>
    obtain ⟨hi, hs⟩ := Option.ite_none_right_eq_some.1 hs
    obtain ⟨r, hx, rfl⟩ := Option.map_eq_some_iff.1 hs
    obtain ⟨a, ha, rfl⟩ := applyNext_eq_some hx
    have hr := hc.replicas i hi
    have hindex := hc.numbered _ a ha
    have happly : ReplicaOf c.log { c.replicas i with sm := (c.replicas i).sm.after a } :=
      ⟨hr.machine.after ha hindex, hr.snapshot, hr.snapshotPrev⟩
    refine .inr (.inl (hmoves hi ⟨happly, .inl ?_⟩))
    show _ ≤ a.index
    omega
  | snapshot i =>
    obtain ⟨⟨hi, -⟩, hs⟩ := Option.ite_none_right_eq_some.1 hs
    cases hs
    have hr := hc.replicas i hi
    refine .inr (.inl ⟨i, hi, _, _, ⟨hr.save hr.snapshotFile, .inl (Nat.le_refl _)⟩, ?_, rfl⟩)
    intro f hf
    rcases List.mem_append.1 hf with hf | hf
    · exact hc.saved f hf
    · cases List.mem_singleton.1 hf
      exact hr.snapshotFile
  | install i k =>
    obtain ⟨hi, hs⟩ := Option.ite_none_right_eq_some.1 hs
    obtain ⟨f, hf, hs⟩ := Option.bind_eq_some_iff.1 hs
    obtain ⟨r, hx, rfl⟩ := Option.map_eq_some_iff.1 hs
    obtain ⟨hlt, sm, hsm, rfl⟩ := install_eq_some hx
    have hfile := hc.saved f (List.mem_of_getElem? hf)
    have hsave := (hc.replicas i hi).save hfile
    obtain ⟨sm', hsm', happlied, hindex⟩ := hfile
    have heq : sm' = sm := Except.ok.inj (hsm'.symm.trans hsm)
    subst heq
    have hinstall : ReplicaOf c.log { (c.replicas i).save f with
        sm := sm', commit := max (c.replicas i).commit f.lastIncludedIndex } :=
      ⟨happlied, hsave.snapshot, hsave.snapshotPrev⟩
    refine .inr (.inl (hmoves hi ⟨hinstall, .inr ?_⟩))
    show Covers h c i sm'.appliedIndex
    rw [hindex]
    exact hg f hf hlt
  | restart i broken =>
    obtain ⟨hi, hs⟩ := Option.ite_none_right_eq_some.1 hs
    obtain ⟨r, hx, rfl⟩ := Option.map_eq_some_iff.1 hs
    obtain ⟨sm, hsm, rfl⟩ := reopen_eq_some hx
    have hr := hc.replicas i hi
    obtain ⟨happlied, hindex⟩ := startMachine_of (hr.loaded broken) hsm
    have hopen : ReplicaOf c.log { c.replicas i with
        sm, commit := SessionReplica.indexOf ((c.replicas i).loaded broken)
        snapshotIndex := SessionReplica.indexOf ((c.replicas i).loaded broken) } :=
      ⟨happlied, hr.snapshot, hr.snapshotPrev⟩
    refine .inr (.inl (hmoves hi ⟨hopen, .inr ?_⟩))
    show Covers h c i sm.appliedIndex
    rw [hindex]
    exact hg
  | wait i index =>
    obtain ⟨⟨hi, hle⟩, hs⟩ := Option.ite_none_right_eq_some.1 hs
    cases hs
    refine .inr (.inr ⟨_, rfl, fun w hw j hj hnot => ?_⟩)
    rcases List.mem_append.1 hw with hw | hw
    · exact .inl ⟨w, hw, rfl, hnot⟩
    cases List.mem_singleton.1 hw
    -- the caller is the one member that is not waited for
    have hji : j = i := by
      by_contra hne
      exact hnot (List.mem_filter.2 ⟨hj, by simpa using hne⟩)
    subst hji
    exact .inr hle
  | poll k i =>
    obtain ⟨w, hw, hs⟩ := Option.bind_eq_some_iff.1 hs
    split at hs
    next hle =>
      cases hs
      refine .inr (.inr ⟨_, rfl, drop_answered fun w' hw' => ?_⟩)
      cases Option.mem_unique hw hw'
      exact hle
    · cases hs
      exact .inr (.inr ⟨c.waits, rfl, fun w hw j _ hnot => .inl ⟨w, hw, rfl, hnot⟩⟩)
  | lost k i =>
    cases hs
    exact .inr (.inr ⟨_, rfl, drop_answered hg⟩)

/-! ## Runs -/

/-- From the index `n` on the token is revoked. -/
def RevokedFrom (log : List ApplyCall) (n : Nat) (tok : String) : Prop :=
  ∀ k, n ≤ k → k ≤ log.length → Revoked (recordsAt log k) tok

/-- What a run keeps. -/
structure Inv (voters : List String) (h : History SessionCluster SessionEvent)
    (c : SessionCluster) : Prop where
  log : OneLog voters c
  /-- what is revoked stays so in the log -/
  lasting : ∀ tok m, RevokedBy c.log tok m → RevokedFrom c.log m tok
  reached : ∀ i ∈ voters, ∀ n, Reached h c i n → n ≤ c.log.length
  /-- no replica is behind what it has seen revoked -/
  seen : ∀ i ∈ voters, ∀ tok m, RevokedBy c.log tok m → Reached h c i m →
    RevokedFrom c.log (c.replicas i).sm.appliedIndex tok
  /-- who is not waited for has applied the entry -/
  answered : ∀ s ∈ h.states c, ∀ w ∈ s.waits, ∀ i ∈ voters, i ∉ w.pending → Reached h c i w.index
  /-- a revocation that a replica has applied is one of the log -/
  applied : ∀ d i, (d, .apply i) ∈ h → ∀ tok, d.Revoking i tok →
    i ∈ voters ∧ RevokedBy c.log tok ((d.replicas i).sm.appliedIndex + 1) ∧
      Reached h c i ((d.replicas i).sm.appliedIndex + 1)

omit [SerdeJson] in
theorem Reached.step {n : Nat} (hr : Reached h c i n) : Reached ((c, e) :: h) c' i n :=
  hr.imp fun _ ⟨hd, hn⟩ => ⟨List.mem_cons_of_mem _ hd, hn⟩

omit [SerdeJson] in
theorem reached_cons {n : Nat} (hr : Reached ((c, e) :: h) c' i n) :
    n ≤ (c'.replicas i).sm.appliedIndex ∨ Reached h c i n := by
  obtain ⟨d, hd, hn⟩ := hr
  rcases List.mem_cons.1 hd with rfl | hd
  · exact .inl hn
  · exact .inr ⟨d, hd, hn⟩

omit [SerdeJson] in
theorem RevokedFrom.mono {n n' : Nat} {tok : String} (hr : RevokedFrom log n tok) (hn : n ≤ n') :
    RevokedFrom log n' tok := fun k hk => hr k (hn.trans hk)

omit [SerdeJson] in
/-- Who is not waited for after a step has been heard from, or was not waited for before. -/
theorem Inv.answered_step (hc : Inv voters h c) (hnew : ∀ w ∈ c'.waits, ∀ j ∈ voters, j ∉ w.pending →
      (∃ w₀ ∈ c.waits, w₀.index = w.index ∧ j ∉ w₀.pending) ∨
        w.index ≤ (c.replicas j).sm.appliedIndex) :
    ∀ s ∈ History.states ((c, e) :: h) c', ∀ w ∈ s.waits, ∀ i ∈ voters, i ∉ w.pending →
      Reached ((c, e) :: h) c' i w.index := by
  intro s hs w hw i hi hnot
  rcases List.mem_cons.1 hs with rfl | hs
  · rcases hnew w hw i hi hnot with ⟨w₀, hw₀, hindex, hnot₀⟩ | hle
    · exact hindex ▸ (hc.answered c List.mem_cons_self w₀ hw₀ i hi hnot₀).step
    · exact ⟨c, List.mem_cons_of_mem _ List.mem_cons_self, hle⟩
  · exact (hc.answered s hs w hw i hi hnot).step

omit [SerdeJson] in
/-- A new entry leaves what is revoked revoked. -/
theorem Inv.commit (hc : Inv voters h c) {term : Nat} {op : Op}
    (hg : KeepsRevoked h c (.commit term op)) :
    Inv voters ((c, .commit term op) :: h) { c with log := c.log ++ [c.entry term op] } := by
  have hlen : (c.log ++ [c.entry term op]).length = c.log.length + 1 := by simp
  have hat : ∀ k, k ≤ c.log.length → recordsAt (c.log ++ [c.entry term op]) k = recordsAt c.log k :=
    fun k hk => recordsAt_append hk _
  -- what was revoked from an index on still is
  have hfrom : ∀ tok m n, RevokedBy c.log tok m → n ≤ c.log.length → RevokedFrom c.log n tok →
      RevokedFrom (c.log ++ [c.entry term op]) n tok := by
    intro tok m n hm hn hr k hk hle
    rw [hlen] at hle
    rcases Nat.lt_or_eq_of_le hle with hlt | rfl
    · rw [hat k (by omega)]
      exact hr k hk (by omega)
    · exact hg tok m hm (hr c.log.length hn (Nat.le_refl _))
  have hnew : ∀ tok n, n = c.log.length + 1 → RevokedBy (c.log ++ [c.entry term op]) tok n →
      RevokedFrom (c.log ++ [c.entry term op]) n tok := by
    rintro tok n rfl hm k hk hle
    obtain rfl : k = c.log.length + 1 := by omega
    exact hm.revoked
  have hback : ∀ i n, Reached ((c, .commit term op) :: h)
      { c with log := c.log ++ [c.entry term op] } i n → Reached h c i n := fun i n hr =>
    (reached_cons hr).elim (fun hn => ⟨c, List.mem_cons_self, hn⟩) id
  refine ⟨⟨?_, fun i hi => (hc.log.replicas i hi).append _, fun f hf => (hc.log.saved f hf).append _⟩,
    ?_, ?_, ?_, hc.answered_step fun w hw j _ hnot => .inl ⟨w, hw, rfl, hnot⟩, ?_⟩
  · intro k a ha
    rcases Nat.lt_or_ge k c.log.length with hk | hk
    · rw [List.getElem?_append_left hk] at ha
      exact hc.log.numbered k a ha
    · obtain ⟨hlt, -⟩ := List.getElem?_eq_some_iff.1 ha
      have hlt : k < (c.log ++ [c.entry term op]).length := hlt
      obtain rfl : k = c.log.length := by omega
      rw [List.getElem?_concat_length] at ha
      cases ha
      rfl
  · intro tok m hm
    rcases hm.of_append with hm' | hm'
    · obtain ⟨-, -, hle, -⟩ := id hm'
      exact hfrom tok m m hm' hle (hc.lasting tok m hm')
    · exact hnew tok m hm' hm
  · intro i hi n hr
    have hle := hc.reached i hi n (hback i n hr)
    show n ≤ (c.log ++ [c.entry term op]).length
    omega
  · intro i hi tok m hm hr
    have hr := hback i m hr
    have hle := (hc.log.replicas i hi).machine.1
    rcases hm.of_append with hm' | rfl
    · exact hfrom tok m _ hm' hle (hc.seen i hi tok m hm' hr)
    · have hn := hc.reached i hi _ hr
      omega
  · intro d i hd tok hrev
    rcases List.mem_cons.1 hd with heq | hd
    · cases heq
    obtain ⟨hi, hm, hr⟩ := hc.applied d i hd tok hrev
    exact ⟨hi, hm.append _, hr.step⟩

/-- The step that applies an entry goes on by one. -/
theorem step_apply (hc : OneLog voters c) (hs : step voters c (.apply i) = some c') :
    i ∈ voters ∧ c'.log = c.log ∧
      (c'.replicas i).sm.appliedIndex = (c.replicas i).sm.appliedIndex + 1 := by
  obtain ⟨hi, hs⟩ := Option.ite_none_right_eq_some.1 hs
  obtain ⟨r, hx, rfl⟩ := Option.map_eq_some_iff.1 hs
  obtain ⟨a, ha, rfl⟩ := applyNext_eq_some hx
  have hindex := hc.numbered _ a ha
  refine ⟨hi, rfl, ?_⟩
  simp only [set, Function.update_self]
  exact hindex

omit [SerdeJson] in
/-- What revokes a token on a replica revokes it in the log. -/
theorem Revoking.revokedBy {tok : String} (hr : ReplicaOf c.log (c.replicas i))
    (hrev : c.Revoking i tok) :
    RevokedBy c.log tok ((c.replicas i).sm.appliedIndex + 1) := by
  obtain ⟨a, ha, hrev⟩ := hrev
  obtain ⟨hlt, -⟩ := List.getElem?_eq_some_iff.1 ha
  have hkv := hr.machine.2
  refine ⟨_, rfl, hlt, ?_⟩
  rw [recordsAt_succ ha, ← hkv, ← after_kv_congr hkv a]
  exact hrev

/-- A step that leaves the log as it is adds no revocation but the one it applies. -/
theorem Inv.applied_step (hc : Inv voters h c) (hs : step voters c e = some c')
    (hlog : c'.log = c.log) : ∀ d i, (d, .apply i) ∈ (c, e) :: h → ∀ tok, d.Revoking i tok →
      i ∈ voters ∧ RevokedBy c'.log tok ((d.replicas i).sm.appliedIndex + 1) ∧
        Reached ((c, e) :: h) c' i ((d.replicas i).sm.appliedIndex + 1) := by
  intro d i hd tok hrev
  rw [hlog]
  rcases List.mem_cons.1 hd with heq | hd
  · cases heq
    obtain ⟨hi, -, hindex⟩ := step_apply hc.log hs
    exact ⟨hi, hrev.revokedBy (hc.log.replicas i hi), c', List.mem_cons_self, hindex.ge⟩
  · obtain ⟨hi, hm, hr⟩ := hc.applied d i hd tok hrev
    exact ⟨hi, hm, hr.step⟩

omit [SerdeJson] in
/-- A replica that moves has seen nothing that is not revoked where it is. -/
theorem Inv.moved (hc : Inv voters h c) (hi : i ∈ voters) (hr : Moves h c i r) {tok : String}
    {m : Nat} (hm : RevokedBy c.log tok m) (hn : m ≤ r.sm.appliedIndex ∨ Reached h c i m) :
    RevokedFrom c.log r.sm.appliedIndex tok := by
  rcases hn with hn | hn
  · exact (hc.lasting tok m hm).mono hn
  rcases hr.2 with hle | hcovers
  · exact (hc.seen i hi tok m hm hn).mono hle
  · intro k hk hlen
    rcases Nat.lt_or_ge k m with hlt | hge
    · exact hcovers tok m hm hn k hk hlt
    · exact hc.lasting tok m hm k hge hlen

/-- What a run keeps is kept by a step that takes nothing back. -/
theorem Inv.step (hc : Inv voters h c) (hg : KeepsRevoked h c e) (hs : step voters c e = some c') :
    Inv voters ((c, e) :: h) c' := by
  rcases step_cases hc.log hg hs with ⟨term, op, rfl, rfl⟩ |
    ⟨i, hi, r, saved, hr, hsaved, rfl⟩ | ⟨waits, rfl, hwaits⟩
  · exact hc.commit hg
  · have hat : ∀ j, j ≠ i → Function.update c.replicas i r j = c.replicas j := fun j hj =>
      Function.update_of_ne hj ..
    have hself : Function.update c.replicas i r i = r := Function.update_self ..
    -- what another replica has reached it had reached before
    have hback : ∀ {c' : SessionCluster} {j n}, c'.replicas = Function.update c.replicas i r →
        j ≠ i → Reached ((c, e) :: h) c' j n → Reached h c j n := by
      intro c' j n hc' hj hn
      rcases reached_cons hn with hn | hn
      · rw [hc', hat j hj] at hn
        exact ⟨c, List.mem_cons_self, hn⟩
      · exact hn
    have hown : ∀ {c' : SessionCluster} {n}, c'.replicas = Function.update c.replicas i r →
        Reached ((c, e) :: h) c' i n → n ≤ r.sm.appliedIndex ∨ Reached h c i n := by
      intro c' n hc' hn
      rcases reached_cons hn with hn | hn
      · rw [hc', hself] at hn
        exact .inl hn
      · exact .inr hn
    refine ⟨⟨hc.log.numbered, fun j hj => ?_, hsaved⟩, hc.lasting, fun j hj n hn => ?_,
      fun j hj tok m hm hn => ?_,
      hc.answered_step fun w hw j _ hnot => .inl ⟨w, hw, rfl, hnot⟩, hc.applied_step hs rfl⟩
    · show ReplicaOf c.log (Function.update c.replicas i r j)
      by_cases hji : j = i
      · rw [hji, hself]
        exact hr.1
      · rw [hat j hji]
        exact hc.log.replicas j hj
    · by_cases hji : j = i
      · subst hji
        exact (hown rfl hn).elim (fun hn => hn.trans hr.1.machine.1) (hc.reached j hi n)
      · exact hc.reached j hj n (hback rfl hji hn)
    · by_cases hji : j = i
      · subst hji
        show RevokedFrom c.log (Function.update c.replicas j r j).sm.appliedIndex tok
        rw [hself]
        exact hc.moved hi hr hm (hown rfl hn)
      · show RevokedFrom c.log (Function.update c.replicas i r j).sm.appliedIndex tok
        rw [hat j hji]
        exact hc.seen j hj tok m hm (hback rfl hji hn)
  · have hback : ∀ j n, Reached ((c, e) :: h) { c with waits } j n → Reached h c j n :=
      fun j n hn => (reached_cons hn).elim (fun hn => ⟨c, List.mem_cons_self, hn⟩) id
    refine ⟨⟨hc.log.numbered, hc.log.replicas, hc.log.saved⟩, hc.lasting,
      fun j hj n hn => hc.reached j hj n (hback j n hn),
      fun j hj tok m hm hn => hc.seen j hj tok m hm (hback j m hn), hc.answered_step hwaits,
      hc.applied_step hs rfl⟩

omit [SerdeJson] in
theorem Inv.init (hc : Initial voters c) : Inv voters [] c := by
  obtain ⟨hlog, hsaved, hwaits, hreplicas⟩ := hc
  have hnone : ∀ tok m, ¬ RevokedBy c.log tok m := by
    rintro tok m ⟨k, rfl, hle, -⟩
    rw [hlog] at hle
    cases hle
  have hnew : ∀ i ∈ voters, ReplicaOf c.log (c.replicas i) ∧ (c.replicas i).sm.appliedIndex = 0 := by
    intro i hi
    obtain ⟨cfg, hcfg⟩ := hreplicas i hi
    rw [hcfg, hlog]
    exact ⟨⟨⟨Nat.le_refl _, rfl⟩, nofun, nofun⟩, rfl⟩
  refine ⟨⟨?_, fun i hi => (hnew i hi).1, ?_⟩, fun tok m hm => absurd hm (hnone tok m), ?_,
    fun i _ tok m hm => absurd hm (hnone tok m), ?_, nofun⟩
  · intro k a ha
    rw [hlog] at ha
    cases ha
  · rw [hsaved]
    exact nofun
  · rintro i hi n ⟨d, hd, hn⟩
    cases List.mem_singleton.1 hd
    rw [(hnew i hi).2] at hn
    omega
  · rintro s hs w hw
    cases List.mem_singleton.1 hs
    rw [hwaits] at hw
    cases hw

theorem KeptRun.inv (hr : KeptRun voters h c) : Inv voters h c :=
  Run.invariant (fun _ => Inv.init) (fun _ _ _ _ _ hc hg hs => hc.step hg hs) hr

end

end

/-! ## A restart -/

section
attribute [local instance] SerdeJson.sample

/-- A user, a session of it, and the end of the session. -/
def annEntry : Op := .put (userKey "ann") (userEntry "5a" "" true [] 1) none

def annSession : Op := .put (sessionKey "t") (sessionEntry "ann" 1 0 1000) none

def annLogout : Op := .delete (sessionKey "t") none

/-- To delete a session is to revoke it. -/
theorem revokes_of_logout {kv kv' : Records} {tok : String}
    (h : kv[sessionKey tok]?.isSome = true) (h' : kv'[sessionKey tok]?.isNone = true) :
    Revokes kv kv' tok := by
  obtain ⟨s, hs⟩ := Option.isSome_iff_exists.1 h
  exact ⟨s, hs, .inl (Option.isNone_iff_eq_none.1 h')⟩

/-- Two replicas that have opened empty directories. -/
def opened : SessionCluster where
  log := []
  replicas := fun i => ⟨RaftConfig.new i 0 [], .new 0 1000, 0, 0, none, none⟩
  saved := []
  waits := []

theorem opened_initial : Initial ["n1", "n2"] opened :=
  ⟨rfl, rfl, rfl, fun i _ => ⟨RaftConfig.new i 0 [], rfl⟩⟩

end

end SessionCluster

end Rdsctl.Ha
