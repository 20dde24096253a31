import Mathlib.Data.List.Sort
import Rdsctl.Sha256
import Rdsctl.Lib.Cas
import Rdsctl.Lib.Run
import Rdsctl.Ha.Node

/-!
# User records and sessions

`src/ha/auth.rs` and the writers of user records in `src/ha/runtime.rs`. A user record lies under
`u/<user>` and carries an epoch; a session carries the epoch its user had when it was issued, and is
usable as long as the two agree. A change of a record is a `Put` that names the version the writer
has read on its own replica, and none where that replica has no record. So a writer whose replica is
behind is refused, unless the record is missing on it: then it replaces what it has not read, and
hands out old epochs again.
-/

namespace Rdsctl.Ha

/-! ## Records -/

def roleKey (role : String) : String := "r/" ++ role

def userKey (user : String) : String := "u/" ++ user

/-- The mark that the records of the sink have been taken over. -/
def K_HYDRATED : String := "a/hydrated"

def hashPassword (salt pass : String) : String :=
  Sha256.toHex (Sha256.digest (asBytes (salt ++ ":" ++ pass))).toList

/-- `sort` and `dedup`. -/
def sortDedup (names : List String) : List String := (names.insertionSort (· ≤ ·)).eraseReps

def roleEntry (description : String) (perms : List String) (ver : Nat) : Value :=
  .object [("description", .string description),
    ("perms", .array ((sortDedup perms).map .string)), ("ver", .number ver)]

def userEntry (salt passHash : String) (enabled : Bool) (roles : List String) (epoch : Nat) :
    Value :=
  .object [("enabled", .bool enabled), ("epoch", .number epoch), ("pass_hash", .string passHash),
    ("roles", .array ((sortDedup roles).map .string)), ("salt", .string salt)]

def sessionEntry (user : String) (epoch issuedMs ttlMs : Nat) : Value :=
  .object [("epoch", .number epoch), ("expire_at_ms", .number (satAdd issuedMs ttlMs)),
    ("issued_ms", .number issuedMs), ("user", .string user)]

def entryUser (e : Value) : Option String := (e.get "user").bind Value.asStr

def entryEpoch (e : Value) : Nat := ((e.get "epoch").bind Value.asU64).getD 0

def entryEnabled (e : Value) : Bool := ((e.get "enabled").bind Value.asBool).getD false

def entryRoles (e : Value) : List String := ((e.get "roles").bind Value.strings).getD []

def entryExpireMs (e : Value) : Nat := ((e.get "expire_at_ms").bind Value.asU64).getD 0

/-- A session is usable by its user until it expires, as long as the account is enabled and of the
epoch the session was issued in. -/
def sessionUsable (session : Value) (userName : String) (user : Value) (nowMs : Nat) : Bool :=
  entryUser session == some userName && decide (nowMs < entryExpireMs session) &&
    entryEnabled user && entryEpoch session == entryEpoch user

@[simp] theorem entryEpoch_sessionEntry (user : String) (epoch issuedMs ttlMs : Nat) :
    entryEpoch (sessionEntry user epoch issuedMs ttlMs) = epoch := by
  simp [entryEpoch, sessionEntry, Value.get, Value.asU64, List.lookup_cons]

/-- A session of another epoch is not usable. -/
theorem sessionUsable_of_ne {session user : Value} (h : entryEpoch session ≠ entryEpoch user)
    (userName : String) (nowMs : Nat) : sessionUsable session userName user nowMs = false := by
  simp [sessionUsable, h]

@[simp] theorem entryEpoch_userEntry_set (salt passHash : String) (enabled : Bool)
    (roles : List String) (epoch n : Nat) :
    entryEpoch ((userEntry salt passHash enabled roles epoch).set "epoch" (.number n)) = n := by
  simp [entryEpoch, userEntry, Value.get_set, Value.asU64]

@[simp] theorem entryEnabled_userEntry_set (salt passHash : String) (enabled : Bool)
    (roles : List String) (epoch : Nat) (x : Value) :
    entryEnabled ((userEntry salt passHash enabled roles epoch).set "epoch" x) = enabled := by
  rw [entryEnabled, userEntry, Value.get_set, if_neg (by decide)]
  rfl

/-! ## Writers -/

/-- A `Put` that a writer asks for, with the record of its key that it has read and whether it sets
a password. -/
structure Proposal where
  key : String
  value : Value
  expectVer : Option Nat
  read : Option KvEntry
  password : Bool

def Proposal.op (p : Proposal) : Op := .put p.key p.value p.expectVer

/-- What `mutate_user` asks for in one round, on a replica in the state `sm`. -/
def mutateUser (sm : StateMachine) (user : String) (f : Option Value → Value × Bool)
    (password : Bool) : Proposal :=
  let cur := sm.kv[userKey user]?
  let old := cur.map (·.value)
  let (new, bump) := f old
  let base := (old.map entryEpoch).getD 0
  { key := userKey user
    value := new.set "epoch" (.number (if bump then base + 1 else base : Nat))
    expectVer := cur.map (·.ver)
    read := cur
    password }

/-- The password that is set, if one is: an empty one is none. -/
def newPassword (pass : Option String) : Option String := pass.filter (· ≠ "")

/-- The new record of `auth_user_upsert`, and whether it is of a new epoch. -/
def upserted (pass : Option String) (enabled : Option Bool) (roles : Option (List String))
    (salt : String) (old : Option Value) : Value × Bool :=
  let text (k : String) : String := ((old.bind (·.get k)).bind Value.asStr).getD ""
  let oldEnabled := (old.map entryEnabled).getD true
  let oldRoles := (old.map entryRoles).getD []
  let (salt, hash, passChanged) := match newPassword pass with
    | some p => (salt, hashPassword salt p, true)
    | none => (text "salt", text "pass_hash", false)
  let en := enabled.getD oldEnabled
  let rr := roles.getD oldRoles
  (userEntry salt hash en rr 0, passChanged || en != oldEnabled)

/-- `auth_user_upsert`, one round. The salt is the one `new_salt` draws. -/
def authUserUpsert (sm : StateMachine) (user : String) (pass : Option String)
    (enabled : Option Bool) (roles : Option (List String)) (salt : String) : Option Proposal :=
  if trimIsEmpty user then none
  else some (mutateUser sm user (upserted pass enabled roles salt) (newPassword pass).isSome)

def authUserSetEnabled (sm : StateMachine) (user : String) (enabled : Bool) (salt : String) :
    Option Proposal :=
  authUserUpsert sm user none (some enabled) none salt

def authUserRolesSet (sm : StateMachine) (user : String) (roles : List String) (salt : String) :
    Option Proposal :=
  authUserUpsert sm user none none (some roles) salt

/-- A `Put` of `auth_hydrate_from`, which reads no record. -/
def hydratePut (key : String) (value : Value) : Proposal := ⟨key, value, none, none, false⟩

def hydrateRole (r : Value) : Option Proposal := do
  let name ← (r.get "name").bind Value.asStr
  let desc := ((r.get "description").bind Value.asStr).getD ""
  let perms := ((r.get "perms").bind Value.strings).getD []
  some (hydratePut (roleKey name) (roleEntry desc perms 0))

def hydrateUser (u : Value) : Option Proposal := do
  let name ← (u.get "user").bind Value.asStr
  let salt := ((u.get "salt").bind Value.asStr).getD ""
  let hash := ((u.get "pass_hash").bind Value.asStr).getD ""
  let roles := ((u.get "roles").bind Value.strings).getD []
  let enabled := ((u.get "enabled").bind Value.asBool).getD true
  -- a user without a digest is skipped
  if hash = "" then none
  else some (hydratePut (userKey name) (userEntry salt hash enabled roles 1))

/-- The `Put`s of `auth_hydrate_from`, in their order. -/
def authHydrateFrom (sm : StateMachine) (users roles : List Value) (nowMs : Nat) : List Proposal :=
  if (sm.kv[K_HYDRATED]?).isSome then []
  else roles.filterMap hydrateRole ++ users.filterMap hydrateUser ++
    [hydratePut K_HYDRATED (.object [("at_ms", .number nowMs)])]

/-- A request for a change of a user record. -/
inductive UserWrite
  | upsert (user : String) (pass : Option String) (enabled : Option Bool)
      (roles : Option (List String))
  | setEnabled (user : String) (enabled : Bool)
  | rolesSet (user : String) (roles : List String)

def UserWrite.propose (sm : StateMachine) (salt : String) : UserWrite → Option Proposal
  | .upsert user pass enabled roles => authUserUpsert sm user pass enabled roles salt
  | .setEnabled user enabled => authUserSetEnabled sm user enabled salt
  | .rolesSet user roles => authUserRolesSet sm user roles salt

/-! ## The log they share -/

/-- The keys under which user records lie. -/
def isUserKey (key : String) : Prop := "u/".toList <+: key.toList

instance (key : String) : Decidable (isUserKey key) := inferInstanceAs (Decidable (_ <+: _))

theorem isUserKey_userKey (user : String) : isUserKey (userKey user) :=
  ⟨user.toList, (String.toList_append ..).symm⟩

theorem isUserKey.exists_user {key : String} (h : isUserKey key) : ∃ user, key = userKey user := by
  obtain ⟨cs, hcs⟩ := h
  refine ⟨String.ofList cs, String.toList_inj.1 ?_⟩
  exact hcs.symm.trans (by simp [userKey])

/-- The log as far as it is committed, and what the writers have asked for. A replica is in the
state of the whole log or of an earlier part of it. -/
structure AuthCluster where
  sm : StateMachine
  behind : List StateMachine
  proposed : List Proposal

/-- What happens to user records: a writer on a replica that is `lag` entries behind reads and asks,
what has been asked for is committed, in any order, and other ops are. A request that is refused or
lost is one more `write`. -/
inductive AuthEvent
  | write (lag : Nat) (w : UserWrite) (salt : String)
  | hydrate (lag : Nat) (users roles : List Value) (nowMs : Nat)
  | commit (i term : Nat)
  | other (op : Op) (term : Nat)

namespace AuthCluster

def states (c : AuthCluster) : List StateMachine := c.sm :: c.behind

/-- The entry that comes next. -/
def entry (c : AuthCluster) (op : Op) (term : Nat) : ApplyCall := ⟨c.sm.appliedIndex + 1, term, op⟩

/-- The log after one more entry. -/
def append (c : AuthCluster) (op : Op) (term : Nat) : AuthCluster :=
  { c with sm := c.sm.after (c.entry op term), behind := c.states }

def step (c : AuthCluster) : AuthEvent → Option AuthCluster
  | .write lag w salt => do
    let sm ← c.states[lag]?
    let p ← w.propose sm salt
    some { c with proposed := c.proposed ++ [p] }
  | .hydrate lag users roles nowMs => do
    let sm ← c.states[lag]?
    some { c with proposed := c.proposed ++ authHydrateFrom sm users roles nowMs }
  | .commit i term => do
    let p ← c.proposed[i]?
    some (c.append p.op term)
  | .other op term =>
    if ∃ key ∈ op.writes, isUserKey key then none else some (c.append op term)

def Fresh (c : AuthCluster) : Prop := ∃ shard maxSkewMs, c = ⟨.new shard maxSkewMs, [], []⟩

/-- The runs of the writers and their log. -/
abbrev AuthRun : History AuthCluster AuthEvent → AuthCluster → Prop :=
  Run step (fun _ _ _ => True) Fresh

/-- The record of a user. -/
def user (c : AuthCluster) (name : String) : Option KvEntry := c.sm.kv[userKey name]?

/-- The `Put` an event commits, if the state machine accepts it. -/
def accepted (c : AuthCluster) : AuthEvent → Option Proposal
  | .commit i term => c.proposed[i]?.filter fun p => (c.sm.outcome (c.entry p.op term)).isOk
  | _ => none

/-- The event is a committed change of the password of a user, or a freeze. -/
def Revokes (c : AuthCluster) (e : AuthEvent) (name : String) : Prop :=
  ∃ p ∈ c.accepted e, p.key = userKey name ∧
    (p.password = true ∨
      ∃ r ∈ c.user name, entryEnabled r.value = true ∧ entryEnabled p.value = false)

/-- What is promised of a run: the epoch of a user never falls, no session that was issued before a
revocation is usable after it, and who replaces a record has read it. -/
structure SessionsRevoked (h : History AuthCluster AuthEvent) (c : AuthCluster) : Prop where
  epochs : (h.states c).Pairwise fun later earlier =>
    ∀ name, ∀ r ∈ earlier.user name, ∃ r' ∈ later.user name, entryEpoch r.value ≤ entryEpoch r'.value
  revoked : ∀ (later earlier : History AuthCluster AuthEvent) d e,
    h = later ++ (d, e) :: earlier → ∀ name, d.Revokes e name →
    ∀ b ∈ earlier.states d, ∀ r ∈ b.user name, ∀ a ∈ later.states c, ∀ r' ∈ a.user name,
    ∀ issuedMs ttlMs nowMs,
      sessionUsable (sessionEntry name (entryEpoch r.value) issuedMs ttlMs) name r'.value nowMs = false
  read : ∀ d e earlier, (d, e) :: earlier <:+ h → ∀ p ∈ d.accepted e, ∀ name, p.key = userKey name →
    ∀ r ∈ d.user name, p.read = some r

/-- The event commits no `Put` that names no version while its key holds a user record. -/
def Conditional (c : AuthCluster) : AuthEvent → Prop
  | .commit i _ => ∀ p ∈ c.proposed[i]?, p.expectVer = none → isUserKey p.key →
      (c.sm.kv[p.key]?).isNone = true
  | _ => True

instance (c : AuthCluster) : ∀ e, Decidable (c.Conditional e)
  | .commit i _ =>
    match h : c.proposed[i]? with
    | some p => decidable_of_iff (p.expectVer = none → isUserKey p.key →
        (c.sm.kv[p.key]?).isNone = true) (by simp [Conditional, h])
    | none => isTrue (by simp [Conditional, h])
  | .write .. | .hydrate .. | .other .. => isTrue trivial

section
variable {c c' : AuthCluster} {h : History AuthCluster AuthEvent} {e : AuthEvent} {p : Proposal}

/-! ## What a writer has read -/

/-- A `Put` on a user record names the version of the record its writer has read on some replica,
and carries no older epoch, and a newer one when it revokes. -/
structure FromRead (c : AuthCluster) (p : Proposal) : Prop where
  version : p.expectVer = p.read.map (·.ver)
  seen : ∀ r ∈ p.read, ∃ sm ∈ c.states, sm.kv[p.key]? = some r
  epoch : ∀ r ∈ p.read, entryEpoch r.value ≤ entryEpoch p.value
  revokes : ∀ r ∈ p.read,
    p.password = true ∨ (entryEnabled r.value = true ∧ entryEnabled p.value = false) →
    entryEpoch r.value < entryEpoch p.value

theorem FromRead.mono (hp : FromRead c p) (hs : ∀ sm ∈ c.states, sm ∈ c'.states) :
    FromRead c' p :=
  { hp with seen := fun r hr => (hp.seen r hr).imp fun sm h => ⟨hs sm h.1, h.2⟩ }

theorem FromRead.hydratePut (c : AuthCluster) (key : String) (value : Value) :
    FromRead c (hydratePut key value) :=
  ⟨rfl, nofun, nofun, nofun⟩

/-- The new record of `auth_user_upsert` is a `user_entry`, and of a new epoch when a password is
set or the account is frozen. -/
theorem upserted_eq (pass : Option String) (enabled : Option Bool) (roles : Option (List String))
    (salt : String) (old : Option Value) :
    ∃ salt' hash en rr, upserted pass enabled roles salt old =
      (userEntry salt' hash en rr 0,
        (newPassword pass).isSome || en != (old.map entryEnabled).getD true) := by
  unfold upserted
  cases newPassword pass <;> exact ⟨_, _, _, _, rfl⟩

theorem mutateUser_value {sm : StateMachine} {user : String} {r : KvEntry}
    (hr : sm.kv[userKey user]? = some r) (f : Option Value → Value × Bool) (password : Bool) :
    (mutateUser sm user f password).value = (f (some r.value)).1.set "epoch"
      (.number (if (f (some r.value)).2 then entryEpoch r.value + 1 else entryEpoch r.value : Nat)) := by
  simp only [mutateUser, hr, Option.map_some, Option.getD_some]

theorem FromRead.upsert {sm : StateMachine} (hsm : sm ∈ c.states) {user : String}
    {pass : Option String} {enabled : Option Bool} {roles : Option (List String)} {salt : String}
    (hp : authUserUpsert sm user pass enabled roles salt = some p) : FromRead c p := by
  unfold authUserUpsert at hp
  split at hp
  · cases hp
  cases hp
  refine ⟨rfl, fun r hr => ⟨sm, hsm, hr⟩, fun r hr => ?_, fun r hr => ?_⟩
  · obtain ⟨salt', hash, en, rr, hup⟩ := upserted_eq pass enabled roles salt (some r.value)
    rw [mutateUser_value hr, hup, entryEpoch_userEntry_set]
    split
    · exact Nat.le_succ _
    · exact Nat.le_refl _
  · obtain ⟨salt', hash, en, rr, hup⟩ := upserted_eq pass enabled roles salt (some r.value)
    rw [mutateUser_value hr, hup, entryEpoch_userEntry_set, entryEnabled_userEntry_set]
    rintro (hpass | ⟨hold, hnew⟩)
    · have hpass : (newPassword pass).isSome = true := hpass
      simp [hpass]
    · simp [hold, hnew]

theorem FromRead.propose {sm : StateMachine} (hsm : sm ∈ c.states) {w : UserWrite} {salt : String}
    (hp : w.propose sm salt = some p) : FromRead c p := by
  cases w with
  | upsert | setEnabled | rolesSet => exact .upsert hsm hp

theorem FromRead.hydrate {sm : StateMachine} {users roles : List Value} {nowMs : Nat}
    (hp : p ∈ authHydrateFrom sm users roles nowMs) : FromRead c p := by
  have hrole : ∀ v, p ∈ hydrateRole v → FromRead c p := by
    intro v hv
    simp only [hydrateRole, Option.bind_eq_bind, Option.mem_def, Option.bind_eq_some_iff] at hv
    obtain ⟨name, -, hv⟩ := hv
    cases hv
    exact .hydratePut c _ _
  have huser : ∀ v, p ∈ hydrateUser v → FromRead c p := by
    intro v hv
    simp only [hydrateUser, Option.bind_eq_bind, Option.mem_def, Option.bind_eq_some_iff] at hv
    obtain ⟨name, -, hv⟩ := hv
    split at hv
    · cases hv
    · cases hv
      exact .hydratePut c _ _
  unfold authHydrateFrom at hp
  split at hp
  · cases hp
  · simp only [List.mem_append, List.mem_filterMap, List.mem_singleton] at hp
    rcases hp with (⟨v, -, hv⟩ | ⟨v, -, hv⟩) | rfl
    · exact hrole v hv
    · exact huser v hv
    · exact .hydratePut c _ _

/-! ## What an entry does to a record -/

/-- A `Put` is refused, or it finds the version it names and writes the next one. -/
theorem applyPut_cases (sm : StateMachine) (index : Nat) (key : String) (value : Value)
    (expectVer : Option Nat) :
    (∃ r, sm.applyPut index key value expectVer = (.rejected r, sm)) ∨
    ((∀ r ∈ sm.kv[key]?, ∀ v ∈ expectVer, r.ver = v) ∧
      ∃ ver, (∀ r ∈ sm.kv[key]?, r.ver < ver) ∧
        sm.applyPut index key value expectVer =
          (.ok, { sm with kv := sm.kv.insert key ⟨value, ver, index⟩ })) := by
  unfold StateMachine.applyPut
  by_cases hblank : trimIsEmpty key = true
  · exact .inl ⟨_, if_pos hblank⟩
  rw [if_neg hblank]
  rcases hcur : sm.kv[key]? with _ | cur
  · rcases expectVer with _ | _ | v
    · exact .inr ⟨nofun, 1, nofun, rfl⟩
    · exact .inr ⟨nofun, 1, nofun, rfl⟩
    · exact .inl ⟨_, rfl⟩
  · rcases expectVer with _ | v
    · refine .inr ⟨nofun, cur.ver + 1, ?_, rfl⟩
      rintro r ⟨⟩
      exact Nat.lt_succ_self _
    · by_cases hv : cur.ver = v
      · refine .inr ⟨?_, cur.ver + 1, ?_, if_neg (not_not.2 hv)⟩
        · rintro r ⟨⟩ v' ⟨⟩
          exact hv
        · rintro r ⟨⟩
          exact Nat.lt_succ_self _
      · exact .inl ⟨_, if_pos hv⟩

/-- An op leaves the keys it does not write as they are. -/
theorem after_kv_of_not_writes {sm : StateMachine} {a : ApplyCall} {key : String}
    (hw : key ∉ a.op.writes) : (sm.after a).kv[key]? = sm.kv[key]? := by
  show (sm.applyInner a.term a.index a.op).2.kv[key]? = _
  cases hop : a.op with
  | put k value expectVer =>
    have hne : k ≠ key := fun hk => hw (by rw [hop, ← hk]; rfl)
    rcases applyPut_cases sm a.index k value expectVer with ⟨r, heq⟩ | ⟨-, ver, -, heq⟩
    · rw [StateMachine.applyInner, heq]
    · rw [StateMachine.applyInner, heq, BTreeMap.getElem?_insert_ite, if_neg hne]
  | delete k expectVer =>
    have hne : k ≠ key := fun hk => hw (by rw [hop, ← hk]; rfl)
    simp only [StateMachine.applyInner, StateMachine.applyDelete]
    repeat' split
    all_goals first
      | rfl
      | rw [BTreeMap.getElem?_erase_ite, if_neg hne]
  | _ =>
    simp only [StateMachine.applyInner, StateMachine.applyConfigSet, StateMachine.applyLeaseGrant,
      StateMachine.applyLeaseRenew, StateMachine.applyLeaseRelease, StateMachine.applyStepBegin,
      StateMachine.applyStepDone, StateMachine.applyAuditAppend]
    repeat' split
    all_goals rfl

/-- A committed `Put` is refused, or it finds the version it names and writes a newer one. -/
theorem append_put (c : AuthCluster) (p : Proposal) (term : Nat) :
    ((c.sm.outcome (c.entry p.op term)).isOk = false ∧
      (c.append p.op term).sm.kv[p.key]? = c.sm.kv[p.key]?) ∨
    ((c.sm.outcome (c.entry p.op term)).isOk = true ∧
      (∀ r ∈ c.sm.kv[p.key]?, ∀ v ∈ p.expectVer, r.ver = v) ∧
      ∃ r', (c.append p.op term).sm.kv[p.key]? = some r' ∧ r'.value = p.value ∧
        ∀ r ∈ c.sm.kv[p.key]?, r.ver < r'.ver) := by
  have hout : c.sm.outcome (c.entry p.op term) =
      (c.sm.applyPut (c.sm.appliedIndex + 1) p.key p.value p.expectVer).1 := rfl
  have hkv : (c.append p.op term).sm.kv =
      (c.sm.applyPut (c.sm.appliedIndex + 1) p.key p.value p.expectVer).2.kv := rfl
  rw [hout, hkv]
  rcases applyPut_cases c.sm (c.sm.appliedIndex + 1) p.key p.value p.expectVer with
    ⟨r, heq⟩ | ⟨hver, ver, hlt, heq⟩
  · rw [heq]
    exact .inl ⟨rfl, rfl⟩
  · rw [heq, BTreeMap.getElem?_insert_ite, if_pos rfl]
    exact .inr ⟨rfl, hver, _, rfl, rfl, hlt⟩

/-- A `Put` that names no version is accepted under a user key. -/
theorem outcome_put_of_none {name : String} (hkey : p.key = userKey name) (hexp : p.expectVer = none)
    (term : Nat) : (c.sm.outcome (c.entry p.op term)).isOk = true := by
  have hout : c.sm.outcome (c.entry p.op term) =
      (c.sm.applyPut (c.sm.appliedIndex + 1) p.key p.value p.expectVer).1 := rfl
  have hblank : trimIsEmpty (userKey name) = false := by
    simp [trimIsEmpty, userKey, isWhiteSpace]
  rw [hout, hexp, hkey]
  unfold StateMachine.applyPut
  rw [if_neg (by simp [hblank])]
  rcases hcur : c.sm.kv[userKey name]? with _ | r <;> rfl

/-! ## Runs -/

/-- Nothing a replica may still be in has a record that the log has lost. -/
def Past (c : AuthCluster) : Prop :=
  ∀ sm ∈ c.states, ∀ name, Cas.Kept KvEntry.ver (entryEpoch ·.value) sm.kv[userKey name]? (c.user name)

/-- The writers have read what they replace. -/
theorem Past.read (hpast : c.Past) (hp : FromRead c p) {name : String} (hkey : p.key = userKey name)
    (hcond : p.expectVer = none → c.user name = none)
    (hver : ∀ r ∈ c.user name, ∀ v ∈ p.expectVer, r.ver = v) :
    ∀ r ∈ c.user name, p.read = some r := by
  intro r hr
  rcases hread : p.read with _ | r₀
  · have hnone := hcond (by rw [hp.version, hread]; rfl)
    rw [hnone] at hr
    cases hr
  · obtain ⟨sm, hsm, hr₀⟩ := hp.seen r₀ hread
    have hv : r.ver = r₀.ver := hver r hr r₀.ver (by rw [hp.version, hread]; rfl)
    rw [hkey] at hr₀
    rw [(hpast sm hsm name).eq_of_ver hr₀ hr hv]

/-- A step asks for something, commits what was asked for, or commits another op. -/
theorem step_cases (hs : step c e = some c') :
    (∃ ps, (∀ p ∈ ps, FromRead c p) ∧ c' = { c with proposed := c.proposed ++ ps }) ∨
    (∃ i term p, e = .commit i term ∧ c.proposed[i]? = some p ∧ c' = c.append p.op term) ∨
    (∃ op term, (∀ name, userKey name ∉ op.writes) ∧ c' = c.append op term) := by
  cases e with
  | write lag w salt =>
    simp only [step, Option.bind_eq_bind, Option.bind_eq_some_iff, Option.some.injEq] at hs
    obtain ⟨sm, hsm, p, hp, rfl⟩ := hs
    refine .inl ⟨[p], fun q hq => ?_, rfl⟩
    cases List.mem_singleton.1 hq
    exact .propose (List.mem_of_getElem? hsm) hp
  | hydrate lag users roles nowMs =>
    simp only [step, Option.bind_eq_bind, Option.bind_eq_some_iff, Option.some.injEq] at hs
    obtain ⟨sm, -, rfl⟩ := hs
    exact .inl ⟨_, fun p hp => .hydrate hp, rfl⟩
  | commit i term =>
    simp only [step, Option.bind_eq_bind, Option.bind_eq_some_iff, Option.some.injEq] at hs
    obtain ⟨p, hi, rfl⟩ := hs
    exact .inr (.inl ⟨i, term, p, rfl, hi, rfl⟩)
  | other op term =>
    simp only [step] at hs
    split at hs
    · cases hs
    next hw =>
    cases hs
    exact .inr (.inr ⟨op, term, fun name hmem => hw ⟨_, hmem, isUserKey_userKey name⟩, rfl⟩)

/-- A `Put` without a version that meets the condition finds no record. -/
theorem Conditional.user_eq_none {i term : Nat} (hg : c.Conditional (.commit i term))
    (hi : c.proposed[i]? = some p) (hexp : p.expectVer = none) {name : String}
    (hkey : p.key = userKey name) : c.user name = none := by
  have hnone := hg p hi hexp (hkey ▸ isUserKey_userKey name)
  rw [hkey] at hnone
  exact Option.isNone_iff_eq_none.1 hnone

/-- The user records of an earlier log are there later, or newer ones. -/
def Later (c c' : AuthCluster) : Prop :=
  ∀ name, Cas.Kept KvEntry.ver (entryEpoch ·.value) (c.user name) (c'.user name)

/-- A step keeps the records or replaces them by newer ones. -/
theorem Later.step (hpast : c.Past) (hp : ∀ p ∈ c.proposed, FromRead c p) (hg : c.Conditional e)
    (hs : c.step e = some c') : Later c c' := by
  intro name
  rcases step_cases hs with ⟨ps, -, rfl⟩ | ⟨i, term, p, rfl, hi, rfl⟩ | ⟨op, term, hw, rfl⟩
  · exact .refl _
  · by_cases hkey : p.key = userKey name
    · rcases append_put c p term with ⟨-, hsame⟩ | ⟨-, hver, r', hr', hval, hlt⟩
      · rw [user, user, ← hkey, hsame]
        exact .refl _
      · rw [hkey] at hr' hver hlt
        have hfrom := hp p (List.mem_of_getElem? hi)
        have hread := hpast.read hfrom hkey (fun hx => hg.user_eq_none hi hx hkey) hver
        rw [user, user, hr']
        refine .replace fun r hr => ⟨hlt r hr, ?_⟩
        rw [hval]
        exact hfrom.epoch r (hread r hr)
    · have hsame : (c.append p.op term).user name = c.user name :=
        after_kv_of_not_writes fun hw => hkey (Option.some.inj hw)
      rw [hsame]
      exact .refl _
  · have hsame : (c.append op term).user name = c.user name := after_kv_of_not_writes (hw name)
    rw [hsame]
    exact .refl _

/-- What the writers ask for they have read. -/
theorem AuthRun.fromRead (hr : AuthRun h c) : ∀ p ∈ c.proposed, FromRead c p := by
  refine Run.invariant (I := fun _ c => ∀ p ∈ c.proposed, FromRead c p) ?_ ?_ hr
  · rintro c ⟨shard, maxSkewMs, rfl⟩
    exact nofun
  rintro h c e c' - ih - hs p hp
  rcases step_cases hs with ⟨ps, hps, rfl⟩ | ⟨i, term, q, rfl, -, rfl⟩ | ⟨op, term, -, rfl⟩
  · rcases List.mem_append.1 hp with hp | hp
    · exact (ih p hp).mono fun _ => id
    · exact (hps p hp).mono fun _ => id
  · exact (ih p hp).mono fun _ => List.mem_cons_of_mem _
  · exact (ih p hp).mono fun _ => List.mem_cons_of_mem _

/-- The runs in which no `Put` without a version replaces a user record. -/
abbrev ConditionalRun : History AuthCluster AuthEvent → AuthCluster → Prop :=
  Run step (fun _ c e => c.Conditional e) Fresh

theorem ConditionalRun.run (hr : ConditionalRun h c) : AuthRun h c := hr.mono fun _ _ _ _ => trivial

/-- The records a replica may still see are there, or newer ones. -/
theorem ConditionalRun.past (hr : ConditionalRun h c) : c.Past := by
  refine Run.invariant (I := fun _ c => c.Past) ?_ ?_ hr
  · rintro c ⟨shard, maxSkewMs, rfl⟩ sm hsm name
    cases List.mem_singleton.1 hsm
    exact .refl _
  rintro h c e c' hr ih hg hs sm hsm name
  have hkept := Later.step ih (AuthRun.fromRead (ConditionalRun.run hr)) hg hs name
  have hstates : sm = c'.sm ∨ sm ∈ c.states := by
    rcases step_cases hs with ⟨ps, -, rfl⟩ | ⟨i, term, p, rfl, -, rfl⟩ | ⟨op, term, -, rfl⟩
    · exact .inr hsm
    · exact List.mem_cons.1 hsm
    · exact List.mem_cons.1 hsm
  rcases hstates with rfl | hsm
  · exact .refl _
  · exact (ih sm hsm name).trans hkept

/-- A step that commits a revocation makes the epoch of the user newer. -/
theorem Revokes.epoch_lt (hpast : c.Past) (hp : ∀ p ∈ c.proposed, FromRead c p)
    (hg : c.Conditional e) (hs : step c e = some c') {name : String} (hv : c.Revokes e name) :
    ∃ r' ∈ c'.user name, ∀ r ∈ c.user name, entryEpoch r.value < entryEpoch r'.value := by
  obtain ⟨p, hacc, hkey, hrev⟩ := hv
  cases e with
  | commit i term =>
    obtain ⟨hi, hok⟩ := Option.filter_eq_some_iff.1 hacc
    simp only [step, Option.bind_eq_bind, Option.bind_eq_some_iff, Option.some.injEq] at hs
    obtain ⟨q, hq, rfl⟩ := hs
    cases Option.mem_unique hq hi
    rcases append_put c p term with ⟨hno, -⟩ | ⟨-, hver, r', hr', hval, -⟩
    · rw [hno] at hok
      cases hok
    rw [hkey] at hr' hver
    have hfrom := hp p (List.mem_of_getElem? hi)
    have hread := hpast.read hfrom hkey (fun hx => hg.user_eq_none hi hx hkey) hver
    refine ⟨r', hr', fun r hr => ?_⟩
    rw [hval]
    refine hfrom.revokes r (hread r hr) (hrev.imp id ?_)
    rintro ⟨r₁, hr₁, hen, hdis⟩
    cases Option.mem_unique hr hr₁
    exact ⟨hen, hdis⟩
  | _ => cases hacc

/-- In every run, the promise holds exactly when no `Put` without a version replaces a user
record. -/
theorem sessions_revoked (hr : AuthRun h c) :
    SessionsRevoked h c ↔ ∀ d e earlier, (d, e) :: earlier <:+ h → d.Conditional e := by
  constructor
  · intro hsafe d e earlier hs
    cases e with
    | write | hydrate | other => trivial
    | commit i term =>
    intro p hp hexp huser
    obtain ⟨name, hkey⟩ := huser.exists_user
    obtain ⟨hr, -⟩ := Run.of_suffix hr hs
    -- such a `Put` is accepted, and its writer has read no record
    have hacc : p ∈ d.accepted (.commit i term) :=
      Option.filter_eq_some_iff.2 ⟨hp, outcome_put_of_none hkey hexp term⟩
    have hversion := (AuthRun.fromRead hr p (List.mem_of_getElem? hp)).version
    rw [Option.isNone_iff_eq_none, Option.eq_none_iff_forall_not_mem, hkey]
    intro r hrec
    rw [hsafe.read d _ earlier hs p hacc name hkey r hrec, hexp] at hversion
    cases hversion
  · intro hall
    have hr : ConditionalRun h c := Run.restrict hr hall
    have hrefl : ∀ c, Later c c := fun c name => .refl _
    have htrans : ∀ a b c, Later a b → Later b c → Later a c := fun a b c hab hbc name =>
      (hab name).trans (hbc name)
    have hstep : ∀ h d e d', ConditionalRun h d → d.Conditional e → step d e = some d' →
        Later d d' :=
      fun h d e d' hr hg hs => Later.step hr.past (AuthRun.fromRead hr.run) hg hs
    refine ⟨?_, ?_, ?_⟩
    · refine (Run.pairwise hrefl htrans hstep hr).imp fun hkept name r hrec => ?_
      obtain ⟨r', hr', -⟩ := hkept name r hrec
      exact ⟨r', hr', (hkept name).measure_le hrec hr'⟩
    · rintro later earlier d e rfl name hrev b hb r hrec a ha r' hr' issuedMs ttlMs nowMs
      obtain ⟨hrd, hg⟩ := Run.of_suffix hr (List.suffix_append _ _)
      have hrd : ConditionalRun earlier d := hrd
      obtain ⟨d', hd, hafter⟩ := Run.rel_after hrefl htrans hstep hr
      obtain ⟨r₁, hr₁, hlt⟩ := hrev.epoch_lt hrd.past (AuthRun.fromRead hrd.run) hg hd
      -- the epoch of the session, before the revocation, after it, and now
      obtain ⟨r₀, hr₀, -⟩ := Run.rel hrefl htrans hstep hrd hb name r hrec
      have hle₀ := (Run.rel hrefl htrans hstep hrd hb name).measure_le hrec hr₀
      have hle₁ := (hafter a ha name).measure_le hr₁ hr'
      have hlt₀ := hlt r₀ hr₀
      refine sessionUsable_of_ne ?_ name nowMs
      rw [entryEpoch_sessionEntry]
      omega
    · intro d e earlier hs p hacc name hkey
      obtain ⟨hrd, hg⟩ := Run.of_suffix hr hs
      have hrd : ConditionalRun earlier d := hrd
      cases e with
      | commit i term =>
        obtain ⟨hi, hok⟩ := Option.filter_eq_some_iff.1 hacc
        have hfrom := AuthRun.fromRead hrd.run p (List.mem_of_getElem? hi)
        refine hrd.past.read hfrom hkey (fun hx => hg.user_eq_none hi hx hkey) ?_
        rcases append_put d p term with ⟨hno, -⟩ | ⟨-, hver, -⟩
        · rw [hno] at hok
          cases hok
        · rw [user, ← hkey]
          exact hver
      | _ => cases hacc

end

/-- An account is created, and frozen, each on a replica that has the whole log. -/
def freeze : List AuthEvent :=
  [.write 0 (.upsert "ann" (some "pass") (some true) none) "5a", .commit 0 1,
    .write 0 (.setEnabled "ann" false) "", .commit 1 1]

/-- It is created once more on a replica that has nothing of the log yet. -/
def createBehind : List AuthEvent :=
  freeze ++ [.write 2 (.upsert "ann" (some "pass") (some true) none) "5b", .commit 2 1]

/-- In the run that freezes the account no session survives. -/
theorem sessions_revoked_freeze : ∃ h c, AuthRun h c ∧ h.length = 4 ∧
    (c.user "ann").map (entryEpoch ·.value) = some 2 ∧ SessionsRevoked h c := by
  have hf : (follow step (fun _ c e => c.Conditional e) freeze [] ⟨.new 0 1000, [], []⟩).map
      (fun r => decide (r.1.length = 4 ∧ (r.2.user "ann").map (entryEpoch ·.value) = some 2)) =
        some true := by decide +kernel
  obtain ⟨⟨h, c⟩, hf, hb⟩ := Option.map_eq_some_iff.1 hf
  have hr : ConditionalRun h c := Run.follow (.start ⟨0, 1000, rfl⟩) hf
  obtain ⟨hlen, hepoch⟩ := of_decide_eq_true hb
  exact ⟨h, c, hr.run, hlen, hepoch,
    (sessions_revoked hr.run).2 fun d e earlier hs => (Run.of_suffix hr hs).2⟩

/-- A frozen account is created again by a replica that lags behind, in its first epoch. -/
theorem sessions_not_revoked : ¬ ∀ h c, AuthRun h c → SessionsRevoked h c := by
  intro hall
  have hf : (follow step (fun _ _ _ => True) createBehind [] ⟨.new 0 1000, [], []⟩).map
      (fun r => decide ((r.2.user "ann").map (entryEpoch ·.value) = some 1 ∧
        ∃ d ∈ r.1.map Prod.fst, (d.user "ann").map (entryEpoch ·.value) = some 2)) =
          some true := by decide +kernel
  obtain ⟨⟨h, c⟩, hf, hb⟩ := Option.map_eq_some_iff.1 hf
  obtain ⟨hnow, d, hd, hthen⟩ := of_decide_eq_true hb
  obtain ⟨r, hr, hepoch⟩ := Option.map_eq_some_iff.1 hthen
  have hsafe := hall h c (Run.follow (.start ⟨0, 1000, rfl⟩) hf)
  obtain ⟨r', hr', hle⟩ := (List.pairwise_cons.1 hsafe.epochs).1 d hd "ann" r hr
  rw [Option.mem_def] at hr'
  rw [hr'] at hnow
  have hnow : entryEpoch r'.value = 1 := Option.some.inj hnow
  omega

end AuthCluster

end Rdsctl.Ha
