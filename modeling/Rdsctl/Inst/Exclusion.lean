import Rdsctl.Lib.Threads
import Rdsctl.Inst.Lock

/-!
# One operation per instance

Any number of `lock_instance` and `unlock_instance` executions on one manager, interleaved call by
call with each other, with the calls of other controllers, and with ops of this manager that are
committed after their callers have given up. `lock_instance` looks at the map of operation locks
first and inserts into it last, and the authority lets the same holder in again, so the exclusion
rests on nobody else being half way: a run in which a lock is taken only while its check still holds
and no other execution is between its first and last call (`Undisturbed`) has one operation per
instance.
-/

namespace Rdsctl.Inst

open Ha

/-- Where an execution stands: in `lock_instance`, between the two, in `unlock_instance`. -/
inductive Phase
  | checked (name : String)
  | acquired (name : String) (fence : Fence)
  | fenced (name : String)
  | cleared (name : String)
  | holds (name : String)
  | refused (name : String)
  | unlocking (name : String)
  | released (name : String)
  | ended (name : String)
deriving DecidableEq, Repr

namespace Phase

/-- The authority has given the lock to this execution, which has not begun to give it back. -/
def live (name : String) : Phase → Bool
  | .acquired n _ | .fenced n | .cleared n | .holds n => n = name
  | _ => false

/-- The lock is taken, but not yet in the map. -/
def entering (name : String) : Phase → Bool
  | .acquired n _ | .fenced n | .cleared n => n = name
  | _ => false

/-- The fence, if there is one, is stored. -/
def armed (name : String) : Phase → Bool
  | .fenced n | .cleared n | .holds n => n = name
  | _ => false

/-- The lock is out of the map, but not yet given back. -/
def leaving (name : String) : Phase → Bool
  | .unlocking n => n = name
  | _ => false

/-- The lock is given back, but the fence is not yet removed. -/
def disarming (name : String) : Phase → Bool
  | .released n => n = name
  | _ => false

end Phase

/-- A manager with its executions. -/
structure LockSystem where
  locks : Locks
  threads : List Phase
  /-- ops whose callers gave up before they were committed -/
  abandoned : List Op
  /-- the instances whose lock was lost to another controller after it had expired -/
  lapsed : String → Bool

/-- One call, of an execution or of another controller. -/
inductive LockEvent
  /-- `lock_instance` looks at the map -/
  | check (name : String)
  | acquire (t : Nat) (call : AuthorityCall)
  | insertFence (t : Nat)
  | clearLost (t : Nat)
  | insertLock (t : Nat)
  /-- `unlock_instance` removes from the map -/
  | removeLock (t : Nat)
  | release (t : Nat) (p : Proposal)
  | removeFence (t : Nat)
  /-- an op of this manager is committed late -/
  | late (k : Nat) (c : Commit)
  /-- another controller at the lock table -/
  | otherLock (name holder : String) (leaseSecs now : Nat)
  | otherRenew (name holder : String) (leaseSecs now : Nat)
  | otherUnlock (name holder : String)
  /-- another entry of the log -/
  | entry (a : ApplyCall)

/-- The holder for whom an entry asks. -/
def opHolder : Op → Option String
  | .leaseGrant _ holder _ _ | .leaseRenew _ holder _ | .leaseRelease _ holder => some holder
  | _ => none

/-- The time an entry goes by. -/
def opTime : Op → Nat
  | .leaseGrant _ _ _ atMs => atMs
  | .leasePurge cutoffMs => cutoffMs
  | _ => 0

/-- The lock of an instance has run out at this time. The times of a lease are `u64`. -/
def Locks.expired (l : Locks) (name : String) (now : Nat) : Bool :=
  match l.authority with
  | .store locks => (locks[name]?).any fun row => row.leaseUntil ≤ now
  | .cluster sm => (sm.leases[name]?).any fun lease => satAdd lease.expireAtMs 0 ≤ now

namespace LockSystem

/-- A manager that was just started. -/
def Initial (s : LockSystem) : Prop :=
  s.locks.opLocks = ∅ ∧ s.locks.fences = ∅ ∧ s.threads = [] ∧ s.abandoned = [] ∧
    ∀ name, s.lapsed name = false

/-- Move one execution. -/
def move (s : LockSystem) (t : Nat) (p : Phase) (l : Locks) : LockSystem :=
  { s with locks := l, threads := s.threads.set t p }

/-- Remember an op whose caller gives up. -/
def giveUp (s : LockSystem) (op : Op) : Proposal → LockSystem
  | .failed _ => if s.locks.clustered then { s with abandoned := s.abandoned ++ [op] } else s
  | _ => s

/-- Another controller changes what the authority holds at some time. -/
def foreign (s : LockSystem) (now : Nat) (l : Locks) : LockSystem :=
  { s with
    locks := l
    lapsed := fun name =>
      s.lapsed name || (s.locks.owns name && !l.owns name && s.locks.expired name now) }

/-- The lock table, unless the authority is the consensus. -/
def storeLocks (s : LockSystem) : Option StoreLocks :=
  match s.locks.authority with
  | .store locks => some locks
  | .cluster _ => none

/-- The replicated state machine, unless the authority is the store. -/
def machine (s : LockSystem) : Option StateMachine :=
  match s.locks.authority with
  | .store _ => none
  | .cluster sm => some sm

/-- One call. -/
def step (s : LockSystem) : LockEvent → Option LockSystem
  | .check name =>
    some { s with
      threads := s.threads ++ [if s.locks.busy name then .refused name else .checked name] }
  | .acquire t call =>
    match s.threads[t]? with
    | some (.checked name) =>
      let op := Op.leaseGrant name s.locks.holder (s.locks.lockLease * 1000) 0
      match s.locks.acquire name call with
      | (.error _, l) => some ((s.giveUp op call.proposal).move t (.refused name) l)
      | (.ok none, l) =>
        some { s.move t (.fenced name) l with lapsed := Function.update s.lapsed name false }
      | (.ok (some fence), l) =>
        some { s.move t (.acquired name fence) l with lapsed := Function.update s.lapsed name false }
    | _ => none
  | .insertFence t =>
    match s.threads[t]? with
    | some (.acquired name fence) => some (s.move t (.fenced name) (s.locks.insertFence name fence))
    | _ => none
  | .clearLost t =>
    match s.threads[t]? with
    | some (.fenced name) => some (s.move t (.cleared name) (s.locks.clearLost name))
    | _ => none
  | .insertLock t =>
    match s.threads[t]? with
    | some (.cleared name) => some (s.move t (.holds name) (s.locks.insertLock name))
    | _ => none
  | .removeLock t =>
    match s.threads[t]? with
    | some (.holds name) => some (s.move t (.unlocking name) (s.locks.removeLock name))
    | _ => none
  | .release t p =>
    match s.threads[t]? with
    | some (.unlocking name) =>
      let s := s.giveUp (.leaseRelease name s.locks.holder) p
      some (s.move t (if s.locks.clustered then .released name else .ended name)
        (s.locks.release name p))
    | _ => none
  | .removeFence t =>
    match s.threads[t]? with
    | some (.released name) => some (s.move t (.ended name) (s.locks.removeFence name))
    | _ => none
  | .late k c =>
    match s.abandoned[k]?, s.machine with
    | some op, some sm =>
      some { s with
        locks := { s.locks with authority := .cluster (sm.after (c.entry op)) }
        abandoned := s.abandoned.eraseIdx k }
    | _, _ => none
  | .otherLock name holder leaseSecs now =>
    match s.storeLocks with
    | some locks =>
      if holder = s.locks.holder then none
      else some (s.foreign now
        { s.locks with authority := .store (locks.lockInstance name holder leaseSecs now).2 })
    | none => none
  | .otherRenew name holder leaseSecs now =>
    match s.storeLocks with
    | some locks =>
      if holder = s.locks.holder then none
      else some (s.foreign now
        { s.locks with authority := .store (locks.renewInstanceLock name holder leaseSecs now).2 })
    | none => none
  | .otherUnlock name holder =>
    match s.storeLocks with
    | some locks =>
      if holder = s.locks.holder then none
      else some (s.foreign 0 { s.locks with authority := .store (locks.unlockInstance name holder) })
    | none => none
  | .entry a =>
    match s.machine with
    | some sm =>
      if opHolder a.op = some s.locks.holder then none
      else some (s.foreign (opTime a.op) { s.locks with authority := .cluster (sm.after a) })
    | none => none

/-- No execution but `t` stands at `p`. -/
def noOther (s : LockSystem) (t : Nat) (p : Phase → Bool) : Bool :=
  (List.range s.threads.length).all fun i => i = t || !(s.threads[i]?).any p

/-- A lock that is taken is taken while the check made for it still holds and no other execution
on the instance is half way, a fence is stored when none is about to be removed, and a release that
was given up is committed when nobody has the lock. -/
def Undisturbed (_ : History LockSystem LockEvent) (s : LockSystem) : LockEvent → Prop
  | .acquire t call =>
    match s.threads[t]? with
    | some (.checked name) =>
      (s.locks.acquire name call).1.isOk = true →
        s.locks.busy name = false ∧ s.noOther t (Phase.entering name) = true ∧
          s.noOther t (Phase.leaving name) = true
    | _ => True
  | .insertFence t =>
    match s.threads[t]? with
    | some (.acquired name _) => s.noOther t (Phase.disarming name) = true
    | _ => True
  | .late k _ =>
    match s.abandoned[k]? with
    | some (.leaseRelease name _) => s.noOther s.threads.length (Phase.live name) = true
    | _ => True
  | _ => True

instance (h : History LockSystem LockEvent) (s : LockSystem) (e : LockEvent) :
    Decidable (Undisturbed h s e) := by
  unfold Undisturbed
  split
  all_goals try split
  all_goals infer_instance

/-- An operation that has locked its instance and not begun to unlock it is the only one, its
instance is in the map, the authority has the lock down to this manager unless it ran out, and in
cluster mode there is a fence. -/
def OneOperation (s : LockSystem) : Prop :=
  ∀ (t : Nat) (name : String), s.threads[t]? = some (.holds name) →
    (∀ t' : Nat, s.threads[t']? = some (.holds name) → t' = t) ∧
    s.locks.busy name = true ∧
    (s.locks.owns name = true ∨ s.lapsed name = true) ∧
    (s.locks.clustered = true → s.locks.fences.contains name = true)

end LockSystem

/-! ## What the calls do to the lock of one instance -/

section Machine

variable {sm : StateMachine} {a : ApplyCall} {me name : String}

/-- The lease of an instance is one of this holder. -/
def leaseOf (sm : StateMachine) (me name : String) : Bool :=
  (sm.leases[name]?).any fun lease => lease.holder = me

theorem leaseOf_iff : leaseOf sm me name = true ↔ ∃ l, sm.leases[name]? = some l ∧ l.holder = me := by
  unfold leaseOf
  cases sm.leases[name]? with
  | none => simp
  | some l => simp

/-- A grant to a holder takes no lease from it. -/
theorem leaseOf_after_grant {i : String} {ttlMs atMs : Nat} (hop : a.op = .leaseGrant i me ttlMs atMs)
    (h : leaseOf sm me name = true) : leaseOf (sm.after a) me name = true := by
  obtain ⟨l, hl, hme⟩ := leaseOf_iff.1 h
  rw [leaseOf_iff]
  have hturn := StateMachine.leaseTurn sm a name
  generalize (sm.after a).leases[name]? = next at hturn ⊢
  generalize StateMachine.announces name sm a = ann at hturn
  cases hturn with
  | keeps => exact ⟨l, hl, hme⟩
  | grants hop' =>
    rw [hop] at hop'
    cases hop'
    exact ⟨_, rfl, rfl⟩
  | renews hop' => rw [hop] at hop'; cases hop'
  | removes _ hop' =>
    rcases hop' with hop' | ⟨_, hop', -⟩ <;> rw [hop] at hop' <;> cases hop'

/-- A release of one instance leaves the leases of the others. -/
theorem leaseOf_after_release {i holder : String} (hop : a.op = .leaseRelease i holder)
    (hne : name ≠ i) (h : leaseOf sm me name = true) : leaseOf (sm.after a) me name = true := by
  obtain ⟨l, hl, hme⟩ := leaseOf_iff.1 h
  refine leaseOf_iff.2 ⟨l, StateMachine.Spares.kept ?_ hl, hme⟩
  rw [hop]
  exact fun heq => absurd heq.symm hne

/-- An entry of somebody else takes a lease only when it has run out. -/
theorem leaseOf_after_foreign (hop : opHolder a.op ≠ some me) (h : leaseOf sm me name = true) :
    leaseOf (sm.after a) me name = true ∨
      ∃ l, sm.leases[name]? = some l ∧ satAdd l.expireAtMs 0 ≤ opTime a.op := by
  obtain ⟨l, hl, hme⟩ := leaseOf_iff.1 h
  rw [leaseOf_iff]
  have hturn := StateMachine.leaseTurn sm a name
  generalize (sm.after a).leases[name]? = next at hturn ⊢
  generalize StateMachine.announces name sm a = ann at hturn
  cases hturn with
  | keeps => exact .inl ⟨l, hl, hme⟩
  | @grants holder _ atMs hop' _ hfree =>
    have hne : l.holder ≠ holder := by
      rintro rfl
      exact hop (by rw [hop', ← hme]; rfl)
    refine .inr ⟨l, hl, ?_⟩
    have hsafe := hfree l hl hne
    rw [hop']
    unfold satAdd at hsafe ⊢
    exact (min_le_min_right _ (Nat.add_le_add_left (Nat.zero_le _) _)).trans hsafe
  | @renews cur _ _ hcur =>
    rw [hl, Option.some.injEq] at hcur
    exact .inl ⟨_, rfl, by rw [← hcur]; exact hme⟩
  | @removes cur hcur hop' =>
    rw [hl, Option.some.injEq] at hcur
    subst hcur
    rcases hop' with hop' | ⟨cutoffMs, hop', hle⟩
    · exact absurd (by rw [hop', hme]; rfl) hop
    · refine .inr ⟨l, hl, ?_⟩
      rw [hop']
      unfold satAdd
      exact (min_le_left _ _).trans hle

/-- A grant that is accepted makes the lease one of its holder. -/
theorem leaseOf_of_grant {ttlMs atMs : Nat} (hop : a.op = .leaseGrant name me ttlMs atMs)
    (hok : (sm.outcome a).isOk = true) : leaseOf (sm.after a) me name = true :=
  leaseOf_iff.2 ⟨_, StateMachine.lease_granted hop hok, rfl⟩

end Machine

section Store

variable {locks : StoreLocks} {me holder name n : String} {leaseSecs now : Nat}

/-- The row of an instance is one of this holder. -/
def rowOf (locks : StoreLocks) (me name : String) : Bool :=
  (locks[name]?).any fun row => row.holder = me

/-- What `lock_instance` of the store does. -/
theorem StoreLocks.lockInstance_cases (locks : StoreLocks) (name holder : String)
    (leaseSecs now : Nat) :
    (locks.lockInstance name holder leaseSecs now =
        (true, locks.insert name ⟨holder, now + leaseSecs⟩) ∧
      ∀ row, locks[name]? = some row → row.holder = holder ∨ row.leaseUntil ≤ now) ∨
    locks.lockInstance name holder leaseSecs now = (false, locks) := by
  unfold lockInstance
  split
  · next hnone =>
    refine .inl ⟨rfl, fun row hrow => ?_⟩
    rw [hnone] at hrow
    cases hrow
  · next row hsome =>
    split
    · next hc =>
      refine .inl ⟨rfl, fun row' hrow => ?_⟩
      rw [hsome, Option.some.injEq] at hrow
      exact hrow ▸ hc
    · exact .inr rfl

theorem rowOf_insert {row : LockRow} :
    rowOf (locks.insert name row) me n =
      if name = n then decide (row.holder = me) else rowOf locks me n := by
  unfold rowOf
  rw [BTreeMap.getElem?_insert_ite]
  split <;> rfl

theorem rowOf_erase :
    rowOf (locks.erase name) me n = if name = n then false else rowOf locks me n := by
  unfold rowOf
  rw [BTreeMap.getElem?_erase_ite]
  split <;> rfl

/-- `lock_instance` of a holder takes no row from it. -/
theorem rowOf_lock (h : rowOf locks me n = true) :
    rowOf (locks.lockInstance name me leaseSecs now).2 me n = true := by
  rcases locks.lockInstance_cases name me leaseSecs now with ⟨heq, -⟩ | heq
  · rw [heq, rowOf_insert]
    split
    · simp
    · exact h
  · rw [heq]
    exact h

/-- `lock_instance` that succeeds makes the row one of its holder. -/
theorem rowOf_of_lock (h : (locks.lockInstance name me leaseSecs now).1 = true) :
    rowOf (locks.lockInstance name me leaseSecs now).2 me name = true := by
  rcases locks.lockInstance_cases name me leaseSecs now with ⟨heq, -⟩ | heq
  · rw [heq, rowOf_insert, if_pos rfl]
    simp
  · rw [heq] at h
    cases h

/-- `lock_instance` of another holder takes a row only when it has run out. -/
theorem rowOf_lock_foreign (h : rowOf locks me n = true) (hne : holder ≠ me) :
    rowOf (locks.lockInstance name holder leaseSecs now).2 me n = true ∨
      (locks[n]?).any (fun row => row.leaseUntil ≤ now) = true := by
  rcases locks.lockInstance_cases name holder leaseSecs now with ⟨heq, hfree⟩ | heq
  · by_cases hn : name = n
    · subst hn
      unfold rowOf at h
      rcases hrow : locks[name]? with _ | row
      · rw [hrow] at h
        cases h
      rw [hrow, Option.any_some, decide_eq_true_iff] at h
      rcases hfree row hrow with hh | hle
      · exact absurd (hh.symm.trans h) hne
      · exact .inr (by simpa using hle)
    · rw [heq, rowOf_insert, if_neg hn]
      exact .inl h
  · rw [heq]
    exact .inl h

/-- `renew_instance_lock` of another holder takes no row. -/
theorem rowOf_renew_foreign (h : rowOf locks me n = true) (hne : holder ≠ me) :
    rowOf (locks.renewInstanceLock name holder leaseSecs now).2 me n = true := by
  unfold StoreLocks.renewInstanceLock
  split
  · next row hrow =>
    split
    · next hh =>
      rw [rowOf_insert, if_neg]
      · exact h
      · rintro rfl
        rw [rowOf, hrow, Option.any_some, decide_eq_true_iff] at h
        exact hne (hh.symm.trans h)
    · exact h
  · exact h

/-- `unlock_instance` of another holder, or for another instance, takes no row. -/
theorem rowOf_unlock (h : rowOf locks me n = true) (hne : holder ≠ me ∨ name ≠ n) :
    rowOf (locks.unlockInstance name holder) me n = true := by
  unfold StoreLocks.unlockInstance
  split
  · next row hrow =>
    split
    · next hh =>
      rw [rowOf_erase, if_neg]
      · exact h
      · rintro rfl
        rw [rowOf, hrow, Option.any_some, decide_eq_true_iff] at h
        exact hne.elim (fun hne => hne (hh.symm.trans h)) fun hne => hne rfl
    · exact h
  · exact h

end Store

namespace Locks

variable {l : Locks} {name n : String} {call : AuthorityCall} {p : Proposal}

theorem owns_store {locks : StoreLocks} (h : l.authority = .store locks) :
    l.owns n = rowOf locks l.holder n := by
  unfold owns
  rw [h]
  rfl

theorem owns_cluster {sm : StateMachine} (h : l.authority = .cluster sm) :
    l.owns n = leaseOf sm l.holder n := by
  unfold owns
  rw [h]
  rfl

/-- The call to the authority changes nothing but what the authority holds. -/
theorem acquire_frame (l : Locks) (name : String) (call : AuthorityCall) :
    (l.acquire name call).2 = { l with authority := (l.acquire name call).2.authority } ∧
      (l.acquire name call).2.clustered = l.clustered := by
  unfold acquire clustered
  split <;> simp

theorem release_frame (l : Locks) (name : String) (p : Proposal) :
    l.release name p = { l with authority := (l.release name p).authority } ∧
      (l.release name p).clustered = l.clustered := by
  unfold release clustered
  split <;> simp

/-- The call to the authority takes no lock from this manager. -/
theorem owns_acquire (h : l.owns n = true) : (l.acquire name call).2.owns n = true := by
  unfold acquire
  split
  · next locks hau =>
    rw [owns_store hau] at h
    exact rowOf_lock h
  · next sm hau =>
    rw [owns_cluster hau] at h
    show leaseOf (propose sm _ call.proposal).2 l.holder n = true
    unfold propose
    split
    · exact leaseOf_after_grant rfl h
    · exact leaseOf_after_grant rfl h
    · exact h

/-- A call to the authority that succeeds has the lock put down to this manager. -/
theorem owns_of_acquire (h : (l.acquire name call).1.isOk = true) :
    (l.acquire name call).2.owns name = true := by
  unfold acquire at h ⊢
  split at h
  · next locks hau =>
    rcases hcall : locks.lockInstance name l.holder l.lockLease call.nowSecs with ⟨ok, locks'⟩
    rw [hcall] at h
    cases ok with
    | false => cases h
    | true =>
      have hrow : rowOf (locks.lockInstance name l.holder l.lockLease call.nowSecs).2 l.holder name =
          true := rowOf_of_lock (by rw [hcall])
      rwa [hcall] at hrow
  · next sm hau =>
    show leaseOf (propose sm _ call.proposal).2 l.holder name = true
    simp only [acquireLease] at h
    cases hcall : call.proposal with
    | answered c =>
      rw [hcall] at h
      simp only [propose] at h
      have hop : (c.entry (.leaseGrant name l.holder (l.lockLease * 1000) 0)).op =
          .leaseGrant name l.holder (l.lockLease * 1000) c.nowMs := rfl
      refine leaseOf_of_grant hop ?_
      cases hout : sm.outcome (c.entry (.leaseGrant name l.holder (l.lockLease * 1000) 0)) with
      | ok => rfl
      | rejected r => rw [hout] at h; cases h
      | stepAlreadyDone v => rw [hout] at h; cases h
    | unanswered c e => rw [hcall] at h; cases h
    | failed e => rw [hcall] at h; cases h

/-- Giving one lock back keeps the others. -/
theorem owns_release (hne : n ≠ name) (h : l.owns n = true) : (l.release name p).owns n = true := by
  unfold release
  split
  · next locks hau =>
    rw [owns_store hau] at h
    exact rowOf_unlock h (.inr hne.symm)
  · next sm hau =>
    rw [owns_cluster hau] at h
    show leaseOf (propose sm _ p).2 l.holder n = true
    unfold propose
    split
    · exact leaseOf_after_release rfl hne h
    · exact leaseOf_after_release rfl hne h
    · exact h

/-- Only the store gives no fence. -/
theorem clustered_of_acquire_none (h : (l.acquire name call).1 = .ok none) : l.clustered = false := by
  unfold acquire at h
  unfold clustered
  split at h
  · rfl
  · simp only at h
    split at h <;> cases h

@[simp] theorem busy_insertLock :
    (l.insertLock name).busy n = true ↔ name = n ∨ l.busy n = true := by
  simp [busy, insertLock, Std.ExtTreeMap.contains_insert]

@[simp] theorem busy_removeLock :
    (l.removeLock name).busy n = true ↔ name ≠ n ∧ l.busy n = true := by
  simp [busy, removeLock, Std.ExtTreeMap.contains_erase]

@[simp] theorem fence_insertFence {fence : Fence} :
    (l.insertFence name fence).fences.contains n = true ↔ name = n ∨ l.fences.contains n = true := by
  simp [insertFence, Std.ExtTreeMap.contains_insert]

@[simp] theorem fence_removeFence :
    (l.removeFence name).fences.contains n = true ↔ name ≠ n ∧ l.fences.contains n = true := by
  simp [removeFence, Std.ExtTreeMap.contains_erase]

end Locks

/-! ## The invariant -/

/-- Two executions are not both in possession of an instance, and neither is in possession of one
that the other is giving back. -/
def Compatible (p q : Phase) : Prop := ∀ name,
  ¬ (p.live name = true ∧ q.live name = true) ∧
  ¬ (p.live name = true ∧ q.leaving name = true) ∧ ¬ (p.leaving name = true ∧ q.live name = true) ∧
  ¬ (p.armed name = true ∧ q.disarming name = true) ∧
  ¬ (p.disarming name = true ∧ q.armed name = true)

/-- What the locks show of an execution. -/
structure Standing (l : Locks) (lapsed : String → Bool) (p : Phase) : Prop where
  busy : ∀ name, p = .holds name → l.busy name = true
  owns : ∀ name, p.live name = true → l.owns name = true ∨ lapsed name = true
  fenced : ∀ name, l.clustered = true → p.armed name = true → l.fences.contains name = true
  clustered : ∀ name, p.disarming name = true → l.clustered = true

/-- An execution that has nothing of any instance. -/
def Phase.idle (p : Phase) : Prop := ∀ name,
  p ≠ .holds name ∧ p.live name = false ∧ p.leaving name = false ∧ p.armed name = false ∧
    p.disarming name = false

theorem Phase.live_of_armed {p : Phase} {name : String} (h : p.armed name = true) :
    p.live name = true := by
  cases p <;> first | exact h | cases h

theorem Phase.idle_checked (n : String) : (Phase.checked n).idle :=
  fun _ => ⟨nofun, rfl, rfl, rfl, rfl⟩

theorem Phase.idle_refused (n : String) : (Phase.refused n).idle :=
  fun _ => ⟨nofun, rfl, rfl, rfl, rfl⟩

theorem Phase.idle_ended (n : String) : (Phase.ended n).idle :=
  fun _ => ⟨nofun, rfl, rfl, rfl, rfl⟩

theorem Phase.idle.compatible {p : Phase} (h : p.idle) (q : Phase) :
    Compatible p q ∧ Compatible q p := by
  refine ⟨fun name => ?_, fun name => ?_⟩ <;> obtain ⟨-, h1, h2, h3, h4⟩ := h name <;>
    simp [h1, h2, h3, h4]

/-- What it takes for two executions to stand together. -/
theorem Compatible.of {p q : Phase}
    (hlive : ∀ n, p.live n = true → q.live n = false ∧ q.leaving n = false)
    (hleaving : ∀ n, p.leaving n = true → q.live n = false)
    (harmed : ∀ n, p.armed n = true → q.disarming n = false)
    (hdisarming : ∀ n, p.disarming n = true → q.armed n = false) :
    Compatible p q ∧ Compatible q p := by
  refine ⟨fun n => ?_, fun n => ?_⟩ <;> grind

theorem Phase.idle.standing {p : Phase} (h : p.idle) (l : Locks) (lapsed : String → Bool) :
    Standing l lapsed p where
  busy name hp := absurd hp (h name).1
  owns name hp := by rw [(h name).2.1] at hp; cases hp
  fenced name _ hp := by rw [(h name).2.2.2.1] at hp; cases hp
  clustered name hp := by rw [(h name).2.2.2.2] at hp; cases hp

/-- An execution stands where it stood when the locks show at least as much of its instance. -/
theorem Standing.mono {l l' : Locks} {lapsed lapsed' : String → Bool} {p : Phase}
    (h : Standing l lapsed p) (hc : l'.clustered = l.clustered)
    (hb : ∀ name, p = .holds name → l.busy name = true → l'.busy name = true)
    (ho : ∀ name, p.live name = true → l.owns name = true ∨ lapsed name = true →
      l'.owns name = true ∨ lapsed' name = true)
    (hf : ∀ name, p.armed name = true → l.fences.contains name = true →
      l'.fences.contains name = true) : Standing l' lapsed' p where
  busy name hp := hb name hp (h.busy name hp)
  owns name hp := ho name hp (h.owns name hp)
  fenced name hx hp := hf name hp (h.fenced name (hc ▸ hx) hp)
  clustered name hp := hc ▸ h.clustered name hp

namespace LockSystem

variable {s s' : LockSystem}

/-- The invariant of the undisturbed runs. -/
structure Inv (s : LockSystem) : Prop where
  apart : Apart Compatible s.threads
  standing : ∀ p ∈ s.threads, Standing s.locks s.lapsed p
  abandoned : ∀ op ∈ s.abandoned, ∃ name,
    op = .leaseGrant name s.locks.holder (s.locks.lockLease * 1000) 0 ∨
      op = .leaseRelease name s.locks.holder

theorem Inv.initial (h : s.Initial) : Inv s := by
  obtain ⟨-, -, hts, hab, -⟩ := h
  refine ⟨?_, ?_, ?_⟩
  · rw [hts]
    exact Apart.nil
  · rw [hts]
    simp
  · rw [hab]
    simp

/-- An execution moves: it may stand beside the others, it stands on the new locks, and the others
still do. -/
theorem Inv.move (hi : Inv s) {t : Nat} {p : Phase} {l : Locks} {lapsed : String → Bool}
    (hl : l.holder = s.locks.holder ∧ l.lockLease = s.locks.lockLease)
    (hnew : ∀ (j : Nat) (q : Phase), j ≠ t → s.threads[j]? = some q →
      Compatible p q ∧ Compatible q p)
    (hp : Standing l lapsed p)
    (hothers : ∀ (j : Nat) (q : Phase), j ≠ t → s.threads[j]? = some q → Standing l lapsed q) :
    Inv { s.move t p l with lapsed := lapsed } where
  apart := hi.apart.set t hnew
  standing := forall_mem_set hp hothers
  abandoned := by
    show ∀ op ∈ s.abandoned, ∃ name, op = .leaseGrant name l.holder (l.lockLease * 1000) 0 ∨
      op = .leaseRelease name l.holder
    rw [hl.1, hl.2]
    exact hi.abandoned

theorem Inv.giveUp (hi : Inv s) {op : Op} {p : Proposal}
    (hop : ∃ name, op = .leaseGrant name s.locks.holder (s.locks.lockLease * 1000) 0 ∨
      op = .leaseRelease name s.locks.holder) : Inv (s.giveUp op p) := by
  unfold LockSystem.giveUp
  split
  · split
    · refine ⟨hi.apart, hi.standing, fun o ho => ?_⟩
      rcases List.mem_append.1 ho with ho | ho
      · exact hi.abandoned o ho
      · exact List.mem_singleton.1 ho ▸ hop
    · exact hi
  · exact hi

@[simp] theorem giveUp_threads (s : LockSystem) (op : Op) (p : Proposal) :
    (s.giveUp op p).threads = s.threads := by
  unfold LockSystem.giveUp
  split
  · split <;> rfl
  · rfl

@[simp] theorem giveUp_locks (s : LockSystem) (op : Op) (p : Proposal) :
    (s.giveUp op p).locks = s.locks := by
  unfold LockSystem.giveUp
  split
  · split <;> rfl
  · rfl

@[simp] theorem giveUp_lapsed (s : LockSystem) (op : Op) (p : Proposal) :
    (s.giveUp op p).lapsed = s.lapsed := by
  unfold LockSystem.giveUp
  split
  · split <;> rfl
  · rfl

theorem noOther_iff {t : Nat} {P : Phase → Bool} :
    s.noOther t P = true ↔
      ∀ (j : Nat) (q : Phase), j ≠ t → s.threads[j]? = some q → P q = false := by
  unfold noOther
  simp only [List.all_eq_true, List.mem_range, Bool.or_eq_true, decide_eq_true_eq,
    Bool.not_eq_true']
  constructor
  · intro h j q hj hq
    have hlt : j < s.threads.length := (List.getElem?_eq_some_iff.1 hq).1
    rcases h j hlt with hj' | hnone
    · exact absurd hj' hj
    · rw [hq, Option.any_some] at hnone
      exact hnone
  · intro h j hlt
    by_cases hj : j = t
    · exact .inl hj
    · refine .inr ?_
      rw [List.getElem?_eq_getElem hlt, Option.any_some]
      exact h j _ hj (List.getElem?_eq_getElem hlt)

/-- Another controller takes a lock of this manager only when it has run out. -/
theorem Inv.foreign (hi : Inv s) {l : Locks} {now : Nat}
    (hl : l = { s.locks with authority := l.authority }) (hc : l.clustered = s.locks.clustered)
    (ho : ∀ name, s.locks.owns name = true → l.owns name = true ∨ s.locks.expired name now = true) :
    Inv (s.foreign now l) := by
  refine ⟨hi.apart, fun p hp => ?_, ?_⟩
  · refine (hi.standing p hp).mono hc (fun name _ hb => ?_) (fun name _ hx => ?_) (fun name _ hf => ?_)
    · rw [hl]
      exact hb
    · show l.owns name = true ∨ (s.lapsed name || (s.locks.owns name && !l.owns name &&
        s.locks.expired name now)) = true
      rcases hx with hx | hx
      · rcases ho name hx with h | h
        · exact .inl h
        · cases hn : l.owns name with
          | true => exact .inl rfl
          | false => simp [hx, h]
      · simp [hx]
    · rw [hl]
      exact hf
  · show ∀ op ∈ s.abandoned, ∃ name, op = .leaseGrant name l.holder (l.lockLease * 1000) 0 ∨
      op = .leaseRelease name l.holder
    rw [hl]
    exact hi.abandoned

/-! ## One call keeps the invariant -/

variable {t : Nat} {name : String}

theorem Inv.check (hi : Inv s) (name : String) :
    Inv { s with
      threads := s.threads ++ [if s.locks.busy name then .refused name else .checked name] } := by
  have hidle : (if s.locks.busy name then Phase.refused name else .checked name).idle := by
    split
    · exact Phase.idle_refused name
    · exact Phase.idle_checked name
  refine ⟨hi.apart.append fun q _ => hidle.compatible q, fun q hq => ?_, hi.abandoned⟩
  rcases List.mem_append.1 hq with hq | hq
  · exact hi.standing q hq
  · rw [List.mem_singleton.1 hq]
    exact hidle.standing _ _

/-- The call to the authority leaves everyone where they stand. -/
theorem Inv.standing_acquire (hi : Inv s) {call : AuthorityCall} {lapsed : String → Bool}
    (hlap : ∀ n, s.lapsed n = true → n = name ∨ lapsed n = true)
    (hname : lapsed name = true ∨ (s.locks.acquire name call).2.owns name = true) {q : Phase}
    (hq : q ∈ s.threads) : Standing (s.locks.acquire name call).2 lapsed q := by
  obtain ⟨hl, hc⟩ := s.locks.acquire_frame name call
  refine (hi.standing q hq).mono hc (fun n _ hb => ?_) (fun n _ hx => ?_) (fun n _ hf => ?_)
  · rw [hl]
    exact hb
  · rcases hx with hx | hx
    · exact .inl (Locks.owns_acquire hx)
    · rcases hlap n hx with rfl | hx
      · exact hname.symm
      · exact .inr hx
  · rw [hl]
    exact hf

theorem Inv.acquire (hi : Inv s) {call : AuthorityCall}
    (hg : Undisturbed h s (.acquire t call)) (hs : s.step (.acquire t call) = some s') :
    Inv s' := by
  simp only [step] at hs
  split at hs
  · next name ht =>
    have hframe := s.locks.acquire_frame name call
    have hhold : (s.locks.acquire name call).2.holder = s.locks.holder ∧
        (s.locks.acquire name call).2.lockLease = s.locks.lockLease := by
      rw [hframe.1]
      exact ⟨rfl, rfl⟩
    have hbusy : ∀ n, (s.locks.acquire name call).2.busy n = s.locks.busy n := by
      intro n
      rw [hframe.1]
      rfl
    have hfences : ∀ n, (s.locks.acquire name call).2.fences.contains n =
        s.locks.fences.contains n := by
      intro n
      rw [hframe.1]
    have hother : ∀ (j : Nat) (q : Phase), j ≠ t → s.threads[j]? = some q → q ∈ s.threads :=
      fun j q _ hq => List.mem_of_getElem? hq
    -- what the guard gives when the call succeeds
    have hapart : (s.locks.acquire name call).1.isOk = true → ∀ (j : Nat) (q : Phase), j ≠ t →
        s.threads[j]? = some q → q.live name = false ∧ q.leaving name = false := by
      intro hok j q hj hq
      simp only [Undisturbed, ht] at hg
      obtain ⟨hfree, hent, hlea⟩ := hg hok
      refine ⟨?_, noOther_iff.1 hlea j q hj hq⟩
      have hnot := noOther_iff.1 hent j q hj hq
      cases q with
      | holds n =>
        by_contra hlive
        have hn : n = name := by simpa [Phase.live] using hlive
        subst hn
        have := (hi.standing _ (hother j _ hj hq)).busy n rfl
        rw [hfree] at this
        cases this
      | _ => exact hnot
    split at hs
    · next e l heq =>
      rw [Option.some.injEq] at hs
      subst hs
      have hl : l = (s.locks.acquire name call).2 := by rw [heq]
      subst hl
      refine (hi.giveUp ⟨name, .inl rfl⟩).move (by rw [giveUp_locks]; exact hhold)
        (fun j q _ _ => (Phase.idle_refused name).compatible q)
        ((Phase.idle_refused name).standing _ _) fun j q hj hq => ?_
      rw [giveUp_threads] at hq
      rw [giveUp_lapsed]
      exact (hi.standing q (hother j q hj hq)).mono hframe.2 (fun n _ hb => (hbusy n).trans hb)
        (fun n _ hx => hx.imp Locks.owns_acquire id) (fun n _ hf => (hfences n).trans hf)
    · next l heq =>
      rw [Option.some.injEq] at hs
      subst hs
      have hl : l = (s.locks.acquire name call).2 := by rw [heq]
      have hok : (s.locks.acquire name call).1.isOk = true := by rw [heq]; rfl
      have hstore := Locks.clustered_of_acquire_none (by rw [heq])
      subst hl
      have howned := Locks.owns_of_acquire hok
      refine hi.move hhold (fun j q hj hq => ?_) ?_ fun j q hj hq => ?_
      · obtain ⟨hlive, hlea⟩ := hapart hok j q hj hq
        have hdis : ∀ n, q.disarming n = false := by
          intro n
          cases hd : q.disarming n with
          | false => rfl
          | true => rw [(hi.standing q (hother j q hj hq)).clustered n hd] at hstore; cases hstore
        refine Compatible.of (fun n hn => ?_) nofun (fun n _ => hdis n) nofun
        obtain rfl : name = n := by simpa [Phase.live] using hn
        exact ⟨hlive, hlea⟩
      · refine ⟨nofun, fun n hn => .inl ?_, fun n hc => ?_, nofun⟩
        · have hn : name = n := by simpa [Phase.live] using hn
          exact hn ▸ howned
        · rw [hframe.2, hstore] at hc
          cases hc
      · refine hi.standing_acquire (fun n hn => ?_) (.inr howned) (hother j q hj hq)
        by_cases hn' : n = name
        · exact .inl hn'
        · exact .inr (by rw [Function.update_of_ne hn']; exact hn)
    · next fence l heq =>
      rw [Option.some.injEq] at hs
      subst hs
      have hl : l = (s.locks.acquire name call).2 := by rw [heq]
      have hok : (s.locks.acquire name call).1.isOk = true := by rw [heq]; rfl
      subst hl
      have howned := Locks.owns_of_acquire hok
      refine hi.move hhold (fun j q hj hq => ?_) ?_ fun j q hj hq => ?_
      · obtain ⟨hlive, hlea⟩ := hapart hok j q hj hq
        refine Compatible.of (fun n hn => ?_) nofun nofun nofun
        obtain rfl : name = n := by simpa [Phase.live] using hn
        exact ⟨hlive, hlea⟩
      · refine ⟨nofun, fun n hn => .inl ?_, nofun, nofun⟩
        obtain rfl : name = n := by simpa [Phase.live] using hn
        exact howned
      · refine hi.standing_acquire (fun n hn => ?_) (.inr howned) (hother j q hj hq)
        by_cases hn' : n = name
        · exact .inl hn'
        · exact .inr (by rw [Function.update_of_ne hn']; exact hn)
  · cases hs

/-- Another execution may stand beside this one. -/
theorem Inv.other (hi : Inv s) {p : Phase} (ht : s.threads[t]? = some p) {j : Nat} {q : Phase}
    (hj : j ≠ t) (hq : s.threads[j]? = some q) : Compatible p q ∧ Standing s.locks s.lapsed q :=
  ⟨hi.apart t j p q hj.symm ht hq, hi.standing q (List.mem_of_getElem? hq)⟩

theorem Inv.insertFence (hi : Inv s) (hg : Undisturbed h s (.insertFence t))
    (hs : s.step (.insertFence t) = some s') : Inv s' := by
  simp only [step] at hs
  split at hs
  · next name fence ht =>
    cases hs
    simp only [Undisturbed, ht] at hg
    have hself := hi.standing _ (List.mem_of_getElem? ht)
    refine hi.move ⟨rfl, rfl⟩ (fun j q hj hq => ?_) ?_ fun j q hj hq => ?_
    · have hcompat := (hi.other ht hj hq).1
      have hdis := noOther_iff.1 hg j q hj hq
      refine Compatible.of (fun n hn => ?_) nofun (fun n hn => ?_) nofun
      · obtain rfl : name = n := by simpa [Phase.live] using hn
        have hlive : (Phase.acquired name fence).live name = true := by simp [Phase.live]
        obtain ⟨h1, h2, -⟩ := hcompat name
        exact ⟨Bool.eq_false_iff.2 fun hc => h1 ⟨hlive, hc⟩,
          Bool.eq_false_iff.2 fun hc => h2 ⟨hlive, hc⟩⟩
      · obtain rfl : name = n := by simpa [Phase.armed] using hn
        exact hdis
    · refine ⟨nofun, fun n hn => hself.owns n hn, fun n _ hn => ?_, nofun⟩
      obtain rfl : name = n := by simpa [Phase.armed] using hn
      exact Locks.fence_insertFence.2 (.inl rfl)
    · exact (hi.other ht hj hq).2.mono rfl (fun n _ hb => hb) (fun n _ hx => hx)
        fun n _ hf => Locks.fence_insertFence.2 (.inr hf)
  · cases hs

theorem Inv.clearLost (hi : Inv s) (hs : s.step (.clearLost t) = some s') : Inv s' := by
  simp only [step] at hs
  split at hs
  · next name ht =>
    cases hs
    have hself := hi.standing _ (List.mem_of_getElem? ht)
    refine hi.move ⟨rfl, rfl⟩ (fun j q hj hq => ?_) ?_ fun j q hj hq => ?_
    · have hq' : Compatible (.fenced name) q ∧ Compatible q (.fenced name) :=
        ⟨hi.apart t j _ q hj.symm ht hq, hi.apart j t q _ hj hq ht⟩
      exact hq'
    · exact ⟨nofun, fun n hn => hself.owns n hn, fun n hc hn => hself.fenced n hc hn, nofun⟩
    · exact (hi.other ht hj hq).2.mono rfl (fun n _ hb => hb) (fun n _ hx => hx) fun n _ hf => hf
  · cases hs

theorem Inv.insertLock (hi : Inv s) (hs : s.step (.insertLock t) = some s') : Inv s' := by
  simp only [step] at hs
  split at hs
  · next name ht =>
    cases hs
    have hself := hi.standing _ (List.mem_of_getElem? ht)
    refine hi.move ⟨rfl, rfl⟩ (fun j q hj hq => ?_) ?_ fun j q hj hq => ?_
    · have hq' : Compatible (.cleared name) q ∧ Compatible q (.cleared name) :=
        ⟨hi.apart t j _ q hj.symm ht hq, hi.apart j t q _ hj hq ht⟩
      exact hq'
    · refine ⟨fun n hn => ?_, fun n hn => hself.owns n hn, fun n hc hn => hself.fenced n hc hn, nofun⟩
      cases hn
      exact Locks.busy_insertLock.2 (.inl rfl)
    · exact (hi.other ht hj hq).2.mono rfl (fun n _ hb => Locks.busy_insertLock.2 (.inr hb))
        (fun n _ hx => hx) fun n _ hf => hf
  · cases hs

theorem Inv.removeLock (hi : Inv s) (hs : s.step (.removeLock t) = some s') : Inv s' := by
  simp only [step] at hs
  split at hs
  · next name ht =>
    cases hs
    have hlive : (Phase.holds name).live name = true := by simp [Phase.live]
    refine hi.move ⟨rfl, rfl⟩ (fun j q hj hq => ?_) ⟨nofun, nofun, nofun, nofun⟩ fun j q hj hq => ?_
    · refine Compatible.of nofun (fun n hn => ?_) nofun nofun
      obtain rfl : name = n := by simpa [Phase.leaving] using hn
      exact Bool.eq_false_iff.2 fun hc => ((hi.other ht hj hq).1 name).1 ⟨hlive, hc⟩
    · obtain ⟨hcompat, hstand⟩ := hi.other ht hj hq
      refine hstand.mono rfl (fun n hqn hb => ?_) (fun n _ hx => hx) fun n _ hf => hf
      refine Locks.busy_removeLock.2 ⟨?_, hb⟩
      rintro rfl
      exact (hcompat name).1 ⟨hlive, by simp [hqn, Phase.live]⟩
  · cases hs

theorem Inv.release (hi : Inv s) {p : Proposal} (hs : s.step (.release t p) = some s') :
    Inv s' := by
  simp only [step, giveUp_locks] at hs
  split at hs
  · next name ht =>
    cases hs
    have hleave : (Phase.unlocking name).leaving name = true := by simp [Phase.leaving]
    obtain ⟨hl, hc⟩ := s.locks.release_frame name p
    have hhold : (s.locks.release name p).holder = s.locks.holder ∧
        (s.locks.release name p).lockLease = s.locks.lockLease := by
      rw [hl]
      exact ⟨rfl, rfl⟩
    have hbusy : ∀ n, (s.locks.release name p).busy n = s.locks.busy n := by
      intro n
      rw [hl]
      rfl
    have hfences : ∀ n, (s.locks.release name p).fences.contains n = s.locks.fences.contains n := by
      intro n
      rw [hl]
    have hnot : ∀ (j : Nat) (q : Phase), j ≠ t → s.threads[j]? = some q → q.live name = false :=
      fun j q hj hq =>
        Bool.eq_false_iff.2 fun hq' => ((hi.other ht hj hq).1 name).2.2.1 ⟨hleave, hq'⟩
    have hnext : (if s.locks.clustered then Phase.released name else .ended name) =
          .ended name ∨
        s.locks.clustered = true ∧
          (if s.locks.clustered then Phase.released name else .ended name) = .released name := by
      cases s.locks.clustered with
      | false => exact .inl rfl
      | true => exact .inr ⟨rfl, rfl⟩
    generalize (if s.locks.clustered then Phase.released name else .ended name) = next at hnext ⊢
    refine (hi.giveUp ⟨name, .inr rfl⟩).move (by rw [giveUp_locks]; exact hhold)
      (fun j q hj hq => ?_) ?_ fun j q hj hq => ?_
    · rw [giveUp_threads] at hq
      have hlive := hnot j q hj hq
      rcases hnext with rfl | ⟨-, rfl⟩
      · exact (Phase.idle_ended name).compatible q
      · refine Compatible.of nofun nofun nofun fun n hn => ?_
        obtain rfl : name = n := by simpa [Phase.disarming] using hn
        exact Bool.eq_false_iff.2 fun ha => by rw [Phase.live_of_armed ha] at hlive; cases hlive
    · rcases hnext with rfl | ⟨hclu, rfl⟩
      · exact (Phase.idle_ended name).standing _ _
      · exact ⟨nofun, nofun, nofun, fun _ _ => hc.trans hclu⟩
    · rw [giveUp_threads] at hq
      rw [giveUp_lapsed]
      have hlive := hnot j q hj hq
      refine (hi.other ht hj hq).2.mono hc (fun n _ hb => (hbusy n).trans hb) (fun n hn hx => ?_)
        fun n _ hf => (hfences n).trans hf
      refine hx.imp (Locks.owns_release ?_) id
      rintro rfl
      rw [hlive] at hn
      cases hn
  · cases hs

theorem Inv.removeFence (hi : Inv s) (hs : s.step (.removeFence t) = some s') : Inv s' := by
  simp only [step] at hs
  split at hs
  · next name ht =>
    cases hs
    have hdis : (Phase.released name).disarming name = true := by simp [Phase.disarming]
    refine hi.move ⟨rfl, rfl⟩ (fun j q _ _ => (Phase.idle_ended name).compatible q)
      ((Phase.idle_ended name).standing _ _) fun j q hj hq => ?_
    obtain ⟨hcompat, hstand⟩ := hi.other ht hj hq
    refine hstand.mono rfl (fun n _ hb => hb) (fun n _ hx => hx) fun n hn hf => ?_
    refine Locks.fence_removeFence.2 ⟨?_, hf⟩
    rintro rfl
    exact (hcompat name).2.2.2.2 ⟨hdis, hn⟩
  · cases hs

theorem Inv.late (hi : Inv s) {k : Nat} {c : Commit} (hg : Undisturbed h s (.late k c))
    (hs : s.step (.late k c) = some s') : Inv s' := by
  simp only [step] at hs
  split at hs
  · next op sm hop hsm =>
    cases hs
    have hau : s.locks.authority = .cluster sm := by
      unfold machine at hsm
      split at hsm
      · cases hsm
      · next h => rw [h, Option.some.inj hsm]
    refine ⟨hi.apart, fun q hq => ?_, fun o ho => hi.abandoned o (List.mem_of_mem_eraseIdx ho)⟩
    refine (hi.standing q hq).mono (by simp [Locks.clustered, hau]) (fun n _ hb => hb)
      (fun n hn hx => ?_) fun n _ hf => hf
    refine hx.imp (fun hx => ?_) id
    rw [Locks.owns_cluster hau] at hx
    show leaseOf (sm.after (c.entry op)) s.locks.holder n = true
    obtain ⟨name, rfl | rfl⟩ := hi.abandoned op (List.mem_of_getElem? hop)
    · exact leaseOf_after_grant rfl hx
    · refine leaseOf_after_release rfl ?_ hx
      rintro rfl
      simp only [Undisturbed, hop] at hg
      obtain ⟨j, hj⟩ := List.mem_iff_getElem?.1 hq
      have hlt : j < s.threads.length := (List.getElem?_eq_some_iff.1 hj).1
      rw [noOther_iff.1 hg j q (Nat.ne_of_lt hlt) hj] at hn
      cases hn
  · cases hs

/-- The calls of other controllers. -/
theorem Inv.others (hi : Inv s) {e : LockEvent}
    (he : (∃ n hl k w, e = .otherLock n hl k w) ∨ (∃ n hl k w, e = .otherRenew n hl k w) ∨
      (∃ n hl, e = .otherUnlock n hl) ∨ ∃ a, e = .entry a) (hs : s.step e = some s') : Inv s' := by
  have hstore : ∀ {locks : StoreLocks}, s.storeLocks = some locks →
      s.locks.authority = .store locks := by
    intro locks hl
    unfold storeLocks at hl
    split at hl
    · next h => rw [h, Option.some.inj hl]
    · cases hl
  rcases he with ⟨n, hl, k, w, rfl⟩ | ⟨n, hl, k, w, rfl⟩ | ⟨n, hl, rfl⟩ | ⟨a, rfl⟩ <;>
    simp only [step] at hs <;> split at hs
  · next locks hlocks =>
    have hau := hstore hlocks
    split at hs
    · cases hs
    · next hne =>
      cases hs
      refine hi.foreign rfl (by simp [Locks.clustered, hau]) fun m hm => ?_
      rw [Locks.owns_store hau] at hm
      refine (rowOf_lock_foreign hm hne).imp id fun hx => ?_
      unfold Locks.expired
      rw [hau]
      exact hx
  · cases hs
  · next locks hlocks =>
    have hau := hstore hlocks
    split at hs
    · cases hs
    · next hne =>
      cases hs
      refine hi.foreign rfl (by simp [Locks.clustered, hau]) fun m hm => .inl ?_
      rw [Locks.owns_store hau] at hm
      exact rowOf_renew_foreign hm hne
  · cases hs
  · next locks hlocks =>
    have hau := hstore hlocks
    split at hs
    · cases hs
    · next hne =>
      cases hs
      refine hi.foreign rfl (by simp [Locks.clustered, hau]) fun m hm => .inl ?_
      rw [Locks.owns_store hau] at hm
      exact rowOf_unlock hm (.inl hne)
  · cases hs
  · next sm hsm =>
    have hau : s.locks.authority = .cluster sm := by
      unfold machine at hsm
      split at hsm
      · cases hsm
      · next h => rw [h, Option.some.inj hsm]
    split at hs
    · cases hs
    · next hne =>
      cases hs
      refine hi.foreign rfl (by simp [Locks.clustered, hau]) fun m hm => ?_
      rw [Locks.owns_cluster hau] at hm
      refine (leaseOf_after_foreign hne hm).imp id ?_
      rintro ⟨l, hl, hle⟩
      unfold Locks.expired
      rw [hau]
      simp [hl, hle]
  · cases hs

theorem Inv.step (hi : Inv s) {e : LockEvent} (hg : Undisturbed h s e)
    (hs : s.step e = some s') : Inv s' := by
  cases e with
  | check name =>
    cases hs
    exact hi.check name
  | acquire t call => exact hi.acquire hg hs
  | insertFence t => exact hi.insertFence hg hs
  | clearLost t => exact hi.clearLost hs
  | insertLock t => exact hi.insertLock hs
  | removeLock t => exact hi.removeLock hs
  | release t p => exact hi.release hs
  | removeFence t => exact hi.removeFence hs
  | late k c => exact hi.late hg hs
  | otherLock n hl k w => exact hi.others (.inl ⟨n, hl, k, w, rfl⟩) hs
  | otherRenew n hl k w => exact hi.others (.inr (.inl ⟨n, hl, k, w, rfl⟩)) hs
  | otherUnlock n hl => exact hi.others (.inr (.inr (.inl ⟨n, hl, rfl⟩))) hs
  | entry a => exact hi.others (.inr (.inr (.inr ⟨a, rfl⟩))) hs

theorem Inv.oneOperation (hi : Inv s) : OneOperation s := by
  intro t name ht
  have hstand := hi.standing _ (List.mem_of_getElem? ht)
  have hlive : (Phase.holds name).live name = true := by simp [Phase.live]
  refine ⟨fun t' ht' => ?_, hstand.busy name rfl, hstand.owns name hlive,
    fun hc => hstand.fenced name hc (by simp [Phase.armed])⟩
  exact hi.apart.eq_of_not ht' ht fun hc => (hc name).1 ⟨hlive, hlive⟩

/-- **One operation per instance.** In every undisturbed run a locked instance has one operation,
with its entry in the map, its lock at the authority and its fence. -/
theorem one_operation {h : History LockSystem LockEvent}
    (hr : Run step Undisturbed Initial h s) : OneOperation s := by
  have hinv : Inv s := by
    refine Run.invariant (I := fun _ s => Inv s) (fun s h0 => .initial h0) ?_ hr
    intro h s e s' _ hi hg hs
    exact hi.step hg hs
  exact hinv.oneOperation

/-- A manager of a cluster that was just started. -/
def fresh : LockSystem :=
  ⟨⟨∅, ∅, ∅, "node-1", 60, .cluster (.new 0 1000)⟩, [], [], fun _ => false⟩

theorem fresh_initial : Initial fresh := ⟨rfl, rfl, rfl, rfl, fun _ => rfl⟩

/-- A lock, a second one that is refused, and the unlock. -/
def lockTwice : List LockEvent :=
  [.check "db", .acquire 0 ⟨0, .answered ⟨1, 1, 5⟩⟩, .insertFence 0, .clearLost 0, .insertLock 0,
    .check "db"]

/-- A second lock whose check comes before the first one's insert. -/
def lockBetween : List LockEvent :=
  [.check "db", .check "db", .acquire 0 ⟨0, .answered ⟨1, 1, 5⟩⟩, .insertFence 0, .clearLost 0,
    .insertLock 0, .acquire 1 ⟨0, .answered ⟨1, 2, 6⟩⟩, .insertFence 1, .clearLost 1, .insertLock 1]

/-- The second lock is refused while the first operation has its own. -/
theorem one_operation_second : ∃ h s, Run step Undisturbed Initial h s ∧
    s.threads = [.holds "db", .refused "db"] ∧ OneOperation s := by
  have hf : (follow step Undisturbed lockTwice [] fresh).map
      (fun r => decide (r.2.threads = [.holds "db", .refused "db"])) = some true := by
    decide +kernel
  obtain ⟨⟨h, s⟩, hf, hb⟩ := Option.map_eq_some_iff.1 hf
  have hr : Run step Undisturbed Initial h s := Run.follow (.start fresh_initial) hf
  exact ⟨h, s, hr, of_decide_eq_true hb, one_operation hr⟩

/-- Both executions get the lock, as the authority lets the same holder in again. -/
theorem two_operations :
    ¬ ∀ h s, Run step (fun _ _ _ => True) Initial h s → OneOperation s := by
  intro hall
  have hf : (follow step (fun _ _ _ => True) lockBetween [] fresh).map
      (fun r => decide (r.2.threads = [.holds "db", .holds "db"])) = some true := by
    decide +kernel
  obtain ⟨⟨h, s⟩, hf, hb⟩ := Option.map_eq_some_iff.1 hf
  have hthreads : s.threads = [.holds "db", .holds "db"] := of_decide_eq_true hb
  have hone := hall h s (Run.follow (.start fresh_initial) hf)
  have hsame : 1 = 0 := (hone 0 "db" (by rw [hthreads]; rfl)).1 1 (by rw [hthreads]; rfl)
  cases hsame

end LockSystem

end Rdsctl.Inst
