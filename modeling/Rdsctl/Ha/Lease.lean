import Rdsctl.Lib.Run
import Rdsctl.Ha.Fence
import Rdsctl.Ha.Node

/-!
# Instance leases along the log

What the entries of the log do to the lease of one instance (`LeaseTurn`), and what follows for runs
of the state machine: a lease is taken over only when it has expired on every clock, and removing
expired leases changes no later decision. Both rest on times that come with the entries. A renewal
by a slower clock takes an expiry back, and a raised skew bound or the renewal of a removed lease
tells the two runs apart.
-/

namespace Rdsctl.Ha

/-- The op is one on leases. -/
def Op.isLease : Op → Bool
  | .leaseGrant .. | .leaseRenew .. | .leaseRelease .. | .leasePurge .. => true
  | _ => false

namespace StateMachine

/-- The entry is a `LeaseGrant` or `LeaseRenew` of the instance, and is accepted: the caller is told
the lease. -/
def announces (inst : String) (sm : StateMachine) (a : ApplyCall) : Bool :=
  match a.op with
  | .leaseGrant i _ _ _ => i == inst && (sm.outcome a).isOk
  | .leaseRenew i _ _ => i == inst && (sm.outcome a).isOk
  | _ => false

/-- The checks of a `LeaseGrant` that do not look at the present lease. -/
def grantValid (sm : StateMachine) (inst holder : String) (ttlMs : Nat) : Prop :=
  (trimIsEmpty inst || trimIsEmpty holder) = false ∧ ttlMs ≠ 0 ∧ satMul sm.maxSkewMs 10 ≤ ttlMs

instance (sm : StateMachine) (inst holder : String) (ttlMs : Nat) :
    Decidable (sm.grantValid inst holder ttlMs) := inferInstanceAs (Decidable (_ ∧ _ ∧ _))

/-- No holder but its own has to wait for the lease. -/
def free (sm : StateMachine) (inst holder : String) (atMs : Nat) : Prop :=
  ∀ old, sm.leases[inst]? = some old → old.holder ≠ holder →
    satAdd old.expireAtMs sm.maxSkewMs ≤ atMs

/-- What an entry does to the lease of an instance, and whether it announces one. -/
inductive LeaseTurn (sm : StateMachine) (a : ApplyCall) (inst : String) : Option Lease → Bool → Prop
  | keeps : LeaseTurn sm a inst sm.leases[inst]? false
  | grants {holder : String} {ttlMs atMs : Nat} (hop : a.op = .leaseGrant inst holder ttlMs atMs)
      (hvalid : sm.grantValid inst holder ttlMs) (hfree : sm.free inst holder atMs) :
      LeaseTurn sm a inst
        (some ⟨inst, holder, a.term, a.index, satAdd atMs ttlMs, ttlMs, 0⟩) true
  | renews {cur : Lease} {atMs : Nat} (hop : a.op = .leaseRenew inst cur.holder atMs)
      (hcur : sm.leases[inst]? = some cur) :
      LeaseTurn sm a inst
        (some { cur with
          expireAtMs := satAdd atMs cur.ttlMs, renewals := cur.renewals + 1,
          grantedTerm := a.term, grantedIndex := a.index }) true
  | removes {cur : Lease} (hcur : sm.leases[inst]? = some cur)
      (hop : a.op = .leaseRelease inst cur.holder ∨
        ∃ cutoffMs, a.op = .leasePurge cutoffMs ∧ cur.expireAtMs ≤ cutoffMs) :
      LeaseTurn sm a inst none false

variable {sm : StateMachine} {a : ApplyCall} {inst holder : String} {ttlMs atMs : Nat}

/-- What a `LeaseGrant` answers and does. -/
theorem applyLeaseGrant_cases (sm : StateMachine) (term index : Nat) (inst holder : String)
    (ttlMs atMs : Nat) :
    (sm.grantValid inst holder ttlMs ∧ sm.free inst holder atMs ∧
      sm.applyLeaseGrant term index inst holder ttlMs atMs =
        (.ok, { sm with
          leases := sm.leases.insert inst
            ⟨inst, holder, term, index, satAdd atMs ttlMs, ttlMs, 0⟩ })) ∨
    (¬ (sm.grantValid inst holder ttlMs ∧ sm.free inst holder atMs) ∧
      ∃ r, sm.applyLeaseGrant term index inst holder ttlMs atMs = (.rejected r, sm)) := by
  unfold applyLeaseGrant
  by_cases hblank : (trimIsEmpty inst || trimIsEmpty holder) = true
  · refine .inr ⟨fun h => ?_, _, if_pos hblank⟩
    rw [h.1.1] at hblank
    cases hblank
  rw [if_neg hblank]
  by_cases hzero : ttlMs = 0
  · exact .inr ⟨fun h => h.1.2.1 hzero, _, if_pos hzero⟩
  rw [if_neg hzero]
  by_cases hshort : ttlMs < satMul sm.maxSkewMs 10
  · exact .inr ⟨fun h => absurd h.1.2.2 (Nat.not_le.2 hshort), _, if_pos hshort⟩
  rw [if_neg hshort]
  have hvalid : sm.grantValid inst holder ttlMs :=
    ⟨Bool.eq_false_iff.2 hblank, hzero, Nat.le_of_not_lt hshort⟩
  rcases hold : sm.leases[inst]? with _ | old
  · refine .inl ⟨hvalid, fun old' h => ?_, rfl⟩
    rw [hold] at h
    cases h
  by_cases hc : old.holder ≠ holder ∧ atMs < satAdd old.expireAtMs sm.maxSkewMs
  · refine .inr ⟨fun h => ?_, _, if_pos hc⟩
    exact absurd (h.2 old hold hc.1) (Nat.not_le.2 hc.2)
  · refine .inl ⟨hvalid, fun old' h hne => ?_, if_neg hc⟩
    rw [hold] at h
    cases h
    exact Nat.le_of_not_lt fun hlt => hc ⟨hne, hlt⟩

/-- What a `LeaseRenew` answers and does. -/
theorem applyLeaseRenew_cases (sm : StateMachine) (term index : Nat) (inst holder : String)
    (atMs : Nat) :
    (∃ cur, sm.leases[inst]? = some cur ∧ cur.holder = holder ∧
      sm.applyLeaseRenew term index inst holder atMs =
        (.ok, { sm with
          leases := sm.leases.insert inst { cur with
            expireAtMs := satAdd atMs cur.ttlMs, renewals := cur.renewals + 1,
            grantedTerm := term, grantedIndex := index } })) ∨
    ((∀ cur, sm.leases[inst]? = some cur → cur.holder ≠ holder) ∧
      ∃ r, sm.applyLeaseRenew term index inst holder atMs = (.rejected r, sm)) := by
  unfold applyLeaseRenew
  rcases hcur : sm.leases[inst]? with _ | cur
  · refine .inr ⟨?_, _, rfl⟩
    rintro cur ⟨⟩
  by_cases hh : cur.holder ≠ holder
  · refine .inr ⟨?_, _, if_pos hh⟩
    rintro cur ⟨⟩
    exact hh
  · exact .inl ⟨cur, rfl, not_ne_iff.1 hh, if_neg hh⟩

/-- What a `LeaseRelease` answers and does. -/
theorem applyLeaseRelease_cases (sm : StateMachine) (inst holder : String) :
    (∃ cur, sm.leases[inst]? = some cur ∧ cur.holder = holder ∧
      sm.applyLeaseRelease inst holder = (.ok, { sm with leases := sm.leases.erase inst })) ∨
    ((∀ cur, sm.leases[inst]? = some cur → cur.holder ≠ holder) ∧
      ∃ r, sm.applyLeaseRelease inst holder = (.rejected r, sm)) := by
  unfold applyLeaseRelease
  rcases hcur : sm.leases[inst]? with _ | cur
  · refine .inr ⟨?_, _, rfl⟩
    rintro cur ⟨⟩
  by_cases hh : cur.holder ≠ holder
  · refine .inr ⟨?_, _, if_pos hh⟩
    rintro cur ⟨⟩
    exact hh
  · exact .inl ⟨cur, rfl, not_ne_iff.1 hh, if_neg hh⟩

/-- The other ops leave the leases as they are. -/
theorem applyInner_leases (sm : StateMachine) (term index : Nat) {op : Op}
    (h : op.isLease = false) : (sm.applyInner term index op).2.leases = sm.leases := by
  cases op <;> simp only [Op.isLease, Bool.true_eq_false] at h <;>
    simp only [applyInner, applyPut, applyDelete, applyConfigSet, applyStepBegin, applyStepDone,
      applyAuditAppend]
  all_goals (repeat' split) <;> rfl

/-- An entry whose op is known answers and does what the op does. -/
theorem after_eq {op : Op} {out : Applied} {sm' : StateMachine} (hop : a.op = op)
    (h : sm.applyInner a.term a.index op = (out, sm')) :
    sm.outcome a = out ∧ (sm.after a).leases = sm'.leases ∧
      (sm.after a).maxSkewMs = sm'.maxSkewMs := by
  subst hop
  have ho : sm.outcome a = (sm.applyInner a.term a.index a.op).1 := rfl
  have hl : (sm.after a).leases = (sm.applyInner a.term a.index a.op).2.leases := rfl
  have hm : (sm.after a).maxSkewMs = (sm.applyInner a.term a.index a.op).2.maxSkewMs := rfl
  rw [ho, hl, hm, h]
  exact ⟨rfl, rfl, rfl⟩

/-- A `LeaseGrant` is accepted when it is valid and the instance is free for its holder. -/
theorem outcome_grant (hop : a.op = .leaseGrant inst holder ttlMs atMs) :
    (sm.outcome a).isOk = true ↔ sm.grantValid inst holder ttlMs ∧ sm.free inst holder atMs := by
  rcases applyLeaseGrant_cases sm a.term a.index inst holder ttlMs atMs with
    ⟨hv, hf, heq⟩ | ⟨hn, r, heq⟩
  · rw [(after_eq hop heq).1]
    exact iff_of_true rfl ⟨hv, hf⟩
  · rw [(after_eq hop heq).1]
    exact iff_of_false (by simp [Applied.isOk]) hn

/-- An entry that leaves the leases as they are and announces none. -/
theorem LeaseTurn.of_same (hl : (sm.after a).leases = sm.leases)
    (ha : announces inst sm a = false) :
    LeaseTurn sm a inst (sm.after a).leases[inst]? (announces inst sm a) := by
  rw [hl, ha]
  exact .keeps

/-- A rejected entry. -/
theorem LeaseTurn.of_rejected {op : Op} {r : Reject} (hop : a.op = op)
    (h : sm.applyInner a.term a.index op = (.rejected r, sm)) :
    LeaseTurn sm a inst (sm.after a).leases[inst]? (announces inst sm a) := by
  refine .of_same (after_eq hop h).2.1 ?_
  rw [announces, (after_eq hop h).1]
  split
  · exact Bool.and_false _
  · exact Bool.and_false _
  · rfl

/-- An accepted grant or renewal writes the lease it announces. -/
theorem LeaseTurn.of_insert {op : Op} {i : String} {l : Lease} {sm' : StateMachine}
    (hop : a.op = op) (h : sm.applyInner a.term a.index op = (.ok, sm'))
    (hl : sm'.leases = sm.leases.insert i l)
    (hann : announces inst sm a = (i == inst && (sm.outcome a).isOk))
    (hturn : i = inst → LeaseTurn sm a inst (some l) true) :
    LeaseTurn sm a inst (sm.after a).leases[inst]? (announces inst sm a) := by
  obtain ⟨hout, hleases, -⟩ := after_eq hop h
  rw [hann, hout, hleases, hl, BTreeMap.getElem?_insert_ite]
  by_cases hi : i = inst
  · rw [if_pos hi, beq_iff_eq.2 hi]
    exact hturn hi
  · rw [if_neg hi, beq_false_of_ne hi]
    exact .keeps

/-- What an entry does to the lease of an instance. -/
theorem leaseTurn (sm : StateMachine) (a : ApplyCall) (inst : String) :
    LeaseTurn sm a inst (sm.after a).leases[inst]? (announces inst sm a) := by
  cases hlease : a.op.isLease with
  | false =>
    refine .of_same (applyInner_leases sm a.term a.index hlease) ?_
    unfold announces
    split <;> simp_all [Op.isLease]
  | true =>
    cases hop : a.op with
    | leaseGrant i holder ttlMs atMs =>
      rcases applyLeaseGrant_cases sm a.term a.index i holder ttlMs atMs with
        ⟨hv, hf, heq⟩ | ⟨-, r, heq⟩
      · refine .of_insert (i := i) hop heq rfl (by rw [announces, hop]) ?_
        rintro rfl
        exact .grants hop hv hf
      · exact .of_rejected hop heq
    | leaseRenew i holder atMs =>
      rcases applyLeaseRenew_cases sm a.term a.index i holder atMs with
        ⟨cur, hcur, rfl, heq⟩ | ⟨-, r, heq⟩
      · refine .of_insert (i := i) hop heq rfl (by rw [announces, hop]) ?_
        rintro rfl
        exact .renews hop hcur
      · exact .of_rejected hop heq
    | leaseRelease i holder =>
      rcases applyLeaseRelease_cases sm i holder with ⟨cur, hcur, rfl, heq⟩ | ⟨-, r, heq⟩
      · have hann : announces inst sm a = false := by rw [announces, hop]
        rw [hann, (after_eq hop heq).2.1, BTreeMap.getElem?_erase_ite]
        by_cases hi : i = inst
        · subst hi
          rw [if_pos rfl]
          exact .removes hcur (.inl hop)
        · rw [if_neg hi]
          exact .keeps
      · exact .of_rejected hop heq
    | leasePurge cutoffMs =>
      have hann : announces inst sm a = false := by rw [announces, hop]
      have hl : (sm.after a).leases[inst]? =
          sm.leases[inst]?.filter fun l => decide (cutoffMs < l.expireAtMs) := by
        rw [(after_eq hop rfl).2.1]
        exact Std.ExtTreeMap.getElem?_filter'
      rw [hl, hann]
      have hkeep : sm.LeaseTurn a inst sm.leases[inst]? false := .keeps
      rcases hcur : sm.leases[inst]? with _ | cur
      · rwa [hcur] at hkeep
      by_cases hlt : cutoffMs < cur.expireAtMs
      · rw [Option.filter_some, if_pos (by simpa using hlt)]
        rwa [hcur] at hkeep
      · rw [Option.filter_some, if_neg (by simpa using hlt)]
        exact .removes hcur (.inr ⟨cutoffMs, hop, Nat.le_of_not_lt hlt⟩)
    | _ => rw [hop] at hlease; cases hlease

/-- The lease of an instance after an entry, from what it was and the skew bound. -/
def leaseAfter (maxSkewMs : Nat) (a : ApplyCall) (inst : String) (l : Option Lease) :
    Option Lease :=
  match a.op with
  | .leaseGrant i holder ttlMs atMs =>
    if i = inst ∧ ((trimIsEmpty inst || trimIsEmpty holder) = false ∧ ttlMs ≠ 0 ∧
        satMul maxSkewMs 10 ≤ ttlMs) ∧
        ∀ old ∈ l, old.holder ≠ holder → satAdd old.expireAtMs maxSkewMs ≤ atMs then
      some ⟨inst, holder, a.term, a.index, satAdd atMs ttlMs, ttlMs, 0⟩
    else l
  | .leaseRenew i holder atMs =>
    l.map fun cur => if i = inst ∧ cur.holder = holder then
      { cur with
        expireAtMs := satAdd atMs cur.ttlMs, renewals := cur.renewals + 1,
        grantedTerm := a.term, grantedIndex := a.index }
      else cur
  | .leaseRelease i holder => l.filter fun cur => decide (¬ (i = inst ∧ cur.holder = holder))
  | .leasePurge cutoffMs => l.filter fun cur => decide (cutoffMs < cur.expireAtMs)
  | _ => l

/-- The lease of an instance depends on what it was and the skew bound only. -/
theorem after_lease (sm : StateMachine) (a : ApplyCall) (inst : String) :
    (sm.after a).leases[inst]? = leaseAfter sm.maxSkewMs a inst sm.leases[inst]? := by
  cases hop : a.op with
  | leaseGrant i holder ttlMs atMs =>
    simp only [leaseAfter, hop]
    rcases applyLeaseGrant_cases sm a.term a.index i holder ttlMs atMs with
      ⟨hv, hf, heq⟩ | ⟨hn, r, heq⟩
    · rw [(after_eq hop heq).2.1, BTreeMap.getElem?_insert_ite]
      by_cases hi : i = inst
      · subst hi
        rw [if_pos rfl, if_pos ⟨rfl, hv, hf⟩]
      · rw [if_neg hi, if_neg fun h => hi h.1]
    · rw [(after_eq hop heq).2.1, if_neg]
      rintro ⟨rfl, hv, hf⟩
      exact hn ⟨hv, hf⟩
  | leaseRenew i holder atMs =>
    simp only [leaseAfter, hop]
    rcases applyLeaseRenew_cases sm a.term a.index i holder atMs with
      ⟨cur, hcur, rfl, heq⟩ | ⟨hn, r, heq⟩
    · rw [(after_eq hop heq).2.1, BTreeMap.getElem?_insert_ite]
      by_cases hi : i = inst
      · subst hi
        rw [if_pos rfl, hcur, Option.map_some, if_pos ⟨rfl, rfl⟩]
      · rw [if_neg hi]
        rcases sm.leases[inst]? with _ | l
        · rfl
        · rw [Option.map_some, if_neg fun h => hi h.1]
    · rw [(after_eq hop heq).2.1]
      rcases hl : sm.leases[inst]? with _ | l
      · rfl
      · rw [Option.map_some, if_neg]
        rintro ⟨rfl, hh⟩
        exact hn l hl hh
  | leaseRelease i holder =>
    simp only [leaseAfter, hop]
    rcases applyLeaseRelease_cases sm i holder with ⟨cur, hcur, rfl, heq⟩ | ⟨hn, r, heq⟩
    · rw [(after_eq hop heq).2.1, BTreeMap.getElem?_erase_ite]
      by_cases hi : i = inst
      · subst hi
        rw [if_pos rfl, hcur, Option.filter_some, if_neg (by simp)]
      · rw [if_neg hi]
        rcases sm.leases[inst]? with _ | l
        · rfl
        · rw [Option.filter_some, if_pos (by simp [hi])]
    · rw [(after_eq hop heq).2.1]
      rcases hl : sm.leases[inst]? with _ | l
      · rfl
      · rw [Option.filter_some, if_pos]
        simp only [decide_eq_true_eq]
        rintro ⟨rfl, hh⟩
        exact hn l hl hh
  | leasePurge cutoffMs =>
    simp only [leaseAfter, hop]
    rw [(after_eq hop rfl).2.1]
    exact Std.ExtTreeMap.getElem?_filter'
  | _ =>
    have hl : (sm.after a).leases = sm.leases := applyInner_leases sm a.term a.index (by rw [hop]; rfl)
    simp only [leaseAfter, hop, hl]

/-- A grant that is accepted. -/
theorem lease_granted (hop : a.op = .leaseGrant inst holder ttlMs atMs)
    (hok : (sm.outcome a).isOk = true) : (sm.after a).leases[inst]? =
      some ⟨inst, holder, a.term, a.index, satAdd atMs ttlMs, ttlMs, 0⟩ := by
  obtain ⟨hvalid, hfree⟩ := (outcome_grant hop).1 hok
  rw [after_lease]
  unfold leaseAfter
  rw [hop]
  exact if_pos ⟨rfl, hvalid, fun old hold => hfree old hold⟩

/-- A renewal by the holder. -/
theorem lease_renewed {l : Lease} (hop : a.op = .leaseRenew inst holder atMs)
    (hl : sm.leases[inst]? = some l) (hh : l.holder = holder) : (sm.after a).leases[inst]? =
      some { l with
        expireAtMs := satAdd atMs l.ttlMs, renewals := l.renewals + 1,
        grantedTerm := a.term, grantedIndex := a.index } := by
  rw [after_lease]
  unfold leaseAfter
  rw [hop, hl]
  exact congrArg some (if_pos ⟨rfl, hh⟩)

/-- An op that leaves a lease of an instance alone: on another instance, of another holder that comes
too early, or a purge of what has expired before. -/
def Spares (sm : StateMachine) (inst : String) (l : Lease) : Op → Prop
  | .leaseGrant i holder _ atMs =>
    i = inst → l.holder ≠ holder ∧ atMs < satAdd l.expireAtMs sm.maxSkewMs
  | .leaseRenew i holder _ | .leaseRelease i holder => i = inst → l.holder ≠ holder
  | .leasePurge cutoffMs => cutoffMs < l.expireAtMs
  | _ => True

theorem Spares.kept {l : Lease} (h : sm.Spares inst l a.op) (hl : sm.leases[inst]? = some l) :
    (sm.after a).leases[inst]? = some l := by
  have hturn := leaseTurn sm a inst
  generalize hnext : (sm.after a).leases[inst]? = next at hturn ⊢
  generalize announces inst sm a = ann at hturn
  cases hturn with
  | keeps => exact hl
  | grants hop _ hfree =>
    rw [hop] at h
    obtain ⟨hother, hearly⟩ := h rfl
    exact absurd (hfree l hl hother) (Nat.not_le.2 hearly)
  | renews hop hcur =>
    rw [hop] at h
    exact absurd (congrArg Lease.holder (Option.some.inj (hl.symm.trans hcur))) (h rfl)
  | removes hcur hop =>
    obtain rfl := Option.some.inj (hl.symm.trans hcur)
    rcases hop with hop | ⟨cutoffMs, hop, hle⟩
    · rw [hop] at h
      exact absurd rfl (h rfl)
    · rw [hop] at h
      exact absurd hle (Nat.not_le.2 h)

/-- The configuration epoch and the skew bound after an op. -/
def configAfter (epoch maxSkewMs : Nat) : Op → Nat × Nat
  | .configSet e m => if e ≤ epoch ∨ m = 0 then (epoch, maxSkewMs) else (e, m)
  | _ => (epoch, maxSkewMs)

/-- The configuration depends on what it was only. -/
theorem after_config (sm : StateMachine) (a : ApplyCall) :
    ((sm.after a).configEpoch, (sm.after a).maxSkewMs) =
      configAfter sm.configEpoch sm.maxSkewMs a.op := by
  show ((sm.applyInner a.term a.index a.op).2.configEpoch,
    (sm.applyInner a.term a.index a.op).2.maxSkewMs) = _
  cases a.op with
  | configSet e m =>
    simp only [applyInner, applyConfigSet, configAfter]
    by_cases he : e ≤ sm.configEpoch
    · rw [if_pos he, if_pos (.inl he)]
    rw [if_neg he]
    by_cases hm : m = 0
    · rw [if_pos hm, if_pos (.inr hm)]
    · rw [if_neg hm, if_neg (by omega)]
  | _ =>
    simp only [applyInner, applyPut, applyDelete, applyLeaseGrant, applyLeaseRenew,
      applyLeaseRelease, applyStepBegin, applyStepDone, applyAuditAppend, configAfter]
    all_goals (repeat' split) <;> rfl

/-! ## Taking over a lease -/

/-- One entry applied. -/
def step (sm : StateMachine) (a : ApplyCall) : Option StateMachine := some (sm.after a)

/-- No entry has been applied. -/
def Fresh (sm : StateMachine) : Prop := ∃ shard maxSkewMs, sm = .new shard maxSkewMs

/-- The runs of the state machine whose entries meet a guard. -/
abbrev GuardedRun (guard : History StateMachine ApplyCall → StateMachine → ApplyCall → Prop) :
    History StateMachine ApplyCall → StateMachine → Prop :=
  Run step guard Fresh

/-- The leases announced to the holder of an instance since it became the holder, newest first. -/
def tenure (inst : String) : History StateMachine ApplyCall → StateMachine → List Lease
  | [], _ => []
  | (d, a) :: h, sm =>
    match sm.leases[inst]? with
    | none => []
    | some l =>
      if announces inst d a then
        match d.leases[inst]? with
        | some old => if old.holder = l.holder then l :: tenure inst h d else [l]
        | none => [l]
      else tenure inst h d

/-- A lease is granted to another holder only when all that its holder was told has expired, with
the skew bound to spare. -/
def LeaseExclusive (h : History StateMachine ApplyCall) : Prop :=
  ∀ d a h', (d, a) :: h' <:+ h → ∀ inst holder ttlMs atMs old,
    a.op = .leaseGrant inst holder ttlMs atMs → (d.outcome a).isOk = true →
    d.leases[inst]? = some old → old.holder ≠ holder →
    ∀ l ∈ tenure inst h' d, l.expireAtMs + d.maxSkewMs ≤ atMs

/-- The entry does not take back what its holder was told, and when another one takes over the sum
of the expiry and the skew bound is a `u64`, or the time is not the last one. -/
def KeepsExpiry (sm : StateMachine) (a : ApplyCall) : Prop :=
  match a.op with
  | .leaseGrant inst holder ttlMs atMs =>
    match sm.leases[inst]? with
    | some old => sm.grantValid inst holder ttlMs →
      if old.holder = holder then old.expireAtMs ≤ satAdd atMs ttlMs
      else old.expireAtMs + sm.maxSkewMs ≤ u64Max ∨ atMs < u64Max
    | none => True
  | .leaseRenew inst holder atMs =>
    match sm.leases[inst]? with
    | some old => old.holder = holder → old.expireAtMs ≤ satAdd atMs old.ttlMs
    | none => True
  | _ => True

instance (sm : StateMachine) (a : ApplyCall) : Decidable (sm.KeepsExpiry a) := by
  unfold KeepsExpiry
  split
  · split <;> infer_instance
  · split <;> infer_instance
  · infer_instance

/-- What the holder was told expires no later than the lease. -/
def TenureKept (h : History StateMachine ApplyCall) (sm : StateMachine) : Prop :=
  ∀ inst, ∀ l ∈ tenure inst h sm, ∀ cur, sm.leases[inst]? = some cur →
    l.expireAtMs ≤ cur.expireAtMs

/-- An entry that takes nothing back keeps the bound. -/
theorem TenureKept.after {h : History StateMachine ApplyCall} (hk : TenureKept h sm)
    (hg : sm.KeepsExpiry a) : TenureKept ((sm, a) :: h) (sm.after a) := by
  intro inst l hl cur hcur
  have hturn := leaseTurn sm a inst
  rw [tenure, hcur] at hl
  rw [hcur] at hturn
  generalize announces inst sm a = ann at hturn hl
  generalize hnext : some cur = next at hturn
  cases hturn with
  | keeps => exact hk inst l hl cur hnext.symm
  | @grants holder ttlMs atMs hop hvalid hfree =>
    cases hnext
    rw [KeepsExpiry, hop] at hg
    rcases hold : sm.leases[inst]? with _ | old
    · simp only [if_true, hold, List.mem_singleton] at hl
      rw [hl]
    · simp only [hold] at hg hl
      simp only [if_true] at hl
      split at hl
      · next hh =>
        have hle := hg hvalid
        rw [if_pos hh] at hle
        rcases List.mem_cons.1 hl with rfl | hl
        · exact Nat.le_refl _
        · exact (hk inst l hl old hold).trans hle
      · rw [List.mem_singleton.1 hl]
  | @renews old atMs hop hold =>
    cases hnext
    rw [KeepsExpiry, hop] at hg
    simp only [hold] at hg hl
    simp only [if_true] at hl
    rcases List.mem_cons.1 hl with rfl | hl
    · exact Nat.le_refl _
    · exact (hk inst l hl old hold).trans (hg trivial)
  | removes => cases hnext

/-- A take-over waits for what the holder was told. -/
theorem TenureKept.exclusive {h : History StateMachine ApplyCall} (hk : TenureKept h sm)
    (hg : sm.KeepsExpiry a) {old : Lease} (hop : a.op = .leaseGrant inst holder ttlMs atMs)
    (hok : (sm.outcome a).isOk = true) (hold : sm.leases[inst]? = some old)
    (hne : old.holder ≠ holder) {l : Lease} (hl : l ∈ tenure inst h sm) :
    l.expireAtMs + sm.maxSkewMs ≤ atMs := by
  obtain ⟨hvalid, hfree⟩ := (outcome_grant hop).1 hok
  have hsafe := hfree old hold hne
  have hle := hk inst l hl old hold
  simp only [KeepsExpiry, hop, hold] at hg
  have hfits := hg hvalid
  rw [if_neg hne] at hfits
  unfold satAdd at hsafe
  omega

/-- In every run that takes no announced expiry back, leases have one writer at a time. -/
theorem lease_exclusive {h : History StateMachine ApplyCall}
    (hr : GuardedRun (fun _ sm a => sm.KeepsExpiry a) h sm) : LeaseExclusive h := by
  have hboth : TenureKept h sm ∧ LeaseExclusive h := by
    refine Run.invariant (I := fun h sm => TenureKept h sm ∧ LeaseExclusive h) ?_ ?_ hr
    · refine fun sm _ => ⟨fun inst l hl => ?_, fun d a h' hs => ?_⟩
      · cases hl
      · cases List.suffix_nil.1 hs
    · intro h sm a sm' _ hkx hg hs
      obtain ⟨hk, hx⟩ := hkx
      cases hs
      refine ⟨hk.after hg, fun d b h' hs => ?_⟩
      rcases List.suffix_cons_iff.1 hs with heq | hs
      · cases heq
        exact fun inst holder ttlMs atMs old hop hok hold hne l hl =>
          hk.exclusive hg hop hok hold hne hl
      · exact hx d b h' hs
  exact hboth.2

theorem lease_exclusive_takeover : ∃ (h : History StateMachine ApplyCall) (sm : StateMachine),
    sm.leases["i"]?.map (·.holder) = some "B" ∧ LeaseExclusive h := by
  let sm0 := StateMachine.new 0 1000
  let a1 : ApplyCall := ⟨1, 1, .leaseGrant "i" "A" 10000 100000⟩
  let a2 : ApplyCall := ⟨2, 2, .leaseRenew "i" "A" 100500⟩
  let a3 : ApplyCall := ⟨3, 2, .leaseGrant "i" "B" 10000 111500⟩
  have hr : GuardedRun (fun _ sm a => sm.KeepsExpiry a)
      [((sm0.after a1).after a2, a3), (sm0.after a1, a2), (sm0, a1)]
      (((sm0.after a1).after a2).after a3) :=
    .step (.step (.step (.start ⟨0, 1000, rfl⟩) (by decide +kernel) rfl) (by decide +kernel) rfl)
      (by decide +kernel) rfl
  exact ⟨_, ((sm0.after a1).after a2).after a3, by decide +kernel, lease_exclusive hr⟩

/-- A holder is told 110000, renews by a clock half a second behind, and another one is let in at
110500. -/
theorem lease_not_exclusive : ¬ ∀ h sm,
    GuardedRun (fun _ sm a => sm.appliedTerm ≤ a.term) h sm → LeaseExclusive h := by
  intro hall
  let sm0 := StateMachine.new 0 1000
  let a1 : ApplyCall := ⟨1, 1, .leaseGrant "i" "A" 10000 100000⟩
  let a2 : ApplyCall := ⟨2, 2, .leaseRenew "i" "A" 99500⟩
  let a3 : ApplyCall := ⟨3, 2, .leaseGrant "i" "B" 10000 110500⟩
  have hr : GuardedRun (fun _ sm a => sm.appliedTerm ≤ a.term)
      [((sm0.after a1).after a2, a3), (sm0.after a1, a2), (sm0, a1)]
      (((sm0.after a1).after a2).after a3) :=
    .step (.step (.step (.start ⟨0, 1000, rfl⟩) (by decide +kernel) rfl) (by decide +kernel) rfl)
      (by decide +kernel) rfl
  have hold : ((sm0.after a1).after a2).leases["i"]? =
      some ⟨"i", "A", 2, 2, 109500, 10000, 1⟩ := by decide +kernel
  have hl : ⟨"i", "A", 1, 1, 110000, 10000, 0⟩ ∈
      tenure "i" [(sm0.after a1, a2), (sm0, a1)] ((sm0.after a1).after a2) := by decide +kernel
  have hok : (((sm0.after a1).after a2).outcome a3).isOk = true := by decide +kernel
  have hle := hall _ _ hr _ _ _ (List.suffix_refl _) "i" "B" 10000 110500 _ rfl hok hold
    (by decide) _ hl
  have hskew : ((sm0.after a1).after a2).maxSkewMs = 1000 := by decide +kernel
  rw [hskew] at hle
  exact absurd hle (by decide)

/-! ## Fences -/

/-- The fence of the lease an entry announces. -/
def announcedFence (inst : String) (sm : StateMachine) (a : ApplyCall) : Option Fence :=
  if announces inst sm a then
    (sm.after a).leases[inst]?.map fun l => l.fence (sm.after a).shard
  else none

/-- The entries follow each other in the log, and their terms and indices are `u64`s. -/
def InOrder (_ : History StateMachine ApplyCall) (sm : StateMachine) (a : ApplyCall) : Prop :=
  sm.appliedTerm ≤ a.term ∧ sm.appliedIndex < a.index ∧ a.term < 2 ^ 64 ∧ a.index < 2 ^ 64

instance (h : History StateMachine ApplyCall) (sm : StateMachine) (a : ApplyCall) :
    Decidable (InOrder h sm a) := inferInstanceAs (Decidable (_ ∧ _ ∧ _ ∧ _))

/-- No op moves a state machine to another shard. -/
theorem after_shard (sm : StateMachine) (a : ApplyCall) : (sm.after a).shard = sm.shard := by
  show (sm.applyInner a.term a.index a.op).2.shard = _
  cases a.op <;> simp only [applyInner, applyPut, applyDelete, applyConfigSet, applyLeaseGrant,
    applyLeaseRenew, applyLeaseRelease, applyStepBegin, applyStepDone, applyAuditAppend]
  all_goals (repeat' split) <;> rfl

/-- The fence of a lease is the place of the entry that announced it. -/
theorem announcedFence_eq {f : Fence} (h : announcedFence inst sm a = some f) :
    f = ⟨sm.shard, a.term, a.index⟩ := by
  unfold announcedFence at h
  have hturn := leaseTurn sm a inst
  generalize announces inst sm a = ann at h hturn
  generalize (sm.after a).leases[inst]? = next at h hturn
  rw [after_shard] at h
  cases hturn with
  | keeps => cases h
  | grants => cases h; rfl
  | renews => cases h; rfl
  | removes => cases h

/-- The entries of a run lie below the state it is in. -/
theorem InOrder.below {h : History StateMachine ApplyCall} (hr : GuardedRun InOrder h sm) :
    ∀ p ∈ h, p.1.shard = sm.shard ∧ p.2.term ≤ sm.appliedTerm ∧ p.2.index ≤ sm.appliedIndex := by
  refine Run.invariant (I := fun h sm => ∀ p ∈ h, p.1.shard = sm.shard ∧
    p.2.term ≤ sm.appliedTerm ∧ p.2.index ≤ sm.appliedIndex) ?_ ?_ hr
  · exact fun sm _ p hp => absurd hp List.not_mem_nil
  · rintro h sm a sm' _ hi ⟨hterm, hindex, -, -⟩ ⟨⟩ p hp
    have ht : (sm.after a).appliedTerm = a.term := rfl
    have hx : (sm.after a).appliedIndex = a.index := rfl
    rw [after_shard, ht, hx]
    rcases List.mem_cons.1 hp with rfl | hp
    · exact ⟨rfl, Nat.le_refl _, Nat.le_refl _⟩
    · obtain ⟨h1, h2, h3⟩ := hi p hp
      exact ⟨h1, by omega, by omega⟩

/-- The fences of the leases of an instance go up, and a guard that has accepted one of them refuses
every earlier one from then on, whatever requests for the key and restarts come in between. -/
structure FencesRise (h : History StateMachine ApplyCall) : Prop where
  increasing : ∀ d a h', (d, a) :: h' <:+ h → ∀ p ∈ h', ∀ inst earlier later,
    announcedFence inst p.1 p.2 = some earlier → announcedFence inst d a = some later →
    earlier < later
  enforced : ∀ d a h', (d, a) :: h' <:+ h → ∀ p ∈ h', ∀ inst earlier later,
    announcedFence inst p.1 p.2 = some earlier → announcedFence inst d a = some later →
    ∀ key files, (ExecutorGuard.checkAndRaise key later ⟨files, []⟩).1 = .ok () →
    ∀ calls : List ExecutorGuard.GuardCall, ∃ e, (ExecutorGuard.checkAndRaise key earlier
      ⟨calls.foldl (ExecutorGuard.GuardCall.after key)
        (ExecutorGuard.checkAndRaise key later ⟨files, []⟩).2.files, []⟩).1 = .error e

/-- In every run in log order fences rise, and guards enforce it. -/
theorem fences_rise {h : History StateMachine ApplyCall} (hr : GuardedRun InOrder h sm)
    (hshard : sm.shard < 2 ^ 16) : FencesRise h := by
  -- every step of the run comes after the entries before it
  have hstep : ∀ d a h', (d, a) :: h' <:+ h → d.shard = sm.shard ∧ InOrder h' d a ∧
      ∀ p ∈ h', p.1.shard = d.shard ∧ p.2.term ≤ d.appliedTerm ∧ p.2.index ≤ d.appliedIndex := by
    intro d a h' hs
    induction hr with
    | start => cases List.suffix_nil.1 hs
    | @step h sm sm' b hr hg heq ih =>
      cases heq
      rw [after_shard] at hshard ⊢
      rcases List.suffix_cons_iff.1 hs with heq | hs
      · cases heq
        exact ⟨rfl, hg, InOrder.below hr⟩
      · exact ih hshard hs
  have hlt : ∀ d a h', (d, a) :: h' <:+ h → ∀ p ∈ h', ∀ inst earlier later,
      announcedFence inst p.1 p.2 = some earlier → announcedFence inst d a = some later →
      later.Fits ∧ earlier < later := by
    intro d a h' hs p hp inst earlier later he hl
    obtain ⟨hd, ⟨hterm, hindex, ht, hi⟩, hbelow⟩ := hstep d a h' hs
    obtain ⟨hps, hpt, hpi⟩ := hbelow p hp
    rw [announcedFence_eq he, announcedFence_eq hl, lt_iff_le_not_ge, Fence.le_def, Fence.le_def]
    refine ⟨⟨by rw [hd]; exact hshard, ht, hi⟩, ⟨hps, ?_⟩, fun hge => ?_⟩
    · show p.2.term < a.term ∨ p.2.term = a.term ∧ p.2.index ≤ a.index
      omega
    · have : a.term < p.2.term ∨ a.term = p.2.term ∧ a.index ≤ p.2.index := hge.2
      omega
  refine ⟨fun d a h' hs p hp inst earlier later he hl => (hlt d a h' hs p hp inst _ _ he hl).2, ?_⟩
  intro d a h' hs p hp inst earlier later he hl key files hok calls
  obtain ⟨hfits, hrise⟩ := hlt d a h' hs p hp inst earlier later he hl
  exact ExecutorGuard.refused_after hfits (not_le_of_gt hrise) hok calls

theorem fences_rise_takeover : ∃ h : History StateMachine ApplyCall, h.length = 3 ∧
    FencesRise h := by
  let sm0 := StateMachine.new 0 1000
  let a1 : ApplyCall := ⟨1, 1, .leaseGrant "i" "A" 10000 100000⟩
  let a2 : ApplyCall := ⟨2, 1, .leaseRelease "i" "A"⟩
  let a3 : ApplyCall := ⟨3, 2, .leaseGrant "i" "B" 10000 100001⟩
  have hr : GuardedRun InOrder [((sm0.after a1).after a2, a3), (sm0.after a1, a2), (sm0, a1)]
      (((sm0.after a1).after a2).after a3) :=
    .step (.step (.step (.start ⟨0, 1000, rfl⟩) (by decide) rfl) (by decide) rfl) (by decide) rfl
  exact ⟨_, rfl, fences_rise hr (by decide +kernel)⟩

end StateMachine

/-! ## Removing expired leases -/

/-- Two state machines fed the same entries, of which one is not fed the `LeasePurge`s. -/
structure Twin where
  purged : StateMachine
  kept : StateMachine

namespace Twin

/-- The entry is a `LeasePurge`. -/
def isPurge (a : ApplyCall) : Bool :=
  match a.op with
  | .leasePurge _ => true
  | _ => false

def step (t : Twin) (a : ApplyCall) : Option Twin :=
  some ⟨t.purged.after a, if isPurge a then t.kept else t.kept.after a⟩

/-- Two new state machines of a configuration. -/
def Initial (maxSkewMs : Nat) (t : Twin) : Prop :=
  ∃ shard, t = ⟨.new shard maxSkewMs, .new shard maxSkewMs⟩

/-- The cutoffs are those of `purge_expired_leases`, and a grant is no earlier than any cutoff
before it and the skew bound of the configuration. -/
def Timely (maxSkewMs : Nat) (h : History Twin ApplyCall) (a : ApplyCall) : Prop :=
  match a.op with
  | .leasePurge cutoffMs => ∃ nowMs graceMs, cutoffMs = nowMs - satAdd maxSkewMs graceMs
  | .leaseGrant _ _ _ atMs => ∀ p ∈ h, ∀ cutoffMs, p.2.op = .leasePurge cutoffMs →
    cutoffMs + maxSkewMs ≤ atMs
  | _ => True

/-- Every grant got the same answer from both. -/
def SameGrants (h : History Twin ApplyCall) : Prop :=
  ∀ p ∈ h, ∀ inst holder ttlMs atMs, p.2.op = .leaseGrant inst holder ttlMs atMs →
    ((p.1.purged.outcome p.2).isOk ↔ (p.1.kept.outcome p.2).isOk)

/-- A grant is no earlier than any cutoff before it and the skew bound in force, and no lease that a
purge has removed is renewed by its holder. -/
def PurgesSafely (h : History Twin ApplyCall) (t : Twin) (a : ApplyCall) : Prop :=
  match a.op with
  | .leaseGrant _ _ _ atMs => ∀ p ∈ h, ∀ cutoffMs, p.2.op = .leasePurge cutoffMs →
    cutoffMs + t.purged.maxSkewMs ≤ atMs
  | .leaseRenew inst holder _ => t.purged.leases[inst]? = none →
    ∀ l : Lease, t.kept.leases[inst]? = some l → l.holder ≠ holder
  | _ => True

/-- The two agree but for leases that a purge with a late enough cutoff has removed. -/
structure Agree (h : History Twin ApplyCall) (t : Twin) : Prop where
  epoch : t.purged.configEpoch = t.kept.configEpoch
  skew : t.purged.maxSkewMs = t.kept.maxSkewMs
  leases : ∀ inst : String, t.purged.leases[inst]? = t.kept.leases[inst]? ∨
    (t.purged.leases[inst]? = none ∧ ∃ l : Lease, t.kept.leases[inst]? = some l ∧
      ∃ p ∈ h, ∃ cutoffMs, p.2.op = .leasePurge cutoffMs ∧ l.expireAtMs ≤ cutoffMs)

variable {h : History Twin ApplyCall} {t : Twin} {a : ApplyCall} {inst holder : String}
  {ttlMs atMs : Nat}

/-- A grant finds the instance free in both runs or in neither. -/
theorem Agree.free_iff (ha : Agree h t) (hop : a.op = .leaseGrant inst holder ttlMs atMs)
    (hg : PurgesSafely h t a) :
    t.purged.free inst holder atMs ↔ t.kept.free inst holder atMs := by
  unfold StateMachine.free
  rcases ha.leases inst with heq | ⟨hnone, l, hl, p, hp, cutoffMs, hpurge, hle⟩
  · rw [heq, ha.skew]
  · rw [hnone, hl]
    refine iff_of_true (fun old h => ?_) (fun old h hne => ?_)
    · cases h
    · cases h
      simp only [PurgesSafely, hop] at hg
      have hlate := hg p hp cutoffMs hpurge
      rw [← ha.skew]
      unfold satAdd
      omega

/-- A grant gets the same answer in both runs. -/
theorem Agree.outcome_iff (ha : Agree h t) (hop : a.op = .leaseGrant inst holder ttlMs atMs)
    (hg : PurgesSafely h t a) : (t.purged.outcome a).isOk ↔ (t.kept.outcome a).isOk := by
  rw [StateMachine.outcome_grant hop, StateMachine.outcome_grant hop, ha.free_iff hop hg,
    StateMachine.grantValid, StateMachine.grantValid, ha.skew]

/-- A purge changes only the run that has it. -/
theorem Agree.purge (ha : Agree h t) {cutoffMs : Nat} (hop : a.op = .leasePurge cutoffMs) :
    Agree ((t, a) :: h) ⟨t.purged.after a, t.kept⟩ := by
  have hconf := StateMachine.after_config t.purged a
  simp only [hop, StateMachine.configAfter, Prod.mk.injEq] at hconf
  refine ⟨hconf.1.trans ha.epoch, hconf.2.trans ha.skew, fun inst => ?_⟩
  show (t.purged.after a).leases[inst]? = _ ∨ ((t.purged.after a).leases[inst]? = none ∧ _)
  rw [StateMachine.after_lease]
  simp only [StateMachine.leaseAfter, hop]
  rcases ha.leases inst with heq | ⟨hnone, l, hl, p, hp, hpurge⟩
  · rw [heq]
    rcases hl : t.kept.leases[inst]? with _ | l
    · exact .inl rfl
    by_cases hlt : cutoffMs < l.expireAtMs
    · rw [Option.filter_some, if_pos (by simpa using hlt)]
      exact .inl rfl
    · rw [Option.filter_some, if_neg (by simpa using hlt)]
      exact .inr ⟨rfl, l, rfl, (t, a), List.mem_cons_self, cutoffMs, hop, Nat.le_of_not_lt hlt⟩
  · rw [hnone]
    exact .inr ⟨rfl, l, hl, p, List.mem_cons_of_mem _ hp, hpurge⟩

/-- Any other entry goes to both. -/
theorem Agree.both (ha : Agree h t) (hg : PurgesSafely h t a) :
    Agree ((t, a) :: h) ⟨t.purged.after a, t.kept.after a⟩ := by
  have hconf := StateMachine.after_config t.purged a
  rw [ha.epoch, ha.skew, ← StateMachine.after_config t.kept a] at hconf
  obtain ⟨hepoch, hskew⟩ := Prod.mk.inj hconf
  refine ⟨hepoch, hskew, fun inst => ?_⟩
  show (t.purged.after a).leases[inst]? = (t.kept.after a).leases[inst]? ∨
    ((t.purged.after a).leases[inst]? = none ∧
      ∃ l : Lease, (t.kept.after a).leases[inst]? = some l ∧ _)
  rw [StateMachine.after_lease, StateMachine.after_lease, ha.skew]
  rcases ha.leases inst with heq | ⟨hnone, l, hl, p, hp, cutoffMs, hpurge, hle⟩
  · rw [heq]
    exact .inl rfl
  have hstay : ∀ l' : Lease, l'.expireAtMs ≤ cutoffMs → ∃ l : Lease, some l' = some l ∧
      ∃ p ∈ (t, a) :: h, ∃ cutoffMs, p.2.op = .leasePurge cutoffMs ∧ l.expireAtMs ≤ cutoffMs :=
    fun l' hle' => ⟨l', rfl, p, List.mem_cons_of_mem _ hp, cutoffMs, hpurge, hle'⟩
  rw [hnone, hl]
  cases hop : a.op with
  | leaseGrant i holder ttlMs atMs =>
    simp only [StateMachine.leaseAfter, hop]
    by_cases hv : i = inst ∧ (trimIsEmpty inst || trimIsEmpty holder) = false ∧ ttlMs ≠ 0 ∧
        satMul t.kept.maxSkewMs 10 ≤ ttlMs
    · -- both take the new lease: the removed one had expired with the skew bound to spare
      have hlate : cutoffMs + t.kept.maxSkewMs ≤ atMs := by
        simp only [PurgesSafely, hop] at hg
        rw [← ha.skew]
        exact hg p hp cutoffMs hpurge
      have hsafe : satAdd l.expireAtMs t.kept.maxSkewMs ≤ atMs := by
        unfold satAdd
        omega
      rw [if_pos ⟨hv.1, hv.2, by simp⟩, if_pos ⟨hv.1, hv.2, by simpa using fun _ => hsafe⟩]
      exact .inl rfl
    · rw [if_neg fun h => hv ⟨h.1, h.2.1⟩, if_neg fun h => hv ⟨h.1, h.2.1⟩]
      exact .inr ⟨rfl, hstay l hle⟩
  | leaseRenew i holder atMs =>
    simp only [StateMachine.leaseAfter, hop]
    rw [Option.map_none, Option.map_some, if_neg]
    · exact .inr ⟨rfl, hstay l hle⟩
    · rintro ⟨rfl, hh⟩
      simp only [PurgesSafely, hop] at hg
      exact hg hnone l hl hh
  | leaseRelease i holder =>
    simp only [StateMachine.leaseAfter, hop]
    rw [Option.filter_none, Option.filter_some]
    split
    · exact .inr ⟨rfl, hstay l hle⟩
    · exact .inl rfl
  | leasePurge c =>
    simp only [StateMachine.leaseAfter, hop]
    rw [Option.filter_none, Option.filter_some]
    split
    · exact .inr ⟨rfl, hstay l hle⟩
    · exact .inl rfl
  | _ =>
    simp only [StateMachine.leaseAfter, hop]
    exact .inr ⟨trivial, hstay l hle⟩

/-- In every run whose grants come late enough and that renews no removed lease, the purges change
no answer to a grant. -/
theorem purges_unnoticed {maxSkewMs : Nat} (hr : Run Twin.step PurgesSafely (Initial maxSkewMs) h t) :
    SameGrants h := by
  have hboth : Agree h t ∧ SameGrants h := by
    refine Run.invariant (I := fun h t => Agree h t ∧ SameGrants h) ?_ ?_ hr
    · rintro t ⟨shard, rfl⟩
      exact ⟨⟨rfl, rfl, fun inst => .inl rfl⟩, fun p hp => by cases hp⟩
    · intro h t a t' _ hi hg hs
      obtain ⟨ha, hsame⟩ := hi
      cases hs
      refine ⟨?_, fun p hp inst holder ttlMs atMs hop => ?_⟩
      · cases hpurge : isPurge a with
        | false => exact ha.both hg
        | true =>
          cases hop : a.op with
          | leasePurge cutoffMs => exact ha.purge hop
          | _ =>
            rw [isPurge, hop] at hpurge
            cases hpurge
      · rcases List.mem_cons.1 hp with rfl | hp
        · exact ha.outcome_iff hop hg
        · exact hsame p hp inst holder ttlMs atMs hop
  exact hboth.2

theorem purges_unnoticed_regrant : ∃ (h : History Twin ApplyCall) (t : Twin),
    t.purged.leases["i"]?.map (·.holder) = some "C" ∧ SameGrants h := by
  let t0 : Twin := ⟨.new 0 1000, .new 0 1000⟩
  let a1 : ApplyCall := ⟨1, 1, .leaseGrant "i" "A" 30000 1000⟩
  let a2 : ApplyCall := ⟨2, 1, .leasePurge 31000⟩
  let a3 : ApplyCall := ⟨3, 1, .leaseGrant "i" "C" 30000 95000⟩
  let t1 : Twin := ⟨t0.purged.after a1, t0.kept.after a1⟩
  let t2 : Twin := ⟨t1.purged.after a2, t1.kept⟩
  have hr : Run Twin.step PurgesSafely (Initial 1000) [(t2, a3), (t1, a2), (t0, a1)]
      ⟨t2.purged.after a3, t2.kept.after a3⟩ := by
    refine .step (.step (.step (.start ⟨0, rfl⟩) ?_ rfl) trivial rfl) ?_ rfl
    · intro p hp
      cases hp
    · intro p hp cutoffMs hop
      have hskew : t2.purged.maxSkewMs = 1000 := by decide +kernel
      rw [hskew]
      simp only [List.mem_cons, List.not_mem_nil, or_false] at hp
      rcases hp with rfl | rfl
      · cases hop
        decide
      · cases hop
  exact ⟨_, ⟨t2.purged.after a3, t2.kept.after a3⟩, by decide +kernel, purges_unnoticed hr⟩

/-- After a purge the skew bound is raised: a grant passes where the removed lease would still stop
it. -/
theorem purges_noticed : ¬ ∀ maxSkewMs h t,
    Run Twin.step (fun h _ a => Timely maxSkewMs h a) (Initial maxSkewMs) h t → SameGrants h := by
  intro hall
  let t0 : Twin := ⟨.new 0 1000, .new 0 1000⟩
  let a1 : ApplyCall := ⟨1, 1, .leaseGrant "i" "A" 30000 1000⟩
  let a2 : ApplyCall := ⟨2, 1, .leasePurge 31000⟩
  let a3 : ApplyCall := ⟨3, 1, .configSet 1 70000⟩
  let a4 : ApplyCall := ⟨4, 1, .leaseGrant "i" "C" 700000 95000⟩
  let t1 : Twin := ⟨t0.purged.after a1, t0.kept.after a1⟩
  let t2 : Twin := ⟨t1.purged.after a2, t1.kept⟩
  let t3 : Twin := ⟨t2.purged.after a3, t2.kept.after a3⟩
  have hr : Run Twin.step (fun h _ a => Timely 1000 h a) (Initial 1000)
      [(t3, a4), (t2, a3), (t1, a2), (t0, a1)] ⟨t3.purged.after a4, t3.kept.after a4⟩ := by
    refine .step (.step (.step (.step (.start ⟨0, rfl⟩) ?_ rfl) ⟨92000, 60000, rfl⟩ rfl) trivial rfl)
      ?_ rfl
    · intro p hp
      cases hp
    · intro p hp cutoffMs hop
      simp only [List.mem_cons, List.not_mem_nil, or_false] at hp
      rcases hp with rfl | rfl | rfl
      · cases hop
      · cases hop
        decide
      · cases hop
  have hpurged : (t3.purged.outcome a4).isOk = true := by decide +kernel
  have hkept : (t3.kept.outcome a4).isOk = false := by decide +kernel
  have hsame := (hall 1000 _ _ hr (t3, a4) (by simp) "i" "C" 700000 95000 rfl).1 hpurged
  rw [hkept] at hsame
  cases hsame

end Twin

end Rdsctl.Ha
