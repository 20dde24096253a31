import Rdsctl.Ha.Node

/-!
# Versions of the key-value store

A `Put` raises the version of its key by one, and a `Put` or `Delete` that expects a version is
refused when the key has another. As long as a key is not deleted, a version that is still there
says that nothing was written. A deleted key starts at version 1 again, so after a deletion the
version of an earlier read may come back.
-/

namespace Rdsctl.Ha

/-- The op is a `Put` or `Delete` of the key that expects a version. -/
def Op.expects (key : String) (ver : Nat) : Op → Prop
  | .put k _ e => k = key ∧ e = some ver
  | .delete k e => k = key ∧ e = some ver
  | _ => False

instance (key : String) (ver : Nat) : ∀ op : Op, Decidable (op.expects key ver)
  | .put .. | .delete .. => inferInstanceAs (Decidable (_ ∧ _))
  | .noop | .configSet .. | .leaseGrant .. | .leaseRenew .. | .leaseRelease .. | .leasePurge ..
  | .stepBegin .. | .stepDone .. | .auditAppend .. => inferInstanceAs (Decidable False)

/-- The op is a `Delete` of the key. -/
def Op.deletes (key : String) : Op → Prop
  | .delete k _ => k = key
  | _ => False

theorem Op.writes_of_deletes {key : String} {op : Op} (h : op.deletes key) :
    op.writes = some key := by
  cases op with
  | delete k e => exact congrArg some h
  | _ => cases h

namespace StateMachine

/-- The version `kv_get` shows. -/
def verAt (sm : StateMachine) (key : String) : Option Nat := (sm.kv[key]?).map (·.ver)

/-- The entry is an op on the key, and is accepted. -/
def Writes (key : String) (sm : StateMachine) (a : ApplyCall) : Prop :=
  a.op.writes = some key ∧ (sm.outcome a).isOk = true

/-- The entry deletes the key. -/
def Deletes (key : String) (sm : StateMachine) (a : ApplyCall) : Prop :=
  a.op.deletes key ∧ (sm.outcome a).isOk = true

/-- At some entry of the log `p` holds, of the state the log has led to by then. -/
def Sometime (p : StateMachine → ApplyCall → Prop) : StateMachine → List ApplyCall → Prop
  | _, [] => False
  | sm, a :: log => p sm a ∨ Sometime p (sm.after a) log

/-- A `Put` or `Delete` that expects the version of an earlier read is accepted only when no op on
its key was accepted in between, and one that expects version 0 only when the key is absent. -/
structure CasUnchanged (sm : StateMachine) (log : List ApplyCall) : Prop where
  since : ∀ before between cas after key ver, log = before ++ between ++ cas :: after →
    (sm.afterAll before).verAt key = some ver → cas.op.expects key ver →
    (((sm.afterAll before).afterAll between).outcome cas).isOk = true →
    ¬ Sometime (Writes key) (sm.afterAll before) between
  absent : ∀ before cas after key, log = before ++ cas :: after → cas.op.expects key 0 →
    ((sm.afterAll before).outcome cas).isOk = true → (sm.afterAll before).verAt key = none

/-- No `Put` or `Delete` of the log finds its key deleted since the read of the version it expects,
and at that version again. -/
def NoneRecreated (sm : StateMachine) (log : List ApplyCall) : Prop :=
  ∀ before between cas after key ver, log = before ++ between ++ cas :: after →
    (sm.afterAll before).verAt key = some ver → cas.op.expects key ver →
    Sometime (Deletes key) (sm.afterAll before) between →
    ((sm.afterAll before).afterAll between).verAt key ≠ some ver

variable {sm : StateMachine} {a : ApplyCall} {key : String} {ver : Nat} {log : List ApplyCall}

theorem outcome_eq (sm : StateMachine) (a : ApplyCall) :
    sm.outcome a = (sm.applyInner a.term a.index a.op).1 := rfl

theorem applyPut_isOk {index : Nat} {value : Value} {expect : Option Nat} :
    (sm.applyPut index key value expect).1.isOk = true ↔
      trimIsEmpty key = false ∧ ∀ ver, expect = some ver → (sm.verAt key).getD 0 = ver := by
  unfold applyPut verAt
  rcases hblank : trimIsEmpty key with _ | _
  · rcases hold : sm.kv[key]? with _ | cur
    · rcases expect with _ | _ | e <;> simp [Applied.isOk]
    · rcases expect with _ | e
      · simp [Applied.isOk]
      · rcases eq_or_ne cur.ver e with rfl | hne
        · simp [Applied.isOk]
        · simp [Applied.isOk, hne]
  · simp [Applied.isOk]

theorem applyPut_accepted {index : Nat} {value : Value} {expect : Option Nat}
    (hok : (sm.applyPut index key value expect).1.isOk = true) :
    (sm.applyPut index key value expect).2.kv = sm.kv.insert key
      ⟨value, match sm.kv[key]? with | some e => e.ver + 1 | none => 1, index⟩ := by
  unfold applyPut at hok ⊢
  repeat' split at hok
  all_goals simp_all [Applied.isOk]

theorem applyPut_rejected {index : Nat} {value : Value} {expect : Option Nat}
    (hok : (sm.applyPut index key value expect).1.isOk = false) :
    (sm.applyPut index key value expect).2.kv = sm.kv := by
  unfold applyPut at hok ⊢
  repeat' split at hok
  all_goals simp_all [Applied.isOk]

theorem applyDelete_isOk {expect : Option Nat} :
    (sm.applyDelete key expect).1.isOk = true ↔
      ∃ cur, sm.verAt key = some cur ∧ ∀ ver, expect = some ver → cur = ver := by
  unfold applyDelete verAt
  rcases hold : sm.kv[key]? with _ | cur
  · simp [Applied.isOk]
  · rcases expect with _ | e
    · simp [Applied.isOk]
    · rcases eq_or_ne cur.ver e with rfl | hne
      · simp [Applied.isOk]
      · simp [Applied.isOk, hne]

theorem applyDelete_accepted {expect : Option Nat}
    (hok : (sm.applyDelete key expect).1.isOk = true) :
    (sm.applyDelete key expect).2.kv = sm.kv.erase key := by
  unfold applyDelete at hok ⊢
  repeat' split at hok
  all_goals simp_all [Applied.isOk]

theorem applyDelete_rejected {expect : Option Nat}
    (hok : (sm.applyDelete key expect).1.isOk = false) :
    (sm.applyDelete key expect).2.kv = sm.kv := by
  unfold applyDelete at hok ⊢
  repeat' split at hok
  all_goals simp_all [Applied.isOk]

/-- What an entry does to the version of a key. -/
theorem verAt_after (sm : StateMachine) (a : ApplyCall) (key : String) :
    (Deletes key sm a ∧ (sm.after a).verAt key = none) ∨
    (Writes key sm a ∧ ¬ a.op.deletes key ∧
      (sm.after a).verAt key = some ((sm.verAt key).getD 0 + 1)) ∨
    (¬ Writes key sm a ∧ (sm.after a).verAt key = sm.verAt key) := by
  have hkv : (sm.after a).kv = (sm.applyInner a.term a.index a.op).2.kv := rfl
  unfold Writes Deletes
  rw [outcome_eq]
  cases hop : a.op with
  | put k value expect =>
    rcases eq_or_ne k key with rfl | hk
    · rcases hok : (sm.applyPut a.index k value expect).1.isOk with _ | _
      · refine .inr (.inr ⟨fun h => absurd (hok.symm.trans h.2) (by decide), ?_⟩)
        unfold verAt
        rw [hkv, hop, applyInner, applyPut_rejected hok]
      · refine .inr (.inl ⟨⟨rfl, hok⟩, not_false, ?_⟩)
        unfold verAt
        rw [hkv, hop, applyInner, applyPut_accepted hok]
        rcases sm.kv[k]? with _ | cur <;> simp
    · refine .inr (.inr ⟨fun h => hk (Option.some.inj h.1), ?_⟩)
      unfold verAt
      rw [hkv, hop, applyInner]
      rcases hok : (sm.applyPut a.index k value expect).1.isOk with _ | _
      · rw [applyPut_rejected hok]
      · simp [applyPut_accepted hok, BTreeMap.getElem?_insert_ite, hk]
  | delete k expect =>
    rcases eq_or_ne k key with rfl | hk
    · rcases hok : (sm.applyDelete k expect).1.isOk with _ | _
      · refine .inr (.inr ⟨fun h => absurd (hok.symm.trans h.2) (by decide), ?_⟩)
        unfold verAt
        rw [hkv, hop, applyInner, applyDelete_rejected hok]
      · refine .inl ⟨⟨rfl, hok⟩, ?_⟩
        unfold verAt
        rw [hkv, hop, applyInner, applyDelete_accepted hok]
        simp
    · refine .inr (.inr ⟨fun h => hk (Option.some.inj h.1), ?_⟩)
      unfold verAt
      rw [hkv, hop, applyInner]
      rcases hok : (sm.applyDelete k expect).1.isOk with _ | _
      · rw [applyDelete_rejected hok]
      · simp [applyDelete_accepted hok, BTreeMap.getElem?_erase_ite, hk]
  | _ =>
    refine .inr (.inr ⟨fun h => absurd h.1 (by simp [Op.writes]), ?_⟩)
    unfold verAt
    rw [hkv, hop]
    simp only [applyInner, applyConfigSet, applyLeaseGrant, applyLeaseRenew, applyLeaseRelease,
      applyStepBegin, applyStepDone, applyAuditAppend]
    all_goals (repeat' split) <;> rfl

/-- A `Put` or `Delete` that expects a version is accepted at this version, and a `Put` that
expects version 0 also when the key is absent. -/
theorem verAt_of_expects (hexp : a.op.expects key ver) (hok : (sm.outcome a).isOk = true) :
    sm.verAt key = some ver ∨ ver = 0 ∧ sm.verAt key = none := by
  rw [outcome_eq] at hok
  cases hop : a.op with
  | put k value expect =>
    rw [hop] at hexp hok
    obtain ⟨rfl, rfl⟩ := hexp
    have hver := (applyPut_isOk.1 hok).2 ver rfl
    rcases hold : sm.verAt k with _ | cur
    · exact .inr ⟨by simpa [hold] using hver.symm, rfl⟩
    · exact .inl (by simpa [hold] using hver)
  | delete k expect =>
    rw [hop] at hexp hok
    obtain ⟨rfl, rfl⟩ := hexp
    obtain ⟨cur, hcur, hver⟩ := applyDelete_isOk.1 hok
    exact .inl (hcur.trans (congrArg some (hver ver rfl)))
  | _ =>
    rw [hop] at hexp
    cases hexp

/-- Versions start at 1, and no key is blank. -/
def Stored (sm : StateMachine) : Prop :=
  ∀ key ver, sm.verAt key = some ver → 0 < ver ∧ trimIsEmpty key = false

theorem accepted_of_verAt (hsm : sm.Stored) (hexp : a.op.expects key ver)
    (hver : sm.verAt key = some ver) : (sm.outcome a).isOk = true := by
  rw [outcome_eq]
  cases hop : a.op with
  | put k value expect =>
    rw [hop] at hexp
    obtain ⟨rfl, rfl⟩ := hexp
    exact applyPut_isOk.2 ⟨(hsm k ver hver).2, by simp [hver]⟩
  | delete k expect =>
    rw [hop] at hexp
    obtain ⟨rfl, rfl⟩ := hexp
    exact applyDelete_isOk.2 ⟨ver, hver, by simp⟩
  | _ =>
    rw [hop] at hexp
    cases hexp

/-- An accepted op that writes a key and does not delete it is a `Put`. -/
theorem not_blank_of_writes (h : Writes key sm a) (hdel : ¬ a.op.deletes key) :
    trimIsEmpty key = false := by
  obtain ⟨hkey, hok⟩ := h
  rw [outcome_eq] at hok
  cases hop : a.op with
  | put k value expect =>
    rw [hop] at hkey hok
    obtain rfl : k = key := Option.some.inj hkey
    exact (applyPut_isOk.1 hok).1
  | delete k expect =>
    rw [hop] at hkey hdel
    exact absurd (Option.some.inj hkey) hdel
  | _ =>
    rw [hop] at hkey
    cases hkey

theorem Stored.after (hsm : sm.Stored) (a : ApplyCall) : (sm.after a).Stored := by
  intro key ver hver
  rcases verAt_after sm a key with ⟨-, h⟩ | ⟨hw, hdel, h⟩ | ⟨-, h⟩
  · simp [h] at hver
  · obtain rfl : (sm.verAt key).getD 0 + 1 = ver := by simpa [h] using hver
    exact ⟨Nat.succ_pos _, not_blank_of_writes hw hdel⟩
  · exact hsm key ver (h ▸ hver)

theorem stored_new (shard maxSkewMs : Nat) : (StateMachine.new shard maxSkewMs).Stored := by
  intro key ver hver
  simp [verAt, new] at hver

theorem Stored.afterAll (hsm : sm.Stored) (log : List ApplyCall) : (sm.afterAll log).Stored := by
  induction log generalizing sm with
  | nil => exact hsm
  | cons a log ih => exact ih (hsm.after a)

/-- Without a deletion the version only rises, and rises with every write. -/
theorem verAt_afterAll (hkept : ¬ Sometime (Deletes key) sm log) (hver : sm.verAt key = some ver) :
    ∃ ver', (sm.afterAll log).verAt key = some ver' ∧ ver ≤ ver' ∧
      (Sometime (Writes key) sm log → ver < ver') := by
  induction log generalizing sm ver with
  | nil => exact ⟨ver, hver, le_rfl, False.elim⟩
  | cons a log ih =>
    obtain ⟨hhere, hlater⟩ := not_or.1 hkept
    rcases verAt_after sm a key with ⟨hdel, -⟩ | ⟨hw, -, h⟩ | ⟨hw, h⟩
    · exact absurd hdel hhere
    · rw [hver, Option.getD_some] at h
      obtain ⟨ver', hver', hle, -⟩ := ih hlater h
      exact ⟨ver', hver', by omega, fun _ => by omega⟩
    · obtain ⟨ver', hver', hle, hlt⟩ := ih hlater (h.trans hver)
      exact ⟨ver', hver', hle, fun hs => hlt (hs.resolve_left hw)⟩

theorem Sometime.writes (h : Sometime (Deletes key) sm log) : Sometime (Writes key) sm log := by
  induction log generalizing sm with
  | nil => exact h
  | cons a log ih =>
    rcases h with h | h
    · exact .inl ⟨Op.writes_of_deletes h.1, h.2⟩
    · exact .inr (ih h)

/-- A version that is expected says that nothing was written exactly when no key that was deleted
comes back to a version read before. -/
theorem casUnchanged_iff (shard maxSkewMs : Nat) (log : List ApplyCall) :
    CasUnchanged (.new shard maxSkewMs) log ↔ NoneRecreated (.new shard maxSkewMs) log := by
  have hsm : (StateMachine.new shard maxSkewMs).Stored := stored_new shard maxSkewMs
  constructor
  · intro h before between cas after key ver hlog hread hexp hdel hver
    have hok := accepted_of_verAt ((hsm.afterAll before).afterAll between) hexp hver
    exact h.since before between cas after key ver hlog hread hexp hok hdel.writes
  · intro h
    constructor
    · intro before between cas after key ver hlog hread hexp hok hw
      have hpos : 0 < ver := (hsm.afterAll before key ver hread).1
      rcases verAt_of_expects hexp hok with hver | ⟨rfl, -⟩
      · by_cases hdel : Sometime (Deletes key) ((StateMachine.new shard maxSkewMs).afterAll before)
          between
        · exact h before between cas after key ver hlog hread hexp hdel hver
        · obtain ⟨ver', hver', -, hlt⟩ := verAt_afterAll hdel hread
          have heq : ver = ver' := Option.some.inj (hver.symm.trans hver')
          exact absurd (hlt hw) (by omega)
      · exact absurd hpos (lt_irrefl 0)
    · intro before cas after key hlog hexp hok
      rcases verAt_of_expects hexp hok with hver | ⟨-, hnone⟩
      · exact absurd (hsm.afterAll before key 0 hver).1 (lt_irrefl 0)
      · exact hnone

/-- A key that was read at version 1, deleted and put again is at version 1, and the writer that
read it is not told. -/
theorem recreated_unnoticed : ¬ ∀ shard maxSkewMs log, CasUnchanged (.new shard maxSkewMs) log := by
  intro hall
  let put : ApplyCall := ⟨1, 1, .put "k" .null none⟩
  let del : ApplyCall := ⟨2, 1, .delete "k" none⟩
  let again : ApplyCall := ⟨3, 1, .put "k" .null none⟩
  let cas : ApplyCall := ⟨4, 1, .put "k" .null (some 1)⟩
  refine (hall 0 1000 [put, del, again, cas]).since [put] [del, again] cas [] "k" 1 rfl ?_
    ⟨rfl, rfl⟩ ?_ (.inl ⟨rfl, ?_⟩)
  · decide +kernel
  · decide +kernel
  · decide +kernel

end StateMachine

end Rdsctl.Ha
