import Rdsctl.Ha.State

/-!
# What an op changes

A refused op, and a step that is done already, leave everything but the applied place as it was. Any
other op writes one of the maps or counters of the state machine, and there what it names: `Changes`
says for each op what. Two ops touch more than one entry, the purge of expired leases and a new row of
the audit tail, which pushes the oldest ones out.
-/

namespace Rdsctl.Ha

/-- The image with another applied place. -/
def StateImage.placed (img : StateImage) (term index : Nat) : StateImage :=
  { img with appliedIndex := index, appliedTerm := term }

/-- At most the entry under `key` differs. -/
def SameBut {β : Type} (key : String) (m m' : BTreeMap String β) : Prop :=
  ∀ k, k ≠ key → m'[k]? = m[k]?

theorem SameBut.insert {β : Type} (m : BTreeMap String β) (key : String) (v : β) :
    SameBut key m (m.insert key v) := fun k hk => by
  rw [BTreeMap.getElem?_insert_ite, if_neg hk.symm]

theorem SameBut.erase {β : Type} (m : BTreeMap String β) (key : String) :
    SameBut key m (m.erase key) := fun k hk => by
  rw [BTreeMap.getElem?_erase_ite, if_neg hk.symm]

theorem SameBut.filter {β : Type} (m : BTreeMap String β) (p : String → β → Bool) (k : String) :
    (m.filter p)[k]? = m[k]?.filter (p k) := by
  rw [Std.ExtTreeMap.getElem?_filter]
  simp

/-- What an op that is applied changes, where the audit tail keeps `cap` rows. -/
def Op.Changes (cap : Nat) (img img' : StateImage) : Op → Prop
  | .noop => img' = img
  | .put key _ _ | .delete key _ => img' = { img with kv := img'.kv } ∧ SameBut key img.kv img'.kv
  | .configSet configEpoch maxSkewMs =>
    img' = { img with configEpoch := configEpoch, maxSkewMs := maxSkewMs }
  | .leaseGrant i _ _ _ | .leaseRenew i _ _ | .leaseRelease i _ =>
    img' = { img with leases := img'.leases } ∧ SameBut i img.leases img'.leases
  | .leasePurge cutoffMs =>
    img' = { img with leases := img'.leases } ∧
      ∀ i : String, img'.leases[i]? = img.leases[i]?.filter fun l : Lease => decide (cutoffMs < l.expireAtMs)
  | .stepBegin taskId node step idemKey | .stepDone taskId node step idemKey _ =>
    img' = { img with steps := img'.steps } ∧
      SameBut (stepKey taskId node step idemKey) img.steps img'.steps
  | .auditAppend who i action params result taskId =>
    img' = { img with auditSeq := img.auditSeq + 1, auditTail := img'.auditTail } ∧
      ∃ dropped, dropped.length = img.auditTail.length + 1 - cap ∧
        img.auditTail ++ [⟨img.auditSeq + 1, img.appliedIndex, who, i, action, params, result, taskId⟩] =
          dropped ++ img'.auditTail

/-- What an op does, by its outcome. -/
def Op.Effect (op : Op) (cap : Nat) (img img' : StateImage) : Applied → Prop
  | .ok => op.Changes cap img img'
  | .rejected _ | .stepAlreadyDone _ => img' = img

namespace StateMachine

variable (sm : StateMachine) (term index : Nat)

/-- The image after an op, at the place of the op. -/
theorem toImage_apply (op : Op) :
    (sm.apply term index op).2.toImage = (sm.applyInner term index op).2.toImage.placed term index :=
  rfl

theorem effect_put (key : String) (value : Value) (expectVer : Option Nat) :
    (Op.put key value expectVer).Effect sm.auditTailCap (sm.toImage.placed term index)
      ((sm.applyPut index key value expectVer).2.toImage.placed term index)
      (sm.applyPut index key value expectVer).1 := by
  unfold applyPut
  repeat' split
  all_goals first | rfl | exact ⟨rfl, .insert _ _ _⟩

theorem effect_delete (key : String) (expectVer : Option Nat) :
    (Op.delete key expectVer).Effect sm.auditTailCap (sm.toImage.placed term index)
      ((sm.applyDelete key expectVer).2.toImage.placed term index)
      (sm.applyDelete key expectVer).1 := by
  unfold applyDelete
  repeat' split
  all_goals first | rfl | exact ⟨rfl, .erase _ _⟩

theorem effect_configSet (configEpoch maxSkewMs : Nat) :
    (Op.configSet configEpoch maxSkewMs).Effect sm.auditTailCap (sm.toImage.placed term index)
      ((sm.applyConfigSet configEpoch maxSkewMs).2.toImage.placed term index)
      (sm.applyConfigSet configEpoch maxSkewMs).1 := by
  unfold applyConfigSet
  repeat' split
  all_goals rfl

theorem effect_leaseGrant (i holder : String) (ttlMs atMs : Nat) :
    (Op.leaseGrant i holder ttlMs atMs).Effect sm.auditTailCap (sm.toImage.placed term index)
      ((sm.applyLeaseGrant term index i holder ttlMs atMs).2.toImage.placed term index)
      (sm.applyLeaseGrant term index i holder ttlMs atMs).1 := by
  unfold applyLeaseGrant
  repeat' split
  all_goals first | rfl | exact ⟨rfl, .insert _ _ _⟩

theorem effect_leaseRenew (i holder : String) (atMs : Nat) :
    (Op.leaseRenew i holder atMs).Effect sm.auditTailCap (sm.toImage.placed term index)
      ((sm.applyLeaseRenew term index i holder atMs).2.toImage.placed term index)
      (sm.applyLeaseRenew term index i holder atMs).1 := by
  unfold applyLeaseRenew
  repeat' split
  all_goals first | rfl | exact ⟨rfl, .insert _ _ _⟩

theorem effect_leaseRelease (i holder : String) :
    (Op.leaseRelease i holder).Effect sm.auditTailCap (sm.toImage.placed term index)
      ((sm.applyLeaseRelease i holder).2.toImage.placed term index)
      (sm.applyLeaseRelease i holder).1 := by
  unfold applyLeaseRelease
  repeat' split
  all_goals first | rfl | exact ⟨rfl, .erase _ _⟩

theorem effect_stepBegin (taskId node : String) (step : UInt32) (idemKey : String) :
    (Op.stepBegin taskId node step idemKey).Effect sm.auditTailCap (sm.toImage.placed term index)
      ((sm.applyStepBegin index (stepKey taskId node step idemKey)).2.toImage.placed term index)
      (sm.applyStepBegin index (stepKey taskId node step idemKey)).1 := by
  unfold applyStepBegin
  repeat' split
  all_goals first | rfl | exact ⟨rfl, .insert _ _ _⟩

theorem effect_stepDone (taskId node : String) (step : UInt32) (idemKey : String) (result : Value) :
    (Op.stepDone taskId node step idemKey result).Effect sm.auditTailCap
      (sm.toImage.placed term index)
      ((sm.applyStepDone index (stepKey taskId node step idemKey) result).2.toImage.placed term index)
      (sm.applyStepDone index (stepKey taskId node step idemKey) result).1 := by
  unfold applyStepDone
  repeat' split
  all_goals first | rfl | exact ⟨rfl, .insert _ _ _⟩

theorem effect_auditAppend (who i action params result taskId : String) :
    (Op.auditAppend who i action params result taskId).Effect sm.auditTailCap
      (sm.toImage.placed term index)
      ((sm.applyAuditAppend index who i action params result taskId).2.toImage.placed term index)
      (sm.applyAuditAppend index who i action params result taskId).1 := by
  let row : AuditRow := ⟨sm.auditSeq + 1, index, who, i, action, params, result, taskId⟩
  refine ⟨rfl, (sm.auditTail ++ [row]).take (sm.auditTail.length + 1 - sm.auditTailCap), ?_, ?_⟩
  · rw [List.length_take]
    simp [toImage, StateImage.placed]
  · simp only [toImage, StateImage.placed, applyAuditAppend, List.length_append, List.length_cons,
      List.length_nil, Nat.zero_add]
    exact (List.take_append_drop _ _).symm

/-- An op that is refused, or that ends a step once more, changes nothing but the applied place; any
other changes what `Changes` says. -/
theorem apply_effect (op : Op) :
    op.Effect sm.auditTailCap (sm.toImage.placed term index) (sm.apply term index op).2.toImage
      (sm.apply term index op).1 := by
  rw [toImage_apply]
  cases op with
  | noop => exact rfl
  | put key value expectVer => exact sm.effect_put term index key value expectVer
  | delete key expectVer => exact sm.effect_delete term index key expectVer
  | configSet configEpoch maxSkewMs => exact sm.effect_configSet term index configEpoch maxSkewMs
  | leaseGrant i holder ttlMs atMs => exact sm.effect_leaseGrant term index i holder ttlMs atMs
  | leaseRenew i holder atMs => exact sm.effect_leaseRenew term index i holder atMs
  | leaseRelease i holder => exact sm.effect_leaseRelease term index i holder
  | leasePurge cutoffMs => exact ⟨rfl, SameBut.filter _ _⟩
  | stepBegin taskId node step idemKey =>
    exact sm.effect_stepBegin term index taskId node step idemKey
  | stepDone taskId node step idemKey result =>
    exact sm.effect_stepDone term index taskId node step idemKey result
  | auditAppend who i action params result taskId =>
    exact sm.effect_auditAppend term index who i action params result taskId

end StateMachine

/-! ## Ops that change more than one entry -/

/-- One map or counter differs, in one entry at most. -/
inductive OneEntry (img img' : StateImage) : Prop
  | kv (key : String) (h : img' = { img with kv := img'.kv }) (hk : SameBut key img.kv img'.kv)
  | leases (i : String) (h : img' = { img with leases := img'.leases })
    (hi : SameBut i img.leases img'.leases)
  | steps (key : String) (h : img' = { img with steps := img'.steps })
    (hk : SameBut key img.steps img'.steps)
  | audit (row : AuditRow)
    (h : img' = { img with auditSeq := img'.auditSeq, auditTail := img.auditTail ++ [row] })
  | config
    (h : img' = { img with configEpoch := img'.configEpoch, maxSkewMs := img'.maxSkewMs })

variable {img img' : StateImage}

theorem OneEntry.sameLeases (h : OneEntry img img') : ∃ i, SameBut i img.leases img'.leases := by
  cases h with
  | leases i _ hi => exact ⟨i, hi⟩
  | kv _ h | steps _ h | audit _ h | config h => exact ⟨"", fun k _ => by rw [h]⟩

theorem OneEntry.keepsTail (h : OneEntry img img') : img.auditTail <+: img'.auditTail := by
  cases h with
  | audit row h => exact ⟨[row], (congrArg StateImage.auditTail h).symm⟩
  | kv _ h | leases _ h | steps _ h | config h =>
    exact (congrArg StateImage.auditTail h) ▸ List.prefix_refl _

/-- A state with two leases that have expired, and a full audit tail. -/
def crowded : StateMachine :=
  { StateMachine.new 0 100 with
    leases := ((∅ : BTreeMap String Lease).insert "a" ⟨"a", "n1", 1, 1, 5, 5, 0⟩).insert "b"
      ⟨"b", "n1", 1, 2, 5, 5, 0⟩
    auditSeq := 2000
    auditTail := (List.range 2000).map fun k => ⟨k + 1, k + 1, "", "", "", "", "", ""⟩ }

/-- The purge removes both leases, and the new row pushes the oldest one out. -/
theorem crowded_changes :
    ¬OneEntry (crowded.toImage.placed 1 3) (crowded.apply 1 3 (.leasePurge 10)).2.toImage ∧
      ¬OneEntry (crowded.toImage.placed 1 3)
        (crowded.apply 1 3 (.auditAppend "" "" "" "" "" "")).2.toImage := by
  constructor
  · intro h
    obtain ⟨i, hi⟩ := h.sameLeases
    have hpurged : ∀ k : String, (crowded.apply 1 3 (.leasePurge 10)).2.toImage.leases[k]? =
        (crowded.leases[k]?).filter fun l : Lease => decide (10 < l.expireAtMs) :=
      SameBut.filter crowded.leases _
    have ha : crowded.leases["a"]? = some ⟨"a", "n1", 1, 1, 5, 5, 0⟩ := by
      rw [crowded, BTreeMap.getElem?_insert_ite, if_neg (by decide), BTreeMap.getElem?_insert_ite,
        if_pos rfl]
    have hb : crowded.leases["b"]? = some ⟨"b", "n1", 1, 2, 5, 5, 0⟩ := by
      rw [crowded, BTreeMap.getElem?_insert_ite, if_pos rfl]
    rcases eq_or_ne "a" i with rfl | hne
    · have := hi "b" (by decide)
      rw [hpurged, hb] at this
      exact absurd (this.trans hb) (by simp)
    · have := hi "a" hne
      rw [hpurged, ha] at this
      exact absurd (this.trans ha) (by simp)
  · intro h
    have hlen := h.keepsTail.length_le
    have heq := h.keepsTail.eq_of_length (by
      simp [crowded, StateMachine.toImage, StateImage.placed, StateMachine.apply,
        StateMachine.applyInner, StateMachine.applyAuditAppend, StateMachine.new])
    have hfirst := congrArg (fun tail => tail[0]?.map AuditRow.seq) heq
    simp [crowded, StateMachine.toImage, StateImage.placed, StateMachine.apply,
      StateMachine.applyInner, StateMachine.applyAuditAppend, StateMachine.new] at hfirst

end Rdsctl.Ha
