import Rdsctl.Ha.Progress
import Rdsctl.Ha.Sessions
import Rdsctl.Ha.Versions

/-!
# What every replica holds

A state machine that has applied one entry after another numbers what it keeps by these entries: no
two keys, no two leases and no two steps of the ledger have the same one, so no two leases have the
same fence, and the tail of the audit is what was appended last, without a gap (`Kept`). Every replica
of a cluster is such a state machine and every snapshot holds one, also when it has been read from
another member's snapshot (`replicas_kept`).
-/

namespace Rdsctl.Ha

open Fallible

/-! ## Entries with a place -/

theorem BTreeMap.erase_eq_some {β : Type} {m : BTreeMap String β} {k k' : String} {v : β}
    (h : (m.erase k)[k']? = some v) : m[k']? = some v := by
  rw [getElem?_erase_ite] at h
  split at h
  · cases h
  · exact h

/-- What holds of all entries and of a new one. -/
theorem BTreeMap.insert_all {β : Type} {m : BTreeMap String β} {P : String → β → Prop} {k : String}
    {v : β} (h : ∀ (k : String) (v : β), m[k]? = some v → P k v) (hv : P k v) :
    ∀ (k' : String) (v' : β), (m.insert k v)[k']? = some v' → P k' v' := by
  intro k' v' hv'
  rcases insert_eq_some hv' with ⟨rfl, rfl⟩ | hold
  · exact hv
  · exact h k' v' hold

/-- The entries of a map have places from 1 to `n`, each its own. -/
structure Placed {β : Type} (place : β → Nat) (n : Nat) (m : BTreeMap String β) : Prop where
  pos : ∀ (k : String) (v : β), m[k]? = some v → 0 < place v
  le : ∀ (k : String) (v : β), m[k]? = some v → place v ≤ n
  own : ∀ (k k' : String) (v v' : β), m[k]? = some v → m[k']? = some v' → place v = place v' → k = k'

namespace Placed

variable {β : Type} {place : β → Nat} {n n' : Nat} {m m' : BTreeMap String β} {k : String} {v old : β}

theorem empty : Placed place n ∅ := by
  constructor <;> simp

/-- Fewer entries, and room for more places. -/
theorem sub (h : Placed place n m) (hn : n ≤ n')
    (hsub : ∀ (k : String) (v : β), m'[k]? = some v → m[k]? = some v) :
    Placed place n' m' where
  pos k v hv := h.pos k v (hsub k v hv)
  le k v hv := (h.le k v (hsub k v hv)).trans hn
  own k k' v v' hv hv' := h.own k k' v v' (hsub k v hv) (hsub k' v' hv')

theorem mono (h : Placed place n m) (hn : n ≤ n') : Placed place n' m := h.sub hn fun _ _ => id

theorem erase (h : Placed place n m) (k : String) : Placed place (n + 1) (m.erase k) :=
  h.sub (Nat.le_succ n) fun _ _ => BTreeMap.erase_eq_some

/-- An entry at the next place. -/
theorem insert_next (h : Placed place n m) (hv : place v = n + 1) :
    Placed place (n + 1) (m.insert k v) where
  pos := BTreeMap.insert_all h.pos (by omega)
  le := BTreeMap.insert_all (h.mono (Nat.le_succ n)).le hv.le
  own k1 k2 v1 v2 h1 h2 heq := by
    rcases BTreeMap.insert_eq_some h1 with ⟨hk1, rfl⟩ | hold1 <;>
      rcases BTreeMap.insert_eq_some h2 with ⟨hk2, rfl⟩ | hold2
    · rw [hk1, hk2]
    · have := h.le k2 v2 hold2
      omega
    · have := h.le k1 v1 hold1
      omega
    · exact h.own k1 k2 v1 v2 hold1 hold2 heq

/-- An entry at the place of the one it replaces. -/
theorem insert_same (h : Placed place n m) (hold : m[k]? = some old) (hv : place v = place old) :
    Placed place (n + 1) (m.insert k v) where
  pos := BTreeMap.insert_all h.pos (hv ▸ h.pos k old hold)
  le := BTreeMap.insert_all (h.mono (Nat.le_succ n)).le (hv ▸ (h.le k old hold).trans (Nat.le_succ n))
  own k1 k2 v1 v2 h1 h2 heq := by
    rcases BTreeMap.insert_eq_some h1 with ⟨rfl, rfl⟩ | hold1 <;>
      rcases BTreeMap.insert_eq_some h2 with ⟨rfl, rfl⟩ | hold2
    · rfl
    · exact h.own _ k2 old v2 hold hold2 (hv ▸ heq)
    · exact h.own k1 _ v1 old hold1 hold (hv ▸ heq)
    · exact h.own k1 k2 v1 v2 hold1 hold2 heq

end Placed

/-! ## Leases, steps and the audit -/

/-- A lease stands under its instance and has a time to live. -/
structure Lease.Fine (inst : String) (l : Lease) : Prop where
  inst_eq : l.inst = inst
  inst_ne : trimIsEmpty inst = false
  holder_ne : trimIsEmpty l.holder = false
  ttl_pos : 0 < l.ttlMs

/-- A step is done, with its result, at an entry up to the `n`th and not before it was started, or it
has no result. -/
def StepRecord.Fine (n : Nat) (r : StepRecord) : Prop :=
  (r.state = .started ∧ r.result = none ∧ r.doneIndex = none ∧ r.startedIndex ≤ n) ∨
    r.state = .done ∧ r.result.isSome ∧ ∃ d, r.doneIndex = some d ∧ r.startedIndex ≤ d ∧ d ≤ n

theorem StepRecord.Fine.mono {n n' : Nat} {r : StepRecord} (h : r.Fine n) (hn : n ≤ n') : r.Fine n' := by
  rcases h with ⟨hs, hr, hd, hle⟩ | ⟨hs, hr, d, hd, hsd, hle⟩
  · exact .inl ⟨hs, hr, hd, hle.trans hn⟩
  · exact .inr ⟨hs, hr, d, hd, hsd, hle.trans hn⟩

/-- The rows that were appended last, numbered without a gap, from entries that rise. -/
structure AuditKept (seq n cap : Nat) (tail : List AuditRow) : Prop where
  length : tail.length = min seq cap
  seqs : tail.map AuditRow.seq = List.range' (seq + 1 - tail.length) tail.length
  rising : tail.Pairwise fun a b => a.index < b.index
  le : ∀ row ∈ tail, row.index ≤ n
  seq_le : seq ≤ n

namespace AuditKept

variable {seq n n' cap : Nat} {tail : List AuditRow} {row : AuditRow}

theorem mono (h : AuditKept seq n cap tail) (hn : n ≤ n') : AuditKept seq n' cap tail :=
  { h with
    le := fun row hrow => (h.le row hrow).trans hn
    seq_le := h.seq_le.trans hn }

/-- A row more, and the oldest ones gone that have no room. -/
theorem append (h : AuditKept seq n cap tail) (hcap : 0 < cap) (hseq : row.seq = seq + 1)
    (hindex : row.index = n + 1) :
    AuditKept (seq + 1) (n + 1) cap ((tail ++ [row]).drop ((tail ++ [row]).length - cap)) where
  length := by
    rw [List.length_drop, List.length_append, List.length_singleton, h.length]
    omega
  seqs := by
    have hle : tail.length ≤ seq := by
      rw [h.length]
      exact Nat.min_le_left _ _
    have hall : (tail ++ [row]).map AuditRow.seq =
        List.range' (seq + 1 - tail.length) (tail.length + 1) := by
      rw [List.map_append, h.seqs, List.map_singleton, hseq, List.range'_concat]
      congr 2
      omega
    have hlen := h.length
    rw [List.map_drop, hall, List.drop_range', List.length_drop, List.length_append,
      List.length_singleton]
    congr 1
    omega
  rising := by
    refine List.Pairwise.sublist (List.drop_sublist _ _) (List.pairwise_append.2 ⟨h.rising, ?_, ?_⟩)
    · exact List.pairwise_singleton _ _
    · intro a ha b hb
      obtain rfl := List.mem_singleton.1 hb
      have := h.le a ha
      omega
  le r hr := by
    rcases List.mem_append.1 (List.mem_of_mem_drop hr) with hr | hr
    · exact (h.le r hr).trans (Nat.le_succ n)
    · obtain rfl := List.mem_singleton.1 hr
      exact hindex.le
  seq_le := Nat.succ_le_succ h.seq_le

end AuditKept

namespace StateMachine

/-! ## What an entry does -/

/-- What is applied of the entry at `index`. -/
inductive Turn (sm : StateMachine) (index : Nat) : StateMachine → Prop
  | same : Turn sm index sm
  | put (key : String) (value : Value) (hkey : trimIsEmpty key = false) :
    Turn sm index { sm with kv := sm.kv.insert key ⟨value, (sm.verAt key).getD 0 + 1, index⟩ }
  | delete (key : String) : Turn sm index { sm with kv := sm.kv.erase key }
  | configSet (configEpoch maxSkewMs : Nat) (h : sm.configEpoch < configEpoch) (hms : 0 < maxSkewMs) :
    Turn sm index { sm with configEpoch := configEpoch, maxSkewMs := maxSkewMs }
  | grant (inst : String) (l : Lease) (hl : l.Fine inst) (hindex : l.grantedIndex = index) :
    Turn sm index { sm with leases := sm.leases.insert inst l }
  | renew (inst : String) (old l : Lease) (hold : sm.leases[inst]? = some old)
    (hl : old.Fine inst → l.Fine inst) (hindex : l.grantedIndex = index) :
    Turn sm index { sm with leases := sm.leases.insert inst l }
  | release (inst : String) : Turn sm index { sm with leases := sm.leases.erase inst }
  | purge (cutoffMs : Nat) :
    Turn sm index { sm with leases := sm.leases.filter fun _ l => decide (cutoffMs < l.expireAtMs) }
  | begun (k : String) (r : StepRecord) (hr : r.Fine index) (hindex : r.startedIndex = index) :
    Turn sm index { sm with steps := sm.steps.insert k r }
  | goes (k : String) (old r : StepRecord) (hold : sm.steps[k]? = some old)
    (hr : ∀ n, n ≤ index → old.Fine n → r.Fine index) (hindex : r.startedIndex = old.startedIndex) :
    Turn sm index { sm with steps := sm.steps.insert k r }
  | audit (row : AuditRow) (hseq : row.seq = sm.auditSeq + 1) (hindex : row.index = index) :
    Turn sm index { sm with
      auditSeq := sm.auditSeq + 1
      auditTail := (sm.auditTail ++ [row]).drop ((sm.auditTail ++ [row]).length - sm.auditTailCap) }

variable (sm : StateMachine) (term index : Nat)

theorem applyPut_turn (key : String) (value : Value) (expectVer : Option Nat) :
    sm.Turn index (sm.applyPut index key value expectVer).2 := by
  rcases hkey : trimIsEmpty key with _ | _
  · have hput : sm.Turn index _ := .put key value hkey
    unfold applyPut
    rw [verAt] at hput
    rcases hold : sm.kv[key]? with _ | cur
    · rw [hold] at hput
      rcases expectVer with _ | _ | expect
      · simpa [hkey] using hput
      · simpa [hkey] using hput
      · simpa [hkey] using Turn.same
    · rw [hold] at hput
      rcases expectVer with _ | expect
      · simpa [hkey] using hput
      · by_cases hver : cur.ver = expect
        · simpa [hkey, hver] using hput
        · simpa [hkey, hver] using Turn.same
  · simpa [applyPut, hkey] using Turn.same

theorem applyDelete_turn (key : String) (expectVer : Option Nat) :
    sm.Turn index (sm.applyDelete key expectVer).2 := by
  unfold applyDelete
  repeat' split
  all_goals first | exact .same | exact .delete key

theorem applyConfigSet_turn (configEpoch maxSkewMs : Nat) :
    sm.Turn index (sm.applyConfigSet configEpoch maxSkewMs).2 := by
  unfold applyConfigSet
  split
  · exact .same
  · next hepoch =>
    split
    · exact .same
    · next hms => exact .configSet _ _ (Nat.lt_of_not_le hepoch) (Nat.pos_of_ne_zero hms)

theorem applyLeaseGrant_turn (inst holder : String) (ttlMs atMs : Nat) :
    sm.Turn index (sm.applyLeaseGrant term index inst holder ttlMs atMs).2 := by
  unfold applyLeaseGrant
  dsimp only
  split
  · exact .same
  · next hblank =>
    rw [Bool.or_eq_true, not_or, Bool.not_eq_true, Bool.not_eq_true] at hblank
    split
    · exact .same
    · next httl =>
      repeat' split
      all_goals first
        | exact .same
        | exact .grant inst _ ⟨rfl, hblank.1, hblank.2, Nat.pos_of_ne_zero httl⟩ rfl

theorem applyLeaseRenew_turn (inst holder : String) (atMs : Nat) :
    sm.Turn index (sm.applyLeaseRenew term index inst holder atMs).2 := by
  unfold applyLeaseRenew
  split
  · exact .same
  · next cur hcur =>
    split
    · exact .same
    · exact .renew inst cur _ hcur (fun h => ⟨h.inst_eq, h.inst_ne, h.holder_ne, h.ttl_pos⟩) rfl

theorem applyLeaseRelease_turn (inst holder : String) :
    sm.Turn index (sm.applyLeaseRelease inst holder).2 := by
  unfold applyLeaseRelease
  repeat' split
  all_goals first | exact .same | exact .release inst

theorem applyStepBegin_turn (k : String) : sm.Turn index (sm.applyStepBegin index k).2 := by
  unfold applyStepBegin
  split
  · next r hr =>
    split
    · exact .same
    · next hdone =>
      refine .goes k r _ hr (fun n hn h => ?_) rfl
      rcases h with ⟨hs, hres, hd, hle⟩ | ⟨hs, -⟩
      · exact .inl ⟨hs, hres, hd, hle.trans hn⟩
      · exact absurd hs hdone
  · exact .begun k _ (.inl ⟨rfl, rfl, rfl, le_rfl⟩) rfl

theorem applyStepDone_turn (k : String) (result : Value) :
    sm.Turn index (sm.applyStepDone index k result).2 := by
  unfold applyStepDone
  split
  · next r hr =>
    split
    · exact .same
    · next hdone =>
      refine .goes k r _ hr (fun n hn h => ?_) rfl
      rcases h with ⟨-, -, -, hle⟩ | ⟨hs, -⟩
      · exact .inr ⟨rfl, rfl, index, rfl, hle.trans hn, le_rfl⟩
      · exact absurd hs hdone
  · exact .begun k _ (.inr ⟨rfl, rfl, index, rfl, le_rfl, le_rfl⟩) rfl

/-- An entry takes one of these turns, whatever it says. -/
theorem turn (op : Op) : sm.Turn index (sm.applyInner term index op).2 := by
  cases op with
  | noop => exact .same
  | put key value expectVer => exact sm.applyPut_turn index key value expectVer
  | delete key expectVer => exact sm.applyDelete_turn index key expectVer
  | configSet configEpoch maxSkewMs => exact sm.applyConfigSet_turn index configEpoch maxSkewMs
  | leaseGrant inst holder ttlMs atMs => exact sm.applyLeaseGrant_turn term index inst holder ttlMs atMs
  | leaseRenew inst holder atMs => exact sm.applyLeaseRenew_turn term index inst holder atMs
  | leaseRelease inst holder => exact sm.applyLeaseRelease_turn index inst holder
  | leasePurge cutoffMs => exact .purge cutoffMs
  | stepBegin taskId node step idemKey => exact sm.applyStepBegin_turn index _
  | stepDone taskId node step idemKey result => exact sm.applyStepDone_turn index _ result
  | auditAppend who inst action params result taskId => exact .audit _ rfl rfl

variable {sm term index}

/-! ## What is kept -/

/-- What holds of a state machine that has started new and applied one entry after another. -/
structure Kept (sm : StateMachine) : Prop where
  keys : Placed KvEntry.updatedIndex sm.appliedIndex sm.kv
  stored : ∀ (k : String) (e : KvEntry), sm.kv[k]? = some e →
    trimIsEmpty k = false ∧ 0 < e.ver ∧ e.ver ≤ e.updatedIndex
  leases : Placed Lease.grantedIndex sm.appliedIndex sm.leases
  held : ∀ (i : String) (l : Lease), sm.leases[i]? = some l → l.Fine i
  steps : Placed StepRecord.startedIndex sm.appliedIndex sm.steps
  recorded : ∀ (k : String) (r : StepRecord), sm.steps[k]? = some r → r.Fine sm.appliedIndex
  audit : AuditKept sm.auditSeq sm.appliedIndex 2000 sm.auditTail
  cap : sm.auditTailCap = 2000

theorem kept_new (shard maxSkewMs : Nat) : (StateMachine.new shard maxSkewMs).Kept where
  keys := .empty
  stored k e h := by simp [new] at h
  leases := .empty
  held i l h := by simp [new] at h
  steps := .empty
  recorded k r h := by simp [new] at h
  audit := ⟨rfl, rfl, .nil, fun _ h => absurd h List.not_mem_nil, le_rfl⟩
  cap := rfl

/-- The place after the entry. -/
def placedAt (sm : StateMachine) (term index : Nat) : StateMachine :=
  { sm with appliedIndex := index, appliedTerm := term }

/-- Where nothing else changes. -/
theorem Kept.placedAt (h : sm.Kept) (term : Nat) : (sm.placedAt term (sm.appliedIndex + 1)).Kept where
  keys := h.keys.mono (Nat.le_succ _)
  stored := h.stored
  leases := h.leases.mono (Nat.le_succ _)
  held := h.held
  steps := h.steps.mono (Nat.le_succ _)
  recorded k r hr := (h.recorded k r hr).mono (Nat.le_succ _)
  audit := h.audit.mono (Nat.le_succ _)
  cap := h.cap

theorem Kept.turn {sm' : StateMachine} (h : sm.Kept) (ht : sm.Turn (sm.appliedIndex + 1) sm')
    (term : Nat) : (sm'.placedAt term (sm.appliedIndex + 1)).Kept := by
  have hnext := h.placedAt term
  cases ht with
  | same => exact hnext
  | put key value hkey =>
    refine { hnext with
      keys := h.keys.insert_next rfl
      stored := BTreeMap.insert_all h.stored ⟨hkey, Nat.succ_pos _, Nat.succ_le_succ ?_⟩ }
    show (sm.verAt key).getD 0 ≤ sm.appliedIndex
    unfold verAt
    rcases hk : sm.kv[key]? with _ | e
    · exact Nat.zero_le _
    · exact (h.stored key e hk).2.2.trans (h.keys.le key e hk)
  | delete key =>
    exact { hnext with
      keys := h.keys.erase key
      stored := fun k e he => h.stored k e (BTreeMap.erase_eq_some he) }
  | configSet => exact { hnext with }
  | grant inst l hl hindex =>
    exact { hnext with
      leases := h.leases.insert_next hindex
      held := BTreeMap.insert_all h.held hl }
  | renew inst old l hold hl hindex =>
    exact { hnext with
      leases := h.leases.insert_next hindex
      held := BTreeMap.insert_all h.held (hl (h.held inst old hold)) }
  | release inst =>
    exact { hnext with
      leases := h.leases.erase inst
      held := fun i l hl => h.held i l (BTreeMap.erase_eq_some hl) }
  | purge cutoffMs =>
    have hsub : ∀ (i : String) (l : Lease),
        (sm.leases.filter fun _ l => decide (cutoffMs < l.expireAtMs))[i]? = some l →
          sm.leases[i]? = some l := by
      intro i l hl
      rw [Std.ExtTreeMap.getElem?_filter, Option.pfilter_eq_filter] at hl
      exact (Option.filter_eq_some_iff.1 hl).1
    exact { hnext with
      leases := h.leases.sub (Nat.le_succ _) hsub
      held := fun i l hl => h.held i l (hsub i l hl) }
  | begun k r hr hindex =>
    exact { hnext with
      steps := h.steps.insert_next hindex
      recorded := BTreeMap.insert_all hnext.recorded hr }
  | goes k old r hold hr hindex =>
    exact { hnext with
      steps := h.steps.insert_same hold hindex
      recorded := BTreeMap.insert_all hnext.recorded
        (hr _ (Nat.le_succ _) (h.recorded k old hold)) }
  | audit row hseq hindex =>
    refine { hnext with audit := ?_ }
    show AuditKept (sm.auditSeq + 1) (sm.appliedIndex + 1) 2000
      ((sm.auditTail ++ [row]).drop ((sm.auditTail ++ [row]).length - sm.auditTailCap))
    rw [h.cap]
    exact h.audit.append (by decide) hseq hindex

/-- The next entry keeps it. -/
theorem Kept.apply (h : sm.Kept) (term : Nat) (op : Op) :
    (sm.apply term (sm.appliedIndex + 1) op).2.Kept :=
  h.turn (sm.turn term (sm.appliedIndex + 1) op) term

end StateMachine

/-! ## Snapshots -/

section
variable [SerdeJson]

/-- The snapshot passes its check, and holds the state machine of its place. -/
def SnapshotFile.Restores (f : SnapshotFile) : Prop :=
  f.verify = .ok () ∧ ∃ sm, StateMachine.fromJson f.stateJson = .ok sm ∧ sm.Kept ∧
    sm.appliedIndex = f.lastIncludedIndex ∧ sm.configEpoch = f.configEpoch

/-- Each snapshot of a directory holds a state machine, and a restart loads the current one, or the
previous one where that is missing. -/
structure Disk.Restores (k : Disk) : Prop where
  files : ∀ o ∈ [k.snapshot, k.snapshotPrev, k.snapshotTmp], ∀ f ∈ o, f.Restores
  load : Snapshot.load k = .ok (k.snapshot.or k.snapshotPrev)

/-- The lineage of what is kept. -/
def StateMachine.kept : Lineage where
  machine := StateMachine.Kept
  file := SnapshotFile.Restores
  applied _ term op h := h.apply term op
  saved sm shard term h := by
    refine ⟨SnapshotFile.verify_new _ _ _ _ _, { sm with auditTailCap := 2000 }, ?_, ?_, rfl, rfl⟩
    · exact sm.fromJson_toJson
    · exact { h with cap := rfl }
  loaded f sm h hsm := by
    obtain ⟨-, sm', hsm', hk, -⟩ := h
    cases hsm.symm.trans hsm'
    exact hk

theorem Snapshot.readOne_of_restores {o : Option SnapshotFile} (h : ∀ f ∈ o, f.Restores) :
    readOne o = .ok o := by
  cases o with
  | none => rfl
  | some f => simp only [readOne, (h f rfl).1]

theorem Disk.Sourced.restores {k : Disk} (hk : k.Sourced StateMachine.kept) : k.Restores where
  files o ho f hf := by
    simp only [List.mem_cons, List.not_mem_nil, or_false] at ho
    rcases ho with rfl | rfl | rfl
    · exact hk.snapshot f hf
    · exact hk.snapshotPrev f hf
    · exact hk.snapshotTmp f hf
  load := by
    rw [Snapshot.load, Snapshot.readOne_of_restores hk.snapshot]
    cases hs : k.snapshot with
    | some f => rfl
    | none => exact Snapshot.readOne_of_restores hk.snapshotPrev

/-! ## Every replica -/

namespace Cluster

variable {voters : List String} {shard : Nat} {h : History Cluster Event} {c : Cluster}

/-- **What every replica holds.** In every run of a cluster, with file failures, restarts and messages
delayed, lost or delivered again: the state machine of every member, and that of every snapshot in a
directory or on its way, is one that has applied one entry after another. -/
theorem replicas_kept (hr : FreeRun voters shard h c) :
    (∀ i ∈ voters, (c.hosts i).node.sm.Kept ∧ (c.hosts i).store.disk.Restores) ∧
      ∀ p ∈ c.net, ∀ term leader json f, p.msg = .installSnapshot term leader json →
        json.fromStr = .ok f → f.Restores := by
  have hs := FreeRun.sourced (L := StateMachine.kept) hr fun cfg => StateMachine.kept_new _ _
  refine ⟨fun i hi => ⟨(hs.hosts i hi).machine, (hs.hosts i hi).disk.restores⟩, ?_⟩
  intro p hp term leader json f hmsg hf
  have hsource := hs.net p hp
  rw [hmsg] at hsource
  exact hsource f hf

end Cluster

end

section
attribute [local instance] SerdeJson.sample

/-- The replicas of a cluster whose leader has compacted its log. -/
theorem Cluster.replicas_kept_compacted : ∃ h c, FreeRun threeVoters 0 h c ∧
    (c.hosts "n1").store.disk.snapshot.isSome ∧ (c.hosts "n1").store.disk.Restores := by
  have hsome : compacted.map (fun r => (r.2.hosts "n1").store.disk.snapshot.isSome) = some true := by
    decide +kernel
  obtain ⟨⟨h, c⟩, hf, hs⟩ := Option.map_eq_some_iff.1 hsome
  have hr : FreeRun threeVoters 0 h c := Run.follow (.start three_initial) hf
  exact ⟨h, c, hr, hs, ((replicas_kept hr).1 "n1" (by simp [threeVoters])).2⟩

end

end Rdsctl.Ha
