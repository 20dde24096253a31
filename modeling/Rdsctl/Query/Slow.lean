import Rdsctl.Inst.Basic
import Rdsctl.Lib.Run
import Rdsctl.Lib.Table

/-!
# Slow-query deltas

`collect_once` of `src/slow.rs` and the baselines of `src/store.rs`. A node counts its statements by
schema and digest until it is restarted or its table is truncated. A round loads the baselines, reads the
500 rows of the most time from every node and records what each row has grown by since its baseline; then
it puts the rows of the read in the place of the baselines of the node. Baselines go by instance, role and
digest.

A `Reading` is what one read has found and recorded.
-/

namespace Rdsctl.Query

open Inst

/-! ## Rows -/

/-- A row of `events_statements_summary_by_digest`, with times in picoseconds. -/
structure DigestRow where
  schema : String
  digest : String
  text : String
  count : Nat
  sumTimer : Nat
  maxTimer : Nat
  firstSeen : Nat
  lastSeen : Nat
deriving DecidableEq, Repr

namespace DigestRow

def key (r : DigestRow) : String × String := (r.schema, r.digest)

/-- A statement is counted in the row of its kind. -/
def merge (old new : DigestRow) : DigestRow :=
  { old with
    count := old.count + new.count
    sumTimer := old.sumTimer + new.sumTimer
    maxTimer := max old.maxTimer new.maxTimer
    lastSeen := new.lastSeen }

end DigestRow

/-- `ROUND(x/1000000000)` -/
def toMs (ps : Nat) : Nat := (ps + 500000000) / 1000000000

theorem toMs_mono {a b : Nat} (h : a ≤ b) : toMs a ≤ toMs b :=
  Nat.div_le_div_right (Nat.add_le_add_right h _)

/-- The rows are what `DIGEST_SQL` may answer. -/
def Top (rows table : List DigestRow) : Prop :=
  (rows.map DigestRow.key).Nodup ∧ rows.length = min 500 table.length ∧
    (∀ r ∈ rows, r ∈ table) ∧ ∀ r ∈ rows, ∀ r' ∈ table, r' ∉ rows → r'.sumTimer ≤ r.sumTimer

instance (rows table : List DigestRow) : Decidable (Top rows table) := by
  unfold Top
  infer_instance

/-- A row of `slow_digest_snapshots`. -/
structure SlowSample where
  inst : String
  node : String
  schema : String
  digest : String
  digestText : String
  countStar : Nat
  sumMs : Nat
  avgMs : Nat
  maxMs : Nat
  firstSeen : Nat
  lastSeen : Nat
deriving DecidableEq, Repr

/-- A row of `slow_baselines`. -/
structure SlowBase where
  inst : String
  node : String
  digest : String
  countStar : Nat
  sumMs : Nat
  seenAt : Nat
deriving DecidableEq, Repr

/-- The primary key of a baseline. -/
def SlowBase.key (b : SlowBase) : String × String × String := (b.inst, b.node, b.digest)

/-- What the map of the baselines holds under a key. -/
def baselineOf (bases : List SlowBase) (inst node digest : String) : Option (Nat × Nat) :=
  (bases.reverse.find? fun b => b.key = (inst, node, digest)).map fun b => (b.countStar, b.sumMs)

/-! ## A round -/

/-- The store behind `slow_baselines_set`. -/
inductive SlowStore
  | memory
  | mysql
deriving DecidableEq, Repr

/-- The baselines of the other nodes. -/
def otherBaselines (bases : List SlowBase) (inst node : String) : List SlowBase :=
  bases.filter fun b => b.inst ≠ inst || b.node ≠ node

/-- `slow_baselines_set`. The `INSERT` of the MySQL store fails as a whole on a key that comes twice, and
the `DELETE` before it stands. -/
def SlowStore.baselinesSet (kind : SlowStore) (bases : List SlowBase) (inst node : String)
    (rows : List SlowBase) : List SlowBase :=
  match kind with
  | .memory => rows.foldl (Table.upsert SlowBase.key fun _ b => b) (otherBaselines bases inst node)
  | .mysql =>
    if (rows.map SlowBase.digest).Nodup then
      otherBaselines bases inst node ++ rows.map fun b => { b with inst, node }
    else otherBaselines bases inst node

/-- What a row of a read is recorded as, and its new baseline. -/
def collectRow (loaded : List SlowBase) (inst node : String) (now : Nat) (r : DigestRow) :
    Option SlowSample × Option SlowBase :=
  if r.digest = "" then (none, none)
  else
    let sumMs := toMs r.sumTimer
    let base := (baselineOf loaded inst node r.digest).getD (0, 0)
    let newBase : SlowBase := ⟨inst, node, r.digest, r.count, sumMs, now⟩
    -- the table has been reset: what was counted since then is dropped
    if r.count < base.1 ∨ sumMs < base.2 then (none, some newBase)
    else
      let deltaCount := r.count - base.1
      let deltaSum := sumMs - base.2
      (if 0 < deltaCount then
          some ⟨inst, node, r.schema, r.digest, r.text, deltaCount, deltaSum, deltaSum / deltaCount,
            toMs r.maxTimer, r.firstSeen, r.lastSeen⟩
        else none,
        some newBase)

def samplesOf (loaded : List SlowBase) (inst node : String) (now : Nat) (rows : List DigestRow) :
    List SlowSample := rows.filterMap fun r => (collectRow loaded inst node now r).1

def basesOf (loaded : List SlowBase) (inst node : String) (now : Nat) (rows : List DigestRow) :
    List SlowBase := rows.filterMap fun r => (collectRow loaded inst node now r).2

/-- A node that a round reads. -/
structure SlowTarget where
  inst : String
  container : String
  role : String
deriving DecidableEq, Repr

/-- The nodes of an instance that are read; `all` is `RDSCTL_SLOW_NODES=all`. -/
def targetsOf (all : Bool) (i : RdsInstance) : List SlowTarget :=
  (i.master.toList.map fun m => ⟨i.name, m.container, "master"⟩) ++ i.nodes.filterMap fun n =>
    if n.role.isOffline then some ⟨i.name, n.container, "offline"⟩
    else if all && n.role = .read then some ⟨i.name, n.container, "read"⟩
    else none

/-- The nodes that a round reads. -/
def targets (all : Bool) (instances : List RdsInstance) : List SlowTarget :=
  (instances.filter (·.status = .running)).flatMap (targetsOf all)

/-- What a read has found, with the number of resets of the node and its table at the time, and what was
recorded for it. -/
structure Reading where
  container : String
  resets : Nat
  table : List DigestRow
  rows : List DigestRow
  samples : List SlowSample

/-- The nodes, the store, the round under way with the baselines it has loaded and the nodes it has yet
to read, and the readings, newest first. -/
structure Slow where
  tables : String → List DigestRow := fun _ => []
  resets : String → Nat := fun _ => 0
  bases : List SlowBase := []
  snapshots : List SlowSample := []
  round : Option (List SlowBase × List SlowTarget) := none
  readings : List Reading := []

inductive SlowEvent
  /-- a statement ends on a node -/
  | execute (container : String) (row : DigestRow)
  /-- a node is restarted, or its table is truncated -/
  | reset (container : String)
  | start (all : Bool) (instances : List RdsInstance)
  /-- the next node is read; a query may fail -/
  | read (rows : Option (List DigestRow)) (now : Nat)
  | finish

namespace Slow

def step (kind : SlowStore) (s : Slow) : SlowEvent → Option Slow
  | .execute c row =>
    if row.digest = "" ∨ row.count = 0 then none
    else some { s with
      tables := fun x =>
        if x = c then Table.upsert DigestRow.key DigestRow.merge (s.tables c) row else s.tables x }
  | .reset c =>
    some { s with
      tables := fun x => if x = c then [] else s.tables x
      resets := fun x => if x = c then s.resets c + 1 else s.resets x }
  | .start all instances =>
    if s.round = none then
      if (instances.filter (·.status = .running)) = [] then some s
      else some { s with round := some (s.bases, targets all instances) }
    else none
  | .read result now =>
    match s.round with
    | some (loaded, t :: todo) =>
      match result with
      | none => some { s with round := some (loaded, todo) }
      | some rows =>
        if Top rows (s.tables t.container) then
          -- without a row there is no header either, and the columns are not found
          if rows = [] then some { s with round := some (loaded, todo) }
          else
            let samples := samplesOf loaded t.inst t.role now rows
            some { s with
              bases := kind.baselinesSet s.bases t.inst t.role (basesOf loaded t.inst t.role now rows)
              snapshots := s.snapshots ++ samples
              round := some (loaded, todo)
              readings := ⟨t.container, s.resets t.container, s.tables t.container, rows, samples⟩ ::
                s.readings }
        else none
    | _ => none
  | .finish =>
    match s.round with
    | some (_, []) => some { s with round := none }
    | _ => none

end Slow

/-! ## Counting once -/

/-- The executions of a digest that a table tells of. -/
def executions (table : List DigestRow) (digest : String) : Nat :=
  ((table.filter (·.digest = digest)).map DigestRow.count).sum

namespace Reading

/-- The read has found the digest. -/
def Has (x : Reading) (digest : String) : Prop := ∃ r ∈ x.rows, r.digest = digest

/-- What the read has recorded for a digest. -/
def countOf (x : Reading) (digest : String) : Nat :=
  ((x.samples.filter (·.digest = digest)).map SlowSample.countStar).sum

end Reading

/-- What the reads of a node have recorded for a digest since its `n`-th reset. -/
def recorded (readings : List Reading) (container : String) (n : Nat) (digest : String) : Nat :=
  ((readings.filter fun x => x.container = container && x.resets = n).map (·.countOf digest)).sum

/-- The last read of a node. -/
def lastReading (readings : List Reading) (container : String) : Option Reading :=
  readings.find? (·.container = container)

namespace Slow

/-- Each execution is counted once: since the last reset of a node no digest has been recorded more often
than it was executed, and what was recorded for a digest that was in every read of a node without a
reset is all that there was at the last read. -/
structure CountedOnce (s : Slow) : Prop where
  stored : s.snapshots = s.readings.reverse.flatMap Reading.samples
  atMost : ∀ c d, recorded s.readings c (s.resets c) d ≤ executions (s.tables c) d
  exact : ∀ c d last, s.resets c = 0 → lastReading s.readings c = some last →
    (∀ x ∈ s.readings, x.container = c → x.Has d) →
      recorded s.readings c 0 d = executions last.table d

/-- An instance and a label stand for one node, the same in all rounds. A digest of a read has one row on
the node, and when it was read since the last reset of the node it was in the last read. -/
def Orderly (place : String → String × String) : History Slow SlowEvent → Slow → SlowEvent → Prop
  | _, _, .start all instances => ((targets all instances).map SlowTarget.container).Nodup ∧
      ∀ t ∈ targets all instances, place t.container = (t.inst, t.role)
  | _, s, .read (some rows) _ => ∀ loaded t todo, s.round = some (loaded, t :: todo) → ∀ r ∈ rows,
      (∀ r' ∈ s.tables t.container, r'.digest = r.digest → r' = r) ∧
        ((∃ x ∈ s.readings, x.container = t.container ∧ x.resets = s.resets t.container ∧
            x.Has r.digest) →
          ∃ x, lastReading s.readings t.container = some x ∧ x.Has r.digest)
  | _, _, _ => True

/-- The runs from nodes that have counted nothing and an empty store. -/
abbrev Runs (kind : SlowStore) (place : String → String × String) :
    History Slow SlowEvent → Slow → Prop :=
  Run (step kind) (Orderly place) (· = ({} : Slow))

end Slow

/-! ## The tables of the nodes -/

section Tables

variable {table : List DigestRow} {row r : DigestRow} {d : String}

theorem keeps_merge : Table.Keeps DigestRow.key DigestRow.merge := fun _ _ h => h

/-- A statement adds to the executions of its digest. -/
theorem executions_upsert (table : List DigestRow) (row : DigestRow) (d : String) :
    executions (Table.upsert DigestRow.key DigestRow.merge table row) d =
      executions table d + if row.digest = d then row.count else 0 := by
  simp only [executions]
  induction table with
  | nil =>
    rw [Table.upsert, List.filter_singleton]
    split <;> simp_all
  | cons old table ih =>
    rw [Table.upsert]
    rcases eq_or_ne old.key row.key with hkey | hkey
    · have hdig : old.digest = row.digest := congrArg Prod.snd hkey
      have hmerge : (old.merge row).digest = old.digest := rfl
      have hcount : (old.merge row).count = old.count + row.count := rfl
      rw [if_pos hkey, List.filter_cons, List.filter_cons, hmerge, hdig]
      split
      · simp only [List.map_cons, List.sum_cons, hcount]
        simp_all
        omega
      · simp_all
    · rw [if_neg hkey, List.filter_cons, List.filter_cons]
      split
      · simp only [List.map_cons, List.sum_cons]
        omega
      · exact ih

/-- The rows of a table only grow. -/
theorem grows_upsert (row : DigestRow) (hr : r ∈ table) :
    ∃ r' ∈ Table.upsert DigestRow.key DigestRow.merge table row,
      r'.key = r.key ∧ r.count ≤ r'.count ∧ r.sumTimer ≤ r'.sumTimer := by
  induction table with
  | nil => cases hr
  | cons old table ih =>
    rw [Table.upsert]
    split
    · rcases List.mem_cons.1 hr with rfl | hr
      · exact ⟨_, List.mem_cons_self, rfl, Nat.le_add_right _ _, Nat.le_add_right _ _⟩
      · exact ⟨r, List.mem_cons_of_mem _ hr, rfl, Nat.le_refl _, Nat.le_refl _⟩
    · rcases List.mem_cons.1 hr with rfl | hr
      · exact ⟨r, List.mem_cons_self, rfl, Nat.le_refl _, Nat.le_refl _⟩
      · obtain ⟨r', hr', hrest⟩ := ih hr
        exact ⟨r', List.mem_cons_of_mem _ hr', hrest⟩

/-- The digest of an only row has the executions of the row. -/
theorem executions_single (hnd : (table.map DigestRow.key).Nodup) (hr : r ∈ table)
    (hsingle : ∀ r' ∈ table, r'.digest = r.digest → r' = r) : executions table r.digest = r.count := by
  have hfilter : table.filter (·.digest = r.digest) = [r] := by
    refine List.perm_singleton.1 ((List.perm_ext_iff_of_nodup ?_ (List.nodup_singleton r)).2 fun r' => ?_)
    · exact (List.Nodup.of_map _ hnd).filter _
    · rw [List.mem_filter, List.mem_singleton]
      constructor
      · rintro ⟨hr', hdig⟩
        exact hsingle r' hr' (of_decide_eq_true hdig)
      · rintro rfl
        exact ⟨hr, decide_eq_true rfl⟩
  simp [executions, hfilter]

/-- The rows of a read whose digests have one row each have different digests. -/
theorem nodup_digests {rows : List DigestRow} (htop : Top rows table)
    (hsingle : ∀ r ∈ rows, ∀ r' ∈ table, r'.digest = r.digest → r' = r) :
    (rows.map DigestRow.digest).Nodup :=
  (List.Nodup.of_map _ htop.1).map_on fun r hr r' hr' hdig =>
    hsingle r' hr' r (htop.2.2.1 r hr) hdig

end Tables

/-! ## The baselines of a node -/

section Baselines

variable {bases rows : List SlowBase} {inst node d : String}

theorem baselineOf_append (bases rows : List SlowBase) (inst node d : String) :
    baselineOf (bases ++ rows) inst node d =
      (baselineOf rows inst node d).or (baselineOf bases inst node d) := by
  rw [baselineOf, List.reverse_append, List.find?_append, baselineOf, baselineOf]
  cases rows.reverse.find? fun b => decide (b.key = (inst, node, d)) <;> rfl

/-- A node has no baseline among those of others. -/
theorem baselineOf_other_self (bases : List SlowBase) (inst node d : String) :
    baselineOf (otherBaselines bases inst node) inst node d = none := by
  refine Option.map_eq_none_iff.2 (List.find?_eq_none.2 fun b hb => ?_)
  have hne := (List.mem_filter.1 (List.mem_reverse.1 hb)).2
  simp only [SlowBase.key, Prod.mk.injEq, decide_eq_true_eq]
  rintro ⟨rfl, rfl, -⟩
  simp at hne

/-- The other nodes keep theirs. -/
theorem baselineOf_other {inst' node' : String} (hne : (inst', node') ≠ (inst, node)) :
    baselineOf (otherBaselines bases inst node) inst' node' d = baselineOf bases inst' node' d := by
  rw [baselineOf, otherBaselines, ← List.filter_reverse, List.find?_filter, baselineOf]
  congr 2
  funext b
  rw [Bool.eq_iff_iff]
  simp only [SlowBase.key, decide_eq_true_eq, Bool.or_eq_true]
  refine ⟨fun h => h.2, fun h => ⟨?_, h⟩⟩
  by_contra hc
  have hboth : b.inst = inst ∧ b.node = node := by simpa using hc
  obtain ⟨h1, h2, -⟩ := by simpa using h
  exact hne (by rw [← h1, ← h2, hboth.1, hboth.2])

/-- Rows with different digests are all put in the place of the baselines of their node. -/
theorem baselinesSet_eq (kind : SlowStore) (bases : List SlowBase)
    (hrows : ∀ b ∈ rows, b.inst = inst ∧ b.node = node) (hnd : (rows.map SlowBase.digest).Nodup) :
    kind.baselinesSet bases inst node rows = otherBaselines bases inst node ++ rows := by
  cases kind with
  | mysql =>
    have hsame : (rows.map fun b => { b with inst, node }) = rows := by
      refine (List.map_congr_left fun b hb => ?_).trans (List.map_id' rows)
      obtain ⟨rfl, rfl⟩ := hrows b hb
      rfl
    rw [SlowStore.baselinesSet, if_pos hnd, hsame]
  | memory =>
    have hnew : ∀ b ∈ rows, b.key ∉ (otherBaselines bases inst node).map SlowBase.key := by
      intro b hb hmem
      obtain ⟨b', hb', hkey⟩ := List.mem_map.1 hmem
      have hne := (List.mem_filter.1 hb').2
      obtain ⟨h1, h2, -⟩ := by simpa [SlowBase.key] using hkey
      obtain ⟨h3, h4⟩ := hrows b hb
      simp [h1, h2, h3, h4] at hne
    rw [SlowStore.baselinesSet]
    generalize otherBaselines bases inst node = acc at hnew
    induction rows generalizing acc with
    | nil => exact (List.append_nil acc).symm
    | cons b rows ih =>
      obtain ⟨hnot, hnd⟩ := List.nodup_cons.1 hnd
      rw [List.foldl_cons, Table.upsert_eq_append (hnew b List.mem_cons_self),
        ih (fun x hx => hrows x (List.mem_cons_of_mem _ hx)) hnd, List.append_assoc]
      · rfl
      · intro x hx hmem
        rw [List.map_append, List.mem_append] at hmem
        rcases hmem with hmem | hmem
        · exact hnew x (List.mem_cons_of_mem _ hx) hmem
        · have hkey : x.key = b.key := List.mem_singleton.1 hmem
          obtain ⟨-, -, hdig⟩ := by simpa [SlowBase.key] using hkey
          exact hnot (hdig ▸ List.mem_map_of_mem hx)

end Baselines

/-! ## What a read records -/

section Collect

variable {loaded : List SlowBase} {inst node d : String} {now : Nat} {rows : List DigestRow} {r : DigestRow}

/-- What a row has grown by since a baseline, unless it has been reset. -/
def gain (base : Nat × Nat) (r : DigestRow) : Nat :=
  if r.count < base.1 ∨ toMs r.sumTimer < base.2 then 0 else r.count - base.1

theorem gain_le (base : Nat × Nat) (r : DigestRow) : gain base r ≤ r.count := by
  unfold gain
  split
  · exact Nat.zero_le _
  · exact Nat.sub_le _ _

/-- The new baseline of a row. -/
theorem collectRow_snd (hne : r.digest ≠ "") :
    (collectRow loaded inst node now r).2 = some ⟨inst, node, r.digest, r.count, toMs r.sumTimer, now⟩ := by
  rw [collectRow, if_neg hne]
  dsimp only
  split <;> rfl

/-- What a row is recorded as. -/
theorem collectRow_fst (loaded : List SlowBase) (inst node : String) (now : Nat) (hne : r.digest ≠ "") :
    (∀ x ∈ (collectRow loaded inst node now r).1, x.digest = r.digest) ∧
      ((collectRow loaded inst node now r).1.map SlowSample.countStar).getD 0 =
        gain ((baselineOf loaded inst node r.digest).getD (0, 0)) r := by
  rw [collectRow, if_neg hne]
  dsimp only
  unfold gain
  split
  · exact ⟨by simp, rfl⟩
  · split
    · exact ⟨by simp, rfl⟩
    next hzero => exact ⟨by simp, (Nat.eq_zero_of_not_pos hzero).symm⟩

theorem digest_samplesOf (hne : ∀ r ∈ rows, r.digest ≠ "") {x : SlowSample}
    (hx : x ∈ samplesOf loaded inst node now rows) : ∃ r ∈ rows, r.digest = x.digest := by
  obtain ⟨r, hr, hx⟩ := List.mem_filterMap.1 hx
  exact ⟨r, hr, ((collectRow_fst _ _ _ _ (hne r hr)).1 x hx).symm⟩

/-- What is recorded for a digest is the gain of its row. -/
theorem count_samplesOf (hne : ∀ r ∈ rows, r.digest ≠ "") (hnd : (rows.map DigestRow.digest).Nodup) :
    (((samplesOf loaded inst node now rows).filter (·.digest = d)).map SlowSample.countStar).sum =
      ((rows.find? (·.digest = d)).map (gain ((baselineOf loaded inst node d).getD (0, 0)))).getD 0 := by
  induction rows with
  | nil => rfl
  | cons r rows ih =>
    obtain ⟨hnot, hnd⟩ := List.nodup_cons.1 hnd
    obtain ⟨hdig, hgain⟩ := collectRow_fst loaded inst node now (hne r List.mem_cons_self)
    have hrest := ih (fun x hx => hne x (List.mem_cons_of_mem _ hx)) hnd
    have hsplit : samplesOf loaded inst node now (r :: rows) =
        (collectRow loaded inst node now r).1.toList ++ samplesOf loaded inst node now rows := by
      rw [samplesOf, List.filterMap_cons]
      cases (collectRow loaded inst node now r).1 <;> rfl
    rw [hsplit, List.filter_append, List.map_append, List.sum_append, hrest, List.find?_cons]
    rcases eq_or_ne r.digest d with rfl | hd
    · have hnone : (rows.find? (·.digest = r.digest)) = none := by
        refine List.find?_eq_none.2 fun x hx => ?_
        simpa using fun hkey : x.digest = r.digest => hnot (hkey ▸ List.mem_map_of_mem hx)
      rw [hnone]
      cases hs : (collectRow loaded inst node now r).1 with
      | none =>
        rw [hs] at hgain
        simpa using hgain
      | some x =>
        rw [hs] at hgain hdig
        simpa [hdig x rfl] using hgain
    · cases hs : (collectRow loaded inst node now r).1 with
      | none => simp [hd]
      | some x =>
        have hxd : x.digest ≠ d := (hdig x (by rw [hs]; rfl)).symm ▸ hd
        simp [hd, hxd]

theorem basesOf_eq (hne : ∀ r ∈ rows, r.digest ≠ "") : basesOf loaded inst node now rows =
    rows.map fun r => ⟨inst, node, r.digest, r.count, toMs r.sumTimer, now⟩ := by
  induction rows with
  | nil => rfl
  | cons r rows ih =>
    have hrest := ih fun x hx => hne x (List.mem_cons_of_mem _ hx)
    rw [basesOf, List.filterMap_cons, collectRow_snd (hne r List.mem_cons_self), List.map_cons, ← hrest]
    rfl

/-- The baselines that a read leaves are those of its node by its rows, and those of the others. -/
theorem baselineOf_set (kind : SlowStore) (bases loaded : List SlowBase) (inst node : String) (now : Nat)
    (hne : ∀ r ∈ rows, r.digest ≠ "") (hnd : (rows.map DigestRow.digest).Nodup) :
    (∀ d, baselineOf (kind.baselinesSet bases inst node (basesOf loaded inst node now rows)) inst node d =
        (rows.find? (·.digest = d)).map fun r => (r.count, toMs r.sumTimer)) ∧
      ∀ inst' node' d, (inst', node') ≠ (inst, node) →
        baselineOf (kind.baselinesSet bases inst node (basesOf loaded inst node now rows)) inst' node' d =
          baselineOf bases inst' node' d := by
  have hset : kind.baselinesSet bases inst node (basesOf loaded inst node now rows) =
      otherBaselines bases inst node ++ basesOf loaded inst node now rows := by
    refine baselinesSet_eq kind bases (fun b hb => ?_) ?_
    · rw [basesOf_eq hne] at hb
      obtain ⟨r, -, rfl⟩ := List.mem_map.1 hb
      exact ⟨rfl, rfl⟩
    · rw [basesOf_eq hne, List.map_map]
      exact hnd
  have hkeys : ((basesOf loaded inst node now rows).map SlowBase.key).Nodup := by
    rw [basesOf_eq hne, List.map_map]
    refine List.Nodup.of_map (fun k : String × String × String => k.2.2) ?_
    rw [List.map_map]
    exact hnd
  have hfind : ∀ inst' node' d, baselineOf (basesOf loaded inst node now rows) inst' node' d =
      (rows.find? fun r => decide ((inst, node, r.digest) = (inst', node', d))).map
        fun r => (r.count, toMs r.sumTimer) := by
    intro inst' node' d
    rw [baselineOf, Table.find?_reverse hkeys, basesOf_eq hne, List.find?_map, Option.map_map]
    rfl
  rw [hset]
  refine ⟨fun d => ?_, fun inst' node' d hdiff => ?_⟩
  · rw [baselineOf_append, baselineOf_other_self, Option.or_none, hfind]
    congr 2
    funext r
    simp
  · rw [baselineOf_append, baselineOf_other hdiff, hfind]
    have hnone : (rows.find? fun r => decide ((inst, node, r.digest) = (inst', node', d))) = none := by
      refine List.find?_eq_none.2 fun r _ => ?_
      simp only [Prod.mk.injEq, decide_eq_true_eq]
      rintro ⟨rfl, rfl, -⟩
      exact hdiff rfl
    rw [hnone]
    rfl

end Collect

/-! ## Along the rounds -/

section Readings

variable {readings : List Reading} {x : Reading} {c d : String} {n : Nat}

theorem recorded_cons (x : Reading) (readings : List Reading) (c : String) (n : Nat) (d : String) :
    recorded (x :: readings) c n d =
      (if x.container = c ∧ x.resets = n then x.countOf d else 0) + recorded readings c n d := by
  rw [recorded, recorded, List.filter_cons]
  by_cases h : x.container = c ∧ x.resets = n
  · rw [if_pos (by simpa using h), if_pos h, List.map_cons, List.sum_cons]
  · rw [if_neg (by simpa using h), if_neg h, Nat.zero_add]

/-- What no read has found is not recorded. -/
theorem recorded_eq_zero (h : ∀ x ∈ readings, x.container = c → x.resets = n → x.countOf d = 0) :
    recorded readings c n d = 0 := by
  induction readings with
  | nil => rfl
  | cons x readings ih =>
    rw [recorded_cons, ih fun y hy => h y (List.mem_cons_of_mem _ hy)]
    split
    · next hx => rw [h x List.mem_cons_self hx.1 hx.2]
    · rfl

theorem countOf_eq_zero (hs : ∀ y ∈ x.samples, x.Has y.digest) (h : ¬x.Has d) : x.countOf d = 0 := by
  have hnil : x.samples.filter (·.digest = d) = [] :=
    List.filter_eq_nil_iff.2 fun y hy => by simpa using fun hd : y.digest = d => h (hd ▸ hs y hy)
  rw [Reading.countOf, hnil]
  rfl

theorem lastReading_cons (x : Reading) (readings : List Reading) (c : String) :
    lastReading (x :: readings) c = if x.container = c then some x else lastReading readings c := by
  rw [lastReading, List.find?_cons]
  split <;> simp_all [lastReading]

theorem mem_of_lastReading (h : lastReading readings c = some x) : x ∈ readings ∧ x.container = c :=
  ⟨List.mem_of_find?_eq_some h, by simpa using List.find?_some h⟩

end Readings

namespace Slow

variable {place : String → String × String}

/-- What the guard keeps up along a run. -/
structure Sound (place : String → String × String) (s : Slow) : Prop where
  stored : s.snapshots = s.readings.reverse.flatMap Reading.samples
  keys : ∀ c, ((s.tables c).map DigestRow.key).Nodup
  named : ∀ c, ∀ r ∈ s.tables c, r.digest ≠ ""
  found : ∀ x ∈ s.readings, ∀ y ∈ x.samples, x.Has y.digest
  whole : ∀ x ∈ s.readings, ∀ r ∈ x.rows, executions x.table r.digest = r.count
  epoch : ∀ x ∈ s.readings, x.resets ≤ s.resets x.container
  newest : ∀ c last, lastReading s.readings c = some last →
    ∀ x ∈ s.readings, x.container = c → x.resets ≤ last.resets
  -- the baselines of a node are the rows of its last read
  based : ∀ c d, baselineOf s.bases (place c).1 (place c).2 d =
    (lastReading s.readings c).bind fun x =>
      (x.rows.find? (·.digest = d)).map fun r => (r.count, toMs r.sumTimer)
  round : ∀ loaded todo, s.round = some (loaded, todo) →
    (todo.map SlowTarget.container).Nodup ∧ ∀ t ∈ todo, place t.container = (t.inst, t.role) ∧
      ∀ d, baselineOf loaded t.inst t.role d = baselineOf s.bases t.inst t.role d
  grown : ∀ c last, lastReading s.readings c = some last → last.resets = s.resets c →
    ∀ r ∈ last.rows, ∃ r' ∈ s.tables c, r'.key = r.key ∧ r.count ≤ r'.count ∧ r.sumTimer ≤ r'.sumTimer
  paid : ∀ c last, lastReading s.readings c = some last → last.resets = s.resets c →
    ∀ r ∈ last.rows, recorded s.readings c (s.resets c) r.digest ≤ r.count
  atMost : ∀ c d, recorded s.readings c (s.resets c) d ≤ executions (s.tables c) d
  -- what is in every read is recorded in full
  full : ∀ c last d, s.resets c = 0 → lastReading s.readings c = some last →
    (∀ x ∈ s.readings, x.container = c → x.Has d) →
      ∀ r ∈ last.rows, r.digest = d → recorded s.readings c 0 d = r.count

namespace Sound

variable {s : Slow} {kind : SlowStore} {c d : String}

theorem countedOnce (hs : Sound place s) : s.CountedOnce where
  stored := hs.stored
  atMost := hs.atMost
  exact c d last h0 hlast hall := by
    obtain ⟨hmem, hc⟩ := mem_of_lastReading hlast
    obtain ⟨r, hr, hd⟩ := hall last hmem hc
    rw [hs.full c last d h0 hlast hall r hr hd, ← hs.whole last hmem r hr, hd]

theorem init : Sound place {} where
  stored := rfl
  keys _ := List.nodup_nil
  named _ _ h := by cases h
  found _ h := by cases h
  whole _ h := by cases h
  epoch _ h := by cases h
  newest _ _ h := by cases h
  based _ _ := rfl
  round _ _ h := by cases h
  grown _ _ h := by cases h
  paid _ _ h := by cases h
  atMost _ _ := Nat.zero_le _
  full _ _ _ _ h := by cases h

theorem step_execute (hs : Sound place s) {row : DigestRow} {s' : Slow}
    (h : step kind s (.execute c row) = some s') : Sound place s' := by
  rw [step] at h
  split at h
  · cases h
  next hrow =>
  cases h
  refine { hs with keys := fun x => ?_, named := fun x r hr => ?_, grown := ?_, atMost := fun x d => ?_ }
  · show ((if x = c then _ else _ : List DigestRow).map DigestRow.key).Nodup
    split
    · exact Table.nodup_upsert keeps_merge (hs.keys c)
    · exact hs.keys x
  · dsimp only at hr
    split at hr
    · rcases Table.mem_upsert (hs.keys c) hr with ⟨hr, -⟩ | ⟨old, hold, -, rfl⟩ | ⟨-, rfl⟩
      · exact hs.named c r hr
      · exact hs.named c old hold
      · exact fun hd => hrow (.inl hd)
    · exact hs.named x r hr
  · intro x last hlast hepoch r hr
    obtain ⟨r₁, hr₁, hkey, hcount, hsum⟩ := hs.grown x last hlast hepoch r hr
    dsimp only
    split
    next hx =>
      subst hx
      obtain ⟨r₂, hr₂, hkey', hcount', hsum'⟩ := grows_upsert row hr₁
      exact ⟨r₂, hr₂, hkey'.trans hkey, hcount.trans hcount', hsum.trans hsum'⟩
    · exact ⟨r₁, hr₁, hkey, hcount, hsum⟩
  · refine Nat.le_trans (hs.atMost x d) ?_
    dsimp only
    split
    next hx =>
      rw [executions_upsert, hx]
      exact Nat.le_add_right _ _
    · exact Nat.le_refl _

theorem step_reset (hs : Sound place s) {s' : Slow} (h : step kind s (.reset c) = some s') :
    Sound place s' := by
  cases h
  -- no read has been made since the reset
  have hnew : ∀ x ∈ s.readings, x.container = c → x.resets ≠ s.resets c + 1 := by
    rintro x hx rfl hresets
    have := hs.epoch x hx
    omega
  have hzero : ∀ d, recorded s.readings c (s.resets c + 1) d = 0 := fun d =>
    recorded_eq_zero fun x hx hc hresets => absurd hresets (hnew x hx hc)
  refine { hs with
    keys := fun x => ?_, named := fun x r hr => ?_, epoch := fun x hx => ?_,
    grown := fun x last hlast hepoch r hr => ?_, paid := fun x last hlast hepoch r hr => ?_,
    atMost := fun x d => ?_, full := fun x last d h0 => ?_ }
  · dsimp only
    split
    · exact List.nodup_nil
    · exact hs.keys x
  · dsimp only at hr
    split at hr
    · cases hr
    · exact hs.named x r hr
  · dsimp only
    split
    next hc => exact hc ▸ Nat.le_succ_of_le (hs.epoch x hx)
    · exact hs.epoch x hx
  · obtain ⟨hmem, hc⟩ := mem_of_lastReading hlast
    dsimp only at hepoch ⊢
    split at hepoch
    next hx => exact absurd hepoch (hnew last hmem (hc.trans hx))
    next hx => rw [if_neg hx]; exact hs.grown x last hlast hepoch r hr
  · obtain ⟨hmem, hc⟩ := mem_of_lastReading hlast
    dsimp only at hepoch ⊢
    split at hepoch
    next hx => exact absurd hepoch (hnew last hmem (hc.trans hx))
    next hx => rw [if_neg hx]; exact hs.paid x last hlast hepoch r hr
  · dsimp only
    split
    next hx => rw [hx, hzero]; exact Nat.zero_le _
    · exact hs.atMost x d
  · dsimp only at h0
    split at h0
    · cases h0
    · exact hs.full x last d h0

theorem step_start (hs : Sound place s) {all : Bool} {instances : List RdsInstance} {s' : Slow}
    (hnd : ((targets all instances).map SlowTarget.container).Nodup)
    (hplaced : ∀ t ∈ targets all instances, place t.container = (t.inst, t.role))
    (h : step kind s (.start all instances) = some s') : Sound place s' := by
  rw [step] at h
  split at h
  · split at h
    · cases h
      exact hs
    · cases h
      refine { hs with round := fun loaded todo h => ?_ }
      cases h
      exact ⟨hnd, fun t ht => ⟨hplaced t ht, fun _ => rfl⟩⟩
  · cases h

theorem step_finish (hs : Sound place s) {s' : Slow} (h : step kind s .finish = some s') :
    Sound place s' := by
  rw [step] at h
  split at h
  · cases h
    exact { hs with round := fun _ _ h => by cases h }
  · cases h

section Read

variable {loaded : List SlowBase} {t : SlowTarget} {todo : List SlowTarget} {rows : List DigestRow}
  {r : DigestRow}

/-- A round goes on to the next node. -/
theorem pass (hs : Sound place s) (hround : s.round = some (loaded, t :: todo)) :
    Sound place { s with round := some (loaded, todo) } := by
  refine { hs with round := fun l rest h => ?_ }
  cases h
  obtain ⟨hnd, hall⟩ := hs.round _ _ hround
  exact ⟨(List.nodup_cons.1 hnd).2, fun t' ht => hall t' (List.mem_cons_of_mem _ ht)⟩

/-- The gain of an only row since the last read of its node. -/
theorem gain_last (hs : Sound place s) {last : Reading} (hlast : lastReading s.readings c = some last)
    (hepoch : last.resets = s.resets c) {r₀ : DigestRow} (hr₀ : r₀ ∈ last.rows)
    (hd : r₀.digest = r.digest) (hone : ∀ r' ∈ s.tables c, r'.digest = r.digest → r' = r) :
    r₀.count + gain (r₀.count, toMs r₀.sumTimer) r = r.count := by
  obtain ⟨r', hr', hkey, hcount, hsum⟩ := hs.grown c last hlast hepoch r₀ hr₀
  have hdig : r'.digest = r₀.digest := congrArg Prod.snd hkey
  rw [hone r' hr' (hdig.trans hd)] at hcount hsum
  have hms := toMs_mono hsum
  rw [gain, if_neg (by simp; omega)]
  exact Nat.add_sub_cancel' hcount

/-- The baseline that a round has loaded for a node it has yet to read is the row of the last read. -/
theorem loaded_eq (hs : Sound place s) (hround : s.round = some (loaded, t :: todo)) (d : String) :
    baselineOf loaded t.inst t.role d = (lastReading s.readings t.container).bind fun x =>
      (x.rows.find? (·.digest = d)).map fun r => (r.count, toMs r.sumTimer) := by
  obtain ⟨-, hall⟩ := hs.round _ _ hround
  obtain ⟨hplaced, hbases⟩ := hall t List.mem_cons_self
  have hbased := hs.based t.container d
  rwa [hplaced, ← hbases d] at hbased

/-- A digest that was in the last read since the reset of its node. -/
theorem gain_has (hs : Sound place s) (hround : s.round = some (loaded, t :: todo)) {last : Reading}
    (hlast : lastReading s.readings t.container = some last)
    (hepoch : last.resets = s.resets t.container) (hhas : last.Has r.digest)
    (hone : ∀ r' ∈ s.tables t.container, r'.digest = r.digest → r' = r) :
    ∃ r₀ ∈ last.rows, r₀.digest = r.digest ∧
      r₀.count + gain ((baselineOf loaded t.inst t.role r.digest).getD (0, 0)) r = r.count := by
  obtain ⟨r₁, hr₁, hd₁⟩ := hhas
  cases hfind : last.rows.find? (·.digest = r.digest) with
  | none => simpa [hd₁] using List.find?_eq_none.1 hfind r₁ hr₁
  | some r₀ =>
    have hd : r₀.digest = r.digest := by simpa using List.find?_some hfind
    have hr₀ := List.mem_of_find?_eq_some hfind
    refine ⟨r₀, hr₀, hd, ?_⟩
    rw [hs.loaded_eq hround, hlast, Option.bind_some, hfind]
    exact hs.gain_last hlast hepoch hr₀ hd hone

/-- A row is recorded at most to its count. -/
theorem gain_atMost (hs : Sound place s) (hround : s.round = some (loaded, t :: todo))
    (hone : ∀ r' ∈ s.tables t.container, r'.digest = r.digest → r' = r)
    (hagain : (∃ x ∈ s.readings, x.container = t.container ∧ x.resets = s.resets t.container ∧
      x.Has r.digest) → ∃ x, lastReading s.readings t.container = some x ∧ x.Has r.digest) :
    recorded s.readings t.container (s.resets t.container) r.digest +
      gain ((baselineOf loaded t.inst t.role r.digest).getD (0, 0)) r ≤ r.count := by
  by_cases hread : ∃ x ∈ s.readings, x.container = t.container ∧ x.resets = s.resets t.container ∧
    x.Has r.digest
  · obtain ⟨last, hlast, hhas⟩ := hagain hread
    obtain ⟨x, hx, hc, hresets, -⟩ := hread
    obtain ⟨hmem, hlc⟩ := mem_of_lastReading hlast
    have hepoch : last.resets = s.resets t.container := by
      have h1 := hs.newest _ last hlast x hx hc
      have h2 := hs.epoch last hmem
      rw [hlc] at h2
      omega
    obtain ⟨r₀, hr₀, hd, hgain⟩ := hs.gain_has hround hlast hepoch hhas hone
    have hpaid := hs.paid _ last hlast hepoch r₀ hr₀
    rw [hd] at hpaid
    omega
  · have hzero : recorded s.readings t.container (s.resets t.container) r.digest = 0 :=
      recorded_eq_zero fun x hx hc hresets =>
        countOf_eq_zero (hs.found x hx) fun hhas => hread ⟨x, hx, hc, hresets, hhas⟩
    rw [hzero, Nat.zero_add]
    exact gain_le _ _

/-- A row that was in every read of a node without a reset is recorded to its count. -/
theorem gain_full (hs : Sound place s) (hround : s.round = some (loaded, t :: todo))
    (hone : ∀ r' ∈ s.tables t.container, r'.digest = r.digest → r' = r)
    (h0 : s.resets t.container = 0)
    (hall : ∀ x ∈ s.readings, x.container = t.container → x.Has r.digest) :
    recorded s.readings t.container 0 r.digest +
      gain ((baselineOf loaded t.inst t.role r.digest).getD (0, 0)) r = r.count := by
  cases hlast : lastReading s.readings t.container with
  | none =>
    have hnot : ∀ x ∈ s.readings, x.container ≠ t.container := by
      simpa [lastReading] using hlast
    rw [recorded_eq_zero fun x hx hc => absurd hc (hnot x hx), hs.loaded_eq hround, hlast]
    simp [gain]
  | some last =>
    obtain ⟨hmem, hlc⟩ := mem_of_lastReading hlast
    have hepoch : last.resets = s.resets t.container := by
      have h2 := hs.epoch last hmem
      rw [hlc] at h2
      omega
    obtain ⟨r₀, hr₀, hd, hgain⟩ := hs.gain_has hround hlast hepoch (hall last hmem hlc) hone
    rw [← hd, hs.full _ last r₀.digest h0 hlast (hd ▸ hall) r₀ hr₀ rfl, hd]
    exact hgain

/-- A read keeps all of it up. -/
theorem read (hs : Sound place s) (hplace : Function.Injective place) {now : Nat}
    (hround : s.round = some (loaded, t :: todo)) (htop : Top rows (s.tables t.container))
    (hg : ∀ r ∈ rows, (∀ r' ∈ s.tables t.container, r'.digest = r.digest → r' = r) ∧
      ((∃ x ∈ s.readings, x.container = t.container ∧ x.resets = s.resets t.container ∧
        x.Has r.digest) → ∃ x, lastReading s.readings t.container = some x ∧ x.Has r.digest))
    {new : Reading} (hnew : new = ⟨t.container, s.resets t.container, s.tables t.container, rows,
      samplesOf loaded t.inst t.role now rows⟩) :
    Sound place { s with
      bases := kind.baselinesSet s.bases t.inst t.role (basesOf loaded t.inst t.role now rows)
      snapshots := s.snapshots ++ new.samples
      round := some (loaded, todo)
      readings := new :: s.readings } := by
  have hne : ∀ r ∈ rows, r.digest ≠ "" := fun r hr => hs.named _ r (htop.2.2.1 r hr)
  have hnd := nodup_digests htop fun r hr => (hg r hr).1
  obtain ⟨hplaced, -⟩ := (hs.round _ _ hround).2 t List.mem_cons_self
  obtain ⟨hself, hothers⟩ := baselineOf_set kind s.bases loaded t.inst t.role now hne hnd
  have hc : new.container = t.container := by rw [hnew]
  have hresets : new.resets = s.resets t.container := by rw [hnew]
  have hrows : new.rows = rows := by rw [hnew]
  have htable : new.table = s.tables t.container := by rw [hnew]
  have hfound : ∀ y ∈ new.samples, new.Has y.digest := by
    intro y hy
    rw [hnew] at hy ⊢
    exact digest_samplesOf hne hy
  have hlast : ∀ c last, lastReading (new :: s.readings) c = some last →
      c = t.container ∧ last = new ∨ c ≠ t.container ∧ lastReading s.readings c = some last := by
    intro c last hlast
    rw [lastReading_cons, hc] at hlast
    split at hlast
    next h => exact .inl ⟨h.symm, (Option.some.inj hlast).symm⟩
    next h => exact .inr ⟨fun hc => h hc.symm, hlast⟩
  have hrow : ∀ r ∈ rows, recorded (new :: s.readings) t.container (s.resets t.container) r.digest =
      recorded s.readings t.container (s.resets t.container) r.digest +
        gain ((baselineOf loaded t.inst t.role r.digest).getD (0, 0)) r := by
    intro r hr
    have hcount : new.countOf r.digest =
        gain ((baselineOf loaded t.inst t.role r.digest).getD (0, 0)) r := by
      rw [hnew, Reading.countOf, count_samplesOf hne hnd, Table.find?_of_mem hnd hr]
      rfl
    rw [recorded_cons, if_pos ⟨hc, hresets⟩, hcount, Nat.add_comm]
  have hother : ∀ c n d, (c = t.container → n = s.resets t.container → ¬new.Has d) →
      recorded (new :: s.readings) c n d = recorded s.readings c n d := by
    intro c n d h
    rw [recorded_cons, hc, hresets]
    split
    next heq =>
      rw [countOf_eq_zero hfound (h heq.1.symm heq.2.symm), Nat.zero_add]
    · exact Nat.zero_add _
  refine { hs with
    stored := ?_, found := ?_, whole := ?_, epoch := ?_, newest := ?_, based := ?_, round := ?_,
    grown := ?_, paid := ?_, atMost := ?_, full := ?_ }
  · rw [hs.stored, List.reverse_cons, List.flatMap_append, List.flatMap_singleton]
  · intro x hx
    rcases List.mem_cons.1 hx with rfl | hx
    · exact hfound
    · exact hs.found x hx
  · intro x hx r hr
    rcases List.mem_cons.1 hx with rfl | hx
    · rw [hrows] at hr
      rw [htable]
      exact executions_single (hs.keys _) (htop.2.2.1 r hr) (hg r hr).1
    · exact hs.whole x hx r hr
  · intro x hx
    rcases List.mem_cons.1 hx with rfl | hx
    · rw [hresets, hc]
    · exact hs.epoch x hx
  · intro c last h x hx hxc
    rcases hlast c last h with ⟨rfl, rfl⟩ | ⟨hdiff, h⟩ <;> rcases List.mem_cons.1 hx with rfl | hx
    · exact Nat.le_refl _
    · rw [hresets, ← hxc]
      exact hs.epoch x hx
    · exact absurd (hxc.symm.trans hc) hdiff
    · exact hs.newest c last h x hx hxc
  · intro c d
    dsimp only
    rw [lastReading_cons, hc]
    split
    next h =>
      rw [← h, hplaced, hself, Option.bind_some, hrows]
    next h =>
      rw [hothers _ _ _ fun hp => h (hplace (hplaced.trans hp.symm)), hs.based]
  · intro l rest h
    cases h
    obtain ⟨hnodup, hall⟩ := hs.round _ _ hround
    obtain ⟨hnot, hnodup⟩ := List.nodup_cons.1 hnodup
    refine ⟨hnodup, fun t' ht => ?_⟩
    obtain ⟨hplaced', hbases⟩ := hall t' (List.mem_cons_of_mem _ ht)
    refine ⟨hplaced', fun d => ?_⟩
    rw [hothers _ _ _ fun hp => ?_, hbases]
    have hsame := hplace (hplaced'.trans (hp.trans hplaced.symm))
    exact hnot (hsame ▸ List.mem_map_of_mem ht)
  · intro c last h hepoch r hr
    rcases hlast c last h with ⟨rfl, rfl⟩ | ⟨-, h⟩
    · rw [hrows] at hr
      exact ⟨r, htop.2.2.1 r hr, rfl, Nat.le_refl _, Nat.le_refl _⟩
    · exact hs.grown c last h hepoch r hr
  · intro c last h hepoch r hr
    rcases hlast c last h with ⟨rfl, rfl⟩ | ⟨hdiff, h⟩
    · rw [hrows] at hr
      dsimp only
      rw [hrow r hr]
      exact hs.gain_atMost hround (hg r hr).1 (hg r hr).2
    · dsimp only
      rw [hother _ _ _ fun hsame => absurd hsame hdiff]
      exact hs.paid c last h hepoch r hr
  · intro c d
    dsimp only
    by_cases hhas : c = t.container ∧ new.Has d
    · obtain ⟨rfl, r, hr, rfl⟩ := hhas
      rw [hrows] at hr
      rw [hrow r hr, executions_single (hs.keys _) (htop.2.2.1 r hr) (hg r hr).1]
      exact hs.gain_atMost hround (hg r hr).1 (hg r hr).2
    · rw [hother _ _ _ fun hsame _ hhas' => hhas ⟨hsame, hhas'⟩]
      exact hs.atMost c d
  · intro c last d h0 h hall r hr hd
    rcases hlast c last h with ⟨rfl, rfl⟩ | ⟨hdiff, h⟩
    · rw [hrows] at hr
      subst hd
      have hfull := hs.gain_full hround (hg r hr).1 h0 fun x hx => hall x (List.mem_cons_of_mem _ hx)
      dsimp only at h0 ⊢
      have hcounted := hrow r hr
      rw [h0] at hcounted
      rw [hcounted, hfull]
    · dsimp only
      rw [hother _ _ _ fun hsame => absurd hsame hdiff]
      exact hs.full c last d h0 h (fun x hx => hall x (List.mem_cons_of_mem _ hx)) r hr hd

theorem step_read (hs : Sound place s) (hplace : Function.Injective place)
    {result : Option (List DigestRow)} {now : Nat} {h : History Slow SlowEvent} {s' : Slow}
    (hg : Orderly place h s (.read result now)) (h : step kind s (.read result now) = some s') :
    Sound place s' := by
  rw [step] at h
  split at h
  · next loaded t todo hround =>
    split at h
    · cases h
      exact hs.pass hround
    · next rows =>
      split at h
      · next htop =>
        split at h
        · cases h
          exact hs.pass hround
        · cases h
          exact hs.read hplace hround htop (hg loaded t todo hround) rfl
      · cases h
  · cases h

end Read

theorem step (hs : Sound place s) (hplace : Function.Injective place) {h : History Slow SlowEvent}
    {e : SlowEvent} {s' : Slow} (hg : Orderly place h s e) (h : Slow.step kind s e = some s') :
    Sound place s' := by
  cases e with
  | execute c row => exact hs.step_execute h
  | reset c => exact hs.step_reset h
  | start all instances => exact hs.step_start hg.1 hg.2 h
  | read result now => exact hs.step_read hplace hg h
  | finish => exact hs.step_finish h

end Sound

theorem Runs.sound {kind : SlowStore} (hplace : Function.Injective place)
    {h : History Slow SlowEvent} {s : Slow} (hr : Runs kind place h s) : Sound place s := by
  refine Run.invariant (I := fun _ s => Sound place s) ?_ ?_ hr
  · rintro s rfl
    exact Sound.init
  · intro h s e s' _ hs hg hstep
    exact hs.step hplace hg hstep

/-- While instances and labels stand for one node each, digests have one row each and none comes back
that the last read of a node has missed, each execution is counted once. -/
theorem counted_once {kind : SlowStore} (hplace : Function.Injective place)
    {h : History Slow SlowEvent} {s : Slow} (hr : Runs kind place h s) :
    ∀ t ∈ h.states s, t.CountedOnce := by
  intro t ht
  obtain ⟨h', hr'⟩ := Run.of_mem hr ht
  exact (Runs.sound hplace hr').countedOnce

/-- An instance with the given nodes. -/
def standing (nodes : List InstNode) : RdsInstance where
  name := "db"
  status := .running
  region := ""
  az := ""
  shard := ""
  enabled := true
  lvsContainer := ""
  lvsMysqlPort := 0
  nodeHosts := ∅
  proxies := []
  shards := []
  itype := "single"
  shardNum := 1
  network := ""
  nodes := nodes
  proxyContainer := ""
  proxyMysqlPort := 0
  proxyMngPort := 0
  lastError := ""

/-- A row of the digest `q` with a second for each execution. -/
def counted (n : Nat) : DigestRow := ⟨"app", "q", "SELECT ?", n, n * 10 ^ 12, 10 ^ 12, 1, 2⟩

def masterOnly : RdsInstance := standing [⟨"m", .master, "", 3306, 0, 1, "", "", "", "", 0⟩]

/-- The master of the one instance. -/
def masterPlace (c : String) : String × String := if c = "m" then ("db", "master") else (c, "")

theorem masterPlace_injective : Function.Injective masterPlace := by
  intro a b hab
  unfold masterPlace at hab
  split at hab <;> split at hab <;> simp_all

theorem orderly_masterOnly (h : History Slow SlowEvent) (s : Slow) :
    Orderly masterPlace h s (.start false [masterOnly]) := by
  have htargets : targets false [masterOnly] = [⟨"db", "m", "master"⟩] := rfl
  rw [Orderly, htargets]
  simp [masterPlace]

/-- A read of the only row of the master. -/
theorem orderly_counted (h : History Slow SlowEvent) {s : Slow} {n now : Nat}
    {loaded : List SlowBase} (hround : s.round = some (loaded, [⟨"db", "m", "master"⟩]))
    (htable : s.tables "m" = [counted n])
    (hlast : s.readings = [] ∨ ∃ x, lastReading s.readings "m" = some x ∧ x.Has "q") :
    Orderly masterPlace h s (.read (some [counted n]) now) := by
  intro loaded' t todo hround' r hr
  rw [hround] at hround'
  cases hround'
  cases List.mem_singleton.1 hr
  refine ⟨fun r' hr' _ => ?_, fun ⟨x, hx, _⟩ => ?_⟩
  · rw [htable] at hr'
    exact List.mem_singleton.1 hr'
  · rcases hlast with hnil | hlast
    · rw [hnil] at hx
      cases hx
    · exact hlast

/-- A master that is read twice, restarted and read again. -/
theorem counted_once_restarted : ∃ h s, Runs .mysql masterPlace h s ∧
    s.snapshots.map SlowSample.countStar = [3, 2] ∧ s.resets "m" = 1 ∧ ∀ t ∈ h.states s, t.CountedOnce := by
  have h0 : Runs .mysql masterPlace [] {} := .start rfl
  have h1 := Run.step (e := SlowEvent.execute "m" (counted 3)) h0 trivial rfl
  have h2 := Run.step (e := SlowEvent.start false [masterOnly]) h1 (orderly_masterOnly _ _) rfl
  have h3 := Run.step (e := SlowEvent.read (some [counted 3]) 8) h2 (orderly_counted _ rfl rfl (.inl rfl)) rfl
  have h4 := Run.step (e := SlowEvent.finish) h3 trivial rfl
  have h5 := Run.step (e := SlowEvent.execute "m" (counted 2)) h4 trivial rfl
  have h6 := Run.step (e := SlowEvent.start false [masterOnly]) h5 (orderly_masterOnly _ _) rfl
  have h7 := Run.step (e := SlowEvent.read (some [counted 5]) 9) h6
    (orderly_counted _ rfl rfl (.inr ⟨_, rfl, _, List.mem_singleton.2 rfl, rfl⟩)) rfl
  have h8 := Run.step (e := SlowEvent.reset "m") h7 trivial rfl
  exact ⟨_, _, h8, rfl, rfl, counted_once masterPlace_injective h8⟩

/-- Two offline nodes of an instance. -/
def twoOffline : RdsInstance :=
  standing [⟨"o1", .offline, "", 3306, 0, 2, "", "", "", "", 0⟩,
    ⟨"o2", .stats, "", 3306, 0, 3, "", "", "", "", 0⟩]

/-- Both nodes are read, and the first of them again. -/
def offlineRounds : List SlowEvent :=
  [.execute "o1" (counted 10), .execute "o2" (counted 3), .start false [twoOffline],
    .read (some [counted 10]) 8, .read (some [counted 3]) 8, .finish, .start false [twoOffline],
    .read (some [counted 10]) 9]

/-- The second round takes the second node's baseline for the first one's, and seven of its ten executions
are recorded again. -/
theorem recorded_again (kind : SlowStore) : ∃ h s, Run (step kind) (fun _ _ _ => True) (· = {}) h s ∧
    s.resets "o1" = 0 ∧ recorded s.readings "o1" 0 "q" = 17 ∧ executions (s.tables "o1") "q" = 10 ∧
      ¬s.CountedOnce := by
  have hf : (follow (step kind) (fun _ _ _ => True) offlineRounds [] {}).map (fun p =>
      (p.2.resets "o1", recorded p.2.readings "o1" 0 "q", executions (p.2.tables "o1") "q")) =
      some (0, 17, 10) := by
    cases kind <;> rfl
  obtain ⟨⟨h, s⟩, hfollow, hval⟩ := Option.map_eq_some_iff.1 hf
  obtain ⟨hresets, hrec, hexec⟩ : s.resets "o1" = 0 ∧ recorded s.readings "o1" 0 "q" = 17 ∧
      executions (s.tables "o1") "q" = 10 := by simpa using hval
  refine ⟨h, s, Run.follow (.start rfl) hfollow, hresets, hrec, hexec, fun hc => ?_⟩
  have hle := hc.atMost "o1" "q"
  rw [hresets, hrec, hexec] at hle
  exact absurd hle (by decide)

theorem counted_twice : ∃ h s, Run (step .mysql) (fun _ _ _ => True) (· = {}) h s ∧
    s.resets "o1" = 0 ∧ recorded s.readings "o1" 0 "q" = 17 ∧ executions (s.tables "o1") "q" = 10 ∧
      ¬s.CountedOnce :=
  recorded_again .mysql

end Slow

end Rdsctl.Query
