import Rdsctl.Lib.Lines
import Rdsctl.Lib.Table
import Rdsctl.Lib.Run

/-!
# The instance registry in the store

`RdsManager` of `src/instance.rs` keeps its instances in a map whose keys are exact names, and the
MySQL back end of `src/store.rs` keeps them in the table `instances`, whose primary key is compared
under the collation of the table, with the operation locks in `instance_locks`. `persist` upserts a row
for each instance, and `instance_load_all` reads the rows back out of the text that the client prints.

`create` lets two names through that differ in case only, and in a cluster, where no lock row is
inserted, names that are longer than the column. `survives_iff` says that this, and values that are
too long for their columns, is all that can go wrong.
-/

namespace Rdsctl.Store

open Lines

/-! ## The tables -/

/-- A name as the collation of the tables compares it; the names are ASCII. -/
def collate (name : String) : List Char := name.toList.map Char.toLower

/-- A row of `instances`. -/
structure InstanceRow where
  name : String
  region : String
  tenant : String
  data : String
  status : String
deriving DecidableEq, Repr

/-- The values are not longer than their columns. -/
def InstanceRow.fits (row : InstanceRow) : Bool :=
  row.name.length ≤ 96 && row.region.length ≤ 64 && row.tenant.length ≤ 96 &&
    row.data.utf8ByteSize ≤ 16777215 && row.status.length ≤ 16

namespace MysqlBackend

/-- The row over the one that has its name: the name stays as it is. -/
def upsertRow (rows : List InstanceRow) (row : InstanceRow) : List InstanceRow :=
  Table.upsert (fun row => collate row.name) (fun old row => { row with name := old.name }) rows row

/-- `instance_upsert`; a value that is too long is rejected, and only logged. -/
def instanceUpsert (rows : List InstanceRow) (row : InstanceRow) : List InstanceRow :=
  if row.fits then upsertRow rows row else rows

/-- `instance_delete` -/
def instanceDelete (rows : List InstanceRow) (name : String) : List InstanceRow :=
  rows.filter fun row => collate row.name ≠ collate name

/-- A row as the client prints it with `--batch --raw`. -/
def printRow (row : InstanceRow) : List Char := row.name.toList ++ '\t' :: row.data.toList

/-- `instance_load_all`, on the trimmed output of the client. -/
def instanceLoadAll (rows : List InstanceRow) : List (String × String) :=
  (lines (trim (print (rows.map printRow)))).filterMap fun l =>
    (splitOnce '\t' l).map fun (name, data) => (String.ofList name, String.ofList data)

end MysqlBackend

/-- A row of `instance_locks`. -/
structure LockRow where
  name : String
  holder : String
  leaseUntil : Nat
deriving DecidableEq, Repr

/-- The calls on the lock of an instance. -/
inductive LockCall
  | lock
  | renew
  | unlock
deriving DecidableEq, Repr

namespace MysqlBackend

/-- The row that a statement finds under a name. -/
def lockOf (locks : List LockRow) (name : String) : Option LockRow :=
  locks.find? fun row => collate row.name = collate name

/-- Change the row that has the name. -/
def updateLock (locks : List LockRow) (name : String) (f : LockRow → LockRow) : List LockRow :=
  locks.map fun row => if collate row.name = collate name then f row else row

/-- `lock_instance` -/
def lockInstance (locks : List LockRow) (name holder : String) (leaseSecs now : Nat) :
    Bool × List LockRow :=
  if 96 < name.length || 128 < holder.length then (false, locks)
  else
    match lockOf locks name with
    | none => (true, locks ++ [⟨name, holder, now + leaseSecs⟩])
    | some row =>
      if collate row.holder = collate holder ∨ row.leaseUntil ≤ now then
        (true, updateLock locks name fun row =>
          { row with holder := holder, leaseUntil := now + leaseSecs })
      else (false, locks)

/-- `renew_instance_lock` -/
def renewInstanceLock (locks : List LockRow) (name holder : String) (leaseSecs now : Nat) :
    List LockRow :=
  updateLock locks name fun row =>
    if collate row.holder = collate holder then { row with leaseUntil := now + leaseSecs } else row

/-- `unlock_instance` -/
def unlockInstance (locks : List LockRow) (name holder : String) : List LockRow :=
  locks.filter fun row => !(collate row.name = collate name && collate row.holder = collate holder)

/-- The lock table after a call. -/
def callLock (locks : List LockRow) (name holder : String) (leaseSecs now : Nat) :
    LockCall → List LockRow
  | .lock => (lockInstance locks name holder leaseSecs now).2
  | .renew => renewInstanceLock locks name holder leaseSecs now
  | .unlock => unlockInstance locks name holder

end MysqlBackend

/-! ## The registry -/

/-- The name check of `create`. -/
def accepted (name : String) : Bool :=
  !name.toList.isEmpty &&
    name.toList.all fun c => c.isAlphanum || c = '-' || c = '_'

/-- What the store is given of an instance: some fields, and the record as JSON text. Such a text
writes control characters as escapes, and is an object. -/
structure Codec (ρ : Type) where
  name : ρ → String
  region : ρ → String
  tenant : ρ → String
  status : ρ → String
  toText : ρ → String
  fromText : String → Option ρ
  fromText_toText : ∀ r, fromText (toText r) = some r
  printable : ∀ r, ∀ c ∈ (toText r).toList, ' ' ≤ c
  object : ∀ r, ∃ cs, (toText r).toList = '\x7b' :: cs ++ ['\x7d']

variable {ρ : Type}

/-- The row that `persist` upserts for an instance. -/
def Codec.row (c : Codec ρ) (r : ρ) : InstanceRow :=
  ⟨c.name r, c.region r, c.tenant r, c.toText r, c.status r⟩

/-- Where the manager takes its operation locks: in the store, or in the cluster. -/
inductive Authority
  | store
  | cluster
deriving DecidableEq, Repr

/-- A manager with its database. -/
structure Controller (ρ : Type) where
  instances : List (String × ρ)
  rows : List InstanceRow
  locks : List LockRow

/-- What happens to them. The map is gone through in any order when it is persisted. -/
inductive ControllerEvent (ρ : Type)
  | create (name : String) (r : ρ) (order : List (String × ρ)) (holder : String)
      (leaseSecs now : Nat)
  /-- a lifecycle operation replaces the record -/
  | change (name : String) (r : ρ)
  | persist (order : List (String × ρ))
  | deleteInstance (name : String)
  /-- `load_persisted` in a new process; `fix` is what it fills in -/
  | restart (fix : ρ → ρ)
  /-- a call for the lock of an instance by this manager or another one -/
  | call (name holder : String) (leaseSecs now : Nat) (op : LockCall)
  | clearAllLocks

namespace Controller

/-- The registered names. -/
def names (s : Controller ρ) : List String := s.instances.map Prod.fst

/-- The rows after `persist`. -/
def persisted (c : Codec ρ) (rows : List InstanceRow) (order : List (String × ρ)) :
    List InstanceRow :=
  order.foldl (fun rows i => MysqlBackend.instanceUpsert rows (c.row i.2)) rows

/-- The instances that `load_persisted` finds. -/
def loaded (c : Codec ρ) (rows : List InstanceRow) : List (String × ρ) :=
  (MysqlBackend.instanceLoadAll rows).filterMap fun i => (c.fromText i.2).map fun r => (i.1, r)

/-- One event. `create` trims its name; the map of operation locks in front of the authority only
refuses more. -/
def step (c : Codec ρ) (a : Authority) (s : Controller ρ) :
    ControllerEvent ρ → Option (Controller ρ)
  | .create raw r order holder leaseSecs now =>
    let name := String.ofList (trim raw.toList)
    if !accepted name || s.names.contains name then none
    else
      let (granted, locks) := match a with
        | .store => MysqlBackend.lockInstance s.locks name holder leaseSecs now
        | .cluster => (true, s.locks)
      if !granted then none
      else some { s with
        instances := s.instances ++ [(name, r)], rows := persisted c s.rows order, locks := locks }
  | .change name r =>
    if s.names.contains name then
      some { s with instances := s.instances.map fun i => if i.1 = name then (name, r) else i }
    else none
  | .persist order => some { s with rows := persisted c s.rows order }
  | .deleteInstance name =>
    match s.instances.find? fun i => i.1 = name with
    | none => none
    | some i =>
      if c.status i.2 ≠ "destroyed" then none
      else some { s with
        instances := s.instances.filter fun i => i.1 ≠ name
        rows := MysqlBackend.instanceDelete s.rows name }
  | .restart fix => some { s with instances := (loaded c s.rows).map fun i => (i.1, fix i.2) }
  | .call name holder leaseSecs now op =>
    some { s with locks := MysqlBackend.callLock s.locks name holder leaseSecs now op }
  | .clearAllLocks => some { s with locks := [] }

/-- The record that `create` builds has the name that it was asked for, an operation leaves the name
of a record as it is, and so does loading; the order is one of the instances of the map. -/
def Proper (c : Codec ρ) (_ : History (Controller ρ) (ControllerEvent ρ)) (s : Controller ρ) :
    ControllerEvent ρ → Prop
  | .create raw r order _ _ _ =>
    c.name r = String.ofList (trim raw.toList) ∧ order.Perm (s.instances ++ [(c.name r, r)])
  | .change name r => ∀ i ∈ s.instances, i.1 = name → c.name r = c.name i.2
  | .persist order => order.Perm s.instances
  | .restart fix => ∀ r, c.name (fix r) = c.name r
  | _ => True

end Controller

/-! ## What is asked of it -/

/-- The rows that are read back are one for each registered instance, under its name, and the record
in it parses to the instance. -/
def Controller.LoadsBack (c : Codec ρ) (s : Controller ρ) : Prop :=
  ((MysqlBackend.instanceLoadAll s.rows).map fun i => (i.1, c.fromText i.2)).Perm
    (s.instances.map fun i => (i.1, some i.2))

/-- A call on the lock of a registered name leaves the lock of any other registered name as it is,
whatever the lock table holds. -/
def Controller.LocksApart (s : Controller ρ) : Prop :=
  ∀ x ∈ s.names, ∀ y ∈ s.names, x ≠ y → ∀ locks holder leaseSecs now op,
    MysqlBackend.lockOf (MysqlBackend.callLock locks x holder leaseSecs now op) y =
      MysqlBackend.lockOf locks y

/-- What an event must meet: the name of a new instance differs in more than case from every
registered one, and when instances are persisted their values are not longer than their columns. -/
def Controller.Storable (c : Codec ρ) (s : Controller ρ) : ControllerEvent ρ → Prop
  | .create _ r _ _ _ _ => (∀ x ∈ s.names, collate x ≠ collate (c.name r)) ∧
    (c.row r).fits ∧ ∀ i ∈ s.instances, (c.row i.2).fits
  | .persist _ => ∀ i ∈ s.instances, (c.row i.2).fits
  | _ => True

/-- The events that persist the instances. -/
def ControllerEvent.persists : ControllerEvent ρ → Bool
  | .create .. | .persist _ => true
  | _ => false

/-! ## Reading rows back -/

section Text

variable {rows : List InstanceRow} {row : InstanceRow} {name : String}

theorem accepted_char {ch : Char} (h : (ch.isAlphanum || ch = '-' || ch = '_') = true) :
    isWhitespace ch = false ∧ ch ≠ '\n' ∧ ch ≠ '\t' := by
  have hle : 45 ≤ ch.toNat ∧ ch.toNat ≤ 122 := by
    simp only [Bool.or_eq_true, decide_eq_true_eq] at h
    rcases h with (h | rfl) | rfl
    · have hval : ch.val.toNat = ch.toNat := rfl
      unfold Char.isAlphanum Char.isAlpha Char.isUpper Char.isLower Char.isDigit at h
      simp only [Bool.or_eq_true, Bool.and_eq_true, decide_eq_true_eq, ge_iff_le,
        UInt32.le_iff_toNat_le, hval, Char.reduceVal, UInt32.reduceToNat] at h
      omega
    · decide
    · decide
  refine ⟨?_, ?_, ?_⟩
  · simp only [isWhitespace, Bool.or_eq_false_iff, Bool.and_eq_false_iff, decide_eq_false_iff_not]
    omega
  · rintro rfl
    exact absurd hle.1 (by decide)
  · rintro rfl
    exact absurd hle.1 (by decide)

theorem accepted_all (h : accepted name) :
    name.toList ≠ [] ∧ ∀ ch ∈ name.toList, isWhitespace ch = false ∧ ch ≠ '\n' ∧ ch ≠ '\t' := by
  simp only [accepted, Bool.and_eq_true, Bool.not_eq_true', List.isEmpty_eq_false_iff] at h
  exact ⟨h.1, fun ch hch => accepted_char (List.all_eq_true.1 h.2 ch hch)⟩

/-- The name of the row is one that `create` accepts, and its data is the text of a record. -/
def Legible (c : Codec ρ) (row : InstanceRow) : Prop :=
  accepted row.name ∧ ∃ r, row.data = c.toText r

theorem Legible.clean {c : Codec ρ} (h : Legible c row) : Clean (MysqlBackend.printRow row) := by
  obtain ⟨hname, r, hdata⟩ := h
  obtain ⟨hne, hall⟩ := accepted_all hname
  obtain ⟨cs, hcs⟩ := c.object r
  rw [MysqlBackend.printRow, hdata]
  refine ⟨fun hmem => ?_, ?_, ?_⟩
  · rcases List.mem_append.1 hmem with hmem | hmem
    · exact (hall _ hmem).2.1 rfl
    · rcases List.mem_cons.1 hmem with hmem | hmem
      · cases hmem
      · exact absurd (c.printable r _ hmem) (by decide)
  · cases hn : row.name.toList with
    | nil => exact absurd hn hne
    | cons ch rest => exact ⟨ch, _, rfl, (hall ch (hn ▸ List.mem_cons_self)).1⟩
  · exact ⟨row.name.toList ++ '\t' :: '\x7b' :: cs, '\x7d', by rw [hcs]; simp, by decide⟩

/-- `instance_load_all` reads the names and the data of the rows. -/
theorem instanceLoadAll_eq {c : Codec ρ} (h : ∀ row ∈ rows, Legible c row) :
    MysqlBackend.instanceLoadAll rows = rows.map fun row => (row.name, row.data) := by
  have hclean : ∀ l ∈ rows.map MysqlBackend.printRow, Clean l := by
    intro l hl
    obtain ⟨row, hrow, rfl⟩ := List.mem_map.1 hl
    exact (h row hrow).clean
  rw [MysqlBackend.instanceLoadAll, lines_trim hclean]
  clear hclean
  induction rows with
  | nil => rfl
  | cons row rows ih =>
    have htab : '\t' ∉ row.name.toList := fun hmem =>
      ((accepted_all (h row List.mem_cons_self).1).2 _ hmem).2.2 rfl
    rw [List.map_cons, List.filterMap_cons, MysqlBackend.printRow, splitOnce_append htab,
      Option.map_some, ih fun r hr => h r (List.mem_cons_of_mem row hr), List.map_cons]
    simp

end Text

/-! ## The lock table -/

theorem lockOf_callLock {x y : String} (h : collate x ≠ collate y) (locks : List LockRow)
    (holder : String) (leaseSecs now : Nat) (op : LockCall) :
    MysqlBackend.lockOf (MysqlBackend.callLock locks x holder leaseSecs now op) y =
      MysqlBackend.lockOf locks y := by
  have hupdate : ∀ f : LockRow → LockRow, (∀ row, (f row).name = row.name) →
      MysqlBackend.lockOf (MysqlBackend.updateLock locks x f) y =
        MysqlBackend.lockOf locks y := by
    intro f hf
    induction locks with
    | nil => rfl
    | cons row locks ih =>
      rw [MysqlBackend.lockOf, MysqlBackend.updateLock, List.map_cons, List.find?_cons]
      rw [MysqlBackend.lockOf, MysqlBackend.updateLock] at ih
      rcases eq_or_ne (collate row.name) (collate x) with hx | hx
      · simp [hx, hf, h, ih, MysqlBackend.lockOf]
      · rw [if_neg hx]
        simp [ih, MysqlBackend.lockOf, List.find?_cons]
  cases op with
  | lock =>
    rw [MysqlBackend.callLock, MysqlBackend.lockInstance]
    split
    · rfl
    · split
      · simp [MysqlBackend.lockOf, List.find?_append, h]
      · split
        · exact hupdate _ fun _ => rfl
        · rfl
  | renew =>
    refine hupdate _ fun row => ?_
    split <;> rfl
  | unlock =>
    rw [MysqlBackend.callLock, MysqlBackend.unlockInstance, MysqlBackend.lockOf, List.find?_filter,
      MysqlBackend.lockOf]
    congr 1
    funext row
    rcases eq_or_ne (collate row.name) (collate y) with hy | hy
    · simp [hy, Ne.symm h]
    · simp [hy]

theorem eq_of_collate {names : List String} (h : (names.map collate).Nodup) {x y : String}
    (hx : x ∈ names) (hy : y ∈ names) (heq : collate x = collate y) : x = y :=
  List.inj_on_of_nodup_map h hx hy heq

theorem Controller.locksApart {s : Controller ρ} (h : (s.names.map collate).Nodup) :
    s.LocksApart := fun _ hx _ hy hne locks holder leaseSecs now op =>
  lockOf_callLock (fun hc => hne (eq_of_collate h hx hy hc)) locks holder leaseSecs now op

/-! ## Persisting -/

namespace Controller

variable {c : Codec ρ} {a : Authority} {s s' : Controller ρ} {e : ControllerEvent ρ}
  {rows : List InstanceRow} {order : List (String × ρ)}
  {h : History (Controller ρ) (ControllerEvent ρ)}

theorem keeps_name : Table.Keeps (fun row : InstanceRow => collate row.name)
    fun old row => { row with name := old.name } := fun _ _ h => h

/-- A row holds an instance, if not its name, and fits. -/
def Holds (c : Codec ρ) (row : InstanceRow) : Prop :=
  accepted row.name ∧ ∃ r, row = { c.row r with name := row.name } ∧ (c.row r).fits ∧
    accepted (c.name r)

theorem Holds.legible {row : InstanceRow} (h : Holds c row) : Legible c row := by
  obtain ⟨hacc, r, hrow, -⟩ := h
  exact ⟨hacc, r, by rw [hrow]; rfl⟩

theorem persisted_holds (hnd : (rows.map fun row => collate row.name).Nodup)
    (hrows : ∀ row ∈ rows, Holds c row) (horder : ∀ i ∈ order, accepted (c.name i.2)) :
    ((persisted c rows order).map fun row => collate row.name).Nodup ∧
      ∀ row ∈ persisted c rows order, Holds c row := by
  induction order generalizing rows with
  | nil => exact ⟨hnd, hrows⟩
  | cons i order ih =>
    have hrest := fun j hj => horder j (List.mem_cons_of_mem i hj)
    rw [persisted, List.foldl_cons]
    unfold MysqlBackend.instanceUpsert
    split
    · next hfits =>
      refine ih (Table.nodup_upsert keeps_name hnd) (fun row hrow => ?_) hrest
      have hi := horder i List.mem_cons_self
      rcases Table.mem_upsert hnd hrow with ⟨hrow, -⟩ | ⟨old, hold, -, rfl⟩ | ⟨-, rfl⟩
      · exact hrows row hrow
      · exact ⟨(hrows old hold).1, i.2, rfl, hfits, hi⟩
      · exact ⟨hi, i.2, rfl, hfits, hi⟩
    · exact ih hnd hrows hrest

/-- When all instances fit and their names differ in more than case, `persist` writes the row of
each of them, over a row of the same name. -/
theorem mem_persisted (hnd : (rows.map fun row => collate row.name).Nodup)
    (hfits : ∀ i ∈ order, (c.row i.2).fits)
    (hpair : ∀ i ∈ order, ∀ j ∈ order, collate (c.name i.2) = collate (c.name j.2) →
      c.name i.2 = c.name j.2)
    (hsame : ∀ row ∈ rows, ∀ i ∈ order, collate row.name = collate (c.name i.2) →
      row.name = c.name i.2) :
    (∀ row ∈ persisted c rows order, (∃ i ∈ order, row = c.row i.2) ∨
      row ∈ rows ∧ ∀ i ∈ order, collate row.name ≠ collate (c.name i.2)) ∧
    ∀ k, k ∈ (persisted c rows order).map (fun row => collate row.name) ↔
      k ∈ rows.map (fun row => collate row.name) ∨ ∃ i ∈ order, k = collate (c.name i.2) := by
  induction order generalizing rows with
  | nil => exact ⟨fun row hrow => .inr ⟨hrow, by simp⟩, by simp [persisted]⟩
  | cons i order ih =>
    have hstep : persisted c rows (i :: order) =
        persisted c (MysqlBackend.upsertRow rows (c.row i.2)) order := by
      rw [persisted, List.foldl_cons, MysqlBackend.instanceUpsert,
        if_pos (hfits i List.mem_cons_self)]
      rfl
    have hrow : ∀ row ∈ MysqlBackend.upsertRow rows (c.row i.2), row = c.row i.2 ∨
        row ∈ rows ∧ collate row.name ≠ collate (c.name i.2) := by
      intro row hrow
      rcases Table.mem_upsert hnd hrow with hrow | ⟨old, hold, hkey, rfl⟩ | ⟨-, rfl⟩
      · exact .inr hrow
      · left
        rw [hsame old hold i List.mem_cons_self hkey]
        rfl
      · exact .inl rfl
    obtain ⟨h1, h2⟩ := @ih (MysqlBackend.upsertRow rows (c.row i.2))
      (Table.nodup_upsert keeps_name hnd) (fun j hj => hfits j (List.mem_cons_of_mem i hj))
      (fun j hj k hk => hpair j (List.mem_cons_of_mem i hj) k (List.mem_cons_of_mem i hk))
      fun row hr j hj heq => by
        rcases hrow row hr with rfl | ⟨hr, -⟩
        · exact hpair i List.mem_cons_self j (List.mem_cons_of_mem i hj) heq
        · exact hsame row hr j (List.mem_cons_of_mem i hj) heq
    rw [hstep]
    refine ⟨fun row hr => ?_, fun k => ?_⟩
    · rcases h1 row hr with ⟨j, hj, rfl⟩ | ⟨hr, hne⟩
      · exact .inl ⟨j, List.mem_cons_of_mem i hj, rfl⟩
      · rcases hrow row hr with rfl | ⟨hr, hi⟩
        · exact .inl ⟨i, List.mem_cons_self, rfl⟩
        · exact .inr ⟨hr, List.forall_mem_cons.2 ⟨hi, hne⟩⟩
    · rw [h2 k, MysqlBackend.upsertRow, Table.mem_keys_upsert keeps_name, List.exists_mem_cons_iff,
        or_assoc]
      rfl

/-- What holds of any controller. -/
structure Ok (c : Codec ρ) (s : Controller ρ) : Prop where
  names : s.names.Nodup
  accepted : ∀ i ∈ s.instances, accepted i.1 ∧ accepted (c.name i.2)
  nodup : (s.rows.map fun row => collate row.name).Nodup
  rows : ∀ row ∈ s.rows, Holds c row

/-- What holds as long as all that was created and persisted could be stored. -/
structure Kept (c : Codec ρ) (s : Controller ρ) : Prop where
  own : ∀ i ∈ s.instances, c.name i.2 = i.1
  rowOwn : ∀ row ∈ s.rows, ∃ r, row = c.row r
  known : ∀ row ∈ s.rows, row.name ∈ s.names
  apart : (s.names.map collate).Nodup

theorem Ok.loadAll (h : Ok c s) : (MysqlBackend.instanceLoadAll s.rows).map
    (fun i => (i.1, c.fromText i.2)) = s.rows.map fun row => (row.name, c.fromText row.data) := by
  rw [instanceLoadAll_eq fun row hrow => (h.rows row hrow).legible, List.map_map]
  rfl

/-- What is read back was storable. -/
theorem Ok.of_loadsBack (h : Ok c s) (hload : s.LoadsBack c) :
    (s.names.map collate).Nodup ∧ ∀ i ∈ s.instances, (c.row i.2).fits := by
  rw [LoadsBack, h.loadAll] at hload
  refine ⟨?_, fun i hi => ?_⟩
  · have hperm := hload.map fun p => collate p.1
    rw [List.map_map, List.map_map] at hperm
    have hnd := hperm.nodup_iff.1 h.nodup
    rwa [Controller.names, List.map_map]
  · obtain ⟨row, hrow, heq⟩ := List.mem_map.1
      (hload.mem_iff.2 (List.mem_map.2 ⟨i, hi, rfl⟩))
    obtain ⟨-, r, hr, hfits, -⟩ := h.rows row hrow
    have hdata : row.data = c.toText r := by rw [hr]; rfl
    have hparse := congrArg Prod.snd heq
    rw [hdata, c.fromText_toText] at hparse
    cases hparse
    exact hfits

/-- Instances that can be stored are read back after they have been persisted. -/
theorem loadsBack_persisted (hok : Ok c { s with rows := persisted c rows order })
    (hnd : (rows.map fun row => collate row.name).Nodup) (hperm : order.Perm s.instances)
    (hown : ∀ i ∈ s.instances, c.name i.2 = i.1) (hrows : ∀ row ∈ rows, row.name ∈ s.names)
    (hapart : (s.names.map collate).Nodup) (hfits : ∀ i ∈ s.instances, (c.row i.2).fits) :
    Kept c { s with rows := persisted c rows order } ∧
      LoadsBack c { s with rows := persisted c rows order } := by
  have hname : ∀ i ∈ order, c.name i.2 ∈ s.names := fun i hi => by
    rw [hown i (hperm.mem_iff.1 hi)]
    exact List.mem_map.2 ⟨i, hperm.mem_iff.1 hi, rfl⟩
  obtain ⟨h1, h2⟩ := mem_persisted hnd (fun i hi => hfits i (hperm.mem_iff.1 hi))
    (fun i hi j hj => eq_of_collate hapart (hname i hi) (hname j hj))
    fun row hrow i hi => eq_of_collate hapart (hrows row hrow) (hname i hi)
  -- the rows that were there have been written over
  have hall : ∀ row ∈ persisted c rows order, ∃ i ∈ order, row = c.row i.2 := by
    intro row hrow
    refine (h1 row hrow).resolve_right fun ⟨hold, hne⟩ => ?_
    obtain ⟨i, hi, hk⟩ := List.mem_map.1 (hrows row hold)
    exact hne i (hperm.mem_iff.2 hi) (by rw [hown i hi, hk])
  refine ⟨⟨hown, fun row hrow => ?_, fun row hrow => ?_, hapart⟩, ?_⟩
  · obtain ⟨i, -, rfl⟩ := hall row hrow
    exact ⟨i.2, rfl⟩
  · obtain ⟨i, hi, rfl⟩ := hall row hrow
    exact hname i hi
  · rw [LoadsBack, hok.loadAll]
    have hnames : (s.instances.map Prod.fst).Nodup := hok.names
    refine (List.perm_ext_iff_of_nodup ?_ ?_).2 fun p => ⟨fun hp => ?_, fun hp => ?_⟩
    · refine List.Nodup.of_map (fun p : String × Option ρ => collate p.1) ?_
      rw [List.map_map]
      exact hok.nodup
    · refine List.Nodup.of_map Prod.fst ?_
      rw [List.map_map]
      exact hnames
    · obtain ⟨row, hrow, rfl⟩ := List.mem_map.1 hp
      obtain ⟨i, hi, rfl⟩ := hall row hrow
      have hmem := hperm.mem_iff.1 hi
      refine List.mem_map.2 ⟨i, hmem, ?_⟩
      rw [← hown i hmem]
      exact congrArg (Prod.mk _) (c.fromText_toText i.2).symm
    · obtain ⟨i, hi, rfl⟩ := List.mem_map.1 hp
      obtain ⟨row, hrow, hkey⟩ := List.mem_map.1
        ((h2 (collate (c.name i.2))).2 (.inr ⟨i, hperm.mem_iff.2 hi, rfl⟩))
      obtain ⟨j, hj, rfl⟩ := hall row hrow
      have hji : c.name j.2 = c.name i.2 :=
        eq_of_collate hapart (hname j hj) (hname i (hperm.mem_iff.2 hi)) hkey
      have hmem := hperm.mem_iff.1 hj
      obtain rfl : j = i := List.inj_on_of_nodup_map hnames hmem hi
        (by rw [← hown j hmem, ← hown i hi, hji])
      refine List.mem_map.2 ⟨c.row j.2, hrow, ?_⟩
      rw [← hown j hi]
      exact congrArg (Prod.mk _) (c.fromText_toText j.2)

theorem Ok.persisted (hok : Ok c s) (h : ∀ i ∈ order, Store.accepted (c.name i.2)) :
    Ok c { s with rows := Controller.persisted c s.rows order } := by
  obtain ⟨hnd, hrows⟩ := persisted_holds hok.nodup hok.rows h
  exact ⟨hok.names, hok.accepted, hnd, hrows⟩

/-- An instance has been added to the map. -/
theorem Ok.added (hok : Ok c s) {name : String} {r : ρ} (hacc : Store.accepted name)
    (hnew : name ∉ s.names) (hname : c.name r = name) (locks : List LockRow) :
    Ok c { s with instances := s.instances ++ [(name, r)], locks := locks } := by
  refine ⟨?_, fun i hi => ?_, hok.nodup, hok.rows⟩
  · rw [Controller.names, List.map_append]
    exact List.nodup_append'.2 ⟨hok.names, List.nodup_singleton _,
      List.disjoint_singleton.2 hnew⟩
  · rcases List.mem_append.1 hi with hi | hi
    · exact hok.accepted i hi
    · rw [List.mem_singleton.1 hi]
      exact ⟨hacc, hname ▸ hacc⟩

/-- What is loaded are the rows. -/
theorem Ok.mem_loaded (hok : Ok c s) (fix : ρ → ρ) :
    ((loaded c s.rows).map fun i => (i.1, fix i.2)).map Prod.fst =
        s.rows.map InstanceRow.name ∧
      ∀ i ∈ (loaded c s.rows).map fun i => (i.1, fix i.2), ∃ row ∈ s.rows, ∃ r,
        i = (row.name, fix r) ∧ row = { c.row r with name := row.name } := by
  rw [loaded, instanceLoadAll_eq fun row hrow => (hok.rows row hrow).legible]
  have hrows := hok.rows
  generalize s.rows = rows at hrows
  induction rows with
  | nil => exact ⟨rfl, by simp⟩
  | cons row rows ih =>
    obtain ⟨-, r, hr, -⟩ := hrows row List.mem_cons_self
    have hdata : c.fromText row.data = some r := by
      have hd : row.data = c.toText r := by rw [hr]; rfl
      rw [hd, c.fromText_toText]
    obtain ⟨h1, h2⟩ := ih fun row' hrow' => hrows row' (List.mem_cons_of_mem row hrow')
    simp only [List.map_cons, List.filterMap_cons, hdata, Option.map_some]
    refine ⟨by rw [h1], fun i hi => ?_⟩
    rcases List.mem_cons.1 hi with rfl | hi
    · exact ⟨row, List.mem_cons_self, r, rfl, hr⟩
    · obtain ⟨row', hrow', hx⟩ := h2 i hi
      exact ⟨row', List.mem_cons_of_mem row hrow', hx⟩

/-- What `create` does. -/
theorem step_create {raw holder : String} {r : ρ} {leaseSecs now : Nat}
    (hs : step c a s (.create raw r order holder leaseSecs now) = some s')
    (hname : c.name r = String.ofList (trim raw.toList)) :
    accepted (c.name r) ∧ c.name r ∉ s.names ∧ ∃ locks, s' = { s with
      instances := s.instances ++ [(c.name r, r)]
      rows := persisted c s.rows order, locks := locks } := by
  unfold Controller.step at hs
  dsimp only at hs
  rw [← hname] at hs
  split at hs
  · cases hs
  · next hfree =>
    simp only [Bool.or_eq_true, Bool.not_eq_true', not_or, Bool.not_eq_false,
      List.contains_iff_mem] at hfree
    refine ⟨hfree.1, hfree.2, ?_⟩
    cases a with
    | store =>
      dsimp only at hs
      split at hs
      · cases hs
      · cases hs
        exact ⟨_, rfl⟩
    | cluster =>
      cases hs
      exact ⟨_, rfl⟩

theorem Ok.step (hok : Ok c s) (hg : Proper c h s e) (hs : step c a s e = some s') : Ok c s' := by
  cases e with
  | create raw r order holder leaseSecs now =>
    obtain ⟨hname, hperm⟩ := hg
    obtain ⟨hacc, hnew, locks, rfl⟩ := step_create hs hname
    have hadd := hok.added hacc hnew rfl locks
    exact hadd.persisted fun i hi => (hadd.accepted i (hperm.mem_iff.1 hi)).2
  | change name r =>
    rw [Controller.step] at hs
    split at hs
    · cases hs
      have hnames : ∀ i : String × ρ, (if i.1 = name then (name, r) else i).1 = i.1 := by
        intro i
        split
        · exact Eq.symm ‹_›
        · rfl
      refine ⟨?_, fun i hi => ?_, hok.nodup, hok.rows⟩
      · rw [Controller.names, List.map_map]
        exact (List.map_congr_left fun i _ => hnames i) ▸ hok.names
      · obtain ⟨j, hj, rfl⟩ := List.mem_map.1 hi
        have hj' := hok.accepted j hj
        refine ⟨(hnames j).symm ▸ hj'.1, ?_⟩
        split
        · next heq => exact (hg j hj heq) ▸ hj'.2
        · exact hj'.2
    · cases hs
  | persist order =>
    cases hs
    exact hok.persisted fun i hi => (hok.accepted i (hg.mem_iff.1 hi)).2
  | deleteInstance name =>
    rw [Controller.step] at hs
    split at hs
    · cases hs
    · split at hs
      · cases hs
      · cases hs
        refine ⟨?_, fun i hi => hok.accepted i (List.mem_filter.1 hi).1, ?_,
          fun row hrow => hok.rows row (List.mem_filter.1 hrow).1⟩
        · exact hok.names.sublist (List.filter_sublist.map _)
        · exact hok.nodup.sublist (List.filter_sublist.map _)
  | restart fix =>
    cases hs
    obtain ⟨hnames, hmem⟩ := hok.mem_loaded fix
    refine ⟨?_, fun i hi => ?_, hok.nodup, hok.rows⟩
    · rw [Controller.names, hnames]
      refine List.Nodup.of_map collate ?_
      rw [List.map_map]
      exact hok.nodup
    · obtain ⟨row, hrow, r, rfl, hr⟩ := hmem i hi
      obtain ⟨hacc, r', hr', -, hacc'⟩ := hok.rows row hrow
      refine ⟨hacc, ?_⟩
      have htext : c.toText r = c.toText r' :=
        (congrArg InstanceRow.data hr).symm.trans (congrArg InstanceRow.data hr')
      have hrr : some r = some r' := by
        rw [← c.fromText_toText, htext, c.fromText_toText]
      cases hrr
      rw [hg]
      exact hacc'
  | call | clearAllLocks =>
    cases hs
    exact ⟨hok.names, hok.accepted, hok.nodup, hok.rows⟩

/-- As long as all that is created and persisted can be stored, it is read back. -/
theorem Kept.step (hok : Ok c s) (hk : Kept c s) (hg : Proper c h s e) (hst : s.Storable c e)
    (hs : step c a s e = some s') : Kept c s' ∧ (e.persists = true → LoadsBack c s') := by
  have hok' := hok.step hg hs
  cases e with
  | create raw r order holder leaseSecs now =>
    obtain ⟨hname, hperm⟩ := hg
    obtain ⟨hapart, hfit, hfits⟩ := hst
    obtain ⟨hacc, hnew, locks, rfl⟩ := step_create hs hname
    have hnames : ∀ x ∈ s.names, x ∈ (s.instances ++ [(c.name r, r)]).map Prod.fst := by
      intro x hx
      rw [List.map_append]
      exact List.mem_append_left _ hx
    have hall := loadsBack_persisted (s := ⟨s.instances ++ [(c.name r, r)], s.rows, locks⟩) hok'
      hok.nodup hperm (List.forall_mem_append.2 ⟨hk.own, by simp⟩)
      (fun row hrow => hnames _ (hk.known row hrow)) ?_
      (List.forall_mem_append.2 ⟨hfits, by simpa using hfit⟩)
    · exact ⟨hall.1, fun _ => hall.2⟩
    · rw [Controller.names, List.map_append, List.map_append]
      refine List.nodup_append'.2 ⟨hk.apart, List.nodup_singleton _, List.disjoint_singleton.2 ?_⟩
      intro hmem
      obtain ⟨x, hx, heq⟩ := List.mem_map.1 hmem
      exact hapart x hx heq
  | change name r =>
    refine ⟨?_, by simp [ControllerEvent.persists]⟩
    rw [Controller.step] at hs
    split at hs
    · cases hs
      have hnames : (s.instances.map fun i => if i.1 = name then (name, r) else i).map Prod.fst =
          s.names := by
        rw [List.map_map]
        refine List.map_congr_left fun i _ => ?_
        rw [Function.comp_apply]
        split
        · exact Eq.symm ‹_›
        · rfl
      refine ⟨fun i hi => ?_, hk.rowOwn, fun row hrow => ?_, ?_⟩
      · obtain ⟨j, hj, rfl⟩ := List.mem_map.1 hi
        split
        · next heq => exact (hg j hj heq).trans ((hk.own j hj).trans heq)
        · exact hk.own j hj
      · rw [Controller.names, hnames]
        exact hk.known row hrow
      · rw [Controller.names, hnames]
        exact hk.apart
    · cases hs
  | persist order =>
    cases hs
    have hall := loadsBack_persisted hok' hok.nodup hg hk.own hk.known hk.apart hst
    exact ⟨hall.1, fun _ => hall.2⟩
  | deleteInstance name =>
    refine ⟨?_, by simp [ControllerEvent.persists]⟩
    rw [Controller.step] at hs
    split at hs
    · cases hs
    · split at hs
      · cases hs
      · cases hs
        refine ⟨fun i hi => hk.own i (List.mem_filter.1 hi).1,
          fun row hrow => hk.rowOwn row (List.mem_filter.1 hrow).1, fun row hrow => ?_, ?_⟩
        · obtain ⟨hrow, hne⟩ := List.mem_filter.1 hrow
          obtain ⟨i, hi, heq⟩ := List.mem_map.1 (hk.known row hrow)
          refine List.mem_map.2 ⟨i, List.mem_filter.2 ⟨hi, ?_⟩, heq⟩
          rw [heq]
          refine decide_eq_true fun hc => ?_
          exact of_decide_eq_true hne (by rw [hc])
        · exact hk.apart.sublist ((List.filter_sublist.map _).map _)
  | restart fix =>
    refine ⟨?_, by simp [ControllerEvent.persists]⟩
    cases hs
    obtain ⟨hnames, hmem⟩ := hok.mem_loaded fix
    refine ⟨fun i hi => ?_, hk.rowOwn, fun row hrow => ?_, ?_⟩
    · obtain ⟨row, hrow, r, rfl, hr⟩ := hmem i hi
      obtain ⟨r', hr'⟩ := hk.rowOwn row hrow
      have htext : c.toText r = c.toText r' :=
        (congrArg InstanceRow.data hr).symm.trans (congrArg InstanceRow.data hr')
      have hrr : some r = some r' := by
        rw [← c.fromText_toText, htext, c.fromText_toText]
      cases hrr
      exact (hg r).trans (congrArg InstanceRow.name hr').symm
    · rw [Controller.names, hnames]
      exact List.mem_map.2 ⟨row, hrow, rfl⟩
    · rw [Controller.names, hnames, List.map_map]
      exact hok.nodup
  | call | clearAllLocks =>
    cases hs
    exact ⟨⟨hk.own, hk.rowOwn, hk.known, hk.apart⟩, by simp [ControllerEvent.persists]⟩

/-- A manager with an empty database. -/
def new : Controller ρ := ⟨[], [], []⟩

theorem Ok.run (hr : Run (Controller.step c a) (Proper c) (· = .new) h s) : Ok c s := by
  refine Run.invariant (I := fun _ s => Ok c s) ?_ ?_ hr
  · rintro _ rfl
    exact ⟨List.nodup_nil, by simp [new], List.nodup_nil, by simp [new]⟩
  · intro _ _ _ _ _ hok hg hs
    exact hok.step hg hs

/-- **The registry survives a restart.** In a run, whenever the instances have been persisted they
are read back, and at all times a call on the lock of one registered name leaves those of the others
alone, exactly when each name that was created differs in more than case from those registered, and
all values that were persisted fit into their columns. -/
theorem survives_iff (hr : Run (Controller.step c a) (Proper c) (· = .new) h s) :
    ((∀ t e h', (t, e) :: h' <:+ h → e.persists = true → ∀ t', Controller.step c a t e = some t' →
        t'.LoadsBack c) ∧ ∀ t ∈ h.states s, t.LocksApart) ↔
      ∀ t e h', (t, e) :: h' <:+ h → t.Storable c e := by
  constructor
  · rintro ⟨hloads, -⟩ t e h' hsuf
    obtain ⟨hrun, hg⟩ := hr.of_suffix hsuf
    obtain ⟨t', hs⟩ : ∃ t', Controller.step c a t e = some t' := by
      obtain ⟨later, rfl⟩ := hsuf
      obtain ⟨t', hs, -⟩ := hr.rel_after (R := fun _ _ => True) (by simp) (by simp) (by simp)
      exact ⟨t', hs⟩
    have hok := Ok.run hrun
    have hback := fun hp => (hok.step hg hs).of_loadsBack (hloads t e h' hsuf hp t' hs)
    cases e with
    | create raw r order holder leaseSecs now =>
      obtain ⟨hnd, hfits⟩ := hback rfl
      obtain ⟨-, -, locks, rfl⟩ := step_create hs hg.1
      rw [Controller.names, List.map_append, List.map_append] at hnd
      obtain ⟨-, -, hdis⟩ := List.nodup_append'.1 hnd
      have hnew : ∀ x ∈ t.names, collate x ≠ collate (c.name r) := fun x hx hc =>
        hdis (List.mem_map.2 ⟨x, hx, hc⟩) (List.mem_singleton_self _)
      have hall : ∀ i ∈ t.instances ++ [(c.name r, r)], (c.row i.2).fits = true := hfits
      obtain ⟨hold, hfit⟩ := List.forall_mem_append.1 hall
      exact ⟨hnew, hfit (c.name r, r) (List.mem_singleton_self _), hold⟩
    | persist order =>
      cases hs
      exact (hback rfl).2
    | change | deleteInstance | restart | call | clearAllLocks => trivial
  · intro hall
    have hrun : Run (Controller.step c a) (fun h t e => Proper c h t e ∧ t.Storable c e)
        (· = .new) h s :=
      hr.restrict fun t e h' hsuf => ⟨(hr.of_suffix hsuf).2, hall t e h' hsuf⟩
    have hboth : ∀ {h s}, Run (Controller.step c a)
        (fun h t e => Proper c h t e ∧ t.Storable c e) (· = .new) h s → Ok c s ∧ Kept c s := by
      intro h s hrun
      refine hrun.invariant (I := fun _ s => Ok c s ∧ Kept c s) ?_ fun _ _ _ _ _ hok hg hs =>
        ⟨hok.1.step hg.1 hs, (hok.2.step hok.1 hg.1 hg.2 hs).1⟩
      rintro _ rfl
      exact ⟨⟨List.nodup_nil, by simp [new], List.nodup_nil, by simp [new]⟩,
        by simp [new], by simp [new], by simp [new], List.nodup_nil⟩
    refine ⟨fun t e h' hsuf hp t' hs => ?_, fun t ht => ?_⟩
    · obtain ⟨hrun', hg⟩ := hrun.of_suffix hsuf
      obtain ⟨hok, hk⟩ := hboth hrun'
      exact (hk.step hok hg.1 hg.2 hs).2 hp
    · obtain ⟨h', hrun'⟩ := hrun.of_mem ht
      exact locksApart (hboth hrun').2.apart

section Example

/-- Two instances whose names differ in case. -/
inductive Sample
  | lower
  | upper
deriving DecidableEq, Repr

/-- The beginning of the record of an instance. -/
def Sample.text : Sample → String
  | .lower => "\x7b\"name\":\"db\"\x7d"
  | .upper => "\x7b\"name\":\"DB\"\x7d"

def sampleCodec : Codec Sample where
  name r := match r with
    | .lower => "db"
    | .upper => "DB"
  region _ := "r1"
  tenant _ := ""
  status _ := "running"
  toText := Sample.text
  fromText text :=
    if text = Sample.text .lower then some .lower
    else if text = Sample.text .upper then some .upper else none
  fromText_toText r := by cases r <;> rfl
  printable r := by cases r <;> simp [Sample.text]
  object r := by
    cases r
    · exact ⟨['"', 'n', 'a', 'm', 'e', '"', ':', '"', 'd', 'b', '"'], rfl⟩
    · exact ⟨['"', 'n', 'a', 'm', 'e', '"', ':', '"', 'D', 'B', '"'], rfl⟩

/-- One instance is read back. -/
theorem survives_lower : ∃ h s, Run (Controller.step sampleCodec .store) (Proper sampleCodec)
    (· = .new) h s ∧ s.names = ["db"] ∧ s.LoadsBack sampleCodec := by
  have h0 : Run (Controller.step sampleCodec .store) (Proper sampleCodec) (· = .new) [] .new :=
    .start rfl
  have h1 := h0.step (e := ControllerEvent.create "db" .lower [("db", .lower)] "c1" 30 100)
    ⟨rfl, .refl _⟩ rfl
  refine ⟨_, _, h1, rfl, ?_⟩
  have hall := (survives_iff h1).2 fun t e h' hsuf => ?_
  · exact hall.1 _ _ _ (List.suffix_refl _) rfl _ rfl
  · rcases List.suffix_cons_iff.1 hsuf with heq | hsuf
    · cases heq
      exact ⟨by simp [new, Controller.names], by decide, by simp [new]⟩
    · cases List.suffix_nil.1 hsuf

/-- Two names that differ in case are both accepted; one row is left of the two instances, and to
release the lock of one releases the lock of the other. -/
theorem case_loses_instance : ∃ h s, Run (Controller.step sampleCodec .store) (Proper sampleCodec)
    (· = .new) h s ∧ s.names = ["db", "DB"] ∧
      MysqlBackend.instanceLoadAll s.rows = [("db", Sample.text .upper)] ∧
      ¬s.LoadsBack sampleCodec ∧ ¬s.LocksApart := by
  have h0 : Run (Controller.step sampleCodec .store) (Proper sampleCodec) (· = .new) [] .new :=
    .start rfl
  have h1 := h0.step (e := ControllerEvent.create "db" .lower [("db", .lower)] "c1" 30 100)
    ⟨rfl, .refl _⟩ rfl
  have h2 := h1.step (e := ControllerEvent.create "DB" .upper [("db", .lower), ("DB", .upper)] "c1"
    30 101) ⟨rfl, .refl _⟩ rfl
  refine ⟨_, _, h2, rfl, rfl, fun hload => ?_, fun hlocks => ?_⟩
  · exact absurd hload.length_eq (by decide)
  · have hcall := hlocks "db" (by decide) "DB" (by decide) (by decide) [⟨"db", "c1", 131⟩] "c1" 30
      101 .unlock
    exact absurd hcall (by decide)

end Example

end Controller

end Rdsctl.Store
