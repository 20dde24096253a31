import Rdsctl.Inst.Effects
import Rdsctl.Lib.Run

/-!
# Replicas that share the instance table

Several managers hold the instances in memory and share one table, the sink. `persist` writes the
whole map of a replica row by row, `refresh_from_sink` takes over three fields of the instances it
knows and the rows it does not know, and `delete_instance` removes the instance from one map and
from the sink. `Shared.saved` records the changes that have reached the sink: a row that the
replica has changed since it last wrote it, or a deletion. The sink is what was saved last as long
as no replica writes back a copy that is older than that (`Recent`).
-/

namespace Rdsctl.Inst

open Ha

/-- The record of an instance with the states of its nodes. -/
structure Row where
  inst : RdsInstance
  nodeStates : BTreeMap String String

/-- The name a record is stored under. -/
def Row.name (row : Row) : String := row.inst.name

/-- A change of a record; none of them changes the name. -/
structure Change where
  apply : Row → Row
  name_apply : ∀ row, (apply row).name = row.name

/-- The fields that `refresh_from_sink` takes over. -/
def Row.refreshed (cur fresh : Row) : Row where
  inst := { cur.inst with status := fresh.inst.status, lastError := fresh.inst.lastError }
  nodeStates := fresh.nodeStates

/-- `RdsManager` in one of the processes. -/
structure Replica where
  instances : BTreeMap String Row
  opLocks : List String
  /-- The running calls of `persist`, each with the names it has still to write. -/
  persisting : List (List String)
  /-- The rows that the running `refresh_from_sink` has read and not gone through yet. -/
  refreshing : List (String × Row)
  /-- The instances that `delete_instance` has taken out of memory and not out of the sink. -/
  deleting : List String
  /-- The instances changed since their rows were last written. -/
  unsaved : List String

/-- A replica with an empty memory. -/
def Replica.empty : Replica := ⟨∅, [], [], [], [], []⟩

/-- The replicas, the sink and the leases. -/
structure Shared where
  replicas : Nat → Replica
  sink : BTreeMap String Row
  /-- The replica that holds the lease of each instance. -/
  holder : BTreeMap String Nat
  /-- The changes that have reached the sink, newest first; a deletion is `none`. -/
  saved : List (String × Option Row)

inductive ShareEvent where
  | lock (r : Nat) (x : String)
  | unlock (r : Nat) (x : String)
  /-- The lease runs out. -/
  | expire (x : String)
  | create (r : Nat) (row : Row)
  /-- A replica that holds the lease changes its record. -/
  | alter (r : Nat) (x : String) (change : Change)
  | persist (r : Nat)
  /-- The `k`-th running `persist` comes to an instance; the write of the row may fail. -/
  | row (r k : Nat) (x : String) (ok : Bool)
  /-- `instance_load_all` of a refresh, which answers no rows when it fails. -/
  | load (r : Nat) (ok : Bool)
  /-- The refresh goes through the next row. -/
  | merge (r : Nat)
  | delete (r : Nat) (x : String)
  /-- `instance_delete`, which may fail. -/
  | erase (r : Nat) (x : String) (ok : Bool)
  /-- The process starts again: `load_persisted`. -/
  | restart (r : Nat) (p : Process) (ok : Bool)

namespace Shared

/-- The last saved change of an instance. -/
def lastSaved (x : String) : List (String × Option Row) → Option Row
  | [] => none
  | (y, row) :: saved => if y = x then row else lastSaved x saved

/-- How many changes of an instance have been saved. -/
def changes (s : Shared) (x : String) : Nat := s.saved.countP (·.1 = x)

def setReplica (s : Shared) (r : Nat) (rep : Replica) : Shared :=
  { s with replicas := fun r' => if r' = r then rep else s.replicas r' }

/-- `refresh_from_sink` at one row. -/
def mergeRow (rep : Replica) (name : String) (fresh : Row) : Replica :=
  if name ∈ rep.opLocks then rep
  else
    match rep.instances[name]? with
    | some cur => { rep with instances := rep.instances.insert name (cur.refreshed fresh) }
    | none =>
      { rep with
        instances := rep.instances.insert name fresh
        unsaved := rep.unsaved.filter (· ≠ name) }

/-- `persist` at one instance. -/
def writeRow (s : Shared) (r : Nat) (x : String) (row : Row) : Shared :=
  let rep := s.replicas r
  let s := { s with sink := s.sink.insert row.name row }
  if x ∈ rep.unsaved then
    { s.setReplica r { rep with unsaved := rep.unsaved.filter (· ≠ x) } with
      saved := (row.name, some row) :: s.saved }
  else s

section Step

variable (clustered : Bool)

def step (s : Shared) : ShareEvent → Option Shared
  | .lock r x =>
    let rep := s.replicas r
    if x ∉ rep.opLocks ∧ s.holder[x]? = none then
      some { s.setReplica r { rep with opLocks := x :: rep.opLocks } with
        holder := s.holder.insert x r }
    else none
  | .unlock r x =>
    let rep := s.replicas r
    some { s.setReplica r { rep with opLocks := rep.opLocks.filter (· ≠ x) } with
      holder := if s.holder[x]? = some r then s.holder.erase x else s.holder }
  | .expire x => some { s with holder := s.holder.erase x }
  | .create r row =>
    let rep := s.replicas r
    if rep.instances[row.name]? = none ∧ s.holder[row.name]? = some r then
      some (s.setReplica r { rep with
        instances := rep.instances.insert row.name row
        unsaved := row.name :: rep.unsaved })
    else none
  | .alter r x change =>
    let rep := s.replicas r
    if s.holder[x]? = some r then
      match rep.instances[x]? with
      | some row => some (s.setReplica r { rep with
          instances := rep.instances.insert x (change.apply row)
          unsaved := x :: rep.unsaved })
      | none => none
    else none
  | .persist r =>
    let rep := s.replicas r
    some (s.setReplica r { rep with persisting := rep.persisting ++ [rep.instances.keys] })
  | .row r k x ok =>
    let rep := s.replicas r
    match rep.persisting[k]? with
    | some names =>
      let s := s.setReplica r { rep with persisting := rep.persisting.set k (names.erase x) }
      match rep.instances[x]? with
      | some row => some (if ok then s.writeRow r x row else s)
      | none => some s
    | none => none
  | .load r ok =>
    some (s.setReplica r { s.replicas r with refreshing := if ok then s.sink.toList else [] })
  | .merge r =>
    let rep := s.replicas r
    match rep.refreshing with
    | (name, fresh) :: rows =>
      some (s.setReplica r { mergeRow rep name fresh with refreshing := rows })
    | [] => none
  | .delete r x =>
    let rep := s.replicas r
    match rep.instances[x]? with
    | some row =>
      if row.inst.status = .destroyed then
        some (s.setReplica r { rep with
          instances := rep.instances.erase x
          deleting := x :: rep.deleting
          unsaved := rep.unsaved.filter (· ≠ x) })
      else none
    | none => none
  | .erase r x ok =>
    let rep := s.replicas r
    if x ∈ rep.deleting then
      let s := s.setReplica r { rep with deleting := rep.deleting.erase x }
      some (if ok then { s with sink := s.sink.erase x, saved := (x, none) :: s.saved } else s)
    else none
  | .restart r p ok =>
    some (s.setReplica r { Replica.empty with
      instances :=
        if ok then s.sink.map fun _ row => { row with inst := row.inst.loaded p clustered }
        else ∅ })

end Step

/-- Records that lie under their names. -/
def Named (rows : BTreeMap String Row) : Prop :=
  ∀ (x : String) (row : Row), rows[x]? = some row → row.name = x

/-- Managers that have not started yet, and a table with some rows. -/
structure Initial (s : Shared) : Prop where
  replicas : ∀ r, s.replicas r = .empty
  named : Named s.sink
  saved : ∀ x, s.sink[x]? = lastSaved x s.saved

/-- A replica that writes back an instance it has not changed since it last wrote it holds a record
that the sink held at some moment since the last saved change of the instance. -/
def Recent (h : History Shared ShareEvent) (s : Shared) : ShareEvent → Prop
  | .row r _ x true => ∀ row, (s.replicas r).instances[x]? = some row →
      x ∉ (s.replicas r).unsaved →
      ∃ t ∈ h.states s, t.changes x = s.changes x ∧ t.sink[x]? = some row
  | _ => True

/-! ## The saved changes -/

/-- No change of an instance has been saved between two records of the saved changes. -/
theorem lastSaved_of_suffix {x : String} {l l' : List (String × Option Row)} (hs : l <:+ l')
    (hc : l.countP (·.1 = x) = l'.countP (·.1 = x)) : lastSaved x l = lastSaved x l' := by
  induction l' with
  | nil => rw [List.suffix_nil.1 hs]
  | cons p l' ih =>
    rcases List.suffix_cons_iff.1 hs with rfl | hs
    · rfl
    · have hle := hs.sublist.countP_le (p := fun q : String × Option Row => decide (q.1 = x))
      by_cases hp : p.1 = x
      · simp only [List.countP_cons, hp, decide_true, if_true] at hc
        omega
      · simp only [List.countP_cons, hp, decide_false, Bool.false_eq_true, if_false,
          Nat.add_zero] at hc
        simp only [lastSaved, if_neg hp]
        exact ih hs hc

/-! ## Names -/

theorem Named.insert {rows : BTreeMap String Row} (h : Named rows) {row : Row} :
    Named (rows.insert row.name row) := by
  intro x row' hx
  rcases BTreeMap.insert_eq_some hx with ⟨rfl, rfl⟩ | hx
  · rfl
  · exact h x row' hx

theorem Named.erase {rows : BTreeMap String Row} (h : Named rows) (x : String) :
    Named (rows.erase x) := by
  intro y row hy
  rw [BTreeMap.getElem?_erase_ite] at hy
  split at hy
  · cases hy
  · exact h y row hy

/-- What a replica holds and has read lies under its name. -/
structure NamedReplica (rep : Replica) : Prop where
  instances : Named rep.instances
  refreshing : ∀ p ∈ rep.refreshing, p.2.name = p.1

theorem NamedReplica.mergeRow {rep : Replica} (h : NamedReplica rep) {name : String} {fresh : Row}
    (hn : fresh.name = name) : NamedReplica (mergeRow rep name fresh) := by
  subst hn
  unfold Shared.mergeRow
  split
  · exact h
  · split
    · next cur hcur =>
      have hname : cur.name = fresh.name := h.instances _ _ hcur
      have hname : (cur.refreshed fresh).name = fresh.name := hname
      exact ⟨hname ▸ h.instances.insert, h.refreshing⟩
    · exact ⟨h.instances.insert, h.refreshing⟩

/-! ## The invariant -/

/-- Everything lies under its name, and the sink is what was saved last. -/
structure Ok (s : Shared) : Prop where
  named : Named s.sink
  replicas : ∀ r, NamedReplica (s.replicas r)
  last : ∀ x, s.sink[x]? = lastSaved x s.saved

variable {s s' : Shared} {r : Nat}

theorem Ok.setReplica (ok : s.Ok) (rep : Replica) (h : NamedReplica rep) :
    (s.setReplica r rep).Ok where
  named := ok.named
  replicas r' := by
    simp only [Shared.setReplica]
    split
    · exact h
    · exact ok.replicas r'
  last := ok.last

/-- A row that is written back. -/
theorem Ok.writeRow (ok : s.Ok) {x : String} {row : Row}
    (hrow : (s.replicas r).instances[x]? = some row)
    (hrecent : x ∉ (s.replicas r).unsaved → s.sink[x]? = some row) : (s.writeRow r x row).Ok := by
  obtain rfl := (ok.replicas r).instances x row hrow
  unfold Shared.writeRow
  simp only
  split
  · have ok' := ok.setReplica (r := r)
      { s.replicas r with unsaved := (s.replicas r).unsaved.filter (· ≠ row.name) }
      ⟨(ok.replicas r).instances, (ok.replicas r).refreshing⟩
    refine ⟨ok'.named.insert, ok'.replicas, fun y => ?_⟩
    simp only [Shared.setReplica, lastSaved, BTreeMap.getElem?_insert_ite]
    split
    · rfl
    · exact ok.last y
  · next hun =>
    refine ⟨ok.named.insert, ok.replicas, fun y => ?_⟩
    simp only [BTreeMap.getElem?_insert_ite]
    split
    · next heq => rw [← ok.last, ← heq, hrecent hun]
    · exact ok.last y

variable {clustered : Bool}

/-- The rows of the sink are under their names. -/
theorem Ok.toList (ok : s.Ok) : ∀ p ∈ s.sink.toList, p.2.name = p.1 :=
  fun p hp => ok.named p.1 p.2 (Std.ExtTreeMap.mem_toList_iff_getElem?_eq_some.1 hp)

theorem name_loaded (p : Process) (clustered : Bool) (i : RdsInstance) :
    (i.loaded p clustered).name = i.name := by
  unfold RdsInstance.loaded
  simp only
  split <;> rfl

/-- The changes of a replica of its own, an event at a time. -/
theorem Ok.step (ok : s.Ok) {e : ShareEvent} (hs : step clustered s e = some s')
    (hrow : ∀ r k x row, e = .row r k x true → (s.replicas r).instances[x]? = some row →
      x ∉ (s.replicas r).unsaved → s.sink[x]? = some row) : s'.Ok := by
  have hnr := ok.replicas
  cases e with
  | lock r x =>
    simp only [Shared.step] at hs
    split at hs <;> cases hs
    have ok' := ok.setReplica (r := r)
      { s.replicas r with opLocks := x :: (s.replicas r).opLocks }
      ⟨(hnr r).instances, (hnr r).refreshing⟩
    exact ⟨ok'.named, ok'.replicas, ok'.last⟩
  | unlock r x =>
    cases hs
    have ok' := ok.setReplica (r := r)
      { s.replicas r with opLocks := (s.replicas r).opLocks.filter (· ≠ x) }
      ⟨(hnr r).instances, (hnr r).refreshing⟩
    exact ⟨ok'.named, ok'.replicas, ok'.last⟩
  | expire x => cases hs; exact ⟨ok.named, ok.replicas, ok.last⟩
  | create r row =>
    simp only [Shared.step] at hs
    split at hs <;> cases hs
    exact ok.setReplica _ ⟨(hnr r).instances.insert, (hnr r).refreshing⟩
  | alter r x change =>
    simp only [Shared.step] at hs
    split at hs
    · split at hs <;> cases hs
      next row hx =>
      have hname : (change.apply row).name = x :=
        (change.name_apply row).trans ((hnr r).instances _ _ hx)
      exact ok.setReplica _ ⟨hname ▸ (hnr r).instances.insert, (hnr r).refreshing⟩
    · cases hs
  | persist r => cases hs; exact ok.setReplica _ ⟨(hnr r).instances, (hnr r).refreshing⟩
  | row r k x done =>
    simp only [Shared.step] at hs
    split at hs
    · next names hk =>
      have ok' := ok.setReplica (r := r)
        { s.replicas r with persisting := (s.replicas r).persisting.set k (names.erase x) }
        ⟨(hnr r).instances, (hnr r).refreshing⟩
      split at hs
      · next row hx =>
        split at hs <;> cases hs
        · next hdone =>
          subst hdone
          exact ok'.writeRow (r := r) (by simpa [Shared.setReplica] using hx)
            fun hun => hrow r k x row rfl hx (by simpa [Shared.setReplica] using hun)
        · exact ok'
      · cases hs; exact ok'
    · cases hs
  | load r done =>
    cases hs
    refine ok.setReplica _ ⟨(hnr r).instances, ?_⟩
    cases done
    · exact fun _ h => nomatch h
    · exact ok.toList
  | merge r =>
    simp only [Shared.step] at hs
    split at hs
    · next name fresh rows hrows =>
      cases hs
      have hall := (hnr r).refreshing
      rw [hrows] at hall
      have hn := (hnr r).mergeRow (hall _ (.head _))
      exact ok.setReplica _ ⟨hn.instances, fun p hp => hall p (.tail _ hp)⟩
    · cases hs
  | delete r x =>
    simp only [Shared.step] at hs
    split at hs
    · split at hs <;> cases hs
      exact ok.setReplica _ ⟨(hnr r).instances.erase x, (hnr r).refreshing⟩
    · cases hs
  | erase r x done =>
    simp only [Shared.step] at hs
    split at hs
    · have ok' := ok.setReplica (r := r)
        { s.replicas r with deleting := (s.replicas r).deleting.erase x }
        ⟨(hnr r).instances, (hnr r).refreshing⟩
      split at hs <;> cases hs
      · refine ⟨ok'.named.erase x, ok'.replicas, fun y => ?_⟩
        simp only [lastSaved, BTreeMap.getElem?_erase_ite]
        split
        · rfl
        · exact ok.last y
      · exact ok'
    · cases hs
  | restart r p done =>
    cases hs
    refine ok.setReplica _ ⟨?_, fun _ h => nomatch h⟩
    cases done
    · exact fun x row h => by simp at h
    · intro x row h
      simp only [if_true, Std.ExtTreeMap.getElem?_map, Option.map_eq_some_iff] at h
      obtain ⟨row', hx, rfl⟩ := h
      exact (name_loaded p clustered row'.inst).trans (ok.named x row' hx)

/-- Saved changes stay recorded. -/
theorem saved_suffix {e : ShareEvent} (hs : step clustered s e = some s') : s.saved <:+ s'.saved := by
  cases e with
  | lock | create | delete =>
    simp only [Shared.step] at hs
    repeat' split at hs
    all_goals cases hs
    all_goals exact List.suffix_rfl
  | unlock | expire | persist | load | restart => cases hs; exact List.suffix_rfl
  | alter r x change =>
    simp only [Shared.step] at hs
    split at hs
    · split at hs <;> cases hs
      exact List.suffix_rfl
    · cases hs
  | merge r =>
    simp only [Shared.step] at hs
    split at hs <;> cases hs
    exact List.suffix_rfl
  | row r k x done =>
    simp only [Shared.step] at hs
    split at hs
    · split at hs <;> cases hs
      · cases done
        · exact List.suffix_rfl
        · simp only [if_true, Shared.writeRow]
          split
          · exact List.suffix_cons _ _
          · exact List.suffix_rfl
      · exact List.suffix_rfl
    · cases hs
  | erase r x done =>
    simp only [Shared.step] at hs
    split at hs <;> cases hs
    cases done
    · exact List.suffix_rfl
    · exact List.suffix_cons _ _

/-- As long as no replica writes back a record older than the last saved change, the sink is what
was saved last: a record is the one that a replica which changed it wrote last, and a deleted
instance is not there. -/
theorem sink_is_last_saved {clustered : Bool} {h : History Shared ShareEvent} {s : Shared}
    (hr : Run (step clustered) Recent Initial h s) :
    ∀ u ∈ h.states s, ∀ x, u.sink[x]? = lastSaved x u.saved := by
  have hinv : ∀ u ∈ h.states s, u.Ok ∧ u.saved <:+ s.saved := by
    refine hr.invariant (I := fun h s => ∀ u ∈ h.states s, u.Ok ∧ u.saved <:+ s.saved)
      (fun s h0 u hu => ?_) fun h s e s' _ ih hg hs u hu => ?_
    · obtain rfl : u = s := by simpa using hu
      refine ⟨⟨h0.named, fun r => ?_, h0.saved⟩, List.suffix_rfl⟩
      rw [h0.replicas r]
      exact ⟨fun x row hx => by simp [Replica.empty] at hx, fun _ hp => nomatch hp⟩
    · have ok := (ih s (History.mem_states.2 (.inl rfl))).1
      have hsuf := saved_suffix hs
      have hrow : ∀ r k x row, e = .row r k x true → (s.replicas r).instances[x]? = some row →
          x ∉ (s.replicas r).unsaved → s.sink[x]? = some row := by
        rintro r k x row rfl hx hun
        -- the record was the sink's when the same changes of the instance had been saved
        obtain ⟨t, ht, hsame, hsink⟩ := hg row hx hun
        rw [ok.last, ← lastSaved_of_suffix (ih t ht).2 hsame, ← (ih t ht).1.last, hsink]
      rcases List.mem_cons.1 hu with rfl | hu
      · exact ⟨ok.step hs hrow, List.suffix_rfl⟩
      · exact ⟨(ih u hu).1, (ih u hu).2.trans hsuf⟩
  exact fun u hu => (hinv u hu).1.last

/-! ## Two instances -/

/-- A running instance without nodes. -/
def bare (name : String) : Row where
  inst :=
    { name := name, status := .running, region := "cn-bj", az := "a", shard := "s0", enabled := true,
      lvsContainer := "", lvsMysqlPort := 0, nodeHosts := ∅, proxies := [], shards := [],
      itype := "single", shardNum := 1, network := "net-" ++ name, nodes := [], proxyContainer := "",
      proxyMysqlPort := 0, proxyMngPort := 0, lastError := "" }
  nodeStates := ∅

/-- `set_instance_enabled` -/
def disable : Change where
  apply row := { row with inst := { row.inst with enabled := false } }
  name_apply _ := rfl

/-- Two managers and an empty table. -/
def fresh : Shared := ⟨fun _ => .empty, ∅, ∅, []⟩

theorem fresh_initial : Initial fresh where
  replicas _ := rfl
  named x row h := by simp [fresh] at h
  saved x := by simp [fresh, lastSaved]

/-- Replica 0 creates `orders`, replica 1 reads the table and creates `users`. -/
def twoInstances : List ShareEvent :=
  [ .lock 0 "orders", .create 0 (bare "orders"), .persist 0, .row 0 0 "orders" true,
    .load 1 true, .merge 1, .lock 1 "users", .create 1 (bare "users"), .persist 1 ]

/-- An event that writes no row back that its replica has not changed. -/
def ownRow (s : Shared) : ShareEvent → Bool
  | .row r _ x true => x ∈ (s.replicas r).unsaved
  | _ => true

theorem recent_of_ownRow {h : History Shared ShareEvent} {e : ShareEvent}
    (how : ownRow s e = true) : Recent h s e := by
  cases e with
  | row r k x done =>
    cases done
    · trivial
    · exact fun row _ hun => absurd (of_decide_eq_true how) hun
  | _ => trivial

/-- Both write what they have changed, and replica 1 writes `orders` back as it is. -/
theorem sink_is_last_saved_two : ∃ (h : History Shared ShareEvent) (s : Shared),
    Run (step true) Recent Initial h s ∧ s.saved.length = 2 ∧
      ∀ u ∈ h.states s, ∀ x, u.sink[x]? = lastSaved x u.saved := by
  let p := follow (step true) (fun _ s e => ownRow s e = true)
    (twoInstances ++ [.row 1 0 "users" true]) [] fresh
  have hlast : (p.bind fun q => step true q.2 (.row 1 0 "orders" true)).map
      (fun s => s.saved.length) = some 2 := by decide +kernel
  have hcopy : p.map (fun q => q.2.sink["orders"]?) =
      p.map fun q => (q.2.replicas 1).instances["orders"]? := rfl
  obtain ⟨s', hstep, hlen⟩ := Option.map_eq_some_iff.1 hlast
  obtain ⟨⟨h, s⟩, hp, hs'⟩ := Option.bind_eq_some_iff.1 hstep
  have hsame : s.sink["orders"]? = (s.replicas 1).instances["orders"]? := by
    rw [hp] at hcopy
    exact Option.some.inj hcopy
  have hr : Run (step true) Recent Initial h s :=
    ((Run.start fresh_initial).follow hp).mono fun _ _ _ => recent_of_ownRow
  have hrecent : Recent h s (.row 1 0 "orders" true) :=
    fun row hrow _ => ⟨s, History.mem_states.2 (.inl rfl), rfl, hsame.trans hrow⟩
  have hr' := hr.step hrecent hs'
  exact ⟨_, _, hr', hlen, sink_is_last_saved hr'⟩

/-- The same when replica 0 has disabled `orders` in the meantime: replica 1 writes its copy back
over that. -/
theorem disabled_instance_written_back :
    ¬ ∀ (clustered : Bool) (h : History Shared ShareEvent) (s : Shared),
      Run (step clustered) (fun _ _ _ => True) Initial h s →
        ∀ u ∈ h.states s, ∀ x, u.sink[x]? = lastSaved x u.saved := by
  intro hall
  have hf : (follow (step true) (fun _ _ _ => True)
      (twoInstances ++ [.alter 0 "orders" disable, .persist 0, .row 0 1 "orders" true,
        .row 1 0 "orders" true]) [] fresh).map
      (fun p => ((p.2.sink["orders"]?).map (·.inst.enabled),
        (lastSaved "orders" p.2.saved).map (·.inst.enabled))) = some (some true, some false) := by
    decide +kernel
  obtain ⟨⟨h, s⟩, hfollow, hval⟩ := Option.map_eq_some_iff.1 hf
  have hr : Run (step true) (fun _ _ _ => True) Initial h s :=
    (Run.start fresh_initial).follow hfollow
  have := hall true h s hr s (History.mem_states.2 (.inl rfl)) "orders"
  rw [this] at hval
  simp only [Prod.mk.injEq] at hval
  exact absurd (hval.1.symm.trans hval.2) (by decide)

end Shared

end Rdsctl.Inst
