import Mathlib.Data.List.Forall2
import Rdsctl.Lib.Run
import Rdsctl.Lib.Threads
import Rdsctl.Store.Outbox

/-!
# Open alerts and governance rows

`src/store.rs`: `alert_open`, `alert_action`, `alert_resolve_instance`, `slow_gov_ensure` and
`slow_gov_action` of the two stores, called by any number of threads. `MemoryBackend` takes its lock
twice to look for a row and to add one, `MysqlBackend` sends a statement for each. A `SELECT` that fails
counts as one that has found nothing, and the answer of `slow_gov_ensure` does not depend on its `INSERT`.
`alert_open` of `MemoryBackend` numbers its row by the counter that it has read with its first lock.
-/

namespace Rdsctl.Store

/-! ## The tables -/

/-- The column `status` of both tables. -/
inductive TicketStatus
  | opened
  | ack
  | resolved
deriving DecidableEq, Repr

/-- `status IN ('open','ack')` -/
def TicketStatus.live (s : TicketStatus) : Bool := s = .opened || s = .ack

/-- The rows of a table, oldest first, and the last id that was given. -/
structure IdTable (α : Type) where
  rows : List α := []
  next : Nat := 0

structure Alert where
  id : Nat
  ts : Nat
  inst : String
  kind : String
  severity : String
  message : String
  status : TicketStatus
  assignee : String
  handledAt : Option Nat
  resolvedAt : Option Nat
deriving DecidableEq, Repr

/-- A row of `slow_governance`. -/
structure GovRow where
  id : Nat
  digest : String
  digestText : String
  status : TicketStatus
  assignee : String
  createdAt : Nat
  updatedAt : Nat
  resolvedAt : Option Nat
  advice : Option String
deriving DecidableEq, Repr

namespace Alert

def key (a : Alert) : String × String := (a.inst, a.kind)

def live (a : Alert) : Bool := a.status.live

/-- What `alert_action` makes of an alert. -/
def act (action assignee : String) (now : Nat) (a : Alert) : Alert :=
  if action = "resolve" then { a with status := .resolved, resolvedAt := some now, assignee }
  else { a with status := .ack, handledAt := some now, assignee }

/-- What `alert_resolve_instance` makes of one. -/
def resolve (now : Nat) (a : Alert) : Alert := { a with status := .resolved, resolvedAt := some now }

end Alert

def GovRow.live (x : GovRow) : Bool := x.status.live

namespace MemoryBackend

/-- The first lock of `alert_open`: whether the alert is there, and the last id. -/
def alertOpenCheck (g : IdTable Alert) (inst kind : String) : Bool × Nat :=
  (g.rows.any fun a => a.inst = inst && a.kind = kind && a.live, g.next)

/-- The second lock. -/
def alertOpenInsert (g : IdTable Alert) (nextId : Nat) (inst kind severity message : String)
    (now : Nat) : IdTable Alert :=
  let id := nextId + 1
  { rows := g.rows ++
      [⟨id, now, inst, kind, severity, truncate message 480, .opened, "", none, none⟩]
    next := id }

def alertResolveInstance (g : IdTable Alert) (inst : String) (now : Nat) : IdTable Alert :=
  { g with rows := g.rows.map fun a => if a.inst = inst && a.live then a.resolve now else a }

def alertAction (g : IdTable Alert) (id : Nat) (action assignee : String) (now : Nat) :
    Bool × IdTable Alert :=
  if g.rows.any fun a => a.id = id && a.live then
    (true, { g with
      rows := modifyFirst (fun a => a.id = id && a.live) (Alert.act action assignee now) g.rows })
  else (false, g)

/-- The first lock of `slow_gov_ensure`. -/
def slowGovCheck (g : IdTable GovRow) (digest : String) : Bool :=
  g.rows.any fun x => x.digest = digest && x.live

/-- The second lock. -/
def slowGovInsert (g : IdTable GovRow) (digest digestText : String) (now : Nat) : IdTable GovRow :=
  let id := g.next + 1
  { rows := g.rows ++
      [⟨id, digest, truncate digestText 1024, .opened, "", now, now, none, some ""⟩]
    next := id }

/-- What `slow_gov_action` makes of a row. -/
def actGov (action assignee : String) (now : Nat) (x : GovRow) : GovRow :=
  if action = "resolve" then
    { x with status := .resolved, resolvedAt := some now, assignee, updatedAt := now }
  else { x with status := .ack, assignee, updatedAt := now }

def slowGovAction (g : IdTable GovRow) (id : Nat) (action assignee : String) (now : Nat) :
    Bool × IdTable GovRow :=
  if g.rows.any fun x => x.id = id && x.live then
    (true, { g with
      rows := modifyFirst (fun x => x.id = id && x.live) (actGov action assignee now) g.rows })
  else (false, g)

end MemoryBackend

namespace MysqlBackend

/-- The `SELECT` of `alert_open`, which may fail. -/
def alertOpenCheck (g : IdTable Alert) (inst kind : String) (ok : Bool) : Bool :=
  ok && g.rows.any fun a => a.inst = inst && a.kind = kind && a.live

/-- Its `INSERT`. -/
def alertOpenInsert (g : IdTable Alert) (inst kind severity message : String) (now : Nat)
    (ok : Bool) : IdTable Alert :=
  if ok then
    let id := g.next + 1
    { rows := g.rows ++
        [⟨id, now, inst, kind, severity, truncate message 480, .opened, "", none, none⟩]
      next := id }
  else g

def alertResolveInstance (g : IdTable Alert) (inst : String) (now : Nat) (ok : Bool) :
    IdTable Alert :=
  if ok then
    { g with rows := g.rows.map fun a => if a.inst = inst && a.live then a.resolve now else a }
  else g

/-- The answer does not tell whether there was a row to update. -/
def alertAction (g : IdTable Alert) (id : Nat) (action assignee : String) (now : Nat) (ok : Bool) :
    Bool × IdTable Alert :=
  if ok then
    (true, { g with rows := g.rows.map fun a =>
      if a.id = id && a.live then a.act action assignee now else a })
  else (false, g)

/-- The `SELECT` of `slow_gov_ensure`, which may fail. -/
def slowGovCheck (g : IdTable GovRow) (digest : String) (ok : Bool) : Bool :=
  ok && g.rows.any fun x => x.digest = digest && x.live

/-- Its `INSERT`. -/
def slowGovInsert (g : IdTable GovRow) (digest digestText : String) (now : Nat) (ok : Bool) :
    IdTable GovRow :=
  if ok then
    let id := g.next + 1
    { rows := g.rows ++
        [⟨id, digest, truncate digestText 1024, .opened, "", now, now, none, none⟩]
      next := id }
  else g

/-- What `slow_gov_action` makes of a row; one that is resolved keeps its `updated_at`. -/
def actGov (action assignee : String) (now : Nat) (x : GovRow) : GovRow :=
  if action = "resolve" then { x with status := .resolved, assignee, resolvedAt := some now }
  else { x with status := .ack, assignee, updatedAt := now }

def slowGovAction (g : IdTable GovRow) (id : Nat) (action assignee : String) (now : Nat) (ok : Bool) :
    Bool × IdTable GovRow :=
  if ok then
    (true, { g with rows := g.rows.map fun x =>
      if x.id = id && x.live then actGov action assignee now x else x })
  else (false, g)

end MysqlBackend

/-! ## Threads -/

inductive StoreKind
  | memory
  | mysql
deriving DecidableEq, Repr

/-- Where a call of `alert_open` is. Before it inserts it has the counter that it has read, if any; `seen`
is the number of rows there were, and `ok` tells whether it was told about them. -/
inductive AlertPhase
  | checking
  | inserting (nextId seen : Nat) (ok : Bool)
  | returned
deriving DecidableEq, Repr

structure AlertCall where
  inst : String
  kind : String
  severity : String
  message : String
  phase : AlertPhase := .checking
deriving DecidableEq, Repr

/-- Where a call of `slow_gov_ensure` is; at its end, its answer and the row that it has inserted. -/
inductive GovPhase
  | checking
  | inserting (now seen : Nat) (ok : Bool)
  | returned (answer : Bool) (row : Option Nat)
deriving DecidableEq, Repr

structure GovCall where
  digest : String
  digestText : String
  phase : GovPhase := .checking
deriving DecidableEq, Repr

/-- The tables and the calls under way. -/
structure Desk where
  alerts : IdTable Alert := {}
  gov : IdTable GovRow := {}
  opens : List AlertCall := []
  ensures : List GovCall := []

/-- What a thread does; `ok` tells whether a statement is executed. -/
inductive DeskEvent
  | alertOpen (inst kind severity message : String)
  | alertCheck (c : Nat) (ok : Bool)
  | alertInsert (c now : Nat) (ok : Bool)
  | alertAction (id : Nat) (action assignee : String) (now : Nat) (ok : Bool)
  | alertResolveInstance (inst : String) (now : Nat) (ok : Bool)
  | slowGovEnsure (digest digestText : String)
  | govCheck (c now : Nat) (ok : Bool)
  | govInsert (c : Nat) (ok : Bool)
  | slowGovAction (id : Nat) (action assignee : String) (now : Nat) (ok : Bool)
deriving DecidableEq, Repr

namespace StoreKind

/-- Only a statement can fail. -/
def admits (b : StoreKind) (ok : Bool) : Bool := ok || b = .mysql

def alertCheck (b : StoreKind) (g : IdTable Alert) (inst kind : String) (ok : Bool) : Bool × Nat :=
  match b with
  | .memory => MemoryBackend.alertOpenCheck g inst kind
  | .mysql => (MysqlBackend.alertOpenCheck g inst kind ok, 0)

def alertInsert (b : StoreKind) (g : IdTable Alert) (nextId : Nat) (k : AlertCall) (now : Nat)
    (ok : Bool) : IdTable Alert :=
  match b with
  | .memory => MemoryBackend.alertOpenInsert g nextId k.inst k.kind k.severity k.message now
  | .mysql => MysqlBackend.alertOpenInsert g k.inst k.kind k.severity k.message now ok

def alertAction (b : StoreKind) (g : IdTable Alert) (id : Nat) (action assignee : String) (now : Nat)
    (ok : Bool) : Bool × IdTable Alert :=
  match b with
  | .memory => MemoryBackend.alertAction g id action assignee now
  | .mysql => MysqlBackend.alertAction g id action assignee now ok

def alertResolveInstance (b : StoreKind) (g : IdTable Alert) (inst : String) (now : Nat) (ok : Bool) :
    IdTable Alert :=
  match b with
  | .memory => MemoryBackend.alertResolveInstance g inst now
  | .mysql => MysqlBackend.alertResolveInstance g inst now ok

def govCheck (b : StoreKind) (g : IdTable GovRow) (digest : String) (ok : Bool) : Bool :=
  match b with
  | .memory => MemoryBackend.slowGovCheck g digest
  | .mysql => MysqlBackend.slowGovCheck g digest ok

def govInsert (b : StoreKind) (g : IdTable GovRow) (k : GovCall) (now : Nat) (ok : Bool) :
    IdTable GovRow :=
  match b with
  | .memory => MemoryBackend.slowGovInsert g k.digest k.digestText now
  | .mysql => MysqlBackend.slowGovInsert g k.digest k.digestText now ok

def slowGovAction (b : StoreKind) (g : IdTable GovRow) (id : Nat) (action assignee : String)
    (now : Nat) (ok : Bool) : Bool × IdTable GovRow :=
  match b with
  | .memory => MemoryBackend.slowGovAction g id action assignee now
  | .mysql => MysqlBackend.slowGovAction g id action assignee now ok

end StoreKind

namespace Desk

def step (b : StoreKind) (s : Desk) : DeskEvent → Option Desk
  | .alertOpen inst kind severity message =>
    some { s with opens := s.opens ++ [⟨inst, kind, severity, message, .checking⟩] }
  | .alertCheck c ok =>
    match s.opens[c]? with
    | some k =>
      if k.phase = .checking ∧ b.admits ok then
        let (found, nextId) := b.alertCheck s.alerts k.inst k.kind ok
        let phase := if found then .returned else .inserting nextId s.alerts.rows.length ok
        some { s with opens := s.opens.set c { k with phase := phase } }
      else none
    | none => none
  | .alertInsert c now ok =>
    match s.opens[c]? with
    | some k =>
      match k.phase with
      | .inserting nextId _ _ =>
        if b.admits ok then
          some { s with
            alerts := b.alertInsert s.alerts nextId k now ok
            opens := s.opens.set c { k with phase := .returned } }
        else none
      | _ => none
    | none => none
  | .alertAction id action assignee now ok =>
    if b.admits ok then
      some { s with alerts := (b.alertAction s.alerts id action assignee now ok).2 }
    else none
  | .alertResolveInstance inst now ok =>
    if b.admits ok then some { s with alerts := b.alertResolveInstance s.alerts inst now ok }
    else none
  | .slowGovEnsure digest digestText =>
    some { s with ensures := s.ensures ++ [⟨digest, digestText, .checking⟩] }
  | .govCheck c now ok =>
    match s.ensures[c]? with
    | some k =>
      if k.phase = .checking ∧ b.admits ok then
        let phase := if b.govCheck s.gov k.digest ok then .returned false none
          else .inserting now s.gov.rows.length ok
        some { s with ensures := s.ensures.set c { k with phase := phase } }
      else none
    | none => none
  | .govInsert c ok =>
    match s.ensures[c]? with
    | some k =>
      match k.phase with
      | .inserting now _ _ =>
        if b.admits ok then
          let row := if ok then some (s.gov.next + 1) else none
          some { s with
            gov := b.govInsert s.gov k now ok
            ensures := s.ensures.set c { k with phase := .returned true row } }
        else none
      | _ => none
    | none => none
  | .slowGovAction id action assignee now ok =>
    if b.admits ok then
      some { s with gov := (b.slowGovAction s.gov id action assignee now ok).2 }
    else none

end Desk

/-! ## Rows with a key of their own -/

section Rows

variable {α κ : Type} {key : α → κ} {id : α → Nat} {live : α → Bool} {rows rows' : List α} {a : α}

/-- No two live rows have the same key. -/
def OneLive (key : α → κ) (live : α → Bool) (rows : List α) : Prop :=
  rows.Pairwise fun a b => key a = key b → live a = true → live b = false

/-- No row of the key is live. -/
def NoneLive (key : α → κ) (live : α → Bool) (k : κ) (rows : List α) : Prop :=
  ∀ a ∈ rows, key a = k → live a = false

/-- The rows are those that were there, and none of them has become live. -/
def Settles (key : α → κ) (id : α → Nat) (live : α → Bool) : List α → List α → Prop :=
  List.Forall₂ fun a b => key b = key a ∧ id b = id a ∧ (live b = true → live a = true)

theorem Settles.refl (rows : List α) : Settles key id live rows rows :=
  List.forall₂_same.2 fun _ _ => ⟨rfl, rfl, fun h => h⟩

theorem Settles.map {f : α → α} (hf : ∀ a, key (f a) = key a ∧ id (f a) = id a ∧
    (live (f a) = true → live a = true)) (rows : List α) : Settles key id live rows (rows.map f) :=
  List.forall₂_map_right_iff.2 (List.forall₂_same.2 fun a _ => hf a)

theorem Settles.modifyFirst {p : α → Bool} {f : α → α} (hf : ∀ a, p a = true → key (f a) = key a ∧
    id (f a) = id a ∧ (live (f a) = true → live a = true)) (rows : List α) :
    Settles key id live rows (Store.modifyFirst p f rows) := by
  induction rows with
  | nil => exact .nil
  | cons a rows ih =>
    rw [Store.modifyFirst]
    split
    · next hp => exact .cons (hf a hp) (Settles.refl rows)
    · exact .cons ⟨rfl, rfl, fun h => h⟩ ih

theorem Settles.ids (h : Settles key id live rows rows') : rows'.map id = rows.map id := by
  induction h with
  | nil => rfl
  | cons hab _ ih => rw [List.map_cons, List.map_cons, hab.2.1, ih]

theorem Settles.noneLive {k : κ} (h : Settles key id live rows rows') (hn : NoneLive key live k rows) :
    NoneLive key live k rows' := by
  induction h with
  | nil => exact hn
  | cons hab _ ih =>
    obtain ⟨hkey, -, hlive⟩ := hab
    intro x hx hxk
    rcases List.mem_cons.1 hx with rfl | hx
    · refine Bool.eq_false_iff.2 fun hc => ?_
      have hold := hn _ List.mem_cons_self (hkey.symm.trans hxk)
      rw [hlive hc] at hold
      cases hold
    · exact ih (fun y hy => hn y (List.mem_cons_of_mem _ hy)) x hx hxk

theorem Settles.take (h : Settles key id live rows rows') (n : Nat) :
    Settles key id live (rows.take n) (rows'.take n) := List.forall₂_take n h

theorem Settles.oneLive (h : Settles key id live rows rows') (ho : OneLive key live rows) :
    OneLive key live rows' := by
  induction h with
  | nil => exact ho
  | cons hab hrest ih =>
    obtain ⟨hkey, -, hlive⟩ := hab
    obtain ⟨hfirst, ho⟩ := List.pairwise_cons.1 ho
    refine List.pairwise_cons.2 ⟨fun x hx hxk hl => ?_, ih ho⟩
    have hnone := Settles.noneLive (k := key _) hrest fun y hy hyk => hfirst y hy hyk.symm (hlive hl)
    exact hnone x hx (hxk.symm.trans hkey)

/-- A live row may be added to a table that has none of its key. -/
theorem OneLive.append_iff (hl : live a = true) :
    OneLive key live (rows ++ [a]) ↔ OneLive key live rows ∧ NoneLive key live (key a) rows := by
  unfold OneLive NoneLive
  rw [List.pairwise_append]
  simp only [List.pairwise_singleton, List.mem_singleton, forall_eq, true_and]
  refine and_congr_right fun _ => forall₂_congr fun b _ => forall_congr' fun _ => ?_
  simp [hl]

theorem noneLive_append {k : κ} {l l' : List α} :
    NoneLive key live k (l ++ l') ↔ NoneLive key live k l ∧ NoneLive key live k l' := by
  simp only [NoneLive, List.mem_append, or_imp, forall_and]

/-- What is said of the rows that a call has seen and of those that have come since is said of all. -/
theorem noneLive_split {k : κ} (seen : Nat) : NoneLive key live k rows ↔
    NoneLive key live k (rows.take seen) ∧ NoneLive key live k (rows.drop seen) := by
  rw [← noneLive_append, List.take_append_drop]

end Rows

/-! ## What a lock or a statement does -/

section Statements

variable {b : StoreKind} {ok : Bool}

theorem live_act {action assignee : String} {now : Nat} {a : Alert} (h : a.live = true) :
    (a.act action assignee now).key = a.key ∧ (a.act action assignee now).id = a.id ∧
      ((a.act action assignee now).live = true → a.live = true) := by
  unfold Alert.act
  split <;> exact ⟨rfl, rfl, fun _ => h⟩

namespace StoreKind

/-- A look at the rows that is answered with nothing has seen that there is nothing. -/
theorem noneLive_of_alertCheck {g : IdTable Alert} {inst kind : String}
    (h : (b.alertCheck g inst kind ok).1 = false) (hok : ok = true) :
    NoneLive Alert.key Alert.live (inst, kind) g.rows := by
  have hany : (g.rows.any fun a => a.inst = inst && a.kind = kind && a.live) = false := by
    cases b with
    | memory => exact h
    | mysql => rwa [alertCheck, MysqlBackend.alertOpenCheck, hok, Bool.true_and] at h
  intro a ha hkey
  obtain ⟨rfl, rfl⟩ := Prod.mk.inj hkey
  simpa using List.any_eq_false.1 hany a ha

theorem noneLive_of_govCheck {g : IdTable GovRow} {digest : String}
    (h : b.govCheck g digest ok = false) (hok : ok = true) :
    NoneLive GovRow.digest GovRow.live digest g.rows := by
  have hany : (g.rows.any fun x => x.digest = digest && x.live) = false := by
    cases b with
    | memory => exact h
    | mysql => rwa [govCheck, MysqlBackend.slowGovCheck, hok, Bool.true_and] at h
  intro x hx hkey
  subst hkey
  simpa using List.any_eq_false.1 hany x hx

theorem alertInsert_cases (hadm : b.admits ok) (g : IdTable Alert) (nextId : Nat) (k : AlertCall)
    (now : Nat) :
    (ok = false ∧ b.alertInsert g nextId k now ok = g) ∨
      (ok = true ∧ ∃ a : Alert, a.key = (k.inst, k.kind) ∧ a.live = true ∧
        a.id = (if b = .memory then nextId else g.next) + 1 ∧
        b.alertInsert g nextId k now ok = ⟨g.rows ++ [a], a.id⟩) := by
  cases b with
  | memory =>
    cases ok with
    | true => exact .inr ⟨rfl, _, rfl, rfl, rfl, rfl⟩
    | false => cases hadm
  | mysql =>
    cases ok with
    | true => exact .inr ⟨rfl, _, rfl, rfl, rfl, rfl⟩
    | false => exact .inl ⟨rfl, rfl⟩

theorem govInsert_cases (hadm : b.admits ok) (g : IdTable GovRow) (k : GovCall) (now : Nat) :
    (ok = false ∧ b.govInsert g k now ok = g) ∨
      (ok = true ∧ ∃ x : GovRow, x.digest = k.digest ∧ x.live = true ∧
        (b.govInsert g k now ok).rows = g.rows ++ [x]) := by
  cases b with
  | memory =>
    cases ok with
    | true => exact .inr ⟨rfl, _, rfl, rfl, rfl⟩
    | false => cases hadm
  | mysql =>
    cases ok with
    | true => exact .inr ⟨rfl, _, rfl, rfl, rfl⟩
    | false => exact .inl ⟨rfl, rfl⟩

/-- Actions settle the rows, and give no id. -/
theorem alertAction_settles (b : StoreKind) (g : IdTable Alert) (id : Nat) (action assignee : String)
    (now : Nat) (ok : Bool) :
    Settles Alert.key Alert.id Alert.live g.rows (b.alertAction g id action assignee now ok).2.rows ∧
      (b.alertAction g id action assignee now ok).2.next = g.next := by
  have hlive : ∀ a : Alert, (decide (a.id = id) && a.live) = true → a.live = true := fun a h =>
    (Bool.and_eq_true_iff.1 h).2
  cases b with
  | memory =>
    unfold alertAction MemoryBackend.alertAction
    dsimp only
    split
    · exact ⟨Settles.modifyFirst (fun a ha => live_act (hlive a ha)) g.rows, rfl⟩
    · exact ⟨Settles.refl g.rows, rfl⟩
  | mysql =>
    unfold alertAction MysqlBackend.alertAction
    dsimp only
    split
    · refine ⟨Settles.map (fun a => ?_) g.rows, rfl⟩
      split
      · next h => exact live_act (hlive a h)
      · exact ⟨rfl, rfl, fun h => h⟩
    · exact ⟨Settles.refl g.rows, rfl⟩

theorem alertResolveInstance_settles (b : StoreKind) (g : IdTable Alert) (inst : String) (now : Nat)
    (ok : Bool) :
    Settles Alert.key Alert.id Alert.live g.rows (b.alertResolveInstance g inst now ok).rows ∧
      (b.alertResolveInstance g inst now ok).next = g.next := by
  have hall : Settles Alert.key Alert.id Alert.live g.rows
      (g.rows.map fun a => if a.inst = inst && a.live then a.resolve now else a) := by
    refine Settles.map (fun a => ?_) g.rows
    split
    · exact ⟨rfl, rfl, fun h => by cases h⟩
    · exact ⟨rfl, rfl, fun h => h⟩
  cases b with
  | memory => exact ⟨hall, rfl⟩
  | mysql =>
    unfold alertResolveInstance MysqlBackend.alertResolveInstance
    dsimp only
    split
    · exact ⟨hall, rfl⟩
    · exact ⟨Settles.refl g.rows, rfl⟩

theorem slowGovAction_settles (b : StoreKind) (g : IdTable GovRow) (id : Nat) (action assignee : String)
    (now : Nat) (ok : Bool) :
    Settles GovRow.digest GovRow.id GovRow.live g.rows
      (b.slowGovAction g id action assignee now ok).2.rows := by
  have hlive : ∀ x : GovRow, (decide (x.id = id) && x.live) = true → x.live = true := fun x h =>
    (Bool.and_eq_true_iff.1 h).2
  cases b with
  | memory =>
    unfold slowGovAction MemoryBackend.slowGovAction
    dsimp only
    split
    · refine Settles.modifyFirst (fun x hx => ?_) g.rows
      unfold MemoryBackend.actGov
      split <;> exact ⟨rfl, rfl, fun _ => hlive x hx⟩
    · exact Settles.refl g.rows
  | mysql =>
    unfold slowGovAction MysqlBackend.slowGovAction
    dsimp only
    split
    · refine Settles.map (fun x => ?_) g.rows
      split
      · next hx =>
        unfold MysqlBackend.actGov
        split <;> exact ⟨rfl, rfl, fun _ => hlive x hx⟩
      · exact ⟨rfl, rfl, fun h => h⟩
    · exact Settles.refl g.rows

end StoreKind

end Statements

namespace Desk

/-! ## Uniqueness along a run -/

/-- What is asked of the tables and of the answers. -/
structure Unique (s : Desk) : Prop where
  alerts : OneLive Alert.key Alert.live s.alerts.rows
  ids : (s.alerts.rows.map Alert.id).Nodup
  gov : OneLive GovRow.digest GovRow.live s.gov.rows
  answers : ∀ k ∈ s.ensures, ∀ answer row, k.phase = .returned answer row →
    (answer = true ↔ row.isSome = true)

/-- A call inserts its row while what it has found of its key still stands: it was told about the rows
that it has looked at, or there was nothing to tell, and no row has come since that is live. In
`MemoryBackend` no alert at all has come. The `INSERT` of a governance row is executed. -/
def Undisturbed (b : StoreKind) (s : Desk) : DeskEvent → Prop
  | .alertInsert c _ ok => ok = true → ∀ k nextId seen told, s.opens[c]? = some k →
      k.phase = .inserting nextId seen told →
        (told = true ∨ NoneLive Alert.key Alert.live (k.inst, k.kind) (s.alerts.rows.take seen)) ∧
          NoneLive Alert.key Alert.live (k.inst, k.kind) (s.alerts.rows.drop seen) ∧
          (b = .memory → s.alerts.rows.length = seen)
  | .govInsert c ok => ∀ k now seen told, s.ensures[c]? = some k → k.phase = .inserting now seen told →
      ok = true ∧
        (told = true ∨ NoneLive GovRow.digest GovRow.live k.digest (s.gov.rows.take seen)) ∧
          NoneLive GovRow.digest GovRow.live k.digest (s.gov.rows.drop seen)
  | _ => True

/-- The runs from empty tables. -/
abbrev Runs (b : StoreKind) : History Desk DeskEvent → Desk → Prop :=
  Run (step b) (fun _ _ _ => True) (· = ({} : Desk))

/-- What holds as long as no insert is disturbed: the ids count the rows, and what a call was told is
still so of the rows that it has looked at. -/
structure Sound (b : StoreKind) (s : Desk) : Prop where
  unique : s.Unique
  ids : s.alerts.rows.map Alert.id = List.range' 1 s.alerts.rows.length
  next : s.alerts.next = s.alerts.rows.length
  opens : ∀ k ∈ s.opens, ∀ nextId seen told, k.phase = .inserting nextId seen told →
    seen ≤ s.alerts.rows.length ∧ (b = .memory → nextId = seen) ∧
      (told = true → NoneLive Alert.key Alert.live (k.inst, k.kind) (s.alerts.rows.take seen))
  ensures : ∀ k ∈ s.ensures, ∀ now seen told, k.phase = .inserting now seen told →
    seen ≤ s.gov.rows.length ∧
      (told = true → NoneLive GovRow.digest GovRow.live k.digest (s.gov.rows.take seen))

variable {b : StoreKind} {s s' : Desk} {e : DeskEvent} {h : History Desk DeskEvent}

namespace Sound

theorem init (b : StoreKind) : Sound b {} where
  unique := ⟨.nil, List.nodup_nil, .nil, by simp⟩
  ids := rfl
  next := rfl
  opens := by simp
  ensures := by simp

/-- The calls of `alert_open` have moved on, and those that are about to insert have looked. -/
theorem withOpens (hs : Sound b s) {opens : List AlertCall}
    (ho : ∀ k ∈ opens, ∀ nextId seen told, k.phase = .inserting nextId seen told →
      seen ≤ s.alerts.rows.length ∧ (b = .memory → nextId = seen) ∧
        (told = true → NoneLive Alert.key Alert.live (k.inst, k.kind) (s.alerts.rows.take seen))) :
    Sound b { s with opens := opens } :=
  ⟨⟨hs.unique.alerts, hs.unique.ids, hs.unique.gov, hs.unique.answers⟩, hs.ids, hs.next, ho, hs.ensures⟩

/-- Alerts are acted on. -/
theorem settleAlerts (hs : Sound b s) {g : IdTable Alert}
    (hg : Settles Alert.key Alert.id Alert.live s.alerts.rows g.rows) (hn : g.next = s.alerts.next) :
    Sound b { s with alerts := g } := by
  have hlen : g.rows.length = s.alerts.rows.length := hg.length_eq.symm
  refine ⟨⟨hg.oneLive hs.unique.alerts, ?_, hs.unique.gov, hs.unique.answers⟩, ?_, ?_,
    fun k hk nextId seen told hp => ?_, hs.ensures⟩
  · show (g.rows.map Alert.id).Nodup
    rw [hg.ids]
    exact hs.unique.ids
  · show g.rows.map Alert.id = List.range' 1 g.rows.length
    rw [hg.ids, hlen, hs.ids]
  · exact hn.trans (hs.next.trans hlen.symm)
  · obtain ⟨hle, hnext, htold⟩ := hs.opens k hk nextId seen told hp
    exact ⟨le_of_le_of_eq hle hlen.symm, hnext, fun ht => (hg.take seen).noneLive (htold ht)⟩

theorem settleGov (hs : Sound b s) {g : IdTable GovRow}
    (hg : Settles GovRow.digest GovRow.id GovRow.live s.gov.rows g.rows) :
    Sound b { s with gov := g } := by
  refine ⟨⟨hs.unique.alerts, hs.unique.ids, hg.oneLive hs.unique.gov, hs.unique.answers⟩, hs.ids,
    hs.next, hs.opens, fun k hk now seen told hp => ?_⟩
  obtain ⟨hle, htold⟩ := hs.ensures k hk now seen told hp
  exact ⟨le_of_le_of_eq hle hg.length_eq, fun ht => (hg.take seen).noneLive (htold ht)⟩

/-- A call looks for its alert. -/
theorem alertCheck (hs : Sound b s) (c : Nat) (k : AlertCall) (ok : Bool) :
    Sound b { s with opens := s.opens.set c { k with
      phase := if (b.alertCheck s.alerts k.inst k.kind ok).1 then .returned
        else .inserting (b.alertCheck s.alerts k.inst k.kind ok).2 s.alerts.rows.length ok } } := by
  refine hs.withOpens fun x hx nextId seen told hp => ?_
  rcases List.mem_or_eq_of_mem_set hx with hx | rfl
  · exact hs.opens x hx nextId seen told hp
  · dsimp only at hp
    split at hp
    · cases hp
    next hfound =>
      cases hp
      refine ⟨Nat.le_refl _, fun hb => ?_, fun ht => ?_⟩
      · subst hb
        exact hs.next
      · rw [List.take_length]
        exact StoreKind.noneLive_of_alertCheck (Bool.eq_false_iff.2 hfound) ht

/-- A call that is not disturbed inserts its alert. -/
theorem alertInsert (hs : Sound b s) {c now nextId seen : Nat} {k : AlertCall} {ok told : Bool}
    (hc : s.opens[c]? = some k) (hp : k.phase = .inserting nextId seen told) (hadm : b.admits ok)
    (hu : Undisturbed b s (.alertInsert c now ok)) :
    Sound b { s with
      alerts := b.alertInsert s.alerts nextId k now ok
      opens := s.opens.set c { k with phase := .returned } } := by
  have hothers : ∀ x ∈ s.opens.set c { k with phase := .returned }, ∀ nextId seen told,
      x.phase = .inserting nextId seen told → x ∈ s.opens := fun x hx _ _ _ hpx => by
    rcases List.mem_or_eq_of_mem_set hx with hx | rfl
    · exact hx
    · cases hpx
  rcases StoreKind.alertInsert_cases hadm s.alerts nextId k now with ⟨-, heq⟩ | ⟨hok, a, hkey, hlive, hid, heq⟩
  · rw [heq]
    exact hs.withOpens fun x hx nextId seen told hpx => hs.opens x (hothers x hx _ _ _ hpx) nextId seen told hpx
  · obtain ⟨htold, hdrop, hlen⟩ := hu hok k nextId seen told hc hp
    obtain ⟨hle, hnext, hseen⟩ := hs.opens k (List.mem_of_getElem? hc) nextId seen told hp
    have hnone : NoneLive Alert.key Alert.live a.key s.alerts.rows := by
      rw [hkey, noneLive_split seen]
      exact ⟨htold.elim hseen id, hdrop⟩
    have haid : a.id = s.alerts.rows.length + 1 := by
      rw [hid]
      split
      · next hb => rw [hnext hb, hlen hb]
      · rw [hs.next]
    have hids : (s.alerts.rows ++ [a]).map Alert.id = List.range' 1 (s.alerts.rows ++ [a]).length := by
      rw [List.map_append, hs.ids, List.length_append, List.length_singleton, List.range'_concat,
        List.map_singleton, haid]
      simp [Nat.add_comm]
    rw [heq]
    refine ⟨⟨(OneLive.append_iff hlive).2 ⟨hs.unique.alerts, hnone⟩, ?_, hs.unique.gov, hs.unique.answers⟩,
      hids, ?_, fun x hx nextId' seen' told' hpx => ?_, hs.ensures⟩
    · show ((s.alerts.rows ++ [a]).map Alert.id).Nodup
      rw [hids]
      exact List.nodup_range'
    · simp [haid]
    · obtain ⟨hle', hnext', htold'⟩ := hs.opens x (hothers x hx _ _ _ hpx) nextId' seen' told' hpx
      refine ⟨Nat.le_trans hle' (by simp), hnext', fun ht => ?_⟩
      show NoneLive _ _ _ ((s.alerts.rows ++ [a]).take seen')
      rw [List.take_append_of_le_length hle']
      exact htold' ht

/-- An alert that is inserted under a disturbance is no longer the only one, or its id is not. -/
theorem undisturbed_alert (hs : Sound b s) {c now nextId seen : Nat} {k : AlertCall} {ok told : Bool}
    (hc : s.opens[c]? = some k) (hp : k.phase = .inserting nextId seen told) (hadm : b.admits ok)
    (hu : Unique { s with
      alerts := b.alertInsert s.alerts nextId k now ok
      opens := s.opens.set c { k with phase := .returned } }) :
    Undisturbed b s (.alertInsert c now ok) := by
  intro hok k' nextId' seen' told' hc' hp'
  obtain rfl := Option.some.inj (hc.symm.trans hc')
  obtain ⟨rfl, rfl, rfl⟩ := AlertPhase.inserting.inj (hp.symm.trans hp')
  obtain ⟨hle, hnext, -⟩ := hs.opens k (List.mem_of_getElem? hc) nextId seen told hp
  rcases StoreKind.alertInsert_cases hadm s.alerts nextId k now with ⟨hc, -⟩ | ⟨-, a, hkey, hlive, hid, heq⟩
  · rw [hok] at hc
    cases hc
  · rw [heq] at hu
    obtain ⟨-, hnone⟩ := (OneLive.append_iff hlive).1 hu.alerts
    rw [hkey, noneLive_split seen] at hnone
    refine ⟨.inr hnone.1, hnone.2, fun hb => ?_⟩
    by_contra hne
    -- the counter that was read has been passed, so the id is one of those given
    have hids : ((s.alerts.rows ++ [a]).map Alert.id).Nodup := hu.ids
    rw [List.map_append, List.nodup_append'] at hids
    refine List.disjoint_left.1 hids.2.2 ?_ (List.mem_singleton.2 rfl)
    rw [hs.ids, hid, if_pos hb, hnext hb, List.mem_range'_1]
    omega

/-- A call looks for its governance row. -/
theorem govCheck (hs : Sound b s) (c now : Nat) (k : GovCall) (ok : Bool) :
    Sound b { s with ensures := s.ensures.set c { k with
      phase := if b.govCheck s.gov k.digest ok then .returned false none
        else .inserting now s.gov.rows.length ok } } := by
  refine ⟨⟨hs.unique.alerts, hs.unique.ids, hs.unique.gov, fun x hx answer row hp => ?_⟩, hs.ids,
    hs.next, hs.opens, fun x hx now' seen told hp => ?_⟩
  · rcases List.mem_or_eq_of_mem_set hx with hx | rfl
    · exact hs.unique.answers x hx answer row hp
    · dsimp only at hp
      split at hp
      · cases hp
        simp
      · cases hp
  · rcases List.mem_or_eq_of_mem_set hx with hx | rfl
    · exact hs.ensures x hx now' seen told hp
    · dsimp only at hp
      split at hp
      · cases hp
      next hfound =>
        cases hp
        refine ⟨Nat.le_refl _, fun ht => ?_⟩
        rw [List.take_length]
        exact StoreKind.noneLive_of_govCheck (Bool.eq_false_iff.2 hfound) ht

/-- A call that is not disturbed inserts its governance row. -/
theorem govInsert (hs : Sound b s) {c now seen : Nat} {k : GovCall} {ok told : Bool}
    (hc : s.ensures[c]? = some k) (hp : k.phase = .inserting now seen told) (hadm : b.admits ok)
    (hu : Undisturbed b s (.govInsert c ok)) :
    Sound b { s with
      gov := b.govInsert s.gov k now ok
      ensures := s.ensures.set c { k with
        phase := .returned true (if ok then some (s.gov.next + 1) else none) } } := by
  obtain ⟨rfl, htold, hdrop⟩ := hu k now seen told hc hp
  rcases StoreKind.govInsert_cases hadm s.gov k now with ⟨hc, -⟩ | ⟨-, x, hkey, hlive, heq⟩
  · cases hc
  · have hnone : NoneLive GovRow.digest GovRow.live x.digest s.gov.rows := by
      rw [hkey, noneLive_split seen]
      exact ⟨htold.elim (hs.ensures k (List.mem_of_getElem? hc) now seen told hp).2 id, hdrop⟩
    refine ⟨⟨hs.unique.alerts, hs.unique.ids, ?_, fun y hy answer row hpy => ?_⟩, hs.ids, hs.next,
      hs.opens, fun y hy now' seen' told' hpy => ?_⟩
    · show OneLive _ _ (b.govInsert s.gov k now true).rows
      rw [heq]
      exact (OneLive.append_iff hlive).2 ⟨hs.unique.gov, hnone⟩
    · rcases List.mem_or_eq_of_mem_set hy with hy | rfl
      · exact hs.unique.answers y hy answer row hpy
      · cases hpy
        simp
    · rcases List.mem_or_eq_of_mem_set hy with hy | rfl
      · obtain ⟨hle, htold'⟩ := hs.ensures y hy now' seen' told' hpy
        show seen' ≤ (b.govInsert s.gov k now true).rows.length ∧ (told' = true →
          NoneLive _ _ _ ((b.govInsert s.gov k now true).rows.take seen'))
        rw [heq, List.take_append_of_le_length hle]
        exact ⟨Nat.le_trans hle (by simp), htold'⟩
      · cases hpy

/-- A governance row that is inserted under a disturbance is not the only one, or was not inserted. -/
theorem undisturbed_gov {c now seen : Nat} {k : GovCall} {ok told : Bool}
    (hc : s.ensures[c]? = some k) (hp : k.phase = .inserting now seen told) (hadm : b.admits ok)
    (hu : Unique { s with
      gov := b.govInsert s.gov k now ok
      ensures := s.ensures.set c { k with
        phase := .returned true (if ok then some (s.gov.next + 1) else none) } }) :
    Undisturbed b s (.govInsert c ok) := by
  intro k' now' seen' told' hc' hp'
  obtain rfl := Option.some.inj (hc.symm.trans hc')
  obtain ⟨rfl, rfl, rfl⟩ := GovPhase.inserting.inj (hp.symm.trans hp')
  rcases StoreKind.govInsert_cases hadm s.gov k now with ⟨hok, -⟩ | ⟨hok, x, hkey, hlive, heq⟩
  · have hlen := (List.getElem?_eq_some_iff.1 hc).1
    have hanswer := (hu.answers _ (List.mem_of_getElem? (List.getElem?_set_self hlen)) _ _ rfl).1 rfl
    rw [hok] at hanswer
    cases hanswer
  · have hgov : OneLive GovRow.digest GovRow.live (b.govInsert s.gov k now ok).rows := hu.gov
    rw [heq] at hgov
    obtain ⟨-, hnone⟩ := (OneLive.append_iff hlive).1 hgov
    rw [hkey, noneLive_split seen] at hnone
    exact ⟨hok, .inr hnone.1, hnone.2⟩

theorem step (hs : Sound b s) (h : step b s e = some s') (hu : Undisturbed b s e) : Sound b s' := by
  cases e with
  | alertOpen inst kind severity message =>
    cases h
    refine hs.withOpens fun k hk nextId seen told hp => ?_
    rcases List.mem_append.1 hk with hk | hk
    · exact hs.opens k hk nextId seen told hp
    · cases List.mem_singleton.1 hk
      cases hp
  | alertCheck c ok =>
    rw [Desk.step] at h
    split at h
    next k hc =>
      split at h
      · cases h
        exact hs.alertCheck c k ok
      · cases h
    · cases h
  | alertInsert c now ok =>
    rw [Desk.step] at h
    split at h
    next k hc =>
      split at h
      next nextId seen told hp =>
        split at h
        next hadm =>
          cases h
          exact hs.alertInsert hc hp hadm hu
        · cases h
      · cases h
    · cases h
  | alertAction id action assignee now ok =>
    rw [Desk.step] at h
    split at h
    · cases h
      obtain ⟨hg, hn⟩ := StoreKind.alertAction_settles b s.alerts id action assignee now ok
      exact hs.settleAlerts hg hn
    · cases h
  | alertResolveInstance inst now ok =>
    rw [Desk.step] at h
    split at h
    · cases h
      obtain ⟨hg, hn⟩ := StoreKind.alertResolveInstance_settles b s.alerts inst now ok
      exact hs.settleAlerts hg hn
    · cases h
  | slowGovEnsure digest digestText =>
    cases h
    refine ⟨⟨hs.unique.alerts, hs.unique.ids, hs.unique.gov, fun k hk answer row hp => ?_⟩, hs.ids,
      hs.next, hs.opens, fun k hk now seen told hp => ?_⟩
    all_goals
      rcases List.mem_append.1 hk with hk | hk
    · exact hs.unique.answers k hk answer row hp
    · cases List.mem_singleton.1 hk
      cases hp
    · exact hs.ensures k hk now seen told hp
    · cases List.mem_singleton.1 hk
      cases hp
  | govCheck c now ok =>
    rw [Desk.step] at h
    split at h
    next k hc =>
      split at h
      · cases h
        exact hs.govCheck c now k ok
      · cases h
    · cases h
  | govInsert c ok =>
    rw [Desk.step] at h
    split at h
    next k hc =>
      split at h
      next now seen told hp =>
        split at h
        next hadm =>
          cases h
          exact hs.govInsert hc hp hadm hu
        · cases h
      · cases h
    · cases h
  | slowGovAction id action assignee now ok =>
    rw [Desk.step] at h
    split at h
    · cases h
      exact hs.settleGov (StoreKind.slowGovAction_settles b s.gov id action assignee now ok)
    · cases h

/-- A step that leaves everything unique was not disturbed. -/
theorem undisturbed (hs : Sound b s) (h : Desk.step b s e = some s') (hu : s'.Unique) :
    Undisturbed b s e := by
  cases e with
  | alertInsert c now ok =>
    rw [Desk.step] at h
    split at h
    next k hc =>
      split at h
      next nextId seen told hp =>
        split at h
        next hadm =>
          cases h
          exact hs.undisturbed_alert hc hp hadm hu
        · cases h
      · cases h
    · cases h
  | govInsert c ok =>
    rw [Desk.step] at h
    split at h
    next k hc =>
      split at h
      next now seen told hp =>
        split at h
        next hadm =>
          cases h
          exact undisturbed_gov hc hp hadm hu
        · cases h
      · cases h
    · cases h
  | _ => trivial

end Sound

/-- Along a run without disturbances everything is sound. -/
theorem Runs.sound (hr : Runs b h s) (hall : ∀ t e, (t, e) ∈ h → Undisturbed b t e) :
    Sound b s ∧ ∀ t ∈ h.states s, t.Unique := by
  induction hr with
  | @start s hi =>
    subst hi
    have hs := Sound.init b
    refine ⟨hs, fun t ht => ?_⟩
    simp only [History.states, List.map_nil, List.mem_singleton] at ht
    exact ht ▸ hs.unique
  | @step h s s' e hr hg hs ih =>
    obtain ⟨hsound, hunique⟩ := ih fun t e' hmem => hall t e' (List.mem_cons_of_mem _ hmem)
    have hsound' := hsound.step hs (hall s e List.mem_cons_self)
    exact ⟨hsound', List.forall_mem_cons.2 ⟨hsound'.unique, hunique⟩⟩

/-- In a run of any number of threads, the live alerts and governance rows, the ids of the alerts and the
answers are unique in every state exactly when no insert is disturbed. -/
theorem unique_iff_undisturbed (hr : Runs b h s) :
    (∀ t ∈ h.states s, t.Unique) ↔ ∀ t e, (t, e) ∈ h → Undisturbed b t e := by
  refine ⟨fun hall => ?_, fun hall => (hr.sound hall).2⟩
  induction hr with
  | start hi => simp
  | @step h s s' e hr hg hs ih =>
    obtain ⟨hlast, hrest⟩ := List.forall_mem_cons.1 hall
    have hold := ih hrest
    intro t e' hmem
    rcases List.mem_cons.1 hmem with heq | hmem
    · cases heq
      exact (Runs.sound hr hold).1.undisturbed hs hlast
    · exact hold t e' hmem

/-- Two calls for alerts of different kinds, both of which look before either inserts. -/
theorem unique_interleaved : ∃ h s, Runs .mysql h s ∧
    s.alerts.rows.map (fun a => (a.id, a.kind)) = [(1, "lag"), (2, "down")] ∧
      ∀ t ∈ h.states s, t.Unique := by
  have hrun := Run.step (e := .alertInsert 1 6 true) (Run.step (e := .alertInsert 0 5 true)
    (Run.step (e := .alertCheck 1 true) (Run.step (e := .alertCheck 0 true)
    (Run.step (e := .alertOpen "db" "down" "critical" "") (Run.step (e := .alertOpen "db" "lag" "warn" "")
    (show Runs .mysql [] {} from .start rfl)
    trivial rfl) trivial rfl) trivial rfl) trivial rfl) trivial rfl) trivial rfl
  refine ⟨_, _, hrun, rfl, (unique_iff_undisturbed hrun).2 fun t e hmem => ?_⟩
  rcases List.mem_cons.1 hmem with heq | hmem
  · cases heq
    intro _ k nextId seen told hc hp
    cases hc
    cases hp
    refine ⟨.inl rfl, fun a ha hkey => ?_, fun hb => by cases hb⟩
    cases List.mem_singleton.1 ha
    exact absurd hkey (by decide)
  rcases List.mem_cons.1 hmem with heq | hmem
  · cases heq
    intro _ k nextId seen told hc hp
    cases hc
    cases hp
    refine ⟨.inl rfl, ?_, fun hb => by cases hb⟩
    intro a ha
    cases ha
  · simp only [List.mem_cons, List.not_mem_nil, or_false, Prod.mk.injEq] at hmem
    rcases hmem with ⟨-, rfl⟩ | ⟨-, rfl⟩ | ⟨-, rfl⟩ | ⟨-, rfl⟩ <;> trivial

/-- Two calls for one alert that look before either inserts leave two open alerts with one id in
`MemoryBackend`; two calls for one digest leave two open rows in `MysqlBackend`, both answered `true`. -/
theorem opened_twice :
    (∃ h s, Runs .memory h s ∧ ¬s.Unique ∧ s.alerts.rows.map (fun a => (a.id, a.key, a.status)) =
        [(1, ("db", "down"), .opened), (1, ("db", "down"), .opened)]) ∧
      ∃ h s, Runs .mysql h s ∧ ¬s.Unique ∧ s.gov.rows.map (fun x => (x.digest, x.status)) =
        [("d", .opened), ("d", .opened)] ∧
          s.ensures.map GovCall.phase = [.returned true (some 1), .returned true (some 2)] := by
  constructor
  · have hrun := Run.step (e := .alertInsert 1 6 true) (Run.step (e := .alertInsert 0 5 true)
      (Run.step (e := .alertCheck 1 true) (Run.step (e := .alertCheck 0 true)
      (Run.step (e := .alertOpen "db" "down" "warn" "") (Run.step (e := .alertOpen "db" "down" "warn" "")
      (show Runs .memory [] {} from .start rfl)
      trivial rfl) trivial rfl) trivial rfl) trivial rfl) trivial rfl) trivial rfl
    refine ⟨_, _, hrun, fun hu => ?_, rfl⟩
    exact absurd (List.nodup_cons.1 hu.ids).1 (by simp)
  · have hrun := Run.step (e := .govInsert 1 true) (Run.step (e := .govInsert 0 true)
      (Run.step (e := .govCheck 1 5 true) (Run.step (e := .govCheck 0 5 true)
      (Run.step (e := .slowGovEnsure "d" "") (Run.step (e := .slowGovEnsure "d" "")
      (show Runs .mysql [] {} from .start rfl)
      trivial rfl) trivial rfl) trivial rfl) trivial rfl) trivial rfl) trivial rfl
    refine ⟨_, _, hrun, fun hu => ?_, rfl, rfl⟩
    have hfirst := (List.pairwise_cons.1 hu.gov).1 _ (List.mem_singleton.2 rfl) rfl rfl
    cases hfirst

end Desk

end Rdsctl.Store
