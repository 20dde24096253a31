import Mathlib.Data.List.Nodup
import Rdsctl.Store.Sql

/-!
# The backup outbox of the two stores

`src/store.rs`: `backup_outbox_enqueue`, `_poll`, `_mark`, `_requeue` and `_prune` of `MemoryBackend`
and of `MysqlBackend`, on one table of rows. A call of the MySQL back end is one statement, but for
`backup_outbox_poll`, which is an `UPDATE` and a `SELECT`. `Outbox.Ordered` holds of every table that
these build, and on such tables each method has the same effect in both (`mark_eq`, `requeue_eq`,
`poll_rows`).
-/

namespace Rdsctl.Store

/-- The column `state`. -/
inductive OutboxState where
  | pending
  | delivering
  | done
  | dead
  deriving DecidableEq

/-- A row as `backup_outbox_poll` returns it. The payload is JSON text, which the store only keeps. -/
structure PolledRow (π : Type) where
  id : Nat
  event : String
  instance' : String
  node : String
  ikey : String
  payload : π
  attempts : Nat
  state : OutboxState
  deriving DecidableEq

structure MemBOutbox (π : Type) extends PolledRow π where
  nextAt : Nat
  lastError : String
  updatedAt : Nat
  deriving DecidableEq

/-- The table `backup_outbox`: its rows by ascending id and the last id given. -/
structure Outbox (π : Type) where
  rows : List (MemBOutbox π)
  next : Nat
  deriving DecidableEq

variable {π : Type}

namespace MemBOutbox

/-- The row of a new event. -/
def new (id : Nat) (event instance' node ikey : String) (payload : π) (now : Nat) : MemBOutbox π :=
  { id, event, instance', node, ikey, payload
    state := .pending, attempts := 0, nextAt := now, lastError := "", updatedAt := now }

/-- A row that `backup_outbox_poll` may hand out. -/
def due (b : MemBOutbox π) (now : Nat) : Bool :=
  (b.state = .pending || b.state = .delivering) && b.nextAt ≤ now

def claim (b : MemBOutbox π) (now : Nat) : MemBOutbox π :=
  { b with state := .delivering, updatedAt := now }

def mark (b : MemBOutbox π) (state : OutboxState) (attempts nextAt : Nat) (lastError : String)
    (now : Nat) : MemBOutbox π :=
  { b with
    state := state, attempts := attempts, nextAt := nextAt, lastError := lastError
    updatedAt := now }

/-- A state that delivery is over in. -/
def final (b : MemBOutbox π) : Bool := b.state = .done || b.state = .dead

@[simp] theorem claim_id (b : MemBOutbox π) (now : Nat) : (b.claim now).id = b.id := rfl
@[simp] theorem claim_state (b : MemBOutbox π) (now : Nat) : (b.claim now).state = .delivering := rfl
@[simp] theorem claim_attempts (b : MemBOutbox π) (now : Nat) :
    (b.claim now).attempts = b.attempts := rfl

section
variable {b : MemBOutbox π} {state : OutboxState} {attempts nextAt now : Nat} {lastError : String}

@[simp] theorem mark_id : (b.mark state attempts nextAt lastError now).id = b.id := rfl
@[simp] theorem mark_state : (b.mark state attempts nextAt lastError now).state = state := rfl
@[simp] theorem mark_attempts : (b.mark state attempts nextAt lastError now).attempts = attempts := rfl

end

theorem not_final_of_due {b : MemBOutbox π} {now : Nat} (h : b.due now) : b.final = false := by
  simp only [due, Bool.and_eq_true, Bool.or_eq_true, decide_eq_true_eq] at h
  rcases h.1 with hs | hs <;> simp [final, hs]

end MemBOutbox

/-- The effect of `iter_mut().find(p)` and an update of what it finds. -/
def modifyFirst {α : Type} (p : α → Bool) (f : α → α) : List α → List α
  | [] => []
  | a :: as => if p a then f a :: as else a :: modifyFirst p f as

/-- Where at most one entry is found, all that are found are updated. -/
theorem modifyFirst_eq_map {α : Type} {p : α → Bool} {f : α → α} {l : List α}
    (h : l.Pairwise fun a b => p a → p b = false) :
    modifyFirst p f l = l.map fun a => if p a then f a else a := by
  induction l with
  | nil => rfl
  | cons a as ih =>
    obtain ⟨ha, has⟩ := List.pairwise_cons.1 h
    by_cases hp : p a
    · have hrest : as.map (fun b => if p b then f b else b) = as.map id :=
        List.map_congr_left fun b hb => by simp [ha b hb hp]
      simp [modifyFirst, hp, hrest]
    · simp [modifyFirst, hp, ih has]

namespace MemoryBackend

def backupOutboxEnqueue (g : Outbox π) (event instance' node ikey : String) (payload : π) (now : Nat) :
    Outbox π × Bool :=
  if g.rows.any (·.ikey = ikey) then (g, false)
  else
    let id := g.next + 1
    ({ rows := g.rows ++ [.new id event instance' node ikey payload now], next := id }, true)

/-- The loop of `backup_outbox_poll` over the ids. -/
def claimAll (now : Nat) :
    List Nat → List (MemBOutbox π) → List (MemBOutbox π) × List (PolledRow π)
  | [], rows => (rows, [])
  | id :: ids, rows =>
    match rows.find? (·.id = id) with
    | some b =>
      let (rows', out) := claimAll now ids (modifyFirst (·.id = id) (·.claim now) rows)
      (rows', (b.claim now).toPolledRow :: out)
    | none => claimAll now ids rows

/-- `clock`: the reading of `now_secs` inside. -/
def backupOutboxPoll (g : Outbox π) (limit now clock : Nat) : Outbox π × List (PolledRow π) :=
  let ids := ((g.rows.filter (·.due now)).take (min limit 200)).map (·.id)
  let (rows, out) := claimAll clock ids g.rows
  ({ g with rows := rows }, out)

def backupOutboxMark (g : Outbox π) (id : Nat) (state : OutboxState) (attempts nextAt : Nat)
    (lastError : String) (now : Nat) : Outbox π :=
  { g with
    rows := modifyFirst (·.id = id) (·.mark state attempts nextAt (truncate lastError 240) now)
      g.rows }

def backupOutboxRequeue (g : Outbox π) (id now : Nat) : Outbox π × Bool :=
  if g.rows.any fun b => b.id = id && b.state = .dead then
    ({ g with
        rows := modifyFirst (fun b => b.id = id && b.state = .dead) (·.mark .pending 0 now "" now)
          g.rows }, true)
  else (g, false)

def backupOutboxPrune (g : Outbox π) (before : Nat) : Outbox π × Nat :=
  let rows := g.rows.filter fun b => !(b.final && b.updatedAt < before)
  ({ g with rows := rows }, g.rows.length - rows.length)

end MemoryBackend

namespace MysqlBackend

/-- `INSERT IGNORE`: a row whose key is there is left out, and its AUTO_INCREMENT value is used up.
`same`: the collation of the table. -/
def backupOutboxEnqueue (same : String → String → Bool) (g : Outbox π)
    (event instance' node ikey : String) (payload : π) (now : Nat) : Outbox π × Bool :=
  let id := g.next + 1
  if g.rows.any (same ·.ikey ikey) then ({ g with next := id }, true)
  else
    ({ rows := g.rows ++ [.new id event instance' node ikey payload now], next := id }, true)

/-- The `UPDATE` of `backup_outbox_poll`. -/
def backupOutboxClaim (g : Outbox π) (limit now : Nat) : Outbox π :=
  let ids := ((g.rows.filter (·.due now)).take (min limit 200)).map (·.id)
  { g with rows := g.rows.map fun b => if b.id ∈ ids then b.claim now else b }

/-- The `SELECT` of `backup_outbox_poll`. -/
def backupOutboxSelect (g : Outbox π) (limit now : Nat) : List (PolledRow π) :=
  ((g.rows.filter fun b => b.state = .delivering && b.nextAt ≤ now).take (min limit 200)).map
    (·.toPolledRow)

def backupOutboxPoll (g : Outbox π) (limit now : Nat) : Outbox π × List (PolledRow π) :=
  let g := backupOutboxClaim g limit now
  (g, backupOutboxSelect g limit now)

def backupOutboxMark (g : Outbox π) (id : Nat) (state : OutboxState) (attempts nextAt : Nat)
    (lastError : String) (now : Nat) : Outbox π :=
  { g with
    rows := g.rows.map fun b => if b.id = id then b.mark state attempts nextAt lastError now else b }

/-- `updated_at` is left as it was. -/
def backupOutboxRequeue (g : Outbox π) (id now : Nat) : Outbox π × Bool :=
  ({ g with
      rows := g.rows.map fun b =>
        if b.id = id && b.state = .dead then b.mark .pending 0 now "" b.updatedAt else b }, true)

def backupOutboxPrune (g : Outbox π) (before : Nat) : Outbox π × Nat :=
  let rows := g.rows.filter fun b => !(b.final && b.updatedAt < before)
  ({ g with rows := rows }, g.rows.length - rows.length)

end MysqlBackend

/-! ## What the methods do to the rows -/

/-- The rows that `backup_outbox_poll` looks up, in either back end. -/
def Outbox.picked (g : Outbox π) (limit now : Nat) : List (MemBOutbox π) :=
  (g.rows.filter (·.due now)).take (min limit 200)

/-- The ids ascend, and `next` has been reached. -/
structure Outbox.Ordered (g : Outbox π) : Prop where
  ascending : g.rows.Pairwise fun a b => a.id < b.id
  bounded : ∀ b ∈ g.rows, 0 < b.id ∧ b.id ≤ g.next

namespace Outbox

variable {g : Outbox π} {f : MemBOutbox π → MemBOutbox π} {limit now : Nat}

theorem picked_sublist : (g.picked limit now).Sublist g.rows :=
  (List.take_sublist _ _).trans List.filter_sublist

theorem due_of_mem_picked {b : MemBOutbox π} (h : b ∈ g.picked limit now) : b.due now :=
  (List.mem_filter.1 (List.mem_of_mem_take h)).2

namespace Ordered

theorem nodup_ids (ho : g.Ordered) {rows : List (MemBOutbox π)} (h : rows.Sublist g.rows) :
    (rows.map (·.id)).Nodup := by
  rw [List.Nodup, List.pairwise_map]
  exact (ho.ascending.sublist h).imp fun h => Nat.ne_of_lt h

theorem id_inj (ho : g.Ordered) {a b : MemBOutbox π} (ha : a ∈ g.rows) (hb : b ∈ g.rows)
    (h : a.id = b.id) : a = b :=
  List.inj_on_of_nodup_map (ho.nodup_ids (.refl _)) ha hb h

theorem map (ho : g.Ordered) (hf : ∀ b, (f b).id = b.id) :
    Ordered { g with rows := g.rows.map f } where
  ascending := by
    rw [List.pairwise_map]
    exact ho.ascending.imp fun {a b} h => by simpa [hf] using h
  bounded b hb := by
    obtain ⟨a, ha, rfl⟩ := List.mem_map.1 hb
    simpa [hf] using ho.bounded a ha

theorem filter (ho : g.Ordered) (p : MemBOutbox π → Bool) :
    Ordered { g with rows := g.rows.filter p } where
  ascending := ho.ascending.filter p
  bounded b hb := ho.bounded b (List.mem_of_mem_filter hb)

theorem append (ho : g.Ordered) {b : MemBOutbox π} (hb : b.id = g.next + 1) :
    Ordered { rows := g.rows ++ [b], next := g.next + 1 } where
  ascending := by
    rw [List.pairwise_append]
    refine ⟨ho.ascending, List.pairwise_singleton _ _, fun a ha c hc => ?_⟩
    have := (ho.bounded a ha).2
    simp only [List.mem_singleton] at hc
    subst hc
    omega
  bounded c hc := by
    rcases List.mem_append.1 hc with hc | hc
    · have := ho.bounded c hc
      exact ⟨this.1, Nat.le_succ_of_le this.2⟩
    · simp only [List.mem_singleton] at hc
      subst hc
      exact ⟨by omega, Nat.le_of_eq hb⟩

/-- At most one row has an id. -/
theorem modifyFirst_eq (ho : g.Ordered) {p : MemBOutbox π → Bool} {i : Nat}
    (hp : ∀ b, p b → b.id = i) :
    modifyFirst p f g.rows = g.rows.map fun b => if p b then f b else b := by
  refine modifyFirst_eq_map (ho.ascending.imp fun {a b} hlt ha => ?_)
  cases hb : p b with
  | false => rfl
  | true =>
    have := hp a ha
    have := hp b hb
    omega

end Ordered

end Outbox

namespace MemoryBackend

variable {g : Outbox π}

theorem mark_eq (ho : g.Ordered) (id : Nat) (state : OutboxState) (attempts nextAt : Nat)
    (lastError : String) (now : Nat) :
    backupOutboxMark g id state attempts nextAt lastError now =
      MysqlBackend.backupOutboxMark g id state attempts nextAt (truncate lastError 240) now := by
  simp only [backupOutboxMark, MysqlBackend.backupOutboxMark]
  rw [ho.modifyFirst_eq (i := id) (fun b hb => by simpa using hb)]
  simp

theorem requeue_rows (ho : g.Ordered) (id now : Nat) :
    (backupOutboxRequeue g id now).1 =
      { g with
        rows := g.rows.map fun b =>
          if b.id = id && b.state = .dead then b.mark .pending 0 now "" now else b } := by
  unfold backupOutboxRequeue
  split
  · rw [ho.modifyFirst_eq (i := id) (fun b hb => by simp at hb; exact hb.1)]
  · next hany =>
    have hsame : ∀ b ∈ g.rows, (b.id = id && b.state = .dead) = false := by
      simpa using hany
    have hrows : (g.rows.map fun b =>
        if b.id = id && b.state = .dead then b.mark .pending 0 now "" now else b) = g.rows :=
      (List.map_congr_left fun b hb => by simp only [hsame b hb]; rfl).trans (List.map_id' _)
    rw [hrows]

/-- The loop over the ids of some rows claims these. -/
theorem claimAll_eq (now : Nat) (picked : List (MemBOutbox π)) (rows : List (MemBOutbox π))
    (hin : ∀ b ∈ picked, b ∈ rows) (hnd : (picked.map (·.id)).Nodup)
    (hids : (rows.map (·.id)).Nodup) :
    claimAll now (picked.map (·.id)) rows =
      (rows.map fun b => if b.id ∈ picked.map (·.id) then b.claim now else b,
        picked.map fun b => (b.claim now).toPolledRow) := by
  induction picked generalizing rows with
  | nil => simp [claimAll]
  | cons p picked ih =>
    obtain ⟨hp, hrest⟩ := List.forall_mem_cons.1 hin
    obtain ⟨hnp, hnd⟩ := List.nodup_cons.1 hnd
    have hinj := List.inj_on_of_nodup_map hids
    have hfind : rows.find? (·.id = p.id) = some p := by
      cases hf : rows.find? (·.id = p.id) with
      | none => simpa using List.find?_eq_none.1 hf p hp
      | some q =>
        have hq : q.id = p.id := by simpa using List.find?_some hf
        rw [hinj (List.mem_of_find?_eq_some hf) hp hq]
    have hfirst : modifyFirst (·.id = p.id) (·.claim now) rows =
        rows.map fun b => if b.id = p.id then b.claim now else b := by
      rw [modifyFirst_eq_map]
      · simp
      · rw [List.Nodup, List.pairwise_map] at hids
        exact hids.imp fun {a b} hne ha => by
          simp only [decide_eq_true_eq] at ha
          simp only [decide_eq_false_iff_not, ← ha]
          exact fun h => hne h.symm
    -- the rest of the rows are found as they were: the first one has another id
    have hin' : ∀ b ∈ picked, b ∈ rows.map fun b => if b.id = p.id then b.claim now else b := by
      intro b hb
      have hne : b.id ≠ p.id := fun h => hnp (List.mem_map.2 ⟨b, hb, h⟩)
      exact List.mem_map.2 ⟨b, hrest b hb, if_neg hne⟩
    have hids' : ((rows.map fun b => if b.id = p.id then b.claim now else b).map (·.id)).Nodup := by
      rw [List.map_map]
      convert hids using 2
      funext b
      simp only [Function.comp_apply]
      split <;> rfl
    simp only [List.map_cons, claimAll, hfind, hfirst, ih _ hin' hnd hids', List.map_map]
    congr 1
    refine List.map_congr_left fun b _ => ?_
    by_cases hb : b.id = p.id
    · simp only [Function.comp_apply, hb, if_true, MemBOutbox.claim_id, if_neg hnp,
        List.mem_cons_self]
    · simp [hb]

/-- `backup_outbox_poll` claims the rows it picks and returns them so. -/
theorem poll_eq (ho : g.Ordered) (limit now clock : Nat) :
    backupOutboxPoll g limit now clock =
      ({ g with
          rows := g.rows.map fun b =>
            if b.id ∈ (g.picked limit now).map (·.id) then b.claim clock else b },
        (g.picked limit now).map fun b => (b.claim clock).toPolledRow) := by
  unfold backupOutboxPoll
  have h := claimAll_eq clock (g.picked limit now) g.rows
    (fun b hb => Outbox.picked_sublist.subset hb) (ho.nodup_ids Outbox.picked_sublist)
    (ho.nodup_ids (.refl _))
  simp only [Outbox.picked] at h ⊢
  rw [h]

end MemoryBackend

end Rdsctl.Store
