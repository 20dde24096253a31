import Mathlib.Algebra.Ring.Nat
import Rdsctl.Lib.Run
import Rdsctl.Store.Outbox

/-!
# Workers that share the backup outbox

`src/backuplink.rs`: `process_one` and the loop of `start`, one worker for every replica, all on one
store. A worker polls, then delivers and marks the rows it was handed, one after another.
`BackupLink.step` interleaves them with `enqueue`, `requeue`, `prune` and crashes. Polling moves no
`next_at`, so a row in progress is handed out again as long as it is due; `accounted_iff` says for which
runs no event is lost, counted wrongly or resurrected.
-/

namespace Rdsctl.Store

/-- The back end behind `StoreBackend`; `same` is the collation of the tables. -/
inductive Backend where
  | memory
  | mysql (same : String → String → Bool)

variable {π : Type}

namespace Backend

def backupOutboxEnqueue : Backend → Outbox π → String → String → String → String → π → Nat →
    Outbox π × Bool
  | .memory => MemoryBackend.backupOutboxEnqueue
  | .mysql same => MysqlBackend.backupOutboxEnqueue same

def backupOutboxMark :
    Backend → Outbox π → Nat → OutboxState → Nat → Nat → String → Nat → Outbox π
  | .memory => MemoryBackend.backupOutboxMark
  | .mysql _ => MysqlBackend.backupOutboxMark

def backupOutboxRequeue : Backend → Outbox π → Nat → Nat → Outbox π × Bool
  | .memory => MemoryBackend.backupOutboxRequeue
  | .mysql _ => MysqlBackend.backupOutboxRequeue

def backupOutboxPrune : Backend → Outbox π → Nat → Outbox π × Nat
  | .memory => MemoryBackend.backupOutboxPrune
  | .mysql _ => MysqlBackend.backupOutboxPrune

/-- The mark of either back end, on a table in order. -/
theorem mark_both {g : Outbox π} (ho : g.Ordered) (b : Backend) (id : Nat) (state : OutboxState)
    (attempts nextAt : Nat) (err : String) (clock : Nat) :
    ∃ err', b.backupOutboxMark g id state attempts nextAt err clock =
      MysqlBackend.backupOutboxMark g id state attempts nextAt err' clock := by
  cases b with
  | memory => exact ⟨_, MemoryBackend.mark_eq ho id state attempts nextAt err clock⟩
  | mysql => exact ⟨_, rfl⟩

/-- The two back ends differ in the time that `requeue` writes. -/
theorem requeue_both {g : Outbox π} (ho : g.Ordered) (b : Backend) (id now : Nat) :
    ∃ clock : MemBOutbox π → Nat, (b.backupOutboxRequeue g id now).1 =
      { g with
        rows := g.rows.map fun r =>
          if r.id = id && r.state = .dead then r.mark .pending 0 now "" (clock r) else r } := by
  cases b with
  | memory => exact ⟨fun _ => now, MemoryBackend.requeue_rows ho id now⟩
  | mysql => exact ⟨fun r => r.updatedAt, rfl⟩

theorem prune_both (g : Outbox π) (b : Backend) (before : Nat) :
    (b.backupOutboxPrune g before).1 =
      { g with rows := g.rows.filter fun r => !(r.final && r.updatedAt < before) } := by
  cases b <;> rfl

end Backend

/-- How `deliver` ends. -/
inductive Delivery where
  | ok
  | retry
  | permanent
  deriving DecidableEq

def maxAttempts : Nat := 10

def backoffSecs (attempts : Nat) : Nat := min (60 * 2 ^ min attempts 5) 600

/-- State, time of the next attempt and error that `process_one` marks a row with, where this was
the delivery number `attempts`. -/
def outcome (d : Delivery) (attempts now : Nat) : OutboxState × Nat × String :=
  match d with
  | .ok => (.done, 0, "")
  | .permanent => (.dead, 0, "HTTP 4xx/脚本码 2:永久失败")
  | .retry =>
    if maxAttempts ≤ attempts then (.dead, 0, "连续 10 次失败,转为 dead")
    else (.pending, now + backoffSecs attempts, "可重试失败")

/-- A row that is to be tried again has been tried fewer than ten times. -/
theorem lt_of_outcome_pending {d : Delivery} {attempts now : Nat}
    (h : (outcome d attempts now).1 = .pending) : attempts < maxAttempts := by
  cases d with
  | ok => cases h
  | permanent => cases h
  | retry =>
    simp only [outcome] at h
    split at h
    · cases h
    · omega

theorem outcome_ne_delivering (d : Delivery) (attempts now : Nat) :
    (outcome d attempts now).1 ≠ .delivering := by
  cases d with
  | ok => simp [outcome]
  | permanent => simp [outcome]
  | retry => simp only [outcome]; split <;> simp

/-! ## The workers -/

structure Worker (π : Type) where
  /-- Limit and clock of a poll whose `SELECT` is still to come. -/
  polling : Option (Nat × Nat)
  /-- The rows it was handed and has not marked, the one in hand first. -/
  claimed : List (PolledRow π)
  /-- How the delivery of the row in hand has ended. -/
  ended : Option Delivery
  deriving DecidableEq

/-- A worker between two rounds, and one that has just been started. -/
def Worker.idle : Worker π := ⟨none, [], none⟩

/-- The store and the workers of the replicas. -/
structure BackupLink (π : Type) where
  box : Outbox π
  workers : Nat → Worker π

inductive OutboxEvent (π : Type) where
  | enqueue (event instance' node ikey : String) (payload : π) (now : Nat)
  /-- `backup_outbox_poll`; on MySQL only its `UPDATE`. `clock` is read inside. -/
  | poll (w limit now clock : Nat)
  /-- The `SELECT` of `backup_outbox_poll` on MySQL. -/
  | select (w : Nat)
  /-- `deliver` of the row in hand returns. -/
  | deliver (w : Nat) (d : Delivery)
  /-- `process_one` marks the row in hand. -/
  | mark (w now clock : Nat)
  | requeue (id now : Nat)
  | prune (before : Nat)
  | crash (w : Nat)
  deriving DecidableEq

namespace BackupLink

def init : BackupLink π := ⟨⟨[], 0⟩, fun _ => .idle⟩

def setWorker (s : BackupLink π) (w : Nat) (x : Worker π) : BackupLink π :=
  { s with workers := fun w' => if w' = w then x else s.workers w' }

@[simp] theorem setWorker_box (s : BackupLink π) (w : Nat) (x : Worker π) :
    (s.setWorker w x).box = s.box := rfl

@[simp] theorem setWorker_self (s : BackupLink π) (w : Nat) (x : Worker π) :
    (s.setWorker w x).workers w = x := if_pos rfl

theorem setWorker_other (s : BackupLink π) {w w' : Nat} (x : Worker π) (h : w' ≠ w) :
    (s.setWorker w x).workers w' = s.workers w' := if_neg h

def step (b : Backend) (s : BackupLink π) : OutboxEvent π → Option (BackupLink π)
  | .enqueue event instance' node ikey payload now =>
    some { s with box := (b.backupOutboxEnqueue s.box event instance' node ikey payload now).1 }
  | .poll w limit now clock =>
    match s.workers w, b with
    | ⟨none, [], none⟩, .memory =>
      let (box, rows) := MemoryBackend.backupOutboxPoll s.box limit now clock
      some ({ s with box := box }.setWorker w ⟨none, rows, none⟩)
    | ⟨none, [], none⟩, .mysql _ =>
      some ({ s with box := MysqlBackend.backupOutboxClaim s.box limit now }.setWorker w
        ⟨some (limit, now), [], none⟩)
    | _, _ => none
  | .select w =>
    match s.workers w with
    | ⟨some (limit, now), [], none⟩ =>
      some (s.setWorker w ⟨none, MysqlBackend.backupOutboxSelect s.box limit now, none⟩)
    | _ => none
  | .deliver w d =>
    match s.workers w with
    | ⟨p, c :: cs, none⟩ =>
      if c.id = 0 then some (s.setWorker w ⟨p, cs, none⟩)
      else some (s.setWorker w ⟨p, c :: cs, some d⟩)
    | _ => none
  | .mark w now clock =>
    match s.workers w with
    | ⟨p, c :: cs, some d⟩ =>
      let attempts := c.attempts + 1
      let (state, nextAt, err) := outcome d attempts now
      some ({ s with
        box := b.backupOutboxMark s.box c.id state attempts nextAt err clock }.setWorker w
          ⟨p, cs, none⟩)
    | _ => none
  | .requeue id now => some { s with box := (b.backupOutboxRequeue s.box id now).1 }
  | .prune before => some { s with box := (b.backupOutboxPrune s.box before).1 }
  | .crash w => some (s.setWorker w .idle)

/-! ## What is promised, and when -/

/-- The finished deliveries of an event after a step: `requeue` of a dead one starts anew. -/
def tally (s : BackupLink π) (n : Nat → Nat) : OutboxEvent π → Nat → Nat
  | .deliver w _, id => if ((s.workers w).claimed.head?.map (·.id)) = some id then n id + 1 else n id
  | .requeue i _, id =>
    if id = i ∧ s.box.rows.any (fun b => b.id = i && b.state = .dead) then 0 else n id
  | _, id => n id

/-- The finished deliveries of an event since it was enqueued or requeued last. -/
def finished : History (BackupLink π) (OutboxEvent π) → Nat → Nat
  | [], _ => 0
  | (s, e) :: h, id => s.tally (finished h) e id

/-- The delivery of this event has ended at the worker, which is about to mark it. -/
def Ended (s : BackupLink π) (w id : Nat) : Prop :=
  (s.workers w).ended ≠ none ∧ (s.workers w).claimed.head?.map (·.id) = some id

/-- What holds of a state and the step before it when no event is lost, counted wrongly or
resurrected. -/
structure Accounted (h : History (BackupLink π) (OutboxEvent π)) (s : BackupLink π) : Prop where
  /-- Only `requeue` takes an event out of `done` or `dead`. -/
  kept : ∀ t e h', h = (t, e) :: h' → ∀ b ∈ t.box.rows, b.final →
    (∀ b' ∈ s.box.rows, b'.id = b.id → b'.state = b.state) ∨ ∃ now, e = .requeue b.id now
  /-- Only `prune` deletes, and only what is done or dead. -/
  lost : ∀ t e h', h = (t, e) :: h' → ∀ b ∈ t.box.rows, (∀ b' ∈ s.box.rows, b'.id ≠ b.id) →
    b.final ∧ ∃ before, e = .prune before
  counted : ∀ b ∈ s.box.rows, (∀ w, ¬s.Ended w b.id) → b.attempts = finished h b.id
  counting : ∀ b ∈ s.box.rows, ∀ w, s.Ended w b.id → b.attempts + 1 = finished h b.id
  few : ∀ b ∈ s.box.rows, b.attempts ≤ maxAttempts
  /-- No event is in the hands of two workers. -/
  apart : ∀ w w', w ≠ w' → ∀ c ∈ (s.workers w).claimed, ∀ c' ∈ (s.workers w').claimed, c.id ≠ c'.id

/-- The events in progress at other workers are not due, or a full batch of due ones comes first. -/
def OutOfReach (s : BackupLink π) (w limit : Nat) (due : MemBOutbox π → Bool) : Prop :=
  ∀ w', w' ≠ w → ∀ c ∈ (s.workers w').claimed, ∀ i b,
    (s.box.rows.filter due)[i]? = some b → b.id = c.id → min limit 200 ≤ i

/-- No poll reaches an event in progress elsewhere, and no worker dies between the end of a delivery
and its mark. -/
def Exclusive (b : Backend) (s : BackupLink π) : OutboxEvent π → Prop
  | .poll w limit now _ => b = .memory → s.OutOfReach w limit (·.due now)
  | .select w => ∀ limit now, (s.workers w).polling = some (limit, now) →
    s.OutOfReach w limit fun b => b.state = .delivering && b.nextAt ≤ now
  | .crash w => ∀ id, ¬s.Ended w id
  | _ => True

/-! ## The invariant of such runs -/

/-- `n` counts the finished deliveries. What a worker has in hand is in the table as it was handed
out. -/
structure Ok (n : Nat → Nat) (s : BackupLink π) : Prop where
  ordered : s.box.Ordered
  held : ∀ w, ∀ c ∈ (s.workers w).claimed,
    ∃ b ∈ s.box.rows, b.id = c.id ∧ b.state = .delivering ∧ b.attempts = c.attempts
  once : ∀ w, ((s.workers w).claimed.map (·.id)).Nodup
  apart : ∀ w w', w ≠ w' → ∀ c ∈ (s.workers w).claimed, ∀ c' ∈ (s.workers w').claimed, c.id ≠ c'.id
  few : ∀ b ∈ s.box.rows, b.attempts ≤ maxAttempts ∧ (b.final = false → b.attempts < maxAttempts)
  counted : ∀ b ∈ s.box.rows, (∀ w, ¬s.Ended w b.id) → b.attempts = n b.id
  counting : ∀ b ∈ s.box.rows, ∀ w, s.Ended w b.id → b.attempts + 1 = n b.id
  fresh : ∀ id, s.box.next < id → n id = 0

variable {n : Nat → Nat} {s : BackupLink π} {w : Nat}

theorem Ended.claimed {id : Nat} (h : s.Ended w id) : ∃ c ∈ (s.workers w).claimed, c.id = id := by
  obtain ⟨-, hid⟩ := h
  obtain ⟨c, hc, hid⟩ := Option.map_eq_some_iff.1 hid
  exact ⟨c, List.mem_of_head? hc, hid⟩

theorem not_ended (h : (s.workers w).ended = none) (id : Nat) : ¬s.Ended w id := fun hend =>
  hend.1 h

theorem ended_setWorker {x : Worker π} {w' id : Nat} (hold : ∀ id, ¬s.Ended w id)
    (hnew : x.ended = none) : (s.setWorker w x).Ended w' id ↔ s.Ended w' id := by
  by_cases hw : w' = w
  · subst hw
    exact iff_of_false (not_ended (by rw [setWorker_self]; exact hnew) id) (hold id)
  · simp only [Ended, setWorker_other s x hw]

namespace Ok

theorem init : Ok (fun _ => 0) (init (π := π)) where
  ordered := ⟨.nil, fun _ hb => (nomatch hb)⟩
  held _ _ hc := (nomatch hc)
  once _ := List.nodup_nil
  apart _ _ _ _ hc := (nomatch hc)
  few _ hb := (nomatch hb)
  counted _ hb := (nomatch hb)
  counting _ hb := (nomatch hb)
  fresh _ _ := rfl

/-- A row in hand is not done or dead in the table. -/
theorem not_final (hok : Ok n s) {c : PolledRow π} (hc : c ∈ (s.workers w).claimed) {b : MemBOutbox π}
    (hb : b ∈ s.box.rows) (hid : b.id = c.id) : b.state = .delivering ∧ b.attempts = c.attempts := by
  obtain ⟨b', hb', hid', hs, ha⟩ := hok.held w c hc
  rw [hok.ordered.id_inj hb hb' (hid.trans hid'.symm)]
  exact ⟨hs, ha⟩

/-- The table changes: rows that are delivering stay so, and each row comes from one with the same
attempts or is new. -/
theorem box (hok : Ok n s) {box : Outbox π} (hord : box.Ordered) (hnext : s.box.next ≤ box.next)
    (hfrom : ∀ b' ∈ box.rows,
      (∃ b ∈ s.box.rows, b'.id = b.id ∧ b'.attempts = b.attempts ∧ (b'.final = false → b.final = false)) ∨
        s.box.next < b'.id ∧ b'.attempts = 0)
    (hto : ∀ b ∈ s.box.rows, b.state = .delivering →
      ∃ b' ∈ box.rows, b'.id = b.id ∧ b'.state = .delivering ∧ b'.attempts = b.attempts) :
    Ok n { s with box := box } := by
  have hnew : ∀ {w' id}, s.box.next < id → ¬s.Ended w' id := by
    intro w' id hlt hend
    obtain ⟨c, hc, rfl⟩ := hend.claimed
    obtain ⟨b, hb, hid, -⟩ := hok.held w' c hc
    have := (hok.ordered.bounded b hb).2
    omega
  refine ⟨hord, fun w c hc => ?_, hok.once, hok.apart, fun b' hb' => ?_, fun b' hb' hend => ?_,
    fun b' hb' w hend => ?_, fun id hid => hok.fresh id (Nat.lt_of_le_of_lt hnext hid)⟩
  · obtain ⟨b, hb, hid, hs, ha⟩ := hok.held w c hc
    obtain ⟨b', hb', hid', hs', ha'⟩ := hto b hb hs
    exact ⟨b', hb', hid'.trans hid, hs', ha'.trans ha⟩
  · rcases hfrom b' hb' with ⟨b, hb, -, ha, hf⟩ | ⟨-, ha⟩
    · rw [ha]
      exact ⟨(hok.few b hb).1, fun h => (hok.few b hb).2 (hf h)⟩
    · simp [ha, maxAttempts]
  · rcases hfrom b' hb' with ⟨b, hb, hid, ha, -⟩ | ⟨hlt, ha⟩
    · rw [ha, hid]
      exact hok.counted b hb fun w h => hend w (by rw [hid]; exact h)
    · rw [ha, hok.fresh _ hlt]
  · rcases hfrom b' hb' with ⟨b, hb, hid, ha, -⟩ | ⟨hlt, -⟩
    · rw [ha, hid]
      exact hok.counting b hb w (by rw [← hid]; exact hend)
    · exact absurd hend (hnew hlt)

/-- A worker gets other rows in hand, with no delivery at its end. -/
theorem worker (hok : Ok n s) {x : Worker π} (hold : ∀ id, ¬s.Ended w id) (hnew : x.ended = none)
    (hheld : ∀ c ∈ x.claimed,
      ∃ b ∈ s.box.rows, b.id = c.id ∧ b.state = .delivering ∧ b.attempts = c.attempts)
    (honce : (x.claimed.map (·.id)).Nodup)
    (hapart : ∀ w', w' ≠ w → ∀ c ∈ x.claimed, ∀ c' ∈ (s.workers w').claimed, c.id ≠ c'.id) :
    Ok n (s.setWorker w x) := by
  refine ⟨hok.ordered, fun w' c hc => ?_, fun w' => ?_, fun w₁ w₂ hne c hc c' hc' => ?_, hok.few,
    fun b hb hend => hok.counted b hb fun w' h => hend w' ((ended_setWorker hold hnew).2 h),
    fun b hb w' hend => hok.counting b hb w' ((ended_setWorker hold hnew).1 hend), hok.fresh⟩
  · by_cases hw : w' = w
    · subst hw
      rw [setWorker_self] at hc
      exact hheld c hc
    · rw [setWorker_other s x hw] at hc
      exact hok.held w' c hc
  · by_cases hw : w' = w
    · subst hw
      rw [setWorker_self]
      exact honce
    · rw [setWorker_other s x hw]
      exact hok.once w'
  · by_cases h₁ : w₁ = w
    · subst h₁
      rw [setWorker_self] at hc
      rw [setWorker_other s x hne.symm] at hc'
      exact hapart w₂ hne.symm c hc c' hc'
    · rw [setWorker_other s x h₁] at hc
      by_cases h₂ : w₂ = w
      · subst h₂
        rw [setWorker_self] at hc'
        exact (hapart w₁ h₁ c' hc' c hc).symm
      · rw [setWorker_other s x h₂] at hc'
        exact hok.apart w₁ w₂ hne c hc c' hc'

end Ok

/-! ### One lemma for each kind of step -/

namespace Ok

theorem enqueue (hok : Ok n s) (b : Backend) (event instance' node ikey : String) (payload : π)
    (now : Nat) :
    Ok n { s with box := (b.backupOutboxEnqueue s.box event instance' node ikey payload now).1 } := by
  -- a row is appended, or nothing but the last id changes
  have happ : ∀ r : MemBOutbox π, r.id = s.box.next + 1 → r.attempts = 0 →
      Ok n { s with box := { rows := s.box.rows ++ [r], next := s.box.next + 1 } } := by
    intro r hid ha
    refine hok.box (hok.ordered.append hid) (Nat.le_succ _) (fun b' hb' => ?_)
      fun b hb hs => ⟨b, List.mem_append_left _ hb, rfl, hs, rfl⟩
    rcases List.mem_append.1 hb' with hb' | hb'
    · exact .inl ⟨b', hb', rfl, rfl, fun h => h⟩
    · simp only [List.mem_singleton] at hb'
      subst hb'
      exact .inr ⟨by omega, ha⟩
  have hbump : Ok n { s with box := { s.box with next := s.box.next + 1 } } := by
    refine hok.box ⟨hok.ordered.ascending, fun b hb => ?_⟩ (Nat.le_succ _)
      (fun b hb => .inl ⟨b, hb, rfl, rfl, fun h => h⟩) fun b hb hs => ⟨b, hb, rfl, hs, rfl⟩
    have := hok.ordered.bounded b hb
    exact ⟨this.1, Nat.le_succ_of_le this.2⟩
  cases b with
  | memory =>
    simp only [Backend.backupOutboxEnqueue, MemoryBackend.backupOutboxEnqueue]
    split
    · exact hok
    · exact happ _ rfl rfl
  | mysql =>
    simp only [Backend.backupOutboxEnqueue, MysqlBackend.backupOutboxEnqueue]
    split
    · exact hbump
    · exact happ _ rfl rfl

/-- Rows on which delivery is not over are claimed. -/
theorem claim (hok : Ok n s) {ids : List Nat} (clock : Nat)
    (hids : ∀ r ∈ s.box.rows, r.id ∈ ids → r.final = false) :
    Ok n { s with
      box := { s.box with
        rows := s.box.rows.map fun r => if r.id ∈ ids then r.claim clock else r } } := by
  refine hok.box (hok.ordered.map fun r => ?_) (Nat.le_refl _) (fun r' hr' => .inl ?_)
    fun r hr hs => ⟨_, List.mem_map_of_mem hr, ?_⟩
  · split <;> rfl
  · obtain ⟨r, hr, rfl⟩ := List.mem_map.1 hr'
    refine ⟨r, hr, ?_⟩
    split
    · next hid => exact ⟨rfl, rfl, fun _ => hids r hr hid⟩
    · exact ⟨rfl, rfl, fun h => h⟩
  · split
    · exact ⟨rfl, rfl, rfl⟩
    · exact ⟨rfl, hs, rfl⟩

/-- A worker with nothing in hand gets rows that are delivering and in nobody's hands. -/
theorem handOut (hok : Ok n s) {rows : List (PolledRow π)} (hold : (s.workers w).ended = none)
    (hrows : ∀ c ∈ rows, ∃ r ∈ s.box.rows, r.toPolledRow = c ∧ r.state = .delivering)
    (honce : (rows.map (·.id)).Nodup)
    (hapart : ∀ w', w' ≠ w → ∀ c ∈ rows, ∀ c' ∈ (s.workers w').claimed, c.id ≠ c'.id) :
    Ok n (s.setWorker w ⟨none, rows, none⟩) := by
  refine hok.worker (not_ended hold) rfl (fun c hc => ?_) honce hapart
  obtain ⟨r, hr, rfl, hs⟩ := hrows c hc
  exact ⟨r, hr, rfl, hs, rfl⟩

end Ok

/-- A batch from the due rows has nothing that another worker has in hand. -/
theorem OutOfReach.apart {limit : Nat} {due : MemBOutbox π → Bool} (h : s.OutOfReach w limit due)
    {r : MemBOutbox π} (hr : r ∈ (s.box.rows.filter due).take (min limit 200)) {w' : Nat} (hw : w' ≠ w)
    {c : PolledRow π} (hc : c ∈ (s.workers w').claimed) : r.id ≠ c.id := by
  intro hid
  obtain ⟨i, hi, rfl⟩ := List.mem_take_iff_getElem.1 hr
  have := h w' hw c hc i _ (List.getElem?_eq_getElem (by omega)) hid
  omega

namespace Ok

theorem not_final_of_picked (hok : Ok n s) {limit now : Nat} :
    ∀ r ∈ s.box.rows, r.id ∈ (s.box.picked limit now).map (·.id) → r.final = false := by
  intro r hr hid
  obtain ⟨p, hp, hid⟩ := List.mem_map.1 hid
  rw [← hok.ordered.id_inj (Outbox.picked_sublist.subset hp) hr hid]
  exact MemBOutbox.not_final_of_due (Outbox.due_of_mem_picked hp)

/-- The whole poll of the memory back end. -/
theorem pollMemory (hok : Ok n s) {limit now clock : Nat} (hidle : s.workers w = .idle)
    (hfree : s.OutOfReach w limit (·.due now)) :
    Ok n ({ s with box := (MemoryBackend.backupOutboxPoll s.box limit now clock).1 }.setWorker w
      ⟨none, (MemoryBackend.backupOutboxPoll s.box limit now clock).2, none⟩) := by
  rw [MemoryBackend.poll_eq hok.ordered]
  refine (hok.claim clock hok.not_final_of_picked).handOut (by rw [hidle]; rfl) ?_ ?_ ?_
  · intro c hc
    obtain ⟨p, hp, rfl⟩ := List.mem_map.1 hc
    refine ⟨p.claim clock, List.mem_map.2 ⟨p, Outbox.picked_sublist.subset hp, ?_⟩, rfl, rfl⟩
    exact if_pos (List.mem_map_of_mem hp)
  · rw [List.map_map]
    exact hok.ordered.nodup_ids Outbox.picked_sublist
  · intro w' hw c hc c' hc'
    obtain ⟨p, hp, rfl⟩ := List.mem_map.1 hc
    exact hfree.apart hp hw hc'

/-- The `UPDATE` of the poll of the MySQL back end. -/
theorem pollMysql (hok : Ok n s) {limit now : Nat} (hidle : s.workers w = .idle) :
    Ok n ({ s with box := MysqlBackend.backupOutboxClaim s.box limit now }.setWorker w
      ⟨some (limit, now), [], none⟩) := by
  have hclaim : Ok n { s with box := MysqlBackend.backupOutboxClaim s.box limit now } :=
    hok.claim now hok.not_final_of_picked
  refine hclaim.worker (not_ended (by rw [hidle]; rfl)) rfl ?_ List.nodup_nil ?_
  · exact fun c hc => (nomatch hc)
  · exact fun _ _ c hc => (nomatch hc)

theorem select (hok : Ok n s) {limit now : Nat} (hold : (s.workers w).ended = none)
    (hfree : s.OutOfReach w limit fun b => b.state = .delivering && b.nextAt ≤ now) :
    Ok n (s.setWorker w ⟨none, MysqlBackend.backupOutboxSelect s.box limit now, none⟩) := by
  unfold MysqlBackend.backupOutboxSelect
  refine hok.handOut hold ?_ ?_ ?_
  · intro c hc
    obtain ⟨r, hr, rfl⟩ := List.mem_map.1 hc
    obtain ⟨hr, hdue⟩ := List.mem_filter.1 (List.mem_of_mem_take hr)
    simp only [Bool.and_eq_true, decide_eq_true_eq] at hdue
    exact ⟨r, hr, rfl, hdue.1⟩
  · rw [List.map_map]
    exact hok.ordered.nodup_ids ((List.take_sublist _ _).trans List.filter_sublist)
  · intro w' hw c hc c' hc'
    obtain ⟨r, hr, rfl⟩ := List.mem_map.1 hc
    exact hfree.apart hr hw hc'

theorem crash (hok : Ok n s) (hold : ∀ id, ¬s.Ended w id) : Ok n (s.setWorker w .idle) :=
  hok.worker hold rfl (fun _ hc => (nomatch hc)) List.nodup_nil fun _ _ _ hc => (nomatch hc)

theorem prune (hok : Ok n s) (b : Backend) (before : Nat) :
    Ok n { s with box := (b.backupOutboxPrune s.box before).1 } := by
  rw [Backend.prune_both]
  refine hok.box (hok.ordered.filter _) (Nat.le_refl _) (fun r hr => .inl ?_) fun r hr hs => ?_
  · exact ⟨r, List.mem_of_mem_filter hr, rfl, rfl, fun h => h⟩
  · exact ⟨r, List.mem_filter.2 ⟨hr, by simp [MemBOutbox.final, hs]⟩, rfl, hs, rfl⟩

/-- The delivery of the row in hand has ended: it counts, and is not in the table yet. -/
theorem deliver (hok : Ok n s) {p : Option (Nat × Nat)} {c : PolledRow π} {cs : List (PolledRow π)}
    {d : Delivery} (hw : s.workers w = ⟨p, c :: cs, none⟩) :
    Ok (s.tally n (.deliver w d)) (s.setWorker w ⟨p, c :: cs, some d⟩) := by
  have hn : ∀ id, s.tally n (.deliver w d) id = if c.id = id then n id + 1 else n id := by
    intro id
    simp [tally, hw]
  have hclaimed : ∀ w', ((s.setWorker w ⟨p, c :: cs, some d⟩).workers w').claimed =
      (s.workers w').claimed := by
    intro w'
    by_cases h : w' = w
    · subst h
      rw [setWorker_self, hw]
    · rw [setWorker_other s _ h]
  have hc : c ∈ (s.workers w).claimed := by rw [hw]; exact List.mem_cons_self
  have hnot : ¬s.Ended w c.id := fun h => h.1 (by rw [hw])
  -- at the others nothing has changed, and they do not have this row
  have hother : ∀ w' id, w' ≠ w → (s.setWorker w ⟨p, c :: cs, some d⟩).Ended w' id →
      s.Ended w' id ∧ c.id ≠ id := by
    intro w' id hne hend
    simp only [Ended, setWorker_other s _ hne] at hend
    have hend : s.Ended w' id := hend
    obtain ⟨c', hc', hid⟩ := hend.claimed
    exact ⟨hend, fun h => hok.apart w w' hne.symm c hc c' hc' (h.trans hid.symm)⟩
  refine ⟨hok.ordered, fun w' => hclaimed w' ▸ hok.held w', fun w' => hclaimed w' ▸ hok.once w',
    fun w₁ w₂ => hclaimed w₁ ▸ hclaimed w₂ ▸ hok.apart w₁ w₂, hok.few, fun b hb hend => ?_,
    fun b hb w' hend => ?_, fun id hid => ?_⟩
  · have hne : c.id ≠ b.id := fun h => hend w ⟨by simp, by simp [h]⟩
    rw [hn, if_neg hne]
    refine hok.counted b hb fun w' h => ?_
    by_cases hw' : w' = w
    · subst hw'
      exact h.1 (by rw [hw])
    · exact hend w' (by simpa only [Ended, setWorker_other s _ hw'] using h)
  · by_cases hw' : w' = w
    · subst hw'
      have hid : c.id = b.id := by simpa [Ended] using hend
      rw [hn, if_pos hid]
      refine congrArg (· + 1) (hok.counted b hb fun w₂ h => ?_)
      by_cases hw₂ : w₂ = w'
      · subst hw₂
        exact h.1 (by rw [hw])
      · obtain ⟨c', hc', hid'⟩ := h.claimed
        exact hok.apart w' w₂ (Ne.symm hw₂) c hc c' hc' (hid.trans hid'.symm)
    · obtain ⟨h, hne⟩ := hother w' b.id hw' hend
      rw [hn, if_neg hne]
      exact hok.counting b hb w' h
  · obtain ⟨b, hb, hbid, -⟩ := hok.held w c hc
    have hle := (hok.ordered.bounded b hb).2
    have hlt : s.box.next < id := hid
    rw [hn, if_neg (by omega)]
    exact hok.fresh id hid

/-- The row in hand is marked. -/
theorem mark (hok : Ok n s) {p : Option (Nat × Nat)} {c : PolledRow π} {cs : List (PolledRow π)}
    {d : Delivery} (hw : s.workers w = ⟨p, c :: cs, some d⟩) (now clock : Nat) (err : String) :
    Ok n ({ s with
      box := MysqlBackend.backupOutboxMark s.box c.id (outcome d (c.attempts + 1) now).1
        (c.attempts + 1) (outcome d (c.attempts + 1) now).2.1 err clock }.setWorker w
      ⟨p, cs, none⟩) := by
  have hc : c ∈ (s.workers w).claimed := by rw [hw]; exact List.mem_cons_self
  have hended : s.Ended w c.id := ⟨by simp [hw], by simp [hw]⟩
  have hcs : ∀ w', ∀ c' ∈ ((s.setWorker w ⟨p, cs, none⟩).workers w').claimed,
      c' ∈ (s.workers w').claimed ∧ c'.id ≠ c.id := by
    intro w' c' hc'
    by_cases h : w' = w
    · subst h
      rw [setWorker_self] at hc'
      have honce := hok.once w'
      rw [hw, List.map_cons, List.nodup_cons] at honce
      refine ⟨by rw [hw]; exact List.mem_cons_of_mem _ hc', fun hid => honce.1 ?_⟩
      exact hid ▸ List.mem_map_of_mem hc'
    · rw [setWorker_other s _ h] at hc'
      exact ⟨hc', (hok.apart w w' (Ne.symm h) c hc c' hc').symm⟩
  have hend : ∀ w' id, id ≠ c.id →
      ((s.setWorker w ⟨p, cs, none⟩).Ended w' id ↔ s.Ended w' id) := by
    intro w' id hid
    by_cases h : w' = w
    · subst h
      simp [Ended, hw, Ne.symm hid]
    · simp only [Ended, setWorker_other s _ h]
  have hnone : ∀ w', ¬(s.setWorker w ⟨p, cs, none⟩).Ended w' c.id := by
    intro w' h
    obtain ⟨c', hc', hid⟩ := h.claimed
    exact (hcs w' c' hc').2 hid
  have hfew : c.attempts < maxAttempts := by
    obtain ⟨b, hb, -, hs, ha⟩ := hok.held w c hc
    rw [← ha]
    exact (hok.few b hb).2 (by simp [MemBOutbox.final, hs])
  refine ⟨hok.ordered.map fun r => ?_, fun w' c' hc' => ?_, fun w' => ?_, fun w₁ w₂ hne c₁ h₁ c₂ h₂ =>
    hok.apart w₁ w₂ hne c₁ (hcs w₁ c₁ h₁).1 c₂ (hcs w₂ c₂ h₂).1, fun r' hr' => ?_,
    fun r' hr' hno => ?_, fun r' hr' w' hyes => ?_, hok.fresh⟩
  · split <;> rfl
  · obtain ⟨hold, hne⟩ := hcs w' c' hc'
    obtain ⟨b, hb, hid, hrest⟩ := hok.held w' c' hold
    exact ⟨b, List.mem_map.2 ⟨b, hb, if_neg (by rw [hid]; exact hne)⟩, hid, hrest⟩
  · by_cases h : w' = w
    · subst h
      have honce := hok.once w'
      rw [hw] at honce
      rw [setWorker_self]
      exact (List.nodup_cons.1 honce).2
    · rw [setWorker_other _ _ h]
      exact hok.once w'
  · obtain ⟨r, hr, rfl⟩ := List.mem_map.1 hr'
    split
    · refine ⟨Nat.succ_le_of_lt hfew, fun hf => ?_⟩
      have hpend : (outcome d (c.attempts + 1) now).1 = .pending := by
        have := outcome_ne_delivering d (c.attempts + 1) now
        cases hs : (outcome d (c.attempts + 1) now).1 <;> simp_all [MemBOutbox.final]
      exact lt_of_outcome_pending hpend
    · exact hok.few r hr
  · obtain ⟨r, hr, rfl⟩ := List.mem_map.1 hr'
    split
    · next hid =>
      have hcount := hok.counting r hr w (hid ▸ hended)
      rw [(hok.not_final hc hr hid).2] at hcount
      exact hcount
    · next hid =>
      rw [if_neg hid] at hno
      exact hok.counted r hr fun w' h => hno w' ((hend w' r.id hid).2 h)
  · obtain ⟨r, hr, rfl⟩ := List.mem_map.1 hr'
    split at hyes
    · next hid => exact absurd (hid ▸ hyes) (hnone w')
    · next hid =>
      rw [if_neg hid]
      exact hok.counting r hr w' ((hend w' r.id hid).1 hyes)

/-- A dead event starts anew. -/
theorem requeue (hok : Ok n s) (b : Backend) (id now : Nat) :
    Ok (s.tally n (.requeue id now)) { s with box := (b.backupOutboxRequeue s.box id now).1 } := by
  obtain ⟨clock, hboth⟩ := Backend.requeue_both hok.ordered b id now
  rw [hboth]
  have hn : ∀ r ∈ s.box.rows, (r.id = id && r.state = .dead) = false →
      s.tally n (.requeue id now) r.id = n r.id := by
    intro r hr hnot
    refine if_neg fun ⟨hid, hany⟩ => ?_
    obtain ⟨r', hr', hdead⟩ := List.any_eq_true.1 hany
    simp only [Bool.and_eq_true, decide_eq_true_eq] at hdead
    have := hok.ordered.id_inj hr' hr (hdead.1.trans hid.symm)
    subst this
    simp [hdead] at hnot
  have hdelivering : ∀ r : MemBOutbox π, r.state = .delivering →
      (r.id = id && r.state = .dead) = false := by
    intro r hs
    simp [hs]
  refine ⟨hok.ordered.map fun r => ?_, fun w c hc => ?_, hok.once, hok.apart, fun r' hr' => ?_,
    fun r' hr' hno => ?_, fun r' hr' w hyes => ?_, fun i hi => ?_⟩
  · split <;> rfl
  · obtain ⟨r, hr, hid, hs, ha⟩ := hok.held w c hc
    exact ⟨r, List.mem_map.2 ⟨r, hr, by rw [hdelivering r hs]; rfl⟩, hid, hs, ha⟩
  · obtain ⟨r, hr, rfl⟩ := List.mem_map.1 hr'
    split
    · simp [maxAttempts]
    · exact hok.few r hr
  · obtain ⟨r, hr, rfl⟩ := List.mem_map.1 hr'
    cases hd : (r.id = id && r.state = .dead) with
    | true =>
      simp only [Bool.and_eq_true, decide_eq_true_eq] at hd
      have hany : s.box.rows.any (fun b => b.id = id && b.state = .dead) :=
        List.any_eq_true.2 ⟨r, hr, by simp [hd]⟩
      simp [tally, hd, hany]
    | false =>
      simp only [hd, Bool.false_eq_true, if_false] at hno ⊢
      rw [hn r hr hd]
      exact hok.counted r hr hno
  · obtain ⟨r, hr, rfl⟩ := List.mem_map.1 hr'
    cases hd : (r.id = id && r.state = .dead) with
    | true =>
      simp only [hd, if_true, MemBOutbox.mark_id] at hyes
      have hyes : s.Ended w r.id := hyes
      obtain ⟨c, hc, hid⟩ := hyes.claimed
      have hs := (hok.not_final hc hr hid.symm).1
      rw [hdelivering r hs] at hd
      cases hd
    | false =>
      simp only [hd, Bool.false_eq_true, if_false] at hyes ⊢
      rw [hn r hr hd]
      exact hok.counting r hr w hyes
  · have h := hok.fresh i hi
    simp only [tally, h, ite_self]

end Ok

/-! ## Steps and runs -/

variable {b : Backend} {s' : BackupLink π}

theorem step_poll {limit now clock : Nat} (h : s.step b (.poll w limit now clock) = some s') :
    s.workers w = .idle ∧
      (b = .memory ∧ s' = { s with
          box := (MemoryBackend.backupOutboxPoll s.box limit now clock).1 }.setWorker w
        ⟨none, (MemoryBackend.backupOutboxPoll s.box limit now clock).2, none⟩ ∨
      b ≠ .memory ∧ s' = { s with box := MysqlBackend.backupOutboxClaim s.box limit now }.setWorker w
        ⟨some (limit, now), [], none⟩) := by
  simp only [step] at h
  split at h
  · next hidle => exact ⟨hidle, .inl ⟨rfl, (Option.some.inj h).symm⟩⟩
  · next hidle => exact ⟨hidle, .inr ⟨nofun, (Option.some.inj h).symm⟩⟩
  · cases h

theorem step_select (h : s.step b (.select w) = some s') :
    ∃ limit now, s.workers w = ⟨some (limit, now), [], none⟩ ∧
      s' = s.setWorker w ⟨none, MysqlBackend.backupOutboxSelect s.box limit now, none⟩ := by
  simp only [step] at h
  split at h
  · next limit now hw => exact ⟨limit, now, hw, (Option.some.inj h).symm⟩
  · cases h

theorem step_deliver {d : Delivery} (h : s.step b (.deliver w d) = some s') :
    ∃ p c cs, s.workers w = ⟨p, c :: cs, none⟩ ∧
      s' = if c.id = 0 then s.setWorker w ⟨p, cs, none⟩ else s.setWorker w ⟨p, c :: cs, some d⟩ := by
  simp only [step] at h
  split at h
  · next p c cs hw =>
    refine ⟨p, c, cs, hw, ?_⟩
    split at h <;> simp_all
  · cases h

theorem step_mark {now clock : Nat} (h : s.step b (.mark w now clock) = some s') :
    ∃ p c cs d, s.workers w = ⟨p, c :: cs, some d⟩ ∧
      s' = { s with
        box := b.backupOutboxMark s.box c.id (outcome d (c.attempts + 1) now).1 (c.attempts + 1)
          (outcome d (c.attempts + 1) now).2.1 (outcome d (c.attempts + 1) now).2.2 clock }.setWorker
        w ⟨p, cs, none⟩ := by
  simp only [step] at h
  split at h
  · next p c cs d hw => exact ⟨p, c, cs, d, hw, (Option.some.inj h).symm⟩
  · cases h

/-- What is in hand was enqueued, so `process_one` does not leave it out. -/
theorem Ok.id_pos (hok : Ok n s) {c : PolledRow π} (hc : c ∈ (s.workers w).claimed) : c.id ≠ 0 := by
  obtain ⟨r, hr, hid, -⟩ := hok.held w c hc
  have := (hok.ordered.bounded r hr).1
  omega

theorem Ok.step {e : OutboxEvent π} (hok : Ok n s) (hg : Exclusive b s e)
    (h : s.step b e = some s') : Ok (s.tally n e) s' := by
  cases e with
  | enqueue event instance' node ikey payload now =>
    cases h
    exact hok.enqueue b event instance' node ikey payload now
  | poll w limit now clock =>
    obtain ⟨hidle, ⟨hb, rfl⟩ | ⟨-, rfl⟩⟩ := step_poll h
    · exact hok.pollMemory hidle (hg hb)
    · exact hok.pollMysql hidle
  | select w =>
    obtain ⟨limit, now, hw, rfl⟩ := step_select h
    exact hok.select (by rw [hw]) (hg limit now (by rw [hw]))
  | deliver w d =>
    obtain ⟨p, c, cs, hw, rfl⟩ := step_deliver h
    rw [if_neg (hok.id_pos (w := w) (by rw [hw]; exact List.mem_cons_self))]
    exact hok.deliver hw
  | mark w now clock =>
    obtain ⟨p, c, cs, d, hw, rfl⟩ := step_mark h
    obtain ⟨err, hboth⟩ := Backend.mark_both hok.ordered b c.id (outcome d (c.attempts + 1) now).1
      (c.attempts + 1) (outcome d (c.attempts + 1) now).2.1 (outcome d (c.attempts + 1) now).2.2 clock
    rw [hboth]
    exact hok.mark hw now clock err
  | requeue id now =>
    cases h
    exact hok.requeue b id now
  | prune before =>
    cases h
    exact hok.prune b before
  | crash w =>
    cases h
    exact hok.crash hg

theorem Ok.of_run {h : History (BackupLink π) (OutboxEvent π)}
    (hr : Run (BackupLink.step b) (fun _ => Exclusive b) (· = BackupLink.init) h s) : Ok (finished h) s :=
  hr.invariant (I := fun h s => Ok (finished h) s) (fun _ h0 => by subst h0; exact Ok.init)
    fun _ _ _ _ _ hok hg hs => hok.step hg hs

/-- A row goes on with its state, or is requeued, or pruned; one that is in progress may change. -/
theorem Ok.successor {e : OutboxEvent π} (hok : Ok n s) (h : s.step b e = some s') {r : MemBOutbox π}
    (hr : r ∈ s.box.rows) :
    (∃ r' ∈ s'.box.rows, r'.id = r.id ∧
      (r.final → r'.state = r.state ∨ ∃ now, e = .requeue r.id now)) ∨
    r.final ∧ (∃ before, e = .prune before) ∧ ∀ r' ∈ s'.box.rows, r'.id ≠ r.id := by
  have hsame : s'.box.rows = s.box.rows → (∃ r' ∈ s'.box.rows, r'.id = r.id ∧
      (r.final → r'.state = r.state ∨ ∃ now, e = .requeue r.id now)) := fun heq =>
    ⟨r, heq ▸ hr, rfl, fun _ => .inl rfl⟩
  have hclaim : ∀ limit now clock, s'.box.rows = (s.box.rows.map fun r =>
      if r.id ∈ (s.box.picked limit now).map (·.id) then r.claim clock else r) →
      ∃ r' ∈ s'.box.rows, r'.id = r.id ∧
        (r.final → r'.state = r.state ∨ ∃ now, e = .requeue r.id now) := by
    intro limit now clock heq
    refine ⟨_, heq ▸ List.mem_map_of_mem hr, ?_⟩
    split
    · next hid =>
      exact ⟨rfl, fun hf => by rw [hok.not_final_of_picked r hr hid] at hf; cases hf⟩
    · exact ⟨rfl, fun _ => .inl rfl⟩
  cases e with
  | enqueue event instance' node ikey payload now =>
    cases h
    refine .inl ⟨r, ?_, rfl, fun _ => .inl rfl⟩
    cases b with
    | memory =>
      simp only [Backend.backupOutboxEnqueue, MemoryBackend.backupOutboxEnqueue]
      split
      · exact hr
      · exact List.mem_append_left _ hr
    | mysql =>
      simp only [Backend.backupOutboxEnqueue, MysqlBackend.backupOutboxEnqueue]
      split
      · exact hr
      · exact List.mem_append_left _ hr
  | poll w limit now clock =>
    obtain ⟨-, ⟨-, rfl⟩ | ⟨-, rfl⟩⟩ := step_poll h
    · refine .inl (hclaim limit now clock ?_)
      rw [setWorker_box, MemoryBackend.poll_eq hok.ordered]
    · exact .inl (hclaim limit now now rfl)
  | select w =>
    obtain ⟨limit, now, -, rfl⟩ := step_select h
    exact .inl (hsame rfl)
  | deliver w d =>
    obtain ⟨p, c, cs, -, rfl⟩ := step_deliver h
    refine .inl (hsame ?_)
    split <;> rfl
  | mark w now clock =>
    obtain ⟨p, c, cs, d, hw, rfl⟩ := step_mark h
    obtain ⟨err, hboth⟩ := Backend.mark_both hok.ordered b c.id (outcome d (c.attempts + 1) now).1
      (c.attempts + 1) (outcome d (c.attempts + 1) now).2.1 (outcome d (c.attempts + 1) now).2.2 clock
    refine .inl ?_
    rw [setWorker_box, hboth]
    refine ⟨_, List.mem_map_of_mem hr, ?_⟩
    split
    · next hid =>
      refine ⟨rfl, fun hf => ?_⟩
      have hs := (hok.not_final (w := w) (by rw [hw]; exact List.mem_cons_self) hr hid).1
      simp [MemBOutbox.final, hs] at hf
    · exact ⟨rfl, fun _ => .inl rfl⟩
  | requeue id now =>
    cases h
    obtain ⟨clock, hboth⟩ := Backend.requeue_both hok.ordered b id now
    refine .inl ?_
    simp only [hboth]
    refine ⟨_, List.mem_map_of_mem hr, ?_⟩
    split
    · next hid =>
      simp only [Bool.and_eq_true, decide_eq_true_eq] at hid
      exact ⟨rfl, fun _ => .inr ⟨now, by rw [hid.1]⟩⟩
    · exact ⟨rfl, fun _ => .inl rfl⟩
  | prune before =>
    cases h
    rw [Backend.prune_both]
    by_cases hgone : r.final && r.updatedAt < before
    · refine .inr ⟨by simp at hgone; exact hgone.1, ⟨before, rfl⟩, fun r' hr' hid => ?_⟩
      obtain ⟨hr', hkeep⟩ := List.mem_filter.1 hr'
      rw [hok.ordered.id_inj hr' hr hid] at hkeep
      simp [hgone] at hkeep
    · exact .inl ⟨r, List.mem_filter.2 ⟨hr, by simp [hgone]⟩, rfl, fun _ => .inl rfl⟩
  | crash w =>
    cases h
    exact .inl (hsame rfl)

theorem accounted_of_run {h : History (BackupLink π) (OutboxEvent π)}
    (hr : Run (BackupLink.step b) (fun _ => Exclusive b) (· = BackupLink.init) h s) :
    Accounted h s := by
  have hok := Ok.of_run hr
  refine ⟨fun t e h' heq r hr' hf => ?_, fun t e h' heq r hr' hgone => ?_, hok.counted, hok.counting,
    fun r hr => (hok.few r hr).1, hok.apart⟩
  · subst heq
    cases hr with
    | step hr hg hs =>
      rcases (Ok.of_run hr).successor hs hr' with ⟨r', hr'', hid, hst⟩ | ⟨-, -, hgone⟩
      · refine (hst hf).imp (fun hst r₂ hr₂ hid₂ => ?_) fun h => h
        rw [hok.ordered.id_inj hr₂ hr'' (hid₂.trans hid.symm)]
        exact hst
      · exact .inl fun r₂ hr₂ hid₂ => absurd hid₂ (hgone r₂ hr₂)
  · subst heq
    cases hr with
    | step hr hg hs =>
      rcases (Ok.of_run hr).successor hs hr' with ⟨r', hr'', hid, -⟩ | ⟨hf, hp, -⟩
      · exact absurd hid (hgone r' hr'')
      · exact ⟨hf, hp⟩

/-- A poll that leaves no event in the hands of two workers has reached none of another worker. -/
theorem outOfReach_of_apart {limit : Nat} {due : MemBOutbox π → Bool} {f : MemBOutbox π → PolledRow π}
    (hf : ∀ r, (f r).id = r.id)
    (hnew : (s'.workers w).claimed = ((s.box.rows.filter due).take (min limit 200)).map f)
    (hold : ∀ w', w' ≠ w → s'.workers w' = s.workers w')
    (hapart : ∀ w w', w ≠ w' → ∀ c ∈ (s'.workers w).claimed, ∀ c' ∈ (s'.workers w').claimed,
      c.id ≠ c'.id) : s.OutOfReach w limit due := by
  intro w' hw c hc i r hi hid
  by_contra hlt
  have hr : r ∈ (s.box.rows.filter due).take (min limit 200) := by
    rw [← List.getElem?_take_of_lt (by omega : i < min limit 200)] at hi
    exact List.mem_of_getElem? hi
  refine hapart w w' hw.symm (f r) (hnew ▸ List.mem_map_of_mem hr) c (by rw [hold w' hw]; exact hc) ?_
  rw [hf, hid]

/-- A step after which the events are accounted for met the condition. -/
theorem Ok.exclusive {h : History (BackupLink π) (OutboxEvent π)} {e : OutboxEvent π}
    (hok : Ok (finished h) s) (hs : s.step b e = some s') (ha : Accounted ((s, e) :: h) s') :
    Exclusive b s e := by
  cases e with
  | poll w limit now clock =>
    rintro rfl
    obtain ⟨-, ⟨-, rfl⟩ | ⟨hb, -⟩⟩ := step_poll hs
    · refine outOfReach_of_apart (f := fun r => (r.claim clock).toPolledRow) (fun _ => rfl) ?_
        (fun w' hw => setWorker_other _ _ hw) ha.apart
      rw [setWorker_self, MemoryBackend.poll_eq hok.ordered]
      rfl
    · exact absurd rfl hb
  | select w =>
    obtain ⟨limit, now, hw, rfl⟩ := step_select hs
    intro limit' now' heq
    rw [hw] at heq
    cases heq
    refine outOfReach_of_apart (f := (·.toPolledRow)) (fun _ => rfl) ?_
      (fun w' hw => setWorker_other _ _ hw) ha.apart
    rw [setWorker_self]
    rfl
  | crash w =>
    cases hs
    intro id hend
    obtain ⟨c, hc, rfl⟩ := hend.claimed
    obtain ⟨r, hr, hid, -⟩ := hok.held w c hc
    have hbefore := hok.counting r hr w (hid ▸ hend)
    have hafter : r.attempts = finished h r.id := by
      refine ha.counted r hr fun w' h' => ?_
      by_cases hw : w' = w
      · subst hw
        exact not_ended (by rw [setWorker_self]; rfl) _ h'
      · obtain ⟨c', hc', hid'⟩ := h'.claimed
        rw [setWorker_other s _ hw] at hc'
        exact hok.apart w w' (Ne.symm hw) c hc c' hc' (hid.symm.trans hid'.symm)
    omega
  | enqueue | deliver | mark | requeue | prune => trivial

/-- In a run from an empty table no event is ever lost, counted wrongly, resurrected or in the hands
of two workers, exactly when every poll hands out only what no other worker has in hand and no
worker dies between the end of a delivery and its mark. -/
theorem accounted_iff (b : Backend) {h : History (BackupLink π) (OutboxEvent π)} {s : BackupLink π}
    (hr : Run (BackupLink.step b) (fun _ _ _ => True) (· = BackupLink.init) h s) :
    (Accounted h s ∧ ∀ t e h', (t, e) :: h' <:+ h → Accounted h' t) ↔
      ∀ t e h', (t, e) :: h' <:+ h → Exclusive b t e := by
  constructor
  · rintro ⟨hlast, hall⟩
    induction hr with
    | start => exact fun t e h' hs => (nomatch List.suffix_nil.1 hs)
    | @step h s s' e hr _ hs ih =>
      have hprev : ∀ t e h', (t, e) :: h' <:+ h → Exclusive b t e :=
        ih (hall s e h (List.suffix_refl _)) fun t e h' hs => hall t e h' (hs.trans (List.suffix_cons _ _))
      intro t e' h' hsuf
      rcases List.suffix_cons_iff.1 hsuf with heq | hsuf
      · cases heq
        exact (Ok.of_run (hr.restrict hprev)).exclusive hs hlast
      · exact hprev t e' h' hsuf
  · intro hall
    have hr : Run (BackupLink.step b) (fun _ => Exclusive b) _ h s := hr.restrict hall
    exact ⟨accounted_of_run hr, fun t e h' hs => accounted_of_run (hr.of_suffix hs).1⟩

/-- One worker: an event is enqueued, handed out, delivered and marked. -/
def oneRound : List (OutboxEvent String) :=
  [.enqueue "heartbeat" "demo" "" "heartbeat-demo-0" "{}" 0, .poll 0 50 60 60, .select 0,
    .deliver 0 .ok, .mark 0 61 61]

/-- Two workers poll the same event; the second one's mark comes after the first one's. -/
def twoPolls : List (OutboxEvent String) :=
  [.enqueue "heartbeat" "demo" "" "heartbeat-demo-0" "{}" 0, .poll 0 50 60 60, .select 0,
    .poll 1 50 60 60, .select 1, .deliver 0 .ok, .mark 0 61 61, .deliver 1 .retry, .mark 1 62 62]

theorem accounted_iff_oneRound :
    ∃ (h : History (BackupLink String) (OutboxEvent String)) (s : BackupLink String),
    Run (BackupLink.step (.mysql (· == ·))) (fun _ _ _ => True) (· = BackupLink.init) h s ∧
      ((Accounted h s ∧ ∀ t e h', (t, e) :: h' <:+ h → Accounted h' t) ↔
        ∀ t e h', (t, e) :: h' <:+ h → Exclusive (.mysql (· == ·)) t e) := by
  have hf : follow (BackupLink.step (.mysql (· == ·))) (fun _ _ _ => True) oneRound [] BackupLink.init =
    some (_, _) := rfl
  have hr : Run (BackupLink.step (.mysql (· == ·))) (fun _ _ _ => True) (· = BackupLink.init) _ _ :=
    Run.follow (.start rfl) hf
  exact ⟨_, _, hr, accounted_iff _ hr⟩

theorem done_comes_back :
    ¬∀ b (h : History (BackupLink String) (OutboxEvent String)) s,
      Run (BackupLink.step b) (fun _ _ _ => True) (· = BackupLink.init) h s → Accounted h s := by
  intro hall
  have hf : follow (BackupLink.step (.mysql (· == ·))) (fun _ _ _ => True) twoPolls [] BackupLink.init =
    some (_, _) := rfl
  have ha := hall _ _ _ (Run.follow (Run.start rfl) hf)
  rcases ha.kept _ _ _ rfl _ (List.mem_cons_self) rfl with h | ⟨now, h⟩
  · exact absurd (h _ List.mem_cons_self rfl) (by decide)
  · cases h

end BackupLink

end Rdsctl.Store
