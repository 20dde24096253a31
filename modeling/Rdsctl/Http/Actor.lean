import Mathlib.Logic.Function.Basic
import Rdsctl.Http.Handle
import Rdsctl.Lib.Run

/-!
# Requests on a thread pool

Tasks run on worker threads from one await to the next, on any thread. `Mark` is the record of what
happens to `ACTOR`: `set` by a request that has found its session, a read, and the `clear` of the
guard when a request ends. The slot of a thread is what the record says (`holder`), and a request
sees its own session as long as it stays on the thread it was set on and no other request has set
or cleared that thread since (`Kept`).
-/

namespace Rdsctl.Http

/-! ## Tasks and threads -/

/-- A task between two polls. -/
inductive Job where
  /-- A request whose session is not known yet. -/
  | arriving (next : Answer → Arrival)
  /-- A request under its `AuthGuard`. -/
  | inside (next : Answer → Code)
  /-- A task that no request waits for. -/
  | background (next : Answer → Code)
  | gone

/-- What a task does to `ACTOR` on a thread. -/
inductive Mark where
  | set (task thread : Nat) (actor : Actor)
  | read (task thread : Nat) (asked : Asked)
  | ended (task thread : Nat)
deriving DecidableEq, Repr

/-- The task of a mark. -/
def Mark.task : Mark → Nat
  | set i _ _ | read i _ _ | ended i _ => i

/-- A set or a clear of a thread's slot. -/
def Mark.Touches (t : Nat) : Mark → Prop
  | set _ t' _ | ended _ t' => t' = t
  | read .. => False

structure Sys where
  /-- `ACTOR` on each thread. -/
  actor : Nat → Option Actor
  jobs : List Job
  /-- What has been done to `ACTOR`, newest first. -/
  log : List Mark

/-- A process that serves no request yet. -/
def Sys.Initial (s : Sys) : Prop := s = { actor := fun _ => none, jobs := [], log := [] }

/-- The reads of one segment, added to the record. -/
def readMarks (i t : Nat) (asked : List Asked) (log : List Mark) : List Mark :=
  asked.foldl (fun log a => .read i t a :: log) log

inductive Event where
  | connect (q : Request)
  | spawn (code : Code)
  | poll (task thread : Nat) (answer : Answer)

/-- A segment of a request under its guard; the guard clears the slot of the thread it ends on. -/
def Sys.proceed (s : Sys) (i t : Nat) (c : Code) : Sys :=
  let log := readMarks i t (c.run (s.actor t)).1 s.log
  match (c.run (s.actor t)).2 with
  | some next => { s with jobs := s.jobs.set i (.inside next), log := log }
  | none =>
    { actor := Function.update s.actor t none, jobs := s.jobs.set i .gone,
      log := .ended i t :: log }

/-- A segment of a background task. -/
def Sys.work (s : Sys) (i t : Nat) (c : Code) : Sys :=
  let job := match (c.run (s.actor t)).2 with
    | some next => Job.background next
    | none => .gone
  { s with jobs := s.jobs.set i job, log := readMarks i t (c.run (s.actor t)).1 s.log }

/-- `auth::set` on the thread of a request. -/
def Sys.set (s : Sys) (i t : Nat) (a : Actor) : Sys :=
  { s with actor := Function.update s.actor t (some a), log := .set i t a :: s.log }

section System

variable (cluster : Bool) (endpoint : Request → Code)

def step (s : Sys) : Event → Option Sys
  | .connect q => some { s with jobs := s.jobs ++ [.arriving fun _ => handle cluster endpoint q] }
  | .spawn code => some { s with jobs := s.jobs ++ [.background fun _ => code] }
  | .poll i t answer =>
    match s.jobs[i]? with
    | some (.arriving next) =>
      match next answer with
      | .await next => some { s with jobs := s.jobs.set i (.arriving next) }
      | .closed => some { s with jobs := s.jobs.set i .gone }
      | .session a body => some ((s.set i t a).proceed i t body)
    | some (.inside next) => some (s.proceed i t (next answer))
    | some (.background next) => some (s.work i t (next answer))
    | some .gone | none => none

end System

/-! ## The record -/

/-- The request that set the slot of a thread, unless it has been cleared since. -/
def holder (t : Nat) : List Mark → Option (Nat × Actor)
  | [] => none
  | .set i t' a :: log => if t' = t then some (i, a) else holder t log
  | .ended _ t' :: log => if t' = t then none else holder t log
  | .read .. :: log => holder t log

theorem holder_mem {t i : Nat} {a : Actor} {log : List Mark} (h : holder t log = some (i, a)) :
    Mark.set i t a ∈ log := by
  induction log with
  | nil => cases h
  | cons m log ih =>
    cases m with
    | set j t' b =>
      simp only [holder] at h
      split at h
      · next ht => cases h; exact ht ▸ .head _
      · exact .tail _ (ih h)
    | ended j t' =>
      simp only [holder] at h
      split at h
      · cases h
      · exact .tail _ (ih h)
    | read j t' asked => exact .tail _ (ih h)

/-- The slot of the thread was last touched by a set of the session that the request has. -/
def Kept (i t : Nat) (log : List Mark) : Prop :=
  ∃ j a later earlier, log = later ++ .set j t a :: earlier ∧ (∀ m ∈ later, ¬ m.Touches t) ∧
    ∃ t₀, Mark.set i t₀ a ∈ log

theorem Kept.holder {i t : Nat} {log : List Mark} (h : Kept i t log) :
    ∃ j a, holder t log = some (j, a) ∧ ∃ t₀, Mark.set i t₀ a ∈ log := by
  obtain ⟨j, a, later, earlier, rfl, hl, hown⟩ := h
  refine ⟨j, a, ?_, hown⟩
  clear hown
  induction later with
  | nil => simp [Http.holder]
  | cons m later ih =>
    have ih := ih fun m' hm => hl m' (.tail _ hm)
    have hm := hl m (.head _)
    cases m with
    | set k t' b | ended k t' =>
      have hne : t' ≠ t := hm
      simpa only [List.cons_append, Http.holder, if_neg hne] using ih
    | read k t' asked => exact ih

/-- The request leaves its actor on no thread but the one it ends on. -/
def Leaves (i t : Nat) (log : List Mark) : Prop :=
  ∀ t' a, holder t' log = some (i, a) → t' = t

/-- A read that has been answered with what the slot held, which no ended request had left. -/
def Current (t : Nat) (asked : Asked) (earlier : List Mark) : Prop :=
  asked.Of ((holder t earlier).map Prod.snd) ∧
    ∀ j b, holder t earlier = some (j, b) → ∀ t', Mark.ended j t' ∉ earlier

/-- What the record says of the slots, and what holds of it. -/
structure Ledger (actor : Nat → Option Actor) (log : List Mark) : Prop where
  slot : ∀ t, actor t = (holder t log).map Prod.snd
  once : ∀ {i t a t' a'}, Mark.set i t a ∈ log → Mark.set i t' a' ∈ log → t = t' ∧ a = a'
  live : ∀ {t j b}, holder t log = some (j, b) → ∀ t', Mark.ended j t' ∉ log
  own : ∀ {i t a t' asked}, Mark.set i t a ∈ log → Mark.read i t' asked ∈ log → asked.Of (some a)
  current : ∀ {i t asked earlier}, Mark.read i t asked :: earlier <:+ log →
    Current t asked earlier

namespace Ledger

variable {actor : Nat → Option Actor} {log : List Mark} {i t : Nat}

theorem start : Ledger (fun _ => none) [] where
  slot _ := rfl
  once h := nomatch h
  live h := nomatch h
  own h := nomatch h
  current h := by simp at h

/-- A read that answers what the slot holds, where a request that has set its session sees it. -/
theorem read (l : Ledger actor log) {asked : Asked} (hof : asked.Of (actor t))
    (hown : ∀ t' a, Mark.set i t' a ∈ log → asked.Of (some a)) :
    Ledger actor (.read i t asked :: log) where
  slot := l.slot
  once h h' := by
    simp only [List.mem_cons, reduceCtorEq, false_or] at h h'
    exact l.once h h'
  live h t' hm := by
    simp only [List.mem_cons, reduceCtorEq, false_or] at hm
    exact l.live h t' hm
  own {j t₁ a t₂ asked'} h hm := by
    simp only [List.mem_cons, reduceCtorEq, false_or] at h
    rcases List.mem_cons.1 hm with heq | hm
    · cases heq
      exact hown _ _ h
    · exact l.own h hm
  current {j t' asked' earlier} h := by
    rcases List.suffix_cons_iff.1 h with heq | h
    · cases heq
      exact ⟨l.slot t ▸ hof, fun j b hj => l.live hj⟩
    · exact l.current h

/-- The reads of a segment, one after another. -/
theorem reads (l : Ledger actor log) {asked : List Asked} (hof : ∀ a ∈ asked, a.Of (actor t))
    (hown : ∀ a ∈ asked, ∀ t' b, Mark.set i t' b ∈ log → a.Of (some b)) :
    Ledger actor (readMarks i t asked log) := by
  induction asked generalizing log with
  | nil => exact l
  | cons a asked ih =>
    refine ih (l.read (hof a (.head _)) (hown a (.head _))) (fun b hb => hof b (.tail _ hb)) ?_
    intro b hb t' c hc
    simp only [List.mem_cons, reduceCtorEq, false_or] at hc
    exact hown b (.tail _ hb) t' c hc

/-- A request that has left no mark yet sets its session. -/
theorem set (l : Ledger actor log) (hi : ∀ m ∈ log, m.task ≠ i) (a : Actor) :
    Ledger (Function.update actor t (some a)) (.set i t a :: log) where
  slot t' := by
    rcases eq_or_ne t t' with rfl | ht
    · simp [holder]
    · simp [holder, ht, Function.update_of_ne ht.symm, l.slot t']
  once {j t₁ a₁ t₂ a₂} h h' := by
    rcases List.mem_cons.1 h with heq | h <;> rcases List.mem_cons.1 h' with heq' | h'
    · cases heq; cases heq'; exact ⟨rfl, rfl⟩
    · cases heq; exact absurd rfl (hi _ h')
    · cases heq'; exact absurd rfl (hi _ h)
    · exact l.once h h'
  live {t' j b} h t₁ hm := by
    simp only [List.mem_cons, reduceCtorEq, false_or] at hm
    simp only [holder] at h
    split at h
    · cases h; exact hi _ hm rfl
    · exact l.live h t₁ hm
  own {j t₁ a₁ t₂ asked} h hm := by
    simp only [List.mem_cons, reduceCtorEq, false_or] at hm
    rcases List.mem_cons.1 h with heq | h
    · cases heq; exact absurd rfl (hi _ hm)
    · exact l.own h hm
  current {j t' asked earlier} h := by
    rcases List.suffix_cons_iff.1 h with heq | h
    · cases heq
    · exact l.current h

/-- A request ends. -/
theorem ended (l : Ledger actor log) (hleaves : Leaves i t log) :
    Ledger (Function.update actor t none) (.ended i t :: log) where
  slot t' := by
    rcases eq_or_ne t t' with rfl | ht
    · simp [holder]
    · simp [holder, ht, Function.update_of_ne ht.symm, l.slot t']
  once h h' := by
    simp only [List.mem_cons, reduceCtorEq, false_or] at h h'
    exact l.once h h'
  live {t' j b} h t₁ hm := by
    simp only [holder] at h
    split at h
    · cases h
    · next ht =>
      rcases List.mem_cons.1 hm with heq | hm
      · cases heq
        exact ht (hleaves _ _ h).symm
      · exact l.live h t₁ hm
  own h hm := by
    simp only [List.mem_cons, reduceCtorEq, false_or] at h hm
    exact l.own h hm
  current {j t' asked earlier} h := by
    rcases List.suffix_cons_iff.1 h with heq | h
    · cases heq
    · exact l.current h

end Ledger

theorem readMarks_task {i t : Nat} {asked : List Asked} {log : List Mark} :
    ∀ m ∈ readMarks i t asked log, m ∈ log ∨ ∃ a, m = .read i t a := by
  induction asked generalizing log with
  | nil => exact fun m hm => .inl hm
  | cons a asked ih =>
    intro m hm
    rcases ih m hm with hm | hm
    · rcases List.mem_cons.1 hm with rfl | hm
      · exact .inr ⟨a, rfl⟩
      · exact .inl hm
    · exact .inr hm

/-- A read leaves the slots as they are. -/
theorem holder_readMarks {i t t' : Nat} {asked : List Asked} {log : List Mark} :
    holder t' (readMarks i t asked log) = holder t' log := by
  induction asked generalizing log with
  | nil => rfl
  | cons a asked ih => exact ih

/-! ## The schedule -/

/-- Where a request that has set its session may run its next segment: one that reads `ACTOR` where
the slot was last touched by a set of the same session, and one that ends where that leaves its
actor on no other thread. -/
def Code.MayRun (i t : Nat) (s : Sys) (c : Code) : Prop :=
  ((c.run (s.actor t)).1 ≠ [] → Kept i t s.log) ∧
    ((c.run (s.actor t)).2 = none → Leaves i t s.log)

/-- The schedules under which every request that has set its session runs where it may. -/
def Sys.Pinned (s : Sys) : Event → Prop
  | .poll i t answer => ∀ next, s.jobs[i]? = some (.inside next) → (next answer).MayRun i t s
  | .connect _ | .spawn _ => True

/-- The record and the tasks: a request leaves no mark before it sets its session, and a background
task never sets one. -/
structure Sys.Ok (s : Sys) : Prop where
  ledger : Ledger s.actor s.log
  known : ∀ m ∈ s.log, m.task < s.jobs.length
  arriving : ∀ {i next}, s.jobs[i]? = some (.arriving next) → ∀ m ∈ s.log, m.task ≠ i
  background : ∀ {i next}, s.jobs[i]? = some (.background next) → ∀ t a, Mark.set i t a ∉ s.log

namespace Sys.Ok

variable {s s' : Sys} {i t : Nat}

theorem start (h0 : s.Initial) : s.Ok := by
  subst h0
  exact ⟨.start, nofun, nofun, nofun⟩

/-- A new task has left no mark. -/
theorem push (ok : s.Ok) (job : Job) : Sys.Ok { s with jobs := s.jobs ++ [job] } where
  ledger := ok.ledger
  known m hm := by
    have := ok.known m hm
    simp only [List.length_append, List.length_singleton]
    omega
  arriving {j next} hj m hm := by
    rcases Nat.lt_or_ge j s.jobs.length with hlt | hge
    · rw [List.getElem?_append_left hlt] at hj
      exact ok.arriving hj m hm
    · exact fun heq => absurd (ok.known m hm) (by omega)
  background {j next} hj t a hm := by
    rcases Nat.lt_or_ge j s.jobs.length with hlt | hge
    · rw [List.getElem?_append_left hlt] at hj
      exact ok.background hj t a hm
    · have := ok.known _ hm
      simp only [Mark.task] at this
      omega

/-- A task that runs adds marks of its own only. -/
theorem move (ok : s.Ok) (s' : Sys) (job : Job) (hjobs : s'.jobs = s.jobs.set i job)
    (hi : i < s.jobs.length) (hl : Ledger s'.actor s'.log)
    (hmarks : ∀ m ∈ s'.log, m ∈ s.log ∨ m.task = i)
    (harr : ∀ next, job = .arriving next → ∀ m ∈ s'.log, m.task ≠ i)
    (hback : ∀ next, job = .background next → ∀ t a, Mark.set i t a ∉ s'.log) : s'.Ok where
  ledger := hl
  known m hm := by
    rw [hjobs, List.length_set]
    rcases hmarks m hm with hm | rfl
    · exact ok.known m hm
    · exact hi
  arriving {j next} hj m hm := by
    rw [hjobs] at hj
    rcases eq_or_ne i j with rfl | hne
    · rw [List.getElem?_set_self hi] at hj
      exact harr next (Option.some.inj hj) m hm
    · rw [List.getElem?_set_ne hne] at hj
      rcases hmarks m hm with hm | rfl
      · exact ok.arriving hj m hm
      · exact hne
  background {j next} hj t a hm := by
    rw [hjobs] at hj
    rcases eq_or_ne i j with rfl | hne
    · rw [List.getElem?_set_self hi] at hj
      exact hback next (Option.some.inj hj) t a hm
    · rw [List.getElem?_set_ne hne] at hj
      rcases hmarks _ hm with hm | heq
      · exact ok.background hj t a hm
      · exact hne heq.symm

/-- The reads of a request that sees its session are right ones. -/
theorem ledger_reads (hl : Ledger s.actor s.log) {c : Code}
    (hsees : (c.run (s.actor t)).1 ≠ [] → ∃ a, s.actor t = some a ∧
      ∀ t' b, Mark.set i t' b ∈ s.log → b = a) :
    Ledger s.actor (readMarks i t (c.run (s.actor t)).1 s.log) := by
  refine hl.reads (c.run_of _) fun asked hasked t' b hb => ?_
  obtain ⟨a, ha, hall⟩ := hsees (List.ne_nil_of_mem hasked)
  rw [hall t' b hb, ← ha]
  exact c.run_of _ asked hasked

/-- A segment under the guard. -/
theorem proceed (ok : s.Ok) (s₁ : Sys) (hjobs : s₁.jobs = s.jobs) (hi : i < s.jobs.length)
    (hl : Ledger s₁.actor s₁.log) (hmarks : ∀ m ∈ s₁.log, m ∈ s.log ∨ m.task = i) {c : Code}
    (hsees : (c.run (s₁.actor t)).1 ≠ [] → ∃ a, s₁.actor t = some a ∧
      ∀ t' b, Mark.set i t' b ∈ s₁.log → b = a)
    (hleaves : (c.run (s₁.actor t)).2 = none → Leaves i t s₁.log) : (s₁.proceed i t c).Ok := by
  have hreads := ledger_reads hl hsees
  have htasks : ∀ m ∈ readMarks i t (c.run (s₁.actor t)).1 s₁.log, m ∈ s.log ∨ m.task = i := by
    intro m hm
    rcases readMarks_task m hm with hm | ⟨a, rfl⟩
    · exact hmarks m hm
    · exact .inr rfl
  rcases hrest : (c.run (s₁.actor t)).2 with _ | next
  · have hend : Leaves i t (readMarks i t (c.run (s₁.actor t)).1 s₁.log) := by
      intro t' a ha
      rw [holder_readMarks] at ha
      exact hleaves hrest t' a ha
    have hp : s₁.proceed i t c =
        { actor := Function.update s₁.actor t none, jobs := s₁.jobs.set i .gone,
          log := .ended i t :: readMarks i t (c.run (s₁.actor t)).1 s₁.log } := by
      simp only [Sys.proceed, hrest]
    rw [hp]
    refine ok.move _ .gone (by rw [hjobs]) hi
      (hreads.ended hend) (fun m hm => ?_) nofun nofun
    rcases List.mem_cons.1 hm with rfl | hm
    · exact .inr rfl
    · exact htasks m hm
  · have hp : s₁.proceed i t c =
        { actor := s₁.actor, jobs := s₁.jobs.set i (.inside next),
          log := readMarks i t (c.run (s₁.actor t)).1 s₁.log } := by
      simp only [Sys.proceed, hrest]
    rw [hp]
    exact ok.move _ (.inside next) (by rw [hjobs]) hi hreads htasks nofun nofun

/-- The segment in which a request sets its session. -/
theorem set (ok : s.Ok) {next : Answer → Arrival} (hj : s.jobs[i]? = some (.arriving next))
    (a : Actor) (body : Code) : ((s.set i t a).proceed i t body).Ok := by
  have hfresh := ok.arriving hj
  have hl := ok.ledger.set (t := t) hfresh a
  refine ok.proceed (s.set i t a) rfl (List.getElem?_eq_some_iff.1 hj).1 hl
    (fun m hm => ?_) (fun _ => ?_) fun _ t' b hb => ?_
  · rcases List.mem_cons.1 hm with rfl | hm
    · exact .inr rfl
    · exact .inl hm
  · refine ⟨a, Function.update_self .., fun t' b hb => ?_⟩
    exact (hl.once hb (List.mem_cons_self ..)).2
  · exact (hl.once (holder_mem hb) (List.mem_cons_self ..)).1

/-- A later segment of a request, run where it may be. -/
theorem resume (ok : s.Ok) {next : Answer → Code} (hj : s.jobs[i]? = some (.inside next))
    {c : Code} (hmay : c.MayRun i t s) : (s.proceed i t c).Ok := by
  refine ok.proceed s rfl (List.getElem?_eq_some_iff.1 hj).1 ok.ledger (fun m hm => .inl hm)
    (fun hne => ?_) hmay.2
  obtain ⟨j, a, ha, t₀, hset⟩ := (hmay.1 hne).holder
  refine ⟨a, by rw [ok.ledger.slot, ha]; rfl, fun t' b hb => ?_⟩
  exact (ok.ledger.once hb hset).2

/-- A segment of a background task. -/
theorem work (ok : s.Ok) {next : Answer → Code} (hj : s.jobs[i]? = some (.background next))
    (c : Code) : (s.work i t c).Ok := by
  have hnone := ok.background hj
  have hl : Ledger s.actor (readMarks i t (c.run (s.actor t)).1 s.log) :=
    ok.ledger.reads (c.run_of _) fun _ _ t' b hb => absurd hb (hnone t' b)
  refine ok.move (s.work i t c) _ rfl (List.getElem?_eq_some_iff.1 hj).1 hl
    (fun m hm => ?_) (fun next' h => ?_) fun _ _ t' a hm => ?_
  · rcases readMarks_task m hm with hm | ⟨a, rfl⟩
    · exact .inl hm
    · exact .inr rfl
  · split at h <;> cases h
  · rcases readMarks_task _ hm with hm | ⟨b, heq⟩
    · exact hnone t' a hm
    · cases heq

variable {cluster : Bool} {endpoint : Request → Code} {e : Event}

/-- Every step of a pinned schedule keeps the record right. -/
theorem step (ok : s.Ok) (hp : s.Pinned e) (hs : step cluster endpoint s e = some s') : s'.Ok := by
  cases e with
  | connect q => cases hs; exact ok.push _
  | spawn code => cases hs; exact ok.push _
  | poll i t answer =>
    simp only [Http.step] at hs
    split at hs
    · next next hj =>
      have hi := (List.getElem?_eq_some_iff.1 hj).1
      split at hs
      · cases hs
        exact ok.move _ _ rfl hi ok.ledger (fun m hm => .inl hm)
          (fun _ _ => ok.arriving hj) nofun
      · cases hs
        exact ok.move _ _ rfl hi ok.ledger (fun m hm => .inl hm) nofun nofun
      · cases hs
        exact ok.set hj _ _
    · next next hj => cases hs; exact ok.resume hj (hp next hj)
    · next next hj => cases hs; exact ok.work hj _
    · cases hs
    · cases hs

end Sys.Ok

/-- Every read that a request makes is answered from the session it has set, and no slot holds the
actor of a request that has ended, nor did one at any read. -/
structure Sys.Separate (s : Sys) : Prop where
  own : ∀ i t a t' asked, Mark.set i t a ∈ s.log → Mark.read i t' asked ∈ s.log → asked.Of (some a)
  gone : ∀ t j b, holder t s.log = some (j, b) → ∀ t', Mark.ended j t' ∉ s.log
  slot : ∀ t, s.actor t = (holder t s.log).map Prod.snd
  current : ∀ i t asked earlier, Mark.read i t asked :: earlier <:+ s.log → Current t asked earlier

/-- Along a schedule that runs requests where they may be, they see only themselves. -/
theorem requests_see_themselves {cluster : Bool} {endpoint : Request → Code}
    {h : History Sys Event} {s : Sys}
    (hr : Run (step cluster endpoint) (fun _ s e => s.Pinned e) Sys.Initial h s) :
    ∀ u ∈ h.states s, u.Separate := by
  intro u hu
  obtain ⟨h', hr'⟩ := hr.of_mem hu
  have ok : u.Ok := hr'.invariant (I := fun _ s => s.Ok) (fun _ h0 => .start h0)
    fun h s e s' _ ok hg hs => ok.step hg hs
  exact
    { own := fun i t a t' asked hset hread => ok.ledger.own hset hread
      gone := fun t j b hj => ok.ledger.live hj
      slot := ok.ledger.slot
      current := fun i t asked earlier hsuf => ok.ledger.current hsuf }

/-- The console of a process whose statements all read and use the low-privilege account. -/
def console (q : Request) : Code :=
  if q.path = "/api/rds/query" then
    query { refused := false, read_only := true, denied := false, allow_root_fallback := false,
            permit := true }
  else .done

/-- A statement that a user sends to the console. -/
def statement (user : String) : Request where
  method := "POST"
  path := "/api/rds/query"
  query := "instance=orders"
  post_body := "sql=SELECT 1"
  chunks := 0
  cookie := true
  sess := some { user := user, perms := ["instances.query"] }

/-- A statement that runs alone on its thread. -/
theorem requests_see_themselves_alone : ∃ (h : History Sys Event) (s : Sys),
    Run (step false console) (fun _ s e => s.Pinned e) Sys.Initial h s ∧
    Mark.read 0 3 (.current_user "alice") ∈ s.log ∧ Mark.ended 0 3 ∈ s.log ∧
    ∀ u ∈ h.states s, u.Separate := by
  let alice : Actor := { user := "alice", perms := ["instances.query"] }
  let gate : List Mark := [.read 0 3 (.has_perm "instances.query" true),
    .read 0 3 (.has_perm "instances.query" true)]
  have r0 : Run (step false console) (fun _ s e => s.Pinned e) Sys.Initial [] _ := .start rfl
  have r1 := r0.step (e := .connect (statement "alice")) (by exact True.intro) rfl
  -- the request line, then the session, the gate and the checks up to `provision`
  have r2 := r1.step (e := .poll 0 3 (.ok "")) (by rintro next ⟨⟩) rfl
  have r3 := r2.step (e := .poll 0 3 (.ok "POST /api/rds/query")) (by rintro next ⟨⟩) rfl
  -- the account is there, then the rows, then the reply is written and flushed
  have r4 := r3.step (e := .poll 0 3 (.ok "")) (by rintro next ⟨⟩; exact ⟨nofun, nofun⟩) rfl
  have hkept : Kept 0 3 (gate ++ [.set 0 3 alice]) := by
    refine ⟨0, alice, gate, [], rfl, fun m hm => ?_, 3, by simp⟩
    simp only [gate, List.mem_cons, List.not_mem_nil, or_false, or_self] at hm
    subst hm
    exact id
  have r5 := r4.step (e := .poll 0 3 (.ok "1")) (by rintro next ⟨⟩; exact ⟨fun _ => hkept, nofun⟩)
    rfl
  have r6 := r5.step (e := .poll 0 3 (.ok "")) (by rintro next ⟨⟩; exact ⟨nofun, nofun⟩) rfl
  have hleaves : Leaves 0 3 (.read 0 3 (.current_user "alice") :: gate ++ [.set 0 3 alice]) := by
    intro t' a ha
    have hm := holder_mem ha
    simp only [gate, List.mem_append, List.mem_cons, reduceCtorEq, List.not_mem_nil, or_false,
      false_or, Mark.set.injEq] at hm
    exact hm.2.1
  have r7 := r6.step (e := .poll 0 3 (.ok ""))
    (by rintro next ⟨⟩; exact ⟨fun h => absurd rfl h, fun _ => hleaves⟩) rfl
  exact ⟨_, _, r7, by decide, by decide, requests_see_themselves r7⟩

/-- Two statements on one thread: the first is recorded under the user of the second. -/
theorem statement_recorded_under_another_user :
    ¬ ∀ (cluster : Bool) (endpoint : Request → Code) (h : History Sys Event) (s : Sys),
      Run (step cluster endpoint) (fun _ _ _ => True) Sys.Initial h s →
        ∀ u ∈ h.states s, u.Separate := by
  intro hall
  have r0 : Run (step false console) (fun _ _ _ => True) Sys.Initial [] _ := .start rfl
  have r1 := r0.step (e := .connect (statement "alice")) trivial rfl
  have r2 := r1.step (e := .connect (statement "bob")) trivial rfl
  have r3 := r2.step (e := .poll 0 3 (.ok "")) trivial rfl
  have r4 := r3.step (e := .poll 0 3 (.ok "POST /api/rds/query")) trivial rfl
  have r5 := r4.step (e := .poll 0 3 (.ok "")) trivial rfl
  -- while the first statement runs, the second request sets its session on the thread
  have r6 := r5.step (e := .poll 1 3 (.ok "")) trivial rfl
  have r7 := r6.step (e := .poll 1 3 (.ok "POST /api/rds/query")) trivial rfl
  have r8 := r7.step (e := .poll 0 3 (.ok "1")) trivial rfl
  have hown := (hall _ _ _ _ r8 _ (History.mem_states.2 (.inl rfl))).own 0 3
    { user := "alice", perms := ["instances.query"] }
    3 (.current_user "bob") (by decide) (by decide)
  exact absurd hown (by decide)

end Rdsctl.Http
