import Rdsctl.Dag.Wave

/-!
# A task while it runs

`execute` and `run_node` one move at a time: a wave is spawned, its nodes begin their steps and get
their answers in any order, nodes that have ended are joined, and the loop goes round. Between the
moves anybody else may act. What matters here is which steps a task may still begin.
-/

namespace Rdsctl.Dag

/-- Where a spawned node stands. A step that is in flight has a mark that was made when it began. -/
inductive Place
  | between (attempt idx : Nat)
  | inside (attempt idx : Nat) (mark : Bool)
  /-- ended, with the result of `run_node`, or none when it panicked -/
  | ended (out : Option (Except String String × Nat))

/-- A node of the present wave. -/
structure Spawned (Step : Type) where
  node : TaskNode Step
  logs : List String
  place : Place

/-- A task with the variables of `execute`. -/
structure Live (Step : Type) where
  nodes : List (TaskNode Step)
  exec : Exec Step
  wave : List (Spawned Step)
  canceled : Bool
  status : TaskStatus

/-- A move of a task, other than the beginning of a step. -/
inductive Move
  /-- `execute` begins with the search for a cycle -/
  | start
  | cancel
  /-- a wave; a cancellation may come before the node at some place is spawned -/
  | spawn (canceledFrom : Option Nat)
  /-- the step in flight ends, by itself or because the time of the node is over -/
  | answer (k : Nat) (reply : Except String String)
  /-- the last step has ended -/
  | leave (k : Nat)
  | panic (k : Nat)
  | join (k : Nat)
  /-- the loop ends -/
  | close

variable {Step : Type}

/-- What `settle` does with the result of a node. -/
def settleWith (nodes : List (TaskNode Step)) (st : Exec Step) (n : TaskNode Step) :
    Option (Except String String × Nat) → Exec Step
  | none =>
    { st with
      failed := true
      results := insertResult st.results "__panic__" ⟨.failed, "节点执行异常: panic", 0⟩ }
  | some out =>
    let r := resultOf out
    let st := { st with
      failed := st.failed || r.status = .failed
      results := insertResult st.results n.id r
      trace := st.trace ++ persistById nodes n.id r }
    (dependents nodes n.id).foldl (release nodes) st

theorem settle_eq (env : Env Step) (task : TaskInfo) (nodes : List (TaskNode Step)) (wave : Nat)
    (st : Exec Step) (n : TaskNode Step) :
    settle env task nodes wave st n = settleWith nodes st n (outcome env task wave n) := by
  unfold settle settleWith
  cases outcome env task wave n <;> rfl

/-- The task is over for whoever asks the scheduler. -/
def TaskStatus.terminal : TaskStatus → Bool
  | .success | .failed => true
  | _ => false

namespace Spawned

/-- A node that was just spawned. -/
def fresh (canceledFrom : Option Nat) (p : TaskNode Step × Nat) : Spawned Step :=
  ⟨p.1, [], if canceledFrom.any (· ≤ p.2) then .ended (some (.error "任务已取消", 0)) else .between 1 0⟩

/-- The next step begins. -/
def begin (s : Spawned Step) (mark : Bool) : Option (Spawned Step) :=
  match s.place with
  | .between attempt idx =>
    if idx < s.node.steps.length then some { s with place := .inside attempt idx mark } else none
  | _ => none

/-- The step in flight ends. After an error the steps are attempted once more, or the node ends. -/
def answer (s : Spawned Step) (reply : Except String String) : Option (Spawned Step) :=
  match s.place with
  | .inside attempt idx _ =>
    match reply with
    | .ok o => some { s with logs := s.logs ++ [o], place := .between attempt (idx + 1) }
    | .error e =>
      if attempt ≤ s.node.retries then some { s with logs := [], place := .between (attempt + 1) 0 }
      else some { s with
        place := .ended (some (.error (failureOutput s.logs attempt e), attempt)) }
  | _ => none

/-- The node ends when its steps have. -/
def leave (s : Spawned Step) : Option (Spawned Step) :=
  match s.place with
  | .between attempt idx =>
    if idx < s.node.steps.length then none
    else some { s with place := .ended (some (.ok ("\n".intercalate s.logs), attempt)) }
  | _ => none

def panic (s : Spawned Step) : Option (Spawned Step) :=
  match s.place with
  | .ended _ => none
  | _ => some { s with place := .ended none }

/-- The result of a node that has ended. -/
def result (s : Spawned Step) : Option (Option (Except String String × Nat)) :=
  match s.place with
  | .ended out => some out
  | _ => none

/-- The node has ended, and the task fails. -/
def failing (s : Spawned Step) : Bool :=
  match s.place with
  | .ended none => true
  | .ended (some out) => (resultOf out).status = .failed
  | _ => false

/-- A step of the kind may still begin. -/
def mayBegin (kind : Step → Bool) (s : Spawned Step) : Bool :=
  match s.place with
  | .between attempt idx =>
    (s.node.steps.drop idx).any kind ||
      decide (attempt ≤ s.node.retries) && decide (idx < s.node.steps.length) && s.node.steps.any kind
  | .inside attempt idx _ =>
    (s.node.steps.drop (idx + 1)).any kind ||
      decide (attempt ≤ s.node.retries) && s.node.steps.any kind
  | .ended _ => false

/-- The step in flight, with its mark. -/
def inFlight (s : Spawned Step) : Option (Step × Bool) :=
  match s.place with
  | .inside _ idx mark => (s.node.steps[idx]?).map fun step => (step, mark)
  | _ => none

/-- A step of the kind is in flight. -/
def inside (kind : Step → Bool) (s : Spawned Step) : Bool := s.inFlight.any fun f => kind f.1

/-- A step of the kind is in flight and has the mark. -/
def marked (kind : Step → Bool) (s : Spawned Step) : Bool := s.inFlight.any fun f => kind f.1 && f.2

end Spawned

namespace Live

/-- A task that was submitted. -/
def submitted (nodes : List (TaskNode Step)) : Live Step :=
  ⟨nodes, initExec (fun _ => none) nodes, [], false, .pending⟩

/-- One node of the wave moves. -/
def update (t : Live Step) (k : Nat) (f : Spawned Step → Option (Spawned Step)) :
    Option (Live Step) :=
  ((t.wave[k]?).bind f).map fun s => { t with wave := t.wave.set k s }

/-- The next step of a node of the wave begins. -/
def begin (t : Live Step) (k : Nat) (mark : Bool) : Option (Live Step) := t.update k (·.begin mark)

/-- A move. -/
def move (t : Live Step) : Move → Option (Live Step)
  | .start =>
    if t.status = .pending then
      match findCycle t.nodes with
      | some cycle =>
        some { t with exec := t.nodes.foldl (rejectCycle cycle) t.exec, status := .failed }
      | none => some { t with status := .running }
    else none
  | .cancel => some { t with canceled := true }
  | .spawn canceledFrom =>
    if t.status = .running ∧ t.wave = [] ∧ t.exec.ready ≠ [] ∧ t.exec.failed = false ∧
        t.canceled = false then
      some { t with
        exec := { t.exec with
          pending := t.exec.pending.filter (· ∉ t.exec.ready.map TaskNode.id)
          results := t.exec.ready.foldl (fun rs n => insertResult rs n.id ⟨.running, "", 0⟩)
            t.exec.results
          ready := [] }
        wave := t.exec.ready.zipIdx.map (Spawned.fresh canceledFrom)
        canceled := canceledFrom.isSome }
    else none
  | .answer k reply => t.update k (·.answer reply)
  | .leave k => t.update k (·.leave)
  | .panic k => t.update k (·.panic)
  | .join k =>
    (t.wave[k]?).bind fun s => s.result.map fun out =>
      { t with exec := settleWith t.nodes t.exec s.node out, wave := t.wave.eraseIdx k }
  | .close =>
    if t.status = .running ∧ t.wave = [] ∧
        (t.exec.failed = true ∨ t.exec.ready = [] ∨ t.canceled = true) then
      some { t with
        exec := if t.exec.failed then t.nodes.foldl skip t.exec else t.exec
        status := if t.exec.failed || t.canceled then .failed else .success }
    else none

/-- The nodes that wait for a wave. -/
def waiting (t : Live Step) : List (TaskNode Step) :=
  t.exec.ready ++ t.nodes.filter fun n => n.id ∈ t.exec.pending

/-- No further wave comes: the task is over or canceled, or a node has failed. -/
def stops (t : Live Step) : Bool :=
  t.status.terminal || t.canceled || t.exec.failed || t.wave.any Spawned.failing

/-- A step of the kind may still begin. -/
def mayBegin (kind : Step → Bool) (t : Live Step) : Bool :=
  t.wave.any (Spawned.mayBegin kind) || !t.stops && t.waiting.any fun n => n.steps.any kind

/-- A step of the kind is in flight. -/
def inside (kind : Step → Bool) (t : Live Step) : Bool := t.wave.any (Spawned.inside kind)

/-- A step of the kind is in flight and has the mark. -/
def marked (kind : Step → Bool) (t : Live Step) : Bool := t.wave.any (Spawned.marked kind)

end Live

/-! ## What a move leaves to begin -/

section

variable {kind : Step → Bool} {s s' : Spawned Step} {t t' : Live Step}

namespace Spawned

/-- A node goes on: it had not ended, and no step of the kind comes up that might not have begun
before. -/
structure Goes (kind : Step → Bool) (s s' : Spawned Step) : Prop where
  running : s.failing = false
  left : s'.mayBegin kind = true → s.mayBegin kind = true

theorem begin_goes {mark : Bool} (h : s.begin mark = some s') : s.Goes kind s' := by
  unfold begin at h
  split at h
  · next attempt idx hplace =>
    split at h
    · next hidx =>
      cases h
      refine ⟨by simp [failing, hplace], fun hleft => ?_⟩
      simp only [mayBegin, hplace, Bool.or_eq_true, Bool.and_eq_true, decide_eq_true_eq] at hleft ⊢
      rcases hleft with hdrop | ⟨hretry, hany⟩
      · refine .inl ?_
        rw [List.drop_eq_getElem_cons hidx, List.any_cons, hdrop, Bool.or_true]
      · exact .inr ⟨⟨hretry, hidx⟩, hany⟩
    · cases h
  · cases h

theorem answer_goes {reply : Except String String} (h : s.answer reply = some s') :
    s.Goes kind s' := by
  unfold answer at h
  split at h
  · next attempt idx mark hplace =>
    refine ⟨by simp [failing, hplace], fun hleft => ?_⟩
    cases reply with
    | ok o =>
      cases h
      simp only [mayBegin, hplace, Bool.or_eq_true, Bool.and_eq_true, decide_eq_true_eq] at hleft ⊢
      rcases hleft with hdrop | ⟨⟨hretry, -⟩, hany⟩
      · exact .inl hdrop
      · exact .inr ⟨hretry, hany⟩
    | error e =>
      dsimp only at h
      split at h
      · next hretry =>
        cases h
        simp only [mayBegin, hplace, List.drop_zero, Bool.or_eq_true, Bool.and_eq_true,
          decide_eq_true_eq] at hleft ⊢
        rcases hleft with hany | ⟨-, hany⟩ <;> exact .inr ⟨hretry, hany⟩
      · cases h
        simp [mayBegin] at hleft
  · cases h

theorem leave_goes (h : s.leave = some s') : s.Goes kind s' := by
  unfold leave at h
  split at h
  · next attempt idx hplace =>
    split at h
    · cases h
    · cases h
      exact ⟨by simp [failing, hplace], fun hleft => by simp [mayBegin] at hleft⟩
  · cases h

theorem panic_goes (h : s.panic = some s') : s.Goes kind s' := by
  unfold panic at h
  split at h
  · cases h
  · next hplace =>
    cases h
    refine ⟨?_, fun hleft => by simp [mayBegin] at hleft⟩
    unfold failing
    split
    · next hp => exact absurd hp (hplace _)
    · next hp => exact absurd hp (hplace _)
    · rfl

/-- The step that begins might have begun. -/
theorem mayBegin_of_begin {mark : Bool} (h : s.begin mark = some s')
    (hin : s'.inside kind = true) : s.mayBegin kind = true := by
  unfold begin at h
  split at h
  · next attempt idx hplace =>
    split at h
    · next hidx =>
      cases h
      simp only [inside, inFlight, List.getElem?_eq_getElem hidx, Option.map_some,
        Option.any_some] at hin
      simp only [mayBegin, hplace, Bool.or_eq_true]
      refine .inl ?_
      rw [List.drop_eq_getElem_cons hidx, List.any_cons, hin, Bool.true_or]
    · cases h
  · cases h

/-- A step that begins has the mark that it is given. -/
theorem marked_of_begin (h : s.begin false = some s') : s'.marked kind = false := by
  unfold begin at h
  split at h
  · next attempt idx hplace =>
    split at h
    · next hidx =>
      cases h
      simp [marked, inFlight, List.getElem?_eq_getElem hidx]
    · cases h
  · cases h

theorem inside_of_marked (h : s.marked kind = true) : s.inside kind = true := by
  obtain ⟨f, hf, hk⟩ := (Option.any_eq_true _ _).1 h
  exact (Option.any_eq_true _ _).2 ⟨f, hf, (Bool.and_eq_true_iff.1 hk).1⟩

/-- No step is in flight after an answer, at the end of a node, or when it is spawned. -/
theorem inFlight_answer {reply : Except String String} (h : s.answer reply = some s') :
    s'.inFlight = none := by
  unfold answer at h
  split at h
  · cases reply with
    | ok o =>
      cases h
      rfl
    | error e =>
      dsimp only at h
      split at h <;>
      · cases h
        rfl
  · cases h

theorem inFlight_leave (h : s.leave = some s') : s'.inFlight = none := by
  unfold leave at h
  split at h
  · split at h
    · cases h
    · cases h
      rfl
  · cases h

theorem inFlight_panic (h : s.panic = some s') : s'.inFlight = none := by
  unfold panic at h
  split at h
  · cases h
  · cases h
    rfl

/-- A node that was just spawned has begun no step. -/
theorem fresh_cases (canceledFrom : Option Nat) (p : TaskNode Step × Nat) :
    fresh canceledFrom p = ⟨p.1, [], .ended (some (.error "任务已取消", 0))⟩ ∨
      fresh canceledFrom p = ⟨p.1, [], .between 1 0⟩ := by
  unfold fresh
  split
  · exact .inl rfl
  · exact .inr rfl

theorem inFlight_fresh (canceledFrom : Option Nat) (p : TaskNode Step × Nat) :
    (fresh canceledFrom p).inFlight = none := by
  rcases fresh_cases canceledFrom p with h | h <;>
  · rw [h]
    rfl

theorem mayBegin_fresh {canceledFrom : Option Nat} {p : TaskNode Step × Nat}
    (h : (fresh canceledFrom p).mayBegin kind = true) : p.1.steps.any kind = true := by
  rcases fresh_cases canceledFrom p with hfresh | hfresh
  · rw [hfresh] at h
    cases h
  · rw [hfresh] at h
    simp only [mayBegin, List.drop_zero, Bool.or_eq_true, Bool.and_eq_true] at h
    rcases h with hany | ⟨-, hany⟩ <;> exact hany

end Spawned

/-! ## What a move of the task leaves -/

/-- A node that gets ready was waiting. -/
theorem mem_ready_release {nodes : List (TaskNode Step)} {st : Exec Step} {ds : List String}
    {n : TaskNode Step} (h : n ∈ (ds.foldl (release nodes) st).ready) :
    n ∈ st.ready ∨ n ∈ nodes ∧ n.id ∈ st.pending := by
  induction ds generalizing st with
  | nil => exact .inl h
  | cons d ds ih =>
    have hpending : (release nodes st d).pending = st.pending := (release_frame nodes st [d]).2.2.2
    have hone : n ∈ (release nodes st d).ready → n ∈ st.ready ∨ n ∈ nodes ∧ n.id ∈ st.pending := by
      unfold release
      dsimp only
      split
      · next hc =>
        split
        · next m hm =>
          intro hmem
          rcases List.mem_append.1 hmem with hmem | hmem
          · exact .inl hmem
          · rw [List.mem_singleton.1 hmem]
            have hfind : nodes.reverse.find? (fun n => decide (n.id = d)) = some m := hm
            have hid : m.id = d := by simpa using List.find?_some hfind
            exact .inr ⟨List.mem_reverse.1 (List.mem_of_find?_eq_some hfind), hid ▸ hc.2⟩
        · exact .inl
      · exact .inl
    rcases ih h with hready | hwaits
    · exact hone hready
    · exact .inr (hpending ▸ hwaits)

/-- A node that is joined keeps the task going only if it has not failed. -/
theorem settleWith_frame (nodes : List (TaskNode Step)) (st : Exec Step) (n : TaskNode Step)
    (out : Option (Except String String × Nat)) :
    (settleWith nodes st n out).pending = st.pending ∧
      (st.failed = true → (settleWith nodes st n out).failed = true) ∧
      ∀ m ∈ (settleWith nodes st n out).ready, m ∈ st.ready ∨ m ∈ nodes ∧ m.id ∈ st.pending := by
  cases out with
  | none => exact ⟨rfl, fun _ => rfl, fun m hm => .inl hm⟩
  | some out =>
    unfold settleWith
    dsimp only
    obtain ⟨-, -, hfailed, hpending⟩ := release_frame nodes { st with
      failed := st.failed || (resultOf out).status = .failed
      results := insertResult st.results n.id (resultOf out)
      trace := st.trace ++ persistById nodes n.id (resultOf out) } (dependents nodes n.id)
    refine ⟨hpending, fun hf => ?_, fun m hm => ?_⟩
    · rw [hfailed, hf, Bool.true_or]
    · have hwaits := mem_ready_release hm
      exact hwaits

theorem failed_settleWith {nodes : List (TaskNode Step)} {st : Exec Step} {n : TaskNode Step}
    {out : Option (Except String String × Nat)} (hres : s.result = some out)
    (hf : s.failing = true) : (settleWith nodes st n out).failed = true := by
  have hplace : s.place = .ended out := by
    unfold Spawned.result at hres
    split at hres
    · next hplace =>
      cases hres
      exact hplace
    · cases hres
  unfold Spawned.failing at hf
  rw [hplace] at hf
  cases out with
  | none => rfl
  | some out =>
    unfold settleWith
    dsimp only
    rw [(release_frame nodes _ _).2.2.1]
    dsimp only
    rw [show decide ((resultOf out).status = .failed) = true from hf, Bool.or_true]

namespace Live

theorem update_eq_some {k : Nat} {f : Spawned Step → Option (Spawned Step)}
    (h : t.update k f = some t') : ∃ s s', t.wave[k]? = some s ∧ f s = some s' ∧
      t' = { t with wave := t.wave.set k s' } := by
  obtain ⟨s', hs', rfl⟩ := Option.map_eq_some_iff.1 h
  obtain ⟨s, hs, hf⟩ := Option.bind_eq_some_iff.1 hs'
  exact ⟨s, s', hs, hf, rfl⟩

/-- Something about one node of a wave that moves. -/
theorem any_set {p : Spawned Step → Bool} {wave : List (Spawned Step)} {k : Nat}
    (h : (wave.set k s').any p = true) : p s' = true ∨ wave.any p = true := by
  obtain ⟨s₀, hmem, hp⟩ := List.any_eq_true.1 h
  rcases List.mem_or_eq_of_mem_set hmem with hmem | rfl
  · exact .inr (List.any_eq_true.2 ⟨s₀, hmem, hp⟩)
  · exact .inl hp

theorem any_eraseIdx {p : Spawned Step → Bool} {wave : List (Spawned Step)} {k : Nat}
    (h : (wave.eraseIdx k).any p = true) : wave.any p = true := by
  obtain ⟨s₀, hmem, hp⟩ := List.any_eq_true.1 h
  exact List.any_eq_true.2 ⟨s₀, List.mem_of_mem_eraseIdx hmem, hp⟩

/-- A step may still begin in the wave, or in a further one. -/
theorem mayBegin_iff : t.mayBegin kind = true ↔ t.wave.any (Spawned.mayBegin kind) = true ∨
    t.stops = false ∧ ∃ n ∈ t.waiting, n.steps.any kind = true := by
  unfold mayBegin
  rw [Bool.or_eq_true, Bool.and_eq_true, Bool.not_eq_true', List.any_eq_true (l := t.waiting)]

theorem stops_eq_false : t.stops = false ↔ t.status.terminal = false ∧ t.canceled = false ∧
    t.exec.failed = false ∧ ∀ s ∈ t.wave, s.failing = false := by
  unfold stops
  rw [Bool.or_eq_false_iff, Bool.or_eq_false_iff, Bool.or_eq_false_iff, List.any_eq_false, and_assoc,
    and_assoc]
  simp only [Bool.not_eq_true]

/-- One node goes on. -/
theorem mayBegin_update {k : Nat} (hs : t.wave[k]? = some s) (hgoes : s.Goes kind s')
    (hleft : mayBegin kind { t with wave := t.wave.set k s' } = true) : t.mayBegin kind = true := by
  rcases mayBegin_iff.1 hleft with hwave | ⟨hgoing, hwaits⟩
  · rcases any_set hwave with hs' | hwave
    · exact mayBegin_iff.2 (.inl (List.any_eq_true.2 ⟨s, List.mem_of_getElem? hs, hgoes.left hs'⟩))
    · exact mayBegin_iff.2 (.inl hwave)
  · obtain ⟨hstatus, hcanceled, hgood, hwave⟩ := stops_eq_false.1 hgoing
    refine mayBegin_iff.2 (.inr ⟨stops_eq_false.2 ⟨hstatus, hcanceled, hgood, fun s₀ hmem => ?_⟩, hwaits⟩)
    obtain ⟨j, hj⟩ := List.getElem?_of_mem hmem
    rcases eq_or_ne j k with rfl | hjk
    · rw [hs] at hj
      cases hj
      exact hgoes.running
    · refine hwave s₀ (List.mem_of_getElem? (i := j) ?_)
      rw [List.getElem?_set_ne hjk.symm, hj]

/-- What may begin after a wave was spawned might have begun in it. -/
theorem mayBegin_spawn {canceledFrom : Option Nat} (h : t.move (.spawn canceledFrom) = some t')
    (hleft : t'.mayBegin kind = true) : t.mayBegin kind = true := by
  simp only [move] at h
  split at h
  · next hc =>
    obtain ⟨hstatus, hwave, -, hgood, hcanceled⟩ := hc
    cases h
    have hgoing : t.stops = false := by
      refine stops_eq_false.2 ⟨by rw [hstatus]; rfl, hcanceled, hgood, fun s hs => ?_⟩
      rw [hwave] at hs
      cases hs
    rcases mayBegin_iff.1 hleft with hspawned | ⟨-, n, hn, hk⟩
    · obtain ⟨s, hs, hany⟩ := List.any_eq_true.1 hspawned
      obtain ⟨p, hp, rfl⟩ := List.mem_map.1 hs
      exact mayBegin_iff.2 (.inr ⟨hgoing, p.1,
        List.mem_append_left _ (List.fst_mem_of_mem_zipIdx hp), Spawned.mayBegin_fresh hany⟩)
    · obtain ⟨hn, hpending⟩ := List.mem_filter.1 hn
      have hid := List.mem_of_mem_filter (of_decide_eq_true hpending)
      exact mayBegin_iff.2 (.inr ⟨hgoing, n,
        List.mem_append_right _ (List.mem_filter.2 ⟨hn, decide_eq_true hid⟩), hk⟩)
  · cases h

/-- What may begin after a node was joined might have begun before. -/
theorem mayBegin_join {k : Nat} (h : t.move (.join k) = some t') (hleft : t'.mayBegin kind = true) :
    t.mayBegin kind = true := by
  obtain ⟨s, hs, hjoin⟩ := Option.bind_eq_some_iff.1 h
  obtain ⟨out, hres, rfl⟩ := Option.map_eq_some_iff.1 hjoin
  obtain ⟨hpending, hfailed, hready⟩ := settleWith_frame t.nodes t.exec s.node out
  rcases mayBegin_iff.1 hleft with hwave | ⟨hgoing, n, hn, hk⟩
  · exact mayBegin_iff.2 (.inl (any_eraseIdx hwave))
  obtain ⟨hstatus, hcanceled, hgood, hwave⟩ := stops_eq_false.1 hgoing
  refine mayBegin_iff.2 (.inr ⟨stops_eq_false.2 ⟨hstatus, hcanceled, ?_, fun s₀ hmem => ?_⟩, n, ?_, hk⟩)
  · refine Bool.eq_false_iff.2 fun hf => ?_
    rw [hfailed hf] at hgood
    cases hgood
  · obtain ⟨j, hj⟩ := List.getElem?_of_mem hmem
    rcases eq_or_ne j k with rfl | hjk
    · rw [hs] at hj
      cases hj
      refine Bool.eq_false_iff.2 fun hfail => ?_
      rw [failed_settleWith hres hfail] at hgood
      cases hgood
    · exact hwave s₀ (List.mem_eraseIdx_iff_getElem?.2 ⟨j, hjk, hj⟩)
  · rcases List.mem_append.1 hn with hn | hn
    · rcases hready n hn with hn | ⟨hn, hid⟩
      · exact List.mem_append_left _ hn
      · exact List.mem_append_right _ (List.mem_filter.2 ⟨hn, decide_eq_true hid⟩)
    · obtain ⟨hn, hid⟩ := List.mem_filter.1 hn
      rw [hpending] at hid
      exact List.mem_append_right _ (List.mem_filter.2 ⟨hn, hid⟩)

/-- **No step comes up.** What may begin after a move might have begun before it. -/
theorem mayBegin_move {m : Move} (h : t.move m = some t') (hleft : t'.mayBegin kind = true) :
    t.mayBegin kind = true := by
  cases m with
  | start =>
    simp only [move] at h
    split at h
    · next hpending =>
      split at h
      · cases h
        rcases mayBegin_iff.1 hleft with hwave | ⟨hgoing, -⟩
        · exact mayBegin_iff.2 (.inl hwave)
        · cases (stops_eq_false.1 hgoing).1
      · cases h
        unfold mayBegin stops at hleft ⊢
        rw [hpending]
        exact hleft
    · cases h
  | cancel =>
    cases h
    rcases mayBegin_iff.1 hleft with hwave | ⟨hgoing, -⟩
    · exact mayBegin_iff.2 (.inl hwave)
    · cases (stops_eq_false.1 hgoing).2.1
  | spawn canceledFrom => exact mayBegin_spawn h hleft
  | answer k reply =>
    obtain ⟨s, s', hs, hf, rfl⟩ := update_eq_some h
    exact mayBegin_update hs (Spawned.answer_goes hf) hleft
  | leave k =>
    obtain ⟨s, s', hs, hf, rfl⟩ := update_eq_some h
    exact mayBegin_update hs (Spawned.leave_goes hf) hleft
  | panic k =>
    obtain ⟨s, s', hs, hf, rfl⟩ := update_eq_some h
    exact mayBegin_update hs (Spawned.panic_goes hf) hleft
  | join k => exact mayBegin_join h hleft
  | close =>
    simp only [move] at h
    split at h
    · next hc =>
      cases h
      rcases mayBegin_iff.1 hleft with hwave | ⟨hgoing, -⟩
      · exact mayBegin_iff.2 (.inl hwave)
      · have hover := (stops_eq_false.1 hgoing).1
        dsimp only at hover
        split at hover <;> cases hover
    · cases h

/-- What may begin after the beginning of a step might have begun before it. -/
theorem mayBegin_begin {k : Nat} {mark : Bool} (h : t.begin k mark = some t')
    (hleft : t'.mayBegin kind = true) : t.mayBegin kind = true := by
  obtain ⟨s, s', hs, hf, rfl⟩ := update_eq_some h
  exact mayBegin_update hs (Spawned.begin_goes hf) hleft

/-- Only the beginning of a step puts one in flight. -/
theorem inFlight_move {p : Step × Bool → Bool} {m : Move} (h : t.move m = some t')
    (hin : (t'.wave.any fun s => s.inFlight.any p) = true) :
    (t.wave.any fun s => s.inFlight.any p) = true := by
  have hupdate {k : Nat} {s' : Spawned Step} (hs' : s'.inFlight = none)
      (hany : ((t.wave.set k s').any fun s => s.inFlight.any p) = true) :
      (t.wave.any fun s => s.inFlight.any p) = true := by
    rcases any_set hany with hone | hany
    · rw [hs'] at hone
      cases hone
    · exact hany
  cases m with
  | start =>
    simp only [move] at h
    split at h
    · split at h <;>
      · cases h
        exact hin
    · cases h
  | cancel =>
    cases h
    exact hin
  | spawn canceledFrom =>
    simp only [move] at h
    split at h
    · cases h
      obtain ⟨s, hs, hany⟩ := List.any_eq_true.1 hin
      obtain ⟨q, -, rfl⟩ := List.mem_map.1 hs
      rw [Spawned.inFlight_fresh] at hany
      cases hany
    · cases h
  | answer k reply =>
    obtain ⟨s, s', hs, hf, rfl⟩ := update_eq_some h
    exact hupdate (Spawned.inFlight_answer hf) hin
  | leave k =>
    obtain ⟨s, s', hs, hf, rfl⟩ := update_eq_some h
    exact hupdate (Spawned.inFlight_leave hf) hin
  | panic k =>
    obtain ⟨s, s', hs, hf, rfl⟩ := update_eq_some h
    exact hupdate (Spawned.inFlight_panic hf) hin
  | join k =>
    obtain ⟨s, hs, hjoin⟩ := Option.bind_eq_some_iff.1 h
    obtain ⟨out, hres, rfl⟩ := Option.map_eq_some_iff.1 hjoin
    exact any_eraseIdx hin
  | close =>
    simp only [move] at h
    split at h
    · cases h
      exact hin
    · cases h

/-- A step that gets in flight might have begun. -/
theorem inside_begin {k : Nat} {mark : Bool} (h : t.begin k mark = some t')
    (hin : t'.inside kind = true) : t.inside kind = true ∨ t.mayBegin kind = true := by
  obtain ⟨s, s', hs, hf, rfl⟩ := update_eq_some h
  rcases any_set hin with hone | hany
  · refine .inr (mayBegin_iff.2 (.inl (List.any_eq_true.2 ⟨s, List.mem_of_getElem? hs, ?_⟩)))
    exact Spawned.mayBegin_of_begin hf hone
  · exact .inl hany

/-- A step gets the mark when it begins. -/
theorem marked_begin {k : Nat} {mark : Bool} (h : t.begin k mark = some t')
    (hin : t'.marked kind = true) :
    t.marked kind = true ∨ mark = true ∧ t.mayBegin kind = true := by
  obtain ⟨s, s', hs, hf, rfl⟩ := update_eq_some h
  rcases any_set hin with hone | hany
  · cases mark with
    | false =>
      rw [Spawned.marked_of_begin hf] at hone
      cases hone
    | true =>
      refine .inr ⟨rfl, mayBegin_iff.2 (.inl (List.any_eq_true.2 ⟨s, List.mem_of_getElem? hs, ?_⟩))⟩
      exact Spawned.mayBegin_of_begin hf (Spawned.inside_of_marked hone)
  · exact .inl hany

end Live

end

end Rdsctl.Dag
