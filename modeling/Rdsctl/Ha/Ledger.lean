import Rdsctl.Ha.Steps

/-!
# The steps of a task

`steps_of` of `src/ha/state.rs` lists the records whose key starts with the escaped task and a bar. A
bar of a name is doubled, so this text is also where the key of a task starts whose name goes on with
a bar. `listsExactly_iff` says which tasks are taken for one another.
-/

namespace Rdsctl.Ha

/-- The records of a task. -/
def StateMachine.stepsOf (sm : StateMachine) (taskId : String) : List (String × StepRecord) :=
  sm.steps.toList.filter fun p => (escBar taskId ++ "|").toList.isPrefixOf p.1.toList

/-- The step whose op has created the record under a key. -/
def created (log : List ApplyCall) (k : String) : Option StepId :=
  log.findSome? fun a => a.op.stepId.filter fun q => decide (q.key = k)

/-- `steps_of` returns the records that steps of the task have created, and no others. -/
def ListsExactly (sm : StateMachine) (log : List ApplyCall) (taskId : String) : Prop :=
  ∀ k r, (k, r) ∈ sm.stepsOf taskId ↔
    sm.steps[k]? = some r ∧ ∃ q, created log k = some q ∧ q.taskId = taskId

/-- The step is of another task, but its key starts as if it were of this one: the name of its task
goes on with a bar where the other ends, or the other way round, and then the node goes on with what is
left of that name. -/
def Confused (taskId : String) (q : StepId) : Prop :=
  (∃ u, q.taskId = taskId ++ "|" ++ u) ∨
    ∃ u, taskId = q.taskId ++ "|" ++ u ∧ ("|" ++ escBar u ++ "|").toList <+:
      (escBar q.node ++ "|" ++ toString q.step.toNat ++ "|" ++ escBar q.idemKey).toList

/-! ## Keys that start alike -/

/-- Where an escaped name with a bar after it is the beginning of another one with more. -/
theorem escaped_prefix_iff {a b rest : List Char} :
    escaped a ++ ['|'] <+: escaped b ++ '|' :: rest ↔
      a = b ∨ (∃ u, b = a ++ '|' :: u) ∨
        ∃ u, a = b ++ '|' :: u ∧ '|' :: (escaped u ++ ['|']) <+: rest := by
  induction a generalizing b with
  | nil =>
    cases b with
    | nil => simp [escaped_nil]
    | cons x xs =>
      rcases eq_or_ne x '|' with rfl | hx
      · simp [escaped_nil, escaped_bar]
      · simp [escaped_nil, escaped_cons hx, hx, hx.symm]
  | cons y ys ih =>
    cases b with
    | nil =>
      rcases eq_or_ne y '|' with rfl | hy
      · simp [escaped_nil, escaped_bar]
      · simp [escaped_nil, escaped_cons hy, hy]
    | cons x xs =>
      rcases eq_or_ne y '|' with rfl | hy
      · rcases eq_or_ne x '|' with rfl | hx
        · simp only [escaped_bar, List.cons_append, List.cons_prefix_cons, true_and, ih,
            List.cons.injEq]
        · simp [escaped_bar, escaped_cons hx, hx, hx.symm]
      · rcases eq_or_ne x '|' with rfl | hx
        · simp [escaped_bar, escaped_cons hy, hy, hy.symm]
        · rw [escaped_cons hx, escaped_cons hy]
          simp only [List.cons_append, List.cons_prefix_cons, ih, List.cons.injEq]
          constructor
          · rintro ⟨rfl, h | ⟨u, h⟩ | ⟨u, h, hu⟩⟩
            · exact .inl ⟨rfl, h⟩
            · exact .inr (.inl ⟨u, rfl, h⟩)
            · exact .inr (.inr ⟨u, ⟨rfl, h⟩, hu⟩)
          · rintro (⟨rfl, h⟩ | ⟨u, rfl, h⟩ | ⟨u, ⟨rfl, h⟩, hu⟩)
            · exact ⟨rfl, .inl h⟩
            · exact ⟨rfl, .inr (.inl ⟨u, h⟩)⟩
            · exact ⟨rfl, .inr (.inr ⟨u, h, hu⟩)⟩

theorem exists_string {p : List Char → Prop} : (∃ u : String, p u.toList) ↔ ∃ cs, p cs :=
  ⟨fun ⟨u, h⟩ => ⟨u.toList, h⟩, fun ⟨cs, h⟩ => ⟨.ofList cs, by rw [String.toList_ofList]; exact h⟩⟩

/-- The key of a step starts with a task exactly when it is a step of the task or is confused with
one. -/
theorem prefix_key_iff {taskId : String} {q : StepId} :
    (escBar taskId ++ "|").toList <+: q.key.toList ↔ q.taskId = taskId ∨ Confused taskId q := by
  have hpre : (escBar taskId ++ "|").toList = escaped taskId.toList ++ ['|'] := by
    simp [escBar, escaped]
  have hrest : (escBar q.node ++ "|" ++ toString q.step.toNat ++ "|" ++ escBar q.idemKey).toList =
      escaped q.node.toList ++ '|' :: (Nat.toDigits 10 q.step.toNat ++
        '|' :: escaped q.idemKey.toList) := by
    simp [escBar, escaped]
  rw [hpre, q.key_toList, escaped_prefix_iff, Confused, hrest]
  refine or_congr ?_ (or_congr ?_ ?_)
  · rw [String.toList_inj, eq_comm]
  · rw [← exists_string]
    simp [← String.toList_inj]
  · rw [← exists_string]
    simp [← String.toList_inj, escBar, escaped]

/-! ## The records of a log -/

namespace StateMachine

variable {sm : StateMachine} {a : ApplyCall} {log : List ApplyCall}

/-- A record stays, and an op of a step leaves one. -/
theorem steps_after (sm : StateMachine) (a : ApplyCall) (k : String) :
    (sm.after a).steps[k]?.isSome =
      (sm.steps[k]?.isSome || (a.op.stepId.filter fun q => decide (q.key = k)).isSome) := by
  have hafter : (sm.after a).steps = (sm.applyInner a.term a.index a.op).2.steps := rfl
  rw [hafter]
  cases hop : a.op with
  | stepBegin taskId node step idemKey =>
    simp only [applyInner, applyStepBegin, Op.stepId, Option.filter_some, StepId.key]
    rcases eq_or_ne (stepKey taskId node step idemKey) k with rfl | hk
    · rcases hold : sm.steps[stepKey taskId node step idemKey]? with _ | r
      · simp
      · rcases eq_or_ne r.state .done with hr | hr <;> simp [hr, hold]
    · rcases sm.steps[stepKey taskId node step idemKey]? with _ | r
      · simp [BTreeMap.getElem?_insert_ite, hk]
      · rcases eq_or_ne r.state .done with hr | hr <;>
          simp [hr, BTreeMap.getElem?_insert_ite, hk]
  | stepDone taskId node step idemKey result =>
    simp only [applyInner, applyStepDone, Op.stepId, Option.filter_some, StepId.key]
    rcases eq_or_ne (stepKey taskId node step idemKey) k with rfl | hk
    · rcases hold : sm.steps[stepKey taskId node step idemKey]? with _ | r
      · simp
      · rcases eq_or_ne r.state .done with hr | hr <;> simp [hr, hold]
    · rcases sm.steps[stepKey taskId node step idemKey]? with _ | r
      · simp [BTreeMap.getElem?_insert_ite, hk]
      · rcases eq_or_ne r.state .done with hr | hr <;>
          simp [hr, BTreeMap.getElem?_insert_ite, hk]
  | _ =>
    simp only [applyInner, applyPut, applyDelete, applyConfigSet, applyLeaseGrant, applyLeaseRenew,
      applyLeaseRelease, applyAuditAppend, Op.stepId, Option.filter_none, Option.isSome_none,
      Bool.or_false]
    all_goals (repeat' split) <;> rfl

/-- The ledger of a log has a record under every key of its steps. -/
theorem steps_afterAll (shard maxSkewMs : Nat) (log : List ApplyCall) (k : String) :
    ((StateMachine.new shard maxSkewMs).afterAll log).steps[k]?.isSome = (created log k).isSome := by
  induction log using List.reverseRecOn with
  | nil => simp [afterAll, new, created]
  | append_singleton log a ih =>
    have hsnoc : created (log ++ [a]) k =
        (created log k).or (a.op.stepId.filter fun q => decide (q.key = k)) := by
      simp [created, List.findSome?_append]
    rw [afterAll_concat, steps_after, ih, hsnoc, Option.isSome_or]

theorem mem_stepsOf {taskId k : String} {r : StepRecord} :
    (k, r) ∈ sm.stepsOf taskId ↔
      sm.steps[k]? = some r ∧ (escBar taskId ++ "|").toList <+: k.toList := by
  rw [stepsOf, List.mem_filter, Std.ExtTreeMap.mem_toList_iff_getElem?_eq_some,
    List.isPrefixOf_iff_prefix]

end StateMachine

variable {log : List ApplyCall} {taskId k : String} {q : StepId}

theorem key_of_created (h : created log k = some q) : q.key = k := by
  obtain ⟨a, -, hf⟩ := List.exists_of_findSome?_eq_some h
  exact of_decide_eq_true (Option.filter_eq_some_iff.1 hf).2

theorem ne_append_bar (t u : String) : t ≠ t ++ "|" ++ u := fun h => by
  have hlen := congrArg String.length h
  have hbar : "|".length = 1 := rfl
  rw [String.length_append, String.length_append, hbar] at hlen
  omega

theorem not_confused_self : ¬Confused q.taskId q := by
  rintro (⟨u, hu⟩ | ⟨u, hu, -⟩) <;> exact ne_append_bar _ u hu

/-- The steps of a task are listed exactly when no step of another one, the first with its key, is
confused with it. -/
theorem listsExactly_iff (shard maxSkewMs : Nat) (log : List ApplyCall) (taskId : String) :
    ListsExactly ((StateMachine.new shard maxSkewMs).afterAll log) log taskId ↔
      ∀ k q, created log k = some q → ¬Confused taskId q := by
  constructor
  · intro hexact k q hq hc
    have hsome := StateMachine.steps_afterAll shard maxSkewMs log k
    rw [hq, Option.isSome_some] at hsome
    obtain ⟨r, hr⟩ := Option.isSome_iff_exists.1 hsome
    have hpre : (escBar taskId ++ "|").toList <+: k.toList := by
      rw [← key_of_created hq]
      exact prefix_key_iff.2 (.inr hc)
    obtain ⟨-, q', hq', rfl⟩ := (hexact k r).1 (StateMachine.mem_stepsOf.2 ⟨hr, hpre⟩)
    obtain rfl := Option.some.inj (hq.symm.trans hq')
    exact not_confused_self hc
  · intro hnone k r
    rw [StateMachine.mem_stepsOf]
    refine and_congr_right fun hr => ?_
    have hsome := StateMachine.steps_afterAll shard maxSkewMs log k
    rw [hr, Option.isSome_some] at hsome
    obtain ⟨q, hq⟩ := Option.isSome_iff_exists.1 hsome.symm
    constructor
    · intro hpre
      rw [← key_of_created hq, prefix_key_iff] at hpre
      exact ⟨q, hq, hpre.resolve_right (hnone k q hq)⟩
    · rintro ⟨q', hq', rfl⟩
      rw [← key_of_created hq']
      exact prefix_key_iff.2 (.inl rfl)

/-- The steps of the task `a|b` are listed with those of `a`. -/
theorem step_of_other_task :
    ¬∀ shard maxSkewMs log taskId,
      ListsExactly ((StateMachine.new shard maxSkewMs).afterAll log) log taskId := by
  intro hall
  let begun : ApplyCall := ⟨1, 1, .stepBegin "a|b" "n" 1 "k"⟩
  have hcreated : created [begun] (⟨"a|b", "n", 1, "k"⟩ : StepId).key = some ⟨"a|b", "n", 1, "k"⟩ := by
    simp [created, begun, Op.stepId, Option.filter]
  have hsome := StateMachine.steps_afterAll 0 1000 [begun] (⟨"a|b", "n", 1, "k"⟩ : StepId).key
  rw [hcreated, Option.isSome_some] at hsome
  obtain ⟨r, hr⟩ := Option.isSome_iff_exists.1 hsome
  have hpre : (escBar "a" ++ "|").toList <+: (⟨"a|b", "n", 1, "k"⟩ : StepId).key.toList := by
    decide +kernel
  obtain ⟨-, q, hq, htask⟩ :=
    (hall 0 1000 [begun] "a" _ r).1 (StateMachine.mem_stepsOf.2 ⟨hr, hpre⟩)
  obtain rfl := Option.some.inj (hcreated.symm.trans hq)
  exact absurd htask (by decide)

end Rdsctl.Ha
