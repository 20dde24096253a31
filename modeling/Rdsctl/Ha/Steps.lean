import Rdsctl.Ha.Text
import Rdsctl.Ha.Node

/-!
# The step ledger

A step is done once: a later `StepBegin` or `StepDone` of it is answered with the result of the
first `StepDone`. The ledger knows a step by `step_key`, in which a `|` of a name is doubled and a
single one separates the names. A node's name that starts with `|`, or is empty, runs into the
separator before it, so two steps may share a key; the ledger is right about a log exactly when no
two of its steps do.
-/

namespace Rdsctl.Ha

/-- What names a step. -/
structure StepId where
  taskId : String
  node : String
  step : UInt32
  idemKey : String
deriving DecidableEq, Repr

/-- Its key in the ledger. -/
def StepId.key (q : StepId) : String := stepKey q.taskId q.node q.step q.idemKey

/-- The step that a `StepBegin` or a `StepDone` names. -/
def Op.stepId : Op → Option StepId
  | .stepBegin taskId node step idemKey => some ⟨taskId, node, step, idemKey⟩
  | .stepDone taskId node step idemKey _ => some ⟨taskId, node, step, idemKey⟩
  | _ => none

/-- The step that a `StepDone` ends, and its result. -/
def Op.done : Op → Option (StepId × Value)
  | .stepDone taskId node step idemKey result => some (⟨taskId, node, step, idemKey⟩, result)
  | _ => none

theorem Op.stepId_of_done {op : Op} {q : StepId} {result : Value} (h : op.done = some (q, result)) :
    op.stepId = some q := by
  cases op <;> simp_all [Op.done, Op.stepId]

/-! ## The keys -/

/-- The characters of an escaped name. -/
def escaped (cs : List Char) : List Char := cs.flatMap fun c => if c = '|' then ['|', '|'] else [c]

theorem escaped_nil : escaped [] = [] := rfl

theorem escaped_bar (cs : List Char) : escaped ('|' :: cs) = '|' :: '|' :: escaped cs := rfl

theorem escaped_cons {c : Char} (hc : c ≠ '|') (cs : List Char) :
    escaped (c :: cs) = c :: escaped cs := by
  simp [escaped, hc]

/-- An escaped name ends at a single bar. -/
theorem escaped_split {a a' : List Char} {c c' : Char} {rest rest' : List Char} (hc : c ≠ '|')
    (hc' : c' ≠ '|')
    (h : escaped a ++ '|' :: c :: rest = escaped a' ++ '|' :: c' :: rest') :
    a = a' ∧ c :: rest = c' :: rest' := by
  induction a generalizing a' with
  | nil =>
    cases a' with
    | nil =>
      simp only [escaped_nil, List.nil_append, List.cons.injEq, true_and] at h
      exact ⟨rfl, by rw [h.1, h.2]⟩
    | cons x xs =>
      exfalso
      by_cases hx : x = '|'
      · subst hx
        simp only [escaped_bar, escaped_nil, List.nil_append, List.cons_append, List.cons.injEq,
          true_and] at h
        exact hc h.1
      · simp only [escaped_cons hx, escaped_nil, List.nil_append, List.cons_append,
          List.cons.injEq] at h
        exact hx h.1.symm
  | cons y ys ih =>
    cases a' with
    | nil =>
      exfalso
      by_cases hy : y = '|'
      · subst hy
        simp only [escaped_bar, escaped_nil, List.nil_append, List.cons_append, List.cons.injEq,
          true_and] at h
        exact hc' h.1.symm
      · simp only [escaped_cons hy, escaped_nil, List.nil_append, List.cons_append,
          List.cons.injEq] at h
        exact hy h.1
    | cons x xs =>
      by_cases hy : y = '|'
      · subst hy
        by_cases hx : x = '|'
        · subst hx
          simp only [escaped_bar, List.cons_append, List.cons.injEq, true_and] at h
          obtain ⟨rfl, hr⟩ := ih h
          exact ⟨rfl, hr⟩
        · simp only [escaped_bar, escaped_cons hx, List.cons_append, List.cons.injEq] at h
          exact absurd h.1.symm hx
      · by_cases hx : x = '|'
        · subst hx
          simp only [escaped_bar, escaped_cons hy, List.cons_append, List.cons.injEq] at h
          exact absurd h.1 hy
        · simp only [escaped_cons hy, escaped_cons hx, List.cons_append, List.cons.injEq] at h
          obtain ⟨rfl, hr⟩ := ih h.2
          exact ⟨by rw [h.1], hr⟩

theorem escaped_injective {a a' : List Char} (h : escaped a = escaped a') : a = a' := by
  have hx : ('x' : Char) ≠ '|' := by decide
  have hend : escaped a ++ '|' :: 'x' :: [] = escaped a' ++ '|' :: 'x' :: [] := by rw [h]
  exact (escaped_split hx hx hend).1

/-- A name that is not empty and does not start with a bar. -/
def Plain (s : String) : Prop := ∃ c cs, s.toList = c :: cs ∧ c ≠ '|'

/-- The characters of a key. -/
theorem StepId.key_toList (q : StepId) :
    q.key.toList = escaped q.taskId.toList ++ '|' :: (escaped q.node.toList ++
      '|' :: (Nat.toDigits 10 q.step.toNat ++ '|' :: escaped q.idemKey.toList)) := by
  simp [key, stepKey, escBar, escaped]

theorem digits_ne_bar {n : Nat} {c : Char} (h : c ∈ Nat.toDigits 10 n) : c ≠ '|' := by
  rintro rfl
  exact absurd (isDigit_of_mem h) (by decide)

theorem digits_injective {n n' : Nat} (h : Nat.toDigits 10 n = Nat.toDigits 10 n') : n = n' := by
  have hn : parseUInt (max n n' + 1) (Nat.toDigits 10 n) = some n := parseUInt_toDigits (by omega)
  rw [h, parseUInt_toDigits (by omega)] at hn
  exact (Option.some.inj hn).symm

/-- A number ends at the first bar. -/
theorem digits_split {n n' : Nat} {rest rest' : List Char}
    (h : Nat.toDigits 10 n ++ '|' :: rest = Nat.toDigits 10 n' ++ '|' :: rest') :
    n = n' ∧ rest = rest' := by
  have htake : ∀ m (l : List Char), (Nat.toDigits 10 m ++ '|' :: l).takeWhile (· ≠ '|') =
      Nat.toDigits 10 m := by
    intro m l
    rw [List.takeWhile_append_of_pos fun c hc => by simpa using digits_ne_bar hc]
    simp
  have hdigits : Nat.toDigits 10 n = Nat.toDigits 10 n' := by rw [← htake n rest, h, htake]
  rw [hdigits] at h
  exact ⟨digits_injective hdigits, by simpa using List.append_cancel_left h⟩

/-- Steps on plain nodes have keys of their own. -/
theorem StepId.key_injective {q q' : StepId} (hq : Plain q.node) (hq' : Plain q'.node)
    (h : q.key = q'.key) : q = q' := by
  obtain ⟨c, cs, hn, hc⟩ := hq
  obtain ⟨c', cs', hn', hc'⟩ := hq'
  have hl : q.key.toList = q'.key.toList := by rw [h]
  rw [key_toList, key_toList] at hl
  -- the task ends before the node
  rw [hn, hn', escaped_cons hc, escaped_cons hc', List.cons_append, List.cons_append] at hl
  obtain ⟨htask, hl⟩ := escaped_split hc hc' hl
  -- the node before a digit
  obtain ⟨d, ds, hd⟩ := List.exists_cons_of_ne_nil (Nat.toDigits_ne_nil (n := q.step.toNat) (b := 10))
  obtain ⟨d', ds', hd'⟩ :=
    List.exists_cons_of_ne_nil (Nat.toDigits_ne_nil (n := q'.step.toNat) (b := 10))
  have hdb : d ≠ '|' := digits_ne_bar (n := q.step.toNat) (by simp [hd])
  have hdb' : d' ≠ '|' := digits_ne_bar (n := q'.step.toNat) (by simp [hd'])
  have hnodes : escaped (c :: cs) ++ '|' :: d :: (ds ++ '|' :: escaped q.idemKey.toList) =
      escaped (c' :: cs') ++ '|' :: d' :: (ds' ++ '|' :: escaped q'.idemKey.toList) := by
    simpa only [escaped_cons hc, escaped_cons hc', hd, hd', List.cons_append] using hl
  obtain ⟨hnode, hl⟩ := escaped_split hdb hdb' hnodes
  rw [← List.cons_append, ← List.cons_append, ← hd, ← hd'] at hl
  -- the number before a bar
  obtain ⟨hstep, hidem⟩ := digits_split hl
  obtain ⟨task, node, step, idem⟩ := q
  obtain ⟨task', node', step', idem'⟩ := q'
  have htask : task = task' := String.toList_inj.1 htask
  have hnode : node = node' := String.toList_inj.1 (by rw [hn, hn', hnode])
  have hstep : step = step' := UInt32.toNat_inj.1 hstep
  have hidem : idem = idem' := String.toList_inj.1 (escaped_injective hidem)
  rw [htask, hnode, hstep, hidem]

/-! ## The ledger -/

/-- The result of the first `StepDone` of a step. -/
def firstDone (log : List ApplyCall) (q : StepId) : Option Value :=
  log.findSome? fun a => (a.op.done.filter fun d => decide (d.1 = q)).map Prod.snd

/-- The result of the first `StepDone` of any step with the key. -/
def firstDoneAt (log : List ApplyCall) (k : String) : Option Value :=
  log.findSome? fun a => (a.op.done.filter fun d => decide (d.1.key = k)).map Prod.snd

/-- Every `StepBegin` and `StepDone` of the log is answered by the `StepDone`s of its own step
before it: with the result of the first one, and with no result when there is none. -/
def EffectiveOnce (sm : StateMachine) (log : List ApplyCall) : Prop :=
  ∀ earlier a later, log = earlier ++ a :: later → ∀ q, a.op.stepId = some q →
    ∀ result, (sm.afterAll earlier).outcome a = .stepAlreadyDone result ↔
      ∃ first, firstDone earlier q = some first ∧ result = some first

/-- No `StepBegin` or `StepDone` of the log has the key of another step that is done before it. -/
def KeysApart (log : List ApplyCall) : Prop :=
  ∀ earlier a later, log = earlier ++ a :: later → ∀ q, a.op.stepId = some q →
    ∀ b ∈ earlier, ∀ q' result, b.op.done = some (q', result) → q'.key = q.key → q' = q

namespace StateMachine

/-- The result under a key of the ledger, once the step is done. -/
def doneAt (sm : StateMachine) (k : String) : Option (Option Value) :=
  (sm.steps[k]?.filter fun r => decide (r.state = .done)).map (·.result)

variable {sm : StateMachine} {a : ApplyCall} {log : List ApplyCall} {q : StepId}

/-- An op of a step is answered with what is under its key. -/
theorem outcome_step (hq : a.op.stepId = some q) (result : Option Value) :
    sm.outcome a = .stepAlreadyDone result ↔ sm.doneAt q.key = some result := by
  have hout : sm.outcome a = (sm.applyInner a.term a.index a.op).1 := rfl
  rw [hout]
  cases hop : a.op with
  | stepBegin taskId node step idemKey =>
    rw [hop] at hq
    cases hq
    simp only [applyInner, applyStepBegin, doneAt, StepId.key]
    rcases sm.steps[stepKey taskId node step idemKey]? with _ | r
    · simp
    · by_cases hr : r.state = .done <;> simp [hr, Option.filter]
  | stepDone taskId node step idemKey res =>
    rw [hop] at hq
    cases hq
    simp only [applyInner, applyStepDone, doneAt, StepId.key]
    rcases sm.steps[stepKey taskId node step idemKey]? with _ | r
    · simp
    · by_cases hr : r.state = .done <;> simp [hr, Option.filter]
  | _ =>
    rw [hop] at hq
    cases hq

/-- A result stays, and a `StepDone` with the key leaves its own where there is none. -/
theorem doneAt_after (sm : StateMachine) (a : ApplyCall) (k : String) :
    (sm.after a).doneAt k = (sm.doneAt k).or
      ((a.op.done.filter fun d => decide (d.1.key = k)).map fun d => some d.2) := by
  have hafter : (sm.after a).steps = (sm.applyInner a.term a.index a.op).2.steps := rfl
  unfold doneAt
  rw [hafter]
  cases hop : a.op with
  | stepBegin taskId node step idemKey =>
    simp only [applyInner, applyStepBegin, Op.done]
    rcases hold : sm.steps[stepKey taskId node step idemKey]? with _ | r
    · simp only [BTreeMap.getElem?_insert_ite]
      by_cases hk : stepKey taskId node step idemKey = k
      · subst hk
        simp [hold]
      · simp [hk]
    · by_cases hr : r.state = .done
      · simp [hr]
      · simp only [if_neg hr, BTreeMap.getElem?_insert_ite]
        by_cases hk : stepKey taskId node step idemKey = k
        · subst hk
          simp [hold, hr, Option.filter]
        · simp [hk]
  | stepDone taskId node step idemKey res =>
    simp only [applyInner, applyStepDone, Op.done]
    rcases hold : sm.steps[stepKey taskId node step idemKey]? with _ | r
    · simp only [BTreeMap.getElem?_insert_ite]
      by_cases hk : stepKey taskId node step idemKey = k
      · subst hk
        simp [hold, Option.filter, StepId.key]
      · simp [hk, Option.filter, StepId.key]
    · by_cases hr : r.state = .done
      · simp only [if_pos hr]
        by_cases hk : stepKey taskId node step idemKey = k
        · subst hk
          simp [hold, hr, Option.filter]
        · simp [hk, Option.filter, StepId.key]
      · simp only [if_neg hr, BTreeMap.getElem?_insert_ite]
        by_cases hk : stepKey taskId node step idemKey = k
        · subst hk
          simp [hold, hr, Option.filter, StepId.key]
        · simp [hk, Option.filter, StepId.key]
  | _ =>
    simp only [applyInner, applyPut, applyDelete, applyConfigSet, applyLeaseGrant, applyLeaseRenew,
      applyLeaseRelease, applyAuditAppend, Op.done, Option.filter_none, Option.map_none,
      Option.or_none]
    all_goals (repeat' split) <;> rfl

/-- The ledger of a log keeps the first result under every key. -/
theorem doneAt_afterAll (shard maxSkewMs : Nat) (log : List ApplyCall) (k : String) :
    ((StateMachine.new shard maxSkewMs).afterAll log).doneAt k = (firstDoneAt log k).map some := by
  induction log using List.reverseRecOn with
  | nil => simp [afterAll, new, doneAt, firstDoneAt]
  | append_singleton log a ih =>
    have hsnoc : firstDoneAt (log ++ [a]) k = (firstDoneAt log k).or
        ((a.op.done.filter fun d => decide (d.1.key = k)).map Prod.snd) := by
      simp [firstDoneAt, List.findSome?_append]
    rw [afterAll_concat, doneAt_after, ih, hsnoc]
    rcases firstDoneAt log k with _ | v
    · simp [Function.comp_def]
    · rfl

end StateMachine

variable {log earlier later : List ApplyCall} {a b : ApplyCall} {q q' : StepId} {result : Value}

/-- A step that is done has a first result. -/
theorem exists_firstDoneAt (hb : b ∈ log) (hd : b.op.done = some (q, result)) :
    ∃ first, firstDoneAt log q.key = some first := by
  rw [← Option.isSome_iff_exists, firstDoneAt, List.findSome?_isSome_iff]
  exact ⟨b, hb, by simp [hd, Option.filter]⟩

/-- A first result is that of a `StepDone` of the step. -/
theorem exists_done_of_firstDone {first : Value} (h : firstDone log q = some first) :
    ∃ b ∈ log, b.op.done = some (q, first) := by
  obtain ⟨b, hb, hf⟩ := List.exists_of_findSome?_eq_some h
  obtain ⟨⟨q', r⟩, hd, rfl⟩ := Option.map_eq_some_iff.1 hf
  obtain ⟨hd, hq⟩ := Option.filter_eq_some_iff.1 hd
  have hq : q' = q := of_decide_eq_true hq
  exact ⟨b, hb, hq ▸ hd⟩

/-- Where the key tells the step apart, the first result under it is the step's own. -/
theorem firstDoneAt_eq (h : ∀ b ∈ log, ∀ q' result, b.op.done = some (q', result) →
    q'.key = q.key → q' = q) : firstDoneAt log q.key = firstDone log q := by
  unfold firstDoneAt firstDone
  induction log with
  | nil => rw [List.findSome?_nil, List.findSome?_nil]
  | cons b log ih =>
    have hhead : (b.op.done.filter fun d => decide (d.1.key = q.key)) =
        b.op.done.filter fun d => decide (d.1 = q) := by
      rcases hd : b.op.done with _ | ⟨q', r⟩
      · rw [Option.filter_none, Option.filter_none]
      · have hsame : decide (q'.key = q.key) = decide (q' = q) :=
          decide_eq_decide.2 ⟨h b List.mem_cons_self q' r hd, fun heq => by rw [heq]⟩
        rw [Option.filter_some, Option.filter_some, hsame]
    rw [List.findSome?_cons, List.findSome?_cons, hhead,
      ih fun b hb => h b (List.mem_cons_of_mem _ hb)]

/-- A log whose steps have keys of their own is answered rightly. -/
theorem KeysApart.effectiveOnce (hapart : KeysApart log) (shard maxSkewMs : Nat) :
    EffectiveOnce (.new shard maxSkewMs) log := by
  intro earlier a later hlog q hq result
  rw [StateMachine.outcome_step hq, StateMachine.doneAt_afterAll,
    firstDoneAt_eq (hapart earlier a later hlog q hq)]
  rcases firstDone earlier q with _ | first
  · simp
  · simp [eq_comm]

/-- A step under whose key another one is done is answered as if it were done itself. -/
theorem EffectiveOnce.done_of_key {shard maxSkewMs : Nat}
    (honce : EffectiveOnce (.new shard maxSkewMs) log) (hlog : log = earlier ++ a :: later)
    (hq : a.op.stepId = some q) (hb : b ∈ earlier) (hd : b.op.done = some (q', result))
    (hkey : q'.key = q.key) : ∃ c ∈ earlier, ∃ own, c.op.done = some (q, own) := by
  obtain ⟨first, hfirst⟩ := exists_firstDoneAt hb hd
  have hdone : ((StateMachine.new shard maxSkewMs).afterAll earlier).doneAt q.key =
      some (some first) := by
    rw [StateMachine.doneAt_afterAll, ← hkey, hfirst]
    rfl
  have hout := (StateMachine.outcome_step hq (some first)).2 hdone
  obtain ⟨own, hown, -⟩ := (honce earlier a later hlog q hq _).1 hout
  obtain ⟨c, hc, hcd⟩ := exists_done_of_firstDone hown
  exact ⟨c, hc, own, hcd⟩

/-- Of two steps that share a key the later one is answered wrongly. -/
theorem EffectiveOnce.keysApart {shard maxSkewMs : Nat}
    (honce : EffectiveOnce (.new shard maxSkewMs) log) : KeysApart log := by
  intro earlier
  induction hn : earlier.length using Nat.strongRecOn generalizing earlier with
  | ind n ih =>
  intro a later hlog q hq b hb q' result hd hkey
  by_contra hne
  obtain ⟨c, hc, own, hcd⟩ := honce.done_of_key hlog hq hb hd hkey
  obtain ⟨before, after, rfl⟩ := List.append_of_mem hc
  rcases List.mem_append.1 hb with hb | hb
  · refine hne (ih before.length ?_ before rfl c (after ++ a :: later) (by simp [hlog]) q
      (Op.stepId_of_done hcd) b hb q' result hd hkey)
    simp only [← hn, List.length_append, List.length_cons]
    omega
  rcases List.mem_cons.1 hb with rfl | hb
  · rw [hcd, Option.some.injEq, Prod.mk.injEq] at hd
    exact hne hd.1.symm
  · obtain ⟨mid, after', rfl⟩ := List.append_of_mem hb
    refine hne (ih (before ++ c :: mid).length ?_ _ rfl b (after' ++ a :: later) (by simp [hlog]) q'
      (Op.stepId_of_done hd) c (by simp) q own hcd hkey.symm).symm
    simp only [← hn, List.length_append, List.length_cons]
    omega

/-- The ledger is right about a log exactly when no two of its steps share a key. -/
theorem effectiveOnce_iff (shard maxSkewMs : Nat) (log : List ApplyCall) :
    EffectiveOnce (.new shard maxSkewMs) log ↔ KeysApart log :=
  ⟨EffectiveOnce.keysApart, fun hapart => hapart.effectiveOnce shard maxSkewMs⟩

/-- The step of a node whose name starts with a bar is taken for one that was done. -/
theorem step_crossed : ¬ ∀ shard maxSkewMs log, EffectiveOnce (.new shard maxSkewMs) log := by
  intro hall
  let done : ApplyCall := ⟨1, 1, .stepDone "a|" "b" 1 "k" .null⟩
  let begun : ApplyCall := ⟨2, 1, .stepBegin "a" "|b" 1 "k"⟩
  have hkey : (⟨"a|", "b", 1, "k"⟩ : StepId).key = (⟨"a", "|b", 1, "k"⟩ : StepId).key := by
    decide +kernel
  obtain ⟨c, hc, own, hcd⟩ :=
    (hall 0 1000 [done, begun]).done_of_key rfl rfl (List.mem_singleton.2 rfl) rfl hkey
  have hstep : done.op.stepId = some _ := List.mem_singleton.1 hc ▸ Op.stepId_of_done hcd
  exact absurd (congrArg (Option.map StepId.taskId) hstep) (by decide)

/-- The ledger is right about steps on plain nodes. -/
theorem effectiveOnce_of_plain (shard maxSkewMs : Nat)
    (h : ∀ a ∈ log, ∀ q, a.op.stepId = some q → Plain q.node) :
    EffectiveOnce (.new shard maxSkewMs) log := by
  refine KeysApart.effectiveOnce ?_ shard maxSkewMs
  rintro earlier a later rfl q hq b hb q' result hd hkey
  refine StepId.key_injective ?_ ?_ hkey
  · exact h b (by simp [hb]) q' (Op.stepId_of_done hd)
  · exact h a (by simp) q hq

/-- A step is done, and begun on another node. -/
theorem effectiveOnce_of_plain_pair : EffectiveOnce (.new 0 1000)
    [⟨1, 1, .stepDone "t" "a" 1 "k" .null⟩, ⟨2, 1, .stepBegin "t" "b" 1 "k"⟩] := by
  refine effectiveOnce_of_plain 0 1000 fun a ha q hq => ?_
  simp only [List.mem_cons, List.not_mem_nil, or_false] at ha
  rcases ha with rfl | rfl
  · cases hq
    exact ⟨'a', [], rfl, by decide⟩
  · cases hq
    exact ⟨'b', [], rfl, by decide⟩

end Rdsctl.Ha
