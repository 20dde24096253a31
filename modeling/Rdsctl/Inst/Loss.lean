import Rdsctl.Inst.Watch
import Rdsctl.Inst.Exclusion
import Rdsctl.Inst.Basic

/-!
# Losing the lease

What the loss of a lease stops, in every run of a manager with its operations, schedulers and
watchers. The watcher that sees the loss unlocks the instance and goes, and nobody tells the
scheduler; so it is only when nothing is left to begin that the loss is heeded.
-/

namespace Rdsctl.Inst

open Ha Dag

section

variable {Step : Type} {kind : Step → Bool} {l l' : Locks} {op op' : Operation Step}

namespace Operation

theorem calm_iff : op.calm kind = true ↔ (∀ t, op.task = some t → t.mayBegin kind = false) ∧
    ¬ (op.unsubmitted = true ∧ (op.stage = .cleared ∨ op.stage = .holds)) := by
  unfold calm
  cases op.unsubmitted <;> cases op.task <;> simp

theorem still_iff : op.still kind = true ↔
    (∀ t, op.task = some t → t.mayBegin kind = false ∧ t.inside kind = false) ∧
    ¬ (op.unsubmitted = true ∧ (op.stage = .fenced ∨ op.stage = .cleared ∨ op.stage = .holds)) := by
  unfold still
  cases op.unsubmitted <;> cases op.task <;> simp [and_assoc]

/-- What holds of an operation: it has no task before it has its lock, nothing is left to begin once
the loss of its lease is recorded, its instance has a fence unless it is still, and no step in flight
has begun too late. -/
structure Kept (kind : Step → Bool) (l : Locks) (op : Operation Step) : Prop where
  early : op.entering = true → op.task = none
  own : op.task = none → op.lost = false
  heeds : op.lost = true ∨ l.leaseLost.contains op.inst = true → op.calm kind = true
  fenced : op.stage ≠ .adopted → op.still kind = true ∨ l.fences.contains op.inst = true
  marked : ∀ t, op.task = some t → t.marked kind = false

/-- Other locks leave an operation as it was when they lose nothing of its instance, and keep its
fence. -/
theorem Kept.mono (h : op.Kept kind l)
    (hlost : l'.leaseLost.contains op.inst = true → l.leaseLost.contains op.inst = true)
    (hfence : l.fences.contains op.inst = true → l'.fences.contains op.inst = true) :
    op.Kept kind l' :=
  ⟨h.early, h.own, fun hl => h.heeds (hl.imp_right hlost), fun ha => (h.fenced ha).imp_right hfence,
    h.marked⟩

/-- A lock that goes on, with nothing to do for the task. -/
theorem Kept.moves (h : op.Kept kind l) {st : Stage} (hadopted : op.stage ≠ .adopted)
    (hearly : ({ op with stage := st } : Operation Step).entering = true → op.task = none)
    (hcalm : st = .cleared ∨ st = .holds → op.stage = .cleared ∨ op.stage = .holds)
    (hstill : st = .fenced ∨ st = .cleared ∨ st = .holds →
      op.stage = .fenced ∨ op.stage = .cleared ∨ op.stage = .holds) :
    ({ op with stage := st } : Operation Step).Kept kind l where
  early := hearly
  own := h.own
  heeds := fun hl => by
    obtain ⟨htask, hstage⟩ := calm_iff.1 (h.heeds hl)
    exact calm_iff.2 ⟨htask, fun ⟨hun, hst⟩ => hstage ⟨hun, hcalm hst⟩⟩
  fenced := fun _ => by
    refine (h.fenced hadopted).imp_left fun hs => ?_
    obtain ⟨htask, hstage⟩ := still_iff.1 hs
    exact still_iff.2 ⟨htask, fun ⟨hun, hst⟩ => hstage ⟨hun, hstill hst⟩⟩
  marked := h.marked

/-- A task that goes on begins nothing that it might not have begun before. -/
theorem Kept.goes (h : op.Kept kind l) {t t' : Live Step} (ht : op.task = some t)
    (hleft : t'.mayBegin kind = true → t.mayBegin kind = true)
    (hin : t'.inside kind = true → t.inside kind = true ∨ t.mayBegin kind = true)
    (hmark : t'.marked kind = false) :
    ({ op with task := some t' } : Operation Step).Kept kind l where
  early := fun he => by
    have hnone := h.early he
    rw [ht] at hnone
    cases hnone
  own := nofun
  heeds := fun hl => by
    obtain ⟨htask, -⟩ := calm_iff.1 (h.heeds hl)
    refine calm_iff.2 ⟨fun t₁ h₁ => ?_, fun ⟨hun, _⟩ => by simp [unsubmitted] at hun⟩
    cases h₁
    exact Bool.eq_false_iff.2 fun hb => Bool.eq_false_iff.1 (htask t ht) (hleft hb)
  fenced := fun ha => by
    refine (h.fenced ha).imp_left fun hs => ?_
    obtain ⟨htask, -⟩ := still_iff.1 hs
    obtain ⟨hmay, hins⟩ := htask t ht
    refine still_iff.2 ⟨fun t₁ h₁ => ?_, fun ⟨hun, _⟩ => by simp [unsubmitted] at hun⟩
    cases h₁
    refine ⟨Bool.eq_false_iff.2 fun hb => Bool.eq_false_iff.1 hmay (hleft hb),
      Bool.eq_false_iff.2 fun hb => ?_⟩
    rcases hin hb with hb | hb
    · exact Bool.eq_false_iff.1 hins hb
    · exact Bool.eq_false_iff.1 hmay hb
  marked := fun t₁ h₁ => by
    cases h₁
    exact hmark

/-- The watcher goes on. -/
theorem Kept.watches (h : op.Kept kind l) (w : Watch) :
    ({ op with watch := w } : Operation Step).Kept kind l :=
  ⟨h.early, h.own, h.heeds, h.fenced, h.marked⟩

end Operation

namespace Controller

variable {c c' : Controller Step} {e : ControlEvent Step}

/-- What every run that is in time keeps. -/
structure Inv (kind : Step → Bool) (c : Controller Step) : Prop where
  clustered : c.locks.clustered = true
  kept : ∀ op ∈ c.ops, op.Kept kind c.locks
  heeds : Heeds c

theorem mem_of_set {o : Nat} {ops : List (Operation Step)} {P : Operation Step → Prop}
    (hop : P op') (hothers : ∀ q ∈ ops, P q) : ∀ q ∈ ops.set o op', P q := by
  intro q hq
  rcases List.mem_or_eq_of_mem_set hq with hq | rfl
  · exact hothers q hq
  · exact hop

/-- One operation changes, and the locks change nothing for the others. -/
theorem Inv.set (h : Inv kind c) {o : Nat} (hc : l.clustered = true) (hop : op'.Kept kind l)
    (hlost : ∀ n, l.leaseLost.contains n = true → c.locks.leaseLost.contains n = true)
    (hfence : ∀ n, c.locks.fences.contains n = true → l.fences.contains n = true) :
    Inv kind (c.set o op' l) :=
  ⟨hc, mem_of_set hop fun q hq => (h.kept q hq).mono (hlost _) (hfence _), h.heeds⟩

/-- A new operation. -/
theorem Inv.append (h : Inv kind c) (hop : op.Kept kind c.locks) :
    Inv kind { c with ops := c.ops ++ [op] } :=
  ⟨h.clustered, List.forall_mem_append.2 ⟨h.kept, List.forall_mem_singleton.2 hop⟩, h.heeds⟩

/-- A fence goes when nothing on its instance needs it. -/
theorem Inv.unfence (h : Inv kind c) {name : String} (hquiet : c.quietOn kind name = true) :
    Inv kind { c with locks := c.locks.removeFence name } := by
  refine ⟨h.clustered, fun op hop => ?_, h.heeds⟩
  have hk := h.kept op hop
  refine ⟨hk.early, hk.own, hk.heeds, fun ha => ?_, hk.marked⟩
  have hq := List.all_eq_true.1 hquiet op hop
  simp only [Bool.or_eq_true, decide_eq_true_eq] at hq
  rcases hq with (hne | hadopted) | hstill
  · exact (hk.fenced ha).imp_right fun hf => Locks.fence_removeFence.2 ⟨Ne.symm hne, hf⟩
  · exact absurd hadopted ha
  · exact .inl hstill

/-- The call to the consensus for a lock leaves everything else. -/
theorem acquire_frame {name : String} {call : AuthorityCall} {r : Except String (Option Fence)}
    (h : l.acquire name call = (r, l')) :
    l'.fences = l.fences ∧ l'.leaseLost = l.leaseLost ∧ l'.clustered = l.clustered := by
  unfold Locks.acquire at h
  split at h
  · next locks hau =>
    cases h
    exact ⟨rfl, rfl, by simp [Locks.clustered, hau]⟩
  · next sm hau =>
    cases h
    exact ⟨rfl, rfl, by simp [Locks.clustered, hau]⟩

theorem release_frame (l : Locks) (name : String) (p : Proposal) :
    (l.release name p).fences = l.fences ∧ (l.release name p).leaseLost = l.leaseLost ∧
      (l.release name p).clustered = l.clustered := by
  unfold Locks.release
  split
  · next locks hau => exact ⟨rfl, rfl, by simp [Locks.clustered, hau]⟩
  · next sm hau => exact ⟨rfl, rfl, by simp [Locks.clustered, hau]⟩

theorem renew_frame {name : String} {p : Proposal} {r : Except LeaseError Fence × Locks}
    (h : l.renew name p = some r) :
    r.2.fences = l.fences ∧ r.2.leaseLost = l.leaseLost ∧ r.2.clustered = true := by
  obtain ⟨sm, -, rfl⟩ := Option.map_eq_some_iff.1 h
  exact ⟨rfl, rfl, rfl⟩

/-- What a renewal makes the manager record is heeded when it is in time. -/
theorem Inv.record (h : Inv kind c) {name : String} {nowMs : Nat} {reply : Except LeaseError Fence}
    (hcalm : c.loss name nowMs reply ≠ none → ∀ op ∈ c.ops, op.inst = name → op.calm kind = true) :
    Inv kind (c.record name nowMs reply) := by
  unfold Controller.record
  split
  · next reason e hloss =>
    refine ⟨h.clustered, fun op hop => ?_, h.heeds⟩
    obtain ⟨op₀, hop₀, rfl⟩ := List.mem_map.1 hop
    have hk := h.kept op₀ hop₀
    have hrest : op₀.Kept kind (c.locks.insertLost name reason) := by
      refine ⟨hk.early, hk.own, fun hl => ?_, hk.fenced, hk.marked⟩
      rcases hl with hl | hl
      · exact hk.heeds (.inl hl)
      · unfold Locks.insertLost at hl
        rw [Std.ExtTreeMap.contains_insert, Bool.or_eq_true] at hl
        rcases hl with heq | hl
        · refine hcalm (by rw [hloss]; nofun) op₀ hop₀ ?_
          exact (by simpa using heq : name = op₀.inst).symm
        · exact hk.heeds (.inr hl)
    rcases Decidable.em (op₀.inst = name ∧ op₀.task.isSome = true) with hon | hoff
    · rw [lose, if_pos hon]
      refine ⟨hrest.early, fun hnone => ?_, fun _ => ?_, hrest.fenced, hrest.marked⟩
      · have hnone : op₀.task = none := hnone
        rw [hnone] at hon
        cases hon.2
      · exact hcalm (by rw [hloss]; nofun) op₀ hop₀ hon.1
    · rw [lose, if_neg hoff]
      exact hrest
  · next fence =>
    exact ⟨h.clustered, fun op hop => (h.kept op hop).mono id fun hf =>
      Locks.fence_insertFence.2 (.inr hf), h.heeds⟩
  · exact ⟨h.clustered, h.kept, h.heeds⟩

/-! ## One call or move -/

/-- A lock that goes on changes neither the losses nor the fences of other instances. -/
theorem Inv.moves (h : Inv kind c) {o : Nat} {st : Stage}
    (hc : l.clustered = true) (hk : ({ op with stage := st } : Operation Step).Kept kind l)
    (hlost : ∀ n, l.leaseLost.contains n = true → c.locks.leaseLost.contains n = true)
    (hfence : ∀ n, c.locks.fences.contains n = true → l.fences.contains n = true) :
    Inv kind (c.moves o op st l) :=
  h.set hc hk hlost hfence

theorem Inv.acquire (h : Inv kind c) {o : Nat} {call : AuthorityCall}
    (hs : c.step kind (.acquire o call) = some c') : Inv kind c' := by
  obtain ⟨op, hop, hs⟩ := Option.bind_eq_some_iff.1 hs
  have hk := h.kept op (List.mem_of_getElem? hop)
  split at hs
  · next hstage =>
    have hnone : op.task = none := hk.early (by rw [Operation.entering, hstage])
    have hfresh (st : Stage) {l' : Locks} (hst : st ≠ .fenced ∧ st ≠ .cleared ∧ st ≠ .holds)
        (hl : l'.fences = c.locks.fences ∧ l'.leaseLost = c.locks.leaseLost ∧
          l'.clustered = c.locks.clustered) : Inv kind (c.moves o op st l') := by
      obtain ⟨hf, hlost, hc⟩ := hl
      refine h.moves (hc.trans h.clustered) ?_ (fun n hn => hlost ▸ hn) (fun n hn => hf ▸ hn)
      refine (hk.moves (by rw [hstage]; nofun) (fun _ => hnone) (fun hst' => ?_) (fun hst' => ?_)).mono
        (fun hn => hlost ▸ hn) fun hn => hf ▸ hn
      · rcases hst' with rfl | rfl
        · exact absurd rfl hst.2.1
        · exact absurd rfl hst.2.2
      · rcases hst' with rfl | rfl | rfl
        · exact absurd rfl hst.1
        · exact absurd rfl hst.2.1
        · exact absurd rfl hst.2.2
    split at hs
    · next fence l' hacq =>
      cases hs
      exact hfresh (.acquired fence) ⟨nofun, nofun, nofun⟩ (acquire_frame hacq)
    · next l' hacq =>
      -- only the lock table of a store gives no fence
      have hstore := Locks.clustered_of_acquire_none (congrArg Prod.fst hacq)
      rw [h.clustered] at hstore
      cases hstore
    · next e l' hacq =>
      cases hs
      exact hfresh .refused ⟨nofun, nofun, nofun⟩ (acquire_frame hacq)
  · cases hs

theorem Inv.insertFence (h : Inv kind c) {o : Nat} (hs : c.step kind (.insertFence o) = some c') :
    Inv kind c' := by
  obtain ⟨op, hop, hs⟩ := Option.bind_eq_some_iff.1 hs
  have hk := h.kept op (List.mem_of_getElem? hop)
  split at hs
  · next fence hstage =>
    cases hs
    have hnone : op.task = none := hk.early (by rw [Operation.entering, hstage])
    refine h.moves h.clustered ⟨fun _ => hnone, hk.own, fun hl => ?_, fun _ => ?_, hk.marked⟩
      (fun n hn => hn) fun n hn => Locks.fence_insertFence.2 (.inr hn)
    · refine Operation.calm_iff.2 ⟨(Operation.calm_iff.1 (hk.heeds hl)).1, fun ⟨_, hst⟩ => ?_⟩
      rcases hst with hst | hst <;> cases hst
    · exact .inr (Locks.fence_insertFence.2 (.inl rfl))
  · cases hs

theorem Inv.clearLost (h : Inv kind c) {o : Nat} (hs : c.step kind (.clearLost o) = some c') :
    Inv kind c' := by
  obtain ⟨op, hop, hs⟩ := Option.bind_eq_some_iff.1 hs
  have hk := h.kept op (List.mem_of_getElem? hop)
  have hcleared {n : String} : (c.locks.clearLost op.inst).leaseLost.contains n = true →
      op.inst ≠ n ∧ c.locks.leaseLost.contains n = true := by
    simp [Locks.clearLost, Std.ExtTreeMap.contains_erase]
  split at hs
  · next hstage =>
    cases hs
    have hnone : op.task = none := hk.early (by rw [Operation.entering, hstage])
    refine h.moves h.clustered ⟨fun _ => hnone, hk.own, fun hl => ?_, fun _ => ?_, hk.marked⟩
      (fun n hn => (hcleared hn).2) fun n hn => hn
    · rcases hl with hl | hl
      · rw [show op.lost = false from hk.own hnone] at hl
        cases hl
      · exact absurd rfl (hcleared hl).1
    · refine (hk.fenced (by rw [hstage]; nofun)).imp_left fun hst => ?_
      obtain ⟨htask, hun⟩ := Operation.still_iff.1 hst
      exact Operation.still_iff.2 ⟨htask, fun ⟨hu, _⟩ => hun ⟨hu, .inl hstage⟩⟩
  · cases hs

theorem Inv.insertLock (h : Inv kind c) {o : Nat} (hs : c.step kind (.insertLock o) = some c') :
    Inv kind c' := by
  obtain ⟨op, hop, hs⟩ := Option.bind_eq_some_iff.1 hs
  have hk := h.kept op (List.mem_of_getElem? hop)
  split at hs
  · next hstage =>
    cases hs
    have hnone : op.task = none := hk.early (by rw [Operation.entering, hstage])
    exact h.moves h.clustered ((hk.moves (by rw [hstage]; nofun) (fun _ => hnone)
      (fun _ => .inl hstage) fun _ => .inr (.inl hstage)).mono id id) (fun n hn => hn) fun n hn => hn
  · cases hs

theorem Inv.submit (h : Inv kind c) {o : Nat} {nodes : List (TaskNode Step)}
    (hs : c.step kind (.submit o nodes) = some c') : Inv kind c' := by
  obtain ⟨op, hop, hs⟩ := Option.bind_eq_some_iff.1 hs
  have hk := h.kept op (List.mem_of_getElem? hop)
  split at hs
  · next hc =>
    obtain ⟨hstage, hun⟩ := hc
    cases hs
    have hfence := (hk.fenced (by rw [hstage]; nofun)).resolve_left fun hst =>
      (Operation.still_iff.1 hst).2 ⟨hun, .inr (.inr hstage)⟩
    refine h.set h.clustered ⟨fun he => ?_, nofun, fun hl => ?_, fun _ => .inr hfence, fun t ht => ?_⟩
      (fun n hn => hn) fun n hn => hn
    · rw [Operation.entering] at he
      dsimp only at he
      rw [hstage] at he
      cases he
    · exact absurd ⟨hun, .inr hstage⟩ (Operation.calm_iff.1 (hk.heeds hl)).2
    · cases ht
      rfl
  · cases hs

theorem Inv.begin (h : Inv kind c) {o k : Nat} (hs : c.step kind (.begin o k) = some c') :
    Inv kind c' := by
  obtain ⟨op, hop, hs⟩ := Option.bind_eq_some_iff.1 hs
  obtain ⟨t, ht, hs⟩ := Option.bind_eq_some_iff.1 hs
  obtain ⟨t', hb, rfl⟩ := Option.map_eq_some_iff.1 hs
  have hk := h.kept op (List.mem_of_getElem? hop)
  refine h.set h.clustered (hk.goes ht (Live.mayBegin_begin hb) (Live.inside_begin hb) ?_)
    (fun n hn => hn) fun n hn => hn
  refine Bool.eq_false_iff.2 fun hmark => ?_
  rcases Live.marked_begin hb hmark with hmark | ⟨hlate, hleft⟩
  · rw [hk.marked t ht] at hmark
    cases hmark
  · rw [Bool.or_eq_true] at hlate
    rw [(Operation.calm_iff.1 (hk.heeds hlate)).1 t ht] at hleft
    cases hleft

theorem Inv.move (h : Inv kind c) {o : Nat} {m : Move} (hs : c.step kind (.move o m) = some c') :
    Inv kind c' := by
  obtain ⟨op, hop, hs⟩ := Option.bind_eq_some_iff.1 hs
  obtain ⟨t, ht, hs⟩ := Option.bind_eq_some_iff.1 hs
  obtain ⟨t', hm, rfl⟩ := Option.map_eq_some_iff.1 hs
  have hk := h.kept op (List.mem_of_getElem? hop)
  refine h.set h.clustered (hk.goes ht (Live.mayBegin_move hm)
    (fun hin => .inl (Live.inFlight_move hm hin)) ?_) (fun n hn => hn) fun n hn => hn
  refine Bool.eq_false_iff.2 fun hmark => ?_
  have hmark' : t.marked kind = true := Live.inFlight_move hm hmark
  rw [hk.marked t ht] at hmark'
  cases hmark'

/-- A step in flight that reaches a back end has begun in time, and its instance has a fence. -/
theorem Inv.act (h : Inv kind c) {o k : Nat} (hs : c.step kind (.act o k) = some c') :
    Inv kind c' := by
  obtain ⟨op, hop, hs⟩ := Option.bind_eq_some_iff.1 hs
  obtain ⟨f, hf, hs⟩ := Option.bind_eq_some_iff.1 hs
  obtain ⟨t, ht, hf⟩ := Option.bind_eq_some_iff.1 hf
  obtain ⟨s, hsp, hf⟩ := Option.bind_eq_some_iff.1 hf
  have hk := h.kept op (List.mem_of_getElem? hop)
  split at hs
  · next hkind =>
    cases hs
    refine ⟨h.clustered, h.kept, List.forall_mem_append.2 ⟨h.heeds, List.forall_mem_singleton.2 ?_⟩⟩
    have hmem := List.mem_of_getElem? hsp
    refine ⟨Bool.eq_false_iff.2 fun hmark => ?_, fun hadopted => ?_⟩
    · have hmarked : t.marked kind = true := List.any_eq_true.2 ⟨s, hmem, by
        rw [Spawned.marked, hf, Option.any_some, hkind]
        exact hmark⟩
      rw [hk.marked t ht] at hmarked
      cases hmarked
    · have hin : t.inside kind = true := List.any_eq_true.2 ⟨s, hmem, by
        rw [Spawned.inside, hf, Option.any_some]
        exact hkind⟩
      rcases hk.fenced (of_decide_eq_false hadopted) with hst | hfence
      · rw [((Operation.still_iff.1 hst).1 t ht).2] at hin
        cases hin
      · intro hno
        have hnone : c.locks.fences[op.inst]? = none := hno
        rw [Std.ExtTreeMap.contains_eq_isSome_getElem?, hnone] at hfence
        cases hfence
  · cases hs

theorem Inv.note (h : Inv kind c) {o : Nat} (hg : c.inTime kind (.note o) = true)
    (hs : c.step kind (.note o) = some c') : Inv kind c' := by
  obtain ⟨op, hop, hs⟩ := Option.bind_eq_some_iff.1 hs
  have hk := h.kept op (List.mem_of_getElem? hop)
  split at hs
  · next reply nowMs hwatch =>
    cases hs
    refine (h.set h.clustered (hk.watches .looks) (fun n hn => hn) fun n hn => hn).record
      fun hloss q hq hon => ?_
    have hlosing : c.losing o = some op.inst := by
      unfold losing
      rw [hop, Option.bind_some, hwatch]
      show (c.loss op.inst nowMs reply).map (fun _ => op.inst) = some op.inst
      cases hreason : c.loss op.inst nowMs reply with
      | none => exact absurd hreason hloss
      | some reason => rfl
    have hcalm : ∀ q ∈ c.ops, q.inst = op.inst → q.calm kind = true := fun q hq hon => by
      have hg : (c.losing o).all (fun name => c.ops.all fun op =>
        op.inst ≠ name || op.calm kind) = true := hg
      rw [hlosing, Option.all_some] at hg
      have hall := List.all_eq_true.1 hg q hq
      simp only [Bool.or_eq_true, decide_eq_true_eq] at hall
      exact hall.resolve_left fun hne => hne hon
    rcases List.mem_or_eq_of_mem_set hq with hq | rfl
    · exact hcalm q hq hon
    · exact hcalm op (List.mem_of_getElem? hop) rfl
  · cases hs

theorem Inv.reapRelease (h : Inv kind c) {k : Nat} {p : Proposal}
    (hs : c.step kind (.reapRelease k p) = some c') : Inv kind c' := by
  obtain ⟨r, -, hs⟩ := Option.bind_eq_some_iff.1 hs
  split at hs
  · cases hs
  · obtain ⟨sm, -, rfl⟩ := Option.map_eq_some_iff.1 hs
    exact ⟨rfl, fun op hop => (h.kept op hop).mono id id, h.heeds⟩

/-- One call or move that is in time keeps the invariant. -/
theorem Inv.step (h : Inv kind c) (hg : c.inTime kind e = true) (hs : c.step kind e = some c') :
    Inv kind c' := by
  cases e with
  | lock name follower =>
    cases hs
    refine h.append ⟨fun _ => rfl, fun _ => rfl, fun _ => ?_, fun _ => .inl ?_, nofun⟩
    · refine Operation.calm_iff.2 ⟨nofun, fun ⟨_, hst⟩ => ?_⟩
      dsimp only at hst
      split at hst <;> rcases hst with hst | hst <;> cases hst
    · refine Operation.still_iff.2 ⟨nofun, fun ⟨_, hst⟩ => ?_⟩
      dsimp only at hst
      split at hst <;> rcases hst with hst | hst | hst <;> cases hst
  | acquire o call => exact h.acquire hs
  | insertFence o => exact h.insertFence hs
  | clearLost o => exact h.clearLost hs
  | insertLock o => exact h.insertLock hs
  | submit o nodes => exact h.submit hs
  | adopt name nodes =>
    cases hs
    refine h.append ⟨nofun, nofun, fun hl => ?_, fun ha => absurd rfl ha, fun t ht => ?_⟩
    · refine Operation.calm_iff.2 ⟨fun t ht => ?_, fun ⟨hun, _⟩ => by cases hun⟩
      cases ht
      have hg : (!c.locks.leaseLost.contains name || !(Live.submitted nodes).mayBegin kind) = true := hg
      have hlost : c.locks.leaseLost.contains name = true := hl.resolve_left nofun
      rw [hlost] at hg
      simpa using hg
    · cases ht
      rfl
  | begin o k => exact h.begin hs
  | act o k => exact h.act hs
  | move o m => exact h.move hs
  | poll o =>
    obtain ⟨op, hop, hs⟩ := Option.bind_eq_some_iff.1 hs
    split at hs
    · split at hs
      · obtain ⟨t, -, rfl⟩ := Option.map_eq_some_iff.1 hs
        exact h.set h.clustered ((h.kept op (List.mem_of_getElem? hop)).watches _) (fun n hn => hn)
          fun n hn => hn
      · cases hs
    · cases hs
  | renew o p nowMs =>
    obtain ⟨op, hop, hs⟩ := Option.bind_eq_some_iff.1 hs
    split at hs
    · obtain ⟨r, hr, rfl⟩ := Option.map_eq_some_iff.1 hs
      obtain ⟨hf, hl, hc⟩ := renew_frame hr
      refine h.set hc (((h.kept op (List.mem_of_getElem? hop)).watches _).mono (fun hn => hl ▸ hn)
        fun hn => hf ▸ hn) (fun n hn => hl ▸ hn) fun n hn => hf ▸ hn
    · cases hs
  | note o => exact h.note hg hs
  | look o =>
    obtain ⟨op, hop, hs⟩ := Option.bind_eq_some_iff.1 hs
    split at hs
    · cases hs
      exact h.set h.clustered ((h.kept op (List.mem_of_getElem? hop)).watches _) (fun n hn => hn)
        fun n hn => hn
    · cases hs
  | removeLock o =>
    obtain ⟨op, hop, hs⟩ := Option.bind_eq_some_iff.1 hs
    have hk := h.kept op (List.mem_of_getElem? hop)
    split at hs
    · next hc =>
      cases hs
      refine h.moves h.clustered ((hk.moves (by rw [hc.1]; nofun) (fun he => by cases he) (fun hst => ?_)
        fun hst => ?_).mono id id) (fun n hn => hn) fun n hn => hn
      · rcases hst with hst | hst <;> cases hst
      · rcases hst with hst | hst | hst <;> cases hst
    · cases hs
  | release o p =>
    obtain ⟨op, hop, hs⟩ := Option.bind_eq_some_iff.1 hs
    have hk := h.kept op (List.mem_of_getElem? hop)
    obtain ⟨hf, hl, hc⟩ := release_frame c.locks op.inst p
    split at hs
    · next hstage =>
      cases hs
      refine h.moves (hc.trans h.clustered) ((hk.moves (by rw [hstage]; nofun) (fun he => by cases he)
        (fun hst => ?_) fun hst => ?_).mono (fun hn => hl ▸ hn) fun hn => hf ▸ hn) (fun n hn => hl ▸ hn)
        fun n hn => hf ▸ hn
      · rcases hst with hst | hst <;> cases hst
      · rcases hst with hst | hst | hst <;> cases hst
    · cases hs
  | removeFence o =>
    obtain ⟨op, hop, hs⟩ := Option.bind_eq_some_iff.1 hs
    have hmem := List.mem_of_getElem? hop
    split at hs
    · next hstage =>
      cases hs
      have hg : (c.ops[o]?).all (fun op => c.quietOn kind op.inst) = true := hg
      rw [hop, Option.all_some] at hg
      have hun := h.unfence hg
      refine hun.moves hun.clustered ((hun.kept op hmem).moves (by rw [hstage]; nofun)
        (fun he => by cases he) (fun hst => ?_) fun hst => ?_) (fun n hn => hn) fun n hn => hn
      · rcases hst with hst | hst <;> cases hst
      · rcases hst with hst | hst | hst <;> cases hst
    · cases hs
  | reapCheck name nowMs =>
    obtain ⟨sm, -, hs⟩ := Option.bind_eq_some_iff.1 hs
    split at hs
    · cases hs
      exact ⟨h.clustered, h.kept, h.heeds⟩
    · cases hs
  | reapRelease k p => exact h.reapRelease hs
  | reapEnd k =>
    obtain ⟨r, hr, hs⟩ := Option.bind_eq_some_iff.1 hs
    split at hs
    · cases hs
      have hg : (c.reaping[k]?).all (fun r => c.quietOn kind r.1) = true := hg
      rw [hr, Option.all_some] at hg
      have hun := h.unfence hg
      exact ⟨hun.clustered, hun.kept, hun.heeds⟩
    · cases hs
  | entry a =>
    obtain ⟨sm, -, rfl⟩ := Option.map_eq_some_iff.1 hs
    exact ⟨rfl, fun op hop => (h.kept op hop).mono id id, h.heeds⟩

theorem Inv.initial (h : Initial c) : Inv kind c := by
  obtain ⟨hc, -, -, hops, -, hacts⟩ := h
  refine ⟨hc, fun op hop => ?_, fun a ha => ?_⟩
  · rw [hops] at hop
    cases hop
  · rw [hacts] at ha
    cases ha

/-- **The loss of a lease is heeded.** In every run in which a loss is recorded and a fence removed
only when nothing is left to begin on the instance, no step that begins later acts on a back end, and
none of a locked operation acts without a fence. -/
theorem loss_heeded {hist : History (Controller Step) (ControlEvent Step)}
    (hr : Run (step kind) (fun _ c e => c.inTime kind e = true) Initial hist c) : Heeds c := by
  have hinv : Inv kind c := by
    refine Run.invariant (I := fun _ c => Inv kind c) (fun c h0 => .initial h0) ?_ hr
    intro hist c e c' _ hi hg hs
    exact hi.step hg hs
  exact hinv.heeds

/-- A manager of a cluster that was just started. -/
def fresh : Controller Step :=
  ⟨⟨∅, ∅, ∅, "node-1", 60, .cluster (.new 0 1000)⟩, ∅, [], [], []⟩

theorem fresh_initial : Initial (fresh : Controller Step) := ⟨rfl, rfl, rfl, rfl, rfl, rfl⟩

end Controller

end

/-- The steps that change something on an execution back end. -/
def Step.changesBackend : Step → Bool
  | .dockerRun .. | .dockerExec .. | .dockerRm .. | .networkCreate .. | .networkRm .. | .execSql ..
  | .verifyReplication .. | .verifyXenon .. | .dtsRun .. | .replaceNodeCore .. | .migrateInstance .. =>
    true
  | _ => false

namespace Controller

/-- A node that starts one container. -/
def starter (id : String) (deps : List String) : TaskNode Step :=
  ⟨id, id, deps, 0, none, [.dockerRun ("rds-db-" ++ id) []]⟩

/-- An operation locks its instance, submits a task, and the first node starts its container. -/
def runsTask (nodes : List (TaskNode Step)) : List (ControlEvent Step) :=
  [.lock "db" (some .task), .acquire 0 ⟨0, .answered ⟨1, 1, 5⟩⟩, .insertFence 0, .clearLost 0,
    .insertLock 0, .submit 0 nodes, .move 0 .start, .move 0 (.spawn none), .begin 0 0, .act 0 0]

/-- A renewal is refused, and the watcher unlocks the instance. -/
def losesLease : List (ControlEvent Step) :=
  [.poll 0, .renew 0 (.failed (.held "node-2")) 100, .note 0]

def unlocks : List (ControlEvent Step) :=
  [.look 0, .removeLock 0, .release 0 (.failed .quorum), .removeFence 0]

/-- The node ends, and the loop goes on. -/
def nodeEnds : List (ControlEvent Step) :=
  [.move 0 (.answer 0 (.ok "")), .move 0 (.leave 0), .move 0 (.join 0)]

/-- The lease is lost during the last step of a task. -/
theorem loss_heeded_last : ∃ hist c, Run (step Step.changesBackend)
    (fun _ c e => c.inTime Step.changesBackend e = true) Initial hist c ∧
    c.locks.leaseLost.contains "db" = true ∧ c.acts.length = 1 ∧ Heeds c := by
  have hf : (follow (step Step.changesBackend) (fun _ c e => c.inTime Step.changesBackend e = true)
      (runsTask [starter "a" []] ++ losesLease ++ nodeEnds ++ [.move 0 .close] ++ unlocks) [] fresh).map
      (fun r => (r.2.locks.leaseLost.contains "db", r.2.acts.length)) = some (true, 1) := by
    decide +kernel
  obtain ⟨⟨hist, c⟩, hf, hc⟩ := Option.map_eq_some_iff.1 hf
  obtain ⟨hlost, hone⟩ := Prod.mk.inj hc
  have hr := Run.follow (.start fresh_initial) hf
  exact ⟨hist, c, hr, hlost, hone, loss_heeded hr⟩

/-- The second container is started after the loss, without a fence. -/
theorem loss_unheeded : ¬ ∀ hist c, Run (step Step.changesBackend) (fun _ _ _ => True) Initial hist c →
    Heeds c := by
  intro hall
  have hf : (follow (step Step.changesBackend) (fun _ _ _ => True)
      (runsTask [starter "a" [], starter "b" ["a"]] ++ losesLease ++ unlocks ++ nodeEnds ++
        [.move 0 (.spawn none), .begin 0 0, .act 0 0]) [] fresh).map
      (fun r => (r.2.acts[1]?).map fun a => (a.late, a.adopted, a.fence)) =
      some (some (true, false, none)) := by
    decide +kernel
  obtain ⟨⟨hist, c⟩, hf, hc⟩ := Option.map_eq_some_iff.1 hf
  obtain ⟨a, ha, hlate⟩ := Option.map_eq_some_iff.1 hc
  have hheeds := hall hist c (Run.follow (.start fresh_initial) hf) a (List.mem_of_getElem? ha)
  rw [(Prod.mk.inj hlate).1] at hheeds
  cases hheeds.1

end Controller

end Rdsctl.Inst
