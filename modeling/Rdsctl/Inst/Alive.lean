import Rdsctl.Inst.Orderly

/-!
# Live instances

An instance that is destroyed stays so: the work at hand gives the status of a record that is not live
only when it destroys it.
-/

namespace Rdsctl.Inst

open Ha Dag

/-- The record is of a live instance. -/
def Manager.aliveOf (m : Manager) (k : String) : Bool := (m.records k).any (·.2.2)

/-- Work leaves live records live, or it destroys them. -/
def Work.Spares (alive : String → Bool) (w : Work) : Prop :=
  (∀ inst status, w.Marks inst status → status = .destroyed) ∨
    ∀ inst status, w.Marks inst status → status ≠ .destroyed ∧ alive inst = true

namespace Registry

variable {r r' : Registry} {ev : RegistryEvent} {m m' : Manager} {k name : String}
  {i i' : RdsInstance}

theorem aliveOf_of_get (hi : m.instances[k]? = some i) : m.aliveOf k = i.alive := by
  unfold Manager.aliveOf Manager.records
  rw [hi]
  rfl

theorem aliveOf_congr (h : ∀ k, m'.records k = m.records k) : m'.aliveOf = m.aliveOf := by
  funext k
  unfold Manager.aliveOf
  rw [h k]

theorem Sets.aliveOf (h : r.Sets r' name i') (k : String) :
    r'.manager.aliveOf k = if name = k then i'.alive else r.manager.aliveOf k := by
  unfold Manager.aliveOf
  rw [h k]
  split <;> rfl

/-- An update that leaves the status. -/
theorem Sets.alive_same (h : r.Sets r' name i') (hi : r.manager.instances[name]? = some i)
    (ha : i'.alive = i.alive) : r'.manager.aliveOf = r.manager.aliveOf := by
  refine funext fun k => ?_
  rw [h.aliveOf]
  split
  · next heq => rw [← heq, aliveOf_of_get hi, ha]
  · rfl

/-- Work of a creation leaves its record live. -/
theorem spares_created {s : Surroundings} {sid : Nat} {n id : String} {o : CreateOpts}
    {plan : RdsInstance × List (TaskNode Step)} (hplan : Planned s sid n o plan)
    {alive : String → Bool} (halive : alive n = true) :
    (Work.task id "create" n (createGraph n o plan.1 plan.2) .task).Spares alive := by
  have hname : plan.1.name = n := by
    cases hplan with
    | xenon hx hb => exact (buildXenonInst_ok hb).1
    | multi => rfl
    | single => rfl
  refine .inr fun inst status hmark => ?_
  cases hmark with
  | step hstep =>
    obtain ⟨node, hnode, hstep⟩ := Work.mem_steps.1 hstep
    cases hplan.steps node hnode _ hstep with
    | done => exact ⟨by decide, by rw [hname]; exact halive⟩
    | other h => cases h

theorem orchRollbackCheck_running {prev : String} {noop : Bool}
    (h : orchRollbackCheck name m = .ok (prev, noop)) :
    ∃ i, m.instances[name]? = some i ∧ i.status = .running := by
  unfold orchRollbackCheck at h
  replace h : (if name = "" then .error _ else m.assertState name .running >>= fun i => _) =
    .ok (prev, noop) := h
  split at h
  · cases h
  obtain ⟨i, hstate, -⟩ := Submission.bind_eq_ok h
  exact ⟨i, Submission.assertState_ok hstate⟩

/-- Work that a call hands out leaves its record live, or destroys it. -/
theorem spares_handed {e : Entry} {s : Surroundings} {w : Work} (hs : m.Sound)
    (h : Hands s m e w) : w.Spares m.aliveOf := by
  have hops := h.steps hs
  have hrunning {inst : String} {i : RdsInstance} (hi : m.instances[inst]? = some i)
      (hr : i.status = .running) : m.aliveOf inst = true := by
    rw [aliveOf_of_get hi]
    exact alive_of_running hr
  have hdegraded {inst mode opId : String} {target : Option String}
      (halive : m.aliveOf inst = true) : (Work.reparent inst target mode opId).Spares m.aliveOf := by
    refine .inr fun inst' status hmark => ?_
    cases hmark with
    | step hstep => cases hstep
    | failed => exact ⟨by decide, halive⟩
  have htask {id kind inst : String} {nodes : List (TaskNode Step)} {watcher : Watcher}
      (hw : w = .task id kind inst nodes watcher) (hno : ∀ name, e ≠ .destroy name) :
      w.Spares m.aliveOf := by
    refine .inr fun inst' status hmark => ?_
    cases hmark with
    | step hstep =>
      have hop := hops _ hstep
      generalize hname : w.inst = name at hop
      cases hop with
      | destroyed => exact absurd rfl (hno _)
      | running he hi hr => exact ⟨by decide, hrunning hi hr⟩
      | other h => cases h
    | failed => cases hw
  cases h with
  | destroy hc =>
    refine .inl fun inst status hmark => ?_
    cases hmark with
    | step hstep =>
      have hop := hops _ hstep
      generalize hname : Work.inst _ = name at hop
      cases hop with
      | destroyed => rfl
      | running he => exact absurd rfl (he _)
      | other h => cases h
  | scaleout => exact htask rfl nofun
  | replace => exact htask rfl nofun
  | migrate => exact htask rfl nofun
  | backup => exact htask rfl nofun
  | reparent hc =>
    obtain ⟨i, hi, hr⟩ := Submission.orchReparentCheck_running hc
    exact hdegraded (hrunning hi hr)
  | rollback hc =>
    obtain ⟨i, hi, hr⟩ := orchRollbackCheck_running hc
    exact hdegraded (hrunning hi hr)

end Registry

end Rdsctl.Inst
