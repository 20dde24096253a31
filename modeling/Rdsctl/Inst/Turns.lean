import Rdsctl.Inst.Calls
import Rdsctl.Inst.SwitchLoss

/-!
# What events do to a registry

Every event of a registry as what it does to the records, to the containers started and to the work at
hand (`Turn`). Nodes only change when one joins, when one is replaced or moved, and in a switch.
-/

namespace Rdsctl.Inst

open Ha Dag Fallible

/-- The statuses that work may give a record. -/
inductive Work.Marks : Work → String → InstStatus → Prop
  | step {w : Work} {inst status : String} (h : .updateInstanceStatus inst status ∈ w.steps) :
      Marks w inst (statusNamed status)
  | failed {inst mode opId : String} {target : Option String} :
      Marks (.reparent inst target mode opId) inst .degraded

namespace Registry

/-- The records of one registry are those of another, but for one. -/
def Sets (r r' : Registry) (name : String) (i : RdsInstance) : Prop :=
  ∀ k, r'.manager.records k = if name = k then some i.core else r.manager.records k

/-- What an event does. -/
inductive Turn (r : Registry) : RegistryEvent → Registry → Prop
  | called {e : Entry} {s : Surroundings} {m' : Manager} (hidle : r.manager.work = [])
      (h : CallTurn s r.manager e m') : Turn r (.call e s) ⟨m', r.started, false⟩
  | quiet {ev : RegistryEvent} {r' : Registry}
      (hrecords : ∀ k, r'.manager.records k = r.manager.records k) (hstarted : r'.started = r.started)
      (hjoined : r.joined = true → r'.joined = true)
      (hwork : ∀ w ∈ r'.manager.work, w ∈ r.manager.work) : Turn r ev r'
  | marked {ev : RegistryEvent} {r' : Registry} {w : Work} {inst : String} {status : InstStatus}
      {i : RdsInstance} (hw : r.manager.work = [w]) (hmark : w.Marks inst status)
      (hi : r.manager.instances[inst]? = some i) (hset : r.Sets r' inst (i.withStatus status))
      (hstarted : r'.started = r.started) (hjoined : r'.joined = r.joined)
      (hwork : ∀ w ∈ r'.manager.work, w ∈ r.manager.work) : Turn r ev r'
  | started {p : Process} {w : Work} {container : String} {args : List String}
      (hw : r.manager.work = [w]) (hstep : .dockerRun container args ∈ w.steps) :
      Turn r (.perform p (.dockerRun container args)) (r.start w.inst container args)
  | replaced {p : Process} {w : Work} {inst node host : String} {hostPort sid : Nat} {i : RdsInstance}
      (hw : r.manager.work = [w]) (hstep : .replaceNodeCore inst node host hostPort sid ∈ w.steps)
      (hi : r.manager.instances[inst]? = some i) :
      Turn r (.perform p (.replaceNodeCore inst node host hostPort sid))
        (r.start inst node (mysqlArgs p i.network (some hostPort) sid []))
  | joined {p : Process} {w : Work} {inst container role region az shard parent : String}
      {hostPort sid : Nat} {i : RdsInstance} {r' : Registry} (hw : r.manager.work = [w])
      (hstep : .updateInstanceTopology inst container role hostPort sid region az shard parent ∈ w.steps)
      (hi : r.manager.instances[inst]? = some i)
      (hset : r.Sets r' inst (i.addNode container role hostPort sid region az shard parent))
      (hstarted : r'.started = r.started) (hjoined : r'.joined = true)
      (hwork : r'.manager.work = r.manager.work) :
      Turn r (.perform p (.updateInstanceTopology inst container role hostPort sid region az shard
        parent)) r'
  | committed {p : Process} {w : Work} {inst node host : String} {hostPort sid : Nat}
      {i : RdsInstance} {r' : Registry} (hw : r.manager.work = [w])
      (hstep : .replaceNodeCommit inst node host hostPort sid ∈ w.steps)
      (hi : r.manager.instances[inst]? = some i)
      (hset : r.Sets r' inst (i.commitReplace node host hostPort sid))
      (hstarted : r'.started = r.started) (hjoined : r'.joined = r.joined)
      (hwork : r'.manager.work = r.manager.work) :
      Turn r (.perform p (.replaceNodeCommit inst node host hostPort sid)) r'
  | moved {p : Process} {w : Work} {node host : String} {hostPort : Nat} {starts commits : Bool}
      {i : RdsInstance} {r' : Registry} (hw : r.manager.work = [w])
      (hmig : w.steps.any Step.isMigration = true) (hi : r.manager.instances[w.inst]? = some i)
      (hmov : i.movable node = true)
      (hset : if commits then r.Sets r' w.inst (i.commitReplace node host hostPort (i.maxServerId + 1))
        else ∀ k, r'.manager.records k = r.manager.records k)
      (hstarted : r'.started = r.started ++ if starts then
        [⟨r.manager.recordsMaster w.inst node,
          mysqlArgs p i.network (some hostPort) (i.maxServerId + 1) []⟩] else [])
      (hjoined : r'.joined = r.joined) (hwork : r'.manager.work = r.manager.work) :
      Turn r (.move p node host hostPort starts commits) r'
  | settled {w : Work} {region az hosts : String} {i : RdsInstance} {r' : Registry}
      (hw : r.manager.work = [w]) (hmig : w.steps.any Step.isMigration = true)
      (hi : r.manager.instances[w.inst]? = some i)
      (hset : r.Sets r' w.inst (i.atSite region az)) (hstarted : r'.started = r.started)
      (hjoined : r'.joined = r.joined) (hwork : r'.manager.work = r.manager.work) :
      Turn r (.settle region az hosts) r'
  | switched {e : SwitchEnv} {servers : Servers} {answer : Proposal} {inst mode opId cand : String}
      {target : Option String} {i : RdsInstance} {m : InstNode} {r' : Registry}
      (hw : r.manager.work = [.reparent inst target mode opId])
      (hi : r.manager.instances[inst]? = some i) (hm : i.master = some m)
      (hpicked : Picked i.itype e.facts target cand) (hknows : i.knows e.facts = true)
      (hproceeds : Proceeds ⟨r.manager, servers⟩ e m.container cand mode)
      (hfailing : failing ⟨r.manager, servers⟩ e cand = none) (hset : r.Sets r' inst (i.swapRoles m.container cand))
      (hstarted : r'.started = r.started) (hjoined : r'.joined = r.joined)
      (hwork : r'.manager.work = []) : Turn r (.switch e servers answer) r'

section

variable {r r' : Registry} {ev : RegistryEvent}

theorem sets_of_alter {name : String} {i : RdsInstance} (f : RdsInstance → RdsInstance)
    (hi : r.manager.instances[name]? = some i)
    (hm : r'.manager = (r.manager.alterInstance name f).persist) : r.Sets r' name (f i) := by
  intro k
  rw [hm, Manager.records_alter_some hi]

/-- A record that does not exist is not altered. -/
theorem records_of_alter_none {m : Manager} {name : String} {f : RdsInstance → RdsInstance}
    (hi : m.instances[name]? = none) (k : String) :
    (m.alterInstance name f).persist.records k = m.records k := by
  rw [Manager.records_alter]
  split
  · next heq => rw [← heq, Manager.records, hi]; rfl
  · rfl

theorem alter_work (m : Manager) (name : String) (f : RdsInstance → RdsInstance) :
    (m.alterInstance name f).persist.work = m.work :=
  Manager.alterInstance_work _ _ _

/-- A step of a task. -/
theorem performStep_turn {w : Work} (hw : r.manager.work = [w]) (p : Process) {step : Step}
    (hstep : step ∈ w.steps) : Turn r (.perform p step) (r.performStep p w.inst step) ∧
      (r.manager.Sound → (r.performStep p w.inst step).manager.Sound) := by
  cases step with
  | dockerRun container args => exact ⟨.started hw hstep, fun h => h⟩
  | replaceNodeCore inst node host hostPort sid =>
    cases hi : r.manager.instances[inst]? with
    | none =>
      have hsame : r.performStep p w.inst (.replaceNodeCore inst node host hostPort sid) = r := by
        simp only [performStep, hi]
      rw [hsame]
      exact ⟨.quiet (fun _ => rfl) rfl (fun h => h) fun _ h => h, fun h => h⟩
    | some i =>
      have hstart : r.performStep p w.inst (.replaceNodeCore inst node host hostPort sid) =
          r.start inst node (mysqlArgs p i.network (some hostPort) sid []) := by
        simp only [performStep, hi]
      rw [hstart]
      exact ⟨.replaced hw hstep hi, fun h => h⟩
  | updateInstanceStatus inst status =>
    refine ⟨?_, fun h => h.updateInstanceStatus inst status⟩
    have hwork : (r.manager.updateInstanceStatus inst status).work = r.manager.work :=
      alter_work _ _ _
    cases hi : r.manager.instances[inst]? with
    | none =>
      refine .quiet (records_of_alter_none hi) rfl (fun h => h) fun w' hw' => ?_
      rwa [performStep, hwork] at hw'
    | some i =>
      refine .marked hw (.step hstep) hi (sets_of_alter (·.withStatus (statusNamed status)) hi rfl) rfl
        rfl fun w' hw' => ?_
      rwa [performStep, hwork] at hw'
  | updateInstanceTopology inst container role hostPort sid region az shard parent =>
    refine ⟨?_, fun h => h.alter fun _ => rfl⟩
    have hwork : (r.manager.updateInstanceTopology inst container role hostPort sid region az shard
        parent).work = r.manager.work := alter_work _ _ _
    cases hi : r.manager.instances[inst]? with
    | none =>
      refine .quiet (records_of_alter_none hi) rfl (fun _ => rfl) fun w' hw' => ?_
      rwa [performStep, hwork] at hw'
    | some i =>
      exact .joined hw hstep hi
        (sets_of_alter (·.addNode container role hostPort sid region az shard parent) hi rfl) rfl rfl
        hwork
  | replaceNodeCommit inst node host hostPort sid =>
    refine ⟨?_, fun h => h.alter fun _ => rfl⟩
    have hwork : (r.manager.commitReplaceNode inst node host hostPort sid).work = r.manager.work :=
      alter_work _ _ _
    cases hi : r.manager.instances[inst]? with
    | none =>
      refine .quiet (records_of_alter_none hi) rfl (fun h => h) fun w' hw' => ?_
      rwa [performStep, hwork] at hw'
    | some i =>
      exact .committed hw hstep hi (sets_of_alter (·.commitReplace node host hostPort sid) hi rfl) rfl
        rfl hwork
  | _ => exact ⟨.quiet (fun _ => rfl) rfl (fun h => h) fun _ h => h, fun h => h⟩

theorem moveNode_turn {w : Work} (hw : r.manager.work = [w])
    (hmig : w.steps.any Step.isMigration = true) {i : RdsInstance}
    (hi : r.manager.instances[w.inst]? = some i) (p : Process) {node host : String} {hostPort : Nat}
    (hmov : i.movable node = true) (starts commits : Bool) :
    Turn r (.move p node host hostPort starts commits)
        (r.moveNode p w.inst i node host hostPort starts commits) ∧
      (r.manager.Sound → (r.moveNode p w.inst i node host hostPort starts commits).manager.Sound) := by
  have hcommit : (r.manager.commitReplaceNode w.inst node host hostPort (i.maxServerId + 1)).work =
      r.manager.work := alter_work _ _ _
  have hsound (h : r.manager.Sound) :
      (r.manager.commitReplaceNode w.inst node host hostPort (i.maxServerId + 1)).Sound :=
    h.alter fun _ => rfl
  have hset {r' : Registry}
      (hm : r'.manager = r.manager.commitReplaceNode w.inst node host hostPort (i.maxServerId + 1)) :
      r.Sets r' w.inst (i.commitReplace node host hostPort (i.maxServerId + 1)) :=
    sets_of_alter (·.commitReplace node host hostPort (i.maxServerId + 1)) hi hm
  cases commits with
  | true =>
    cases starts with
    | true => exact ⟨.moved hw hmig hi hmov (hset rfl) rfl rfl hcommit, hsound⟩
    | false => exact ⟨.moved hw hmig hi hmov (hset rfl) (List.append_nil _).symm rfl hcommit, hsound⟩
  | false =>
    cases starts with
    | true => exact ⟨.moved hw hmig hi hmov (fun _ => rfl) rfl rfl rfl, fun h => h⟩
    | false =>
      exact ⟨.moved hw hmig hi hmov (fun _ => rfl) (List.append_nil _).symm rfl rfl, fun h => h⟩

theorem rolledBack_manager (st : SwitchState) (e : SwitchEnv) (old : String) (alive : Bool) :
    (rolledBack st e old alive).manager = st.manager := by
  unfold rolledBack
  split <;> rfl

/-- A managed switch fails, or swaps the roles of the first master and of what it picks. -/
theorem afterSwitch_cases (e : SwitchEnv) (st : SwitchState) (inst : String) (target : Option String)
    (mode : String) :
    let m' := Manager.afterSwitch inst (exec (reparentCore e inst target mode) st)
    (∃ msg, m' = st.manager.switchFailed inst msg) ∨
      ∃ i m cand, st.manager.instances[inst]? = some i ∧ i.master = some m ∧
        Picked i.itype e.facts target cand ∧ Proceeds st e m.container cand mode ∧
        failing st e cand = none ∧ m' = st.manager.switched inst m.container cand i := by
  have hfailed {msg : String} (hrun : exec (reparentCore e inst target mode) st = (.error msg, st)) :
      Manager.afterSwitch inst (exec (reparentCore e inst target mode) st) =
        st.manager.switchFailed inst msg := by
    rw [hrun]
    rfl
  intro m'
  cases hi : st.manager.instances[inst]? with
  | none =>
    refine .inl ⟨"实例 " ++ inst ++ " 不存在", hfailed ?_⟩
    unfold reparentCore
    rw [exec_get_bind]
    simp only [hi]
    rfl
  | some i =>
    cases hm : i.master with
    | none =>
      refine .inl ⟨"实例 " ++ inst ++ " 缺主节点,无法切换", hfailed ?_⟩
      unfold reparentCore
      rw [exec_get_bind]
      simp only [hi, hm]
      rfl
    | some m =>
      cases hcand : chooseCandidate inst i.itype e.facts target with
      | error msg =>
        refine .inl ⟨msg, hfailed ?_⟩
        unfold reparentCore
        rw [exec_get_bind]
        simp only [hi, hm, hcand]
        rfl
      | ok cand =>
        have hm' : m' = Manager.afterSwitch inst
            (exec (switchTo e inst m.container cand mode) st) :=
          congrArg (Manager.afterSwitch inst) (exec_reparentCore hi hm hcand)
        have hturn : SwitchTurn e st inst m.container cand mode i _ :=
          switchTo_turn hi (swaps_master hm cand)
        rw [hm']
        generalize exec (switchTo e inst m.container cand mode) st = out at hturn
        cases hturn with
        | @early msg h => exact .inl ⟨msg, rfl⟩
        | @failed call msg h hf =>
          refine .inl ⟨msg, congrArg (Manager.switchFailed · inst msg) ?_⟩
          rw [rolledBack_manager, SwitchState.alter_manager, halted_manager]
        | done h hf hs hman =>
          exact .inr ⟨i, m, cand, rfl, hm, chooseCandidate_ok.1 hcand, h, hf, hman⟩

theorem sound_switched {m : Manager} (h : m.Sound) {inst old cand : String} {i : RdsInstance}
    (hi : m.instances[inst]? = some i) : (m.switched inst old cand i).Sound := by
  have hsame : Manager.Sound { m with evidence := m.evidence ++
      [Evidence.mk inst "reparent_snapshot" (some old)] } := h.congr rfl rfl
  exact hsame.insert (h.named inst i hi)

/-- What an event does, and that it leaves a sound manager. -/
theorem step_turn (hs : r.manager.Sound) (h : r.step ev = some r') :
    Turn r ev r' ∧ r'.manager.Sound := by
  have hact : r.act ev = some r' := (Option.filter_eq_some_iff.1 h).1
  cases ev with
  | call e s =>
    simp only [act] at hact
    split at hact
    · next hidle =>
      cases hact
      have hturn := e.run_callTurn s r.manager
      refine ⟨.called (List.isEmpty_iff.1 hidle) hturn, ?_⟩
      show (exec (e.run s) r.manager).2.Sound
      generalize (exec (e.run s) r.manager).2 = m' at hturn
      cases hturn with
      | kept hi hp => exact hs.congr hi hp
      | handed hh hrecords hsound => exact hsound hs
      | @created name n o i dag m' id he hc hplan hi hp hw =>
        have hname : i.name = n := by
          cases hplan with
          | xenon hx hb =>
            exact (congrArg Topology.name rfl).trans (buildXenonInst_ok hb).1
          | multi => rfl
          | single => rfl
        exact (hs.insert hname).congr hi hp
    · cases hact
  | perform p step =>
    simp only [act] at hact
    split at hact
    · next w hw =>
      split at hact
      · next hstep =>
        cases hact
        obtain ⟨hturn, hsound⟩ := performStep_turn hw p hstep
        exact ⟨hturn, hsound hs⟩
      · cases hact
    · cases hact
  | move p node host hostPort starts commits =>
    simp only [act] at hact
    split at hact
    · next w hw =>
      split at hact
      · next hmig =>
        split at hact
        · next i hi =>
          split at hact
          · next hmov =>
            cases hact
            obtain ⟨hturn, hsound⟩ := moveNode_turn hw hmig hi p hmov starts commits
            exact ⟨hturn, hsound hs⟩
          · cases hact
        · cases hact
      · cases hact
    · cases hact
  | settle region az hosts =>
    simp only [act] at hact
    split at hact
    · next w hw =>
      split at hact
      · next hstep =>
        cases hact
        refine ⟨?_, hs.alter fun _ => rfl⟩
        have hwork : (r.manager.alterInstance w.inst (·.atSite region az)).persist.work =
            r.manager.work := alter_work _ _ _
        cases hi : r.manager.instances[w.inst]? with
        | none =>
          refine .quiet (records_of_alter_none hi) rfl (fun h => h) fun w' hw' => ?_
          rwa [hwork] at hw'
        | some i =>
          exact .settled hw (List.any_eq_true.2 ⟨_, hstep, rfl⟩) hi
            (sets_of_alter (·.atSite region az) hi rfl) rfl rfl hwork
      · cases hact
    · cases hact
  | switch e servers answer =>
    simp only [act] at hact
    split at hact
    · next inst target mode opId hw =>
      split at hact
      · next hknows =>
        cases hact
        rcases afterSwitch_cases e ⟨r.manager, servers⟩ inst target mode with
          ⟨msg, heq⟩ | ⟨i, m, cand, hi, hm, hpicked, hproceeds, hfailing, heq⟩
        · rw [heq]
          refine ⟨?_, ((hs.switchFailed inst msg).unlock inst answer).congr rfl rfl⟩
          cases hi : r.manager.instances[inst]? with
          | none =>
            exact .quiet (records_of_alter_none hi) rfl (fun h => h) fun w hw => by cases hw
          | some i =>
            exact .marked hw .failed hi (Manager.records_alter_some hi) rfl rfl
              fun w hw => by cases hw
        · rw [heq]
          refine ⟨?_, ((sound_switched hs hi).unlock inst answer).congr rfl rfl⟩
          have hi' : r.manager.instances[inst]? = some i := hi
          rw [hi'] at hknows
          exact .switched hw hi hm hpicked hknows hproceeds hfailing (Manager.records_insert _) rfl
            rfl rfl
      · cases hact
    · cases hact
  | finish failed answer =>
    simp only [act] at hact
    split at hact
    · next id kind inst nodes watcher hw =>
      cases hact
      refine ⟨.quiet (Manager.records_taskEnded inst id watcher failed answer) rfl (fun h => h) ?_,
        (hs.taskEnded inst id watcher failed answer).congr rfl rfl⟩
      intro w' hw'
      cases hw'
    · cases hact
  | restart p resumes =>
    cases hact
    refine ⟨.quiet (Manager.records_loadPersisted hs p) rfl (fun h => h) fun w hw => ?_,
      (hs.loadPersisted p).congr rfl rfl⟩
    cases resumes with
    | true => exact (List.mem_filter.1 hw).1
    | false => cases hw

/-- A vector of a record is not full. -/
theorem length_lt (h : r.step ev = some r') {k : String} {i : RdsInstance}
    (hi : r'.manager.instances[k]? = some i) : i.nodes.length < 2 ^ 63 := by
  have hfits : r'.fits = true := (Option.filter_eq_some_iff.1 h).2
  unfold fits at hfits
  rw [BTreeMap.values_eq_map_toList, List.all_map, List.all_eq_true] at hfits
  exact of_decide_eq_true (hfits (k, i) (Std.ExtTreeMap.mem_toList_iff_getElem?_eq_some.2 hi))

end

end Registry

end Rdsctl.Inst
