import Rdsctl.Inst.Hosts
import Rdsctl.Inst.Stale
import Rdsctl.Lib.Procedure

/-!
# Replacing a node

`src/instance.rs`, `exec_replace_node_core` and `commit_replace_node`: a stand-in `node-rnx` is
started on the target host, catches up with the master and takes the name of the node once its old
container is removed; then the registry follows. The procedure is begun again when a call has failed
or the process has stopped, and finds out from the containers how far it has come.

What the calls answer is left open. A replacement is resumable (`Replacement.Resumable`) along every
run whose steps are `Replacement.Orderly`, and each condition of `Orderly` stands for a point of
failure from which it is not.
-/

namespace Rdsctl.Inst

open Ha

/-! ## The procedure -/

/-- A MySQL container that runs. -/
structure Box where
  serverId : Nat
  port : Nat
  /-- where it replicates from -/
  source : Option String
deriving DecidableEq, Repr

/-- `CHANGE REPLICATION SOURCE TO …; START REPLICA;` -/
def Box.attach (b : Box) (source : String) : Box := { b with source := some source }

/-- A replacement, as `ReplaceNodeCore` and `ReplaceNodeCommit` are given it. -/
structure Replacement where
  inst : String
  node : String
  host : String
  hostPort : Nat
  serverId : Nat
deriving DecidableEq, Repr

/-- What `exec_replace_node_core` reads before its first call. -/
structure ReplacePlan where
  target : NodeRoute
  old : NodeRoute
  source : NodeRoute
  master : String
deriving DecidableEq, Repr

/-- The calls of a replacement, in their order. -/
inductive ReplaceCall where
  /-- the stand-in exists -/
  | standIn
  | run
  | ready
  | attach
  | readyAgain
  /-- `wait_slave_caught` -/
  | caughtUp
  /-- `r_rm` of the stand-in, when it does not catch up -/
  | giveUp
  | giveUpRemove
  /-- `r_rm` of the old container -/
  | old
  | oldRemove
  /-- the target has a container of the node's name -/
  | inPlace
  /-- `r_rm` of the stand-in, when the node is in place -/
  | spare
  | spareRemove
  | rename
  | renamed
  /-- `ReplaceNodeCommit` -/
  | commit
deriving DecidableEq, Repr

namespace Replacement

variable (d : NodeRoute → Nat) (r : Replacement)

/-- The name of the stand-in. -/
def temp : String := r.node ++ "-rnx"

/-- The stand-in when it has been started. -/
def fresh : Box := ⟨r.serverId, r.hostPort, none⟩

/-- What `exec_replace_node_core` reads and checks before its first call. -/
def plan (m : Manager) : Except String ReplacePlan :=
  match m.instances[r.inst]? with
  | none => .error ("实例 " ++ r.inst ++ " 不存在")
  | some i => do
    let target ← targetRoute r.host m.hosts
    let old := resolveRouteOf i r.node m.hosts
    if old.isOn (trimmed r.host) then
      throw ("节点 " ++ r.node ++ " 已在宿主机 " ++ r.host ++ ",无需替换")
    match i.master with
    | none => throw ("实例 " ++ r.inst ++ " 缺少主节点,无法替换")
    | some n =>
      if n.container = r.node then
        throw ("主节点不可直接替换:请先用受管 PRS 把主角色切到健康从,再替换该节点" ++
          "(见 docs/meta-authority.md)")
      pure ⟨target, old, resolveRouteOf i n.container m.hosts, n.container⟩

/-- `exec_replace_node_core` and `commit_replace_node`, call by call. -/
def call : ReplaceCall × ReplacePlan → Bool → Hosts Box → Hosts Box × Option (ReplaceCall × ReplacePlan)
  | (.standIn, p), ok, s =>
    (s, some (if ok && (s.box d p.target r.temp).isSome then .readyAgain else .run, p))
  | (.run, p), ok, s =>
    match if ok then s.run d Box.port p.target r.temp r.fresh else none with
    | some s => (s, some (.ready, p))
    | none => (s, none)
  | (.ready, p), ok, s =>
    (s, if ok && (s.box d p.target r.temp).isSome then some (.attach, p) else none)
  | (.attach, p), ok, s =>
    match if ok then s.alter d p.target r.temp (·.attach p.master) else none with
    | some s => (s, some (.caughtUp, p))
    | none => (s, none)
  | (.readyAgain, p), ok, s =>
    (s, if ok && (s.box d p.target r.temp).isSome then some (.caughtUp, p) else none)
  | (.caughtUp, p), ok, s =>
    -- its threads have to run
    (s, some (if ok && (s.box d p.target r.temp).any (·.source = some p.master) then .old
      else .giveUp, p))
  | (.giveUp, p), ok, s =>
    (s, if ok && (s.box d p.target r.temp).isSome then some (.giveUpRemove, p) else none)
  | (.giveUpRemove, p), ok, s => (if ok then s.remove d p.target r.temp else s, none)
  | (.old, p), ok, s =>
    (s, some (if ok && (s.box d p.old r.node).isSome then .oldRemove else .inPlace, p))
  | (.oldRemove, p), ok, s => (if ok then s.remove d p.old r.node else s, some (.inPlace, p))
  | (.inPlace, p), ok, s =>
    (s, some (if ok && (s.box d p.target r.node).isSome then .spare else .rename, p))
  | (.spare, p), ok, s =>
    (s, some (if ok && (s.box d p.target r.temp).isSome then .spareRemove else .commit, p))
  | (.spareRemove, p), ok, s =>
    (if ok then s.remove d p.target r.temp else s, some (.commit, p))
  | (.rename, p), ok, s =>
    match if ok then s.rename d p.target r.temp r.node else none with
    | some s => (s, some (.renamed, p))
    | none => (s, none)
  | (.renamed, p), ok, s =>
    (s, if ok && (s.box d p.target r.node).isSome then some (.commit, p) else none)
  | (.commit, _), _, s =>
    ({ s with
      manager := s.manager.commitReplaceNode r.inst r.node r.host r.hostPort r.serverId }, none)

/-- The task of `replace_node`, which is rerun as a whole. -/
def procedure : Procedure (Hosts Box) (ReplaceCall × ReplacePlan) Empty where
  first s := (r.plan s.manager).toOption.map fun p => (.standIn, p)
  call := r.call d
  other e := nomatch e

/-! ## What is promised, and when -/

/-- The master that the registry names. -/
def master (m : Manager) : Option String :=
  (m.instances[r.inst]?).bind fun i => i.master.map (·.container)

/-- The node or its stand-in replicates from the master, and there is one container of the node's
name at most: the old one is gone when the new one has it. -/
structure Serving (s : Hosts Box) : Prop where
  served : ∃ k name b, (name = r.node ∨ name = r.temp) ∧ (s.boxes k)[name]? = some b ∧
    b.source ≠ none ∧ b.source = r.master s.manager
  alone : ∀ (k k' : Nat) (b b' : Box), (s.boxes k)[r.node]? = some b →
    (s.boxes k')[r.node]? = some b' → k = k'

/-- The node runs on the target host only, as the registry has it, and replicates from the master. -/
structure InPlace (s : Hosts Box) (target : NodeRoute) (k : Nat) (b : Box) (i : RdsInstance)
    (n : InstNode) : Prop where
  route : targetRoute r.host s.manager.hosts = .ok target
  daemon : target.daemon d = some k
  box : (s.boxes k)[r.node]? = some b
  alone : ∀ k', k' ≠ k → (s.boxes k')[r.node]? = none
  inst : s.manager.instances[r.inst]? = some i
  node : i.nodes.find? (·.container = r.node) = some n
  bound : i.nodeHosts[r.node]? = some (trimmed r.host)
  serverId : n.serverId = b.serverId
  port : n.hostPort = b.port
  attached : b.source ≠ none
  source : b.source = r.master s.manager

def Replaced (s : Hosts Box) : Prop := ∃ target k b i n, r.InPlace d s target k b i n

/-- The replacement can go on wherever it stands. -/
structure Resumable (g : Progress (Hosts Box) (ReplaceCall × ReplacePlan)) : Prop where
  serving : r.Serving g.state
  resumes : g.next = none →
    (r.procedure d).Settles (fun _ _ => True) (r.Replaced d) ((r.procedure d).begun g.state)

/-- The stand-in that has been started is attached, and a new container is committed; a stand-in is
given up only for the old container, which is gone when the stand-in takes its name. -/
def Orderly (g : Progress (Hosts Box) (ReplaceCall × ReplacePlan)) (e : ProcedureEvent Empty) : Prop :=
  match g.next with
  | some (.ready, _) | some (.attach, _) | some (.renamed, _) | some (.commit, _) => e = .answer true
  | some (.giveUpRemove, p) => e = .answer true → (g.state.box d p.old r.node).isSome
  | some (.inPlace, p) => e = .answer true → g.state.box d p.target r.node = none
  | some (.rename, p) => e = .answer true → g.state.box d p.old r.node = none
  | _ => True

instance (g : Progress (Hosts Box) (ReplaceCall × ReplacePlan)) (e : ProcedureEvent Empty) :
    Decidable (r.Orderly d g e) := by
  unfold Orderly
  split <;> infer_instance

/-- A replacement of a member of an instance, from a host that is reached to another one. -/
structure Setting (m : Manager) (p : ReplacePlan) (ko kt : Nat) : Prop where
  plan : r.plan m = .ok p
  host : trimmed r.host ≠ ""
  member : ∀ i, m.instances[r.inst]? = some i → r.node ∈ i.nodes.map (·.container)
  oldAt : p.old.daemon d = some ko
  targetAt : p.target.daemon d = some kt

/-- The node runs on its old host and replicates from the master; the names and the port that the
replacement needs are free. -/
structure Ready (s : Hosts Box) (p : ReplacePlan) (ko kt : Nat) (b : Box) : Prop where
  setting : r.Setting d s.manager p ko kt
  box : (s.boxes ko)[r.node]? = some b
  source : b.source = some p.master
  alone : ∀ k, k ≠ ko → (s.boxes k)[r.node]? = none
  free : (s.boxes kt)[r.temp]? = none
  port : ∀ (name : String) (b : Box), (s.boxes kt)[name]? = some b → b.port ≠ r.hostPort

def Initial (g : Progress (Hosts Box) (ReplaceCall × ReplacePlan)) : Prop :=
  g.next = none ∧ ∃ p ko kt b, r.Ready d g.state p ko kt b

/-! ## Effects of the calls -/

/-- Before the stand-in takes the name of the node. -/
structure Before (m : Manager) (ko kt : Nat) (s : Hosts Box) (old standIn : Option Box) : Prop
    extends Hosts.Swap r.node r.temp ko kt (·.port ≠ r.hostPort) s old standIn where
  manager : s.manager = m

/-- The stand-in has taken the name of the node. -/
structure Moved (m : Manager) (kt : Nat) (s : Hosts Box) (b : Box) : Prop where
  manager : s.manager = m
  box : (s.boxes kt)[r.node]? = some b
  alone : ∀ k, k ≠ kt → (s.boxes k)[r.node]? = none

theorem temp_ne_node : r.temp ≠ r.node := by
  intro h
  have hlen := congrArg String.length h
  simp [temp, String.length_append] at hlen

section
variable {d} {r} {m : Manager} {p : ReplacePlan} {ko kt : Nat} {s : Hosts Box} {old standIn : Option Box}
  {b : Box}

/-- The stand-in is removed. -/
theorem Before.removeTemp (hb : r.Before m ko kt s old standIn) (ht : p.target.daemon d = some kt) :
    r.Before m ko kt (s.remove d p.target r.temp) old none := by
  refine ⟨hb.toSwap.removeTemp ht, ?_⟩
  simp only [Hosts.remove, ht]
  exact hb.manager

/-- The old container is removed. -/
theorem Before.removeOld (hb : r.Before m ko kt s old standIn) (ho : p.old.daemon d = some ko) :
    r.Before m ko kt (s.remove d p.old r.node) none standIn := by
  refine ⟨hb.toSwap.removeOld ho, ?_⟩
  simp only [Hosts.remove, ho]
  exact hb.manager

/-- The stand-in takes the name of the node. -/
theorem Before.rename (hb : r.Before m ko kt s none (some b)) (ht : p.target.daemon d = some kt) :
    ∃ s', s.rename d p.target r.temp r.node = some s' ∧ r.Moved m kt s' b := by
  obtain ⟨s', hren, hm, hbox, hother⟩ := hb.toSwap.rename ht (hb.toSwap.node_none kt)
  refine ⟨s', hren, hm.trans hb.manager, hbox, fun k hk => ?_⟩
  rw [hother k hk]
  exact hb.toSwap.node_none k

theorem Before.run (hb : r.Before m ko kt s old none) (ht : p.target.daemon d = some kt) :
    ∃ s', s.run d Box.port p.target r.temp r.fresh = some s' ∧
      r.Before m ko kt s' old (some r.fresh) :=
  ⟨_, hb.toSwap.run Box.port ht fun _ h => h, hb.toSwap.insert, hb.manager⟩

theorem Before.attach (hb : r.Before m ko kt s old (some b)) (ht : p.target.daemon d = some kt) :
    ∃ s', s.alter d p.target r.temp (·.attach p.master) = some s' ∧
      r.Before m ko kt s' old (some (b.attach p.master)) :=
  ⟨_, hb.toSwap.alterTemp ht (·.attach p.master), hb.toSwap.insert, hb.manager⟩

/-! ## The registry -/

theorem plan_eq_ok (h : r.plan m = .ok p) : ∃ i n, m.instances[r.inst]? = some i ∧
    targetRoute r.host m.hosts = .ok p.target ∧ i.master = some n ∧ n.container = p.master := by
  unfold plan at h
  split at h
  · cases h
  · next i hi =>
    cases ht : targetRoute r.host m.hosts with
    | error e => simp [ht, bind, Except.bind] at h
    | ok target =>
      simp only [ht, bind, Except.bind] at h
      split at h
      · cases h
      · split at h
        · cases h
        · next n hn =>
          split at h
          · cases h
          · cases h
            exact ⟨i, n, hi, rfl, hn, rfl⟩

/-- The master that a plan has read is the one that the registry names. -/
theorem master_eq (h : r.plan m = .ok p) : r.master m = some p.master := by
  obtain ⟨i, n, hi, -, hn, hc⟩ := plan_eq_ok h
  simp [master, hi, hn, hc]

/-- The roles do not change. -/
theorem master_commit : r.master (m.commitReplaceNode r.inst r.node r.host r.hostPort r.serverId) =
    r.master m := by
  cases hi : m.instances[r.inst]? with
  | none => simp [master, Manager.commitReplaceNode, Manager.alterInstance_get, hi]
  | some i =>
    simp only [master, Manager.commitReplaceNode_get hi, hi, Option.bind_some, RdsInstance.master,
      RdsInstance.commitReplace]
    exact find?_modifyFirst_map (fun _ => rfl) fun _ => rfl

/-- The new container is committed, and the replacement finds the node on the target. -/
theorem Moved.commit (hm : r.Moved m kt s ⟨r.serverId, r.hostPort, some p.master⟩)
    (hs : r.Setting d m p ko kt) :
    r.Replaced d { s with
      manager := s.manager.commitReplaceNode r.inst r.node r.host r.hostPort r.serverId } ∧
    (r.plan (s.manager.commitReplaceNode r.inst r.node r.host r.hostPort r.serverId)).toOption =
      none := by
  obtain ⟨i, n, hi, ht, hn, hc⟩ := plan_eq_ok hs.plan
  obtain ⟨n', hnode⟩ : ∃ n' : InstNode, (i.commitReplace r.node r.host r.hostPort
      r.serverId).nodes.find? (·.container = r.node) =
        some { n' with hostPort := r.hostPort, serverId := r.serverId, host := r.node } :=
    find?_modifyFirst_self (fun _ => rfl) (hs.member i hi)
  rw [hm.manager]
  have hbound : (i.commitReplace r.node r.host r.hostPort r.serverId).nodeHosts[r.node]? =
      some (trimmed r.host) := by
    simp [RdsInstance.commitReplace, hs.host]
  refine ⟨⟨p.target, kt, _, _, _, ?_, hs.targetAt, hm.box, hm.alone, Manager.commitReplaceNode_get hi, hnode, hbound,
    rfl, rfl, fun h => (nomatch h), ?_⟩, ?_⟩
  · rw [Manager.commitReplaceNode_hosts]
    exact ht
  · rw [master_commit, master_eq hs.plan]
  · have hon : (resolveRouteOf (i.commitReplace r.node r.host r.hostPort r.serverId) r.node
        m.hosts).isOn (trimmed r.host) = true := by
      exact isOn_of_bound (by simp [nodeHostBinding, hbound, Option.filter, hs.host])
    simp only [plan, Manager.commitReplaceNode_get hi, Manager.commitReplaceNode_hosts, ht, bind,
      Except.bind, hon, if_true]
    rfl

end

/-! ## What holds before each call -/

/-- The stand-in once it replicates. -/
def attached (p : ReplacePlan) : Box := r.fresh.attach p.master

/-- The stand-in replicates, and so does the old container as long as it is there. -/
def Attached (m : Manager) (p : ReplacePlan) (ko kt : Nat) (s : Hosts Box) : Prop :=
  ∃ old, r.Before m ko kt s old (some (r.attached p)) ∧
    ∀ b : Box, old = some b → b.source = some p.master

/-- The old container replicates, with the stand-in as given. -/
def Beside (m : Manager) (p : ReplacePlan) (ko kt : Nat) (standIn : Option Box) (s : Hosts Box) : Prop :=
  ∃ b, r.Before m ko kt s (some b) standIn ∧ b.source = some p.master

/-- The node has been replaced, and a rerun does nothing. -/
def Over (s : Hosts Box) : Prop := r.Replaced d s ∧ (r.plan s.manager).toOption = none

/-- What holds between two runs of the task. -/
def Held (m : Manager) (p : ReplacePlan) (ko kt : Nat) (s : Hosts Box) : Prop :=
  r.Attached m p ko kt s ∨ r.Beside m p ko kt none s

/-- What holds before each call. -/
def outline (m : Manager) (p : ReplacePlan) (ko kt : Nat) :
    Option (ReplaceCall × ReplacePlan) → Hosts Box → Prop
  | none, s => r.Held m p ko kt s ∨ r.Over d s
  | some (c, q), s => q = p ∧
    match c with
    | .standIn | .run => r.Held m p ko kt s
    | .ready | .attach => r.Beside m p ko kt (some r.fresh) s
    | .readyAgain | .caughtUp | .giveUp | .giveUpRemove | .old | .oldRemove | .inPlace | .rename =>
      r.Attached m p ko kt s
    | .spare | .spareRemove => False
    | .renamed | .commit => r.Moved m kt s (r.attached p)

/-- What holds before each call of a rerun in which all calls succeed. -/
def clean (m : Manager) (p : ReplacePlan) (ko kt : Nat) (i : ReplaceCall × ReplacePlan) (s : Hosts Box) :
    Prop :=
  i.2 = p ∧
    match i.1 with
    | .standIn => r.Held m p ko kt s
    | .run => r.Beside m p ko kt none s
    | .ready | .attach => r.Beside m p ko kt (some r.fresh) s
    | .readyAgain | .caughtUp | .old | .oldRemove => r.Attached m p ko kt s
    | .inPlace | .rename => r.Before m ko kt s none (some (r.attached p))
    | .renamed | .commit => r.Moved m kt s (r.attached p)
    | .giveUp | .giveUpRemove | .spare | .spareRemove => False

/-- The calls that are left at most. -/
def left : ReplaceCall → Nat
  | .standIn => 10
  | .run => 9
  | .ready => 8
  | .attach | .readyAgain => 7
  | .caughtUp => 6
  | .old => 5
  | .oldRemove => 4
  | .inPlace => 3
  | .rename => 2
  | .renamed => 1
  | _ => 0

section
variable {d} {r} {m : Manager} {p : ReplacePlan} {ko kt : Nat} {s : Hosts Box}

theorem Setting.box_target (hs : r.Setting d m p ko kt) (name : String) :
    s.box d p.target name = (s.boxes kt)[name]? :=
  Hosts.box_of_daemon d hs.targetAt name

theorem Setting.box_old (hs : r.Setting d m p ko kt) (name : String) :
    s.box d p.old name = (s.boxes ko)[name]? :=
  Hosts.box_of_daemon d hs.oldAt name

theorem Attached.standIn (h : r.Attached m p ko kt s) :
    (s.boxes kt)[r.temp]? = some (r.attached p) := by
  obtain ⟨old, hb, -⟩ := h
  exact hb.standIn

/-- The stand-in is run only where there is none, and the old container is there then. -/
theorem Held.run (h : r.Held m p ko kt s) (hs : r.Setting d m p ko kt) {s' : Hosts Box}
    (hrun : s.run d Box.port p.target r.temp r.fresh = some s') : r.Beside m p ko kt (some r.fresh) s' := by
  rcases h with h | ⟨b, hb, hsrc⟩
  · simp only [Hosts.run, hs.targetAt, Option.bind_some, h.standIn] at hrun
    simp at hrun
  · obtain ⟨s'', hrun', hb'⟩ := hb.run hs.targetAt
    cases hrun.symm.trans hrun'
    exact ⟨b, hb', hsrc⟩

theorem outline_answer (hs : r.Setting d m p ko kt) {c : ReplaceCall} {ok : Bool}
    (h : r.outline d m p ko kt (some (c, p)) s)
    (hg : r.Orderly d ⟨s, some (c, p)⟩ (.answer ok)) :
    r.outline d m p ko kt (r.call d (c, p) ok s).2 (r.call d (c, p) ok s).1 := by
  obtain ⟨-, h⟩ := h
  cases c with
  | standIn =>
    simp only [call, hs.box_target]
    split
    · next hok =>
      refine ⟨rfl, ?_⟩
      rcases h with h | ⟨b, hb, -⟩
      · exact h
      · simp [hb.standIn] at hok
    · exact ⟨rfl, h⟩
  | run =>
    simp only [call]
    split
    · next s' hrun =>
      cases ok with
      | false => cases hrun
      | true => exact ⟨rfl, Held.run h hs hrun⟩
    · exact .inl h
  | ready =>
    cases hg
    obtain ⟨b, hb, hsrc⟩ := h
    simp only [call, hs.box_target, hb.standIn]
    exact ⟨rfl, b, hb, hsrc⟩
  | attach =>
    cases hg
    obtain ⟨b, hb, hsrc⟩ := h
    obtain ⟨s', hatt, hb'⟩ := hb.attach hs.targetAt
    simp only [call, if_true, hatt]
    exact ⟨rfl, some b, hb', fun b' hb' => Option.some.inj hb' ▸ hsrc⟩
  | readyAgain =>
    simp only [call]
    split
    · exact ⟨rfl, h⟩
    · exact .inl (.inl h)
  | caughtUp | old =>
    simp only [call]
    split <;> exact ⟨rfl, h⟩
  | inPlace =>
    simp only [call]
    split
    · next hok =>
      obtain ⟨rfl, hsome⟩ := Bool.and_eq_true_iff.1 hok
      simp [show s.box d p.target r.node = none from hg rfl] at hsome
    · exact ⟨rfl, h⟩
  | giveUp =>
    simp only [call]
    split
    · exact ⟨rfl, h⟩
    · exact .inl (.inl h)
  | giveUpRemove =>
    cases ok with
    | false => exact .inl (.inl h)
    | true =>
      have hsome : (s.box d p.old r.node).isSome := hg rfl
      obtain ⟨old, hb, hsrc⟩ := h
      rw [hs.box_old, hb.old] at hsome
      obtain ⟨b, rfl⟩ := Option.isSome_iff_exists.1 hsome
      exact .inl (.inr ⟨b, hb.removeTemp hs.targetAt, hsrc b rfl⟩)
  | oldRemove =>
    cases ok with
    | false => exact ⟨rfl, h⟩
    | true =>
      obtain ⟨old, hb, -⟩ := h
      exact ⟨rfl, none, hb.removeOld hs.oldAt, fun _ hn => nomatch hn⟩
  | spare | spareRemove => exact h.elim
  | rename =>
    cases ok with
    | false => exact .inl (.inl h)
    | true =>
      have hnone : s.box d p.old r.node = none := hg rfl
      obtain ⟨old, hb, -⟩ := h
      rw [hs.box_old, hb.old] at hnone
      subst hnone
      obtain ⟨s', hren, hm⟩ := hb.rename hs.targetAt
      simp only [call, if_true, hren]
      exact ⟨rfl, hm⟩
  | renamed =>
    cases hg
    simp only [call, hs.box_target, h.box]
    exact ⟨rfl, h⟩
  | commit => exact .inr (h.commit hs)

/-- When the task is cut off. -/
theorem outline_cut {c : ReplaceCall} (h : r.outline d m p ko kt (some (c, p)) s)
    (hg : r.Orderly d ⟨s, some (c, p)⟩ .cut) : r.outline d m p ko kt none s := by
  obtain ⟨-, h⟩ := h
  cases c with
  | standIn | run => exact .inl h
  | ready | attach | renamed | commit => cases hg
  | readyAgain | caughtUp | giveUp | giveUpRemove | old | oldRemove | inPlace | rename =>
    exact .inl (.inl h)
  | spare | spareRemove => exact h.elim

theorem outline_first (hs : r.Setting d m p ko kt) (h : r.outline d m p ko kt none s) :
    r.outline d m p ko kt ((r.procedure d).first s) s := by
  simp only [procedure]
  rcases h with h | h
  · have hm : s.manager = m := by
      rcases h with ⟨_, hb, _⟩ | ⟨_, hb, _⟩ <;> exact hb.manager
    rw [hm, hs.plan]
    exact ⟨rfl, h⟩
  · rw [h.2]
    exact .inr h

theorem outlined (hs : r.Setting d m p ko kt) :
    (r.procedure d).Outline (r.Orderly d) (r.outline d m p ko kt) where
  again _ h := outline_first hs h
  answer i ok s h hg := by
    obtain ⟨c, q⟩ := i
    obtain rfl := h.1
    exact outline_answer hs h hg
  cut i s h hg := by
    obtain ⟨c, q⟩ := i
    obtain rfl := h.1
    exact outline_cut h hg
  other _ e := nomatch e

/-! ## Serving and settling -/

/-- Containers of the node's name on one host only. -/
theorem eq_of_alone {k₀ : Nat} (h : ∀ k, k ≠ k₀ → (s.boxes k)[r.node]? = none) (k k' : Nat)
    (b b' : Box) (hb : (s.boxes k)[r.node]? = some b) (hb' : (s.boxes k')[r.node]? = some b') :
    k = k' := by
  have hk₀ : ∀ (k : Nat) (b : Box), (s.boxes k)[r.node]? = some b → k = k₀ := by
    intro k b hb
    by_contra hk
    cases hb.symm.trans (h k hk)
  exact (hk₀ k b hb).trans (hk₀ k' b' hb').symm

theorem Attached.serving (h : r.Attached m p ko kt s) (hs : r.Setting d m p ko kt) :
    r.Serving s := by
  obtain ⟨old, hb, -⟩ := h
  refine ⟨⟨kt, r.temp, _, .inr rfl, hb.standIn, fun h => (nomatch h), ?_⟩, eq_of_alone hb.alone⟩
  rw [hb.manager, master_eq hs.plan]
  rfl

theorem Beside.serving {standIn : Option Box} (h : r.Beside m p ko kt standIn s)
    (hs : r.Setting d m p ko kt) : r.Serving s := by
  obtain ⟨b, hb, hsrc⟩ := h
  refine ⟨⟨ko, r.node, b, .inl rfl, hb.old, ?_, ?_⟩, eq_of_alone hb.alone⟩
  · simp [hsrc]
  · rw [hb.manager, master_eq hs.plan, hsrc]

theorem Moved.serving (h : r.Moved m kt s (r.attached p)) (hs : r.Setting d m p ko kt) :
    r.Serving s := by
  refine ⟨⟨kt, r.node, _, .inl rfl, h.box, fun h => (nomatch h), ?_⟩, eq_of_alone h.alone⟩
  rw [h.manager, master_eq hs.plan]
  rfl

theorem Replaced.serving (h : r.Replaced d s) : r.Serving s := by
  obtain ⟨_, k, b, _, _, h⟩ := h
  exact ⟨⟨k, r.node, b, .inl rfl, h.box, h.attached, h.source⟩, eq_of_alone h.alone⟩

theorem serving_of_outline (hs : r.Setting d m p ko kt) {n : Option (ReplaceCall × ReplacePlan)}
    (h : r.outline d m p ko kt n s) : r.Serving s := by
  have hheld : r.Held m p ko kt s → r.Serving s := by
    rintro (h | h)
    · exact h.serving hs
    · exact h.serving hs
  cases n with
  | none =>
    rcases h with h | h
    · exact hheld h
    · exact Replaced.serving h.1
  | some i =>
    obtain ⟨c, q⟩ := i
    obtain ⟨-, h⟩ := h
    cases c with
    | standIn | run => exact hheld h
    | ready | attach => exact Beside.serving h hs
    | readyAgain | caughtUp | giveUp | giveUpRemove | old | oldRemove | inPlace | rename =>
      exact Attached.serving h hs
    | spare | spareRemove => exact h.elim
    | renamed | commit => exact Moved.serving h hs

theorem clean_call (hs : r.Setting d m p ko kt) (i : ReplaceCall × ReplacePlan) (s : Hosts Box)
    (h : r.clean m p ko kt i s) :
    Procedure.Leads (r.Replaced d) (r.clean m p ko kt) (left ·.1) i (r.call d i true s) := by
  obtain ⟨c, q⟩ := i
  obtain ⟨rfl, h⟩ := h
  cases c with
  | standIn =>
    rcases h with h | ⟨b, hb, hsrc⟩
    · simp only [call, hs.box_target, h.standIn, Option.isSome_some, Bool.and_true, if_true]
      exact ⟨⟨rfl, h⟩, by simp [left]⟩
    · simp only [call, hs.box_target, hb.standIn, Option.isSome_none, Bool.and_false]
      exact ⟨⟨rfl, b, hb, hsrc⟩, by simp [left]⟩
  | run =>
    obtain ⟨b, hb, hsrc⟩ := h
    obtain ⟨s', hrun, hb'⟩ := hb.run hs.targetAt
    simp only [call, if_true, hrun]
    exact ⟨⟨rfl, b, hb', hsrc⟩, by simp [left]⟩
  | ready =>
    obtain ⟨b, hb, hsrc⟩ := h
    simp only [call, hs.box_target, hb.standIn]
    exact ⟨⟨rfl, b, hb, hsrc⟩, by simp [left]⟩
  | attach =>
    obtain ⟨b, hb, hsrc⟩ := h
    obtain ⟨s', hatt, hb'⟩ := hb.attach hs.targetAt
    simp only [call, if_true, hatt]
    exact ⟨⟨rfl, some b, hb', fun b' hb' => Option.some.inj hb' ▸ hsrc⟩, by simp [left]⟩
  | readyAgain =>
    simp only [call, hs.box_target, h.standIn]
    exact ⟨⟨rfl, h⟩, by simp [left]⟩
  | caughtUp =>
    have hany : (true && (some (r.attached q)).any (·.source = some q.master)) = true := by
      simp [attached, Box.attach]
    simp only [call, hs.box_target, h.standIn, hany, if_true]
    exact ⟨⟨rfl, h⟩, by simp [left]⟩
  | old =>
    simp only [call]
    split
    · exact ⟨⟨rfl, h⟩, by simp [left]⟩
    · next hnone =>
      obtain ⟨old, hb, -⟩ := h
      rw [hs.box_old, hb.old] at hnone
      obtain rfl : old = none := by simpa using hnone
      exact ⟨⟨rfl, hb⟩, by simp [left]⟩
  | oldRemove =>
    obtain ⟨old, hb, -⟩ := h
    exact ⟨⟨rfl, hb.removeOld hs.oldAt⟩, by simp [left]⟩
  | inPlace =>
    simp only [call, hs.box_target, h.toSwap.node_none, Option.isSome_none, Bool.and_false]
    exact ⟨⟨rfl, h⟩, by simp [left]⟩
  | rename =>
    obtain ⟨s', hren, hm⟩ := Before.rename h hs.targetAt
    simp only [call, if_true, hren]
    exact ⟨⟨rfl, hm⟩, by simp [left]⟩
  | renamed =>
    simp only [call, hs.box_target, Moved.box h]
    exact ⟨⟨rfl, h⟩, by simp [left]⟩
  | commit => exact (Moved.commit h hs).1
  | giveUp | giveUpRemove | spare | spareRemove => exact h.elim

/-- Between two runs, one in which all calls succeed replaces the node. -/
theorem settles_of_outline (hs : r.Setting d m p ko kt) (h : r.outline d m p ko kt none s) :
    (r.procedure d).Settles (fun _ _ => True) (r.Replaced d) ((r.procedure d).begun s) := by
  rcases h with h | h
  · have hm : s.manager = m := by
      rcases h with ⟨_, hb, _⟩ | ⟨_, hb, _⟩ <;> exact hb.manager
    have hfirst : (r.procedure d).first s = some (.standIn, p) := by
      simp only [procedure, hm, hs.plan]
      rfl
    rw [Procedure.begun, hfirst]
    refine Procedure.Settles.of_rank (B := r.clean m p ko kt) (left ·.1) ?_ ?_ ⟨rfl, h⟩
    · exact fun _ e => nomatch e
    · exact clean_call hs
  · have hfirst : (r.procedure d).first s = none := by
      simp only [procedure, h.2]
      rfl
    rw [Procedure.begun, hfirst]
    exact .done h.1

theorem Ready.beside {b : Box} (h : r.Ready d s p ko kt b) :
    r.Beside s.manager p ko kt none s :=
  ⟨b, ⟨⟨r.temp_ne_node, h.box, h.free, h.alone, fun name b' _ hb' => h.port name b' hb'⟩, rfl⟩,
    h.source⟩

/-- A replacement whose steps are orderly is resumable in every state. -/
theorem replacement_resumes {h : History (Progress (Hosts Box) (ReplaceCall × ReplacePlan))
      (ProcedureEvent Empty)} {g : Progress (Hosts Box) (ReplaceCall × ReplacePlan)}
    (hr : Run (r.procedure d).step (fun _ => r.Orderly d) (r.Initial d) h g) :
    ∀ u ∈ h.states g, r.Resumable d u := by
  obtain ⟨⟨s₀, n₀⟩, ⟨rfl, p, ko, kt, b, h0⟩, hr⟩ := hr.starts
  have hA : ∀ u ∈ h.states g, r.outline d s₀.manager p ko kt u.next u.state := by
    refine (outlined h0.setting).run ?_ hr
    rintro _ rfl
    exact .inl (.inr h0.beside)
  rintro ⟨s, n⟩ hu
  refine ⟨serving_of_outline h0.setting (hA _ hu), fun hn => ?_⟩
  obtain rfl : n = none := hn
  exact settles_of_outline h0.setting (hA _ hu)

end

/-! ## A replacement on two machines -/

/-- An instance of three nodes on one machine, and a second machine. -/
def twoHosts : Hosts Box where
  manager := { Submission.created with hosts := [⟨"h2", "10.0.0.2", 32, 9199, "online"⟩] }
  boxes k :=
    if k = 0 then ((∅ : BTreeMap String Box).insert "rds-db-master" ⟨1, 35000, none⟩).insert
      "rds-db-slave-1" ⟨2, 35001, some "rds-db-master"⟩
    else ∅

def machines : NodeRoute → Nat
  | .direct => 0
  | _ => 1

/-- A slave goes to the second machine. -/
def toSecond : Replacement := ⟨"db", "rds-db-slave-1", "h2", 35007, 4⟩

theorem ready_twoHosts : toSecond.Ready machines twoHosts
    ⟨.agent "h2" "10.0.0.2" 9199, .direct, .direct, "rds-db-master"⟩ 0 1
      ⟨2, 35001, some "rds-db-master"⟩ where
  setting :=
    { plan := by decide +kernel
      host := by decide +kernel
      member := by
        have hnodes : (twoHosts.manager.instances["db"]?).map (fun i => i.nodes.any
            (·.container = "rds-db-slave-1")) = some true := by decide +kernel
        intro i hi
        rw [show twoHosts.manager.instances["db"]? = some i from hi] at hnodes
        simpa [toSecond] using hnodes
      oldAt := rfl
      targetAt := rfl }
  box := by decide +kernel
  source := rfl
  alone k hk := by simp [twoHosts, hk]
  free := by decide +kernel
  port name b h := by simp [twoHosts] at h

/-- The stand-in cannot take the name at first, and does so in a rerun. -/
theorem replacement_resumes_renamed : ∃ h g,
    Run (toSecond.procedure machines).step (fun _ => toSecond.Orderly machines)
      (toSecond.Initial machines) h g ∧ g.next = none ∧
    (g.state.box machines (.agent "h2" "10.0.0.2" 9199) "rds-db-slave-1") =
      some ⟨4, 35007, some "rds-db-master"⟩ ∧ ∀ u ∈ h.states g, toSecond.Resumable machines u := by
  have hf : (follow (toSecond.procedure machines).step (fun _ => toSecond.Orderly machines)
      (.again :: List.replicate 8 (.answer true) ++ .answer false :: .again ::
        List.replicate 8 (.answer true)) [] ⟨twoHosts, none⟩).map
      (fun q => (q.2.next, q.2.state.box machines (.agent "h2" "10.0.0.2" 9199) "rds-db-slave-1")) =
        some (none, some ⟨4, 35007, some "rds-db-master"⟩) := by
    decide +kernel
  obtain ⟨⟨h, g⟩, hfollow, hval⟩ := Option.map_eq_some_iff.1 hf
  obtain ⟨hnext, hbox⟩ := Prod.mk.inj hval
  have hr : Run (toSecond.procedure machines).step (fun _ => toSecond.Orderly machines)
      (toSecond.Initial machines) h g :=
    (Run.start ⟨rfl, _, _, _, _, ready_twoHosts⟩).follow hfollow
  exact ⟨h, g, hr, hnext, hbox, replacement_resumes hr⟩

/-- The stand-in was not attached, and a rerun gives it up although all calls succeed. -/
theorem attach_lost : ¬ ∀ (d : NodeRoute → Nat) (r : Replacement) h g,
    Run (r.procedure d).step (fun _ _ _ => True) (r.Initial d) h g →
      ∀ u ∈ h.states g, r.Resumable d u := by
  intro hall
  have hf : (follow (toSecond.procedure machines).step (fun _ _ _ => True)
      (.again :: List.replicate 3 (.answer true) ++ [.answer false]) [] ⟨twoHosts, none⟩).map
      (fun q =>
        let e := (toSecond.procedure machines).succeed 5 ((toSecond.procedure machines).begun q.2.state)
        (q.2.next, e.next, (e.state.manager.instances["db"]?).map (·.nodeHosts["rds-db-slave-1"]?))) =
      some (none, none, some none) := by
    decide +kernel
  obtain ⟨⟨h, g⟩, hfollow, hval⟩ := Option.map_eq_some_iff.1 hf
  simp only [Prod.mk.injEq] at hval
  obtain ⟨hnext, hend, hbound⟩ := hval
  have hr : Run (toSecond.procedure machines).step (fun _ _ _ => True) (toSecond.Initial machines) h
      g := (Run.start ⟨rfl, _, _, _, _, ready_twoHosts⟩).follow hfollow
  have hset := (hall machines toSecond h g hr g (History.mem_states.2 (.inl rfl))).resumes hnext
  obtain ⟨_, _, _, i, _, hin⟩ := hset.of_succeed hend
  obtain ⟨i', hi, hnone⟩ := Option.map_eq_some_iff.1 hbound
  cases hi.symm.trans hin.inst
  cases hnone.symm.trans hin.bound

end Replacement

end Rdsctl.Inst
