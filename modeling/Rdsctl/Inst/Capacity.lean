import Rdsctl.Inst.Migrate
import Rdsctl.Lib.Entries

/-!
# Slots of hosts

`src/instance.rs`: `host_assign_node`, `host_clear_node`, `replace_node` and `migrate_instance` with
their tasks, call by call, as far as they read and write the bindings of nodes to hosts. A binding is
checked by `schedule_check` when it is asked for, and written later: by the call itself after its
check, or by a step of its task. In between, other calls check and write as well.

`withinCapacity_iff` says when no host ever has more bindings than `schedule_check` lets it have.
-/

namespace Rdsctl.Inst

open Ha Dag Fallible

/-! ## Binding a node by hand -/

/-- What `host_assign_node` checks; the arguments are trimmed. -/
def hostAssignCheck (inst node host : String) (m : Manager) : Except String Unit :=
  if inst = "" ∨ node = "" ∨ host = "" then .error "缺少 instance/node/host 参数"
  else
    match m.instances[inst]? with
    | none => .error ("实例 " ++ inst ++ " 不存在")
    | some i =>
      if i.status = .destroyed then .error ("实例 " ++ inst ++ " 已销毁,不可绑定")
      else if i.nodes.any (·.container = node) = false then
        .error ("节点 " ++ node ++ " 不属于实例 " ++ inst)
      else
        match m.hosts.find? (·.name = host) with
        | none => .error ("宿主机 " ++ host ++ " 未登记,请先创建机器")
        | some hr =>
          if hr.status = "retiring" then
            .error ("宿主机 " ++ host ++ " 处于 retiring(退役),禁止新绑定")
          else if i.nodeHosts[node]? = some host then .ok ()
          else (m.scheduleCheck host 1).map fun _ => ()

/-- What `host_clear_node` checks; the arguments are trimmed. -/
def hostClearCheck (inst node : String) (m : Manager) : Except String Unit :=
  if inst = "" ∨ node = "" then .error "缺少 instance/node 参数"
  else if (m.instances[inst]?).any (·.nodeHosts.contains node) then .ok ()
  else .error ("节点 " ++ node ++ " 未绑定宿主机(实例 " ++ inst ++ ")")

namespace RdsInstance

def bindNode (i : RdsInstance) (node host : String) : RdsInstance :=
  { i with nodeHosts := i.nodeHosts.insert node host }

def clearNode (i : RdsInstance) (node : String) : RdsInstance :=
  { i with nodeHosts := i.nodeHosts.erase node }

end RdsInstance

namespace Manager

/-- The write of `host_assign_node`. -/
def bindNode (m : Manager) (inst node host : String) : Manager :=
  (m.alterInstance inst (·.bindNode node host)).persist

/-- The write of `host_clear_node`. -/
def clearNode (m : Manager) (inst node : String) : Manager :=
  (m.alterInstance inst (·.clearNode node)).persist

/-- The limit of `schedule_check` on a registered host. -/
def slots (m : Manager) (host : String) : Option Nat :=
  (m.hosts.find? (·.name = host)).map fun hr => max (hr.memGb / 8) 1

/-- No registered host has more bindings than slots. -/
def WithinCapacity (m : Manager) : Prop :=
  ∀ host n, m.slots host = some n → m.hostBindingCount host ≤ n

/-- The node is bound to this host. -/
def isBound (m : Manager) (inst node host : String) : Bool :=
  (m.instances[inst]?).any fun i => i.nodeHosts[node]? = some host

/-- There is a slot for this node: it is bound to the host, or `schedule_check` passes. -/
def HasRoom (m : Manager) (inst node host : String) : Prop :=
  m.isBound inst node host = true ∨ (m.scheduleCheck host 1).isOk = true

end Manager

/-! ## Calls and tasks under way -/

/-- How often the executor begins a task of one node again when a step fails. -/
def Work.retries : Work → Nat
  | .task _ _ _ nodes _ => (nodes.map (·.retries)).headD 0
  | .reparent .. => 0

/-- A task with the steps that are left, the next one first. -/
structure Ongoing where
  work : Work
  retries : Nat
  left : List Step

/-- The rest of a call or of a task that is under way. -/
inductive Pending
  /-- `host_assign_node`, before its write -/
  | assign (inst node host : String)
  /-- `host_clear_node`, before its write -/
  | clear (inst node : String)
  /-- `replace_node`, before the lock -/
  | replace (inst node host : String) (i : RdsInstance)
  /-- `migrate_instance`, before the lock -/
  | migrate (inst region az : String) (hosts : List String)
  | task (t : Ongoing)
  /-- the step of a migration, with the slaves that are left -/
  | moving (t : Ongoing) (mg : Migration) (slaves : List (String × String))
  /-- the same, before `commit_replace_node`; for a slave with those after it -/
  | placing (t : Ongoing) (mg : Migration) (node host : String) (hostPort serverId : Nat)
      (slaves : Option (List (String × String)))
  /-- the same, before region and availability zone are written -/
  | settling (t : Ongoing) (mg : Migration)

namespace Ongoing

/-- A task begins. -/
def ofWork (w : Work) : Ongoing := ⟨w, w.retries, w.steps⟩

/-- The task goes on with its next step. -/
def next (t : Ongoing) : Pending := .task { t with left := t.left.tail }

/-- The watcher of the task sees its end. -/
def ended (t : Ongoing) (failed : Bool) (s : Surroundings) (m : Manager) : Manager :=
  match t.work with
  | .task id _ inst _ watcher => m.taskEnded inst id watcher failed s.authority.proposal
  | .reparent .. => m

/-- A step failed: the task begins again or has ended. -/
def failed (t : Ongoing) (s : Surroundings) (m : Manager) : Manager × Option Pending :=
  if t.retries > 0 then (m, some (.task ⟨t.work, t.retries - 1, t.work.steps⟩))
  else (t.ended true s m, none)

/-- The next step of a task; `ok` is whether what it does outside of the manager succeeds. -/
def perform (t : Ongoing) (s : Surroundings) (ok : Bool) (m : Manager) : Manager × Option Pending :=
  match t.left with
  | [] => (t.ended false s m, none)
  | .replaceNodeCommit inst node host hostPort serverId :: _ =>
    if m.instances.contains inst then
      (m.commitReplaceNode inst node host hostPort serverId, some t.next)
    else t.failed s m
  | .updateInstanceStatus inst status :: _ => (m.updateInstanceStatus inst status, some t.next)
  | .migrateInstance inst region az hosts :: _ =>
    let mg := Migration.ofCsv inst region az hosts
    match mg.check m with
    | .ok i => (m, some (.moving t mg (mg.slaves i)))
    | .error _ => t.failed s m
  | _ :: _ => if ok then (m, some t.next) else t.failed s m

end Ongoing

namespace Pending

/-- A node of a migration is moved, unless it is where it is to go. -/
def moveNode (t : Ongoing) (mg : Migration) (node host : String)
    (slaves : Option (List (String × String))) (skip : Pending) (i : RdsInstance) (s : Surroundings)
    (ok : Bool) (m : Manager) : Manager × Option Pending :=
  if nodeHostBinding i node = some host then (m, some skip)
  else if ok then
    (m, some (.placing t mg node host (s.ports 0) (i.maxServerId + 1) slaves))
  else t.failed s m

/-- `migrate_move_slave` and `migrate_move_master` up to the commit. -/
def moveNext (t : Ongoing) (mg : Migration) (slaves : List (String × String)) (s : Surroundings)
    (ok : Bool) (m : Manager) : Manager × Option Pending :=
  match m.instances[mg.inst]? with
  | none => t.failed s m
  | some i =>
    match slaves with
    | (node, host) :: rest => moveNode t mg node host (some rest) (.moving t mg rest) i s ok m
    | [] =>
      match i.master with
      | none => t.failed s m
      | some n => moveNode t mg n.container mg.host none (.settling t mg) i s ok m

/-- What a submission leaves: the task that it has handed out. -/
def submitted : Except String String × Manager → Manager × Option Pending
  | (.ok _, m) => (m, m.work.getLast?.map fun w => .task (.ofWork w))
  | (.error _, m) => (m, none)

/-- A call or a task goes on, and what is left of it. -/
def go (s : Surroundings) (ok : Bool) (m : Manager) : Pending → Manager × Option Pending
  | .assign inst node host => (m.bindNode inst node host, none)
  | .clear inst node => (m.clearNode inst node, none)
  | .replace inst node host i => submitted (exec (replaceLocked inst node host i s) m)
  | .migrate inst region az hosts => submitted (exec (migrateLocked inst region az hosts s) m)
  | .task t => t.perform s ok m
  | .moving t mg slaves => moveNext t mg slaves s ok m
  | .placing t mg node host hostPort serverId slaves =>
    if m.instances.contains mg.inst then
      (m.commitReplaceNode mg.inst node host hostPort serverId,
        some (match slaves with
          | some rest => .moving t mg rest
          | none => .settling t mg))
    else t.failed s m
  | .settling t mg => ((m.alterInstance mg.inst (·.atSite mg.region mg.az)).persist, some t.next)

/-- The instance, the node and the host of the binding that is written next. -/
def binding : Pending → Option (String × String × String)
  | .assign inst node host => some (inst, node, host)
  | .task t =>
    match t.left with
    | .replaceNodeCommit inst node host _ _ :: _ => some (inst, node, trimmed host)
    | _ => none
  | .placing _ mg node host .. => some (mg.inst, node, trimmed host)
  | _ => none

end Pending

/-! ## Runs -/

/-- A manager with the calls and the tasks that are under way on it. -/
structure Bookings where
  manager : Manager
  pending : List Pending

/-- A call is made, or one that is under way goes on. -/
inductive BookingEvent
  | assign (inst node host : String)
  | clear (inst node : String)
  | replace (inst node host : String)
  | migrate (inst region az hostsCsv : String)
  | go (k : Nat) (s : Surroundings) (ok : Bool)

namespace Bookings

/-- A call whose checks pass is under way. -/
def begin (b : Bookings) : Except String Pending → Bookings
  | .ok p => { b with pending := b.pending ++ [p] }
  | .error _ => b

def step (b : Bookings) : BookingEvent → Option Bookings
  | .assign inst node host =>
    let (inst, node, host) := (trimmed inst, trimmed node, trimmed host)
    some (b.begin ((hostAssignCheck inst node host b.manager).map fun _ => .assign inst node host))
  | .clear inst node =>
    let (inst, node) := (trimmed inst, trimmed node)
    some (b.begin ((hostClearCheck inst node b.manager).map fun _ => .clear inst node))
  | .replace inst node host =>
    let (inst, node, host) := (trimmed inst, trimmed node, trimmed host)
    some (b.begin ((replaceCheck inst node host b.manager).map fun i => .replace inst node host i))
  | .migrate inst region az hostsCsv =>
    let (inst, region, az) := (trimmed inst, trimmed region, trimmed az)
    let hosts := splitHosts hostsCsv
    some (b.begin ((migrateCheck inst region az hosts b.manager).map fun _ =>
      .migrate inst region az hosts))
  | .go k s ok =>
    (b.pending[k]?).map fun p =>
      match p.go s ok b.manager with
      | (m, some q) => ⟨m, b.pending.set k q⟩
      | (m, none) => ⟨m, b.pending.eraseIdx k⟩

/-- Nothing is under way, and no host has more bindings than slots. -/
structure Initial (b : Bookings) : Prop where
  idle : b.pending = []
  within : b.manager.WithinCapacity

/-- The binding that an event writes finds a slot, as its call has found one when it was checked. -/
def Fits (b : Bookings) : BookingEvent → Prop
  | .go k _ _ =>
    match (b.pending[k]?).bind (·.binding) with
    | some (inst, node, host) =>
      b.manager.instances.contains inst = true → b.manager.HasRoom inst node host
    | none => True
  | _ => True

instance (b : Bookings) (ev : BookingEvent) : Decidable (b.Fits ev) := by
  unfold Fits Manager.HasRoom
  split
  · split <;> infer_instance
  · infer_instance

end Bookings

/-! ## Counting bindings -/

/-- The bindings of a record to a host. -/
def RdsInstance.bindings (i : RdsInstance) (host : String) : Nat :=
  i.nodeHosts.values.countP (· = host)

/-- What a binding counts for a host. -/
def onHost (host h : String) : Nat := if h = host then 1 else 0

theorem bindings_eq_total (i : RdsInstance) (host : String) :
    i.bindings host = Entries.total (onHost host) i.nodeHosts := by
  unfold RdsInstance.bindings Entries.total
  rw [BTreeMap.values_eq_map_toList]
  induction i.nodeHosts.toList with
  | nil => rfl
  | cons e l ih =>
    rw [List.map_cons, List.map_cons, List.sum_cons, List.countP_cons, ih, onHost]
    simp only [decide_eq_true_eq]
    omega

/-- A node is bound: the host gains it, and the one that it was bound to loses it. -/
theorem bindings_bindNode (i : RdsInstance) (node host h : String) :
    (i.bindNode node host).bindings h + (i.nodeHosts[node]?).elim 0 (onHost h) =
      i.bindings h + onHost h host := by
  rw [bindings_eq_total, bindings_eq_total]
  exact Entries.total_insert _ _ _ _

theorem bindings_clearNode (i : RdsInstance) (node h : String) :
    (i.clearNode node).bindings h ≤ i.bindings h := by
  have htotal := Entries.total_erase (onHost h) i.nodeHosts node
  rw [bindings_eq_total, bindings_eq_total]
  exact htotal ▸ Nat.le_add_right _ _

namespace Manager

variable {m m' : Manager} {inst node host : String} {i : RdsInstance}
  {f : RdsInstance → RdsInstance}

theorem hostBindingCount_eq_total (m : Manager) (host : String) :
    m.hostBindingCount host = Entries.total (·.bindings host) m.instances := by
  unfold hostBindingCount Entries.total
  rw [BTreeMap.values_eq_map_toList, List.map_map]
  rfl

/-- A record that changes: what its bindings count before and after. -/
theorem hostBindingCount_alter (hi : m.instances[inst]? = some i) (h : String) :
    (m.alterInstance inst f).persist.hostBindingCount h + i.bindings h =
      m.hostBindingCount h + (f i).bindings h := by
  have htotal := Entries.total_insert (·.bindings h) m.instances inst (f i)
  rw [hi] at htotal
  rw [hostBindingCount_eq_total, hostBindingCount_eq_total, persist_instances, alterInstance, hi]
  exact htotal

theorem alterInstance_missing (hi : m.instances[inst]? = none) : m.alterInstance inst f = m := by
  simp only [alterInstance, hi]

/-- No host gains a binding. -/
structure Keeps (m m' : Manager) : Prop where
  hosts : m'.hosts = m.hosts
  count : ∀ host, m'.hostBindingCount host ≤ m.hostBindingCount host

theorem Keeps.refl (m : Manager) : m.Keeps m := ⟨rfl, fun _ => le_rfl⟩

theorem Keeps.of_locks (h : m.Keeps m') (l : Locks) : Keeps { m with locks := l } m' :=
  ⟨h.hosts, h.count⟩

/-- A record changes, but gains no binding. -/
theorem keeps_alter (hf : ∀ i h, (f i).bindings h ≤ i.bindings h) :
    m.Keeps (m.alterInstance inst f).persist := by
  refine ⟨by rw [persist_hosts, alterInstance_hosts], fun h => ?_⟩
  cases hi : m.instances[inst]? with
  | none =>
    rw [alterInstance_missing hi]
    rfl
  | some i =>
    have hcount := hostBindingCount_alter (f := f) hi h
    have hle := hf i h
    omega

/-- A node is bound to a host. -/
structure Binds (m m' : Manager) (inst node host : String) : Prop where
  hosts : m'.hosts = m.hosts
  others : ∀ h, h ≠ host → m'.hostBindingCount h ≤ m.hostBindingCount h
  again : m.isBound inst node host = true → m'.hostBindingCount host = m.hostBindingCount host
  fresh : m.isBound inst node host = false → m'.hostBindingCount host = m.hostBindingCount host + 1

/-- A record gets a binding. -/
theorem binds_alter (hi : m.instances[inst]? = some i)
    (hf : ∀ h, (f i).bindings h = (i.bindNode node host).bindings h) :
    m.Binds (m.alterInstance inst f).persist inst node host := by
  have hcount := fun h => hostBindingCount_alter (f := f) hi h
  have hbind := bindings_bindNode i node host
  simp only [← hf] at hbind
  refine ⟨by rw [persist_hosts, alterInstance_hosts], fun h hne => ?_, fun hb => ?_, fun hb => ?_⟩
  · have hc := hcount h
    have hb := hbind h
    rw [onHost, if_neg hne.symm] at hb
    omega
  · have hc := hcount host
    have hb' := hbind host
    have hold : i.nodeHosts[node]? = some host := by simpa [isBound, hi] using hb
    rw [hold] at hb'
    simp only [Option.elim_some] at hb'
    omega
  · have hc := hcount host
    have hb' := hbind host
    have hold : (i.nodeHosts[node]?).elim 0 (onHost host) = 0 := by
      cases hn : i.nodeHosts[node]? with
      | none => rfl
      | some h =>
        have hne : h ≠ host := by simpa [isBound, hi, hn] using hb
        exact if_neg hne
    rw [hold, onHost, if_pos rfl] at hb'
    omega

/-- `schedule_check` for one slot passes when one is free. -/
theorem scheduleCheck_isOk {n : Nat} (hs : m.slots host = some n) :
    (m.scheduleCheck host 1).isOk = true ↔ m.hostBindingCount host + 1 ≤ n := by
  obtain ⟨hr, hfind, rfl⟩ := Option.map_eq_some_iff.1 hs
  simp only [scheduleCheck, hfind]
  split
  · next hfull =>
    simp only [Except.isOk, Except.toBool, Bool.false_eq_true, false_iff]
    omega
  · next hfree =>
    simp only [Except.isOk, Except.toBool, true_iff]
    omega

theorem slots_congr (h : m'.hosts = m.hosts) (host : String) : m'.slots host = m.slots host := by
  rw [slots, slots, h]

theorem WithinCapacity.keeps (hw : m.WithinCapacity) (h : m.Keeps m') : m'.WithinCapacity := by
  intro host n hs
  rw [slots_congr h.hosts] at hs
  exact (h.count host).trans (hw host n hs)

/-- A binding to a registered host keeps the limits when there is a slot for it. -/
theorem WithinCapacity.binds_iff {n : Nat} (hw : m.WithinCapacity) (h : m.Binds m' inst node host)
    (hs : m.slots host = some n) : m'.WithinCapacity ↔ m.HasRoom inst node host := by
  have hlimit := hw host n hs
  constructor
  · intro hw'
    cases hb : m.isBound inst node host with
    | true => exact .inl hb
    | false =>
      refine .inr ((scheduleCheck_isOk hs).2 ?_)
      rw [← h.fresh hb]
      exact hw' host n (by rw [slots_congr h.hosts, hs])
  · intro hroom host' n' hs'
    rw [slots_congr h.hosts] at hs'
    rcases eq_or_ne host' host with rfl | hne
    · obtain rfl := Option.some.inj (hs.symm.trans hs')
      cases hb : m.isBound inst node host' with
      | true => exact (h.again hb).trans_le hlimit
      | false =>
        rcases hroom with hbound | hok
        · cases hb.symm.trans hbound
        · exact (h.fresh hb).trans_le ((scheduleCheck_isOk hs).1 hok)
    · exact (h.others host' hne).trans (hw host' n' hs')

end Manager

/-! ## What is under way -/

/-- A host that is registered, under its trimmed name. -/
structure Known (rows : List HostRow) (host : String) : Prop where
  trimmed : trimmed host = host
  named : host ≠ ""
  row : (rows.find? (·.name = host)).isSome = true

/-- The host of a step that writes a binding. -/
def Step.boundTo : Step → Option String
  | .replaceNodeCommit _ _ host _ _ => some (trimmed host)
  | _ => none

/-- The hosts that a task may bind nodes to. -/
def Ongoing.hosts (t : Ongoing) : List String := (t.work.steps ++ t.left).filterMap Step.boundTo

/-- The hosts that a call or a task may still bind nodes to. -/
def Pending.hosts : Pending → List String
  | .assign _ _ host | .replace _ _ host _ => [host]
  | .clear .. | .migrate .. => []
  | .task t | .settling t _ => t.hosts
  | .moving t mg slaves => t.hosts ++ mg.host :: slaves.map (·.2)
  | .placing t mg _ host _ _ slaves => t.hosts ++ host :: mg.host :: (slaves.getD []).map (·.2)

/-- Every host that a call or a task may bind nodes to is registered. -/
def Pending.Sound (rows : List HostRow) (p : Pending) : Prop := ∀ host ∈ p.hosts, Known rows host

variable {m m' : Manager} {t : Ongoing} {mg : Migration} {s : Surroundings} {ok : Bool}
  {inst node host : String} {rows : List HostRow}

/-- A binding that is written is to a registered host. -/
theorem Pending.Sound.binding {p : Pending} {b : String × String × String} (h : p.Sound rows)
    (hb : p.binding = some b) : Known rows b.2.2 := by
  cases p with
  | assign | replace | clear | migrate | moving | settling =>
    cases hb
    try exact h _ (by simp [Pending.hosts])
  | task t =>
    simp only [Pending.binding] at hb
    split at hb
    · next heq =>
      cases hb
      exact h _ (by simp [Pending.hosts, Ongoing.hosts, heq, Step.boundTo])
    · cases hb
  | placing t mg n host' hp sid slaves =>
    cases hb
    have hk : Known rows host' := h _ (by simp [Pending.hosts])
    rwa [hk.trimmed]

/-! ### What a step leaves under way -/

/-- What is under way after a step names registered hosts only. -/
def SoundAfter (rows : List HostRow) (q : Manager × Option Pending) : Prop :=
  ∀ p ∈ q.2, p.Sound rows

theorem soundAfter_none : SoundAfter rows (m, none) := fun p hp => by cases hp

theorem soundAfter_some {p : Pending} (h : p.Sound rows) : SoundAfter rows (m, some p) := by
  rintro q ⟨⟩
  exact h

theorem Pending.Sound.of_subset {p q : Pending} (h : p.Sound rows) (hs : q.hosts ⊆ p.hosts) :
    q.Sound rows :=
  fun host hmem => h host (hs hmem)

theorem Ongoing.hosts_tail_subset (t : Ongoing) : t.next.hosts ⊆ t.hosts := by
  refine List.filterMap_subset _ fun step hmem => ?_
  rcases List.mem_append.1 hmem with h | h
  · exact List.mem_append_left _ h
  · exact List.mem_append_right _ (List.mem_of_mem_tail h)

theorem Ongoing.hosts_again_subset (t : Ongoing) (n : Nat) :
    (Pending.task ⟨t.work, n, t.work.steps⟩).hosts ⊆ t.hosts := by
  refine List.filterMap_subset _ fun step hmem => ?_
  rcases List.mem_append.1 hmem with h | h <;> exact List.mem_append_left _ h

theorem Ongoing.failed_sound (h : (Pending.task t).Sound rows) : SoundAfter rows (t.failed s m) := by
  unfold failed
  split
  · exact soundAfter_some (h.of_subset (t.hosts_again_subset _))
  · exact soundAfter_none

theorem known_of_forM {hosts : List String} (h : hosts.forM (migrateHost m) = .ok ()) :
    ∀ host ∈ hosts, (m.hosts.find? (·.name = host)).isSome = true := by
  induction hosts with
  | nil => exact fun _ hmem => by cases hmem
  | cons first rest ih =>
    obtain ⟨_, hfirst, hrest⟩ := Submission.bind_eq_ok h
    intro host hmem
    rcases List.mem_cons.1 hmem with rfl | hmem
    · unfold migrateHost at hfirst
      split at hfirst
      · next hfind => rw [hfind, Option.isSome_some]
      · cases hfirst
    · exact ih hrest host hmem

/-- The hosts of a migration that passes its checks. -/
theorem known_of_check {i : RdsInstance} (h : mg.check m = .ok i) {host : String}
    (hmem : host ∈ mg.targets) : Known m.hosts host := by
  obtain ⟨-, -, hall⟩ := Migration.check_eq_ok h
  obtain ⟨htrim, hne⟩ := mg.trimmed host hmem
  exact ⟨htrim, hne, known_of_forM hall host hmem⟩

theorem Migration.mem_slaves {i : RdsInstance} (ht : mg.targets ≠ []) {p : String × String}
    (hmem : p ∈ mg.slaves i) : p.2 ∈ mg.targets := by
  obtain ⟨⟨n, k⟩, -, rfl⟩ := List.mem_map.1 hmem
  have hlt : (k + 1) % mg.targets.length < mg.targets.length :=
    Nat.mod_lt _ (List.length_pos_iff.2 ht)
  simp only [List.getD_eq_getElem _ _ hlt]
  exact List.getElem_mem hlt

theorem Ongoing.perform_sound (h : (Pending.task t).Sound m.hosts) :
    SoundAfter m.hosts (t.perform s ok m) := by
  have hnext : t.next.Sound m.hosts := h.of_subset t.hosts_tail_subset
  unfold perform
  split
  · exact soundAfter_none
  · split
    · exact soundAfter_some hnext
    · exact failed_sound h
  · exact soundAfter_some hnext
  · dsimp only
    split
    · next i hcheck =>
      have hne := (Migration.check_eq_ok hcheck).2.1
      refine soundAfter_some fun host hmem => ?_
      rcases List.mem_append.1 hmem with hmem | hmem
      · exact h host hmem
      · refine known_of_check hcheck ?_
        rcases List.mem_cons.1 hmem with rfl | hmem
        · exact Migration.host_mem hne
        · obtain ⟨p, hp, rfl⟩ := List.mem_map.1 hmem
          exact Migration.mem_slaves hne hp
    · exact failed_sound h
  · split
    · exact soundAfter_some hnext
    · exact failed_sound h

namespace Pending

theorem moveNode_sound {slaves : Option (List (String × String))} {skip : Pending} {i : RdsInstance}
    (ht : (Pending.task t).Sound rows) (hskip : skip.Sound rows)
    (hplace : ∀ hp sid, (Pending.placing t mg node host hp sid slaves).Sound rows) :
    SoundAfter rows (moveNode t mg node host slaves skip i s ok m) := by
  unfold moveNode
  split
  · exact soundAfter_some hskip
  · split
    · exact soundAfter_some (hplace _ _)
    · exact Ongoing.failed_sound ht

theorem moveNext_sound {slaves : List (String × String)}
    (h : (Pending.moving t mg slaves).Sound rows) : SoundAfter rows (moveNext t mg slaves s ok m) := by
  have ht : (Pending.task t).Sound rows := h.of_subset (List.subset_append_left _ _)
  unfold moveNext
  split
  · exact Ongoing.failed_sound ht
  · split
    · next node host rest =>
      refine moveNode_sound ht (h.of_subset ?_) fun _ _ => h.of_subset ?_
      · simp only [hosts]
        grind
      · simp only [hosts]
        grind
    · split
      · exact Ongoing.failed_sound ht
      · refine moveNode_sound ht (h.of_subset ?_) fun _ _ => h.of_subset ?_
        · exact List.subset_append_left _ _
        · simp only [hosts]
          grind

/-- A submission hands out a task, or changes nothing but the locks. -/
theorem submitted_locked {name kind : String} {nodes : List (TaskNode Step)} {f : Manager → Manager}
    {q : Manager × Option Pending}
    (hq : q = submitted (exec (do
      lockFor name s
      update f
      submit kind name nodes .task s) m)) :
    (∃ l, q = ({ m with locks := l }, none)) ∨
      ∃ l id, q.1.instances = (f { m with locks := l }).instances ∧
        q.1.hosts = (f { m with locks := l }).hosts ∧
        q.2 = some (.task (.ofWork (.task id kind name nodes .task))) := by
  rcases hl : exec (lockInstance name s.authority) m.locks with ⟨reply, l⟩
  cases reply with
  | error msg =>
    rw [exec_bind_error (by rw [lockFor, exec_zoom, hl])] at hq
    exact .inl ⟨l, hq⟩
  | ok =>
    rw [exec_bind_ok (by rw [lockFor, exec_zoom, hl])] at hq
    refine .inr ⟨l, "t-" ++ kind ++ "-" ++ toString s.seq, ?_⟩
    rw [hq]
    refine ⟨rfl, rfl, ?_⟩
    show ((_ ++ [_] : List Work).getLast?.map _) = _
    rw [List.getLast?_concat]
    rfl

theorem go_sound {p : Pending} (h : p.Sound m.hosts) (s : Surroundings) (ok : Bool) :
    SoundAfter m.hosts (p.go s ok m) := by
  cases p with
  | assign | clear => exact soundAfter_none
  | replace inst node host i =>
    rcases submitted_locked (q := go s ok m (.replace inst node host i)) rfl with
      ⟨l, hq⟩ | ⟨l, id, -, -, hq⟩
    · exact hq ▸ soundAfter_none
    · intro p hp
      rw [hq] at hp
      cases hp
      intro host' hmem
      have hk : Known m.hosts host := h host (List.mem_singleton_self _)
      have heq : trimmed host = host' := by
        simpa [Pending.hosts, Ongoing.hosts, Ongoing.ofWork, Work.steps, replaceNodes, simpleNode,
          Step.boundTo] using hmem
      rwa [← heq, hk.trimmed]
  | migrate inst region az hosts =>
    rcases submitted_locked (q := go s ok m (.migrate inst region az hosts)) rfl with
      ⟨l, hq⟩ | ⟨l, id, -, -, hq⟩
    · exact hq ▸ soundAfter_none
    · intro p hp
      rw [hq] at hp
      cases hp
      exact fun host hmem => by cases hmem
  | task t => exact Ongoing.perform_sound h
  | moving t mg slaves => exact moveNext_sound h
  | placing t mg node host hp sid slaves =>
    have ht : (Pending.task t).Sound m.hosts := h.of_subset (List.subset_append_left _ _)
    simp only [go]
    split
    · refine soundAfter_some ?_
      cases slaves with
      | none => exact ht
      | some rest =>
        refine h.of_subset ?_
        simp only [Pending.hosts]
        grind
    · exact Ongoing.failed_sound ht
  | settling t mg => exact soundAfter_some (h.of_subset t.hosts_tail_subset)

end Pending

/-! ### What a step writes -/

/-- A step writes the binding that was next, if the record is there, and no other. -/
inductive Wrote (m : Manager) : Option (String × String × String) → Manager → Prop
  | kept {b : Option (String × String × String)} {m' : Manager} (h : m.Keeps m')
      (hb : ∀ inst node host, b = some (inst, node, host) → m.instances.contains inst = false) :
      Wrote m b m'
  | bound {inst node host : String} {m' : Manager} (h : m.Binds m' inst node host)
      (hi : m.instances.contains inst = true) : Wrote m (some (inst, node, host)) m'

theorem Wrote.hosts {w : Option (String × String × String)} (h : Wrote m w m') :
    m'.hosts = m.hosts := by
  cases h with
  | kept h => exact h.hosts
  | bound h => exact h.hosts

theorem Wrote.of_keeps (h : m.Keeps m') : Wrote m none m' := .kept h fun _ _ _ hb => by cases hb

namespace Manager

theorem keeps_withStatus (m : Manager) (inst : String) (status : InstStatus) :
    m.Keeps (m.alterInstance inst (·.withStatus status)).persist :=
  keeps_alter fun _ _ => le_rfl

theorem keeps_taskEnded (m : Manager) (inst id : String) (watcher : Watcher) (failed : Bool)
    (answer : Proposal) : m.Keeps (m.taskEnded inst id watcher failed answer) := by
  unfold taskEnded
  dsimp only
  split
  · refine Keeps.of_locks (m := m.unlock inst answer) (keeps_alter fun i h => ?_) m.locks
    split <;> exact le_rfl
  · exact (Keeps.refl (m.unlock inst answer)).of_locks m.locks

theorem binds_commitReplaceNode {i : RdsInstance} {hostPort serverId : Nat}
    (hi : m.instances[inst]? = some i) (hhost : trimmed host ≠ "") :
    m.Binds (m.commitReplaceNode inst node host hostPort serverId) inst node (trimmed host) :=
  binds_alter hi fun h => by
    simp only [RdsInstance.bindings, RdsInstance.commitReplace, RdsInstance.bindNode, if_neg hhost]

end Manager

theorem Ongoing.keeps_ended (failed : Bool) : m.Keeps (t.ended failed s m) := by
  unfold ended
  split
  · exact Manager.keeps_taskEnded _ _ _ _ _ _
  · exact Manager.Keeps.refl m

theorem Ongoing.keeps_failed : m.Keeps (t.failed s m).1 := by
  unfold failed
  split
  · exact Manager.Keeps.refl m
  · exact keeps_ended true

/-- The write of a binding, where the record may be gone. -/
theorem wrote_of_missing {f : RdsInstance → RdsInstance}
    (hf : ∀ i, m.instances[inst]? = some i →
      m.Binds (m.alterInstance inst f).persist inst node host) :
    Wrote m (some (inst, node, host)) (m.alterInstance inst f).persist := by
  cases hi : m.instances[inst]? with
  | none =>
    rw [Manager.alterInstance_missing hi]
    refine .kept ⟨rfl, fun _ => le_rfl⟩ ?_
    rintro _ _ _ ⟨⟩
    rw [Std.ExtTreeMap.contains_eq_isSome_getElem?, hi, Option.isSome_none]
  | some i =>
    refine .bound (hf i hi) ?_
    rw [Std.ExtTreeMap.contains_eq_isSome_getElem?, hi, Option.isSome_some]

/-- `commit_replace_node`, which fails when the record is gone. -/
theorem wrote_commit {hostPort serverId : Nat} {p : Option Pending} (hk : Known rows (trimmed host)) :
    Wrote m (some (inst, node, trimmed host))
      (if m.instances.contains inst then
        (m.commitReplaceNode inst node host hostPort serverId, p) else t.failed s m).1 := by
  split
  · next hi =>
    obtain ⟨i, hget⟩ : ∃ i, m.instances[inst]? = some i := by
      rwa [Std.ExtTreeMap.contains_eq_isSome_getElem?, Option.isSome_iff_exists] at hi
    exact .bound (Manager.binds_commitReplaceNode hget hk.named) hi
  · next hi =>
    refine .kept Ongoing.keeps_failed ?_
    rintro _ _ _ ⟨⟩
    exact Bool.not_eq_true _ ▸ hi

theorem Ongoing.perform_wrote (h : (Pending.task t).Sound rows) :
    Wrote m (Pending.task t).binding (t.perform s ok m).1 := by
  rcases t with ⟨w, n, _ | ⟨step, rest⟩⟩
  · exact .of_keeps (keeps_ended false)
  · have hother : Wrote m none (if ok then (m, some (Ongoing.mk w n (step :: rest)).next)
        else (Ongoing.mk w n (step :: rest)).failed s m).1 := by
      split
      · exact .of_keeps (Manager.Keeps.refl m)
      · exact .of_keeps keeps_failed
    cases step with
    | replaceNodeCommit inst node host hostPort serverId =>
      exact wrote_commit (h.binding rfl)
    | updateInstanceStatus inst status => exact .of_keeps (Manager.keeps_withStatus _ _ _)
    | migrateInstance inst region az hosts =>
      simp only [perform]
      split
      · exact .of_keeps (Manager.Keeps.refl m)
      · exact .of_keeps keeps_failed
    | _ => exact hother

namespace Pending

theorem keeps_moveNode {slaves : Option (List (String × String))} {skip : Pending}
    {i : RdsInstance} :
    m.Keeps (moveNode t mg node host slaves skip i s ok m).1 := by
  unfold moveNode
  split
  · exact Manager.Keeps.refl m
  · split
    · exact Manager.Keeps.refl m
    · exact Ongoing.keeps_failed

theorem keeps_moveNext {slaves : List (String × String)} :
    m.Keeps (moveNext t mg slaves s ok m).1 := by
  unfold moveNext
  split
  · exact Ongoing.keeps_failed
  · split
    · exact keeps_moveNode
    · split
      · exact Ongoing.keeps_failed
      · exact keeps_moveNode

/-- A submission gives a record another status. -/
theorem keeps_submitted {name kind : String} {nodes : List (TaskNode Step)}
    {q : Manager × Option Pending} (hq : q = submitted (exec (do
      lockFor name s
      update fun m => (m.alterInstance name (·.withStatus .switching)).persist
      submit kind name nodes .task s) m)) : m.Keeps q.1 := by
  rcases submitted_locked hq with ⟨l, hq⟩ | ⟨l, id, hi, hh, -⟩
  · rw [hq]
    exact ⟨rfl, fun _ => le_rfl⟩
  · have hkeeps := (Manager.keeps_withStatus { m with locks := l } name .switching).of_locks m.locks
    refine ⟨hh.trans hkeeps.hosts, fun host => ?_⟩
    have hcount := hkeeps.count host
    rw [Manager.hostBindingCount_eq_total] at hcount ⊢
    rw [hi]
    exact hcount

theorem go_wrote {p : Pending} (h : p.Sound m.hosts) (s : Surroundings) (ok : Bool) :
    Wrote m p.binding (p.go s ok m).1 := by
  cases p with
  | assign inst node host =>
    exact wrote_of_missing fun i hi => Manager.binds_alter hi fun _ => rfl
  | clear inst node =>
    exact .of_keeps (Manager.keeps_alter fun i h => bindings_clearNode i node h)
  | replace inst node host i => exact .of_keeps (keeps_submitted rfl)
  | migrate inst region az hosts => exact .of_keeps (keeps_submitted rfl)
  | task t => exact Ongoing.perform_wrote h
  | moving t mg slaves => exact .of_keeps keeps_moveNext
  | placing t mg node host hp sid slaves =>
    exact wrote_commit (h.binding rfl)
  | settling t mg => exact .of_keeps (Manager.keeps_alter fun _ _ => le_rfl)

end Pending

/-! ### Runs -/

namespace Bookings

variable {b b' : Bookings} {ev : BookingEvent}

/-- Whatever is under way names registered hosts only. -/
def Sound (b : Bookings) : Prop := ∀ p ∈ b.pending, p.Sound b.manager.hosts

theorem Sound.begin (h : b.Sound) {r : Except String Pending}
    (hr : ∀ p, r = .ok p → p.Sound b.manager.hosts) : (b.begin r).Sound := by
  cases r with
  | error e => exact h
  | ok p =>
    intro q hq
    rcases List.mem_append.1 hq with hq | hq
    · exact h q hq
    · exact List.mem_singleton.1 hq ▸ hr p rfl

theorem begin_manager (b : Bookings) (r : Except String Pending) :
    (b.begin r).manager = b.manager := by
  cases r <;> rfl

theorem known_of_find {rows : List HostRow} {host : String} {hr : HostRow} (hne : host ≠ "")
    (htrim : trimmed host = host) (hfind : rows.find? (·.name = host) = some hr) : Known rows host :=
  ⟨htrim, hne, by rw [hfind, Option.isSome_some]⟩

theorem known_of_assign {m : Manager} {inst node host : String} (htrim : trimmed host = host)
    (h : hostAssignCheck inst node host m = .ok ()) : Known m.hosts host := by
  unfold hostAssignCheck at h
  split at h
  · cases h
  · next hne =>
    push Not at hne
    split at h
    · cases h
    · split at h
      · cases h
      · split at h
        · cases h
        · split at h
          · cases h
          · next hfind => exact known_of_find hne.2.2 htrim hfind

theorem known_of_replace {m : Manager} {inst node host : String} {i : RdsInstance}
    (htrim : trimmed host = host) (h : replaceCheck inst node host m = .ok i) :
    Known m.hosts host := by
  unfold replaceCheck at h
  split at h
  · cases h
  · next hne =>
    push Not at hne
    obtain ⟨_, -, h⟩ := Submission.bind_eq_ok h
    obtain ⟨_, -, h⟩ := Submission.bind_eq_ok h
    obtain ⟨_, htarget, -⟩ := Submission.bind_eq_ok h
    unfold replaceTarget at htarget
    split at htarget
    · cases htarget
    · next hfind => exact known_of_find hne.2 htrim hfind

theorem Sound.step (h : b.Sound) (hs : b.step ev = some b') : b'.Sound := by
  cases ev with
  | assign inst node host =>
    cases hs
    refine h.begin fun p hp => ?_
    obtain ⟨_, hcheck, rfl⟩ := Submission.map_eq_ok hp
    intro host' hmem
    rw [List.mem_singleton.1 hmem]
    exact known_of_assign (trimmed_trimmed host) hcheck
  | clear inst node =>
    cases hs
    refine h.begin fun p hp => ?_
    obtain ⟨_, -, rfl⟩ := Submission.map_eq_ok hp
    exact fun host hmem => by cases hmem
  | replace inst node host =>
    cases hs
    refine h.begin fun p hp => ?_
    obtain ⟨i, hcheck, rfl⟩ := Submission.map_eq_ok hp
    intro host' hmem
    rw [List.mem_singleton.1 hmem]
    exact known_of_replace (trimmed_trimmed host) hcheck
  | migrate inst region az csv =>
    cases hs
    refine h.begin fun p hp => ?_
    obtain ⟨_, -, rfl⟩ := Submission.map_eq_ok hp
    exact fun host hmem => by cases hmem
  | go k s ok =>
    obtain ⟨p, hp, rfl⟩ := Option.map_eq_some_iff.1 hs
    have hsound := h p (List.mem_of_getElem? hp)
    have hhosts := (Pending.go_wrote hsound s ok).hosts
    have hafter := Pending.go_sound hsound s ok
    intro q hq
    rcases hgo : p.go s ok b.manager with ⟨m, _ | p'⟩
    · simp only [hgo] at hq hhosts ⊢
      rw [hhosts]
      exact h q (List.mem_of_mem_eraseIdx hq)
    · simp only [hgo] at hq hhosts hafter ⊢
      rw [hhosts]
      rcases List.mem_or_eq_of_mem_set hq with hq | rfl
      · exact h q hq
      · exact hafter q rfl

/-- A step keeps every limit exactly when the binding that it writes finds a slot. -/
theorem within_step_iff (h : b.Sound) (hw : b.manager.WithinCapacity) (hs : b.step ev = some b') :
    b'.manager.WithinCapacity ↔ b.Fits ev := by
  cases ev with
  | assign | clear | replace | migrate =>
    cases hs
    rw [begin_manager]
    exact iff_of_true hw trivial
  | go k s ok =>
    obtain ⟨p, hp, rfl⟩ := Option.map_eq_some_iff.1 hs
    have hsound := h p (List.mem_of_getElem? hp)
    have hwrote := Pending.go_wrote hsound s ok
    have hmanager : (match p.go s ok b.manager with
        | (m, some q) => (⟨m, b.pending.set k q⟩ : Bookings)
        | (m, none) => ⟨m, b.pending.eraseIdx k⟩).manager = (p.go s ok b.manager).1 := by
      rcases p.go s ok b.manager with ⟨m, _ | p'⟩ <;> rfl
    rw [hmanager]
    simp only [Fits, hp, Option.bind_some]
    generalize hb : p.binding = w at hwrote ⊢
    cases hwrote with
    | kept hkeeps hmissing =>
      refine iff_of_true (hw.keeps hkeeps) ?_
      split
      · next inst node host =>
        intro hi
        cases (hmissing inst node host rfl).symm.trans hi
      · trivial
    | bound hbinds hi =>
      obtain ⟨hr, hfind⟩ := Option.isSome_iff_exists.1 (hsound.binding hb).row
      have hslots := congrArg (Option.map fun hr : HostRow => max (hr.memGb / 8) 1) hfind
      exact (hw.binds_iff hbinds hslots).trans ⟨fun hroom _ => hroom, fun hroom => hroom hi⟩

/-- The runs of a manager. -/
abbrev BookingRun : History Bookings BookingEvent → Bookings → Prop :=
  Run step (fun _ _ _ => True) Initial

theorem Sound.of_run {h : History Bookings BookingEvent} (hr : BookingRun h b) : b.Sound := by
  refine hr.invariant (I := fun _ b => b.Sound) (fun b hi p hp => ?_) ?_
  · rw [hi.idle] at hp
    cases hp
  · exact fun _ _ _ _ _ hsound _ hs => hsound.step hs

/-- No host ever has more bindings than slots, exactly when every binding finds a slot at the moment
when it is written. -/
theorem withinCapacity_iff {h : History Bookings BookingEvent} (hr : BookingRun h b) :
    (∀ t ∈ h.states b, t.manager.WithinCapacity) ↔ ∀ t ev, (t, ev) ∈ h → t.Fits ev := by
  induction hr with
  | start hi =>
    refine iff_of_true (fun t ht => ?_) fun t ev hmem => by cases hmem
    obtain rfl : t = _ := by simpa using ht
    exact hi.within
  | @step h b b' ev hr _ hs ih =>
    have hsound : b.Sound := .of_run hr
    constructor
    · intro hall t e hmem
      have hbefore : ∀ t ∈ h.states b, t.manager.WithinCapacity :=
        fun t ht => hall t (List.mem_cons_of_mem _ ht)
      rcases List.mem_cons.1 hmem with heq | hmem
      · cases heq
        exact (within_step_iff hsound (hbefore b List.mem_cons_self) hs).1
          (hall b' List.mem_cons_self)
      · exact ih.1 hbefore t e hmem
    · intro hfits t ht
      have hbefore := ih.2 fun t e hmem => hfits t e (List.mem_cons_of_mem _ hmem)
      rcases List.mem_cons.1 ht with rfl | ht
      · exact (within_step_iff hsound (hbefore b List.mem_cons_self) hs).2
          (hfits b ev List.mem_cons_self)
      · exact hbefore t ht

/-! ## A replacement and a binding at the same time -/

/-- Without a binding no host is over its limit. -/
theorem within_of_unbound {m : Manager} (h : m.instances.values.all (·.nodeHosts.isEmpty) = true) :
    m.WithinCapacity := by
  intro host n _
  have hzero : m.hostBindingCount host = 0 := by
    refine List.sum_eq_zero_iff_forall_eq_nat.2 fun c hc => ?_
    obtain ⟨i, hi, rfl⟩ := List.mem_map.1 hc
    have hempty := Std.ExtTreeMap.isEmpty_iff.1 (List.all_eq_true.1 h i hi)
    rw [hempty]
    rfl
  exact hzero ▸ n.zero_le

/-- An instance of three nodes, and a machine with this memory. -/
def machine (memGb : Nat) : Bookings where
  manager := { Submission.created with hosts := [⟨"h2", "10.0.0.2", memGb, 9199, "online"⟩] }
  pending := []

theorem initial_machine (memGb : Nat) : (machine memGb).Initial where
  idle := rfl
  within := within_of_unbound (by
    show (Submission.created.instances.values.all (·.nodeHosts.isEmpty)) = true
    decide +kernel)

/-- A slave is to be replaced on the machine; the other one is bound to it while the task runs. -/
def replaceAndAssign : List BookingEvent :=
  [.replace "db" "rds-db-slave-1" "h2", .go 0 .plain true, .go 0 .plain true,
    .assign "db" "rds-db-slave-2" "h2", .go 1 .plain true, .go 0 .plain true]

/-- A machine with three slots has room for both. -/
theorem withinCapacity_two : ∃ h b, BookingRun h b ∧ b.manager.hostBindingCount "h2" = 2 ∧
    ∀ t ∈ h.states b, t.manager.WithinCapacity := by
  have hf : (follow step (fun _ _ _ => True) replaceAndAssign [] (machine 24)).map (fun q =>
      (q.2.manager.hostBindingCount "h2", q.1.all fun p => p.1.Fits p.2)) = some (2, true) := by
    decide +kernel
  obtain ⟨⟨h, b⟩, hfollow, hval⟩ := Option.map_eq_some_iff.1 hf
  simp only [Prod.mk.injEq, List.all_eq_true, decide_eq_true_eq] at hval
  obtain ⟨hcount, hfits⟩ := hval
  have hr : BookingRun h b := (Run.start (initial_machine 24)).follow hfollow
  exact ⟨h, b, hr, hcount, (withinCapacity_iff hr).2 fun t ev hmem => hfits (t, ev) hmem⟩

/-- A machine with one slot gets both: the replacement has checked before the other was bound. -/
theorem machine_overbooked : ¬ ∀ h b, BookingRun h b → ∀ t ∈ h.states b, t.manager.WithinCapacity := by
  intro hall
  have hf : (follow step (fun _ _ _ => True) replaceAndAssign [] (machine 8)).map (fun q =>
      (q.2.manager.slots "h2", q.2.manager.hostBindingCount "h2")) = some (some 1, 2) := by
    decide +kernel
  obtain ⟨⟨h, b⟩, hfollow, hval⟩ := Option.map_eq_some_iff.1 hf
  obtain ⟨hslots, hcount⟩ : b.manager.slots "h2" = some 1 ∧ b.manager.hostBindingCount "h2" = 2 :=
    Prod.mk.inj hval
  have hr : BookingRun h b := (Run.start (initial_machine 8)).follow hfollow
  have hle := hall h b hr b (History.mem_states.2 (.inl rfl)) "h2" 1 hslots
  omega

end Bookings

end Rdsctl.Inst
