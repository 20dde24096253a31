import Rdsctl.Inst.Basic
import Rdsctl.Store.Delivery

/-!
# Registration at the backup platform

`src/backuplink.rs`: `on_task_success`, `on_instance_enabled` and `reconcile` put events into the
outbox, whose key lets each of them in once. The keys know neither the incarnation of an instance nor
what a switch was set to. `Registration` is the registry with the outbox and what the platform has been
sent; every delivery succeeds, in the order of the ids. `converges_iff` says for which runs the
platform agrees with the registry whenever nothing is pending.
-/

namespace Rdsctl.Store

open Inst
open Ha (BTreeMap)

/-! ## Events and their keys -/

/-- What `ikey` makes of a character. -/
def sanitized (c : Char) : Char :=
  if c.isAlphanum || c = '-' || c = '_' || c = '.' then c else '_'

def ikey (event instance' node : String) : String :=
  String.ofList ((event ++ "-" ++ instance' ++ "-" ++ node).toList.map sanitized)

def roleTag : Role → String
  | .master => "master"
  | .read => "read"
  | .offline | .stats | .backup => "offline"

/-- `node_json` -/
structure NodeJson where
  container : String
  role : String
  hostPort : Nat
  serverId : Nat
  region : String
  az : String
  backupCapable : Bool
  deriving DecidableEq

def nodeJson (i : RdsInstance) (n : InstNode) : NodeJson where
  container := n.container
  role := roleTag n.role
  hostPort := n.hostPort
  serverId := n.serverId
  region := if n.region = "" then i.region else n.region
  az := if n.az = "" then i.az else n.az
  backupCapable := n.role.isOffline || n.role = .master

/-- A node in the payload of a heartbeat. -/
structure NodeBrief where
  container : String
  role : String
  hostPort : Nat
  backupCapable : Bool
  deriving DecidableEq

def nodeBrief (n : InstNode) : NodeBrief where
  container := n.container
  role := roleTag n.role
  hostPort := n.hostPort
  backupCapable := n.role.isOffline || n.role = .master

/-- The payloads, as JSON objects. -/
inductive Payload where
  | registerInstance (instance' region az : String) (status : InstStatus) (enabled : Bool)
      (nodes : List NodeJson)
  | registerNode (instance' : String) (node : NodeJson)
  | deregisterInstance (instance' : String)
  | heartbeat (instance' : String) (enabled : Bool) (status : InstStatus) (nodes : List NodeBrief)
  deriving DecidableEq

/-- The field `enabled`, where there is one. -/
def Payload.enabled : Payload → Option Bool
  | .registerInstance _ _ _ _ enabled _ | .heartbeat _ enabled _ _ => some enabled
  | .registerNode .. | .deregisterInstance _ => none

def payloadRegister (i : RdsInstance) : Payload :=
  .registerInstance i.name i.region i.az i.status i.enabled (i.nodes.map (nodeJson i))

/-- The payload of `on_instance_enabled`. -/
def payloadHeartbeat (i : RdsInstance) : Payload :=
  .heartbeat i.name i.enabled i.status (i.nodes.map nodeBrief)

/-! ## The system -/

/-- How the back end compares texts. -/
def Backend.same : Backend → String → String → Bool
  | .memory => fun a b => a = b
  | .mysql same => same

structure Registration where
  instances : BTreeMap String RdsInstance
  box : Outbox Payload
  /-- What the platform was sent, the latest event last. -/
  delivered : List (PolledRow Payload)
  /-- For every instance, the last id that was given before it was created. -/
  born : String → Nat

inductive RegistrationEvent where
  /-- A task "create" succeeds. -/
  | create (name : String) (i : RdsInstance) (now : Nat)
  | scaleout (name : String) (nodes : List InstNode) (now : Nat)
  | destroy (name : String) (now : Nat)
  | delete (name : String)
  | setEnabled (name : String) (enabled : Bool) (now : Nat)
  | reconcile (now : Nat)
  /-- The pending event with the least id is delivered. -/
  | deliver (now : Nat)
  | prune (before : Nat)

namespace Registration

variable (b : Backend)

def init : Registration := ⟨∅, ⟨[], 0⟩, [], fun _ => 0⟩

/-- The outbox has an event under this key. -/
def hasKey (s : Registration) (key : String) : Bool := s.box.rows.any (b.same ·.ikey key)

def enqueue (s : Registration) (event inst node key : String) (payload : Payload) (now : Nat) :
    Registration :=
  { s with box := (b.backupOutboxEnqueue s.box event inst node key payload now).1 }

def onTaskSuccess (s : Registration) (kind inst : String) (now : Nat) : Registration :=
  match s.instances[inst]? with
  | none => s
  | some i =>
    match kind with
    | "create" =>
      s.enqueue b "register_instance" inst "master" (ikey "register_instance" inst "master")
        (payloadRegister i) now
    | "scaleout" =>
      (i.nodes.filter (·.role ≠ .master)).foldl (fun s n =>
        s.enqueue b "register_node" inst n.container (ikey "register_node" inst n.container)
          (.registerNode i.name (nodeJson i n)) now) s
    | "destroy" =>
      s.enqueue b "deregister_instance" inst "master" (ikey "deregister_instance" inst "master")
        (.deregisterInstance i.name) now
    | _ => s

/-- The key of a heartbeat. -/
def heartbeatKey (inst : String) (now : Nat) : String := ikey "heartbeat" inst (toString (now / 60))

def onInstanceEnabled (s : Registration) (inst : String) (now : Nat) : Registration :=
  match s.instances[inst]? with
  | none => s
  | some i => s.enqueue b "heartbeat" inst "" (heartbeatKey inst now) (payloadHeartbeat i) now

/-- `backup_outbox_reg_state` has this pair as registered: the last done event among those of the same
names is of this instance and node and its name starts with "register". -/
def registered (s : Registration) (inst node : String) : Bool :=
  s.box.rows.any fun r =>
    r.state = .done && r.instance' = inst && r.node = node &&
      "register".toList.isPrefixOf r.event.toList &&
      s.box.rows.all fun r' =>
        !(r'.state = .done && b.same r'.instance' r.instance' && b.same r'.node r.node) || r'.id ≤ r.id

/-- `reconcile` registers the instance anew. -/
def needs (s : Registration) (i : RdsInstance) : Bool :=
  i.nodes.any fun n => !s.registered b i.name n.container

def reconcile (s : Registration) (now : Nat) : Registration :=
  let scan := (s.instances.toList.map (·.2)).filter (·.status = .running)
  (scan.filter (s.needs b)).foldl (fun s i => s.onTaskSuccess b "create" i.name now) s

def step (s : Registration) : RegistrationEvent → Option Registration
  | .create name i now =>
    if s.instances[name]? = none ∧ i.name = name ∧ i.status = .running ∧ i.enabled = true then
      some ({ s with
        instances := s.instances.insert name i
        born := fun n => if n = name then s.box.next else s.born n }.onTaskSuccess b "create" name now)
    else none
  | .scaleout name nodes now =>
    match s.instances[name]? with
    | some i =>
      if i.status = .running then
        some ({ s with
          instances := s.instances.insert name { i with nodes := i.nodes ++ nodes } }.onTaskSuccess b
            "scaleout" name now)
      else none
    | none => none
  | .destroy name now =>
    match s.instances[name]? with
    | some i =>
      if i.status = .running then
        some ({ s with
          instances := s.instances.insert name { i with status := .destroyed } }.onTaskSuccess b
            "destroy" name now)
      else none
    | none => none
  | .delete name =>
    match s.instances[name]? with
    | some i =>
      if i.status = .destroyed then some { s with instances := s.instances.erase name } else none
    | none => none
  | .setEnabled name enabled now =>
    match s.instances[name]? with
    | some i =>
      if i.status = .destroyed then none
      else if i.enabled = enabled then some s
      else
        some ({ s with
          instances := s.instances.insert name { i with enabled := enabled } }.onInstanceEnabled b
            name now)
    | none => none
  | .reconcile now => some (s.reconcile b now)
  | .deliver now =>
    match s.box.rows.find? (·.state = .pending) with
    | some r =>
      let attempts := r.attempts + 1
      let (state, nextAt, err) := outcome .ok attempts now
      some { s with
        box := b.backupOutboxMark s.box r.id state attempts nextAt err now
        delivered := s.delivered ++ [r.toPolledRow] }
    | none => none
  | .prune before => some { s with box := (b.backupOutboxPrune s.box before).1 }

/-! ## What is promised, and when -/

def pending (s : Registration) : List (PolledRow Payload) :=
  (s.box.rows.filter (·.state = .pending)).map (·.toPolledRow)

/-- What the platform has been sent when nothing is pending any more. -/
def events (s : Registration) : List (PolledRow Payload) := s.delivered ++ s.pending

/-- An event about the registration of an instance as such. -/
def aboutInstance (name : String) (r : PolledRow Payload) : Bool :=
  r.instance' = name &&
    (r.event = "register_instance" || r.event = "heartbeat" || r.event = "deregister_instance")

def lastOf (l : List (PolledRow Payload)) (name : String) : Option (PolledRow Payload) :=
  (l.filter (aboutInstance name)).getLast?

/-- The last event about an instance agrees with its record: a running one was registered, or
announced by a heartbeat, after it was created and with its flag, one that is gone was
deregistered. -/
def AgreesOn (i : Option RdsInstance) (born : Nat) (last : Option (PolledRow Payload)) : Prop :=
  match i, last with
  | none, none => True
  | none, some r => r.event = "deregister_instance"
  | some _, none => False
  | some i, some r =>
    if i.status = .running then
      (r.event = "register_instance" ∨ r.event = "heartbeat") ∧ born < r.id ∧
        r.payload.enabled = some i.enabled
    else r.event = "deregister_instance"

/-- The list of events agrees with the registry. -/
def Agrees (s : Registration) (l : List (PolledRow Payload)) : Prop :=
  ∀ name, AgreesOn s.instances[name]? (s.born name) (lastOf l name)

structure Converges (h : History Registration RegistrationEvent) (s : Registration) : Prop where
  /-- Once nothing is pending, the platform agrees with the registry. -/
  settles : ∀ h' s', Run (step b) (fun _ _ e => ∃ now, e = .deliver now) (· = s) h' s' →
    s'.pending = [] → Agrees s' s'.delivered
  /-- Reconciling enqueues nothing where they agree. -/
  still : ∀ t now h', h = (t, .reconcile now) :: h' → t.pending = [] → Agrees t t.delivered →
    s.box.rows = t.box.rows

/-- The event of a task or a switch has a key that the outbox does not have, or the platform has
already heard what it says; reconciling where they agree finds its keys in the outbox. -/
def Heard (s : Registration) : RegistrationEvent → Prop
  | .create name _ _ => s.hasKey b (ikey "register_instance" name "master") = false
  | .destroy name _ => s.hasKey b (ikey "deregister_instance" name "master") = false ∨
    ∃ r, lastOf s.events name = some r ∧ r.event = "deregister_instance"
  | .setEnabled name enabled now => ∀ i, s.instances[name]? = some i → i.enabled ≠ enabled →
    s.hasKey b (heartbeatKey name now) = false ∨
      AgreesOn (some { i with enabled := enabled }) (s.born name) (lastOf s.events name)
  | .reconcile _ => s.pending = [] → Agrees s s.delivered → ∀ name i, s.instances[name]? = some i →
    i.status = .running → s.needs b i → s.hasKey b (ikey "register_instance" name "master") = true
  | _ => True

/-! ## What the calls do to the list of events -/

variable {b} {s s' : Registration}

structure Ok (s : Registration) : Prop where
  ordered : s.box.Ordered
  named : ∀ (name : String) (i : RdsInstance), s.instances[name]? = some i →
    i.name = name ∧ (i.status = .running ∨ i.status = .destroyed)
  given : ∀ r ∈ s.events, r.id ≤ s.box.next
  born : ∀ name, s.born name ≤ s.box.next

/-- An event goes into the outbox, or its key is there already. -/
theorem enqueue_cases (s : Registration) (event inst node key : String) (payload : Payload)
    (now : Nat) :
    (s.hasKey b key = true ∧ ∃ k, s.box.next ≤ k ∧
      s.enqueue b event inst node key payload now = { s with box := { s.box with next := k } }) ∨
    (s.hasKey b key = false ∧ ∃ r : MemBOutbox Payload, r.id = s.box.next + 1 ∧ r.event = event ∧
      r.instance' = inst ∧ r.payload = payload ∧ r.state = .pending ∧
      s.enqueue b event inst node key payload now =
        { s with box := { rows := s.box.rows ++ [r], next := s.box.next + 1 } }) := by
  cases b with
  | memory =>
    cases hk : s.hasKey .memory key with
    | true =>
      have hk' : s.box.rows.any (·.ikey = key) = true := hk
      exact .inl ⟨rfl, s.box.next, le_rfl, by
        simp [enqueue, Backend.backupOutboxEnqueue, MemoryBackend.backupOutboxEnqueue, hk']⟩
    | false =>
      have hk' : s.box.rows.any (·.ikey = key) = false := hk
      refine .inr ⟨rfl, .new (s.box.next + 1) event inst node key payload now, rfl, rfl, rfl, rfl, rfl,
        ?_⟩
      simp only [enqueue, Backend.backupOutboxEnqueue, MemoryBackend.backupOutboxEnqueue, hk',
        Bool.false_eq_true, if_false]
  | mysql same =>
    cases hk : s.hasKey (.mysql same) key with
    | true =>
      have hk' : s.box.rows.any (same ·.ikey key) = true := hk
      refine .inl ⟨rfl, s.box.next + 1, Nat.le_succ _, ?_⟩
      simp only [enqueue, Backend.backupOutboxEnqueue, MysqlBackend.backupOutboxEnqueue, hk', if_true]
    | false =>
      have hk' : s.box.rows.any (same ·.ikey key) = false := hk
      refine .inr ⟨rfl, .new (s.box.next + 1) event inst node key payload now, rfl, rfl, rfl, rfl, rfl,
        ?_⟩
      simp only [enqueue, Backend.backupOutboxEnqueue, MysqlBackend.backupOutboxEnqueue, hk',
        Bool.false_eq_true, if_false]

theorem events_append {r : MemBOutbox Payload} {k : Nat} (hr : r.state = .pending) :
    events { s with box := { rows := s.box.rows ++ [r], next := k } } = s.events ++ [r.toPolledRow] := by
  simp [events, pending, List.filter_append, hr]

theorem Ok.append (hok : Ok s) {r : MemBOutbox Payload} (hid : r.id = s.box.next + 1)
    (hr : r.state = .pending) :
    Ok { s with box := { rows := s.box.rows ++ [r], next := s.box.next + 1 } } where
  ordered := hok.ordered.append hid
  named := hok.named
  given p hp := by
    rw [events_append hr] at hp
    rcases List.mem_append.1 hp with hp | hp
    · exact Nat.le_succ_of_le (hok.given p hp)
    · simp only [List.mem_singleton] at hp
      subst hp
      exact Nat.le_of_eq hid
  born name := Nat.le_succ_of_le (hok.born name)

theorem Ok.bump (hok : Ok s) {k : Nat} (hk : s.box.next ≤ k) :
    Ok { s with box := { s.box with next := k } } where
  ordered := ⟨hok.ordered.ascending, fun r hr =>
    ⟨(hok.ordered.bounded r hr).1, (hok.ordered.bounded r hr).2.trans hk⟩⟩
  named := hok.named
  given p hp := (hok.given p hp).trans hk
  born name := (hok.born name).trans hk

theorem Ok.enqueue (hok : Ok s) (event inst node key : String) (payload : Payload) (now : Nat) :
    Ok (s.enqueue b event inst node key payload now) := by
  rcases enqueue_cases (b := b) s event inst node key payload now with
    ⟨-, k, hk, heq⟩ | ⟨-, r, hid, -, -, -, hr, heq⟩
  · rw [heq]
    exact hok.bump hk
  · rw [heq]
    exact hok.append hid hr

@[simp] theorem enqueue_instances (s : Registration) (event inst node key : String)
    (payload : Payload) (now : Nat) :
    (s.enqueue b event inst node key payload now).instances = s.instances := rfl

@[simp] theorem enqueue_born (s : Registration) (event inst node key : String)
    (payload : Payload) (now : Nat) :
    (s.enqueue b event inst node key payload now).born = s.born := rfl

theorem lastOf_append (l : List (PolledRow Payload)) (r : PolledRow Payload) (name : String) :
    lastOf (l ++ [r]) name = if aboutInstance name r then some r else lastOf l name := by
  unfold lastOf
  rw [List.filter_append]
  split
  · next h => simp [h]
  · next h => simp [h]

/-- An event that goes in is the last one about its instance, and leaves the others as they are. -/
theorem lastOf_enqueue (s : Registration) (event inst node key : String) (payload : Payload)
    (now : Nat) :
    (s.hasKey b key = true ∧ (s.enqueue b event inst node key payload now).events = s.events) ∨
    (s.hasKey b key = false ∧ ∃ r : PolledRow Payload, s.box.next < r.id ∧ r.event = event ∧
      r.instance' = inst ∧ r.payload = payload ∧
      (s.enqueue b event inst node key payload now).events = s.events ++ [r]) := by
  rcases enqueue_cases (b := b) s event inst node key payload now with
    ⟨hk, k, -, heq⟩ | ⟨hk, r, hid, he, hi, hp, hr, heq⟩
  · exact .inl ⟨hk, by rw [heq]; rfl⟩
  · refine .inr ⟨hk, r.toPolledRow, by omega, he, hi, hp, ?_⟩
    rw [heq, events_append hr]

theorem lastOf_other {l : List (PolledRow Payload)} {r : PolledRow Payload} {name : String}
    (hr : r.instance' ≠ name) : lastOf (l ++ [r]) name = lastOf l name := by
  rw [lastOf_append, if_neg]
  simp [aboutInstance, hr]

/-- The kinds of events that tell of an instance as such. -/
def Tells (event : String) : Prop :=
  event = "register_instance" ∨ event = "heartbeat" ∨ event = "deregister_instance"

theorem lastOf_self {l : List (PolledRow Payload)} {r : PolledRow Payload} {name : String}
    (hr : r.instance' = name) (he : Tells r.event) : lastOf (l ++ [r]) name = some r := by
  rw [lastOf_append, if_pos]
  simpa [aboutInstance, hr, or_assoc, Tells] using he

/-- Where an event agrees with the record of its instance, the call that enqueues it leaves the
platform in agreement exactly when its key is new or the last event so far agrees as well. -/
theorem agrees_enqueue {name event node key : String} {payload : Payload} {now : Nat}
    (hothers : ∀ n, n ≠ name → AgreesOn s.instances[n]? (s.born n) (lastOf s.events n))
    (hevent : Tells event)
    (hnew : ∀ r : PolledRow Payload, s.box.next < r.id → r.event = event → r.payload = payload →
      AgreesOn s.instances[name]? (s.born name) (some r)) :
    Agrees (s.enqueue b event name node key payload now)
        (s.enqueue b event name node key payload now).events ↔
      s.hasKey b key = false ∨ AgreesOn s.instances[name]? (s.born name) (lastOf s.events name) := by
  simp only [Agrees, enqueue_instances, enqueue_born]
  rcases lastOf_enqueue (b := b) s event name node key payload now with
    ⟨hk, heq⟩ | ⟨hk, r, hid, he, hi, hp, heq⟩
  · rw [heq, hk]
    simp only [Bool.true_eq_false, false_or]
    refine ⟨fun h => h name, fun h n => ?_⟩
    by_cases hn : n = name
    · exact hn ▸ h
    · exact hothers n hn
  · rw [heq]
    refine ⟨fun _ => .inl hk, fun _ n => ?_⟩
    by_cases hn : n = name
    · subst hn
      rw [lastOf_self hi (he ▸ hevent)]
      exact hnew r hid he hp
    · rw [lastOf_other fun h => hn (h.symm.trans hi)]
      exact hothers n hn

theorem Agrees.other {name : String} {i : RdsInstance} {born : String → Nat}
    (h : Agrees s s.events) (hborn : ∀ n, n ≠ name → born n = s.born n) (n : String) (hn : n ≠ name) :
    AgreesOn (s.instances.insert name i)[n]? (born n) (lastOf s.events n) := by
  rw [Ha.BTreeMap.getElem?_insert_ite, if_neg hn.symm, hborn n hn]
  exact h n

/-! ### Steps that change a record -/

theorem onTaskSuccess_create {name : String} {i : RdsInstance} (h : s.instances[name]? = some i)
    (now : Nat) : s.onTaskSuccess b "create" name now =
      s.enqueue b "register_instance" name "master" (ikey "register_instance" name "master")
        (payloadRegister i) now := by
  simp [onTaskSuccess, h]

theorem onTaskSuccess_destroy {name : String} {i : RdsInstance} (h : s.instances[name]? = some i)
    (now : Nat) : s.onTaskSuccess b "destroy" name now =
      s.enqueue b "deregister_instance" name "master" (ikey "deregister_instance" name "master")
        (.deregisterInstance i.name) now := by
  simp [onTaskSuccess, h]

theorem agrees_create {name : String} {i : RdsInstance} {now : Nat} (hok : Ok s)
    (h : Agrees s s.events) (hs : s.step b (.create name i now) = some s') :
    Agrees s' s'.events ↔ Heard b s (.create name i now) := by
  simp only [step] at hs
  split at hs
  · next hc =>
    obtain ⟨-, -, hrun, hon⟩ := hc
    cases hs
    have hborn : ∀ n, n ≠ name → (if n = name then s.box.next else s.born n) = s.born n := fun n hn =>
      if_neg hn
    rw [onTaskSuccess_create Std.ExtTreeMap.getElem?_insert_self,
      agrees_enqueue (h.other hborn) (.inl rfl)]
    · refine or_iff_left fun hagree => ?_
      -- the last event was given its id before the instance was created
      simp only [Std.ExtTreeMap.getElem?_insert_self, if_true] at hagree
      generalize hl : lastOf _ name = last at hagree
      cases last with
      | none => exact hagree
      | some r =>
        simp only [AgreesOn, hrun, if_true] at hagree
        have hr : r ∈ s.events := List.mem_of_mem_filter (List.mem_of_getLast? hl)
        have := hok.given r hr
        omega
    · intro r hid he hp
      simp only [Std.ExtTreeMap.getElem?_insert_self, if_true, AgreesOn, hrun]
      exact ⟨.inl he, hid, by rw [hp]; rfl⟩
  · cases hs

theorem agrees_destroy {name : String} {now : Nat} (h : Agrees s s.events)
    (hs : s.step b (.destroy name now) = some s') :
    Agrees s' s'.events ↔ Heard b s (.destroy name now) := by
  simp only [step] at hs
  split at hs
  · next i hi =>
    split at hs
    · cases hs
      rw [onTaskSuccess_destroy Std.ExtTreeMap.getElem?_insert_self,
        agrees_enqueue (h.other fun _ _ => rfl) (.inr (.inr rfl))]
      · refine or_congr Iff.rfl ?_
        simp only [Std.ExtTreeMap.getElem?_insert_self]
        show AgreesOn _ _ (lastOf s.events name) ↔ _
        cases hl : lastOf s.events name <;> simp [AgreesOn]
      · intro r _ he _
        simp only [Std.ExtTreeMap.getElem?_insert_self, AgreesOn, he]
        simp
    · cases hs
  · cases hs

/-- A switch that changes nothing sends nothing. -/
theorem agrees_setEnabled {name : String} {enabled : Bool} {now : Nat} (hok : Ok s)
    (h : Agrees s s.events) (hs : s.step b (.setEnabled name enabled now) = some s') :
    Agrees s' s'.events ↔ Heard b s (.setEnabled name enabled now) := by
  simp only [step] at hs
  split at hs
  · next i hi =>
    split at hs
    · cases hs
    · next hlive =>
      split at hs
      · next heq =>
        cases hs
        refine iff_of_true h fun j hj hne => ?_
        rw [hi] at hj
        cases hj
        exact absurd heq hne
      · next hne =>
        cases hs
        have hrun : i.status = .running := (hok.named name i hi).2.resolve_right hlive
        have hget : (s.instances.insert name { i with enabled := enabled })[name]? =
            some { i with enabled := enabled } := Std.ExtTreeMap.getElem?_insert_self
        simp only [onInstanceEnabled, hget]
        rw [agrees_enqueue (h.other fun _ _ => rfl) (.inr (.inl rfl))]
        · simp only [hget]
          refine ⟨fun hor j hj _ => ?_, fun hall => hall i hi hne⟩
          rw [hi] at hj
          cases hj
          exact hor
        · intro r hid he hp
          have hb := hok.born name
          rw [hget]
          show if i.status = .running then _ else _
          rw [if_pos hrun]
          exact ⟨.inr he, Nat.lt_of_le_of_lt hb hid, by rw [hp]; rfl⟩
  · cases hs

/-! ### Steps that do not -/

/-- Agreement only looks at status and flag of a record. -/
theorem agreesOn_congr {i j : RdsInstance} {born : Nat} {last : Option (PolledRow Payload)}
    (hs : j.status = i.status) (he : j.enabled = i.enabled) :
    AgreesOn (some j) born last ↔ AgreesOn (some i) born last := by
  cases last with
  | none => exact Iff.rfl
  | some r => simp only [AgreesOn, hs, he]

/-- Events of nodes tell nothing about instances as such. -/
theorem agrees_enqueue_node {inst node key : String} {payload : Payload} {now : Nat}
    (h : Agrees s s.events) :
    Agrees (s.enqueue b "register_node" inst node key payload now)
      (s.enqueue b "register_node" inst node key payload now).events := by
  rcases lastOf_enqueue (b := b) s "register_node" inst node key payload now with
    ⟨-, heq⟩ | ⟨-, r, -, he, -, -, heq⟩
  · rw [heq]
    exact h
  · intro n
    rw [heq, lastOf_append, if_neg (by simp [aboutInstance, he])]
    exact h n

theorem agrees_scaleout {name : String} {nodes : List InstNode} {now : Nat} (hok : Ok s)
    (h : Agrees s s.events) (hs : s.step b (.scaleout name nodes now) = some s') :
    Ok s' ∧ Agrees s' s'.events := by
  simp only [step] at hs
  split at hs
  · next i hi =>
    split at hs
    · cases hs
      have hget : (s.instances.insert name { i with nodes := i.nodes ++ nodes })[name]? =
          some { i with nodes := i.nodes ++ nodes } := Std.ExtTreeMap.getElem?_insert_self
      simp only [onTaskSuccess, hget]
      refine List.foldlRecOn (motive := fun s => Ok s ∧ Agrees s s.events) _ _
        ⟨⟨hok.ordered, fun n j hj => ?_, hok.given, hok.born⟩, fun n => ?_⟩
        fun s' hs' n _ => ⟨hs'.1.enqueue .., agrees_enqueue_node hs'.2⟩
      · rw [Ha.BTreeMap.getElem?_insert_ite] at hj
        split at hj
        · next hn =>
          subst hn
          cases hj
          exact hok.named name i hi
        · exact hok.named n j hj
      · by_cases hn : n = name
        · subst hn
          have hn := h n
          rw [hi] at hn
          show AgreesOn (s.instances.insert n _)[n]? (s.born n) (lastOf s.events n)
          rw [hget]
          exact (agreesOn_congr (i := i) (j := { i with nodes := i.nodes ++ nodes }) rfl rfl).2 hn
        · exact h.other (fun _ _ => rfl) n hn
    · cases hs
  · cases hs

theorem agrees_delete {name : String} (hok : Ok s) (h : Agrees s s.events)
    (hs : s.step b (.delete name) = some s') : Ok s' ∧ Agrees s' s'.events := by
  simp only [step] at hs
  split at hs
  · next i hi =>
    split at hs
    · next hd =>
      cases hs
      refine ⟨⟨hok.ordered, fun n j hj => ?_, hok.given, hok.born⟩, fun n => ?_⟩
      · rw [Ha.BTreeMap.getElem?_erase_ite] at hj
        split at hj
        · cases hj
        · exact hok.named n j hj
      · rw [Ha.BTreeMap.getElem?_erase_ite]
        have hn := h n
        split
        · next heq =>
          subst heq
          rw [hi] at hn
          show AgreesOn none _ (lastOf s.events name)
          cases hl : lastOf s.events name with
          | none => trivial
          | some r => simpa [AgreesOn, hl, hd] using hn
        · exact hn
    · cases hs
  · cases hs

theorem pending_prune (s : Registration) (before : Nat) :
    pending { s with box := (b.backupOutboxPrune s.box before).1 } = s.pending := by
  simp only [pending, Backend.prune_both, List.filter_filter]
  refine congrArg _ (List.filter_congr fun r _ => ?_)
  cases hp : decide (r.state = .pending) with
  | false => rfl
  | true =>
    have hs : r.state = .pending := of_decide_eq_true hp
    simp [MemBOutbox.final, hs]

theorem agrees_prune (hok : Ok s) (h : Agrees s s.events) (before : Nat) :
    Ok { s with box := (b.backupOutboxPrune s.box before).1 } ∧
      Agrees { s with box := (b.backupOutboxPrune s.box before).1 }
        (events { s with box := (b.backupOutboxPrune s.box before).1 }) := by
  have hev : events { s with box := (b.backupOutboxPrune s.box before).1 } = s.events :=
    congrArg (s.delivered ++ ·) (pending_prune s before)
  have hnext : (b.backupOutboxPrune s.box before).1.next = s.box.next := by rw [Backend.prune_both]
  rw [hev]
  refine ⟨⟨?_, hok.named, fun r hr => ?_, fun n => ?_⟩, h⟩
  · show (b.backupOutboxPrune s.box before).1.Ordered
    rw [Backend.prune_both]
    exact hok.ordered.filter _
  · rw [hev] at hr
    exact hnext ▸ hok.given r hr
  · exact hnext ▸ hok.born n

/-- A delivery takes the first pending event over to the platform. -/
theorem deliver_spec {now : Nat} (hok : Ok s) (hs : s.step b (.deliver now) = some s') :
    Ok s' ∧ s'.instances = s.instances ∧ s'.born = s.born ∧ s'.events = s.events ∧
      s.pending.length = s'.pending.length + 1 := by
  simp only [step] at hs
  split at hs
  · next r hr =>
    cases hs
    obtain ⟨err, hboth⟩ := Backend.mark_both hok.ordered b r.id (outcome .ok (r.attempts + 1) now).1
      (r.attempts + 1) (outcome .ok (r.attempts + 1) now).2.1 (outcome .ok (r.attempts + 1) now).2.2 now
    rw [hboth]
    obtain ⟨hpend, as, bs, hrows, has⟩ := List.find?_eq_some_iff_append.1 hr
    have hids := hok.ordered.ascending
    rw [hrows, List.pairwise_append, List.pairwise_cons] at hids
    -- before the row nothing is pending, and no other row has its id
    have hbefore : as.filter (fun x : MemBOutbox Payload => x.state = .pending) = [] :=
      List.filter_eq_nil_iff.2 fun x hx => by simpa using has x hx
    have hmark : ∀ l : List (MemBOutbox Payload), (∀ x ∈ l, x.id ≠ r.id) →
        l.map (fun x => if x.id = r.id then x.mark (outcome .ok (r.attempts + 1) now).1
          (r.attempts + 1) (outcome .ok (r.attempts + 1) now).2.1 err now else x) = l := fun l hl =>
      (List.map_congr_left fun x hx => if_neg (hl x hx)).trans (List.map_id' _)
    have hpending : s.pending =
        r.toPolledRow :: (bs.filter (·.state = .pending)).map (·.toPolledRow) := by
      simp only [pending, hrows, List.filter_append, hbefore, List.nil_append, List.filter_cons, hpend,
        if_true, List.map_cons]
    have hafter : ((MysqlBackend.backupOutboxMark s.box r.id (outcome .ok (r.attempts + 1) now).1
        (r.attempts + 1) (outcome .ok (r.attempts + 1) now).2.1 err now).rows.filter
          (·.state = .pending)).map (·.toPolledRow) =
        (bs.filter (·.state = .pending)).map (·.toPolledRow) := by
      simp only [MysqlBackend.backupOutboxMark, hrows, List.map_append, List.map_cons, if_true]
      rw [hmark as fun x hx => Nat.ne_of_lt (hids.2.2 x hx r List.mem_cons_self),
        hmark bs fun x hx => (Nat.ne_of_lt (hids.2.1.1 x hx)).symm, List.filter_append, hbefore]
      simp [outcome]
    have hev : s.delivered ++ [r.toPolledRow] ++ (bs.filter (·.state = .pending)).map (·.toPolledRow) =
        s.events := by
      rw [events, hpending, List.append_assoc]
      rfl
    refine ⟨⟨hok.ordered.map fun x => ?_, hok.named, fun x hx => hok.given x ?_, hok.born⟩, rfl, rfl,
      ?_, ?_⟩
    · split <;> rfl
    · simp only [events, pending, hafter, hev] at hx
      exact hx
    · simp only [events, pending, hafter]
      exact hev
    · rw [hpending]
      simp only [pending, hafter, List.length_cons]
  · cases hs

theorem hasKey_congr {key : String} (h : s'.box.rows = s.box.rows) : s'.hasKey b key = s.hasKey b key :=
  congrArg (List.any · _) h

/-- The call that registers an instance anew. -/
theorem rows_register {i : RdsInstance} (hi : s.instances[i.name]? = some i) (now : Nat) :
    s.box.rows <+: (s.onTaskSuccess b "create" i.name now).box.rows ∧
      ((s.onTaskSuccess b "create" i.name now).box.rows = s.box.rows ↔
        s.hasKey b (ikey "register_instance" i.name "master") = true) := by
  rw [onTaskSuccess_create hi]
  rcases enqueue_cases (b := b) s "register_instance" i.name "master"
    (ikey "register_instance" i.name "master") (payloadRegister i) now with
    ⟨hk, k, -, heq⟩ | ⟨hk, r, -, -, -, -, -, heq⟩
  · rw [heq]
    exact ⟨List.prefix_refl _, iff_of_true rfl hk⟩
  · rw [heq, hk]
    exact ⟨List.prefix_append _ _, iff_of_false (by simp) (by simp)⟩

/-- The loop of `reconcile` leaves the outbox as it was when all the keys are there. -/
theorem rows_registerAll {l : List RdsInstance} (hl : ∀ i ∈ l, s.instances[i.name]? = some i)
    (now : Nat) :
    s.box.rows <+: (l.foldl (fun s i => s.onTaskSuccess b "create" i.name now) s).box.rows ∧
      ((l.foldl (fun s i => s.onTaskSuccess b "create" i.name now) s).box.rows = s.box.rows ↔
        ∀ i ∈ l, s.hasKey b (ikey "register_instance" i.name "master") = true) := by
  induction l generalizing s with
  | nil => simp
  | cons i l ih =>
    obtain ⟨hi, hrest⟩ := List.forall_mem_cons.1 hl
    obtain ⟨hpre, hiff⟩ := rows_register (b := b) hi now
    have hinst : (s.onTaskSuccess b "create" i.name now).instances = s.instances := by
      rw [onTaskSuccess_create hi]
      rfl
    obtain ⟨hpre', hiff'⟩ := ih (s := s.onTaskSuccess b "create" i.name now)
      fun j hj => hinst ▸ hrest j hj
    rw [List.foldl_cons, List.forall_mem_cons]
    refine ⟨hpre.trans hpre', fun heq => ?_, fun ⟨hk, hks⟩ => ?_⟩
    · have hsame : (s.onTaskSuccess b "create" i.name now).box.rows = s.box.rows :=
        (hpre.eq_of_length_le (by simpa [heq] using hpre'.length_le)).symm
      refine ⟨hiff.1 hsame, fun j hj => ?_⟩
      rw [← hasKey_congr hsame]
      exact hiff'.1 (heq.trans hsame.symm) j hj
    · have hsame := hiff.2 hk
      rw [hiff'.2 fun j hj => by rw [hasKey_congr hsame]; exact hks j hj, hsame]

/-- The instances that `reconcile` goes through. -/
theorem mem_scan (hok : Ok s) {i : RdsInstance} :
    i ∈ ((s.instances.toList.map (·.2)).filter (·.status = .running)).filter (s.needs b) ↔
      s.instances[i.name]? = some i ∧ i.status = .running ∧ s.needs b i := by
  simp only [List.mem_filter, List.mem_map, decide_eq_true_eq, and_assoc, Prod.exists]
  refine and_congr_left fun _ => ⟨?_, fun h => ⟨i.name, i, ?_, rfl⟩⟩
  · rintro ⟨name, j, hmem, rfl⟩
    have hget := Std.ExtTreeMap.mem_toList_iff_getElem?_eq_some.1 hmem
    rw [(hok.named name j hget).1]
    exact hget
  · exact Std.ExtTreeMap.mem_toList_iff_getElem?_eq_some.2 h

theorem agrees_reconcile (hok : Ok s) (h : Agrees s s.events) (now : Nat) :
    Ok (s.reconcile b now) ∧ Agrees (s.reconcile b now) (s.reconcile b now).events := by
  have hall := List.foldlRecOn
    (motive := fun t : Registration => (Ok t ∧ Agrees t t.events) ∧ t.instances = s.instances)
    (((s.instances.toList.map (·.2)).filter (·.status = .running)).filter (s.needs b))
    (fun s i => s.onTaskSuccess b "create" i.name now) ⟨⟨hok, h⟩, rfl⟩ fun t ht i hi => ?_
  · exact hall.1
  · obtain ⟨⟨hok', h'⟩, hinst⟩ := ht
    obtain ⟨hget, hrun, -⟩ := (mem_scan hok).1 hi
    rw [← hinst] at hget
    rw [onTaskSuccess_create hget]
    refine ⟨⟨hok'.enqueue .., ?_⟩, hinst⟩
    refine (agrees_enqueue (fun n _ => h' n) (.inl rfl) fun r hid he hp => ?_).2 (.inr (h' i.name))
    rw [hget]
    show if i.status = .running then _ else _
    rw [if_pos hrun]
    exact ⟨.inl he, Nat.lt_of_le_of_lt (hok'.born i.name) hid, by rw [hp]; rfl⟩

theorem still_iff (hok : Ok s) (now : Nat) :
    (s.reconcile b now).box.rows = s.box.rows ↔ ∀ name i, s.instances[name]? = some i →
      i.status = .running → s.needs b i → s.hasKey b (ikey "register_instance" name "master") = true := by
  unfold reconcile
  rw [(rows_registerAll (fun i hi => ((mem_scan hok).1 hi).1) now).2]
  refine ⟨fun hall name i hi hrun hneed => ?_, fun hall i hi => ?_⟩
  · have hname := (hok.named name i hi).1
    subst hname
    exact hall i ((mem_scan hok).2 ⟨hi, hrun, hneed⟩)
  · obtain ⟨hget, hrun, hneed⟩ := (mem_scan hok).1 hi
    exact hall i.name i hget hrun hneed

/-! ## Runs -/

theorem Ok.init : Ok init where
  ordered := ⟨.nil, fun _ hr => (nomatch hr)⟩
  named _ _ h := by simp [Registration.init] at h
  given _ hr := (nomatch hr)
  born _ := le_rfl

theorem agrees_init : Agrees init init.events := by
  intro name
  simp [Registration.init, AgreesOn, lastOf, events, pending]

theorem Ok.insert {name : String} {i : RdsInstance} {born : String → Nat} (hok : Ok s)
    (hname : i.name = name) (hst : i.status = .running ∨ i.status = .destroyed)
    (hborn : ∀ n, born n ≤ s.box.next) :
    Ok { s with instances := s.instances.insert name i, born := born } where
  ordered := hok.ordered
  named n j hj := by
    rw [Ha.BTreeMap.getElem?_insert_ite] at hj
    split at hj
    · next hn =>
      cases hj
      exact ⟨hname.trans hn, hst⟩
    · exact hok.named n j hj
  given := hok.given
  born := hborn

/-- A step that registers, deregisters or switches keeps the table in order. -/
theorem Ok.step_named {e : RegistrationEvent} (hok : Ok s) (hs : s.step b e = some s')
    (he : (∃ name i now, e = .create name i now) ∨ (∃ name now, e = .destroy name now) ∨
      ∃ name enabled now, e = .setEnabled name enabled now) : Ok s' := by
  rcases he with ⟨name, i, now, rfl⟩ | ⟨name, now, rfl⟩ | ⟨name, enabled, now, rfl⟩
  · simp only [Registration.step] at hs
    split at hs
    · next hc =>
      cases hs
      rw [onTaskSuccess_create Std.ExtTreeMap.getElem?_insert_self]
      refine (hok.insert hc.2.1 (.inl hc.2.2.1) fun n => ?_).enqueue ..
      split
      · exact le_rfl
      · exact hok.born n
    · cases hs
  · simp only [Registration.step] at hs
    split at hs
    · next i hi =>
      split at hs
      · cases hs
        rw [onTaskSuccess_destroy Std.ExtTreeMap.getElem?_insert_self]
        exact (hok.insert (i := { i with status := .destroyed }) (hok.named name i hi).1 (.inr rfl)
          hok.born).enqueue ..
      · cases hs
    · cases hs
  · simp only [Registration.step] at hs
    split at hs
    · next i hi =>
      split at hs
      · cases hs
      · split at hs
        · cases hs
          exact hok
        · cases hs
          have hget : (s.instances.insert name { i with enabled := enabled })[name]? =
              some { i with enabled := enabled } := Std.ExtTreeMap.getElem?_insert_self
          simp only [onInstanceEnabled, hget]
          exact (hok.insert (i := { i with enabled := enabled }) (hok.named name i hi).1
            (hok.named name i hi).2 hok.born).enqueue ..
    · cases hs

/-- A step keeps what the platform hears in agreement exactly when it meets the condition. -/
theorem step_spec {e : RegistrationEvent} (hok : Ok s) (h : Agrees s s.events)
    (hs : s.step b e = some s') :
    Ok s' ∧ ((Agrees s' s'.events ∧ ∀ now, e = .reconcile now → s.pending = [] →
      Agrees s s.delivered → s'.box.rows = s.box.rows) ↔ Heard b s e) := by
  cases e with
  | create name i now =>
    refine ⟨hok.step_named hs (.inl ⟨name, i, now, rfl⟩), ?_⟩
    rw [← agrees_create hok h hs]
    exact and_iff_left fun _ he => (nomatch he)
  | destroy name now =>
    refine ⟨hok.step_named hs (.inr (.inl ⟨name, now, rfl⟩)), ?_⟩
    rw [← agrees_destroy h hs]
    exact and_iff_left fun _ he => (nomatch he)
  | setEnabled name enabled now =>
    refine ⟨hok.step_named hs (.inr (.inr ⟨name, enabled, now, rfl⟩)), ?_⟩
    rw [← agrees_setEnabled hok h hs]
    exact and_iff_left fun _ he => (nomatch he)
  | scaleout name nodes now =>
    obtain ⟨hok', h'⟩ := agrees_scaleout hok h hs
    exact ⟨hok', iff_of_true ⟨h', fun _ he => (nomatch he)⟩ trivial⟩
  | delete name =>
    obtain ⟨hok', h'⟩ := agrees_delete hok h hs
    exact ⟨hok', iff_of_true ⟨h', fun _ he => (nomatch he)⟩ trivial⟩
  | reconcile now =>
    cases hs
    obtain ⟨hok', h'⟩ := agrees_reconcile (b := b) hok h now
    refine ⟨hok', fun ⟨_, hstill⟩ hp ha => (still_iff hok now).1 (hstill now rfl hp ha), fun hheard =>
      ⟨h', fun now' he hp ha => ?_⟩⟩
    exact (still_iff hok now).2 (hheard hp ha)
  | deliver now =>
    obtain ⟨hok', hinst, hborn, hev, -⟩ := deliver_spec hok hs
    refine ⟨hok', iff_of_true ⟨fun n => ?_, fun _ he => (nomatch he)⟩ trivial⟩
    rw [hinst, hborn, hev]
    exact h n
  | prune before =>
    cases hs
    obtain ⟨hok', h'⟩ := agrees_prune (b := b) hok h before
    exact ⟨hok', iff_of_true ⟨h', fun _ he => (nomatch he)⟩ trivial⟩

theorem Agrees.congr {l : List (PolledRow Payload)} (hinst : s'.instances = s.instances)
    (hborn : s'.born = s.born) : Agrees s' l ↔ Agrees s l := by
  simp only [Agrees, hinst, hborn]

theorem events_of_settled (h : s.pending = []) : s.events = s.delivered := by
  rw [events, h, List.append_nil]

/-- The pending events can all be delivered. -/
theorem exists_settled (h : History Registration RegistrationEvent) (s₁ : Registration)
    (hok : Ok s₁) (hr : Run (step b) (fun _ _ e => ∃ now, e = .deliver now) (· = s) h s₁) :
    ∃ h' s₂, Run (step b) (fun _ _ e => ∃ now, e = .deliver now) (· = s) h' s₂ ∧ s₂.pending = [] := by
  induction hn : s₁.pending.length generalizing h s₁ with
  | zero => exact ⟨h, s₁, hr, List.length_eq_zero_iff.1 hn⟩
  | succ k ih =>
    cases hf : s₁.box.rows.find? (·.state = .pending) with
    | none =>
      have hnone : s₁.box.rows.filter (fun r : MemBOutbox Payload => r.state = .pending) = [] :=
        List.filter_eq_nil_iff.2 fun r hr => List.find?_eq_none.1 hf r hr
      simp [pending, hnone] at hn
    | some r =>
      have hs : ∃ s₂, s₁.step b (.deliver 0) = some s₂ := by simp [step, hf]
      obtain ⟨s₂, hs⟩ := hs
      obtain ⟨hok₂, -, -, -, hlen⟩ := deliver_spec hok hs
      exact ih _ s₂ hok₂ (hr.step ⟨0, rfl⟩ hs) (by omega)

/-- Agreement once all is delivered is agreement of what is under way. -/
theorem settles_iff (hok : Ok s) :
    (∀ h' s', Run (step b) (fun _ _ e => ∃ now, e = .deliver now) (· = s) h' s' →
      s'.pending = [] → Agrees s' s'.delivered) ↔ Agrees s s.events := by
  have hinv : ∀ h' s', Run (step b) (fun _ _ e => ∃ now, e = .deliver now) (· = s) h' s' →
      Ok s' ∧ s'.instances = s.instances ∧ s'.born = s.born ∧ s'.events = s.events := fun h' s' hr =>
    hr.invariant (I := fun _ t => Ok t ∧ t.instances = s.instances ∧ t.born = s.born ∧
      t.events = s.events) (fun t ht => by subst ht; exact ⟨hok, rfl, rfl, rfl⟩)
      fun h t e t' _ ⟨hok', hinst, hborn, hev⟩ ⟨now, he⟩ hs => by
        subst he
        obtain ⟨hok₂, hinst₂, hborn₂, hev₂, -⟩ := deliver_spec hok' hs
        exact ⟨hok₂, hinst₂.trans hinst, hborn₂.trans hborn, hev₂.trans hev⟩
  refine ⟨fun hall => ?_, fun h h' s' hr hp => ?_⟩
  · obtain ⟨h', s', hr, hp⟩ := exists_settled [] s hok (.start rfl)
    obtain ⟨-, hinst, hborn, hev⟩ := hinv h' s' hr
    rw [← hev, events_of_settled hp]
    exact (Agrees.congr hinst hborn).1 (hall h' s' hr hp)
  · obtain ⟨-, hinst, hborn, hev⟩ := hinv h' s' hr
    rw [Agrees.congr hinst hborn, ← events_of_settled hp, hev]
    exact h

theorem agrees_of_run {h : History Registration RegistrationEvent}
    (hr : Run (step b) (fun _ => Heard b) (· = init) h s) : Ok s ∧ Agrees s s.events :=
  hr.invariant (I := fun _ s => Ok s ∧ Agrees s s.events)
    (fun _ h0 => by subst h0; exact ⟨Ok.init, agrees_init⟩)
    fun _ _ _ _ _ ⟨hok, h⟩ hg hs => ⟨(step_spec hok h hs).1, ((step_spec hok h hs).2.2 hg).1⟩

theorem converges_of_run {h : History Registration RegistrationEvent}
    (hr : Run (step b) (fun _ => Heard b) (· = init) h s) : Converges b h s := by
  obtain ⟨hok, h'⟩ := agrees_of_run hr
  refine ⟨(settles_iff hok).2 h', ?_⟩
  rintro t now h₁ rfl hp ha
  cases hr with
  | step hr hg hs =>
    obtain ⟨hok₁, h₁⟩ := agrees_of_run hr
    exact ((step_spec hok₁ h₁ hs).2.2 hg).2 now rfl hp ha

/-- In a run from an empty registry the platform agrees with the registry whenever nothing is pending,
and reconciling enqueues nothing where they agree, exactly when every event of a task or a switch goes
in under a new key, or says what the platform has heard, and `reconcile` finds its keys unpruned. -/
theorem converges_iff (b : Backend) {h : History Registration RegistrationEvent} {s : Registration}
    (hr : Run (step b) (fun _ _ _ => True) (· = init) h s) :
    (Converges b h s ∧ ∀ t e h', (t, e) :: h' <:+ h → Converges b h' t) ↔
      ∀ t e h', (t, e) :: h' <:+ h → Heard b t e := by
  constructor
  · rintro ⟨hlast, hall⟩
    induction hr with
    | start => exact fun t e h' hs => (nomatch List.suffix_nil.1 hs)
    | @step h s s' e hr _ hs ih =>
      have hprev : ∀ t e h', (t, e) :: h' <:+ h → Heard b t e :=
        ih (hall s e h (List.suffix_refl _)) fun t e h' hs => hall t e h' (hs.trans (List.suffix_cons _ _))
      intro t e' h' hsuf
      rcases List.suffix_cons_iff.1 hsuf with heq | hsuf
      · cases heq
        obtain ⟨hok, h⟩ := agrees_of_run (hr.restrict hprev)
        obtain ⟨hok', hiff⟩ := step_spec hok h hs
        exact hiff.1 ⟨(settles_iff hok').1 hlast.settles, fun now he hp ha =>
          hlast.still s now _ (by rw [he]) hp ha⟩
      · exact hprev t e' h' hsuf
  · intro hall
    have hr : Run (step b) (fun _ => Heard b) _ h s := hr.restrict hall
    exact ⟨converges_of_run hr, fun t e h' hs => converges_of_run (hr.of_suffix hs).1⟩

/-- An instance with a master. -/
def demo : RdsInstance where
  name := "demo"
  status := .running
  region := "cn-bj"
  az := "a"
  shard := ""
  enabled := true
  lvsContainer := ""
  lvsMysqlPort := 0
  nodeHosts := ∅
  proxies := []
  shards := []
  itype := "single"
  shardNum := 1
  network := "rds-demo"
  nodes := [⟨"rds-demo-master", .master, "rds-demo-master", 3306, 35001, 1, "", "", "", "", 0⟩]
  proxyContainer := ""
  proxyMysqlPort := 0
  proxyMngPort := 0
  lastError := ""

theorem converges_iff_created :
    ∃ (h : History Registration RegistrationEvent) (s : Registration),
      Run (step .memory) (fun _ _ _ => True) (· = init) h s ∧
        ((Converges .memory h s ∧ ∀ t e h', (t, e) :: h' <:+ h → Converges .memory h' t) ↔
          ∀ t e h', (t, e) :: h' <:+ h → Heard .memory t e) := by
  have hf : (follow (step .memory) (fun _ _ _ => True) [.create "demo" demo 0, .deliver 60] []
      init).isSome := by decide +kernel
  obtain ⟨⟨h, s⟩, hs⟩ := Option.isSome_iff_exists.1 hf
  have hr : Run (step .memory) (fun _ _ _ => True) (· = init) h s := Run.follow (.start rfl) hs
  exact ⟨h, s, hr, converges_iff .memory hr⟩

/-- The instance is created again under its name: its registration has the old key. -/
theorem recreated_unregistered : ¬∀ b h s, Run (step b) (fun _ _ _ => True) (· = init) h s →
    Converges b h s := by
  intro hall
  have hf : (follow (step .memory) (fun _ _ _ => True)
      [.create "demo" demo 0, .deliver 60, .destroy "demo" 120, .deliver 180, .delete "demo",
        .create "demo" demo 240] [] init).map (fun p =>
          (p.2.pending.length, (p.2.instances["demo"]?).map (·.status),
            (lastOf p.2.delivered "demo").map (·.event))) =
      some (0, some .running, some "deregister_instance") := by decide +kernel
  obtain ⟨⟨h, s⟩, hs, hsum⟩ := Option.map_eq_some_iff.1 hf
  simp only [Prod.mk.injEq] at hsum
  obtain ⟨hpend, hinst, hlast⟩ := hsum
  obtain ⟨i, hi, hrun⟩ := Option.map_eq_some_iff.1 hinst
  obtain ⟨r, hr, he⟩ := Option.map_eq_some_iff.1 hlast
  have hc := hall .memory h s (Run.follow (.start rfl) hs)
  have ha := hc.settles [] s (.start rfl) (List.length_eq_zero_iff.1 hpend) "demo"
  simp [AgreesOn, hi, hr, hrun, he] at ha

end Registration

end Rdsctl.Store
