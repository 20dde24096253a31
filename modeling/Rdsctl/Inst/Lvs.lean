import Rdsctl.Lib.Run
import Rdsctl.Inst.Basic

/-!
# Access points on one host

`src/lvs.rs`: `ensure` and `stop`. Every process has a map of the forwarders that it started, and all
processes of a host share the ports and the files `<port>.owner`. `Host.Ok` ties the maps to the
listeners. `ensure` returns `Ok` on four grounds, of which only a port of its own tells where the
forwarder leads; `ensure_forwards_iff` says for which runs the other three are right.
-/

namespace Rdsctl.Inst

open Ha

/-- Who listens on a port of the loopback interface. -/
inductive Listener where
  | forwarder (p : Nat) (name : String) (backends : List Nat)
  /-- Something else, which never speaks first. -/
  | foreign
  deriving DecidableEq

/-- A forwarder in the map of a process, with what its task forwards to. -/
structure Gate where
  port : Nat
  backends : List Nat
  deriving DecidableEq

structure Host where
  listeners : Nat → Option Listener
  /-- The maps `GATES` of the processes. -/
  gates : Nat → BTreeMap String Gate
  /-- The contents of the files `<port>.owner`. -/
  owners : Nat → Option String

/-- What `ensure` meets with besides. -/
structure Surface where
  /-- There is a tokio runtime. -/
  runtime : Bool
  /-- `bind` fails for another reason than that the port is taken. -/
  bindError : Option String
  /-- The text of the error when the port is taken. -/
  inUse : String
  /-- The owner file can be written. -/
  written : Bool
  nonblockingError : Option String
  adoptError : Option String
  /-- A proxy behind the forwarder on the port speaks. -/
  answers : Bool

inductive LvsEvent where
  | ensure (p : Nat) (inst : RdsInstance) (c : Surface)
  | stop (p : Nat) (name : String)
  /-- A process ends and starts again. -/
  | crash (p : Nat)
  | occupy (port : Nat)
  | vacate (port : Nat)

def backendsOf (inst : RdsInstance) : List Nat :=
  if inst.proxies.isEmpty then
    if 0 < inst.proxyMysqlPort then [inst.proxyMysqlPort] else []
  else (inst.proxies.map (·.mysqlPort)).filter (0 < ·)

namespace Host

def init : Host := ⟨fun _ => none, fun _ => ∅, fun _ => none⟩

def setListener (s : Host) (port : Nat) (l : Option Listener) : Host :=
  { s with listeners := fun q => if q = port then l else s.listeners q }

def setGates (s : Host) (p : Nat) (m : BTreeMap String Gate) : Host :=
  { s with gates := fun q => if q = p then m else s.gates q }

def setOwner (s : Host) (port : Nat) (o : Option String) : Host :=
  { s with owners := fun q => if q = port then o else s.owners q }

def ownerRead (s : Host) (port : Nat) : Option String :=
  ((s.owners port).map trimmed).filter (· ≠ "")

def ownerWrite (s : Host) (port : Nat) (name : String) (written : Bool) : Host :=
  if written then s.setOwner port (some name) else s

def ownerClear (s : Host) (port : Nat) (name : String) : Host :=
  if s.ownerRead port = some name then s.setOwner port none else s

def vipServing (s : Host) (port : Nat) (answers : Bool) : Bool :=
  match s.listeners port with
  | some (.forwarder ..) => answers
  | some .foreign | none => false

def ensure (s : Host) (p : Nat) (inst : RdsInstance) (c : Surface) : Host × Except String Unit :=
  if (s.gates p).contains inst.name then (s, .ok ())
  else
    let port := inst.lvsMysqlPort
    let backends := backendsOf inst
    let addr := "127.0.0.1:" ++ toString port
    if port = 0 then (s, .error ("实例 " ++ inst.name ++ " 未分配 LVS 接入端口"))
    else if backends = [] then
      (s, .error ("实例 " ++ inst.name ++ " 无可用 Proxy 后端(请检查代理集群是否就绪)"))
    else if c.runtime = false then (s, .error "无 tokio 运行时,无法启动接入转发器")
    else
      match c.bindError, s.listeners port with
      | some e, _ => (s, .error ("接入层绑定 " ++ addr ++ " 失败: " ++ e))
      | none, some _ =>
        match s.ownerRead port with
        | some n =>
          if n = inst.name then (s, .ok ())
          else
            (s, .error ("接入层绑定 " ++ addr ++ " 失败: " ++ c.inUse ++ "(该端口由接入层实例 " ++ n ++
              " 占用;若 " ++ n ++ " 已销毁,请重启持有它的那个副本以释放)"))
        | none =>
          if s.vipServing port c.answers then (s, .ok ())
          else
            (s, .error ("接入层绑定 " ++ addr ++ " 失败: " ++ c.inUse ++
              "(端口被占用但不可服务,疑似端口冲突或残留转发器)"))
      | none, none =>
        let s := s.ownerWrite port inst.name c.written
        match c.nonblockingError, c.adoptError with
        | some e, _ => (s.ownerClear port inst.name, .error ("接入层设置非阻塞失败: " ++ e))
        | none, some e => (s.ownerClear port inst.name, .error ("接入层接入运行时失败: " ++ e))
        | none, none =>
          ((s.setListener port (some (.forwarder p inst.name backends))).setGates p
            ((s.gates p).insert inst.name ⟨port, backends⟩), .ok ())

def stop (s : Host) (p : Nat) (name : String) : Host :=
  match (s.gates p)[name]? with
  | some g => ((s.ownerClear g.port name).setGates p ((s.gates p).erase name)).setListener g.port none
  | none => s

/-- The forwarders of a process go with it; the owner files stay. -/
def crash (s : Host) (p : Nat) : Host :=
  { s.setGates p ∅ with
    listeners := fun port =>
      match s.listeners port with
      | some (.forwarder q name backends) =>
        if q = p then none else some (.forwarder q name backends)
      | l => l }

def step (s : Host) : LvsEvent → Option Host
  | .ensure p inst c => some (s.ensure p inst c).1
  | .stop p name => some (s.stop p name)
  | .crash p => some (s.crash p)
  | .occupy port => if s.listeners port = none then some (s.setListener port (some .foreign)) else none
  | .vacate port => if s.listeners port = some .foreign then some (s.setListener port none) else none

/-! ## What is promised, and when -/

/-- A live forwarder on the VIP port of the instance leads to its proxies. -/
def Forwards (s : Host) (inst : RdsInstance) : Prop :=
  ∃ p name, s.listeners inst.lvsMysqlPort = some (.forwarder p name (backendsOf inst))

/-- `ensure` returns `Ok` without binding: the process has a forwarder under the name, or the port is
taken and its owner file names the instance, or there is none and the port answers. -/
def Spared (s : Host) (p : Nat) (inst : RdsInstance) (c : Surface) : Prop :=
  (s.gates p).contains inst.name ∨
    inst.lvsMysqlPort ≠ 0 ∧ backendsOf inst ≠ [] ∧ c.runtime ∧ c.bindError = none ∧
      s.listeners inst.lvsMysqlPort ≠ none ∧
      (s.ownerRead inst.lvsMysqlPort = some inst.name ∨
        s.ownerRead inst.lvsMysqlPort = none ∧ s.vipServing inst.lvsMysqlPort c.answers)

/-- Where `ensure` does not bind, some process started a forwarder for this very VIP port and these
proxies and still has it. -/
def Current (s : Host) : LvsEvent → Prop
  | .ensure p inst c => s.Spared p inst c →
    ∃ (q : Nat) (name : String),
      (s.gates q)[name]? = some (Gate.mk inst.lvsMysqlPort (backendsOf inst))
  | _ => True

/-- The maps of the processes and the listeners tell the same. -/
structure Ok (s : Host) : Prop where
  listens : ∀ (p : Nat) (name : String) (g : Gate), (s.gates p)[name]? = some g →
    s.listeners g.port = some (.forwarder p name g.backends)
  mapped : ∀ (port p : Nat) (name : String) (backends : List Nat),
    s.listeners port = some (.forwarder p name backends) → (s.gates p)[name]? = some ⟨port, backends⟩

variable {s s' : Host}

theorem Ok.init : Ok init := ⟨fun _ _ _ h => by simp [Host.init] at h, fun _ _ _ _ h => nomatch h⟩

theorem Ok.forwards_iff (hok : Ok s) {inst : RdsInstance} :
    s.Forwards inst ↔ ∃ (q : Nat) (name : String),
      (s.gates q)[name]? = some (Gate.mk inst.lvsMysqlPort (backendsOf inst)) :=
  ⟨fun ⟨p, name, h⟩ => ⟨p, name, hok.mapped _ _ _ _ h⟩,
    fun ⟨q, name, h⟩ => ⟨q, name, hok.listens _ _ _ h⟩⟩

/-! ## Steps -/

@[simp] theorem ownerWrite_listeners (s : Host) (port : Nat) (name : String) (written : Bool) :
    (s.ownerWrite port name written).listeners = s.listeners := by
  unfold ownerWrite
  split <;> rfl

@[simp] theorem ownerWrite_gates (s : Host) (port : Nat) (name : String) (written : Bool) :
    (s.ownerWrite port name written).gates = s.gates := by
  unfold ownerWrite
  split <;> rfl

@[simp] theorem ownerClear_listeners (s : Host) (port : Nat) (name : String) :
    (s.ownerClear port name).listeners = s.listeners := by
  unfold ownerClear
  split <;> rfl

@[simp] theorem ownerClear_gates (s : Host) (port : Nat) (name : String) :
    (s.ownerClear port name).gates = s.gates := by
  unfold ownerClear
  split <;> rfl

/-- The owner files do not matter to it. -/
theorem Ok.congr (hok : Ok s) (hl : s'.listeners = s.listeners) (hg : s'.gates = s.gates) : Ok s' :=
  ⟨by rw [hl, hg]; exact hok.listens, by rw [hl, hg]; exact hok.mapped⟩

/-- `ensure` leaves everything as it is and returns `Ok`, fails without a trace but in the owner file, or
binds a free port. -/
theorem ensure_cases (s : Host) (p : Nat) (inst : RdsInstance) (c : Surface) :
    (s.Spared p inst c ∧ s.ensure p inst c = (s, .ok ())) ∨
    (¬s.Spared p inst c ∧ ∃ e, (s.ensure p inst c).2 = .error e ∧
      (s.ensure p inst c).1.listeners = s.listeners ∧ (s.ensure p inst c).1.gates = s.gates) ∨
    (¬s.Spared p inst c ∧ (s.gates p)[inst.name]? = none ∧ s.listeners inst.lvsMysqlPort = none ∧
      s.ensure p inst c =
        ((((s.ownerWrite inst.lvsMysqlPort inst.name c.written).setListener inst.lvsMysqlPort
          (some (.forwarder p inst.name (backendsOf inst)))).setGates p
            ((s.gates p).insert inst.name ⟨inst.lvsMysqlPort, backendsOf inst⟩)), .ok ())) := by
  by_cases hg : (s.gates p).contains inst.name
  · exact .inl ⟨.inl hg, if_pos hg⟩
  -- without a forwarder of its own it goes by the port
  have hspared : s.Spared p inst c ↔ inst.lvsMysqlPort ≠ 0 ∧ backendsOf inst ≠ [] ∧ c.runtime ∧
      c.bindError = none ∧ s.listeners inst.lvsMysqlPort ≠ none ∧
      (s.ownerRead inst.lvsMysqlPort = some inst.name ∨
        s.ownerRead inst.lvsMysqlPort = none ∧ s.vipServing inst.lvsMysqlPort c.answers) :=
    or_iff_right hg
  rw [hspared]
  unfold ensure
  rw [if_neg hg]
  dsimp only
  split
  · next h0 => exact .inr (.inl ⟨fun h => h.1 h0, _, rfl, rfl, rfl⟩)
  next h0 =>
  split
  · next hb => exact .inr (.inl ⟨fun h => h.2.1 hb, _, rfl, rfl, rfl⟩)
  next hb =>
  split
  · next hr => exact .inr (.inl ⟨fun h => by simp [hr] at h, _, rfl, rfl, rfl⟩)
  next hr =>
  split
  · next he => exact .inr (.inl ⟨fun h => by simp [he] at h, _, rfl, rfl, rfl⟩)
  · next l he hl =>
    have htaken : s.listeners inst.lvsMysqlPort ≠ none := by simp [hl]
    split
    · next n ho =>
      split
      · next hn => exact .inl ⟨⟨h0, hb, by simpa using hr, he, htaken, .inl (hn ▸ ho)⟩, rfl⟩
      · next hn => exact .inr (.inl ⟨fun h => by simp [ho, hn] at h, _, rfl, rfl, rfl⟩)
    · next ho =>
      split
      · next hv => exact .inl ⟨⟨h0, hb, by simpa using hr, he, htaken, .inr ⟨ho, hv⟩⟩, rfl⟩
      · next hv => exact .inr (.inl ⟨fun h => by simp [ho, hv] at h, _, rfl, rfl, rfl⟩)
  · next he hl =>
    have hnot : ¬(inst.lvsMysqlPort ≠ 0 ∧ backendsOf inst ≠ [] ∧ c.runtime ∧ c.bindError = none ∧
        s.listeners inst.lvsMysqlPort ≠ none ∧
        (s.ownerRead inst.lvsMysqlPort = some inst.name ∨
          s.ownerRead inst.lvsMysqlPort = none ∧ s.vipServing inst.lvsMysqlPort c.answers)) :=
      fun h => h.2.2.2.2.1 hl
    split
    · exact .inr (.inl ⟨hnot, _, rfl, by simp, by simp⟩)
    · exact .inr (.inl ⟨hnot, _, rfl, by simp, by simp⟩)
    · refine .inr (.inr ⟨hnot, ?_, hl, ?_⟩)
      · cases hget : (s.gates p)[inst.name]? with
        | none => rfl
        | some g =>
          rw [Std.ExtTreeMap.contains_eq_isSome_getElem?, hget] at hg
          exact absurd rfl hg
      · rw [ownerWrite_gates]

/-- A forwarder on a free port, under a name that its process has none under. -/
theorem Ok.bind (hok : Ok s) {p port : Nat} {name : String} {l : List Nat}
    (hname : (s.gates p)[name]? = none) (hfree : s.listeners port = none)
    (hl : s'.listeners = fun q => if q = port then some (.forwarder p name l) else s.listeners q)
    (hg : s'.gates = fun q => if q = p then (s.gates p).insert name ⟨port, l⟩ else s.gates q) :
    Ok s' := by
  have hne : ∀ {q : Nat} {n : String} {g : Gate}, (s.gates q)[n]? = some g → g.port ≠ port := by
    intro q n g h hp
    rw [← hp, hok.listens q n g h] at hfree
    cases hfree
  constructor
  · intro q n g h
    simp only [hg] at h
    simp only [hl]
    split at h
    · next hq =>
      subst hq
      rw [BTreeMap.getElem?_insert_ite] at h
      split at h
      · next hn =>
        subst hn
        cases h
        exact if_pos rfl
      · rw [if_neg (hne h)]
        exact hok.listens q n g h
    · rw [if_neg (hne h)]
      exact hok.listens q n g h
  · intro port' q n bs h
    simp only [hl] at h
    simp only [hg]
    split at h
    · next hp =>
      subst hp
      cases h
      rw [if_pos rfl, BTreeMap.getElem?_insert_ite, if_pos rfl]
    · have hold := hok.mapped port' q n bs h
      split
      · next hq =>
        subst hq
        have hn : name ≠ n := by
          rintro rfl
          rw [hname] at hold
          cases hold
        rw [BTreeMap.getElem?_insert_ite, if_neg hn]
        exact hold
      · exact hold

theorem Ok.stop (hok : Ok s) (p : Nat) (name : String) : Ok (s.stop p name) := by
  unfold Host.stop
  split
  · next g hg =>
    have hl := hok.listens p name g hg
    constructor
    · intro q n g' h
      simp only [setListener, setGates, ownerClear_gates, ownerClear_listeners] at h ⊢
      -- another forwarder has another port
      have hother : (s.gates q)[n]? = some g' → ¬(q = p ∧ n = name) → g'.port ≠ g.port := by
        intro h' hne hp
        have hl' := hok.listens q n g' h'
        rw [hp, hl] at hl'
        simp only [Option.some.injEq, Listener.forwarder.injEq] at hl'
        exact hne ⟨hl'.1.symm, hl'.2.1.symm⟩
      split at h
      · next hq =>
        subst hq
        rw [BTreeMap.getElem?_erase_ite] at h
        split at h
        · cases h
        · next hn =>
          rw [if_neg (hother h fun h => hn h.2.symm)]
          exact hok.listens q n g' h
      · next hq =>
        rw [if_neg (hother h fun h => hq h.1)]
        exact hok.listens q n g' h
    · intro port q n bs h
      simp only [setListener, setGates, ownerClear_gates, ownerClear_listeners] at h ⊢
      split at h
      · cases h
      · next hport =>
        have hold := hok.mapped port q n bs h
        split
        · next hq =>
          subst hq
          rw [BTreeMap.getElem?_erase_ite, if_neg]
          · exact hold
          · rintro rfl
            rw [hg] at hold
            cases hold
            exact hport rfl
        · exact hold
  · exact hok

theorem Ok.crash (hok : Ok s) (p : Nat) : Ok (s.crash p) := by
  constructor
  · intro q n g h
    simp only [Host.crash, setGates] at h ⊢
    split at h
    · simp at h
    · next hq =>
      rw [hok.listens q n g h]
      exact if_neg hq
  · intro port q n bs h
    simp only [Host.crash, setGates] at h ⊢
    split at h
    · next q' n' bs' hl =>
      split at h
      · cases h
      · next hq =>
        cases h
        rw [if_neg hq]
        exact hok.mapped port q n bs hl
    · next l hnot => exact absurd h (hnot q n bs)

/-- What is no forwarder comes to a port, or leaves it. -/
theorem Ok.setListener (hok : Ok s) {port : Nat} {l : Option Listener}
    (hold : ∀ p name bs, s.listeners port ≠ some (.forwarder p name bs))
    (hnew : ∀ p name bs, l ≠ some (.forwarder p name bs)) : Ok (s.setListener port l) := by
  constructor
  · intro q n g h
    have hl := hok.listens q n g h
    have hne : g.port ≠ port := fun hp => hold _ _ _ (hp ▸ hl)
    exact (if_neg hne).trans hl
  · intro port' q n bs h
    simp only [Host.setListener] at h
    split at h
    · exact absurd h (hnew q n bs)
    · exact hok.mapped port' q n bs h

theorem Ok.ensure (hok : Ok s) (p : Nat) (inst : RdsInstance) (c : Surface) :
    Ok (s.ensure p inst c).1 := by
  rcases ensure_cases s p inst c with ⟨-, heq⟩ | ⟨-, e, -, hl, hg⟩ | ⟨-, hname, hfree, heq⟩
  · rw [heq]
    exact hok
  · exact hok.congr hl hg
  · rw [heq]
    refine hok.bind (l := backendsOf inst) hname hfree ?_ ?_
    · simp only [setGates, Host.setListener, ownerWrite_listeners]
    · simp only [setGates, Host.setListener, ownerWrite_gates]

theorem Ok.step {e : LvsEvent} (hok : Ok s) (hs : s.step e = some s') : Ok s' := by
  cases e with
  | ensure p inst c =>
    cases hs
    exact hok.ensure p inst c
  | stop p name =>
    cases hs
    exact hok.stop p name
  | crash p =>
    cases hs
    exact hok.crash p
  | occupy port =>
    simp only [Host.step] at hs
    split at hs
    · next hl =>
      cases hs
      exact hok.setListener (fun _ _ _ h => by simp [hl] at h) fun _ _ _ h => by cases h
    · cases hs
  | vacate port =>
    simp only [Host.step] at hs
    split at hs
    · next hl =>
      cases hs
      exact hok.setListener (fun _ _ _ h => by simp [hl] at h) fun _ _ _ h => by cases h
    · cases hs

/-- A call of `ensure` that returns `Ok` leaves the VIP with its own proxies exactly when it binds, or
finds a forwarder that was started for these. -/
theorem ensure_forwards (hok : Ok s) (p : Nat) (inst : RdsInstance) (c : Surface) :
    ((s.ensure p inst c).2 = .ok () → (s.ensure p inst c).1.Forwards inst) ↔
      s.Current (.ensure p inst c) := by
  rcases ensure_cases s p inst c with ⟨hsp, heq⟩ | ⟨hsp, e, he, -⟩ | ⟨hsp, -, -, heq⟩
  · rw [heq]
    simp only [Current, hsp, forall_const]
    exact hok.forwards_iff
  · exact iff_of_true (fun h => by rw [he] at h; cases h) fun h => absurd h hsp
  · rw [heq]
    refine iff_of_true (fun _ => ⟨p, inst.name, ?_⟩) fun h => absurd h hsp
    exact if_pos rfl

/-! ## Runs -/

/-- In a run of any number of processes every `Ok` of `ensure` is backed by a live forwarder from the
VIP port to the proxies of the instance, exactly when every call that does not bind meets the
condition. -/
theorem ensure_forwards_iff {h : History Host LvsEvent}
    (hr : Run step (fun _ _ _ => True) (· = init) h s) :
    (∀ t p inst c h', (t, .ensure p inst c) :: h' <:+ h → (t.ensure p inst c).2 = .ok () →
      (t.ensure p inst c).1.Forwards inst) ↔
    ∀ t e h', (t, e) :: h' <:+ h → Current t e := by
  have hinv : ∀ t e h', (t, e) :: h' <:+ h → Ok t := fun t e h' hs =>
    (hr.of_suffix hs).1.invariant (I := fun _ s => Ok s) (fun _ h0 => by subst h0; exact Ok.init)
      fun _ _ _ _ _ hok _ hs => hok.step hs
  refine ⟨fun hall t e h' hs => ?_, fun hall t p inst c h' hs => ?_⟩
  · cases e with
    | ensure p inst c => exact (ensure_forwards (hinv _ _ _ hs) p inst c).1 (hall t p inst c h' hs)
    | stop | crash | occupy | vacate => trivial
  · exact (ensure_forwards (hinv _ _ _ hs) p inst c).2 (hall t _ h' hs)

/-- An instance with this VIP port and one proxy. -/
def behindVip (vip proxy : Nat) : RdsInstance where
  name := "demo"
  status := .running
  region := "cn-bj"
  az := "a"
  shard := ""
  enabled := true
  lvsContainer := "rds-demo-lvs"
  lvsMysqlPort := vip
  nodeHosts := ∅
  proxies := [⟨"rds-demo-proxy-1", proxy, 0⟩]
  shards := []
  itype := "single"
  shardNum := 1
  network := "rds-demo"
  nodes := []
  proxyContainer := "rds-demo-proxy-1"
  proxyMysqlPort := proxy
  proxyMngPort := 0
  lastError := ""

/-- Nothing fails. -/
def calm : Surface := ⟨true, none, "Address already in use (os error 98)", true, none, none, true⟩

theorem ensure_forwards_iff_twice : ∃ (h : History Host LvsEvent) (s : Host),
    Run step (fun _ _ _ => True) (· = init) h s ∧
      ((∀ t p inst c h', (t, .ensure p inst c) :: h' <:+ h → (t.ensure p inst c).2 = .ok () →
        (t.ensure p inst c).1.Forwards inst) ↔ ∀ t e h', (t, e) :: h' <:+ h → Current t e) := by
  have hr : Run step (fun _ _ _ => True) (· = init)
      [((init.ensure 0 (behindVip 34001 34002) calm).1, .ensure 1 (behindVip 34001 34002) calm),
        (init, .ensure 0 (behindVip 34001 34002) calm)] _ :=
    .step (.step (.start rfl) trivial rfl) trivial rfl
  exact ⟨_, _, hr, ensure_forwards_iff hr⟩

/-- The instance is created again with other ports, and the process still has the old forwarder under
its name. -/
theorem vip_goes_nowhere : ¬∀ (h : History Host LvsEvent) (s : Host),
    Run step (fun _ _ _ => True) (· = init) h s → ∀ t p inst c h',
      (t, .ensure p inst c) :: h' <:+ h → (t.ensure p inst c).2 = .ok () →
        (t.ensure p inst c).1.Forwards inst := by
  intro hall
  have hr : Run step (fun _ _ _ => True) (· = init)
      [((init.ensure 0 (behindVip 34001 34002) calm).1, .ensure 0 (behindVip 34003 34004) calm),
        (init, .ensure 0 (behindVip 34001 34002) calm)] _ :=
    .step (.step (.start rfl) trivial rfl) trivial rfl
  have hkept : ((init.ensure 0 (behindVip 34001 34002) calm).1.gates 0).contains "demo" = true := by
    decide +kernel
  have heq : (init.ensure 0 (behindVip 34001 34002) calm).1.ensure 0 (behindVip 34003 34004) calm =
      ((init.ensure 0 (behindVip 34001 34002) calm).1, .ok ()) := if_pos hkept
  have hfree : (init.ensure 0 (behindVip 34001 34002) calm).1.listeners 34003 = none := by
    decide +kernel
  obtain ⟨q, n, hl⟩ := hall _ _ hr _ 0 _ calm _ (List.suffix_refl _) (by rw [heq])
  rw [heq] at hl
  exact absurd (hfree.symm.trans hl) nofun

end Host

end Rdsctl.Inst
