import Rdsctl.Agent.Handle

/-!
# The client of an agent

How the control plane asks an agent: the client of `src/agent.rs`, `AgentRuntime` of
`src/exec/agent.rs` with its questions and its removal, the routes of `src/instance.rs`, and on top
of them `r_rm` and the step `DockerRm`.
-/

namespace Rdsctl.Agent

open Ha Fallible ExecutorGuard

/-! ## The client -/

/-- The handle on an agent, with the text in which a body appears in an error. -/
structure Client where
  base : String
  token : Option String
  text : JsonText Value → String

/-- How a request fares on its way: it is answered, it does not arrive, or its reply is lost; with
the text of the error. -/
inductive Delivery
  | answered
  | lost (error : String)
  | unanswered (error : String)
deriving DecidableEq

/-- The machine of a container: its agent and platform, how the next requests fare (all later ones
are answered), and the number of refusals by the fence check the client has received. -/
structure Site (W : Type) where
  agent : State W
  net : List Delivery
  refused : Nat

namespace Site

variable {W : Type}

def delivery (s : Site W) : Delivery := s.net.headD .answered

/-- One request further on, with nothing changed. -/
def next (s : Site W) : Site W := { s with net := s.net.tail }

end Site

/-- A header as the agent reads it. -/
def headerValue (value : String) : String := String.ofList (trim value.toList)

/-- The key a request with some `ExecMeta` is looked up under. -/
def ExecMeta.key (info : ExecMeta) : Option String := (info.idem.map headerValue).filter (· ≠ "")

section Client

variable {W : Type} (cl : Client) (cfg : Config) (rt : WorkloadRuntime W)

def toRequest (path : String) (payload : Value) (info : ExecMeta) : Request where
  token := cl.token
  method := "POST"
  path := path
  fence := info.fence.map fun f => headerValue f.wire
  idem := info.key
  payload := payload

/-- What the client makes of a reply. -/
def readReply (reply : Reply) : Except String Value :=
  if reply.status ≠ 200 then
    .error ("agent " ++ cl.base ++ " HTTP " ++ toString reply.status ++ ": " ++ cl.text reply.body)
  else
    match reply.body with
    | .ofValue v => .ok v
    | .malformed raw => .error ("agent 响应解析失败: " ++ raw)

/-- One request to the agent. -/
def request (path : String) (payload : Value) (info : ExecMeta) : Fallible String (Site W) Value :=
  fun s =>
    let (reply, agent) := handle cfg rt (toRequest cl path payload info) s.agent
    match s.delivery with
    | .lost e => (.error e, s.next)
    | .unanswered e => (.error e, { s.next with agent })
    | .answered => (readReply cl reply,
        { s.next with
          agent
          refused := if reply.status = 409 then s.refused + 1 else s.refused })

/-- `rt_call`: a reply that is not `ok` becomes an error again. -/
def rtCall (path : String) (payload : Value) (info : ExecMeta) :
    Fallible RuntimeError (Site W) Value := fun s =>
  match request cl cfg rt path payload info s with
  | (.error e, s') => (.error (.platform e), s')
  | (.ok v, s') =>
    if isOk v then (.ok v, s')
    else (.error (.fromWire (strOr v "code") (strOr v "cap")
      ((strOf v "error").getD "agent 执行失败")), s')

/-- `Agent::docker(["inspect", container]).is_ok()`. -/
def inspects (container : String) (s : Site W) : Bool × Site W :=
  match request cl cfg rt "/agent/docker"
    (.object [("args", .array [.string "inspect", .string container])]) {} s with
  | (.error _, s') => (false, s')
  | (.ok v, s') => (isOk v, s')

/-- `Agent::exists`. -/
def agentExists (container : String) (s : Site W) : Bool × Site W :=
  inspects cl cfg rt container s

/-- `rm_fenced`. -/
def rmFenced (container : String) (info : ExecMeta) : Fallible String (Site W) Unit := fun s =>
  match request cl cfg rt "/agent/rm" (.object [("container", .string container)]) info s with
  | (.error e, s') => (.error e, s')
  | (.ok v, s') =>
    if isOk v then (.ok (), s') else (.error ((strOf v "error").getD "rm 失败"), s')

/-- The error of an agent that does not know the path. -/
def isLegacyAgent : RuntimeError → Bool
  | .platform m => decide ("未知路径".toList <:+: m.toList)
  | _ => false

/-- `with_lease_fence`: a call without a fence gets that of the lease of its workload. -/
def withLeaseFence (lease : String → Option Fence) (id : String) (given : ExecMeta) : ExecMeta :=
  if given.fence.isSome then given else ⟨lease id, given.idem⟩

/-- `AgentRuntime::remove`. -/
def agentRemove (lease : String → Option Fence) (id : String) (purge : Bool) (given : ExecMeta) :
    Fallible RuntimeError (Site W) Unit := fun s =>
  let info := withLeaseFence lease id given
  match rtCall cl cfg rt "/agent/remove"
    (.object [("id", .string id), ("purge", .bool purge)]) info s with
  | (.ok _, s') => (.ok (), s')
  | (.error e, s') =>
    if isLegacyAgent e then
      match rtCall cl cfg rt "/agent/rm" (.object [("container", .string id)]) info s' with
      | (.ok _, s'') => (.ok (), s'')
      | (.error e, s'') => (.error e, s'')
    else (.error e, s')

/-- `AgentRuntime::exists`, which falls back on `inspect` when the call fails. -/
def agentRuntimeExists (id : String) (s : Site W) : Bool × Site W :=
  match rtCall cl cfg rt "/agent/exists" (.object [("id", .string id)]) {} s with
  | (.ok v, s') => (((v.get "exists").bind Value.asBool).getD false, s')
  | (.error _, s') => inspects cl cfg rt id s'

/-! ## Routes -/

/-- Where the container of a node is handled. -/
inductive NodeRoute
  | «local»
  | agent
  /-- bound to a host without an agent -/
  | unmanaged (host : String)
deriving DecidableEq

/-- What a route is executed by: the platform of the process, or an agent. -/
inductive Backend
  | default
  | agent
deriving DecidableEq

/-- `runtime_of_route`; `localAgent` says whether `local_agent()` has one. -/
def runtimeOfRoute (localAgent : Bool) : NodeRoute → Except RuntimeError Backend
  | .local => .ok (if localAgent then .agent else .default)
  | .agent => .ok .agent
  | .unmanaged host => .error (.nodeNotReady
      ("节点绑定宿主机 " ++ host ++ " 但 agent 未接入,无法执行(不代跑本机)"))

/-- `route_for_workload`, for the route of the instance the container is bound in, if it is. -/
def routeForWorkload (localAgent : Bool) : Option NodeRoute → Except RuntimeError Backend
  | none => .ok .default
  | some route => runtimeOfRoute localAgent route

/-- `exec_agent(route).is_some()`. -/
def execAgent (localAgent : Bool) : NodeRoute → Bool
  | .agent => true
  | .local => localAgent
  | .unmanaged _ => false

/-- `exists` of the trait. -/
def Backend.exists' (backend : Backend) (container : String) (s : Site W) : Bool × Site W :=
  match backend with
  | .default => (rt.exists' container s.agent.world, s)
  | .agent => agentRuntimeExists cl cfg rt container s

/-- `remove` of the trait, called with no `ExecMeta`. -/
def Backend.remove (lease : String → Option Fence) (backend : Backend) (container : String)
    (purge : Bool) : Fallible RuntimeError (Site W) Unit :=
  match backend with
  | .default => zoom (fun s => s.agent.world)
      (fun w s => { s with agent := { s.agent with world := w } }) (rt.remove container purge {})
  | .agent => agentRemove cl cfg rt lease container purge {}

/-- `exists` and then `remove`, by what the route gives; without a backend nothing exists. -/
def removeBy (lease : String → Option Fence) (backend : Except RuntimeError Backend)
    (container : String) (purge : Bool) : Fallible String (Site W) Unit := fun s =>
  match backend with
  | .error _ => (.ok (), s)
  | .ok backend =>
    match backend.exists' cl cfg rt container s with
    | (false, s') => (.ok (), s')
    | (true, s') =>
      match backend.remove cl cfg rt lease container purge s' with
      | (.ok (), s'') => (.ok (), s'')
      | (.error e, s'') => (.error e.text, s'')

/-- `r_rm`. -/
def rRm (localAgent : Bool) (lease : String → Option Fence) (route : NodeRoute)
    (container : String) : Fallible String (Site W) Unit :=
  removeBy cl cfg rt lease (runtimeOfRoute localAgent route) container false

/-- What the step `DockerRm` reads: its container, the route of its instance and that of the
instance the container is bound in, the fence of the lease, and what the ledger answers. -/
structure RmStep where
  container : String
  /-- in cluster mode -/
  cluster : Bool
  localAgent : Bool
  route : NodeRoute
  bound : Option NodeRoute
  fence : Option Fence
  /-- `ledger_begin` in cluster mode: a refusal, or the result of the step if it is done -/
  ledgerBegin : Except String (Option String)
  ledgerDone : Except String Unit

/-- The containers of xenon nodes are removed with their volumes. -/
def purges (container : String) : Bool := decide ("-xenon".toList <:+: container.toList)

/-- The removal of the step `DockerRm`, without its entries in the ledger. -/
def RmStep.removal (step : RmStep) (lease : String → Option Fence) : Fallible String (Site W) Unit :=
  let dk := removeBy cl cfg rt lease (routeForWorkload step.localAgent step.bound) step.container
    (purges step.container)
  if step.cluster then
    if execAgent step.localAgent step.route then fun s =>
      match agentExists cl cfg rt step.container s with
      | (false, s') => (.ok (), s')
      | (true, s') => rmFenced cl cfg rt step.container ⟨step.fence, none⟩ s'
    else
      match step.route with
      | .unmanaged _ => pure ()
      | _ => dk
  else dk

/-- The step `DockerRm`. -/
def dockerRm (step : RmStep) (lease : String → Option Fence) : Fallible String (Site W) String :=
  fun s =>
    match if step.cluster then step.ledgerBegin else .ok none with
    | .error e => (.error e, s)
    | .ok (some prev) => (.ok ("[账本命中] 容器 " ++ step.container ++ " 已移除:" ++ prev), s)
    | .ok none =>
      match step.removal cl cfg rt lease s with
      | (.error e, s') => (.error e, s')
      | (.ok (), s') =>
        match if step.cluster then step.ledgerDone else .ok () with
        | .error e => (.error e, s')
        | .ok () => (.ok ("容器 " ++ step.container ++ " 已移除"), s')

/-! ## Single requests -/

/-- The agent takes the token of the client. -/
def TokenOk : Prop := cfg.token = none ∨ cl.token = cfg.token

/-- The next request gets an answer, and not that its token is wrong. -/
def Hears (s : Site W) : Prop := s.delivery = .answered ∧ TokenOk cl cfg

instance : Decidable (TokenOk cl cfg) := inferInstanceAs (Decidable (_ ∨ _))

instance (s : Site W) : Decidable (Hears cl cfg s) := inferInstanceAs (Decidable (_ ∧ _))

variable {cl cfg rt}

theorem front_of_token (h : TokenOk cl cfg) (path : String) (payload : Value) (info : ExecMeta) :
    front cfg (toRequest cl path payload info) = none := by
  unfold front toRequest
  rw [if_neg fun hc => ?_]
  · simp
  · rcases h with h | h
    · rw [h] at hc
      cases hc.1
    · exact hc.2 h

theorem front_of_not_token (h : ¬ TokenOk cl cfg) (path : String) (payload : Value)
    (info : ExecMeta) :
    front cfg (toRequest cl path payload info) =
      some ⟨403, .ofValue (failure "token 不匹配")⟩ := by
  unfold TokenOk at h
  rw [not_or] at h
  unfold front toRequest
  rw [if_pos ⟨Option.isSome_iff_ne_none.2 h.1, h.2⟩]

/-- A request with the wrong token. -/
theorem handle_of_not_token (h : ¬ TokenOk cl cfg) (path : String) (payload : Value)
    (info : ExecMeta) (a : State W) : handle cfg rt (toRequest cl path payload info) a =
      (⟨403, .ofValue (failure "token 不匹配")⟩, a) := by
  unfold handle admission
  rw [front_of_not_token h]

variable (cl cfg) in
/-- What a request on a listed path meets before its endpoint. -/
theorem admit_listed (htok : TokenOk cl cfg) {path : String} (hpath : path ∈ mutatingPaths)
    (payload : Value) (info : ExecMeta) (a : State W) :
    admission cfg (toRequest cl path payload info) a =
      match info.key.bind a.idem.get with
      | some body => (some ⟨200, body⟩, a)
      | none => ((checkFence cfg (toRequest cl path payload info) a.fenceSeen).1,
          { a with fenceSeen := (checkFence cfg (toRequest cl path payload info) a.fenceSeen).2 }) := by
  have hmut : (toRequest cl path payload info).mutating = true := decide_eq_true hpath
  unfold admission
  rw [front_of_token htok]
  simp only [hmut, ↓reduceIte]
  unfold replayed
  rw [show (toRequest cl path payload info).idem = info.key from rfl]
  rcases info.key.bind a.idem.get with _ | body
  · rfl
  · rfl

theorem handle_of_reply {req : Request} {a a' : State W} {reply : Reply}
    (h : admission cfg req a = (some reply, a')) : handle cfg rt req a = (reply, a') := by
  rw [handle, h]

theorem handle_of_admitted {req : Request} {a a' : State W} (h : admission cfg req a = (none, a')) :
    handle cfg rt req a = (⟨200, .ofValue (respond cfg rt req a'.world).1⟩,
      { a' with
        idem := match storedAt req (respond cfg rt req a'.world).1 with
          | some key => a'.idem.put cfg.overwritten key (.ofValue (respond cfg rt req a'.world).1)
          | none => a'.idem
        world := (respond cfg rt req a'.world).2 }) := by
  rw [handle, h] <;> rfl

/-- A reply without a key to store it under. -/
theorem storedAt_of_no_key {req : Request} (h : req.idem = none) (resp : Value) :
    storedAt req resp = none := by
  unfold storedAt
  split
  · exact h
  · rfl

@[simp] theorem isOk_okOut (out : String) : isOk (okOut out) = true := rfl

@[simp] theorem isOk_failure (error : String) : isOk (failure error) = false := rfl

@[simp] theorem isOk_errJson (e : RuntimeError) : isOk (errJson e) = false := rfl

variable (cfg rt) in
/-- The question whether a container is there, as the agent handles it. -/
theorem handle_inspect (hinspect : ∀ c w, (exec (rt.cliRaw ["inspect", c]) w).2 = w)
    (htok : TokenOk cl cfg) (container : String) (a : State W) :
    ∃ reply, handle cfg rt (toRequest cl "/agent/docker"
        (.object [("args", .array [.string "inspect", .string container])]) {}) a = (reply, a) ∧
      (cfg.fenceRequired = true ∧ reply.status = 409 ∨
        cfg.fenceRequired = false ∧ ∃ v, reply = ⟨200, .ofValue v⟩ ∧ (isOk v = true ↔
          rt.kind = "docker" ∧ ∃ out, (exec (rt.cliRaw ["inspect", container]) a.world).1 = .ok out)) := by
  generalize hreq : toRequest cl "/agent/docker"
    (.object [("args", .array [.string "inspect", .string container])]) {} = req
  have hidem : req.idem = none := by rw [← hreq]; rfl
  have hfence : req.fence = none := by rw [← hreq]; rfl
  have hadm := admit_listed cl cfg htok
    (show "/agent/docker" ∈ mutatingPaths by decide)
    (.object [("args", .array [.string "inspect", .string container])]) {} a
  rw [hreq] at hadm
  rcases hrequired : cfg.fenceRequired with _ | _
  · have hcheck : checkFence cfg req a.fenceSeen = (none, a.fenceSeen) := by
      simp [checkFence, hfence, hrequired]
    rw [hcheck] at hadm
    have hresp : respond cfg rt req a.world =
        if rt.kind ≠ "docker" then
          (.object [("ok", .bool false), ("error", .string "/agent/docker 已废弃,且本机后端不是 docker"),
            ("code", .string "unsupported"), ("cap", .string "raw_flags")], a.world)
        else changing okOut (rt.cliRaw ["inspect", container]) a.world := by
      have hendpoint : endpoint cfg rt.kind req.path req.payload =
          if rt.kind ≠ "docker" then
            .error (.object [("ok", .bool false),
              ("error", .string "/agent/docker 已废弃,且本机后端不是 docker"),
              ("code", .string "unsupported"), ("cap", .string "raw_flags")])
          else .ok (.docker ["inspect", container]) := by
        rw [← hreq]
        rfl
      unfold respond
      rw [hendpoint]
      by_cases hkind : rt.kind = "docker"
      · simp only [hkind, ne_eq, not_true_eq_false, ↓reduceIte, perform]
      · simp only [hkind, ne_eq, not_false_eq_true, ↓reduceIte]
    rw [handle_of_admitted (show admission cfg req a = (none, a) from hadm), storedAt_of_no_key hidem, hresp]
    by_cases hkind : rt.kind = "docker"
    · rw [if_neg (not_not.2 hkind)]
      refine ⟨⟨200, .ofValue (changing okOut (rt.cliRaw ["inspect", container]) a.world).1⟩, ?_,
        .inr ⟨rfl, _, rfl, ?_⟩⟩
      · simp only [changing, hinspect]
      · rcases hcli : (exec (rt.cliRaw ["inspect", container]) a.world).1 with e | out
        · simp [changing, hcli, answer]
        · simp [changing, hcli, answer, hkind]
    · rw [if_pos hkind]
      refine ⟨_, rfl, .inr ⟨rfl, _, rfl, ?_⟩⟩
      simp [hkind, isOk, Value.get, List.lookup_cons, Value.asBool]
  · have hcheck : (checkFence cfg req a.fenceSeen).1 = some ⟨409, .ofValue (.object [
        ("ok", .bool false), ("error", .string "fence_required"),
        ("detail", .string "该 agent 运行在强制 fence 模式(设计 A4)")])⟩ ∧
        (checkFence cfg req a.fenceSeen).2 = a.fenceSeen := by
      simp [checkFence, hfence, hrequired]
    rw [hcheck.1, hcheck.2] at hadm
    exact ⟨_, handle_of_reply hadm, .inl ⟨rfl, rfl⟩⟩

/-- A request that is answered. -/
theorem request_answered {path : String} {payload : Value} {info : ExecMeta} {s : Site W}
    {reply : Reply} {a : State W} (hs : s.delivery = .answered)
    (h : handle cfg rt (toRequest cl path payload info) s.agent = (reply, a)) :
    request cl cfg rt path payload info s = (readReply cl reply, { s.next with
      agent := a
      refused := if reply.status = 409 then s.refused + 1 else s.refused }) := by
  unfold request
  rw [h, hs]

variable (cl cfg rt) in
/-- A request that is not answered: it fails, and the agent may have handled it. -/
theorem request_failed {s : Site W} (hs : s.delivery ≠ .answered) (path : String) (payload : Value)
    (info : ExecMeta) : ∃ e, (s.delivery = .lost e ∨ s.delivery = .unanswered e) ∧
      (request cl cfg rt path payload info s = (.error e, s.next) ∨
        request cl cfg rt path payload info s = (.error e, { s.next with
          agent := (handle cfg rt (toRequest cl path payload info) s.agent).2 })) := by
  unfold request
  rcases hdel : s.delivery with _ | e | e
  · exact absurd hdel hs
  · exact ⟨e, .inl rfl, .inl rfl⟩
  · exact ⟨e, .inr rfl, .inr rfl⟩

variable (cl cfg rt) in
theorem request_error {s : Site W} {e : String} (h : s.delivery = .lost e ∨ s.delivery = .unanswered e)
    (path : String) (payload : Value) (info : ExecMeta) :
    (request cl cfg rt path payload info s).1 = .error e := by
  unfold request
  rcases h with h | h
  · rw [h]
  · rw [h]

variable (cl cfg rt) in
/-- A request that is not heard fails, and leaves the agent when handling it would. -/
theorem request_of_not_hears {s : Site W} (hs : ¬ Hears cl cfg s) (path : String) (payload : Value)
    (info : ExecMeta)
    (hsame : TokenOk cl cfg → (handle cfg rt (toRequest cl path payload info) s.agent).2 = s.agent) :
    ∃ e, request cl cfg rt path payload info s = (.error e, s.next) := by
  have hleft : (handle cfg rt (toRequest cl path payload info) s.agent).2 = s.agent := by
    by_cases htok : TokenOk cl cfg
    · exact hsame htok
    · rw [handle_of_not_token htok]
  by_cases hdel : s.delivery = .answered
  · have htok : ¬ TokenOk cl cfg := fun h => hs ⟨hdel, h⟩
    rw [request_answered hdel (handle_of_not_token htok path payload info s.agent)]
    exact ⟨_, rfl⟩
  · obtain ⟨e, -, h | h⟩ := request_failed cl cfg rt hdel path payload info
    · exact ⟨e, h⟩
    · rw [h, hleft]
      exact ⟨e, rfl⟩

variable (cl cfg) in
/-- What the question through the `docker` endpoint answers, and what it leaves. -/
theorem inspects_spec (hinspect : ∀ c w, (exec (rt.cliRaw ["inspect", c]) w).2 = w)
    (container : String) (s : Site W) :
    ((inspects cl cfg rt container s).1 = true ↔ Hears cl cfg s ∧ cfg.fenceRequired = false ∧
      rt.kind = "docker" ∧ ∃ out, (exec (rt.cliRaw ["inspect", container]) s.agent.world).1 = .ok out) ∧
    (inspects cl cfg rt container s).2 = { s.next with
      refused := if Hears cl cfg s ∧ cfg.fenceRequired = true then s.refused + 1 else s.refused } := by
  unfold inspects
  by_cases hhears : Hears cl cfg s
  · obtain ⟨reply, hhandle, hreply⟩ := handle_inspect cfg rt hinspect hhears.2 container s.agent
    rw [request_answered hhears.1 hhandle]
    rcases hreply with ⟨hreq, hstatus⟩ | ⟨hreq, v, rfl, hok⟩
    · simp [readReply, hstatus, hreq, hhears, Site.next]
    · simp [readReply, hreq, hhears, hok, Site.next]
  · obtain ⟨e, he⟩ := request_of_not_hears cl cfg rt hhears _ _ _ fun htok => by
      obtain ⟨reply, hhandle, -⟩ := handle_inspect cfg rt hinspect htok container s.agent
      rw [hhandle]
    rw [he]
    simp [hhears, Site.next]

/-- The question through the endpoint `exists`, as the agent handles it. -/
theorem handle_exists (htok : TokenOk cl cfg) (container : String) (a : State W) :
    handle cfg rt (toRequest cl "/agent/exists" (.object [("id", .string container)]) {}) a =
      (⟨200, .ofValue (.object [("ok", .bool true),
        ("exists", .bool (rt.exists' container a.world))])⟩, a) := by
  have hadm : admission cfg (toRequest cl "/agent/exists" (.object [("id", .string container)]) {})
      a = (none, a) := by
    unfold admission
    rw [front_of_token htok]
    rfl
  rw [handle_of_admitted hadm, storedAt_of_no_key rfl]
  rfl

/-- What the question through the endpoint `exists` answers, and what it leaves. -/
theorem agentRuntimeExists_spec (container : String) (s : Site W) :
    agentRuntimeExists cl cfg rt container s =
      if Hears cl cfg s then (rt.exists' container s.agent.world, s.next)
      else inspects cl cfg rt container s.next := by
  unfold agentRuntimeExists rtCall
  by_cases hhears : Hears cl cfg s
  · rw [request_answered hhears.1 (handle_exists hhears.2 container s.agent), if_pos hhears]
    simp [readReply, isOk, Value.get, List.lookup_cons, Value.asBool, Site.next]
  · obtain ⟨e, he⟩ := request_of_not_hears cl cfg rt hhears _ _ _ fun htok => by
      rw [handle_exists htok container s.agent]
    rw [he, if_neg hhears]

end Client

end Rdsctl.Agent
