import Rdsctl.Agent.Spec
import Rdsctl.Ha.Fence

/-!
# The agent

`handle` of `src/agent.rs`: what an agent does with a request, from the check of its token to the
reply. The platform the workloads run on is a parameter, `WorkloadRuntime` of `src/exec/mod.rs`; its
state is `W`. The requests a handler answers are those read from the connection; the text they
travel in is left out.
-/

namespace Rdsctl.Agent

open Ha Fallible

/-! ## The platform -/

/-- What goes with a call that changes something. -/
structure ExecMeta where
  fence : Option Fence := none
  idem : Option String := none
deriving DecidableEq, Repr

structure ContainerState where
  status : String
  exitCode : Int
  restarts : Nat
  health : Option String
deriving DecidableEq, Repr

/-- `ContainerState::wire`. -/
def ContainerState.wire (st : ContainerState) : String :=
  st.status ++ "|" ++ toString st.exitCode ++ "|" ++ toString st.restarts

structure ExecOutput where
  stdout : String
  stderr : String
  exitCode : Int
deriving DecidableEq, Repr

/-- `WorkloadRuntime`, with the `docker` command of the host as `cliRaw`. -/
structure WorkloadRuntime (W : Type) where
  kind : String
  create : ContainerSpec → ExecMeta → Fallible RuntimeError W Unit
  start : String → ExecMeta → Fallible RuntimeError W Unit
  stop : String → ExecMeta → Fallible RuntimeError W Unit
  restart : String → ExecMeta → Fallible RuntimeError W Unit
  remove : String → Bool → ExecMeta → Fallible RuntimeError W Unit
  rename : String → String → ExecMeta → Fallible RuntimeError W Unit
  exists' : String → W → Bool
  state : String → W → Option ContainerState
  health : String → W → Except RuntimeError (Option String)
  logs : String → Nat → W → Except RuntimeError String
  exec : String → List String → Fallible RuntimeError W String
  execRaw : String → List String → Fallible RuntimeError W ExecOutput
  writeFile : String → String → String → Fallible RuntimeError W Unit
  networkEnsure : String → ExecMeta → Fallible RuntimeError W Unit
  networkRemove : String → ExecMeta → Fallible RuntimeError W Unit
  expose : ContainerSpec → W → Except RuntimeError String
  cliRaw : List String → Fallible RuntimeError W String

def mysqlArgv (user pass sql : String) : List String :=
  ["mysql", "-N", "--protocol=TCP", "-u", user, "-p" ++ pass, "-e", sql]

/-- `exec_mysql_local`. -/
def WorkloadRuntime.execMysqlLocal {W : Type} (rt : WorkloadRuntime W) (id user pass sql : String) :
    Fallible RuntimeError W String :=
  rt.exec id (mysqlArgv user pass sql)

/-! ## Requests and replies -/

structure Request where
  token : Option String
  method : String
  path : String
  /-- the header `x-rdsctl-fence` -/
  fence : Option String
  /-- the header `x-rdsctl-idem`, when it is not empty -/
  idem : Option String
  payload : Value

structure Reply where
  status : Nat
  body : JsonText Value

/-- An agent and its environment: the token it asks for, whether it runs with
`RDSCTL_AGENT_FENCE_REQUIRED=1`, what `GET /agent/ping` and `GET /agent/caps` tell, how `serde`
words a specification it cannot read, and what a file holds after a text was written over the
beginning of another. -/
structure Config where
  token : Option String
  fenceRequired : Bool
  ping : Value
  caps : Value
  serdeError : Value → String
  overwritten : JsonText Value → JsonText Value → JsonText Value

/-- `payload[key].as_str()`. -/
def strOf (payload : Value) (key : String) : Option String := (payload.get key).bind Value.asStr

/-- `payload[key].as_str().unwrap_or("")`. -/
def strOr (payload : Value) (key : String) : String := (strOf payload key).getD ""

/-- The name of a workload: `id` at the new endpoints, `container` at the old ones. -/
def idOf (payload : Value) : String := ((strOf payload "id").or (strOf payload "container")).getD ""

/-- The key under which the fence of a request is checked. -/
def fenceKey (payload : Value) : String :=
  (((((strOf payload "id").or (strOf payload "container")).or
    ((payload.get "spec").bind fun spec => strOf spec "name")).or
    (strOf payload "from")).or (strOf payload "name")).getD "docker"

def argvOf (payload : Value) (key : String) : List String :=
  ((payload.get key).bind Value.strings).getD []

def failure (error : String) : Value :=
  .object [("ok", .bool false), ("error", .string error)]

def okOut (out : String) : Value := .object [("ok", .bool true), ("out", .string out)]

def errJson (e : RuntimeError) : Value :=
  .object [("ok", .bool false), ("error", .string e.text), ("code", .string e.errorCodeOf.1),
    ("cap", .string e.errorCodeOf.2)]

/-- The reply to a call whose value has the form `ok` gives it. -/
def answer {α : Type} (ok : α → Value) : Except RuntimeError α → Value
  | .ok a => ok a
  | .error e => errJson e

def unit : Except RuntimeError Unit → Value := answer fun _ => .object [("ok", .bool true)]

/-- `resp["ok"].as_bool() == Some(true)`. -/
def isOk (resp : Value) : Bool := (resp.get "ok").bind Value.asBool == some true

/-! ## Endpoints -/

/-- What an endpoint asks of the platform. -/
inductive Call
  | create (spec : ContainerSpec)
  | start (id : String)
  | stop (id : String)
  | restart (id : String)
  | remove (id : String) (purge : Bool)
  | rename (src dest : String)
  | exists' (id : String)
  | state (id : String)
  | health (id : String)
  | logs (id : String) (tail : Nat)
  | exec (id : String) (args : List String)
  | execRaw (id : String) (argv : List String)
  | sql (id user pass sql : String)
  | writeFile (id path content : String)
  | networkEnsure (name : String)
  | networkRemove (name : String)
  | expose (spec : ContainerSpec)
  | docker (args : List String)
deriving DecidableEq, Repr

/-- A call, unless what it needs is missing. -/
def needs (present : Bool) (error : String) (call : Call) : Except Value Call :=
  if present then .ok call else .error (failure error)

def withSpec (cfg : Config) (payload : Value) (call : ContainerSpec → Call) : Except Value Call :=
  let spec := (payload.get "spec").getD .null
  match ContainerSpec.ofValue spec with
  | some spec => .ok (call spec)
  | none => .error (failure ("spec 解析失败: " ++ cfg.serdeError spec))

/-- The call behind a path, or the reply to a payload that does not make one. -/
def endpoint (cfg : Config) (kind path : String) (payload : Value) : Except Value Call :=
  let id := idOf payload
  match path with
  | "/agent/create" => withSpec cfg payload .create
  | "/agent/start" => .ok (.start id)
  | "/agent/stop" => .ok (.stop id)
  | "/agent/restart" => .ok (.restart id)
  | "/agent/remove" | "/agent/rm" =>
    needs (id ≠ "") "缺少 container/id"
      (.remove id (((payload.get "purge").bind Value.asBool).getD false))
  | "/agent/rename" =>
    let src := strOr payload "from"
    let dest := strOr payload "to"
    needs (src ≠ "" ∧ dest ≠ "") "缺少 from/to" (.rename src dest)
  | "/agent/exists" => .ok (.exists' id)
  | "/agent/state" => .ok (.state id)
  | "/agent/health" => .ok (.health id)
  | "/agent/logs" => .ok (.logs id (((payload.get "tail").bind Value.asU64).getD 40))
  | "/agent/exec" => needs (id ≠ "") "缺少 container" (.exec id (argvOf payload "args"))
  | "/agent/exec_raw" => needs (id ≠ "") "缺少 container" (.execRaw id (argvOf payload "argv"))
  | "/agent/sql" =>
    let sql := strOr payload "sql"
    needs (id ≠ "" ∧ sql ≠ "") "缺少 container/sql"
      (.sql id (strOr payload "user") (strOr payload "pass") sql)
  | "/agent/write_file" =>
    let path := strOr payload "path"
    needs (id ≠ "" ∧ path ≠ "") "缺少 id/path" (.writeFile id path (strOr payload "content"))
  | "/agent/network/ensure" =>
    needs (strOr payload "name" ≠ "") "缺少 name" (.networkEnsure (strOr payload "name"))
  | "/agent/network/remove" =>
    needs (strOr payload "name" ≠ "") "缺少 name" (.networkRemove (strOr payload "name"))
  | "/agent/expose" => withSpec cfg payload .expose
  | "/agent/run" =>
    let c := strOr payload "container"
    if c = "" then .error (failure "缺少 container")
    else
      match dockerArgsToSpec c (argvOf payload "args") with
      | .ok spec => .ok (.create spec)
      | .error e => .error (errJson e)
  | "/agent/docker" =>
    if kind ≠ "docker" then
      .error (.object [("ok", .bool false),
        ("error", .string "/agent/docker 已废弃,且本机后端不是 docker"),
        ("code", .string "unsupported"), ("cap", .string "raw_flags")])
    else .ok (.docker (argvOf payload "args"))
  | path => .error (failure ("未知路径 " ++ path))

section Perform

variable {W : Type} (rt : WorkloadRuntime W)

/-- A call that reads. -/
def reading {α : Type} (ok : α → Value) (m : W → Except RuntimeError α) (w : W) : Value × W :=
  (answer ok (m w), w)

/-- A call that may change the platform. -/
def changing {α : Type} (ok : α → Value) (m : Fallible RuntimeError W α) (w : W) : Value × W :=
  (answer ok (Fallible.exec m w).1, (Fallible.exec m w).2)

/-- Make a call: the reply, and the platform after it. -/
def perform (info : ExecMeta) : Call → W → Value × W
  | .create spec => changing (fun _ => .object [("ok", .bool true)]) (rt.create spec info)
  | .start id => changing (fun _ => .object [("ok", .bool true)]) (rt.start id info)
  | .stop id => changing (fun _ => .object [("ok", .bool true)]) (rt.stop id info)
  | .restart id => changing (fun _ => .object [("ok", .bool true)]) (rt.restart id info)
  | .remove id purge => changing (fun _ => .object [("ok", .bool true)]) (rt.remove id purge info)
  | .rename src dest => changing (fun _ => .object [("ok", .bool true)]) (rt.rename src dest info)
  | .exists' id => fun w => (.object [("ok", .bool true), ("exists", .bool (rt.exists' id w))], w)
  | .state id => fun w =>
    (match rt.state id w with
      | some st => .object [("ok", .bool true), ("state", .string st.wire),
          ("health", (st.health.map Value.string).getD .null)]
      | none => .object [("ok", .bool true), ("state", .null)], w)
  | .health id => reading (fun h => .object [("ok", .bool true),
      ("health", (h.map Value.string).getD .null)]) (rt.health id)
  | .logs id tail => reading okOut (rt.logs id tail)
  | .exec id args => changing okOut (rt.exec id args)
  | .execRaw id argv => changing (fun o => .object [("ok", .bool true), ("out", .string o.stdout),
      ("err", .string o.stderr), ("code", .number o.exitCode)]) (rt.execRaw id argv)
  | .sql id user pass sql => changing okOut (rt.execMysqlLocal id user pass sql)
  | .writeFile id path content =>
    changing (fun _ => .object [("ok", .bool true)]) (rt.writeFile id path content)
  | .networkEnsure name => changing (fun _ => .object [("ok", .bool true)]) (rt.networkEnsure name info)
  | .networkRemove name => changing (fun _ => .object [("ok", .bool true)]) (rt.networkRemove name info)
  | .expose spec => reading (fun addr => .object [("ok", .bool true), ("addr", .string addr)])
      (rt.expose spec)
  | .docker args => changing okOut (rt.cliRaw args)

end Perform

/-! ## The replies stored -/

/-- The directory `idem` of the guard: the file behind each name, and what each file holds. A
handle on a file keeps it under whatever name it has. -/
structure IdemDir where
  names : String → Option Nat
  /-- `none` for an empty file -/
  files : Nat → Option (JsonText Value)
  next : Nat

namespace IdemDir

def empty : IdemDir := ⟨fun _ => none, fun _ => none, 0⟩

/-- `File::create`: the file of that name made empty, or a new one. -/
def create (d : IdemDir) (name : String) : Nat × IdemDir :=
  match d.names name with
  | some file => (file, { d with files := Function.update d.files file none })
  | none => (d.next,
      ⟨Function.update d.names name (some d.next), Function.update d.files d.next none, d.next + 1⟩)

/-- `write_all` on a file that was opened with `create`. -/
def write (overwritten : JsonText Value → JsonText Value → JsonText Value) (d : IdemDir)
    (file : Nat) (body : JsonText Value) : IdemDir :=
  let now := match d.files file with
    | some old => overwritten body old
    | none => body
  { d with files := Function.update d.files file (some now) }

/-- `rename`, which fails when there is no file of the first name. -/
def rename (d : IdemDir) (src dest : String) : Option IdemDir :=
  match d.names src with
  | some file =>
    if src = dest then some d
    else some { d with names := Function.update (Function.update d.names src none) dest (some file) }
  | none => none

/-- `idem_get`. -/
def get (d : IdemDir) (key : String) : Option (JsonText Value) :=
  (d.names (ExecutorGuard.safeKey key)).map fun file => (d.files file).getD (.malformed "")

/-- `idem_put`; the caller ignores its failure. -/
def put (overwritten : JsonText Value → JsonText Value → JsonText Value) (d : IdemDir)
    (key : String) (body : JsonText Value) : IdemDir :=
  let (file, d) := d.create (ExecutorGuard.tmpKey key)
  let d := d.write overwritten file body
  (d.rename (ExecutorGuard.tmpKey key) (ExecutorGuard.safeKey key)).getD d

end IdemDir

/-! ## The handler -/

/-- The paths whose requests are checked for a fence. -/
def mutatingPaths : List String :=
  ["/agent/run", "/agent/rm", "/agent/remove", "/agent/create", "/agent/start", "/agent/stop",
    "/agent/restart", "/agent/rename", "/agent/exec", "/agent/sql", "/agent/write_file",
    "/agent/network/ensure", "/agent/network/remove", "/agent/docker"]

def Request.mutating (req : Request) : Bool := decide (req.path ∈ mutatingPaths)

/-- An agent: the files of `fence_seen`, those of `idem`, and the platform. -/
structure State (W : Type) where
  fenceSeen : String → Option String
  idem : IdemDir
  world : W

/-- `Display` of `StaleFence`. -/
def staleText (e : StaleFence) : String :=
  match e.seen with
  | some s => "fence_stale[" ++ e.key ++ "]:incoming=" ++ e.incoming.wire ++
      " 低于或不可比于已见 " ++ s.wire ++ " (" ++ e.reason ++ ")"
  | none => "fence_stale[" ++ e.key ++ "]:" ++ e.reason

section Handle

variable {W : Type} (cfg : Config)

/-- The replies before anything is looked at but the head of the request. -/
def front (req : Request) : Option Reply :=
  if cfg.token.isSome ∧ req.token ≠ cfg.token then
    some ⟨403, .ofValue (failure "token 不匹配")⟩
  else if req.method = "GET" ∧ req.path = "/agent/ping" then some ⟨200, .ofValue cfg.ping⟩
  else if req.method = "GET" ∧ req.path = "/agent/caps" then some ⟨200, .ofValue cfg.caps⟩
  else if req.method ≠ "POST" then some ⟨405, .ofValue (failure "仅支持 POST")⟩
  else none

/-- The reply stored for the key of a request. -/
def replayed (req : Request) (d : IdemDir) : Option Reply :=
  (req.idem.bind d.get).map fun cached => ⟨200, cached⟩

/-- The check of the fence: a refusal, or nothing, and the files after it. -/
def checkFence (req : Request) (files : String → Option String) :
    Option Reply × (String → Option String) :=
  match req.fence with
  | some raw =>
    match Fence.parse raw.toList with
    | some f =>
      match ExecutorGuard.checkAndRaise (fenceKey req.payload) f ⟨files, []⟩ with
      | (.ok (), d) => (none, d.files)
      | (.error e, d) =>
        (some ⟨409, .ofValue (.object [("ok", .bool false), ("error", .string "fence_stale"),
          ("detail", .string (staleText e)),
          ("seen", (e.seen.map fun s => Value.string s.wire).getD .null)])⟩, d.files)
    | none => (some ⟨400, .ofValue (failure "fence 头格式非法(应为 shard:term:index)")⟩, files)
  | none =>
    if cfg.fenceRequired then
      (some ⟨409, .ofValue (.object [("ok", .bool false), ("error", .string "fence_required"),
        ("detail", .string "该 agent 运行在强制 fence 模式(设计 A4)")])⟩, files)
    else (none, files)

/-- Everything before the endpoint: a reply, or nothing when the request goes on. -/
def admission (req : Request) (s : State W) : Option Reply × State W :=
  match front cfg req with
  | some reply => (some reply, s)
  | none =>
    if req.mutating then
      match replayed req s.idem with
      | some reply => (some reply, s)
      | none => ((checkFence cfg req s.fenceSeen).1,
          { s with fenceSeen := (checkFence cfg req s.fenceSeen).2 })
    else (none, s)

/-- What the request tells the platform. -/
def Request.info (req : Request) : ExecMeta :=
  ⟨req.fence.bind fun raw => Fence.parse raw.toList, req.idem⟩

/-- The endpoint: its reply, and the platform after it. -/
def respond (rt : WorkloadRuntime W) (req : Request) (w : W) : Value × W :=
  match endpoint cfg rt.kind req.path req.payload with
  | .ok call => perform rt req.info call w
  | .error resp => (resp, w)

/-- The key a reply is stored under; a failure is not stored. -/
def storedAt (req : Request) (resp : Value) : Option String :=
  if req.mutating && isOk resp then req.idem else none

/-- One request from its arrival to the reply. -/
def handle (rt : WorkloadRuntime W) (req : Request) (s : State W) : Reply × State W :=
  match admission cfg req s with
  | (some reply, s) => (reply, s)
  | (none, s) =>
    let (resp, w) := respond cfg rt req s.world
    let idem := match storedAt req resp with
      | some key => s.idem.put cfg.overwritten key (.ofValue resp)
      | none => s.idem
    (⟨200, .ofValue resp⟩, { s with idem, world := w })

end Handle

/-! ## A plain agent -/

/-- An agent without a token. -/
def plain (fenceRequired : Bool) : Config where
  token := none
  fenceRequired
  ping := .null
  caps := .null
  serdeError _ := ""
  overwritten _ _ := .malformed ""

/-- A platform that does what it is told and tells nothing. -/
def obliging : WorkloadRuntime Unit where
  kind := "docker"
  create _ _ := pure ()
  start _ _ := pure ()
  stop _ _ := pure ()
  restart _ _ := pure ()
  remove _ _ _ := pure ()
  rename _ _ _ := pure ()
  exists' _ _ := false
  state _ _ := none
  health _ _ := .ok none
  logs _ _ _ := .ok ""
  exec _ _ := pure ""
  execRaw _ _ := pure ⟨"", "", 0⟩
  writeFile _ _ _ := pure ()
  networkEnsure _ _ := pure ()
  networkRemove _ _ := pure ()
  expose _ _ := .ok ""
  cliRaw _ := pure ""

/-- A request without a token. -/
def post (path : String) (fence idem : Option String) (payload : List (String × Value)) : Request :=
  ⟨none, "POST", path, fence, idem, .object payload⟩

end Rdsctl.Agent
