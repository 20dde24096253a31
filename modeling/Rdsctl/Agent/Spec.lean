import Rdsctl.Ha.Text

/-!
# Container specifications

`ContainerSpec` of `src/exec/spec.rs`, read from JSON as `serde` reads it and from the arguments of
`docker run`, and the errors of `src/exec/mod.rs` with the form they travel in.
-/

namespace Rdsctl.Agent

open Ha

/-! ## Errors -/

inductive RuntimeError
  | unsupported (cap detail : String)
  | notFound (m : String)
  | timeout (m : String)
  | transport (m : String)
  | nodeNotReady (m : String)
  | platform (m : String)
deriving DecidableEq, Repr

namespace RuntimeError

/-- `Display`. -/
def text : RuntimeError → String
  | .unsupported cap detail => "unsupported capability: " ++ cap ++ "(" ++ detail ++ ")"
  | .notFound m | .timeout m | .transport m | .nodeNotReady m | .platform m => m

/-- `error_code_of`: the code and the capability an error travels with. -/
def errorCodeOf : RuntimeError → String × String
  | .unsupported cap _ => ("unsupported", cap)
  | .timeout _ => ("timeout", "")
  | .notFound _ => ("not_found", "")
  | .transport _ => ("transport", "")
  | .nodeNotReady _ => ("node_not_ready", "")
  | .platform _ => ("platform", "")

def normalizedCap (raw : String) : String :=
  if raw ∈ ["host_ports", "bind_mounts", "named_volumes", "networks", "exec", "logs", "rename",
    "systemd_unit", "raw_flags", "docker_flag"] then raw
  else "platform"

/-- `runtime_error_from_wire`. -/
def fromWire (code cap msg : String) : RuntimeError :=
  if code = "unsupported" then .unsupported (normalizedCap cap) msg
  else if code = "timeout" then .timeout msg
  else if code = "not_found" then .notFound msg
  else if code = "node_not_ready" then .nodeNotReady msg
  else .platform msg

end RuntimeError

/-! ## The specification -/

/-- `-p [host_ip:]host_port:container_port[/proto]`. -/
structure PortMapping where
  hostIp : Option String
  hostPort : Option Nat
  containerPort : Nat
  proto : String
deriving DecidableEq, Repr

inductive MountKind
  | hostPath
  | namedVolume
deriving DecidableEq, Repr

/-- `-v source:target[:ro|rw]`. -/
structure Mount where
  source : String
  target : String
  kind : MountKind
  readOnly : Bool
deriving DecidableEq, Repr

/-- `-e K=V`. -/
structure EnvVar where
  key : String
  value : String
deriving DecidableEq, Repr

structure ContainerSpec where
  /-- the name of the workload, today that of its container -/
  name : String
  image : String
  hostname : Option String := none
  network : Option String := none
  ports : List PortMapping := []
  mounts : List Mount := []
  envs : List EnvVar := []
  command : List String := []
  entrypoint : Option String := none
  restartPolicy : Option String := none
  /-- flags that are not known, as they were given -/
  extra : List String := []
  /-- the arguments of `docker run` as they were given -/
  legacyArgs : List String := []
deriving DecidableEq, Repr

/-! ## From JSON -/

/-- A field of a struct: by name in an object, by place in an array. -/
def field (v : Value) (i : Nat) (name : String) : Option Value :=
  match v with
  | .object fields => fields.lookup name
  | .array vs => vs[i]?
  | _ => none

/-- A value has the shape of a struct with `n` fields. -/
def isStruct (n : Nat) : Value → Bool
  | .object _ => true
  | .array vs => decide (vs.length ≤ n)
  | _ => false

/-- A field with a default. -/
def orDefault {α : Type} (read : Value → Option α) (dflt : α) : Option Value → Option α
  | none => some dflt
  | some v => read v

/-- A field that must be there. -/
def required {α : Type} (read : Value → Option α) : Option Value → Option α
  | none => none
  | some v => read v

/-- `Option`: `null` is `None`. -/
def readOption {α : Type} (read : Value → Option α) : Value → Option (Option α)
  | .null => some none
  | v => (read v).map some

def readVec {α : Type} (read : Value → Option α) : Value → Option (List α)
  | .array vs => vs.mapM read
  | _ => none

def readU16 (v : Value) : Option Nat :=
  match v.asU64 with
  | some n => if n < 2 ^ 16 then some n else none
  | none => none

def readPort (v : Value) : Option PortMapping :=
  if isStruct 4 v then do
    let hostIp ← orDefault (readOption Value.asStr) none (field v 0 "host_ip")
    let hostPort ← orDefault (readOption readU16) none (field v 1 "host_port")
    let containerPort ← required readU16 (field v 2 "container_port")
    let proto ← orDefault Value.asStr "tcp" (field v 3 "proto")
    some ⟨hostIp, hostPort, containerPort, proto⟩
  else none

/-- A variant without data: its name, or an object of its name and `null`. -/
def readMountKind : Value → Option MountKind
  | .string "host_path" | .object [("host_path", .null)] => some .hostPath
  | .string "named_volume" | .object [("named_volume", .null)] => some .namedVolume
  | _ => none

def readMount (v : Value) : Option Mount :=
  if isStruct 4 v then do
    let source ← required Value.asStr (field v 0 "source")
    let target ← required Value.asStr (field v 1 "target")
    let kind ← orDefault readMountKind .namedVolume (field v 2 "kind")
    let readOnly ← orDefault Value.asBool false (field v 3 "read_only")
    some ⟨source, target, kind, readOnly⟩
  else none

def readEnv (v : Value) : Option EnvVar :=
  if isStruct 2 v then do
    let key ← required Value.asStr (field v 0 "key")
    let value ← orDefault Value.asStr "" (field v 1 "value")
    some ⟨key, value⟩
  else none

/-- `serde_json::from_value::<ContainerSpec>`. -/
def ContainerSpec.ofValue (v : Value) : Option ContainerSpec :=
  if isStruct 12 v then do
    let name ← required Value.asStr (field v 0 "name")
    let image ← required Value.asStr (field v 1 "image")
    let hostname ← orDefault (readOption Value.asStr) none (field v 2 "hostname")
    let network ← orDefault (readOption Value.asStr) none (field v 3 "network")
    let ports ← orDefault (readVec readPort) [] (field v 4 "ports")
    let mounts ← orDefault (readVec readMount) [] (field v 5 "mounts")
    let envs ← orDefault (readVec readEnv) [] (field v 6 "envs")
    let command ← orDefault (readVec Value.asStr) [] (field v 7 "command")
    let entrypoint ← orDefault (readOption Value.asStr) none (field v 8 "entrypoint")
    let restartPolicy ← orDefault (readOption Value.asStr) none (field v 9 "restart_policy")
    let extra ← orDefault (readVec Value.asStr) [] (field v 10 "extra")
    let legacyArgs ← orDefault (readVec Value.asStr) [] (field v 11 "legacy_args")
    some { name, image, hostname, network, ports, mounts, envs, command, entrypoint, restartPolicy,
           extra, legacyArgs }
  else none

/-! ## From the arguments of `docker run` -/

/-- `split_once`. -/
def splitOnce (c : Char) (cs : List Char) : Option (List Char × List Char) :=
  if c ∈ cs then some (cs.takeWhile (· != c), (cs.dropWhile (· != c)).drop 1) else none

/-- `rsplit_once`. -/
def rsplitOnce (c : Char) (cs : List Char) : Option (List Char × List Char) :=
  (splitOnce c cs.reverse).map fun p => (p.2.reverse, p.1.reverse)

def parseU16 (cs : List Char) (what : String) : Except RuntimeError Nat :=
  match parseUInt (2 ^ 16) (trim cs) with
  | some n => .ok n
  | none => .error (.platform ("无法解析" ++ what ++ "端口号: " ++ String.ofList cs))

def parsePort (s : String) : Except RuntimeError PortMapping :=
  let (core, proto) :=
    match splitOnce '/' s.toList with
    | some (a, p) => (a, String.ofList p)
    | none => (s.toList, "tcp")
  match core.splitOn ':' with
  | [c] => do
    let containerPort ← parseU16 c "容器"
    .ok ⟨none, none, containerPort, proto⟩
  | [h, c] => do
    let hostPort ← if trim h = [] then .ok none else (parseU16 h "宿主").map some
    let containerPort ← parseU16 c "容器"
    .ok ⟨none, hostPort, containerPort, proto⟩
  | [ip, h, c] => do
    let hostPort ← parseU16 h "宿主"
    let containerPort ← parseU16 c "容器"
    .ok ⟨some (String.ofList ip), some hostPort, containerPort, proto⟩
  | _ => .error (.platform
      ("无法解析端口映射 " ++ s ++ "(期望 [host_ip:]host_port:container_port[/proto])"))

/-- A source that begins with `/`, `.` or `~` is a path of the host. -/
def mountKindOf : List Char → MountKind
  | '/' :: _ | '.' :: _ | '~' :: _ => .hostPath
  | _ => .namedVolume

def parseMount (s : String) : Except RuntimeError Mount :=
  let (rest, readOnly) :=
    match rsplitOnce ':' s.toList with
    | some (r, ['r', 'o']) => (r, true)
    | some (r, ['r', 'w']) => (r, false)
    | _ => (s.toList, false)
  match splitOnce ':' rest with
  | some (source, target) =>
    .ok ⟨String.ofList source, String.ofList target, mountKindOf source, readOnly⟩
  | none => .error (.platform ("无法解析挂载 " ++ s ++ "(期望 source:target[:ro|rw])"))

def parseEnv (s : String) : EnvVar :=
  match splitOnce '=' s.toList with
  | some (k, v) => ⟨String.ofList k, String.ofList v⟩
  | none => ⟨s, ""⟩

/-- The flags that take a value. -/
def knownFlags : List String :=
  ["--network", "--net", "--hostname", "-h", "-p", "--publish", "-v", "--volume", "-e", "--env",
    "--restart", "--entrypoint", "--name"]

/-- What a known flag does to the specification. -/
def setFlag (spec : ContainerSpec) (flag value : String) : Except RuntimeError ContainerSpec :=
  if flag ∈ ["--network", "--net"] then .ok { spec with network := some value }
  else if flag ∈ ["--hostname", "-h"] then .ok { spec with hostname := some value }
  else if flag ∈ ["-p", "--publish"] then do
    let p ← parsePort value
    .ok { spec with ports := spec.ports ++ [p] }
  else if flag ∈ ["-v", "--volume"] then do
    let m ← parseMount value
    .ok { spec with mounts := spec.mounts ++ [m] }
  else if flag ∈ ["-e", "--env"] then .ok { spec with envs := spec.envs ++ [parseEnv value] }
  else if flag = "--restart" then .ok { spec with restartPolicy := some value }
  else if flag = "--entrypoint" then .ok { spec with entrypoint := some value }
  else .ok { spec with name := value }

/-- The flags before the image: the specification they give, and the arguments left. -/
def parseFlags : List String → ContainerSpec → Except RuntimeError (ContainerSpec × List String)
  | [], spec => .ok (spec, [])
  | a :: rest, spec =>
    if a = "--" then .ok (spec, rest)
    else if a.toList.head? ≠ some '-' then .ok (spec, a :: rest)
    else
      let (flag, inline) :=
        match splitOnce '=' a.toList with
        | some (f, v) => (String.ofList f, some (String.ofList v))
        | none => (a, none)
      if flag ∈ knownFlags then
        match inline, rest with
        | some v, rest => do parseFlags rest (← setFlag spec flag v)
        | none, v :: rest => do parseFlags rest (← setFlag spec flag v)
        | none, [] => .error (.platform ("docker 参数 " ++ flag ++ " 缺少取值"))
      else
        -- an unknown flag does not take the next argument for its value
        parseFlags rest { spec with extra := spec.extra ++ [a] }

/-- `docker_args_to_spec`: what `docker run -d --name name args` asks for. -/
def dockerArgsToSpec (name : String) (args : List String) : Except RuntimeError ContainerSpec := do
  let (spec, rest) ← parseFlags args { name, image := "", legacyArgs := args }
  let spec := { spec with image := rest.headD "", command := rest.tail }
  if spec.image = "" then
    .error (.platform ("docker 参数缺少镜像: " ++ String.intercalate " " args))
  else .ok spec

/-- `--name` among the arguments overrides the name that was asked for. -/
example : (dockerArgsToSpec "a" ["--name", "b", "mysql:8.0"]).toOption.map (·.name) = some "b" := by
  decide +kernel

end Rdsctl.Agent
