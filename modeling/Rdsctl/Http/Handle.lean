/-!
# The HTTP handler and the actor it reads

`auth.rs` keeps the user and the permissions of a request in the thread-local `ACTOR`, which
`http.rs` sets once it has found the session and which `AuthGuard` clears when the handler ends.
`Code` is the code of a task as far as `ACTOR` is concerned: its awaits and its reads. The code that
`handle` runs before the session is known cannot read `ACTOR` and is an `Arrival`.
-/

namespace Rdsctl.Http

/-! ## `auth.rs` -/

structure Actor where
  user : String
  perms : List String
deriving DecidableEq, Repr

/-- The user of the slot `ACTOR`. -/
def current_user (slot : Option Actor) : String := (slot.map Actor.user).getD "system"

/-- Whether the actor of the slot holds a permission. -/
def has_perm (slot : Option Actor) (perm : String) : Bool :=
  (slot.map fun x => x.perms.any (· == perm)).getD false

/-- The pair of which `/api/auth/me` renders the JSON text. -/
def snapshot_json (slot : Option Actor) : String × List String :=
  match slot with
  | some x => (x.user, x.perms)
  | none => ("", [])

/-! ## Code between awaits -/

/-- What an awaited operation answers. -/
abbrev Answer := Except String String

/-- The code of a task: its awaits, and the reads of `ACTOR` between them. -/
inductive Code where
  | done
  | await (next : Answer → Code)
  | has_perm (perm : String) (next : Bool → Code)
  | current_user (next : String → Code)
  | snapshot_json (next : String × List String → Code)

/-- One code after another. -/
def Code.andThen : Code → Code → Code
  | done, k => k
  | await next, k => .await fun a => (next a).andThen k
  | has_perm perm next, k => .has_perm perm fun b => (next b).andThen k
  | current_user next, k => .current_user fun u => (next u).andThen k
  | snapshot_json next, k => .snapshot_json fun p => (next p).andThen k

/-- A read of `ACTOR` with its answer. -/
inductive Asked where
  | has_perm (perm : String) (answer : Bool)
  | current_user (answer : String)
  | snapshot_json (answer : String × List String)
deriving DecidableEq, Repr

/-- The answer is the one a slot gives. -/
def Asked.Of (slot : Option Actor) : Asked → Prop
  | has_perm perm answer => answer = Http.has_perm slot perm
  | current_user answer => answer = Http.current_user slot
  | snapshot_json answer => answer = Http.snapshot_json slot

instance (slot : Option Actor) (asked : Asked) : Decidable (asked.Of slot) := by
  cases asked <;> exact inferInstanceAs (Decidable (_ = _))

/-- Run code on a thread up to its next await or to its end: its reads, oldest first, and what is
left of it. No other task runs on the thread in between. -/
def Code.run (slot : Option Actor) : Code → List Asked × Option (Answer → Code)
  | done => ([], none)
  | await next => ([], some next)
  | has_perm perm next =>
    let b := Http.has_perm slot perm
    let r := (next b).run slot
    (.has_perm perm b :: r.1, r.2)
  | current_user next =>
    let u := Http.current_user slot
    let r := (next u).run slot
    (.current_user u :: r.1, r.2)
  | snapshot_json next =>
    let p := Http.snapshot_json slot
    let r := (next p).run slot
    (.snapshot_json p :: r.1, r.2)

/-- The reads of one segment answer what the slot holds. -/
theorem Code.run_of (slot : Option Actor) (c : Code) : ∀ asked ∈ (c.run slot).1, asked.Of slot := by
  induction c with
  | done | await => exact fun _ hm => nomatch hm
  | has_perm _ _ ih | current_user _ ih | snapshot_json _ ih =>
    intro asked hm
    rcases List.mem_cons.1 hm with rfl | hm
    · rfl
    · exact ih _ asked hm

/-! ## `http.rs` -/

/-- The code of `handle` before `auth::set`. -/
inductive Arrival where
  | closed
  | await (next : Answer → Arrival)
  | session (actor : Actor) (body : Code)

/-- `reply` where no session is known. -/
def Arrival.reply : Arrival :=
  .await fun
    | .ok _ => .await fun _ => .closed
    | .error _ => .closed

/-- `reply` under the guard: `write_all` and `flush`. -/
def Code.reply : Code :=
  .await fun
    | .ok _ => .await fun _ => .done
    | .error _ => .done

/-- A request as `handle` sees it: `chunks` counts the reads that complete its body, and `sess` is
the user and the permissions of the session that its cookie leads to. -/
structure Request where
  method : String
  path : String
  query : String
  post_body : String
  chunks : Nat
  cookie : Bool
  sess : Option Actor
deriving Repr

/-- The permission of each API route. -/
def perms : List ((String × String) × String) :=
  [ (("GET", "/api/rds/instances"), "instances.view"),
    (("GET", "/api/rds/instance"), "instances.view"),
    (("GET", "/api/rds/summary"), "instances.view"),
    (("GET", "/api/rds/tasks"), "tasks.view"),
    (("GET", "/api/rds/task"), "tasks.view"),
    (("POST", "/api/rds/create"), "instances.create"),
    (("POST", "/api/rds/destroy"), "instances.destroy"),
    (("POST", "/api/rds/instance/delete"), "instances.destroy"),
    (("POST", "/api/rds/scaleout"), "instances.scaleout"),
    (("POST", "/api/rds/backup"), "instances.manage"),
    (("POST", "/api/rds/cancel"), "tasks.cancel"),
    (("POST", "/api/rds/retry"), "tasks.cancel"),
    (("POST", "/api/rds/meta"), "instances.manage"),
    (("POST", "/api/rds/task/draft"), "tasks.manage"),
    (("POST", "/api/rds/task/start"), "tasks.manage"),
    (("POST", "/api/rds/task/edit"), "tasks.manage"),
    (("POST", "/api/rds/task/delete"), "tasks.manage"),
    (("GET", "/api/rds/modules"), "tasks.view"),
    (("POST", "/api/rds/module"), "tasks.manage"),
    (("POST", "/api/rds/module/delete"), "tasks.manage"),
    (("POST", "/api/rds/module/run"), "tasks.manage"),
    (("GET", "/api/rds/proxies"), "instances.view"),
    (("GET", "/api/rds/nodes"), "instances.view"),
    (("GET", "/api/rds/cluster"), "cluster.view"),
    (("POST", "/api/rds/cluster/stepdown"), "cluster.manage"),
    (("POST", "/api/rds/cluster/resync-sink"), "cluster.manage"),
    (("GET", "/api/rds/dts"), "instances.view"),
    (("GET", "/api/rds/hosts"), "instances.view"),
    (("POST", "/api/rds/hosts"), "instances.manage"),
    (("POST", "/api/rds/hosts/delete"), "instances.manage"),
    (("POST", "/api/rds/hosts/status"), "instances.manage"),
    (("POST", "/api/rds/host/assign"), "instances.manage"),
    (("POST", "/api/rds/host/clear"), "instances.manage"),
    (("POST", "/api/rds/replace_node"), "instances.manage"),
    (("POST", "/api/rds/migrate"), "instances.manage"),
    (("GET", "/api/rds/orch/facts"), "instances.view"),
    (("GET", "/api/rds/orch/ops"), "instances.view"),
    (("POST", "/api/rds/orch/reparent"), "instances.manage"),
    (("POST", "/api/rds/orch/rollback"), "instances.manage"),
    (("GET", "/api/rds/xenon/raft"), "instances.view"),
    (("POST", "/api/rds/xenon/raft/trytoleader"), "instances.manage"),
    (("POST", "/api/rds/dts/create"), "instances.manage"),
    (("POST", "/api/rds/dts/remove"), "instances.manage"),
    (("GET", "/api/rds/architectures"), "instances.view"),
    (("GET", "/api/rds/nodegroups"), "tasks.view"),
    (("POST", "/api/rds/proxy"), "instances.manage"),
    (("GET", "/api/rds/proxy/conf"), "instances.view"),
    (("POST", "/api/rds/proxy/conf"), "instances.manage"),
    (("GET", "/api/rds/monitor/dbs"), "instances.view"),
    (("GET", "/api/rds/proxy/metrics"), "instances.view"),
    (("GET", "/api/rds/monitor/proxies"), "instances.view"),
    (("GET", "/api/rds/audit"), "audit.view"),
    (("GET", "/api/rds/users"), "users.manage"),
    (("POST", "/api/rds/users"), "users.manage"),
    (("GET", "/api/rds/permissions"), "roles.manage"),
    (("GET", "/api/rds/roles"), "roles.manage"),
    (("POST", "/api/rds/roles"), "roles.manage"),
    (("POST", "/api/rds/enable"), "instances.manage"),
    (("POST", "/api/rds/batch"), "instances.manage"),
    (("GET", "/api/rds/alerts"), "alerts.view"),
    (("POST", "/api/rds/alert"), "alerts.handle"),
    (("GET", "/api/rds/alerts/groups"), "alerts.view"),
    (("POST", "/api/rds/alerts/gov"), "alerts.handle"),
    (("GET", "/api/rds/timeline"), "instances.view"),
    (("GET", "/api/rds/capacity"), "instances.view"),
    (("GET", "/api/rds/capacity/forecast"), "instances.view"),
    (("GET", "/api/rds/ask"), "instances.view"),
    (("GET", "/api/rds/insights"), "instances.view"),
    (("GET", "/api/rds/report"), "audit.view"),
    (("POST", "/api/rds/report/run"), "audit.view"),
    (("GET", "/api/rds/reports"), "audit.view"),
    (("POST", "/api/rds/query"), "instances.query"),
    (("POST", "/api/rds/query/save"), "instances.query"),
    (("GET", "/api/rds/query/caps"), "instances.view"),
    (("GET", "/api/rds/schema"), "instances.view"),
    (("GET", "/api/rds/schema/index"), "instances.view"),
    (("GET", "/api/rds/schema/routines"), "instances.view"),
    (("GET", "/api/rds/slow"), "instances.view"),
    (("GET", "/api/rds/slow/instance"), "instances.view"),
    (("GET", "/api/rds/slow/trend"), "instances.query"),
    (("GET", "/api/rds/slow/gov"), "instances.view"),
    (("GET", "/api/rds/slow/advice"), "instances.view"),
    (("POST", "/api/rds/slow/gov"), "tasks.manage"),
    (("POST", "/api/rds/slow/collect"), "instances.manage"),
    (("GET", "/api/rds/backup/reg"), "instances.view"),
    (("POST", "/api/rds/backup/reg/retry"), "instances.manage") ]

/-- The permission a route asks for. -/
def perm_for (method path : String) : Option String := perms.lookup (method, path)

section Handle

variable (cluster : Bool) (endpoint : Request → Code)

/-- `match (method, path)`: the handlers of `api.rs` are a parameter. -/
def Request.dispatch (q : Request) : Code :=
  if q.method = "GET" ∧ q.path = "/api/auth/me" then .snapshot_json fun _ => .done
  else if q.method = "GET" ∧ (q.path = "/" ∨ q.path = "/rds") then .done
  else endpoint q

/-- What `handle` runs under the guard: the logout, or the permission gate and the route. -/
def Request.authed (q : Request) : Code :=
  if q.method = "POST" ∧ q.path = "/logout" then
    if cluster then
      -- `auth_session_revoke`, then `wait_visible_on_all`
      .await fun
        | .error _ => .reply
        | .ok _ => .await fun _ => .reply
    else .reply
  else
    match perm_for q.method q.path with
    | some perm => .has_perm perm fun
      | false => .reply
      | true => (q.dispatch endpoint).andThen .reply
    | none => (q.dispatch endpoint).andThen .reply

/-- The session look-up has been made. -/
def Request.lookedUp (q : Request) : Arrival :=
  match q.sess with
  | some actor => .session actor (q.authed cluster endpoint)
  | none => .reply

/-- The login, the probes and the session look-up, which in a cluster waits for the read barrier. -/
def Request.routed (q : Request) : Arrival :=
  if q.path = "/login" ∧ q.method = "POST" then
    if cluster then .await fun _ => .reply else .reply
  else if q.method = "GET" ∧ (q.path = "/healthz" ∨ q.path = "/readyz") then .reply
  else if cluster then
    if q.cookie then
      .await fun
        | .error _ => .reply
        | .ok _ => q.lookedUp cluster endpoint
    else .reply
  else q.lookedUp cluster endpoint

/-- `read_body_full`: the reads that complete the body; an empty one ends it early. -/
def read_body_full (k : Arrival) : Nat → Arrival
  | 0 => k
  | n + 1 => .await fun
    | .error _ => .closed
    | .ok chunk => if chunk = "" then k else read_body_full k n

/-- Whether `handle` reads the body. -/
def Request.need_body (q : Request) : Bool :=
  q.method = "POST" ∧ (q.path = "/api/rds/query" ∨ q.path = "/api/rds/query/save")

def handle (q : Request) : Arrival :=
  .await fun
    | .error _ => .closed
    | .ok text =>
      if text = "" then .closed
      else read_body_full (q.routed cluster endpoint) (if q.need_body then q.chunks else 0)

end Handle

/-! ## `query.rs` -/

/-- What `run_query` finds outside `ACTOR`: whether the instance, the node or the statement is
refused, whether a table of it is on the deny list, and whether the quota has a permit left. -/
structure Checked where
  refused : Bool
  read_only : Bool
  denied : Bool
  allow_root_fallback : Bool
  permit : Bool
deriving Repr

/-- The execution of the statement and its record in the audit. -/
def Checked.execute (c : Checked) : Code :=
  if c.permit then .await fun _ => .current_user fun _ => .done else .done

/-- The account of the statement: root, or one that `provision` prepares. -/
def Checked.admitted (c : Checked) : Code :=
  if c.denied then .done
  else if c.allow_root_fallback then c.execute
  else .await fun
    | .error _ => .done
    | .ok _ => c.execute

def run_query (c : Checked) : Code :=
  if c.refused then .done
  else if c.read_only then c.admitted
  else .has_perm "instances.query.write" fun
    | false => .done
    | true => c.admitted

/-- `api::query` once its parameters are there. -/
def query (c : Checked) : Code :=
  .has_perm "instances.query" fun
    | false => .done
    | true => run_query c

end Rdsctl.Http
