import Rdsctl.Inst.Basic
import Rdsctl.Query.Provision
import Rdsctl.Query.Screen
import Rdsctl.Query.Table
import Rdsctl.Sha256

/-!
# Executions of the query console

`src/query.rs`: `run_query` with `provision`, from the request to the view, as a function of what it
meets. The name of the logged-in user is an argument of its own. An execution gives the commands that
are sent to the back end, the audit rows and the result; `none` as a result is a panic.

What the back end answers may depend on every command sent so far.
-/

namespace Rdsctl.Query

open Ha Utf8 Inst

/-! ## The pieces of `run_query` -/

/-- `QueryFail` -/
structure QueryFail where
  status : Nat
  message : String
deriving DecidableEq, Repr

/-- A command sent to the execution back end: `exec_mysql_local` as root, and `query_table`. -/
inductive Sent
  | root (container pass sql : String)
  | query (container user pass : String) (sql : List Char) (timeoutSecs : Nat) (db : String)
deriving DecidableEq, Repr

/-- What an execution meets, but for the name of the user. -/
structure Site where
  allowRoot : Bool
  rootPass : String
  maxSqlLen : Nat
  timeoutSecs : Nat
  maxRows : Nat
  maxBytes : Nat
  maskCols : Option (List Char)
  blockTables : Option (List Char)
  dbs : Option (List Char)
  toLowercase : List Char → List Char
  perms : List String
  instances : String → Option RdsInstance
  querySecret : String → Option String
  freshSecret : String
  permit : Bool
  answer : List Sent → Except (List Char) (List Char)
  elapsedMs : Nat

/-- The arguments of `run_query`. -/
structure Request where
  instanceName : String
  sql : List Char
  nodeParam : String
  db : String

/-- `query_dbs` -/
def queryDbs (env : Option (List Char)) : List String :=
  match env with
  | none => ["appdb"]
  | some x => (x.splitOn ',').foldl (fun dbs d =>
      let d := String.ofList (trim d)
      if identOk d ∧ d ∉ dbs then dbs ++ [d] else dbs) ["appdb"]

/-- The loop of `redact`, which cuts the text at a byte found in its lower case. -/
def redactFrom (toLowercase : List Char → List Char) : Nat → List Char → Option (List Char)
  | 0, _ => none
  | fuel + 1, out =>
    match find "using password".toList (toLowercase out) with
    | none => some (out.take 600)
    | some p => (sliceTo p out).bind (redactFrom toLowercase fuel)

/-- `redact` -/
def redact (toLowercase : List Char → List Char) (s : List Char) : Option (List Char) :=
  redactFrom toLowercase (s.length + 1) s

/-- `resolve_node` -/
def resolveNode (toLowercase : List Char → List Char) (inst : RdsInstance) (node : String) :
    Except String (String × Bool) :=
  let find (pred : InstNode → Bool) : Option String := (inst.nodes.find? pred).map (·.container)
  match String.ofList (toLowercase node.toList) with
  | "" | "master" => match find (·.role = .master) with
    | some c => .ok (c, true)
    | none => .error "实例缺少主节点,无法查询"
  | "read" => match find (·.role = .read) with
    | some c => .ok (c, false)
    | none => .error "实例无在线读从(role=read),可选 master/offline"
  | "offline" => match find (·.role.isOffline) with
    | some c => .ok (c, false)
    | none => .error "实例无离线从(role=offline),可选 master/read"
  | other => .error s!"未知节点类型 {other}(支持 master/read/offline)"

/-- `ensure_query_secret`; a fresh secret is a digest of the time and a counter. -/
def ensureQuerySecret (name : String) (stored : Option String) (fresh : String) :
    Except String String :=
  match stored with
  | none => .error s!"实例 {name} 不存在"
  | some secret => if secret ≠ "" then .ok secret else .ok fresh

/-- The statements of `provision` for an account. -/
def provisionAccount (dbs : List String) (secret acct extraGrants : String) : Except String String := do
  let privs := if extraGrants = "" then "SELECT" else s!"SELECT, {extraGrants}"
  let grants ← dbs.mapM fun db =>
    if identOk db then .ok s!"GRANT {privs} ON `{db}`.* TO '{acct}'@'%'; "
    else .error s!"业务库名非法: {db}"
  return s!"CREATE USER IF NOT EXISTS '{acct}'@'%' IDENTIFIED BY '{secret}'; " ++
    s!"ALTER USER '{acct}'@'%' IDENTIFIED BY '{secret}'; " ++
    s!"REVOKE ALL, GRANT OPTION FROM '{acct}'@'%'; " ++ String.join grants

/-- The text that `provision` sends as root. -/
def provisionText (dbs : List String) (secret : String) (write : Bool) : Except String String :=
  if dbs = [] then .error "未配置可查询业务库(RDSCTL_QUERY_DBS 为空)"
  else do
    let ro ← provisionAccount dbs secret "rds_ro" ""
    let rw ← provisionAccount dbs secret "rds_rw" (if write then "INSERT, UPDATE, DELETE" else "")
    return ro ++ rw ++ "FLUSH PRIVILEGES;"

/-- What steps 1 and 2 of `run_query` find out. -/
structure Admitted where
  container : String
  readOnly : Bool

/-- Steps 1 and 2 of `run_query`: the instance, the node and the statement. -/
def checkRequest (s : Site) (r : Request) : Option (Except QueryFail Admitted) :=
  match s.instances r.instanceName with
  | none => some (.error ⟨404, s!"实例 {r.instanceName} 不存在"⟩)
  | some inst =>
    if inst.status ≠ .running then
      some (.error ⟨400, s!"实例 {r.instanceName} 当前状态 {inst.status.label},仅运行中可查询"⟩)
    else match resolveNode s.toLowercase inst r.nodeParam with
      | .error msg => some (.error ⟨400, msg⟩)
      | .ok (container, isWriteNode) => do
        match ← classifySql s.maxSqlLen r.sql with
        | .error msg => return .error ⟨400, msg⟩
        | .ok c =>
          if c.readOnly = false ∧ isWriteNode = false then
            return .error ⟨400, "写语句仅允许在 master 节点执行"⟩
          if c.readOnly = false ∧ "instances.query.write" ∉ s.perms then
            return .error ⟨403, "权限不足:需要 instances.query.write"⟩
          match ← blockedTable (blockPrefixes s.blockTables s.toLowercase) r.sql with
          | some t => return .error ⟨400, s!"表 {String.ofList t} 在 deny 名单内,已拒绝"⟩
          | none => return .ok ⟨container, c.readOnly⟩

/-- The account and the password that step 3 chooses. -/
structure Chosen where
  user : String
  pass : String
deriving DecidableEq, Repr

/-- How a failed `provision` ends the execution. -/
def provisionFailed (s : Site) (e : List Char) : Option (Except QueryFail Chosen) :=
  (redact s.toLowercase e).map fun msg =>
    .error ⟨500, s!"查询账号准备失败(已拒绝执行,不回退 root): {String.ofList msg}"⟩

/-- Step 3 of `run_query`: the account, with the command that provides it. -/
def chooseAccount (s : Site) (r : Request) (a : Admitted) :
    List Sent × Option (Except QueryFail Chosen) :=
  if s.allowRoot then ([], some (.ok ⟨"root", s.rootPass⟩))
  else match ensureQuerySecret r.instanceName (s.querySecret r.instanceName) s.freshSecret with
    | .error msg => ([], some (.error ⟨500, msg⟩))
    | .ok secret =>
      match provisionText (queryDbs s.dbs) secret (!a.readOnly) with
      | .error e => ([], provisionFailed s e.toList)
      | .ok sql =>
        let sent := [Sent.root a.container s.rootPass sql]
        match s.answer sent with
        | .error e => (sent, provisionFailed s e)
        | .ok _ => (sent, some (.ok ⟨if a.readOnly then "rds_ro" else "rds_rw", secret⟩))

/-- The table of a query, or its redacted error. -/
structure Answered where
  columns : List (List Char)
  rows : List (List Value)
  truncated : Bool
  maskedCols : List (List Char)
  error : Option (List Char)

/-- Step 5 of `run_query` from the answer on: parsing and masking. -/
def readAnswer (s : Site) : Except (List Char) (List Char) → Option Answered
  | .ok o => do
    let p := parseTable o s.maxRows s.maxBytes
    let (maskedCols, rows) ← mask (isMaskedCol s.maskCols s.toLowercase) p
    return ⟨p.columns, rows, p.truncated, maskedCols, none⟩
  | .error e => do
    return ⟨[], [], false, [], some (← redact s.toLowercase e)⟩

/-- `use_db` -/
def useDb (s : Site) (r : Request) : String :=
  if identOk r.db then r.db else (queryDbs s.dbs).headD ""

/-- What the execution has when the answer of its query is read. -/
structure Queried where
  admitted : Admitted
  chosen : Chosen
  answered : Answered

/-- `run_query` up to the audit: the commands, and a failure, a panic or an answer. -/
def runToAnswer (s : Site) (r : Request) : List Sent × Option (Except QueryFail Queried) :=
  match checkRequest s r with
  | none => ([], none)
  | some (.error f) => ([], some (.error f))
  | some (.ok a) =>
    match chooseAccount s r a with
    | (sent, none) => (sent, none)
    | (sent, some (.error f)) => (sent, some (.error f))
    | (sent, some (.ok c)) =>
      if s.permit = false then (sent, some (.error ⟨429, "查询并发已达上限,请稍后重试"⟩))
      else
        let sent := sent ++ [.query a.container c.user c.pass r.sql s.timeoutSecs (useDb s r)]
        (sent, (readAnswer s (s.answer sent)).map fun t => .ok ⟨a, c, t⟩)

/-- A row of `query_audit` or of the audit log. -/
inductive AuditRow
  | query (user inst node : String) (sql : List Char) (sqlHash : String) (readOnly : Bool)
      (rows : Nat) (truncated : Bool) (elapsedMs : Nat) (ok : Bool) (err : List Char)
  | log (user inst action : String) (summary : List Char) (result : String)
deriving DecidableEq, Repr

/-- `node_label` -/
def nodeLabel (s : Site) (r : Request) : String :=
  let name := String.ofList (s.toLowercase r.nodeParam.toList)
  if name = "" then "master" else name

/-- `truncate_utf8` -/
def truncateUtf8 (text : List Char) (n : Nat) : List Char :=
  if byteLen text ≤ n then text else text.take n

/-- The two audit rows of an execution. -/
def auditRows (s : Site) (r : Request) (user : String) (q : Queried) : List AuditRow :=
  let ok := q.answered.error.isNone
  let err := q.answered.error.getD []
  let rows := q.answered.rows.length
  [.query user r.instanceName (nodeLabel s r) r.sql
      (Sha256.toHex (Sha256.digest (encode r.sql)).toList) q.admitted.readOnly rows
      q.answered.truncated s.elapsedMs ok err,
    .log user r.instanceName "query_sql"
      (truncateUtf8 (if ok then s!"{rows} 行/{s.elapsedMs}ms".toList else err) 200)
      (if ok then "ok" else "fail")]

/-- `sql_str` -/
def sqlStr (v : List Char) : List Char :=
  '\'' :: v.flatMap (fun c => if c = '\\' then ['\\', '\\'] else if c = '\'' then ['\\', '\''] else [c]) ++
    ['\'']

/-- The statement that asks for the types of the columns. -/
def typesSql (db : String) (columns : List (List Char)) : List Char :=
  "SELECT COLUMN_NAME, DATA_TYPE FROM information_schema.COLUMNS WHERE TABLE_SCHEMA=".toList ++
    sqlStr db.toList ++ " AND COLUMN_NAME IN (".toList ++ [','].intercalate (columns.map sqlStr) ++ [')']

/-- `col_index` in names in lower case. -/
def colIndex (cols : List (List Char)) (name : String) : Option Nat :=
  cols.findIdx? fun c => c.map Char.toLower == name.toList

/-- The types in the answer, or nothing when it is an error or has other columns. -/
def readTypes (s : Site) : Except (List Char) (List Char) → Option (List (List Char × List Char))
  | .error _ => some []
  | .ok out =>
    let p := parseTable out 200 (512 * 1024)
    let cc := p.columns.map s.toLowercase
    match colIndex cc "column_name", colIndex cc "data_type" with
    | some n, some t => p.rows.mapM fun row => do
        let name ← row[n]?
        let type ← row[t]?
        return (name.getD [], type.getD [])
    | _, _ => some []

/-- The view of a successful query. -/
structure View where
  inst : String
  node : String
  readOnly : Bool
  columns : List (List Char)
  rows : List (List Value)
  rowsReturned : Nat
  truncated : Bool
  elapsedMs : Nat
  maskedCols : List (List Char)
  columnTypes : List (List Char × List Char)
deriving DecidableEq, Repr

/-- The view with the types of the columns. -/
def viewOf (s : Site) (r : Request) (q : Queried) (types : List (List Char × List Char)) : View :=
  ⟨r.instanceName, nodeLabel s r, q.admitted.readOnly, q.answered.columns, q.answered.rows,
    q.answered.rows.length, q.answered.truncated, s.elapsedMs, q.answered.maskedCols, types⟩

/-- What an execution sends, records and returns. -/
structure Outcome where
  sent : List Sent
  audits : List AuditRow
  result : Option (Except QueryFail View)

/-- The types are looked up for a statement that only reads, with 1 to 64 columns. -/
def wantsTypes (q : Queried) : Bool :=
  q.admitted.readOnly && q.answered.columns ≠ [] && q.answered.columns.length ≤ 64

/-- `run_query` from the audit on; `user` is what `current_user` has returned. -/
def finish (s : Site) (r : Request) (user : String) (sent : List Sent) (q : Queried) : Outcome :=
  let audits := auditRows s r user q
  match q.answered.error with
  | some msg =>
    let status := if (find "查询超时".toList msg).isSome then 408 else 400
    ⟨sent, audits, some (.error ⟨status, String.ofList msg⟩)⟩
  | none =>
    if wantsTypes q then
      -- `user` is the logged-in user here: the name of the account is shadowed
      let sent := sent ++ [.query q.admitted.container user q.chosen.pass
        (typesSql (useDb s r) q.answered.columns) (min s.timeoutSecs 20) ""]
      ⟨sent, audits, (readTypes s (s.answer sent)).map fun types => .ok (viewOf s r q types)⟩
    else ⟨sent, audits, some (.ok (viewOf s r q []))⟩

/-- `run_query` -/
def runQuery (s : Site) (r : Request) (user : String) : Outcome :=
  match runToAnswer s r with
  | (sent, none) => ⟨sent, [], none⟩
  | (sent, some (.error f)) => ⟨sent, [], some (.error f)⟩
  | (sent, some (.ok q)) => finish s r user sent q

/-! ## What is sent -/

section

variable {s : Site} {r : Request} {a : Admitted}

/-- Choosing an account sends nothing but the provisioning. -/
theorem query_not_mem_chooseAccount {container user pass db : String} {sql : List Char} {t : Nat} :
    Sent.query container user pass sql t db ∉ (chooseAccount s r a).1 := by
  unfold chooseAccount
  split
  · simp
  split
  · simp
  split
  · simp
  dsimp only
  split <;> simp

/-- The query that is sent has the account of step 3. -/
theorem account_of_query {container user pass db : String} {sql : List Char} {t : Nat}
    (h : Sent.query container user pass sql t db ∈ (runToAnswer s r).1) :
    ∃ a, checkRequest s r = some (.ok a) ∧ (chooseAccount s r a).2 = some (.ok ⟨user, pass⟩) := by
  unfold runToAnswer at h
  split at h
  · cases h
  · cases h
  next a ha =>
  have hno : Sent.query container user pass sql t db ∉ (chooseAccount s r a).1 :=
    query_not_mem_chooseAccount
  split at h
  · next sent hc =>
    rw [hc] at hno
    exact absurd h hno
  · next sent f hc =>
    rw [hc] at hno
    exact absurd h hno
  next sent c hc =>
  rw [hc] at hno
  split at h
  · exact absurd h hno
  · rcases List.mem_append.1 h with h | h
    · exact absurd h hno
    · rw [List.mem_singleton] at h
      obtain ⟨rfl, rfl, rfl, rfl, rfl, rfl⟩ := Sent.query.inj h
      exact ⟨a, ha, by rw [hc]⟩

/-- How an execution gets to an answer: it is admitted, has an account and a permit, and its query is the
last command. -/
theorem runToAnswer_ok {sent : List Sent} {q : Queried} (h : runToAnswer s r = (sent, some (.ok q))) :
    checkRequest s r = some (.ok q.admitted) ∧ s.permit = true ∧
      ∃ before, chooseAccount s r q.admitted = (before, some (.ok q.chosen)) ∧
        sent = before ++ [.query q.admitted.container q.chosen.user q.chosen.pass r.sql s.timeoutSecs
          (useDb s r)] ∧ readAnswer s (s.answer sent) = some q.answered := by
  unfold runToAnswer at h
  split at h
  · cases h
  · cases h
  next a ha =>
  split at h
  · cases h
  · cases h
  next before c hc =>
  split at h
  · cases h
  next hp =>
  obtain ⟨rfl, hq⟩ := Prod.mk.inj h
  obtain ⟨t, ht, hmk⟩ := Option.map_eq_some_iff.1 hq
  cases hmk
  exact ⟨ha, by simpa using hp, before, hc, rfl, ht⟩

end

/-! ## The name of the user -/

/-- An audit row under another name. -/
def AuditRow.setUser (name : String) : AuditRow → AuditRow
  | .query _ inst node sql sqlHash readOnly rows truncated elapsedMs ok err =>
    .query name inst node sql sqlHash readOnly rows truncated elapsedMs ok err
  | .log _ inst action summary result => .log name inst action summary result

/-- Two executions that differ only in the name of the user send the same commands, all but the
provisioning under the account of step 3, return the same, and record the same but for the name. -/
structure Anonymous (s : Site) (r : Request) (u v : String) : Prop where
  sent : (runQuery s r u).sent = (runQuery s r v).sent
  account : ∀ container user pass sql t db,
    Sent.query container user pass sql t db ∈ (runQuery s r u).sent →
      ∃ a, checkRequest s r = some (.ok a) ∧ (chooseAccount s r a).2 = some (.ok ⟨user, pass⟩)
  result : (runQuery s r u).result = (runQuery s r v).result
  audits : (runQuery s r u).audits.map (·.setUser v) = (runQuery s r v).audits

/-- A statement that only reads is admitted, gets an account and a permit, and the instance answers with
a table of 1 to 64 columns that is masked without a panic. -/
def AsksTypes (s : Site) (r : Request) : Prop :=
  ∃ a before c out, checkRequest s r = some (.ok a) ∧ a.readOnly = true ∧
    chooseAccount s r a = (before, some (.ok c)) ∧ s.permit = true ∧
    s.answer (before ++ [.query a.container c.user c.pass r.sql s.timeoutSecs (useDb s r)]) = .ok out ∧
    mask (isMaskedCol s.maskCols s.toLowercase) (parseTable out s.maxRows s.maxBytes) ≠ none ∧
    (parseTable out s.maxRows s.maxBytes).columns ≠ [] ∧
    (parseTable out s.maxRows s.maxBytes).columns.length ≤ 64

section

variable {s : Site} {r : Request}

/-- The types are asked for exactly after such an answer. -/
theorem asksTypes_iff : AsksTypes s r ↔ ∃ sent q, runToAnswer s r = (sent, some (.ok q)) ∧
    q.answered.error = none ∧ wantsTypes q = true := by
  constructor
  · rintro ⟨a, before, c, out, ha, hro, hc, hp, hout, hmask, hne, hle⟩
    obtain ⟨⟨maskedCols, rows⟩, hm⟩ := Option.ne_none_iff_exists'.1 hmask
    have hrun : runToAnswer s r =
        (before ++ [.query a.container c.user c.pass r.sql s.timeoutSecs (useDb s r)],
          some (.ok ⟨a, c, ⟨(parseTable out s.maxRows s.maxBytes).columns, rows,
            (parseTable out s.maxRows s.maxBytes).truncated, maskedCols, none⟩⟩)) := by
      unfold runToAnswer
      rw [ha]
      dsimp only
      rw [hc]
      dsimp only
      rw [if_neg (by simp [hp]), hout, readAnswer, hm]
      rfl
    exact ⟨_, _, hrun, rfl, by simp [wantsTypes, hro, hne, hle]⟩
  · rintro ⟨sent, q, h, herr, hw⟩
    obtain ⟨ha, hp, before, hc, rfl, hread⟩ := runToAnswer_ok h
    simp only [wantsTypes, Bool.and_eq_true, decide_eq_true_eq] at hw
    refine ⟨q.admitted, before, q.chosen, ?_⟩
    cases hout : s.answer (before ++ [.query q.admitted.container q.chosen.user q.chosen.pass r.sql
        s.timeoutSecs (useDb s r)]) with
    | error e =>
      rw [hout, readAnswer] at hread
      obtain ⟨msg, -, hq⟩ := Option.bind_eq_some_iff.1 hread
      rw [← Option.some.inj hq] at herr
      cases herr
    | ok out =>
      rw [hout, readAnswer] at hread
      obtain ⟨m, hm, hq⟩ := Option.bind_eq_some_iff.1 hread
      rw [← Option.some.inj hq] at hw
      exact ⟨out, ha, hw.1.1, hc, hp, rfl, by simp [hm], hw.1.2, hw.2⟩

/-- Without the second query only the audit rows depend on the name. -/
theorem runQuery_quiet (h : ¬ AsksTypes s r) : ∃ (rows : String → List AuditRow) (res : _),
    (∀ u v, (rows u).map (·.setUser v) = rows v) ∧
      ∀ user, runQuery s r user = ⟨(runToAnswer s r).1, rows user, res⟩ := by
  rw [asksTypes_iff] at h
  unfold runQuery
  rcases hrun : runToAnswer s r with ⟨sent, _ | f | q⟩
  · exact ⟨fun _ => [], none, fun _ _ => rfl, fun _ => rfl⟩
  · exact ⟨fun _ => [], some (.error f), fun _ _ => rfl, fun _ => rfl⟩
  refine ⟨fun user => auditRows s r user q, ?_⟩
  cases herr : q.answered.error with
  | some msg =>
    refine ⟨some (.error ⟨if (find "查询超时".toList msg).isSome then 408 else 400, String.ofList msg⟩),
      fun _ _ => rfl, fun user => ?_⟩
    dsimp only
    rw [finish, herr]
  | none =>
    have hw : wantsTypes q = false := Bool.eq_false_iff.2 fun hw => h ⟨sent, q, hrun, herr, hw⟩
    refine ⟨some (.ok (viewOf s r q [])), fun _ _ => rfl, fun user => ?_⟩
    dsimp only
    rw [finish, herr]
    dsimp only
    rw [if_neg (by simp [hw])]

theorem anonymous_of_not_asksTypes (h : ¬ AsksTypes s r) (u v : String) : Anonymous s r u v := by
  obtain ⟨rows, res, hrows, hrun⟩ := runQuery_quiet h
  refine ⟨?_, fun container user pass sql t db hq => ?_, ?_, ?_⟩
  · rw [hrun, hrun]
  · rw [hrun] at hq
    exact account_of_query hq
  · rw [hrun, hrun]
  · rw [hrun, hrun]
    exact hrows u v

/-- The second query has the name of the user. -/
theorem sent_of_asksTypes (h : AsksTypes s r) : ∃ (sent : List Sent) (q : Queried), ∀ user,
    (runQuery s r user).sent = sent ++ [.query q.admitted.container user q.chosen.pass
      (typesSql (useDb s r) q.answered.columns) (min s.timeoutSecs 20) ""] := by
  obtain ⟨sent, q, hrun, herr, hw⟩ := asksTypes_iff.1 h
  refine ⟨sent, q, fun user => ?_⟩
  unfold runQuery
  rw [hrun]
  dsimp only
  rw [finish, herr]
  dsimp only
  rw [if_pos hw]

theorem not_anonymous_of_asksTypes (h : AsksTypes s r) : ¬ Anonymous s r "alice" "bob" := fun hanon => by
  obtain ⟨sent, q, hsent⟩ := sent_of_asksTypes h
  have heq := hanon.sent
  rw [hsent, hsent, List.append_cancel_left_eq, List.singleton_inj] at heq
  exact absurd (Sent.query.inj heq).2.1 (by decide)

end

/-- The name of the user stays out of the database exactly when the column types are not asked for. -/
theorem anonymous_iff (s : Site) (r : Request) :
    (∀ u v, Anonymous s r u v) ↔ ¬ AsksTypes s r :=
  ⟨fun h hasks => not_anonymous_of_asksTypes hasks (h "alice" "bob"), anonymous_of_not_asksTypes⟩

/-- An instance with a master, as lab set-ups have it. -/
def lab : RdsInstance where
  name := "orders"
  status := .running
  region := ""
  az := ""
  shard := ""
  enabled := true
  lvsContainer := ""
  lvsMysqlPort := 0
  nodeHosts := ∅
  proxies := []
  shards := []
  itype := ""
  shardNum := 1
  network := "net"
  nodes := [⟨"rds-orders-1", .master, "", 3306, 0, 1, "", "", "", "", 0⟩]
  proxyContainer := ""
  proxyMysqlPort := 0
  proxyMngPort := 0
  lastError := ""

/-- A console whose instance answers every command with a table of one column. -/
def labSite : Site where
  allowRoot := false
  rootPass := "rds_root_2024"
  maxSqlLen := 65536
  timeoutSecs := 30
  maxRows := 1000
  maxBytes := 1048576
  maskCols := none
  blockTables := none
  dbs := none
  toLowercase := List.map Char.toLower
  perms := []
  instances := fun _ => some lab
  querySecret := fun _ => some "secret"
  freshSecret := ""
  permit := true
  answer := fun _ => .ok "id\n1".toList
  elapsedMs := 1

theorem user_sent : ¬ ∀ s r u v, Anonymous s r u v := fun h => by
  have hasks : AsksTypes labSite ⟨"orders", "SELECT 1".toList, "", ""⟩ :=
    ⟨⟨"rds-orders-1", true⟩, _, ⟨"rds_ro", "secret"⟩, "id\n1".toList, rfl, rfl, rfl, rfl, rfl, by decide,
      by decide, by decide⟩
  exact not_anonymous_of_asksTypes hasks (h _ _ _ _)

end Rdsctl.Query
