import Rdsctl.Lib.Pieces
import Rdsctl.Lib.SqlTemplate
import Rdsctl.Sha256

/-!
# The statements of the MySQL store

`src/store.rs`: every statement that `MysqlBackend` hands to the client, put together by `format!` from
the arguments of its method, and `esc` and `truncate`, which these go through. `Query.carries`: the
template of each, and what it carries without escaping it. `literals_carry_data_iff`: the server reads
the template with the arguments in it exactly when those are plain.
-/

namespace Rdsctl.Store

open Sql

/-- `str::replace` of one character. -/
def replace (c : Char) (by' : List Char) (v : List Char) : List Char :=
  v.flatMap fun d => if d = c then by' else [d]

def esc (v : List Char) : List Char :=
  replace '\'' ['\\', '\''] (replace '\\' ['\\', '\\'] v)

theorem esc_eq_escape (v : List Char) : esc v = escape v := by
  unfold esc replace escape
  rw [List.flatMap_assoc]
  congr 1
  funext d
  split
  · next hd => subst hd; rfl
  · rw [List.flatMap_singleton]

/-- The whole text when it has at most `n` bytes, else its first `n` characters. -/
def truncate (s : String) (n : Nat) : String :=
  if s.utf8ByteSize ≤ n then s else String.ofList (s.toList.take n)

/-! ## Arguments -/

theorem isWord_of_digit {n : Nat} {c : Char} (h : c ∈ (toString n).toList) : isWord c := by
  simp [isWord, Char.isAlphanum, Pieces.isDigit_of_mem h]

/-- A number as `Display` writes it. -/
def numeral (n : Nat) : Numeral where
  negative := false
  digits := (toString n).toList
  some_digit := by
    rw [show (toString n).toList = Nat.toDigits 10 n from Nat.toList_repr]
    exact Nat.toDigits_ne_nil
  all_digits _ h := .inl (isWord_of_digit h)

/-- `esc` of a text. -/
def str (s : String) : Item := .esc s.toList

/-- A text as it is. -/
def bare (s : String) : Item := .raw s.toList

def int (n : Nat) : Item := .num (numeral n)

def flag (b : Bool) : Item := int (if b then 1 else 0)

def null : Numeral := ⟨false, ['N', 'U', 'L', 'L'], List.cons_ne_nil _ _, by simp [isWord]⟩

def opt (o : Option Nat) : Item := .num (o.elim null numeral)

/-! ## Statements -/

/-- `format!`. -/
def sql (template : String) (args : List Item) : List Item := fill template.toList args

/-- A condition that is left out when its argument is missing or empty. -/
def clause (template : String) : Option String → List Item
  | some v => if v = "" then [] else sql template [str v]
  | none => []

/-- The search of `audit_list` in all columns. -/
def keyword : Option String → List Item
  | some v =>
    if v = "" then []
    else
      sql (" AND (user LIKE '%{}%' OR instance LIKE '%{}%' OR action LIKE '%{}%' " ++
            "OR params LIKE '%{}%' OR result LIKE '%{}%' OR task_id LIKE '%{}%')")
        [str v, str v, str v, str v, str v, str v]
  | none => []

/-- The rows of an insertion, joined by commas. -/
def rows (row : List Item) (more : List (List Item)) : List Item :=
  row ++ more.flatMap fun r => sql "," [] ++ r

structure SlowSample where
  inst : String
  node : String
  schemaName : String
  digest : String
  digestText : String
  countStar : Nat
  sumMs : Nat
  avgMs : Nat
  maxMs : Nat
  firstSeen : Nat
  lastSeen : Nat

/-- The instance stands outside quotes here. -/
def SlowSample.row (now : Nat) (s : SlowSample) : List Item :=
  sql "({},{},'{}','{}','{}','{}',{},{},{},{},{},{})"
    [int now, str s.inst, str s.node, str s.schemaName, str s.digest, str s.digestText,
     int s.countStar, int s.sumMs, int s.avgMs, int s.maxMs, int s.firstSeen, int s.lastSeen]

structure SlowBase where
  digest : String
  countStar : Nat
  sumMs : Nat
  seenAt : Nat

def SlowBase.row (inst node : String) (b : SlowBase) : List Item :=
  sql "('{}','{}','{}',{},{},{})"
    [str inst, str node, str b.digest, int b.countStar, int b.sumMs, int b.seenAt]

structure CapSample where
  inst : String
  node : String
  diskUsedBytes : Nat
  diskTotalBytes : Nat
  /-- a floating-point number, as it is written out -/
  dataGib : Numeral

def CapSample.row (now : Nat) (s : CapSample) : List Item :=
  sql "({},'{}','{}',{},{},{})"
    [int now, str s.inst, str s.node, int s.diskUsedBytes, int s.diskTotalBytes, .num s.dataGib]

/-- The columns of a task view. -/
def taskJsonObject : List Item :=
  sql ("SELECT JSON_OBJECT('id', t.id, 'kind', t.kind, 'instance', t.instance, 'status', t.status," ++
        "'created_at', t.created_at, 'started_at', t.started_at, 'finished_at', t.finished_at,'nodes', " ++
        "(SELECT IFNULL(JSON_ARRAYAGG(JSON_OBJECT('id', n.node_id, 'name', n.name, 'status', n.status, " ++
        "'output', n.output,'attempts', n.attempts, 'deps', CAST(n.deps_json AS JSON))), JSON_ARRAY())" ++
        "FROM task_nodes n WHERE n.task_id = t.id))") []

/-- A statement of the store: the method, and the arguments it is put together from. -/
inductive Query where
  | rolesOf (user : String)
  | permsOf (user : String)
  | nextTaskSeq (kind : String)
  | upsertTask (id kind inst status : String) (created : Nat) (started finished : Option Nat)
  | updateTaskStatus (id status : String) (finished : Option Nat)
  | upsertNode (taskId nodeId name depsJson stepsJson status output : String)
      (attempts retries : Nat) (timeoutSecs started finished : Option Nat)
  | markInterrupted (now : Nat)
  | taskViews (limit : Nat)
  | taskViewsByInstance (inst : String) (limit : Nat)
  | taskView (id : String)
  | deleteTaskNodes (id : String)
  | deleteTask (id : String)
  | pendingTaskDefinitions
  | taskDefinition (id : String)
  | audit (now : Nat) (user inst action params result taskId : String)
  | auditMarkerExists (marker : String)
  | auditList (limit : Nat) (inst action kw : Option String)
  | auditSince (since limit : Nat)
  | evidenceInsert (now : Nat) (inst kind reason factsJson : String)
  | evidenceLatest (inst : String) (n : Nat)
  | evidenceSince (kind : Option String) (sinceTs limit : Nat)
  | queryAuditInsert (now : Nat) (user inst node text sqlHash : String) (readOnly : Bool)
      (rowsReturned : Nat) (rowsTruncated : Bool) (elapsedMs : Nat) (ok : Bool)
      (errSummary : String)
  | queryAuditList (limit : Nat) (inst user : Option String) (since : Option Nat)
  | slowSnapshotsInsert (now : Nat) (sample : SlowSample) (samples : List SlowSample)
  | slowBaselinesLoad
  | slowBaselinesDelete (inst node : String)
  | slowBaselinesSet (inst node : String) (base : SlowBase) (bases : List SlowBase)
  | slowWindow (sinceTs : Nat) (inst digest : Option String) (limit : Nat)
  | slowGovExists (digest : String)
  | slowGovEnsure (now : Nat) (digest digestText : String)
  | slowGovList (limit : Nat) (status : Option String)
  | slowGovAction (now id : Nat) (action assignee : String)
  | slowPruneSnapshots (beforeSnap : Nat)
  | slowPruneGovernance (beforeGov : Nat)
  | slowGovAdvise (now : Nat) (digest adviceJson : String)
  | capacityInsert (now : Nat) (sample : CapSample) (samples : List CapSample)
  | capacitySince (inst : Option String) (sinceTs limit : Nat)
  | capacityPrune (beforeTs : Nat)
  | reportInsert (now : Nat) (period rtype text countsJson : String)
  | reportsList (rtype : Option String) (sinceTs limit : Nat)
  | reportsPrune (beforeTs : Nat)
  | backupOutboxEnqueue (now : Nat) (event inst node idempotencyKey payloadJson : String)
  | backupOutboxClaim (limit now : Nat)
  | backupOutboxPoll (limit now : Nat)
  | backupOutboxMark (now id : Nat) (state : String) (attempts nextAt : Nat) (lastError : String)
  | backupOutboxRegState (inst : Option String)
  | backupOutboxRequeue (now id : Nat)
  | backupOutboxPrune (beforeTs : Nat)
  | instanceUpsert (name region tenant data status : String) (updatedAt : Nat)
  | instanceLoadAll
  | instanceDelete (name : String)
  | lockInstance (now : Nat) (name holder : String) (leaseSecs : Nat)
  | renewInstanceLock (now : Nat) (name holder : String) (leaseSecs : Nat)
  | unlockInstance (name holder : String)
  | clearAllLocks
  | seedAdminCount (uname : String)
  | seedAdminUser (now : Nat) (uname salt : String) (hash : List UInt8)
  | seedSuperRole (now : Nat)
  | seedAdminRole (uname : String)
  | seedSuperPerm (perm : String)
  | authEffective (user : String)
  | userEnabled (user : String)
  | usersList
  | usersRaw
  | userUpsert (now : Nat) (user salt passHash : String) (enabled : Bool)
  | userSetEnabled (now : Nat) (user : String) (enabled : Bool)
  | userRolesDelete (user : String)
  | userRolesSet (user role : String)
  | rolesList
  | rolePerms (name : String)
  | roleUpsert (now : Nat) (role desc : String)
  | rolePermsDelete (role : String)
  | rolePermsSet (role perm : String)
  | alertExists (inst kind : String)
  | alertOpen (now : Nat) (inst kind severity message : String)
  | alertResolveInstance (now : Nat) (inst : String)
  | alertList (limit : Nat) (severity status inst : Option String)
  | alertAction (now id : Nat) (action assignee : String)
  | alertCounts
  | moduleUpsert (name category desc stepsJson createdBy : String) (createdAt : Nat)
  | moduleList
  | moduleDelete (name : String)
  | dtsList (inst : Option String)
  | dtsUpsert (now : Nat) (inst node engine container targetLabel status lastError spec : String)
  | dtsRemove (inst node : String)
  | hostUpsert (now : Nat) (name ip region az rack : String) (cpuCores memGb diskGb agentPort : Nat)
      (status : String)
  | hostList
  | hostDelete (name : String)
  | hostNextPort (name : String)
  | hostAllocPort (name : String)

/-- The statement, as `format!` puts it together. -/
def Query.stmt : Query → List Item
  | .rolesOf user =>
    sql "SELECT role FROM user_roles WHERE user='{}' ORDER BY role" [str user]
  | .permsOf user =>
    sql ("SELECT DISTINCT rp.perm FROM role_perms rp JOIN user_roles ur ON ur.role = rp.role WHERE " ++
          "ur.user='{}' ORDER BY rp.perm") [str user]
  | .nextTaskSeq kind =>
    sql ("INSERT INTO task_seq(kind, seq) VALUES('{}', LAST_INSERT_ID(1)) ON DUPLICATE KEY UPDATE " ++
          "seq = LAST_INSERT_ID(seq+1); SELECT LAST_INSERT_ID();") [str kind]
  | .upsertTask id kind inst status created started finished =>
    sql ("INSERT INTO tasks(id,kind,instance,status,created_at,started_at,finished_at) VALUES('{}'," ++
          "'{}','{}','{}',{},{},{}) ON DUPLICATE KEY UPDATE status=VALUES(status), " ++
          "started_at=VALUES(started_at), finished_at=VALUES(finished_at)")
        [str id, str kind, str inst, str status, int created, opt started, opt finished]
  | .updateTaskStatus id status finished =>
    sql "UPDATE tasks SET status='{}', finished_at={} WHERE id='{}'"
        [str status, opt finished, str id]
  | .upsertNode taskId nodeId name depsJson stepsJson status output attempts retries timeoutSecs
      started finished =>
    sql ("INSERT INTO task_nodes(task_id,node_id,name,deps_json,steps_json,status,output,attempts," ++
          "retries,timeout_secs,started_at,finished_at) VALUES('{}','{}','{}','{}','{}','{}','{}',{}," ++
          "{},{},{},{}) ON DUPLICATE KEY UPDATE status=VALUES(status), output=VALUES(output), " ++
          "attempts=VALUES(attempts), retries=VALUES(retries), timeout_secs=VALUES(timeout_secs), " ++
          "started_at=VALUES(started_at), finished_at=VALUES(finished_at)")
        [str taskId, str nodeId, str name, str depsJson, str stepsJson, str status, str output,
         int attempts, int retries, opt timeoutSecs, opt started, opt finished]
  | .markInterrupted now =>
    sql ("UPDATE tasks SET status='failed', finished_at={} WHERE status IN ('pending','running'); " ++
          "SELECT ROW_COUNT(); UPDATE task_nodes tn JOIN tasks t ON tn.task_id=t.id SET " ++
          "tn.status='skipped', tn.output='进程中断,任务未完成' WHERE t.status='failed' AND tn.status IN " ++
          "('pending','running');") [int now]
  | .taskViews limit =>
    sql "SELECT IFNULL(JSON_ARRAYAGG(v), JSON_ARRAY()) FROM (" [] ++
      taskJsonObject ++
      sql "AS v FROM tasks t ORDER BY t.created_at DESC, t.id DESC LIMIT {}) x" [int limit]
  | .taskViewsByInstance inst limit =>
    sql "SELECT IFNULL(JSON_ARRAYAGG(v), JSON_ARRAY()) FROM (" [] ++
      taskJsonObject ++
      sql "AS v FROM tasks t WHERE t.instance='{}' ORDER BY t.created_at DESC, t.id DESC LIMIT {}) x"
        [str inst, int limit]
  | .taskView id =>
    taskJsonObject ++
      sql "\nAS v FROM tasks t WHERE t.id='{}'" [str id]
  | .deleteTaskNodes id =>
    sql "DELETE FROM task_nodes WHERE task_id='{}'" [str id]
  | .deleteTask id =>
    sql "DELETE FROM tasks WHERE id='{}'" [str id]
  | .pendingTaskDefinitions =>
    sql ("SELECT IFNULL(JSON_ARRAYAGG(v), JSON_ARRAY()) FROM ( SELECT JSON_OBJECT('id', t.id, " ++
          "'kind', t.kind, 'instance', t.instance, 'created_at', t.created_at, 'nodes', (SELECT " ++
          "IFNULL(JSON_ARRAYAGG(JSON_OBJECT( 'node_id', n.node_id, 'name', n.name, 'deps', " ++
          "CAST(n.deps_json AS JSON), 'steps', CAST(n.steps_json AS JSON), 'status', n.status, " ++
          "'output', n.output, 'attempts', n.attempts, 'retries', n.retries, 'timeout_secs', " ++
          "n.timeout_secs)), JSON_ARRAY()) FROM task_nodes n WHERE n.task_id = t.id)) AS v FROM " ++
          "tasks t WHERE t.status IN ('pending','running')) x") []
  | .taskDefinition id =>
    sql ("SELECT JSON_OBJECT('id', t.id, 'kind', t.kind, 'instance', t.instance, 'created_at', " ++
          "t.created_at, 'status', t.status, 'started_at', t.started_at, 'finished_at', " ++
          "t.finished_at, 'nodes', (SELECT IFNULL(JSON_ARRAYAGG(JSON_OBJECT( 'node_id', n.node_id, " ++
          "'name', n.name, 'deps', CAST(n.deps_json AS JSON), 'steps', CAST(n.steps_json AS JSON), " ++
          "'status', n.status, 'output', n.output, 'attempts', n.attempts, 'retries', n.retries, " ++
          "'timeout_secs', n.timeout_secs)), JSON_ARRAY()) FROM task_nodes n WHERE n.task_id = " ++
          "t.id)) AS v FROM tasks t WHERE t.id='{}'") [str id]
  | .audit now user inst action params result taskId =>
    sql ("INSERT INTO audit_log(ts,user,instance,action,params,result,task_id) VALUES({},'{}','{}'," ++
          "'{}','{}','{}','{}')")
        [int now, str user, str inst, str action, str (truncate params 240),
         str (truncate result 240), str taskId]
  | .auditMarkerExists marker =>
    sql "SELECT COUNT(*) FROM audit_log WHERE params LIKE '{} %'" [str marker]
  | .auditList limit inst action kw =>
    sql ("SELECT IFNULL(JSON_ARRAYAGG(v), JSON_ARRAY()) FROM (SELECT JSON_OBJECT('ts', ts, 'user', " ++
          "user, 'instance', instance, 'action', action,'params', params, 'result', result, " ++
          "'task_id', task_id) v FROM audit_log WHERE 1=1") [] ++
      clause " AND instance LIKE '%{}%'" inst ++
      clause " AND action LIKE '%{}%'" action ++
      keyword kw ++
      sql " ORDER BY id DESC LIMIT {}) x" [int limit]
  | .auditSince since limit =>
    sql ("SELECT IFNULL(JSON_ARRAYAGG(v), JSON_ARRAY()) FROM (SELECT JSON_OBJECT('ts', ts, 'user', " ++
          "user, 'instance', instance, 'action', action,'params', params, 'result', result, " ++
          "'task_id', task_id) v FROM audit_log WHERE ts >= {} ORDER BY id DESC LIMIT {}) x")
        [int since, int limit]
  | .evidenceInsert now inst kind reason factsJson =>
    sql ("INSERT INTO evidence_snapshots(ts, instance, kind, reason, facts_json) VALUES({},'{}'," ++
          "'{}','{}','{}')") [int now, str inst, str kind, bare (truncate reason 240), str factsJson]
  | .evidenceLatest inst n =>
    sql ("SELECT IFNULL(JSON_ARRAYAGG(v), JSON_ARRAY()) FROM (SELECT JSON_OBJECT('ts', ts, " ++
          "'instance', instance, 'kind', kind, 'reason', reason,'facts', CAST(facts_json AS JSON)) v " ++
          "FROM evidence_snapshots WHERE instance='{}' ORDER BY id DESC LIMIT {}) x") [str inst, int n]
  | .evidenceSince kind sinceTs limit =>
    sql ("SELECT IFNULL(JSON_ARRAYAGG(v), JSON_ARRAY()) FROM (SELECT JSON_OBJECT('ts', ts, " ++
          "'instance', instance, 'kind', kind, 'reason', reason,'facts', CAST(facts_json AS JSON)) v " ++
          "FROM evidence_snapshots WHERE ts >= {}") [int sinceTs] ++
      clause " AND kind='{}'" kind ++
      sql " ORDER BY id DESC LIMIT {}) x" [int limit]
  | .queryAuditInsert now user inst node text sqlHash readOnly rowsReturned rowsTruncated elapsedMs ok
      errSummary =>
    sql ("INSERT INTO query_audit(ts,user,instance,node,sql_text,sql_hash,read_only,rows_returned," ++
          "rows_truncated,elapsed_ms,ok,err_summary) VALUES({},'{}','{}','{}','{}','{}',{},{},{},{}," ++
          "{},'{}')")
        [int now, str user, str inst, str node, str text, str sqlHash, flag readOnly,
         int rowsReturned, flag rowsTruncated, int elapsedMs, flag ok,
         str (truncate errSummary 240)]
  | .queryAuditList limit inst user since =>
    sql ("SELECT IFNULL(JSON_ARRAYAGG(v), JSON_ARRAY()) FROM (SELECT JSON_OBJECT('ts', ts, 'user', " ++
          "user, 'instance', instance, 'node', node,'sql', sql_text, 'sql_hash', sql_hash, " ++
          "'read_only', read_only,'rows_returned', rows_returned, 'rows_truncated', rows_truncated," ++
          "'elapsed_ms', elapsed_ms, 'ok', ok, 'err_summary', err_summary) v FROM query_audit WHERE " ++
          "1=1") [] ++
      clause " AND instance LIKE '%{}%'" inst ++
      clause " AND user LIKE '%{}%'" user ++
      (since.elim [] fun v => sql " AND ts >= {}" [int v]) ++
      sql " ORDER BY id DESC LIMIT {}) x" [int limit]
  | .slowSnapshotsInsert now sample samples =>
    sql ("INSERT INTO slow_digest_snapshots(ts,instance,node,schema_name,digest,digest_text," ++
          "count_star,sum_ms,avg_ms,max_ms,first_seen,last_seen) VALUES ") [] ++
      rows (sample.row now) (samples.map (SlowSample.row now))
  | .slowBaselinesLoad =>
    sql "SELECT instance,node,digest,count_star,sum_ms,seen_at FROM slow_baselines" []
  | .slowBaselinesDelete inst node =>
    sql "DELETE FROM slow_baselines WHERE instance='{}' AND node='{}'" [str inst, str node]
  | .slowBaselinesSet inst node base bases =>
    sql "INSERT INTO slow_baselines(instance,node,digest,count_star,sum_ms,seen_at) VALUES " [] ++
      rows (base.row inst node) (bases.map (SlowBase.row inst node))
  | .slowWindow sinceTs inst digest limit =>
    sql ("SELECT IFNULL(JSON_ARRAYAGG(v), JSON_ARRAY()) FROM (SELECT JSON_OBJECT('ts', ts, " ++
          "'instance', instance, 'node', node, 'schema_name', schema_name,'digest', digest, " ++
          "'digest_text', digest_text, 'count_star', count_star,'sum_ms', sum_ms, 'avg_ms', avg_ms, " ++
          "'max_ms', max_ms,'first_seen', first_seen, 'last_seen', last_seen) v FROM " ++
          "slow_digest_snapshots WHERE 1=1 AND ts >= {}") [int sinceTs] ++
      clause " AND instance='{}'" inst ++
      clause " AND digest='{}'" digest ++
      sql " ORDER BY id DESC LIMIT {}) x" [int limit]
  | .slowGovExists digest =>
    sql "SELECT COUNT(*) FROM slow_governance WHERE digest='{}' AND status IN ('open','ack')"
        [str digest]
  | .slowGovEnsure now digest digestText =>
    sql ("INSERT INTO slow_governance(digest,digest_text,status,created_at,updated_at) VALUES('{}'," ++
          "'{}','open',{},{})") [str digest, bare (truncate digestText 1024), int now, int now]
  | .slowGovList limit status =>
    sql ("SELECT IFNULL(JSON_ARRAYAGG(v), JSON_ARRAY()) FROM (SELECT JSON_OBJECT('id', id, " ++
          "'digest', digest, 'digest_text', digest_text, 'status', status,'assignee', assignee, " ++
          "'created_at', created_at, 'updated_at', updated_at,'resolved_at', resolved_at,'advice', " ++
          "CAST(IF(advice_json='' OR advice_json IS NULL, 'null', advice_json) AS JSON)) v FROM " ++
          "slow_governance WHERE 1=1") [] ++
      clause " AND status='{}'" status ++
      sql " ORDER BY id DESC LIMIT {}) x" [int limit]
  | .slowGovAction now id action assignee =>
    sql (if action = "resolve" then
          ("UPDATE slow_governance SET status='resolved', assignee='{}', resolved_at={} WHERE " ++
                "id={} AND status IN ('open','ack')")
        else
          ("UPDATE slow_governance SET status='ack', assignee='{}', updated_at={} WHERE id={} AND " ++
                "status IN ('open','ack')"))
        [str assignee, int now, int id]
  | .slowPruneSnapshots beforeSnap =>
    sql "DELETE FROM slow_digest_snapshots WHERE ts < {}; SELECT ROW_COUNT();" [int beforeSnap]
  | .slowPruneGovernance beforeGov =>
    sql ("DELETE FROM slow_governance WHERE status='resolved' AND resolved_at IS NOT NULL AND " ++
          "resolved_at < {}; SELECT ROW_COUNT();") [int beforeGov]
  | .slowGovAdvise now digest adviceJson =>
    sql ("UPDATE slow_governance SET advice_json='{}', updated_at={} WHERE digest='{}' AND status " ++
          "IN ('open','ack'); SELECT ROW_COUNT();") [str adviceJson, int now, str digest]
  | .capacityInsert now sample samples =>
    sql ("INSERT INTO capacity_samples(ts,instance,node,disk_used_bytes,disk_total_bytes,data_gib) " ++
          "VALUES ") [] ++
      rows (sample.row now) (samples.map (CapSample.row now))
  | .capacitySince inst sinceTs limit =>
    sql ("SELECT IFNULL(JSON_ARRAYAGG(v), JSON_ARRAY()) FROM (SELECT JSON_OBJECT('ts', ts, " ++
          "'instance', instance, 'node', node,'disk_used_bytes', disk_used_bytes, 'disk_total_bytes'," ++
          "disk_total_bytes,'data_gib', data_gib) v FROM capacity_samples WHERE 1=1 AND ts >= {}")
        [int sinceTs] ++
      clause " AND instance='{}'" inst ++
      sql " ORDER BY id ASC LIMIT {}) x" [int limit]
  | .capacityPrune beforeTs =>
    sql "DELETE FROM capacity_samples WHERE ts < {}; SELECT ROW_COUNT();" [int beforeTs]
  | .reportInsert now period rtype text countsJson =>
    sql "INSERT INTO reports(ts,period,type,text,counts_json) VALUES({},'{}','{}','{}','{}')"
        [int now, str period, str rtype, str text, str countsJson]
  | .reportsList rtype sinceTs limit =>
    sql ("SELECT IFNULL(JSON_ARRAYAGG(v), JSON_ARRAY()) FROM (SELECT JSON_OBJECT('id', id, 'ts', " ++
          "ts, 'period', period, 'type', type,'text', text, 'counts', CAST(counts_json AS JSON)) v " ++
          "FROM reports WHERE 1=1 AND ts >= {}") [int sinceTs] ++
      clause " AND type='{}'" rtype ++
      sql " ORDER BY id DESC LIMIT {}) x" [int limit]
  | .reportsPrune beforeTs =>
    sql "DELETE FROM reports WHERE ts < {}; SELECT ROW_COUNT();" [int beforeTs]
  | .backupOutboxEnqueue now event inst node idempotencyKey payloadJson =>
    sql ("INSERT IGNORE INTO backup_outbox(event,instance,node,idempotency_key,payload_json,state," ++
          "next_at,created_at,updated_at) VALUES('{}','{}','{}','{}','{}','pending',{},{},{})")
        [str event, str inst, str node, str idempotencyKey, str payloadJson, int now, int now,
         int now]
  | .backupOutboxClaim limit now =>
    sql ("UPDATE backup_outbox SET state='delivering', updated_at={} WHERE state IN ('pending'," ++
          "'delivering') AND next_at <= {} ORDER BY id ASC LIMIT {}")
        [int now, int now, int (min limit 200)]
  | .backupOutboxPoll limit now =>
    sql ("SELECT IFNULL(JSON_ARRAYAGG(v), JSON_ARRAY()) FROM (SELECT JSON_OBJECT('id', id, 'event'," ++
          "event, 'instance', instance, 'node', node,'idempotency_key', idempotency_key, " ++
          "'payload_json', payload_json,'attempts', attempts, 'state', state) v FROM backup_outbox " ++
          "WHERE state='delivering' AND next_at <= {} ORDER BY id ASC LIMIT {}) x")
        [int now, int (min limit 200)]
  | .backupOutboxMark now id state attempts nextAt lastError =>
    sql ("UPDATE backup_outbox SET state='{}', attempts={}, next_at={}, last_error='{}', " ++
          "updated_at={} WHERE id={}")
        [str state, int attempts, int nextAt, str lastError, int now, int id]
  | .backupOutboxRegState inst =>
    sql ("SELECT IFNULL(JSON_ARRAYAGG(v), JSON_ARRAY()) FROM (SELECT JSON_OBJECT('instance', " ++
          "t.instance, 'node', t.node, 'reg_state', CASE WHEN t.event LIKE 'register%' THEN " ++
          "'registered' WHEN t.event LIKE 'deregister%' THEN 'deregistered' ELSE 'unknown' END, " ++
          "'last_event', t.event, 'last_error', t.last_error, 'updated_at', t.updated_at) v FROM " ++
          "backup_outbox t JOIN (SELECT instance, node, MAX(id) mid FROM backup_outbox WHERE " ++
          "state='done'") [] ++
      clause " AND instance='{}'" inst ++
      sql " GROUP BY instance, node) x ON t.id = x.mid) q" []
  | .backupOutboxRequeue now id =>
    sql ("UPDATE backup_outbox SET state='pending', attempts=0, next_at={}, last_error='' WHERE " ++
          "id={} AND state='dead'") [int now, int id]
  | .backupOutboxPrune beforeTs =>
    sql ("DELETE FROM backup_outbox WHERE state IN ('done','dead') AND updated_at < {}; SELECT " ++
          "ROW_COUNT();") [int beforeTs]
  | .instanceUpsert name region tenant data status updatedAt =>
    sql ("INSERT INTO instances(name, region, tenant, data, status, updated_at) VALUES('{}','{}'," ++
          "'{}','{}','{}',{}) ON DUPLICATE KEY UPDATE region=VALUES(region), tenant=VALUES(tenant), " ++
          "data=VALUES(data), status=VALUES(status), updated_at=VALUES(updated_at)")
        [str name, str region, str tenant, str data, str status, int updatedAt]
  | .instanceLoadAll =>
    sql "SELECT name, data FROM instances" []
  | .instanceDelete name =>
    sql "DELETE FROM instances WHERE name='{}'" [str name]
  | .lockInstance now name holder leaseSecs =>
    sql ("INSERT INTO instance_locks(name, holder, lease_until, updated_at) VALUES('{}','{}',{}," ++
          "{}) ON DUPLICATE KEY UPDATE holder = IF(holder='{}' OR lease_until <= {}, '{}', holder), " ++
          "lease_until = IF(holder='{}' OR lease_until <= {}, {}, lease_until), updated_at = {}; " ++
          "SELECT IF(holder='{}', 1, 0) FROM instance_locks WHERE name='{}';")
        [str name, str holder, int (now + leaseSecs), int now, str holder, int now, str holder,
         str holder, int now, int (now + leaseSecs), int now, str holder, str name]
  | .renewInstanceLock now name holder leaseSecs =>
    sql ("UPDATE instance_locks SET lease_until={}, updated_at={} WHERE name='{}' AND holder='{}'; " ++
          "SELECT ROW_COUNT();") [int (now + leaseSecs), int now, str name, str holder]
  | .unlockInstance name holder =>
    sql "DELETE FROM instance_locks WHERE name='{}' AND holder='{}';" [str name, str holder]
  | .clearAllLocks =>
    sql "DELETE FROM instance_locks" []
  | .seedAdminCount uname =>
    sql "SELECT COUNT(*) FROM users WHERE user='{}'" [str uname]
  | .seedAdminUser now uname salt hash =>
    sql ("INSERT INTO users(user,salt,pass_hash,enabled,created_at,updated_at) VALUES('{}','{}'," ++
          "'{}',1,{},{})") [str uname, str salt, bare (Sha256.toHex hash), int now, int now]
  | .seedSuperRole now =>
    sql "INSERT INTO roles(name,description,created_at) VALUES('super','超级管理员(全部权限)',{})" [int now]
  | .seedAdminRole uname =>
    sql "INSERT INTO user_roles(user,role) VALUES('{}','super')" [str uname]
  | .seedSuperPerm perm =>
    sql "INSERT IGNORE INTO role_perms(role,perm) VALUES('super','{}')" [str perm]
  | .authEffective user =>
    sql "SELECT salt, pass_hash, enabled FROM users WHERE user='{}'" [str user]
  | .userEnabled user =>
    sql "SELECT enabled FROM users WHERE user='{}'" [str user]
  | .usersList =>
    sql "SELECT user, enabled FROM users ORDER BY user" []
  | .usersRaw =>
    sql "SELECT user, salt, pass_hash, enabled FROM users ORDER BY user" []
  | .userUpsert now user salt passHash enabled =>
    sql ("INSERT INTO users(user,salt,pass_hash,enabled,created_at,updated_at) VALUES('{}','{}'," ++
          "'{}',{},{},{}) ON DUPLICATE KEY UPDATE salt=VALUES(salt), pass_hash=VALUES(pass_hash), " ++
          "enabled=VALUES(enabled), updated_at=VALUES(updated_at)")
        [str user, str salt, bare passHash, flag enabled, int now, int now]
  | .userSetEnabled now user enabled =>
    sql "UPDATE users SET enabled={}, updated_at={} WHERE user='{}'"
        [flag enabled, int now, str user]
  | .userRolesDelete user =>
    sql "DELETE FROM user_roles WHERE user='{}'" [str user]
  | .userRolesSet user role =>
    sql "INSERT INTO user_roles(user,role) VALUES('{}','{}')" [str user, str role]
  | .rolesList =>
    sql "SELECT name, description FROM roles ORDER BY name" []
  | .rolePerms name =>
    sql "SELECT perm FROM role_perms WHERE role='{}' ORDER BY perm" [str name]
  | .roleUpsert now role desc =>
    sql ("INSERT INTO roles(name,description,created_at) VALUES('{}','{}',{}) ON DUPLICATE KEY " ++
          "UPDATE description=VALUES(description)") [str role, str desc, int now]
  | .rolePermsDelete role =>
    sql "DELETE FROM role_perms WHERE role='{}'" [str role]
  | .rolePermsSet role perm =>
    sql "INSERT INTO role_perms(role,perm) VALUES('{}','{}')" [str role, str perm]
  | .alertExists inst kind =>
    sql ("SELECT COUNT(*) FROM alerts WHERE instance='{}' AND kind='{}' AND status IN ('open'," ++
          "'ack')") [str inst, str kind]
  | .alertOpen now inst kind severity message =>
    sql ("INSERT INTO alerts(ts,instance,kind,severity,message,status) VALUES({},'{}','{}','{}'," ++
          "'{}','open')") [int now, str inst, str kind, str severity, bare (truncate message 480)]
  | .alertResolveInstance now inst =>
    sql ("UPDATE alerts SET status='resolved', resolved_at={} WHERE instance='{}' AND status IN " ++
          "('open','ack')") [int now, str inst]
  | .alertList limit severity status inst =>
    sql ("SELECT IFNULL(JSON_ARRAYAGG(v), JSON_ARRAY()) FROM (SELECT JSON_OBJECT('id', id, 'ts', " ++
          "ts, 'instance', instance, 'kind', kind, 'severity', severity,'message', message, 'status'," ++
          "status, 'assignee', assignee,'handled_at', handled_at, 'resolved_at', resolved_at) v " ++
          "FROM alerts WHERE 1=1") [] ++
      clause " AND severity='{}'" severity ++
      clause " AND status='{}'" status ++
      clause " AND instance LIKE '%{}%'" inst ++
      sql " ORDER BY id DESC LIMIT {}) x" [int limit]
  | .alertAction now id action assignee =>
    sql (if action = "resolve" then
          ("UPDATE alerts SET status='resolved', assignee='{}', resolved_at={} WHERE id={} AND " ++
                "status IN ('open','ack')")
        else
          ("UPDATE alerts SET status='ack', assignee='{}', handled_at={} WHERE id={} AND status IN " ++
                "('open','ack')"))
        [str assignee, int now, int id]
  | .alertCounts =>
    sql "SELECT severity, COUNT(*) FROM alerts WHERE status IN ('open','ack') GROUP BY severity" []
  | .moduleUpsert name category desc stepsJson createdBy createdAt =>
    sql ("INSERT INTO rds_user_modules(name, category, `desc`, steps_json, created_by, created_at, " ++
          "updated_at) VALUES('{}','{}','{}','{}','{}',{},{}) ON DUPLICATE KEY UPDATE " ++
          "category=VALUES(category), `desc`=VALUES(`desc`), steps_json=VALUES(steps_json), " ++
          "created_by=VALUES(created_by), updated_at=VALUES(updated_at)")
        [str name, str category, str desc, str stepsJson, str createdBy, int createdAt,
         int createdAt]
  | .moduleList =>
    sql ("SELECT IFNULL(JSON_ARRAYAGG(v), JSON_ARRAY()) FROM (SELECT JSON_OBJECT('name', name, " ++
          "'category', category, 'desc', `desc`, 'steps_json', steps_json,'created_by', created_by, " ++
          "'created_at', created_at, 'updated_at', updated_at) v FROM rds_user_modules ORDER BY " ++
          "updated_at DESC) x") []
  | .moduleDelete name =>
    sql "DELETE FROM rds_user_modules WHERE name='{}'" [str name]
  | .dtsList inst =>
    sql ("SELECT JSON_ARRAYAGG(v) FROM (SELECT JSON_OBJECT('instance', instance, 'node', node, " ++
          "'engine', engine, 'container', container,'target_label', target_label, 'status', status, " ++
          "'last_error', last_error,'spec', spec, 'updated_at', updated_at) v FROM rds_dts ") [] ++
      (inst.elim [] fun v => sql "WHERE instance='{}' " [str v]) ++
      sql "ORDER BY updated_at DESC) x" []
  | .dtsUpsert now inst node engine container targetLabel status lastError spec =>
    sql ("INSERT INTO rds_dts(instance, node, engine, container, target_label, status, last_error, " ++
          "spec, updated_at) VALUES('{}','{}','{}','{}','{}','{}','{}','{}',{}) ON DUPLICATE KEY " ++
          "UPDATE engine=VALUES(engine), container=VALUES(container), " ++
          "target_label=VALUES(target_label), status=VALUES(status), last_error=VALUES(last_error), " ++
          "spec=VALUES(spec), updated_at=VALUES(updated_at)")
        [str inst, str node, str engine, str container, str targetLabel, str status, str lastError,
         str spec, int now]
  | .dtsRemove inst node =>
    sql "DELETE FROM rds_dts WHERE instance='{}' AND node='{}'" [str inst, str node]
  | .hostUpsert now name ip region az rack cpuCores memGb diskGb agentPort status =>
    sql ("INSERT INTO rds_hosts(name, ip, region, az, rack, cpu_cores, mem_gb, disk_gb, agent_port," ++
          "status, next_port, created_at, updated_at) VALUES('{}','{}','{}','{}','{}',{},{},{},{}," ++
          "'{}',{}, {}, {}) ON DUPLICATE KEY UPDATE ip=VALUES(ip), region=VALUES(region), " ++
          "az=VALUES(az), rack=VALUES(rack), cpu_cores=VALUES(cpu_cores), mem_gb=VALUES(mem_gb), " ++
          "disk_gb=VALUES(disk_gb), agent_port=VALUES(agent_port), status=VALUES(status), " ++
          "updated_at=VALUES(updated_at)")
        [str name, str ip, str region, str az, str rack, int cpuCores, int memGb, int diskGb,
         int agentPort, str status, int 35000, int now, int now]
  | .hostList =>
    sql ("SELECT IFNULL(JSON_ARRAYAGG(v), JSON_ARRAY()) FROM (SELECT JSON_OBJECT('name', name, " ++
          "'ip', ip, 'region', region, 'az', az, 'rack', rack,'cpu_cores', cpu_cores, 'mem_gb', " ++
          "mem_gb, 'disk_gb', disk_gb,'agent_port', agent_port, 'status', status, 'next_port', " ++
          "next_port,'created_at', created_at, 'updated_at', updated_at) v FROM rds_hosts ORDER BY " ++
          "name) x") []
  | .hostDelete name =>
    sql "DELETE FROM rds_hosts WHERE name='{}'" [str name]
  | .hostNextPort name =>
    sql "UPDATE rds_hosts SET next_port = next_port + 1 WHERE name='{}'" [str name]
  | .hostAllocPort name =>
    sql "SELECT next_port FROM rds_hosts WHERE name='{}'" [str name]

/-- The texts that a statement carries as they are. -/
def Query.bares : Query → List String
  | .evidenceInsert _ _ _ reason _ => [truncate reason 240]
  | .slowGovEnsure _ _ digestText => [truncate digestText 1024]
  | .seedAdminUser _ _ _ hash => [Sha256.toHex hash]
  | .userUpsert _ _ _ passHash _ => [passHash]
  | .alertOpen _ _ _ _ message => [truncate message 480]
  | _ => []

/-! ## What the statements carry -/

theorem zero_ne_nil : ['0'] ≠ [] := List.cons_ne_nil _ _

theorem isWord_zero : ∀ c ∈ ['0'], isWord c ∨ c = '.' := List.forall_mem_singleton.2 (.inl rfl)

/-- A number, as the check of a template sees it. -/
def someNumber : Item := .num ⟨false, ['0'], zero_ne_nil, isWord_zero⟩

@[simp] theorem blank_str (s : String) : (str s).blank = .esc [] := rfl

@[simp] theorem blank_bare (s : String) : (bare s).blank = .raw [] := rfl

@[simp] theorem blank_num (n : Numeral) : (Item.num n).blank = someNumber := rfl

@[simp] theorem blank_int (n : Nat) : (int n).blank = someNumber := rfl

@[simp] theorem blank_flag (b : Bool) : (flag b).blank = someNumber := rfl

@[simp] theorem blank_opt (o : Option Nat) : (opt o).blank = someNumber := rfl


theorem carries_clause {template : String} (h : ∀ v, Carries (sql template [str v]) []) :
    (v : Option String) → Carries (clause template v) []
  | none => .nil
  | some v => by
    rw [clause]
    split
    · exact .nil
    · exact h v

theorem append_carries {a b : List Item} (ha : Carries a []) (hb : Carries b []) :
    Carries (a ++ b) [] := ha.append hb

theorem append_clause {a : List Item} {template : String} {v : Option String} (ha : Carries a [])
    (h : ∀ v, Carries (sql template [str v]) []) : Carries (a ++ clause template v) [] :=
  append_carries ha (carries_clause h v)

set_option maxRecDepth 8000 in
theorem carries_keyword : (kw : Option String) → Carries (keyword kw) []
  | none => .nil
  | some v => by
    rw [keyword]
    split
    · exact .nil
    · exact .of_template

set_option maxRecDepth 8000 in
theorem carries_taskJsonObject : Carries taskJsonObject [] :=
  .of_template

theorem carries_rows {row : List Item} {more : List (List Item)} (h : Carries row [])
    (hm : ∀ r ∈ more, Carries r []) : Carries (rows row more) [] := by
  unfold rows
  refine h.append ?_
  induction more with
  | nil => exact .nil
  | cons r more ih =>
    rw [List.flatMap_cons]
    have hcomma : Carries (sql "," []) [] := .of_template
    exact (hcomma.append (hm r List.mem_cons_self)).append
      (ih fun r hr => hm r (List.mem_cons_of_mem _ hr))

set_option maxRecDepth 8000 in
/-- What a statement carries without escaping it, where every argument stands in a string. -/
theorem Query.carries (q : Query) (h : ∀ now s ss, q ≠ .slowSnapshotsInsert now s ss) :
    Carries q.stmt (q.bares.map String.toList) := by
  cases q with
  | rolesOf | permsOf | nextTaskSeq | upsertTask | updateTaskStatus | upsertNode
  | markInterrupted | deleteTaskNodes | deleteTask | pendingTaskDefinitions | taskDefinition
  | audit | auditMarkerExists | auditSince | evidenceInsert | evidenceLatest | queryAuditInsert
  | slowBaselinesLoad | slowBaselinesDelete | slowGovExists | slowGovEnsure | slowPruneSnapshots
  | slowPruneGovernance | slowGovAdvise | capacityPrune | reportInsert | reportsPrune
  | backupOutboxEnqueue | backupOutboxClaim | backupOutboxPoll | backupOutboxMark
  | backupOutboxRequeue | backupOutboxPrune | instanceUpsert | instanceLoadAll | instanceDelete
  | lockInstance | renewInstanceLock | unlockInstance | clearAllLocks | seedAdminCount
  | seedAdminUser | seedSuperRole | seedAdminRole | seedSuperPerm | authEffective | userEnabled
  | usersList | usersRaw | userUpsert | userSetEnabled | userRolesDelete | userRolesSet
  | rolesList | rolePerms | roleUpsert | rolePermsDelete | rolePermsSet | alertExists | alertOpen
  | alertResolveInstance | alertCounts | moduleUpsert | moduleList | moduleDelete | dtsUpsert
  | dtsRemove | hostUpsert | hostList | hostDelete | hostNextPort | hostAllocPort =>
    exact .of_template
  | taskViews | taskViewsByInstance =>
    exact append_carries (append_carries .of_template
      carries_taskJsonObject) .of_template
  | taskView =>
    exact append_carries carries_taskJsonObject .of_template
  | evidenceSince | slowGovList | capacitySince | reportsList | backupOutboxRegState =>
    exact append_carries (append_clause .of_template
      fun _ => .of_template) .of_template
  | slowWindow =>
    exact append_carries (append_clause (append_clause
      .of_template
      fun _ => .of_template)
      fun _ => .of_template) .of_template
  | alertList =>
    exact append_carries (append_clause (append_clause (append_clause
      .of_template
      fun _ => .of_template)
      fun _ => .of_template)
      fun _ => .of_template) .of_template
  | auditList _ _ _ kw =>
    exact append_carries (append_carries (append_clause (append_clause
      .of_template
      fun _ => .of_template)
      fun _ => .of_template)
      (carries_keyword kw)) .of_template
  | queryAuditList limit inst user since =>
    refine append_carries (append_carries (append_clause (append_clause
      .of_template
      fun _ => .of_template)
      fun _ => .of_template) ?_)
      .of_template
    cases since with
    | none => exact .nil
    | some v => exact .of_template
  | dtsList inst =>
    refine append_carries (append_carries .of_template ?_)
      .of_template
    cases inst with
    | none => exact .nil
    | some v => exact .of_template
  | slowGovAction now id action assignee | alertAction now id action assignee =>
    rw [stmt]
    split <;> exact .of_template
  | slowBaselinesSet inst node base bases =>
    have hrow : ∀ b : SlowBase, Carries (b.row inst node) [] := fun b =>
      .of_template
    exact append_carries .of_template
      (carries_rows (hrow base) (by simp [hrow]))
  | capacityInsert now sample samples =>
    have hrow : ∀ s : CapSample, Carries (s.row now) [] := fun s =>
      .of_template
    exact append_carries .of_template
      (carries_rows (hrow sample) (by simp [hrow]))
  | slowSnapshotsInsert now sample samples => exact absurd rfl (h now sample samples)

/-! ## Literals carry data only -/

/-- The text that is handed to the client. -/
def Query.text (q : Query) : List Char :=
  q.stmt.flatMap fun
    | .esc v => esc v
    | a => a.text

theorem Query.text_eq (q : Query) : q.text = render q.stmt := by
  unfold text render
  congr 1
  funext a
  cases a with
  | esc v => exact esc_eq_escape v
  | char c | num n | raw v => rfl

/-- A server reads the template of the method, in which each literal denotes its argument. -/
def Query.CarriesData (server : Nat) (q : Query) : Prop :=
  ∃ ts, (Scanner.start server).reads q.stmt = some ts ∧ tokens server q.text = some ts

/-- The arguments that are not escaped contain no quote and no backslash that escapes anything, and
every argument stands in a literal. -/
def Query.PlainArguments : Query → Prop
  | .evidenceInsert _ _ _ reason _ => Plain (truncate reason 240).toList
  | .slowGovEnsure _ _ digestText => Plain (truncate digestText 1024).toList
  | .userUpsert _ _ _ passHash _ => Plain passHash.toList
  | .alertOpen _ _ _ _ message => Plain (truncate message 480).toList
  | .slowSnapshotsInsert _ _ _ => False
  | _ => True

theorem Query.carriesData_iff_readAs {server : Nat} {q : Query} :
    q.CarriesData server ↔ ReadAs server q.stmt := by
  rw [CarriesData, ReadAs, text_eq, Option.isSome_iff_exists]
  constructor
  · rintro ⟨ts, hreads, htokens⟩
    exact ⟨⟨ts, hreads⟩, htokens.trans hreads.symm⟩
  · rintro ⟨⟨ts, hreads⟩, htokens⟩
    exact ⟨ts, hreads, htokens.trans hreads⟩

/-- What a statement carries unescaped decides. -/
theorem Query.carriesData_iff_plain {server : Nat} {q : Query}
    (h : ∀ now s ss, q ≠ .slowSnapshotsInsert now s ss) :
    q.CarriesData server ↔ ∀ s ∈ q.bares, Plain s.toList := by
  rw [carriesData_iff_readAs, (q.carries h).readAs_iff, List.forall_mem_map]

/-- Hexadecimal text is plain. -/
theorem plain_toHex (bytes : List UInt8) : Plain (Sha256.toHex bytes).toList := by
  have hdigit : ∀ n < 16, ¬Special (Sha256.hexDigit n) := by
    unfold Special
    decide
  rw [Sha256.toHex, String.toList_ofList]
  refine plain_of_forall fun c hc => ?_
  obtain ⟨b, -, hb⟩ := List.mem_flatMap.1 hc
  have hlt : b.toNat < 256 := b.toNat_lt
  rcases List.mem_cons.1 hb with rfl | hb
  · exact hdigit _ (by omega)
  · rw [List.mem_singleton.1 hb]
    exact hdigit _ (by omega)

/-- The instance of a slow statement stands outside quotes. -/
theorem row_eq (now : Nat) (s : SlowSample) : s.row now = sql "({}," [int now] ++ .esc s.inst.toList ::
    sql ",'{}','{}','{}','{}',{},{},{},{},{},{})" [str s.node, str s.schemaName, str s.digest,
      str s.digestText, int s.countStar, int s.sumMs, int s.avgMs, int s.maxMs, int s.firstSeen,
      int s.lastSeen] := by
  rfl

set_option maxRecDepth 8000 in
theorem not_carriesData_slowSnapshotsInsert (server now : Nat) (s : SlowSample)
    (more : List SlowSample) : ¬(Query.slowSnapshotsInsert now s more).CarriesData server := by
  rw [Query.carriesData_iff_readAs, Query.stmt, rows, row_eq, List.append_assoc, List.cons_append,
    ← List.append_assoc]
  have hbefore := append_carries (a := sql ("INSERT INTO slow_digest_snapshots(ts,instance,node," ++
        "schema_name,digest,digest_text,count_star,sum_ms,avg_ms,max_ms,first_seen,last_seen) VALUES ") [])
    .of_template
    (show Carries (sql "({}," [int now]) [] from .of_template)
  exact not_readAs (Bool.and_eq_true_iff.1 hbefore.sound).2

/-- A statement is read as its template, with each argument in its literal, exactly when the arguments
that are not escaped are plain, and the statement is not an insertion of slow statements, in which the
instance stands outside quotes. -/
theorem literals_carry_data_iff (server : Nat) (q : Query) :
    q.CarriesData server ↔ q.PlainArguments := by
  by_cases h : ∀ now s ss, q ≠ .slowSnapshotsInsert now s ss
  · rw [Query.carriesData_iff_plain h]
    cases q with
    | evidenceInsert | slowGovEnsure | userUpsert | alertOpen =>
      simp [Query.bares, Query.PlainArguments]
    | seedAdminUser now uname salt hash =>
      simp [Query.bares, Query.PlainArguments, plain_toHex]
    | slowSnapshotsInsert now s ss => exact absurd rfl (h now s ss)
    | _ => simp [Query.bares, Query.PlainArguments]
  · push Not at h
    obtain ⟨now, s, ss, rfl⟩ := h
    exact iff_of_false (not_carriesData_slowSnapshotsInsert server now s ss) id

/-- A message with a quote in it opens an alert with another statement. -/
theorem alert_changes_statement : ¬∀ (server : Nat) (q : Query), q.CarriesData server := by
  intro hall
  have h := (Query.carriesData_iff_plain (by simp)).1
    (hall 80036 (.alertOpen 5 "db" "replica_broken" "critical" "can't connect"))
  have hplain := h (truncate "can't connect" 480) List.mem_cons_self
  have hmessage : (truncate "can't connect" 480).toList =
      ['c', 'a', 'n', '\'', 't', ' ', 'c', 'o', 'n', 'n', 'e', 'c', 't'] := by decide +kernel
  rw [hmessage] at hplain
  simp [Plain] at hplain

end Rdsctl.Store
