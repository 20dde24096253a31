import Rdsctl.Inst.Reparent

/-!
# Writable masters after a managed switch

What `reparent_core` leaves on the servers. A probe that fails for any reason counts as a dead old
master, which is then not made read-only; a promotion that fails half way is taken back on the old
master only, as writable, whatever it was; and no other node is looked at.
-/

namespace Rdsctl.Inst

open Ha Fallible

/-! ## What the calls do -/

/-- Change a server that runs. -/
def Servers.alter (ss : Servers) (container : String) (f : Server → Server) : Servers :=
  Function.update ss container ((ss container).map f)

namespace Servers

variable (ss : Servers) {c d : String} (f : Server → Server)

theorem alter_self : ss.alter c f c = (ss c).map f := Function.update_self ..

theorem alter_of_ne (h : d ≠ c) : ss.alter c f d = ss d := Function.update_of_ne h ..

theorem isNone_alter (d : String) : (ss.alter c f d).isNone = (ss d).isNone := by
  by_cases h : d = c
  · subst h
    rw [alter_self, Option.isNone_map]
  · rw [alter_of_ne _ _ h]

end Servers

namespace SwitchState

/-- Change a server that runs. -/
def alter (st : SwitchState) (container : String) (f : Server → Server) : SwitchState :=
  { st with servers := st.servers.alter container f }

variable (st : SwitchState) (e : SwitchEnv) {call : SqlCall} {c d : String} {f : Server → Server}

@[simp] theorem alter_manager : (st.alter c f).manager = st.manager := rfl

/-- A call does not change the answers to the others. -/
@[simp] theorem reply_alter : (st.alter c f).reply e call d = st.reply e call d := by
  have hnone : ((st.alter c f).servers d).isNone = (st.servers d).isNone :=
    Servers.isNone_alter _ _ _
  unfold reply
  rw [alter_manager, hnone]

/-- An answer that is not an error comes from a server that runs. -/
theorem isSome_of_reply {u : Unit} (h : st.reply e call c = .ok u) :
    ∃ sv, st.servers c = some sv := by
  unfold reply at h
  rcases hs : st.servers c with _ | sv
  · rw [hs] at h
    split at h <;> cases h
  · exact ⟨sv, rfl⟩

end SwitchState

section

variable {st : SwitchState} {e : SwitchEnv} {call : SqlCall} {c old cand : String}
  {f : Server → Server} {msg : String}

theorem exec_execMysql_ok {u : Unit} (h : st.reply e call c = .ok u) :
    exec (execMysql e call c f) st = (.ok (), st.alter c f) := by
  unfold execMysql
  rw [exec_get_bind, h]
  rfl

theorem exec_execMysql_error (h : st.reply e call c = .error msg) :
    exec (execMysql e call c f) st = (.error msg, st) := by
  unfold execMysql
  rw [exec_get_bind, h]
  rfl

/-- The old master after a promotion that failed. -/
def rolledBack (st : SwitchState) (e : SwitchEnv) (old : String) (oldAlive : Bool) : SwitchState :=
  if oldAlive ∧ (st.reply e .rollback old).isOk then st.alter old (Server.setReadOnly false) else st

theorem exec_promote_ok {u : Unit} {text : String} {oldAlive : Bool}
    {rest : List (SqlCall × String × (Server → Server))} (h : st.reply e call cand = .ok u) :
    exec (promote e old cand oldAlive ((call, text, f) :: rest)) st =
      exec (promote e old cand oldAlive rest) (st.alter cand f) := by
  rw [promote, exec_attempt_bind, exec_execMysql_ok h]

theorem exec_promote_error {text : String} {oldAlive : Bool}
    {rest : List (SqlCall × String × (Server → Server))} (h : st.reply e call cand = .error msg) :
    exec (promote e old cand oldAlive ((call, text, f) :: rest)) st =
      (.error ("提升候选 " ++ cand ++ " 失败(" ++ text ++ "): " ++ msg),
        rolledBack st e old oldAlive) := by
  rw [promote, exec_attempt_bind, exec_execMysql_error h]
  cases oldAlive with
  | false => rfl
  | true =>
    simp only [if_true, exec_ignore_bind, exec_throw, Prod.mk.injEq, true_and]
    unfold rolledBack
    cases hr : st.reply e .rollback old with
    | error msg' => rw [exec_execMysql_error hr]; rfl
    | ok u => rw [exec_execMysql_ok hr]; rfl

/-- The candidate when this statement fails: the ones before it have taken effect. -/
def beforeCall : SqlCall → Server → Server
  | .resetSlave => Server.stopSlave
  | .writable => Server.resetSlave ∘ Server.stopSlave
  | _ => fun s => s

/-- The candidate when it is promoted. -/
def promoted : Server → Server :=
  Server.setReadOnly false ∘ Server.resetSlave ∘ Server.stopSlave

/-- The first statement of a promotion that fails. -/
def failing (st : SwitchState) (e : SwitchEnv) (cand : String) : Option SqlCall :=
  [SqlCall.stopSlave, .resetSlave, .writable].find? fun call => !(st.reply e call cand).isOk

/-- What a promotion does. -/
inductive PromoteTurn (st : SwitchState) (e : SwitchEnv) (old cand : String) (oldAlive : Bool) :
    Except String Unit × SwitchState → Prop
  | failed {call : SqlCall} {msg : String} (hf : failing st e cand = some call) :
      PromoteTurn st e old cand oldAlive
        (.error msg, rolledBack (st.alter cand (beforeCall call)) e old oldAlive)
  | done (hf : failing st e cand = none) :
      PromoteTurn st e old cand oldAlive (.ok (), st.alter cand promoted)

theorem SwitchState.alter_alter (g : Server → Server) :
    (st.alter c f).alter c g = st.alter c (g ∘ f) := by
  unfold SwitchState.alter Servers.alter
  simp only [Function.update_self, Function.update_idem, Option.map_map]

theorem promote_turn (st : SwitchState) (e : SwitchEnv) (old cand : String) (oldAlive : Bool) :
    PromoteTurn st e old cand oldAlive (exec (promote e old cand oldAlive promoteSqls) st) := by
  have hid : st.alter cand (fun s => s) = st := by
    unfold SwitchState.alter Servers.alter
    simp only [Option.map_id', Function.update_eq_self]
  have hbefore : st.alter cand (beforeCall .stopSlave) = st := hid
  unfold promoteSqls
  cases hstop : st.reply e .stopSlave cand with
  | error msg =>
    have hf : failing st e cand = some .stopSlave := by
      simp [failing, hstop, Except.isOk, Except.toBool]
    have hturn (text : String) : PromoteTurn st e old cand oldAlive
        (.error text, rolledBack (st.alter cand (beforeCall .stopSlave)) e old oldAlive) :=
      .failed hf
    rw [exec_promote_error hstop]
    rw [hbefore] at hturn
    exact hturn _
  | ok =>
    rw [exec_promote_ok hstop]
    cases hreset : st.reply e .resetSlave cand with
    | error msg =>
      have hf : failing st e cand = some .resetSlave := by
        simp [failing, hstop, hreset, Except.isOk, Except.toBool]
      rw [exec_promote_error (by rw [SwitchState.reply_alter, hreset])]
      exact .failed hf
    | ok =>
      rw [exec_promote_ok (by rw [SwitchState.reply_alter, hreset]), SwitchState.alter_alter]
      cases hwrite : st.reply e .writable cand with
      | error msg =>
        have hf : failing st e cand = some .writable := by
          simp [failing, hstop, hreset, hwrite, Except.isOk, Except.toBool]
        rw [exec_promote_error (by rw [SwitchState.reply_alter, hwrite])]
        exact .failed hf
      | ok =>
        have hf : failing st e cand = none := by
          simp [failing, hstop, hreset, hwrite, Except.isOk, Except.toBool]
        rw [exec_promote_ok (by rw [SwitchState.reply_alter, hwrite]), SwitchState.alter_alter]
        exact .done hf

/-! ## The whole switch -/

/-- The probe finds the old master. -/
def oldAlive (st : SwitchState) (e : SwitchEnv) (old : String) : Bool := (st.reply e .probe old).isOk

/-- The switch gets as far as the promotion. -/
def Proceeds (st : SwitchState) (e : SwitchEnv) (old cand mode : String) : Prop :=
  cand ≠ old ∧ (oldAlive st e old = false → mode ≠ "planned") ∧
    (oldAlive st e old = true → (st.reply e .readOnly old).isOk = true)

/-- A live old master is made read-only. -/
def halted (st : SwitchState) (e : SwitchEnv) (old : String) : SwitchState :=
  if oldAlive st e old then st.alter old (Server.setReadOnly true) else st

/-- A live old master is attached to the new one, when that works. -/
def attachedTo (st : SwitchState) (e : SwitchEnv) (old cand : String) (alive : Bool) : SwitchState :=
  if alive ∧ (st.reply e .reattach old).isOk then st.alter old (Server.changeMaster cand) else st

/-- The manager with the switch in its registry. -/
def Manager.switched (m : Manager) (name old cand : String) (i : RdsInstance) : Manager :=
  let m := { m with evidence := m.evidence ++ [Evidence.mk name "reparent_snapshot" (some old)] }
  (m.insertInstance name (i.swapRoles old cand)).persist

/-- What a switch does, on an instance whose master is `old`. -/
inductive SwitchTurn (e : SwitchEnv) (st : SwitchState) (name old cand mode : String)
    (i : RdsInstance) : Except String (List String) × SwitchState → Prop
  | early {msg : String} (h : ¬ Proceeds st e old cand mode) :
      SwitchTurn e st name old cand mode i (.error msg, st)
  | failed {call : SqlCall} {msg : String} (h : Proceeds st e old cand mode)
      (hf : failing st e cand = some call) :
      SwitchTurn e st name old cand mode i
        (.error msg,
          rolledBack ((halted st e old).alter cand (beforeCall call)) e old (oldAlive st e old))
  | done {log : List String} {st' : SwitchState} (h : Proceeds st e old cand mode)
      (hf : failing st e cand = none)
      (hs : st'.servers =
        (attachedTo ((halted st e old).alter cand promoted) e old cand (oldAlive st e old)).servers)
      (hm : st'.manager = st.manager.switched name old cand i) :
      SwitchTurn e st name old cand mode i (.ok log, st')

theorem halted_manager : (halted st e old).manager = st.manager := by
  unfold halted
  split <;> rfl

theorem reply_halted : (halted st e old).reply e call c = st.reply e call c := by
  unfold halted
  split
  · exact st.reply_alter e
  · rfl

theorem failing_halted : failing (halted st e old) e cand = failing st e cand := by
  simp only [failing, reply_halted]

theorem exec_registerSwitch {name : String} {i : RdsInstance}
    (hi : st.manager.instances[name]? = some i)
    (hswap : i.nodes.any (·.swaps old cand) = true) :
    exec (registerSwitch name old cand) st =
      (.ok (), { st with manager := st.manager.switched name old cand i }) := by
  unfold registerSwitch onManager
  rw [exec_update_bind, exec_get_bind]
  simp only [hi, exec_update_bind, hswap, Bool.true_eq_false, if_false]
  rfl

/-- What halting the old master does. -/
theorem exec_haltOld_ok (h : oldAlive st e old = true → (st.reply e .readOnly old).isOk = true) :
    exec (haltOld e old (oldAlive st e old)) st = (.ok (), halted st e old) := by
  unfold haltOld halted
  cases hal : oldAlive st e old with
  | false => rfl
  | true =>
    have hok := h hal
    cases hr : st.reply e .readOnly old with
    | error msg => rw [hr] at hok; cases hok
    | ok => rw [if_pos rfl, if_pos rfl, exec_attempt_bind, exec_execMysql_ok hr]; rfl

theorem exec_haltOld_error (hal : oldAlive st e old = true)
    (h : (st.reply e .readOnly old).isOk = false) :
    ∃ msg, exec (haltOld e old (oldAlive st e old)) st = (.error msg, st) := by
  unfold haltOld
  rw [hal, if_pos rfl, exec_attempt_bind]
  cases hr : st.reply e .readOnly old with
  | error msg => exact ⟨_, by rw [exec_execMysql_error hr]; rfl⟩
  | ok => rw [hr] at h; cases h

theorem exec_reattachOld (st : SwitchState) (e : SwitchEnv) (old cand : String) (alive : Bool) :
    ∃ r, exec (reattachOld e old cand alive) st = (.ok r, attachedTo st e old cand alive) := by
  unfold reattachOld attachedTo
  cases alive with
  | false => exact ⟨_, rfl⟩
  | true =>
    cases hr : st.reply e .reattach old with
    | error msg =>
      refine ⟨.error msg, ?_⟩
      rw [if_pos rfl, exec_attempt, exec_execMysql_error hr]
      rfl
    | ok =>
      refine ⟨.ok (), ?_⟩
      rw [if_pos rfl, exec_attempt, exec_execMysql_ok hr]
      rfl

theorem attachedTo_manager (alive : Bool) :
    (attachedTo st e old cand alive).manager = st.manager := by
  unfold attachedTo
  split <;> rfl

theorem switchTo_turn {name mode : String} {i : RdsInstance}
    (hi : st.manager.instances[name]? = some i)
    (hswap : i.nodes.any (·.swaps old cand) = true) :
    SwitchTurn e st name old cand mode i (exec (switchTo e name old cand mode) st) := by
  unfold switchTo
  by_cases hne : cand = old
  · rw [if_pos hne]
    exact .early fun h => h.1 hne
  rw [if_neg hne, exec_get_bind]
  show SwitchTurn e st name old cand mode i
    (exec (if oldAlive st e old = false ∧ mode = "planned" then throw _ else do
      haltOld e old (oldAlive st e old)
      promote e old cand (oldAlive st e old) promoteSqls
      let attached ← reattachOld e old cand (oldAlive st e old)
      registerSwitch name old cand
      pure (switchLog old cand (oldAlive st e old) attached)) st)
  by_cases hplanned : oldAlive st e old = false ∧ mode = "planned"
  · rw [if_pos hplanned]
    exact .early fun h => h.2.1 hplanned.1 hplanned.2
  rw [if_neg hplanned]
  by_cases hhalt : oldAlive st e old = true → (st.reply e .readOnly old).isOk = true
  · have hproceeds : Proceeds st e old cand mode :=
      ⟨hne, fun hal hmode => hplanned ⟨hal, hmode⟩, hhalt⟩
    have hfail : failing (halted st e old) e cand = failing st e cand := failing_halted
    rw [exec_bind_ok (exec_haltOld_ok hhalt)]
    have hturn := promote_turn (halted st e old) e old cand (oldAlive st e old)
    generalize hr : exec (promote e old cand (oldAlive st e old) promoteSqls) (halted st e old) = r
      at hturn
    cases hturn with
    | failed hf =>
      rw [exec_bind_error hr]
      exact .failed hproceeds (hfail ▸ hf)
    | done hf =>
      rw [exec_bind_ok hr]
      have hman : ∀ alive, (attachedTo ((halted st e old).alter cand promoted) e old cand
          alive).manager = st.manager := by
        intro alive
        rw [attachedTo_manager, SwitchState.alter_manager, halted_manager]
      obtain ⟨attached, hatt⟩ := exec_reattachOld ((halted st e old).alter cand promoted) e old cand
        (oldAlive st e old)
      rw [exec_bind_ok hatt, exec_bind_ok (exec_registerSwitch (by rw [hman]; exact hi) hswap)]
      exact .done hproceeds (hfail ▸ hf) rfl (by rw [hman])
  · obtain ⟨hal, hno⟩ := Classical.not_imp.1 hhalt
    obtain ⟨msg, herr⟩ := exec_haltOld_error hal (Bool.eq_false_iff.2 hno)
    rw [exec_bind_error herr]
    exact .early fun h => hhalt h.2.2

/-! ## What is left on the servers -/

theorem halted_servers (st : SwitchState) (e : SwitchEnv) (old c : String) :
    (halted st e old).servers c = if oldAlive st e old = true ∧ c = old then
      (st.servers c).map (Server.setReadOnly true) else st.servers c := by
  unfold halted
  cases hal : oldAlive st e old with
  | false => rfl
  | true =>
    by_cases hc : c = old
    · subst hc
      simp only [if_true, true_and]
      exact Servers.alter_self _ _
    · rw [if_pos rfl, if_neg fun h => hc h.2]
      exact Servers.alter_of_ne _ _ hc

theorem rolledBack_servers_of_ne (alive : Bool) (hc : c ≠ old) :
    (rolledBack st e old alive).servers c = st.servers c := by
  unfold rolledBack
  split
  · exact Servers.alter_of_ne _ _ hc
  · rfl

/-- Whether servers are read-only after a switch that succeeds. -/
theorem readOnly_done {st' : SwitchState} (hne : cand ≠ old)
    (hs : st'.servers =
      (attachedTo ((halted st e old).alter cand promoted) e old cand (oldAlive st e old)).servers)
    (hc : c ≠ cand) :
    (st'.servers c).map (·.readOnly) =
      if oldAlive st e old = true ∧ c = old then (st.servers c).map fun _ => true
      else (st.servers c).map (·.readOnly) := by
  have hattached : ((attachedTo ((halted st e old).alter cand promoted) e old cand
      (oldAlive st e old)).servers c).map (·.readOnly) =
        ((halted st e old).servers c).map (·.readOnly) := by
    have hself : ((halted st e old).alter cand promoted).servers c = (halted st e old).servers c :=
      Servers.alter_of_ne _ _ hc
    unfold attachedTo
    split
    · by_cases hold : c = old
      · subst hold
        rw [← hself]
        show ((((halted st e c).alter cand promoted).servers.alter c _) c).map _ = _
        rw [Servers.alter_self, Option.map_map]
        rfl
      · rw [← hself]
        exact congrArg (Option.map (·.readOnly)) (Servers.alter_of_ne _ _ hold)
    · rw [hself]
  rw [hs, hattached, halted_servers]
  split
  · rw [Option.map_map]
    rfl
  · rfl

/-- The candidate after a switch that succeeds. -/
theorem candidate_done {st' : SwitchState} (hne : cand ≠ old) (hf : failing st e cand = none)
    (hs : st'.servers =
      (attachedTo ((halted st e old).alter cand promoted) e old cand (oldAlive st e old)).servers) :
    ∃ sv, st'.servers cand = some sv ∧ sv.readOnly = false := by
  have hreply : (st.reply e .writable cand).isOk = true := by
    simpa using List.find?_eq_none.1 hf .writable (by simp)
  have hcand : st'.servers cand = (st.servers cand).map promoted := by
    have hself : ((halted st e old).alter cand promoted).servers cand =
        ((halted st e old).servers cand).map promoted := Servers.alter_self _ _
    rw [hs]
    unfold attachedTo
    split
    · rw [show ((((halted st e old).alter cand promoted).alter old _).servers cand) = _ from
        Servers.alter_of_ne _ _ hne, hself, halted_servers, if_neg fun h => hne h.2]
    · rw [hself, halted_servers, if_neg fun h => hne h.2]
  cases hr : st.reply e .writable cand with
  | error msg => rw [hr] at hreply; cases hreply
  | ok =>
    obtain ⟨sv, hsv⟩ := st.isSome_of_reply e hr
    exact ⟨promoted sv, by rw [hcand, hsv, Option.map_some], rfl⟩

/-- The old master after a promotion that failed. -/
theorem readOnly_failed {call : SqlCall} (hne : cand ≠ old) :
    ((rolledBack ((halted st e old).alter cand (beforeCall call)) e old
        (oldAlive st e old)).servers old).map (·.readOnly) =
      if oldAlive st e old = true then
        (st.servers old).map fun _ => !(st.reply e .rollback old).isOk
      else (st.servers old).map (·.readOnly) := by
  have hbefore : ((halted st e old).alter cand (beforeCall call)).servers old =
      (halted st e old).servers old := Servers.alter_of_ne _ _ hne.symm
  unfold rolledBack
  rw [SwitchState.reply_alter, reply_halted]
  cases hal : oldAlive st e old with
  | false =>
    rw [if_neg (by simp), if_neg (by simp), hbefore, halted_servers, if_neg (by simp [hal])]
  | true =>
    have hhalted : (halted st e old).servers old =
        (st.servers old).map (Server.setReadOnly true) := by
      rw [halted_servers, if_pos ⟨hal, rfl⟩]
    cases hr : (st.reply e .rollback old).isOk with
    | false =>
      rw [if_neg (by simp), if_pos rfl, hbefore, hhalted, Option.map_map]
      rfl
    | true =>
      rw [if_pos ⟨rfl, rfl⟩, if_pos rfl]
      show ((((halted st e old).alter cand (beforeCall call)).servers.alter old _) old).map _ = _
      rw [Servers.alter_self, hbefore, hhalted, Option.map_map, Option.map_map]
      rfl

/-- The candidate after a promotion that failed. -/
theorem replication_failed {call : SqlCall} (hne : cand ≠ old) :
    (rolledBack ((halted st e old).alter cand (beforeCall call)) e old
        (oldAlive st e old)).servers cand = (st.servers cand).map (beforeCall call) := by
  rw [rolledBack_servers_of_ne _ hne]
  show ((halted st e old).servers.alter cand _) cand = _
  rw [Servers.alter_self, halted_servers, if_neg fun h => hne h.2]

/-! ## One writable master -/

/-- When the switch succeeds, exactly the candidate is writable among the nodes whose servers run.
When it fails, the old master is as writable as before, and the candidate replicates as before. -/
def SwitchSafe (e : SwitchEnv) (st : SwitchState) (name : String) (target : Option String)
    (r : Except String (List String) × SwitchState) : Prop :=
  ∀ i m cand, st.manager.instances[name]? = some i → i.master = some m →
    chooseCandidate name i.itype e.facts target = .ok cand →
    match r with
    | (.ok _, st') => (∃ sv, st'.servers cand = some sv ∧ sv.readOnly = false) ∧
        ∀ n ∈ i.nodes, ∀ sv, st'.servers n.container = some sv → sv.readOnly = false →
          n.container = cand
    | (.error _, st') =>
        (st'.servers m.container).map (·.readOnly) = (st.servers m.container).map (·.readOnly) ∧
        (st'.servers cand).map (·.replication) = (st.servers cand).map (·.replication)

/-- A statement of the promotion can fail without a trace on the candidate. -/
def Traceless : SqlCall → Server → Prop
  | .resetSlave, sv => ∀ r, sv.replication = some r → r.running = false
  | .writable, sv => sv.replication = none
  | _, _ => True

/-- If the promotion succeeds, the nodes other than the candidate that run are read-only, except for
an old master that the probe found. If it fails, an old master that the probe found was writable
when it is made writable again, and read-only when that fails, and the statements that had taken
effect found nothing to change. -/
def OneWritable (e : SwitchEnv) (st : SwitchState) (name : String) (target : Option String)
    (mode : String) : Prop :=
  ∀ i m cand, st.manager.instances[name]? = some i → i.master = some m →
    chooseCandidate name i.itype e.facts target = .ok cand →
    Proceeds st e m.container cand mode →
    match failing st e cand with
    | none => ∀ n ∈ i.nodes, n.container ≠ cand → ∀ sv, st.servers n.container = some sv →
        sv.readOnly = true ∨ (oldAlive st e m.container = true ∧ n.container = m.container)
    | some call => (oldAlive st e m.container = true → ∀ sv, st.servers m.container = some sv →
          sv.readOnly = !(st.reply e .rollback m.container).isOk) ∧
        ∀ sv, st.servers cand = some sv → Traceless call sv

theorem beforeCall_traceless {call : SqlCall} {sv : Server} :
    (beforeCall call sv).replication = sv.replication ↔ Traceless call sv := by
  obtain ⟨readOnly, replication⟩ := sv
  cases call with
  | resetSlave =>
    cases replication with
    | none => exact iff_of_true rfl nofun
    | some r =>
      obtain ⟨source, running⟩ := r
      constructor
      · rintro h r ⟨⟩
        exact (Replication.mk.inj (Option.some.inj h)).2.symm
      · intro h
        have hrunning : running = false := h _ rfl
        subst hrunning
        rfl
  | writable => exact eq_comm
  | _ => exact iff_of_true rfl trivial

/-- The master of a record is swapped. -/
theorem swaps_master {i : RdsInstance} {m : InstNode} (h : i.master = some m) (cand : String) :
    i.nodes.any (·.swaps m.container cand) = true := by
  have hrole : m.role = .master := by simpa using List.find?_some h
  refine List.any_eq_true.2 ⟨m, List.mem_of_find?_eq_some h, ?_⟩
  simp [InstNode.swaps, hrole]

theorem exec_reparentCore {name mode : String} {target : Option String} {i : RdsInstance}
    {m : InstNode} (hi : st.manager.instances[name]? = some i) (hm : i.master = some m)
    (hcand : chooseCandidate name i.itype e.facts target = .ok cand) :
    exec (reparentCore e name target mode) st = exec (switchTo e name m.container cand mode) st := by
  unfold reparentCore
  rw [exec_get_bind]
  simp only [hi, hm, hcand]

theorem map_eq_map_const {α β : Type} {o : Option α} {g : α → β} {b : β} :
    (o.map fun _ => b) = o.map g ↔ ∀ a, o = some a → g a = b := by
  cases o with
  | none => simp
  | some a => simp [eq_comm]

/-- **One writable master.** A managed switch leaves exactly one writable master, or fails and
leaves the old one as it was, exactly in the circumstances of `OneWritable`. -/
theorem switchSafe_iff (e : SwitchEnv) (st : SwitchState) (name : String) (target : Option String)
    (mode : String) :
    SwitchSafe e st name target (exec (reparentCore e name target mode) st) ↔
      OneWritable e st name target mode := by
  refine forall_congr' fun i => forall_congr' fun m => forall_congr' fun cand =>
    forall_congr' fun hi => forall_congr' fun hm => forall_congr' fun hcand => ?_
  rw [exec_reparentCore hi hm hcand]
  have hturn : SwitchTurn e st name m.container cand mode i _ :=
    switchTo_turn hi (swaps_master hm cand)
  generalize exec (switchTo e name m.container cand mode) st = r at hturn ⊢
  cases hturn with
  | early h => exact iff_of_true ⟨rfl, rfl⟩ fun hp => absurd hp h
  | @failed call msg h hf =>
    simp only [hf, h, true_implies]
    refine and_congr ?_ ?_
    · rw [readOnly_failed h.1]
      cases hal : oldAlive st e m.container with
      | false => exact iff_of_true rfl nofun
      | true =>
        rw [if_pos rfl, map_eq_map_const]
        exact ⟨fun hall _ => hall, fun hall => hall rfl⟩
    · rw [replication_failed h.1, Option.map_map]
      cases hsv : st.servers cand with
      | none => exact iff_of_true rfl nofun
      | some sv =>
        rw [Option.map_some, Option.map_some, Option.some.injEq]
        exact beforeCall_traceless.trans ⟨fun ht _ hx => Option.some.inj hx ▸ ht, fun ht => ht sv rfl⟩
  | @done log st' h hf hs hman =>
    simp only [hf, h, true_implies]
    rw [and_iff_right (candidate_done h.1 hf hs)]
    refine forall_congr' fun n => forall_congr' fun _ => ?_
    by_cases hc : n.container = cand
    · exact iff_of_true (fun _ _ _ => hc) fun hne => absurd hc hne
    have hmap := readOnly_done h.1 hs hc
    by_cases hold : oldAlive st e m.container = true ∧ n.container = m.container
    · refine iff_of_true (fun sv hsv hw => ?_) fun _ _ _ => .inr hold
      rw [if_pos hold, hsv, Option.map_some, hw] at hmap
      obtain ⟨_, -, htrue⟩ := Option.map_eq_some_iff.1 hmap.symm
      cases htrue
    · rw [if_neg hold] at hmap
      constructor
      · intro hall _ sv hsv
        refine .inl ?_
        rw [hsv, Option.map_some] at hmap
        obtain ⟨sv', hsv', hsame⟩ := Option.map_eq_some_iff.1 hmap
        cases hro : sv.readOnly with
        | true => rfl
        | false => exact absurd (hall sv' hsv' (hsame.trans hro)) hc
      · intro hall sv' hsv' hw
        rw [hsv', Option.map_some] at hmap
        obtain ⟨sv, hsv, hsame⟩ := Option.map_eq_some_iff.1 hmap.symm
        rcases hall hc sv hsv with hro | h'
        · rw [hw, hro] at hsame
          cases hsame
        · exact absurd h' hold

end

/-- A manager with a running instance of a master and two slaves, on one machine. -/
def serving : SwitchState where
  manager := Submission.created
  servers := fun c =>
    if c = "rds-db-master" then some ⟨false, none⟩
    else if c = "rds-db-slave-1" ∨ c = "rds-db-slave-2" then
      some ⟨true, some ⟨"rds-db-master", true⟩⟩
    else none

/-- Every call is answered, but the probe. -/
def unprobed : SwitchEnv where
  replies := fun call => if call = .probe then .error "timeout" else .ok ()
  downText := "Error"
  facts := []

/-- The probe of a live master times out, so that two masters are writable. -/
theorem switch_unsafe : ¬ ∀ e st name target mode,
    SwitchSafe e st name target (exec (reparentCore e name target mode) st) := by
  intro hall
  have hsafe := hall unprobed serving "db" (some "rds-db-slave-1") "auto"
  have hfound : (serving.manager.instances["db"]?).bind (fun i => i.master.map fun m =>
      (m.container, i.nodes.any (·.container = "rds-db-master"))) = some ("rds-db-master", true) := by
    decide +kernel
  obtain ⟨i, hi, hmaster⟩ := Option.bind_eq_some_iff.1 hfound
  obtain ⟨m, hm, hnodes⟩ := Option.map_eq_some_iff.1 hmaster
  obtain ⟨n, hn, hcontainer⟩ := List.any_eq_true.1 (Prod.mk.inj hnodes).2
  have hone := hsafe i m "rds-db-slave-1" hi hm rfl
  have hrun : ((exec (reparentCore unprobed "db" (some "rds-db-slave-1") "auto") serving).1.isOk,
      ((exec (reparentCore unprobed "db" (some "rds-db-slave-1") "auto") serving).2.servers
        "rds-db-master").map (·.readOnly)) = (true, some false) := by decide +kernel
  generalize exec (reparentCore unprobed "db" (some "rds-db-slave-1") "auto") serving = r at hone hrun
  obtain ⟨out, st'⟩ := r
  obtain ⟨hout, hwritable⟩ := Prod.mk.inj hrun
  cases out with
  | error msg => cases hout
  | ok log =>
    obtain ⟨sv, hsv, hro⟩ := Option.map_eq_some_iff.1 hwritable
    have hc : n.container = "rds-db-master" := by simpa using hcontainer
    have hcand := hone.2 n hn sv (by rw [hc]; exact hsv) hro
    rw [hc] at hcand
    revert hcand
    decide

end Rdsctl.Inst
