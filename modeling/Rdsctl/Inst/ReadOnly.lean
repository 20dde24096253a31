import Rdsctl.Inst.Topologies

/-!
# Containers that start read-only

`mysql_args` makes a container read-only unless its server id is one modulo ten. Every container that
is started for a node has the arguments of its role, in every run in which the server ids that are
drawn, planned and counted on have the residues that `mysql_args` takes them to have.
-/

namespace Rdsctl.Inst

open Ha Dag Topology Pieces

/-! ## Arguments -/

theorem mysqlArgs_inj {p p' : Process} {n n' : String} {hp hp' : Option Nat} {sid sid' : Nat}
    {extra extra' : List String} (h : mysqlArgs p n hp sid extra = mysqlArgs p' n' hp' sid' extra') :
    mysqldArgs sid extra = mysqldArgs sid' extra' := by
  unfold mysqlArgs at h
  cases hp with
  | none =>
    cases hp' with
    | none =>
      simp only [List.cons_append, List.nil_append, List.append_nil, List.cons.injEq] at h
      exact h.2.2.2.2.2.2.2
    | some q' =>
      simp only [List.cons_append, List.nil_append, List.append_nil, List.cons.injEq] at h
      exact absurd h.2.2.1 (by decide)
  | some q =>
    cases hp' with
    | none =>
      simp only [List.cons_append, List.nil_append, List.append_nil, List.cons.injEq] at h
      exact absurd h.2.2.1 (by decide)
    | some q' =>
      simp only [List.cons_append, List.nil_append, List.cons.injEq] at h
      exact h.2.2.2.2.2.2.2.2.2

theorem mysqlArgs_ne_xenonNodeArgs {p p' : Process} {n n' node peers role : String}
    {hp : Option Nat} {sid port rpc : Nat} {extra : List String} :
    xenonNodeArgs p' n' node peers role port rpc ≠ mysqlArgs p n hp sid extra := by
  intro h
  unfold mysqlArgs xenonNodeArgs at h
  cases hp with
  | none =>
    simp only [List.cons_append, List.nil_append, List.append_nil, List.cons.injEq] at h
    exact absurd h.2.2.1 (by decide)
  | some q =>
    simp only [List.cons_append, List.nil_append, List.cons.injEq] at h
    exact absurd h.2.2.1 (by decide)

theorem mysqlArgs_ne_proxyArgs {p p' : Process} {name n n' : String} {proxy : ProxyNode}
    {hp : Option Nat} {sid : Nat} {extra : List String} :
    proxyArgs p' name n' proxy ≠ mysqlArgs p n hp sid extra := by
  intro h
  unfold mysqlArgs proxyArgs at h
  cases hp with
  | none =>
    simp only [List.cons_append, List.nil_append, List.append_nil, List.cons.injEq] at h
    exact absurd h.2.2.1 (by decide)
  | some q =>
    simp only [List.cons_append, List.nil_append, List.cons.injEq] at h
    exact absurd h.2.2.2.2.1 (by decide)

/-- Only the server id decides, if nothing else asks for it. -/
theorem readOnly_mem {sid : Nat} {extra : List String} (h : "--read-only=1" ∉ extra) :
    "--read-only=1" ∈ mysqldArgs sid extra ↔ sid % 10 ≠ 1 := by
  unfold mysqldArgs
  have hid : "--read-only=1" ≠ toString sid := toString_ne (c := '-') (by decide) rfl
  split <;> simp_all

/-- A container has the arguments of its role. -/
def Start.MatchesRole (st : Start) : Prop :=
  ∀ p network hostPort sid extra, st.args = mysqlArgs p network hostPort sid extra →
    ("--read-only=1" ∈ mysqldArgs sid extra ↔ st.master = false)

theorem Start.matchesRole_mysqlArgs {master : Bool} {p : Process} {network : String}
    {hostPort : Option Nat} {sid : Nat} {extra : List String} (hextra : "--read-only=1" ∉ extra)
    (h : master = true ↔ sid % 10 = 1) :
    (Start.mk master (mysqlArgs p network hostPort sid extra)).MatchesRole := by
  intro p' network' hostPort' sid' extra' heq
  rw [← mysqlArgs_inj heq, readOnly_mem hextra, ne_eq, ← h, Bool.not_eq_true]

theorem slaveRoles_ne_master (itype : String) : ∀ role ∈ slaveRoles itype, role ≠ .master := by
  rcases slaveRoles_cases itype with hr | hr | hr <;> rw [hr] <;> decide

/-- The server ids of a creation tell the masters. -/
theorem Planned.roles {s : Surroundings} {sid : Nat} {name : String} {o : CreateOpts}
    {plan : RdsInstance × List (TaskNode Step)} (h : Planned s sid name o plan)
    (hx : o.itype ≠ "xenon") (hsid : sid % 10 = 1) :
    ∀ n ∈ plan.1.nodes, n.role = .master ↔ n.serverId % 10 = 1 := by
  cases h with
  | xenon hno => exact absurd hno hx
  | @multi ports _ hm =>
    intro n hn
    obtain ⟨l, hl, hn⟩ := List.mem_flatten.1 hn
    obtain ⟨j, hj, rfl⟩ := List.mem_mapIdx.1 hl
    obtain ⟨k, -, hg⟩ := List.mem_map.1 (List.getElem_mem hj)
    rw [← hg] at hn
    simp only [MultiGroup.nodes, multiGroup] at hn
    by_cases hasync : o.itype = "async"
    · simp only [hasync, if_true, List.cons_append, List.nil_append, List.mem_cons,
        List.not_mem_nil, or_false] at hn
      rcases hn with rfl | rfl | rfl
      · exact iff_of_true rfl (by simp only [freshNode]; omega)
      · exact iff_of_false nofun (by simp only [freshNode]; omega)
      · exact iff_of_false nofun (by simp only [freshNode]; omega)
    · simp only [hasync, if_false, List.append_nil, List.mem_cons, List.not_mem_nil,
        or_false] at hn
      rcases hn with rfl | rfl
      · exact iff_of_true rfl (by simp only [freshNode]; omega)
      · exact iff_of_false nofun (by simp only [freshNode]; omega)
  | @single ports _ hm =>
    intro n hn
    rcases List.mem_cons.1 hn with rfl | hn
    · exact iff_of_true rfl hsid
    · obtain ⟨k, hk, rfl⟩ := List.mem_mapIdx.1 hn
      have htwo : (slaveRoles o.itype).length ≤ 2 := by
        rcases slaveRoles_cases o.itype with hr | hr | hr <;> rw [hr] <;> decide
      exact iff_of_false (slaveRoles_ne_master _ _ (List.getElem_mem hk))
        (by simp only [freshNode]; omega)

/-- The topology says that this container is a master. -/
def Topology.recordsMaster (t : Topology) (container : String) : Bool :=
  (t.members.find? (·.container = container)).any (·.isMaster)

/-- A node that joins is no master, and others stay what they are. -/
theorem Topology.recordsMaster_join {t : Topology} {m : Member} {role : String}
    (hslave : m.isMaster = false) (container : String) :
    (t.join m role).recordsMaster container = t.recordsMaster container := by
  unfold recordsMaster
  show ((t.members ++ [m]).find? _).any _ = _
  rw [List.find?_append]
  cases t.members.find? (·.container = container) with
  | some n => rfl
  | none =>
    rw [Option.none_or, List.find?_singleton]
    split
    · exact hslave
    · rfl

/-- A member of a topology whose containers are different. -/
theorem Topology.recordsMaster_of_mem {t : Topology} (hn : Named t) {m : Member}
    (hm : m ∈ t.members) : t.recordsMaster m.container = m.isMaster := by
  obtain ⟨n, hfind⟩ : ∃ n, t.members.find? (·.container = m.container) = some n :=
    Option.isSome_iff_exists.1 (List.find?_isSome.2 ⟨m, hm, by simp⟩)
  have hc : n.container = m.container := by simpa using List.find?_some hfind
  have hsame : n = m := eq_of_nodup_map hn.nodup (List.mem_of_find?_eq_some hfind) hm hc
  rw [recordsMaster, hfind, hsame]
  rfl

theorem Topology.recordsMaster_of_notMem {t : Topology} {container : String}
    (h : container ∉ t.members.map (·.container)) : t.recordsMaster container = false := by
  unfold recordsMaster
  rw [List.find?_eq_none.2 fun m hm heq => h ?_]
  · rfl
  · exact List.mem_map.2 ⟨m, hm, of_decide_eq_true heq⟩

namespace Registry

/-- The server ids have the residues that `mysql_args` takes them to have, and names stay orderly. -/
def startsFit (r : Registry) : RegistryEvent → Bool
  | .call (.create _ o) _ => o.itype = "xenon" ∨ r.manager.nextServerId % 10 = 1
  | .call (.scaleoutOpt name _ _ _ shard) _ =>
    (r.manager.instances[name]?).all fun i => (i.shards = [] ∨ 1 < masterCnt i) ∧
      (scaleoutSource i shard).all fun n => scaleoutSid i n % 10 ≠ 1
  | .call (.replaceNode inst _ _) _ =>
    (r.manager.instances[trimmed inst]?).all fun i => i.maxServerId % 10 ≠ 0
  | .perform _ (.updateInstanceTopology ..) => !r.joined
  | .move _ node _ _ starts _ =>
    starts = false ∨ r.manager.work.all fun w => (r.manager.instances[w.inst]?).all fun i =>
      r.manager.recordsMaster w.inst node ↔ i.maxServerId % 10 = 0
  | _ => true

/-- What work starts has the arguments of its role. -/
structure StartsWell (recordsMaster : String → String → Bool) (w : Work) : Prop where
  run : ∀ {container : String} {args : List String}, .dockerRun container args ∈ w.steps →
    (Start.mk (recordsMaster w.inst container) args).MatchesRole
  replace : ∀ {inst node host : String} {hostPort sid : Nat},
    .replaceNodeCore inst node host hostPort sid ∈ w.steps →
    recordsMaster inst node = false ∧ sid % 10 ≠ 1

/-- What was started has the arguments of its role, and what the work at hand starts. -/
structure Started (r : Registry) : Prop where
  tidy : Tidy r
  started : ∀ st ∈ r.started, st.MatchesRole
  work : ∀ w ∈ r.manager.work, StartsWell r.manager.recordsMaster w

section

variable {r r' : Registry} {ev : RegistryEvent} {m : Manager} {i : RdsInstance}

theorem recordsMaster_eq (m : Manager) (inst container : String) :
    m.recordsMaster inst container =
      (m.topologyOf inst).any fun t => t.recordsMaster container := by
  unfold Manager.recordsMaster Topology.recordsMaster
  rw [topologyOf_eq]
  cases m.instances[inst]? with
  | none => rfl
  | some i =>
    simp only [Option.map_some, Option.any_some, RdsInstance.topology, List.find?_map,
      Option.any_map]
    rfl

theorem recordsMaster_congr {m' : Manager} (h : m'.topologyOf = m.topologyOf) :
    m'.recordsMaster = m.recordsMaster := by
  funext inst container
  rw [recordsMaster_eq, recordsMaster_eq, h]

/-- A step that leaves who is a master. -/
theorem Started.keep (h : Started r) (ht : Tidy r') (hstarted : ∀ st ∈ r'.started, st.MatchesRole)
    (hsame : r'.manager.recordsMaster = r.manager.recordsMaster)
    (hwork : ∀ w ∈ r'.manager.work, w ∈ r.manager.work) : Started r' :=
  ⟨ht, hstarted, fun w hw => hsame ▸ h.work w (hwork w hw)⟩

theorem mem_start {inst container : String} {args : List String} (h : ∀ st ∈ r.started, st.MatchesRole)
    (hnew : (Start.mk (r.manager.recordsMaster inst container) args).MatchesRole) :
    ∀ st ∈ (r.start inst container args).started, st.MatchesRole :=
  List.forall_mem_append.2 ⟨h, List.forall_mem_singleton.2 hnew⟩

/-- A node that is replaced is no master. -/
theorem replaceCheck_slave {name node host : String} (h : replaceCheck name node host m = .ok i) :
    m.recordsMaster name node = false := by
  have hi := (Submission.replaceCheck_ok h).1
  unfold replaceCheck at h
  split at h
  · cases h
  obtain ⟨j, hstate, h⟩ := Submission.bind_eq_ok h
  obtain ⟨u, hnode, -⟩ := Submission.bind_eq_ok h
  have hsame : j = i := by
    rw [(Submission.assertState_ok hstate).1] at hi
    exact Option.some.inj hi
  subst hsame
  unfold Manager.recordsMaster
  rw [hi]
  unfold replaceable at hnode
  obtain ⟨-, hnode⟩ := Submission.check_eq_ok hnode
  obtain ⟨-, hnode⟩ := Submission.check_eq_ok hnode
  rcases hn : j.nodes.find? (·.container = node) with _ | n
  · rw [hn] at hnode
    cases hnode
  · rw [hn] at hnode
    simp only [] at hnode
    split at hnode
    · cases hnode
    · next hrole =>
      rw [Option.any_some, hn]
      exact decide_eq_false hrole

theorem orderly_of_startsFit (hg : r.startsFit ev = true) : r.orderly ev = true := by
  cases ev with
  | call e s =>
    cases e with
    | scaleoutOpt name role region az shard =>
      have hall : ((r.manager.instances[name]?).all fun i => (i.shards = [] ∨ 1 < masterCnt i) ∧
        (scaleoutSource i shard).all fun n => scaleoutSid i n % 10 ≠ 1) = true := hg
      show (r.manager.instances[name]?).all (fun i => i.shards = [] ∨ 1 < masterCnt i) = true
      cases hi : r.manager.instances[name]? with
      | none => rfl
      | some i =>
        rw [hi] at hall
        exact decide_eq_true (of_decide_eq_true hall).1
    | _ => rfl
  | perform p step =>
    cases step with
    | updateInstanceTopology => exact hg
    | _ => rfl
  | _ => rfl

/-- What the work of a creation starts. -/
theorem startsWell_created {s : Surroundings} {sid : Nat} {n id : String} {o : CreateOpts}
    {plan : RdsInstance × List (TaskNode Step)} (hplan : Planned s sid n o plan)
    (hsid : o.itype = "xenon" ∨ sid % 10 = 1) (hget : m.topologyOf n = some plan.1.topology) :
    StartsWell m.recordsMaster (.task id "create" n (createGraph n o plan.1 plan.2) .task) where
  run := by
    intro container args hstep
    obtain ⟨node, hnode, hstep⟩ := Work.mem_steps.1 hstep
    cases hplan.steps node hnode _ hstep with
    | @node nd p network hostPort extra hx hn hextra =>
      have hitype : plan.1.itype = o.itype := by
        cases hplan with
        | xenon hxenon hb => exact absurd (by simpa [RdsInstance.topology] using (buildXenonInst_ok hb).2.1) hx
        | multi => rfl
        | single => rfl
      rw [hitype] at hx
      have hrole := hplan.roles hx (hsid.resolve_left hx) nd hn
      refine Start.matchesRole_mysqlArgs hextra ?_
      have hmem : nd.member ∈ plan.1.topology.members := List.mem_map_of_mem hn
      have hmaster : m.recordsMaster n nd.container = nd.member.isMaster := by
        rw [recordsMaster_eq, hget]
        exact recordsMaster_of_mem (named_created hplan) hmem
      show m.recordsMaster n nd.container = true ↔ _
      rw [hmaster, Member.isMaster_iff]
      exact hrole
    | raft => exact fun _ _ _ _ _ heq => absurd heq mysqlArgs_ne_xenonNodeArgs
    | proxy => exact fun _ _ _ _ _ heq => absurd heq mysqlArgs_ne_proxyArgs
    | other h => cases h
  replace := by
    intro inst node host hostPort sid hstep
    obtain ⟨nd, hnode, hstep⟩ := Work.mem_steps.1 hstep
    cases hplan.steps nd hnode _ hstep with
    | other h => cases h

/-- What work starts that a call hands out. -/
theorem Tidy.startsWell (h : Tidy r) {e : Entry} {s : Surroundings} {w : Work}
    (hg : r.startsFit (.call e s) = true) (hh : Hands s r.manager e w) :
    StartsWell r.manager.recordsMaster w where
  run := by
    intro container args hstep
    have hop := hh.steps h.sound _ hstep
    generalize hname : w.inst = name at hop
    cases hop with
    | other hkeeps => cases hkeeps
    | @slave name role region az shard i plan hc =>
      have hi := (Submission.scaleoutCheck_ok hc).1
      have hall : ((r.manager.instances[name]?).all fun i => (i.shards = [] ∨ 1 < masterCnt i) ∧
        (scaleoutSource i shard).all fun n => scaleoutSid i n % 10 ≠ 1) = true := hg
      rw [hi] at hall
      obtain ⟨hmasters, hresidue⟩ := of_decide_eq_true hall
      obtain ⟨hadmits, -, n, hn, hsid, -⟩ := h.admits hc hmasters
      rw [hn, Option.all_some, ← hsid] at hresidue
      have hslave : r.manager.recordsMaster name plan.container = false := by
        rw [recordsMaster_eq, topologyOf_of_get hi]
        exact recordsMaster_of_notMem ((h.named _ _ (topologyOf_of_get hi)).fresh hadmits)
      rw [hslave]
      exact Start.matchesRole_mysqlArgs nofun (iff_of_false nofun (of_decide_eq_true hresidue))
  replace := by
    intro inst node host hostPort sid hstep
    have hop := hh.steps h.sound _ hstep
    generalize hname : w.inst = name at hop
    cases hop with
    | other hkeeps => cases hkeeps
    | @core inst' node' host' i hc =>
      have hi := (Submission.replaceCheck_ok hc).1
      rw [h.sound.named _ _ hi]
      refine ⟨replaceCheck_slave hc, ?_⟩
      have hall : ((r.manager.instances[trimmed inst']?).all fun i => i.maxServerId % 10 ≠ 0) =
        true := hg
      rw [hi] at hall
      have hmax : i.maxServerId % 10 ≠ 0 := of_decide_eq_true hall
      omega

/-- A call starts nothing, and hands out work that starts containers well. -/
theorem Started.called (h : Started r) (hidle : r.manager.work = []) {e : Entry} {s : Surroundings}
    (hg : r.startsFit (.call e s) = true) (hturn : CallTurn s r.manager e m)
    (ht : Tidy ⟨m, r.started, false⟩) : Started ⟨m, r.started, false⟩ := by
  refine ⟨ht, h.started, fun w (hw' : w ∈ m.work) => ?_⟩
  cases hturn with
  | kept hi hp hw =>
    rw [hw, hidle] at hw'
    cases hw'
  | handed hh hrecords hsound hw =>
    rw [hw, hidle, List.nil_append, List.mem_singleton] at hw'
    subst hw'
    show StartsWell m.recordsMaster _
    rw [recordsMaster_congr (topologyOf_congr hrecords)]
    exact h.tidy.startsWell hg hh
  | @created name n o i dag _ id he hc hplan hi hp hw =>
    subst he
    rw [hw, hidle, List.nil_append, List.mem_singleton] at hw'
    subst hw'
    refine startsWell_created hplan (of_decide_eq_true hg) ?_
    rw [topologyOf_eq, hi, BTreeMap.getElem?_insert_ite, if_pos rfl]
    rfl

/-- Every step whose server ids have their residues keeps what is started well. -/
theorem Started.step (h : Started r) (hg : r.startsFit ev = true) (hs : r.step ev = some r') :
    Started r' := by
  have ht : Tidy r' := h.tidy.step (orderly_of_startsFit hg) hs
  cases (step_turn h.tidy.sound hs).1 with
  | called hidle hcall => exact h.called hidle hg hcall ht
  | quiet hrecords hstarted hjoined hwork =>
    exact h.keep ht (hstarted ▸ h.started) (recordsMaster_congr (topologyOf_congr hrecords)) hwork
  | @marked _ r' w inst status i hw hmark hi hset hstarted hjoined hwork =>
    exact h.keep ht (hstarted ▸ h.started)
      (recordsMaster_congr (hset.same hi (i.topology_withStatus status))) hwork
  | @started p w container args hw hstep =>
    have hwell := (h.work w (by rw [hw]; exact .head _)).run hstep
    exact h.keep ht (mem_start h.started hwell) rfl fun _ hmem => hmem
  | @replaced p w inst node host hostPort sid i hw hstep hi =>
    obtain ⟨hslave, hsid⟩ := (h.work w (by rw [hw]; exact .head _)).replace hstep
    refine h.keep ht (mem_start h.started ?_) rfl fun _ hmem => hmem
    rw [hslave]
    exact Start.matchesRole_mysqlArgs nofun (iff_of_false nofun hsid)
  | @committed p w inst node host hostPort sid i r' hw hstep hi hset hstarted hjoined hwork =>
    exact h.keep ht (hstarted ▸ h.started)
      (recordsMaster_congr (hset.same hi (i.topology_commitReplace _ _ _ _)))
      fun _ hmem => hwork ▸ hmem
  | @moved p w node host hostPort starts commits i r' hw hmig hi hmov hset hstarted hjoined hwork =>
    refine h.keep ht ?_ (recordsMaster_congr ?_) fun _ hmem => hwork ▸ hmem
    · rw [hstarted]
      cases starts with
      | false => exact List.forall_mem_append.2 ⟨h.started, fun _ hmem => by cases hmem⟩
      | true =>
        refine List.forall_mem_append.2 ⟨h.started, List.forall_mem_singleton.2 ?_⟩
        have hall : ((r.manager.work.all fun w => (r.manager.instances[w.inst]?).all fun i =>
            r.manager.recordsMaster w.inst node ↔ i.maxServerId % 10 = 0) = true) :=
          (of_decide_eq_true hg).resolve_left nofun
        rw [hw, List.all_cons, List.all_nil, Bool.and_true, hi] at hall
        have hiff : r.manager.recordsMaster w.inst node = true ↔ i.maxServerId % 10 = 0 :=
          of_decide_eq_true hall
        refine Start.matchesRole_mysqlArgs nofun (hiff.trans ?_)
        omega
    · cases commits with
      | true => exact Sets.same hset hi (i.topology_commitReplace _ _ _ _)
      | false => exact topologyOf_congr hset
  | @settled w region az hosts i r' hw hmig hi hset hstarted hjoined hwork =>
    exact h.keep ht (hstarted ▸ h.started) (recordsMaster_congr (hset.same hi (i.topology_atSite _ _)))
      fun _ hmem => hwork ▸ hmem
  | @joined p w inst container role region az shard parent hostPort sid i r' hw hstep hi hset hstarted
      hjoined hwork =>
    refine h.keep ht (hstarted ▸ h.started) ?_ fun _ hmem => hwork ▸ hmem
    funext name c
    rw [recordsMaster_eq, recordsMaster_eq, hset.topologyOf]
    split
    · next heq =>
      rw [← heq, topologyOf_of_get hi, RdsInstance.topology_addNode]
      exact recordsMaster_join (Member.isMaster_eq_false.2 (roleNamed_ne_master role)) c
    · rfl
  | @switched e servers answer inst mode opId cand target i m r' hw hi hm hpicked hknows hproceeds
      hfailing hset hstarted hjoined hwork =>
    refine ⟨ht, hstarted ▸ h.started, fun w hmem => ?_⟩
    rw [hwork] at hmem
    cases hmem

/-- **Start arguments match the role.** In every run whose server ids have the residues that
`mysql_args` takes them to have, every container started with `mysql_args` for a node is read-only
unless the registry records the node as a master. -/
theorem starts_match {h : History Registry RegistryEvent}
    (hr : Run step (fun _ r ev => r.startsFit ev = true) Initial h r) :
    ∀ st ∈ r.started, st.MatchesRole := by
  have hst : Started r := by
    refine Run.invariant (I := fun _ r => Started r) (fun r h0 => ?_) ?_ hr
    · refine ⟨.initial h0, fun st hmem => ?_, fun w hmem => ?_⟩
      · rw [h0.started] at hmem
        cases hmem
      · rw [h0.work] at hmem
        cases hmem
    · intro h r ev r' _ hs hg hstep
      exact hs.step hg hstep
  exact hst.started

end

/-- The step that starts the master of a new instance with one shard. -/
def startMaster (name : String) (sid : Nat) : Step :=
  .dockerRun (masterName name) (mysqlArgs Surroundings.plain.process ("rds-" ++ name) none sid
    ["--log-bin=mysql-bin", "--binlog-format=ROW"])

/-- The master and a slave are started, and another slave joins. -/
def starts : List RegistryEvent :=
  [.call (.create "db" (.plain "async" 0)) .plain,
    .perform Surroundings.plain.process (startMaster "db" 1),
    .perform Surroundings.plain.process (.dockerRun "rds-db-slave-1"
      (mysqlArgs Surroundings.plain.process "rds-db" none 2 [])),
    .perform Surroundings.plain.process (.updateInstanceStatus "db" "running"),
    .finish false (.failed .quorum),
    .call (.scaleoutOpt "db" .read none none none) .plain,
    .perform Surroundings.plain.process (.dockerRun "rds-db-slave-3"
      (mysqlArgs Surroundings.plain.process "rds-db" (some 35000) 4 []))]

/-- An instance is created after a restart, with the server id that follows the highest. -/
def startsAgain : List RegistryEvent :=
  creates (.plain "async" 0) ++
  [.restart Surroundings.plain.process false, .call (.create "other" (.plain "async" 0)) .plain,
    .perform Surroundings.plain.process (startMaster "other" 4)]

/-- A creation and a scale-out. -/
theorem starts_match_joined : ∃ h r, Run step (fun _ r ev => r.startsFit ev = true) Initial h r ∧
    r.started.map (·.master) = [true, false, false] ∧ ∀ st ∈ r.started, st.MatchesRole := by
  have hf : (follow step (fun _ r ev => r.startsFit ev = true) starts [] fresh).map
      (fun r => r.2.started.map (·.master)) = some [true, false, false] := by
    decide +kernel
  obtain ⟨⟨h, r⟩, hf, hst⟩ := Option.map_eq_some_iff.1 hf
  have hr : Run step (fun _ r ev => r.startsFit ev = true) Initial h r :=
    Run.follow (.start fresh_initial) hf
  exact ⟨h, r, hr, hst, starts_match hr⟩

/-- The master of an instance that is created after a restart is started read-only. -/
theorem master_readOnly : ¬ ∀ h r, Run step (fun _ _ _ => True) Initial h r →
    ∀ st ∈ r.started, st.MatchesRole := by
  intro hall
  have hf : (follow step (fun _ _ _ => True) startsAgain [] fresh).map (fun r => r.2.started) =
      some [⟨true, mysqlArgs Surroundings.plain.process "rds-other" none 4
        ["--log-bin=mysql-bin", "--binlog-format=ROW"]⟩] := by
    decide +kernel
  obtain ⟨⟨h, r⟩, hf, hst⟩ := Option.map_eq_some_iff.1 hf
  have hstarted : r.started = _ := hst
  have hmatch := hall h r (Run.follow (.start fresh_initial) hf)
  rw [hstarted] at hmatch
  have hreadOnly := (hmatch _ (.head _) Surroundings.plain.process "rds-other" none 4
    ["--log-bin=mysql-bin", "--binlog-format=ROW"] rfl).1 (by decide +kernel)
  cases hreadOnly

end Registry

end Rdsctl.Inst
