import Rdsctl.Inst.SwitchSafety
import Mathlib.Data.Finset.Basic
import Mathlib.Data.List.Find

/-!
# What a planned switch loses

`reparent_core` in mode `planned`, with what the servers replicate beside it (`Timeline`). Nothing
is awaited between `read_only=ON` on the old master and `STOP SLAVE` on the candidate, every lag is
taken as zero, so that the first live slave of the facts is the candidate, and an explicit target is
only asked to be a slave of the instance.
-/

namespace Rdsctl.Inst

open Ha Fallible

/-! ## The first live slave -/

/-- A slave that the facts say is alive. -/
def Fact.live (f : Fact) : Bool := f.role = "slave" ∧ f.alive = true

/-- The first live slave, for `sync` the first with semi-synchronous replication. -/
def firstLive (itype : String) (facts : List Fact) : Option Fact :=
  facts.find? fun f => f.live ∧ (itype = "sync" → f.slaveEnabled = true)

theorem find?_bind_range {α : Type} (l : List α) (p : α → Bool) :
    ((List.range l.length).find? fun k => (l[k]?).any p).bind (fun k => l[k]?) = l.find? p := by
  induction l with
  | nil => rfl
  | cons a l ih =>
    rw [List.length_cons, List.range_succ_eq_map, List.find?_cons, List.find?_cons]
    cases h : p a with
    | true => simp [h]
    | false =>
      simp only [List.getElem?_cons_zero, Option.any_some, h, List.find?_map]
      rw [← ih, Option.bind_map]
      rfl

/-- Where no lag is known, the first candidate is picked. -/
theorem pickCandidate_of_lag {cands : List Candidate} (h : ∀ c ∈ cands, c.lagSecs = 0)
    (zeroLoss : Bool) :
    ((pickCandidate cands zeroLoss).bind fun k => cands[k]?) =
      cands.find? fun c => !zeroLoss || c.ackSafe := by
  have hlag (k : Nat) : lagAt cands k = 0 := by
    unfold lagAt
    cases hk : cands[k]? with
    | none => rfl
    | some c => exact h c (List.mem_of_getElem? hk)
  have hsorted : ((List.range cands.length).filter fun k =>
      !zeroLoss || (cands[k]?).any (·.ackSafe)).Pairwise fun a b => a ≤ b :=
    List.pairwise_le_range.filter _
  unfold pickCandidate
  dsimp only
  rw [List.mergeSort_of_pairwise (hsorted.imp fun {a b} hab => by simp [hlag, hab]),
    List.head?_filter, ← find?_bind_range cands]
  have hsame : (List.range cands.length).find? (fun k => !zeroLoss || (cands[k]?).any (·.ackSafe)) =
      (List.range cands.length).find? fun k => (cands[k]?).any fun c => !zeroLoss || c.ackSafe := by
    refine List.find?_congr fun k hk => ?_
    obtain ⟨c, hc⟩ : ∃ c, cands[k]? = some c := ⟨_, List.getElem?_eq_getElem (List.mem_range.1 hk)⟩
    rw [hc]
    rfl
  rw [hsame]

/-- The candidate without a target. -/
theorem pickCandidate_candidates (itype : String) (facts : List Fact) :
    ((pickCandidate (candidates facts) (itype = "sync")).bind fun k => (candidates facts)[k]?) =
      (firstLive itype facts).map fun f => ⟨f.container, 0, f.slaveEnabled⟩ := by
  have hlag : ∀ c ∈ candidates facts, c.lagSecs = 0 := by
    intro c hc
    obtain ⟨f, -, rfl⟩ := List.mem_map.1 hc
    rfl
  rw [pickCandidate_of_lag hlag]
  unfold candidates firstLive
  rw [List.find?_map, List.find?_filter]
  refine congrArg _ (congrArg (facts.find? ·) (funext fun f => ?_))
  simp only [Fact.live, Function.comp_apply]
  by_cases hsync : itype = "sync" <;> simp [hsync]

/-- What a switch promotes: the target, or the first live slave. -/
def Picked (itype : String) (facts : List Fact) (target : Option String) (cand : String) : Prop :=
  match target.filter (· ≠ "") with
  | some t => cand = t
  | none => (firstLive itype facts).map (·.container) = some cand

theorem chooseCandidate_ok {name itype cand : String} {facts : List Fact} {target : Option String} :
    chooseCandidate name itype facts target = .ok cand ↔ Picked itype facts target cand := by
  unfold chooseCandidate Picked
  rcases target.filter (· ≠ "") with _ | t
  · simp only
    rw [pickCandidate_candidates]
    cases hf : firstLive itype facts with
    | none => split <;> simp
    | some f =>
      have hmem : f ∈ facts ∧ f.live = true := by
        refine ⟨List.mem_of_find?_eq_some hf, ?_⟩
        have hp := List.find?_some hf
        simp only [decide_eq_true_eq] at hp
        exact hp.1
      have hne : candidates facts ≠ [] := by
        refine List.ne_nil_of_mem (List.mem_map.2 ⟨f, List.mem_filter.2 ⟨hmem.1, ?_⟩, rfl⟩)
        exact hmem.2
      rw [if_neg hne]
      simp
  · simp [eq_comm]

/-! ## What is replicated meanwhile -/

/-- What is replicated beside a switch: the transactions committed on the old master before it
became read-only, those of them that a server had executed by then, those that reach a server
between the call before the given one and that one, and how far a server lags. -/
structure Timeline where
  committed : Finset Nat
  executed : String → Finset Nat
  arriving : SqlCall → String → Finset Nat
  lag : String → Nat

namespace Timeline

variable (t : Timeline)

/-- What a server executes before a call: a replica whose threads run executes what reaches it. -/
def applied (call : SqlCall) (container : String) (servers : Servers) : Finset Nat :=
  if (servers container).any fun sv => sv.replication.any (·.running) then
    t.arriving call container
  else ∅

/-- What the candidate has executed when `RESET SLAVE ALL` is called. -/
def atReset (e : SwitchEnv) (st : SwitchState) (old cand : String) : Finset Nat :=
  let readOnly := (exec (haltOld e old true) st).2
  let stopped := (exec (execMysql e .stopSlave cand Server.stopSlave) readOnly).2
  t.executed cand ∪ t.applied .stopSlave cand readOnly.servers ∪
    t.applied .resetSlave cand stopped.servers

/-- Nothing is executed between `STOP SLAVE` and `RESET SLAVE ALL`. -/
theorem applied_stopped {st : SwitchState} {c : String} :
    t.applied .resetSlave c (st.alter c Server.stopSlave).servers = ∅ := by
  have hself : (st.alter c Server.stopSlave).servers c = (st.servers c).map Server.stopSlave :=
    Servers.alter_self _ _
  unfold applied
  rw [hself]
  rcases st.servers c with _ | ⟨readOnly, _ | ⟨source, running⟩⟩ <;> rfl

/-- The candidate has executed what it had before, and what reached it until `STOP SLAVE`. -/
theorem atReset_eq {e : SwitchEnv} {st : SwitchState} {old cand : String} {mode : String}
    (hp : Proceeds st e old cand mode) (halive : oldAlive st e old = true)
    (hf : failing st e cand = none) :
    t.atReset e st old cand = t.executed cand ∪ t.applied .stopSlave cand st.servers := by
  have hhalt : exec (haltOld e old true) st = (.ok (), halted st e old) :=
    halive ▸ exec_haltOld_ok hp.2.2
  have hreply : (st.reply e .stopSlave cand).isOk = true := by
    simpa using List.find?_eq_none.1 hf .stopSlave (by simp)
  have hstop : exec (execMysql e .stopSlave cand Server.stopSlave) (halted st e old) =
      (.ok (), (halted st e old).alter cand Server.stopSlave) := by
    cases hr : st.reply e .stopSlave cand with
    | error msg => rw [hr] at hreply; cases hreply
    | ok => exact exec_execMysql_ok (reply_halted.trans hr)
  have hself : (halted st e old).servers cand = st.servers cand := by
    rw [halted_servers, if_neg fun h => hp.1 h.2]
  have hsame : t.applied .stopSlave cand (halted st e old).servers =
      t.applied .stopSlave cand st.servers := by
    unfold applied
    rw [hself]
  unfold atReset
  simp only [hhalt, hstop]
  rw [applied_stopped, Finset.union_empty, hsame]

end Timeline

/-! ## Transactions that survive -/

/-- A server of the master's shard replicates from the master. -/
def ReplicaOf (st : SwitchState) (i : RdsInstance) (m : InstNode) (cand : String) : Prop :=
  (∃ n ∈ i.nodes, n.container = cand ∧ n.shard = m.shard) ∧
    ∃ sv r, st.servers cand = some sv ∧ sv.replication = some r ∧ r.source = m.container

/-- Without a target the candidate lags no more than any live slave. -/
def LeastLag (t : Timeline) (facts : List Fact) (target : Option String) (cand : String) : Prop :=
  target.filter (· ≠ "") = none → ∀ f ∈ facts, f.live = true → t.lag cand ≤ t.lag f.container

/-- When a switch succeeds, its candidate is a replica of the old master that has executed what the
old master had committed. -/
def Lossless (t : Timeline) (e : SwitchEnv) (st : SwitchState) (name : String)
    (target : Option String) (r : Except String (List String)) : Prop :=
  ∀ i m cand, st.manager.instances[name]? = some i → i.master = some m →
    chooseCandidate name i.itype e.facts target = .ok cand → r.isOk = true →
    ReplicaOf st i m cand ∧ t.committed ⊆ t.atReset e st m.container cand ∧
      LeastLag t e.facts target cand

/-- If every call of the switch is answered, what is promoted is a replica of the old master, what it
lacked reaches it before its threads are stopped, and, without a target, the first live slave lags
least. -/
def CaughtUp (t : Timeline) (e : SwitchEnv) (st : SwitchState) (name : String)
    (target : Option String) : Prop :=
  ∀ i m cand, st.manager.instances[name]? = some i → i.master = some m →
    Picked i.itype e.facts target cand → Proceeds st e m.container cand "planned" →
    failing st e cand = none →
    ReplicaOf st i m cand ∧
      t.committed \ t.executed cand ⊆ t.applied .stopSlave cand st.servers ∧
      LeastLag t e.facts target cand

/-- **Committed writes.** A planned switch loses no committed write exactly in the circumstances of
`CaughtUp`. -/
theorem lossless_iff (t : Timeline) (e : SwitchEnv) (st : SwitchState) (name : String)
    (target : Option String) :
    Lossless t e st name target (exec (reparentCore e name target "planned") st).1 ↔
      CaughtUp t e st name target := by
  refine forall_congr' fun i => forall_congr' fun m => forall_congr' fun cand =>
    forall_congr' fun hi => forall_congr' fun hm => ?_
  have hpick : chooseCandidate name i.itype e.facts target = .ok cand ↔
      Picked i.itype e.facts target cand := chooseCandidate_ok
  rw [← hpick]
  refine forall_congr' fun hcand => ?_
  rw [exec_reparentCore hi hm hcand]
  have hturn : SwitchTurn e st name m.container cand "planned" i _ :=
    switchTo_turn hi (swaps_master hm cand)
  generalize exec (switchTo e name m.container cand "planned") st = r at hturn ⊢
  cases hturn with
  | early h => exact iff_of_true nofun fun hp => absurd hp h
  | failed h hf => exact iff_of_true nofun fun _ hnone => by rw [hf] at hnone; cases hnone
  | done h hf hs hman =>
    have halive : oldAlive st e m.container = true := by
      simpa using fun hfalse => h.2.1 hfalse rfl
    have hsubset : t.committed ⊆ t.atReset e st m.container cand ↔
        t.committed \ t.executed cand ⊆ t.applied .stopSlave cand st.servers := by
      rw [t.atReset_eq h halive hf]
      exact sdiff_le_iff.symm
    rw [hsubset]
    exact ⟨fun hall _ _ => hall rfl, fun hall _ => hall h hf⟩

/-- A transaction is committed that reaches no slave. -/
def unreplicated : Timeline where
  committed := {1}
  executed := fun _ => ∅
  arriving := fun _ _ => ∅
  lag := fun _ => 0

/-- Every call is answered. -/
def answered : SwitchEnv where
  replies := fun _ => .ok ()
  downText := "Error"
  facts := []

/-- A planned switch to a slave that lags loses a committed transaction. -/
theorem write_lost : ¬ ∀ t e st name target,
    (∀ i, st.manager.instances[name]? = some i → i.itype = "async" ∨ i.itype = "sync") →
    Lossless t e st name target (exec (reparentCore e name target "planned") st).1 := by
  intro hall
  have htype : (serving.manager.instances["db"]?).map (·.itype) = some "async" := by decide +kernel
  have hsafe := hall unreplicated answered serving "db" (some "rds-db-slave-1") fun i hi => by
    rw [hi] at htype
    exact .inl (Option.some.inj htype)
  have hfound : (serving.manager.instances["db"]?).bind (fun i => i.master.map (·.container)) =
      some "rds-db-master" := by decide +kernel
  obtain ⟨i, hi, hmaster⟩ := Option.bind_eq_some_iff.1 hfound
  obtain ⟨m, hm, hc⟩ := Option.map_eq_some_iff.1 hmaster
  have hok : (exec (reparentCore answered "db" (some "rds-db-slave-1") "planned") serving).1.isOk =
      true := by decide +kernel
  have hlost := (hsafe i m "rds-db-slave-1" hi hm rfl hok).2.1
  rw [hc] at hlost
  revert hlost
  decide +kernel

end Rdsctl.Inst
