import Rdsctl.Ha.Provenance

/-!
# Replicas of a state machine

A state machine is rebuilt from a log: from an empty directory, from a snapshot of another node, or
both after one another. What it holds in the end is what the log makes of the new state machine it
all began with (`Rebuilt.origin`), and the one thing that enters there and is not the same on every
node is `max_skew_ms` of the local settings.
-/

namespace Rdsctl.Ha

open Fallible

/-- Validated settings of the members of one voter list, with the property `T`. -/
structure Fleet (voters : List String) (shard : Nat) (T : RaftConfig → Prop) (cfg : RaftConfig) :
    Prop where
  valid : cfg.validate = .ok ()
  members : cfg.voters = voters
  ofShard : cfg.shard = shard
  chosen : T cfg

/-- The state machines that nodes with settings of the fleet `S` have after the entries of a log:
started from an empty directory, or from a snapshot of another one (`Node::open` and the handling
of `InstallSnapshot`). -/
inductive Rebuilt (S : RaftConfig → Prop) : List ApplyCall → StateMachine → Prop
  | opened {cfg : RaftConfig} {sm : StateMachine} (hcfg : S cfg)
      (hx : Host.startMachine cfg none = .ok sm) : Rebuilt S [] sm
  | applied {log : List ApplyCall} {sm : StateMachine} (h : Rebuilt S log sm) (a : ApplyCall)
      (ha : a.index = sm.appliedIndex + 1) : Rebuilt S (log ++ [a]) (sm.after a)
  | restored {log : List ApplyCall} {sm sm' : StateMachine} {f : SnapshotFile}
      (h : Rebuilt S log sm) (hf : f.stateJson = sm.toJson)
      (hx : StateMachine.fromJson f.stateJson = .ok sm') : Rebuilt S log sm'

/-- State machines rebuilt from one log have one image. -/
def Deterministic (S : RaftConfig → Prop) : Prop :=
  ∀ log sm sm', Rebuilt S log sm → Rebuilt S log sm' → sm.toImage = sm'.toImage

/-- All settings of the fleet have the same `max_skew_ms`. -/
def OneSkew (S : RaftConfig → Prop) : Prop :=
  ∀ cfg cfg', S cfg → S cfg' → cfg.maxSkewMs = cfg'.maxSkewMs

variable {S : RaftConfig → Prop} {log : List ApplyCall} {sm : StateMachine}

theorem StateMachine.after_auditTailCap (sm : StateMachine) (a : ApplyCall) :
    (sm.after a).auditTailCap = sm.auditTailCap :=
  sm.apply_auditTailCap a.term a.index a.op

theorem Rebuilt.auditTailCap (h : Rebuilt S log sm) : sm.auditTailCap = 2000 := by
  induction h with
  | opened _ hx =>
    cases hx
    rfl
  | applied _ a _ ih => rw [StateMachine.after_auditTailCap, ih]
  | restored _ hf hx _ =>
    rw [hf, StateMachine.fromJson_toJson] at hx
    cases hx
    rfl

/-- A rebuilt state machine is the log applied to a new one. -/
theorem Rebuilt.origin (h : Rebuilt S log sm) :
    ∃ cfg, S cfg ∧ sm = (StateMachine.new cfg.shard cfg.maxSkewMs).afterAll log := by
  induction h with
  | @opened cfg sm hcfg hx =>
    cases hx
    exact ⟨cfg, hcfg, rfl⟩
  | applied _ a _ ih =>
    obtain ⟨cfg, hcfg, rfl⟩ := ih
    exact ⟨cfg, hcfg, (StateMachine.afterAll_concat _ _ _).symm⟩
  | restored h hf hx ih =>
    obtain ⟨cfg, hcfg, hsm⟩ := ih
    rw [hf, StateMachine.fromJson_toJson, ← h.auditTailCap] at hx
    cases hx
    exact ⟨cfg, hcfg, hsm⟩

/-- It has applied as many entries as its index says. -/
theorem Rebuilt.length (h : Rebuilt S log sm) : log.length = sm.appliedIndex := by
  induction h with
  | opened _ hx =>
    cases hx
    rfl
  | @applied log sm h a ha ih =>
    have hafter : (sm.after a).appliedIndex = a.index := rfl
    rw [List.length_append, List.length_singleton, ih, hafter, ha]
  | restored h hf hx ih =>
    rw [hf, StateMachine.fromJson_toJson] at hx
    cases hx
    exact ih

/-- Nodes of one voter list are replicas of each other exactly when they are configured with the
same `max_skew_ms`. -/
theorem deterministic_iff (voters : List String) (shard : Nat) (T : RaftConfig → Prop) :
    Deterministic (Fleet voters shard T) ↔ OneSkew (Fleet voters shard T) := by
  constructor
  · intro hdet cfg cfg' hcfg hcfg'
    have himage := hdet [] _ _ (.opened hcfg rfl) (.opened hcfg' rfl)
    exact congrArg StateImage.maxSkewMs himage
  · intro hskew log sm sm' h h'
    obtain ⟨cfg, hcfg, rfl⟩ := h.origin
    obtain ⟨cfg', hcfg', rfl⟩ := h'.origin
    rw [hcfg.ofShard, hcfg'.ofShard, hskew cfg cfg' hcfg hcfg']

/-- A lease of six seconds is granted on a node with a skew of half a second, and refused on one
with a skew of a second. -/
theorem replicas_differ : ¬ ∀ voters shard, Deterministic (Fleet voters shard fun _ => True) := by
  intro hall
  let near : RaftConfig := { threeCfg "n1" with maxSkewMs := 500 }
  let far : RaftConfig := threeCfg "n2"
  have hnear : Fleet threeVoters 0 (fun _ => True) near := ⟨by decide +kernel, rfl, rfl, trivial⟩
  have hfar : Fleet threeVoters 0 (fun _ => True) far := ⟨by decide +kernel, rfl, rfl, trivial⟩
  let grant : ApplyCall := ⟨1, 1, .leaseGrant "db" "n1" 6000 100⟩
  have himage := hall threeVoters 0 [grant] _ _ ((Rebuilt.opened hnear rfl).applied grant rfl)
    ((Rebuilt.opened hfar rfl).applied grant rfl)
  have hlease := congrArg (fun img : StateImage => img.leases["db"]?.isSome) himage
  exact absurd hlease (by decide +kernel)

/-! ## The state machines of a cluster -/

section
variable [SerdeJson]

/-- To be rebuilt from some log is handed on. -/
def Rebuilt.lineage (S : RaftConfig → Prop) : Lineage where
  machine sm := ∃ log, Rebuilt S log sm
  file f := ∃ log sm, Rebuilt S log sm ∧ f.stateJson = sm.toJson
  applied := fun sm term op ⟨log, h⟩ =>
    ⟨log ++ [⟨sm.appliedIndex + 1, term, op⟩], h.applied _ rfl⟩
  saved := fun sm _ _ ⟨log, h⟩ => ⟨log, sm, h, rfl⟩
  loaded := fun _ _ ⟨log, _, h, hf⟩ hx => ⟨log, h.restored hf hx⟩

end

section
attribute [local instance] SerdeJson.sample

end

end Rdsctl.Ha
