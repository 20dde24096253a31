import Mathlib.Logic.Function.Basic
import Mathlib.Tactic.FinCases
import Rdsctl.Ha.Process

/-!
# A cluster of nodes

The nodes of one voter list with the messages they have sent. A message stays in `net` once it is
sent: it may be delivered any number of times, in any order, or never. A step is one call of one
node, at a time and with file faults of the environment's choice.
-/

namespace Rdsctl.Ha

open Fallible

/-- A message on its way. -/
structure Packet where
  sender : String
  dest : String
  msg : Message

structure Cluster where
  hosts : String → Host
  net : List Packet

/-- What a node of a cluster is asked to do. -/
inductive Call
  | tick
  | propose (op : Op)
  | flush
  | stepDown
  | maybeSnapshot
  /-- `handle` of the message sent as number `k` -/
  | deliver (k : Nat)
  /-- a crash, and `Node::open` on the directory that is left -/
  | restart (cfg : RaftConfig)

/-- A call of a node, at a time and with outcomes of its file operations. -/
structure Event where
  node : String
  now : Nat
  faults : Faults
  call : Call

/-- The request a call of node `i` makes: a message goes to its addressee only. -/
def Call.request (net : List Packet) (i : String) : Call → Option Request
  | .tick => some .tick
  | .propose op => some (.propose op)
  | .flush => some .flush
  | .stepDown => some .stepDown
  | .maybeSnapshot => some .maybeSnapshot
  | .deliver k =>
    match net[k]? with
    | some p => if p.dest = i then some (.handle p.sender p.msg) else none
    | none => none
  | .restart cfg => some (.restart cfg)

namespace Cluster

variable [SerdeJson]

/-- One step of the cluster. -/
def step (voters : List String) (c : Cluster) (e : Event) : Option Cluster :=
  if e.node ∈ voters then
    match e.call.request c.net e.node with
    | some req =>
      match ((c.hosts e.node).prepared e.now e.faults).serve req with
      | some (out, h) =>
        some { hosts := Function.update c.hosts e.node h
               net := c.net ++ out.map fun o => ⟨e.node, o.dest, o.msg⟩ }
      | none => none
    | none => none
  else none

/-- Every member has opened an empty directory, and nothing is sent. -/
def Initial (voters : List String) (shard : Nat) (c : Cluster) : Prop :=
  c.net = [] ∧ ∀ i ∈ voters, ∃ cfg now,
    cfg.nodeId = i ∧ cfg.voters = voters ∧ cfg.shard = shard ∧
      exec (Host.openNode cfg now) ⟨Disk.empty, Faults.none⟩ =
        (.ok (c.hosts i).node, (c.hosts i).store)

/-- The runs of a cluster whose steps meet a guard. -/
abbrev GuardedRun (voters : List String) (shard : Nat)
    (guard : History Cluster Event → Cluster → Event → Prop) :
    History Cluster Event → Cluster → Prop :=
  Run (step voters) guard (Initial voters shard)

/-- What a step is: a member serves the request of the call, and what it sends joins the net. -/
theorem step_eq_some {voters : List String} {c c' : Cluster} {e : Event}
    (hs : step voters c e = some c') :
    e.node ∈ voters ∧ ∃ req out h, e.call.request c.net e.node = some req ∧
      ((c.hosts e.node).prepared e.now e.faults).serve req = some (out, h) ∧
      c' = { hosts := Function.update c.hosts e.node h
             net := c.net ++ out.map fun o => ⟨e.node, o.dest, o.msg⟩ } := by
  unfold step at hs
  split at hs
  · next hv =>
    refine ⟨hv, ?_⟩
    split at hs
    · next req hreq =>
      split at hs
      · next out h hserve =>
        cases hs
        exact ⟨req, out, h, hreq, hserve, rfl⟩
      · cases hs
    · cases hs
  · cases hs

end Cluster

/-- A delivered message is one that was sent to the node. -/
theorem Call.request_handle {net : List Packet} {i : String} {call : Call} {sender : String}
    {msg : Message} (h : call.request net i = some (.handle sender msg)) :
    ⟨sender, i, msg⟩ ∈ net := by
  cases call with
  | deliver k =>
    simp only [Call.request] at h
    split at h
    · next p hp =>
      split at h
      · next hd =>
        cases h
        subst hd
        exact List.mem_of_getElem? hp
      · cases h
    · cases h
  | _ => cases h

/-! ## Three nodes -/

section
attribute [local instance] SerdeJson.sample

/-- A voter list. -/
def threeVoters : List String := ["n1", "n2", "n3"]

/-- A member of it that compacts its log whenever it can. -/
def threeCfg (i : String) : RaftConfig :=
  { RaftConfig.new i 0 threeVoters with snapshotEntryThreshold := 1 }

/-- The three members after they have opened empty directories. -/
def Cluster.three : Cluster where
  hosts := fun i => ⟨((Host.opened (threeCfg i) ⟨0, [], zeroHash, 0⟩ (StateMachine.new 0 1000)
    HardState.default none).resetElectionDeadline 0).applyCommitted, ⟨Disk.empty, Faults.none⟩, 0⟩
  net := []

theorem Cluster.three_initial : Initial threeVoters 0 Cluster.three := by
  refine ⟨rfl, fun i hi => ⟨threeCfg i, 0, rfl, rfl, rfl, ?_⟩⟩
  have hv : (threeCfg i).validate = .ok () := by
    fin_cases hi <;> decide +kernel
  simp only [Host.openNode, hv]
  rfl

/-- A call at five seconds, with no faults. -/
def callAt (node : String) (call : Call) : Event := ⟨node, 5000, Faults.none, call⟩

/-- The first member asks for pre-votes and votes, has the second one's, and leads. -/
def electFirst : List Event :=
  [callAt "n1" .tick, callAt "n2" (.deliver 0), callAt "n1" (.deliver 2), callAt "n2" (.deliver 3),
    callAt "n1" (.deliver 5)]

end

end Rdsctl.Ha
