import Rdsctl.Lib.Run
import Rdsctl.Ha.Raft

/-!
# A node as a process

The calls a node serves, one at a time, each at a time and with outcomes of its file operations
that the environment chooses. A restart is one of them: the process ends at any moment between two
calls, or at the file operation at which the last call failed, and the node is opened on the
directory that is left.
-/

namespace Rdsctl.Ha

open Fallible

/-- What a process is asked to do. -/
inductive Request
  | tick
  | propose (op : Op)
  | flush
  | stepDown
  | maybeSnapshot
  | handle (sender : String) (msg : Message)
  /-- a crash, and `Node::open` on the directory that is left -/
  | restart (cfg : RaftConfig)

/-- Two configurations of one member: the timings and sizes may differ. -/
def RaftConfig.sameMember (c c' : RaftConfig) : Prop :=
  c'.nodeId = c.nodeId ∧ c'.voters = c.voters ∧ c'.shard = c.shard

instance (c c' : RaftConfig) : Decidable (c.sameMember c') :=
  inferInstanceAs (Decidable (_ ∧ _ ∧ _))

namespace Host

/-- The messages of a call: a failure sends none. -/
def outputs : Except HaError (List Outbound) → List Outbound
  | .ok out => out
  | .error _ => []

section
variable [SerdeJson]

/-- Serve a request: the messages sent and the host left; nothing when a restart is refused. -/
def serve (h : Host) : Request → Option (List Outbound × Host)
  | .tick => some (outputs (exec tick h).1, (exec tick h).2)
  | .propose op => some ([], (exec (propose op) h).2)
  | .flush => some (outputs (exec flush h).1, (exec flush h).2)
  | .stepDown => some (outputs (exec stepDown h).1, (exec stepDown h).2)
  | .maybeSnapshot => some ([], (exec maybeSnapshot h).2)
  | .handle sender msg => some (handle sender msg h)
  | .restart cfg =>
    if h.node.cfg.sameMember cfg then
      match exec (openNode cfg h.now) h.store with
      | (.ok n, st) => some ([], ⟨n, st, h.now⟩)
      | (.error _, _) => none
    else none

/-- The host as a call finds it: the time and the faults are the environment's. -/
def prepared (h : Host) (now : Nat) (faults : Faults) : Host :=
  { h with now, store := { h.store with faults } }

end

end Host

/-- A request, at a time and with outcomes of its file operations. -/
structure Input where
  now : Nat
  faults : Faults
  request : Request

namespace Process

variable [SerdeJson]

/-- One step of a process whose environment sends any messages it likes. -/
def step (h : Host) (e : Input) : Option Host :=
  ((h.prepared e.now e.faults).serve e.request).map Prod.snd

/-- A node has just opened, on any directory. -/
def Initial (h : Host) : Prop :=
  ∃ cfg now st, exec (Host.openNode cfg now) st = (.ok h.node, h.store)

/-- The runs of a process whose steps meet a guard. -/
abbrev GuardedRun (guard : History Host Input → Host → Input → Prop) :
    History Host Input → Host → Prop :=
  Run step guard Initial

end Process

end Rdsctl.Ha
