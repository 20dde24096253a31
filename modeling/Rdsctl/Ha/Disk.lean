import Rdsctl.Sha256
import Rdsctl.Lib.Fallible
import Rdsctl.Ha.State

/-!
# The directory of a node

The files of a node's directory, each with the value it holds: the hard state, the current and the
previous snapshot, the log, and the temporary files they are written through. The log file is
modelled by its sequence of complete records.

Every file operation of the source is a `fileOp`, which takes effect or fails as the fault script
says. A crash at a file operation leaves the directory that the failure of this operation leaves,
because every caller stops at the first failure.
-/

namespace Rdsctl.Ha

/-- A `[u8; 32]`. -/
abbrev Hash : Type := Vector UInt8 32

/-- `[0u8; 32]`. -/
def zeroHash : Hash := Vector.replicate 32 0

/-- A record of the log. -/
structure Record where
  ver : Nat
  kind : Nat
  flags : Nat
  shard : Nat
  term : Nat
  index : Nat
  prevHash : Hash
  payload : List UInt8
  hash : Hash
deriving DecidableEq, Repr

/-- A snapshot file. -/
structure SnapshotFile where
  formatVer : Nat
  shard : Nat
  lastIncludedIndex : Nat
  lastIncludedTerm : Nat
  configEpoch : Nat
  stateJson : JsonText StateImage
  hash : String

/-- The persistent hard state. -/
structure HardState where
  currentTerm : Nat
  votedFor : Option String
deriving DecidableEq, Repr

/-- `HardState::default`. -/
def HardState.default : HardState := ⟨0, none⟩

/-- The files of a node: `hard_state.json` in the node's directory, the rest in the directory of
its shard. -/
structure Disk where
  hardState : Option HardState
  hardTmp : Option HardState
  snapshot : Option SnapshotFile
  snapshotPrev : Option SnapshotFile
  snapshotTmp : Option SnapshotFile
  log : List Record
  logTmp : List Record

/-- An empty directory. -/
def Disk.empty : Disk := ⟨none, none, none, none, none, [], []⟩

/-- Whether the next file operations succeed (`true`), in the node's directory and in the shard's;
every operation after the end of a list succeeds. -/
structure Faults where
  hard : List Bool
  shard : List Bool
deriving DecidableEq, Repr

/-- No file operation fails. -/
def Faults.none : Faults := ⟨[], []⟩

/-- The two directories of a node. -/
inductive Dir
  | node
  | shard
deriving DecidableEq, Repr

/-- The outcome of the next operation in a directory, and the outcomes after it. -/
def Faults.next (f : Faults) : Dir → Bool × Faults
  | .node => (f.hard.headD true, { f with hard := f.hard.tail })
  | .shard => (f.shard.headD true, { f with shard := f.shard.tail })

/-- A directory with the outcomes of the operations to come. -/
structure Store where
  disk : Disk
  faults : Faults

/-- A computation on files. -/
abbrev StoreM (α : Type) : Type := Fallible HaError Store α

/-- One file operation: it changes the files by `f`, or fails and changes nothing. -/
def fileOp (d : Dir) (f : Disk → Disk) : StoreM Unit := fun st =>
  if (st.faults.next d).1 then (.ok (), ⟨f st.disk, (st.faults.next d).2⟩)
  else (.error .io, ⟨st.disk, (st.faults.next d).2⟩)

open Fallible

@[simp] theorem Faults.none_next (d : Dir) : Faults.none.next d = (true, Faults.none) := by
  cases d <;> rfl

/-- A file operation that cannot fail takes effect. -/
@[simp] theorem exec_fileOp_none (d : Dir) (f : Disk → Disk) (k : Disk) :
    exec (fileOp d f) ⟨k, Faults.none⟩ = (.ok (), ⟨f k, Faults.none⟩) := by
  simp [exec, fileOp]

@[simp] theorem exec_fileOp_bind_none {α : Type} (d : Dir) (f : Disk → Disk) (k : Disk)
    (g : Unit → StoreM α) :
    exec (fileOp d f >>= g) ⟨k, Faults.none⟩ = exec (g ()) ⟨f k, Faults.none⟩ :=
  exec_bind_ok (exec_fileOp_none d f k)

end Rdsctl.Ha
