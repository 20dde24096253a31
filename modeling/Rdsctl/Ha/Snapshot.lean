import Rdsctl.Ha.Disk

/-!
# Snapshot files

`src/ha/snapshot.rs`: a snapshot checks itself by a hash and is written through a temporary file;
the current one becomes the previous one first.
-/

namespace Rdsctl.Ha

open Fallible Sha256

variable [SerdeJson]

def SNAPSHOT_FORMAT_VER : Nat := 1

/-- The hex text of the hash of a snapshot's contents. -/
def snapshotHash (shard index term configEpoch : Nat) (stateJson : JsonText StateImage) :
    String :=
  toHex (digest (beBytes 2 shard ++ beBytes 8 index ++ beBytes 8 term ++ beBytes 8 configEpoch ++
    asBytes (stateText stateJson))).toList

namespace SnapshotFile

def new (shard lastIncludedIndex lastIncludedTerm configEpoch : Nat)
    (stateJson : JsonText StateImage) : SnapshotFile where
  formatVer := SNAPSHOT_FORMAT_VER
  shard := shard
  lastIncludedIndex := lastIncludedIndex
  lastIncludedTerm := lastIncludedTerm
  configEpoch := configEpoch
  stateJson := stateJson
  hash := snapshotHash shard lastIncludedIndex lastIncludedTerm configEpoch stateJson

def verify (s : SnapshotFile) : Except HaError Unit :=
  if s.formatVer ≠ SNAPSHOT_FORMAT_VER then
    .error (.corrupt ("快照格式版本不支持:" ++ toString s.formatVer ++ " (本程序 " ++
      toString SNAPSHOT_FORMAT_VER ++ ")"))
  else if snapshotHash s.shard s.lastIncludedIndex s.lastIncludedTerm s.configEpoch
      s.stateJson ≠ s.hash then
    .error (.corrupt ("快照哈希失配(index=" ++ toString s.lastIncludedIndex ++
      "):文件可能被截断或篡改"))
  else .ok ()

/-- The anchor of the hash chain of a log compacted to this snapshot. -/
def seedBytes (s : SnapshotFile) : Hash := digest (asBytes s.hash)

/-- A new snapshot passes its own check. -/
@[simp] theorem verify_new (shard index term configEpoch : Nat)
    (stateJson : JsonText StateImage) :
    (new shard index term configEpoch stateJson).verify = .ok () := by
  simp [verify, new]

end SnapshotFile

namespace Snapshot

/-- Write a snapshot: temporary file, fsync, the current file to the previous one, rename, fsync
of the directory. -/
def save (snap : SnapshotFile) : StoreM Unit := do
  fileOp .shard id
  fileOp .shard fun k => { k with snapshotTmp := none }
  fileOp .shard fun k => { k with snapshotTmp := some snap }
  fileOp .shard id
  let st ← get
  if st.disk.snapshot.isSome then
    fileOp .shard fun k => { k with snapshotPrev := k.snapshot, snapshot := none }
  fileOp .shard fun k => { k with snapshot := k.snapshotTmp, snapshotTmp := none }
  fileOp .shard id

/-- Read one snapshot file. -/
def readOne : Option SnapshotFile → Except HaError (Option SnapshotFile)
  | none => .ok none
  | some s =>
    match s.verify with
    | .ok () => .ok (some s)
    | .error e => .error e

/-- The current snapshot; the previous one when the current one is missing or broken. -/
def load (k : Disk) : Except HaError (Option SnapshotFile) :=
  match readOne k.snapshot with
  | .ok (some s) => .ok (some s)
  | _ => readOne k.snapshotPrev

end Snapshot

end Rdsctl.Ha
