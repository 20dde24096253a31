import Rdsctl.Ha.Disk

/-!
# The persistent log

`src/ha/log.rs`. The records of a log form a hash chain that starts at `seed_hash`, the hash of the
snapshot the log was compacted to. `Log.replay` reads a file of complete records.
-/

namespace Rdsctl.Ha

open Fallible Sha256

def MAGIC : Nat := 0x52445343
def LOG_VER : Nat := 1
def HEADER_LEN : Nat := 62
def HASH_LEN : Nat := 32

/-- An ordinary op. -/
def KIND_ENTRY : Nat := 1

/-- A configuration epoch. -/
def KIND_CONFIG : Nat := 2

/-- The header of a record. -/
def headerBytes (ver kind flags shard term index : Nat) (prevHash : Hash) (payloadLen : Nat) :
    List UInt8 :=
  beBytes 4 MAGIC ++ beBytes 2 ver ++ beBytes 1 kind ++ beBytes 1 flags ++ beBytes 2 shard ++
    beBytes 8 term ++ beBytes 8 index ++ prevHash.toList ++ beBytes 4 payloadLen

/-- The hash of a record: SHA-256 of the payload followed by the header. -/
def recordHash (header payload : List UInt8) : Hash := digest (payload ++ header)

namespace Record

def header (r : Record) : List UInt8 :=
  headerBytes r.ver r.kind r.flags r.shard r.term r.index r.prevHash r.payload.length

def encode (r : Record) : List UInt8 := r.header ++ r.payload ++ r.hash.toList

def wireLen (r : Record) : Nat := HEADER_LEN + r.payload.length + HASH_LEN

def verifyHash (r : Record) : Bool := recordHash r.header r.payload = r.hash

end Record

/-- An entry to append: `raft` assigns its term and index. -/
structure PendingEntry where
  kind : Nat
  term : Nat
  index : Nat
  payload : List UInt8
deriving DecidableEq, Repr

/-- The log of a shard, as the process holds it. -/
structure Log where
  shard : Nat
  entries : List Record
  seedHash : Hash
  truncatedTailBytes : Nat
deriving Repr

namespace Log

def lastIndex (l : Log) : Nat := (l.entries.getLast?.map (·.index)).getD 0

def lastTerm (l : Log) : Nat := (l.entries.getLast?.map (·.term)).getD 0

/-- The first index in memory; `last_index + 1` when there is none. -/
def firstIndex (l : Log) : Nat := (l.entries.head?.map (·.index)).getD (l.lastIndex + 1)

def len (l : Log) : Nat := l.entries.length

def get (l : Log) (index : Nat) : Option Record :=
  match l.entries.head? with
  | none => none
  | some first => if index < first.index then none else l.entries[index - first.index]?

def termAt (l : Log) (index : Nat) : Option Nat := (l.get index).map (·.term)

/-- The records from `start` on; all of them when `start` lies before the first. -/
def entriesFrom (l : Log) (start : Nat) : List Record :=
  match l.entries.head? with
  | none => []
  | some first => if start < first.index then l.entries else l.entries.drop (start - first.index)

def prevHashForNext (l : Log) : Hash := (l.entries.getLast?.map (·.hash)).getD l.seedHash

/-- The record of a pending entry on top of the hash `prev`. -/
def sealEntry (shard : Nat) (prev : Hash) (e : PendingEntry) : Record where
  ver := LOG_VER
  kind := e.kind
  flags := 0
  shard := shard
  term := e.term
  index := e.index
  prevHash := prev
  payload := e.payload
  hash := recordHash
    (headerBytes LOG_VER e.kind 0 shard e.term e.index prev e.payload.length) e.payload

/-- The records of a batch, chained from `prev`. -/
def stage (shard : Nat) : Hash → List PendingEntry → List Record
  | _, [] => []
  | prev, e :: es => sealEntry shard prev e :: stage shard (sealEntry shard prev e).hash es

/-- The first entry of a batch that breaks the numbering from `expect`, with its index and the
expected one. -/
def numberingGap : Nat → List PendingEntry → Option (Nat × Nat)
  | _, [] => none
  | expect, e :: es => if e.index ≠ expect then some (expect, e.index)
                       else numberingGap (expect + 1) es

/-- Append a batch: one write and one fsync. -/
def appendBatch (l : Log) (batch : List PendingEntry) : StoreM Log :=
  if batch.isEmpty then pure l
  else match numberingGap (l.lastIndex + 1) batch with
    | some (expect, actual) =>
      throw (.corrupt ("追加索引不连续:期望 " ++ toString expect ++ ",实际 " ++ toString actual ++
        "(raft 指派错误)"))
    | none => do
      let staged := stage l.shard l.prevHashForNext batch
      fileOp .shard fun k => { k with log := k.log ++ staged }
      fileOp .shard id
      pure { l with entries := l.entries ++ staged }

/-- A record moved onto the hash `prev`. -/
def reseal (shard : Nat) (prev : Hash) (r : Record) : Record :=
  { r with
    ver := LOG_VER
    prevHash := prev
    hash := recordHash
      (headerBytes LOG_VER r.kind r.flags shard r.term r.index prev r.payload.length) r.payload }

/-- Records chained anew from `prev`. -/
def rechain (shard : Nat) : Hash → List Record → List Record
  | _, [] => []
  | prev, r :: rs => reseal shard prev r :: rechain shard (reseal shard prev r).hash rs

/-- Replace the file by `keep`, chained from `seed`: temporary file, fsync, rename, fsync of the
directory, and the file opened again. -/
def rewrite (l : Log) (keep : List Record) (seed : Hash) : StoreM Log := do
  let staged := rechain l.shard seed keep
  fileOp .shard fun k => { k with logTmp := [] }
  fileOp .shard fun k => { k with logTmp := staged }
  fileOp .shard id
  fileOp .shard fun k => { k with log := k.logTmp, logTmp := [] }
  fileOp .shard id
  fileOp .shard id
  pure { l with entries := staged, seedHash := seed }

/-- Drop the records from `start` on. -/
def truncateSuffix (l : Log) (start : Nat) : StoreM Log :=
  if l.lastIndex < start then pure l
  else l.rewrite (l.entries.filter fun r => decide (r.index < start)) l.seedHash

/-- Drop the records up to `upto` and anchor the chain at the snapshot's hash. -/
def compactUpto (l : Log) (upto : Nat) (snapHash : Hash) : StoreM Log :=
  l.rewrite (l.entries.filter fun r => decide (upto < r.index)) snapHash

/-- Explicit fsync. -/
def sync : StoreM Unit := fileOp .shard id

/-! ## Opening -/

/-- How the reading of a file of records ends. -/
inductive Scan
  | whole
  | corrupt (msg : String)
  /-- the record at this position does not verify -/
  | broken (pos : Nat) (why : String)
deriving DecidableEq, Repr

/-- Read the records from position `pos`, the hash `prev` before them. -/
def scan (shard : Nat) : Nat → Hash → List Record → Scan
  | _, _, [] => .whole
  | pos, prev, r :: rs =>
    if r.ver ≠ LOG_VER then
      .corrupt ("记录格式版本不支持:文件 ver=" ++ toString r.ver ++ ",本程序 ver=" ++
        toString LOG_VER ++ "(需按运维手册升级)")
    else if r.shard ≠ shard then
      .corrupt ("分片号不符:文件 shard=" ++ toString r.shard ++ ",期望 " ++ toString shard)
    else if r.verifyHash = false then .broken pos "记录哈希失配"
    else if r.prevHash ≠ prev then
      .corrupt ("哈希链断裂:index=" ++ toString r.index ++
        " 的 prev_hash 与上一条不符(中间损坏,拒绝启动)")
    else scan shard (pos + 1) r.hash rs

/-- Some four bytes in a row are the magic number. -/
def hasMagic : List UInt8 → Bool
  | [] => false
  | b :: bs => (b :: bs).take 4 == beBytes 4 MAGIC || hasMagic bs

/-- Two neighbouring records whose indices do not follow each other. -/
def indexGap : List Record → Option (Nat × Nat)
  | a :: b :: rs => if b.index ≠ a.index + 1 then some (a.index, b.index) else indexGap (b :: rs)
  | _ => none

/-- The checks on the indices of a file that was read to its end. -/
def checkIndices (l : Log) (file : List Record) : StoreM Log :=
  match indexGap file with
  | some (a, b) => throw (.corrupt ("日志索引不连续:" ++ toString a ++ " → " ++ toString b))
  | none =>
    match file.head? with
    | some first =>
      if l.seedHash = zeroHash ∧ first.index ≠ 1 then
        throw (.corrupt ("无快照时首条记录必须为 index=1,实际 " ++ toString first.index))
      else pure { l with entries := file }
    | none => pure { l with entries := file }

/-- Read the file. A record that does not verify ends it, when no later record is in sight: the
tail is cut and the file read again. `fuel` bounds the number of cuts. -/
def replay : Nat → Log → StoreM Log
  | 0, l => pure l
  | fuel + 1, l => do
    let st ← MonadState.get
    match scan l.shard 0 l.seedHash st.disk.log with
    | .whole => l.checkIndices st.disk.log
    | .corrupt msg => throw (.corrupt msg)
    | .broken pos why =>
      if hasMagic (((st.disk.log.drop pos).flatMap Record.encode).drop 4) then
        throw (.corrupt (why ++ " 且其后仍存在合法记录(offset=" ++
          toString ((st.disk.log.take pos).map Record.wireLen).sum ++ "):中间损坏,拒绝启动"))
      else do
        fileOp .shard fun k => { k with log := k.log.take pos }
        fileOp .shard id
        replay fuel
          { l with truncatedTailBytes := ((st.disk.log.drop pos).flatMap Record.encode).length }

/-- Open (or create) the log of a shard. -/
def open' (shard : Nat) (seedHash : Hash) : StoreM Log := do
  fileOp .shard id
  let st ← MonadState.get
  replay (st.disk.log.length + 1) ⟨shard, [], seedHash, 0⟩

end Log

end Rdsctl.Ha
