import Rdsctl.Ha.LogView

/-!
# The log file, byte by byte

`Log.open'` reads a file of complete records. Here the file is a sequence of bytes, as
`Log::replay` of `src/ha/log.rs` reads it: field by field, with every way in which the bytes of a
record can fall short. `LogFile.open_ok_iff` says which files open and what they open to.
-/

namespace Rdsctl.Ha

open Sha256

/-! ## Fields of fixed width -/

/-- `from_be_bytes`. -/
def ofBeBytes : List UInt8 → Nat
  | [] => 0
  | b :: bs => b.toNat * 256 ^ bs.length + ofBeBytes bs

/-- `bytes[a..b]`. -/
def slice (bytes : List UInt8) (a b : Nat) : List UInt8 := (bytes.drop a).take (b - a)

/-- `copy_from_slice` into a `[u8; 32]`. -/
def Hash.ofBytes (bs : List UInt8) : Hash := Vector.ofFn fun i => bs.getD i 0

section Fields

variable {bs : List UInt8} {w n : Nat}

@[simp] theorem length_beBytes (w n : Nat) : (beBytes w n).length = w := by simp [beBytes]

/-- Past the end of a field. -/
@[simp] theorem drop_beBytes {k : Nat} (h : w ≤ k) : (beBytes w n).drop k = [] :=
  List.drop_eq_nil_of_le (by simpa using h)

theorem beBytes_succ (w n : Nat) :
    beBytes (w + 1) n = UInt8.ofNat (n / 256 ^ w) :: beBytes w n := by
  simp [beBytes, List.range_succ_eq_map, Nat.sub_sub, Nat.add_comm]

/-- Bytes above the width of a field do not show. -/
theorem beBytes_add_mul (w n k : Nat) : beBytes w (n + k * 256 ^ w) = beBytes w n := by
  induction w generalizing k with
  | zero => rfl
  | succ w ih =>
    have hpow : k * 256 ^ (w + 1) = k * 256 * 256 ^ w := by
      rw [Nat.pow_succ, Nat.mul_comm (256 ^ w), Nat.mul_assoc]
    rw [beBytes_succ, beBytes_succ, hpow, ih (k * 256),
      Nat.add_mul_div_right _ _ (Nat.pow_pos (by decide))]
    congr 1
    rw [← UInt8.toNat_inj]
    simp

/-- What a field of `w` bytes reads back as. -/
theorem ofBeBytes_beBytes (w n : Nat) : ofBeBytes (beBytes w n) = n % 256 ^ w := by
  induction w with
  | zero => simp [beBytes, ofBeBytes, Nat.mod_one]
  | succ w ih =>
    rw [beBytes_succ, ofBeBytes, ih, length_beBytes, Nat.pow_succ, Nat.mod_mul]
    simp [Nat.mul_comm, Nat.add_comm]

/-- A field that fits reads back. -/
theorem ofBeBytes_of_lt (h : n < 256 ^ w) : ofBeBytes (beBytes w n) = n := by
  rw [ofBeBytes_beBytes, Nat.mod_eq_of_lt h]

theorem ofBeBytes_lt (bs : List UInt8) : ofBeBytes bs < 256 ^ bs.length := by
  induction bs with
  | nil => simp [ofBeBytes]
  | cons b bs ih =>
    have hb := b.toNat_lt
    rw [ofBeBytes, List.length_cons, Nat.pow_succ]
    calc b.toNat * 256 ^ bs.length + ofBeBytes bs
        < b.toNat * 256 ^ bs.length + 256 ^ bs.length := by omega
      _ = (b.toNat + 1) * 256 ^ bs.length := (Nat.succ_mul _ _).symm
      _ ≤ 256 * 256 ^ bs.length := Nat.mul_le_mul_right _ (by omega)
      _ = 256 ^ bs.length * 256 := Nat.mul_comm _ _

/-- The bytes of a field are those of the number it reads as. -/
theorem beBytes_ofBeBytes (h : bs.length = w) : beBytes w (ofBeBytes bs) = bs := by
  subst h
  induction bs with
  | nil => rfl
  | cons b bs ih =>
    have hlt := ofBeBytes_lt bs
    have hdiv : (b.toNat * 256 ^ bs.length + ofBeBytes bs) / 256 ^ bs.length = b.toNat := by
      rw [Nat.add_comm, Nat.add_mul_div_right _ _ (Nat.pow_pos (by decide)),
        Nat.div_eq_of_lt hlt, Nat.zero_add]
    rw [ofBeBytes, List.length_cons, beBytes_succ, hdiv, Nat.add_comm, beBytes_add_mul, ih,
      UInt8.ofNat_toNat]

theorem length_slice {a b : Nat} (h : a ≤ b) (hb : b ≤ bs.length) :
    (slice bs a b).length = b - a := by
  simp only [slice, List.length_take, List.length_drop]
  omega

/-- Neighbouring slices. -/
theorem slice_append (bs : List UInt8) {a b c : Nat} (h : a ≤ b) (h' : b ≤ c) :
    slice bs a b ++ slice bs b c = slice bs a c := by
  have hb : bs.drop b = (bs.drop a).drop (b - a) := by
    rw [List.drop_drop]
    congr 1
    omega
  have hc : c - a = (b - a) + (c - b) := by omega
  rw [slice, slice, slice, hb, hc, List.take_add]

@[simp] theorem Hash.length_toList (h : Hash) : h.toList.length = 32 := by simp

theorem Hash.toList_ofBytes (h : bs.length = 32) : (Hash.ofBytes bs).toList = bs := by
  apply List.ext_getElem
  · simp [h]
  · intro i h1 h2
    simp [Hash.ofBytes, List.getD_eq_getElem?_getD, List.getElem?_eq_getElem h2]

theorem Hash.ofBytes_toList (h : Hash) : Hash.ofBytes h.toList = h := by
  apply Vector.toList_inj.1
  rw [Hash.toList_ofBytes (Hash.length_toList h)]

end Fields

/-! ## One record -/

/-- The fields of a record have the widths of the source. -/
structure Record.Fits (r : Record) : Prop where
  ver : r.ver < 2 ^ 16
  kind : r.kind < 2 ^ 8
  flags : r.flags < 2 ^ 8
  shard : r.shard < 2 ^ 16
  term : r.term < 2 ^ 64
  index : r.index < 2 ^ 64
  payload : r.payload.length < 2 ^ 32

/-- Why the reading of a file stops. -/
inductive Stop
  | eof
  | tail (why : String)
  | corrupt (msg : String)
deriving DecidableEq, Repr

namespace LogFile

/-- The `payload_len` of the header that the bytes start with. -/
def payloadLen (bytes : List UInt8) : Nat := ofBeBytes (slice bytes 58 62)

/-- The record that the bytes start with, when there are enough of them. -/
def recordAt (bytes : List UInt8) : Record where
  ver := ofBeBytes (slice bytes 4 6)
  kind := ofBeBytes (slice bytes 6 7)
  flags := ofBeBytes (slice bytes 7 8)
  shard := ofBeBytes (slice bytes 8 10)
  term := ofBeBytes (slice bytes 10 18)
  index := ofBeBytes (slice bytes 18 26)
  prevHash := Hash.ofBytes (slice bytes 26 58)
  payload := slice bytes HEADER_LEN (HEADER_LEN + payloadLen bytes)
  hash := Hash.ofBytes (slice bytes (HEADER_LEN + payloadLen bytes)
    (HEADER_LEN + payloadLen bytes + HASH_LEN))

/-- Read the next record, the hash `prev` before it. -/
def nextRecord (shard : Nat) (prev : Hash) (bytes : List UInt8) :
    Except Stop (Record × List UInt8) :=
  let r := recordAt bytes
  if bytes = [] then .error .eof
  else if bytes.length < HEADER_LEN then .error (.tail "头部不完整")
  else if ofBeBytes (slice bytes 0 4) ≠ MAGIC then .error (.tail "magic 失配")
  else if r.ver ≠ LOG_VER then
    .error (.corrupt ("记录格式版本不支持:文件 ver=" ++ toString r.ver ++ ",本程序 ver=" ++
      toString LOG_VER ++ "(需按运维手册升级)"))
  else if r.shard ≠ shard then
    .error (.corrupt ("分片号不符:文件 shard=" ++ toString r.shard ++ ",期望 " ++ toString shard))
  else if bytes.length < HEADER_LEN + payloadLen bytes then .error (.tail "载荷不完整")
  else if bytes.length < HEADER_LEN + payloadLen bytes + HASH_LEN then .error (.tail "哈希不完整")
  else if r.verifyHash = false then .error (.tail "记录哈希失配")
  else if r.prevHash ≠ prev then
    .error (.corrupt ("哈希链断裂:index=" ++ toString r.index ++
      " 的 prev_hash 与上一条不符(中间损坏,拒绝启动)"))
  else .ok (r, bytes.drop (HEADER_LEN + payloadLen bytes + HASH_LEN))

variable {shard : Nat} {prev : Hash} {r : Record} {bytes rest : List UInt8}

theorem length_header (r : Record) : r.header.length = HEADER_LEN := by
  simp [Record.header, headerBytes, HEADER_LEN]

theorem length_encode (r : Record) : r.encode.length = r.wireLen := by
  simp [Record.encode, Record.wireLen, length_header, HASH_LEN, Nat.add_assoc]

theorem length_encode_pos (r : Record) : 0 < r.encode.length := by
  rw [length_encode, Record.wireLen, HEADER_LEN]
  omega

/-- The fields of a header, where a record stands in front of `rest`. -/
theorem slice_header (r : Record) (rest : List UInt8) :
    slice (r.encode ++ rest) 0 4 = beBytes 4 MAGIC ∧
    slice (r.encode ++ rest) 4 6 = beBytes 2 r.ver ∧
    slice (r.encode ++ rest) 6 7 = beBytes 1 r.kind ∧
    slice (r.encode ++ rest) 7 8 = beBytes 1 r.flags ∧
    slice (r.encode ++ rest) 8 10 = beBytes 2 r.shard ∧
    slice (r.encode ++ rest) 10 18 = beBytes 8 r.term ∧
    slice (r.encode ++ rest) 18 26 = beBytes 8 r.index ∧
    slice (r.encode ++ rest) 26 58 = r.prevHash.toList ∧
    slice (r.encode ++ rest) 58 62 = beBytes 4 r.payload.length := by
  refine ⟨?_, ?_, ?_, ?_, ?_, ?_, ?_, ?_, ?_⟩ <;>
    simp [slice, Record.encode, Record.header, headerBytes, List.drop_append]

/-- A slice between two known parts. -/
theorem slice_mid {as bs cs : List UInt8} {a b : Nat} (h : bytes = as ++ (bs ++ cs))
    (ha : as.length = a) (hb : a + bs.length = b) : slice bytes a b = bs := by
  subst h ha hb
  simp [slice]

theorem slice_payload (r : Record) (rest : List UInt8) :
    slice (r.encode ++ rest) HEADER_LEN (HEADER_LEN + r.payload.length) = r.payload := by
  have h : r.encode ++ rest = r.header ++ (r.payload ++ (r.hash.toList ++ rest)) := by
    simp [Record.encode]
  exact slice_mid h (length_header r) rfl

theorem slice_hash (r : Record) (rest : List UInt8) :
    slice (r.encode ++ rest) (HEADER_LEN + r.payload.length)
      (HEADER_LEN + r.payload.length + HASH_LEN) = r.hash.toList := by
  have h : r.encode ++ rest = r.header ++ r.payload ++ (r.hash.toList ++ rest) := by
    simp [Record.encode]
  exact slice_mid h (by simp [length_header]) (by simp [HASH_LEN])

/-- The length field of an encoded record. -/
theorem payloadLen_encode (hp : r.payload.length < 2 ^ 32) (rest : List UInt8) :
    payloadLen (r.encode ++ rest) = r.payload.length := by
  obtain ⟨-, -, -, -, -, -, -, -, h⟩ := slice_header r rest
  rw [payloadLen, h, ofBeBytes_of_lt hp]

/-- An encoded record reads back. -/
theorem recordAt_encode (hr : r.Fits) (rest : List UInt8) : recordAt (r.encode ++ rest) = r := by
  obtain ⟨-, h1, h2, h3, h4, h5, h6, h7, -⟩ := slice_header r rest
  have hp := slice_payload r rest
  have hh := slice_hash r rest
  cases r with
  | mk ver kind flags shard term index prevHash payload hash =>
    simp only [recordAt, payloadLen_encode hr.payload, h1, h2, h3, h4, h5, h6, h7, hp, hh,
      ofBeBytes_of_lt (w := 2) hr.ver, ofBeBytes_of_lt (w := 1) hr.kind,
      ofBeBytes_of_lt (w := 1) hr.flags, ofBeBytes_of_lt (w := 2) hr.shard,
      ofBeBytes_of_lt (w := 8) hr.term, ofBeBytes_of_lt (w := 8) hr.index, Hash.ofBytes_toList]

/-- What is read has the widths of the source. -/
theorem recordAt_fits (h : HEADER_LEN ≤ bytes.length) : (recordAt bytes).Fits := by
  have hfield : ∀ a b, a ≤ b → b ≤ HEADER_LEN → ofBeBytes (slice bytes a b) < 256 ^ (b - a) := by
    intro a b hab hb
    have := ofBeBytes_lt (slice bytes a b)
    rwa [length_slice hab (by omega)] at this
  have hlen : (recordAt bytes).payload.length ≤ payloadLen bytes := by
    simp only [recordAt, slice, List.length_take]
    omega
  exact
    { ver := hfield 4 6 (by decide) (by decide)
      kind := hfield 6 7 (by decide) (by decide)
      flags := hfield 7 8 (by decide) (by decide)
      shard := hfield 8 10 (by decide) (by decide)
      term := hfield 10 18 (by decide) (by decide)
      index := hfield 18 26 (by decide) (by decide)
      payload := Nat.lt_of_le_of_lt hlen (hfield 58 62 (by decide) (by decide)) }

/-- A complete record is the encoding of what is read. -/
theorem encode_recordAt (h : HEADER_LEN + payloadLen bytes + HASH_LEN ≤ bytes.length)
    (hm : ofBeBytes (slice bytes 0 4) = MAGIC) :
    (recordAt bytes).encode ++ bytes.drop (HEADER_LEN + payloadLen bytes + HASH_LEN) = bytes := by
  have hfield : ∀ a b, a ≤ b → b ≤ HEADER_LEN →
      beBytes (b - a) (ofBeBytes (slice bytes a b)) = slice bytes a b := by
    intro a b hab hb
    exact beBytes_ofBeBytes (length_slice hab (by omega))
  have hH : HEADER_LEN = 62 := rfl
  have hplen : (recordAt bytes).payload.length = payloadLen bytes := by
    rw [recordAt, length_slice (by omega) (by omega)]
    omega
  have hsplit : slice bytes 0 HEADER_LEN = slice bytes 0 4 ++ slice bytes 4 6 ++ slice bytes 6 7 ++
      slice bytes 7 8 ++ slice bytes 8 10 ++ slice bytes 10 18 ++ slice bytes 18 26 ++
      slice bytes 26 58 ++ slice bytes 58 62 := by
    simp [slice_append, HEADER_LEN]
  have hmagic : beBytes 4 MAGIC = slice bytes 0 4 := by
    rw [← hm]
    exact hfield 0 4 (by decide) (by decide)
  have hver : beBytes 2 (recordAt bytes).ver = slice bytes 4 6 := hfield 4 6 (by decide) (by decide)
  have hkind : beBytes 1 (recordAt bytes).kind = slice bytes 6 7 :=
    hfield 6 7 (by decide) (by decide)
  have hflags : beBytes 1 (recordAt bytes).flags = slice bytes 7 8 :=
    hfield 7 8 (by decide) (by decide)
  have hshard : beBytes 2 (recordAt bytes).shard = slice bytes 8 10 :=
    hfield 8 10 (by decide) (by decide)
  have hterm : beBytes 8 (recordAt bytes).term = slice bytes 10 18 :=
    hfield 10 18 (by decide) (by decide)
  have hindex : beBytes 8 (recordAt bytes).index = slice bytes 18 26 :=
    hfield 18 26 (by decide) (by decide)
  have hprev : (recordAt bytes).prevHash.toList = slice bytes 26 58 :=
    Hash.toList_ofBytes (length_slice (by omega) (by omega))
  have hlen : beBytes 4 (payloadLen bytes) = slice bytes 58 62 :=
    hfield 58 62 (by decide) (by decide)
  have hheader : (recordAt bytes).header = slice bytes 0 HEADER_LEN := by
    rw [Record.header, headerBytes, hplen, hmagic, hver, hkind, hflags, hshard, hterm, hindex, hprev,
      hlen, hsplit]
  have hhash : (recordAt bytes).hash.toList = slice bytes (HEADER_LEN + payloadLen bytes)
      (HEADER_LEN + payloadLen bytes + HASH_LEN) :=
    Hash.toList_ofBytes (by rw [length_slice (by omega) h, HASH_LEN]; omega)
  have hall : (recordAt bytes).encode = bytes.take (HEADER_LEN + payloadLen bytes + HASH_LEN) := by
    rw [Record.encode, hheader, hhash]
    calc slice bytes 0 HEADER_LEN ++ slice bytes HEADER_LEN (HEADER_LEN + payloadLen bytes) ++
          slice bytes (HEADER_LEN + payloadLen bytes) (HEADER_LEN + payloadLen bytes + HASH_LEN)
        = slice bytes 0 (HEADER_LEN + payloadLen bytes + HASH_LEN) := by
          rw [slice_append _ (by omega) (by omega), slice_append _ (by omega) (by omega)]
      _ = bytes.take (HEADER_LEN + payloadLen bytes + HASH_LEN) := by simp [slice]
  rw [hall, List.take_append_drop]

/-- A check that was passed. -/
theorem ite_error_eq_ok {ε α : Type} {c : Prop} [Decidable c] {e : ε} {x : Except ε α} {y : α} :
    (if c then .error e else x) = .ok y ↔ ¬c ∧ x = .ok y := by
  split <;> simp [*]

/-- A record that verifies is read when it is chained to the hash before it, and is fatal when it
is not. -/
theorem nextRecord_verified (hf : r.Fits) (hver : r.ver = LOG_VER) (hs : r.shard = shard)
    (hv : r.verifyHash = true) (rest : List UInt8) :
    nextRecord shard prev (r.encode ++ rest) =
      if r.prevHash ≠ prev then
        .error (.corrupt ("哈希链断裂:index=" ++ toString r.index ++
          " 的 prev_hash 与上一条不符(中间损坏,拒绝启动)"))
      else .ok (r, rest) := by
  have hm : ofBeBytes (slice (r.encode ++ rest) 0 4) = MAGIC := by
    rw [(slice_header r rest).1]
    decide
  have hlen : r.encode.length = HEADER_LEN + r.payload.length + HASH_LEN := length_encode r
  have hne : r.encode ++ rest ≠ [] :=
    List.append_ne_nil_of_left_ne_nil (List.length_pos_iff.1 (length_encode_pos r)) _
  simp only [nextRecord, payloadLen_encode hf.payload, recordAt_encode hf, List.length_append,
    hlen, List.drop_left' hlen]
  rw [if_neg hne, if_neg (by omega), if_neg (by simp [hm]), if_neg (by simp [hver]),
    if_neg (by simp [hs]), if_neg (by omega), if_neg (by omega), if_neg (by simp [hv])]

/-- Which bytes start with a record that is read. -/
theorem nextRecord_ok :
    nextRecord shard prev bytes = .ok (r, rest) ↔
      bytes = r.encode ++ rest ∧ r.Fits ∧ r.ver = LOG_VER ∧ r.shard = shard ∧
        r.verifyHash = true ∧ r.prevHash = prev := by
  constructor
  · intro h
    simp only [nextRecord, ite_error_eq_ok, Except.ok.injEq, Prod.mk.injEq, not_not,
      Bool.not_eq_false] at h
    obtain ⟨-, hlen, hm, hver, hsh, -, hall, hv, hp, rfl, rfl⟩ := h
    exact ⟨(encode_recordAt (by omega) hm).symm, recordAt_fits (by omega), hver, hsh, hv, hp⟩
  · rintro ⟨rfl, hf, hver, hsh, hv, hp⟩
    rw [nextRecord_verified hf hver hsh hv, if_neg (not_not.2 hp)]

/-! ## A file -/

/-- Read records until the reading stops. `fuel` exceeds the number of records. -/
def readRecords (shard : Nat) : Nat → Hash → List UInt8 → List Record × Stop
  | 0, _, _ => ([], .eof)
  | fuel + 1, prev, bytes =>
    match nextRecord shard prev bytes with
    | .error stop => ([], stop)
    | .ok (r, rest) =>
      (r :: (readRecords shard fuel r.hash rest).1, (readRecords shard fuel r.hash rest).2)

/-- The checks on the indices of a file that was read to its end. -/
def checkIndices (seed : Hash) (entries : List Record) : Except HaError Unit :=
  match Log.indexGap entries with
  | some (a, b) => .error (.corrupt ("日志索引不连续:" ++ toString a ++ " → " ++ toString b))
  | none =>
    match entries.head? with
    | some first =>
      if seed = zeroHash ∧ first.index ≠ 1 then
        .error (.corrupt ("无快照时首条记录必须为 index=1,实际 " ++ toString first.index))
      else .ok ()
    | none => .ok ()

end LogFile

/-- An open log and the bytes of its file. -/
structure LogFile where
  log : Log
  bytes : List UInt8
deriving Repr

namespace LogFile

/-- Read the file. When the reading stops before the end, a magic number after the first four bytes
of the rest is fatal; else the rest is cut and the file read again. `fuel` bounds the number of
cuts, `truncated` is what the last one cut. -/
def replay (shard : Nat) (seed : Hash) : Nat → Nat → List UInt8 → Except HaError LogFile
  | 0, _, _ => .error .io
  | fuel + 1, truncated, bytes =>
    let (entries, stop) := readRecords shard (bytes.length + 1) seed bytes
    match stop with
    | .eof => do
      checkIndices seed entries
      return ⟨⟨shard, entries, seed, truncated⟩, bytes⟩
    | .corrupt msg => .error (.corrupt msg)
    | .tail why =>
      let offset := (entries.map Record.wireLen).sum
      if Log.hasMagic ((bytes.drop offset).drop 4) then
        .error (.corrupt (why ++ " 且其后仍存在合法记录(offset=" ++ toString offset ++
          "):中间损坏,拒绝启动"))
      else replay shard seed fuel (bytes.length - offset) (bytes.take offset)

/-- `Log::open` on a file with these bytes; a file that is missing is created empty. -/
def open' (shard : Nat) (seed : Hash) (bytes : List UInt8) : Except HaError LogFile :=
  replay shard seed (bytes.length + 1) 0 bytes

/-! ## What opens -/

/-- The bytes of a file of complete records. -/
def encodeAll (rs : List Record) : List UInt8 := rs.flatMap Record.encode

/-- Records that are read one after the other. -/
structure Reads (shard : Nat) (seed : Hash) (rs : List Record) : Prop where
  chained : Log.Chained shard seed rs
  fits : ∀ r ∈ rs, r.Fits

/-- The records of a file that opens. -/
structure Valid (shard : Nat) (seed : Hash) (rs : List Record) : Prop
    extends Reads shard seed rs where
  consecutive : Log.indexGap rs = none
  first : seed = zeroHash → ∀ r ∈ rs.head?, r.index = 1

/-- An end of a file that does not stop it from opening: no bytes, or bytes that no record is read
from and that hold no magic number after the first four. -/
def Droppable (shard : Nat) (prev : Hash) (u : List UInt8) : Prop :=
  u = [] ∨ (∃ why, nextRecord shard prev u = .error (.tail why)) ∧ Log.hasMagic (u.drop 4) = false

variable {seed : Hash} {rs rs' : List Record} {u : List UInt8} {f : LogFile} {fuel : Nat}

@[simp] theorem encodeAll_nil : encodeAll [] = [] := rfl

@[simp] theorem encodeAll_cons (r : Record) (rs : List Record) :
    encodeAll (r :: rs) = r.encode ++ encodeAll rs := by simp [encodeAll]

@[simp] theorem encodeAll_append (rs rs' : List Record) :
    encodeAll (rs ++ rs') = encodeAll rs ++ encodeAll rs' := by simp [encodeAll]

/-- The offset that `replay` keeps. -/
theorem length_encodeAll (rs : List Record) :
    (encodeAll rs).length = (rs.map Record.wireLen).sum := by
  induction rs with
  | nil => rfl
  | cons r rs ih => simp [ih, length_encode]

theorem chainEnd_cons (prev : Hash) (r : Record) (rs : List Record) :
    Log.chainEnd prev (r :: rs) = Log.chainEnd r.hash rs := by
  cases rs <;> simp [Log.chainEnd, List.getLast?_cons]

theorem chainEnd_append (prev : Hash) (rs rs' : List Record) :
    Log.chainEnd prev (rs ++ rs') = Log.chainEnd (Log.chainEnd prev rs) rs' := by
  induction rs generalizing prev with
  | nil => rfl
  | cons r rs ih => rw [List.cons_append, chainEnd_cons, ih, chainEnd_cons]

theorem reads_nil : Reads shard prev [] := ⟨Log.chained_nil shard prev, by simp⟩

/-- Reading one record, and the others after it. -/
theorem reads_cons :
    Reads shard prev (r :: rs) ↔ (r.Fits ∧ r.ver = LOG_VER ∧ r.shard = shard ∧
      r.verifyHash = true ∧ r.prevHash = prev) ∧ Reads shard r.hash rs := by
  constructor
  · rintro ⟨hc, hf⟩
    obtain ⟨h1, h2, h3, h4, h5⟩ := Log.scan_cons.1 hc
    exact ⟨⟨hf r (by simp), h1, h2, h3, h4⟩, Log.scan_pos.1 h5, fun r' hr' => hf r' (by simp [hr'])⟩
  · rintro ⟨⟨hf, h1, h2, h3, h4⟩, hc, hfs⟩
    exact ⟨Log.scan_cons.2 ⟨h1, h2, h3, h4, Log.scan_pos.1 hc⟩, by simpa using ⟨hf, hfs⟩⟩

theorem reads_append :
    Reads shard prev (rs ++ rs') ↔
      Reads shard prev rs ∧ Reads shard (Log.chainEnd prev rs) rs' := by
  induction rs generalizing prev with
  | nil => exact ⟨fun h => ⟨reads_nil, h⟩, fun h => h.2⟩
  | cons r rs ih =>
    rw [List.cons_append, reads_cons, ih, reads_cons, chainEnd_cons]
    exact and_assoc.symm

/-- Bytes that begin with such a record, and the record. -/
theorem nextRecord_encode (h : Reads shard prev (r :: rs)) (rest : List UInt8) :
    nextRecord shard prev (r.encode ++ rest) = .ok (r, rest) :=
  nextRecord_ok.2 ⟨rfl, (reads_cons.1 h).1⟩

/-- Every file is a sequence of records and an end where the reading stops. -/
theorem exists_reads (shard : Nat) (prev : Hash) (bytes : List UInt8) :
    ∃ rs u stop, bytes = encodeAll rs ++ u ∧ Reads shard prev rs ∧
      nextRecord shard (Log.chainEnd prev rs) u = .error stop := by
  induction hn : bytes.length using Nat.strongRecOn generalizing prev bytes with
  | _ n ih =>
    cases hx : nextRecord shard prev bytes with
    | error stop => exact ⟨[], bytes, stop, rfl, reads_nil, hx⟩
    | ok p =>
      obtain ⟨r, rest⟩ := p
      obtain ⟨rfl, hr⟩ := nextRecord_ok.1 hx
      have hpos := length_encode_pos r
      rw [List.length_append] at hn
      obtain ⟨rs, u, stop, rfl, hreads, hu⟩ := ih rest.length (by omega) r.hash rest rfl
      refine ⟨r :: rs, u, stop, by simp, reads_cons.2 ⟨hr, hreads⟩, ?_⟩
      rw [chainEnd_cons, hu]

/-- The records before the place where the reading stops are those that are read. -/
theorem readRecords_eq {stop : Stop} (h : Reads shard prev rs)
    (hu : nextRecord shard (Log.chainEnd prev rs) u = .error stop)
    (hfuel : (encodeAll rs ++ u).length < fuel) :
    readRecords shard fuel prev (encodeAll rs ++ u) = (rs, stop) := by
  induction rs generalizing fuel prev with
  | nil =>
    obtain ⟨fuel, rfl⟩ : ∃ k, fuel = k + 1 := ⟨fuel - 1, by omega⟩
    rw [encodeAll_nil, List.nil_append, readRecords, show nextRecord shard prev u = _ from hu]
  | cons r rs ih =>
    obtain ⟨fuel, rfl⟩ : ∃ k, fuel = k + 1 := ⟨fuel - 1, by omega⟩
    have hpos := length_encode_pos r
    rw [chainEnd_cons] at hu
    rw [encodeAll_cons, List.append_assoc, List.length_append] at hfuel
    rw [encodeAll_cons, List.append_assoc, readRecords, nextRecord_encode h]
    have hrest : readRecords shard fuel r.hash (encodeAll rs ++ u) = (rs, stop) :=
      ih (reads_cons.1 h).2 hu (by omega)
    simp only [hrest]

/-- Nothing is left at the end. -/
theorem nextRecord_nil (shard : Nat) (prev : Hash) : nextRecord shard prev [] = .error .eof := by
  simp [nextRecord]

theorem eq_nil_of_eof (h : nextRecord shard prev u = .error .eof) : u = [] := by
  by_contra hne
  simp only [nextRecord, if_neg hne] at h
  split_ifs at h <;> cases h

/-- The index checks pass where the records start and go on as they should. -/
theorem checkIndices_ok :
    checkIndices seed rs = .ok () ↔
      Log.indexGap rs = none ∧ (seed = zeroHash → ∀ r ∈ rs.head?, r.index = 1) := by
  unfold checkIndices
  cases hg : Log.indexGap rs with
  | some p => simp
  | none =>
    cases hh : rs.head? with
    | none => simp
    | some r => simp

theorem checkIndices_error {e : HaError} (h : checkIndices seed rs = .error e) :
    ∃ msg, e = .corrupt msg := by
  unfold checkIndices at h
  split at h
  · cases h
    exact ⟨_, rfl⟩
  · split at h
    · split at h
      · cases h
        exact ⟨_, rfl⟩
      · cases h
    · cases h

/-- What passes the index checks. -/
theorem checked_eq_ok {g : LogFile} :
    (do checkIndices seed rs; return g : Except HaError LogFile) = .ok f ↔
      checkIndices seed rs = .ok () ∧ g = f := by
  cases hc : checkIndices seed rs with
  | error e => simp [Except.bind, bind]
  | ok u => simp [Except.bind, bind, pure, Except.pure]

/-- A file of complete records opens when the indices are in order. -/
theorem replay_whole (h : Reads shard seed rs) (k : Nat) :
    replay shard seed (fuel + 1) k (encodeAll rs) = do
      checkIndices seed rs
      return ⟨⟨shard, rs, seed, k⟩, encodeAll rs⟩ := by
  have hread : readRecords shard ((encodeAll rs).length + 1) seed (encodeAll rs ++ []) =
      (rs, .eof) := readRecords_eq h (nextRecord_nil shard _) (by simp)
  rw [List.append_nil] at hread
  rw [replay, hread]

/-- A file that ends in bytes that no record is read from. -/
theorem open_tail {why : String} (h : Reads shard seed rs)
    (hu : nextRecord shard (Log.chainEnd seed rs) u = .error (.tail why)) :
    open' shard seed (encodeAll rs ++ u) =
      if Log.hasMagic (u.drop 4) then
        .error (.corrupt (why ++ " 且其后仍存在合法记录(offset=" ++
          toString (rs.map Record.wireLen).sum ++ "):中间损坏,拒绝启动"))
      else do
        checkIndices seed rs
        return ⟨⟨shard, rs, seed, u.length⟩, encodeAll rs⟩ := by
  have hread : readRecords shard ((encodeAll rs ++ u).length + 1) seed (encodeAll rs ++ u) =
      (rs, .tail why) := readRecords_eq h hu (by omega)
  have hoff := length_encodeAll rs
  have hne : u ≠ [] := by
    rintro rfl
    rw [nextRecord_nil] at hu
    cases hu
  have hlen : (encodeAll rs ++ u).length = (encodeAll rs).length + u.length := List.length_append
  have hpos := List.length_pos_iff.2 hne
  obtain ⟨k, hk⟩ : ∃ k, (encodeAll rs ++ u).length = k + 1 :=
    ⟨(encodeAll rs ++ u).length - 1, by omega⟩
  rw [open', replay, hread]
  simp only [← hoff, List.drop_left, List.take_left]
  split
  · rfl
  · rw [hk, replay_whole h, show k + 1 - (encodeAll rs).length = u.length by omega]

/-- Which files open, and what they open to: the records up to the place where the reading stops,
without the end that is cut. -/
theorem open_ok_iff {bytes : List UInt8} :
    open' shard seed bytes = .ok f ↔ ∃ rs u, bytes = encodeAll rs ++ u ∧ Valid shard seed rs ∧
      Droppable shard (Log.chainEnd seed rs) u ∧
      f = ⟨⟨shard, rs, seed, u.length⟩, encodeAll rs⟩ := by
  constructor
  · intro hopen
    obtain ⟨rs, u, stop, rfl, hr, hu⟩ := exists_reads shard seed bytes
    have hvalid : checkIndices seed rs = .ok () → Valid shard seed rs := fun hc =>
      { toReads := hr, consecutive := (checkIndices_ok.1 hc).1, first := (checkIndices_ok.1 hc).2 }
    cases stop with
    | eof =>
      have hnil := eq_nil_of_eof hu
      subst hnil
      rw [List.append_nil, open', replay_whole hr, checked_eq_ok] at hopen
      obtain ⟨hc, rfl⟩ := hopen
      exact ⟨rs, [], rfl, hvalid hc, .inl rfl, rfl⟩
    | tail why =>
      rw [open_tail hr hu] at hopen
      split at hopen
      · cases hopen
      · next hm =>
        rw [checked_eq_ok] at hopen
        obtain ⟨hc, rfl⟩ := hopen
        exact ⟨rs, u, rfl, hvalid hc, .inr ⟨⟨why, hu⟩, by simpa using hm⟩, rfl⟩
    | corrupt msg =>
      rw [open', replay, readRecords_eq hr hu (Nat.lt_succ_self _)] at hopen
      cases hopen
  · rintro ⟨rs, u, rfl, hv, hd, rfl⟩
    have hc : checkIndices seed rs = .ok () := checkIndices_ok.2 ⟨hv.consecutive, hv.first⟩
    rcases hd with rfl | ⟨⟨why, hu⟩, hm⟩
    · rw [List.append_nil, open', replay_whole hv.toReads, hc]
      rfl
    · rw [open_tail hv.toReads hu, hm, hc]
      rfl

/-- A file that does not open is reported as corrupt. -/
theorem open_error {bytes : List UInt8} {e : HaError} (h : open' shard seed bytes = .error e) :
    ∃ msg, e = .corrupt msg := by
  have hfinish : ∀ {rs : List Record} {g : LogFile},
      (do checkIndices seed rs; return g : Except HaError LogFile) = .error e →
        ∃ msg, e = .corrupt msg := by
    intro rs g hx
    cases hc : checkIndices seed rs with
    | ok u =>
      rw [hc] at hx
      cases hx
    | error e' =>
      rw [hc] at hx
      cases hx
      exact checkIndices_error hc
  obtain ⟨rs, u, stop, rfl, hr, hu⟩ := exists_reads shard seed bytes
  cases stop with
  | eof =>
    have hnil := eq_nil_of_eof hu
    subst hnil
    rw [List.append_nil, open', replay_whole hr] at h
    exact hfinish h
  | tail why =>
    rw [open_tail hr hu] at h
    split at h
    · cases h
      exact ⟨_, rfl⟩
    · exact hfinish h
  | corrupt msg =>
    rw [open', replay, readRecords_eq hr hu (Nat.lt_succ_self _)] at h
    cases h
    exact ⟨_, rfl⟩

end LogFile

end Rdsctl.Ha
