import Mathlib.Data.List.OfFn
import Rdsctl.Lib.Fips180
import Rdsctl.Sha256

/-!
# The digest is the standard's

`digest` computes, byte by byte and block by block, what FIPS 180-4 says of strings of bits
(`Rdsctl.Fips180`): the words (`toBitVec_fromBeBytes`), the padding (`bits_pad`), the schedule
(`extend_schedule`), the rounds (`vars_compress`) and the chaining over the blocks (`vars_chain`).
-/

namespace Rdsctl.Sha256

open Fips180 (toBits ofBits Word)

/-! ## Bytes and bits -/

/-- The bits of a string of bytes. -/
def bits (data : List UInt8) : List Bool := data.flatMap fun b => toBits 8 b.toNat

theorem bits_cons (b : UInt8) (data : List UInt8) : bits (b :: data) = toBits 8 b.toNat ++ bits data := rfl

theorem bits_append (d e : List UInt8) : bits (d ++ e) = bits d ++ bits e := List.flatMap_append

@[simp] theorem length_bits (data : List UInt8) : (bits data).length = 8 * data.length := by
  induction data with
  | nil => rfl
  | cons b data ih =>
    rw [bits_cons, List.length_append, Fips180.length_toBits, ih, List.length_cons]
    omega

theorem drop_bits (k : Nat) (data : List UInt8) : (bits data).drop (8 * k) = bits (data.drop k) := by
  induction k generalizing data with
  | zero => rfl
  | succ k ih =>
    cases data with
    | nil => rfl
    | cons b data =>
      rw [bits_cons, Nat.mul_succ, Nat.add_comm, ← List.drop_drop, List.drop_left' (by simp), ih]
      rfl

theorem take_bits (k : Nat) (data : List UInt8) : (bits data).take (8 * k) = bits (data.take k) := by
  induction k generalizing data with
  | zero => rfl
  | succ k ih =>
    cases data with
    | nil => rfl
    | cons b data =>
      rw [bits_cons, Nat.mul_succ, List.take_append, Fips180.length_toBits, Nat.add_sub_cancel, ih,
        List.take_of_length_le (by rw [Fips180.length_toBits]; omega)]
      rfl

/-- The bits of some bytes in a row. -/
theorem slice_bits {i k m n : Nat} (hm : m = 8 * i) (hn : n = 8 * k) (data : List UInt8) :
    ((bits data).drop m).take n = bits ((data.drop i).take k) := by
  rw [hm, hn, drop_bits, take_bits]

/-- The big-endian bytes of a number have its bits. -/
theorem bits_beBytes (w n : Nat) : bits (beBytes w n) = toBits (8 * w) n := by
  induction w with
  | zero => rfl
  | succ w ih =>
    have hcons : beBytes (w + 1) n = UInt8.ofNat (n / 256 ^ w) :: beBytes w n := by
      rw [beBytes, List.range_succ_eq_map, List.map_cons, List.map_map]
      congr 1
      refine List.map_congr_left fun i _ => ?_
      show UInt8.ofNat (n / 256 ^ (w + 1 - 1 - (i + 1))) = _
      congr 3
      omega
    rw [hcons, bits_cons, ih, Nat.mul_succ, Nat.add_comm, Fips180.toBits_add, UInt8.toNat_ofNat',
      Fips180.toBits_mod, Nat.pow_mul]

/-! ## Words -/

theorem sigma0_eq (x : UInt32) :
    (rotr x 7 ^^^ rotr x 18 ^^^ (x >>> 3)).toBitVec = Fips180.sigma0 x.toBitVec := rfl

theorem sigma1_eq (x : UInt32) :
    (rotr x 17 ^^^ rotr x 19 ^^^ (x >>> 10)).toBitVec = Fips180.sigma1 x.toBitVec := rfl

/-- Bytes that are shifted into place and joined. -/
theorem shiftLeft_or_bytes {a b c d : Nat} (hb : b < 2 ^ 8) (hc : c < 2 ^ 8) (hd : d < 2 ^ 8) :
    a <<< 24 ||| b <<< 16 ||| c <<< 8 ||| d = ((a * 2 ^ 8 + b) * 2 ^ 8 + c) * 2 ^ 8 + d := by
  have hab : a <<< 24 ||| b <<< 16 = (a * 2 ^ 8 + b) <<< 16 := by
    rw [← Nat.shiftLeft_add_eq_or_of_lt (by rw [Nat.shiftLeft_eq]; omega)]
    simp only [Nat.shiftLeft_eq]
    omega
  have habc : (a * 2 ^ 8 + b) <<< 16 ||| c <<< 8 = ((a * 2 ^ 8 + b) * 2 ^ 8 + c) <<< 8 := by
    rw [← Nat.shiftLeft_add_eq_or_of_lt (by rw [Nat.shiftLeft_eq]; omega)]
    simp only [Nat.shiftLeft_eq]
    omega
  rw [hab, habc, ← Nat.shiftLeft_add_eq_or_of_lt hd, Nat.shiftLeft_eq]

theorem toBitVec_fromBeBytes (b0 b1 b2 b3 : UInt8) :
    (fromBeBytes b0 b1 b2 b3).toBitVec = Fips180.toWord (bits [b0, b1, b2, b3]) := by
  have h0 := b0.toNat_lt
  have h1 := b1.toNat_lt
  have h2 := b2.toNat_lt
  have h3 := b3.toNat_lt
  have hbits : ofBits (bits [b0, b1, b2, b3]) =
      ((b0.toNat * 2 ^ 8 + b1.toNat) * 2 ^ 8 + b2.toNat) * 2 ^ 8 + b3.toNat := by
    simp only [bits_cons, Fips180.ofBits_append, Fips180.ofBits_toBits, h0, h1, h2, h3,
      List.length_append, Fips180.length_toBits]
    simp [bits, ofBits]
    omega
  have hword : (fromBeBytes b0 b1 b2 b3).toNat =
      ((b0.toNat * 2 ^ 8 + b1.toNat) * 2 ^ 8 + b2.toNat) * 2 ^ 8 + b3.toNat := by
    have hshift (b : UInt8) {k : Nat} (hb : b.toNat < 2 ^ 8) (hk : k ≤ 24) :
        b.toNat <<< k % 2 ^ 32 = b.toNat <<< k := by
      refine Nat.mod_eq_of_lt ?_
      rw [Nat.shiftLeft_eq]
      have := Nat.pow_le_pow_right (show 0 < 2 by decide) hk
      exact Nat.lt_of_lt_of_le (Nat.mul_lt_mul_of_lt_of_le hb this (by decide)) (by decide)
    rw [fromBeBytes, ← shiftLeft_or_bytes h1 h2 h3, ← hshift b0 h0 (Nat.le_refl 24),
      ← hshift b1 h1 (show 16 ≤ 24 by decide), ← hshift b2 h2 (show 8 ≤ 24 by decide)]
    rfl
  refine BitVec.eq_of_toNat_eq ?_
  rw [Fips180.toWord, BitVec.toNat_ofNat, hbits, ← hword]
  exact (Nat.mod_eq_of_lt (fromBeBytes b0 b1 b2 b3).toBitVec.isLt).symm

theorem exists_four (block : List UInt8) (h : 4 ≤ block.length) :
    ∃ b0 b1 b2 b3 rest, block = b0 :: b1 :: b2 :: b3 :: rest := by
  rcases block with _ | ⟨b0, _ | ⟨b1, _ | ⟨b2, _ | ⟨b3, rest⟩⟩⟩⟩
  · simp at h
  · simp at h
  · simp at h
  · simp at h
  · exact ⟨b0, b1, b2, b3, rest, rfl⟩

theorem length_words {block : List UInt8} {k : Nat} (h : block.length = 4 * k) :
    (words block).length = k := by
  induction k generalizing block with
  | zero =>
    rw [List.length_eq_zero_iff.1 h]
    rfl
  | succ k ih =>
    obtain ⟨b0, b1, b2, b3, rest, rfl⟩ := exists_four block (by omega)
    simp only [List.length_cons] at h
    rw [words, List.length_cons, ih (by omega)]

/-- The words of a block are its groups of 32 bits. -/
theorem toBitVec_words (j : Nat) {block : List UInt8} (h : 4 * j + 4 ≤ block.length) :
    ((words block).getD j 0).toBitVec = Fips180.toWord (((bits block).drop (32 * j)).take 32) := by
  rw [slice_bits (show 32 * j = 8 * (4 * j) by omega) (show 32 = 8 * 4 from rfl)]
  obtain ⟨b0, b1, b2, b3, rest, rfl⟩ := exists_four block (by omega)
  induction j generalizing b0 b1 b2 b3 rest with
  | zero => exact toBitVec_fromBeBytes b0 b1 b2 b3
  | succ j ih =>
    simp only [List.length_cons] at h ih
    obtain ⟨c0, c1, c2, c3, rest', rfl⟩ := exists_four rest (by omega)
    rw [words, List.getD_cons_succ, Nat.mul_succ, List.drop_succ_cons, List.drop_succ_cons,
      List.drop_succ_cons, List.drop_succ_cons]
    exact ih c0 c1 c2 c3 rest' (by simp only [List.length_cons] at h; omega)

/-! ## The schedule -/

/-- The array holds the first words of the schedule. -/
def Scheduled (m : Nat → Word) (w : Array UInt32) : Prop :=
  ∀ t < w.size, (w.getD t 0).toBitVec = Fips180.W m t

theorem toBitVec_nextWord {m : Nat → Word} {w : Array UInt32} (h : Scheduled m w) (hs : 16 ≤ w.size) :
    (nextWord w).toBitVec = Fips180.W m w.size := by
  rw [Fips180.W, if_neg (by omega), ← h _ (show w.size - 2 < w.size by omega),
    ← h _ (show w.size - 7 < w.size by omega), ← h _ (show w.size - 15 < w.size by omega),
    ← h _ (show w.size - 16 < w.size by omega), ← sigma0_eq, ← sigma1_eq]
  simp only [nextWord, UInt32.toBitVec_add]
  ac_rfl

theorem Scheduled.push {m : Nat → Word} {w : Array UInt32} (h : Scheduled m w) (hs : 16 ≤ w.size) :
    Scheduled m (w.push (nextWord w)) := by
  intro t ht
  rw [Array.size_push] at ht
  rw [Array.getD_eq_getD_getElem?, Array.getElem?_push]
  by_cases hlast : t = w.size
  · rw [if_pos hlast, hlast]
    exact toBitVec_nextWord h hs
  · rw [if_neg hlast, ← Array.getD_eq_getD_getElem?]
    exact h t (by omega)

theorem Scheduled.extend {m : Nat → Word} (n : Nat) {w : Array UInt32} (h : Scheduled m w)
    (hs : 16 ≤ w.size) : Scheduled m (extend n w) ∧ (extend n w).size = w.size + n := by
  induction n generalizing w with
  | zero => exact ⟨h, rfl⟩
  | succ n ih =>
    obtain ⟨hn, hsize⟩ := ih (h.push hs) (by rw [Array.size_push]; omega)
    refine ⟨hn, hsize.trans ?_⟩
    rw [Array.size_push]
    omega

/-- The schedule of a block. -/
theorem extend_schedule {m : Nat → Word} {block : List UInt8} (hlen : block.length = 64)
    (hm : ∀ j < 16, m j = Fips180.toWord (((bits block).drop (32 * j)).take 32)) {t : Nat}
    (ht : t < 64) :
    ((extend 48 (words block).toArray).getD t 0).toBitVec = Fips180.W m t := by
  have hsize : (words block).toArray.size = 16 := by
    rw [List.size_toArray, length_words (show block.length = 4 * 16 from hlen)]
  have hfirst : Scheduled m (words block).toArray := by
    intro t ht
    rw [hsize] at ht
    rw [Fips180.W, if_pos ht, hm t ht, ← toBitVec_words t (by omega)]
    simp
  obtain ⟨h, hs⟩ := hfirst.extend 48 (Nat.le_of_eq hsize.symm)
  exact h t (by omega)

/-! ## The rounds -/

/-- The words of the state. -/
def State.vars (s : State) : Fips180.Vars :=
  ⟨s.a.toBitVec, s.b.toBitVec, s.c.toBitVec, s.d.toBitVec, s.e.toBitVec, s.f.toBitVec, s.g.toBitVec,
    s.h.toBitVec⟩

theorem vars_round (s : State) (k w : UInt32) :
    (round s k w).vars = Fips180.round s.vars k.toBitVec w.toBitVec := rfl

/-- Words that are the first bits of the roots of the first primes: each is completed to a number whose
power is right. -/
def AreRootBits (k : Nat) (ws : List UInt32) : Prop :=
  ((Fips180.primes.zip ws).all fun (p, x) => (List.range 18).any fun q =>
    decide ((q * 2 ^ 32 + x.toNat) ^ k ≤ p * 2 ^ (32 * k) ∧
      p * 2 ^ (32 * k) < (q * 2 ^ 32 + x.toNat + 1) ^ k)) = true

theorem AreRootBits.toBitVec {k t : Nat} {ws : List UInt32} (h : AreRootBits k ws) (hk : k ≠ 0)
    (ht : t < ws.length) (hp : t < Fips180.primes.length) :
    (ws.getD t 0).toBitVec = Fips180.rootBits k (Fips180.primes.getD t 0) := by
  have hmem : (Fips180.primes.getD t 0, ws.getD t 0) ∈ Fips180.primes.zip ws := by
    refine List.mem_of_getElem? (i := t) (List.getElem?_zip_eq_some.2 ⟨?_, ?_⟩)
    · simp [List.getElem?_eq_getElem hp]
    · simp [List.getElem?_eq_getElem ht]
  obtain ⟨q, -, hq⟩ := List.any_eq_true.1 (List.all_eq_true.1 h _ hmem)
  obtain ⟨hle, hlt⟩ := of_decide_eq_true hq
  exact (Fips180.rootBits_eq hk hle hlt).symm

theorem length_primes : Fips180.primes.length = 64 := by
  rw [Fips180.primes_eq]
  decide +kernel

theorem areRootBits_K : AreRootBits 3 K.toList := by
  rw [AreRootBits, Fips180.primes_eq]
  decide +kernel

theorem areRootBits_H0 : AreRootBits 2 [H0.a, H0.b, H0.c, H0.d, H0.e, H0.f, H0.g, H0.h] := by
  rw [AreRootBits, Fips180.primes_eq]
  decide +kernel

theorem toBitVec_K {t : Nat} (ht : t < 64) : (K.getD t 0).toBitVec = Fips180.K t := by
  have hlist : K.getD t 0 = K.toList.getD t 0 := by
    rw [Array.getD_eq_getD_getElem?, List.getD_eq_getElem?_getD, Array.getElem?_toList]
  rw [hlist, areRootBits_K.toBitVec (by decide) ht (by rw [length_primes]; exact ht), Fips180.K]

theorem vars_H0 : H0.vars = Fips180.H0 := by
  have hroot {i : Nat} (hi : i < 8) := areRootBits_H0.toBitVec (t := i) (by decide) hi
    (by rw [length_primes]; omega)
  rw [Fips180.H0]
  dsimp only
  rw [← hroot (show 0 < 8 by decide), ← hroot (show 1 < 8 by decide), ← hroot (show 2 < 8 by decide),
    ← hroot (show 3 < 8 by decide), ← hroot (show 4 < 8 by decide), ← hroot (show 5 < 8 by decide),
    ← hroot (show 6 < 8 by decide), ← hroot (show 7 < 8 by decide)]
  rfl

/-- The rounds on the words of a schedule. -/
theorem vars_foldl {m : Nat → Word} {w : Array UInt32}
    (hw : ∀ t < 64, (w.getD t 0).toBitVec = Fips180.W m t) {l : List Nat} (hl : ∀ t ∈ l, t < 64)
    (s : State) : (l.foldl (fun r i => round r (K.getD i 0) (w.getD i 0)) s).vars =
      l.foldl (fun v t => Fips180.round v (Fips180.K t) (Fips180.W m t)) s.vars := by
  induction l generalizing s with
  | nil => rfl
  | cons t l ih =>
    have ht := hl t List.mem_cons_self
    rw [List.foldl_cons, List.foldl_cons, ih (fun u hu => hl u (List.mem_cons_of_mem t hu)),
      vars_round, toBitVec_K ht, hw t ht]

/-- One block. -/
theorem vars_compress (s : State) {m : Nat → Word} {block : List UInt8} (hlen : block.length = 64)
    (hm : ∀ j < 16, m j = Fips180.toWord (((bits block).drop (32 * j)).take 32)) :
    (compress s block).vars = Fips180.compress s.vars m := by
  have hfold := vars_foldl (fun t ht => extend_schedule hlen hm ht) (l := List.range 64)
    (fun t ht => List.mem_range.1 ht) s
  rw [Fips180.compress, ← hfold]
  simp only [compress, State.vars, UInt32.toBitVec_add, Fips180.Vars.mk.injEq]
  exact ⟨BitVec.add_comm _ _, BitVec.add_comm _ _, BitVec.add_comm _ _, BitVec.add_comm _ _,
    BitVec.add_comm _ _, BitVec.add_comm _ _, BitVec.add_comm _ _, BitVec.add_comm _ _⟩

/-! ## Padding and blocks -/

theorem zeros_length (n : Nat) : Fips180.zeros (8 * n) = 7 + 8 * padLen n := by
  apply Fips180.zeros_eq
  · unfold padLen
    omega
  · unfold padLen
    omega

theorem bits_replicate (n : Nat) : bits (List.replicate n 0) = List.replicate (8 * n) false := by
  induction n with
  | zero => rfl
  | succ n ih =>
    rw [List.replicate_succ, bits_cons, ih, show (0 : UInt8).toNat = 0 from rfl, Fips180.toBits_zero,
      List.replicate_append_replicate]
    congr 1
    omega

/-- The padding is that of the bits. -/
theorem bits_pad (data : List UInt8) : bits (pad data) = Fips180.pad (bits data) := by
  have hone : toBits 8 (0x80 : UInt8).toNat = true :: List.replicate 7 false := by decide
  rw [pad, Fips180.pad, bits_append, bits_append, bits_cons, bits_replicate, bits_beBytes, length_bits,
    zeros_length, hone, ← List.replicate_append_replicate, Nat.mul_comm data.length]
  simp

theorem length_pad (data : List UInt8) : (pad data).length = 64 * ((data.length + 72) / 64) := by
  have hlen : (beBytes 8 (data.length * 8)).length = 8 := by simp [beBytes]
  simp only [pad, padLen, List.length_append, List.length_cons, List.length_replicate, hlen]
  omega

theorem chunks_eq {n m : Nat} (hm : m ≤ n) {l : List UInt8} (hl : l.length = 64 * m) :
    chunks n l = (List.range m).map fun i => (l.drop (64 * i)).take 64 := by
  induction n generalizing m l with
  | zero =>
    obtain rfl := Nat.le_zero.1 hm
    rfl
  | succ n ih =>
    cases m with
    | zero => rw [chunks, if_pos (by omega), List.range_zero, List.map_nil]
    | succ m =>
      rw [chunks, if_neg (by omega), ih (Nat.le_of_succ_le_succ hm) (by rw [List.length_drop]; omega),
        List.range_succ_eq_map, List.map_cons, List.map_map]
      congr 1
      refine List.map_congr_left fun i _ => ?_
      rw [List.drop_drop]
      congr 2
      omega

/-- The words of a block of a message. -/
theorem blockWord_bits {l : List UInt8} {i j : Nat} (hj : j < 16) :
    Fips180.blockWord (bits l) i j =
      Fips180.toWord (((bits ((l.drop (64 * i)).take 64)).drop (32 * j)).take 32) := by
  rw [← slice_bits (show 512 * i = 8 * (64 * i) by omega) (show 512 = 8 * 64 from rfl), List.drop_take,
    List.take_take, List.drop_drop, Nat.min_eq_left (by omega)]
  rfl

/-- The chaining over the blocks. -/
theorem vars_chain {l : List UInt8} {m : Nat} (hl : 64 * m ≤ l.length) :
    (((List.range m).map fun i => (l.drop (64 * i)).take 64).foldl compress H0).vars =
      Fips180.chain (bits l) m := by
  induction m with
  | zero => exact vars_H0
  | succ m ih =>
    have hblock : ((l.drop (64 * m)).take 64).length = 64 := by
      rw [List.length_take, List.length_drop]
      omega
    rw [List.range_succ, List.map_append, List.map_singleton, List.foldl_concat,
      vars_compress _ hblock fun j hj => blockWord_bits hj, ih (by omega), Fips180.chain]

/-! ## The digest -/

/-- One byte of a word. -/
theorem toUInt8_shiftRight (x : UInt32) {k : Nat} (hk : k < 4) :
    (x >>> UInt32.ofNat (8 * k)).toUInt8 = UInt8.ofNat (x.toNat / 256 ^ k) := by
  have hshift : 8 * k % 2 ^ 32 % 32 = 8 * k := by omega
  rw [← UInt8.toNat_inj, UInt32.toNat_toUInt8, UInt8.toNat_ofNat', UInt32.toNat_shiftRight,
    Nat.shiftRight_eq_div_pow, UInt32.toNat_ofNat', hshift, Nat.pow_mul]

/-- The bytes of the state are those of its words. -/
theorem toList_bytes (s : State) : s.bytes.toList =
    [s.a, s.b, s.c, s.d, s.e, s.f, s.g, s.h].flatMap fun w => beBytes 4 w.toNat := by
  have hbyte (i : Fin 32) (x : UInt32) : (x >>> UInt32.ofNat (8 * (3 - i.val % 4))).toUInt8 =
      UInt8.ofNat (x.toNat / 256 ^ (3 - i.val % 4)) := toUInt8_shiftRight x (by omega)
  simp only [State.bytes, hbyte, Vector.toList_ofFn]
  rfl

theorem bits_bytes (s : State) :
    bits s.bytes.toList = s.vars.words.flatMap fun w => toBits 32 w.toNat := by
  have hflat (ws : List UInt32) : bits (ws.flatMap fun w => beBytes 4 w.toNat) =
      ws.flatMap fun w => bits (beBytes 4 w.toNat) := List.flatMap_assoc
  rw [toList_bytes, hflat]
  simp only [bits_beBytes]
  rfl

theorem bits_digest (data : List UInt8) :
    bits (digest data).toList = Fips180.sha256 (bits data) := by
  have hblocks : (Fips180.pad (bits data)).length / 512 = (data.length + 72) / 64 := by
    rw [← bits_pad, length_bits, length_pad]
    omega
  rw [digest, bits_bytes, chunks_eq (by omega) (length_pad data), vars_chain (length_pad data).ge,
    bits_pad, Fips180.sha256, hblocks]

/-! ## Hexadecimal text -/

theorem hexDigit_injective {m n : Nat} (hm : m < 16) (hn : n < 16) (h : hexDigit m = hexDigit n) :
    m = n := by
  have hall : ∀ i : Fin 16, ∀ j : Fin 16, hexDigit i = hexDigit j → i = j := by decide
  exact congrArg Fin.val (hall ⟨m, hm⟩ ⟨n, hn⟩ h)

theorem toHex_injective : Function.Injective toHex := by
  intro d e h
  have hchars := String.ofList_injective h
  induction d generalizing e with
  | nil =>
    cases e with
    | nil => rfl
    | cons c e => simp at hchars
  | cons b d ih =>
    cases e with
    | nil => simp at hchars
    | cons c e =>
      simp only [List.flatMap_cons, List.cons_append, List.nil_append, List.cons.injEq] at hchars
      obtain ⟨hhigh, hlow, hrest⟩ := hchars
      have hb := b.toNat_lt
      have hc := c.toNat_lt
      have hdiv := hexDigit_injective (by omega) (by omega) hhigh
      have hmod := hexDigit_injective (by omega) (by omega) hlow
      rw [UInt8.toNat_inj.1 (show b.toNat = c.toNat by omega), ih (congrArg String.ofList hrest) hrest]

/-- The digest of every string of bytes is its SHA-256 value, and different bytes have different
hexadecimal texts. The standard's messages are shorter than `2 ^ 64` bits; beyond that both sides take
the length modulo `2 ^ 64`. -/
theorem digest_is_sha256 :
    (∀ data : List UInt8, bits (digest data).toList = Fips180.sha256 (bits data)) ∧
      Function.Injective toHex :=
  ⟨bits_digest, toHex_injective⟩

end Rdsctl.Sha256
