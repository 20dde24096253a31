import Mathlib.Data.Nat.Find
import Mathlib.Data.Nat.Prime.Defs

/-!
# SHA-256 as FIPS 180-4 defines it

The standard on strings of bits: the functions on 32-bit words, the constants as bits of square and cube
roots, the padding, the message schedule and the rounds over every block. Below each definition stand
the facts by which a program on bytes is compared with it.
-/

namespace Rdsctl.Fips180

/-! ## Bits and words -/

/-- The `w` low-order bits of a number, the most significant first. -/
def toBits (w n : Nat) : List Bool := (List.range w).map fun i => n.testBit (w - 1 - i)

/-- The number that a string of bits stands for. -/
def ofBits (bs : List Bool) : Nat := bs.foldl (fun n b => 2 * n + b.toNat) 0

/-- A word is 32 bits. -/
abbrev Word := BitVec 32

def toWord (bs : List Bool) : Word := BitVec.ofNat 32 (ofBits bs)

section
variable {w n : Nat} {bs cs : List Bool}

@[simp] theorem length_toBits (w n : Nat) : (toBits w n).length = w := by simp [toBits]

theorem toBits_zero (w : Nat) : toBits w 0 = List.replicate w false := by
  simp [toBits, List.eq_replicate_iff]

theorem toBits_add (v w n : Nat) : toBits (v + w) n = toBits v (n / 2 ^ w) ++ toBits w n := by
  rw [toBits, List.range_add, List.map_append, List.map_map]
  congr 1
  · refine List.map_congr_left fun i hi => ?_
    have := List.mem_range.1 hi
    rw [Nat.testBit_div_two_pow, show v + w - 1 - i = w + (v - 1 - i) by omega]
    congr 1
    omega
  · refine List.map_congr_left fun i _ => ?_
    show n.testBit (v + w - 1 - (v + i)) = _
    congr 1
    omega

theorem toBits_mod (w n : Nat) : toBits w (n % 2 ^ w) = toBits w n := by
  refine List.map_congr_left fun i hi => ?_
  have := List.mem_range.1 hi
  rw [Nat.testBit_mod_two_pow, decide_eq_true (by omega), Bool.true_and]

theorem foldl_bits (bs : List Bool) (n : Nat) :
    bs.foldl (fun n b => 2 * n + b.toNat) n = n * 2 ^ bs.length + ofBits bs := by
  induction bs generalizing n with
  | nil => simp [ofBits]
  | cons b bs ih =>
    have hcons : ofBits (b :: bs) = b.toNat * 2 ^ bs.length + ofBits bs := by
      rw [show ofBits (b :: bs) = bs.foldl _ (2 * 0 + b.toNat) from rfl, ih, Nat.mul_zero, Nat.zero_add]
    rw [List.foldl_cons, ih, hcons, List.length_cons, Nat.pow_succ', Nat.add_mul, Nat.add_assoc,
      Nat.mul_comm 2 n, Nat.mul_assoc]

theorem ofBits_append (bs cs : List Bool) : ofBits (bs ++ cs) = ofBits bs * 2 ^ cs.length + ofBits cs := by
  rw [ofBits, List.foldl_append, foldl_bits cs]
  rfl

theorem ofBits_toBits (h : n < 2 ^ w) : ofBits (toBits w n) = n := by
  induction w generalizing n with
  | zero =>
    have : n = 0 := by omega
    rw [this]
    rfl
  | succ w ih =>
    rw [Nat.add_comm w 1, toBits_add, ofBits_append, length_toBits, ← toBits_mod w n,
      ih (Nat.mod_lt _ (Nat.two_pow_pos w))]
    have hbit : n / 2 ^ w < 2 := by
      rw [Nat.div_lt_iff_lt_mul (Nat.two_pow_pos w), ← Nat.pow_succ']
      exact h
    have hone : ofBits (toBits 1 (n / 2 ^ w)) = n / 2 ^ w := by
      generalize n / 2 ^ w = b at hbit
      rcases b with _ | _ | b
      · rfl
      · rfl
      · omega
    rw [hone, Nat.mul_comm]
    exact Nat.div_add_mod n (2 ^ w)

end

/-! ## Functions and constants -/

def ROTR (n : Nat) (x : Word) : Word := x.rotateRight n
def SHR (n : Nat) (x : Word) : Word := x >>> n
def Ch (x y z : Word) : Word := (x &&& y) ^^^ (~~~x &&& z)
def Maj (x y z : Word) : Word := (x &&& y) ^^^ (x &&& z) ^^^ (y &&& z)
def bigSigma0 (x : Word) : Word := ROTR 2 x ^^^ ROTR 13 x ^^^ ROTR 22 x
def bigSigma1 (x : Word) : Word := ROTR 6 x ^^^ ROTR 11 x ^^^ ROTR 25 x
def sigma0 (x : Word) : Word := ROTR 7 x ^^^ ROTR 18 x ^^^ SHR 3 x
def sigma1 (x : Word) : Word := ROTR 17 x ^^^ ROTR 19 x ^^^ SHR 10 x

/-- The integer part of a root. -/
def floorRoot (k n : Nat) : Nat := Nat.findGreatest (fun r => r ^ k ≤ n) n

theorem floorRoot_eq {k n r : Nat} (hk : k ≠ 0) (hle : r ^ k ≤ n) (hlt : n < (r + 1) ^ k) :
    floorRoot k n = r := by
  rw [floorRoot, Nat.findGreatest_eq_iff]
  refine ⟨(Nat.le_self_pow hk r).trans hle, fun _ => hle, fun m hm _ hc => ?_⟩
  exact absurd (hlt.trans_le (Nat.pow_le_pow_left hm k)) (Nat.not_lt.2 hc)

/-- The first 32 bits of the fractional part of the `k`-th root of `p`. -/
def rootBits (k p : Nat) : Word := BitVec.ofNat 32 (floorRoot k (p * 2 ^ (32 * k)))

/-- They are found by a number with these bits whose `k`-th power is right. -/
theorem rootBits_eq {k p q : Nat} {x : Word} (hk : k ≠ 0)
    (hle : (q * 2 ^ 32 + x.toNat) ^ k ≤ p * 2 ^ (32 * k))
    (hlt : p * 2 ^ (32 * k) < (q * 2 ^ 32 + x.toNat + 1) ^ k) : rootBits k p = x := by
  rw [rootBits, floorRoot_eq hk hle hlt]
  refine BitVec.eq_of_toNat_eq ?_
  rw [BitVec.toNat_ofNat, Nat.mul_add_mod', Nat.mod_eq_of_lt x.isLt]

/-- The first sixty-four primes. -/
def primes : List Nat := (List.range 312).filter Nat.Prime

/-- Trial division by the numbers below twenty. -/
def passes (p : Nat) : Bool :=
  decide (1 < p) && (List.range 20).all fun d => d < 2 || p ≤ d || p % d != 0

theorem prime_iff_passes {p : Nat} (h : p < 400) : p.Prime ↔ passes p = true := by
  simp only [passes, Bool.and_eq_true, decide_eq_true_eq, List.all_eq_true, List.mem_range,
    Bool.or_eq_true, bne_iff_ne]
  constructor
  · intro hp
    refine ⟨hp.one_lt, fun d _ => ?_⟩
    by_cases hmod : p % d = 0
    · rcases hp.eq_one_or_self_of_dvd d (Nat.dvd_of_mod_eq_zero hmod) with rfl | rfl
      · exact .inl (.inl (by decide))
      · exact .inl (.inr (Nat.le_refl d))
    · exact .inr hmod
  · rintro ⟨hp, htest⟩
    refine Nat.prime_def_le_sqrt.2 ⟨hp, fun d hd hle hdvd => ?_⟩
    have hsqrt : d < 20 := hle.trans_lt (Nat.sqrt_lt'.2 (by omega))
    rcases htest d hsqrt with (hlt | hpd) | hmod
    · omega
    · exact absurd (hle.trans_lt (Nat.sqrt_lt_self hp)) (Nat.not_lt.2 hpd)
    · exact hmod (Nat.mod_eq_zero_of_dvd hdvd)

theorem primes_eq : primes = (List.range 312).filter passes :=
  List.filter_congr fun p hp => by
    have := List.mem_range.1 hp
    rw [Bool.eq_iff_iff, decide_eq_true_eq, prime_iff_passes (by omega)]

def K (t : Nat) : Word := rootBits 3 (primes.getD t 0)

/-- The working variables, and the words of a hash value. -/
structure Vars where
  a : Word
  b : Word
  c : Word
  d : Word
  e : Word
  f : Word
  g : Word
  h : Word

def Vars.words (v : Vars) : List Word := [v.a, v.b, v.c, v.d, v.e, v.f, v.g, v.h]

/-- The initial hash value. -/
def H0 : Vars :=
  let root i := rootBits 2 (primes.getD i 0)
  ⟨root 0, root 1, root 2, root 3, root 4, root 5, root 6, root 7⟩

/-! ## Padding -/

theorem exists_zeros (l : Nat) : ∃ k, (l + 1 + k) % 512 = 448 :=
  ⟨(959 - l % 512) % 512, by omega⟩

/-- The least number of zero bits that fill a message and its closing one bit up to 448 modulo 512. -/
def zeros (l : Nat) : Nat := Nat.find (exists_zeros l)

theorem zeros_eq {l k : Nat} (h : (l + 1 + k) % 512 = 448) (hk : k < 512) : zeros l = k := by
  rw [zeros, Nat.find_eq_iff]
  exact ⟨h, fun m hm hc => by omega⟩

/-- The padded message: a one bit, zeros, and the length as 64 bits. -/
def pad (M : List Bool) : List Bool :=
  M ++ [true] ++ List.replicate (zeros M.length) false ++ toBits 64 M.length

/-! ## The hash -/

/-- Word `t` of the message schedule. -/
def W (m : Nat → Word) (t : Nat) : Word :=
  if t < 16 then m t
  else sigma1 (W m (t - 2)) + W m (t - 7) + sigma0 (W m (t - 15)) + W m (t - 16)
termination_by t

/-- One round. -/
def round (v : Vars) (k w : Word) : Vars :=
  let t1 := v.h + bigSigma1 v.e + Ch v.e v.f v.g + k + w
  let t2 := bigSigma0 v.a + Maj v.a v.b v.c
  ⟨t1 + t2, v.a, v.b, v.c, v.d + t1, v.e, v.f, v.g⟩

/-- The hash value after a block from the one before it. -/
def compress (h : Vars) (m : Nat → Word) : Vars :=
  let v := (List.range 64).foldl (fun v t => round v (K t) (W m t)) h
  ⟨v.a + h.a, v.b + h.b, v.c + h.c, v.d + h.d, v.e + h.e, v.f + h.f, v.g + h.g, v.h + h.h⟩

/-- Word `j` of block `i`. -/
def blockWord (M : List Bool) (i j : Nat) : Word := toWord ((M.drop (512 * i + 32 * j)).take 32)

/-- The hash value after `n` blocks. -/
def chain (M : List Bool) : Nat → Vars
  | 0 => H0
  | i + 1 => compress (chain M i) (blockWord M i)

/-- The 256 bits of the message digest. -/
def sha256 (M : List Bool) : List Bool :=
  (chain (pad M) ((pad M).length / 512)).words.flatMap fun w => toBits 32 w.toNat

end Rdsctl.Fips180
