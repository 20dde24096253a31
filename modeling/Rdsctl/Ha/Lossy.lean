import Rdsctl.Lib.Utf8
import Rdsctl.Ha.Basic

/-!
# Lossy decoding

What `String::from_utf8_lossy` makes of bytes that need not be UTF-8: well-formed characters are
kept and every ill-formed sequence becomes U+FFFD. Bytes that follow a text are decoded on their
own (`lossy_encode_append`), the text is never shorter than its bytes (`length_le_lossy`), and ASCII
is neither lost nor made up (`count_lossy`).
-/

namespace Rdsctl.Ha

open Utf8

theorem asBytes_eq_encode (s : String) : asBytes s = encode s.toList := toList_toUTF8 s

/-- The characters of the decoded text. -/
def lossy (b : List UInt8) : List Char := replaceIllFormed b.length b

variable {b : List UInt8}

/-- The lead bytes of characters of three and four bytes. -/
theorem isUTF8FirstByte_of_le {x : UInt8} (h : 0xE0 ≤ x.toNat ∧ x.toNat ≤ 0xF4) :
    x.IsUTF8FirstByte := by
  have hall : ∀ n < 256, 0xE0 ≤ n ∧ n ≤ 0xF4 → (UInt8.ofNat n).IsUTF8FirstByte := by
    decide +kernel
  have := hall x.toNat x.toNat_lt h
  rwa [UInt8.ofNat_toNat] at this

/-- An ill-formed sequence is one byte, or a lead byte and one or two bytes that may follow it. -/
theorem illFormedLen_cases (b : List UInt8) :
    illFormedLen b = 1 ∨
    (∃ b0 b1 rest, b = b0 :: b1 :: rest ∧ illFormedLen b = 2 ∧ b0.IsUTF8FirstByte ∧
      128 ≤ b1.toNat) ∨
    (∃ b0 b1 b2 rest, b = b0 :: b1 :: b2 :: rest ∧ illFormedLen b = 3 ∧ b0.IsUTF8FirstByte ∧
      128 ≤ b1.toNat ∧ 128 ≤ b2.toNat) := by
  rcases b with _ | ⟨b0, _ | ⟨b1, rest⟩⟩
  · exact .inl rfl
  · exact .inl rfl
  rcases rest with _ | ⟨b2, rest⟩
  all_goals
    simp only [illFormedLen, Bool.and_eq_true, beq_iff_eq, bne_iff_ne, decide_eq_true_eq,
      UInt8.le_iff_toNat_le, ← UInt8.toNat_inj, UInt8.reduceToNat]
    repeat' split
    all_goals first
      | exact .inl rfl
      | exact .inr (.inl ⟨_, _, _, rfl, rfl, isUTF8FirstByte_of_le (by omega), by omega⟩)
      | exact .inr (.inr ⟨_, _, _, _, rfl, rfl, isUTF8FirstByte_of_le (by omega), by omega,
          by omega⟩)

theorem illFormedLen_pos (b : List UInt8) : 1 ≤ illFormedLen b := by
  rcases illFormedLen_cases b with h | ⟨b0, b1, rest, rfl, h, -⟩ | ⟨b0, b1, b2, rest, rfl, h, -⟩ <;>
    omega

theorem illFormedLen_le_three (b : List UInt8) : illFormedLen b ≤ 3 := by
  rcases illFormedLen_cases b with h | ⟨b0, b1, rest, rfl, h, -⟩ | ⟨b0, b1, b2, rest, rfl, h, -⟩ <;>
    omega

/-- More fuel than there are bytes changes nothing. -/
theorem replaceIllFormed_of_length_le {n : Nat} (h : b.length ≤ n) :
    replaceIllFormed n b = lossy b := by
  have hany : ∀ k m (b : List UInt8), b.length ≤ k → b.length ≤ m →
      replaceIllFormed k b = replaceIllFormed m b := by
    intro k
    induction k with
    | zero =>
      intro m b hk _
      rw [List.eq_nil_of_length_eq_zero (Nat.le_zero.1 hk)]
      cases m <;> rfl
    | succ k ih =>
      intro m b hk hm
      rcases b with _ | ⟨x, b⟩
      · cases m <;> rfl
      rcases m with _ | m
      · simp at hm
      simp only [replaceIllFormed]
      simp only [List.length_cons] at hk hm
      split
      · next c hc =>
        have hpos := c.utf8Size_pos
        rw [ih m _ (by simp; omega) (by simp; omega)]
      · have hpos := illFormedLen_pos (x :: b)
        rw [ih m _ (by simp; omega) (by simp; omega)]
  exact hany n b.length b h (Nat.le_refl _)

@[simp] theorem lossy_nil : lossy [] = [] := rfl

/-- The character at the front of the bytes. -/
def firstChar (b : List UInt8) : Option Char := (ByteArray.mk b.toArray).utf8DecodeChar? 0

theorem firstChar_utf8EncodeChar_append (c : Char) (b : List UInt8) :
    firstChar (String.utf8EncodeChar c ++ b) = some c := by
  have heq : ByteArray.mk (String.utf8EncodeChar c ++ b).toArray =
      (String.utf8EncodeChar c).toByteArray ++ b.toByteArray := by
    apply ByteArray.ext
    simp [List.data_toByteArray]
  rw [firstChar, heq, ByteArray.utf8DecodeChar?_utf8EncodeChar_append]

theorem exists_of_firstChar {c : Char} (h : firstChar b = some c) :
    ∃ rest, b = String.utf8EncodeChar c ++ rest := by
  have heq := congrArg (·.data.toList) (ByteArray.eq_of_utf8DecodeChar?_eq_some h)
  simp only [ByteArray.data_append, Array.toList_append, List.data_toByteArray] at heq
  exact ⟨_, heq⟩

/-- A character at the front of the bytes is kept. -/
theorem lossy_utf8EncodeChar_append (c : Char) (b : List UInt8) :
    lossy (String.utf8EncodeChar c ++ b) = c :: lossy b := by
  have hfirst := firstChar_utf8EncodeChar_append c b
  have hpos := c.utf8Size_pos
  obtain ⟨n, hn⟩ : ∃ n, (String.utf8EncodeChar c ++ b).length = n + 1 :=
    Nat.exists_eq_add_one.2 (by simp; omega)
  obtain ⟨x, l, hl⟩ := List.exists_cons_of_length_eq_add_one hn
  unfold firstChar at hfirst
  rw [lossy, hn, hl, replaceIllFormed, ← hl, hfirst]
  · rw [List.length_append, String.length_utf8EncodeChar] at hn
    simp only [List.drop_left' (String.length_utf8EncodeChar c)]
    rw [replaceIllFormed_of_length_le (by omega)]
  · simp

/-- An ill-formed sequence at the front of the bytes is replaced. -/
theorem lossy_of_firstChar_eq_none (hb : b ≠ []) (h : firstChar b = none) :
    lossy b = Char.ofNat 0xFFFD :: lossy (b.drop (illFormedLen b)) := by
  rcases b with _ | ⟨x, b⟩
  · exact absurd rfl hb
  have hpos := illFormedLen_pos (x :: b)
  unfold firstChar at h
  rw [lossy, List.length_cons, replaceIllFormed, h]
  · exact congrArg (_ :: ·) (replaceIllFormed_of_length_le (by simp; omega))
  · simp

/-- Bytes that follow a text are decoded on their own. -/
theorem lossy_encode_append (cs : List Char) (b : List UInt8) :
    lossy (encode cs ++ b) = cs ++ lossy b := by
  induction cs with
  | nil => rfl
  | cons c cs ih =>
    rw [encode_cons, List.append_assoc, lossy_utf8EncodeChar_append, ih, List.cons_append]

@[simp] theorem lossy_encode (cs : List Char) : lossy (encode cs) = cs := by
  have h := lossy_encode_append cs []
  rwa [List.append_nil, lossy_nil, List.append_nil] at h

theorem toList_fromUtf8Lossy (b : List UInt8) : (fromUtf8Lossy b).toList = lossy b := by
  unfold fromUtf8Lossy String.fromUTF8?
  split
  · next s hs =>
    split at hs
    · next hv =>
      cases hs
      have hb : b = encode (String.fromUTF8 (ByteArray.mk b.toArray) hv).toList := by
        rw [← toList_toUTF8]
        rfl
      conv_rhs => rw [hb]
      rw [lossy_encode]
    · cases hs
  · rw [String.toList_ofList, lossy]

/-- Bytes are a text and what follows it, or a text and an ill-formed sequence. -/
theorem lossy_induction {P : List UInt8 → Prop} (hnil : P [])
    (hchar : ∀ c b, P b → P (String.utf8EncodeChar c ++ b))
    (hill : ∀ b, b ≠ [] → firstChar b = none → P (b.drop (illFormedLen b)) → P b) :
    ∀ b, P b := by
  intro b
  induction hn : b.length using Nat.strong_induction_on generalizing b with
  | h n ih =>
    subst hn
    by_cases hb : b = []
    · exact hb ▸ hnil
    have hlen := List.length_pos_of_ne_nil hb
    cases hf : firstChar b with
    | none =>
      have hpos := illFormedLen_pos b
      exact hill b hb hf (ih _ (by simp; omega) _ rfl)
    | some c =>
      obtain ⟨rest, rfl⟩ := exists_of_firstChar hf
      have hpos := c.utf8Size_pos
      exact hchar c rest (ih _ (by simp; omega) _ rfl)

/-! ## What is lost -/

/-- An ASCII byte is a character. -/
theorem exists_utf8EncodeChar_of_lt {x : UInt8} (h : x.toNat < 128) :
    ∃ c, String.utf8EncodeChar c = [x] := by
  have hall : ∀ n < 128, String.utf8EncodeChar (Char.ofNat n) = [UInt8.ofNat n] := by
    decide +kernel
  exact ⟨_, by rw [hall x.toNat h, UInt8.ofNat_toNat]⟩

/-- No ASCII byte is in an ill-formed sequence. -/
theorem le_of_mem_take_illFormedLen (h : firstChar b = none) {x : UInt8}
    (hx : x ∈ b.take (illFormedLen b)) : 128 ≤ x.toNat := by
  have hhead : ∀ y rest, b = y :: rest → 128 ≤ y.toNat := by
    rintro y rest rfl
    refine Nat.le_of_not_lt fun hlt => ?_
    obtain ⟨c, hc⟩ := exists_utf8EncodeChar_of_lt hlt
    have hsome := firstChar_utf8EncodeChar_append c rest
    rw [hc, List.singleton_append, h] at hsome
    cases hsome
  rcases illFormedLen_cases b with hk | ⟨b0, b1, rest, rfl, hk, -, h1⟩ |
    ⟨b0, b1, b2, rest, rfl, hk, -, h1, h2⟩
  · rcases b with _ | ⟨b0, rest⟩
    · simp at hx
    · simp only [hk, List.take_succ_cons, List.take_zero, List.mem_singleton] at hx
      exact hx ▸ hhead b0 rest rfl
  · simp only [hk, List.take_succ_cons, List.take_zero, List.mem_cons, List.not_mem_nil,
      or_false] at hx
    rcases hx with rfl | rfl
    · exact hhead _ _ rfl
    · exact h1
  · simp only [hk, List.take_succ_cons, List.take_zero, List.mem_cons, List.not_mem_nil,
      or_false] at hx
    rcases hx with rfl | rfl | rfl
    · exact hhead _ _ rfl
    · exact h1
    · exact h2

/-- A byte inside a character is ill-formed on its own. -/
theorem lossy_cons_of_not_first {x : UInt8} (hx : ¬ x.IsUTF8FirstByte) (b : List UInt8) :
    lossy (x :: b) = Char.ofNat 0xFFFD :: lossy b := by
  have hnone : firstChar (x :: b) = none := by
    rcases hf : firstChar (x :: b) with _ | c
    · rfl
    obtain ⟨rest, hrest⟩ := exists_of_firstChar hf
    refine absurd ?_ hx
    have hpos := c.utf8Size_pos
    obtain ⟨y, l, hl⟩ := List.exists_cons_of_ne_nil (String.utf8EncodeChar_ne_nil (c := c))
    have hlen : 0 < (String.utf8EncodeChar c).length := by simpa using hpos
    have hget : (String.utf8EncodeChar c)[0].IsUTF8FirstByte :=
      UInt8.isUTF8FirstByte_getElem_utf8EncodeChar.2 rfl
    simp only [hl, List.getElem_cons_zero] at hget
    rw [hl, List.cons_append, List.cons.injEq] at hrest
    rwa [hrest.1]
  have hone : illFormedLen (x :: b) = 1 := by
    rcases illFormedLen_cases (x :: b) with h | ⟨b0, b1, rest, heq, -, hfirst, -⟩ |
      ⟨b0, b1, b2, rest, heq, -, hfirst, -⟩
    · exact h
    · cases heq
      exact absurd hfirst hx
    · cases heq
      exact absurd hfirst hx
  rw [lossy_of_firstChar_eq_none (List.cons_ne_nil x b) hnone, hone, List.drop_one, List.tail_cons]

/-- The decoded text is never shorter than the bytes. -/
theorem length_le_lossy (b : List UInt8) : b.length ≤ byteLen (lossy b) := by
  induction b using lossy_induction with
  | hnil => exact Nat.le_refl _
  | hchar c b ih =>
    rw [lossy_utf8EncodeChar_append, List.length_append, String.length_utf8EncodeChar, byteLen_cons]
    omega
  | hill b hb hf ih =>
    have hthree : (Char.ofNat 0xFFFD).utf8Size = 3 := by decide
    have hle := illFormedLen_le_three b
    rw [lossy_of_firstChar_eq_none hb hf, byteLen_cons, hthree]
    rw [List.length_drop] at ih
    omega

/-- An ASCII character occurs in the decoded text as often as its byte in the bytes. -/
theorem count_lossy {x : Char} (hx : x.utf8Size = 1) (b : List UInt8) :
    (lossy b).count x = b.count x.val.toUInt8 := by
  induction b using lossy_induction with
  | hnil => rfl
  | hchar c b ih =>
    rw [lossy_utf8EncodeChar_append, List.count_append, count_utf8EncodeChar hx, List.count_cons, ih,
      Nat.add_comm]
    simp
  | hill b hb hf ih =>
    have hne : Char.ofNat 0xFFFD ≠ x := by
      rintro rfl
      revert hx
      decide
    have hzero : (b.take (illFormedLen b)).count x.val.toUInt8 = 0 := by
      refine List.count_eq_zero.2 fun hmem => ?_
      have hle := le_of_mem_take_illFormedLen hf hmem
      have hval : x.val.toNat ≤ 127 := Char.utf8Size_eq_one_iff.1 hx
      rw [UInt32.toNat_toUInt8] at hle
      omega
    rw [lossy_of_firstChar_eq_none hb hf, List.count_cons_of_ne hne, ih]
    conv_rhs => rw [← List.take_append_drop (illFormedLen b) b, List.count_append, hzero]
    rw [Nat.zero_add]

/-! ## ASCII characters part the text -/

/-- An ill-formed sequence has no more bytes than there are. -/
theorem illFormedLen_le_length {b : List UInt8} (hb : b ≠ []) : illFormedLen b ≤ b.length := by
  rcases illFormedLen_cases b with h | ⟨b0, b1, rest, rfl, h, -⟩ | ⟨b0, b1, b2, rest, rfl, h, -⟩
  · exact h ▸ List.length_pos_of_ne_nil hb
  · simp [h]
  · simp [h]

/-- An ASCII byte behind an ill-formed sequence is not in it. -/
theorem illFormedLen_append {b : List UInt8} (hb : b ≠ []) {x : UInt8} (hx : x.toNat < 128)
    (rest : List UInt8) : illFormedLen (b ++ x :: rest) = illFormedLen b := by
  have hcont : ∀ lo hi : UInt8, 128 ≤ lo.toNat → (decide (lo ≤ x) && decide (x ≤ hi)) = false := by
    intro lo hi hlo
    have hnot : ¬lo ≤ x := fun hle => by
      have := UInt8.le_iff_toNat_le.1 hle
      omega
    simp [hnot]
  rcases b with _ | ⟨b0, _ | ⟨b1, _ | ⟨b2, b⟩⟩⟩
  · exact absurd rfl hb
  · simp [illFormedLen, hcont]
  · simp [illFormedLen, hcont]
  · rfl

/-- And a character is not found where there was none. -/
theorem firstChar_append_eq_none {b : List UInt8} (hb : b ≠ []) (h : firstChar b = none) {x : UInt8}
    (hx : x.toNat < 128) (rest : List UInt8) : firstChar (b ++ x :: rest) = none := by
  cases hf : firstChar (b ++ x :: rest) with
  | none => rfl
  | some d =>
    obtain ⟨tail, htail⟩ := exists_of_firstChar hf
    rcases List.append_eq_append_iff.1 htail with ⟨r, hd, hr⟩ | ⟨r, rfl, -⟩
    · rcases r with _ | ⟨y, r⟩
      · have hsome := firstChar_utf8EncodeChar_append d []
        rw [hd, List.append_nil, List.append_nil, h] at hsome
        cases hsome
      · obtain ⟨rfl, -⟩ := List.cons_eq_cons.1 hr
        have hmem : x ∈ String.utf8EncodeChar d := by simp [hd]
        have hone : d.utf8Size = 1 := by
          by_contra hne
          have := le_of_mem_utf8EncodeChar hne hmem
          omega
        have hlen := congrArg List.length hd
        rw [String.length_utf8EncodeChar, hone, List.length_append, List.length_cons] at hlen
        have := List.length_pos_of_ne_nil hb
        omega
    · rw [firstChar_utf8EncodeChar_append] at h
      cases h

/-- An ASCII character parts what is decoded. -/
theorem lossy_append_cons {c : Char} (hc : c.utf8Size = 1) (a b : List UInt8) :
    lossy (a ++ c.val.toUInt8 :: b) = lossy a ++ c :: lossy b := by
  have hlt : c.val.toUInt8.toNat < 128 := by
    have hval : c.val.toNat ≤ 127 := Char.utf8Size_eq_one_iff.1 hc
    rw [UInt32.toNat_toUInt8]
    omega
  induction a using lossy_induction with
  | hnil =>
    have henc := lossy_utf8EncodeChar_append c b
    rwa [String.utf8EncodeChar_eq_singleton hc] at henc
  | hchar d a ih => rw [List.append_assoc, lossy_utf8EncodeChar_append, lossy_utf8EncodeChar_append, ih,
      List.cons_append]
  | hill a ha hf ih =>
    rw [lossy_of_firstChar_eq_none (by simp) (firstChar_append_eq_none ha hf hlt b),
      illFormedLen_append ha hlt b, List.drop_append_of_le_length (illFormedLen_le_length ha), ih,
      lossy_of_firstChar_eq_none ha hf, List.cons_append]

/-- An ASCII character in the decoded text is one of the bytes. -/
theorem of_lossy_eq_append {c : Char} (hc : c.utf8Size = 1) {u v : List Char} {b : List UInt8}
    (h : lossy b = u ++ c :: v) :
    ∃ x y, b = x ++ c.val.toUInt8 :: y ∧ lossy x = u ∧ lossy y = v := by
  induction b using lossy_induction generalizing u with
  | hnil => simp at h
  | hchar d b ih =>
    rw [lossy_utf8EncodeChar_append] at h
    rcases u with _ | ⟨e, u⟩
    · obtain ⟨rfl, rfl⟩ := List.cons_eq_cons.1 h
      exact ⟨[], b, by rw [String.utf8EncodeChar_eq_singleton hc]; rfl, rfl, rfl⟩
    · obtain ⟨rfl, htail⟩ := List.cons_eq_cons.1 h
      obtain ⟨x, y, rfl, rfl, rfl⟩ := ih htail
      exact ⟨String.utf8EncodeChar d ++ x, y, by rw [List.append_assoc],
        lossy_utf8EncodeChar_append d x, rfl⟩
  | hill b hb hf ih =>
    have hlossy := lossy_of_firstChar_eq_none hb hf
    rw [hlossy] at h
    rcases u with _ | ⟨e, u⟩
    · obtain ⟨rfl, -⟩ := List.cons_eq_cons.1 h
      exact absurd hc (by decide)
    · obtain ⟨rfl, htail⟩ := List.cons_eq_cons.1 h
      obtain ⟨x, y, hxy, hx, rfl⟩ := ih htail
      have heq : b = (b.take (illFormedLen b) ++ x) ++ c.val.toUInt8 :: y := by
        rw [List.append_assoc, ← hxy, List.take_append_drop]
      refine ⟨_, y, heq, ?_, rfl⟩
      rw [heq, lossy_append_cons hc, ← heq, h] at hlossy
      exact List.append_cancel_right (hlossy.trans (List.cons_append ..).symm)

end Rdsctl.Ha
