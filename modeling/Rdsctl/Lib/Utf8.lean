import Mathlib.Data.List.Count
import Mathlib.Data.Nat.Basic
import Mathlib.Algebra.Ring.Nat

/-!
# UTF-8 texts as lists of bytes

`encode` is the encoding of a text, and a byte that starts a character is one of
`UInt8.IsUTF8FirstByte`. Bytes that start with such a byte are cut from a text between two
characters (`encode_split`), and an ASCII character occurs as often as its byte (`count_encode`).
-/

namespace Rdsctl.Utf8

/-- The bytes of a text. -/
def encode (cs : List Char) : List UInt8 := cs.flatMap String.utf8EncodeChar

@[simp] theorem encode_nil : encode [] = [] := rfl

@[simp] theorem encode_cons (c : Char) (cs : List Char) :
    encode (c :: cs) = String.utf8EncodeChar c ++ encode cs := rfl

@[simp] theorem encode_append (cs ds : List Char) : encode (cs ++ ds) = encode cs ++ encode ds :=
  List.flatMap_append

theorem encode_eq_utf8Encode (cs : List Char) : encode cs = cs.utf8Encode.data.toList := by
  rw [List.utf8Encode, List.data_toByteArray, List.toList_toArray]
  rfl

/-- The bytes of a text are those of its string. -/
theorem toList_toUTF8 (s : String) : s.toUTF8.data.toList = encode s.toList := by
  rw [encode_eq_utf8Encode, ← String.toByteArray_ofList, String.ofList_toList]
  rfl

/-- The length of a text in bytes. -/
def byteLen (cs : List Char) : Nat := (cs.map Char.utf8Size).sum

@[simp] theorem byteLen_nil : byteLen [] = 0 := rfl

@[simp] theorem byteLen_cons (c : Char) (cs : List Char) :
    byteLen (c :: cs) = c.utf8Size + byteLen cs := by
  simp [byteLen]

@[simp] theorem byteLen_append (cs ds : List Char) :
    byteLen (cs ++ ds) = byteLen cs + byteLen ds := by
  simp [byteLen]

@[simp] theorem length_encode (cs : List Char) : (encode cs).length = byteLen cs := by
  induction cs with
  | nil => rfl
  | cons c cs ih => simp [ih]

@[simp] theorem encode_eq_nil {cs : List Char} : encode cs = [] ↔ cs = [] := by
  rcases cs with _ | ⟨c, cs⟩ <;> simp [String.utf8EncodeChar_ne_nil]

/-! ## Where characters start -/

/-- Only its first byte starts a character. -/
theorem not_isUTF8FirstByte_of_mem_tail {c : Char} {b : UInt8}
    (h : b ∈ (String.utf8EncodeChar c).tail) : ¬ b.IsUTF8FirstByte := by
  obtain ⟨i, hi, rfl⟩ := List.mem_iff_getElem.1 h
  rw [List.getElem_tail, UInt8.isUTF8FirstByte_getElem_utf8EncodeChar]
  omega

/-- Bytes that start with the first byte of a character are cut off between two characters. -/
theorem encode_split {cs : List Char} {a b : List UInt8} (h : encode cs = a ++ b)
    (hb : ∀ x ∈ b.head?, x.IsUTF8FirstByte) :
    ∃ ds es, cs = ds ++ es ∧ encode ds = a ∧ encode es = b := by
  induction cs generalizing a with
  | nil =>
    obtain ⟨rfl, rfl⟩ := List.nil_eq_append_iff.1 h
    exact ⟨[], [], rfl, rfl, rfl⟩
  | cons c cs ih =>
    rcases a with _ | ⟨x, a⟩
    · exact ⟨[], c :: cs, rfl, rfl, h⟩
    rw [encode_cons] at h
    rcases List.append_eq_append_iff.1 h with ⟨a', ha, hcs⟩ | ⟨r, hr, hb'⟩
    · obtain ⟨ds, es, rfl, rfl, hes⟩ := ih hcs
      exact ⟨c :: ds, es, rfl, ha.symm, hes⟩
    · -- the cut is in the bytes of `c`, so nothing of them is behind it
      rcases r with _ | ⟨y, r⟩
      · exact ⟨[c], cs, rfl, by simpa using hr, hb'.symm⟩
      · refine absurd (hb y (by simp [hb'])) (not_isUTF8FirstByte_of_mem_tail (c := c) ?_)
        rw [hr]
        simp

/-! ## ASCII -/

/-- A byte is read as the character with its number. -/
theorem toNat_ofNat_byte (b : UInt8) : (Char.ofNat b.toNat).toNat = b.toNat := by
  have hlt : b.toNat < 256 := UInt8.toNat_lt b
  rw [Char.ofNat, dif_pos (Or.inl (by omega))]
  rfl

/-- Letters and digits are those of ASCII. -/
theorem isAlphanum_lt {c : Char} (h : c.isAlphanum) : c.toNat < 128 := by
  unfold Char.isAlphanum Char.isAlpha Char.isUpper Char.isLower Char.isDigit at h
  simp only [Bool.or_eq_true, Bool.and_eq_true, decide_eq_true_eq] at h
  rcases h with (h | h) | h
  all_goals exact Nat.lt_of_le_of_lt h.2 (by decide)

/-- A character that is not ASCII has no ASCII byte. -/
theorem le_of_mem_utf8EncodeChar {c : Char} (hc : c.utf8Size ≠ 1) {b : UInt8}
    (h : b ∈ String.utf8EncodeChar c) : 128 ≤ b.toNat := by
  have hval : ¬ c.val.toNat ≤ 0x7f := fun hle => hc (Char.utf8Size_eq_one_iff.2 hle)
  simp only [String.utf8EncodeChar, if_neg hval] at h
  split at h
  · simp only [List.mem_cons, List.not_mem_nil, or_false] at h
    rcases h with rfl | rfl <;> simp <;> omega
  · split at h
    · simp only [List.mem_cons, List.not_mem_nil, or_false] at h
      rcases h with rfl | rfl | rfl <;> simp <;> omega
    · simp only [List.mem_cons, List.not_mem_nil, or_false] at h
      rcases h with rfl | rfl | rfl | rfl <;> simp <;> omega

theorem utf8EncodeChar_inj {c d : Char}
    (h : String.utf8EncodeChar c = String.utf8EncodeChar d) : c = d := by
  have hc := @ByteArray.utf8DecodeChar?_utf8EncodeChar_append ByteArray.empty c
  rw [h, ByteArray.utf8DecodeChar?_utf8EncodeChar_append] at hc
  exact (Option.some.inj hc).symm

/-- How often the byte of an ASCII character occurs in a character. -/
theorem count_utf8EncodeChar {x : Char} (hx : x.utf8Size = 1) (c : Char) :
    (String.utf8EncodeChar c).count x.val.toUInt8 = if c = x then 1 else 0 := by
  have henc := String.utf8EncodeChar_eq_singleton hx
  by_cases hc : c.utf8Size = 1
  · rw [String.utf8EncodeChar_eq_singleton hc, List.count_singleton]
    refine if_congr ?_ rfl rfl
    rw [beq_iff_eq]
    refine ⟨fun h => utf8EncodeChar_inj ?_, fun h => h ▸ rfl⟩
    rw [henc, String.utf8EncodeChar_eq_singleton hc, h]
  · have hne : c ≠ x := fun h => hc (h ▸ hx)
    rw [if_neg hne, List.count_eq_zero]
    intro hmem
    have hle := le_of_mem_utf8EncodeChar hc hmem
    have hval : x.val.toNat ≤ 127 := Char.utf8Size_eq_one_iff.1 hx
    rw [UInt32.toNat_toUInt8] at hle
    omega

/-- An ASCII character occurs in a text as often as its byte in the bytes. -/
theorem count_encode {x : Char} (hx : x.utf8Size = 1) (cs : List Char) :
    (encode cs).count x.val.toUInt8 = cs.count x := by
  induction cs with
  | nil => rfl
  | cons c cs ih =>
    rw [encode_cons, List.count_append, count_utf8EncodeChar hx, ih, List.count_cons, Nat.add_comm]
    simp

end Rdsctl.Utf8
