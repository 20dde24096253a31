import Std.Data.ExtTreeMap
import Mathlib.Data.List.Basic
import Mathlib.Algebra.Ring.Nat

/-!
# Errors, JSON documents and machine arithmetic of the HA kernel

`src/ha/mod.rs` and what its modules use of the standard library and of `serde_json`. A
`BTreeMap` is a `Std.ExtTreeMap`; a `u64` is a `Nat`, and the saturating operations of the source
are `satAdd` and `satMul`.
-/

namespace Rdsctl.Ha

/-- A `BTreeMap`. -/
abbrev BTreeMap (α β : Type) [Ord α] : Type := Std.ExtTreeMap α β

namespace BTreeMap

variable {α β : Type} [Ord α] [Std.TransOrd α]

/-- The values are those of the pairs. -/
theorem values_eq_map_toList (m : BTreeMap α β) : m.values = m.toList.map Prod.snd := by
  have h : m.values = m.foldr (fun _ v l => v :: l) [] := by
    rcases m with ⟨⟨q⟩⟩
    induction q using Quotient.ind with
    | _ t => rfl
  rw [h, Std.ExtTreeMap.foldr_eq_foldr_toList]
  induction m.toList with
  | nil => rfl
  | cons p ps ih => simp [ih]

/-- A map after an insertion, key by key. -/
theorem getElem?_insert_ite [Std.LawfulEqOrd α] [DecidableEq α] (m : BTreeMap α β) (k k' : α)
    (v : β) : (m.insert k v)[k']? = if k = k' then some v else m[k']? := by
  rw [Std.ExtTreeMap.getElem?_insert]
  by_cases h : k = k'
  · rw [if_pos h, if_pos (by rw [h]; exact Std.ReflCmp.compare_self)]
  · rw [if_neg h, if_neg fun hc => h (Std.LawfulEqCmp.eq_of_compare hc)]

/-- A map after a removal, key by key. -/
theorem getElem?_erase_ite [Std.LawfulEqOrd α] [DecidableEq α] (m : BTreeMap α β) (k k' : α) :
    (m.erase k)[k']? = if k = k' then none else m[k']? := by
  rw [Std.ExtTreeMap.getElem?_erase]
  by_cases h : k = k'
  · rw [if_pos h, if_pos (by rw [h]; exact Std.ReflCmp.compare_self)]
  · rw [if_neg h, if_neg fun hc => h (Std.LawfulEqCmp.eq_of_compare hc)]

/-- What a map holds after an insertion. -/
theorem insert_eq_some [Std.LawfulEqOrd α] {m : BTreeMap α β} {k k' : α} {v v' : β}
    (h : (m.insert k v)[k']? = some v') : (k' = k ∧ v' = v) ∨ m[k']? = some v' := by
  rw [Std.ExtTreeMap.getElem?_insert] at h
  split at h
  · next heq =>
    cases h
    exact .inl ⟨(Std.LawfulEqCmp.eq_of_compare heq).symm, rfl⟩
  · exact .inr h

end BTreeMap

/-- The errors of the kernel. `io` stands for every `std::io::Error`. -/
inductive HaError
  | io
  | corrupt (msg : String)
  | config (msg : String)
  | tailTruncated (droppedBytes : Nat)
  | notLeader (leader : Option String)
  | quorumUnavailable
  | transport (msg : String)
deriving DecidableEq, Repr

/-- `u64::MAX`. -/
def u64Max : Nat := 2 ^ 64 - 1

/-- `u64::saturating_add`. -/
def satAdd (a b : Nat) : Nat := min (a + b) u64Max

/-- `u64::saturating_mul`. -/
def satMul (a b : Nat) : Nat := min (a * b) u64Max

/-- Unicode `White_Space`, which `str::trim` strips. -/
def isWhiteSpace (c : Char) : Bool :=
  let n := c.toNat
  (9 ≤ n && n ≤ 13) || n == 0x20 || n == 0x85 || n == 0xA0 || n == 0x1680 ||
    (0x2000 ≤ n && n ≤ 0x200A) || n == 0x2028 || n == 0x2029 || n == 0x202F || n == 0x205F ||
    n == 0x3000

/-- `s.trim().is_empty()`. -/
def trimIsEmpty (s : String) : Bool := s.toList.all isWhiteSpace

/-- `str::as_bytes`. -/
def asBytes (s : String) : List UInt8 := s.toUTF8.data.toList

/-- How many bytes of an ill-formed sequence `String::from_utf8_lossy` replaces at once: the
longest prefix that some well-formed character starts with, and one byte at least. -/
def illFormedLen : List UInt8 → Nat
  | b0 :: b1 :: rest =>
    let cont (lo hi : UInt8) (b : UInt8) : Bool := lo ≤ b && b ≤ hi
    let third : Nat := match rest with
      | b2 :: _ => if cont 0x80 0xBF b2 then 3 else 2
      | [] => 2
    if b0 == 0xE0 && cont 0xA0 0xBF b1 then 2
    else if b0 == 0xED && cont 0x80 0x9F b1 then 2
    else if 0xE1 ≤ b0 && b0 ≤ 0xEF && b0 != 0xED && cont 0x80 0xBF b1 then 2
    else if b0 == 0xF0 && cont 0x90 0xBF b1 then third
    else if b0 == 0xF4 && cont 0x80 0x8F b1 then third
    else if 0xF1 ≤ b0 && b0 ≤ 0xF3 && cont 0x80 0xBF b1 then third
    else 1
  | _ => 1

/-- Decode bytes character by character, with U+FFFD for every ill-formed sequence. -/
def replaceIllFormed : Nat → List UInt8 → List Char
  | 0, _ => []
  | _, [] => []
  | n + 1, b =>
    match (ByteArray.mk b.toArray).utf8DecodeChar? 0 with
    | some c => c :: replaceIllFormed n (b.drop c.utf8Size)
    | none => Char.ofNat 0xFFFD :: replaceIllFormed n (b.drop (illFormedLen b))

/-- `String::from_utf8_lossy`. -/
def fromUtf8Lossy (b : List UInt8) : String :=
  match String.fromUTF8? (ByteArray.mk b.toArray) with
  | some s => s
  | none => String.ofList (replaceIllFormed b.length b)

/-- Text survives the trip through its bytes. -/
@[simp] theorem fromUtf8Lossy_asBytes (s : String) : fromUtf8Lossy (asBytes s) = s := by
  have hb : ByteArray.mk (asBytes s).toArray = s.toUTF8 := by
    rw [asBytes, Array.toArray_toList]
  rw [fromUtf8Lossy, hb, String.fromUTF8?, String.toUTF8_eq_toByteArray, dif_pos s.isValidUTF8]
  rfl

/-- `serde_json::Value`. An integer is `number`, an `f64` is `float` with its bits. -/
inductive Value
  | null
  | bool (b : Bool)
  | number (n : Int)
  | float (bits : UInt64)
  | string (s : String)
  | array (vs : List Value)
  | object (fields : List (String × Value))
deriving Repr

namespace Value

/-- `Value::get`. The fields of an object are an association list. -/
def get (v : Value) (key : String) : Option Value :=
  match v with
  | .object fields => fields.lookup key
  | _ => none

def asStr : Value → Option String
  | .string s => some s
  | _ => none

def asBool : Value → Option Bool
  | .bool b => some b
  | _ => none

def asU64 : Value → Option Nat
  | .number n => if 0 ≤ n then some n.toNat else none
  | _ => none

def asArray : Value → Option (List Value)
  | .array vs => some vs
  | _ => none

def setField (key : String) (x : Value) : List (String × Value) → List (String × Value)
  | [] => [(key, x)]
  | (k, v) :: fields => if k = key then (k, x) :: fields else (k, v) :: setField key x fields

/-- `v[key] = x`, for an object or `null`. -/
def set (v : Value) (key : String) (x : Value) : Value :=
  match v with
  | .object fields => .object (setField key x fields)
  | _ => .object [(key, x)]

theorem lookup_cons_ite (k : String) (p : String × Value) (fields : List (String × Value)) :
    (p :: fields).lookup k = if k = p.1 then some p.2 else fields.lookup k := by
  by_cases h : k = p.1
  · rw [if_pos h, List.lookup_cons, beq_iff_eq.2 h]
  · rw [if_neg h, List.lookup_cons, beq_eq_false_iff_ne.2 h]

theorem lookup_setField (key : String) (x : Value) (fields : List (String × Value)) (k : String) :
    (setField key x fields).lookup k = if k = key then some x else fields.lookup k := by
  induction fields with
  | nil => exact lookup_cons_ite k (key, x) []
  | cons p fields ih =>
    simp only [setField]
    split
    · next hk =>
      subst hk
      simp only [lookup_cons_ite]
      split <;> rfl
    · next hk =>
      simp only [lookup_cons_ite, ih]
      split
      · next h => rw [if_neg fun hc => hk (h.symm.trans hc)]
      · rfl

/-- The fields of an object after one of them is set. -/
theorem get_set (fields : List (String × Value)) (key : String) (x : Value) (k : String) :
    ((Value.object fields).set key x).get k =
      if k = key then some x else (Value.object fields).get k :=
  lookup_setField key x fields k

/-- The texts of an array of texts. -/
def strings (v : Value) : Option (List String) := v.asArray.map (·.filterMap asStr)

end Value

/-- A JSON text, up to what it parses to: the text of a value, or a text that does not parse. -/
inductive JsonText (α : Type)
  | ofValue (a : α)
  | malformed (raw : String)

/-- `serde_json::to_string`. -/
def JsonText.toString {α : Type} (a : α) : JsonText α := .ofValue a

/-- `serde_json::from_str`. -/
def JsonText.fromStr {α : Type} : JsonText α → Except String α
  | .ofValue a => .ok a
  | .malformed raw => .error raw

/-- fence token: a monotone `(shard, term, index)`. -/
structure Fence where
  shard : Nat
  term : Nat
  index : Nat
deriving DecidableEq, Repr

end Rdsctl.Ha
