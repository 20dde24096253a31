import Rdsctl.Lib.Fallible
import Rdsctl.Lib.Register
import Rdsctl.Lib.Run
import Rdsctl.Sha256
import Rdsctl.Ha.Text

/-!
# Fences and the guard that enforces them

`Fence` of `src/ha/mod.rs` with its wire format, and `src/ha/fence.rs`: the executor remembers for
each key the greatest fence it has let through, in a file of its own, and refuses any other. The
guard has no state but the files of its directory.
-/

namespace Rdsctl.Ha

open Fallible Register

/-! ## Fences -/

namespace Fence

/-- `<` of the derived order: by shard, then term, then index. -/
def lt (a b : Fence) : Bool :=
  decide (a.shard < b.shard ∨ (a.shard = b.shard ∧
    (a.term < b.term ∨ (a.term = b.term ∧ a.index < b.index))))

/-- The order of the fences of one shard; fences of different shards are not compared. -/
instance : PartialOrder Fence where
  le a b := a.shard = b.shard ∧ (a.term < b.term ∨ (a.term = b.term ∧ a.index ≤ b.index))
  le_refl a := ⟨rfl, .inr ⟨rfl, Nat.le_refl _⟩⟩
  le_trans a b c hab hbc := ⟨hab.1.trans hbc.1, by omega⟩
  le_antisymm a b hab hba := by
    have ht : a.term = b.term := by omega
    have hi : a.index = b.index := by omega
    cases a
    cases b
    simp_all

theorem le_def {a b : Fence} :
    a ≤ b ↔ a.shard = b.shard ∧ (a.term < b.term ∨ (a.term = b.term ∧ a.index ≤ b.index)) := Iff.rfl

instance : DecidableLE Fence := fun a b =>
  inferInstanceAs (Decidable (a.shard = b.shard ∧
    (a.term < b.term ∨ (a.term = b.term ∧ a.index ≤ b.index))))

/-- In one shard the two orders agree. -/
theorem lt_eq_false_iff {a b : Fence} (h : b.shard = a.shard) : lt a b = false ↔ b ≤ a := by
  rw [lt, decide_eq_false_iff_not, le_def]
  omega

/-- The components are a `u16` and two `u64`. -/
def Fits (f : Fence) : Prop := f.shard < 2 ^ 16 ∧ f.term < 2 ^ 64 ∧ f.index < 2 ^ 64

instance (f : Fence) : Decidable f.Fits := inferInstanceAs (Decidable (_ ∧ _ ∧ _))

def wire (f : Fence) : String :=
  toString f.shard ++ ":" ++ toString f.term ++ ":" ++ toString f.index

def parse (cs : List Char) : Option Fence :=
  match (trim cs).splitOn ':' with
  | [shard, term, index] =>
    match parseUInt (2 ^ 16) shard, parseUInt (2 ^ 64) term, parseUInt (2 ^ 64) index with
    | some shard, some term, some index => some ⟨shard, term, index⟩
    | _, _, _ => none
  | _ => none

/-- The characters of the wire form. -/
theorem toList_wire (f : Fence) : f.wire.toList =
    Nat.toDigits 10 f.shard ++ ':' :: (Nat.toDigits 10 f.term ++ ':' :: Nat.toDigits 10 f.index) := by
  simp [wire]

/-- A fence is read back from its wire form. -/
theorem parse_wire {f : Fence} (hf : f.Fits) : parse (trim (f.wire ++ "\n").toList) = some f := by
  obtain ⟨hs, ht, hi⟩ := hf
  have hcolon : isWhiteSpace ':' = false := by decide
  have hclean : ∀ c ∈ f.wire.toList, isWhiteSpace c = false := by
    intro c hc
    simp only [toList_wire, List.mem_append, List.mem_cons] at hc
    rcases hc with hc | rfl | hc | rfl | hc
    · exact (isDigit_spec (isDigit_of_mem hc)).1
    · exact hcolon
    · exact (isDigit_spec (isDigit_of_mem hc)).1
    · exact hcolon
    · exact (isDigit_spec (isDigit_of_mem hc)).1
  have hno : ∀ n, ':' ∉ Nat.toDigits 10 n := fun n hc => (isDigit_spec (isDigit_of_mem hc)).2.1 rfl
  have hfile : trim (f.wire ++ "\n").toList = f.wire.toList := by
    rw [String.toList_append]
    exact trim_append hclean (by simp [isWhiteSpace])
  have hline : trim f.wire.toList = f.wire.toList := by
    have := trim_append hclean (List.forall_mem_nil _)
    rwa [List.append_nil] at this
  have hsplit : f.wire.toList.splitOn ':' =
      [Nat.toDigits 10 f.shard, Nat.toDigits 10 f.term, Nat.toDigits 10 f.index] := by
    rw [toList_wire, List.splitOn_append_cons_self_of_not_mem (hno _),
      List.splitOn_append_cons_self_of_not_mem (hno _), List.splitOn_eq_singleton (hno _)]
  rw [hfile, parse, hline, hsplit]
  simp only [parseUInt_toDigits hs, parseUInt_toDigits ht, parseUInt_toDigits hi]

/-- A fence that was parsed fits. -/
theorem fits_of_parse {cs : List Char} {f : Fence} (h : parse cs = some f) : f.Fits := by
  unfold parse at h
  split at h
  · split at h
    · next hs ht hi =>
      cases h
      exact ⟨parseUInt_lt hs, parseUInt_lt ht, parseUInt_lt hi⟩
    · cases h
  · cases h

end Fence

/-! ## The guard -/

/-- Why a file operation fails. -/
inductive ErrorKind
  | permissionDenied
  | other
deriving DecidableEq, Repr

/-- The directory `fence_seen` of a guard: what the files hold, and how the next file operations
come out; every operation after the end of the list succeeds. -/
structure GuardDir where
  files : String → Option String
  faults : List (Option ErrorKind)

/-- One file operation: it changes the files by `f`, or fails and changes nothing. -/
def guardOp (f : (String → Option String) → String → Option String) :
    Fallible ErrorKind GuardDir Unit := fun d =>
  match d.faults.headD none with
  | none => (.ok (), ⟨f d.files, d.faults.tail⟩)
  | some e => (.error e, ⟨d.files, d.faults.tail⟩)

/-- Why a fence is refused. -/
structure StaleFence where
  key : String
  seen : Option Fence
  incoming : Fence
  reason : String
deriving DecidableEq

namespace ExecutorGuard

/-- The characters a file name keeps. -/
def keepsChar (c : Char) : Bool :=
  c.isAlphanum || c == '.' || c == '_' || c == '-'

/-- The file of a key: other characters become `_`, and a name of dots only becomes a hash. -/
def safeKey (key : String) : String :=
  let cleaned := key.toList.map fun c => if keepsChar c then c else '_'
  if cleaned = [] ∨ cleaned.all (· == '.') = true then
    "k" ++ String.ofList ((Sha256.toHex (Sha256.digest (asBytes key)).toList).toList.take 16)
  else String.ofList cleaned

/-- `Path::file_stem`: the name up to its last dot, if something stands before that dot. -/
def fileStem (name : List Char) : List Char :=
  let before := ((name.reverse.dropWhile (· != '.')).drop 1).reverse
  if before = [] then name else before

/-- `Path::with_extension`. -/
def withExtension (name ext : String) : String :=
  String.ofList (fileStem name.toList) ++ "." ++ ext

/-- The temporary file a key is written through. -/
def tmpKey (key : String) : String := withExtension (safeKey key) "tmp"

/-- What the file of a key says. -/
def seen (files : String → Option String) (key : String) : Option Fence :=
  (files (safeKey key)).bind fun raw => Fence.parse (trim raw.toList)

/-- `seen`, which takes a file that cannot be read for one that does not exist. -/
def readSeen (key : String) (d : GuardDir) : Option Fence × GuardDir :=
  (match d.faults.headD none with
    | none => seen d.files key
    | some _ => none, { d with faults := d.faults.tail })

/-- `rename`: the file moves, over the one of that name. -/
def rename (src dest : String) (files : String → Option String) : String → Option String :=
  fun name => if name = dest then files src else if name = src then none else files name

/-- Write a fence to the file of a key: directory, temporary file, its two writes, fsync, rename,
fsync of the directory. -/
def writeSeen (key : String) (fence : Fence) : Fallible ErrorKind GuardDir Unit := do
  guardOp id
  guardOp fun files => Function.update files (tmpKey key) (some "")
  guardOp fun files => Function.update files (tmpKey key) (some fence.wire)
  guardOp fun files => Function.update files (tmpKey key) (some (fence.wire ++ "\n"))
  guardOp id
  guardOp (rename (tmpKey key) (safeKey key))
  guardOp id

/-- What the comparison with the fence seen says. -/
inductive Verdict
  | refuse (reason : String)
  | resend
  | raise
deriving DecidableEq

def verdict (seen : Option Fence) (incoming : Fence) : Verdict :=
  match seen with
  | some s =>
    if s.shard ≠ incoming.shard then
      .refuse "shard 不同, fence 不可比(容器分片归属变更需显式重建)"
    else if incoming.lt s then .refuse "低于已见 fence"
    else if incoming = s then .resend
    else .raise
  | none => .raise

/-- Check a fence and remember it; the file is on disk before the answer is `Ok`. -/
def checkAndRaise (key : String) (incoming : Fence) (d : GuardDir) :
    Except StaleFence Unit × GuardDir :=
  let (s, d) := readSeen key d
  match verdict s incoming with
  | .refuse reason => (.error ⟨key, s, incoming, reason⟩, d)
  | .resend => (.ok (), d)
  | .raise =>
    match exec (writeSeen key incoming) d with
    | (.ok (), d) => (.ok (), d)
    | (.error e, d) =>
      (.error ⟨key, s, incoming,
        if e = .permissionDenied then "fence_seen 落盘失败(权限)"
        else "fence_seen 落盘失败(fsync 不可信,拒绝执行)"⟩, d)

/-! ### Calls without faults -/

/-- The files after a fence is written. -/
def written (files : String → Option String) (key : String) (fence : Fence) :
    String → Option String :=
  rename (tmpKey key) (safeKey key)
    (Function.update files (tmpKey key) (some (fence.wire ++ "\n")))

theorem exec_writeSeen (files : String → Option String) (key : String) (fence : Fence) :
    exec (writeSeen key fence) ⟨files, []⟩ = (.ok (), ⟨written files key fence, []⟩) := by
  have hop : ∀ f files, exec (guardOp f) ⟨files, []⟩ = (.ok (), ⟨f files, []⟩) := fun _ _ => rfl
  unfold writeSeen
  rw [exec_bind_ok (hop _ _), exec_bind_ok (hop _ _), exec_bind_ok (hop _ _),
    exec_bind_ok (hop _ _), exec_bind_ok (hop _ _), exec_bind_ok (hop _ _), hop]
  simp [written]

/-- Keys with one file show one fence. -/
theorem seen_eq_of_safeKey {key key' : String} (h : safeKey key = safeKey key')
    (files : String → Option String) : seen files key = seen files key' := by
  rw [seen, h, seen]

/-- What a fence that was written does to the file of any key. -/
theorem seen_written {fence : Fence} (hf : fence.Fits) (files : String → Option String)
    (key key' : String) : seen (written files key fence) key' =
      if safeKey key' = safeKey key then some fence
      else if safeKey key' = tmpKey key then none else seen files key' := by
  unfold seen written rename
  by_cases hs : safeKey key' = safeKey key
  · rw [if_pos hs, if_pos hs, Function.update_self, Option.bind_some, Fence.parse_wire hf]
  · rw [if_neg hs, if_neg hs]
    by_cases ht : safeKey key' = tmpKey key
    · rw [if_pos ht, if_pos ht, Option.bind_none]
    · rw [if_neg ht, if_neg ht, Function.update_of_ne ht]

/-- The comparison refuses what the register of the key does not admit. -/
theorem verdict_cases (s : Option Fence) (f : Fence) :
    (∃ reason, verdict s f = .refuse reason ∧ ¬ Admits s f) ∨
      (verdict s f = .resend ∧ s = some f) ∨ (verdict s f = .raise ∧ Admits s f) := by
  unfold verdict
  rcases s with _ | s
  · exact .inr (.inr ⟨rfl, admits_none f⟩)
  by_cases hshard : s.shard ≠ f.shard
  · exact .inl ⟨_, if_pos hshard, fun h => hshard (admits_some.1 h).1⟩
  have hshard' : s.shard = f.shard := not_ne_iff.1 hshard
  simp only [if_neg hshard]
  by_cases hlt : f.lt s = true
  · refine .inl ⟨_, if_pos hlt, fun h => ?_⟩
    rw [(Fence.lt_eq_false_iff hshard').2 (admits_some.1 h)] at hlt
    cases hlt
  rw [if_neg hlt]
  by_cases heq : f = s
  · exact .inr (.inl ⟨if_pos heq, by rw [heq]⟩)
  · exact .inr (.inr ⟨if_neg heq, admits_some.2
      ((Fence.lt_eq_false_iff hshard').1 (Bool.eq_false_iff.2 hlt))⟩)

/-- What a call answers and does: it takes a fence that the register of its key admits, and refuses
any other. -/
theorem checkAndRaise_cases (files : String → Option String) (key : String) (f : Fence) :
    (Admits (seen files key) f ∧ ∃ files', checkAndRaise key f ⟨files, []⟩ = (.ok (), ⟨files', []⟩) ∧
      ((files' = files ∧ seen files key = some f) ∨ files' = written files key f)) ∨
    (¬ Admits (seen files key) f ∧
      ∃ e, checkAndRaise key f ⟨files, []⟩ = (.error e, ⟨files, []⟩)) := by
  have hread : readSeen key ⟨files, []⟩ = (seen files key, ⟨files, []⟩) := rfl
  unfold checkAndRaise
  rw [hread]
  rcases verdict_cases (seen files key) f with ⟨reason, hv, hn⟩ | ⟨hv, hs⟩ | ⟨hv, ha⟩
  · simp only [hv]
    exact .inr ⟨hn, _, rfl⟩
  · simp only [hv]
    exact .inl ⟨by rw [hs, admits_some], files, rfl, .inl ⟨rfl, hs⟩⟩
  · simp only [hv, exec_writeSeen]
    exact .inl ⟨ha, _, rfl, .inr rfl⟩

/-! ### Keys -/

/-- A call of `check_and_raise`. -/
structure Check where
  key : String
  fence : Fence
  fits : fence.Fits

/-- The call is answered `Ok`. -/
def Check.ok (c : Check) (files : String → Option String) : Bool :=
  match (checkAndRaise c.key c.fence ⟨files, []⟩).1 with
  | .ok () => true
  | .error _ => false

/-- The files after the call. -/
def Check.after (c : Check) (files : String → Option String) : String → Option String :=
  (checkAndRaise c.key c.fence ⟨files, []⟩).2.files

/-- The files after calls one after the other. -/
def afterAll (files : String → Option String) (calls : List Check) : String → Option String :=
  calls.foldl (fun files c => c.after files) files

/-- The fences accepted for a key. -/
def accepted (key : String) : (String → Option String) → List Check → List Fence
  | _, [] => []
  | files, c :: calls =>
    if c.key = key ∧ c.ok files = true then c.fence :: accepted key (c.after files) calls
    else accepted key (c.after files) calls

/-- The key shows the greatest fence accepted for it, or what it showed before. -/
def Remembers (key : String) (files : String → Option String) (calls : List Check) : Prop :=
  (accepted key files calls = [] ∧ seen (afterAll files calls) key = seen files key) ∨
    ∃ m ∈ accepted key files calls, (∀ f ∈ accepted key files calls, f ≤ m) ∧
      seen (afterAll files calls) key = some m

/-- A call for the first key reaches the file of the second. -/
def Clash (key key' : String) : Prop :=
  key ≠ key' ∧ (safeKey key = safeKey key' ∨ tmpKey key = safeKey key')

/-- A call is answered `Ok` when the register of its key admits the fence. -/
theorem Check.ok_iff (c : Check) (files : String → Option String) :
    c.ok files = true ↔ Admits (seen files c.key) c.fence := by
  unfold Check.ok
  rcases checkAndRaise_cases files c.key c.fence with ⟨ha, files', heq, -⟩ | ⟨hn, e, heq⟩
  · rw [heq]
    exact iff_of_true rfl ha
  · rw [heq]
    exact iff_of_false Bool.false_ne_true hn

/-- A call raises the register of its key. -/
theorem Check.seen_after_self (c : Check) (files : String → Option String) :
    seen (c.after files) c.key = raise (seen files c.key) c.fence := by
  unfold Check.after
  rcases checkAndRaise_cases files c.key c.fence with ⟨ha, files', heq, hfiles⟩ | ⟨hn, e, heq⟩
  · rw [heq, raise_of_admits ha]
    rcases hfiles with ⟨rfl, hs⟩ | rfl
    · exact hs
    · rw [seen_written c.fits, if_pos rfl]
  · rw [heq, raise_of_not_admits hn]

/-- A call for a key that shows nothing writes its fence. -/
theorem Check.after_of_none (c : Check) {files : String → Option String}
    (h : seen files c.key = none) : c.after files = written files c.key c.fence := by
  unfold Check.after
  rcases checkAndRaise_cases files c.key c.fence with ⟨-, files', heq, hfiles⟩ | ⟨hn, -⟩
  · rw [heq]
    rcases hfiles with ⟨-, hs⟩ | rfl
    · rw [h] at hs
      cases hs
    · rfl
  · rw [h] at hn
    exact absurd (admits_none _) hn

/-- A call leaves the register of a key it does not clash with. -/
theorem Check.seen_after_other (c : Check) (files : String → Option String) {key : String}
    (hne : c.key ≠ key) (hc : ¬ Clash c.key key) : seen (c.after files) key = seen files key := by
  unfold Check.after
  rcases checkAndRaise_cases files c.key c.fence with ⟨-, files', heq, hfiles⟩ | ⟨-, e, heq⟩
  · rw [heq]
    rcases hfiles with ⟨rfl, -⟩ | rfl
    · rfl
    · rw [seen_written c.fits, if_neg fun h => hc ⟨hne, .inl h.symm⟩,
        if_neg fun h => hc ⟨hne, .inr h.symm⟩]
  · rw [heq]

/-- Among keys that do not clash each key is a register of its own. -/
theorem accepted_eq_taken {keys : Set String} (hk : ∀ k ∈ keys, ∀ k' ∈ keys, ¬ Clash k k')
    {key : String} (hkey : key ∈ keys) {calls : List Check} (hcalls : ∀ c ∈ calls, c.key ∈ keys)
    (files : String → Option String) :
    accepted key files calls =
        taken (seen files key) ((calls.filter fun c => decide (c.key = key)).map (·.fence)) ∧
      seen (afterAll files calls) key =
        ((calls.filter fun c => decide (c.key = key)).map (·.fence)).foldl raise (seen files key) := by
  induction calls generalizing files with
  | nil => exact ⟨rfl, rfl⟩
  | cons c calls ih =>
    obtain ⟨ih1, ih2⟩ := ih (fun c hc => hcalls c (List.mem_cons_of_mem _ hc)) (c.after files)
    have hstep : afterAll files (c :: calls) = afterAll (c.after files) calls := rfl
    rw [accepted, hstep, ih1, ih2]
    by_cases hck : c.key = key
    · subst hck
      rw [List.filter_cons_of_pos (by simp), List.map_cons, List.foldl_cons, c.seen_after_self,
        taken]
      refine ⟨?_, rfl⟩
      by_cases ha : Admits (seen files c.key) c.fence
      · rw [if_pos ⟨rfl, (c.ok_iff files).2 ha⟩, if_pos ha, raise_of_admits ha]
      · rw [if_neg fun h => ha ((c.ok_iff files).1 h.2), if_neg ha, raise_of_not_admits ha]
    · have hother := c.seen_after_other files hck (hk _ (hcalls c List.mem_cons_self) _ hkey)
      rw [List.filter_cons_of_neg (by simpa using hck), hother, if_neg fun h => hck h.1]
      exact ⟨rfl, rfl⟩

/-- The calls of a set of keys leave each other alone exactly when no two of the keys clash. -/
theorem keys_isolated_iff (keys : Set String) :
    (∀ files calls, (∀ c ∈ calls, c.key ∈ keys) → ∀ key ∈ keys, Remembers key files calls) ↔
      ∀ k ∈ keys, ∀ k' ∈ keys, ¬ Clash k k' := by
  constructor
  · rintro hall k hk k' hk' ⟨hne, hclash⟩
    let f : Fence := ⟨0, 1, 1⟩
    have hfits : f.Fits := by decide
    let c : Check := ⟨k, f, hfits⟩
    -- nothing is accepted for the other key
    have hnone : ∀ files, accepted k' files [c] = [] := fun files => by
      rw [accepted, if_neg fun h => hne h.1, accepted]
    have hsame : ∀ files, seen (c.after files) k' = seen files k' := fun files => by
      have := hall files [c] (fun _ h => by rw [List.mem_singleton.1 h]; exact hk) k' hk'
      rcases this with ⟨-, h⟩ | ⟨m, hm, -⟩
      · exact h
      · rw [hnone] at hm
        cases hm
    by_cases hsafe : safeKey k = safeKey k'
    · -- in an empty directory the fence of the one key shows under the other
      have h := hsame fun _ => none
      rw [seen_eq_of_safeKey hsafe.symm, seen_eq_of_safeKey hsafe.symm, c.seen_after_self] at h
      cases h
    · -- what the other key shows is written over and moved away
      have htmp : tmpKey k = safeKey k' := hclash.resolve_left hsafe
      have hfree : seen (written (fun _ => none) k' f) k = none := by
        rw [seen_written hfits, if_neg hsafe]
        split
        · rfl
        · rfl
      have h := hsame (written (fun _ => none) k' f)
      rw [c.after_of_none hfree, seen_written hfits, seen_written hfits, if_pos rfl,
        if_neg (Ne.symm hsafe), if_pos htmp.symm] at h
      cases h
  · intro hk files calls hcalls key hkey
    obtain ⟨hacc, hseen⟩ := accepted_eq_taken hk hkey hcalls files
    unfold Remembers
    rw [hacc, hseen]
    have hend := foldl_raise (seen files key)
      ((calls.filter fun c => decide (c.key = key)).map (·.fence))
    rcases hlast : (taken (seen files key)
      ((calls.filter fun c => decide (c.key = key)).map (·.fence))).getLast? with _ | m
    · rw [hlast] at hend
      exact .inl ⟨List.getLast?_eq_none_iff.1 hlast, hend⟩
    · rw [hlast] at hend
      exact .inr ⟨m, List.mem_of_getLast? hlast, fun x hx => le_getLast_taken hlast hx, hend⟩

/-- Two keys of one file: a fence accepted for the one shows under the other. -/
theorem keys_interfere : ¬ ∀ files calls key, Remembers key files calls := by
  intro hall
  let c : Check := ⟨"db/1", ⟨0, 1, 1⟩, by decide⟩
  have hacc : accepted "db_1" (fun _ => none) [c] = [] := by decide +kernel
  have hseen : seen (afterAll (fun _ => none) [c]) "db_1" = some ⟨0, 1, 1⟩ := by decide +kernel
  rcases hall (fun _ => none) [c] "db_1" with ⟨-, h⟩ | ⟨m, hm, -⟩
  · rw [hseen] at h
    cases h
  · rw [hacc] at hm
    cases hm

/-! ### One key, request after request -/

/-- What happens to a guard: a request for the key, or a restart, which reads nothing. -/
inductive GuardCall
  | check (fence : Fence) (fits : fence.Fits)
  | restart

def GuardCall.after (key : String) (files : String → Option String) :
    GuardCall → String → Option String
  | .check fence fits => (Check.mk key fence fits).after files
  | .restart => files

/-- A fence that was accepted stays in force. -/
theorem holds_foldl {key : String} {files : String → Option String} {y : Fence}
    (h : Holds (seen files key) y) (calls : List GuardCall) :
    Holds (seen (calls.foldl (GuardCall.after key) files) key) y := by
  induction calls generalizing files with
  | nil => exact h
  | cons call calls ih =>
    refine ih ?_
    cases call with
    | check fence fits =>
      have hraise := (Check.mk key fence fits).seen_after_self files
      show Holds (seen ((Check.mk key fence fits).after files) key) y
      rw [hraise]
      exact h.raise fence
    | restart => exact h

/-- Once a fence is accepted every fence that is not above it is refused, also after restarts. -/
theorem refused_after {key : String} {later earlier : Fence} (hfits : later.Fits)
    (hlt : ¬ later ≤ earlier) {files : String → Option String}
    (hok : (checkAndRaise key later ⟨files, []⟩).1 = .ok ()) (calls : List GuardCall) :
    ∃ e, (checkAndRaise key earlier ⟨calls.foldl (GuardCall.after key)
      (checkAndRaise key later ⟨files, []⟩).2.files, []⟩).1 = .error e := by
  have hself := (Check.mk key later hfits).seen_after_self files
  have hadmits : Admits (seen files key) later := by
    refine ((Check.mk key later hfits).ok_iff files).1 ?_
    rw [Check.ok, hok]
  have hholds : Holds (seen ((Check.mk key later hfits).after files) key) later := by
    rw [hself, raise_of_admits hadmits, holds_some]
  have hlater := holds_foldl hholds calls
  rcases checkAndRaise_cases (calls.foldl (GuardCall.after key)
    ((Check.mk key later hfits).after files)) key earlier with ⟨ha, -⟩ | ⟨-, e, heq⟩
  · exact absurd ha (hlater.not_admits hlt)
  · exact ⟨e, congrArg Prod.fst heq⟩

/-! ### One key, requests at the same time -/

/-- The requests of one key on their way: each reads the file and compares, and writes the file in a
second step when the comparison says so. -/
structure Requests where
  files : String → Option String
  /-- fences that have passed the comparison and are not written yet -/
  waiting : List Fence
  /-- fences let through -/
  passed : List Fence

inductive RequestStep
  /-- a request comes in, reads the file and compares -/
  | read (incoming : Fence) (fits : incoming.Fits)
  /-- a request writes its fence -/
  | write (incoming : Fence)

/-- One step of one request. -/
def Requests.step (key : String) (r : Requests) : RequestStep → Option Requests
  | .read incoming _ =>
    match verdict (seen r.files key) incoming with
    | .refuse _ => some r
    | .resend => some { r with passed := incoming :: r.passed }
    | .raise => some { r with waiting := incoming :: r.waiting }
  | .write incoming =>
    if incoming ∈ r.waiting then
      some { files := written r.files key incoming
             waiting := r.waiting.erase incoming
             passed := incoming :: r.passed }
    else none

/-- No request is on its way. -/
def Requests.Initial (r : Requests) : Prop := r.waiting = [] ∧ r.passed = []

/-- The runs of requests of one key whose steps meet a guard. -/
abbrev Requests.GuardedRun (key : String)
    (guard : History Requests RequestStep → Requests → RequestStep → Prop) :
    History Requests RequestStep → Requests → Prop :=
  Run (Requests.step key) guard Requests.Initial

/-- The comparison lets the fence through or on to its write. -/
def Verdict.passes : Verdict → Bool
  | .refuse _ => false
  | .resend | .raise => true

/-- The comparison that a request made when it read still comes out that way when it writes. -/
def StillPasses (key : String) (_ : History Requests RequestStep) (r : Requests) :
    RequestStep → Prop
  | .read _ _ => True
  | .write incoming => (verdict (seen r.files key) incoming).passes = true

/-- What is persisted never goes down, and no fence is let through after one it is not above. -/
structure GuardMonotone (key : String) (h : History Requests RequestStep) (r : Requests) :
    Prop where
  persisted : ∀ d ∈ h.states r, ∀ y, Holds (seen d.files key) y → Holds (seen r.files key) y
  passed : r.passed.Pairwise fun x y => y ≤ x

/-- The requests of a key in order. -/
structure Requests.Ok (key : String) (r : Requests) : Prop where
  fits : ∀ f ∈ r.waiting, f.Fits
  held : ∀ y ∈ r.passed, Holds (seen r.files key) y
  passed : r.passed.Pairwise fun x y => y ≤ x

theorem Verdict.admits_of_passes {s : Option Fence} {f : Fence}
    (h : (verdict s f).passes = true) : Admits s f := by
  rcases verdict_cases s f with ⟨reason, hv, -⟩ | ⟨-, rfl⟩ | ⟨-, ha⟩
  · rw [hv] at h
    cases h
  · exact admits_some.2 le_rfl
  · exact ha

/-- A step whose comparison still holds keeps the requests in order, and what was persisted. -/
theorem Requests.Ok.step {key : String} {h : History Requests RequestStep} {r r' : Requests}
    {e : RequestStep} (hr : r.Ok key) (hg : StillPasses key h r e)
    (hs : Requests.step key r e = some r') :
    r'.Ok key ∧ ∀ y, Holds (seen r.files key) y → Holds (seen r'.files key) y := by
  cases e with
  | read incoming fits =>
    simp only [Requests.step] at hs
    rcases verdict_cases (seen r.files key) incoming with ⟨reason, hv, -⟩ | ⟨hv, heq⟩ | ⟨hv, -⟩
    · rw [hv] at hs
      cases hs
      exact ⟨hr, fun _ hy => hy⟩
    · rw [hv] at hs
      cases hs
      refine ⟨⟨hr.fits, ?_, ?_⟩, fun _ hy => hy⟩
      · rintro y (_ | ⟨_, hy⟩)
        · rw [heq, holds_some]
        · exact hr.held y hy
      · refine List.pairwise_cons.2 ⟨fun y hy => ?_, hr.passed⟩
        have := hr.held y hy
        rwa [heq, holds_some] at this
    · rw [hv] at hs
      cases hs
      refine ⟨⟨?_, hr.held, hr.passed⟩, fun _ hy => hy⟩
      rintro f (_ | ⟨_, hf⟩)
      · exact fits
      · exact hr.fits f hf
  | write incoming =>
    simp only [Requests.step] at hs
    split at hs
    · next hmem =>
      cases hs
      have hadmits := Verdict.admits_of_passes hg
      have hnow : seen (written r.files key incoming) key = some incoming := by
        rw [seen_written (hr.fits _ hmem), if_pos rfl]
      have hkeep : ∀ y, Holds (seen r.files key) y → y ≤ incoming :=
        fun y hy => hy.of_admits hadmits
      refine ⟨⟨fun f hf => hr.fits f (List.mem_of_mem_erase hf), ?_, ?_⟩, fun y hy => ?_⟩
      · rintro y (_ | ⟨_, hy⟩)
        · rw [hnow, holds_some]
        · rw [hnow, holds_some]
          exact hkeep y (hr.held y hy)
      · exact List.pairwise_cons.2 ⟨fun y hy => hkeep y (hr.held y hy), hr.passed⟩
      · rw [hnow, holds_some]
        exact hkeep y hy
    · cases hs

/-- In every run whose comparisons still hold when their fences are written the guard only goes
up. -/
theorem guard_monotone {key : String} {h : History Requests RequestStep} {r : Requests}
    (hr : Requests.GuardedRun key (StillPasses key) h r) : GuardMonotone key h r := by
  have hok : ∀ {h r}, Requests.GuardedRun key (StillPasses key) h r → r.Ok key := by
    intro h r hr
    refine Run.invariant (I := fun _ r => r.Ok key) ?_ ?_ hr
    · rintro r ⟨hw, hp⟩
      exact ⟨by simp [hw], by simp [hp], by simp [hp]⟩
    · exact fun h r e r' _ hi hg hs => (hi.step hg hs).1
  refine ⟨fun d hd => ?_, (hok hr).passed⟩
  exact Run.rel (R := fun (d r : Requests) => ∀ y, Holds (seen d.files key) y → Holds (seen r.files key) y)
    (fun _ _ hy => hy) (fun _ _ _ h1 h2 y hy => h2 y (h1 y hy))
    (fun h r e r' hrun hg hs => ((hok hrun).step hg hs).2) hr hd

theorem guard_monotone_raised : ∃ h r, r.passed = [⟨0, 2, 1⟩, ⟨0, 1, 10⟩] ∧
    GuardMonotone "c" h r := by
  let files : String → Option String := fun _ => none
  have hf1 : (⟨0, 1, 10⟩ : Fence).Fits := by decide
  have hf2 : (⟨0, 2, 1⟩ : Fence).Fits := by decide
  let r0 : Requests := ⟨files, [], []⟩
  let r1 : Requests := ⟨files, [⟨0, 1, 10⟩], []⟩
  let r2 : Requests := ⟨written files "c" ⟨0, 1, 10⟩, [], [⟨0, 1, 10⟩]⟩
  let r3 : Requests := ⟨r2.files, [⟨0, 2, 1⟩], [⟨0, 1, 10⟩]⟩
  let r4 : Requests := ⟨written r2.files "c" ⟨0, 2, 1⟩, [], [⟨0, 2, 1⟩, ⟨0, 1, 10⟩]⟩
  have hseen : seen r2.files "c" = some ⟨0, 1, 10⟩ := by
    rw [show r2.files = written files "c" ⟨0, 1, 10⟩ from rfl, seen_written hf1, if_pos rfl]
  have hr : Requests.GuardedRun "c" (StillPasses "c") [(r3, .write ⟨0, 2, 1⟩),
      (r2, .read ⟨0, 2, 1⟩ hf2), (r1, .write ⟨0, 1, 10⟩), (r0, .read ⟨0, 1, 10⟩ hf1)] r4 := by
    refine .step (.step (.step (.step (.start ⟨rfl, rfl⟩) trivial rfl) rfl rfl) trivial ?_) ?_ rfl
    · simp only [Requests.step, hseen]
      rfl
    · show (verdict (seen r2.files "c") _).passes = true
      rw [hseen]
      rfl
  exact ⟨_, r4, rfl, guard_monotone hr⟩

/-- Two requests compare before either writes, and the lower fence is written last. -/
theorem guard_lowered : ¬ ∀ key h r, Requests.GuardedRun key (fun _ _ _ => True) h r →
    GuardMonotone key h r := by
  intro hall
  let files : String → Option String := fun _ => none
  have hf1 : (⟨0, 1, 10⟩ : Fence).Fits := by decide
  have hf2 : (⟨0, 1, 5⟩ : Fence).Fits := by decide
  let r0 : Requests := ⟨files, [], []⟩
  let r1 : Requests := ⟨files, [⟨0, 1, 10⟩], []⟩
  let r2 : Requests := ⟨files, [⟨0, 1, 5⟩, ⟨0, 1, 10⟩], []⟩
  let r3 : Requests := ⟨written files "c" ⟨0, 1, 10⟩, [⟨0, 1, 5⟩], [⟨0, 1, 10⟩]⟩
  let r4 : Requests := ⟨written r3.files "c" ⟨0, 1, 5⟩, [], [⟨0, 1, 5⟩, ⟨0, 1, 10⟩]⟩
  have hr : Requests.GuardedRun "c" (fun _ _ _ => True) [(r3, .write ⟨0, 1, 5⟩),
      (r2, .write ⟨0, 1, 10⟩), (r1, .read ⟨0, 1, 5⟩ hf2), (r0, .read ⟨0, 1, 10⟩ hf1)] r4 :=
    .step (.step (.step (.step (.start ⟨rfl, rfl⟩) trivial rfl) trivial rfl) trivial rfl) trivial rfl
  have hle := (List.pairwise_cons.1 (hall "c" _ _ hr).passed).1 ⟨0, 1, 10⟩ (by simp)
  exact absurd hle (by decide)

end ExecutorGuard

end Rdsctl.Ha
