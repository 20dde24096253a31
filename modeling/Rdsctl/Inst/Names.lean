import Rdsctl.Lib.Pieces
import Rdsctl.Inst.Manager

/-!
# Container names

The names that `create` and `scaleout_opt` of `src/instance.rs` give to containers. The nodes of a
replication group are called after its stem, which is the instance, or the instance and the shard: the
master that it was created with, and the slaves by number. An instance name may itself end like the
stem of a shard, so that the names tell the stem and not the instance.
-/

namespace Rdsctl.Inst

open Ha Pieces

/-! ## Members of a group -/

/-- The stem of the names of an instance. -/
def stemOf (name : String) : String := "rds-" ++ name

/-- The stem of the names of a shard. -/
def shardStem (name shard : String) : String := "rds-" ++ name ++ "-" ++ shard

/-- The name of the `k`-th member of a group. -/
def memberName (stem : String) : Nat → String
  | 0 => stem ++ "-master"
  | k + 1 => stem ++ "-slave-" ++ toString (k + 1)

/-- The names of the first `n` members of a group. -/
def memberNames (stem : String) (n : Nat) : List String := (List.range n).map (memberName stem)

theorem slaveName_eq (name : String) (k : Nat) :
    slaveName name (k + 1) = memberName (stemOf name) (k + 1) := rfl

theorem shardSlaveName_eq (name shard : String) (k : Nat) :
    shardSlaveName name shard (k + 1) = memberName (shardStem name shard) (k + 1) := rfl

theorem memberNames_succ (stem : String) (n : Nat) :
    memberNames stem (n + 1) = memberNames stem n ++ [memberName stem n] := by
  simp [memberNames, List.range_succ]

theorem mem_memberNames {stem c : String} {n : Nat} :
    c ∈ memberNames stem n ↔ ∃ k, k < n ∧ memberName stem k = c := by
  simp [memberNames]

/-! ## Names as pieces -/

theorem memberName_zero (stem : String) : memberName stem 0 = stem ++ "-" ++ "master" := by
  show stem ++ "-master" = _
  rw [String.append_assoc]
  rfl

theorem memberName_succ (stem : String) (k : Nat) :
    memberName stem (k + 1) = stem ++ "-" ++ "slave" ++ "-" ++ toString (k + 1) := by
  have hpieces : "-slave-" = "-" ++ "slave" ++ "-" := rfl
  show stem ++ "-slave-" ++ toString (k + 1) = _
  simp only [hpieces, String.append_assoc]

theorem proxyName_eq (name : String) (k : Nat) :
    proxyName name k = stemOf name ++ "-" ++ "proxy" ++ "-" ++ toString k := by
  have hpieces : "-proxy-" = "-" ++ "proxy" ++ "-" := rfl
  show stemOf name ++ "-proxy-" ++ toString k = _
  simp only [hpieces, String.append_assoc]

theorem lvsName_eq (name : String) : lvsName name = stemOf name ++ "-" ++ "lvs" := by
  show stemOf name ++ "-lvs" = _
  rw [String.append_assoc]
  rfl

theorem xenonNodeC_eq (name : String) (k : Nat) :
    xenonNodeC name k = stemOf name ++ "-" ++ ("xenon" ++ toString k) := by
  have hpieces : "-xenon" = "-" ++ "xenon" := rfl
  show stemOf name ++ "-xenon" ++ toString k = _
  simp only [hpieces, String.append_assoc]

theorem plain_master : Pieces.Plain "master" := by decide

theorem plain_slave : Pieces.Plain "slave" := by decide

theorem plain_proxy : Pieces.Plain "proxy" := by decide

theorem plain_lvs : Pieces.Plain "lvs" := by decide

theorem plain_xenon (k : Nat) : Pieces.Plain ("xenon" ++ toString k) :=
  Pieces.Plain.append (by decide) (plain_toString k)

theorem plain_shardId (k : Nat) : Pieces.Plain (shardId k) :=
  Pieces.Plain.append (by decide) (plain_toString k)

theorem xenon_ne_toString (k n : Nat) : "xenon" ++ toString k ≠ toString n :=
  toString_ne (c := 'x') (by simp) (by decide)

/-! ## What a name tells -/

theorem memberName_inj {s t : String} {k n : Nat} (h : memberName s k = memberName t n) :
    s = t ∧ k = n := by
  cases k with
  | zero =>
    cases n with
    | zero =>
      rw [memberName_zero, memberName_zero] at h
      exact ⟨(dash_inj plain_master plain_master h).1, rfl⟩
    | succ n =>
      rw [memberName_zero, memberName_succ] at h
      have hlast := (dash_inj plain_master (plain_toString _) h).2
      exact absurd hlast (toString_ne (c := 'm') (by decide) (by decide))
  | succ k =>
    cases n with
    | zero =>
      rw [memberName_zero, memberName_succ] at h
      have hlast := (dash_inj (plain_toString _) plain_master h).2
      exact absurd hlast.symm (toString_ne (c := 'm') (by decide) (by decide))
    | succ n =>
      rw [memberName_succ, memberName_succ] at h
      obtain ⟨hinit, hlast⟩ := dash_inj (plain_toString _) (plain_toString _) h
      exact ⟨(dash_inj plain_slave plain_slave hinit).1, Nat.repr_injective hlast⟩

theorem proxyName_inj {a b : String} {k n : Nat} (h : proxyName a k = proxyName b n) :
    stemOf a = stemOf b ∧ k = n := by
  rw [proxyName_eq, proxyName_eq] at h
  obtain ⟨hinit, hlast⟩ := dash_inj (plain_toString _) (plain_toString _) h
  exact ⟨(dash_inj plain_proxy plain_proxy hinit).1, Nat.repr_injective hlast⟩

theorem lvsName_inj {a b : String} (h : lvsName a = lvsName b) : stemOf a = stemOf b := by
  rw [lvsName_eq, lvsName_eq] at h
  exact (dash_inj plain_lvs plain_lvs h).1

theorem xenonNodeC_inj {a b : String} {k n : Nat} (h : xenonNodeC a k = xenonNodeC b n) :
    stemOf a = stemOf b ∧ k = n := by
  rw [xenonNodeC_eq, xenonNodeC_eq] at h
  obtain ⟨hinit, hlast⟩ := dash_inj (plain_xenon _) (plain_xenon _) h
  exact ⟨hinit, Nat.repr_injective ((String.append_right_inj _).1 hlast)⟩

theorem memberName_ne_proxyName (s a : String) (k n : Nat) : memberName s k ≠ proxyName a n := by
  intro h
  cases k with
  | zero =>
    rw [memberName_zero, proxyName_eq] at h
    have hlast := (dash_inj plain_master (plain_toString _) h).2
    exact absurd hlast (toString_ne (c := 'm') (by decide) (by decide))
  | succ k =>
    rw [memberName_succ, proxyName_eq] at h
    have hinit := (dash_inj (plain_toString _) (plain_toString _) h).1
    exact absurd (dash_inj plain_slave plain_proxy hinit).2 (by decide)

theorem memberName_ne_lvsName (s a : String) (k : Nat) : memberName s k ≠ lvsName a := by
  intro h
  cases k with
  | zero =>
    rw [memberName_zero, lvsName_eq] at h
    exact absurd (dash_inj plain_master plain_lvs h).2 (by decide)
  | succ k =>
    rw [memberName_succ, lvsName_eq] at h
    have hlast := (dash_inj (plain_toString _) plain_lvs h).2
    exact absurd hlast.symm (toString_ne (c := 'l') (by decide) (by decide))

theorem memberName_ne_xenonNodeC (s a : String) (k n : Nat) : memberName s k ≠ xenonNodeC a n := by
  intro h
  cases k with
  | zero =>
    rw [memberName_zero, xenonNodeC_eq] at h
    have hlast := congrArg String.toList (dash_inj plain_master (plain_xenon _) h).2
    simp at hlast
  | succ k =>
    rw [memberName_succ, xenonNodeC_eq] at h
    exact xenon_ne_toString _ _ (dash_inj (plain_toString _) (plain_xenon _) h).2.symm

theorem proxyName_ne_lvsName (a b : String) (k : Nat) : proxyName a k ≠ lvsName b := by
  intro h
  rw [proxyName_eq, lvsName_eq] at h
  have hlast := (dash_inj (plain_toString _) plain_lvs h).2
  exact absurd hlast.symm (toString_ne (c := 'l') (by decide) (by decide))

theorem proxyName_ne_xenonNodeC (a b : String) (k n : Nat) : proxyName a k ≠ xenonNodeC b n := by
  intro h
  rw [proxyName_eq, xenonNodeC_eq] at h
  exact xenon_ne_toString _ _ (dash_inj (plain_toString _) (plain_xenon _) h).2.symm

theorem lvsName_ne_xenonNodeC (a b : String) (n : Nat) : lvsName a ≠ xenonNodeC b n := by
  intro h
  rw [lvsName_eq, xenonNodeC_eq] at h
  have hlast := congrArg String.toList (dash_inj plain_lvs (plain_xenon _) h).2
  simp at hlast

theorem stemOf_inj {a b : String} (h : stemOf a = stemOf b) : a = b :=
  (String.append_right_inj _).1 h

/-- A shard tells its instance. -/
theorem shardStem_inj {a b s t : String} (hs : Pieces.Plain s) (ht : Pieces.Plain t)
    (h : shardStem a s = shardStem b t) : a = b ∧ s = t := by
  obtain ⟨hinit, hlast⟩ := dash_inj hs ht h
  exact ⟨(String.append_right_inj _).1 hinit, hlast⟩

/-- An instance has the stem of a shard only when it is called like it. -/
theorem stemOf_eq_shardStem {a b s : String} : stemOf a = shardStem b s ↔ a = b ++ "-" ++ s := by
  unfold stemOf shardStem
  simp only [String.append_assoc, String.append_right_inj]

theorem shardId_inj {k n : Nat} (h : shardId k = shardId n) : k = n :=
  Nat.repr_injective ((String.append_right_inj _).1 h)

theorem nodup_memberNames (stem : String) (n : Nat) : (memberNames stem n).Nodup :=
  List.nodup_range.map fun _ _ h => (memberName_inj h).2

/-! ## Numbers of slaves -/

theorem lastPiece_dash {a s : String} (hs : Pieces.Plain s) : lastPiece (a ++ "-" ++ s) = s := by
  unfold lastPiece
  rw [toList_dash, getLast?_splitOn hs, Option.getD_some, String.ofList_toList]

/-- The number that a scale-out reads from the name of a member. -/
theorem parse_memberName (stem : String) {k : Nat} (h : k < 2 ^ 64) :
    ((parseUInt (2 ^ 64) (lastPiece (memberName stem k)).toList).getD 0) = k := by
  cases k with
  | zero =>
    rw [memberName_zero, lastPiece_dash plain_master]
    decide
  | succ k =>
    rw [memberName_succ, lastPiece_dash (plain_toString _)]
    have hdigits : (toString (k + 1)).toList = Nat.toDigits 10 (k + 1) := Nat.toList_repr
    rw [hdigits, parseUInt_toDigits h, Option.getD_some]

end Rdsctl.Inst
