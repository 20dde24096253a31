import Rdsctl.Ha.Text
import Rdsctl.Lib.Shell
import Rdsctl.Query.Provision

/-!
# The command line of a query

`src/exec/mod.rs`: `shell_sq` and the text that `query_table` hands to `sh -c`. User and password are put
into it as they are, only the statement is quoted.
-/

namespace Rdsctl.Query

open Ha Shell Utf8

/-- `shell_sq` -/
def shellSq (s : List Char) : List Char :=
  s.foldl (fun out c => if c = '\'' then out ++ "'\\''".toList else out ++ [c]) ['\''] ++ ['\'']

/-- `timeout_secs.max(1)`, in digits. -/
def secsText (timeoutSecs : Nat) : List Char := Nat.toDigits 10 (max timeoutSecs 1)

/-- `db_flag` -/
def dbFlag (defaultDb : String) : List Char :=
  if identOk defaultDb then " -D ".toList ++ defaultDb.toList else []

/-- The text that `query_table` passes to `sh -c`. -/
def queryTableCmd (user pass : String) (sql : List Char) (timeoutSecs : Nat) (defaultDb : String) :
    List Char :=
  "timeout -s KILL ".toList ++ secsText timeoutSecs ++
    " mysql --batch --column-names --default-character-set=utf8mb4 --connect-timeout=5 ".toList ++
    "--protocol=TCP -u ".toList ++ user.toList ++ " -p".toList ++ pass.toList ++ dbFlag defaultDb ++
    " -e ".toList ++ shellSq sql

/-- The words in front of the statement. -/
def queryTableFlags (user pass : String) (timeoutSecs : Nat) (defaultDb : String) : List (List Char) :=
  ["timeout".toList, "-s".toList, "KILL".toList, secsText timeoutSecs, "mysql".toList, "--batch".toList,
    "--column-names".toList, "--default-character-set=utf8mb4".toList, "--connect-timeout=5".toList,
    "--protocol=TCP".toList, "-u".toList, user.toList, "-p".toList ++ pass.toList] ++
    (if identOk defaultDb then ["-D".toList, defaultDb.toList] else []) ++ ["-e".toList]

/-- The arguments that are meant. -/
def queryTableArgv (user pass : String) (sql : List Char) (timeoutSecs : Nat) (defaultDb : String) :
    List (List Char) :=
  queryTableFlags user pass timeoutSecs defaultDb ++ [sql]

/-- User, password and database that the shell takes as they are: no character that it acts on, and no
user that is empty or starts a comment or a home directory. -/
structure ShellSafe (user pass defaultDb : String) : Prop where
  user : Bare user.toList
  pass : ∀ c ∈ pass.toList, plain c = true
  db : identOk defaultDb = true → '$' ∉ defaultDb.toList

/-! ## What the shell reads -/

theorem shellSq_eq_quote (s : List Char) : shellSq s = quote s := by
  have hfold (acc : List Char) :
      s.foldl (fun out c => if c = '\'' then out ++ "'\\''".toList else out ++ [c]) acc =
        acc ++ escapeQuotes s := by
    induction s generalizing acc with
    | nil => simp [escapeQuotes]
    | cons c s ih =>
      rw [List.foldl_cons, ih, escapeQuotes, escapeQuotes, List.flatMap_cons]
      split <;> simp
  rw [shellSq, hfold, quote, List.singleton_append]

theorem queryTableCmd_eq (user pass : String) (sql : List Char) (timeoutSecs : Nat)
    (defaultDb : String) : queryTableCmd user pass sql timeoutSecs defaultDb =
      join (queryTableFlags user pass timeoutSecs defaultDb) ++ quote sql := by
  have htimeout : "timeout -s KILL " = "timeout" ++ " " ++ "-s" ++ " " ++ "KILL" ++ " " := by
    decide +kernel
  have hmysql :
      " mysql --batch --column-names --default-character-set=utf8mb4 --connect-timeout=5 " =
        " " ++ "mysql" ++ " " ++ "--batch" ++ " " ++ "--column-names" ++ " " ++
          "--default-character-set=utf8mb4" ++ " " ++ "--connect-timeout=5" ++ " " := by
    decide +kernel
  have huser : "--protocol=TCP -u " = "--protocol=TCP" ++ " " ++ "-u" ++ " " := by decide +kernel
  have hpass : " -p" = " " ++ "-p" := by decide +kernel
  have hdb : " -D " = " " ++ "-D" ++ " " := by decide +kernel
  have hsql : " -e " = " " ++ "-e" ++ " " := by decide +kernel
  have hblank : " ".toList = [' '] := by decide +kernel
  unfold queryTableCmd queryTableFlags dbFlag join
  rw [shellSq_eq_quote, htimeout, hmysql, huser, hpass, hdb, hsql]
  split <;>
    simp only [String.toList_append, hblank, List.flatMap_cons, List.flatMap_nil, List.append_assoc,
      List.cons_append, List.nil_append, List.append_nil]

theorem bare_of_isDigit {w : List Char} (hne : w ≠ []) (h : ∀ c ∈ w, c.isDigit = true) : Bare w := by
  have hdigit (c : Char) (hc : c.isDigit = true) : plain c = true ∧ leading c = false := by
    have hb : 48 ≤ c.toNat ∧ c.toNat ≤ 57 := by
      simpa [Char.isDigit, UInt32.le_iff_toNat_le] using hc
    have hall : ∀ n : Fin 58, 48 ≤ n.val → plain (Char.ofNat n) = true ∧ leading (Char.ofNat n) = false := by
      decide
    simpa using hall ⟨c.toNat, Nat.lt_succ_of_le hb.2⟩ hb.1
  obtain ⟨c, cs, rfl⟩ := List.exists_cons_of_ne_nil hne
  exact ⟨fun d hd => (hdigit d (h d hd)).1, c, cs, rfl, (hdigit c (h c List.mem_cons_self)).2⟩

/-- A database name that passes the check is bare when it has no dollar sign. -/
theorem bare_of_identOk {db : String} (h : identOk db = true) : Bare db.toList ↔ '$' ∉ db.toList := by
  rw [identOk, Bool.and_eq_true, decide_eq_true_eq, List.all_eq_true] at h
  obtain ⟨hne, hall⟩ := h
  have hchar (c : Char) (hc : (c.isAlphanum || decide (c = '_') || decide (c = '$')) = true) :
      leading c = false ∧ (plain c = true ↔ c ≠ '$') := by
    have hlt : c.toNat < 128 := by
      simp only [Bool.or_eq_true, decide_eq_true_eq] at hc
      rcases hc with (hc | rfl) | rfl
      · exact isAlphanum_lt hc
      · decide
      · decide
    have hfin : ∀ n : Fin 128,
        ((Char.ofNat n).isAlphanum || decide (Char.ofNat n = '_') || decide (Char.ofNat n = '$')) = true →
        leading (Char.ofNat n) = false ∧ (plain (Char.ofNat n) = true ↔ Char.ofNat n ≠ '$') := by
      decide
    have := hfin ⟨c.toNat, hlt⟩
    simp only [Char.ofNat_toNat] at this
    exact this hc
  constructor
  · rintro ⟨hplain, -⟩ hmem
    exact absurd rfl ((hchar _ (hall _ hmem)).2.1 (hplain _ hmem))
  · intro hno
    obtain ⟨c, cs, hcs⟩ := List.exists_cons_of_ne_nil fun hnil => hne (String.toList_eq_nil_iff.1 hnil)
    refine ⟨fun d hd => (hchar d (hall d hd)).2.2 fun heq => hno (heq ▸ hd), c, cs, hcs, ?_⟩
    exact (hchar c (hall c (by simp [hcs]))).1

/-! ## Commands that run what was asked -/

/-- The words in front of the statement are bare exactly when user, password and database are safe. -/
theorem bare_flags_iff (user pass : String) (timeoutSecs : Nat) (defaultDb : String) :
    (∀ w ∈ queryTableFlags user pass timeoutSecs defaultDb, Bare w) ↔ ShellSafe user pass defaultDb := by
  have hfixed : ∀ w ∈ ["timeout", "-s", "KILL", "mysql", "--batch", "--column-names",
      "--default-character-set=utf8mb4", "--connect-timeout=5", "--protocol=TCP", "-u", "-p", "-D", "-e"],
      Bare w.toList := by
    intro w hw
    simp only [List.mem_cons, List.not_mem_nil, or_false] at hw
    rcases hw with rfl | rfl | rfl | rfl | rfl | rfl | rfl | rfl | rfl | rfl | rfl | rfl | rfl
    all_goals exact ⟨List.all_eq_true.1 (by decide), _, _, rfl, by decide⟩
  have hsecs : Bare (secsText timeoutSecs) :=
    bare_of_isDigit Nat.toDigits_ne_nil fun c => isDigit_of_mem
  have hpass : Bare ("-p".toList ++ pass.toList) ↔ ∀ c ∈ pass.toList, plain c = true := by
    constructor
    · exact fun h c hc => h.1 c (List.mem_append_right _ hc)
    · refine fun h => ⟨fun c hc => ?_, '-', _, rfl, by decide⟩
      rcases List.mem_append.1 hc with hc | hc
      · exact (hfixed "-p" (by simp)).1 c hc
      · exact h c hc
  constructor
  · intro h
    exact ⟨h _ (by simp [queryTableFlags]), hpass.1 (h _ (by simp [queryTableFlags])),
      fun hok => (bare_of_identOk hok).1 (h _ (by simp [queryTableFlags, hok]))⟩
  · intro hs w hw
    rw [queryTableFlags, List.mem_append, List.mem_append] at hw
    rcases hw with (hw | hw) | hw
    · simp only [List.mem_cons, List.not_mem_nil, or_false] at hw
      rcases hw with rfl | rfl | rfl | rfl | rfl | rfl | rfl | rfl | rfl | rfl | rfl | rfl | rfl
      case inr.inr.inr.inl => exact hsecs
      case inr.inr.inr.inr.inr.inr.inr.inr.inr.inr.inr.inl => exact hs.user
      case inr.inr.inr.inr.inr.inr.inr.inr.inr.inr.inr.inr => exact hpass.2 hs.pass
      all_goals exact hfixed _ (by simp)
    · split at hw
      · next hok =>
        simp only [List.mem_cons, List.not_mem_nil, or_false] at hw
        rcases hw with rfl | rfl
        · exact hfixed _ (by simp)
        · exact (bare_of_identOk hok).2 (hs.db hok)
      · cases hw
    · obtain rfl := List.mem_singleton.1 hw
      exact hfixed _ (by simp)

/-- The shell runs the client with the arguments that are meant, for every statement, exactly when user,
password and database are safe. -/
theorem words_queryTableCmd_iff (user pass : String) (sql : List Char) (timeoutSecs : Nat)
    (defaultDb : String) (h : '\x00' ∉ sql) :
    words (queryTableCmd user pass sql timeoutSecs defaultDb) =
        some (queryTableArgv user pass sql timeoutSecs defaultDb) ↔ ShellSafe user pass defaultDb := by
  rw [queryTableCmd_eq, queryTableArgv, words_join_quote_iff h, bare_flags_iff]

theorem words_queryTableCmd_ro : '\x00' ∉ "SELECT 'a'".toList ∧
    words (queryTableCmd "rds_ro" "s3cret" "SELECT 'a'".toList 30 "appdb") =
      some (queryTableArgv "rds_ro" "s3cret" "SELECT 'a'".toList 30 "appdb") :=
  ⟨by decide, (words_queryTableCmd_iff "rds_ro" "s3cret" "SELECT 'a'".toList 30 "appdb" (by decide)).2
    { user := ⟨List.all_eq_true.1 (by decide), _, _, rfl, by decide⟩
      pass := List.all_eq_true.1 (show ("s3cret".toList.all plain) = true by decide)
      db := fun _ => by decide }⟩

/-- With a semicolon in the root password the shell runs a second command. -/
theorem password_split : ¬ ∀ user pass sql timeoutSecs defaultDb, '\x00' ∉ sql →
    words (queryTableCmd user pass sql timeoutSecs defaultDb) =
      some (queryTableArgv user pass sql timeoutSecs defaultDb) := fun h => by
  have hwords := h "root" "rds;2024" "SELECT 1".toList 30 "" (by decide)
  rw [queryTableCmd_eq, queryTableArgv, words_join_quote_iff (by decide), bare_flags_iff] at hwords
  exact absurd (hwords.pass ';' (by decide)) (by decide)

end Rdsctl.Query
