import Rdsctl.Ha.LogView
import Rdsctl.Ha.Text

/-!
# The projection to the sink

`src/ha/projection.rs`, and what the projection loop of `src/main.rs` asks of the audit table of
`src/store.rs`. A decision of the log becomes a row with the marker `proj:<shard>:<index>`, and a row
is written when the table has none with its marker. The text of a JSON value is a parameter.
-/

namespace Rdsctl.Ha

/-- `marker` -/
def projectionMarker (shard index : Nat) : String :=
  "proj:" ++ toString shard ++ ":" ++ toString index

/-- An audit row to be projected. -/
structure ProjectedAudit where
  shard : Nat
  index : Nat
  who : String
  inst : String
  action : String
  params : String
  result : String
  taskId : String
deriving DecidableEq, Repr

/-- The text of a value, cut after `n` characters. -/
def truncateValue (text : Value → String) (v : Value) (n : Nat) : String :=
  let s := text v
  if s.length ≤ n then s else String.ofList (s.toList.take n) ++ "…"

/-- `project_op`; the term is not used. -/
def projectOp (text : Value → String) (shard _term index : Nat) (op : Op) :
    Option ProjectedAudit :=
  let base (inst action params who task : String) : ProjectedAudit :=
    { shard, index, who, inst, action
      params := projectionMarker shard index ++ " " ++ params
      result := "ok"
      taskId := task }
  match op with
  | .noop | .put .. | .delete .. | .configSet .. => none
  | .leasePurge _ => none
  | .leaseGrant inst holder ttlMs atMs =>
    some (base inst "lease_grant" ("holder=" ++ holder ++ " ttl_ms=" ++ toString ttlMs ++
      " at_ms=" ++ toString atMs) holder "")
  | .leaseRenew inst holder atMs =>
    some (base inst "lease_renew" ("holder=" ++ holder ++ " at_ms=" ++ toString atMs) holder "")
  | .leaseRelease inst holder => some (base inst "lease_release" ("holder=" ++ holder) holder "")
  | .stepBegin taskId node step idemKey =>
    some (base "" "step_begin" ("task=" ++ taskId ++ " node=" ++ node ++ " step=" ++
      toString step.toNat ++ " idem=" ++ idemKey) "controller" taskId)
  | .stepDone taskId node step idemKey result =>
    some (base "" "step_done" ("task=" ++ taskId ++ " node=" ++ node ++ " step=" ++
      toString step.toNat ++ " idem=" ++ idemKey ++ " result=" ++ truncateValue text result 120)
      "controller" taskId)
  | .auditAppend who inst action params result taskId =>
    some { base inst action params who taskId with result }

/-- The op is a decision, on whatever shard and at whatever index. -/
def Op.isDecision (op : Op) : Bool := (projectOp (fun _ => "") 0 0 0 op).isSome

/-- The cursor of the projection, and what the file holds. -/
structure Projector where
  cursor : Nat
  saved : Nat
deriving Repr

/-- `Projector::open`: a file that does not spell a number counts as 0. -/
def Projector.reopen (p : Projector) : Projector := ⟨p.saved, p.saved⟩

section
variable [SerdeJson]

/-- The row of a record. The shard is 0, whatever the shard of the log. -/
def projectRecord (text : Value → String) (r : Record) : Option ProjectedAudit :=
  match SerdeJson.opFromSlice r.payload with
  | .ok op => projectOp text 0 r.term r.index op
  | .error _ => none

/-- The loop of `pending`, with the rows so far. -/
def pendingLoop (text : Value → String) (appliedIndex limit : Nat) :
    List ProjectedAudit → List Record → List ProjectedAudit
  | out, [] => out
  | out, r :: rs =>
    if appliedIndex < r.index then out
    else if limit ≤ out.length then out
    else pendingLoop text appliedIndex limit (out ++ (projectRecord text r).toList) rs

/-- `pending` -/
def Projector.pending (text : Value → String) (p : Projector) (log : Log) (appliedIndex limit : Nat) :
    List ProjectedAudit :=
  pendingLoop text appliedIndex limit [] (log.entriesFrom (p.cursor + 1))

end

/-- `commit`: `left` is what the file holds afterwards when `save` fails. -/
def Projector.commit (p : Projector) (upto : Nat) (left : Option Nat) : Projector :=
  if p.cursor < upto then ⟨upto, left.getD upto⟩ else p

/-! ## The audit table -/

/-- A row of `audit_log`. -/
structure AuditLogRow where
  user : String
  inst : String
  action : String
  params : String
  result : String
  taskId : String
deriving DecidableEq, Repr

/-- `truncate` of the store: what is short in bytes is kept, anything else cut after `n`
characters. -/
def truncateText (s : String) (n : Nat) : String :=
  if s.utf8ByteSize ≤ n then s else String.ofList (s.toList.take n)

/-- `audit` -/
def auditLogRow (user inst action params result taskId : String) : AuditLogRow :=
  ⟨user, inst, action, truncateText params 240, truncateText result 240, taskId⟩

/-- The row that is written for a projected one. -/
def ProjectedAudit.stored (row : ProjectedAudit) : AuditLogRow :=
  auditLogRow row.who row.inst row.action row.params row.result row.taskId

/-- The row carries the marker. -/
def AuditLogRow.hasMarker (mk : String) (r : AuditLogRow) : Bool :=
  (mk ++ " ").toList.isPrefixOf r.params.toList

/-! ## Markers -/

section Markers

variable {text : Value → String} {op : Op} {shard term index : Nat} {row : ProjectedAudit}

theorem projectOp_isSome (text : Value → String) (shard term index : Nat) (op : Op) :
    (projectOp text shard term index op).isSome = op.isDecision := by
  cases op <;> rfl

/-- The row of an op has its index, and its parameters start with the marker. -/
theorem projectOp_marker (h : projectOp text shard term index op = some row) :
    row.index = index ∧ ∃ rest, row.params = projectionMarker shard index ++ " " ++ rest := by
  cases op <;> simp only [projectOp, reduceCtorEq, Option.some.injEq] at h
  all_goals
    subst h
    exact ⟨rfl, _, rfl⟩

theorem projectOp_shard (h : projectOp text shard term index op = some row) : row.shard = shard := by
  cases op <;> simp only [projectOp, reduceCtorEq, Option.some.injEq] at h
  all_goals
    subst h
    rfl

theorem projectOp_term (text : Value → String) (shard term term' index : Nat) (op : Op) :
    projectOp text shard term index op = projectOp text shard term' index op := by
  cases op <;> rfl

theorem toList_marker (shard index : Nat) : (projectionMarker shard index ++ " ").toList =
    "proj:".toList ++ Nat.toDigits 10 shard ++ ":".toList ++ (Nat.toDigits 10 index ++ [' ']) := by
  simp [projectionMarker, ToString.toString, Nat.toList_repr]

/-- Digits up to the first blank. -/
theorem digits_inj {m n : Nat} {as bs : List Char}
    (h : Nat.toDigits 10 m ++ ' ' :: as = Nat.toDigits 10 n ++ ' ' :: bs) : m = n := by
  have hnot : ∀ k : Nat, ∀ c ∈ Nat.toDigits 10 k, c ≠ ' ' := by
    rintro k c hc rfl
    have : (' ' : Char).isDigit = true := isDigit_of_mem hc
    cases this
  have htake : ∀ (k : Nat) (cs : List Char),
      (Nat.toDigits 10 k ++ ' ' :: cs).takeWhile (· ≠ ' ') = Nat.toDigits 10 k := by
    intro k cs
    rw [List.takeWhile_append_of_pos fun c hc => by simpa using hnot k c hc]
    simp
  have heq := congrArg (List.takeWhile (· ≠ ' ')) h
  rw [htake, htake] at heq
  have := congrArg (fun ds => Nat.ofDigitChars 10 ds 0) heq
  simpa [Nat.ofDigitChars_ten_toDigits] using this

/-- What is kept of a text starts as the text does. -/
theorem prefix_truncateText {p s : List Char} {n : Nat} (hn : p.length ≤ n) :
    p <+: (truncateText (String.ofList (p ++ s)) n).toList := by
  unfold truncateText
  split
  · simp
  · rw [String.toList_ofList, String.toList_ofList, List.take_append]
    rw [List.take_of_length_le hn]
    exact List.prefix_append _ _

theorem truncateText_starts (s : String) (n : Nat) : (truncateText s n).toList <+: s.toList := by
  unfold truncateText
  split
  · exact List.prefix_rfl
  · rw [String.toList_ofList]
    exact List.take_prefix _ _

/-- The stored row of an op carries its marker. An index is a `u64`. -/
theorem stored_hasMarker (h : projectOp text 0 term index op = some row)
    (hidx : index < 2 ^ 64) : row.stored.hasMarker (projectionMarker 0 index) = true := by
  obtain ⟨-, rest, hp⟩ := projectOp_marker h
  have hlen : (projectionMarker 0 index ++ " ").toList.length ≤ 240 := by
    have hd : (Nat.toDigits 10 index).length ≤ 20 :=
      (Nat.length_toDigits_le_iff (by decide) (by decide)).2 (by omega)
    have h0 : (Nat.toDigits 10 0).length = 1 := rfl
    rw [toList_marker]
    simp only [List.length_append, h0, List.length_cons, List.length_nil]
    simp
    omega
  have hparams : row.params =
      String.ofList ((projectionMarker 0 index ++ " ").toList ++ rest.toList) := by
    rw [hp]
    simp [String.append_assoc]
  rw [AuditLogRow.hasMarker, List.isPrefixOf_iff_prefix]
  show _ <+: (truncateText row.params 240).toList
  rw [hparams]
  exact prefix_truncateText hlen

/-- A stored row carries no marker but its own. -/
theorem stored_marker_unique {index' : Nat} (h : projectOp text 0 term index op = some row)
    (hm : row.stored.hasMarker (projectionMarker 0 index') = true) : index' = index := by
  obtain ⟨-, rest, hp⟩ := projectOp_marker h
  rw [AuditLogRow.hasMarker, List.isPrefixOf_iff_prefix] at hm
  have hpre : (projectionMarker 0 index' ++ " ").toList <+: row.params.toList :=
    hm.trans (truncateText_starts row.params 240)
  have hlist : row.params.toList =
      (projectionMarker 0 index ++ " ").toList ++ rest.toList := by
    rw [hp]
    simp
  rw [hlist, toList_marker, toList_marker] at hpre
  obtain ⟨t, ht⟩ := hpre
  simp only [List.append_assoc, List.append_cancel_left_eq] at ht
  exact digits_inj ht

end Markers

/-! ## What is pending -/

section Records

variable {log : Log} {s start : Nat} {r : Record}

/-- The records from `start` on. -/
theorem mem_entriesFrom (h : Log.Indexed (s + 1) log.entries) :
    r ∈ log.entriesFrom start ↔ r ∈ log.entries ∧ start ≤ r.index := by
  unfold Log.entriesFrom
  cases hl : log.entries with
  | nil => simp
  | cons first rest =>
    rw [hl] at h
    have hfirst : first.index = s + 1 := h 0 first rfl
    have hindex : ∀ r ∈ first :: rest, first.index ≤ r.index := by
      intro r hr
      obtain ⟨j, hj⟩ := List.getElem?_of_mem hr
      rw [h j r hj]
      omega
    rw [List.head?_cons]
    dsimp only
    split
    · next hlt => exact ⟨fun hr => ⟨hr, by have := hindex r hr; omega⟩, And.left⟩
    · next hge =>
      constructor
      · intro hr
        obtain ⟨j, hj⟩ := List.getElem?_of_mem hr
        rw [List.getElem?_drop] at hj
        have := h _ r hj
        exact ⟨List.mem_of_getElem? hj, by omega⟩
      · rintro ⟨hr, hle⟩
        obtain ⟨j, hj⟩ := List.getElem?_of_mem hr
        have hidx := h j r hj
        refine List.mem_of_getElem? (i := j - (start - first.index)) ?_
        rw [List.getElem?_drop, ← hj]
        congr 1
        omega

/-- They come in the order of their indices. -/
theorem entriesFrom_sorted (h : Log.Indexed (s + 1) log.entries) :
    (log.entriesFrom start).Pairwise fun r r' => r.index < r'.index := by
  have hall : log.entries.Pairwise fun r r' => r.index < r'.index := by
    rw [List.pairwise_iff_getElem]
    intro i j hi hj hij
    rw [h i _ (List.getElem?_eq_getElem hi), h j _ (List.getElem?_eq_getElem hj)]
    omega
  unfold Log.entriesFrom
  split
  · exact List.Pairwise.nil
  · split
    · exact hall
    · exact hall.sublist (List.drop_sublist _ _)

end Records

section Pending
variable [SerdeJson]

variable {text : Value → String} {log : Log} {s : Nat} {r : Record} {row row' : ProjectedAudit}
  {p : Projector} {appliedIndex limit : Nat}

theorem projectRecord_index (h : projectRecord text r = some row) : row.index = r.index := by
  unfold projectRecord at h
  split at h
  · exact (projectOp_marker h).1
  · cases h

/-- The loop goes through the applied records, and stops at the limit. -/
theorem pendingLoop_eq (out : List ProjectedAudit) (rs : List Record) (hout : out.length ≤ limit) :
    pendingLoop text appliedIndex limit out rs = out ++
      (((rs.takeWhile fun r => decide (r.index ≤ appliedIndex)).filterMap
        (projectRecord text)).take (limit - out.length)) := by
  induction rs generalizing out with
  | nil => simp [pendingLoop]
  | cons r rs ih =>
    rw [pendingLoop]
    rcases Nat.lt_or_ge appliedIndex r.index with hlt | hle
    · rw [if_pos hlt, List.takeWhile_cons_of_neg (by simpa using hlt)]
      simp
    · rw [if_neg (by omega), List.takeWhile_cons_of_pos (by simpa using hle)]
      rcases Nat.lt_or_ge out.length limit with hlt | hge
      · rw [if_neg (by omega)]
        cases hr : projectRecord text r with
        | none =>
          rw [List.filterMap_cons_none hr, Option.toList_none, List.append_nil, ih out hout]
        | some row =>
          rw [List.filterMap_cons_some hr, Option.toList_some, ih (out ++ [row]) (by
            rw [List.length_append]
            exact hlt)]
          have hlim : limit - out.length = limit - (out.length + 1) + 1 := by omega
          rw [hlim, List.take_succ_cons, List.length_append]
          simp
      · rw [if_pos hge, show limit - out.length = 0 by omega, List.take_zero, List.append_nil]

variable (text p) in
/-- All rows of the applied records behind the cursor. -/
def Projector.outstanding (log : Log) (appliedIndex : Nat) : List ProjectedAudit :=
  ((log.entriesFrom (p.cursor + 1)).takeWhile fun r => decide (r.index ≤ appliedIndex)).filterMap
    (projectRecord text)

theorem pending_eq : p.pending text log appliedIndex limit =
    (p.outstanding text log appliedIndex).take limit := by
  rw [Projector.pending, pendingLoop_eq [] _ (Nat.zero_le limit)]
  rfl

theorem mem_outstanding (h : Log.Indexed (s + 1) log.entries) :
    row ∈ p.outstanding text log appliedIndex ↔ ∃ r ∈ log.entries, p.cursor < r.index ∧
      r.index ≤ appliedIndex ∧ projectRecord text r = some row := by
  have htake : ∀ r, r ∈ (log.entriesFrom (p.cursor + 1)).takeWhile
      (fun r => decide (r.index ≤ appliedIndex)) ↔
        r ∈ log.entriesFrom (p.cursor + 1) ∧ r.index ≤ appliedIndex := by
    intro r
    have hsort : (log.entriesFrom (p.cursor + 1)).Pairwise fun r r' => r.index < r'.index :=
      entriesFrom_sorted h
    generalize log.entriesFrom (p.cursor + 1) = rs at hsort
    induction rs with
    | nil => simp
    | cons r0 rs ih =>
      obtain ⟨h0, hrs⟩ := List.pairwise_cons.1 hsort
      rcases Nat.lt_or_ge appliedIndex r0.index with hlt | hle
      · rw [List.takeWhile_cons_of_neg (by simpa using hlt)]
        refine ⟨nofun, fun ⟨hr, hi⟩ => ?_⟩
        rcases List.mem_cons.1 hr with rfl | hr
        · omega
        · have := h0 r hr
          omega
      · rw [List.takeWhile_cons_of_pos (by simpa using hle), List.mem_cons, List.mem_cons]
        constructor
        · rintro (rfl | hr)
          · exact ⟨.inl rfl, hle⟩
          · exact ⟨.inr ((ih hrs).1 hr).1, ((ih hrs).1 hr).2⟩
        · rintro ⟨rfl | hr, hi⟩
          · exact .inl rfl
          · exact .inr ((ih hrs).2 ⟨hr, hi⟩)
  rw [Projector.outstanding, List.mem_filterMap]
  constructor
  · rintro ⟨r, hr, hrow⟩
    obtain ⟨hr, hi⟩ := (htake r).1 hr
    obtain ⟨hr, hc⟩ := (mem_entriesFrom h).1 hr
    exact ⟨r, hr, hc, hi, hrow⟩
  · rintro ⟨r, hr, hc, hi, hrow⟩
    exact ⟨r, (htake r).2 ⟨(mem_entriesFrom h).2 ⟨hr, hc⟩, hi⟩, hrow⟩

theorem outstanding_sorted (h : Log.Indexed (s + 1) log.entries) :
    (p.outstanding text log appliedIndex).Pairwise fun row row' => row.index < row'.index := by
  refine List.Pairwise.filterMap _ ?_ ((entriesFrom_sorted h).sublist (List.takeWhile_sublist _))
  intro r r' hlt row hrow row' hrow'
  rw [projectRecord_index hrow, projectRecord_index hrow']
  exact hlt

/-- What is pending is the outstanding rows up to the last of them, and all when the limit is not
reached. -/
theorem pending_complete (h : Log.Indexed (s + 1) log.entries)
    (hrow' : row' ∈ p.outstanding text log appliedIndex)
    (hfull : (p.pending text log appliedIndex limit).length < limit ∨
      ∃ row ∈ p.pending text log appliedIndex limit, row'.index ≤ row.index) :
    row' ∈ p.pending text log appliedIndex limit := by
  rw [pending_eq] at hfull ⊢
  rcases hfull with hlt | ⟨row, hrow, hle⟩
  · rwa [List.take_of_length_le]
    rw [List.length_take] at hlt
    omega
  · rw [← List.take_append_drop limit (p.outstanding text log appliedIndex)] at hrow'
    rcases List.mem_append.1 hrow' with hx | hx
    · exact hx
    · have hsort := @outstanding_sorted _ text log s p appliedIndex h
      rw [← List.take_append_drop limit (p.outstanding text log appliedIndex)] at hsort
      have := (List.pairwise_append.1 hsort).2.2 row hrow row' hx
      omega

theorem mem_pending (h : row ∈ p.pending text log appliedIndex limit) :
    row ∈ p.outstanding text log appliedIndex := by
  rw [pending_eq] at h
  exact List.mem_of_mem_take h

end Pending

end Rdsctl.Ha
