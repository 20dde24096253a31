import Rdsctl.Ha.Rpc
import Rdsctl.Lib.Delimiter

/-!
# Three readers of requests

How `handle` of `src/agent.rs`, `handle_conn` of `src/ha/runtime.rs` and `handle` of `src/http.rs` read a
request. All three decode the first read, look for the head in it and take the body from there. The first
two decode every further read on its own and stop when the text is long enough; the third one reads bytes,
for the console only, and gives the login what the first read has.
-/

namespace Rdsctl.Http

open Ha Utf8 Delimiter

/-! ## What the readers share -/

/-- What a reader makes of a connection. -/
inductive Received (ρ : Type)
  | closed
  | panicked
  | forbidden
  | handed (request : ρ) (body : List Char)

/-- The method, the path and the query of a request line. -/
structure Target where
  method : List Char
  path : List Char
  query : List Char
deriving DecidableEq, Repr

def Target.ofLine (line : List Char) : Target :=
  let parts := splitWhitespace line
  let target := parts[1]?.getD ['/']
  { method := (parts[0]?.getD []).flatMap upper
    path := target.takeWhile (· ≠ '?')
    query := (target.dropWhile (· ≠ '?')).tail }

/-- The number in the first line with the name of the header. -/
def contentLengthOf (lines : List (List Char)) : Option Nat :=
  (lines.find? (startsWithLower "content-length:")).bind fun line =>
    ((line.splitOn ':')[1]?).bind fun v => parseUInt (2 ^ 64) (trim v)

/-- `line.strip_suffix('\r').unwrap_or(line)` -/
def stripCr (line : List Char) : List Char :=
  if line.getLast? = some '\r' then line.dropLast else line

/-- `str::lines` -/
def textLines (text : List Char) : List (List Char) :=
  let pieces := text.splitOn '\n'
  pieces.dropLast.map stripCr ++ pieces.getLast?.toList.filter (· ≠ [])

/-- The value of a header, read from the `i`-th byte of its line on. Nothing, where the slice panics. -/
def headerAt (lines : List (List Char)) (name : String) (i : Nat) : Option (Option (List Char)) :=
  match lines.find? (startsWithLower name) with
  | none => some none
  | some line => (sliceFrom i line).map fun v => some (trim v)

/-- The value is taken to stand behind the byte after the name. -/
def headerOf (lines : List (List Char)) (name : String) : Option (Option (List Char)) :=
  headerAt lines name (byteLen name.toList + 1)

/-! ## `agent.rs` -/

/-- What the agent takes from the head. -/
structure AgentRequest where
  target : Target
  /-- the query parameter or the header -/
  got : Option (List Char)
  fence : Option (List Char)
  idem : Option (List Char)
  contentLength : Nat

/-- The value of `token=` in a query. -/
def queryToken (query : List Char) : Option (List Char) :=
  (query.splitOn '&').findSome? fun kv =>
    if '=' ∈ kv ∧ kv.takeWhile (· ≠ '=') = "token".toList then some (kv.dropWhile (· ≠ '=')).tail
    else none

def AgentRequest.ofText (head : List Char) : Option AgentRequest := do
  let lines := (splitCrlf head).tail
  let target := Target.ofLine ((splitCrlf head).headD [])
  let token ← headerOf lines "x-agent-token"
  let fence ← headerOf lines "x-rdsctl-fence"
  let idem ← headerOf lines "x-rdsctl-idem"
  return { target, got := (queryToken target.query).or token, fence, idem := idem.filter (· ≠ []),
           contentLength := (contentLengthOf (textLines head)).getD 0 }

/-- The request has the token that the agent asks for. -/
def AgentRequest.Admitted (token : Option String) (r : AgentRequest) : Prop :=
  ∀ expect ∈ token, r.got = some expect.toList

instance (token : Option String) (r : AgentRequest) : Decidable (r.Admitted token) := by
  unfold AgentRequest.Admitted
  infer_instance

/-- `handle` of the agent up to the payload, which is of no text without an announced length. -/
def agentRead (token : Option String) : List (List UInt8) → Received AgentRequest
  | [] => .closed
  | first :: reads =>
    if first = [] then .closed
    else
      let text := (fromUtf8Lossy first).toList
      let head := (findHead text).getD []
      match AgentRequest.ofText head with
      | none => .panicked
      | some request =>
        if request.Admitted token then
          match sliceFrom (min (byteLen head) first.length) text with
          | none => .panicked
          | some body =>
            .handed request
              (if 0 < request.contentLength then readBody request.contentLength body reads else [])
        else .forbidden

/-! ## `runtime.rs` -/

/-- `handle_conn` up to the routes. -/
def connRead (token : Option String) : List (List UInt8) → Received RequestHead
  | [] => .closed
  | first :: reads =>
    if first = [] then .closed
    else
      match receive first reads with
      | none => .panicked
      | some (request, body) =>
        match token with
        | none => .handed request body
        | some expect =>
          match gotToken request.lines with
          | none => .panicked
          | some got => if got = some expect.toList then .handed request body else .forbidden

/-- The routes are behind it. -/
theorem handleConn_eq [RpcJson] (token : Option String) (reads : List (List UInt8)) :
    handleConn token reads =
      match connRead token reads with
      | .closed => .closed
      | .panicked => .panicked
      | .forbidden => .forbidden
      | .handed request body =>
        if request.method = "POST".toList ∧ request.path = "/internal/raft".toList then
          raftRoute (String.ofList body)
        else .elsewhere := by
  rcases reads with _ | ⟨first, reads⟩
  · rfl
  rw [handleConn, connRead]
  split
  · rfl
  cases receive first reads with
  | none => rfl
  | some p =>
    cases token with
    | none => rfl
    | some expect =>
      dsimp only
      cases gotToken p.1.lines with
      | none => rfl
      | some got =>
        dsimp only
        split <;> rfl

/-! ## `http.rs` -/

/-- What the HTTP API takes from the first read. -/
structure HttpRequest where
  target : Target
  cookie : Option (List Char)

/-- The text in front of the first empty line. -/
def beforeEmptyLine (text : List Char) : List Char :=
  match findHead text with
  | some head => head.take (head.length - 4)
  | none => text

/-- The text between the first empty line and the next one: what `/login` reads. -/
def loginBody (text : List Char) : List Char :=
  match findHead text with
  | some head => beforeEmptyLine (text.drop head.length)
  | none => []

/-- `b[i..j]` -/
def bytesIn (b : List UInt8) (i j : Nat) : Option (List UInt8) :=
  if i ≤ j ∧ j ≤ b.length then some ((b.drop i).take (j - i)) else none

/-- The loop of `read_body_full`. -/
def readOn (need : Nat) : List UInt8 → List (List UInt8) → Option (List UInt8)
  | body, [] => some body
  | body, chunk :: reads =>
    if body.length < need then
      if chunk = [] then some body
      else (bytesIn chunk 0 (min chunk.length (need - body.length))).bind fun part =>
        readOn need (body ++ part) reads
    else some body

/-- The end of a head, as bytes. -/
def emptyLineBytes : List UInt8 := [13, 10, 13, 10]

/-- `read_body_full`. No `Vec` has a capacity of more than `isize::MAX` bytes. -/
def readBodyFull (first : List UInt8) (reads : List (List UInt8)) (contentLength : Nat) :
    Option (List Char) :=
  if 2 ^ 63 ≤ contentLength then none
  else
    let headEnd := ((position emptyLineBytes first).map (· + 4)).getD 0
    let start :=
      if headEnd < first.length then
        bytesIn first headEnd (headEnd + min (first.length - headEnd) contentLength)
      else some []
    (start.bind fun body => readOn contentLength body reads).map lossy

/-- The endpoints that `handle` reads a body for. -/
def Target.NeedBody (t : Target) : Prop :=
  t.method = "POST".toList ∧
    (t.path = "/api/rds/query".toList ∨ t.path = "/api/rds/query/save".toList)

instance (t : Target) : Decidable t.NeedBody := by
  unfold Target.NeedBody
  infer_instance

/-- `POST /login` -/
def Target.Login (t : Target) : Prop := t.method = "POST".toList ∧ t.path = "/login".toList

instance (t : Target) : Decidable t.Login := by
  unfold Target.Login
  infer_instance

/-- The length that the text in front of the first empty line announces. -/
def httpLength (text : List Char) : Nat :=
  (contentLengthOf (textLines (beforeEmptyLine text))).getD 0

/-- `handle` of the HTTP API up to the login and the session. -/
def httpRead : List (List UInt8) → Received HttpRequest
  | [] => .closed
  | first :: reads =>
    if first = [] then .closed
    else
      let text := (fromUtf8Lossy first).toList
      let target := Target.ofLine ((splitCrlf text).headD [])
      match headerAt (splitCrlf text).tail "cookie:" 7 with
      | none => .panicked
      | some cookie =>
        match if target.NeedBody then readBodyFull first reads (httpLength text) else some [] with
        | none => .panicked
        | some postBody =>
          .handed ⟨target, cookie⟩ (if target.Login then loginBody text else postBody)

/-! ## Reading well -/

/-- The reads of a connection, up to its end. -/
structure Connection where
  reads : List (List UInt8)
  nonempty : ∀ c ∈ reads, c ≠ []

/-- A reader, and what it is to find in the text of a head up to its empty line: the length that is
announced, the method and the path, and whether a body may be handed to that endpoint. -/
structure Reader (ρ : Type) where
  read : List (List UInt8) → Received ρ
  endpoint : ρ → List Char × List Char
  announced : List Char → Option Nat
  named : List Char → List Char × List Char
  Rightful : List Char → Prop

namespace Reader

variable {ρ : Type} (R : Reader ρ)

/-- The peer has sent a request with a body of at least the announced length, for an endpoint that may have
it. -/
structure Asks (stream x body : List UInt8) (k : Nat) : Prop where
  first : First emptyLineBytes x stream
  split : stream = x ++ emptyLineBytes ++ body
  announced : R.announced (lossy x) = some k
  enough : k ≤ body.length
  rightful : R.Rightful (lossy x)

/-- The reader does not panic, and the endpoint is handed the announced bytes of the body. -/
def Exact (a : Connection) : Prop :=
  R.read a.reads ≠ .panicked ∧ ∀ x body k, R.Asks a.reads.flatten x body k →
    ∃ request text, R.read a.reads = .handed request text ∧
      R.endpoint request = R.named (lossy x) ∧ encode text = body.take k

end Reader

/-- The target of a head. -/
def targetOf (text : List Char) : Target := Target.ofLine ((splitCrlf text).headD [])

def agent (token : Option String) : Reader AgentRequest where
  read := agentRead token
  endpoint r := (r.target.method, r.target.path)
  announced u := contentLengthOf (textLines (u ++ emptyLine))
  named u := ((targetOf (u ++ emptyLine)).method, (targetOf (u ++ emptyLine)).path)
  Rightful u := ∃ r, AgentRequest.ofText (u ++ emptyLine) = some r ∧ r.Admitted token ∧
    r.target.method = "POST".toList

def conn (token : Option String) : Reader RequestHead where
  read := connRead token
  endpoint r := (r.method, r.path)
  announced u := contentLengthOf (splitCrlf (u ++ emptyLine)).tail
  named u := ((RequestHead.ofText (u ++ emptyLine)).method, (RequestHead.ofText (u ++ emptyLine)).path)
  Rightful u := (RequestHead.ofText (u ++ emptyLine)).method = "POST".toList ∧
    ∀ expect ∈ token, gotToken (RequestHead.ofText (u ++ emptyLine)).lines = some (some expect.toList)

def http : Reader HttpRequest where
  read := httpRead
  endpoint r := (r.target.method, r.target.path)
  announced u := contentLengthOf (textLines u)
  named u := ((targetOf (u ++ emptyLine)).method, (targetOf (u ++ emptyLine)).path)
  Rightful u := (targetOf (u ++ emptyLine)).NeedBody ∨ (targetOf (u ++ emptyLine)).Login

/-! ## When they read well -/

/-- The line of a header, where there is one, goes on with an ASCII character behind the name. -/
def GoesOn (lines : List (List Char)) (name : String) : Prop :=
  ∀ text, lines.find? (startsWithLower name) = some text →
    ∃ c, text[name.length]? = some c ∧ c.utf8Size = 1

/-- The head has a text that is too long for the first read by `t`. -/
def Spill (first : List UInt8) (u t : List Char) : Prop :=
  ∃ p, u ++ emptyLine = p ++ t ∧ byteLen p = min (byteLen (u ++ emptyLine)) first.length

/-- Pieces that are decoded one by one make the bytes `w`: they are these bytes and none has an ill-formed
sequence, or they are fewer and their text has grown to be the bytes by chance. -/
def Yields (t : List Char) (pieces : List (List UInt8)) (w : List UInt8) : Prop :=
  (t = [] ∧ pieces.flatten = w ∧ ∀ c ∈ pieces, encode (lossy c) = c) ∨
    (pieces.flatten.length < w.length ∧ encode (t ++ pieces.flatMap lossy) = w)

/-- The first read has the head `x`, and the reads up to one of them yield the bytes. -/
def CutAt (first : List UInt8) (rest : List (List UInt8)) (x w : List UInt8) : Prop :=
  ∃ t done todo, Spill first (lossy x) t ∧ rest = done ++ todo ∧
    Yields t (first.drop (x.length + 4) :: done) w

structure AgentFine (token : Option String) (first : List UInt8) (rest : List (List UInt8)) : Prop where
  headers : ∀ x, First emptyLineBytes x first →
    ∀ name ∈ ["x-agent-token", "x-rdsctl-fence", "x-rdsctl-idem"],
      GoesOn (splitCrlf (lossy x ++ emptyLine)).tail name
  boundary : ∀ x r, First emptyLineBytes x first → AgentRequest.ofText (lossy x ++ emptyLine) = some r →
    r.Admitted token → ∃ t, Spill first (lossy x) t
  body : ∀ x body k, (agent token).Asks (first ++ rest.flatten) x body k →
    x.length + 4 ≤ first.length ∧ (k = 0 ∨ CutAt first rest x (body.take k))

structure ConnFine (token : Option String) (first : List UInt8) (rest : List (List UInt8)) : Prop where
  headers : ∀ x, First emptyLineBytes x first → token ≠ none →
    GoesOn (splitCrlf (lossy x ++ emptyLine)).tail "x-cluster-token"
  boundary : ∀ x, First emptyLineBytes x first → ∃ t, Spill first (lossy x) t
  body : ∀ x body k, (conn token).Asks (first ++ rest.flatten) x body k →
    x.length + 4 ≤ first.length ∧ CutAt first rest x (body.take k)

/-- The bytes in front of the first empty line. -/
def beforeEmptyLineBytes (b : List UInt8) : List UInt8 :=
  match position emptyLineBytes b with
  | some i => b.take i
  | none => b

structure HttpFine (first : List UInt8) (rest : List (List UInt8)) : Prop where
  capacity : (targetOf (lossy first)).NeedBody → httpLength (lossy first) < 2 ^ 63
  body : ∀ x body k, http.Asks (first ++ rest.flatten) x body k →
    if x.length + 4 ≤ first.length then
      if (targetOf (lossy x ++ emptyLine)).Login then
        Yields [] [beforeEmptyLineBytes (first.drop (x.length + 4))] (body.take k)
      else encode (lossy (body.take k)) = body.take k
    else
      -- the request line is read, and by chance the body is what the request begins with
      ((targetOf (lossy first)).method, (targetOf (lossy first)).path) = http.named (lossy x) ∧
        encode (lossy (if (targetOf (lossy first)).Login then []
          else (first ++ rest.flatten).take (httpLength (lossy first)))) = body.take k

/-! ## The head in the bytes and in the text -/

section Head

variable {x y b : List UInt8} {u v : List Char}

theorem lossy_eq_nil (h : lossy b = []) : b = [] := by
  have hlen := length_le_lossy b
  rw [h, byteLen_nil] at hlen
  exact List.eq_nil_of_length_eq_zero (Nat.le_zero.1 hlen)

/-- An empty line parts what is decoded. -/
theorem lossy_emptyLine (x y : List UInt8) :
    lossy (x ++ emptyLineBytes ++ y) = lossy x ++ emptyLine ++ lossy y := by
  have hr : ∀ a b : List UInt8, lossy (a ++ 13 :: b) = lossy a ++ '\r' :: lossy b :=
    lossy_append_cons (c := '\r') rfl
  have hn : ∀ b : List UInt8, lossy (10 :: b) = '\n' :: lossy b := lossy_append_cons (c := '\n') rfl []
  have hr' : ∀ b : List UInt8, lossy (13 :: b) = '\r' :: lossy b := hr []
  simp only [emptyLineBytes, emptyLine, List.append_assoc, List.cons_append, List.nil_append]
  rw [hr, hn, hr', hn]

/-- An empty line in the text is one in the bytes. -/
theorem of_lossy_emptyLine (h : lossy b = u ++ emptyLine ++ v) :
    ∃ x y, b = x ++ emptyLineBytes ++ y ∧ lossy x = u ∧ lossy y = v := by
  have hr : ∀ {u v : List Char} {b : List UInt8}, lossy b = u ++ '\r' :: v →
      ∃ x y, b = x ++ 13 :: y ∧ lossy x = u ∧ lossy y = v := of_lossy_eq_append rfl
  have hn : ∀ {u v : List Char} {b : List UInt8}, lossy b = u ++ '\n' :: v →
      ∃ x y, b = x ++ 10 :: y ∧ lossy x = u ∧ lossy y = v := of_lossy_eq_append rfl
  rw [emptyLine, List.append_assoc] at h
  obtain ⟨x, y₁, rfl, hx, h₁⟩ := hr h
  obtain ⟨x₁, y₂, rfl, hx₁, h₂⟩ := hn (u := []) h₁
  obtain ⟨x₂, y₃, rfl, hx₂, h₃⟩ := hr (u := []) h₂
  obtain ⟨x₃, y, rfl, hx₃, h₄⟩ := hn (u := []) h₃
  rw [lossy_eq_nil hx₁, lossy_eq_nil hx₂, lossy_eq_nil hx₃]
  exact ⟨x, y, by simp [emptyLineBytes], hx, h₄⟩

/-- The first empty line of the bytes is the first one of the text. -/
theorem first_lossy (h : First emptyLineBytes x b) : First emptyLine (lossy x) (lossy b) where
  occurs := by
    obtain ⟨y, rfl⟩ := h.occurs
    rw [lossy_emptyLine]
    exact List.prefix_append _ _
  least u' hu' := by
    obtain ⟨v, hv⟩ := hu'
    obtain ⟨x', y', rfl, rfl, -⟩ := of_lossy_emptyLine hv.symm
    obtain ⟨y, hy⟩ := h.occurs
    have hle := h.least x' (List.prefix_append _ _)
    obtain ⟨z, rfl⟩ := List.prefix_of_prefix_length_le
      ((List.prefix_append x _).trans h.occurs) (List.append_assoc x' _ _ ▸ List.prefix_append x' _) hle
    rcases z with _ | ⟨w, z⟩
    · rw [List.append_nil]
    · -- what follows `x` is the first carriage return of the empty line
      rw [List.append_assoc, List.append_assoc, List.append_assoc, List.append_cancel_left_eq,
        emptyLineBytes, List.cons_append, List.cons_append] at hy
      obtain ⟨rfl, -⟩ := List.cons_eq_cons.1 hy
      have hcut : lossy (x ++ 13 :: z) = lossy x ++ '\r' :: lossy z :=
        lossy_append_cons (c := '\r') rfl x z
      rw [hcut, List.length_append]
      exact Nat.le_add_right _ _

theorem of_first_lossy (h : First emptyLine u (lossy b)) :
    ∃ x, First emptyLineBytes x b ∧ lossy x = u := by
  obtain ⟨v, hv⟩ := h.occurs
  obtain ⟨x', y', rfl, -, -⟩ := of_lossy_emptyLine hv.symm
  obtain ⟨x, hx⟩ := First.exists_of_occurs (List.prefix_append (x' ++ emptyLineBytes) y')
  exact ⟨x, hx, (first_lossy hx).unique h⟩

/-- The head that is found. -/
theorem findHead_lossy (h : First emptyLineBytes x b) : findHead (lossy b) = some (lossy x ++ emptyLine) :=
  findHead_eq_some.2 ⟨_, first_lossy h, rfl⟩

theorem findHead_lossy_eq_none (h : ∀ x, ¬First emptyLineBytes x b) : findHead (lossy b) = none :=
  findHead_eq_none.2 fun _ hu => (of_first_lossy hu).elim fun x hx => h x hx.1

theorem split_of_first (h : First emptyLineBytes x b) :
    b = x ++ emptyLineBytes ++ b.drop (x.length + 4) := by
  obtain ⟨y, rfl⟩ := h.occurs
  have hlen : (x ++ emptyLineBytes).length = x.length + 4 := by simp [emptyLineBytes]
  rw [List.drop_left' hlen]

/-- The text of a read that has the head. -/
theorem lossy_of_first (h : First emptyLineBytes x b) :
    lossy b = lossy x ++ emptyLine ++ lossy (b.drop (x.length + 4)) := by
  conv_lhs => rw [split_of_first h]
  exact lossy_emptyLine _ _

theorem beforeEmptyLine_lossy (b : List UInt8) :
    beforeEmptyLine (lossy b) = lossy (beforeEmptyLineBytes b) := by
  rw [beforeEmptyLine, beforeEmptyLineBytes]
  cases hp : position emptyLineBytes b with
  | none =>
    rw [findHead_lossy_eq_none (position_eq_none.1 hp)]
  | some i =>
    obtain ⟨x, hx, rfl⟩ := position_eq_some.1 hp
    rw [findHead_lossy hx]
    obtain ⟨y, rfl⟩ := hx.occurs
    simp [emptyLine]

/-- What is read behind the head, with the end of the head when its text is too long. -/
theorem sliceFrom_head {n : Nat} {text : List Char} :
    sliceFrom (min (byteLen (u ++ emptyLine)) n) (u ++ emptyLine ++ v) = some text ↔
      ∃ p t, u ++ emptyLine = p ++ t ∧ byteLen p = min (byteLen (u ++ emptyLine)) n ∧ text = t ++ v := by
  rw [sliceFrom_eq_some]
  constructor
  · rintro ⟨p, heq, hp⟩
    obtain ⟨t, hu, rfl⟩ := append_inj_byteLen heq.symm (by rw [hp]; exact Nat.min_le_left _ _)
    exact ⟨p, t, hu, hp, rfl⟩
  · rintro ⟨p, t, heq, hp, rfl⟩
    exact ⟨p, by rw [heq, List.append_assoc], hp⟩

/-- The end of a head that is too long is told by the lengths. -/
theorem spill_unique {first : List UInt8} {t t' : List Char} (h : Spill first u t)
    (h' : Spill first u t') : t = t' := by
  obtain ⟨p, heq, hp⟩ := h
  obtain ⟨p', heq', hp'⟩ := h'
  obtain ⟨w, hw, ht⟩ := append_inj_byteLen (heq.symm.trans heq') (Nat.le_of_eq (hp.trans hp'.symm))
  have hzero : byteLen w = 0 := by
    have := congrArg byteLen hw
    rw [byteLen_append] at this
    omega
  rw [ht, encode_eq_nil.1 (List.eq_nil_of_length_eq_zero ((length_encode w).trans hzero)), List.nil_append]

end Head

/-! ## The line of a header -/

theorem utf8Size_toLower (c : Char) : c.toLower.utf8Size = c.utf8Size := by
  unfold Char.toLower
  split
  next h =>
    have hle : c.val.toNat ≤ 90 := UInt32.le_iff_toNat_le.1 h.2
    have hsum : (c.val + ('a'.val - 'A'.val)).toNat = (c.val.toNat + 32) % 2 ^ 32 := UInt32.toNat_add _ _
    have hone : c.utf8Size = 1 :=
      Char.utf8Size_eq_one_iff.2 (UInt32.le_iff_toNat_le.2 (Nat.le_trans hle (by decide)))
    have hascii : (c.val + ('a'.val - 'A'.val)).toNat ≤ (0x7f : UInt32).toNat := by
      rw [hsum]
      exact Nat.le_trans (Nat.mod_le _ _) (Nat.le_trans (Nat.add_le_add_right hle 32) (by decide))
    rw [hone]
    exact Char.utf8Size_eq_one_iff.2 (UInt32.le_iff_toNat_le.2 hascii)
  · rfl

theorem byteLen_map_toLower (cs : List Char) : byteLen (cs.map Char.toLower) = byteLen cs := by
  induction cs with
  | nil => rfl
  | cons c cs ih => rw [List.map_cons, byteLen_cons, byteLen_cons, ih, utf8Size_toLower]

/-- The slice of a header is taken exactly when its line goes on with an ASCII character. -/
theorem isSome_headerOf {lines : List (List Char)} {name : String} :
    (headerOf lines name).isSome ↔ GoesOn lines name := by
  rw [headerOf, headerAt, GoesOn]
  cases hline : lines.find? (startsWithLower name) with
  | none => simp
  | some line =>
    have hstart : name.toList <+: line.map Char.toLower := by
      simpa [startsWithLower] using List.find?_some hline
    obtain ⟨r, hr⟩ := hstart
    obtain ⟨p, s, rfl, hp, -⟩ := List.map_eq_append_iff.1 hr.symm
    have hname : byteLen name.toList = byteLen p := by rw [← hp, byteLen_map_toLower]
    have hlen : name.length = p.length := by
      rw [← String.length_toList, ← hp, List.length_map]
    rw [Option.isSome_map, Option.isSome_iff_exists, hname]
    constructor
    · rintro ⟨v, hv⟩ _ heq
      cases heq
      obtain ⟨q, hq, hqlen⟩ := sliceFrom_eq_some.1 hv
      obtain ⟨w, rfl, rfl⟩ := append_inj_byteLen hq (by omega)
      rw [byteLen_append] at hqlen
      rcases w with _ | ⟨c, w⟩
      · simp at hqlen
      · have hpos := c.utf8Size_pos
        rw [byteLen_cons] at hqlen
        refine ⟨c, by rw [hlen]; simp, by omega⟩
    · intro h
      obtain ⟨c, hc, hone⟩ := h _ rfl
      rw [hlen, List.getElem?_append_right (Nat.le_refl _), Nat.sub_self] at hc
      obtain ⟨s, rfl⟩ := List.head?_eq_some_iff.1 (List.head?_eq_getElem? ▸ hc)
      exact ⟨s, sliceFrom_eq_some.2 ⟨p ++ [c], by simp, by rw [byteLen_append, byteLen_cons, hone]; rfl⟩⟩

/-! ## The reads that are decoded one by one -/

section Pieces

variable {pieces rest : List (List UInt8)} {t : List Char} {b0 body more : List UInt8} {k : Nat}

theorem encode_flatMap_lossy (h : ∀ c ∈ pieces, encode (lossy c) = c) :
    encode (pieces.flatMap lossy) = pieces.flatten := by
  induction pieces with
  | nil => rfl
  | cons c pieces ih =>
    rw [List.flatMap_cons, encode_append, h c List.mem_cons_self,
      ih fun d hd => h d (List.mem_cons_of_mem _ hd), List.flatten_cons]

/-- Where nothing has grown, every piece is decoded to itself. -/
theorem whole_of_encode (h : encode (pieces.flatMap lossy) = pieces.flatten) :
    ∀ c ∈ pieces, encode (lossy c) = c := by
  induction pieces with
  | nil => simp
  | cons c pieces ih =>
    rw [List.flatMap_cons, encode_append, List.flatten_cons] at h
    have hlen := congrArg List.length h
    have hc := length_le_lossy c
    have hrest := length_le_flatMap_lossy pieces
    rw [List.length_append, List.length_append, length_encode, length_encode] at hlen
    obtain ⟨hhead, htail⟩ := List.append_inj h (by rw [length_encode]; omega)
    intro d hd
    rcases List.mem_cons.1 hd with rfl | hd
    · exact hhead
    · exact ih htail d hd

/-- The text of some pieces is the body as announced exactly when they yield it. -/
theorem yields_iff (hbody : body = pieces.flatten ++ more) (hk : k ≤ body.length) :
    Yields t pieces (body.take k) ↔ encode (t ++ pieces.flatMap lossy) = body.take k := by
  constructor
  · rintro (⟨rfl, hjoin, hwhole⟩ | ⟨-, h⟩)
    · rw [List.nil_append, encode_flatMap_lossy hwhole, hjoin]
    · exact h
  · intro h
    have hlen := congrArg List.length h
    rw [length_encode, byteLen_append, List.length_take_of_le hk] at hlen
    have hle := length_le_flatMap_lossy pieces
    rcases Nat.lt_or_ge pieces.flatten.length k with hlt | hge
    · exact .inr ⟨by rwa [List.length_take_of_le hk], h⟩
    · have ht : t = [] := by
        rw [← encode_eq_nil, ← List.length_eq_zero_iff, length_encode]
        omega
      have htake : body.take k = pieces.flatten := by
        rw [hbody, List.take_append_of_le_length hge, List.take_of_length_le (by omega)]
      subst ht
      rw [List.nil_append, htake] at h
      exact .inl ⟨rfl, htake.symm, whole_of_encode h⟩

/-- A text that is as long as announced ends the reading. -/
theorem readBody_of_byteLen {done todo : List (List UInt8)} (hne : ∀ c ∈ done, c ≠ [])
    (h : byteLen (t ++ done.flatMap lossy) = k) :
    readBody k t (done ++ todo) = t ++ done.flatMap lossy := by
  induction done generalizing t with
  | nil =>
    rw [List.flatMap_nil, List.append_nil] at h ⊢
    rcases todo with _ | ⟨c, todo⟩
    · rfl
    · rw [List.nil_append, readBody, if_neg (by omega)]
  | cons c done ih =>
    have hc := hne c List.mem_cons_self
    have hpos := List.length_pos_of_ne_nil hc
    have hle := length_le_lossy c
    rw [List.flatMap_cons, ← List.append_assoc] at h ⊢
    have hlt : byteLen t < k := by
      rw [byteLen_append, byteLen_append] at h
      omega
    rw [List.cons_append, readBody_cons hc, if_pos hlt]
    exact ih (fun d hd => hne d (List.mem_cons_of_mem _ hd)) h

/-- The body is read as announced exactly when the reads up to one of them yield it. -/
theorem readBody_eq_take_iff (hne : ∀ c ∈ rest, c ≠ []) (hbody : body = b0 ++ rest.flatten)
    (hk : k ≤ body.length) : encode (readBody k (t ++ lossy b0) rest) = body.take k ↔
      ∃ done todo, rest = done ++ todo ∧ Yields t (b0 :: done) (body.take k) := by
  have hyields : ∀ done todo, rest = done ++ todo → (Yields t (b0 :: done) (body.take k) ↔
      encode (t ++ lossy b0 ++ done.flatMap lossy) = body.take k) := by
    rintro done todo rfl
    have hsplit : body = (b0 :: done).flatten ++ todo.flatten := by
      rw [hbody, List.flatten_append, List.flatten_cons, List.append_assoc]
    rw [yields_iff hsplit hk, List.flatMap_cons, List.append_assoc]
  constructor
  · intro h
    obtain ⟨done, todo, heq, hread⟩ := readBody_cases k hne (t ++ lossy b0)
    rw [hread] at h
    exact ⟨done, todo, heq, (hyields done todo heq).2 h⟩
  · rintro ⟨done, todo, heq, hy⟩
    have h := (hyields done todo heq).1 hy
    have hlen := congrArg List.length h
    rw [length_encode, List.length_take_of_le hk] at hlen
    subst heq
    rw [readBody_of_byteLen (fun c hc => hne c (List.mem_append_left _ hc)) hlen, h]

end Pieces

/-! ## The head of what is asked -/

namespace Reader.Asks

variable {ρ : Type} {R : Reader ρ} {first x y body : List UInt8} {rest : List (List UInt8)} {k : Nat}

/-- The head of the first read is the head of the stream. -/
theorem eq_of_first (ha : R.Asks (first ++ rest.flatten) y body k) (hx : First emptyLineBytes x first) :
    y = x ∧ body = first.drop (x.length + 4) ++ rest.flatten := by
  obtain rfl := ha.first.unique (hx.append rest.flatten)
  refine ⟨rfl, ?_⟩
  have h := ha.split
  rw [split_of_first hx, List.append_assoc] at h
  simpa [emptyLineBytes] using h.symm

/-- A head that ends in the first read is found there. -/
theorem first_of_le (ha : R.Asks (first ++ rest.flatten) y body k) (hle : y.length + 4 ≤ first.length) :
    First emptyLineBytes y first := ha.first.of_append hle

end Reader.Asks

/-! ## `handle_conn` reads well -/

section Conn

variable {token : Option String} {first x : List UInt8} {rest : List (List UInt8)} {t : List Char}

theorem gotToken_eq (lines : List (List Char)) : gotToken lines = headerOf lines "x-cluster-token" := rfl

/-- A request whose head is in the first read. -/
theorem receive_first (hx : First emptyLineBytes x first) : receive first rest =
    (sliceFrom (min (byteLen (lossy x ++ emptyLine)) first.length)
      (lossy x ++ emptyLine ++ lossy (first.drop (x.length + 4)))).map fun body =>
        (RequestHead.ofText (lossy x ++ emptyLine),
          readBody (RequestHead.ofText (lossy x ++ emptyLine)).need body rest) := by
  rw [receive, toList_fromUtf8Lossy]
  rw [findHead_lossy hx, Option.getD_some, ← lossy_of_first hx]

/-- A request whose head is not. -/
theorem receive_of_not_first (rest : List (List UInt8)) (h : ∀ x, ¬First emptyLineBytes x first) :
    ∃ body, receive first rest = some (RequestHead.ofText [], body) := by
  rw [receive, toList_fromUtf8Lossy]
  rw [findHead_lossy_eq_none h, Option.getD_none, byteLen_nil, Nat.zero_min,
    sliceFrom]
  exact ⟨_, rfl⟩

theorem connRead_ne_panicked (hne : first ≠ []) (hx : First emptyLineBytes x first) :
    connRead token (first :: rest) ≠ .panicked ↔ (∃ t, Spill first (lossy x) t) ∧
      (token ≠ none → GoesOn (splitCrlf (lossy x ++ emptyLine)).tail "x-cluster-token") := by
  rw [connRead, if_neg hne, receive_first hx, ← isSome_headerOf, ← gotToken_eq]
  cases hs : sliceFrom (min (byteLen (lossy x ++ emptyLine)) first.length)
      (lossy x ++ emptyLine ++ lossy (first.drop (x.length + 4))) with
  | none =>
    refine iff_of_false (fun h => h rfl) ?_
    rintro ⟨⟨t, p, hsplit, hp⟩, -⟩
    rw [sliceFrom_head.2 ⟨p, t, hsplit, hp, rfl⟩] at hs
    cases hs
  | some body =>
    obtain ⟨p, t, hsplit, hp, -⟩ := sliceFrom_head.1 hs
    have hspill : ∃ t, Spill first (lossy x) t := ⟨t, p, hsplit, hp⟩
    cases token with
    | none => exact iff_of_true nofun ⟨hspill, fun h => absurd rfl h⟩
    | some expect =>
      dsimp only [Option.map_some]
      have hlines : (RequestHead.ofText (lossy x ++ emptyLine)).lines =
        (splitCrlf (lossy x ++ emptyLine)).tail := rfl
      rw [hlines]
      cases gotToken (splitCrlf (lossy x ++ emptyLine)).tail with
      | none => exact iff_of_false (fun h => h rfl) fun h => by simpa using h.2 nofun
      | some got =>
        refine iff_of_true ?_ ⟨hspill, fun _ => rfl⟩
        dsimp only
        split <;> nofun

/-- A rightful request is handed on. -/
theorem connRead_of_rightful (rest : List (List UInt8)) (hne : first ≠ [])
    (hx : First emptyLineBytes x first)
    (hspill : Spill first (lossy x) t) (hr : (conn token).Rightful (lossy x)) :
    connRead token (first :: rest) = .handed (RequestHead.ofText (lossy x ++ emptyLine))
      (readBody (RequestHead.ofText (lossy x ++ emptyLine)).need
        (t ++ lossy (first.drop (x.length + 4))) rest) := by
  obtain ⟨p, hsplit, hp⟩ := hspill
  rw [connRead, if_neg hne, receive_first hx, sliceFrom_head.2 ⟨p, t, hsplit, hp, rfl⟩]
  cases token with
  | none => rfl
  | some expect =>
    dsimp only [Option.map_some]
    rw [hr.2 expect rfl]
    exact if_pos rfl

/-- Without its head a request is for no endpoint. -/
theorem connRead_of_not_first (token : Option String) (rest : List (List UInt8)) (hne : first ≠ [])
    (h : ∀ x, ¬First emptyLineBytes x first) :
    connRead token (first :: rest) = .forbidden ∨
      ∃ body, connRead token (first :: rest) = .handed (RequestHead.ofText []) body := by
  obtain ⟨body, hbody⟩ := receive_of_not_first rest h
  rw [connRead, if_neg hne, hbody]
  cases token with
  | none => exact .inr ⟨body, rfl⟩
  | some expect =>
    have hgot : gotToken (RequestHead.ofText []).lines = some none := rfl
    dsimp only
    rw [hgot]
    exact .inl (if_neg nofun)

theorem conn_exact_cons (hne : ∀ c ∈ first :: rest, c ≠ []) :
    (conn token).Exact ⟨first :: rest, hne⟩ ↔ ConnFine token first rest := by
  have hfirst := hne first List.mem_cons_self
  have hrest : ∀ c ∈ rest, c ≠ [] := fun c hc => hne c (List.mem_cons_of_mem _ hc)
  have hneed : ∀ u k, (conn token).announced u = some k → (RequestHead.ofText (u ++ emptyLine)).need = k :=
    fun u k h => congrArg (Option.getD · 0) h
  constructor
  · rintro ⟨hpanic, hexact⟩
    refine ⟨fun x hx => ((connRead_ne_panicked hfirst hx).1 hpanic).2,
      fun x hx => ((connRead_ne_panicked hfirst hx).1 hpanic).1, fun x body k ha => ?_⟩
    obtain ⟨request, text, hread, hend, htext⟩ := hexact x body k ha
    by_cases hx : ∃ y, First emptyLineBytes y first
    · obtain ⟨y, hy⟩ := hx
      obtain ⟨rfl, hbody⟩ := ha.eq_of_first hy
      refine ⟨hy.length_le, ?_⟩
      obtain ⟨t, ht⟩ := ((connRead_ne_panicked hfirst hy).1 hpanic).1
      have hgot := connRead_of_rightful rest hfirst hy ht ha.rightful
      rw [hneed _ k ha.announced] at hgot
      cases hread.symm.trans hgot
      obtain ⟨done, todo, heq, hyields⟩ := (readBody_eq_take_iff hrest hbody ha.enough).1 htext
      exact ⟨t, done, todo, ht, heq, hyields⟩
    · rcases connRead_of_not_first token rest hfirst (not_exists.1 hx) with h | ⟨b, h⟩
      · cases hread.symm.trans h
      · cases hread.symm.trans h
        have hmethod : [] = "POST".toList := (congrArg Prod.fst hend).trans ha.rightful.1
        cases hmethod
  · intro hfine
    constructor
    · show connRead token (first :: rest) ≠ .panicked
      by_cases hx : ∃ y, First emptyLineBytes y first
      · obtain ⟨y, hy⟩ := hx
        exact (connRead_ne_panicked hfirst hy).2 ⟨hfine.boundary y hy, hfine.headers y hy⟩
      · rcases connRead_of_not_first token rest hfirst (not_exists.1 hx) with
          h | ⟨b, h⟩ <;> rw [h] <;> nofun
    · intro x body k ha
      obtain ⟨hle, t, done, todo, ht, heq, hyields⟩ := hfine.body x body k ha
      have hx := ha.first_of_le hle
      obtain ⟨-, hbody⟩ := ha.eq_of_first hx
      refine ⟨_, _, connRead_of_rightful rest hfirst hx ht ha.rightful, rfl, ?_⟩
      rw [hneed _ k ha.announced]
      exact (readBody_eq_take_iff hrest hbody ha.enough).2 ⟨done, todo, heq, hyields⟩

end Conn

/-! ## `handle` of the agent reads well -/

section Agent

variable {token : Option String} {first x : List UInt8} {rest : List (List UInt8)} {t head : List Char}
  {r : AgentRequest}

theorem isSome_ofText : (AgentRequest.ofText head).isSome ↔
    ∀ name ∈ ["x-agent-token", "x-rdsctl-fence", "x-rdsctl-idem"], GoesOn (splitCrlf head).tail name := by
  simp only [AgentRequest.ofText, List.forall_mem_cons, ← isSome_headerOf]
  cases headerOf (splitCrlf head).tail "x-agent-token" <;>
    cases headerOf (splitCrlf head).tail "x-rdsctl-fence" <;>
      cases headerOf (splitCrlf head).tail "x-rdsctl-idem" <;> simp

theorem of_ofText_eq_some (h : AgentRequest.ofText head = some r) :
    r.target = targetOf head ∧ r.contentLength = (contentLengthOf (textLines head)).getD 0 := by
  simp only [AgentRequest.ofText, Option.bind_eq_bind, Option.bind_eq_some_iff, Option.pure_def,
    Option.some.injEq] at h
  obtain ⟨-, -, -, -, -, -, rfl⟩ := h
  exact ⟨rfl, rfl⟩

theorem agentRead_first (hne : first ≠ []) (hx : First emptyLineBytes x first) :
    agentRead token (first :: rest) =
      match AgentRequest.ofText (lossy x ++ emptyLine) with
      | none => .panicked
      | some request =>
        if request.Admitted token then
          match sliceFrom (min (byteLen (lossy x ++ emptyLine)) first.length)
            (lossy x ++ emptyLine ++ lossy (first.drop (x.length + 4))) with
          | none => .panicked
          | some body =>
            .handed request
              (if 0 < request.contentLength then readBody request.contentLength body rest else [])
        else .forbidden := by
  rw [agentRead, if_neg hne, toList_fromUtf8Lossy]
  dsimp only
  rw [findHead_lossy hx, Option.getD_some, ← lossy_of_first hx]

theorem agentRead_ne_panicked (hne : first ≠ []) (hx : First emptyLineBytes x first) :
    agentRead token (first :: rest) ≠ .panicked ↔
      (∀ name ∈ ["x-agent-token", "x-rdsctl-fence", "x-rdsctl-idem"],
        GoesOn (splitCrlf (lossy x ++ emptyLine)).tail name) ∧
      ∀ r, AgentRequest.ofText (lossy x ++ emptyLine) = some r → r.Admitted token →
        ∃ t, Spill first (lossy x) t := by
  rw [agentRead_first hne hx, ← isSome_ofText]
  cases AgentRequest.ofText (lossy x ++ emptyLine) with
  | none => exact iff_of_false (fun h => h rfl) fun h => by simpa using h.1
  | some r =>
    dsimp only
    split
    next had =>
      cases hs : sliceFrom (min (byteLen (lossy x ++ emptyLine)) first.length)
          (lossy x ++ emptyLine ++ lossy (first.drop (x.length + 4))) with
      | none =>
        refine iff_of_false (fun h => h rfl) fun h => ?_
        obtain ⟨t, p, hsplit, hp⟩ := h.2 r rfl had
        rw [sliceFrom_head.2 ⟨p, t, hsplit, hp, rfl⟩] at hs
        cases hs
      | some body =>
        obtain ⟨p, t, hsplit, hp, -⟩ := sliceFrom_head.1 hs
        exact iff_of_true nofun ⟨rfl, fun _ _ _ => ⟨t, p, hsplit, hp⟩⟩
    next hno =>
      refine iff_of_true nofun ⟨rfl, fun r' heq had => absurd ?_ hno⟩
      cases heq
      exact had

/-- A request with the token is handed on. -/
theorem agentRead_of_admitted (rest : List (List UInt8)) (hne : first ≠ [])
    (hx : First emptyLineBytes x first) (hspill : Spill first (lossy x) t)
    (hr : AgentRequest.ofText (lossy x ++ emptyLine) = some r)
    (had : r.Admitted token) : agentRead token (first :: rest) = .handed r
      (if 0 < r.contentLength then
        readBody r.contentLength (t ++ lossy (first.drop (x.length + 4))) rest else []) := by
  obtain ⟨p, hsplit, hp⟩ := hspill
  rw [agentRead_first hne hx, hr]
  dsimp only
  rw [if_pos had, sliceFrom_head.2 ⟨p, t, hsplit, hp, rfl⟩]

/-- Without its head a request is for no endpoint. -/
theorem agentRead_of_not_first (token : Option String) (rest : List (List UInt8)) (hne : first ≠ [])
    (h : ∀ x, ¬First emptyLineBytes x first) :
    agentRead token (first :: rest) = .forbidden ∨
      ∃ r body, agentRead token (first :: rest) = .handed r body ∧ r.target.method = [] := by
  obtain ⟨r, hr⟩ : ∃ r, AgentRequest.ofText [] = some r := ⟨_, rfl⟩
  rw [agentRead, if_neg hne, toList_fromUtf8Lossy]
  dsimp only
  rw [findHead_lossy_eq_none h, Option.getD_none, byteLen_nil, Nat.zero_min, hr]
  dsimp only
  split
  · rw [sliceFrom]
    exact .inr ⟨r, _, rfl, by rw [(of_ofText_eq_some hr).1]; rfl⟩
  · exact .inl rfl

theorem agent_exact_cons (hne : ∀ c ∈ first :: rest, c ≠ []) :
    (agent token).Exact ⟨first :: rest, hne⟩ ↔ AgentFine token first rest := by
  have hfirst := hne first List.mem_cons_self
  have hrest : ∀ c ∈ rest, c ≠ [] := fun c hc => hne c (List.mem_cons_of_mem _ hc)
  have hlength : ∀ u k r, (agent token).announced u = some k →
      AgentRequest.ofText (u ++ emptyLine) = some r → r.contentLength = k := fun u k r hk hr =>
    (of_ofText_eq_some hr).2.trans (congrArg (Option.getD · 0) hk)
  constructor
  · rintro ⟨hpanic, hexact⟩
    refine ⟨fun x hx => ((agentRead_ne_panicked hfirst hx).1 hpanic).1,
      fun x r hx => ((agentRead_ne_panicked hfirst hx).1 hpanic).2 r, fun x body k ha => ?_⟩
    obtain ⟨request, text, hread, hend, htext⟩ := hexact x body k ha
    obtain ⟨r, hr, had, hpost⟩ := ha.rightful
    by_cases hx : ∃ y, First emptyLineBytes y first
    · obtain ⟨y, hy⟩ := hx
      obtain ⟨rfl, hbody⟩ := ha.eq_of_first hy
      refine ⟨hy.length_le, ?_⟩
      obtain ⟨t, ht⟩ := ((agentRead_ne_panicked hfirst hy).1 hpanic).2 r hr had
      have hgot := agentRead_of_admitted rest hfirst hy ht hr had
      rw [hlength _ k r ha.announced hr] at hgot
      rcases Nat.eq_zero_or_pos k with hk | hk
      · exact .inl hk
      · rw [if_pos hk] at hgot
        cases hread.symm.trans hgot
        obtain ⟨done, todo, heq, hyields⟩ := (readBody_eq_take_iff hrest hbody ha.enough).1 htext
        exact .inr ⟨t, done, todo, ht, heq, hyields⟩
    · rcases agentRead_of_not_first token rest hfirst (not_exists.1 hx) with
        h | ⟨r', b, h, hmethod⟩
      · cases hread.symm.trans h
      · cases hread.symm.trans h
        have hnil : [] = "POST".toList := by
          rw [← hmethod, ← hpost, (of_ofText_eq_some hr).1]
          exact congrArg Prod.fst hend
        cases hnil
  · intro hfine
    constructor
    · show agentRead token (first :: rest) ≠ .panicked
      by_cases hx : ∃ y, First emptyLineBytes y first
      · obtain ⟨y, hy⟩ := hx
        exact (agentRead_ne_panicked hfirst hy).2 ⟨hfine.headers y hy, fun r => hfine.boundary y r hy⟩
      · rcases agentRead_of_not_first token rest hfirst (not_exists.1 hx) with
          h | ⟨r, b, h, -⟩ <;> rw [h] <;> nofun
    · intro x body k ha
      obtain ⟨hle, hcut⟩ := hfine.body x body k ha
      have hx := ha.first_of_le hle
      obtain ⟨-, hbody⟩ := ha.eq_of_first hx
      obtain ⟨r, hr, had, hpost⟩ := ha.rightful
      obtain ⟨t, ht⟩ := hfine.boundary x r hx hr had
      refine ⟨r, _, agentRead_of_admitted rest hfirst hx ht hr had, ?_, ?_⟩
      · show (r.target.method, r.target.path) = _
        rw [(of_ofText_eq_some hr).1]
        rfl
      · rw [hlength _ k r ha.announced hr]
        rcases Nat.eq_zero_or_pos k with rfl | hk
        · rw [if_neg (Nat.lt_irrefl 0), List.take_zero, encode_nil]
        · rw [if_pos hk]
          obtain ⟨t', done, todo, ht', heq, hyields⟩ := hcut.resolve_left (Nat.ne_of_gt hk)
          obtain rfl := spill_unique ht ht'
          exact (readBody_eq_take_iff hrest hbody ha.enough).2 ⟨done, todo, heq, hyields⟩

end Agent

/-! ## `handle` of the HTTP API reads well -/

section Api

variable {first x body : List UInt8} {rest : List (List UInt8)} {u v : List Char} {need k : Nat}

/-- The bytes are read up to the announced number. -/
theorem readOn_eq (hne : ∀ c ∈ rest, c ≠ []) (hle : body.length ≤ need) :
    readOn need body rest = some ((body ++ rest.flatten).take need) := by
  induction rest generalizing body with
  | nil => rw [readOn, List.flatten_nil, List.append_nil, List.take_of_length_le hle]
  | cons c rest ih =>
    rw [readOn]
    split
    next hlt =>
      have hslice : bytesIn c 0 (min c.length (need - body.length)) =
          some (c.take (need - body.length)) := by
        rw [bytesIn, if_pos ⟨Nat.zero_le _, Nat.min_le_left _ _⟩, List.drop_zero, Nat.sub_zero,
          Nat.min_comm, ← List.take_eq_take_min]
      have hpart : (body ++ c.take (need - body.length)).length ≤ need := by
        rw [List.length_append, List.length_take]
        omega
      rw [if_neg (hne c List.mem_cons_self), hslice, Option.bind_some,
        ih (fun d hd => hne d (List.mem_cons_of_mem _ hd)) hpart, List.flatten_cons, List.append_assoc,
        List.take_append, List.take_append]
      congr 2
      rw [List.take_append, List.take_append, List.take_take, Nat.min_self, List.length_take]
      rcases Nat.le_total (need - body.length) c.length with h | h
      · rw [Nat.min_eq_left h, Nat.sub_self, Nat.sub_eq_zero_of_le h]
      · rw [Nat.min_eq_right h]
    next hge => rw [List.take_append_of_le_length (by omega), List.take_of_length_le hle]

theorem readBodyFull_eq (hne : ∀ c ∈ rest, c ≠ []) (hneed : need < 2 ^ 63) :
    readBodyFull first rest need = some (lossy
      ((first.drop (((position emptyLineBytes first).map (· + 4)).getD 0) ++ rest.flatten).take need)) := by
  rw [readBodyFull, if_neg (Nat.not_le.2 hneed)]
  generalize ((position emptyLineBytes first).map (· + 4)).getD 0 = i
  have hstart : (if i < first.length then bytesIn first i (i + min (first.length - i) need) else some []) =
      some ((first.drop i).take need) := by
    split
    next hlt =>
      rw [bytesIn, if_pos ⟨Nat.le_add_right _ _, by omega⟩, Nat.add_sub_cancel_left, ← List.length_drop,
        Nat.min_comm, ← List.take_eq_take_min]
    next hge => rw [List.drop_eq_nil_of_le (Nat.le_of_not_lt hge), List.take_nil]
  have hread := readOn_eq hne (List.length_take_le need (first.drop i))
  dsimp only
  rw [hstart, Option.bind_some, hread, Option.map_some]
  congr 2
  rw [List.take_append, List.take_append, List.take_take, Nat.min_self, List.length_take]
  rcases Nat.le_total need (first.drop i).length with h | h
  · rw [Nat.min_eq_left h, Nat.sub_self, Nat.sub_eq_zero_of_le h]
  · rw [Nat.min_eq_right h]

/-- The slice behind a name is always taken. -/
theorem headerAt_ne_none (lines : List (List Char)) (name : String) :
    headerAt lines name (byteLen name.toList) ≠ none := by
  rw [headerAt]
  cases hline : lines.find? (startsWithLower name) with
  | none => exact Option.some_ne_none _
  | some line =>
    have hstart : name.toList <+: line.map Char.toLower := by
      simpa [startsWithLower] using List.find?_some hline
    obtain ⟨r, hr⟩ := hstart
    obtain ⟨p, s, rfl, hp, -⟩ := List.map_eq_append_iff.1 hr.symm
    dsimp only
    rw [← hp, byteLen_map_toLower, sliceFrom_append]
    exact Option.some_ne_none _

theorem headD_splitCrlf_cons {c : Char} {cs : List Char} (h : c = '\r' → cs.head? ≠ some '\n') :
    (splitCrlf (c :: cs)).headD [] = c :: (splitCrlf cs).headD [] := by
  rw [splitCrlf.eq_def (c :: cs)]
  split
  · cases ‹_›
  · next cs' heq =>
    cases heq
    exact absurd rfl (h rfl)
  · next heq =>
    cases heq
    cases splitCrlf cs <;> rfl

/-- The first line ends with the first line break. -/
theorem targetOf_append (u v : List Char) : targetOf (u ++ emptyLine ++ v) = targetOf (u ++ emptyLine) := by
  have hline : (splitCrlf (u ++ emptyLine ++ v)).headD [] = (splitCrlf (u ++ emptyLine)).headD [] := by
    induction u with
    | nil => rfl
    | cons c u ih =>
      by_cases h : c = '\r' → (u ++ emptyLine ++ v).head? ≠ some '\n'
      · have h' : c = '\r' → (u ++ emptyLine).head? ≠ some '\n' := by
          cases u <;> exact h
        rw [List.cons_append, List.cons_append, headD_splitCrlf_cons h, headD_splitCrlf_cons h', ih]
      · obtain ⟨rfl, hhead⟩ := Classical.not_imp.1 h
        rcases u with _ | ⟨d, u⟩
        · exact absurd hhead (by simp [emptyLine])
        · cases not_ne_iff.1 hhead
          simp [splitCrlf]
  rw [targetOf, targetOf, hline]

/-- What the first read says when it has the head. -/
theorem targetOf_first (hx : First emptyLineBytes x first) :
    targetOf (lossy first) = targetOf (lossy x ++ emptyLine) := by
  rw [lossy_of_first hx, targetOf_append]

theorem httpLength_first (hx : First emptyLineBytes x first) :
    httpLength (lossy first) = (http.announced (lossy x)).getD 0 := by
  rw [httpLength, beforeEmptyLine, findHead_lossy hx]
  simp [emptyLine, http]

theorem loginBody_first (hx : First emptyLineBytes x first) :
    loginBody (lossy first) = lossy (beforeEmptyLineBytes (first.drop (x.length + 4))) := by
  rw [loginBody, findHead_lossy hx, lossy_of_first hx]
  dsimp only
  rw [List.drop_left, beforeEmptyLine_lossy]

theorem Target.not_login_of_needBody {t : Target} (h : t.NeedBody) : ¬t.Login := by
  rintro ⟨-, hpath⟩
  rcases h.2 with h | h <;> rw [hpath] at h <;> exact absurd h (by decide)

theorem httpRead_cons (hne : first ≠ []) : httpRead (first :: rest) =
    match headerAt (splitCrlf (lossy first)).tail "cookie:" 7 with
    | none => .panicked
    | some cookie =>
      match if (targetOf (lossy first)).NeedBody then readBodyFull first rest (httpLength (lossy first))
        else some [] with
      | none => .panicked
      | some postBody =>
        .handed ⟨targetOf (lossy first), cookie⟩
          (if (targetOf (lossy first)).Login then loginBody (lossy first) else postBody) := by
  rw [httpRead, if_neg hne, toList_fromUtf8Lossy]
  rfl

theorem httpRead_ne_panicked (hne : ∀ c ∈ first :: rest, c ≠ []) :
    httpRead (first :: rest) ≠ .panicked ↔
      ((targetOf (lossy first)).NeedBody → httpLength (lossy first) < 2 ^ 63) := by
  rw [httpRead_cons (hne first List.mem_cons_self)]
  obtain ⟨cookie, hcookie⟩ := Option.ne_none_iff_exists'.1
    (headerAt_ne_none (splitCrlf (lossy first)).tail "cookie:")
  have hseven : byteLen "cookie:".toList = 7 := by decide
  rw [hseven] at hcookie
  rw [hcookie]
  dsimp only
  by_cases hneed : (targetOf (lossy first)).NeedBody
  · rw [if_pos hneed]
    by_cases hcap : httpLength (lossy first) < 2 ^ 63
    · rw [readBodyFull_eq (fun c hc => hne c (List.mem_cons_of_mem _ hc)) hcap]
      exact iff_of_true nofun fun _ => hcap
    · rw [readBodyFull, if_pos (Nat.not_lt.1 hcap)]
      exact iff_of_false (fun h => h rfl) fun h => hcap (h hneed)
  · rw [if_neg hneed]
    exact iff_of_true nofun fun h => absurd h hneed

/-- What the login and the console are handed. -/
theorem httpRead_handed (hne : ∀ c ∈ first :: rest, c ≠ [])
    (hcap : (targetOf (lossy first)).NeedBody → httpLength (lossy first) < 2 ^ 63) :
    ∃ cookie body, httpRead (first :: rest) = .handed ⟨targetOf (lossy first), cookie⟩ body ∧
      ((targetOf (lossy first)).Login → body = loginBody (lossy first)) ∧
      ((targetOf (lossy first)).NeedBody → body = lossy ((first.drop
        (((position emptyLineBytes first).map (· + 4)).getD 0) ++ rest.flatten).take
          (httpLength (lossy first)))) := by
  rw [httpRead_cons (hne first List.mem_cons_self)]
  obtain ⟨cookie, hcookie⟩ := Option.ne_none_iff_exists'.1
    (headerAt_ne_none (splitCrlf (lossy first)).tail "cookie:")
  have hseven : byteLen "cookie:".toList = 7 := by decide
  rw [hseven] at hcookie
  rw [hcookie]
  dsimp only
  by_cases hneed : (targetOf (lossy first)).NeedBody
  · rw [if_pos hneed, readBodyFull_eq (fun c hc => hne c (List.mem_cons_of_mem _ hc)) (hcap hneed)]
    have hno := Target.not_login_of_needBody hneed
    exact ⟨cookie, _, rfl, fun h => absurd h hno, fun _ => if_neg hno⟩
  · rw [if_neg hneed]
    exact ⟨cookie, _, rfl, fun h => if_pos h, fun h => absurd h hneed⟩

/-- With the head in the first read the console is handed the announced bytes, and the login what has been
read up to the next empty line. -/
theorem httpRead_of_first (hne : ∀ c ∈ first :: rest, c ≠ [])
    (hcap : (targetOf (lossy first)).NeedBody → httpLength (lossy first) < 2 ^ 63)
    (ha : http.Asks (first ++ rest.flatten) x body k) (hle : x.length + 4 ≤ first.length) :
    ∃ cookie, httpRead (first :: rest) = .handed ⟨targetOf (lossy x ++ emptyLine), cookie⟩
      (lossy (if (targetOf (lossy x ++ emptyLine)).Login then
        beforeEmptyLineBytes (first.drop (x.length + 4)) else body.take k)) := by
  have hx := ha.first_of_le hle
  obtain ⟨-, hbody⟩ := ha.eq_of_first hx
  obtain ⟨cookie, text, hread, hlogin, hneed⟩ := httpRead_handed hne hcap
  rw [targetOf_first hx] at hread hlogin hneed
  refine ⟨cookie, ?_⟩
  rw [hread]
  by_cases hl : (targetOf (lossy x ++ emptyLine)).Login
  · rw [if_pos hl, hlogin hl, loginBody_first hx]
  · have hposition : position emptyLineBytes first = some x.length := position_eq_some.2 ⟨x, hx, rfl⟩
    have hk : httpLength (lossy first) = k := by
      rw [httpLength_first hx, ha.announced]
      rfl
    rw [if_neg hl, hneed (ha.rightful.resolve_right hl), hposition, Option.map_some, Option.getD_some, hk,
      hbody]

/-- Without the head in the first read the console is handed the beginning of the request, and the login
nothing. -/
theorem httpRead_of_not_first (hne : ∀ c ∈ first :: rest, c ≠ [])
    (hcap : (targetOf (lossy first)).NeedBody → httpLength (lossy first) < 2 ^ 63)
    (ha : http.Asks (first ++ rest.flatten) x body k) (hle : ¬x.length + 4 ≤ first.length)
    (hend : ((targetOf (lossy first)).method, (targetOf (lossy first)).path) = http.named (lossy x)) :
    ∃ cookie, httpRead (first :: rest) = .handed ⟨targetOf (lossy first), cookie⟩
      (lossy (if (targetOf (lossy first)).Login then [] else
        (first ++ rest.flatten).take (httpLength (lossy first)))) := by
  have hno : ∀ y, ¬First emptyLineBytes y first := by
    intro y hy
    obtain ⟨rfl, -⟩ := ha.eq_of_first hy
    exact hle hy.length_le
  have hnone : position emptyLineBytes first = none := position_eq_none.2 hno
  obtain ⟨cookie, text, hread, hlogin, hneed⟩ := httpRead_handed hne hcap
  refine ⟨cookie, ?_⟩
  rw [hread]
  obtain ⟨hmethod, hpath⟩ := Prod.mk.inj hend
  have hrightful : (targetOf (lossy first)).NeedBody ∨ (targetOf (lossy first)).Login := by
    rw [Target.NeedBody, Target.Login, hmethod, hpath]
    exact ha.rightful
  by_cases hl : (targetOf (lossy first)).Login
  · rw [if_pos hl, hlogin hl, loginBody, findHead_lossy_eq_none hno, lossy_nil]
  · rw [if_neg hl, hneed (hrightful.resolve_right hl), hnone, Option.map_none, Option.getD_none,
      List.drop_zero]

theorem beforeEmptyLineBytes_prefix (b : List UInt8) : beforeEmptyLineBytes b <+: b := by
  rw [beforeEmptyLineBytes]
  split
  · exact List.take_prefix _ _
  · exact List.prefix_refl _

theorem http_exact_cons (hne : ∀ c ∈ first :: rest, c ≠ []) :
    http.Exact ⟨first :: rest, hne⟩ ↔ HttpFine first rest := by
  have hpanic := httpRead_ne_panicked hne
  -- what is handed to the login is part of the body
  have hlogin : ∀ x body k, http.Asks (first ++ rest.flatten) x body k → x.length + 4 ≤ first.length →
      (Yields [] [beforeEmptyLineBytes (first.drop (x.length + 4))] (body.take k) ↔
        encode (lossy (beforeEmptyLineBytes (first.drop (x.length + 4)))) = body.take k) := by
    intro x body k ha hle
    obtain ⟨-, hbody⟩ := ha.eq_of_first (ha.first_of_le hle)
    obtain ⟨more, hmore⟩ := beforeEmptyLineBytes_prefix (first.drop (x.length + 4))
    have hsplit : body = [beforeEmptyLineBytes (first.drop (x.length + 4))].flatten ++
        (more ++ rest.flatten) := by
      rw [hbody, List.flatten_singleton, ← List.append_assoc, hmore]
    rw [yields_iff hsplit ha.enough, List.nil_append, List.flatMap_singleton]
  constructor
  · rintro ⟨hread, hexact⟩
    have hcap := hpanic.1 hread
    refine ⟨hcap, fun x body k ha => ?_⟩
    obtain ⟨request, text, hgot, hend, htext⟩ := hexact x body k ha
    split
    next hle =>
      obtain ⟨cookie, hhanded⟩ := httpRead_of_first hne hcap ha hle
      cases hgot.symm.trans hhanded
      split
      next hl =>
        rw [if_pos hl] at htext
        exact (hlogin x body k ha hle).2 htext
      next hl =>
        rwa [if_neg hl] at htext
    next hle =>
      obtain ⟨cookie, body', hhanded, -⟩ := httpRead_handed hne hcap
      have hsame : http.endpoint request =
          ((targetOf (lossy first)).method, (targetOf (lossy first)).path) := by
        cases hgot.symm.trans hhanded
        rfl
      rw [hsame] at hend
      obtain ⟨cookie', hhanded'⟩ := httpRead_of_not_first hne hcap ha hle hend
      cases hgot.symm.trans hhanded'
      exact ⟨hend, htext⟩
  · intro hfine
    refine ⟨hpanic.2 hfine.capacity, fun x body k ha => ?_⟩
    have hbody := hfine.body x body k ha
    split at hbody
    next hle =>
      obtain ⟨cookie, hhanded⟩ := httpRead_of_first hne hfine.capacity ha hle
      refine ⟨_, _, hhanded, rfl, ?_⟩
      split at hbody
      next hl =>
        rw [if_pos hl]
        exact (hlogin x body k ha hle).1 hbody
      next hl => rwa [if_neg hl]
    next hle =>
      obtain ⟨cookie, hhanded⟩ := httpRead_of_not_first hne hfine.capacity ha hle hbody.1
      exact ⟨_, _, hhanded, hbody.1, hbody.2⟩

end Api

/-! ## All three -/

/-- A connection on which nothing is sent. -/
theorem Reader.exact_nil {ρ : Type} {R : Reader ρ} (h : R.read [] = .closed) (hne : ∀ c ∈ [], c ≠ []) :
    R.Exact ⟨[], hne⟩ := by
  refine ⟨?_, fun x body k ha => ?_⟩
  · show R.read [] ≠ .panicked
    rw [h]
    nofun
  · have hlen := ha.first.length_le
    simp [emptyLineBytes] at hlen

/-- For all that a peer may send and every way it is read, with the conditions on the first read and on
where the others are cut under which each of the readers does not panic and hands on exactly the body. -/
theorem readers_exact_iff (agentToken clusterToken : Option String) (a : Connection) :
    ((agent agentToken).Exact a ↔
      ∀ first rest, a.reads = first :: rest → AgentFine agentToken first rest) ∧
    ((conn clusterToken).Exact a ↔
      ∀ first rest, a.reads = first :: rest → ConnFine clusterToken first rest) ∧
    (http.Exact a ↔ ∀ first rest, a.reads = first :: rest → HttpFine first rest) := by
  obtain ⟨reads, hne⟩ := a
  rcases reads with _ | ⟨first, rest⟩
  · exact ⟨iff_of_true (Reader.exact_nil rfl hne) nofun, iff_of_true (Reader.exact_nil rfl hne) nofun,
      iff_of_true (Reader.exact_nil rfl hne) nofun⟩
  · have hcons : ∀ P : List UInt8 → List (List UInt8) → Prop,
        (∀ f r, first :: rest = f :: r → P f r) ↔ P first rest := fun P =>
      ⟨fun h => h _ _ rfl, fun h f r heq => by cases heq; exact h⟩
    exact ⟨(agent_exact_cons hne).trans (hcons _).symm, (conn_exact_cons hne).trans (hcons _).symm,
      (http_exact_cons hne).trans (hcons _).symm⟩

/-! ## Three requests -/

/-- The head of a text that has been sent, and what it is followed by. -/
theorem first_of_findHead {text u : List Char} {b : List UInt8} {n : Nat} (htext : lossy b = text)
    (hhead : findHead text = some (u ++ emptyLine)) (hpos : position emptyLineBytes b = some n) :
    ∃ x, First emptyLineBytes x b ∧ x.length = n ∧ lossy x = u := by
  obtain ⟨x, hx, hlen⟩ := position_eq_some.1 hpos
  refine ⟨x, hx, hlen, ?_⟩
  have h := findHead_lossy hx
  rw [htext, hhead] at h
  exact (List.append_cancel_right (Option.some.inj h)).symm

/-- The header has no colon. -/
def bareHeader : List Char := "POST /agent/run HTTP/1.1\r\nX-Agent-Token\r\n\r\n".toList

/-- A body of two bytes, and one more. -/
def pipelined : List Char := "POST /internal/raft HTTP/1.1\r\nContent-Length: 2\r\n\r\n[]x".toList

/-- A head that is cut, and the rest of it with a body of two bytes. -/
def cutHead : List Char := "POST /api/rds/query HTTP/1.1\r\nContent-Length: 2\r\n".toList

def cutBody : List Char := "\r\nok".toList

theorem agentRead_bareHeader : agentRead none [encode bareHeader] = .panicked := by
  have hhead : findHead bareHeader = some (bareHeader.take 39 ++ emptyLine) := by decide +kernel
  obtain ⟨x, hx, -, hlossy⟩ := first_of_findHead (lossy_encode bareHeader) hhead
    (show position emptyLineBytes (encode bareHeader) = some 39 by decide +kernel)
  have hnone : AgentRequest.ofText (bareHeader.take 39 ++ emptyLine) = none :=
    Option.isNone_iff_eq_none.1 (by decide +kernel)
  rw [agentRead_first (by decide +kernel) hx, hlossy, hnone]

/-- The member is handed three bytes. -/
theorem not_exact_pipelined (hne : ∀ c ∈ [encode pipelined], c ≠ []) :
    ¬(conn none).Exact ⟨[encode pipelined], hne⟩ := by
  have hhead : findHead pipelined = some (pipelined.take 47 ++ emptyLine) := by decide +kernel
  obtain ⟨x, hx, hlen, hlossy⟩ := first_of_findHead (lossy_encode pipelined) hhead
    (show position emptyLineBytes (encode pipelined) = some 47 by decide +kernel)
  have hthree : ((encode pipelined).drop (x.length + 4)).length = 3 := by
    rw [hlen]
    decide +kernel
  intro hexact
  have ha : (conn none).Asks (encode pipelined ++ [].flatten) x
      ((encode pipelined).drop (x.length + 4)) 2 :=
    { first := hx.append _
      split := by rw [List.flatten_nil, List.append_nil]; exact split_of_first hx
      announced := by rw [hlossy]; decide +kernel
      enough := by rw [hthree]; decide
      rightful := by rw [hlossy]; exact ⟨by decide +kernel, nofun⟩ }
  obtain ⟨-, t, done, todo, -, hnil, hyields⟩ := ((conn_exact_cons hne).1 hexact).body x _ 2 ha
  obtain ⟨rfl, -⟩ := List.append_eq_nil_iff.1 hnil.symm
  rcases hyields with ⟨-, hjoin, -⟩ | ⟨hlt, -⟩
  · have := congrArg List.length hjoin
    simp [hthree] at this
  · simp [hthree] at hlt

/-- The console is handed the beginning of the request. -/
theorem not_exact_cutHead (hne : ∀ c ∈ [encode cutHead, encode cutBody], c ≠ []) :
    ¬http.Exact ⟨[encode cutHead, encode cutBody], hne⟩ := by
  have hstream : encode cutHead ++ [encode cutBody].flatten = encode (cutHead ++ cutBody) := by simp
  have hhead : findHead (cutHead ++ cutBody) = some ((cutHead ++ cutBody).take 47 ++ emptyLine) := by
    decide +kernel
  obtain ⟨x, hx, hlen, hlossy⟩ := first_of_findHead (lossy_encode (cutHead ++ cutBody)) hhead
    (show position emptyLineBytes (encode (cutHead ++ cutBody)) = some 47 by decide +kernel)
  intro hexact
  have ha : http.Asks (encode cutHead ++ [encode cutBody].flatten) x
      ((encode (cutHead ++ cutBody)).drop (x.length + 4)) 2 :=
    { first := hstream ▸ hx
      split := hstream ▸ split_of_first hx
      announced := by rw [hlossy]; decide +kernel
      enough := by rw [hlen]; decide +kernel
      rightful := by rw [hlossy]; exact .inl (by decide +kernel) }
  have hbody := ((http_exact_cons hne).1 hexact).body x _ 2 ha
  have hshort : ¬x.length + 4 ≤ (encode cutHead).length := by
    rw [hlen]
    decide +kernel
  rw [if_neg hshort, lossy_encode, hlen, hstream] at hbody
  exact absurd hbody.2 (by decide +kernel)

/-- The agent panics on a header without a colon, a member is handed what is sent behind the body, and the
console the beginning of a request whose head is not in the first read. -/
theorem readers_inexact : agentRead none [encode bareHeader] = .panicked ∧
    (∃ hne, ¬(conn none).Exact ⟨[encode pipelined], hne⟩) ∧
      ∃ hne, ¬http.Exact ⟨[encode cutHead, encode cutBody], hne⟩ := by
  have hne : ∀ cs ∈ [pipelined, cutHead, cutBody], encode cs ≠ [] := by
    simp only [ne_eq, encode_eq_nil]
    decide
  simp only [List.mem_cons, List.not_mem_nil, or_false, forall_eq_or_imp, forall_eq] at hne
  exact ⟨agentRead_bareHeader, ⟨by simpa using hne.1, not_exact_pipelined _⟩,
    ⟨by simpa using hne.2, not_exact_cutHead _⟩⟩

end Rdsctl.Http
