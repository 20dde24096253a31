import Rdsctl.Ha.Lossy
import Rdsctl.Ha.Node
import Rdsctl.Ha.Text

/-!
# Requests between members

`post_json` and `handle_conn` of `src/ha/runtime.rs`. A request is one text, and its bytes come in
the pieces that TCP makes of them. The receiver decodes every piece on its own, so a character that
is in two pieces is lost, and it counts the decoded bytes, so a text that has grown ends early.
-/

namespace Rdsctl.Ha

open Utf8

/-- What the members use of `serde_json`: a document and its text, a message and its document. -/
class RpcJson where
  toString : Value → String
  fromStr : String → Except String Value
  ofMessage : Message → Value
  toMessage : Value → Except String Message

/-! ## The sender -/

/-- The head of a request. -/
def postHead (host path : String) (token : Option String) (bodyLen : Nat) : String :=
  "POST " ++ path ++ " HTTP/1.1\r\nHost: " ++ host ++ "\r\nContent-Length: " ++ toString bodyLen ++
    "\r\nConnection: close\r\n" ++
    (match token with
      | some t => "X-Cluster-Token: " ++ t ++ "\r\n"
      | none => "") ++ "\r\n"

/-- The bytes of a request: its head and its body. -/
def postJson [RpcJson] (host path : String) (payload : Value) (token : Option String) :
    List UInt8 × List UInt8 :=
  let body := RpcJson.toString payload
  (asBytes (postHead host path token (asBytes body).length), asBytes body)

/-- The document that carries a message. -/
def packet [RpcJson] (src : String) (msg : Message) : Value :=
  .object [("from", .string src), ("msg", RpcJson.ofMessage msg)]

/-! ## The receiver -/

/-- `to_uppercase`, as far as it can make the method of a route. -/
def upper : Char → List Char
  | 'ſ' => ['S']
  | 'ﬅ' => ['S', 'T']
  | 'ﬆ' => ['S', 'T']
  | c => [c.toUpper]

/-- `line.to_ascii_lowercase().starts_with(name)`. -/
def startsWithLower (name : String) (line : List Char) : Bool :=
  name.toList.isPrefixOf (line.map Char.toLower)

/-- What the receiver takes from the head. -/
structure RequestHead where
  method : List Char
  path : List Char
  need : Nat
  lines : List (List Char)

def RequestHead.ofText (head : List Char) : RequestHead :=
  let parts := splitWhitespace ((splitCrlf head).headD [])
  let lines := (splitCrlf head).tail
  { method := (parts[0]?.getD []).flatMap upper
    path := (parts[1]?.getD ['/']).takeWhile (· ≠ '?')
    need := ((lines.find? (startsWithLower "content-length:")).bind fun line =>
      ((line.splitOn ':')[1]?).bind fun v => parseUInt (2 ^ 64) (trim v)).getD 0
    lines }

/-- Read on until the body is as long as announced, or the connection ends. -/
def readBody (need : Nat) : List Char → List (List UInt8) → List Char
  | body, [] => body
  | body, chunk :: reads =>
    if byteLen body < need then
      if chunk = [] then body else readBody need (body ++ (fromUtf8Lossy chunk).toList) reads
    else body

/-- The head and the body of a request whose first read is `first`. Nothing, where a slice
panics. -/
def receive (first : List UInt8) (reads : List (List UInt8)) : Option (RequestHead × List Char) :=
  let text := (fromUtf8Lossy first).toList
  let head := (findHead text).getD []
  let request := RequestHead.ofText head
  (sliceFrom (min (byteLen head) first.length) text).map fun body =>
    (request, readBody request.need body reads)

/-- The token of a request. Nothing, where the slice panics. -/
def gotToken (lines : List (List Char)) : Option (Option (List Char)) :=
  match lines.find? (startsWithLower "x-cluster-token") with
  | none => some none
  | some line => (sliceFrom 16 line).map fun v => some (trim v)

/-- How `handle_conn` ends. -/
inductive Handled
  | closed
  | panicked
  | forbidden
  | badRequest (err : String)
  /-- `handle_message` is called. -/
  | passed (src : String) (msg : Message)
  /-- Another route. -/
  | elsewhere

/-- `POST /internal/raft`. -/
def raftRoute [RpcJson] (body : String) : Handled :=
  let v := match RpcJson.fromStr body with
    | .ok v => v
    | .error _ => .object []
  let src := ((v.get "from").bind Value.asStr).getD ""
  match RpcJson.toMessage ((v.get "msg").getD .null) with
  | .ok msg => .passed src msg
  | .error e => .badRequest e

/-- A connection, read by read. -/
def handleConn [RpcJson] (token : Option String) : List (List UInt8) → Handled
  | [] => .closed
  | first :: reads =>
    if first = [] then .closed
    else match receive first reads with
      | none => .panicked
      | some (request, body) =>
        let route : Handled :=
          if request.method = "POST".toList ∧ request.path = "/internal/raft".toList then
            raftRoute (String.ofList body)
          else .elsewhere
        match token with
        | none => route
        | some expect =>
          match gotToken request.lines with
          | none => .panicked
          | some got => if got = some expect.toList then route else .forbidden

/-! ## Pieces -/

/-- The bytes of a request as they are read: the head and what comes with it, and the rest of the
body. -/
structure Reads (head body : List UInt8) where
  first : List UInt8
  rest : List (List UInt8)
  join : first ++ rest.flatten = body
  nonempty : ∀ c ∈ rest, c ≠ []
  /-- No read is longer than its buffer. -/
  first_le : (head ++ first).length ≤ 65536
  rest_le : ∀ c ∈ rest, c.length ≤ 8192

namespace Reads

variable {head body : List UInt8}

def chunks (r : Reads head body) : List (List UInt8) := (head ++ r.first) :: r.rest

/-- No read starts inside a character. -/
def Whole (r : Reads head body) : Prop := ∀ c ∈ r.rest, ∀ x ∈ c.head?, x.IsUTF8FirstByte

theorem whole_iff_all (r : Reads head body) :
    (r.rest.all fun c => c.head?.all fun x => decide x.IsUTF8FirstByte) = true ↔ r.Whole := by
  simp [Whole, Option.all_eq_true]

instance (r : Reads head body) : Decidable r.Whole := decidable_of_iff _ r.whole_iff_all

end Reads

section
variable {need : Nat} {text cs : List Char} {rest : List (List UInt8)}

theorem readBody_cons {chunk : List UInt8} (hne : chunk ≠ []) (body : List Char)
    (reads : List (List UInt8)) : readBody need body (chunk :: reads) =
      if byteLen body < need then readBody need (body ++ lossy chunk) reads else body := by
  rw [readBody, if_neg hne, toList_fromUtf8Lossy]

/-- What is read are the first pieces, each decoded, until there are enough of them. -/
theorem readBody_cases (need : Nat) (hne : ∀ c ∈ rest, c ≠ []) (body : List Char) :
    ∃ done todo, rest = done ++ todo ∧ readBody need body rest = body ++ done.flatMap lossy := by
  induction rest generalizing body with
  | nil => exact ⟨[], [], rfl, (List.append_nil _).symm⟩
  | cons c rest ih =>
    rw [readBody_cons (hne c List.mem_cons_self)]
    split
    · obtain ⟨done, todo, rfl, heq⟩ := ih (fun d hd => hne d (List.mem_cons_of_mem _ hd))
        (body ++ lossy c)
      exact ⟨c :: done, todo, rfl, by rw [heq, List.flatMap_cons, List.append_assoc]⟩
    · exact ⟨[], c :: rest, rfl, (List.append_nil _).symm⟩

/-- Pieces that are cut between characters are read as they were sent. -/
theorem readBody_of_whole (hne : ∀ c ∈ rest, c ≠ [])
    (hwhole : ∀ c ∈ rest, ∀ x ∈ c.head?, x.IsUTF8FirstByte) (body : List Char)
    (hcs : encode cs = rest.flatten) (hneed : need = byteLen body + byteLen cs) :
    readBody need body rest = body ++ cs := by
  induction rest generalizing body cs with
  | nil =>
    rw [encode_eq_nil.1 hcs, List.append_nil, readBody]
  | cons c rest ih =>
    have hrest : ∀ x ∈ rest.flatten.head?, x.IsUTF8FirstByte := by
      rcases rest with _ | ⟨d, rest⟩
      · exact nofun
      · obtain ⟨x, l, rfl⟩ := List.exists_cons_of_ne_nil (hne d (by simp))
        exact hwhole (x :: l) (by simp)
    rw [List.flatten_cons] at hcs
    obtain ⟨ds, es, rfl, rfl, hes⟩ := encode_split hcs hrest
    have hpos : 0 < byteLen ds := by
      rw [← length_encode]
      exact List.length_pos_of_ne_nil (hne _ List.mem_cons_self)
    rw [readBody_cons (hne _ List.mem_cons_self), lossy_encode, if_pos (by simp at hneed; omega)]
    rw [ih (fun d hd => hne d (List.mem_cons_of_mem _ hd))
      (fun d hd => hwhole d (List.mem_cons_of_mem _ hd)) (body ++ ds) hes
      (by simp at hneed ⊢; omega), List.append_assoc]

/-- The decoded pieces are never shorter than the pieces. -/
theorem length_le_flatMap_lossy (rest : List (List UInt8)) :
    rest.flatten.length ≤ byteLen (rest.flatMap lossy) := by
  induction rest with
  | nil => exact Nat.le_refl _
  | cons c rest ih =>
    have hc := length_le_lossy c
    rw [List.flatten_cons, List.flatMap_cons, List.length_append, byteLen_append]
    omega

/-- They are longer when one of them starts inside a character. -/
theorem length_lt_flatMap_lossy {c : List UInt8} (hc : c ∈ rest) {x : UInt8} (hx : x ∈ c.head?)
    (hfirst : ¬ x.IsUTF8FirstByte) : rest.flatten.length < byteLen (rest.flatMap lossy) := by
  induction rest with
  | nil => cases hc
  | cons d rest ih =>
    have hle := length_le_lossy d
    rw [List.flatten_cons, List.flatMap_cons, List.length_append, byteLen_append]
    rcases List.mem_cons.1 hc with rfl | hc
    · obtain ⟨l, rfl⟩ := List.head?_eq_some_iff.1 hx
      have hthree : (Char.ofNat 0xFFFD).utf8Size = 3 := by decide
      have htail := length_le_lossy l
      have hrest := length_le_flatMap_lossy rest
      rw [lossy_cons_of_not_first hfirst, byteLen_cons, hthree, List.length_cons]
      omega
    · have := ih hc
      omega

/-- A body that ends with an ASCII character is read as it was sent exactly when no piece starts
inside a character. -/
theorem readBody_eq_iff {first : List UInt8} {z : Char} (hz : z.utf8Size = 1)
    (hjoin : first ++ rest.flatten = encode (cs ++ [z])) (hne : ∀ c ∈ rest, c ≠ []) :
    readBody (byteLen (cs ++ [z])) (lossy first) rest = cs ++ [z] ↔
      ∀ c ∈ rest, ∀ x ∈ c.head?, x.IsUTF8FirstByte := by
  constructor
  · intro heq c hc x hx
    obtain ⟨done, todo, rfl, hdone⟩ :=
      readBody_cases (byteLen (cs ++ [z])) hne (lossy first)
    rw [heq] at hdone
    -- the last byte is read, so all pieces are
    have htodo : todo.flatten = [] := by
      have hsent := count_encode hz (cs ++ [z])
      have hread : (lossy first ++ done.flatMap lossy).count z =
          (first ++ done.flatten).count z.val.toUInt8 := by
        rw [List.count_append, List.count_append, count_lossy hz, List.count_flatMap,
          List.count_flatten]
        simp [Function.comp_def, count_lossy hz]
      rw [← hjoin, hdone, hread, List.flatten_append, ← List.append_assoc, List.count_append] at hsent
      have hzero : todo.flatten.count z.val.toUInt8 = 0 := by omega
      by_contra hnil
      have hlast : (first ++ (done ++ todo).flatten).getLast? = some z.val.toUInt8 := by
        rw [hjoin, encode_append, encode_cons, String.utf8EncodeChar_eq_singleton hz]
        simp
      rw [List.flatten_append, ← List.append_assoc, List.getLast?_append_of_ne_nil _ hnil] at hlast
      exact List.count_eq_zero.1 hzero (List.mem_of_getLast? hlast)
    by_contra hfirst
    have hdone' : c ∈ done := by
      rcases List.mem_append.1 hc with h | h
      · exact h
      · exact absurd (List.flatten_eq_nil_iff.1 htodo c h) (hne c hc)
    have hlt := length_lt_flatMap_lossy hdone' hx hfirst
    have hle := length_le_lossy first
    have hlen := congrArg List.length hjoin
    rw [List.flatten_append, htodo, List.append_nil, List.length_append, length_encode, hdone,
      byteLen_append] at hlen
    omega
  · intro hwhole
    have hrest : ∀ x ∈ rest.flatten.head?, x.IsUTF8FirstByte := by
      rcases rest with _ | ⟨d, rest⟩
      · exact nofun
      · obtain ⟨x, l, rfl⟩ := List.exists_cons_of_ne_nil (hne d (by simp))
        exact hwhole (x :: l) (by simp)
    obtain ⟨ds, es, hsplit, rfl, hes⟩ := encode_split hjoin.symm hrest
    rw [hsplit, lossy_encode]
    exact readBody_of_whole hne hwhole ds hes (byteLen_append ds es)

end

/-! ## The head is read back -/

/-- A text that stands in a line of a head and is read back from it. -/
structure HeaderText where
  text : String
  noBreak : '\r' ∉ text.toList
  trimmed : trim text.toList = text.toList

/-- The lines of a head. -/
def postLines (host path : String) (token : Option String) (bodyLen : Nat) : List (List Char) :=
  ["POST ".toList ++ path.toList ++ " HTTP/1.1".toList, "Host: ".toList ++ host.toList,
    "Content-Length: ".toList ++ Nat.toDigits 10 bodyLen, "Connection: close".toList] ++
    (token.map fun t => "X-Cluster-Token: ".toList ++ t.toList).toList

theorem toList_postHead (host path : String) (token : Option String) (bodyLen : Nat) :
    (postHead host path token bodyLen).toList =
      headOfLines (postLines host path token bodyLen) := by
  cases token <;> simp [postHead, postLines, headOfLines]

def raftPath : String := "/internal/raft"

section
variable (host : HeaderText) (token : Option HeaderText) (bodyLen : Nat)

theorem mem_postLines {l : List Char}
    (h : l ∈ postLines host.text raftPath (token.map HeaderText.text) bodyLen) : l ≠ [] ∧ '\r' ∉ l := by
  have hdigit : '\r' ∉ Nat.toDigits 10 bodyLen := by
    intro hc
    exact absurd (isDigit_of_mem hc) (by decide)
  rcases token with _ | t
  · simp only [postLines, Option.map_none, Option.toList_none, List.append_nil, List.mem_cons,
      List.not_mem_nil, or_false] at h
    rcases h with rfl | rfl | rfl | rfl
    · exact ⟨by simp, by decide⟩
    · exact ⟨by simp, by simp [host.noBreak]⟩
    · exact ⟨by simp, by simp [hdigit]⟩
    · exact ⟨by simp, by decide⟩
  · simp only [postLines, Option.map_some, Option.toList_some, List.mem_append, List.mem_cons,
      List.not_mem_nil, or_false] at h
    rcases h with (rfl | rfl | rfl | rfl) | rfl
    · exact ⟨by simp, by decide⟩
    · exact ⟨by simp, by simp [host.noBreak]⟩
    · exact ⟨by simp, by simp [hdigit]⟩
    · exact ⟨by simp, by decide⟩
    · exact ⟨by simp, by simp [t.noBreak]⟩

theorem splitCrlf_postHead :
    splitCrlf (postHead host.text raftPath (token.map HeaderText.text) bodyLen).toList =
      postLines host.text raftPath (token.map HeaderText.text) bodyLen ++ [[], []] := by
  rw [toList_postHead, splitCrlf_headOfLines fun l hl => (mem_postLines host token bodyLen hl).2]

/-- No line but its own starts with the name of a header. -/
theorem find?_postLines_length (rest : List (List Char)) :
    ((postLines host.text raftPath (token.map HeaderText.text) bodyLen).tail ++ rest).find?
      (startsWithLower "content-length:") =
        some ("Content-Length: ".toList ++ Nat.toDigits 10 bodyLen) := by
  simp [postLines, startsWithLower]

theorem find?_postLines_token (rest : List (List Char)) :
    ((postLines host.text raftPath (token.map HeaderText.text) bodyLen).tail ++ rest).find?
      (startsWithLower "x-cluster-token") =
        ((token.map fun t => "X-Cluster-Token: ".toList ++ t.text.toList).or
          (rest.find? (startsWithLower "x-cluster-token"))) := by
  cases token <;> simp [postLines, startsWithLower]

/-- What the receiver takes from the head of a request. -/
theorem ofText_postHead (hlen : bodyLen < 2 ^ 64) :
    RequestHead.ofText (postHead host.text raftPath (token.map HeaderText.text) bodyLen).toList =
      { method := "POST".toList, path := "/internal/raft".toList, need := bodyLen
        lines := (postLines host.text raftPath (token.map HeaderText.text) bodyLen).tail ++ [[], []] } := by
  have hline : (postLines host.text raftPath (token.map HeaderText.text) bodyLen ++ [[], []]).headD [] =
      "POST /internal/raft HTTP/1.1".toList := rfl
  have htail : (postLines host.text raftPath (token.map HeaderText.text) bodyLen ++ [[], []]).tail =
      (postLines host.text raftPath (token.map HeaderText.text) bodyLen).tail ++ [[], []] := rfl
  have hcolon : ("Content-Length: ".toList ++ Nat.toDigits 10 bodyLen).splitOn ':' =
      ["Content-Length".toList, ' ' :: Nat.toDigits 10 bodyLen] := by
    have hno : ':' ∉ ' ' :: Nat.toDigits 10 bodyLen := by
      simp only [List.mem_cons, not_or]
      exact ⟨by decide, fun hc => (isDigit_spec (isDigit_of_mem hc)).2.1 rfl⟩
    have hname : ':' ∉ "Content-Length".toList := by decide
    rw [show "Content-Length: ".toList ++ Nat.toDigits 10 bodyLen =
      "Content-Length".toList ++ ':' :: ' ' :: Nat.toDigits 10 bodyLen from rfl,
      List.splitOn_append_cons_self_of_not_mem hname, List.splitOn_eq_singleton hno]
  have htrim : trim (' ' :: Nat.toDigits 10 bodyLen) = Nat.toDigits 10 bodyLen := by
    have hdigits : ∀ c ∈ Nat.toDigits 10 bodyLen, isWhiteSpace c = false := fun c hc =>
      (isDigit_spec (isDigit_of_mem hc)).1
    have h := trim_append hdigits (List.forall_mem_nil _)
    rw [List.append_nil] at h
    rw [trim_cons (by decide), h]
  unfold RequestHead.ofText
  simp only [splitCrlf_postHead, hline, htail, find?_postLines_length, Option.bind_some, hcolon,
    List.getElem?_cons_succ, List.getElem?_cons_zero, htrim, parseUInt_toDigits hlen,
    Option.getD_some]
  congr 1

/-- The token of the request is read back. -/
theorem gotToken_postLines :
    gotToken ((postLines host.text raftPath (token.map HeaderText.text) bodyLen).tail ++ [[], []]) =
      some (token.map (·.text.toList)) := by
  rw [gotToken, find?_postLines_token]
  rcases token with _ | t
  · rfl
  · have hslice : sliceFrom 16 ("X-Cluster-Token: ".toList ++ t.text.toList) =
        some (' ' :: t.text.toList) := rfl
    simp only [Option.map_some, Option.some_or, hslice]
    rw [trim_cons (by decide), t.trimmed]

end

/-! ## Framing -/

/-- A message on its way to a member: the host and the token of the cluster, and the sender. -/
structure RaftRequest where
  host : HeaderText
  token : Option HeaderText
  src : String
  msg : Message

namespace RaftRequest

variable [RpcJson] (q : RaftRequest)

/-- The text of the body. -/
def text : String := RpcJson.toString (packet q.src q.msg)

def head : List UInt8 :=
  (postJson q.host.text raftPath (packet q.src q.msg) (q.token.map HeaderText.text)).1

def body : List UInt8 :=
  (postJson q.host.text raftPath (packet q.src q.msg) (q.token.map HeaderText.text)).2

/-- What `serde_json` does with the document of the message: its text is that of an object, is no
longer than a `usize` can say, and is read back. -/
structure ReadsBack : Prop where
  closes : ∃ cs, q.text.toList = cs ++ ['\x7d']
  length_lt : q.body.length < 2 ^ 64
  parses : RpcJson.fromStr q.text = .ok (packet q.src q.msg)
  decodes : RpcJson.toMessage (RpcJson.ofMessage q.msg) = .ok q.msg

/-- The body is received as it was sent, and the message is passed on. -/
structure Framed (r : Reads q.head q.body) : Prop where
  body : ∃ request, receive (q.head ++ r.first) r.rest = some (request, q.text.toList)
  passes : handleConn (q.token.map HeaderText.text) r.chunks = .passed q.src q.msg

variable {q}

/-- The text of the head. -/
def headText (q : RaftRequest) : List Char :=
  (postHead q.host.text raftPath (q.token.map HeaderText.text) q.body.length).toList

theorem body_eq_encode : q.body = encode q.text.toList := asBytes_eq_encode _

theorem head_eq_encode : q.head = encode q.headText := asBytes_eq_encode _

/-- The head is found, and what is read behind it is the body. -/
theorem receive_head (first : List UInt8) (rest : List (List UInt8)) :
    receive (q.head ++ first) rest = some (RequestHead.ofText q.headText,
      readBody (RequestHead.ofText q.headText).need (lossy first) rest) := by
  have hlines : q.headText = headOfLines (postLines q.host.text raftPath
      (q.token.map HeaderText.text) q.body.length) := toList_postHead ..
  have hfind : findHead (q.headText ++ lossy first) = some q.headText := by
    rw [hlines]
    exact findHead_headOfLines (by simp [postLines])
      (fun l hl => mem_postLines q.host q.token q.body.length hl) (lossy first)
  have htext : (fromUtf8Lossy (q.head ++ first)).toList = q.headText ++ lossy first := by
    rw [toList_fromUtf8Lossy, head_eq_encode, lossy_encode_append]
  have hmin : min (byteLen q.headText) (q.head ++ first).length = byteLen q.headText := by
    rw [head_eq_encode, List.length_append, length_encode]
    omega
  simp only [receive, htext, hfind, Option.getD_some, hmin, sliceFrom_append, Option.map_some]

/-- A request on the route of messages, with the token of the cluster. -/
theorem handleConn_of_receive {first : List UInt8} {rest : List (List UInt8)} {body : List Char}
    (hne : first ≠ []) (hlen : q.body.length < 2 ^ 64)
    (hrec : receive first rest = some (RequestHead.ofText q.headText, body)) :
    handleConn (q.token.map HeaderText.text) (first :: rest) = raftRoute (String.ofList body) := by
  have hhead : RequestHead.ofText q.headText = _ := ofText_postHead q.host q.token q.body.length hlen
  have hgot := gotToken_postLines q.host q.token q.body.length
  rw [handleConn, if_neg hne, hrec, hhead]
  simp only [hgot, and_self, if_true]
  rcases q.token with _ | t
  · rfl
  · simp

/-- For every message and every way its request is cut behind the head: it is received as it was
sent exactly when no read starts inside a character. -/
theorem framed_iff_whole (hj : q.ReadsBack) (r : Reads q.head q.body) : q.Framed r ↔ r.Whole := by
  obtain ⟨cs, hcs⟩ := hj.closes
  have hneed : (RequestHead.ofText q.headText).need = byteLen (cs ++ ['\x7d']) := by
    rw [← hcs, ← length_encode, ← body_eq_encode]
    exact congrArg RequestHead.need (ofText_postHead q.host q.token q.body.length hj.length_lt)
  have hrec := receive_head (q := q) r.first r.rest
  have hbytes : r.first ++ r.rest.flatten = encode (cs ++ ['\x7d']) := by
    rw [r.join, body_eq_encode, hcs]
  have hiff := readBody_eq_iff (by decide) hbytes r.nonempty
  rw [hneed] at hrec
  constructor
  · rintro ⟨⟨request, hbody⟩, -⟩
    rw [hrec] at hbody
    obtain ⟨-, hbody⟩ := Prod.mk.inj (Option.some.inj hbody)
    exact hiff.1 (hbody.trans hcs)
  · intro hwhole
    rw [hiff.2 hwhole, ← hcs] at hrec
    have hne : q.head ++ r.first ≠ [] := by
      refine fun h => (List.append_eq_nil_iff.1 h).1 |> fun h => ?_
      rw [head_eq_encode, encode_eq_nil] at h
      exact absurd (congrArg List.length h) (by simp [headText, postHead])
    refine ⟨⟨_, hrec⟩, ?_⟩
    rw [Reads.chunks, handleConn_of_receive hne hj.length_lt hrec, String.ofList_toList, raftRoute,
      hj.parses]
    simp [packet, Value.get, Value.asStr, List.lookup_cons, hj.decodes]

end RaftRequest

/-! ## One message -/

namespace RpcJson

/-- A snapshot of one character. -/
def sampleMessage (raw : String) : Message := .installSnapshot 1 "n1" (.malformed raw)

/-- The document of such a message. -/
def sampleDoc : Message → Value
  | .installSnapshot term leader (.malformed raw) =>
    .object [("leader", .string leader), ("snapshot_json", .string raw), ("term", .number term),
      ("type", .string "install_snapshot")]
  | _ => .null

def sampleRaw (v : Value) : Option String := (v.get "snapshot_json").bind Value.asStr

/-- The text of the packet that carries it, up to the snapshot. -/
def sampleBefore : String := "\x7b\"from\":\"n1\",\"msg\":\x7b\"leader\":\"n1\",\"snapshot_json\":\""

/-- And behind it. -/
def sampleAfter : String := "\",\"term\":1,\"type\":\"install_snapshot\"\x7d\x7d"

/-- The whole of it, for a snapshot that needs no escapes. -/
def sampleText (raw : String) : String := sampleBefore ++ raw ++ sampleAfter

/-- `serde_json` on the packets of two such messages. -/
@[reducible] def sample : RpcJson where
  toString v :=
    if (v.get "msg").bind sampleRaw = some "é" then sampleText "é" else sampleText "\uFFFD\uFFFD"
  fromStr text :=
    let doc (raw : String) : Value :=
      .object [("from", .string "n1"), ("msg", sampleDoc (sampleMessage raw))]
    if text = sampleText "é" then .ok (doc "é")
    else if text = sampleText "\uFFFD\uFFFD" then .ok (doc "\uFFFD\uFFFD")
    else .error "expected value"
  ofMessage := sampleDoc
  toMessage v :=
    match sampleRaw v with
    | some raw => .ok (sampleMessage raw)
    | none => .error "missing field"

/-- Such a message on its way. -/
def sampleRequest : RaftRequest where
  host := ⟨"10.0.0.2", by decide, by decide⟩
  token := none
  src := "n1"
  msg := sampleMessage "é"

/-- The snapshot that is passed on. -/
def passedRaw : Handled → Option String
  | .passed _ (.installSnapshot _ _ (.malformed raw)) => some raw
  | _ => none

section

local instance : RpcJson := sample

theorem sampleRequest_text : sampleRequest.text = sampleText "é" := by
  show sample.toString (packet sampleRequest.src sampleRequest.msg) = _
  exact if_pos (by decide +kernel)

theorem sampleRequest_readsBack : sampleRequest.ReadsBack where
  closes := by
    have hafter : sampleAfter =
        "\",\"term\":1,\"type\":\"install_snapshot\"\x7d" ++ "\x7d" := by decide +kernel
    have hbrace : "\x7d".toList = ['\x7d'] := by decide
    refine ⟨(sampleBefore ++ "é" ++
      "\",\"term\":1,\"type\":\"install_snapshot\"\x7d").toList, ?_⟩
    rw [sampleRequest_text, sampleText, hafter, ← String.append_assoc, String.toList_append, hbrace]
  length_lt := by
    have hsize : sampleRequest.body.length = sampleRequest.text.utf8ByteSize := by rfl
    have hlt : (sampleText "é").utf8ByteSize < 2 ^ 64 := by decide +kernel
    rw [hsize, sampleRequest_text]
    exact hlt
  parses := by
    rw [sampleRequest_text]
    exact if_pos rfl
  decodes := rfl

theorem sampleRequest_body : sampleRequest.body =
    encode sampleBefore.toList ++ 0xC3 :: 0xA9 :: encode sampleAfter.toList := by
  have hchar : encode "é".toList = [0xC3, 0xA9] := by decide +kernel
  rw [RaftRequest.body_eq_encode, sampleRequest_text, sampleText, String.toList_append,
    String.toList_append, encode_append, encode_append, hchar, List.append_assoc, List.cons_append,
    List.cons_append, List.nil_append]

/-- Its reads, when the body is cut in two. -/
def sampleReads (first second : List UInt8) (hjoin : first ++ second = sampleRequest.body)
    (hne : second ≠ []) : Reads sampleRequest.head sampleRequest.body where
  first := first
  rest := [second]
  join := by simpa using hjoin
  nonempty := by simpa using hne
  first_le := by
    have hlen : sampleRequest.head.length + sampleRequest.body.length ≤ 65536 := by decide +kernel
    rw [← hjoin, List.length_append] at hlen
    rw [List.length_append]
    omega
  rest_le := by
    have hlen : sampleRequest.body.length ≤ 8192 := by decide +kernel
    rw [← hjoin, List.length_append] at hlen
    simp only [List.mem_singleton, forall_eq]
    omega

/-- The character is in the first read. -/
def cutBehind : Reads sampleRequest.head sampleRequest.body :=
  sampleReads (encode sampleBefore.toList ++ [0xC3, 0xA9]) (encode sampleAfter.toList)
    (by rw [sampleRequest_body, List.append_assoc, List.cons_append, List.cons_append,
      List.nil_append])
    (by rw [ne_eq, encode_eq_nil]; decide +kernel)

/-- One byte of it is in each read. -/
def cutInside : Reads sampleRequest.head sampleRequest.body :=
  sampleReads (encode sampleBefore.toList ++ [0xC3]) (0xA9 :: encode sampleAfter.toList)
    (by rw [sampleRequest_body, List.append_assoc, List.cons_append, List.nil_append])
    (List.cons_ne_nil _ _)

/-- What is received of the request that is cut inside its character. -/
theorem readBody_cutInside : readBody sampleRequest.body.length (lossy cutInside.first)
    cutInside.rest = (sampleText "\uFFFD\uFFFD").toList := by
  have hfirst : lossy cutInside.first = sampleBefore.toList ++ ['\uFFFD'] := by
    have hlead : lossy [0xC3] = ['\uFFFD'] := by decide +kernel
    rw [← hlead]
    exact lossy_encode_append _ _
  have hsecond : lossy (0xA9 :: encode sampleAfter.toList) = '\uFFFD' :: sampleAfter.toList := by
    rw [lossy_cons_of_not_first (by decide), lossy_encode]
  have hlt : byteLen (sampleBefore.toList ++ ['\uFFFD']) < sampleRequest.body.length := by
    decide +kernel
  have hrest : cutInside.rest = [0xA9 :: encode sampleAfter.toList] := rfl
  rw [hfirst, hrest, readBody_cons (List.cons_ne_nil _ _), if_pos hlt, hsecond, readBody, sampleText,
    String.toList_append, String.toList_append, List.append_assoc, List.append_assoc]
  rfl

end

end RpcJson

open RpcJson in
/-- A message whose request is cut behind a character. -/
theorem framed_iff_whole_behind : ∃ (_ : RpcJson) (q : RaftRequest) (r : Reads q.head q.body),
    r.rest.length = 1 ∧ q.Framed r := by
  let _ : RpcJson := sample
  have hwhole : cutBehind.Whole := by decide +kernel
  exact ⟨sample, sampleRequest, cutBehind, rfl,
    (RaftRequest.framed_iff_whole sampleRequest_readsBack _).2 hwhole⟩

open RpcJson in
/-- A message whose request is cut inside a character: another one is passed on. -/
theorem not_framed : ¬ ∀ (_ : RpcJson) (q : RaftRequest) (r : Reads q.head q.body),
    q.ReadsBack → q.Framed r := by
  intro hall
  let _ : RpcJson := sample
  have hpasses := (hall sample sampleRequest cutInside sampleRequest_readsBack).passes
  have hneed : (RequestHead.ofText sampleRequest.headText).need = sampleRequest.body.length :=
    congrArg RequestHead.need (ofText_postHead _ _ _ sampleRequest_readsBack.length_lt)
  have hrec := RaftRequest.receive_head (q := sampleRequest) cutInside.first cutInside.rest
  rw [hneed, readBody_cutInside] at hrec
  have hne : sampleRequest.head ++ cutInside.first ≠ [] := by
    simp [cutInside, sampleReads]
  rw [Reads.chunks, RaftRequest.handleConn_of_receive hne sampleRequest_readsBack.length_lt hrec,
    String.ofList_toList] at hpasses
  have hraw : passedRaw (raftRoute (sampleText "\uFFFD\uFFFD")) = some "\uFFFD\uFFFD" := by
    decide +kernel
  rw [hpasses] at hraw
  exact absurd hraw (by decide)

end Rdsctl.Ha
