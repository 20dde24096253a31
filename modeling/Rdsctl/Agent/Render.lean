import Mathlib.Data.List.Forall2
import Rdsctl.Agent.Spec
import Rdsctl.Lib.Fields

/-!
# Specifications as arguments

`to_cli` of `src/exec/spec.rs` and `render_args` of `src/exec/docker.rs`, and when the arguments that
a specification is rendered to give it back. A specification that was read does so unless its image
looks like a flag, a protocol is empty or a mode of a mount is given twice (`Renderable`).
-/

namespace Rdsctl.Agent

open Ha

/-! ## Rendering -/

/-- What stands in front of the protocol. -/
def PortMapping.core (p : PortMapping) : String :=
  match p.hostIp, p.hostPort with
  | some ip, some hp => ip ++ ":" ++ toString hp ++ ":" ++ toString p.containerPort
  | none, some hp => toString hp ++ ":" ++ toString p.containerPort
  | _, _ => toString p.containerPort

def PortMapping.toCli (p : PortMapping) : String :=
  if p.proto = "tcp" ∨ p.proto = "" then p.core else p.core ++ "/" ++ p.proto

def Mount.toCli (m : Mount) : String :=
  m.source ++ ":" ++ m.target ++ if m.readOnly then ":ro" else ""

def EnvVar.toCli (e : EnvVar) : String := e.key ++ "=" ++ e.value

/-- The flags of a specification with their values. -/
def ContainerSpec.flags (spec : ContainerSpec) : List (String × String) :=
  spec.network.toList.map (fun n => ("--network", n)) ++
    spec.hostname.toList.map (fun h => ("--hostname", h)) ++
    spec.ports.map (fun p => ("-p", p.toCli)) ++
    spec.mounts.map (fun m => ("-v", m.toCli)) ++
    spec.envs.map (fun e => ("-e", e.toCli)) ++
    spec.restartPolicy.toList.map (fun r => ("--restart", r)) ++
    spec.entrypoint.toList.map (fun ep => ("--entrypoint", ep))

/-- Each flag is an argument, and so is its value. -/
def spread (flags : List (String × String)) : List String := flags.flatMap fun p => [p.1, p.2]

/-- `render_args`: the arguments as they were given, if there are some. -/
def renderArgs (spec : ContainerSpec) : List String :=
  if spec.legacyArgs ≠ [] then spec.legacyArgs
  else spread spec.flags ++ spec.extra ++ spec.image :: spec.command

/-- A specification without the arguments it was read from. -/
def ContainerSpec.cleared (spec : ContainerSpec) : ContainerSpec := { spec with legacyArgs := [] }

/-- What a sequence of two steps makes. -/
theorem bind_eq_ok_iff {ε α β : Type} {x : Except ε α} {f : α → Except ε β} {b : β} :
    (x >>= f) = .ok b ↔ ∃ a, x = .ok a ∧ f a = .ok b := by
  cases x with
  | error e => exact ⟨nofun, nofun⟩
  | ok a => exact ⟨fun h => ⟨a, rfl, h⟩, fun ⟨_, ha, h⟩ => by cases ha; exact h⟩

/-! ## Splitting -/

theorem splitOnce_append {c : Char} {a : List Char} (h : c ∉ a) (b : List Char) :
    splitOnce c (a ++ c :: b) = some (a, b) := by
  have hne : ∀ d ∈ a, (d != c) = true := by
    intro d hd
    exact bne_iff_ne.2 fun heq => h (heq ▸ hd)
  rw [splitOnce, if_pos (by simp), List.takeWhile_append_of_pos hne, List.dropWhile_append_of_pos hne,
    List.takeWhile_cons_of_neg (by simp), List.dropWhile_cons_of_neg (by simp), List.append_nil,
    List.drop_one, List.tail_cons]

theorem splitOnce_eq_some {c : Char} {cs a b : List Char} :
    splitOnce c cs = some (a, b) ↔ cs = a ++ c :: b ∧ c ∉ a := by
  constructor
  · intro h
    have hmem : c ∈ cs := by
      unfold splitOnce at h
      split at h
      · assumption
      · cases h
    obtain ⟨a', b', rfl, hno⟩ := List.eq_append_cons_of_mem hmem
    rw [splitOnce_append hno] at h
    cases h
    exact ⟨rfl, hno⟩
  · rintro ⟨rfl, hno⟩
    exact splitOnce_append hno b

theorem splitOnce_eq_none {c : Char} {cs : List Char} : splitOnce c cs = none ↔ c ∉ cs := by
  unfold splitOnce
  split
  · next h => exact ⟨nofun, fun hno => absurd h hno⟩
  · next h => exact ⟨fun _ => h, fun _ => rfl⟩

theorem rsplitOnce_append {c : Char} {b : List Char} (h : c ∉ b) (a : List Char) :
    rsplitOnce c (a ++ c :: b) = some (a, b) := by
  have hrev : (a ++ c :: b).reverse = b.reverse ++ c :: a.reverse := by simp
  rw [rsplitOnce, hrev, splitOnce_append (fun hc => h (List.mem_reverse.1 hc))]
  simp

theorem rsplitOnce_eq_some {c : Char} {cs a b : List Char} :
    rsplitOnce c cs = some (a, b) ↔ cs = a ++ c :: b ∧ c ∉ b := by
  constructor
  · intro h
    obtain ⟨⟨u, v⟩, hs, heq⟩ := Option.map_eq_some_iff.1 h
    obtain ⟨hcs, hno⟩ := splitOnce_eq_some.1 hs
    cases heq
    refine ⟨?_, fun hc => hno (List.mem_reverse.1 hc)⟩
    rw [← List.reverse_reverse cs, hcs]
    simp
  · rintro ⟨rfl, hno⟩
    exact rsplitOnce_append hno a

/-! ## Ports -/

namespace PortMapping

variable {p : PortMapping} {v : String}

/-- What `parse_port` makes: the numbers are ports, and an address comes with a port and has neither
separator. -/
structure Wf (p : PortMapping) : Prop where
  container : p.containerPort < 2 ^ 16
  host : ∀ h ∈ p.hostPort, h < 2 ^ 16
  ip : ∀ ip ∈ p.hostIp, ':' ∉ ip.toList ∧ '/' ∉ ip.toList ∧ p.hostPort.isSome

/-- The value ends in its only slash. -/
def EmptyProto (v : String) : Prop := ∃ core, v.toList = core ++ ['/'] ∧ '/' ∉ core

/-- A port of the host that may be left out. -/
def hostPortOf (h : List Char) : Except RuntimeError (Option Nat) :=
  if trim h = [] then .ok none else (parseU16 h "宿主").map some

/-- What `parse_port` does behind the protocol. -/
def parseCore (s : String) (core : List Char) (proto : String) : Except RuntimeError PortMapping :=
  match core.splitOn ':' with
  | [c] => do
    let containerPort ← parseU16 c "容器"
    .ok ⟨none, none, containerPort, proto⟩
  | [h, c] => do
    let hostPort ← hostPortOf h
    let containerPort ← parseU16 c "容器"
    .ok ⟨none, hostPort, containerPort, proto⟩
  | [ip, h, c] => do
    let hostPort ← parseU16 h "宿主"
    let containerPort ← parseU16 c "容器"
    .ok ⟨some (String.ofList ip), some hostPort, containerPort, proto⟩
  | _ => .error (.platform
      ("无法解析端口映射 " ++ s ++ "(期望 [host_ip:]host_port:container_port[/proto])"))

theorem parsePort_eq (s : String) : parsePort s =
    match splitOnce '/' s.toList with
    | some (core, proto) => parseCore s core (String.ofList proto)
    | none => parseCore s s.toList "tcp" := by
  unfold parsePort parseCore
  rcases splitOnce '/' s.toList with _ | ⟨core, proto⟩
  all_goals
    dsimp only
    generalize List.splitOn ':' _ = pieces
    rcases pieces with _ | ⟨a, _ | ⟨b, _ | ⟨c, _ | ⟨d, rest⟩⟩⟩⟩
    case cons.cons.nil =>
      dsimp only [hostPortOf]
      split <;> rfl
    all_goals rfl

theorem parseU16_lt {cs : List Char} {what : String} {n : Nat} (h : parseU16 cs what = .ok n) :
    n < 2 ^ 16 := by
  unfold parseU16 at h
  split at h
  · next hn =>
    cases h
    exact parseUInt_lt hn
  · cases h

theorem trim_toDigits (n : Nat) : trim (Nat.toDigits 10 n) = Nat.toDigits 10 n := by
  have := trim_append (fun c hc => (isDigit_spec (isDigit_of_mem (n := n) hc)).1)
    (List.forall_mem_nil _)
  rwa [List.append_nil] at this

theorem parseU16_toDigits {n : Nat} (h : n < 2 ^ 16) (what : String) :
    parseU16 (Nat.toDigits 10 n) what = .ok n := by
  rw [parseU16, trim_toDigits, parseUInt_toDigits h]

/-- What is made of the part in front of the protocol. -/
theorem wf_of_parseCore {s : String} {core : List Char} {proto : String}
    (h : parseCore s core proto = .ok p) (hno : '/' ∉ core) : p.Wf ∧ p.proto = proto := by
  unfold parseCore at h
  split at h
  · obtain ⟨n, hn, h⟩ := bind_eq_ok_iff.1 h
    cases h
    exact ⟨⟨parseU16_lt hn, nofun, nofun⟩, rfl⟩
  · next hp c _ =>
    obtain ⟨hostPort, hhost, h⟩ := bind_eq_ok_iff.1 h
    obtain ⟨n, hn, h⟩ := bind_eq_ok_iff.1 h
    cases h
    refine ⟨⟨parseU16_lt hn, fun m hm => ?_, nofun⟩, rfl⟩
    obtain rfl : hostPort = some m := hm
    unfold hostPortOf at hhost
    split at hhost
    · cases hhost
    · cases hu : parseU16 hp "宿主" with
      | error e =>
        rw [hu] at hhost
        cases hhost
      | ok n =>
        rw [hu] at hhost
        cases hhost
        exact parseU16_lt hu
  · next ip hp c heq =>
    obtain ⟨m, hm, h⟩ := bind_eq_ok_iff.1 h
    obtain ⟨n, hn, h⟩ := bind_eq_ok_iff.1 h
    cases h
    refine ⟨⟨parseU16_lt hn, fun k hk => ?_, fun t ht => ?_⟩, rfl⟩
    · cases hk
      exact parseU16_lt hm
    · cases ht
      rw [String.toList_ofList]
      refine ⟨Fields.not_mem_of_mem_splitOn (heq ▸ List.mem_cons_self), fun hc => hno ?_, rfl⟩
      have hcore : [':'].intercalate (core.splitOn ':') = core := List.intercalate_splitOn ':'
      rw [← hcore, heq]
      simp [List.intercalate, hc]
  · cases h

/-- A port that was parsed. Its protocol is empty when the value ends in its only slash. -/
theorem wf_of_parsePort (h : parsePort v = .ok p) : p.Wf ∧ (p.proto = "" ↔ EmptyProto v) := by
  rw [parsePort_eq] at h
  split at h
  · next core proto hs =>
    obtain ⟨hv, hno⟩ := splitOnce_eq_some.1 hs
    obtain ⟨hwf, hproto⟩ := wf_of_parseCore h hno
    refine ⟨hwf, ?_⟩
    rw [hproto, EmptyProto, hv, String.ofList_eq_empty_iff]
    constructor
    · rintro rfl
      exact ⟨core, rfl, hno⟩
    · rintro ⟨core', heq, hno'⟩
      have := splitOnce_append hno proto
      rw [heq, splitOnce_append hno'] at this
      cases this
      rfl
  · next hs =>
    obtain ⟨hwf, hproto⟩ := wf_of_parseCore h (splitOnce_eq_none.1 hs)
    refine ⟨hwf, ?_⟩
    rw [hproto]
    refine ⟨fun hc => absurd hc (by decide), ?_⟩
    rintro ⟨core, heq, -⟩
    exact absurd (heq ▸ by simp) (splitOnce_eq_none.1 hs)

/-- The part in front of the protocol is read back. -/
theorem parseCore_core (hp : p.Wf) (s proto : String) :
    '/' ∉ p.core.toList ∧ parseCore s p.core.toList proto = .ok { p with proto } := by
  have hcolon : ∀ n, ':' ∉ Nat.toDigits 10 n := fun n hc => (isDigit_spec (isDigit_of_mem hc)).2.1 rfl
  have hslash : ∀ n, '/' ∉ Nat.toDigits 10 n := fun n hc =>
    absurd (isDigit_of_mem hc) (by decide)
  obtain ⟨hostIp, hostPort, containerPort, proto'⟩ := p
  have hc := parseU16_toDigits hp.container
  cases hostPort with
  | none =>
    cases hostIp with
    | none =>
      have hcore : (core ⟨none, none, containerPort, proto'⟩).toList = Nat.toDigits 10 containerPort :=
        Nat.toList_repr
      rw [hcore, parseCore, List.splitOn_eq_singleton (hcolon _)]
      exact ⟨hslash _, by dsimp only; rw [hc]; rfl⟩
    | some ip => cases (hp.ip ip rfl).2.2
  | some m =>
    have hm := parseU16_toDigits (hp.host m rfl)
    cases hostIp with
    | none =>
      have hcore : (core ⟨none, some m, containerPort, proto'⟩).toList =
          Nat.toDigits 10 m ++ ':' :: Nat.toDigits 10 containerPort := by simp [core]
      have hhost : hostPortOf (Nat.toDigits 10 m) = .ok (some m) := by
        rw [hostPortOf, hm "宿主", if_neg fun h => ?_]
        · rfl
        · have := congrArg (parseUInt (2 ^ 16)) h
          rw [trim_toDigits, parseUInt_toDigits (hp.host m rfl)] at this
          cases this
      rw [hcore, parseCore, List.splitOn_append_cons_self_of_not_mem (hcolon _),
        List.splitOn_eq_singleton (hcolon _)]
      refine ⟨by simp [hslash], ?_⟩
      dsimp only
      rw [hhost, hc]
      rfl
    | some ip =>
      obtain ⟨hno, hip, -⟩ := hp.ip ip rfl
      have hcore : (core ⟨some ip, some m, containerPort, proto'⟩).toList =
          ip.toList ++ ':' :: (Nat.toDigits 10 m ++ ':' :: Nat.toDigits 10 containerPort) := by
        simp [core]
      rw [hcore, parseCore, List.splitOn_append_cons_self_of_not_mem hno,
        List.splitOn_append_cons_self_of_not_mem (hcolon _), List.splitOn_eq_singleton (hcolon _)]
      refine ⟨by simp [hslash, hip], ?_⟩
      dsimp only
      rw [hm, hc, String.ofList_toList]
      rfl

/-- What a port is rendered to is read with `tcp` for an empty protocol. -/
theorem parsePort_toCli (hp : p.Wf) :
    parsePort p.toCli = .ok { p with proto := if p.proto = "" then "tcp" else p.proto } := by
  obtain ⟨hno, -⟩ := parseCore_core hp "" ""
  by_cases htcp : p.proto = "tcp" ∨ p.proto = ""
  · rw [toCli, if_pos htcp, parsePort_eq, splitOnce_eq_none.2 hno]
    dsimp only
    rw [(parseCore_core hp _ "tcp").2]
    rcases htcp with h | h
    · rw [h, if_neg (by decide)]
    · rw [if_pos h]
  · have hcut : splitOnce '/' (p.core ++ "/" ++ p.proto).toList =
        some (p.core.toList, p.proto.toList) := by
      rw [String.toList_append, String.toList_append, List.append_assoc]
      exact splitOnce_append hno _
    rw [toCli, if_neg htcp, parsePort_eq, hcut]
    dsimp only
    rw [(parseCore_core hp _ _).2, if_neg (not_or.1 htcp).2, String.ofList_toList]

/-- A port is read back unless its protocol is empty. -/
theorem roundTrips_iff (hp : p.Wf) : parsePort p.toCli = .ok p ↔ p.proto ≠ "" := by
  rw [parsePort_toCli hp]
  by_cases h : p.proto = ""
  · rw [if_pos h]
    refine ⟨fun heq => ?_, fun hne => absurd h hne⟩
    have hproto := congrArg PortMapping.proto (Except.ok.inj heq)
    rw [h] at hproto
    simp at hproto
  · rw [if_neg h]
    exact ⟨fun _ => h, fun _ => rfl⟩

end PortMapping

/-! ## Mounts and variables -/

namespace Mount

/-- The value ends in two modes. -/
def ModeTwice (v : String) : Prop := ":ro:rw".toList <:+ v.toList ∨ ":rw:rw".toList <:+ v.toList

/-- The text in front of the mode, and whether the mode is `ro`. -/
def cutMode (cs : List Char) : List Char × Bool :=
  match rsplitOnce ':' cs with
  | some (r, ['r', 'o']) => (r, true)
  | some (r, ['r', 'w']) => (r, false)
  | _ => (cs, false)

/-- What is read of the two. -/
def ofCut (cut : List Char × Bool) : Option Mount :=
  (splitOnce ':' cut.1).map fun p =>
    ⟨String.ofList p.1, String.ofList p.2, mountKindOf p.1, cut.2⟩

theorem parseMount_eq_ok {s : String} {m : Mount} :
    parseMount s = .ok m ↔ ofCut (cutMode s.toList) = some m := by
  have hparse : parseMount s = match ofCut (cutMode s.toList) with
      | some m => .ok m
      | none => .error (.platform ("无法解析挂载 " ++ s ++ "(期望 source:target[:ro|rw])")) := by
    unfold parseMount ofCut
    show (match splitOnce ':' (cutMode s.toList).1 with | some (source, target) => _ | none => _) = _
    cases splitOnce ':' (cutMode s.toList).1 <;> rfl
  rw [hparse]
  cases ofCut (cutMode s.toList) with
  | none => exact ⟨nofun, nofun⟩
  | some m' =>
    exact ⟨fun h => congrArg some (Except.ok.inj h), fun h => congrArg Except.ok (Option.some.inj h)⟩

/-- A mount has the text that it was read from. -/
theorem of_ofCut {cut : List Char × Bool} {m : Mount} (h : ofCut cut = some m) :
    cut = ((m.source ++ ":" ++ m.target).toList, m.readOnly) := by
  obtain ⟨⟨source, target⟩, hs, heq⟩ := Option.map_eq_some_iff.1 h
  obtain ⟨hcut, -⟩ := splitOnce_eq_some.1 hs
  cases heq
  refine Prod.ext ?_ rfl
  rw [hcut]
  simp

theorem cutMode_mode {r : List Char} : cutMode (r ++ ":ro".toList) = (r, true) ∧
    cutMode (r ++ ":rw".toList) = (r, false) := by
  have hro := rsplitOnce_append (c := ':') (b := ['r', 'o']) (by decide) r
  have hrw := rsplitOnce_append (c := ':') (b := ['r', 'w']) (by decide) r
  refine ⟨?_, ?_⟩
  · unfold cutMode
    rw [show ":ro".toList = ':' :: ['r', 'o'] from rfl, hro]
    rfl
  · unfold cutMode
    rw [show ":rw".toList = ':' :: ['r', 'w'] from rfl, hrw]
    rfl

/-- A text is cut at its mode, or has none. -/
theorem cutMode_cases (cs : List Char) :
    (∃ r, cs = r ++ ":ro".toList ∧ cutMode cs = (r, true)) ∨
      (∃ r, cs = r ++ ":rw".toList ∧ cutMode cs = (r, false)) ∨
        (¬ ":ro".toList <:+ cs ∧ ¬ ":rw".toList <:+ cs ∧ cutMode cs = (cs, false)) := by
  by_cases hro : ":ro".toList <:+ cs
  · obtain ⟨r, rfl⟩ := hro
    exact .inl ⟨r, rfl, cutMode_mode.1⟩
  · by_cases hrw : ":rw".toList <:+ cs
    · obtain ⟨r, rfl⟩ := hrw
      exact .inr (.inl ⟨r, rfl, cutMode_mode.2⟩)
    · refine .inr (.inr ⟨hro, hrw, ?_⟩)
      unfold cutMode
      split
      · next r h => exact absurd ⟨r, (rsplitOnce_eq_some.1 h).1.symm⟩ hro
      · next r h => exact absurd ⟨r, (rsplitOnce_eq_some.1 h).1.symm⟩ hrw
      · rfl

/-- A text that is left whole has no mode. -/
theorem cutMode_eq_self {cs : List Char} :
    cutMode cs = (cs, false) ↔ ¬ (":ro".toList <:+ cs ∨ ":rw".toList <:+ cs) := by
  rw [not_or]
  constructor
  · intro h
    refine ⟨?_, ?_⟩
    · rintro ⟨r, rfl⟩
      rw [cutMode_mode.1] at h
      cases (Prod.ext_iff.1 h).2
    · rintro ⟨r, rfl⟩
      rw [cutMode_mode.2] at h
      have hlen := congrArg List.length (Prod.ext_iff.1 h).1
      simp at hlen
  · rintro ⟨hro, hrw⟩
    rcases cutMode_cases cs with ⟨r, rfl, -⟩ | ⟨r, rfl, -⟩ | ⟨-, -, h⟩
    · exact absurd (List.suffix_append r _) hro
    · exact absurd (List.suffix_append r _) hrw
    · exact h

/-- A mount is read back unless its value ends in two modes. -/
theorem roundTrips_iff {v : String} {m : Mount} (h : parseMount v = .ok m) :
    parseMount m.toCli = .ok m ↔ ¬ ModeTwice v := by
  have hm := parseMount_eq_ok.1 h
  have hcut := of_ofCut hm
  have hback : parseMount m.toCli = .ok m ↔ cutMode m.toCli.toList = cutMode v.toList := by
    rw [parseMount_eq_ok]
    refine ⟨fun h' => (of_ofCut h').trans hcut.symm, fun heq => heq ▸ hm⟩
  have hcli : m.toCli.toList = (cutMode v.toList).1 ++ if m.readOnly then ":ro".toList else [] := by
    rw [hcut, toCli, String.toList_append]
    cases m.readOnly <;> rfl
  have htwice (r : List Char) : (":ro:rw".toList <:+ r ++ ":rw".toList ∨
      ":rw:rw".toList <:+ r ++ ":rw".toList) ↔ (":ro".toList <:+ r ∨ ":rw".toList <:+ r) :=
    or_congr (@List.suffix_append_self_iff _ ":ro".toList r ":rw".toList)
      (@List.suffix_append_self_iff _ ":rw".toList r ":rw".toList)
  rw [hback, hcli]
  rcases cutMode_cases v.toList with ⟨r, hv, hc⟩ | ⟨r, hv, hc⟩ | ⟨hro, hrw, hc⟩
  · have hmode : m.readOnly = true := (congrArg Prod.snd (hc.symm.trans hcut)).symm
    rw [hc, if_pos hmode]
    refine ⟨fun _ => ?_, fun _ => cutMode_mode.1⟩
    rw [ModeTwice, hv]
    rintro (⟨t, ht⟩ | ⟨t, ht⟩)
    · simpa using congrArg List.getLast? ht
    · simpa using congrArg List.getLast? ht
  · have hmode : m.readOnly = false := (congrArg Prod.snd (hc.symm.trans hcut)).symm
    rw [hc, hmode, if_neg Bool.false_ne_true, List.append_nil, cutMode_eq_self, ModeTwice, hv, htwice]
  · have hmode : m.readOnly = false := (congrArg Prod.snd (hc.symm.trans hcut)).symm
    rw [hc, hmode, if_neg Bool.false_ne_true, List.append_nil]
    refine ⟨fun _ => ?_, fun _ => hc⟩
    rintro (h | h)
    · exact hrw ((List.suffix_append ":ro".toList ":rw".toList).trans h)
    · exact hrw ((List.suffix_append ":rw".toList ":rw".toList).trans h)

end Mount

/-- A variable is always read back. -/
theorem parseEnv_toCli (v : String) : parseEnv (parseEnv v).toCli = parseEnv v := by
  have hback {e : EnvVar} (h : '=' ∉ e.key.toList) : parseEnv e.toCli = e := by
    have hcut : splitOnce '=' e.toCli.toList = some (e.key.toList, e.value.toList) := by
      rw [EnvVar.toCli, String.toList_append, String.toList_append, List.append_assoc]
      exact splitOnce_append h _
    rw [parseEnv, hcut]
    simp
  apply hback
  unfold parseEnv
  split
  · next k x h =>
    rw [String.toList_ofList]
    exact (splitOnce_eq_some.1 h).2
  · next h => exact splitOnce_eq_none.1 h

/-! ## Flags and their values -/

/-- A flag, and its value if it is in the same argument. -/
def cutFlag (a : String) : String × Option String :=
  match splitOnce '=' a.toList with
  | some (f, v) => (String.ofList f, some (String.ofList v))
  | none => (a, none)

/-- The arguments as they are taken apart: the known flags with their values, and what begins with the
image. A flag that is not known has no value. -/
def splitFlags : List String → List (String × String) × List String
  | [] => ([], [])
  | a :: rest =>
    if a = "--" then ([], rest)
    else if a.toList.head? ≠ some '-' then ([], a :: rest)
    else if (cutFlag a).1 ∉ knownFlags then splitFlags rest
    else
      match (cutFlag a).2 with
      | some v => (((cutFlag a).1, v) :: (splitFlags rest).1, (splitFlags rest).2)
      | none =>
        match rest with
        | v :: rest => (((cutFlag a).1, v) :: (splitFlags rest).1, (splitFlags rest).2)
        | [] => ([], [])

theorem splitFlags_cons (a : String) (rest : List String) : splitFlags (a :: rest) =
    if a = "--" then ([], rest)
    else if a.toList.head? ≠ some '-' then ([], a :: rest)
    else if (cutFlag a).1 ∉ knownFlags then splitFlags rest
    else
      match (cutFlag a).2 with
      | some v => (((cutFlag a).1, v) :: (splitFlags rest).1, (splitFlags rest).2)
      | none =>
        match rest with
        | v :: rest => (((cutFlag a).1, v) :: (splitFlags rest).1, (splitFlags rest).2)
        | [] => ([], []) := by
  rw [splitFlags.eq_def]

/-- What flags do to a specification, one after the other. -/
def setFlags (flags : List (String × String)) (spec : ContainerSpec) :
    Except RuntimeError ContainerSpec :=
  flags.foldlM (fun spec p => setFlag spec p.1 p.2) spec

/-- The specification keeps its unknown flags. -/
theorem setFlag_extra {spec spec' : ContainerSpec} {flag value : String}
    (h : setFlag spec flag value = .ok spec') : spec'.extra = spec.extra := by
  unfold setFlag at h
  repeat' split at h
  all_goals first
    | (cases h; rfl)
    | (obtain ⟨x, -, h⟩ := bind_eq_ok_iff.1 h; cases h; rfl)

theorem setFlags_cons {p : String × String} {flags : List (String × String)}
    {spec spec' : ContainerSpec} : setFlags (p :: flags) spec = .ok spec' ↔
      ∃ s, setFlag spec p.1 p.2 = .ok s ∧ setFlags flags s = .ok spec' := bind_eq_ok_iff

/-- Without unknown flags the loop does what the flags do. -/
theorem parseFlags_ok {args rest : List String} {spec spec' : ContainerSpec}
    (h : parseFlags args spec = .ok (spec', rest)) : ∃ new, spec'.extra = spec.extra ++ new ∧
      (new = [] → (splitFlags args).2 = rest ∧ setFlags (splitFlags args).1 spec = .ok spec') := by
  fun_induction parseFlags args spec with
  | case1 =>
    cases h
    exact ⟨[], (List.append_nil _).symm, fun _ => ⟨rfl, rfl⟩⟩
  | case2 rest' spec =>
    cases h
    rw [splitFlags_cons, if_pos rfl]
    exact ⟨[], (List.append_nil _).symm, fun _ => ⟨rfl, rfl⟩⟩
  | case3 a rest' spec ha hdash =>
    cases h
    rw [splitFlags_cons, if_neg ha, if_pos hdash]
    exact ⟨[], (List.append_nil _).symm, fun _ => ⟨rfl, rfl⟩⟩
  | case4 a spec ha hdash flag hk v rest' hcut ih =>
    obtain ⟨s, hs, h⟩ := bind_eq_ok_iff.1 h
    obtain ⟨new, hextra, hnew⟩ := ih s h
    have hsplit : splitFlags (a :: rest') = ((flag, v) :: (splitFlags rest').1, (splitFlags rest').2) := by
      rw [splitFlags_cons, if_neg ha, if_neg hdash, show cutFlag a = (flag, some v) from hcut,
        if_neg (not_not.2 hk)]
    refine ⟨new, setFlag_extra hs ▸ hextra, fun hnil => ?_⟩
    rw [hsplit]
    exact ⟨(hnew hnil).1, setFlags_cons.2 ⟨s, hs, (hnew hnil).2⟩⟩
  | case5 a spec ha hdash flag hk v rest' hcut ih =>
    obtain ⟨s, hs, h⟩ := bind_eq_ok_iff.1 h
    obtain ⟨new, hextra, hnew⟩ := ih s h
    have hsplit : splitFlags (a :: v :: rest') =
        ((flag, v) :: (splitFlags rest').1, (splitFlags rest').2) := by
      rw [splitFlags_cons, if_neg ha, if_neg hdash, show cutFlag a = (flag, none) from hcut,
        if_neg (not_not.2 hk)]
    refine ⟨new, setFlag_extra hs ▸ hextra, fun hnil => ?_⟩
    rw [hsplit]
    exact ⟨(hnew hnil).1, setFlags_cons.2 ⟨s, hs, (hnew hnil).2⟩⟩
  | case6 => cases h
  | case7 a rest' spec ha hdash flag inline hcut hk ih =>
    obtain ⟨new, hextra, -⟩ := ih h
    refine ⟨a :: new, by rw [hextra, List.append_assoc]; rfl, nofun⟩

/-- Nothing is read twice: what is left is shorter when there was a flag. -/
theorem parseFlags_length {args rest : List String} {spec spec' : ContainerSpec}
    (h : parseFlags args spec = .ok (spec', rest)) : rest.length ≤ args.length ∧
      ∀ a ∈ args.head?, a.toList.head? = some '-' → rest.length < args.length := by
  fun_induction parseFlags args spec with
  | case1 =>
    cases h
    exact ⟨Nat.le_refl _, nofun⟩
  | case2 rest' spec =>
    cases h
    exact ⟨Nat.le_succ _, fun _ _ _ => Nat.lt_succ_self _⟩
  | case3 a rest' spec ha hdash =>
    cases h
    refine ⟨Nat.le_refl _, ?_⟩
    rintro _ ⟨⟩ h
    exact absurd h hdash
  | case4 a spec ha hdash flag hk v rest' hcut ih =>
    obtain ⟨s, -, h⟩ := bind_eq_ok_iff.1 h
    have hlt := Nat.lt_succ_of_le (ih s h).1
    exact ⟨Nat.le_of_lt hlt, fun _ _ _ => hlt⟩
  | case5 a spec ha hdash flag hk v rest' hcut ih =>
    obtain ⟨s, -, h⟩ := bind_eq_ok_iff.1 h
    have hlt := Nat.lt_succ_of_le (Nat.le_succ_of_le (ih s h).1)
    exact ⟨Nat.le_of_lt hlt, fun _ _ _ => hlt⟩
  | case6 => cases h
  | case7 a rest' spec ha hdash flag inline hcut hk ih =>
    have hlt := Nat.lt_succ_of_le (ih h).1
    exact ⟨Nat.le_of_lt hlt, fun _ _ _ => hlt⟩

/-! ## What flags gather -/

def valuesOf (names : List String) (flags : List (String × String)) : List String :=
  (flags.filter fun p => decide (p.1 ∈ names)).map Prod.snd

/-- Ports, mounts and variables are those of the values given for them, in their order. -/
structure Gathers (flags : List (String × String)) (spec spec' : ContainerSpec) : Prop where
  ports : ∃ ps, List.Forall₂ (fun v p => parsePort v = .ok p) (valuesOf ["-p", "--publish"] flags) ps ∧
    spec'.ports = spec.ports ++ ps
  mounts : ∃ ms, List.Forall₂ (fun v m => parseMount v = .ok m) (valuesOf ["-v", "--volume"] flags) ms ∧
    spec'.mounts = spec.mounts ++ ms
  envs : spec'.envs = spec.envs ++ (valuesOf ["-e", "--env"] flags).map parseEnv

theorem valuesOf_append (names : List String) (fs gs : List (String × String)) :
    valuesOf names (fs ++ gs) = valuesOf names fs ++ valuesOf names gs := by
  rw [valuesOf, List.filter_append, List.map_append]
  rfl

theorem valuesOf_singleton (names : List String) (flag value : String) :
    valuesOf names [(flag, value)] = if flag ∈ names then [value] else [] := by
  unfold valuesOf
  split
  · next h => rw [List.filter_cons_of_pos (by simpa using h)]; rfl
  · next h => rw [List.filter_cons_of_neg (by simpa using h)]; rfl

/-- A flag of another kind leaves them as they are. -/
theorem gathers_of_other {spec spec' : ContainerSpec} {flag value : String}
    (hp : flag ∉ ["-p", "--publish"]) (hv : flag ∉ ["-v", "--volume"]) (he : flag ∉ ["-e", "--env"])
    (hports : spec'.ports = spec.ports) (hmounts : spec'.mounts = spec.mounts)
    (henvs : spec'.envs = spec.envs) : Gathers [(flag, value)] spec spec' where
  ports := ⟨[], by rw [valuesOf_singleton, if_neg hp]; exact .nil, by rw [hports, List.append_nil]⟩
  mounts := ⟨[], by rw [valuesOf_singleton, if_neg hv]; exact .nil, by rw [hmounts, List.append_nil]⟩
  envs := by rw [valuesOf_singleton, if_neg he, henvs, List.map_nil, List.append_nil]

theorem setFlag_gathers {spec spec' : ContainerSpec} {flag value : String}
    (h : setFlag spec flag value = .ok spec') : Gathers [(flag, value)] spec spec' := by
  have hother : ∀ f ∈ ["--network", "--net", "--hostname", "-h", "--restart", "--entrypoint"],
      f ∉ ["-p", "--publish"] ∧ f ∉ ["-v", "--volume"] ∧ f ∉ ["-e", "--env"] := by decide
  have hports : ∀ f ∈ ["-p", "--publish"], f ∉ ["-v", "--volume"] ∧ f ∉ ["-e", "--env"] := by decide
  have hmounts : ∀ f ∈ ["-v", "--volume"], f ∉ ["-e", "--env"] := by decide
  unfold setFlag at h
  split at h
  · next hf =>
    cases h
    obtain ⟨hp, hv, he⟩ := hother flag
      (List.mem_append_left ["--hostname", "-h", "--restart", "--entrypoint"] hf)
    exact gathers_of_other hp hv he rfl rfl rfl
  split at h
  · next hf =>
    cases h
    obtain ⟨hp, hv, he⟩ := hother flag (by simp only [List.mem_cons] at hf ⊢; tauto)
    exact gathers_of_other hp hv he rfl rfl rfl
  split at h
  · next hf =>
    obtain ⟨p, hp, h⟩ := bind_eq_ok_iff.1 h
    cases h
    obtain ⟨hv, he⟩ := hports flag hf
    refine ⟨⟨[p], ?_, rfl⟩, ⟨[], ?_, (List.append_nil _).symm⟩, ?_⟩
    · rw [valuesOf_singleton, if_pos hf]
      exact .cons hp .nil
    · rw [valuesOf_singleton, if_neg hv]
      exact .nil
    · rw [valuesOf_singleton, if_neg he, List.map_nil, List.append_nil]
  next hp =>
  split at h
  · next hf =>
    obtain ⟨m, hm, h⟩ := bind_eq_ok_iff.1 h
    cases h
    refine ⟨⟨[], ?_, (List.append_nil _).symm⟩, ⟨[m], ?_, rfl⟩, ?_⟩
    · rw [valuesOf_singleton, if_neg hp]
      exact .nil
    · rw [valuesOf_singleton, if_pos hf]
      exact .cons hm .nil
    · rw [valuesOf_singleton, if_neg (hmounts flag hf), List.map_nil, List.append_nil]
  next hv =>
  split at h
  · next hf =>
    cases h
    refine ⟨⟨[], ?_, (List.append_nil _).symm⟩, ⟨[], ?_, (List.append_nil _).symm⟩, ?_⟩
    · rw [valuesOf_singleton, if_neg hp]
      exact .nil
    · rw [valuesOf_singleton, if_neg hv]
      exact .nil
    · rw [valuesOf_singleton, if_pos hf]
      rfl
  next he =>
  split at h
  · cases h
    exact gathers_of_other hp hv he rfl rfl rfl
  split at h
  · cases h
    exact gathers_of_other hp hv he rfl rfl rfl
  · cases h
    exact gathers_of_other hp hv he rfl rfl rfl

theorem setFlags_gathers {flags : List (String × String)} {spec spec' : ContainerSpec}
    (h : setFlags flags spec = .ok spec') : Gathers flags spec spec' := by
  induction flags generalizing spec with
  | nil =>
    cases h
    exact ⟨⟨[], .nil, (List.append_nil _).symm⟩, ⟨[], .nil, (List.append_nil _).symm⟩,
      (List.append_nil _).symm⟩
  | cons p flags ih =>
    obtain ⟨s, hs, h⟩ := setFlags_cons.1 h
    obtain ⟨⟨ps, hps, hports⟩, ⟨ms, hms, hmounts⟩, henvs⟩ := setFlag_gathers hs
    obtain ⟨⟨ps', hps', hports'⟩, ⟨ms', hms', hmounts'⟩, henvs'⟩ := ih h
    have hcons (names : List String) :
        valuesOf names (p :: flags) = valuesOf names [p] ++ valuesOf names flags :=
      valuesOf_append names [p] flags
    refine ⟨⟨ps ++ ps', ?_, ?_⟩, ⟨ms ++ ms', ?_, ?_⟩, ?_⟩
    · rw [hcons]
      exact List.rel_append hps hps'
    · rw [hports', hports, List.append_assoc]
    · rw [hcons]
      exact List.rel_append hms hms'
    · rw [hmounts', hmounts, List.append_assoc]
    · rw [hcons, henvs', henvs, List.map_append, List.append_assoc]

theorem valuesOf_map {α : Type} (names : List String) (flag : String) (cli : α → String) (l : List α) :
    valuesOf names (l.map fun x => (flag, cli x)) = if flag ∈ names then l.map cli else [] := by
  rw [valuesOf, List.filter_map, List.map_map]
  split
  · next h =>
    rw [List.filter_eq_self.2 fun x _ => by simpa using h]
    rfl
  · next h =>
    rw [List.filter_eq_nil_iff.2 fun x _ => by simpa using h]
    rfl

/-! ## Reading what was rendered -/

theorem parseFlags_spread {flags : List (String × String)} (hk : ∀ p ∈ flags, p.1 ∈ knownFlags)
    (rest : List String) (spec : ContainerSpec) :
    parseFlags (spread flags ++ rest) spec = setFlags flags spec >>= parseFlags rest := by
  have hflag : ∀ f ∈ knownFlags, f ≠ "--" ∧ f.toList.head? = some '-' ∧ '=' ∉ f.toList := by decide
  induction flags generalizing spec with
  | nil => rfl
  | cons p flags ih =>
    obtain ⟨f, v⟩ := p
    have hf : f ∈ knownFlags := hk (f, v) List.mem_cons_self
    obtain ⟨hne, hdash, heq⟩ := hflag f hf
    have hstep : parseFlags (f :: v :: (spread flags ++ rest)) spec =
        setFlag spec f v >>= parseFlags (spread flags ++ rest) := by
      rw [parseFlags.eq_def]
      dsimp only
      rw [if_neg hne, if_neg (not_not.2 hdash), splitOnce_eq_none.2 heq]
      dsimp only
      rw [if_pos hf]
    show parseFlags (f :: v :: (spread flags ++ rest)) spec = _
    rw [hstep, setFlags, List.foldlM_cons, bind_assoc]
    congr 1
    funext s
    exact ih (fun q hq => hk q (List.mem_cons_of_mem _ hq)) s

theorem setFlags_append {fs gs : List (String × String)} {spec s s' : ContainerSpec}
    (h : setFlags fs spec = .ok s) (h' : setFlags gs s = .ok s') : setFlags (fs ++ gs) spec = .ok s' := by
  rw [setFlags, List.foldlM_append]
  exact bind_eq_ok_iff.2 ⟨s, h, h'⟩

/-- One flag for each member of a list. -/
theorem setFlags_map {α : Type} {flag : String} {cli : α → String}
    {set : ContainerSpec → α → ContainerSpec} {l : List α}
    (h : ∀ x ∈ l, ∀ s, setFlag s flag (cli x) = .ok (set s x)) (spec : ContainerSpec) :
    setFlags (l.map fun x => (flag, cli x)) spec = .ok (l.foldl set spec) := by
  induction l generalizing spec with
  | nil => rfl
  | cons x l ih =>
    exact setFlags_cons.2 ⟨set spec x, h x List.mem_cons_self spec,
      ih (fun y hy => h y (List.mem_cons_of_mem x hy)) (set spec x)⟩

/-- A flag for a value that may be missing. -/
theorem setFlags_option (flag : String) (set : ContainerSpec → Option String → ContainerSpec)
    (spec : ContainerSpec) (h : ∀ v, setFlag spec flag v = .ok (set spec (some v)))
    (hnone : set spec none = spec) (o : Option String) :
    setFlags (o.toList.map fun v => (flag, v)) spec = .ok (set spec o) := by
  cases o with
  | none => exact congrArg Except.ok hnone.symm
  | some v => exact setFlags_cons.2 ⟨_, h v, rfl⟩

theorem known_of_mem_flags {spec : ContainerSpec} {p : String × String} (h : p ∈ spec.flags) :
    p.1 ∈ knownFlags := by
  simp only [ContainerSpec.flags, List.mem_append, List.mem_map] at h
  rcases h with (((((⟨x, -, rfl⟩ | ⟨x, -, rfl⟩) | ⟨x, -, rfl⟩) | ⟨x, -, rfl⟩) | ⟨x, -, rfl⟩) |
    ⟨x, -, rfl⟩) | ⟨x, -, rfl⟩
  all_goals simp [knownFlags]

/-- The values that are rendered for ports, mounts and variables. -/
theorem valuesOf_flags (spec : ContainerSpec) :
    valuesOf ["-p", "--publish"] spec.flags = spec.ports.map PortMapping.toCli ∧
      valuesOf ["-v", "--volume"] spec.flags = spec.mounts.map Mount.toCli ∧
        valuesOf ["-e", "--env"] spec.flags = spec.envs.map EnvVar.toCli := by
  have hsame (names : List String) (flag : String) (l : List String) :
      valuesOf names (l.map fun v => (flag, v)) = if flag ∈ names then l else [] := by
    rw [valuesOf_map names flag (fun v => v), List.map_id']
  refine ⟨?_, ?_, ?_⟩
  all_goals simp [ContainerSpec.flags, valuesOf_append, valuesOf_map, hsame]

/-- Every item of a specification is read back from its text. -/
structure ItemsRead (spec : ContainerSpec) : Prop where
  ports : ∀ p ∈ spec.ports, parsePort p.toCli = .ok p
  mounts : ∀ m ∈ spec.mounts, parseMount m.toCli = .ok m
  envs : ∀ e ∈ spec.envs, parseEnv e.toCli = e

theorem foldl_ports (ps : List PortMapping) (s : ContainerSpec) :
    ps.foldl (fun s p => { s with ports := s.ports ++ [p] }) s = { s with ports := s.ports ++ ps } := by
  induction ps generalizing s with
  | nil => rw [List.foldl_nil, List.append_nil]
  | cons p ps ih => rw [List.foldl_cons, ih, List.append_assoc, List.singleton_append]

theorem foldl_mounts (ms : List Mount) (s : ContainerSpec) :
    ms.foldl (fun s m => { s with mounts := s.mounts ++ [m] }) s = { s with mounts := s.mounts ++ ms } := by
  induction ms generalizing s with
  | nil => rw [List.foldl_nil, List.append_nil]
  | cons m ms ih => rw [List.foldl_cons, ih, List.append_assoc, List.singleton_append]

theorem foldl_envs (es : List EnvVar) (s : ContainerSpec) :
    es.foldl (fun s e => { s with envs := s.envs ++ [e] }) s = { s with envs := s.envs ++ es } := by
  induction es generalizing s with
  | nil => rw [List.foldl_nil, List.append_nil]
  | cons e es ih => rw [List.foldl_cons, ih, List.append_assoc, List.singleton_append]

/-- The flags of a specification bring back all but what stands behind them. -/
theorem setFlags_flags {spec : ContainerSpec} (h : ItemsRead spec) (name : String)
    (legacyArgs : List String) :
    setFlags spec.flags { name, image := "", legacyArgs } =
      .ok { spec with name, image := "", command := [], extra := [], legacyArgs } := by
  have hports (s : ContainerSpec) (hs : s.ports = []) :
      setFlags (spec.ports.map fun p => ("-p", p.toCli)) s = .ok { s with ports := spec.ports } := by
    have hone : ∀ p ∈ spec.ports, ∀ s, setFlag s "-p" p.toCli = .ok { s with ports := s.ports ++ [p] } := by
      intro p hp s
      show (parsePort p.toCli >>= fun p => .ok { s with ports := s.ports ++ [p] }) = _
      rw [h.ports p hp]
      rfl
    rw [setFlags_map hone, foldl_ports, hs, List.nil_append]
  have hmounts (s : ContainerSpec) (hs : s.mounts = []) :
      setFlags (spec.mounts.map fun m => ("-v", m.toCli)) s = .ok { s with mounts := spec.mounts } := by
    have hone : ∀ m ∈ spec.mounts, ∀ s, setFlag s "-v" m.toCli = .ok { s with mounts := s.mounts ++ [m] } := by
      intro m hm s
      show (parseMount m.toCli >>= fun m => .ok { s with mounts := s.mounts ++ [m] }) = _
      rw [h.mounts m hm]
      rfl
    rw [setFlags_map hone, foldl_mounts, hs, List.nil_append]
  have henvs (s : ContainerSpec) (hs : s.envs = []) :
      setFlags (spec.envs.map fun e => ("-e", e.toCli)) s = .ok { s with envs := spec.envs } := by
    have hone : ∀ e ∈ spec.envs, ∀ s, setFlag s "-e" e.toCli = .ok { s with envs := s.envs ++ [e] } := by
      intro e he s
      show Except.ok { s with envs := s.envs ++ [parseEnv e.toCli] } = _
      rw [h.envs e he]
    rw [setFlags_map hone, foldl_envs, hs, List.nil_append]
  -- one kind of flag after the other, as they are rendered
  have h1 := setFlags_option "--network" (fun s o => { s with network := o })
    { name, image := "", legacyArgs } (fun _ => rfl) rfl spec.network
  have h2 := setFlags_append h1 (setFlags_option "--hostname" (fun s o => { s with hostname := o }) _
    (fun _ => rfl) rfl spec.hostname)
  have h3 := setFlags_append h2 (hports _ rfl)
  have h4 := setFlags_append h3 (hmounts _ rfl)
  have h5 := setFlags_append h4 (henvs _ rfl)
  have h6 := setFlags_append h5 (setFlags_option "--restart"
    (fun s o => { s with restartPolicy := o }) _ (fun _ => rfl) rfl spec.restartPolicy)
  exact setFlags_append h6 (setFlags_option "--entrypoint" (fun s o => { s with entrypoint := o }) _
    (fun _ => rfl) rfl spec.entrypoint)

/-! ## Round trips -/

theorem parseFlags_image {a : String} (h : a.toList.head? ≠ some '-') (rest : List String)
    (spec : ContainerSpec) : parseFlags (a :: rest) spec = .ok (spec, a :: rest) := by
  rw [parseFlags.eq_def]
  dsimp only
  rw [if_neg fun heq => h (by rw [heq]; rfl), if_pos h]

theorem dockerArgsToSpec_ok {name : String} {args : List String} {spec : ContainerSpec} :
    dockerArgsToSpec name args = .ok spec ↔ ∃ s rest,
      parseFlags args { name, image := "", legacyArgs := args } = .ok (s, rest) ∧ rest.headD "" ≠ "" ∧
        spec = { s with image := rest.headD "", command := rest.tail } := by
  rw [dockerArgsToSpec, bind_eq_ok_iff]
  constructor
  · rintro ⟨⟨s, rest⟩, hp, h⟩
    dsimp only at h
    split at h
    · cases h
    · next hi =>
      cases h
      exact ⟨s, rest, hp, hi, rfl⟩
  · rintro ⟨s, rest, hp, hi, rfl⟩
    exact ⟨(s, rest), hp, if_neg hi⟩

/-- A specification without unknown flags is read back exactly when its items are and its image does
not look like a flag. -/
theorem read_renderArgs_iff {spec : ContainerSpec} (hx : spec.extra = []) (hl : spec.legacyArgs = [])
    (hi : spec.image ≠ "") :
    (dockerArgsToSpec spec.name (renderArgs spec)).map ContainerSpec.cleared = .ok spec ↔
      spec.image.toList.head? ≠ some '-' ∧ ItemsRead spec := by
  have hargs : renderArgs spec = spread spec.flags ++ spec.image :: spec.command := by
    rw [renderArgs, if_neg (not_not.2 hl), hx, List.append_nil]
  have hknown : ∀ p ∈ spec.flags, p.1 ∈ knownFlags := fun p => known_of_mem_flags
  have hread := parseFlags_spread hknown (spec.image :: spec.command)
    { name := spec.name, image := "", legacyArgs := renderArgs spec }
  rw [← hargs] at hread
  constructor
  · intro h
    obtain ⟨s', hs', hback⟩ : ∃ s', dockerArgsToSpec spec.name (renderArgs spec) = .ok s' ∧
        s'.cleared = spec := by
      cases hd : dockerArgsToSpec spec.name (renderArgs spec) with
      | error e =>
        rw [hd] at h
        cases h
      | ok s' =>
        rw [hd] at h
        exact ⟨s', rfl, Except.ok.inj h⟩
    obtain ⟨s, rest, hparse, hne, rfl⟩ := dockerArgsToSpec_ok.1 hs'
    rw [hread, bind_eq_ok_iff] at hparse
    obtain ⟨s₁, hset, hparse⟩ := hparse
    have hcommand : rest.tail = spec.command := congrArg ContainerSpec.command hback
    have hdash : spec.image.toList.head? ≠ some '-' := by
      intro hd
      -- the image is taken for a flag, and what is left is too short for the command
      have hlt := (parseFlags_length hparse).2 spec.image rfl hd
      cases rest with
      | nil => exact hne rfl
      | cons i rest =>
        rw [← hcommand] at hlt
        simp at hlt
    rw [parseFlags_image hdash] at hparse
    cases hparse
    obtain ⟨⟨ps, hps, hports⟩, ⟨ms, hms, hmounts⟩, henvs⟩ := setFlags_gathers hset
    have hports' : s.ports = spec.ports := (congrArg ContainerSpec.ports hback :)
    have hmounts' : s.mounts = spec.mounts := (congrArg ContainerSpec.mounts hback :)
    have henvs' : s.envs = spec.envs := (congrArg ContainerSpec.envs hback :)
    obtain ⟨hvp, hvm, hve⟩ := valuesOf_flags spec
    rw [hvp, List.forall₂_map_left_iff, ← List.nil_append ps, ← hports, hports'] at hps
    rw [hvm, List.forall₂_map_left_iff, ← List.nil_append ms, ← hmounts, hmounts'] at hms
    rw [hve, henvs', List.nil_append, List.map_map] at henvs
    exact ⟨hdash, List.forall₂_same.1 hps, List.forall₂_same.1 hms,
      List.map_inj_left.1 (henvs.symm.trans (List.map_id _).symm)⟩
  · rintro ⟨hdash, hitems⟩
    rw [setFlags_flags hitems] at hread
    have hok := dockerArgsToSpec_ok.2 ⟨_, _, hread.trans (parseFlags_image hdash _ _), hi, rfl⟩
    rw [hok]
    obtain ⟨name, image, hostname, network, ports, mounts, envs, command, entrypoint, restartPolicy,
      extra, legacyArgs⟩ := spec
    cases hx
    cases hl
    rfl

/-- The arguments that give a specification which is read back: the image does not look like a flag, and
no value of a port ends in its only slash and none of a mount in two modes. -/
structure Renderable (args : List String) : Prop where
  image : ∀ i ∈ (splitFlags args).2.head?, i.toList.head? ≠ some '-'
  ports : ∀ v ∈ valuesOf ["-p", "--publish"] (splitFlags args).1, ¬ PortMapping.EmptyProto v
  mounts : ∀ v ∈ valuesOf ["-v", "--volume"] (splitFlags args).1, ¬ Mount.ModeTwice v

theorem forall_mem_iff_of_forall₂ {α β : Type} {R : α → β → Prop} {P : β → Prop} {Q : α → Prop}
    (h : ∀ a b, R a b → (P b ↔ Q a)) {as : List α} {bs : List β} (hr : List.Forall₂ R as bs) :
    (∀ b ∈ bs, P b) ↔ ∀ a ∈ as, Q a := by
  induction hr with
  | nil => simp
  | cons hab _ ih => rw [List.forall_mem_cons, List.forall_mem_cons, h _ _ hab, ih]

/-- What a specification without unknown flags was read from. -/
theorem read_of_args {name : String} {args : List String} {spec : ContainerSpec}
    (h : dockerArgsToSpec name args = .ok spec) (hx : spec.extra = []) :
    ((splitFlags args).2.head? = some spec.image ∧ spec.image ≠ "") ∧
      List.Forall₂ (fun v p => parsePort v = .ok p)
        (valuesOf ["-p", "--publish"] (splitFlags args).1) spec.ports ∧
      List.Forall₂ (fun v m => parseMount v = .ok m)
        (valuesOf ["-v", "--volume"] (splitFlags args).1) spec.mounts ∧
      spec.envs = (valuesOf ["-e", "--env"] (splitFlags args).1).map parseEnv := by
  obtain ⟨s, rest, hparse, hi, rfl⟩ := dockerArgsToSpec_ok.1 h
  obtain ⟨new, hextra, hnew⟩ := parseFlags_ok hparse
  obtain ⟨rfl, hset⟩ := hnew (hextra.symm.trans hx)
  obtain ⟨⟨ps, hps, hports⟩, ⟨ms, hms, hmounts⟩, henvs⟩ := setFlags_gathers hset
  rw [List.nil_append] at hports hmounts henvs
  refine ⟨⟨?_, hi⟩, hports ▸ hps, hmounts ▸ hms, henvs⟩
  cases hrest : (splitFlags args).2 with
  | nil =>
    rw [hrest] at hi
    exact absurd rfl hi
  | cons i rest => rfl

/-- The arguments that a specification without unknown flags is rendered to give it back, up to the
arguments it was read from, exactly when the arguments are renderable. -/
theorem render_round_trip_iff {name : String} {args : List String} {spec : ContainerSpec}
    (h : dockerArgsToSpec name args = .ok spec) (hx : spec.extra = []) :
    (dockerArgsToSpec spec.name (renderArgs spec.cleared)).map ContainerSpec.cleared =
      .ok spec.cleared ↔ Renderable args := by
  obtain ⟨⟨himage, hi⟩, hps, hms, henvs⟩ := read_of_args h hx
  have hp : (∀ p ∈ spec.ports, parsePort p.toCli = .ok p) ↔
      ∀ v ∈ valuesOf ["-p", "--publish"] (splitFlags args).1, ¬ PortMapping.EmptyProto v := by
    refine forall_mem_iff_of_forall₂ (fun v p hvp => ?_) hps
    obtain ⟨hwf, hproto⟩ := PortMapping.wf_of_parsePort hvp
    exact (PortMapping.roundTrips_iff hwf).trans (not_congr hproto)
  have hm : (∀ m ∈ spec.mounts, parseMount m.toCli = .ok m) ↔
      ∀ v ∈ valuesOf ["-v", "--volume"] (splitFlags args).1, ¬ Mount.ModeTwice v := by
    refine forall_mem_iff_of_forall₂ (fun v m hvm => ?_) hms
    exact Mount.roundTrips_iff hvm
  have he : ∀ e ∈ spec.envs, parseEnv e.toCli = e := by
    intro e he
    rw [henvs] at he
    obtain ⟨v, -, rfl⟩ := List.mem_map.1 he
    exact parseEnv_toCli v
  have hspec : (dockerArgsToSpec spec.name (renderArgs spec.cleared)).map ContainerSpec.cleared =
      .ok spec.cleared ↔ spec.image.toList.head? ≠ some '-' ∧ ItemsRead spec.cleared :=
    @read_renderArgs_iff spec.cleared hx rfl hi
  have hitems : ItemsRead spec.cleared ↔ (∀ p ∈ spec.ports, parsePort p.toCli = .ok p) ∧
      ∀ m ∈ spec.mounts, parseMount m.toCli = .ok m :=
    ⟨fun h => ⟨h.ports, h.mounts⟩, fun h => ⟨h.1, h.2, he⟩⟩
  rw [hspec, hitems, hp, hm]
  constructor
  · rintro ⟨hdash, hvp, hvm⟩
    refine ⟨fun i hmem => ?_, hvp, hvm⟩
    rw [himage] at hmem
    cases hmem
    exact hdash
  · exact fun hr => ⟨hr.image _ himage, hr.ports, hr.mounts⟩

theorem render_round_trip_iff_full : ∃ spec, dockerArgsToSpec "c1"
    ["--network=n", "-p", "127.0.0.1:80:3306/udp", "-v", "/etc/my.cnf:/etc/my.cnf:ro", "-e", "K",
      "mysql:8.0", "--", "-c"] = .ok spec ∧ spec.extra = [] ∧
    ((dockerArgsToSpec spec.name (renderArgs spec.cleared)).map ContainerSpec.cleared =
      .ok spec.cleared ↔ Renderable ["--network=n", "-p", "127.0.0.1:80:3306/udp", "-v",
        "/etc/my.cnf:/etc/my.cnf:ro", "-e", "K", "mysql:8.0", "--", "-c"]) := by
  have hread : (dockerArgsToSpec "c1" ["--network=n", "-p", "127.0.0.1:80:3306/udp", "-v",
      "/etc/my.cnf:/etc/my.cnf:ro", "-e", "K", "mysql:8.0", "--", "-c"]).toOption.map
        (fun s => s.extra) = some [] := by decide +kernel
  cases h : dockerArgsToSpec "c1" ["--network=n", "-p", "127.0.0.1:80:3306/udp", "-v",
      "/etc/my.cnf:/etc/my.cnf:ro", "-e", "K", "mysql:8.0", "--", "-c"] with
  | error e =>
    rw [h] at hread
    cases hread
  | ok spec =>
    rw [h] at hread
    have hx : spec.extra = [] := Option.some.inj hread
    exact ⟨spec, rfl, hx, render_round_trip_iff h hx⟩

/-- A mode that is given twice turns a mount into another one, that is only read. -/
theorem render_loses_mode : ¬ ∀ name args spec, dockerArgsToSpec name args = .ok spec →
    spec.extra = [] → (dockerArgsToSpec spec.name (renderArgs spec.cleared)).map ContainerSpec.cleared =
      .ok spec.cleared := by
  intro hall
  have hread : (dockerArgsToSpec "c1" ["-v", "/a:/b:ro:rw", "mysql:8.0"]).toOption.map (fun s =>
      (s.extra, decide (((dockerArgsToSpec s.name (renderArgs s.cleared)).map
        ContainerSpec.cleared).toOption = some s.cleared))) = some ([], false) := by decide +kernel
  cases h : dockerArgsToSpec "c1" ["-v", "/a:/b:ro:rw", "mysql:8.0"] with
  | error e =>
    rw [h] at hread
    cases hread
  | ok spec =>
    rw [h] at hread
    obtain ⟨hx, hback⟩ := Prod.ext_iff.1 (Option.some.inj hread)
    exact of_decide_eq_false hback (congrArg Except.toOption (hall "c1" _ spec h hx))

end Rdsctl.Agent
