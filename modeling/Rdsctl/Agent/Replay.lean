import Rdsctl.Agent.Handle
import Rdsctl.Lib.Run

/-!
# Idempotency keys

An agent with any number of requests on their way. The handler of a request looks its key up when it
arrives, executes it later, and stores the reply in three further steps: the temporary file is
created, written and renamed. `Exact` is what the keys are for: a stored reply is that of a request
with the key, and no key is executed twice. It holds in every run in which `Heeded` holds of every
step.
-/

namespace Rdsctl.Agent

open Ha ExecutorGuard

/-! ## Requests on their way -/

/-- How far a request is that was let through. -/
inductive Stage
  | executing
  /-- executed with success -/
  | answered (resp : Value)
  /-- the temporary file is open -/
  | created (resp : Value) (file : Nat)
  | written (resp : Value)

/-- The request was executed and its reply is not stored yet. -/
def Stage.storing : Stage → Bool
  | .executing => false
  | .answered _ | .created _ _ | .written _ => true

structure Task where
  req : Request
  stage : Stage

/-- The key that is looked up for a request and that its reply is stored under. -/
def Request.key (req : Request) : Option String := if req.mutating then req.idem else none

/-- An agent and the requests on their way, with what has happened: the keys that came in, the
replies of what was executed with success, and the stored replies that were given. -/
structure Traffic (W : Type) where
  agent : State W
  tasks : Nat → Option Task
  keys : List String
  executed : List (String × Value)
  replies : List (String × JsonText Value)

inductive Arrival
  | arrive (i : Nat) (req : Request)
  | execute (i : Nat)
  | create (i : Nat)
  | write (i : Nat)
  | rename (i : Nat)
  /-- a file operation of the store fails -/
  | fail (i : Nat)

section Traffic

variable {W : Type} (cfg : Config) (rt : WorkloadRuntime W)

/-- The key a request comes in with, when the handler gets as far as to look it up. -/
def asked (req : Request) : Option String :=
  match front cfg req with
  | some _ => none
  | none => req.key

namespace Traffic

/-- A request comes in and is looked up and checked. -/
def arrive (s : Traffic W) (i : Nat) (req : Request) : Traffic W :=
  let key := asked cfg req
  let cached := key.bind fun k => (s.agent.idem.get k).map fun body => (k, body)
  { s with
    agent := (admission cfg req s.agent).2
    tasks := match (admission cfg req s.agent).1 with
      | some _ => s.tasks
      | none => Function.update s.tasks i (some ⟨req, .executing⟩)
    keys := key.toList ++ s.keys
    replies := cached.toList ++ s.replies }

/-- A request is executed; only a success is stored. -/
def execute (s : Traffic W) (i : Nat) (req : Request) : Traffic W :=
  let resp := (respond cfg rt req s.agent.world).1
  let agent := { s.agent with world := (respond cfg rt req s.agent.world).2 }
  match storedAt req resp with
  | some key =>
    { s with
      agent
      tasks := Function.update s.tasks i (some ⟨req, .answered resp⟩)
      executed := (key, resp) :: s.executed }
  | none => { s with agent, tasks := Function.update s.tasks i none }

/-- A step of the store. -/
def put (s : Traffic W) (i : Nat) (d : IdemDir) (next : Option Task) : Traffic W :=
  { s with agent := { s.agent with idem := d }, tasks := Function.update s.tasks i next }

/-- One step of one request. -/
def step (s : Traffic W) : Arrival → Option (Traffic W)
  | .arrive i req => if (s.tasks i).isNone then some (s.arrive cfg i req) else none
  | .execute i =>
    match s.tasks i with
    | some ⟨req, .executing⟩ => some (s.execute cfg rt i req)
    | _ => none
  | .create i =>
    match s.tasks i with
    | some ⟨req, .answered resp⟩ => req.key.map fun key =>
      s.put i (s.agent.idem.create (tmpKey key)).2
        (some ⟨req, .created resp (s.agent.idem.create (tmpKey key)).1⟩)
    | _ => none
  | .write i =>
    match s.tasks i with
    | some ⟨req, .created resp file⟩ => req.key.map fun _ =>
      s.put i (s.agent.idem.write cfg.overwritten file (.ofValue resp)) (some ⟨req, .written resp⟩)
    | _ => none
  | .rename i =>
    match s.tasks i with
    | some ⟨req, .written _⟩ => req.key.map fun key =>
      s.put i ((s.agent.idem.rename (tmpKey key) (safeKey key)).getD s.agent.idem) none
    | _ => none
  | .fail i =>
    match s.tasks i with
    | some task => if task.stage.storing then some (s.put i s.agent.idem none) else none
    | none => none

/-- An agent with nothing stored and no request on its way. -/
structure Initial (s : Traffic W) : Prop where
  idem : s.agent.idem = .empty
  tasks : ∀ i, s.tasks i = none
  keys : s.keys = []
  executed : s.executed = []
  replies : s.replies = []

/-! ## What the keys are for -/

/-- A stored reply is that of a request with exactly the key, no key is executed twice with success,
and at no time two requests of a key are on their way. -/
structure Exact (s : Traffic W) : Prop where
  replayed : ∀ p ∈ s.replies, ∃ resp, p.2 = .ofValue resp ∧ (p.1, resp) ∈ s.executed
  once : (s.executed.map Prod.fst).Nodup
  alone : ∀ i j t t', s.tasks i = some t → s.tasks j = some t' → t.req.key = t'.req.key →
    t.req.key ≠ none → i = j
  settled : ∀ i t k, s.tasks i = some t → t.stage.storing = false → t.req.key = some k →
    k ∉ s.executed.map Prod.fst

/-- Neither key is stored in, or through, the file of the other. -/
def Apart (key key' : String) : Prop :=
  safeKey key ≠ safeKey key' ∧ tmpKey key ≠ safeKey key' ∧ tmpKey key' ≠ safeKey key

instance (key key' : String) : Decidable (Apart key key') :=
  inferInstanceAs (Decidable (_ ∧ _ ∧ _))

/-- A request comes in whose key is apart from the other keys that came in, while no request that
is stored through the same temporary file is on its way; and no file operation of a store fails. -/
def Heeded (s : Traffic W) : Arrival → Prop
  | .arrive _ req => ∀ k, asked cfg req = some k →
      (∀ k' ∈ s.keys, k' ≠ k → Apart k k') ∧
      ∀ i t k', s.tasks i = some t → t.req.key = some k' → tmpKey k' ≠ tmpKey k
  | .fail _ => False
  | .execute _ | .create _ | .write _ | .rename _ => True

/-- The runs of an agent whose steps are all heeded. -/
abbrev HeededRun : History (Traffic W) Arrival → Traffic W → Prop :=
  Run (step cfg rt) (fun _ s e => Heeded cfg s e) Initial

end Traffic

end Traffic

/-! ## The directory by names -/

namespace IdemDir

/-- What the file of a name holds. -/
def content (d : IdemDir) (name : String) : Option (Option (JsonText Value)) :=
  (d.names name).map d.files

/-- No file has two names. -/
structure Ok (d : IdemDir) : Prop where
  inj : ∀ n n' f, d.names n = some f → d.names n' = some f → n = n'
  below : ∀ n f, d.names n = some f → f < d.next

/-- Two directories agree but on some names. -/
def SameBut (names : List String) (d d' : IdemDir) : Prop :=
  ∀ n, n ∉ names → d'.names n = d.names n ∧ d'.content n = d.content n

theorem get_eq (d : IdemDir) (key : String) :
    d.get key = (d.content (safeKey key)).map fun c => c.getD (.malformed "") := by
  unfold get content
  rw [Option.map_map]
  rfl

theorem content_eq {d : IdemDir} {n : String} {f : Nat} (h : d.names n = some f) :
    d.content n = some (d.files f) := by
  rw [content, h, Option.map_some]

/-- Changing one file leaves what the others hold. -/
theorem sameBut_update {d : IdemDir} (hd : d.Ok) {name : String} {file : Nat}
    (hfile : d.names name = some file) (c : Option (JsonText Value)) :
    SameBut [name] d { d with files := Function.update d.files file c } := by
  intro n hn
  refine ⟨rfl, ?_⟩
  unfold content
  rcases hnf : d.names n with _ | f
  · rfl
  · have hne : f ≠ file := by
      rintro rfl
      exact hn (by rw [hd.inj n name f hnf hfile]; exact .head _)
    simp only [Option.map_some, Function.update_of_ne hne]

/-- `File::create` makes an empty file of that name and leaves the others. -/
theorem create_spec {d : IdemDir} (hd : d.Ok) (name : String) :
    (d.create name).2.Ok ∧ (d.create name).2.names name = some (d.create name).1 ∧
      (d.create name).2.files (d.create name).1 = none ∧ SameBut [name] d (d.create name).2 := by
  unfold create
  rcases hname : d.names name with _ | file
  · simp only []
    refine ⟨⟨?_, ?_⟩, Function.update_self .., Function.update_self .., ?_⟩
    · intro n n' f hn hn'
      simp only [Function.update_apply] at hn hn'
      split at hn
      · next h =>
        cases hn
        split at hn'
        · next h' => rw [h, h']
        · exact absurd (hd.below n' _ hn') (Nat.lt_irrefl _)
      · split at hn'
        · cases hn'
          exact absurd (hd.below n _ hn) (Nat.lt_irrefl _)
        · exact hd.inj n n' f hn hn'
    · intro n f hn
      simp only [Function.update_apply] at hn
      split at hn
      · cases hn
        exact Nat.lt_succ_self _
      · exact Nat.lt_succ_of_lt (hd.below n f hn)
    · intro n hn
      have hne : n ≠ name := fun h => hn (by rw [h]; exact .head _)
      unfold content
      simp only [Function.update_of_ne hne]
      rcases hnf : d.names n with _ | f
      · exact ⟨trivial, rfl⟩
      · have hfresh : f ≠ d.next := (hd.below n f hnf).ne
        simp only [Option.map_some, Function.update_of_ne hfresh]
        exact ⟨trivial, trivial⟩
  · exact ⟨⟨hd.inj, hd.below⟩, hname, Function.update_self .., sameBut_update hd hname none⟩

/-- Writing an empty file leaves the others. -/
theorem write_spec {d : IdemDir} (hd : d.Ok) {name : String} {file : Nat}
    (hfile : d.names name = some file) (hempty : d.files file = none)
    (overwritten : JsonText Value → JsonText Value → JsonText Value) (body : JsonText Value) :
    (d.write overwritten file body).Ok ∧
      (d.write overwritten file body).content name = some (some body) ∧
      SameBut [name] d (d.write overwritten file body) := by
  unfold write
  rw [hempty]
  refine ⟨⟨hd.inj, hd.below⟩, ?_, sameBut_update hd hfile (some body)⟩
  simp only [content, hfile, Option.map_some, Function.update_self]

/-- `rename` moves a file and leaves the others. -/
theorem rename_spec {d : IdemDir} (hd : d.Ok) {src : String} {c : Option (JsonText Value)}
    (hsrc : d.content src = some c) (dest : String) :
    ∃ d', d.rename src dest = some d' ∧ d'.Ok ∧ d'.content dest = some c ∧
      SameBut [src, dest] d d' := by
  unfold content at hsrc
  rcases hfile : d.names src with _ | file
  · rw [hfile] at hsrc
    cases hsrc
  rw [hfile, Option.map_some, Option.some.injEq] at hsrc
  unfold rename
  rw [hfile]
  simp only []
  by_cases hsame : src = dest
  · subst hsame
    rw [if_pos rfl]
    refine ⟨d, rfl, hd, ?_, fun n _ => ⟨rfl, rfl⟩⟩
    rw [content, hfile, Option.map_some, hsrc]
  rw [if_neg hsame]
  refine ⟨_, rfl, ⟨?_, ?_⟩, ?_, ?_⟩
  · intro n n' f hn hn'
    simp only [Function.update_apply] at hn hn'
    split at hn
    · next h =>
      cases hn
      split at hn'
      · next h' => rw [h, h']
      · split at hn'
        · cases hn'
        · next hne => exact absurd (hd.inj n' src _ hn' hfile) hne
    · split at hn
      · cases hn
      · next hne =>
        split at hn'
        · cases hn'
          exact absurd (hd.inj n src _ hn hfile) hne
        · split at hn'
          · cases hn'
          · exact hd.inj n n' f hn hn'
  · intro n f hn
    simp only [Function.update_apply] at hn
    split at hn
    · cases hn
      exact hd.below src _ hfile
    · split at hn
      · cases hn
      · exact hd.below n f hn
  · simp only [content, Function.update_self, Option.map_some, hsrc]
  · intro n hn
    have hns : n ≠ src := fun h => hn (by rw [h]; exact .head _)
    have hnd : n ≠ dest := fun h => hn (by rw [h]; exact .tail _ (.head _))
    unfold content
    simp only [Function.update_of_ne hnd, Function.update_of_ne hns]
    exact ⟨trivial, trivial⟩

theorem empty_ok : empty.Ok := ⟨fun _ _ _ h => (by cases h), fun _ _ h => (by cases h)⟩

end IdemDir

/-! ## Runs -/

namespace Traffic

variable {W : Type} {cfg : Config} {rt : WorkloadRuntime W}

/-- What is known of a request on its way with a key, by how far it is. -/
def Phase (executed : List (String × Value)) (d : IdemDir) (k : String) : Stage → Prop
  | .executing => k ∉ executed.map Prod.fst
  | .answered resp => (k, resp) ∈ executed
  | .created resp file =>
    (k, resp) ∈ executed ∧ d.names (tmpKey k) = some file ∧ d.files file = none
  | .written resp => (k, resp) ∈ executed ∧ d.content (tmpKey k) = some (some (.ofValue resp))

/-- A request with a key is being stored. -/
def Storing (s : Traffic W) (k : String) : Prop :=
  ∃ i t, s.tasks i = some t ∧ t.req.key = some k ∧ t.stage.storing = true

/-- The agent in order. -/
structure Ok (s : Traffic W) : Prop where
  dir : s.agent.idem.Ok
  owned : ∀ n f, s.agent.idem.names n = some f → ∃ k ∈ s.keys, n = safeKey k ∨ n = tmpKey k
  known : ∀ i t k, s.tasks i = some t → t.req.key = some k → k ∈ s.keys
  apart : ∀ k ∈ s.keys, ∀ k' ∈ s.keys, k ≠ k' → Apart k k'
  alone : ∀ i j t t' k k', s.tasks i = some t → s.tasks j = some t' → t.req.key = some k →
    t'.req.key = some k' → tmpKey k = tmpKey k' → i = j
  phase : ∀ i t k, s.tasks i = some t → t.req.key = some k → Phase s.executed s.agent.idem k t.stage
  stored : ∀ k ∈ s.keys, ∀ c, s.agent.idem.content (safeKey k) = some c → s.Storing k ∨
    ∃ resp, c = some (.ofValue resp) ∧ (k, resp) ∈ s.executed
  found : ∀ p ∈ s.executed, p.1 ∈ s.keys ∧
    (s.Storing p.1 ∨ ∃ c, s.agent.idem.content (safeKey p.1) = some c)
  once : (s.executed.map Prod.fst).Nodup
  replayed : ∀ p ∈ s.replies, ∃ resp, p.2 = .ofValue resp ∧ (p.1, resp) ∈ s.executed

theorem Ok.exact {s : Traffic W} (hs : s.Ok) : s.Exact where
  replayed := hs.replayed
  once := hs.once
  alone i j t t' ht ht' hkey hne := by
    obtain ⟨k, hk⟩ := Option.ne_none_iff_exists'.1 hne
    exact hs.alone i j t t' k k ht ht' hk (hkey ▸ hk) rfl
  settled i t k ht hst hk := by
    have hphase := hs.phase i t k ht hk
    rcases t with ⟨req, _ | _ | _ | _⟩
    · exact hphase
    · cases hst
    · cases hst
    · cases hst

/-- What is known of a request stays so when the directory changes elsewhere. -/
theorem Phase.sameBut {executed : List (String × Value)} {d d' : IdemDir} {k : String}
    {stage : Stage} {names : List String} (h : Phase executed d k stage)
    (hd : IdemDir.SameBut names d d') (hk : tmpKey k ∉ names) : Phase executed d' k stage := by
  obtain ⟨hnames, hcontent⟩ := hd (tmpKey k) hk
  cases stage with
  | executing => exact h
  | answered resp => exact h
  | created resp file =>
    obtain ⟨hex, hfile, hempty⟩ := h
    refine ⟨hex, by rw [hnames, hfile], ?_⟩
    rw [IdemDir.content_eq hfile, IdemDir.content_eq (hnames.trans hfile), hempty] at hcontent
    exact Option.some.inj hcontent
  | written resp => exact ⟨h.1, by rw [hcontent, h.2]⟩

/-- A step of the store for a key keeps the agent in order, when it changes the directory at the
files of the key only and what is then known of the request and of its file is right. -/
theorem Ok.put {s : Traffic W} (hs : s.Ok) {i : Nat} {req : Request} {stage : Stage} {k : String}
    (hi : s.tasks i = some ⟨req, stage⟩) (hk : req.key = some k) (next : Option Stage) {d : IdemDir}
    (hd : d.Ok) (hsame : IdemDir.SameBut [tmpKey k, safeKey k] s.agent.idem d)
    (hnext : ∀ st, next = some st → Phase s.executed d k st ∧ st.storing = true)
    (hown : next = none → ∃ resp, d.content (safeKey k) = some (some (.ofValue resp)) ∧
      (k, resp) ∈ s.executed) : (s.put i d (next.map fun st => ⟨req, st⟩)).Ok := by
  have hkey : k ∈ s.keys := hs.known i _ k hi hk
  -- a request on its way after the step is the one stored or one that was on its way before
  have htasks : ∀ j t, (s.put i d (next.map fun st => ⟨req, st⟩)).tasks j = some t →
      (j = i ∧ ∃ st, next = some st ∧ t = ⟨req, st⟩) ∨ (j ≠ i ∧ s.tasks j = some t) := by
    intro j t ht
    simp only [Traffic.put, Function.update_apply] at ht
    split at ht
    · next hj =>
      obtain ⟨st, hst', rfl⟩ := Option.map_eq_some_iff.1 ht
      exact .inl ⟨hj, st, hst', rfl⟩
    · next hj => exact .inr ⟨hj, ht⟩
  have hwas : ∀ j t, (s.put i d (next.map fun st => ⟨req, st⟩)).tasks j = some t →
      ∃ t', s.tasks j = some t' ∧ t'.req = t.req := by
    intro j t ht
    rcases htasks j t ht with ⟨rfl, st, -, rfl⟩ | ⟨-, ht⟩
    · exact ⟨_, hi, rfl⟩
    · exact ⟨t, ht, rfl⟩
  -- the others keep what they have
  have hother : ∀ k' ∈ s.keys, k' ≠ k → safeKey k' ∉ [tmpKey k, safeKey k] := by
    intro k' hk' hne hmem
    obtain ⟨hsafe, htmp, -⟩ := hs.apart k hkey k' hk' (Ne.symm hne)
    rcases List.mem_cons.1 hmem with h | h
    · exact htmp h.symm
    · exact hsafe (List.mem_singleton.1 h).symm
  have hstoring : ∀ k', k' ≠ k → s.Storing k' →
      (s.put i d (next.map fun st => ⟨req, st⟩)).Storing k' := by
    rintro k' hne ⟨j, t, ht, htk, htst⟩
    have hj : j ≠ i := by
      rintro rfl
      rw [hi] at ht
      cases ht
      rw [hk] at htk
      exact hne (Option.some.inj htk).symm
    exact ⟨j, t, by simp only [Traffic.put, Function.update_of_ne hj, ht], htk, htst⟩
  have hself : ∀ st, next = some st →
      (s.put i d (next.map fun st => ⟨req, st⟩)).Storing k := by
    intro st hst'
    refine ⟨i, ⟨req, st⟩, ?_, hk, (hnext st hst').2⟩
    simp only [Traffic.put, Function.update_self, hst', Option.map_some]
  refine ⟨hd, ?_, ?_, hs.apart, ?_, ?_, ?_, ?_, hs.once, hs.replayed⟩
  · intro n f hn
    by_cases hmem : n ∈ [tmpKey k, safeKey k]
    · refine ⟨k, hkey, ?_⟩
      rcases List.mem_cons.1 hmem with h | h
      · exact .inr h
      · exact .inl (List.mem_singleton.1 h)
    · exact hs.owned n f ((hsame n hmem).1 ▸ hn)
  · intro j t k' ht htk
    obtain ⟨t', ht', hreq⟩ := hwas j t ht
    exact hs.known j t' k' ht' (hreq ▸ htk)
  · intro j j' t t' a b ht ht' hta htb htmp
    obtain ⟨u, hu, hreq⟩ := hwas j t ht
    obtain ⟨u', hu', hreq'⟩ := hwas j' t' ht'
    exact hs.alone j j' u u' a b hu hu' (hreq ▸ hta) (hreq' ▸ htb) htmp
  · intro j t k' ht htk
    rcases htasks j t ht with ⟨rfl, st, hst', rfl⟩ | ⟨hj, ht⟩
    · have : k' = k := by
        rw [show req.key = some k' from htk] at hk
        exact Option.some.inj hk
      rw [this]
      exact (hnext st hst').1
    · refine (hs.phase j t k' ht htk).sameBut hsame fun hmem => ?_
      have hne : tmpKey k' ≠ tmpKey k := fun h => hj (hs.alone j i t _ k' k ht hi htk hk h)
      rcases List.mem_cons.1 hmem with h | h
      · exact hne h
      · have hkk : k' ≠ k := fun h => hne (by rw [h])
        exact (hs.apart k hkey k' (hs.known j t k' ht htk) (Ne.symm hkk)).2.2
          (List.mem_singleton.1 h)
  · intro k' hk' c hc
    by_cases hne : k' = k
    · subst hne
      rcases next with _ | st
      · obtain ⟨resp, hcontent, hex⟩ := hown rfl
        have : some (some (JsonText.ofValue resp)) = some c := hcontent.symm.trans hc
        exact .inr ⟨resp, (Option.some.inj this).symm, hex⟩
      · exact .inl (hself st rfl)
    · have hold : s.agent.idem.content (safeKey k') = some c := by
        rw [← (hsame _ (hother k' hk' hne)).2]
        exact hc
      rcases hs.stored k' hk' c hold with h | h
      · exact .inl (hstoring k' hne h)
      · exact .inr h
  · intro p hp
    obtain ⟨hpk, hfound⟩ := hs.found p hp
    refine ⟨hpk, ?_⟩
    by_cases hne : p.1 = k
    · rw [hne]
      rcases next with _ | st
      · obtain ⟨resp, hcontent, -⟩ := hown rfl
        exact .inr ⟨_, hcontent⟩
      · exact .inl (hself st rfl)
    · rcases hfound with h | ⟨c, hc⟩
      · exact .inl (hstoring p.1 hne h)
      · refine .inr ⟨c, ?_⟩
        show d.content (safeKey p.1) = some c
        rw [(hsame _ (hother p.1 hpk hne)).2, hc]

variable (cfg) in
/-- The check of a request leaves the stored replies. -/
theorem admission_idem (req : Request) (s : State W) : (admission cfg req s).2.idem = s.idem := by
  unfold admission
  rcases front cfg req with _ | reply
  · rcases req.mutating with _ | _
    · rfl
    · rcases replayed req s.idem with _ | reply
      · rfl
      · rfl
  · rfl

/-- A request that is let through was looked up under its key, and nothing was found. -/
theorem asked_of_admission {req : Request} {s : State W} (h : (admission cfg req s).1 = none) :
    asked cfg req = req.key ∧ ∀ k, req.key = some k → s.idem.get k = none := by
  unfold admission at h
  unfold asked
  rcases hfront : front cfg req with _ | reply
  · refine ⟨rfl, fun k hk => ?_⟩
    rw [hfront] at h
    unfold Request.key at hk
    split at hk
    · next hmut =>
      simp only [hmut, ↓reduceIte] at h
      rcases hget : s.idem.get k with _ | body
      · rfl
      · rw [replayed, hk, Option.bind_some, hget] at h
        cases h
    · cases hk
  · rw [hfront] at h
    cases h

/-- The requests on their way after one has come in. -/
theorem tasks_arrive {s : Traffic W} {i j : Nat} {req : Request} {t : Task}
    (h : (s.arrive cfg i req).tasks j = some t) :
    s.tasks j = some t ∨ (j = i ∧ t = ⟨req, .executing⟩ ∧ (admission cfg req s.agent).1 = none) := by
  rcases hadm : (admission cfg req s.agent).1 with _ | reply
  · simp only [Traffic.arrive, hadm, Function.update_apply] at h
    split at h
    · next hj =>
      cases h
      exact .inr ⟨hj, rfl, rfl⟩
    · exact .inl h
  · simp only [Traffic.arrive, hadm] at h
    exact .inl h

/-- A heeded request that comes in finds what is stored for its key. -/
theorem Ok.lookup {s : Traffic W} (hs : s.Ok) {k : String}
    (hapart : ∀ k' ∈ s.keys, k' ≠ k → Apart k k')
    (hfree : ∀ i t k', s.tasks i = some t → t.req.key = some k' → tmpKey k' ≠ tmpKey k) :
    (∀ body, s.agent.idem.get k = some body → ∃ resp, body = .ofValue resp ∧
      (k, resp) ∈ s.executed) ∧
    (s.agent.idem.get k = none → k ∉ s.executed.map Prod.fst) := by
  have hidle : ¬ s.Storing k := fun ⟨i, t, ht, htk, _⟩ => hfree i t k ht htk rfl
  rw [IdemDir.get_eq]
  constructor
  · intro body hbody
    obtain ⟨c, hc, rfl⟩ := Option.map_eq_some_iff.1 hbody
    -- the file of the key belongs to a key that came in, and only to this one
    have hkey : k ∈ s.keys := by
      obtain ⟨f, hf, -⟩ := Option.map_eq_some_iff.1 hc
      obtain ⟨k', hk', hn⟩ := hs.owned _ f hf
      by_contra hno
      obtain ⟨hsafe, -, htmp⟩ := hapart k' hk' (fun h => hno (h ▸ hk'))
      rcases hn with h | h
      · exact hsafe h
      · exact htmp h.symm
    obtain ⟨resp, rfl, hex⟩ := (hs.stored k hkey c hc).resolve_left hidle
    exact ⟨resp, rfl, hex⟩
  · intro hnone hmem
    obtain ⟨p, hp, rfl⟩ := List.mem_map.1 hmem
    obtain ⟨c, hc⟩ := (hs.found p hp).2.resolve_left hidle
    rw [hc] at hnone
    cases hnone

theorem Ok.arrive {s : Traffic W} (hs : s.Ok) {i : Nat} {req : Request} (hi : s.tasks i = none)
    (hg : Heeded cfg s (.arrive i req)) : (s.arrive cfg i req).Ok := by
  have hidem : (s.arrive cfg i req).agent.idem = s.agent.idem := admission_idem cfg req s.agent
  have hkeys : ∀ k, k ∈ (s.arrive cfg i req).keys ↔ asked cfg req = some k ∨ k ∈ s.keys := by
    intro k
    simp only [Traffic.arrive, List.mem_append, Option.mem_toList]
  have hstoring : ∀ k, s.Storing k → (s.arrive cfg i req).Storing k := by
    rintro k ⟨j, t, ht, htk, htst⟩
    refine ⟨j, t, ?_, htk, htst⟩
    have hj : j ≠ i := by
      rintro rfl
      rw [hi] at ht
      cases ht
    rcases hadm : (admission cfg req s.agent).1 with _ | reply
    · simp only [Traffic.arrive, hadm, Function.update_of_ne hj, ht]
    · simp only [Traffic.arrive, hadm, ht]
  have hnew : ∀ k, asked cfg req = some k → ∀ k' ∈ s.keys, k' ≠ k → Apart k k' := fun k hk =>
    (hg k hk).1
  refine ⟨by rw [hidem]; exact hs.dir, ?_, ?_, ?_, ?_, ?_, ?_, ?_, hs.once, ?_⟩
  · intro n f hn
    rw [hidem] at hn
    obtain ⟨k, hk, h⟩ := hs.owned n f hn
    exact ⟨k, (hkeys k).2 (.inr hk), h⟩
  · intro j t k ht htk
    rcases tasks_arrive ht with ht | ⟨-, rfl, hadm⟩
    · exact (hkeys k).2 (.inr (hs.known j t k ht htk))
    · exact (hkeys k).2 (.inl ((asked_of_admission hadm).1.trans htk))
  · intro k hk k' hk' hne
    rcases (hkeys k).1 hk with ha | hk
    · rcases (hkeys k').1 hk' with ha' | hk'
      · rw [ha] at ha'
        exact absurd (Option.some.inj ha') hne
      · exact hnew k ha k' hk' (Ne.symm hne)
    · rcases (hkeys k').1 hk' with ha' | hk'
      · obtain ⟨h1, h2, h3⟩ := hnew k' ha' k hk hne
        exact ⟨Ne.symm h1, h3, h2⟩
      · exact hs.apart k hk k' hk' hne
  · intro j j' t t' k k' ht ht' hk hk' htmp
    rcases tasks_arrive ht with ht | ⟨hj, rfl, hadm⟩
    · rcases tasks_arrive ht' with ht' | ⟨-, rfl, hadm⟩
      · exact hs.alone j j' t t' k k' ht ht' hk hk' htmp
      · have ha := (asked_of_admission hadm).1.trans hk'
        exact absurd htmp ((hg k' ha).2 j t k ht hk)
    · rcases tasks_arrive ht' with ht' | ⟨hj', -, -⟩
      · have ha := (asked_of_admission hadm).1.trans hk
        exact absurd htmp.symm ((hg k ha).2 j' t' k' ht' hk')
      · rw [hj, hj']
  · intro j t k ht htk
    rw [hidem]
    rcases tasks_arrive ht with ht | ⟨-, rfl, hadm⟩
    · exact hs.phase j t k ht htk
    · obtain ⟨hasked, hget⟩ := asked_of_admission hadm
      have ha := hasked.trans htk
      exact (hs.lookup (hg k ha).1 (hg k ha).2).2 (hget k htk)
  · intro k hk c hc
    rw [hidem] at hc
    rcases (hkeys k).1 hk with ha | hk
    · -- what the key of the request finds was stored for it
      obtain ⟨resp, hbody, hex⟩ := (hs.lookup (hg k ha).1 (hg k ha).2).1 _ (by
        rw [IdemDir.get_eq, hc, Option.map_some])
      by_cases hold : k ∈ s.keys
      · exact (hs.stored k hold c hc).imp_left (hstoring k)
      · exact absurd (hs.found _ hex).1 hold
    · exact (hs.stored k hk c hc).imp_left (hstoring k)
  · intro p hp
    obtain ⟨hpk, hfound⟩ := hs.found p hp
    refine ⟨(hkeys p.1).2 (.inr hpk), ?_⟩
    rw [hidem]
    exact hfound.imp_left (hstoring p.1)
  · intro p hp
    have hp : ((asked cfg req).bind fun k =>
        (s.agent.idem.get k).map fun body => (k, body)) = some p ∨ p ∈ s.replies := by
      simpa only [Traffic.arrive, List.mem_append, Option.mem_toList] using hp
    rcases hp with hp | hp
    · obtain ⟨k, ha, hp⟩ := Option.bind_eq_some_iff.1 hp
      obtain ⟨body, hget, rfl⟩ := Option.map_eq_some_iff.1 hp
      exact (hs.lookup (hg k ha).1 (hg k ha).2).1 body hget
    · exact hs.replayed p hp

/-- A reply is stored under the key of its request. -/
theorem key_of_storedAt {req : Request} {resp : Value} {k : String}
    (h : storedAt req resp = some k) : req.key = some k := by
  unfold storedAt at h
  split at h
  · next hmut => rw [Request.key, if_pos (Bool.and_eq_true_iff.1 hmut).1, h]
  · cases h

theorem Ok.execute {s : Traffic W} (hs : s.Ok) {i : Nat} {req : Request}
    (hi : s.tasks i = some ⟨req, .executing⟩) : (s.execute cfg rt i req).Ok := by
  rcases hst : storedAt req (respond cfg rt req s.agent.world).1 with _ | key
  · have heq : s.execute cfg rt i req = { s with
        agent := { s.agent with world := (respond cfg rt req s.agent.world).2 }
        tasks := Function.update s.tasks i none } := by
      simp only [Traffic.execute, hst]
    rw [heq]
    have htasks : ∀ j t, Function.update s.tasks i none j = some t → s.tasks j = some t := by
      intro j t ht
      simp only [Function.update_apply] at ht
      split at ht
      · cases ht
      · exact ht
    have hstoring : ∀ k, s.Storing k → Storing { s with
        agent := { s.agent with world := (respond cfg rt req s.agent.world).2 }
        tasks := Function.update s.tasks i none } k := by
      rintro k ⟨j, t, ht, htk, htst⟩
      refine ⟨j, t, ?_, htk, htst⟩
      show Function.update s.tasks i none j = some t
      rw [Function.update_of_ne (fun h => ?_), ht]
      rw [h, hi] at ht
      cases ht
      cases htst
    exact
      { hs with
        known := fun j t k ht => hs.known j t k (htasks j t ht)
        alone := fun j j' t t' k k' ht ht' =>
          hs.alone j j' t t' k k' (htasks j t ht) (htasks j' t' ht')
        phase := fun j t k ht => hs.phase j t k (htasks j t ht)
        stored := fun k hk c hc => (hs.stored k hk c hc).imp_left (hstoring k)
        found := fun p hp => ⟨(hs.found p hp).1, (hs.found p hp).2.imp_left (hstoring p.1)⟩ }
  · have hkey := key_of_storedAt hst
    have heq : s.execute cfg rt i req = { s with
        agent := { s.agent with world := (respond cfg rt req s.agent.world).2 }
        tasks := Function.update s.tasks i
          (some ⟨req, .answered (respond cfg rt req s.agent.world).1⟩)
        executed := (key, (respond cfg rt req s.agent.world).1) :: s.executed } := by
      simp only [Traffic.execute, hst]
    rw [heq]
    generalize (respond cfg rt req s.agent.world).1 = resp
    have htasks : ∀ j t, Function.update s.tasks i (some ⟨req, .answered resp⟩) j = some t →
        (j = i ∧ t = ⟨req, .answered resp⟩) ∨ (j ≠ i ∧ s.tasks j = some t) := by
      intro j t ht
      simp only [Function.update_apply] at ht
      split at ht
      · next hj =>
        cases ht
        exact .inl ⟨hj, rfl⟩
      · next hj => exact .inr ⟨hj, ht⟩
    have hwas : ∀ j t, Function.update s.tasks i (some ⟨req, .answered resp⟩) j = some t →
        ∃ t', s.tasks j = some t' ∧ t'.req = t.req := by
      intro j t ht
      rcases htasks j t ht with ⟨rfl, rfl⟩ | ⟨-, ht⟩
      · exact ⟨_, hi, rfl⟩
      · exact ⟨t, ht, rfl⟩
    have hnew : key ∉ s.executed.map Prod.fst := hs.phase i _ key hi hkey
    have hstoring : ∀ k, s.Storing k → Storing { s with
        agent := { s.agent with world := (respond cfg rt req s.agent.world).2 }
        tasks := Function.update s.tasks i (some ⟨req, .answered resp⟩)
        executed := (key, resp) :: s.executed } k := by
      rintro k ⟨j, t, ht, htk, htst⟩
      refine ⟨j, t, ?_, htk, htst⟩
      show Function.update s.tasks i _ j = some t
      rw [Function.update_of_ne (fun h => ?_), ht]
      rw [h, hi] at ht
      cases ht
      cases htst
    refine ⟨hs.dir, hs.owned, ?_, hs.apart, ?_, ?_, ?_, ?_, ?_, ?_⟩
    · intro j t k ht htk
      obtain ⟨t', ht', hreq⟩ := hwas j t ht
      exact hs.known j t' k ht' (hreq ▸ htk)
    · intro j j' t t' k k' ht ht' hk hk' htmp
      obtain ⟨u, hu, hreq⟩ := hwas j t ht
      obtain ⟨u', hu', hreq'⟩ := hwas j' t' ht'
      exact hs.alone j j' u u' k k' hu hu' (hreq ▸ hk) (hreq' ▸ hk') htmp
    · intro j t k ht htk
      rcases htasks j t ht with ⟨-, rfl⟩ | ⟨hj, ht⟩
      · rw [show req.key = some k from htk] at hkey
        cases hkey
        exact .head _
      · have hphase := hs.phase j t k ht htk
        rcases t with ⟨req', _ | _ | _ | _⟩
        · intro hmem
          rcases List.mem_cons.1 hmem with h | h
          · exact hj (hs.alone j i _ _ k key ht hi htk hkey (by rw [show k = key from h]))
          · exact hphase h
        · exact .tail _ hphase
        · exact ⟨.tail _ hphase.1, hphase.2⟩
        · exact ⟨.tail _ hphase.1, hphase.2⟩
    · intro k hk c hc
      rcases hs.stored k hk c hc with h | ⟨resp', hc', hex⟩
      · exact .inl (hstoring k h)
      · exact .inr ⟨resp', hc', .tail _ hex⟩
    · intro p hp
      rcases List.mem_cons.1 hp with rfl | hp
      · exact ⟨hs.known i _ key hi hkey, .inl ⟨i, _, Function.update_self .., hkey, rfl⟩⟩
      · exact ⟨(hs.found p hp).1, (hs.found p hp).2.imp_left (hstoring p.1)⟩
    · exact List.nodup_cons.2 ⟨hnew, hs.once⟩
    · intro p hp
      obtain ⟨resp', hbody, hex⟩ := hs.replayed p hp
      exact ⟨resp', hbody, .tail _ hex⟩

/-- A heeded step keeps the agent in order. -/
theorem Ok.step {s s' : Traffic W} {e : Arrival} (hs : s.Ok) (hg : Heeded cfg s e)
    (hstep : step cfg rt s e = some s') : s'.Ok := by
  cases e with
  | arrive i req =>
    simp only [Traffic.step] at hstep
    split at hstep
    · next hi =>
      cases hstep
      exact hs.arrive (Option.isNone_iff_eq_none.1 hi) hg
    · cases hstep
  | execute i =>
    simp only [Traffic.step] at hstep
    split at hstep
    · next hi =>
      cases hstep
      exact hs.execute hi
    · cases hstep
  | create i =>
    simp only [Traffic.step] at hstep
    split at hstep
    · next req resp hi =>
      obtain ⟨k, hk, rfl⟩ := Option.map_eq_some_iff.1 hstep
      obtain ⟨hd, hname, hempty, hsame⟩ := IdemDir.create_spec hs.dir (tmpKey k)
      refine hs.put hi hk (some (.created resp _)) hd ?_ ?_ (fun h => by cases h)
      · exact fun n hn => hsame n fun h => hn (List.mem_cons.2 (.inl (List.mem_singleton.1 h)))
      · rintro st ⟨rfl⟩
        exact ⟨⟨hs.phase i _ k hi hk, hname, hempty⟩, rfl⟩
    · cases hstep
  | write i =>
    simp only [Traffic.step] at hstep
    split at hstep
    · next req resp file hi =>
      obtain ⟨k, hk, rfl⟩ := Option.map_eq_some_iff.1 hstep
      obtain ⟨hex, hname, hempty⟩ := hs.phase i _ k hi hk
      obtain ⟨hd, hcontent, hsame⟩ :=
        IdemDir.write_spec hs.dir hname hempty cfg.overwritten (.ofValue resp)
      refine hs.put hi hk (some (.written resp)) hd ?_ ?_ (fun h => by cases h)
      · exact fun n hn => hsame n fun h => hn (List.mem_cons.2 (.inl (List.mem_singleton.1 h)))
      · rintro st ⟨rfl⟩
        exact ⟨⟨hex, hcontent⟩, rfl⟩
    · cases hstep
  | rename i =>
    simp only [Traffic.step] at hstep
    split at hstep
    · next req resp hi =>
      obtain ⟨k, hk, rfl⟩ := Option.map_eq_some_iff.1 hstep
      obtain ⟨hex, hcontent⟩ := hs.phase i _ k hi hk
      obtain ⟨d, hd, hok, hdest, hsame⟩ := IdemDir.rename_spec hs.dir hcontent (safeKey k)
      rw [hd]
      exact hs.put hi hk none hok hsame (fun _ h => by cases h) fun _ => ⟨resp, hdest, hex⟩
    · cases hstep
  | fail i => exact hg.elim

/-- In every run whose steps are all heeded the keys are exact and exclusive. -/
theorem replies_exact {h : History (Traffic W) Arrival} {s : Traffic W}
    (hr : HeededRun cfg rt h s) : s.Exact := by
  have hok : s.Ok := by
    refine Run.invariant (I := fun _ s => s.Ok) ?_ ?_ hr
    · rintro s ⟨hidem, htasks, hkeys, hexecuted, hreplies⟩
      refine ⟨hidem ▸ IdemDir.empty_ok, ?_, ?_, ?_, ?_, ?_, ?_, ?_, ?_, ?_⟩
      all_goals simp [hidem, htasks, hkeys, hexecuted, hreplies, IdemDir.empty]
    · exact fun h s e s' _ hi hg hs => hi.step hg hs
  exact hok.exact

/-! ## One request alone -/

variable (cfg rt) in
/-- A request from its arrival to the end of its store. -/
def serve (s : Traffic W) (i : Nat) (req : Request) : Traffic W :=
  [.arrive i req, .execute i, .create i, .write i, .rename i].foldl
    (fun s e => (Traffic.step cfg rt s e).getD s) s

/-- A request that is no longer on its way takes no step. -/
theorem step_gone {s : Traffic W} {i : Nat} (hi : s.tasks i = none) {e : Arrival}
    (he : e ∈ [.execute i, .create i, .write i, .rename i]) :
    (Traffic.step cfg rt s e).getD s = s := by
  simp only [List.mem_cons, List.not_mem_nil, or_false] at he
  rcases he with rfl | rfl | rfl | rfl
  · simp only [Traffic.step, hi, Option.getD_none]
  · simp only [Traffic.step, hi, Option.getD_none]
  · simp only [Traffic.step, hi, Option.getD_none]
  · simp only [Traffic.step, hi, Option.getD_none]

variable (cfg rt) in
/-- A request whose steps are not interrupted is handled as `handle` says. -/
theorem serve_eq {s : Traffic W} {i : Nat} (hi : s.tasks i = none) (req : Request) :
    (s.serve cfg rt i req).agent = (handle cfg rt req s.agent).2 ∧
      (s.serve cfg rt i req).tasks = s.tasks ∧
      (s.serve cfg rt i req).keys = (asked cfg req).toList ++ s.keys := by
  have hback : ∀ x : Option Task, Function.update (Function.update s.tasks i x) i none = s.tasks := by
    intro x
    rw [Function.update_idem, ← hi, Function.update_eq_self]
  have harrive : (Traffic.step cfg rt s (.arrive i req)).getD s = s.arrive cfg i req := by
    simp [Traffic.step, hi]
  have hidem := admission_idem cfg req s.agent
  unfold serve
  simp only [List.foldl_cons, List.foldl_nil, harrive]
  rcases hadm : (admission cfg req s.agent).1 with _ | reply
  · -- let through
    have htasks : (s.arrive cfg i req).tasks = Function.update s.tasks i (some ⟨req, .executing⟩) := by
      simp only [Traffic.arrive, hadm]
    have hexecute : (Traffic.step cfg rt (s.arrive cfg i req) (.execute i)).getD
        (s.arrive cfg i req) = (s.arrive cfg i req).execute cfg rt i req := by
      simp [Traffic.step, htasks]
    have hpair : admission cfg req s.agent = (none, (s.arrive cfg i req).agent) := by
      rw [← hadm]
      rfl
    rw [hexecute, handle, hpair]
    simp only []
    rcases hst : storedAt req (respond cfg rt req (s.arrive cfg i req).agent.world).1 with _ | key
    · -- executed without success
      have hdone : ((s.arrive cfg i req).execute cfg rt i req).tasks = s.tasks := by
        simp only [Traffic.execute, hst, htasks, hback]
      have hgone : ((s.arrive cfg i req).execute cfg rt i req).tasks i = none := by rw [hdone, hi]
      rw [step_gone hgone (by simp), step_gone hgone (by simp), step_gone hgone (by simp)]
      refine ⟨?_, hdone, ?_⟩
      · simp only [Traffic.execute, hst]
      · simp only [Traffic.execute, hst]
        rfl
    · -- executed with success: the three steps of the store are `put`
      have hkey := key_of_storedAt hst
      simp only [Traffic.execute, hst, Traffic.step, Function.update_self, hkey, Option.map_some,
        Option.getD_some, Traffic.put, htasks, hback, Function.update_idem]
      exact ⟨rfl, trivial, rfl⟩
  · -- refused, or answered with a stored reply
    have htasks : (s.arrive cfg i req).tasks = s.tasks := by
      simp only [Traffic.arrive, hadm]
    have hgone : (s.arrive cfg i req).tasks i = none := by rw [htasks, hi]
    rw [step_gone hgone (by simp), step_gone hgone (by simp), step_gone hgone (by simp),
      step_gone hgone (by simp)]
    refine ⟨?_, htasks, rfl⟩
    have hpair : admission cfg req s.agent = (some reply, (s.arrive cfg i req).agent) := by
      rw [← hadm]
      rfl
    rw [handle, hpair]

end Traffic

/-! ## Two runs -/

/-- An agent at its start. -/
def quiet : Traffic Unit := ⟨⟨fun _ => none, .empty, ()⟩, fun _ => none, [], [], []⟩

theorem quiet_initial : quiet.Initial := ⟨rfl, fun _ => rfl, rfl, rfl, rfl⟩

/-- A request is sent again and gets the stored reply. -/
theorem replies_exact_again : ∃ s : Traffic Unit, s.replies.map Prod.fst = ["op-1"] ∧
    s.executed.map Prod.fst = ["op-1"] ∧ s.Exact := by
  let req := post "/agent/start" none (some "op-1") [("id", .string "c")]
  let next (s : Traffic Unit) (e : Arrival) : Traffic Unit :=
    (Traffic.step (plain false) obliging s e).getD s
  let s1 := next quiet (.arrive 0 req)
  let s2 := next s1 (.execute 0)
  let s3 := next s2 (.create 0)
  let s4 := next s3 (.write 0)
  let s5 := next s4 (.rename 0)
  have hasked : asked (plain false) req = some "op-1" := by decide
  have hfirst : Traffic.Heeded (plain false) quiet (.arrive 0 req) :=
    fun _ _ => ⟨fun _ h => (by cases h), fun _ _ _ h => (by cases h)⟩
  obtain ⟨-, htasks, hkeys⟩ := Traffic.serve_eq (plain false) obliging
    (show quiet.tasks 0 = none from rfl) req
  have hagain : Traffic.Heeded (plain false) s5 (.arrive 1 req) := by
    intro k hk
    rw [hasked] at hk
    cases hk
    refine ⟨fun k' hk' hne => ?_, fun i t k' ht => ?_⟩
    · rw [show s5.keys = (asked (plain false) req).toList ++ quiet.keys from hkeys, hasked] at hk'
      exact absurd (List.mem_singleton.1 hk') hne
    · rw [show s5.tasks = quiet.tasks from htasks] at ht
      cases ht
  have hrun : Traffic.HeededRun (plain false) obliging [(s5, .arrive 1 req), (s4, .rename 0),
      (s3, .write 0), (s2, .create 0), (s1, .execute 0), (quiet, .arrive 0 req)]
      (next s5 (.arrive 1 req)) :=
    .step (.step (.step (.step (.step (.step (.start quiet_initial) hfirst rfl) trivial rfl)
      trivial rfl) trivial rfl) trivial rfl) hagain rfl
  exact ⟨_, by decide +kernel, by decide +kernel, Traffic.replies_exact hrun⟩

/-- Two requests with one key arrive before either is executed. -/
theorem replies_doubled : ¬ ∀ (cfg : Config) (rt : WorkloadRuntime Unit) h s,
    Run (Traffic.step cfg rt) (fun _ _ _ => True) Traffic.Initial h s → s.Exact := by
  intro hall
  let req := post "/agent/start" none (some "op-1") [("id", .string "c")]
  let next (s : Traffic Unit) (e : Arrival) : Traffic Unit :=
    (Traffic.step (plain false) obliging s e).getD s
  let s1 := next quiet (.arrive 0 req)
  let s2 := next s1 (.arrive 1 req)
  let s3 := next s2 (.execute 0)
  have hrun : Run (Traffic.step (plain false) obliging) (fun _ _ _ => True) Traffic.Initial
      [(s3, .execute 1), (s2, .execute 0), (s1, .arrive 1 req), (quiet, .arrive 0 req)]
      (next s3 (.execute 1)) :=
    .step (.step (.step (.step (.start quiet_initial) trivial rfl) trivial rfl) trivial rfl) trivial rfl
  have honce := (hall (plain false) obliging _ _ hrun).once
  have hexecuted : (next s3 (.execute 1)).executed.map Prod.fst = ["op-1", "op-1"] := by
    decide +kernel
  rw [hexecuted] at honce
  exact absurd honce (by decide)

end Rdsctl.Agent
