import Rdsctl.Agent.Handle

/-!
# What the fence check covers

An agent that requires fences, request after request. A request changes the containers and the
networks its call is about; `Covered` says that every request that went through and changes one of
them had a fence, and that the fences of one container or network only go up. They do as long as
`Covers` holds: what is changed is changed through a listed path, and under keys of one file.
-/

namespace Rdsctl.Agent

open Ha ExecutorGuard Register

/-! ## What a request changes -/

inductive Resource
  | container (name : String)
  | network (name : String)
deriving DecidableEq, Repr

/-- What the platform and the programs in its containers do: whether a command that is run inside a
container changes it, what a command of the `docker` client changes, and which containers a
specification touches beside the one it is named for. -/
structure Effects where
  alters : List String → Bool
  docker : List String → List Resource
  created : ContainerSpec → List Resource

/-- A command run in a container. -/
def Effects.inside (eff : Effects) (id : String) (argv : List String) : List Resource :=
  if eff.alters argv then [.container id] else []

/-- The containers and networks a call changes. -/
def Call.changes (eff : Effects) : Call → List Resource
  | .create spec => .container spec.name :: eff.created spec
  | .start id | .stop id | .restart id | .remove id _ => [.container id]
  | .rename src dest => [.container src, .container dest]
  | .exec id args => eff.inside id args
  | .execRaw id argv => eff.inside id argv
  | .sql id user pass stmt => eff.inside id (mysqlArgv user pass stmt)
  | .writeFile id _ _ => [.container id]
  | .networkEnsure name | .networkRemove name => [.network name]
  | .docker args => eff.docker args
  | .exists' _ | .state _ | .health _ | .logs _ _ | .expose _ => []

/-! ## Request after request -/

/-- An agent and the calls it has made, newest first, with their requests. -/
structure Serving (W : Type) where
  agent : State W
  done : List (Request × Call)

section Serving

variable {W : Type} (cfg : Config) (rt : WorkloadRuntime W) (eff : Effects)

/-- The call that a request gets through to. -/
def called (req : Request) (s : State W) : Option Call :=
  match (admission cfg req s).1 with
  | some _ => none
  | none => (endpoint cfg rt.kind req.path req.payload).toOption

/-- One request. -/
def Serving.step (s : Serving W) (req : Request) : Option (Serving W) :=
  some ⟨(handle cfg rt req s.agent).2,
    (called cfg rt req s.agent).elim s.done fun call => (req, call) :: s.done⟩

def Serving.Initial (s : Serving W) : Prop := s.done = []

/-- What was changed was changed with a fence, and never with a lower one than before. -/
structure Covered (done : List (Request × Call)) : Prop where
  fenced : ∀ d ∈ done, d.2.changes eff ≠ [] → d.1.info.fence ≠ none
  ordered : done.Pairwise fun later earlier => ∀ x ∈ later.2.changes eff,
    x ∈ earlier.2.changes eff → ∀ f ∈ later.1.info.fence, ∀ g ∈ earlier.1.info.fence, g ≤ f

/-- Two keys of one file. -/
def SameFile (key key' : String) : Prop := safeKey key = safeKey key'

/-- The fence check covers a request: what it changes it changes through a listed path, under a key
that has the file of every earlier key of what it changes, and its fence is not written through a
temporary file that is the file of such a key. -/
structure Covers (s : Serving W) (req : Request) : Prop where
  listed : ∀ call, endpoint cfg rt.kind req.path req.payload = .ok call → call.changes eff ≠ [] →
    req.mutating = true
  keyed : ∀ call, endpoint cfg rt.kind req.path req.payload = .ok call → ∀ d ∈ s.done,
    ∀ x ∈ call.changes eff, x ∈ d.2.changes eff →
      SameFile (fenceKey req.payload) (fenceKey d.1.payload)
  apart : req.mutating = true → ∀ d ∈ s.done, d.2.changes eff ≠ [] →
    ¬ Clash (fenceKey req.payload) (fenceKey d.1.payload) ∨
      SameFile (fenceKey req.payload) (fenceKey d.1.payload)

/-- The runs of an agent whose requests are all covered. -/
abbrev CoveredRun : History (Serving W) Request → Serving W → Prop :=
  Run (Serving.step cfg rt) (fun _ s req => Covers cfg rt eff s req) Serving.Initial

/-! ## The check -/

variable {cfg rt eff}

variable (cfg) in
/-- What the check of a fence lets through, and what it leaves. -/
theorem checkFence_cases (req : Request) (files : String → Option String) :
    (∃ reply, checkFence cfg req files = (some reply, files)) ∨
    (cfg.fenceRequired = false ∧ req.info.fence = none ∧ checkFence cfg req files = (none, files)) ∨
    (∃ f files', req.info.fence = some f ∧ f.Fits ∧ Admits (seen files (fenceKey req.payload)) f ∧
      checkFence cfg req files = (none, files') ∧
      ((files' = files ∧ seen files (fenceKey req.payload) = some f) ∨
        files' = written files (fenceKey req.payload) f)) := by
  unfold checkFence Request.info
  rcases hraw : req.fence with _ | raw
  · rcases hreq : cfg.fenceRequired with _ | _
    · exact .inr (.inl ⟨rfl, rfl, by simp⟩)
    · exact .inl ⟨_, by simp only [↓reduceIte]; rfl⟩
  simp only [Option.bind_some]
  rcases hparse : Fence.parse raw.toList with _ | f
  · exact .inl ⟨_, rfl⟩
  simp only []
  rcases checkAndRaise_cases files (fenceKey req.payload) f with ⟨ha, files', heq, hfiles⟩ | ⟨-, e, heq⟩
  · rw [heq]
    exact .inr (.inr ⟨f, files', rfl, Fence.fits_of_parse hparse, ha, rfl, hfiles⟩)
  · rw [heq]
    exact .inl ⟨_, rfl⟩

/-- A fence shown under a key stays in force when another is checked under a key of the same file,
or one that does not clash with it. -/
theorem holds_checked {files files' : String → Option String} {key key' : String} {f g : Fence}
    (hfits : f.Fits) (hadmits : Admits (seen files key) f)
    (hfiles : (files' = files ∧ seen files key = some f) ∨ files' = written files key f)
    (hapart : ¬ Clash key key' ∨ SameFile key key') (hold : Holds (seen files key') g) :
    Holds (seen files' key') g := by
  rcases hfiles with ⟨rfl, -⟩ | rfl
  · exact hold
  rw [seen_written hfits]
  split
  · next hsame =>
    rw [holds_some]
    rw [seen_eq_of_safeKey hsame] at hold
    exact hold.of_admits hadmits
  · next hne =>
    rw [if_neg fun htmp => ?_]
    · exact hold
    · rcases hapart with hclash | hsame
      · exact hclash ⟨fun h => hne (by rw [h]), .inr htmp.symm⟩
      · exact hne hsame.symm

/-! ## Runs -/

variable (eff) in
/-- The state of an agent that covers what it does: the fences of the calls made are in force. -/
structure Serving.Ok (s : Serving W) : Prop where
  covered : Covered eff s.done
  held : ∀ d ∈ s.done, d.2.changes eff ≠ [] → ∀ f ∈ d.1.info.fence,
    Holds (seen s.agent.fenceSeen (fenceKey d.1.payload)) f

/-- The files of the fences after a request are those its check left. -/
theorem handle_fenceSeen (req : Request) (s : State W) :
    (handle cfg rt req s).2.fenceSeen = (admission cfg req s).2.fenceSeen := by
  unfold handle
  rcases admission cfg req s with ⟨reply | _, s'⟩
  · rfl
  · rfl

/-- What the check of a request comes to. -/
theorem admit_cases (hreq : cfg.fenceRequired = true) (req : Request) (s : State W) :
    (admission cfg req s).2.fenceSeen = s.fenceSeen ∧
        ((admission cfg req s).1 ≠ none ∨ req.mutating = false) ∨
    (req.mutating = true ∧ ∃ f, req.info.fence = some f ∧ f.Fits ∧
      Admits (seen s.fenceSeen (fenceKey req.payload)) f ∧
      ((admission cfg req s).2.fenceSeen = s.fenceSeen ∧
          seen s.fenceSeen (fenceKey req.payload) = some f ∨
        (admission cfg req s).2.fenceSeen = written s.fenceSeen (fenceKey req.payload) f)) := by
  unfold admission
  rcases front cfg req with _ | reply
  · rcases hmut : req.mutating with _ | _
    · exact .inl ⟨rfl, .inr rfl⟩
    · simp only [↓reduceIte]
      rcases replayed req s.idem with _ | reply
      · rcases checkFence_cases cfg req s.fenceSeen with
          ⟨reply, heq⟩ | ⟨hoff, -⟩ | ⟨f, files', hf, hfits, ha, heq, hfiles⟩
        · simp only [heq]
          exact .inl ⟨trivial, .inl (Option.some_ne_none _)⟩
        · rw [hreq] at hoff
          cases hoff
        · simp only [heq]
          exact .inr ⟨trivial, f, hf, hfits, ha, hfiles⟩
      · exact .inl ⟨rfl, .inl (Option.some_ne_none _)⟩
  · exact .inl ⟨rfl, .inl (Option.some_ne_none _)⟩

/-- A request that was let through raised the register of its key. -/
theorem holds_own {files files' : String → Option String} {key : String} {f : Fence}
    (hfits : f.Fits)
    (hfiles : (files' = files ∧ seen files key = some f) ∨ files' = written files key f) :
    Holds (seen files' key) f := by
  rcases hfiles with ⟨rfl, hseen⟩ | rfl
  · rw [hseen, holds_some]
  · rw [seen_written hfits, if_pos rfl, holds_some]

/-- A covered request keeps what was changed covered. -/
theorem Serving.Ok.step (hreq : cfg.fenceRequired = true) {s s' : Serving W} {req : Request}
    (hs : s.Ok eff) (hg : Covers cfg rt eff s req)
    (hstep : Serving.step cfg rt s req = some s') : s'.Ok eff := by
  cases hstep
  rcases admit_cases hreq req s.agent with ⟨hfiles, hstop⟩ | ⟨hmut, f, hf, hfits, ha, hfiles⟩
  · -- refused, or not checked: the files are as they were
    have hheld : ∀ d ∈ s.done, d.2.changes eff ≠ [] → ∀ f ∈ d.1.info.fence,
        Holds (seen (handle cfg rt req s.agent).2.fenceSeen (fenceKey d.1.payload)) f := by
      rw [handle_fenceSeen, hfiles]
      exact hs.held
    rcases hcall : called cfg rt req s.agent with _ | call
    · exact ⟨hs.covered, hheld⟩
    have hend : endpoint cfg rt.kind req.path req.payload = .ok call ∧ req.mutating = false := by
      unfold called at hcall
      rcases hadm : (admission cfg req s.agent).1 with _ | reply
      · rw [hadm] at hcall hstop
        refine ⟨?_, hstop.resolve_left fun h => h rfl⟩
        rcases hend : endpoint cfg rt.kind req.path req.payload with e | c
        · rw [hend] at hcall
          cases hcall
        · rw [hend] at hcall
          cases hcall
          rfl
      · rw [hadm] at hcall
        cases hcall
    have hnone : call.changes eff = [] := by
      by_contra hne
      rw [hg.listed call hend.1 hne] at hend
      cases hend.2
    refine ⟨⟨?_, List.pairwise_cons.2 ⟨?_, hs.covered.ordered⟩⟩, ?_⟩
    · rintro d (_ | ⟨_, hd⟩) hne
      · exact absurd hnone hne
      · exact hs.covered.fenced d hd hne
    · intro d hd x hx
      rw [hnone] at hx
      cases hx
    · rintro d (_ | ⟨_, hd⟩) hne
      · exact absurd hnone hne
      · exact hheld d hd hne
  · -- let through: its register holds the fence, and the others keep theirs
    have hheld : ∀ d ∈ s.done, d.2.changes eff ≠ [] → ∀ g ∈ d.1.info.fence,
        Holds (seen (handle cfg rt req s.agent).2.fenceSeen (fenceKey d.1.payload)) g := by
      intro d hd hne g hgd
      rw [handle_fenceSeen]
      exact holds_checked hfits ha hfiles (hg.apart hmut d hd hne) (hs.held d hd hne g hgd)
    rcases hcall : called cfg rt req s.agent with _ | call
    · exact ⟨hs.covered, hheld⟩
    have hend : endpoint cfg rt.kind req.path req.payload = .ok call := by
      unfold called at hcall
      split at hcall
      · cases hcall
      · rcases hend : endpoint cfg rt.kind req.path req.payload with e | c
        · rw [hend] at hcall
          cases hcall
        · rw [hend] at hcall
          cases hcall
          rfl
    refine ⟨⟨?_, List.pairwise_cons.2 ⟨?_, hs.covered.ordered⟩⟩, ?_⟩
    · rintro d (_ | ⟨_, hd⟩) hne
      · show req.info.fence ≠ none
        rw [hf]
        exact Option.some_ne_none _
      · exact hs.covered.fenced d hd hne
    · intro d hd x hx hxd f' hf' g hgd
      have hsame := hg.keyed call hend d hd x hx hxd
      have hold := hs.held d hd (List.ne_nil_of_mem hxd) g hgd
      rw [seen_eq_of_safeKey (show safeKey _ = safeKey _ from hsame).symm] at hold
      rw [hf] at hf'
      cases hf'
      exact hold.of_admits ha
    · rintro d (_ | ⟨_, hd⟩) hne g hgd
      · have hgf : g = f := by
          rw [hf] at hgd
          exact (Option.some.inj hgd).symm
        show Holds (seen (handle cfg rt req s.agent).2.fenceSeen (fenceKey req.payload)) g
        rw [handle_fenceSeen, hgf]
        exact holds_own hfits hfiles
      · exact hheld d hd hne g hgd

/-- In every run of covered requests what is changed is changed with a fence, and with no lower one
than any that was let through for it before. -/
theorem mutations_fenced (hreq : cfg.fenceRequired = true) {h : History (Serving W) Request}
    {s : Serving W} (hr : CoveredRun cfg rt eff h s) : Covered eff s.done := by
  have hok : s.Ok eff := by
    refine Run.invariant (I := fun _ s => s.Ok eff) ?_ ?_ hr
    · intro s h0
      refine ⟨⟨?_, ?_⟩, ?_⟩
      · simp [show s.done = [] from h0]
      · simp [show s.done = [] from h0]
      · simp [show s.done = [] from h0]
    · exact fun h s e s' _ hi hg hs => hi.step hreq hg hs
  exact hok.covered

/-- The calls made after a request are its own and those made before. -/
theorem mem_done {s s' : Serving W} {req : Request} (h : Serving.step cfg rt s req = some s')
    {d : Request × Call} (hd : d ∈ s'.done) : d.1 = req ∨ d ∈ s.done := by
  cases h
  rcases hcall : called cfg rt req s.agent with _ | call
  · rw [hcall] at hd
    exact .inr hd
  · rw [hcall] at hd
    rcases List.mem_cons.1 hd with rfl | hd
    · exact .inl rfl
    · exact .inr hd

end Serving

/-! ## Two runs -/

/-- Every command changes the container it is run in, and the `docker` client the containers its
command line names. -/
def busy : Effects where
  alters _ := true
  docker args := (args.drop 1).map .container
  created _ := []

/-- An agent that has made no call. -/
def fresh : Serving Unit := ⟨⟨fun _ => none, .empty, ()⟩, []⟩

/-- A container is created and then changed under a higher fence; a third request is late. -/
theorem mutations_fenced_sql : ∃ s : Serving Unit,
    s.done.map Prod.snd = [.sql "c" "root" "rds" "SET GLOBAL read_only = 1",
      .create { name := "c", image := "mysql:8.0" }] ∧ Covered busy s.done := by
  let r1 := post "/agent/create" (some "0:1:4") none
    [("spec", .object [("name", .string "c"), ("image", .string "mysql:8.0")])]
  let sql : List (String × Value) := [("container", .string "c"), ("user", .string "root"),
    ("pass", .string "rds"), ("sql", .string "SET GLOBAL read_only = 1")]
  let r2 := post "/agent/sql" (some "0:1:7") none sql
  let r3 := post "/agent/sql" (some "0:1:5") none sql
  let next (s : Serving Unit) (r : Request) : Serving Unit := ((s.step (plain true) obliging r).getD s)
  have hstep : ∀ s r, Serving.step (plain true) obliging s r = some (next s r) := fun _ _ => rfl
  have hsame : SameFile "c" "c" := rfl
  have h1 : Covers (plain true) obliging busy fresh r1 :=
    ⟨fun _ _ _ => by decide, fun _ _ _ hd => (by cases hd), fun _ _ hd => (by cases hd)⟩
  have hkeys : ∀ d ∈ (next fresh r1).done, fenceKey d.1.payload = "c" := by
    intro d hd
    rcases mem_done (hstep _ _) hd with h | h
    · rw [h]
      decide
    · cases h
  have h2 : Covers (plain true) obliging busy (next fresh r1) r2 := by
    refine ⟨fun _ _ _ => by decide, fun _ _ d hd _ _ _ => ?_, fun _ d hd _ => .inr ?_⟩
    · rw [hkeys d hd]
      exact hsame
    · rw [hkeys d hd]
      exact hsame
  have hkeys2 : ∀ d ∈ (next (next fresh r1) r2).done, fenceKey d.1.payload = "c" := by
    intro d hd
    rcases mem_done (hstep _ _) hd with h | h
    · rw [h]
      decide
    · exact hkeys d h
  have h3 : Covers (plain true) obliging busy (next (next fresh r1) r2) r3 := by
    refine ⟨fun _ _ _ => by decide, fun _ _ d hd _ _ _ => ?_, fun _ d hd _ => .inr ?_⟩
    · rw [hkeys2 d hd]
      exact hsame
    · rw [hkeys2 d hd]
      exact hsame
  have hstart : fresh.Initial := rfl
  have hrun : CoveredRun (plain true) obliging busy _ (next (next (next fresh r1) r2) r3) :=
    .step (.step (.step (.start hstart) h1 (hstep _ _)) h2 (hstep _ _)) h3 (hstep _ _)
  exact ⟨_, by decide +kernel, mutations_fenced rfl hrun⟩

/-- `/agent/exec_raw` runs any command in a container without a fence. -/
theorem mutations_unfenced : ¬ ∀ (cfg : Config) (rt : WorkloadRuntime Unit) (eff : Effects),
    cfg.fenceRequired = true → ∀ h s,
      Run (Serving.step cfg rt) (fun _ _ _ => True) Serving.Initial h s → Covered eff s.done := by
  intro hall
  let req := post "/agent/exec_raw" none none
    [("id", .string "c"), ("argv", .array [.string "rm", .string "-rf", .string "/var/lib/mysql"])]
  have hrun : Run (Serving.step (plain true) obliging) (fun _ _ _ => True) Serving.Initial
      [(fresh, req)] ((fresh.step (plain true) obliging req).getD fresh) :=
    .step (.start (show Serving.Initial fresh from rfl)) trivial rfl
  have hcov := hall (plain true) obliging busy rfl _ _ hrun
  exact hcov.fenced (req, .execRaw "c" ["rm", "-rf", "/var/lib/mysql"]) (.head _) (by decide) rfl

end Rdsctl.Agent
