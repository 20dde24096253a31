import Rdsctl.Agent.Client
import Rdsctl.Agent.Fenced

/-!
# Removing a container

The three ways in which the control plane removes a container: the step `DockerRm`, `r_rm` and
`AgentRuntime::remove`. `Honest` says that a removal which reports success has removed the container
and that none of its requests was refused by the fence check.
-/

namespace Rdsctl.Agent

open Ha Fallible

section Removal

variable {W : Type} (cl : Client) (cfg : Config) (rt : WorkloadRuntime W)

/-! ## When a removal is honest -/

/-- A removal that reports success has removed the container, and no request of it was refused by
the fence check. -/
def Honest {ε α : Type} (present : W → String → Prop) (m : Fallible ε (Site W) α)
    (container : String) (s : Site W) : Prop :=
  ∀ a s', exec m s = (.ok a, s') → ¬ present s'.agent.world container ∧ s'.refused = s.refused

variable (present : W → String → Prop)

/-- The question put through the `docker` endpoint is not refused by the fence check and, when the
container is there, finds it. -/
def InspectTold (container : String) (s : Site W) : Prop :=
  ¬ (Hears cl cfg s ∧ cfg.fenceRequired = true) ∧
    (present s.agent.world container → Hears cl cfg s ∧ rt.kind = "docker" ∧
      ∃ out, (exec (rt.cliRaw ["inspect", container]) s.agent.world).1 = .ok out)

/-- The question put to a backend finds the container when it is there. -/
def BackendTold (backend : Backend) (container : String) (s : Site W) : Prop :=
  match backend with
  | .default => present s.agent.world container → rt.exists' container s.agent.world = true
  | .agent =>
    if Hears cl cfg s then
      present s.agent.world container → rt.exists' container s.agent.world = true
    else InspectTold cl cfg rt present container s.next

/-- The question the step `DockerRm` puts finds the container when it is there. -/
def RmStep.Told (step : RmStep) (s : Site W) : Prop :=
  if step.cluster = true ∧ execAgent step.localAgent step.route = true then
    InspectTold cl cfg rt present step.container s
  else
    match routeForWorkload step.localAgent step.bound with
    | .ok backend => BackendTold cl cfg rt present backend step.container s
    | .error _ => False

/-- The node of a route is managed. -/
def NodeRoute.managed : NodeRoute → Bool
  | .unmanaged _ => false
  | .local | .agent => true

/-- The container of a step is on a managed host. -/
def RmStep.managed (step : RmStep) : Bool :=
  step.route.managed && (step.bound.map NodeRoute.managed).getD true

/-- What the step finds: the ledger refuses it; or it has the step as done and the container is
gone; or the question is answered right, unless the ledger then refuses the end of the step. -/
def RmStep.Right (step : RmStep) (s : Site W) : Prop :=
  match if step.cluster then step.ledgerBegin else .ok none with
  | .error _ => True
  | .ok (some _) => ¬ present s.agent.world step.container
  | .ok none => (if step.cluster then step.ledgerDone else .ok ()) = .ok () →
      step.Told cl cfg rt present s

/-- A reply `ok` is stored under the key of a request. -/
def StoredOk (info : ExecMeta) (a : State W) : Prop :=
  ∃ v, info.key.bind a.idem.get = some (.ofValue v) ∧ isOk v = true

/-- One of the requests that `AgentRuntime::remove` would send is answered. -/
def RemoveHeard (s : Site W) : Prop :=
  Hears cl cfg s ∨ (Hears cl cfg s.next ∧ ∃ e, isLegacyAgent (.platform e) = true ∧
    (s.delivery = .lost e ∨ s.delivery = .unanswered e))

/-! ## What the platform promises -/

/-- A container that the platform says it has removed is gone. -/
def Removes : Prop := ∀ id purge info w w', exec (rt.remove id purge info) w = (.ok (), w') →
  ¬ present w' id

/-- `docker inspect` only reads. -/
def InspectReads : Prop := ∀ c w, (exec (rt.cliRaw ["inspect", c]) w).2 = w

variable {cl cfg rt present}

/-! ## Requests that remove -/

/-- A path and a payload by which a container is removed. -/
structure RemovesBy (path : String) (payload : Value) (container : String) (purge : Bool) :
    Prop where
  listed : path ∈ mutatingPaths
  key : fenceKey payload = container
  call : ∀ cfg kind, endpoint cfg kind path payload =
    needs (container ≠ "") "缺少 container/id" (.remove container purge)

theorem removesBy_remove (id : String) (purge : Bool) : RemovesBy "/agent/remove"
    (.object [("id", .string id), ("purge", .bool purge)]) id purge :=
  ⟨by decide, rfl, fun _ _ => rfl⟩

theorem removesBy_rm (id : String) :
    RemovesBy "/agent/rm" (.object [("container", .string id)]) id false :=
  ⟨by decide, rfl, fun _ _ => rfl⟩

variable (cl cfg) in
/-- What the fence check says to a removal. -/
def refusal (info : ExecMeta) (container : String) (files : String → Option String) : Option Reply :=
  (checkFence cfg (toRequest cl "" (.object [("id", .string container)]) info) files).1

/-- The fence check looks at the fence and the key only. -/
theorem checkFence_congr {req req' : Request} (hfence : req.fence = req'.fence)
    (hkey : fenceKey req.payload = fenceKey req'.payload) (files : String → Option String) :
    checkFence cfg req files = checkFence cfg req' files := by
  unfold checkFence
  rw [hfence, hkey]

/-- A refusal is no success. -/
theorem status_of_checkFence {req : Request} {files : String → Option String} {reply : Reply}
    (h : (checkFence cfg req files).1 = some reply) : reply.status ≠ 200 := by
  unfold checkFence at h
  split at h
  · split at h
    · split at h
      · cases h
      · cases h
        simp
    · cases h
      simp
  · split at h
    · cases h
      simp
    · cases h

/-- The endpoint of a removal. -/
theorem respond_removesBy {path : String} {payload : Value} {container : String} {purge : Bool}
    (hr : RemovesBy path payload container purge) (info : ExecMeta) (w : W) :
    respond cfg rt (toRequest cl path payload info) w =
      if container ≠ "" then changing (fun _ => .object [("ok", .bool true)])
        (rt.remove container purge (toRequest cl path payload info).info) w
      else (failure "缺少 container/id", w) := by
  unfold respond
  rw [show endpoint cfg rt.kind (toRequest cl path payload info).path
    (toRequest cl path payload info).payload = _ from hr.call cfg rt.kind]
  by_cases hne : container = ""
  · simp [needs, hne]
  · simp [needs, hne, perform]

variable (cfg) in
/-- A removal as the agent handles it: a stored reply is given, the fence is refused, or the
platform is asked, and then a success is a removal and nothing else is stored. -/
theorem handle_remove
    (hremove : Removes rt present)
    (htok : TokenOk cl cfg) {path : String} {payload : Value} {container : String} {purge : Bool}
    (hr : RemovesBy path payload container purge) (info : ExecMeta) (a : State W) :
    (∃ body, info.key.bind a.idem.get = some body ∧
      handle cfg rt (toRequest cl path payload info) a = (⟨200, body⟩, a)) ∨
    (info.key.bind a.idem.get = none ∧ ∃ reply, refusal cl cfg info container a.fenceSeen = some reply ∧
      reply.status ≠ 200 ∧ handle cfg rt (toRequest cl path payload info) a = (reply, a)) ∨
    (info.key.bind a.idem.get = none ∧ refusal cl cfg info container a.fenceSeen = none ∧
      ∃ v a', handle cfg rt (toRequest cl path payload info) a = (⟨200, .ofValue v⟩, a') ∧
        (isOk v = true → ¬ present a'.world container) ∧ (isOk v = false → a'.idem = a.idem)) := by
  have hcheck : checkFence cfg (toRequest cl path payload info) a.fenceSeen =
      checkFence cfg (toRequest cl "" (.object [("id", .string container)]) info) a.fenceSeen := by
    apply checkFence_congr
    · rfl
    · exact hr.key
  have hadm := admit_listed cl cfg htok hr.listed payload info a
  rcases hstored : info.key.bind a.idem.get with _ | body
  · rw [hstored] at hadm
    simp only [] at hadm
    rcases hrefusal : refusal cl cfg info container a.fenceSeen with _ | reply
    · refine .inr (.inr ⟨rfl, rfl, ?_⟩)
      rw [hcheck, show (checkFence cfg (toRequest cl "" (.object [("id", .string container)]) info)
        a.fenceSeen).1 = none from hrefusal] at hadm
      rw [handle_of_admitted hadm]
      refine ⟨_, _, rfl, ?_, ?_⟩
      · intro hok
        rw [respond_removesBy hr] at hok ⊢
        split at hok
        · next hne =>
          rw [if_pos hne]
          rcases hcall : exec (rt.remove container purge (toRequest cl path payload info).info) a.world
            with ⟨e | ⟨⟩, w⟩
          · simp [changing, hcall, answer] at hok
          · simp only [changing, hcall]
            exact hremove _ _ _ _ _ hcall
        · cases hok
      · intro hok
        simp only [storedAt, hok, Bool.and_false]
        rfl
    · refine .inr (.inl ⟨rfl, reply, rfl, status_of_checkFence hrefusal, ?_⟩)
      have hfiles : (checkFence cfg (toRequest cl path payload info) a.fenceSeen).2 = a.fenceSeen := by
        rcases checkFence_cases cfg (toRequest cl path payload info) a.fenceSeen with
          ⟨r, h⟩ | ⟨-, -, h⟩ | ⟨f, files', -, -, -, h, -⟩
        · rw [h]
        · rw [h]
        · rw [refusal, ← hcheck, h] at hrefusal
          cases hrefusal
      rw [hfiles, hcheck, show (checkFence cfg (toRequest cl "" (.object [("id", .string container)])
        info) a.fenceSeen).1 = some reply from hrefusal] at hadm
      exact handle_of_reply hadm
  · rw [hstored] at hadm
    exact .inl ⟨body, rfl, handle_of_reply hadm⟩

/-- A request is answered with a success. -/
def Succeeds {ε : Type} (r : Except ε Value × Site W) : Prop := ∃ v, r.1 = .ok v ∧ isOk v = true

variable (cl cfg) in
/-- The fence check refuses a removal. -/
def Refuses (info : ExecMeta) (container : String) (a : State W) : Prop :=
  info.key.bind a.idem.get = none ∧ refusal cl cfg info container a.fenceSeen ≠ none

/-- What a removal that was sent comes to. -/
structure Sent (present : W → String → Prop) (cl : Client) (cfg : Config) (info : ExecMeta)
    (container : String) (s : Site W) (r : Except String Value × Site W) : Prop where
  net : r.2.net = s.net.tail
  removed : Succeeds r → r.2.refused = s.refused ∧ (¬ present r.2.agent.world container ∨
    (Hears cl cfg s ∧ StoredOk info s.agent ∧ r.2.agent = s.agent))
  failed : ¬ Succeeds r → ¬ present r.2.agent.world container ∨ r.2.agent.idem = s.agent.idem
  refused : r.2.refused = s.refused ∨ (¬ Succeeds r ∧ Refuses cl cfg info container s.agent ∧
    r.2.agent = s.agent)
  replayed : StoredOk info s.agent → r.2.agent = s.agent ∧ (Hears cl cfg s → Succeeds r)
  refuses : Refuses cl cfg info container s.agent → ¬ Succeeds r

theorem not_succeeds {ε : Type} {e : ε} {s : Site W} : ¬ Succeeds ((.error e : Except ε Value), s) := by
  rintro ⟨v, hv, -⟩
  cases hv

theorem readReply_eq_ok {reply : Reply} {v : Value} (h : readReply cl reply = .ok v) :
    reply.status = 200 ∧ reply.body = .ofValue v := by
  unfold readReply at h
  split at h
  · cases h
  · next hstatus =>
    split at h
    · next hbody =>
      cases h
      exact ⟨not_not.1 hstatus, hbody⟩
    · cases h

/-- A request that fails and leaves the agent as it was. -/
theorem Sent.of_error {info : ExecMeta} {container : String} {s : Site W} {e : String}
    (hheard : StoredOk info s.agent → ¬ Hears cl cfg s) :
    Sent present cl cfg info container s (.error e, s.next) where
  net := rfl
  removed h := absurd h not_succeeds
  failed _ := .inr rfl
  refused := .inl rfl
  replayed h := ⟨rfl, fun hh => absurd hh (hheard h)⟩
  refuses _ := not_succeeds

theorem request_remove
    (hremove : Removes rt present)
    {path : String} {payload : Value} {container : String} {purge : Bool}
    (hr : RemovesBy path payload container purge) (info : ExecMeta) (s : Site W) :
    Sent present cl cfg info container s (request cl cfg rt path payload info s) := by
  by_cases htok : TokenOk cl cfg
  · have hcases := handle_remove cfg hremove htok hr info s.agent
    by_cases hdel : s.delivery = .answered
    · -- answered: as the agent handled it
      rcases hcases with ⟨body, hstored, hh⟩ | ⟨hnone, reply, hrefusal, hstatus, hh⟩ |
        ⟨hnone, hpass, v, a', hh, hgone, hidem⟩
      · rw [request_answered hdel hh]
        refine ⟨rfl, ?_, fun _ => .inr rfl, .inl rfl, ?_, ?_⟩
        · rintro ⟨v, hv, hok⟩
          have hread : readReply cl ⟨200, body⟩ = .ok v := hv
          have hbody := (readReply_eq_ok hread).2
          exact ⟨rfl, .inr ⟨⟨hdel, htok⟩, ⟨v, hstored.trans (congrArg some hbody), hok⟩, rfl⟩⟩
        · rintro ⟨v, hv, hok⟩
          rw [hstored, Option.some.injEq] at hv
          exact ⟨rfl, fun _ => ⟨v, by rw [hv]; rfl, hok⟩⟩
        · rintro ⟨hnone, -⟩
          rw [hstored] at hnone
          cases hnone
      · rw [request_answered hdel hh]
        have hfail : ∀ s' : Site W, ¬ Succeeds (readReply cl reply, s') := by
          rintro s' ⟨v, hv, -⟩
          exact hstatus (readReply_eq_ok (show readReply cl reply = .ok v from hv)).1
        refine ⟨rfl, fun h => absurd h (hfail _), fun _ => .inr rfl,
          .inr ⟨hfail _, ⟨hnone, ?_⟩, rfl⟩, ?_, fun _ => hfail _⟩
        · rw [hrefusal]
          exact Option.some_ne_none _
        · rintro ⟨v, hv, -⟩
          rw [hnone] at hv
          cases hv
      · rw [request_answered hdel hh]
        have hsucc : ∀ s' : Site W, Succeeds (readReply cl ⟨200, .ofValue v⟩, s') ↔ isOk v = true :=
          fun s' => ⟨fun ⟨_, hv, hok⟩ => by cases hv; exact hok, fun hok => ⟨v, rfl, hok⟩⟩
        refine ⟨rfl, fun h => ⟨rfl, .inl (hgone ((hsucc _).1 h))⟩, fun h => .inr ?_, .inl rfl, ?_, ?_⟩
        · exact hidem (Bool.eq_false_iff.2 fun hok => h ((hsucc _).2 hok))
        · rintro ⟨v, hv, -⟩
          rw [hnone] at hv
          cases hv
        · exact fun h => absurd hpass h.2
    · -- not answered: the agent may have handled it
      have hheard : ¬ Hears cl cfg s := fun h => hdel h.1
      obtain ⟨e, -, h | h⟩ := request_failed cl cfg rt hdel path payload info
      · rw [h]
        exact .of_error fun _ => hheard
      · rw [h]
        rcases hcases with ⟨body, -, hh⟩ | ⟨-, reply, -, -, hh⟩ | ⟨hnone, -, v, a', hh, hgone, hidem⟩
        · rw [hh]
          exact .of_error fun _ => hheard
        · rw [hh]
          exact .of_error fun _ => hheard
        · rw [hh]
          refine ⟨rfl, fun h => absurd h not_succeeds, fun _ => ?_, .inl rfl, ?_,
            fun _ => not_succeeds⟩
          · rcases hok : isOk v with _ | _
            · exact .inr (hidem hok)
            · exact .inl (hgone hok)
          · rintro ⟨v, hv, -⟩
            rw [hnone] at hv
            cases hv
  · have hheard : ¬ Hears cl cfg s := fun h => htok h.2
    obtain ⟨e, he⟩ := request_of_not_hears cl cfg rt hheard path payload info fun h => absurd h htok
    rw [he]
    exact .of_error fun _ => hheard

variable (cl cfg rt) in
/-- `rt_call` succeeds when its request does, and an error of the request is one of the platform. -/
theorem rtCall_cases (path : String) (payload : Value) (info : ExecMeta) (s : Site W) :
    (rtCall cl cfg rt path payload info s).2 = (request cl cfg rt path payload info s).2 ∧
      ((∃ v, (rtCall cl cfg rt path payload info s).1 = .ok v) ↔
        Succeeds (request cl cfg rt path payload info s)) ∧
      ∀ e, (request cl cfg rt path payload info s).1 = .error e →
        (rtCall cl cfg rt path payload info s).1 = .error (.platform e) := by
  unfold rtCall
  rcases request cl cfg rt path payload info s with ⟨e | v, s'⟩
  · refine ⟨rfl, ⟨fun ⟨v, hv⟩ => (by cases hv), fun h => absurd h not_succeeds⟩, ?_⟩
    rintro e' ⟨rfl⟩
    rfl
  · rcases hok : isOk v with _ | _
    · simp [hok, Succeeds]
    · simp [hok, Succeeds]

variable (cl cfg rt) in
/-- The two requests of `AgentRuntime::remove`, the second one for an agent of an old version. -/
theorem agentRemove_eq_ok_iff (lease : String → Option Fence) (id : String) (purge : Bool)
    (given : ExecMeta) (s s' : Site W) :
    let info := withLeaseFence lease id given
    let payload : Value := .object [("id", .string id), ("purge", .bool purge)]
    let r1 := request cl cfg rt "/agent/remove" payload info s
    let r2 := request cl cfg rt "/agent/rm" (.object [("container", .string id)]) info r1.2
    exec (agentRemove cl cfg rt lease id purge given) s = (.ok (), s') ↔
      (Succeeds r1 ∧ s' = r1.2) ∨ ((∃ e, (rtCall cl cfg rt "/agent/remove" payload info s).1 = .error e ∧
        isLegacyAgent e = true) ∧ Succeeds r2 ∧ s' = r2.2) := by
  intro info payload r1 r2
  obtain ⟨hleft1, hok1, -⟩ := rtCall_cases cl cfg rt "/agent/remove" payload info s
  obtain ⟨hleft2, hok2, -⟩ := rtCall_cases cl cfg rt "/agent/rm"
    (.object [("container", .string id)]) info r1.2
  simp only [exec, agentRemove]
  rcases hcall1 : rtCall cl cfg rt "/agent/remove" payload info s with ⟨e | v, s1⟩
  · rw [hcall1] at hleft1 hok1
    cases hleft1
    simp only []
    have hno1 : ¬ Succeeds r1 := fun h => by
      obtain ⟨v, hv⟩ := hok1.2 h
      cases hv
    by_cases hleg : isLegacyAgent e = true
    · rw [if_pos hleg]
      rcases hcall2 : rtCall cl cfg rt "/agent/rm" (.object [("container", .string id)]) info r1.2
        with ⟨e2 | v2, s2⟩
      · rw [hcall2] at hok2
        have hno2 : ¬ Succeeds r2 := fun h => by
          obtain ⟨v, hv⟩ := hok2.2 h
          cases hv
        simp [hno1, hno2]
      · rw [hcall2] at hok2 hleft2
        have hyes : Succeeds r2 := hok2.1 ⟨v2, rfl⟩
        cases hleft2
        constructor
        · rintro h
          cases h
          exact .inr ⟨⟨e, rfl, hleg⟩, hyes, rfl⟩
        · rintro (⟨h, -⟩ | ⟨-, -, rfl⟩)
          · exact absurd h hno1
          · rfl
    · rw [if_neg hleg]
      simp [hno1, hleg]
  · rw [hcall1] at hleft1 hok1
    cases hleft1
    have hyes : Succeeds r1 := hok1.1 ⟨v, rfl⟩
    constructor
    · rintro h
      cases h
      exact .inl ⟨hyes, rfl⟩
    · rintro (⟨-, rfl⟩ | ⟨⟨e, he, -⟩, -⟩)
      · rfl
      · cases he

/-- `AgentRuntime::remove` is honest unless one of its requests is answered with a stored reply. -/
theorem agentRemove_honest_iff
    (hremove : Removes rt present)
    (lease : String → Option Fence) (id : String) (purge : Bool) (given : ExecMeta) (s : Site W) :
    Honest present (agentRemove cl cfg rt lease id purge given) id s ↔
      ¬ (present s.agent.world id ∧ StoredOk given s.agent ∧ RemoveHeard cl cfg s) := by
  have hkey : (withLeaseFence lease id given).key = given.key := by
    unfold withLeaseFence
    split
    · rfl
    · rfl
  have hstored : ∀ a : State W, StoredOk (withLeaseFence lease id given) a ↔ StoredOk given a := by
    intro a
    unfold StoredOk
    rw [hkey]
  have hiff := agentRemove_eq_ok_iff cl cfg rt lease id purge given s
  simp only [] at hiff
  generalize withLeaseFence lease id given = info at hkey hstored hiff
  have h1 : Sent present cl cfg info id s _ :=
    request_remove hremove (removesBy_remove id purge) info s
  obtain ⟨-, hok1, herr⟩ := rtCall_cases cl cfg rt "/agent/remove"
    (.object [("id", .string id), ("purge", .bool purge)]) info s
  have hfail := fun (e : String) he => request_error cl cfg rt (s := s) (e := e) he "/agent/remove"
    (.object [("id", .string id), ("purge", .bool purge)]) info
  generalize request cl cfg rt "/agent/remove" (.object [("id", .string id), ("purge", .bool purge)])
    info s = r1 at h1 hiff herr hok1 hfail
  have h2 : Sent present cl cfg info id r1.2 _ := request_remove hremove (removesBy_rm id) info r1.2
  generalize request cl cfg rt "/agent/rm" (.object [("container", .string id)]) info r1.2 = r2
    at h2 hiff
  have hnext : Hears cl cfg r1.2 ↔ Hears cl cfg s.next := by
    unfold Hears Site.delivery
    rw [h1.net]
    rfl
  constructor
  · rintro hhonest ⟨hpresent, hst, hheard | ⟨hheard, e, hleg, hdel⟩⟩
    · -- the first request is answered with the stored reply
      obtain ⟨hagent, hsucc⟩ := h1.replayed ((hstored _).2 hst)
      have := (hhonest () r1.2 ((hiff _).2 (.inl ⟨hsucc hheard, rfl⟩))).1
      rw [hagent] at this
      exact this hpresent
    · -- the first request is lost, and the second one is answered with the stored reply
      have hr1 := hfail e hdel
      obtain ⟨hagent1, -⟩ := h1.replayed ((hstored _).2 hst)
      obtain ⟨hagent2, hsucc⟩ := h2.replayed (by rw [hagent1]; exact (hstored _).2 hst)
      have hok := (hiff r2.2).2
        (.inr ⟨⟨_, herr e hr1, hleg⟩, hsucc (hnext.2 hheard), rfl⟩)
      have := (hhonest () r2.2 hok).1
      rw [hagent2, hagent1] at this
      exact this hpresent
  · rintro hno ⟨⟩ s' hexec
    rcases (hiff s').1 hexec with ⟨hsucc, rfl⟩ | ⟨⟨e, he, hleg⟩, hsucc, rfl⟩
    · obtain ⟨hrefused, hgone | ⟨hheard, hst, hagent⟩⟩ := h1.removed hsucc
      · exact ⟨hgone, hrefused⟩
      · rw [hagent]
        exact ⟨fun hp => hno ⟨hp, (hstored _).1 hst, .inl hheard⟩, hrefused⟩
    · have hno1 : ¬ Succeeds r1 := fun h => by
        obtain ⟨v, hv⟩ := hok1.2 h
        rw [hv] at he
        cases he
      obtain ⟨hrefused2, hgone2⟩ := h2.removed hsucc
      have hrefused : r2.2.refused = s.refused := by
        rcases h1.refused with h | ⟨-, hrefuses, hagent⟩
        · rw [hrefused2, h]
        · rw [← hagent] at hrefuses
          exact absurd hsucc (h2.refuses hrefuses)
      refine ⟨?_, hrefused⟩
      rcases hgone2 with hgone | ⟨hheard, hst, hagent2⟩
      · exact hgone
      rw [hagent2]
      rcases h1.failed hno1 with hgone | hidem
      · exact hgone
      -- the stored reply was there from the beginning
      have hst1 : StoredOk info s.agent := by
        unfold StoredOk at hst ⊢
        rwa [hidem] at hst
      obtain ⟨hagent1, hheard1⟩ := h1.replayed hst1
      rw [hagent1]
      intro hp
      refine hno ⟨hp, (hstored _).1 hst1, .inr ⟨hnext.1 hheard, ?_⟩⟩
      have hlost : ∀ e', s.delivery = .lost e' ∨ s.delivery = .unanswered e' →
          isLegacyAgent (.platform e') = true := by
        intro e' hdel
        rw [herr e' (hfail e' hdel)] at he
        cases he
        exact hleg
      rcases hdel : s.delivery with _ | e' | e'
      · exact absurd (hheard1 ⟨hdel, hheard.2⟩) hno1
      · exact ⟨e', hlost e' (.inl hdel), .inl rfl⟩
      · exact ⟨e', hlost e' (.inr hdel), .inr rfl⟩

/-! ## Questions and removals -/

variable (cl cfg) in
/-- A backend's removal without an idempotency key is honest. -/
theorem backend_remove_honest
    (hremove : Removes rt present)
    (lease : String → Option Fence) (backend : Backend) (container : String) (purge : Bool)
    (s : Site W) : Honest present (backend.remove cl cfg rt lease container purge) container s := by
  cases backend with
  | default =>
    rintro ⟨⟩ s' h
    unfold Backend.remove at h
    rw [exec_zoom] at h
    rcases hcall : exec (rt.remove container purge {}) s.agent.world with ⟨e | ⟨⟩, w⟩
    · rw [hcall] at h
      cases h
    · rw [hcall] at h
      cases h
      exact ⟨hremove _ _ _ _ _ hcall, rfl⟩
  | agent =>
    refine (agentRemove_honest_iff hremove lease container purge {} s).2 ?_
    rintro ⟨-, ⟨v, hv, -⟩, -⟩
    cases hv

variable (cl cfg rt present) in
/-- The question through the `docker` endpoint leaves the machine as it is, and finds nothing when
it is refused. -/
theorem inspect_told_iff (hinspect : InspectReads rt)
    (container : String) (s : Site W) :
    (inspects cl cfg rt container s).2.agent = s.agent ∧
    ((inspects cl cfg rt container s).2.refused ≠ s.refused →
      (inspects cl cfg rt container s).1 = false) ∧
    (InspectTold cl cfg rt present container s ↔
      (inspects cl cfg rt container s).2.refused = s.refused ∧
        (present s.agent.world container → (inspects cl cfg rt container s).1 = true)) := by
  obtain ⟨hanswer, hleft⟩ := inspects_spec cl cfg hinspect container s
  have hsame : (inspects cl cfg rt container s).2.refused = s.refused ↔
      ¬ (Hears cl cfg s ∧ cfg.fenceRequired = true) := by
    rw [hleft]
    by_cases h : Hears cl cfg s ∧ cfg.fenceRequired = true
    · simp [h]
    · simp [h]
  refine ⟨by rw [hleft]; rfl, ?_, ?_⟩
  · intro hne
    have hreq := not_not.1 fun h => hne (hsame.2 h)
    by_contra htrue
    have := (hanswer.1 (Bool.not_eq_false _ ▸ htrue)).2.1
    rw [hreq.2] at this
    cases this
  · rw [hsame, hanswer]
    unfold InspectTold
    constructor
    · rintro ⟨hno, htold⟩
      refine ⟨hno, fun hp => ?_⟩
      obtain ⟨hheard, hkind, hout⟩ := htold hp
      exact ⟨hheard, Bool.eq_false_iff.2 fun h => hno ⟨hheard, h⟩, hkind, hout⟩
    · rintro ⟨hno, htold⟩
      refine ⟨hno, fun hp => ?_⟩
      obtain ⟨hheard, -, hkind, hout⟩ := htold hp
      exact ⟨hheard, hkind, hout⟩

variable (cl cfg rt present) in
/-- The question of a backend leaves the machine as it is, and finds nothing when it is refused. -/
theorem backend_exists_spec (hinspect : InspectReads rt)
    (backend : Backend) (container : String) (s : Site W) :
    (backend.exists' cl cfg rt container s).2.agent = s.agent ∧
    ((backend.exists' cl cfg rt container s).2.refused ≠ s.refused →
      (backend.exists' cl cfg rt container s).1 = false) ∧
    (BackendTold cl cfg rt present backend container s ↔
      (backend.exists' cl cfg rt container s).2.refused = s.refused ∧
        (present s.agent.world container → (backend.exists' cl cfg rt container s).1 = true)) := by
  cases backend with
  | default =>
    refine ⟨rfl, fun h => absurd rfl h, ?_⟩
    exact ⟨fun h => ⟨rfl, h⟩, fun h => h.2⟩
  | agent =>
    unfold Backend.exists' BackendTold
    simp only []
    rw [agentRuntimeExists_spec]
    by_cases hheard : Hears cl cfg s
    · rw [if_pos hheard, if_pos hheard]
      exact ⟨rfl, fun h => absurd rfl h, fun h => ⟨rfl, h⟩, fun h => h.2⟩
    · rw [if_neg hheard, if_neg hheard]
      exact inspect_told_iff cl cfg rt present hinspect container s.next

/-- A question and then a removal, where the question leaves the machine as it is, are honest
exactly when the question is not refused and finds the container. -/
theorem ask_then_remove_honest_iff {ε : Type} (rm : Fallible ε (Site W) Unit)
    {m : Fallible ε (Site W) Unit} {q : Bool × Site W} {container : String} {s : Site W}
    (hm : exec m s = if q.1 then exec rm q.2 else (.ok (), q.2))
    (hagent : q.2.agent = s.agent) (hrefused : q.2.refused ≠ s.refused → q.1 = false)
    (hrm : Honest present rm container q.2) :
    Honest present m container s ↔
      q.2.refused = s.refused ∧ (present s.agent.world container → q.1 = true) := by
  constructor
  · intro hhonest
    have hfalse : q.1 = false → ¬ present s.agent.world container ∧ q.2.refused = s.refused := by
      intro hq
      have := hhonest () q.2 (by rw [hm, hq]; rfl)
      rwa [hagent] at this
    constructor
    · by_contra hne
      exact hne (hfalse (hrefused hne)).2
    · intro hp
      by_contra hq
      exact (hfalse (Bool.eq_false_iff.2 hq)).1 hp
  · rintro ⟨hsame, htold⟩ ⟨⟩ s' hexec
    rw [hm] at hexec
    split at hexec
    · obtain ⟨hgone, href⟩ := hrm () s' hexec
      exact ⟨hgone, href.trans hsame⟩
    · next hq =>
      cases hexec
      rw [hagent]
      exact ⟨fun hp => hq (htold hp), hsame⟩

variable (cl cfg) in
/-- A removal by a backend is honest exactly when its question finds the container. -/
theorem removeBy_honest_iff
    (hremove : Removes rt present)
    (hinspect : InspectReads rt)
    (lease : String → Option Fence) (backend : Backend) (container : String) (purge : Bool)
    (s : Site W) :
    Honest present (removeBy cl cfg rt lease (.ok backend) container purge) container s ↔
      BackendTold cl cfg rt present backend container s := by
  obtain ⟨hagent, hrefused, htold⟩ :=
    backend_exists_spec cl cfg rt present hinspect backend container s
  rw [htold]
  let rm : Fallible String (Site W) Unit := fun s' =>
    ((backend.remove cl cfg rt lease container purge s').1.mapError RuntimeError.text,
      (backend.remove cl cfg rt lease container purge s').2)
  refine ask_then_remove_honest_iff rm ?_ hagent hrefused ?_
  · unfold removeBy
    rcases hq : backend.exists' cl cfg rt container s with ⟨_ | _, s'⟩
    · simp only [exec, hq]
      rfl
    · simp only [exec, hq, rm, if_true]
      rcases backend.remove cl cfg rt lease container purge s' with ⟨e | ⟨⟩, s''⟩ <;> rfl
  · rintro ⟨⟩ s' hexec
    have hrm := backend_remove_honest cl cfg hremove lease backend container purge
      (backend.exists' cl cfg rt container s).2
    simp only [exec, rm] at hexec
    rcases hcall : backend.remove cl cfg rt lease container purge
      (backend.exists' cl cfg rt container s).2 with ⟨e | ⟨⟩, s''⟩
    · rw [hcall] at hexec
      cases hexec
    · rw [hcall] at hexec
      cases hexec
      exact hrm () _ hcall

/-- A removal with the fence of a lease is honest. -/
theorem rmFenced_honest
    (hremove : Removes rt present)
    (container : String) (fence : Option Fence) (s : Site W) :
    Honest present (rmFenced cl cfg rt container ⟨fence, none⟩) container s := by
  rintro ⟨⟩ s' hexec
  have hsent : Sent present cl cfg ⟨fence, none⟩ container s _ :=
    request_remove hremove (removesBy_rm container) ⟨fence, none⟩ s
  unfold rmFenced at hexec
  simp only [exec] at hexec
  rcases hcall : request cl cfg rt "/agent/rm" (.object [("container", .string container)])
    ⟨fence, none⟩ s with ⟨e | v, s1⟩
  · rw [hcall] at hexec
    cases hexec
  · rw [hcall] at hexec hsent
    simp only [] at hexec
    split at hexec
    · next hok =>
      cases hexec
      obtain ⟨hrefused, hgone | ⟨-, ⟨v, hv, -⟩, -⟩⟩ := hsent.removed ⟨v, rfl, hok⟩
      · exact ⟨hgone, hrefused⟩
      · cases hv
    · cases hexec

variable (cl cfg) in
/-- The removal of the step `DockerRm` on a managed host. -/
theorem step_removal_honest_iff
    (hremove : Removes rt present)
    (hinspect : InspectReads rt)
    (lease : String → Option Fence) {step : RmStep} (hmanaged : step.managed = true) (s : Site W) :
    Honest present (step.removal cl cfg rt lease) step.container s ↔
      step.Told cl cfg rt present s := by
  have hboth : step.route.managed = true ∧ (step.bound.map NodeRoute.managed).getD true = true :=
    Bool.and_eq_true_iff.1 hmanaged
  obtain ⟨backend, hbackend⟩ :
      ∃ backend, routeForWorkload step.localAgent step.bound = .ok backend := by
    rcases hbound : step.bound with _ | route
    · exact ⟨.default, rfl⟩
    · rcases route with _ | _ | host
      · exact ⟨_, rfl⟩
      · exact ⟨_, rfl⟩
      · rw [hbound] at hboth
        cases hboth.2
  have hdk := removeBy_honest_iff cl cfg hremove hinspect lease backend
    step.container (purges step.container) s
  unfold RmStep.removal RmStep.Told
  rw [hbackend]
  rcases hcluster : step.cluster with _ | _
  · simpa using hdk
  · rcases hagent : execAgent step.localAgent step.route with _ | _
    · simp only [Bool.false_eq_true, ↓reduceIte, and_false]
      rcases hroute : step.route with _ | _ | host
      · exact hdk
      · exact hdk
      · rw [hroute] at hboth
        cases hboth.1
    · simp only [↓reduceIte, and_self]
      obtain ⟨hsame, hrefused, htold⟩ :=
        inspect_told_iff cl cfg rt present hinspect step.container s
      rw [htold]
      refine ask_then_remove_honest_iff (rmFenced cl cfg rt step.container ⟨step.fence, none⟩) ?_
        hsame hrefused (rmFenced_honest hremove step.container step.fence _)
      rcases hq : inspects cl cfg rt step.container s with ⟨_ | _, s'⟩
      · simp only [exec, agentExists, hq]
        rfl
      · simp only [exec, agentExists, hq]
        rfl

/-- A removal that reports success has removed the container, with none of its requests refused:
the step `DockerRm` and `r_rm` exactly when their question finds the container that is there, and
`AgentRuntime::remove` exactly when it gets no stored reply while the container is there. -/
theorem removals_honest_iff
    (hremove : Removes rt present)
    (hinspect : InspectReads rt)
    (lease : String → Option Fence) (s : Site W) :
    (∀ step : RmStep, step.managed = true →
      (Honest present (dockerRm cl cfg rt step lease) step.container s ↔
        step.Right cl cfg rt present s)) ∧
    (∀ id purge given, Honest present (agentRemove cl cfg rt lease id purge given) id s ↔
      ¬ (present s.agent.world id ∧ StoredOk given s.agent ∧ RemoveHeard cl cfg s)) ∧
    (∀ localAgent route backend container, runtimeOfRoute localAgent route = .ok backend →
      (Honest present (rRm cl cfg rt localAgent lease route container) container s ↔
        BackendTold cl cfg rt present backend container s)) := by
  refine ⟨fun step hmanaged => ?_, fun id purge given => ?_, fun localAgent route backend c h => ?_⟩
  · have hstep := step_removal_honest_iff cl cfg hremove hinspect lease hmanaged s
    unfold RmStep.Right
    have hexec : exec (dockerRm cl cfg rt step lease) s = _ := dockerRm.eq_1 cl cfg rt step lease s
    rcases hbegin : (if step.cluster then step.ledgerBegin else .ok none) with e | (_ | prev)
    · -- the ledger refuses the step
      rw [hbegin] at hexec
      refine iff_of_true (fun a s' h => ?_) trivial
      rw [hexec] at h
      cases h
    · rw [hbegin] at hexec
      simp only [] at hexec ⊢
      rcases hdone : (if step.cluster then step.ledgerDone else .ok ()) with e | ⟨⟩
      · -- the ledger refuses the end of the step
        refine iff_of_true (fun a s' h => ?_) (fun h => by cases h)
        rw [hexec, hdone] at h
        split at h
        · cases h
        · cases h
      · rw [hdone] at hexec
        rw [← hstep]
        constructor
        · rintro hhonest - ⟨⟩ s' hremoval
          refine hhonest ("容器 " ++ step.container ++ " 已移除") s' ?_
          rw [hexec, show step.removal cl cfg rt lease s = (.ok (), s') from hremoval]
        · intro hhonest a s' h
          rw [hexec] at h
          split at h
          · cases h
          · next hremoval =>
            cases h
            exact hhonest rfl () _ hremoval
    · -- the ledger has the step as done
      rw [hbegin] at hexec
      constructor
      · exact fun hhonest => (hhonest _ s hexec).1
      · intro hgone a s' h
        rw [hexec] at h
        cases h
        exact ⟨hgone, rfl⟩
  · exact agentRemove_honest_iff hremove lease id purge given s
  · unfold rRm
    rw [h]
    exact removeBy_honest_iff cl cfg hremove hinspect lease backend c false s

end Removal

/-! ## Two removals -/

/-- A platform whose state is the list of its containers. -/
def shelf : WorkloadRuntime (List String) where
  kind := "docker"
  create spec _ := update fun w => spec.name :: w
  start _ _ := pure ()
  stop _ _ := pure ()
  restart _ _ := pure ()
  remove id _ _ := update fun w => w.filter (· != id)
  rename src dest _ := update fun w => w.map fun c => if c = src then dest else c
  exists' id w := w.contains id
  state _ _ := none
  health _ _ := .ok none
  logs _ _ _ := .ok ""
  exec _ _ := pure ""
  execRaw _ _ := pure ⟨"", "", 0⟩
  writeFile _ _ _ := pure ()
  networkEnsure _ _ := pure ()
  networkRemove _ _ := pure ()
  expose _ _ := .ok ""
  cliRaw args := fun w =>
    match args with
    | ["inspect", id] =>
      if id ∈ w then (.ok "[]", w) else (.error (.platform ("No such object: " ++ id)), w)
    | _ => (.ok "", w)

theorem shelf_remove : Removes shelf fun w c => c ∈ w := by
  intro id purge info w w' h
  cases h
  simp

theorem shelf_inspect : InspectReads shelf := by
  intro c w
  simp only [exec, shelf]
  split
  · rfl
  · rfl

/-- The agent of a host with one container. -/
def hosting : Site (List String) := ⟨⟨fun _ => none, .empty, ["rds-db-slave-1"]⟩, [], 0⟩

/-- The step that removes the container of that host, in cluster mode. -/
def removing : RmStep where
  container := "rds-db-slave-1"
  cluster := true
  localAgent := false
  route := .agent
  bound := some .agent
  fence := some ⟨0, 1, 7⟩
  ledgerBegin := .ok none
  ledgerDone := .ok ()

def client : Client := ⟨"http://10.0.0.2:9190", none, fun _ => ""⟩

/-- Where no fence is required the container is found and removed. -/
theorem removals_honest_unfenced :
    Honest (fun w c => c ∈ w) (dockerRm client (plain false) shelf removing fun _ => none)
      "rds-db-slave-1" hosting := by
  have hiff := ((removals_honest_iff shelf_remove shelf_inspect (fun _ => none) hosting).1 removing
    rfl : Honest (fun w c => c ∈ w) (dockerRm client (plain false) shelf removing fun _ => none)
      _ hosting ↔ _)
  refine hiff.2 fun _ => ?_
  show InspectTold client (plain false) shelf (fun w c => c ∈ w) "rds-db-slave-1" hosting
  exact ⟨fun h => (by cases h.2), fun _ => ⟨⟨rfl, .inl rfl⟩, rfl, "[]", rfl⟩⟩

/-- An agent that requires fences refuses the question, and the step reports a removal. -/
theorem removal_unheard : ¬ ∀ (cl : Client) (cfg : Config) (rt : WorkloadRuntime (List String)),
    Removes rt (fun w c => c ∈ w) → InspectReads rt → ∀ lease s (step : RmStep), step.managed = true →
      Honest (fun w c => c ∈ w) (dockerRm cl cfg rt step lease) step.container s := by
  intro hall
  have h := hall client (plain true) shelf shelf_remove shelf_inspect (fun _ => none) hosting removing
    rfl
  exact (h _ { hosting with refused := 1 } rfl).1 (.head _)

end Rdsctl.Agent
