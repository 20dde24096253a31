import Rdsctl.Inst.Basic
import Rdsctl.Lib.Endless

/-!
# The host ports

`alloc_host_port` of `src/instance.rs` reads once which ports the known instances declare, draws
numbers from a counter that all calls share, and returns the first one that is in range, was not
declared and can be bound. At the end of the range the counter is set back by a store of its own.
`Ports` interleaves the calls with each other and with changes of the registry. Nothing tells a call of
the ports that operations in progress have, but that the counter has passed them (`exclusive_and_found`).
-/

namespace Rdsctl.Inst

open Ha

/-! ## The registry -/

/-- The ports that a record declares. -/
def RdsInstance.declaredPorts (i : RdsInstance) : List Nat :=
  ((i.nodes.flatMap fun n => [n.hostPort, n.rpcHostPort]) ++
    (i.proxies.flatMap fun p => [p.mysqlPort, p.mngPort]) ++
      [i.lvsMysqlPort, i.proxyMysqlPort, i.proxyMngPort]).filter (0 < ·)

/-- `declared_ports` -/
def declaredPorts (instances : BTreeMap String RdsInstance) : List Nat :=
  instances.values.flatMap (·.declaredPorts)

theorem mem_declaredPorts {instances : BTreeMap String RdsInstance} {p : Nat} :
    p ∈ declaredPorts instances ↔ ∃ (x : String) (i : RdsInstance), instances[x]? = some i ∧
      p ∈ i.declaredPorts := by
  simp only [declaredPorts, BTreeMap.values_eq_map_toList, List.mem_flatMap, List.mem_map, Prod.exists,
    Std.ExtTreeMap.mem_toList_iff_getElem?_eq_some]
  constructor
  · rintro ⟨i, ⟨x, j, hx, rfl⟩, hp⟩
    exact ⟨x, j, hx, hp⟩
  · rintro ⟨x, i, hx, hp⟩
    exact ⟨i, ⟨x, i, hx, rfl⟩, hp⟩

/-- A record that is written declares its ports, besides those that were declared. -/
theorem declaredPorts_insert {instances : BTreeMap String RdsInstance} {x : String} {i : RdsInstance}
    {p : Nat} (h : p ∈ declaredPorts (instances.insert x i)) :
    p ∈ i.declaredPorts ∨ p ∈ declaredPorts instances := by
  obtain ⟨y, j, hy, hp⟩ := mem_declaredPorts.1 h
  rcases BTreeMap.insert_eq_some hy with ⟨-, rfl⟩ | hy
  · exact .inl hp
  · exact .inr (mem_declaredPorts.2 ⟨y, j, hy, hp⟩)

theorem declaredPorts_erase {instances : BTreeMap String RdsInstance} {x : String} {p : Nat}
    (h : p ∈ declaredPorts (instances.erase x)) : p ∈ declaredPorts instances := by
  obtain ⟨y, j, hy, hp⟩ := mem_declaredPorts.1 h
  rw [BTreeMap.getElem?_erase_ite] at hy
  split at hy
  · cases hy
  · exact mem_declaredPorts.2 ⟨y, j, hy, hp⟩

/-! ## The calls -/

/-- The ports that are given out. -/
def firstPort : Nat := 35000

def endPort : Nat := 60000

def InRange (p : Nat) : Prop := firstPort ≤ p ∧ p < endPort

instance (p : Nat) : Decidable (InRange p) := inferInstanceAs (Decidable (_ ∧ _))

/-- Where a call of `alloc_host_port` is; `taken` is what it has read of the registry. -/
inductive PortCall
  /-- It is about to draw. -/
  | drawing (taken : List Nat)
  /-- It has drawn a number behind the range and is about to set the counter back. -/
  | overrun (taken : List Nat)
  /-- It is about to bind the port. -/
  | probing (taken : List Nat) (p : Nat)
  /-- It has returned the port to an operation in progress. -/
  | returned (p : Nat)
  /-- That operation has ended. -/
  | released
deriving DecidableEq

namespace PortCall

/-- The port that the call, or its operation, has in hand. -/
def port? : PortCall → Option Nat
  | .probing _ p | .returned p => some p
  | .drawing _ | .overrun _ | .released => none

/-- What a call that is about to draw avoids. -/
def taken? : PortCall → Option (List Nat)
  | .drawing taken => some taken
  | .overrun _ | .probing .. | .returned _ | .released => none

def probing? : PortCall → Option Nat
  | .probing _ p => some p
  | .drawing _ | .overrun _ | .returned _ | .released => none

/-- The call has not returned yet. -/
def running : PortCall → Bool
  | .drawing _ | .overrun _ | .probing .. => true
  | .returned _ | .released => false

/-- The call has drawn a number behind the range. -/
def wrapping : PortCall → Bool
  | .overrun _ => true
  | .drawing _ | .probing .. | .returned _ | .released => false

end PortCall

/-- The registry, the counter and the calls. -/
structure Ports where
  instances : BTreeMap String RdsInstance
  nextPort : Nat
  calls : List PortCall

inductive PortEvent
  | call
  /-- `next_port.fetch_add` -/
  | draw (c : Nat)
  /-- `next_port.store` -/
  | rewind (c : Nat)
  /-- `host_port_free` -/
  | probe (c : Nat) (free : Bool)
  /-- The operation of the call ends. -/
  | finish (c : Nat)
  /-- A record is written, by an operation or by `refresh_from_sink`. -/
  | put (x : String) (i : RdsInstance)
  | erase (x : String)

/-- The call that takes the step. -/
def PortEvent.caller : PortEvent → Option Nat
  | .draw c | .rewind c | .probe c _ => some c
  | .call | .finish _ | .put .. | .erase _ => none

namespace Ports

/-- No call has begun; the counter is where `new` or `load_persisted` has left it. -/
def Initial (s : Ports) : Prop := s.calls = []

def setCall (s : Ports) (c : Nat) (k : PortCall) : Ports := { s with calls := s.calls.set c k }

/-- What a call makes of the number it has drawn. -/
def drawn (taken : List Nat) (p : Nat) : PortCall :=
  if endPort ≤ p then .overrun taken
  else if p < firstPort then .drawing taken
  else if p ∈ taken then .drawing taken
  else .probing taken p

def step (s : Ports) : PortEvent → Option Ports
  | .call => some { s with calls := s.calls ++ [.drawing (declaredPorts s.instances)] }
  | .draw c =>
    match s.calls[c]? with
    | some (.drawing taken) =>
      some { s.setCall c (drawn taken s.nextPort) with nextPort := s.nextPort + 1 }
    | _ => none
  | .rewind c =>
    match s.calls[c]? with
    | some (.overrun taken) => some { s.setCall c (.drawing taken) with nextPort := firstPort }
    | _ => none
  | .probe c free =>
    match s.calls[c]? with
    | some (.probing taken p) => some (s.setCall c (if free then .returned p else .drawing taken))
    | _ => none
  | .finish c =>
    match s.calls[c]? with
    | some (.returned _) => some (s.setCall c .released)
    | _ => none
  | .put x i => some { s with instances := s.instances.insert x i }
  | .erase x => some { s with instances := s.instances.erase x }

/-! ## What is promised, and when -/

/-- The port may be returned to this call: it is in range, no known instance declares it, and no other
call has returned it to an operation in progress. -/
def Alone (s : Ports) (c p : Nat) : Prop :=
  InRange p ∧ p ∉ declaredPorts s.instances ∧ ∀ c' < s.calls.length, c' ≠ c → s.calls[c']? ≠ some (.returned p)

/-- The ports that the calls of a run have returned were theirs alone. -/
def Exclusive (h : History Ports PortEvent) : Prop :=
  ∀ t c earlier, (t, .probe c true) :: earlier <:+ h → ∀ taken p,
    t.calls[c]? = some (.probing taken p) → t.Alone c p

/-- When a call draws a number of the range, what it avoids holds this number exactly if a known
instance declares it or another call or its operation has it; and no record comes with a port that a
call is about to bind. -/
def Right (s : Ports) : PortEvent → Prop
  | .draw c =>
    ∀ taken ∈ s.calls[c]?.bind PortCall.taken?, InRange s.nextPort →
      (s.nextPort ∈ taken ↔
        s.nextPort ∈ declaredPorts s.instances ∨ ∃ k ∈ s.calls, k.port? = some s.nextPort)
  | .put _ i => ∀ p ∈ i.declaredPorts, ∀ k ∈ s.calls, k.probing? ≠ some p
  | _ => True

/-- Every call that has not returned takes another step. -/
def Fair (ρ : Endless step Right Initial) : Prop :=
  ∀ (k c : Nat) (call : PortCall), (ρ.state k).calls[c]? = some call → call.running = true →
    ∃ j, k ≤ j ∧ (ρ.event j).caller = some c

/-- As long as the call runs, the port is undeclared, with no other operation in progress, and can be
bound. -/
structure Open (ρ : Endless step Right Initial) (c q k : Nat) : Prop where
  inRange : InRange q
  undeclared : ∀ (j : Nat) (call : PortCall), k ≤ j → (ρ.state j).calls[c]? = some call → call.running = true →
    q ∉ declaredPorts (ρ.state j).instances
  unheld : ∀ (j : Nat) (call : PortCall), k ≤ j → (ρ.state j).calls[c]? = some call → call.running = true →
    ∀ c' : Nat, (ρ.state j).calls[c']? ≠ some (.returned q)
  free : ∀ (j c' : Nat) (taken : List Nat), k ≤ j → (ρ.state j).calls[c']? = some (.probing taken q) →
    ρ.event j ≠ .probe c' false

/-- A call returns if there is such a port while it runs. -/
def Found (ρ : Endless step Right Initial) : Prop :=
  ∀ (k c q : Nat) (call : PortCall), (ρ.state k).calls[c]? = some call → call.running = true →
    Open ρ c q k → ∃ j p, k ≤ j ∧ (ρ.state j).calls[c]? = some (.returned p)

/-! ## What a step does -/

/-- The step of the call `c`, or of its operation: the place it leaves, the one it comes to, and the
counter afterwards. -/
inductive Turn (s : Ports) (c : Nat) : PortEvent → PortCall → PortCall → Nat → Prop
  | draw (taken : List Nat) :
    Turn s c (.draw c) (.drawing taken) (drawn taken s.nextPort) (s.nextPort + 1)
  | rewind (taken : List Nat) : Turn s c (.rewind c) (.overrun taken) (.drawing taken) firstPort
  | bound (taken : List Nat) (p : Nat) :
    Turn s c (.probe c true) (.probing taken p) (.returned p) s.nextPort
  | refused (taken : List Nat) (p : Nat) :
    Turn s c (.probe c false) (.probing taken p) (.drawing taken) s.nextPort
  | finish (p : Nat) : Turn s c (.finish c) (.returned p) .released s.nextPort

inductive Stepped (s : Ports) : PortEvent → Ports → Prop
  | call : Stepped s .call { s with calls := s.calls ++ [.drawing (declaredPorts s.instances)] }
  | turn {c : Nat} {e : PortEvent} {k k' : PortCall} {n : Nat} (hturn : Turn s c e k k' n)
    (hc : s.calls[c]? = some k) : Stepped s e { s.setCall c k' with nextPort := n }
  | put (x : String) (i : RdsInstance) :
    Stepped s (.put x i) { s with instances := s.instances.insert x i }
  | erase (x : String) : Stepped s (.erase x) { s with instances := s.instances.erase x }

variable {s s' : Ports}

theorem stepped {e : PortEvent} (hs : s.step e = some s') : Stepped s e s' := by
  cases e with
  | call =>
    cases hs
    exact .call
  | draw c =>
    simp only [Ports.step] at hs
    split at hs <;> cases hs
    next taken hc => exact .turn (.draw taken) hc
  | rewind c =>
    simp only [Ports.step] at hs
    split at hs <;> cases hs
    next taken hc => exact .turn (.rewind taken) hc
  | probe c free =>
    simp only [Ports.step] at hs
    split at hs <;> cases hs
    next taken p hc =>
      cases free with
      | true => exact .turn (.bound taken p) hc
      | false => exact .turn (.refused taken p) hc
  | finish c =>
    simp only [Ports.step] at hs
    split at hs <;> cases hs
    next p hc => exact .turn (.finish p) hc
  | put x i =>
    cases hs
    exact .put x i
  | erase x =>
    cases hs
    exact .erase x

/-- A turn belongs to its caller, but for the end of an operation. -/
theorem Turn.caller {c n : Nat} {e : PortEvent} {k k' : PortCall} (h : Turn s c e k k' n) :
    e.caller = some c ∨ k.running = false := by
  cases h with
  | finish => exact .inr rfl
  | draw | rewind | bound | refused => exact .inl rfl

theorem Turn.of_caller {c c' n : Nat} {e : PortEvent} {k k' : PortCall} (h : Turn s c e k k' n)
    (he : e.caller = some c') : c = c' := by
  cases h with
  | finish => cases he
  | draw | rewind | bound | refused => exact Option.some.inj he

theorem getElem?_setCall {c c' : Nat} {k : PortCall} {l : List PortCall} (hc : c < l.length) :
    (l.set c k)[c']? = if c = c' then some k else l[c']? := by
  rw [List.getElem?_set, if_pos hc]

/-- The step that a call takes where it is. -/
theorem turn_of_caller {e : PortEvent} {c : Nat} {k : PortCall} (hs : s.step e = some s')
    (hc : s.calls[c]? = some k) (he : e.caller = some c) :
    ∃ k' n, Turn s c e k k' n ∧ s'.calls[c]? = some k' ∧ s'.nextPort = n := by
  cases stepped hs with
  | call | put | erase => cases he
  | @turn c' _ k₀ k' n hturn hc' =>
    obtain rfl := hturn.of_caller he
    obtain rfl := Option.some.inj (hc.symm.trans hc')
    exact ⟨k', n, hturn, List.getElem?_set_self (List.getElem?_eq_some_iff.1 hc).1, rfl⟩

/-! ## Exclusive ports -/

/-- A port that a call is about to bind is in range and undeclared, and nobody else has it. -/
def Ok (s : Ports) : Prop :=
  ∀ c taken p, s.calls[c]? = some (.probing taken p) →
    InRange p ∧ p ∉ declaredPorts s.instances ∧
      ∀ (c' : Nat) (k : PortCall), c' ≠ c → s.calls[c']? = some k → k.port? ≠ some p

/-- A call goes on, and has no other port than before. -/
theorem Ok.setCall (hok : Ok s) {c : Nat} {k k' : PortCall} (hc : s.calls[c]? = some k)
    (hnew : k'.probing? = none) (hport : ∀ p, k'.port? = some p → k.port? = some p) :
    Ok (s.setCall c k') := by
  obtain ⟨hlt, -⟩ := List.getElem?_eq_some_iff.1 hc
  intro c₁ taken p h₁
  simp only [Ports.setCall, getElem?_setCall hlt] at h₁ ⊢
  split at h₁
  · cases h₁
    cases hnew
  · next hne =>
    obtain ⟨hr, hd, hother⟩ := hok c₁ taken p h₁
    refine ⟨hr, hd, fun c₂ k₂ h₂ hk₂ => ?_⟩
    split at hk₂
    · cases hk₂
      exact fun hp => hother c k hne hc (hport p hp)
    · exact hother c₂ k₂ h₂ hk₂

theorem Ok.nextPort (hok : Ok s) (n : Nat) : Ok { s with nextPort := n } := hok

/-- A call draws a number. -/
theorem Ok.draw (hok : Ok s) {c : Nat} {taken : List Nat} (hc : s.calls[c]? = some (.drawing taken))
    (hright : s.Right (.draw c)) : Ok (s.setCall c (drawn taken s.nextPort)) := by
  obtain ⟨hlt, -⟩ := List.getElem?_eq_some_iff.1 hc
  unfold drawn
  split
  · exact hok.setCall hc rfl fun _ hp => nomatch hp
  · next hend =>
    split
    · exact hok.setCall hc rfl fun _ hp => nomatch hp
    · next hfirst =>
      split
      · exact hok.setCall hc rfl fun _ hp => nomatch hp
      · next hnot =>
        have hin : InRange s.nextPort := ⟨by omega, by omega⟩
        have hfree := mt (hright taken (by simp [hc, PortCall.taken?]) hin).2 hnot
        rw [not_or] at hfree
        intro c₁ taken₁ p h₁
        simp only [Ports.setCall, getElem?_setCall hlt] at h₁ ⊢
        split at h₁
        · next heq =>
          cases h₁
          refine ⟨hin, hfree.1, fun c₂ k₂ h₂ hk₂ hp => ?_⟩
          rw [if_neg fun h => h₂ (h.symm.trans heq)] at hk₂
          exact hfree.2 ⟨k₂, List.mem_of_getElem? hk₂, hp⟩
        · next hne =>
          obtain ⟨hr, hd, hother⟩ := hok c₁ taken₁ p h₁
          refine ⟨hr, hd, fun c₂ k₂ h₂ hk₂ => ?_⟩
          split at hk₂
          · cases hk₂
            rintro ⟨⟩
            exact hfree.2 ⟨_, List.mem_of_getElem? h₁, rfl⟩
          · exact hother c₂ k₂ h₂ hk₂

/-- A step of a call keeps the ports apart. -/
theorem Ok.turn (hok : Ok s) {c n : Nat} {e : PortEvent} {k k' : PortCall} (hturn : Turn s c e k k' n)
    (hc : s.calls[c]? = some k) (hright : s.Right e) : Ok (s.setCall c k') := by
  cases hturn with
  | draw taken => exact hok.draw hc hright
  | rewind taken | refused taken p | finish p => exact hok.setCall hc rfl fun _ hp => nomatch hp
  | bound taken p => exact hok.setCall hc rfl fun _ hp => hp

theorem Ok.step {e : PortEvent} (hok : Ok s) (hright : s.Right e) (hs : s.step e = some s') : Ok s' := by
  cases stepped hs with
  | call =>
    intro c taken p hc
    have hold : s.calls[c]? = some (.probing taken p) := by
      rcases Nat.lt_or_ge c s.calls.length with hlt | hge
      · rwa [List.getElem?_append_left hlt] at hc
      · rw [List.getElem?_append_right hge] at hc
        cases List.mem_singleton.1 (List.mem_of_getElem? hc)
    obtain ⟨hr, hd, hother⟩ := hok c taken p hold
    refine ⟨hr, hd, fun c' k h' hk => ?_⟩
    rcases List.mem_append.1 (List.mem_of_getElem? hk) with hmem | hmem
    · rcases Nat.lt_or_ge c' s.calls.length with hlt | hge
      · exact hother c' k h' (by rwa [List.getElem?_append_left hlt] at hk)
      · rw [List.getElem?_append_right hge] at hk
        cases List.mem_singleton.1 (List.mem_of_getElem? hk)
        exact fun hp => nomatch hp
    · cases List.mem_singleton.1 hmem
      exact fun hp => nomatch hp
  | turn hturn hc => exact (hok.turn hturn hc hright).nextPort _
  | put x i =>
    intro c taken p hc
    obtain ⟨hr, hd, hother⟩ := hok c taken p hc
    refine ⟨hr, fun hmem => ?_, hother⟩
    rcases declaredPorts_insert hmem with hp | hp
    · exact hright p hp _ (List.mem_of_getElem? hc) rfl
    · exact hd hp
  | erase x =>
    intro c taken p hc
    obtain ⟨hr, hd, hother⟩ := hok c taken p hc
    exact ⟨hr, fun hmem => hd (declaredPorts_erase hmem), hother⟩

theorem Ok.run {h : History Ports PortEvent}
    (hr : Run Ports.step (fun _ s e => s.Right e) Initial h s) : Ok s := by
  refine hr.invariant (I := fun _ s => Ok s) (fun s h0 c taken p hc => ?_) ?_
  · rw [h0] at hc
    cases hc
  · intro _ t e t' _ hok hright hs
    exact hok.step hright hs

theorem exclusive {h : History Ports PortEvent}
    (hr : Run Ports.step (fun _ s e => s.Right e) Initial h s) : Exclusive h := by
  intro t c earlier hsuf taken p hc
  obtain ⟨hrun, -⟩ := hr.of_suffix hsuf
  obtain ⟨hin, hd, hother⟩ := Ok.run hrun c taken p hc
  exact ⟨hin, hd, fun c' _ h' hret => hother c' _ h' hret rfl⟩

/-! ## Calls that return -/

/-- A call that has not returned is moved by its own steps only. -/
theorem step_running {e : PortEvent} {c : Nat} {call : PortCall} (hs : s.step e = some s')
    (hc : s.calls[c]? = some call) (hrun : call.running = true) (he : e.caller ≠ some c) :
    s'.calls[c]? = some call := by
  cases stepped hs with
  | call => exact (List.getElem?_append_left (List.getElem?_eq_some_iff.1 hc).1).trans hc
  | @turn c' _ k k' n hturn hc' =>
    have hne : c' ≠ c := by
      rintro rfl
      obtain rfl := Option.some.inj (hc.symm.trans hc')
      rcases hturn.caller with hown | hover
      · exact he hown
      · rw [hrun] at hover
        cases hover
    exact (List.getElem?_set_ne hne).trans hc
  | put | erase => exact hc

/-- The step that a call takes in each of its places. -/
theorem step_drawing {e : PortEvent} {c : Nat} {taken : List Nat} (hs : s.step e = some s')
    (hc : s.calls[c]? = some (.drawing taken)) (he : e.caller = some c) : e = .draw c := by
  obtain ⟨_, _, hturn, -⟩ := turn_of_caller hs hc he
  cases hturn
  rfl

theorem step_overrun {e : PortEvent} {c : Nat} {taken : List Nat} (hs : s.step e = some s')
    (hc : s.calls[c]? = some (.overrun taken)) (he : e.caller = some c) :
    e = .rewind c ∧ s'.calls[c]? = some (.drawing taken) ∧ s'.nextPort = firstPort := by
  obtain ⟨_, _, hturn, hnext⟩ := turn_of_caller hs hc he
  cases hturn
  exact ⟨rfl, hnext⟩

theorem step_probing {e : PortEvent} {c p : Nat} {taken : List Nat} (hs : s.step e = some s')
    (hc : s.calls[c]? = some (.probing taken p)) (he : e.caller = some c) :
    ∃ free, e = .probe c free ∧
      s'.calls[c]? = some (if free then .returned p else .drawing taken) := by
  obtain ⟨_, _, hturn, hnext, -⟩ := turn_of_caller hs hc he
  cases hturn with
  | bound => exact ⟨true, rfl, hnext⟩
  | refused => exact ⟨false, rfl, hnext⟩

/-- A number is drawn. -/
theorem step_draw {c : Nat} (hs : s.step (.draw c) = some s') : ∃ taken,
    s.calls[c]? = some (.drawing taken) ∧
      s' = { s.setCall c (drawn taken s.nextPort) with nextPort := s.nextPort + 1 } := by
  cases stepped hs with
  | turn hturn hc =>
    cases hturn with
    | draw taken => exact ⟨taken, hc, rfl⟩

theorem running_drawn (taken : List Nat) (p : Nat) : (drawn taken p).running = true := by
  unfold drawn
  repeat' split
  all_goals rfl

/-- How many calls are about to set the counter back. -/
def overs (s : Ports) : Nat := s.calls.countP PortCall.wrapping

theorem overs_setCall {c : Nat} {k : PortCall} (hc : s.calls[c]? = some k) (k' : PortCall) :
    (s.setCall c k').overs + (if k.wrapping then 1 else 0) = s.overs + (if k'.wrapping then 1 else 0) := by
  obtain ⟨hlt, hget⟩ := List.getElem?_eq_some_iff.1 hc
  have hset : (s.setCall c k').overs =
      s.overs - (if k.wrapping then 1 else 0) + (if k'.wrapping then 1 else 0) := by
    rw [← hget]
    exact List.countP_set hlt
  have hpos : (if k.wrapping then 1 else 0) ≤ s.overs := by
    split
    · next h => exact List.countP_pos_iff.2 ⟨k, List.mem_of_getElem? hc, h⟩
    · exact Nat.zero_le _
  omega

/-- How far the counter is from a port, with a whole range for each time it will be set back. -/
def distance (q : Nat) (s : Ports) : Nat := s.overs * (endPort + 1) + (q - s.nextPort)

/-- A call that comes from a place where it does not set the counter back to another such place. -/
theorem overs_setCall_of_not {c : Nat} {k k' : PortCall} (hc : s.calls[c]? = some k)
    (hk : k.wrapping = false) (hk' : k'.wrapping = false) : (s.setCall c k').overs = s.overs := by
  have hcount := overs_setCall hc k'
  rw [hk, hk'] at hcount
  exact hcount

/-- A number below the range's end is drawn. -/
theorem wrapping_drawn {taken : List Nat} {p : Nat} (hp : p < endPort) :
    (drawn taken p).wrapping = false := by
  unfold drawn
  rw [if_neg (Nat.not_le.2 hp)]
  repeat' split
  all_goals rfl

/-- A step of a call keeps the counter at or below a port that is not drawn, and brings it no further
away; a draw brings it nearer. -/
theorem Turn.low {c n q : Nat} {e : PortEvent} {k k' : PortCall} (hturn : Turn s c e k k' n)
    (hc : s.calls[c]? = some k) (hq : InRange q) (hlow : s.nextPort ≤ q)
    (hskip : ∀ c, e = .draw c → s.nextPort ≠ q) :
    n ≤ q ∧ distance q { s.setCall c k' with nextPort := n } ≤ distance q s ∧
      ((∃ c, e = .draw c) → distance q { s.setCall c k' with nextPort := n } < distance q s) := by
  obtain ⟨hfirst, hend⟩ := hq
  show n ≤ q ∧ (s.setCall c k').overs * (endPort + 1) + (q - n) ≤
      s.overs * (endPort + 1) + (q - s.nextPort) ∧
    ((∃ c, e = .draw c) → (s.setCall c k').overs * (endPort + 1) + (q - n) <
      s.overs * (endPort + 1) + (q - s.nextPort))
  cases hturn with
  | draw taken =>
    have hne := hskip c rfl
    have hover : (drawn taken s.nextPort).wrapping = false :=
      wrapping_drawn (Nat.lt_of_le_of_lt hlow hend)
    rw [overs_setCall_of_not hc rfl hover]
    omega
  | rewind taken =>
    have hcount : (s.setCall c (.drawing taken)).overs + 1 = s.overs := overs_setCall hc (.drawing taken)
    refine ⟨hfirst, ?_, nofun⟩
    rw [← hcount, Nat.add_mul]
    omega
  | bound taken p | refused taken p | finish p =>
    rw [overs_setCall_of_not hc rfl rfl]
    exact ⟨hlow, Nat.le_refl _, nofun⟩

theorem step_low {e : PortEvent} {q : Nat} (hq : InRange q) (hs : s.step e = some s')
    (hlow : s.nextPort ≤ q) (hskip : ∀ c, e = .draw c → s.nextPort ≠ q) :
    s'.nextPort ≤ q ∧ distance q s' ≤ distance q s ∧
      ((∃ c, e = .draw c) → distance q s' < distance q s) := by
  cases stepped hs with
  | turn hturn hc => exact hturn.low hc hq hlow hskip
  | call =>
    have hsame : (s.calls ++ [PortCall.drawing (declaredPorts s.instances)]).countP PortCall.wrapping =
        s.overs := by simp [overs, PortCall.wrapping]
    refine ⟨hlow, ?_, nofun⟩
    show (s.calls ++ [PortCall.drawing (declaredPorts s.instances)]).countP PortCall.wrapping * (endPort + 1) +
      (q - s.nextPort) ≤ s.overs * (endPort + 1) + (q - s.nextPort)
    rw [hsame]
  | put | erase => exact ⟨hlow, Nat.le_refl _, nofun⟩

/-- As long as the counter is above a port of the range, nothing sets it back, and a draw raises it. -/
theorem step_high {e : PortEvent} {q : Nat} (hq : InRange q) (hs : s.step e = some s')
    (hhigh : q < s'.nextPort) : s.nextPort ≤ s'.nextPort ∧
      ((∃ c, e = .draw c) → s.nextPort < s'.nextPort) := by
  cases stepped hs with
  | turn hturn hc =>
    cases hturn with
    | draw taken => exact ⟨Nat.le_succ _, fun _ => Nat.lt_succ_self _⟩
    | rewind taken => exact absurd hhigh (Nat.not_lt.2 hq.1)
    | bound | refused | finish => exact ⟨Nat.le_refl _, nofun⟩
  | call | put | erase => exact ⟨Nat.le_refl _, nofun⟩

section Endless

variable {ρ : Endless step Right Initial} {c q k : Nat} {call : PortCall}

/-- A call that runs takes its next step where it is. -/
theorem Fair.turn (hf : Fair ρ) (hc : (ρ.state k).calls[c]? = some call) (hrun : call.running = true) :
    ∃ j, k ≤ j ∧ (ρ.event j).caller = some c ∧ (ρ.state j).calls[c]? = some call :=
  ρ.first (φ := fun s => s.calls[c]? = some call) hc
    (fun j _ hj hother => step_running (ρ.next j) hj hrun hother) (hf k c call hc hrun)

/-- The call `c` runs from `k` on and never returns, though the port `q` is open. -/
structure Stuck (ρ : Endless step Right Initial) (c q k : Nat) : Prop where
  fair : Fair ρ
  isOpen : Open ρ c q k
  never : ∀ j p, k ≤ j → (ρ.state j).calls[c]? ≠ some (.returned p)
  runs : ∃ call, (ρ.state k).calls[c]? = some call ∧ call.running = true

namespace Stuck

variable (hst : Stuck ρ c q k)

include hst

/-- It runs forever. -/
theorem running {j : Nat} (hj : k ≤ j) :
    ∃ call, (ρ.state j).calls[c]? = some call ∧ call.running = true := by
  induction hj with
  | refl => exact hst.runs
  | @step j hj ih =>
    obtain ⟨call, hc, hrun⟩ := ih
    rcases eq_or_ne (ρ.event j).caller (some c) with he | he
    · cases call with
      | drawing taken =>
        have hdraw := step_drawing (ρ.next j) hc he
        have hnext := ρ.next j
        rw [hdraw] at hnext
        obtain ⟨taken', -, hs⟩ := step_draw hnext
        refine ⟨drawn taken' (ρ.state j).nextPort, ?_, running_drawn _ _⟩
        rw [hs]
        exact List.getElem?_set_self (List.getElem?_eq_some_iff.1 hc).1
      | overrun taken => exact ⟨_, (step_overrun (ρ.next j) hc he).2.1, rfl⟩
      | probing taken p =>
        obtain ⟨free, -, hnext⟩ := step_probing (ρ.next j) hc he
        cases free with
        | false => exact ⟨_, hnext, rfl⟩
        | true => exact absurd hnext (hst.never _ _ (Nat.le_succ_of_le hj))
      | returned p => cases hrun
      | released => cases hrun
    · exact ⟨call, step_running (ρ.next j) hc hrun he, hrun⟩

theorem unheld {j : Nat} (hj : k ≤ j) (c' : Nat) : (ρ.state j).calls[c']? ≠ some (.returned q) := by
  obtain ⟨call, hc, hrun⟩ := hst.running hj
  exact hst.isOpen.unheld j call hj hc hrun c'

/-- No call is about to bind the open port: it would return it. -/
theorem unprobed {j : Nat} (hj : k ≤ j) (c' : Nat) (taken : List Nat) :
    (ρ.state j).calls[c']? ≠ some (.probing taken q) := fun hc => by
  obtain ⟨i, hi, he, hc⟩ := hst.fair.turn hc rfl
  obtain ⟨free, he, hnext⟩ := step_probing (ρ.next i) hc he
  have hki : k ≤ i := Nat.le_trans hj hi
  cases free with
  | false => exact hst.isOpen.free i c' taken hki hc he
  | true => exact hst.unheld (Nat.le_succ_of_le hki) c' hnext

/-- No call draws the open port: it would be about to bind it. -/
theorem undrawn {j : Nat} (hj : k ≤ j) (c' : Nat) (he : ρ.event j = .draw c') :
    (ρ.state j).nextPort ≠ q := fun hq => by
  have hnext := ρ.next j
  have hright := ρ.meets j
  rw [he] at hnext hright
  obtain ⟨taken, hc, hs⟩ := step_draw hnext
  obtain ⟨call, hcall, hrun⟩ := hst.running hj
  have hin := hst.isOpen.inRange
  have hnot : q ∉ taken := by
    have := hright taken (by simp [hc, PortCall.taken?]) (by rw [hq]; exact hin)
    rw [hq] at this
    rw [this, not_or]
    refine ⟨hst.isOpen.undeclared j call hj hcall hrun, ?_⟩
    rintro ⟨k', hk', hp⟩
    obtain ⟨c₁, hc₁⟩ := List.mem_iff_getElem?.1 hk'
    cases k' with
    | probing taken' p =>
      cases hp
      exact hst.unprobed hj c₁ taken' hc₁
    | returned p =>
      cases hp
      exact hst.unheld hj c₁ hc₁
    | drawing _ => cases hp
    | overrun _ => cases hp
    | released => cases hp
  have hdrawn : drawn taken (ρ.state j).nextPort = .probing taken q := by
    unfold InRange at hin
    unfold drawn
    rw [hq, if_neg (by omega), if_neg (by omega), if_neg hnot]
  refine hst.unprobed (Nat.le_succ_of_le hj) c' taken ?_
  rw [hs, ← hdrawn]
  exact List.getElem?_set_self (List.getElem?_eq_some_iff.1 hc).1

/-- The call draws again and again. -/
theorem draws {j : Nat} (hj : k ≤ j) : ∃ i, j ≤ i ∧ ρ.event i = .draw c := by
  have hdraw : ∀ {j : Nat} {taken : List Nat}, (ρ.state j).calls[c]? = some (.drawing taken) →
      ∃ i, j ≤ i ∧ ρ.event i = .draw c := fun hc => by
    obtain ⟨i, hi, he, hc⟩ := hst.fair.turn hc rfl
    exact ⟨i, hi, step_drawing (ρ.next i) hc he⟩
  obtain ⟨call, hc, hrun⟩ := hst.running hj
  cases call with
  | drawing taken => exact hdraw hc
  | overrun taken =>
    obtain ⟨i, hi, he, hc⟩ := hst.fair.turn hc rfl
    obtain ⟨i', hi', he'⟩ := hdraw (step_overrun (ρ.next i) hc he).2.1
    exact ⟨i', by omega, he'⟩
  | probing taken p =>
    obtain ⟨i, hi, he, hc⟩ := hst.fair.turn hc rfl
    obtain ⟨free, -, hnext⟩ := step_probing (ρ.next i) hc he
    cases free with
    | false =>
      obtain ⟨i', hi', he'⟩ := hdraw hnext
      exact ⟨i', by omega, he'⟩
    | true => exact absurd hnext (hst.never _ _ (by omega))
  | returned p => cases hrun
  | released => cases hrun

/-- At some time the counter is at or below the open port. -/
theorem reaches_low : ∃ j, k ≤ j ∧ (ρ.state j).nextPort ≤ q := by
  by_contra hnone
  have hhigh : ∀ j, k ≤ j → q < (ρ.state j).nextPort := fun j hj =>
    Nat.lt_of_not_le fun h => hnone ⟨j, hj, h⟩
  have hup : ∀ j, k ≤ j → (ρ.state j).nextPort ≤ (ρ.state (j + 1)).nextPort ∧
      ((∃ c, ρ.event j = .draw c) → (ρ.state j).nextPort < (ρ.state (j + 1)).nextPort) := fun j hj =>
    step_high hst.isOpen.inRange (ρ.next j) (hhigh (j + 1) (Nat.le_succ_of_le hj))
  -- the draws bring the counter behind the range
  obtain ⟨n, hn, hfew⟩ := ρ.seldom (P := fun j => (∃ c, ρ.event j = .draw c) ∧ (ρ.state j).nextPort < endPort)
    (μ := fun s => endPort - s.nextPort) (k := k)
    (fun j hj => by
      have := (hup j hj).1
      show endPort - (ρ.state (j + 1)).nextPort ≤ endPort - (ρ.state j).nextPort
      omega)
    (fun j hj ⟨hdraw, hlt⟩ => by
      have := (hup j hj).2 hdraw
      show endPort - (ρ.state (j + 1)).nextPort < endPort - (ρ.state j).nextPort
      omega)
  obtain ⟨i, hi, he⟩ := hst.draws hn
  have hend : endPort ≤ (ρ.state i).nextPort := Nat.le_of_not_lt fun h => hfew i hi ⟨⟨c, he⟩, h⟩
  -- and the call that draws there sets it back
  have hnext := ρ.next i
  rw [he] at hnext
  obtain ⟨taken, hc, hs⟩ := step_draw hnext
  have hover : (ρ.state (i + 1)).calls[c]? = some (.overrun taken) := by
    rw [hs, drawn, if_pos hend]
    exact List.getElem?_set_self (List.getElem?_eq_some_iff.1 hc).1
  obtain ⟨i', hi', he', hc'⟩ := hst.fair.turn hover rfl
  have hlow := hhigh (i' + 1) (by omega)
  rw [(step_overrun (ρ.next i') hc' he').2.2] at hlow
  exact absurd hlow (Nat.not_lt.2 hst.isOpen.inRange.1)

/-- From then on the draws come nearer and nearer to the open port. -/
theorem false : False := by
  obtain ⟨n, hn, hlow⟩ := hst.reaches_low
  have hskip : ∀ j, n ≤ j → ∀ c', ρ.event j = .draw c' → (ρ.state j).nextPort ≠ q := fun j hj c' =>
    hst.undrawn (Nat.le_trans hn hj) c'
  have hlow' : ∀ j, n ≤ j → (ρ.state j).nextPort ≤ q := fun j hj =>
    ρ.always (φ := fun s => s.nextPort ≤ q) hlow
      (fun i hi hle => (step_low hst.isOpen.inRange (ρ.next i) hle (hskip i hi)).1) hj
  have hstep : ∀ j (hj : n ≤ j), distance q (ρ.state (j + 1)) ≤ distance q (ρ.state j) ∧
      ((∃ c, ρ.event j = .draw c) → distance q (ρ.state (j + 1)) < distance q (ρ.state j)) := fun j hj =>
    (step_low hst.isOpen.inRange (ρ.next j) (hlow' j hj) (hskip j hj)).2
  obtain ⟨m, hm, hnone⟩ := ρ.seldom (P := fun j => ∃ c, ρ.event j = .draw c) (μ := distance q) (k := n)
    (fun j hj => (hstep j hj).1) (fun j hj hdraw => (hstep j hj).2 hdraw)
  obtain ⟨i, hi, he⟩ := hst.draws (Nat.le_trans hn hm)
  exact hnone i hi ⟨c, he⟩

end Stuck

/-- A call returns while a port is open to it. -/
theorem found (hf : Fair ρ) : Found ρ := by
  intro k c q call hc hrun hopen
  by_contra hnone
  exact (Stuck.mk hf hopen (fun j p hj h => hnone ⟨j, p, hj, h⟩) ⟨call, hc, hrun⟩).false

end Endless

/-! ## When the promise is kept -/

instance (s : Ports) : (e : PortEvent) → Decidable (s.Right e)
  | .draw c => inferInstanceAs (Decidable (∀ taken ∈ s.calls[c]?.bind PortCall.taken?, _ → _))
  | .put _ i => inferInstanceAs (Decidable (∀ p ∈ i.declaredPorts, ∀ k ∈ s.calls, _))
  | .call | .rewind _ | .probe .. | .finish _ | .erase _ => .isTrue trivial

/-- Where every draw finds in what its call has read exactly the numbers that are in use, and no record
declares a port that is being bound, ports are exclusive, and a call returns while a port is open to
it. -/
theorem exclusive_and_found {h : History Ports PortEvent} {s : Ports}
    (ρ : Endless step Right Initial) :
    (Run step (fun _ s e => s.Right e) Initial h s → Exclusive h) ∧ (Fair ρ → Found ρ) :=
  ⟨exclusive, found⟩

/-- One call finds the first port free, and its operation never ends. -/
def oneCall : Nat → PortEvent
  | 0 => .call
  | 1 => .draw 0
  | 2 => .probe 0 true
  | _ => .erase "orders"

def oneCallState : Nat → Ports
  | 0 => ⟨∅, firstPort, []⟩
  | k + 1 => ((oneCallState k).step (oneCall k)).getD (oneCallState k)

theorem oneCallState_calls (k : Nat) : (oneCallState (k + 3)).calls = [.returned firstPort] := by
  induction k with
  | zero => rfl
  | succ k ih => exact ih

def oneCallRun : Endless step Right Initial where
  state := oneCallState
  event := oneCall
  starts := rfl
  meets k := by
    match k with
    | 0 => trivial
    | 1 => decide +kernel
    | 2 | k + 3 => trivial
  next k := by
    match k with
    | 0 | 1 | 2 | k + 3 => rfl

theorem oneCallRun_fair : Fair oneCallRun := by
  intro k c call hc hrun
  have hzero : ∀ (l : List PortCall) (k : PortCall), l = [k] → l[c]? = some call → c = 0 ∧ call = k := by
    rintro _ k rfl h
    cases c with
    | zero => exact ⟨rfl, (Option.some.inj h).symm⟩
    | succ c => cases h
  match k with
  | 0 => cases hc
  | 1 =>
    obtain ⟨rfl, -⟩ := hzero _ _ rfl hc
    exact ⟨1, Nat.le_refl _, rfl⟩
  | 2 =>
    obtain ⟨rfl, -⟩ := hzero _ (.probing [] firstPort) rfl hc
    exact ⟨2, Nat.le_refl _, rfl⟩
  | k + 3 =>
    obtain ⟨-, rfl⟩ := hzero _ _ (oneCallState_calls k) hc
    cases hrun

/-- The call runs for two steps only, in which nobody declares or has the port. -/
theorem oneCallRun_open : Open oneCallRun 0 firstPort 1 := by
  have hlate : ∀ (j : Nat) (call : PortCall), (oneCallState j).calls[0]? = some call →
      call.running = true → j < 3 := by
    intro j call hc hrun
    by_contra hge
    obtain ⟨k, rfl⟩ : ∃ k, j = k + 3 := ⟨j - 3, by omega⟩
    rw [oneCallState_calls] at hc
    cases hc
    cases hrun
  have hearly : ∀ j, j < 3 → declaredPorts (oneCallState j).instances = [] := by
    intro j hj
    match j with
    | 0 | 1 | 2 => rfl
    | j + 3 => omega
  refine ⟨by decide, fun j call hj hc hrun => ?_, fun j call hj hc hrun c' => ?_, fun j c' taken hj hc he => ?_⟩
  · rw [show (oneCallRun.state j).instances = (oneCallState j).instances from rfl,
      hearly j (hlate j call hc hrun)]
    exact List.not_mem_nil
  · have hlt := hlate j call hc hrun
    match j with
    | 1 | 2 => cases c' <;> exact nofun
    | j + 3 => omega
  · match j with
    | 1 => cases he
    | 2 => cases he
    | j + 3 => cases he

theorem oneCall_found : (∃ h s, Run step (fun _ s e => s.Right e) Initial h s ∧
    s.calls = [.returned firstPort] ∧ Exclusive h) ∧
    ∃ j p, 1 ≤ j ∧ (oneCallRun.state j).calls[0]? = some (.returned p) := by
  obtain ⟨h, hr⟩ := oneCallRun.run 3
  obtain ⟨hexcl, hfound⟩ := exclusive_and_found (h := h) oneCallRun
  exact ⟨⟨h, _, hr, oneCallState_calls 0, hexcl hr⟩,
    hfound oneCallRun_fair 1 0 firstPort _ rfl rfl oneCallRun_open⟩

/-- Two calls draw behind the range; the second sets the counter back when the first has its port. -/
def twoWraps : List PortEvent :=
  [.call, .call, .draw 0, .draw 1, .rewind 0, .draw 0, .probe 0 true, .rewind 1, .draw 1]

theorem twoWraps_same : ¬∀ h s, Run step (fun _ _ _ => True) Initial h s → Exclusive h := by
  intro hall
  have hinit : Initial ⟨∅, endPort, []⟩ := rfl
  have hfollow : ∃ h s, follow step (fun _ _ _ => True) twoWraps [] ⟨∅, endPort, []⟩ = some (h, s) ∧
      s.calls = [.returned firstPort, .probing [] firstPort] := ⟨_, _, rfl, rfl⟩
  obtain ⟨h, s, hf, hcalls⟩ := hfollow
  have hr := (Run.start hinit).follow hf
  have hprobe : s.step (.probe 1 true) = some (s.setCall 1 (.returned firstPort)) := by
    simp [Ports.step, hcalls]
  have hr' := hr.step (e := .probe 1 true) trivial hprobe
  obtain ⟨-, -, halone⟩ := hall _ _ hr' s 1 h (List.suffix_refl _) [] firstPort (by rw [hcalls]; rfl)
  exact halone 0 (by rw [hcalls]; decide) (by decide) (by rw [hcalls]; rfl)

end Ports
end Rdsctl.Inst
