import Mathlib.Data.Finset.Image
import Rdsctl.Lib.Run

/-!
# Accounts of the query console

`src/query.rs`: `provision`, and the calls that use it, `run_query`, `schema`, `index` and `routines`,
from their provisioning on. Every call revokes all privileges of `rds_ro` and `rds_rw` and grants them
again, by one batch that the client sends statement by statement, and then executes its own statement.
Between two statements others can reach the server.

An account is what the grant tables have for it. Passwords are left out. A replica also applies what
its source has executed.
-/

namespace Rdsctl.Query

/-! ## Provisioning -/

/-- `ACCT_RO` and `ACCT_RW`. -/
inductive Account
  | ro
  | rw
deriving DecidableEq, Repr

/-- A privilege on a database. -/
inductive Privilege
  | select
  | insert
  | update
  | delete
  | other (name : String)
deriving DecidableEq, Repr

/-- A statement of the batch of `provision`. -/
inductive Command
  | createUser (a : Account)
  | alterUser (a : Account)
  | revokeAll (a : Account)
  | grant (privs : List Privilege) (db : String) (a : Account)
  | flush
deriving DecidableEq, Repr

/-- The privileges on databases of the accounts of a server. -/
abbrev Grants : Type := Account → Finset (String × Privilege)

/-- What a statement does to the grants. -/
def Command.run : Command → Grants → Grants
  | .revokeAll a, g => Function.update g a ∅
  | .grant privs db a, g => Function.update g a (g a ∪ (privs.map (db, ·)).toFinset)
  | _, g => g

/-- `ident_ok` -/
def identOk (s : String) : Bool :=
  s ≠ "" && s.toList.all fun c => c.isAlphanum || c = '_' || c = '$'

/-- What an account is granted. -/
def privileges (a : Account) (write : Bool) : List Privilege :=
  if a = .rw ∧ write then [.select, .insert, .update, .delete] else [.select]

/-- The statements for an account. -/
def accountCommands (dbs : List String) (write : Bool) (a : Account) : List Command :=
  [.createUser a, .alterUser a, .revokeAll a] ++ dbs.map (.grant (privileges a write) · a)

/-- `provision`: the batch, for these databases. -/
def provision (dbs : List String) (write : Bool) : Except String (List Command) :=
  if dbs = [] then .error "未配置可查询业务库(RDSCTL_QUERY_DBS 为空)"
  else
    match dbs.find? (identOk · = false) with
    | some db => .error ("业务库名非法: " ++ db)
    | none => .ok (accountCommands dbs write .ro ++ accountCommands dbs write .rw ++ [.flush])

/-! ## Calls -/

/-- What a call is for: a statement of a user, with its class, or the objects of the instance. -/
inductive Purpose
  | query (write : Bool)
  | metadata
deriving DecidableEq, Repr

def Purpose.write : Purpose → Bool
  | .query write => write
  | .metadata => false

def Purpose.isQuery : Purpose → Bool
  | .query _ => true
  | .metadata => false

/-- A call: the server that it goes to, whether its statement is run as root, the statements of its
batch that were sent and those that are left, whether it has a permit, and whether its own statement is
still to come. -/
structure Call where
  server : String
  purpose : Purpose
  root : Bool
  sent : List Command
  left : List Command
  permit : Bool
  live : Bool
deriving DecidableEq, Repr

/-- A call when it has passed its checks. A query that is run as root (`RDSCTL_QUERY_ALLOW_ROOT`) does
without accounts. -/
def Call.start (dbs : List String) (server : String) (p : Purpose) (root : Bool) :
    Except String Call :=
  if p.isQuery ∧ root then .ok ⟨server, p, root, [], [], false, true⟩
  else (provision dbs p.write).map fun batch => ⟨server, p, root, [], batch, false, true⟩

/-- The servers of an instance and the calls, the free permits, and what the servers have executed. -/
structure Console where
  grants : String → Grants
  calls : List Call
  permits : Nat
  log : List Command

inductive ConsoleEvent
  | begin (server : String) (p : Purpose) (root : Bool)
  /-- the next statement of a batch is executed -/
  | send (k : Nat)
  /-- `try_acquire_owned` -/
  | acquire (k : Nat)
  /-- the statement of a call is executed -/
  | statement (k : Nat)
  /-- a call ends without its statement; the client may still send the rest of the batch -/
  | drop (k : Nat)
  | finish (k : Nat)
  /-- a replica applies what its source has executed -/
  | relay (server : String) (cmd : Command)
  /-- calls on other instances take permits and give them back -/
  | elsewhere (permits : Nat)
deriving DecidableEq, Repr

namespace Console

/-- A server executes a statement of a batch. -/
def execute (s : Console) (server : String) (cmd : Command) : Console :=
  { s with
    grants := Function.update s.grants server (cmd.run (s.grants server))
    log := cmd :: s.log }

def setCall (s : Console) (k : Nat) (c : Call) : Console := { s with calls := s.calls.set k c }

variable (dbs : List String)

def step (s : Console) : ConsoleEvent → Option Console
  | .begin server p root =>
    match Call.start dbs server p root with
    | .ok c => some { s with calls := s.calls ++ [c] }
    | .error _ => some s
  | .send k =>
    (s.calls[k]?).bind fun c =>
      match c.left with
      | cmd :: rest =>
        some ((s.execute c.server cmd).setCall k { c with sent := c.sent ++ [cmd], left := rest })
      | [] => none
  | .acquire k =>
    (s.calls[k]?).bind fun c =>
      if c.live ∧ c.left = [] ∧ c.purpose.isQuery ∧ c.permit = false then
        if s.permits > 0 then
          some { s.setCall k { c with permit := true } with permits := s.permits - 1 }
        else some (s.setCall k { c with live := false })
      else none
  | .statement k =>
    (s.calls[k]?).bind fun c =>
      if c.live ∧ c.left = [] ∧ (c.purpose.isQuery → c.permit) then
        some (s.setCall k { c with live := false })
      else none
  | .drop k => (s.calls[k]?).map fun c => s.setCall k { c with live := false }
  | .finish k =>
    (s.calls[k]?).bind fun c =>
      if c.live = false ∧ c.permit then
        some { s.setCall k { c with permit := false } with permits := s.permits + 1 }
      else none
  | .relay server cmd => if cmd ∈ s.log then some (s.execute server cmd) else none
  | .elsewhere permits => some { s with permits := permits }

/-- The server and the account that an event revokes all privileges of, and the call that does. -/
def revokes (s : Console) : ConsoleEvent → Option (String × Account × Option Nat)
  | .send k =>
    (s.calls[k]?).bind fun c =>
      match c.left with
      | .revokeAll a :: _ => some (c.server, a, some k)
      | _ => none
  | .relay server (.revokeAll a) => some (server, a, none)
  | _ => none

end Console

/-! ## What is promised, and when -/

/-- A call is between its provisioning and its statement. -/
def Call.Provisioned (c : Call) : Prop := c.live = true ∧ c.sent ≠ [] ∧ c.left = []

/-- `rds_ro` has `SELECT` on the databases and nothing else, and for a write `rds_rw` has `SELECT`,
`INSERT`, `UPDATE` and `DELETE` on them. -/
structure Authorized (dbs : List String) (write : Bool) (g : Grants) : Prop where
  ro : g .ro = (dbs.map (·, Privilege.select)).toFinset
  rw : write = true → ∀ db ∈ dbs, ∀ p ∈ [Privilege.select, .insert, .update, .delete], (db, p) ∈ g .rw

/-- Every statement of a user is executed with the accounts as they should be, and no privilege is
revoked between the provisioning of another call and its statement. -/
structure Undisturbed (dbs : List String) (h : History Console ConsoleEvent) : Prop where
  statement : ∀ t k c, (t, .statement k) ∈ h → t.calls[k]? = some c → c.purpose.isQuery = true →
    Authorized dbs c.purpose.write (t.grants c.server)
  revoke : ∀ (t : Console) (e : ConsoleEvent) (server : String) (a : Account) (k : Option Nat),
    (t, e) ∈ h → t.revokes e = some (server, a, k) → t.grants server a ≠ ∅ →
      ∀ j c, t.calls[j]? = some c → k ≠ some j → c.server = server → ¬ c.Provisioned

/-- A statement grants something to this account. -/
def Command.grantsTo (a : Account) : Command → Bool
  | .grant _ _ b => b = a
  | _ => false

/-- No other call has been granted something on this account and is to execute its statement. -/
def Console.Idle (s : Console) (server : String) (a : Account) (self : Option Nat) : Prop :=
  ∀ p ∈ s.calls.zipIdx, self ≠ some p.2 → p.1.server = server → p.1.live = true →
    p.1.sent.any (·.grantsTo a) = false

/-- All privileges of an account are revoked only while no other call relies on it, and no statement
of a user is run as root. -/
def Apart (s : Console) (e : ConsoleEvent) : Prop :=
  (match s.revokes e with
    | some (server, a, self) => s.Idle server a self
    | none => True) ∧
  match e with
  | .begin _ p root => ¬ (p.isQuery = true ∧ root = true)
  | _ => True

instance (s : Console) (server : String) (a : Account) (self : Option Nat) :
    Decidable (s.Idle server a self) := by
  unfold Console.Idle
  infer_instance

instance (s : Console) (e : ConsoleEvent) : Decidable (Apart s e) := by
  unfold Apart
  refine @instDecidableAnd _ _ ?_ ?_
  · split <;> infer_instance
  · split <;> infer_instance

/-! ## The batch -/

variable {dbs : List String} {write : Bool} {batch : List Command} {a : Account} {g : Grants}

theorem provision_eq (h : provision dbs write = .ok batch) :
    dbs ≠ [] ∧ batch = accountCommands dbs write .ro ++ accountCommands dbs write .rw ++ [.flush] := by
  unfold provision at h
  split at h
  · cases h
  · next hne =>
    split at h
    · cases h
    · cases h
      exact ⟨hne, rfl⟩

theorem mem_accountCommands {cmd : Command} : cmd ∈ accountCommands dbs write a ↔
    cmd ∈ [.createUser a, .alterUser a, .revokeAll a] ∨
      ∃ db ∈ dbs, .grant (privileges a write) db a = cmd := by
  rw [accountCommands, List.mem_append, List.mem_map]

/-- A batch grants each account its privileges on each database, and nothing else. -/
theorem grant_mem_iff (h : provision dbs write = .ok batch) {privs : List Privilege} {db : String} :
    .grant privs db a ∈ batch ↔ db ∈ dbs ∧ privs = privileges a write := by
  obtain ⟨-, rfl⟩ := provision_eq h
  simp only [List.mem_append, mem_accountCommands]
  cases a <;> simp [eq_comm]

theorem revoke_mem (h : provision dbs write = .ok batch) (a : Account) : .revokeAll a ∈ batch := by
  obtain ⟨-, rfl⟩ := provision_eq h
  simp only [List.mem_append, mem_accountCommands]
  cases a <;> simp

/-- An account is granted nothing before its privileges are revoked. -/
theorem ordered (h : provision dbs write = .ok batch) :
    batch.Pairwise fun x y => ∀ a, x.grantsTo a = true → y ≠ .revokeAll a := by
  obtain ⟨-, rfl⟩ := provision_eq h
  have hblock : ∀ b, (accountCommands dbs write b).Pairwise fun x y =>
      ∀ a, x.grantsTo a = true → y ≠ .revokeAll a := by
    intro b
    refine List.pairwise_append.2 ⟨?_, ?_, ?_⟩
    · simp [Command.grantsTo]
    · refine List.pairwise_map.2 (List.pairwise_of_forall fun _ _ _ _ => ?_)
      exact fun heq => by cases heq
    · intro x _ y hy a _ heq
      obtain ⟨db, -, rfl⟩ := List.mem_map.1 hy
      cases heq
  refine List.pairwise_append.2 ⟨List.pairwise_append.2 ⟨hblock _, hblock _, ?_⟩, by simp, ?_⟩
  · intro x hx y hy a hgrants heq
    rw [heq] at hy
    rcases mem_accountCommands.1 hx with hx | ⟨db, -, rfl⟩
    · simp only [List.mem_cons, List.not_mem_nil, or_false] at hx
      rcases hx with rfl | rfl | rfl <;> cases hgrants
    · obtain rfl : Account.ro = a := by simpa [Command.grantsTo] using hgrants
      simp [mem_accountCommands] at hy
  · intro x _ y hy a _ heq
    rw [List.mem_singleton.1 hy] at heq
    cases heq

/-! ## What a statement of a batch does -/

/-- `rds_ro` has nothing but `SELECT` on the databases. -/
def ReadsOnly (dbs : List String) (g : Grants) : Prop := ∀ x ∈ g .ro, x.2 = .select ∧ x.1 ∈ dbs

/-- What a call has been granted is still there. -/
def Command.Held (g : Grants) : Command → Prop
  | .grant privs db a => ∀ p ∈ privs, (db, p) ∈ g a
  | _ => True

/-- A statement of some batch. -/
def Belongs (dbs : List String) (cmd : Command) : Prop :=
  ∃ write batch, provision dbs write = .ok batch ∧ cmd ∈ batch

theorem ReadsOnly.run {cmd : Command} (hb : Belongs dbs cmd) (h : ReadsOnly dbs g) :
    ReadsOnly dbs (cmd.run g) := by
  obtain ⟨write, batch, hbatch, hmem⟩ := hb
  cases cmd with
  | createUser | alterUser | flush => exact h
  | revokeAll a =>
    intro x hx
    cases a with
    | ro => simp [Command.run] at hx
    | rw => exact h x (by simpa [Command.run] using hx)
  | grant privs db a =>
    obtain ⟨hdb, rfl⟩ := (grant_mem_iff hbatch).1 hmem
    intro x hx
    cases a with
    | ro =>
      simp only [Command.run, Function.update_self, Finset.mem_union, List.mem_toFinset] at hx
      rcases hx with hx | hx
      · exact h x hx
      · obtain rfl : x = (db, Privilege.select) := by simpa [privileges] using hx
        exact ⟨rfl, hdb⟩
    | rw => exact h x (by simpa [Command.run] using hx)

/-- The revocation of its privileges leaves `rds_ro` without any. -/
theorem readsOnly_revoke : ReadsOnly dbs ((Command.revokeAll .ro).run g) := fun x hx => by
  simp [Command.run] at hx

/-- A grant stays, unless all privileges of its account are revoked. -/
theorem Command.Held.run {c cmd : Command} (h : c.Held g)
    (hno : ∀ a, c.grantsTo a = true → cmd ≠ .revokeAll a) : c.Held (cmd.run g) := by
  cases c with
  | createUser | alterUser | revokeAll | flush => trivial
  | grant privs db a =>
    intro p hp
    have hmem := h p hp
    cases cmd with
    | createUser | alterUser | flush => exact hmem
    | revokeAll b =>
      have hne : a ≠ b := fun heq => hno a (by simp [grantsTo]) (by rw [heq])
      simpa [Command.run, Function.update_of_ne hne] using hmem
    | grant privs' db' b =>
      simp only [Command.run]
      rcases eq_or_ne a b with rfl | hne
      · rw [Function.update_self]
        exact Finset.mem_union_left _ hmem
      · rwa [Function.update_of_ne hne]

/-- What a statement grants is there. -/
theorem Command.held_run (cmd : Command) (g : Grants) : cmd.Held (cmd.run g) := by
  cases cmd with
  | grant privs db a =>
    intro p hp
    simp only [Command.run, Function.update_self]
    exact Finset.mem_union_right _ (List.mem_toFinset.2 (List.mem_map.2 ⟨p, hp, rfl⟩))
  | _ => trivial

/-! ## Runs -/

/-- A call that has provisioned, as far as it is, and what is left of its grants. -/
structure Call.Sound (dbs : List String) (c : Call) (g : Grants) : Prop where
  batch : provision dbs c.purpose.write = .ok (c.sent ++ c.left)
  held : c.live = true → ∀ cmd ∈ c.sent, cmd.Held g
  only : .revokeAll .ro ∈ c.sent → ReadsOnly dbs g

structure Console.Sound (dbs : List String) (s : Console) : Prop where
  calls : ∀ (j : Nat) (c : Call), s.calls[j]? = some c → c.Sound dbs (s.grants c.server)
  log : ∀ cmd ∈ s.log, Belongs dbs cmd

namespace Call.Sound

variable {c : Call}

/-- The statement that comes next belongs to the batch. -/
theorem belongs (h : c.Sound dbs g) {cmd : Command} {rest : List Command} (hl : c.left = cmd :: rest) :
    Belongs dbs cmd :=
  ⟨_, _, h.batch, by simp [hl]⟩

/-- A statement of some batch is executed on the server of a call. -/
theorem run (h : c.Sound dbs g) {cmd : Command} (hb : Belongs dbs cmd)
    (hidle : ∀ a, cmd = .revokeAll a → c.live = true → ∀ x ∈ c.sent, x.grantsTo a = false) :
    c.Sound dbs (cmd.run g) where
  batch := h.batch
  held hlive x hx := (h.held hlive x hx).run fun a hgrants heq => by
    rw [hidle a heq hlive x hx] at hgrants
    cases hgrants
  only hmem := (h.only hmem).run hb

/-- The call itself sends its next statement. -/
theorem send (h : c.Sound dbs g) {cmd : Command} {rest : List Command} (hl : c.left = cmd :: rest) :
    Call.Sound dbs { c with sent := c.sent ++ [cmd], left := rest } (cmd.run g) := by
  have hbatch := h.batch
  rw [hl] at hbatch
  have hbefore := (List.pairwise_append.1 (ordered hbatch)).2.2
  have hrun := h.run (h.belongs hl) fun a heq _ x hx => by
    by_contra hgrants
    exact hbefore x hx cmd List.mem_cons_self a (by simpa using hgrants) heq
  refine ⟨by simpa using hbatch, fun hlive x hx => ?_, fun hmem => ?_⟩
  · rcases List.mem_append.1 hx with hx | hx
    · exact hrun.held hlive x hx
    · exact List.mem_singleton.1 hx ▸ cmd.held_run g
  · rcases List.mem_append.1 hmem with hmem | hmem
    · exact hrun.only hmem
    · exact List.mem_singleton.1 hmem ▸ readsOnly_revoke

/-- A call that has provisioned is authorized. -/
theorem authorized (h : c.Sound dbs g) (hl : c.left = []) (hlive : c.live = true) :
    Authorized dbs c.purpose.write g := by
  have hbatch := h.batch
  rw [hl, List.append_nil] at hbatch
  have hheld := h.held hlive
  refine ⟨Finset.ext fun x => ⟨fun hx => ?_, fun hx => ?_⟩, fun hw db hdb p hp => ?_⟩
  · obtain ⟨hp, hdb⟩ := h.only (revoke_mem hbatch .ro) x hx
    exact List.mem_toFinset.2 (List.mem_map.2 ⟨x.1, hdb, by rw [← hp]⟩)
  · obtain ⟨db, hdb, rfl⟩ := List.mem_map.1 (List.mem_toFinset.1 hx)
    exact hheld _ ((grant_mem_iff hbatch (a := .ro)).2 ⟨hdb, rfl⟩) .select (by simp [privileges])
  · have hgrant := hheld _ ((grant_mem_iff hbatch (a := .rw)).2 ⟨hdb, rfl⟩)
    exact hgrant p (by simpa [privileges, hw] using hp)

end Call.Sound

namespace Console

variable {s s' : Console} {e : ConsoleEvent}

theorem Idle.call {server : String} {self : Option Nat} (h : s.Idle server a self) {j : Nat} {c : Call}
    (hc : s.calls[j]? = some c) (hself : self ≠ some j) (hserver : c.server = server)
    (hlive : c.live = true) : ∀ x ∈ c.sent, x.grantsTo a = false := by
  have hany := h (c, j) (List.mem_zipIdx_iff_getElem?.2 hc) hself hserver hlive
  exact fun x hx => by simpa using List.any_eq_false.1 hany x hx

/-- A server executes a statement, and all calls but the one that sends it stay sound. -/
theorem Sound.execute (h : s.Sound dbs) {server : String} {cmd : Command} {self : Option Nat}
    (hb : Belongs dbs cmd) (hidle : ∀ a, cmd = .revokeAll a → s.Idle server a self) {j : Nat} {c : Call}
    (hc : s.calls[j]? = some c) (hself : self ≠ some j) :
    c.Sound dbs ((s.execute server cmd).grants c.server) := by
  have hsound := h.calls j c hc
  simp only [Console.execute]
  rcases eq_or_ne c.server server with heq | hne
  · rw [heq, Function.update_self]
    rw [heq] at hsound
    exact hsound.run hb fun a ha hlive => (hidle a ha).call hc hself heq hlive
  · rwa [Function.update_of_ne hne]

theorem Sound.log_execute (h : s.Sound dbs) (server : String) {cmd : Command}
    (hb : Belongs dbs cmd) :
    ∀ x ∈ (s.execute server cmd).log, Belongs dbs x := by
  intro x hx
  rcases List.mem_cons.1 hx with rfl | hx
  · exact hb
  · exact h.log x hx

/-- A call gets its permit or gives it back, or is done. -/
theorem Sound.setCall (h : s.Sound dbs) {k : Nat} {c : Call} (hc : s.calls[k]? = some c)
    (permit live : Bool) (hl : live = true → c.live = true) (n : Nat) :
    Console.Sound dbs { s.setCall k { c with permit := permit, live := live } with permits := n } := by
  refine ⟨fun j x hx => ?_, h.log⟩
  simp only [Console.setCall, List.getElem?_set] at hx ⊢
  split at hx
  · split at hx
    · cases hx
      have hsound := h.calls k c hc
      exact ⟨hsound.batch, fun hlive => hsound.held (hl hlive), hsound.only⟩
    · cases hx
  · exact h.calls j x hx

/-- A call that begins has sent nothing. -/
theorem sound_start {server : String} {p : Purpose} {root : Bool} {c : Call}
    (hroot : ¬(p.isQuery = true ∧ root = true)) (h : Call.start dbs server p root = .ok c) (g : Grants) :
    c.Sound dbs g := by
  unfold Call.start at h
  rw [if_neg hroot] at h
  cases hp : provision dbs p.write with
  | error msg =>
    rw [hp] at h
    cases h
  | ok batch =>
    rw [hp] at h
    cases h
    exact ⟨hp, nofun, nofun⟩

theorem Sound.step (h : s.Sound dbs) (hg : Apart s e) (hs : s.step dbs e = some s') : s'.Sound dbs := by
  cases e with
  | begin server p root =>
    simp only [Console.step] at hs
    split at hs
    · next c hc =>
      cases hs
      refine ⟨fun j x hx => ?_, h.log⟩
      rw [List.getElem?_append] at hx
      split at hx
      · exact h.calls j x hx
      · obtain rfl : x = c := by simpa using List.mem_of_getElem? hx
        exact sound_start hg.2 hc _
    · cases hs
      exact h
  | send k =>
    obtain ⟨c, hc, hs⟩ := Option.bind_eq_some_iff.1 hs
    split at hs
    · next cmd rest hl =>
      cases hs
      have hsound := h.calls k c hc
      have hb := hsound.belongs hl
      have hidle : ∀ a, cmd = .revokeAll a → s.Idle c.server a (some k) := by
        rintro a rfl
        simpa [Apart, Console.revokes, hc, hl] using hg.1
      refine ⟨fun j x hx => ?_, h.log_execute c.server hb⟩
      simp only [Console.setCall, List.getElem?_set] at hx ⊢
      split at hx
      · split at hx
        · cases hx
          simp only [Console.execute, Function.update_self]
          exact hsound.send hl
        · cases hx
      · next hne => exact h.execute hb hidle hx (by simpa using hne)
    · cases hs
  | acquire k =>
    obtain ⟨c, hc, hs⟩ := Option.bind_eq_some_iff.1 hs
    split at hs
    · split at hs
      · cases hs
        exact h.setCall hc _ _ id _
      · cases hs
        exact h.setCall hc c.permit false nofun s.permits
    · cases hs
  | statement k =>
    obtain ⟨c, hc, hs⟩ := Option.bind_eq_some_iff.1 hs
    split at hs
    · cases hs
      exact h.setCall hc c.permit false nofun s.permits
    · cases hs
  | drop k =>
    obtain ⟨c, hc, rfl⟩ := Option.map_eq_some_iff.1 hs
    exact h.setCall hc c.permit false nofun s.permits
  | finish k =>
    obtain ⟨c, hc, hs⟩ := Option.bind_eq_some_iff.1 hs
    split at hs
    · cases hs
      exact h.setCall hc _ _ id _
    · cases hs
  | relay server cmd =>
    simp only [Console.step] at hs
    split at hs
    · next hmem =>
      cases hs
      have hb := h.log cmd hmem
      have hidle : ∀ a, cmd = .revokeAll a → s.Idle server a none := by
        rintro a rfl
        simpa [Apart, Console.revokes] using hg.1
      exact ⟨fun j x hx => h.execute hb hidle hx nofun, h.log_execute server hb⟩
    · cases hs
  | elsewhere n =>
    cases hs
    exact ⟨h.calls, h.log⟩

/-- No call is under way, and nothing was executed. -/
structure Initial (s : Console) : Prop where
  calls : s.calls = []
  log : s.log = []

theorem Initial.sound (h : s.Initial) : s.Sound dbs where
  calls j c hc := by
    rw [h.calls] at hc
    cases hc
  log cmd hmem := by
    rw [h.log] at hmem
    cases hmem

/-- The accounts stay as a call has provisioned them until its statement is executed. -/
theorem undisturbed_of_apart {h : History Console ConsoleEvent}
    (hr : Run (step dbs) (fun _ => Apart) Initial h s) : Undisturbed dbs h := by
  have hsound : ∀ t e, (t, e) ∈ h → t.Sound dbs ∧ Apart t e ∧ ∃ t', t.step dbs e = some t' := by
    refine (hr.invariant (I := fun h s => s.Sound dbs ∧ ∀ t e, (t, e) ∈ h →
      t.Sound dbs ∧ Apart t e ∧ ∃ t', t.step dbs e = some t') (fun s hi => ⟨hi.sound, nofun⟩) ?_).2
    intro h s e s' _ ih hg hs
    refine ⟨ih.1.step hg hs, fun t e' hmem => ?_⟩
    rcases List.mem_cons.1 hmem with heq | hmem
    · cases heq
      exact ⟨ih.1, hg, s', hs⟩
    · exact ih.2 t e' hmem
  refine ⟨fun t k c hmem hc _ => ?_, fun t e server a k hmem hrev _ j c hc hk hserver hwait => ?_⟩
  · obtain ⟨ht, -, t', hs⟩ := hsound t _ hmem
    obtain ⟨c', hc', hs⟩ := Option.bind_eq_some_iff.1 hs
    cases hc.symm.trans hc'
    split at hs
    · next hready => exact (ht.calls k c hc).authorized hready.2.1 hready.1
    · cases hs
  · obtain ⟨ht, hapart, -⟩ := hsound t e hmem
    have hidle : t.Idle server a k := by simpa [Apart, hrev] using hapart.1
    have hbatch := (ht.calls j c hc).batch
    rw [hwait.2.2, List.append_nil] at hbatch
    obtain ⟨db, hdb⟩ := List.exists_mem_of_ne_nil _ (provision_eq hbatch).1
    have hgrant := hidle.call hc hk hserver hwait.1 _ ((grant_mem_iff hbatch (a := a)).2 ⟨hdb, rfl⟩)
    simp [Command.grantsTo] at hgrant

/-! ## A reader between the provisioning of a writer and its statement -/

/-- A server whose accounts have no privileges yet. -/
def fresh : Console := ⟨fun _ _ => ∅, [], 4, []⟩

theorem initial_fresh : fresh.Initial := ⟨rfl, rfl⟩

/-- A call that begins and sends its batch, with one database. -/
def provisions (p : Purpose) (k : Nat) : List ConsoleEvent :=
  .begin "rds-db-master" p false :: List.replicate 9 (.send k)

/-- A writer and then a reader, one after the other. -/
def oneByOne : List ConsoleEvent :=
  provisions (.query true) 0 ++ [.acquire 0, .statement 0, .finish 0] ++
    provisions (.query false) 1 ++ [.acquire 1, .statement 1, .finish 1]

theorem undisturbed_oneByOne : ∃ h s, Run (step ["appdb"]) (fun _ => Apart) Initial h s ∧
    h.map (·.2) = oneByOne.reverse ∧ Undisturbed ["appdb"] h := by
  have hf : (follow (step ["appdb"]) (fun _ => Apart) oneByOne [] fresh).map
      (fun q => q.1.map (·.2)) = some oneByOne.reverse := by
    decide +kernel
  obtain ⟨⟨h, s⟩, hfollow, hval⟩ := Option.map_eq_some_iff.1 hf
  have hr := (Run.start initial_fresh).follow hfollow
  exact ⟨h, s, hr, hval, undisturbed_of_apart hr⟩

/-- A reader provisions after a writer, whose statement then meets an account that may only read. -/
theorem writer_stripped : ¬ ∀ dbs h s,
    Run (step dbs) (fun _ _ _ => True) Initial h s → Undisturbed dbs h := by
  intro hall
  have hf : (follow (step ["appdb"]) (fun _ _ _ => True)
      (provisions (.query true) 0 ++ provisions (.query false) 1 ++ [.acquire 0]) [] fresh).map
      (fun q => ((q.2.calls[0]?).any fun c => c.server = "rds-db-master" && c.purpose = .query true &&
          c.live && c.left.isEmpty && c.permit,
        decide (("appdb", Privilege.insert) ∈ q.2.grants "rds-db-master" .rw))) =
      some (true, false) := by
    decide +kernel
  obtain ⟨⟨h, s⟩, hfollow, hval⟩ := Option.map_eq_some_iff.1 hf
  obtain ⟨hcall, hnone⟩ := Prod.mk.inj hval
  obtain ⟨c, hc, hval⟩ := (Option.any_eq_true _ _).1 hcall
  simp only [Bool.and_eq_true, decide_eq_true_eq, List.isEmpty_iff] at hval
  obtain ⟨⟨⟨⟨hserver, hpurpose⟩, hlive⟩, hleft⟩, hpermit⟩ := hval
  have hstep : s.step ["appdb"] (.statement 0) = some (s.setCall 0 { c with live := false }) := by
    simp [step, hc, hlive, hleft, hpermit]
  have hr := ((Run.start initial_fresh).follow hfollow).step (e := .statement 0) trivial hstep
  have hauth := (hall _ _ _ hr).statement s 0 c List.mem_cons_self hc (by simp [hpurpose, Purpose.isQuery])
  rw [hserver, hpurpose] at hauth
  exact of_decide_eq_false hnone (hauth.rw rfl "appdb" List.mem_cons_self .insert (by simp))

end Console

end Rdsctl.Query
