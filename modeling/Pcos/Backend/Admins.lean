import Pcos.Backend.Family
import Pcos.Backend.Recovery

/-!
# Backend/Admins — registrations and changes of role, query by query (`auth/src/service.rs`, `user/src/admin.rs`)

    register       SELECT email ──▸ SELECT COUNT(*) ──▸ INSERT user, …
    update_role    SELECT role of the caller ──▸ UPDATE role of the user, answer

Each arrow waits, so other requests come in.  What a registration does after its `INSERT` is nothing
to the roles.
-/

namespace Pcos.Auth.Admins

open Foundations

open Pcos.Family (varchar)

/-! ## Tables -/

/-- A row of `users`, with its role. -/
structure Account where
  id : Uuid
  email : String
  displayName : String
  passwordHash : String
  role : String
  isActive : Bool
  createdAt : ℤ
  updatedAt : ℤ
  deriving DecidableEq

/-- `INSERT INTO users`, with its key, the unique e-mail and the widths of the columns -/
def insertable (accounts : List Account) (row : Account) : Bool :=
  accounts.all (fun a => a.id ≠ row.id && a.email ≠ row.email) && varchar 255 row.email
    && varchar 100 row.displayName && varchar 20 row.role

/-- `UPDATE users SET role = $1 WHERE id = $2` -/
def setRole (accounts : List Account) (user : Uuid) (role : String) : List Account :=
  accounts.map fun a => if a.id = user then { a with role := role } else a

/-! ## Registration -/

structure RegisterRequest where
  email : String
  displayName : String
  password : String
  setupToken : Option String

/-- Validate email format (basic check). -/
def validateEmail (email : String) : Except AppError Unit :=
  let trimmed := trim isWhiteSpace email
  if trimmed.utf8ByteSize < 5 ∨ 254 < trimmed.utf8ByteSize then
    .error (.validation "Invalid email address")
  else
    match trimmed.toList.splitOn '@' with
    | [name, domain] =>
      if name = [] ∨ domain = [] ∨ '.' ∉ domain then .error (.validation "Invalid email address")
      else .ok ()
    | _ => .error (.validation "Invalid email address")

/-- What a registration depends on besides the tables: the crates, `RegisterRequest::validate`, and
`PCOS_ADMIN_BOOTSTRAP_TOKEN`. -/
structure Setup where
  crates : Crates
  cases : Cases
  validate : RegisterRequest → Bool
  bootstrapToken : Option String

/-- What is checked before the queries, with the normalized e-mail. -/
def checkRequest (x : Setup) (req : RegisterRequest) : Except AppError String := do
  if ¬ x.validate req then throw (.validation "")
  let email := x.crates.toLowercase (trim isWhiteSpace req.email)
  validateEmail email
  validatePassword x.cases req.password
  if (trim isWhiteSpace req.displayName).isEmpty ∨ 100 < req.displayName.utf8ByteSize then
    throw (.validation "Display name must be 1-100 characters")
  pure email

/-- Only the initial account can claim admin, with optional bootstrap token validation. -/
def registrationRole (bootstrapToken setupToken : Option String) (count : ℕ) : Except AppError String :=
  if count = 0 then
    match (bootstrapToken.map (trim isWhiteSpace)).filter (· ≠ "") with
    | none => .ok "admin"
    | some expected =>
      if trim isWhiteSpace (setupToken.getD "") ≠ expected then
        .error (.unauthorized
          "Valid PCOS_ADMIN_BOOTSTRAP_TOKEN is required to register initial admin account")
      else .ok "admin"
  else .ok "user"

/-! ## Changes of role -/

structure UpdateRoleRequest where
  userId : Uuid
  role : String

inductive AdminError
  | internal
  | forbidden (message : String)
  | validation (message : String)
  deriving DecidableEq, Repr

/-- Check if the authenticated user has admin role. -/
def requireAdmin (accounts : List Account) (user : Uuid) : Except AdminError Unit :=
  match accounts.find? fun a => a.id = user with
  | none => .error .internal
  | some a => if a.role ≠ "admin" then .error (.forbidden "Admin access required") else .ok ()

/-- What is checked before the role is updated. -/
def checkUpdateRole (accounts : List Account) (caller : Uuid) (req : UpdateRoleRequest) :
    Except AdminError Unit := do
  requireAdmin accounts caller
  if req.role ≠ "admin" ∧ req.role ≠ "user" ∧ req.role ≠ "viewer" then
    .error (.validation "Invalid role. Must be: admin, user, viewer")
  else if req.userId = caller ∧ req.role ≠ "admin" then
    .error (.validation "Cannot remove your own admin role")
  else .ok ()

/-! ## Requests under way -/

/-- A request under way, by what it has read so far. -/
inductive Ticket
  | checked (now : ℤ) (id : Uuid) (email displayName passwordHash : String) (setupToken : Option String)
  | counted (now : ℤ) (id : Uuid) (email displayName passwordHash role : String)
  | allowed (caller user : Uuid) (role : String)
  deriving DecidableEq

/-- The table, the requests under way, and the accounts that were registered as administrators, with
whether there was none before. -/
structure Service where
  accounts : List Account
  flight : List Ticket
  founders : List (Uuid × Bool)

inductive AdminEvent
  | register (now : ℤ) (id : Uuid) (salt : String) (req : RegisterRequest) (fails : Bool)
  | updateRole (caller : Uuid) (req : UpdateRoleRequest) (fails : Bool)
  /-- A request goes on with its next query, which fails or not. -/
  | proceed (t : Ticket) (fails : Bool)

namespace Service

/-- A request comes in, and may wait. -/
def arrive (s : Service) (t : Option Ticket) : Service := { s with flight := s.flight ++ t.toList }

/-- The request is not waiting any more, or for something else. -/
def advance (s : Service) (t : Ticket) (next : Option Ticket) : Service :=
  { s with flight := s.flight.erase t ++ next.toList }

/-- The row that a registration inserts. -/
def newAccount (now : ℤ) (id : Uuid) (email displayName passwordHash role : String) : Account :=
  ⟨id, email, displayName, passwordHash, role, true, now, now⟩

/-- The account is inserted. -/
def insert (s : Service) (row : Account) : Service :=
  { s with
    accounts := s.accounts ++ [row]
    founders := s.founders ++ if row.role = "admin" then [(row.id, s.accounts.isEmpty)] else [] }

/-- The next query of a request.  A failed count is a count of 0. -/
def next (x : Setup) (s : Service) (t : Ticket) (fails : Bool) : Service :=
  match t with
  | .checked now id email displayName passwordHash setupToken =>
    let count := if fails then 0 else s.accounts.length
    s.advance t ((registrationRole x.bootstrapToken setupToken count).toOption.map fun role =>
      .counted now id email displayName passwordHash role)
  | .counted now id email displayName passwordHash role =>
    let row := newAccount now id email displayName passwordHash role
    if fails ∨ ¬ insertable s.accounts row then s.advance t none
    else (s.advance t none).insert row
  | .allowed _ user role =>
    if fails then s.advance t none
    else { s.advance t none with accounts := setRole s.accounts user role }

/-- The ticket of a registration whose e-mail is free. -/
def registering (x : Setup) (s : Service) (now : ℤ) (id : Uuid) (salt : String) (req : RegisterRequest) :
    Option Ticket := do
  let email ← (checkRequest x req).toOption
  if s.accounts.any fun a => a.email = email then none
  else
    let passwordHash ← (hashNewPassword x.crates salt req.password).toOption
    some (.checked now id email req.displayName passwordHash req.setupToken)

def step (x : Setup) (s : Service) : AdminEvent → Service
  | .register now id salt req fails => s.arrive (if fails then none else registering x s now id salt req)
  | .updateRole caller req fails =>
    s.arrive (if fails then none
      else (checkUpdateRole s.accounts caller req).toOption.map fun _ => .allowed caller req.userId req.role)
  | .proceed t fails => if t ∉ s.flight then s else s.next x t fails

/-- No accounts. -/
def start : Service := ⟨[], [], []⟩

/-- There is an administrator. -/
def HasAdmin (s : Service) : Prop := ∃ a ∈ s.accounts, a.role = "admin"

/-- At most one account was registered as an administrator, and there was none before it. -/
structure FoundedOnce (s : Service) : Prop where
  once : s.founders.length ≤ 1
  first : ∀ f ∈ s.founders, f.2 = true

end Service

/-- The ticket of a registration that will be an administrator. -/
def Ticket.founds : Ticket → Bool
  | .counted _ _ _ _ _ role => role = "admin"
  | _ => false

/-- What a safe run avoids: that the count fails, that an account is inserted while a registration that
has counted none is before its own `INSERT`, and that an administrator is demoted by one who has been
demoted since the check. -/
def InTurn (s : Service) : AdminEvent → Prop
  | .proceed (.checked _ _ _ _ _ _) fails => fails = false
  | .proceed (.counted now id email displayName passwordHash role) false =>
    ∀ t ∈ s.flight.erase (.counted now id email displayName passwordHash role), t.founds = false
  | .proceed (.allowed caller _ role) false =>
    role ≠ "admin" → ∃ a ∈ s.accounts, a.id = caller ∧ a.role = "admin"
  | _ => True

instance InTurn.decidable (s : Service) : ∀ e, Decidable (InTurn s e)
  | .proceed (.checked _ _ _ _ _ _) fails => inferInstanceAs (Decidable (fails = false))
  | .proceed (.counted now id email displayName passwordHash role) false => inferInstanceAs (Decidable
    (∀ t ∈ s.flight.erase (.counted now id email displayName passwordHash role), t.founds = false))
  | .proceed (.allowed caller _ role) false => inferInstanceAs (Decidable
    (role ≠ "admin" → ∃ a ∈ s.accounts, a.id = caller ∧ a.role = "admin"))
  | .proceed (.counted _ _ _ _ _ _) true => isTrue trivial
  | .proceed (.allowed _ _ _) true => isTrue trivial
  | .register _ _ _ _ _ => isTrue trivial
  | .updateRole _ _ _ => isTrue trivial

namespace Service

variable {x : Setup} {s s' : Service} {e : AdminEvent}

/-- What every query keeps: a registration that will be an administrator is under way only while there
are no accounts, and nobody is about to demote themselves. -/
structure Sound (s : Service) : Prop where
  founded : s.FoundedOnce
  unfounded : s.accounts = [] → s.founders = []
  empty : ∀ t ∈ s.flight, t.founds = true → s.accounts = []
  others : ∀ caller user role, .allowed caller user role ∈ s.flight → role ≠ "admin" → user ≠ caller

theorem Sound.start : Sound start :=
  ⟨⟨Nat.zero_le _, nofun⟩, fun _ => rfl, nofun, nofun⟩

/-- A request that is nothing special comes in. -/
theorem Sound.arrive (h : Sound s) {t : Option Ticket} (hfounds : ∀ t' ∈ t, t'.founds = false)
    (hothers : ∀ caller user role, .allowed caller user role ∈ t → role ≠ "admin" → user ≠ caller) :
    Sound (s.arrive t) := by
  refine ⟨⟨h.founded.once, h.founded.first⟩, h.unfounded, fun t' ht' hadmin => ?_,
    fun caller user role ht' hrole => ?_⟩
  · rcases List.mem_append.mp ht' with ht' | ht'
    · exact h.empty t' ht' hadmin
    · exact absurd (hadmin.symm.trans (hfounds t' (Option.mem_toList.mp ht'))) Bool.noConfusion
  · rcases List.mem_append.mp ht' with ht' | ht'
    · exact h.others caller user role ht' hrole
    · exact hothers caller user role (Option.mem_toList.mp ht') hrole

/-- A request is given up. -/
theorem Sound.drop (h : Sound s) (t : Ticket) : Sound (s.advance t none) := by
  have hsub : ∀ t' ∈ (s.advance t none).flight, t' ∈ s.flight := fun t' ht' => by
    simp only [advance, Option.toList_none, List.append_nil] at ht'
    exact List.mem_of_mem_erase ht'
  exact ⟨⟨h.founded.once, h.founded.first⟩, h.unfounded, fun t' ht' => h.empty t' (hsub t' ht'),
    fun caller user role ht' => h.others caller user role (hsub _ ht')⟩

theorem registrationRole_admin {bootstrapToken setupToken : Option String} {count : ℕ}
    (h : registrationRole bootstrapToken setupToken count = .ok "admin") : count = 0 := by
  by_contra hcount
  rw [registrationRole, if_neg hcount] at h
  exact absurd (Except.ok.inj h) (by decide)

/-- A registration counts the accounts. -/
theorem Sound.count (h : Sound s) {now : ℤ} {id : Uuid} {email displayName passwordHash : String}
    {setupToken : Option String} :
    Sound (s.next x (.checked now id email displayName passwordHash setupToken) false) := by
  have hsub : ∀ t' ∈ (s.next x (.checked now id email displayName passwordHash setupToken) false).flight,
      t' ∈ s.flight ∨ ∃ role, t' = .counted now id email displayName passwordHash role ∧
        registrationRole x.bootstrapToken setupToken s.accounts.length = .ok role := by
    intro t' ht'
    rcases List.mem_append.mp ht' with ht' | ht'
    · exact Or.inl (List.mem_of_mem_erase ht')
    · obtain ⟨role, hrole, rfl⟩ := Option.map_eq_some_iff.mp (Option.mem_toList.mp ht')
      refine Or.inr ⟨role, rfl, ?_⟩
      cases hcount : registrationRole x.bootstrapToken setupToken s.accounts.length with
      | error e =>
        simp [hcount, Except.toOption] at hrole
      | ok role' =>
        simp only [hcount, Except.toOption, Bool.false_eq_true, if_false, Option.some.injEq] at hrole
        rw [hrole]
  refine ⟨⟨h.founded.once, h.founded.first⟩, h.unfounded, fun t' ht' hadmin => ?_,
    fun caller user role ht' hrole => ?_⟩
  · rcases hsub t' ht' with ht' | ⟨role, rfl, hrole⟩
    · exact h.empty t' ht' hadmin
    · obtain rfl : role = "admin" := of_decide_eq_true hadmin
      exact List.length_eq_zero_iff.mp (registrationRole_admin hrole)
  · rcases hsub _ ht' with ht' | ⟨role', heq, -⟩
    · exact h.others caller user role ht' hrole
    · cases heq

/-- An account is inserted. -/
theorem Sound.insert (h : Sound s) {now : ℤ} {id : Uuid} {email displayName passwordHash role : String}
    (ht : .counted now id email displayName passwordHash role ∈ s.flight)
    (halone : ∀ t ∈ s.flight.erase (.counted now id email displayName passwordHash role),
      t.founds = false) :
    Sound ((s.advance (.counted now id email displayName passwordHash role) none).insert
      (newAccount now id email displayName passwordHash role)) := by
  have hflight : ∀ t', t' ∈ ((s.advance (.counted now id email displayName passwordHash role) none).insert
      (newAccount now id email displayName passwordHash role)).flight →
      t' ∈ s.flight.erase (.counted now id email displayName passwordHash role) := fun t' ht' => by
    simpa only [Service.insert, advance, Option.toList_none, List.append_nil] using ht'
  refine ⟨?_, fun hnone => ?_, fun t' ht' hadmin => ?_, fun caller user role' ht' => ?_⟩
  · by_cases hrole : role = "admin"
    · -- there were no accounts when it was counted, and none has come since
      have haccounts : s.accounts = [] := h.empty _ ht (decide_eq_true hrole)
      have hfounders : s.founders = [] := h.unfounded haccounts
      have hone : ((s.advance (.counted now id email displayName passwordHash role) none).insert
          (newAccount now id email displayName passwordHash role)).founders = [(id, true)] := by
        simp [Service.insert, advance, newAccount, hrole, haccounts, hfounders]
      refine ⟨by rw [hone]; exact Nat.le_refl _, fun f hf => ?_⟩
      rw [hone] at hf
      rw [List.mem_singleton.mp hf]
    · have hsame : ((s.advance (.counted now id email displayName passwordHash role) none).insert
          (newAccount now id email displayName passwordHash role)).founders = s.founders := by
        simp [Service.insert, advance, newAccount, hrole]
      exact ⟨by rw [hsame]; exact h.founded.once, fun f hf => h.founded.first f (hsame ▸ hf)⟩
  · exact absurd hnone (List.append_ne_nil_of_right_ne_nil _ (List.cons_ne_nil _ _))
  · exact absurd (hadmin.symm.trans (halone t' (hflight t' ht'))) Bool.noConfusion
  · exact h.others caller user role' (List.mem_of_mem_erase (hflight _ ht'))

theorem setRole_eq_nil {accounts : List Account} {user : Uuid} {role : String} :
    setRole accounts user role = [] ↔ accounts = [] := List.map_eq_nil_iff

/-- A role is changed. -/
theorem Sound.setRole (h : Sound s) {t : Ticket} {user : Uuid} {role : String} :
    Sound { s.advance t none with accounts := setRole s.accounts user role } := by
  have hdrop := h.drop t
  exact ⟨⟨h.founded.once, h.founded.first⟩, fun hnone => h.unfounded (setRole_eq_nil.mp hnone),
    fun t' ht' hadmin => setRole_eq_nil.mpr (hdrop.empty t' ht' hadmin), hdrop.others⟩

theorem checkUpdateRole_spec {accounts : List Account} {caller : Uuid} {req : UpdateRoleRequest} {r : Unit}
    (h : checkUpdateRole accounts caller req = .ok r) (hrole : req.role ≠ "admin") :
    req.userId ≠ caller := by
  intro hself
  unfold checkUpdateRole at h
  cases hcaller : requireAdmin accounts caller with
  | error e =>
    rw [hcaller] at h
    cases h
  | ok u =>
    rw [hcaller] at h
    change (if _ then _ else if req.userId = caller ∧ req.role ≠ "admin" then _ else _) = _ at h
    rw [if_pos (show req.userId = caller ∧ req.role ≠ "admin" from ⟨hself, hrole⟩)] at h
    split at h <;> cases h

theorem registering_spec {now : ℤ} {id : Uuid} {salt : String} {req : RegisterRequest} {t : Ticket}
    (ht : registering x s now id salt req = some t) :
    ∃ email passwordHash, t = .checked now id email req.displayName passwordHash req.setupToken := by
  obtain ⟨email, -, ht⟩ := Option.bind_eq_some_iff.mp ht
  split at ht
  · cases ht
  · obtain ⟨passwordHash, -, ht⟩ := Option.bind_eq_some_iff.mp ht
    exact ⟨email, passwordHash, (Option.some.inj ht).symm⟩

/-- **Every query keeps the service sound**, if the count does not fail and registrations take turns. -/
theorem Sound.step (h : Sound s) (he : InTurn s e) : Sound (s.step x e) := by
  cases e with
  | register now id salt req fails =>
    cases fails with
    | true => exact h.arrive nofun nofun
    | false =>
      refine h.arrive (fun t' ht' => ?_) fun caller user role ht' => ?_
      · obtain ⟨email, passwordHash, rfl⟩ := registering_spec ht'
        rfl
      · obtain ⟨email, passwordHash, heq⟩ := registering_spec ht'
        cases heq
  | updateRole caller req fails =>
    cases fails with
    | true => exact h.arrive nofun nofun
    | false =>
      refine h.arrive (fun t' ht' => ?_) fun caller' user role ht' hrole => ?_
      · obtain ⟨r, -, rfl⟩ := Option.map_eq_some_iff.mp ht'
        rfl
      · obtain ⟨r, hr, heq⟩ := Option.map_eq_some_iff.mp ht'
        obtain ⟨rfl, rfl, rfl⟩ := Ticket.allowed.inj heq
        cases hcheck : checkUpdateRole s.accounts caller req with
        | error e =>
          rw [hcheck] at hr
          cases hr
        | ok r => exact checkUpdateRole_spec hcheck hrole
  | proceed t fails =>
    simp only [Service.step]
    split
    · exact h
    · rename_i hflight
      cases t with
      | checked now id email displayName passwordHash setupToken =>
        obtain rfl : fails = false := he
        exact h.count
      | counted now id email displayName passwordHash role =>
        simp only [next]
        split
        · exact h.drop _
        · rename_i hins
          obtain rfl : fails = false := by simpa using fun hfails => hins (Or.inl hfails)
          exact h.insert (not_not.mp hflight) he
      | allowed caller user role =>
        simp only [next]
        split
        · exact h.drop _
        · exact h.setRole

/-- An administrator who is another keeps the role. -/
theorem mem_setRole {accounts : List Account} {user : Uuid} {role : String} {a : Account}
    (ha : a ∈ accounts) (hid : a.id ≠ user) : a ∈ Admins.setRole accounts user role := by
  have hmem : (if a.id = user then { a with role := role } else a) ∈ Admins.setRole accounts user role :=
    List.mem_map_of_mem ha
  rwa [if_neg hid] at hmem

/-- **There is still an administrator after a query.** -/
theorem hasAdmin_step (h : Sound s) (he : InTurn s e) (hadmin : HasAdmin s) : HasAdmin (s.step x e) := by
  obtain ⟨a, ha, hrole⟩ := hadmin
  cases e with
  | register now id salt req fails => exact ⟨a, ha, hrole⟩
  | updateRole caller req fails => exact ⟨a, ha, hrole⟩
  | proceed t fails =>
    simp only [Service.step]
    split
    · exact ⟨a, ha, hrole⟩
    · rename_i hflight
      cases t with
      | checked now id email displayName passwordHash setupToken => exact ⟨a, ha, hrole⟩
      | counted now id email displayName passwordHash role =>
        simp only [next]
        split
        · exact ⟨a, ha, hrole⟩
        · exact ⟨a, List.mem_append_left _ ha, hrole⟩
      | allowed caller user role =>
        simp only [next]
        split
        · exact ⟨a, ha, hrole⟩
        · rename_i hfails
          obtain rfl : fails = false := Bool.eq_false_iff.mpr hfails
          by_cases hset : role = "admin"
          · refine ⟨_, List.mem_map_of_mem ha, ?_⟩
            split
            · exact hset
            · exact hrole
          · obtain ⟨b, hb, hid, hbrole⟩ := he hset
            have hother : user ≠ caller := h.others caller user role (not_not.mp hflight) hset
            exact ⟨b, mem_setRole hb fun heq => hother (heq.symm.trans hid), hbrole⟩

/-- **When administrators are safe.**  In a run in which no count fails, no account is inserted while a
registration that has counted none is under way, and nobody is demoted by one who has been demoted
since the check, at most one account is registered as an administrator, the first of all, and from
the first administrator on there always is one. -/
theorem administered {es fs : List AdminEvent} (hes : Along InTurn (Service.step x) start (es ++ fs)) :
    FoundedOnce (run (Service.step x) start (es ++ fs)) ∧
      (HasAdmin (run (Service.step x) start es) → HasAdmin (run (Service.step x) start (es ++ fs))) := by
  have hinv : ∀ {s : Service} {es : List AdminEvent}, Sound s → Along InTurn (Service.step x) s es →
      Sound (run (Service.step x) s es) := fun hs hes =>
    Along.invariant (P := Sound) (fun _ _ h he => h.step he) hs hes
  obtain ⟨hbefore, hafter⟩ := Along.append_iff.mp hes
  refine ⟨(hinv Sound.start hes).founded, fun hadmin => ?_⟩
  rw [run_append]
  exact (Along.invariant (P := fun s : Service => Sound s ∧ HasAdmin s)
    (fun _ _ h he => ⟨h.1.step he, hasAdmin_step h.1 he h.2⟩) ⟨hinv Sound.start hbefore, hadmin⟩ hafter).2

open Noon Pcos.Sample

/-- Hashes that show the password, and requests that are all well formed. -/
def setup : Setup where
  crates := { Noon.crates with
    hashPassword _ password := .ok ("$argon2id$" ++ password)
    verifyPassword password hash := .ok (hash = "$argon2id$" ++ password)
    verify_hash := verify_shown }
  cases := ⟨Char.isUpper, Char.isLower⟩
  validate _ := true
  bootstrapToken := none

def after (es : List AdminEvent) : Service := run (Service.step setup) Service.start es

/-- A registration, query by query. -/
def asks (id : Uuid) (email : String) : AdminEvent :=
  .register noon id "salt" ⟨email, "Someone", "Password1", none⟩ false

def counts (id : Uuid) (email : String) : AdminEvent :=
  .proceed (.checked noon id email "Someone" "$argon2id$Password1" none) false

def inserts (id : Uuid) (email role : String) : AdminEvent :=
  .proceed (.counted noon id email "Someone" "$argon2id$Password1" role) false

/-- Alice registers, and then Bob. -/
def inTurn : List AdminEvent :=
  [asks alice "alice@example.com", counts alice "alice@example.com",
    inserts alice "alice@example.com" "admin", asks bob "bob@example.com", counts bob "bob@example.com",
    inserts bob "bob@example.com" "user"]

/-- Both at once. -/
def atOnce : List AdminEvent :=
  [asks alice "alice@example.com", asks bob "bob@example.com", counts alice "alice@example.com",
    counts bob "bob@example.com", inserts alice "alice@example.com" "admin",
    inserts bob "bob@example.com" "admin"]

/-- Bob becomes an administrator too. -/
def promotion : List AdminEvent :=
  [.updateRole alice ⟨bob, "admin"⟩ false, .proceed (.allowed alice bob "admin") false]

/-- The two demote each other. -/
def demotions : List AdminEvent :=
  [.updateRole alice ⟨bob, "user"⟩ false, .updateRole bob ⟨alice, "user"⟩ false,
    .proceed (.allowed alice bob "user") false, .proceed (.allowed bob alice "user") false]

/-- Bob demotes Alice. -/
def demotion : List AdminEvent :=
  [.updateRole bob ⟨alice, "user"⟩ false, .proceed (.allowed bob alice "user") false]

/-- The first two registered, and one promotion and demotion later. -/
theorem administered_inTurn :
    FoundedOnce (after (inTurn ++ (promotion ++ demotion))) ∧
      (HasAdmin (after inTurn) → HasAdmin (after (inTurn ++ (promotion ++ demotion)))) :=
  administered (by decide)

/-- **Two registrations at once make two administrators, and two demotions at once leave none.** -/
theorem not_administered :
    ¬ FoundedOnce (after atOnce) ∧
      HasAdmin (after (inTurn ++ promotion)) ∧ ¬ HasAdmin (after (inTurn ++ promotion ++ demotions)) := by
  refine ⟨fun h => ?_, ?_, ?_⟩
  · have htwo : (after atOnce).founders.length = 2 := by decide
    exact absurd h.once (by omega)
  · unfold HasAdmin
    decide
  · unfold HasAdmin
    decide

end Service

end Pcos.Auth.Admins
