/-
# Members of an organization

Accounts are created by the bootstrap, by administrators and by single sign-on;
each of these calls is one transaction that gives an account a membership in an
organization. An organization is meant to keep an owner, and only its owners are
meant to decide who owns it. Adding a member that exists overwrites the role it
has, and the role it has is not looked at: an administrator can take the ownership
of an owner, and the last owner its own.
-/

import ApiVoy.Collaboration.Domain
import ApiVoy.Foundation.Interleaving
import ApiVoy.Foundation.Table

namespace ApiVoy.Collaboration

open Foundation

/-! ## Rows -/

structure UserAccount where
  id : String
  email : String
  displayName : String
  passwordHash : String
  deriving DecidableEq

structure FederatedIdentity where
  id : String
  provider : String
  subject : String
  userId : String
  deriving DecidableEq

structure Organization where
  id : String
  name : String
  deriving DecidableEq

instance : Keyed UserAccount := ⟨UserAccount.id⟩

instance : Keyed FederatedIdentity := ⟨FederatedIdentity.id⟩

instance : Keyed Organization := ⟨Organization.id⟩

instance : Keyed Membership := ⟨Membership.id⟩

/-- The tables the operations on members read and write. -/
structure Directory where
  users : Table UserAccount
  identities : Table FederatedIdentity
  organizations : Table Organization
  memberships : Table Membership
  deriving DecidableEq

def Directory.empty : Directory := ⟨∅, ∅, ∅, ∅⟩

/-- What the service is configured with, and what it uses of its platform. -/
structure Platform where
  bootstrapToken : String
  toLowerCase : String → String
  /-- Equal for two addresses when the database takes them for the same. -/
  ignoreCase : String → String
  encode : String → String

/-- The random ids and the random password a call draws. -/
structure Fresh where
  userId : String
  identityId : String
  organizationId : String
  membershipId : String
  password : String
  deriving DecidableEq

/-- Random ids are ids no row has. -/
def Fresh.isFresh (fresh : Fresh) (s : Directory) : Bool :=
  (s.users.find? fresh.userId).isNone && (s.identities.find? fresh.identityId).isNone &&
    (s.organizations.find? fresh.organizationId).isNone &&
    (s.memberships.find? fresh.membershipId).isNone

structure UserView where
  id : String
  email : String
  displayName : String
  deriving DecidableEq

/-- The result of a sign-in, without the token of its session. -/
structure AuthResult where
  user : UserView
  organizationId : String
  role : Role
  deriving DecidableEq

structure MemberView where
  id : String
  email : String
  displayName : String
  role : Role
  deriving DecidableEq

def UserAccount.view (user : UserAccount) : UserView := ⟨user.id, user.email, user.displayName⟩

def UserAccount.memberView (user : UserAccount) (role : Role) : MemberView :=
  ⟨user.id, user.email, user.displayName, role⟩

/-! ## Transactions -/

/-- Reads and writes of one transaction; an exception undoes the writes. -/
abbrev Transaction := StateT Directory ServiceResult

def refuse {α : Type} (status : HttpStatus) (reason : String) : Transaction α :=
  throw (.responseStatus status reason)

/-- A check of the tables as they are. -/
def check {α : Type} (f : Directory → ServiceResult α) : Transaction α := fun s => do
  let a ← f s
  pure (a, s)

def orElseThrow {α : Type} (value : Option α) (status : HttpStatus) (reason : String) :
    Transaction α :=
  match value with
  | some a => pure a
  | none => refuse status reason

def insertUser (row : UserAccount) : Transaction Unit := fun s =>
  match s.users.insert? row with
  | none => .error .dataIntegrityViolation
  | some users =>
    if s.users.rows.any fun u => u.email = row.email then .error .dataIntegrityViolation
    else .ok ((), { s with users })

/-- A user has one identity of a provider, and an identity one user. -/
def insertIdentity (row : FederatedIdentity) : Transaction Unit := fun s =>
  match s.identities.insert? row with
  | none => .error .dataIntegrityViolation
  | some identities =>
    if s.identities.rows.any fun i => i.provider = row.provider &&
        (i.subject = row.subject || i.userId = row.userId) then
      .error .dataIntegrityViolation
    else .ok ((), { s with identities })

def insertOrganization (row : Organization) : Transaction Unit := fun s =>
  match s.organizations.insert? row with
  | none => .error .dataIntegrityViolation
  | some organizations => .ok ((), { s with organizations })

/-- A user has one membership in an organization. -/
def insertMembership (row : Membership) : Transaction Unit := fun s =>
  match s.memberships.insert? row with
  | none => .error .dataIntegrityViolation
  | some memberships =>
    if (findMembership s.memberships.rows row.organizationId row.userId).isSome then
      .error .dataIntegrityViolation
    else .ok ((), { s with memberships })

/-- Overwrite the role of a membership that was read. -/
def setRole (member : Membership) (role : Role) : Transaction Unit := fun s =>
  .ok ((), { s with
    memberships := s.memberships.update member.id (fun m => { m with role }) fun _ => rfl })

/-! ## Checks -/

variable (platform : Platform)

def normalizeEmail (email : Option String) : ServiceResult String :=
  match email with
  | none => .error (.responseStatus .badRequest "valid email required")
  | some email =>
    if '@' ∈ email.toList then .ok (platform.toLowerCase (javaTrim email))
    else .error (.responseStatus .badRequest "valid email required")

def validatePassword (password : Option String) : ServiceResult String :=
  match password with
  | none => .error (.responseStatus .badRequest "password must contain at least 10 characters")
  | some password =>
    if javaLength password < 10 then
      .error (.responseStatus .badRequest "password must contain at least 10 characters")
    else .ok password

/-- `Character.isWhitespace`. -/
def isWhitespace (c : Char) : Bool :=
  let n := c.toNat
  (0x09 ≤ n && n ≤ 0x0d) || (0x1c ≤ n && n ≤ 0x20) || n = 0x1680 ||
    (0x2000 ≤ n && n ≤ 0x2006) || (0x2008 ≤ n && n ≤ 0x200a) || n = 0x2028 || n = 0x2029 ||
    n = 0x205f || n = 0x3000

def isBlank (text : String) : Bool := text.toList.all isWhitespace

/-- The user of an address; two users of one address are an error. -/
def findByEmailIgnoreCase (email : String) (s : Directory) : ServiceResult (Option UserAccount) :=
  match s.users.rows.filter fun u => platform.ignoreCase u.email = platform.ignoreCase email with
  | [] => .ok none
  | [user] => .ok (some user)
  | _ => .error .failure

def namedUser (email : Option String) (s : Directory) : ServiceResult UserAccount := do
  let address ← normalizeEmail platform email
  match ← findByEmailIgnoreCase platform address s with
  | none => .error (.responseStatus .notFound "user not found")
  | some user => .ok user

/-- An administrator may grant the roles below the owner's, an owner every role. -/
def requireGrant (actor organizationId : String) (role : Role) : Transaction Unit := do
  let _ ← check fun s => require s.memberships.rows actor organizationId .admin
  if role = .owner then do
    let _ ← check fun s => require s.memberships.rows actor organizationId .owner
    pure ()
  else pure ()

/-! ## Operations -/

def bootstrap (supplied : String) (email password : Option String)
    (displayName organizationName : String) (fresh : Fresh) : Transaction AuthResult := do
  let s ← get
  if supplied ≠ platform.bootstrapToken ∨ s.users.rows ≠ [] then
    refuse .forbidden "bootstrap is unavailable"
  else do
    let password ← check fun _ => validatePassword password
    let address ← check fun _ => normalizeEmail platform email
    let user : UserAccount :=
      ⟨fresh.userId, address, javaTrim displayName, platform.encode password⟩
    insertUser user
    let organization : Organization := ⟨fresh.organizationId, javaTrim organizationName⟩
    insertOrganization organization
    insertMembership ⟨fresh.membershipId, organization.id, user.id, .owner⟩
    pure ⟨user.view, organization.id, .owner⟩

/-- The account of an identity; an unknown identity is linked to the account of its
address, which is created when there is none. -/
def federatedUser (provider subject address : String) (displayName : Option String)
    (fresh : Fresh) : Transaction UserAccount := do
  let s ← get
  match s.identities.rows.find? fun i => i.provider = provider && i.subject = subject with
  | some identity =>
    orElseThrow (s.users.find? identity.userId) .unauthorized "federated identity is invalid"
  | none => do
    let user ← match ← check fun s => findByEmailIgnoreCase platform address s with
      | some user => pure user
      | none => do
        let name := match displayName with
          | none => address
          | some name => if isBlank name then address else javaTrim name
        let user : UserAccount :=
          ⟨fresh.userId, address, name, platform.encode fresh.password⟩
        insertUser user
        pure user
    insertIdentity ⟨fresh.identityId, provider, subject, user.id⟩
    pure user

def ssoLogin (provider subject : String) (email : Option String) (emailVerified : Bool)
    (displayName : Option String) (organizationId : String) (defaultRole : Role)
    (fresh : Fresh) : Transaction AuthResult := do
  if ¬ emailVerified then
    refuse .forbidden "OIDC provider did not verify the email address"
  else if defaultRole = .owner ∨ defaultRole = .admin then
    refuse .badRequest "SSO default role cannot grant administrative access"
  else do
    let s ← get
    let organization ← orElseThrow (s.organizations.find? organizationId) .forbidden
      "SSO organization is unavailable"
    let address ← check fun _ => normalizeEmail platform email
    let user ← federatedUser platform provider subject address displayName fresh
    let s ← get
    match findMembership s.memberships.rows organization.id user.id with
    | some membership => pure ⟨user.view, organization.id, membership.role⟩
    | none => do
      insertMembership ⟨fresh.membershipId, organization.id, user.id, defaultRole⟩
      pure ⟨user.view, organization.id, defaultRole⟩

def addMember (actor organizationId : String) (email : Option String) (role : Role)
    (fresh : Fresh) : Transaction MemberView := do
  requireGrant actor organizationId role
  let user ← check fun s => namedUser platform email s
  let s ← get
  match findMembership s.memberships.rows organizationId user.id with
  | some member => setRole member role
  | none => insertMembership ⟨fresh.membershipId, organizationId, user.id, role⟩
  pure (user.memberView role)

def provisionMember (actor organizationId : String) (email : Option String) (displayName : String)
    (password : Option String) (role : Role) (fresh : Fresh) : Transaction MemberView := do
  requireGrant actor organizationId role
  let password ← check fun _ => validatePassword password
  let address ← check fun _ => normalizeEmail platform email
  match ← check fun s => findByEmailIgnoreCase platform address s with
  | some _ => refuse .conflict "user already exists"
  | none => do
    let user : UserAccount :=
      ⟨fresh.userId, address, javaTrim displayName, platform.encode password⟩
    insertUser user
    insertMembership ⟨fresh.membershipId, organizationId, user.id, role⟩
    pure (user.memberView role)

/-! ## Steps -/

inductive MemberCall where
  | bootstrap (supplied : String) (email password : Option String)
      (displayName organizationName : String)
  | ssoLogin (provider subject : String) (email : Option String) (emailVerified : Bool)
      (displayName : Option String) (organizationId : String) (defaultRole : Role)
  | addMember (actor organizationId : String) (email : Option String) (role : Role)
  | provisionMember (actor organizationId : String) (email : Option String)
      (displayName : String) (password : Option String) (role : Role)
  deriving DecidableEq

/-- The user who calls; a bootstrap and a sign-in have none yet. -/
def MemberCall.actor? : MemberCall → Option String
  | .bootstrap .. | .ssoLogin .. => none
  | .addMember actor .. | .provisionMember actor .. => some actor

/-- The call on the tables; what it returns to the caller is dropped. -/
def MemberCall.run (fresh : Fresh) : MemberCall → Transaction Unit
  | .bootstrap supplied email password displayName organizationName => do
    let _ ← Collaboration.bootstrap platform supplied email password displayName organizationName
      fresh
    pure ()
  | .ssoLogin provider subject email emailVerified displayName organizationId defaultRole => do
    let _ ← Collaboration.ssoLogin platform provider subject email emailVerified displayName
      organizationId defaultRole fresh
    pure ()
  | .addMember actor organizationId email role => do
    let _ ← Collaboration.addMember platform actor organizationId email role fresh
    pure ()
  | .provisionMember actor organizationId email displayName password role => do
    let _ ← Collaboration.provisionMember platform actor organizationId email displayName
      password role fresh
    pure ()

/-- A call with what it draws; a call that is refused leaves the tables as they are. -/
def memberStep (action : MemberCall × Fresh) (s : Directory) : Option Directory :=
  if action.2.isFresh s then
    match action.1.run platform action.2 s with
    | .ok (_, s') => some s'
    | .error _ => some s
  else none

/-! ## What a transaction has done -/

section Inversion

variable {α β : Type} {s s' : Directory}

theorem bind_ok {x : Transaction α} {f : α → Transaction β} {b : β}
    (h : (x >>= f) s = .ok (b, s')) : ∃ a t, x s = .ok (a, t) ∧ f a t = .ok (b, s') := by
  change (x s >>= fun p => f p.1 p.2) = .ok (b, s') at h
  cases hx : x s with
  | error e =>
    rw [hx] at h
    cases h
  | ok p =>
    rw [hx] at h
    exact ⟨p.1, p.2, rfl, h⟩

theorem get_ok {a : Directory} (h : (get : Transaction Directory) s = .ok (a, s')) :
    a = s ∧ s = s' := by
  cases h
  exact ⟨rfl, rfl⟩

theorem pure_ok {a b : α} (h : (pure a : Transaction α) s = .ok (b, s')) : b = a ∧ s = s' := by
  cases h
  exact ⟨rfl, rfl⟩

theorem check_ok {f : Directory → ServiceResult α} {a : α} (h : check f s = .ok (a, s')) :
    f s = .ok a ∧ s = s' := by
  simp only [check] at h
  cases hf : f s with
  | error e =>
    rw [hf] at h
    cases h
  | ok b =>
    rw [hf] at h
    cases h
    exact ⟨rfl, rfl⟩

variable {status : HttpStatus} {reason : String}

theorem refuse_ok {a : α} : (refuse status reason : Transaction α) s ≠ .ok (a, s') := nofun

theorem orElseThrow_ok {value : Option α} {a : α}
    (h : orElseThrow value status reason s = .ok (a, s')) : value = some a ∧ s = s' := by
  cases value with
  | none => exact absurd h refuse_ok
  | some b =>
    cases h
    exact ⟨rfl, rfl⟩

/-- The organizations and the memberships are as they were. -/
structure SameMembers (s s' : Directory) : Prop where
  organizations : s'.organizations = s.organizations
  memberships : s'.memberships = s.memberships

theorem SameMembers.trans {t : Directory} (h : SameMembers s t) (h' : SameMembers t s') :
    SameMembers s s' :=
  ⟨h'.organizations.trans h.organizations, h'.memberships.trans h.memberships⟩

variable {u : Unit}

theorem insertUser_ok {row : UserAccount} (h : insertUser row s = .ok (u, s')) :
    SameMembers s s' := by
  simp only [insertUser] at h
  split at h
  · cases h
  · split at h
    · cases h
    · cases h
      exact ⟨rfl, rfl⟩

theorem insertIdentity_ok {row : FederatedIdentity} (h : insertIdentity row s = .ok (u, s')) :
    SameMembers s s' := by
  simp only [insertIdentity] at h
  split at h
  · cases h
  · split at h
    · cases h
    · cases h
      exact ⟨rfl, rfl⟩

theorem insertOrganization_ok {row : Organization} (h : insertOrganization row s = .ok (u, s')) :
    s.organizations.insert? row = some s'.organizations ∧ s'.memberships = s.memberships := by
  simp only [insertOrganization] at h
  split at h
  · cases h
  · rename_i organizations horganizations
    cases h
    exact ⟨horganizations, rfl⟩

theorem insertMembership_ok {row : Membership} (h : insertMembership row s = .ok (u, s')) :
    s.memberships.insert? row = some s'.memberships ∧
      findMembership s.memberships.rows row.organizationId row.userId = none ∧
      s'.organizations = s.organizations := by
  simp only [insertMembership] at h
  split at h
  · cases h
  · rename_i memberships hmemberships
    split at h
    · cases h
    · rename_i hfind
      cases h
      exact ⟨hmemberships, by simpa using hfind, rfl⟩

end Inversion

section Operations

variable {platform : Platform} {fresh : Fresh} {s s' : Directory}

/-- An owner's role is granted by an owner, any other by an administrator at least. -/
theorem requireGrant_ok {actor organizationId : String} {role : Role} {u : Unit}
    (h : requireGrant actor organizationId role s = .ok (u, s')) :
    s = s' ∧ (∃ m, require s.memberships.rows actor organizationId .admin = .ok m) ∧
      (role = .owner → ∃ m, require s.memberships.rows actor organizationId .owner = .ok m) := by
  obtain ⟨admin, t, hcheck, h⟩ := bind_ok h
  obtain ⟨hadmin, rfl⟩ := check_ok hcheck
  split at h
  · obtain ⟨owner, t, hcheck, h⟩ := bind_ok h
    obtain ⟨howner, rfl⟩ := check_ok hcheck
    exact ⟨(pure_ok h).2, ⟨admin, hadmin⟩, fun _ => ⟨owner, howner⟩⟩
  · rename_i hrole
    exact ⟨(pure_ok h).2, ⟨admin, hadmin⟩, fun howner => absurd howner hrole⟩

theorem federatedUser_ok {provider subject address : String} {displayName : Option String}
    {user : UserAccount}
    (h : federatedUser platform provider subject address displayName fresh s = .ok (user, s')) :
    SameMembers s s' := by
  obtain ⟨_, t, hget, h⟩ := bind_ok h
  obtain ⟨rfl, rfl⟩ := get_ok hget
  generalize List.find? _ _ = identity at h
  cases identity with
  | some identity =>
    obtain ⟨_, rfl⟩ := orElseThrow_ok h
    exact ⟨rfl, rfl⟩
  | none =>
    obtain ⟨found, t, hfound, h⟩ := bind_ok h
    obtain ⟨_, rfl⟩ := check_ok hfound
    -- the account, found or created, gets the identity
    have hlink : ∀ {user u : UserAccount} {t : Directory},
        (do insertIdentity ⟨fresh.identityId, provider, subject, user.id⟩; pure user :
          Transaction UserAccount) t = .ok (u, s') → SameMembers t s' := by
      intro user u t h
      obtain ⟨_, t', hidentity, h⟩ := bind_ok h
      obtain ⟨_, rfl⟩ := pure_ok h
      exact insertIdentity_ok hidentity
    cases found with
    | some user => exact hlink h
    | none =>
      obtain ⟨_, t, huser, h⟩ := bind_ok h
      exact (insertUser_ok huser).trans (hlink h)

end Operations

/-- What a call can do to the organizations and the memberships. -/
inductive MembershipChange (platform : Platform) (s s' : Directory) : MemberCall → Prop
  | kept {call : MemberCall} (h : SameMembers s s') : MembershipChange platform s s' call
  /-- The bootstrap founds an organization with its owner. -/
  | founded {supplied : String} {email password : Option String}
      {displayName organizationName : String} (organization : Organization) (row : Membership)
      (horganizations : s.organizations.insert? organization = some s'.organizations)
      (hmemberships : s.memberships.insert? row = some s'.memberships)
      (hrow : row.organizationId = organization.id) (hrole : row.role = .owner) :
      MembershipChange platform s s' (.bootstrap supplied email password displayName organizationName)
  | signedUp {provider subject : String} {email : Option String} {emailVerified : Bool}
      {displayName : Option String} {organizationId : String} {defaultRole : Role}
      (row : Membership) (horganizations : s'.organizations = s.organizations)
      (hmemberships : s.memberships.insert? row = some s'.memberships)
      (hnew : findMembership s.memberships.rows row.organizationId row.userId = none)
      (horganization : (s.organizations.find? row.organizationId).isSome)
      (howner : row.role ≠ .owner) (hadmin : row.role ≠ .admin) :
      MembershipChange platform s s' (.ssoLogin provider subject email emailVerified displayName
        organizationId defaultRole)
  /-- An administrator lets a user in. -/
  | joined {call : MemberCall} (actor : String) (hcall : call.actor? = some actor)
      (row : Membership) (horganizations : s'.organizations = s.organizations)
      (hmemberships : s.memberships.insert? row = some s'.memberships)
      (hnew : findMembership s.memberships.rows row.organizationId row.userId = none)
      (hactor : ∃ m, require s.memberships.rows actor row.organizationId .admin = .ok m)
      (howner : row.role = .owner →
        ∃ m, require s.memberships.rows actor row.organizationId .owner = .ok m) :
      MembershipChange platform s s' call
  /-- Adding a member that is there already overwrites its role. -/
  | regraded {actor organizationId : String} {email : Option String} {role : Role}
      (user : UserAccount) (member : Membership)
      (hactor : ∃ m, require s.memberships.rows actor organizationId .admin = .ok m)
      (howner : role = .owner → ∃ m, require s.memberships.rows actor organizationId .owner = .ok m)
      (huser : namedUser platform email s = .ok user)
      (hmember : findMembership s.memberships.rows organizationId user.id = some member)
      (horganizations : s'.organizations = s.organizations)
      (hmemberships : s'.memberships =
        s.memberships.update member.id (fun m => { m with role }) fun _ => rfl) :
      MembershipChange platform s s' (.addMember actor organizationId email role)

section Calls

variable {platform : Platform} {fresh : Fresh} {s s' : Directory}

theorem bootstrap_ok {supplied : String} {email password : Option String}
    {displayName organizationName : String} {result : AuthResult}
    (h : bootstrap platform supplied email password displayName organizationName fresh s =
      .ok (result, s')) :
    MembershipChange platform s s'
      (.bootstrap supplied email password displayName organizationName) := by
  obtain ⟨_, t, hget, h⟩ := bind_ok h
  obtain ⟨rfl, rfl⟩ := get_ok hget
  split at h
  · exact absurd h refuse_ok
  · obtain ⟨_, t, hpassword, h⟩ := bind_ok h
    obtain ⟨_, rfl⟩ := check_ok hpassword
    obtain ⟨address, t, haddress, h⟩ := bind_ok h
    obtain ⟨_, rfl⟩ := check_ok haddress
    obtain ⟨_, t₁, huser, h⟩ := bind_ok h
    obtain ⟨_, t₂, horganization, h⟩ := bind_ok h
    obtain ⟨_, t₃, hmembership, h⟩ := bind_ok h
    obtain ⟨_, rfl⟩ := pure_ok h
    have huser := insertUser_ok huser
    have horganization := insertOrganization_ok horganization
    have hmembership := insertMembership_ok hmembership
    have horganizations := horganization.1
    have hmemberships := hmembership.1
    rw [huser.organizations, ← hmembership.2.2] at horganizations
    rw [horganization.2, huser.memberships] at hmemberships
    exact .founded _ _ horganizations hmemberships rfl rfl

theorem ssoLogin_ok {provider subject : String} {email : Option String} {emailVerified : Bool}
    {displayName : Option String} {organizationId : String} {defaultRole : Role}
    {result : AuthResult}
    (h : ssoLogin platform provider subject email emailVerified displayName organizationId
      defaultRole fresh s = .ok (result, s')) :
    MembershipChange platform s s' (.ssoLogin provider subject email emailVerified displayName
      organizationId defaultRole) := by
  simp only [ssoLogin] at h
  split at h
  · exact absurd h refuse_ok
  · split at h
    · exact absurd h refuse_ok
    · rename_i hrole
      obtain ⟨_, t, hget, h⟩ := bind_ok h
      obtain ⟨rfl, rfl⟩ := get_ok hget
      obtain ⟨organization, t, hfind, h⟩ := bind_ok h
      obtain ⟨horganization, rfl⟩ := orElseThrow_ok hfind
      obtain ⟨_, t, haddress, h⟩ := bind_ok h
      obtain ⟨_, rfl⟩ := check_ok haddress
      obtain ⟨user, t₁, huser, h⟩ := bind_ok h
      obtain ⟨_, t₂, hget, h⟩ := bind_ok h
      obtain ⟨rfl, rfl⟩ := get_ok hget
      have huser := federatedUser_ok huser
      generalize findMembership _ _ _ = membership at h
      cases membership with
      | some membership =>
        obtain ⟨_, rfl⟩ := pure_ok h
        exact .kept huser
      | none =>
        obtain ⟨_, t₃, hmembership, h⟩ := bind_ok h
        obtain ⟨_, rfl⟩ := pure_ok h
        have hmembership := insertMembership_ok hmembership
        rw [huser.memberships, huser.organizations] at hmembership
        have hkey : organization.id = organizationId := Table.key_of_find? horganization
        rw [← hkey] at horganization
        exact .signedUp _ hmembership.2.2 hmembership.1 hmembership.2.1
          (Option.isSome_iff_exists.mpr ⟨organization, horganization⟩)
          (fun h => hrole (Or.inl h)) (fun h => hrole (Or.inr h))

theorem addMember_ok {actor organizationId : String} {email : Option String} {role : Role}
    {result : MemberView}
    (h : addMember platform actor organizationId email role fresh s = .ok (result, s')) :
    MembershipChange platform s s' (.addMember actor organizationId email role) := by
  obtain ⟨_, t, hgrant, h⟩ := bind_ok h
  obtain ⟨rfl, hadmin, howner⟩ := requireGrant_ok hgrant
  obtain ⟨user, t, hcheck, h⟩ := bind_ok h
  obtain ⟨huser, rfl⟩ := check_ok hcheck
  obtain ⟨_, t, hget, h⟩ := bind_ok h
  obtain ⟨rfl, rfl⟩ := get_ok hget
  split at h
  · rename_i member hmember
    obtain ⟨_, t, hset, h⟩ := bind_ok h
    obtain ⟨_, rfl⟩ := pure_ok h
    cases hset
    exact .regraded user member hadmin howner huser hmember rfl rfl
  · obtain ⟨_, t, hmembership, h⟩ := bind_ok h
    obtain ⟨_, rfl⟩ := pure_ok h
    have hmembership := insertMembership_ok hmembership
    exact .joined actor rfl _ hmembership.2.2 hmembership.1 hmembership.2.1 hadmin howner

theorem provisionMember_ok {actor organizationId : String} {email : Option String}
    {displayName : String} {password : Option String} {role : Role} {result : MemberView}
    (h : provisionMember platform actor organizationId email displayName password role fresh s =
      .ok (result, s')) :
    MembershipChange platform s s'
      (.provisionMember actor organizationId email displayName password role) := by
  obtain ⟨_, t, hgrant, h⟩ := bind_ok h
  obtain ⟨rfl, hadmin, howner⟩ := requireGrant_ok hgrant
  obtain ⟨_, t, hpassword, h⟩ := bind_ok h
  obtain ⟨_, rfl⟩ := check_ok hpassword
  obtain ⟨_, t, haddress, h⟩ := bind_ok h
  obtain ⟨_, rfl⟩ := check_ok haddress
  obtain ⟨found, t, hfound, h⟩ := bind_ok h
  obtain ⟨_, rfl⟩ := check_ok hfound
  split at h
  · exact absurd h refuse_ok
  · obtain ⟨_, t₁, huser, h⟩ := bind_ok h
    obtain ⟨_, t₂, hmembership, h⟩ := bind_ok h
    obtain ⟨_, rfl⟩ := pure_ok h
    have huser := insertUser_ok huser
    have hmembership := insertMembership_ok hmembership
    rw [huser.memberships, huser.organizations] at hmembership
    exact .joined actor rfl _ hmembership.2.2 hmembership.1 hmembership.2.1 hadmin howner

theorem run_ok {call : MemberCall} {u : Unit} (h : call.run platform fresh s = .ok (u, s')) :
    MembershipChange platform s s' call := by
  cases call with
  | bootstrap =>
    obtain ⟨_, t, hcall, h⟩ := bind_ok h
    obtain ⟨_, rfl⟩ := pure_ok h
    exact bootstrap_ok hcall
  | ssoLogin =>
    obtain ⟨_, t, hcall, h⟩ := bind_ok h
    obtain ⟨_, rfl⟩ := pure_ok h
    exact ssoLogin_ok hcall
  | addMember =>
    obtain ⟨_, t, hcall, h⟩ := bind_ok h
    obtain ⟨_, rfl⟩ := pure_ok h
    exact addMember_ok hcall
  | provisionMember =>
    obtain ⟨_, t, hcall, h⟩ := bind_ok h
    obtain ⟨_, rfl⟩ := pure_ok h
    exact provisionMember_ok hcall

theorem memberStep_cases {action : MemberCall × Fresh} (h : memberStep platform action s = some s') :
    MembershipChange platform s s' action.1 := by
  simp only [memberStep] at h
  split at h
  · split at h
    · rename_i hrun
      cases h
      exact run_ok hrun
    · cases h
      exact .kept ⟨rfl, rfl⟩
  · cases h

end Calls

end ApiVoy.Collaboration
