/-
# Who may decide about owners

Every organization should keep an owner, and no call of a user who is not an owner
should create, change or remove the membership of one, or lift the caller above the
rank it has. One call breaks this: adding a member that is an owner, with a lower
role. It is checked against the role that is granted and not against the role that
is lost. Runs without such a call keep both.
-/

import ApiVoy.Collaboration.Members
import Mathlib

namespace ApiVoy.Collaboration

open Foundation

/-! ## The property -/

def Directory.IsOwner (s : Directory) (organizationId userId : String) : Prop :=
  ∃ m ∈ s.memberships.rows, m.organizationId = organizationId ∧ m.userId = userId ∧ m.role = .owner

instance (s : Directory) (organizationId userId : String) :
    Decidable (s.IsOwner organizationId userId) :=
  inferInstanceAs (Decidable (∃ m ∈ s.memberships.rows, _))

/-- Every organization has an owner. -/
def Directory.Owned (s : Directory) : Prop :=
  ∀ o ∈ s.organizations.rows, ∃ userId, s.IsOwner o.id userId

/-- A user a call acts for. A bootstrap and a sign-in name none, and what is said of
their caller is said of every user. -/
def MemberCall.By (call : MemberCall) (userId : String) : Prop :=
  ∀ actor, call.actor? = some actor → actor = userId

/-- A call and the organizations there were before it: unless its caller is an owner,
the memberships of the owners stay, and nobody becomes an owner; and no caller
gets a smaller rank than it had. -/
structure Guarded (call : MemberCall) (s s' : Directory) : Prop where
  owners : ∀ actor, call.By actor → ∀ o ∈ s.organizations.rows, ¬ s.IsOwner o.id actor →
    ∀ m : Membership, m.organizationId = o.id → m.role = .owner →
      (m ∈ s'.memberships.rows ↔ m ∈ s.memberships.rows)
  ranks : ∀ actor, call.By actor → ∀ o ∈ s.organizations.rows,
    ∀ m ∈ s.memberships.rows, m.organizationId = o.id → m.userId = actor →
    ∀ m' ∈ s'.memberships.rows, m'.organizationId = o.id → m'.userId = actor →
      rank m.role ≤ rank m'.role

/-! ## The call that breaks it -/

/-- An administrator adds an owner with a lower role, and is no owner itself or
leaves the organization without one. -/
def Directory.Demotes (s : Directory) (actor organizationId : String) (role : Role) :
    ServiceResult Membership → ServiceResult UserAccount → Prop
  | .ok _, .ok user =>
    role ≠ .owner ∧ s.IsOwner organizationId user.id ∧
      (¬ s.IsOwner organizationId actor ∨
        ∀ m ∈ s.memberships.rows, m.organizationId = organizationId → m.role = .owner →
          m.userId = user.id)
  | .ok _, .error _ | .error _, _ => False

instance (s : Directory) (actor organizationId : String) (role : Role) :
    (admin : ServiceResult Membership) → (user : ServiceResult UserAccount) →
      Decidable (s.Demotes actor organizationId role admin user)
  | .ok _, .ok _ => inferInstanceAs (Decidable (_ ∧ _ ∧ _))
  | .ok _, .error _ | .error _, _ => inferInstanceAs (Decidable False)

def MemberCall.DemotesOwner (platform : Platform) (s : Directory) : MemberCall → Prop
  | .addMember actor organizationId email role =>
    s.Demotes actor organizationId role
      (require s.memberships.rows actor organizationId .admin) (namedUser platform email s)
  | .bootstrap .. | .ssoLogin .. | .provisionMember .. => False

instance (platform : Platform) (s : Directory) : (call : MemberCall) →
    Decidable (call.DemotesOwner platform s)
  | .addMember .. => inferInstanceAs (Decidable (Directory.Demotes ..))
  | .bootstrap .. | .ssoLogin .. | .provisionMember .. => inferInstanceAs (Decidable False)

/-! ## What the tables keep -/

/-- A user has one membership in an organization, and the organization exists. -/
structure Consistent (s : Directory) : Prop where
  single : ∀ m ∈ s.memberships.rows, ∀ m' ∈ s.memberships.rows,
    m.organizationId = m'.organizationId → m.userId = m'.userId → m = m'
  exists_organization : ∀ m ∈ s.memberships.rows,
    ∃ o ∈ s.organizations.rows, o.id = m.organizationId

section Memberships

variable {memberships : List Membership} {organizationId userId : String}

variable {m : Membership}

theorem findMembership_some (h : findMembership memberships organizationId userId = some m) :
    m ∈ memberships ∧ m.organizationId = organizationId ∧ m.userId = userId := by
  have hkey := List.find?_some h
  simp only [Bool.and_eq_true, decide_eq_true_eq] at hkey
  exact ⟨List.mem_of_find?_eq_some h, hkey⟩

theorem findMembership_none (h : findMembership memberships organizationId userId = none)
    (hm : m ∈ memberships) (horganization : m.organizationId = organizationId) :
    m.userId ≠ userId := by
  intro huser
  have hne := List.find?_eq_none.mp h m hm
  simp [horganization, huser] at hne

theorem require_ok {minimum : Role} {m : Membership}
    (h : require memberships userId organizationId minimum = .ok m) :
    (m ∈ memberships ∧ m.organizationId = organizationId ∧ m.userId = userId) ∧
      rank m.role ≤ rank minimum := by
  simp only [require] at h
  split at h
  · cases h
  · rename_i found hfound
    split at h
    · cases h
    · rename_i hrank
      cases h
      exact ⟨findMembership_some hfound, Nat.not_lt.mp hrank⟩

end Memberships

theorem owner_of_rank {role : Role} (h : rank role ≤ rank .owner) : role = .owner := by
  cases role <;> simp_all [rank]

theorem admin_le_rank {role : Role} (h : role ≠ .owner) : rank .admin ≤ rank role := by
  cases role <;> simp_all [rank]

section Tables

variable {s s' : Directory}

theorem mem_inserted {ρ : Type} [Keyed ρ] {t t' : Table ρ} {row r : ρ}
    (h : t.insert? row = some t') : r ∈ t'.rows ↔ r ∈ t.rows ∨ r = row := by
  simp [(Table.insert?_eq_some_iff.mp h).2]

theorem ne_of_inserted {organization o : Organization} {organizations : Table Organization}
    (h : s.organizations.insert? organization = some organizations)
    (ho : o ∈ s.organizations.rows) : o.id ≠ organization.id :=
  Table.find?_eq_none_iff.mp (Table.insert?_eq_some_iff.mp h).1 o ho

/-- The rows when one of them got another role. -/
theorem mem_regraded {member m : Membership} {role : Role}
    (hmemberships : s'.memberships =
      s.memberships.update member.id (fun m => { m with role }) fun _ => rfl)
    (hmember : member ∈ s.memberships.rows) :
    m ∈ s'.memberships.rows ↔
      m = { member with role } ∨ m ∈ s.memberships.rows ∧ m ≠ member := by
  rw [hmemberships, Table.mem_update]
  constructor
  · rintro ⟨r, hr, rfl⟩
    by_cases hkey : Keyed.key r = member.id
    · rw [if_pos hkey, Table.eq_of_key_eq hr hmember hkey]
      exact Or.inl rfl
    · rw [if_neg hkey]
      exact Or.inr ⟨hr, fun h => hkey (h ▸ rfl)⟩
  · rintro (rfl | ⟨hm, hne⟩)
    · exact ⟨member, hmember, if_pos rfl⟩
    · exact ⟨m, hm, if_neg fun hkey => hne (Table.eq_of_key_eq hm hmember hkey)⟩

variable {row : Membership}

theorem Directory.IsOwner.of_inserted {organizationId userId : String}
    (hmemberships : s.memberships.insert? row = some s'.memberships)
    (h : s.IsOwner organizationId userId) : s'.IsOwner organizationId userId := by
  obtain ⟨m, hm, howner⟩ := h
  exact ⟨m, (mem_inserted hmemberships).mpr (Or.inl hm), howner⟩

/-- A membership of an organization there is, for a user that had none in it. -/
theorem Consistent.inserted (hs : Consistent s)
    (hmemberships : s.memberships.insert? row = some s'.memberships)
    (hnew : findMembership s.memberships.rows row.organizationId row.userId = none)
    (horganizations : ∀ o ∈ s.organizations.rows, o ∈ s'.organizations.rows)
    (hexists : ∃ o ∈ s'.organizations.rows, o.id = row.organizationId) : Consistent s' where
  single m hm m' hm' horganization huser := by
    rcases (mem_inserted hmemberships).mp hm with hm | rfl
    · rcases (mem_inserted hmemberships).mp hm' with hm' | rfl
      · exact hs.single m hm m' hm' horganization huser
      · exact absurd huser (findMembership_none hnew hm horganization)
    · rcases (mem_inserted hmemberships).mp hm' with hm' | rfl
      · exact absurd huser.symm (findMembership_none hnew hm' horganization.symm)
      · rfl
  exists_organization m hm := by
    rcases (mem_inserted hmemberships).mp hm with hm | rfl
    · obtain ⟨o, ho, hid⟩ := hs.exists_organization m hm
      exact ⟨o, horganizations o ho, hid⟩
    · exact hexists

theorem Consistent.regraded (hs : Consistent s) {member : Membership} {role : Role}
    (horganizations : s'.organizations = s.organizations)
    (hmemberships : s'.memberships =
      s.memberships.update member.id (fun m => { m with role }) fun _ => rfl)
    (hmember : member ∈ s.memberships.rows) : Consistent s' where
  single m hm m' hm' horganization huser := by
    rcases (mem_regraded hmemberships hmember).mp hm with rfl | ⟨hm, hne⟩
    · rcases (mem_regraded hmemberships hmember).mp hm' with rfl | ⟨hm', hne'⟩
      · rfl
      · exact absurd (hs.single m' hm' member hmember horganization.symm huser.symm) hne'
    · rcases (mem_regraded hmemberships hmember).mp hm' with rfl | ⟨hm', hne'⟩
      · exact absurd (hs.single m hm member hmember horganization huser) hne
      · exact hs.single m hm m' hm' horganization huser
  exists_organization m hm := by
    rw [horganizations]
    rcases (mem_regraded hmemberships hmember).mp hm with rfl | ⟨hm, _⟩
    · exact hs.exists_organization member hmember
    · exact hs.exists_organization m hm

end Tables

/-! ## One call -/

section Step

variable {platform : Platform} {s s' : Directory} {call : MemberCall}

theorem consistent_change (h : MembershipChange platform s s' call) (hs : Consistent s) :
    Consistent s' := by
  cases h with
  | kept hsame =>
    exact {
      single := by
        rw [hsame.memberships]
        exact hs.single
      exists_organization := by
        rw [hsame.memberships, hsame.organizations]
        exact hs.exists_organization }
  | founded organization row horganizations hmemberships hrow hrole =>
    apply hs.inserted hmemberships
    · -- nobody is a member of an organization that was not there
      rw [findMembership, List.find?_eq_none]
      intro m hm hkey
      simp only [Bool.and_eq_true, decide_eq_true_eq] at hkey
      obtain ⟨o, ho, hid⟩ := hs.exists_organization m hm
      exact ne_of_inserted horganizations ho (by rw [hid, hkey.1, hrow])
    · exact fun o ho => (mem_inserted horganizations).mpr (Or.inl ho)
    · exact ⟨organization, (mem_inserted horganizations).mpr (Or.inr rfl), hrow.symm⟩
  | signedUp row horganizations hmemberships hnew horganization howner hadmin =>
    apply hs.inserted hmemberships hnew
    · exact fun o ho => horganizations ▸ ho
    · obtain ⟨o, ho⟩ := Option.isSome_iff_exists.mp horganization
      exact ⟨o, horganizations ▸ Table.mem_of_find? ho, Table.key_of_find? ho⟩
  | joined actor hcall row horganizations hmemberships hnew hactor howner =>
    apply hs.inserted hmemberships hnew
    · exact fun o ho => horganizations ▸ ho
    · obtain ⟨m, hm⟩ := hactor
      obtain ⟨⟨hmem, horganization, _⟩, _⟩ := require_ok hm
      obtain ⟨o, ho, hid⟩ := hs.exists_organization m hmem
      exact ⟨o, horganizations ▸ ho, hid.trans horganization⟩
  | regraded user member hactor howner huser hmember horganizations hmemberships =>
    exact hs.regraded horganizations hmemberships (findMembership_some hmember).1

/-- A membership inserted for a user that had none guards the owners, if it makes an
owner for an owner only. -/
theorem guarded_of_inserted {row : Membership} (hs : Consistent s)
    (hmemberships : s.memberships.insert? row = some s'.memberships)
    (hnew : ∀ m ∈ s.memberships.rows, (∃ o ∈ s.organizations.rows, o.id = row.organizationId) →
      m.organizationId = row.organizationId → m.userId ≠ row.userId)
    (howner : (∃ o ∈ s.organizations.rows, o.id = row.organizationId) → row.role = .owner →
      ∀ actor, call.By actor → s.IsOwner row.organizationId actor) : Guarded call s s' where
  owners actor hactor o ho hother m horganization hrole := by
    rw [mem_inserted hmemberships]
    constructor
    · rintro (hm | rfl)
      · exact hm
      · have hgrant := howner ⟨o, ho, horganization.symm⟩ hrole actor hactor
        exact absurd (horganization ▸ hgrant) hother
    · exact Or.inl
  ranks actor _ o ho m hm horganization huser m' hm' horganization' huser' := by
    rcases (mem_inserted hmemberships).mp hm' with hm' | rfl
    · rw [hs.single m hm m' hm' (horganization.trans horganization'.symm)
        (huser.trans huser'.symm)]
    · exact absurd (huser.trans huser'.symm)
        (hnew m hm ⟨o, ho, horganization'.symm⟩ (horganization.trans horganization'.symm))

theorem owned_of_inserted {row : Membership} (hs : s.Owned)
    (horganizations : s'.organizations = s.organizations)
    (hmemberships : s.memberships.insert? row = some s'.memberships) : s'.Owned := by
  intro o ho
  rw [horganizations] at ho
  obtain ⟨userId, howner⟩ := hs o ho
  exact ⟨userId, howner.of_inserted hmemberships⟩

/-- A new role for a member guards the owners, if it takes the role of none and makes
an owner for an owner only, and if the caller may grant it. -/
theorem guarded_of_regraded (hs : Consistent s) {actor organizationId : String}
    {email : Option String} {role : Role} {member : Membership}
    (hmember : member ∈ s.memberships.rows) (horganization : member.organizationId = organizationId)
    (hmemberships : s'.memberships =
      s.memberships.update member.id (fun m => { m with role }) fun _ => rfl)
    (hactor : ∃ m, require s.memberships.rows actor organizationId .admin = .ok m)
    (howner : role = .owner → s.IsOwner organizationId actor)
    (hkeep : member.role = .owner → s.IsOwner organizationId actor) :
    Guarded (.addMember actor organizationId email role) s s' where
  owners caller hcaller o ho hother m hm hrole := by
    have heq : actor = caller := hcaller actor rfl
    subst heq
    rw [mem_regraded hmemberships hmember]
    constructor
    · rintro (rfl | ⟨hmem, _⟩)
      · exact absurd (howner hrole) (by rwa [← horganization, show member.organizationId = o.id from hm])
      · exact hmem
    · intro hmem
      apply Or.inr
      refine ⟨hmem, ?_⟩
      rintro rfl
      exact hother (hm ▸ horganization ▸ hkeep hrole)
  ranks caller hcaller o ho m hm hmo hmu m' hm' hmo' hmu' := by
    have heq : actor = caller := hcaller actor rfl
    subst heq
    rcases (mem_regraded hmemberships hmember).mp hm' with rfl | ⟨hm', _⟩
    · -- the caller grants itself a role
      have hself : m = member := hs.single m hm member hmember (hmo.trans hmo'.symm)
        (hmu.trans hmu'.symm)
      subst hself
      obtain ⟨admin, hadmin⟩ := hactor
      obtain ⟨⟨hmem, hadminorg, hadminuser⟩, hrank⟩ := require_ok hadmin
      have hcaller : admin = m := hs.single admin hmem m hm (hadminorg.trans horganization.symm)
        (hadminuser.trans hmu.symm)
      subst hcaller
      by_cases hrole : role = .owner
      · obtain ⟨own, hown, hownorg, hownuser, hownrole⟩ := howner hrole
        have hsame := hs.single own hown admin hmem (hownorg.trans horganization.symm)
          (hownuser.trans hmu.symm)
        rw [← hsame, hownrole]
        exact Nat.zero_le _
      · exact hrank.trans (admin_le_rank hrole)
    · rw [hs.single m hm m' hm' (hmo.trans hmo'.symm) (hmu.trans hmu'.symm)]

/-- A new role for a member leaves an owner, if another one stays. -/
theorem owned_of_regraded (hs : s.Owned) {organizationId : String} {role : Role}
    {member : Membership} (hmember : member ∈ s.memberships.rows)
    (horganization : member.organizationId = organizationId)
    (horganizations : s'.organizations = s.organizations)
    (hmemberships : s'.memberships =
      s.memberships.update member.id (fun m => { m with role }) fun _ => rfl)
    (hkeep : member.role = .owner → role ≠ .owner →
      ∃ m ∈ s.memberships.rows, m.organizationId = organizationId ∧ m.role = .owner ∧
        m.userId ≠ member.userId) : s'.Owned := by
  intro o ho
  rw [horganizations] at ho
  obtain ⟨userId, m, hm, hmo, hmu, hmrole⟩ := hs o ho
  by_cases hsame : m = member
  · subst hsame
    by_cases hrole : role = .owner
    · exact ⟨userId, { m with role }, (mem_regraded hmemberships hm).mpr (Or.inl rfl), hmo, hmu,
        hrole⟩
    · obtain ⟨other, hother, hotherorg, hotherrole, hne⟩ := hkeep hmrole hrole
      have hdistinct : other ≠ m := fun h => hne (h ▸ rfl)
      exact ⟨other.userId, other,
        (mem_regraded hmemberships hm).mpr (Or.inr ⟨hother, hdistinct⟩),
        hotherorg.trans (horganization.symm.trans hmo), rfl, hotherrole⟩
  · exact ⟨userId, m, (mem_regraded hmemberships hmember).mpr (Or.inr ⟨hm, hsame⟩), hmo, hmu,
      hmrole⟩

theorem isOwner_of_require {actor organizationId : String}
    (h : ∃ m, require s.memberships.rows actor organizationId .owner = .ok m) :
    s.IsOwner organizationId actor := by
  obtain ⟨m, hm⟩ := h
  obtain ⟨⟨hmem, horganization, huser⟩, hrank⟩ := require_ok hm
  exact ⟨m, hmem, horganization, huser, owner_of_rank hrank⟩

/-- A call that demotes no owner keeps the property. -/
theorem safe_change (h : MembershipChange platform s s' call) (hs : Consistent s)
    (howned : s.Owned) (hkeep : ¬ call.DemotesOwner platform s) :
    s'.Owned ∧ Guarded call s s' := by
  cases h with
  | kept hsame =>
    constructor
    · intro o ho
      rw [hsame.organizations] at ho
      obtain ⟨userId, m, hm, howner⟩ := howned o ho
      exact ⟨userId, m, hsame.memberships ▸ hm, howner⟩
    · constructor
      · intro _ _ _ _ _ m _ _
        rw [hsame.memberships]
      · intro _ _ _ _ m hm hmo hmu m' hm' hmo' hmu'
        rw [hsame.memberships] at hm'
        rw [hs.single m hm m' hm' (hmo.trans hmo'.symm) (hmu.trans hmu'.symm)]
  | founded organization row horganizations hmemberships hrow hrole =>
    have hnew : ¬ ∃ o ∈ s.organizations.rows, o.id = row.organizationId := by
      rintro ⟨o, ho, hid⟩
      exact ne_of_inserted horganizations ho (hid.trans hrow)
    constructor
    · intro o ho
      rcases (mem_inserted horganizations).mp ho with ho | rfl
      · obtain ⟨userId, howner⟩ := howned o ho
        exact ⟨userId, howner.of_inserted hmemberships⟩
      · exact ⟨row.userId, row, (mem_inserted hmemberships).mpr (Or.inr rfl), hrow, rfl, hrole⟩
    · exact guarded_of_inserted hs hmemberships (fun _ _ hexists => absurd hexists hnew)
        (fun hexists => absurd hexists hnew)
  | signedUp row horganizations hmemberships hnew _ howner _ =>
    constructor
    · exact owned_of_inserted howned horganizations hmemberships
    · exact guarded_of_inserted hs hmemberships (fun _ hm _ => findMembership_none hnew hm)
        (fun _ hrole => absurd hrole howner)
  | joined actor hcall row horganizations hmemberships hnew _ howner =>
    constructor
    · exact owned_of_inserted howned horganizations hmemberships
    · apply guarded_of_inserted hs hmemberships (fun _ hm _ => findMembership_none hnew hm)
      intro _ hrole caller hcaller
      rw [← hcaller actor hcall]
      exact isOwner_of_require (howner hrole)
  | @regraded actor organizationId email role user member hactor howner huser hmember horganizations
      hmemberships =>
      obtain ⟨hmem, horganization, hmemberuser⟩ := findMembership_some hmember
      have hspare : role ≠ .owner → member.role = .owner →
          s.IsOwner organizationId actor ∧ ∃ m ∈ s.memberships.rows,
            m.organizationId = organizationId ∧ m.role = .owner ∧ m.userId ≠ user.id := by
        intro hrole hmemberrole
        obtain ⟨admin, hadmin⟩ := hactor
        by_contra hnone
        apply hkeep
        simp only [MemberCall.DemotesOwner, hadmin, huser, Directory.Demotes]
        refine ⟨hrole, ⟨member, hmem, horganization, hmemberuser, hmemberrole⟩, ?_⟩
        by_cases hisowner : s.IsOwner organizationId actor
        · apply Or.inr
          intro m hm hmo hmrole
          by_contra hne
          exact hnone ⟨hisowner, m, hm, hmo, hmrole, hne⟩
        · exact Or.inl hisowner
      constructor
      · apply owned_of_regraded howned hmem horganization horganizations hmemberships
        intro hmemberrole hrole
        rw [hmemberuser]
        exact (hspare hrole hmemberrole).2
      · apply guarded_of_regraded hs hmem horganization hmemberships hactor
        · exact fun hrole => isOwner_of_require (howner hrole)
        · intro hmemberrole
          by_cases hrole : role = .owner
          · exact isOwner_of_require (howner hrole)
          · exact (hspare hrole hmemberrole).1

/-- The rows after a member that is there was added again. -/
theorem addMember_member {actor organizationId : String} {email : Option String} {role : Role}
    (fresh : Fresh) {admin member : Membership} {user : UserAccount}
    (hadmin : require s.memberships.rows actor organizationId .admin = .ok admin)
    (hrole : role ≠ .owner) (huser : namedUser platform email s = .ok user)
    (hmember : findMembership s.memberships.rows organizationId user.id = some member) :
    addMember platform actor organizationId email role fresh s = .ok (user.memberView role, { s with
      memberships := s.memberships.update member.id (fun m => { m with role }) fun _ => rfl }) := by
  have hgrant : requireGrant actor organizationId role s = .ok ((), s) := by
    change (check _ >>= _) s = _
    simp [check, hadmin, hrole, bind, StateT.bind, Except.bind, pure, StateT.pure, Except.pure]
  simp [addMember, hgrant, check, huser, hmember, setRole, get, getThe, MonadStateOf.get,
    StateT.get, bind, StateT.bind, Except.bind, pure, StateT.pure, Except.pure]

theorem Consistent.findMembership (hs : Consistent s) {m : Membership}
    (hm : m ∈ s.memberships.rows) :
    findMembership s.memberships.rows m.organizationId m.userId = some m := by
  cases hfind : Collaboration.findMembership s.memberships.rows m.organizationId m.userId with
  | none => exact absurd rfl (findMembership_none hfind hm rfl)
  | some found =>
    obtain ⟨hfound, horganization, huser⟩ := findMembership_some hfind
    rw [hs.single found hfound m hm horganization huser]

/-- What a call that demotes an owner finds and does. -/
theorem demotes_cases {fresh : Fresh} (h : memberStep platform (call, fresh) s = some s')
    (hs : Consistent s) (hdemotes : call.DemotesOwner platform s) :
    ∃ actor email role member, call = .addMember actor member.organizationId email role ∧
      role ≠ .owner ∧ member ∈ s.memberships.rows ∧ member.role = .owner ∧
      s'.organizations = s.organizations ∧
      s'.memberships = s.memberships.update member.id (fun m => { m with role }) (fun _ => rfl) ∧
      (¬ s.IsOwner member.organizationId actor ∨
        ∀ m ∈ s.memberships.rows, m.organizationId = member.organizationId → m.role = .owner →
          m.userId = member.userId) := by
  cases call with
  | bootstrap | ssoLogin | provisionMember => exact hdemotes.elim
  | addMember actor organizationId email role =>
    simp only [MemberCall.DemotesOwner] at hdemotes
    cases hadmin : require s.memberships.rows actor organizationId .admin with
    | error e =>
      rw [hadmin] at hdemotes
      exact hdemotes.elim
    | ok admin =>
      cases huser : namedUser platform email s with
      | error e =>
        rw [hadmin, huser] at hdemotes
        exact hdemotes.elim
      | ok user =>
        rw [hadmin, huser] at hdemotes
        obtain ⟨hrole, ⟨member, hmem, rfl, hmemberuser, hmemberrole⟩, hlast⟩ := hdemotes
        have hmember := hs.findMembership hmem
        rw [hmemberuser] at hmember
        have hrun := addMember_member fresh hadmin hrole huser hmember
        simp only [memberStep, MemberCall.run, bind, StateT.bind, hrun, Except.bind] at h
        split at h
        · cases h
          exact ⟨actor, email, role, member, rfl, hrole, hmem, hmemberrole, rfl, rfl,
            hmemberuser ▸ hlast⟩
        · cases h

/-- A call that demotes an owner breaks the property. -/
theorem unsafe_of_demotes {fresh : Fresh} (h : memberStep platform (call, fresh) s = some s')
    (hs : Consistent s) (hdemotes : call.DemotesOwner platform s) :
    ¬ (s'.Owned ∧ Guarded call s s') := by
  rintro ⟨howned, hguarded⟩
  obtain ⟨actor, email, role, member, rfl, hrole, hmem, hmemberrole, horganizations, hmemberships,
    hlast⟩ := demotes_cases h hs hdemotes
  obtain ⟨o, ho, hid⟩ := hs.exists_organization member hmem
  rcases hlast with hother | hlast
  · -- an administrator has taken the role of an owner
    have hactor : (MemberCall.addMember actor member.organizationId email role).By actor := by
      rintro _ ⟨⟩
      rfl
    have hstays := (hguarded.owners actor hactor o ho (hid ▸ hother) member hid.symm
      hmemberrole).mpr hmem
    rcases (mem_regraded hmemberships hmem).mp hstays with hsame | ⟨_, hne⟩
    · exact hrole (by rw [← hmemberrole, hsame])
    · exact hne rfl
  · -- nobody else owns the organization
    obtain ⟨userId, m, hm, hmo, hmu, hmrole⟩ := howned o (horganizations ▸ ho)
    rcases (mem_regraded hmemberships hmem).mp hm with rfl | ⟨hm, hne⟩
    · exact hrole hmrole
    · have horganization := hmo.trans hid
      exact hne (hs.single m hm member hmem horganization (hlast m hm horganization hmrole))

end Step

/-! ## Runs -/

/-- The states after calls none of which demotes an owner. -/
abbrev Unharmed (platform : Platform) (s s' : Directory) : Prop :=
  Follows (memberStep platform) (fun s action => ¬ action.1.DemotesOwner platform s) s s'

theorem consistent_empty : Consistent .empty := ⟨nofun, nofun⟩

/-- While no owner is demoted every organization has an owner, and the next call
keeps that and guards the owners exactly when it demotes none either. -/
theorem owners_guarded {platform : Platform} {s : Directory} (h : Unharmed platform .empty s) :
    s.Owned ∧ ∀ action s', memberStep platform action s = some s' →
      (¬ action.1.DemotesOwner platform s ↔ s'.Owned ∧ Guarded action.1 s s') := by
  have hinvariant : Consistent s ∧ s.Owned := by
    apply h.invariant (I := fun s => Consistent s ∧ s.Owned)
    · exact ⟨consistent_empty, nofun⟩
    · intro s action s' hs hkeep hstep
      have hchange := memberStep_cases hstep
      exact ⟨consistent_change hchange hs.1, (safe_change hchange hs.1 hs.2 hkeep).1⟩
  refine ⟨hinvariant.2, ?_⟩
  intro action s' hstep
  constructor
  · exact safe_change (memberStep_cases hstep) hinvariant.1 hinvariant.2
  · intro hsafe hdemotes
    exact unsafe_of_demotes hstep hinvariant.1 hdemotes hsafe

/-! ## A run of each kind -/

def exampleService : Platform where
  bootstrapToken := "token"
  toLowerCase text := text
  ignoreCase text := text
  encode password := "hash of " ++ password

def drawn (n : String) : Fresh :=
  ⟨"user " ++ n, "identity " ++ n, "organization " ++ n, "membership " ++ n, "password " ++ n⟩

/-- The owner of a new organization invites another user. -/
def invite (role : Role) : List (MemberCall × Fresh) :=
  [(.bootstrap "token" (some "ann@team.dev") (some "long enough") "Ann" "Team", drawn "1"),
    (.provisionMember "user 1" "organization 1" (some "bob@team.dev") "Bob" (some "long enough")
      role, drawn "2")]

/-- A second owner gives the first one another role. -/
def handedOver : Directory :=
  (performAdmitted (memberStep exampleService)
    (fun s action => ¬ action.1.DemotesOwner exampleService s)
    (invite .owner ++
      [(.addMember "user 2" "organization 1" (some "ann@team.dev") .viewer, drawn "3")])
    .empty).get (by decide +kernel)

theorem handedOver_owned : handedOver.Owned ∧
    handedOver.memberships.rows.map Membership.role = [.viewer, .owner] :=
  ⟨(owners_guarded (follows_of_performAdmitted (Option.some_get _).symm)).1, by decide +kernel⟩

/-- An administrator was invited. -/
def administrated : Directory :=
  (perform (memberStep exampleService) (invite .admin) .empty).get (by decide +kernel)

/-- The administrator adds the owner as an editor. -/
def seizure : MemberCall × Fresh :=
  (.addMember "user 2" "organization 1" (some "ann@team.dev") .editor, drawn "3")

def seized : Directory := (memberStep exampleService seizure administrated).get (by decide +kernel)

/-- The organization has no owner any more, and an administrator did it. -/
theorem owner_seized : ¬ ∀ platform s, Follows (memberStep platform) (fun _ _ => True) .empty s →
    s.Owned ∧ ∀ action s', memberStep platform action s = some s' → Guarded action.1 s s' := by
  intro hall
  have hreached : Follows (memberStep exampleService) (fun _ _ => True) .empty administrated :=
    follows_of_perform (Option.some_get _).symm
  have hstep : memberStep exampleService seizure administrated = some seized :=
    (Option.some_get _).symm
  have hguarded := (hall _ _ hreached).2 seizure seized hstep
  have hactor : seizure.1.By "user 2" := by
    rintro _ ⟨⟩
    rfl
  have hstays := hguarded.owners "user 2" hactor ⟨"organization 1", "Team"⟩ (by decide +kernel)
    (by decide +kernel) ⟨"membership 1", "organization 1", "user 1", .owner⟩ rfl rfl
  have howned := (hall _ _ (hreached.step seizure trivial hstep)).1
  obtain ⟨userId, m, hm, _, _, hrole⟩ := howned ⟨"organization 1", "Team"⟩ (by decide +kernel)
  have hnone : ∀ m ∈ seized.memberships.rows, m.role ≠ .owner := by decide +kernel
  exact hnone m hm hrole

end ApiVoy.Collaboration
