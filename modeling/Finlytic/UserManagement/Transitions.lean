import Finlytic.UserManagement.AuthService

/-! What one statement of a call can do, read off `statement` once. Every
invariant of the session store is proved from this list and never unfolds the
calls again. -/

namespace Finlytic.UserManagement

open Lib

/-- The refresh token an answer hands out. -/
def Outcome.token : Outcome → Option String
  | .session response => some response.refreshToken
  | _ => none

/-- The transitions of a call, with the statement it runs on the store. -/
inductive Transition (cfg : Config) (s : Store) : Call → Store → Call → Prop where
  | stop (c : Call) (o : Outcome) : o.token = none → Transition cfg s c s (.done o)
  | loginStart (user : User) (email password : String) (client : ClientMeta) :
      user ∈ s.users → Transition cfg s (.loginFind email password client) s (.loginStart user client)
  | startFamily (user : User) (client : ClientMeta) (d : Draw) (s' : Store) (record : RefreshToken) :
      d.familyId ∉ s.families → issue cfg s user.id d.familyId client d = some (s', record) →
      Transition cfg s (.loginStart user client) s' (.done (.session (buildSession cfg user d.raw)))
  | spend (raw : String) (client : ClientMeta) (row : RefreshToken) :
      spendRow cfg s raw = some row →
      Transition cfg s (.refreshSpend raw client) (spendUpdate cfg s raw)
        (.refreshReread raw client row.familyId)
  | notSpent (raw : String) (client : ClientMeta) : spendRow cfg s raw = none →
      Transition cfg s (.refreshSpend raw client) s (.refreshExisting raw)
  | reread (raw : String) (client : ClientMeta) (familyId : String) (spent : RefreshToken) :
      findByHash cfg s raw = some spent →
      Transition cfg s (.refreshReread raw client familyId) s (.refreshUser spent client)
  | reuse (raw : String) (existing : RefreshToken) :
      findByHash cfg s raw = some existing → existing.revokedAt.isSome →
      Transition cfg s (.refreshExisting raw) s (.refreshReuse existing.familyId)
  | active (user : User) (spent : RefreshToken) (client : ClientMeta) :
    user ∈ s.users → user.id = spent.userId →
      Transition cfg s (.refreshUser spent client) s (.refreshIssue user spent client)
  | inactive (spent : RefreshToken) (client : ClientMeta) :
      Transition cfg s (.refreshUser spent client) s (.refreshInactive spent.familyId)
  | issue (user : User) (spent : RefreshToken) (client : ClientMeta) (d : Draw) (s' : Store)
    (record : RefreshToken) :
      issue cfg s user.id spent.familyId client d = some (s', record) →
      Transition cfg s (.refreshIssue user spent client) s'
        (.refreshLink user spent.id d.raw record.id)
  | link (user : User) (spentId raw issuedId : String) (s' : Store) :
      linkReplacement s spentId issuedId = some s' →
      Transition cfg s (.refreshLink user spentId raw issuedId) s'
        (.done (.session (buildSession cfg user raw)))
  | logoutFind (raw : String) (record : RefreshToken) : findByHash cfg s raw = some record →
      Transition cfg s (.logoutFind raw) s (.logoutRevoke record.familyId)
  | revokeReuse (familyId : String) (o : Outcome) : o.token = none →
      Transition cfg s (.refreshReuse familyId) (revokeFamily s familyId) (.done o)
  | revokeInactive (familyId : String) (o : Outcome) : o.token = none →
      Transition cfg s (.refreshInactive familyId) (revokeFamily s familyId) (.done o)
  | revokeLogout (familyId : String) (o : Outcome) : o.token = none →
      Transition cfg s (.logoutRevoke familyId) (revokeFamily s familyId) (.done o)

/-- A call starts at the first statement of a login, refresh or logout, or is already answered. -/
theorem start_induction (P : Call → Prop)
    (login : ∀ email password client, P (.loginFind email password client))
    (refresh : ∀ raw client, P (.refreshSpend raw client)) (logout : ∀ raw, P (.logoutFind raw))
    (done : ∀ o, P (.done o)) (r : Request) : P (start r) := by
  cases r with
  | login email password client => exact login email password client
  | refresh raw client => simp only [start]; split_ifs; exacts [done _, refresh raw client]
  | logout raw => simp only [start]; split_ifs; exacts [done _, logout raw]

variable {cfg : Config} {s s' : Store} {c c' : Call} {d : Choice}

theorem findById_spec {userId : String} {user : User} (h : findById s userId = some user) :
    user ∈ s.users ∧ user.id = userId := by
  have hid := List.find?_some h
  exact ⟨List.mem_of_find?_eq_some h, by simpa using hid⟩

theorem statement_transition (h : statement cfg s c d = some (s', c')) :
    Transition cfg s c s' c' := by
  cases d with
  | dbError => cases c <;> cases h <;> exact .stop _ _ rfl
  | ok d =>
    cases c with
    | done o => cases h
    | loginFind email password client =>
      simp only [statement] at h
      split at h
      · rename_i user hu
        split_ifs at h
        · cases h; exact .loginStart _ _ _ _ (List.mem_of_find?_eq_some hu)
        · cases h; exact .stop _ _ rfl
      · cases h; exact .stop _ _ rfl
    | loginStart user client =>
      simp only [statement] at h
      split_ifs at h with hf
      obtain ⟨⟨t, record⟩, hi, he⟩ := Option.map_eq_some_iff.mp h
      cases he
      exact .startFamily _ _ d _ record hf hi
    | refreshSpend raw client =>
      simp only [statement] at h
      split at h
      · rename_i row hr; cases h; exact .spend _ _ _ hr
      · rename_i hr; cases h; exact .notSpent _ _ hr
    | refreshReread raw client familyId =>
      simp only [statement] at h
      split at h
      · rename_i spent hr; cases h; exact .reread _ _ _ _ hr
      · cases h; exact .stop _ _ rfl
    | refreshExisting raw =>
      simp only [statement] at h
      split at h
      · rename_i existing hr
        split_ifs at h with he
        · cases h; exact .reuse _ _ hr he
        · cases h; exact .stop _ _ rfl
      · cases h; exact .stop _ _ rfl
    | refreshReuse familyId => simp only [statement] at h; cases h; exact .revokeReuse _ _ rfl
    | refreshUser spent client =>
      simp only [statement] at h
      split at h
      · rename_i user hu
        split_ifs at h
        · cases h; exact .active _ _ _ (findById_spec hu).1 (findById_spec hu).2
        · cases h; exact .inactive _ _
      · cases h; exact .inactive _ _
    | refreshInactive familyId => simp only [statement] at h; cases h; exact .revokeInactive _ _ rfl
    | refreshIssue user spent client =>
      simp only [statement] at h
      obtain ⟨⟨t, record⟩, hi, he⟩ := Option.map_eq_some_iff.mp h
      cases he
      exact .issue _ _ _ d _ record hi
    | refreshLink user spentId raw issuedId =>
      simp only [statement] at h
      split at h
      · rename_i t hl; cases h; exact .link _ _ _ _ _ hl
      · cases h; exact .stop _ _ rfl
    | logoutFind raw =>
      simp only [statement] at h
      split at h
      · rename_i record hr; cases h; exact .logoutFind _ _ hr
      · cases h; exact .stop _ _ rfl
    | logoutRevoke familyId => simp only [statement] at h; cases h; exact .revokeLogout _ _ rfl

/-! ### Statements on the store -/

/-- The record `issue` inserts. -/
theorem issue_spec {userId familyId : String} {client : ClientMeta} {d : Draw}
    {record : RefreshToken} (h : issue cfg s userId familyId client d = some (s', record)) :
    d.raw ∉ s.tokens ∧ d.id ∉ s.ids ∧ record.id = d.id ∧ record.userId = userId ∧
    record.tokenHash = cfg.fingerprint d.raw ∧ record.familyId = familyId ∧
    record.expiresAt = s.now + ttlMs cfg ∧ record.revokedAt = none ∧ record.replacedById = none ∧
    s' = { s with refreshTokens := s.refreshTokens ++ [record], tokens := d.raw :: s.tokens,
                  ids := d.id :: s.ids, families := familyId :: s.families } := by
  simp only [issue] at h
  split_ifs at h with hd
  push Not at hd
  cases h
  exact ⟨hd.1, hd.2, rfl, rfl, rfl, rfl, rfl, rfl, rfl, rfl⟩

theorem linkReplacement_spec {spentId replacementId : String}
    (h : linkReplacement s spentId replacementId = some s') :
    s' = { s with refreshTokens :=
      Table.updateMany (·.id = spentId) (link replacementId) s.refreshTokens } := by
  simp only [linkReplacement] at h
  split_ifs at h
  cases h
  rfl

theorem spendRow_spec {raw : String} {row : RefreshToken} (h : spendRow cfg s raw = some row) :
    row ∈ s.refreshTokens ∧ row.tokenHash = cfg.fingerprint raw ∧ row.revokedAt = none ∧
      s.now < row.expiresAt := by
  have hp := List.find?_some h
  simp only [spendable, Bool.and_eq_true, decide_eq_true_eq, Option.isNone_iff_eq_none] at hp
  exact ⟨List.mem_of_find?_eq_some h, hp.1.1, hp.1.2, hp.2⟩

theorem findByHash_spec {raw : String} {row : RefreshToken} (h : findByHash cfg s raw = some row) :
    row ∈ s.refreshTokens ∧ row.tokenHash = cfg.fingerprint raw := by
  have hp := List.find?_some h
  exact ⟨List.mem_of_find?_eq_some h, by simpa using hp⟩

end Finlytic.UserManagement
