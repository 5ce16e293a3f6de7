import Finlytic.UserManagement.Registration
import Finlytic.UserManagement.Revocation

/-! What holds of the accounts in every run: the users are exactly the
registrations that went through, one for each email, and nobody holds a session
without having given the password that the account was registered with. -/

namespace Finlytic.UserManagement

open Lib

variable {cfg : AccountConfig} {s s' : AccountStore} {c c' : AccountCall}
  {p q : Pool AccountStore AccountCall}

/-! ### What a registration leaves -/

/-- An email and a password that passed the checks of `RegisterDto`. -/
structure Admitted (cfg : AccountConfig) (email password : String) : Prop where
  transformed : ∃ value, transformEmail cfg value = email
  isEmail : cfg.isEmail email = true
  minLength : 12 ≤ cfg.length password
  maxLength : cfg.length password ≤ 128

/-- The row that a registration inserted, whatever became of `isActive`. -/
structure RowOf (cfg : AccountConfig) (u : User) (r : Registration) : Prop where
  id : u.id = r.userId
  email : u.email = r.email
  role : u.role = .USER
  verifies : ∀ presented, cfg.verifyPassword u.passwordHash presented = decide (r.password = presented)

theorem RowOf.switch {u : User} {r : Registration} (h : RowOf cfg u r) (active : Bool) :
    RowOf cfg (switch active u) r :=
  ⟨h.id, h.email, h.role, h.verifies⟩

theorem admitted_of_registerDto {body : Credentials} {email password : String}
    (h : registerDto cfg body = some (email, password)) :
    Admitted cfg email password := by
  obtain ⟨value, given, otherKeys⟩ := body
  cases value with
  | none => cases h
  | some value =>
    cases given with
    | none => cases h
    | some given =>
      obtain ⟨⟨-, hemail, hmin, hmax⟩, heq⟩ := Option.ite_none_right_eq_some.mp h
      cases heq
      exact ⟨⟨value, rfl⟩, hemail, hmin, hmax⟩

/-! ### Session calls -/

/-- The user whose session a call works for. -/
def Call.userId : Call → Option String
  | .loginStart user _ | .refreshIssue user _ _ | .refreshLink user _ _ _ => some user.id
  | .refreshUser spent _ => some spent.userId
  | .done (.session response) => some response.user.id
  | _ => none

theorem userId_start (r : Request) : (start r).userId = none := by
  cases r with
  | login email password client => rfl
  | refresh raw client =>
    by_cases hraw : raw = ""
    · rw [start, if_pos hraw]
      rfl
    · rw [start, if_neg hraw]
      rfl
  | logout raw =>
    by_cases hraw : raw = ""
    · rw [start, if_pos hraw]
      rfl
    · rw [start, if_neg hraw]
      rfl

theorem userId_of_token {o : Outcome} (h : o.token = none) : (Call.done o).userId = none := by
  cases o with
  | session response => cases h
  | _ => rfl

/-- A session statement works on for a user it knew, one that a row names, or one that it just
signed in. -/
theorem userId_transition {cfg : Config} {s s' : Store} {c c' : Call} {ids : List String}
    (hrows : ∀ row ∈ s.refreshTokens, row.userId ∈ ids) (hc : ∀ id ∈ c.userId, id ∈ ids)
    (ht : Transition cfg s c s' c') :
    (∀ row ∈ s'.refreshTokens, row.userId ∈ ids) ∧ ∀ id ∈ c'.userId, id ∈ ids ++ (signIn c c').map
      (·.userId) := by
  have updated : ∀ (sel) (set), Keeps set → ∀ r ∈ Table.updateMany sel set s.refreshTokens,
      r.userId ∈ ids := by
    intro sel set hk x hx
    obtain ⟨r, hr, -, -, -, hu, -⟩ := hk.exists_of_mem hx
    exact hu ▸ hrows r hr
  have issued : ∀ {userId familyId client d record}, userId ∈ ids →
      issue cfg s userId familyId client d = some (s', record) → ∀ r ∈ s'.refreshTokens, r.userId ∈
        ids := by
    intro userId familyId client d record hu hi r hr
    obtain ⟨-, -, -, hru, -, -, -, -, -, rfl⟩ := issue_spec hi
    rcases List.mem_append.mp hr with hr | hr
    · exact hrows r hr
    · rw [List.mem_singleton.mp hr, hru]; exact hu
  have nobody : ∀ {c' : Call}, c'.userId = none → ∀ id ∈ c'.userId, id ∈ ids ++ (signIn c c').map
      (·.userId) := by
    intro c' hnone id hid
    rw [hnone] at hid
    cases hid
  have known : ∀ {c' : Call} {userId : String}, c'.userId = some userId → userId ∈ ids →
      ∀ id ∈ c'.userId, id ∈ ids ++ (signIn c c').map (·.userId) := by
    intro c' userId hsome hin id hid
    rw [hsome] at hid
    cases hid
    exact List.mem_append_left _ hin
  cases ht with
  | stop c o ho => exact ⟨hrows, nobody (userId_of_token ho)⟩
  | loginStart user email password client hu =>
    refine ⟨hrows, fun id hid => ?_⟩
    cases hid
    exact List.mem_append_right _ List.mem_cons_self
  | startFamily user client d s' record hf hi =>
    have hin := hc user.id rfl
    exact ⟨issued hin hi, known rfl hin⟩
  | spend raw client row hr => exact ⟨updated _ _ (keeps_revoke s.now), nobody rfl⟩
  | notSpent raw client hr => exact ⟨hrows, nobody rfl⟩
  | reread raw client g spent hr => exact ⟨hrows, known rfl (hrows spent (findByHash_spec hr).1)⟩
  | reuse raw existing hr hrev => exact ⟨hrows, nobody rfl⟩
  | active user spent client hu hid => exact ⟨hrows, known rfl (hid ▸ hc spent.userId rfl)⟩
  | inactive spent client => exact ⟨hrows, nobody rfl⟩
  | issue user spent client d s' record hi =>
    have hin := hc user.id rfl
    exact ⟨issued hin hi, known rfl hin⟩
  | link user spentId raw issuedId s' hl =>
    rw [linkReplacement_spec hl]
    exact ⟨updated _ _ (keeps_link issuedId), known rfl (hc user.id rfl)⟩
  | logoutFind raw record hr => exact ⟨hrows, nobody rfl⟩
  | revokeReuse g o ho | revokeInactive g o ho | revokeLogout g o ho =>
    exact ⟨updated _ _ (keeps_revoke s.now), nobody (userId_of_token ho)⟩

/-- The outcome of the statement that looks a login up. -/
theorem loginFind_cases {cfg : Config} {s s' : Store} {c' : Call} {email password : String}
    {client : ClientMeta} {d : Draw}
    (h : statement cfg s (.loginFind email password client) (.ok d) = some (s', c')) : s' = s ∧
    ((∃ user, findByEmail s email = some user ∧ cfg.verifyPassword user.passwordHash password =
      true ∧ user.isActive = true ∧
        c' = .loginStart user client) ∨
      (¬ ∃ user, findByEmail s email = some user ∧ cfg.verifyPassword user.passwordHash password =
        true ∧ user.isActive = true) ∧
        c' = .done (.unauthorized "Invalid email or password")) := by
  cases hfind : findByEmail s email with
  | none =>
    simp only [statement, hfind] at h
    cases h
    refine ⟨rfl, .inr ⟨?_, rfl⟩⟩
    rintro ⟨user, heq, -⟩
    cases heq
  | some user =>
    simp only [statement, hfind, Option.map_some, Option.getD_some] at h
    by_cases hpass : cfg.verifyPassword user.passwordHash password && user.isActive
    · rw [if_pos hpass] at h
      cases h
      obtain ⟨hverify, hactive⟩ := Bool.and_eq_true_iff.mp hpass
      exact ⟨rfl, .inl ⟨user, rfl, hverify, hactive, rfl⟩⟩
    · rw [if_neg hpass] at h
      cases h
      refine ⟨rfl, .inr ⟨?_, rfl⟩⟩
      rintro ⟨found, heq, hverify, hactive⟩
      cases heq
      exact hpass (Bool.and_eq_true_iff.mpr ⟨hverify, hactive⟩)

/-- A login that passes did so for the row it found. -/
theorem signIn_attempt {cfg : Config} {s s' : Store} {c c' : Call} {a : Attempt}
    (h : attempt cfg s c a = some (s', c')) {l : Registration} (hl : l ∈ signIn c c') :
    ∃ user, findByEmail s l.email = some user ∧
      cfg.verifyPassword user.passwordHash l.password = true ∧ user.isActive = true ∧
        l.userId = user.id := by
  cases c with
  | loginFind email password client =>
    cases c' with
    | loginStart user client' =>
      obtain rfl := List.mem_singleton.mp hl
      cases a with
      | ok d =>
        have hstatement : statement cfg s (.loginFind email password client) (.ok d) =
            some (s', .loginStart user client') := h
        obtain ⟨-, ⟨found, hfind, hverify, hactive, heq⟩ | ⟨-, heq⟩⟩ := loginFind_cases hstatement
        · cases heq
          exact ⟨user, hfind, hverify, hactive, rfl⟩
        · cases heq
      | error applied =>
        cases applied with
        | none => cases h
        | some d =>
          obtain ⟨next, -, heq⟩ := Option.map_eq_some_iff.mp h
          cases heq
    | _ => cases hl
  | _ => cases hl

/-! ### Accounts -/

/-- Users are registrations, passed logins are of registered passwords, and every row of a session
belongs to a passed login. -/
structure AccountInv (cfg : AccountConfig) (s : AccountStore) : Prop where
  rows : List.Forall₂ (RowOf cfg) s.base.users s.registered
  emails : (s.registered.map (·.email)).Nodup
  userIds : (s.registered.map (·.userId)).Nodup
  admitted : ∀ r ∈ s.registered, Admitted cfg r.email r.password
  logins : ∀ l ∈ s.logins, l ∈ s.registered
  sessions : ∀ row ∈ s.base.refreshTokens, row.userId ∈ s.logins.map (·.userId)

/-- A call that has got this far. -/
def AccountKnows (cfg : AccountConfig) (s : AccountStore) : AccountCall → Prop
  | .registerHash email password => Admitted cfg email password
  | .registerCreate email password passwordHash => Admitted cfg email password ∧ ∃ salt,
    passwordHash = cfg.hash salt password
  | .answered (.registered user) | .answered (.profile user) =>
    ∃ r ∈ s.registered, r.userId = user.id ∧ r.email = user.email
  | .session c => ∀ id ∈ c.userId, id ∈ s.logins.map (·.userId)
  | _ => True

/-- Registrations and passed logins are never taken back. -/
theorem AccountKnows.mono (hregistered : ∀ r ∈ s.registered, r ∈ s'.registered)
    (hlogins : ∀ l ∈ s.logins, l ∈ s'.logins) (h : AccountKnows cfg s c) :
    AccountKnows cfg s' c := by
  cases c with
  | answered answer =>
    cases answer with
    | registered user | profile user =>
      obtain ⟨r, hr, heq⟩ := h
      exact ⟨r, hregistered r hr, heq⟩
    | _ => trivial
  | session c =>
    intro id hid
    obtain ⟨l, hl, heq⟩ := List.mem_map.mp (h id hid)
    exact List.mem_map.mpr ⟨l, hlogins l hl, heq⟩
  | _ => exact h

theorem accountKnows_start (s : AccountStore) (r : AccountRequest) :
    AccountKnows cfg s (startAccount cfg r) := by
  have session : ∀ r, AccountKnows cfg s (.session (start r)) := by
    intro r id hid
    rw [userId_start] at hid
    cases hid
  cases r with
  | register body =>
    cases hdto : registerDto cfg body with
    | none =>
      rw [startAccount, hdto]
      trivial
    | some given =>
      rw [startAccount, hdto]
      exact admitted_of_registerDto hdto
  | login body client =>
    cases hdto : loginDto cfg body with
    | none =>
      rw [startAccount, hdto]
      trivial
    | some given =>
      rw [startAccount, hdto]
      exact session _
  | refresh refreshToken client => exact session _
  | logout refreshToken => exact session _
  | me userId => trivial

theorem AccountInv.users_eq (h : AccountInv cfg s) :
    s.base.users.map (·.id) = s.registered.map (·.userId) :=
  Table.map_eq_of_forall₂ (fun _ _ hrow => hrow.id) h.rows

theorem AccountInv.emails_eq (h : AccountInv cfg s) :
    s.base.users.map (·.email) = s.registered.map (·.email) :=
  Table.map_eq_of_forall₂ (fun _ _ hrow => hrow.email) h.rows

theorem findByEmail_spec {s : Store} {email : String} {user : User}
    (h : findByEmail s email = some user) :
    user ∈ s.users ∧ user.email = email := by
  have hemail := List.find?_some h
  exact ⟨List.mem_of_find?_eq_some h, by simpa using hemail⟩

/-- The unique index on `email`. -/
theorem findByEmail_none_iff (h : AccountInv cfg s) {email : String} :
    findByEmail s.base email = none ↔ ∀ r ∈ s.registered, r.email ≠ email := by
  have hmem : (∀ u ∈ s.base.users, u.email ≠ email) ↔ email ∉ s.base.users.map (·.email) := by
    simp only [List.mem_map, not_exists, not_and, ne_eq]
  have hreg : (∀ r ∈ s.registered, r.email ≠ email) ↔ email ∉ s.registered.map (·.email) := by
    simp only [List.mem_map, not_exists, not_and, ne_eq]
  rw [hreg, ← h.emails_eq, ← hmem, findByEmail, List.find?_eq_none]
  simp

/-- The account was registered with this email and this password, and it is active. -/
def LetsIn (s : AccountStore) (email password : String) (user : User) : Prop :=
  ⟨email, password, user.id⟩ ∈ s.registered ∧ user ∈ s.base.users ∧ user.isActive = true

theorem login_passes_iff (h : AccountInv cfg s) {email password : String} {user : User} :
    (findByEmail s.base email = some user ∧ cfg.verifyPassword user.passwordHash password = true ∧
      user.isActive = true) ↔
    LetsIn s email password user := by
  constructor
  · rintro ⟨hfind, hverify, hactive⟩
    obtain ⟨huser, hemail⟩ := findByEmail_spec hfind
    obtain ⟨r, hr, hrow⟩ := Table.exists_of_mem_left h.rows huser
    rw [hrow.verifies, decide_eq_true_eq] at hverify
    have heq : r = ⟨email, password, user.id⟩ := by
      rw [← hemail, ← hverify, hrow.email, hrow.id]
    exact ⟨heq ▸ hr, huser, hactive⟩
  · rintro ⟨hr, huser, hactive⟩
    obtain ⟨r, hr', hrow⟩ := Table.exists_of_mem_left h.rows huser
    have heq := Table.eq_of_nodup_key h.userIds hr' hr hrow.id.symm
    cases heq
    refine ⟨?_, ?_, hactive⟩
    · cases hfind : findByEmail s.base email with
      | none => exact absurd rfl ((findByEmail_none_iff h).mp hfind _ hr)
      | some found =>
        obtain ⟨hfound, hemail⟩ := findByEmail_spec hfind
        have hnodup : (s.base.users.map (·.email)).Nodup := h.emails_eq ▸ h.emails
        rw [Table.eq_of_nodup_key hnodup hfound huser (hemail.trans hrow.email.symm)]
    · rw [hrow.verifies]
      exact decide_eq_true rfl

/-! ### Statements -/

/-- Either the email is taken, or the row goes in. -/
theorem create_cases (h : AccountInv cfg s) {email password passwordHash : String} {d : Draw}
    {answer : AccountAnswer}
    (hc : create s email password passwordHash d = some (s', answer)) :
    ((∃ r ∈ s.registered, r.email = email) ∧ s' = s ∧
      answer = .conflict "An account with this email already exists") ∨
    ((∀ r ∈ s.registered, r.email ≠ email) ∧ (∀ r ∈ s.registered, r.userId ≠ d.id) ∧
      s' = { s with base :=
        { s.base with users := s.base.users ++ [⟨d.id, email, passwordHash, .USER, true⟩] }
                    registered := s.registered ++ [⟨email, password, d.id⟩] } ∧
      answer = .registered ⟨d.id, email, .USER, true⟩) := by
  cases hfind : findByEmail s.base email with
  | some user =>
    rw [create, hfind] at hc
    cases hc
    refine .inl ⟨?_, rfl, rfl⟩
    by_contra hnone
    have hfree : ∀ r ∈ s.registered, r.email ≠ email := fun r hr heq => hnone ⟨r, hr, heq⟩
    rw [(findByEmail_none_iff h).mpr hfree] at hfind
    cases hfind
  | none =>
    simp only [create, hfind] at hc
    by_cases hid : d.id ∈ s.base.users.map (·.id)
    · rw [if_pos hid] at hc
      cases hc
    · rw [if_neg hid] at hc
      cases hc
      refine .inr ⟨(findByEmail_none_iff h).mp hfind, fun r hr heq => hid ?_, rfl, rfl⟩
      rw [h.users_eq]
      exact List.mem_map.mpr ⟨r, hr, heq⟩

theorem AccountInv.create (h : AccountInv cfg s) {email password passwordHash : String} {d : Draw}
    {answer : AccountAnswer} (hadmitted : Admitted cfg email password)
    (hhash : ∃ salt, passwordHash = cfg.hash salt password)
    (hc : create s email password passwordHash d = some (s', answer)) : AccountInv cfg s' := by
  obtain ⟨-, rfl, -⟩ | ⟨hemail, hid, rfl, -⟩ := create_cases h hc
  · exact h
  · obtain ⟨salt, rfl⟩ := hhash
    refine ⟨?_, ?_, ?_, ?_, ?_, h.sessions⟩
    · refine List.rel_append h.rows (.cons ⟨rfl, rfl, rfl, fun presented => ?_⟩ .nil)
      exact cfg.verify_hash salt password presented
    · exact Table.nodup_append_row _ h.emails hemail
    · exact Table.nodup_append_row _ h.userIds hid
    · intro r hr
      rcases List.mem_append.mp hr with hr | hr
      · exact h.admitted r hr
      · rw [List.mem_singleton.mp hr]
        exact hadmitted
    · exact fun l hl => List.mem_append_left _ (h.logins l hl)

/-- A session statement signs in only whom `login_passes_iff` lets in. -/
theorem AccountInv.session (h : AccountInv cfg s) {c c' : Call} {a : Attempt} {base : Store}
    (hknows : ∀ id ∈ c.userId, id ∈ s.logins.map (·.userId))
    (ha : attempt cfg.toConfig s.base c a = some (base, c')) :
    AccountInv cfg { s with base, logins := s.logins ++ signIn c c' } ∧
      ∀ id ∈ c'.userId, id ∈ (s.logins ++ signIn c c').map (·.userId) := by
  obtain ⟨c'', ht, hc'⟩ := attempt_transition ha
  obtain ⟨hrows, hworks⟩ := userId_transition h.sessions hknows ht
  constructor
  · refine ⟨?_, h.emails, h.userIds, h.admitted, fun l hl => ?_, fun row hrow => ?_⟩
    · rw [show base.users = s.base.users from users_transition ht]
      exact h.rows
    · rcases List.mem_append.mp hl with hl | hl
      · exact h.logins l hl
      · obtain ⟨user, hfind, hverify, hactive, hid⟩ := signIn_attempt ha hl
        have hin := ((login_passes_iff h).mp ⟨hfind, hverify, hactive⟩).1
        rwa [← hid] at hin
    · rw [List.map_append]
      exact List.mem_append_left _ (hrows row hrow)
  · rcases hc' with rfl | rfl
    · rwa [List.map_append]
    · intro id hid
      cases hid

theorem AccountInv.environment (h : AccountInv cfg s) {e : Event} {base : Store}
    (he : environment s.base e = some base) :
    AccountInv cfg { s with base } := by
  refine ⟨?_, h.emails, h.userIds, h.admitted, h.logins, ?_⟩
  · cases e with
    | tick ms => cases he; exact h.rows
    | setActive userId active =>
      cases he
      exact Table.forall₂_updateMany (fun _ _ hrow => hrow.switch active) h.rows
    | sweep => cases he; exact h.rows
  · intro row hrow
    cases e with
    | tick ms => cases he; exact h.sessions row hrow
    | setActive userId active => cases he; exact h.sessions row hrow
    | sweep => cases he; exact h.sessions row (Table.mem_deleteMany.mp hrow).1

/-- Everything a statement can do. -/
theorem accountStatement_cases {choice : AccountChoice}
    (h : accountStatement cfg s c choice = some (s', c')) :
    (∃ email password salt, c = .registerHash email password ∧ s' = s ∧
      c' = .registerCreate email password (cfg.hash salt password)) ∨
    (∃ email password passwordHash d answer, c = .registerCreate email password passwordHash ∧
      create s email password passwordHash d = some (s', answer) ∧
        (c' = .answered answer ∨ c' = .answered .failed)) ∨
    (∃ userId, c = .profileFind userId ∧ s' = s ∧ c' = .answered (getPublicProfile s userId)) ∨
    (∃ x x' base, c = .session x ∧ attempt cfg.toConfig s.base x choice.attempt = some (base, x') ∧
      s' = { s with base, logins := s.logins ++ signIn x x' } ∧ c' = .session x') ∨
    (s' = s ∧ c' = .answered .failed) := by
  obtain ⟨turn, salt⟩ := choice
  cases c with
  | answered answer => cases h
  | session x =>
    obtain ⟨⟨base, x'⟩, ha, heq⟩ := Option.map_eq_some_iff.mp h
    cases heq
    exact .inr (.inr (.inr (.inl ⟨x, x', base, rfl, ha, rfl, rfl⟩)))
  | registerHash email password =>
    cases turn with
    | ok d => cases h; exact .inl ⟨email, password, salt, rfl, rfl, rfl⟩
    | error applied => cases h; exact .inr (.inr (.inr (.inr ⟨rfl, rfl⟩)))
  | registerCreate email password passwordHash =>
    cases turn with
    | ok d =>
      obtain ⟨⟨made, answer⟩, hc, heq⟩ := Option.map_eq_some_iff.mp h
      cases heq
      exact .inr (.inl ⟨email, password, passwordHash, d, answer, rfl, hc, .inl rfl⟩)
    | error applied =>
      cases applied with
      | none => cases h; exact .inr (.inr (.inr (.inr ⟨rfl, rfl⟩)))
      | some d =>
        obtain ⟨⟨made, answer⟩, hc, heq⟩ := Option.map_eq_some_iff.mp h
        cases heq
        exact .inr (.inl ⟨email, password, passwordHash, d, answer, rfl, hc, .inr rfl⟩)
  | profileFind userId =>
    cases turn with
    | ok d => cases h; exact .inr (.inr (.inl ⟨userId, rfl, rfl, rfl⟩))
    | error applied => cases h; exact .inr (.inr (.inr (.inr ⟨rfl, rfl⟩)))

/-- A profile that is shown is of a registered account. -/
theorem accountKnows_profile (h : AccountInv cfg s) (userId : String) :
    AccountKnows cfg s (.answered (getPublicProfile s userId)) := by
  cases hfind : findById s.base userId with
  | none =>
    rw [getPublicProfile, hfind]
    trivial
  | some user =>
    simp only [getPublicProfile, hfind]
    cases user.isActive with
    | false => trivial
    | true =>
      obtain ⟨r, hr, hrow⟩ := Table.exists_of_mem_left h.rows (findById_spec hfind).1
      exact ⟨r, hr, hrow.id.symm, hrow.email.symm⟩

/-- One statement keeps the invariant and what every call knows. -/
theorem account_statement {choice : AccountChoice} (h : AccountInv cfg s)
    (hknows : AccountKnows cfg s c) (hs : accountStatement cfg s c choice = some (s', c')) :
    AccountInv cfg s' ∧ AccountKnows cfg s' c' ∧ ∀ x, AccountKnows cfg s x →
      AccountKnows cfg s' x := by
  obtain ⟨email, password, salt, rfl, rfl, rfl⟩ | ⟨email, password, passwordHash, d, answer,
    rfl, hc, hc'⟩ |
    ⟨userId, rfl, rfl, rfl⟩ | ⟨x, x', base, rfl, ha, rfl, rfl⟩ | ⟨rfl, rfl⟩ :=
      accountStatement_cases hs
  · exact ⟨h, ⟨hknows, salt, rfl⟩, fun _ hx => hx⟩
  · have hinv := h.create hknows.1 hknows.2 hc
    obtain ⟨-, rfl, rfl⟩ | ⟨-, -, rfl, rfl⟩ := create_cases h hc
    · refine ⟨h, ?_, fun _ hx => hx⟩
      rcases hc' with rfl | rfl <;> trivial
    · refine ⟨hinv, ?_, fun _ hx => hx.mono (fun r hr => List.mem_append_left _ hr) fun _ hl => hl⟩
      rcases hc' with rfl | rfl
      · exact ⟨_, List.mem_append_right _ List.mem_cons_self, rfl, rfl⟩
      · trivial
  · exact ⟨h, accountKnows_profile h userId, fun _ hx => hx⟩
  · obtain ⟨hinv, hknows'⟩ := h.session hknows ha
    exact ⟨hinv, hknows', fun _ hx =>
      AccountKnows.mono (s := s) (fun _ hr => hr) (fun l hl => List.mem_append_left _ hl) hx⟩
  · exact ⟨h, trivial, fun _ hx => hx⟩

/-! ### Runs -/

/-- The email that a call answered to have registered. -/
def AccountCall.account : AccountCall → Option String
  | .answered (.registered user) => some user.email
  | _ => none

theorem account_start (r : AccountRequest) : (startAccount cfg r).account = none := by
  cases r with
  | register body => cases hdto : registerDto cfg body <;> rw [startAccount, hdto] <;> rfl
  | login body client => cases hdto : loginDto cfg body <;> rw [startAccount, hdto] <;> rfl
  | _ => rfl

/-- An email that gets registered is one that no call has registered yet. -/
theorem account_statement_fresh {choice : AccountChoice} {calls : List AccountCall}
    (h : AccountInv cfg s) (hcalls : ∀ x ∈ calls, AccountKnows cfg s x)
    (hs : accountStatement cfg s c choice = some (s', c')) {email : String}
    (hk : c'.account = some email) : ∀ x ∈ calls, x.account ≠ some email := by
  obtain ⟨_, _, _, _, _, rfl⟩ | ⟨email', password, passwordHash, d, answer, rfl, hc, hc'⟩ |
    ⟨userId, _, _, rfl⟩ | ⟨_, _, _, _, _, _, rfl⟩ | ⟨_, rfl⟩ := accountStatement_cases hs
  · cases hk
  · obtain ⟨-, -, rfl⟩ | ⟨hfree, -, -, rfl⟩ := create_cases h hc
    · rcases hc' with rfl | rfl <;> cases hk
    · rcases hc' with rfl | rfl
      · cases hk
        intro x hx hxk
        cases x with
        | answered answer =>
          cases answer with
          | registered user =>
            obtain ⟨r, hr, -, hemail⟩ := hcalls _ hx
            exact hfree r hr (hemail.trans (Option.some.inj hxk))
          | _ => cases hxk
        | _ => cases hxk
      · cases hk
  · exfalso
    simp only [getPublicProfile] at hk
    split at hk
    · split_ifs at hk <;> cases hk
    · cases hk
  · cases hk
  · cases hk

/-- What every reachable state of the accounts has. -/
structure AccountsHold (cfg : AccountConfig) (p : Pool AccountStore AccountCall) : Prop where
  holds : p.Holds (AccountInv cfg) (AccountKnows cfg)
  once : HeldOnce AccountCall.account p.calls

theorem AccountsHold.step {a : Action AccountRequest AccountChoice Event} (h : AccountsHold cfg p)
    (hs : (accounts cfg).step p a = some q) : AccountsHold cfg q := by
  constructor
  · refine Program.step_stable (fun s r _ => accountKnows_start s r) ?_ ?_ h.holds hs
    · exact fun s c choice s' c' hinv hknows hstatement => account_statement hinv hknows hstatement
    · intro s e s' hinv he
      obtain ⟨base, hbase, rfl⟩ := Option.map_eq_some_iff.mp he
      exact ⟨hinv.environment hbase, fun _ hx => hx.mono (fun _ hr => hr) fun _ hl => hl⟩
  · have hok : Program.Allows (fun _ _ => True) p a := by
      cases a with
      | run i d => exact fun _ _ => trivial
      | _ => trivial
    refine Program.step_heldOnce account_start ?_ h.once hok hs
    intro c _ choice s' c' _ hstatement email hk
    exact .inr (account_statement_fresh h.holds.1 h.holds.2 hstatement hk)

theorem accountsHold_of_noAccounts (h : NoAccounts p) : AccountsHold cfg p := by
  obtain ⟨hcalls, husers, htokens, hregistered, hlogins⟩ := h
  refine ⟨⟨⟨?_, ?_, ?_, ?_, ?_, ?_⟩, ?_⟩, ?_⟩
  · rw [husers, hregistered]
    exact .nil
  · simp [hregistered]
  · simp [hregistered]
  · simp [hregistered]
  · simp [hlogins]
  · simp [htokens]
  · simp [hcalls]
  · rw [hcalls]
    exact HeldOnce.nil

/-- In every run: one account for each email that anyone registered, one call that
made it, and every later `create` of that email a conflict; a session for no one
whose password is not the registered one; and a login that goes on exactly for
the registered password of an active account, and changes nothing otherwise. -/
theorem registered_accounts {p₀ : Pool AccountStore AccountCall}
    {as : List (Action AccountRequest AccountChoice Event)} (hp₀ : NoAccounts p₀)
    (h : exec (accounts cfg).step p₀ as = some p) :
    AccountInv cfg p.store ∧ HeldOnce AccountCall.account p.calls ∧
    (∀ user, .answered (.registered user) ∈ p.calls → ∃ r ∈ p.store.registered, r.userId = user.id ∧
      r.email = user.email) ∧
    (∀ response, .session (.done (.session response)) ∈ p.calls → ∃ l ∈ p.store.logins, l.userId =
      response.user.id) ∧
    (∀ i email password passwordHash d salt q, p.calls[i]? =
      some (.registerCreate email password passwordHash) →
      (accounts cfg).step p (.run i ⟨.ok d, salt⟩) = some q →
      ((∃ r ∈ p.store.registered, r.email = email) ∧ q.store = p.store ∧
        q.calls[i]? = some (.answered (.conflict "An account with this email already exists"))) ∨
      ((∀ r ∈ p.store.registered, r.email ≠ email) ∧
        q.store.registered = p.store.registered ++ [⟨email, password, d.id⟩] ∧
        q.calls[i]? = some (.answered (.registered ⟨d.id, email, .USER, true⟩)))) ∧
    ∀ i email password client d salt q, p.calls[i]? =
      some (.session (.loginFind email password client)) →
      (accounts cfg).step p (.run i ⟨.ok d, salt⟩) = some q →
      (∃ user, LetsIn p.store email password user ∧ q.calls[i]? =
        some (.session (.loginStart user client)) ∧
        q.store.logins = p.store.logins ++ [⟨email, password, user.id⟩]) ∨
      ((∀ user, ¬ LetsIn p.store email password user) ∧ q.store = p.store ∧
        q.calls[i]? = some (.session (.done (.unauthorized "Invalid email or password")))) := by
  have hold : AccountsHold cfg p :=
    exec_invariant (fun _ _ _ => AccountsHold.step) (accountsHold_of_noAccounts hp₀) h
  refine ⟨hold.holds.1, hold.once, fun user hu => hold.holds.2 _ hu, fun response hr => ?_, ?_, ?_⟩
  · exact List.mem_map.mp (hold.holds.2 _ hr response.user.id rfl)
  · intro i email password passwordHash d salt q hi hs
    obtain ⟨c, s', c', hc, hstatement, rfl⟩ := Program.step_run.mp hs
    obtain rfl := Option.some.inj (hi.symm.trans hc)
    obtain ⟨⟨made, answer⟩, hcreate, heq⟩ := Option.map_eq_some_iff.mp hstatement
    cases heq
    rcases create_cases hold.holds.1 hcreate with ⟨htaken, rfl, rfl⟩ | ⟨hfree, -, rfl, rfl⟩
    · exact .inl ⟨htaken, rfl, getElem?_set_same _ hi⟩
    · exact .inr ⟨hfree, rfl, getElem?_set_same _ hi⟩
  · intro i email password client d salt q hi hs
    obtain ⟨c, s', c', hc, hstatement, rfl⟩ := Program.step_run.mp hs
    obtain rfl := Option.some.inj (hi.symm.trans hc)
    obtain ⟨⟨base, x⟩, hattempt, heq⟩ := Option.map_eq_some_iff.mp hstatement
    cases heq
    have hfind : statement cfg.toConfig p.store.base (.loginFind email password client) (.ok d) =
        some (base, x) := hattempt
    obtain ⟨rfl, ⟨user, hpass⟩ | ⟨hnobody, rfl⟩⟩ := loginFind_cases hfind
    · obtain ⟨hfound, hverify, hactive, rfl⟩ := hpass
      have hin := (login_passes_iff hold.holds.1).mp ⟨hfound, hverify, hactive⟩
      exact .inl ⟨user, hin, getElem?_set_same _ hi, rfl⟩
    · refine .inr
        ⟨fun user hin => hnobody ⟨user, (login_passes_iff hold.holds.1).mpr hin⟩, ?_,
        getElem?_set_same _ hi⟩
      show { p.store with logins := p.store.logins ++ [] } = p.store
      rw [List.append_nil]

/-! ### A small deployment -/

def plainAccounts : AccountConfig where
  toConfig := plainConfig
  hash _ password := password
  verify_hash _ _ _ := rfl
  toLowerCase := id
  isEmail email := '@' ∈ email.toList
  length := String.length

def given : Credentials := ⟨some " a@b.com", some "a long password", false⟩

def drawn (id : String) : AccountChoice := ⟨.ok ⟨"f", "t", id⟩, "salt"⟩

def nobodyYet : Pool AccountStore AccountCall := ⟨⟨⟨0, [], [], [], [], [], []⟩, [], []⟩, []⟩

/-- One body is registered twice, and both get as far as the insert; then it logs in. -/
def registerTwice : List (Action AccountRequest AccountChoice Event) :=
  [.call (.register given), .call (.register given), .run 0 (drawn ""), .run 1 (drawn ""),
    .run 0 (drawn "alice"),
    .run 1 (drawn "bob"), .call (.login given browser), .run 2 (drawn ""), .run 2 (drawn "row")]

theorem registered_accounts_registerTwice :
    ∃ p, exec (accounts plainAccounts).step nobodyYet registerTwice = some p ∧
    p.store.base.users.map (·.id) = ["alice"] ∧ HeldOnce AccountCall.account p.calls := by
  refine ⟨_, rfl, by decide, ?_⟩
  exact (@registered_accounts plainAccounts _ nobodyYet registerTwice
    ⟨rfl, rfl, rfl, rfl, rfl⟩ rfl).2.1

end Finlytic.UserManagement
