import Finlytic.EmailIngestion.Accounts

/-! When a mailbox is `REAUTH_REQUIRED`. `markReauthRequired` writes the status
by id alone, whatever the row holds by then. If every such write finds the grant
its call had read, `REAUTH_REQUIRED` means that the stored grant is dead. A
reconnect in between leaves a working grant behind a dead status. -/

namespace Finlytic.EmailIngestion

open Lib

variable {cfg : AccountsConfig} {s s' : AccountStore} {c c' : AccountCall} {account : MailAccount}

/-! ### Dead grants -/

/-- The refresh token a row holds, as `getConnection` would read it. -/
def storedRefreshToken (cfg : AccountsConfig) (a : MailAccount) : Option String :=
  (truthy a.refreshTokenEnc).bind fun envelope => (cfg.decrypt envelope .refresh).toOption

theorem storedRefreshToken_eq_some {a : MailAccount} {envelope t : String}
    (he : truthy a.refreshTokenEnc = some envelope) :
    storedRefreshToken cfg a = some t ↔ cfg.decrypt envelope .refresh = .ok t := by
  rw [storedRefreshToken, he, Option.bind_some]
  cases cfg.decrypt envelope .refresh <;> simp [Except.toOption]

/-- The row holds no refresh token, or one the provider has answered with a revoked-grant error. -/
def GrantDead (cfg : AccountsConfig) (s : AccountStore) (a : MailAccount) : Prop :=
  truthy a.refreshTokenEnc = none ∨
    ∃ envelope t, truthy a.refreshTokenEnc = some envelope ∧ cfg.decrypt envelope .refresh = .ok t ∧
      t ∈ s.revoked

/-- `REAUTH_REQUIRED` means that the stored grant is dead. -/
def ReauthMeansDead (cfg : AccountsConfig) (s : AccountStore) : Prop :=
  ∀ a ∈ s.accounts, a.status = .REAUTH_REQUIRED → GrantDead cfg s a

/-- The row a call is about to mark, as the call read it. -/
def marking : AccountCall → Option MailAccount
  | .markReauthRequired _ account _ => some account
  | _ => none

/-- The row about to be marked still holds the grant that the call decided on. -/
def GrantUnchanged (cfg : AccountsConfig) (s : AccountStore) (c : AccountCall) : Prop :=
  ∀ account ∈ marking c, ∀ a ∈ s.accounts, a.id = account.id → storedRefreshToken cfg a =
    storedRefreshToken cfg account

instance (s : AccountStore) (c : AccountCall) : Decidable (GrantUnchanged cfg s c) :=
  inferInstanceAs (Decidable (∀ account ∈ marking c, _))

/-- An envelope in the row was made by this service. -/
def Readable (cfg : AccountsConfig) (a : MailAccount) : Prop :=
  ∀ envelope, truthy a.refreshTokenEnc = some envelope → ∃ t, cfg.decrypt envelope .refresh = .ok t

theorem GrantDead.congr {a b : MailAccount} (h : GrantDead cfg s b) (ha : Readable cfg a)
    (he : storedRefreshToken cfg a = storedRefreshToken cfg b) : GrantDead cfg s a := by
  cases hta : truthy a.refreshTokenEnc with
  | none => exact .inl hta
  | some envelope =>
    obtain ⟨t, ht⟩ := ha envelope hta
    have hst : storedRefreshToken cfg a = some t := (storedRefreshToken_eq_some hta).mpr ht
    rcases h with hnone | ⟨envelope', t', hb, ht', hrev⟩
    · rw [he, storedRefreshToken, hnone] at hst
      cases hst
    · rw [he, (storedRefreshToken_eq_some hb).mpr ht'] at hst
      obtain rfl := Option.some.inj hst
      exact .inr ⟨envelope, t', hta, ht, hrev⟩

theorem GrantDead.mono {a : MailAccount} (h : GrantDead cfg s a)
    (hr : ∀ t ∈ s.revoked, t ∈ s'.revoked) :
    GrantDead cfg s' a := by
  rcases h with hnone | ⟨envelope, t, he, ht, hrev⟩
  · exact .inl hnone
  · exact .inr ⟨envelope, t, he, ht, hr t hrev⟩

/-- A new token is stored in an envelope that opens; without one the old envelope stays. -/
theorem readable_or {a : MailAccount} {refreshToken enc : Option String} {nonce : String}
    (h : ∀ envelope, truthy enc = some envelope → ∃ t, cfg.decrypt envelope .refresh = .ok t)
    (ha : a.refreshTokenEnc = ((truthy refreshToken).map (cfg.encrypt nonce .refresh)).or enc) :
    Readable cfg a := by
  intro envelope he
  rw [ha] at he
  cases ht : truthy refreshToken with
  | none =>
    rw [ht] at he
    exact h envelope he
  | some t =>
    have hne : t ≠ "" := by
      rintro rfl
      unfold truthy at ht
      split at ht <;> simp_all
    have hen := cfg.encrypt_ne nonce .refresh t
    rw [ht] at he
    have henv : envelope = cfg.encrypt nonce .refresh t := by
      simp only [Option.map_some, Option.some_or] at he
      unfold truthy at he
      split at he
      · cases he
      · exact (Option.some.inj he).symm
    exact ⟨t, henv ▸ cfg.decrypt_encrypt nonce .refresh t hne⟩

/-! ### What every step keeps -/

/-- Rows open, and a marked row is dead. -/
def AccountsInv (cfg : AccountsConfig) (s : AccountStore) : Prop :=
  (∀ a ∈ s.accounts, Readable cfg a) ∧ ReauthMeansDead cfg s

/-- A call that is about to mark has seen a dead grant. -/
def CallKnows (cfg : AccountsConfig) (s : AccountStore) : AccountCall → Prop
  | .refresh _ account refreshToken => Readable cfg account ∧ storedRefreshToken cfg account =
    some refreshToken
  | .markReauthRequired _ account _ => GrantDead cfg s account
  | _ => True

theorem CallKnows.mono (h : CallKnows cfg s c) (hr : ∀ t ∈ s.revoked, t ∈ s'.revoked) :
    CallKnows cfg s' c := by
  cases c with
  | markReauthRequired origin account reason => exact GrantDead.mono h hr
  | _ => exact h

theorem callKnows_throwTo (origin : Origin) (account : MailAccount) (reason : String) :
    CallKnows cfg s (throwTo origin account reason) := by
  cases origin <;> trivial

theorem callKnows_withConnection (origin : Origin) (account : MailAccount) (accessToken : String) :
    CallKnows cfg s (withConnection origin account accessToken) := by
  cases origin <;> trivial

theorem callKnows_getConnection (origin : Origin) (h : Readable cfg account) (now : ℕ) :
    CallKnows cfg s (getConnection cfg now origin account) := by
  unfold getConnection
  split_ifs
  · split
    · exact callKnows_withConnection origin account _
    · exact callKnows_throwTo origin account _
  · split
    · rename_i hnone
      exact .inl hnone
    · rename_i envelope he
      split
      · rename_i t ht
        exact ⟨h, (storedRefreshToken_eq_some he).mpr ht⟩
      · exact callKnows_throwTo origin account _

theorem callKnows_start (s : AccountStore) (r : AccountRequest) :
    CallKnows cfg s (startAccount cfg r) := by
  cases r with
  | connect userId provider result =>
    simp only [startAccount]
    split_ifs <;> trivial
  | preview userId accountId => trivial
  | syncAccount accountId => trivial

/-- An update keeps the invariant when the rows it writes do. -/
theorem AccountsInv.updateMany (h : AccountsInv cfg s) {sel : MailAccount → Bool}
    {set : MailAccount → MailAccount}
    (hset : ∀ a ∈ s.accounts, sel a = true → Readable cfg (set a) ∧
      ((set a).status = .REAUTH_REQUIRED → GrantDead cfg s (set a))) :
    AccountsInv cfg { s with accounts := Table.updateMany sel set s.accounts } := by
  refine ⟨fun x hx => ?_, fun x hx hst => ?_⟩ <;> obtain ⟨a, ha, ⟨hsel, rfl⟩ | ⟨-, rfl⟩⟩ :=
    Table.mem_updateMany.mp hx
  · exact (hset a ha hsel).1
  · exact h.1 x ha
  · exact (hset a ha hsel).2 hst
  · exact h.2 x ha hst

/-- A statement that updates one row by id: what it writes, and where the call goes. -/
theorem updateThen_inv {id : String} {set : MailAccount → MailAccount} {next thrown : AccountCall}
    (hu : updateThen s id set next thrown = some (s', c')) (h : AccountsInv cfg s)
    (hset : ∀ a ∈ s.accounts, a.id = id → Readable cfg (set a) ∧
      ((set a).status = .REAUTH_REQUIRED → GrantDead cfg s (set a)))
    (hnext : CallKnows cfg s next) (hthrown : CallKnows cfg s thrown) :
    AccountsInv cfg s' ∧ CallKnows cfg s' c' ∧ ∀ t ∈ s.revoked, t ∈ s'.revoked := by
  unfold updateThen updateAccount at hu
  split at hu
  · rename_i t ht
    split_ifs at ht
    cases ht
    cases hu
    exact ⟨h.updateMany fun a ha hid => hset a ha (by simpa using hid), hnext.mono fun _ ht =>
      ht, fun _ ht => ht⟩
  · cases hu
    exact ⟨h, hthrown, fun _ ht => ht⟩

/-- Fields that `getConnection` does not decide on. -/
theorem inv_of_same (h : AccountsInv cfg s) {set : MailAccount → MailAccount}
    (henc : ∀ a, (set a).refreshTokenEnc = a.refreshTokenEnc)
    (hstatus : ∀ a, (set a).status = a.status) (id : String) :
    ∀ a ∈ s.accounts, a.id = id →
      Readable cfg (set a) ∧ ((set a).status = .REAUTH_REQUIRED → GrantDead cfg s (set a)) := by
  intro a ha _
  unfold Readable GrantDead
  rw [henc, hstatus]
  exact ⟨h.1 a ha, h.2 a ha⟩

theorem upsert_inv {userId : String} {provider : MailProvider} {result : ConnectResult}
    {d : AccountDraw} (h : AccountsInv cfg s)
    (hu : upsert cfg s userId provider result d = some (s', c')) :
    AccountsInv cfg s' ∧ CallKnows cfg s' c' ∧ ∀ t ∈ s.revoked, t ∈ s'.revoked := by
  simp only [upsert] at hu
  split at hu
  · cases hu
    refine ⟨h.updateMany fun a ha _ => ⟨readable_or (h.1 a ha) rfl, fun hst => ?_⟩, trivial,
      fun _ ht => ht⟩
    cases hst
  · split_ifs at hu
    cases hu
    refine ⟨⟨fun a ha => ?_, fun a ha hst => ?_⟩, trivial, fun _ ht => ht⟩
    · rcases List.mem_append.mp ha with ha | ha
      · exact h.1 a ha
      · rw [List.mem_singleton.mp ha]
        exact @readable_or cfg _ _ none _ (by simp [truthy]) (by rw [Option.or_none])
    · rcases List.mem_append.mp ha with ha | ha
      · exact (h.2 a ha hst).mono fun _ ht => ht
      · rw [List.mem_singleton.mp ha] at hst
        cases hst

theorem accountStatement_inv {d : Answer} (h : AccountsInv cfg s) (hc : CallKnows cfg s c)
    (hok : GrantUnchanged cfg s c) (hst : accountStatement cfg s c d = some (s', c')) :
    AccountsInv cfg s' ∧ CallKnows cfg s' c' ∧ ∀ t ∈ s.revoked, t ∈ s'.revoked := by
  have stays : ∀ {next : AccountCall}, CallKnows cfg s next →
      AccountsInv cfg s ∧ CallKnows cfg s next ∧ ∀ t ∈ s.revoked, t ∈ s.revoked :=
    fun hn => ⟨h, hn, fun _ ht => ht⟩
  unfold accountStatement at hst
  split at hst
  · exact upsert_inv h hst
  · cases hst; exact stays trivial
  · split at hst
    · rename_i a ha
      cases hst
      exact stays (callKnows_getConnection .preview (h.1 a (List.mem_of_find?_eq_some ha)) s.now)
    · cases hst; exact stays trivial
  · cases hst; exact stays trivial
  · split at hst
    · rename_i a ha
      split_ifs at hst
      · cases hst; exact stays trivial
      · cases hst
        exact stays (callKnows_getConnection .sync (h.1 a (List.mem_of_find?_eq_some ha)) s.now)
    · cases hst; exact stays trivial
  · cases hst; exact stays trivial
  · cases hst; exact stays trivial
  · rename_i origin account refreshToken message
    cases hst
    obtain ⟨hread, hstored⟩ := hc
    have hgrow : ∀ t ∈ s.revoked, t ∈ refreshToken :: s.revoked :=
      fun _ ht => List.mem_cons_of_mem _ ht
    refine ⟨⟨h.1, fun a ha hs => (h.2 a ha hs).mono hgrow⟩, ?_, hgrow⟩
    obtain ⟨envelope, he, -⟩ := Option.bind_eq_some_iff.mp hstored
    exact .inr ⟨envelope, refreshToken, he, (storedRefreshToken_eq_some he).mp hstored,
      List.mem_cons_self⟩
  · cases hst; exact stays (callKnows_throwTo _ _ _)
  · refine updateThen_inv hst h (fun a ha _ => ⟨readable_or (h.1 a ha) rfl, fun hs => ?_⟩)
      (callKnows_withConnection _ _ _) (callKnows_throwTo _ _ _)
    cases hs
  · cases hst; exact stays (callKnows_throwTo _ _ _)
  · rename_i origin account reason _
    -- the one place where a row becomes `REAUTH_REQUIRED`
    refine updateThen_inv hst h (fun a ha hid => ⟨h.1 a ha, fun _ => ?_⟩) (callKnows_throwTo _ _ _)
      (callKnows_throwTo _ _ _)
    exact GrantDead.congr (a := a) hc (h.1 a ha) (hok account rfl a ha hid)
  · cases hst; exact stays (callKnows_throwTo _ _ _)
  · exact updateThen_inv hst h (inv_of_same h (fun _ => rfl) (fun _ => rfl) _) trivial trivial
  · cases hst; exact stays trivial
  · cases hst; exact stays trivial
  · exact updateThen_inv hst h (inv_of_same h (fun _ => rfl) (fun _ => rfl) _) trivial trivial
  · cases hst; exact stays trivial
  · exact updateThen_inv hst h (inv_of_same h (fun _ => rfl) (fun _ => rfl) _) trivial trivial
  · cases hst; exact stays trivial
  · cases hst

/-! ### Runs -/

theorem accounts_step {p q : Pool AccountStore AccountCall} {a : Action AccountRequest Answer ℕ}
    (h : p.Holds (AccountsInv cfg) (CallKnows cfg)) (ha : Program.Allows (GrantUnchanged cfg) p a)
    (hs : (accounts cfg).step p a = some q) : q.Holds (AccountsInv cfg) (CallKnows cfg) := by
  refine Program.step_stable_of (fun s r _ => callKnows_start s r) ?_ ?_ h ha hs
  · intro s c d s' c' hI hJ hok hst
    obtain ⟨hI', hJ', hr⟩ := accountStatement_inv hI hJ hok hst
    exact ⟨hI', hJ', fun c₂ h₂ => h₂.mono hr⟩
  · intro s ms s' hI he
    cases he
    exact ⟨⟨hI.1, fun a ha hst => (hI.2 a ha hst).mono fun _ ht => ht⟩, fun c₂ h₂ =>
      h₂.mono fun _ ht => ht⟩

/-- In every run in which a mark finds the grant its call has read, an account
that is `REAUTH_REQUIRED` holds no grant or a dead one. -/
theorem reauth_means_dead (cfg : AccountsConfig) {p q : Pool AccountStore AccountCall}
    {as : List (Action AccountRequest Answer ℕ)} (hp : NoAccounts p)
    (hm : Meets (accounts cfg).step (Program.Allows (GrantUnchanged cfg)) p as)
    (hr : exec (accounts cfg).step p as = some q) : ReauthMeansDead cfg q.store := by
  have hinit : p.Holds (AccountsInv cfg) (CallKnows cfg) := by
    obtain ⟨hc, ha⟩ := hp
    refine ⟨⟨?_, ?_⟩, ?_⟩ <;> simp [hc, ha, ReauthMeansDead]
  exact (exec_invariant_of_meets (fun _ _ _ h ha hs => accounts_step h ha hs) hinit hm hr).1.2

/-! ### A mailbox that is reconnected while its old grant is being refused -/

def CipherPurpose.tag : CipherPurpose → Char
  | .access => 'a'
  | .refresh => 'r'
  | .probe => 'p'

/-- Envelopes that carry their purpose in front. -/
def taggedConfig : AccountsConfig where
  encrypt _ purpose text := String.ofList (purpose.tag :: text.toList)
  decrypt envelope purpose :=
    match envelope.toList with
    | [] => .error "Malformed ciphertext envelope"
    | t :: text =>
      if t = purpose.tag then .ok (String.ofList text)
      else .error "Unsupported state or unable to authenticate data"
  encrypt_ne nonce purpose text h := by
    have := congrArg String.toList h
    simp at this
  decrypt_encrypt nonce purpose text _ := by simp
  requiredScopes _ := ["mail.read"]

def noAccounts : Pool AccountStore AccountCall := ⟨⟨1000, [], [], []⟩, []⟩

def consent (accessToken refreshToken : String) : AccountRequest :=
  .connect "alice" .GMAIL
    ⟨⟨accessToken, some refreshToken, 0, ["mail.read"]⟩, "inbox", "a@b.com", none⟩

/-- A mailbox is connected, and the provider refuses its grant to a sync. -/
def refusedSync : List (Action AccountRequest Answer ℕ) :=
  [.call (consent "a1" "r1"), .run 0 (.ok ⟨"m", "n1", "n2"⟩), .call (.syncAccount "m"),
    .run 1 (.ok ⟨"", "", ""⟩),
    .run 1 (.revoked "Google rejected the refresh token: invalid_grant")]

theorem reauth_means_dead_refusedSync : ∃ q,
    exec (accounts taggedConfig).step noAccounts (refusedSync ++ [.run 1 (.ok ⟨"", "", ""⟩)]) =
      some q ∧
    q.store.accounts.map (·.status) = [.REAUTH_REQUIRED] ∧
      ReauthMeansDead taggedConfig q.store := by
  have hm : Meets (accounts taggedConfig).step (Program.Allows (GrantUnchanged taggedConfig))
    noAccounts
      (refusedSync ++ [.run 1 (.ok ⟨"", "", ""⟩)]) := by decide
  exact ⟨_, rfl, rfl, reauth_means_dead taggedConfig ⟨rfl, rfl⟩ hm rfl⟩

/-- Before the sync marks the row, the user reconnects with a new grant. -/
def reconnected : List (Action AccountRequest Answer ℕ) :=
  refusedSync ++ [.call (consent "a2" "r2"), .run 2 (.ok ⟨"", "n3", "n4"⟩), .run 1 (.ok ⟨"", "", ""⟩)]

/-- The mark lands on the new grant, which the provider has never refused. -/
theorem reauth_on_live_grant :
    ¬ ∀ p q as, NoAccounts p → exec (accounts taggedConfig).step p as = some q →
    ReauthMeansDead taggedConfig q.store := by
  intro h
  have hdead := h noAccounts _ reconnected ⟨rfl, rfl⟩ rfl _ (List.mem_singleton.mpr rfl) rfl
  rcases hdead with hnone | ⟨envelope, t, he, ht, hrev⟩
  · cases hnone
  · have ht' : taggedConfig.decrypt "rr2" .refresh = .ok t := by
      cases he
      exact ht
    obtain rfl : t = "r2" := (Except.ok.inj ht').symm
    have hnot : "r2" ∉ ["r1"] := by decide
    exact hnot hrev

end Finlytic.EmailIngestion
