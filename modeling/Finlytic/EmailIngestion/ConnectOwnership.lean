import Finlytic.EmailIngestion.ConnectFlow

/-! Whose mailboxes get connected. A callback goes on only with a state that was
issued to the user it connects for, at most one callback does so for each state,
and every account row was left by such a callback. -/

namespace Finlytic.EmailIngestion

open Lib

/-! ### Account rows -/

/-- The user that a call is about to write a row for. -/
def AccountCall.upserting : AccountCall → Option String
  | .connectUpsert userId _ _ => some userId
  | _ => none

section Rows

variable {cfg : AccountsConfig} {s s' : AccountStore} {c c' : AccountCall} {d : Answer}
  {account : MailAccount}

@[simp] theorem upserting_throwTo (origin : Origin) (account : MailAccount) (reason : String) :
    (throwTo origin account reason).upserting = none := by
  cases origin <;> rfl

@[simp] theorem upserting_withConnection (origin : Origin) (account : MailAccount)
    (accessToken : String) :
    (withConnection origin account accessToken).upserting = none := by
  cases origin <;> rfl

@[simp] theorem upserting_getConnection (now : ℕ) (origin : Origin) (account : MailAccount) :
    (getConnection cfg now origin account).upserting = none := by
  unfold getConnection
  split
  · split <;> simp
  · split
    · rfl
    · split
      · rfl
      · simp

/-- The rows after a statement have the mailboxes of rows before it. -/
def Inherits (s s' : AccountStore) : Prop := ∀ a ∈ s'.accounts, ∃ b ∈ s.accounts, keyOf b = keyOf a

theorem Inherits.refl (s : AccountStore) : Inherits s s := fun a ha => ⟨a, ha, rfl⟩

theorem inherits_updateMany {sel : MailAccount → Bool} {set : MailAccount → MailAccount}
    (hset : ∀ a, keyOf (set a) = keyOf a) :
    Inherits s { s with accounts := Table.updateMany sel set s.accounts } := by
  intro x hx
  obtain ⟨a, ha, ⟨-, rfl⟩ | ⟨-, rfl⟩⟩ := Table.mem_updateMany.mp hx
  · exact ⟨a, ha, (hset a).symm⟩
  · exact ⟨x, ha, rfl⟩

theorem inherits_updateThen {id : String} {set : MailAccount → MailAccount}
    {next thrown : AccountCall} (h : updateThen s id set next thrown = some (s', c'))
    (hset : ∀ a, keyOf (set a) = keyOf a) (hnext : next.upserting = none)
    (hthrown : thrown.upserting = none) : c'.upserting = none ∧ Inherits s s' := by
  unfold updateThen updateAccount at h
  by_cases hany : s.accounts.any (·.id = id) = true
  · rw [if_pos hany] at h
    cases h
    exact ⟨hnext, inherits_updateMany hset⟩
  · rw [if_neg hany] at h
    cases h
    exact ⟨hthrown, Inherits.refl s⟩

/-- The call ends with the one row whose mailbox may be new, a row of the user it wrote for. -/
def Connects (s s' : AccountStore) (c c' : AccountCall) : Prop :=
  ∃ account, c' = .done (.connected account) ∧ c.upserting = some account.userId ∧
    ∀ a ∈ s'.accounts, keyOf a = keyOf account ∨ ∃ b ∈ s.accounts, keyOf b = keyOf a

theorem upsert_connects {userId : String} {provider : MailProvider} {result : ConnectResult}
    {draw : AccountDraw} (h : upsert cfg s userId provider result draw = some (s', c')) :
    Connects s s' (.connectUpsert userId provider result) c' := by
  unfold upsert at h
  simp only at h
  cases hfind : s.accounts.find? (sameMailbox userId provider result.providerAccountId) with
  | some account =>
    rw [hfind] at h
    cases h
    have huser : account.userId = userId :=
      congrArg Prod.fst (sameMailbox_iff.mp (List.find?_some hfind))
    refine ⟨_, rfl, congrArg some huser.symm, fun a ha => .inr ?_⟩
    have hkeeps :
      ∀ a, keyOf (reconnect (cfg.encrypt draw.accessNonce .access result.tokens.accessToken)
        ((truthy result.tokens.refreshToken).map (cfg.encrypt draw.refreshNonce .refresh)) result
          a) = keyOf a := fun _ => rfl
    exact inherits_updateMany hkeeps a ha
  | none =>
    rw [hfind] at h
    simp only at h
    by_cases hid : draw.id ∈ s.ids
    · rw [if_pos hid] at h
      cases h
    · rw [if_neg hid] at h
      cases h
      refine ⟨_, rfl, rfl, fun a ha => ?_⟩
      rcases List.mem_append.mp ha with ha | ha
      · exact .inr ⟨a, ha, rfl⟩
      · exact .inl (congrArg keyOf (List.mem_singleton.mp ha))

/-- Only the upsert of a connect leaves a row with a new mailbox, and no statement leads to
another one. -/
theorem accountStatement_rows (h : accountStatement cfg s c d = some (s', c')) :
    c'.upserting = none ∧ (Inherits s s' ∨ Connects s s' c c') := by
  have stays : ∀ {next : AccountCall}, next.upserting = none → next.upserting = none ∧
      (Inherits s s ∨ Connects s s c next) :=
    fun hn => ⟨hn, .inl (Inherits.refl s)⟩
  unfold accountStatement at h
  split at h
  · obtain ⟨account, rfl, hrest⟩ := upsert_connects h
    exact ⟨rfl, .inr ⟨account, rfl, hrest⟩⟩
  · cases h; exact stays rfl
  · split at h
    · cases h; exact stays (upserting_getConnection _ _ _)
    · cases h; exact stays rfl
  · cases h; exact stays rfl
  · split at h
    · split_ifs at h
      · cases h; exact stays rfl
      · cases h; exact stays (upserting_getConnection _ _ _)
    · cases h; exact stays rfl
  · cases h; exact stays rfl
  · cases h; exact stays rfl
  · cases h; exact ⟨rfl, .inl fun a ha => ⟨a, ha, rfl⟩⟩
  · cases h; exact stays (upserting_throwTo _ _ _)
  · exact (inherits_updateThen h (fun _ => rfl) (upserting_withConnection _ _ _)
      (upserting_throwTo _ _ _)).imp_right Or.inl
  · cases h; exact stays (upserting_throwTo _ _ _)
  · exact (inherits_updateThen h (fun _ => rfl) (upserting_throwTo _ _ _)
      (upserting_throwTo _ _ _)).imp_right Or.inl
  · cases h; exact stays (upserting_throwTo _ _ _)
  · exact (inherits_updateThen h (fun _ => rfl) rfl rfl).imp_right Or.inl
  · cases h; exact stays rfl
  · cases h; exact stays rfl
  · exact (inherits_updateThen h (fun _ => rfl) rfl rfl).imp_right Or.inl
  · cases h; exact stays rfl
  · exact (inherits_updateThen h (fun _ => rfl) rfl rfl).imp_right Or.inl
  · cases h; exact stays rfl
  · cases h

end Rows

/-! ### What a step does -/

section Steps

variable {cfg : ConnectConfig} {s s' : ConnectStore} {c c' : ConnectCall} {d : ConnectAnswer}

/-- The URL of the provider of this name carries a state that was issued to this user. -/
def OfIssued (cfg : ConnectConfig) (s : OAuthStates) (slug userId : String) (url : List Char) :
    Prop :=
  ∃ i ∈ s.issued, i.userId = userId ∧ ∃ provider, resolveProvider cfg slug = some provider ∧
    url = buildAuthorizationUrl cfg provider (String.ofList (stateOf cfg.rt i.claims))

/-- What a call owes to the request that it serves. -/
structure Serves (cfg : ConnectConfig) (s : ConnectStore) (r : ConnectRequest) (c : ConnectCall) :
    Prop where
  asking : ∀ slug userId, c = .authorize slug userId → r = .authorize slug userId
  answered : ∀ url, c = .done (.authorizationUrl url) → ∃ slug userId, r = .authorize slug userId ∧
    OfIssued cfg s.states slug userId url

/-- What a call relies on. -/
structure ConnectKnows (s : ConnectStore) (c : ConnectCall) : Prop where
  accepted : ∀ r ∈ c.redeemed, r ∈ s.states.accepted
  /-- A row is about to be written for the user of the redeemed state only. -/
  own : ∀ redeemed call userId, c = .account redeemed call → call.upserting = some userId →
    ∃ r, redeemed = some r ∧ r.userId = userId

theorem ConnectKnows.mono (h : ConnectKnows s c)
    (haccepted : s.states.accepted ⊆ s'.states.accepted) :
    ConnectKnows s' c where
  accepted r hr := haccepted (h.accepted r hr)
  own := h.own

/-- A call that has ended has nothing to rely on. -/
theorem connectKnows_done {outcome : ConnectOutcome} : ConnectKnows s (.done outcome) where
  accepted := by simp [ConnectCall.redeemed]
  own := by simp

theorem connectKnows_exchange {r : Redemption} (h : r ∈ s.states.accepted)
    (provider : MailProvider) (code : String) :
    ConnectKnows s (.exchangeCode r provider code) where
  accepted x hx := by
    cases hx
    exact h
  own := by simp

theorem connectKnows_account {redeemed : Option Redemption} {call : AccountCall}
    (h : ∀ r ∈ redeemed, r ∈ s.states.accepted)
    (hcall : ∀ userId, call.upserting = some userId → ∃ r, redeemed = some r ∧ r.userId = userId) :
    ConnectKnows s (.account redeemed call) where
  accepted := h
  own := by
    rintro _ _ userId ⟨⟩ hup
    exact hcall userId hup

/-- A row with a new mailbox is written by a callback, for the user of the state it redeemed. -/
def ConnectsFor (s s' : AccountStore) (c' : ConnectCall) : Prop :=
  ∃ r account, c' = .account (some r) (.done (.connected account)) ∧ account.userId = r.userId ∧
    ∀ a ∈ s'.accounts, keyOf a = keyOf account ∨ ∃ b ∈ s.accounts, keyOf b = keyOf a

structure ConnectStep (cfg : ConnectConfig) (s : ConnectStore) (c : ConnectCall)
    (s' : ConnectStore) (c' : ConnectCall) : Prop where
  states : StatesInv cfg.rt s'.states
  knows : ConnectKnows s' c'
  redeemed : (s'.states.accepted = s.states.accepted ∧ c'.redeemed = c.redeemed) ∨
    ∃ r, s'.states.accepted = r :: s.states.accepted ∧ c.redeemed = none ∧ c'.redeemed = some r
  rows : Inherits s.accounts s'.accounts ∨ ConnectsFor s.accounts s'.accounts c'

theorem ConnectStep.accepted (h : ConnectStep cfg s c s' c') :
    s.states.accepted ⊆ s'.states.accepted := by
  rcases h.redeemed with ⟨heq, -⟩ | ⟨r, heq, -⟩
  · rw [heq]
    exact List.Subset.refl _
  · rw [heq]
    exact List.subset_cons_self r _

theorem issued_verify {rt : StateRuntime} {states states' : OAuthStates} {state : List Char}
    (h : stateStep rt states (.verify state) = some states') : states.issued ⊆ states'.issued := by
  cases h
  rcases @verifyState_cases rt states state with
    ⟨message, heq | heq⟩ | ⟨payload, signature, rest, claims, -, -, -, -, -, heq⟩
  · rw [heq]
    exact List.Subset.refl _
  · rw [heq]
    exact List.Subset.refl _
  · rw [heq]
    exact List.Subset.refl _

theorem upserting_connect {userId user : String} {provider : MailProvider}
    {result : ConnectResult} {accounts : AccountsConfig}
    (h : (startAccount accounts (.connect userId provider result)).upserting = some user) :
    userId = user := by
  simp only [startAccount] at h
  by_cases hmissing : (accounts.requiredScopes provider).filter
    (fun scope => !result.tokens.scopes.contains scope) ≠ []
  · rw [if_pos hmissing] at h
    cases h
  · rw [if_neg hmissing] at h
    exact Option.some.inj h

/-- An authorization is refused, or issues a state to its own user and gives out the URL with it. -/
theorem authorize_cases {states states' : OAuthStates} {slug userId nonce : String}
    (h : authorize cfg states slug userId nonce = some (states', c')) :
    (states' = states ∧ ∃ message, c' = .done (.notFound message)) ∨
    stateStep cfg.rt states (.issue userId nonce) = some states' ∧ states'.accepted =
      states.accepted ∧
      states.issued ⊆ states'.issued ∧ ∃ url, c' = .done (.authorizationUrl url) ∧
        OfIssued cfg states' slug userId url := by
  unfold authorize at h
  cases hprovider : resolveProvider cfg slug with
  | none =>
    rw [hprovider] at h
    cases h
    exact .inl ⟨rfl, _, rfl⟩
  | some provider =>
    rw [hprovider] at h
    obtain ⟨issued, hissued, heq⟩ := Option.map_eq_some_iff.mp h
    cases heq
    refine .inr ⟨hissued, ?_⟩
    simp only [stateStep] at hissued
    by_cases hnonce : nonce ∈ states.issued.map (·.nonce)
    · rw [if_pos hnonce] at hissued
      cases hissued
    · rw [if_neg hnonce] at hissued
      cases hissued
      exact ⟨rfl, List.subset_cons_self _ _, _, rfl, _, List.mem_cons_self, rfl, provider,
        hprovider, rfl⟩

/-- The callback answers at once, or calls `verify` with the state of the query and goes on with
what it returned. -/
theorem callback_cases (cfg : ConnectConfig) (states : OAuthStates) (slug : String)
    (query : CallbackQuery) :
    ((callback cfg states slug query).1 = states ∧ ∃ outcome, (callback cfg states slug query).2 =
      .done outcome ∧
      ∀ url, outcome ≠ .authorizationUrl url) ∨
    ∃ state ∈ query.state, stateStep cfg.rt states (.verify state.toList) =
        some (remember (callback cfg states slug query).1 (callback cfg states slug query).2) ∧
      ((callback cfg states slug query).1.accepted = states.accepted) ∧
      ((∃ message, (callback cfg states slug query).2 = .done (.refused message)) ∨
      ∃ r provider code, (callback cfg states slug query).2 = .exchangeCode r provider code) := by
  have answered : ∀ outcome : ConnectOutcome, (∀ url, outcome ≠ .authorizationUrl url) →
      callback cfg states slug query = (states, .done outcome) →
        (callback cfg states slug query).1 = states ∧
        ∃ outcome, (callback cfg states slug query).2 = .done outcome ∧ ∀ url,
          outcome ≠ .authorizationUrl url := by
    intro outcome hne heq
    rw [heq]
    exact ⟨rfl, outcome, rfl, hne⟩
  cases hprovider : resolveProvider cfg slug with
  | none => exact .inl (answered (.notFound (unknownProvider slug)) (by simp) (by simp only [callback, hprovider]))
  | some provider =>
    cases herror : truthy query.error with
    | some error =>
      exact .inl (answered (.badRequest (provider.name ++ " declined the request: " ++ error))
        (by simp)
        (by simp only [callback, hprovider, herror]))
    | none =>
      cases hcode : truthy query.code with
      | none =>
        exact .inl (answered (.badRequest "Missing code or state") (by simp)
          (by simp only [callback, hprovider, herror, hcode]))
      | some code =>
        cases hstate : truthy query.state with
        | none =>
          exact .inl (answered (.badRequest "Missing code or state") (by simp)
            (by simp only [callback, hprovider, herror, hcode, hstate]))
        | some state =>
          right
          refine ⟨state, (truthy_eq_some_iff.mp hstate).1, ?_⟩
          rcases @verifyState_cases cfg.rt states state.toList with
            ⟨message, heq | heq⟩ | ⟨payload, signature, rest, claims, -, -, -, -, -, heq⟩
          · simp only [callback, hprovider, herror, hcode, hstate, stateStep, heq]
            exact ⟨rfl, trivial, .inl ⟨message, rfl⟩⟩
          · simp only [callback, hprovider, herror, hcode, hstate, stateStep, heq]
            exact ⟨rfl, trivial, .inl ⟨message, rfl⟩⟩
          · simp only [callback, hprovider, herror, hcode, hstate, stateStep, heq]
            exact ⟨rfl, trivial, .inr ⟨_, provider, code, rfl⟩⟩

theorem connectStatement_step (hI : StatesInv cfg.rt s.states) (hJ : ConnectKnows s c)
    (hok : Genuine cfg s c) (h : connectStatement cfg s c d = some (s', c')) :
    ConnectStep cfg s c s' c' := by
  unfold connectStatement at h
  split at h
  · -- `authorize`
    obtain ⟨⟨states, next⟩, hrun, heq⟩ := Option.map_eq_some_iff.mp h
    cases heq
    rcases authorize_cases hrun with ⟨rfl, message, rfl⟩ | ⟨hissue, haccepted, -, url, rfl, -⟩
    · exact ⟨hI, connectKnows_done, .inl ⟨rfl, rfl⟩, .inl (Inherits.refl _)⟩
    · have hinv : StatesInv cfg.rt states := @stateStep_inv _ _ _ (.issue _ _) hI trivial hissue
      exact ⟨hinv, connectKnows_done, .inl ⟨haccepted, rfl⟩, .inl (Inherits.refl _)⟩
  · -- `callback`
    rename_i slug query
    cases h
    rcases callback_cases cfg s.states slug query with
      ⟨hstates, outcome, hdone, -⟩ | ⟨state, hstate, hverify, haccepted,
        ⟨message, hdone⟩ | ⟨r, provider, code, hnext⟩⟩
    · rw [hstates, hdone]
      exact ⟨hI, connectKnows_done, .inl ⟨rfl, rfl⟩, .inl (Inherits.refl _)⟩
    · have hinv := stateStep_inv hI (hok state hstate) hverify
      rw [hdone] at hinv ⊢
      exact ⟨hinv, connectKnows_done, .inl ⟨haccepted, rfl⟩, .inl (Inherits.refl _)⟩
    · have hinv := stateStep_inv hI (hok state hstate) hverify
      rw [hnext] at hinv ⊢
      refine ⟨hinv, connectKnows_exchange ?_ provider code,
        .inr ⟨r, congrArg (r :: ·) haccepted, rfl, rfl⟩,
        .inl (Inherits.refl _)⟩
      exact List.mem_cons_self
  · -- the code was exchanged
    rename_i redeemed provider code result
    cases h
    refine ⟨hI, connectKnows_account ?_ ?_, .inl ⟨rfl, rfl⟩, .inl (Inherits.refl _)⟩
    · rintro r ⟨⟩
      exact hJ.accepted redeemed rfl
    · intro userId hup
      exact ⟨redeemed, rfl, upserting_connect hup⟩
  · -- the exchange failed
    rename_i redeemed provider code message
    cases h
    refine ⟨hI, connectKnows_account ?_ (by simp [AccountCall.upserting]), .inl ⟨rfl, rfl⟩,
      .inl (Inherits.refl _)⟩
    rintro r ⟨⟩
    exact hJ.accepted redeemed rfl
  · -- a statement of `AccountsService`
    rename_i redeemed call answer
    obtain ⟨⟨accounts, next⟩, hrun, heq⟩ := Option.map_eq_some_iff.mp h
    cases heq
    obtain ⟨hnext, hrows⟩ := accountStatement_rows hrun
    refine ⟨hI, connectKnows_account hJ.accepted ?_, .inl ⟨rfl, rfl⟩, ?_⟩
    · intro userId hup
      rw [hnext] at hup
      cases hup
    · rcases hrows with hinherits | ⟨account, rfl, hup, hrows⟩
      · exact .inl hinherits
      · obtain ⟨r, rfl, huser⟩ := hJ.own _ _ _ rfl hup
        exact .inr ⟨r, account, rfl, huser.symm, hrows⟩
  · cases h

theorem Serves.mono {r : ConnectRequest} (h : Serves cfg s r c)
    (hissued : s.states.issued ⊆ s'.states.issued) :
    Serves cfg s' r c where
  asking := h.asking
  answered url hurl := by
    obtain ⟨slug, userId, hr, i, hi, hrest⟩ := h.answered url hurl
    exact ⟨slug, userId, hr, i, hissued hi, hrest⟩

/-- A call that neither asks for a URL nor has one owes its request nothing. -/
theorem serves_of_silent (r : ConnectRequest) (hask : ∀ slug userId, c ≠ .authorize slug userId)
    (hurl : ∀ url, c ≠ .done (.authorizationUrl url)) : Serves cfg s r c :=
  ⟨fun slug userId hc => absurd hc (hask slug userId), fun url hc => absurd hc (hurl url)⟩

theorem serves_start (s : ConnectStore) (r : ConnectRequest) :
    Serves cfg s r (startConnect cfg r) := by
  cases r with
  | authorize slug userId => exact ⟨by rintro _ _ ⟨⟩; rfl, nofun⟩
  | callback slug query => exact serves_of_silent _ nofun nofun
  | preview userId accountId => exact serves_of_silent _ nofun nofun
  | syncAccount accountId => exact serves_of_silent _ nofun nofun

/-- No statement takes an issued state back, and the URL that one gives out is for the user who
asked for it. -/
theorem connectStatement_serves (h : connectStatement cfg s c d = some (s', c')) :
    s.states.issued ⊆ s'.states.issued ∧ ∀ r, Serves cfg s r c → Serves cfg s' r c' := by
  unfold connectStatement at h
  split at h
  · -- `authorize`
    rename_i slug userId nonce
    obtain ⟨⟨states, next⟩, hrun, heq⟩ := Option.map_eq_some_iff.mp h
    cases heq
    rcases authorize_cases hrun with ⟨rfl, message, rfl⟩ | ⟨-, -, hissued, url, rfl, hurl⟩
    · exact ⟨List.Subset.refl _, fun r _ => serves_of_silent r nofun nofun⟩
    · refine ⟨hissued, fun r hr => ⟨nofun, ?_⟩⟩
      rintro _ ⟨⟩
      exact ⟨slug, userId, hr.asking slug userId rfl, hurl⟩
  · -- `callback`
    rename_i slug query
    cases h
    rcases callback_cases cfg s.states slug query with
      ⟨hstates, outcome, hdone, hne⟩ | ⟨state, -, hverify, -,
        ⟨message, hdone⟩ | ⟨r, provider, code, hnext⟩⟩
    · rw [hstates, hdone]
      refine ⟨List.Subset.refl _, fun r _ => serves_of_silent r nofun fun url hurl => ?_⟩
      exact hne url (ConnectCall.done.inj hurl)
    · refine ⟨issued_verify hverify, fun r _ => ?_⟩
      rw [hdone]
      exact serves_of_silent r nofun nofun
    · refine ⟨issued_verify hverify, fun _ _ => ?_⟩
      rw [hnext]
      exact serves_of_silent _ nofun nofun
  · cases h
    exact ⟨List.Subset.refl _, fun r _ => serves_of_silent r nofun nofun⟩
  · cases h
    exact ⟨List.Subset.refl _, fun r _ => serves_of_silent r nofun nofun⟩
  · obtain ⟨⟨accounts, next⟩, -, heq⟩ := Option.map_eq_some_iff.mp h
    cases heq
    exact ⟨List.Subset.refl _, fun r _ => serves_of_silent r nofun nofun⟩
  · cases h

end Steps

/-! ### Runs -/

section Runs

variable {cfg : ConnectConfig} {p q : Pool ConnectStore ConnectCall}
  {a : Action ConnectRequest ConnectAnswer ℕ}

/-- A callback has connected this mailbox, for the user of the state it redeemed. -/
def Connected (a : MailAccount) (c : ConnectCall) : Prop :=
  ∃ r account, c = .account (some r) (.done (.connected account)) ∧ account.userId = r.userId ∧
    keyOf account = keyOf a

structure FlowInv (cfg : ConnectConfig) (p : Pool ConnectStore ConnectCall) : Prop where
  holds : p.Holds (fun s => StatesInv cfg.rt s.states) ConnectKnows
  used : ∀ r ∈ p.store.states.accepted, ∃ c ∈ p.calls, c.redeemed = some r
  once : HeldOnce ConnectCall.payload p.calls
  rows : ∀ a ∈ p.store.accounts.accounts, ∃ c ∈ p.calls, Connected a c

theorem connectKnows_start (s : ConnectStore) (r : ConnectRequest) :
    ConnectKnows s (startConnect cfg r) := by
  cases r with
  | authorize slug userId =>
    exact ⟨by simp [startConnect, ConnectCall.redeemed], by simp [startConnect]⟩
  | callback slug query => exact ⟨by simp [startConnect, ConnectCall.redeemed], by simp [startConnect]⟩
  | preview userId accountId =>
    exact connectKnows_account (by simp) (by simp [startAccount, AccountCall.upserting])
  | syncAccount accountId =>
    exact connectKnows_account (by simp) (by simp [startAccount, AccountCall.upserting])

theorem payload_start (r : ConnectRequest) : ((connections cfg).start r).payload = none := by
  cases r <;> rfl

theorem flowInv_holds (h : FlowInv cfg p) (hok : Program.Allows (Genuine cfg) p a)
    (hs : (connections cfg).step p a = some q) :
    q.Holds (fun s => StatesInv cfg.rt s.states) ConnectKnows := by
  refine Program.step_stable_of (fun s r _ => connectKnows_start s r) ?_ ?_ h.holds hok hs
  · intro s c d s' c' hI hJ hgenuine hst
    have hstep := connectStatement_step hI hJ hgenuine hst
    exact ⟨hstep.states, hstep.knows, fun c₂ h₂ => h₂.mono hstep.accepted⟩
  · intro s ms s' hI he
    cases he
    exact ⟨hI.ticking ms, fun c₂ h₂ => h₂.mono (List.Subset.refl _)⟩

/-- What is redeemed now was not redeemed before, so no other call holds it. -/
theorem flowInv_once (h : FlowInv cfg p) (hok : Program.Allows (Genuine cfg) p a)
    (hs : (connections cfg).step p a = some q) :
    HeldOnce ConnectCall.payload q.calls := by
  refine Program.step_heldOnce (fun r => payload_start r) ?_ h.once hok hs
  intro c hc d s c' hgenuine hst k hk
  have hstep := connectStatement_step h.holds.1 (h.holds.2 c hc) hgenuine hst
  rcases hstep.redeemed with ⟨-, hsame⟩ | ⟨r, haccepted, -, hnew⟩
  · left
    unfold ConnectCall.payload at hk ⊢
    rwa [hsame] at hk
  · right
    intro x hx hkey
    have hfresh := hstep.states.once
    rw [haccepted, List.map_cons, List.nodup_cons] at hfresh
    apply hfresh.1
    obtain ⟨r', hr', hpayload'⟩ := Option.map_eq_some_iff.mp hkey
    obtain ⟨r'', hr'', hpayload''⟩ := Option.map_eq_some_iff.mp hk
    obtain rfl := Option.some.inj (hnew.symm.trans hr'')
    exact List.mem_map.mpr ⟨r', (h.holds.2 x hx).accepted r' hr', hpayload'.trans hpayload''.symm⟩

/-- A finished call takes no further step, so it stays a witness. -/
theorem not_connected_of_statement {s s' : ConnectStore} {c c' : ConnectCall} {d : ConnectAnswer}
    {account : MailAccount} (h : connectStatement cfg s c d = some (s', c')) :
    ¬ Connected account c := by
  rintro ⟨r, written, rfl, -⟩
  cases d <;> cases h

theorem flowInv_step (h : FlowInv cfg p) (hok : Program.Allows (Genuine cfg) p a)
    (hs : (connections cfg).step p a = some q) :
    FlowInv cfg q := by
  have hholds := flowInv_holds h hok hs
  have honce := flowInv_once h hok hs
  obtain ⟨r, -, rfl⟩ | ⟨i, d, c, s, c', rfl, hc, hst, rfl⟩ | ⟨ms, s, -, he, rfl⟩ :=
    Program.step_cases hs
  · refine ⟨hholds, fun x hx => ?_, honce, fun x hx => ?_⟩
    · obtain ⟨c, hc, hr⟩ := h.used x hx
      exact ⟨c, List.mem_append_left _ hc, hr⟩
    · obtain ⟨c, hc, hr⟩ := h.rows x hx
      exact ⟨c, List.mem_append_left _ hc, hr⟩
  · have hnext := List.mem_of_getElem? (getElem?_set_same c' hc)
    have hstep :=
      connectStatement_step h.holds.1 (h.holds.2 c (List.mem_of_getElem? hc)) (hok c hc) hst
    refine ⟨hholds, fun x hx => ?_, honce, fun x hx => ?_⟩
    · rcases hstep.redeemed with ⟨haccepted, hsame⟩ | ⟨r, haccepted, hnone, hnew⟩
      · rw [haccepted] at hx
        exact exists_set hc (fun hr => hsame.trans hr) (h.used x hx)
      · rw [haccepted] at hx
        rcases List.mem_cons.mp hx with rfl | hx
        · exact ⟨c', hnext, hnew⟩
        · refine exists_set hc (fun hr => ?_) (h.used x hx)
          rw [hnone] at hr
          cases hr
    · have hold : ∀ b ∈ p.store.accounts.accounts, keyOf b = keyOf x → ∃ y ∈ p.calls.set i c',
          Connected x y := by
        intro b hb hkey
        refine exists_set hc (fun hconnected => absurd hconnected (not_connected_of_statement hst)) ?_
        obtain ⟨y, hy, r, account, rfl, huser, hk⟩ := h.rows b hb
        exact ⟨_, hy, r, account, rfl, huser, hk.trans hkey⟩
      rcases hstep.rows with hinherits | ⟨r, account, rfl, huser, hrows⟩
      · obtain ⟨b, hb, hkey⟩ := hinherits x hx
        exact hold b hb hkey
      · rcases hrows x hx with hkey | ⟨b, hb, hkey⟩
        · exact ⟨_, hnext, r, account, rfl, huser, hkey.symm⟩
        · exact hold b hb hkey
  · cases he
    exact ⟨hholds, h.used, honce, h.rows⟩

theorem flowInv_of_noConnections (hp : NoConnections p) : FlowInv cfg p := by
  obtain ⟨hcalls, ⟨hredeemed, hissued, haccepted⟩, hrows⟩ := hp
  have hinv : StatesInv cfg.rt p.store.states := by
    refine ⟨?_, ?_, ?_, ?_, ?_, ?_⟩ <;> simp [hredeemed, hissued, haccepted]
  refine ⟨⟨hinv, ?_⟩, ?_, ?_, ?_⟩
  · simp [hcalls]
  · simp [haccepted]
  · rw [hcalls]
    exact HeldOnce.nil
  · simp [hrows]

/-- The provider reads the state in the URL as it was issued. -/
theorem url_reads (cfg : ConnectConfig) (provider : MailProvider) (state : String) : ∃ front query,
    buildAuthorizationUrl cfg provider state = front ++ '?' :: query ∧
      (Form.parse query).lookup "state" = some state := by
  cases provider with
  | GMAIL =>
    refine ⟨_, _, rfl, ?_⟩
    rw [Form.parse_serialize]
    simp [Gmail.authorizationParams, List.lookup_cons]
  | ZOHO =>
    refine ⟨cfg.zohoHome.toList ++ "/oauth/v2/auth".toList,
      Form.serialize (Zoho.authorizationParams cfg.zoho state), ?_, ?_⟩
    · rw [List.append_assoc]
      rfl
    · rw [Form.parse_serialize]
      simp [Zoho.authorizationParams, List.lookup_cons]

/-- A callback with an issued state that neither expired nor was redeemed goes on to the
exchange. -/
theorem callback_accepts {states : OAuthStates} (h : StatesInv cfg.rt states) {i : Issue}
    (hi : i ∈ states.issued) (hlive : states.second ≤ i.second + stateTtlSeconds)
    (hfresh : ∀ r ∈ states.accepted, r.payload ≠ payloadOf cfg.rt i.claims) {slug code : String}
    {provider : MailProvider} (hslug : resolveProvider cfg slug = some provider)
    (hcode : code ≠ "") {query : CallbackQuery} (hquery : query.code = some code)
    (hstate : query.state = some (String.ofList (stateOf cfg.rt i.claims)))
    (herror : truthy query.error = none) : (callback cfg states slug query).2 =
      .exchangeCode ⟨stateOf cfg.rt i.claims, i.userId, states.second⟩ provider code := by
  have hsplit := splitOn_stateOf cfg.rt i.claims
  have hne : String.ofList (stateOf cfg.rt i.claims) ≠ "" := by
    intro hempty
    have hnil := congrArg String.toList hempty
    rw [String.toList_ofList] at hnil
    exact absurd hnil (by simp [stateOf])
  have hok := h.accepts hi hlive hfresh hsplit
  have hcode' : truthy query.code = some code := truthy_eq_some_iff.mpr ⟨hquery, hcode⟩
  have hstate' : truthy query.state = some (String.ofList (stateOf cfg.rt i.claims)) :=
    truthy_eq_some_iff.mpr ⟨hstate, hne⟩
  simp only [callback, hslug, herror, hcode', hstate', String.toList_ofList]
  cases hrun : verifyState cfg.rt states (stateOf cfg.rt i.claims) with
  | mk outcome states' =>
    rw [hrun] at hok
    obtain rfl := hok
    rfl

/-- Every call of a run serves its own request. -/
theorem serves_of_run (cfg : ConnectConfig) {as : List (Action ConnectRequest ConnectAnswer ℕ)}
    (hp : p.calls = []) (hr : exec (connections cfg).step p as = some q) :
    List.Forall₂ (Serves cfg q.store) (requests as) q.calls := by
  have h0 : List.Forall₂ (Serves cfg p.store) [] p.calls := by
    rw [hp]
    exact .nil
  refine Program.exec_requests serves_start (fun s c d s' c' h => ?_)
    (fun s ms s' he r c h => ?_) h0 hr
  · obtain ⟨hissued, hown⟩ := connectStatement_serves h
    exact ⟨hown, fun r c₂ h₂ => h₂.mono hissued⟩
  · cases he
    exact h.mono (List.Subset.refl _)

/-- In every run of authorizations, callbacks, previews and syncs: a callback past `verify` holds
a state that was issued to the user it connects for, at most ten minutes before; no other call
holds it; every account row was left by such a callback; and every URL that was given out answers
the authorization of a user, and the state in it takes a callback on to the exchange for that
user, until it expires or some call has redeemed it. -/
theorem connect_flow (cfg : ConnectConfig) {p q : Pool ConnectStore ConnectCall}
    {as : List (Action ConnectRequest ConnectAnswer ℕ)} (hp : NoConnections p)
    (hm : Meets (connections cfg).step (Program.Allows (Genuine cfg)) p as)
    (hr : exec (connections cfg).step p as = some q) :
    (∀ c ∈ q.calls, ∀ r ∈ c.redeemed, ∃ i ∈ q.store.states.issued, r.payload =
      payloadOf cfg.rt i.claims ∧
      r.userId = i.userId ∧ i.second ≤ r.second ∧ r.second ≤ i.second + 600) ∧
    HeldOnce ConnectCall.payload q.calls ∧
    (∀ a ∈ q.store.accounts.accounts, ∃ c ∈ q.calls, Connected a c) ∧
    ∀ (k : ℕ) url, q.calls[k]? = some (.done (.authorizationUrl url)) →
      ∃ slug userId, (requests as)[k]? = some (.authorize slug userId) ∧
      ∃ i ∈ q.store.states.issued, i.userId = userId ∧ ∃ front query,
      url = front ++ '?' :: query ∧ (Form.parse query).lookup "state" =
        some (String.ofList (stateOf cfg.rt i.claims)) ∧
      (q.store.states.second ≤ i.second + 600 →
        (∀ c ∈ q.calls, ∀ r ∈ c.redeemed, r.payload ≠ payloadOf cfg.rt i.claims) →
        ∀ slug provider code query, resolveProvider cfg slug = some provider → code ≠ "" →
          query.code = some code →
          query.state = some (String.ofList (stateOf cfg.rt i.claims)) → truthy query.error = none →
          (callback cfg q.store.states slug query).2 =
            .exchangeCode ⟨stateOf cfg.rt i.claims, userId, q.store.states.second⟩ provider
              code) := by
  have hinv := exec_invariant_of_meets (fun _ _ _ h hok hs => flowInv_step h hok hs)
    (flowInv_of_noConnections hp) hm hr
  refine ⟨fun c hc r hredeemed => ?_, hinv.once, hinv.rows, fun k url hurl => ?_⟩
  · exact hinv.holds.1.faithful r ((hinv.holds.2 c hc).accepted r hredeemed)
  · obtain ⟨r, hrequest, hserves⟩ := forall₂_getElem? (serves_of_run cfg hp.1 hr) hurl
    obtain ⟨slug, userId, rfl, i, hi, rfl, provider, -, rfl⟩ := hserves.answered url rfl
    obtain ⟨front, query, hquery, hread⟩ :=
      url_reads cfg provider (String.ofList (stateOf cfg.rt i.claims))
    refine ⟨slug, i.userId, hrequest, i, hi, rfl, front, query, hquery, hread, ?_⟩
    intro hlive hunused slug provider code query hslug hcode hq hstate herror
    refine callback_accepts hinv.holds.1 hi hlive (fun r haccepted => ?_) hslug hcode hq hstate herror
    obtain ⟨c, hc, hredeemed⟩ := hinv.used r haccepted
    exact hunused c hc r hredeemed

/-- A deployment whose providers cannot be reached. -/
def flowSample : ConnectConfig where
  accounts := taggedConfig
  rt := plainRuntime
  gmail := ⟨fun _ => .error "fetch failed", fun _ => none, fun _ =>
    0, 0, "client", "secret", "https://app.example/oauth/gmail"⟩
  zoho := ⟨fun _ => .error "fetch failed", id, 0, "client", "secret", "https://app.example/oauth/zoho"⟩
  zohoHome := "https://accounts.zoho.com"
  toUpperCase text := String.ofList (text.toList.map Char.toUpper)

def emptyFlow : Pool ConnectStore ConnectCall := ⟨⟨⟨0, [], [], []⟩, ⟨0, [], [], []⟩⟩, []⟩

/-- The state that Alice is issued. -/
def aliceState : String := String.ofList (stateOf plainRuntime ⟨"alice", "n", 600⟩)

/-- Alice asks for a URL, and five minutes later a browser comes back with the state in it. -/
def aliceReturns : List (Action ConnectRequest ConnectAnswer ℕ) :=
  [.call (.authorize "gmail" "alice"), .run 0 (.drawn "n"), .env 300000,
    .call (.callback "gmail" ⟨some "code", some aliceState, none⟩)]

theorem splitOn_aliceState :
    (aliceState.toList.splitOn '.').headD [] = payloadOf plainRuntime ⟨"alice", "n", 600⟩ := by
  unfold aliceState
  rw [String.toList_ofList, splitOn_stateOf]
  rfl

theorem genuine_aliceReturns (rest : List (Action ConnectRequest ConnectAnswer ℕ))
    (hrest : ∀ t, exec (connections flowSample).step emptyFlow aliceReturns = some t →
      Meets (connections flowSample).step (Program.Allows (Genuine flowSample)) t rest) :
    Meets (connections flowSample).step (Program.Allows (Genuine flowSample)) emptyFlow
      (aliceReturns ++ rest) := by
  refine ⟨trivial, fun t ht => ?_⟩
  cases ht
  refine ⟨?_, fun t ht => ⟨trivial, fun u hu => ⟨trivial, fun v hv => ?_⟩⟩⟩
  · rintro c ⟨⟩
    trivial
  · cases ht
    cases hu
    cases hv
    exact hrest _ rfl

/-- A callback that is next runs to its first pause. -/
theorem step_callback {k : ℕ} {slug : String} {query : CallbackQuery}
    (h : p.calls[k]? = some (.callback slug query)) :
    ∃ q, (connections cfg).step p (.run k .verified) = some q ∧
      q.calls[k]? = some (callback cfg p.store.states slug query).2 := by
  refine ⟨_, Program.step_run.mpr ⟨_, _, (callback cfg p.store.states slug query).2, h, rfl, rfl⟩, ?_⟩
  exact getElem?_set_same _ h

/-- The callback takes Alice's state, and from then on holds it for Alice. -/
theorem connect_flow_gmail :
    ∃ q, exec (connections flowSample).step emptyFlow (aliceReturns ++ [.run 1 .verified]) =
      some q ∧
    ∃ r, q.calls[1]? = some (.exchangeCode r .GMAIL "code") ∧
      ∃ i ∈ q.store.states.issued, r.payload = payloadOf plainRuntime i.claims ∧
        r.userId = i.userId ∧
        i.second ≤ r.second ∧ r.second ≤ i.second + 600 := by
  obtain ⟨t, ht⟩ : ∃ t, exec (connections flowSample).step emptyFlow aliceReturns = some t := ⟨_, rfl⟩
  have hm := genuine_aliceReturns [] fun _ _ => trivial
  rw [List.append_nil] at hm
  obtain ⟨-, -, -, hurls⟩ := connect_flow flowSample ⟨rfl, ⟨rfl, rfl, rfl⟩, rfl⟩ hm ht
  have hcalls :
    t.calls = [.done (.authorizationUrl (buildAuthorizationUrl flowSample .GMAIL aliceState)),
      .callback "gmail" ⟨some "code", some aliceState, none⟩] := by
    cases ht
    rfl
  have hissued : t.store.states.issued = [⟨"alice", "n", 0⟩] := by
    cases ht
    rfl
  have hsecond : t.store.states.second = 300 := by
    cases ht
    decide
  obtain ⟨slug, userId, -, i, hi, -, front, query, -, -, haccepts⟩ := hurls 0 _ (by rw [hcalls]; rfl)
  rw [hissued] at hi
  obtain rfl := List.mem_singleton.mp hi
  have hnext :=
    haccepts (by rw [hsecond]; decide) (by rw [hcalls]; simp [ConnectCall.redeemed]) "gmail"
    .GMAIL "code"
    ⟨some "code", some aliceState, none⟩ (by decide) (by decide) rfl rfl rfl
  have hcall : t.calls[1]? = some (.callback "gmail" ⟨some "code", some aliceState, none⟩) := by
    rw [hcalls]
    rfl
  obtain ⟨q, hq, hheld⟩ := step_callback hcall
  have hr : exec (connections flowSample).step emptyFlow (aliceReturns ++ [.run 1 .verified]) =
      some q := by
    rw [exec_concat, ht]
    exact hq
  have hm := genuine_aliceReturns [.run 1 .verified] fun u hu => by
    obtain rfl := Option.some.inj (ht.symm.trans hu)
    refine ⟨fun c hc => ?_, fun _ _ => trivial⟩
    obtain rfl := Option.some.inj (hcall.symm.trans hc)
    rintro state ⟨⟩
    have hmem : ⟨"alice", "n", 0⟩ ∈ t.store.states.issued := by
      rw [hissued]
      exact List.mem_cons_self
    exact unforged_of_issued hmem splitOn_aliceState
  rw [hnext] at hheld
  exact ⟨q, hr, _, hheld, (connect_flow flowSample ⟨rfl, ⟨rfl, rfl, rfl⟩, rfl⟩ hm hr).1
    _ (List.mem_of_getElem? hheld) _ rfl⟩

end Runs

end Finlytic.EmailIngestion
