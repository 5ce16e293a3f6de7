import Finlytic.EmailIngestion.ZohoProvider

/-! The regions of `ZohoProvider`. Every call goes to the accounts or the mail
domain of the row that the region selects, and a region without a row fails before
any call; but the names that every object inherits select no row and do not fail. -/

namespace Finlytic.EmailIngestion.Zoho

open Lib Calling

/-- The URL starts with the origin and a slash, so the origin is all of its authority. -/
def At (origin url : String) : Prop := ∃ rest, url = origin ++ "/" ++ rest

/-- A call to the accounts or the mail domain of the data centre. -/
def To (centre : DataCentre) (c : FetchCall) : Prop := At centre.accounts c.url ∨ At centre.mail c.url

/-- It calls one listed data centre only, or fails with a `BadRequestException` before it calls
anything. -/
def Allowlisted {α : Type} (m : Calling FetchCall ProviderError α) : Prop :=
  (∃ entry ∈ dataCentres, Only (To entry.2) m) ∨ ∃ message, m = raise (.badRequest message)

/-- The region, in lower case, is not the name of something inherited. -/
def NotInherited (z : Surroundings) (location : Option String) : Prop :=
  ∀ text, location = some text → text ≠ "" → z.toLowerCase text ∉ inheritedNames

variable {z : Surroundings} {α : Type} {location : Option String} {centre : DataCentre}
  {connection : ProviderConnection} {use : Centre → Calling FetchCall ProviderError α}

/-! ### The table -/

theorem inherited_not_listed : ∀ name ∈ inheritedNames, dataCentres.lookup name = none := by decide

/-- A lookup is decided by the table first, then by the inherited names. -/
theorem findCentre_cases (key : String) :
    (key ∉ inheritedNames ∧ findCentre key = none) ∨
    (key ∉ inheritedNames ∧ ∃ centre, (key, centre) ∈ dataCentres ∧ findCentre key =
      some (.row centre)) ∨
    (key ∈ inheritedNames ∧ findCentre key = some .inherited) := by
  unfold findCentre
  cases hlookup : dataCentres.lookup key with
  | some centre =>
    refine .inr (.inl ⟨?_, centre, ?_, rfl⟩)
    · intro hmem
      rw [inherited_not_listed key hmem] at hlookup
      cases hlookup
    · obtain ⟨front, back, heq, -⟩ := List.lookup_eq_some_iff.mp hlookup
      rw [heq]
      exact List.mem_append_right _ List.mem_cons_self
  | none =>
    by_cases hmem : key ∈ inheritedNames
    · exact .inr (.inr ⟨hmem, if_pos hmem⟩)
    · exact .inl ⟨hmem, if_neg hmem⟩

/-- What a region selects: nothing, a row of the table, or something inherited. -/
theorem resolveLocation_cases (z : Surroundings) (location : Option String) :
    (NotInherited z location ∧ ∃ message, resolveLocation z location =
      .error (.badRequest message)) ∨
    (NotInherited z location ∧ ∃ key centre, (key, centre) ∈ dataCentres ∧
      resolveLocation z location = .ok ⟨key, some centre.accounts, some centre.mail⟩) ∨
    (¬ NotInherited z location ∧ ∃ key, resolveLocation z location = .ok ⟨key, none, none⟩) := by
  unfold resolveLocation
  cases htruthy : truthy location with
  | none =>
    refine .inl ⟨?_, _, rfl⟩
    rintro text rfl hne
    rw [truthy_of_ne_empty fun h => hne (Option.some.inj h)] at htruthy
    cases htruthy
  | some text =>
    obtain ⟨rfl, hne⟩ := truthy_eq_some_iff.mp htruthy
    have hiff : NotInherited z (some text) ↔ z.toLowerCase text ∉ inheritedNames := by
      constructor
      · intro h
        exact h text rfl hne
      · rintro h other ⟨⟩ -
        exact h
    rw [hiff]
    simp only
    rcases findCentre_cases (z.toLowerCase text) with
      ⟨hnot, hfound⟩ | ⟨hnot, centre, hmem, hfound⟩ | ⟨hmem, hfound⟩
    · rw [hfound]
      exact .inl ⟨hnot, _, rfl⟩
    · rw [hfound]
      exact .inr (.inl ⟨hnot, _, centre, hmem, rfl⟩)
    · rw [hfound]
      exact .inr (.inr ⟨not_not_intro hmem, _, rfl⟩)

/-! ### Where a URL leads -/

theorem origins_https : ∀ entry ∈ dataCentres,
    entry.2.accounts.toList.head? = some 'h' ∧ entry.2.mail.toList.head? = some 'h' := by decide

theorem head_of_at {origin url : String} {c : Char} (h : At origin url)
    (horigin : origin.toList.head? = some c) :
    url.toList.head? = some c := by
  obtain ⟨rest, rfl⟩ := h
  rw [String.toList_append, String.toList_append, List.append_assoc, List.head?_append, horigin]
  rfl

/-- An undefined origin is none of the listed ones. -/
theorem not_to_undefined {entry : String × DataCentre} (hmem : entry ∈ dataCentres)
    {c : FetchCall} {rest : String} (h : c.url = "undefined" ++ rest) : ¬ To entry.2 c := by
  have hurl : c.url.toList.head? = some 'u' := by
    rw [h, String.toList_append]
    rfl
  have hhttps := origins_https entry hmem
  rintro (hat | hat)
  · have hh := head_of_at hat hhttps.1
    rw [hurl] at hh
    cases hh
  · have hh := head_of_at hat hhttps.2
    rw [hurl] at hh
    cases hh

theorem at_append {origin path rest : String} (h : path = "/" ++ rest) :
    At origin (origin ++ path) :=
  ⟨rest, by rw [h, String.append_assoc]⟩

/-- Where what follows the lookup keeps to its row, and calls an undefined origin without one,
the region is allowlisted unless it is the name of something inherited. -/
theorem allowlisted_withCentre
    (hrow : ∀ key centre, resolveLocation z location =
      .ok ⟨key, some centre.accounts, some centre.mail⟩ →
      Only (To centre) (use ⟨key, some centre.accounts, some centre.mail⟩))
    (hinherited : ∀ key, ∃ c rest, c.url = "undefined" ++ rest ∧ Starts c (use ⟨key, none, none⟩)) :
    Allowlisted (withCentre z location use) ↔ NotInherited z location := by
  rcases resolveLocation_cases z location with
    ⟨hnot, message, h⟩ | ⟨hnot, key, centre, hmem, h⟩ | ⟨hnot, key, h⟩
  · refine iff_of_true (.inr ⟨message, ?_⟩) hnot
    rw [withCentre_error h]
  · refine iff_of_true (.inl ⟨(key, centre), hmem, ?_⟩) hnot
    rw [withCentre_ok h]
    exact hrow key centre h
  · refine iff_of_false ?_ hnot
    obtain ⟨c, rest, hurl, hstarts⟩ := hinherited key
    rw [withCentre_ok h]
    rintro (⟨entry, hmem, honly⟩ | ⟨message, hraise⟩)
    · exact hstarts.not_only (not_to_undefined hmem hurl) honly
    · exact hstarts.ne_raise _ hraise

/-! ### Calls -/

theorem only_answer {P : FetchCall → Prop} {c : FetchCall} (h : P c)
    (failure : String → ProviderError) :
    Only P (do match ← call z.world c with
      | .error detail => raise (failure detail)
      | .ok response => pure response : Calling FetchCall ProviderError Reply) := by
  apply (only_call z.world h).bind
  intro reply
  cases reply with
  | error detail => exact only_raise _
  | ok response => exact only_pure _

theorem starts_answer (c : FetchCall) (failure : String → ProviderError) :
    Starts c (do match ← call z.world c with
      | .error detail => raise (failure detail)
      | .ok response => pure response : Calling FetchCall ProviderError Reply) := by
  have hrest : ∀ reply : Except String Reply, Only (fun _ => True) (match reply with
      | .error detail => raise (failure detail)
      | .ok response => pure response : Calling FetchCall ProviderError Reply) := by
    intro reply
    cases reply with
    | error detail => exact only_raise _
    | ok response => exact only_pure _
  exact (starts_call z.world c).bind hrest

/-- Reading a response calls nothing. -/
theorem only_readToken {P : FetchCall → Prop} (response : Reply) : Only P (readToken response) := by
  unfold readToken
  cases response.token with
  | none => exact only_raise _
  | some payload =>
    simp only
    split_ifs
    · exact only_raise _
    · exact only_pure _

theorem only_readIdentity {P : FetchCall → Prop} (response : Reply) :
    Only P (readIdentity response) := by
  unfold readIdentity
  by_cases hok : response.ok = true
  · rw [if_pos hok]
    cases response.accounts with
    | none => exact only_raise _
    | some data =>
      simp only
      cases data.bind List.head? with
      | none => exact only_raise _
      | some account => exact only_pure _
  · rw [if_neg hok]
    cases response.text with
    | none => exact only_raise _
    | some text => exact only_raise _

theorem only_handle {P : FetchCall → Prop} (response : Reply) : Only P (handle response) := by
  unfold handle
  by_cases hok : response.ok = true
  · rw [if_pos hok]
    cases response.messages with
    | none => exact only_raise _
    | some data => exact only_pure _
  · rw [if_neg hok]
    cases response.text with
    | none => exact only_raise _
    | some text =>
      simp only
      split_ifs
      · exact only_raise _
      · exact only_raise _
      · exact only_raise _

theorem only_postToken {P : FetchCall → Prop} {domain : Option String}
    {fields : List (String × String)} (h : P (tokenCall z domain fields)) :
    Only P (postToken z domain fields) :=
  Only.bind (only_answer h .thrown) only_readToken

theorem only_fetchIdentity {P : FetchCall → Prop} {domain : Option String} {accessToken : String}
    (h : P (apiCall (printed domain ++ "/api/accounts") accessToken)) :
    Only P (fetchIdentity z domain accessToken) :=
  Only.bind (only_answer h .thrown) fun response => (only_readIdentity response).bind fun _ =>
    only_pure _

theorem only_request {P : FetchCall → Prop} {path : String}
    (h : ∀ c, resolveLocation z (locationOf connection) = .ok c →
      P (requestCall c connection path)) :
    Only P (request z connection path) := by
  unfold request
  cases hresolve : resolveLocation z (locationOf connection) with
  | error e =>
    rw [withCentre_error hresolve]
    exact only_raise _
  | ok c =>
    rw [withCentre_ok hresolve]
    exact only_answer (h c hresolve) _

theorem only_fetchView {P : FetchCall → Prop} {start limit : ℕ}
    (h : ∀ c, resolveLocation z (locationOf connection) = .ok c →
      P (requestCall c connection (view start limit))) :
    Only P (fetchView z connection start limit) := (only_request h).bind only_handle

/-! ### The four callers -/

theorem to_tokenCall (fields : List (String × String)) :
    To centre (tokenCall z (some centre.accounts) fields) :=
  .inl (@at_append _ _ "oauth/v2/token" rfl)

theorem to_identityCall (accessToken : String) :
    To centre (apiCall (printed (some centre.mail) ++ "/api/accounts") accessToken) :=
  .inr (@at_append _ _ "api/accounts" rfl)

theorem to_requestCall (key : String) (path : String) :
    To centre (requestCall ⟨key, some centre.accounts, some centre.mail⟩ connection path) := by
  refine .inr ⟨"api/accounts/" ++ connection.providerAccountId ++ path, ?_⟩
  show centre.mail ++ ("/" ++ "api/accounts/") ++ connection.providerAccountId ++ path = _
  simp only [String.append_assoc]

theorem allowlisted_exchangeCode (z : Surroundings) (code : String) (location : Option String) :
    Allowlisted (exchangeCode z code location) ↔ NotInherited z location := by
  apply allowlisted_withCentre
  · intro key centre _
    apply (only_postToken (to_tokenCall _)).bind
    intro payload
    exact (only_fetchIdentity (to_identityCall _)).bind fun _ => only_pure _
  · intro key
    refine ⟨tokenCall z none
      [("code", code), ("redirect_uri", z.redirectUri), ("grant_type", "authorization_code")],
      "/oauth/v2/token", rfl, ?_⟩
    apply ((starts_answer _ .thrown).bind (only_readToken (P := fun _ => True))).bind
    intro payload
    exact (only_fetchIdentity (P := fun _ => True) trivial).bind fun _ => only_pure _

theorem allowlisted_refreshAccessToken (z : Surroundings) (refreshToken : String)
    (metadata : ProviderMetadata) :
    Allowlisted (refreshAccessToken z refreshToken metadata) ↔
      NotInherited z (metadata.lookup "location") := by
  apply allowlisted_withCentre
  · intro key centre _
    exact (only_postToken (to_tokenCall _)).bind fun _ => only_pure _
  · intro key
    refine ⟨tokenCall z none [("refresh_token", refreshToken), ("grant_type", "refresh_token")],
      "/oauth/v2/token", rfl, ?_⟩
    exact ((starts_answer _ .thrown).bind (only_readToken (P := fun _ => True))).bind fun _ =>
      only_pure (P := fun _ => True) _

theorem allowlisted_getProfile (z : Surroundings) (connection : ProviderConnection) :
    Allowlisted (getProfile z connection) ↔
      NotInherited z (connection.metadata.lookup "location") := by
  apply allowlisted_withCentre
  · intro key centre hresolve
    apply (only_fetchIdentity (to_identityCall _)).bind
    intro identity
    have hview : Only (To centre) (fetchView z connection 1 1) := by
      apply only_fetchView
      intro c hc
      rw [hresolve] at hc
      cases hc
      exact to_requestCall _ _
    exact hview.bind fun _ => only_pure _
  · intro key
    refine ⟨apiCall (printed none ++ "/api/accounts") connection.accessToken, "/api/accounts", rfl, ?_⟩
    have hidentity : Starts (apiCall (printed none ++ "/api/accounts") connection.accessToken)
        (fetchIdentity z none connection.accessToken) :=
      (starts_answer _ .thrown).bind fun response =>
        (only_readIdentity (P := fun _ => True) response).bind fun _ => only_pure _
    apply hidentity.bind
    intro identity
    exact (only_fetchView (P := fun _ => True) fun _ _ => trivial).bind fun _ => only_pure _

theorem allowlisted_request (z : Surroundings) (connection : ProviderConnection) (path : String) :
    Allowlisted (request z connection path) ↔
      NotInherited z (connection.metadata.lookup "location") := by
  apply allowlisted_withCentre
  · intro key centre _
    exact only_answer (to_requestCall _ _) _
  · intro key
    refine ⟨requestCall ⟨key, none, none⟩ connection path,
      "/api/accounts/" ++ connection.providerAccountId ++ path, ?_, starts_answer _ _⟩
    show "undefined" ++ "/api/accounts/" ++ connection.providerAccountId ++ path = _
    simp only [String.append_assoc]

/-- Each of the four callers keeps to the accounts and mail domains of one listed data centre, or
fails before any call, unless the region is the name of something inherited. -/
theorem regions_allowlisted (z : Surroundings) (location : Option String)
    (code refreshToken : String) (metadata : ProviderMetadata) (connection : ProviderConnection)
    (path : String) :
    (Allowlisted (exchangeCode z code location) ↔ NotInherited z location) ∧
    (Allowlisted (refreshAccessToken z refreshToken metadata) ↔
      NotInherited z (metadata.lookup "location")) ∧
    (Allowlisted (getProfile z connection) ↔
      NotInherited z (connection.metadata.lookup "location")) ∧
    (Allowlisted (request z connection path) ↔
      NotInherited z (connection.metadata.lookup "location")) :=
  ⟨allowlisted_exchangeCode z code location, allowlisted_refreshAccessToken z refreshToken metadata,
    allowlisted_getProfile z connection, allowlisted_request z connection path⟩

/-- The text of the region reaches the table as it is, and Zoho is never there. -/
def sampleSurroundings : Surroundings where
  world _ := .error "TypeError: Invalid URL"
  toLowerCase text := String.ofList (text.toList.map Char.toLower)
  now := 0
  clientId := "id"
  clientSecret := "secret"
  redirectUri := "https://app.example/oauth/zoho/callback"

/-- `constructor` is found in the table, and the code is posted to an undefined domain. -/
theorem constructor_not_allowlisted :
    ¬ Allowlisted (exchangeCode sampleSurroundings "code" (some "constructor")) := by
  have hrun : exchangeCode sampleSurroundings "code" (some "constructor") [] =
    (.error (.thrown "TypeError: Invalid URL"),
      [tokenCall sampleSurroundings none
        [("code", "code"), ("redirect_uri", sampleSurroundings.redirectUri),
          ("grant_type", "authorization_code")]]) := by rfl
  rintro (⟨entry, hmem, honly⟩ | ⟨message, hraise⟩)
  · obtain ⟨more, hmore, hcalls⟩ := honly []
    rw [hrun, List.nil_append] at hmore
    rw [← hmore] at hcalls
    exact @not_to_undefined _ hmem _ "/oauth/v2/token" rfl (hcalls _ List.mem_cons_self)
  · rw [hraise] at hrun
    cases hrun

end Finlytic.EmailIngestion.Zoho
