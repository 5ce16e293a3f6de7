import Finlytic.EmailIngestion.Overlap
import Finlytic.EmailIngestion.SyncOverHttp
import Finlytic.Lib.JsonText

/-! What Gmail and Zoho answer from a mailbox, by what they read in a request, and
that the adapters make of these answers the pages of the mailbox. -/

namespace Finlytic.EmailIngestion.Wire

open Lib Calling JsonText

/-! ### Gmail -/

/-- Gmail reads the query of a request. It lists the messages that exist, knows its page tokens
again, and answers 404 for a history id that it no longer serves and for a message that is gone,
before its listing or since. -/
structure GmailAnswers (g : Gmail.Surroundings) (connection : ProviderConnection) (pageSize : ℕ)
    (box : Mailbox) (available : String → Bool) (token : ℕ → String) : Prop where
  token_ne : ∀ n, token n ≠ ""
  gone : ∀ id ∈ box.deleted, available id = false
  profile : ∀ made, ∃ reply data,
    g.world (made ++ [Gmail.requestCall connection.accessToken "/profile".toList]) = .ok reply ∧
    reply.ok = true ∧ reply.profile = some data ∧ data.historyId = toString box.clock
  list : ∀ made query n, (Form.parse query).lookup "maxResults" = some (toString n) →
    (Form.parse query).lookup "pageToken" = none → ∃ reply data,
      g.world (made ++ [Gmail.requestCall connection.accessToken ("/messages?".toList ++ query)]) =
        .ok reply ∧
      reply.ok = true ∧ reply.list = some data ∧ data.messages.getD [] = listMessageIds box n
  changes : ∀ made query cursor pageToken, (Form.parse query).lookup "startHistoryId" =
    some (toString cursor) →
    (Form.parse query).lookup "historyTypes" = some "messageAdded" →
    (Form.parse query).lookup "pageToken" = Option.map token pageToken → ∃ reply,
      g.world (made ++ [Gmail.requestCall connection.accessToken ("/history?".toList ++ query)]) =
        .ok reply ∧
      (cursor < box.floor → reply.status = 404) ∧
      (box.floor ≤ cursor → reply.ok = true ∧ ∃ data, reply.history = some data ∧
        ((data.history.getD []).flatMap fun entry => entry.getD []) =
          (((history box cursor).drop (pageToken.getD 0)).take pageSize).map (·.id) ∧
        data.nextPageToken = (if pageToken.getD 0 + pageSize < (history box cursor).length then
          some (token (pageToken.getD 0 + pageSize)) else none) ∧
        data.historyId = some (toString box.clock))
  raw : ∀ m ∈ box.log, ∀ made, ∃ reply,
    g.world (made ++ [Gmail.requestCall connection.accessToken (Gmail.rawPath m.id)]) = .ok reply ∧
      (available m.id = false → reply.status = 404) ∧
      (available m.id = true → reply.ok = true ∧ ∃ data, reply.message = some data ∧ data.id = m.id)

section Gmail

variable {g : Gmail.Surroundings} {connection : ProviderConnection} {pageSize : ℕ} {box : Mailbox}
  {available : String → Bool} {token : ℕ → String} {accessToken : String} {path : List Char}
  {made : List Gmail.FetchCall} {reply : Gmail.Reply}

theorem request_run (h : g.world (made ++ [Gmail.requestCall accessToken path]) = .ok reply) :
    Gmail.request g accessToken path made =
      (.ok reply, made ++ [Gmail.requestCall accessToken path]) := by
  unfold Gmail.request Gmail.fetch
  rw [bind_ok (call_run _ _), h]
  rfl

theorem handle_ok {α : Type} {read : Gmail.Reply → Option α} {data : α} (hok : reply.ok = true)
    (hread : read reply = some data) :
    Gmail.handle read reply = pure data := by
  unfold Gmail.handle
  rw [if_pos hok, hread]

theorem apiGet_run {α : Type} {read : Gmail.Reply → Option α} {data : α}
    (h : g.world (made ++ [Gmail.requestCall accessToken path]) = .ok reply)
    (hok : reply.ok = true) (hread : read reply = some data) :
    Gmail.apiGet g read accessToken path made =
      (.ok data, made ++ [Gmail.requestCall accessToken path]) := by
  unfold Gmail.apiGet
  rw [bind_ok (request_run h), handle_ok hok hread]
  rfl

theorem ok_ne_gone (h : reply.ok = true) : reply.status ≠ 404 := by
  unfold Gmail.Reply.ok at h
  rw [Bool.and_eq_true, decide_eq_true_eq, decide_eq_true_eq] at h
  omega

/-- The page token is read as it was set. -/
theorem lookup_withPageToken {params : List (String × String)}
    (hparams : ∀ field ∈ params, field.1 ≠ "pageToken") {pageToken : Option String}
    (hne : pageToken ≠ some "") (name : String) (hname : name ≠ "pageToken") :
    (Form.parse (Form.serialize (Gmail.withPageToken params pageToken))).lookup "pageToken" =
      pageToken ∧
      (Form.parse (Form.serialize (Gmail.withPageToken params pageToken))).lookup name =
        params.lookup name := by
  rw [Form.parse_serialize]
  unfold Gmail.withPageToken
  rw [truthy_of_ne_empty hne]
  have hnone : params.lookup "pageToken" = none := by
    rw [List.lookup_eq_none_iff]
    intro field hfield
    exact bne_iff_ne.mpr (Ne.symm (hparams field hfield))
  cases pageToken with
  | none => exact ⟨hnone, rfl⟩
  | some pageToken =>
    simp only
    rw [Form.set_of_not_mem hparams, List.lookup_append, hnone, List.lookup_append]
    have hother : List.lookup name [("pageToken", pageToken)] = none := by
      rw [List.lookup_eq_none_iff]
      simpa using hname
    rw [hother, Option.or_none]
    exact ⟨rfl, rfl⟩

theorem token_some_ne (h : GmailAnswers g connection pageSize box available token)
    (pageToken : Option ℕ) :
    Option.map token pageToken ≠ some "" := by
  intro heq
  obtain ⟨n, -, hn⟩ := Option.map_eq_some_iff.mp heq
  exact h.token_ne n hn

theorem gmail_changed (h : GmailAnswers g connection pageSize box available token) (cursor : ℕ)
    (pageToken : Option ℕ) (made : List Gmail.FetchCall) : ∃ made',
    Gmail.listChangedMessageIds g connection (toString cursor) (Option.map token pageToken) made =
      (.ok (pageOf token (gmailListChanged pageSize box cursor pageToken)), made') := by
  have hparams : ∀ field ∈ [("startHistoryId", toString cursor), ("historyTypes", "messageAdded")],
      field.1 ≠ "pageToken" := by
    simp
  have htoken := lookup_withPageToken hparams (token_some_ne h pageToken) "startHistoryId" (by decide)
  have htypes := lookup_withPageToken hparams (token_some_ne h pageToken) "historyTypes" (by decide)
  obtain ⟨reply, hworld, hgone, hserved⟩ :=
    h.changes made _ cursor pageToken htoken.2 htypes.2 htoken.1
  unfold Gmail.listChangedMessageIds gmailListChanged
  rw [Gmail.historyParams, bind_ok (request_run hworld)]
  by_cases hfloor : cursor < box.floor
  · rw [if_pos (hgone hfloor), if_pos hfloor]
    exact ⟨_, rfl⟩
  · obtain ⟨hok, data, hdata, hids, hnext, hcursor⟩ := hserved (Nat.le_of_not_lt hfloor)
    rw [if_neg (ok_ne_gone hok), if_neg hfloor, handle_ok hok hdata]
    have hpage :
      pageOf token ⟨(((history box cursor).drop (pageToken.getD 0)).take pageSize).map (·.id),
        if pageToken.getD 0 + pageSize < (history box cursor).length then
          some (pageToken.getD 0 + pageSize)
        else none,
        some box.clock, false⟩ =
          ⟨(data.history.getD []).flatMap fun entry => entry.getD [], data.nextPageToken,
          data.historyId, false⟩ := by
      simp only [hids, hnext, hcursor, pageOf, apply_ite (Option.map token), Option.map_some,
        Option.map_none]
    exact ⟨_, congrArg (fun page => (Except.ok page, _)) hpage.symm⟩

theorem gmail_serves (h : GmailAnswers g connection pageSize box available token) :
    Serves (gmail g) connection .GMAIL pageSize box available token where
  token_ne := h.token_ne
  profile made := by
    obtain ⟨reply, data, hworld, hok, hdata, hid⟩ := h.profile made
    show ∃ emailAddress made', Gmail.getProfile g connection made = _
    unfold Gmail.getProfile
    rw [bind_ok (apiGet_run hworld hok hdata), hid]
    exact ⟨_, _, rfl⟩
  list made := by
    have hparams : ∀ field ∈ [("maxResults", toString initialBatch)], field.1 ≠ "pageToken" := by simp
    have hread :=
      lookup_withPageToken hparams (by decide : (none : Option String) ≠ some "") "maxResults"
      (by decide)
    obtain ⟨reply, data, hworld, hok, hdata, hids⟩ := h.list made _ initialBatch hread.2 hread.1
    show ∃ next made', Gmail.listMessageIds g connection none initialBatch made = _
    unfold Gmail.listMessageIds
    rw [Gmail.listParams, bind_ok (apiGet_run hworld hok hdata), hids]
    exact ⟨_, _, rfl⟩
  changed := gmail_changed h
  raw m hm made := by
    obtain ⟨reply, hworld, hgone, hserved⟩ := h.raw m hm made
    show ∃ message made', Gmail.fetchRawMessage g connection m.id made = _ ∧ _
    unfold Gmail.fetchRawMessage
    rw [bind_ok (request_run hworld)]
    cases havailable : available m.id with
    | false =>
      rw [if_pos (hgone havailable)]
      exact ⟨none, _, rfl, rfl, by simp⟩
    | true =>
      obtain ⟨hok, data, hdata, hid⟩ := hserved havailable
      rw [if_neg (ok_ne_gone hok), handle_ok hok hdata]
      refine ⟨_, _, rfl, rfl, ?_⟩
      rintro raw ⟨⟩
      exact hid

end Gmail

/-! ### Zoho -/

/-- Zoho lists the messages that exist, newest first, in the pages that the URL asks for, and
answers 404 for a message that is gone, before its listing or since. -/
structure ZohoAnswers (z : Zoho.Surroundings) (content : Zoho.Reply → Option String)
    (connection : ProviderConnection) (centre : Zoho.Centre) (box : Mailbox)
    (available : String → Bool) : Prop where
  resolved : Zoho.resolveLocation z (Zoho.locationOf connection) = .ok centre
  gone : ∀ id ∈ box.deleted, available id = false
  identity : ∀ made, ∃ reply account others,
    z.world (made ++
      [Zoho.apiCall (Zoho.printed centre.mail ++ "/api/accounts") connection.accessToken]) =
      .ok reply ∧
      reply.ok = true ∧ reply.accounts = some (some (account :: others))
  page : ∀ made start limit, ∃ reply,
    z.world (made ++ [Zoho.requestCall centre connection (Zoho.view start limit)]) = .ok reply ∧
      reply.ok = true ∧
      reply.messages = some ((view box start limit).map Zoho.listed)
  raw : ∀ m ∈ box.log, ∀ made, ∃ reply,
    z.world (made ++
      [Zoho.requestCall centre connection ("/messages/" ++ m.id ++ "/originalmessage")]) =
      .ok reply ∧
      (available m.id = false → reply.status = 404) ∧
      (available m.id = true → reply.ok = true ∧ (content reply).isSome = true)

section Zoho

variable {z : Zoho.Surroundings} {content : Zoho.Reply → Option String}
  {connection : ProviderConnection} {centre : Zoho.Centre} {pageSize : ℕ} {box : Mailbox}
  {available : String → Bool} {made : List Zoho.FetchCall} {reply : Zoho.Reply} {path : String}

theorem zoho_request_run
    (hcentre : Zoho.resolveLocation z (Zoho.locationOf connection) = .ok centre)
    (h : z.world (made ++ [Zoho.requestCall centre connection path]) = .ok reply) :
    Zoho.request z connection path made =
      (.ok reply, made ++ [Zoho.requestCall centre connection path]) := by
  unfold Zoho.request
  rw [Zoho.withCentre_ok hcentre, bind_ok (call_run _ _), h]
  rfl

theorem zoho_view_run (h : ZohoAnswers z content connection centre box available)
    (start limit : ℕ) (made : List Zoho.FetchCall) :
    ∃ made', Zoho.fetchView z connection start limit made =
      (.ok ((view box start limit).map Zoho.listed), made') := by
  obtain ⟨reply, hworld, hok, hmessages⟩ := h.page made start limit
  unfold Zoho.fetchView
  rw [bind_ok (zoho_request_run h.resolved hworld), Zoho.handle, if_pos hok, hmessages]
  exact ⟨_, rfl⟩

theorem zoho_identity_run (h : ZohoAnswers z content connection centre box available)
    (made : List Zoho.FetchCall) :
    ∃ identity made', Zoho.fetchIdentity z centre.mail connection.accessToken made =
      (.ok identity, made') := by
  obtain ⟨reply, account, others, hworld, hok, haccounts⟩ := h.identity made
  have hfetch :
    Zoho.fetch z
    (Zoho.apiCall (Zoho.printed centre.mail ++ "/api/accounts") connection.accessToken) made =
      (.ok reply, made ++
        [Zoho.apiCall (Zoho.printed centre.mail ++ "/api/accounts") connection.accessToken]) := by
    unfold Zoho.fetch
    rw [bind_ok (call_run _ _), hworld]
    rfl
  unfold Zoho.fetchIdentity
  rw [bind_ok hfetch, Zoho.readIdentity, if_pos hok, haccounts]
  exact ⟨_, _, rfl⟩

theorem tokenNumber_getD (pageToken : Option ℕ) :
    Zoho.tokenNumber ((Option.map toString pageToken).getD "1") = pageToken.getD 1 := by
  cases pageToken with
  | none => decide
  | some start => exact Zoho.tokenNumber_toString start

theorem zoho_serves (h : ZohoAnswers z content connection centre box available) :
    Serves (zoho z content) connection .ZOHO pageSize box available toString where
  token_ne := toString_ne_empty
  profile made := by
    obtain ⟨identity, made₁, hidentity⟩ := zoho_identity_run h made
    obtain ⟨made₂, hview⟩ := zoho_view_run h 1 1 made₁
    show ∃ emailAddress made', Zoho.getProfile z connection made = _
    unfold Zoho.getProfile
    rw [Zoho.withCentre_ok h.resolved, bind_ok hidentity, bind_ok hview]
    refine ⟨identity.2, made₂, ?_⟩
    show (Except.ok (Zoho.ProviderProfile.mk _ _), _) = _
    unfold getProfile
    cases view box 1 1 with
    | nil =>
      have hzero : toString 0 = "0" := by decide
      show (Except.ok (Zoho.ProviderProfile.mk identity.2 "0"), made₂) =
        (Except.ok ⟨identity.2, toString 0⟩, made₂)
      rw [hzero]
    | cons newest others => rfl
  list made := by
    obtain ⟨made', hview⟩ := zoho_view_run h 1 initialBatch made
    have hbatch : ((view box 1 initialBatch).map Zoho.listed).map (·.messageId) =
        listMessageIds box initialBatch := by
      rw [List.map_map]
      rfl
    show ∃ next made', Zoho.listMessageIds z connection none initialBatch made = _
    unfold Zoho.listMessageIds
    rw [← hbatch]
    exact ⟨_, _, bind_ok hview⟩
  changed cursor pageToken made := by
    obtain ⟨made', hview⟩ := zoho_view_run h (pageToken.getD 1) 200 made
    obtain ⟨hids, hnext, hcursor⟩ := Zoho.zohoListChanged_eq box cursor pageToken
    have hlist : Zoho.listChangedMessageIds z Zoho.tokenNumber connection (toString cursor)
      (Option.map toString pageToken) made =
        (.ok (Zoho.changePage Zoho.tokenNumber (toString cursor) (pageToken.getD 1) 200
          ((view box (pageToken.getD 1) 200).map Zoho.listed)), made') := by
      unfold Zoho.listChangedMessageIds
      rw [tokenNumber_getD, bind_ok hview]
      rfl
    refine ⟨made', ?_⟩
    show (Zoho.listChangedMessageIds z Zoho.tokenNumber connection (toString cursor)
      (Option.map toString pageToken) >>= _) made = _
    rw [bind_ok hlist]
    show (Except.ok (Gmail.MessageChangePage.mk _ _ _ _), _) = _
    rw [hids, hnext, hcursor]
    rfl
  raw m hm made := by
    obtain ⟨reply, hworld, hgone, hserved⟩ := h.raw m hm made
    show ∃ message made', Zoho.fetchRawMessage z content connection m.id made = _ ∧ _
    unfold Zoho.fetchRawMessage
    rw [bind_ok (zoho_request_run h.resolved hworld)]
    cases havailable : available m.id with
    | false =>
      rw [if_pos (hgone havailable)]
      exact ⟨none, _, rfl, rfl, by simp⟩
    | true =>
      obtain ⟨hok, hcontent⟩ := hserved havailable
      obtain ⟨text, htext⟩ := Option.isSome_iff_exists.mp hcontent
      have hthere : reply.status ≠ 404 := by
        unfold Zoho.Reply.ok at hok
        rw [Bool.and_eq_true, decide_eq_true_eq, decide_eq_true_eq] at hok
        omega
      rw [if_neg hthere, Zoho.handleAs, if_pos hok, htext]
      refine ⟨_, _, rfl, rfl, ?_⟩
      rintro raw ⟨⟩
      rfl

end Zoho

/-! ### The sync over HTTP -/

/-- Over the requests of either adapter, `syncAccount` stores the rows, reports the messages gone,
and writes the cursor of the run on the mailbox that the provider serves, and it ends. -/
theorem sync_over_http (pageSize : ℕ) (s : SyncState) (available : String → Bool)
    (connection : ProviderConnection) (hpos : 0 < pageSize) (fuel : ℕ)
    (hfuel : s.box.log.length + 1 ≤ fuel) :
    (∀ g token, GmailAnswers g connection pageSize s.box available token → ∀ made, ∃ r made',
      EmailIngestion.syncAccount .GMAIL pageSize available s = some r ∧
        syncAccount (gmail g) connection fuel s.rows s.gone (s.syncCursor.map toString) made =
          (.ok (some (ranOf r)), made')) ∧
    ∀ z content centre, ZohoAnswers z content connection centre s.box available → ∀ made, ∃ r made',
      EmailIngestion.syncAccount .ZOHO pageSize available s = some r ∧
        syncAccount (zoho z content) connection fuel s.rows s.gone
          (s.syncCursor.map toString) made =
          (.ok (some (ranOf r)), made') := by
  constructor
  · intro g token h made
    exact syncAccount_run hpos (gmail_serves h) hfuel made
  · intro z content centre h made
    exact syncAccount_run hpos (zoho_serves h) hfuel made

/-! ### Servers -/

def goneReply : Gmail.Reply := ⟨404, some "Not Found", none, none, none, none, none⟩

def historyReply (pageSize : ℕ) (box : Mailbox) (fields : List (String × String)) : Gmail.Reply :=
  let cursor := Zoho.tokenNumber ((fields.lookup "startHistoryId").getD "")
  let offset := ((fields.lookup "pageToken").map Zoho.tokenNumber).getD 0
  if cursor < box.floor then goneReply
  else
    { goneReply with
      status := 200
      history := some
        { history := some [some ((((history box cursor).drop offset).take pageSize).map (·.id)), none]
          nextPageToken := if offset + pageSize < (history box cursor).length then
            some (toString (offset + pageSize)) else none
          historyId := some (toString box.clock) } }

def listReply (box : Mailbox) (fields : List (String × String)) : Gmail.Reply :=
  let maxResults := Zoho.tokenNumber ((fields.lookup "maxResults").getD "")
  { goneReply with status := 200, list := some ⟨some (listMessageIds box maxResults), none⟩ }

def rawReply (available : String → Bool) (id : String) : Gmail.Reply :=
  if available id then
    { goneReply with status := 200, message := some ⟨id, id, none, none, none, "0", ""⟩ }
  else goneReply

/-- The endpoints of the API by their paths; what is left is the profile. -/
def gmailReply (pageSize : ℕ) (box : Mailbox) (available : String → Bool) (path : List Char) :
    Gmail.Reply :=
  match after "/history?".toList path with
  | some query => historyReply pageSize box (Form.parse query)
  | none =>
    match after "/messages?".toList path with
    | some query => listReply box (Form.parse query)
    | none =>
      match after "/messages/".toList path with
      | some rest => rawReply available (String.ofList (rest.takeWhile (· ≠ '?')))
      | none => { goneReply with status := 200, profile := some ⟨"owner@gmail.example", toString box.clock⟩ }

def gmailWorld (pageSize : ℕ) (box : Mailbox) (available : String → Bool) (made : List Gmail.FetchCall) :
    Except String Gmail.Reply :=
  match made.getLast? with
  | none => .error "fetch failed"
  | some c => .ok (gmailReply pageSize box available (c.url.drop Gmail.API_BASE.toList.length))

theorem gmailWorld_request (pageSize : ℕ) (box : Mailbox) (available : String → Bool)
    (made : List Gmail.FetchCall) (accessToken : String) (path : List Char) :
    gmailWorld pageSize box available (made ++ [Gmail.requestCall accessToken path]) =
      .ok (gmailReply pageSize box available path) := by
  unfold gmailWorld Gmail.requestCall
  rw [List.getLast?_concat]
  simp only [List.drop_left]

/-- An id is read back up to the first character that is not of it. -/
theorem ofList_takeWhile {id : String} {c : Char} (hid : c ∉ id.toList) (rest : List Char) :
    String.ofList ((id.toList ++ c :: rest).takeWhile (· ≠ c)) = id := by
  have hfree : ∀ d ∈ id.toList, decide (d ≠ c) = true := by
    intro d hd
    apply decide_eq_true
    rintro rfl
    exact hid hd
  rw [List.takeWhile_append_of_pos hfree, List.takeWhile_cons_of_neg (by simp), List.append_nil,
    String.ofList_toList]

/-- Every mailbox whose ids hold no question mark can be served so. -/
theorem gmailAnswers_gmailWorld {g : Gmail.Surroundings} (connection : ProviderConnection) {pageSize : ℕ} {box : Mailbox}
    {available : String → Bool} (hgone : ∀ id ∈ box.deleted, available id = false)
    (hids : ∀ m ∈ box.log, '?' ∉ m.id.toList) (hworld : g.world = gmailWorld pageSize box available) :
    GmailAnswers g connection pageSize box available toString where
  token_ne := toString_ne_empty
  gone := hgone
  profile made := by
    refine ⟨_, _, by rw [hworld, gmailWorld_request], rfl, rfl, rfl⟩
  list made query n hn _ := by
    have hreply : gmailReply pageSize box available ("/messages?".toList ++ query) = listReply box (Form.parse query) := by
      unfold gmailReply
      rw [after_append]
      rfl
    refine ⟨_, _, by rw [hworld, gmailWorld_request, hreply], rfl, rfl, ?_⟩
    rw [hn, Option.getD_some, Option.getD_some, Zoho.tokenNumber_toString]
  changes made query cursor pageToken hcursor _ htoken := by
    have hreply : gmailReply pageSize box available ("/history?".toList ++ query) =
        historyReply pageSize box (Form.parse query) := by
      unfold gmailReply
      rw [after_append]
    have hoffset : (Option.map Zoho.tokenNumber (Option.map toString pageToken)).getD 0 =
        pageToken.getD 0 := by
      cases pageToken with
      | none => rfl
      | some n => exact Zoho.tokenNumber_toString n
    refine ⟨_, by rw [hworld, gmailWorld_request, hreply], ?_, ?_⟩
    · intro hfloor
      unfold historyReply
      simp only [hcursor, Option.getD_some, Zoho.tokenNumber_toString, if_pos hfloor]
      rfl
    · intro hfloor
      unfold historyReply
      simp only [hcursor, htoken, hoffset, Option.getD_some, Zoho.tokenNumber_toString,
        if_neg (Nat.not_lt_of_le hfloor)]
      exact ⟨rfl, _, rfl, by simp, rfl, rfl⟩
  raw m hm made := by
    have hread : String.ofList ((m.id.toList ++ "?format=RAW".toList).takeWhile (· ≠ '?')) = m.id :=
      ofList_takeWhile (hids m hm) _
    have hreply : gmailReply pageSize box available (Gmail.rawPath m.id) =
        rawReply available m.id := by
      unfold gmailReply Gmail.rawPath
      rw [after_append]
      simp only [hread]
      rfl
    refine ⟨_, by rw [hworld, gmailWorld_request, hreply], ?_, ?_⟩
    · intro hgone
      rw [rawReply, if_neg (by simp [hgone])]
      rfl
    · intro hthere
      rw [rawReply, if_pos hthere]
      exact ⟨rfl, _, rfl, rfl⟩

def zohoGone : Zoho.Reply := ⟨404, some "Not Found", none, none, none⟩

/-- What follows the accounts endpoint of the mail domain: nothing, a page, or a message. -/
def zohoReply (connection : ProviderConnection) (box : Mailbox) (available : String → Bool)
    (path : List Char) : Zoho.Reply :=
  match after ("/" ++ connection.providerAccountId ++ "/messages/").toList path with
  | none => { zohoGone with status := 200, accounts := some (some [⟨connection.providerAccountId, "owner@zoho.example"⟩]) }
  | some rest =>
    match after "view?start=".toList rest with
    | some asked =>
      let limit := (number ((number asked).2.drop "&limit=".toList.length)).1
      { zohoGone with status := 200, messages := some ((view box (number asked).1 limit).map Zoho.listed) }
    | none =>
      if available (String.ofList (rest.takeWhile (· ≠ '/'))) then { zohoGone with status := 200, text := some "" } else zohoGone

def zohoWorld (centre : Zoho.Centre) (connection : ProviderConnection) (box : Mailbox)
    (available : String → Bool) (made : List Zoho.FetchCall) : Except String Zoho.Reply :=
  match made.getLast? with
  | none => .error "fetch failed"
  | some c => .ok
    (zohoReply connection box available
    (c.url.toList.drop (Zoho.printed centre.mail ++ "/api/accounts").toList.length))

theorem zohoWorld_call (centre : Zoho.Centre) (connection : ProviderConnection) (box : Mailbox)
    (available : String → Bool) (made : List Zoho.FetchCall) {c : Zoho.FetchCall}
    {path : List Char}
    (hurl : c.url.toList = (Zoho.printed centre.mail ++ "/api/accounts").toList ++ path) :
    zohoWorld centre connection box available (made ++ [c]) =
      .ok (zohoReply connection box available path) := by
  unfold zohoWorld
  rw [List.getLast?_concat]
  simp only [hurl, List.drop_left]

/-- Every mailbox whose ids hold no slash and no question mark can be served so. -/
theorem zohoAnswers_zohoWorld {z : Zoho.Surroundings} {connection : ProviderConnection} {centre : Zoho.Centre} {box : Mailbox}
    {available : String → Bool}
      (hgone : ∀ id ∈ box.deleted, available id = false) (hcentre : Zoho.resolveLocation z
      (Zoho.locationOf connection) = .ok centre)
    (hids : ∀ m ∈ box.log, '?' ∉ m.id.toList ∧ '/' ∉ m.id.toList)
    (hworld : z.world = zohoWorld centre connection box available) :
    ZohoAnswers z (·.text) connection centre box available where
  resolved := hcentre
  gone := hgone
  identity made := by
    have hnone : after ("/" ++ connection.providerAccountId ++ "/messages/").toList [] = none := by
      simp [after]
    have hreply : zohoReply connection box available [] =
        { zohoGone with status := 200, accounts := some (some [⟨connection.providerAccountId, "owner@zoho.example"⟩]) } := by
      unfold zohoReply
      rw [hnone]
    exact ⟨_, _, _, by rw [hworld, zohoWorld_call _ _ _ _ _ (List.append_nil _).symm, hreply], rfl, rfl⟩
  page made start limit := by
    have hurl : (Zoho.requestCall centre connection (Zoho.view start limit)).url.toList =
        (Zoho.printed centre.mail ++ "/api/accounts").toList ++
          (("/" ++ connection.providerAccountId ++ "/messages/").toList ++ ("view?start=".toList ++
            (Nat.toDigits 10 start ++ '&' :: ("limit=".toList ++ (Nat.toDigits 10 limit ++ '&' ::
              "sortBy=date&sortorder=false".toList))))) := by
      unfold Zoho.requestCall Zoho.apiCall Zoho.view
      simp only [String.toList_append, toList_toString, List.append_assoc]
      rfl
    have hreply : zohoReply connection box available (("/" ++ connection.providerAccountId ++ "/messages/").toList ++
        ("view?start=".toList ++ (Nat.toDigits 10 start ++ '&' :: ("limit=".toList ++ (Nat.toDigits 10 limit ++ '&' ::
          "sortBy=date&sortorder=false".toList))))) =
        { zohoGone with status := 200, messages := some ((view box start limit).map Zoho.listed) } := by
      have hlimit : ('&' :: ("limit=".toList ++ (Nat.toDigits 10 limit ++ '&' :: "sortBy=date&sortorder=false".toList))).drop
          "&limit=".toList.length = Nat.toDigits 10 limit ++ '&' :: "sortBy=date&sortorder=false".toList := rfl
      unfold zohoReply
      rw [after_append]
      simp only
      rw [after_append]
      simp only [number_append start (by decide : ('&').isDigit = false), hlimit,
        number_append limit (by decide : ('&').isDigit = false)]
    exact ⟨_, by rw [hworld, zohoWorld_call _ _ _ _ _ hurl, hreply], rfl, rfl⟩
  raw m hm made := by
    obtain ⟨hmark, hslash⟩ := hids m hm
    have hurl : (Zoho.requestCall centre connection
      ("/messages/" ++ m.id ++ "/originalmessage")).url.toList =
        (Zoho.printed centre.mail ++ "/api/accounts").toList ++
          (("/" ++ connection.providerAccountId ++ "/messages/").toList ++
            (m.id.toList ++ "/originalmessage".toList)) := by
      unfold Zoho.requestCall Zoho.apiCall
      simp only [String.toList_append, List.append_assoc]
      rfl
    have hview : after "view?start=".toList (m.id.toList ++ "/originalmessage".toList) = none := by
      unfold after
      apply if_neg
      rw [List.isPrefixOf_iff_prefix]
      intro hprefix
      have hmem : '?' ∈ m.id.toList ++ "/originalmessage".toList := hprefix.subset (by decide)
      rcases List.mem_append.mp hmem with hin | hin
      · exact hmark hin
      · exact absurd hin (by decide)
    have hread :
        String.ofList ((m.id.toList ++ "/originalmessage".toList).takeWhile (· ≠ '/')) = m.id :=
      ofList_takeWhile hslash _
    have hreply : zohoReply connection box available (("/" ++ connection.providerAccountId ++ "/messages/").toList ++
        (m.id.toList ++ "/originalmessage".toList)) =
        if available m.id then { zohoGone with status := 200, text := some "" } else zohoGone := by
      unfold zohoReply
      rw [after_append]
      simp only [hview, hread]
    refine ⟨_, by rw [hworld, zohoWorld_call _ _ _ _ _ hurl, hreply], ?_, ?_⟩
    · intro hgone
      rw [if_neg (by simp [hgone])]
      rfl
    · intro hthere
      rw [if_pos hthere]
      exact ⟨rfl, rfl⟩

/-! Over both adapters: one message is stored, one goes after its listing, and the newest one was
deleted before. Only Gmail's history still lists that one. -/

def twoLeft : Mailbox := (burst 4).delete "xxx" (burstId_mem 3)

def gmailConnection : ProviderConnection := ⟨"google-token", "sub-1", []⟩

def gmailSample : Gmail.Surroundings where
  world := gmailWorld 100 twoLeft (· ∉ ["", "xxx"])
  parseClaims _ := none
  dateOf _ := 0
  now := 0
  clientId := "id"
  clientSecret := "secret"
  redirectUri := "https://app.example/oauth/gmail/callback"

def zohoSample : Zoho.Surroundings where
  world := zohoWorld Zoho.sampleCentre Zoho.sampleConnection twoLeft (· ∉ ["", "xxx"])
  toLowerCase := id
  now := 0
  clientId := "id"
  clientSecret := "secret"
  redirectUri := "https://app.example/oauth/zoho/callback"

theorem sync_over_http_twoLeft :
    (∃ ran made', syncAccount (gmail gmailSample) gmailConnection 5 [] [] (some "0") [] =
      (.ok (some ran), made') ∧ ran.rows = ["x", "xx"] ∧ ran.gone = ["", "xxx"] ∧ ran.syncCursor =
        some "4") ∧
    ∃ ran made', syncAccount (zoho zohoSample (·.text)) Zoho.sampleConnection 5 [] []
      (some "0") [] =
      (.ok (some ran), made') ∧ ran.rows = ["xx", "x"] ∧ ran.gone = [""] ∧ ran.syncCursor =
        some "3" := by
  have hids : ∀ m ∈ twoLeft.log, '?' ∉ m.id.toList ∧ '/' ∉ m.id.toList := by decide
  have hgone : ∀ id ∈ twoLeft.deleted, decide (id ∉ ["", "xxx"]) = false := by decide
  constructor
  · obtain ⟨r, made', hr, hrun⟩ :=
      (sync_over_http 100 ⟨twoLeft, some 0, [], []⟩ (· ∉ ["", "xxx"]) gmailConnection (by decide) 5
      (by decide)).1 gmailSample toString
        (gmailAnswers_gmailWorld gmailConnection hgone (fun m hm => (hids m hm).1) rfl) []
    cases hr
    exact ⟨_, made', hrun, by decide, by decide, by decide⟩
  · obtain ⟨r, made', hr, hrun⟩ :=
      (sync_over_http 100 ⟨twoLeft, some 0, [], []⟩ (· ∉ ["", "xxx"]) Zoho.sampleConnection
      (by decide) 5
      (by decide)).2 zohoSample (·.text) Zoho.sampleCentre
        (zohoAnswers_zohoWorld hgone rfl hids rfl) []
    cases hr
    exact ⟨_, made', hrun, by decide, by decide, by decide⟩

end Finlytic.EmailIngestion.Wire
