import Finlytic.EmailIngestion.MailSync
import Finlytic.EmailIngestion.ZohoProvider
import Mathlib.Order.Lattice

/-! The change listing of `ZohoProvider` over a mailbox that Zoho serves in pages,
newest first. The listing goes on while pages are full and fresh; since the
mailbox is sorted, nothing behind a page that is not fresh is fresh. -/

namespace Finlytic.EmailIngestion.Zoho

open Lib Calling

/-- Starts without a page token and follows the tokens; `none` when the fuel runs out. -/
def followPages (list : Option String → Calling FetchCall ProviderError ChangePage) :
    ℕ → Option String → Calling FetchCall ProviderError (Option (List ChangePage))
  | 0, _ => pure none
  | fuel + 1, pageToken => do
    let page ← list pageToken
    match page.nextPageToken with
    | none => pure (some [page])
    | some token => do
      let later ← followPages list fuel (some token)
      pure (later.map (page :: ·))

/-- The mailbox, newest first, is served in pages of 200 by their 1-based start. -/
def Serves (z : Surroundings) (connection : ProviderConnection) (snapshot : List ZohoMessage) :
    Prop :=
  ∃ centre, resolveLocation z (locationOf connection) = .ok centre ∧
    ∀ made start, ∃ response, z.world (made ++ [requestCall centre connection (view start 200)]) =
      .ok response ∧
      response.ok = true ∧ response.messages = some ((snapshot.drop (start - 1)).take 200)

section Listing

variable {ν : Type} [LinearOrder ν] {number : String → ν} {z : Surroundings}
  {connection : ProviderConnection} {snapshot l : List ZohoMessage} {cursor : String}
  {made : List FetchCall} {start : ℕ}

theorem tokenNumber_toString (n : ℕ) : tokenNumber (toString n) = n := by
  unfold tokenNumber
  rw [Nat.toString_eq_repr, Nat.toList_repr, Nat.ofDigitChars_ten_toDigits]

/-! ### One page -/

theorem fetchView_run (h : Serves z connection snapshot) (start : ℕ) (made : List FetchCall) :
    ∃ made', fetchView z connection start 200 made =
      (.ok ((snapshot.drop (start - 1)).take 200), made') := by
  obtain ⟨centre, hresolve, hpages⟩ := h
  obtain ⟨response, hworld, hok, hmessages⟩ := hpages made start
  have hrequest : request z connection (view start 200) made =
      (.ok response, made ++ [requestCall centre connection (view start 200)]) := by
    unfold request
    rw [withCentre_ok hresolve, bind_ok (call_run _ _), hworld]
    rfl
  refine ⟨made ++ [requestCall centre connection (view start 200)], ?_⟩
  unfold fetchView
  rw [bind_ok hrequest, handle, if_pos hok, hmessages]
  rfl

theorem listChanged_run (h : Serves z connection snapshot) (cursor : String)
    (pageToken : Option String) (made : List FetchCall) :
    ∃ made', listChangedMessageIds z number connection cursor pageToken made =
      (.ok (changePage number cursor (tokenNumber (pageToken.getD "1")) 200
        ((snapshot.drop (tokenNumber (pageToken.getD "1") - 1)).take 200)), made') := by
  obtain ⟨made', hview⟩ := fetchView_run h (tokenNumber (pageToken.getD "1")) made
  refine ⟨made', ?_⟩
  unfold listChangedMessageIds
  rw [bind_ok hview]
  rfl

/-- Behind a page that is not all fresh nothing is fresh. -/
theorem filter_drop_eq_nil
    (hsorted : l.Pairwise fun m n => number n.receivedTime ≤ number m.receivedTime) {limit : ℕ}
    (hstale : ((l.take limit).filter fun m =>
      decide (number cursor ≤ number m.receivedTime)).length ≠ (l.take limit).length) :
    (l.drop limit).filter (fun m => decide (number cursor ≤ number m.receivedTime)) = [] := by
  rw [← List.take_append_drop limit l] at hsorted
  have hcross := (List.pairwise_append.mp hsorted).2.2
  rw [List.filter_eq_nil_iff]
  intro older holder hfresh
  apply hstale
  rw [List.filter_eq_self.mpr]
  intro newer hnewer
  exact decide_eq_true (le_trans (of_decide_eq_true hfresh) (hcross newer hnewer older holder))

/-- A page that is not the last is full and fresh, and names the next start. -/
theorem changePage_next
    (hsorted : l.Pairwise fun m n => number n.receivedTime ≤ number m.receivedTime) :
    ((changePage number cursor start 200 (l.take 200)).nextPageToken =
      some (toString (start + 200)) ∧ 200 ≤ l.length ∨
      (changePage number cursor start 200 (l.take 200)).nextPageToken = none ∧
        (l.drop 200).filter (fun m => decide (number cursor ≤ number m.receivedTime)) = []) := by
  unfold changePage
  simp only
  by_cases hmore :
    ((l.take 200).filter fun m => decide (number cursor ≤ number m.receivedTime)).length =
    (l.take 200).length ∧
      (l.take 200).length = 200
  · left
    refine ⟨if_pos hmore, ?_⟩
    have hlength := hmore.2
    rw [List.length_take] at hlength
    omega
  · right
    refine ⟨if_neg hmore, ?_⟩
    by_cases hfresh :
      ((l.take 200).filter fun m => decide (number cursor ≤ number m.receivedTime)).length =
      (l.take 200).length
    · have hshort : l.length ≤ 200 := by
        have hlength : (l.take 200).length ≠ 200 := fun h => hmore ⟨hfresh, h⟩
        rw [List.length_take] at hlength
        omega
      rw [List.drop_eq_nil_of_le hshort]
      rfl
    · exact filter_drop_eq_nil hsorted hfresh

/-! ### All pages -/

theorem changePage_ids (start limit : ℕ) (data : List ZohoMessage) :
    (changePage number cursor start limit data).messageIds =
    (data.filter fun m => decide (number cursor ≤ number m.receivedTime)).map (·.messageId) := rfl

theorem changePage_cursor (start limit : ℕ) (data : List ZohoMessage) :
    (changePage number cursor start limit data).cursor =
    if start = 1 then data.head?.map (·.receivedTime) else none := rfl

/-- The walk ends at a page that names no other. -/
theorem followPages_last {list : Option String → Calling FetchCall ProviderError ChangePage}
    {page : ChangePage} {pageToken : Option String} {made made' : List FetchCall} (fuel : ℕ)
    (hpage : list pageToken made = (.ok page, made')) (hnext : page.nextPageToken = none) :
    (followPages list (fuel + 1) pageToken made).1 = .ok (some [page]) := by
  unfold followPages
  rw [bind_ok hpage, hnext]
  rfl

/-- Before the last page the walk goes on from the page that is named. -/
theorem followPages_more {list : Option String → Calling FetchCall ProviderError ChangePage}
    {page : ChangePage} {pageToken : Option String} {token : String} {made made' : List FetchCall}
    {later : List ChangePage} {fuel : ℕ} (hpage : list pageToken made = (.ok page, made'))
    (hnext : page.nextPageToken = some token)
    (hlater : (followPages list fuel (some token) made').1 = .ok (some later)) :
    (followPages list (fuel + 1) pageToken made).1 = .ok (some (page :: later)) := by
  have hfollow : followPages list fuel (some token) made' =
      (.ok (some later), (followPages list fuel (some token) made').2) := Prod.ext hlater rfl
  rw [followPages, bind_ok hpage, hnext]
  simp only
  rw [bind_ok hfollow]
  rfl

/-- From any page on, the listing ends and holds what is fresh in the rest of the mailbox. -/
theorem followPages_from (h : Serves z connection snapshot) (cursor : String)
    (hsorted : l.Pairwise fun m n => number n.receivedTime ≤ number m.receivedTime)
    (pageToken : Option String) (hstart : tokenNumber (pageToken.getD "1") = start)
    (hpos : 0 < start) (hl : snapshot.drop (start - 1) = l) :
    ∃ later, (∀ fuel, l.length / 200 + 1 ≤ fuel → ∀ made,
        (followPages (listChangedMessageIds z number connection cursor) fuel pageToken made).1 =
          .ok (some (changePage number cursor start 200 (l.take 200) :: later))) ∧
      (changePage number cursor start 200 (l.take 200) :: later).flatMap (·.messageIds) =
        (l.filter fun m => decide (number cursor ≤ number m.receivedTime)).map (·.messageId) ∧
      ∀ page ∈ later, page.cursor = none := by
  induction hn : l.length using Nat.strong_induction_on generalizing l start pageToken with
  | _ n ih =>
    have hpage : ∀ made, ∃ made', listChangedMessageIds z number connection cursor pageToken made =
        (.ok (changePage number cursor start 200 (l.take 200)), made') := by
      intro made
      obtain ⟨made', hrun⟩ := @listChanged_run _ _ number _ _ _ h cursor pageToken made
      rw [hstart, hl] at hrun
      exact ⟨made', hrun⟩
    have hsplit : (l.filter fun m => decide (number cursor ≤ number m.receivedTime)) =
        ((l.take 200).filter fun m => decide (number cursor ≤ number m.receivedTime)) ++
          (l.drop 200).filter fun m => decide (number cursor ≤ number m.receivedTime) := by
      rw [← List.filter_append, List.take_append_drop]
    rcases @changePage_next _ _ number _ cursor start hsorted with ⟨hnext, hlong⟩ | ⟨hnext, hnil⟩
    · have hdrop : snapshot.drop (start + 200 - 1) = l.drop 200 := by
        rw [← hl, List.drop_drop]
        congr 1
        omega
      have hshorter : (l.drop 200).length < n := by
        rw [List.length_drop]
        omega
      obtain ⟨later, hrun, hids, hcursors⟩ := ih _ hshorter (hsorted.sublist (List.drop_sublist 200 l))
        (some (toString (start + 200))) (tokenNumber_toString _) (by omega) hdrop rfl
      refine ⟨changePage number cursor (start + 200) 200 ((l.drop 200).take 200) :: later, ?_, ?_, ?_⟩
      · intro fuel hfuel made
        obtain ⟨fuel, rfl⟩ : ∃ k, fuel = k + 1 := ⟨fuel - 1, by omega⟩
        obtain ⟨made', hmade⟩ := hpage made
        exact followPages_more hmade hnext (hrun fuel (by rw [List.length_drop]; omega) made')
      · rw [List.flatMap_cons, hids, changePage_ids, hsplit, List.map_append]
      · intro page hmem
        rcases List.mem_cons.mp hmem with rfl | hmem
        · rw [changePage_cursor, if_neg (by omega)]
        · exact hcursors page hmem
    · refine ⟨[], ?_, ?_, List.forall_mem_nil _⟩
      · intro fuel hfuel made
        obtain ⟨fuel, rfl⟩ : ∃ k, fuel = k + 1 := ⟨fuel - 1, by omega⟩
        obtain ⟨made', hmade⟩ := hpage made
        exact followPages_last fuel hmade hnext
      · rw [List.flatMap_singleton, changePage_ids, hsplit, hnil, List.append_nil]

/-- The listing ends; its pages hold the ids from the cursor on, in the order of the mailbox, and
only the first one reports a cursor, the received time of the newest message. -/
theorem changes_exact (number : String → ν) (z : Surroundings) (connection : ProviderConnection)
    (snapshot : List ZohoMessage) (cursor : String) (h : Serves z connection snapshot)
    (hsorted : snapshot.Pairwise fun m n => number n.receivedTime ≤ number m.receivedTime) :
    ∃ first later, (∀ fuel, snapshot.length / 200 + 1 ≤ fuel → ∀ made,
        (followPages (listChangedMessageIds z number connection cursor) fuel none made).1 =
          .ok (some (first :: later))) ∧
      (first :: later).flatMap (·.messageIds) =
        (snapshot.filter fun m => decide (number cursor ≤ number m.receivedTime)).map
          (·.messageId) ∧
      first.cursor = snapshot.head?.map (·.receivedTime) ∧
      (∀ newest ∈ first.cursor, ∀ m ∈ snapshot, number m.receivedTime ≤ number newest) ∧
      (first.cursor = none ↔ snapshot = []) ∧ ∀ page ∈ later, page.cursor = none := by
  obtain ⟨later, hrun, hids, hcursors⟩ :=
    @followPages_from _ _ number _ _ _ _ 1 h cursor hsorted none rfl Nat.one_pos rfl
  have hcursor : (changePage number cursor 1 200 (snapshot.take 200)).cursor = snapshot.head?.map
      (·.receivedTime) := by
    rw [changePage_cursor, if_pos rfl, List.head?_take, if_neg (by decide)]
  refine ⟨_, later, hrun, hids, hcursor, ?_, ?_, hcursors⟩
  · intro newest hnewest m hm
    rw [hcursor] at hnewest
    cases snapshot with
    | nil => cases hm
    | cons top rest =>
      obtain rfl := Option.some.inj hnewest
      rcases List.mem_cons.mp hm with rfl | hrest
      · exact le_refl _
      · exact List.rel_of_pairwise_cons hsorted hrest
  · rw [hcursor, Option.map_eq_none_iff, List.head?_eq_none_iff]

end Listing

/-! ### A server of pages -/

/-- What stands before the start in the URL of a page. -/
def viewFront (centre : Centre) (connection : ProviderConnection) : List Char :=
  (printed centre.mail ++ "/api/accounts/" ++ connection.providerAccountId ++
    "/messages/view?start=").toList

/-- The start that the last call asks for. -/
def askedStart (centre : Centre) (connection : ProviderConnection) (made : List FetchCall) : ℕ :=
  match made.getLast? with
  | none => 0
  | some c => Nat.ofDigitChars 10
    ((c.url.toList.drop (viewFront centre connection).length).takeWhile Char.isDigit) 0

def servePage (centre : Centre) (connection : ProviderConnection) (snapshot : List ZohoMessage)
    (made : List FetchCall) :
    Except String Reply :=
  .ok ⟨200, some "", none, none,
    some ((snapshot.drop (askedStart centre connection made - 1)).take 200)⟩

theorem askedStart_request (centre : Centre) (connection : ProviderConnection)
    (made : List FetchCall) (start : ℕ) :
    askedStart centre connection (made ++ [requestCall centre connection (view start 200)]) =
      start := by
  have hurl : (requestCall centre connection (view start 200)).url.toList =
      viewFront centre connection ++
        (Nat.toDigits 10 start ++ '&' :: "limit=200&sortBy=date&sortorder=false".toList) := by
    have hdigits : (toString start).toList = Nat.toDigits 10 start := by
      rw [Nat.toString_eq_repr, Nat.toList_repr]
    unfold requestCall apiCall view viewFront
    simp only [String.toList_append, hdigits, List.append_assoc]
    rfl
  unfold askedStart
  rw [List.getLast?_concat]
  simp only [hurl, List.drop_left]
  rw [List.takeWhile_append_of_pos fun c hc => Nat.isDigit_of_mem_toDigits (by decide) (by decide) hc,
    List.takeWhile_cons_of_neg (by decide), List.append_nil, Nat.ofDigitChars_ten_toDigits]

/-- Every mailbox can be served so. -/
theorem serves_servePage {z : Surroundings} {connection : ProviderConnection} {centre : Centre}
    (snapshot : List ZohoMessage)
    (hresolve : resolveLocation z (locationOf connection) = .ok centre)
    (hworld : z.world = servePage centre connection snapshot) : Serves z connection snapshot := by
  refine ⟨centre, hresolve, ?_⟩
  intro made start
  refine ⟨_, by rw [hworld]; rfl, rfl, ?_⟩
  rw [askedStart_request]

/-- Two messages in one millisecond at the cursor, and an older one. -/
def sampleMailbox : List ZohoMessage := [⟨"m4", "1000"⟩, ⟨"m3", "900"⟩, ⟨"m2", "900"⟩, ⟨"m1", "800"⟩]

def sampleConnection : ProviderConnection := ⟨"zoho-token", "acct-9", [("location", "in")]⟩

def sampleCentre : Centre := ⟨"in", some "https://accounts.zoho.in", some "https://mail.zoho.in"⟩

def sampleZoho : Surroundings where
  world := servePage sampleCentre sampleConnection sampleMailbox
  toLowerCase := id
  now := 0
  clientId := "id"
  clientSecret := "secret"
  redirectUri := "https://app.example/oauth/zoho/callback"

theorem changes_exact_sample : ∃ (first : ChangePage) (later : List ChangePage),
    (first :: later).flatMap (·.messageIds) = ["m4", "m3", "m2"] ∧ first.cursor = some "1000" := by
  have hserves : Serves sampleZoho sampleConnection sampleMailbox :=
    @serves_servePage _ _ sampleCentre sampleMailbox rfl rfl
  have hsorted : sampleMailbox.Pairwise fun m n =>
      tokenNumber n.receivedTime ≤ tokenNumber m.receivedTime := by decide
  obtain ⟨first, later, -, hids, hcursor, -⟩ := changes_exact tokenNumber _ _ _ "900" hserves hsorted
  exact ⟨first, later, hids, hcursor⟩

/-! ### The mailbox of a sync run -/

/-- A message of the mailbox as Zoho lists it. -/
def listed (m : Mail) : ZohoMessage := ⟨m.id, toString m.stamp⟩

/-- The page of a sync run is the page of the adapter. -/
theorem zohoListChanged_eq (box : Mailbox) (cursor : ℕ) (pageToken : Option ℕ) :
    let page := changePage tokenNumber (toString cursor) (pageToken.getD 1) 200
      ((EmailIngestion.view box (pageToken.getD 1) 200).map listed)
    page.messageIds = (zohoListChanged box cursor pageToken).messageIds ∧
      page.nextPageToken = (zohoListChanged box cursor pageToken).nextPageToken.map toString ∧
      page.cursor = (zohoListChanged box cursor pageToken).cursor.map toString := by
  have hfresh : ((EmailIngestion.view box (pageToken.getD 1) 200).map listed).filter
      (fun m => decide (tokenNumber (toString cursor) ≤ tokenNumber m.receivedTime)) =
      ((EmailIngestion.view box (pageToken.getD 1) 200).filter fun m =>
        decide (cursor ≤ m.stamp)).map listed := by
    rw [List.filter_map]
    congr 2
    funext m
    simp only [Function.comp_apply, listed, tokenNumber_toString]
  simp only [changePage, zohoListChanged, hfresh, List.map_map, List.length_map, List.head?_map,
    Option.map_map]
  refine ⟨rfl, ?_, ?_⟩
  · split_ifs
    · rfl
    · rfl
  · split_ifs
    · rw [Option.map_map]
      rfl
    · rfl

end Finlytic.EmailIngestion.Zoho
