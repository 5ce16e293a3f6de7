import Finlytic.Web.EventStream
import Finlytic.Web.LiveStreams

/-! What the pages learn in every run of live updates. A page handles events of its
user's accounts only, each at most once and in the order in which they were
published, across all its reconnects; and while it is connected, every event whose
frame has arrived. -/

namespace Finlytic.Web

open Lib Jws Separator EmailIngestion

variable {json : EventJson} {w w' : Live} {c c' : Connection} {page page' : LivePage} {i j : ℕ}

/-! ### The reader -/

/-- More text, more events; those that were handled stay. -/
theorem handled_mono {chunks more : List (List Char)} (h : chunks.flatten <+: more.flatten) :
    (consume json chunks).handled <+: (consume json more).handled := by
  obtain ⟨rest, hrest⟩ := h
  rw [handled_consume, handled_consume, framesOf_eq, framesOf_eq, ← hrest]
  unfold splitFrames
  rw [cut_append, List.filterMap_append]
  exact List.prefix_append _ _

/-- The events of the caller's accounts among the ticks. -/
def eventsOf (owned : List String) (ticks : List Tick) : List SyncEvent :=
  (ticks.filter (passes owned)).filterMap eventOf

theorem handled_events (owned : List String) (ticks : List Tick) :
    (consume json [events json owned ticks]).handled = eventsOf owned ticks := by
  have hunfinished : [] ≠ frameOf json .heartbeat := by
    show [] ≠ ": ping\n\n".toList
    decide
  refine consume_events json owned ticks .heartbeat [] List.nil_prefix hunfinished _ ?_
  rw [List.flatten_singleton, List.append_nil]

/-- The characters that a number of octets of a text make complete. -/
theorem run_take (octets : List UInt8) (n : ℕ) :
    (Utf8.run none (octets.take n)).1 <+: (Utf8.run none octets).1 := by
  conv_rhs => rw [← List.take_append_drop n octets, Utf8.run_append]
  exact List.prefix_append _ _

/-- Whatever part of the octets of a stream has arrived, in whatever pieces: the handled events
are first ones of the stream, and all those whose frames have arrived are among them. -/
theorem handled_arrived {owned : List String} {ticks : List Tick} {sent : ℕ}
    {chunks : List (List Char)}
    (h : chunks.flatten = (Utf8.run none ((utf8Octets (events json owned ticks)).take sent)).1) :
    (consume json chunks).handled <+: eventsOf owned ticks ∧
    ∀ done later, ticks = done ++ later → (utf8Octets (events json owned done)).length ≤ sent →
      eventsOf owned done <+: (consume json chunks).handled := by
  constructor
  · rw [← @handled_events json]
    apply handled_mono
    rw [h, List.flatten_singleton]
    refine (run_take _ _).trans ?_
    rw [Utf8.run_utf8Octets]
  · intro done later hticks hlen
    rw [← @handled_events json]
    apply handled_mono
    rw [h, List.flatten_singleton]
    have hfront : utf8Octets (events json owned done) <+: utf8Octets (events json owned ticks) := by
      rw [hticks]
      unfold events
      rw [List.filter_append, List.flatMap_append, ← List.append_assoc,
        Utf8.utf8Octets_append _ ((later.filter _).flatMap _)]
      exact List.prefix_append _ _
    have htake : (utf8Octets (events json owned done)) =
        ((utf8Octets (events json owned ticks)).take sent).take
          (utf8Octets (events json owned done)).length := by
      rw [List.take_take, Nat.min_eq_left hlen]
      exact List.prefix_iff_eq_take.mp hfront
    have hrun := run_take ((utf8Octets (events json owned ticks)).take sent)
      (utf8Octets (events json owned done)).length
    rwa [← htake, Utf8.run_utf8Octets] at hrun

/-! ### Connections -/

/-- What a connection was told of since it subscribed. -/
structure Told (json : EventJson) (published : List SyncEvent) (c : Connection)
    (ticks : List Tick) : Prop where
  written : c.written = events json c.owned ticks
  since : c.since ≤ published.length
  events : ticks.filterMap eventOf <+: published.drop c.since
  current : c.serving = .subscribed → ticks.filterMap eventOf = published.drop c.since

structure ConnectionInv (json : EventJson) (accounts : List (String × String))
    (published : List SyncEvent) (c : Connection) :
    Prop where
  silent : c.serving = .listing → c.written = []
  begun : c.serving = .subscribed → c.written ≠ []
  told : c.written ≠ [] → ∃ ticks, Told json published c ticks
  owned : ∀ id ∈ c.owned, (id, c.userId) ∈ accounts
  sent : c.sent ≤ (utf8Octets c.written).length
  reading : ∃ chunks, c.consumer = consume json chunks ∧
    (chunks.flatten, c.decoder) = Utf8.run none ((utf8Octets c.written).take c.sent)

/-- What had been published when the connection subscribed, or has been by now. -/
def seen (published : List SyncEvent) (c : Connection) : List SyncEvent :=
  if c.written = [] then published else published.take c.since

variable {accounts : List (String × String)} {published : List SyncEvent}

theorem events_ne_nil (owned : List String) (ticks : List Tick) : events json owned ticks ≠ [] :=
  List.cons_ne_nil _ _

theorem events_concat (owned : List String) (ticks : List Tick) (tick : Tick) :
    events json owned (ticks ++ [tick]) = events json owned ticks ++ if passes owned tick then
      frameOf json tick else [] := by
  unfold events
  rw [List.filter_append, List.flatMap_append, List.append_assoc, List.filter_singleton]
  cases passes owned tick
  · rfl
  · rw [if_pos rfl, cond_true, List.flatMap_cons, List.flatMap_nil, List.append_nil]

theorem ConnectionInv.handled (h : ConnectionInv json accounts published c) {ticks : List Tick}
    (ht : Told json published c ticks) :
    c.consumer.handled <+: eventsOf c.owned ticks ∧
    ∀ done later, ticks = done ++ later → (utf8Octets (events json c.owned done)).length ≤ c.sent →
      eventsOf c.owned done <+: c.consumer.handled := by
  obtain ⟨chunks, hconsumer, hrun⟩ := h.reading
  rw [hconsumer]
  apply handled_arrived
  rw [← ht.written, ← hrun]

/-- Nothing was written, nothing was handled. -/
theorem ConnectionInv.handled_nil (h : ConnectionInv json accounts published c)
    (hw : c.written = []) : c.consumer.handled = [] := by
  obtain ⟨chunks, hconsumer, hrun⟩ := h.reading
  rw [hw] at hrun
  have hflat : chunks.flatten = [] := by
    have hnone : ((utf8Octets []).take c.sent) = [] := List.take_nil
    rw [hnone] at hrun
    exact congrArg Prod.fst hrun
  rw [hconsumer, handled_consume, framesOf_eq, hflat, splitFrames, cut_nil, List.filterMap_nil]

theorem eventsOf_sublist (owned : List String) (ticks : List Tick) :
    (eventsOf owned ticks).Sublist (ticks.filterMap eventOf) :=
  List.Sublist.filterMap _ List.filter_sublist

theorem mem_eventsOf {owned : List String} {ticks : List Tick} {event : SyncEvent}
    (h : event ∈ eventsOf owned ticks) :
    event.accountId ∈ owned := by
  obtain ⟨tick, htick, heq⟩ := List.mem_filterMap.mp h
  have hpass := (List.mem_filter.mp htick).2
  cases tick with
  | heartbeat => cases heq
  | sync e =>
    cases heq
    exact List.contains_iff_mem.mp hpass

/-- The handled events were published after what the connection had seen, and are its user's. -/
theorem ConnectionInv.heard (h : ConnectionInv json accounts published c) :
    (∀ earlier, earlier.Sublist (seen published c) →
      (earlier ++ c.consumer.handled).Sublist published) ∧
    ∀ e ∈ c.consumer.handled, (e.accountId, c.userId) ∈ accounts := by
  by_cases hw : c.written = []
  · rw [h.handled_nil hw, seen, if_pos hw]
    refine ⟨fun earlier hearlier => ?_, fun e he => ?_⟩
    · rwa [List.append_nil]
    · cases he
  · obtain ⟨ticks, ht⟩ := h.told hw
    have hfront := (h.handled ht).1
    rw [seen, if_neg hw]
    refine ⟨fun earlier hearlier => ?_, fun e he => h.owned _ (mem_eventsOf (hfront.subset he))⟩
    have hlater : c.consumer.handled.Sublist (published.drop c.since) :=
      hfront.sublist.trans ((eventsOf_sublist _ _).trans ht.events.sublist)
    rw [← List.take_append_drop c.since published]
    exact hearlier.append hlater

/-! ### What the server does to a connection -/

/-- A connection that the reader finds as it was. -/
structure Same (c c' : Connection) : Prop where
  page : c'.page = c.page
  userId : c'.userId = c.userId
  consumer : c'.consumer = c.consumer

/-- More was written; what has been read is still the front of it. -/
theorem reading_append (hsent : c.sent ≤ (utf8Octets c.written).length) (more : List Char) :
    c.sent ≤ (utf8Octets (c.written ++ more)).length ∧
      (utf8Octets (c.written ++ more)).take c.sent = (utf8Octets c.written).take c.sent := by
  rw [Utf8.utf8Octets_append, List.length_append, List.take_append_of_le_length hsent]
  exact ⟨Nat.le_add_right_of_le hsent, rfl⟩

theorem ConnectionInv.request (j : ℕ) (userId : String) :
    ConnectionInv json accounts published (request j userId) where
  silent _ := rfl
  begun h := nomatch h
  told h := absurd rfl h
  owned _ h := nomatch h
  sent := Nat.zero_le _
  reading := ⟨[], rfl, rfl⟩

theorem ConnectionInv.subscribe (h : ConnectionInv json w.accounts w.published c)
    (hlisting : c.serving = .listing) :
    ConnectionInv json w.accounts w.published (subscribe w c) ∧ Same c (subscribe w c) ∧
      seen w.published c <+: seen w.published (subscribe w c) := by
  have hw := h.silent hlisting
  have hsent : c.sent = 0 := by
    have hle := h.sent
    rw [hw] at hle
    exact Nat.le_zero.mp hle
  refine ⟨⟨?_, ?_, ?_, ?_, ?_, ?_⟩, ⟨rfl, rfl, rfl⟩, ?_⟩
  · intro hcontra
    cases hcontra
  · exact fun _ => @events_ne_nil json [] []
  · refine fun _ => ⟨[], rfl, Nat.le_refl _, List.nil_prefix, fun _ => ?_⟩
    exact List.drop_length.symm
  · intro id hid
    obtain ⟨a, ha, rfl⟩ := List.mem_map.mp hid
    obtain ⟨hmem, huser⟩ := List.mem_filter.mp ha
    rw [show (a.1, (Web.subscribe w c).userId) = a from Prod.ext rfl (of_decide_eq_true huser).symm]
    exact hmem
  · show c.sent ≤ _
    rw [hsent]
    exact Nat.zero_le _
  · obtain ⟨chunks, hconsumer, hrun⟩ := h.reading
    refine ⟨chunks, hconsumer, ?_⟩
    show (chunks.flatten, c.decoder) =
      Utf8.run none ((utf8Octets ": connected\n\n".toList).take c.sent)
    rw [hrun, hsent, List.take_zero, List.take_zero]
  · have hne : (Web.subscribe w c).written ≠ [] := @events_ne_nil json [] []
    rw [seen, if_pos hw, seen, if_neg hne]
    exact (List.take_length (l := w.published)).symm ▸ List.prefix_rfl

theorem offer_eq (tick : Tick) (c : Connection) : offer json tick c =
    { c with written := c.written ++ if c.serving = .subscribed ∧ passes c.owned tick then
      frameOf json tick else [] } := by
  unfold offer
  by_cases h : c.serving = .subscribed ∧ passes c.owned tick
  · rw [if_pos h, if_pos h]
  · rw [if_neg h, if_neg h, List.append_nil]

/-- A connection that listens is told of the tick, whether or not it lets it through. -/
theorem Told.offer {ticks : List Tick} (h : Told json published c ticks) (tick : Tick) :
    ∃ ticks', Told json (published ++ (eventOf tick).toList) (offer json tick c) ticks' := by
  have hdrop : (published ++ (eventOf tick).toList).drop c.since = published.drop c.since ++
      (eventOf tick).toList :=
    List.drop_append_of_le_length h.since
  have hsince : c.since ≤ (published ++ (eventOf tick).toList).length := by
    rw [List.length_append]
    exact Nat.le_add_right_of_le h.since
  rw [offer_eq]
  by_cases hs : c.serving = .subscribed
  · have hcurrent : (ticks ++ [tick]).filterMap eventOf =
        (published ++ (eventOf tick).toList).drop c.since := by
      rw [hdrop, ← h.current hs, List.filterMap_append]
      cases tick <;> rfl
    refine ⟨ticks ++ [tick], ?_, hsince, ?_, fun _ => hcurrent⟩
    · rw [events_concat, ← h.written]
      by_cases hp : passes c.owned tick
      · rw [if_pos ⟨hs, hp⟩, if_pos hp]
      · rw [if_neg fun hboth => hp hboth.2, if_neg hp]
    · rw [hcurrent]
  · rw [if_neg fun hboth => hs hboth.1, List.append_nil]
    refine ⟨ticks, h.written, hsince, ?_, fun hcontra => absurd hcontra hs⟩
    rw [hdrop]
    exact h.events.trans (List.prefix_append _ _)

/-- A tick is offered: what is published by then is what was published before, and the event of
the tick. -/
theorem ConnectionInv.offer (h : ConnectionInv json accounts published c) (tick : Tick) :
    ConnectionInv json accounts (published ++ (eventOf tick).toList) (offer json tick c) ∧
      Same c (offer json tick c) ∧
      seen published c <+: seen (published ++ (eventOf tick).toList) (offer json tick c) := by
  by_cases hw : c.written = []
  · -- no comment yet, so it does not listen
    have hs : c.serving ≠ .subscribed := fun hcontra => h.begun hcontra hw
    have hsame : Web.offer json tick c = c := if_neg fun hboth => hs hboth.1
    rw [hsame, seen, seen, if_pos hw, if_pos hw]
    refine ⟨⟨h.silent, h.begun, fun hcontra => absurd hw hcontra, h.owned, h.sent, h.reading⟩,
      ⟨rfl, rfl, rfl⟩, ?_⟩
    exact List.prefix_append _ _
  · obtain ⟨ticks, ht⟩ := h.told hw
    have htold := ht.offer tick
    rw [offer_eq] at htold ⊢
    obtain ⟨hsent, htake⟩ :=
      reading_append h.sent
      (if c.serving = .subscribed ∧ passes c.owned tick then frameOf json tick else [])
    have hne : c.written ++
        (if c.serving = .subscribed ∧ passes c.owned tick then frameOf json tick else []) ≠ [] :=
      List.append_ne_nil_of_left_ne_nil hw _
    refine ⟨⟨?_, fun _ => hne, fun _ => htold, h.owned, hsent, ?_⟩, ⟨rfl, rfl, rfl⟩, ?_⟩
    · exact fun hlisting => absurd (h.silent hlisting) hw
    · show ∃ chunks, c.consumer = consume json chunks ∧ (chunks.flatten, c.decoder) =
        Utf8.run none (List.take c.sent _)
      rw [htake]
      exact h.reading
    · rw [seen, if_neg hw, seen, if_neg hne, List.take_append_of_le_length ht.since]

/-- A step that changes neither what is written nor what is read. -/
theorem ConnectionInv.keep (h : ConnectionInv json accounts published c)
    (connected closed opened : Bool) {serving : Serving}
    (hlisting : serving = .listing → c.serving = .listing)
    (hsubscribed : serving = .subscribed → c.serving = .subscribed) :
    ConnectionInv json accounts published { c with connected, closed, opened, serving } where
  silent hs := h.silent (hlisting hs)
  begun hs := h.begun (hsubscribed hs)
  told hw := by
    obtain ⟨ticks, ht⟩ := h.told hw
    exact ⟨ticks, ht.written, ht.since, ht.events, fun hs => ht.current (hsubscribed hs)⟩
  owned := h.owned
  sent := h.sent
  reading := h.reading

/-- The octets that arrive are decoded and cut into frames where the last ones left off. -/
theorem ConnectionInv.readNext (h : ConnectionInv json accounts published c) (n : ℕ) :
    ConnectionInv json accounts published (readNext json c n) := by
  obtain ⟨chunks, hconsumer, hrun⟩ := h.reading
  have harriving : (utf8Octets c.written).take (c.sent + (arriving c n).length) =
      (utf8Octets c.written).take c.sent ++ arriving c n := by
    rw [List.take_add]
    congr 1
    unfold arriving
    rw [List.length_take, ← List.take_eq_take_min]
  have hlen : (arriving c n).length ≤ (utf8Octets c.written).length - c.sent := by
    unfold arriving
    rw [List.length_take, List.length_drop]
    exact Nat.min_le_right _ _
  refine ⟨h.silent, h.begun, ?_, h.owned, ?_, ?_⟩
  · intro hw
    obtain ⟨ticks, ht⟩ := h.told hw
    exact ⟨ticks, ht.written, ht.since, ht.events, ht.current⟩
  · show c.sent + (arriving c n).length ≤ _
    have hsent := h.sent
    show c.sent + (arriving c n).length ≤ (utf8Octets c.written).length
    omega
  · refine ⟨chunks ++ [(Utf8.run c.decoder (arriving c n)).1], ?_, ?_⟩
    · show read json c.consumer _ = _
      unfold consume at hconsumer ⊢
      rw [List.foldl_append, ← hconsumer]
      rfl
    · show (_, (Utf8.run c.decoder (arriving c n)).2) =
        Utf8.run none ((utf8Octets c.written).take (c.sent + (arriving c n).length))
      rw [harriving, Utf8.run_append, ← hrun, List.flatten_append, List.flatten_singleton]

/-! ### Pages -/

/-- One connection, one reconnect that is about to be scheduled, or one timer; and what the page
has handled. -/
structure PageInv (w : Live) (j : ℕ) (page : LivePage) : Prop where
  one : page.consuming.length + page.settled + page.timers.length ≤ 1
  busy : page.aborted = false → 1 ≤ page.consuming.length + page.settled + page.timers.length
  timers : ∀ t ∈ page.timers, page.aborted = false ∧ page.reconnectTimer = some t.1 ∧
    t.2 = backoff page.attempt
  reads : ∀ i ∈ page.consuming, ∃ c, w.connections[i]? = some c ∧ c.page = j ∧ c.userId = page.userId ∧
    ∃ earlier, page.handled = earlier ++ c.consumer.handled ∧ earlier.Sublist (seen w.published c)
  heard : page.handled.Sublist w.published
  theirs : ∀ e ∈ page.handled, (e.accountId, page.userId) ∈ w.accounts

structure LiveInv (json : EventJson) (w : Live) : Prop where
  connections : ∀ c ∈ w.connections, ConnectionInv json w.accounts w.published c
  pages : ∀ (j : ℕ) (page : LivePage), w.pages[j]? = some page → PageInv w j page

/-- Nothing that the page has read changes under it. -/
structure Still (w w' : Live) (j : ℕ) : Prop where
  accounts : ∀ a ∈ w.accounts, a ∈ w'.accounts
  published : w.published <+: w'.published
  connections : ∀ (i : ℕ) (c : Connection), w.connections[i]? = some c → c.page = j →
    ∃ c', w'.connections[i]? = some c' ∧ Same c c' ∧ seen w.published c <+: seen w'.published c'

theorem PageInv.still (h : PageInv w j page) (hs : Still w w' j) : PageInv w' j page where
  one := h.one
  busy := h.busy
  timers := h.timers
  reads i hi := by
    obtain ⟨c, hc, hpage, huser, earlier, hhandled, hearlier⟩ := h.reads i hi
    obtain ⟨c', hc', hsame, hseen⟩ := hs.connections i c hc hpage
    refine ⟨c', hc', hsame.page.trans hpage, hsame.userId.trans huser, earlier, ?_,
      hearlier.trans hseen.sublist⟩
    rw [hsame.consumer, hhandled]
  heard := h.heard.trans hs.published.sublist
  theirs e he := hs.accounts _ (h.theirs e he)

/-- A page reads at most one connection. -/
theorem PageInv.consuming_eq (h : PageInv w j page) (hi : i ∈ page.consuming) :
    page.consuming = [i] ∧ page.settled = 0 ∧ page.timers = [] := by
  have hone := h.one
  cases hconsuming : page.consuming with
  | nil =>
    rw [hconsuming] at hi
    cases hi
  | cons a rest =>
    rw [hconsuming, List.length_cons] at hone
    have hrest : rest = [] := List.length_eq_zero_iff.mp (by omega)
    rw [hconsuming, hrest, List.mem_singleton] at hi
    rw [hrest, hi]
    exact ⟨rfl, by omega, List.length_eq_zero_iff.mp (by omega)⟩

/-- One connection changes, and nothing that its reader has read. -/
theorem LiveInv.moveConnection (h : LiveInv json w) (hi : w.connections[i]? = some c)
    (hinv : ConnectionInv json w.accounts w.published c') (hsame : Same c c')
    (hseen : seen w.published c <+: seen w.published c') :
    LiveInv json { w with connections := w.connections.set i c' } where
  connections x hx := by
    rcases List.mem_or_eq_of_mem_set hx with hx | rfl
    · exact h.connections x hx
    · exact hinv
  pages j page hj := by
    refine (h.pages j page hj).still ⟨fun _ ha => ha, List.prefix_rfl, fun k x hx _ => ?_⟩
    by_cases hk : i = k
    · subst hk
      obtain rfl := Option.some.inj (hi.symm.trans hx)
      exact ⟨c', getElem?_set_same c' hi, hsame, hseen⟩
    · exact ⟨x, (List.getElem?_set_ne hk).trans hx, ⟨rfl, rfl, rfl⟩, List.prefix_rfl⟩

/-- One page moves, and no connection of another page. -/
theorem LiveInv.movePage (h : LiveInv json w) (hj : w.pages[j]? = some page)
    {connections : List Connection} {timerIds : ℕ}
    (hconnections : ∀ x ∈ connections, ConnectionInv json w.accounts w.published x)
    (hothers : ∀ (k : ℕ) (x : Connection), w.connections[k]? = some x → x.page ≠ j →
      connections[k]? = some x)
    (hinv : PageInv { w with connections, timerIds, pages := w.pages.set j page' } j page') :
    LiveInv json { w with connections, timerIds, pages := w.pages.set j page' } where
  connections := hconnections
  pages k other hk := by
    rcases getElem?_set_cases hk with ⟨rfl, rfl⟩ | ⟨hne, hother⟩
    · exact hinv
    · refine (h.pages k other hother).still ⟨fun _ ha => ha, List.prefix_rfl, fun l x hx hpage => ?_⟩
      exact ⟨x, hothers l x hx fun hcontra => hne (hpage.symm.trans hcontra), ⟨rfl, rfl, rfl⟩,
        List.prefix_rfl⟩

/-- A page moves together with the connection that it reads. -/
theorem LiveInv.moveReader (h : LiveInv json w) (hi : w.connections[i]? = some c)
    (hj : w.pages[c.page]? = some page) (hinv : ConnectionInv json w.accounts w.published c')
    (hpage : PageInv
      { w with connections := w.connections.set i c', pages := w.pages.set c.page page' } c.page
      page') :
    LiveInv json
      { w with connections := w.connections.set i c', pages := w.pages.set c.page page' } := by
  refine h.movePage hj (fun x hx => ?_) (fun k x hx hne => ?_) hpage
  · rcases List.mem_or_eq_of_mem_set hx with hx | rfl
    · exact h.connections x hx
    · exact hinv
  · have hk : i ≠ k := by
      rintro rfl
      exact hne (congrArg Connection.page (Option.some.inj (hx.symm.trans hi)))
    exact (List.getElem?_set_ne hk).trans hx

/-- An effect starts: its page has read nothing else, and a timer has fired or there never was
one. -/
theorem LiveInv.begin (h : LiveInv json w) {old : LivePage} (hj : w.pages[j]? = some old)
    (hconsuming : page.consuming = []) (hsettled : page.settled = 0) (htimers : page.timers = [])
    (hheard : page.handled.Sublist w.published)
    (htheirs : ∀ e ∈ page.handled, (e.accountId, page.userId) ∈ w.accounts) :
    LiveInv json (begin w j page) := by
  refine h.movePage hj (fun x hx => ?_) (fun k x hx _ => ?_) ⟨?_, fun _ => ?_, ?_, ?_, hheard, htheirs⟩
  · rcases List.mem_append.mp hx with hx | hx
    · exact h.connections x hx
    · rw [List.mem_singleton.mp hx]
      exact .request j page.userId
  · exact (List.getElem?_append_left (List.getElem?_eq_some_iff.mp hx).1).trans hx
  · simp [hconsuming, hsettled, htimers]
  · simp [hconsuming, hsettled, htimers]
  · intro t ht
    rw [show page.timers = [] from htimers] at ht
    cases ht
  · intro i hi
    rw [hconsuming, List.nil_append, List.mem_singleton] at hi
    subst hi
    refine ⟨request j page.userId, List.getElem?_concat_length, rfl, rfl, page.handled,
      (List.append_nil _).symm, ?_⟩
    exact hheard

/-! ### Steps -/

theorem onConnection_some {enabled : Connection → Bool} {next : Connection → Connection}
    (h : onConnection w i enabled next = some w') :
    ∃ c, w.connections[i]? = some c ∧ enabled c = true ∧
      w' = { w with connections := w.connections.set i (next c) } := by
  obtain ⟨c, hc, rfl⟩ := Option.map_eq_some_iff.mp h
  obtain ⟨hget, henabled⟩ := Option.filter_eq_some_iff.mp hc
  exact ⟨c, hget, henabled, rfl⟩

theorem onReader_some {enabled : Connection → LivePage → Bool} {next : Connection → LivePage → Connection × LivePage}
    (h : onReader w i enabled next = some w') :
      ∃ c page, w.connections[i]? = some c ∧ w.pages[c.page]? = some page ∧
      i ∈ page.consuming ∧ enabled c page = true ∧
      w' = { w with connections := w.connections.set i (next c page).1, pages := w.pages.set c.page (next c page).2 } := by
  obtain ⟨c, hc, h⟩ := Option.bind_eq_some_iff.mp h
  obtain ⟨page, hpage, rfl⟩ := Option.map_eq_some_iff.mp h
  obtain ⟨hget, henabled⟩ := Option.filter_eq_some_iff.mp hpage
  obtain ⟨hmem, henabled⟩ := Bool.and_eq_true_iff.mp henabled
  exact ⟨c, page, hc, hget, of_decide_eq_true hmem, henabled, rfl⟩

theorem onPage_some {enabled : LivePage → Bool} {next : LivePage → Live}
    (h : onPage w j enabled next = some w') :
    ∃ page, w.pages[j]? = some page ∧ enabled page = true ∧ w' = next page := by
  obtain ⟨page, hpage, rfl⟩ := Option.map_eq_some_iff.mp h
  obtain ⟨hget, henabled⟩ := Option.filter_eq_some_iff.mp hpage
  exact ⟨page, hget, henabled, rfl⟩

/-- A step of the server or the network on one connection. -/
theorem LiveInv.onConnection (h : LiveInv json w) {enabled : Connection → Bool}
    {next : Connection → Connection}
    (hnext : ∀ c, enabled c = true → ConnectionInv json w.accounts w.published c →
      ConnectionInv json w.accounts w.published (next c) ∧ Same c (next c) ∧ seen w.published c <+:
      seen w.published (next c))
    (hs : onConnection w i enabled next = some w') : LiveInv json w' := by
  obtain ⟨c, hc, henabled, rfl⟩ := onConnection_some hs
  obtain ⟨hinv, hsame, hseen⟩ := hnext c henabled (h.connections c (List.mem_of_getElem? hc))
  exact h.moveConnection hc hinv hsame hseen

/-- What is published reaches the connections, and no page reads it yet. -/
theorem LiveInv.publish (h : LiveInv json w) (event : SyncEvent) : LiveInv json
    { w with published := w.published ++ [event], connections :=
      w.connections.map (offer json (.sync event)) } where
  connections x hx := by
    obtain ⟨c, hc, rfl⟩ := List.mem_map.mp hx
    exact ((h.connections c hc).offer (.sync event)).1
  pages j page hj := by
    refine (h.pages j page hj).still ⟨fun _ ha => ha, List.prefix_append _ _, fun i c hc _ => ?_⟩
    obtain ⟨-, hsame, hseen⟩ := (h.connections c (List.mem_of_getElem? hc)).offer (.sync event)
    exact ⟨offer json (.sync event) c, by rw [List.getElem?_map, hc]; rfl, hsame, hseen⟩

theorem LiveInv.account (h : LiveInv json w) (a : String × String) :
    LiveInv json { w with accounts := w.accounts ++ [a] } where
  connections c hc :=
    have hinv := h.connections c hc
    ⟨hinv.silent, hinv.begun, hinv.told, fun id hid => List.mem_append_left _ (hinv.owned id hid),
      hinv.sent, hinv.reading⟩
  pages j page hj := (h.pages j page hj).still
    ⟨fun _ ha => List.mem_append_left _ ha, List.prefix_rfl, fun _ c hc _ =>
      ⟨c, hc, ⟨rfl, rfl, rfl⟩, List.prefix_rfl⟩⟩

/-- The turn of the loop adds what it handles to what the page has handled. -/
theorem readNext_handled (c : Connection) (n : ℕ) :
    (readNext json c n).consumer.handled = c.consumer.handled ++
    (splitFrames (c.consumer.buffer ++ (Utf8.run c.decoder (arriving c n)).1)).1.filterMap
      (handleFrame json) := rfl

theorem LiveInv.reader {enabled : Connection → LivePage → Bool} {next : Connection → LivePage → Connection × LivePage}
    (h : LiveInv json w)
      (hnext : ∀ c page, w.connections[i]? = some c → enabled c page = true → i ∈ page.consuming →
      PageInv w c.page page → ConnectionInv json w.accounts w.published c →
      ConnectionInv json w.accounts w.published (next c page).1 ∧
      PageInv { w with connections := w.connections.set i (next c page).1, pages := w.pages.set c.page (next c page).2 } c.page
        (next c page).2) (hs : onReader w i enabled next = some w') : LiveInv json w' := by
  obtain ⟨c, page, hc, hj, hi, henabled, rfl⟩ := onReader_some hs
  obtain ⟨hinv, hpage⟩ := hnext c page hc henabled hi (h.pages _ page hj) (h.connections c (List.mem_of_getElem? hc))
  exact h.moveReader hc hj hinv hpage

theorem LiveInv.open (h : LiveInv json w) (hs : live json w (.open i) = some w') : LiveInv json w' := by
  refine h.reader (fun c page hc _ hi hpage hinv => ⟨?_, ?_⟩) hs
  · exact hinv.keep c.connected c.closed true id id
  · obtain ⟨hconsuming, -, htimers⟩ := hpage.consuming_eq hi
    refine ⟨hpage.one, hpage.busy, ?_, ?_, hpage.heard, hpage.theirs⟩
    · intro t ht
      rw [show page.timers = [] from htimers] at ht
      cases ht
    · intro k hk
      rw [hconsuming, List.mem_singleton] at hk
      subst hk
      obtain ⟨x, hx, hof, huser, hearlier⟩ := hpage.reads k hi
      obtain rfl := Option.some.inj (hx.symm.trans hc)
      exact ⟨_, getElem?_set_same _ hc, hof, huser, hearlier⟩

theorem LiveInv.deliver {n : ℕ} (h : LiveInv json w) (hs : live json w (.deliver i n) = some w') :
    LiveInv json w' := by
  refine h.reader (fun c page hc _ hi hpage hinv => ⟨hinv.readNext n, ?_⟩) hs
  obtain ⟨hconsuming, -, htimers⟩ := hpage.consuming_eq hi
  obtain ⟨x, hx, hof, huser, earlier, hhandled, hearlier⟩ := hpage.reads i hi
  obtain rfl := Option.some.inj (hx.symm.trans hc)
  have hmore := (hinv.readNext n).heard
  have hnow : page.handled ++
    (splitFrames (x.consumer.buffer ++ (Utf8.run x.decoder (arriving x n)).1)).1.filterMap
      (handleFrame json) = earlier ++ (readNext json x n).consumer.handled := by
    rw [readNext_handled, hhandled, List.append_assoc]
  refine ⟨hpage.one, hpage.busy, hpage.timers, ?_, ?_, ?_⟩
  · intro k hk
    rw [hconsuming, List.mem_singleton] at hk
    subst hk
    exact ⟨_, getElem?_set_same _ hc, hof, huser, earlier, hnow, hearlier⟩
  · show (_ ++ _ : List SyncEvent).Sublist w.published
    rw [hnow]
    exact hmore.1 earlier hearlier
  · intro e he
    rw [hnow] at he
    rcases List.mem_append.mp he with he | he
    · exact hpage.theirs e (by rw [hhandled]; exact List.mem_append_left _ he)
    · have hmine := hmore.2 e he
      rw [show (readNext json x n).userId = page.userId from huser] at hmine
      exact hmine

theorem LiveInv.settle (h : LiveInv json w) (hs : live json w (.settle i) = some w') : LiveInv json w' := by
  refine h.reader (fun c page hc _ hi hpage hinv => ⟨?_, ?_⟩) hs
  · exact hinv.keep false c.closed c.opened id id
  · obtain ⟨hconsuming, hsettled, htimers⟩ := hpage.consuming_eq hi
    have herase : page.consuming.erase i = [] := by
      rw [hconsuming, List.erase_cons_head]
    refine ⟨?_, fun _ => ?_, hpage.timers, ?_, hpage.heard, hpage.theirs⟩
    · simp [herase, hsettled, htimers]
    · simp [herase, hsettled, htimers]
    · intro k hk
      rw [herase] at hk
      cases hk

theorem LiveInv.schedule (h : LiveInv json w) (hs : live json w (.schedule j) = some w') :
    LiveInv json w' := by
  obtain ⟨page, hj, hpos, rfl⟩ := onPage_some hs
  have hpage := h.pages j page hj
  have hone := hpage.one
  have hsettled : 0 < page.settled := of_decide_eq_true hpos
  have hconsuming : page.consuming = [] := List.length_eq_zero_iff.mp (by omega)
  have htimers : page.timers = [] := List.length_eq_zero_iff.mp (by omega)
  have hnone : ∀ k ∈ page.consuming, False := by simp [hconsuming]
  unfold scheduleReconnect
  cases haborted : page.aborted with
  | true =>
    refine h.movePage hj h.connections (fun _ _ hx _ => hx)
      ⟨?_, (fun hcontra => nomatch hcontra), ?_, fun k hk => (hnone k hk).elim, hpage.heard,
      hpage.theirs⟩
    · simp [hconsuming, htimers]
      omega
    · intro t ht
      rw [show page.timers = [] from htimers] at ht
      cases ht
  | false =>
    refine h.movePage hj h.connections (fun _ _ hx _ => hx)
      ⟨?_, fun _ => ?_, ?_, fun k hk => (hnone k hk).elim, hpage.heard, hpage.theirs⟩
    · simp [hconsuming, htimers]
      omega
    · simp [hconsuming, htimers]
    · intro t ht
      simp only [htimers, List.nil_append, List.mem_singleton] at ht
      subst ht
      exact ⟨rfl, rfl, rfl⟩

theorem LiveInv.fire {k : ℕ} (h : LiveInv json w) (hs : live json w (.fire j k) = some w') :
    LiveInv json w' := by
  obtain ⟨page, hj, hlt, rfl⟩ := onPage_some hs
  have hpage := h.pages j page hj
  have hone := hpage.one
  have hk : k < page.timers.length := of_decide_eq_true hlt
  refine h.begin hj ?_ ?_ ?_ hpage.heard hpage.theirs
  · apply List.length_eq_zero_iff.mp
    show page.consuming.length = 0
    omega
  · show page.settled = 0
    omega
  · apply List.length_eq_zero_iff.mp
    show (page.timers.eraseIdx k).length = 0
    rw [List.length_eraseIdx_of_lt hk]
    omega

theorem LiveInv.mount {userId : String} (h : LiveInv json w)
    (hs : live json w (.mount userId) = some w') : LiveInv json w' := by
  cases hs
  -- before `start` the page has nothing pending, as one that is gone
  have hnew : LiveInv json
      { w with pages := w.pages ++ [⟨userId, true, 0, none, [], 0, [], []⟩] } := by
    refine ⟨h.connections, fun k page hk => ?_⟩
    rcases getElem?_concat_cases hk with hk | ⟨-, rfl⟩
    · exact (h.pages k page hk).still
        ⟨fun _ ha => ha, List.prefix_rfl, fun _ c hc _ => ⟨c, hc, ⟨rfl, rfl, rfl⟩, List.prefix_rfl⟩⟩
    · exact ⟨Nat.zero_le _, (fun hcontra => nomatch hcontra), fun t ht =>
        (List.not_mem_nil ht).elim, fun i hi => (List.not_mem_nil hi).elim, List.nil_sublist _,
        fun e he => (List.not_mem_nil he).elim⟩
  have hbegun :
    LiveInv json
    (Web.begin { w with pages := w.pages ++ [⟨userId, true, 0, none, [], 0, [], []⟩] }
    w.pages.length
      ⟨userId, false, 0, none, [], 0, [], []⟩) :=
    hnew.begin List.getElem?_concat_length rfl rfl rfl (List.nil_sublist _) fun e he =>
      (List.not_mem_nil he).elim
  simpa [Web.begin] using hbegun

theorem LiveInv.unmount (h : LiveInv json w) (hs : live json w (.unmount j) = some w') :
    LiveInv json w' := by
  obtain ⟨page, hj, -, rfl⟩ := onPage_some hs
  have hpage := h.pages j page hj
  have hcleared : (Web.unmount page).timers = [] := by
    apply List.filter_eq_nil_iff.mpr
    intro t ht
    simp [(hpage.timers t ht).2.1]
  refine h.movePage hj h.connections (fun _ _ hx _ => hx)
    ⟨?_, (fun hcontra => nomatch hcontra), ?_, hpage.reads, hpage.heard, hpage.theirs⟩
  · have hone := hpage.one
    rw [hcleared]
    show page.consuming.length + page.settled + 0 ≤ 1
    omega
  · intro t ht
    rw [hcleared] at ht
    cases ht

theorem LiveInv.step {a : Step} (h : LiveInv json w) (hs : live json w a = some w') : LiveInv json w' := by
  cases a with
  | account id userId =>
    obtain ⟨-, heq⟩ := Option.ite_none_left_eq_some.mp hs
    cases heq
    exact h.account _
  | job jobId outcome =>
    obtain rfl := Option.some.inj hs
    cases EmailIngestion.publish jobId outcome with
    | none => exact h
    | some event => exact h.publish event
  | list i => exact h.onConnection (fun c hlisting hinv => hinv.subscribe
    (of_decide_eq_true hlisting)) hs
  | listFails i =>
    refine h.onConnection ?_ hs
    refine fun c _ hinv => ⟨?_, ⟨rfl, rfl, rfl⟩, List.prefix_rfl⟩
    exact hinv.keep c.connected c.closed c.opened (fun hcontra => nomatch hcontra) fun hcontra =>
      nomatch hcontra
  | heartbeat i =>
    refine h.onConnection (fun c _ hinv => ?_) hs
    have hoffered := hinv.offer .heartbeat
    rwa [show w.published ++ (eventOf .heartbeat).toList = w.published from
      List.append_nil _] at hoffered
  | cut i =>
    refine h.onConnection ?_ hs
    refine fun c _ hinv => ⟨?_, ⟨rfl, rfl, rfl⟩, List.prefix_rfl⟩
    exact hinv.keep false c.closed c.opened id id
  | close i =>
    refine h.onConnection ?_ hs
    refine fun c _ hinv => ⟨?_, ⟨rfl, rfl, rfl⟩, List.prefix_rfl⟩
    refine hinv.keep c.connected true c.opened (fun hlisting => ?_) fun hsubscribed => ?_
    · split_ifs at hlisting
      exact hlisting
    · split_ifs at hsubscribed
      exact hsubscribed
  | «open» i => exact h.open hs
  | deliver i n => exact h.deliver hs
  | settle i => exact h.settle hs
  | schedule j => exact h.schedule hs
  | fire j k => exact h.fire hs
  | mount userId => exact h.mount hs
  | unmount j => exact h.unmount hs

end Finlytic.Web
