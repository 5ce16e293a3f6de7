import Finlytic.Web.LiveUpdates

/-! How the pages of live updates come and go. A mounted page has exactly one thing
pending: a connection, a reconnect to be scheduled, or a timer. Once it is gone it
asks for no connection again. On the server a connection that is over is not
written to any more; one whose `close` came too early stays subscribed for good. -/

namespace Finlytic.Web

open Lib EmailIngestion

variable {json : EventJson} {w w' : Live} {c c' : Connection} {page : LivePage} {i j n : ℕ}
  {a : Step}

/-! ### Pages that are gone -/

/-- The page is gone, nothing is left to fire, and all its connections are among the first `n`. -/
structure Gone (w : Live) (j n : ℕ) (handled : List SyncEvent) : Prop where
  page : ∃ page, w.pages[j]? = some page ∧ page.aborted = true ∧ page.timers = [] ∧
    page.handled = handled
  requests : ∀ (i : ℕ) (c : Connection), w.connections[i]? = some c → c.page = j → i < n

variable {handled : List SyncEvent}

/-- Connections move, and each stays its page's. -/
theorem Gone.connections (h : Gone w j n handled) {connections : List Connection}
    {pages : List LivePage} {timerIds : ℕ}
    (hback : ∀ (i : ℕ) (c' : Connection), connections[i]? = some c' → c'.page = j →
      ∃ c, w.connections[i]? = some c ∧ c.page = j)
    (hpage : ∃ page, pages[j]? = some page ∧ page.aborted = true ∧ page.timers = [] ∧ page.handled =
      handled) :
    Gone { w with connections, pages, timerIds } j n handled where
  page := hpage
  requests i c' hc' hj := by
    obtain ⟨c, hc, hcj⟩ := hback i c' hc' hj
    exact h.requests i c hc hcj

theorem page_of_set (hi : w.connections[i]? = some c) (hpage : c'.page = c.page) {k : ℕ}
    {x : Connection} (hx : (w.connections.set i c')[k]? = some x) (hj : x.page = j) :
    ∃ y, w.connections[k]? = some y ∧ y.page = j := by
  rcases getElem?_set_cases hx with ⟨rfl, rfl⟩ | ⟨-, hx⟩
  · exact ⟨c, hi, hpage.symm.trans hj⟩
  · exact ⟨x, hx, hj⟩

theorem Gone.onConnection (h : Gone w j n handled) {enabled : Connection → Bool}
    {next : Connection → Connection} (hnext : ∀ c, (next c).page = c.page)
    (hs : onConnection w i enabled next = some w') : Gone w' j n handled := by
  obtain ⟨c, hc, -, rfl⟩ := onConnection_some hs
  exact h.connections (fun k x hx hj => page_of_set hc (hnext c) hx hj) h.page

/-- A page that is gone reads nothing; its `consume` only settles. -/
theorem Gone.onReader (h : Gone w j n handled) {enabled : Connection → LivePage → Bool}
    {next : Connection → LivePage → Connection × LivePage}
    (hconnection : ∀ c page, (next c page).1.page = c.page)
    (hpage : ∀ c page, enabled c page = true → page.aborted = true → (next c page).2.aborted =
      true ∧ (next c page).2.timers = page.timers ∧ (next c page).2.handled = page.handled)
    (hs : onReader w i enabled next = some w') : Gone w' j n handled := by
  obtain ⟨c, page, hc, hget, -, henabled, rfl⟩ := onReader_some hs
  refine h.connections (fun k x hx hj => page_of_set hc (hconnection c page) hx hj) ?_
  obtain ⟨mine, hmine, haborted, htimers, hhandled⟩ := h.page
  by_cases hj : c.page = j
  · subst hj
    obtain rfl := Option.some.inj (hget.symm.trans hmine)
    obtain ⟨h1, h2, h3⟩ := hpage c page henabled haborted
    exact ⟨_, getElem?_set_same _ hget, h1, h2.trans htimers, h3.trans hhandled⟩
  · exact ⟨mine, (List.getElem?_set_ne hj).trans hmine, haborted, htimers, hhandled⟩

theorem Gone.begin (h : Gone w j n handled) {k : ℕ} (hne : k ≠ j) (page : LivePage) :
    Gone (begin w k page) j n handled := by
  refine h.connections (fun i x hx hj => ?_) ?_
  · rcases getElem?_concat_cases hx with hx | ⟨-, rfl⟩
    · exact ⟨x, hx, hj⟩
    · exact absurd hj hne
  · obtain ⟨mine, hmine, hrest⟩ := h.page
    exact ⟨mine, (List.getElem?_set_ne hne).trans hmine, hrest⟩

theorem Gone.step (h : Gone w j n handled) (hs : live json w a = some w') :
    Gone w' j n handled := by
  obtain ⟨mine, hmine, haborted, htimers, hhandled⟩ := h.page
  cases a with
  | account id userId =>
    obtain ⟨-, heq⟩ := Option.ite_none_left_eq_some.mp hs
    cases heq
    exact ⟨h.page, h.requests⟩
  | job jobId outcome =>
    obtain rfl := Option.some.inj hs
    cases publish jobId outcome with
    | none => exact h
    | some event =>
      refine ⟨h.page, fun k x hx hj => ?_⟩
      rw [List.getElem?_map] at hx
      obtain ⟨c, hc, rfl⟩ := Option.map_eq_some_iff.mp hx
      rw [offer_eq] at hj
      exact h.requests k c hc hj
  | list i =>
    refine h.onConnection ?_ hs
    exact fun _ => rfl
  | listFails i =>
    refine h.onConnection ?_ hs
    exact fun _ => rfl
  | heartbeat i => exact h.onConnection (fun c => by rw [offer_eq]) hs
  | cut i =>
    refine h.onConnection ?_ hs
    exact fun _ => rfl
  | close i =>
    refine h.onConnection ?_ hs
    exact fun _ => rfl
  | «open» i =>
    refine h.onReader ?_ ?_ hs
    · exact fun _ _ => rfl
    · intro c page henabled hgone
      rw [hgone] at henabled
      cases henabled
  | deliver i n =>
    refine h.onReader ?_ ?_ hs
    · exact fun _ _ => rfl
    · intro c page henabled hgone
      rw [hgone] at henabled
      cases henabled
  | settle i =>
    refine h.onReader ?_ ?_ hs
    · exact fun _ _ => rfl
    · exact fun c page _ hgone => ⟨hgone, rfl, rfl⟩
  | schedule k =>
    obtain ⟨page, hget, -, rfl⟩ := onPage_some hs
    unfold scheduleReconnect
    by_cases hk : k = j
    · subst hk
      obtain rfl := Option.some.inj (hget.symm.trans hmine)
      rw [if_pos haborted]
      refine h.connections (fun i x hx hj => ⟨x, hx, hj⟩) ?_
      exact ⟨_, getElem?_set_same _ hget, haborted, htimers, hhandled⟩
    · have hother : ∀ page', ∃ mine', (w.pages.set k page')[j]? = some mine' ∧ mine'.aborted =
        true ∧ mine'.timers = [] ∧
          mine'.handled = handled := fun page' =>
        ⟨mine, (List.getElem?_set_ne hk).trans hmine, haborted, htimers, hhandled⟩
      by_cases hpage : page.aborted
      · rw [if_pos hpage]
        exact h.connections (fun i x hx hj => ⟨x, hx, hj⟩) (hother _)
      · rw [if_neg hpage]
        exact h.connections (fun i x hx hj => ⟨x, hx, hj⟩) (hother _)
  | fire k t =>
    obtain ⟨page, hget, hlt, rfl⟩ := onPage_some hs
    refine h.begin ?_ _
    rintro rfl
    obtain rfl := Option.some.inj (hget.symm.trans hmine)
    rw [htimers] at hlt
    cases hlt
  | mount userId =>
    obtain rfl := Option.some.inj hs
    have hlt := (List.getElem?_eq_some_iff.mp hmine).1
    have hmore :
        Gone { w with pages := w.pages ++ [⟨userId, false, 0, none, [], 0, [], []⟩] } j n handled :=
      ⟨⟨mine, (List.getElem?_append_left hlt).trans hmine, haborted, htimers, hhandled⟩, h.requests⟩
    exact hmore.begin (Nat.ne_of_gt hlt) _
  | unmount k =>
    obtain ⟨page, hget, henabled, rfl⟩ := onPage_some hs
    refine h.connections (fun i x hx hj => ⟨x, hx, hj⟩) ?_
    by_cases hk : k = j
    · subst hk
      obtain rfl := Option.some.inj (hget.symm.trans hmine)
      rw [haborted] at henabled
      cases henabled
    · exact ⟨mine, (List.getElem?_set_ne hk).trans hmine, haborted, htimers, hhandled⟩

/-! ### Connections that are over, and those that never will be -/

/-- What stays as it is on the server. -/
structure Fate (c c' : Connection) : Prop where
  ended : c.serving = .ended → c'.serving = .ended ∧ c'.written = c.written
  missed : c.closed = true → c.serving = .subscribed → c'.closed = true ∧ c'.serving = .subscribed

theorem Fate.refl (c : Connection) : Fate c c := ⟨fun h => ⟨h, rfl⟩, fun h h' => ⟨h, h'⟩⟩

theorem Fate.trans {c'' : Connection} (h : Fate c c') (h' : Fate c' c'') : Fate c c'' where
  ended hended := by
    obtain ⟨hended', hwritten⟩ := h.ended hended
    obtain ⟨hended'', hwritten'⟩ := h'.ended hended'
    exact ⟨hended'', hwritten'.trans hwritten⟩
  missed hclosed hsubscribed := by
    obtain ⟨hclosed', hsubscribed'⟩ := h.missed hclosed hsubscribed
    exact h'.missed hclosed' hsubscribed'

theorem Fate.offer (tick : Tick) (c : Connection) : Fate c (offer json tick c) := by
  rw [offer_eq]
  refine ⟨fun hended => ⟨hended, ?_⟩, fun hclosed hsubscribed => ⟨hclosed, hsubscribed⟩⟩
  have hnot : ¬ (c.serving = .subscribed ∧ passes c.owned tick) := by
    rintro ⟨hcontra, -⟩
    rw [hended] at hcontra
    cases hcontra
  rw [if_neg hnot, List.append_nil]

/-- Every connection is still there, and its fate is kept. -/
def Onward (w w' : Live) : Prop :=
  ∀ (i : ℕ) (c : Connection), w.connections[i]? = some c → ∃ c', w'.connections[i]? = some c' ∧
    Fate c c'

theorem Onward.set (hi : w.connections[i]? = some c) (hfate : Fate c c') {k : ℕ} {x : Connection}
    (hx : w.connections[k]? = some x) :
    ∃ y, (w.connections.set i c')[k]? = some y ∧ Fate x y := by
  by_cases hk : i = k
  · subst hk
    obtain rfl := Option.some.inj (hi.symm.trans hx)
    exact ⟨c', getElem?_set_same _ hi, hfate⟩
  · exact ⟨x, (List.getElem?_set_ne hk).trans hx, .refl x⟩

theorem Onward.onConnection {enabled : Connection → Bool} {next : Connection → Connection}
    (hnext : ∀ c, enabled c = true → Fate c (next c))
    (hs : onConnection w i enabled next = some w') : Onward w w' := by
  obtain ⟨c, hc, henabled, rfl⟩ := onConnection_some hs
  exact fun k x hx => Onward.set hc (hnext c henabled) hx

theorem Onward.onReader {enabled : Connection → LivePage → Bool}
    {next : Connection → LivePage → Connection × LivePage}
    (hnext : ∀ c page, Fate c (next c page).1) (hs : onReader w i enabled next = some w') :
    Onward w w' := by
  obtain ⟨c, page, hc, -, -, -, rfl⟩ := onReader_some hs
  exact fun k x hx => Onward.set hc (hnext c page) hx

theorem Onward.begin (w : Live) (page : LivePage) : Onward w (begin w j page) := fun _ x hx =>
  ⟨x, (List.getElem?_append_left (List.getElem?_eq_some_iff.mp hx).1).trans hx, .refl x⟩

end Finlytic.Web
