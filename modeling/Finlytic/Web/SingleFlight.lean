import Finlytic.UserManagement.Issuance
import Finlytic.Web.Client

/-! The single-flight rule across pages. `refreshInFlight` guards one page; the
cookie jar is shared by all of them. As long as no page starts a refresh while
the refresh of another page is unanswered, the token in the jar is unspent
whenever it is presented, so theft detection never fires on the browser itself.
Two pages that load together break the rule. -/

namespace Finlytic.Web

open Lib UserManagement

variable {cfg : Config} {b b' : Browser} {f : Flight} {k : ℕ}

/-- A token of a delivered response: the browser knows it. -/
def Known (b : Browser) (v : String) : Prop :=
  ∃ f ∈ b.flights, f.delivered = true ∧ ∃ j c, f.stage = .served j ∧ b.server.calls[j]? = some c ∧
    held c = some v

/-- What is true of an undelivered request and the call that serves it. -/
def Waiting (calls : List Call) (spends : List String) (f : Flight) : Prop :=
  match f.exchange, f.stage with
  | .refresh cookie, .served j => ∃ v c, cookie = some v ∧ calls[j]? = some c ∧ Serving spends v c
  | .refresh cookie, _ => ∀ v, cookie = some v → v ∉ spends
  | .login _ _, .served j => ∃ c, calls[j]? = some c ∧ loggingIn c = true
  | .login _ _, _ => True

/-- The protocol between the pages, the jar and the service. -/
structure Protocol (cfg : Config) (b : Browser) : Prop where
  tokens : HeldInv b.server
  settled : Settled cfg b.server.store
  sound : ∀ c ∈ b.server.calls, Sound cfg b.server.store c
  one : b.flights.countP outstanding ≤ 1
  served : ∀ f ∈ b.flights, ∀ j, f.stage = .served j →
    ∃ c, b.server.calls[j]? = some c ∧ (f.delivered = true → ∃ o, c = .done o)
  answered : ∀ f ∈ b.flights, f.delivered = true → f.stage ≠ .sent
  unique : ∀ (i k : ℕ) (f g : Flight) (j : ℕ), b.flights[i]? = some f → b.flights[k]? = some g →
    f.stage = .served j → g.stage = .served j → i = k
  owned : ∀ (j : ℕ) (c : Call), b.server.calls[j]? = some c → ∃ (k : ℕ) (f : Flight),
    b.flights[k]? = some f ∧ f.stage = .served j
  jar : ∀ v, b.jar = some v → Known b v
  cookies : ∀ f ∈ b.flights, ∀ v, f.exchange = .refresh (some v) → Known b v
  spent : ∀ t ∈ b.server.store.spends, ∃ f ∈ b.flights, f.exchange = .refresh (some t)
  jarSpent : ∀ v, b.jar = some v → v ∈ b.server.store.spends →
    ∃ f ∈ b.flights, f.delivered = false ∧ f.exchange = .refresh (some v)
  waiting : ∀ f ∈ b.flights, f.delivered = false → Waiting b.server.calls b.server.store.spends f

theorem protocol_blank (h : Blank b) : Protocol cfg b := by
  obtain ⟨⟨hc, hr, -, -, -, hs⟩, hu, hj, -, hf⟩ := h
  refine ⟨⟨?_, ?_⟩, ⟨hu, ?_, ?_⟩, ?_, ?_, ?_, ?_, ?_, ?_, ?_, ?_, ?_, ?_, ?_⟩
    <;> simp [hc, hr, hs, hj, hf]

/-- A call that has not answered serves a request whose page still waits. -/
theorem Protocol.request (h : Protocol cfg b) {j : ℕ} {c : Call}
    (hj : b.server.calls[j]? = some c) (hc : ∀ o, c ≠ .done o) :
    ∃ (k : ℕ) (f : Flight), b.flights[k]? = some f ∧ f.stage = .served j ∧ f.delivered = false ∧
      Waiting b.server.calls b.server.store.spends f := by
  obtain ⟨k, f, hk, hst⟩ := h.owned j c hj
  have hf := List.mem_of_getElem? hk
  obtain ⟨c', hc', hdone⟩ := h.served f hf j hst
  obtain rfl := Option.some.inj (hj.symm.trans hc')
  have hd : f.delivered = false := by
    by_contra hd
    obtain ⟨o, ho⟩ := hdone (by simpa using hd)
    exact hc o ho
  exact ⟨k, f, hk, hst, hd, h.waiting f hf hd⟩

/-- What is waiting for call `c`, by the kind of the request. -/
theorem waiting_served {calls : List Call} {spends : List String} {j : ℕ} {c : Call}
    (hw : Waiting calls spends f) (hst : f.stage = .served j) (hj : calls[j]? = some c) :
    (∃ v, f.exchange = .refresh (some v) ∧ Serving spends v c) ∨
      (f.exchange.isRefresh = false ∧ loggingIn c = true) := by
  cases hx : f.exchange with
  | refresh cookie =>
    simp only [Waiting, hx, hst] at hw
    obtain ⟨v, c', rfl, hc', hs⟩ := hw
    obtain rfl := Option.some.inj (hj.symm.trans hc')
    exact .inl ⟨v, rfl, hs⟩
  | login email password =>
    simp only [Waiting, hx, hst] at hw
    obtain ⟨c', hc', hl⟩ := hw
    obtain rfl := Option.some.inj (hj.symm.trans hc')
    exact .inr ⟨rfl, hl⟩

/-- Under the protocol theft detection has nothing to see. -/
theorem Protocol.undisturbed (h : Protocol cfg b) : Undisturbed cfg b := by
  refine ⟨fun f hf v hx hst => ?_, fun raw client hc => ?_, fun c hc => ?_, h.settled.revoked⟩
  · cases hd : f.delivered with
    | false =>
      have hw := h.waiting f hf hd
      simp only [Waiting, hx, hst] at hw
      exact hw v rfl
    | true => exact absurd hst (h.answered f hf hd)
  · obtain ⟨j, hj⟩ := List.mem_iff_getElem?.mp hc
    obtain ⟨k, f, hk, hst, hd, hw⟩ := h.request hj (fun o => by simp)
    obtain ⟨v, -, rfl, hv⟩ | ⟨-, hl⟩ := waiting_served hw hst hj
    · exact hv
    · cases hl
  · have hs := h.sound c hc
    cases c with
    | refreshReuse f | refreshInactive f | logoutRevoke f => exact hs.elim
    | _ => rfl

/-! ### Steps of the pages and the network -/

theorem Protocol.pages (h : Protocol cfg b) (pages : List Page) : Protocol cfg { b with pages } :=
  ⟨h.tokens, h.settled, h.sound, h.one, h.served, h.answered, h.unique, h.owned, h.jar, h.cookies,
    h.spent, h.jarSpent,
    h.waiting⟩

theorem Protocol.expire (h : Protocol cfg b) : Protocol cfg { b with jar := none } :=
  ⟨h.tokens, h.settled, h.sound, h.one, h.served, h.answered, h.unique, h.owned, (by simp),
    h.cookies, h.spent,
    (by simp), h.waiting⟩

theorem Known.send {v : String} (h : Known b v) (i : ℕ) (x : Exchange) : Known (send b i x) v := by
  obtain ⟨f, hf, hrest⟩ := h
  exact ⟨f, List.mem_append_left _ hf, hrest⟩

/-- A refresh goes out with the token in the jar, which no one has spent. -/
theorem Protocol.send (h : Protocol cfg b) (i : ℕ) {x : Exchange}
    (hx : ∀ cookie, x = .refresh cookie → cookie = b.jar ∧ ∀ f ∈ b.flights, outstanding f = false) :
    Protocol cfg (send b i x) := by
  have hmem : ∀ f ∈ (Web.send b i x).flights, f ∈ b.flights ∨ f = ⟨i, x, .sent, false⟩ := by
    intro f hf
    rcases List.mem_append.mp hf with hf | hf
    · exact .inl hf
    · exact .inr (List.mem_singleton.mp hf)
  have hold : ∀ (k : ℕ) (f : Flight) (j : ℕ), (Web.send b i x).flights[k]? = some f →
    f.stage = .served j →
      b.flights[k]? = some f := by
    intro k f j hk hst
    rcases getElem?_concat_cases hk with hk | ⟨-, rfl⟩
    · exact hk
    · cases hst
  refine ⟨h.tokens, h.settled, h.sound, ?_, ?_, ?_, ?_, ?_, fun v hv =>
    (h.jar v hv).send i x, ?_, ?_, ?_, ?_⟩
  · simp only [Web.send, List.countP_append, List.countP_singleton]
    cases x with
    | refresh cookie =>
      have hzero : b.flights.countP outstanding = 0 := by
        rw [List.countP_eq_zero]
        intro f hf
        simp [(hx cookie rfl).2 f hf]
      simp [hzero, outstanding, Exchange.isRefresh]
    | login email password => simpa [outstanding, Exchange.isRefresh] using h.one
  · intro f hf j hst
    rcases hmem f hf with hf | rfl
    · exact h.served f hf j hst
    · cases hst
  · intro f hf hd
    rcases hmem f hf with hf | rfl
    · exact h.answered f hf hd
    · cases hd
  · intro k l f g j hk hl hf hg
    exact h.unique k l f g j (hold k f j hk hf) (hold l g j hl hg) hf hg
  · intro j c hj
    obtain ⟨k, f, hk, hst⟩ := h.owned j c hj
    have hlt := (List.getElem?_eq_some_iff.mp hk).1
    exact ⟨k, f, by simp only [Web.send, List.getElem?_append_left hlt, hk], hst⟩
  · intro f hf v hv
    rcases hmem f hf with hf | rfl
    · exact (h.cookies f hf v hv).send i x
    · exact (h.jar v ((hx _ hv).1.symm)).send i x
  · intro t ht
    obtain ⟨f, hf, hfx⟩ := h.spent t ht
    exact ⟨f, List.mem_append_left _ hf, hfx⟩
  · intro v hv hs
    obtain ⟨f, hf, hrest⟩ := h.jarSpent v hv hs
    exact ⟨f, List.mem_append_left _ hf, hrest⟩
  · intro f hf hd
    rcases hmem f hf with hf | rfl
    · exact h.waiting f hf hd
    · cases x with
      | login email password => trivial
      | refresh cookie =>
        intro v hv hs
        obtain ⟨hjar, hnone⟩ := hx cookie rfl
        obtain ⟨g, hg, hgd, hgx⟩ := h.jarSpent v (hjar ▸ hv) hs
        have := hnone g hg
        simp [outstanding, hgx, hgd, Exchange.isRefresh] at this

/-- The calls go on from where they were. -/
def Extends (calls calls' : List Call) : Prop := ∀ (j : ℕ) (c : Call), calls[j]? = some c →
    calls'[j]? = some c

theorem Known.mono {v : String} (hv : Known b v) (hk : b.flights[k]? = some f)
    (hd : f.delivered = false) (g : Flight) (hf : b'.flights = b.flights.set k g)
    (hcalls : Extends b.server.calls b'.server.calls) : Known b' v := by
  obtain ⟨f', hf', hdel, j, c, hst, hj, hh⟩ := hv
  refine ⟨f', ?_, hdel, j, c, hst, hcalls j c hj, hh⟩
  rw [hf]
  rcases mem_set_or_eq g hk hf' with hmem | rfl
  · exact hmem
  · rw [hd] at hdel
    cases hdel

theorem Waiting.extends {calls calls' : List Call} {spends : List String}
    (h : Waiting calls spends f) (hcalls : Extends calls calls') : Waiting calls' spends f := by
  unfold Waiting at *
  split at h
  · obtain ⟨v, c, hv, hc, hs⟩ := h
    exact ⟨v, c, hv, hcalls _ _ hc, hs⟩
  · exact h
  · obtain ⟨c, hc, hl⟩ := h
    exact ⟨c, hcalls _ _ hc, hl⟩
  · trivial

/-- One undelivered flight moves on to `g`: the obligations are about `g` alone. -/
theorem Protocol.move (h : Protocol cfg b) (hk : b.flights[k]? = some f)
    (hd : f.delivered = false) {g : Flight} (hx : g.exchange = f.exchange)
    (hf : b'.flights = b.flights.set k g) (hstore : b'.server.store = b.server.store)
    (hcalls : Extends b.server.calls b'.server.calls) (htokens : HeldInv b'.server)
    (hsound : ∀ c ∈ b'.server.calls, Sound cfg b.server.store c)
    (hserved : ∀ j, g.stage = .served j → ∃ c, b'.server.calls[j]? = some c ∧
      (g.delivered = true → ∃ o, c = .done o))
    (hanswered : g.delivered = true → g.stage ≠ .sent)
    (hunique : ∀ j, g.stage = .served j → f.stage = .served j ∨ ∀ f' ∈ b.flights, f'.stage ≠
      .served j)
    (howned : ∀ (j : ℕ) (c : Call), b'.server.calls[j]? = some c → g.stage = .served j ∨
      (f.stage ≠ .served j ∧ ∃ c', b.server.calls[j]? = some c'))
    (hjar : ∀ v, b'.jar = some v → Known b' v)
    (hjarSpent : ∀ v, b'.jar = some v → v ∈ b.server.store.spends → ∃ f' ∈ b'.flights,
      f'.delivered = false ∧ f'.exchange = .refresh (some v))
    (hwaiting : g.delivered = false → Waiting b'.server.calls b.server.store.spends g) :
    Protocol cfg b' := by
  have hfm := List.mem_of_getElem? hk
  have hlt := (List.getElem?_eq_some_iff.mp hk).1
  have hmem : ∀ f' ∈ b'.flights, f' ∈ b.flights ∨ f' = g := by
    intro f' hf'
    rw [hf] at hf'
    exact List.mem_or_eq_of_mem_set hf'
  have hknown : ∀ v, Known b v → Known b' v := fun v hv => hv.mono hk hd g hf hcalls
  refine ⟨htokens, hstore ▸ h.settled, hstore ▸ hsound, ?_, ?_, ?_, ?_, ?_, hjar, ?_, ?_,
    hstore ▸ hjarSpent, ?_⟩
  · have hcount := countP_set_add g outstanding hk
    have hle : (outstanding g).toNat ≤ (outstanding f).toNat := by
      simp only [outstanding, hx, hd]
      cases f.exchange.isRefresh <;> cases g.delivered <;> decide
    have := h.one
    rw [hf]
    omega
  · intro f' hf' j hst
    rcases hmem f' hf' with hf' | rfl
    · obtain ⟨c, hc, hdone⟩ := h.served f' hf' j hst
      exact ⟨c, hcalls j c hc, hdone⟩
    · exact hserved j hst
  · intro f' hf' hdel
    rcases hmem f' hf' with hf' | rfl
    · exact h.answered f' hf' hdel
    · exact hanswered hdel
  · have hother : ∀ (i : ℕ) (f' : Flight) (j : ℕ), b.flights[i]? = some f' → i ≠ k →
        f'.stage = .served j → g.stage ≠ .served j := by
      intro i f' j hi hik hst hg
      rcases hunique j hg with hfs | hnone
      · exact hik (h.unique i k f' f j hi hk hst hfs)
      · exact hnone f' (List.mem_of_getElem? hi) hst
    intro i l f₁ f₂ j hi hl h₁ h₂
    rw [hf] at hi hl
    rcases getElem?_set_cases hi with ⟨hi', rfl⟩ | ⟨hik, hi'⟩ <;>
      rcases getElem?_set_cases hl with ⟨hl', rfl⟩ | ⟨hlk, hl'⟩
    · exact hi'.trans hl'.symm
    · exact absurd h₁ (hother l f₂ j hl' hlk h₂)
    · exact absurd h₂ (hother i f₁ j hi' hik h₁)
    · exact h.unique i l f₁ f₂ j hi' hl' h₁ h₂
  · intro j c hj
    rcases howned j c hj with hg | ⟨hne, c', hc'⟩
    · exact ⟨k, g, by rw [hf, List.getElem?_set_self hlt], hg⟩
    · obtain ⟨i, f', hi, hst⟩ := h.owned j c' hc'
      have hki : k ≠ i := by
        rintro rfl
        exact hne (Option.some.inj (hk.symm.trans hi) ▸ hst)
      exact ⟨i, f', by rw [hf, List.getElem?_set_ne hki, hi], hst⟩
  · intro f' hf' v hv
    rcases hmem f' hf' with hf' | rfl
    · exact hknown v (h.cookies f' hf' v hv)
    · exact hknown v (h.cookies f hfm v (hx ▸ hv))
  · intro t ht
    obtain ⟨f', hf', hfx⟩ := h.spent t (hstore ▸ ht)
    rw [hf]
    rcases mem_set_or_eq g hk hf' with hmem' | rfl
    · exact ⟨f', hmem', hfx⟩
    · exact ⟨g, List.mem_set hlt g, hx.trans hfx⟩
  · intro f' hf' hdel
    rw [hstore]
    rcases hmem f' hf' with hf' | rfl
    · exact (h.waiting f' hf' hdel).extends hcalls
    · exact hwaiting hdel

theorem Protocol.undelivered (h : Protocol cfg b) (hk : b.flights[k]? = some f)
    (hst : f.stage = .sent) :
    f.delivered = false := by
  by_contra hd
  exact h.answered f (List.mem_of_getElem? hk) (by simpa using hd) hst

/-- The jar keeps its cookie while a flight moves on without being delivered. -/
theorem Protocol.jarSpent_set (h : Protocol cfg b) (hk : b.flights[k]? = some f) {g : Flight}
    (hx : g.exchange = f.exchange) (hd : g.delivered = false) {v : String} (hv : b.jar = some v)
    (hs : v ∈ b.server.store.spends) :
    ∃ f' ∈ b.flights.set k g, f'.delivered = false ∧ f'.exchange = .refresh (some v) := by
  obtain ⟨f', hf', hdel, hfx⟩ := h.jarSpent v hv hs
  rcases mem_set_or_eq g hk hf' with hmem | rfl
  · exact ⟨f', hmem, hdel, hfx⟩
  · exact ⟨g, List.mem_set (List.getElem?_eq_some_iff.mp hk).1 g, hd, hx.trans hfx⟩

/-- The gateway or the controller answers a request without the service. -/
theorem Protocol.refuse (h : Protocol cfg b) (hk : b.flights[k]? = some f) (hst : f.stage = .sent) :
    Protocol cfg (putStage b k f .refused) := by
  have hd := h.undelivered hk hst
  have hw := h.waiting f (List.mem_of_getElem? hk) hd
  have hcalls : Extends b.server.calls b.server.calls := fun _ _ hj => hj
  refine h.move hk hd (g := { f with stage := .refused }) rfl rfl rfl hcalls h.tokens h.sound ?_ ?_
    ?_ ?_ ?_ ?_ ?_
  · intro j hj
    cases hj
  · intro _ hj
    cases hj
  · intro j hj
    cases hj
  · intro j c hj
    exact .inr ⟨by simp [hst], c, hj⟩
  · intro v hv
    exact (h.jar v hv).mono hk hd _ rfl hcalls
  · intro v hv hs
    exact h.jarSpent_set hk (g := { f with stage := .refused }) rfl hd hv hs
  · intro _
    cases hx : f.exchange with
    | refresh cookie =>
      simp only [Waiting, hx, hst] at hw
      simp only [Waiting]
      exact hw
    | login email password => simp only [Waiting]

/-- The service starts on a request, with the program counter the request begins at. -/
theorem Protocol.serveCall (h : Protocol cfg b) (hk : b.flights[k]? = some f)
    (hst : f.stage = .sent) {r : Request} (hsound : Sound cfg b.server.store (start r))
    (hr : ∀ calls, calls[b.server.calls.length]? = some (start r) →
      Waiting calls b.server.store.spends { f with stage := .served b.server.calls.length })
    (hs : serveCall cfg b k f r = some b') : Protocol cfg b' := by
  obtain ⟨server, hserver, rfl⟩ := Option.map_eq_some_iff.mp hs
  have htokens := heldInv_step h.tokens hserver
  obtain rfl := Option.some.inj hserver
  have hd := h.undelivered hk hst
  have hcalls : Extends b.server.calls (b.server.calls ++ [start r]) := by
    intro j c hj
    rw [List.getElem?_append_left (List.getElem?_eq_some_iff.mp hj).1, hj]
  have hnew : (b.server.calls ++ [start r])[b.server.calls.length]? = some (start r) := by simp
  refine h.move hk hd (g := { f with stage := .served b.server.calls.length }) rfl rfl rfl hcalls
    htokens ?_ ?_ ?_ ?_ ?_ ?_ ?_ ?_
  · intro c hc
    rcases List.mem_append.mp hc with hc | hc
    · exact h.sound c hc
    · rw [List.mem_singleton.mp hc]
      exact hsound
  · intro j hj
    cases hj
    refine ⟨start r, hnew, fun hdel => ?_⟩
    rw [hd] at hdel
    cases hdel
  · intro _ hj
    cases hj
  · intro j hj
    cases hj
    refine .inr fun f' hf' hfs => ?_
    obtain ⟨c, hc, -⟩ := h.served f' hf' _ hfs
    have := (List.getElem?_eq_some_iff.mp hc).1
    omega
  · intro j c hj
    have hcases : (b.server.calls ++ [start r])[j]? = some c := hj
    rcases getElem?_concat_cases hcases with hj' | ⟨rfl, -⟩
    · exact .inr ⟨by simp [hst], c, hj'⟩
    · exact .inl rfl
  · intro v hv
    exact (h.jar v hv).mono hk hd _ rfl hcalls
  · intro v hv hs'
    exact h.jarSpent_set hk (g := { f with stage := .served b.server.calls.length }) rfl hd hv hs'
  · intro _
    exact hr _ hnew

theorem Protocol.arrive (h : Protocol cfg b) (hk : b.flights[k]? = some f) {client : ClientMeta}
    (hs : arrive cfg b k f client = some b') : Protocol cfg b' := by
  unfold Web.arrive at hs
  split at hs
  · rename_i hst hx
    cases hs
    exact h.refuse hk hst
  · rename_i cookie hst hx
    split_ifs at hs with hempty
    · cases hs
      exact h.refuse hk hst
    · have hstart : start (.refresh cookie client) = .refreshSpend cookie client := if_neg hempty
      have hw := h.waiting f (List.mem_of_getElem? hk) (h.undelivered hk hst)
      simp only [Waiting, hx, hst] at hw
      refine h.serveCall hk hst (by rw [hstart]; trivial) (fun calls hc => ?_) hs
      rw [hstart] at hc
      simp only [Waiting, hx]
      exact ⟨cookie, _, rfl, hc, rfl, hw cookie rfl⟩
  · rename_i email password hst hx
    have hsound : Sound cfg b.server.store (start (.login email password client)) := trivial
    refine h.serveCall hk hst hsound (fun calls hc => ?_) hs
    simp only [Waiting, hx]
    exact ⟨_, hc, rfl⟩
  · cases hs

/-! ### Delivery -/

/-- A response is a refusal or the outcome of the call that served the request. -/
theorem response_spec {answer : Option LoginResponse} (h : response b f = some answer) :
    (f.stage = .refused ∧ answer = none) ∨
      ∃ (j : ℕ) (o : Outcome), f.stage = .served j ∧ b.server.calls[j]? = some (.done o) ∧
        answer.map (·.refreshToken) = o.token := by
  unfold response at h
  split at h
  · cases h
  · rename_i hst
    cases h
    exact .inl ⟨hst, rfl⟩
  · rename_i j hst
    split at h
    · rename_i r hj
      cases h
      exact .inr ⟨j, _, hst, hj, rfl⟩
    · rename_i o ho hj
      cases h
      refine .inr ⟨j, o, hst, hj, ?_⟩
      cases o with
      | session r => exact absurd rfl (ho r)
      | _ => rfl
    · cases h

/-- The token of a response that is under way has not been presented by anyone. -/
theorem Protocol.fresh_response (h : Protocol cfg b) (hk : b.flights[k]? = some f)
    (hd : f.delivered = false) {j : ℕ} {c : Call} (hst : f.stage = .served j)
    (hj : b.server.calls[j]? = some c) {t : String} (ht : held c = some t) :
    t ∉ b.server.store.spends := by
  intro hs
  obtain ⟨f₁, hf₁, hx₁⟩ := h.spent t hs
  obtain ⟨f₂, hf₂, hdel, i, c', hst', hi, ht'⟩ := h.cookies f₁ hf₁ t hx₁
  -- the token was handed out by one call, and that call answers one request
  obtain rfl : i = j := h.tokens.once i j c' c t hi hj ht' ht
  obtain ⟨l, hl⟩ := List.mem_iff_getElem?.mp hf₂
  obtain rfl : l = k := h.unique l k f₂ f i hl hk hst' hst
  obtain rfl := Option.some.inj (hl.symm.trans hk)
  rw [hd] at hdel
  cases hdel

/-- A refresh that is answered without a session has not spent its token. -/
theorem Protocol.failed_response (h : Protocol cfg b) (hk : b.flights[k]? = some f)
    (hd : f.delivered = false) (hr : response b f = some none) {v : String}
    (hx : f.exchange = .refresh (some v)) :
    v ∉ b.server.store.spends := by
  have hw := h.waiting f (List.mem_of_getElem? hk) hd
  rcases response_spec hr with ⟨hst, -⟩ | ⟨j, o, hst, hj, ho⟩
  · simp only [Waiting, hx, hst] at hw
    exact hw v rfl
  · obtain ⟨v', hx', hs⟩ | ⟨hl, -⟩ := waiting_served hw hst hj
    · obtain rfl : v = v' := by simpa [hx] using hx'
      cases o with
      | session r => cases ho
      | unauthorized message | noContent | failed => exact hs
    · rw [hx] at hl
      cases hl

theorem Protocol.deliver (h : Protocol cfg b) (hk : b.flights[k]? = some f)
    (hd : f.delivered = false) {answer : Option LoginResponse} (hr : response b f = some answer) :
    Protocol cfg (deliver b k f answer) := by
  have hlt := (List.getElem?_eq_some_iff.mp hk).1
  have hcalls : Extends b.server.calls b.server.calls := fun _ _ hj => hj
  refine h.move hk hd (g := { f with delivered := true }) rfl rfl rfl hcalls h.tokens h.sound ?_ ?_
    ?_ ?_ ?_ ?_ ?_
  · intro j hj
    rcases response_spec hr with ⟨hst, -⟩ | ⟨j', o, hst, hj', -⟩
    · rw [hst] at hj
      cases hj
    · cases hst.symm.trans hj
      exact ⟨.done o, hj', fun _ => ⟨o, rfl⟩⟩
  · intro _ hsent
    rcases response_spec hr with ⟨hst, -⟩ | ⟨j', o, hst, -, -⟩ <;> cases hst.symm.trans hsent
  · intro j hj
    exact .inl hj
  · intro j c hj
    by_cases hfs : f.stage = .served j
    · exact .inl hfs
    · exact .inr ⟨hfs, c, hj⟩
  · intro v hv
    cases answer with
    | none => exact (h.jar v hv).mono hk hd _ rfl hcalls
    | some r =>
      rcases response_spec hr with ⟨-, hno⟩ | ⟨j, o, hst, hj, ho⟩
      · cases hno
      · refine ⟨{ f with delivered := true }, List.mem_set hlt _, rfl, j, _, hst, hj, ?_⟩
        exact ho.symm.trans hv
  · intro v hv hs
    cases answer with
    | none =>
      obtain ⟨f', hf', hdel, hx⟩ := h.jarSpent v hv hs
      rcases mem_set_or_eq { f with delivered := true } hk hf' with hmem | rfl
      · exact ⟨f', hmem, hdel, hx⟩
      · exact absurd hs (h.failed_response hk hd hr hx)
    | some r =>
      rcases response_spec hr with ⟨-, hno⟩ | ⟨j, o, hst, hj, ho⟩
      · cases hno
      · exact absurd hs (h.fresh_response hk hd hst hj (ho.symm.trans hv))
  · intro hdel
    cases hdel

/-! ### Statements of the service -/

theorem waiting_other {calls : List Call} {spends spends' : List String} {i : ℕ} {c' : Call}
    (hne : f.stage ≠ .served i) (hs : f.exchange.isRefresh = true → spends' = spends)
    (h : Waiting calls spends f) :
    Waiting (calls.set i c') spends' f := by
  unfold Waiting at *
  split at h
  · rename_i cookie j hx hst
    obtain ⟨v, c, hv, hc, hserve⟩ := h
    have hij : i ≠ j := by
      rintro rfl
      exact hne hst
    rw [hs (by rw [hx]; rfl)]
    exact ⟨v, c, hv, by rw [List.getElem?_set_ne hij, hc], hserve⟩
  · rename_i cookie hx hst
    rw [hs (by rw [hx]; rfl)]
    exact h
  · rename_i j hx hst
    obtain ⟨c, hc, hl⟩ := h
    have hij : i ≠ j := by
      rintro rfl
      exact hne hst
    exact ⟨c, by rw [List.getElem?_set_ne hij, hc], hl⟩
  · trivial

/-- A statement of a call spends a token only for the call's own request, which goes on waiting. -/
theorem own_request {s s' : Store} {calls : List Call} {c c' : Call} {j : ℕ} {d : Draw}
    (hj : calls[j]? = some c) (hst : statement cfg s c (.ok d) = some (s', c'))
    (hsettled : Settled cfg s) (hsound : Sound cfg s c) (hfs : f.stage = .served j)
    (hw : Waiting calls s.spends f) :
    (∀ t ∈ s'.spends, f.exchange = .refresh (some t) ∨ t ∈ s.spends) ∧
      Waiting (calls.set j c') s'.spends f ∧
      (f.exchange.isRefresh = true ∨ s'.spends = s.spends) := by
  have hj' := getElem?_set_same c' hj
  rcases waiting_served hw hfs hj with ⟨v, hx, hserve⟩ | ⟨hx, hl⟩
  · obtain ⟨hserve', hsp⟩ := serving_statement hsettled hsound hserve hst
    refine ⟨fun t ht => (hsp t ht).imp (fun hv => by rw [hv, hx]) id, ?_, .inl (by rw [hx]; rfl)⟩
    simp only [Waiting, hx, hfs]
    exact ⟨v, c', rfl, hj', hserve'⟩
  · obtain ⟨hl', hsp⟩ := loggingIn_statement hl hst
    refine ⟨fun t ht => .inr (hsp ▸ ht), ?_, .inr hsp⟩
    cases hx' : f.exchange with
    | refresh cookie =>
      rw [hx'] at hx
      cases hx
    | login email password =>
      simp only [Waiting, hx', hfs]
      exact ⟨c', hj', hl'⟩

/-- A call serves one request. -/
theorem Protocol.served_by (h : Protocol cfg b) (hk : b.flights[k]? = some f) {j : ℕ}
    (hfs : f.stage = .served j) {f' : Flight} (hf' : f' ∈ b.flights) (hst : f'.stage = .served j) :
    f' = f := by
  obtain ⟨l, hl⟩ := List.mem_iff_getElem?.mp hf'
  obtain rfl := h.unique l k f' f j hl hk hst hfs
  exact Option.some.inj (hl.symm.trans hk)

/-- No two refreshes are outstanding. -/
theorem Protocol.one_refresh (h : Protocol cfg b) (hk : b.flights[k]? = some f)
    (ho : outstanding f = true) {f' : Flight} (hf' : f' ∈ b.flights) (ho' : outstanding f' = true) :
    f' = f := by
  obtain ⟨l, hl⟩ := List.mem_iff_getElem?.mp hf'
  obtain rfl : l = k := eq_of_countP_le_one h.one hl hk ho' ho
  exact Option.some.inj (hl.symm.trans hk)

/-- One statement of a call: only its own request can see what it spends. -/
theorem Protocol.serve (h : Protocol cfg b) {j : ℕ} {d : Draw} {server : Pool Store Call}
    (hs : (auth cfg).step b.server (.run j (.ok d)) = some server) :
    Protocol cfg { b with server } := by
  have htokens := heldInv_step h.tokens hs
  obtain ⟨c, s', c', hj, hst, rfl⟩ := Program.step_run.mp hs
  have hcm := List.mem_of_getElem? hj
  have hdone : ∀ o, c ≠ .done o := by
    rintro o rfl
    cases hst
  obtain ⟨k, f, hk, hfs, hd, hw⟩ := h.request hj hdone
  have hexisting : ∀ raw, c = .refreshExisting raw → raw ∉ b.server.store.spends := by
    rintro raw rfl
    rcases waiting_served hw hfs hj with ⟨v, -, rfl, hv⟩ | ⟨-, hl⟩
    · exact hv
    · cases hl
  obtain ⟨hsettled, hsound, hpersists⟩ := settled_statement h.settled (h.sound c hcm) hexisting hst
  obtain ⟨hspends, hwait, hsame⟩ := own_request hj hst h.settled (h.sound c hcm) hfs hw
  -- every other call and its request are left alone
  have hother : ∀ (i : ℕ) (c₂ : Call), i ≠ j → b.server.calls[i]? = some c₂ →
      (b.server.calls.set j c')[i]? = some c₂ := by
    intro i c₂ hij hi
    rw [List.getElem?_set_ne (Ne.symm hij), hi]
  have hknown : ∀ v, Known b v → Known { b with server := ⟨s', b.server.calls.set j c'⟩ } v := by
    rintro v ⟨f', hf', hdel, i, c₂, hst', hi, hh⟩
    refine ⟨f', hf', hdel, i, c₂, hst', hother i c₂ ?_ hi, hh⟩
    rintro rfl
    rw [h.served_by hk hfs hf' hst', hd] at hdel
    cases hdel
  refine ⟨htokens, hsettled, ?_, h.one, ?_, h.answered, h.unique, ?_, fun v hv =>
    hknown v (h.jar v hv),
    fun f' hf' v hv => hknown v (h.cookies f' hf' v hv), ?_, ?_, ?_⟩
  · intro c₂ hc₂
    rcases List.mem_or_eq_of_mem_set hc₂ with hc₂ | rfl
    · exact (h.sound c₂ hc₂).persists hpersists
    · exact hsound
  · intro f' hf' i hst'
    by_cases hij : i = j
    · subst hij
      refine ⟨c', getElem?_set_same c' hj, fun hdel => ?_⟩
      rw [h.served_by hk hfs hf' hst', hd] at hdel
      cases hdel
    · obtain ⟨c₂, hc₂, hdone₂⟩ := h.served f' hf' i hst'
      exact ⟨c₂, hother i c₂ hij hc₂, hdone₂⟩
  · intro i c₂ hi
    rcases getElem?_set_cases hi with ⟨rfl, rfl⟩ | ⟨-, hi⟩
    · exact h.owned i c hj
    · exact h.owned i c₂ hi
  · intro t ht
    rcases hspends t ht with hx | ht
    · exact ⟨f, List.mem_of_getElem? hk, hx⟩
    · exact h.spent t ht
  · intro v hv ht
    rcases hspends v ht with hx | ht
    · exact ⟨f, List.mem_of_getElem? hk, hd, hx⟩
    · exact h.jarSpent v hv ht
  · intro f' hf' hdel
    by_cases hff : f' = f
    · subst hff
      exact hwait
    · refine waiting_other (fun hst' => hff (h.served_by hk hfs hf' hst')) (fun hr => ?_)
        (h.waiting f' hf' hdel)
      rcases hsame with hrf | hsame
      · exact absurd
          (h.one_refresh hk (by simp [outstanding, hrf, hd]) hf' (by simp [outstanding, hr, hdel]))
          hff
      · exact hsame

theorem Protocol.tick (h : Protocol cfg b) {ms : ℕ} {server : Pool Store Call}
    (hs : (auth cfg).step b.server (.env (.tick ms)) = some server) :
    Protocol cfg { b with server } := by
  have htokens := heldInv_step h.tokens hs
  obtain rfl := Option.some.inj hs
  have hsettled : Settled cfg { b.server.store with now := b.server.store.now + ms } :=
    ⟨h.settled.users, h.settled.owners, h.settled.revoked⟩
  have hpersists : Persists b.server.store { b.server.store with now := b.server.store.now + ms } :=
    ⟨rfl, fun r hr => ⟨r, hr, rfl, rfl, rfl⟩⟩
  exact ⟨htokens, hsettled, fun c hc => (h.sound c hc).persists hpersists, h.one, h.served,
    h.answered, h.unique, h.owned,
    h.jar, h.cookies, h.spent, h.jarSpent, h.waiting⟩

/-! ### Runs -/

theorem Protocol.refreshSession (h : Protocol cfg b) (i : ℕ) (page : Page)
    (ha : page.refreshInFlight = false → ∀ f ∈ b.flights, outstanding f = false) :
    Protocol cfg (refreshSession b i page) := by
  unfold Web.refreshSession
  split_ifs with hin
  · exact h.pages _
  · refine (h.pages _).send i fun cookie hc => ?_
    cases hc
    exact ⟨rfl, ha (by simpa using hin)⟩

theorem protocol_step {a : Act} (h : Protocol cfg b) (ha : Alone b a)
    (hs : step cfg b a = some b') : Protocol cfg b' := by
  cases a with
  | openPage =>
    cases hs
    exact (h.pages _).refreshSession _ _ fun _ => ha rfl
  | apiFetch i =>
    obtain ⟨page, -, rfl⟩ := Option.map_eq_some_iff.mp hs
    exact h.pages _
  | apiAnswer i k status =>
    obtain ⟨page, hi, hs⟩ := Option.bind_eq_some_iff.mp hs
    unfold apiAnswer at hs
    split at hs
    · rename_i hsent
      split_ifs at hs with hstatus
      · cases hs
        exact h.pages _
      · cases hs
        refine h.refreshSession _ _ fun hin => ha ?_
        push Not at hstatus
        have hin : page.refreshInFlight = false := hin
        simp [sendsRefresh, hi, hstatus, hsent, hin]
    · cases hs
      exact h.pages _
    · cases hs
  | login i email password =>
    obtain ⟨page, -, rfl⟩ := Option.map_eq_some_iff.mp hs
    exact h.send i fun cookie hc => by cases hc
  | refuse k =>
    obtain ⟨f, hk, hs⟩ := Option.bind_eq_some_iff.mp hs
    split_ifs at hs with hst
    cases hs
    exact h.refuse hk hst
  | arrive k client =>
    obtain ⟨f, hk, hs⟩ := Option.bind_eq_some_iff.mp hs
    exact h.arrive hk hs
  | serve j d =>
    obtain ⟨server, hserver, rfl⟩ := Option.map_eq_some_iff.mp hs
    exact h.serve hserver
  | deliver k =>
    obtain ⟨f, hk, hs⟩ := Option.bind_eq_some_iff.mp hs
    split_ifs at hs with hd
    obtain ⟨answer, hr, rfl⟩ := Option.map_eq_some_iff.mp hs
    exact h.deliver hk (by simpa using hd) hr
  | tick ms =>
    simp only [step] at hs
    obtain ⟨server, hserver, rfl⟩ := Option.map_eq_some_iff.mp hs
    exact h.tick hserver
  | expire =>
    cases hs
    exact h.expire

/-- In every run in which no page starts a refresh while one is outstanding, no
request presents a spent token and no family is revoked. -/
theorem undisturbed_of_alone (cfg : Config) {as : List Act} (hb : Blank b)
    (hm : Meets (step cfg) Alone b as) (hr : exec (step cfg) b as = some b') : Undisturbed cfg b' :=
  (exec_invariant_of_meets (fun _ _ _ h ha hs => protocol_step h ha hs)
    (protocol_blank hb) hm hr).undisturbed

/-- One page: it loads, the user signs in, and a later `apiFetch` is refreshed. -/
def onePage : List Act :=
  [.openPage, .arrive 0 browser, .deliver 0, .login 0 "a@b.com" "secret", .arrive 1 browser,
    .serve 0 ⟨"", "", ""⟩,
    .serve 0 ⟨"f", "t1", "r1"⟩, .deliver 1, .apiFetch 0, .apiAnswer 0 0 401, .arrive 2 browser,
      .serve 1 ⟨"", "", ""⟩]

def blankBrowser : Browser := ⟨opening, none, [], []⟩

theorem blank_blankBrowser : Blank blankBrowser := ⟨fresh_opening, by decide, rfl, rfl, rfl⟩

theorem undisturbed_of_alone_onePage : ∃ b, exec (step plainConfig) blankBrowser onePage = some b ∧
    b.server.store.spends = ["t1"] ∧ Undisturbed plainConfig b := by
  have hm : Meets (step plainConfig) Alone blankBrowser onePage := by decide
  exact ⟨_, rfl, rfl, undisturbed_of_alone plainConfig blank_blankBrowser hm rfl⟩

/-- Two more pages load while the first refresh of one of them is under way. -/
def twoPages : List Act :=
  onePage.take 8 ++
    [.openPage, .openPage, .arrive 2 browser, .serve 1 ⟨"", "", ""⟩, .arrive 3 browser,
    .serve 2 ⟨"", "", ""⟩,
    .serve 2 ⟨"", "", ""⟩]

/-- The second request presents the spent token and the call is about to revoke the family. -/
theorem disturbed_by_two_pages :
    ¬ ∀ b b' as, Blank b → exec (step plainConfig) b as = some b' → Undisturbed plainConfig b' := by
  intro h
  have hu := h blankBrowser _ twoPages blank_blankBrowser rfl
  have := hu.families (.refreshReuse "f") (by decide)
  cases this

end Finlytic.Web
