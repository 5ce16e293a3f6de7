import Finlytic.EmailIngestion.OAuthState
import Finlytic.Lib.JsonText
import Finlytic.Lib.Table

/-! An OAuth state is accepted at most once. A redeemed nonce is kept until its
state has expired, so at any second a state is either still in the map or
refused as expired. -/

namespace Finlytic.EmailIngestion

open Lib Jws JsonText

variable {rt : StateRuntime} {s s' : OAuthStates}

/-! ### Payloads -/

theorem parse_payloadOf (claims : StateClaims) :
    rt.parse (Base64.decode (payloadOf rt claims)) = some claims := by
  unfold payloadOf
  rw [Base64.decode_encode]
  exact rt.parse_stringify claims

theorem payloadOf_inj {c d : StateClaims} (h : payloadOf rt c = payloadOf rt d) : c = d := by
  have hc := @parse_payloadOf rt c
  rw [h, parse_payloadOf] at hc
  exact (Option.some.inj hc).symm

theorem signed_payloadOf (claims : StateClaims) :
    signed rt (payloadOf rt claims) (sign rt (payloadOf rt claims)) = true := by
  have hpayload : payloadOf rt claims ≠ [] := by
    unfold payloadOf
    rw [Ne, Base64.encode_eq_nil, utf8Octets_eq_nil]
    exact rt.stringify_ne claims
  have hsign : sign rt (payloadOf rt claims) ≠ [] := by
    unfold sign
    rw [Ne, Base64.encode_eq_nil]
    exact rt.hmac_ne _
  simp [signed, hpayload, hsign]

theorem splitOn_stateOf (rt : StateRuntime) (claims : StateClaims) :
    (stateOf rt claims).splitOn '.' = [payloadOf rt claims, sign rt (payloadOf rt claims)] := by
  have hpayload : '.' ∉ payloadOf rt claims := Base64.dot_not_mem_encode _
  have hsign : '.' ∉ sign rt (payloadOf rt claims) := Base64.dot_not_mem_encode _
  unfold stateOf
  rw [List.splitOn_append_cons_self_of_not_mem hpayload, List.splitOn_eq_singleton hsign]

/-! ### One call -/

/-- Past the signature, `verify` reads the claims and redeems them. -/
theorem verifyState_parsed {state payload signature : List Char} {rest : List (List Char)}
    (hsplit : state.splitOn '.' = payload :: signature :: rest)
    (hsigned : signed rt payload signature = true) :
    verifyState rt s state =
      match rt.parse (Base64.decode payload) with
      | none => (.error "Unexpected token in JSON", s)
      | some claims => redeem s claims := by
  simp only [signed, Bool.and_eq_true, decide_eq_true_eq] at hsigned
  obtain ⟨⟨hp, hs⟩, hoctets⟩ := hsigned
  have hempty : ¬ (decide (payload = []) || decide (signature = [])) = true := by
    simp [hp, hs]
  unfold verifyState
  rw [hsplit]
  exact (if_neg hempty).trans (if_neg fun hne => hne hoctets)

theorem verifyState_signed {state payload signature : List Char} {rest : List (List Char)}
    {claims : StateClaims} (hsplit : state.splitOn '.' = payload :: signature :: rest)
    (hsigned : signed rt payload signature = true)
    (hparse : rt.parse (Base64.decode payload) = some claims) :
    verifyState rt s state = redeem s claims := by
  rw [verifyState_parsed hsplit hsigned, hparse]

/-- Without the signature, `verify` throws. -/
theorem verifyState_unsigned {state payload signature : List Char} {rest : List (List Char)}
    (hsplit : state.splitOn '.' = payload :: signature :: rest)
    (hsigned : signed rt payload signature = false) :
    ∃ message, verifyState rt s state = (.error message, s) := by
  unfold verifyState
  rw [hsplit]
  simp only
  by_cases hempty : (decide (payload = []) || decide (signature = [])) = true
  · exact ⟨_, if_pos hempty⟩
  · have hoctets : utf8Octets signature ≠ utf8Octets (sign rt payload) := by
      simp only [Bool.or_eq_true, decide_eq_true_eq, not_or] at hempty
      intro heq
      simp [signed, hempty, heq] at hsigned
    rw [if_neg hempty, if_pos hoctets]
    exact ⟨_, rfl⟩

/-- `redeem` throws and at most forgets expired nonces, or it accepts. -/
theorem redeem_cases (s : OAuthStates) (claims : StateClaims) :
    (∃ message, redeem s claims = (.error message, s) ∨
      redeem s claims = (.error message, { s with redeemed := forget s.second s.redeemed })) ∨
    (s.second ≤ claims.exp ∧ (∀ entry ∈ forget s.second s.redeemed, entry.1 ≠ claims.nonce) ∧
      redeem s claims =
        (.ok claims.userId,
          { s with redeemed := forget s.second s.redeemed ++ [(claims.nonce, claims.exp)] })) := by
  unfold redeem
  by_cases hexp : claims.exp < s.second
  · rw [if_pos hexp]
    exact .inl ⟨_, .inl rfl⟩
  · rw [if_neg hexp]
    simp only
    split_ifs with hused
    · exact .inl ⟨_, .inr rfl⟩
    · refine .inr ⟨Nat.le_of_not_lt hexp, fun entry hentry heq => ?_, rfl⟩
      exact hused (List.any_eq_true.mpr ⟨entry, hentry, decide_eq_true heq⟩)

/-- What a call does: it throws and at most forgets expired nonces, or it redeems a signed state. -/
theorem verifyState_cases (s : OAuthStates) (state : List Char) :
    (∃ message, verifyState rt s state = (.error message, s) ∨
      verifyState rt s state =
        (.error message, { s with redeemed := forget s.second s.redeemed })) ∨
    ∃ payload signature rest claims, state.splitOn '.' = payload :: signature :: rest ∧
      signed rt payload signature = true ∧ rt.parse (Base64.decode payload) = some claims ∧
        s.second ≤ claims.exp ∧
      (∀ entry ∈ forget s.second s.redeemed, entry.1 ≠ claims.nonce) ∧
      verifyState rt s state =
        (.ok claims.userId,
          { s with redeemed := forget s.second s.redeemed ++ [(claims.nonce, claims.exp)] }) := by
  cases hsplit : state.splitOn '.' with
  | nil => exact absurd hsplit (List.splitOn_ne_nil _ _)
  | cons payload parts =>
    cases parts with
    | nil =>
      refine .inl ⟨"Malformed OAuth state", .inl ?_⟩
      unfold verifyState
      rw [hsplit]
    | cons signature rest =>
      cases hsigned : signed rt payload signature with
      | false =>
        obtain ⟨message, heq⟩ := @verifyState_unsigned rt s state payload signature rest hsplit hsigned
        exact .inl ⟨message, .inl heq⟩
      | true =>
        cases hparse : rt.parse (Base64.decode payload) with
        | none =>
          refine .inl ⟨"Unexpected token in JSON", .inl ?_⟩
          rw [verifyState_parsed hsplit hsigned, hparse]
        | some claims =>
          rw [verifyState_signed hsplit hsigned hparse]
          apply (redeem_cases s claims).imp_right
          rintro ⟨hexp, hnonce, heq⟩
          exact ⟨payload, signature, rest, claims, rfl, hsigned, hparse, hexp, hnonce, heq⟩

theorem mem_forget {now : ℕ} {redeemed : List (String × ℕ)} {entry : String × ℕ} :
    entry ∈ forget now redeemed ↔ entry ∈ redeemed ∧ now ≤ entry.2 := by
  simp [forget]

/-! ### What every step keeps -/

structure StatesInv (rt : StateRuntime) (s : OAuthStates) : Prop where
  nonces : (s.issued.map (·.nonce)).Nodup
  past : ∀ i ∈ s.issued, i.second ≤ s.second
  faithful : ∀ r ∈ s.accepted, ∃ i ∈ s.issued, r.payload = payloadOf rt i.claims ∧
    r.userId = i.userId ∧
    i.second ≤ r.second ∧ r.second ≤ i.second + stateTtlSeconds
  /-- A redeemed nonce stays until its state has expired. -/
  kept : ∀ r ∈ s.accepted, ∀ i ∈ s.issued, r.payload = payloadOf rt i.claims →
    (i.nonce, i.claims.exp) ∈ s.redeemed ∨ i.claims.exp < s.second
  once : (s.accepted.map (·.payload)).Nodup
  known : ∀ entry ∈ s.redeemed, ∃ i ∈ s.issued, entry.1 = i.nonce ∧ ∃ r ∈ s.accepted, r.payload =
    payloadOf rt i.claims

theorem StatesInv.forgetting (h : StatesInv rt s) :
    StatesInv rt { s with redeemed := forget s.second s.redeemed } where
  nonces := h.nonces
  past := h.past
  faithful := h.faithful
  kept r hr i hi hp := by
    rcases h.kept r hr i hi hp with hin | hexp
    · by_cases hlt : i.claims.exp < s.second
      · exact .inr hlt
      · exact .inl (mem_forget.mpr ⟨hin, Nat.le_of_not_lt hlt⟩)
    · exact .inr hexp
  once := h.once
  known entry hentry := h.known entry (mem_forget.mp hentry).1

/-- A state that can be redeemed now has not been redeemed before. -/
theorem StatesInv.fresh (h : StatesInv rt s) {i : Issue} (hi : i ∈ s.issued)
    (hexp : s.second ≤ i.claims.exp)
    (hnonce : ∀ entry ∈ forget s.second s.redeemed, entry.1 ≠ i.nonce) :
    ∀ r ∈ s.accepted, r.payload ≠ payloadOf rt i.claims := by
  intro r hr hp
  rcases h.kept r hr i hi hp with hin | hlt
  · exact hnonce _ (mem_forget.mpr ⟨hin, hexp⟩) rfl
  · exact absurd hexp (Nat.not_le_of_lt hlt)

theorem StatesInv.redeeming (h : StatesInv rt s) {i : Issue} (hi : i ∈ s.issued)
    (hexp : s.second ≤ i.claims.exp)
    (hnonce : ∀ entry ∈ forget s.second s.redeemed, entry.1 ≠ i.nonce) {state : List Char}
    (hstate : (state.splitOn '.').headD [] = payloadOf rt i.claims) :
    StatesInv rt { s with
      redeemed := forget s.second s.redeemed ++ [(i.nonce, i.claims.exp)]
      accepted := ⟨state, i.userId, s.second⟩ :: s.accepted } where
  nonces := h.nonces
  past := h.past
  faithful := by
    intro r hr
    rcases List.mem_cons.mp hr with rfl | hr
    · exact ⟨i, hi, hstate, rfl, h.past i hi, hexp⟩
    · exact h.faithful r hr
  kept := by
    intro r hr j hj hp
    rcases List.mem_cons.mp hr with rfl | hr
    · left
      have hclaims : i.claims = j.claims := payloadOf_inj (hstate.symm.trans hp)
      have hnonces : i.nonce = j.nonce := congrArg StateClaims.nonce hclaims
      rw [← hclaims, ← hnonces]
      exact List.mem_append_right _ List.mem_cons_self
    · exact (h.forgetting.kept r hr j hj hp).imp_left (List.mem_append_left _)
  once := by
    rw [List.map_cons, List.nodup_cons]
    refine ⟨fun hmem => ?_, h.once⟩
    obtain ⟨r, hr, hp⟩ := List.mem_map.mp hmem
    exact h.fresh hi hexp hnonce r hr (hp.trans hstate)
  known := by
    intro entry hentry
    rcases List.mem_append.mp hentry with hentry | hentry
    · obtain ⟨j, hj, hn, r, hr, hp⟩ := h.forgetting.known entry hentry
      exact ⟨j, hj, hn, r, List.mem_cons_of_mem _ hr, hp⟩
    · rw [List.mem_singleton.mp hentry]
      exact ⟨i, hi, rfl, _, List.mem_cons_self, hstate⟩

theorem StatesInv.issuing (h : StatesInv rt s) {userId nonce : String}
    (hnonce : nonce ∉ s.issued.map (·.nonce)) :
    StatesInv rt { s with issued := ⟨userId, nonce, s.second⟩ :: s.issued } where
  nonces := List.nodup_cons.mpr ⟨hnonce, h.nonces⟩
  past := by
    intro i hi
    rcases List.mem_cons.mp hi with rfl | hi
    · exact Nat.le_refl _
    · exact h.past i hi
  faithful := by
    intro r hr
    obtain ⟨i, hi, hrest⟩ := h.faithful r hr
    exact ⟨i, List.mem_cons_of_mem _ hi, hrest⟩
  kept := by
    intro r hr i hi hp
    rcases List.mem_cons.mp hi with rfl | hi
    · -- what was accepted before was issued before, under another nonce
      exfalso
      obtain ⟨j, hj, hp', -⟩ := h.faithful r hr
      have hsame : j.claims = Issue.claims ⟨userId, nonce, s.second⟩ :=
        payloadOf_inj (hp'.symm.trans hp)
      apply hnonce
      exact List.mem_map.mpr ⟨j, hj, congrArg StateClaims.nonce hsame⟩
    · exact h.kept r hr i hi hp
  once := h.once
  known := by
    intro entry hentry
    obtain ⟨i, hi, hrest⟩ := h.known entry hentry
    exact ⟨i, List.mem_cons_of_mem _ hi, hrest⟩

theorem StatesInv.ticking (h : StatesInv rt s) (ms : ℕ) :
    StatesInv rt { s with now := s.now + ms } := by
  have hle : s.second ≤ OAuthStates.second { s with now := s.now + ms } :=
    Nat.div_le_div_right (Nat.le_add_right _ _)
  exact {
    nonces := h.nonces
    past := fun i hi => (h.past i hi).trans hle
    faithful := h.faithful
    kept := fun r hr i hi hp => (h.kept r hr i hi hp).imp_right fun hlt => hlt.trans_le hle
    once := h.once
    known := h.known }

/-- A redeemed state is one that was issued. -/
theorem claims_of_unforged {payload : List Char} {claims : StateClaims}
    (hparse : rt.parse (Base64.decode payload) = some claims)
    (hissued : ∃ i ∈ s.issued, payload = payloadOf rt i.claims) :
    ∃ i ∈ s.issued, payload = payloadOf rt i.claims ∧ claims = i.claims := by
  obtain ⟨i, hi, rfl⟩ := hissued
  rw [parse_payloadOf] at hparse
  exact ⟨i, hi, rfl, (Option.some.inj hparse).symm⟩

theorem stateStep_inv {a : StateAct} (h : StatesInv rt s) (ha : Unforged rt s a)
    (hs : stateStep rt s a = some s') :
    StatesInv rt s' := by
  cases a with
  | issue userId nonce =>
    simp only [stateStep] at hs
    split_ifs at hs with hnonce
    cases hs
    exact h.issuing hnonce
  | tick ms =>
    cases hs
    exact h.ticking ms
  | verify state =>
    cases hs
    rcases @verifyState_cases rt s state with
      ⟨message, heq | heq⟩ | ⟨payload, signature, rest, claims, hsplit, hsigned, hparse, hexp,
        hnonce, heq⟩
    · rw [heq]
      exact h
    · rw [heq]
      exact h.forgetting
    · obtain ⟨i, hi, rfl, rfl⟩ := claims_of_unforged hparse (ha payload signature rest hsplit hsigned)
      rw [heq]
      exact h.redeeming hi hexp hnonce (by rw [hsplit]; rfl)

/-! ### Runs -/

/-- An issued state that has neither expired nor been redeemed is accepted, whatever follows its
second dot. -/
theorem StatesInv.accepts (h : StatesInv rt s) {i : Issue} (hi : i ∈ s.issued)
    (hexp : s.second ≤ i.second + stateTtlSeconds)
    (hfresh : ∀ r ∈ s.accepted, r.payload ≠ payloadOf rt i.claims) {state : List Char}
    {rest : List (List Char)}
    (hstate : state.splitOn '.' = payloadOf rt i.claims ::
      sign rt (payloadOf rt i.claims) :: rest) :
    (verifyState rt s state).1 = .ok i.userId := by
  have hunused : ¬ (forget s.second s.redeemed).any (·.1 = i.nonce) = true := by
    intro hused
    obtain ⟨entry, hentry, heq⟩ := List.any_eq_true.mp hused
    obtain ⟨j, hj, hn, r, hr, hp⟩ := h.known entry (mem_forget.mp hentry).1
    have hij : i.nonce = j.nonce := (of_decide_eq_true heq).symm.trans hn
    rw [Table.eq_of_nodup_key h.nonces hi hj hij] at hfresh
    exact hfresh r hr hp
  have hlive : ¬ i.claims.exp < s.second := Nat.not_lt_of_le hexp
  rw [verifyState_signed hstate (signed_payloadOf _) (parse_payloadOf _), redeem, if_neg hlive]
  exact congrArg Prod.fst (if_neg hunused)

/-- After a call that returns, no entry of the map has expired. -/
theorem forgotten_of_ok {state : List Char} {userId : String}
    (h : (verifyState rt s state).1 = .ok userId) :
    ∀ entry ∈ (verifyState rt s state).2.redeemed, s.second ≤ entry.2 := by
  rcases @verifyState_cases rt s state with
    ⟨message, heq | heq⟩ | ⟨payload, signature, rest, claims, -, -, -, hexp, -, heq⟩
  · rw [heq] at h
    cases h
  · rw [heq] at h
    cases h
  · rw [heq]
    intro entry hentry
    rcases List.mem_append.mp hentry with hentry | hentry
    · exact (mem_forget.mp hentry).2
    · rw [List.mem_singleton.mp hentry]
      exact hexp

/-- The history grows by a call that returns. -/
theorem accepted_of_ok {state : List Char} {userId : String}
    (h : (verifyState rt s state).1 = .ok userId) (hs : stateStep rt s (.verify state) = some s') :
    s'.accepted = ⟨state, userId, s.second⟩ :: s.accepted := by
  rcases @verifyState_cases rt s state with
    ⟨message, heq | heq⟩ | ⟨payload, signature, rest, claims, -, -, -, -, -, heq⟩
  · rw [heq] at h
    cases h
  · rw [heq] at h
    cases h
  · rw [heq] at h
    simp only [stateStep, heq] at hs
    cases h
    cases hs
    rfl

/-- A call that returns was given a state that was issued to the user it answers, at most ten
minutes before, and that no call has returned for. -/
theorem StatesInv.sound (h : StatesInv rt s) {state : List Char} {userId : String}
    (ha : Unforged rt s (.verify state)) (hok : (verifyState rt s state).1 = .ok userId) :
    ∃ i ∈ s.issued, (state.splitOn '.').headD [] = payloadOf rt i.claims ∧
      userId = i.userId ∧ i.second ≤ s.second ∧ s.second ≤ i.second + stateTtlSeconds ∧
      ∀ r ∈ s.accepted, r.payload ≠ payloadOf rt i.claims := by
  rcases @verifyState_cases rt s state with
    ⟨message, heq | heq⟩ | ⟨payload, signature, rest, claims, hsplit, hsigned, hparse, hexp,
      hnonce, heq⟩
  · rw [heq] at hok
    cases hok
  · rw [heq] at hok
    cases hok
  · obtain ⟨i, hi, rfl, rfl⟩ := claims_of_unforged hparse (ha payload signature rest hsplit hsigned)
    rw [heq] at hok
    cases hok
    exact ⟨i, hi, by rw [hsplit]; rfl, rfl, h.past i hi, hexp, h.fresh hi hexp hnonce⟩

/-- In every run of `issue` and `verify`, a state is accepted at most once, for the user it was
issued to and within its time, and no other state stands in its way. -/
theorem state_single_use (rt : StateRuntime) {p q : OAuthStates} {as : List StateAct}
    (hp : NoStates p) (hm : Meets (stateStep rt) (Unforged rt) p as)
    (hr : exec (stateStep rt) p as = some q) :
    (q.accepted.map (·.payload)).Nodup ∧
    (∀ r ∈ q.accepted, ∃ i ∈ q.issued, r.payload = payloadOf rt i.claims ∧ r.userId = i.userId ∧
      i.second ≤ r.second ∧ r.second ≤ i.second + 600) ∧
    (∀ i ∈ q.issued, q.second ≤ i.second + 600 →
      (∀ r ∈ q.accepted, r.payload ≠ payloadOf rt i.claims) →
      ∀ state rest, state.splitOn '.' = payloadOf rt i.claims ::
        sign rt (payloadOf rt i.claims) :: rest →
        (verifyState rt q state).1 = .ok i.userId) ∧
    ∀ state userId, (verifyState rt q state).1 = .ok userId →
      (Unforged rt q (.verify state) → ∃ i ∈ q.issued, (state.splitOn '.').headD [] =
        payloadOf rt i.claims ∧
        userId = i.userId ∧ i.second ≤ q.second ∧ q.second ≤ i.second + 600 ∧
        ∀ r ∈ q.accepted, r.payload ≠ payloadOf rt i.claims) ∧
      (∀ t, stateStep rt q (.verify state) = some t → t.accepted = ⟨state, userId, q.second⟩ ::
        q.accepted) ∧
      ∀ entry ∈ (verifyState rt q state).2.redeemed, q.second ≤ entry.2 := by
  have hinit : StatesInv rt p := by
    obtain ⟨hredeemed, hissued, haccepted⟩ := hp
    refine ⟨?_, ?_, ?_, ?_, ?_, ?_⟩ <;> simp [hredeemed, hissued, haccepted]
  have hinv := exec_invariant_of_meets (fun _ _ _ h ha hs => stateStep_inv h ha hs) hinit hm hr
  refine ⟨hinv.once, hinv.faithful, ?_, ?_⟩
  · intro i hi hexp hfresh state rest hstate
    exact hinv.accepts hi hexp hfresh hstate
  · intro state userId hok
    exact ⟨fun ha => hinv.sound ha hok, fun t ht => accepted_of_ok hok ht, forgotten_of_ok hok⟩

/-! ### A state that is accepted -/

/-- The text of the claims, with their members in the order in which `issue` sets them. -/
def claimsText (claims : StateClaims) : List Char :=
  "\x7b\"userId\":\"".toList ++ (claims.userId.toList.flatMap escapeChar ++ '"' ::
    (",\"nonce\":\"".toList ++ (claims.nonce.toList.flatMap escapeChar ++ '"' ::
      (",\"exp\":".toList ++ (Nat.toDigits 10 claims.exp ++ "\x7d".toList)))))

def readClaims (text : List Char) : Option StateClaims := do
  let userId ← unescape (← after "\x7b\"userId\":\"".toList text)
  let nonce ← unescape (← after ",\"nonce\":\"".toList userId.2)
  let exp := number (← after ",\"exp\":".toList nonce.2)
  if exp.2 = "\x7d".toList then some ⟨String.ofList userId.1, String.ofList nonce.1, exp.1⟩ else none

theorem readClaims_claimsText (claims : StateClaims) :
    readClaims (claimsText claims) = some claims := by
  have hend : Nat.toDigits 10 claims.exp ++ "\x7d".toList = Nat.toDigits 10 claims.exp ++ '\x7d' ::
      [] := rfl
  unfold readClaims claimsText
  simp only [after_append, unescape_escape, hend, number_append claims.exp
    (by decide : ('\x7d').isDigit = false),
    Option.bind_eq_bind, Option.bind_some, String.ofList_toList]
  rfl

/-- A keyed digest of one octet in place of HMAC-SHA256. -/
def plainRuntime : StateRuntime where
  hmac payload := [UInt8.ofNat payload.length]
  stringify := claimsText
  parse octets := readClaims (utf8Text octets)
  hmac_ne _ := List.cons_ne_nil _ _
  stringify_ne _ := List.cons_ne_nil _ _
  parse_stringify claims := by rw [utf8Text_utf8Octets, readClaims_claimsText]

/-- Nobody forges by presenting what was issued, whatever is added to it. -/
theorem unforged_of_issued {i : Issue} (hi : i ∈ s.issued) {state : List Char}
    (hstate : (state.splitOn '.').headD [] = payloadOf rt i.claims) :
    Unforged rt s (.verify state) := by
  intro payload signature rest hsplit _
  rw [hsplit] at hstate
  exact ⟨i, hi, hstate⟩

/-- The state that Alice is issued, with a part added to it. -/
def longState : List Char := stateOf plainRuntime ⟨"alice", "n", 600⟩ ++ ".x".toList

theorem splitOn_longState : longState.splitOn '.' =
    [payloadOf plainRuntime ⟨"alice", "n", 600⟩,
      sign plainRuntime (payloadOf plainRuntime ⟨"alice", "n", 600⟩), ['x']] := by
  unfold longState stateOf
  rw [List.append_assoc]
  exact splitOn_three (Base64.dot_not_mem_encode _) (Base64.dot_not_mem_encode _)

/-- A state is issued, five minutes later it is accepted with a part added to it, and from then on
as little with the part as without it. -/
theorem state_single_use_replay : ∃ q, exec (stateStep plainRuntime) ⟨0, [], [], []⟩
      [.issue "alice" "n", .tick 300000, .verify longState] = some q ∧
    q.accepted = [⟨longState, "alice", 300⟩] ∧
    ∀ userId, (verifyState plainRuntime q longState).1 ≠ .ok userId := by
  let i : Issue := ⟨"alice", "n", 0⟩
  let t : OAuthStates := ⟨300000, [], [i], []⟩
  have hfirst : (longState.splitOn '.').headD [] = payloadOf plainRuntime i.claims := by
    rw [splitOn_longState]
    rfl
  have hm : Meets (stateStep plainRuntime) (Unforged plainRuntime) ⟨0, [], [], []⟩
      [.issue "alice" "n", .tick 300000] :=
    ⟨trivial, fun _ _ => ⟨trivial, fun _ _ => trivial⟩⟩
  have hr : exec (stateStep plainRuntime) ⟨0, [], [], []⟩ [.issue "alice" "n", .tick 300000] =
      some t := rfl
  have hbefore := state_single_use plainRuntime ⟨rfl, rfl, rfl⟩ hm hr
  have hok : (verifyState plainRuntime t longState).1 = .ok "alice" :=
    hbefore.2.2.1 i List.mem_cons_self (by decide) (by simp [t]) longState
      ["x".toList] splitOn_longState
  obtain ⟨q, hq⟩ : ∃ q, stateStep plainRuntime t (.verify longState) = some q := ⟨_, rfl⟩
  have hsecond : t.second = 300 := by decide
  have haccepted : q.accepted = [⟨longState, "alice", 300⟩] := by
    rw [accepted_of_ok hok hq, hsecond]
  have hr' : exec (stateStep plainRuntime) ⟨0, [], [], []⟩
      [.issue "alice" "n", .tick 300000, .verify longState] = some q := hq
  have hm' : Meets (stateStep plainRuntime) (Unforged plainRuntime) ⟨0, [], [], []⟩
      [.issue "alice" "n", .tick 300000, .verify longState] := by
    refine ⟨trivial, fun u hu => ⟨trivial, fun v hv => ⟨?_, fun _ _ => trivial⟩⟩⟩
    cases hu
    cases hv
    exact @unforged_of_issued plainRuntime _ i List.mem_cons_self longState hfirst
  have hafter := state_single_use plainRuntime ⟨rfl, rfl, rfl⟩ hm' hr'
  have hmem : ⟨longState, "alice", 300⟩ ∈ q.accepted := by
    rw [haccepted]
    exact List.mem_cons_self
  refine ⟨q, hr', haccepted, fun userId hreplay => ?_⟩
  obtain ⟨j, hj, hpayload, -⟩ := hafter.2.1 _ hmem
  obtain ⟨k, -, hsame, -, -, -, hfresh⟩ :=
    (hafter.2.2.2 longState userId hreplay).1 (unforged_of_issued hj hpayload)
  exact hfresh _ hmem hsame

end Finlytic.EmailIngestion
