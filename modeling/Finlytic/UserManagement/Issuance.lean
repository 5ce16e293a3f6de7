import Finlytic.UserManagement.Families

/-! Two facts about answers of the session calls. Over every run, a refresh
token is handed out by one call only. And as long as no statement fails, no row
is swept and no account is switched off, a refresh that has spent its row ends
with a session. -/

namespace Finlytic.UserManagement

open Lib

variable {cfg : Config} {s s' : Store} {c c' : Call} {p q : Pool Store Call}

/-! ### Every token is handed out once -/

/-- The refresh token a call has issued and will answer, or has answered, with. -/
def held : Call → Option String
  | .refreshLink _ _ raw _ => some raw
  | .done o => o.token
  | _ => none

theorem held_start (r : Request) : held (start r) = none := by
  cases r with
  | login email password client => rfl
  | refresh raw client => simp only [start]; split_ifs <;> rfl
  | logout raw => simp only [start]; split_ifs <;> rfl

/-- A statement hands out nothing, what the call already held, or a new draw. -/
theorem held_transition (ht : Transition cfg s c s' c') :
    held c' = none ∨ held c' = held c ∨ ∃ t, t ∉ s.tokens ∧ t ∈ s'.tokens ∧ held c' = some t := by
  cases ht with
  | stop c o ho => exact .inl ho
  | startFamily user client d s' record hf hi =>
    obtain ⟨hraw, -, -, -, -, -, -, -, -, rfl⟩ := issue_spec hi
    exact .inr (.inr ⟨d.raw, hraw, by simp, rfl⟩)
  | issue user spent client d s' record hi =>
    obtain ⟨hraw, -, -, -, -, -, -, -, -, rfl⟩ := issue_spec hi
    exact .inr (.inr ⟨d.raw, hraw, by simp, rfl⟩)
  | link user spentId raw issuedId s' hl => exact .inr (.inl rfl)
  | revokeReuse f o ho | revokeInactive f o ho | revokeLogout f o ho => exact .inl ho
  | _ => exact .inl rfl

/-- Held tokens were drawn, and no two calls hold the same one. -/
structure HeldInv (p : Pool Store Call) : Prop where
  drawn : ∀ c ∈ p.calls, ∀ t, held c = some t → t ∈ p.store.tokens
  once : ∀ (i j : ℕ) (c c' : Call) (t : String), p.calls[i]? = some c → p.calls[j]? = some c' →
    held c = some t → held c' = some t → i = j

theorem heldInv_call (h : HeldInv p) (r : Request) : HeldInv ⟨p.store, p.calls ++ [start r]⟩ := by
  have hold : ∀ (i : ℕ) (c : Call) (t : String), (p.calls ++ [start r])[i]? = some c →
      held c = some t → p.calls[i]? = some c := by
    intro i c t hi ht
    rcases getElem?_concat_cases hi with hi | ⟨-, rfl⟩
    · exact hi
    · rw [held_start] at ht
      cases ht
  refine ⟨fun c hc t ht => ?_, fun i j c c' t hi hj ht ht' => ?_⟩
  · obtain ⟨i, hi⟩ := List.mem_iff_getElem?.mp hc
    exact h.drawn c (List.mem_of_getElem? (hold i c t hi ht)) t ht
  · exact h.once i j c c' t (hold i c t hi ht) (hold j c' t hj ht') ht ht'

theorem heldInv_run {i : ℕ} (h : HeldInv p) (hi : p.calls[i]? = some c)
    (ht : Transition cfg p.store c s' c') :
    HeldInv ⟨s', p.calls.set i c'⟩ := by
  have hgrows := grows_transition ht
  -- a token held after the step was held by the same call before, or is the new draw of call `i`
  have hold : ∀ (j : ℕ) (c₂ : Call) (t : String), (p.calls.set i c')[j]? = some c₂ → held c₂ = some t →
      (∃ c₁, p.calls[j]? = some c₁ ∧ held c₁ = some t) ∨
        (j = i ∧ t ∉ p.store.tokens ∧ t ∈ s'.tokens) := by
    intro j c₂ t hj ht₂
    rcases getElem?_set_cases hj with ⟨rfl, rfl⟩ | ⟨-, hj'⟩
    · rcases held_transition ht with hn | hs | ⟨t', hnew, hin, he⟩
      · rw [hn] at ht₂
        cases ht₂
      · exact .inl ⟨c, hi, hs.symm.trans ht₂⟩
      · obtain rfl := Option.some.inj (he.symm.trans ht₂)
        exact .inr ⟨rfl, hnew, hin⟩
    · exact .inl ⟨c₂, hj', ht₂⟩
  refine ⟨fun c₂ hc₂ t ht₂ => ?_, fun j k c₂ c₃ t hj hk ht₂ ht₃ => ?_⟩
  · obtain ⟨j, hj⟩ := List.mem_iff_getElem?.mp hc₂
    rcases hold j c₂ t hj ht₂ with ⟨c₁, hc₁, hh⟩ | ⟨-, -, hin⟩
    · exact hgrows.tokens t (h.drawn c₁ (List.mem_of_getElem? hc₁) t hh)
    · exact hin
  · rcases hold j c₂ t hj ht₂ with ⟨c₁, hc₁, hh⟩ | ⟨hji, hnew, -⟩
    · rcases hold k c₃ t hk ht₃ with ⟨c₁', hc₁', hh'⟩ | ⟨-, hnew, -⟩
      · exact h.once j k c₁ c₁' t hc₁ hc₁' hh hh'
      · exact absurd (h.drawn c₁ (List.mem_of_getElem? hc₁) t hh) hnew
    · rcases hold k c₃ t hk ht₃ with ⟨c₁', hc₁', hh'⟩ | ⟨hki, -, -⟩
      · exact absurd (h.drawn c₁' (List.mem_of_getElem? hc₁') t hh') hnew
      · exact hji.trans hki.symm

theorem heldInv_step {a : Action Request Choice Event} (h : HeldInv p)
    (hs : (auth cfg).step p a = some q) :
    HeldInv q := by
  obtain ⟨r, -, rfl⟩ | ⟨i, d, c, t, c', -, hi, hc, rfl⟩ | ⟨e, t, -, he, rfl⟩ := Program.step_cases hs
  · exact heldInv_call h r
  · exact heldInv_run h hi (statement_transition hc)
  · have hgrows : Grows cfg p.store t := grows_environment he
    exact ⟨fun c hc x hx => hgrows.tokens x (h.drawn c hc x hx), h.once⟩

/-! ### A refresh that has spent its row ends with a session -/

/-- User ids are unique, every row belongs to an active account, and only a
spend has revoked a row. -/
structure Settled (cfg : Config) (s : Store) : Prop where
  users : (s.users.map (·.id)).Nodup
  owners : ∀ r ∈ s.refreshTokens, ∃ u ∈ s.users, u.id = r.userId ∧ u.isActive = true
  revoked : ∀ r ∈ s.refreshTokens, r.revokedAt ≠ none → ∃ raw ∈ s.spends, r.tokenHash =
    cfg.fingerprint raw

/-- What a call has read is still there, and it is not on its way to a revocation. -/
def Sound (cfg : Config) (s : Store) : Call → Prop
  | .loginStart user _ => user ∈ s.users ∧ user.isActive = true
  | .refreshReread raw _ _ => ∃ r ∈ s.refreshTokens, r.tokenHash = cfg.fingerprint raw
  | .refreshUser spent _ => ∃ r ∈ s.refreshTokens, r.id = spent.id ∧ r.userId = spent.userId
  | .refreshIssue user spent _ => (∃ r ∈ s.refreshTokens, r.id = spent.id) ∧ user ∈ s.users ∧
    user.isActive = true
  | .refreshLink _ spentId _ _ => ∃ r ∈ s.refreshTokens, r.id = spentId
  | .refreshReuse _ | .refreshInactive _ | .logoutFind _ | .logoutRevoke _ => False
  | _ => True

/-- Accounts stay as they are, and no row goes away. -/
def Persists (s s' : Store) : Prop :=
  s'.users = s.users ∧ ∀ r ∈ s.refreshTokens, ∃ r' ∈ s'.refreshTokens,
    r'.id = r.id ∧ r'.tokenHash = r.tokenHash ∧ r'.userId = r.userId

theorem Persists.refl (s : Store) : Persists s s := ⟨rfl, fun r hr => ⟨r, hr, rfl, rfl, rfl⟩⟩

theorem Sound.persists (hp : Persists s s') (h : Sound cfg s c) : Sound cfg s' c := by
  obtain ⟨hu, hr⟩ := hp
  cases c with
  | loginStart user client => exact ⟨hu ▸ h.1, h.2⟩
  | refreshReread raw client f =>
    obtain ⟨r, hrm, hh⟩ := h
    obtain ⟨r', hr', -, hh', -⟩ := hr r hrm
    exact ⟨r', hr', hh'.trans hh⟩
  | refreshUser spent client =>
    obtain ⟨r, hrm, hid, huid⟩ := h
    obtain ⟨r', hr', hid', -, huid'⟩ := hr r hrm
    exact ⟨r', hr', hid'.trans hid, huid'.trans huid⟩
  | refreshIssue user spent client =>
    obtain ⟨⟨r, hrm, hid⟩, hum, ha⟩ := h
    obtain ⟨r', hr', hid', -, -⟩ := hr r hrm
    exact ⟨⟨r', hr', hid'.trans hid⟩, hu ▸ hum, ha⟩
  | refreshLink user spentId raw issuedId =>
    obtain ⟨r, hrm, hid⟩ := h
    obtain ⟨r', hr', hid', -, -⟩ := hr r hrm
    exact ⟨r', hr', hid'.trans hid⟩
  | _ => exact h

theorem persists_updateMany {set : RefreshToken → RefreshToken} (hk : Keeps set)
    (sel : RefreshToken → Bool) (log : List String) :
    Persists s { s with refreshTokens := Table.updateMany sel set s.refreshTokens, spends :=
      log } := by
  refine ⟨rfl, fun r hr => ?_⟩
  cases hsel : sel r with
  | true =>
    exact ⟨set r, Table.mem_updateMany.mpr ⟨r, hr, .inl ⟨hsel, rfl⟩⟩, hk.id r, hk.tokenHash r,
      hk.userId r⟩
  | false => exact ⟨r, Table.mem_updateMany.mpr ⟨r, hr, .inr ⟨hsel, rfl⟩⟩, rfl, rfl, rfl⟩

theorem persists_issue {userId familyId : String} {client : ClientMeta} {d : Draw}
    {record : RefreshToken} (hi : issue cfg s userId familyId client d = some (s', record)) :
    Persists s s' := by
  obtain ⟨-, -, -, -, -, -, -, -, -, rfl⟩ := issue_spec hi
  exact ⟨rfl, fun r hr => ⟨r, List.mem_append_left _ hr, rfl, rfl, rfl⟩⟩

theorem Settled.spendUpdate (h : Settled cfg s) (raw : String) :
    Settled cfg (spendUpdate cfg s raw) := by
  refine ⟨h.users, fun x hx => ?_, fun x hx hrev => ?_⟩
  · obtain ⟨r, hr, -, -, -, hu, -⟩ := (keeps_revoke s.now).exists_of_mem hx
    rw [hu]
    exact h.owners r hr
  · obtain ⟨r, hr, ⟨hsel, rfl⟩ | ⟨-, rfl⟩⟩ := Table.mem_updateMany.mp hx
    · refine ⟨raw, List.mem_cons_self, ?_⟩
      simp only [spendable, Bool.and_eq_true, decide_eq_true_eq] at hsel
      exact hsel.1.1
    · obtain ⟨t, ht, hh⟩ := h.revoked x hr hrev
      exact ⟨t, List.mem_cons_of_mem _ ht, hh⟩

theorem Settled.issue (h : Settled cfg s) {user : User} (hu : user ∈ s.users)
    (ha : user.isActive = true) {familyId : String} {client : ClientMeta} {d : Draw}
    {record : RefreshToken} (hi : issue cfg s user.id familyId client d = some (s', record)) :
    Settled cfg s' := by
  obtain ⟨-, -, -, huid, -, -, -, hlive, -, rfl⟩ := issue_spec hi
  refine ⟨h.users, fun r hr => ?_, fun r hr hrev => ?_⟩
  · rcases List.mem_append.mp hr with hr | hr
    · exact h.owners r hr
    · rw [List.mem_singleton.mp hr]
      exact ⟨user, hu, huid.symm, ha⟩
  · rcases List.mem_append.mp hr with hr | hr
    · exact h.revoked r hr hrev
    · rw [List.mem_singleton.mp hr] at hrev
      exact absurd hlive hrev

theorem Settled.link (h : Settled cfg s) {spentId issuedId : String}
    (hl : linkReplacement s spentId issuedId = some s') : Settled cfg s' := by
  rw [linkReplacement_spec hl]
  refine ⟨h.users, fun x hx => ?_, fun x hx hrev => ?_⟩
  · obtain ⟨r, hr, -, -, -, hu, -⟩ := (keeps_link issuedId).exists_of_mem hx
    rw [hu]
    exact h.owners r hr
  · obtain ⟨r, hr, ⟨-, rfl⟩ | ⟨-, rfl⟩⟩ := Table.mem_updateMany.mp hx
    · exact h.revoked r hr hrev
    · exact h.revoked x hr hrev

/-- The owner a settled store finds for a row is active. -/
theorem Settled.findById (h : Settled cfg s) {r : RefreshToken} (hr : r ∈ s.refreshTokens) :
    ∃ u, findById s r.userId = some u ∧ u ∈ s.users ∧ u.isActive = true := by
  obtain ⟨u, hu, hid, ha⟩ := h.owners r hr
  have hsome : (UserManagement.findById s r.userId).isSome :=
    List.find?_isSome.mpr ⟨u, hu, by simpa using hid⟩
  obtain ⟨v, hv⟩ := Option.isSome_iff_exists.mp hsome
  obtain ⟨hvm, hvid⟩ := findById_spec hv
  obtain rfl : v = u := Table.eq_of_nodup_key h.users hvm hu (hvid.trans hid.symm)
  exact ⟨v, hv, hvm, ha⟩

variable {raw f : String} {client : ClientMeta} {spent : RefreshToken} {d : Draw}

theorem statement_reread (hc : Sound cfg s (.refreshReread raw client f)) :
    ∃ spent ∈ s.refreshTokens,
    statement cfg s (.refreshReread raw client f) (.ok d) =
      some (s, .refreshUser spent client) := by
  obtain ⟨r, hr, hh⟩ := hc
  have hsome : (findByHash cfg s raw).isSome := List.find?_isSome.mpr ⟨r, hr, by simpa using hh⟩
  obtain ⟨spent, hspent⟩ := Option.isSome_iff_exists.mp hsome
  refine ⟨spent, (findByHash_spec hspent).1, ?_⟩
  simp only [statement, hspent]

/-- A token that was not accepted before does not look replayed. -/
theorem statement_existing (h : Settled cfg s) (hraw : raw ∉ s.spends) :
    statement cfg s (.refreshExisting raw) (.ok d) =
      some (s, .done (.unauthorized "Invalid refresh token")) := by
  cases hf : findByHash cfg s raw with
  | none => simp only [statement, hf]
  | some existing =>
    obtain ⟨hmem, hh⟩ := findByHash_spec hf
    have hlive : existing.revokedAt = none := by
      by_contra hrev
      obtain ⟨t, ht, hth⟩ := h.revoked existing hmem hrev
      exact hraw (cfg.fingerprint_injective (hh.symm.trans hth) ▸ ht)
    simp [statement, hf, hlive]

theorem statement_user (h : Settled cfg s) (hc : Sound cfg s (.refreshUser spent client)) :
    ∃ u ∈ s.users, u.isActive = true ∧
      statement cfg s (.refreshUser spent client) (.ok d) =
        some (s, .refreshIssue u spent client) := by
  obtain ⟨r, hr, -, hu⟩ := hc
  obtain ⟨u, hfind, hmem, ha⟩ := h.findById hr
  refine ⟨u, hmem, ha, ?_⟩
  rw [hu] at hfind
  simp only [statement, hfind, ha, if_true]

theorem statement_link {user : User} {spentId issuedId : String}
    (hc : Sound cfg s (.refreshLink user spentId raw issuedId)) :
    ∃ t, linkReplacement s spentId issuedId = some t ∧
      statement cfg s (.refreshLink user spentId raw issuedId) (.ok d) =
        some (t, .done (.session (buildSession cfg user raw))) := by
  obtain ⟨r, hr, hid⟩ := hc
  have hany : s.refreshTokens.any (·.id = spentId) = true :=
    List.any_eq_true.mpr ⟨r, hr, by simpa using hid⟩
  have hl : linkReplacement s spentId issuedId = some
      { s with refreshTokens :=
        Table.updateMany (·.id = spentId) (link issuedId) s.refreshTokens } := if_pos hany
  refine ⟨_, hl, ?_⟩
  simp only [statement, hl]

/-- One statement on a settled store, by a call that is not about to mistake
its token for a replayed one. -/
theorem settled_statement (h : Settled cfg s) (hc : Sound cfg s c)
    (hx : ∀ raw, c = .refreshExisting raw → raw ∉ s.spends)
    (hst : statement cfg s c (.ok d) = some (s', c')) :
    Settled cfg s' ∧ Sound cfg s' c' ∧ Persists s s' := by
  cases c with
  | done o => cases hst
  | loginFind email password client =>
    simp only [statement] at hst
    split at hst
    · rename_i user hu
      split_ifs at hst with hok
      · cases hst
        simp only [Bool.and_eq_true] at hok
        exact ⟨h, ⟨List.mem_of_find?_eq_some hu, hok.2⟩, .refl s⟩
      · cases hst; exact ⟨h, trivial, .refl s⟩
    · cases hst; exact ⟨h, trivial, .refl s⟩
  | loginStart user client =>
    simp only [statement] at hst
    split_ifs at hst
    obtain ⟨⟨t, record⟩, hi, he⟩ := Option.map_eq_some_iff.mp hst
    cases he
    exact ⟨h.issue hc.1 hc.2 hi, trivial, persists_issue hi⟩
  | refreshSpend raw client =>
    simp only [statement] at hst
    split at hst
    · rename_i row hr
      cases hst
      have hp : Persists s (spendUpdate cfg s raw) := persists_updateMany (keeps_revoke s.now) _ _
      obtain ⟨hmem, hhash, -, -⟩ := spendRow_spec hr
      obtain ⟨r', hr', -, hh', -⟩ := hp.2 row hmem
      exact ⟨h.spendUpdate raw, ⟨r', hr', hh'.trans hhash⟩, hp⟩
    · cases hst; exact ⟨h, trivial, .refl s⟩
  | refreshReread raw client f =>
    obtain ⟨spent, hmem, he⟩ := @statement_reread cfg s raw f client d hc
    cases he.symm.trans hst
    exact ⟨h, ⟨spent, hmem, rfl, rfl⟩, .refl s⟩
  | refreshExisting raw =>
    cases (statement_existing h (hx raw rfl)).symm.trans hst
    exact ⟨h, trivial, .refl s⟩
  | refreshUser spent client =>
    obtain ⟨u, hu, ha, he⟩ := @statement_user cfg s client spent d h hc
    cases he.symm.trans hst
    obtain ⟨r, hr, hid, -⟩ := hc
    exact ⟨h, ⟨⟨r, hr, hid⟩, hu, ha⟩, .refl s⟩
  | refreshIssue user spent client =>
    simp only [statement] at hst
    obtain ⟨⟨t, record⟩, hi, he⟩ := Option.map_eq_some_iff.mp hst
    cases he
    obtain ⟨⟨r, hr, hid⟩, hu, ha⟩ := hc
    obtain ⟨r', hr', hid', -, -⟩ := (persists_issue hi).2 r hr
    exact ⟨h.issue hu ha hi, ⟨r', hr', hid'.trans hid⟩, persists_issue hi⟩
  | refreshLink user spentId raw issuedId =>
    obtain ⟨t, hl, he⟩ := @statement_link cfg s raw d user spentId issuedId hc
    cases he.symm.trans hst
    have hp : Persists s s' := by
      rw [linkReplacement_spec hl]
      exact persists_updateMany (keeps_link issuedId) _ s.spends
    exact ⟨h.link hl, trivial, hp⟩
  | refreshReuse f | refreshInactive f | logoutFind raw | logoutRevoke f => exact hc.elim

/-- How a refresh that was called with `v` stands to the tokens accepted so far. -/
def Serving (spends : List String) (v : String) : Call → Prop
  | .refreshSpend raw _ | .refreshExisting raw => raw = v ∧ v ∉ spends
  | .refreshReread _ _ _ | .refreshUser _ _ | .refreshIssue _ _ _ | .refreshLink _ _ _ _ | .done
    (.session _) => True
  | .done _ => v ∉ spends
  | _ => False

/-- The only token a refresh of `v` spends is `v`, and once it is spent the refresh ends with a
session. -/
theorem serving_statement {v : String} (h : Settled cfg s) (hc : Sound cfg s c)
    (hv : Serving s.spends v c) (hst : statement cfg s c (.ok d) = some (s', c')) :
    Serving s'.spends v c' ∧ ∀ t ∈ s'.spends, t = v ∨ t ∈ s.spends := by
  cases c with
  | refreshSpend raw client =>
    obtain ⟨rfl, hv⟩ := hv
    simp only [statement] at hst
    split at hst
    · cases hst
      exact ⟨trivial, fun t ht => List.mem_cons.mp ht⟩
    · cases hst
      exact ⟨⟨rfl, hv⟩, fun t ht => .inr ht⟩
  | refreshReread raw client f =>
    obtain ⟨spent, -, he⟩ := @statement_reread cfg s raw f client d hc
    cases he.symm.trans hst
    exact ⟨trivial, fun t ht => .inr ht⟩
  | refreshExisting raw =>
    obtain ⟨rfl, hv⟩ := hv
    cases (statement_existing h hv).symm.trans hst
    exact ⟨hv, fun t ht => .inr ht⟩
  | refreshUser spent client =>
    obtain ⟨u, -, -, he⟩ := @statement_user cfg s client spent d h hc
    cases he.symm.trans hst
    exact ⟨trivial, fun t ht => .inr ht⟩
  | refreshIssue user spent client =>
    simp only [statement] at hst
    obtain ⟨⟨t, record⟩, hi, he⟩ := Option.map_eq_some_iff.mp hst
    cases he
    obtain ⟨-, -, -, -, -, -, -, -, -, rfl⟩ := issue_spec hi
    exact ⟨trivial, fun t ht => .inr ht⟩
  | refreshLink user spentId raw issuedId =>
    obtain ⟨t, hl, he⟩ := @statement_link cfg s raw d user spentId issuedId hc
    cases he.symm.trans hst
    rw [linkReplacement_spec hl]
    exact ⟨trivial, fun t ht => .inr ht⟩
  | done o => cases hst
  | _ => exact hv.elim

/-- The program counters of a login. -/
def loggingIn : Call → Bool
  | .loginFind _ _ _ | .loginStart _ _ | .done _ => true
  | _ => false

theorem loggingIn_statement (hv : loggingIn c = true)
    (hst : statement cfg s c (.ok d) = some (s', c')) :
    loggingIn c' = true ∧ s'.spends = s.spends := by
  cases c with
  | loginFind email password client =>
    simp only [statement] at hst
    split at hst
    · split_ifs at hst <;> cases hst <;> exact ⟨rfl, rfl⟩
    · cases hst; exact ⟨rfl, rfl⟩
  | loginStart user client =>
    simp only [statement] at hst
    split_ifs at hst
    obtain ⟨⟨t, record⟩, hi, he⟩ := Option.map_eq_some_iff.mp hst
    cases he
    obtain ⟨-, -, -, -, -, -, -, -, -, rfl⟩ := issue_spec hi
    exact ⟨rfl, rfl⟩
  | done o => cases hst
  | _ => cases hv

end Finlytic.UserManagement
