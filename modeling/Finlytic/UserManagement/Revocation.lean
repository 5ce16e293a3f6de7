import Finlytic.UserManagement.Families
import Mathlib.Data.Fintype.EquivFin

/-! When the revocation of a family is final. `revokeFamily` closes every live
row, but a refresh that has spent its row and not issued the replacement yet
holds no row at all: it inserts a live one afterwards. A revocation is final
exactly when no refresh of the family is between those two statements. -/

namespace Finlytic.UserManagement

open Lib

variable {cfg : Config} {s s' : Store} {c c' : Call} {p q : Pool Store Call} {f : String}
  {a : Action Request Choice Event}

/-! ### The two events -/

/-- The step completes `revokeFamily f`: on reuse, on logout, or for an inactive user. -/
def Revokes (p : Pool Store Call) (a : Action Request Choice Event) (f : String) : Prop :=
  ∃ i d, a = .run i (.ok d) ∧
    (p.calls[i]? = some (.refreshReuse f) ∨ p.calls[i]? = some (.refreshInactive f) ∨
    p.calls[i]? = some (.logoutRevoke f))

/-- The step is a spend that accepts a token of the family. -/
def Accepts (cfg : Config) (p : Pool Store Call) (a : Action Request Choice Event) (f : String) :
    Prop :=
  ∃ i d raw client row, a = .run i (.ok d) ∧ p.calls[i]? = some (.refreshSpend raw client) ∧
    spendRow cfg p.store raw = some row ∧ row.familyId = f

/-- No continuation of the run accepts a token of the family. -/
def Final (cfg : Config) (p : Pool Store Call) (f : String) : Prop :=
  ∀ bs r a, exec (auth cfg).step p bs = some r → ¬ Accepts cfg r a f

/-- A refresh that has spent a row of the family and can still issue a replacement. -/
def mayIssue (cfg : Config) (s : Store) (f : String) : Call → Prop
  | .refreshReread raw _ g => g = f ∧ (findByHash cfg s raw).isSome
  | .refreshUser spent _ => spent.familyId = f
  | .refreshIssue _ spent _ => spent.familyId = f
  | _ => False

/-! ### A closed family stays closed -/

/-- The family was drawn and has no live row. -/
def ClosedRows (f : String) (s : Store) : Prop :=
  f ∈ s.families ∧ s.refreshTokens.countP (liveIn f) = 0

theorem findByHash_isSome_grows (hg : Grows cfg s s') {raw : String} (hraw : raw ∈ s.tokens)
    (h : (findByHash cfg s' raw).isSome) : (findByHash cfg s raw).isSome := by
  obtain ⟨x, hx⟩ := Option.isSome_iff_exists.mp h
  obtain ⟨hmem, hhash⟩ := findByHash_spec hx
  rcases hg.rows x hmem with ⟨r, hr, hh, -⟩ | ⟨t, ht, hh⟩
  · refine List.find?_isSome.mpr ⟨r, hr, ?_⟩
    simpa using hh.symm.trans hhash
  · rw [hhash] at hh
    exact absurd (cfg.fingerprint_injective hh ▸ hraw) ht

/-- A refresh that cannot issue any more never can again. -/
theorem mayIssue_grows (hg : Grows cfg s s') (hc : CallInv cfg s c) (h : mayIssue cfg s' f c) :
    mayIssue cfg s f c := by
  cases c with
  | refreshReread raw client g => exact ⟨h.1, findByHash_isSome_grows hg hc.1 h.2⟩
  | refreshUser spent client => exact h
  | refreshIssue user spent client => exact h
  | _ => exact h.elim

theorem live_eq_zero (h : s.refreshTokens.countP (liveIn f) = 0) {r : RefreshToken}
    (hr : r ∈ s.refreshTokens) (hlive : r.revokedAt = none) : r.familyId ≠ f := by
  intro hf
  have := List.countP_eq_zero.mp h r hr
  simp [liveIn, hf, hlive] at this

/-- On a closed family no statement spends, and none but a pending refresh issues. -/
theorem closed_transition (hcl : ClosedRows f s) (hc : CallInv cfg s c) (hn : ¬ mayIssue cfg s f c)
    (ht : Transition cfg s c s' c') : ClosedRows f s' ∧ ¬ mayIssue cfg s' f c' := by
  obtain ⟨hf, hlive⟩ := hcl
  have revoked : ∀ (sel) (log : List String),
      ClosedRows f
        { s with refreshTokens := Table.updateMany sel (revoke s.now) s.refreshTokens, spends :=
        log } := by
    intro sel log
    exact ⟨hf, Nat.le_zero.mp (hlive ▸ countP_live_revoke sel s.now s.refreshTokens f)⟩
  cases ht with
  | stop | loginStart | notSpent | reuse | logoutFind => exact ⟨⟨hf, hlive⟩, id⟩
  | startFamily user client d s' record hd hi =>
    have hne : d.familyId ≠ f := by rintro rfl; exact hd hf
    have hcount := countP_live_issue hi f
    simp only [hlive, hne, decide_false, Bool.toNat_false] at hcount
    exact ⟨⟨(grows_issue hi).families f hf, hcount⟩, id⟩
  | spend raw client row hr =>
    obtain ⟨hmem, -, hnone, -⟩ := spendRow_spec hr
    exact ⟨revoked _ _, fun h => live_eq_zero hlive hmem hnone h.1⟩
  | reread raw client g spent hr =>
    obtain ⟨hmem, hhash⟩ := findByHash_spec hr
    refine ⟨⟨hf, hlive⟩, fun h => hn ⟨?_, by rw [hr]; rfl⟩⟩
    exact (hc.2.2 spent hmem hhash).symm.trans h
  | active user spent client => exact ⟨⟨hf, hlive⟩, hn⟩
  | inactive spent client => exact ⟨⟨hf, hlive⟩, id⟩
  | issue user spent client d s' record hi =>
    have hne : spent.familyId ≠ f := hn
    have hcount := countP_live_issue hi f
    simp only [hlive, hne, decide_false, Bool.toNat_false] at hcount
    exact ⟨⟨(grows_issue hi).families f hf, hcount⟩, id⟩
  | link user spentId raw issuedId s' hl =>
    rw [linkReplacement_spec hl]
    refine ⟨⟨hf, Nat.le_zero.mp (hlive ▸ ?_)⟩, id⟩
    exact Table.countP_updateMany_le _ fun r h => h
  | revokeReuse g | revokeInactive g | revokeLogout g => exact ⟨revoked _ _, id⟩

theorem closed_environment (cfg : Config) (hcl : ClosedRows f s) {e : Event}
    (he : environment s e = some s') : ClosedRows f s' :=
  ⟨(@grows_environment cfg s s' e he).families f hcl.1, Nat.le_zero.mp (hcl.2 ▸ environment_open he f)⟩

/-- No live row and no refresh that could add one. -/
def Closed (cfg : Config) (f : String) (p : Pool Store Call) : Prop :=
  p.Holds (fun s => RowsInv cfg s ∧ ClosedRows f s) (fun s c => CallInv cfg s c ∧ ¬ mayIssue cfg s f c)

theorem not_mayIssue_start (s : Store) (f : String) (r : Request) : ¬ mayIssue cfg s f (start r) :=
  start_induction (fun c => ¬ mayIssue cfg s f c) (fun _ _ _ h => h) (fun _ _ h => h) (fun _ h => h)
    (fun _ h => h) r

theorem closed_step (h : Closed cfg f p) (hs : (auth cfg).step p a = some q) : Closed cfg f q := by
  refine Program.step_stable (fun s r _ => ⟨callInv_start s r, not_mayIssue_start s f r⟩) ?_ ?_ h hs
  · intro s c d s' c' hI hJ hc
    have ht := statement_transition hc
    obtain ⟨hcl, hn⟩ := closed_transition hI.2 hJ.1 hJ.2 ht
    refine ⟨⟨hI.1.transition ht, hcl⟩, ⟨callInv_transition hI.1 hJ.1 ht, hn⟩, fun c₂ h₂ => ?_⟩
    have hg := grows_transition ht
    exact ⟨h₂.1.grows hg, fun hm => h₂.2 (mayIssue_grows hg h₂.1 hm)⟩
  · intro s e s' hI he
    have hg : Grows cfg s s' := grows_environment he
    exact ⟨⟨hI.1.environment he, closed_environment cfg hI.2 he⟩,
      fun c₂ h₂ => ⟨h₂.1.grows hg, fun hm => h₂.2 (mayIssue_grows hg h₂.1 hm)⟩⟩

theorem Closed.final (h : Closed cfg f p) : Final cfg p f := by
  rintro bs r a hr ⟨i, d, raw, client, row, -, -, hrow, hf⟩
  have hclosed : Closed cfg f r := exec_invariant (fun _ _ _ => closed_step) h hr
  obtain ⟨hmem, -, hlive, -⟩ := spendRow_spec hrow
  exact live_eq_zero hclosed.1.2.2 hmem hlive hf

/-! ### A pending refresh reopens the family -/

/-- The user a call has read is in the table. -/
def KnowsUser (ids : List String) : Call → Prop
  | .loginStart user _ | .refreshIssue user _ _ => user.id ∈ ids
  | .refreshUser spent _ => spent.userId ∈ ids
  | _ => True

/-- The foreign keys: every user that a row or a call names is in the table. -/
def UserInv (p : Pool Store Call) : Prop :=
  p.Holds (fun s => ∀ r ∈ s.refreshTokens, r.userId ∈ s.users.map (·.id)) fun s => KnowsUser (s.users.map (·.id))

theorem users_transition (ht : Transition cfg s c s' c') : s'.users = s.users := by
  cases ht with
  | startFamily user client d s' record hf hi => obtain ⟨-, -, -, -, -, -, -, -, -, rfl⟩ := issue_spec hi; rfl
  | issue user spent client d s' record hi => obtain ⟨-, -, -, -, -, -, -, -, -, rfl⟩ := issue_spec hi; rfl
  | link user spentId raw issuedId s' hl => rw [linkReplacement_spec hl]
  | _ => rfl

theorem userIds_environment {e : Event} (he : environment s e = some s') :
    s'.users.map (·.id) = s.users.map (·.id) := by
  cases e with
  | tick ms => cases he; rfl
  | setActive u b => cases he; exact Table.map_updateMany _ fun _ => rfl
  | sweep => cases he; rfl

theorem knowsUser_transition {ids : List String} (hids : ∀ u ∈ s.users, u.id ∈ ids)
    (hrows : ∀ r ∈ s.refreshTokens, r.userId ∈ ids) (hc : KnowsUser ids c)
    (ht : Transition cfg s c s' c') :
    (∀ r ∈ s'.refreshTokens, r.userId ∈ ids) ∧ KnowsUser ids c' := by
  have updated : ∀ (sel) (set), Keeps set → ∀ r ∈ Table.updateMany sel set s.refreshTokens,
      r.userId ∈ ids := by
    intro sel set hk x hx
    obtain ⟨r, hr, -, -, -, hu, -⟩ := hk.exists_of_mem hx
    exact hu ▸ hrows r hr
  have issued : ∀ {userId familyId client d record}, userId ∈ ids →
      issue cfg s userId familyId client d = some (s', record) → ∀ r ∈ s'.refreshTokens, r.userId ∈
        ids := by
    intro userId familyId client d record hu hi r hr
    obtain ⟨-, -, -, hru, -, -, -, -, -, rfl⟩ := issue_spec hi
    rcases List.mem_append.mp hr with hr | hr
    · exact hrows r hr
    · rw [List.mem_singleton.mp hr, hru]; exact hu
  cases ht with
  | stop | notSpent | reuse | inactive | logoutFind => exact ⟨hrows, trivial⟩
  | loginStart user email password client hu => exact ⟨hrows, hids user hu⟩
  | startFamily user client d s' record hf hi => exact ⟨issued hc hi, trivial⟩
  | spend raw client row hr => exact ⟨updated _ _ (keeps_revoke s.now), trivial⟩
  | reread raw client g spent hr => exact ⟨hrows, hrows spent (findByHash_spec hr).1⟩
  | active user spent client hu => exact ⟨hrows, hids user hu⟩
  | issue user spent client d s' record hi => exact ⟨issued hc hi, trivial⟩
  | link user spentId raw issuedId s' hl =>
    rw [linkReplacement_spec hl]
    exact ⟨updated _ _ (keeps_link issuedId), trivial⟩
  | revokeReuse g | revokeInactive g | revokeLogout g =>
    exact ⟨updated _ _ (keeps_revoke s.now), trivial⟩

theorem userInv_step (h : UserInv p) (hs : (auth cfg).step p a = some q) : UserInv q := by
  refine Program.step_stable (fun s r _ => ?_) ?_ ?_ h hs
  · exact start_induction (KnowsUser _) (fun _ _ _ => trivial) (fun _ _ => trivial) (fun _ => trivial)
      (fun _ => trivial) r
  · intro s c d s' c' hI hJ hc
    have ht := statement_transition hc
    rw [users_transition ht]
    obtain ⟨h1, h2⟩ := knowsUser_transition (fun u hu => List.mem_map_of_mem hu) hI hJ ht
    exact ⟨h1, h2, fun _ h₂ => h₂⟩
  · intro s e s' hI he
    rw [userIds_environment he]
    refine ⟨fun r hr => ?_, fun _ h₂ => h₂⟩
    cases e with
    | tick ms => cases he; exact hI r hr
    | setActive u b => cases he; exact hI r hr
    | sweep => cases he; exact hI r (Table.mem_deleteMany.mp hr).1

theorem userInv_reachable (h : Reachable (auth cfg).step Fresh p) : UserInv p := by
  refine h.invariant (fun p hp => ?_) fun _ _ _ => userInv_step
  obtain ⟨hc, hr, -⟩ := hp
  constructor <;> simp [hc, hr]

/-- Some continuation accepts a token of the family. -/
def Reopens (cfg : Config) (p : Pool Store Call) (f : String) : Prop :=
  ∃ bs r a, exec (auth cfg).step p bs = some r ∧ Accepts cfg r a f

theorem Reopens.of_step (hs : (auth cfg).step p a = some q) (h : Reopens cfg q f) :
    Reopens cfg p f := by
  obtain ⟨bs, r, b, hr, hacc⟩ := h
  exact ⟨a :: bs, r, b, by rw [exec_cons_some hs, hr], hacc⟩

theorem exists_fresh (used : List String) : ∃ x, x ∉ used ∧ x ≠ "" := by
  obtain ⟨x, hx⟩ := Infinite.exists_notMem_finset ("" :: used).toFinset
  rw [List.mem_toFinset, List.mem_cons, not_or] at hx
  exact ⟨x, hx.2, hx.1⟩

/-- The inserted row is live, and a refresh that presents its token spends it. -/
theorem reopens_of_issued (hrows : RowsInv cfg p.store) {raw : String} {record : RefreshToken}
    (hraw : raw ≠ "") (hmem : record ∈ p.store.refreshTokens)
    (hhash : record.tokenHash = cfg.fingerprint raw) (hlive : record.revokedAt = none)
    (hexp : p.store.now < record.expiresAt) (hf : record.familyId = f) :
    Reopens cfg p f := by
  have hsome : (spendRow cfg p.store raw).isSome :=
    List.find?_isSome.mpr ⟨record, hmem, by simp [spendable, hhash, hlive, hexp]⟩
  obtain ⟨row, hrow⟩ := Option.isSome_iff_exists.mp hsome
  obtain ⟨hrm, hrh, -, -⟩ := spendRow_spec hrow
  obtain rfl : row = record := Table.eq_of_nodup_key hrows.hashes hrm hmem (hrh.trans hhash.symm)
  refine ⟨[.call (.refresh raw ⟨none, none⟩)], _, .run p.calls.length (.ok ⟨"", "", ""⟩), rfl, ?_⟩
  refine ⟨_, _, raw, ⟨none, none⟩, row, rfl, ?_, hrow, hf⟩
  simp [auth, start, hraw]

theorem reopens_of_refreshIssue (hrows : RowsInv cfg p.store) {j : ℕ} {user : User}
    {spent : RefreshToken} {client : ClientMeta}
    (hj : p.calls[j]? = some (.refreshIssue user spent client)) (hf : spent.familyId = f) :
    Reopens cfg p f := by
  obtain ⟨raw, hraw, hne⟩ := exists_fresh p.store.tokens
  obtain ⟨id, hid, -⟩ := exists_fresh p.store.ids
  obtain ⟨s', record, hi⟩ : ∃ s' record, issue cfg p.store user.id spent.familyId client
      ⟨"", raw, id⟩ = some (s', record) := by
    simp [issue, hraw, hid]
  have hst : (auth cfg).step p (.run j (.ok ⟨"", raw, id⟩)) =
      some ⟨s', p.calls.set j (.refreshLink user spent.id raw record.id)⟩ :=
    Program.step_run.mpr ⟨_, _, _, hj, by simp [auth, statement, hi], rfl⟩
  refine .of_step hst ?_
  have hrows' := hrows.issue hi
  obtain ⟨-, -, -, -, hrh, hrf, hexp, hlive, -, rfl⟩ := issue_spec hi
  refine reopens_of_issued hrows' hne (List.mem_append_right _ (List.mem_singleton_self _)) hrh
    hlive ?_ (hrf.trans hf)
  have := cfg.refreshTtlDays_pos
  simp only [hexp, ttlMs]
  omega

/-- Switching an account on makes its lookup find it active. -/
theorem findById_setActive {userId : String} (h : userId ∈ s.users.map (·.id))
    (he : environment s (.setActive userId true) = some s') :
    ∃ user, findById s' userId = some user ∧ user.isActive := by
  obtain ⟨u, hu, hid⟩ := List.mem_map.mp h
  cases he
  have hmem : switch true u ∈ Table.updateMany (·.id = userId) (switch true) s.users :=
    Table.mem_updateMany.mpr ⟨u, hu, .inl ⟨by simpa using hid, rfl⟩⟩
  obtain ⟨user, huser⟩ := Option.isSome_iff_exists.mp
    (List.find?_isSome.mpr ⟨switch true u, hmem, decide_eq_true hid⟩ :
      (findById { s with users := Table.updateMany (·.id = userId) (switch true) s.users }
        userId).isSome)
  refine ⟨user, huser, ?_⟩
  obtain ⟨hm, hi⟩ := findById_spec huser
  obtain ⟨v, -, ⟨-, rfl⟩ | ⟨hsel, rfl⟩⟩ := Table.mem_updateMany.mp hm
  · rfl
  · simp [hi] at hsel

theorem reopens_of_refreshUser (hrows : RowsInv cfg p.store) (hu : UserInv p) {j : ℕ}
    {spent : RefreshToken} {client : ClientMeta}
    (hj : p.calls[j]? = some (.refreshUser spent client)) (hf : spent.familyId = f) :
    Reopens cfg p f := by
  obtain ⟨s', hs'⟩ : ∃ s', environment p.store (.setActive spent.userId true) = some s' := ⟨_, rfl⟩
  obtain ⟨user, huser, hactive⟩ := findById_setActive (hu.2 _ (List.mem_of_getElem? hj)) hs'
  have hon : (auth cfg).step p (.env (.setActive spent.userId true)) = some ⟨s', p.calls⟩ :=
    Program.step_env.mpr ⟨s', hs', rfl⟩
  have hfind : (auth cfg).step ⟨s', p.calls⟩ (.run j (.ok ⟨"", "", ""⟩)) =
      some ⟨s', p.calls.set j (.refreshIssue user spent client)⟩ :=
    Program.step_run.mpr ⟨_, _, _, hj, by simp [auth, statement, huser, hactive], rfl⟩
  exact .of_step hon (.of_step hfind
    (reopens_of_refreshIssue (hrows.environment hs') (getElem?_set_same _ hj) hf))

theorem reopens_of_mayIssue (h : FamilyInv cfg p) (hu : UserInv p) {j : ℕ}
    (hj : p.calls[j]? = some c) (hm : mayIssue cfg p.store f c) : Reopens cfg p f := by
  cases c with
  | refreshReread raw client g =>
    obtain ⟨rfl, hsome⟩ := hm
    obtain ⟨spent, hspent⟩ := Option.isSome_iff_exists.mp hsome
    obtain ⟨hmem, hhash⟩ := findByHash_spec hspent
    have hst : (auth cfg).step p (.run j (.ok ⟨"", "", ""⟩)) =
        some ⟨p.store, p.calls.set j (.refreshUser spent client)⟩ :=
      Program.step_run.mpr ⟨_, _, _, hj, by simp [auth, statement, hspent], rfl⟩
    refine .of_step hst
      (reopens_of_refreshUser h.session.1 (userInv_step hu hst) (getElem?_set_same _ hj) ?_)
    exact (h.session.2 _ (List.mem_of_getElem? hj)).2.2 spent hmem hhash
  | refreshUser spent client => exact reopens_of_refreshUser h.session.1 hu hj hm
  | refreshIssue user spent client => exact reopens_of_refreshIssue h.session.1 hj hm
  | _ => exact hm.elim

/-! ### Exactly when a revocation is final -/

/-- What a revoking step does. -/
theorem Revokes.step (h : Revokes p a f) (hs : (auth cfg).step p a = some q) :
    ∃ i c o, p.calls[i]? = some c ∧ (∀ s, ¬ mayIssue cfg s f c) ∧
      (CallInv cfg p.store c → f ∈ p.store.families) ∧
        q = ⟨revokeFamily p.store f, p.calls.set i (.done o)⟩ := by
  obtain ⟨i, d, rfl, hc⟩ := h
  obtain ⟨c, s, c', hi, hst, rfl⟩ := Program.step_run.mp hs
  rcases hc with hc | hc | hc <;> obtain rfl := Option.some.inj (hi.symm.trans hc) <;> cases hst <;>
    exact ⟨i, _, _, hc, fun _ => id, id, rfl⟩

/-- Revoking the family takes no row away, so a pending refresh stays pending. -/
theorem mayIssue_revokeFamily (h : mayIssue cfg s f c) : mayIssue cfg (revokeFamily s f) f c := by
  cases c with
  | refreshReread raw client g =>
    obtain ⟨hg, hsome⟩ := h
    obtain ⟨r, hr, hh⟩ := List.find?_isSome.mp hsome
    refine ⟨hg, List.find?_isSome.mpr ?_⟩
    cases hsel : liveIn f r with
    | true => exact ⟨revoke s.now r, Table.mem_updateMany.mpr ⟨r, hr, .inl ⟨hsel, rfl⟩⟩, hh⟩
    | false => exact ⟨r, Table.mem_updateMany.mpr ⟨r, hr, .inr ⟨hsel, rfl⟩⟩, hh⟩
  | refreshUser spent client => exact h
  | refreshIssue user spent client => exact h
  | _ => exact h.elim

theorem live_revokeFamily (s : Store) (f : String) :
    (revokeFamily s f).refreshTokens.countP (liveIn f) = 0 :=
  Table.countP_updateMany_eq_zero _ (fun r => by simp [liveIn, revoke]) fun _ h => h

/-- A completed revocation is final, in every continuation of every run,
exactly when no refresh of the family has spent its row and can still issue. -/
theorem revocation_final_iff (cfg : Config) {p q : Pool Store Call}
    {a : Action Request Choice Event} {f : String} (hp : Reachable (auth cfg).step Fresh p)
    (hr : Revokes p a f) (hs : (auth cfg).step p a = some q) :
    (∀ bs r b, exec (auth cfg).step q bs = some r → ¬ Accepts cfg r b f) ↔
      ∀ c ∈ p.calls, ¬ mayIssue cfg p.store f c := by
  have hinv := familyInv_reachable hp
  have hq := familyInv_reachable (hp.succ hs)
  have hgrows : Grows cfg p.store (revokeFamily p.store f) :=
    grows_updateMany (keeps_revoke _) _ p.store.spends
  obtain ⟨i, c, o, hi, hnot, hfam, rfl⟩ := hr.step hs
  constructor
  · intro hfinal c₂ hc₂ hm
    obtain ⟨j, hj⟩ := List.mem_iff_getElem?.mp hc₂
    have hne : i ≠ j := by
      rintro rfl
      obtain rfl := Option.some.inj (hi.symm.trans hj)
      exact hnot _ hm
    have hj' : (p.calls.set i (.done o))[j]? = some c₂ := by rw [List.getElem?_set_ne hne, hj]
    obtain ⟨bs, r, b, hex, hacc⟩ :=
      reopens_of_mayIssue hq (userInv_reachable (hp.succ hs)) hj' (mayIssue_revokeFamily hm)
    exact hfinal bs r b hex hacc
  · intro hno
    refine Closed.final
      ⟨⟨hq.session.1, hfam (hinv.session.2 c (List.mem_of_getElem? hi)), live_revokeFamily _ _⟩, ?_⟩
    intro c₂ hc₂
    refine ⟨hq.session.2 c₂ hc₂, fun hm => ?_⟩
    rcases List.mem_or_eq_of_mem_set hc₂ with hc₂ | rfl
    · exact hno c₂ hc₂ (mayIssue_grows hgrows (hinv.session.2 c₂ hc₂) hm)
    · exact hm

/-- Alice signs in, and a logout has found the family of her token. -/
def loginThenLogout : List (Action Request Choice Event) :=
  [.call (.login "a@b.com" "secret" browser), .run 0 plain, .run 0 (.ok ⟨"f", "t1", "r1"⟩),
    .call (.logout "t1"), .run 1 plain]

theorem revocation_final_iff_loginThenLogout :
    ∃ p q, exec (auth plainConfig).step opening loginThenLogout = some p ∧
    (auth plainConfig).step p (.run 1 plain) = some q ∧ Final plainConfig q "f" := by
  obtain ⟨p, hp⟩ : ∃ p, exec (auth plainConfig).step opening loginThenLogout = some p := ⟨_, rfl⟩
  have hr : Revokes p (.run 1 plain) "f" := by
    cases hp
    exact ⟨1, _, rfl, .inr (.inr rfl)⟩
  obtain ⟨q, hq⟩ : ∃ q, (auth plainConfig).step p (.run 1 plain) = some q := by
    cases hp
    exact ⟨_, rfl⟩
  refine ⟨p, q, hp, hq,
    (revocation_final_iff plainConfig ⟨opening, loginThenLogout, fresh_opening, hp⟩ hr hq).mpr ?_⟩
  cases hp
  intro c hc
  rcases List.mem_cons.mp hc with rfl | hc
  · exact id
  · obtain rfl := List.mem_singleton.mp hc
    exact id

/-- A refresh of the same session has read its user when the logout revokes. -/
def refreshAcrossLogout : List (Action Request Choice Event) :=
  loginThenSpend ++ [.run 1 plain, .run 1 plain, .call (.logout "t1"), .run 2 plain]

/-- The logout completes, the refresh then issues `t2`, and `t2` is accepted. -/
theorem revocation_not_final :
    ¬ ∀ p q a f, Reachable (auth plainConfig).step Fresh p → Revokes p a f →
    (auth plainConfig).step p a = some q →
    ∀ bs r b, exec (auth plainConfig).step q bs = some r → ¬ Accepts plainConfig r b f := by
  intro h
  exact h _ _ (.run 2 plain) "f" ⟨opening, refreshAcrossLogout, fresh_opening, rfl⟩
    ⟨2, _, rfl, .inr (.inr rfl)⟩ rfl
    [.run 1 (.ok ⟨"", "t2", "r2"⟩), .call (.refresh "t2" browser)] _ (.run 3 plain) rfl
    ⟨3, _, "t2", browser, _, rfl, rfl, rfl, rfl⟩

end Finlytic.UserManagement
