import Finlytic.UserManagement.Transitions

/-! The representation invariant of refresh-token families. A family has at
most one token that can still be spent or is being exchanged: a live row, or a
refresh that has spent a row and not issued its replacement yet. The invariant
is kept by every statement of every call in any interleaving. -/

namespace Finlytic.UserManagement

open Lib

variable {cfg : Config} {s s' : Store} {c c' : Call} {p q : Pool Store Call}

/-! ### Rows -/

/-- Keys are unique, every stored value was drawn, and a token that was ever
accepted has no live row. -/
structure RowsInv (cfg : Config) (s : Store) : Prop where
  hashes : (s.refreshTokens.map (·.tokenHash)).Nodup
  ids : (s.refreshTokens.map (·.id)).Nodup
  drawn : ∀ r ∈ s.refreshTokens, (∃ raw ∈ s.tokens, r.tokenHash = cfg.fingerprint raw) ∧ r.id ∈ s.ids ∧
    r.familyId ∈ s.families
  spends : s.spends.Nodup
  spent : ∀ raw ∈ s.spends, raw ∈ s.tokens ∧
    ∀ r ∈ s.refreshTokens, r.tokenHash = cfg.fingerprint raw → r.revokedAt ≠ none

/-- A row update that keeps the keys and never un-revokes a row. -/
structure Keeps (set : RefreshToken → RefreshToken) : Prop where
  id : ∀ r, (set r).id = r.id
  tokenHash : ∀ r, (set r).tokenHash = r.tokenHash
  familyId : ∀ r, (set r).familyId = r.familyId
  userId : ∀ r, (set r).userId = r.userId
  revokedAt : ∀ r, (set r).revokedAt = none → r.revokedAt = none

theorem keeps_revoke (now : ℕ) : Keeps (revoke now) :=
  ⟨fun _ => rfl, fun _ => rfl, fun _ => rfl, fun _ => rfl, fun _ h => by cases h⟩

theorem keeps_link (x : String) : Keeps (link x) :=
  ⟨fun _ => rfl, fun _ => rfl, fun _ => rfl, fun _ => rfl, fun _ h => h⟩

/-- The row an updated row comes from. -/
theorem Keeps.exists_of_mem {set : RefreshToken → RefreshToken} (hk : Keeps set)
    {sel : RefreshToken → Bool} {rows : List RefreshToken} {x : RefreshToken}
    (hx : x ∈ Table.updateMany sel set rows) :
    ∃ r ∈ rows, x.id = r.id ∧ x.tokenHash = r.tokenHash ∧ x.familyId = r.familyId ∧
      x.userId = r.userId ∧
      (x.revokedAt = none → r.revokedAt = none) := by
  obtain ⟨r, hr, ⟨-, rfl⟩ | ⟨-, rfl⟩⟩ := Table.mem_updateMany.mp hx
  · exact ⟨r, hr, hk.id r, hk.tokenHash r, hk.familyId r, hk.userId r, hk.revokedAt r⟩
  · exact ⟨x, hr, rfl, rfl, rfl, rfl, fun h => h⟩

theorem RowsInv.updateMany (h : RowsInv cfg s) {set : RefreshToken → RefreshToken} (hk : Keeps set)
    (sel : RefreshToken → Bool) :
    RowsInv cfg { s with refreshTokens := Table.updateMany sel set s.refreshTokens } where
  hashes := by rw [Table.map_updateMany _ hk.tokenHash]; exact h.hashes
  ids := by rw [Table.map_updateMany _ hk.id]; exact h.ids
  drawn x hx := by
    obtain ⟨r, hr, hid, hh, hf, -, -⟩ := hk.exists_of_mem hx
    rw [hid, hh, hf]
    exact h.drawn r hr
  spends := h.spends
  spent raw hraw := by
    refine ⟨(h.spent raw hraw).1, fun x hx hxh hn => ?_⟩
    obtain ⟨r, hr, -, hh, -, -, hrev⟩ := hk.exists_of_mem hx
    exact (h.spent raw hraw).2 r hr (hh.symm.trans hxh) (hrev hn)

/-- The accepted token was live, so it is not in the log yet, and no row of it stays live. -/
theorem RowsInv.spendUpdate (h : RowsInv cfg s) {raw : String} {row : RefreshToken}
    (hrow : spendRow cfg s raw = some row) : RowsInv cfg (spendUpdate cfg s raw) := by
  obtain ⟨hmem, hhash, hlive, hexp⟩ := spendRow_spec hrow
  have hu := h.updateMany (keeps_revoke s.now) (spendable (cfg.fingerprint raw) s.now)
  obtain ⟨raw', hraw', heq⟩ := (h.drawn row hmem).1
  have hraw : raw ∈ s.tokens := by
    rwa [cfg.fingerprint_injective (hhash.symm.trans heq)]
  refine ⟨hu.hashes, hu.ids, hu.drawn, ?_, ?_⟩
  · refine List.nodup_cons.mpr ⟨fun hin => ?_, h.spends⟩
    exact (h.spent raw hin).2 row hmem hhash hlive
  · intro t ht
    rcases List.mem_cons.mp ht with rfl | ht
    · refine ⟨hraw, fun x hx hxh hn => ?_⟩
      obtain ⟨r, hr, ⟨-, rfl⟩ | ⟨hsel, rfl⟩⟩ := Table.mem_updateMany.mp hx
      · cases hn
      · -- only the row of this hash was selected, and it is this one
        have hxr : x = row := Table.eq_of_nodup_key h.hashes hr hmem (hxh.trans hhash.symm)
        subst hxr
        simp [spendable, hhash, hlive, hexp] at hsel
    · exact hu.spent t ht

theorem RowsInv.issue (h : RowsInv cfg s) {userId familyId : String} {client : ClientMeta}
    {d : Draw} {record : RefreshToken}
    (hi : issue cfg s userId familyId client d = some (s', record)) :
    RowsInv cfg s' := by
  obtain ⟨hraw, hid, hrid, -, hrh, hrf, -, hlive, -, rfl⟩ := issue_spec hi
  have hfresh : ∀ r ∈ s.refreshTokens, r.tokenHash ≠ record.tokenHash := by
    intro r hr heq
    obtain ⟨t, ht, hth⟩ := (h.drawn r hr).1
    rw [hth, hrh] at heq
    exact hraw (cfg.fingerprint_injective heq ▸ ht)
  refine ⟨?_, ?_, ?_, h.spends, ?_⟩
  · exact Table.nodup_append_row _ h.hashes hfresh
  · apply Table.nodup_append_row _ h.ids
    intro r hr heq
    rw [hrid] at heq
    exact hid (heq ▸ (h.drawn r hr).2.1)
  · intro r hr
    rcases List.mem_append.mp hr with hr | hr
    · obtain ⟨⟨t, ht, hth⟩, h2, h3⟩ := h.drawn r hr
      exact ⟨⟨t, List.mem_cons_of_mem _ ht, hth⟩, List.mem_cons_of_mem _ h2, List.mem_cons_of_mem _ h3⟩
    · obtain rfl := List.mem_singleton.mp hr
      exact ⟨⟨d.raw, by simp, hrh⟩, by simp [hrid], by simp [hrf]⟩
  · intro t ht
    obtain ⟨htok, hdead⟩ := h.spent t ht
    refine ⟨List.mem_cons_of_mem _ htok, fun r hr hrt => ?_⟩
    rcases List.mem_append.mp hr with hr | hr
    · exact hdead r hr hrt
    · obtain rfl := List.mem_singleton.mp hr
      rw [hrh] at hrt
      exact absurd (cfg.fingerprint_injective hrt ▸ htok) hraw

theorem RowsInv.deleteMany (h : RowsInv cfg s) (del : RefreshToken → Bool) :
    RowsInv cfg { s with refreshTokens := Table.deleteMany del s.refreshTokens } where
  hashes := Table.nodup_deleteMany _ h.hashes
  ids := Table.nodup_deleteMany _ h.ids
  drawn r hr := h.drawn r (Table.mem_deleteMany.mp hr).1
  spends := h.spends
  spent raw hraw :=
    ⟨(h.spent raw hraw).1, fun r hr => (h.spent raw hraw).2 r (Table.mem_deleteMany.mp hr).1⟩

theorem RowsInv.transition (h : RowsInv cfg s) (ht : Transition cfg s c s' c') :
    RowsInv cfg s' := by
  cases ht with
  | stop | loginStart | notSpent | reread | reuse | active | inactive | logoutFind => exact h
  | startFamily user client d s' record hf hi => exact h.issue hi
  | spend raw client row hr => exact h.spendUpdate hr
  | issue user spent client d s' record hi => exact h.issue hi
  | link user spentId raw issuedId s' hl =>
    rw [linkReplacement_spec hl]
    exact h.updateMany (keeps_link issuedId) _
  | revokeReuse f | revokeInactive f | revokeLogout f => exact h.updateMany (keeps_revoke s.now) _

theorem RowsInv.environment (h : RowsInv cfg s) {e : Event} (he : environment s e = some s') :
    RowsInv cfg s' := by
  cases e with
  | tick ms => cases he; exact ⟨h.hashes, h.ids, h.drawn, h.spends, h.spent⟩
  | setActive u a => cases he; exact ⟨h.hashes, h.ids, h.drawn, h.spends, h.spent⟩
  | sweep => cases he; exact h.deleteMany _

/-! ### Program counters -/

/-- The store only grows as far as a call can tell: drawn values stay drawn, and
a row is either an old one with the same keys or one of a token not drawn before. -/
structure Grows (cfg : Config) (s s' : Store) : Prop where
  tokens : ∀ t ∈ s.tokens, t ∈ s'.tokens
  families : ∀ f ∈ s.families, f ∈ s'.families
  rows : ∀ x ∈ s'.refreshTokens,
    (∃ r ∈ s.refreshTokens, x.tokenHash = r.tokenHash ∧ x.familyId = r.familyId) ∨
    ∃ raw, raw ∉ s.tokens ∧ x.tokenHash = cfg.fingerprint raw

theorem Grows.refl (s : Store) : Grows cfg s s :=
  ⟨fun _ h => h, fun _ h => h, fun x hx => .inl ⟨x, hx, rfl, rfl⟩⟩

theorem grows_updateMany {set : RefreshToken → RefreshToken} (hk : Keeps set)
    (sel : RefreshToken → Bool) (log : List String) :
    Grows cfg s { s with refreshTokens := Table.updateMany sel set s.refreshTokens, spends :=
      log } := by
  refine ⟨fun _ h => h, fun _ h => h, fun x hx => .inl ?_⟩
  obtain ⟨r, hr, -, hh, hf, -, -⟩ := hk.exists_of_mem hx
  exact ⟨r, hr, hh, hf⟩

theorem grows_issue {userId familyId : String} {client : ClientMeta} {d : Draw}
    {record : RefreshToken} (hi : issue cfg s userId familyId client d = some (s', record)) :
    Grows cfg s s' := by
  obtain ⟨hraw, -, -, -, hrh, -, -, -, -, rfl⟩ := issue_spec hi
  refine ⟨fun _ h => List.mem_cons_of_mem _ h, fun _ h => List.mem_cons_of_mem _ h, fun x hx => ?_⟩
  rcases List.mem_append.mp hx with hx | hx
  · exact .inl ⟨x, hx, rfl, rfl⟩
  · obtain rfl := List.mem_singleton.mp hx
    exact .inr ⟨d.raw, hraw, hrh⟩

theorem grows_transition (ht : Transition cfg s c s' c') : Grows cfg s s' := by
  cases ht with
  | stop | loginStart | notSpent | reread | reuse | active | inactive | logoutFind => exact .refl s
  | startFamily user client d s' record hf hi => exact grows_issue hi
  | spend raw client row hr => exact grows_updateMany (keeps_revoke s.now) _ _
  | issue user spent client d s' record hi => exact grows_issue hi
  | link user spentId raw issuedId s' hl =>
    rw [linkReplacement_spec hl]
    exact grows_updateMany (keeps_link issuedId) _ s.spends
  | revokeReuse f | revokeInactive f | revokeLogout f =>
    exact grows_updateMany (keeps_revoke s.now) _ s.spends

theorem grows_environment {e : Event} (he : environment s e = some s') : Grows cfg s s' := by
  cases e with
  | tick ms => cases he; exact ⟨fun _ h => h, fun _ h => h, fun x hx => .inl ⟨x, hx, rfl, rfl⟩⟩
  | setActive u a => cases he; exact ⟨fun _ h => h, fun _ h => h, fun x hx => .inl ⟨x, hx, rfl, rfl⟩⟩
  | sweep => cases he; exact ⟨fun _ h => h, fun _ h =>
    h, fun x hx => .inl ⟨x, (Table.mem_deleteMany.mp hx).1, rfl, rfl⟩⟩

/-- What a call knows about the family it has read a row of. -/
def CallInv (cfg : Config) (s : Store) : Call → Prop
  | .refreshReread raw _ f => raw ∈ s.tokens ∧ f ∈ s.families ∧
      ∀ r ∈ s.refreshTokens, r.tokenHash = cfg.fingerprint raw → r.familyId = f
  | .refreshUser spent _ | .refreshIssue _ spent _ => spent.familyId ∈ s.families
  | .refreshInactive f | .refreshReuse f | .logoutRevoke f => f ∈ s.families
  | _ => True

theorem CallInv.grows (hg : Grows cfg s s') (h : CallInv cfg s c) : CallInv cfg s' c := by
  cases c with
  | refreshReread raw client f =>
    obtain ⟨ht, hf, hr⟩ := h
    refine ⟨hg.tokens _ ht, hg.families _ hf, fun x hx hxh => ?_⟩
    rcases hg.rows x hx with ⟨r, hrm, hh, hfam⟩ | ⟨t, htn, hh⟩
    · exact hfam.trans (hr r hrm (hh.symm.trans hxh))
    · rw [hxh] at hh
      exact absurd (cfg.fingerprint_injective hh ▸ ht) htn
  | refreshUser spent client => exact hg.families _ h
  | refreshIssue user spent client => exact hg.families _ h
  | refreshInactive f | refreshReuse f | logoutRevoke f => exact hg.families _ h
  | _ => trivial

theorem callInv_transition (hrows : RowsInv cfg s) (h : CallInv cfg s c)
    (ht : Transition cfg s c s' c') :
    CallInv cfg s' c' := by
  cases ht with
  | spend raw client row hr =>
    obtain ⟨hmem, hhash, -, -⟩ := spendRow_spec hr
    have hspent := ((hrows.spendUpdate hr).spent raw (List.mem_cons_self ..)).1
    refine ⟨hspent, (hrows.drawn row hmem).2.2, fun x hx hxh => ?_⟩
    obtain ⟨r, hrm, -, hh, hf, -, -⟩ := (keeps_revoke s.now).exists_of_mem hx
    rw [hf, Table.eq_of_nodup_key hrows.hashes hrm hmem (hh.symm.trans (hxh.trans hhash.symm))]
  | reread raw client f spent hr => exact (hrows.drawn spent (findByHash_spec hr).1).2.2
  | reuse raw existing hr => exact (hrows.drawn existing (findByHash_spec hr).1).2.2
  | logoutFind raw record hr => exact (hrows.drawn record (findByHash_spec hr).1).2.2
  | active | inactive => exact h
  | _ => trivial

/-- Rows and program counters together. -/
def SessionInv (cfg : Config) (p : Pool Store Call) : Prop :=
  p.Holds (RowsInv cfg) (CallInv cfg)

theorem callInv_start (s : Store) (r : Request) : CallInv cfg s (start r) :=
  start_induction (CallInv cfg s) (fun _ _ _ => trivial) (fun _ _ => trivial) (fun _ => trivial)
    (fun _ => trivial) r

theorem sessionInv_step {a : Action Request Choice Event} (h : SessionInv cfg p)
    (hs : (auth cfg).step p a = some q) : SessionInv cfg q :=
  Program.step_stable (fun s r _ => callInv_start s r)
    (fun _ _ _ _ _ hI hJ hc =>
      have ht := statement_transition hc
      ⟨hI.transition ht, callInv_transition hI hJ ht, fun _ h₂ => h₂.grows (grows_transition ht)⟩)
    (fun _ _ _ hI he => ⟨hI.environment he, fun _ h₂ => h₂.grows (grows_environment he)⟩) h hs

theorem sessionInv_fresh (h : Fresh p) : SessionInv cfg p := by
  obtain ⟨hc, hr, -, ht, -, hs⟩ := h
  refine ⟨⟨?_, ?_, ?_, ?_, ?_⟩, ?_⟩ <;> simp [hc, hr, hs]

/-! ### At most one live or half-exchanged token -/

/-- The call has spent a row of the family and not issued its replacement. -/
def spentIn (f : String) : Call → Bool
  | .refreshReread _ _ g => g = f
  | .refreshUser spent _ => spent.familyId = f
  | .refreshIssue _ spent _ => spent.familyId = f
  | .refreshInactive g => g = f
  | _ => false

/-- The live rows of a family and the refreshes half-way through exchanging one. -/
def openTokens (p : Pool Store Call) (f : String) : ℕ :=
  p.store.refreshTokens.countP (liveIn f) + p.calls.countP (spentIn f)

theorem spentIn_families {f : String} (h : CallInv cfg s c) (hf : spentIn f c = true) :
    f ∈ s.families := by
  cases c with
  | refreshReread raw client g => simp only [spentIn, decide_eq_true_eq] at hf; exact hf ▸ h.2.1
  | refreshUser spent client => simp only [spentIn, decide_eq_true_eq] at hf; exact hf ▸ h
  | refreshIssue user spent client => simp only [spentIn, decide_eq_true_eq] at hf; exact hf ▸ h
  | refreshInactive g => simp only [spentIn, decide_eq_true_eq] at hf; exact hf ▸ h
  | _ => cases hf

/-- A family that was never drawn has no row and no refresh on it. -/
theorem openTokens_undrawn (h : SessionInv cfg p) {f : String} (hf : f ∉ p.store.families) :
    openTokens p f = 0 := by
  have hrows : p.store.refreshTokens.countP (liveIn f) = 0 := by
    rw [List.countP_eq_zero]
    intro r hr hl
    simp only [liveIn, Bool.and_eq_true, decide_eq_true_eq] at hl
    exact hf (hl.1 ▸ (h.1.drawn r hr).2.2)
  have hcalls : p.calls.countP (spentIn f) = 0 := by
    rw [List.countP_eq_zero]
    exact fun c hc hs => hf (spentIn_families (h.2 c hc) hs)
  rw [openTokens, hrows, hcalls]

theorem countP_live_issue {userId familyId : String} {client : ClientMeta} {d : Draw}
    {record : RefreshToken} (hi : issue cfg s userId familyId client d = some (s', record))
    (f : String) :
    s'.refreshTokens.countP (liveIn f) =
      s.refreshTokens.countP (liveIn f) + (decide (familyId = f)).toNat := by
  obtain ⟨-, -, -, -, -, hrf, -, hlive, -, rfl⟩ := issue_spec hi
  simp only [List.countP_append, List.countP_singleton, liveIn, hrf, hlive]
  by_cases h : familyId = f <;> simp [h]

theorem countP_live_revoke (sel : RefreshToken → Bool) (now : ℕ) (rows : List RefreshToken)
    (f : String) :
    (Table.updateMany sel (revoke now) rows).countP (liveIn f) ≤ rows.countP (liveIn f) :=
  Table.countP_updateMany_le _ fun r h => by simp [liveIn, revoke] at h

/-- Every transition hands the one open token on: a spend turns a live row into
a half-exchanged one and an issue turns it back. Only a login opens a token, in
a family no one has drawn before. -/
theorem transition_open (hc : CallInv cfg s c) (ht : Transition cfg s c s' c') (f : String) :
    s'.refreshTokens.countP (liveIn f) + (spentIn f c').toNat ≤
        s.refreshTokens.countP (liveIn f) + (spentIn f c).toNat ∨
      f ∉ s.families ∧ s'.refreshTokens.countP (liveIn f) + (spentIn f c').toNat ≤
        s.refreshTokens.countP (liveIn f) + (spentIn f c).toNat + 1 := by
  cases ht with
  | stop c o => left; simp [spentIn]
  | loginStart | notSpent | reuse | logoutFind => left; simp [spentIn]
  | startFamily user client d s' record hf hi =>
    have hcount := countP_live_issue hi f
    by_cases hff : d.familyId = f
    · right
      subst hff
      refine ⟨hf, ?_⟩
      simp [hcount, spentIn]
    · left
      simp [hcount, spentIn, hff]
  | spend raw client row hr =>
    left
    obtain ⟨hmem, hhash, hlive, hexp⟩ := spendRow_spec hr
    by_cases hff : row.familyId = f
    · simp only [spentIn, hff, decide_true, Bool.toNat_true, Bool.toNat_false, Nat.add_zero]
      exact Table.countP_updateMany_lt (liveIn f) (fun r => by simp [liveIn, revoke]) hmem
        (by simp [spendable, hhash, hlive, hexp]) (by simp [liveIn, hff, hlive])
    · simp only [spentIn, hff, decide_false, Bool.toNat_false, Nat.add_zero]
      exact countP_live_revoke _ _ _ f
  | reread raw client g spent hr =>
    left
    obtain ⟨hmem, hhash⟩ := findByHash_spec hr
    simp [spentIn, hc.2.2 spent hmem hhash]
  | active | inactive => left; simp [spentIn]
  | issue user spent client d s' record hi => left; simp [countP_live_issue hi f, spentIn]
  | link user spentId raw issuedId s' hl =>
    left
    rw [linkReplacement_spec hl]
    exact Nat.add_le_add (Table.countP_updateMany_le _ fun r h => h) (Nat.zero_le _)
  | revokeReuse g | revokeInactive g | revokeLogout g =>
    left
    exact Nat.add_le_add (countP_live_revoke _ _ _ f) (Nat.zero_le _)

theorem environment_open {e : Event} (he : environment s e = some s') (f : String) :
    s'.refreshTokens.countP (liveIn f) ≤ s.refreshTokens.countP (liveIn f) := by
  cases e with
  | tick ms => cases he; exact Nat.le_refl _
  | setActive u a => cases he; exact Nat.le_refl _
  | sweep => cases he; exact Table.countP_deleteMany_le _

theorem spentIn_start (f : String) (r : Request) : spentIn f (start r) = false :=
  start_induction (fun c => spentIn f c = false) (fun _ _ _ => rfl) (fun _ _ => rfl) (fun _ => rfl)
    (fun _ => rfl) r

theorem openTokens_step {a : Action Request Choice Event} (h : SessionInv cfg p) {f : String}
    (hone : openTokens p f ≤ 1) (hs : (auth cfg).step p a = some q) : openTokens q f ≤ 1 := by
  obtain ⟨r, -, rfl⟩ | ⟨i, d, c, t, c', -, hi, hc, rfl⟩ | ⟨e, t, -, he, rfl⟩ := Program.step_cases hs
  · simpa [openTokens, List.countP_append, auth, spentIn_start] using hone
  · have hcount := countP_set_add c' (spentIn f) hi
    have ht := statement_transition hc
    have hcall := h.2 c (List.mem_of_getElem? hi)
    rcases transition_open hcall ht f with hle | ⟨hf, hle⟩
    · simp only [openTokens] at hone ⊢
      omega
    · have hzero := openTokens_undrawn h hf
      simp only [openTokens] at hzero ⊢
      omega
  · have hle := environment_open he f
    simp only [openTokens] at hone ⊢
    omega

end Finlytic.UserManagement
