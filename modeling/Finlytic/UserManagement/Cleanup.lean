import Finlytic.Lib.Silent
import Finlytic.UserManagement.Failures

/-! `RefreshTokenCleanupService.sweep` beside the calls. The table that was last swept at `T` is
the table of the same run without any sweep, less the rows that expired before `T`, and a call
that presents an unexpired token reads none of those. -/

namespace Finlytic.UserManagement

open Lib

variable {cfg : Config} {s s' : Store} {c c' : Call} {T : ℕ} {raw : String}

/-- The store less the rows that expired before `T`. -/
def without (T : ℕ) (s : Store) : Store :=
  { s with refreshTokens := Table.deleteMany (fun r => decide (r.expiresAt < T)) s.refreshTokens }

theorem sweep_eq_without (s : Store) : sweep s = without s.now s := rfl

theorem mem_without {r : RefreshToken} :
    r ∈ (without T s).refreshTokens ↔ r ∈ s.refreshTokens ∧ T ≤ r.expiresAt := by
  rw [without, Table.mem_deleteMany, decide_eq_false_iff_not, Nat.not_lt]

/-- A later sweep takes what the earlier one took. -/
theorem without_without {T' : ℕ} (h : T ≤ T') : without T' (without T s) = without T' s := by
  rw [without, without, without, Table.deleteMany_deleteMany]
  intro r hr
  rw [decide_eq_true_eq] at hr ⊢
  omega

/-! ### Statements on a swept table -/

/-- A query for rows that all outlive the sweep is spared by it. -/
theorem spared_of_outlives {sel : RefreshToken → Bool}
    (h : ∀ r ∈ s.refreshTokens, sel r = true → T ≤ r.expiresAt) :
    ∀ r ∈ s.refreshTokens, sel r = true → decide (r.expiresAt < T) = false := by
  intro r hr hsel
  rw [decide_eq_false_iff_not, Nat.not_lt]
  exact h r hr hsel

theorem spendRow_without
    (h : ∀ r ∈ s.refreshTokens, r.tokenHash = cfg.fingerprint raw → T ≤ r.expiresAt) :
    spendRow cfg (without T s) raw = spendRow cfg s raw := by
  apply Table.find?_deleteMany
  apply spared_of_outlives
  intro r hr hsel
  simp only [spendable, Bool.and_eq_true, decide_eq_true_eq] at hsel
  exact h r hr hsel.1.1

theorem findByHash_without
    (h : ∀ r ∈ s.refreshTokens, r.tokenHash = cfg.fingerprint raw → T ≤ r.expiresAt) :
    findByHash cfg (without T s) raw = findByHash cfg s raw := by
  apply Table.find?_deleteMany
  apply spared_of_outlives
  intro r hr hsel
  exact h r hr (of_decide_eq_true hsel)

theorem expiresAt_revoke (now : ℕ) (r : RefreshToken) : (revoke now r).expiresAt = r.expiresAt := rfl

theorem expiresAt_link (x : String) (r : RefreshToken) : (link x r).expiresAt = r.expiresAt := rfl

/-- An update that writes no expiry commutes with the sweep. -/
theorem updateMany_without {set : RefreshToken → RefreshToken}
    (h : ∀ r, (set r).expiresAt = r.expiresAt) (sel : RefreshToken → Bool) :
    Table.updateMany sel set (without T s).refreshTokens =
      Table.deleteMany (fun r => decide (r.expiresAt < T))
        (Table.updateMany sel set s.refreshTokens) := by
  apply Table.updateMany_deleteMany
  intro r
  rw [h r]

theorem spendUpdate_without :
    spendUpdate cfg (without T s) raw = without T (spendUpdate cfg s raw) := by
  rw [spendUpdate, updateMany_without (expiresAt_revoke _)]
  rfl

theorem revokeFamily_without {f : String} :
    revokeFamily (without T s) f = without T (revokeFamily s f) := by
  rw [revokeFamily, updateMany_without (expiresAt_revoke _)]
  rfl

theorem linkReplacement_without {spentId issuedId : String}
    (h : ∀ r ∈ s.refreshTokens, r.id = spentId → T ≤ r.expiresAt) :
    linkReplacement (without T s) spentId issuedId = (linkReplacement s spentId issuedId).map
      (without T) := by
  have hany : (without T s).refreshTokens.any (·.id = spentId) = s.refreshTokens.any
      (·.id = spentId) := by
    apply Table.any_deleteMany
    apply spared_of_outlives
    intro r hr hsel
    exact h r hr (of_decide_eq_true hsel)
  rw [linkReplacement, linkReplacement, hany]
  split_ifs with hsome
  · rw [updateMany_without (expiresAt_link _)]
    rfl
  · rfl

/-- A new row outlives every sweep so far. -/
theorem issue_without (hT : T ≤ s.now) (userId familyId : String) (client : ClientMeta) (d : Draw) :
    issue cfg (without T s) userId familyId client d =
      (issue cfg s userId familyId client d).map fun issued => (without T issued.1, issued.2) := by
  unfold issue
  split_ifs with h h'
  · rfl
  · exact absurd h h'
  · exact absurd ‹_› h
  · simp only [Option.map_some, without]
    rw [Table.deleteMany_append_row]
    rw [decide_eq_false_iff_not]
    simp only
    omega

/-- What a call knows of the rows it will still name: they outlive the last sweep, and the
replacement of a spent row outlives that row. -/
def Clear (cfg : Config) (T : ℕ) (s : Store) : Call → Prop
  | .refreshSpend raw _ => raw ≠ "" ∧ ∀ r ∈ s.refreshTokens, r.tokenHash = cfg.fingerprint raw →
    T ≤ r.expiresAt
  | .refreshReread raw _ _ | .refreshExisting raw | .logoutFind raw =>
    ∀ r ∈ s.refreshTokens, r.tokenHash = cfg.fingerprint raw → T ≤ r.expiresAt
  | .refreshUser spent _ | .refreshIssue _ spent _ =>
    spent.id ∈ s.ids ∧ ∀ r ∈ s.refreshTokens, r.id = spent.id → T ≤ r.expiresAt
  | .refreshLink _ spentId _ issuedId =>
    spentId ∈ s.ids ∧ (∀ r ∈ s.refreshTokens, r.id = spentId → T ≤ r.expiresAt) ∧
      ∃ y ∈ s.refreshTokens, y.id = issuedId ∧ ∀ r ∈ s.refreshTokens, r.id = spentId →
        r.expiresAt ≤ y.expiresAt
  | _ => True

/-- A statement does on the swept table what it does on the other. -/
theorem statement_without (hT : T ≤ s.now) (hc : Clear cfg T s c) (d : Choice) :
    statement cfg (without T s) c d = (statement cfg s c d).map fun next =>
      (without T next.1, next.2) := by
  cases d with
  | dbError => cases c <;> rfl
  | ok d =>
    cases c with
    | done o => rfl
    | loginFind email password client =>
      have huser : findByEmail (without T s) email = findByEmail s email := rfl
      simp only [statement, huser]
      cases findByEmail s email with
      | none => rfl
      | some user => simp only; split_ifs <;> rfl
    | loginStart user client =>
      simp only [statement]
      split_ifs with h h'
      · rfl
      · exact absurd h h'
      · exact absurd ‹_› h
      · rw [issue_without hT, Option.map_map, Option.map_map]
        rfl
    | refreshSpend raw client =>
      simp only [statement, spendRow_without hc.2, spendUpdate_without]
      cases spendRow cfg s raw with
      | none => rfl
      | some row => rfl
    | refreshReread raw client f =>
      simp only [statement, findByHash_without hc]
      cases findByHash cfg s raw with
      | none => rfl
      | some row => rfl
    | refreshExisting raw =>
      simp only [statement, findByHash_without hc]
      cases findByHash cfg s raw with
      | none => rfl
      | some row => simp only; split_ifs <;> rfl
    | refreshReuse f | refreshInactive f | logoutRevoke f =>
      simp only [statement, revokeFamily_without]
      rfl
    | refreshUser spent client =>
      have huser : findById (without T s) spent.userId = findById s spent.userId := rfl
      simp only [statement, huser]
      cases findById s spent.userId with
      | none => rfl
      | some user => simp only; split_ifs <;> rfl
    | refreshIssue user spent client =>
      simp only [statement]
      rw [issue_without hT, Option.map_map, Option.map_map]
      rfl
    | refreshLink user spentId raw issuedId =>
      simp only [statement, linkReplacement_without hc.2.1]
      cases linkReplacement s spentId issuedId with
      | none => rfl
      | some t => rfl
    | logoutFind raw =>
      simp only [statement, findByHash_without hc]
      cases findByHash cfg s raw with
      | none => rfl
      | some row => rfl

/-! ### What keeps a row known -/

/-- Rows keep their keys and their expiry, and a new row expires a whole TTL from now. -/
structure Ages (cfg : Config) (s s' : Store) : Prop where
  now : s.now ≤ s'.now
  ids : ∀ x ∈ s.ids, x ∈ s'.ids
  rows : ∀ x ∈ s'.refreshTokens,
    (∃ r ∈ s.refreshTokens, x.id = r.id ∧ x.tokenHash = r.tokenHash ∧ x.expiresAt = r.expiresAt) ∨
      x.id ∉ s.ids ∧ x.expiresAt = s.now + ttlMs cfg
  kept : ∀ r ∈ s.refreshTokens, ∃ x ∈ s'.refreshTokens, x.id = r.id ∧ x.expiresAt = r.expiresAt

theorem Ages.refl (s : Store) : Ages cfg s s :=
  ⟨Nat.le_refl _, fun _ h => h, fun x hx => .inl ⟨x, hx, rfl, rfl, rfl⟩, fun r hr => ⟨r, hr, rfl, rfl⟩⟩

theorem ages_updateMany {set : RefreshToken → RefreshToken} (hk : Keeps set)
    (he : ∀ r, (set r).expiresAt = r.expiresAt) (sel : RefreshToken → Bool) (log : List String) :
    Ages cfg s { s with refreshTokens := Table.updateMany sel set s.refreshTokens, spends :=
      log } := by
  refine ⟨Nat.le_refl _, fun _ h => h, fun x hx => .inl ?_, fun r hr => ?_⟩
  · obtain ⟨r, hr, ⟨-, rfl⟩ | ⟨-, rfl⟩⟩ := Table.mem_updateMany.mp hx
    · exact ⟨r, hr, hk.id r, hk.tokenHash r, he r⟩
    · exact ⟨x, hr, rfl, rfl, rfl⟩
  · cases hsel : sel r with
    | true => exact ⟨set r, Table.mem_updateMany.mpr ⟨r, hr, .inl ⟨hsel, rfl⟩⟩, hk.id r, he r⟩
    | false => exact ⟨r, Table.mem_updateMany.mpr ⟨r, hr, .inr ⟨hsel, rfl⟩⟩, rfl, rfl⟩

theorem ages_issue {userId familyId : String} {client : ClientMeta} {d : Draw}
    {record : RefreshToken} (hi : issue cfg s userId familyId client d = some (s', record)) :
    Ages cfg s s' := by
  obtain ⟨-, hid, hrid, -, -, -, hexp, -, -, rfl⟩ := issue_spec hi
  refine ⟨Nat.le_refl _, fun _ h => List.mem_cons_of_mem _ h, fun x hx => ?_, fun r hr => ?_⟩
  · rcases List.mem_append.mp hx with hx | hx
    · exact .inl ⟨x, hx, rfl, rfl, rfl⟩
    · rw [List.mem_singleton.mp hx]
      exact .inr ⟨by rwa [hrid], hexp⟩
  · exact ⟨r, List.mem_append_left _ hr, rfl, rfl⟩

theorem ages_transition (ht : Transition cfg s c s' c') : Ages cfg s s' := by
  cases ht with
  | stop | loginStart | notSpent | reread | reuse | active | inactive | logoutFind => exact .refl s
  | startFamily user client d s' record hf hi => exact ages_issue hi
  | spend raw client row hr => exact ages_updateMany (keeps_revoke s.now) (expiresAt_revoke _) _ _
  | issue user spent client d s' record hi => exact ages_issue hi
  | link user spentId raw issuedId s' hl =>
    rw [linkReplacement_spec hl]
    exact ages_updateMany (keeps_link issuedId) (expiresAt_link _) _ s.spends
  | revokeReuse f | revokeInactive f | revokeLogout f =>
    exact ages_updateMany (keeps_revoke s.now) (expiresAt_revoke _) _ s.spends

theorem ages_environment {e : Event} (hsweep : e ≠ .sweep) (he : environment s e = some s') :
    Ages cfg s s' := by
  cases e with
  | tick ms =>
    cases he
    exact ⟨Nat.le_add_right _ _, fun _ h => h, fun x hx => .inl ⟨x, hx, rfl, rfl, rfl⟩, fun r hr =>
      ⟨r, hr, rfl, rfl⟩⟩
  | setActive userId active =>
    cases he
    exact ⟨Nat.le_refl _, fun _ h => h, fun x hx => .inl ⟨x, hx, rfl, rfl, rfl⟩, fun r hr =>
      ⟨r, hr, rfl, rfl⟩⟩
  | sweep => exact absurd rfl hsweep

/-- Rows that outlive a sweep keep doing so, and so do new ones. -/
theorem Clear.ages (ha : Ages cfg s s') (hT : T ≤ s.now) (h : Clear cfg T s c) :
    Clear cfg T s' c := by
  have hash : ∀ {raw : String},
    (∀ r ∈ s.refreshTokens, r.tokenHash = cfg.fingerprint raw → T ≤ r.expiresAt) →
      ∀ x ∈ s'.refreshTokens, x.tokenHash = cfg.fingerprint raw → T ≤ x.expiresAt := by
    intro raw hraw x hx hxh
    rcases ha.rows x hx with ⟨r, hr, -, hh, he⟩ | ⟨-, he⟩
    · rw [he]
      exact hraw r hr (hh.symm.trans hxh)
    · omega
  have id : ∀ {i : String}, (∀ r ∈ s.refreshTokens, r.id = i → T ≤ r.expiresAt) →
      ∀ x ∈ s'.refreshTokens, x.id = i → T ≤ x.expiresAt := by
    intro i hi x hx hxi
    rcases ha.rows x hx with ⟨r, hr, hid, -, he⟩ | ⟨-, he⟩
    · rw [he]
      exact hi r hr (hid.symm.trans hxi)
    · omega
  cases c with
  | refreshSpend raw client => exact ⟨h.1, hash h.2⟩
  | refreshReread raw client f => exact hash h
  | refreshExisting raw => exact hash h
  | logoutFind raw => exact hash h
  | refreshUser spent client => exact ⟨ha.ids _ h.1, id h.2⟩
  | refreshIssue user spent client => exact ⟨ha.ids _ h.1, id h.2⟩
  | refreshLink user spentId raw issuedId =>
    obtain ⟨hid, hspent, y, hy, hyi, hle⟩ := h
    obtain ⟨z, hz, hzy, hze⟩ := ha.kept y hy
    refine ⟨ha.ids _ hid, id hspent, z, hz, hzy.trans hyi, fun x hx hxi => ?_⟩
    rcases ha.rows x hx with ⟨r, hr, hri, -, he⟩ | ⟨hnew, -⟩
    · rw [he, hze]
      exact hle r hr (hri.symm.trans hxi)
    · rw [hxi] at hnew
      exact absurd hid hnew
  | _ => trivial

/-! ### The table that no sweep touches -/

/-- No row expires later than one issued now would, and the replacement of a row outlives it. -/
structure Dated (cfg : Config) (s : Store) : Prop where
  latest : ∀ r ∈ s.refreshTokens, r.expiresAt ≤ s.now + ttlMs cfg
  links : ∀ r ∈ s.refreshTokens, ∀ x, r.replacedById = some x → ∃ y ∈ s.refreshTokens, y.id = x ∧
    r.expiresAt ≤ y.expiresAt

theorem latest_ages (ha : Ages cfg s s')
    (h : ∀ r ∈ s.refreshTokens, r.expiresAt ≤ s.now + ttlMs cfg) :
    ∀ x ∈ s'.refreshTokens, x.expiresAt ≤ s'.now + ttlMs cfg := by
  intro x hx
  have hnow := ha.now
  rcases ha.rows x hx with ⟨r, hr, -, -, he⟩ | ⟨-, he⟩
  · have := h r hr
    omega
  · omega

/-- A transition links at most the one row its call has issued a replacement for. -/
theorem Dated.transition (h : Dated cfg s) (hc : Clear cfg T s c) (ht : Transition cfg s c s' c') :
    Dated cfg s' := by
  have ha := ages_transition ht
  refine ⟨latest_ages ha h.latest, ?_⟩
  -- the row that replaces `r` is still there after the transition
  have kept : ∀ {e : ℕ} {i : String}, (∃ y ∈ s.refreshTokens, y.id = i ∧ e ≤ y.expiresAt) →
      ∃ y ∈ s'.refreshTokens, y.id = i ∧ e ≤ y.expiresAt := by
    rintro e i ⟨y, hy, hyi, hle⟩
    obtain ⟨z, hz, hzy, hze⟩ := ha.kept y hy
    exact ⟨z, hz, hzy.trans hyi, by omega⟩
  have revoked :
    ∀ {sel : RefreshToken → Bool}, ∀ r ∈ Table.updateMany sel (revoke s.now) s.refreshTokens, ∀ x,
      r.replacedById = some x → ∃ y ∈ s'.refreshTokens, y.id = x ∧ r.expiresAt ≤ y.expiresAt := by
    intro sel r hr x hx
    obtain ⟨r₀, hr₀, ⟨-, rfl⟩ | ⟨-, rfl⟩⟩ := Table.mem_updateMany.mp hr
    · exact kept (h.links r₀ hr₀ x hx)
    · exact kept (h.links r hr₀ x hx)
  have issued : ∀ {userId familyId : String} {client : ClientMeta} {d : Draw} {record : RefreshToken},
      issue cfg s userId familyId client d = some (s', record) → ∀ r ∈ s'.refreshTokens, ∀ x,
        r.replacedById = some x → ∃ y ∈ s'.refreshTokens, y.id = x ∧ r.expiresAt ≤ y.expiresAt := by
    intro userId familyId client d record hi r hr x hx
    obtain ⟨-, -, -, -, -, -, -, -, hnone, hs'⟩ := issue_spec hi
    rw [hs'] at hr
    rcases List.mem_append.mp hr with hr | hr
    · exact kept (h.links r hr x hx)
    · rw [List.mem_singleton.mp hr, hnone] at hx
      cases hx
  cases ht with
  | stop | loginStart | notSpent | reread | reuse | active | inactive | logoutFind => exact h.links
  | startFamily user client d s' record hf hi => exact issued hi
  | spend raw client row hr => exact revoked
  | issue user spent client d s' record hi => exact issued hi
  | link user spentId raw issuedId s' hl =>
    obtain ⟨-, -, y, hy, hyi, hle⟩ := hc
    obtain rfl := linkReplacement_spec hl
    intro r hr x hx
    obtain ⟨r₀, hr₀, ⟨hsel, rfl⟩ | ⟨-, rfl⟩⟩ := Table.mem_updateMany.mp hr
    · cases hx
      exact kept ⟨y, hy, hyi, hle r₀ hr₀ (of_decide_eq_true hsel)⟩
    · exact kept (h.links r hr₀ x hx)
  | revokeReuse f | revokeInactive f | revokeLogout f => exact revoked

/-- The store of the run without sweeps, when the other was last swept at `T`. -/
structure Unswept (cfg : Config) (T : ℕ) (s : Store) : Prop where
  rows : RowsInv cfg s
  dated : Dated cfg s
  nonempty : "" ∉ s.spends
  swept : T ≤ s.now

theorem Unswept.transition (h : Unswept cfg T s) (hc : Clear cfg T s c)
    (ht : Transition cfg s c s' c') :
    Unswept cfg T s' := by
  refine ⟨h.rows.transition ht, h.dated.transition hc ht, ?_,
    Nat.le_trans h.swept (ages_transition ht).now⟩
  have issued : ∀ {userId familyId : String} {client : ClientMeta} {d : Draw} {record : RefreshToken},
      issue cfg s userId familyId client d = some (s', record) → "" ∉ s'.spends := by
    intro userId familyId client d record hi
    obtain ⟨-, -, -, -, -, -, -, -, -, rfl⟩ := issue_spec hi
    exact h.nonempty
  cases ht with
  | startFamily user client d s' record hf hi => exact issued hi
  | issue user spent client d s' record hi => exact issued hi
  | spend raw client row hr =>
    intro hmem
    rcases List.mem_cons.mp hmem with heq | hmem
    · exact hc.1 heq.symm
    · exact h.nonempty hmem
  | link user spentId raw issuedId s' hl =>
    rw [linkReplacement_spec hl]
    exact h.nonempty
  | _ => exact h.nonempty

theorem clear_transition (h : Unswept cfg T s) (hc : Clear cfg T s c)
    (ht : Transition cfg s c s' c') :
    Clear cfg T s' c' := by
  have ha := ages_transition ht
  have hc' : Clear cfg T s' c := hc.ages ha h.swept
  cases ht with
  | spend raw client row hr => exact hc'.2
  | notSpent raw client hr => exact hc'.2
  | reread raw client f spent hr =>
    obtain ⟨hmem, hhash⟩ := findByHash_spec hr
    refine ⟨(h.rows.drawn spent hmem).2.1, fun r hr' hid => ?_⟩
    rw [Table.eq_of_nodup_key h.rows.ids hr' hmem hid]
    exact hc spent hmem hhash
  | active user spent client hu hid => exact hc'
  | issue user spent client d s' record hi =>
    obtain ⟨-, -, -, -, -, -, hexp, -, -, hs'⟩ := issue_spec hi
    have hrecord : record ∈ s'.refreshTokens := by
      rw [hs']
      exact List.mem_append_right _ List.mem_cons_self
    refine ⟨hc'.1, hc'.2, record, hrecord, rfl, fun r hr _ => ?_⟩
    rcases ha.rows r hr with ⟨r₀, hr₀, -, -, he⟩ | ⟨-, he⟩
    · have := h.dated.latest r₀ hr₀
      omega
    · omega
  | _ => trivial

theorem Unswept.environment (h : Unswept cfg T s) {e : Event} (hsweep : e ≠ .sweep)
    (he : environment s e = some s') :
    Unswept cfg T s' := by
  have ha : Ages cfg s s' := ages_environment hsweep he
  refine ⟨h.rows.environment he, ⟨latest_ages ha h.dated.latest, ?_⟩, ?_, Nat.le_trans h.swept ha.now⟩
  · cases e with
    | sweep => exact absurd rfl hsweep
    | tick ms => cases he; exact h.dated.links
    | setActive userId active => cases he; exact h.dated.links
  · cases e with
    | sweep => exact absurd rfl hsweep
    | tick ms => cases he; exact h.nonempty
    | setActive userId active => cases he; exact h.nonempty

theorem environment_without {e : Event} (hsweep : e ≠ .sweep) :
    environment (without T s) e = (environment s e).map (without T) := by
  cases e with
  | tick ms => rfl
  | setActive userId active => rfl
  | sweep => exact absurd rfl hsweep

/-! ### Runs with and without sweeps -/

/-- The cleanup timer firing. -/
def sweeps : Action Request Choice Event → Bool
  | .env .sweep => true
  | _ => false

def answered : Call → Bool
  | .done _ => true
  | _ => false

/-- Operations run one at a time: a call or a sweep begins when every call before it has been
answered. -/
def OneAtATime (p : Pool Store Call) : Action Request Choice Event → Prop
  | .call _ | .env .sweep => ∀ c ∈ p.calls, answered c = true
  | _ => True

/-- The refresh token a request presents. -/
def presented : Request → Option String
  | .login _ _ _ => none
  | .refresh raw _ => some raw
  | .logout raw => some raw

/-- No call that begins presents a token at or past its `expiresAt`. -/
def PresentsLive (cfg : Config) (p : Pool Store Call) : Action Request Choice Event → Prop
  | .call r => ∀ raw ∈ presented r, ∀ row ∈ p.store.refreshTokens, row.tokenHash =
    cfg.fingerprint raw →
      p.store.now < row.expiresAt
  | _ => True

/-- The run without sweeps, and the one last swept at some time that no open call can tell. -/
def Swept (cfg : Config) (u v : Pool Store Call) : Prop :=
  ∃ T, u.Holds (Unswept cfg T) (Clear cfg T) ∧ v = ⟨without T u.store, u.calls⟩

theorem clear_start {u : Pool Store Call} (hswept : T ≤ u.store.now) {r : Request}
    (h : PresentsLive cfg u (.call r)) :
    Clear cfg T u.store (start r) := by
  have outlives : ∀ raw ∈ presented r, ∀ row ∈ u.store.refreshTokens, row.tokenHash =
    cfg.fingerprint raw →
      T ≤ row.expiresAt := by
    intro raw hraw row hrow hhash
    have := h raw hraw row hrow hhash
    omega
  cases r with
  | login email password client => trivial
  | refresh raw client =>
    simp only [start]
    split_ifs with hne
    · trivial
    · exact ⟨hne, outlives raw rfl⟩
  | logout raw =>
    simp only [start]
    split_ifs with hne
    · trivial
    · exact outlives raw rfl

/-- A sweep between two operations, which only moves the time of the last sweep on. -/
theorem Swept.sweep {u v : Pool Store Call} (h : Swept cfg u v)
    (hidle : ∀ c ∈ v.calls, answered c = true) :
    Swept cfg u ⟨UserManagement.sweep v.store, v.calls⟩ := by
  obtain ⟨T, ⟨hI, hJ⟩, rfl⟩ := h
  refine ⟨u.store.now, ⟨⟨hI.rows, hI.dated, hI.nonempty, Nat.le_refl _⟩, fun c hc => ?_⟩, ?_⟩
  · have hdone := hidle c hc
    cases c with
    | done o => trivial
    | _ => cases hdone
  · rw [sweep_eq_without]
    congr 1
    exact without_without hI.swept

theorem silences_sweeps (cfg : Config) :
    Silences (auth cfg).step (auth cfg).step sweeps (PresentsLive cfg) OneAtATime
    (Swept cfg) where
  step_loud u v a hR hloud hlive _ := by
    obtain ⟨T, hH, rfl⟩ := hR
    cases a with
    | call r => exact .some ⟨T, hH.call (clear_start hH.1.swept hlive), rfl⟩
    | run i d =>
      cases hi : u.calls[i]? with
      | none => simp only [Program.step, hi, Option.bind_none]; exact .none
      | some c =>
        have hc := hH.2 c (List.mem_of_getElem? hi)
        have hstep : (auth cfg).statement (without T u.store) c d =
            ((auth cfg).statement u.store c d).map fun next => (without T next.1, next.2) :=
          statement_without hH.1.swept hc d
        simp only [Program.step, hi, Option.bind_some, hstep, Option.map_map]
        cases hst : (auth cfg).statement u.store c d with
        | none => exact .none
        | some next =>
          have ht : Transition cfg u.store c next.1 next.2 := statement_transition hst
          exact .some ⟨T, hH.run (hH.1.transition hc ht) (clear_transition hH.1 hc ht)
            fun x hx => hx.ages (ages_transition ht) hH.1.swept, rfl⟩
    | env e =>
      have hsweep : e ≠ .sweep := by
        rintro rfl
        cases hloud
      have hstep : (auth cfg).environment (without T u.store) e =
          ((auth cfg).environment u.store e).map (without T) :=
        environment_without hsweep
      simp only [Program.step, hstep, Option.map_map]
      cases he : (auth cfg).environment u.store e with
      | none => exact .none
      | some s =>
        exact .some ⟨T, hH.env (hH.1.environment hsweep he)
          fun x hx => hx.ages (ages_environment hsweep he) hH.1.swept, rfl⟩
  step_silent u v a hR hsilent hidle := by
    cases a with
    | call r => cases hsilent
    | run i d => cases hsilent
    | env e =>
      cases e with
      | tick ms => cases hsilent
      | setActive userId active => cases hsilent
      | sweep => exact ⟨_, rfl, hR.sweep hidle⟩

theorem swept_fresh {p : Pool Store Call} (h : Fresh p) : Swept cfg p p := by
  have hrows : RowsInv cfg p.store := (sessionInv_fresh h).1
  obtain ⟨hcalls, hnil, -, -, -, hspends⟩ := h
  refine ⟨0, ⟨⟨hrows, ⟨?_, ?_⟩, ?_, Nat.zero_le _⟩, ?_⟩, ?_⟩
  · intro r hr
    rw [hnil] at hr
    cases hr
  · intro r hr
    rw [hnil] at hr
    cases hr
  · rw [hspends]
    exact List.not_mem_nil
  · intro c hc
    rw [hcalls] at hc
    cases hc
  · obtain ⟨s, calls⟩ := p
    cases s
    cases hnil
    rfl

/-- What the sweeps of the run that ends in `v` have left unchanged, against the same run without
them, which ends in `u`: where every call stands and what it answered, what a replay meets, and
the links. -/
structure Unobserved (cfg : Config) (u v : Pool Store Call) : Prop where
  calls : v.calls = u.calls
  replay : ∀ raw ∈ u.store.spends, ∀ row ∈ u.store.refreshTokens, row.tokenHash = cfg.fingerprint raw →
    u.store.now < row.expiresAt → ReadsAsTheft cfg v.store raw row
  links : ∀ r ∈ v.store.refreshTokens, ∀ x, r.replacedById = some x → ∃ y ∈ v.store.refreshTokens,
    y.id = x

theorem Swept.unobserved {u v : Pool Store Call} (h : Swept cfg u v) : Unobserved cfg u v := by
  obtain ⟨T, ⟨hI, -⟩, rfl⟩ := h
  refine ⟨rfl, fun raw hraw row hrow hhash hlive => ?_, fun r hr x hx => ?_⟩
  · have hne : raw ≠ "" := fun he => hI.nonempty (he ▸ hraw)
    have hT : T ≤ row.expiresAt := Nat.le_trans hI.swept (Nat.le_of_lt hlive)
    exact Spent.readsAsTheft hne
      ⟨hI.rows.deleteMany _, hraw, row, mem_without.mpr ⟨hrow, hT⟩, hhash, rfl⟩
  · obtain ⟨hmem, hT⟩ := mem_without.mp hr
    obtain ⟨y, hy, hyx, hle⟩ := hI.dated.links r hmem x hx
    exact ⟨y, mem_without.mpr ⟨hy, Nat.le_trans hT hle⟩, hyx⟩

/-- Sweeps between operations that run one at a time are not observed: no call that presents an
unexpired token goes another way, a replay of a spent unexpired token still revokes its family,
and no row that is left names one that a sweep took. -/
theorem sweeps_unobserved (cfg : Config) {p : Pool Store Call}
    {as : List (Action Request Choice Event)} (hp : Fresh p)
    (hserial : Meets (auth cfg).step OneAtATime p as)
    (hlive : Meets (auth cfg).step (PresentsLive cfg) p (loud sweeps as)) :
    Option.Rel (Unobserved cfg) (exec (auth cfg).step p (loud sweeps as))
      (exec (auth cfg).step p as) := by
  have hrel := (silences_sweeps cfg).exec (swept_fresh hp) hlive hserial
  generalize exec (auth cfg).step p (loud sweeps as) = u at hrel ⊢
  generalize exec (auth cfg).step p as = v at hrel ⊢
  cases hrel with
  | none => exact .none
  | some h => exact .some h.unobserved

/-! ### A replay after a sweep -/

instance (p : Pool Store Call) (a : Action Request Choice Event) : Decidable (OneAtATime p a) :=
  match a with
  | .call _ | .env .sweep => inferInstanceAs (Decidable (∀ c ∈ p.calls, answered c = true))
  | .run _ _ | .env (.tick _) | .env (.setActive _ _) => .isTrue trivial

instance (cfg : Config) (p : Pool Store Call) (a : Action Request Choice Event) :
    Decidable (PresentsLive cfg p a) :=
  match a with
  | .call r => inferInstanceAs (Decidable (∀ raw ∈ presented r, ∀ row ∈ p.store.refreshTokens,
      row.tokenHash = cfg.fingerprint raw → p.store.now < row.expiresAt))
  | .run _ _ | .env _ => .isTrue trivial

/-- Alice's first session expires and is swept; her second one is refreshed and its spent token
replayed. -/
def sweepThenReplay : List (Action Request Choice Event) :=
  [.call (.login "a@b.com" "secret" browser), .run 0 plain, .run 0 (.ok ⟨"f", "t1", "r1"⟩),
    .env (.tick (ttlMs plainConfig + 1)), .call (.login "a@b.com" "secret" browser), .run 1 plain,
    .run 1 (.ok ⟨"g", "t2", "r2"⟩), .call (.refresh "t2" browser), .run 2 plain, .run 2 plain,
      .run 2 plain,
    .run 2 (.ok ⟨"g", "t3", "r3"⟩), .run 2 plain, .env .sweep, .call (.refresh "t2" browser),
    .run 3 plain, .run 3 plain, .run 3 plain]

theorem sweeps_unobserved_sweepThenReplay :
    ∃ u v, exec (auth plainConfig).step opening (loud sweeps sweepThenReplay) = some u ∧
    exec (auth plainConfig).step opening sweepThenReplay = some v ∧
    u.store.refreshTokens.length = 3 ∧ v.store.refreshTokens.length = 2 ∧
      Unobserved plainConfig u v := by
  refine ⟨_, _, rfl, rfl, rfl, rfl, ?_⟩
  have h : Option.Rel (Unobserved plainConfig) (some _) (some _) :=
    @sweeps_unobserved plainConfig opening sweepThenReplay fresh_opening (by decide) (by decide)
  exact Option.rel_some_some.mp h

end Finlytic.UserManagement
