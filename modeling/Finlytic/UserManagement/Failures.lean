import Finlytic.UserManagement.Operations
import Finlytic.UserManagement.Families

/-! What a refresh leaves when it fails for no reason of the token's. Its first statement
spends the token, and nothing takes that back: only a failure of that statement itself
is harmless. After any other the honest retry is read as reuse. -/

namespace Finlytic.UserManagement

open Lib

variable {cfg : Config} {s s' : Store} {c c' : Call} {raw f : String} {row : RefreshToken}
  {client : ClientMeta}

/-- The tokens of a family that a spend accepts. -/
def Acceptable (cfg : Config) (s : Store) (f raw : String) : Prop :=
  ∃ row, spendRow cfg s raw = some row ∧ row.familyId = f

/-- The token can be presented again: the family accepts what it did before, and with an active
user the retry gives a session. -/
structure Unharmed (cfg : Config) (s s' : Store) (raw : String) (row : RefreshToken) : Prop where
  acceptable : ∀ t, Acceptable cfg s' row.familyId t ↔ Acceptable cfg s row.familyId t
  retry : ∀ user client d, findById s row.userId = some user → user.isActive = true →
    d.raw ∉ s.tokens → d.id ∉ s.ids →
    ∃ t response, operate cfg s' (.refresh raw client) (List.replicate 5 (.ok d)) true =
      some (t, .session response)

/-- The token is gone: presenting it again is refused as reuse, and nothing of the family is live
after that. -/
structure ReadsAsTheft (cfg : Config) (s' : Store) (raw : String) (row : RefreshToken) : Prop where
  refused : ¬ Acceptable cfg s' row.familyId raw
  retry : ∀ client d, operate cfg s' (.refresh raw client) (List.replicate 3 (.ok d)) true =
    some (revokeFamily s' row.familyId, .unauthorized "Invalid refresh token")
  revoked : ∀ r ∈ (revokeFamily s' row.familyId).refreshTokens, r.familyId = row.familyId →
    r.revokedAt ≠ none

/-! ### The token was spent -/

/-- The token was accepted once, and its row is still there. -/
def Spent (cfg : Config) (raw f : String) (s : Store) : Prop :=
  RowsInv cfg s ∧ raw ∈ s.spends ∧ ∃ r ∈ s.refreshTokens, r.tokenHash = cfg.fingerprint raw ∧
    r.familyId = f

theorem exists_updateMany {set : RefreshToken → RefreshToken} (hk : Keeps set)
    (sel : RefreshToken → Bool) {rows : List RefreshToken} {r : RefreshToken} (hr : r ∈ rows) :
    ∃ x ∈ Table.updateMany sel set rows, x.tokenHash = r.tokenHash ∧ x.familyId = r.familyId := by
  cases hsel : sel r with
  | false => exact ⟨r, Table.mem_updateMany.mpr ⟨r, hr, .inr ⟨hsel, rfl⟩⟩, rfl, rfl⟩
  | true => exact ⟨set r, Table.mem_updateMany.mpr ⟨r, hr, .inl ⟨hsel, rfl⟩⟩, hk.tokenHash r,
    hk.familyId r⟩

theorem Spent.transition (h : Spent cfg raw f s) (ht : Transition cfg s c s' c') :
    Spent cfg raw f s' := by
  obtain ⟨hrows, hspends, r, hr, hhash, hfamily⟩ := h
  have hrows' := hrows.transition ht
  have updated :
    ∀ {set : RefreshToken → RefreshToken} (sel : RefreshToken → Bool) {rows : List RefreshToken},
      Keeps set → rows = Table.updateMany sel set s.refreshTokens →
      ∃ r ∈ rows, r.tokenHash = cfg.fingerprint raw ∧ r.familyId = f := by
    rintro set sel rows hk rfl
    obtain ⟨x, hx, hxh, hxf⟩ := exists_updateMany hk sel hr
    exact ⟨x, hx, hxh.trans hhash, hxf.trans hfamily⟩
  have issued : ∀ {userId familyId : String} {client : ClientMeta} {d : Draw} {record : RefreshToken},
      issue cfg s userId familyId client d = some (s', record) → Spent cfg raw f s' := by
    intro userId familyId client d record hi
    obtain ⟨-, -, -, -, -, -, -, -, -, rfl⟩ := issue_spec hi
    exact ⟨hrows', hspends, r, List.mem_append_left _ hr, hhash, hfamily⟩
  cases ht with
  | stop | loginStart | notSpent | reread | reuse | active | inactive | logoutFind =>
    exact ⟨hrows, hspends, r, hr, hhash, hfamily⟩
  | startFamily user client d s' record hf hi => exact issued hi
  | spend raw' client row hrow =>
    exact ⟨hrows', List.mem_cons_of_mem _ hspends, updated _ (keeps_revoke s.now) rfl⟩
  | issue user spent client d s' record hi => exact issued hi
  | link user spentId raw' issuedId s' hl =>
    obtain rfl := linkReplacement_spec hl
    exact ⟨hrows', hspends, updated _ (keeps_link issuedId) rfl⟩
  | revokeReuse g | revokeInactive g | revokeLogout g =>
    exact ⟨hrows', hspends, updated _ (keeps_revoke s.now) rfl⟩

theorem spent_spendUpdate (hrows : RowsInv cfg s) (hrow : spendRow cfg s raw = some row) :
    Spent cfg raw row.familyId (spendUpdate cfg s raw) := by
  obtain ⟨hmem, hhash, -, -⟩ := spendRow_spec hrow
  obtain ⟨x, hx, hxh, hxf⟩ :=
    exists_updateMany (keeps_revoke s.now) (spendable (cfg.fingerprint raw) s.now) hmem
  exact ⟨hrows.spendUpdate hrow, List.mem_cons_self, x, hx, hxh.trans hhash, hxf⟩

theorem findByHash_eq (hrows : RowsInv cfg s) {r : RefreshToken} (hr : r ∈ s.refreshTokens)
    (hhash : r.tokenHash = cfg.fingerprint raw) : findByHash cfg s raw = some r := by
  cases hfind : findByHash cfg s raw with
  | none => exact absurd (decide_eq_true hhash) (List.find?_eq_none.mp hfind r hr)
  | some x =>
    obtain ⟨hx, hxh⟩ := findByHash_spec hfind
    rw [Table.eq_of_nodup_key hrows.hashes hx hr (hxh.trans hhash.symm)]

/-- What a spent token meets when it is presented again. -/
theorem Spent.readsAsTheft (hne : raw ≠ "") (h : Spent cfg raw row.familyId s) :
    ReadsAsTheft cfg s raw row := by
  obtain ⟨hrows, hspends, r, hr, hhash, hfamily⟩ := h
  have hnone : spendRow cfg s raw = none := by
    cases hspend : spendRow cfg s raw with
    | none => rfl
    | some x =>
      obtain ⟨hx, hxh, hlive, -⟩ := spendRow_spec hspend
      exact absurd hlive ((hrows.spent raw hspends).2 x hx hxh)
  have hrevoked : r.revokedAt.isSome = true :=
    Option.isSome_iff_ne_none.mpr ((hrows.spent raw hspends).2 r hr hhash)
  refine ⟨?_, fun client d => ?_, ?_⟩
  · rintro ⟨x, hx, -⟩
    rw [hnone] at hx
    cases hx
  · have hstart : start (.refresh raw client) = .refreshSpend raw client := if_neg hne
    have hspend : statement cfg s (.refreshSpend raw client) (.ok d) =
        some (s, .refreshExisting raw) := by
      simp only [statement, hnone]
    have hexisting :
        statement cfg s (.refreshExisting raw) (.ok d) = some (s, .refreshReuse row.familyId) := by
      simp only [statement, findByHash_eq hrows hr hhash, if_pos hrevoked, hfamily]
    unfold operate
    rw [hstart]
    simp only [List.replicate, settle_cons, attempt, hspend, hexisting, Option.bind_some]
    rfl
  · intro x hx hxf hlive
    obtain ⟨y, hy, ⟨-, rfl⟩ | ⟨hsel, rfl⟩⟩ := Table.mem_updateMany.mp hx
    · cases hlive
    · rw [liveIn, hlive] at hsel
      simp [hxf] at hsel

/-! ### The token was not spent -/

/-- A live token of an active user gives a session when nothing fails. -/
theorem session_of_live (hrows : RowsInv cfg s) (hne : raw ≠ "")
    (hlive : spendRow cfg s raw = some row) {user : User}
    (huser : findById s row.userId = some user) (hactive : user.isActive = true) {d : Draw}
    (hraw : d.raw ∉ s.tokens) (hid : d.id ∉ s.ids) (client : ClientMeta) :
    ∃ t response, operate cfg s (.refresh raw client) (List.replicate 5 (.ok d)) true =
      some (t, .session response) := by
  obtain ⟨hmem, hhash, hnone, hexp⟩ := spendRow_spec hlive
  have hsel : spendable (cfg.fingerprint raw) s.now row = true := by
    simp [spendable, hhash, hnone, hexp]
  have hspentRow : revoke s.now row ∈ (spendUpdate cfg s raw).refreshTokens :=
    Table.mem_updateMany.mpr ⟨row, hmem, .inl ⟨hsel, rfl⟩⟩
  have hstart : start (.refresh raw client) = .refreshSpend raw client := if_neg hne
  have hspend : statement cfg s (.refreshSpend raw client) (.ok d) =
      some (spendUpdate cfg s raw, .refreshReread raw client row.familyId) := by
    simp only [statement, hlive]
  have hreread : statement cfg (spendUpdate cfg s raw) (.refreshReread raw client row.familyId)
    (.ok d) =
      some (spendUpdate cfg s raw, .refreshUser (revoke s.now row) client) := by
    simp only [statement, findByHash_eq (hrows.spendUpdate hlive) hspentRow hhash]
  have huser' : findById (spendUpdate cfg s raw) (revoke s.now row).userId = some user := huser
  have hfind : statement cfg (spendUpdate cfg s raw) (.refreshUser (revoke s.now row) client) (.ok d) =
      some (spendUpdate cfg s raw, .refreshIssue user (revoke s.now row) client) := by
    simp only [statement, huser', if_pos hactive]
  have hfresh : ¬ (d.raw ∈ (spendUpdate cfg s raw).tokens ∨ d.id ∈ (spendUpdate cfg s raw).ids) :=
    fun h => h.elim hraw hid
  obtain ⟨⟨u, record⟩, hissue⟩ :
    ∃ issued, issue cfg (spendUpdate cfg s raw) user.id (revoke s.now row).familyId client d =
      some issued := ⟨_, if_neg hfresh⟩
  obtain ⟨-, -, -, -, -, -, -, -, -, hu⟩ := issue_spec hissue
  have hany : u.refreshTokens.any (·.id = (revoke s.now row).id) = true := by
    rw [hu]
    exact List.any_eq_true.mpr ⟨revoke s.now row, List.mem_append_left _ hspentRow, decide_eq_true rfl⟩
  have hissued :
    statement cfg (spendUpdate cfg s raw) (.refreshIssue user (revoke s.now row) client) (.ok d) =
      some (u, .refreshLink user (revoke s.now row).id d.raw record.id) := by
    simp only [statement, hissue, Option.map_some]
  obtain ⟨v, hlink⟩ : ∃ v, linkReplacement u (revoke s.now row).id record.id = some v :=
    ⟨_, if_pos hany⟩
  have hlinked : statement cfg u (.refreshLink user (revoke s.now row).id d.raw record.id) (.ok d) =
      some (v, .done (.session (buildSession cfg user d.raw))) := by
    simp only [statement, hlink]
  refine ⟨v, buildSession cfg user d.raw, ?_⟩
  unfold operate
  rw [hstart]
  simp only [List.replicate, settle_cons, attempt, hspend, hreread, hfind, hissued, hlinked,
    Option.bind_some]
  rfl

/-- Refresh is not atomic. A failure of the spending update itself leaves the family as it was;
after every other failure the token is spent, and presenting it again reads as theft. -/
theorem failed_refresh (cfg : Config) (s s' : Store) (raw : String) (client : ClientMeta)
    (attempts : List Attempt) (signs : Bool) (row : RefreshToken) (hrows : RowsInv cfg s)
    (hlive : spendRow cfg s raw = some row)
    (hfail : operate cfg s (.refresh raw client) attempts signs = some (s', .failed)) :
    (attempts.head? = some (.error none) → Unharmed cfg s s' raw row) ∧
    (attempts.head? ≠ some (.error none) → ReadsAsTheft cfg s' raw row) := by
  obtain ⟨o, hsettle, hout⟩ := operate_cases hfail
  by_cases hne : raw = ""
  · -- an empty token is refused before the first statement
    subst hne
    obtain ⟨-, rfl⟩ := settle_done hsettle
    rcases hout with hout | ⟨hsigns, -⟩
    · cases hout
    · unfold operate at hfail
      rw [hsettle] at hfail
      cases hfail
  · have hstart : start (.refresh raw client) = .refreshSpend raw client := if_neg hne
    rw [hstart] at hsettle
    rcases settle_cases hsettle with ⟨hdone, -, -⟩ | ⟨a, as, t, c', rfl, ha, hrest⟩
    · cases hdone
    · have hspend : ∀ d, statement cfg s (.refreshSpend raw client) (.ok d) =
          some (spendUpdate cfg s raw, .refreshReread raw client row.familyId) := by
        intro d
        simp only [statement, hlive]
      have spent : t = spendUpdate cfg s raw → ReadsAsTheft cfg s' raw row := by
        rintro rfl
        exact (settle_invariant (fun _ _ _ _ h ht => h.transition ht)
          (spent_spendUpdate hrows hlive) hrest).readsAsTheft hne
      cases a with
      | ok d =>
        rw [attempt, hspend] at ha
        cases ha
        refine ⟨fun h => ?_, fun _ => spent rfl⟩
        cases h
      | error applied =>
        cases applied with
        | some d =>
          rw [attempt, hspend] at ha
          cases ha
          refine ⟨fun h => ?_, fun _ => spent rfl⟩
          cases h
        | none =>
          cases ha
          obtain ⟨rfl, -⟩ := settle_done hrest
          refine ⟨fun _ => ⟨fun t => Iff.rfl, fun user client d huser hactive hraw hid => ?_⟩,
            fun h => absurd rfl h⟩
          exact session_of_live hrows hne hlive huser hactive hraw hid client

def sessionRow : RefreshToken := ⟨"r1", "alice", "t1", "f", 1000, none, none, none, none⟩

/-- Alice has one session. -/
def oneSession : Store := ⟨0, [alice], [sessionRow], ["f"], ["t1"], ["r1"], []⟩

theorem rowsInv_oneSession : RowsInv plainConfig oneSession where
  hashes := List.nodup_singleton _
  ids := List.nodup_singleton _
  drawn r hr := by
    rw [List.mem_singleton.mp hr]
    exact ⟨⟨"t1", List.mem_cons_self, rfl⟩, List.mem_cons_self, List.mem_cons_self⟩
  spends := List.nodup_nil
  spent raw hraw := absurd hraw List.not_mem_nil

theorem failed_refresh_spend : Unharmed plainConfig oneSession oneSession "t1" sessionRow :=
  (failed_refresh plainConfig oneSession oneSession "t1" browser
    [.error none] true sessionRow rowsInv_oneSession rfl rfl).1 rfl

/-- The token is spent, and then the database is gone: the retry is read as theft. -/
theorem refresh_not_atomic :
    ¬ ∀ (s s' : Store) (raw : String) (client : ClientMeta) (attempts : List Attempt) (signs : Bool)
    (row : RefreshToken), RowsInv plainConfig s → spendRow plainConfig s raw = some row →
    operate plainConfig s (.refresh raw client) attempts signs = some (s', .failed) →
      Unharmed plainConfig s s' raw row := by
  intro h
  have hsafe :=
    h oneSession _ "t1" browser [.ok ⟨"", "", ""⟩, .error none] true sessionRow
    rowsInv_oneSession rfl rfl
  obtain ⟨row, hrow, -⟩ := (hsafe.acceptable "t1").mpr ⟨sessionRow, rfl, rfl⟩
  cases hrow

end Finlytic.UserManagement
