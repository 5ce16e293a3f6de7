import Finlytic.EmailIngestion.Reauth
import Finlytic.EmailIngestion.TokenVault

/-! A mailbox row always opens to the tokens delivered last. Two services write the
token columns; each of their writes is a delivery to the one row with that key, and
the other outcomes leave the columns alone. -/

namespace Finlytic.EmailIngestion

open Lib

variable {cfg : AccountsConfig} {v v' : Vault} {s s' : AccountStore} {a account : MailAccount}
  {key : MailboxKey} {tokens : OAuthTokens} {d : AccountDraw} {reply : RefreshReply}

/-! ### Deliveries -/

def deliver (v : Vault) (key : MailboxKey) (tokens : OAuthTokens) : Vault :=
  { v with delivered := (key, tokens) :: v.delivered }

theorem lastTokens_deliver : lastTokens (deliver v key tokens) key = some tokens := by
  unfold lastTokens deliver
  rw [List.find?_cons_of_pos (by simp)]
  rfl

theorem lastTokens_deliver_ne {other : MailboxKey} (h : other ≠ key) :
    lastTokens (deliver v key tokens) other = lastTokens v other := by
  unfold lastTokens deliver
  rw [List.find?_cons_of_neg (by simpa using h.symm)]

theorem lastRefreshToken_deliver :
    lastRefreshToken (deliver v key tokens) key = tokens.refreshToken.or
      (lastRefreshToken v key) := by
  unfold lastRefreshToken deliver
  rw [List.findSome?_cons]
  simp only [if_true]
  cases tokens.refreshToken <;> rfl

theorem lastRefreshToken_deliver_ne {other : MailboxKey} (h : other ≠ key) :
    lastRefreshToken (deliver v key tokens) other = lastRefreshToken v other := by
  unfold lastRefreshToken deliver
  rw [List.findSome?_cons]
  simp only [h.symm, if_false]

/-- Another mailbox's delivery does not concern the row. -/
theorem Opens.deliver_ne (h : Opens cfg v a) (hne : keyOf a ≠ key) :
    Opens cfg (deliver v key tokens) a where
  access := by
    rw [lastTokens_deliver_ne hne]
    exact h.access
  refresh := by
    rw [lastRefreshToken_deliver_ne hne]
    exact h.refresh
  absent := by
    rw [lastRefreshToken_deliver_ne hne]
    exact h.absent

/-- Only the history and these columns count. -/
theorem Opens.congr {b : MailAccount} (h : Opens cfg v a) (hv : v'.delivered = v.delivered)
    (hkey : keyOf b = keyOf a) (haccess : b.accessTokenEnc = a.accessTokenEnc)
    (hexpires : b.accessTokenExpires = a.accessTokenExpires)
    (hrefresh : b.refreshTokenEnc = a.refreshTokenEnc) : Opens cfg v' b := by
  have hlast : lastTokens v' (keyOf b) = lastTokens v (keyOf a) := by
    unfold lastTokens
    rw [hv, hkey]
  have hlastRefresh : lastRefreshToken v' (keyOf b) = lastRefreshToken v (keyOf a) := by
    unfold lastRefreshToken
    rw [hv, hkey]
  constructor
  · rw [hlast, haccess, hexpires]
    exact h.access
  · rw [hlastRefresh, hrefresh]
    exact h.refresh
  · rw [hlastRefresh, hrefresh]
    exact h.absent

/-- A row that both services write alike: the new access token, and the new refresh token or the
one before. -/
theorem opens_of_delivery {b : MailAccount} {earlier : Option String}
    {accessNonce refreshNonce : String} (ht : NonEmpty tokens) (hkey : keyOf b = key)
    (haccess : b.accessTokenEnc = cfg.encrypt accessNonce .access tokens.accessToken)
    (hexpires : b.accessTokenExpires = tokens.expiresAt)
    (hrefresh : b.refreshTokenEnc =
      ((truthy tokens.refreshToken).map (cfg.encrypt refreshNonce .refresh)).or earlier)
    (hearlier : ∀ refreshToken, lastRefreshToken v key = some refreshToken →
      ∃ envelope, earlier = some envelope ∧ cfg.decrypt envelope .refresh = .ok refreshToken)
    (habsent : lastRefreshToken v key = none → earlier = none) :
    Opens cfg (deliver v key tokens) b := by
  rw [truthy_of_ne_empty ht.2] at hrefresh
  constructor
  · refine ⟨tokens, ?_, ?_, hexpires⟩
    · rw [hkey, lastTokens_deliver]
    · rw [haccess]
      exact cfg.decrypt_encrypt accessNonce .access _ ht.1
  · intro refreshToken hlast
    rw [hkey, lastRefreshToken_deliver] at hlast
    cases hnew : tokens.refreshToken with
    | none =>
      rw [hnew, Option.none_or] at hlast
      rw [hrefresh, hnew]
      exact hearlier refreshToken hlast
    | some t =>
      rw [hnew, Option.some_or, Option.some.injEq] at hlast
      have hne : t ≠ "" := by
        rintro rfl
        exact ht.2 hnew
      refine ⟨cfg.encrypt refreshNonce .refresh t, ?_, ?_⟩
      · rw [hrefresh, hnew]
        rfl
      · rw [← hlast]
        exact cfg.decrypt_encrypt refreshNonce .refresh t hne
  · intro hlast
    rw [hkey, lastRefreshToken_deliver] at hlast
    cases hnew : tokens.refreshToken with
    | none =>
      rw [hnew, Option.none_or] at hlast
      rw [hrefresh, hnew, habsent hlast]
      rfl
    | some t =>
      rw [hnew] at hlast
      cases hlast

/-! ### What a call does -/

/-- A call that updates the row it has read. -/
theorem updateThen_of_mem {set : MailAccount → MailAccount} {next thrown : AccountCall}
    (ha : account ∈ s.accounts) :
    updateThen s account.id set next thrown =
      some ({ s with accounts := Table.updateMany (·.id = account.id) set s.accounts }, next) := by
  have hany : s.accounts.any (·.id = account.id) = true :=
    List.any_eq_true.mpr ⟨account, ha, decide_eq_true rfl⟩
  unfold updateThen updateAccount
  rw [if_pos hany]

/-- `getConnection` leaves the table alone, marks the row it has read, or stores the new tokens in
it. -/
theorem getConnection_cases (ha : account ∈ v.store.accounts)
    (h : complete cfg v reply d (getConnection cfg v.store.now .preview account) = some v') :
    (v'.store.accounts = v.store.accounts ∧ v'.store.ids = v.store.ids ∧ v'.delivered =
      v.delivered) ∨
    (∃ reason, v'.store.accounts = Table.updateMany (·.id = account.id)
      (withStatus .REAUTH_REQUIRED reason) v.store.accounts ∧
      v'.store.ids = v.store.ids ∧ v'.delivered = v.delivered) ∨
    ∃ t, reply = .tokens t ∧
      v'.store.accounts = Table.updateMany (·.id = account.id)
        (withTokens cfg d t) v.store.accounts ∧
      v'.store.ids = v.store.ids ∧ v'.delivered = (keyOf account, t) :: v.delivered := by
  have hmark : ∀ (s : AccountStore) (reason : String), s.accounts = v.store.accounts →
    s.ids = v.store.ids →
      ∀ r, runCall cfg s (.markReauthRequired .preview account reason) [.ok d] = some r →
        r.1.accounts = Table.updateMany (·.id = account.id)
          (withStatus .REAUTH_REQUIRED reason) v.store.accounts ∧
        r.1.ids = v.store.ids := by
    intro s reason haccounts hids r hr
    have hmem : account ∈ s.accounts := by
      rw [haccounts]
      exact ha
    simp only [runCall, accountStatement, updateThen_of_mem hmem, Option.bind_some,
      Option.some.injEq] at hr
    rw [← hr, ← haccounts]
    exact ⟨rfl, hids⟩
  unfold getConnection at h
  split_ifs at h
  · split at h
    all_goals
      cases h
      exact .inl ⟨rfl, rfl, rfl⟩
  · split at h
    · obtain ⟨r, hr, rfl⟩ := Option.map_eq_some_iff.mp h
      obtain ⟨haccounts, hids⟩ := hmark v.store _ rfl rfl r hr
      exact .inr (.inl ⟨_, haccounts, hids, rfl⟩)
    · split at h
      · rename_i refreshToken _
        cases reply with
        | tokens t =>
          right; right
          refine ⟨t, rfl, ?_⟩
          simp only [complete, answersTo, deliveredBy, runCall, accountStatement, Option.bind_some,
            updateThen_of_mem ha,
            Option.map_some, Option.some.injEq] at h
          rw [← h]
          exact ⟨rfl, rfl, rfl⟩
        | revoked message =>
          obtain ⟨r, hr, rfl⟩ := Option.map_eq_some_iff.mp h
          obtain ⟨haccounts, hids⟩ :=
            hmark { v.store with revoked := refreshToken :: v.store.revoked } message rfl rfl r hr
          exact .inr (.inl ⟨_, haccounts, hids, rfl⟩)
        | failed message =>
          cases h
          exact .inl ⟨rfl, rfl, rfl⟩
      · cases h
        exact .inl ⟨rfl, rfl, rfl⟩

theorem sameMailbox_iff {userId providerAccountId : String} {provider : MailProvider} :
    sameMailbox userId provider providerAccountId a = true ↔
      keyOf a = (userId, provider, providerAccountId) := by
  simp [sameMailbox, keyOf, and_assoc]

/-- `connect` refuses a partial consent, updates the one row of its mailbox, or creates it. -/
theorem connect_cases {userId : String} {provider : MailProvider} {result : ConnectResult}
    (h : complete cfg v (.failed "") d (startAccount cfg (.connect userId provider result)) =
      some v') :
    v' = v ∨ ((∀ scope ∈ cfg.requiredScopes provider, scope ∈ result.tokens.scopes) ∧
      v'.delivered = ((userId, provider, result.providerAccountId), result.tokens) :: v.delivered ∧
      ((v'.store.ids = v.store.ids ∧
        (∃ a ∈ v.store.accounts, keyOf a = (userId, provider, result.providerAccountId)) ∧
        v'.store.accounts = Table.updateMany (sameMailbox userId provider result.providerAccountId)
          (reconnect (cfg.encrypt d.accessNonce .access result.tokens.accessToken)
            ((truthy result.tokens.refreshToken).map (cfg.encrypt d.refreshNonce .refresh)) result)
              v.store.accounts) ∨
      (v'.store.ids = d.id :: v.store.ids ∧ d.id ∉ v.store.ids ∧
        (∀ a ∈ v.store.accounts, keyOf a ≠ (userId, provider, result.providerAccountId)) ∧
        ∃ new, v'.store.accounts = v.store.accounts ++ [new] ∧ new.id = d.id ∧
          keyOf new = (userId, provider, result.providerAccountId) ∧
          new.accessTokenEnc = cfg.encrypt d.accessNonce .access result.tokens.accessToken ∧
          new.accessTokenExpires = result.tokens.expiresAt ∧
          new.refreshTokenEnc = (truthy result.tokens.refreshToken).map
            (cfg.encrypt d.refreshNonce .refresh)))) := by
  unfold startAccount at h
  simp only at h
  split_ifs at h with hmissing
  · left
    cases h
    rfl
  · right
    have hall : ∀ scope ∈ cfg.requiredScopes provider, scope ∈ result.tokens.scopes := by
      intro scope hscope
      by_contra hnot
      apply hmissing
      exact List.ne_nil_of_mem (List.mem_filter.mpr ⟨hscope, by simpa using hnot⟩)
    obtain ⟨r, hr, rfl⟩ := Option.map_eq_some_iff.mp h
    refine ⟨hall, rfl, ?_⟩
    simp only [answersTo, runCall, accountStatement, upsert] at hr
    split at hr
    · rename_i account hfind
      left
      cases hr
      exact ⟨rfl, ⟨account, List.mem_of_find?_eq_some hfind,
        sameMailbox_iff.mp (List.find?_some hfind)⟩, rfl⟩
    · rename_i hfind
      right
      have hnone : ∀ a ∈ v.store.accounts, keyOf a ≠ (userId, provider, result.providerAccountId) := by
        intro a ha hkey
        exact List.find?_eq_none.mp hfind a ha (sameMailbox_iff.mpr hkey)
      split_ifs at hr with hid
      · cases hr
      · simp only [Option.bind_some, Option.some.injEq] at hr
        rw [← hr]
        exact ⟨rfl, hid, hnone, _, rfl, rfl, rfl, rfl, rfl, rfl⟩

/-! ### What every step keeps -/

structure VaultInv (cfg : AccountsConfig) (v : Vault) : Prop where
  opens : ∀ a ∈ v.store.accounts, Opens cfg v a
  ids : (v.store.accounts.map (·.id)).Nodup
  drawn : ∀ a ∈ v.store.accounts, a.id ∈ v.store.ids
  keys : (v.store.accounts.map keyOf).Nodup
  known : ∀ entry ∈ v.delivered, ∃ a ∈ v.store.accounts, keyOf a = entry.1

/-- The clock is no part of the invariant. -/
theorem VaultInv.unchanged (h : VaultInv cfg v) (haccounts : v'.store.accounts = v.store.accounts)
    (hids : v'.store.ids = v.store.ids) (hdelivered : v'.delivered = v.delivered) :
    VaultInv cfg v' := by
  constructor
  · intro a ha
    rw [haccounts] at ha
    exact (h.opens a ha).congr hdelivered rfl rfl rfl rfl
  · rw [haccounts]
    exact h.ids
  · rw [haccounts, hids]
    exact h.drawn
  · rw [haccounts]
    exact h.keys
  · rw [haccounts, hdelivered]
    exact h.known

/-- A write that keeps ids and keys, and leaves every row open to its latest tokens. -/
theorem VaultInv.update (h : VaultInv cfg v) {sel : MailAccount → Bool}
    {set : MailAccount → MailAccount}
    (haccounts : v'.store.accounts = Table.updateMany sel set v.store.accounts)
    (hids : v'.store.ids = v.store.ids) (hid : ∀ a, (set a).id = a.id)
    (hkey : ∀ a, keyOf (set a) = keyOf a)
    (hopens : ∀ a ∈ v.store.accounts, (sel a = true → Opens cfg v' (set a)) ∧
      (sel a = false → Opens cfg v' a))
    (hknown : ∀ entry ∈ v'.delivered, ∃ a ∈ v.store.accounts, keyOf a = entry.1) :
    VaultInv cfg v' := by
  constructor
  · intro x hx
    rw [haccounts] at hx
    obtain ⟨a, ha, ⟨hsel, rfl⟩ | ⟨hsel, rfl⟩⟩ := Table.mem_updateMany.mp hx
    · exact (hopens a ha).1 hsel
    · exact (hopens x ha).2 hsel
  · rw [haccounts, Table.map_updateMany _ hid]
    exact h.ids
  · intro x hx
    rw [haccounts] at hx
    rw [hids]
    obtain ⟨a, ha, ⟨-, rfl⟩ | ⟨-, rfl⟩⟩ := Table.mem_updateMany.mp hx
    · rw [hid]
      exact h.drawn a ha
    · exact h.drawn x ha
  · rw [haccounts, Table.map_updateMany _ hkey]
    exact h.keys
  · intro entry hentry
    have hmem : entry.1 ∈ v'.store.accounts.map keyOf := by
      rw [haccounts, Table.map_updateMany _ hkey]
      obtain ⟨a, ha, hk⟩ := hknown entry hentry
      exact List.mem_map.mpr ⟨a, ha, hk⟩
    exact List.mem_map.mp hmem

/-- Tokens are delivered to the one row that has the key. -/
theorem VaultInv.deliver (h : VaultInv cfg v) {sel : MailAccount → Bool}
    {set : MailAccount → MailAccount} {key : MailboxKey}
    (haccounts : v'.store.accounts = Table.updateMany sel set v.store.accounts)
    (hids : v'.store.ids = v.store.ids) (hid : ∀ a, (set a).id = a.id)
    (hkey : ∀ a, keyOf (set a) = keyOf a)
    (hdelivered : v'.delivered = (key, tokens) :: v.delivered)
    (hrow : ∃ a ∈ v.store.accounts, keyOf a = key)
    (hsel : ∀ a ∈ v.store.accounts, sel a = true ↔ keyOf a = key)
    (hset : ∀ a ∈ v.store.accounts, keyOf a = key → Opens cfg (EmailIngestion.deliver v key tokens)
      (set a)) :
    VaultInv cfg v' := by
  refine h.update haccounts hids hid hkey (fun a ha => ⟨fun hs => ?_, fun hs => ?_⟩) ?_
  · exact (hset a ha ((hsel a ha).mp hs)).congr hdelivered rfl rfl rfl rfl
  · have hne : keyOf a ≠ key := by
      intro heq
      rw [(hsel a ha).mpr heq] at hs
      cases hs
    exact ((h.opens a ha).deliver_ne hne).congr hdelivered rfl rfl rfl rfl
  · intro entry hentry
    rw [hdelivered] at hentry
    rcases List.mem_cons.mp hentry with rfl | hentry
    · exact hrow
    · exact h.known entry hentry

theorem VaultInv.getConnection (h : VaultInv cfg v) (ha : account ∈ v.store.accounts)
    (ht : ∀ t, reply = .tokens t → NonEmpty t)
    (hs : complete cfg v reply d (EmailIngestion.getConnection cfg v.store.now .preview account) =
      some v') :
    VaultInv cfg v' := by
  rcases getConnection_cases ha hs with
    ⟨haccounts, hids, hdelivered⟩ | ⟨reason, haccounts, hids, hdelivered⟩ |
    ⟨t, hreply, haccounts, hids, hdelivered⟩
  · exact h.unchanged haccounts hids hdelivered
  · refine h.update haccounts hids (fun _ => rfl) (fun _ => rfl)
      (fun a hmem => ⟨fun _ => ?_, fun _ => ?_⟩) ?_
    · exact (h.opens a hmem).congr hdelivered rfl rfl rfl rfl
    · exact (h.opens a hmem).congr hdelivered rfl rfl rfl rfl
    · rw [hdelivered]
      exact h.known
  · refine h.deliver haccounts hids (fun _ => rfl) (fun _ => rfl) hdelivered ⟨account, ha, rfl⟩
      (fun a hmem => ?_) ?_
    · rw [decide_eq_true_eq]
      constructor
      · intro hid
        rw [Table.eq_of_nodup_key h.ids hmem ha hid]
      · intro hk
        rw [Table.eq_of_nodup_key h.keys hmem ha hk]
    · intro a hmem hk
      rw [← hk]
      exact opens_of_delivery (ht t hreply) rfl rfl rfl rfl (h.opens a hmem).refresh
        (h.opens a hmem).absent

theorem lastRefreshToken_eq_none (h : ∀ entry ∈ v.delivered, entry.1 ≠ key) :
    lastRefreshToken v key = none := by
  unfold lastRefreshToken
  rw [List.findSome?_eq_none_iff]
  intro entry hentry
  exact if_neg (h entry hentry)

/-- Tokens are delivered with a new row, whose id and key are new. -/
theorem VaultInv.create (h : VaultInv cfg v) {new : MailAccount}
    {accessNonce refreshNonce : String} (ht : NonEmpty tokens)
    (haccounts : v'.store.accounts = v.store.accounts ++ [new])
    (hids : v'.store.ids = new.id :: v.store.ids) (hfresh : new.id ∉ v.store.ids)
    (hnone : ∀ a ∈ v.store.accounts, keyOf a ≠ keyOf new)
    (hdelivered : v'.delivered = (keyOf new, tokens) :: v.delivered)
    (haccess : new.accessTokenEnc = cfg.encrypt accessNonce .access tokens.accessToken)
    (hexpires : new.accessTokenExpires = tokens.expiresAt)
    (hrefresh : new.refreshTokenEnc = (truthy tokens.refreshToken).map
      (cfg.encrypt refreshNonce .refresh)) :
    VaultInv cfg v' := by
  have hnever : lastRefreshToken v (keyOf new) = none := by
    apply lastRefreshToken_eq_none
    intro entry hentry heq
    obtain ⟨a, ha, hk⟩ := h.known entry hentry
    exact hnone a ha (hk.trans heq)
  constructor
  · intro a ha
    rw [haccounts] at ha
    rcases List.mem_append.mp ha with ha | ha
    · exact ((h.opens a ha).deliver_ne (hnone a ha)).congr hdelivered rfl rfl rfl rfl
    · rw [List.mem_singleton.mp ha]
      have hearlier : ∀ refreshToken, lastRefreshToken v (keyOf new) = some refreshToken →
          ∃ envelope, none = some envelope ∧ cfg.decrypt envelope .refresh = .ok refreshToken := by
        intro refreshToken hlast
        rw [hnever] at hlast
        cases hlast
      have hor : new.refreshTokenEnc =
          ((truthy tokens.refreshToken).map (cfg.encrypt refreshNonce .refresh)).or none := by
        rw [hrefresh, Option.or_none]
      exact (opens_of_delivery ht rfl haccess hexpires hor hearlier fun _ => rfl).congr hdelivered
        rfl rfl rfl rfl
  · rw [haccounts]
    apply Table.nodup_append_row _ h.ids
    intro a ha heq
    exact hfresh (heq ▸ h.drawn a ha)
  · intro a ha
    rw [haccounts] at ha
    rw [hids]
    rcases List.mem_append.mp ha with ha | ha
    · exact List.mem_cons_of_mem _ (h.drawn a ha)
    · rw [List.mem_singleton.mp ha]
      exact List.mem_cons_self
  · rw [haccounts]
    exact Table.nodup_append_row _ h.keys hnone
  · intro entry hentry
    rw [hdelivered] at hentry
    rw [haccounts]
    rcases List.mem_cons.mp hentry with rfl | hentry
    · exact ⟨new, List.mem_append_right _ List.mem_cons_self, rfl⟩
    · obtain ⟨a, ha, hk⟩ := h.known entry hentry
      exact ⟨a, List.mem_append_left _ ha, hk⟩

theorem VaultInv.connect (h : VaultInv cfg v) {userId : String} {provider : MailProvider}
    {result : ConnectResult} (ht : NonEmpty result.tokens)
    (hs : complete cfg v (.failed "") d (startAccount cfg (.connect userId provider result)) =
      some v') :
    VaultInv cfg v' := by
  rcases connect_cases hs with
    rfl | ⟨-, hdelivered,
    ⟨hids, hrow, haccounts⟩ | ⟨hids, hfresh, hnone, new, haccounts, hnew, hkey,
    haccess, hexpires, hrefresh⟩⟩
  · exact h
  · refine h.deliver haccounts hids (fun _ => rfl) (fun _ => rfl) hdelivered hrow
      (fun a _ => sameMailbox_iff) ?_
    intro a ha hk
    rw [← hk]
    exact opens_of_delivery ht rfl rfl rfl rfl (h.opens a ha).refresh (h.opens a ha).absent
  · rw [← hnew] at hids hfresh
    rw [← hkey] at hnone hdelivered
    exact h.create ht haccounts hids hfresh hnone hdelivered haccess hexpires hrefresh

theorem vaultStep_inv {act : VaultAct} (h : VaultInv cfg v) (hact : DeliversNonEmpty act)
    (hs : vaultStep cfg v act = some v') :
    VaultInv cfg v' := by
  cases act with
  | connect userId provider result d => exact h.connect hact hs
  | getConnection accountId reply d =>
    obtain ⟨account, hfind, hcomplete⟩ := Option.bind_eq_some_iff.mp hs
    refine h.getConnection (List.mem_of_find?_eq_some hfind) ?_ hcomplete
    rintro t rfl
    exact hact
  | tick ms =>
    cases hs
    exact h.unchanged rfl rfl rfl

/-- A partial consent, a transient failure and a revoked grant keep the columns. -/
theorem vaultColumns_of_harmless {act : VaultAct} (hact : Harmless cfg act)
    (hs : vaultStep cfg v act = some v') :
    v'.store.accounts.map vaultColumns = v.store.accounts.map vaultColumns := by
  cases act with
  | connect userId provider result d =>
    rcases connect_cases hs with rfl | ⟨hall, -⟩
    · rfl
    · exact absurd hall hact
  | getConnection accountId reply d =>
    obtain ⟨account, hfind, hcomplete⟩ := Option.bind_eq_some_iff.mp hs
    rcases getConnection_cases (List.mem_of_find?_eq_some hfind) hcomplete with
      ⟨haccounts, -⟩ | ⟨reason, haccounts, -⟩ |
      ⟨t, rfl, -⟩
    · rw [haccounts]
    · rw [haccounts]
      exact Table.map_updateMany _ fun _ => rfl
    · exact hact.elim
  | tick ms => exact hact.elim

/-! ### Runs -/

/-- In every sequence of calls, a row opens to the tokens delivered last, and a partial consent, a
transient failure or a revoked grant changes neither them nor the cursor. -/
theorem vault_opens (cfg : AccountsConfig) {p q : Vault} {as : List VaultAct} (hp : EmptyVault p)
    (hm : ∀ act ∈ as, DeliversNonEmpty act) (hr : exec (vaultStep cfg) p as = some q) :
    (∀ a ∈ q.store.accounts, Opens cfg q a) ∧
    ∀ act, Harmless cfg act → ∀ q', vaultStep cfg q act = some q' →
      q'.store.accounts.map vaultColumns = q.store.accounts.map vaultColumns := by
  have hinit : VaultInv cfg p := by
    obtain ⟨haccounts, hdelivered⟩ := hp
    constructor <;> simp [haccounts, hdelivered]
  have hmeets : Meets (vaultStep cfg) (fun _ act => DeliversNonEmpty act) p as := meets_of_forall hm
  have hinv := exec_invariant_of_meets (fun _ _ _ h ha hs => vaultStep_inv h ha hs) hinit hmeets hr
  exact ⟨hinv.opens, fun act hact q' hs => vaultColumns_of_harmless hact hs⟩

/-- Full consent, a refresh without a new refresh token, a transient failure and a revoked grant. -/
def vaultHistory : List VaultAct :=
  [.connect "alice" .GMAIL
    ⟨⟨"a1", some "r1", 1000, ["mail.read"]⟩, "alice@example.com", "alice@example.com", none⟩
    ⟨"m1", "", ""⟩,
    .getConnection "m1" (.tokens ⟨"a2", none, 2000, ["mail.read"]⟩) ⟨"", "", ""⟩,
    .getConnection "m1" (.failed "503") ⟨"", "", ""⟩, .getConnection "m1" (.revoked "invalid_grant")
      ⟨"", "", ""⟩]

theorem vault_opens_history :
    ∃ q, exec (vaultStep taggedConfig) ⟨noAccounts.store, []⟩ vaultHistory = some q ∧
    q.store.accounts.map (fun a => (a.accessTokenEnc, a.accessTokenExpires, a.refreshTokenEnc)) =
      [("aa2", 2000, some "rr1")] ∧
    ∀ a ∈ q.store.accounts, Opens taggedConfig q a := by
  have hm : ∀ act ∈ vaultHistory, DeliversNonEmpty act := by
    simp [vaultHistory, DeliversNonEmpty, NonEmpty]
  have hsome : (exec (vaultStep taggedConfig) ⟨noAccounts.store, []⟩ vaultHistory).isSome =
      true := by decide
  obtain ⟨q, hq⟩ := Option.isSome_iff_exists.mp hsome
  have hcolumns : (exec (vaultStep taggedConfig) ⟨noAccounts.store, []⟩ vaultHistory).map
    (fun q => q.store.accounts.map
      fun a => (a.accessTokenEnc, a.accessTokenExpires, a.refreshTokenEnc)) =
        some [("aa2", 2000, some "rr1")] := by decide
  rw [hq, Option.map_some, Option.some.injEq] at hcolumns
  exact ⟨q, hq, hcolumns, (vault_opens taggedConfig ⟨rfl, rfl⟩ hm hq).1⟩

end Finlytic.EmailIngestion
