import Finlytic.EmailIngestion.Envelopes

/-! Reading envelopes back, and what a token refresh makes of those of version 1. -/

namespace Finlytic.EmailIngestion

open Lib Jws

variable {gcm : Gcm}

/-! ### Round trip -/

/-- An envelope gives back its text unless the text was empty: its last part is then empty, and
`decrypt` takes it for missing. -/
theorem round_trip_iff (gcm : Gcm) (hgcm : gcm.Correct) (plainText : List Char)
    (purpose : CipherPurpose) (nonce : Nonce) :
    decrypt gcm (encrypt gcm plainText purpose nonce) purpose = .ok plainText ↔ plainText ≠ [] := by
  rw [decrypt_encrypt hgcm]
  split_ifs with hempty
  · exact iff_of_false (fun h => nomatch h) (fun h => h hempty)
  · exact iff_of_true rfl hempty

theorem round_trip_iff_token :
    decrypt tagGcm (encrypt tagGcm "token".toList .access zeroNonce) .access = .ok "token".toList :=
  (round_trip_iff tagGcm tagGcm_correct "token".toList .access zeroNonce).mpr (by decide)

/-- The empty text does not come back. -/
theorem empty_text_lost :
    ¬ ∀ (gcm : Gcm), gcm.Correct → ∀ (plainText : List Char) (purpose : CipherPurpose)
      (nonce : Nonce),
    decrypt gcm (encrypt gcm plainText purpose nonce) purpose = .ok plainText := by
  intro h
  have hback := h tagGcm tagGcm_correct [] .access zeroNonce
  rw [decrypt_encrypt tagGcm_correct] at hback
  cases hback

/-! ### Envelopes of version 1 -/

/-- The envelope is of version 2, made for this purpose, and opens to this text. -/
structure Current (gcm : Gcm) (text : String) (purpose : CipherPurpose) (envelope : String) :
    Prop where
  version : part envelope.toList 0 = version
  bound : ∃ nonce, envelope.toList = encrypt gcm text.toList purpose nonce
  opens : decrypt gcm envelope.toList purpose = .ok text.toList

/-- An envelope as it was written before there were purposes. -/
def legacyEnvelope (gcm : Gcm) (plainText : List Char) (nonce : Nonce) : List Char :=
  let cipherText := gcm.crypt nonce.1 (utf8Octets plainText)
  ['.'].intercalate
    [legacyVersion, Base64.encode nonce.1, Base64.encode (gcm.tag nonce.1 [] cipherText),
    Base64.encode cipherText]

theorem part_legacyEnvelope (plainText : List Char) (nonce : Nonce) :
    (legacyEnvelope gcm plainText nonce).splitOn '.' = [legacyVersion, Base64.encode nonce.1,
      Base64.encode (gcm.tag nonce.1 [] (gcm.crypt nonce.1 (utf8Octets plainText))),
      Base64.encode (gcm.crypt nonce.1 (utf8Octets plainText))] := by
  refine List.splitOn_intercalate _ ?_ (List.cons_ne_nil _ _)
  intro l hl
  simp only [List.mem_cons, List.not_mem_nil, or_false] at hl
  rcases hl with rfl | rfl | rfl | rfl
  · decide
  · exact Base64.dot_not_mem_encode _
  · exact Base64.dot_not_mem_encode _
  · exact Base64.dot_not_mem_encode _

/-- A row of version 1 is still read, for whatever purpose. -/
theorem decrypt_legacyEnvelope (hgcm : gcm.Correct) (plainText : List Char)
    (purpose : CipherPurpose) (nonce : Nonce) (hne : plainText ≠ []) :
    decrypt gcm (legacyEnvelope gcm plainText nonce) purpose = .ok plainText := by
  have hopens :=
    decrypt_of_parts hgcm (.inl rfl) plainText purpose nonce (part_legacyEnvelope plainText nonce)
  rwa [if_neg hne] at hopens

/-- Both envelopes of the row are of version 1. -/
def Legacy (a : MailAccount) : Prop :=
  part a.accessTokenEnc.toList 0 = legacyVersion ∧ ∃ envelope, a.refreshTokenEnc = some envelope ∧
    part envelope.toList 0 = legacyVersion

variable (hgcm : gcm.Correct) (draw : String → Nonce) (requiredScopes : MailProvider → List String)

/-- `refresh` of this row has succeeded: the stored token was presented, the provider answered with
tokens, and the row was written. -/
structure Refreshed (cfg : AccountsConfig) (s s' : AccountStore) (account : MailAccount)
    (presented : String) (tokens : OAuthTokens) : Prop where
  stored : account ∈ s.accounts
  refreshes : ∃ origin d, getConnection cfg s.now origin account = .refresh origin account presented ∧
    accountStatement cfg s (.refresh origin account presented) (.tokens tokens) =
      some (s, .persist origin account tokens) ∧
    accountStatement cfg s (.persist origin account tokens) (.ok d) =
      some (s', withConnection origin account tokens.accessToken)

/-- Both envelopes are up to date; without a new refresh token the one that was presented is
current. -/
def Migrated (gcm : Gcm) (presented : String) (tokens : OAuthTokens) (a : MailAccount) : Prop :=
  Current gcm tokens.accessToken .access a.accessTokenEnc ∧
    ∃ envelope, a.refreshTokenEnc = some envelope ∧
      Current gcm ((truthy tokens.refreshToken).getD presented) .refresh envelope

theorem current_encrypt_iff (text : String) (purpose : CipherPurpose) (nonce : String) :
    Current gcm text purpose ((serviceConfig hgcm draw requiredScopes).encrypt nonce purpose text) ↔
      text ≠ "" := by
  have hlist : ((serviceConfig hgcm draw requiredScopes).encrypt nonce purpose text).toList =
      encrypt gcm text.toList purpose (draw nonce) := String.toList_ofList
  have hopens := round_trip_iff gcm hgcm text.toList purpose (draw nonce)
  rw [Ne, String.toList_eq_nil_iff] at hopens
  constructor
  · intro h
    have hback := h.opens
    rw [hlist] at hback
    exact hopens.mp hback
  · intro hne
    refine ⟨?_, ⟨draw nonce, hlist⟩, ?_⟩
    · rw [hlist, part, part_encrypt]
      rfl
    · rw [hlist]
      exact hopens.mpr hne

/-- The row that a successful refresh leaves. -/
theorem Refreshed.row {cfg : AccountsConfig} {s s' : AccountStore} {account : MailAccount}
    {presented : String} {tokens : OAuthTokens} (hids : (s.accounts.map (·.id)).Nodup)
    (h : Refreshed cfg s s' account presented tokens) :
    ∃ d, ∀ a, a ∈ s'.accounts ∧ a.id = account.id ↔ a = withTokens cfg d tokens account := by
  obtain ⟨origin, d, -, -, hpersist⟩ := h.refreshes
  have hany : s.accounts.any (·.id = account.id) = true :=
    List.any_eq_true.mpr ⟨account, h.stored, decide_eq_true rfl⟩
  simp only [accountStatement, updateThen, updateAccount, if_pos hany, Option.some.injEq,
    Prod.mk.injEq] at hpersist
  obtain ⟨rfl, -⟩ := hpersist
  refine ⟨d, fun a => ?_⟩
  constructor
  · rintro ⟨ha, hid⟩
    obtain ⟨r, hr, ⟨hsel, rfl⟩ | ⟨hsel, rfl⟩⟩ := Table.mem_updateMany.mp ha
    · rw [Table.eq_of_nodup_key hids hr h.stored (of_decide_eq_true hsel)]
    · exact absurd hid (of_decide_eq_false hsel)
  · rintro rfl
    exact ⟨Table.mem_updateMany.mpr ⟨account, h.stored, .inl ⟨decide_eq_true rfl, rfl⟩⟩, rfl⟩

/-- A refresh migrates both envelopes exactly when the provider sends a new refresh token along.
Without one the envelope of version 1 stays, and an empty access token is stored in an envelope
that does not open. -/
theorem migrated_iff (gcm : Gcm) (hgcm : gcm.Correct) (draw : String → Nonce)
    (requiredScopes : MailProvider → List String) (s s' : AccountStore) (account : MailAccount)
    (presented : String) (tokens : OAuthTokens) (hids : (s.accounts.map (·.id)).Nodup)
    (hlegacy : Legacy account)
    (h : Refreshed (serviceConfig hgcm draw requiredScopes) s s' account presented tokens) :
    (∀ a ∈ s'.accounts, a.id = account.id → Migrated gcm presented tokens a) ↔
      truthy tokens.refreshToken ≠ none ∧ tokens.accessToken ≠ "" := by
  obtain ⟨d, hrow⟩ := h.row hids
  have hone : (∀ a ∈ s'.accounts, a.id = account.id → Migrated gcm presented tokens a) ↔
      Migrated gcm presented tokens
        (withTokens (serviceConfig hgcm draw requiredScopes) d tokens account) := by
    constructor
    · intro hall
      obtain ⟨hmem, hid⟩ := (hrow _).mpr rfl
      exact hall _ hmem hid
    · intro hm a ha hid
      rwa [(hrow a).mp ⟨ha, hid⟩]
  rw [hone, Migrated]
  have haccess := current_encrypt_iff hgcm draw requiredScopes tokens.accessToken .access d.accessNonce
  cases ht : truthy tokens.refreshToken with
  | none =>
    refine iff_of_false ?_ fun hcond => hcond.1 rfl
    rintro ⟨-, envelope, henv, hcurrent⟩
    -- the stored envelope was left alone
    obtain ⟨-, legacy, hstored, hversion⟩ := hlegacy
    have hsame : envelope = legacy := by
      have hor : ((truthy tokens.refreshToken).map
        ((serviceConfig hgcm draw requiredScopes).encrypt d.refreshNonce .refresh)).or
          account.refreshTokenEnc = some envelope := henv
      rw [ht, Option.map_none, Option.none_or, hstored] at hor
      exact (Option.some.inj hor).symm
    have hcontra := hcurrent.version
    rw [hsame, hversion] at hcontra
    exact absurd hcontra (by decide)
  | some refreshToken =>
    have hrefresh :=
      (current_encrypt_iff hgcm draw requiredScopes refreshToken .refresh d.refreshNonce).mpr
      (truthy_eq_some_iff.mp ht).2
    constructor
    · rintro ⟨hcurrent, -⟩
      exact ⟨Option.some_ne_none _, haccess.mp hcurrent⟩
    · rintro ⟨-, hne⟩
      refine ⟨haccess.mpr hne, _, ?_, hrefresh⟩
      show ((truthy tokens.refreshToken).map _).or _ = _
      rw [ht]
      rfl

/-! ### A mailbox that was connected before version 2 -/

/-- Alice's mailbox with envelopes of version 1, long expired. -/
def legacyMailbox : MailAccount :=
  { mailboxOf "alice" with
    accessTokenEnc := String.ofList (legacyEnvelope tagGcm "old-access".toList zeroNonce)
    accessTokenExpires := 0
    refreshTokenEnc := some (String.ofList (legacyEnvelope tagGcm "alice-refresh".toList zeroNonce)) }

def legacyStore : AccountStore := ⟨1000, [legacyMailbox], [legacyMailbox.id], []⟩

/-- The row is written with these tokens. -/
def rewritten (tokens : OAuthTokens) : AccountStore :=
  { legacyStore with accounts := [withTokens tagConfig ⟨"", "n1", "n2"⟩ tokens legacyMailbox] }

theorem legacyMailbox_legacy : Legacy legacyMailbox := by
  have hversion : ∀ text :
      List Char, part (String.ofList (legacyEnvelope tagGcm text zeroNonce)).toList 0 =
      legacyVersion := by
    intro text
    rw [String.toList_ofList, part, part_legacyEnvelope]
    rfl
  exact ⟨hversion _, _, rfl, hversion _⟩

theorem legacyMailbox_refreshed (tokens : OAuthTokens) :
    Refreshed tagConfig legacyStore (rewritten tokens) legacyMailbox "alice-refresh" tokens := by
  refine ⟨List.mem_singleton.mpr rfl, .preview, ⟨"", "n1", "n2"⟩, ?_, rfl, rfl⟩
  have hne : String.ofList (legacyEnvelope tagGcm "alice-refresh".toList zeroNonce) ≠ "" := by
    intro h
    have hparts := @part_legacyEnvelope tagGcm "alice-refresh".toList zeroNonce
    rw [String.ofList_eq_empty_iff.mp h] at hparts
    cases hparts
  have hopens :
    tagConfig.decrypt (String.ofList (legacyEnvelope tagGcm "alice-refresh".toList zeroNonce))
    .refresh =
      .ok "alice-refresh" := by
    show decrypted (decrypt tagGcm (String.ofList
      (legacyEnvelope tagGcm "alice-refresh".toList zeroNonce)).toList .refresh) = .ok "alice-refresh"
    rw [String.toList_ofList, decrypt_legacyEnvelope tagGcm_correct _ _ _ (by decide)]
    rfl
  exact getConnection_stale (Nat.not_lt_zero _) (truthy_eq_some_iff.mpr ⟨rfl, hne⟩) hopens

theorem migrated_iff_rotated :
    ∃ a ∈ (rewritten ⟨"new-access", some "rotated", 500000, []⟩).accounts,
    a.id = legacyMailbox.id ∧ Migrated tagGcm "alice-refresh"
      ⟨"new-access", some "rotated", 500000, []⟩ a := by
  have hall :=
    (migrated_iff tagGcm tagGcm_correct _ _ legacyStore _ _ _ _ (List.nodup_singleton _)
    legacyMailbox_legacy
    (legacyMailbox_refreshed ⟨"new-access", some "rotated", 500000, []⟩)).mpr ⟨by decide, by decide⟩
  exact ⟨_, List.mem_singleton.mpr rfl, rfl, hall _ (List.mem_singleton.mpr rfl) rfl⟩

/-- Google sends no new refresh token, and the stored one stays in its old envelope. -/
theorem refresh_token_left_behind : ¬ ∀ (gcm : Gcm) (hgcm : gcm.Correct) (draw : String → Nonce)
    (requiredScopes : MailProvider → List String) (s s' : AccountStore) (account : MailAccount)
      (presented : String)
    (tokens : OAuthTokens), (s.accounts.map (·.id)).Nodup → Legacy account →
    Refreshed (serviceConfig hgcm draw requiredScopes) s s' account presented tokens →
    ∀ a ∈ s'.accounts, a.id = account.id → Migrated gcm presented tokens a := by
  intro h
  have hrefreshed := legacyMailbox_refreshed ⟨"new-access", none, 500000, []⟩
  have hall :=
    h tagGcm tagGcm_correct _ _ legacyStore _ _ _ _ (List.nodup_singleton _) legacyMailbox_legacy
    hrefreshed
  obtain ⟨-, envelope, hstored, hcurrent⟩ := hall _ (List.mem_singleton.mpr rfl) rfl
  obtain ⟨-, legacy, hlegacy, hversion⟩ := legacyMailbox_legacy
  obtain rfl : envelope = legacy := Option.some.inj (hstored.symm.trans hlegacy)
  have hcontra := hcurrent.version
  rw [hversion] at hcontra
  exact absurd hcontra (by decide)

end Finlytic.EmailIngestion
