import Finlytic.EmailIngestion.Encryption
import Finlytic.Lib.JsonText

/-! What an envelope is bound to. The tag covers the purpose, so no string an
attacker can assemble opens for a purpose it was not made for. It does not cover
the account, so an envelope that is moved between accounts opens. -/

namespace Finlytic.EmailIngestion

open Lib Jws JsonText

variable {gcm : Gcm}

/-! ### Authenticity -/

/-- A call of `encrypt`. -/
structure EncryptCall where
  plainText : List Char
  purpose : CipherPurpose
  nonce : Nonce

def EncryptCall.sealed (gcm : Gcm) (call : EncryptCall) : Sealed :=
  sealText gcm call.plainText call.purpose call.nonce

/-- Verification succeeds only for what a call has sealed. -/
def Ideal (gcm : Gcm) (calls : List EncryptCall) : Prop :=
  ∀ nonce aad cipherText tag, gcm.accepts nonce aad cipherText tag = true →
    ∃ call ∈ calls, call.sealed gcm = ⟨nonce, aad, cipherText⟩

/-- Whatever string is presented, `decrypt` returns a text that was encrypted for this purpose, or
throws. -/
theorem decrypt_authentic (gcm : Gcm) (calls : List EncryptCall) (h : Ideal gcm calls)
    (envelope : List Char) (purpose : CipherPurpose) :
    (∃ plainText, decrypt gcm envelope purpose = .ok plainText ∧
      ∃ call ∈ calls, call.plainText = plainText ∧ call.purpose = purpose) ∨
    ∃ error, decrypt gcm envelope purpose = .error error := by
  unfold decrypt
  simp only
  split_ifs with hmalformed hversion hv haccepts haccepts
  · exact .inr ⟨_, rfl⟩
  · exact .inr ⟨_, rfl⟩
  · left
    obtain ⟨call, hcall, hsealed⟩ := h _ _ _ _ haccepts
    obtain ⟨hnonce, haad, hcipher⟩ := Sealed.mk.inj hsealed
    refine ⟨_, rfl, call, hcall, ?_, purpose_aad_inj haad⟩
    rw [← hcipher, ← hnonce, gcm.crypt_crypt, gcm.utf8_octets]
  · exact .inr ⟨_, rfl⟩
  · -- version 1 has no additional data, and every call has some
    exfalso
    obtain ⟨call, -, hsealed⟩ := h _ _ _ _ haccepts
    exact purpose_aad_ne call.purpose (Sealed.mk.inj hsealed).2.1
  · exact .inr ⟨_, rfl⟩

/-- A stand-in for GCM: a fixed key stream, and a tag of the lengths and the additional data. -/
def toyGcm (accepts : List UInt8 → List UInt8 → List UInt8 → List UInt8 → Bool) : Gcm where
  crypt _ text := text.map fun b => b ^^^ 255
  tag nonce aad cipherText := UInt8.ofNat (nonce.length + aad.length + cipherText.length) :: aad
  accepts
  utf8 := utf8Text
  crypt_crypt _ text := by
    rw [List.map_map]
    refine (List.map_congr_left fun b _ => ?_).trans (List.map_id text)
    show (b ^^^ 255) ^^^ 255 = b
    rw [UInt8.xor_assoc, UInt8.xor_self, UInt8.xor_zero]
  length_crypt _ text := List.length_map _
  tag_ne _ _ _ := List.cons_ne_nil _ _
  utf8_octets := utf8Text_utf8Octets

def zeroNonce : Nonce := ⟨List.replicate 12 0, rfl⟩

/-- One token is encrypted for the access column. -/
def oneCall : EncryptCall := ⟨"token".toList, .access, zeroNonce⟩

/-- The tag of that call alone is accepted. -/
def oneCallGcm : Gcm := toyGcm fun nonce aad cipherText _ =>
  nonce = zeroNonce.1 && aad = CipherPurpose.aad .access && cipherText =
    (utf8Octets "token".toList).map fun b => b ^^^ 255

theorem decrypt_authentic_moved :
    ∃ error, decrypt oneCallGcm (encrypt oneCallGcm "token".toList .access zeroNonce) .refresh =
      .error error := by
  have hideal : Ideal oneCallGcm [oneCall] := by
    intro nonce aad cipherText tag haccepts
    simp only [oneCallGcm, toyGcm, Bool.and_eq_true, decide_eq_true_eq] at haccepts
    obtain ⟨⟨rfl, rfl⟩, rfl⟩ := haccepts
    exact ⟨oneCall, List.mem_singleton.mpr rfl, rfl⟩
  rcases decrypt_authentic oneCallGcm [oneCall] hideal
    (encrypt oneCallGcm "token".toList .access zeroNonce) .refresh with
    ⟨plainText, -, call, hcall, -, hpurpose⟩ | herror
  · rw [List.mem_singleton.mp hcall] at hpurpose
    cases hpurpose
  · exact herror

/-! ### Envelopes moved between accounts -/

/-- What `getConnection` sees of `decrypt`: the text, or the message of the error. -/
def decrypted : Except DecryptError (List Char) → Except String String
  | .ok text => .ok (String.ofList text)
  | .error error => .error error.message

/-- The service as the accounts use it; `draw` gives the octets of a nonce. -/
def cipherOf (gcm : Gcm) (hgcm : gcm.Correct) (draw : String → Nonce) : Cipher where
  encrypt nonce purpose text := String.ofList (encrypt gcm text.toList purpose (draw nonce))
  decrypt envelope purpose := decrypted (decrypt gcm envelope.toList purpose)
  encrypt_ne nonce purpose text h := by
    have hparts := @part_encrypt gcm text.toList purpose (draw nonce)
    rw [String.ofList_eq_empty_iff.mp h] at hparts
    cases hparts
  decrypt_encrypt nonce purpose text hne := by
    have htext : text.toList ≠ [] := fun hnil => hne (String.toList_eq_nil_iff.mp hnil)
    rw [String.toList_ofList, decrypt_encrypt hgcm, if_neg htext]
    exact congrArg Except.ok String.ofList_toList

/-- The row right after `connect` or `refresh` has stored these tokens in it. -/
inductive Wrote (cfg : AccountsConfig) : OAuthTokens → MailAccount → Prop
  | connect {s s' : AccountStore} {userId : String} {provider : MailProvider}
    {result : ConnectResult} {d : AccountDraw}
      {account : MailAccount}
        (h : upsert cfg s userId provider result d = some (s', .done (.connected account))) :
      Wrote cfg result.tokens account
  | refresh (d : AccountDraw) (tokens : OAuthTokens) (account : MailAccount) :
    Wrote cfg tokens (withTokens cfg d tokens account)

theorem Wrote.access {cfg : AccountsConfig} {tokens : OAuthTokens} {account : MailAccount}
    (h : Wrote cfg tokens account) :
    ∃ nonce, account.accessTokenEnc = cfg.encrypt nonce .access tokens.accessToken := by
  cases h with
  | connect h =>
    simp only [upsert] at h
    split at h
    · cases h
      exact ⟨_, rfl⟩
    · split_ifs at h
      cases h
      exact ⟨_, rfl⟩
  | refresh d tokens account => exact ⟨_, rfl⟩

theorem Wrote.refreshed {cfg : AccountsConfig} {tokens : OAuthTokens} {account : MailAccount}
    (h : Wrote cfg tokens account) {refreshToken : String}
    (ht : truthy tokens.refreshToken = some refreshToken) :
    ∃ nonce, account.refreshTokenEnc = some (cfg.encrypt nonce .refresh refreshToken) := by
  cases h with
  | connect h =>
    simp only [upsert, ht] at h
    split at h
    · cases h
      exact ⟨_, rfl⟩
    · split_ifs at h
      cases h
      exact ⟨_, rfl⟩
  | refresh d tokens account =>
    refine ⟨d.refreshNonce, ?_⟩
    unfold withTokens
    rw [ht]
    rfl

/-- An expired access token: the stored refresh token goes to the provider. -/
theorem getConnection_stale {cfg : AccountsConfig} {now : ℕ} {origin : Origin}
    {account : MailAccount} {envelope refreshToken : String}
    (hstale : ¬ now + refreshSkewMs < account.accessTokenExpires)
    (ht : truthy account.refreshTokenEnc = some envelope)
    (hd : cfg.decrypt envelope .refresh = .ok refreshToken) :
    getConnection cfg now origin account = .refresh origin account refreshToken := by
  unfold getConnection
  rw [if_neg hstale, ht]
  simp only [hd]

section Moved

variable (hgcm : gcm.Correct) (draw : String → Nonce) (requiredScopes : MailProvider → List String)
  {tokens : OAuthTokens} {a b : MailAccount} {now : ℕ}

/-- `EncryptionService` behind the accounts. -/
def serviceConfig : AccountsConfig := ⟨cipherOf gcm hgcm draw, requiredScopes⟩

/-- An access token moved to another row is returned from there, unless it is empty. -/
theorem getConnection_moved_access (hw : Wrote (serviceConfig hgcm draw requiredScopes) tokens a)
    (hfresh : now + refreshSkewMs < b.accessTokenExpires) :
    getConnection (serviceConfig hgcm draw requiredScopes) now .preview
      { b with accessTokenEnc := a.accessTokenEnc } =
      if tokens.accessToken = "" then .done (.threw "Malformed ciphertext envelope")
      else .done (.previewed
        ⟨tokens.accessToken, b.providerAccountId, b.providerMetadata.getD []⟩) := by
  obtain ⟨nonce, henc⟩ := hw.access
  unfold getConnection
  rw [henc, if_pos hfresh]
  split_ifs with hempty
  · have hmalformed : (serviceConfig hgcm draw requiredScopes).decrypt
        ((serviceConfig hgcm draw requiredScopes).encrypt nonce .access tokens.accessToken) .access =
          .error "Malformed ciphertext envelope" := by
      rw [hempty]
      show decrypted (decrypt gcm (String.ofList (encrypt gcm [] .access (draw nonce))).toList
        .access) = .error "Malformed ciphertext envelope"
      rw [String.toList_ofList, decrypt_encrypt hgcm]
      rfl
    rw [hmalformed]
    rfl
  · rw [Cipher.decrypt_encrypt _ nonce .access _ hempty]
    rfl

/-- A refresh token moved to another row is presented to the provider from there. -/
theorem getConnection_moved_refresh (hw : Wrote (serviceConfig hgcm draw requiredScopes) tokens a)
    (hstale : ¬ now + refreshSkewMs < b.accessTokenExpires) {refreshToken : String}
    (ht : truthy tokens.refreshToken = some refreshToken) :
    getConnection (serviceConfig hgcm draw requiredScopes) now .preview
      { b with refreshTokenEnc := a.refreshTokenEnc } =
      .refresh .preview { b with refreshTokenEnc := a.refreshTokenEnc } refreshToken := by
  obtain ⟨nonce, henc⟩ := hw.refreshed ht
  refine getConnection_stale hstale ?_
    (Cipher.decrypt_encrypt _ nonce .refresh _ (truthy_eq_some_iff.mp ht).2)
  rw [henc]
  exact truthy_eq_some_iff.mpr ⟨rfl, Cipher.encrypt_ne _ nonce .refresh refreshToken⟩

/-- An envelope that was moved between two accounts fails to authenticate only if it holds an empty
access token; otherwise the other account's token is returned, or sent to the provider. -/
theorem moved_envelope_fails_iff (hw : Wrote (serviceConfig hgcm draw requiredScopes) tokens a) :
    (now + refreshSkewMs < b.accessTokenExpires →
      ((∃ reason, getConnection (serviceConfig hgcm draw requiredScopes) now .preview
        { b with accessTokenEnc := a.accessTokenEnc } = .done (.threw reason)) ↔
          tokens.accessToken = "")) ∧
    (¬ now + refreshSkewMs < b.accessTokenExpires → ∀ refreshToken, truthy tokens.refreshToken =
      some refreshToken →
      getConnection (serviceConfig hgcm draw requiredScopes) now .preview
        { b with refreshTokenEnc := a.refreshTokenEnc } =
        .refresh .preview { b with refreshTokenEnc := a.refreshTokenEnc } refreshToken) := by
  refine ⟨fun hfresh => ?_, fun hstale refreshToken ht =>
    getConnection_moved_refresh hgcm draw requiredScopes hw hstale ht⟩
  rw [getConnection_moved_access hgcm draw requiredScopes hw hfresh]
  split_ifs with hempty
  · exact iff_of_true ⟨_, rfl⟩ hempty
  · refine iff_of_false ?_ hempty
    rintro ⟨reason, h⟩
    cases h

end Moved

/-- A tag is accepted where it was computed. -/
def tagGcm : Gcm := toyGcm fun nonce aad cipherText tag =>
  tag = UInt8.ofNat (nonce.length + aad.length + cipherText.length) :: aad

theorem tagGcm_correct : tagGcm.Correct := fun _ _ _ => decide_eq_true rfl

def tagConfig : AccountsConfig := serviceConfig tagGcm_correct (fun _ => zeroNonce) fun _ =>
    ["mail.read"]

/-- A mailbox of a user with that name, whose token has not expired. -/
def mailboxOf (name : String) : MailAccount where
  id := "account-" ++ name
  userId := name
  provider := .GMAIL
  providerAccountId := "inbox-" ++ name
  emailAddress := name ++ "@example.com"
  status := .ACTIVE
  accessTokenEnc := ""
  accessTokenExpires := 400000
  refreshTokenEnc := none
  scopes := ["mail.read"]
  providerMetadata := none
  syncCursor := none
  lastSyncedAt := none
  lastSyncError := none

/-- Alice's mailbox after a refresh. -/
def refreshedMailbox : MailAccount :=
  withTokens tagConfig ⟨"", "n1", "n2"⟩
    ⟨"alice-access", some "alice-refresh", 500000, ["mail.read"]⟩ (mailboxOf "alice")

theorem refreshedMailbox_wrote :
    Wrote tagConfig ⟨"alice-access", some "alice-refresh", 500000, ["mail.read"]⟩
      refreshedMailbox := .refresh _ _ _

theorem moved_envelope_fails_iff_refreshed : ¬ ∃ reason, getConnection tagConfig 0 .preview
    { mailboxOf "bob" with accessTokenEnc := refreshedMailbox.accessTokenEnc } =
      .done (.threw reason) := by
  intro h
  have hempty :=
    ((moved_envelope_fails_iff tagGcm_correct _ _ refreshedMailbox_wrote).1 (by decide)).mp h
  exact absurd hempty (by decide)

/-- Bob's connection is made with Alice's access token. -/
theorem envelope_moves : ¬ ∀ (gcm : Gcm) (hgcm : gcm.Correct) (draw : String → Nonce)
    (requiredScopes : MailProvider → List String) (tokens : OAuthTokens) (a b : MailAccount)
      (now : ℕ), a.id ≠ b.id →
    Wrote (serviceConfig hgcm draw requiredScopes) tokens a →
      now + refreshSkewMs < b.accessTokenExpires →
    ∃ reason, getConnection (serviceConfig hgcm draw requiredScopes) now .preview
      { b with accessTokenEnc := a.accessTokenEnc } = .done (.threw reason) := by
  intro h
  obtain ⟨reason, hfails⟩ :=
    h tagGcm tagGcm_correct _ _ _ refreshedMailbox (mailboxOf "bob") 0 (by decide)
    refreshedMailbox_wrote (by decide)
  rw [getConnection_moved_access tagGcm_correct _ _ refreshedMailbox_wrote (by decide)] at hfails
  cases hfails

end Finlytic.EmailIngestion
