import Finlytic.EmailIngestion.Reauth

/-! What becomes of a mailbox that is `DISABLED`. A sync checks the status before it does
anything, and the poll selects by it. A preview does not look at it, and the refresh
behind it writes a status whatever the row held. -/

namespace Finlytic.EmailIngestion

open Lib

/-! ### Operations, one at a time -/

/-- The accounts, the account ids handed to the sync queue, and the accounts whose sync got past
its checks. -/
structure ServiceState where
  store : AccountStore
  handed : List String
  synced : List String

/-- An operation, with how each of its statements and requests turns out. -/
inductive Operation where
  | connect (userId : String) (provider : MailProvider) (result : ConnectResult)
    (answers : List Answer)
  | preview (userId accountId : String) (answers : List Answer)
  | requestSync (userId accountId : String)
  | pollActiveAccounts
  | syncAccount (accountId : String) (answers : List Answer)
  | getConnection (accountId : String) (answers : List Answer)
  | wait (ms : ℕ)

/-- The account that a sync is working on. -/
def bodyOf : AccountCall → List String
  | .syncBody account => [account.id]
  | _ => []

variable (cfg : AccountsConfig)

/-- The call, run to its end. -/
def finish (s : ServiceState) : AccountCall → List Answer → Option ServiceState
  | .done _, [] => some s
  | _, [] => none
  | c, d :: ds => (accountStatement cfg s.store c d).bind fun next =>
      finish { s with store := next.1, synced := bodyOf next.2 ++ s.synced } next.2 ds

def perform (s : ServiceState) : Operation → Option ServiceState
  | .connect userId provider result answers =>
    finish cfg s (startAccount cfg (.connect userId provider result)) answers
  | .preview userId accountId answers =>
    finish cfg s (startAccount cfg (.preview userId accountId)) answers
  | .requestSync userId accountId =>
    match s.store.accounts.find? fun a => a.id = accountId && a.userId = userId with
    | some account => some { s with handed := account.id :: s.handed }
    | none => some s
  | .pollActiveAccounts =>
    some { s with handed := (s.store.accounts.filter (·.status = .ACTIVE)).map (·.id) ++ s.handed }
  | .syncAccount accountId answers => finish cfg s (startAccount cfg (.syncAccount accountId)) answers
  | .getConnection accountId answers =>
    (s.store.accounts.find? (·.id = accountId)).bind fun account =>
      finish cfg s (getConnection cfg s.store.now .preview account) answers
  | .wait ms => some { s with store := { s.store with now := s.store.now + ms } }

/-- A connect of this mailbox. -/
def Operation.connects (a : MailAccount) : Operation → Prop
  | .connect userId provider result _ => sameMailbox userId provider result.providerAccountId a = true
  | _ => False

/-! ### When a connection leaves the status alone -/

/-- A statement or request that fails for no reason of the account's. -/
def Fails (d : Option Answer) : Prop := ∃ message, d = some (.failed message)

/-- `getConnection` of this row, answered like this, writes no status: the access token is still
good, or what there is to refresh with cannot be read, or the provider is out of order, or the
write fails. -/
def Spared (now : ℕ) (a : MailAccount) (answers : List Answer) : Prop :=
  now + refreshSkewMs < a.accessTokenExpires ∨
  (truthy a.refreshTokenEnc = none ∧ Fails answers[0]?) ∨
  ∃ envelope, truthy a.refreshTokenEnc = some envelope ∧
    ((∃ reason, cfg.decrypt envelope .refresh = .error reason) ∨ Fails answers[0]? ∨ Fails answers[1]?)

/-- The operation makes no connection for a disabled account, or one that is spared. -/
def SparesDisabled (s : ServiceState) : Operation → Prop
  | .preview userId accountId answers => ∀ a ∈ s.store.accounts, a.id = accountId →
    a.userId = userId → a.status = .DISABLED →
      Fails answers[0]? ∨ Spared cfg s.store.now a answers.tail
  | .getConnection accountId answers => ∀ a ∈ s.store.accounts, a.id = accountId →
    a.status = .DISABLED →
      Spared cfg s.store.now a answers
  | _ => True

variable {cfg} {s t : ServiceState} {c : AccountCall} {d : Answer} {a account : MailAccount}
  {x : String}

/-! ### Calls about another account -/

/-- The account ids are a primary key, and ids that were drawn are not drawn again. -/
def Keyed (s : AccountStore) : Prop := (s.accounts.map (·.id)).Nodup ∧ ∀ a ∈ s.accounts, a.id ∈ s.ids

/-- The call reads and writes the account of this id alone. -/
def About (x : String) : AccountCall → Prop
  | .connectUpsert _ _ _ => False
  | .previewFind _ accountId | .syncFind accountId | .syncStamp accountId | .syncError accountId
    _ => accountId = x
  | .refresh _ account _ | .persist _ account _ | .markReauthRequired _ account _ | .syncBody
    account => account.id = x
  | .done _ => True

theorem about_throwTo (origin : Origin) (h : account.id = x) (reason : String) :
    About x (throwTo origin account reason) := by
  cases origin
  · trivial
  · exact h

theorem about_withConnection (origin : Origin) (h : account.id = x) (accessToken : String) :
    About x (withConnection origin account accessToken) := by
  cases origin
  · trivial
  · exact h

theorem about_getConnection (origin : Origin) (h : account.id = x) (now : ℕ) :
    About x (getConnection cfg now origin account) := by
  unfold getConnection
  split_ifs
  · split
    · exact about_withConnection origin h _
    · exact about_throwTo origin h _
  · split
    · exact h
    · split
      · exact h
      · exact about_throwTo origin h _

/-- What a statement about the account of one id leaves of the table. -/
structure Elsewhere (x : String) (s s' : AccountStore) : Prop where
  others : ∀ a ∈ s.accounts, a.id ≠ x → a ∈ s'.accounts
  keyed : Keyed s → Keyed s'
  now : s'.now = s.now

theorem Elsewhere.refl (s : AccountStore) : Elsewhere x s s := ⟨fun _ h _ => h, fun h => h, rfl⟩

theorem Elsewhere.trans {s s' s'' : AccountStore} (h : Elsewhere x s s') (h' : Elsewhere x s' s'') :
    Elsewhere x s s'' :=
  ⟨fun a ha hne => h'.others a (h.others a ha hne) hne, fun hk =>
    h'.keyed (h.keyed hk), h'.now.trans h.now⟩

theorem Keyed.updateMany {s : AccountStore} (h : Keyed s) (sel : MailAccount → Bool)
    {set : MailAccount → MailAccount} (hid : ∀ a, (set a).id = a.id) :
    Keyed { s with accounts := Table.updateMany sel set s.accounts } := by
  constructor
  · show ((Table.updateMany sel set s.accounts).map (·.id)).Nodup
    rw [Table.map_updateMany _ hid]
    exact h.1
  · intro a ha
    obtain ⟨r, hr, ⟨-, rfl⟩ | ⟨-, rfl⟩⟩ := Table.mem_updateMany.mp ha
    · rw [hid]
      exact h.2 r hr
    · exact h.2 _ hr

theorem updateThen_elsewhere {s s' : AccountStore} {set : MailAccount → MailAccount}
    {next thrown c' : AccountCall} (h : updateThen s x set next thrown = some (s', c'))
    (hid : ∀ a, (set a).id = a.id) (hnext : About x next) (hthrown : About x thrown) :
    Elsewhere x s s' ∧ About x c' := by
  unfold updateThen updateAccount at h
  split at h
  · rename_i u hu
    split_ifs at hu
    cases hu
    cases h
    refine ⟨⟨fun a ha hne => ?_, fun hk => hk.updateMany _ hid, rfl⟩, hnext⟩
    exact Table.mem_updateMany.mpr ⟨a, ha, .inr ⟨decide_eq_false hne, rfl⟩⟩
  · cases h
    exact ⟨.refl s, hthrown⟩

theorem About.statement {s s' : AccountStore} {c' : AccountCall} (hc : About x c)
    (h : accountStatement cfg s c d = some (s', c')) : Elsewhere x s s' ∧ About x c' := by
  have stays : ∀ {next : AccountCall}, About x next → Elsewhere x s s ∧ About x next :=
    fun hn => ⟨.refl s, hn⟩
  unfold accountStatement at h
  split at h
  · exact hc.elim
  · exact hc.elim
  · split at h
    · rename_i a ha
      have hid : a.id = x := by
        have hsel := List.find?_some ha
        simp only [Bool.and_eq_true, decide_eq_true_eq] at hsel
        exact hsel.1.trans hc
      cases h
      exact stays (about_getConnection .preview hid _)
    · cases h; exact stays trivial
  · cases h; exact stays trivial
  · split at h
    · rename_i a ha
      have hsel := List.find?_some ha
      have hid : a.id = x := (of_decide_eq_true hsel).trans hc
      split_ifs at h
      · cases h; exact stays trivial
      · cases h; exact stays (about_getConnection .sync hid _)
    · cases h; exact stays trivial
  · cases h; exact stays trivial
  · cases h; exact stays hc
  · cases h
    exact ⟨⟨fun _ ha _ => ha, fun hk => hk, rfl⟩, hc⟩
  · cases h; exact stays (about_throwTo _ hc _)
  · rename_i origin account tokens draw
    have hid : account.id = x := hc
    rw [hid] at h
    exact updateThen_elsewhere h (fun _ => rfl) (about_withConnection _ hid _) (about_throwTo _ hid _)
  · cases h; exact stays (about_throwTo _ hc _)
  · rename_i origin account reason draw
    have hid : account.id = x := hc
    rw [hid] at h
    exact updateThen_elsewhere h (fun _ => rfl) (about_throwTo _ hid _) (about_throwTo _ hid _)
  · cases h; exact stays (about_throwTo _ hc _)
  · rename_i account cursor
    have hid : account.id = x := hc
    rw [hid] at h
    exact updateThen_elsewhere h (fun _ => rfl) hid rfl
  · cases h; exact stays hc
  · cases h; exact stays hc
  · rename_i accountId draw
    obtain rfl : accountId = x := hc
    exact updateThen_elsewhere h (fun _ => rfl) trivial rfl
  · cases h; exact stays hc
  · rename_i accountId reason draw
    obtain rfl : accountId = x := hc
    exact updateThen_elsewhere h (fun _ => rfl) trivial trivial
  · cases h; exact stays trivial
  · cases h

theorem bodyOf_about (hc : About x c) : ∀ id ∈ bodyOf c, id = x := by
  cases c with
  | syncBody account =>
    intro id hid
    rw [List.mem_singleton.mp hid]
    exact hc
  | _ => exact fun _ hid => nomatch hid

/-- A call that has ended, or one more statement. -/
theorem finish_cases {ds : List Answer} (h : finish cfg s c ds = some t) :
    (∃ o, c = .done o ∧ t = s) ∨
    ∃ d ds' s' c', ds = d :: ds' ∧ accountStatement cfg s.store c d = some (s', c') ∧
      finish cfg { s with store := s', synced := bodyOf c' ++ s.synced } c' ds' = some t := by
  cases ds with
  | nil =>
    cases c with
    | done o => cases h; exact .inl ⟨o, rfl, rfl⟩
    | _ => cases h
  | cons d ds =>
    have hstep : (accountStatement cfg s.store c d).bind (fun next =>
        finish cfg { s with store := next.1, synced := bodyOf next.2 ++ s.synced } next.2 ds) =
          some t := by
      cases c <;> exact h
    obtain ⟨⟨s', c'⟩, hst, hrest⟩ := Option.bind_eq_some_iff.mp hstep
    exact .inr ⟨d, ds, s', c', rfl, hst, hrest⟩

/-- A whole call about one account. -/
theorem About.finish (hc : About x c) {ds : List Answer} (h : finish cfg s c ds = some t) :
    Elsewhere x s.store t.store ∧ ∀ id ∈ t.synced, id ≠ x → id ∈ s.synced := by
  induction ds generalizing s c with
  | nil =>
    rcases finish_cases h with ⟨o, -, rfl⟩ | ⟨d, ds', s', c', hnil, -, -⟩
    · exact ⟨.refl _, fun _ hid _ => hid⟩
    · cases hnil
  | cons d ds ih =>
    rcases finish_cases h with ⟨o, -, rfl⟩ | ⟨d', ds', s', c', hcons, hst, hrest⟩
    · exact ⟨.refl _, fun _ hid _ => hid⟩
    · cases hcons
      obtain ⟨helse, hc'⟩ := hc.statement hst
      obtain ⟨helse', hsynced⟩ := ih hc' hrest
      refine ⟨helse.trans helse', fun id hid hne => ?_⟩
      rcases List.mem_append.mp (hsynced id hid hne) with hbody | hold
      · exact absurd (bodyOf_about hc' id hbody) hne
      · exact hold

/-! ### Calls about a disabled account -/

theorem finish_done {o : AccountOutcome} {ds : List Answer}
    (h : finish cfg s (.done o) ds = some t) : t = s := by
  rcases finish_cases h with ⟨-, -, ht⟩ | ⟨d, ds', s', c', -, hst, -⟩
  · exact ht
  · cases hst

/-- A call of a preview that ends with the failure of its next step. -/
theorem finish_fails {ds : List Answer} (hds : Fails ds[0]?)
    (hc : ∀ message, accountStatement cfg s.store c (.failed message) =
      some (s.store, .done (.threw message)))
    (h : finish cfg s c ds = some t) : t = s := by
  rcases finish_cases h with ⟨-, -, ht⟩ | ⟨d, ds', s', c', rfl, hst, hrest⟩
  · exact ht
  · obtain ⟨message, hd⟩ := hds
    obtain rfl : d = .failed message := Option.some.inj hd
    obtain ⟨rfl, rfl⟩ := Prod.mk.inj (Option.some.inj (hst.symm.trans (hc message)))
    exact finish_done hrest

theorem Spared.finish {ds : List Answer} (hsp : Spared cfg s.store.now a ds)
    (h : finish cfg s (getConnection cfg s.store.now .preview a) ds = some t) :
    t.store.accounts = s.store.accounts ∧ t.synced = s.synced := by
  have same : t = s → t.store.accounts = s.store.accounts ∧ t.synced = s.synced := by
    rintro rfl
    exact ⟨rfl, rfl⟩
  unfold getConnection at h
  rcases hsp with hfresh | ⟨hnone, hfails⟩ | ⟨envelope, henv, hcases⟩
  · rw [if_pos hfresh] at h
    split at h
    · exact same (finish_done h)
    · exact same (finish_done h)
  · split_ifs at h
    · split at h
      · exact same (finish_done h)
      · exact same (finish_done h)
    · simp only [hnone] at h
      exact same (finish_fails hfails (fun _ => rfl) h)
  · split_ifs at h
    · split at h
      · exact same (finish_done h)
      · exact same (finish_done h)
    · simp only [henv] at h
      split at h
      · rename_i refreshToken hopens
        rcases hcases with ⟨reason, hclosed⟩ | hfails | hfails
        · rw [hopens] at hclosed
          cases hclosed
        · exact same (finish_fails hfails (fun _ => rfl) h)
        · rcases finish_cases h with ⟨o, -, rfl⟩ | ⟨d, ds', s', c', rfl, hst, hrest⟩
          · exact ⟨rfl, rfl⟩
          · have hfails' : Fails ds'[0]? := hfails
            cases d with
            | tokens tokens =>
              cases hst
              exact same (finish_fails hfails' (fun _ => rfl) hrest)
            | revoked message =>
              cases hst
              rw [finish_fails hfails' (fun _ => rfl) hrest]
              exact ⟨rfl, rfl⟩
            | failed message =>
              cases hst
              exact same (finish_done hrest)
            | ok draw => cases hst
            | cursor cursor => cases hst
      · exact same (finish_done h)

/-- The row with the id of a row. -/
theorem Keyed.eq {s : AccountStore} (h : Keyed s) {a b : MailAccount} (ha : a ∈ s.accounts)
    (hb : b ∈ s.accounts)
    (hid : a.id = b.id) : a = b := Table.eq_of_nodup_key h.1 ha hb hid

/-- The check in front of a sync. -/
theorem sync_disabled (hk : Keyed s.store) (ha : a ∈ s.store.accounts)
    (hst : a.status = .DISABLED) {ds : List Answer}
    (h : finish cfg s (.syncFind a.id) ds = some t) : t = s := by
  rcases finish_cases h with ⟨-, -, ht⟩ | ⟨d, ds', s', c', rfl, hstep, hrest⟩
  · exact ht
  · cases d with
    | ok draw =>
      have hfind : s.store.accounts.find? (fun r => decide (r.id = a.id)) = some a := by
        cases hf : s.store.accounts.find? (fun r => decide (r.id = a.id)) with
        | none => exact absurd (decide_eq_true rfl) (List.find?_eq_none.mp hf a ha)
        | some b =>
          have hsel := List.find?_some hf
          rw [hk.eq (List.mem_of_find?_eq_some hf) ha (of_decide_eq_true hsel)]
      have hne : a.status ≠ .ACTIVE := by
        rw [hst]
        decide
      simp only [accountStatement, hfind, if_pos hne] at hstep
      cases hstep
      exact finish_done hrest
    | failed message =>
      cases hstep
      exact finish_done hrest
    | tokens tokens => cases hstep
    | revoked message => cases hstep
    | cursor cursor => cases hstep

/-! ### Connecting -/

theorem upsert_keyed {s s' : AccountStore} {c' : AccountCall} {userId : String}
    {provider : MailProvider} {result : ConnectResult} {draw : AccountDraw} (hk : Keyed s)
    (h : upsert cfg s userId provider result draw = some (s', c')) :
    Keyed s' ∧ (∀ a ∈ s.accounts, sameMailbox userId provider result.providerAccountId a ≠ true →
      a ∈ s'.accounts) ∧
      ∃ o, c' = .done o := by
  simp only [upsert] at h
  split at h
  · cases h
    refine ⟨hk.updateMany _ fun _ => rfl, fun a ha hne => ?_, _, rfl⟩
    exact Table.mem_updateMany.mpr ⟨a, ha, .inr ⟨eq_false_of_ne_true hne, rfl⟩⟩
  · split_ifs at h with hdrawn
    cases h
    refine ⟨⟨?_, fun a ha => ?_⟩, fun a ha _ => List.mem_append_left _ ha, _, rfl⟩
    · refine Table.nodup_append_row _ hk.1 fun r hr hid => hdrawn ?_
      have hdraw : r.id = draw.id := hid
      exact hdraw ▸ hk.2 r hr
    · rcases List.mem_append.mp ha with ha | ha
      · exact List.mem_cons_of_mem _ (hk.2 a ha)
      · rw [List.mem_singleton.mp ha]
        exact List.mem_cons_self

theorem connect_keyed {userId : String} {provider : MailProvider} {result : ConnectResult}
    {ds : List Answer} (hk : Keyed s.store)
    (h : finish cfg s (startAccount cfg (.connect userId provider result)) ds = some t) :
    Keyed t.store ∧ t.synced = s.synced ∧
      ∀ a ∈ s.store.accounts, sameMailbox userId provider result.providerAccountId a ≠ true →
        a ∈ t.store.accounts := by
  simp only [startAccount] at h
  split_ifs at h
  · rw [finish_done h]
    exact ⟨hk, rfl, fun a ha _ => ha⟩
  · rcases finish_cases h with ⟨o, hdone, -⟩ | ⟨d, ds', s', c', -, hst, hrest⟩
    · cases hdone
    · cases d with
      | ok draw =>
        obtain ⟨hkeyed, hothers, o, rfl⟩ := upsert_keyed hk hst
        rw [finish_done hrest]
        exact ⟨hkeyed, rfl, hothers⟩
      | failed message =>
        cases hst
        rw [finish_done hrest]
        exact ⟨hk, rfl, fun a ha _ => ha⟩
      | tokens tokens => cases hst
      | revoked message => cases hst
      | cursor cursor => cases hst

/-! ### Runs -/

/-- A preview of an account: it is read, and a connection is made for it. -/
theorem preview_cases {userId accountId : String} {ds : List Answer}
    (h : finish cfg s (.previewFind userId accountId) ds = some t) : t = s ∨
    ∃ account ∈ s.store.accounts, account.id = accountId ∧ account.userId = userId ∧ ¬ Fails ds[0]? ∧
      finish cfg { s with synced := bodyOf (getConnection cfg s.store.now .preview account) ++ s.synced }
        (getConnection cfg s.store.now .preview account) ds.tail = some t := by
  rcases finish_cases h with ⟨-, -, ht⟩ | ⟨d, ds', s', c', rfl, hst, hrest⟩
  · exact .inl ht
  · cases d with
    | ok draw =>
      simp only [accountStatement] at hst
      split at hst
      · rename_i account hfind
        have hsel := List.find?_some hfind
        rw [Bool.and_eq_true, decide_eq_true_eq, decide_eq_true_eq] at hsel
        cases hst
        refine .inr ⟨account, List.mem_of_find?_eq_some hfind, hsel.1, hsel.2, ?_, hrest⟩
        rintro ⟨message, hfails⟩
        cases hfails
      · cases hst
        exact .inl (finish_done hrest)
    | failed message =>
      cases hst
      exact .inl (finish_done hrest)
    | tokens tokens => cases hst
    | revoked message => cases hst
    | cursor cursor => cases hst

theorem bodyOf_getConnection (now : ℕ) (account : MailAccount) :
    bodyOf (getConnection cfg now .preview account) = [] := by
  unfold getConnection
  split_ifs
  · split
    · rfl
    · rfl
  · split
    · rfl
    · split
      · rfl
      · rfl

/-- A connection for an account leaves a disabled one alone if it is another one, or spared. -/
theorem connection_keeps (hk : Keyed s.store) {ds : List Answer} (hm : account ∈ s.store.accounts)
    (h : finish cfg s (getConnection cfg s.store.now .preview account) ds = some t)
    (ha : a ∈ s.store.accounts) (hsp : a.id = account.id → Spared cfg s.store.now a ds) :
    a ∈ t.store.accounts ∧ (a.id ∈ t.synced → a.id ∈ s.synced) := by
  by_cases hid : a.id = account.id
  · obtain rfl := hk.eq ha hm hid
    obtain ⟨haccounts, hsynced⟩ := (hsp rfl).finish h
    rw [haccounts, hsynced]
    exact ⟨ha, fun h => h⟩
  · obtain ⟨helse, hsynced⟩ := (about_getConnection .preview rfl s.store.now).finish h
    exact ⟨helse.others a ha hid, fun hin => hsynced a.id hin hid⟩

theorem keyed_perform (hk : Keyed s.store) {op : Operation} (h : perform cfg s op = some t) :
    Keyed t.store := by
  cases op with
  | connect userId provider result answers => exact (connect_keyed hk h).1
  | preview userId accountId answers =>
    have hc : About accountId (.previewFind userId accountId) := rfl
    exact (hc.finish h).1.keyed hk
  | requestSync userId accountId =>
    simp only [perform] at h
    split at h
    · cases h; exact hk
    · cases h; exact hk
  | pollActiveAccounts => cases h; exact hk
  | syncAccount accountId answers =>
    have hc : About accountId (.syncFind accountId) := rfl
    exact (hc.finish h).1.keyed hk
  | getConnection accountId answers =>
    obtain ⟨account, -, hrest⟩ := Option.bind_eq_some_iff.mp h
    exact ((about_getConnection .preview rfl s.store.now).finish hrest).1.keyed hk
  | wait ms => cases h; exact hk

/-- One operation leaves the row of a disabled account as it is, and does not sync it. -/
theorem perform_keeps (hk : Keyed s.store) {op : Operation} (hsp : SparesDisabled cfg s op)
    (h : perform cfg s op = some t) (ha : a ∈ s.store.accounts) (hst : a.status = .DISABLED)
    (hc : ¬ op.connects a) :
    a ∈ t.store.accounts ∧ (a.id ∈ t.synced → a.id ∈ s.synced) := by
  cases op with
  | connect userId provider result answers =>
    obtain ⟨-, hsynced, hothers⟩ := connect_keyed hk h
    rw [hsynced]
    exact ⟨hothers a ha hc, fun h => h⟩
  | preview userId accountId answers =>
    rcases preview_cases h with rfl | ⟨account, hm, hid, huser, hread, hrest⟩
    · exact ⟨ha, fun h => h⟩
    · rw [bodyOf_getConnection] at hrest
      refine connection_keeps hk hm hrest ha fun hsame => ?_
      obtain rfl := hk.eq ha hm hsame
      exact (hsp a ha hid huser hst).resolve_left hread
  | requestSync userId accountId =>
    simp only [perform] at h
    split at h
    · cases h; exact ⟨ha, fun h => h⟩
    · cases h; exact ⟨ha, fun h => h⟩
  | pollActiveAccounts => cases h; exact ⟨ha, fun h => h⟩
  | syncAccount accountId answers =>
    have hcall : finish cfg s (.syncFind accountId) answers = some t := h
    by_cases hid : a.id = accountId
    · subst hid
      rw [sync_disabled hk ha hst hcall]
      exact ⟨ha, fun h => h⟩
    · have habout : About accountId (.syncFind accountId) := rfl
      obtain ⟨helse, hsynced⟩ := habout.finish hcall
      exact ⟨helse.others a ha hid, fun hin => hsynced a.id hin hid⟩
  | getConnection accountId answers =>
    obtain ⟨account, hfind, hrest⟩ := Option.bind_eq_some_iff.mp h
    have hm := List.mem_of_find?_eq_some hfind
    have hsel := List.find?_some hfind
    refine connection_keeps hk hm hrest ha fun hsame => ?_
    exact hsp a ha (hsame.trans (of_decide_eq_true hsel)) hst
  | wait ms => cases h; exact ⟨ha, fun h => h⟩

/-- In every run that makes no connection for a disabled account, or only such as write no status,
the row of a disabled account stays as it is and is never synced until a connect of that
mailbox. -/
theorem disabled_sticks (cfg : AccountsConfig) (s t : ServiceState) (ops : List Operation)
    (a : MailAccount) (hk : Keyed s.store) (hm : Meets (perform cfg) (SparesDisabled cfg) s ops)
    (hr : exec (perform cfg) s ops = some t) (ha : a ∈ s.store.accounts)
    (hst : a.status = .DISABLED) (hc : ∀ op ∈ ops, ¬ op.connects a) :
    a ∈ t.store.accounts ∧ (a.id ∈ t.synced → a.id ∈ s.synced) := by
  induction ops generalizing s with
  | nil => cases hr; exact ⟨ha, fun h => h⟩
  | cons op ops ih =>
    obtain ⟨u, hu, hrest⟩ := Option.bind_eq_some_iff.mp hr
    obtain ⟨hop, hops⟩ := List.forall_mem_cons.mp hc
    obtain ⟨hmem, hsynced⟩ := perform_keeps hk hm.1 hu ha hst hop
    obtain ⟨hlast, hsynced'⟩ := ih u (keyed_perform hk hu) (hm.2 u hu) hrest hmem hops
    exact ⟨hlast, fun h => hsynced (hsynced' h)⟩

/-- Alice's mailbox, disabled; its access token expires at 400000. -/
def disabledMailbox : MailAccount where
  id := "m"
  userId := "alice"
  provider := .GMAIL
  providerAccountId := "inbox"
  emailAddress := "a@b.com"
  status := .DISABLED
  accessTokenEnc := "aa1"
  accessTokenExpires := 400000
  refreshTokenEnc := some "rr1"
  scopes := ["mail.read"]
  providerMetadata := none
  syncCursor := some "41"
  lastSyncedAt := some 5
  lastSyncError := none

def disabledAt (now : ℕ) : ServiceState := ⟨⟨now, [disabledMailbox], ["m"], []⟩, [], []⟩

theorem keyed_disabledAt (now : ℕ) : Keyed (disabledAt now).store := by
  refine ⟨List.nodup_singleton _, fun a ha => ?_⟩
  rw [List.mem_singleton.mp ha]
  exact List.mem_cons_self

/-- While the access token is good: a preview, a manual sync, a poll, and the job of the manual
sync. -/
def goodToken : List Operation :=
  [.preview "alice" "m" [.ok ⟨"", "", ""⟩], .requestSync "alice" "m", .pollActiveAccounts,
    .syncAccount "m" [.ok ⟨"", "", ""⟩]]

theorem disabled_sticks_goodToken :
    ∃ t, exec (perform taggedConfig) (disabledAt 0) goodToken = some t ∧
    t.handed = ["m"] ∧ disabledMailbox ∈ t.store.accounts ∧ "m" ∉ t.synced := by
  have hm : Meets (perform taggedConfig) (SparesDisabled taggedConfig) (disabledAt 0) goodToken := by
    refine ⟨fun a ha _ _ _ => .inr (.inl ?_), fun t ht =>
      ⟨trivial, fun u hu => ⟨trivial, fun v hv => ⟨trivial, fun w hw => trivial⟩⟩⟩⟩
    rw [List.mem_singleton.mp ha]
    decide
  have hc : ∀ op ∈ goodToken, ¬ op.connects disabledMailbox := by
    intro op hop
    simp only [goodToken, List.mem_cons, List.not_mem_nil, or_false] at hop
    rcases hop with rfl | rfl | rfl | rfl <;> exact id
  obtain ⟨hrow, hsynced⟩ := disabled_sticks taggedConfig (disabledAt 0) _ goodToken disabledMailbox
    (keyed_disabledAt 0) hm rfl
    (List.mem_singleton.mpr rfl) rfl hc
  exact ⟨_, rfl, rfl, hrow, fun h => List.not_mem_nil (hsynced h)⟩

/-- The token has expired, and Alice previews the mailbox. -/
def expiredPreview : List Operation :=
  [.preview "alice" "m"
    [.ok ⟨"", "", ""⟩, .tokens ⟨"a2", none, 9000000, ["mail.read"]⟩, .ok ⟨"", "n1", "n2"⟩]]

/-- The mailbox is `ACTIVE` again without a connect. -/
theorem preview_reactivates :
    ¬ ∀ (s t : ServiceState) (ops : List Operation) (a : MailAccount), Keyed s.store →
    exec (perform taggedConfig) s ops = some t → a ∈ s.store.accounts → a.status = .DISABLED →
      (∀ op ∈ ops, ¬ op.connects a) →
    ∀ b ∈ t.store.accounts, b.id = a.id → b.status = .DISABLED := by
  intro h
  have hc : ∀ op ∈ expiredPreview, ¬ op.connects disabledMailbox := by
    intro op hop
    rw [List.mem_singleton.mp hop]
    exact id
  have hstill := h (disabledAt 1000000) _ expiredPreview disabledMailbox (keyed_disabledAt 1000000) rfl
    (List.mem_singleton.mpr rfl) rfl hc _ (List.mem_singleton.mpr rfl) rfl
  cases hstill

end Finlytic.EmailIngestion
