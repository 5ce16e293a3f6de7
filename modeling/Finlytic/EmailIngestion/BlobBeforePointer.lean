import Finlytic.EmailIngestion.Ingestion

/-! Blob before pointer. A key names one message and one kind of object, so an
object never changes once it is written, whoever writes it again. A call puts
its objects before it creates the row, hence every row points to the bytes and
the text of its own message. -/

namespace Finlytic.EmailIngestion

open Lib

variable {cfg : IngestConfig} {s s' : MailStore} {c c' : IngestCall cfg}

/-! ### Keys -/

theorem buildKey_toList (kind extension : String) (a : AccountId) (t : ℤ) (m : String) :
    (buildKey kind extension a t m).toList = kind.toList ++ '/' :: (a.val.toList ++
      '/' :: ((toString (getUTCFullYear t)).toList ++ '/' ::
        ((month t).toList ++ '/' :: (m.toList ++ extension.toList)))) := by
  simp [buildKey]

theorem slash_not_mem_month (t : ℤ) : '/' ∉ (month t).toList :=
  not_mem_padStart (by decide) (not_mem_repr (by decide) _) 2

/-- A key determines its kind, its account and its message. -/
theorem buildKey_inj {kind kind' extension extension' : String} {a a' : AccountId} {t t' : ℤ}
    {m m' : String} (hk : '/' ∉ kind.toList) (hk' : '/' ∉ kind'.toList)
    (h : buildKey kind extension a t m = buildKey kind' extension' a' t' m') :
    kind = kind' ∧ a = a' ∧ m.toList ++ extension.toList = m'.toList ++ extension'.toList := by
  have hl := congrArg String.toList h
  rw [buildKey_toList, buildKey_toList] at hl
  have hyear : ∀ t, '/' ∉ (toString (getUTCFullYear t)).toList :=
    fun t => not_mem_repr_int (by decide) (by decide) _
  obtain ⟨hkind, hl⟩ := append_cons_inj_of_first hk hk' hl
  obtain ⟨hacc, hl⟩ := append_cons_inj_of_first a.2 a'.2 hl
  obtain ⟨-, hl⟩ := append_cons_inj_of_first (hyear t) (hyear t') hl
  obtain ⟨-, hl⟩ := append_cons_inj_of_first (slash_not_mem_month t) (slash_not_mem_month t') hl
  exact ⟨String.toList_inj.mp hkind, Subtype.ext (String.toList_inj.mp hacc), hl⟩

theorem buildRawKey_inj {a a' : AccountId} {t t' : ℤ} {m m' : String}
    (h : buildRawKey a t m = buildRawKey a' t' m') : a = a' ∧ m = m' := by
  obtain ⟨-, ha, hm⟩ := buildKey_inj (by decide) (by decide) h
  exact ⟨ha, String.toList_inj.mp (List.append_cancel_right hm)⟩

theorem buildBodyKey_inj {a a' : AccountId} {t t' : ℤ} {m m' : String}
    (h : buildBodyKey a t m = buildBodyKey a' t' m') : a = a' ∧ m = m' := by
  obtain ⟨-, ha, hm⟩ := buildKey_inj (by decide) (by decide) h
  exact ⟨ha, String.toList_inj.mp (List.append_cancel_right hm)⟩

theorem buildRawKey_ne_buildBodyKey (a a' : AccountId) (t t' : ℤ) (m m' : String) :
    buildRawKey a t m ≠ buildBodyKey a' t' m' := by
  intro h
  obtain ⟨hkind, -, -⟩ := buildKey_inj (by decide) (by decide) h
  exact absurd hkind (by decide)

/-! ### What a key may hold -/

/-- The parsed text of a message, trimmed. -/
def messageText (cfg : IngestConfig) (a : AccountId) (m : String) : Option String :=
  bodyText (cfg.simpleParser (cfg.contents a m))

def rawObject (cfg : IngestConfig) (a : AccountId) (m : String) : StoredObject :=
  ⟨cfg.contents a m, "message/rfc822"⟩

def textObject (text : String) : StoredObject := ⟨text.toUTF8.toList, "text/plain; charset=utf-8"⟩

/-- Whatever lies at a key is the object that the key names. -/
structure Named (cfg : IngestConfig) (s : MailStore) : Prop where
  raw : ∀ a t m o, s.objects (buildRawKey a t m) = some o → o = rawObject cfg a m
  body : ∀ a t m o, s.objects (buildBodyKey a t m) = some o → ∃ text, messageText cfg a m =
    some text ∧ o = textObject text

/-- Objects stay as they are. -/
def Keeps (s s' : MailStore) : Prop := ∀ key o, s.objects key = some o → s'.objects key = some o

theorem keeps_of_objects (h : s'.objects = s.objects) : Keeps s s' := by
  intro key o ho
  rw [h]
  exact ho

theorem put_objects (s : MailStore) (key : String) (body : Bytes) (contentType : String)
    (key' : String) :
    (put s key body contentType).objects key' = if key' = key then some ⟨body, contentType⟩
      else s.objects key' := by
  simp only [put, Function.update_apply]

theorem Named.putRaw (h : Named cfg s) (d : Delivery cfg) (sentAt : ℤ) :
    Named cfg (put s (rawKey d sentAt) d.message.raw "message/rfc822") ∧
      Keeps s (put s (rawKey d sentAt) d.message.raw "message/rfc822") := by
  have hobj : (⟨d.message.raw, "message/rfc822"⟩ : StoredObject) =
      rawObject cfg d.account d.message.providerMessageId := by
    rw [rawObject, d.same]
  refine ⟨⟨fun a t m o ho => ?_, fun a t m o ho => ?_⟩, fun key o ho => ?_⟩
  · rw [put_objects] at ho
    split_ifs at ho with hkey
    · obtain ⟨rfl, rfl⟩ := buildRawKey_inj hkey
      exact (Option.some.inj ho).symm.trans hobj
    · exact h.raw a t m o ho
  · have hne : buildBodyKey a t m ≠ rawKey d sentAt := (buildRawKey_ne_buildBodyKey _ _ _ _ _ _).symm
    rw [put_objects, if_neg hne] at ho
    exact h.body a t m o ho
  · rw [put_objects]
    split_ifs with hkey
    · rw [hkey] at ho
      rw [hobj, h.raw _ _ _ o ho]
    · exact ho

theorem Named.putBody (h : Named cfg s) (d : Delivery cfg) (sentAt : ℤ) {text : String}
    (ht : messageText cfg d.account d.message.providerMessageId = some text) :
    Named cfg (put s (bodyKey d sentAt) text.toUTF8.toList "text/plain; charset=utf-8") ∧
      Keeps s (put s (bodyKey d sentAt) text.toUTF8.toList "text/plain; charset=utf-8") := by
  refine ⟨⟨fun a t m o ho => ?_, fun a t m o ho => ?_⟩, fun key o ho => ?_⟩
  · have hne : buildRawKey a t m ≠ bodyKey d sentAt := buildRawKey_ne_buildBodyKey _ _ _ _ _ _
    rw [put_objects, if_neg hne] at ho
    exact h.raw a t m o ho
  · rw [put_objects] at ho
    split_ifs at ho with hkey
    · obtain ⟨rfl, rfl⟩ := buildBodyKey_inj hkey
      exact ⟨text, ht, (Option.some.inj ho).symm⟩
    · exact h.body a t m o ho
  · rw [put_objects]
    split_ifs with hkey
    · rw [hkey] at ho
      obtain ⟨text', ht', rfl⟩ := h.body _ _ _ o ho
      obtain rfl := Option.some.inj (ht.symm.trans ht')
      rfl
    · exact ho

/-! ### Rows and calls -/

/-- The objects behind a message that was ingested under `sentAt`. -/
structure Backed (cfg : IngestConfig) (s : MailStore) (a : AccountId) (m : String) (sentAt : ℤ)
    (bodyTextKey : Option String) : Prop where
  raw : s.objects (buildRawKey a sentAt m) = some (rawObject cfg a m)
  key : bodyTextKey = (messageText cfg a m).map fun _ => buildBodyKey a sentAt m
  body : ∀ text, messageText cfg a m = some text → s.objects (buildBodyKey a sentAt m) =
    some (textObject text)

theorem Backed.keeps {a : AccountId} {m : String} {t : ℤ} {k : Option String} (hk : Keeps s s')
    (h : Backed cfg s a m t k) : Backed cfg s' a m t k :=
  ⟨hk _ _ h.raw, h.key, fun text ht => hk _ _ (h.body text ht)⟩

structure MailInv (cfg : IngestConfig) (s : MailStore) : Prop where
  named : Named cfg s
  rows : ∀ m ∈ s.messages, m.rawObjectKey = buildRawKey m.accountId m.sentAt m.providerMessageId ∧
    Backed cfg s m.accountId m.providerMessageId m.sentAt m.bodyTextKey

def IngestKnows (s : MailStore) : IngestCall cfg → Prop
  | .putBody d sentAt text =>
    s.objects (rawKey d sentAt) = some (rawObject cfg d.account d.message.providerMessageId) ∧
      messageText cfg d.account d.message.providerMessageId = some text
  | .create d sentAt bodyTextKey =>
    Backed cfg s d.account d.message.providerMessageId sentAt bodyTextKey
  | _ => True

theorem IngestKnows.keeps (hk : Keeps s s') (h : IngestKnows s c) : IngestKnows s' c := by
  cases c with
  | putBody d sentAt text => exact ⟨hk _ _ h.1, h.2⟩
  | create d sentAt bodyTextKey => exact Backed.keeps hk h
  | _ => trivial

theorem MailInv.objects (h : MailInv cfg s) (hn : Named cfg s') (hk : Keeps s s')
    (hm : s'.messages = s.messages) :
    MailInv cfg s' := by
  refine ⟨hn, fun m hmem => ?_⟩
  rw [hm] at hmem
  exact ⟨(h.rows m hmem).1, (h.rows m hmem).2.keeps hk⟩

theorem messageText_of (d : Delivery cfg) :
    bodyText (parsedMail d) = messageText cfg d.account d.message.providerMessageId := by
  rw [messageText, parsedMail, d.same]

theorem ingestOk_inv {id : String} (h : MailInv cfg s) (hc : IngestKnows s c)
    (hst : ingestOk s id c = some (s', c')) :
    MailInv cfg s' ∧ IngestKnows s' c' ∧ Keeps s s' := by
  cases c with
  | find d =>
    simp only [ingestOk] at hst
    split_ifs at hst <;> cases hst <;> exact ⟨h, trivial, fun _ _ ho => ho⟩
  | parse d =>
    cases hst
    exact ⟨h, trivial, fun _ _ ho => ho⟩
  | putRaw d sentAt =>
    obtain ⟨hn, hk⟩ := h.named.putRaw d sentAt
    have hraw : (put s (rawKey d sentAt) d.message.raw "message/rfc822").objects (rawKey d sentAt) =
        some (rawObject cfg d.account d.message.providerMessageId) := by
      rw [put_objects, if_pos rfl, rawObject, d.same]
    simp only [ingestOk, messageText_of] at hst
    split at hst
    · rename_i text ht
      cases hst
      exact ⟨h.objects hn hk rfl, ⟨hraw, ht⟩, hk⟩
    · rename_i ht
      cases hst
      refine ⟨h.objects hn hk rfl, ⟨hraw, by rw [ht]; rfl, fun text ht' => ?_⟩, hk⟩
      rw [ht] at ht'
      cases ht'
  | putBody d sentAt text =>
    obtain ⟨hraw, ht⟩ := hc
    obtain ⟨hn, hk⟩ := h.named.putBody d sentAt ht
    cases hst
    refine ⟨h.objects hn hk rfl, ⟨hk _ _ hraw, by rw [ht]; rfl, fun text' ht' => ?_⟩, hk⟩
    obtain rfl := Option.some.inj (ht.symm.trans ht')
    exact (put_objects _ _ _ _ _).trans (if_pos rfl)
  | create d sentAt bodyTextKey =>
    simp only [ingestOk] at hst
    split_ifs at hst
    · cases hst
      exact ⟨h, trivial, fun _ _ ho => ho⟩
    · cases hst
      have hk : Keeps s { s with messages := s.messages ++ [row d sentAt bodyTextKey id] } :=
        keeps_of_objects rfl
      refine ⟨⟨⟨h.named.raw, h.named.body⟩, fun m hm => ?_⟩, trivial, hk⟩
      rcases List.mem_append.mp hm with hm | hm
      · exact ⟨(h.rows m hm).1, (h.rows m hm).2.keeps hk⟩
      · obtain rfl := List.mem_singleton.mp hm
        exact ⟨rfl, Backed.keeps hk hc⟩
  | done result => cases hst

theorem ingestStatement_inv {d : IngestChoice} (h : MailInv cfg s) (hc : IngestKnows s c)
    (hst : ingestStatement s c d = some (s', c')) :
    MailInv cfg s' ∧ IngestKnows s' c' ∧ Keeps s s' := by
  cases d with
  | ok id => exact ingestOk_inv h hc hst
  | failed =>
    obtain ⟨next, -, he⟩ := Option.map_eq_some_iff.mp hst
    cases he
    exact ⟨h, trivial, fun _ _ ho => ho⟩
  | lost id =>
    obtain ⟨⟨t, next⟩, hok, he⟩ := Option.map_eq_some_iff.mp hst
    cases he
    obtain ⟨h', -, hk⟩ := ingestOk_inv h hc hok
    exact ⟨h', trivial, hk⟩

theorem ingestion_step {p q : Pool MailStore (IngestCall cfg)}
    {a : Action (Delivery cfg) IngestChoice ℤ} (h : p.Holds (MailInv cfg) IngestKnows)
    (hs : (ingestion cfg).step p a = some q) : q.Holds (MailInv cfg) IngestKnows := by
  refine Program.step_stable (P := ingestion cfg) (fun _ _ _ => trivial) ?_ ?_ h hs
  · intro s c d s' c' hI hJ hst
    obtain ⟨hI', hJ', hk⟩ := ingestStatement_inv hI hJ hst
    exact ⟨hI', hJ', fun c₂ h₂ => IngestKnows.keeps hk h₂⟩
  · intro s now s' hI he
    cases he
    have hk : Keeps s { s with now } := keeps_of_objects rfl
    exact ⟨hI.objects ⟨hI.named.raw, hI.named.body⟩ hk rfl, fun c₂ h₂ => IngestKnows.keeps hk h₂⟩

/-- Over a whole run no object is changed or removed. -/
theorem ingestion_keeps {p q : Pool MailStore (IngestCall cfg)}
    {as : List (Action (Delivery cfg) IngestChoice ℤ)} (h : p.Holds (MailInv cfg) IngestKnows)
    (hr : exec (ingestion cfg).step p as = some q) : Keeps p.store q.store := by
  have hinv : q.Holds (MailInv cfg) IngestKnows ∧ Keeps p.store q.store := by
    refine exec_invariant (I := fun r => r.Holds (MailInv cfg) IngestKnows ∧ Keeps p.store r.store)
      (fun q a r hq hs => ⟨ingestion_step hq.1 hs, ?_⟩) ⟨h, fun _ _ ho => ho⟩ hr
    obtain ⟨d, -, rfl⟩ | ⟨i, d, c, s, c', -, hc, hst, rfl⟩ | ⟨now, s, -, he, rfl⟩ :=
      Program.step_cases hs
    · exact hq.2
    · obtain ⟨-, -, hk⟩ := ingestStatement_inv hq.1.1 (hq.1.2 c (List.mem_of_getElem? hc)) hst
      exact fun key o ho => hk key o (hq.2 key o ho)
    · cases he
      exact hq.2
  exact hinv.2

theorem ingestion_reachable {p : Pool MailStore (IngestCall cfg)}
    (h : Reachable (ingestion cfg).step EmptyStore p) :
    p.Holds (MailInv cfg) IngestKnows := by
  refine h.invariant (fun p hp => ?_) fun _ _ _ => ingestion_step
  obtain ⟨hc, hm, ho⟩ := hp
  refine ⟨⟨⟨?_, ?_⟩, ?_⟩, ?_⟩ <;> simp [hc, hm, ho]

/-! ### The main result -/

/-- The key the next step of a call writes to. -/
def puts : IngestCall cfg → Option String
  | .putRaw d sentAt => some (rawKey d sentAt)
  | .putBody d sentAt _ => some (bodyKey d sentAt)
  | _ => none

/-- The message a call is ingesting. -/
def ingesting : IngestCall cfg → Option (AccountId × String)
  | .find d | .parse d | .putRaw d _ | .putBody d _ _ | .create d _ _ =>
    some (d.account, d.message.providerMessageId)
  | .done _ => none

/-- A put at a key of the message can only come from the message itself. -/
theorem ingesting_of_puts {a : AccountId} {m : String} {t : ℤ} {key : String}
    (hp : puts c = some key) (hk : key = buildRawKey a t m ∨ key = buildBodyKey a t m) :
    ingesting c = some (a, m) := by
  cases c with
  | putRaw d sentAt =>
    obtain rfl := Option.some.inj hp
    rcases hk with hk | hk
    · obtain ⟨ha, hm⟩ := buildRawKey_inj hk
      rw [ingesting, ha, hm]
    · exact absurd hk (buildRawKey_ne_buildBodyKey _ _ _ _ _ _)
  | putBody d sentAt text =>
    obtain rfl := Option.some.inj hp
    rcases hk with hk | hk
    · exact absurd hk.symm (buildRawKey_ne_buildBodyKey _ _ _ _ _ _)
    · obtain ⟨ha, hm⟩ := buildBodyKey_inj hk
      rw [ingesting, ha, hm]
  | _ => cases hp

/-- The text of a message after trimming; empty when the message has none. -/
def trimmedText (cfg : IngestConfig) (a : AccountId) (m : String) : String :=
  trim ((cfg.simpleParser (cfg.contents a m)).text.getD "")

theorem filter_trim (text : Option String) :
    (text.map trim).filter (· ≠ "") = if trim (text.getD "") = "" then none
      else some (trim (text.getD "")) := by
  cases text with
  | none => rfl
  | some text =>
    by_cases h : trim text = "" <;> simp [h]

theorem messageText_eq (a : AccountId) (m : String) :
    messageText cfg a m = if trimmedText cfg a m = "" then none else some (trimmedText cfg a m) :=
  filter_trim _

/-- In every reachable state a row points to the bytes and the trimmed text of
its own message, and no call for another message is about to write there. -/
theorem blob_before_pointer (cfg : IngestConfig) {p : Pool MailStore (IngestCall cfg)}
    (h : Reachable (ingestion cfg).step EmptyStore p) : ∀ m ∈ p.store.messages,
    (p.store.objects m.rawObjectKey).map (·.body) =
      some (cfg.contents m.accountId m.providerMessageId) ∧
    (m.bodyTextKey = none ↔ trimmedText cfg m.accountId m.providerMessageId = "") ∧
    (∀ key, m.bodyTextKey = some key → (p.store.objects key).map (·.body) =
      some (trimmedText cfg m.accountId m.providerMessageId).toUTF8.toList) ∧
    (∀ c ∈ p.calls, ingesting c ≠ some (m.accountId, m.providerMessageId) →
      ∀ key, puts c = some key →
      key ≠ m.rawObjectKey ∧ m.bodyTextKey ≠ some key) ∧
    ∀ as q, exec (ingestion cfg).step p as = some q → ∀ key, key = m.rawObjectKey ∨ m.bodyTextKey =
      some key →
      q.store.objects key = p.store.objects key := by
  intro m hm
  have hinv := ingestion_reachable h
  obtain ⟨hkey, hback⟩ := hinv.1.rows m hm
  have htext := @messageText_eq cfg m.accountId m.providerMessageId
  have hbody : ∀ key, m.bodyTextKey = some key →
      key = buildBodyKey m.accountId m.sentAt m.providerMessageId ∧
        trimmedText cfg m.accountId m.providerMessageId ≠ "" := by
    intro key hk
    rw [hback.key, htext] at hk
    by_cases hempty : trimmedText cfg m.accountId m.providerMessageId = ""
    · rw [if_pos hempty] at hk
      cases hk
    · rw [if_neg hempty] at hk
      exact ⟨(Option.some.inj hk).symm, hempty⟩
  have hobject : ∀ key, m.bodyTextKey = some key →
      p.store.objects key = some (textObject (trimmedText cfg m.accountId m.providerMessageId)) := by
    intro key hk
    obtain ⟨rfl, hempty⟩ := hbody key hk
    rw [if_neg hempty] at htext
    exact hback.body _ htext
  refine ⟨?_, ?_, fun key hk => ?_, fun c _ hne key hp =>
    ⟨fun he => ?_, fun he => ?_⟩, fun as q hr key hk => ?_⟩
  · rw [hkey, hback.raw]
    rfl
  · rw [hback.key, htext]
    split_ifs with hempty <;> simp [hempty]
  · rw [hobject key hk]
    rfl
  · exact hne (ingesting_of_puts hp (.inl (he.trans hkey)))
  · exact hne (ingesting_of_puts hp (.inr (hbody key he).1))
  · have hk' := ingestion_keeps hinv hr
    rcases hk with rfl | hk
    · rw [hkey] at *
      rw [hback.raw, hk' _ _ hback.raw]
    · rw [hobject key hk, hk' _ _ (hobject key hk)]

/-! ### Two workers on one message -/

/-- A mail is its text; there is no date header. -/
def plainMail : IngestConfig where
  simpleParser bytes :=
    ⟨none, some (String.ofList (bytes.map fun b => Char.ofNat b.toNat)), none, [], [], 0⟩
  toLowerCase := id
  contents _ _ := [104, 105, 10]

def inbox : AccountId := ⟨"acc", by decide⟩

def hello : Delivery plainMail := ⟨inbox, ⟨"m/1", none, [], none, none, none, [104, 105, 10]⟩, rfl⟩

/-- Both find no row and put their objects; the clock reaches the next month in
between, and the second `create` loses. -/
def twoWorkers : List (Action (Delivery plainMail) IngestChoice ℤ) :=
  [.call hello, .call hello, .run 0 (.ok ""), .run 1 (.ok ""), .run 0 (.ok ""), .env 2678400000,
    .run 1 (.ok ""),
    .run 0 (.ok ""), .run 1 (.ok ""), .run 0 (.ok ""), .run 0 (.ok "row"), .run 1 (.ok ""),
      .run 1 (.ok "row2")]

def emptyPool : Pool MailStore (IngestCall plainMail) := ⟨⟨0, [], fun _ => none⟩, []⟩

theorem blob_before_pointer_twoWorkers :
    ∃ p, exec (ingestion plainMail).step emptyPool twoWorkers = some p ∧
    p.store.messages.map (·.rawObjectKey) = ["raw/acc/1970/01/m/1.eml"] ∧
    ∀ m ∈ p.store.messages, (p.store.objects m.rawObjectKey).map (·.body) =
      some [104, 105, 10] := by
  obtain ⟨p, hp⟩ : ∃ p, exec (ingestion plainMail).step emptyPool twoWorkers = some p := ⟨_, rfl⟩
  have hreach : Reachable (ingestion plainMail).step EmptyStore p :=
    ⟨emptyPool, twoWorkers, ⟨rfl, rfl, fun _ => rfl⟩, hp⟩
  refine ⟨p, hp, ?_, fun m hm => (blob_before_pointer plainMail hreach m hm).1⟩
  cases hp
  rfl

end Finlytic.EmailIngestion
