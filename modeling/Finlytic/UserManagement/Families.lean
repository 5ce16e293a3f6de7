import Finlytic.UserManagement.FamilyInvariant

/-! Owners and replacement links of refresh-token families, and the whole
representation invariant over every reachable state. -/

namespace Finlytic.UserManagement

open Lib

variable {cfg : Config} {s s' : Store} {c c' : Call} {p q : Pool Store Call}

/-! ### Owners -/

/-- What a refresh has read agrees with the owner of its family. -/
def OwnedBy (own : String → String) : Call → Prop
  | .refreshUser spent _ => spent.userId = own spent.familyId
  | .refreshIssue user spent _ => user.id = own spent.familyId
  | _ => True

/-- One user owns every row of a family and every refresh on it. -/
def OwnerInv (p : Pool Store Call) : Prop :=
  ∃ own : String → String, (∀ r ∈ p.store.refreshTokens, r.userId = own r.familyId) ∧
    ∀ c ∈ p.calls, OwnedBy own c

theorem owned_updateMany {own : String → String} {sel : RefreshToken → Bool}
    {set : RefreshToken → RefreshToken} {rows : List RefreshToken} (hk : Keeps set)
    (h : ∀ r ∈ rows, r.userId = own r.familyId) :
    ∀ r ∈ Table.updateMany sel set rows, r.userId = own r.familyId := by
  intro x hx
  obtain ⟨r, hr, -, -, hf, hu, -⟩ := hk.exists_of_mem hx
  rw [hf, hu]
  exact h r hr

/-- Only a login adds an owner, for a family no one has drawn before. -/
theorem owner_transition {own : String → String} (hinv : RowsInv cfg s)
    (hrows : ∀ r ∈ s.refreshTokens, r.userId = own r.familyId) (hc : OwnedBy own c)
    (ht : Transition cfg s c s' c') :
    ∃ own', (∀ f ∈ s.families, own' f = own f) ∧
      (∀ r ∈ s'.refreshTokens, r.userId = own' r.familyId) ∧
      OwnedBy own' c' := by
  cases ht with
  | stop | loginStart | notSpent | reuse | inactive | logoutFind =>
    exact ⟨own, fun _ _ => rfl, hrows, trivial⟩
  | startFamily user client d s' record hf hi =>
    obtain ⟨-, -, -, hu, -, hrf, -, -, -, rfl⟩ := issue_spec hi
    have hne : ∀ f ∈ s.families, Function.update own d.familyId user.id f = own f := by
      intro f hfm
      refine Function.update_of_ne ?_ _ _
      rintro rfl
      exact hf hfm
    refine ⟨Function.update own d.familyId user.id, hne, fun r hr => ?_, trivial⟩
    rcases List.mem_append.mp hr with hr | hr
    · rw [hne _ (hinv.drawn r hr).2.2]
      exact hrows r hr
    · obtain rfl := List.mem_singleton.mp hr
      rw [hrf, Function.update_self, hu]
  | spend raw client row hr =>
    exact ⟨own, fun _ _ => rfl, owned_updateMany (keeps_revoke s.now) hrows, trivial⟩
  | reread raw client g spent hr =>
    exact ⟨own, fun _ _ => rfl, hrows, hrows spent (findByHash_spec hr).1⟩
  | active user spent client hu hid => exact ⟨own, fun _ _ => rfl, hrows, hid.trans hc⟩
  | issue user spent client d s' record hi =>
    obtain ⟨-, -, -, hu, -, hrf, -, -, -, rfl⟩ := issue_spec hi
    refine ⟨own, fun _ _ => rfl, fun r hr => ?_, trivial⟩
    rcases List.mem_append.mp hr with hr | hr
    · exact hrows r hr
    · obtain rfl := List.mem_singleton.mp hr
      rw [hu, hrf]
      exact hc
  | link user spentId raw issuedId s' hl =>
    rw [linkReplacement_spec hl]
    exact ⟨own, fun _ _ => rfl, owned_updateMany (keeps_link issuedId) hrows, trivial⟩
  | revokeReuse f | revokeInactive f | revokeLogout f =>
    exact ⟨own, fun _ _ => rfl, owned_updateMany (keeps_revoke s.now) hrows, trivial⟩

theorem OwnedBy.congr {own own' : String → String} (hcall : CallInv cfg s c)
    (he : ∀ f ∈ s.families, own' f = own f) (h : OwnedBy own c) : OwnedBy own' c := by
  cases c with
  | refreshUser spent client => exact h.trans (he _ hcall).symm
  | refreshIssue user spent client => exact h.trans (he _ hcall).symm
  | _ => trivial

theorem ownedBy_start (own : String → String) (r : Request) : OwnedBy own (start r) :=
  start_induction (OwnedBy own) (fun _ _ _ => trivial) (fun _ _ => trivial) (fun _ => trivial)
    (fun _ => trivial) r

theorem ownerInv_step {a : Action Request Choice Event} (h : SessionInv cfg p) (ho : OwnerInv p)
    (hs : (auth cfg).step p a = some q) : OwnerInv q := by
  obtain ⟨own, hrows, hcalls⟩ := ho
  obtain ⟨r, -, rfl⟩ | ⟨i, d, c, t, c', -, hi, hc, rfl⟩ | ⟨e, t, -, he, rfl⟩ := Program.step_cases hs
  · refine ⟨own, hrows, fun c hc => ?_⟩
    rcases List.mem_append.mp hc with hc | hc
    · exact hcalls c hc
    · rw [List.mem_singleton.mp hc]
      exact ownedBy_start own r
  · have hmem := List.mem_of_getElem? hi
    obtain ⟨own', hfam, hrows', hc'⟩ :=
      owner_transition h.1 hrows (hcalls c hmem) (statement_transition hc)
    refine ⟨own', hrows', fun c₂ hc₂ => ?_⟩
    rcases List.mem_or_eq_of_mem_set hc₂ with hc₂ | rfl
    · exact (hcalls c₂ hc₂).congr (h.2 c₂ hc₂) hfam
    · exact hc'
  · refine ⟨own, fun r hr => ?_, hcalls⟩
    cases e with
    | tick ms => cases he; exact hrows r hr
    | setActive u a => cases he; exact hrows r hr
    | sweep => cases he; exact hrows r (Table.mem_deleteMany.mp hr).1

/-! ### Replacement links -/

/-- The call is about to name row `x` as the replacement of the row it spent. -/
def linking (x : String) : Call → Bool
  | .refreshLink _ _ _ y => y = x
  | _ => false

/-- Every row is named at most once, counting the calls about to name it. -/
structure LinkInv (p : Pool Store Call) : Prop where
  drawn : ∀ r ∈ p.store.refreshTokens, ∀ x, r.replacedById = some x → x ∈ p.store.ids
  unique : ∀ r ∈ p.store.refreshTokens, ∀ r' ∈ p.store.refreshTokens, ∀ x,
    r.replacedById = some x → r'.replacedById = some x → r = r'
  pending : ∀ x, 0 < p.calls.countP (linking x) →
    x ∈ p.store.ids ∧ ∀ r ∈ p.store.refreshTokens, r.replacedById ≠ some x
  one : ∀ x, p.calls.countP (linking x) ≤ 1

/-- Every link of the new table is a link of the old one. -/
def LinksFrom (rows rows' : List RefreshToken) : Prop :=
  ∃ g : RefreshToken → RefreshToken, ∀ z ∈ rows', ∀ x, z.replacedById = some x →
    ∃ r ∈ rows, z = g r ∧ r.replacedById = some x

theorem linksFrom_refl (rows : List RefreshToken) : LinksFrom rows rows :=
  ⟨id, fun z hz _ hx => ⟨z, hz, rfl, hx⟩⟩

theorem linksFrom_deleteMany (sel : RefreshToken → Bool) (rows : List RefreshToken) :
    LinksFrom rows (Table.deleteMany sel rows) :=
  ⟨id, fun z hz _ hx => ⟨z, (Table.mem_deleteMany.mp hz).1, rfl, hx⟩⟩

theorem linksFrom_revoke (sel : RefreshToken → Bool) (now : ℕ) (rows : List RefreshToken) :
    LinksFrom rows (Table.updateMany sel (revoke now) rows) := by
  refine ⟨fun r => if sel r then revoke now r else r, fun z hz x hx => ?_⟩
  obtain ⟨r, hr, ⟨hsel, rfl⟩ | ⟨hsel, rfl⟩⟩ := Table.mem_updateMany.mp hz
  · exact ⟨r, hr, by simp [hsel], hx⟩
  · exact ⟨z, hr, by simp [hsel], hx⟩

theorem linksFrom_issue {userId familyId : String} {client : ClientMeta} {d : Draw}
    {record : RefreshToken} (hi : issue cfg s userId familyId client d = some (s', record)) :
    LinksFrom s.refreshTokens s'.refreshTokens := by
  obtain ⟨-, -, -, -, -, -, -, -, hnone, rfl⟩ := issue_spec hi
  refine ⟨id, fun z hz x hx => ?_⟩
  rcases List.mem_append.mp hz with hz | hz
  · exact ⟨z, hz, rfl, hx⟩
  · rw [List.mem_singleton.mp hz, hnone] at hx
    cases hx

/-- Links, drawn ids and linking calls may only disappear. -/
theorem LinkInv.mono (h : LinkInv p) (hrows : LinksFrom p.store.refreshTokens q.store.refreshTokens)
    (hids : ∀ x ∈ p.store.ids, x ∈ q.store.ids)
    (hcalls : ∀ x, q.calls.countP (linking x) ≤ p.calls.countP (linking x)) : LinkInv q := by
  obtain ⟨g, hg⟩ := hrows
  refine ⟨fun z hz x hx => ?_, fun z hz z' hz' x hx hx' => ?_, fun x hpos => ?_, fun x =>
    Nat.le_trans (hcalls x) (h.one x)⟩
  · obtain ⟨r, hr, -, hrx⟩ := hg z hz x hx
    exact hids x (h.drawn r hr x hrx)
  · obtain ⟨r, hr, rfl, hrx⟩ := hg z hz x hx
    obtain ⟨r', hr', rfl, hrx'⟩ := hg z' hz' x hx'
    rw [h.unique r hr r' hr' x hrx hrx']
  · obtain ⟨hid, hno⟩ := h.pending x (Nat.lt_of_lt_of_le hpos (hcalls x))
    refine ⟨hids x hid, fun z hz hx => ?_⟩
    obtain ⟨r, hr, -, hrx⟩ := hg z hz x hx
    exact hno r hr hrx

/-- A refresh that has just inserted its replacement will name it, and no one else does. -/
theorem LinkInv.issue {i : ℕ} {user : User} {spent : RefreshToken} {client : ClientMeta}
    {d : Draw} {record : RefreshToken} (h : LinkInv p)
    (hc : p.calls[i]? = some (.refreshIssue user spent client))
    (hi : issue cfg p.store user.id spent.familyId client d = some (s', record)) :
    LinkInv ⟨s', p.calls.set i (.refreshLink user spent.id d.raw record.id)⟩ := by
  have hcount := fun x => countP_set_add (.refreshLink user spent.id d.raw record.id) (linking x) hc
  obtain ⟨g, hg⟩ := linksFrom_issue hi
  obtain ⟨-, hid, hrid, -, -, -, -, -, -, rfl⟩ := issue_spec hi
  simp only [linking, Bool.toNat_false, Nat.add_zero] at hcount
  have hnew : p.calls.countP (linking d.id) = 0 := by
    by_contra hne
    exact hid (h.pending d.id (Nat.pos_of_ne_zero hne)).1
  refine ⟨fun z hz x hx => ?_, fun z hz z' hz' x hx hx' => ?_, fun x hpos => ?_, fun x => ?_⟩
  · obtain ⟨r, hr, -, hrx⟩ := hg z hz x hx
    exact List.mem_cons_of_mem _ (h.drawn r hr x hrx)
  · obtain ⟨r, hr, rfl, hrx⟩ := hg z hz x hx
    obtain ⟨r', hr', rfl, hrx'⟩ := hg z' hz' x hx'
    rw [h.unique r hr r' hr' x hrx hrx']
  · by_cases hx : record.id = x
    · subst hx
      refine ⟨by simp [hrid], fun z hz hzx => ?_⟩
      obtain ⟨r, hr, -, hrx⟩ := hg z hz _ hzx
      exact hid (hrid ▸ h.drawn r hr _ hrx)
    · have hx' := hcount x
      simp only [hx, decide_false, Bool.toNat_false, Nat.add_zero] at hx'
      obtain ⟨h1, h2⟩ := h.pending x (by simpa [hx'] using hpos)
      refine ⟨List.mem_cons_of_mem _ h1, fun z hz hzx => ?_⟩
      obtain ⟨r, hr, -, hrx⟩ := hg z hz _ hzx
      exact h2 r hr hrx
  · rw [hcount x]
    by_cases hx : record.id = x
    · subst hx
      simp [hrid, hnew]
    · simpa [hx] using h.one x

/-- The link is written once, on the one row with the spent id. -/
theorem LinkInv.link {i : ℕ} {user : User} {spentId raw issuedId : String} {o : Outcome}
    (h : LinkInv p) (hrows : RowsInv cfg p.store)
    (hc : p.calls[i]? = some (.refreshLink user spentId raw issuedId))
    (hl : linkReplacement p.store spentId issuedId = some s') :
    LinkInv ⟨s', p.calls.set i (.done o)⟩ := by
  have hcount := fun x => countP_set_add (.done o) (linking x) hc
  rw [linkReplacement_spec hl]
  simp only [linking, Bool.toNat_false, Nat.add_zero] at hcount
  have hpos : 0 < p.calls.countP (linking issuedId) := by
    have := hcount issuedId
    simp only [decide_true, Bool.toNat_true] at this
    omega
  obtain ⟨hid, hno⟩ := h.pending issuedId hpos
  have hrow : ∀ z ∈ Table.updateMany (·.id = spentId)
    (UserManagement.link issuedId) p.store.refreshTokens, ∀ x,
      z.replacedById = some x →
      (x = issuedId ∧ ∃ r ∈ p.store.refreshTokens, r.id = spentId ∧
        z = UserManagement.link issuedId r) ∨
        (x ≠ issuedId ∧ z ∈ p.store.refreshTokens) := by
    intro z hz x hx
    obtain ⟨r, hr, ⟨hsel, rfl⟩ | ⟨-, rfl⟩⟩ := Table.mem_updateMany.mp hz
    · exact .inl ⟨(Option.some.inj hx).symm, r, hr, by simpa using hsel, rfl⟩
    · refine .inr ⟨?_, hr⟩
      rintro rfl
      exact hno z hr hx
  refine ⟨fun z hz x hx => ?_, fun z hz z' hz' x hx hx' => ?_, fun x hpos => ?_, fun x => ?_⟩
  · rcases hrow z hz x hx with ⟨rfl, -⟩ | ⟨-, hzm⟩
    · exact hid
    · exact h.drawn z hzm x hx
  · rcases hrow z hz x hx with ⟨rfl, r, hr, hrs, rfl⟩ | ⟨hne, hzm⟩
    · rcases hrow z' hz' _ hx' with ⟨-, r', hr', hrs', rfl⟩ | ⟨hne, -⟩
      · rw [Table.eq_of_nodup_key hrows.ids hr hr' (hrs.trans hrs'.symm)]
      · exact absurd rfl hne
    · rcases hrow z' hz' _ hx' with ⟨he, -⟩ | ⟨-, hzm'⟩
      · exact absurd he hne
      · exact h.unique z hzm z' hzm' x hx hx'
  · have hx' := hcount x
    have hle := h.one x
    obtain ⟨h1, h2⟩ := h.pending x (by simp only at hpos; omega)
    refine ⟨h1, fun z hz hzx => ?_⟩
    rcases hrow z hz x hzx with ⟨rfl, -⟩ | ⟨-, hzm⟩
    · simp only [decide_true, Bool.toNat_true] at hx' hpos
      omega
    · exact h2 z hzm hzx
  · have hx' := hcount x
    have hle := h.one x
    simp only
    omega

/-- A call that goes from one statement to another without naming a new row. -/
theorem LinkInv.set {i : ℕ} (h : LinkInv p) (hc : p.calls[i]? = some c)
    (hrows : LinksFrom p.store.refreshTokens s'.refreshTokens)
    (hids : ∀ x ∈ p.store.ids, x ∈ s'.ids) (hc' : ∀ x, linking x c' = false) :
    LinkInv ⟨s', p.calls.set i c'⟩ := by
  refine h.mono hrows hids fun x => ?_
  have := countP_set_add c' (linking x) hc
  simp only [hc' x, Bool.toNat_false, Nat.add_zero] at this
  simp only
  omega

theorem linkInv_run {i : ℕ} (h : LinkInv p) (hrows : RowsInv cfg p.store)
    (hc : p.calls[i]? = some c) (ht : Transition cfg p.store c s' c') :
    LinkInv ⟨s', p.calls.set i c'⟩ := by
  cases ht with
  | stop | loginStart | notSpent | reread | reuse | active | inactive | logoutFind =>
    exact h.set hc (linksFrom_refl _) (fun _ h => h) fun _ => rfl
  | startFamily user client d s' record hf hi =>
    refine h.set hc (linksFrom_issue hi) (fun x hx => ?_) fun _ => rfl
    obtain ⟨-, -, -, -, -, -, -, -, -, rfl⟩ := issue_spec hi
    exact List.mem_cons_of_mem _ hx
  | spend raw client row hr => exact h.set hc (linksFrom_revoke _ _ _) (fun _ h => h) fun _ => rfl
  | issue user spent client d s' record hi => exact h.issue hc hi
  | link user spentId raw issuedId s' hl => exact h.link hrows hc hl
  | revokeReuse f | revokeInactive f | revokeLogout f =>
    exact h.set hc (linksFrom_revoke _ _ _) (fun _ h => h) fun _ => rfl

theorem linking_start (x : String) (r : Request) : linking x (start r) = false :=
  start_induction (fun c => linking x c = false) (fun _ _ _ => rfl) (fun _ _ => rfl) (fun _ => rfl)
    (fun _ => rfl) r

theorem linkInv_step {a : Action Request Choice Event} (h : SessionInv cfg p) (hl : LinkInv p)
    (hs : (auth cfg).step p a = some q) : LinkInv q := by
  obtain ⟨r, -, rfl⟩ | ⟨i, d, c, t, c', -, hi, hc, rfl⟩ | ⟨e, t, -, he, rfl⟩ := Program.step_cases hs
  · refine hl.mono (linksFrom_refl _) (fun _ h => h) fun x => ?_
    simp [List.countP_append, auth, linking_start]
  · exact linkInv_run hl h.1 hi (statement_transition hc)
  · cases e with
    | tick ms => cases he; exact hl.mono (linksFrom_refl _) (fun _ h => h) fun _ => Nat.le_refl _
    | setActive u a => cases he; exact hl.mono (linksFrom_refl _) (fun _ h => h) fun _ => Nat.le_refl _
    | sweep => cases he; exact hl.mono (linksFrom_deleteMany _ _) (fun _ h => h) fun _ => Nat.le_refl _

/-! ### The representation invariant -/

/-- Everything the session store keeps over a run. -/
structure FamilyInv (cfg : Config) (p : Pool Store Call) : Prop where
  session : SessionInv cfg p
  one : ∀ f, openTokens p f ≤ 1
  owner : OwnerInv p
  links : LinkInv p

theorem familyInv_fresh (h : Fresh p) : FamilyInv cfg p := by
  have hs : SessionInv cfg p := sessionInv_fresh h
  obtain ⟨hc, hr, -⟩ := h
  refine ⟨hs, ?_, ⟨fun _ => "", ?_, ?_⟩, ⟨?_, ?_, ?_, ?_⟩⟩ <;> simp [openTokens, hc, hr]

theorem familyInv_step {a : Action Request Choice Event} (h : FamilyInv cfg p)
    (hs : (auth cfg).step p a = some q) : FamilyInv cfg q :=
  ⟨sessionInv_step h.session hs, fun f => openTokens_step h.session (h.one f) hs,
    ownerInv_step h.session h.owner hs, linkInv_step h.session h.links hs⟩

theorem familyInv_reachable (h : Reachable (auth cfg).step Fresh p) : FamilyInv cfg p :=
  h.invariant (fun _ => familyInv_fresh) fun _ _ _ => familyInv_step

/-- In every reachable state a family has at most one open token, no raw token
was accepted twice, a family has one owner, and no row is named as replacement
by two rows. -/
theorem family_representation (cfg : Config) {p : Pool Store Call}
    (h : Reachable (auth cfg).step Fresh p) :
    (∀ f, p.store.refreshTokens.countP (liveIn f) + p.calls.countP (spentIn f) ≤ 1) ∧
    p.store.spends.Nodup ∧
    (∀ r ∈ p.store.refreshTokens, ∀ r' ∈ p.store.refreshTokens, r.familyId = r'.familyId →
      r.userId = r'.userId) ∧
    ∀ r ∈ p.store.refreshTokens, ∀ r' ∈ p.store.refreshTokens, ∀ x,
      r.replacedById = some x → r'.replacedById = some x → r = r' := by
  have hinv := familyInv_reachable h
  refine ⟨hinv.one, hinv.session.1.spends, fun r hr r' hr' he => ?_, hinv.links.unique⟩
  obtain ⟨own, hown, -⟩ := hinv.owner
  rw [hown r hr, hown r' hr', he]

/-! ### A small deployment -/

def plainConfig : Config where
  refreshTtlDays := 30
  refreshTtlDays_pos := by decide
  accessTtlSeconds := 900
  fingerprint := id
  fingerprint_injective := Function.injective_id
  decoyHash := "decoy"
  verifyPassword := fun digest password => digest = password
  signAccessToken := fun u => u.id

def alice : User := ⟨"alice", "a@b.com", "secret", .USER, true⟩

def browser : ClientMeta := ⟨none, none⟩

def opening : Pool Store Call := ⟨⟨0, [alice], [], [], [], [], []⟩, []⟩

/-- The choice for a statement that draws nothing. -/
def plain : Choice := .ok ⟨"", "", ""⟩

theorem fresh_opening : Fresh opening := ⟨rfl, rfl, rfl, rfl, rfl, rfl⟩

/-- Alice signs in and a refresh spends her first token. -/
def loginThenSpend : List (Action Request Choice Event) :=
  [.call (.login "a@b.com" "secret" browser), .run 0 plain, .run 0 (.ok ⟨"f", "t1", "r1"⟩),
    .call (.refresh "t1" browser), .run 1 plain]

theorem family_representation_loginThenSpend :
    ∃ p, exec (auth plainConfig).step opening loginThenSpend = some p ∧
    p.calls.countP (spentIn "f") = 1 ∧ p.store.refreshTokens.countP (liveIn "f") + 1 ≤ 1 := by
  refine ⟨_, rfl, rfl, ?_⟩
  exact (family_representation plainConfig ⟨opening, loginThenSpend, fresh_opening, rfl⟩).1 "f"

end Finlytic.UserManagement
