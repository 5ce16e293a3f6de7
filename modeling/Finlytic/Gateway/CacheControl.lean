import Finlytic.Gateway.Containment

/-! The cache control of static files. It is decided on the pathname as it was
sent, and the file on the pathname as it is decoded and normalised; an escaped
slash after a dot segment makes the two differ. -/

namespace Finlytic.Gateway

open Lib Posix

def immutableCache : String := "public, max-age=31536000, immutable"

/-- A file somewhere below `assets` in the root. -/
def UnderAssets (root path : List Char) : Prop :=
  ∃ above below, Names (above ++ below) ∧ below ≠ [] ∧ root = absolutePath above ∧
    path = absolutePath (above ++ "assets".toList :: below)

/-- What is sent as immutable lies below `assets`, and the index of the root is sent with
`no-cache`. -/
def CachesAssetsOnly (root : List Char) (sent : Sent) : Prop :=
  ∀ path contentType contentLength cacheControl complete,
    .file path contentType contentLength cacheControl complete ∈ sent.written →
      (cacheControl = immutableCache → UnderAssets root path) ∧
        (path = join [root, "index.html".toList] → cacheControl = "no-cache")

/-- The pathname starts with `/assets/`, and the file that it names after decoding lies elsewhere
in the root. -/
def Misplaced (fs : FileSystem) (root pathname : List Char) : Prop :=
  "/assets/".toList <+: pathname ∧ ∃ decoded above, decodeURIComponent pathname = some decoded ∧
    Names above ∧ root = absolutePath above ∧ (above = [] → normalizeString false decoded = []) ∧
    (∀ below, normalizeString false decoded = "assets".toList :: below → below = []) ∧
    ∃ size, fs.stat (absolutePath (above ++ normalizeString false decoded)) = some (some size)

variable {fs : FileSystem} {root pathname filePath decoded path : List Char} {acceptsHtml : Bool}

/-! ### The file of an absolute pathname -/

theorem resolveWithin_eq_some (hroot : isAbsolute root = true)
    (hdecode : decodeURIComponent pathname = some decoded) (habsolute : isAbsolute decoded = true) :
    resolveWithin root pathname = some filePath ↔
      ∃ above, Names above ∧ root = absolutePath above ∧
        (above = [] → normalizeString false decoded = []) ∧
        filePath = absolutePath (above ++ normalizeString false decoded) := by
  have hnames := names_normalizeString decoded
  have hrootNames := names_normalizeString root
  have hresolve : resolveWithin root pathname =
      if (absolutePath (normalizeString false root ++ normalizeString false decoded) = root ||
        (root ++ ['/']).isPrefixOf
          (absolutePath (normalizeString false root ++ normalizeString false decoded))) = true
      then some (absolutePath (normalizeString false root ++ normalizeString false decoded))
        else none := by
    unfold resolveWithin
    rw [hdecode, Option.bind_some, resolveAbsolute_join hroot habsolute]
  rw [hresolve]
  generalize normalizeString false decoded = names at hnames ⊢
  constructor
  · intro h
    split_ifs at h with hinside
    cases h
    rw [Bool.or_eq_true, decide_eq_true_eq, List.isPrefixOf_iff_prefix] at hinside
    rcases hinside with hsame | ⟨more, hmore⟩
    · have hwalk := congrArg (normalizeString false) hsame
      rw [normalizeString_absolutePath (names_append.mpr ⟨hrootNames, hnames⟩),
        List.append_right_eq_self] at hwalk
      rw [hwalk, List.append_nil] at hsame ⊢
      exact ⟨normalizeString false root, hrootNames, hsame.symm, fun _ => rfl, by rw [List.append_nil]⟩
    · rw [List.append_assoc] at hmore
      obtain ⟨above, below, happend, hbase, hne, -⟩ :=
        absolutePath_split (names_append.mpr ⟨hrootNames, hnames⟩) hroot hmore.symm
      have habove : Names above := by
        have hall := names_append.mpr ⟨hrootNames, hnames⟩
        rw [happend] at hall
        exact (names_append.mp hall).1
      have hwalk := congrArg (normalizeString false) hbase
      rw [normalizeString_absolutePath habove] at hwalk
      rw [hwalk]
      exact ⟨above, habove, hbase, fun hnil => absurd hnil hne, rfl⟩
  · rintro ⟨above, habove, rfl, htop, rfl⟩
    rw [normalizeString_absolutePath habove]
    apply if_pos
    rw [Bool.or_eq_true, decide_eq_true_eq, List.isPrefixOf_iff_prefix]
    by_cases hnil : names = []
    · left
      rw [hnil, List.append_nil]
    · right
      refine ⟨['/'].intercalate names, ?_⟩
      rw [absolutePath_append (fun h => hnil (htop h)) hnil, List.append_assoc]
      rfl

theorem isAbsolute_decoded (h : "/assets/".toList <+: pathname)
    (hdecode : decodeURIComponent pathname = some decoded) :
    isAbsolute decoded = true := by
  obtain ⟨more, rfl⟩ := h
  have hcons := @decodeURIComponent_cons '/' (by decide) ("assets/".toList ++ more)
  obtain ⟨rest, -, rfl⟩ := Option.map_eq_some_iff.mp (hcons.symm.trans hdecode)
  rfl

/-! ### What is sent -/

theorem mem_sendFile {cacheControl contentType cacheControl' : String} {contentLength : ℕ}
    {complete : Bool}
    (h : .file path contentType contentLength cacheControl' complete ∈
      (sendFile fs filePath cacheControl).written) :
    path = filePath ∧ cacheControl' = cacheControl ∧ ∃ size, fs.stat filePath =
      some (some size) := by
  unfold sendFile at h
  cases hstat : fs.stat filePath with
  | none =>
    rw [hstat] at h
    cases h
  | some found =>
    rw [hstat] at h
    cases found with
    | none => cases h
    | some size =>
      have hfile := List.mem_singleton.mp h
      rw [Response.file.injEq] at hfile
      exact ⟨hfile.1, hfile.2.2.2.1, size, rfl⟩

theorem sendFile_found {size : ℕ} (h : fs.stat filePath = some (some size))
    (cacheControl : String) :
    ∃ contentType complete, .file filePath contentType size cacheControl complete ∈
      (sendFile fs filePath cacheControl).written := by
  unfold sendFile
  rw [h]
  exact ⟨_, _, List.mem_singleton_self _⟩

theorem mem_written {contentType cacheControl : String} {contentLength : ℕ} {complete : Bool}
    (h : .file path contentType contentLength cacheControl complete ∈
      (serveStatic fs root pathname acceptsHtml).written) :
    (∃ size, fs.stat path = some (some size)) ∧
      (resolveWithin root pathname = some path ∧ cacheControl = cacheControlOf pathname ∨
        cacheControl = "no-cache") := by
  rw [serveStatic_eq] at h
  obtain ⟨call, hcall, hmem⟩ := List.mem_flatMap.mp h
  obtain ⟨rfl, rfl, hfound⟩ := mem_sendFile hmem
  refine ⟨hfound, ?_⟩
  obtain ⟨filePath, hresolve, rfl | rfl⟩ := mem_sendFileCalls hcall
  · exact .inl ⟨hresolve, rfl⟩
  · exact .inr rfl

/-- The first call of a pathname other than `/`. -/
theorem written_of_found {size : ℕ} (hresolve : resolveWithin root pathname = some filePath)
    (hslash : pathname ≠ ['/']) (hfound : fs.stat filePath = some (some size)) :
    ∃ contentType complete,
      .file filePath contentType size (cacheControlOf pathname) complete ∈
        (serveStatic fs root pathname acceptsHtml).written := by
  obtain ⟨contentType, complete, hmem⟩ := sendFile_found hfound (cacheControlOf pathname)
  refine ⟨contentType, complete, ?_⟩
  rw [serveStatic_eq]
  refine List.mem_flatMap.mpr ⟨(filePath, cacheControlOf pathname), ?_, hmem⟩
  unfold sendFileCalls
  rw [hresolve]
  simp only [if_pos hslash]
  split_ifs
  · exact List.mem_singleton_self _
  · exact List.mem_cons_self

/-! ### When the cache control is right -/

theorem cacheControlOf_eq_immutable :
    cacheControlOf pathname = immutableCache ↔ "/assets/".toList <+: pathname := by
  unfold cacheControlOf
  rw [← List.isPrefixOf_iff_prefix]
  split_ifs with h
  · exact iff_of_true rfl h
  · exact iff_of_false (by decide) h

/-- The index does not lie below `assets`. -/
theorem not_underAssets_index : ¬ UnderAssets root (join [root, "index.html".toList]) := by
  rintro ⟨above, below, hnames, hne, rfl, hpath⟩
  obtain ⟨habove, hbelow⟩ := names_append.mp hnames
  have hassets : Names ("assets".toList :: below) := List.forall_mem_cons.mpr ⟨by decide, hbelow⟩
  rw [join_name habove isName_index] at hpath
  have hindex : Names (above ++ ["index.html".toList]) :=
    names_append.mpr ⟨habove, List.forall_mem_singleton.mpr isName_index⟩
  have hsame :=
    List.append_cancel_left (absolutePath_inj hindex (names_append.mpr ⟨habove, hassets⟩) hpath)
  exact hne (List.cons.inj hsame).2.symm

/-- A file is cached as it should be exactly when its pathname does not lead out of `assets` only
after decoding. -/
theorem serveStatic_cache (fs : FileSystem) (root pathname : List Char) (acceptsHtml : Bool)
    (hroot : isAbsolute root = true) :
    CachesAssetsOnly root (serveStatic fs root pathname acceptsHtml) ↔
      ¬ Misplaced fs root pathname := by
  constructor
  · rintro hcaches ⟨hassets, decoded, above, hdecode, habove, hbase, htop, helsewhere, size, hfound⟩
    have habsolute := isAbsolute_decoded hassets hdecode
    have hresolve :=
      (resolveWithin_eq_some hroot hdecode habsolute).mpr ⟨above, habove, hbase, htop, rfl⟩
    have hslash : pathname ≠ ['/'] := by
      rintro rfl
      have hle := hassets.length_le
      exact absurd hle (by decide)
    obtain ⟨contentType, complete, hmem⟩ :=
      @written_of_found fs root pathname _ acceptsHtml _ hresolve hslash hfound
    obtain ⟨above', below, hnames, hne, hroot', hpath⟩ :=
      (hcaches _ _ _ _ _ hmem).1 (cacheControlOf_eq_immutable.mpr hassets)
    obtain ⟨habove', hbelow⟩ := names_append.mp hnames
    have hunder : Names ("assets".toList :: below) := List.forall_mem_cons.mpr ⟨by decide, hbelow⟩
    obtain rfl := absolutePath_inj habove habove' (hbase.symm.trans hroot')
    have hsame := absolutePath_inj (names_append.mpr ⟨habove, names_normalizeString decoded⟩)
      (names_append.mpr ⟨habove, hunder⟩) hpath
    exact hne (helsewhere below (List.append_cancel_left hsame))
  · intro hright path contentType contentLength cacheControl complete hmem
    obtain ⟨⟨size, hfound⟩, ⟨hresolve, rfl⟩ | rfl⟩ := mem_written hmem
    · have hunder : cacheControlOf pathname = immutableCache → UnderAssets root path := by
        intro himmutable
        have hassets := cacheControlOf_eq_immutable.mp himmutable
        obtain ⟨decoded, hdecode, -⟩ := Option.bind_eq_some_iff.mp hresolve
        obtain ⟨above, habove, hbase, htop, rfl⟩ :=
          (resolveWithin_eq_some hroot hdecode (isAbsolute_decoded hassets hdecode)).mp hresolve
        by_contra hnot
        refine hright ⟨hassets, decoded, above, hdecode, habove, hbase, htop, ?_, size, hfound⟩
        intro below hbelow
        by_contra hne
        have hnames := names_normalizeString decoded
        rw [hbelow] at hnames
        exact hnot ⟨above, below, names_append.mpr ⟨habove, (List.forall_mem_cons.mp hnames).2⟩,
          hne, hbase, by rw [hbelow]⟩
      refine ⟨hunder, ?_⟩
      rintro rfl
      by_contra hcache
      have himmutable : cacheControlOf pathname = immutableCache := by
        unfold cacheControlOf at hcache ⊢
        split_ifs at hcache ⊢ with hassets
        · rfl
        · exact absurd rfl hcache
      exact not_underAssets_index (hunder himmutable)
    · exact ⟨fun h => absurd h (by decide), fun _ => rfl⟩

/-- A script of the application. -/
theorem serveStatic_cache_script :
    serveStatic sampleFiles "/srv/web".toList "/assets/app.js".toList true =
      ⟨[.file "/srv/web/assets/app.js".toList "text/javascript; charset=utf-8" 64 immutableCache
        true], true⟩ ∧
    CachesAssetsOnly "/srv/web".toList
      (serveStatic sampleFiles "/srv/web".toList "/assets/app.js".toList true) := by
  have hroot : isAbsolute "/srv/web".toList = true := by decide
  have hplain : decodeURIComponent "/assets/app.js".toList = some "/assets/app.js".toList := by decide
  have hnames : normalizeString false "/assets/app.js".toList =
      ["assets".toList, "app.js".toList] := by decide
  refine ⟨by decide, (serveStatic_cache sampleFiles _ _ true hroot).mpr ?_⟩
  rintro ⟨-, decoded, -, hdecode, -, -, -, helsewhere, -⟩
  obtain rfl := Option.some.inj (hplain.symm.trans hdecode)
  exact absurd (helsewhere _ hnames) (List.cons_ne_nil _ _)

/-- The escaped slash hides the dot segment, and the index is sent as immutable. -/
theorem index_immutable :
    ¬ CachesAssetsOnly "/srv/web".toList
      (serveStatic sampleFiles "/srv/web".toList "/assets/..%2findex.html".toList true) := by
  intro h
  have hsent : serveStatic sampleFiles "/srv/web".toList "/assets/..%2findex.html".toList true =
      ⟨[.file "/srv/web/index.html".toList "text/html; charset=utf-8" 64 immutableCache true],
        true⟩ := by decide
  rw [hsent] at h
  have hindex := (h _ _ _ _ _ (List.mem_singleton_self _)).2 (by decide)
  exact absurd hindex (by decide)

end Finlytic.Gateway
