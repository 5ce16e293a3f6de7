import Finlytic.Lib.Posix

/-! Absolute paths as lists of names. Resolving an absolute path leaves names
only, so that one path lies below another exactly when its names go on. -/

namespace Finlytic.Lib.Posix

variable {path base segment : List Char} {names names' kept segments : List (List Char)}
  {above : Bool}

/-- A segment that names an entry of a directory. -/
def IsName (segment : List Char) : Prop := segment ≠ [] ∧ segment ≠ ['.'] ∧ segment ≠ ['.', '.'] ∧
    '/' ∉ segment

def Names (names : List (List Char)) : Prop := ∀ name ∈ names, IsName name

instance (segment : List Char) : Decidable (IsName segment) := inferInstanceAs (Decidable (_ ∧ _))

instance (names : List (List Char)) : Decidable (Names names) :=
  inferInstanceAs (Decidable (∀ name ∈ names, IsName name))

def absolutePath (names : List (List Char)) : List Char := '/' :: ['/'].intercalate names

theorem names_nil : Names [] := List.forall_mem_nil _

theorem names_append : Names (names ++ names') ↔ Names names ∧ Names names' := List.forall_mem_append

theorem names_reverse : Names names.reverse ↔ Names names := by
  unfold Names
  simp only [List.mem_reverse]

/-! ### Walking over segments -/

theorem normalizeSegment_nil : normalizeSegment above kept [] = kept := rfl

theorem normalizeSegment_name (h : IsName segment) :
    normalizeSegment above kept segment = segment :: kept := by
  obtain ⟨hnil, hdot, hdots, -⟩ := h
  simp [normalizeSegment, hnil, hdot, hdots]

theorem foldl_names (h : Names names) :
    names.foldl (normalizeSegment above) kept = names.reverse ++ kept := by
  induction names generalizing kept with
  | nil => rfl
  | cons name names ih =>
    obtain ⟨hname, hnames⟩ := List.forall_mem_cons.mp h
    rw [List.foldl_cons, normalizeSegment_name hname, ih hnames, List.reverse_cons, List.append_assoc]
    rfl

/-- Above the top there is nothing, so what is kept are names. -/
theorem Names.normalizeSegment (h : Names kept) (hslash : '/' ∉ segment) :
    Names (normalizeSegment false kept segment) := by
  unfold Posix.normalizeSegment
  by_cases hskip : segment = [] ∨ segment = ['.']
  · rw [if_pos (by simpa using hskip)]
    exact h
  · rw [if_neg (by simpa using hskip)]
    rw [not_or] at hskip
    by_cases hdots : segment = ['.', '.']
    · rw [if_pos hdots]
      cases kept with
      | nil => exact names_nil
      | cons top rest =>
        obtain ⟨htop, hrest⟩ := List.forall_mem_cons.mp h
        show Names (if top = ['.', '.'] then _ else rest)
        rw [if_neg htop.2.2.1]
        exact hrest
    · rw [if_neg hdots]
      exact List.forall_mem_cons.mpr ⟨⟨hskip.1, hskip.2, hdots, hslash⟩, h⟩

theorem Names.foldl (h : Names kept) (hslash : ∀ segment ∈ segments, '/' ∉ segment) :
    Names (segments.foldl (Posix.normalizeSegment false) kept) := by
  induction segments generalizing kept with
  | nil => exact h
  | cons segment segments ih =>
    obtain ⟨hhead, htail⟩ := List.forall_mem_cons.mp hslash
    exact ih (h.normalizeSegment hhead) htail

theorem slash_not_mem_splitOn (h : segment ∈ path.splitOn '/') : '/' ∉ segment := by
  rw [List.splitOn_eq_splitOnP] at h
  intro hmem
  have hno := not_of_mem_splitOnP h '/' hmem
  rw [beq_self_eq_true] at hno
  cases hno

theorem names_normalizeString (path : List Char) : Names (normalizeString false path) := by
  unfold normalizeString
  rw [names_reverse]
  exact names_nil.foldl fun segment hsegment => slash_not_mem_splitOn hsegment

theorem normalizeString_slash (base path : List Char) :
    normalizeString false (base ++ '/' :: path) =
    ((path.splitOn '/').foldl (normalizeSegment false)
      (normalizeString false base).reverse).reverse := by
  unfold normalizeString
  rw [List.splitOn_append_cons_self, List.foldl_append, List.reverse_reverse]

/-! ### Paths made of names -/

theorem splitOn_absolutePath (h : Names names) (hne : names ≠ []) :
    (absolutePath names).splitOn '/' = [] :: names := by
  have hsplit := @List.splitOn_append_cons_self _ _ _ '/' [] (['/'].intercalate names)
  rw [List.nil_append] at hsplit
  rw [absolutePath, hsplit, List.splitOn_intercalate _ (fun name hname => (h name hname).2.2.2) hne]
  rfl

/-- A walk over the segments of such a path puts its names on top. -/
theorem foldl_absolutePath (h : Names names) :
    ((absolutePath names).splitOn '/').foldl (normalizeSegment false) kept = names.reverse ++
      kept := by
  by_cases hne : names = []
  · rw [hne]
    rfl
  · rw [splitOn_absolutePath h hne, List.foldl_cons, normalizeSegment_nil]
    exact foldl_names h

theorem normalizeString_absolutePath (h : Names names) :
    normalizeString false (absolutePath names) = names := by
  unfold normalizeString
  rw [foldl_absolutePath h, List.append_nil, List.reverse_reverse]

theorem absolutePath_inj (h : Names names) (h' : Names names')
    (heq : absolutePath names = absolutePath names') :
    names = names' := by
  rw [← normalizeString_absolutePath h, heq, normalizeString_absolutePath h']

/-- A path of names that goes on after a slash: the slash ends one of its names. -/
theorem absolutePath_split (h : Names names) (hbase : isAbsolute base = true)
    (heq : absolutePath names = base ++ '/' :: path) :
    ∃ front back, names = front ++ back ∧ base = absolutePath front ∧ front ≠ [] ∧ back ≠ [] := by
  cases base with
  | nil => cases hbase
  | cons c cs =>
    obtain rfl : c = '/' := Option.some.inj (of_decide_eq_true hbase)
    have hne : names ≠ [] := by
      rintro rfl
      have hlen := congrArg List.length heq
      simp [absolutePath] at hlen
    have hsplit := splitOn_absolutePath h hne
    have hcs : ('/' :: cs).splitOn '/' = [] :: cs.splitOn '/' :=
      @List.splitOn_append_cons_self _ _ _ '/' [] cs
    rw [heq, List.splitOn_append_cons_self, hcs, List.cons_append, List.cons.injEq] at hsplit
    refine ⟨cs.splitOn '/', path.splitOn '/', hsplit.2.symm, ?_, List.splitOn_ne_nil _ _,
      List.splitOn_ne_nil _ _⟩
    rw [absolutePath, List.intercalate_splitOn]

theorem intercalate_append (hne : names ≠ []) (hne' : names' ≠ []) :
    ['/'].intercalate (names ++ names') = ['/'].intercalate names ++ '/' ::
      ['/'].intercalate names' := by
  induction names with
  | nil => exact absurd rfl hne
  | cons name names ih =>
    by_cases hnil : names = []
    · rw [hnil, List.singleton_append, List.intercalate_cons_of_ne_nil hne',
        List.intercalate_singleton, List.append_assoc]
      rfl
    · have happend : names ++ names' ≠ [] := fun h => hnil (List.append_eq_nil_iff.mp h).1
      rw [List.cons_append, List.intercalate_cons_of_ne_nil happend,
        List.intercalate_cons_of_ne_nil hnil, ih hnil]
      simp only [List.append_assoc]

/-- More names go on after a slash. -/
theorem absolutePath_append (hne : names ≠ []) (hne' : names' ≠ []) :
    absolutePath (names ++ names') = absolutePath names ++ '/' :: ['/'].intercalate names' := by
  rw [absolutePath, intercalate_append hne hne']
  rfl

/-! ### `normalize` and `resolve` -/

/-- An absolute path keeps its names, and its last slash. -/
theorem normalize_absolute (h : isAbsolute path = true) :
    ∃ tail, normalize path = absolutePath (normalizeString false path) ++ tail ∧
    (tail = [] ∨ tail = ['/']) ∧ (path.getLast? ≠ some '/' → tail = []) := by
  have hne : path ≠ [] := by
    rintro rfl
    cases h
  unfold normalize
  simp only [h, Bool.not_true, if_neg hne, if_true]
  by_cases hbody : ['/'].intercalate (normalizeString false path) = []
  · refine ⟨[], ?_, .inl rfl, fun _ => rfl⟩
    rw [if_pos hbody, absolutePath, hbody]
    rfl
  · rw [if_neg hbody]
    refine ⟨if path.getLast? = some '/' then ['/'] else [], ?_, ?_, fun hlast => if_neg hlast⟩
    · simp [absolutePath]
    · by_cases hlast : path.getLast? = some '/'
      · exact .inr (if_pos hlast)
      · exact .inl (if_neg hlast)

/-- A walk over a normalised absolute path puts its names on top. -/
theorem foldl_normalize (h : isAbsolute path = true) :
    ((normalize path).splitOn '/').foldl (normalizeSegment false) kept =
      (normalizeString false path).reverse ++ kept := by
  obtain ⟨tail, hnormal, htail, -⟩ := normalize_absolute h
  rw [hnormal]
  rcases htail with rfl | rfl
  · rw [List.append_nil, foldl_absolutePath (names_normalizeString path)]
  · rw [List.splitOn_append_cons_self, List.foldl_append,
      foldl_absolutePath (names_normalizeString path)]
    rfl

theorem resolveAbsolute_normalize (h : isAbsolute path = true) :
    resolveAbsolute (normalize path) = absolutePath (normalizeString false path) := by
  show absolutePath (normalizeString false (normalize path)) = _
  rw [normalizeString, foldl_normalize h, List.append_nil, List.reverse_reverse]

theorem isAbsolute_append (h : isAbsolute base = true) : isAbsolute (base ++ path) = true := by
  cases base with
  | nil => cases h
  | cons c cs => exact h

/-- `join` of a directory and something below it. -/
theorem join_pair (hbase : base ≠ []) (hpath : path ≠ []) :
    join [base, path] = normalize (base ++ '/' :: path) := by
  have hpresent : [base, path].filter (· ≠ []) = [base, path] := by simp [hbase, hpath]
  unfold join
  rw [hpresent, if_neg (List.cons_ne_nil _ _), List.intercalate_cons_cons,
    List.intercalate_singleton, List.append_assoc]
  rfl

/-- Below a directory, an absolute path puts its names on top of those of the directory. -/
theorem resolveAbsolute_join (hbase : isAbsolute base = true) (hpath : isAbsolute path = true) :
    resolveAbsolute (join [base, normalize path]) =
      absolutePath (normalizeString false base ++ normalizeString false path) := by
  have hbase_ne : base ≠ [] := by
    rintro rfl
    cases hbase
  have hpath_ne : normalize path ≠ [] := by
    obtain ⟨tail, hnormal, -⟩ := normalize_absolute hpath
    rw [hnormal]
    exact List.cons_ne_nil _ _
  rw [join_pair hbase_ne hpath_ne, resolveAbsolute_normalize (isAbsolute_append hbase),
    normalizeString_slash,
    foldl_normalize hpath, List.reverse_append, List.reverse_reverse, List.reverse_reverse]

/-- The path of an entry of a directory. -/
theorem join_name (h : Names names) (hname : IsName segment) :
    join [absolutePath names, segment] = absolutePath (names ++ [segment]) := by
  have hsegment : segment.splitOn '/' = [segment] := List.splitOn_eq_singleton hname.2.2.2
  have hwalk : normalizeString false (absolutePath names ++ '/' :: segment) = names ++ [segment] := by
    rw [normalizeString_slash, normalizeString_absolutePath h, hsegment, List.foldl_cons,
      List.foldl_nil,
      normalizeSegment_name hname, List.reverse_cons, List.reverse_reverse]
  have hlast : (absolutePath names ++ '/' :: segment).getLast? ≠ some '/' := by
    intro hslash
    rw [← List.singleton_append, ← List.append_assoc,
      List.getLast?_append_of_ne_nil _ hname.1] at hslash
    exact hname.2.2.2 (List.mem_of_mem_getLast? hslash)
  obtain ⟨tail, hnormal, -, htail⟩ := @normalize_absolute (absolutePath names ++ '/' :: segment) rfl
  have hbase : absolutePath names ≠ [] := List.cons_ne_nil _ _
  rw [join_pair hbase hname.1, hnormal, htail hlast, List.append_nil, hwalk]

end Finlytic.Lib.Posix
