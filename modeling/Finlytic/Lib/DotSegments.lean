import Finlytic.Lib.Url

/-! How dot segments move over a path, and the segments of a path text. -/

namespace Finlytic.Lib.Whatwg

/-! ### Dot segments -/

variable {path pre : List (List Char)} {segment : List Char} {segments : List (List Char)}

/-- Starting that deep, the dot segments never climb above the start. -/
def stays : ℕ → List (List Char) → Bool
  | _, [] => true
  | depth, segment :: rest =>
    if isDoubleDot segment then decide (0 < depth) && stays (depth - 1) rest
    else if isSingleDot segment then stays depth rest
    else stays (depth + 1) rest

theorem shorten_eq_dropLast (path : List (List Char)) : shorten false path = path.dropLast := by
  unfold shorten
  split <;> simp

/-- A dot segment starts with a dot or with a percent sign. -/
theorem head_of_dot {c : Char} {cs : List Char}
    (h : isDoubleDot (c :: cs) = true ∨ isSingleDot (c :: cs) = true) :
    c.toLower = '.' ∨ c.toLower = '%' := by
  have hall : ∀ t ∈ ["..", ".%2e", "%2e.", "%2e%2e", ".", "%2e"], t.toList.head? = some '.' ∨
      t.toList.head? = some '%' := by
    decide
  have hmem : String.ofList ((c :: cs).map Char.toLower) ∈
      ["..", ".%2e", "%2e.", "%2e%2e", ".", "%2e"] := by
    simp only [isDoubleDot, isSingleDot, List.contains_eq_mem, decide_eq_true_eq] at h
    rcases h with h | h
    · exact List.mem_append_left [".", "%2e"] h
    · exact List.mem_append_right ["..", ".%2e", "%2e.", "%2e%2e"] h
  have hhead := hall _ hmem
  rw [String.toList_ofList, List.map_cons, List.head?_cons, Option.some.injEq,
    Option.some.injEq] at hhead
  exact hhead

/-- Outside `file` URLs a double dot drops the last segment, and no segment is a drive. -/
theorem push_eq (path : List (List Char)) (segment : List Char) (last : Bool) :
    push false path segment last =
    if isDoubleDot segment then if last then path.dropLast ++ [[]] else path.dropLast
    else if isSingleDot segment then if last then path ++ [[]] else path
    else path ++ [segment] := by
  unfold push
  rw [shorten_eq_dropLast]
  rfl

/-- A segment that starts with any other character is pushed. -/
theorem push_plain {c : Char} (hc : c.toLower ≠ '.' ∧ c.toLower ≠ '%') (path : List (List Char))
    (cs : List Char) (last : Bool) :
    push false path (c :: cs) last = path ++ [c :: cs] := by
  have hd : ¬ isDoubleDot (c :: cs) = true := fun h => (head_of_dot (.inl h)).elim hc.1 hc.2
  have hs : ¬ isSingleDot (c :: cs) = true := fun h => (head_of_dot (.inr h)).elim hc.1 hc.2
  rw [push_eq, if_neg hd, if_neg hs]

theorem push_append (h : isDoubleDot segment = false) (last : Bool) :
    push false (pre ++ path) segment last = pre ++ push false path segment last := by
  rw [push_eq, push_eq, h]
  cases hs : isSingleDot segment <;> cases last <;> simp

theorem push_append_ne (hne : path ≠ []) (last : Bool) :
    push false (pre ++ path) segment last = pre ++ push false path segment last := by
  cases hd : isDoubleDot segment with
  | false => exact push_append hd last
  | true =>
    rw [push_eq, push_eq, hd, List.dropLast_append_of_ne_nil hne]
    cases last <;> simp

/-- A double dot at the start of the path drops the last segment before it. -/
theorem push_climb (h : isDoubleDot segment = true) (last : Bool) :
    push false (pre ++ []) segment last = pre.dropLast ++ push false [] segment last := by
  rw [push_eq, push_eq, h, List.append_nil]
  cases last <;> simp

theorem length_push : (push false path segment false).length =
    if isDoubleDot segment then path.length - 1 else if isSingleDot segment then path.length
      else path.length + 1 := by
  rw [push_eq]
  cases isDoubleDot segment <;> cases isSingleDot segment <;> simp

/-- What lies below the start is kept while the dot segments stay. -/
theorem walk_append (h : stays path.length segments = true) :
    walk false (pre ++ path) segments = pre ++ walk false path segments := by
  induction segments generalizing path with
  | nil => rfl
  | cons s rest ih =>
    have hpush : ∀ last, push false (pre ++ path) s last = pre ++ push false path s last := by
      intro last
      cases hd : isDoubleDot s with
      | false => exact push_append hd last
      | true =>
        apply push_append_ne
        intro hnil
        rw [hnil, stays, hd] at h
        exact absurd h (by simp)
    cases rest with
    | nil => exact hpush true
    | cons next rest =>
      rw [walk, walk, hpush false]
      apply ih
      rw [length_push]
      rw [stays] at h
      split_ifs at h ⊢
      · exact (Bool.and_eq_true_iff.mp h).2
      · exact h
      · exact h

/-- The path below the start shows in the end only as far as it was not dropped. -/
theorem walk_forget (pre path segments : List (List Char)) :
    ∃ kept, kept <+: pre ∧ walk false (pre ++ path) segments = kept ++
      walk false path segments := by
  induction segments generalizing pre path with
  | nil => exact ⟨pre, List.prefix_rfl, rfl⟩
  | cons s rest ih =>
    have hpush : ∀ last, ∃ kept, kept <+: pre ∧ push false (pre ++ path) s last = kept ++
        push false path s last := by
      intro last
      cases hd : isDoubleDot s with
      | false => exact ⟨pre, List.prefix_rfl, push_append hd last⟩
      | true =>
        by_cases hne : path = []
        · rw [hne]
          exact ⟨pre.dropLast, List.dropLast_prefix pre, push_climb hd last⟩
        · exact ⟨pre, List.prefix_rfl, push_append_ne hne last⟩
    cases rest with
    | nil => exact hpush true
    | cons next rest =>
      obtain ⟨kept, hkept, heq⟩ := hpush false
      obtain ⟨kept', hkept', heq'⟩ := ih kept (push false path s false)
      refine ⟨kept', hkept'.trans hkept, ?_⟩
      rw [walk, walk, heq, heq']

/-- All segments but the last ones, which are not empty, are walked without an end. -/
theorem walk_segments (file : Bool) {front back : List (List Char)} (h : back ≠ []) :
    walk file path (front ++ back) = walk file (front.foldl (push file · · false) path) back := by
  induction front generalizing path with
  | nil => rfl
  | cons s rest ih =>
    rw [List.cons_append, List.foldl_cons, ← ih]
    cases hrest : rest ++ back with
    | nil => exact absurd (List.append_eq_nil_iff.mp hrest).2 h
    | cons next more => rfl

theorem mem_push {last : Bool} {x : List Char} (h : x ∈ push false path segment last) :
    x ∈ path ∨ x = segment ∨ x = [] := by
  rw [push_eq] at h
  split_ifs at h
  · rcases List.mem_append.mp h with h | h
    · exact .inl (List.dropLast_subset _ h)
    · exact .inr (.inr (List.mem_singleton.mp h))
  · exact .inl (List.dropLast_subset _ h)
  · rcases List.mem_append.mp h with h | h
    · exact .inl h
    · exact .inr (.inr (List.mem_singleton.mp h))
  · exact .inl h
  · rcases List.mem_append.mp h with h | h
    · exact .inl h
    · exact .inr (.inl (List.mem_singleton.mp h))

theorem mem_walk {x : List Char} (h : x ∈ walk false path segments) :
    x ∈ path ∨ x ∈ segments ∨ x = [] := by
  induction segments generalizing path with
  | nil => exact .inl h
  | cons s rest ih =>
    cases rest with
    | nil =>
      rcases mem_push h with h | rfl | h
      · exact .inl h
      · exact .inr (.inl List.mem_cons_self)
      · exact .inr (.inr h)
    | cons next rest =>
      rcases ih h with h | h | h
      · rcases mem_push h with h | rfl | h
        · exact .inl h
        · exact .inr (.inl List.mem_cons_self)
        · exact .inr (.inr h)
      · exact .inr (.inl (List.mem_cons_of_mem _ h))
      · exact .inr (.inr h)

/-- A push that leaves a named segment at the root either put it there or kept it. -/
theorem push_head {a : List Char} {rest : List (List Char)} {last : Bool}
    (h : push false path segment last = a :: rest) (hne : a ≠ []) :
    (path = [] ∧ segment = a ∧ rest = []) ∨
      ∃ path', path = a :: path' ∧ (isDoubleDot segment = true → path' ≠ []) ∧
        rest = push false path' segment last := by
  cases path with
  | nil =>
    rw [push_eq] at h
    split_ifs at h
    · exact absurd (List.cons.inj h).1.symm hne
    · cases h
    · exact absurd (List.cons.inj h).1.symm hne
    · obtain ⟨rfl, rfl⟩ := List.cons.inj h
      exact .inl ⟨rfl, rfl, rfl⟩
  | cons b path' =>
    by_cases hclimb : isDoubleDot segment = true ∧ path' = []
    · obtain ⟨hd, rfl⟩ := hclimb
      rw [push_eq, hd] at h
      cases last with
      | true => exact absurd (List.cons.inj h).1.symm hne
      | false => cases h
    · have hpush : push false ([b] ++ path') segment last = [b] ++ push false path' segment last := by
        cases hd : isDoubleDot segment with
        | false => exact push_append hd last
        | true => exact push_append_ne (fun hnil => hclimb ⟨hd, hnil⟩) last
      obtain ⟨rfl, hrest⟩ := List.cons.inj (hpush.symm.trans h)
      exact .inr ⟨path', rfl, fun hd hnil => hclimb ⟨hd, hnil⟩, hrest.symm⟩

theorem stays_cons (h : isDoubleDot segment = true → path ≠ [])
    (hrest : stays (push false path segment false).length segments = true) :
    stays path.length (segment :: segments) = true := by
  rw [length_push] at hrest
  rw [stays]
  split_ifs at hrest ⊢ with hd hs
  · rw [decide_eq_true (List.length_pos_of_ne_nil (h hd)), Bool.true_and]
    exact hrest
  · exact hrest
  · exact hrest

/-- A named first segment was there from the start, or is the last one pushed onto an empty path. -/
theorem walk_head {a : List Char} {rest : List (List Char)}
    (h : walk false path segments = a :: rest) (hne : a ≠ []) :
    (∃ path', path = a :: path' ∧ stays path'.length segments = true ∧
      rest = walk false path' segments) ∨
      ∃ front back, segments = front ++ a :: back ∧ front.foldl (push false · · false) path = [] ∧
        stays 0 back = true ∧ rest = walk false [] back := by
  induction segments generalizing path with
  | nil => exact .inl ⟨rest, h, rfl, rfl⟩
  | cons s more ih =>
    cases more with
    | nil =>
      rcases push_head h hne with ⟨rfl, rfl, rfl⟩ | ⟨path', rfl, hdot, hrest⟩
      · exact .inr ⟨[], [], rfl, rfl, rfl, rfl⟩
      · exact .inl ⟨path', rfl, stays_cons hdot rfl, hrest⟩
    | cons next more =>
      rcases ih h with ⟨kept, hkept, hstays, hrest⟩ | ⟨front, back, hsplit, hfold, hstays, hrest⟩
      · rcases push_head hkept hne with ⟨rfl, rfl, rfl⟩ | ⟨path', rfl, hdot, rfl⟩
        · exact .inr ⟨[], next :: more, rfl, rfl, hstays, hrest⟩
        · exact .inl ⟨path', rfl, stays_cons hdot hstays, hrest⟩
      · exact .inr ⟨s :: front, back, by rw [hsplit, List.cons_append], hfold, hstays, hrest⟩

/-- A segment walked before others that stay below it makes the path longer. -/
theorem length_walk_lt {a : List Char} {front back : List (List Char)}
    (ha : ∀ path last, push false path a last = path ++ [a]) (h : stays 0 back = true) :
    (walk false [] back).length < (walk false path (front ++ a :: back)).length := by
  cases back with
  | nil =>
    rw [walk_segments false (List.cons_ne_nil a [])]
    show 0 < (push false _ a true).length
    rw [ha, List.length_append]
    exact Nat.succ_pos _
  | cons b bs =>
    have hsplit : front ++ a :: b :: bs = (front ++ [a]) ++ b :: bs := by
      rw [List.append_assoc]
      rfl
    rw [hsplit, walk_segments false (List.cons_ne_nil b bs), List.foldl_append, List.foldl_cons,
      List.foldl_nil, ha]
    have hwalk := @walk_append [] (front.foldl (push false · · false) path ++ [a]) _ h
    rw [List.append_nil] at hwalk
    rw [hwalk, List.length_append, List.length_append, List.length_singleton]
    omega

/-! ### The segments of a text -/

/-- The encoded segments of a path text of a special URL, up to its query. -/
def segmentsOf (text : List Char) : List (List Char) :=
  (splitSlash true (text.takeWhile fun c => !isPathEnd c)).map (percentEncode pathSet)

/-- A text within one segment. -/
def Plain (text : List Char) : Prop := ∀ c ∈ text, isSlash true c = false ∧ isPathEnd c = false

theorem Plain.takeWhile_append {x : List Char} (h : Plain x) (y : List Char) :
    (x ++ y).takeWhile (fun c => !isPathEnd c) = x ++ y.takeWhile fun c => !isPathEnd c := by
  apply List.takeWhile_append_of_pos
  intro c hc
  rw [(h c hc).2]
  rfl

theorem isPathEnd_of_isSlash {c : Char} (h : isSlash true c = true) : isPathEnd c = false := by
  simp only [isSlash, Bool.true_and, Bool.or_eq_true, decide_eq_true_eq] at h
  rcases h with rfl | rfl <;> rfl

theorem Plain.dropWhile_append {x : List Char} (h : Plain x) (y : List Char) :
    (x ++ y).dropWhile (fun c => !isPathEnd c) = y.dropWhile fun c => !isPathEnd c := by
  apply List.dropWhile_append_of_pos
  intro c hc
  rw [(h c hc).2]
  rfl

theorem dropWhile_slash {c : Char} (hc : isSlash true c = true) (y : List Char) :
    (c :: y).dropWhile (fun c => !isPathEnd c) = y.dropWhile fun c => !isPathEnd c := by
  rw [List.dropWhile_cons, isPathEnd_of_isSlash hc]
  rfl

theorem dropWhile_slashes {slashes : List Char} (h : ∀ c ∈ slashes, isSlash true c = true)
    (y : List Char) :
    (slashes ++ y).dropWhile (fun c => !isPathEnd c) = y.dropWhile fun c => !isPathEnd c := by
  apply List.dropWhile_append_of_pos
  intro c hc
  rw [isPathEnd_of_isSlash (h c hc)]
  rfl

/-- Slashes, an authority, and what ends it. -/
theorem split_authority (ds : List Char) :
    ∃ slashes authority after, ds = slashes ++ (authority ++ after) ∧
    (∀ c ∈ slashes, isSlash true c = true) ∧ Plain authority ∧
    (∀ c ∈ after.head?, isSlash true c = true ∨ isPathEnd c = true) ∧
    (ds.dropWhile (isSlash true)).takeWhile (fun c => !isAuthorityEnd true c) = authority ∧
    (ds.dropWhile (isSlash true)).dropWhile (fun c => !isAuthorityEnd true c) = after := by
  refine ⟨ds.takeWhile (isSlash true), (ds.dropWhile (isSlash true)).takeWhile fun c =>
    !isAuthorityEnd true c,
    (ds.dropWhile (isSlash true)).dropWhile fun c => !isAuthorityEnd true c, ?_, ?_, ?_, ?_, rfl, rfl⟩
  · rw [List.takeWhile_append_dropWhile, List.takeWhile_append_dropWhile]
  · intro c hc
    exact List.mem_takeWhile_imp hc
  · intro c hc
    have hend := List.mem_takeWhile_imp hc
    simpa only [isAuthorityEnd, Bool.not_eq_true', Bool.or_eq_false_iff] using hend
  · intro c hc
    have hend :=
      List.head?_dropWhile_not (fun c => !isAuthorityEnd true c) (ds.dropWhile (isSlash true))
    rw [Option.mem_def.mp hc] at hend
    simpa only [isAuthorityEnd, Bool.not_eq_false', Bool.or_eq_true] using hend

/-- A slash ends the first segment. -/
theorem segmentsOf_append {x : List Char} (hx : Plain x) {c : Char} (hc : isSlash true c = true)
    (y : List Char) :
    segmentsOf (x ++ c :: y) = percentEncode pathSet x :: segmentsOf y := by
  unfold segmentsOf splitSlash
  rw [hx.takeWhile_append, List.takeWhile_cons, isPathEnd_of_isSlash hc, Bool.not_false, if_pos rfl,
    List.splitOnP_append_cons_of_forall_mem (fun d hd => (hx d hd).1) c hc, List.map_cons]

theorem segmentsOf_plain {x : List Char} (hx : Plain x) {y : List Char}
    (hy : ∀ c ∈ y.head?, isPathEnd c = true) :
    segmentsOf (x ++ y) = [percentEncode pathSet x] := by
  have hend : y.takeWhile (fun c => !isPathEnd c) = [] := by
    cases y with
    | nil => rfl
    | cons c cs =>
      rw [List.takeWhile_cons, hy c rfl]
      rfl
  unfold segmentsOf splitSlash
  rw [hx.takeWhile_append, hend, List.append_nil, List.splitOnP_eq_singleton fun c hc => (hx c hc).1]
  rfl

theorem hexDigit_ne : ∀ n < 16, hexDigit n ≠ '/' := by decide

theorem slash_not_mem_percentEncode {set : Char → Bool} {text : List Char} (h : '/' ∉ text) :
    '/' ∉ percentEncode set text := by
  intro hmem
  obtain ⟨c, hc, hin⟩ := List.mem_flatMap.mp hmem
  split_ifs at hin
  · obtain ⟨b, -, hb⟩ := List.mem_flatMap.mp hin
    simp only [percentByte, List.mem_cons, List.not_mem_nil, or_false] at hb
    rcases hb with hb | hb | hb
    · cases hb
    · exact hexDigit_ne _ (by have := b.toNat_lt; omega) hb.symm
    · exact hexDigit_ne _ (Nat.mod_lt _ (by decide)) hb.symm
  · rw [List.mem_singleton] at hin
    exact h (hin ▸ hc)

/-- A text without a percent sign was not encoded. -/
theorem eq_of_percentEncode {set : Char → Bool} {text plain : List Char}
    (h : percentEncode set text = plain) (hp : '%' ∉ plain) : text = plain := by
  induction text generalizing plain with
  | nil => exact h
  | cons c cs ih =>
    have hcons : percentEncode set (c :: cs) =
        (if set c then (String.utf8EncodeChar c).flatMap percentByte else [c]) ++
          percentEncode set cs := rfl
    rw [hcons] at h
    by_cases hc : set c = true
    · exfalso
      rw [if_pos hc] at h
      have hne : String.utf8EncodeChar c ≠ [] := by
        intro hnil
        have hlen := String.length_utf8EncodeChar c
        rw [hnil] at hlen
        exact absurd hlen.symm (Nat.ne_of_gt c.utf8Size_pos)
      obtain ⟨b, bs, hb⟩ := List.exists_cons_of_ne_nil hne
      rw [hb] at h
      rw [← h] at hp
      exact hp List.mem_cons_self
    · rw [if_neg hc] at h
      cases plain with
      | nil => cases h
      | cons d ds =>
        obtain ⟨rfl, htail⟩ := List.cons.inj h
        rw [ih htail fun hm => hp (List.mem_cons_of_mem _ hm)]

theorem segmentsOf_ne_nil (text : List Char) : segmentsOf text ≠ [] := by
  unfold segmentsOf splitSlash
  rw [Ne, List.map_eq_nil_iff]
  exact List.splitOnP_ne_nil _ _

theorem segmentsOf_slash {c : Char} (hc : isSlash true c = true) (y : List Char) :
    segmentsOf (c :: y) = [] :: segmentsOf y :=
  @segmentsOf_append [] (by simp [Plain]) c hc y

/-- A walk below an empty segment ends there, or forgets what came before. -/
theorem walk_below_empty {name : List Char} {more : List (List Char)}
    (hpath : path = [] ∨ path.head? = some []) (h : walk false path segments = name :: more)
    (hne : name ≠ []) : walk false [] segments = name :: more := by
  obtain ⟨kept, hkept, heq⟩ := walk_forget path [] segments
  rw [List.append_nil, h] at heq
  cases kept with
  | nil => exact heq.symm
  | cons k ks =>
    obtain ⟨tail, htail⟩ := hkept
    exfalso
    rcases hpath with hnil | hhead
    · rw [hnil] at htail
      cases htail
    · rw [← htail] at hhead
      have hk : k = [] := Option.some.inj hhead
      exact hne ((List.cons.inj heq).1.trans hk)

theorem push_below_empty (hpath : path.head? = some []) (segment : List Char) :
    push false path segment false = [] ∨ (push false path segment false).head? = some [] := by
  obtain ⟨k, ks, rfl⟩ :=
    List.exists_cons_of_ne_nil (fun hnil : path = [] => by rw [hnil] at hpath; cases hpath)
  have hk : k = [] := Option.some.inj hpath
  subst hk
  rw [push_eq]
  simp only [Bool.false_eq_true, if_false]
  split_ifs
  · cases ks with
    | nil => exact .inl rfl
    | cons k' ks' => exact .inr rfl
  · exact .inr rfl
  · exact .inr rfl

theorem head_push_last (hpath : path.head? = some []) (segment : List Char) :
    (push false path segment true).head? = some [] := by
  obtain ⟨k, ks, rfl⟩ :=
    List.exists_cons_of_ne_nil (fun hnil : path = [] => by rw [hnil] at hpath; cases hpath)
  have hk : k = [] := Option.some.inj hpath
  subst hk
  rw [push_eq]
  simp only [if_true]
  split_ifs
  · cases ks with
    | nil => rfl
    | cons k' ks' => rfl
  · rfl
  · rfl

/-- Slashes, one segment and a path: walked below an empty segment, only the path after that
segment can lead to a named first segment. -/
theorem walk_authority {slashes authority rest : List Char}
    (hslashes : ∀ c ∈ slashes, isSlash true c = true) (hplain : Plain authority)
    (hrest : ∀ c ∈ rest.head?, isSlash true c = true ∨ isPathEnd c = true)
    (hpath : path.head? = some []) {name : List Char} {more : List (List Char)}
    (h : walk false path (segmentsOf (slashes ++ (authority ++ rest))) = name :: more)
    (hne : name ≠ []) :
    ∃ c after, rest = c :: after ∧ isSlash true c = true ∧ walk false [] (segmentsOf after) =
      name :: more := by
  induction slashes generalizing path with
  | nil =>
    rw [List.nil_append] at h
    by_cases hend : ∀ c ∈ rest.head?, isPathEnd c = true
    · rw [segmentsOf_plain hplain hend] at h
      have hhead := head_push_last hpath (percentEncode pathSet authority)
      have hpush : push false path (percentEncode pathSet authority) true = name :: more := h
      rw [hpush] at hhead
      exact absurd (Option.some.inj hhead) hne
    · cases rest with
      | nil => exact absurd (by simp) hend
      | cons c after =>
        have hc : isSlash true c = true := by
          rcases hrest c rfl with hc | hc
          · exact hc
          · exact absurd (by simpa using hc) hend
        refine ⟨c, after, rfl, hc, ?_⟩
        rw [segmentsOf_append hplain hc] at h
        have hwalk : walk false (push false path (percentEncode pathSet authority) false)
            (segmentsOf after) = name :: more := by
          rw [← h]
          exact (@walk_segments path false
            [percentEncode pathSet authority] _ (segmentsOf_ne_nil after)).symm
        exact walk_below_empty (push_below_empty hpath _) hwalk hne
  | cons d ds ih =>
    rw [List.cons_append, segmentsOf_slash (hslashes d List.mem_cons_self)] at h
    have hhead : (push false path [] false).head? = some [] := by
      obtain ⟨k, ks, rfl⟩ :=
        List.exists_cons_of_ne_nil (fun hnil : path = [] => by rw [hnil] at hpath; cases hpath)
      exact hpath
    have hwalk :=
      (@walk_segments path false [[]] _ (segmentsOf_ne_nil (ds ++ (authority ++ rest)))).symm.trans
      h
    exact ih (fun c hc => hslashes c (List.mem_cons_of_mem _ hc)) hhead hwalk

theorem takeWhile_pathEnd {z : List Char} (hz : ∀ b ∈ z, isPathEnd b = false) (rest : List Char) :
    (z ++ rest).takeWhile (fun c => !isPathEnd c) = z ++ rest.takeWhile fun c => !isPathEnd c := by
  apply List.takeWhile_append_of_pos
  intro b hb
  rw [hz b hb]
  rfl

theorem segmentsOf_append_slash {z : List Char} (hz : ∀ b ∈ z, isPathEnd b = false) {c : Char}
    (hc : isSlash true c = true) (rest : List Char) :
    segmentsOf (z ++ c :: rest) = (splitSlash true z).map (percentEncode pathSet) ++
      segmentsOf rest := by
  unfold segmentsOf splitSlash
  rw [takeWhile_pathEnd hz, List.takeWhile_cons, isPathEnd_of_isSlash hc, Bool.not_false, if_pos rfl,
    List.splitOnP_append_cons _ _ hc, List.map_append]

/-- What stands before a whole segment. -/
def Lead (z : List Char) : Prop := z = [] ∨ ∃ z' c, z = z' ++ [c] ∧ isSlash true c = true

/-- A segment of the text, wherever it stands. -/
theorem segmentsOf_lead {z a : List Char} (hz : Lead z) (hend : ∀ b ∈ z, isPathEnd b = false)
    (ha : Plain a) {c : Char} (hc : isSlash true c = true) (y : List Char) :
    ∃ front, segmentsOf (z ++ (a ++ c :: y)) = front ++ percentEncode pathSet a ::
      segmentsOf y := by
  rcases hz with rfl | ⟨z', c', rfl, hc'⟩
  · exact ⟨[], segmentsOf_append ha hc y⟩
  · refine ⟨(splitSlash true z').map (percentEncode pathSet), ?_⟩
    have hend' : ∀ b ∈ z', isPathEnd b = false := fun b hb => hend b (List.mem_append_left _ hb)
    rw [List.append_assoc, List.singleton_append, segmentsOf_append_slash hend' hc',
      segmentsOf_append ha hc]

/-- Where a segment of a list stands in the text. -/
theorem segmentsOf_split {x a : List Char} {front back : List (List Char)}
    (h : segmentsOf x = front ++ a :: back) (hback : back ≠ []) (ha : '%' ∉ a) :
    ∃ q c y, x = q ++ (a ++ c :: y) ∧ isSlash true c = true ∧ segmentsOf y = back ∧
      (∀ b ∈ q, isPathEnd b = false) ∧
      (q = [] ∨ ∃ q' c', q = q' ++ [c'] ∧ isSlash true c' = true ∧
        (splitSlash true q').map (percentEncode pathSet) = front) := by
  unfold segmentsOf at h
  obtain ⟨front', rest', hsplit, hfront, hrest⟩ := List.map_eq_append_iff.mp h
  obtain ⟨a', back', rfl, ha', hback'⟩ := List.map_eq_cons_iff.mp hrest
  obtain rfl := eq_of_percentEncode ha' ha
  obtain ⟨q, y, htext, hq, hy⟩ := splitOnP_eq_append hsplit
  have hend : ∀ b ∈ q ++ (a' ++ y), isPathEnd b = false := by
    intro b hb
    rw [← htext] at hb
    simpa using List.mem_takeWhile_imp hb
  rcases hy with ⟨rfl, -⟩ | ⟨c, y', rfl, hc, hy'⟩
  · exact absurd hback'.symm hback
  · refine ⟨q, c, y' ++ x.dropWhile (fun c => !isPathEnd c), ?_, hc, ?_, fun b hb =>
      hend b (List.mem_append_left _ hb), ?_⟩
    · have hx := List.takeWhile_append_dropWhile (p := fun c => !isPathEnd c) (l := x)
      rw [htext] at hx
      rw [← List.cons_append, ← List.append_assoc, ← List.append_assoc, List.append_assoc q]
      exact hx.symm
    · have hend' : ∀ b ∈ y', isPathEnd b = false := by
        intro b hb
        apply hend b
        simp [hb]
      have htail : (x.dropWhile fun c => !isPathEnd c).takeWhile (fun c => !isPathEnd c) = [] := by
        cases hd : x.dropWhile fun c => !isPathEnd c with
        | nil => rfl
        | cons b bs =>
          have hhead := List.head?_dropWhile_not (fun c => !isPathEnd c) x
          rw [hd] at hhead
          rw [List.takeWhile_cons, hhead]
          rfl
      unfold segmentsOf splitSlash
      rw [takeWhile_pathEnd hend', htail, List.append_nil, hy', hback']
    · rcases hq with ⟨-, rfl⟩ | ⟨q', c', rfl, hc', hq'⟩
      · exact .inl rfl
      · exact .inr ⟨q', c', rfl, hc', by rw [splitSlash, hq', hfront]⟩

/-- A text whose segments all drop out does not end in a slash. -/
theorem last_of_dropped {q : List Char}
    (h : ((splitSlash true q).map (percentEncode pathSet)).foldl (push false · · false) [] = []) :
    ∃ q' b, q = q' ++ [b] ∧ isSlash true b = false := by
  have hempty : ∀ path : List (List Char), push false path [] false = path ++ [[]] := fun path => by
    rw [push_eq]
    rfl
  induction q using List.reverseRecOn with
  | nil =>
    exfalso
    have hnil : ((splitSlash true []).map (percentEncode pathSet)).foldl (push false · · false) [] =
        [[]] := rfl
    rw [hnil] at h
    cases h
  | append_singleton q b _ =>
    cases hb : isSlash true b with
    | false => exact ⟨q, b, rfl, hb⟩
    | true =>
      exfalso
      have hsplit : splitSlash true (q ++ [b]) = splitSlash true q ++ [[]] := by
        unfold splitSlash
        rw [List.splitOnP_append_cons _ _ hb]
        rfl
      rw [hsplit, List.map_append, List.foldl_append] at h
      have hpush : ∀ path : List (List Char),
          ([[]].map (percentEncode pathSet)).foldl (push false · · false) path = path ++ [[]] := hempty
      rw [hpush] at h
      exact absurd (List.append_eq_nil_iff.mp h).2 (List.cons_ne_nil _ _)

/-! ### Path names -/

/-- What follows a segment in a path name. -/
def AtBoundary (y : List Char) : Prop := ∀ c ∈ y.head?, c = '/'

theorem atBoundary_pathname (segments : List (List Char)) :
    AtBoundary (Path.list segments).pathname := by
  cases segments with
  | nil => simp [AtBoundary, Path.pathname]
  | cons s rest => simp [AtBoundary, Path.pathname]

theorem takeWhile_boundary {x y : List Char} (hx : '/' ∉ x) (hy : AtBoundary y) :
    (x ++ y).takeWhile (· ≠ '/') = x := by
  have hend : y.takeWhile (· ≠ '/') = [] := by
    cases y with
    | nil => rfl
    | cons c cs =>
      rw [List.takeWhile_cons, hy c rfl]
      rfl
  rw [List.takeWhile_append_of_pos, hend, List.append_nil]
  intro c hc
  exact decide_eq_true fun he => hx (he ▸ hc)

theorem append_boundary_inj {x₁ x₂ y₁ y₂ : List Char} (hx₁ : '/' ∉ x₁) (hx₂ : '/' ∉ x₂)
    (hy₁ : AtBoundary y₁) (hy₂ : AtBoundary y₂) (h : x₁ ++ y₁ = x₂ ++ y₂) : x₁ = x₂ ∧ y₁ = y₂ := by
  have hx : x₁ = x₂ := by rw [← takeWhile_boundary hx₁ hy₁, h, takeWhile_boundary hx₂ hy₂]
  subst hx
  exact ⟨rfl, List.append_cancel_left h⟩

/-- The first segment of a path name that starts with a whole segment. -/
theorem segments_of_pathname {x y : List Char} (hseg : ∀ s ∈ segments, '/' ∉ s) (hx : '/' ∉ x)
    (hy : AtBoundary y) (h : (Path.list segments).pathname = '/' :: (x ++ y)) :
    ∃ rest, segments = x :: rest ∧ (Path.list rest).pathname = y := by
  cases segments with
  | nil => cases h
  | cons s rest =>
    have hcons : (Path.list (s :: rest)).pathname = '/' :: (s ++ (Path.list rest).pathname) := rfl
    rw [hcons] at h
    obtain ⟨rfl, hrest⟩ := append_boundary_inj (hseg s List.mem_cons_self) hx
      (atBoundary_pathname rest) hy (List.cons.inj h).2
    exact ⟨rest, rfl, hrest⟩

theorem pathname_inj {a b : List (List Char)} (ha : ∀ s ∈ a, '/' ∉ s) (hb : ∀ s ∈ b, '/' ∉ s)
    (h : (Path.list a).pathname = (Path.list b).pathname) : a = b := by
  induction b generalizing a with
  | nil =>
    cases a with
    | nil => rfl
    | cons s rest => cases h
  | cons t rest ih =>
    obtain ⟨more, rfl, hmore⟩ :=
      segments_of_pathname ha (hb t List.mem_cons_self) (atBoundary_pathname rest) h
    rw [ih (fun s hs => ha s (List.mem_cons_of_mem _ hs))
      (fun s hs => hb s (List.mem_cons_of_mem _ hs)) hmore]

/-- No slash stands in a segment of a walked text. -/
theorem slash_not_mem_walk {text s : List Char} (h : s ∈ walk false [] (segmentsOf text)) :
    '/' ∉ s := by
  rcases mem_walk h with h | h | rfl
  · cases h
  · obtain ⟨piece, hpiece, rfl⟩ := List.mem_map.mp h
    apply slash_not_mem_percentEncode
    intro hmem
    exact absurd (not_of_mem_splitOnP hpiece '/' hmem) (by decide)
  · simp

end Finlytic.Lib.Whatwg
