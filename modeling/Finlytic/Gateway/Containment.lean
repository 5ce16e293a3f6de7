import Finlytic.Gateway.Static
import Finlytic.Lib.Paths

/-! Which files `serveStatic` touches. Whatever the pathname spells, the path that
comes out of `resolveWithin` is made of names, and what follows the root follows
a slash; so it is the root or lies below it by whole names. -/

namespace Finlytic.Gateway

open Lib Posix

def cacheControlOf (pathname : List Char) : String :=
  if "/assets/".toList.isPrefixOf pathname then "public, max-age=31536000, immutable" else "no-cache"

/-- The call for the SPA fallback: its path and its cache control. -/
def indexCalls (root pathname : List Char) (acceptsHtml : Bool) : List (List Char × String) :=
  if !acceptsHtml || extname pathname ≠ [] then []
  else [(join [root, "index.html".toList], "no-cache")]

/-- The calls of `sendFile` that `serveStatic` makes, in order. -/
def sendFileCalls (fs : FileSystem) (root pathname : List Char) (acceptsHtml : Bool) :
    List (List Char × String) :=
  match resolveWithin root pathname with
  | none => []
  | some filePath =>
    if pathname ≠ ['/'] then
      if (sendFile fs filePath (cacheControlOf pathname)).answered then
        [(filePath, cacheControlOf pathname)]
      else (filePath, cacheControlOf pathname) :: indexCalls root pathname acceptsHtml
    else indexCalls root pathname acceptsHtml

/-- What these calls write, and whether one of them answers. -/
def sendAll (fs : FileSystem) (calls : List (List Char × String)) : Sent :=
  ⟨calls.flatMap fun call => (sendFile fs call.1 call.2).written, calls.any fun call =>
    (sendFile fs call.1 call.2).answered⟩

/-- The path is the root, or lies below it by whole names. -/
def Within (root path : List Char) : Prop :=
  ∃ above below, Names (above ++ below) ∧ root = absolutePath above ∧
    path = absolutePath (above ++ below)

variable {fs : FileSystem} {root pathname filePath : List Char} {acceptsHtml : Bool}

/-! ### The calls -/

theorem sendAll_nil : sendAll fs [] = ⟨[], false⟩ := rfl

theorem sendAll_cons (call : List Char × String) (calls : List (List Char × String)) :
    sendAll fs (call :: calls) =
    ⟨(sendFile fs call.1 call.2).written ++ (sendAll fs calls).written,
      (sendFile fs call.1 call.2).answered || (sendAll fs calls).answered⟩ := rfl

theorem sendAll_singleton (path : List Char) (cacheControl : String) :
    sendAll fs [(path, cacheControl)] = sendFile fs path cacheControl := by
  rw [sendAll_cons, sendAll_nil, List.append_nil, Bool.or_false]

theorem fallback_eq :
    fallback fs root pathname acceptsHtml = sendAll fs (indexCalls root pathname acceptsHtml) := by
  unfold fallback indexCalls
  by_cases hno : (!acceptsHtml || decide (extname pathname ≠ [])) = true
  · rw [if_pos hno, if_pos hno, sendAll_nil]
  · rw [if_neg hno, if_neg hno, sendAll_singleton]

/-- The calls are all that `serveStatic` does. -/
theorem serveStatic_eq :
    serveStatic fs root pathname acceptsHtml =
      sendAll fs (sendFileCalls fs root pathname acceptsHtml) := by
  unfold serveStatic sendFileCalls
  cases resolveWithin root pathname with
  | none => rfl
  | some filePath =>
    simp only [fallback_eq]
    by_cases hslash : pathname ≠ ['/']
    · rw [if_pos hslash, if_pos hslash]
      show (if (sendFile fs filePath (cacheControlOf pathname)).answered = true then
        sendFile fs filePath (cacheControlOf pathname)
        else _) = _
      by_cases hanswered : (sendFile fs filePath (cacheControlOf pathname)).answered = true
      · rw [if_pos hanswered, if_pos hanswered, sendAll_singleton]
      · rw [if_neg hanswered, if_neg hanswered, sendAll_cons, Bool.eq_false_iff.mpr hanswered,
          Bool.false_or]
        rfl
    · rw [if_neg hslash, if_neg hslash]

theorem mem_sendFileCalls {call : List Char × String}
    (h : call ∈ sendFileCalls fs root pathname acceptsHtml) :
    ∃ filePath, resolveWithin root pathname = some filePath ∧
      (call = (filePath, cacheControlOf pathname) ∨
        call = (join [root, "index.html".toList], "no-cache")) := by
  have hindex : ∀ index ∈ indexCalls root pathname acceptsHtml, index =
      (join [root, "index.html".toList], "no-cache") := by
    intro index hmem
    unfold indexCalls at hmem
    split_ifs at hmem
    · cases hmem
    · exact List.mem_singleton.mp hmem
  unfold sendFileCalls at h
  cases hresolve : resolveWithin root pathname with
  | none =>
    rw [hresolve] at h
    cases h
  | some filePath =>
    rw [hresolve] at h
    refine ⟨filePath, rfl, ?_⟩
    simp only at h
    split_ifs at h
    · exact .inl (List.mem_singleton.mp h)
    · rcases List.mem_cons.mp h with hfirst | hmore
      · exact .inl hfirst
      · exact .inr (hindex call hmore)
    · exact .inr (hindex call h)

/-! ### Containment -/

theorem resolveWithin_within (hroot : isAbsolute root = true)
    (h : resolveWithin root pathname = some filePath) :
    Within root filePath := by
  obtain ⟨decoded, -, hcandidate⟩ := Option.bind_eq_some_iff.mp h
  have hnames := names_normalizeString (join [root, normalize decoded])
  -- the candidate is made of names
  have hresolve : resolveAbsolute (join [root, normalize decoded]) =
    absolutePath (normalizeString false (join [root, normalize decoded])) := rfl
  rw [hresolve] at hcandidate
  generalize normalizeString false (join [root, normalize decoded]) = names at hcandidate hnames
  simp only at hcandidate
  split_ifs at hcandidate with hinside
  cases hcandidate
  rw [Bool.or_eq_true, decide_eq_true_eq, List.isPrefixOf_iff_prefix] at hinside
  rcases hinside with hsame | ⟨more, hmore⟩
  · refine ⟨names, [], ?_, hsame.symm, ?_⟩
    · rw [List.append_nil]
      exact hnames
    · rw [List.append_nil]
  · rw [List.append_assoc] at hmore
    obtain ⟨above, below, rfl, hbase, -, -⟩ := absolutePath_split hnames hroot hmore.symm
    exact ⟨above, below, hnames, hbase, rfl⟩

theorem isName_index : IsName "index.html".toList := by decide

/-- A root that has something inside also has its index inside. -/
theorem Within.index (h : Within root filePath) :
    Within root (join [root, "index.html".toList]) := by
  obtain ⟨above, below, hnames, rfl, -⟩ := h
  have habove := (names_append.mp hnames).1
  refine ⟨above, ["index.html".toList], ?_, rfl, join_name habove isName_index⟩
  exact names_append.mpr ⟨habove, List.forall_mem_singleton.mpr isName_index⟩

/-- Whatever the pathname spells, every path that is sent is the root or lies below it, and a
pathname that does not decode is not answered. -/
theorem serveStatic_within (fs : FileSystem) (root pathname : List Char) (acceptsHtml : Bool)
    (hroot : isAbsolute root = true) :
    serveStatic fs root pathname acceptsHtml =
      sendAll fs (sendFileCalls fs root pathname acceptsHtml) ∧
      (∀ call ∈ sendFileCalls fs root pathname acceptsHtml, Within root call.1) ∧
      (decodeURIComponent pathname = none → serveStatic fs root pathname acceptsHtml =
        ⟨[], false⟩) := by
  refine ⟨serveStatic_eq, ?_, ?_⟩
  · intro call hcall
    obtain ⟨filePath, hresolve, rfl | rfl⟩ := mem_sendFileCalls hcall
    · exact resolveWithin_within hroot hresolve
    · exact (resolveWithin_within hroot hresolve).index
  · intro hmalformed
    have hresolve : resolveWithin root pathname = none := by
      unfold resolveWithin
      rw [hmalformed]
      rfl
    unfold serveStatic
    rw [hresolve]

/-- A web root with an index, and a file next to it. -/
def sampleFiles : FileSystem :=
  ⟨fun path => if path ∈ ["/srv/web/index.html".toList, "/srv/web/assets/app.js".toList,
    "/srv/web-key.pem".toList] then some (some 64) else none, fun _ => true⟩

theorem serveStatic_within_sample :
    Within "/srv/web".toList "/srv/web/web-key.pem".toList ∧
      serveStatic sampleFiles "/srv/web".toList "/%zz".toList true = ⟨[], false⟩ := by
  have hroot : isAbsolute "/srv/web".toList = true := by decide
  have hcall : ("/srv/web/web-key.pem".toList, "no-cache") ∈
      sendFileCalls sampleFiles "/srv/web".toList "/..%2fweb-key.pem".toList true := by decide
  exact ⟨(serveStatic_within _ _ _ _ hroot).2.1 _ hcall, (serveStatic_within _ _ _ _ hroot).2.2
    (by decide)⟩

end Finlytic.Gateway
