import Finlytic.Gateway.Proxy

/-! Request framing across the proxy. `transfer-encoding` is stripped as a
hop-by-hop header, and the client frames the body anew, but not for every
method. A chunked body behind one of the other methods goes out without any
framing, and its octets are read as a further request. -/

namespace Finlytic.Gateway

open Lib Http1

variable {headers : List Header} {r : Incoming} {hop : Hop}

/-! ### Headers by name -/

def withName (name : String) (headers : List Header) : List Header := headers.filter (·.name = name)

def Lower (headers : List Header) : Prop :=
  ∀ h ∈ headers, h.name.toList.map Char.toLower = h.name.toList

theorem fields_append (a b : List Header) : fields (a ++ b) = fields a ++ fields b :=
  List.flatMap_append

/-- Fields of lower-case headers are found by the header's name. -/
theorem filter_named (h : Lower headers) (name : String) :
    (fields headers).filter (named name) = fields (withName name headers) := by
  induction headers with
  | nil => rfl
  | cons x xs ih =>
    have hx := h x List.mem_cons_self
    have hcons : fields (x :: xs) = (x.values.map fun v => (⟨x.name.toList, v.toList⟩ : Field)) ++
        fields xs := rfl
    rw [hcons, List.filter_append, ih fun y hy => h y (List.mem_cons_of_mem _ hy)]
    unfold withName
    rw [List.filter_cons]
    by_cases hn : x.name = name
    · have hall : (x.values.map fun v => (⟨x.name.toList, v.toList⟩ : Field)).filter (named name) =
          x.values.map fun v => ⟨x.name.toList, v.toList⟩ := by
        rw [List.filter_eq_self]
        intro f hf
        obtain ⟨v, -, rfl⟩ := List.mem_map.mp hf
        rw [named, hx, hn]
        exact decide_eq_true rfl
      rw [hall, if_pos (by simpa using hn)]
      rfl
    · have hnone : (x.values.map fun v => (⟨x.name.toList, v.toList⟩ : Field)).filter (named name) =
          [] := by
        rw [List.filter_eq_nil_iff]
        intro f hf
        obtain ⟨v, -, rfl⟩ := List.mem_map.mp hf
        simpa [named, hx, String.toList_inj] using hn
      rw [hnone, if_neg (by simpa using hn)]
      rfl

theorem withName_map_replace {name other value : String} (h : name ≠ other)
    (headers : List Header) :
    withName name (headers.map fun x => if x.name = other then ⟨other, [value]⟩ else x) =
      withName name headers := by
  induction headers with
  | nil => rfl
  | cons x xs ih =>
    unfold withName at *
    rw [List.map_cons, List.filter_cons, List.filter_cons, ih]
    by_cases hx : x.name = other
    · have hne : ¬ x.name = name := fun he => h (he.symm.trans hx)
      simp only [hx, if_true, decide_eq_true_eq, Ne.symm h, if_false]
    · simp only [hx, if_false]

theorem withName_setHeader {name other value : String} (h : name ≠ other) :
    withName name (setHeader headers other value) = withName name headers := by
  unfold setHeader
  split_ifs
  · exact withName_map_replace h headers
  · unfold withName
    rw [List.filter_append]
    simp [Ne.symm h]

theorem mem_setHeader {name value : String} {x : Header} (hx : x ∈ setHeader headers name value) :
    x ∈ headers ∨ x = ⟨name, [value]⟩ := by
  unfold setHeader at hx
  split_ifs at hx
  · obtain ⟨y, hy, rfl⟩ := List.mem_map.mp hx
    split_ifs
    · exact .inr rfl
    · exact .inl hy
  · rcases List.mem_append.mp hx with hx | hx
    · exact .inl hx
    · exact .inr (List.mem_singleton.mp hx)

/-- A forwarded header came in, or is one of the four that the gateway writes. -/
theorem mem_proxyHeaders {x : Header} (hx : x ∈ proxyHeaders r hop) :
    (x ∈ r.headers ∧ x.name ∉ hopByHop ∧ x.name ≠ "host") ∨
      x = ⟨"x-forwarded-for", [hop.remoteAddress.getD ""]⟩ ∨
      x = ⟨"x-forwarded-proto", ["http"]⟩ ∨ x = ⟨"x-forwarded-host", [hostHeader r.headers]⟩ ∨
      x = ⟨"x-request-id", [hop.requestId]⟩ := by
  rcases mem_setHeader hx with hx | rfl
  · rcases mem_setHeader hx with hx | rfl
    · rcases mem_setHeader hx with hx | rfl
      · rcases mem_setHeader hx with hx | rfl
        · obtain ⟨hmem, hkeep⟩ := List.mem_filter.mp hx
          simp only [Bool.not_or, Bool.and_eq_true, Bool.not_eq_true', decide_eq_false_iff_not,
            List.contains_eq_mem] at hkeep
          exact .inl ⟨hmem, hkeep.1, hkeep.2⟩
        · exact .inr (.inl rfl)
      · exact .inr (.inr (.inl rfl))
    · exact .inr (.inr (.inr (.inl rfl)))
  · exact .inr (.inr (.inr (.inr rfl)))

theorem lower_proxyHeaders (r : Incoming) (hop : Hop) : Lower (proxyHeaders r hop) := by
  have hadded : ∀ name ∈ ["x-forwarded-for", "x-forwarded-proto", "x-forwarded-host", "x-request-id"],
      name.toList.map Char.toLower = name.toList := by decide
  intro x hx
  rcases mem_proxyHeaders hx with ⟨hmem, -⟩ | rfl | rfl | rfl | rfl
  · exact r.lower x hmem
  all_goals exact hadded _ (by simp)

theorem withName_proxyHeaders {name : String}
    (h : name ∉ ["x-forwarded-for", "x-forwarded-proto", "x-forwarded-host", "x-request-id"]) :
    withName name (proxyHeaders r hop) = withName name (forwardable r.headers) := by
  simp only [List.mem_cons, List.not_mem_nil, or_false, not_or] at h
  obtain ⟨h1, h2, h3, h4⟩ := h
  simp only [proxyHeaders]
  rw [withName_setHeader h4, withName_setHeader h3, withName_setHeader h2, withName_setHeader h1]

/-- `transfer-encoding` is never forwarded. -/
theorem proxyHeaders_transfer_encoding (r : Incoming) (hop : Hop) :
    withName "transfer-encoding" (proxyHeaders r hop) = [] := by
  unfold withName
  rw [List.filter_eq_nil_iff]
  intro x hx hn
  rcases mem_proxyHeaders hx with ⟨-, hnot, -⟩ | rfl | rfl | rfl | rfl
  · exact hnot (by rw [of_decide_eq_true hn]; decide)
  all_goals exact absurd hn (by simp)

/-- `content-length` is forwarded as it came. -/
theorem proxyHeaders_content_length (r : Incoming) (hop : Hop) :
    withName "content-length" (proxyHeaders r hop) = withName "content-length" r.headers := by
  rw [withName_proxyHeaders (by decide), withName, withName, forwardable, List.filter_filter]
  refine List.filter_congr fun x _ => ?_
  by_cases hn : x.name = "content-length"
  · simp only [hn]
    decide
  · simp [hn]

theorem hasHeader_iff {name : String} :
    hasHeader name headers = true ↔ withName name headers ≠ [] := by
  simp only [hasHeader, withName, ne_eq, List.filter_eq_nil_iff, List.any_eq_true, not_forall,
    exists_prop, not_not]

theorem fields_eq_nil (h : ∀ x ∈ headers, x.values ≠ []) (he : fields headers = []) :
    headers = [] := by
  cases headers with
  | nil => rfl
  | cons x xs =>
    have hx := h x List.mem_cons_self
    simp [fields, hx] at he

/-! ### The head that goes upstream -/

theorem mem_fields {f : Field} :
    f ∈ fields headers ↔ ∃ h ∈ headers, ∃ v ∈ h.values, f = ⟨h.name.toList, v.toList⟩ := by
  simp only [fields, List.mem_flatMap, List.mem_map, eq_comm]

/-- The names of the headers that the gateway and the client write themselves. -/
def ownNames : List String :=
  ["x-forwarded-for", "x-forwarded-proto", "x-forwarded-host", "x-request-id", "Host", "Connection",
    "Content-Length",
    "Transfer-Encoding"]

theorem valid_own {name value v : String} (hn : name ∈ ownNames) (hv : ValueText value)
    (hm : v ∈ [value]) :
    Field.Valid ⟨name.toList, v.toList⟩ := by
  have hall : ∀ name ∈ ownNames, name.toList ≠ [] ∧ ':' ∉ name.toList ∧ '\r' ∉ name.toList := by decide
  obtain ⟨hne, hc, hr⟩ := hall name hn
  rw [List.mem_singleton.mp hm]
  exact ⟨hne, hc, hr, hv.1, hv.2⟩

theorem valueText_http : ValueText "http" := ⟨by decide, by decide⟩

theorem valueText_keep_alive : ValueText "keep-alive" := ⟨by decide, by decide⟩

theorem valueText_zero : ValueText "0" := ⟨by decide, by decide⟩

theorem valueText_chunked : ValueText "chunked" := ⟨by decide, by decide⟩

theorem hostHeader_value (r : Incoming) : ValueText (hostHeader r.headers) := by
  unfold hostHeader
  cases hf : r.headers.find? (·.name = "host") with
  | none => exact ⟨by decide, by decide⟩
  | some h =>
    cases hv : h.values.head? with
    | none =>
      simp only [Option.bind_some, hv, Option.getD_none]
      exact ⟨by decide, by decide⟩
    | some v =>
      simp only [Option.bind_some, hv, Option.getD_some]
      have hvalid := r.valid ⟨h.name.toList, v.toList⟩
        (mem_fields.mpr ⟨h, List.mem_of_find?_eq_some hf, v, List.mem_of_mem_head? hv, rfl⟩)
      exact ⟨hvalid.value_cr, hvalid.value_ows⟩

theorem address_value (hop : Hop) : ValueText (hop.remoteAddress.getD "") := by
  cases h : hop.remoteAddress with
  | none => exact ⟨by decide, by decide⟩
  | some a => exact hop.address_value a h

theorem mem_addedFraming {x : Header} {method : String} {body : List (List Char)}
    (h : x ∈ addedFraming method headers body) :
    x = ⟨"Content-Length", ["0"]⟩ ∨ x = ⟨"Transfer-Encoding", ["chunked"]⟩ := by
  unfold addedFraming at h
  split_ifs at h
  · cases h
  · cases h
  · exact .inl (List.mem_singleton.mp h)
  · exact .inr (List.mem_singleton.mp h)

/-- What goes upstream is a well-formed head. -/
theorem upstreamHead_valid (r : Incoming) (hop : Hop) : (upstreamHead r hop).Valid := by
  refine ⟨r.method_sp, r.method_cr, hop.path_sp, hop.path_cr, fun f hf => ?_⟩
  obtain ⟨x, hx, v, hv, rfl⟩ := mem_fields.mp hf
  rcases List.mem_append.mp hx with hx | hx
  · rcases List.mem_append.mp hx with hx | hx
    · rcases mem_proxyHeaders hx with ⟨hmem, -⟩ | rfl | rfl | rfl | rfl
      · exact r.valid _ (mem_fields.mpr ⟨x, hmem, v, hv, rfl⟩)
      · exact valid_own (by simp [ownNames]) (address_value hop) hv
      · exact valid_own (by simp [ownNames]) valueText_http hv
      · exact valid_own (by simp [ownNames]) (hostHeader_value r) hv
      · exact valid_own (by simp [ownNames]) hop.requestId_value hv
    · simp only [List.mem_cons, List.not_mem_nil, or_false] at hx
      rcases hx with rfl | rfl
      · exact valid_own (by simp [ownNames]) hop.host_value hv
      · exact valid_own (by simp [ownNames]) valueText_keep_alive hv
  · rcases mem_addedFraming hx with rfl | rfl
    · exact valid_own (by simp [ownNames]) valueText_zero hv
    · exact valid_own (by simp [ownNames]) valueText_chunked hv

/-- The framing fields of the head: the incoming `content-length`, and what the client adds. -/
theorem filter_upstream (name : String)
    (hname : named name ⟨"Host".toList, hop.host.toList⟩ = false)
    (hname' : named name ⟨"Connection".toList, "keep-alive".toList⟩ = false) :
    (upstreamHead r hop).fields.filter (named name) = fields (withName name (proxyHeaders r hop)) ++
      (fields (addedFraming r.method (proxyHeaders r hop) r.body)).filter (named name) := by
  have hclient : fields [⟨"Host", [hop.host]⟩, ⟨"Connection", ["keep-alive"]⟩] =
      [⟨"Host".toList, hop.host.toList⟩, ⟨"Connection".toList, "keep-alive".toList⟩] := rfl
  simp only [upstreamHead, clientHeaders]
  rw [fields_append, fields_append, List.filter_append, List.filter_append,
    filter_named (lower_proxyHeaders r hop), hclient]
  simp only [List.filter_cons, List.filter_nil, hname, hname', Bool.false_eq_true, if_false,
    List.append_nil]

/-! ### One request goes in, one comes out -/

/-- The stream is one request with this body and nothing after it. -/
def OneRequest (stream body : List Char) : Prop :=
  ∃ request, parseRequest stream = some (request, []) ∧ request.body = body

theorem framing_eq_some {fs : List Field} {fr : Framing} (h : Http1.framing fs = some fr) :
    (fs.filter (named "content-length") = [] ∧ (fr = .empty ∨ fr = .chunked)) ∨
      ∃ f n, fs.filter (named "content-length") = [f] ∧ number 10 f.value = some n ∧
        fr = .length n := by
  unfold Http1.framing at h
  split at h
  · rename_i hte hcl
    cases h
    exact .inl ⟨hcl, .inl rfl⟩
  · rename_i f hte hcl
    obtain ⟨n, hn, rfl⟩ := Option.map_eq_some_iff.mp h
    exact .inr ⟨f, n, hcl, hn, rfl⟩
  · rename_i f hte hcl
    split_ifs at h
    cases h
    exact .inl ⟨hcl, .inr rfl⟩
  · cases h

theorem named_host :
    ∀ name ∈ ["transfer-encoding", "content-length"], ∀ v, named name ⟨"Host".toList, v⟩ =
      false := by
  intro name hname v
  simp only [List.mem_cons, List.not_mem_nil, or_false] at hname
  rcases hname with rfl | rfl <;> rfl

theorem named_connection : ∀ name ∈ ["transfer-encoding", "content-length"], ∀ v,
    named name ⟨"Connection".toList, v⟩ = false := by
  intro name hname v
  simp only [List.mem_cons, List.not_mem_nil, or_false] at hname
  rcases hname with rfl | rfl <;> rfl

theorem filter_transfer_encoding (r : Incoming) (hop : Hop) :
    (upstreamHead r hop).fields.filter (named "transfer-encoding") =
      (fields (addedFraming r.method (proxyHeaders r hop) r.body)).filter
        (named "transfer-encoding") := by
  rw [filter_upstream _ (named_host _ (by simp) _) (named_connection _ (by simp) _),
    proxyHeaders_transfer_encoding]
  rfl

theorem filter_content_length (r : Incoming) (hop : Hop) :
    (upstreamHead r hop).fields.filter (named "content-length") = (fields r.headers).filter
      (named "content-length") ++
      (fields (addedFraming r.method (proxyHeaders r hop) r.body)).filter
        (named "content-length") := by
  rw [filter_upstream _ (named_host _ (by simp) _) (named_connection _ (by simp) _),
    proxyHeaders_content_length,
    filter_named r.lower]

/-- Without a `content-length` of its own, the request is framed by what the client adds. -/
theorem framing_added (hcl : (fields r.headers).filter (named "content-length") = []) :
    Http1.framing (upstreamHead r hop).fields =
      Http1.framing (fields (addedFraming r.method (proxyHeaders r hop) r.body)) := by
  unfold Http1.framing
  rw [filter_transfer_encoding, filter_content_length, hcl, List.nil_append]

theorem hasHeader_content_length (r : Incoming) (hop : Hop) :
    hasHeader "content-length" (proxyHeaders r hop) = true ↔
      (fields r.headers).filter (named "content-length") ≠ [] := by
  rw [hasHeader_iff, proxyHeaders_content_length, filter_named r.lower]
  refine ⟨fun h he => h (fields_eq_nil (fun x hx => r.values_ne x (List.mem_of_mem_filter hx)) he),
    fun h he => h ?_⟩
  rw [he]
  rfl

theorem hasHeader_transfer_encoding (r : Incoming) (hop : Hop) :
    hasHeader "transfer-encoding" (proxyHeaders r hop) = false := by
  rw [Bool.eq_false_iff, Ne, hasHeader_iff, proxyHeaders_transfer_encoding]
  exact fun h => h rfl

/-- What the client adds to a request without `content-length`. -/
theorem addedFraming_of_none (hop : Hop)
    (hcl : (fields r.headers).filter (named "content-length") = []) :
    addedFraming r.method (proxyHeaders r hop) r.body =
      if noBodyMethods.contains r.method then [] else if r.body = [] then
        [⟨"Content-Length", ["0"]⟩]
      else [⟨"Transfer-Encoding", ["chunked"]⟩] := by
  have hno : hasHeader "content-length" (proxyHeaders r hop) = false := by
    rw [Bool.eq_false_iff, Ne, hasHeader_content_length, hcl]
    exact fun h => h rfl
  rw [addedFraming, hno, hasHeader_transfer_encoding]
  rfl

theorem framing_content_length_zero : Http1.framing (fields [⟨"Content-Length", ["0"]⟩]) =
    some (.length 0) := by decide

theorem framing_transfer_encoding_chunked :
    Http1.framing (fields [⟨"Transfer-Encoding", ["chunked"]⟩]) = some .chunked := by decide

theorem oneRequest_iff (fr : Framing) (hfr : Http1.framing (upstreamHead r hop).fields = some fr)
    (body : List Char) :
    OneRequest (upstreamStream r hop) body ↔ readBody fr (payload r hop) = some (body, []) := by
  unfold OneRequest upstreamStream
  rw [parseRequest_renderHead (upstreamHead_valid r hop), hfr, Option.bind_some]
  constructor
  · rintro ⟨request, hparse, rfl⟩
    obtain ⟨b, hb, heq⟩ := Option.map_eq_some_iff.mp hparse
    rw [hb]
    rw [Prod.mk.injEq] at heq
    rw [← heq.1, ← heq.2]
  · intro h
    refine ⟨⟨upstreamHead r hop, body⟩, ?_, rfl⟩
    rw [h]
    rfl

/-- A body of announced length passes as it came. -/
theorem oneRequest_length {f : Field} {n : ℕ}
    (hcl : (fields r.headers).filter (named "content-length") = [f])
    (hn : number 10 f.value = some n) (hlen : r.body.flatten.length = n) :
    OneRequest (upstreamStream r hop) r.body.flatten := by
  have hhas : hasHeader "content-length" (proxyHeaders r hop) = true := by
    rw [hasHeader_content_length, hcl]
    exact List.cons_ne_nil _ _
  have hadd : addedFraming r.method (proxyHeaders r hop) r.body = [] := by
    unfold addedFraming
    rw [hhas, Bool.true_or, if_pos rfl]
  have hfr : Http1.framing (upstreamHead r hop).fields = some (.length n) := by
    unfold Http1.framing
    rw [filter_transfer_encoding, filter_content_length, hcl, hadd]
    show (number 10 f.value).map Framing.length = some (.length n)
    rw [hn]
    rfl
  have hpay : payload r hop = r.body.flatten := by
    unfold payload
    rw [hadd, if_neg (List.cons_ne_nil _ _).symm]
  rw [oneRequest_iff _ hfr, hpay]
  show (if r.body.flatten.length < n then none
    else some (r.body.flatten.take n, r.body.flatten.drop n)) = _
  rw [if_neg (by omega), List.take_of_length_le (by omega), List.drop_eq_nil_of_le (by omega)]

/-- Without a length and behind a method that the client does not frame, only an empty body
passes. -/
theorem oneRequest_bare (hcl : (fields r.headers).filter (named "content-length") = [])
    (hm : r.method ∈ noBodyMethods) :
    OneRequest (upstreamStream r hop) r.body.flatten ↔ r.body.flatten = [] := by
  have hadd : addedFraming r.method (proxyHeaders r hop) r.body = [] := by
    rw [addedFraming_of_none hop hcl, if_pos (by simpa using hm)]
  have hfr : Http1.framing (upstreamHead r hop).fields = some .empty := by
    rw [framing_added hcl, hadd]
    rfl
  have hpay : payload r hop = r.body.flatten := by
    unfold payload
    rw [hadd, if_neg (List.cons_ne_nil _ _).symm]
  rw [oneRequest_iff _ hfr, hpay]
  show some (([] : List Char), r.body.flatten) = some (r.body.flatten, []) ↔ _
  constructor
  · intro h
    exact (Prod.mk.inj (Option.some.inj h)).2
  · intro h
    rw [h]

/-- Behind every other method the client frames the body anew. -/
theorem oneRequest_framed (hcl : (fields r.headers).filter (named "content-length") = [])
    (hm : r.method ∉ noBodyMethods) : OneRequest (upstreamStream r hop) r.body.flatten := by
  have hadd := addedFraming_of_none hop hcl
  rw [if_neg (by simpa using hm)] at hadd
  by_cases hbody : r.body = []
  · rw [if_pos hbody] at hadd
    have hfr : Http1.framing (upstreamHead r hop).fields = some (.length 0) := by
      rw [framing_added hcl, hadd, framing_content_length_zero]
    have hpay : payload r hop = [] := by
      unfold payload
      rw [hadd, if_neg (by decide), hbody]
      rfl
    rw [oneRequest_iff _ hfr, hpay, hbody]
    rfl
  · rw [if_neg hbody] at hadd
    have hfr : Http1.framing (upstreamHead r hop).fields = some .chunked := by
      rw [framing_added hcl, hadd, framing_transfer_encoding_chunked]
    have hpay : payload r hop = writeChunks r.body := by
      unfold payload
      rw [hadd, if_pos rfl]
    rw [oneRequest_iff _ hfr, hpay]
    show readChunks ((writeChunks r.body).length + 1) (writeChunks r.body) = _
    have hread := readChunks_writeChunks r.pieces (length_chunks_lt r.body) []
    rw [List.append_nil] at hread
    exact hread

/-- The proxy preserves the framing of every request, except of a non-empty chunked body
behind a method that Node's client does not frame. -/
theorem framing_preserved_iff (r : Incoming) (hop : Hop) :
    OneRequest (upstreamStream r hop) r.body.flatten ↔
      ¬ (r.method ∈ noBodyMethods ∧ r.framing = .chunked ∧ r.body.flatten ≠ []) := by
  rcases framing_eq_some r.framed with ⟨hcl, hfr⟩ | ⟨f, n, hcl, hn, hfr⟩
  · by_cases hm : r.method ∈ noBodyMethods
    · rw [oneRequest_bare hcl hm]
      rcases hfr with hfr | hfr
      · have hread : r.body = [] := by simpa only [hfr, Delimits] using r.read
        simp [hread, hfr]
      · simp [hm, hfr]
    · simp [oneRequest_framed hcl hm, hm]
  · have hread : r.body.flatten.length = n := by simpa only [hfr, Delimits] using r.read
    simp [oneRequest_length hcl hn hread, hfr]

/-- A chunked GET whose body is itself a request line. -/
def chunkedGet : Incoming where
  method := "GET"
  headers := [⟨"host", ["gateway"]⟩, ⟨"transfer-encoding", ["chunked"]⟩]
  framing := .chunked
  body := ["GET /smuggled HTTP/1.1".toList]
  method_sp := by decide
  method_cr := by decide
  lower := by decide
  values_ne := by decide
  valid := by
    intro f hf
    obtain ⟨x, hx, v, hv, rfl⟩ := mem_fields.mp hf
    simp only [List.mem_cons, List.not_mem_nil, or_false] at hx
    rcases hx with rfl | rfl
    all_goals
      rw [List.mem_singleton.mp hv]
      constructor <;> decide
  framed := by decide
  read := trivial
  pieces := by decide

def usersHop : Hop where
  remoteAddress := some "10.0.0.7"
  requestId := "r1"
  host := "users:3000"
  path := "/health"
  address_value := by
    intro a ha
    rw [← Option.some.inj ha]
    exact ⟨by decide, by decide⟩
  requestId_value := ⟨by decide, by decide⟩
  host_value := ⟨by decide, by decide⟩
  path_sp := by decide
  path_cr := by decide

/-- The octets of a chunked body behind GET are read as a further request. -/
theorem chunked_get_smuggles : ¬ ∀ r hop, OneRequest (upstreamStream r hop) r.body.flatten := by
  intro h
  have hcl : (fields chunkedGet.headers).filter (named "content-length") = [] := by decide
  have hempty := (oneRequest_bare hcl (by decide)).mp (h chunkedGet usersHop)
  exact absurd hempty (by decide)

end Finlytic.Gateway
