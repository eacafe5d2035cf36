import ComputerNetworks.Proxy.Request

/-!
# What the proxy forwards is what it parsed

`parseRequest` gives values that `requestText` can carry, and reads them back from that text.
-/

open Lib Lib.Bytes Lib.Crlf Lib.Ctype Lib.Fields Lib.Number

namespace Proxy

/-! ## What can be carried -/

def Solid (text : Bytes) : Prop := ∀ c ∈ text, isspace c = false

structure HeaderOk (header : Bytes × Bytes) : Prop where
  key_colon : colon ∉ header.1
  key_lf : lf ∉ header.1
  key_lower : header.1.map tolower = header.1
  value_trimmed : Trimmed isBlank header.2
  value_lf : lf ∉ header.2

/-- What a request that was parsed from an absolute URL is like. -/
structure Forwardable (r : ParsedRequest) : Prop where
  method_ne : r.method ≠ []
  method : Solid r.method
  path : Solid r.path
  path_slash : ∃ rest, r.path = slash :: rest
  version : Solid r.version
  host : Solid r.host
  host_colon : colon ∉ r.host
  port : IsInt r.port
  headers : ∀ header ∈ r.headers.entries, HeaderOk header
  body : r.method ≠ ofString "POST" → r.body = []

theorem Solid.notMem {text : Bytes} (h : Solid text) {c : UInt8} (hc : isspace c = true) :
    c ∉ text := by
  intro hmem
  rw [h c hmem] at hc
  cases hc

theorem Solid.of_subset {text part : Bytes} (h : Solid text) (hpart : part ⊆ text) : Solid part :=
  fun c hc => h c (hpart hc)

theorem Solid.append {text text' : Bytes} (h : Solid text) (h' : Solid text') :
    Solid (text ++ text') :=
  fun c hc => (List.mem_append.mp hc).elim (h c) (h' c)

theorem solid_of_all {text : Bytes} (h : text.all (fun c => !isspace c) = true) : Solid text :=
  forall_of_all h

theorem solid_word (text : Bytes) : Solid (word isspace text).1 := fun _ => mem_word

theorem isspace_of_isBlank {c : UInt8} (h : isBlank c = true) : isspace c = true := by
  unfold isBlank at h
  rcases Bool.or_eq_true_iff.mp h with h | h <;> rw [decide_eq_true_eq] at h <;> rw [h] <;> rfl

theorem Solid.trimmed {text : Bytes} (h : Solid text) : Trimmed isBlank text := by
  have hblank : ∀ c ∈ text, isBlank c = false := fun c hc =>
    Bool.eq_false_iff.mpr fun hb => h.notMem (isspace_of_isBlank hb) hc
  exact ⟨fun c hc => hblank c (List.mem_of_mem_head? hc),
    fun c hc => hblank c (List.mem_of_mem_getLast? hc)⟩

/-! ## What parsing gives -/

theorem eq_of_tolower_eq {c d : UInt8} (h : tolower c = d) (hd : islower d = false) : c = d := by
  have hall : ∀ n : Fin 256, tolower (UInt8.ofNat n) = UInt8.ofNat n ∨
      islower (tolower (UInt8.ofNat n)) = true := by decide +kernel
  rcases hall ⟨c.toNat, c.toNat_lt⟩ with hc | hc <;> simp only [UInt8.ofNat_toNat] at hc
  · rw [← h, hc]
  · rw [h, hd] at hc
    cases hc

theorem notMem_map_tolower {c : UInt8} (hc : islower c = false) {text : Bytes} (h : c ∉ text) :
    c ∉ text.map tolower := by
  intro hmem
  obtain ⟨d, hd, heq⟩ := List.mem_map.mp hmem
  exact h (eq_of_tolower_eq heq hc ▸ hd)

theorem popCr_subset (line : Bytes) : popCr line ⊆ line := by
  unfold popCr
  split
  · exact List.dropLast_subset line
  · exact List.Subset.refl line

theorem parseHeader_ok {line : Bytes} (hline : lf ∉ line) {header : Bytes × Bytes}
    (h : parseHeader line = some header) : HeaderOk header := by
  unfold parseHeader at h
  obtain ⟨⟨key, value⟩, hcut, rfl⟩ := Option.map_eq_some_iff.mp h
  obtain ⟨hpop, hkey⟩ := cut_eq_some hcut
  have hlf : lf ∉ key ++ colon :: value := hpop ▸ fun hmem => hline (popCr_subset line hmem)
  rw [List.mem_append, not_or, List.mem_cons, not_or] at hlf
  exact {
    key_colon := notMem_map_tolower (by decide) hkey
    key_lf := notMem_map_tolower (by decide) hlf.1
    key_lower := by simp [tolower_tolower]
    value_trimmed := trimmed_trim value
    value_lf := fun hmem => hlf.2.2 (mem_of_mem_trim hmem) }

theorem addHeader_ok {headers : SortedMap Bytes Bytes} (h : ∀ header ∈ headers.entries, HeaderOk header)
    {line : Bytes} (hline : lf ∉ line) : ∀ header ∈ (addHeader headers line).entries, HeaderOk header := by
  unfold addHeader
  split
  · rename_i key value hparse
    intro header hmem
    rcases SortedMap.mem_insert hmem with rfl | hmem
    · exact parseHeader_ok hline hparse
    · exact h header hmem
  · exact h

theorem parseHeaders_ok {lines : List Bytes} (h : ∀ line ∈ lines, lf ∉ line) :
    ∀ header ∈ (parseHeaders lines).entries, HeaderOk header := by
  have run : ∀ (lines : List Bytes) (headers : SortedMap Bytes Bytes), (∀ line ∈ lines, lf ∉ line) →
      (∀ header ∈ headers.entries, HeaderOk header) →
      ∀ header ∈ (lines.foldl addHeader headers).entries, HeaderOk header := by
    intro lines
    induction lines with
    | nil => intro headers _ hok; exact hok
    | cons line lines ih =>
      intro headers hlines hok
      exact ih _ (fun l hl => hlines l (List.mem_cons_of_mem _ hl))
        (addHeader_ok hok (hlines line List.mem_cons_self))
  apply run
  · exact fun line hline => h line (List.takeWhile_subset _ hline)
  · exact fun header hmem => absurd hmem List.not_mem_nil

theorem behindProtocol_subset (url : Bytes) : behindProtocol url ⊆ url := by
  unfold behindProtocol
  split
  · rename_i piece rest hr
    obtain ⟨-, rfl⟩ := readUntil_some (by decide) hr
    exact List.subset_append_right piece rest
  · exact List.nil_subset url

theorem hostPort_spec (text : Bytes) {defaultPort : Int} (hp : IsInt defaultPort) :
    (hostPort text defaultPort).1 ⊆ text ∧ colon ∉ (hostPort text defaultPort).1 ∧
      IsInt (hostPort text defaultPort).2 := by
  unfold hostPort
  split
  · rename_i host port hcut
    obtain ⟨rfl, hcolon⟩ := cut_eq_some hcut
    refine ⟨List.subset_append_left host _, hcolon, ?_⟩
    cases hs : stoi port with
    | none => exact hp
    | some n => exact stoi_isInt hs
  · rename_i hcut
    exact ⟨List.Subset.refl text, cut_eq_none_iff.mp hcut, hp⟩

theorem dropWhile_slash (text : Bytes) :
    text.dropWhile (· ≠ slash) = [] ∨ ∃ rest, text.dropWhile (· ≠ slash) = slash :: rest := by
  cases h : text.dropWhile (· ≠ slash) with
  | nil => exact Or.inl rfl
  | cons c rest =>
    have hc := head_dropWhile (p := fun c => decide (c ≠ slash)) text c (by rw [h]; rfl)
    rw [decide_eq_false_iff_not, not_not] at hc
    exact Or.inr ⟨rest, by rw [hc]⟩

theorem locate_absolute {url : Bytes} (hurl : (isHttp url || isHttps url) = true) (hsolid : Solid url)
    (headers : SortedMap Bytes Bytes) :
    Solid (locate url headers).1 ∧ colon ∉ (locate url headers).1 ∧
      IsInt (locate url headers).2.1 ∧ Solid (locate url headers).2.2 ∧
      ((locate url headers).2.2 = [] ∨ ∃ rest, (locate url headers).2.2 = slash :: rest) := by
  have hbehind := hsolid.of_subset (behindProtocol_subset url)
  have hdefault : IsInt (if isHttps url then 443 else 80) := by split <;> decide
  obtain ⟨hhost, hcolon, hport⟩ :=
    hostPort_spec ((behindProtocol url).takeWhile (· ≠ slash)) hdefault
  rw [locate, if_pos hurl]
  exact ⟨hbehind.of_subset (List.Subset.trans hhost (List.takeWhile_subset _)), hcolon, hport,
    hbehind.of_subset (List.dropWhile_suffix _).subset, dropWhile_slash _⟩

theorem parseRequest_forwardable {rawRequest : Bytes} {r : ParsedRequest}
    (hr : parseRequest rawRequest = r) (hurl : (isHttp r.url || isHttps r.url) = true)
    (hmethod : r.method ≠ []) : Forwardable r := by
  unfold parseRequest at hr
  split at hr
  · rw [← hr] at hmethod
    exact absurd rfl hmethod
  rename_i line lines hlines
  have hlf := Text.getlines_notMem lf rawRequest
  rw [hlines] at hlf
  subst hr
  obtain ⟨hhost, hcolon, hport, hpath, hslash⟩ :=
    locate_absolute hurl (solid_word _) (parseHeaders lines)
  exact {
    method_ne := hmethod
    method := solid_word _
    path := by
      dsimp only
      split
      · exact solid_of_all rfl
      · exact hpath
    path_slash := by
      dsimp only
      split
      · exact ⟨[], rfl⟩
      · rename_i hne
        exact hslash.resolve_left hne
    version := (solid_word _).of_subset (popCr_subset _)
    host := hhost
    host_colon := hcolon
    port := hport
    headers := parseHeaders_ok fun l hl => hlf l (List.mem_cons_of_mem _ hl)
    body := fun hne => if_neg hne }

/-! ## Reading the text back -/

theorem popCr_append (line : Bytes) : popCr (line ++ [cr]) = line := by
  simp [popCr]

theorem parseHeader_headerLine {key value : Bytes} (hkey : colon ∉ key)
    (hvalue : Trimmed isBlank value) :
    parseHeader (headerLine key value ++ [cr]) = some (key.map tolower, value) := by
  rw [parseHeader, popCr_append, headerLine, cut_append colon hkey, Option.map_some,
    trim_cons rfl, trim_of_trimmed hvalue]

theorem parseHeaders_headerLines {headers : List (Bytes × Bytes)}
    (h : ∀ header ∈ headers, colon ∉ header.1 ∧ Trimmed isBlank header.2) (rest : List Bytes) :
    parseHeaders ((headers.map fun header => headerLine header.1 header.2 ++ [cr]) ++ [cr] :: rest) =
      SortedMap.empty.insertAll (headers.map fun header => (header.1.map tolower, header.2)) := by
  have hnotEnd : ∀ line ∈ headers.map fun header => headerLine header.1 header.2 ++ [cr],
      decide (line ≠ [cr] ∧ line ≠ []) = true := by
    intro line hline
    obtain ⟨header, -, rfl⟩ := List.mem_map.mp hline
    rw [decide_eq_true_eq, headerLine]
    refine ⟨fun heq => ?_, fun heq => ?_⟩ <;>
    · have hlen := congrArg List.length heq
      simp only [List.length_append, List.length_cons, List.length_nil] at hlen
      omega
  have run : ∀ (headers : List (Bytes × Bytes)) (m : SortedMap Bytes Bytes),
      (∀ header ∈ headers, colon ∉ header.1 ∧ Trimmed isBlank header.2) →
      (headers.map fun header => headerLine header.1 header.2 ++ [cr]).foldl addHeader m =
        m.insertAll (headers.map fun header => (header.1.map tolower, header.2)) := by
    intro headers
    induction headers with
    | nil => intro m _; rfl
    | cons header headers ih =>
      intro m h
      obtain ⟨hkey, hvalue⟩ := h header List.mem_cons_self
      rw [List.map_cons, List.foldl_cons, addHeader, parseHeader_headerLine hkey hvalue]
      exact ih _ fun x hx => h x (List.mem_cons_of_mem _ hx)
  rw [parseHeaders, List.takeWhile_append_of_pos hnotEnd, List.takeWhile_cons_of_neg (by decide),
    List.append_nil, run headers .empty h]

theorem hostPort_hostText {r : ParsedRequest} (h : Forwardable r) :
    hostPort (hostText r) 80 = (r.host, r.port) := by
  unfold hostPort hostText
  by_cases hport : r.port = 80
  · rw [if_neg (not_not.mpr hport), List.append_nil, cut_eq_none_iff.mpr h.host_colon, hport]
  · rw [if_pos hport, cut_append colon h.host_colon]
    dsimp only
    rw [stoi_intText h.port]
    rfl

theorem solid_hostText {r : ParsedRequest} (h : Forwardable r) : Solid (hostText r) := by
  unfold hostText
  apply h.host.append
  split
  · intro c hc
    rcases List.mem_cons.mp hc with rfl | hc
    · decide
    · exact isspace_intText hc
  · exact fun c hc => absurd hc List.not_mem_nil

def sentHeaders (r : ParsedRequest) : List (Bytes × Bytes) :=
  (r.headers.filter fun key => !ownHeader key).entries ++
    [(ofString "Host", hostText r), (ofString "Connection", ofString "close")]

theorem sentHeaders_ok {r : ParsedRequest} (h : Forwardable r) :
    ∀ header ∈ sentHeaders r, colon ∉ header.1 ∧ lf ∉ header.1 ∧ Trimmed isBlank header.2 ∧
      lf ∉ header.2 := by
  have hhost := solid_hostText h
  intro header hmem
  rcases List.mem_append.mp hmem with hmem | hmem
  · have hok := h.headers header (List.mem_filter.mp hmem).1
    exact ⟨hok.key_colon, hok.key_lf, hok.value_trimmed, hok.value_lf⟩
  · simp only [List.mem_cons, List.not_mem_nil, or_false] at hmem
    rcases hmem with rfl | rfl
    · exact ⟨by dsimp only; decide, by dsimp only; decide, hhost.trimmed, hhost.notMem rfl⟩
    · have hclose : Solid (ofString "close") := solid_of_all rfl
      exact ⟨by decide, by decide, hclose.trimmed, by decide⟩

theorem insertAll_sentHeaders {r : ParsedRequest} (h : Forwardable r) :
    SortedMap.empty.insertAll ((sentHeaders r).map fun header => (header.1.map tolower, header.2)) =
      ((r.headers.filter fun key => !ownHeader key).insert (ofString "host") (hostText r)).insert
        (ofString "connection") (ofString "close") := by
  have hlower : (r.headers.filter fun key => !ownHeader key).entries.map
      (fun header => (header.1.map tolower, header.2)) =
        (r.headers.filter fun key => !ownHeader key).entries := by
    refine Eq.trans (List.map_congr_left fun header hmem => ?_) (List.map_id _)
    rw [(h.headers header (List.mem_filter.mp hmem).1).key_lower]
    rfl
  rw [sentHeaders, List.map_append, SortedMap.insertAll_append, hlower, SortedMap.insertAll_entries]
  rfl

def requestLine (r : ParsedRequest) : Bytes :=
  r.method ++ space :: r.path ++ space :: r.version

def headLines (r : ParsedRequest) : List Bytes :=
  requestLine r :: (sentHeaders r).map fun header => headerLine header.1 header.2

def sentBody (r : ParsedRequest) : Bytes :=
  if r.method = ofString "POST" ∧ r.body ≠ [] then r.body else []

theorem requestText_eq (r : ParsedRequest) :
    requestText r = headerText (headLines r) ++ crlf ++ sentBody r := by
  rw [requestText, sentBody]
  simp [headLines, headerText, requestLine, sentHeaders, List.flatMap_map]

theorem headLines_ok {r : ParsedRequest} (h : Forwardable r) : HeaderLines (headLines r) := by
  intro line hmem
  rcases List.mem_cons.mp hmem with rfl | hmem
  · have hm := h.method.notMem (c := lf) rfl
    have hp := h.path.notMem (c := lf) rfl
    have hv := h.version.notMem (c := lf) rfl
    have hs : lf ≠ space := by decide
    refine ⟨by simp [requestLine, hm, hp, hv, hs], by simp [requestLine]⟩
  · obtain ⟨header, hheader, rfl⟩ := List.mem_map.mp hmem
    obtain ⟨-, hkey, -, hvalue⟩ := sentHeaders_ok h header hheader
    have hs : lf ≠ space := by decide
    have hc : lf ≠ colon := by decide
    exact ⟨by simp [headerLine, hkey, hvalue, hs, hc], by simp [headerLine]⟩

theorem words_requestLine {r : ParsedRequest} (h : Forwardable r) :
    let method := word isspace (requestLine r ++ [cr])
    let url := word isspace method.2
    method.1 = r.method ∧ url.1 = r.path ∧ (word isspace url.2).1 = r.version := by
  have hpath : r.path ≠ [] := by
    obtain ⟨rest, hslash⟩ := h.path_slash
    rw [hslash]
    exact List.cons_ne_nil _ _
  have hmethod : word isspace (requestLine r ++ [cr]) =
      (r.method, space :: (r.path ++ space :: (r.version ++ [cr]))) := by
    rw [show requestLine r ++ [cr] =
      r.method ++ space :: (r.path ++ space :: (r.version ++ [cr])) by simp [requestLine]]
    exact word_append h.method_ne h.method (by rintro c ⟨⟩; rfl)
  have hurl : word isspace (space :: (r.path ++ space :: (r.version ++ [cr]))) =
      (r.path, space :: (r.version ++ [cr])) := by
    rw [word_cons rfl]
    exact word_append hpath h.path (by rintro c ⟨⟩; rfl)
  have hversion : (word isspace (space :: (r.version ++ [cr]))).1 = r.version := by
    rw [word_cons rfl]
    by_cases hv : r.version = []
    · rw [hv]
      rfl
    · rw [word_append hv h.version (by rintro c ⟨⟩; rfl)]
  dsimp only
  rw [hmethod, hurl]
  exact ⟨rfl, rfl, hversion⟩

theorem bodyOf_requestText {r : ParsedRequest} (h : Forwardable r) :
    bodyOf (requestText r) = sentBody r := by
  rw [bodyOf, requestText_eq,
    readUntil_closes (by decide) (closes_header (headLines_ok h) (List.cons_ne_nil _ _))]

theorem Solid.popCr {text : Bytes} (h : Solid text) : popCr text = text := by
  unfold Proxy.popCr
  rw [if_neg]
  exact fun hlast => h.notMem (c := cr) rfl (List.mem_of_mem_getLast? hlast)

/-- The URL that is sent is a path, so the host is the one of the header. -/
theorem locate_path {r : ParsedRequest} (h : Forwardable r) {headers : SortedMap Bytes Bytes}
    (hhost : headers.find? (ofString "host") = some (hostText r)) :
    locate r.path headers = (r.host, r.port, r.path) := by
  obtain ⟨rest, hslash⟩ := h.path_slash
  have hdrop : r.path.dropWhile (· ≠ slash) = r.path := by
    rw [hslash]
    exact dropWhile_of_head (by rintro c ⟨⟩; rfl)
  have hno : (isHttp r.path || isHttps r.path) = false := by rw [hslash]; rfl
  rw [locate, if_neg (Bool.eq_false_iff.mp hno), hhost]
  dsimp only
  rw [hostPort_hostText h, hdrop, if_neg (by rw [hslash]; exact List.cons_ne_nil _ _)]

theorem parseRequest_requestText {r : ParsedRequest} (h : Forwardable r) :
    parseRequest (requestText r) =
      { r with
        url := r.path
        headers := ((r.headers.filter fun key => !ownHeader key).insert (ofString "host")
          (hostText r)).insert (ofString "connection") (ofString "close") } := by
  have hlines := getlines_header (headLines_ok h) (sentBody r)
  rw [← requestText_eq, headLines, List.map_cons, List.map_map, List.cons_append] at hlines
  have hheaders := parseHeaders_headerLines
    (fun header hmem => ⟨(sentHeaders_ok h header hmem).1, (sentHeaders_ok h header hmem).2.2.1⟩)
    (Text.getlines lf (sentBody r))
  rw [insertAll_sentHeaders h] at hheaders
  obtain ⟨hmethod, hurl, hversion⟩ := words_requestLine h
  have hbody : (if r.method = ofString "POST" then sentBody r else []) = r.body := by
    unfold sentBody
    by_cases hpost : r.method = ofString "POST"
    · by_cases hb : r.body = []
      · simp [hb]
      · rw [if_pos hpost, if_pos ⟨hpost, hb⟩]
    · rw [if_neg hpost, h.body hpost]
  have hpath : r.path ≠ [] := by
    obtain ⟨rest, hslash⟩ := h.path_slash
    rw [hslash]
    exact List.cons_ne_nil _ _
  unfold parseRequest
  rw [hlines]
  dsimp only [Function.comp_def]
  rw [hmethod, hurl, hversion, hheaders, bodyOf_requestText h, hbody, h.version.popCr,
    locate_path h (by rw [SortedMap.find?_insert, SortedMap.find?_insert]; rfl), if_neg hpath]

/-! ## The theorem -/

theorem erase_ownHeaders (headers : SortedMap Bytes Bytes) :
    ((headers.erase (ofString "host")).erase (ofString "connection")).erase
      (ofString "proxy-connection") = headers.filter fun key => !ownHeader key := by
  rw [SortedMap.erase, SortedMap.erase, SortedMap.erase, SortedMap.filter_filter,
    SortedMap.filter_filter]
  congr 1
  funext key
  simp [ownHeader, Bool.not_or, Bool.and_assoc]

/-- **Forwarding.** The origin server parses the request that the client sent: the same method, path,
version, host, port and body, and the headers without those of the connection, which the proxy sends
itself. -/
theorem forwards_what_it_parsed (rawRequest : Bytes)
    (hurl : (isHttp (parseRequest rawRequest).url || isHttps (parseRequest rawRequest).url) = true)
    (hmethod : (parseRequest rawRequest).method ≠ []) :
    let r := parseRequest rawRequest
    let r' := parseRequest (requestText r)
    r'.method = r.method ∧ r'.path = r.path ∧ r'.version = r.version ∧ r'.host = r.host ∧
      r'.port = r.port ∧ r'.body = r.body ∧
      r'.headers = ((((r.headers.erase (ofString "host")).erase (ofString "connection")).erase
          (ofString "proxy-connection")).insert (ofString "host")
            (r.host ++ if r.port ≠ 80 then colon :: intText r.port else [])).insert
              (ofString "connection") (ofString "close") := by
  intro r r'
  have h : r' = _ := parseRequest_requestText (parseRequest_forwardable rfl hurl hmethod)
  rw [h]
  refine ⟨rfl, rfl, rfl, rfl, rfl, rfl, ?_⟩
  rw [erase_ownHeaders]
  rfl

/-- A post to a port of its own, with a header that is not sent on. -/
theorem post_forwarded :
    let r := parseRequest (ofString
      "POST http://h:81/p HTTP/1.1\r\nA:b\r\nConnection: x\r\n\r\nhi")
    (parseRequest (requestText r)).method = r.method ∧
      (parseRequest (requestText r)).path = r.path ∧
      (parseRequest (requestText r)).version = r.version ∧
      (parseRequest (requestText r)).host = r.host ∧
      (parseRequest (requestText r)).port = r.port ∧
      (parseRequest (requestText r)).body = r.body ∧
      (parseRequest (requestText r)).headers =
        ((((r.headers.erase (ofString "host")).erase (ofString "connection")).erase
          (ofString "proxy-connection")).insert (ofString "host")
            (r.host ++ if r.port ≠ 80 then colon :: intText r.port else [])).insert
              (ofString "connection") (ofString "close") :=
  forwards_what_it_parsed _ (by decide) (by decide)

end Proxy
