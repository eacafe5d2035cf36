import ComputerNetworks.Web.Responses

/-!
# Requests that come in pieces

`handleClient` reads once. What it answers depends on how much of the path the first piece has.
-/

open Lib Lib.Bytes Lib.Crlf Lib.Ctype Lib.Fields Lib.Number Lib.Pieces

namespace Web

/-! ## The path in a front of the request -/

/-- A `GET` line, and anything behind it. -/
def getRequest (path rest : Bytes) : Bytes := ofString "GET" ++ space :: (path ++ space :: rest)

theorem word_solid {w : Bytes} (hw : ∀ c ∈ w, isspace c = false) : word isspace w = (w, []) := by
  by_cases hne : w = []
  · rw [hne]
    rfl
  · have hword : word isspace (w ++ []) = (w, []) := word_append hne hw (by simp)
    rwa [List.append_nil] at hword

theorem parseRequest_take {path : Bytes} (hne : path ≠ [])
    (hsolid : ∀ c ∈ path, isspace c = false) (rest : Bytes) (k : Nat) :
    (parseRequest ((getRequest path rest).take k)).path = path.take (k - 4) := by
  have hget : ∀ c ∈ ofString "GET", isspace c = false := forall_of_all rfl
  have hlength : (ofString "GET").length = 3 := rfl
  unfold parseRequest getRequest
  dsimp only
  rw [List.take_append]
  by_cases hk : k ≤ 3
  · have hfront : ∀ c ∈ (ofString "GET").take k, isspace c = false :=
      fun c hc => hget c (List.take_subset _ _ hc)
    have hnone : k - 4 = 0 := by omega
    rw [hlength, Nat.sub_eq_zero_of_le hk, List.take_zero, List.append_nil, word_solid hfront, hnone,
      List.take_zero]
    rfl
  · obtain ⟨n, rfl⟩ : ∃ n, k = n + 4 := ⟨k - 4, by omega⟩
    have htake : n + 4 - 3 = n + 1 := by omega
    rw [List.take_of_length_le (by omega), hlength, htake, List.take_succ_cons,
      word_append (by decide) hget (by rintro c ⟨⟩; rfl)]
    dsimp only
    rw [word_cons rfl, Nat.add_sub_cancel, List.take_append]
    by_cases hn : n ≤ path.length
    · have hfront : ∀ c ∈ path.take n, isspace c = false := fun c hc => hsolid c (List.take_subset _ _ hc)
      rw [Nat.sub_eq_zero_of_le hn, List.take_zero, List.append_nil, word_solid hfront]
    · obtain ⟨m, rfl⟩ : ∃ m, n = path.length + (m + 1) := ⟨n - path.length - 1, by omega⟩
      have hpath : path.take (path.length + (m + 1)) = path := List.take_of_length_le (by omega)
      rw [Nat.add_sub_cancel_left, List.take_succ_cons, hpath,
        word_append hne hsolid (by rintro c ⟨⟩; rfl)]

/-! ## Paths that are answered alike -/

theorem cString_of_notMem {s : Bytes} (h : 0 ∉ s) : cString s = s :=
  List.takeWhile_eq_self_iff.mpr fun _ hc => decide_eq_true fun hzero => h (hzero ▸ hc)

theorem notMem_indexed {path : Bytes} (h : 0 ∉ path) : 0 ∉ ofString "d" ++ indexed path := by
  unfold indexed
  split
  · decide
  · rw [List.mem_append, not_or]
    exact ⟨by decide, h⟩

theorem toString_ok_ne (content : Bytes) : (ok content).toString ≠ fileNotFound.toString := by
  intro h
  have htexts : ofString "HTTP/1.1 " ++ intText 200 ≠ ofString "HTTP/1.1 " ++ intText 404 := by decide
  unfold HttpResponse.toString at h
  simp only [List.append_assoc] at h
  rw [← List.append_assoc, ← List.append_assoc (ofString "HTTP/1.1 ")] at h
  exact htexts (List.append_inj_left h rfl)

theorem oneFile_tells {request request' : HttpRequest} (hzero : 0 ∉ request.path)
    (hzero' : 0 ∉ request'.path) (hdots : ¬dots <:+: request'.path)
    (hne : indexed request.path ≠ indexed request'.path) :
    let files := oneFile (ofString "d" ++ indexed request'.path)
    (handleRequest (ofString "d") files request).toString ≠
      (handleRequest (ofString "d") files request').toString := by
  intro files
  have hread : readFile files (ofString "d" ++ indexed request.path) = [] := by
    have hother : ofString "d" ++ indexed request.path ≠ ofString "d" ++ indexed request'.path :=
      fun heq => hne (List.append_cancel_left heq)
    rw [readFile, contents, cString_of_notMem (notMem_indexed hzero)]
    exact congrArg (Option.getD · []) (if_neg hother)
  have hread' : readFile files (ofString "d" ++ indexed request'.path) = ofString "A" := by
    rw [readFile, contents, cString_of_notMem (notMem_indexed hzero')]
    exact congrArg (Option.getD · []) (if_pos rfl)
  have hfree : ¬dots <:+: ofString "d" ++ indexed request'.path := by
    rw [dots_append_iff (Or.inl (by decide)), dots_indexed_iff, not_or]
    exact ⟨by decide, hdots⟩
  rw [(handleRequest_notFound_iff _ _ _).mpr (Or.inr hread),
    (handleRequest_ok_iff _ _ _ _).mpr ⟨hfree, by decide, hread'⟩]
  exact (toString_ok_ne _).symm

/-- Every server answers two requests alike exactly when they name one file, or both have two dots. -/
theorem answered_alike_iff {request request' : HttpRequest} (hzero : 0 ∉ request.path)
    (hzero' : 0 ∉ request'.path) :
    (∀ publicDir files, (handleRequest publicDir files request).toString =
        (handleRequest publicDir files request').toString) ↔
      indexed request.path = indexed request'.path ∨
        dots <:+: request.path ∧ dots <:+: request'.path := by
  constructor
  · intro h
    by_contra hnot
    rw [not_or, not_and_or] at hnot
    obtain ⟨hne, hdots | hdots⟩ := hnot
    · exact oneFile_tells hzero' hzero hdots (Ne.symm hne) (h _ _).symm
    · exact oneFile_tells hzero hzero' hdots hne (h _ _)
  · rintro (heq | ⟨hdots, hdots'⟩) publicDir files
    · rw [handleRequest_eq, handleRequest_eq, heq]
    · have hinside : ∀ path, dots <:+: path → dots <:+: publicDir ++ indexed path :=
        fun path h => ((dots_indexed_iff path).mpr h).trans (List.suffix_append _ _).isInfix
      rw [(handleRequest_notFound_iff _ _ _).mpr (Or.inl (hinside _ hdots)),
        (handleRequest_notFound_iff _ _ _).mpr (Or.inl (hinside _ hdots'))]

theorem indexed_take_iff {path : Bytes} (n : Nat) :
    indexed (path.take n) = indexed path ↔
      path.length ≤ n ∨ path = ofString "/index.html" ∧ n = 1 := by
  by_cases hall : path.length ≤ n
  · rw [List.take_of_length_le hall]
    exact iff_of_true rfl (Or.inl hall)
  rw [or_iff_right hall]
  have hlength : (path.take n).length = n := by
    rw [List.length_take]
    omega
  constructor
  · intro heq
    unfold indexed at heq
    split at heq
    · rename_i hslash
      have hn : n = 1 := by
        rw [← hlength, hslash]
        rfl
      split at heq
      · rename_i hpath
        rw [hpath] at hall
        exact absurd hall (by rw [hn]; decide)
      · exact ⟨heq.symm, hn⟩
    · split at heq
      · rename_i hpath
        rw [heq] at hlength
        rw [hpath, ← hlength] at hall
        exact absurd hall (by decide)
      · rw [heq] at hlength
        omega
  · rintro ⟨rfl, rfl⟩
    decide

/-! ## Segments -/

theorem handleClient_eq (publicDir : Bytes) (files : Files) {first : Bytes} (back : List Bytes)
    (hne : first ≠ []) (hlength : first.length ≤ 4095) (hzero : 0 ∉ first) :
    handleClient publicDir files (first :: back) =
      some (handleRequest publicDir files (parseRequest first)).toString := by
  unfold handleClient recv
  dsimp only
  rw [List.take_of_length_le hlength, if_neg hne, cString_of_notMem hzero]

/-- **Segments.** Whatever its files, the server answers a request that comes in pieces as it answers
the whole request exactly if the first piece has all of the path, or has `/` of `/index.html`, or has
two dots of the path. -/
theorem segments_iff (path rest first : Bytes) (back : List Bytes) (hpath : path ≠ [])
    (hsolid : ∀ c ∈ path, isspace c = false) (hlength : (getRequest path rest).length ≤ 4095)
    (hzero : 0 ∉ getRequest path rest) (hfirst : first ≠ [])
    (hstream : (first :: back).flatten = getRequest path rest) :
    (∀ publicDir files, handleClient publicDir files (first :: back) =
        handleClient publicDir files [getRequest path rest]) ↔
      4 + path.length ≤ first.length ∨
        path = ofString "/index.html" ∧ first.length = 5 ∨
        dots <:+: path.take (first.length - 4) := by
  have hpiece : first <+: getRequest path rest := ⟨back.flatten, hstream⟩
  have htake : (getRequest path rest).take first.length = first :=
    (List.prefix_iff_eq_take.mp hpiece).symm
  have hcut : (parseRequest first).path = path.take (first.length - 4) := by
    have hparsed := parseRequest_take hpath hsolid rest first.length
    rwa [htake] at hparsed
  have hwhole : (parseRequest (getRequest path rest)).path = path := by
    have hparsed := parseRequest_take hpath hsolid rest (getRequest path rest).length
    rw [List.take_length] at hparsed
    have hlength : path.length ≤ (getRequest path rest).length - 4 := by
      simp only [getRequest, List.length_append, List.length_cons]
      change path.length ≤ 3 + _ - 4
      omega
    rw [hparsed, List.take_of_length_le hlength]
  have hzeroPath : 0 ∉ path := fun hmem => hzero (by simp [getRequest, hmem])
  have hne : getRequest path rest ≠ [] := by simp [getRequest]
  have hanswer : ∀ publicDir files,
      (handleClient publicDir files (first :: back) =
        handleClient publicDir files [getRequest path rest] ↔
      (handleRequest publicDir files (parseRequest first)).toString =
        (handleRequest publicDir files (parseRequest (getRequest path rest))).toString) := by
    intro publicDir files
    rw [handleClient_eq publicDir files back hfirst (hpiece.length_le.trans hlength)
      fun hmem => hzero (hpiece.subset hmem),
      handleClient_eq publicDir files [] hne hlength hzero, Option.some.injEq]
  simp only [hanswer]
  rw [answered_alike_iff, hcut, hwhole, indexed_take_iff]
  · have hpositive := List.length_pos_of_ne_nil hpath
    have hall : path.length ≤ first.length - 4 ↔ 4 + path.length ≤ first.length := by omega
    have hindex : first.length - 4 = 1 ↔ first.length = 5 := by omega
    have hdots : dots <:+: path.take (first.length - 4) → dots <:+: path :=
      fun h => h.trans (List.take_prefix _ _).isInfix
    rw [hall, hindex, and_iff_left_of_imp hdots, or_assoc]
  · rw [hcut]
    exact fun hmem => hzeroPath (List.take_subset _ _ hmem)
  · rw [hwhole]
    exact hzeroPath

/-- The first piece of the request for `/ab` ends behind its path. -/
theorem path_first :
    handleClient (ofString "d") (oneFile (ofString "d/ab"))
        [ofString "GET /ab", ofString " HTTP/1.1\r\n\r\n"] =
      handleClient (ofString "d") (oneFile (ofString "d/ab"))
        [getRequest (ofString "/ab") (ofString "HTTP/1.1\r\n\r\n")] :=
  (segments_iff (ofString "/ab") (ofString "HTTP/1.1\r\n\r\n") (ofString "GET /ab")
    [ofString " HTTP/1.1\r\n\r\n"] (by decide) (forall_of_all rfl) (by decide) (by decide) (by decide)
    (by decide)).mpr (Or.inl (by decide)) (ofString "d") (oneFile (ofString "d/ab"))

/-- A request for `/ab` that is cut inside its path is answered with the file `/a`. -/
theorem path_cut : ¬ ∀ (path rest first : Bytes) (back : List Bytes) (publicDir : Bytes) (files : Files),
    path ≠ [] → (∀ c ∈ path, isspace c = false) → (getRequest path rest).length ≤ 4095 →
    0 ∉ getRequest path rest → first ≠ [] → (first :: back).flatten = getRequest path rest →
    handleClient publicDir files (first :: back) =
      handleClient publicDir files [getRequest path rest] := by
  intro h
  have hcut := h (ofString "/ab") (ofString "HTTP/1.1\r\n\r\n") (ofString "GET /a")
    [ofString "b HTTP/1.1\r\n\r\n"] (ofString "d") (oneFile (ofString "d/a"))
    (by decide) (forall_of_all rfl) (by decide) (by decide) (by decide) (by decide)
  exact absurd hcut (by decide)

end Web
