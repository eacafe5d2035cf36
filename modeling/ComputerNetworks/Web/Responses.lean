import ComputerNetworks.Web.Server

/-!
# What the web server answers

The files that a request can reach, and the response that it should get.
-/

open Lib Lib.Bytes Lib.Crlf

namespace Web

/-! ## Confinement -/

/-- The path leads from the public directory down, and never up. -/
def Confined (publicDir path : Bytes) : Prop :=
  ∃ relative, path = publicDir ++ slash :: relative ∧ dots ∉ relative.splitOn slash

theorem confined_of_not_dots {publicDir relative : Bytes}
    (h : ¬dots <:+: publicDir ++ slash :: relative) : Confined publicDir (publicDir ++ slash :: relative) := by
  refine ⟨relative, rfl, fun hmem => h ?_⟩
  have hjoin := Text.infix_join slash hmem
  rw [Text.join, List.intercalate_splitOn] at hjoin
  exact hjoin.trans ((List.suffix_cons _ _).trans (List.suffix_append _ _)).isInfix

theorem readPath_eq_some_iff {publicDir : Bytes} {request : HttpRequest} {path : Bytes} :
    readPath publicDir request = some path ↔
      ¬dots <:+: publicDir ++ indexed request.path ∧ publicDir ++ indexed request.path = path := by
  unfold readPath
  rw [filePath_eq]
  split
  · rename_i hdots
    simp [hdots]
  · rename_i hdots
    simp [hdots]

theorem indexed_slash {path : Bytes} (h : path.head? = some slash) :
    ∃ relative, indexed path = slash :: relative := by
  obtain ⟨relative, rfl⟩ := List.head?_eq_some_iff.mp h
  unfold indexed
  split
  · exact ⟨ofString "index.html", rfl⟩
  · exact ⟨relative, rfl⟩

theorem indexed_of_not_slash {path : Bytes} (h : path.head? ≠ some slash) : indexed path = path := by
  unfold indexed
  rw [if_neg]
  rintro rfl
  exact h rfl

/-- **Confinement.** What is read for a request stands in the public directory exactly if its path
begins with a slash, or two dots keep it from being read. -/
theorem confined_iff (publicDir rawRequest : Bytes) :
    (∀ path, readPath publicDir (parseRequest rawRequest) = some path → Confined publicDir path) ↔
      (parseRequest rawRequest).path.head? = some slash ∨
        dots <:+: publicDir ++ (parseRequest rawRequest).path := by
  simp only [readPath_eq_some_iff]
  constructor
  · intro h
    by_contra hnot
    obtain ⟨hslash, hdots⟩ := not_or.mp hnot
    rw [indexed_of_not_slash hslash] at h
    obtain ⟨relative, heq, -⟩ := h _ ⟨hdots, rfl⟩
    rw [List.append_cancel_left heq] at hslash
    exact hslash rfl
  · rintro h path ⟨hdots, rfl⟩
    by_cases hslash : (parseRequest rawRequest).path.head? = some slash
    · obtain ⟨relative, hindexed⟩ := indexed_slash hslash
      rw [hindexed] at hdots ⊢
      exact confined_of_not_dots hdots
    · rw [indexed_of_not_slash hslash] at hdots
      exact absurd (h.resolve_left hslash) hdots

/-- Next to `./public` there is `./public-old`. -/
theorem sibling_read : ¬ ∀ publicDir rawRequest path,
    readPath publicDir (parseRequest rawRequest) = some path → Confined publicDir path := by
  intro h
  obtain ⟨relative, heq, -⟩ := h (ofString "./public") (ofString "GET -old/key HTTP/1.1\r\n\r\n")
    (ofString "./public-old/key") (by decide)
  have hsibling : ofString "./public-old/key" = ofString "./public" ++ ofString "-old/key" := by decide
  rw [hsibling] at heq
  have hhead : some hyphen = some slash := congrArg List.head? (List.append_cancel_left heq)
  exact absurd hhead (by decide)

/-! ## Responses -/

/-- What stands at `path` behind the public directory stands in it. -/
def Under (publicDir path : Bytes) : Prop :=
  path.head? = some slash ∨ publicDir.getLast? = some slash

/-- The request path names a regular file of the public directory, which has this content. -/
structure Serves (publicDir : Bytes) (files : Files) (path content : Bytes) : Prop where
  not_dots : ¬dots <:+: path
  under : Under publicDir path
  file : contents files (publicDir ++ indexed path) = some content

/-- The response that a request should get. -/
def Specified (publicDir : Bytes) (files : Files) (request : HttpRequest) (response : HttpResponse) :
    Prop :=
  if request.method = ofString "GET" then
    (∀ content, Serves publicDir files request.path content → response = ok content) ∧
      ((∀ content, ¬Serves publicDir files request.path content) → response = fileNotFound)
  else
    response.statusCode = 405 ∧
      ∀ path content, contents files path = some content → content ≠ [] → response.body ≠ content

variable {publicDir path : Bytes} {files : Files}

theorem dots_under_iff (h : Under publicDir path) :
    dots <:+: publicDir ++ indexed path ↔ dots <:+: publicDir ∨ dots <:+: path := by
  rw [dots_append_iff, dots_indexed_iff]
  rcases h with h | h
  · obtain ⟨relative, hindexed⟩ := indexed_slash h
    rw [hindexed, List.head?_cons]
    exact Or.inr (by decide)
  · rw [h]
    exact Or.inl (by decide)

theorem handleRequest_serves {request : HttpRequest} {content : Bytes}
    (h : Serves publicDir files request.path content) :
    handleRequest publicDir files request = ok content ↔ content ≠ [] ∧ ¬dots <:+: publicDir := by
  have hread : readFile files (publicDir ++ indexed request.path) = content := by
    rw [readFile, h.file, Option.getD_some]
  rw [handleRequest_ok_iff, dots_under_iff h.under, hread, or_iff_left h.not_dots, and_comm,
    and_assoc, and_iff_right_of_imp fun _ => rfl]

theorem handleRequest_not_serves {request : HttpRequest}
    (h : ∀ content, ¬Serves publicDir files request.path content) :
    handleRequest publicDir files request = fileNotFound ↔
      (¬Under publicDir request.path → ¬dots <:+: publicDir ++ request.path →
        readFile files (publicDir ++ request.path) = []) := by
  rw [handleRequest_notFound_iff]
  by_cases hunder : Under publicDir request.path
  · refine iff_of_true ?_ fun hnot => absurd hunder hnot
    by_cases hdots : dots <:+: request.path
    · exact Or.inl ((dots_under_iff hunder).mpr (Or.inr hdots))
    · right
      unfold readFile
      cases hfile : contents files (publicDir ++ indexed request.path) with
      | none => rfl
      | some content => exact absurd ⟨hdots, hunder, hfile⟩ (h content)
  · rw [indexed_of_not_slash fun hslash => hunder (Or.inl hslash)]
    exact ⟨fun hor _ hdots => hor.resolve_left hdots,
      fun hall => or_iff_not_imp_left.mpr fun hdots => hall hunder hdots⟩

/-- **Responses.** The response is the one that the request should get exactly for a `GET` that names no
empty file, with a public directory in whose own path no two dots stand next to each other, and whose
path does not lead to a file beside that directory. -/
theorem response_iff (publicDir : Bytes) (files : Files) (request : HttpRequest) :
    Specified publicDir files request (handleRequest publicDir files request) ↔
      request.method = ofString "GET" ∧
        (∀ content, Serves publicDir files request.path content →
          content ≠ [] ∧ ¬dots <:+: publicDir) ∧
        (¬Under publicDir request.path → ¬dots <:+: publicDir ++ request.path →
          readFile files (publicDir ++ request.path) = []) := by
  unfold Specified
  split
  · rename_i hget
    constructor
    · rintro ⟨hserves, hnone⟩
      refine ⟨hget, fun content h => (handleRequest_serves h).mp (hserves content h), ?_⟩
      intro hunder
      have hnot : ∀ content, ¬Serves publicDir files request.path content :=
        fun content h => hunder h.under
      exact (handleRequest_not_serves hnot).mp (hnone hnot) hunder
    · rintro ⟨-, hserves, houtside⟩
      exact ⟨fun content h => (handleRequest_serves h).mpr (hserves content h),
        fun h => (handleRequest_not_serves h).mpr houtside⟩
  · rename_i hget
    refine iff_of_false (fun h => ?_) fun h => hget h.1
    have hstatus := h.1
    rcases handleRequest_cases publicDir files request with heq | ⟨content, heq⟩
    · rw [heq, fileNotFound_statusCode] at hstatus
      exact absurd hstatus (by decide)
    · rw [heq, ok_statusCode] at hstatus
      exact absurd hstatus (by decide)

/-- A file system with one file, which has one letter. -/
def oneFile (path : Bytes) : Files := fun p => if p = path then some (ofString "A") else none

/-- A `POST`, an empty file, a public directory with two dots in its path, and a file beside it. -/
theorem response_missed :
    let request (method path : String) : HttpRequest :=
      ⟨ofString method, ofString path, ofString "HTTP/1.1"⟩
    let missed (publicDir : Bytes) (files : Files) (request : HttpRequest) : Prop :=
      ¬Specified publicDir files request (handleRequest publicDir files request)
    missed (ofString "d") (oneFile (ofString "d/a")) (request "POST" "/a") ∧
      missed (ofString "d") (fun _ => some []) (request "GET" "/a") ∧
      missed (ofString "../d") (oneFile (ofString "../d/a")) (request "GET" "/a") ∧
      missed (ofString "d") (oneFile (ofString "d-old")) (request "GET" "-old") := by
  refine ⟨fun h => ?_, fun h => ?_, fun h => ?_, fun h => ?_⟩
  · rw [Specified, if_neg (by decide)] at h
    exact absurd h.1 (by decide)
  · rw [Specified, if_pos (by decide)] at h
    exact absurd (h.1 [] ⟨by decide, Or.inl rfl, rfl⟩) (by decide)
  · rw [Specified, if_pos (by decide)] at h
    exact absurd (h.1 (ofString "A") ⟨by decide, Or.inl rfl, by decide⟩) (by decide)
  · rw [Specified, if_pos (by decide)] at h
    refine absurd (h.2 fun content hserves => ?_) (by decide)
    exact hserves.under.elim (by decide) (by decide)

end Web
