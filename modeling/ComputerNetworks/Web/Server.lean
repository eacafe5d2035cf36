import ComputerNetworks.Lib.Crlf
import ComputerNetworks.Lib.Number
import ComputerNetworks.Lib.Pieces

/-!
# The web server

`HttpRequest`, `HttpResponse` and the operations of `WebServer` behind `accept`. The file system is a map
from paths to the contents of regular files.
-/

open Lib Lib.Bytes Lib.Crlf Lib.Ctype Lib.Fields Lib.Number Lib.Pieces

namespace Web

structure HttpRequest where
  method : Bytes
  path : Bytes
  version : Bytes
  deriving DecidableEq

structure HttpResponse where
  statusCode : Int
  contentType : Bytes
  body : Bytes
  deriving DecidableEq

/-- `HttpResponse response;`. Its status is indeterminate. -/
def HttpResponse.default : HttpResponse := { statusCode := 0, contentType := [], body := [] }

def reason (statusCode : Int) : Bytes :=
  if statusCode = 200 then ofString "OK"
  else if statusCode = 404 then ofString "Not Found"
  else ofString "Unknown"

def HttpResponse.toString (response : HttpResponse) : Bytes :=
  ofString "HTTP/1.1 " ++ intText response.statusCode ++ space :: reason response.statusCode ++
    crlf ++
    (ofString "Content-Type: " ++ response.contentType ++ crlf) ++
    (ofString "Content-Length: " ++ natText response.body.length ++ crlf) ++
    crlf ++
    response.body

/-! ## Files -/

abbrev Files := Bytes → Option Bytes

/-- The part of a string that a C function sees. -/
def cString (s : Bytes) : Bytes := s.takeWhile (· ≠ 0)

/-- What a stream that is opened on `path` has to read. -/
def contents (files : Files) (path : Bytes) : Option Bytes := files (cString path)

def readFile (files : Files) (path : Bytes) : Bytes := (contents files path).getD []

/-! ## Requests -/

def parseRequest (rawRequest : Bytes) : HttpRequest :=
  let method := word isspace rawRequest
  let path := word isspace method.2
  let version := word isspace path.2
  { method := method.1, path := path.1, version := version.1 }

def filePath (publicDir path : Bytes) : Bytes :=
  if path = [slash] then publicDir ++ path ++ ofString "index.html" else publicDir ++ path

def dots : Bytes := [dot, dot]

/-- The path that `handleRequest` passes to `readFile`, if it comes to that. -/
def readPath (publicDir : Bytes) (request : HttpRequest) : Option Bytes :=
  if dots <:+: filePath publicDir request.path then none
  else some (filePath publicDir request.path)

def HttpResponse.notFound (response : HttpResponse) : HttpResponse :=
  { response with
    statusCode := 404
    contentType := ofString "text/plain"
    body := ofString "File Not Found" }

def handleRequest (publicDir : Bytes) (files : Files) (request : HttpRequest) : HttpResponse :=
  let response : HttpResponse :=
    if request.method ≠ ofString "GET" then { HttpResponse.default with statusCode := 405 }
    else .default
  match readPath publicDir request with
  | none => response.notFound
  | some path =>
    let content := readFile files path
    if content ≠ [] then
      { response with statusCode := 200, contentType := ofString "text/html", body := content }
    else response.notFound

/-- What is written to the socket. The client's stream comes in pieces, and one of them is read. -/
def handleClient (publicDir : Bytes) (files : Files) (pieces : List Bytes) : Option Bytes :=
  let buffer := (recv 4095 pieces).1
  if buffer = [] then none
  else some (handleRequest publicDir files (parseRequest (cString buffer))).toString

/-! ## What decides -/

/-- The path that is looked for under the public directory. -/
def indexed (path : Bytes) : Bytes := if path = [slash] then ofString "/index.html" else path

theorem filePath_eq (publicDir path : Bytes) : filePath publicDir path = publicDir ++ indexed path := by
  unfold filePath indexed
  split
  · rename_i hpath
    rw [hpath, List.append_assoc]
    rfl
  · rfl

def ok (content : Bytes) : HttpResponse :=
  { statusCode := 200, contentType := ofString "text/html", body := content }

def fileNotFound : HttpResponse :=
  { statusCode := 404, contentType := ofString "text/plain", body := ofString "File Not Found" }

theorem ok_statusCode (content : Bytes) : (ok content).statusCode = 200 := rfl

theorem fileNotFound_statusCode : fileNotFound.statusCode = 404 := rfl

theorem ok_ne_fileNotFound (content : Bytes) : ok content ≠ fileNotFound := by
  intro h
  have hstatus := congrArg HttpResponse.statusCode h
  rw [ok_statusCode, fileNotFound_statusCode] at hstatus
  exact absurd hstatus (by decide)

theorem ok_injective {content content' : Bytes} (h : ok content = ok content') : content = content' :=
  congrArg HttpResponse.body h

theorem handleRequest_eq (publicDir : Bytes) (files : Files) (request : HttpRequest) :
    handleRequest publicDir files request =
      if dots <:+: publicDir ++ indexed request.path ∨
          readFile files (publicDir ++ indexed request.path) = [] then fileNotFound
      else ok (readFile files (publicDir ++ indexed request.path)) := by
  unfold handleRequest readPath
  rw [filePath_eq]
  by_cases hdots : dots <:+: publicDir ++ indexed request.path
  · simp [hdots, HttpResponse.notFound, fileNotFound]
  · by_cases hcontent : readFile files (publicDir ++ indexed request.path) = []
    · simp [hdots, hcontent, HttpResponse.notFound, fileNotFound]
    · simp [hdots, hcontent, ok]

theorem handleRequest_notFound_iff (publicDir : Bytes) (files : Files) (request : HttpRequest) :
    handleRequest publicDir files request = fileNotFound ↔
      dots <:+: publicDir ++ indexed request.path ∨
        readFile files (publicDir ++ indexed request.path) = [] := by
  rw [handleRequest_eq]
  split
  · rename_i h
    exact iff_of_true rfl h
  · rename_i h
    exact iff_of_false (ok_ne_fileNotFound _) h

theorem handleRequest_ok_iff (publicDir : Bytes) (files : Files) (request : HttpRequest)
    (content : Bytes) :
    handleRequest publicDir files request = ok content ↔
      ¬dots <:+: publicDir ++ indexed request.path ∧ content ≠ [] ∧
        readFile files (publicDir ++ indexed request.path) = content := by
  rw [handleRequest_eq]
  split
  · rename_i h
    refine iff_of_false (fun heq => ok_ne_fileNotFound content heq.symm) ?_
    rintro ⟨hdots, hne, rfl⟩
    exact h.elim hdots hne
  · rename_i h
    rw [not_or] at h
    constructor
    · intro heq
      obtain rfl := ok_injective heq
      exact ⟨h.1, h.2, rfl⟩
    · rintro ⟨-, -, rfl⟩
      rfl

theorem handleRequest_cases (publicDir : Bytes) (files : Files) (request : HttpRequest) :
    handleRequest publicDir files request = fileNotFound ∨
      ∃ content, handleRequest publicDir files request = ok content := by
  rw [handleRequest_eq]
  split
  · exact Or.inl rfl
  · exact Or.inr ⟨_, rfl⟩

theorem dots_append_iff {front back : Bytes}
    (h : front.getLast? ≠ some dot ∨ back.head? ≠ some dot) :
    dots <:+: front ++ back ↔ dots <:+: front ∨ dots <:+: back := by
  rw [List.infix_append_iff_ne_nil]
  refine or_congr_right (or_iff_left ?_)
  rintro ⟨left, right, hleft, hright, heq, hsuffix, hfront⟩
  obtain ⟨c, left, rfl⟩ := List.exists_cons_of_ne_nil hleft
  obtain ⟨d, right, rfl⟩ := List.exists_cons_of_ne_nil hright
  have hlength := congrArg List.length heq
  simp only [dots, List.length_append, List.length_cons, List.length_nil] at hlength
  obtain rfl : left = [] := List.eq_nil_of_length_eq_zero (by omega)
  obtain rfl : right = [] := List.eq_nil_of_length_eq_zero (by omega)
  obtain ⟨rfl, rfl⟩ : dot = c ∧ dot = d := by simpa [dots] using heq
  obtain ⟨before, rfl⟩ := hsuffix
  obtain ⟨behind, rfl⟩ := hfront
  rcases h with h | h
  · exact h (by simp)
  · exact h rfl

theorem dots_indexed_iff (path : Bytes) : dots <:+: indexed path ↔ dots <:+: path := by
  unfold indexed
  split
  · rename_i hpath
    rw [hpath]
    decide
  · rfl

end Web
