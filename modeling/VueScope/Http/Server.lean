import VueScope.Http.JsonReader
import VueScope.Http.Payload
import VueScope.Http.Request

/-! The service that editors talk to. Its only state is the cache of analyses. -/
namespace VueScope.Http

open Analysis

variable [Recovery]

inductive Endpoint where
  | status
  | analysis
  | hover
  | documents
  | cache
  | categories
deriving DecidableEq, Repr

namespace Endpoint

def path : Endpoint → String
  | status => "/api-status"
  | analysis => "/api/analysis"
  | hover => "/api/analysis/hover"
  | documents => "/api/analysis/documents"
  | cache => "/api/analysis/cache"
  | categories => "/api/analysis/categories"

def method : Endpoint → String
  | status => "GET"
  | analysis => "POST"
  | hover => "POST"
  | documents => "DELETE"
  | cache => "DELETE"
  | categories => "GET"

def all : List Endpoint :=
  [status, analysis, hover, documents, cache, categories]

/-- The endpoint of a path; a line end behind the path does not matter. -/
def ofPath? (path : String) : Option Endpoint :=
  all.find? fun endpoint => path = endpoint.path || path = endpoint.path ++ "\n"

/-- Where a path with slashes at its end leads: to the endpoint without them. -/
def redirect? (path : String) : Option String :=
  let bare := String.ofList (path.toList.reverse.dropWhile (· = '/')).reverse
  if bare ≠ path && (ofPath? bare).isSome then some bare else none

end Endpoint

def analyzer : Analyzer Failure Result :=
  ⟨Analysis.analyze, ∅⟩

def statusMessage : String :=
  "Vue Glimpse Server is running. Visit /docs for API documentation."

def overrides (name : String) (written : Option String) :
    Except Response (List (String × Option String)) :=
  match written with
  | none => .ok []
  | some text =>
    if text = "" then .ok []
    else
      match Json.read text.toList with
      | .error fault => .error (.detail 400 ("Invalid JSON in '" ++ name ++ "': " ++ fault.message))
      | .ok (.object entries) => .ok (entries.map fun (key, value) => (key, value.string?))
      | .ok _ => .error (.detail 400 ("'" ++ name ++ "' must be a JSON object"))

variable (cache : Cache Result) (request : Request)

def answerCategories : Response :=
  match overrides "icons" (request.parameter? "icons") with
  | .error refused => refused
  | .ok icons =>
    match overrides "colors" (request.parameter? "colors") with
    | .error refused => refused
    | .ok colors =>
      .ok (ofCategories (Presentation.defaultIcons.override icons)
        (Presentation.defaultColors.override colors))

def answerAnalysis : Response × Cache Result :=
  match request.content document? with
  | .error refused => (refused, cache)
  | .ok document =>
    let (answer, after) := cache.get analyzer document
    (.ok (ofAnswer answer), after)

def answerHover : Response × Cache Result :=
  match request.content documentAndOffset? with
  | .error refused => (refused, cache)
  | .ok (document, offset) =>
    if offset < 0 || document.length < offset then (.detail 400 "Offset outside document", cache)
    else
      let (answer, after) := cache.get analyzer document
      match hover? answer.result.identifiers document.text offset Presentation.defaultIcons with
      | some hover => (.ok (ofHover hover), after)
      | none => (.detail 404 "No identifier at offset", after)

def answerRemoval : Response × Cache Result :=
  match request.parameter? "documentId" with
  | none => (.unprocessable, cache)
  | some id => (.ok (.ofTexts [("removed", id)]), cache.remove id)

def respond : Response × Cache Result :=
  match Endpoint.ofPath? request.path with
  | none =>
    (match Endpoint.redirect? request.path with
      | some path => .redirect path
      | none => .detail 404 "Not Found", cache)
  | some endpoint =>
    if endpoint.method ≠ request.method then (.detail 405 "Method Not Allowed", cache)
    else
      match endpoint with
      | .status => (.ok (.ofTexts [("message", statusMessage)]), cache)
      | .analysis => answerAnalysis cache request
      | .hover => answerHover cache request
      | .documents => answerRemoval cache request
      | .cache => (.ok (.object [("cleared", .bool true)]), cache.clear)
      | .categories => (answerCategories request, cache)

/-- What a client gets that asks again where it is redirected to. -/
def answer : Response × Cache Result :=
  match respond cache request with
  | (⟨_, _, some path⟩, after) => respond after { request with path }
  | answered => answered

end VueScope.Http
