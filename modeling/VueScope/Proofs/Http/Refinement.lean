import VueScope.Http.Server
import VueScope.Proofs.Component.Template

/-! Requests to the service and operations of the cache. Each request comes to one operation or
to none, so the cache after any requests is the cache after their operations. -/
namespace VueScope.Http

open Analysis Text

variable {request : Request}

namespace Request

/-- A request that comes to an endpoint by the method it takes. -/
structure Calls (request : Request) (endpoint : Endpoint) : Prop where
  path : Endpoint.ofPath? request.path = some endpoint
  method : request.method = endpoint.method

/-- A well-formed request for the analysis of a document. -/
structure Posts (request : Request) (document : Document) : Prop where
  calls : request.Calls .analysis
  body : request.content document? = .ok document

/-- A well-formed request for the name at an offset of a document. -/
structure Points (request : Request) (document : Document) (offset : Int) : Prop where
  calls : request.Calls .hover
  body : request.content documentAndOffset? = .ok (document,offset)

/-- What a request asks of the cache. -/
inductive Asks (request : Request) : Operation → Prop
  | analysis {document} (posted : request.Posts document) : Asks request (.get document)
  | hover {document offset} (pointed : request.Points document offset) (start : 0 ≤ offset)
      (stop : offset ≤ document.length) : Asks request (.get document)
  | removal {id} (calls : request.Calls .documents)
      (named : request.parameter? "documentId" = some id) : Asks request (.remove id)
  | clearing (calls : request.Calls .cache) : Asks request .clear

def operationAt? (request : Request) : Endpoint → Option Operation
  | .analysis => (request.content document?).toOption.map .get
  | .hover =>
    ((request.content documentAndOffset?).toOption.filter fun (document,offset) =>
      0 ≤ offset && offset ≤ document.length).map fun (document,_) => .get document
  | .documents => (request.parameter? "documentId").map .remove
  | .cache => some .clear
  | .status => none
  | .categories => none

def operation? (request : Request) : Option Operation :=
  (Endpoint.ofPath? request.path).bind fun endpoint =>
    if request.method = endpoint.method then request.operationAt? endpoint else none

theorem Calls.operation?_eq {endpoint : Endpoint} (calls : request.Calls endpoint) :
    request.operation? = request.operationAt? endpoint := by
  rw [operation?,calls.path,Option.bind_some,if_pos calls.method]

theorem exists_calls (request : Request) (operation : Operation)
    (asked : request.operation? = some operation) : ∃ endpoint, request.Calls endpoint := by
  obtain ⟨endpoint,path,found⟩ := Option.bind_eq_some_iff.mp asked
  split at found
  next method => exact ⟨endpoint,path,method⟩
  · contradiction

theorem operation?_eq_some_iff (request : Request) (operation : Operation) :
    request.operation? = some operation ↔ request.Asks operation := by
  constructor
  · intro asked
    obtain ⟨endpoint,calls⟩ := request.exists_calls operation asked
    rw [calls.operation?_eq] at asked
    cases endpoint with
    | status => contradiction
    | categories => contradiction
    | analysis =>
      obtain ⟨document,body,rfl⟩ := Option.map_eq_some_iff.mp asked
      exact .analysis ⟨calls,Component.eq_ok_of_toOption body⟩
    | hover =>
      obtain ⟨⟨document,offset⟩,kept,rfl⟩ := Option.map_eq_some_iff.mp asked
      obtain ⟨body,inside⟩ := Option.filter_eq_some_iff.mp kept
      simp only [Bool.and_eq_true,decide_eq_true_eq] at inside
      exact .hover ⟨calls,Component.eq_ok_of_toOption body⟩ inside.1 inside.2
    | documents =>
      obtain ⟨id,named,rfl⟩ := Option.map_eq_some_iff.mp asked
      exact .removal calls named
    | cache =>
      cases asked
      exact .clearing calls
  · intro asks
    cases asks with
    | analysis posted =>
      rw [posted.calls.operation?_eq,operationAt?,posted.body]
      rfl
    | hover pointed start stop =>
      rw [pointed.calls.operation?_eq,operationAt?,pointed.body]
      simp [Except.toOption,start,stop]
    | removal calls named => rw [calls.operation?_eq,operationAt?,named,Option.map_some]
    | clearing calls => rw [calls.operation?_eq,operationAt?]

end Request

def ofLookUp : Option Hover → Response
  | some hover => .ok (ofHover hover)
  | none => .detail 404 "No identifier at offset"

theorem status_ofLookUp (found : Option Hover) :
    ((ofLookUp found).status = 200 ↔ ∃ hover, found = some hover) ∧
      ((ofLookUp found).status = 404 ↔ found = none) := by
  cases found with
  | none => simp [ofLookUp,Response.detail]
  | some hover => simp [ofLookUp,Response.ok]

section

variable [Recovery]

theorem Request.Calls.respond_analysis (calls : request.Calls .analysis) (cache : Cache Result) :
    respond cache request = answerAnalysis cache request := by
  rw [respond,calls.path]
  exact if_neg (not_not_intro calls.method.symm)

theorem Request.Calls.respond_hover (calls : request.Calls .hover) (cache : Cache Result) :
    respond cache request = answerHover cache request := by
  rw [respond,calls.path]
  exact if_neg (not_not_intro calls.method.symm)

theorem Request.Posts.respond_eq {document : Document} (posted : request.Posts document)
    (cache : Cache Result) :
    respond cache request =
      (.ok (ofAnswer (cache.get analyzer document).1),(cache.get analyzer document).2) := by
  rw [posted.calls.respond_analysis,answerAnalysis,posted.body]

theorem Request.Points.respond_eq {document : Document} {offset : Int}
    (pointed : request.Points document offset) (start : 0 ≤ offset) (stop : offset ≤ document.length)
    (cache : Cache Result) :
    respond cache request =
      (ofLookUp (hover? (cache.get analyzer document).1.result.identifiers document.text offset
        Presentation.defaultIcons),(cache.get analyzer document).2) := by
  have inside : ¬(offset < 0 || document.length < offset) = true := by simp; omega
  rw [pointed.calls.respond_hover,answerHover,pointed.body]
  dsimp only
  rw [if_neg inside]
  split
  next found => rw [found,ofLookUp]
  next absent => rw [absent,ofLookUp]

variable (cache : Cache Result)

theorem cache_respond (request : Request) :
    (respond cache request).2 = cache.run analyzer request.operation?.toList := by
  unfold respond Request.operation?
  cases Endpoint.ofPath? request.path with
  | none => rfl
  | some endpoint =>
    rw [Option.bind_some]
    by_cases method : request.method = endpoint.method
    · dsimp only
      rw [if_neg (not_not_intro method.symm),if_pos method]
      cases endpoint with
      | status => rfl
      | categories => rfl
      | cache => rfl
      | documents =>
        unfold answerRemoval Request.operationAt?
        cases request.parameter? "documentId" <;> rfl
      | analysis =>
        unfold answerAnalysis Request.operationAt?
        cases request.content document? <;> rfl
      | hover =>
        unfold answerHover Request.operationAt?
        cases request.content documentAndOffset? with
        | error _ => rfl
        | ok asked =>
          obtain ⟨document,offset⟩ := asked
          -- an offset outside the text is refused before the cache is asked
          by_cases outside : (offset < 0 || document.length < offset) = true
          · have refused : ¬(0 ≤ offset && offset ≤ document.length) = true := by
              simp at outside ⊢
              omega
            simp only [Except.toOption,if_pos outside,Option.filter_some,if_neg refused]
            rfl
          · have inside : (0 ≤ offset && offset ≤ document.length) = true := by
              simp at outside ⊢
              omega
            simp only [Except.toOption,if_neg outside,Option.filter_some,if_pos inside]
            split <;> rfl
    · dsimp only
      rw [if_pos (Ne.symm method),if_neg method]
      rfl

def serve (requests : List Request) : Cache Result :=
  requests.foldl (fun cache request => (respond cache request).2) cache

theorem run_append (first second : List Operation) :
    cache.run analyzer (first ++ second) = (cache.run analyzer first).run analyzer second :=
  List.foldl_append

theorem serve_eq_run (requests : List Request) :
    serve cache requests = cache.run analyzer (requests.filterMap Request.operation?) := by
  induction requests generalizing cache with
  | nil => rfl
  | cons request rest ih =>
    have first := cache_respond cache request
    have parts : (request :: rest).filterMap Request.operation? =
        request.operation?.toList ++ rest.filterMap Request.operation? := by
      rw [List.filterMap_cons]
      cases request.operation? <;> rfl
    rw [parts,run_append,← first]
    exact ih _

/-- Requests refine operations of the cache. After any requests the cache is the one that their
operations lead to, in their order: an analysis, or a look-up at an offset of the text, is one
analysis of its document, the removal of a document and the clearing are each one operation, and
any other request is none. A look-up is answered from the very result that a request for the
analysis of its document would have got: with what is found there, and else with status 404. -/
theorem requests_refine_cache_operations (cache : Cache Result) (requests : List Request) :
    let state := serve cache requests
    state = cache.run analyzer (requests.filterMap Request.operation?) ∧
    (∀ (request : Request) operation,
      request.operation? = some operation ↔ request.Asks operation) ∧
    ∀ (request : Request) document offset, request.Points document offset →
      0 ≤ offset → offset ≤ document.length →
      ∀ analysis : Request, analysis.Posts document →
        let managed := state.get analyzer document
        let found := hover? managed.1.result.identifiers document.text offset
          Presentation.defaultIcons
        respond state analysis = (.ok (ofAnswer managed.1),managed.2) ∧
        (respond state request).2 = managed.2 ∧
        ((respond state request).1.status = 200 ↔ ∃ hover, found = some hover) ∧
        (∀ hover, found = some hover → (respond state request).1 = .ok (ofHover hover)) ∧
        ((respond state request).1.status = 404 ↔ found = none) := by
  intro state
  refine ⟨serve_eq_run cache requests,Request.operation?_eq_some_iff,?_⟩
  intro request document offset pointed start stop analysis posted managed found
  have looked : respond state request = (ofLookUp found,managed.2) := pointed.respond_eq start stop state
  obtain ⟨present,absent⟩ := status_ofLookUp found
  rw [looked]
  refine ⟨posted.respond_eq state,rfl,present,?_,absent⟩
  intro hover here
  rw [here,ofLookUp]

end

/-- A text that cannot be analysed any more is looked up in the last good result, in which the name
at the offset still stands. The request with a slash at its end is redirected and clears nothing, and
of two ids the last one is removed. -/
theorem look_up_in_last_good_result :
    let body (version : Int) (text : String) (more : List (String × Json)) : Json :=
      .object ([("documentId",.string "a.vue"),("version",.ofInt version),("text",.string text)] ++ more)
    let good := "<script setup>let a = 1</script>"
    let broken := "<script setup>let a = </script>"
    let posted (version : Int) (text : String) : Request :=
      ⟨"POST","/api/analysis",[],some (body version text [])⟩
    let pointed : Request :=
      ⟨"POST","/api/analysis/hover",[],some (body 2 broken [("offset",.string "19")])⟩
    let before : List Request := [posted 1 good,⟨"DELETE","/api/analysis",[],none⟩,
      ⟨"DELETE","/api/analysis/cache/",[],none⟩,
      ⟨"DELETE","/api/analysis/documents",[("documentId","a.vue"),("documentId","b.vue")],none⟩,
      posted 2 broken]
    before.filterMap Request.operation? =
        [.get ⟨"a.vue",1,good.toList⟩,.remove "b.vue",.get ⟨"a.vue",2,broken.toList⟩] ∧
      pointed.Points ⟨"a.vue",2,broken.toList⟩ 19 ∧
      (posted 2 broken).Posts ⟨"a.vue",2,broken.toList⟩ ∧
      (respond (serve ∅ before) pointed).1.status = 200 := by
  intro body good broken posted pointed before
  have points : pointed.Points ⟨"a.vue",2,broken.toList⟩ 19 :=
    ⟨⟨by decide +kernel,rfl⟩,Component.eq_ok_of_toOption (by decide +kernel)⟩
  have posts : (posted 2 broken).Posts ⟨"a.vue",2,broken.toList⟩ :=
    ⟨⟨by decide +kernel,rfl⟩,Component.eq_ok_of_toOption (by decide +kernel)⟩
  have found : (hover? ((serve ∅ before).get analyzer ⟨"a.vue",2,broken.toList⟩).1.result.identifiers
      broken.toList 19 Presentation.defaultIcons).isSome = true := by decide +kernel
  obtain ⟨_,_,lookUps⟩ := requests_refine_cache_operations ∅ before
  obtain ⟨_,_,status,_⟩ := lookUps pointed _ 19 points (by decide) (by decide) _ posts
  exact ⟨by decide +kernel,points,posts,status.mpr (Option.isSome_iff_exists.mp found)⟩

end VueScope.Http
