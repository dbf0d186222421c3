import VueScope.Analysis.File
import VueScope.Proofs.Analysis.Session
import VueScope.Proofs.Component.Description

/-! The cache in front of the analysis of component files answers as if every file were
analysed anew. What a file is called, its version and the compilations before it do not show
in its result. -/
namespace VueScope.Component

def renamed (filename : String) (found : Descriptor × List Diagnostic) :
    Descriptor × List Diagnostic :=
  ({ found.1 with filename },found.2)

theorem addNode_renamed (filename : String) (text : List Char)
    (found : Descriptor × List Diagnostic) (node : Markup.Node) :
    addNode text (renamed filename found) node = renamed filename (addNode text found node) := by
  rw [addNode_eq,addNode_eq]
  rfl

theorem foldl_renamed (filename : String) (text : List Char) (nodes : List Markup.Node)
    (found : Descriptor × List Diagnostic) :
    nodes.foldl (addNode text) (renamed filename found) =
      renamed filename (nodes.foldl (addNode text) found) := by
  induction nodes generalizing found with
  | nil => rfl
  | cons node rest ih => rw [List.foldl_cons,addNode_renamed,ih,List.foldl_cons]

variable [Recovery]

theorem parse_renamed {first : String} (second : String) {text : List Char} {parsed : Parsed}
    (split : parse first text = .ok parsed) :
    parse second text =
      .ok { parsed with descriptor := { parsed.descriptor with filename := second } } := by
  have blocks := foldl_renamed second text (Markup.readFile (Markup.mask text)).nodes
    (Descriptor.empty first,[])
  unfold parse assemble at split ⊢
  dsimp only at split ⊢
  rw [show (Descriptor.empty second,([] : List Diagnostic)) =
    renamed second (Descriptor.empty first,[]) from rfl,blocks]
  split at split
  · contradiction
  next usable =>
    cases split
    exact if_neg usable

end VueScope.Component

namespace VueScope.Analysis

open Text

/-- No document is requested with one version and two texts. -/
def Consistent (operations : List Operation) : Prop :=
  ∀ first second, .get first ∈ operations → .get second ∈ operations →
    first.uri = second.uri → first.version = second.version → first.text = second.text

def Operation.document? : Operation → Option Document
  | .get document => some document
  | _ => none

theorem mem_documents (operations : List Operation) (document : Document) :
    document ∈ operations.filterMap Operation.document? ↔ .get document ∈ operations := by
  rw [List.mem_filterMap]
  constructor
  · rintro ⟨operation,member,asked⟩
    cases operation with
    | get _ => cases asked; exact member
    | remove _ => contradiction
    | clear => contradiction
    | has _ => contradiction
  · intro member
    exact ⟨.get document,member,rfl⟩

instance (operations : List Operation) : Decidable (Consistent operations) :=
  decidable_of_iff
    (∀ first ∈ operations.filterMap Operation.document?,
      ∀ second ∈ operations.filterMap Operation.document?,
        first.uri = second.uri → first.version = second.version → first.text = second.text)
    (by
      simp only [mem_documents,Consistent]
      exact ⟨fun all first second asked again => all first asked second again,
        fun all first asked second again => all first second asked again⟩)

def Operation.requested? (id : String) (operation : Operation) : Option Document :=
  operation.document?.filter fun document => document.uri = id

/-- The requests for a document since its entry was last dropped, oldest first. -/
def requestedSince (id : String) (operations : List Operation) : List Document :=
  since (Operation.forgets id) (Operation.requested? id) operations

theorem of_mem_requestedSince {id : String} {operations : List Operation} {document : Document}
    (member : document ∈ requestedSince id operations) :
    .get document ∈ operations ∧ document.uri = id := by
  obtain ⟨operation,inside,asked⟩ := List.mem_filterMap.mp member
  have among := (List.rtakeWhile_suffix _ operations).subset inside
  obtain ⟨read,own⟩ := Option.filter_eq_some_iff.mp asked
  exact ⟨(mem_documents _ _).mp (List.mem_filterMap.mpr ⟨operation,among,read⟩),of_decide_eq_true own⟩

section

variable [Recovery]

theorem classify_renamed (filename : String) (component : Component.Descriptor) :
    classify { component with filename } = classify component := by
  obtain ⟨_,_,script,scriptSetup,_,_⟩ := component
  cases scriptSetup with
  | none => cases script <;> rfl
  | some setup => cases script <;> simp only [classify,Setup.compile]

theorem markTemplate_eq_of_text_eq (nodes : Option (List Template.Node)) (identifiers : Identifiers)
    {first second : Document} (same : first.text = second.text) :
    markTemplate nodes identifiers first = markTemplate nodes identifiers second := by
  obtain ⟨_,_,text⟩ := first
  obtain ⟨_,_,_⟩ := second
  cases same
  rfl

def filenameOf (document : Document) : String :=
  if document.uri = "" then Component.defaultFilename else document.uri

variable (manager : Manager) (ids : Setup.CompilationIds) (before operations : List Operation)
  (document : Document)

theorem analyze_eq_bind :
    analyze document = (do
      let parsed ← Component.parse (filenameOf document) document.text
      let identifiers ← classify parsed.descriptor
      return markTemplate parsed.descriptor.tree? identifiers document) :=
  rfl

theorem analyze_eq_ok_iff (result : Result) :
    analyze document = .ok result ↔
      ∃ parsed identifiers, Component.parse (filenameOf document) document.text = .ok parsed ∧
        classify parsed.descriptor = .ok identifiers ∧
        markTemplate parsed.descriptor.tree? identifiers document = result := by
  rw [analyze_eq_bind]
  cases Component.parse (filenameOf document) document.text with
  | error _ => simp [bind,Except.bind]
  | ok parsed =>
    cases classified : classify parsed.descriptor with
    | error _ => simp [bind,Except.bind,classified]
    | ok identifiers => simp [bind,Except.bind,pure,Except.pure,classified]

theorem analyze_eq_of_text_eq (first second : Document) (same : first.text = second.text)
    (result : Result) (ran : analyze first = .ok result) : analyze second = .ok result := by
  obtain ⟨parsed,identifiers,split,classified,marked⟩ := (analyze_eq_ok_iff first result).mp ran
  rw [same] at split
  rw [markTemplate_eq_of_text_eq _ identifiers same] at marked
  exact (analyze_eq_ok_iff second result).mpr
    ⟨_,identifiers,Component.parse_renamed (filenameOf second) split,
      (classify_renamed _ _).trans classified,marked⟩

theorem analyzeText_eq_ok_iff (result : Result) :
    analyzeText document.text = .ok result ↔ analyze document = .ok result :=
  ⟨analyze_eq_of_text_eq ⟨Component.defaultFilename,0,document.text⟩ document rfl result,
    analyze_eq_of_text_eq document ⟨Component.defaultFilename,0,document.text⟩ rfl result⟩

theorem analyze_fails (failure : Failure) (failed : analyzeText document.text = .error failure) :
    ∃ error, analyze document = .error error := by
  cases ran : analyze document with
  | error error => exact ⟨error,rfl⟩
  | ok result =>
    rw [(analyzeText_eq_ok_iff document result).mpr ran] at failed
    contradiction

/-- An analysis together with the ids that are left after it: one is used up for each setup
script that is compiled, whether that succeeds or not. -/
def analyzeWith (ids : Setup.CompilationIds) (document : Document) :
    Except Failure Result × Setup.CompilationIds :=
  match Component.parse (filenameOf document) document.text with
  | .error failure => (.error failure,ids)
  | .ok parsed =>
    let compiles := parsed.descriptor.scriptSetup.isSome
    let marked := (classify parsed.descriptor).map fun identifiers =>
      markTemplate parsed.descriptor.tree? identifiers document
    (marked,if compiles then ids.next.2 else ids)

theorem analyzeWith_fst : (analyzeWith ids document).1 = analyze document := by
  rw [analyze_eq_bind,analyzeWith]
  cases Component.parse (filenameOf document) document.text with
  | error _ => rfl
  | ok parsed =>
    cases classified : classify parsed.descriptor with
    | error _ => simp [bind,Except.bind,Except.map,classified]
    | ok identifiers => simp [bind,Except.bind,pure,Except.pure,Except.map,classified]

def analyzerWith (ids : Setup.CompilationIds) : Analyzer Failure Result :=
  ⟨fun document => (analyzeWith ids document).1,∅⟩

/-- A cache in front of the default analyzer, and the ids that are left. -/
structure Manager where
  session : Session Failure Result
  ids : Setup.CompilationIds

namespace Manager

def start (ids : Setup.CompilationIds) : Manager := ⟨.start,ids⟩

def get (manager : Manager) (document : Document) : Answer Failure Result :=
  (manager.session.cache.get (analyzerWith manager.ids) document).1

/-- Ids are used up only where the cache has to run the analyzer. -/
def step (manager : Manager) (operation : Operation) : Manager where
  session := manager.session.step ⟨analyzerWith manager.ids,operation⟩
  ids :=
    match operation with
    | .get document =>
      if manager.session.cache.misses operation then (analyzeWith manager.ids document).2
      else manager.ids
    | _ => manager.ids

def run (manager : Manager) (operations : List Operation) : Manager :=
  operations.foldl step manager

theorem sound_run (manager : Manager) (operations : List Operation) (sound : manager.session.Sound) :
    (manager.run operations).session.Sound := by
  induction operations generalizing manager with
  | nil => exact sound
  | cons operation rest ih => exact ih (manager.step operation) (manager.session.sound_step _ sound)

end Manager

def analyzed? (document : Document) : Option (Entry Result) :=
  (analyzeText document.text).toOption.map fun result => ⟨document.version,result⟩

theorem analyzed?_eq_some_iff (entry : Entry Result) :
    analyzed? document = some entry ↔
      entry.version = document.version ∧ analyzeText document.text = .ok entry.result := by
  unfold analyzed?
  cases analyzeText document.text with
  | error _ => simp [Except.toOption]
  | ok result =>
    obtain ⟨version,held⟩ := entry
    simp [Except.toOption,eq_comm]

theorem mem_analyzed {requests : List Document} {document : Document} {result : Result}
    (requested : document ∈ requests) (ran : analyzeText document.text = .ok result) :
    ⟨document.version,result⟩ ∈ requests.filterMap analyzed? :=
  List.mem_filterMap.mpr ⟨document,requested,(analyzed?_eq_some_iff _ _).mpr ⟨rfl,ran⟩⟩

theorem request_of_newest (requests : List Document) (entry : Entry Result)
    (newest : IsNewest (requests.filterMap analyzed?) (some entry)) :
    ∃ request ∈ requests, entry.version = request.version ∧
      analyzeText request.text = .ok entry.result := by
  obtain ⟨request,requested,succeeded⟩ :=
    List.mem_filterMap.mp (List.mem_of_find?_eq_some newest.2)
  exact ⟨request,requested,(analyzed?_eq_some_iff request entry).mp succeeded⟩

theorem result_of_version (entry : Entry Result) (consistent : Consistent operations)
    (included : before ⊆ operations) (asked : .get document ∈ operations)
    (newest : IsNewest ((requestedSince document.uri before).filterMap analyzed?) (some entry))
    (same : entry.version = document.version) : analyzeText document.text = .ok entry.result := by
  obtain ⟨earlier,requested,version,ran⟩ := request_of_newest _ entry newest
  obtain ⟨among,own⟩ := of_mem_requestedSince requested
  -- the entry was made for a request of the same version, and so for the same text
  have text := consistent earlier document (included among) asked own (version.symm.trans same)
  rwa [← text]

theorem result_of_greatest (id : String) (entry : Entry Result) (latest : Document)
    (result : Result) (consistent : Consistent before)
    (newest : IsNewest ((requestedSince id before).filterMap analyzed?) (some entry))
    (requested : latest ∈ requestedSince id before) (ran : analyzeText latest.text = .ok result)
    (greatest : ∀ other ∈ requestedSince id before,
      (∃ result, analyzeText other.text = .ok result) → other.version ≤ latest.version) :
    entry.result = result := by
  obtain ⟨asked,rfl⟩ := of_mem_requestedSince requested
  obtain ⟨earlier,among,version,held⟩ := request_of_newest _ entry newest
  have atMost := greatest earlier among ⟨entry.result,held⟩
  have atLeast := newest.1 _ (mem_analyzed requested ran)
  have same : entry.version = latest.version := by
    dsimp only at atLeast
    omega
  have own := result_of_version before before latest entry consistent (fun _ member => member) asked
    newest same
  rw [ran,Except.ok.injEq] at own
  exact own.symm

/-- One request: where the history so far is right, a text that can be analysed is answered
with its result, and one that cannot with what the cache holds. -/
theorem get_of_history (sound : manager.session.Sound)
    (consistent : Consistent (before ++ [.get document]))
    (good : goodSince document.uri manager.session.history =
      (requestedSince document.uri before).filterMap analyzed?) :
    (∀ result, analyzeText document.text = .ok result → manager.get document = ⟨.ok,result⟩) ∧
    ∀ error, analyze document = .error error →
      (∃ entry, manager.session.cache.entry? document.uri = some entry ∧
        manager.get document = ⟨.stale error,entry.result⟩) ∨
      (manager.session.cache.entry? document.uri = none ∧
        manager.get document = ⟨.failed error,∅⟩) := by
  have newest := sound document.uri
  rw [good] at newest
  have runs : (analyzerWith manager.ids).run document = analyze document := analyzeWith_fst _ _
  unfold Manager.get
  rcases manager.session.cache.get_cases (analyzerWith manager.ids) document with
    ⟨entry,present,same,got⟩ | ⟨_,⟨result,ran,got⟩ | ⟨error,ran,⟨entry,present,got⟩ | ⟨absent,got⟩⟩⟩
  · rw [present] at newest
    have held := result_of_version before _ document entry consistent
      (List.subset_append_left _ _) (by simp) newest same
    rw [got,held]
    constructor
    · rintro result ⟨⟩
      rfl
    · intro error failed
      rw [(analyzeText_eq_ok_iff document entry.result).mp held] at failed
      contradiction
  · rw [runs] at ran
    rw [got,ran,(analyzeText_eq_ok_iff document result).mpr ran]
    constructor
    · rintro _ ⟨⟩
      rfl
    · intro error failed
      contradiction
  · rw [runs] at ran
    rw [got,ran]
    refine ⟨?_,?_⟩
    · intro result succeeded
      rw [(analyzeText_eq_ok_iff document result).mp succeeded] at ran
      contradiction
    · rintro _ ⟨⟩
      exact .inl ⟨entry,present,rfl⟩
  · rw [runs] at ran
    rw [got,ran]
    refine ⟨?_,?_⟩
    · intro result succeeded
      rw [(analyzeText_eq_ok_iff document result).mp succeeded] at ran
      contradiction
    · rintro _ ⟨⟩
      exact .inr ⟨absent,rfl⟩

theorem good?_get (sound : manager.session.Sound)
    (consistent : Consistent (before ++ [.get document]))
    (good : goodSince document.uri manager.session.history =
      (requestedSince document.uri before).filterMap analyzed?) :
    Event.good? document.uri ⟨.get document,.analysis (manager.get document)⟩ = analyzed? document := by
  obtain ⟨answered,fallback⟩ := get_of_history manager before document sound consistent good
  unfold analyzed?
  cases ran : analyzeText document.text with
  | ok result => simp [answered result ran,Event.good?,Except.toOption]
  | error failure =>
    obtain ⟨error,raised⟩ := analyze_fails document failure ran
    rcases fallback error raised with ⟨_,_,got⟩ | ⟨_,got⟩
    · simp [got,Event.good?,Except.toOption]
    · simp [got,Event.good?,Except.toOption]

theorem goodSince_step (operation : Operation) (sound : manager.session.Sound)
    (consistent : Consistent (before ++ [operation])) (id : String)
    (good : goodSince id manager.session.history =
      (requestedSince id before).filterMap analyzed?) :
    goodSince id (manager.step operation).session.history =
      (requestedSince id (before ++ [operation])).filterMap analyzed? := by
  rw [requestedSince,since_concat,← requestedSince]
  simp only [Manager.step,Session.step,goodSince_concat]
  cases operation with
  | get document =>
    by_cases own : document.uri = id
    · subst own
      have answered := good?_get manager before document sound consistent good
      unfold Manager.get at answered
      have asked : Operation.requested? document.uri (.get document) = some document := by
        simp [Operation.requested?,Operation.document?]
      simp only [Operation.forgets,Cache.step,answered,asked,Bool.false_eq_true,if_false,
        Option.toList_some,List.filterMap_append,good]
      cases entry : analyzed? document <;> simp [entry]
    · simp [Operation.forgets,Cache.step,Event.good?_of_other,Operation.requested?,Operation.document?,own,good]
  | remove other =>
    by_cases own : other = id
    · simp [Operation.forgets,own]
    · simp [Operation.forgets,own,Event.good?,Operation.requested?,Operation.document?,good]
  | clear => simp [Operation.forgets]
  | has other => simp [Operation.forgets,Event.good?,Operation.requested?,Operation.document?,good]

theorem goodSince_run (consistent : Consistent operations) (id : String) :
    goodSince id ((Manager.start ids).run operations).session.history =
      (requestedSince id operations).filterMap analyzed? := by
  -- the history grows at its end, so the last operation is taken off
  induction operations using List.reverseRecOn with
  | nil => rfl
  | append_singleton before operation ih =>
    have earlier := ih fun first second asked again =>
      consistent first second (List.mem_append_left _ asked) (List.mem_append_left _ again)
    have sound := (Manager.start ids).sound_run before Session.sound_start
    rw [Manager.run,List.foldl_append,← Manager.run]
    exact goodSince_step _ before operation sound consistent id earlier

theorem analyzerWith_eq : analyzerWith ids = ⟨analyze,∅⟩ := by
  have runs : (fun document => (analyzeWith ids document).1) = analyze :=
    funext (analyzeWith_fst ids)
  rw [analyzerWith,runs]

theorem Manager.cache_run :
    (manager.run operations).session.cache =
      manager.session.cache.run ⟨analyze,∅⟩ operations := by
  induction operations generalizing manager with
  | nil => rfl
  | cons operation rest ih =>
    have stepped : (manager.step operation).session.cache =
        (manager.session.cache.step ⟨analyze,∅⟩ operation).2 := by
      rw [← analyzerWith_eq manager.ids]
      rfl
    rw [Manager.run,List.foldl_cons,← Manager.run,ih,stepped]
    rfl

theorem Manager.get_run :
    ((Manager.start ids).run operations).get document =
      ((Cache.run ⟨analyze,∅⟩ ∅ operations).get ⟨analyze,∅⟩ document).1 := by
  rw [Manager.get,Manager.cache_run,analyzerWith_eq]
  rfl

/-- Cache coherence. In a run that never requests a document with one version and two texts,
a request is answered well exactly if its text can be analysed, and then with the result of
that analysis. Otherwise it is answered with the analysis of the newest text that could be
analysed since the document was last dropped, or with nothing if there is none. Neither the
name and version of the document nor the compilations so far matter. -/
theorem answers_as_analyzed_anew (ids : Setup.CompilationIds) (before : List Operation)
    (document : Document) (consistent : Consistent (before ++ [.get document])) :
    let answer := ((Manager.start ids).run before).get document
    answer = ((Cache.run ⟨analyze,∅⟩ ∅ before).get ⟨analyze,∅⟩ document).1 ∧
    (answer.status = .ok ↔ ∃ result, analyzeText document.text = .ok result) ∧
    (∀ result, analyzeText document.text = .ok result → answer = ⟨.ok,result⟩) ∧
    ∀ failure, analyzeText document.text = .error failure →
      ∃ error, analyze document = .error error ∧
        (∀ newest ∈ requestedSince document.uri before, ∀ result,
          analyzeText newest.text = .ok result →
          (∀ other ∈ requestedSince document.uri before,
            (∃ result, analyzeText other.text = .ok result) → other.version ≤ newest.version) →
          answer = ⟨.stale error,result⟩) ∧
        ((∀ other ∈ requestedSince document.uri before,
          ¬∃ result, analyzeText other.text = .ok result) → answer = ⟨.failed error,∅⟩) := by
  intro answer
  have sound := (Manager.start ids).sound_run before Session.sound_start
  have earlier : Consistent before := fun first second asked again =>
    consistent first second (List.mem_append_left _ asked) (List.mem_append_left _ again)
  have good := goodSince_run ids before earlier document.uri
  have newest := sound document.uri
  rw [good] at newest
  obtain ⟨answered,fallback⟩ := get_of_history _ before document sound consistent good
  refine ⟨Manager.get_run ids before document,⟨?_,?_⟩,answered,?_⟩
  · intro well
    cases ran : analyzeText document.text with
    | ok result => exact ⟨result,rfl⟩
    | error failure =>
      obtain ⟨error,raised⟩ := analyze_fails document failure ran
      rcases fallback error raised with ⟨_,_,got⟩ | ⟨_,got⟩
      · simp [answer,got] at well
      · simp [answer,got] at well
  · rintro ⟨result,ran⟩
    exact congrArg Answer.status (answered result ran)
  · intro failure failed
    obtain ⟨error,raised⟩ := analyze_fails document failure failed
    refine ⟨error,raised,?_,?_⟩
    · intro latest requested result ran greatest
      rcases fallback error raised with ⟨entry,present,got⟩ | ⟨absent,_⟩
      · rw [present] at newest
        have same := result_of_greatest before document.uri entry latest result earlier newest
          requested ran greatest
        rw [← same]
        exact got
      · -- no entry, so nothing was analysed, but the latest text can be
        rw [absent] at newest
        have member := mem_analyzed requested ran
        rw [newest] at member
        contradiction
    · intro none
      rcases fallback error raised with ⟨entry,present,_⟩ | ⟨_,got⟩
      · rw [present] at newest
        obtain ⟨other,requested,_,held⟩ := request_of_newest _ entry newest
        exact absurd ⟨_,held⟩ (none other requested)
      · exact got

end

/-- A broken text is answered with the newest good one, though an older one came last. -/
theorem broken_text_answered_with_newest :
    let text (body : String) := ("<script setup>" ++ body ++ "</script>").toList
    let before : List Operation :=
      [.get ⟨"a.vue",1,text "let a"⟩,.get ⟨"a.vue",3,text "let b"⟩,.get ⟨"b.vue",9,text "let d"⟩,
        .get ⟨"a.vue",2,text "let c"⟩,.has "a.vue",.remove "b.vue"]
    let broken : Document := ⟨"a.vue",4,text "("⟩
    Consistent (before ++ [.get broken]) ∧
      ∃ error result, analyzeText (text "let b") = .ok result ∧
        ((Manager.start (.start "glimpse")).run before).get broken = ⟨.stale error,result⟩ := by
  intro text before broken
  have consistent : Consistent (before ++ [.get broken]) := by decide +kernel
  have fails : (analyzeText broken.text).isOk = false := by decide +kernel
  have succeeds : (analyzeText (text "let b")).isOk = true := by decide +kernel
  refine ⟨consistent,?_⟩
  cases failed : analyzeText broken.text with
  | ok _ => simp [failed,Except.isOk,Except.toBool] at fails
  | error failure =>
    cases ran : analyzeText (text "let b") with
    | error _ => simp [ran,Except.isOk,Except.toBool] at succeeds
    | ok result =>
      obtain ⟨error,_,stale,_⟩ :=
        (answers_as_analyzed_anew (.start "glimpse") before broken consistent).2.2.2 failure failed
      refine ⟨error,result,rfl,stale ⟨"a.vue",3,text "let b"⟩ (by decide +kernel) result ran ?_⟩
      have below : ∀ other ∈ requestedSince "a.vue" before, other.version ≤ 3 := by decide +kernel
      exact fun other requested _ => below other requested

end VueScope.Analysis
