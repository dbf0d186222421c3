import VueScope.Proofs.Options.Provenance
import VueScope.Proofs.Script.Pattern

/-! Variables of a setup function that take a second value. What such a variable holds is not told by its
declaration, so a name that is returned for it stays without a category. -/
namespace VueScope.Script.Node

def IsVariable (node : Node) (name : String) : Prop :=
  node.unwrapped.kind = .identifier ∧ node.unwrapped.name = name

instance (node : Node) (name : String) : Decidable (node.IsVariable name) := by
  unfold IsVariable
  infer_instance

/-- The variable that an expression is, whatever comments and types stand in its wrappers. -/
inductive Denotes : Node → String → Prop
  | seen {node : Node} {name : String} (isVariable : node.IsVariable name) : Denotes node name
  | inside {node inner : Node} {name : String} (wraps : node.kind.isTransparent = true)
      (member : inner ∈ node.namedChildren) (denotes : Denotes inner name) : Denotes node name

def DeclaresInLoop (loop : Node) : Prop :=
  ∃ token ∈ loop.children, token.kind ∈ [Kind.constKeyword,.letKeyword,.varKeyword] ∨ token.name = "using"

instance (loop : Node) : Decidable loop.DeclaresInLoop := by
  unfold DeclaresInLoop
  infer_instance

/-- The ways to give a variable another value. -/
inductive AssignmentForm where
  | plain
  | augmented
  | updated
  | hidden
  | takenApart
  | looped

/-- A node that gives a variable another value. A target is hidden if a comment or a type comes before
the variable inside its wrappers. -/
inductive Assigns (node : Node) (name : String) : AssignmentForm → Prop
  | plain {target : Node} (kind : node.kind = .assignment) (left : node.child? .left = some target)
      (isVariable : target.IsVariable name) : Assigns node name .plain
  | augmented {target : Node} (kind : node.kind = .augmentedAssignment)
      (left : node.child? .left = some target) (isVariable : target.IsVariable name) :
      Assigns node name .augmented
  | updated {target : Node} (kind : node.kind = .update) (argument : node.child? .argument = some target)
      (isVariable : target.IsVariable name) : Assigns node name .updated
  | hidden {target : Node}
      (part : node.kind ∈ [Kind.assignment,.augmentedAssignment] ∧ node.child? .left = some target ∨
        node.kind = .update ∧ node.child? .argument = some target)
      (denotes : target.Denotes name) (unseen : ¬target.IsVariable name) :
      Assigns node name .hidden
  | takenApart {target : Node} (kind : node.kind = .assignment)
      (left : node.child? .left = some target)
      (pattern : target.kind = .objectPattern ∨ target.kind = .arrayPattern) (binds : target.Binds name) :
      Assigns node name .takenApart
  | looped {target : Node} (kind : node.kind = .forInStatement)
      (undeclared : ¬node.DeclaresInLoop) (left : node.child? .left = some target)
      (given : target.Denotes name ∨ target.Binds name) : Assigns node name .looped

end VueScope.Script.Node

namespace VueScope.Options

open Script

def lastReturned? (function : Node) (name : String) : Option Node :=
  (OrderedMap.ofList ((returnedObjects function).flatMap Node.keyedMembers)).get? name

/-- A function that returns a variable under a name, as a shorthand or as the value of an entry. -/
inductive Returns (function : Node) (name : String) : String → Prop
  | shorthand {member : Node} (entry : lastReturned? function name = some member)
      (form : member.kind = .shorthandProperty) : Returns function name name
  | pair {member value : Node} (entry : lastReturned? function name = some member)
      (form : member.kind = .pair) (given : member.child? .value = some value)
      {origin : String} (isVariable : value.IsVariable origin) : Returns function name origin

section Returned

variable {functions : OrderedMap String String} {setup body : Node} {name origin : String}

def Returned.ofMember (member : Node) : Returned :=
  match member.kind with
  | .pair => ⟨member,(member.child? .value).map Node.unwrapped⟩
  | .methodDefinition => ⟨member,some member⟩
  | _ => ⟨member,none⟩

theorem get?_returnedMembers :
    (returnedMembers setup).get? name = (lastReturned? setup name).map Returned.ofMember := by
  rw [lastReturned?,← OrderedMap.get?_ofList_map,returnedMembers,← List.flatMap_def,List.map_flatMap]
  rfl

theorem categoryOfReturned?_of_returns (returned : Returns setup name origin) :
    categoryOfReturned? functions setup body name = categoryOfLocal? functions body origin := by
  cases returned with
  | shorthand entry form =>
    simp only [categoryOfReturned?,get?_returnedMembers,entry,Option.map_some,Returned.ofMember,form]
  | pair entry form given isVariable =>
    obtain ⟨isName,rfl⟩ := isVariable
    simp only [categoryOfReturned?,get?_returnedMembers,entry,Option.map_some,Returned.ofMember,form,given,
      isName,if_pos]

theorem mem_reassigned {node target : Node} (inside : node ∈ body.preorder)
    (assigned : assigned? node = some target) (isVariable : target.IsVariable origin) :
    origin ∈ reassigned body := by
  obtain ⟨isName,rfl⟩ := isVariable
  exact List.mem_filterMap.mpr ⟨node,inside,by simp only [assigned,isName,if_pos]⟩

theorem mem_reassigned_of_assigns {node : Node} {form : Node.AssignmentForm} (inside : node ∈ body.preorder)
    (assigns : node.Assigns origin form) (direct : form ∈ [.plain,.augmented,.updated]) :
    origin ∈ reassigned body := by
  cases assigns with
  | plain kind left isVariable
  | augmented kind left isVariable =>
    exact mem_reassigned inside (by simp only [assigned?,kind,left]) isVariable
  | updated kind argument isVariable =>
    exact mem_reassigned inside (by simp only [assigned?,kind,argument]) isVariable
  | hidden | takenApart | looped => simp at direct

theorem categoryOfLocal?_of_mem (again : origin ∈ reassigned body) :
    categoryOfLocal? functions body origin = none := by
  unfold categoryOfLocal?
  split
  next => rfl
  next => exact if_pos (List.contains_iff_mem.mpr again)

end Returned

/-- A name that setup returns for a variable which it assigns again is in no category, unless a later
option binds the name as well, or a call that is spread into `computed` or `methods` lists it. -/
theorem reassigned_names_are_not_guessed (component : Node) (imports : StoreImports)
    (functions : OrderedMap String String) (setup body node : Node) (name origin : String)
    (form : Node.AssignmentForm) (block : setupBody? component = some (setup,body))
    (returned : Returns setup name origin) (inside : node ∈ body.preorder)
    (assigns : node.Assigns origin form) (direct : form ∈ [.plain,.augmented,.updated])
    (category : Category)
    (filed : ((classify component imports functions).get category).contains name = true) :
    (∃ kind, (bindings component).get? name = some kind ∧ kind ≠ .setupMaybeRef) ∨
      ∃ key ∈ ["computed","methods"], ∃ call, SpreadBy component key call name := by
  by_contra neither
  rw [not_or] at neither
  obtain ⟨own,unlisted⟩ := neither
  have unknown : told? component functions name = none := by
    rw [told?,block]
    simp only [Option.bind_some,categoryOfReturned?_of_returns returned,
      categoryOfLocal?_of_mem (mem_reassigned_of_assigns inside assigns direct),Option.map_none]
  have first : (refiled component functions).categoryOf? name = none := by
    rw [categoryOf?_refiled]
    split
    next => exact unknown
    next other =>
      cases bound : (bindings component).get? name with
      | none => rfl
      | some kind => exact absurd ⟨kind,bound,fun same => other (by rw [bound,same])⟩ own
  obtain ⟨between,after,computed,_,methods,_,final⟩ := exists_passes component imports functions name
  have nothing := (final category).mp filed
  rw [eq_none_of_passes computed methods first unlisted] at nothing
  contradiction

theorem not_spreadBy_of_option? {component call : Node} {key name : String}
    (missing : option? component key = none) : ¬SpreadBy component key call name := by
  rintro ⟨_,⟨member,given,_⟩,_⟩
  rw [missing] at given
  contradiction

theorem counted_name_is_not_guessed :
    let content := ("export default\x7bsetup()\x7blet n=ref(0);const f=()=>n++;" ++
      "return\x7bm:n,f\x7d\x7d\x7d").toList
    ∃ root component, parse? .javascript content = some root ∧ component? root = some component ∧
      (bindings component).get? "m" = some .setupMaybeRef ∧
      ∀ category, ((classify component (StoreImports.ofScript root) (reactivityAliases root)).get
        category).contains "m" = false := by
  rw [String.toList_append,String.toList_ofList,String.toList_ofList]
  intro content
  have shown : ∃ root ∈ parse? .javascript content, ∃ component ∈ component? root,
      ∃ parts ∈ setupBody? component,
        (∃ member ∈ lastReturned? parts.1 "m", member.kind = .pair ∧
          ∃ value ∈ member.child? .value, value.IsVariable "n") ∧
        (∃ node ∈ parts.2.preorder, node.kind = .update ∧
          ∃ target ∈ node.child? .argument, target.IsVariable "n") ∧
        (bindings component).get? "m" = some .setupMaybeRef ∧
        ∀ key ∈ ["computed","methods"], (option? component key).isNone = true := by
    decide +kernel
  obtain ⟨root,parsed,component,exported,⟨setup,body⟩,block,⟨member,entry,form,value,given,isVariable⟩,
    ⟨node,inside,kind,target,argument,isTarget⟩,bound,missing⟩ := shown
  refine ⟨root,component,parsed,exported,bound,fun category => Bool.eq_false_iff.mpr fun filed => ?_⟩
  rcases reassigned_names_are_not_guessed component _ _ setup body node "m" "n" .updated block
    (.pair entry form given isVariable) inside (.updated kind argument isTarget) (by simp) category filed
    with ⟨_,other,apart⟩ | ⟨key,among,call,spread⟩
  · exact apart (Option.some.inj (other.symm.trans bound))
  · exact not_spreadBy_of_option? (Option.isNone_iff_eq_none.mp (missing key among)) spread

/-- A script whose setup function assigns to a variable in a form, and whose name for the variable is
filed by its first value all the same. -/
def Overlooks (form : Node.AssignmentForm) (content : List Char) (name : String) : Prop :=
  ∃ root component setup body node, parse? .javascript content = some root ∧
    component? root = some component ∧ setupBody? component = some (setup,body) ∧
    Returns setup name name ∧ node ∈ body.preorder ∧ node.Assigns name form ∧
    (bindings component).get? name = some .setupMaybeRef ∧
    (∀ key ∈ ["computed","methods"], ∀ call, ¬SpreadBy component key call name) ∧
    ((classify component (StoreImports.ofScript root) (reactivityAliases root)).get .ref).contains name = true

theorem overlooks_of_shown {form : Node.AssignmentForm} {content : List Char} {name : String}
    (seen : Node → Prop) (assigns : ∀ node, seen node → node.Assigns name form)
    (shown : ∃ root ∈ parse? .javascript content, ∃ component ∈ component? root,
      ∃ parts ∈ setupBody? component,
        (∃ member ∈ lastReturned? parts.1 name, member.kind = .shorthandProperty) ∧
        (∃ node ∈ parts.2.preorder, seen node) ∧
        (bindings component).get? name = some .setupMaybeRef ∧
        (∀ key ∈ ["computed","methods"], (option? component key).isNone = true) ∧
        ((classify component (StoreImports.ofScript root) (reactivityAliases root)).get .ref).contains
          name = true) :
    Overlooks form content name := by
  obtain ⟨root,parsed,component,exported,⟨setup,body⟩,block,⟨member,entry,shorthand⟩,
    ⟨node,inside,found⟩,bound,missing,filed⟩ := shown
  refine ⟨root,component,setup,body,node,parsed,exported,block,.shorthand entry shorthand,inside,
    assigns node found,bound,fun key among call => ?_,filed⟩
  exact not_spreadBy_of_option? (Option.isNone_iff_eq_none.mp (missing key among))

/-- A pattern, a loop, and a target with a comment in front of its name assign to a variable unseen. -/
theorem overlooked_assignment_is_guessed :
    let content (assignment : String) := ("export default\x7bsetup()\x7blet n=ref(0);" ++ assignment ++
      ";return\x7bn\x7d\x7d\x7d").toList
    Overlooks .takenApart (content "[n]=[1]") "n" ∧ Overlooks .looped (content "for(n of[1])") "n" ∧
      Overlooks .hidden (content "(/**/n)=1") "n" := by
  intro content
  simp only [content,String.toList_append]
  repeat rw [String.toList_ofList]
  refine ⟨?_,?_,?_⟩
  · refine overlooks_of_shown (fun node => node.kind = .assignment ∧ ∃ target ∈ node.child? .left,
      target.kind = .arrayPattern ∧ "n" ∈ target.namesWithin 2) ?_ (by decide +kernel)
    rintro node ⟨kind,target,left,pattern,bound⟩
    exact .takenApart kind left (.inr pattern) (Node.binds_of_mem_namesWithin target bound)
  · refine overlooks_of_shown (fun node => node.kind = .forInStatement ∧ ¬node.DeclaresInLoop ∧
      ∃ target ∈ node.child? .left, target.IsVariable "n") ?_ (by decide +kernel)
    rintro node ⟨kind,undeclared,target,left,isVariable⟩
    exact .looped kind undeclared left (.inl (.seen isVariable))
  · refine overlooks_of_shown (fun node => node.kind = .assignment ∧ ∃ target ∈ node.child? .left,
      target.kind.isTransparent = true ∧ ¬target.IsVariable "n" ∧
        ∃ inner ∈ target.namedChildren, inner.IsVariable "n") ?_ (by decide +kernel)
    rintro node ⟨kind,target,left,wraps,unseen,inner,member,isVariable⟩
    exact .hidden (.inl ⟨by simp [kind],left⟩) (.inside wraps member (.seen isVariable)) unseen

end VueScope.Options
