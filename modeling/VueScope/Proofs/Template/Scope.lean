import VueScope.Template.Occurrence

/-! Which names of a template are marked. The search carries scopes down the tree; the law
below is stated on the path from the root to the place where a name is written. -/
namespace VueScope.Template

/-- A place where names are looked for, with the props of the elements around it, the
innermost first. The element that carries a directive does not count as around it. -/
inductive Site where
  | interpolation (around : List (List ElementProp)) (expression : Expression)
  /-- A dynamic argument or the expression of a directive. -/
  | directive (around : List (List ElementProp)) (carrier : List ElementProp)
      (expression : Expression)
  | loopSource (around : List (List ElementProp)) (carrier : List ElementProp)
      (expression : Expression)
deriving DecidableEq, Repr

/-- A node of a template, and the props of the elements around it, the innermost first. -/
inductive Within (nodes : List Node) : List (List ElementProp) → Node → Prop
  | top {node} (member : node ∈ nodes) : Within nodes [] node
  | under {around tag start stop props children node}
      (parent : Within nodes around (.element tag start stop props children))
      (member : node ∈ children) : Within nodes (props :: around) node

namespace Site

/-- The places of a template: its interpolations and, on every element, the dynamic arguments,
the expressions that are neither a loop nor a pattern, and the source of the loop. -/
inductive In (nodes : List Node) : Site → Prop
  | interpolation {around content offset}
      (place : Within nodes around (.interpolation content offset)) :
      In nodes (.interpolation around content)
  | argument {around tag start stop props children argument}
      (place : Within nodes around (.element tag start stop props children))
      (directive : Directive) (carried : directive ∈ directives props)
      (written : directive.argument = some argument) (dynamic : argument.isStatic = false) :
      In nodes (.directive around props argument)
  | expression {around tag start stop props children expression}
      (place : Within nodes around (.element tag start stop props children))
      (directive : Directive) (carried : directive ∈ directives props)
      (noLoop : directive.name ≠ "for".toList) (noPattern : directive.name ≠ "slot".toList)
      (written : directive.expression = some expression) :
      In nodes (.directive around props expression)
  | loopSource {around tag start stop props children loop}
      (place : Within nodes around (.element tag start stop props children))
      (parsed : loopOf? props = some loop) :
      In nodes (.loopSource around props loop.source)

def expression : Site → Expression
  | interpolation _ expression => expression
  | directive _ _ expression => expression
  | loopSource _ _ expression => expression

def around : Site → List (List ElementProp)
  | interpolation around _ => around
  | directive around _ _ => around
  | loopSource around _ _ => around

def elements : Site → List (List ElementProp)
  | interpolation around _ => around
  | directive around carrier _ => carrier :: around
  | loopSource around carrier _ => carrier :: around

end Site

def Directive.searched (directive : Directive) : List Expression :=
  (directive.argument.toList.filter fun argument => !argument.isStatic) ++
    if directive.name = "for".toList || directive.name = "slot".toList then []
    else directive.expression.toList

section

variable (around : List (List ElementProp)) (nodes : List Node) (props : List ElementProp)

def sitesOn : List Site :=
  (loopOf? props).toList.map (fun loop => .loopSource around props loop.source) ++
    (directives props).flatMap fun directive => directive.searched.map (.directive around props)

mutual

def sitesBelow (around : List (List ElementProp)) : Node → List Site
  | .text _ _ => []
  | .interpolation content _ => [.interpolation around content]
  | .element _ _ _ props children => sitesOn around props ++ sitesBelowAll (props :: around) children

def sitesBelowAll (around : List (List ElementProp)) : List Node → List Site
  | [] => []
  | node :: rest => sitesBelow around node ++ sitesBelowAll around rest

end

def sites : List Site :=
  sitesBelowAll [] nodes

theorem sitesBelowAll_eq :
    sitesBelowAll around nodes = nodes.flatMap (sitesBelow around) := by
  induction nodes with
  | nil => rfl
  | cons node rest ih => rw [sitesBelowAll,List.flatMap_cons,ih]

theorem mem_searched (directive : Directive) (expression : Expression) :
    expression ∈ directive.searched ↔
      (directive.argument = some expression ∧ expression.isStatic = false) ∨
        (directive.name ≠ "for".toList ∧ directive.name ≠ "slot".toList ∧
          directive.expression = some expression) := by
  simp only [Directive.searched,List.mem_append,List.mem_filter,Option.mem_toList,Bool.not_eq_true',
    Bool.or_eq_true,decide_eq_true_eq]
  split
  next special => rcases special with same | same <;> simp [same]
  next plain =>
    rw [not_or] at plain
    simp only [ne_eq,plain.1,plain.2,not_false_eq_true,true_and,Option.mem_toList]

theorem mem_sitesOn (site : Site) :
    site ∈ sitesOn around props ↔
      (∃ loop, loopOf? props = some loop ∧ site = .loopSource around props loop.source) ∨
        ∃ directive ∈ directives props, ∃ expression ∈ directive.searched,
          site = .directive around props expression := by
  simp only [sitesOn,List.mem_append,List.mem_map,Option.mem_toList,List.mem_flatMap]
  grind

/-! Every place lies on the path that it names. -/

mutual

theorem in_of_mem_sitesBelow {root : List Node} {around : List (List ElementProp)} {node : Node}
    (place : Within root around node) {site : Site} (member : site ∈ sitesBelow around node) :
    site.In root := by
  match node with
  | .text _ _ => simp [sitesBelow] at member
  | .interpolation content offset =>
    simp only [sitesBelow,List.mem_singleton] at member
    subst site
    exact .interpolation place
  | .element tag start stop props children =>
    simp only [sitesBelow,List.mem_append] at member
    rcases member with here | deeper
    · rcases (mem_sitesOn _ _ _).mp here with ⟨loop,parsed,rfl⟩ | ⟨directive,carried,e,searched,rfl⟩
      · exact .loopSource place parsed
      · rcases (mem_searched _ _).mp searched with ⟨written,dynamic⟩ | ⟨noLoop,noPattern,written⟩
        · exact .argument place directive carried written dynamic
        · exact .expression place directive carried noLoop noPattern written
    · exact in_of_mem_sitesBelowAll root (props :: around) children
        (fun child member => .under place member) site deeper

theorem in_of_mem_sitesBelowAll (root : List Node) (around : List (List ElementProp))
    (nodes : List Node) (places : ∀ node ∈ nodes, Within root around node) (site : Site)
    (member : site ∈ sitesBelowAll around nodes) : site.In root := by
  match nodes with
  | [] => simp [sitesBelowAll] at member
  | node :: rest =>
    simp only [sitesBelowAll,List.mem_append] at member
    rcases member with first | later
    · exact in_of_mem_sitesBelow (places node (by simp)) first
    · exact in_of_mem_sitesBelowAll root around rest
        (fun node member => places node (by simp [member])) site later

end

theorem sitesBelow_subset {nodes : List Node} {around : List (List ElementProp)} {node : Node}
    (place : Within nodes around node) : sitesBelow around node ⊆ sites nodes := by
  induction place with
  | top member =>
    intro site inside
    rw [sites,sitesBelowAll_eq]
    exact List.mem_flatMap.mpr ⟨_,member,inside⟩
  | @under around tag start stop props children node parent member ih =>
    -- the places of a child are among those of its parent
    intro site inside
    apply ih
    rw [sitesBelow,sitesBelowAll_eq]
    exact List.mem_append_right _ (List.mem_flatMap.mpr ⟨_,member,inside⟩)

theorem mem_sites (site : Site) : site ∈ sites nodes ↔ site.In nodes := by
  constructor
  · exact in_of_mem_sitesBelowAll nodes [] nodes (fun node member => .top member) site
  · intro inside
    cases inside with
    | interpolation place => exact sitesBelow_subset place (by simp [sitesBelow])
    | argument place directive carried written dynamic =>
      apply sitesBelow_subset place
      rw [sitesBelow]
      apply List.mem_append_left
      exact (mem_sitesOn _ _ _).mpr
        (.inr ⟨directive,carried,_,(mem_searched _ _).mpr (.inl ⟨written,dynamic⟩),rfl⟩)
    | expression place directive carried noLoop noPattern written =>
      apply sitesBelow_subset place
      rw [sitesBelow]
      apply List.mem_append_left
      exact (mem_sitesOn _ _ _).mpr
        (.inr ⟨directive,carried,_,(mem_searched _ _).mpr (.inr ⟨noLoop,noPattern,written⟩),rfl⟩)
    | loopSource place parsed =>
      apply sitesBelow_subset place
      rw [sitesBelow]
      apply List.mem_append_left
      exact (mem_sitesOn _ _ _).mpr (.inl ⟨_,parsed,rfl⟩)

/-! The search gives every place the names that its path binds. -/

mutual

theorem around_subset_elements {around : List (List ElementProp)} {node : Node} {site : Site}
    (member : site ∈ sitesBelow around node) : around ⊆ site.elements := by
  match node with
  | .text _ _ => simp [sitesBelow] at member
  | .interpolation content offset =>
    simp only [sitesBelow,List.mem_singleton] at member
    subst site
    exact List.Subset.refl _
  | .element tag start stop props children =>
    simp only [sitesBelow,List.mem_append] at member
    rcases member with here | deeper
    · rcases (mem_sitesOn _ _ _).mp here with ⟨loop,_,rfl⟩ | ⟨_,_,_,_,rfl⟩
      · exact List.subset_cons_self _ _
      · exact List.subset_cons_self _ _
    · exact List.Subset.trans (List.subset_cons_self _ _)
        (around_subset_elements_all deeper)

theorem around_subset_elements_all {around : List (List ElementProp)} {nodes : List Node}
    {site : Site} (member : site ∈ sitesBelowAll around nodes) : around ⊆ site.elements := by
  match nodes with
  | [] => simp [sitesBelowAll] at member
  | node :: rest =>
    simp only [sitesBelowAll,List.mem_append] at member
    rcases member with first | later
    · exact around_subset_elements first
    · exact around_subset_elements_all later

end

end

variable [Recovery] (identifiers : Identifiers) (site : Site) (around : List (List ElementProp))
  (nodes : List Node) (name : String) (props : List ElementProp)

def loopNames : List String :=
  ((loopOf? props).map Loop.names).getD []

namespace Site

/-- The loop variables of the element that carries a directive. The source of the loop does
not see them. -/
def ownNames : Site → List String
  | interpolation _ _ => []
  | directive _ carrier _ => loopNames carrier
  | loopSource _ _ _ => []

/-- A name is bound by the loops and slots of the elements around the place, and by the loop
of the element that carries the directive. -/
def Binds : Prop :=
  (∃ props ∈ site.around, name ∈ loopNames props ∨ name ∈ slotNames props) ∨ name ∈ site.ownNames

instance : Decidable (site.Binds name) :=
  inferInstanceAs (Decidable (_ ∨ _))

def category? : Option Category :=
  if site.elements.any isVerbatim then none
  else if name.toList.head? = some '$' && !identifiers.contains name then builtin? name
  else if site.Binds name then none
  else identifiers.categoryOf? name

def marks : List Candidate :=
  (Scanned.occurrences ⟨site.expression,[]⟩).filterMap fun occurrence =>
    (site.category? identifiers occurrence.name).map fun category =>
      ⟨occurrence.name,occurrence.start,category⟩

end Site

def Scanned.candidates (scanned : Scanned) : List Candidate :=
  scanned.occurrences.filterMap fun occurrence =>
    (categoryOf? identifiers occurrence.name occurrence.scope).map fun category =>
      ⟨occurrence.name,occurrence.start,category⟩

theorem candidates_eq_flatMap :
    candidates identifiers nodes = (scannedInAll [] nodes).flatMap (Scanned.candidates identifiers) := by
  rw [candidates,occurrences,List.filterMap_flatMap]
  rfl

theorem marks_of_verbatim {site : Site} {props : List ElementProp}
    (member : props ∈ site.elements) (verbatim : isVerbatim props = true) :
    site.marks identifiers = [] := by
  have hidden : site.elements.any isVerbatim = true := List.any_eq_true.mpr ⟨props,member,verbatim⟩
  simp [Site.marks,Site.category?,hidden]

theorem candidates_of_scope (scope : List String)
    (shown : site.elements.any isVerbatim = false)
    (bound : ∀ name, name ∈ scope ↔ site.Binds name) :
    Scanned.candidates identifiers ⟨site.expression,scope⟩ = site.marks identifiers := by
  have category (name : String) : categoryOf? identifiers name scope = site.category? identifiers name := by
    simp only [categoryOf?,Site.category?,shown,List.contains_iff_mem,bound,Bool.false_eq_true,if_false]
  simp only [Scanned.candidates,Site.marks,Scanned.occurrences]
  split
  · rfl
  · simp only [List.filterMap_map,Function.comp_def,category]

def Scoped (scope : List String) (around : List (List ElementProp)) : Prop :=
  ∀ name, name ∈ scope ↔ ∃ props ∈ around, name ∈ loopNames props ∨ name ∈ slotNames props

theorem Scoped.below {scope : List String} {around : List (List ElementProp)}
    (bound : Scoped scope around) (props : List ElementProp) :
    Scoped (slotNames props ++ (loopNames props ++ scope)) (props :: around) := by
  intro name
  simp only [List.mem_append,bound name,List.mem_cons,exists_eq_or_imp]
  -- slot names are put in front of loop names, and the path names them the other way round
  rw [← or_assoc,or_comm (a := name ∈ slotNames props)]

theorem candidates_sitesOn {scope : List String}
    {around : List (List ElementProp)} {props : List ElementProp}
    (shown : (props :: around).any isVerbatim = false) (bound : Scoped scope around) :
    ((loopOf? props).toList.map (fun loop => Scanned.mk loop.source scope) ++
        (directives props).flatMap (scannedInDirective (loopNames props ++ scope))).flatMap
      (Scanned.candidates identifiers) = (sitesOn around props).flatMap (Site.marks identifiers) := by
  have source (loop : Loop) : Scanned.candidates identifiers ⟨loop.source,scope⟩ =
      (Site.loopSource around props loop.source).marks identifiers := by
    apply candidates_of_scope identifiers (.loopSource around props loop.source) scope shown
    intro name
    simp [bound name,Site.Binds,Site.around,Site.ownNames]
  have carried (expression : Expression) :
      Scanned.candidates identifiers ⟨expression,loopNames props ++ scope⟩ =
        (Site.directive around props expression).marks identifiers := by
    apply candidates_of_scope identifiers (.directive around props expression) _ shown
    intro name
    simp only [List.mem_append,bound name,Site.Binds,Site.around,Site.ownNames]
    exact or_comm
  have searched (directive : Directive) :
      (scannedInDirective (loopNames props ++ scope) directive).flatMap (Scanned.candidates identifiers) =
        (directive.searched.map (Site.directive around props)).flatMap (Site.marks identifiers) := by
    change (directive.searched.map fun expression =>
      Scanned.mk expression (loopNames props ++ scope)).flatMap _ = _
    simp only [List.flatMap_map,carried]
  simp only [sitesOn,List.flatMap_append,List.flatMap_map,source,List.flatMap_assoc,searched]

mutual

theorem candidates_sitesBelow (identifiers : Identifiers) {scope : List String}
    {around : List (List ElementProp)} (shown : around.any isVerbatim = false)
    (bound : Scoped scope around) (node : Node) :
    (scanned scope node).flatMap (Scanned.candidates identifiers) =
      (sitesBelow around node).flatMap (Site.marks identifiers) := by
  match node with
  | .text _ _ => rfl
  | .interpolation content _ =>
    have placed := candidates_of_scope identifiers (.interpolation around content) scope shown
      (fun name => by simp [bound name,Site.Binds,Site.around,Site.ownNames])
    simpa [scanned,sitesBelow,Site.expression] using placed
  | .element tag start stop props children =>
    rw [scanned]
    split
    next verbatim =>
      -- nothing is searched here, and the places below all have this element on their path
      symm
      apply List.flatMap_eq_nil_iff.mpr
      intro site member
      rw [sitesBelow,List.mem_append] at member
      apply marks_of_verbatim identifiers ?_ verbatim
      rcases member with here | deeper
      · rcases (mem_sitesOn _ _ _).mp here with ⟨loop,_,rfl⟩ | ⟨_,_,_,_,rfl⟩ <;>
          exact List.mem_cons_self
      · exact around_subset_elements_all deeper List.mem_cons_self
    next plain =>
      have shownHere : (props :: around).any isVerbatim = false := by
        simpa [shown] using plain
      have here := candidates_sitesOn identifiers shownHere bound
      have deeper := candidates_sitesBelowAll identifiers _ (props :: around) shownHere
        (bound.below props) children
      conv => rhs; rw [sitesBelow,List.flatMap_append,← here,← deeper]
      exact List.flatMap_append

theorem candidates_sitesBelowAll (identifiers : Identifiers) (scope : List String)
    (around : List (List ElementProp)) (shown : around.any isVerbatim = false)
    (bound : Scoped scope around) (nodes : List Node) :
    (scannedInAll scope nodes).flatMap (Scanned.candidates identifiers) =
      (sitesBelowAll around nodes).flatMap (Site.marks identifiers) := by
  match nodes with
  | [] => rfl
  | node :: rest =>
    rw [scannedInAll,sitesBelowAll,List.flatMap_append,List.flatMap_append,
      candidates_sitesBelow identifiers shown bound node,
      candidates_sitesBelowAll identifiers scope around shown bound rest]

end

theorem candidates_eq_marks :
    candidates identifiers nodes = (sites nodes).flatMap (Site.marks identifiers) := by
  rw [candidates_eq_flatMap]
  exact candidates_sitesBelowAll identifiers [] [] rfl (fun name => by simp) nodes

theorem not_binds :
    ¬ site.Binds name ↔
      (∀ props ∈ site.around, name ∉ loopNames props ∧ name ∉ slotNames props) ∧
        name ∉ site.ownNames := by
  simp only [Site.Binds,not_or,not_exists,not_and]

theorem category?_isSome
    (plain : name.toList.head? = some '$' → identifiers.contains name = true) :
    (site.category? identifiers name).isSome ↔
      identifiers.contains name = true ∧ (∀ props ∈ site.elements, isVerbatim props = false) ∧
        (∀ props ∈ site.around, name ∉ loopNames props ∧ name ∉ slotNames props) ∧
          name ∉ site.ownNames := by
  have ordinary : (name.toList.head? = some '$' && !identifiers.contains name) = false := by
    by_cases sigil : name.toList.head? = some '$'
    · simp [plain sigil]
    · simp [sigil]
  have shown : site.elements.any isVerbatim = false ↔
      ∀ props ∈ site.elements, isVerbatim props = false := by
    simp
  rw [← shown,← not_binds,Site.category?,ordinary]
  by_cases hidden : site.elements.any isVerbatim = true
  · simp [hidden]
  · by_cases binds : site.Binds name
    · simp [binds]
    · simp [hidden,binds,Identifiers.contains]

/-- Scoping is lexical. What is marked in a template is what is marked at each of its places,
and the places are those that paths from the root lead to. At a place a name is given a
category exactly if it is declared, no element on the path is verbatim, and it is bound neither
by the loops and slots around the place nor by the loop of the element that carries it. -/
theorem marked_iff_declared_and_not_hidden (identifiers : Identifiers) (nodes : List Node) :
    candidates identifiers nodes = (sites nodes).flatMap (Site.marks identifiers) ∧
    (∀ site, site ∈ sites nodes ↔ site.In nodes) ∧
    ∀ (site : Site) (name : String),
      (name.toList.head? = some '$' → identifiers.contains name = true) →
        ((site.category? identifiers name).isSome ↔
          identifiers.contains name = true ∧ (∀ props ∈ site.elements, isVerbatim props = false) ∧
            (∀ props ∈ site.around, name ∉ loopNames props ∧ name ∉ slotNames props) ∧
              name ∉ site.ownNames) :=
  ⟨candidates_eq_marks identifiers nodes,mem_sites nodes,category?_isSome identifiers⟩

end VueScope.Template
