import VueScope.Proofs.Script.Layout
import VueScope.Proofs.Template.Binders

/-! Which names of an expression are left out of its references. Besides those that share their name with
a parameter, they are the ones in types and in the head of a function, where its parameters stand with
their default values. -/
namespace VueScope.Script.Node

/-- A name in a part of a node where references are not looked for. -/
inductive Hides (scope found : Node) : Prop
  | type (kind : scope.kind = .ascription ∨ scope.kind = .typeArguments)
      (inside : found ∈ scope.preorder) : Hides scope found
  | head {part : Node} {role : Field} (function : scope.kind.isFunction = true)
      (among : part ∈ scope.children) (plays : part.field = some role) (ofHead : role ∈ headRoles)
      (inside : found ∈ part.preorder) : Hides scope found

theorem preorder_sublist {node scope : Node} (among : scope ∈ node.preorder) :
    scope.preorder.Sublist node.preorder := by
  induction node using byParts with
  | step node ih =>
    rcases (mem_preorder_iff _ _).mp among with rfl | ⟨part,inside,below⟩
    · exact .refl _
    · rw [preorder_eq node,List.flatMap_def]
      exact ((ih part inside below).trans (List.sublist_flatten_of_mem (List.mem_map_of_mem inside))).cons _

section Unique

variable {node found : Node} (apart : node.preorder.Pairwise NamesApart) (solid : ¬NamesApart found found)

include apart solid

theorem Refers.within (refers : Refers found node) {scope : Node} (among : scope ∈ node.preorder)
    (around : found ∈ scope.preorder) : Refers found scope := by
  induction refers with
  | here isName =>
    rcases (mem_preorder_iff _ _).mp among with rfl | ⟨part,inside,below⟩
    · exact .here isName
    · have again := ((pairwise_preorder_iff found).mp apart).1 found
        (List.mem_flatMap.mpr ⟨part,inside,mem_preorder_trans below around⟩)
      exact absurd again solid
  | @part node part inside refers ih =>
    rcases (mem_preorder_iff _ _).mp among with rfl | ⟨other,held,below⟩
    · exact refers.part inside
    · have child := (valueParts_sublist _).subset inside
      cases part_eq_part apart solid held child (mem_preorder_trans below around) refers.mem_preorder
      exact ih (((pairwise_preorder_iff node).mp apart).2.1 part child) below

theorem Refers.not_hides (refers : Refers found node) : ¬node.Hides found := by
  rintro (⟨kind,_⟩ | ⟨function,among,plays,ofHead,inside⟩)
  · cases refers with
    | here isName => rcases kind with kind | kind <;> simp [kind] at isName
    | part inside => rcases kind with kind | kind <;> simp [valueParts,kind] at inside
  · cases refers with
    | here isName => rcases isName with kind | kind <;> simp [kind,Kind.isFunction] at function
    | @part _ body inside' refers =>
      have found_body : node.child? .body = some body := by
        revert function inside'
        unfold valueParts
        cases node.kind <;> simp [Kind.isFunction]
      have role_body : body.field = some .body := by simpa using List.find?_some found_body
      cases part_eq_part apart solid among (List.mem_of_find?_eq_some found_body) inside
        refers.mem_preorder
      cases role_body.symm.trans plays
      exact absurd ofHead (by decide)

end Unique

theorem Refers.isName {node found : Node} (refers : Refers found node) :
    found.kind = .identifier ∨ found.kind = .shorthandProperty := by
  induction refers with
  | here isName => exact isName
  | part _ _ ih => exact ih

theorem isName_of_value {found : Node}
    (isName : found.kind = .identifier ∨ found.kind = .shorthandProperty) :
    found.kind.isName = true := by
  rcases isName with kind | kind <;> rw [kind]

section Parts

variable {node part : Node}

theorem child?_eq_some (laid : ∀ scope ∈ node.preorder, scope.LaidOut) {role : Field} {counted : Counted}
    (limit : (counted,1) ∈ node.kind.limits) (counts : ∀ kind, kind ≠ .comment → counted kind (some role) = true)
    (among : part ∈ node.children) (plays : part.field = some role) : node.child? role = some part := by
  have only := (laid node node.mem_preorder_self).filter_eq limit
    (fun child => child.field = some role) fun child inside plays => by
      have held := laid child (preorder_subset node child inside child.mem_preorder_self)
      have solid : child.kind ≠ .comment := fun comment => by simp [held.free comment] at plays
      simp [Node.counts,of_decide_eq_true plays,solid,counts]
  have found : part ∈ (node.child? role).toList := only ▸ List.mem_filter.mpr ⟨among,decide_eq_true plays⟩
  exact Option.mem_toList.mp found

theorem not_isName_of_tokens (laid : ∀ scope ∈ part.preorder, scope.LaidOut)
    (tokens : (.solid,0) ∈ part.kind.limits) {found : Node} (inside : found ∈ part.preorder) :
    found.kind.isName = false := by
  rcases (mem_preorder_iff _ _).mp inside with rfl | ⟨inner,held,below⟩
  · revert tokens
    cases found.kind <;> simp [Kind.limits]
  · have bare := isBare_of_not_counts ((laid part part.mem_preorder_self).not_counts tokens held)
    rw [(laid inner (preorder_subset part inner held inner.mem_preorder_self)).eq_of_isBare bare below]
    revert bare
    cases inner.kind <;> decide

theorem object_of_not_counts (few : part.counts .nonAccess = false) :
    part.field = some .object ∨ part.kind.isBare = true ∨ (.solid,0) ∈ part.kind.limits := by
  rw [counts,Bool.and_eq_false_iff] at few
  rcases few with comment | few
  · exact .inr (.inl (isBare_of_not_counts (by rw [counts,comment,Bool.false_and])))
  · unfold Counted.nonAccess at few
    split at few
    next plays => exact .inl plays
    next =>
      split at few
      next kind => exact .inr (.inr (by simp [kind]))
      next kind => exact .inr (.inr (by simp [kind]))
      next kind => exact .inr (.inr (by simp [kind]))
      next => exact .inr (.inl (isBare_of_not_counts (by rw [counts,few,Bool.and_false])))

theorem role_of_not_counts (few : part.counts .nonRole = false) :
    part.kind.isBare = true ∨ ∃ role ∈ Field.body :: headRoles, part.field = some role := by
  rw [counts,Bool.and_eq_false_iff] at few
  rcases few with comment | few
  · exact .inl (isBare_of_not_counts (by rw [counts,comment,Bool.false_and]))
  · unfold Counted.nonRole at few
    split at few <;> first
      | next plays => exact .inr ⟨_,by decide,plays⟩
      | exact .inl (isBare_of_not_counts (by rw [counts,few,Bool.and_false]))

end Parts

theorem mem_valueParts {node part found : Node} (laid : ∀ scope ∈ node.preorder, scope.LaidOut)
    (among : part ∈ node.children) (named : part.kind.isNamed = true) (isName : found.kind.isName = true)
    (inside : found ∈ part.preorder) (shown : ¬node.Hides found) : part ∈ node.valueParts := by
  have own := laid node node.mem_preorder_self
  obtain ⟨_,solid,noName⟩ := own.construct (List.ne_nil_of_mem among)
  have around : found ∈ node.preorder := (mem_preorder_iff _ _).mpr (.inr ⟨part,among,inside⟩)
  have below (inner : Node) (held : inner ∈ part.preorder) : inner.LaidOut :=
    laid inner (preorder_subset node part among held)
  have filled (bare : part.kind.isBare = true) : False := by
    rw [(below part part.mem_preorder_self).eq_of_isBare bare inside] at isName
    revert bare isName
    cases part.kind <;> decide
  unfold valueParts
  split
  next kind => simp [kind,Kind.isName] at noName
  next kind => simp [kind,Kind.isName] at noName
  next kind => exact absurd (.type (.inl kind) around) shown
  next kind => exact absurd (.type (.inr kind) around) shown
  next kind => exact absurd kind solid
  next kind =>
    have few := own.not_counts (by simp [kind] : (.nonAccess,0) ∈ node.kind.limits) among
    rcases object_of_not_counts few with plays | bare | tokens
    · exact Option.mem_toList.mpr (child?_eq_some laid
        (by simp [kind] : (.object,1) ∈ node.kind.limits) (fun _ _ => rfl) among plays)
    · exact (filled bare).elim
    · exact absurd isName (Bool.eq_false_iff.mp (not_isName_of_tokens below tokens inside))
  next =>
    split
    next function =>
      have limits : node.kind.limits = [(.body,1),(.nonRole,0)] := by
        revert function
        cases node.kind <;> simp [Kind.isFunction]
      rcases role_of_not_counts (own.not_counts (by simp [limits]) among) with bare | ⟨role,known,plays⟩
      · exact (filled bare).elim
      · rcases List.mem_cons.mp known with rfl | ofHead
        · exact Option.mem_toList.mpr (child?_eq_some laid
            (by simp [limits] : (.body,1) ∈ node.kind.limits) (fun _ _ => rfl) among plays)
        · exact absurd (.head function among plays ofHead inside) shown
    · exact List.mem_filter.mpr ⟨among,named⟩

theorem refers_of_not_hides {node found : Node} (laid : ∀ scope ∈ node.preorder, scope.LaidOut)
    (isName : found.kind = .identifier ∨ found.kind = .shorthandProperty) (inside : found ∈ node.preorder)
    (shown : ∀ scope ∈ node.preorder, found ∈ scope.preorder → ¬scope.Hides found) :
    Refers found node := by
  induction node using byParts with
  | step node ih =>
    have self : node ∈ node.preorder := mem_preorder_self _
    rcases (mem_preorder_iff _ _).mp inside with rfl | ⟨part,among,below⟩
    · exact .here isName
    · have deeper {scope : Node} (held : scope ∈ part.preorder) : scope ∈ node.preorder :=
        (mem_preorder_iff _ _).mpr (.inr ⟨part,among,held⟩)
      have word := isName_of_value isName
      have named : part.kind.isNamed = true := by
        rcases (mem_preorder_iff _ _).mp below with rfl | ⟨_,held,_⟩
        · rcases isName with kind | kind <;> rw [kind] <;> rfl
        · have within := laid part (deeper (mem_preorder_self _))
          exact (within.construct (List.ne_nil_of_mem held)).1
      refine .part (mem_valueParts laid among named word below (shown node self inside)) ?_
      exact ih part among (fun scope held => laid scope (deeper held)) below
        fun scope held => shown scope (deeper held)

theorem mem_localNames_iff_bindsWithin (scope : Node) (name : String) :
    name ∈ scope.localNames ↔ scope.BindsWithin name .parameter := by
  rw [mem_localNames_iff]
  constructor
  · exact fun held => .parameter held.1 held.2
  · rintro ⟨function,takes⟩
    exact ⟨function,takes⟩

def bindable (scope : Node) : List String :=
  (scope.child? .parameter).toList.flatMap (fun parameter => parameter.name :: parameter.boundNames) ++
  (scope.child? .parameters).toList.flatMap boundNames ++
  (scope.child? .name).toList.map Node.name ++
  scope.namedChildren.flatMap fun statement =>
    (statement.child? .name).toList.map Node.name ++
      statement.declarators.flatMap fun declarator =>
        (declarator.child? .name).toList.flatMap boundNames

theorem BindsWithin.mem_bindable {scope : Node} {name : String} {form : BinderForm}
    (binds : scope.BindsWithin name form) : name ∈ scope.bindable := by
  have taken (takes : scope.Takes name) : name ∈ scope.bindable := by
    cases takes with
    | single only named => simp [bindable,only,named]
    | listed _ given introduces => simp [bindable,given,(mem_boundNames_iff _ _).mpr introduces]
  cases binds with
  | parameter _ takes => exact taken takes
  | methodParameter _ takes => exact taken takes
  | variableDeclaration _ among _ part named introduces =>
    refine List.mem_append_right _ (List.mem_flatMap.mpr ⟨_,among,List.mem_append_right _ ?_⟩)
    refine List.mem_flatMap.mpr ⟨_,part,?_⟩
    simpa [named] using (mem_boundNames_iff _ _).mpr introduces
  | functionDeclaration _ among _ named same =>
    refine List.mem_append_right _ (List.mem_flatMap.mpr ⟨_,among,List.mem_append_left _ ?_⟩)
    simp [named,same]
  | caught _ given introduces => simp [bindable,given,(mem_boundNames_iff _ _).mpr introduces]
  | ownName _ named same => simp [bindable,named,same]

/-- Some of the ways in which an expression can use a name. -/
inductive UseForm where
  | default
  | key
  | assigned

/-- A node that uses a name: the default value of a parameter, a computed key, or what takes a part of an
assigned value. -/
inductive Uses (node name : Node) : UseForm → Prop
  | default (parameter : node.kind = .requiredParameter) (value : node.child? .value = some name)
      (isName : name.kind = .identifier) : Uses node name .default
  | key (computed : node.kind = .computedPropertyName) (inside : name ∈ node.namedChildren)
      (isName : name.kind = .identifier) : Uses node name .key
  | assigned {target : Node} (assignment : node.kind = .assignment)
      (left : node.child? .left = some target) (taken : name ∈ target.boundIdentifiers) :
      Uses node name .assigned

end VueScope.Script.Node

namespace VueScope.Template

open Script

/-- A name in an expression is reported just if nothing around it hides it, and no function around it has a
parameter of that name. -/
theorem reported_iff_not_hidden (content : List Char) (tree : ExpressionTree)
    (read : ExpressionTree.read? content = some tree) (found : Script.Node) :
    found ∈ tree.root.freeIdentifiers [] ↔
      found ∈ tree.root.preorder ∧ (found.kind = .identifier ∨ found.kind = .shorthandProperty) ∧
        ∀ scope ∈ tree.root.preorder, found ∈ scope.preorder →
          ¬scope.Hides found ∧ ¬scope.BindsWithin found.name .parameter := by
  obtain ⟨source,parsed⟩ := exists_parse_of_read? read
  have apart := namesApart_of_parse? parsed
  constructor
  · intro free
    have refers := (Node.refers_of_mem free).1
    have isName := Node.isName_of_value refers.isName
    have names := names_of_parse? parsed refers.mem_preorder isName
    have solid : ¬Node.NamesApart found found := by
      intro before
      have ends := before isName isName
      have filled := List.length_pos_of_ne_nil names.isName.nonempty
      rw [names.stop_eq] at ends
      omega
    refine ⟨refers.mem_preorder,refers.isName,fun scope among around => ⟨?_,?_⟩⟩
    · exact (refers.within apart solid among around).not_hides (apart.sublist (Node.preorder_sublist among)) solid
    · rw [← Node.mem_localNames_iff_bindsWithin]
      exact Node.not_mem_localNames apart solid free among around
  · rintro ⟨inside,isName,outside⟩
    have refers := Node.refers_of_not_hides (laidOut_of_parse? parsed) isName inside
      fun scope among around => (outside scope among around).1
    refine Node.mem_of_refers refers nofun fun scope among around => ?_
    rw [Node.mem_localNames_iff_bindsWithin]
    exact (outside scope among around).2

theorem names_around_a_callback_are_reported :
    let content := "xs.map((x = d) => x + y.z)".toList
    ∃ tree, ExpressionTree.read? content = some tree ∧
      (tree.root.freeIdentifiers []).map Node.name = ["xs","y"] ∧
      ∀ found ∈ tree.root.preorder, found.kind = .identifier →
        (∀ scope ∈ tree.root.preorder, found ∈ scope.preorder →
          ¬scope.Hides found ∧ ¬scope.BindsWithin found.name .parameter) → found.name ∈ ["xs","y"] := by
  intro content
  have shown : ∃ tree ∈ ExpressionTree.read? content,
      (tree.root.freeIdentifiers []).map Node.name = ["xs","y"] := by decide +kernel
  obtain ⟨tree,read,names⟩ := shown
  refine ⟨tree,read,names,fun found inside isName outside => ?_⟩
  rw [← names]
  exact List.mem_map_of_mem
    ((reported_iff_not_hidden content tree read found).mpr ⟨inside,.inl isName,outside⟩)

/-- An expression that uses a name, binds it nowhere, and does not have it reported. -/
def Overlooks (form : Node.UseForm) (content : List Char) (name : String) : Prop :=
  ∃ tree node found, ExpressionTree.read? content = some tree ∧ node ∈ tree.root.preorder ∧
    node.Uses found form ∧ found.name = name ∧
    (∀ scope ∈ tree.root.preorder, ∀ form, ¬scope.BindsWithin name form) ∧
    found ∉ tree.root.freeIdentifiers []

theorem overlooks_of_shown {form : Node.UseForm} {content : List Char} {name : String}
    (seen : Script.Node → Script.Node → Prop) (uses : ∀ node found, seen node found → node.Uses found form)
    (shown : ∃ tree ∈ ExpressionTree.read? content, ∃ node ∈ tree.root.preorder,
      ∃ found ∈ node.preorder, seen node found ∧ found.name = name ∧
        (∀ scope ∈ tree.root.preorder, name ∉ scope.bindable) ∧ found ∉ tree.root.freeIdentifiers []) :
    Overlooks form content name := by
  obtain ⟨tree,read,node,among,found,_,used,named,unbound,missing⟩ := shown
  exact ⟨tree,node,found,read,among,uses node found used,named,
    fun scope inside _ binds => unbound scope inside binds.mem_bindable,missing⟩

/-- Default values and computed keys of parameters are overlooked, and so is a name that takes a part of
an assigned value. -/
theorem uses_outside_bodies_are_overlooked :
    Overlooks .default "(a = b) => a".toList "b" ∧
    Overlooks .key "(\x7b [k]: a \x7d) => a".toList "k" ∧
    Overlooks .assigned "(\x7b a \x7d = c)".toList "a" := by
  refine ⟨?_,?_,?_⟩
  · refine overlooks_of_shown (fun node found => node.kind = .requiredParameter ∧
      node.child? .value = some found ∧ found.kind = .identifier) ?_ (by decide +kernel)
    rintro node found ⟨parameter,value,isName⟩
    exact .default parameter value isName
  · refine overlooks_of_shown (fun node found => node.kind = .computedPropertyName ∧
      found ∈ node.namedChildren ∧ found.kind = .identifier) ?_ (by decide +kernel)
    rintro node found ⟨computed,inside,isName⟩
    exact .key computed inside isName
  · refine overlooks_of_shown (fun node found => node.kind = .assignment ∧
      ∃ target ∈ node.child? .left, found ∈ target.boundIdentifiers) ?_ (by decide +kernel)
    rintro node found ⟨assignment,target,left,taken⟩
    exact .assigned assignment left taken

end VueScope.Template
