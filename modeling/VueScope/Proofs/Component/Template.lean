import VueScope.Proofs.Component.Description

/-! The template of a component is its first top-level element named so. -/
namespace VueScope.Component

theorem template_foldl (text : List Char) (nodes : List Markup.Node) (found : Descriptor × List Diagnostic) :
    (nodes.foldl (addNode text) found).1.template =
      found.1.template.or (nodes.findSome? (templateIn? text)) := by
  induction nodes generalizing found with
  | nil => exact (Option.or_none).symm
  | cons node rest ih =>
    rw [List.foldl_cons,ih,addNode_eq,Descriptor.extend,Option.or_assoc,List.findSome?_cons]
    cases templateIn? text node <;> rfl

theorem eq_ok_of_toOption {ε α : Type} {outcome : Except ε α} {value : α}
    (found : outcome.toOption = some value) : outcome = .ok value := by
  cases outcome with
  | error _ => contradiction
  | ok _ =>
    cases found
    rfl

variable [Recovery] {filename : String} {text : List Char} {parsed : Parsed} {template : TemplateBlock}

section

variable (split : parse filename text = .ok parsed)
include split

theorem descriptor_parse :
    parsed.descriptor = ((Markup.readFile (Markup.mask text)).nodes.foldl (addNode text)
      (Descriptor.empty filename,[])).1 := by
  unfold parse assemble at split
  dsimp only at split
  split at split
  · contradiction
  · cases split
    rfl

theorem template_parse :
    parsed.descriptor.template =
      (Markup.readFile (Markup.mask text)).nodes.findSome? (templateIn? text) := by
  rw [descriptor_parse split]
  exact template_foldl text _ (Descriptor.empty filename,[])

theorem exists_template_element
    (present : parsed.descriptor.template = some template) :
    ∃ span tag children endTag,
      .element span tag children endTag ∈ (Markup.readFile (Markup.mask text)).nodes ∧
        tag.name = "template".toList ∧ template = templateOf text span tag children endTag := by
  rw [template_parse split] at present
  obtain ⟨node,member,built⟩ := List.exists_of_findSome?_eq_some present
  cases node with
  | element span tag children endTag =>
    rw [templateIn?] at built
    split at built
    next named =>
      cases built
      exact ⟨span,tag,children,endTag,member,named,rfl⟩
    · contradiction
  | raw _ _ _ _ => contradiction
  | comment _ => contradiction
  | strayEnd _ _ => contradiction

theorem exists_nodesOf_of_tree {nodes : List Template.Node}
    (present : parsed.descriptor.template = some template) (tree : template.tree = some nodes) :
    ∃ span tag children endTag,
      .element span tag children endTag ∈ (Markup.readFile (Markup.mask text)).nodes ∧
        (nodes = [] ∨ nodes = Template.nodesOf text (Template.contentSpan span tag endTag).start
          (Template.contentSpan span tag endTag).stop (Markup.renest children)) := by
  obtain ⟨span,tag,children,endTag,member,_,rfl⟩ :=
    exists_template_element split present
  refine ⟨span,tag,children,endTag,member,?_⟩
  unfold templateOf at tree
  dsimp only at tree
  split at tree
  · cases tree
    split
    · exact .inl rfl
    · exact .inr rfl
  · contradiction

end

theorem exists_of_template {α : Type} {value : α} {view : TemplateBlock → Option α}
    (found : ((parse filename text).toOption.bind fun parsed =>
      parsed.descriptor.template.bind view) = some value) :
    ∃ parsed template, parse filename text = .ok parsed ∧
      parsed.descriptor.template = some template ∧ view template = some value := by
  obtain ⟨parsed,succeeded,viewed⟩ := Option.bind_eq_some_iff.mp found
  obtain ⟨template,present,seen⟩ := Option.bind_eq_some_iff.mp viewed
  exact ⟨parsed,template,eq_ok_of_toOption succeeded,present,seen⟩

end VueScope.Component
