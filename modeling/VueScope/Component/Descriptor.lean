import VueScope.Failure
import VueScope.Identifiers.OrderedMap
import VueScope.Markup.Reader
import VueScope.Markup.Renest
import VueScope.Template.Build

/-! A component file split into its blocks: at most one template, one script and
one setup script, and any number of styles and custom blocks. -/
namespace VueScope.Component

structure Block where
  type : String
  content : List Char
  /-- Where the content starts and ends in the file. -/
  start : Nat
  stop : Nat
  /-- Attributes by name; one without a value has none. -/
  attributes : OrderedMap String (Option String)
  lang : Option String
  setup : Bool
deriving DecidableEq, Repr

structure TemplateBlock where
  block : Block
  /-- The template tree, when the template is written in markup. -/
  tree : Option (List Template.Node)
deriving Repr

structure Descriptor where
  filename : String
  template : Option TemplateBlock
  script : Option Block
  scriptSetup : Option Block
  styles : List Block
  customBlocks : List Block
deriving Repr

namespace Descriptor

def empty (filename : String) : Descriptor :=
  ⟨filename, none, none, none, [], []⟩

def hasBlocks (descriptor : Descriptor) : Bool :=
  descriptor.template.isSome || descriptor.script.isSome || descriptor.scriptSetup.isSome ||
    !descriptor.styles.isEmpty || !descriptor.customBlocks.isEmpty

def tree? (descriptor : Descriptor) : Option (List Template.Node) :=
  descriptor.template.bind TemplateBlock.tree

end Descriptor

/-- A fault that leaves the component usable. -/
inductive Diagnostic where
  | duplicateTemplate (offset : Nat)
  | duplicateScript (offset : Nat)
  | duplicateScriptSetup (offset : Nat)
  | invalidLoop (offset : Int)
deriving DecidableEq, Repr

namespace Diagnostic

private def onlyOne (tag : String) : String :=
  "Single file component can contain only one " ++ tag ++ " element"

def message : Diagnostic → String
  | duplicateTemplate _ => onlyOne "<template>"
  | duplicateScript _ => onlyOne "<script>"
  | duplicateScriptSetup _ => onlyOne "<script setup>"
  | invalidLoop _ => "v-for has invalid expression"

def offset : Diagnostic → Int
  | duplicateTemplate offset => offset
  | duplicateScript offset => offset
  | duplicateScriptSetup offset => offset
  | invalidLoop offset => offset

end Diagnostic

/-- A component file that was split, with what is wrong in it. -/
structure Parsed where
  descriptor : Descriptor
  diagnostics : List Diagnostic
  /-- Whether all of the file was markup. -/
  sound : Bool
deriving Repr

/-- What is wrong in a file: in its blocks, then in its markup. -/
def Parsed.errors [Recovery] (text : List Char) (parsed : Parsed) : List (String × Int) :=
  parsed.diagnostics.map (fun found => (found.message, found.offset)) ++
    (markupFaults text).map fun (message, offset) => (message, (offset : Int))

/-- The attributes of a tag; a repeated name keeps its last value. -/
def attributesOf (text : List Char) (tag : Markup.StartTag) : OrderedMap String (Option String) :=
  OrderedMap.ofList <| tag.attributes.map fun attr =>
    (String.ofList (Template.sliceBytes text attr.name).1,
      attr.value.map fun value => String.ofList (Template.sliceBytes text value).1)

def blockOf (text : List Char) (type : String) (span : Markup.Span) (tag : Markup.StartTag)
    (endTag : Option Markup.Span) : Block :=
  let (content, start) := Template.sliceBytes text (Template.contentSpan span tag endTag)
  let attributes := attributesOf text tag
  { type, content, start
    stop := start + content.length
    attributes
    lang := (attributes.get? "lang").join
    setup := type = "script" && attributes.contains "setup" }

def isMarkup (lang : Option String) : Bool :=
  lang = none || lang = some "html"

def templateOf (text : List Char) (span : Markup.Span) (tag : Markup.StartTag)
    (children : List Markup.Node) (endTag : Option Markup.Span) : TemplateBlock :=
  let block := blockOf text "template" span tag endTag
  let inner := Template.contentSpan span tag endTag
  let tree :=
    if tag.selfClosing then []
    else Template.nodesOf text inner.start inner.stop (Markup.renest children)
  ⟨block, if isMarkup block.lang then some tree else none⟩

def addNode (text : List Char) (found : Descriptor × List Diagnostic) (node : Markup.Node) :
    Descriptor × List Diagnostic :=
  let (descriptor, diagnostics) := found
  let place := Text.charOffset text node.span.start
  match node with
  | .raw .script span tag endTag =>
    let block := blockOf text "script" span tag (some endTag)
    if block.setup then
      if descriptor.scriptSetup.isSome then (descriptor, diagnostics ++ [.duplicateScriptSetup place])
      else ({ descriptor with scriptSetup := some block }, diagnostics)
    else if descriptor.script.isSome then (descriptor, diagnostics ++ [.duplicateScript place])
    else ({ descriptor with script := some block }, diagnostics)
  | .raw .style span tag endTag =>
    let block := blockOf text "style" span tag (some endTag)
    ({ descriptor with styles := descriptor.styles ++ [block] }, diagnostics)
  | .element span tag children endTag =>
    if tag.name = "template".toList then
      if descriptor.template.isSome then (descriptor, diagnostics ++ [.duplicateTemplate place])
      else
        let block := templateOf text span tag children endTag
        ({ descriptor with template := some block },
          diagnostics ++ (Template.badLoopsAll (block.tree.getD [])).map .invalidLoop)
    else if tag.name.isEmpty then found
    else
      let block := blockOf text (String.ofList tag.name) span tag endTag
      ({ descriptor with customBlocks := descriptor.customBlocks ++ [block] }, diagnostics)
  | .comment _ => found
  | .strayEnd _ _ => found

/-- The blocks of the top-level nodes of a file. It is refused when anything is wrong in
it and it has no block. -/
def assemble (filename : String) (text : List Char) (reading : Markup.Reading) :
    Except Failure Parsed :=
  let (descriptor, diagnostics) :=
    reading.nodes.foldl (addNode text) (Descriptor.empty filename, [])
  let faulty := !diagnostics.isEmpty || !reading.sound
  if faulty && !descriptor.hasBlocks then .error (.noUsableBlock filename text)
  else .ok ⟨descriptor, diagnostics, reading.sound⟩

def parse [Recovery] (filename : String) (text : List Char) : Except Failure Parsed :=
  assemble filename text (Markup.readFile (Markup.mask text))

def defaultFilename : String := "component.vue"

end VueScope.Component
