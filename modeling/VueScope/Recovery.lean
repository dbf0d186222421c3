import VueScope.Markup.Tree
import VueScope.Script.Node
import VueScope.SyntaxFault

/-! Parsers read on behind a syntax error. What they make of the text then is not described here. It
is given, and what is said about faulty texts holds for whatever is given. -/
namespace VueScope

class Recovery where
  /-- The tree of a script that does not parse. -/
  script : Script.Dialect → List Char → Script.Node
  /-- The nodes of a file whose markup has faults, unless the faults are only passed over. -/
  markup : List Char → Option (List Markup.Node)
  /-- The faults of a script that does not parse, if they are told. -/
  scriptFaults : Script.Dialect → List Char → Option FaultTree := fun _ _ => none
  /-- The faults of the markup of a file. -/
  markupFaults : List Char → Option FaultTree := fun _ => none

/-- Nothing is read of a faulty script, and the faults of markup are passed over. -/
instance (priority := low) Recovery.plain : Recovery where
  script _ _ := .emptyProgram
  markup _ := none

end VueScope
