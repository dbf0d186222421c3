import VueScope.Recovery
import VueScope.Text.Document

/-! Every way in which analysing a component can fail, and its wording. -/
namespace VueScope

/-- A script that does not parse. -/
structure FaultyScript where
  dialect : Script.Dialect
  content : List Char
  /-- Where the content starts in the file. -/
  start : Nat
deriving DecidableEq, Repr

namespace FaultyScript

variable [Recovery] (script : FaultyScript)

def fault? : Option FaultTree :=
  (Recovery.scriptFaults script.dialect script.content).bind FaultTree.first?

def message : String :=
  (script.fault?.map (FaultTree.describe script.content)).getD "syntax error"

def offset? : Option Nat :=
  script.fault?.map fun fault => script.start + Text.charOffset script.content fault.start

end FaultyScript

/-- The messages and places of the faults in the markup of a file. -/
def markupFaults [Recovery] (text : List Char) : List (String × Nat) :=
  ((Recovery.markupFaults text).map (FaultTree.markupFaults text)).getD []

inductive ScriptRole where
  | plain
  | setup
deriving DecidableEq, Repr

namespace ScriptRole

def tag : ScriptRole → String
  | plain => "<script>"
  | setup => "<script setup>"

end ScriptRole

inductive CompileFailure where
  | noScript (filename : String)
  | differentLanguages
  | syntaxError (script : ScriptRole × FaultyScript)
  | exportInSetup (offset : Nat)
  | defaultsWithoutProps (offset : Nat)
  | duplicateProps (offset : Nat)
  | propsTypedAndValued (offset : Nat)
  | duplicateEmits (offset : Nat)
  | duplicateModel (name : String) (offset : Nat)
deriving DecidableEq, Repr

namespace CompileFailure

variable [Recovery]

def message : CompileFailure → String
  | noScript filename => s!"[{filename}] SFC contains no <script> tags."
  | differentLanguages => "<script> and <script setup> must have the same language type."
  | syntaxError (role, script) => "[" ++ role.tag ++ "] " ++ script.message
  | exportInSetup _ =>
    "<script setup> cannot contain ES module exports. If you are using a " ++
      "previous version of <script setup>, please consult the updated RFC."
  | defaultsWithoutProps _ => "withDefaults' first argument must be a defineProps call."
  | duplicateProps _ => "duplicate defineProps() call"
  | propsTypedAndValued _ =>
    "defineProps() cannot accept both type and non-type arguments at the same time. " ++
      "Use one or the other."
  | duplicateEmits _ => "duplicate defineEmits() call"
  | duplicateModel name _ =>
    "duplicate model name " ++ String.ofList (Text.quoted name.toList)

def offset? : CompileFailure → Option Nat
  | noScript _ => none
  | differentLanguages => none
  | syntaxError (_, script) => script.offset?
  | exportInSetup offset => some offset
  | defaultsWithoutProps offset => some offset
  | duplicateProps offset => some offset
  | propsTypedAndValued offset => some offset
  | duplicateEmits offset => some offset
  | duplicateModel _ offset => some offset

end CompileFailure

inductive Failure where
  /-- The file has markup errors and no block at all. -/
  | noUsableBlock (filename : String) (text : List Char)
  | compile (failure : CompileFailure)
  /-- The plain script of a component does not parse. -/
  | scriptSyntax (script : FaultyScript)
deriving DecidableEq, Repr

namespace Failure

variable [Recovery]

def message : Failure → String
  | noUsableBlock filename text =>
    filename ++ ": no usable block" ++
      match markupFaults text with
      | (fault, offset) :: _ => " (" ++ fault ++ " at offset " ++ toString offset ++ ")"
      | [] => ""
  | compile failure => failure.message
  | scriptSyntax script => script.message

def label : Failure → String
  | noUsableBlock _ _ => "SFCParseError"
  | compile _ => "ScriptCompileError"
  | scriptSyntax _ => "ScriptParseError"

def describe (failure : Failure) : String :=
  failure.label ++ ": " ++ failure.message

end Failure

end VueScope
