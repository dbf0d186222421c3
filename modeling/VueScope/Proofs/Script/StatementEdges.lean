import VueScope.Proofs.Script.DeclaredValues

/-! What declarations, statements and whole scripts may do at their ends. The values of the variables that
are declared stand apart from the words around them. -/
namespace VueScope.Script

namespace Grammar

set_option synthInstance.maxSize 1024

open VueScope.Script.Parser
open Semicolon (Place)
open Shape
open Text

variable (dialect : Dialect) (rules : Rules) (place : Option Place)

section Constructs

variable [∀ rule, Edged (rules rule) (edgesOf rule)] [SingleRules rules]

instance : Gives IsBare (letKeyword dialect place) := by
  unfold letKeyword
  infer_instance

instance (keyword : Parser) (edges : Edges) [Edged keyword edges] [Gives IsBare keyword] :
    Edged (variableDeclaration dialect rules keyword)
      (((Edges.sealed.or edges).seq .naming).or .sealed) := by
  have lexical := edged_declaration dialect rules .lexicalDeclaration rfl
    (keywordAs .constKeyword "const" <|> keyword)
  have varied := edged_declaration dialect rules .variableDeclaration rfl
    (keywordAs .varKeyword "var")
  unfold variableDeclaration
  exact .relax (Edges.le_refl _)

instance : Edged (usingKeyword dialect place) .sealed := by
  unfold usingKeyword
  exact .relax rfl

instance : Edged (usingDeclaration dialect rules place) .sealed := by
  unfold usingDeclaration
  exact .relax rfl

instance (after : Place) : Edged (functionDeclaration dialect rules after place) .sealed := by
  unfold functionDeclaration
  exact .relax rfl

instance : Edged (classParts dialect rules) .naming := by
  unfold classParts
  exact .relax rfl

instance (after : Place) : Edged (classDeclaration dialect rules after) .sealed := by
  unfold classDeclaration
  exact .relax rfl

instance : Edged (abstractClassDeclaration dialect rules) .sealed := by
  unfold abstractClassDeclaration
  exact .relax rfl

instance : Edged (extendsTypeClause rules) .sealed := by
  unfold extendsTypeClause
  exact .relax rfl

instance : Edged (interfaceDeclaration dialect rules) .sealed := by
  unfold interfaceDeclaration
  exact .relax rfl

instance (name : Parser) (edges : Edges) [Edged name edges] :
    Edged (declaredName dialect place name) edges := by
  unfold declaredName
  exact .relax (by rw [Edges.void_seq,Edges.void_seq,Edges.le_refl])

instance : Edged (typeAliasDeclaration dialect rules place) .sealed := by
  unfold typeAliasDeclaration
  exact .relax rfl

instance : Edged (enumDeclaration rules) .sealed := by
  unfold enumDeclaration
  exact .relax rfl

instance : Edged (moduleDeclaration dialect rules place) .sealed := by
  unfold moduleDeclaration
  exact .relax rfl

instance : Edged (importAlias dialect) .sealed := by
  unfold importAlias
  exact .relax rfl

instance (nested : Parser) (edges : Edges) [Edged nested edges] :
    Edged (typedDeclaration dialect rules place nested) ⟨false,edges.loose,false,edges.sound⟩ := by
  unfold typedDeclaration
  refine @edged_look _ _ fun text => ?_
  split <;>
    · refine .relax ?_
      obtain ⟨a,b,c,d⟩ := edges
      cases a <;> cases b <;> cases c <;> cases d <;> rfl

instance : Edged (declaration dialect rules) .sealed := by
  unfold declaration
  exact .relax rfl

instance : Edged (leadingDeclaration dialect rules) .sealed := by
  unfold leadingDeclaration
  refine @edged_look _ _ fun text => ?_
  split <;> exact .relax rfl

/-! Imports and exports. -/

instance : Edged fromClause .sealed := by unfold fromClause; exact .relax rfl

instance : Edged (exportedName dialect) .naming := by
  unfold exportedName
  exact .relax rfl

instance : Edged (typeMark dialect) .sealed := by unfold typeMark; exact .relax rfl

instance : Edged (importSpecifier dialect) .naming := by
  unfold importSpecifier exportedName typeMark boundName
  exact .relax rfl

instance : Edged (namedImports dialect) .sealed := by
  unfold namedImports
  exact .relax rfl

instance : Edged (namespaceImport dialect) .sealed := by
  unfold namespaceImport
  exact .relax rfl

instance : Edged (importStatement dialect rules) .sealed := by
  unfold importStatement typeMark requireClause importClause fromClause importAttributes
  exact .relax rfl

instance : Edged (exportSpecifier dialect) .naming := by
  unfold exportSpecifier
  exact .relax rfl

instance : Edged (exportClause dialect) .sealed := by
  unfold exportClause
  exact .relax rfl

instance : Edged (reexport dialect) .sealed := by unfold reexport; exact .relax rfl

instance : Edged (defaultExport dialect rules) .sealed := by
  unfold defaultExport
  exact .relax rfl

instance : Edged (exportStatement dialect rules) .sealed := by
  unfold exportStatement
  exact .relax rfl

/-! Elements. -/

theorem tokenEdges_dashedLength? : TokenEdges .identifier dashedLength? .naming := by
  intro before text width found
  unfold dashedLength? at found
  dsimp only at found
  split at found
  next written =>
    cases found
    have ends := startsWithWord_drop_takeWhile (fun c => isTagChar c || c = '-') text fun c stops =>
      (Bool.or_eq_false_iff.mp stops).1
    have taken := List.takeWhile_prefix (l := text) fun c => isTagChar c || c = '-'
    apply Fits.leaf
    · rw [← List.prefix_iff_eq_take.mp taken]
      refine fun _ => ⟨taken.length_le,fun none => by simp [none] at written,fun c member => ?_⟩
      have allowed := List.mem_takeWhile_imp member
      constructor <;> rintro rfl <;> exact absurd allowed (by decide)
    · exact fun _ safe => ⟨safe rfl,Seam.of_right ends⟩
    · exact fun comment => by simp at comment
    · exact fun _ _ => Seam.of_right ends
  · contradiction

instance : Edged (plainWord dialect) .naming := by unfold plainWord; exact .relax rfl

instance : Edged (tagWord dialect) .naming := by
  have dashed := edged_token tokenEdges_dashedLength?
  unfold tagWord
  exact .relax rfl

instance : Edged (spacedName dialect) .naming := by
  unfold spacedName
  exact .relax rfl

instance : Edged (tagName dialect) .naming := by unfold tagName; exact .relax rfl

instance : Edged (braced rules) .sealed := by unfold braced; exact .relax rfl

theorem getLast?_attributeQuoted {quote : Char} {fuel : Nat} (text : List Char) (width : Nat)
    (found : Grammar.quotedLength? quote fuel text = some width) :
    (text.take width).getLast? = some quote := by
  induction fuel generalizing text width with
  | zero =>
    rw [Grammar.quotedLength?] at found
    contradiction
  | succ fuel ih =>
    cases text with
    | nil =>
      rw [Grammar.quotedLength?] at found
      contradiction
    | cons c rest =>
      rw [Grammar.quotedLength?] at found
      split at found
      next same =>
        cases found
        rw [same]
        rfl
      · split at found
        · obtain ⟨part,_,later⟩ := Option.bind_eq_some_iff.mp found
          obtain ⟨more,inside,rfl⟩ := Option.map_eq_some_iff.mp later
          have order : more + part + 1 = part + 1 + more := by omega
          rw [order]
          exact Lexeme.getLast?_take_add (ih _ more inside)
        · obtain ⟨more,inside,rfl⟩ := Option.map_eq_some_iff.mp found
          rw [Nat.add_comm]
          exact Lexeme.getLast?_take_add (ih rest more inside)

theorem closes_attributeValueLength? : Lexeme.Closes attributeValueLength? := by
  apply Lexeme.Closes.of_getLast?
  intro text width found
  unfold attributeValueLength? at found
  split at found
  next rest =>
    exact ⟨'"',Lexeme.ends_of_quoted (getLast?_attributeQuoted rest) found,by decide⟩
  next rest =>
    exact ⟨'\'',Lexeme.ends_of_quoted (getLast?_attributeQuoted rest) found,by decide⟩
  · contradiction

instance : Edged (elementAttribute dialect rules) .naming := by
  have value := edged_token (tokenEdges_sealed .string closes_attributeValueLength?)
  unfold elementAttribute
  exact .relax rfl

instance : Edged elementText .ragged := by unfold elementText; exact .relax rfl

instance : Edged characterReference .ragged := by
  unfold characterReference
  exact .relax rfl

instance : Edged (elementRest dialect rules) .sealed := by
  unfold elementRest
  exact .relax rfl

instance : Edged (element dialect rules) .sealed := by
  unfold element
  exact .relax rfl

/-! Statements. -/

instance (after : Place) : Edged (block dialect rules after) .sealed := by
  unfold block
  exact .relax rfl

instance : Edged (expressionStatement dialect rules) .naming := by
  unfold expressionStatement
  exact .relax rfl

instance : Edged (ifStatement dialect rules) .sealed := by
  unfold ifStatement
  exact .relax rfl

instance : Edged (loopValue rules) .trailing := by unfold loopValue; exact .relax rfl

instance : Edged (loopTarget dialect rules place) .any := by
  unfold loopTarget
  exact .relax rfl

instance : Edged (forInStatement dialect rules) .sealed := by
  unfold forInStatement
  exact .relax rfl

instance : Edged (forStatement dialect rules) .sealed := by
  unfold forStatement
  exact .relax rfl

instance : Edged (whileStatement dialect rules) .sealed := by
  unfold whileStatement
  exact .relax rfl

instance : Edged (doStatement dialect rules) .sealed := by
  unfold doStatement
  exact .relax rfl

instance : Edged (tryStatement dialect rules) .sealed := by
  unfold tryStatement
  exact .relax rfl

instance : Edged (switchStatement dialect rules) .sealed := by
  unfold switchStatement
  exact .relax rfl

instance : Edged (withStatement dialect rules) .sealed := by
  unfold withStatement
  exact .relax rfl

instance (kind : Kind) (word : String) [IsFalse kind.isSpecial] :
    Edged (jumpStatement dialect kind word) ((Edges.whole word).seq .sealed) := by
  unfold jumpStatement
  exact .relax (Edges.le_refl _)

instance : Edged (returnStatement dialect rules) .sealed := by
  unfold returnStatement
  exact .relax rfl

instance : Edged (throwStatement dialect rules) .sealed := by
  unfold throwStatement
  exact .relax rfl

instance : Edged (labeledStatement dialect rules) .sealed := by
  unfold labeledStatement
  exact .relax rfl

instance : Edged (bracedStatement dialect rules) .naming := by
  unfold bracedStatement
  exact .relax rfl

theorem edged_keywordStatement (word : String) (parser : Parser)
    (found : keywordStatement dialect rules word = some parser) : Edged parser .sealed := by
  unfold keywordStatement at found
  split at found <;> first | contradiction | (cases found; exact .relax rfl)

instance : Edged (namespaceStatement dialect rules) .sealed := by
  unfold namespaceStatement
  exact .relax rfl

instance (word : String) : Edged (wordStatement dialect rules word) .naming := by
  unfold wordStatement
  split <;> exact .relax rfl

instance : Edged (statement dialect rules) .naming := by
  have comment := edged_token (tokenEdges_sealed .markupComment Lexeme.closes_markupCommentLength?)
  unfold statement
  refine .weaken (@edged_or _ _ _ .naming comment (@edged_look _ _ fun text => ?_)) rfl
  split
  · exact .relax rfl
  · exact .relax rfl
  · exact .relax rfl
  · exact .relax rfl
  · dsimp only
    split
    next parser found =>
      have := edged_keywordStatement dialect rules _ parser found
      exact .relax rfl
    · exact .relax rfl

instance (rule : Rule) : Edged (body dialect rules rule) (edgesOf rule) := by
  cases rule <;> (unfold body; infer_instance)

end Constructs

theorem edged_rules (dialect : Dialect) (depth : Nat) (rule : Rule) :
    Edged (Grammar.rules dialect depth rule) (edgesOf rule) := by
  induction depth generalizing rule with
  | zero => cases rule <;> exact ⟨fun _ _ _ => trivial⟩
  | succ depth ih =>
    exact inferInstanceAs (Edged (body dialect (Grammar.rules dialect depth) rule) _)

end Grammar

open VueScope.Script.Grammar VueScope.Script.Parser Text

instance : Edged hashBang .sealed := by
  apply edged_token
  apply tokenEdges_sealed
  apply Lexeme.closes_of_startsWithWord
  intro text width found
  split at found
  next rest =>
    cases found
    apply startsWithWord_drop_takeWhile
    intro c stops
    rw [decide_eq_false_iff_not,not_not] at stops
    rw [stops]
    rfl
  · contradiction

/-- No name of a script runs on into another word. -/
instance (dialect : Dialect) (depth : Nat) : Edged (program dialect depth) .any := by
  have statement := edged_rules dialect depth .statement
  have final : Edged ⟨fun text =>
      let (shapes, rest) := trivia text
      if rest.isEmpty then .taken shapes [] else .absent⟩ .void := by
    constructor
    intro _ before text
    dsimp only
    split
    next none =>
      rw [List.isEmpty_iff] at none
      have lead := fits_trivia text.length before text
      rw [← none]
      exact lead
    · trivial
  unfold program
  exact .relax rfl

end VueScope.Script