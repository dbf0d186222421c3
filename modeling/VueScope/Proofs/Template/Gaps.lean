import VueScope.Proofs.Markup.Interpolations
import VueScope.Template.Build

/-! The text between two nodes of markup is tiled. Cut at its interpolations it gives one node for each
interpolation and one for each text between them that is not blank, in the order written, and every
character of it belongs to one piece. -/
namespace VueScope.Template

open Text
open Markup.Piece (Cut Interpolated opening closing)

/-- Nodes that stand for pieces which follow one another from an offset on. A blank text has none. The
content of an interpolation is its body without the white space around it, and it starts behind
the opening braces and the white space that follows them. -/
inductive Tiles : Nat → List Markup.Piece → List Node → Prop
  | done {offset} : Tiles offset [] []
  | dropped {offset content pieces nodes} (blank : isBlank content = true)
      (later : Tiles (offset + content.length) pieces nodes) :
      Tiles offset (.text content :: pieces) nodes
  | text {offset content pieces nodes} (solid : isBlank content = false)
      (later : Tiles (offset + content.length) pieces nodes) :
      Tiles offset (.text content :: pieces) (.text content offset :: nodes)
  | interpolation {offset body pieces nodes}
      (later : Tiles (offset + (opening ++ body ++ closing).length) pieces nodes) :
      Tiles offset (.interpolation body :: pieces)
        (.interpolation ⟨trim body,((offset + 2 + (body.takeWhile isSpace).length : Nat) : Int),false⟩
          offset :: nodes)

theorem tiles_nodesOfPieces (offset : Nat) (pieces : List Markup.Piece) :
    Tiles offset pieces (nodesOfPieces offset pieces) := by
  induction pieces generalizing offset with
  | nil => exact .done
  | cons piece rest ih =>
    unfold nodesOfPieces
    cases piece with
    | text content =>
      dsimp only [Markup.Piece.source]
      split
      next blank => exact .dropped blank (ih _)
      next solid => exact .text (Bool.eq_false_iff.mpr solid) (ih _)
    | interpolation body =>
      have lead : body.length - (trimLeft body).length = (body.takeWhile isSpace).length := by
        have parts := congrArg List.length (@List.takeWhile_append_dropWhile _ isSpace body)
        rw [List.length_append] at parts
        unfold trimLeft
        omega
      dsimp only
      rw [lead]
      exact .interpolation (ih _)

theorem Tiles.text_mem {offset place : Nat} {pieces : List Markup.Piece} {nodes : List Node}
    {content : List Char} (tiles : Tiles offset pieces nodes)
    (member : Node.text content place ∈ nodes) : .text content ∈ pieces := by
  induction tiles with
  | done => contradiction
  | dropped _ _ ih => exact List.mem_cons_of_mem _ (ih member)
  | text _ _ ih =>
    rcases List.mem_cons.mp member with same | later
    · cases same
      exact List.mem_cons_self
    · exact List.mem_cons_of_mem _ (ih later)
  | interpolation _ ih =>
    rcases List.mem_cons.mp member with same | later
    · contradiction
    · exact List.mem_cons_of_mem _ (ih later)

theorem nodesOfGap_eq (text : List Char) (start stop : Nat) :
    nodesOfGap text start stop = nodesOfPieces (charOffset text start)
      (Markup.Piece.split (slice text (charOffset text start) (charOffset text stop))) := by
  unfold nodesOfGap
  split
  next behind =>
    have before := charOffset_mono text behind
    rw [slice,Nat.sub_eq_zero_of_le before,List.take_zero]
    rfl
  · rfl

theorem tiles_nodesOfGap (text : List Char) (start stop : Nat) :
    Tiles (charOffset text start)
      (Markup.Piece.split (slice text (charOffset text start) (charOffset text stop)))
      (nodesOfGap text start stop) := by
  rw [nodesOfGap_eq]
  exact tiles_nodesOfPieces _ _

theorem nodesOfGap_induction (kept : List Node → Prop) (nil : kept [])
    (text : ∀ content offset nodes, kept nodes → kept (.text content offset :: nodes))
    (interpolation : ∀ expression offset nodes, kept nodes → kept (.interpolation expression offset :: nodes))
    (source : List Char) (start stop : Nat) : kept (nodesOfGap source start stop) := by
  have every {offset pieces nodes} (tiles : Tiles offset pieces nodes) : kept nodes := by
    induction tiles with
    | done => exact nil
    | dropped _ _ ih => exact ih
    | text _ _ ih => exact text _ _ _ ih
    | interpolation _ ih => exact interpolation _ _ _ ih
  exact every (tiles_nodesOfGap source start stop)

/-- A gap is the concatenation of its pieces: the texts and interpolations that have a node, in the
order of the nodes, and the blank texts that have none. The pieces are those of the one leftmost and
shortest cut, so no body holds closing braces, and no text holds opening braces with closing ones
behind them. -/
theorem gaps_are_tiled (text : List Char) (start stop : Nat) :
    let gap := slice text (charOffset text start) (charOffset text stop)
    ∃ pieces, (∀ others, Cut gap others ↔ others = pieces) ∧
      pieces.flatMap Markup.Piece.source = gap ∧
      Tiles (charOffset text start) pieces (nodesOfGap text start stop) ∧
      (∀ body, .interpolation body ∈ pieces → ¬closing <:+: body) ∧
      ∀ content place, .text content place ∈ nodesOfGap text start stop → ¬Interpolated content := by
  intro gap
  have cut := Markup.Piece.cut_split gap
  have tiles := tiles_nodesOfGap text start stop
  refine ⟨Markup.Piece.split gap,fun others => Cut.iff_eq_split,cut.source_eq,tiles,?_,?_⟩
  · intro body member
    exact cut.not_closed member
  · intro content place member
    exact cut.not_interpolated (tiles.text_mem member)

/-- A third brace belongs to the body when it opens and to the text behind when it closes. Braces that
nothing closes are text. -/
theorem third_braces_are_tiled :
    let text := "é \x7b\x7b\x7b a \x7d\x7d\x7d\x7b\x7b b \x7d\x7d \x7b\x7b\x7d\x7d\x7b\x7b c".toList
    let pieces : List Markup.Piece := [.text "é ".toList,.interpolation "\x7b a ".toList,
      .text "\x7d".toList,.interpolation " b ".toList,.text " ".toList,.interpolation [],
      .text "\x7b\x7b c".toList]
    nodesOfGap text 0 40 = [.text "é ".toList 0,.interpolation ⟨"\x7b a".toList,4,false⟩ 2,
      .text "\x7d".toList 10,.interpolation ⟨"b".toList,14,false⟩ 11,.interpolation ⟨[],21,false⟩ 19,
      .text "\x7b\x7b c".toList 23] ∧
    (∀ others, Cut text others ↔ others = pieces) ∧ Tiles 0 pieces (nodesOfGap text 0 40) ∧
    ¬closing <:+: "\x7b a ".toList ∧ ¬Interpolated "\x7b\x7b c".toList := by
  intro text pieces
  have whole : slice text (charOffset text 0) (charOffset text 40) = text := by decide
  obtain ⟨found,unique,_,tiles,bodies,texts⟩ := gaps_are_tiled text 0 40
  rw [whole] at unique
  have same : pieces = found :=
    (unique pieces).mp (Cut.iff_eq_split.mpr (by decide))
  have nodes : nodesOfGap text 0 40 = [.text "é ".toList 0,
      .interpolation ⟨"\x7b a".toList,4,false⟩ 2,.text "\x7d".toList 10,
      .interpolation ⟨"b".toList,14,false⟩ 11,.interpolation ⟨[],21,false⟩ 19,
      .text "\x7b\x7b c".toList 23] := rfl
  refine ⟨nodes,same ▸ unique,same ▸ tiles,bodies _ ?_,texts _ 23 ?_⟩
  · rw [← same]
    decide
  · rw [nodes]
    simp

end VueScope.Template
