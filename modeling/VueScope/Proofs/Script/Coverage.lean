import VueScope.Proofs.Script.Name
import VueScope.Script.Shape

/-! Shapes and their widths. Labels and constructs around them add nothing to what they cover. -/
namespace VueScope.Script

@[reducible] def Kind.isName : Kind → Bool
  | .identifier => true
  | .shorthandProperty => true
  | .shorthandPattern => true
  | _ => false

@[reducible] def Kind.isComment : Kind → Bool
  | .comment => true
  | _ => false

theorem Kind.isComment_iff (kind : Kind) : kind.isComment = true ↔ kind = .comment := by
  cases kind <;> simp

namespace Shape

theorem widthAll_append (first second : List Shape) :
    widthAll (first ++ second) = widthAll first + widthAll second := by
  induction first with
  | nil => simp [widthAll]
  | cons shape rest ih => simp [widthAll,ih,Nat.add_assoc]

theorem width_label (field : Field) (shape : Shape) : (shape.label field).width = shape.width := by
  match shape with
  | blank _ => rfl
  | leaf kind none width => rw [label]; split <;> rfl
  | leaf kind (some _) width => rfl
  | node _ none _ => rfl
  | node _ (some _) _ => rfl

theorem widthAll_map_label (field : Field) (shapes : List Shape) :
    widthAll (shapes.map (label field)) = widthAll shapes := by
  induction shapes with
  | nil => rfl
  | cons shape rest ih => simp [widthAll,width_label,ih]

theorem widthAll_wrap (kind : Kind) (shapes : List Shape) :
    widthAll (wrap kind shapes) = widthAll shapes := by
  have parts : shapes.takeWhile isTrivia ++ shapes.dropWhile isTrivia = shapes :=
    List.takeWhile_append_dropWhile
  conv => rhs; rw [← parts]
  simp only [wrap,widthAll_append,widthAll,width,Nat.add_zero]

end Shape

/-- A condition that instance search settles by computing it. -/
class IsFalse (condition : Bool) : Prop where
  eq : condition = false

instance : IsFalse false := ⟨rfl⟩

end VueScope.Script
