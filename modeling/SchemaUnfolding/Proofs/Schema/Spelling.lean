import SchemaUnfolding.Proofs.Executable.Printed
import SchemaUnfolding.Proofs.Executable.Unambiguity
import SchemaUnfolding.Proofs.Schema.References
import SchemaUnfolding.Proofs.Schema.WellFormed

/-!
# The spelling of references

Reading a written type moves each mark to the level that it stands at, and spelling the reference
moves it back. The text is read as the written type and as no other, so different types are spelled
differently, and references that are spelled alike are equivalent.
-/

namespace SchemaUnfolding

open Executable (IsType)
open Sdl (IsName TypeExpr)

/-- No mark that forbids null stands directly behind another. -/
def Sdl.TypeExpr.MarkedOnce : TypeExpr → Prop
  | named _ => True
  | list item => item.MarkedOnce
  | nonNull (named _) => True
  | nonNull (list item) => item.MarkedOnce
  | nonNull (nonNull _) => False

namespace TypeRef

/-- The reference that a written type denotes is written like the type. -/
theorem expr_ofExpr (location : Location) {type : TypeExpr} (once : type.MarkedOnce) :
    (ofExpr location type).expr = type := by
  fun_induction TypeExpr.MarkedOnce type with
  | case1 name => rfl
  | case2 item ih => exact congrArg TypeExpr.list (ih once)
  | case3 name => rfl
  | case4 item ih => exact congrArg (fun inner => TypeExpr.nonNull (.list inner)) (ih once)
  | case5 type => exact once.elim

/-- A reference is spelled as it is written. -/
theorem text_expr (type : TypeRef) : type.expr.text = type.text := by
  induction type with
  | named nullable target => cases nullable <;> simp [expr, marked, TypeExpr.text, text, mark]
  | list nullable item location ih =>
    cases nullable <;> simp [expr, marked, TypeExpr.text, text, mark, ih]

/-- The text of a reference is read as the written type and as no other. -/
theorem exists_tokens_text {type : TypeRef} (named : IsName type.name) :
    ∃ located, Sdl.tokens type.text = .ok located ∧
      ∀ read, IsType (located.map Prod.snd) read ↔ read = type.expr := by
  obtain ⟨tokens, spelled, known⟩ := Executable.prints_type named
  obtain ⟨located, lexed, rfl⟩ := spelled.tokens (by simp [Sdl.EndsName])
  refine ⟨located, lexed, fun read => ?_⟩
  constructor
  · intro other
    have same : located.map Prod.snd ++ [] = located.map Prod.snd ++ [] := rfl
    exact (other.unique known same (by simp) (by simp)).1
  · rintro rfl
    exact known

/-- References that are spelled alike are written alike. -/
theorem expr_eq_of_text_eq {type other : TypeRef} (named : IsName type.name)
    (otherNamed : IsName other.name) (same : type.text = other.text) : type.expr = other.expr := by
  obtain ⟨located, lexed, read⟩ := exists_tokens_text named
  obtain ⟨otherLocated, otherLexed, otherRead⟩ := exists_tokens_text otherNamed
  rw [same, otherLexed] at lexed
  cases lexed
  exact (otherRead type.expr).mp ((read type.expr).mpr rfl)

/-- Two references are equivalent exactly when they are spelled alike. -/
theorem equivalent_iff_text_eq {type other : TypeRef} (named : IsName type.name)
    (otherNamed : IsName other.name) :
    type.equivalent other = true ↔ type.text = other.text := by
  rw [equivalent_iff]
  constructor
  · intro same
    rw [← text_expr, same, text_expr]
  · exact expr_eq_of_text_eq named otherNamed

/-- However deep two types without doubled marks are nested, and wherever they are written: the
reference that the first denotes is spelled like the type, so a variable that is declared with it is
declared with the type as it was written, and its text is read as that type only. The references
that both denote are equivalent exactly when they are spelled alike, which they are exactly when the
types are the same. -/
theorem ofExpr_text_exact {type other : TypeExpr} (once : type.MarkedOnce) (named : type.Named)
    (otherOnce : other.MarkedOnce) (otherNamed : other.Named) (location otherLocation : Location) :
    (ofExpr location type).text = type.text ∧
    (∀ (name : String) (fieldAt : Location) (decl : Sdl.InputDecl), decl.type = type →
      declarationsText [(name, (Parameter.ofDecl fieldAt decl).type)] =
        "$" ++ name ++ ": " ++ type.text) ∧
    (∃ located, Sdl.tokens (ofExpr location type).text = .ok located ∧
      ∀ read, IsType (located.map Prod.snd) read ↔ read = type) ∧
    ((ofExpr location type).equivalent (ofExpr otherLocation other) = true ↔
      (ofExpr location type).text = (ofExpr otherLocation other).text) ∧
    ((ofExpr location type).text = (ofExpr otherLocation other).text ↔ type = other) := by
  have target : IsName (ofExpr location type).name := name_ofExpr named
  have otherTarget : IsName (ofExpr otherLocation other).name := name_ofExpr otherNamed
  have spelled : ∀ place, (ofExpr place type).text = type.text := by
    intro place
    rw [← text_expr, expr_ofExpr place once]
  have alike := equivalent_iff_text_eq target otherTarget
  refine ⟨spelled location, ?_, ?_, alike, ?_⟩
  · rintro name fieldAt decl rfl
    simp [declarationsText, Parameter.ofDecl, spelled]
  · obtain ⟨located, lexed, read⟩ := exists_tokens_text target
    rw [expr_ofExpr location once] at read
    exact ⟨located, lexed, read⟩
  · rw [← alike, equivalent_iff, expr_ofExpr location once, expr_ofExpr otherLocation otherOnce]

/-- Two lists of lists with their marks at different levels are told apart. -/
theorem nestedTypes_text_exact :
    let type : TypeExpr := .nonNull (.list (.list (.nonNull (.named "String"))))
    let other : TypeExpr := .nonNull (.list (.nonNull (.list (.named "String"))))
    type.MarkedOnce ∧ type.Named ∧ other.MarkedOnce ∧ other.Named ∧
      (ofExpr .builtIn type).text = "[[String!]]!" ∧
      (ofExpr (.source none ⟨3, 7⟩) other).text = "[[String]!]!" ∧
      (ofExpr .builtIn type).equivalent (ofExpr (.source none ⟨3, 7⟩) other) = false := by
  intro type other
  have once : type.MarkedOnce := trivial
  have otherOnce : other.MarkedOnce := trivial
  have named : type.Named := show IsName "String" by decide
  have otherNamed : other.Named := named
  have exact := ofExpr_text_exact once named otherOnce otherNamed .builtIn (.source none ⟨3, 7⟩)
  have text := ofExpr_text_exact otherOnce otherNamed once named (.source none ⟨3, 7⟩) .builtIn
  refine ⟨once, named, otherOnce, otherNamed, exact.1, text.1, ?_⟩
  obtain ⟨_, _, _, alike, same⟩ := exact
  rw [← Bool.not_eq_true, alike, same]
  decide

end TypeRef

end SchemaUnfolding
