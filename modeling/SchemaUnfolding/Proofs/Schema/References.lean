import SchemaUnfolding.Schema.TypeRef

/-!
# References and written types

A reference is written as a type with marks, and two references are written alike exactly when they
are equivalent. So equivalence of references is an equivalence.
-/

namespace SchemaUnfolding.TypeRef

open Sdl (TypeExpr)

/-- A written type, marked unless null is allowed. -/
def marked (nullable : Bool) (type : TypeExpr) : TypeExpr :=
  if nullable then type else .nonNull type

/-- A reference as it is written. -/
def expr : TypeRef → TypeExpr
  | named nullable target => marked nullable (.named target.name)
  | list nullable item _ => marked nullable (.list item.expr)

/-- Two references are equivalent when they are written alike. -/
theorem equivalent_iff {type other : TypeRef} :
    type.equivalent other = true ↔ type.expr = other.expr := by
  induction type generalizing other with
  | named nullable target =>
    cases other with
    | named otherNullable otherTarget =>
      cases nullable <;> cases otherNullable <;> simp [equivalent, expr, marked]
    | list otherNullable item location =>
      cases nullable <;> cases otherNullable <;> simp [equivalent, expr, marked]
  | list nullable item location ih =>
    cases other with
    | named otherNullable otherTarget =>
      cases nullable <;> cases otherNullable <;> simp [equivalent, expr, marked]
    | list otherNullable otherItem otherLocation =>
      cases nullable <;> cases otherNullable <;> simp [equivalent, expr, marked, ih]

/-- Two references are equivalent when they have the same levels, of which the same allow null, and
end in one name. -/
theorem equivalent_iff_levels {type other : TypeRef} :
    type.equivalent other = true ↔
      type.nullability = other.nullability ∧ type.name = other.name := by
  induction type generalizing other with
  | named nullable target =>
    cases other with
    | named otherNullable otherTarget => simp [equivalent, nullability, name]
    | list otherNullable item location => cases item <;> simp [equivalent, nullability]
  | list nullable item location ih =>
    cases other with
    | named otherNullable otherTarget => cases item <;> simp [equivalent, nullability]
    | list otherNullable otherItem otherLocation =>
      simp [equivalent, nullability, name, ih, and_assoc]

end SchemaUnfolding.TypeRef
