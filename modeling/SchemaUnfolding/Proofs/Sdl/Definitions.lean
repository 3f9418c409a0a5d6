import SchemaUnfolding.Proofs.Sdl.Names
import SchemaUnfolding.Proofs.Sdl.Reading

/-!
# Names in definitions

Whatever a schema document names has a name in the sense of the language, because each name is that
of a token.
-/

namespace SchemaUnfolding.Sdl

/-! ## What is declared -/

/-- All names in a written type are names. -/
def TypeExpr.Named : TypeExpr → Prop
  | named name => IsName name
  | list item => item.Named
  | nonNull type => type.Named

/-- All names in a declaration are names. -/
structure InputDecl.Named (decl : InputDecl) : Prop where
  name : IsName decl.name
  type : decl.type.Named

/-- All names in a declaration are names. -/
structure FieldDecl.Named (decl : FieldDecl) : Prop where
  name : IsName decl.name
  parameters : ∀ parameter ∈ decl.parameters, parameter.Named
  type : decl.type.Named

/-- All names in the body of a type are names. -/
def TypeBody.Named : TypeBody → Prop
  | scalar => True
  | object interfaces fields | interface interfaces fields =>
    (∀ interface ∈ interfaces, IsName interface) ∧ ∀ field ∈ fields, field.Named
  | union members => ∀ member ∈ members, IsName member
  | enum values => ∀ value ∈ values, IsName value.name
  | input fields => ∀ field ∈ fields, field.Named

/-- All names in a declaration are names. -/
structure TypeDecl.Named (decl : TypeDecl) : Prop where
  name : IsName decl.name
  body : decl.body.Named

/-- All names of root types in a schema block are names. -/
structure SchemaBlock.Named (block : SchemaBlock) : Prop where
  query : ∀ root ∈ block.query, IsName root
  mutation : ∀ root ∈ block.mutation, IsName root
  subscription : ∀ root ∈ block.subscription, IsName root

/-- All names in a definition are names. -/
def Definition.Named : Definition → Prop
  | schema block => block.Named
  | type decl | extension decl => decl.Named
  | directive name => IsName name

/-! ## Names of tokens -/

/-- A written type is named when its target is. -/
theorem TypeExpr.named_iff {type : TypeExpr} : type.Named ↔ IsName type.target := by
  induction type with
  | named name => exact Iff.rfl
  | list item ih => exact ih
  | nonNull type ih => exact ih

section Taken

variable {tokens : List (Position × Token)} {levels : Nat}
  (spelled : ∀ entry ∈ tokens, entry.2.Named)
include spelled

theorem NameIn.isName {name : String} (known : NameIn tokens name) : IsName name := by
  obtain ⟨position, member⟩ := known
  exact spelled _ member

theorem TypeExpr.TakenFrom.named {type : TypeExpr} (taken : type.TakenFrom tokens levels) :
    type.Named :=
  TypeExpr.named_iff.mpr (taken.target.isName spelled)

theorem InputDecl.TakenFrom.named {decl : InputDecl} (taken : decl.TakenFrom tokens levels) :
    decl.Named :=
  ⟨taken.name.isName spelled, taken.type.named spelled⟩

theorem FieldDecl.TakenFrom.named {decl : FieldDecl} (taken : decl.TakenFrom tokens levels) :
    decl.Named where
  name := taken.name.isName spelled
  parameters parameter member := (taken.parameters parameter member).named spelled
  type := taken.type.named spelled

theorem TypeBody.TakenFrom.named {body : TypeBody} (taken : body.TakenFrom tokens levels) :
    body.Named := by
  cases body with
  | scalar => trivial
  | object interfaces fields | interface interfaces fields =>
    exact ⟨fun interface member => (taken.1 interface member).isName spelled,
      fun field member => (taken.2 field member).named spelled⟩
  | union members => exact fun name member => (taken name member).isName spelled
  | enum values => exact fun value member => (taken value member).name.isName spelled
  | input fields => exact fun field member => (taken field member).named spelled

theorem TypeDecl.TakenFrom.named {decl : TypeDecl} (taken : decl.TakenFrom tokens levels) :
    decl.Named :=
  ⟨taken.name.isName spelled, taken.body.named spelled⟩

theorem SchemaBlock.TakenFrom.named {block : SchemaBlock} (taken : block.TakenFrom tokens) :
    block.Named where
  query root member := (taken.query root member).isName spelled
  mutation root member := (taken.mutation root member).isName spelled
  subscription root member := (taken.subscription root member).isName spelled

theorem Definition.TakenFrom.named {definition : Definition}
    (taken : definition.TakenFrom tokens levels) : definition.Named := by
  cases definition with
  | schema block => exact SchemaBlock.TakenFrom.named spelled taken
  | type decl | extension decl => exact TypeDecl.TakenFrom.named spelled taken
  | directive name => exact NameIn.isName spelled taken

end Taken

/-- All definitions of a document are named. -/
theorem named_of_definitions {text : String} {found : List Definition}
    (read : definitions text = .ok found) : ∀ definition ∈ found, definition.Named := by
  obtain ⟨tokens, tokensRead, taken⟩ := exists_tokens_of_definitions read
  exact fun definition member =>
    Definition.TakenFrom.named (named_of_tokens tokensRead) (taken definition member)

end SchemaUnfolding.Sdl
