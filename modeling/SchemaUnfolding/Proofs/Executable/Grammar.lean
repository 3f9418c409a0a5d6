import SchemaUnfolding.Operation.Selection
import SchemaUnfolding.OperationKind
import SchemaUnfolding.Sdl.Syntax
import SchemaUnfolding.Sdl.Token

/-!
# The grammar of executable documents

Which tokens are an operation, as rules: a keyword and a name, declarations of variables, and
selections. It is the part of the grammar that needs no values but variables, no directives and no
fragments with names. Lists in brackets are never empty; they are left out instead.
-/

namespace SchemaUnfolding.Executable

open Sdl (Token TypeExpr)

/-! ## Lists -/

/-- Some tokens are items of a kind, one after the other and at least one. -/
inductive Sequence {α : Type} (item : List Token → α → Prop) : List Token → List α → Prop
  | last {tokens : List Token} {value : α} : item tokens value → Sequence item tokens [value]
  | more {tokens rest : List Token} {value : α} {values : List α} :
      item tokens value → Sequence item rest values →
      Sequence item (tokens ++ rest) (value :: values)

/-- Some tokens are a list in round brackets that is left out when it is empty. -/
inductive Listed {α : Type} (item : List Token → α → Prop) : List Token → List α → Prop
  | absent : Listed item [] []
  | present {tokens : List Token} {values : List α} :
      Sequence item tokens values →
      Listed item (.opening .round :: (tokens ++ [.closing .round])) values

/-! ## Declarations of variables -/

mutual

/-- Some tokens are a type without a mark that forbids null. -/
inductive IsNullable : List Token → TypeExpr → Prop
  | named (name : String) : IsNullable [.name name] (.named name)
  | list {tokens : List Token} {item : TypeExpr} :
      IsType tokens item →
      IsNullable (.opening .square :: (tokens ++ [.closing .square])) (.list item)

/-- Some tokens are a type. -/
inductive IsType : List Token → TypeExpr → Prop
  | nullable {tokens : List Token} {type : TypeExpr} :
      IsNullable tokens type → IsType tokens type
  | nonNull {tokens : List Token} {type : TypeExpr} :
      IsNullable tokens type → IsType (tokens ++ [.mark .exclamation]) (.nonNull type)

end

/-- Some tokens declare a variable with its type. -/
inductive IsDeclaration : List Token → String × TypeExpr → Prop
  | declare {tokens : List Token} {type : TypeExpr} (name : String) :
      IsType tokens type →
      IsDeclaration (.mark .dollar :: .name name :: .mark .colon :: tokens) (name, type)

/-! ## Selections -/

/-- Some tokens pass a variable to a parameter. -/
inductive IsArgument : List Token → String × String → Prop
  | pass (parameter name : String) :
      IsArgument [.name parameter, .mark .colon, .mark .dollar, .name name] (parameter, name)

/-- Some tokens are an alias, or there is none. -/
inductive IsAlias : List Token → Option String → Prop
  | absent : IsAlias [] none
  | present (label : String) : IsAlias [.name label, .mark .colon] (some label)

/-- The selection that a field is read as: one for the name of the type at hand, or that field. -/
def fieldOrTypename (label : Option String) (name : String) (arguments : List (String × String))
    (selections : List Selection) : Selection :=
  if name = "__typename" ∧ label = none ∧ arguments = [] ∧ selections.isEmpty then .typename
  else .field label name arguments selections

/-- Some tokens are a selection. -/
inductive IsSelection : List Token → Selection → Prop
  | leaf {front back : List Token} {label : Option String} {name : String}
      {arguments : List (String × String)} :
      IsAlias front label → Listed IsArgument back arguments →
      IsSelection (front ++ .name name :: back) (fieldOrTypename label name arguments [])
  | branch {front back tokens : List Token} {label : Option String} {name : String}
      {arguments : List (String × String)} {selections : List Selection} :
      IsAlias front label → Listed IsArgument back arguments →
      Sequence IsSelection tokens selections →
      IsSelection
        (front ++ .name name :: (back ++ .opening .curly :: (tokens ++ [.closing .curly])))
        (fieldOrTypename label name arguments selections)
  | fragment {tokens : List Token} {selections : List Selection} (type : String) :
      Sequence IsSelection tokens selections →
      IsSelection (.mark .ellipsis :: .name "on" :: .name type :: .opening .curly ::
        (tokens ++ [.closing .curly])) (.fragment type selections)

/-! ## Operations -/

/-- An operation as it is read. -/
structure Operation where
  kind : OperationKind
  name : String
  declarations : List (String × TypeExpr)
  selections : List Selection

/-- Some tokens are an operation. -/
inductive IsOperation : List Token → Operation → Prop
  | operation {list tokens : List Token} {declarations : List (String × TypeExpr)}
      {selections : List Selection} (kind : OperationKind) (name : String) :
      Listed IsDeclaration list declarations → Sequence IsSelection tokens selections →
      IsOperation (.name kind.keyword :: .name name ::
        (list ++ .opening .curly :: (tokens ++ [.closing .curly])))
        ⟨kind, name, declarations, selections⟩

end SchemaUnfolding.Executable
