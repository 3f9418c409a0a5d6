import Mathlib.Data.List.Basic
import Mathlib.Tactic
import SchemaUnfolding.Sdl.Group

/-!
# Items and the tokens they are made of

Grouping keeps the tokens of a document and their positions, and it nests brackets only as deep as
the limit allows.
-/

namespace SchemaUnfolding.Sdl

/-- An item is made of some tokens, with brackets nested within so many levels. -/
inductive Item.MadeOf (tokens : List (Position × Token)) : Nat → Item → Prop
  | token {levels : Nat} {position : Position} {token : Token} :
      (position, token) ∈ tokens → MadeOf tokens levels (.token position token)
  | group {levels : Nat} {position : Position} {bracket : Bracket} {items : List Item} :
      (position, .opening bracket) ∈ tokens → (∀ item ∈ items, MadeOf tokens levels item) →
      MadeOf tokens (levels + 1) (.group position bracket items)

/-- All of some items are made of some tokens. -/
def AllMadeOf (tokens : List (Position × Token)) (levels : Nat) (items : List Item) : Prop :=
  ∀ item ∈ items, item.MadeOf tokens levels

/-- So are the items before each open bracket, with the levels that are left outside the bracket. -/
def OpenedMadeOf (tokens : List (Position × Token)) : List Item.Opened → Prop
  | [] => True
  | innermost :: outer =>
    (innermost.position, .opening innermost.bracket) ∈ tokens ∧
      AllMadeOf tokens (Item.nestingLimit - outer.length) innermost.before ∧
      OpenedMadeOf tokens outer

variable {tokens : List (Position × Token)} {levels : Nat}

@[simp]
theorem allMadeOf_nil : AllMadeOf tokens levels [] := by
  simp [AllMadeOf]

@[simp]
theorem allMadeOf_cons_iff {item : Item} {items : List Item} :
    AllMadeOf tokens levels (item :: items) ↔
      item.MadeOf tokens levels ∧ AllMadeOf tokens levels items := by
  simp [AllMadeOf]

@[simp]
theorem allMadeOf_reverse_iff {items : List Item} :
    AllMadeOf tokens levels items.reverse ↔ AllMadeOf tokens levels items := by
  simp [AllMadeOf]

@[simp]
theorem Item.madeOf_token_iff {position : Position} {token : Token} :
    (Item.token position token).MadeOf tokens levels ↔ (position, token) ∈ tokens := by
  constructor
  · intro made
    cases made with
    | token known => exact known
  · exact .token

/-- More levels do no harm. -/
theorem Item.MadeOf.weaken {item : Item} {more : Nat} (made : item.MadeOf tokens levels)
    (enough : levels ≤ more) : item.MadeOf tokens more := by
  induction made generalizing more with
  | token known => exact .token known
  | group opening _ ih =>
    obtain ⟨less, rfl⟩ : ∃ less, more = less + 1 := Nat.exists_eq_add_one.mpr (by omega)
    exact .group opening fun item member => ih item member (by omega)

/-- What stands in brackets is made of the tokens too. -/
theorem Item.MadeOf.inside {position : Position} {bracket : Bracket} {items : List Item}
    (made : (Item.group position bracket items).MadeOf tokens levels) :
    AllMadeOf tokens levels items := by
  cases made with
  | group _ inside => exact fun item member => (inside item member).weaken (Nat.le_succ _)

/-- The position of an item is that of one of the tokens. -/
theorem Item.MadeOf.position {item : Item} (made : item.MadeOf tokens levels) :
    ∃ token, (item.position, token) ∈ tokens := by
  cases made with
  | token known => exact ⟨_, known⟩
  | group opening _ => exact ⟨_, opening⟩

/-! ## Grouping -/

/-- A bracket that is closed is one more item of those outside. -/
theorem allMadeOf_close {innermost : Item.Opened} {outer : List Item.Opened} {done : List Item}
    (outside : OpenedMadeOf tokens (innermost :: outer))
    (bounded : (innermost :: outer).length ≤ Item.nestingLimit)
    (inside : AllMadeOf tokens (Item.nestingLimit - (innermost :: outer).length) done) :
    AllMadeOf tokens (Item.nestingLimit - outer.length)
      (.group innermost.position innermost.bracket done.reverse :: innermost.before) := by
  obtain ⟨opening, before, _⟩ := outside
  rw [List.length_cons] at bounded inside
  have levels : Item.nestingLimit - outer.length =
      Item.nestingLimit - (outer.length + 1) + 1 := by omega
  rw [allMadeOf_cons_iff]
  refine ⟨?_, before⟩
  rw [levels]
  exact .group opening (allMadeOf_reverse_iff.mpr inside)

theorem allMadeOf_closeAll {opened : List Item.Opened} {done : List Item}
    (outside : OpenedMadeOf tokens opened) (bounded : opened.length ≤ Item.nestingLimit)
    (inside : AllMadeOf tokens (Item.nestingLimit - opened.length) done) :
    AllMadeOf tokens Item.nestingLimit (Item.closeAll opened done) := by
  unfold Item.closeAll
  rw [allMadeOf_reverse_iff]
  induction opened generalizing done with
  | nil => exact inside
  | cons innermost outer ih =>
    rw [List.foldl_cons]
    exact ih outside.2.2 (Nat.le_of_succ_le bounded) (allMadeOf_close outside bounded inside)

theorem allMadeOf_of_gather {opened : List Item.Opened} {done items : List Item}
    {remaining : List (Position × Token)}
    (gathered : Item.gather opened done remaining = .ok items)
    (known : ∀ entry ∈ remaining, entry ∈ tokens) (outside : OpenedMadeOf tokens opened)
    (bounded : opened.length ≤ Item.nestingLimit)
    (inside : AllMadeOf tokens (Item.nestingLimit - opened.length) done) :
    AllMadeOf tokens Item.nestingLimit items := by
  fun_induction Item.gather opened done remaining with
  | case1 opened done empty =>
    cases gathered
    rw [List.isEmpty_iff.mp empty] at inside
    exact allMadeOf_reverse_iff.mpr inside
  | case3 opened done position bracket rest room ih =>
    obtain ⟨opening, later⟩ := List.forall_mem_cons.mp known
    exact ih gathered later ⟨opening, inside, outside⟩ room allMadeOf_nil
  | case6 done position rest innermost outer ih =>
    obtain ⟨_, later⟩ := List.forall_mem_cons.mp known
    exact ih gathered later outside.2.2 (Nat.le_of_succ_le bounded)
      (allMadeOf_close outside bounded inside)
  | case8 opened done position cause rest =>
    cases gathered
    obtain ⟨here, _⟩ := List.forall_mem_cons.mp known
    exact allMadeOf_closeAll outside bounded (by simpa using ⟨here, inside⟩)
  | case9 opened done position other rest _ _ _ ih =>
    obtain ⟨here, later⟩ := List.forall_mem_cons.mp known
    exact ih gathered later outside bounded (by simpa using ⟨here, inside⟩)
  | _ => cases gathered

/-- The items of a document are made of its tokens, within the limit for nesting. -/
theorem allMadeOf_of_ofTokens {items : List Item} (gathered : Item.ofTokens tokens = .ok items) :
    AllMadeOf tokens Item.nestingLimit items :=
  allMadeOf_of_gather gathered (fun _ member => member) trivial (Nat.zero_le _) allMadeOf_nil

end SchemaUnfolding.Sdl
