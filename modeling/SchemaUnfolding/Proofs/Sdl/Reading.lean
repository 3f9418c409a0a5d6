import SchemaUnfolding.Proofs.Sdl.Items
import SchemaUnfolding.Proofs.Success
import SchemaUnfolding.Sdl.Grammar

/-!
# What definitions are taken from

The readers take names from name tokens and positions from tokens, and what they read of a type
nests lists only as deep as brackets were nested. So whatever is known of the tokens of a document
is known of its definitions.
-/

namespace SchemaUnfolding.Sdl

/-! ## What is declared -/

/-- A name is that of a name token. -/
def NameIn (tokens : List (Position × Token)) (name : String) : Prop :=
  ∃ position, (position, .name name) ∈ tokens

/-- A position is that of a token, or the first one there is. -/
def PlaceIn (tokens : List (Position × Token)) (position : Position) : Prop :=
  position = .start ∨ ∃ token, (position, token) ∈ tokens

/-- The name in a written type. -/
def TypeExpr.target : TypeExpr → String
  | named name => name
  | list item => item.target
  | nonNull type => type.target

/-- How many lists a written type stands for, one inside the other. -/
def TypeExpr.depth : TypeExpr → Nat
  | named _ => 0
  | list item => item.depth + 1
  | nonNull type => type.depth

/-- A written type has its name from a token, and its lists are nested within so many levels. -/
structure TypeExpr.TakenFrom (tokens : List (Position × Token)) (levels : Nat) (type : TypeExpr) :
    Prop where
  target : NameIn tokens type.target
  depth : type.depth ≤ levels

section Declarations

variable (tokens : List (Position × Token)) (levels : Nat)

/-- A declaration is taken from tokens. -/
structure InputDecl.TakenFrom (decl : InputDecl) : Prop where
  position : PlaceIn tokens decl.position
  name : NameIn tokens decl.name
  type : decl.type.TakenFrom tokens levels

/-- A declaration is taken from tokens. -/
structure FieldDecl.TakenFrom (decl : FieldDecl) : Prop where
  position : PlaceIn tokens decl.position
  name : NameIn tokens decl.name
  parameters : ∀ parameter ∈ decl.parameters, parameter.TakenFrom tokens levels
  type : decl.type.TakenFrom tokens levels

/-- A declaration is taken from tokens. -/
structure EnumValueDecl.TakenFrom (decl : EnumValueDecl) : Prop where
  position : PlaceIn tokens decl.position
  name : NameIn tokens decl.name

/-- The body of a type is taken from tokens. -/
def TypeBody.TakenFrom : TypeBody → Prop
  | scalar => True
  | object interfaces fields | interface interfaces fields =>
    (∀ interface ∈ interfaces, NameIn tokens interface) ∧
      ∀ field ∈ fields, field.TakenFrom tokens levels
  | union members => ∀ member ∈ members, NameIn tokens member
  | enum values => ∀ value ∈ values, value.TakenFrom tokens
  | input fields => ∀ field ∈ fields, field.TakenFrom tokens levels

/-- A declaration is taken from tokens. -/
structure TypeDecl.TakenFrom (decl : TypeDecl) : Prop where
  position : PlaceIn tokens decl.position
  name : NameIn tokens decl.name
  body : decl.body.TakenFrom tokens levels

/-- A schema block is taken from tokens. -/
structure SchemaBlock.TakenFrom (block : SchemaBlock) : Prop where
  position : PlaceIn tokens block.position
  query : ∀ root ∈ block.query, NameIn tokens root
  mutation : ∀ root ∈ block.mutation, NameIn tokens root
  subscription : ∀ root ∈ block.subscription, NameIn tokens root

/-- A definition is taken from tokens. -/
def Definition.TakenFrom : Definition → Prop
  | schema block => block.TakenFrom tokens
  | type decl | extension decl => decl.TakenFrom tokens levels
  | directive name => NameIn tokens name

end Declarations

/-! ## Readers -/

namespace Reader

/-- From items that are made of tokens a reader takes only results of a kind, and it leaves such
items. -/
def Gives {α : Type} (tokens : List (Position × Token)) (levels : Nat) (read : Reader α)
    (good : α → Prop) : Prop :=
  ∀ ⦃items result rest⦄, AllMadeOf tokens levels items → read items = .ok (result, rest) →
    good result ∧ AllMadeOf tokens levels rest

variable {α β : Type} {tokens : List (Position × Token)} {levels : Nat}

theorem gives_pure {good : α → Prop} {value : α} (known : good value) :
    Gives tokens levels (pure value) good := by
  intro items result rest made success
  cases success
  exact ⟨known, made⟩

theorem Gives.bind {read : Reader α} {next : α → Reader β} {good : α → Prop} {last : β → Prop}
    (first : read.Gives tokens levels good)
    (second : ∀ value, good value → (next value).Gives tokens levels last) :
    (read >>= next).Gives tokens levels last := by
  intro items result rest made success
  change Except.bind (read items) (fun found => next found.1 found.2) =
    .ok (result, rest) at success
  cases found : read items with
  | error error =>
    rw [found] at success
    cases success
  | ok taken =>
    rw [found] at success
    rcases first made found with ⟨known, left⟩
    exact second taken.1 known left success

theorem gives_fail {good : α → Prop} : Gives tokens levels fail good := by
  intro items result rest _ success
  cases success

theorem gives_lift {computation : Except SyntaxError α} {good : α → Prop}
    (known : ∀ result, computation = .ok result → good result) :
    Gives tokens levels (liftM computation) good := by
  intro items result rest made success
  cases computation with
  | error error => cases success
  | ok value =>
    cases success
    exact ⟨known _ rfl, made⟩

theorem gives_throw {good : α → Prop} {error : SyntaxError} :
    Gives tokens levels (throw error) good := by
  intro items result rest _ success
  cases success

theorem gives_foldlM {step : β → α → Reader β} {good : β → Prop} {items : List α} {start : β}
    (known : good start)
    (preserves : ∀ state item, item ∈ items → good state →
      (step state item).Gives tokens levels good) :
    (items.foldlM step start).Gives tokens levels good := by
  induction items generalizing start with
  | nil => exact gives_pure known
  | cons item rest ih =>
    rw [List.foldlM_cons]
    apply (preserves start item (List.mem_cons_self ..) known).bind
    intro middle reached
    exact ih reached fun state item member => preserves state item (List.mem_cons_of_mem _ member)

/-! ## Pieces -/

theorem gives_position : position.Gives tokens levels (PlaceIn tokens) := by
  intro items result rest made success
  cases success
  refine ⟨?_, made⟩
  cases items with
  | nil => exact .inl rfl
  | cons item rest => exact .inr (allMadeOf_cons_iff.mp made).1.position

theorem gives_name : name.Gives tokens levels (NameIn tokens) := by
  intro items result rest made success
  unfold name at success
  split at success
  · cases success
    simp only [allMadeOf_cons_iff, Item.madeOf_token_iff] at made
    exact ⟨⟨_, made.1⟩, made.2⟩
  · cases success

theorem gives_description? : description?.Gives tokens levels fun _ => True := by
  intro items result rest made success
  unfold description? at success
  split at success
  · cases success
    exact ⟨trivial, (allMadeOf_cons_iff.mp made).2⟩
  · cases success
  · cases success
    exact ⟨trivial, made⟩

theorem gives_token? (wanted : Token) : (token? wanted).Gives tokens levels fun _ => True := by
  intro items result rest made success
  unfold token? at success
  split at success
  · split at success
    · cases success
      exact ⟨trivial, (allMadeOf_cons_iff.mp made).2⟩
    · cases success
      exact ⟨trivial, made⟩
  · cases success
    exact ⟨trivial, made⟩

theorem gives_token (wanted : Token) : (token wanted).Gives tokens levels fun _ => True := by
  apply (gives_token? wanted).bind
  intro found _
  cases found with
  | true => exact gives_pure trivial
  | false => exact gives_fail

theorem gives_group? (wanted : Bracket) : (group? wanted).Gives tokens levels
    fun found => ∀ inner ∈ found, AllMadeOf tokens levels inner := by
  intro items result rest made success
  unfold group? at success
  split at success
  · split at success
    · cases success
      obtain ⟨group, left⟩ := allMadeOf_cons_iff.mp made
      exact ⟨by simpa using group.inside, left⟩
    · cases success
      exact ⟨by simp, made⟩
  · cases success
    exact ⟨by simp, made⟩

theorem gives_names (mark : Mark) :
    (names mark).Gives tokens levels fun found => ∀ name ∈ found, NameIn tokens name := by
  intro items result rest made success
  fun_induction names mark items generalizing result rest with
  | case1 _ name _ after ih =>
    simp only [allMadeOf_cons_iff, Item.madeOf_token_iff] at made
    rcases map_eq_ok_iff.mp success with ⟨⟨others, left⟩, others_read, ⟨⟩⟩
    rcases ih made.2.2 others_read with ⟨known, last⟩
    exact ⟨List.forall_mem_cons.mpr ⟨⟨_, made.1⟩, known⟩, last⟩
  | case2 _ name _ found after _ =>
    cases success
    obtain ⟨first, left⟩ := allMadeOf_cons_iff.mp made
    exact ⟨List.forall_mem_singleton.mpr ⟨_, Item.madeOf_token_iff.mp first⟩, left⟩
  | case3 _ name after _ =>
    cases success
    obtain ⟨first, left⟩ := allMadeOf_cons_iff.mp made
    exact ⟨List.forall_mem_singleton.mpr ⟨_, Item.madeOf_token_iff.mp first⟩, left⟩
  | case4 => cases success

theorem gives_markedNames (mark : Mark) :
    (markedNames mark).Gives tokens levels fun found => ∀ name ∈ found, NameIn tokens name :=
  (gives_token? _).bind fun _ _ => gives_names mark

theorem gives_nonNull {type : TypeExpr} (known : type.TakenFrom tokens levels) :
    (nonNull type).Gives tokens levels (TypeExpr.TakenFrom tokens levels) := by
  apply (gives_token? _).bind
  intro found _
  cases found with
  | true => exact gives_pure ⟨known.target, known.depth⟩
  | false => exact gives_pure known

/-- What stands in a bracket uses one level less. -/
theorem gives_type : type.Gives tokens levels (TypeExpr.TakenFrom tokens levels) := by
  intro items result rest made success
  fun_induction type items generalizing levels result rest with
  | case1 _ name after =>
    simp only [allMadeOf_cons_iff, Item.madeOf_token_iff] at made
    have taken : (TypeExpr.named name).TakenFrom tokens levels := ⟨⟨_, made.1⟩, Nat.zero_le _⟩
    exact gives_nonNull taken made.2 success
  | case2 _ inner after item read ih =>
    obtain ⟨group, left⟩ := allMadeOf_cons_iff.mp made
    cases group with
    | group _ inside =>
      obtain ⟨known, -⟩ := ih inside read
      have taken : (TypeExpr.list item).TakenFrom tokens (_ + 1) :=
        ⟨known.target, Nat.succ_le_succ known.depth⟩
      exact gives_nonNull taken left success
  | case3 => cases success
  | case4 => cases success
  | case5 => cases success

theorem gives_directives : directives.Gives tokens levels fun _ => True := by
  intro items result rest made success
  fun_induction directives items generalizing result rest with
  | case1 _ _ name _ inner after ih =>
    simp only [allMadeOf_cons_iff] at made
    rcases bind_eq_ok_iff.mp success with ⟨_, _, others⟩
    rcases bind_eq_ok_iff.mp others with ⟨⟨_, left⟩, others_read, ⟨⟩⟩
    exact ⟨trivial, (ih made.2.2.2 others_read).2⟩
  | case2 _ _ name after _ ih =>
    simp only [allMadeOf_cons_iff] at made
    rcases bind_eq_ok_iff.mp success with ⟨⟨_, left⟩, others_read, ⟨⟩⟩
    exact ⟨trivial, (ih made.2.2 others_read).2⟩
  | case3 => cases success
  | case4 items =>
    cases success
    exact ⟨trivial, made⟩

theorem gives_default? : default?.Gives tokens levels fun _ => True := by
  intro items result rest made success
  unfold default? at success
  split at success
  · rcases map_eq_ok_iff.mp success with ⟨value, _, ⟨⟩⟩
    simp only [allMadeOf_cons_iff] at made
    exact ⟨trivial, made.2.2⟩
  · cases success
  · cases success
    exact ⟨trivial, made⟩

/-! ## Repetition -/

theorem readAll_gives {read : Reader α} {good : α → Prop} (gives : read.Gives tokens levels good)
    {items : List Item} {results : List α} (made : AllMadeOf tokens levels items)
    (success : readAll read items = .ok results) : ∀ result ∈ results, good result := by
  induction items using readAll.induct generalizing results with
  | case1 =>
    rw [readAll] at success
    cases success
    simp
  | case2 first rest ih =>
    rw [readAll] at success
    rcases bind_eq_ok_iff.mp success with ⟨⟨result, after⟩, first_read, others⟩
    rcases gives made first_read with ⟨known, left⟩
    dsimp only at others
    split at others
    · rename_i shorter
      rcases bind_eq_ok_iff.mp others with ⟨more, more_read, ⟨⟩⟩
      simpa [known] using ih after shorter left more_read
    · cases others

theorem readSome_gives {read : Reader α} {good : α → Prop} (gives : read.Gives tokens levels good)
    {items : List Item} {results : List α} (made : AllMadeOf tokens levels items)
    (success : readSome read items = .ok results) : ∀ result ∈ results, good result := by
  rw [readSome] at success
  split at success
  · cases success
  · exact readAll_gives gives made success

theorem gives_bracketed (bracket : Bracket) {read : Reader α} {good : α → Prop}
    (gives : read.Gives tokens levels good) :
    (bracketed bracket read).Gives tokens levels fun found => ∀ result ∈ found, good result := by
  apply (gives_group? bracket).bind
  intro found known
  cases found with
  | none => exact gives_pure (by simp)
  | some inner =>
    exact gives_lift fun results => readSome_gives gives (known inner rfl)

/-! ## Declarations -/

theorem gives_input : input.Gives tokens levels (InputDecl.TakenFrom tokens levels) := by
  apply gives_position.bind
  intro _ position
  apply gives_description?.bind
  intro _ _
  apply gives_name.bind
  intro _ name
  apply (gives_token _).bind
  intro _ _
  apply gives_type.bind
  intro _ type
  apply gives_default?.bind
  intro _ _
  apply Gives.bind gives_directives
  intro _ _
  exact gives_pure ⟨position, name, type⟩

theorem gives_field : field.Gives tokens levels (FieldDecl.TakenFrom tokens levels) := by
  apply gives_position.bind
  intro _ position
  apply gives_description?.bind
  intro _ _
  apply gives_name.bind
  intro _ name
  apply (gives_bracketed _ gives_input).bind
  intro _ parameters
  apply (gives_token _).bind
  intro _ _
  apply gives_type.bind
  intro _ type
  apply Gives.bind gives_directives
  intro _ _
  exact gives_pure ⟨position, name, parameters, type⟩

theorem gives_enumValue : enumValue.Gives tokens levels (EnumValueDecl.TakenFrom tokens) := by
  apply gives_position.bind
  intro _ position
  apply gives_description?.bind
  intro _ _
  apply gives_name.bind
  intro _ name
  apply Gives.bind gives_directives
  intro _ _
  exact gives_pure ⟨position, name⟩

/-- Names that follow a token are names of tokens, and without the token there are none. -/
theorem gives_names_after (wanted : Token) (mark : Mark) :
    Gives tokens levels (do if ← token? wanted then markedNames mark else return [])
      fun found => ∀ name ∈ found, NameIn tokens name := by
  apply (gives_token? wanted).bind
  intro found _
  cases found with
  | true => exact gives_markedNames mark
  | false => exact gives_pure (by simp)

section Types

variable {position : Position} {description : Option String}

/-- A type with interfaces and fields is taken from tokens, of whichever kind it is. -/
theorem gives_fielded {body : List String → List FieldDecl → TypeBody}
    (taken : ∀ interfaces fields, (∀ interface ∈ interfaces, NameIn tokens interface) →
      (∀ field ∈ fields, field.TakenFrom tokens levels) →
      (body interfaces fields).TakenFrom tokens levels)
    (place : PlaceIn tokens position) :
    Gives tokens levels (do
      let name ← name
      let interfaces ← interfaces
      let directives ← directives
      let fields ← bracketed .curly field
      return { position, description, name, directives, body := body interfaces fields })
      (TypeDecl.TakenFrom tokens levels) := by
  apply gives_name.bind
  intro _ name
  apply (gives_names_after _ _).bind
  intro _ interfaces
  apply Gives.bind gives_directives
  intro _ _
  apply (gives_bracketed _ gives_field).bind
  intro _ fields
  exact gives_pure ⟨place, name, taken _ _ interfaces fields⟩

/-- So is a type with one list of members, values or fields. -/
theorem gives_listed {read : Reader α} {good : α → Prop} (gives : read.Gives tokens levels good)
    {body : α → TypeBody} (taken : ∀ held, good held → (body held).TakenFrom tokens levels)
    (place : PlaceIn tokens position) :
    Gives tokens levels (do
      let name ← name
      let directives ← directives
      let held ← read
      return { position, description, name, directives, body := body held })
      (TypeDecl.TakenFrom tokens levels) := by
  apply gives_name.bind
  intro _ name
  apply Gives.bind gives_directives
  intro _ _
  apply gives.bind
  intro _ held
  exact gives_pure ⟨place, name, taken _ held⟩

theorem gives_typeDecl (keyword : String) (place : PlaceIn tokens position) :
    (typeDecl keyword position description).Gives tokens levels
      (TypeDecl.TakenFrom tokens levels) := by
  unfold typeDecl
  split
  · apply gives_name.bind
    intro _ name
    apply Gives.bind gives_directives
    intro _ _
    exact gives_pure ⟨place, name, trivial⟩
  · exact gives_fielded (fun _ _ interfaces fields => ⟨interfaces, fields⟩) place
  · exact gives_fielded (fun _ _ interfaces fields => ⟨interfaces, fields⟩) place
  · exact gives_listed (gives_names_after _ _) (fun _ members => members) place
  · exact gives_listed (gives_bracketed _ gives_enumValue) (fun _ values => values) place
  · exact gives_listed (gives_bracketed _ gives_input) (fun _ fields => fields) place
  · exact gives_throw

end Types

/-! ## Definitions -/

theorem gives_root : root.Gives tokens levels fun entry => NameIn tokens entry.2.2 := by
  apply gives_position.bind
  intro _ _
  apply gives_name.bind
  intro _ _
  apply (gives_token _).bind
  intro _ _
  apply gives_name.bind
  intro _ name
  exact gives_pure name

theorem takenFrom_of_enterRoot {block result : SchemaBlock} {entry : Position × String × String}
    (entered : enterRoot block entry = .ok result) (known : block.TakenFrom tokens)
    (name : NameIn tokens entry.2.2) : result.TakenFrom tokens := by
  rcases entry with ⟨position, operation, type⟩
  unfold enterRoot at entered
  dsimp only at entered
  split at entered
  · cases entered
    exact ⟨known.position, by simpa using name, known.mutation, known.subscription⟩
  · cases entered
    exact ⟨known.position, known.query, by simpa using name, known.subscription⟩
  · cases entered
    exact ⟨known.position, known.query, known.mutation, by simpa using name⟩
  · cases entered

theorem gives_schemaBlock {position : Position} (place : PlaceIn tokens position) :
    (schemaBlock position).Gives tokens levels (SchemaBlock.TakenFrom tokens) := by
  apply Gives.bind gives_directives
  intro _ _
  apply (gives_group? _).bind
  intro found known
  cases found with
  | none => exact gives_fail
  | some inner =>
    refine Gives.bind (gives_lift fun _ => readAll_gives gives_root (known inner rfl))
      fun entries names => ?_
    apply gives_foldlM ⟨place, by simp, by simp, by simp⟩
    intro block entry member known
    exact gives_lift fun _ entered => takenFrom_of_enterRoot entered known (names entry member)

theorem gives_locationNames : locations.locationNames.Gives tokens levels fun _ => True := by
  apply gives_position.bind
  intro position _
  apply (gives_markedNames _).bind
  intro names _
  split
  · exact gives_pure trivial
  · exact gives_throw

theorem gives_locations : locations.Gives tokens levels fun _ => True := by
  intro items result rest made success
  unfold locations at success
  split at success
  · exact gives_locationNames made success
  · exact gives_locationNames made success
  · cases success
    exact ⟨trivial, made⟩

theorem gives_directiveDefinition :
    directiveDefinition.Gives tokens levels (Definition.TakenFrom tokens levels) := by
  apply (gives_token _).bind
  intro _ _
  apply gives_name.bind
  intro _ name
  apply (gives_bracketed _ gives_input).bind
  intro _ _
  apply (gives_token? _).bind
  intro _ _
  apply (gives_token _).bind
  intro _ _
  apply Gives.bind gives_locations
  intro _ _
  exact gives_pure name

theorem gives_definition :
    definition.Gives tokens levels (Definition.TakenFrom tokens levels) := by
  apply gives_description?.bind
  intro description _
  apply gives_position.bind
  intro position place
  apply gives_name.bind
  intro keyword _
  split
  · apply (gives_schemaBlock place).bind
    intro _ block
    exact gives_pure block
  · apply gives_position.bind
    intro position place
    apply gives_name.bind
    intro keyword _
    apply (gives_typeDecl keyword place).bind
    intro decl known
    split
    · exact gives_pure known
    · exact gives_fail
  · exact gives_directiveDefinition
  · apply (gives_typeDecl keyword place).bind
    intro _ known
    exact gives_pure known

end Reader

/-- The definitions of a document are taken from its tokens. -/
theorem exists_tokens_of_definitions {text : String} {found : List Definition}
    (read : definitions text = .ok found) : ∃ taken, tokens text = .ok taken ∧
      ∀ definition ∈ found, definition.TakenFrom taken Item.nestingLimit := by
  rcases bind_eq_ok_iff.mp read with ⟨taken, tokens_read, rest⟩
  rcases bind_eq_ok_iff.mp rest with ⟨items, gathered, definitions_read⟩
  exact ⟨taken, tokens_read, Reader.readSome_gives Reader.gives_definition
    (allMadeOf_of_ofTokens gathered) definitions_read⟩

end SchemaUnfolding.Sdl
