import Mathlib.Order.Bounds.Basic
import SchemaUnfolding.Proofs.Arguments.Binding

/-!
# Names of variables

A variable is named like its parameter when that name is free. Otherwise the least number comes
after the name that is greater than each number which parameters of the name were given, and that
makes a free name. A table counts the numbers that it gives; that its counters agree with its
variables is the invariant, so the rule can be told from the variables alone.
-/

namespace SchemaUnfolding.Variables

/-! ## Searching for a number -/

/-- The search for a free number after a name, with no bound on its steps, ends: it goes from one
number to the next until it meets one that makes a free name. -/
inductive SearchEnds (taken : List String) (name : String) : Nat → Nat → Prop
  | free {number : Nat} : numbered name number ∉ taken → SearchEnds taken name number number
  | next {number found : Nat} : numbered name number ∈ taken →
      SearchEnds taken name (number + 1) found → SearchEnds taken name number found

/-- Where the bounded search finds a free number, the search without a bound ends. -/
theorem searchEnds_of_not_mem {bound : Table Parameter} {name : String} {steps start : Nat}
    (free : numbered name (freeNumber bound name steps start) ∉ bound.names) :
    SearchEnds bound.names name start (freeNumber bound name steps start) := by
  induction steps generalizing start with
  | zero => exact .free free
  | succ steps ih =>
    rw [freeNumber] at free ⊢
    split at free
    · rename_i occupied
      rw [if_pos occupied]
      exact .next (Table.contains_iff.mp occupied) (ih free)
    · rename_i vacant
      rw [if_neg vacant]
      exact .free free

theorem searchEnds_freeNumber (bound : Table Parameter) (name : String) (start : Nat) :
    SearchEnds bound.names name start (freeNumber bound name bound.size start) :=
  searchEnds_of_not_mem (freeNumber_not_mem bound name start)

/-- A search ends at the least free number from its start on. -/
theorem SearchEnds.isLeast {taken : List String} {name : String} {start found : Nat}
    (ends : SearchEnds taken name start found) :
    IsLeast {number | start ≤ number ∧ numbered name number ∉ taken} found := by
  induction ends with
  | free vacant => exact ⟨⟨Nat.le_refl _, vacant⟩, fun number allowed => allowed.1⟩
  | next occupied _ ih =>
    obtain ⟨⟨later, vacant⟩, least⟩ := ih
    refine ⟨⟨Nat.le_of_succ_le later, vacant⟩, ?_⟩
    rintro number ⟨from_start, free⟩
    apply least
    refine ⟨Nat.lt_of_le_of_ne from_start ?_, free⟩
    rintro rfl
    exact free occupied

/-! ## The rule -/

theorem numbered_ne (name : String) (number : Nat) : numbered name number ≠ name := by
  intro same
  simp [numbered, ← String.toList_inj] at same

/-- Among variables, a parameter of a name was given a number. -/
def IsGiven (entries : List (String × Parameter)) (name : String) (number : Nat) : Prop :=
  ∃ parameter, (numbered name number, parameter) ∈ entries ∧ parameter.name = name

/-- The numbers that the next parameter of a name may be given: they count from one, come after
those given to the name before, and make a free name. -/
def allowedNumbers (entries : List (String × Parameter)) (name : String) : Set Nat :=
  {number | 0 < number ∧ (∀ given, IsGiven entries name given → given < number) ∧
    numbered name number ∉ entries.map Prod.fst}

/-- The variable of the next parameter of a name: the name itself if it is free, or else the name
with the least number that is allowed. -/
def IsNextVariable (entries : List (String × Parameter)) (name chosen : String) : Prop :=
  if name ∈ entries.map Prod.fst then
    ∃ number, IsLeast (allowedNumbers entries name) number ∧ chosen = numbered name number
  else chosen = name

/-- Each of some variables is the next one after those before it. -/
inductive NamedInTurn : List (String × Parameter) → Prop
  | nil : NamedInTurn []
  | concat {entries : List (String × Parameter)} {chosen : String} {parameter : Parameter} :
      NamedInTurn entries → IsNextVariable entries parameter.name chosen →
      NamedInTurn (entries ++ [(chosen, parameter)])

theorem isGiven_concat_iff {entries : List (String × Parameter)} {chosen : String}
    {parameter : Parameter} {name : String} {number : Nat} :
    IsGiven (entries ++ [(chosen, parameter)]) name number ↔
      IsGiven entries name number ∨ chosen = numbered name number ∧ parameter.name = name := by
  constructor
  · rintro ⟨other, member, named⟩
    rcases List.mem_append.mp member with old | new
    · exact .inl ⟨other, old, named⟩
    · cases List.mem_singleton.mp new
      exact .inr ⟨rfl, named⟩
  · rintro (⟨other, old, named⟩ | ⟨rfl, named⟩)
    · exact ⟨other, List.mem_append_left _ old, named⟩
    · exact ⟨parameter, List.mem_append_right _ (List.mem_singleton_self _), named⟩

/-! ## Counters -/

/-- The last number that was put after a name, or zero. -/
def last (scope : Variables) (name : String) : Nat := (scope.numbers.get? name).getD 0

/-- The counters of a table agree with its variables: only names that are taken are counted, and the
counter of a name stands at the greatest number given to it, or at zero. -/
structure Counted (scope : Variables) : Prop where
  taken : ∀ name ∈ scope.numbers.names, name ∈ scope.bound.names
  upper : ∀ name number, IsGiven scope.bound.entries name number → number ≤ scope.last name
  reached : ∀ name, scope.last name = 0 ∨ IsGiven scope.bound.entries name (scope.last name)

theorem counted_empty : empty.Counted where
  taken := by
    intro name member
    cases member
  upper := by
    rintro name number ⟨parameter, member, _⟩
    cases member
  reached _ := .inl rfl

/-- With such counters the allowed numbers are the free ones after the counter. -/
theorem Counted.allowedNumbers_eq {scope : Variables} (counted : scope.Counted) (name : String) :
    allowedNumbers scope.bound.entries name =
      {number | scope.last name + 1 ≤ number ∧ numbered name number ∉ scope.bound.names} := by
  ext number
  constructor
  · rintro ⟨positive, later, free⟩
    refine ⟨?_, free⟩
    rcases counted.reached name with none | given
    · rw [none]
      exact positive
    · exact later _ given
  · rintro ⟨later, free⟩
    refine ⟨Nat.zero_lt_of_lt later, ?_, free⟩
    intro given known
    exact Nat.lt_of_le_of_lt (counted.upper name given known) later

/-- A name that is taken is given the next number, which is counted. -/
theorem Counted.allocate_of_mem {scope : Variables} (counted : scope.Counted) {name : String}
    (occupied : name ∈ scope.bound.names) :
    ∃ number, IsLeast (allowedNumbers scope.bound.entries name) number ∧
      scope.allocate name =
        (numbered name number, { scope with numbers := scope.numbers.insert name number }) := by
  refine ⟨freeNumber scope.bound name scope.bound.size (scope.last name + 1), ?_, ?_⟩
  · rw [counted.allowedNumbers_eq]
    exact (searchEnds_freeNumber scope.bound name _).isLeast
  · rw [allocate, Table.contains_iff.mpr occupied, Bool.or_true, if_pos rfl]
    rfl

/-- A free name is its own variable, and nothing is counted. -/
theorem Counted.allocate_of_not_mem {scope : Variables} (counted : scope.Counted) {name : String}
    (free : name ∉ scope.bound.names) : scope.allocate name = (name, scope) := by
  have uncounted : name ∉ scope.numbers.names := fun known => free (counted.taken name known)
  have absent : ¬ (scope.numbers.contains name || scope.bound.contains name) = true := by
    rw [Bool.or_eq_true, Table.contains_iff, Table.contains_iff]
    exact not_or.mpr ⟨uncounted, free⟩
  rw [allocate, if_neg absent]

theorem Counted.isNextVariable {scope : Variables} (counted : scope.Counted) (name : String) :
    IsNextVariable scope.bound.entries name (scope.allocate name).1 := by
  rw [IsNextVariable]
  split
  · rename_i occupied
    obtain ⟨number, least, allocated⟩ := counted.allocate_of_mem occupied
    exact ⟨number, least, by rw [allocated]⟩
  · rename_i free
    rw [counted.allocate_of_not_mem free]

/-! ## Binding -/

theorem entries_bind (scope : Variables) (parameter : Parameter) :
    (scope.bind parameter).2.bound.entries =
      scope.bound.entries ++ [((scope.allocate parameter.name).1, parameter)] :=
  (scope.grows_bind parameter).entries

theorem numbers_bind (scope : Variables) (parameter : Parameter) :
    (scope.bind parameter).2.numbers = (scope.allocate parameter.name).2.numbers :=
  rfl

theorem names_bind (scope : Variables) (parameter : Parameter) :
    (scope.bind parameter).2.bound.names =
      scope.bound.names ++ [(scope.allocate parameter.name).1] := by
  simp [Table.names, entries_bind]

/-- A number that is given is counted, and the counters of other names stay. -/
theorem Counted.bind_of_mem {scope : Variables} (counted : scope.Counted) {parameter : Parameter}
    (occupied : parameter.name ∈ scope.bound.names) : (scope.bind parameter).2.Counted := by
  obtain ⟨number, ⟨⟨_, later, _⟩, _⟩, allocated⟩ := counted.allocate_of_mem occupied
  have entries := scope.entries_bind parameter
  have numbers := scope.numbers_bind parameter
  rw [allocated] at entries numbers
  have last : ∀ name, (scope.bind parameter).2.last name =
      if name = parameter.name then number else scope.last name := by
    intro name
    rw [Variables.last, numbers, Table.get?_insert]
    split <;> rfl
  constructor
  · intro name member
    rw [numbers, Table.mem_names_iff] at member
    rw [names_bind]
    apply List.mem_append_left
    obtain ⟨held, member⟩ := member
    rcases Table.mem_entries_insert_iff.mp member with ⟨rfl, _⟩ | ⟨_, known⟩
    · exact occupied
    · exact counted.taken name (Table.mem_names_iff.mpr ⟨held, known⟩)
  · intro name given known
    rw [entries, isGiven_concat_iff] at known
    rw [last]
    rcases known with old | ⟨same, rfl⟩
    · split
      · rename_i equal
        rw [equal] at old
        exact Nat.le_of_lt (later given old)
      · exact counted.upper name given old
    · rw [if_pos rfl, numbered_injective same]
  · intro name
    rw [last, entries, isGiven_concat_iff]
    split
    · rename_i equal
      exact .inr (.inr ⟨by rw [equal], equal.symm⟩)
    · exact (counted.reached name).imp_right .inl

/-- A variable that is named like its parameter is not counted. -/
theorem Counted.bind_of_not_mem {scope : Variables} (counted : scope.Counted)
    {parameter : Parameter} (free : parameter.name ∉ scope.bound.names) :
    (scope.bind parameter).2.Counted := by
  have entries := scope.entries_bind parameter
  have numbers := scope.numbers_bind parameter
  rw [counted.allocate_of_not_mem free] at entries numbers
  have last : ∀ name, (scope.bind parameter).2.last name = scope.last name := by
    intro name
    rw [Variables.last, numbers, Variables.last]
  constructor
  · intro name member
    rw [numbers] at member
    rw [names_bind]
    exact List.mem_append_left _ (counted.taken name member)
  · intro name given known
    rw [entries, isGiven_concat_iff] at known
    rw [last]
    rcases known with old | ⟨same, rfl⟩
    · exact counted.upper name given old
    · exact absurd same.symm (numbered_ne _ given)
  · intro name
    rw [last, entries, isGiven_concat_iff]
    exact (counted.reached name).imp_right .inl

/-- Binding a parameter keeps the counters in agreement with the variables. -/
theorem Counted.bind {scope : Variables} (counted : scope.Counted) (parameter : Parameter) :
    (scope.bind parameter).2.Counted := by
  by_cases occupied : parameter.name ∈ scope.bound.names
  · exact counted.bind_of_mem occupied
  · exact counted.bind_of_not_mem occupied

/-- Binding parameters keeps the counters in agreement and names each variable in turn. -/
theorem Counted.bindAll {scope : Variables} (counted : scope.Counted)
    (named : NamedInTurn scope.bound.entries) (parameters : List Parameter) :
    (scope.bindAll parameters).2.Counted ∧
      NamedInTurn (scope.bindAll parameters).2.bound.entries := by
  induction parameters generalizing scope with
  | nil => exact ⟨counted, named⟩
  | cons parameter rest ih =>
    have next := named.concat (counted.isNextVariable parameter.name)
    rw [← entries_bind] at next
    exact ih (counted.bind parameter) next

/-! ## Fields in turn -/

/-- Bind the parameters of fields, one field after the other. The result has the arguments of each
field. -/
def bindFields (scope : Variables) : List Field → List (List (String × String)) × Variables
  | [] => ([], scope)
  | field :: rest =>
    let (arguments, scope) := scope.bindAll field.parameters.values
    let (others, scope) := scope.bindFields rest
    (arguments :: others, scope)

theorem Counted.bindFields {scope : Variables} (counted : scope.Counted)
    (named : NamedInTurn scope.bound.entries) (fields : List Field) :
    NamedInTurn (scope.bindFields fields).2.bound.entries := by
  induction fields generalizing scope with
  | nil => exact named
  | cons field rest ih =>
    obtain ⟨counted, named⟩ := counted.bindAll named field.parameters.values
    exact ih counted named

/-- Each field adds one variable for each of its parameters in order, and is passed them all. -/
theorem exists_calls_of_bindFields (scope : Variables) (fields : List Field) :
    ∃ calls : List (List (String × Parameter)),
      (scope.bindFields fields).1 = calls.map (·.map argument) ∧
      calls.map (·.map Prod.snd) = fields.map (·.parameters.values) ∧
      ∀ count, (scope.bindFields (fields.take count)).2.bound.entries =
        scope.bound.entries ++ (calls.take count).flatten := by
  induction fields generalizing scope with
  | nil => exact ⟨[], rfl, rfl, fun count => by simp [bindFields]⟩
  | cons field rest ih =>
    obtain ⟨added, grown, parameters, passed⟩ :=
      @grows_of_bindAll scope _ field.parameters.values _ rfl
    obtain ⟨calls, answered, owned, entered⟩ := ih (scope.bindAll field.parameters.values).2
    refine ⟨added :: calls, ?_, ?_, ?_⟩
    · rw [List.map_cons, ← passed, ← answered]
      rfl
    · rw [List.map_cons, List.map_cons, parameters, owned]
    · intro count
      cases count with
      | zero => simp [bindFields]
      | succ count =>
        rw [List.take_succ_cons, List.take_succ_cons, List.flatten_cons, ← List.append_assoc,
          ← grown.entries]
        exact entered count

/-- However fields are bound one after the other, from no variables on: every search for a number
ends, each field adds one variable for each of its parameters in order behind those that are there,
no two variables have the same name, and each has the name that is next in its turn. -/
theorem bindFields_exact (fields : List Field) :
    (∀ (bound : Table Parameter) (name : String) (start : Nat),
      SearchEnds bound.names name start (freeNumber bound name bound.size start)) ∧
    ∃ calls : List (List (String × Parameter)),
      (empty.bindFields fields).1 = calls.map (·.map argument) ∧
      calls.map (·.map Prod.snd) = fields.map (·.parameters.values) ∧
      (∀ count, (empty.bindFields (fields.take count)).2.bound.entries =
        (calls.take count).flatten) ∧
      (calls.flatten.map Prod.fst).Nodup ∧
      NamedInTurn calls.flatten := by
  obtain ⟨calls, answered, owned, entered⟩ := empty.exists_calls_of_bindFields fields
  have whole : (empty.bindFields fields).2.bound.entries = calls.flatten := by
    have long : calls.length = fields.length := by simpa using congrArg List.length owned
    have all := entered fields.length
    rw [List.take_length, ← long, List.take_length] at all
    exact all
  refine ⟨searchEnds_freeNumber, calls, answered, owned, entered, ?_, ?_⟩
  · rw [← whole]
    exact (empty.bindFields fields).2.bound.nodup
  · rw [← whole]
    exact counted_empty.bindFields .nil fields

/-- Names that end in a number and names that were given one keep apart. -/
example :
    let parameter (name : String) : Parameter :=
      ⟨.builtIn, none, none, name, .named true ⟨"ID", .builtIn⟩⟩
    (empty.bindAll (["id", "id1", "id", "id1", "id"].map parameter)).1 =
      [("id", "id"), ("id1", "id1"), ("id", "id2"), ("id1", "id11"), ("id", "id3")] := by
  decide

end SchemaUnfolding.Variables
