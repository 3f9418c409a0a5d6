import SchemaUnfolding.Proofs.Json.Tokens

/-!
# JSON text is read back

The compact text of a value is read as that value, unless the value keeps the spelling of something:
of a number that is no natural number, or of a string that stands for nothing.
-/

namespace SchemaUnfolding.Json

/-! ## Plain values -/

mutual

/-- A value that keeps no spelling. -/
def IsPlain : Json → Prop
  | numeral _ | unreadable _ => False
  | array items => AllPlain items
  | object members => MembersPlain members
  | _ => True

/-- Values that keep no spelling. -/
def AllPlain : List Json → Prop
  | [] => True
  | item :: items => item.IsPlain ∧ AllPlain items

/-- Members whose values keep no spelling. -/
def MembersPlain : List (String × Json) → Prop
  | [] => True
  | (_, value) :: members => value.IsPlain ∧ MembersPlain members

end

theorem allPlain_iff {items : List Json} : AllPlain items ↔ ∀ item ∈ items, item.IsPlain := by
  induction items with
  | nil => simp [AllPlain]
  | cons item rest ih => simp [AllPlain, ih]

theorem membersPlain_iff {members : List (String × Json)} :
    MembersPlain members ↔ ∀ member ∈ members, member.2.IsPlain := by
  induction members with
  | nil => simp [MembersPlain]
  | cons member rest ih =>
    obtain ⟨name, value⟩ := member
    simp [MembersPlain, ih]

@[simp]
theorem isPlain_null : null.IsPlain :=
  trivial

@[simp]
theorem isPlain_bool (value : Bool) : (bool value).IsPlain :=
  trivial

@[simp]
theorem isPlain_natural (value : Nat) : (natural value).IsPlain :=
  trivial

@[simp]
theorem isPlain_string (text : String) : (string text).IsPlain :=
  trivial

@[simp]
theorem isPlain_array {items : List Json} :
    (array items).IsPlain ↔ ∀ item ∈ items, item.IsPlain :=
  allPlain_iff

@[simp]
theorem isPlain_object {members : List (String × Json)} :
    (object members).IsPlain ↔ ∀ member ∈ members, member.2.IsPlain :=
  membersPlain_iff

/-! ## The texts of values, items and members -/

theorem chars_natural (value : Nat) : (natural value).chars = Nat.toDigits 10 value :=
  rfl

theorem chars_string (text : String) : (string text).chars = stringChars text :=
  rfl

theorem chars_array (items : List Json) :
    (array items).chars = '[' :: itemChars items ++ [']'] :=
  rfl

theorem chars_object (members : List (String × Json)) :
    (object members).chars = '\x7b' :: memberChars members ++ ['\x7d'] :=
  rfl

theorem itemChars_singleton (item : Json) : itemChars [item] = item.chars :=
  rfl

theorem itemChars_cons_cons (item next : Json) (rest : List Json) :
    itemChars (item :: next :: rest) = item.chars ++ ',' :: itemChars (next :: rest) :=
  rfl

theorem memberChars_singleton (name : String) (value : Json) :
    memberChars [(name, value)] = stringChars name ++ ':' :: value.chars :=
  rfl

theorem memberChars_cons_cons (name : String) (value : Json) (next : String × Json)
    (rest : List (String × Json)) :
    memberChars ((name, value) :: next :: rest) =
      stringChars name ++ ':' :: value.chars ++ ',' :: memberChars (next :: rest) :=
  rfl

/-- The text of members starts with that of the first name. -/
theorem exists_memberChars (name : String) (value : Json) (members : List (String × Json)) :
    ∃ cs, memberChars ((name, value) :: members) = stringChars name ++ ':' :: (value.chars ++ cs) ∧
      cs = match members with
        | [] => []
        | next :: rest => ',' :: memberChars (next :: rest) := by
  cases members with
  | nil => exact ⟨[], by rw [memberChars_singleton, List.append_nil], rfl⟩
  | cons next rest =>
    exact ⟨_, by rw [memberChars_cons_cons, List.append_assoc, List.cons_append], rfl⟩

/-! ## First characters -/

theorem skipSpaces_cons {c : Char} (shown : isSpace c = false) (rest : List Char) :
    skipSpaces (c :: rest) = c :: rest := by
  rw [skipSpaces, List.dropWhile_cons_of_neg (by simp [shown])]

theorem isSpace_eq_false_of_isDigit {c : Char} (digit : c.isDigit = true) : isSpace c = false := by
  cases space : isSpace c with
  | false => rfl
  | true =>
    simp only [isSpace, Bool.or_eq_true, beq_iff_eq] at space
    rcases space with ((rfl | rfl) | rfl) | rfl <;> cases digit

/-- The text of a plain value starts with a character that is neither a blank nor a closing
bracket. -/
theorem IsPlain.exists_chars {value : Json} (plain : value.IsPlain) :
    ∃ c cs, value.chars = c :: cs ∧ isSpace c = false ∧ c ≠ ']' := by
  cases value with
  | null => exact ⟨_, _, rfl, by decide, by decide⟩
  | bool value => cases value <;> exact ⟨_, _, rfl, by decide, by decide⟩
  | natural value =>
    obtain ⟨first, more, spelled⟩ := List.exists_cons_of_ne_nil (@Nat.toDigits_ne_nil value 10)
    have written : first ∈ Nat.toDigits 10 value := by simp [spelled]
    have digit : first.isDigit = true :=
      Nat.isDigit_of_mem_toDigits (by decide) (by decide) written
    refine ⟨first, more, spelled, isSpace_eq_false_of_isDigit digit, ?_⟩
    rintro rfl
    cases digit
  | string text => exact ⟨_, _, rfl, by decide, by decide⟩
  | array items => exact ⟨_, _, rfl, by decide, by decide⟩
  | object members => exact ⟨_, _, rfl, by decide, by decide⟩
  | numeral spelling => exact plain.elim
  | unreadable spelling => exact plain.elim

/-- So do the texts of several, which begin with that of the first. -/
theorem exists_itemChars {item : Json} (plain : item.IsPlain) (items : List Json) :
    ∃ c cs, itemChars (item :: items) = c :: cs ∧ isSpace c = false ∧ c ≠ ']' := by
  obtain ⟨c, cs, spelled, shown, inside⟩ := plain.exists_chars
  cases items with
  | nil => exact ⟨c, cs, spelled, shown, inside⟩
  | cons next rest =>
    exact ⟨c, _, by rw [itemChars_cons_cons, spelled, List.cons_append], shown, inside⟩

/-! ## Values by their first characters -/

section Reading

variable {fuel : Nat} {cs : List Char}

theorem readValue_of_isDigit {c : Char} (digit : c.isDigit = true) :
    readValue (fuel + 1) (c :: cs) = readNumber (c :: cs) := by
  rw [readValue, skipSpaces_cons (isSpace_eq_false_of_isDigit digit)]
  split <;> first | rfl | simp_all

theorem readValue_quote :
    readValue (fuel + 1) ('"' :: cs) = (readString (some []) cs).map (ofString ('"' :: cs)) :=
  rfl

theorem readValue_array {c : Char} (shown : isSpace c = false) (inside : c ≠ ']') :
    readValue (fuel + 1) ('[' :: c :: cs) =
      (readItems fuel (c :: cs)).map fun (items, rest) => (array items, rest) := by
  rw [readValue, skipSpaces_cons (by decide)]
  simp only [skipSpaces_cons shown]
  split
  · simp_all
  · rfl

theorem readValue_object :
    readValue (fuel + 1) ('\x7b' :: '"' :: cs) =
      (readMembers fuel ('"' :: cs)).map (ofMembers ('\x7b' :: '"' :: cs)) :=
  rfl

/-- A member is read as its name, a colon and its value, and what follows says how to go on. -/
theorem readMembers_name (name : String) :
    readMembers (fuel + 1) (stringChars name ++ ':' :: cs) =
      (do
        let (value, rest) ← readValue fuel cs
        match skipSpaces rest with
        | ',' :: rest =>
          let (members, rest) ← readMembers fuel rest
          return ((some name, value) :: members, rest)
        | '\x7d' :: rest => return ([(some name, value)], rest)
        | _ => none) := by
  obtain ⟨body, opened, read⟩ := readString_stringChars name (':' :: cs)
  rw [opened, readMembers, skipSpaces_cons (by decide)]
  simp only [read]
  rfl

theorem mapM_named (members : List (String × Json)) :
    (members.map fun member : String × Json => (some member.1, member.2)).mapM
      (fun (name, value) => name.map fun name => (name, value)) = some members := by
  induction members with
  | nil => rfl
  | cons member rest ih =>
    rw [List.map_cons, List.mapM_cons, ih]
    rfl

/-- Members whose names are texts make an object. -/
theorem ofMembers_map_some (cs : List Char) (members : List (String × Json)) (rest : List Char) :
    ofMembers cs (members.map fun member => (some member.1, member.2), rest) =
      (object members, rest) := by
  rw [ofMembers, mapM_named]

end Reading

/-! ## Reading back -/

section Values

variable {fuel : Nat} {rest : List Char}

theorem readValue_natural (value : Nat) (ends : EndsValue rest) :
    readValue (fuel + 1) ((natural value).chars ++ rest) = some (natural value, rest) := by
  obtain ⟨first, more, spelled⟩ := List.exists_cons_of_ne_nil (@Nat.toDigits_ne_nil value 10)
  have written : first ∈ Nat.toDigits 10 value := by simp [spelled]
  have digit : first.isDigit = true :=
    Nat.isDigit_of_mem_toDigits (by decide) (by decide) written
  have read := readNumber_toDigits value ends
  rw [chars_natural]
  rw [spelled, List.cons_append] at read ⊢
  rw [readValue_of_isDigit digit, read]

theorem readValue_string (text : String) :
    readValue (fuel + 1) ((string text).chars ++ rest) = some (string text, rest) := by
  obtain ⟨body, opened, read⟩ := readString_stringChars text rest
  rw [chars_string, opened, readValue_quote, read]
  rfl

/-- An array is read when its items are. -/
theorem readValue_array_cons {item : Json} {items : List Json} (plain : item.IsPlain)
    (read : readItems fuel (itemChars (item :: items) ++ ']' :: rest) =
      some (item :: items, rest)) :
    readValue (fuel + 1) ((array (item :: items)).chars ++ rest) =
      some (array (item :: items), rest) := by
  obtain ⟨first, more, spelled, shown, inside⟩ := exists_itemChars plain items
  have written : (array (item :: items)).chars ++ rest =
      '[' :: (itemChars (item :: items) ++ ']' :: rest) := by
    simp [chars_array]
  rw [written]
  rw [spelled, List.cons_append] at read ⊢
  rw [readValue_array shown inside, read]
  rfl

/-- An object is read when its members are. -/
theorem readValue_object_cons {name : String} {value : Json} {members : List (String × Json)}
    (read : readMembers fuel (memberChars ((name, value) :: members) ++ '\x7d' :: rest) =
      some (((name, value) :: members).map fun member => (some member.1, member.2), rest)) :
    readValue (fuel + 1) ((object ((name, value) :: members)).chars ++ rest) =
      some (object ((name, value) :: members), rest) := by
  obtain ⟨after, spelled, -⟩ := exists_memberChars name value members
  have written : (object ((name, value) :: members)).chars ++ rest =
      '\x7b' :: (memberChars ((name, value) :: members) ++ '\x7d' :: rest) := by
    simp [chars_object]
  rw [written]
  rw [spelled, stringChars, List.cons_append, List.cons_append, List.cons_append] at read ⊢
  rw [readValue_object, read, Option.map_some, ofMembers_map_some]

end Values

mutual

/-- The text of a plain value is read as the value, with fuel for two units a character. -/
theorem readValue_chars {value : Json} (plain : value.IsPlain) {fuel : Nat}
    (enough : 2 * value.chars.length ≤ fuel) {rest : List Char} (ends : EndsValue rest) :
    readValue fuel (value.chars ++ rest) = some (value, rest) := by
  match fuel, value with
  | 0, value =>
    obtain ⟨c, cs, spelled, -, -⟩ := plain.exists_chars
    simp [spelled] at enough
  | less + 1, null => rfl
  | less + 1, bool true => rfl
  | less + 1, bool false => rfl
  | less + 1, natural value => exact readValue_natural value ends
  | less + 1, string text => exact readValue_string text
  | less + 1, array [] => rfl
  | less + 1, array (item :: items) =>
    have inner : 2 * (itemChars (item :: items)).length + 1 ≤ less := by
      simp only [chars_array, List.length_append, List.length_cons] at enough
      omega
    exact readValue_array_cons plain.1 (readItems_itemChars plain.1 plain.2 inner rest)
  | less + 1, object [] => rfl
  | less + 1, object ((name, value) :: members) =>
    have inner : 2 * (memberChars ((name, value) :: members)).length + 1 ≤ less := by
      simp only [chars_object, List.length_append, List.length_cons] at enough
      omega
    exact readValue_object_cons (readMembers_memberChars name plain.1 plain.2 inner rest)
  | less + 1, numeral _ => exact plain.elim
  | less + 1, unreadable _ => exact plain.elim

/-- The text of items is read as the items. -/
theorem readItems_itemChars {item : Json} {items : List Json} (plain : item.IsPlain)
    (others : AllPlain items) {fuel : Nat}
    (enough : 2 * (itemChars (item :: items)).length + 1 ≤ fuel) (rest : List Char) :
    readItems fuel (itemChars (item :: items) ++ ']' :: rest) = some (item :: items, rest) := by
  match fuel, items with
  | 0, _ => omega
  | less + 1, [] =>
    have first : 2 * item.chars.length ≤ less := by simpa [itemChars_singleton] using enough
    rw [itemChars_singleton, readItems, readValue_chars plain first (endsValue_bracket rest)]
    rfl
  | less + 1, next :: items =>
    rw [itemChars_cons_cons, List.length_append, List.length_cons] at enough
    have first : 2 * item.chars.length ≤ less := by omega
    have later : 2 * (itemChars (next :: items)).length + 1 ≤ less := by omega
    rw [itemChars_cons_cons, List.append_assoc, List.cons_append, readItems,
      readValue_chars plain first (endsValue_comma _)]
    change Option.bind (readItems less (itemChars (next :: items) ++ ']' :: rest)) _ = _
    rw [readItems_itemChars others.1 others.2 later rest]
    rfl

/-- The text of members is read as the members. -/
theorem readMembers_memberChars (name : String) {value : Json} {members : List (String × Json)}
    (plain : value.IsPlain) (others : MembersPlain members) {fuel : Nat}
    (enough : 2 * (memberChars ((name, value) :: members)).length + 1 ≤ fuel)
    (rest : List Char) :
    readMembers fuel (memberChars ((name, value) :: members) ++ '\x7d' :: rest) =
      some (((name, value) :: members).map fun member => (some member.1, member.2), rest) := by
  obtain ⟨after, spelled, known⟩ := exists_memberChars name value members
  rw [spelled, List.length_append, List.length_cons, List.length_append] at enough
  match fuel, members with
  | 0, _ => omega
  | less + 1, [] =>
    have first : 2 * value.chars.length ≤ less := by omega
    rw [spelled, List.append_assoc, List.cons_append, readMembers_name, List.append_assoc]
    rw [known, List.nil_append, readValue_chars plain first (endsValue_brace rest)]
    rfl
  | less + 1, (nextName, next) :: members =>
    rw [known, List.length_cons] at enough
    have first : 2 * value.chars.length ≤ less := by omega
    rw [spelled, List.append_assoc, List.cons_append, readMembers_name, List.append_assoc]
    have later : 2 * (memberChars ((nextName, next) :: members)).length + 1 ≤ less := by omega
    rw [known, List.cons_append, readValue_chars plain first (endsValue_comma _)]
    change Option.bind (readMembers less (memberChars ((nextName, next) :: members) ++ _)) _ = _
    rw [readMembers_memberChars nextName others.1 others.2 later rest]
    rfl

end

/-- The compact text of a plain value is read as the value. -/
theorem ofText?_text {value : Json} (plain : value.IsPlain) : ofText? value.text = some value := by
  have read := readValue_chars plain (Nat.le_add_right _ 2) endsValue_nil
  rw [List.append_nil] at read
  rw [ofText?, text, String.toList_ofList, read]
  rfl

end SchemaUnfolding.Json
