import SchemaUnfolding.Proofs.Assembly.Parts

/-!
# Gathering parts

A type that has gathered parts that fit together can be extended by one more part exactly when that
part fits too, and then it has gathered that part as well. So a type does not remember in how many
steps it was made.
-/

namespace SchemaUnfolding

/-! ## Entering one name -/

theorem Parameter.add_eq_ok_iff {fieldAt : Location} {type field : String}
    {parameters result : Table Parameter} {decl : Sdl.InputDecl} :
    Parameter.add fieldAt type field parameters decl = .ok result ↔
      isReserved decl.name = false ∧ decl.name ∉ parameters.names ∧
        result = parameters.insert decl.name (.ofDecl fieldAt decl) := by
  unfold Parameter.add
  dsimp only
  split
  · rename_i reserved
    simp [reserved]
  · rename_i unreserved
    split
    · rename_i known found
      simp [Table.mem_names_of_get? found]
    · rename_i missing
      simp [Table.get?_eq_none_iff.mp missing, unreserved, eq_comm]

theorem Parameter.foldlM_add_eq_ok_iff {fieldAt : Location} {type field : String}
    {decls : List Sdl.InputDecl} {result : Table Parameter} :
    decls.foldlM (Parameter.add fieldAt type field) .empty = .ok result ↔
      (∀ decl ∈ decls, isReserved decl.name = false) ∧
        (decls.map Sdl.InputDecl.name).Nodup ∧
        result = .ofList (decls.map fun decl => (decl.name, .ofDecl fieldAt decl)) :=
  Table.foldlM_eq_ok_iff id (fun decl : Sdl.InputDecl => isReserved decl.name = false)
    (fun decl => (decl.name, Parameter.ofDecl fieldAt decl)) Parameter.add_eq_ok_iff

theorem Field.add_eq_ok_iff {typeAt : Location} {type : String} {fields result : Table Field}
    {decl : Sdl.FieldDecl} :
    Field.add typeAt type fields decl = .ok result ↔
      decl.Proper ∧ decl.name ∉ fields.names ∧
        result = fields.insert decl.name (.ofDecl typeAt type decl) := by
  rw [Field.add]
  dsimp only
  split
  · rename_i reserved
    constructor
    · rintro ⟨⟩
    · rintro ⟨proper, _⟩
      simp [proper.name] at reserved
  · rename_i unreserved
    have free : isReserved decl.name = false := by simpa using unreserved
    split
    · rename_i known found
      constructor
      · rintro ⟨⟩
      · rintro ⟨_, fresh, _⟩
        exact absurd (Table.mem_names_of_get? found) fresh
    · rename_i missing
      have fresh : decl.name ∉ fields.names := by
        rw [← Table.get?_eq_none_iff]
        rcases found : fields.get? decl.name with _ | known
        · rfl
        · exact absurd found (missing known)
      change (_ >>= fun _ => _) = _ ↔ _
      rw [bind_eq_ok_iff]
      constructor
      · rintro ⟨parameters, declared, ⟨⟩⟩
        rcases Parameter.foldlM_add_eq_ok_iff.mp declared with ⟨unreserved, distinct, rfl⟩
        exact ⟨⟨free, unreserved, distinct⟩, fresh, rfl⟩
      · rintro ⟨proper, _, rfl⟩
        exact ⟨_, Parameter.foldlM_add_eq_ok_iff.mpr ⟨proper.parameters, proper.distinct, rfl⟩, rfl⟩

theorem Field.foldlM_add_eq_ok_iff {typeAt : Location} {type : String}
    {decls : List Sdl.FieldDecl} {fields result : Table Field} :
    decls.foldlM (Field.add typeAt type) fields = .ok result ↔
      (∀ decl ∈ decls, decl.Proper) ∧ (fields.names ++ decls.map Sdl.FieldDecl.name).Nodup ∧
        result = fields.insertAll (decls.map fun decl => (decl.name, .ofDecl typeAt type decl)) :=
  Table.foldlM_eq_ok_iff id Sdl.FieldDecl.Proper
    (fun decl => (decl.name, Field.ofDecl typeAt type decl)) Field.add_eq_ok_iff

theorem InputField.add_eq_ok_iff {typeAt : Location} {type : String}
    {fields result : Table InputField} {decl : Sdl.InputDecl} :
    InputField.add typeAt type fields decl = .ok result ↔
      isReserved decl.name = false ∧ decl.name ∉ fields.names ∧
        result = fields.insert decl.name (.ofDecl typeAt decl) := by
  unfold InputField.add
  dsimp only
  split
  · rename_i reserved
    simp [reserved]
  · rename_i unreserved
    split
    · rename_i known found
      simp [Table.mem_names_of_get? found]
    · rename_i missing
      simp [Table.get?_eq_none_iff.mp missing, unreserved, eq_comm, InputField.ofDecl]

theorem InputField.foldlM_add_eq_ok_iff {typeAt : Location} {type : String}
    {decls : List Sdl.InputDecl} {fields result : Table InputField} :
    decls.foldlM (InputField.add typeAt type) fields = .ok result ↔
      (∀ decl ∈ decls, isReserved decl.name = false) ∧
        (fields.names ++ decls.map Sdl.InputDecl.name).Nodup ∧
        result = fields.insertAll (decls.map fun decl => (decl.name, .ofDecl typeAt decl)) :=
  Table.foldlM_eq_ok_iff id (fun decl : Sdl.InputDecl => isReserved decl.name = false)
    (fun decl => (decl.name, InputField.ofDecl typeAt decl)) InputField.add_eq_ok_iff

theorem EnumType.addValue_eq_ok_iff {typeAt : Location} {type result : EnumType}
    {decl : Sdl.EnumValueDecl} :
    type.addValue typeAt decl = .ok result ↔
      decl.name ∉ type.values.names ∧
        result = { type with values := type.values.insert decl.name (.ofDecl typeAt decl) } := by
  unfold EnumType.addValue
  dsimp only
  split
  · rename_i known found
    simp [Table.mem_names_of_get? found]
  · rename_i missing
    simp [Table.get?_eq_none_iff.mp missing, eq_comm, EnumValue.ofDecl]

theorem EnumType.foldlM_addValue_eq_ok_iff {typeAt : Location} {decls : List Sdl.EnumValueDecl}
    {type result : EnumType} :
    decls.foldlM (EnumType.addValue typeAt) type = .ok result ↔
      (type.values.names ++ decls.map Sdl.EnumValueDecl.name).Nodup ∧
        result = { type with values :=
          type.values.insertAll (decls.map fun decl => (decl.name, .ofDecl typeAt decl)) } := by
  refine (Table.foldlM_eq_ok_iff (fun values => { type with values }) (fun _ => True)
    (fun decl => (decl.name, EnumValue.ofDecl typeAt decl)) ?_).trans ?_
  · intro values decl larger
    rw [true_and]
    exact EnumType.addValue_eq_ok_iff
  · simp

theorem NamedRef.addMember_eq_ok_iff {location : Location} {members result : Table NamedRef}
    {member : String} :
    NamedRef.addMember location members member = .ok result ↔
      member ∉ members.names ∧ result = members.insert member ⟨member, location⟩ := by
  unfold NamedRef.addMember
  split
  · rename_i known found
    simp [Table.mem_names_of_get? found]
  · rename_i missing
    simp [Table.get?_eq_none_iff.mp missing, eq_comm]

theorem NamedRef.foldlM_addMember_eq_ok_iff {location : Location} {names : List String}
    {members result : Table NamedRef} :
    names.foldlM (NamedRef.addMember location) members = .ok result ↔
      (members.names ++ names).Nodup ∧
        result = members.insertAll (names.map fun name => (name, ⟨name, location⟩)) := by
  refine (Table.foldlM_eq_ok_iff id (fun _ => True)
    (fun name => (name, (⟨name, location⟩ : NamedRef))) ?_).trans ?_
  · intro members name larger
    rw [true_and]
    exact NamedRef.addMember_eq_ok_iff
  · simp

theorem NamedRef.addInterface_eq_ok_iff {location : Location} {type interface : String}
    {interfaces result : List NamedRef} :
    NamedRef.addInterface location type interfaces interface = .ok result ↔
      interface ∉ interfaces.map NamedRef.name ∧ interface ≠ type ∧
        result = interfaces ++ [⟨interface, location⟩] := by
  unfold NamedRef.addInterface
  have repeated : interfaces.any (·.name == interface) = true ↔
      interface ∈ interfaces.map NamedRef.name := by simp
  split
  · rename_i known
    simp [repeated.mp known]
  · rename_i unknown
    have fresh : interface ∉ interfaces.map NamedRef.name := fun known =>
      unknown (repeated.mpr known)
    split
    · rename_i own
      simp [own]
    · rename_i other
      simp only [Except.ok.injEq, fresh, not_false_eq_true, ne_eq, other, true_and]
      exact eq_comm

/-- Interfaces are added when none of them is there already and none is the type itself. -/
theorem NamedRef.foldlM_addInterface_eq_ok_iff {location : Location} {type : String}
    {names : List String} {interfaces result : List NamedRef}
    (distinct : (interfaces.map NamedRef.name).Nodup) :
    names.foldlM (NamedRef.addInterface location type) interfaces = .ok result ↔
      (interfaces.map NamedRef.name ++ names).Nodup ∧ type ∉ names ∧
        result = interfaces ++ names.map fun name => ⟨name, location⟩ := by
  induction names generalizing interfaces with
  | nil => simp [distinct, pure, Except.pure, eq_comm]
  | cons name rest ih =>
    have larger (fresh : name ∉ interfaces.map NamedRef.name) :
        ((interfaces ++ [(⟨name, location⟩ : NamedRef)]).map NamedRef.name).Nodup := by
      simpa [List.nodup_append] using ⟨distinct, by simpa using fresh⟩
    rw [List.foldlM_cons, bind_eq_ok_iff]
    constructor
    · rintro ⟨middle, first, others⟩
      rcases addInterface_eq_ok_iff.mp first with ⟨fresh, other, rfl⟩
      rcases (ih (larger fresh)).mp others with ⟨nodup, absent, rfl⟩
      exact ⟨by simpa using nodup, by simp [Ne.symm other, absent], by simp⟩
    · rintro ⟨nodup, absent, rfl⟩
      rw [List.mem_cons, not_or] at absent
      have fresh : name ∉ interfaces.map NamedRef.name := fun known =>
        List.disjoint_of_nodup_append nodup known (List.mem_cons_self ..)
      refine ⟨_, addInterface_eq_ok_iff.mpr ⟨fresh, Ne.symm absent.1, rfl⟩, ?_⟩
      exact (ih (larger fresh)).mpr ⟨by simpa using nodup, absent.2, by simp⟩

/-! ## Entering what a part writes -/

/-- An object type or an interface can be extended when its interfaces and its fields can. -/
theorem FieldedType.extend_eq_ok_iff {location : Location} {type result : FieldedType}
    {interfaces : List String} {fields : List Sdl.FieldDecl}
    (distinct : (type.interfaces.map NamedRef.name).Nodup) :
    type.extend location interfaces fields = .ok result ↔
      (∀ decl ∈ fields, decl.Proper) ∧
        (type.fields.names ++ fields.map Sdl.FieldDecl.name).Nodup ∧
        (type.interfaces.map NamedRef.name ++ interfaces).Nodup ∧ type.name ∉ interfaces ∧
        result = { type with
          interfaces := type.interfaces ++ interfaces.map fun name => ⟨name, location⟩
          fields := type.fields.insertAll
            (fields.map fun decl => (decl.name, .ofDecl location type.name decl)) } := by
  change (_ >>= fun _ => _ >>= fun _ => _) = _ ↔ _
  rw [bind_eq_ok_iff]
  constructor
  · rintro ⟨implemented, added, rest⟩
    rcases bind_eq_ok_iff.mp rest with ⟨extended, entered, ⟨⟩⟩
    rcases (NamedRef.foldlM_addInterface_eq_ok_iff distinct).mp added with ⟨nodup, other, rfl⟩
    rcases Field.foldlM_add_eq_ok_iff.mp entered with ⟨proper, fresh, rfl⟩
    exact ⟨proper, fresh, nodup, other, rfl⟩
  · rintro ⟨proper, fresh, nodup, other, rfl⟩
    refine ⟨_, (NamedRef.foldlM_addInterface_eq_ok_iff distinct).mpr ⟨nodup, other, rfl⟩, ?_⟩
    exact bind_eq_ok_iff.mpr ⟨_, Field.foldlM_add_eq_ok_iff.mpr ⟨proper, fresh, rfl⟩, rfl⟩

/-! ## One more part -/

variable {definition part : Part} {parts : List Part}

/-- A part without interfaces fits when it is proper and brings only new names. -/
theorem Part.Compatible.concat_iff_of_interfaceNames (compatible : Compatible definition parts)
    (kind : part.2.body.kind = definition.2.body.kind)
    (unimplementing : part.interfaceNames = []) :
    Compatible definition (parts ++ [part]) ↔
      part.2.body.Proper ∧ (parts.flatMap memberNames ++ part.memberNames).Nodup := by
  simp [compatible.concat_iff, kind, unimplementing, compatible.interfaces]

/-- An object type or an interface gathers one more part of its kind when that part fits. -/
theorem FieldedType.extend_gather_iff {result : FieldedType}
    (compatible : Part.Compatible definition parts)
    (kind : part.2.body.kind = definition.2.body.kind)
    (fielded : definition.2.body.kind = .object ∨ definition.2.body.kind = .interface) :
    (gather definition parts).extend part.location part.2.body.interfaces part.2.body.fields =
        .ok result ↔
      Part.Compatible definition (parts ++ [part]) ∧
        result = gather definition (parts ++ [part]) := by
  have named : ∀ other ∈ parts, (other.fields definition.name).map Prod.fst = other.memberNames :=
    fun other member => Part.map_fst_fields (by rwa [compatible.kinds other member])
  have added : part.2.body.fields.map Sdl.FieldDecl.name = part.memberNames := by
    have fields : (part.fields definition.name).map Prod.fst = part.memberNames :=
      Part.map_fst_fields (by rwa [kind])
    rw [← fields, Part.fields, List.map_map]
    rfl
  have distinct : ((gather definition parts).interfaces.map NamedRef.name).Nodup := by
    rw [gather, Part.map_name_interfaces]
    exact compatible.interfaces
  have proper : part.2.body.Proper ↔ ∀ decl ∈ part.2.body.fields, decl.Proper :=
    Sdl.TypeBody.proper_iff_fields (by rwa [kind])
  have gathered : gather definition (parts ++ [part]) =
      { gather definition parts with
        interfaces := parts.flatMap Part.interfaces ++ part.interfaces
        fields := (Table.ofList (parts.flatMap (Part.fields definition.name))).insertAll
          (part.fields definition.name) } := by
    simp [gather, Table.ofList, Table.insertAll_append]
  rw [extend_eq_ok_iff distinct, compatible.concat_iff, gathered, proper, gather,
    compatible.names_column named, added, Part.map_name_interfaces]
  simp only [kind, true_and, and_assoc]
  rfl

theorem UnionType.members_gather_iff {result : Table NamedRef}
    (compatible : Part.Compatible definition parts)
    (kind : part.2.body.kind = definition.2.body.kind) (union : definition.2.body.kind = .union) :
    part.2.body.members.foldlM (NamedRef.addMember part.location)
        (.ofList (parts.flatMap Part.members)) = .ok result ↔
      Part.Compatible definition (parts ++ [part]) ∧
        result = .ofList ((parts ++ [part]).flatMap Part.members) := by
  have named : ∀ other ∈ parts, other.members.map Prod.fst = other.memberNames :=
    fun other member => Part.map_fst_members (by rwa [compatible.kinds other member])
  have added : part.2.body.members = part.memberNames := by
    rw [← Part.map_fst_members (by rwa [kind]), Part.members, List.map_map]
    exact (List.map_id _).symm
  have proper : part.2.body.Proper := Sdl.TypeBody.proper_of_kind (by simp [kind, union])
  have unimplementing : part.interfaceNames = [] :=
    Sdl.TypeBody.interfaces_eq_nil (by simp [kind, union]) (by simp [kind, union])
  rw [NamedRef.foldlM_addMember_eq_ok_iff, compatible.names_column named, added,
    compatible.concat_iff_of_interfaceNames kind unimplementing]
  simp [proper, Table.ofList, Table.insertAll_append, Part.members, added]

theorem EnumType.extend_gather_iff {result : EnumType}
    (compatible : Part.Compatible definition parts)
    (kind : part.2.body.kind = definition.2.body.kind) (enum : definition.2.body.kind = .enum)
    {location : Location} {description : Option String} {name : String} :
    part.2.body.values.foldlM (EnumType.addValue part.location)
        ⟨location, description, name, .ofList (parts.flatMap Part.values)⟩ = .ok result ↔
      Part.Compatible definition (parts ++ [part]) ∧
        result =
          ⟨location, description, name, .ofList ((parts ++ [part]).flatMap Part.values)⟩ := by
  have named : ∀ other ∈ parts, other.values.map Prod.fst = other.memberNames :=
    fun other member => Part.map_fst_values (by rwa [compatible.kinds other member])
  have added : part.2.body.values.map Sdl.EnumValueDecl.name = part.memberNames := by
    rw [← Part.map_fst_values (by rwa [kind]), Part.values, List.map_map]
    rfl
  have proper : part.2.body.Proper := Sdl.TypeBody.proper_of_kind (by simp [kind, enum])
  have unimplementing : part.interfaceNames = [] :=
    Sdl.TypeBody.interfaces_eq_nil (by simp [kind, enum]) (by simp [kind, enum])
  rw [EnumType.foldlM_addValue_eq_ok_iff, compatible.names_column named, added,
    compatible.concat_iff_of_interfaceNames kind unimplementing]
  simp [proper, Table.ofList, Table.insertAll_append, Part.values]

theorem InputType.fields_gather_iff {result : Table InputField}
    (compatible : Part.Compatible definition parts)
    (kind : part.2.body.kind = definition.2.body.kind) (input : definition.2.body.kind = .input)
    {type : String} :
    part.2.body.inputFields.foldlM (InputField.add part.location type)
        (.ofList (parts.flatMap Part.inputFields)) = .ok result ↔
      Part.Compatible definition (parts ++ [part]) ∧
        result = .ofList ((parts ++ [part]).flatMap Part.inputFields) := by
  have named : ∀ other ∈ parts, other.inputFields.map Prod.fst = other.memberNames :=
    fun other member => Part.map_fst_inputFields (by rwa [compatible.kinds other member])
  have added : part.2.body.inputFields.map Sdl.InputDecl.name = part.memberNames := by
    rw [← Part.map_fst_inputFields (by rwa [kind]), Part.inputFields, List.map_map]
    rfl
  have proper := Sdl.TypeBody.proper_iff_inputFields (kind.trans input)
  have unimplementing : part.interfaceNames = [] :=
    Sdl.TypeBody.interfaces_eq_nil (by simp [kind, input]) (by simp [kind, input])
  rw [InputField.foldlM_add_eq_ok_iff, compatible.names_column named, added,
    compatible.concat_iff_of_interfaceNames kind unimplementing, proper, and_assoc]
  simp [Table.ofList, Table.insertAll_append, Part.inputFields]

theorem TypeDef.not_extend_of_kind_ne {file : Option String} {type result : TypeDef}
    {decl : Sdl.TypeDecl} (other : decl.body.kind ≠ type.kind) :
    type.extend file decl ≠ .ok result := by
  unfold extend
  dsimp only
  intro extended
  split at extended <;> first
    | (rename_i same; exact other (by rw [same]; rfl))
    | cases extended

/-- A type gathers one more part exactly when that part fits to those that it has gathered. -/
theorem TypeDef.extend_gather_iff {result : TypeDef}
    (compatible : Part.Compatible definition parts) :
    (gather definition parts).extend part.1 part.2 = .ok result ↔
      Part.Compatible definition (parts ++ [part]) ∧
        result = gather definition (parts ++ [part]) := by
  by_cases kind : part.2.body.kind = definition.2.body.kind
  · have same := kind
    rcases definition with ⟨home, position, description, name, directives, body⟩
    rcases part with ⟨file, at', description', name', directives', added⟩
    -- The bodies are of one kind, so only the six cases on the diagonal are left.
    cases body <;> cases added <;> cases kind
    · rw [compatible.concat_iff_of_interfaceNames same rfl]
      constructor
      · rintro ⟨⟩
        exact ⟨⟨trivial, (List.append_nil _).symm ▸ compatible.members⟩, rfl⟩
      · rintro ⟨_, rfl⟩
        rfl
    · exact map_eq_ok_iff_of fun _ => FieldedType.extend_gather_iff compatible same (.inl rfl)
    · exact map_eq_ok_iff_of fun _ => FieldedType.extend_gather_iff compatible same (.inr rfl)
    · exact map_eq_ok_iff_of fun _ => UnionType.members_gather_iff compatible same rfl
    · exact map_eq_ok_iff_of fun _ => EnumType.extend_gather_iff compatible same rfl
    · exact map_eq_ok_iff_of fun _ => InputType.fields_gather_iff compatible same rfl
  · constructor
    · intro extended
      exact absurd extended (not_extend_of_kind_ne (by rwa [kind_gather]))
    · rintro ⟨larger, _⟩
      exact absurd (larger.kinds part (by simp)) kind

/-- A definition makes the type that gathers it alone, exactly when it fits to itself. -/
theorem TypeDef.ofDecl_eq_ok_iff {result : TypeDef} :
    ofDecl part.1 part.2 = .ok result ↔
      Part.Compatible part [part] ∧ result = gather part [part] := by
  have blank : TypeDef.blank part.1 part.2 = gather part [] := by
    rw [TypeDef.blank, gather]
    cases part.2.body <;> rfl
  rw [ofDecl, blank]
  exact extend_gather_iff (Part.Compatible.nil part)

end SchemaUnfolding
