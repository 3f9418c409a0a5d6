import Mathlib.Data.List.Nodup
import SchemaUnfolding.Proofs.Generation.Safety
import SchemaUnfolding.Proofs.Schema.Loaded

/-!
# What a publication writes

A publication hands a sink the writes of a report, in order and up to the first that the sink
refuses, and the report is the one that generation alone returns. This holds of each sink: what its
state shows of the writes it was handed, it shows of these.
-/

namespace SchemaUnfolding

open ExceptT

/-! ## Handing over -/

namespace Sink

variable {σ : Type} {sink : Sink σ} {state : σ} {writes rest : List Write} {write : Write}

/-- The state of a sink after it was handed writes one after the other. -/
def after (sink : Sink σ) (state : σ) (writes : List Write) : σ :=
  writes.foldl (fun state write => (sink.accept state write).state) state

/-- A sink refuses none of the writes that it is handed one after the other. -/
def AcceptsAll (sink : Sink σ) : σ → List Write → Prop
  | _, [] => True
  | state, write :: rest =>
    (sink.accept state write).refusal = none ∧ AcceptsAll sink (sink.accept state write).state rest

/-- Hand a sink writes up to the first that it refuses. What is left is its state and the refusal,
if there was one. -/
def feed (sink : Sink σ) : σ → List Write → σ × Option (Write × String)
  | state, [] => (state, none)
  | state, write :: rest =>
    match (sink.accept state write).refusal with
    | some reason => ((sink.accept state write).state, some (write, reason))
    | none => feed sink (sink.accept state write).state rest

theorem feed_append :
    sink.feed state (writes ++ rest) =
      match sink.feed state writes with
      | (later, some refusal) => (later, some refusal)
      | (later, none) => sink.feed later rest := by
  induction writes generalizing state with
  | nil => rfl
  | cons write others ih =>
    simp only [List.cons_append, feed]
    cases (sink.accept state write).refusal with
    | none => exact ih
    | some reason => rfl

theorem after_append :
    sink.after state (writes ++ rest) = sink.after (sink.after state writes) rest :=
  List.foldl_append

theorem acceptsAll_append :
    sink.AcceptsAll state (writes ++ rest) ↔
      sink.AcceptsAll state writes ∧ sink.AcceptsAll (sink.after state writes) rest := by
  induction writes generalizing state with
  | nil => exact (and_iff_right trivial).symm
  | cons write others ih =>
    rw [List.cons_append, AcceptsAll, AcceptsAll, ih, and_assoc]
    rfl

/-- A sink that refuses nothing is handed all writes. -/
theorem feed_of_acceptsAll (accepts : sink.AcceptsAll state writes) :
    sink.feed state writes = (sink.after state writes, none) := by
  induction writes generalizing state with
  | nil => rfl
  | cons write rest ih =>
    rw [feed, accepts.1]
    exact ih accepts.2

/-- A sink to which all writes could be handed accepts them. -/
theorem acceptsAll_of_feed {final : σ} (fed : sink.feed state writes = (final, none)) :
    sink.AcceptsAll state writes ∧ final = sink.after state writes := by
  induction writes generalizing state with
  | nil =>
    cases fed
    exact ⟨trivial, rfl⟩
  | cons write rest ih =>
    rw [feed] at fed
    cases accepted : (sink.accept state write).refusal with
    | none =>
      rw [accepted] at fed
      rcases ih fed with ⟨accepts, same⟩
      exact ⟨⟨accepted, accepts⟩, same⟩
    | some reason =>
      rw [accepted] at fed
      cases fed

/-- After the first refusal a sink is handed nothing more. -/
theorem feed_of_refused {number : Nat} {reason : String} (known : writes[number]? = some write)
    (accepts : sink.AcceptsAll state (writes.take number))
    (refused : (sink.accept (sink.after state (writes.take number)) write).refusal = some reason) :
    sink.feed state writes =
      (sink.after state (writes.take (number + 1)), some (write, reason)) := by
  induction writes generalizing state number with
  | nil => cases known
  | cons first rest ih =>
    cases number with
    | zero =>
      have same : first = write := Option.some.inj known
      subst same
      have here : (sink.accept state first).refusal = some reason := refused
      rw [feed, here]
      rfl
    | succ number =>
      rw [feed, accepts.1]
      exact ih known accepts.2 refused

end Sink

/-! ## Publishing a list of writes -/

/-- A publication hands a sink some writes up to the first that it refuses, and returns a value when
none was refused. -/
def Publication.Performs {σ α : Type} (sink : Sink σ) (publication : Publication σ α)
    (writes : List Write) (value : α) : Prop :=
  ∀ state events, ∃ later, publication.run.run (state, events) =
    match sink.feed state writes with
    | (final, none) => (.ok value, (final, later))
    | (final, some (write, reason)) => (.error (.refused write reason), (final, later))

namespace Publication

variable {σ α β : Type} {sink : Sink σ}

theorem performs_pure (value : α) : (pure value : Publication σ α).Performs sink [] value :=
  fun _ events => ⟨events, rfl⟩

theorem Performs.bind {first : Publication σ α} {second : α → Publication σ β}
    {writes rest : List Write} {value : α} {result : β} (early : first.Performs sink writes value)
    (late : (second value).Performs sink rest result) :
    (first >>= second).Performs sink (writes ++ rest) result := by
  intro state events
  rcases early state events with ⟨middle, ran⟩
  rw [run_run_bind, ran, Sink.feed_append]
  rcases sink.feed state writes with ⟨final, _ | ⟨write, reason⟩⟩
  · exact late final middle
  · exact ⟨middle, rfl⟩

/-- What is returned after a publication adds no write. -/
theorem Performs.bind_pure {first : Publication σ α} {second : α → Publication σ β}
    {writes : List Write} {value : α} {result : β} (early : first.Performs sink writes value)
    (returned : second value = pure result) : (first >>= second).Performs sink writes result := by
  rw [← List.append_nil writes]
  exact early.bind (returned ▸ performs_pure result)

theorem performs_deliver (write : Write) : (deliver sink write).Performs sink [write] () := by
  intro state events
  rw [deliver, run_run_bind, run_run_get, Sink.feed]
  dsimp only
  rw [run_run_bind]
  refine ⟨(sink.accept state write).events.foldl Array.push events, ?_⟩
  cases (sink.accept state write).refusal <;> rfl

theorem performs_deliverAll (writes : List Write) :
    (deliverAll sink writes).Performs sink writes () := by
  induction writes with
  | nil => exact performs_pure ()
  | cons write rest ih => exact (performs_deliver write).bind ih

/-- What a generation returns, whatever events were reported before, it returns within a publication
as well, and writes nothing. -/
theorem performs_ofGeneration {generation : Generation α} {value : α}
    (generated : ∀ before, ∃ after, generation.Returns before value after) :
    (ofGeneration generation : Publication σ α).Performs sink [] value := by
  intro state events
  rcases generated events with ⟨later, returned⟩
  rw [Returns] at returned
  rw [ofGeneration, run_run_bind, run_run_get]
  dsimp only
  rw [returned]
  exact ⟨later, rfl⟩

end Publication

/-! ## What generation returns -/

namespace Generation

variable {schema : Schema} {config : Config} {kind : OperationKind} {root : FieldedType}
  {before after : Array Event}

/-- What is generated does not depend on the events that were reported before. -/
def IgnoresEvents {α : Type} (generation : Generation α) : Prop :=
  ∀ ⦃before value after⦄, generation.Returns before value after →
    ∀ before', ∃ after', generation.Returns before' value after'

variable {α β : Type}

theorem ignoresEvents_pure (value : α) : (pure value : Generation α).IgnoresEvents := by
  intro before result after returned before'
  exact ⟨before', returns_pure_iff.mpr ⟨(returns_pure_iff.mp returned).1, rfl⟩⟩

theorem IgnoresEvents.bind {first : Generation α} {second : α → Generation β}
    (early : first.IgnoresEvents) (late : ∀ value, (second value).IgnoresEvents) :
    (first >>= second).IgnoresEvents := by
  intro before result after returned before'
  rcases returns_bind_iff.mp returned with ⟨value, middle, first, second⟩
  rcases early first before' with ⟨middle', first'⟩
  rcases late value second middle' with ⟨after', second'⟩
  exact ⟨after', returns_bind_iff.mpr ⟨value, middle', first', second'⟩⟩

theorem ignoresEvents_report (events : List Event) : (report events).IgnoresEvents := by
  intro before value after returned before'
  exact ⟨_, rfl⟩

theorem ignoresEvents_operation (field : Field) :
    (operation schema config kind root field).IgnoresEvents := by
  intro before result after returned before'
  rcases returns_operation_iff.mp returned with ⟨selection, progress, expands, same, _⟩
  exact ⟨_, returns_operation_iff.mpr ⟨selection, progress, expands, same, rfl⟩⟩

theorem ignoresEvents_operations (fields : List Field) :
    (operations schema config kind root fields).IgnoresEvents := by
  induction fields with
  | nil => exact ignoresEvents_pure []
  | cons field rest ih =>
    exact (ignoresEvents_operation field).bind fun _ => ih.bind fun _ => ignoresEvents_pure _

theorem ignoresEvents_ofKind (kind : OperationKind) :
    (ofKind schema config kind).IgnoresEvents := by
  rw [ofKind]
  cases schema.root? kind with
  | none => exact (ignoresEvents_report _).bind fun _ => ignoresEvents_pure _
  | some root => exact (ignoresEvents_operations _).bind fun _ => ignoresEvents_pure _

/-- The operations that were generated are of the kind and for the fields that were asked for. -/
theorem of_returns_operations {fields : List Field} {generated : List Operation}
    (returned : (operations schema config kind root fields).Returns before generated after) :
    (∀ operation ∈ generated, operation.kind = kind) ∧
      generated.map Operation.field = fields.map Field.name := by
  induction fields generalizing before generated after with
  | nil =>
    rcases returns_pure_iff.mp returned with ⟨rfl, _⟩
    simp
  | cons field rest ih =>
    rcases returns_bind_iff.mp returned with ⟨first, _, here, returned⟩
    rcases returns_bind_iff.mp returned with ⟨others, _, later, returned⟩
    rcases returns_pure_iff.mp returned with ⟨rfl, _⟩
    rcases returns_operation_iff.mp here with ⟨_, _, _, rfl, _⟩
    rcases ih later with ⟨kinds, names⟩
    exact ⟨List.forall_mem_cons.mpr ⟨rfl, kinds⟩, by rw [List.map_cons, List.map_cons, names]⟩

/-- A kind with a root type has operations of that kind, one for each field of the root type that is
included; a kind without a root type has none. -/
theorem of_returns_ofKind {generated : Option (List Operation)}
    (returned : (ofKind schema config kind).Returns before generated after) :
    generated.isSome = (schema.root? kind).isSome ∧
      ∀ operations ∈ generated, (∀ operation ∈ operations, operation.kind = kind) ∧
        ∀ root ∈ schema.root? kind, operations.map Operation.field =
          (root.fields.values.filter config.includes).map Field.name := by
  rw [ofKind] at returned
  cases known : schema.root? kind with
  | none =>
    rw [known] at returned
    rcases returns_bind_iff.mp returned with ⟨_, _, _, finished⟩
    rcases returns_pure_iff.mp finished with ⟨rfl, _⟩
    exact ⟨rfl, by rintro _ ⟨⟩⟩
  | some root =>
    rw [known] at returned
    rcases returns_bind_iff.mp returned with ⟨operations, _, generated, finished⟩
    rcases returns_pure_iff.mp finished with ⟨rfl, _⟩
    rcases of_returns_operations generated with ⟨kinds, names⟩
    refine ⟨rfl, ?_⟩
    rintro _ ⟨⟩
    exact ⟨kinds, by rintro _ ⟨⟩; exact names⟩

end Generation

/-! ## The writes of a report -/

/-- The kinds with a root type in the order in which they are generated. -/
def Schema.rootedKinds (schema : Schema) (kinds : List OperationKind) : List OperationKind :=
  kinds.filter fun kind => (schema.root? kind).isSome

/-- A kind comes in front of the rest when something was generated for it. -/
theorem Schema.rootedKinds_cons {schema : Schema} {kind : OperationKind}
    {generated : Option (List Operation)} (rooted : generated.isSome = (schema.root? kind).isSome)
    (rest : List OperationKind) :
    schema.rootedKinds (kind :: rest) =
      generated.elim (schema.rootedKinds rest) fun _ => kind :: schema.rootedKinds rest := by
  cases generated with
  | none => exact List.filter_cons_of_neg (by simp [← rooted])
  | some operations => exact List.filter_cons_of_pos (by simp [← rooted])

namespace Report

/-- The operations of a kind in order. -/
def operationsOf (report : Report) (kind : OperationKind) : List Operation :=
  report.operations.filter (·.kind = kind)

/-- The writes of a kind: a document for each of its operations in order, then its index. -/
def kindWrites (report : Report) (extension : String) (kind : OperationKind) : List Write :=
  (report.operationsOf kind).map
      (fun operation => .document kind operation.field extension operation.text) ++
    [.kindIndex kind (kindIndex extension ((report.operationsOf kind).map Operation.field))]

/-- The writes of a report: those of each kind with a root type, then the index of these kinds. -/
def writes (report : Report) (schema : Schema) (config : Config) : List Write :=
  (schema.rootedKinds OperationKind.all).flatMap (report.kindWrites config.extension) ++
    [.rootIndex (rootIndex (schema.rootedKinds OperationKind.all))]

variable {report : Report} {kind other : OperationKind} {generated : List Operation}

theorem operationsOf_eq_nil (strange : ∀ operation ∈ report.operations, operation.kind ≠ kind) :
    report.operationsOf kind = [] :=
  List.filter_eq_nil_iff.mpr fun operation present => by simpa using strange operation present

theorem operationsOf_enter_self (own : ∀ operation ∈ generated, operation.kind = kind)
    (strange : ∀ operation ∈ report.operations, operation.kind ≠ kind) :
    (report.enter kind (some generated)).operationsOf kind = generated := by
  have rest : report.operations.filter (·.kind = kind) = [] := operationsOf_eq_nil strange
  have front : generated.filter (·.kind = kind) = generated :=
    List.filter_eq_self.mpr fun operation present => by simpa using own operation present
  rw [operationsOf, enter, List.filter_append, rest, front, List.append_nil]

theorem operationsOf_enter_of_ne (own : ∀ operation ∈ generated, operation.kind = kind)
    (different : other ≠ kind) :
    (report.enter kind (some generated)).operationsOf other = report.operationsOf other := by
  have front : generated.filter (·.kind = other) = [] :=
    List.filter_eq_nil_iff.mpr fun operation present => by
      simpa [own operation present] using different.symm
  rw [operationsOf, enter, List.filter_append, front, List.nil_append, operationsOf]

/-- Entering what was generated for a kind adds the writes of that kind in front and leaves those of
the kinds after it as they are. -/
theorem flatMap_kindWrites_enter {schema : Schema} {extension : String}
    {rest : List OperationKind} {generated : Option (List Operation)} (fresh : kind ∉ rest)
    (rooted : generated.isSome = (schema.root? kind).isSome)
    (own : ∀ operations ∈ generated, ∀ operation ∈ operations, operation.kind = kind)
    (strange : ∀ operation ∈ report.operations, operation.kind ≠ kind) :
    (schema.rootedKinds (kind :: rest)).flatMap
        ((report.enter kind generated).kindWrites extension) =
      generated.elim [] (Publication.writesOf extension kind) ++
        (schema.rootedKinds rest).flatMap (report.kindWrites extension) := by
  rw [Schema.rootedKinds_cons rooted]
  cases generated with
  | none => rfl
  | some operations =>
    have own := own operations rfl
    have here : (report.enter kind (some operations)).kindWrites extension kind =
        Publication.writesOf extension kind operations := by
      rw [kindWrites, operationsOf_enter_self own strange, Publication.writesOf]
    have there : ∀ other ∈ schema.rootedKinds rest,
        (report.enter kind (some operations)).kindWrites extension other =
          report.kindWrites extension other := by
      intro other present
      have different : other ≠ kind :=
        fun same => fresh (same ▸ List.mem_of_mem_filter present)
      rw [kindWrites, operationsOf_enter_of_ne own different, kindWrites]
    change (kind :: schema.rootedKinds rest).flatMap _ = _
    rw [List.flatMap_cons, here, List.flatMap_congr there]
    rfl

end Report

namespace Generation

variable {schema : Schema} {config : Config} {report : Report} {before after : Array Event}
  {kind : OperationKind}

/-- Kinds are generated one after the other, and what the first has is entered in front. -/
theorem returns_ofKinds_cons_iff {rest : List OperationKind} :
    (ofKinds schema config (kind :: rest)).Returns before report after ↔
      ∃ generated others middle, (ofKind schema config kind).Returns before generated middle ∧
        (ofKinds schema config rest).Returns middle others after ∧
        report = others.enter kind generated := by
  constructor
  · intro returned
    rcases returns_bind_iff.mp returned with ⟨generated, middle, first, returned⟩
    rcases returns_bind_iff.mp returned with ⟨others, _, later, finished⟩
    rcases returns_pure_iff.mp finished with ⟨rfl, rfl⟩
    exact ⟨generated, others, middle, first, later, rfl⟩
  · rintro ⟨generated, others, middle, first, later, rfl⟩
    exact returns_bind_iff.mpr ⟨generated, middle, first,
      returns_bind_iff.mpr ⟨others, after, later, returns_pure_iff.mpr ⟨rfl, rfl⟩⟩⟩

/-- A report has operations of the kinds with a root type, and of each of these the operations for
the fields of the root type that are included, in order. -/
theorem of_returns_ofKinds {kinds : List OperationKind} (distinct : kinds.Nodup)
    (generated : (ofKinds schema config kinds).Returns before report after) :
    (∀ operation ∈ report.operations, operation.kind ∈ schema.rootedKinds kinds) ∧
      ∀ kind ∈ kinds, ∀ root ∈ schema.root? kind,
        (report.operationsOf kind).map Operation.field =
          (root.fields.values.filter config.includes).map Field.name := by
  induction kinds generalizing before report after with
  | nil =>
    rcases returns_pure_iff.mp generated with ⟨rfl, _⟩
    exact ⟨by simp, by simp⟩
  | cons kind rest ih =>
    rcases returns_ofKinds_cons_iff.mp generated with ⟨operations, others, _, first, later, rfl⟩
    rcases List.nodup_cons.mp distinct with ⟨fresh, distinct⟩
    rcases ih distinct later with ⟨rootedRest, fieldsRest⟩
    rcases of_returns_ofKind first with ⟨rooted, own⟩
    have strange : ∀ operation ∈ others.operations, operation.kind ≠ kind := by
      intro operation present same
      exact fresh (same ▸ List.mem_of_mem_filter (rootedRest operation present))
    rw [Schema.rootedKinds_cons rooted]
    cases operations with
    | none =>
      refine ⟨rootedRest, List.forall_mem_cons.mpr ⟨fun root known => ?_, fieldsRest⟩⟩
      rw [Option.mem_def.mp known] at rooted
      cases rooted
    | some operations =>
      rcases own operations rfl with ⟨own, fields⟩
      refine ⟨fun operation present => ?_, List.forall_mem_cons.mpr ⟨?_, ?_⟩⟩
      · rcases List.mem_append.mp present with mine | others
        · exact own operation mine ▸ List.mem_cons_self
        · exact List.mem_cons_of_mem kind (rootedRest operation others)
      · rwa [Report.operationsOf_enter_self own strange]
      · intro other present
        have different : other ≠ kind := fun same => fresh (same ▸ present)
        rw [Report.operationsOf_enter_of_ne own different]
        exact fieldsRest other present

end Generation

namespace Publication

variable {σ : Type} {sink : Sink σ} {schema : Schema} {config : Config} {report : Report}
  {before after : Array Event}

/-- One more kind: it adds its own writes in front when it has a root type, and nothing else. -/
theorem performs_ofKinds_cons {kind : OperationKind} {rest indexed : List OperationKind}
    {generated : Option (List Operation)} {writes : List Write}
    (first : (ofGeneration (Generation.ofKind schema config kind)).Performs sink [] generated)
    (later : (ofKinds sink schema config rest).Performs sink writes (report, indexed)) :
    (ofKinds sink schema config (kind :: rest)).Performs sink
      (generated.elim [] (writesOf config.extension kind) ++ writes)
      (report.enter kind generated, generated.elim indexed fun _ => kind :: indexed) := by
  rw [ofKinds, ← List.nil_append (_ ++ writes)]
  refine first.bind ?_
  cases generated with
  | none => exact later.bind_pure rfl
  | some operations => exact (performs_deliverAll _).bind (later.bind_pure rfl)

theorem performs_ofKinds (sink : Sink σ) {kinds : List OperationKind} (distinct : kinds.Nodup)
    (generated : (Generation.ofKinds schema config kinds).Returns before report after) :
    (ofKinds sink schema config kinds).Performs sink
      ((schema.rootedKinds kinds).flatMap (report.kindWrites config.extension))
      (report, schema.rootedKinds kinds) := by
  induction kinds generalizing before report after with
  | nil =>
    rcases returns_pure_iff.mp generated with ⟨rfl, _⟩
    exact performs_pure _
  | cons kind rest ih =>
    rcases Generation.returns_ofKinds_cons_iff.mp generated with ⟨_, others, _, first, later, rfl⟩
    rcases List.nodup_cons.mp distinct with ⟨fresh, distinct⟩
    rcases Generation.of_returns_ofKind first with ⟨rooted, own⟩
    have rootedRest := (Generation.of_returns_ofKinds distinct later).1
    have strange : ∀ operation ∈ others.operations, operation.kind ≠ kind := by
      intro operation present same
      exact fresh (same ▸ List.mem_of_mem_filter (rootedRest operation present))
    rw [Report.flatMap_kindWrites_enter fresh rooted (fun _ known => (own _ known).1) strange,
      Schema.rootedKinds_cons rooted]
    exact performs_ofKinds_cons
      (performs_ofGeneration (Generation.ignoresEvents_ofKind kind first)) (ih distinct later)

/-- Publishing everything hands over the writes of the report that generation returns. -/
theorem performs_all (sink : Sink σ)
    (generated : (Generation.all schema config).Returns before report after) :
    (all sink schema config).Performs sink (report.writes schema config) report := by
  have kinds := performs_ofKinds sink (by decide) generated
  exact kinds.bind ((performs_deliver _).bind_pure rfl)

/-- A publication that returned has handed over the writes of a report that generation returns. -/
theorem of_returns_all {start final : σ} {events later : Array Event}
    (never : (Generation.all schema config).Faultless)
    (published : (all sink schema config).Returns (start, events) report (final, later)) :
    (∃ after, (Generation.all schema config).Returns #[] report after) ∧
      sink.AcceptsAll start (report.writes schema config) ∧
      final = sink.after start (report.writes schema config) := by
  rcases never.returns #[] with ⟨generated, after, returned⟩
  rcases performs_all sink returned start events with ⟨later', ran⟩
  rcases fed : sink.feed start (generated.writes schema config) with ⟨state, _ | refusal⟩
  · rw [fed] at ran
    cases ran.symm.trans published
    exact ⟨⟨after, returned⟩, Sink.acceptsAll_of_feed fed⟩
  · rw [fed] at ran
    cases ran.symm.trans published

end Publication

/-! ## What the indexes export -/

namespace Write

/-- The statement by which the index of a kind exports a write: a document of that kind, by the name
of its file. -/
def exported? (kind : OperationKind) : Write → Option String
  | document own field extension _ =>
    if own = kind then some (exportDocument extension field) else none
  | _ => none

/-- The statement by which the last index exports a write: the index of a kind. -/
def exportedKind? : Write → Option String
  | kindIndex kind _ => some (exportKind kind)
  | _ => none

end Write

namespace Report

variable {report : Report} {schema : Schema} {config : Config} {extension text : String}
  {kind other : OperationKind}

theorem exported_kindWrites :
    (report.kindWrites extension other).filterMap (Write.exported? kind) =
      if other = kind then
        ((report.operationsOf kind).map Operation.field).map (exportDocument extension)
      else [] := by
  rw [kindWrites, List.filterMap_append, List.filterMap_map, List.map_map]
  by_cases same : other = kind
  · subst same
    simp [Function.comp_def, Write.exported?]
  · simp [Function.comp_def, Write.exported?, same]

theorem exportedKind_kindWrites :
    (report.kindWrites extension kind).filterMap Write.exportedKind? = [exportKind kind] := by
  simp [kindWrites, Function.comp_def, Write.exportedKind?]

theorem exported_flatMap_kindWrites {kinds : List OperationKind} (distinct : kinds.Nodup)
    (present : kind ∈ kinds) :
    (kinds.flatMap (report.kindWrites extension)).filterMap (Write.exported? kind) =
      ((report.operationsOf kind).map Operation.field).map (exportDocument extension) := by
  induction kinds with
  | nil => cases present
  | cons other rest ih =>
    rcases List.nodup_cons.mp distinct with ⟨fresh, distinct⟩
    rw [List.flatMap_cons, List.filterMap_append, exported_kindWrites]
    by_cases same : other = kind
    · subst same
      have strange : (rest.flatMap (report.kindWrites extension)).filterMap
          (Write.exported? other) = [] := by
        rw [List.filterMap_flatMap, List.flatMap_eq_nil_iff]
        intro later found
        have different : later ≠ other := fun same => fresh (same ▸ found)
        rw [exported_kindWrites, if_neg different]
      rw [strange, if_pos rfl, List.append_nil]
    · rw [if_neg same, List.nil_append]
      exact ih distinct ((List.mem_cons.mp present).resolve_left (Ne.symm same))

/-- The index of a kind exports the documents that are written for the kind, in order. -/
theorem kindIndex_of_mem_writes (present : .kindIndex kind text ∈ report.writes schema config) :
    text = "const fs = require('fs');\nconst path = require('path');\n\n" ++
      String.join ((report.writes schema config).filterMap (Write.exported? kind)) := by
  have distinct : (schema.rootedKinds OperationKind.all).Nodup := List.Nodup.filter _ (by decide)
  have found : kind ∈ schema.rootedKinds OperationKind.all ∧
      text = kindIndex config.extension ((report.operationsOf kind).map Operation.field) := by
    simpa [writes, kindWrites, eq_comm] using present
  have exported : (report.writes schema config).filterMap (Write.exported? kind) =
      ((report.operationsOf kind).map Operation.field).map (exportDocument config.extension) := by
    rw [writes, List.filterMap_append, exported_flatMap_kindWrites distinct found.1]
    exact List.append_nil _
  rw [exported]
  exact found.2

/-- The last index exports the indexes that are written, in order. -/
theorem rootIndex_of_mem_writes (present : .rootIndex text ∈ report.writes schema config) :
    text = String.join ((report.writes schema config).filterMap Write.exportedKind?) := by
  have found : text = rootIndex (schema.rootedKinds OperationKind.all) := by
    simpa [writes, kindWrites] using present
  have exported : (report.writes schema config).filterMap Write.exportedKind? =
      (schema.rootedKinds OperationKind.all).map exportKind := by
    simp only [writes, List.filterMap_append, List.filterMap_flatMap, exportedKind_kindWrites,
      ← List.map_eq_flatMap]
    exact List.append_nil _
  rw [exported, found, rootIndex]

end Report

/-! ## Publishing a report -/

namespace Publication

/-- Where generation returns a report, publication hands a sink the writes of that report in order.
When the sink refuses none, publication returns the same report. When the sink refuses one, that is
the last write it is handed, and publication fails with its path. Each index among the writes
exports what is written besides it: the documents of its kind, or the indexes of the kinds. -/
theorem all_hands_over_report {schema : Schema} {config : Config} {report : Report}
    {before after : Array Event}
    (generated : (Generation.all schema config).Returns before report after) :
    (∀ {σ : Type} (sink : Sink σ) (start : σ) (events : Array Event),
      (sink.AcceptsAll start (report.writes schema config) →
        ∃ later, (all sink schema config).Returns (start, events) report
          (sink.after start (report.writes schema config), later)) ∧
      (∀ number write reason, (report.writes schema config)[number]? = some write →
        sink.AcceptsAll start ((report.writes schema config).take number) →
        (sink.accept (sink.after start ((report.writes schema config).take number))
          write).refusal = some reason →
        ∃ error later, (all sink schema config).run.run (start, events) =
            (.error error,
              (sink.after start ((report.writes schema config).take (number + 1)), later)) ∧
          error = .refused write reason ∧
          error.message = "Failed to persist `" ++
            (match write with
              | .document kind field extension _ =>
                kind.directory ++ "/" ++ field ++ "." ++ extension
              | .kindIndex kind _ => kind.directory ++ "/index.js"
              | .rootIndex _ => "index.js") ++ "`: " ++ reason)) ∧
    (∀ kind text, .kindIndex kind text ∈ report.writes schema config →
      text = "const fs = require('fs');\nconst path = require('path');\n\n" ++
        String.join ((report.writes schema config).filterMap fun
          | .document own field extension _ =>
            if own = kind then
              some ("module.exports." ++ field ++ " = fs.readFileSync(path.join(__dirname, '" ++
                field ++ "." ++ extension ++ "'), 'utf8');\n")
            else none
          | _ => none)) ∧
    (∀ text, .rootIndex text ∈ report.writes schema config →
      text = String.join ((report.writes schema config).filterMap fun
        | .kindIndex kind _ =>
          some ("module.exports." ++ kind.directory ++ " = require('./" ++ kind.directory ++
            "');\n")
        | _ => none)) ∧
    OperationKind.all.map (fun kind => (kind, kind.directory)) =
      [(.query, "queries"), (.mutation, "mutations"), (.subscription, "subscriptions")] := by
  refine ⟨?_, fun _ _ => Report.kindIndex_of_mem_writes, fun _ => Report.rootIndex_of_mem_writes,
    rfl⟩
  intro σ sink start events
  rcases performs_all sink generated start events with ⟨later, ran⟩
  constructor
  · intro accepts
    rw [Sink.feed_of_acceptsAll accepts] at ran
    exact ⟨later, ran⟩
  · intro number write reason known accepts refused
    rw [Sink.feed_of_refused known accepts refused] at ran
    refine ⟨_, later, ran, rfl, ?_⟩
    cases write <;> rfl

end Publication

/-! ## The writes of a small schema -/

/-- The document of the small schema's root field down to depth one. -/
def sampleDocument : String :=
  "query n($k: ID, $k1: ID)\x7b\n    n(k: $k)\x7b\n        k\n        __typename\n" ++
    "        ... on C \x7b\n            n(k: $k1)\x7b\n                k\n" ++
    "                __typename\n            \x7d\n        \x7d\n    \x7d\n\x7d"

/-- The index of the small schema's only kind. -/
def sampleIndex : String :=
  "const fs = require('fs');\nconst path = require('path');\n\n" ++
    "module.exports.n = fs.readFileSync(path.join(__dirname, 'n.gql'), 'utf8');\n"

/-- The writes of the small schema are one document, its index and the index of that. A recorder
that refuses the second of them was asked for the document before it, and is asked for nothing
more. -/
theorem sampleSchema_hands_over_report :
    ∃ report after, (Generation.all sampleSchema { depthLimit := 1 }).Returns #[] report after ∧
      report.writes sampleSchema { depthLimit := 1 } =
        [.document .query "n" "gql" sampleDocument, .kindIndex .query sampleIndex,
          .rootIndex "module.exports.queries = require('./queries');\n"] ∧
      ∃ error final later,
        (Publication.all (Recorder.sink (some 1) "No space left on device (os error 28)")
          sampleSchema { depthLimit := 1 }).run.run ({}, #[]) = (.error error, (final, later)) ∧
        error.message =
          "Failed to persist `queries/index.js`: No space left on device (os error 28)" ∧
        final.asked = [.document .query "n" "gql" sampleDocument,
          .kindIndex .query sampleIndex] := by
  let generation := Generation.all sampleSchema { depthLimit := 1 }
  have never : generation.Faultless :=
    Generation.faultless_ofKinds sampleSchema_checked.closed OperationKind.all
  rcases never.returns #[] with ⟨report, after, returned⟩
  have ran : generation.run.run #[] = (.ok report, after) := returned
  have writes : (generation.run.run #[]).1.toOption.map
      (fun report => report.writes sampleSchema { depthLimit := 1 }) =
        some [.document .query "n" "gql" sampleDocument, .kindIndex .query sampleIndex,
          .rootIndex "module.exports.queries = require('./queries');\n"] := by
    decide +kernel
  rw [ran] at writes
  have writes : report.writes sampleSchema { depthLimit := 1 } =
      [.document .query "n" "gql" sampleDocument, .kindIndex .query sampleIndex,
        .rootIndex "module.exports.queries = require('./queries');\n"] := Option.some.inj writes
  have refused := ((Publication.all_hands_over_report returned).1
    (Recorder.sink (some 1) "No space left on device (os error 28)") {} #[]).2 1
  rw [writes] at refused
  rcases refused _ _ rfl ⟨rfl, trivial⟩ rfl with ⟨error, later, ended, _, message⟩
  exact ⟨report, after, returned, writes, error, _, later, ended, message, rfl⟩

end SchemaUnfolding
