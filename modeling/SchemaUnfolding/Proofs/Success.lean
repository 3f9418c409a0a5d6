/-!
# Computations that succeed

What the success of a sequence, a map or a fold of fallible computations says about its parts.
-/

namespace SchemaUnfolding

universe u v

variable {ε : Type u} {α β : Type v}

/-- A sequence succeeds exactly when both of its parts do. -/
theorem bind_eq_ok_iff {first : Except ε α} {second : α → Except ε β} {result : β} :
    (first >>= second) = .ok result ↔ ∃ value, first = .ok value ∧ second value = .ok result := by
  cases first with
  | error error =>
    constructor
    · intro succeeded
      cases succeeded
    · rintro ⟨_, ⟨⟩, _⟩
  | ok value =>
    constructor
    · intro succeeded
      exact ⟨value, rfl, succeeded⟩
    · rintro ⟨_, ⟨⟩, succeeded⟩
      exact succeeded

theorem map_eq_ok_iff {computation : Except ε α} {f : α → β} {result : β} :
    computation.map f = .ok result ↔ ∃ value, computation = .ok value ∧ f value = result := by
  cases computation with
  | error error => simp [Except.map]
  | ok value => simp [Except.map]

/-- Another wording of errors changes no success. -/
theorem mapError_eq_ok_iff {δ : Type u} {computation : Except ε α} {f : ε → δ} {result : α} :
    computation.mapError f = .ok result ↔ computation = .ok result := by
  cases computation with
  | error error => constructor <;> rintro ⟨⟩
  | ok value => constructor <;> rintro ⟨⟩ <;> rfl

/-- A computation that succeeds under one condition with one value succeeds under that condition
after a map as well. -/
theorem map_eq_ok_iff_of {computation : Except ε α} {f : α → β} {condition : Prop} {target : α}
    (succeeds : ∀ value, computation = .ok value ↔ condition ∧ value = target) {result : β} :
    computation.map f = .ok result ↔ condition ∧ result = f target := by
  rw [map_eq_ok_iff]
  constructor
  · rintro ⟨value, computed, rfl⟩
    rcases (succeeds value).mp computed with ⟨met, rfl⟩
    exact ⟨met, rfl⟩
  · rintro ⟨met, rfl⟩
    exact ⟨target, (succeeds target).mpr ⟨met, rfl⟩, rfl⟩

/-- What each step of a fold preserves holds of the result of the fold. -/
theorem foldlM_preserves {step : β → α → Except ε β} {good : β → Prop} {items : List α}
    {start result : β} (succeeded : items.foldlM step start = .ok result) (known : good start)
    (preserves : ∀ ⦃state item next⦄, item ∈ items → good state → step state item = .ok next →
      good next) :
    good result := by
  induction items generalizing start with
  | nil =>
    cases succeeded
    exact known
  | cons item rest ih =>
    rw [List.foldlM_cons, bind_eq_ok_iff] at succeeded
    rcases succeeded with ⟨middle, first, others⟩
    exact ih others (preserves (List.mem_cons_self ..) known first)
      fun state item next member => preserves (List.mem_cons_of_mem _ member)

end SchemaUnfolding
