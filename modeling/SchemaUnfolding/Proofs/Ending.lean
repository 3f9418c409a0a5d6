/-!
# How computations end

A computation with a state ends with a value or with an error, and with a state either way. This
file says so for the steps that computations are made of, so that later proofs never look at how the
steps thread their state.
-/

namespace ExceptT

variable {ε σ α β : Type}

/-- A sequence of two computations runs the second when the first returned. -/
theorem run_run_bind (first : ExceptT ε (StateM σ) α) (second : α → ExceptT ε (StateM σ) β)
    (before : σ) :
    (first >>= second).run.run before =
      match first.run.run before with
      | (.ok value, middle) => (second value).run.run middle
      | (.error error, middle) => (.error error, middle) := by
  rw [ExceptT.run_bind, StateT.run_bind]
  rcases StateT.run first.run before with ⟨_ | _, _⟩ <;> rfl

theorem run_run_get (before : σ) :
    (get : ExceptT ε (StateM σ) σ).run.run before = (.ok before, before) :=
  rfl

/-- A handler takes over where a computation failed, with the state that this left behind. -/
theorem run_run_tryCatch (computation : ExceptT ε (StateM σ) α)
    (handle : ε → ExceptT ε (StateM σ) α) (before : σ) :
    (tryCatch computation handle).run.run before =
      match computation.run.run before with
      | (.ok value, middle) => (.ok value, middle)
      | (.error error, middle) => (handle error).run.run middle := by
  rw [ExceptT.run_tryCatch, StateT.run_bind]
  rcases StateT.run computation.run before with ⟨_ | _, _⟩ <;> rfl

/-! ## Returning -/

/-- A computation ends without an error: it returns a value and takes one state to another. -/
def Returns (computation : ExceptT ε (StateM σ) α) (before : σ) (value : α) (after : σ) : Prop :=
  computation.run.run before = (.ok value, after)

variable {before after : σ}

@[simp]
theorem returns_pure_iff {value result : α} :
    (pure value : ExceptT ε (StateM σ) α).Returns before result after ↔
      result = value ∧ after = before := by
  constructor
  · intro returned
    cases returned
    exact ⟨rfl, rfl⟩
  · rintro ⟨rfl, rfl⟩
    rfl

@[simp]
theorem not_returns_throw {error : ε} {result : α} :
    ¬ (throw error : ExceptT ε (StateM σ) α).Returns before result after := by
  intro returned
  cases returned

/-- A sequence of two computations returns exactly when the first returns something from which the
second returns. -/
theorem returns_bind_iff {first : ExceptT ε (StateM σ) α}
    {second : α → ExceptT ε (StateM σ) β} {result : β} :
    (first >>= second).Returns before result after ↔
      ∃ value middle, first.Returns before value middle ∧
        (second value).Returns middle result after := by
  unfold Returns
  rw [run_run_bind]
  rcases first.run.run before with ⟨error | value, middle⟩
  · constructor
    · intro returned
      cases returned
    · rintro ⟨_, _, found, _⟩
      cases found
  · constructor
    · intro returned
      exact ⟨value, middle, rfl, returned⟩
    · rintro ⟨_, _, found, returned⟩
      cases found
      exact returned

/-! ## Failing -/

/-- A computation ends with no error but those of a kind. -/
def FailsOnly (computation : ExceptT ε (StateM σ) α) (kind : ε → Prop) : Prop :=
  ∀ before error after, computation.run.run before = (.error error, after) → kind error

variable {kind : ε → Prop}

theorem failsOnly_pure (value : α) : (pure value : ExceptT ε (StateM σ) α).FailsOnly kind := by
  rintro _ _ _ ⟨⟩

theorem failsOnly_throw {error : ε} (known : kind error) :
    (throw error : ExceptT ε (StateM σ) α).FailsOnly kind := by
  rintro _ _ _ ⟨⟩
  exact known

theorem failsOnly_get : (get : ExceptT ε (StateM σ) σ).FailsOnly kind := by
  rintro _ _ _ ⟨⟩

theorem failsOnly_set (state : σ) :
    (set state : ExceptT ε (StateM σ) PUnit).FailsOnly kind := by
  rintro _ _ _ ⟨⟩

theorem failsOnly_modify (change : σ → σ) :
    (modify change : ExceptT ε (StateM σ) PUnit).FailsOnly kind := by
  rintro _ _ _ ⟨⟩

/-- A sequence fails as its first part does, or as its second does on what the first returned. -/
theorem FailsOnly.bind {first : ExceptT ε (StateM σ) α} {second : α → ExceptT ε (StateM σ) β}
    (early : first.FailsOnly kind)
    (late : ∀ before value after, first.Returns before value after →
      (second value).FailsOnly kind) :
    (first >>= second).FailsOnly kind := by
  intro before error after failed
  rw [run_run_bind] at failed
  rcases ended : first.run.run before with ⟨fault | value, middle⟩
  · rw [ended] at failed
    cases failed
    exact early before error after ended
  · rw [ended] at failed
    exact late before value middle ended middle error after failed

/-- A computation that never fails returns. -/
theorem FailsOnly.returns {computation : ExceptT ε (StateM σ) α}
    (never : computation.FailsOnly fun _ => False) (before : σ) :
    ∃ value after, computation.Returns before value after := by
  rcases ended : computation.run.run before with ⟨error | value, after⟩
  · exact (never before error after ended).elim
  · exact ⟨value, after, ended⟩

/-! ## Ending in one way -/

/-- A computation ends with one result, whatever state it starts from. -/
def EndsWith (computation : ExceptT ε (StateM σ) α) (result : Except ε α) : Prop :=
  ∀ before, (computation.run.run before).1 = result

theorem endsWith_pure (value : α) : (pure value : ExceptT ε (StateM σ) α).EndsWith (.ok value) :=
  fun _ => rfl

theorem endsWith_throw (error : ε) :
    (throw error : ExceptT ε (StateM σ) α).EndsWith (.error error) :=
  fun _ => rfl

theorem endsWith_modify (change : σ → σ) :
    (modify change : ExceptT ε (StateM σ) PUnit).EndsWith (.ok ⟨⟩) :=
  fun _ => rfl

/-- A sequence ends as its second part does on what the first returns. -/
theorem EndsWith.bind {first : ExceptT ε (StateM σ) α} {second : α → ExceptT ε (StateM σ) β}
    {value : α} {result : Except ε β} (early : first.EndsWith (.ok value))
    (late : (second value).EndsWith result) : (first >>= second).EndsWith result := by
  intro before
  have ended := early before
  rw [run_run_bind]
  rcases ran : first.run.run before with ⟨outcome, middle⟩
  obtain rfl : outcome = .ok value := by simpa [ran] using ended
  exact late middle

/-- A sequence ends with the error with which its first part ends. -/
theorem EndsWith.bind_error {first : ExceptT ε (StateM σ) α} {error : ε}
    (early : first.EndsWith (.error error)) (second : α → ExceptT ε (StateM σ) β) :
    (first >>= second).EndsWith (.error error) := by
  intro before
  have ended := early before
  rw [run_run_bind]
  rcases ran : first.run.run before with ⟨outcome, middle⟩
  obtain rfl : outcome = .error error := by simpa [ran] using ended
  rfl

end ExceptT
