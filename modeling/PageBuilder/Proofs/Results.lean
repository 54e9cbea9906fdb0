import PageBuilder.Failure

/-!
# Results step by step

How the parts of a computation add up when it can fail, without a state and with one.
-/

namespace PageBuilder.Results

variable {ε α β : Type}

@[simp] theorem throw_eq (failure : ε) : (throw failure : Except ε α) = .error failure := rfl

@[simp] theorem pure_eq (a : α) : (pure a : Except ε α) = .ok a := rfl

@[simp] theorem ok_bind (a : α) (f : α → Except ε β) : (Except.ok a >>= f) = f a := rfl

@[simp] theorem error_bind (failure : ε) (f : α → Except ε β) :
    (Except.error failure >>= f) = .error failure := rfl

@[simp] theorem map_ok (f : α → β) (a : α) : f <$> (Except.ok a : Except ε α) = .ok (f a) := rfl

@[simp] theorem map_error (f : α → β) (failure : ε) :
    f <$> (Except.error failure : Except ε α) = .error failure := rfl

@[simp] theorem discard_ok (a : α) :
    discard (Except.ok a : Except ε α) = .ok ⟨⟩ := rfl

@[simp] theorem discard_error (failure : ε) :
    discard (Except.error failure : Except ε α) = .error failure := rfl

/-- A bind that succeeds succeeds in both of its parts. -/
theorem exists_of_bind {x : Except ε α} {f : α → Except ε β} {b : β} (h : (x >>= f) = .ok b) :
    ∃ a, x = .ok a ∧ f a = .ok b := by
  cases x with
  | error failure => cases h
  | ok a => exact ⟨a, rfl, h⟩

theorem exists_of_map {x : Except ε α} {f : α → β} {b : β} (h : f <$> x = .ok b) :
    ∃ a, x = .ok a ∧ f a = b := by
  cases x with
  | error failure => cases h
  | ok a =>
    cases h
    exact ⟨a, rfl, rfl⟩

/-- A check that a result exists and passes gives the result. -/
theorem exists_of_any {x : Except ε α} {check : α → Bool} (h : x.toOption.any check = true) :
    ∃ a, x = .ok a ∧ check a = true := by
  cases x with
  | error failure => cases h
  | ok a => exact ⟨a, rfl, h⟩

section State

variable {σ : Type} {x : EStateM ε σ α} {s s' : σ} {a : α} {failure : ε}

/-- A computation succeeds, and what it gives and the state it ends in pass a check. -/
def succeeds (result : EStateM.Result ε σ α) (check : α → σ → Bool) : Bool :=
  match result with
  | .ok a s => check a s
  | .error _ _ => false

theorem exists_of_succeeds {result : EStateM.Result ε σ α} {check : α → σ → Bool}
    (h : succeeds result check = true) : ∃ a s, result = .ok a s ∧ check a s = true := by
  cases result with
  | error failure s => cases h
  | ok a s => exact ⟨a, s, rfl, h⟩

theorem bind_of_ok (h : x s = .ok a s') (f : α → EStateM ε σ β) : (x >>= f) s = f a s' := by
  show EStateM.bind x f s = f a s'
  unfold EStateM.bind
  rw [h]

theorem bind_of_error (h : x s = .error failure s') (f : α → EStateM ε σ β) :
    (x >>= f) s = .error failure s' := by
  show EStateM.bind x f s = .error failure s'
  unfold EStateM.bind
  rw [h]

theorem map_of_ok (h : x s = .ok a s') (f : α → β) : (f <$> x) s = .ok (f a) s' := by
  show EStateM.map f x s = .ok (f a) s'
  unfold EStateM.map
  rw [h]

theorem map_of_error (h : x s = .error failure s') (f : α → β) :
    (f <$> x) s = .error failure s' := by
  show EStateM.map f x s = .error failure s'
  unfold EStateM.map
  rw [h]

theorem map_of_eq {y : EStateM ε σ α} (h : x s = y s) (f : α → β) : (f <$> x) s = (f <$> y) s := by
  show EStateM.map f x s = EStateM.map f y s
  unfold EStateM.map
  rw [h]

theorem exists_of_map_ok {f : α → β} {b : β} (h : (f <$> x) s = .ok b s') :
    ∃ a, x s = .ok a s' ∧ f a = b := by
  cases hx : x s with
  | ok a t =>
    rw [map_of_ok hx] at h
    cases h
    exact ⟨a, rfl, rfl⟩
  | error failure t =>
    rw [map_of_error hx] at h
    cases h

/-- The state a computation ends in, whether it fails or not. -/
def stateOf : EStateM.Result ε σ α → σ
  | .ok _ s => s
  | .error _ s => s

@[simp] theorem stateOf_map (x : EStateM ε σ α) (f : α → β) (s : σ) :
    stateOf ((f <$> x) s) = stateOf (x s) := by
  cases h : x s with
  | ok a s' => rw [map_of_ok h, stateOf, stateOf]
  | error failure s' => rw [map_of_error h, stateOf, stateOf]

end State

end PageBuilder.Results
