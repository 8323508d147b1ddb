/-!
# What work comes to

Work on a state gives a value or stops at a fault, and in both cases leaves a state. The statements here open one piece of work that is
followed by another, so that no later proof has to unfold how the two are put together.

Two runs of the same work are compared by a relation of states: work respects the relation when from related states it comes to the same
value or fault and to related states (`Respects`).
-/

namespace Prepass

section

variable {ε σ α β : Type} {x : EStateM ε σ α} {f : α → EStateM ε σ β} {s s' : σ}

/-- The state that work leaves, whether it gives a value or stops at a fault. -/
def stateAfter : EStateM.Result ε σ α → σ
  | .ok _ s => s
  | .error _ s => s

/-- The state with a value is the one after it. -/
@[simp]
theorem stateAfter_ok (a : α) (s : σ) : stateAfter (.ok a s : EStateM.Result ε σ α) = s := rfl

/-- The state with a fault is the one after it. -/
@[simp]
theorem stateAfter_error (e : ε) (s : σ) : stateAfter (.error e s : EStateM.Result ε σ α) = s := rfl

/-- A value leaves the state. -/
@[simp]
theorem pure_apply (a : α) (s : σ) : (pure a : EStateM ε σ α) s = .ok a s := rfl

/-- What work comes to, with its value changed. -/
def mapResult (g : α → β) : EStateM.Result ε σ α → EStateM.Result ε σ β
  | .ok a s => .ok (g a) s
  | .error e s => .error e s

/-- A value is changed twice, or once by both. -/
theorem mapResult_mapResult {γ : Type} (g : α → β) (k : β → γ) (r : EStateM.Result ε σ α) :
    mapResult k (mapResult g r) = mapResult (fun a => k (g a)) r := by
  cases r <;> rfl

/-- Changing the value does not change the state. -/
@[simp]
theorem stateAfter_mapResult (g : α → β) (r : EStateM.Result ε σ α) : stateAfter (mapResult g r) = stateAfter r := by
  cases r <;> rfl

/-- Work gives a value when it leaves a state with it. -/
theorem run'_eq_some {a : α} : x.run' s = some a ↔ ∃ s', x s = .ok a s' := by
  unfold EStateM.run' EStateM.run
  cases x s <;> simp

/-- What is seen of the value is seen of the one that work gives. -/
theorem map_run'_eq_some {γ : Type} {g : α → γ} {c : γ} : (x.run' s).map g = some c ↔ ∃ a s', x s = .ok a s' ∧ g a = c := by
  rw [Option.map_eq_some_iff]
  simp only [run'_eq_some]
  constructor
  · rintro ⟨a, ⟨s', hx⟩, hg⟩
    exact ⟨a, s', hx, hg⟩
  · rintro ⟨a, s', hx, hg⟩
    exact ⟨a, ⟨s', hx⟩, hg⟩

/-- After a value the other work goes on with it. -/
theorem bind_of_ok {a : α} (h : x s = .ok a s') : (x >>= f) s = f a s' := by
  show EStateM.bind x f s = f a s'
  rw [EStateM.bind, h]

/-- After a fault the other work is left out. -/
theorem bind_of_error {e : ε} (h : x s = .error e s') : (x >>= f) s = .error e s' := by
  show EStateM.bind x f s = .error e s'
  rw [EStateM.bind, h]

/-- Work that gives a value has given one after its first part, and the other part has gone on from there. -/
theorem exists_of_bind_ok {b : β} (h : (x >>= f) s = .ok b s') : ∃ a s₁, x s = .ok a s₁ ∧ f a s₁ = .ok b s' := by
  cases hx : x s with
  | ok a s₁ =>
    rw [bind_of_ok hx] at h
    exact ⟨a, s₁, rfl, h⟩
  | error e s₁ =>
    rw [bind_of_error hx] at h
    cases h

/-- Work that stops at a fault has stopped at it in its first part, or that has given a value and the other part has stopped. -/
theorem exists_of_bind_error {e : ε} (h : (x >>= f) s = .error e s') :
    x s = .error e s' ∨ ∃ a s₁, x s = .ok a s₁ ∧ f a s₁ = .error e s' := by
  cases hx : x s with
  | ok a s₁ =>
    rw [bind_of_ok hx] at h
    exact .inr ⟨a, s₁, rfl, h⟩
  | error e s₁ =>
    rw [bind_of_error hx] at h
    cases h
    exact .inl rfl

/-- What follows goes on the same after work that comes to the same from another state. -/
theorem bind_of_eq {y : EStateM ε σ α} (h : x s = y s') : (x >>= f) s = (y >>= f) s' := by
  show EStateM.bind x f s = EStateM.bind y f s'
  rw [EStateM.bind, EStateM.bind, h]

/-- Work is the same as other work when its first part is, and the second part goes on the same from there. -/
theorem bind_eq_bind {x' : EStateM ε σ α} {f' : α → EStateM ε σ β} (hx : x s = x' s)
    (hf : ∀ a s', x' s = .ok a s' → f a s' = f' a s') : (x >>= f) s = (x' >>= f') s := by
  cases hs : x' s with
  | ok a s' => rw [bind_of_ok (hx.trans hs), bind_of_ok hs, hf a s' hs]
  | error e s' => rw [bind_of_error (hx.trans hs), bind_of_error hs]

end

/-! ## Two runs -/

section

variable {ε σ α β : Type} {R : σ → σ → Prop}

/-- What work comes to in two runs: the same value or the same fault, in related states. -/
inductive Matches (R : σ → σ → Prop) : EStateM.Result ε σ α → EStateM.Result ε σ α → Prop
  | ok (a : α) {s s' : σ} (h : R s s') : Matches R (.ok a s) (.ok a s')
  | error (e : ε) {s s' : σ} (h : R s s') : Matches R (.error e s) (.error e s')

/-- Work that comes to the same from related states. -/
def Respects (R : σ → σ → Prop) (w : EStateM ε σ α) : Prop :=
  ∀ s s', R s s' → Matches R (w s) (w s')

/-- Both runs give the same value, or both stop at the same fault. -/
theorem Matches.cases {r r' : EStateM.Result ε σ α} (h : Matches R r r') :
    (∃ a s s', r = .ok a s ∧ r' = .ok a s' ∧ R s s') ∨ ∃ e s s', r = .error e s ∧ r' = .error e s' ∧ R s s' := by
  cases h with
  | ok a h => exact .inl ⟨a, _, _, rfl, rfl, h⟩
  | error e h => exact .inr ⟨e, _, _, rfl, rfl, h⟩

/-- Work in a row comes to the same in two runs when its first part does, and the rest from there. -/
theorem Matches.bind {w w' : EStateM ε σ α} {f f' : α → EStateM ε σ β} {s s' : σ} (h : Matches R (w s) (w' s'))
    (hf : ∀ a s₁ s₁', R s₁ s₁' → Matches R (f a s₁) (f' a s₁')) : Matches R ((w >>= f) s) ((w' >>= f') s') := by
  rcases h.cases with ⟨a, s₁, s₁', hw, hw', hR⟩ | ⟨e, s₁, s₁', hw, hw', hR⟩
  · rw [bind_of_ok hw, bind_of_ok hw']
    exact hf a s₁ s₁' hR
  · rw [bind_of_error hw, bind_of_error hw']
    exact .error e hR

namespace Respects

/-- A value is the same from all states. -/
theorem pure (a : α) : Respects R (Pure.pure a : EStateM ε σ α) :=
  fun _ _ h => .ok a h

/-- A fault is the same from all states. -/
theorem throw (e : ε) : Respects R (throw e : EStateM ε σ α) :=
  fun _ _ h => .error e h

/-- Work in a row comes to the same when each part of it does. -/
theorem bind {w : EStateM ε σ α} {f : α → EStateM ε σ β} (hw : Respects R w) (hf : ∀ a, Respects R (f a)) :
    Respects R (w >>= f) :=
  fun s s' h => (hw s s' h).bind fun a => hf a

end Respects

end

end Prepass
