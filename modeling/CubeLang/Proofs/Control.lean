/-!
# Steps that change a state and may fail

Edits, readers and scripts are such steps. What two of them do one after the other is what the
second does after the first, or the failure of the first.
-/

set_option autoImplicit false

namespace CubeLang

variable {ε σ α β : Type} {x : EStateM ε σ α} {f : α → EStateM ε σ β} {s s' : σ}

theorem bind_of_ok {a : α} (h : x s = .ok a s') : (x >>= f) s = f a s' := by
  simp only [bind, EStateM.bind, h]

theorem bind_of_error {e : ε} (h : x s = .error e s') : (x >>= f) s = .error e s' := by
  simp only [bind, EStateM.bind, h]

/-- If two steps succeed one after the other, each of them does. -/
theorem exists_of_bind_eq_ok {b : β} (h : (x >>= f) s = .ok b s') :
    ∃ a s'', x s = .ok a s'' ∧ f a s'' = .ok b s' := by
  simp only [bind, EStateM.bind] at h
  split at h
  · rename_i a s'' hx
    exact ⟨a, s'', hx, h⟩
  · contradiction

/-- A loop without an exit does its step for the first item and then for the others. -/
theorem forIn_cons_of_ok (body : α → EStateM ε σ PUnit) {a : α} {as : List α}
    (h : body a s = .ok ⟨⟩ s') :
    (forIn (a :: as) PUnit.unit fun a _ => do
        body a
        pure (ForInStep.yield PUnit.unit) : EStateM ε σ PUnit) s =
      (forIn as PUnit.unit fun a _ => do
        body a
        pure (ForInStep.yield PUnit.unit) : EStateM ε σ PUnit) s' := by
  have hbody : (do body a; pure (ForInStep.yield PUnit.unit)) s =
      EStateM.Result.ok (ForInStep.yield PUnit.unit) s' := by
    rw [bind_of_ok h]
    rfl
  rw [List.forIn_cons, bind_of_ok hbody]

/-! ## How a step ends -/

/-- What a step gives, without the state. -/
def outcome : EStateM.Result ε σ α → Except ε α
  | .ok a _ => .ok a
  | .error e _ => .error e

/-- The state in which a step ends, successful or not. -/
def stateAfter : EStateM.Result ε σ α → σ
  | .ok _ s => s
  | .error _ s => s

/-- A step that fails leaves the state as it was. -/
def Atomic (x : EStateM ε σ α) : Prop :=
  ∀ s e s', x s = .error e s' → s' = s

/-- A step keeps a property of the state, also when it fails. -/
def Keeps (I : σ → Prop) (x : EStateM ε σ α) : Prop :=
  ∀ s, I s → I (stateAfter (x s))

/-- What each of two steps keeps, both of them keep, wherever they end. -/
theorem Keeps.bind {I : σ → Prop} (hx : Keeps I x) (hf : ∀ a, Keeps I (f a)) :
    Keeps I (x >>= f) := by
  intro s hs
  have hfirst := hx s hs
  cases hrun : x s with
  | ok a s' =>
    rw [hrun] at hfirst
    rw [bind_of_ok hrun]
    exact hf a s' hfirst
  | error e s' =>
    rw [hrun] at hfirst
    rw [bind_of_error hrun]
    exact hfirst

theorem exists_eq_ok_of_isOk {r : EStateM.Result ε σ α} (h : (outcome r).isOk = true) :
    ∃ a s, r = .ok a s := by
  cases r with
  | ok a s => exact ⟨a, s, rfl⟩
  | error e s => contradiction

theorem exists_of_outcome_eq_ok {r : EStateM.Result ε σ α} {a : α} (h : outcome r = .ok a) :
    ∃ s, r = .ok a s := by
  cases r with
  | ok b s =>
    obtain rfl := Except.ok.inj h
    exact ⟨s, rfl⟩
  | error e s => contradiction

theorem exists_eq_error_of_isOk {r : EStateM.Result ε σ α} (h : (outcome r).isOk = false) :
    ∃ e s, r = .error e s := by
  cases r with
  | ok a s => contradiction
  | error e s => exact ⟨e, s, rfl⟩

end CubeLang
