/-!
Steps that give a value or fail, and change a state either way. A failure does not undo what was
done to the state before it.
-/
namespace LuaSearch

abbrev Machine (ε σ : Type) := ExceptT ε (StateM σ)

namespace Machine

variable {ε σ α β : Type}

/-- How the step ends from the state, and the state that it leaves. -/
def runOn (step : Machine ε σ α) (state : σ) : Except ε α × σ := StateT.run step.run state

@[simp] theorem runOn_pure (a : α) (state : σ) :
    (pure a : Machine ε σ α).runOn state = (.ok a, state) := rfl

@[simp] theorem runOn_throw (e : ε) (state : σ) :
    (throw e : Machine ε σ α).runOn state = (.error e, state) := rfl

@[simp] theorem runOn_get (state : σ) :
    (get : Machine ε σ σ).runOn state = (.ok state, state) := rfl

@[simp] theorem runOn_modify (f : σ → σ) (state : σ) :
    (modify f : Machine ε σ Unit).runOn state = (.ok (), f state) := rfl

@[simp] theorem runOn_finally (step : Machine ε σ α) (f : σ → σ) (state : σ) :
    (try step finally modify f : Machine ε σ α).runOn state =
      ((step.runOn state).1, f (step.runOn state).2) := by
  rcases ran : step.runOn state with ⟨_ | a, after⟩ <;>
  · simp only [runOn, StateT.run, ExceptT.run] at ran ⊢
    simp only [tryFinally, tryFinally', Functor.map, ExceptT.map, ExceptT.mk, StateT.bind, bind,
      pure, ran]
    rfl

theorem runOn_bind_ok {step : Machine ε σ α} {state after : σ} {a : α}
    (next : α → Machine ε σ β) (ran : step.runOn state = (.ok a, after)) :
    (step >>= next).runOn state = (next a).runOn after := by
  simp only [runOn, StateT.run, ExceptT.run] at ran ⊢
  simp [bind, ExceptT.bind, ExceptT.mk, StateT.bind, ran, ExceptT.bindCont]

theorem runOn_bind_error {step : Machine ε σ α} {state after : σ} {e : ε}
    (next : α → Machine ε σ β) (ran : step.runOn state = (.error e, after)) :
    (step >>= next).runOn state = (.error e, after) := by
  simp only [runOn, StateT.run, ExceptT.run] at ran ⊢
  simp only [bind, ExceptT.bind, ExceptT.mk, StateT.bind, ran, ExceptT.bindCont]
  rfl

theorem exists_of_runOn_bind {step : Machine ε σ α} {next : α → Machine ε σ β} {state final : σ}
    {b : β} (ran : (step >>= next).runOn state = (.ok b, final)) :
    ∃ a after, step.runOn state = (.ok a, after) ∧ (next a).runOn after = (.ok b, final) := by
  rcases started : step.runOn state with ⟨_ | a, after⟩
  · rw [runOn_bind_error next started] at ran
    cases ran
  · rw [runOn_bind_ok next started] at ran
    exact ⟨a, after, rfl, ran⟩

end Machine

end LuaSearch
