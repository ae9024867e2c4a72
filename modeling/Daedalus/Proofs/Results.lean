/-! # Results of steps that may fail

How a result that was reached step by step is taken apart. -/

namespace Daedalus

variable {ε α β : Type}

/-- A value without its reason is the value. -/
theorem eq_ok_of_toOption {result : Except ε α} {a : α} (h : result.toOption = some a) :
    result = .ok a := by
  cases result with
  | error fault => cases h
  | ok a' => exact congrArg Except.ok (Option.some.inj h)

/-- What a map of a result gives comes from a value. -/
theorem exists_of_map_eq_ok {f : α → β} {result : Except ε α} {b : β}
    (h : f <$> result = .ok b) : ∃ a, result = .ok a ∧ f a = b := by
  cases result with
  | error fault => cases h
  | ok a => exact ⟨a, rfl, Except.ok.inj h⟩

/-- A map of a result fails as the result does. -/
theorem eq_error_of_map {f : α → β} {result : Except ε α} {fault : ε}
    (h : f <$> result = .error fault) : result = .error fault := by
  cases result with
  | error other => exact congrArg Except.error (Except.error.inj h)
  | ok a => cases h

/-- Two steps that give a value both do. -/
theorem exists_of_bind_eq_ok {result : Except ε α} {f : α → Except ε β} {b : β}
    (h : result >>= f = .ok b) : ∃ a, result = .ok a ∧ f a = .ok b := by
  cases result with
  | error fault => cases h
  | ok a => exact ⟨a, rfl, h⟩

end Daedalus
