import Mathlib.Logic.Basic

/-! Inversion of fallible computations. -/

set_option autoImplicit false

namespace FrankenEngine.Library

variable {ε α β : Type}

theorem bind_ok {computation : Except ε α} {next : α → Except ε β} {result : β}
    (accepted : computation >>= next = .ok result) :
    ∃ value, computation = .ok value ∧ next value = .ok result := by
  cases computation with
  | error error => cases accepted
  | ok value => exact ⟨value, rfl, accepted⟩

theorem bind_ok_iff {computation : Except ε α} {next : α → Except ε β} {result : β} :
    computation >>= next = .ok result ↔
      ∃ value, computation = .ok value ∧ next value = .ok result := by
  refine ⟨bind_ok, ?_⟩
  rintro ⟨value, rfl, accepted⟩
  exact accepted

theorem else_ok_iff {refused : Prop} [Decidable refused] {error : ε} {rest : Except ε α}
    {result : α} : (if refused then .error error else rest) = .ok result ↔
      ¬ refused ∧ rest = .ok result := by
  by_cases held : refused <;> simp [held]

theorem exists_of_isOk {computation : Except ε α} (accepted : computation.isOk = true) :
    ∃ value, computation = .ok value := by
  cases computation with
  | error error => cases accepted
  | ok value => exact ⟨value, rfl⟩

@[simp] theorem ok_bind (value : α) (next : α → Except ε β) :
    (Except.ok value >>= next) = next value := rfl

@[simp] theorem error_bind (error : ε) (next : α → Except ε β) :
    (Except.error error >>= next) = .error error := rfl

theorem error_of_map {outcome : Except ε α} {change : α → β} {error : ε}
    (failed : outcome.map change = .error error) : outcome = .error error := by
  cases outcome with
  | error => exact congrArg _ (Except.error.inj failed)
  | ok => cases failed

theorem seq_ok_iff {first : Except ε Unit} {second : Except ε β} {result : β} :
    (first >>= fun _ => second) = .ok result ↔ first = .ok () ∧ second = .ok result := by
  rw [bind_ok_iff]
  exact ⟨fun ⟨_, accepted⟩ => accepted, fun accepted => ⟨(), accepted⟩⟩

end FrankenEngine.Library
