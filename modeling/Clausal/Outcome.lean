set_option autoImplicit false

namespace Clausal

theorem ok_bind {ε α β : Type} (value : α) (next : α → Except ε β) :
    Except.ok value >>= next = next value := rfl

theorem error_bind {ε α β : Type} (cause : ε) (next : α → Except ε β) :
    (Except.error cause : Except ε α) >>= next = .error cause := rfl

theorem bind_eq_ok {ε α β : Type} (first : Except ε α) (next : α → Except ε β) (result : β) :
    first >>= next = .ok result ↔ ∃ value, first = .ok value ∧ next value = .ok result := by
  cases first with
  | error cause => simp [error_bind]
  | ok value => simp [ok_bind]

def failWith {ε : Type} : Option ε → Except ε Unit
  | none => .ok ()
  | some cause => .error cause

theorem failWith_eq_ok {ε : Type} (cause : Option ε) : failWith cause = .ok () ↔ cause = none := by
  cases cause <;> simp [failWith]

end Clausal
