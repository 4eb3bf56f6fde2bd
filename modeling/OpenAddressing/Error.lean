/-!
# Failures and outcomes

The five ways an operation can fail, their messages, and the outcome of an operation on some state.
An outcome carries the state that is left also when the operation fails, so that "a failure changes
nothing" is a statement about the operation and not about the type.
-/

namespace OpenAddressing

universe u v w

/-- Why an operation failed. -/
inductive Error where
  /-- An array of so many slots could not be obtained. -/
  | allocation (slots : Nat)
  /-- No stored entry matches. -/
  | notFound
  /-- None of so many slots was free. -/
  | capacity (slots : Nat)
  /-- An argument is not acceptable, for the reason given. -/
  | invalidInput (reason : String)
  /-- Any other refusal, in its own words. -/
  | generic (text : String)
deriving DecidableEq

/-- The message of a failure. -/
def Error.message : Error → String
  | .allocation slots => "could not allocate " ++ toString slots ++ " slots"
  | .notFound => "key not found"
  | .capacity slots => "no free slot within " ++ toString slots ++ " probe steps"
  | .invalidInput reason => "invalid input: " ++ reason
  | .generic text => text

/-- What an operation answers, and the state it leaves behind, also when it fails. -/
structure Outcome (σ : Type u) (β : Type v) where
  /-- The answer, or why there is none. -/
  answer : Except Error β
  /-- The state afterwards. -/
  state : σ

namespace Outcome

variable {σ : Type u} {β : Type v} {γ : Type w}

/-- Goes on with the answer and the state, unless the operation failed. -/
@[inline] def andThen (o : Outcome σ β) (next : β → σ → Outcome σ γ) : Outcome σ γ :=
  match o with
  | ⟨.ok b, s⟩ => next b s
  | ⟨.error e, s⟩ => ⟨.error e, s⟩

@[simp] theorem andThen_ok (b : β) (s : σ) (next : β → σ → Outcome σ γ) :
    andThen ⟨.ok b, s⟩ next = next b s := rfl

@[simp] theorem andThen_error (e : Error) (s : σ) (next : β → σ → Outcome σ γ) :
    andThen ⟨.error e, s⟩ next = ⟨.error e, s⟩ := rfl

end Outcome

end OpenAddressing
