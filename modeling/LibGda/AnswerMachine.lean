/-! Machines which answer calls: two of them answer alike along a run when a relation between their
states is kept by every call which is allowed. -/

namespace AnswerMachine

variable {S T E A : Type}

def answers (step : S → E → A × S) : S → List E → List A
  | _, [] => []
  | s, e :: es => (step s e).1 :: answers step (step s e).2 es

/-- Each call is allowed in the state where it is made. -/
def AllAllowed (step : S → E → A × S) (allowed : S → E → Prop) : S → List E → Prop
  | _, [] => True
  | s, e :: es => allowed s e ∧ AllAllowed step allowed (step s e).2 es

def AlikeStep (step : S → E → A × S) (step' : T → E → A × T) (allowed : T → E → Prop)
    (related : S → T → Prop) : Prop :=
  ∀ s t e, related s t → allowed t e →
    (step s e).1 = (step' t e).1 ∧ related (step s e).2 (step' t e).2

variable {step : S → E → A × S} {step' : T → E → A × T} {allowed : T → E → Prop}
  {related : S → T → Prop}

theorem answers_eq (hstep : AlikeStep step step' allowed related) {es : List E} {s : S} {t : T}
    (hrelated : related s t) (hallowed : AllAllowed step' allowed t es) :
    answers step s es = answers step' t es := by
  induction es generalizing s t with
  | nil => rfl
  | cons e es ih =>
    obtain ⟨hanswer, hrelated'⟩ := hstep s t e hrelated hallowed.1
    rw [answers, answers, hanswer, ih hrelated' hallowed.2]

end AnswerMachine
