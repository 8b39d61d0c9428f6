import Mathlib.Logic.Relation

/-! Runs of a machine whose steps may fail, and the induction which carries an
invariant along a run. -/

namespace RunInvariant

variable {S A E : Type}

def run (step : S → A → Except E S) : S → List A → Except E S
  | s, [] => .ok s
  | s, a :: as => do run step (← step s a) as

/-- Every step of the sequence meets a condition in the state where it is taken. -/
def StepsMeet (step : S → A → Except E S) (condition : S → A → Prop) : S → List A → Prop
  | _, [] => True
  | s, a :: as => condition s a ∧ ∀ t, step s a = .ok t → StepsMeet step condition t as

theorem stepsMeet_true {step : S → A → Except E S} (as : List A) (s : S) :
    StepsMeet step (fun _ _ => True) s as := by
  induction as generalizing s with
  | nil => trivial
  | cons a as ih => exact ⟨trivial, fun t _ => ih t⟩

instance {step : S → A → Except E S} {condition : S → A → Prop}
    [∀ s a, Decidable (condition s a)] : ∀ s as, Decidable (StepsMeet step condition s as)
  | _, [] => isTrue trivial
  | s, a :: as =>
    match h : step s a with
    | .error e => decidable_of_iff (condition s a)
        ⟨fun hc => ⟨hc, fun t ht => by rw [h] at ht; cases ht⟩, fun hc => hc.1⟩
    | .ok t =>
      have : Decidable (StepsMeet step condition t as) := instDecidableStepsMeet t as
      decidable_of_iff (condition s a ∧ StepsMeet step condition t as)
        ⟨fun hc => ⟨hc.1, fun u hu => Except.ok.inj (h.symm.trans hu) ▸ hc.2⟩,
          fun hc => ⟨hc.1, hc.2 t h⟩⟩

theorem bind_ok {α β : Type} {x : Except E α} {f : α → Except E β} {b : β}
    (h : x >>= f = .ok b) : ∃ a, x = .ok a ∧ f a = .ok b := by
  cases x with
  | error e => cases h
  | ok a => exact ⟨a, rfl, h⟩

theorem pair_ok {α β : Type} {a a' : α} {b b' : β}
    (h : (.ok (a, b) : Except E (α × β)) = .ok (a', b')) : a = a' ∧ b = b' :=
  Prod.mk.inj (Except.ok.inj h)

theorem bind_isOk {α β : Type} {x : Except E α} {f : α → Except E β} {a : α} (hx : x = .ok a)
    (hf : ∃ b, f a = .ok b) : ∃ b, x >>= f = .ok b := by
  subst hx
  exact hf

theorem bind_of_ok {α β : Type} {x : Except E α} {f : α → Except E β} {a : α} {b : β}
    (hx : x = .ok a) (hf : f a = .ok b) : x >>= f = .ok b := by
  subst hx
  exact hf

theorem map_ok {α β : Type} {x : Except E α} {f : α → β} {b : β} (h : x.map f = .ok b) :
    ∃ a, x = .ok a ∧ f a = b := by
  cases x with
  | error e => cases h
  | ok a => exact ⟨a, rfl, Except.ok.inj h⟩

theorem run_invariant {step : S → A → Except E S} {condition : S → A → Prop} {I : S → Prop}
    (hstep : ∀ s a t, I s → condition s a → step s a = .ok t → I t) {s t : S} {as : List A}
    (hs : I s) (hc : StepsMeet step condition s as) (hr : run step s as = .ok t) : I t := by
  induction as generalizing s with
  | nil =>
    obtain rfl := Except.ok.inj hr
    exact hs
  | cons a as ih =>
    obtain ⟨u, hu, hrest⟩ := bind_ok hr
    exact ih (hstep s a u hs hc.1 hu) (hc.2 u hu) hrest

theorem foldlM_keeps {α β : Type} {f : β → α → Except E β} {P : β → Prop} {as : List α} {b c : β}
    (hstep : ∀ b, ∀ a ∈ as, ∀ c, P b → f b a = .ok c → P c) (hb : P b)
    (hc : as.foldlM f b = .ok c) : P c := by
  induction as generalizing b with
  | nil =>
    obtain rfl := Except.ok.inj hc
    exact hb
  | cons a as ih =>
    rw [List.foldlM_cons] at hc
    obtain ⟨u, hu, hrest⟩ := bind_ok hc
    exact ih (fun b a' ha' => hstep b a' (List.mem_cons_of_mem a ha'))
      (hstep b a (List.mem_cons_self ..) u hb hu) hrest

theorem run_simulates {T : Type} {step : S → A → Except E S} {condition : S → A → Prop}
    {next : T → A → T} {R : S → T → Prop}
    (hstep : ∀ s t a, R s t → condition s a → ∃ s', step s a = .ok s' ∧ R s' (next t a))
    {s : S} {t : T} {as : List A} (hs : R s t) (hc : StepsMeet step condition s as) :
    ∃ s', run step s as = .ok s' ∧ R s' (as.foldl next t) := by
  induction as generalizing s t with
  | nil => exact ⟨s, rfl, hs⟩
  | cons a as ih =>
    obtain ⟨u, hu, hrel⟩ := hstep s t a hs hc.1
    obtain ⟨s', hrun, hlast⟩ := ih hrel (hc.2 u hu)
    refine ⟨s', ?_, hlast⟩
    rw [run, hu]
    exact hrun

theorem run_keeps {step : S → A → Except E S} {condition : S → A → Prop} {I : S → Prop}
    (hstep : ∀ s a, I s → condition s a → ∃ t, step s a = .ok t ∧ I t) {s : S} {as : List A}
    (hs : I s) (hc : StepsMeet step condition s as) : ∃ t, run step s as = .ok t ∧ I t := by
  have hrel : ∀ (s : S) (_ : Unit) (a : A), I s → condition s a → ∃ t, step s a = .ok t ∧ I t :=
    fun s _ a => hstep s a
  exact @run_simulates S A E Unit step condition (fun _ _ => ()) (fun s _ => I s) hrel s () as hs hc

/-- Each step of a sequence has a property, in the state where it is taken. -/
def EveryStep (step : S → A → S) (P : S → A → Prop) : S → List A → Prop
  | _, [] => True
  | s, a :: as => P s a ∧ EveryStep step P (step s a) as

instance {step : S → A → S} {P : S → A → Prop} [∀ s a, Decidable (P s a)] :
    ∀ s as, Decidable (EveryStep step P s as)
  | _, [] => isTrue trivial
  | s, a :: as =>
    have : Decidable (EveryStep step P (step s a) as) := instDecidableEveryStep (step s a) as
    inferInstanceAs (Decidable (_ ∧ _))

/-- A computation does not fail in a way which `bad` tells. -/
def Avoids {α : Type} (bad : E → Prop) (x : Except E α) : Prop :=
  ∀ e, x = .error e → ¬ bad e

section Avoids

variable {α β : Type} {bad : E → Prop}

theorem avoids_ok (a : α) : Avoids bad (.ok a : Except E α) :=
  fun e h => by cases h

theorem avoids_error {e : E} (h : ¬ bad e) : Avoids bad (.error e : Except E α) :=
  fun e' h' => by
    obtain rfl := Except.error.inj h'
    exact h

theorem Avoids.bind {x : Except E α} {f : α → Except E β} (hx : Avoids bad x)
    (hf : ∀ a, x = .ok a → Avoids bad (f a)) : Avoids bad (x >>= f) := by
  cases x with
  | error e =>
    intro e' h
    have he : e = e' := Except.error.inj h
    exact hx e' (congrArg Except.error he)
  | ok a => exact hf a rfl

theorem Avoids.map {x : Except E α} (hx : Avoids bad x) (f : α → β) : Avoids bad (x.map f) := by
  cases x with
  | error e =>
    intro e' h
    exact hx e' (congrArg Except.error (Except.error.inj h))
  | ok a => exact avoids_ok _

theorem avoids_mapM {f : α → Except E β} (hf : ∀ a, Avoids bad (f a)) (as : List α) :
    Avoids bad (as.mapM f) := by
  induction as with
  | nil =>
    rw [List.mapM_nil]
    exact avoids_ok _
  | cons a as ih =>
    rw [List.mapM_cons]
    exact (hf a).bind fun b _ => ih.bind fun bs _ => avoids_ok _

end Avoids

end RunInvariant
