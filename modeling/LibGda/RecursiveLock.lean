import Mathlib.Algebra.Order.Ring.Int

/-! A recursive lock which threads take and leave in any order of their steps. -/

namespace RecursiveLock

inductive Event where
  | lock
  | unlock
  deriving DecidableEq

def Event.weight : Event → Int
  | lock => 1
  | unlock => -1

/-- How many times more a thread holds the lock after the events than before. -/
def net (events : List Event) : Int := (events.map Event.weight).sum

@[simp] theorem net_cons (e : Event) (events : List Event) :
    net (e :: events) = e.weight + net events := by
  simp [net]

@[simp] theorem net_append (events events' : List Event) :
    net (events ++ events') = net events + net events' := by
  simp [net]

/-- How many times each thread holds the lock, and the events left of the calls it is in. -/
structure State (T : Type) where
  held : T → Nat
  pending : T → List Event

/-- A thread may start a call within a call. -/
inductive Step {T : Type} [DecidableEq T] (calls : Set (List Event)) : State T → State T → Prop
  | call {s : State T} (t : T) (events : List Event) (h : events ∈ calls) :
    Step calls s ⟨s.held, Function.update s.pending t (events ++ s.pending t)⟩
  | lock {s : State T} (t : T) (rest : List Event) (hpending : s.pending t = .lock :: rest)
    (hothers : ∀ u, u ≠ t → s.held u = 0) :
    Step calls s ⟨Function.update s.held t (s.held t + 1), Function.update s.pending t rest⟩
  | unlock {s : State T} (t : T) (rest : List Event) (hpending : s.pending t = .unlock :: rest)
    (hheld : 0 < s.held t) :
    Step calls s ⟨Function.update s.held t (s.held t - 1), Function.update s.pending t rest⟩

/-- What each thread holds is what its calls will give back. -/
def Matched {T : Type} (s : State T) : Prop := ∀ t, (s.held t : Int) + net (s.pending t) = 0

variable {T : Type} [DecidableEq T] {calls : Set (List Event)} {s s' : State T}

theorem Matched.update (hs : Matched s) (t : T) {held : Nat} {pending : List Event}
    (h : (held : Int) + net pending = 0) :
    Matched ⟨Function.update s.held t held, Function.update s.pending t pending⟩ := by
  intro u
  by_cases hu : u = t
  · subst hu
    simpa using h
  · simpa [hu] using hs u

theorem Matched.step (hcalls : ∀ events ∈ calls, net events = 0) (hs : Matched s)
    (h : Step calls s s') : Matched s' := by
  cases h with
  | call t events hmem =>
    have ht := hs t
    have hnet := hcalls events hmem
    have hsum : (s.held t : Int) + net (events ++ s.pending t) = 0 := by
      rw [net_append]
      omega
    have hupdate := hs.update t hsum
    rwa [Function.update_eq_self] at hupdate
  | lock t rest hpending hothers =>
    have ht := hs t
    rw [hpending, net_cons, Event.weight] at ht
    exact hs.update t (by push_cast; omega)
  | unlock t rest hpending hheld =>
    have ht := hs t
    rw [hpending, net_cons, Event.weight] at ht
    exact hs.update t (by omega)

def Exclusive {T : Type} (s : State T) : Prop := ∀ t, 0 < s.held t → ∀ u, u ≠ t → s.held u = 0

theorem Exclusive.step (hs : Exclusive s) (h : Step calls s s') : Exclusive s' := by
  cases h with
  | call t events hmem => exact hs
  | lock t rest hpending hothers =>
    intro u hu v hv
    have hut : u = t := by
      by_contra hne
      simp [hne, hothers u hne] at hu
    subst hut
    simpa [hv] using hothers v hv
  | unlock t rest hpending hheld =>
    intro u hu v hv
    have hut : u = t := by
      by_contra hne
      simp [hne, hs t hheld u hne] at hu
    subst hut
    simpa [hv] using hs u hheld v hv

end RecursiveLock
