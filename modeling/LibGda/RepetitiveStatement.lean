import LibGda.RunInvariant
import LibGda.SinglyLinked

/-! `GdaRepetitiveStatement`: the sets of values which are appended, and what each reading of them
gives. -/

namespace RunInvariant

theorem everyStep_iff {S A : Type} {step : S → A → S} {P Q : S → A → Prop} {I : S → Prop}
    (hstep : ∀ s a, I s → Q s a → I (step s a)) (hiff : ∀ s a, I s → (P s a ↔ Q s a)) {s : S}
    {as : List A} (hs : I s) : EveryStep step P s as ↔ EveryStep step Q s as := by
  induction as generalizing s with
  | nil => exact Iff.rfl
  | cons a as ih =>
    simp only [EveryStep, hiff s a hs]
    exact and_congr_right fun hq => ih (hstep s a hs hq)

end RunInvariant

namespace LibGda

open SinglyLinked RunInvariant

variable {S : Type}

structure GdaRepetitiveStatement (S : Type) where
  /-- the cells of the `GSList`s, by their addresses -/
  cells : List (Cell S) := []
  valuesSets : Option Nat := none

namespace GdaRepetitiveStatement

/-- `gda_repetitive_statement_append_set`, where `copy` is `gda_set_copy`. -/
def appendSet (copy : S → S) (stmt : GdaRepetitiveStatement S) (values : S) (makeCopy : Bool) :
    GdaRepetitiveStatement S :=
  let set := if makeCopy then copy values else values
  { cells := stmt.cells ++ [⟨set, stmt.valuesSets⟩], valuesSets := some stmt.cells.length }

/-- `gda_repetitive_statement_get_all_sets`: what `g_slist_reverse` gives is copied, but not kept
in `values_sets`. -/
def getAllSets (stmt : GdaRepetitiveStatement S) : List S × GdaRepetitiveStatement S :=
  let reversed := reverse stmt.cells stmt.valuesSets
  (contents reversed.1 reversed.1.length reversed.2, { stmt with cells := reversed.1 })

def heldSets (stmt : GdaRepetitiveStatement S) : List S :=
  contents stmt.cells stmt.cells.length stmt.valuesSets

end GdaRepetitiveStatement

/-- The loop of `gda_connection_repetitive_statement_execute`: the sets which the statement is
executed with, where `answers` tells which executions succeed. -/
def executedSets (answers : Nat → Bool) (stopOnError : Bool) (turn : Nat) : List S → List S
  | [] => []
  | set :: rest =>
    if answers turn = false ∧ stopOnError = true then [set]
    else set :: executedSets answers stopOnError (turn + 1) rest

inductive RepetitiveCall (S : Type) where
  | appendSet (values : S) (makeCopy : Bool)
  | getAllSets
  | execute (answers : Nat → Bool) (stopOnError : Bool)

def RepetitiveCall.reads : RepetitiveCall S → Bool
  | appendSet _ _ => false
  | getAllSets | execute _ _ => true

structure RepetitiveHistory (S : Type) where
  stmt : GdaRepetitiveStatement S := {}
  appended : List S := []

namespace RepetitiveHistory

variable (copy : S → S)

def step (h : RepetitiveHistory S) : RepetitiveCall S → RepetitiveHistory S
  | .appendSet values makeCopy =>
    ⟨h.stmt.appendSet copy values makeCopy,
      h.appended ++ [if makeCopy then copy values else values]⟩
  | .getAllSets | .execute _ _ => ⟨h.stmt.getAllSets.2, h.appended⟩

def GivesAll (h : RepetitiveHistory S) : RepetitiveCall S → Prop
  | .appendSet _ _ => True
  | .getAllSets => h.stmt.getAllSets.1 = h.appended
  | .execute answers stopOnError =>
    executedSets answers stopOnError 0 h.stmt.getAllSets.1 =
      executedSets answers stopOnError 0 h.appended

def NoneLost (h : RepetitiveHistory S) : Prop := h.stmt.heldSets.Perm h.appended

def SetsKept (calls : List (RepetitiveCall S)) : Prop :=
  EveryStep (step copy) (fun h call => h.GivesAll call ∧ (h.step copy call).NoneLost) {} calls

def ReadsFew (calls : List (RepetitiveCall S)) : Prop :=
  EveryStep (step copy) (fun h call => call.reads = true → h.appended.length ≤ 1) {} calls

def Holds (h : RepetitiveHistory S) (sets : List S) : Prop :=
  ∃ chain, Chain h.stmt.cells h.stmt.valuesSets chain ∧ (chain.map Prod.fst).Nodup ∧
    chain.map Prod.snd = sets

variable {h : RepetitiveHistory S} {sets : List S}

theorem Holds.heldSets (hh : h.Holds sets) : h.stmt.heldSets = sets := by
  obtain ⟨chain, hchain, hnodup, rfl⟩ := hh
  exact hchain.contents (hchain.length_le hnodup)

theorem Holds.appendSet (hh : h.Holds sets) (values : S) (makeCopy : Bool) :
    (h.step copy (.appendSet values makeCopy)).Holds
      ((if makeCopy then copy values else values) :: sets) := by
  obtain ⟨chain, hchain, hnodup, rfl⟩ := hh
  refine ⟨_, hchain.prepend _, ?_, rfl⟩
  have hfresh : h.stmt.cells.length ∉ chain.map Prod.fst := by
    intro hmem
    obtain ⟨x, hx, he⟩ := List.mem_map.mp hmem
    have hlt := hchain.lt x hx
    omega
  exact List.nodup_cons.mpr ⟨hfresh, hnodup⟩

theorem Holds.getAllSets (hh : h.Holds sets) : h.stmt.getAllSets.1 = sets.reverse := by
  obtain ⟨chain, hchain, hnodup, rfl⟩ := hh
  have hrev := hchain.reverse hnodup
  have hlen : chain.reverse.length ≤ (reverse h.stmt.cells h.stmt.valuesSets).1.length := by
    simpa [reverse] using hchain.length_le hnodup
  simpa [GdaRepetitiveStatement.getAllSets] using hrev.contents hlen

theorem Holds.read (hh : h.Holds sets) {call : RepetitiveCall S} (hreads : call.reads = true) :
    (h.step copy call).Holds (sets.take 1) := by
  have hstmt : (h.step copy call).stmt = h.stmt.getAllSets.2 := by
    cases call with
    | appendSet values makeCopy => simp [RepetitiveCall.reads] at hreads
    | getAllSets => rfl
    | execute answers stopOnError => rfl
  obtain ⟨chain, hchain, hnodup, rfl⟩ := hh
  unfold Holds
  rw [hstmt]
  cases chain with
  | nil => exact ⟨[], hchain, List.nodup_nil, rfl⟩
  | cons x chain =>
    refine ⟨[x], hchain.reverse_old hnodup, ?_, rfl⟩
    simp

theorem appended_read {call : RepetitiveCall S} (hreads : call.reads = true) :
    (h.step copy call).appended = h.appended := by
  cases call with
  | appendSet values makeCopy => simp [RepetitiveCall.reads] at hreads
  | getAllSets => rfl
  | execute answers stopOnError => rfl

theorem Holds.givesAll (hh : h.Holds h.appended.reverse) (call : RepetitiveCall S) :
    h.GivesAll call := by
  have hread : h.stmt.getAllSets.1 = h.appended := by simpa using hh.getAllSets
  cases call with
  | appendSet values makeCopy => trivial
  | getAllSets => exact hread
  | execute answers stopOnError => simp only [GivesAll, hread]

theorem Holds.noneLost_read (hh : h.Holds h.appended.reverse) {call : RepetitiveCall S}
    (hreads : call.reads = true) :
    (h.step copy call).NoneLost ↔ h.appended.length ≤ 1 := by
  have hheld := (hh.read copy hreads).heldSets
  rw [NoneLost, hheld, appended_read copy hreads]
  constructor
  · intro hperm
    have hlen := hperm.length_eq
    simp only [List.length_take, List.length_reverse] at hlen
    omega
  · intro hlen
    rw [List.take_of_length_le (by simpa using hlen)]
    exact List.reverse_perm h.appended

theorem holds_step {call : RepetitiveCall S} (hh : h.Holds h.appended.reverse)
    (hfew : call.reads = true → h.appended.length ≤ 1) :
    (h.step copy call).Holds (h.step copy call).appended.reverse := by
  cases hreads : call.reads with
  | true =>
    have hlen := hfew hreads
    have hkept := hh.read copy hreads
    rw [List.take_of_length_le (by simpa using hlen)] at hkept
    rwa [appended_read copy hreads]
  | false =>
    cases call with
    | appendSet values makeCopy =>
      have hkept := hh.appendSet copy values makeCopy
      simpa [step] using hkept
    | getAllSets => simp [RepetitiveCall.reads] at hreads
    | execute answers stopOnError => simp [RepetitiveCall.reads] at hreads

theorem kept_iff {call : RepetitiveCall S} (hh : h.Holds h.appended.reverse) :
    (h.GivesAll call ∧ (h.step copy call).NoneLost) ↔
      (call.reads = true → h.appended.length ≤ 1) := by
  have hgives := hh.givesAll call
  cases hreads : call.reads with
  | true => simpa [hgives] using hh.noneLost_read copy hreads
  | false =>
    have hfew : call.reads = true → h.appended.length ≤ 1 := by simp [hreads]
    have hnext := holds_step copy hh hfew
    have hperm : (h.step copy call).NoneLost := by
      rw [NoneLost, hnext.heldSets]
      exact List.reverse_perm _
    simp [hgives, hperm]

/-- The sets are all given and kept, in every sequence of calls, if and only if they are read only
while there is at most one. -/
theorem setsKept_iff (copy : S → S) (calls : List (RepetitiveCall S)) :
    SetsKept copy calls ↔ ReadsFew copy calls := by
  have hnew : ({} : RepetitiveHistory S).Holds [] := ⟨[], rfl, List.nodup_nil, rfl⟩
  exact everyStep_iff (I := fun h => Holds h h.appended.reverse)
    (fun h call hh hfew => holds_step copy hh hfew) (fun h call hh => kept_iff copy hh) hnew

theorem secondReading_differs :
    ¬ SetsKept id [.appendSet 1 false, .appendSet 2 false, .getAllSets, .getAllSets] := by
  intro h
  have hread : [2] = [1, 2] := h.2.2.2.1.1
  exact absurd hread (by decide)

end RepetitiveHistory

end LibGda
