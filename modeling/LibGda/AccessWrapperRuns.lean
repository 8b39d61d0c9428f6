import LibGda.AccessWrapperReads

/-! Runs of calls on a `GdaDataAccessWrapper`: which of them read what the wrapped data
model has. -/

namespace LibGda

open RunInvariant

variable {V : Type} {k : Nat}

namespace AccessWrapper

theorem Sound.getNRows {w : AccessWrapper V k} (h : w.Sound) (hm : w.access ≠ .cursorBackward) :
    w.getNRows.1.Sound ∧ Frame w w.getNRows.1 ∧ w.getNRows.2 = w.content.length := by
  have hcount : ∀ {u : AccessWrapper V k}, Follows w u → ∀ {n : Int}, n = w.content.length →
      Sound { u with nbRows := n } ∧ Frame w { u with nbRows := n } ∧ n = w.content.length := by
    intro u hu n hn
    have hagrees := hu.1.agrees
    refine ⟨⟨⟨hagrees.columns_lt, hagrees.nbCols, .inr ?_, hagrees.kept, hagrees.ended,
      hagrees.position, hagrees.low, hagrees.unmoved, hagrees.last, hagrees.idle⟩, ?_⟩,
      ⟨hu.2.content, hu.2.access, hu.2.rowsMapping⟩, hn⟩
    · rw [hn, ← hu.2.content]
    · intro hf hb
      have hkeeps := hu.1.keepsAll hf hb
      exact ⟨hkeeps.latest, hkeeps.start, hkeeps.all⟩
  have hstart : Follows w w := ⟨h, .refl w⟩
  simp only [AccessWrapper.getNRows]
  split
  · next hpos =>
    refine ⟨h, .refl w, ?_⟩
    rcases h.agrees.counted with hneg | heq
    · omega
    · exact heq
  · split
    · exact hcount hstart rfl
    · next hrandom =>
      have hf : w.access.forward = true := by
        by_contra hf
        exact hm (WrappedAccess.eq_cursorBackward (by simpa using hf) hrandom)
      have hfollows : Follows w (moveWhile (fun w => !w.endOfData) AccessWrapper.moveNext
          w.loopBound w) :=
        moveWhile_keeps (P := Follows w) (fun u hu => hu.moveNext) _ hstart
      have hend : (moveWhile (fun w => !w.endOfData) AccessWrapper.moveNext
          w.loopBound w).endOfData = true := by
        have hends := moveWhile_ends (P := Follows w) (fun w => !w.endOfData)
          AccessWrapper.moveNext ahead (fun u hu => hu.moveNext)
          (fun u _ _ hm => ahead_moveNext hm) hstart w.ahead_lt_loopBound
        rcases hends with hc | ⟨u, hu, _, hmove, heq⟩
        · simpa using hc
        · rw [heq]
          exact hu.1.agrees.moveNext_false (by rw [hu.2.access, hf]) hmove
      have hlast := hfollows.1.agrees.last hend
      rw [hfollows.2.content] at hlast
      apply hcount hfollows
      rw [if_pos hend, hlast]
      omega

theorem existingColumns_lt {mapping : List Int} {c : Nat} (h : c ∈ existingColumns k mapping) :
    c < k := by
  obtain ⟨nb, _, hnb⟩ := List.mem_filterMap.mp h
  cases nb with
  | ofNat col =>
    simp only at hnb
    split at hnb
    · next hlt =>
      obtain rfl := Option.some.inj hnb
      exact hlt
    · cases hnb
  | negSucc col => cases hnb

def shownColumns (k : Nat) : Option (List Int) → List Nat
  | none | some [] => List.range k
  | some mapping => existingColumns k mapping

theorem Sound.setColumns {w : AccessWrapper V k} (h : w.Sound) {mapping : Option (List Nat)}
    {n : Nat} {u : AccessWrapper V k}
    (hu : u = { w with rowsBufferIndex := none, rowsMapping := mapping, nbCols := n })
    (hn : n = u.columns.length) (hlt : ∀ c ∈ u.columns, c < k)
    (hkept : (∀ r, w.rows r = none) ∨ u.columns = w.columns) : u.Sound := by
  have hrows : u.rows = w.rows := by rw [hu]
  constructor
  · constructor
    · exact hlt
    · rw [← hn, hu]
    · rw [hu]
      exact h.agrees.counted
    · intro r l hl
      rw [hrows] at hl
      rcases hkept with hnone | hsame
      · rw [hnone r] at hl
        cases hl
      · obtain ⟨i, values, hr, hv, heq⟩ := h.agrees.kept r l hl
        refine ⟨i, values, hr, by rw [hu]; exact hv, ?_⟩
        rw [heq, mappedRow, mappedRow, hsame]
    all_goals rw [hu]
    · exact h.agrees.ended
    · exact h.agrees.position
    · exact h.agrees.low
    · exact h.agrees.unmoved
    · exact h.agrees.last
    · exact h.agrees.idle
  · intro hf hb
    have hkeeps := h.keepsAll (by rw [hu] at hf; exact hf) (by rw [hu] at hb; exact hb)
    rw [hu]
    exact ⟨hkeeps.latest, hkeeps.start, hkeeps.all⟩

end AccessWrapper

namespace WrapperRun

open AccessWrapper

/-- What a call should give back: the number of rows, or the values of the columns asked for. -/
def Right (s : WrapperRun V k) (c : WrapperCall V k) : Prop :=
  ∃ t r, s.call c = .ok (t, r) ∧
    match c, r with
    | .getNRows, .count n => n = s.wrapper.content.length
    | .getValueAt col row, .answer a => ∀ c, s.mapping[col]? = some c →
      if 0 ≤ row ∧ row < s.wrapper.content.length then
        ∃ v, s.wrapper.cell row.toNat c = some v ∧ a = .value v
      else ∃ e, a = .null (some e)
    | _, _ => True

def Meets (s : WrapperRun V k) : WrapperCall V k → Prop
  | .getNRows => s.wrapper.access ≠ .cursorBackward
  | .getValueAt col row => col < s.mapping.length → s.wrapper.MeetsRead row
  | .setMapping mapping => s.wrapper.access.backward = true ∨ s.wrapper.iterRow < 0 →
      (∀ r, s.wrapper.rows r = none) ∨ shownColumns k mapping = s.wrapper.columns
  | .rowInserted _ _ | .rowRemoved _ => s.wrapper.access = .random → s.wrapper.nbRows = -1

structure Sound (s : WrapperRun V k) : Prop where
  wrapper : s.wrapper.Sound
  mapping : s.mapping = [] ∨ s.mapping = s.wrapper.columns

theorem sound_new (access : WrappedAccess) (prevFromEnd : Bool) (content : List (Vector V k)) :
    (new access prevFromEnd content).Sound := by
  refine ⟨⟨?_, ?_⟩, .inr rfl⟩
  · constructor
    · intro c hc
      exact List.mem_range.mp hc
    · simp [new, columns]
    · exact .inl rfl
    · intro r l hl
      cases hl
    · intro hi
      cases hi
    · intro r hi
      cases hi
    · simp only [new]
      omega
    · intro _
      exact .inl rfl
    · intro he
      cases he
    · intro _
      exact ⟨rfl, rfl, rfl, rfl, fun _ => rfl⟩
  · intro _ _
    constructor
    · rfl
    · intro _
      rfl
    · intro r hr
      simp only [new] at hr
      omega

theorem Sound.setContent {s : WrapperRun V k} (h : s.Sound) (ha : s.wrapper.access = .random)
    (hn : s.wrapper.nbRows = -1) (content : List (Vector V k)) :
    Sound { s with wrapper := { s.wrapper with content := content } } := by
  have hf : s.wrapper.access.forward = false := by simp [ha, WrappedAccess.forward]
  have hagrees := h.wrapper.agrees
  obtain ⟨hi, hrow, hlast, hend, hnone⟩ := hagrees.idle hf
  refine ⟨⟨?_, ?_⟩, h.mapping⟩
  · constructor
    · exact hagrees.columns_lt
    · exact hagrees.nbCols
    · exact .inl hn
    · intro r l hl
      simp only [hnone] at hl
      cases hl
    · intro hi'
      simp only [hi] at hi'
      cases hi'
    · intro r hi'
      simp only [hi] at hi'
      cases hi'
    · simp only [hrow, hlast]
      omega
    · intro _
      exact .inl hi
    · intro he
      simp only [hend] at he
      cases he
    · exact hagrees.idle
  · intro hf' _
    simp only [hf] at hf'
    cases hf'

theorem askedColumns_eq (mapping : Option (List Int)) :
    askedColumns k mapping = [] ∨ askedColumns k mapping = shownColumns k mapping := by
  match mapping with
  | none => exact .inr rfl
  | some [] => exact .inl rfl
  | some (nb :: mapping) => exact .inr rfl

theorem Sound.setMapping {s : WrapperRun V k} (h : s.Sound) {mapping : Option (List Int)}
    (hm : s.Meets (.setMapping mapping)) : ∃ t, s.step (.setMapping mapping) = .ok t ∧ t.Sound := by
  refine ⟨_, rfl, ?_⟩
  simp only [AccessWrapper.setMapping]
  split
  · exact h
  · next hacc =>
    have hacc : s.wrapper.access.backward = true ∨ s.wrapper.iterRow < 0 := by
      cases hb : s.wrapper.access.backward with
      | true => exact .inl rfl
      | false => exact .inr (by simpa [hb] using hacc)
    have hkept := hm hacc
    have hcolumns : ∀ u : AccessWrapper V k, u.columns = shownColumns k mapping →
        askedColumns k mapping = [] ∨ askedColumns k mapping = u.columns := by
      intro u hu
      rw [hu]
      exact askedColumns_eq mapping
    match mapping with
    | none =>
      refine ⟨h.wrapper.setColumns rfl ?_ ?_ hkept, hcolumns _ rfl⟩
      · simp [columns]
      · intro c hc
        exact List.mem_range.mp hc
    | some [] =>
      refine ⟨h.wrapper.setColumns rfl ?_ ?_ hkept, hcolumns _ rfl⟩
      · simp [columns]
      · intro c hc
        exact List.mem_range.mp hc
    | some (nb :: mapping) =>
      refine ⟨h.wrapper.setColumns rfl rfl ?_ hkept, hcolumns _ rfl⟩
      intro c hc
      exact existingColumns_lt hc

theorem Sound.call {s : WrapperRun V k} (h : s.Sound) {c : WrapperCall V k} (hm : s.Meets c) :
    s.Right c ∧ ∃ t, s.step c = .ok t ∧ t.Sound := by
  cases c with
  | getNRows =>
    obtain ⟨hsound, hframe, hn⟩ := h.wrapper.getNRows hm
    refine ⟨⟨_, _, rfl, hn⟩, _, rfl, hsound, ?_⟩
    rw [hframe.columns]
    exact h.mapping
  | getValueAt col row =>
    obtain ⟨u, a, hr, hu, hreads⟩ := h.wrapper.getValueAt col row
    have hcall : s.call (.getValueAt col row) = .ok ({ s with wrapper := u }, .answer a) := by
      simp only [WrapperRun.call, hr]
      rfl
    refine ⟨⟨_, _, hcall, ?_⟩, { s with wrapper := u }, by rw [step, hcall]; rfl, hu.1, ?_⟩
    · intro c hc
      have hlt := (List.getElem?_eq_some_iff.mp hc).1
      rcases h.mapping with hnone | hsame
      · rw [hnone] at hc
        cases hc
      · exact hreads (hm hlt) c (hsame ▸ hc)
    · rw [hu.2.columns]
      exact h.mapping
  | setMapping mapping => exact ⟨⟨_, _, rfl, trivial⟩, h.setMapping hm⟩
  | rowInserted row values =>
    by_cases ha : s.wrapper.access = .random
    · have hcall : s.call (.rowInserted row values) = .ok ({ s with wrapper :=
          { s.wrapper with content := s.wrapper.content.insertIdx row values } }, .nothing) := by
        simp only [WrapperRun.call, if_pos ha]
      refine ⟨⟨_, _, hcall, trivial⟩, _, by rw [step, hcall]; rfl, h.setContent ha (hm ha) _⟩
    · have hcall : s.call (.rowInserted row values) = .ok (s, .nothing) := by
        simp only [WrapperRun.call, if_neg ha]
      exact ⟨⟨_, _, hcall, trivial⟩, s, by rw [step, hcall]; rfl, h⟩
  | rowRemoved row =>
    by_cases ha : s.wrapper.access = .random
    · have hcall : s.call (.rowRemoved row) = .ok ({ s with wrapper :=
          { s.wrapper with content := s.wrapper.content.eraseIdx row } }, .nothing) := by
        simp only [WrapperRun.call, if_pos ha]
      refine ⟨⟨_, _, hcall, trivial⟩, _, by rw [step, hcall]; rfl, h.setContent ha (hm ha) _⟩
    · have hcall : s.call (.rowRemoved row) = .ok (s, .nothing) := by
        simp only [WrapperRun.call, if_neg ha]
      exact ⟨⟨_, _, hcall, trivial⟩, s, by rw [step, hcall]; rfl, h⟩

theorem Sound.run {s : WrapperRun V k} (h : s.Sound) {calls : List (WrapperCall V k)}
    (hm : StepsMeet step Meets s calls) :
    (∃ t, run step s calls = .ok t) ∧ StepsMeet step Right s calls := by
  induction calls generalizing s with
  | nil => exact ⟨⟨s, rfl⟩, trivial⟩
  | cons c calls ih =>
    obtain ⟨hright, t, ht, hsound⟩ := h.call hm.1
    obtain ⟨⟨u, hrun⟩, hrest⟩ := ih hsound (hm.2 t ht)
    refine ⟨⟨u, by rw [RunInvariant.run, ht]; exact hrun⟩, hright, ?_⟩
    intro t' ht'
    obtain rfl : t = t' := Except.ok.inj (ht.symm.trans ht')
    exact hrest

/-- No assertion fails and each call gives what it should, in every run whose calls meet their
conditions. -/
theorem right_of_meets (access : WrappedAccess) (prevFromEnd : Bool) (content : List (Vector V k))
    (calls : List (WrapperCall V k))
    (hm : StepsMeet step Meets (new access prevFromEnd content) calls) :
    (∃ t, RunInvariant.run step (new access prevFromEnd content) calls = .ok t) ∧
      StepsMeet step Right (new access prevFromEnd content) calls :=
  (sound_new access prevFromEnd content).run hm

def exampleContent : List (Vector Int 2) :=
  [#v[1, 10], #v[2, 20], #v[3, 30]]

/-- The rows of a data model which goes both ways, not beginning with the first one. -/
theorem right_of_meets_example :
    let calls : List (WrapperCall Int 2) := [.setMapping (some [1, 5, 0]), .getValueAt 0 2,
      .getValueAt 1 0, .getNRows, .getValueAt 0 1, .setMapping (some [1, 0])]
    (∃ t, RunInvariant.run step (new .cursor true exampleContent) calls = .ok t) ∧
      StepsMeet step Right (new .cursor true exampleContent) calls := by
  intro calls
  apply right_of_meets
  refine ⟨fun _ => .inl fun r => rfl, fun t ht => ?_⟩
  obtain rfl := Except.ok.inj ht
  refine ⟨fun _ => ⟨by decide, by decide, by decide⟩, fun t ht => ?_⟩
  obtain rfl := Except.ok.inj ht
  refine ⟨fun _ => ⟨by decide, by decide, by decide⟩, fun t ht => ?_⟩
  obtain rfl := Except.ok.inj ht
  refine ⟨fun hf => WrappedAccess.noConfusion hf, fun t ht => ?_⟩
  obtain rfl := Except.ok.inj ht
  refine ⟨fun _ => ⟨by decide, by decide, by decide⟩, fun t ht => ?_⟩
  obtain rfl := Except.ok.inj ht
  exact ⟨fun _ => .inr rfl, fun t ht => trivial⟩

/-- The first row of a data model which goes both ways is not read the first time. -/
theorem not_right_of_first_row :
    ¬ ∀ (access : WrappedAccess) (prevFromEnd : Bool) (content : List (Vector Int 2))
        (calls : List (WrapperCall Int 2)),
        (∃ t, RunInvariant.run step (new access prevFromEnd content) calls = .ok t) ∧
          StepsMeet step Right (new access prevFromEnd content) calls := by
  intro h
  obtain ⟨-, ⟨t, r, hcall, hright⟩, -⟩ := h .cursor true exampleContent [.getValueAt 0 0]
  obtain rfl : .answer (.null none) = r := congrArg Prod.snd (Except.ok.inj hcall)
  have hread := hright 0 rfl
  rw [if_pos (by decide)] at hread
  obtain ⟨v, -, hv⟩ := hread
  cases hv

end WrapperRun

end LibGda
