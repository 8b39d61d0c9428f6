import LibGda.AccessWrapper

/-! What a `GdaDataAccessWrapper` reads along a run of calls. -/

namespace LibGda

open RunInvariant

variable {V : Type} {k : Nat}

namespace WrappedAccess

theorem eq_cursor {a : WrappedAccess} (hf : a.forward = true) (hb : a.backward = true) :
    a = .cursor := by
  cases a with
  | cursor => rfl
  | random => cases hf
  | cursorBackward => cases hf
  | cursorForward => cases hb

theorem eq_cursorBackward {a : WrappedAccess} (hf : a.forward = false) (hr : a ≠ .random) :
    a = .cursorBackward := by
  cases a with
  | cursorBackward => rfl
  | random => exact absurd rfl hr
  | cursorForward => cases hf
  | cursor => cases hf

end WrappedAccess

namespace AccessWrapper

section Loops

variable {condition : AccessWrapper V k → Bool}
  {move : AccessWrapper V k → AccessWrapper V k × Bool}

theorem moveWhile_keeps {P : AccessWrapper V k → Prop} (hmove : ∀ w, P w → P (move w).1)
    (fuel : Nat) {w : AccessWrapper V k} (hw : P w) : P (moveWhile condition move fuel w) := by
  induction fuel generalizing w with
  | zero => exact hw
  | succ fuel ih =>
    simp only [moveWhile]
    split
    · split
      · exact ih (hmove w hw)
      · exact hmove w hw
    · exact hw

variable (condition move) in
theorem moveWhile_ends {P : AccessWrapper V k → Prop} (left : AccessWrapper V k → Nat)
    (hmove : ∀ w, P w → P (move w).1)
    (hleft : ∀ w, P w → condition w = true → (move w).2 = true → left (move w).1 < left w)
    {fuel : Nat} {w : AccessWrapper V k} (hw : P w) (hfuel : left w < fuel) :
    condition (moveWhile condition move fuel w) = false ∨
      ∃ u, P u ∧ condition u = true ∧ (move u).2 = false ∧
        moveWhile condition move fuel w = (move u).1 := by
  induction fuel generalizing w with
  | zero => omega
  | succ fuel ih =>
    simp only [moveWhile]
    split
    · next hc =>
      split
      · next hm =>
        have := hleft w hw hc hm
        exact ih (hmove w hw) (by omega)
      · next hm => exact .inr ⟨w, hw, hc, by simpa using hm, rfl⟩
    · next hc => exact .inl (by simpa using hc)

end Loops

def ahead (w : AccessWrapper V k) : Nat :=
  match w.iter with
  | .before => w.content.length + 1
  | .at row => w.content.length - row
  | .after => 0

@[simp] theorem iterRowChanged_iter (w : AccessWrapper V k) (row : Nat) :
    (w.iterRowChanged row).iter = w.iter := by
  simp only [iterRowChanged]
  split <;> rfl

@[simp] theorem iterRowChanged_content (w : AccessWrapper V k) (row : Nat) :
    (w.iterRowChanged row).content = w.content := by
  simp only [iterRowChanged]
  split <;> rfl

@[simp] theorem iterRowChanged_access (w : AccessWrapper V k) (row : Nat) :
    (w.iterRowChanged row).access = w.access := by
  simp only [iterRowChanged]
  split <;> rfl

@[simp] theorem iterRowChanged_iterRow (w : AccessWrapper V k) (row : Nat) :
    (w.iterRowChanged row).iterRow = row := by
  simp only [iterRowChanged]
  split <;> rfl

@[simp] theorem iterRowChanged_endOfData (w : AccessWrapper V k) (row : Nat) :
    (w.iterRowChanged row).endOfData = w.endOfData := by
  simp only [iterRowChanged]
  split <;> rfl

theorem moveNext_cases (w : AccessWrapper V k) :
    (w.access.forward = false ∧ w.moveNext = (w, false)) ∨
    (w.access.forward = true ∧
      ((w.iter = .after ∧ w.moveNext = (w, false)) ∨
      ∃ row, ((w.iter = .before ∧ row = 0) ∨ ∃ r, w.iter = .at r ∧ row = r + 1) ∧
        ((row < w.content.length ∧
            w.moveNext = (iterRowChanged { w with iter := .at row } row, true)) ∨
          (w.content.length ≤ row ∧
            w.moveNext = ({ w with iter := .after, endOfData := true }, false))))) := by
  simp only [moveNext]
  cases hf : w.access.forward with
  | false => exact .inl ⟨rfl, rfl⟩
  | true =>
    refine .inr ⟨rfl, ?_⟩
    cases hi : w.iter with
    | after => exact .inl ⟨rfl, rfl⟩
    | before =>
      refine .inr ⟨0, .inl ⟨rfl, rfl⟩, ?_⟩
      by_cases h0 : 0 < w.content.length
      · exact .inl ⟨h0, by simp [h0]⟩
      · exact .inr ⟨by omega, by simp [h0]⟩
    | «at» r =>
      refine .inr ⟨r + 1, .inr ⟨r, rfl, rfl⟩, ?_⟩
      by_cases hr : r + 1 < w.content.length
      · exact .inl ⟨hr, by simp [hr]⟩
      · exact .inr ⟨by omega, by simp [hr]⟩

theorem movePrev_cases (w : AccessWrapper V k) :
    w.movePrev = (w, false) ∨
    (w.access.backward = true ∧ w.iter = .at 0 ∧
      w.movePrev = ({ w with iter := .before }, false)) ∨
    (w.access.backward = true ∧ ∃ row,
      ((w.iter = .at (row + 1)) ∨
        (w.iter = .after ∧ row + 1 = w.content.length)) ∧
      w.movePrev = (iterRowChanged { w with iter := .at row } row, true)) := by
  simp only [movePrev]
  cases hb : w.access.backward with
  | false => exact .inl rfl
  | true =>
    cases hi : w.iter with
    | before => exact .inl rfl
    | «at» r =>
      cases r with
      | zero => exact .inr (.inl ⟨rfl, rfl, rfl⟩)
      | succ r => exact .inr (.inr ⟨rfl, r, .inl rfl, rfl⟩)
    | after =>
      by_cases hp : (w.prevFromEnd && w.content.length ≠ 0) = true
      · have hn : w.content.length ≠ 0 := by
          simp only [Bool.and_eq_true, decide_eq_true_eq] at hp
          exact hp.2
        exact .inr (.inr ⟨rfl, w.content.length - 1, .inr ⟨rfl, by omega⟩, by simp only [hp]; rfl⟩)
      · exact .inl (by simp only [hp]; rfl)

theorem ahead_moveNext {w : AccessWrapper V k} (h : w.moveNext.2 = true) :
    w.moveNext.1.ahead < w.ahead := by
  rcases w.moveNext_cases with ⟨_, hm⟩ | ⟨_, ⟨_, hm⟩ | ⟨row, hfrom, ⟨hrow, hm⟩ | ⟨_, hm⟩⟩⟩
  · simp [hm] at h
  · simp [hm] at h
  · rw [hm]
    rcases hfrom with ⟨hi, rfl⟩ | ⟨r, hi, rfl⟩
    · simp [ahead, hi]
    · simp only [ahead, hi, iterRowChanged_iter, iterRowChanged_content]
      omega
  · simp [hm] at h

theorem ahead_lt_loopBound (w : AccessWrapper V k) : w.ahead < w.loopBound := by
  simp only [ahead, loopBound]
  split <;> omega

def mappedRow (w : AccessWrapper V k) (values : Vector V k) : List (Option V) :=
  w.columns.map fun c => values[c]?

structure Agrees (w : AccessWrapper V k) : Prop where
  columns_lt : ∀ c ∈ w.columns, c < k
  nbCols : w.nbCols = w.columns.length
  counted : w.nbRows = -1 ∨ w.nbRows = w.content.length
  kept : ∀ r l, w.rows r = some l → ∃ i : Nat, ∃ values, r = i ∧ w.content[i]? = some values ∧
    l = w.mappedRow values
  ended : w.iter = .after → w.endOfData = true
  position : ∀ r, w.iter = .at r → r < w.content.length ∧ w.iterRow = r
  low : -1 ≤ w.iterRow ∧ w.iterRow ≤ w.lastRow ∧ w.lastRow < w.content.length
  unmoved : w.iterRow < 0 → w.iter = .before ∨ w.content.length = 0
  last : w.endOfData = true → w.lastRow = w.content.length - 1
  idle : w.access.forward = false → w.iter = .before ∧ w.iterRow = -1 ∧ w.lastRow = -1 ∧
    w.endOfData = false ∧ ∀ r, w.rows r = none

structure KeepsAll (w : AccessWrapper V k) : Prop where
  latest : w.iterRow = w.lastRow
  start : w.iter = .before → w.iterRow = -1
  all : ∀ r : Nat, (r : Int) ≤ w.iterRow → w.rows r ≠ none

theorem mappedColumn_eq {w : AccessWrapper V k} {i : Nat} (hi : i < w.columns.length) :
    w.mappedColumn i = w.columns[i]? := by
  simp only [columns] at hi ⊢
  cases hm : w.rowsMapping with
  | none =>
    simp only [hm, List.length_range] at hi
    simp [mappedColumn, hm, hi]
  | some mapping => simp [mappedColumn, hm]

theorem Agrees.iterValues {w : AccessWrapper V k} (h : w.Agrees) {r : Nat} (hi : w.iter = .at r)
    {values : Vector V k} (hv : w.content[r]? = some values) :
    w.iterValues = w.mappedRow values := by
  apply List.ext_getElem?
  intro i
  by_cases hlt : i < w.columns.length
  · have hcell : ∀ c, w.cell r c = values[c]? := by
      intro c
      simp [cell, hv]
    simp [AccessWrapper.iterValues, mappedRow, h.nbCols, hlt, hi, mappedColumn_eq hlt, hcell]
  · have hle : w.columns.length ≤ i := by omega
    simp [AccessWrapper.iterValues, mappedRow, h.nbCols, hle]

theorem Agrees.rowAnswer {w : AccessWrapper V k} (h : w.Agrees) (values : Vector V k) {col c : Nat}
    (hc : w.columns[col]? = some c) :
    ∃ v, values[c]? = some v ∧ rowAnswer (w.mappedRow values) col = .value v := by
  have hlt : c < k := h.columns_lt c (List.mem_of_getElem? hc)
  refine ⟨values[c], by simp [hlt], ?_⟩
  simp [AccessWrapper.rowAnswer, mappedRow, hc, hlt]

theorem Agrees.createNewRow {w : AccessWrapper V k} (h : w.Agrees) {r : Nat}
    (hi : w.iter = .at r) (hf : w.access.forward = true) : w.createNewRow.Agrees := by
  obtain ⟨hr, hrow⟩ := h.position r hi
  have hv : w.content[r]? = some w.content[r] := List.getElem?_eq_getElem hr
  constructor
  · exact h.columns_lt
  · exact h.nbCols
  · exact h.counted
  · intro r' l hl
    by_cases hr' : r' = w.iterRow
    · subst hr'
      simp only [AccessWrapper.createNewRow, Function.update_self, Option.some.injEq] at hl
      exact ⟨r, _, hrow, hv, hl.symm.trans (h.iterValues hi hv)⟩
    · simp only [AccessWrapper.createNewRow, Function.update_of_ne hr'] at hl
      exact h.kept r' l hl
  · exact h.ended
  · exact h.position
  · exact h.low
  · exact h.unmoved
  · exact h.last
  · intro hf'
    have hf' : w.access.forward = false := hf'
    rw [hf] at hf'
    cases hf'

theorem Agrees.iterRowChanged {w : AccessWrapper V k} (h : w.Agrees) {row : Nat}
    (hrow : row < w.content.length) (hf : w.access.forward = true) :
    (AccessWrapper.iterRowChanged { w with iter := .at row } row).Agrees := by
  obtain ⟨hlow, hlast, hcontent⟩ := h.low
  have hat : Agrees { w with
      iter := .at row, iterRow := row, lastRow := if w.lastRow < row then row else w.lastRow } := by
    constructor
    · exact h.columns_lt
    · exact h.nbCols
    · exact h.counted
    · exact h.kept
    · intro hi
      cases hi
    · intro r hi
      obtain rfl := IterPosition.at.inj hi
      exact ⟨hrow, rfl⟩
    · simp only
      split <;> omega
    · intro hneg
      simp only at hneg
      omega
    · intro he
      have := h.last he
      simp only
      split <;> omega
    · intro hf'
      have hf' : w.access.forward = false := hf'
      rw [hf] at hf'
      cases hf'
  simp only [AccessWrapper.iterRowChanged]
  split
  · exact hat.createNewRow rfl hf
  · exact hat

theorem KeepsAll.iterRowChanged {w : AccessWrapper V k} (h : w.KeepsAll) {row : Nat}
    (hb : w.access.backward = false) (hnext : (row : Int) = w.iterRow + 1) :
    (AccessWrapper.iterRowChanged { w with iter := .at row } row).KeepsAll := by
  have hlatest := h.latest
  have hlast : (if w.lastRow < row then (row : Int) else w.lastRow) = row := by
    split <;> omega
  have hall : ∀ r : Nat, (r : Int) ≤ row → r ≠ row → w.rows r ≠ none := by
    intro r hr hne
    exact h.all r (by omega)
  simp only [AccessWrapper.iterRowChanged, hb, hlast]
  cases hrow : w.rows row with
  | some l =>
    constructor
    · simp
    · intro hi
      simp at hi
    · intro r hr
      simp only [Option.isNone_some, Bool.and_false, Bool.false_eq_true, if_false] at hr ⊢
      by_cases hne : r = row
      · simp [hne, hrow]
      · exact hall r hr hne
  | none =>
    constructor
    · simp [AccessWrapper.createNewRow]
    · intro hi
      simp [AccessWrapper.createNewRow] at hi
    · intro r hr
      simp only [AccessWrapper.createNewRow, Option.isNone_none, Bool.not_false, Bool.true_or,
        Bool.and_true, if_true] at hr ⊢
      by_cases hne : r = row
      · simp [hne]
      · have hne' : (r : Int) ≠ row := by omega
        rw [Function.update_of_ne hne']
        exact hall r hr hne

structure Sound (w : AccessWrapper V k) : Prop where
  agrees : w.Agrees
  keepsAll : w.access.forward = true → w.access.backward = false → w.KeepsAll

theorem Sound.moveNext {w : AccessWrapper V k} (h : w.Sound) : w.moveNext.1.Sound := by
  rcases w.moveNext_cases with ⟨_, hm⟩ | ⟨hf, ⟨_, hm⟩ | ⟨row, hfrom, ⟨hrow, hm⟩ | ⟨hrow, hm⟩⟩⟩
  · rw [hm]
    exact h
  · rw [hm]
    exact h
  · rw [hm]
    constructor
    · exact h.agrees.iterRowChanged hrow hf
    · intro _ hb
      simp only [iterRowChanged_access] at hb
      apply (h.keepsAll hf hb).iterRowChanged hb
      rcases hfrom with ⟨hi, rfl⟩ | ⟨r, hi, rfl⟩
      · rw [(h.keepsAll hf hb).start hi]
        rfl
      · rw [(h.agrees.position r hi).2]
        rfl
  · rw [hm]
    have hlast : w.lastRow = w.content.length - 1 := by
      have hlow := h.agrees.low
      rcases hfrom with ⟨hi, rfl⟩ | ⟨r, hi, rfl⟩
      · omega
      · have := h.agrees.position r hi
        omega
    constructor
    · constructor
      · exact h.agrees.columns_lt
      · exact h.agrees.nbCols
      · exact h.agrees.counted
      · exact h.agrees.kept
      · intro _
        rfl
      · intro r hi
        cases hi
      · exact h.agrees.low
      · intro hneg
        have hneg : w.iterRow < 0 := hneg
        right
        rcases hfrom with ⟨hi, rfl⟩ | ⟨r, hi, rfl⟩
        · exact Nat.le_zero.mp hrow
        · have := (h.agrees.position r hi).2
          omega
      · intro _
        exact hlast
      · intro hf'
        have hf' : w.access.forward = false := hf'
        rw [hf] at hf'
        cases hf'
    · intro _ hb
      have hkeeps := h.keepsAll hf hb
      constructor
      · exact hkeeps.latest
      · intro hi
        cases hi
      · exact hkeeps.all

theorem Sound.of_agrees {w : AccessWrapper V k} (h : w.Agrees) (hb : w.access.backward = true) :
    w.Sound := by
  refine ⟨h, ?_⟩
  intro _ hb'
  rw [hb] at hb'
  cases hb'

theorem Agrees.forward {w : AccessWrapper V k} (h : w.Agrees) (hi : w.iter ≠ .before) :
    w.access.forward = true := by
  by_contra hf
  exact hi (h.idle (by simpa using hf)).1

theorem Agrees.invalidate {w : AccessWrapper V k} (h : w.Agrees) (hf : w.access.forward = true) :
    Agrees { w with iter := .before } := by
  constructor
  · exact h.columns_lt
  · exact h.nbCols
  · exact h.counted
  · exact h.kept
  · intro hi
    cases hi
  · intro r hi
    cases hi
  · exact h.low
  · intro _
    exact .inl rfl
  · exact h.last
  · intro hf'
    have hf' : w.access.forward = false := hf'
    rw [hf] at hf'
    cases hf'

theorem Sound.movePrev {w : AccessWrapper V k} (h : w.Sound) : w.movePrev.1.Sound := by
  rcases w.movePrev_cases with hm | ⟨hb, hi, hm⟩ | ⟨hb, row, hfrom, hm⟩
  · rw [hm]
    exact h
  · rw [hm]
    have hf := h.agrees.forward (by simp [hi])
    exact .of_agrees (h.agrees.invalidate hf) hb
  · rw [hm]
    have hrow : row < w.content.length := by
      rcases hfrom with hi | ⟨_, hn⟩
      · have := h.agrees.position (row + 1) hi
        omega
      · omega
    have hf : w.access.forward = true := by
      apply h.agrees.forward
      rcases hfrom with hi | ⟨hi, _⟩ <;> simp [hi]
    exact .of_agrees (h.agrees.iterRowChanged hrow hf) (by simpa using hb)

structure Frame (w u : AccessWrapper V k) : Prop where
  content : u.content = w.content
  access : u.access = w.access
  rowsMapping : u.rowsMapping = w.rowsMapping

theorem Frame.refl (w : AccessWrapper V k) : Frame w w :=
  ⟨rfl, rfl, rfl⟩

theorem Frame.trans {w u t : AccessWrapper V k} (h : Frame w u) (h' : Frame u t) : Frame w t :=
  ⟨h'.content.trans h.content, h'.access.trans h.access, h'.rowsMapping.trans h.rowsMapping⟩

theorem Frame.columns {w u : AccessWrapper V k} (h : Frame w u) : u.columns = w.columns := by
  rw [AccessWrapper.columns, AccessWrapper.columns, h.rowsMapping]

theorem Frame.cell {w u : AccessWrapper V k} (h : Frame w u) (row col : Nat) :
    u.cell row col = w.cell row col := by
  rw [AccessWrapper.cell, AccessWrapper.cell, h.content]

theorem frame_iterRowChanged (w : AccessWrapper V k) (iter : IterPosition) (row : Nat) :
    Frame w (AccessWrapper.iterRowChanged { w with iter := iter } row) := by
  simp only [AccessWrapper.iterRowChanged]
  split
  · exact ⟨rfl, rfl, rfl⟩
  · exact ⟨rfl, rfl, rfl⟩

theorem frame_moveNext (w : AccessWrapper V k) : Frame w w.moveNext.1 := by
  rcases w.moveNext_cases with ⟨_, hm⟩ | ⟨_, ⟨_, hm⟩ | ⟨row, _, ⟨_, hm⟩ | ⟨_, hm⟩⟩⟩
  · rw [hm]
    exact .refl w
  · rw [hm]
    exact .refl w
  · rw [hm]
    exact frame_iterRowChanged w _ row
  · rw [hm]
    exact ⟨rfl, rfl, rfl⟩

theorem frame_movePrev (w : AccessWrapper V k) : Frame w w.movePrev.1 := by
  rcases w.movePrev_cases with hm | ⟨_, _, hm⟩ | ⟨_, row, _, hm⟩
  · rw [hm]
    exact .refl w
  · rw [hm]
    exact ⟨rfl, rfl, rfl⟩
  · rw [hm]
    exact frame_iterRowChanged w _ row

theorem Agrees.moveNext_false {w : AccessWrapper V k} (h : w.Agrees) (hf : w.access.forward = true)
    (hm : w.moveNext.2 = false) : w.moveNext.1.endOfData = true := by
  rcases w.moveNext_cases with ⟨hf', _⟩ | ⟨_, ⟨hi, hr⟩ | ⟨row, _, ⟨_, hr⟩ | ⟨_, hr⟩⟩⟩
  · rw [hf] at hf'
    cases hf'
  · rw [hr]
    exact h.ended hi
  · simp [hr] at hm
  · rw [hr]

theorem Agrees.first {w : AccessWrapper V k} (h : w.Agrees) (hf : w.access.forward = true)
    (hneg : w.iterRow < 0) :
    (w.moveNext.2 = true ∧ w.moveNext.1.iterRow = 0 ∧ 0 < w.content.length) ∨
      (w.moveNext.2 = false ∧ w.content.length = 0) := by
  rcases w.moveNext_cases with ⟨hf', _⟩ | ⟨_, ⟨hi, hr⟩ | ⟨row, hfrom, ⟨hrow, hr⟩ | ⟨hrow, hr⟩⟩⟩
  · rw [hf] at hf'
    cases hf'
  · rw [hr]
    rcases h.unmoved hneg with hb | hn
    · rw [hi] at hb
      cases hb
    · exact .inr ⟨rfl, hn⟩
  · rcases hfrom with ⟨_, rfl⟩ | ⟨r, hi, _⟩
    · rw [hr]
      exact .inl ⟨rfl, by simp, hrow⟩
    · have := (h.position r hi).2
      omega
  · rcases hfrom with ⟨_, rfl⟩ | ⟨r, hi, _⟩
    · rw [hr]
      exact .inr ⟨rfl, by omega⟩
    · have := (h.position r hi).2
      omega

def Follows (w u : AccessWrapper V k) : Prop :=
  u.Sound ∧ Frame w u

theorem Follows.moveNext {w u : AccessWrapper V k} (h : Follows w u) : Follows w u.moveNext.1 :=
  ⟨h.1.moveNext, h.2.trans (frame_moveNext u)⟩

theorem Follows.movePrev {w u : AccessWrapper V k} (h : Follows w u) : Follows w u.movePrev.1 :=
  ⟨h.1.movePrev, h.2.trans (frame_movePrev u)⟩

theorem Sound.goTo {w : AccessWrapper V k} (h : w.Sound) {row : Int}
    (hback : w.access.backward = false → w.iterRow ≤ row) :
    ∃ u, w.goTo row = .ok u ∧ Follows w u ∧
      (w.access.forward = true → w.access.backward = false → row < w.content.length →
        row ≤ u.iterRow) := by
  simp only [AccessWrapper.goTo]
  split
  · next heq => exact ⟨w, rfl, ⟨h, .refl w⟩, fun _ _ _ => by omega⟩
  · next hne =>
    split
    · next hlt =>
      have hstart : Follows w w := ⟨h, .refl w⟩
      have hfollows : Follows w (moveWhile (fun w => w.iterRow < row) AccessWrapper.moveNext
          w.loopBound w) :=
        moveWhile_keeps (P := Follows w) (fun u hu => hu.moveNext) _ hstart
      refine ⟨_, rfl, hfollows, ?_⟩
      intro hf hb hrow
      have hends := moveWhile_ends (P := Follows w) (fun w => w.iterRow < row)
        AccessWrapper.moveNext ahead (fun u hu => hu.moveNext)
        (fun u _ _ hm => ahead_moveNext hm) hstart w.ahead_lt_loopBound
      rcases hends with hc | ⟨u, hu, _, hm, heq⟩
      · have hc := of_decide_eq_false hc
        omega
      · have hfu : u.access.forward = true := by rw [hu.2.access, hf]
        have hbu : u.access.backward = false := by rw [hu.2.access, hb]
        have hend := hu.1.agrees.moveNext_false hfu hm
        have hnext := hu.moveNext
        rw [heq]
        have hlast := hnext.1.agrees.last hend
        have hlatest := (hnext.1.keepsAll (by rw [hnext.2.access, hf])
          (by rw [hnext.2.access, hb])).latest
        rw [hnext.2.content] at hlast
        omega
    · next hlt =>
      split
      · next hb =>
        refine ⟨_, rfl, moveWhile_keeps (P := Follows w) (fun u hu => hu.movePrev) _
          ⟨h, .refl w⟩, ?_⟩
        intro _ hb'
        rw [hb] at hb'
        cases hb'
      · next hb =>
        have := hback (by simpa using hb)
        omega

theorem frame_makeRoom (w : AccessWrapper V k) : Frame w w.makeRoom := by
  simp only [makeRoom]
  split
  · exact ⟨rfl, rfl, rfl⟩
  · split
    · exact ⟨rfl, rfl, rfl⟩
    · exact .refl w

theorem frame_moveToRow (w : AccessWrapper V k) (row : Nat) : Frame w (w.moveToRow row).1 := by
  simp only [moveToRow]
  split
  · split
    · exact .refl w
    · exact frame_iterRowChanged w _ row
  · exact ⟨rfl, rfl, rfl⟩

theorem Agrees.makeRoom {w : AccessWrapper V k} (h : w.Agrees) : w.makeRoom.Agrees := by
  simp only [AccessWrapper.makeRoom]
  split
  · exact ⟨h.columns_lt, h.nbCols, h.counted, h.kept, h.ended, h.position, h.low, h.unmoved, h.last,
      h.idle⟩
  · next index _ =>
    split
    · have hrows : ∀ r l, Function.update w.rows (index.getLastD 0) none r = some l →
          w.rows r = some l := by
        intro r l hl
        by_cases hr : r = index.getLastD 0
        · simp [hr] at hl
        · rwa [Function.update_of_ne hr] at hl
      constructor
      · exact h.columns_lt
      · exact h.nbCols
      · exact h.counted
      · intro r l hl
        exact h.kept r l (hrows r l hl)
      · exact h.ended
      · exact h.position
      · exact h.low
      · exact h.unmoved
      · exact h.last
      · intro hf
        obtain ⟨hi, hrow, hlast, hend, hnone⟩ := h.idle hf
        refine ⟨hi, hrow, hlast, hend, ?_⟩
        intro r
        by_cases hr : r = index.getLastD 0
        · simp [hr]
        · simp only [Function.update_of_ne hr]
          exact hnone r
    · exact h

theorem Agrees.moveToRow {w : AccessWrapper V k} (h : w.Agrees) (hf : w.access.forward = true)
    (row : Nat) : (w.moveToRow row).1.Agrees ∧
      ((w.moveToRow row).2 = true ↔ row < w.content.length) ∧
      ((w.moveToRow row).2 = true → (w.moveToRow row).1.iter = .at row) := by
  simp only [AccessWrapper.moveToRow]
  split
  · next hrow =>
    split
    · next hi => exact ⟨h, by simp [hrow], fun _ => hi⟩
    · exact ⟨h.iterRowChanged hrow hf, by simp [hrow], fun _ => by simp⟩
  · next hrow => exact ⟨h.invalidate hf, by simp [hrow], fun hc => by cases hc⟩

def Reads (w : AccessWrapper V k) (col : Nat) (row : Int) (a : WrapperAnswer V) : Prop :=
  ∀ c, w.columns[col]? = some c →
    if 0 ≤ row ∧ row < w.content.length then ∃ v, w.cell row.toNat c = some v ∧ a = .value v
    else ∃ e, a = .null (some e)

theorem Agrees.reads_kept {w : AccessWrapper V k} (h : w.Agrees) {row : Int}
    {kept : List (Option V)} (hk : w.rows row = some kept) (col : Nat) :
    w.Reads col row (AccessWrapper.rowAnswer kept col) := by
  intro c hc
  obtain ⟨i, values, rfl, hv, rfl⟩ := h.kept row kept hk
  have hi : i < w.content.length := (List.getElem?_eq_some_iff.mp hv).1
  rw [if_pos ⟨by omega, by omega⟩]
  obtain ⟨v, hvc, ha⟩ := h.rowAnswer values hc
  exact ⟨v, by simpa [AccessWrapper.cell, hv] using hvc, ha⟩

theorem Agrees.readPooled {w : AccessWrapper V k} (h : w.Agrees) (hf : w.access.forward = true)
    (col : Nat) {row : Int} (hrow : 0 ≤ row) :
    (w.readPooled col row).1.Agrees ∧ Frame w (w.readPooled col row).1 ∧
      (row < w.content.length → w.Reads col row (w.readPooled col row).2) := by
  simp only [AccessWrapper.readPooled]
  split
  · next kept hk => exact ⟨h, .refl w, fun _ => h.reads_kept hk col⟩
  · have hroom := frame_makeRoom w
    have hfr : w.makeRoom.access.forward = true := by rw [hroom.access, hf]
    obtain ⟨hagrees, hiff, hat⟩ := h.makeRoom.moveToRow hfr row.toNat
    have hframe := hroom.trans (frame_moveToRow w.makeRoom row.toNat)
    split
    · next hm =>
      have hi := hat hm
      have hfu : (w.makeRoom.moveToRow row.toNat).1.access.forward = true := by
        rw [hframe.access, hf]
      have hcreated := hagrees.createNewRow hi hfu
      refine ⟨⟨hcreated.columns_lt, hcreated.nbCols, hcreated.counted, hcreated.kept,
        hcreated.ended, hcreated.position, hcreated.low, hcreated.unmoved, hcreated.last,
        hcreated.idle⟩, ⟨hframe.content, hframe.access, hframe.rowsMapping⟩, ?_⟩
      intro hlt c hc
      have hn : row.toNat < w.content.length := by omega
      have hv : (w.makeRoom.moveToRow row.toNat).1.content[row.toNat]? =
          some (w.content[row.toNat]) := by
        rw [hframe.content]
        exact List.getElem?_eq_getElem hn
      rw [if_pos ⟨hrow, hlt⟩, hagrees.iterValues hi hv]
      obtain ⟨v, hvc, ha⟩ := hagrees.rowAnswer w.content[row.toNat]
        (hframe.columns ▸ hc)
      exact ⟨v, by simpa [AccessWrapper.cell, hn] using hvc, ha⟩
    · next hm =>
      refine ⟨hagrees, hframe, ?_⟩
      intro hlt
      have : row.toNat < w.makeRoom.content.length := by
        rw [hroom.content]
        omega
      exact absurd (hiff.mpr this) hm

theorem Reads.of_frame {w u : AccessWrapper V k} (hframe : Frame w u) {col : Nat} {row : Int}
    {a : WrapperAnswer V} (h : u.Reads col row a) : w.Reads col row a := by
  intro c hc
  have := h c (hframe.columns ▸ hc)
  rwa [hframe.content, hframe.cell] at this

theorem Sound.readRow {w : AccessWrapper V k} (h : w.Sound) (hf : w.access.forward = true)
    (col : Nat) {row : Int} (hrow : 0 ≤ row)
    (hback : w.access.backward = false → w.iterRow ≤ row) :
    ∃ u a, w.readRow col row = .ok (u, a) ∧ Follows w u ∧
      ((w.access.backward = true → row < w.content.length) → w.Reads col row a) := by
  obtain ⟨u, hgo, hu, hreach⟩ := h.goTo hback
  have hfu : u.access.forward = true := by rw [hu.2.access, hf]
  simp only [AccessWrapper.readRow, hgo]
  cases hb : w.access.backward with
  | false =>
    have hbu : u.access.backward = false := by rw [hu.2.access, hb]
    simp only [bind, Except.bind, hbu, Bool.not_false, Bool.true_or, if_true]
    cases hk : u.rows row with
    | some kept =>
      exact ⟨u, _, rfl, hu, fun _ => .of_frame hu.2 (hu.1.agrees.reads_kept hk col)⟩
    | none =>
      refine ⟨u, _, rfl, hu, ?_⟩
      intro _ c _
      rw [if_neg]
      · exact ⟨_, rfl⟩
      · rintro ⟨_, hlt⟩
        have hall := (hu.1.keepsAll hfu hbu).all row.toNat
          (by have := hreach hf hb hlt; omega)
        rw [Int.toNat_of_nonneg hrow] at hall
        exact hall hk
  | true =>
    have hbu : u.access.backward = true := by rw [hu.2.access, hb]
    obtain ⟨hagrees, hframe, hreads⟩ := hu.1.agrees.readPooled hfu col hrow
    simp only [bind, Except.bind, hbu, hfu]
    refine ⟨(u.readPooled col row).1, (u.readPooled col row).2, rfl,
      ⟨.of_agrees hagrees (by rw [hframe.access, hbu]), hu.2.trans hframe⟩, ?_⟩
    intro hlt
    have hlt := hlt trivial
    rw [← hu.2.content] at hlt
    exact .of_frame hu.2 (hreads hlt)

def MeetsRead (w : AccessWrapper V k) (row : Int) : Prop :=
  0 ≤ row ∧ (w.access = .cursorBackward → w.content.length ≤ row) ∧
    (w.access = .cursor → w.content.length = 0 ∨
      row < w.content.length ∧ (w.iterRow < 0 → row ≠ 0))

theorem Agrees.reads_random {w : AccessWrapper V k} (h : w.Agrees) (col : Nat) {row : Int}
    (hrow : 0 ≤ row) : w.Reads col row (w.randomAnswer col row) := by
  intro c hc
  have hlt : c < k := h.columns_lt c (List.mem_of_getElem? hc)
  have hcol : col < w.columns.length := (List.getElem?_eq_some_iff.mp hc).1
  have hanswer : w.randomAnswer col row = wrappedAnswer (w.cell row.toNat c) := by
    simp [AccessWrapper.randomAnswer, mappedColumn_eq hcol, hc]
  rw [hanswer]
  split
  · next hin =>
    have hn : row.toNat < w.content.length := by omega
    exact ⟨(w.content[row.toNat])[c], by simp [AccessWrapper.cell, hn, hlt],
      by simp [wrappedAnswer, AccessWrapper.cell, hn, hlt]⟩
  · next hout =>
    have hn : w.content.length ≤ row.toNat := by omega
    exact ⟨.access, by simp [wrappedAnswer, AccessWrapper.cell, hn]⟩

theorem Sound.getValueAt {w : AccessWrapper V k} (h : w.Sound) (col : Nat) (row : Int) :
    ∃ u a, w.getValueAt col row = .ok (u, a) ∧ Follows w u ∧
      (w.MeetsRead row → w.Reads col row a) := by
  have hstart : Follows w w := ⟨h, .refl w⟩
  simp only [AccessWrapper.getValueAt]
  split
  · next hneg =>
    refine ⟨w, _, rfl, hstart, ?_⟩
    intro hm
    have := hm.1
    omega
  · next hrow =>
    have hrow : 0 ≤ row := by omega
    split
    · next hcol =>
      refine ⟨w, _, rfl, hstart, ?_⟩
      intro _ c hc
      have hlt := (List.getElem?_eq_some_iff.mp hc).1
      rw [h.agrees.nbCols] at hcol
      omega
    · split
      · exact ⟨w, _, rfl, hstart, fun _ => h.agrees.reads_random col hrow⟩
      · next hrandom =>
        split
        · next kept hk => exact ⟨w, _, rfl, hstart, fun _ => h.agrees.reads_kept hk col⟩
        · next hk =>
          cases hf : w.access.forward with
          | false =>
            -- only a data model which goes back is left
            have haccess := WrappedAccess.eq_cursorBackward hf hrandom
            obtain ⟨_, hiter, _⟩ := h.agrees.idle hf
            have hm : w.moveNext = (w, false) := by simp [AccessWrapper.moveNext, hf]
            refine ⟨w, .null (some .access), by simp [hiter, hm], hstart, ?_⟩
            intro hmeets c _
            have := hmeets.2.1 haccess
            rw [if_neg (by omega)]
            exact ⟨_, rfl⟩
          | true =>
            split
            · next hneg =>
              have hfirst : Follows w w.moveNext.1 := hstart.moveNext
              rcases h.agrees.first hf hneg with ⟨hm, hzero, hn⟩ | ⟨hm, hn⟩
              · rw [if_pos hm]
                split
                · next heq =>
                  refine ⟨_, _, rfl, hfirst, ?_⟩
                  intro hmeets
                  cases hb : w.access.backward with
                  | true =>
                    have ha := WrappedAccess.eq_cursor hf hb
                    rcases hmeets.2.2 ha with hn' | ⟨_, hne⟩
                    · omega
                    · exact absurd (heq.trans hzero) (hne hneg)
                  | false =>
                    have hall := (hfirst.1.keepsAll (by rw [hfirst.2.access, hf])
                      (by rw [hfirst.2.access, hb])).all row.toNat (by omega)
                    rw [Int.toNat_of_nonneg hrow] at hall
                    obtain ⟨kept, hkept⟩ := Option.ne_none_iff_exists'.mp hall
                    rw [hkept]
                    exact .of_frame hfirst.2 (hfirst.1.agrees.reads_kept hkept col)
                · next hne =>
                  obtain ⟨u, a, hr, hu, hreads⟩ :=
                    hfirst.1.readRow (by rw [hfirst.2.access, hf]) col
                    hrow (fun _ => by omega)
                  refine ⟨u, a, hr, ⟨hu.1, hfirst.2.trans hu.2⟩, ?_⟩
                  intro hmeets
                  apply Reads.of_frame hfirst.2
                  apply hreads
                  rw [hfirst.2.access, hfirst.2.content]
                  intro hb
                  have ha := WrappedAccess.eq_cursor hf hb
                  rcases hmeets.2.2 ha with hn' | ⟨hlt, _⟩
                  · omega
                  · exact hlt
              · rw [hm]
                refine ⟨_, _, rfl, hfirst, ?_⟩
                intro _ c _
                rw [if_neg (by omega)]
                exact ⟨_, rfl⟩
            · next hpos =>
              have hback : w.access.backward = false → w.iterRow ≤ row := by
                intro hb
                by_contra hlt
                have hall := (h.keepsAll hf hb).all row.toNat (by omega)
                rw [Int.toNat_of_nonneg hrow] at hall
                exact hall hk
              obtain ⟨u, a, hr, hu, hreads⟩ := h.readRow hf col hrow hback
              refine ⟨u, a, hr, hu, ?_⟩
              intro hmeets
              apply hreads
              intro hb
              have ha := WrappedAccess.eq_cursor hf hb
              have hlow := h.agrees.low
              rcases hmeets.2.2 ha with hn' | ⟨hlt, _⟩
              · omega
              · exact hlt

end AccessWrapper

end LibGda
