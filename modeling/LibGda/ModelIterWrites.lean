import LibGda.ModelIterColumns

/-! A value which is set through an iterator: which cell of the data model it changes, and what the
holders show after it. -/

namespace LibGda

namespace ModelIter

variable {D : Type}

namespace Model

variable {m : Model D}

theorem cellAt_setCell {col row : Nat} (hcell : (m.cellAt col row).isSome = true) (cell : Cell D)
    (c r : Nat) : (m.setCell col row cell).cellAt c r =
      if c = col ∧ r = row then some cell else m.cellAt c r := by
  simp only [cellAt, setCell, List.getElem?_modify]
  by_cases hr : row = r
  · subst hr
    cases hrow : m.rows[row]? with
    | none => simp [cellAt, hrow] at hcell
    | some x =>
      have hlt : col < x.cells.length := by simpa [cellAt, hrow] using hcell
      by_cases hc : c = col
      · subst hc
        simp [hlt]
      · have hne : col ≠ c := fun heq => hc heq.symm
        simp [hc, hne]
  · have hno : ¬ (c = col ∧ r = row) := fun h => hr h.2.symm
    rw [if_neg hno]
    congr 1
    simp [hr]

structure Framed (m m' : Model D) : Prop where
  keys : m'.rows.map Row.key = m.rows.map Row.key
  nextKey : m'.nextKey = m.nextKey
  shownColumns : m'.shownColumns = m.shownColumns

theorem Framed.trans {m m' m'' : Model D} (h : Framed m m') (h' : Framed m' m'') : Framed m m'' :=
  ⟨h'.keys.trans h.keys, h'.nextKey.trans h.nextKey, h'.shownColumns.trans h.shownColumns⟩

theorem framed_setCell (m : Model D) (col row : Nat) (cell : Cell D) :
    Framed m (m.setCell col row cell) := by
  refine ⟨?_, rfl, rfl⟩
  apply List.ext_getElem?
  intro i
  simp only [setCell, List.getElem?_map, List.getElem?_modify]
  cases m.rows[i]? with
  | none => rfl
  | some r =>
    by_cases hi : row = i
    · simp [hi]
    · simp [hi]

def OnlyCell (m m' : Model D) (col row : Nat) : Prop :=
  ∀ c r, ¬ (c = col ∧ r = row) → m'.cellAt c r = m.cellAt c r

end Model

theorem Shows.revalidated [ContentsCompare D] {h : HolderValue D} (hs : Settled h)
    (hvalid : h.isValid = true) {cell : Option (Cell D)} (hshown : Shows h cell) :
    Shows ({ h with invalidForced := false, valid := true } : HolderValue D) cell := by
  rcases hshown with hf | ⟨c, v, hc, hv, hcase⟩
  · rw [hvalid] at hf
    cases hf
  · refine .inr ⟨c, v, hc, hv, ?_⟩
    rcases hcase with hval | hdef | ⟨hflag, hnull⟩
    · exact .inl (hval.revalidated hs hvalid)
    · exact .inr (.inl hdef)
    · refine .inr (.inr ⟨hflag, ?_⟩)
      rcases getValue_revalidated hs hvalid with hsame | ⟨_, hnull'⟩
      · rw [hsame]
        exact hnull
      · exact hnull'

namespace State

variable {s : State D}

theorem Sound.setHolder (hs : s.Sound) {m : Model D} (hm : s.model.Framed m) {pos : Nat}
    {h h' : IterHolder D} (hh : s.iter.holders[pos]? = some h) (hcol : h'.modelCol = h.modelCol)
    (hset : Settled h'.holder) : (({ s with model := m } : State D).setHolder pos h').Sound := by
  constructor
  · show (s.iter.holders.set pos h').map IterHolder.modelCol = List.range m.shownColumns.length
    have hget : (s.iter.holders.map IterHolder.modelCol)[pos]? = some h'.modelCol := by
      simp [hh, hcol]
    obtain ⟨hlt, heq⟩ := List.getElem?_eq_some_iff.mp hget
    rw [List.map_set, ← heq, List.set_getElem_self, hs.aligned, hm.shownColumns]
  · intro h'' hmem
    rcases List.mem_or_eq_of_mem_set hmem with hold | rfl
    · exact hs.settled _ hold
    · exact hset
  · exact hm.keys ▸ hs.keys
  · show ∀ key ∈ m.rows.map Row.key, key < m.nextKey
    rw [hm.keys, hm.nextKey]
    exact hs.fresh

theorem Positioned.of_keys (hp : s.Positioned) {t : State D} (hrow : t.iter.row = s.iter.row)
    (hon : t.on = s.on) (hkeys : t.model.rows.map Row.key = s.model.rows.map Row.key) :
    t.Positioned := by
  intro row hr
  obtain ⟨key, hk, hi⟩ := hp row (hrow ▸ hr)
  refine ⟨key, hon.trans hk, ?_⟩
  intro i
  rw [← List.getElem?_map, hkeys, List.getElem?_map]
  exact hi i

variable [ContentsCompare D]

/-- A value which the holder shows already changes nothing, another goes to the cell of the column
in the current row; a proxy notes for the default value that the cell is at its default. -/
def WroteOnce (s t : State D) (col : Nat) (value : GValue D) : Prop :=
  ∃ row h, s.iter.row = some row ∧ s.iter.holders[col]? = some h ∧
    ((t.model = s.model ∧ ShownAs h.holder.getValue (some value)) ∨
      (t.model.calls = s.model.calls ++ [(col, row, value)] ∧ s.model.Framed t.model ∧
        s.model.OnlyCell t.model col row ∧
        ∃ cell, t.model.cellAt col row = some cell ∧ (cell.value = some value ∨
          (s.model.isProxy = true ∧ h.holder.isDefault (some value) = true ∧
            cell.attributes.isDefault = true))))

/-- What an event does: a value is set in one cell or not at all, and nothing else
calls `gda_data_model_set_value_at`. -/
def Does (s : State D) : Event D → Prop
  | .setValueAt col value answer =>
    let r := s.setValueAt col value answer
    if r.2 = true then WroteOnce s r.1 col.toNat value
    else { r.1.model with calls := s.model.calls } = s.model ∧ r.1.iter = s.iter
  | e => (s.step e).model.calls = s.model.calls

def MeetsSet (s : State D) (col : Int) (value : GValue D) (answer : Option GdaValueAttribute) :
    Prop :=
  ∀ h, 0 ≤ col → s.iter.holders[col.toNat]? = some h → ∃ row, s.iter.row = some row ∧
    (asks h.holder (some value) = true → answer.isSome = true →
      (s.model.cellAt h.modelCol row).isSome = true → h.holder.accepts (some value) = true)

theorem realSetValue_of_asks {h : HolderValue D} {value : Option (GValue D)}
    (ha : asks h value = true) (agreed : Bool) :
    h.realSetValue value false agreed = if agreed then ({ h with
        invalidForced := false
        valid := h.accepts value
        defaultForced := h.isDefault value
        value := if h.accepts value then value else none }, h.accepts value)
      else (h, false) := by
  have hcond : (!h.differs value false && h.accepts value && h.isValid) = false := by
    rw [asks, Bool.not_eq_true'] at ha
    exact ha
  cases agreed with
  | true => simp only [HolderValue.realSetValue, hcond, Bool.false_eq_true, if_false]; rfl
  | false => simp only [HolderValue.realSetValue, hcond, Bool.false_eq_true, if_false]; rfl

theorem realSetValue_of_not_asks {h : HolderValue D} {value : Option (GValue D)}
    (ha : asks h value = false) :
    h.differs value false = false ∧ h.isValid = true ∧ h.realSetValue value false true =
      ({ h with invalidForced := false, valid := true }, true) := by
  have hcond : (!h.differs value false && h.accepts value && h.isValid) = true := by
    simpa [asks] using ha
  have hr : h.realSetValue value false true =
      ({ h with invalidForced := false, valid := true }, true) := by
    rw [HolderValue.realSetValue]
    exact if_pos hcond
  simp only [Bool.and_eq_true, Bool.not_eq_true'] at hcond
  exact ⟨hcond.1.1, hcond.2, hr⟩

theorem holderSetValue_same {pos row : Nat} {h : IterHolder D} {value : GValue D}
    (answer : Option GdaValueAttribute) (hs : s.Sound) (hc : s.Coherent)
    (hrow : s.iter.row = some row) (hh : s.iter.holders[pos]? = some h)
    (ha : asks h.holder (some value) = false) :
    let r := s.holderSetValue pos (some value) answer
    r.2 = true ∧ WroteOnce s r.1 pos value ∧ r.1.Sound ∧ r.1.Coherent ∧
      r.1.iter.keepParamChanges = s.iter.keepParamChanges := by
  obtain ⟨hd, hvalid, hr⟩ := realSetValue_of_not_asks ha
  have hmem := List.mem_of_getElem? hh
  have hset : s.holderSetValue pos (some value) answer = (s.setHolder pos
      { h with holder := { h.holder with invalidForced := false, valid := true } }, true) := by
    rw [holderSetValue, hh]
    simp only [ha, Bool.false_eq_true, if_false, hr, Bool.false_and]
  have hsound : (s.setHolder pos
      { h with holder := { h.holder with invalidForced := false, valid := true } }).Sound :=
    hs.setHolder ⟨rfl, rfl, rfl⟩ hh rfl (settled_of_valid rfl)
  rw [hset]
  refine ⟨rfl, ⟨row, h, hrow, hh, .inl ⟨rfl, shownAs_of_not_differs hd⟩⟩, hsound,
    ⟨hsound.aligned, hc.positioned.of_keys rfl rfl rfl, ?_⟩, rfl⟩
  intro row' hrow' h' hh'
  rcases List.mem_or_eq_of_mem_set hh' with hold | rfl
  · exact hc.showing row' hrow' h' hold
  · exact (hc.showing row' hrow' h hmem).revalidated (hs.settled h hmem) hvalid

theorem holderSetValue_refused {pos row : Nat} {h : IterHolder D} {value : GValue D}
    {answer : Option GdaValueAttribute} (hk : s.iter.keepParamChanges = false)
    (hrow : s.iter.row = some row) (hh : s.iter.holders[pos]? = some h)
    (ha : asks h.holder (some value) = true)
    (href : ¬ (answer.isSome = true ∧ (s.model.cellAt h.modelCol row).isSome = true)) :
    let m := { s.model with calls := s.model.calls ++ [(h.modelCol, row, value)] }
    s.holderSetValue pos (some value) answer = ({ s with model := m }, false) := by
  have hmodel : s.model.setValueAt h.modelCol row value answer =
      ({ s.model with calls := s.model.calls ++ [(h.modelCol, row, value)] }, false) := by
    have hcell : Model.cellAt { s.model with
        calls := s.model.calls ++ [(h.modelCol, row, value)] } h.modelCol row =
          s.model.cellAt h.modelCol row := rfl
    rw [Model.setValueAt]
    cases hcase : s.model.cellAt h.modelCol row with
    | none => simp [hcell, hcase]
    | some c =>
      cases answer with
      | none => simp [hcell, hcase]
      | some a => exact absurd ⟨rfl, by simp [hcase]⟩ href
  have hv : s.validateHolderChange h (some value) answer = ({ s with
      model := { s.model with calls := s.model.calls ++ [(h.modelCol, row, value)] } },
      false) := by
    simp only [validateHolderChange, hrow, hk, Option.getD_some, hmodel, Bool.false_eq_true,
      if_false]
  have hself : s.iter.holders.set pos h = s.iter.holders := by
    obtain ⟨hlt, rfl⟩ := List.getElem?_eq_some_iff.mp hh
    exact List.set_getElem_self hlt
  rw [holderSetValue, hh]
  simp only [ha, if_true, hv, realSetValue_of_asks ha, Bool.and_false, Bool.false_eq_true,
    if_false, State.setHolder, hself]

omit [ContentsCompare D] in
theorem agreed_model {m : Model D} {col row : Nat} (value : GValue D)
    (attributes : GdaValueAttribute) (hcell : (m.cellAt col row).isSome = true) :
    let m' := { m.setCell col row { value := some value, attributes } with
      calls := m.calls ++ [(col, row, value)] }
    m.Framed m' ∧ m.OnlyCell m' col row ∧
      m'.cellAt col row = some { value := some value, attributes } := by
  refine ⟨⟨(Model.framed_setCell m col row _).keys, rfl, rfl⟩, ?_, ?_⟩
  · intro c r hno
    exact (Model.cellAt_setCell hcell _ c r).trans (if_neg hno)
  · exact (Model.cellAt_setCell hcell _ col row).trans (if_pos ⟨rfl, rfl⟩)

theorem holderSetValue_agreed {pos row : Nat} {h : IterHolder D} {value : GValue D}
    (attributes : GdaValueAttribute) (hs : s.Sound) (hc : s.Coherent)
    (hk : s.iter.keepParamChanges = false) (hrow : s.iter.row = some row)
    (hh : s.iter.holders[pos]? = some h) (ha : asks h.holder (some value) = true)
    (hcell : (s.model.cellAt h.modelCol row).isSome = true)
    (hacc : h.holder.accepts (some value) = true) :
    let r := s.holderSetValue pos (some value) (some attributes)
    r.2 = true ∧ WroteOnce s r.1 pos value ∧ r.1.Sound ∧ r.1.Coherent ∧
      r.1.iter.keepParamChanges = false := by
  have hcol : h.modelCol = pos := hs.aligned.modelCol hh
  have hmem := List.mem_of_getElem? hh
  rw [hcol] at hcell
  obtain ⟨hframed, honly, hnew⟩ := agreed_model value attributes hcell
  -- the data model after the value was set, and after a proxy noted the default
  generalize hm : ({ s.model.setCell pos row { value := some value, attributes } with
      calls := s.model.calls ++ [(pos, row, value)] } : Model D) = m at hframed honly hnew
  have hmodel : s.model.setValueAt pos row value (some attributes) = (m, true) := by
    obtain ⟨c, hcase⟩ := Option.isSome_iff_exists.mp hcell
    have hcell' : Model.cellAt { s.model with calls := s.model.calls ++ [(pos, row, value)] } pos
      row =
        some c := hcase
    rw [Model.setValueAt.eq_def]
    simp only [hcell']
    exact congrArg (·, true) hm
  have hv : s.validateHolderChange h (some value) (some attributes) =
      ({ s with model := m }, true) := by
    simp only [validateHolderChange, hrow, hk, hcol, Option.getD_some, hmodel, Bool.false_eq_true,
      if_false]
  have hcalls : m.calls = s.model.calls ++ [(pos, row, value)] := by rw [← hm]
  have hproxy : m.isProxy = s.model.isProxy := by rw [← hm]; rfl
  generalize hh' : ({ h with
      holder := (h.holder.realSetValue (some value) false true).1
      atDefault := h.holder.isDefault (some value) } : IterHolder D) = h'
  have hok : (h.holder.realSetValue (some value) false true).2 = true := by
    rw [realSetValue_of_asks ha]
    exact hacc
  have hcol' : h'.modelCol = h.modelCol := by rw [← hh']
  have hsettled : Settled h'.holder := by
    rw [← hh']
    exact settled_realSetValue (hs.settled h hmem) _ true
  have hshown : ShownAs h'.holder.getValue (some value) := by
    rw [← hh']
    exact (shownAs_realSetValue (hs.settled h hmem) hok).2
  have hdefault : h'.holder.defaultForced = h.holder.isDefault (some value) := by
    rw [← hh', realSetValue_of_asks ha]
    rfl
  -- the data model in the end
  have hlast : ∃ m', (({ s with model := m } : State D).holderAttrChanged h
        (h.holder.isDefault (some value))) = { s with model := m' } ∧
      m'.calls = m.calls ∧ s.model.Framed m' ∧ s.model.OnlyCell m' pos row ∧
      ∃ cell, m'.cellAt pos row = some cell ∧ cell.value.isSome = true ∧
        (cell.value = some value ∨ (s.model.isProxy = true ∧
          h.holder.isDefault (some value) = true ∧ cell.attributes.isDefault = true)) := by
    simp only [holderAttrChanged, hrow]
    split
    · next hcond =>
      simp only [Bool.and_eq_true, hproxy] at hcond
      rw [hcol]
      have hsome : (m.cellAt pos row).isSome = true := by rw [hnew]; rfl
      refine ⟨_, rfl, rfl, hframed.trans (Model.framed_setCell m _ _ _), ?_, ?_⟩
      · intro c r hno
        exact (Model.cellAt_setCell hsome _ c r).trans ((if_neg hno).trans (honly c r hno))
      · exact ⟨_, (Model.cellAt_setCell hsome _ pos row).trans (if_pos ⟨rfl, rfl⟩), rfl,
          .inr ⟨hcond.1.1.1.1, hcond.1.1.1.2, rfl⟩⟩
    · exact ⟨m, rfl, rfl, hframed, honly, _, hnew, rfl, .inl rfl⟩
  obtain ⟨m', hattr, hcalls', hframed', honly', cell, hcellat, hsome, hcellvalue⟩ := hlast
  have hset : s.holderSetValue pos (some value) (some attributes) =
      (({ s with model := m' } : State D).setHolder pos h', true) := by
    rw [holderSetValue, hh]
    simp only [ha, if_true, hv, Bool.and_true, hok, hattr, hh']
  have hsound := hs.setHolder hframed' hh hcol' hsettled
  rw [hset]
  refine ⟨rfl, ⟨row, h, hrow, hh, .inr ⟨hcalls'.trans hcalls, hframed', honly', cell, hcellat,
    hcellvalue⟩⟩, hsound,
    ⟨hsound.aligned, hc.positioned.of_keys rfl rfl hframed'.keys, ?_⟩, hk⟩
  intro row' hrow' h'' hh''
  have hsame : row' = row := Option.some.inj (hrow'.symm.trans hrow)
  subst hsame
  obtain ⟨i, hi⟩ := List.mem_iff_getElem?.mp hh''
  show Shows h''.holder (m'.cellAt h''.modelCol row')
  have hi : (s.iter.holders.set pos h')[i]? = some h'' := hi
  rw [List.getElem?_set] at hi
  by_cases heq : pos = i
  · subst heq
    have hlt : pos < s.iter.holders.length := (List.getElem?_eq_some_iff.mp hh).1
    simp only [if_true, hlt, Option.some.injEq] at hi
    subst hi
    rw [hcol', hcol, hcellat]
    obtain ⟨v, hv⟩ := Option.isSome_iff_exists.mp hsome
    refine .inr ⟨cell, v, rfl, hv, ?_⟩
    rcases hcellvalue with hval | ⟨_, hd, hflag⟩
    · obtain rfl : v = value := Option.some.inj (hv.symm.trans hval)
      exact .inl hshown
    · exact .inr (.inl ⟨hflag, hdefault.trans hd⟩)
  · rw [if_neg heq] at hi
    have hcol'' : h''.modelCol = i := hs.aligned.modelCol hi
    rw [hcol'', honly' i row' (fun hno => heq hno.1.symm), ← hcol'']
    exact hc.showing row' hrow h'' (List.mem_of_getElem? hi)

theorem setValueAt_does {col : Int} {value : GValue D} {answer : Option GdaValueAttribute}
    (hs : s.Sound) (hc : s.Coherent) (hk : s.iter.keepParamChanges = false)
    (hm : s.MeetsSet col value answer) :
    s.Does (.setValueAt col value answer) ∧ (s.setValueAt col value answer).1.Sound ∧
      (s.setValueAt col value answer).1.Coherent ∧
        (s.setValueAt col value answer).1.iter.keepParamChanges = false := by
  rw [Does, State.setValueAt]
  by_cases hcol : s.hasHolder col = true
  · rw [if_pos hcol]
    simp only [hasHolder, Bool.and_eq_true, decide_eq_true_eq] at hcol
    have hlt : col.toNat < s.iter.holders.length := by omega
    have hh : s.iter.holders[col.toNat]? = some s.iter.holders[col.toNat] :=
      List.getElem?_eq_getElem hlt
    generalize s.iter.holders[col.toNat] = h at hh
    obtain ⟨row, hrow, hacc⟩ := hm h hcol.1 hh
    cases ha : asks h.holder (some value) with
    | false =>
      have hsame := holderSetValue_same answer hs hc hrow hh ha
      exact ⟨by rw [if_pos hsame.1]; exact hsame.2.1, hsame.2.2.1, hsame.2.2.2.1,
        hsame.2.2.2.2.trans hk⟩
    | true =>
      by_cases href : answer.isSome = true ∧ (s.model.cellAt h.modelCol row).isSome = true
      · obtain ⟨attributes, rfl⟩ := Option.isSome_iff_exists.mp href.1
        have hset := holderSetValue_agreed attributes hs hc hk hrow hh ha href.2
          (hacc ha rfl href.2)
        exact ⟨by rw [if_pos hset.1]; exact hset.2.1, hset.2.2⟩
      · rw [holderSetValue_refused hk hrow hh ha href]
        exact ⟨⟨rfl, rfl⟩, ⟨hs.aligned, hs.settled, hs.keys, hs.fresh⟩,
          ⟨hc.aligned, hc.positioned, hc.showing⟩, hk⟩
  · rw [if_neg hcol]
    exact ⟨⟨rfl, rfl⟩, hs, hc, hk⟩

end State

end ModelIter

end LibGda

/-! Runs of calls on an iterator, interleaved with changes of the data model. -/

namespace LibGda

open RunInvariant

namespace ModelIter

variable {D : Type}

namespace State

variable [ContentsCompare D] {s : State D}

/-- No row is inserted at the iterator's row or before it, and after a reset each column gets a
holder. -/
def Meets (s : State D) : Event D → Prop
  | .setValueAt col value answer => s.MeetsSet col value answer
  | .insertRow row _ => ∀ current, s.iter.row = some current → row ≤ s.model.rows.length →
      current < row
  | .reset columns rows => ({ s with model := s.model.replaced columns rows } :
      State D).ColumnsFit
  | _ => True

structure Kept (s : State D) : Prop where
  sound : s.Sound
  coherent : s.Coherent
  keep : s.iter.keepParamChanges = false

structure SameRow (s t : State D) (row row' : Nat) : Prop where
  key : t.model.rows[row']?.map Row.key = s.model.rows[row]?.map Row.key
  cell : ∀ col, t.model.cellAt col row' = s.model.cellAt col row

omit [ContentsCompare D] in
theorem sameRow_of_getElem? {t : State D} {row row' : Nat}
    (h : t.model.rows[row']? = s.model.rows[row]?) : SameRow s t row row' := by
  refine ⟨by rw [h], ?_⟩
  intro col
  simp only [Model.cellAt, h]

theorem Kept.follows (hk : s.Kept) {t : State D} {row row' : Nat} (hsound : t.Sound)
    (hrow : s.iter.row = some row) (hrow' : t.iter.row = some row') (hon : t.on = s.on)
    (hholders : t.iter.holders = s.iter.holders)
    (hkeep : t.iter.keepParamChanges = s.iter.keepParamChanges) (hsame : SameRow s t row row') :
    t.Kept := by
  refine ⟨hsound, ⟨hsound.aligned, hsound.positioned ?_, ?_⟩, hkeep.trans hk.keep⟩
  · intro r hr
    obtain rfl : row' = r := Option.some.inj (hrow'.symm.trans hr)
    obtain ⟨key, hkey, hi⟩ := hk.coherent.positioned row hrow
    have hget := (hi row).mpr rfl
    rw [hsame.key, hon, hkey, hget]
    exact ⟨rfl, rfl⟩
  · intro r hr h hh
    obtain rfl : row' = r := Option.some.inj (hrow'.symm.trans hr)
    rw [hsame.cell]
    exact hk.coherent.showing row hrow h (hholders ▸ hh)

theorem Kept.idle (hk : s.Kept) {t : State D} (hsound : t.Sound) (hrow : t.iter.row = none)
    (hkeep : t.iter.keepParamChanges = s.iter.keepParamChanges) : t.Kept :=
  ⟨hsound, coherent_notPositioned hsound.aligned hrow, hkeep.trans hk.keep⟩

theorem Moved.kept {t : State D} (hm : Moved s t) (hk : s.iter.keepParamChanges = false) :
    t.Kept :=
  ⟨hm.sound, hm.coherent, hm.keep hk⟩

section Rows

omit [ContentsCompare D] in
theorem typedColumns_length (cs : List (Column D)) (cells : List (Cell D)) :
    (Model.typedColumns cs cells).length = cs.length := by
  induction cs generalizing cells with
  | nil => cases cells <;> rfl
  | cons c cs ih =>
    cases cells with
    | nil => rfl
    | cons cell cells => simp [Model.typedColumns, ih]

omit [ContentsCompare D] in
theorem rowInserted_shownColumns_length (m : Model D) (row : Nat) (cells : List (Cell D)) :
    (m.rowInserted row cells).shownColumns.length = m.shownColumns.length := by
  rw [Model.rowInserted]
  dsimp only
  split
  · simp [Model.shownColumns, typedColumns_length]
  · rfl

omit [ContentsCompare D] in
theorem rowInserted_rows (m : Model D) (row : Nat) (cells : List (Cell D)) :
    (m.rowInserted row cells).rows = m.rows.insertIdx row ⟨m.nextKey, cells⟩ ∧
      (m.rowInserted row cells).nextKey = m.nextKey + 1 ∧
        (m.rowInserted row cells).calls = m.calls := by
  rw [Model.rowInserted]
  dsimp only
  split
  · exact ⟨rfl, rfl, rfl⟩
  · exact ⟨rfl, rfl, rfl⟩

theorem Kept.inserted (hk : s.Kept) {row : Nat} {cells : List (Cell D)}
    (hle : row ≤ s.model.rows.length)
    (hrow : ∀ current, s.iter.row = some current → current < row) :
    ({ s with model := s.model.rowInserted row cells } : State D).Kept := by
  obtain ⟨hrows, hnext, _⟩ := rowInserted_rows s.model row cells
  have hperm : ((s.model.rows.insertIdx row ⟨s.model.nextKey, cells⟩).map Row.key).Perm
      (s.model.nextKey :: s.model.rows.map Row.key) :=
    (List.perm_insertIdx ⟨s.model.nextKey, cells⟩ s.model.rows hle).map Row.key
  have hsound : ({ s with model := s.model.rowInserted row cells } : State D).Sound := by
    refine ⟨?_, hk.sound.settled, ?_, ?_⟩
    · rw [Aligned, rowInserted_shownColumns_length]
      exact hk.sound.aligned
    · rw [hrows, hperm.nodup_iff, List.nodup_cons]
      exact ⟨fun hmem => Nat.lt_irrefl _ (hk.sound.fresh _ hmem), hk.sound.keys⟩
    · intro key hkey
      rw [hrows] at hkey
      rw [hnext]
      rcases List.mem_cons.mp (hperm.mem_iff.mp hkey) with rfl | hold
      · exact Nat.lt_succ_self _
      · exact Nat.lt_succ_of_lt (hk.sound.fresh key hold)
  cases hcur : s.iter.row with
  | none => exact hk.idle hsound hcur rfl
  | some current =>
    refine hk.follows hsound hcur hcur rfl rfl rfl (sameRow_of_getElem? ?_)
    show (s.model.rowInserted row cells).rows[current]? = _
    rw [hrows, List.getElem?_insertIdx_of_lt (hrow current hcur)]

omit [ContentsCompare D] in
theorem Sound.erased (hs : s.Sound) (row : Nat) :
    ({ s with model := { s.model with rows := s.model.rows.eraseIdx row } } : State D).Sound := by
  have hsub : ((s.model.rows.eraseIdx row).map Row.key).Sublist (s.model.rows.map Row.key) :=
    (List.eraseIdx_sublist s.model.rows row).map Row.key
  exact ⟨hs.aligned, hs.settled, hs.keys.sublist hsub,
    fun key hkey => hs.fresh key (hsub.subset hkey)⟩

theorem Kept.removed (hk : s.Kept) (row : Nat) :
    (({ s with model := { s.model with rows := s.model.rows.eraseIdx row } } :
      State D).modelRowRemovedCb row).Kept := by
  have hsound := hk.sound.erased row
  rw [modelRowRemovedCb]
  split
  · next hcur => exact hk.idle hsound hcur rfl
  · next current hcur =>
    split
    · exact (hsound.invalidateContents.moveToRow (-1)).kept rfl
    · next hne =>
      split
      · next hgt =>
        refine hk.follows ⟨hsound.aligned, hsound.settled, hsound.keys, hsound.fresh⟩ hcur rfl rfl
          rfl rfl (sameRow_of_getElem? ?_)
        show (s.model.rows.eraseIdx row)[current - 1]? = _
        rw [List.getElem?_eraseIdx_of_ge (by omega), Nat.sub_add_cancel (by omega)]
      · next hle =>
        refine hk.follows hsound hcur hcur rfl rfl rfl (sameRow_of_getElem? ?_)
        show (s.model.rows.eraseIdx row)[current]? = _
        rw [List.getElem?_eraseIdx_of_lt (by omega)]

omit [ContentsCompare D] in
theorem modify_keys (rows : List (Row D)) (row : Nat) (cells : List (Cell D)) :
    (rows.modify row ({ · with cells })).map Row.key = rows.map Row.key := by
  apply List.ext_getElem?
  intro i
  simp only [List.getElem?_map, List.getElem?_modify]
  cases rows[i]? with
  | none => rfl
  | some r =>
    by_cases hi : row = i
    · simp [hi]
    · simp [hi]

omit [ContentsCompare D] in
theorem Sound.updated (hs : s.Sound) (row : Nat) (cells : List (Cell D)) :
    ({ s with model := { s.model with rows := s.model.rows.modify row ({ · with cells }) } } :
      State D).Sound := by
  refine ⟨hs.aligned, hs.settled, ?_, ?_⟩
  · rw [modify_keys]
    exact hs.keys
  · rw [modify_keys]
    exact hs.fresh

theorem Kept.updated (hk : s.Kept) (row : Nat) (cells : List (Cell D)) :
    (({ s with model := { s.model with rows := s.model.rows.modify row ({ · with cells }) } } :
      State D).modelRowUpdatedCb row).Kept := by
  have hsound := hk.sound.updated row cells
  rw [modelRowUpdatedCb]
  split
  · have hmoved := (hsound.keeping true).moveToRow row
    exact ⟨hmoved.sound.keeping false,
      ⟨hmoved.coherent.aligned, hmoved.coherent.positioned, hmoved.coherent.showing⟩, rfl⟩
  · next hne =>
    cases hcur : s.iter.row with
    | none => exact hk.idle hsound hcur rfl
    | some current =>
      refine hk.follows hsound hcur hcur rfl rfl rfl (sameRow_of_getElem? ?_)
      show (s.model.rows.modify row ({ · with cells }))[current]? = _
      have hne : row ≠ current := fun heq => hne (hcur.trans (congrArg some heq.symm))
      simp [hne]

theorem Ordered.reset (ho : s.Ordered) (hfit : s.ColumnsFit)
    (hkeys : (s.model.rows.map Row.key).Nodup)
    (hfresh : ∀ key ∈ s.model.rows.map Row.key, key < s.model.nextKey) : s.modelResetCb.Kept := by
  have hsound := invalidateContents_sound (ho.redefined hfit) hkeys hfresh
  dsimp only [modelResetCb]
  generalize (if s.sameHolders = true then s.currentRow else -1) = row
  split
  · exact (hsound.moveToRow row).kept rfl
  · exact (hsound.moveToRow (-1)).kept rfl

omit [ContentsCompare D] in
theorem replaced_keys (m : Model D) (columns : List (Column D)) (rows : List (List (Cell D))) :
    (m.replaced columns rows).rows.map Row.key = List.range' m.nextKey rows.length := by
  apply List.ext_getElem
  · simp [Model.replaced]
  · intro i _ _
    simp [Model.replaced]

theorem reset_kept (ho : s.Ordered) {columns : List (Column D)} {rows : List (List (Cell D))}
    (hfit : ({ s with model := s.model.replaced columns rows } : State D).ColumnsFit) :
    ({ s with model := s.model.replaced columns rows } : State D).modelResetCb.Kept := by
  apply Ordered.reset
  · exact ho
  · exact hfit
  · rw [replaced_keys]
    exact List.nodup_range'
  · intro key hkey
    rw [replaced_keys, List.mem_range'_1] at hkey
    exact hkey.2

end Rows

section Calls

theorem Moved.calls {t : State D} (hm : Moved s t) : t.model.calls = s.model.calls := by
  rw [hm.model]

theorem removedCb_calls (hs : s.Sound) (row : Nat) :
    (s.modelRowRemovedCb row).model.calls = s.model.calls := by
  rw [modelRowRemovedCb]
  split
  · rfl
  · split
    · have hcalls := (hs.invalidateContents.moveToRow (-1)).calls
      exact hcalls
    · split <;> rfl

theorem updatedCb_calls (hs : s.Sound) (row : Nat) :
    (s.modelRowUpdatedCb row).model.calls = s.model.calls := by
  rw [modelRowUpdatedCb]
  split
  · have hcalls := ((hs.keeping true).moveToRow row).calls
    exact hcalls
  · rfl

theorem resetCb_calls (ho : s.Ordered) (hfit : s.ColumnsFit)
    (hkeys : (s.model.rows.map Row.key).Nodup)
    (hfresh : ∀ key ∈ s.model.rows.map Row.key, key < s.model.nextKey) :
    s.modelResetCb.model.calls = s.model.calls := by
  have hsound := invalidateContents_sound (ho.redefined hfit) hkeys hfresh
  dsimp only [modelResetCb]
  generalize (if s.sameHolders = true then s.currentRow else -1) = row
  split
  · have hcalls := (hsound.moveToRow row).calls
    exact hcalls
  · have hcalls := (hsound.moveToRow (-1)).calls
    exact hcalls

end Calls

theorem Kept.step (hk : s.Kept) {e : Event D} (hm : s.Meets e) :
    s.Does e ∧ (s.step e).Kept := by
  cases e with
  | moveToRow row =>
    have hmoved := hk.sound.moveToRow row
    exact ⟨hmoved.calls, hmoved.kept hk.keep⟩
  | moveNext =>
    have hmoved := hk.sound.moveNext
    exact ⟨hmoved.calls, hmoved.kept hk.keep⟩
  | movePrev =>
    have hmoved := hk.sound.movePrev hk.coherent.positioned
    exact ⟨hmoved.calls, hmoved.kept hk.keep⟩
  | setValueAt col value answer =>
    obtain ⟨hdoes, hsound, hcoherent, hkeep⟩ := setValueAt_does hk.sound hk.coherent hk.keep hm
    exact ⟨hdoes, hsound, hcoherent, hkeep⟩
  | invalidateContents =>
    exact ⟨rfl, hk.sound.invalidateContents, hk.coherent.invalidateContents, rfl⟩
  | insertRow row cells =>
    show (s.step (.insertRow row cells)).model.calls = s.model.calls ∧ _
    rw [State.step, happen]
    dsimp only
    split
    · next hle =>
      exact ⟨(rowInserted_rows s.model row cells).2.2,
        hk.inserted hle (fun current hcur => hm current hcur hle)⟩
    · exact ⟨rfl, hk⟩
  | removeRow row =>
    show (s.step (.removeRow row)).model.calls = s.model.calls ∧ _
    rw [State.step, happen]
    dsimp only
    split
    · exact ⟨removedCb_calls (hk.sound.erased row) row, hk.removed row⟩
    · exact ⟨rfl, hk⟩
  | updateRow row cells =>
    show (s.step (.updateRow row cells)).model.calls = s.model.calls ∧ _
    rw [State.step, happen]
    dsimp only
    split
    · exact ⟨updatedCb_calls (hk.sound.updated row cells) row, hk.updated row cells⟩
    · exact ⟨rfl, hk⟩
  | reset columns rows =>
    refine ⟨?_, reset_kept hk.sound.aligned.ordered hm⟩
    have hkeys : (s.model.replaced columns rows).rows.map Row.key =
        List.range' s.model.nextKey rows.length := replaced_keys s.model columns rows
    refine resetCb_calls hk.sound.aligned.ordered hm ?_ ?_
    · rw [hkeys]
      exact List.nodup_range'
    · intro key hkey
      rw [hkeys, List.mem_range'_1] at hkey
      exact hkey.2

def ofRows (isProxy : Bool) (columns : List (Column D)) (rows : List (List (Cell D))) :
    Model D :=
  ({ isProxy, columns := [], rows := [], nextKey := 0 } : Model D).replaced columns rows

/-- The iterator is always at its row, its holders show that row, and only values which are set
through it go to the data model, each to its cell. -/
theorem iter_follows_model (isProxy : Bool) (columns : List (Column D))
    (rows : List (List (Cell D)))
    (hfit : ({ model := ofRows isProxy columns rows } : State D).ColumnsFit)
    (events : List (Event D)) (hm : EveryStep State.step Meets
      (create (ofRows isProxy columns rows))
      events) :
    (create (ofRows isProxy columns rows)).Coherent ∧
      EveryStep State.step (fun s e => s.Does e ∧ (s.step e).Coherent)
        (create (ofRows isProxy columns rows)) events := by
  have hnew : (create (ofRows isProxy columns rows)).Kept :=
    @reset_kept D _ { model := { isProxy, columns := [], rows := [], nextKey := 0 } } rfl columns
      rows hfit
  refine ⟨hnew.coherent, ?_⟩
  generalize create (ofRows isProxy columns rows) = s at hnew hm
  induction events generalizing s with
  | nil => trivial
  | cons e events ih =>
    obtain ⟨hdoes, hkept⟩ := hnew.step hm.1
    exact ⟨⟨hdoes, hkept.coherent⟩, ih _ hkept hm.2⟩

end State

section Example

def exampleColumn (allowNull : Bool) : Column Int where
  gType := some 0
  allowNull

def exampleCell (i : Int) : Cell Int where
  value := some (.data 0 i)

def exampleEvents : List (Event Int) :=
  [.moveToRow 1, .setValueAt 0 (.data 0 9) (some {}), .removeRow 0, .insertRow 1 [exampleCell 5],
    .moveNext, .setValueAt 0 .null none]

theorem iter_follows_example :
    EveryStep State.step (fun s e => s.Does e ∧ (s.step e).Coherent)
      (State.create (State.ofRows false [exampleColumn false]
        [[exampleCell 1], [exampleCell 2], [exampleCell 3]])) exampleEvents := by
  refine (State.iter_follows_model false [exampleColumn false]
    [[exampleCell 1], [exampleCell 2], [exampleCell 3]] ?_ exampleEvents ?_).2
  · exact ⟨fun id hid => (by cases hid), trivial⟩
  · refine ⟨trivial, ?_, trivial, ?_, trivial, ?_, trivial⟩
    · intro h _ hh
      refine ⟨1, by decide, ?_⟩
      intro _ _ _
      obtain rfl := Option.some.inj hh
      decide
    · intro current hcur _
      obtain rfl := Option.some.inj hcur
      decide
    · intro h _ hh
      refine ⟨1, by decide, ?_⟩
      intro _ hf
      cases hf

/-- A row which is inserted before the iterator's row: its number is that of another row, to which
a value goes that is set next. -/
theorem insert_moves_iter :
    ¬ ∀ (isProxy : Bool) (columns : List (Column Int)) (rows : List (List (Cell Int)))
      (events : List (Event Int)),
      EveryStep State.step (fun s e => s.Does e ∧ (s.step e).Coherent)
        (State.create (State.ofRows isProxy columns rows)) events := by
  intro hall
  have hrun := hall false [exampleColumn true] [[exampleCell 1]]
    [.moveToRow 0, .insertRow 0 [exampleCell 2]]
  obtain ⟨key, hon, hkey⟩ := hrun.2.1.2.positioned 0 (by decide)
  have hzero : key = 0 := Option.some.inj (hon.symm.trans (by decide))
  subst hzero
  have hfirst := (hkey 0).mpr rfl
  exact absurd hfirst (by decide)

end Example

end ModelIter

end LibGda
