import LibGda.ArrayXmlText

/-! The rows which the export writes, and what the two import functions make of them. -/

namespace LibGda

namespace ArrayXml

open Xml TerminatedBuffer

variable {D : Type}

section Loop

variable [ContentsCompare D] (m : ModelIter.Model D)

/-- The iterator after it was moved `k + 1` times. -/
def stateAt : Nat → ModelIter.State D
  | 0 => (ModelIter.State.create m).moveNext.1
  | k + 1 => (stateAt k).moveNext.1

def shownAt (row col : Nat) : Option (GValue D) :=
  ((stateAt m row).iter.holders[col]?).bind fun h => h.holder.getValue

theorem create_row : (ModelIter.State.create m).iter.row = none := by
  have hrow (s : ModelIter.State D) (hs : s.iter.row = none) : s.modelResetCb.iter.row = none := by
    have hcurrent : s.currentRow = -1 := by simp [ModelIter.State.currentRow, hs]
    have hinv : s.redefined.invalidateContents.iter.row = none := hs
    simp [ModelIter.State.modelResetCb, hcurrent, ModelIter.State.moveToRow, hinv,
      ModelIter.State.notPositioned]
  exact hrow _ rfl

theorem create_model : (ModelIter.State.create m).model = m := by
  have hmodel (s : ModelIter.State D) (hs : s.iter.row = none) : s.modelResetCb.model =
    s.model := by
    have hcurrent : s.currentRow = -1 := by simp [ModelIter.State.currentRow, hs]
    have hinv : s.redefined.invalidateContents.iter.row = none := hs
    simp only [ModelIter.State.modelResetCb, hcurrent, ite_self, ModelIter.State.moveToRow, hinv]
    rfl
  exact hmodel _ rfl

variable {m}

theorem moveNext_model (s : ModelIter.State D) : s.moveNext.1.model = s.model := by
  rw [ModelIter.State.moveNext]
  split
  · rfl
  · rw [ModelIter.State.positionAt_eq]

theorem moveNext_row {s : ModelIter.State D} {k : Nat} (hrow : s.currentRow + 1 = k) :
    s.moveNext.1.iter.row = if k < s.model.rows.length then some k else none := by
  simp only [ModelIter.State.moveNext, hrow]
  split
  · next hge =>
    rw [if_neg (by omega)]
    rfl
  · next hlt =>
    rw [if_pos (by omega), ModelIter.State.positionAt_eq]
    rfl

theorem stateAt_model (k : Nat) : (stateAt m k).model = m := by
  induction k with
  | zero => rw [stateAt, moveNext_model, create_model]
  | succ k ih => rw [stateAt, moveNext_model, ih]

theorem stateAt_row {k : Nat} (hk : k ≤ m.rows.length) :
    (stateAt m k).iter.row = if k < m.rows.length then some k else none := by
  induction k with
  | zero =>
    have hrow : (ModelIter.State.create m).currentRow + 1 = (0 : Nat) := by
      simp [ModelIter.State.currentRow, create_row]
    rw [stateAt, moveNext_row hrow, create_model]
  | succ k ih =>
    have hcurrent : (stateAt m k).currentRow + 1 = (k + 1 : Nat) := by
      rw [ModelIter.State.currentRow, ih (by omega), if_pos (by omega)]
      rfl
    rw [stateAt, moveNext_row hcurrent, stateAt_model]

theorem first_moveNext : ((ModelIter.State.create m).moveNext).2 = decide (0 < m.rows.length) := by
  have hrow : (ModelIter.State.create m).currentRow + 1 = (0 : Nat) := by
    simp [ModelIter.State.currentRow, create_row]
  simp only [ModelIter.State.moveNext, hrow, create_model]
  split
  · next hge => exact (decide_eq_false (by omega)).symm
  · next hlt => exact (decide_eq_true (by omega)).symm

end Loop

section Written

variable (texts : ValueTexts D)

def Writes (s : ModelIter.State D) (col : Nat × Option String) (node : Node) : Prop :=
  ∃ v str, ((s.iter.holders[col.1]?).bind fun h => h.holder.getValue) = some v ∧
    valueText texts v = .ok str ∧ node = valueNode col.2 str

theorem dumpValues_iff {s : ModelIter.State D} {cols : List (Nat × Option String)}
    {nodes : List Node} :
    dumpValues texts s cols = .ok (some nodes) ↔ List.Forall₂ (Writes texts s) cols nodes := by
  induction cols generalizing nodes with
  | nil => simp [dumpValues, eq_comm]
  | cons col cols ih =>
    obtain ⟨c, colid⟩ := col
    rw [dumpValues]
    cases hv : (s.iter.holders[c]?).bind fun h => h.holder.getValue with
    | none =>
      refine iff_of_false nofun ?_
      intro h
      cases h with
      | cons hw _ =>
        obtain ⟨v, _, hshown, _⟩ := hw
        rw [hv] at hshown
        cases hshown
    | some v =>
      cases ht : valueText texts v with
      | error fault =>
        refine iff_of_false (by simp [bind, Except.bind, ht]) ?_
        intro h
        cases h with
        | cons hw _ =>
          obtain ⟨v', str, hshown, htext, _⟩ := hw
          obtain rfl := Option.some.inj (hv.symm.trans hshown)
          rw [ht] at htext
          cases htext
      | ok str =>
        constructor
        · intro h
          cases hrest : dumpValues texts s cols with
          | error fault => simp [bind, Except.bind, ht, hrest] at h
          | ok rest =>
            cases rest with
            | none => simp [bind, Except.bind, ht, hrest, pure, Except.pure] at h
            | some rest =>
              simp only [bind, Except.bind, ht, hrest, pure, Except.pure, Option.map_some,
                Except.ok.injEq, Option.some.injEq] at h
              rw [← h]
              exact .cons ⟨v, str, hv, ht, rfl⟩ (ih.mp hrest)
        · intro h
          cases h with
          | cons hw hrest =>
            obtain ⟨v', str', hshown, htext, rfl⟩ := hw
            obtain rfl := Option.some.inj (hv.symm.trans hshown)
            obtain rfl := Except.ok.inj (ht.symm.trans htext)
            simp [bind, Except.bind, ht, ih.mpr hrest, pure, Except.pure]

variable [ContentsCompare D] {m : ModelIter.Model D}

def selectedFrom (m : ModelIter.Model D) (rows : Option (List Nat)) (k : Nat) : List Nat :=
  (List.range' k (m.rows.length - k)).filter fun r => rows.elim true (r ∈ ·)

def WritesRow (cols : List (Nat × Option String)) (k : Nat) (node : Node) : Prop :=
  ∃ fields, dumpValues texts (stateAt m k) cols = .ok (some fields) ∧
    node = .element "gda_array_row" [] fields

theorem dumpRows_iff (cols : List (Nat × Option String)) (rows : Option (List Nat))
    {fuel k : Nat} (hk : k ≤ m.rows.length) (hfuel : m.rows.length - k < fuel)
    {nodes : List Node} :
    dumpRows texts cols rows fuel (stateAt m k) = .ok (some nodes) ↔
      List.Forall₂ (@WritesRow D texts _ m cols) (selectedFrom m rows k) nodes := by
  induction fuel generalizing k nodes with
  | zero => omega
  | succ fuel ih =>
    rw [dumpRows, stateAt_row hk]
    by_cases hlt : k < m.rows.length
    · have hrange : List.range' k (m.rows.length - k) =
          k :: List.range' (k + 1) (m.rows.length - (k + 1)) := by
        rw [← List.range'_succ]
        congr 1
        omega
      have hnext := @ih (k + 1) (by omega) (by omega)
      simp only [if_pos hlt, selectedFrom, hrange, List.filter_cons]
      by_cases hsel : rows.elim true (k ∈ ·) = true
      · rw [if_pos hsel, if_pos hsel]
        constructor
        · intro h
          cases hvals : dumpValues texts (stateAt m k) cols with
          | error fault => simp [bind, Except.bind, hvals] at h
          | ok vals =>
            cases vals with
            | none => simp [bind, Except.bind, hvals, pure, Except.pure] at h
            | some fields =>
              cases hrest : dumpRows texts cols rows fuel (stateAt m k).moveNext.1 with
              | error fault => simp [bind, Except.bind, hvals, hrest] at h
              | ok rest =>
                cases rest with
                | none => simp [bind, Except.bind, hvals, hrest, pure, Except.pure] at h
                | some rest =>
                  simp only [bind, Except.bind, hvals, hrest, pure, Except.pure, Option.map_some,
                    Except.ok.injEq, Option.some.injEq] at h
                  rw [← h]
                  exact .cons ⟨fields, hvals, rfl⟩ (hnext.mp hrest)
        · intro h
          cases h with
          | cons hw hrest =>
            obtain ⟨fields, hvals, rfl⟩ := hw
            have hdump : dumpRows texts cols rows fuel (stateAt m k).moveNext.1 = _ :=
              hnext.mpr hrest
            simp [bind, Except.bind, hvals, hdump, pure, Except.pure]
      · rw [if_neg hsel, if_neg hsel]
        exact hnext
    · have hend : m.rows.length - k = 0 := by omega
      simp [if_neg hlt, selectedFrom, hend, eq_comm]

end Written

end ArrayXml

end LibGda

/-! What is read of the rows which the export writes. -/

namespace LibGda

namespace ArrayXml

open Xml TerminatedBuffer

variable {D : Type} {texts : ValueTexts D} {lang : String}

abbrev Transfer := (Nat × Option String) × ReadColumn

def readText (texts : ValueTexts D) (type : GType) :
    Option CBytes → Except ScanFault (Option (GValue D))
  | none => .ok none
  | some s => (texts.setFromString type s).map fun v => some (v.getD .null)

def Carries (texts : ValueTexts D) (s : ModelIter.State D) (t : Transfer) (w : GValue D) : Prop :=
  ∃ v str u type, ((s.iter.holders[t.1.1]?).bind fun h => h.holder.getValue) = some v ∧
    valueText texts v = .ok str ∧ t.2.gType = some type ∧
      readText texts (some type) str = .ok u ∧ w = u.getD .null

def PlacesFrom (columns : List ReadColumn) : Nat → List Transfer → Prop
  | _, [] => True
  | i, t :: ts => (∀ id ∈ t.1.2, findColumnFromId columns id = some i) ∧
      PlacesFrom columns (i + 1) ts

theorem getContent_valueNode (colid : Option String) (s : CBytes) :
    (valueNode colid (some s)).getContent = s := by
  cases colid with
  | some id => exact Node.getContent_text _ _ s
  | none =>
    by_cases hs : s.1 = []
    · apply Subtype.ext
      simp only [valueNode, hs, ne_eq, not_true_eq_false, if_false]
      exact Node.getContent_empty _ _
    · simp only [valueNode, ne_eq, hs, not_false_eq_true, if_true]
      exact Node.getContent_text _ _ s

section Fields

variable {columns : List ReadColumn} {f g : RowFill D}

theorem addXmlField_valueNode (colid : Option String) (str : Option CBytes)
    (hplace : ∀ id ∈ colid, findColumnFromId columns id = some f.pos)
    (hpos : f.pos < f.values.length) :
    addXmlField texts lang columns f (valueNode colid str) =
      match (columns[f.pos]?).bind ReadColumn.gType with
      | none => .ok (f.setError
          "Cannot retrieve column data type (type is UNKNOWN or not specified)", false)
      | some t =>
        match readText texts (some t) str with
        | .error fault => .error (.scan fault)
        | .ok value => .ok ({ f with
            values := f.values.set f.pos value
            pos := f.pos + 1 }, true) := by
  have htext : (valueNode colid str).isText = false := by cases colid <;> rfl
  have hname : ¬((valueNode colid str).name ≠ "gda_value" ∧
      (valueNode colid str).name ≠ "gda_array_value") := by
    cases colid <;> simp [valueNode, Node.name]
  have hlang : (valueNode colid str).getProp "lang" = none := by
    cases colid <;> cases str <;> simp [valueNode, Node.getProp, List.lookup]
  have hcolid : (valueNode colid str).getProp "colid" = colid := by
    cases colid <;> cases str <;> simp [valueNode, Node.getProp, List.lookup]
  have hnull : ((valueNode colid str).getProp "isnull").any startsWithT = str.isNone := by
    cases colid <;> cases str <;> simp [valueNode, Node.getProp, List.lookup, startsWithT]
  have hfound : valuePlace columns f.pos false colid = some (f.pos, columns[f.pos]?) := by
    cases colid with
    | none => simp [valuePlace]
    | some id => simp [valuePlace, hplace id rfl]
  simp only [addXmlField, htext, Bool.false_eq_true, if_false, if_neg hname, hlang, Option.any_none,
    Option.isSome_none, hcolid, hfound, hnull]
  cases (columns[f.pos]?).bind ReadColumn.gType with
  | none => rfl
  | some t =>
    cases str with
    | none => simp [readText, hpos]
    | some s =>
      simp only [Option.isNone_some, Bool.false_eq_true, if_false, getContent_valueNode, readText]
      cases texts.setFromString (some t) s with
      | error fault => rfl
      | ok v => simp [Except.map, hpos]

/-- Where the row is while its values are read: the columns and the values before, and those which
are still to be read. -/
structure Reading (columns : List ReadColumn) (ts : List Transfer) (done : List (Option (GValue D)))
    (f : RowFill D) : Prop where
  rest : columns.drop done.length = ts.map Prod.snd
  places : PlacesFrom columns done.length ts
  pos : f.pos = done.length
  values : f.values = done ++ List.replicate ts.length none

theorem Reading.next {t : Transfer} {ts : List Transfer} {done : List (Option (GValue D))}
    (h : Reading columns (t :: ts) done f) (u : Option (GValue D)) :
    Reading columns ts (done ++ [u]) { f with values := f.values.set f.pos u, pos := f.pos + 1 }
      where
  rest := by
    have hdrop := congrArg List.tail h.rest
    simpa [List.tail_drop] using hdrop
  places := by simpa using h.places.2
  pos := by simp [h.pos]
  values := by
    rw [h.values, h.pos]
    simp [List.replicate_succ]

theorem Reading.field {t : Transfer} {ts : List Transfer} {done : List (Option (GValue D))}
    (h : Reading columns (t :: ts) done f) (str : Option CBytes) :
    addXmlField texts lang columns f (valueNode t.1.2 str) =
      match t.2.gType with
      | none => .ok (f.setError
          "Cannot retrieve column data type (type is UNKNOWN or not specified)", false)
      | some type =>
        match readText texts (some type) str with
        | .error fault => .error (.scan fault)
        | .ok value => .ok ({ f with
            values := f.values.set f.pos value
            pos := f.pos + 1 }, true) := by
  have hcol : columns[f.pos]? = some t.2 := by
    have hhead := congrArg List.head? h.rest
    simpa [h.pos, List.head?_drop] using hhead
  have hlt : f.pos < f.values.length := by
    rw [h.values, h.pos]
    simp
  rw [addXmlField_valueNode _ _ (by rw [h.pos]; exact h.places.1) hlt, hcol]
  rfl

theorem carries_of_read {s : ModelIter.State D} {ts : List Transfer}
    {done : List (Option (GValue D))} {nodes : List Node} (h : Reading columns ts done f)
    (hnodes : List.Forall₂ (Writes texts s) (ts.map Prod.fst) nodes)
    (hread : addXmlFields texts lang columns f nodes = .ok (g, true)) :
    ∃ row, List.Forall₂ (Carries texts s) ts row ∧
      g.values.map (·.getD .null) = done.map (·.getD .null) ++ row := by
  induction ts generalizing done f nodes with
  | nil =>
    cases hnodes
    obtain rfl := (Prod.mk.inj (Except.ok.inj hread)).1
    exact ⟨[], .nil, by simp [h.values]⟩
  | cons t ts ih =>
    cases hnodes with
    | @cons _ node _ nodes hw hnodes =>
      obtain ⟨v, str, hshown, htext, rfl⟩ := hw
      rw [addXmlFields, h.field] at hread
      cases ht : t.2.gType with
      | none => simp [ht, bind, Except.bind, pure, Except.pure] at hread
      | some type =>
        cases hu : readText texts (some type) str with
        | error fault => simp [ht, hu, bind, Except.bind] at hread
        | ok u =>
          simp only [ht, hu, bind, Except.bind, if_true] at hread
          obtain ⟨row, hrow, hvalues⟩ := ih (h.next u) hnodes hread
          refine ⟨u.getD .null :: row, .cons ⟨v, str, u, type, hshown, htext, ht, hu, rfl⟩ hrow, ?_⟩
          rw [hvalues]
          simp

theorem read_of_carries {s : ModelIter.State D} {ts : List Transfer}
    {done : List (Option (GValue D))} {row : List (GValue D)} (h : Reading columns ts done f)
    (hrow : List.Forall₂ (Carries texts s) ts row) :
    ∃ nodes g, List.Forall₂ (Writes texts s) (ts.map Prod.fst) nodes ∧
      addXmlFields texts lang columns f nodes = .ok (g, true) ∧ g.error = f.error ∧
        g.values.map (·.getD .null) = done.map (·.getD .null) ++ row := by
  induction ts generalizing done f row with
  | nil =>
    cases hrow
    exact ⟨[], f, .nil, rfl, rfl, by simp [h.values]⟩
  | cons t ts ih =>
    cases hrow with
    | cons hw hrest =>
      obtain ⟨v, str, u, type, hshown, htext, ht, hu, rfl⟩ := hw
      obtain ⟨nodes, g, hnodes, hread, herror, hvalues⟩ := ih (h.next u) hrest
      refine ⟨valueNode t.1.2 str :: nodes, g, .cons ⟨v, str, hshown, htext, rfl⟩ hnodes, ?_,
        herror, ?_⟩
      · rw [addXmlFields, h.field, ht]
        simp only [hu, bind, Except.bind, if_true]
        exact hread
      · rw [hvalues]
        simp

end Fields

section Rows

variable {am : ArrayModel D} {ts : List Transfer}

theorem reading_start (hcolumns : am.columns = ts.map Prod.snd)
    (hplaces : PlacesFrom am.columns 0 ts) (error : Option String) :
    Reading am.columns ts []
      ({ values := List.replicate am.columns.length none, error } : RowFill D) where
  rest := by simpa using hcolumns
  places := hplaces
  pos := rfl
  values := by simp [hcolumns]

variable [ContentsCompare D] {m : ModelIter.Model D}

theorem carries_of_read_rows {ks : List Nat} {nodes : List Node} {error : Option String}
    {r : ArrayModel D × Option String × Bool} (hcolumns : am.columns = ts.map Prod.snd)
    (hplaces : PlacesFrom am.columns 0 ts)
    (hnodes : List.Forall₂ (@WritesRow D texts _ m (ts.map Prod.fst)) ks nodes)
    (hread : addXmlRows texts lang am error nodes = .ok r) (hok : r.2.2 = true) :
    ∃ rows, List.Forall₂ (fun k row => List.Forall₂ (Carries texts (stateAt m k)) ts row) ks rows ∧
      r.1.rows = am.rows ++ rows := by
  induction hnodes generalizing am error with
  | nil =>
    obtain rfl := Except.ok.inj hread
    exact ⟨[], .nil, by simp⟩
  | @cons k node ks nodes hw _ ih =>
    obtain ⟨fields, hfields, rfl⟩ := hw
    have hstart := reading_start (D := D) hcolumns hplaces error
    have hname : (Node.element "gda_array_row" [] fields).name = "gda_array_row" := rfl
    rw [addXmlRows, if_pos hname, addXmlRow] at hread
    cases hrow : addXmlFields texts lang am.columns
        { values := List.replicate am.columns.length none, error } fields with
    | error fault => simp [Node.children, hrow, bind, Except.bind] at hread
    | ok f =>
      cases hf : f.2 with
      | false =>
        simp only [Node.children, hrow, hf, bind, Except.bind, pure, Except.pure,
          Bool.false_eq_true, if_false, Except.ok.injEq] at hread
        rw [← hread] at hok
        cases hok
      | true =>
        simp only [Node.children, hrow, hf, bind, Except.bind, pure, Except.pure, if_true] at hread
        obtain ⟨row, hcarries, hvalues⟩ := carries_of_read hstart
          (dumpValues_iff texts |>.mp hfields)
          (hrow.trans (congrArg Except.ok (Prod.ext rfl hf)))
        obtain ⟨rows, hrows, hall⟩ := @ih { am with rows := am.rows ++ _ } _ hcolumns hplaces hread
        refine ⟨row :: rows, .cons hcarries hrows, ?_⟩
        rw [hall, hvalues]
        simp

theorem read_of_carries_rows {ks : List Nat} {rows : List (List (GValue D))}
    (hcolumns : am.columns = ts.map Prod.snd) (hplaces : PlacesFrom am.columns 0 ts)
    (hrows : List.Forall₂ (fun k row => List.Forall₂ (Carries texts (stateAt m k)) ts row) ks
      rows) :
    ∃ nodes, List.Forall₂ (@WritesRow D texts _ m (ts.map Prod.fst)) ks nodes ∧
      addXmlRows texts lang am none nodes =
        .ok ({ am with rows := am.rows ++ rows }, none, true) := by
  induction hrows generalizing am with
  | nil => exact ⟨[], .nil, by simp [addXmlRows]⟩
  | @cons k row ks rows hrow _ ih =>
    have hstart := reading_start (D := D) hcolumns hplaces none
    obtain ⟨fields, g, hfields, hread, herror, hvalues⟩ :=
      @read_of_carries D texts lang _ _ _ _ _ _ hstart hrow
    obtain ⟨nodes, hnodes, hall⟩ := @ih { am with rows := am.rows ++ [row] } hcolumns hplaces
    refine ⟨.element "gda_array_row" [] fields :: nodes,
      .cons ⟨fields, (dumpValues_iff texts).mpr hfields, rfl⟩ hnodes, ?_⟩
    have hname : (Node.element "gda_array_row" [] fields).name = "gda_array_row" := rfl
    rw [addXmlRows, if_pos hname, addXmlRow]
    simp only [Node.children, hread, bind, Except.bind, pure, Except.pure, if_true, hvalues, herror,
      List.map_nil, List.nil_append, hall]
    simp

end Rows

end ArrayXml

end LibGda
