import LibGda.ArrayXmlRows

/-! When the columns and the rows which are exported as XML are read back. -/

namespace List

theorem exists_forall₂_and_iff {α β γ : Type} {A : α → γ → Prop} {B : β → γ → Prop}
    {xs : List α} {ys : List β} :
    (∃ zs, Forall₂ A xs zs ∧ Forall₂ B ys zs) ↔
      Forall₂ (fun x y => ∃ z, A x z ∧ B y z) xs ys := by
  constructor
  · rintro ⟨zs, hA, hB⟩
    induction hA generalizing ys with
    | nil =>
      cases hB
      exact .nil
    | cons hz _ ih =>
      cases hB with
      | cons hw hB => exact .cons ⟨_, hz, hw⟩ (ih hB)
  · intro h
    induction h with
    | nil => exact ⟨[], .nil, .nil⟩
    | cons hz _ ih =>
      obtain ⟨z, hA, hB⟩ := hz
      obtain ⟨zs, hAs, hBs⟩ := ih
      exact ⟨z :: zs, .cons hA hAs, .cons hB hBs⟩

end List

namespace LibGda

namespace ArrayXml

open Xml TerminatedBuffer

variable {D : Type} [ContentsCompare D]

def Agrees (a b : GValue D) : Prop :=
  a = b ∨ (a.valueType = b.valueType ∧ gdaValueDiffer a b = false)

section Property

variable (texts : ValueTexts D) (lang : String) (m : ModelIter.Model D) (sel : Selection)

omit [ContentsCompare D] in
def SameColumns (read : List ReadColumn) : Prop :=
  List.Forall₂ (fun col r => ∃ c, m.columns[col]? = some c ∧ r.id = c.id ∧ r.gType = c.gType)
    (sel.columns m) read

def SameValue (row col : Nat) (w : GValue D) : Prop :=
  ∃ v, (m.cellAt col row).bind ModelIter.Cell.value = some v ∧ Agrees w v

def SameRows (read : List (List (GValue D))) : Prop :=
  List.Forall₂ (fun row values => List.Forall₂ (SameValue m row) (sel.columns m) values)
    (sel.rows.getD (List.range m.rows.length)) read

omit [ContentsCompare D] in
def destinationColumns : List ReadColumn :=
  (sel.columns m).map fun col =>
    { id := (m.columns[col]?).bind ModelIter.Column.id
      gType := (m.columns[col]?).bind ModelIter.Column.gType }

omit [ContentsCompare D] in
def Added (columns : List ReadColumn) (rows : List (List (GValue D))) : Option Node → Prop
  | none => rows = []
  | some node => ∃ r, addDataFromXmlNode texts lang { columns } node = .ok r ∧
      r.2.2 = true ∧ r.1.rows = rows

def DataReadsBack (columns : List ReadColumn) (useColIds : Bool) : Prop :=
  ∃ data, dumpDataToXml texts m sel useColIds = .ok (some data) ∧
    ∃ rows, SameRows m sel rows ∧ Added texts lang columns rows data

def TreeReadsBack (src : Source D) (name : Option String) : Prop :=
  ∃ node im am, toXmlNode texts src sel name = .ok (some node) ∧
    initNodeImport texts lang node = .ok im ∧ im.errors = [] ∧ im.model = some am ∧
      SameColumns src.model sel am.columns ∧ SameRows src.model sel am.rows

end Property

section Condition

variable (texts : ValueTexts D) (m : ModelIter.Model D) (sel : Selection)

def Survives (k row col : Nat) : Prop :=
  ∃ v str u type, shownAt m k col = some v ∧ valueText texts v = .ok str ∧
    (m.columns[col]?).bind ModelIter.Column.gType = some type ∧
      readText texts (some type) str = .ok u ∧ SameValue m row col (u.getD .null)

/-- The values of the selected rows, which are written in the order of the data model, survive at
their places in the selection. -/
def RowsSurvive : Prop :=
  List.Forall₂ (fun k row => ∀ col ∈ sel.columns m, Survives texts m k row col)
    (selectedFrom m sel.rows 0) (sel.rows.getD (List.range m.rows.length))

omit [ContentsCompare D] in
def Described (col : Nat) : Prop :=
  ∃ c, m.columns[col]? = some c ∧ c.id ≠ none ∧
    (texts.types.fromString ((texts.types.toString c.gType).getD [])).getD texts.types.null =
      c.gType

structure Kept : Prop where
  columns : sel.columns m ≠ []
  described : ∀ col ∈ sel.columns m, Described texts m col
  rows : RowsSurvive texts m sel

end Condition

section Data

variable {texts : ValueTexts D} {lang : String} {m : ModelIter.Model D} {sel : Selection}

theorem dumpDataToXml_iff {useColIds : Bool} {data : Option Node} :
    dumpDataToXml texts m sel useColIds = .ok (some data) ↔
      (m.rows.length = 0 ∧ data = none) ∨ (0 < m.rows.length ∧
        ∃ nodes, data = some (.element "gda_array_data" [] nodes) ∧
          List.Forall₂ (@WritesRow D texts _ m (dumpedColumns m sel useColIds))
            (selectedFrom m sel.rows 0) nodes) := by
  simp only [dumpDataToXml, create_row, first_moveNext, true_and, Bool.not_eq_true',
    decide_eq_false_iff_not, if_true]
  by_cases hn : 0 < m.rows.length
  · have hrows := @dumpRows_iff D texts _ m (dumpedColumns m sel useColIds) sel.rows
      (m.rows.length + 1) 0 (Nat.zero_le _) (by omega)
    rw [if_neg (not_not.mpr hn)]
    constructor
    · intro h
      cases hd : dumpRows texts (dumpedColumns m sel useColIds) sel.rows (m.rows.length + 1)
          (ModelIter.State.create m).moveNext.1 with
      | error fault => simp [bind, Except.bind, hd] at h
      | ok nodes =>
        cases nodes with
        | none => simp [bind, Except.bind, hd, pure, Except.pure] at h
        | some nodes =>
          simp only [bind, Except.bind, hd, pure, Except.pure, Option.map_some, Except.ok.injEq,
            Option.some.injEq] at h
          exact .inr ⟨hn, nodes, h.symm, hrows.mp hd⟩
    · rintro (⟨hzero, _⟩ | ⟨_, nodes, rfl, hnodes⟩)
      · omega
      · have hd : dumpRows texts (dumpedColumns m sel useColIds) sel.rows (m.rows.length + 1)
            (ModelIter.State.create m).moveNext.1 = .ok (some nodes) := hrows.mpr hnodes
        simp [bind, Except.bind, hd, pure, Except.pure]
  · rw [if_pos hn]
    constructor
    · intro h
      exact .inl ⟨by omega, (Option.some.inj (Except.ok.inj h)).symm⟩
    · rintro (⟨_, rfl⟩ | ⟨hpos, _⟩)
      · rfl
      · exact absurd hpos hn

structure Matched (m : ModelIter.Model D) (sel : Selection) (useColIds : Bool)
    (columns : List ReadColumn) (ts : List Transfer) : Prop where
  dumped : ts.map Prod.fst = dumpedColumns m sel useColIds
  selected : (ts.map fun t => t.1.1) = sel.columns m
  found : columns = ts.map Prod.snd
  types : ∀ t ∈ ts, t.2.gType = (m.columns[t.1.1]?).bind ModelIter.Column.gType
  places : PlacesFrom columns 0 ts

theorem rows_survive_iff {useColIds : Bool} {columns : List ReadColumn} {ts : List Transfer}
    (h : Matched m sel useColIds columns ts) :
    (∃ rows, List.Forall₂ (fun k row => List.Forall₂ (Carries texts (stateAt m k)) ts row)
        (selectedFrom m sel.rows 0) rows ∧ SameRows m sel rows) ↔ RowsSurvive texts m sel := by
  have hrow (k row : Nat) :
      (∃ values, List.Forall₂ (Carries texts (stateAt m k)) ts values ∧
        List.Forall₂ (SameValue m row) (sel.columns m) values) ↔
          ∀ col ∈ sel.columns m, Survives texts m k row col := by
    rw [← h.selected]
    simp only [List.forall₂_map_left_iff]
    rw [List.exists_forall₂_and_iff, List.forall₂_same]
    simp only [List.mem_map, forall_exists_index, and_imp, forall_apply_eq_imp_iff₂]
    apply forall₂_congr
    intro t ht
    constructor
    · rintro ⟨w, ⟨v, str, u, type, hshown, htext, htype, hread, rfl⟩, hsame⟩
      exact ⟨v, str, u, type, hshown, htext, (h.types t ht).symm.trans htype, hread, hsame⟩
    · rintro ⟨v, str, u, type, hshown, htext, htype, hread, hsame⟩
      exact ⟨_, ⟨v, str, u, type, hshown, htext, (h.types t ht).trans htype, hread, rfl⟩, hsame⟩
  simp only [SameRows, RowsSurvive, ← hrow]
  exact List.exists_forall₂_and_iff

theorem dataReadsBack_iff {useColIds : Bool} {columns : List ReadColumn} {ts : List Transfer}
    (h : Matched m sel useColIds columns ts) :
    DataReadsBack texts lang m sel columns useColIds ↔ RowsSurvive texts m sel := by
  have hname (nodes : List Node) :
      ¬(Node.element "gda_array_data" [] nodes).name ≠ "gda_array_data" := fun hne => hne rfl
  rw [← rows_survive_iff h]
  constructor
  · rintro ⟨data, hdump, rows, hsame, hread⟩
    refine ⟨rows, ?_, hsame⟩
    rcases dumpDataToXml_iff.mp hdump with ⟨hzero, rfl⟩ | ⟨_, nodes, rfl, hnodes⟩
    · obtain rfl := hread
      have hnone : selectedFrom m sel.rows 0 = [] := by simp [selectedFrom, hzero]
      rw [hnone]
      exact .nil
    · obtain ⟨r, hadd, hok, hrows⟩ := hread
      rw [addDataFromXmlNode, if_neg (hname nodes)] at hadd
      rw [← h.dumped] at hnodes
      obtain ⟨rows', hcarries, hall⟩ :=
        @carries_of_read_rows D texts lang { columns } ts _ m _ _ _ _ h.found h.places hnodes
          hadd hok
      have heq : rows = rows' := by rw [← hrows, hall, List.nil_append]
      rw [heq]
      exact hcarries
  · rintro ⟨rows, hcarries, hsame⟩
    by_cases hn : 0 < m.rows.length
    · obtain ⟨nodes, hnodes, hadd⟩ :=
        @read_of_carries_rows D texts lang { columns } ts _ m _ _ h.found h.places hcarries
      rw [h.dumped] at hnodes
      refine ⟨_, dumpDataToXml_iff.mpr (.inr ⟨hn, nodes, rfl, hnodes⟩), rows, hsame,
        ({ columns, rows }, none, true), ?_, rfl, rfl⟩
      rw [addDataFromXmlNode, if_neg (hname nodes)]
      exact hadd
    · have hzero : m.rows.length = 0 := by omega
      have hnone : selectedFrom m sel.rows 0 = [] := by simp [selectedFrom, hzero]
      rw [hnone] at hcarries
      cases hcarries
      exact ⟨none, dumpDataToXml_iff.mpr (.inl ⟨hzero, rfl⟩), [], hsame, rfl⟩

end Data

end ArrayXml

end LibGda

/-! The whole trees, and the values under the ids of their columns. -/

namespace LibGda

namespace ArrayXml

open Xml TerminatedBuffer DecimalText

variable {D : Type} {texts : ValueTexts D} {lang : String} {m : ModelIter.Model D}
  {sel : Selection}

section Fields

theorem addXmlRows_columns {am : ArrayModel D} {error : Option String} {nodes : List Node}
    {r : ArrayModel D × Option String × Bool}
    (h : addXmlRows texts lang am error nodes = .ok r) : r.1.columns = am.columns := by
  induction nodes generalizing am error with
  | nil =>
    obtain rfl := Except.ok.inj h
    rfl
  | cons node nodes ih =>
    rw [addXmlRows] at h
    split at h
    · rw [addXmlRow] at h
      cases hf : addXmlFields texts lang am.columns
          { values := List.replicate am.columns.length none, error } node.children with
      | error fault => simp [hf, bind, Except.bind] at h
      | ok f =>
        cases hok : f.2 with
        | false =>
          simp only [hf, hok, bind, Except.bind, pure, Except.pure, Bool.false_eq_true, if_false,
            Except.ok.injEq] at h
          rw [← h]
        | true =>
          simp only [hf, hok, bind, Except.bind, pure, Except.pure, if_true] at h
          have hrest := ih h
          exact hrest
    · exact ih h

def typeRead (types : GTypes GType) (type : GType) : GType :=
  (types.fromString ((types.toString type).getD [])).getD types.null

theorem fieldColumn_fieldNode (dbmsType : Option String) (i : Nat) (c : ModelIter.Column D) :
    ∃ r, fieldColumn texts.types true (fieldNode texts dbmsType i c) = .ok r ∧
      r.id = some (c.id.getD ("FI" ++ toString i)) ∧ r.gType = typeRead texts.types c.gType := by
  have hid : (fieldNode texts dbmsType i c).getProp "id" =
      some (c.id.getD ("FI" ++ toString i)) := by
    simp [fieldNode, Node.getProp, List.lookup]
  have hskip (l l' : List (String × String)) (h : ∀ p ∈ l, p.1 ≠ "gdatype") :
      (l ++ l').lookup "gdatype" = l'.lookup "gdatype" := by
    induction l with
    | nil => rfl
    | cons p l ih =>
      have hne : ("gdatype" == p.1) = false := by simpa using (h p List.mem_cons_self).symm
      rw [List.cons_append, List.lookup_cons, hne]
      exact ih fun q hq => h q (List.mem_cons_of_mem _ hq)
  have htype : (fieldNode texts dbmsType i c).getProp "gdatype" =
      some (((texts.types.toString c.gType).map String.ofList).getD "") := by
    simp only [fieldNode, Node.getProp, List.append_assoc]
    rw [List.lookup_cons, show ("gdatype" == "id") = false from by decide, List.lookup_cons,
      show ("gdatype" == "name") = false from by decide]
    simp only
    rw [hskip, hskip, List.singleton_append, List.lookup_cons, beq_self_eq_true]
    · intro p hp
      cases dbmsType with
      | none => cases hp
      | some d =>
        simp only at hp
        split at hp
        · obtain rfl := List.mem_singleton.mp hp
          exact of_decide_eq_false rfl
        · cases hp
    · intro p hp
      cases hdescr : c.description with
      | none =>
        rw [hdescr] at hp
        cases hp
      | some d =>
        simp only [hdescr] at hp
        split at hp
        · obtain rfl := List.mem_singleton.mp hp
          exact of_decide_eq_false rfl
        · cases hp
  rw [fieldColumn, htype]
  refine ⟨_, rfl, hid, ?_⟩
  cases ht : texts.types.toString c.gType with
  | none => simp [typeRead, ht]
  | some str => simp [typeRead, ht]

theorem nodeFields_append {types : GTypes GType} {fields : List Node} {rs : List ReadColumn}
    {data : Option Node}
    (hfields : List.Forall₂ (fun node r => node.isText = false ∧ node.name = "gda_array_field" ∧
      fieldColumn types true node = .ok r) fields rs)
    (hdata : ∀ node ∈ data, node.isText = false ∧ node.name = "gda_array_data") :
    nodeFields types (fields ++ data.toList) = .ok (rs, data) := by
  induction hfields with
  | nil =>
    cases data with
    | none => rfl
    | some node =>
      obtain ⟨htext, hname⟩ := hdata node rfl
      simp [nodeFields, htext, hname]
  | @cons node r fields rs h _ ih =>
    obtain ⟨htext, hname, hcol⟩ := h
    simp [nodeFields, htext, hname, hcol, ih, bind, Except.bind, pure, Except.pure]

theorem fields_read (columns : List (ModelIter.Column D)) (dbms : Nat → Option String)
    (start : Nat) :
    ∃ rs, List.Forall₂ (fun node r => node.isText = false ∧ node.name = "gda_array_field" ∧
        fieldColumn texts.types true node = .ok r)
      (columns.mapIdx fun i c => fieldNode texts (dbms i) (start + i) c) rs ∧
      List.Forall₂ (fun r c => (∃ s, r.id = some s ∧ ∀ id ∈ ModelIter.Column.id c, s = id) ∧
        r.gType = typeRead texts.types c.gType) rs columns := by
  induction columns generalizing dbms start with
  | nil => exact ⟨[], .nil, .nil⟩
  | cons c columns ih =>
    obtain ⟨r, hread, hid, htype⟩ := @fieldColumn_fieldNode D texts (dbms 0) (start + 0) c
    obtain ⟨rs, hfields, hall⟩ := ih (fun i => dbms (i + 1)) (start + 1)
    have hown : ∀ id ∈ c.id, c.id.getD ("FI" ++ toString (start + 0)) = id := by
      intro id hid
      rw [Option.mem_def.mp hid, Option.getD_some]
    refine ⟨r :: rs, ?_, .cons ⟨⟨_, hid, hown⟩, htype⟩ hall⟩
    rw [List.mapIdx_cons]
    refine .cons ⟨rfl, rfl, hread⟩ ?_
    simpa only [Nat.add_assoc, Nat.add_comm 1] using hfields

end Fields

section Tree

theorem matched_of_types {columns : List ReadColumn}
    (h : List.Forall₂ (fun col r => r.gType = (m.columns[col]?).bind ModelIter.Column.gType)
      (sel.columns m) columns) :
    ∃ ts, Matched m sel false columns ts := by
  have hts (i : Nat) (cols : List Nat) (rs : List ReadColumn)
      (h : List.Forall₂ (fun col r => r.gType = (m.columns[col]?).bind ModelIter.Column.gType)
        cols rs) :
      ∃ ts : List Transfer, ts.map Prod.fst = cols.map (fun col => (col, none)) ∧
        (ts.map fun t => t.1.1) = cols ∧ rs = ts.map Prod.snd ∧
          (∀ t ∈ ts, t.2.gType = (m.columns[t.1.1]?).bind ModelIter.Column.gType) ∧
            PlacesFrom columns i ts := by
    induction h generalizing i with
    | nil => exact ⟨[], rfl, rfl, rfl, nofun, trivial⟩
    | @cons col r cols rs hr _ ih =>
      obtain ⟨ts, hdumped, hselected, hfound, htypes, hplaces⟩ := ih (i + 1)
      refine ⟨((col, none), r) :: ts, by simp [hdumped], by simp [hselected], by simp [hfound], ?_,
        nofun, hplaces⟩
      intro t ht
      rcases List.mem_cons.mp ht with rfl | ht
      · exact hr
      · exact htypes t ht
  obtain ⟨ts, hdumped, hselected, hfound, htypes, hplaces⟩ := hts 0 _ _ h
  exact ⟨ts, hdumped, hselected, hfound, htypes, hplaces⟩

theorem mapM_eq_some_iff {α β : Type} {f : α → Option β} {l : List α} {l' : List β} :
    l.mapM f = some l' ↔ List.Forall₂ (fun a b => f a = some b) l l' := by
  induction l generalizing l' with
  | nil => simp [eq_comm]
  | cons a l ih =>
    rw [List.mapM_cons]
    cases hf : f a with
    | none => simp [List.forall₂_cons_left_iff, hf]
    | some b =>
      cases hl : l.mapM f with
      | none =>
        have hno (l' : List β) : ¬List.Forall₂ (fun a b => f a = some b) l l' := by
          rw [← ih, hl]
          nofun
        simp [List.forall₂_cons_left_iff, hno]
      | some bs =>
        have hbs (l' : List β) : List.Forall₂ (fun a b => f a = some b) l l' ↔ bs = l' := by
          rw [← ih, hl, Option.some.injEq]
        simp [List.forall₂_cons_left_iff, hbs, hf, eq_comm]

variable [ContentsCompare D]

theorem toXmlNode_iff {src : Source D} {name : Option String} {node : Node} :
    toXmlNode texts src sel name = .ok (some node) ↔
      ∃ columns data, List.Forall₂ (fun col c => src.model.columns[col]? = some c)
          (sel.columns src.model) columns ∧
        dumpDataToXml texts src.model sel false = .ok (some data) ∧
        node = .element "gda_array"
          [("id", src.id.getD "EXPORT"), ("name", (name.or src.name).getD "Exported Data")]
          ((columns.mapIdx fun i c => fieldNode texts
            (((sel.columns src.model)[i]?).bind src.dbmsType) i c) ++ data.toList) := by
  simp only [← mapM_eq_some_iff, toXmlNode]
  cases hcols : (sel.columns src.model).mapM fun col => src.model.columns[col]? with
  | none => simp
  | some columns =>
    cases hdata : dumpDataToXml texts src.model sel false with
    | error fault => simp [bind, Except.bind]
    | ok data =>
      cases data with
      | none => simp [bind, Except.bind, pure, Except.pure]
      | some data =>
        simp only [bind, Except.bind, pure, Except.pure, Option.map_some, Except.ok.injEq,
          Option.some.injEq]
        constructor
        · intro h
          exact ⟨columns, data, rfl, rfl, h.symm⟩
        · rintro ⟨_, _, rfl, rfl, rfl⟩
          rfl

omit [ContentsCompare D] in
theorem addDataFromXmlNode_columns {am : ArrayModel D} {node : Node}
    {r : ArrayModel D × Option String × Bool} (h : addDataFromXmlNode texts lang am node = .ok r) :
    r.1.columns = am.columns := by
  rw [addDataFromXmlNode] at h
  split at h
  · obtain rfl := Except.ok.inj h
    rfl
  · exact addXmlRows_columns h

omit [ContentsCompare D] in
theorem initNodeImport_iff {columns : List ReadColumn} {fields : List Node} {data : Option Node}
    {attrs : List (String × String)} {am : ArrayModel D}
    (hfields : nodeFields texts.types (fields ++ data.toList) = .ok (columns, data)) :
    (∃ im, initNodeImport texts lang (.element "gda_array" attrs (fields ++ data.toList)) =
        .ok im ∧ im.errors = [] ∧ im.model = some am) ↔
      columns ≠ [] ∧ am.columns = columns ∧ Added texts lang columns am.rows data := by
  have hname : ¬(Node.element "gda_array" attrs (fields ++ data.toList)).name ≠ "gda_array" :=
    fun hne => hne rfl
  rw [initNodeImport, if_neg hname]
  simp only [Node.children, hfields]
  cases hempty : columns.isEmpty with
  | true =>
    have hnil : columns = [] := List.isEmpty_iff.mp hempty
    simp [hnil]
  | false =>
    have hne : columns ≠ [] := by simpa using hempty
    simp only [Bool.false_eq_true, if_false, ne_eq, hne, not_false_eq_true, true_and]
    cases data with
    | none =>
      constructor
      · rintro ⟨im, him, _, hmodel⟩
        obtain rfl := Except.ok.inj him
        obtain rfl := Option.some.inj hmodel
        exact ⟨rfl, rfl⟩
      · rintro ⟨hcols, hrows⟩
        exact ⟨_, rfl, rfl, by rw [← hcols, ← hrows]⟩
    | some node =>
      cases hadd : addDataFromXmlNode texts lang { columns } node with
      | error fault => simp [Added, hadd, bind, Except.bind]
      | ok r =>
        have hsame : r.1.columns = columns := addDataFromXmlNode_columns hadd
        simp only [Added, hadd, bind, Except.bind, pure, Except.pure, Except.ok.injEq,
          exists_eq_left']
        constructor
        · rintro ⟨herrors, hmodel⟩
          obtain rfl := Option.some.inj hmodel
          refine ⟨hsame, ?_, rfl⟩
          by_contra hok
          simp [hok] at herrors
        · rintro ⟨hcols, hok, hrows⟩
          refine ⟨by simp [hok], ?_⟩
          rw [Option.some.injEq]
          cases am
          cases hr : r.1
          simp_all

theorem dumped_data {useColIds : Bool} {data : Option Node}
    (h : dumpDataToXml texts m sel useColIds = .ok (some data)) :
    ∀ node ∈ data, node.isText = false ∧ node.name = "gda_array_data" := by
  intro node hnode
  rcases dumpDataToXml_iff.mp h with ⟨_, rfl⟩ | ⟨_, nodes, rfl, _⟩
  · cases hnode
  · obtain rfl := Option.some.inj hnode
    exact ⟨rfl, rfl⟩

theorem treeReadsBack_iff {src : Source D} {name : Option String} :
    TreeReadsBack texts lang sel src name ↔ Kept texts src.model sel := by
  constructor
  · rintro ⟨node, im, am, htree, himport, herrors, hmodel, hcolumns, hrows⟩
    obtain ⟨columns, data, hcols, hdump, rfl⟩ := toXmlNode_iff.mp htree
    obtain ⟨rs, hfields, hread⟩ := @fields_read D texts columns
      (fun i => ((sel.columns src.model)[i]?).bind src.dbmsType) 0
    simp only [Nat.zero_add] at hfields
    have hnode := nodeFields_append hfields (dumped_data hdump)
    obtain ⟨hne, rfl, hadded⟩ := (initNodeImport_iff hnode).mp ⟨im, himport, herrors, hmodel⟩
    have hboth := List.Forall₂.mp (fun _ _ h h' => And.intro h h') hcolumns
      (List.exists_forall₂_and_iff.mp ⟨columns, hcols, hread⟩)
    have htypes : List.Forall₂ (fun col r => r.gType =
        (src.model.columns[col]?).bind ModelIter.Column.gType)
        (sel.columns src.model) am.columns := by
      refine List.Forall₂.imp ?_ hcolumns
      rintro col r ⟨c, hc, _, htype⟩
      rw [hc]
      exact htype
    obtain ⟨ts, hmatched⟩ := matched_of_types htypes
    refine ⟨?_, ?_, (dataReadsBack_iff hmatched).mp ⟨data, hdump, am.rows, hrows, hadded⟩⟩
    · intro hnil
      have hlen := List.Forall₂.length_eq hcolumns
      rw [hnil] at hlen
      exact hne (List.length_eq_zero_iff.mp hlen.symm)
    · have hdescribed := List.exists_forall₂_and_iff.mp ⟨am.columns, hboth, hboth⟩
      rw [List.forall₂_same] at hdescribed
      intro col hcol
      obtain ⟨r, ⟨⟨c, hc, hid, htype⟩, c', hc', ⟨s, hs, _⟩, htype'⟩, _⟩ := hdescribed col hcol
      obtain rfl := Option.some.inj (hc.symm.trans hc')
      refine ⟨c, hc, ?_, htype'.symm.trans htype⟩
      rw [← hid, hs]
      exact nofun
  · rintro ⟨hne, hdescribed, hrows⟩
    have hexists : ∃ columns, List.Forall₂ (fun col c => src.model.columns[col]? = some c)
        (sel.columns src.model) columns := by
      have hboth := List.exists_forall₂_and_iff.mpr (List.forall₂_same.mpr fun col hcol =>
        (hdescribed col hcol).imp fun c hc => And.intro hc.1 trivial)
      obtain ⟨columns, hcols, _⟩ := hboth
      exact ⟨columns, hcols⟩
    obtain ⟨columns, hcols⟩ := hexists
    obtain ⟨rs, hfields, hread⟩ := @fields_read D texts columns
      (fun i => ((sel.columns src.model)[i]?).bind src.dbmsType) 0
    simp only [Nat.zero_add] at hfields
    have hboth := List.exists_forall₂_and_iff.mp ⟨columns, hcols, hread⟩
    have hsame : SameColumns src.model sel rs := by
      refine List.Forall₂.imp ?_ ((List.forall₂_and_left _ _).mpr ⟨hdescribed, hboth⟩)
      rintro col r ⟨⟨c, hc, hid, htype⟩, c', hc', ⟨s, hs, hown⟩, htype'⟩
      obtain rfl := Option.some.inj (hc.symm.trans hc')
      obtain ⟨id, hsome⟩ := Option.ne_none_iff_exists'.mp hid
      refine ⟨c, hc, ?_, htype'.trans htype⟩
      rw [hs, hsome, hown id hsome]
    have htypes : List.Forall₂ (fun col r => r.gType =
        (src.model.columns[col]?).bind ModelIter.Column.gType)
        (sel.columns src.model) rs := by
      refine List.Forall₂.imp ?_ hsame
      rintro col r ⟨c, hc, _, htype⟩
      rw [hc]
      exact htype
    obtain ⟨ts, hmatched⟩ := matched_of_types htypes
    obtain ⟨data, hdump, rows, hsamerows, hadded⟩ :=
      (@dataReadsBack_iff D _ texts lang _ _ _ _ _ hmatched).mpr hrows
    have hnode := nodeFields_append hfields (dumped_data hdump)
    have hne' : rs ≠ [] := by
      intro hnil
      have hlen := List.Forall₂.length_eq hsame
      rw [hnil] at hlen
      exact hne (List.length_eq_zero_iff.mp hlen)
    obtain ⟨im, himport, herrors, hmodel⟩ :=
      (@initNodeImport_iff D texts lang rs _ data _ { columns := rs, rows } hnode).mpr
        ⟨hne', rfl, hadded⟩
    exact ⟨_, im, _, toXmlNode_iff.mpr ⟨columns, data, hcols, hdump, rfl⟩, himport, herrors, hmodel,
      hsame, hsamerows⟩

end Tree

end ArrayXml

end LibGda
