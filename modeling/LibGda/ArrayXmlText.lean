import LibGda.ModelIterColumns
import LibGda.ParamSpec
import LibGda.ValueText
import LibGda.XmlText

/-! Data models as `gda_array` elements: `gda_data_model_to_xml_node` and
`gda_utility_data_model_dump_data_to_xml`, and the two functions which read them back. -/

namespace LibGda

namespace ArrayXml

open Xml TerminatedBuffer

variable {D : Type}

inductive XmlFault where
  | text (fault : TextFault)
  | scan (fault : ScanFault)
  /-- a value is stored after the last column -/
  | outOfBounds
  deriving DecidableEq

/-- The texts of the values: `gda_value_stringify` and `gda_value_set_from_string`, with the text
and the registered types which these need. -/
structure ValueTexts (D : Type) where
  stringify : GValue D → Except TextFault (Option CBytes)
  setFromString : GType → CBytes → Except ScanFault (Option (GValue D))
  types : GTypes GType

section Writer

/-- What is exported: the iterator which is made for the data model, and what else its columns
and the data model tell. -/
structure Source (D : Type) where
  model : ModelIter.Model D
  dbmsType : Nat → Option String := fun _ => none
  id : Option String := none
  name : Option String := none

structure Selection where
  cols : Option (List Nat) := none
  rows : Option (List Nat) := none

def Selection.columns (sel : Selection) (m : ModelIter.Model D) : List Nat :=
  sel.cols.getD (List.range m.columns.length)

variable (texts : ValueTexts D)

def colId (m : ModelIter.Model D) (c col : Nat) : String :=
  match (m.columns[col]?).bind ModelIter.Column.id with
  | some id => if id ≠ "" then id else "_" ++ toString c
  | none => "_" ++ toString c

def colIds (m : ModelIter.Model D) (cols : List Nat) : List String :=
  cols.mapIdx (colId m)

def dumpedColumns (m : ModelIter.Model D) (sel : Selection) (useColIds : Bool) :
    List (Nat × Option String) :=
  let cols := sel.columns m
  if useColIds then cols.zip ((colIds m cols).map some) else cols.map fun col => (col, none)

def valueNode (colid : Option String) (str : Option CBytes) : Node :=
  let isnull := if str.isNone then [("isnull", "t")] else []
  match colid with
  | none =>
    .element "gda_value" isnull
      (match str with
      | some s => if s.1 ≠ [] then [.text s] else []
      | none => [])
  | some id =>
    .element "gda_array_value" (("colid", id) :: isnull)
      (match str with
      | some s => [.text s]
      | none => [])

def valueText : GValue D → Except TextFault (Option CBytes)
  | .null => .ok none
  | v => texts.stringify v

def dumpValues (s : ModelIter.State D) :
    List (Nat × Option String) → Except TextFault (Option (List Node))
  | [] => .ok (some [])
  | (col, colid) :: cols =>
    match (s.iter.holders[col]?).bind fun h => h.holder.getValue with
    | none => .ok none
    | some value => do
      let str ← valueText texts value
      let rest ← dumpValues s cols
      pure (rest.map (valueNode colid str :: ·))

variable [ContentsCompare D]

/-- The elements of the rows from where the iterator is, which moves at most `fuel` times. -/
def dumpRows (cols : List (Nat × Option String)) (rows : Option (List Nat)) :
    Nat → ModelIter.State D → Except TextFault (Option (List Node))
  | 0, _ => .ok (some [])
  | fuel + 1, s =>
    match s.iter.row with
    | none => .ok (some [])
    | some row =>
      if rows.elim true (row ∈ ·) then do
        match ← dumpValues texts s cols with
        | none => pure none
        | some fields => do
          let rest ← dumpRows cols rows fuel s.moveNext.1
          pure (rest.map (.element "gda_array_row" [] fields :: ·))
      else dumpRows cols rows fuel s.moveNext.1

/-- `gda_utility_data_model_dump_data_to_xml`: the element which it adds, if it adds one, and `none`
where it fails. -/
def dumpDataToXml (m : ModelIter.Model D) (sel : Selection) (useColIds : Bool) :
    Except TextFault (Option (Option Node)) :=
  let iter := ModelIter.State.create m
  let first := iter.moveNext
  if iter.iter.row = none ∧ !first.2 then .ok (some none)
  else do
    let s := if iter.iter.row = none then first.1 else iter
    let rows ← dumpRows texts (dumpedColumns m sel useColIds) sel.rows (m.rows.length + 1) s
    pure (rows.map fun rows => some (.element "gda_array_data" [] rows))

omit [ContentsCompare D] in
def fieldNode (dbmsType : Option String) (i : Nat) (column : ModelIter.Column D) : Node :=
  let optional (key : String) (value : Option String) : List (String × String) :=
    match value with
    | some s => if s ≠ "" then [(key, s)] else []
    | none => []
  .element "gda_array_field"
    (("id", column.id.getD ("FI" ++ toString i)) :: ("name", column.name.getD "") ::
      (optional "title" column.description ++ optional "dbms_type" dbmsType ++
        [("gdatype", ((texts.types.toString column.gType).map String.ofList).getD "")] ++
        (if column.allowNull then [("nullok", "TRUE")] else []) ++
        if column.autoIncrement then [("auto_increment", "TRUE")] else []))
    []

def toXmlNode (src : Source D) (sel : Selection) (name : Option String) :
    Except TextFault (Option Node) :=
  let rcols := sel.columns src.model
  match (rcols.mapM fun col => src.model.columns[col]?) with
  | none => .ok none
  | some columns => do
    let fields := columns.mapIdx fun i column =>
      fieldNode texts ((rcols[i]?).bind src.dbmsType) i column
    let data ← dumpDataToXml texts src.model sel false
    pure (data.map fun data =>
      .element "gda_array"
        [("id", src.id.getD "EXPORT"), ("name", (name.or src.name).getD "Exported Data")]
        (fields ++ data.toList))

end Writer

section Reader

structure ReadColumn where
  id : Option String
  name : Option String := none
  description : Option String := none
  dbmsType : Option String := none
  gType : GType
  allowNull : Bool := true
  deriving DecidableEq

structure ArrayModel (D : Type) where
  columns : List ReadColumn
  rows : List (List (GValue D)) := []

def atoi (s : String) : Int :=
  (NumberType.cast .int (strtol (bytes s)).1).1

def findColumnFromId (columns : List ReadColumn) (colid : String) : Option Nat :=
  match columns.findIdx? (·.id = some colid) with
  | some c => some c
  | none =>
    match colid.toList with
    | '_' :: digits =>
      let i := atoi (String.ofList digits)
      if 0 ≤ i ∧ i < columns.length then some i.toNat else none
    | _ => none

def startsWithT (s : String) : Bool :=
  match s.toList with
  | 't' :: _ | 'T' :: _ => true
  | _ => false

structure RowFill (D : Type) where
  pos : Nat := 0
  values : List (Option (GValue D))
  error : Option String := none

def RowFill.setError (f : RowFill D) (error : String) : RowFill D :=
  { f with error := f.error.or (some error) }

variable (texts : ValueTexts D) (lang : String) (columns : List ReadColumn)

/-- The column of a value and the place for it; `none` for an id of no column. -/
def valuePlace (pos : Nat) (hasLang : Bool) : Option String → Option (Nat × Option ReadColumn)
  | none =>
    some (pos, if hasLang then (if pos = 0 then none else columns[pos - 1]?) else columns[pos]?)
  | some colid => (findColumnFromId columns colid).map fun i => (i, columns[i]?)

def addXmlField (f : RowFill D) (field : Node) : Except XmlFault (RowFill D × Bool) :=
  if field.isText then .ok (f, true)
  else if field.name ≠ "gda_value" ∧ field.name ≠ "gda_array_value" then
    .ok (f.setError ("Expected tag <gda_value> or <gda_array_value>, got <" ++ field.name ++
      ">, ignoring"), true)
  else
    let thisLang := field.getProp "lang"
    if thisLang.any fun l => !(l.toList.isPrefixOf lang.toList) then .ok (f, true)
    else
      match valuePlace columns f.pos thisLang.isSome (field.getProp "colid") with
      | none => .ok (f, true)
      | some (pos, column) =>
        let f := { f with pos }
        -- the type of no column is `GDA_TYPE_NULL`
        match column.bind ReadColumn.gType with
        | none =>
          .ok (f.setError
            "Cannot retrieve column data type (type is UNKNOWN or not specified)", false)
        | some t =>
          match (if (field.getProp "isnull").any startsWithT then .ok none
            else (texts.setFromString (some t) field.getContent).map some) with
          | .error fault => .error (.scan fault)
          | .ok value =>
            if pos < f.values.length then
              .ok ({ f with
                values := f.values.set pos (value.map (·.getD .null))
                pos := if thisLang.isSome then pos else pos + 1 }, true)
            else .error .outOfBounds

def addXmlFields (f : RowFill D) : List Node → Except XmlFault (RowFill D × Bool)
  | [] => .ok (f, true)
  | field :: fields => do
    let r ← addXmlField texts lang columns f field
    if r.2 then addXmlFields r.1 fields else pure r

/-- `add_xml_row`: the model with the row, the error which is set, and the success. -/
def addXmlRow (m : ArrayModel D) (error : Option String) (row : Node) :
    Except XmlFault (ArrayModel D × Option String × Bool) := do
  let f : RowFill D := { values := List.replicate m.columns.length none, error }
  let r ← addXmlFields texts lang m.columns f row.children
  if r.2 then
    pure ({ m with rows := m.rows ++ [r.1.values.map (·.getD .null)] }, r.1.error, true)
  else pure (m, r.1.error, false)

def addXmlRows (m : ArrayModel D) (error : Option String) :
    List Node → Except XmlFault (ArrayModel D × Option String × Bool)
  | [] => .ok (m, error, true)
  | node :: nodes =>
    if node.name = "gda_array_row" then do
      let r ← addXmlRow texts lang m error node
      if r.2.2 then addXmlRows r.1 r.2.1 nodes else pure r
    else addXmlRows m error nodes

/-- `gda_data_model_add_data_from_xml_node`, on a node which is no text. -/
def addDataFromXmlNode (m : ArrayModel D) (node : Node) :
    Except XmlFault (ArrayModel D × Option String × Bool) :=
  if node.name ≠ "gda_array_data" then
    .ok (m, some ("Expected tag <gda_array_data>, got <" ++ node.name ++ ">"), false)
  else addXmlRows texts lang m none node.children

omit texts in
def fieldColumn (types : GTypes GType) (defaultNullok : Bool) (field : Node) :
    Except String ReadColumn :=
  match field.getProp "gdatype" with
  | none => .error "No \"gdatype\" attribute specified in <gda_array_field>"
  | some str =>
    .ok
      { id := field.getProp "id"
        name := field.getProp "name"
        description := (field.getProp "title").or (field.getProp "name")
        dbmsType := field.getProp "dbms_type"
        gType := (types.fromString str.toList).getD types.null
        allowNull := (field.getProp "nullok").elim defaultNullok startsWithT }

omit texts in
def nodeFields (types : GTypes GType) : List Node → Except String (List ReadColumn × Option Node)
  | [] => .ok ([], none)
  | node :: nodes =>
    if node.isText then nodeFields types nodes
    else if node.name = "gda_array_field" then do
      let column ← fieldColumn types true node
      let rest ← nodeFields types nodes
      pure (column :: rest.1, rest.2)
    else if node.name = "gda_array_data" then .ok ([], some node)
    else nodeFields types nodes

/-- A `GdaDataModelImport`, which has no model if it could not be made. -/
structure Imported (D : Type) where
  model : Option (ArrayModel D) := none
  errors : List String := []

def initNodeImport (node : Node) : Except XmlFault (Imported D) :=
  if node.name ≠ "gda_array" then
    .ok { errors := ["Expected <gda_array> node but got <" ++ node.name ++ ">"] }
  else
    match nodeFields texts.types node.children with
    | .error error => .ok { errors := [error] }
    | .ok (columns, data) =>
      if columns.isEmpty then
        .ok { errors := ["No <gda_array_field> specified in <gda_array>"] }
      else
        let m : ArrayModel D := { columns }
        match data with
        | none => .ok { model := some m }
        | some data => do
          let r ← addDataFromXmlNode texts lang m data
          pure
            { model := some r.1
              errors := if r.2.2 then [] else [r.2.1.getD "No detail"] }

end Reader

end ArrayXml

end LibGda
