import LibGda.ArrayXmlRoundTrip
import LibGda.DefaultEscape
import LibGda.ValueRoundTrip

/-! The values and their texts, and when a selection which is exported as XML is read back. -/

namespace LibGda

open DecimalText TerminatedBuffer

/-- The number of a type among those which have a `SerialValue`. -/
def SerialType.code : SerialType → Nat
  | .number .int => 0
  | .number .uint => 1
  | .number .int64 => 2
  | .number .uint64 => 3
  | .number .short => 4
  | .number .ushort => 5
  | .number .long => 6
  | .number .ulong => 7
  | .number .char => 8
  | .number .uchar => 9
  | .boolean => 10
  | .date => 11
  | .time => 12
  | .timestamp => 13
  | .binary => 14
  | .string => 15

def SerialType.ofCode : Nat → Option SerialType
  | 0 => some (.number .int)
  | 1 => some (.number .uint)
  | 2 => some (.number .int64)
  | 3 => some (.number .uint64)
  | 4 => some (.number .short)
  | 5 => some (.number .ushort)
  | 6 => some (.number .long)
  | 7 => some (.number .ulong)
  | 8 => some (.number .char)
  | 9 => some (.number .uchar)
  | 10 => some .boolean
  | 11 => some .date
  | 12 => some .time
  | 13 => some .timestamp
  | 14 => some .binary
  | 15 => some .string
  | _ => none

namespace ArrayXml

open Xml

inductive Contents (X : Type) where
  | serial (v : SerialValue)
  | other (x : X)
  deriving DecidableEq

structure OtherTypes (X : Type) where
  stringify : Nat → X → Except TextFault (Option CBytes)
  setFromString : Nat → CBytes → Except ScanFault (Option X)
  typeName : GType → Option (List Char)
  typeFromName : List Char → Option GType

variable {X : Type}

/-- `gda_value_stringify` and `gda_value_set_from_string`. A value of `GDA_TYPE_NULL` is never set
from a string. -/
def valueTexts (zoneOffset : Bytes → Option Int64) (others : OtherTypes X) :
    ValueTexts (Contents X) where
  stringify
    | .null => .ok (some (cString nullText))
    | .data _ (.serial v) => (LibGda.stringify v).map (·.map cString)
    | .data t (.other x) => others.stringify t x
  setFromString type s :=
    match type with
    | none => .ok none
    | some t =>
      match SerialType.ofCode t with
      | some st =>
        (LibGda.setFromString zoneOffset st s).map (·.map fun v => .data t (.serial v))
      | none => (others.setFromString t s).map (·.map fun x => .data t (.other x))
  types :=
    { null := none
      int := some 0
      uint := some 1
      string := some 15
      date := some 11
      time := some 12
      timestamp := some 13
      boolean := some 10
      blob := some 16
      binary := some 14
      short := some 4
      ushort := some 5
      int64 := some 2
      uint64 := some 3
      char := some 8
      uchar := some 9
      typeName := others.typeName
      typeFromName := others.typeFromName }

section Ids

variable {D : Type} {m : ModelIter.Model D} {sel : Selection}

theorem atoi_toString {i : Nat} (hi : i < 2 ^ 31) : atoi (toString i) = i := by
  have hbytes : bytes (toString i) = decimalInt (i : Int) := by
    have hneg : ¬(i : Int) < 0 := by omega
    simp only [decimalInt, if_neg hneg, Int.natAbs_natCast, decimal, bytes, toString, Nat.repr,
      String.toList_ofList]
    rfl
  rw [atoi, hbytes, strtol_decimalInt (by omega) (by omega)]
  exact congrArg Subtype.val (@NumberType.cast_self .int ⟨(i : Int), by
    simp only [NumberType.lowest, NumberType.isSigned, NumberType.bits]
    omega⟩)

theorem colIds_getElem? (cols : List Nat) (i : Nat) :
    (colIds m cols)[i]? = cols[i]?.map (colId m i) :=
  List.getElem?_mapIdx

theorem colId_ne_empty (m : ModelIter.Model D) (i col : Nat) : colId m i col ≠ "" := by
  have hmade : "_" ++ toString i ≠ "" := by
    intro h
    simpa using congrArg String.toList h
  rw [colId]
  split
  · split
    · assumption
    · exact hmade
  · exact hmade

theorem findColumnFromId_colIds (hids : (colIds m (sel.columns m)).Nodup)
    (hlen : (sel.columns m).length ≤ 2 ^ 31) {i : Nat} {id : String}
    (hi : (colIds m (sel.columns m))[i]? = some id) :
    findColumnFromId (destinationColumns m sel) id = some i := by
  have hget := hi
  rw [colIds_getElem?] at hget
  obtain ⟨col, hcol, hid⟩ := Option.map_eq_some_iff.mp hget
  have hlt : i < (sel.columns m).length := (List.getElem?_eq_some_iff.mp hcol).1
  have hdest (j : Nat) : (destinationColumns m sel)[j]? = (sel.columns m)[j]?.map fun col =>
      { id := (m.columns[col]?).bind ModelIter.Column.id
        gType := (m.columns[col]?).bind ModelIter.Column.gType } := by
    rw [destinationColumns, List.getElem?_map]
  have hne : id ≠ "" := hid ▸ colId_ne_empty m i col
  -- a column with this id has it in the list of ids too
  have honly (j : Nat) (r : ReadColumn) (hr : (destinationColumns m sel)[j]? = some r)
      (hrid : r.id = some id) : j = i := by
    rw [hdest] at hr
    obtain ⟨col', hcol', rfl⟩ := Option.map_eq_some_iff.mp hr
    have hj : (colIds m (sel.columns m))[j]? = some id := by
      rw [colIds_getElem?, hcol', Option.map_some, colId]
      simp only at hrid
      rw [hrid]
      simp [hne]
    obtain ⟨hjlt, hjeq⟩ := List.getElem?_eq_some_iff.mp hj
    obtain ⟨hilt, hieq⟩ := List.getElem?_eq_some_iff.mp hi
    exact (List.Nodup.getElem_inj_iff hids).mp (hjeq.trans hieq.symm)
  rw [findColumnFromId]
  cases hfind : (destinationColumns m sel).findIdx? (·.id = some id) with
  | some j =>
    obtain ⟨hjlt, hj, _⟩ := List.findIdx?_eq_some_iff_getElem.mp hfind
    exact congrArg some (honly j _ (List.getElem?_eq_getElem hjlt) (of_decide_eq_true hj))
  | none =>
    have hnone := List.findIdx?_eq_none_iff.mp hfind
    -- the id is a made-up one, with the position of the column
    have hmade : id = "_" ++ toString i := by
      rw [← hid, colId]
      cases hc : (m.columns[col]?).bind ModelIter.Column.id with
      | none => rfl
      | some id' =>
        by_cases hempty : id' = ""
        · simp [hempty]
        · have hdesti := hdest i
          rw [hcol, Option.map_some, hc] at hdesti
          have hno := hnone _ (List.mem_of_getElem? hdesti)
          rw [← hid, colId, hc] at hno
          simp [hempty] at hno
    have hlist : id.toList = '_' :: (toString i).toList := by
      rw [hmade, String.toList_append]
      rfl
    have hdestlen : (destinationColumns m sel).length = (sel.columns m).length := by
      simp [destinationColumns]
    simp only [hlist, String.ofList_toList, atoi_toString (Nat.lt_of_lt_of_le hlt hlen), hdestlen]
    rw [if_pos (by omega)]
    simp

theorem placesFrom_of_found {columns : List ReadColumn} {i : Nat} {ts : List Transfer}
    (h : ∀ j t, ts[j]? = some t → ∀ id ∈ t.1.2, findColumnFromId columns id = some (i + j)) :
    PlacesFrom columns i ts := by
  induction ts generalizing i with
  | nil => trivial
  | cons t ts ih =>
    refine ⟨h 0 t rfl, ih fun j t' ht' id hid => ?_⟩
    have hfound := h (j + 1) t' (by simpa using ht') id hid
    rw [hfound]
    congr 1
    omega

theorem matched_destination :
    ∃ ts, Matched m sel false (destinationColumns m sel) ts := by
  apply matched_of_types
  rw [destinationColumns, List.forall₂_map_right_iff, List.forall₂_same]
  intro col _
  rfl

theorem matched_ids (hids : (colIds m (sel.columns m)).Nodup)
    (hlen : (sel.columns m).length ≤ 2 ^ 31) :
    ∃ ts, Matched m sel true (destinationColumns m sel) ts := by
  refine ⟨(sel.columns m).mapIdx fun i col => ((col, some (colId m i col)),
    { id := (m.columns[col]?).bind ModelIter.Column.id
      gType := (m.columns[col]?).bind ModelIter.Column.gType }), ?_, ?_, ?_, ?_, ?_⟩
  · apply List.ext_getElem?
    intro i
    rw [dumpedColumns, if_pos rfl, List.zip, List.getElem?_zipWith', List.getElem?_map,
      List.getElem?_map, List.getElem?_mapIdx, colIds_getElem?]
    cases (sel.columns m)[i]? <;> rfl
  · apply List.ext_getElem?
    intro i
    simp only [List.getElem?_map, List.getElem?_mapIdx, Option.map_map]
    exact Option.map_id' 
  · apply List.ext_getElem?
    intro i
    simp only [destinationColumns, List.getElem?_map, List.getElem?_mapIdx, Option.map_map]
    rfl
  · intro t ht
    obtain ⟨i, hi, rfl⟩ := List.mem_mapIdx.mp ht
    rfl
  · apply placesFrom_of_found
    intro j t ht id hid
    rw [List.getElem?_mapIdx] at ht
    obtain ⟨col, hcol, rfl⟩ := Option.map_eq_some_iff.mp ht
    obtain rfl := Option.some.inj hid
    rw [Nat.zero_add]
    apply findColumnFromId_colIds hids hlen
    rw [colIds_getElem?, hcol]
    rfl

end Ids

structure Selection.Proper (sel : Selection) (m : ModelIter.Model D) : Prop where
  cols : ∀ cols ∈ sel.cols, cols ≠ [] ∧ cols.Nodup ∧ ∀ col ∈ cols, col < m.columns.length
  rows : ∀ rows ∈ sel.rows, rows ≠ [] ∧ rows.Nodup ∧ ∀ row ∈ rows, row < m.rows.length

/-- A selection is read back from its tree exactly when it is kept; with different ids, its values
are read back under them exactly when they survive. -/
theorem selectionReadsBack_iff [ContentsCompare (Contents X)]
    (zoneOffset : Bytes → Option Int64) (others : OtherTypes X) (lang : String)
    (src : Source (Contents X)) (sel : Selection) (name : Option String) :
    (TreeReadsBack (valueTexts zoneOffset others) lang sel src name ∧
        DataReadsBack (valueTexts zoneOffset others) lang src.model sel
          (destinationColumns src.model sel) false ↔
      Kept (valueTexts zoneOffset others) src.model sel) ∧
    ((colIds src.model (sel.columns src.model)).Nodup →
      (sel.columns src.model).length ≤ 2 ^ 31 →
        (DataReadsBack (valueTexts zoneOffset others) lang src.model sel
            (destinationColumns src.model sel) true ↔
          RowsSurvive (valueTexts zoneOffset others) src.model sel)) := by
  constructor
  · obtain ⟨ts, hmatched⟩ := @matched_destination _ src.model sel
    rw [dataReadsBack_iff hmatched, treeReadsBack_iff]
    exact and_iff_left_of_imp Kept.rows
  · intro hids hlen
    obtain ⟨ts, hmatched⟩ := matched_ids hids hlen
    exact dataReadsBack_iff hmatched

section Example

instance [DecidableEq X] : ContentsCompare (Contents X) where
  compare _ a b := if a = b then 0 else 1
  differ _ a b := a != b

def noOtherTypes : OtherTypes Empty where
  stringify _ x := nomatch x
  setFromString _ _ := .ok none
  typeName _ := none
  typeFromName _ := none

def textCell (s : String) (h : 0 ∉ bytes s) : ModelIter.Cell (Contents Empty) :=
  { value := some (.data 15 (.serial (.string (some ⟨bytes s, h⟩)))) }

theorem zero_notMem_x : 0 ∉ bytes "x" := by decide

theorem zero_notMem_none : 0 ∉ bytes "" := by decide

def twoStrings : Source (Contents Empty) where
  model :=
    { columns := [{ gType := some 15, id := some "a" }]
      rows := [⟨0, [textCell "x" zero_notMem_x]⟩, ⟨1, [textCell "" zero_notMem_none]⟩]
      nextKey := 2 }

def stringTexts : ValueTexts (Contents Empty) := valueTexts (fun _ => none) noOtherTypes

theorem twoStrings_survive {k : Nat} (hk : k < 2) : Survives stringTexts twoStrings.model k k
    0 := by
  obtain rfl | rfl : k = 0 ∨ k = 1 := by omega
  · exact ⟨_, _, _, _, rfl, rfl, rfl, rfl, _, rfl, .inl rfl⟩
  · exact ⟨_, _, _, _, rfl, rfl, rfl, rfl, _, rfl, .inl rfl⟩

theorem selectionReadsBack_example :
    TreeReadsBack stringTexts "C" { cols := some [0], rows := some [0, 1] } twoStrings none ∧
      DataReadsBack stringTexts "C" twoStrings.model { cols := some [0], rows := some [0, 1] }
        (destinationColumns twoStrings.model { cols := some [0], rows := some [0, 1] }) true := by
  have hrows : RowsSurvive stringTexts twoStrings.model
      { cols := some [0], rows := some [0, 1] } := by
    refine .cons ?_ (.cons ?_ .nil)
    · intro col hcol
      obtain rfl := List.mem_singleton.mp hcol
      exact twoStrings_survive (by decide)
    · intro col hcol
      obtain rfl := List.mem_singleton.mp hcol
      exact twoStrings_survive (by decide)
  have hkept : Kept stringTexts twoStrings.model { cols := some [0], rows := some [0, 1] } := by
    refine ⟨nofun, ?_, hrows⟩
    intro col hcol
    obtain rfl := List.mem_singleton.mp hcol
    exact ⟨_, rfl, nofun, by decide⟩
  obtain ⟨htree, hids⟩ := selectionReadsBack_iff (fun _ => none) noOtherTypes "C" twoStrings
    { cols := some [0], rows := some [0, 1] } none
  exact ⟨(htree.mpr hkept).1, (hids (by decide) (by decide)).mpr hrows⟩

/-- Rows which are selected in another order are written in the order of the data model. -/
theorem later_row_first_lost :
    ¬ ∀ (src : Source (Contents Empty)) (sel : Selection), sel.Proper src.model →
      TreeReadsBack stringTexts "C" sel src none := by
  intro hall
  have hproper : Selection.Proper { cols := some [0], rows := some [1, 0] } twoStrings.model := by
    constructor
    · intro cols hcols
      obtain rfl := Option.some.inj hcols
      decide
    · intro rows hrows
      obtain rfl := Option.some.inj hrows
      decide
  have hkept := treeReadsBack_iff.mp (hall twoStrings _ hproper)
  have hrows : List.Forall₂ (fun k row => ∀ col ∈ [0], Survives stringTexts twoStrings.model k
    row col)
      [0, 1] [1, 0] := hkept.rows
  cases hrows with
  | cons hfirst _ =>
    obtain ⟨v, str, u, type, hshown, htext, htype, hread, w, hcell, hagree⟩ :=
      hfirst 0 List.mem_cons_self
    have hx : shownAt twoStrings.model 0 0 = (textCell "x" zero_notMem_x).value := by decide
    rw [hx] at hshown
    obtain rfl := Option.some.inj hshown
    obtain rfl := Except.ok.inj htext
    obtain rfl := Option.some.inj htype
    obtain rfl := Except.ok.inj hread
    obtain rfl := Option.some.inj hcell
    rcases hagree with heq | ⟨_, hdiffer⟩
    · revert heq
      decide
    · revert hdiffer
      decide

end Example

end ArrayXml

end LibGda
