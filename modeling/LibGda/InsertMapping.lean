import LibGda.InsertPositions
import LibGda.ModificationStatements
import LibGda.QuoteRemoval

/-! `compute_insert_select_params_mapping`: from the parameters of the one-row SELECT to the values
which an INSERT has returned, and the row which is read again with them. -/

namespace LibGda

open InsertPositions ModifInternals

section Model

inductive Operand where
  | value (text : List Char)
  | param (name : String)

/-- An operation of a row condition; those of a condition are in the order in which
`gda_sql_any_part_foreach` meets them. -/
structure CondOperation where
  isEq : Bool
  operands : List Operand

/-- `compute_insert_select_params_mapping_foreach_func`, which stops where there is a result. -/
def conditionColumn (hid : String) (op : CondOperation) : Option (List Char) :=
  if op.isEq = false then none
  else
    match op.operands with
    | [.value text, .param name] => if name = hid ∧ text ≠ [] then some text else none
    | [.param name, .value text] => if name = hid ∧ text ≠ [] then some text else none
    | _ => none

/-- The name of a column as it is compared; `none` where the removal of quotes is undefined. -/
def columnName (colid : List Char) : Option (List Char) :=
  if colid.head? = some '"' ∨ colid.head? = some '`' then prepareForCompare colid else some colid

structure InsertedHolder where
  id : String
  name : Option (List Char)

def insertedId (name : List Char) : List InsertedHolder → Option String
  | [] => none
  | holder :: holders =>
    match holder.name with
    | none => none
    | some n => if n = name then some holder.id else insertedId name holders

inductive Mapping where
  | array (entries : List Int)
  | null
  /-- a move of a negative length, or an index in front of the array -/
  | undefined

def computeInsertSelectParamsMapping (rowCond : List CondOperation) (ins : List InsertedHolder) :
    List String → List Int → Mapping
  | [], array => .array array
  | pid :: sel, array =>
    match paramNameToInt pid with
    | some (spnum, true) =>
      match rowCond.findSome? (conditionColumn pid) with
      | none => .null
      | some colid =>
        match columnName colid with
        | none => .undefined
        | some name =>
          match insertedId name ins with
          | none => .null
          | some hid =>
            match paramNameToInt hid with
            | some (ipnum, false) =>
              if spnum < 0 then .undefined
              else computeInsertSelectParamsMapping rowCond ins sel
                (insertVal 0 array spnum.toNat ipnum)
            | _ => .null
    | _ => computeInsertSelectParamsMapping rowCond ins sel array

/-- The value which `gda_data_select_append_values` gives to a parameter of the SELECT. -/
def rereadValue {V : Type} (mapping : List Int) (values : List V) (pid : String) : Option V := do
  let (pos, _) ← paramNameToInt pid
  let index ← mapping[pos.toNat]?
  values[index.toNat]?

end Model

section Contract

inductive ColumnText where
  | bare (v : List Char)
  | quoted (v : List Char)
  | backquoted (v : List Char)

namespace ColumnText

def name : ColumnText → List Char
  | bare v => v
  | quoted v => v
  | backquoted v => v

def text : ColumnText → List Char
  | bare v => v
  | quoted v => forceQuotes v
  | backquoted v => '`' :: v ++ ['`']

def Valid : ColumnText → Prop
  | bare v => v ≠ [] ∧ v.head? ≠ some '"' ∧ v.head? ≠ some '`'
  | quoted v => v ≠ [] ∧ nulChar ∉ v
  | backquoted v => v ≠ []

def Read : ColumnText → Prop
  | bare _ => True
  | quoted v => '\\' ∉ v
  | backquoted _ => False

end ColumnText

structure KeyEquality where
  column : ColumnText
  num : Nat
  paramFirst : Bool

def KeyEquality.operation (key : KeyEquality) : CondOperation where
  isEq := true
  operands :=
    if key.paramFirst then [.param (oldValueId key.num), .value key.column.text]
    else [.value key.column.text, .param (oldValueId key.num)]

def insertedFrom : Nat → List (List Char) → List InsertedHolder
  | _, [] => []
  | j, name :: names => { id := newValueId j, name := some name } :: insertedFrom (j + 1) names

/-- A row condition of equalities, the parameters in any order, and the columns which an INSERT has
returned. -/
structure InsertedKey where
  rowCond : List CondOperation
  keys : List KeyEquality
  equalities : rowCond.filter CondOperation.isEq = keys.map KeyEquality.operation
  nums_nodup : (keys.map KeyEquality.num).Nodup
  valid : ∀ key ∈ keys, key.column.Valid
  parameters : List KeyEquality
  perm : parameters.Perm keys
  small : ∀ key ∈ keys, key.num < 2 ^ 31
  names : List (List Char)
  names_nodup : names.Nodup
  names_small : names.length ≤ 2 ^ 31
  returned : ∀ key ∈ keys, key.column.name ∈ names

namespace InsertedKey

variable (s : InsertedKey)

def mapping : Mapping :=
  computeInsertSelectParamsMapping s.rowCond (insertedFrom 0 s.names)
    (s.parameters.map fun key => oldValueId key.num) []

def designated (key : KeyEquality) : Nat := s.names.idxOf key.column.name

def readIndex (key : KeyEquality) : Option Nat := do
  let name ← columnName key.column.text
  if name ∈ s.names then some (s.names.idxOf name) else none

def entries : List (Nat × Int) :=
  s.parameters.filterMap fun key => (s.readIndex key).map fun (j : Nat) => (key.num, (j : Int))

def Meets : Prop :=
  ∃ array, s.mapping = .array array ∧
    ∀ key ∈ s.parameters, array[key.num]? = some (s.designated key : Int) ∧
      ∀ (V : Type) (values : List V),
        rereadValue array values (oldValueId key.num) = values[s.designated key]?

/-- All columns are found under the name that is compared, and each parameter's entry, or one of the
same value, comes to stand at its index. -/
structure EntriesLand : Prop where
  read : ∀ key ∈ s.parameters, (s.readIndex key).isSome = true
  lands : ∀ key ∈ s.parameters, Lands 0 (places s.entries) key.num (s.designated key : Int)

def Increasing : Prop := s.parameters.Pairwise fun a b => a.num < b.num

end InsertedKey

end Contract

section Parameters

variable {k : Nat}

theorem paramNumber_digits {sign : Char} (hsign : sign = '-' ∨ sign = '+') {id : String}
    (hid : id.toList = sign :: Nat.toDigits 10 k) :
    paramNumber id = some (k, decide (sign = '-')) := by
  have hall : (Nat.toDigits 10 k).all Char.isDigit = true := by
    rw [List.all_eq_true]
    intro c hc
    exact Nat.isDigit_of_mem_toDigits (by decide) (by decide) hc
  have hsum : (Nat.toDigits 10 k).foldl (fun sum c => sum * 10 + (c.toNat - '0'.toNat)) 0 = k := by
    have hdigits : Nat.ofDigitChars 10 (Nat.toDigits 10 k) 0 = k :=
      Nat.ofDigitChars_toDigits (by decide) (by decide)
    rw [Nat.ofDigitChars_eq_foldl] at hdigits
    simp only [Nat.mul_comm 10] at hdigits
    exact hdigits
  rw [paramNumber, hid]
  simp only [hsign, hall, and_self, if_true, hsum]

theorem oldValueId_toList (k : Nat) : (oldValueId k).toList = '-' :: Nat.toDigits 10 k := by
  rw [oldValueId, String.toList_append]
  show _ ++ k.repr.toList = _
  rw [Nat.toList_repr]
  rfl

theorem newValueId_toList (k : Nat) : (newValueId k).toList = '+' :: Nat.toDigits 10 k := by
  rw [newValueId, String.toList_append]
  show _ ++ k.repr.toList = _
  rw [Nat.toList_repr]
  rfl

theorem gintOf_small (h : k < 2 ^ 31) : gintOf k = (k : Int) := by
  have hle : -((4294967296 : Nat) : Int) ≤ (k : Int) * 2 := by omega
  have hlt : (k : Int) * 2 < ((4294967296 : Nat) : Int) := by omega
  exact Int.bmod_eq_of_le_mul_two hle hlt

theorem paramNameToInt_old (h : k < 2 ^ 31) : paramNameToInt (oldValueId k) =
    some ((k : Int), true) := by
  rw [paramNameToInt, paramNumber_digits (.inl rfl) (oldValueId_toList k), Option.map_some,
    gintOf_small h]
  rfl

theorem paramNameToInt_new (h : k < 2 ^ 31) : paramNameToInt (newValueId k) =
    some ((k : Int), false) := by
  rw [paramNameToInt, paramNumber_digits (.inr rfl) (newValueId_toList k), Option.map_some,
    gintOf_small h]
  rfl

theorem oldValueId_inj {k' : Nat} (h : oldValueId k = oldValueId k') : k = k' := by
  have hk := paramNumber_digits (.inl rfl) (oldValueId_toList k)
  rw [h, paramNumber_digits (.inl rfl) (oldValueId_toList k')] at hk
  exact (Prod.mk.inj (Option.some.inj hk)).1.symm

end Parameters

section Search

variable {key : KeyEquality} {keys : List KeyEquality} {name : List Char} {names : List (List Char)}

theorem ColumnText.text_ne_nil {column : ColumnText} (h : column.Valid) : column.text ≠ [] := by
  cases column with
  | bare v => exact h.1
  | quoted v =>
    rw [ColumnText.text, forceQuotes_eq]
    exact List.cons_ne_nil _ _
  | backquoted v => exact List.cons_ne_nil _ _

theorem conditionColumn_key (h : key.column.Valid) (hid : String) :
    conditionColumn hid key.operation =
      if oldValueId key.num = hid then some key.column.text else none := by
  have htext := ColumnText.text_ne_nil h
  rw [conditionColumn, KeyEquality.operation]
  cases key.paramFirst <;> simp [htext]

theorem findSome_filter (hid : String) (ops : List CondOperation) :
    ops.findSome? (conditionColumn hid) =
      (ops.filter CondOperation.isEq).findSome? (conditionColumn hid) := by
  induction ops with
  | nil => rfl
  | cons op ops ih =>
    rw [List.findSome?_cons]
    by_cases heq : op.isEq = true
    · rw [List.filter_cons_of_pos heq, List.findSome?_cons, ih]
    · have hnone : conditionColumn hid op = none := by
        rw [conditionColumn, if_pos (eq_false_of_ne_true heq)]
      rw [List.filter_cons_of_neg heq, hnone, ih]

theorem findSome_keys (hvalid : ∀ key ∈ keys, key.column.Valid)
    (hnodup : (keys.map KeyEquality.num).Nodup) (hkey : key ∈ keys) :
    (keys.map KeyEquality.operation).findSome? (conditionColumn (oldValueId key.num)) =
      some key.column.text := by
  induction keys with
  | nil => cases hkey
  | cons first rest ih =>
    rw [List.map_cons, List.nodup_cons] at hnodup
    rw [List.map_cons, List.findSome?_cons, conditionColumn_key (hvalid first List.mem_cons_self)]
    rcases List.mem_cons.1 hkey with rfl | hkey
    · rw [if_pos rfl]
    · have hne : oldValueId first.num ≠ oldValueId key.num := by
        intro heq
        apply hnodup.1
        rw [oldValueId_inj heq]
        exact List.mem_map_of_mem hkey
      rw [if_neg hne]
      exact ih (fun k hk => hvalid k (List.mem_cons_of_mem first hk)) hnodup.2 hkey

theorem insertedId_from (j : Nat) (name : List Char) (names : List (List Char)) :
    insertedId name (insertedFrom j names) =
      if name ∈ names then some (newValueId (j + names.idxOf name)) else none := by
  induction names generalizing j with
  | nil => rfl
  | cons n names ih =>
    rw [insertedFrom, insertedId]
    by_cases heq : n = name
    · subst heq
      simp
    · simp only [if_neg heq, ih]
      have hmem : name ∈ n :: names ↔ name ∈ names := by
        rw [List.mem_cons]
        exact or_iff_right fun h => heq h.symm
      by_cases hin : name ∈ names
      · rw [if_pos hin, if_pos (hmem.2 hin), List.idxOf_cons_ne names heq]
        congr 2
        omega
      · rw [if_neg hin, if_neg fun h => hin (hmem.1 h)]

end Search

namespace InsertedKey

variable {s : InsertedKey} {key : KeyEquality} {ps : List KeyEquality}

theorem readIndex_lt {j : Nat} (h : s.readIndex key = some j) : j < s.names.length := by
  rw [readIndex] at h
  obtain ⟨name, -, h⟩ := Option.bind_eq_some_iff.1 h
  split at h
  · next hmem =>
    rw [← Option.some.inj h]
    exact List.idxOf_lt_length_of_mem hmem
  · cases h

theorem mapping_step (hkey : key ∈ s.keys) (sel : List String) (array : List Int) :
    computeInsertSelectParamsMapping s.rowCond (insertedFrom 0 s.names)
        (oldValueId key.num :: sel) array =
      match s.readIndex key with
      | some j => computeInsertSelectParamsMapping s.rowCond (insertedFrom 0 s.names) sel
        (insertVal 0 array key.num (j : Int))
      | none => if columnName key.column.text = none then .undefined else .null := by
  have hfind : s.rowCond.findSome? (conditionColumn (oldValueId key.num)) =
      some key.column.text := by
    rw [findSome_filter, s.equalities]
    exact findSome_keys s.valid s.nums_nodup hkey
  rw [computeInsertSelectParamsMapping, paramNameToInt_old (s.small key hkey)]
  simp only [hfind]
  cases hname : columnName key.column.text with
  | none =>
    have hread : s.readIndex key = none := by
      rw [readIndex, hname]
      rfl
    rw [hread]
    rfl
  | some name =>
    by_cases hmem : name ∈ s.names
    · have hread : s.readIndex key = some (s.names.idxOf name) := by
        rw [readIndex, hname]
        exact if_pos hmem
      have hlt := readIndex_lt hread
      have hsmall := s.names_small
      simp only [hread, insertedId_from, if_pos hmem, Nat.zero_add]
      rw [paramNameToInt_new (by omega)]
      simp only
      rw [if_neg (by omega), Int.toNat_natCast]
    · have hread : s.readIndex key = none := by
        rw [readIndex, hname]
        exact if_neg hmem
      simp only [hread, insertedId_from, if_neg hmem]
      rfl

theorem mapping_all (hps : ∀ key ∈ ps, key ∈ s.keys) (array : List Int) :
    (∀ key ∈ ps, (s.readIndex key).isSome = true) →
      computeInsertSelectParamsMapping s.rowCond (insertedFrom 0 s.names)
          (ps.map fun key => oldValueId key.num) array =
        .array ((ps.filterMap fun key => (s.readIndex key).map fun (j : Nat) =>
          (key.num, (j : Int))).foldl (fun array e => insertVal 0 array e.1 e.2) array) := by
  induction ps generalizing array with
  | nil =>
    intro _
    rfl
  | cons key ps ih =>
    intro hread
    obtain ⟨j, hj⟩ := Option.isSome_iff_exists.1 (hread key List.mem_cons_self)
    rw [List.map_cons, mapping_step (hps key List.mem_cons_self), hj]
    simp only [List.filterMap_cons, hj, Option.map_some, List.foldl_cons]
    exact ih (fun k hk => hps k (List.mem_cons_of_mem key hk)) _
      fun k hk => hread k (List.mem_cons_of_mem key hk)

theorem read_of_mapping {array entries : List Int} (hps : ∀ key ∈ ps, key ∈ s.keys)
    (h : computeInsertSelectParamsMapping s.rowCond (insertedFrom 0 s.names)
      (ps.map fun key => oldValueId key.num) array = .array entries) :
    ∀ key ∈ ps, (s.readIndex key).isSome = true := by
  induction ps generalizing array with
  | nil =>
    intro key hkey
    cases hkey
  | cons first ps ih =>
    rw [List.map_cons, mapping_step (hps first List.mem_cons_self)] at h
    cases hread : s.readIndex first with
    | none =>
      rw [hread] at h
      simp only at h
      split at h <;> cases h
    | some j =>
      rw [hread] at h
      intro key hkey
      rcases List.mem_cons.1 hkey with rfl | hkey
      · rw [hread]
        rfl
      · exact ih (fun k hk => hps k (List.mem_cons_of_mem first hk)) h key hkey

theorem mem_keys (hkey : key ∈ s.parameters) : key ∈ s.keys := s.perm.subset hkey

theorem entry_mem (hkey : key ∈ s.parameters) {j : Nat} (hj : s.readIndex key = some j) :
    (key.num, (j : Int)) ∈ s.entries := by
  rw [entries, List.mem_filterMap]
  refine ⟨key, hkey, ?_⟩
  rw [hj]
  rfl

theorem meets_iff (s : InsertedKey) : s.Meets ↔ s.EntriesLand := by
  have hsub : ∀ key ∈ s.parameters, key ∈ s.keys := fun key hkey => mem_keys hkey
  constructor
  · intro ⟨array, harray, hentries⟩
    have hread := read_of_mapping hsub harray
    refine ⟨hread, ?_⟩
    intro key hkey
    rw [mapping, mapping_all hsub [] hread] at harray
    have heq : insertAll 0 s.entries = array := Mapping.array.inj harray
    obtain ⟨j, hj⟩ := Option.isSome_iff_exists.1 (hread key hkey)
    have hlt := lt_length_insertAll (0 : Int) (entry_mem hkey hj)
    rw [← getElem?_insertAll hlt, heq]
    exact (hentries key hkey).1
  · intro ⟨hread, hlands⟩
    refine ⟨insertAll 0 s.entries, mapping_all hsub [] hread, ?_⟩
    intro key hkey
    obtain ⟨j, hj⟩ := Option.isSome_iff_exists.1 (hread key hkey)
    have hlt := lt_length_insertAll (0 : Int) (entry_mem hkey hj)
    have hentry := (getElem?_insertAll hlt).2 (hlands key hkey)
    refine ⟨hentry, ?_⟩
    intro V values
    rw [rereadValue, paramNameToInt_old (s.small key (mem_keys hkey))]
    simp only [Option.bind_eq_bind, Option.bind_some, Int.toNat_natCast, hentry]

theorem columnName_iff {column : ColumnText} (h : column.Valid) :
    columnName column.text = some column.name ↔ column.Read := by
  cases column with
  | bare v =>
    have hhead : ¬(v.head? = some '"' ∨ v.head? = some '`') := not_or.2 h.2
    rw [ColumnText.text, columnName, if_neg hhead]
    exact iff_of_true rfl trivial
  | quoted v =>
    have hquote : (forceQuotes v).head? = some '"' := rfl
    rw [ColumnText.text, columnName, if_pos (.inl hquote), prepareForCompare, if_pos (.inl hquote),
      removeQuotesIn_eq (nulChar_forceQuotes h.2) (forceQuotes_lone v), Option.some.injEq]
    exact removeQuotes_forceQuotes_iff h.1
  | backquoted v =>
    have hback : (ColumnText.backquoted v).text.head? = some '`' := rfl
    refine iff_of_false ?_ id
    intro hname
    rw [columnName, if_pos (.inr hback), prepareForCompare, hback, if_neg (by decide),
      Option.some.injEq] at hname
    have hlen := congrArg List.length hname
    simp [ColumnText.text, ColumnText.name] at hlen
    omega

theorem readIndex_read (hkey : key ∈ s.parameters) (h : key.column.Read) :
    s.readIndex key = some (s.designated key) := by
  rw [readIndex, (columnName_iff (s.valid key (mem_keys hkey))).2 h]
  exact if_pos (s.returned key (mem_keys hkey))

theorem entries_read (h : ∀ key ∈ s.parameters, key.column.Read) :
    s.entries = s.parameters.map fun key => (key.num, (s.designated key : Int)) := by
  have hsub : ∀ ps : List KeyEquality, (∀ key ∈ ps, key ∈ s.parameters) →
      ps.filterMap (fun key => (s.readIndex key).map fun (j : Nat) => (key.num, (j : Int))) =
        ps.map fun key => (key.num, (s.designated key : Int)) := by
    intro ps
    induction ps with
    | nil =>
      intro _
      rfl
    | cons key ps ih =>
      intro hps
      have hkey := hps key List.mem_cons_self
      rw [List.filterMap_cons, readIndex_read hkey (h key hkey), List.map_cons,
        ih fun k hk => hps k (List.mem_cons_of_mem key hk)]
      rfl
  exact hsub s.parameters fun _ hkey => hkey

theorem meets_of_increasing (hread : ∀ key ∈ s.parameters, key.column.Read) (h : s.Increasing) :
    s.Meets := by
  rw [meets_iff]
  constructor
  · intro key hkey
    rw [readIndex_read hkey (hread key hkey)]
    rfl
  · intro key hkey
    left
    have hsorted : s.entries.Pairwise fun a b => a.1 < b.1 := by
      rw [entries_read hread, List.pairwise_map]
      exact h
    rw [places_of_increasing hsorted, entries_read hread]
    exact List.mem_map.2 ⟨key, hkey, rfl⟩

theorem increasing_of_meets (hread : ∀ key ∈ s.parameters, key.column.Read)
    (hdistinct : (s.parameters.map s.designated).Nodup)
    (hzero : ∀ key ∈ s.parameters, s.designated key ≠ 0) (h : s.Meets) : s.Increasing := by
  rw [meets_iff] at h
  have hentries := entries_read hread
  have hdata : (s.entries.map Prod.snd).Nodup := by
    have hcast : s.entries.map Prod.snd = (s.parameters.map s.designated).map fun (j : Nat) =>
      (j : Int) := by
      rw [hentries, List.map_map, List.map_map]
      rfl
    rw [hcast]
    apply List.Nodup.map _ hdistinct
    intro a b hab
    exact Int.ofNat.inj hab
  have hplaced : ∀ e ∈ s.entries, e ∈ places s.entries := by
    intro e he
    rw [hentries] at he
    obtain ⟨key, hkey, rfl⟩ := List.mem_map.1 he
    rcases h.lands key hkey with hplace | ⟨-, hfilled⟩
    · exact hplace
    · exact absurd (Int.natCast_eq_zero.1 hfilled) (hzero key hkey)
  have hsorted := increasing_of_places hdata hplaced
  rw [hentries, List.pairwise_map] at hsorted
  exact hsorted

end InsertedKey

/-- The mapping is right if the parameters come in the order of their numbers and, with different
columns behind the first one, only then. -/
theorem insertMapping_contract (s : InsertedKey) :
    (s.Meets ↔ s.EntriesLand) ∧
    ((∀ key ∈ s.parameters, key.column.Read) → s.Increasing → s.Meets) ∧
    ((∀ key ∈ s.parameters, key.column.Read) → (s.parameters.map s.designated).Nodup →
      (∀ key ∈ s.parameters, s.designated key ≠ 0) → (s.Meets ↔ s.Increasing)) := by
  refine ⟨s.meets_iff, InsertedKey.meets_of_increasing, ?_⟩
  intro hread hdistinct hzero
  exact ⟨InsertedKey.increasing_of_meets hread hdistinct hzero,
    InsertedKey.meets_of_increasing hread⟩

def lastFirst : InsertedKey where
  rowCond := [⟨.bare ['b'], 1, false⟩, ⟨.bare ['a'], 0, false⟩].map KeyEquality.operation
  keys := [⟨.bare ['b'], 1, false⟩, ⟨.bare ['a'], 0, false⟩]
  equalities := rfl
  nums_nodup := by decide
  valid key hkey := by
    rcases List.mem_cons.1 hkey with rfl | hkey
    · exact ⟨by decide, by decide, by decide⟩
    · rw [List.mem_singleton.1 hkey]
      exact ⟨by decide, by decide, by decide⟩
  parameters := [⟨.bare ['b'], 1, false⟩, ⟨.bare ['a'], 0, false⟩]
  perm := List.Perm.refl _
  small key hkey := by
    rcases List.mem_cons.1 hkey with rfl | hkey
    · decide
    · rw [List.mem_singleton.1 hkey]
      decide
  names := [['a'], ['b']]
  names_nodup := by decide
  names_small := by decide
  returned key hkey := by
    rcases List.mem_cons.1 hkey with rfl | hkey
    · decide
    · rw [List.mem_singleton.1 hkey]
      decide

theorem lastFirst_shifted : ¬lastFirst.Meets := by
  intro h
  have hlands := ((lastFirst.meets_iff).1 h).lands _ List.mem_cons_self
  revert hlands
  rw [Lands]
  decide

end LibGda
