import LibGda.ProxyState

/-! The value of a `GdaHolder` which is bound to no other one: whether it is valid,
and whether it is the default one. -/

namespace LibGda

variable {D : Type}

def holdsNull : Option (GValue D) → Bool
  | none | some .null => true
  | some (.data _ _) => false

@[simp] theorem holdsNull_some (v : GValue D) : holdsNull (some v) = gdaValueIsNull v := by
  cases v with
  | null => rfl
  | data t c => rfl

@[simp] theorem gdaValueIsNull_iff (v : GValue D) : gdaValueIsNull v = true ↔ v = .null := by
  cases v with
  | null => simp [gdaValueIsNull, GValue.valueType]
  | data t c => simp [gdaValueIsNull, GValue.valueType]

@[simp] theorem gdaValueIsNull_eq_false (v : GValue D) : gdaValueIsNull v = false ↔ v ≠ .null := by
  rw [← Bool.not_eq_true, gdaValueIsNull_iff]

theorem valueType_eq_none_iff (v : GValue D) : v.valueType = none ↔ v = .null := by
  cases v with
  | null => simp [GValue.valueType]
  | data t c => simp [GValue.valueType]

theorem getD_null_of_holdsNull {value : Option (GValue D)} (h : holdsNull value = true) :
    value.getD .null = .null := by
  cases value with
  | none => rfl
  | some v => simpa using h

theorem holdsNull_getD (value : Option (GValue D)) :
    holdsNull (some (value.getD .null)) = holdsNull value := by
  cases value with
  | none => rfl
  | some v => rfl

structure HolderValue (D : Type) where
  gType : GType
  notNull : Bool := false
  valid : Bool := true
  invalidForced : Bool := false
  defaultForced : Bool := false
  value : Option (GValue D) := none
  defaultValue : Option (GValue D) := none

namespace HolderValue

section Calls

variable (h : HolderValue D)

/-- `gda_holder_get_value`; a default which is forced is there. -/
def getValue : Option (GValue D) :=
  if h.valid then
    if h.defaultForced then h.defaultValue.filter (·.valueType = h.gType)
    else some (h.value.getD .null)
  else none

theorem getValue_own {h : HolderValue D} (hd : h.defaultForced = false) :
    h.getValue = if h.valid then some (h.value.getD .null) else none := by
  simp [getValue, hd]

theorem getValue_default {h : HolderValue D} (hd : h.defaultForced = true) {d : GValue D}
    (hv : h.defaultValue = some d) :
    h.getValue = if h.valid ∧ d.valueType = h.gType then some d else none := by
  simp only [getValue, hd, hv, Option.filter]
  by_cases hvalid : h.valid = true <;> by_cases ht : d.valueType = h.gType <;> simp [hvalid, ht]

def isValid : Bool :=
  if h.invalidForced then false
  else if h.defaultForced then h.defaultValue.isSome
  else h.valid

def accepts (value : Option (GValue D)) : Bool :=
  if holdsNull value then !h.notNull else value.map GValue.valueType = some h.gType

variable [ContentsCompare D]

def differs (value : Option (GValue D)) (isCurrent : Bool) : Bool :=
  if isCurrent then false
  else if holdsNull h.getValue && holdsNull value then false
  else match value, h.getValue with
    | some v, some c => if v.valueType = c.valueType then gdaValueDiffer v c else true
    | _, _ => true

def isDefault (value : Option (GValue D)) : Bool :=
  match h.defaultValue with
  | some d =>
    (gdaValueIsNull d && holdsNull value) || (d.valueType = h.gType && match value with
      | some v => v.valueType = h.gType && gdaValueCompare d v = 0
      | none => false)
  | none => false

/-- `real_gda_holder_set_value`. `isCurrent` tells that the value is the very pointer of the
current one, and `agreed` that the handlers of "validate-change" let the change happen. -/
def realSetValue (value : Option (GValue D)) (isCurrent agreed : Bool) : HolderValue D × Bool :=
  let newvalid := h.accepts value
  if !h.differs value isCurrent && newvalid && h.isValid then
    ({ h with invalidForced := false, valid := true }, true)
  else if !agreed then (h, false)
  else
    ({ h with
      invalidForced := false
      valid := newvalid
      defaultForced := h.isDefault value
      value := if newvalid then value else none }, newvalid)

omit [ContentsCompare D] in
def setValueToDefault : HolderValue D × Bool :=
  if h.defaultForced then (h, true)
  else if h.defaultValue.isNone then (h, false)
  else ({ h with defaultForced := true, invalidForced := false, value := none }, true)

def dropDefault (agreed : Bool) : HolderValue D :=
  let h :=
    if h.defaultForced && h.defaultValue.isSome then
      (h.realSetValue h.defaultValue (h.valid && h.defaultValue.map GValue.valueType = some h.gType)
        agreed).1
    else h
  { h with defaultForced := false, defaultValue := none }

def shows (d : GValue D) : Bool :=
  (gdaValueIsNull d && holdsNull h.getValue) || (d.valueType = h.gType && match h.getValue with
    | some c => gdaValueCompare d c = 0
    | none => false)

def takeDefault (value : Option (GValue D)) : HolderValue D :=
  match value with
  | none => h
  | some d =>
    { h with
      defaultForced := h.shows d
      defaultValue := some d }

def setDefaultValue (value : Option (GValue D)) (agreed : Bool) : HolderValue D :=
  (h.dropDefault agreed).takeDefault value

omit [ContentsCompare D] in
def setNotNull (notNull : Bool) : HolderValue D :=
  if notNull = h.notNull then h
  else if holdsNull h.value then { h with notNull := notNull, valid := !notNull }
  else { h with notNull := notNull }

omit [ContentsCompare D] in
def forceInvalid : HolderValue D :=
  if h.invalidForced then h
  else { h with invalidForced := true, valid := false, value := none }

end Calls

end HolderValue

inductive NewValue (D : Type) where
  | given (value : Option (GValue D))
  | current

/-- The calls, `agreed` as above. -/
inductive HolderCall (D : Type) where
  | setValue (value : NewValue D) (agreed : Bool)
  | takeValue (value : Option (GValue D)) (agreed : Bool)
  | setValueToDefault
  | setDefaultValue (value : Option (GValue D)) (agreed : Bool)
  | setNotNull (notNull : Bool)
  | forceInvalid

namespace HolderValue

def offered (h : HolderValue D) : NewValue D → Option (GValue D) × Bool
  | .given v => (v, false)
  | .current => (h.getValue, true)

variable [ContentsCompare D]

def call (h : HolderValue D) : HolderCall D → HolderValue D × Option Bool
  | .setValue v agreed =>
    let r := h.realSetValue (h.offered v).1 (h.offered v).2 agreed
    (r.1, some r.2)
  | .takeValue v agreed =>
    let r := h.realSetValue v false agreed
    (r.1, some r.2)
  | .setValueToDefault =>
    let r := h.setValueToDefault
    (r.1, some r.2)
  | .setDefaultValue v agreed => (h.setDefaultValue v agreed, none)
  | .setNotNull b => (h.setNotNull b, none)
  | .forceInvalid => (h.forceInvalid, none)

end HolderValue

/-- A holder, and whether it was forced to be invalid and not set since then. -/
structure HolderRun (D : Type) where
  holder : HolderValue D
  forced : Bool := false

namespace HolderRun

variable [ContentsCompare D]

def step (s : HolderRun D) (c : HolderCall D) : HolderRun D where
  holder := (s.holder.call c).1
  forced := match c with
    | .forceInvalid => true
    | _ => s.forced && (s.holder.call c).2 != some true

end HolderRun

end LibGda
