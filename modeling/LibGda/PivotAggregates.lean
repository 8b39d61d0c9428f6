import LibGda.NumeralReading

/-! The aggregates of `GdaDataPivot` over the values of a cell. -/

namespace LibGda

inductive GdaDataPivotAggregate where
  | avg
  | count
  | max
  | min
  | sum
  deriving DecidableEq

inductive PivotError where
  | internal
  | overflow
  deriving DecidableEq

structure CellData where
  gtype : NumberType
  aggregate : GdaDataPivotAggregate
  dataValue : Option (NumberType × Int) := none
  error : Option PivotError := none
  nvalues : Nat := 0

/-- The C types of an `aggregate_handle_*` function: of its parameter, of the value it keeps, of
`eval + val` and of the accumulator of an average. -/
structure AggregateHandler where
  param : NumberType
  value : NumberType
  sum : NumberType
  average : NumberType

def aggregateHandleGint : AggregateHandler := ⟨.int, .int, .int, .int64⟩
def aggregateHandleGuint : AggregateHandler := ⟨.uint, .uint, .uint, .uint64⟩
def aggregateHandleGint64 : AggregateHandler := ⟨.int64, .int64, .int64, .int64⟩
/-- Its parameter is a `guint`. -/
def aggregateHandleGuint64 : AggregateHandler := ⟨.uint, .uint64, .uint64, .uint64⟩
def aggregateHandleChar : AggregateHandler := ⟨.char, .char, .int, .int64⟩
def aggregateHandleUchar : AggregateHandler := ⟨.uchar, .uchar, .int, .uint64⟩
def aggregateHandleShort : AggregateHandler := ⟨.short, .short, .int, .int64⟩
def aggregateHandleUshort : AggregateHandler := ⟨.ushort, .ushort, .int, .uint64⟩

namespace NumberType

instance (type : NumberType) (n : Int) : Decidable (type.Holds n) :=
  inferInstanceAs (Decidable (_ ∧ _))

end NumberType

def AggregateHandler.accumulate (h : AggregateHandler) (aggregate : GdaDataPivotAggregate)
    (type : NumberType) (v val : Int) : Option (NumberType × Int) :=
  let eval := if type = h.value then v else 0
  match aggregate with
  | .min => some (if val < eval then (h.value, val) else (type, v))
  | .max => some (if eval < val then (h.value, val) else (type, v))
  | .sum =>
    let tmp := (h.sum.cast (eval + val)).1
    -- `(tmp > MAX) || (tmp < MIN)` is the overflow
    if h.value.Holds tmp then some (h.value, (h.value.cast tmp).1) else none
  | .avg =>
    let tmp := (h.average.cast (v + val)).1
    if h.average.Holds tmp then some (h.average, tmp) else none
  | .count => some (type, v)

/-- The body which the `aggregate_handle_*` functions share. -/
def AggregateHandler.handle (h : AggregateHandler) (cdata : CellData) (v : Int) : CellData :=
  let val := (h.param.cast v).1
  match cdata.dataValue with
  | some (type, before) =>
    match h.accumulate cdata.aggregate type before val with
    | some after => { cdata with dataValue := some after, nvalues := cdata.nvalues + 1 }
    | none => { cdata with error := some .overflow, nvalues := cdata.nvalues + 1 }
  | none =>
    let first := if cdata.aggregate = .avg then h.average else h.value
    { cdata with dataValue := some (first, val), nvalues := cdata.nvalues + 1 }

def aggregateHandlerOf : NumberType → Option AggregateHandler
  | .int => some aggregateHandleGint
  | .uint => some aggregateHandleGuint
  | .int64 => some aggregateHandleGint64
  | .uint64 => some aggregateHandleGuint64
  | .char => some aggregateHandleChar
  | .uchar => some aggregateHandleUchar
  | .short => some aggregateHandleShort
  | .ushort => some aggregateHandleUshort
  | .long | .ulong => none

/-- `aggregate_handle_new_value`, for a value which is a number. -/
def aggregateHandleNewValue (cdata : CellData) (type : NumberType) (v : Int) : CellData :=
  if cdata.error.isSome then cdata
  else if type ≠ cdata.gtype then { cdata with error := some .internal }
  else if cdata.aggregate = .count then
    match cdata.dataValue with
    | some (_, n) =>
      let tmp := (NumberType.uint.cast (n + 1)).1
      if 2 ^ 32 - 1 ≤ tmp then { cdata with error := some .overflow }
      else { cdata with dataValue := some (.uint, tmp) }
    | none => { cdata with dataValue := some (.uint, 1) }
  else
    match aggregateHandlerOf cdata.gtype with
    | some h => h.handle cdata v
    | none => { cdata with error := some .internal }

section Contract

abbrev PivotType : Type := { type : NumberType // (aggregateHandlerOf type).isSome = true }

def foldAggregate (type : PivotType) (aggregate : GdaDataPivotAggregate) (values : List Int) :
    CellData :=
  values.foldl (fun cdata v => aggregateHandleNewValue cdata type.1 v)
    { gtype := type.1, aggregate }

def accumulatorType (type : NumberType) : GdaDataPivotAggregate → NumberType
  | .count => .uint
  | .avg => if type.isSigned then .int64 else .uint64
  | .min | .max | .sum => type

def addends (values : List Int) : GdaDataPivotAggregate → List Int
  | .count => values.map fun _ => 1
  | .avg | .sum => values
  | .min | .max => []

def SumsFit (type : NumberType) : Int → List Int → Prop
  | _, [] => True
  | total, v :: values => type.Holds (total + v) ∧ SumsFit type (total + v) values

def IsExact (values : List Int) (r : Int) : GdaDataPivotAggregate → Prop
  | .count => r = values.length
  | .avg | .sum => r = values.sum
  | .min => r ∈ values ∧ ∀ v ∈ values, r ≤ v
  | .max => r ∈ values ∧ ∀ v ∈ values, v ≤ r

def AggregateRight (type : PivotType) (aggregate : GdaDataPivotAggregate) (values : List Int) :
    Prop :=
  let cell := foldAggregate type aggregate values
  let accumulator := accumulatorType type.1 aggregate
  (SumsFit accumulator 0 (addends values aggregate) →
    cell.error = none ∧
      ∃ r, cell.dataValue = some (accumulator, r) ∧ IsExact values r aggregate) ∧
  (¬ SumsFit accumulator 0 (addends values aggregate) → cell.error = some .overflow)

/-- Nothing of the values is lost by the `guint` which takes a `guint64`. -/
def Untruncated (type : NumberType) (values : List Int) : Prop :=
  type = .uint64 → ∀ v ∈ values, v < 2 ^ 32

def AggregateHandled (type : NumberType) (values : List Int) : GdaDataPivotAggregate → Prop
  | .count => values.length ≠ 2 ^ 32 - 1
  | .min => type = .uint64 → ∃ m ∈ values, m < 2 ^ 32 ∧ ∀ v ∈ values, m ≤ v % 2 ^ 32
  | .max => Untruncated type values
  | .sum => type.bits ≤ 16 ∨ (SumsFit type 0 values ∧ Untruncated type values)
  | .avg => SumsFit (accumulatorType type .avg) 0 values ∧ Untruncated type values

end Contract

namespace NumberType

variable {type other : NumberType} {n a b : Int}

theorem holds_cast (type : NumberType) (n : Int) : type.Holds (type.cast n).1 := (type.cast n).2

theorem cast_holds (h : type.Holds n) : (type.cast n).1 = n :=
  congrArg Subtype.val (cast_self (⟨n, h⟩ : type.Carrier))

theorem cast_cast_add (type : NumberType) (a b : Int) :
    (type.cast ((type.cast a).1 + b)).1 = (type.cast (a + b)).1 := by
  have hmod : (type.lowest + (a - type.lowest) % 2 ^ type.bits + b - type.lowest) % 2 ^ type.bits =
      (a + b - type.lowest) % 2 ^ type.bits := by
    have hsplit : type.lowest + (a - type.lowest) % 2 ^ type.bits + b - type.lowest =
        (a - type.lowest) % 2 ^ type.bits + b := by omega
    have hwhole : a + b - type.lowest = a - type.lowest + b := by omega
    rw [hsplit, hwhole, Int.emod_add_emod]
  show type.lowest + _ = type.lowest + _
  rw [cast, hmod]

end NumberType

section Folds

open GdaDataPivotAggregate

variable {type : NumberType} {aggregate : GdaDataPivotAggregate} {h : AggregateHandler}
variable {cell : CellData} {dv : NumberType × Int} {values : List Int} {total : Int}

structure Shows (type : NumberType) (aggregate : GdaDataPivotAggregate) (dv : NumberType × Int)
    (cell : CellData) : Prop where
  gtype : cell.gtype = type
  aggregate_eq : cell.aggregate = aggregate
  value : cell.dataValue = some dv
  noError : cell.error = none

abbrev handleAll (type : NumberType) (cell : CellData) (values : List Int) : CellData :=
  values.foldl (fun cdata v => aggregateHandleNewValue cdata type v) cell

theorem handleAll_error {e : PivotError} (he : cell.error = some e) :
    (handleAll type cell values).error = some e := by
  induction values generalizing cell with
  | nil => exact he
  | cons v values ih =>
    apply ih
    simp [aggregateHandleNewValue, he]

theorem Shows.handle (hc : Shows type aggregate dv cell) (hagg : aggregate ≠ .count)
    (hh : aggregateHandlerOf type = some h) (v : Int) :
    aggregateHandleNewValue cell type v = h.handle cell v := by
  rw [aggregateHandleNewValue, hc.noError, hc.gtype, hc.aggregate_eq, hh]
  simp [hagg]

theorem Shows.accumulated {after : NumberType × Int} (hc : Shows type aggregate dv cell)
    (hagg : aggregate ≠ .count) (hh : aggregateHandlerOf type = some h) {v : Int}
    (hacc : h.accumulate aggregate dv.1 dv.2 (h.param.cast v).1 = some after) :
    Shows type aggregate after (aggregateHandleNewValue cell type v) := by
  rw [hc.handle hagg hh, AggregateHandler.handle, hc.value, hc.aggregate_eq]
  simp only [hacc]
  exact ⟨hc.gtype, rfl, rfl, hc.noError⟩

theorem Shows.overflows (hc : Shows type aggregate dv cell)
    (hagg : aggregate ≠ .count) (hh : aggregateHandlerOf type = some h) {v : Int}
    (hacc : h.accumulate aggregate dv.1 dv.2 (h.param.cast v).1 = none) :
    (aggregateHandleNewValue cell type v).error = some .overflow := by
  rw [hc.handle hagg hh, AggregateHandler.handle, hc.value, hc.aggregate_eq]
  simp only [hacc]

theorem Shows.folded (values : List Int) {t : NumberType} {b : Int}
    (hc : Shows type aggregate (t, b) cell)
    (hagg : aggregate ≠ .count) (hh : aggregateHandlerOf type = some h) {f : Int → Int → Int}
    (hacc : ∀ b v, h.accumulate aggregate t b (h.param.cast v).1 =
      some (t, f b (h.param.cast v).1)) :
    Shows type aggregate (t, (values.map fun v => (h.param.cast v).1).foldl f b)
      (handleAll type cell values) := by
  induction values generalizing cell b with
  | nil => exact hc
  | cons v values ih => exact ih (hc.accumulated hagg hh (hacc b v))

theorem foldl_cast (t : NumberType) {b : Int} (hb : t.Holds b) (xs : List Int) :
    xs.foldl (fun b x => (t.cast (b + x)).1) b = (t.cast (b + xs.sum)).1 := by
  induction xs generalizing b with
  | nil => simp [NumberType.cast_holds hb]
  | cons x xs ih =>
    rw [List.foldl_cons, ih (t.holds_cast _), NumberType.cast_cast_add, List.sum_cons]
    congr 2
    omega

theorem SumsFit.holds (hfit : SumsFit type total values) (htotal : type.Holds total) :
    type.Holds (total + values.sum) := by
  induction values generalizing total with
  | nil => simpa using htotal
  | cons v values ih =>
    have hrest := ih hfit.2 hfit.1
    rwa [Int.add_assoc, ← List.sum_cons] at hrest

theorem shows_first (aggregate : GdaDataPivotAggregate) (hagg : aggregate ≠ .count)
    (hh : aggregateHandlerOf type = some h) (v : Int) :
    Shows type aggregate (if aggregate = .avg then h.average else h.value, (h.param.cast v).1)
      (aggregateHandleNewValue { gtype := type, aggregate } type v) := by
  simp [aggregateHandleNewValue, AggregateHandler.handle, hh, hagg]
  exact ⟨rfl, rfl, rfl, rfl⟩


def better (aggregate : GdaDataPivotAggregate) (x b : Int) : Prop :=
  if aggregate = .min then x < b else b < x

instance (aggregate : GdaDataPivotAggregate) (x b : Int) : Decidable (better aggregate x b) :=
  inferInstanceAs (Decidable (if aggregate = .min then x < b else b < x))

theorem foldl_better (hagg : aggregate = .min ∨ aggregate = .max) (b : Int) (xs : List Int) :
    IsExact (b :: xs) (xs.foldl (fun b x => if better aggregate x b then x else b) b)
      aggregate := by
  induction xs generalizing b with
  | nil => rcases hagg with rfl | rfl <;> simp [IsExact]
  | cons x xs ih =>
    have hrest := ih (if better aggregate x b then x else b)
    rcases hagg with rfl | rfl
    all_goals
      simp only [IsExact, List.foldl_cons, List.mem_cons, forall_eq_or_imp] at hrest ⊢
      generalize xs.foldl _ _ = r at hrest ⊢
      simp only [better] at hrest
      split at hrest <;> grind

/-- The sums of the narrow types are made in an `int`, and each is tested. -/
theorem Shows.sum_narrow {b : Int} (hc : Shows type .sum (type, b) cell) (hb : type.Holds b)
    (hh : aggregateHandlerOf type = some h) (hbits : type.bits ≤ 16)
    (hvalues : ∀ v ∈ values, type.Holds v) :
    (SumsFit type b values → Shows type .sum (type, b + values.sum) (handleAll type cell values)) ∧
      (¬ SumsFit type b values → (handleAll type cell values).error = some .overflow) := by
  induction values generalizing cell b with
  | nil => exact ⟨fun _ => by simpa using hc, fun hno => absurd trivial hno⟩
  | cons v values ih =>
    have hv : type.Holds v := hvalues v List.mem_cons_self
    have hkinds : h.param = type ∧ h.value = type ∧ h.sum = .int := by
      cases type <;> simp [NumberType.bits] at hbits <;> obtain rfl := Option.some.inj hh <;>
        exact ⟨rfl, rfl, rfl⟩
    have hint : NumberType.int.Holds (b + v) := by
      cases type <;> simp [NumberType.bits] at hbits <;>
        simp [NumberType.Holds, NumberType.lowest, NumberType.isSigned, NumberType.bits]
          at hb hv ⊢ <;> omega
    have hval : (h.param.cast v).1 = v := by
      rw [hkinds.1]
      exact NumberType.cast_holds hv
    have hsum : (h.sum.cast (b + v)).1 = b + v := by
      rw [hkinds.2.2]
      exact NumberType.cast_holds hint
    have hacc : h.accumulate .sum type b (h.param.cast v).1 =
        if type.Holds (b + v) then some (type, b + v) else none := by
      simp only [AggregateHandler.accumulate, if_pos hkinds.2.1.symm, hval, hsum]
      rw [hkinds.2.1]
      split
      · next hfit => rw [NumberType.cast_holds hfit]
      · rfl
    by_cases hfit : type.Holds (b + v)
    · rw [if_pos hfit] at hacc
      have hrest := ih (hc.accumulated (by decide) hh hacc) hfit
        fun w hw => hvalues w (List.mem_cons_of_mem v hw)
      simpa [SumsFit, hfit, List.sum_cons, Int.add_assoc] using hrest
    · rw [if_neg hfit] at hacc
      have herror := hc.overflows (by decide) hh hacc
      exact ⟨fun hno => absurd hno.1 hfit, fun _ => @handleAll_error type _ values _ herror⟩

theorem Shows.count_step {n : Int} (hc : Shows type .count (.uint, n) cell) (hpos : 0 ≤ n)
    (hlt : n < 2 ^ 32 - 1) (v : Int) :
    (n < 2 ^ 32 - 2 → Shows type .count (.uint, n + 1) (aggregateHandleNewValue cell type v)) ∧
      (n = 2 ^ 32 - 2 → (aggregateHandleNewValue cell type v).error = some .overflow) := by
  have hcast : (NumberType.uint.cast (n + 1)).1 = n + 1 := by
    apply NumberType.cast_holds
    simp [NumberType.Holds, NumberType.lowest, NumberType.isSigned, NumberType.bits]
    omega
  have hstep : aggregateHandleNewValue cell type v =
      if 2 ^ 32 - 1 ≤ n + 1 then { cell with error := some .overflow }
      else { cell with dataValue := some (.uint, n + 1) } := by
    simp [aggregateHandleNewValue, hc.noError, hc.gtype, hc.aggregate_eq, hc.value, hcast]
  rw [hstep]
  constructor
  · intro hsmall
    rw [if_neg (by omega)]
    exact ⟨hc.gtype, hc.aggregate_eq, rfl, hc.noError⟩
  · intro hlast
    rw [if_pos (by omega)]

theorem Shows.counted (values : List Int) {n : Int} (hc : Shows type .count (.uint, n) cell)
    (hpos : 0 ≤ n)
    (hlt : n < 2 ^ 32 - 1) :
    (n + values.length < 2 ^ 32 - 1 →
        Shows type .count (.uint, n + values.length) (handleAll type cell values)) ∧
      (2 ^ 32 - 1 ≤ n + values.length →
        (handleAll type cell values).error = some .overflow) := by
  induction values generalizing cell n with
  | nil => exact ⟨fun _ => by simpa using hc, fun hge => by simp at hge; omega⟩
  | cons v values ih =>
    obtain ⟨hnext, hlast⟩ := hc.count_step hpos hlt v
    simp only [List.length_cons, Int.natCast_succ]
    by_cases hn : n = 2 ^ 32 - 2
    · exact ⟨fun hsmall => by omega, fun _ => @handleAll_error type _ values _ (hlast hn)⟩
    · have hrest := ih (hnext (by omega)) (by omega) (by omega)
      have hassoc : n + (values.length + 1 : Int) = n + 1 + values.length := by omega
      rw [hassoc]
      exact hrest

theorem sumsFit_ones (values : List Int) {n : Int} (hpos : 0 ≤ n) (hlt : n < 2 ^ 32) :
    SumsFit .uint n (values.map fun _ => 1) ↔ n + values.length < 2 ^ 32 := by
  induction values generalizing n with
  | nil => simpa [SumsFit] using hlt
  | cons v values ih =>
    have hholds : NumberType.uint.Holds (n + 1) ↔ n + 1 < 2 ^ 32 := by
      simp [NumberType.Holds, NumberType.lowest, NumberType.isSigned, NumberType.bits]
      omega
    simp only [List.map_cons, SumsFit, hholds, List.length_cons, Int.natCast_succ]
    by_cases hnext : n + 1 < 2 ^ 32
    · rw [ih (by omega) hnext]
      omega
    · omega

end Folds

section Results

open GdaDataPivotAggregate

variable {type : NumberType} {aggregate : GdaDataPivotAggregate} {h : AggregateHandler}
variable {values : List Int}

abbrev taken (h : AggregateHandler) (values : List Int) : List Int :=
  values.map fun v => (h.param.cast v).1

theorem taken_eq (hh : aggregateHandlerOf type = some h) (hvalues : ∀ v ∈ values, type.Holds v)
    (htype : type ≠ .uint64) : taken h values = values := by
  have hparam : h.param = type := by
    cases type <;> first | exact absurd rfl htype | (obtain rfl := Option.some.inj hh; rfl) |
      cases hh
  rw [taken, hparam]
  exact List.map_congr_left (fun v hv => NumberType.cast_holds (hvalues v hv)) |>.trans
    (List.map_id values)

theorem taken_uint64 (hh : aggregateHandlerOf .uint64 = some h) :
    taken h values = values.map (· % 2 ^ 32) := by
  obtain rfl := Option.some.inj hh
  apply List.map_congr_left
  intro v _
  simp [aggregateHandleGuint64, NumberType.cast, NumberType.lowest, NumberType.isSigned,
    NumberType.bits]

theorem foldAggregate_cons (type : PivotType) (v : Int) :
    foldAggregate type aggregate (v :: values) =
      handleAll type.1 (aggregateHandleNewValue { gtype := type.1, aggregate } type.1 v) values :=
  rfl

theorem Shows.right {type : PivotType} {r : Int}
    (hs : Shows type.1 aggregate (accumulatorType type.1 aggregate, r)
      (foldAggregate type aggregate values)) :
    AggregateRight type aggregate values ↔
      SumsFit (accumulatorType type.1 aggregate) 0 (addends values aggregate) ∧
        IsExact values r aggregate := by
  simp only [AggregateRight, hs.noError, hs.value, true_and]
  constructor
  · intro ⟨hexact, hno⟩
    have hfit : SumsFit (accumulatorType type.1 aggregate) 0 (addends values aggregate) := by
      by_contra hnot
      cases hno hnot
    obtain ⟨r', hr, hexact⟩ := hexact hfit
    obtain ⟨-, rfl⟩ := Prod.mk.inj (Option.some.inj hr)
    exact ⟨hfit, hexact⟩
  · intro ⟨hfit, hexact⟩
    exact ⟨fun _ => ⟨r, rfl, hexact⟩, fun hno => absurd hfit hno⟩

theorem handler_types (hh : aggregateHandlerOf type = some h) :
    h.value = type ∧ h.average = accumulatorType type .avg ∧ (16 < type.bits → h.sum = type) ∧
      type.Holds 0 := by
  cases type <;> first
    | (obtain rfl := Option.some.inj hh
       exact ⟨rfl, rfl, by decide, by decide⟩)
    | cases hh

theorem holds_taken (hh : aggregateHandlerOf type = some h) (v : Int) :
    type.Holds (h.param.cast v).1 ∧ (accumulatorType type .avg).Holds (h.param.cast v).1 := by
  have hparam := h.param.holds_cast v
  revert hparam
  generalize (h.param.cast v).1 = x
  cases type <;> first
    | (obtain rfl := Option.some.inj hh
       intro hx
       simp [NumberType.Holds, NumberType.lowest, NumberType.isSigned, NumberType.bits,
         accumulatorType, aggregateHandleGint, aggregateHandleGuint, aggregateHandleGint64,
         aggregateHandleGuint64, aggregateHandleChar, aggregateHandleUchar, aggregateHandleShort,
         aggregateHandleUshort] at hx ⊢
       omega)
    | cases hh

theorem shows_better (hagg : aggregate = .min ∨ aggregate = .max)
    (hh : aggregateHandlerOf type = some h) (v : Int) :
    ∃ r, Shows type aggregate (type, r) (handleAll type { gtype := type, aggregate }
      (v :: values)) ∧
      IsExact (taken h (v :: values)) r aggregate := by
  have hvalue := (handler_types hh).1
  have hcount : aggregate ≠ .count := by rcases hagg with rfl | rfl <;> simp
  have havg : aggregate ≠ .avg := by rcases hagg with rfl | rfl <;> simp
  have hfirst := shows_first aggregate hcount hh v
  rw [if_neg havg, hvalue] at hfirst
  have hacc (b v : Int) : h.accumulate aggregate type b (h.param.cast v).1 = some (type,
      (fun b x => if better aggregate x b then x else b) b (h.param.cast v).1) := by
    rcases hagg with rfl | rfl
    all_goals
      simp [AggregateHandler.accumulate, hvalue, better]
      split <;> rfl
  exact ⟨_, hfirst.folded values hcount hh hacc, foldl_better hagg _ _⟩

theorem shows_avg (hh : aggregateHandlerOf type = some h) (v : Int) :
    Shows type .avg (accumulatorType type .avg,
        ((accumulatorType type .avg).cast (taken h (v :: values)).sum).1)
      (handleAll type { gtype := type, aggregate := .avg } (v :: values)) := by
  have haverage := (handler_types hh).2.1
  have hfirst := shows_first .avg (by decide) hh v
  rw [if_pos rfl, haverage] at hfirst
  have hacc (b v : Int) : h.accumulate .avg (accumulatorType type .avg) b (h.param.cast v).1 =
      some (accumulatorType type .avg, (fun b x => ((accumulatorType type .avg).cast (b + x)).1) b
        (h.param.cast v).1) := by
    simp only [AggregateHandler.accumulate]
    rw [haverage]
    exact if_pos (NumberType.holds_cast _ _)
  have hall := hfirst.folded values (f := fun b x => ((accumulatorType type .avg).cast (b + x)).1)
    (by decide) hh hacc
  rwa [foldl_cast _ (holds_taken hh v).2, ← List.sum_cons] at hall

theorem shows_sum (hh : aggregateHandlerOf type = some h) (hbits : 16 < type.bits) (v : Int) :
    Shows type .sum (type, (type.cast (taken h (v :: values)).sum).1)
      (handleAll type { gtype := type, aggregate := .sum } (v :: values)) := by
  obtain ⟨hvalue, -, hsum, -⟩ := handler_types hh
  have hfirst := shows_first .sum (by decide) hh v
  rw [if_neg (by decide), hvalue] at hfirst
  have hacc (b v : Int) : h.accumulate .sum type b (h.param.cast v).1 = some (type,
      (fun b x => (type.cast (b + x)).1) b (h.param.cast v).1) := by
    simp only [AggregateHandler.accumulate, if_pos hvalue.symm]
    rw [hsum hbits, hvalue, NumberType.cast_holds (type.holds_cast _)]
    exact if_pos (type.holds_cast _)
  have hall := hfirst.folded values (f := fun b x => (type.cast (b + x)).1) (by decide) hh hacc
  rwa [foldl_cast _ (holds_taken hh v).1, ← List.sum_cons] at hall

theorem sum_mods (hpos : ∀ v ∈ values, 0 ≤ v) :
    0 ≤ (values.map (· % 2 ^ 32)).sum ∧ (values.map (· % 2 ^ 32)).sum ≤ values.sum ∧
      ((values.map (· % 2 ^ 32)).sum = values.sum ↔ ∀ v ∈ values, v < 2 ^ 32) := by
  induction values with
  | nil => simp
  | cons v values ih =>
    have hv := hpos v List.mem_cons_self
    obtain ⟨hlow, hle, heq⟩ := ih fun w hw => hpos w (List.mem_cons_of_mem v hw)
    simp only [List.map_cons, List.sum_cons, List.forall_mem_cons, ← heq]
    refine ⟨by omega, by omega, ?_⟩
    constructor
    · intro hsum
      constructor <;> omega
    · rintro ⟨hlt, hsum⟩
      omega

theorem sum_taken {accumulator : NumberType} (hh : aggregateHandlerOf type = some h)
    (hvalues : ∀ v ∈ values, type.Holds v) (hzero : accumulator.Holds 0)
    (haccumulator : type = .uint64 → accumulator = .uint64) (hfit : SumsFit accumulator 0 values) :
    (accumulator.cast (taken h values).sum).1 = values.sum ↔ Untruncated type values := by
  have hsum : accumulator.Holds values.sum := by
    have hholds := hfit.holds hzero
    rwa [Int.zero_add] at hholds
  by_cases htype : type = .uint64
  · subst htype
    obtain rfl := haccumulator rfl
    have hpos : ∀ v ∈ values, 0 ≤ v := fun v hv => (hvalues v hv).1
    obtain ⟨hlow, hle, heq⟩ := sum_mods hpos
    have hholds : NumberType.uint64.Holds (values.map (· % 2 ^ 32)).sum :=
      ⟨hlow, Int.lt_of_le_of_lt hle hsum.2⟩
    rw [taken_uint64 hh, NumberType.cast_holds hholds, heq]
    simp [Untruncated]
  · rw [taken_eq hh hvalues htype, NumberType.cast_holds hsum]
    simp [Untruncated, htype]

theorem min_taken {r : Int} (hh : aggregateHandlerOf type = some h)
    (hvalues : ∀ v ∈ values, type.Holds v) (hr : IsExact (taken h values) r .min) :
    IsExact values r .min ↔ AggregateHandled type values .min := by
  by_cases htype : type = .uint64
  · subst htype
    rw [taken_uint64 hh] at hr
    obtain ⟨hmem, hleast⟩ := hr
    obtain ⟨x, hx, rfl⟩ := List.mem_map.mp hmem
    simp only [List.forall_mem_map] at hleast
    simp only [AggregateHandled, forall_const, IsExact]
    constructor
    · intro ⟨hr, _⟩
      exact ⟨_, hr, by omega, hleast⟩
    · intro ⟨m, hm, hlt, hall⟩
      have hpos : 0 ≤ m := (hvalues m hm).1
      have hm' := hleast m hm
      have hx' := hall x hx
      have hsame : x % 2 ^ 32 = m := by omega
      rw [hsame]
      refine ⟨hm, fun v hv => ?_⟩
      have hv' := hall v hv
      have hvpos : 0 ≤ v := (hvalues v hv).1
      omega
  · rw [taken_eq hh hvalues htype] at hr
    simp [AggregateHandled, htype, hr]

theorem max_taken {r : Int} (hh : aggregateHandlerOf type = some h)
    (hvalues : ∀ v ∈ values, type.Holds v) (hr : IsExact (taken h values) r .max) :
    IsExact values r .max ↔ AggregateHandled type values .max := by
  by_cases htype : type = .uint64
  · subst htype
    rw [taken_uint64 hh] at hr
    obtain ⟨hmem, hgreatest⟩ := hr
    obtain ⟨x, hx, rfl⟩ := List.mem_map.mp hmem
    simp only [List.forall_mem_map] at hgreatest
    simp only [AggregateHandled, Untruncated, forall_const, IsExact]
    constructor
    · intro ⟨_, hall⟩ v hv
      have hle := hall v hv
      omega
    · intro hall
      have hsame (v : Int) (hv : v ∈ values) : v % 2 ^ 32 = v :=
        Int.emod_eq_of_lt (hvalues v hv).1 (hall v hv)
      rw [hsame x hx]
      refine ⟨hx, fun v hv => ?_⟩
      have hle := hgreatest v hv
      rwa [hsame v hv, hsame x hx] at hle
  · rw [taken_eq hh hvalues htype] at hr
    simp [AggregateHandled, Untruncated, htype, hr]

theorem right_count (type : PivotType) (v : Int) :
    AggregateRight type .count (v :: values) ↔ AggregateHandled type.1 (v :: values) .count := by
  have hfirst : Shows type.1 .count (.uint, 1)
      (aggregateHandleNewValue { gtype := type.1, aggregate := .count } type.1 v) := by
    simp [aggregateHandleNewValue]
    exact ⟨rfl, rfl, rfl, rfl⟩
  obtain ⟨hshows, hfails⟩ := hfirst.counted values (by decide) (by decide)
  have hfit : SumsFit .uint 0 ((v :: values).map fun _ => 1) ↔ 1 + (values.length : Int) < 2 ^
    32 := by
    have hones := @sumsFit_ones (v :: values) 0 le_rfl (by decide)
    rw [hones, List.length_cons, Int.natCast_succ]
    omega
  simp only [AggregateHandled, List.length_cons]
  by_cases hlt : 1 + (values.length : Int) < 2 ^ 32 - 1
  · have hright : IsExact (v :: values) (1 + values.length) .count := by
      simp only [IsExact, List.length_cons, Int.natCast_succ]
      omega
    have hs : Shows type.1 .count (accumulatorType type.1 .count, 1 + (values.length : Int))
        (foldAggregate type .count (v :: values)) := hshows hlt
    have hgood := hs.right.mpr ⟨hfit.mpr (by omega), hright⟩
    exact iff_of_true hgood (by omega)
  · have herror := hfails (by omega)
    by_cases heq : 1 + (values.length : Int) = 2 ^ 32 - 1
    · refine iff_of_false (fun hright => ?_) (by omega)
      have hnone := (hright.1 (hfit.mpr (by omega))).1
      rw [foldAggregate_cons, herror] at hnone
      cases hnone
    · have hno : ¬ SumsFit .uint 0 ((v :: values).map fun _ => 1) := by
        rw [hfit]
        omega
      exact iff_of_true ⟨fun hyes => absurd hyes hno, fun _ => herror⟩ (by omega)

theorem right_sum_narrow (type : PivotType) (v : Int) (hbits : type.1.bits ≤ 16)
    (hvalues : ∀ w ∈ v :: values, type.1.Holds w) : AggregateRight type .sum (v :: values) := by
  obtain ⟨h, hh⟩ := Option.isSome_iff_exists.mp type.2
  have hv := hvalues v List.mem_cons_self
  have hfirst := shows_first .sum (by decide) hh v
  have hparam := @taken_eq type.1 h [v] hh (by simpa using hv)
    (by rintro he; rw [he] at hbits; exact absurd hbits (by decide))
  have hcast : (h.param.cast v).1 = v := by simpa [taken] using hparam
  rw [if_neg (by decide), (handler_types hh).1, hcast] at hfirst
  obtain ⟨hshows, hfails⟩ := hfirst.sum_narrow hv hh hbits
    fun w hw => hvalues w (List.mem_cons_of_mem v hw)
  have hfit : SumsFit type.1 0 (v :: values) ↔ SumsFit type.1 v values := by
    simp [SumsFit, hv]
  refine ⟨fun hyes => ?_, fun hno => hfails (hno ∘ hfit.mpr)⟩
  have hs := hshows (hfit.mp hyes)
  exact ⟨hs.noError, _, hs.value, (List.sum_cons ..).symm⟩

end Results

/-- An aggregate is the exact one, or gives the overflow error, exactly under its condition. -/
theorem aggregateRight_iff (type : PivotType) (aggregate : GdaDataPivotAggregate)
    (v : type.1.Carrier) (values : List type.1.Carrier) :
    AggregateRight type aggregate ((v :: values).map Subtype.val) ↔
      AggregateHandled type.1 ((v :: values).map Subtype.val) aggregate := by
  obtain ⟨h, hh⟩ := Option.isSome_iff_exists.mp type.2
  have hvalues : ∀ w ∈ (v :: values).map Subtype.val, type.1.Holds w := by
    intro w hw
    obtain ⟨x, -, rfl⟩ := List.mem_map.mp hw
    exact x.2
  rw [List.map_cons] at hvalues ⊢
  cases aggregate with
  | count => exact right_count type v.1
  | min =>
    obtain ⟨r, hs, hr⟩ := shows_better (.inl rfl) hh v.1
    rw [Shows.right hs, ← min_taken hh hvalues hr]
    exact and_iff_right trivial
  | max =>
    obtain ⟨r, hs, hr⟩ := shows_better (.inr rfl) hh v.1
    rw [Shows.right hs, ← max_taken hh hvalues hr]
    exact and_iff_right trivial
  | avg =>
    rw [Shows.right (shows_avg hh v.1), AggregateHandled]
    refine and_congr_right fun hfit => sum_taken hh hvalues ?_ ?_ hfit
    · rw [accumulatorType]
      split <;> decide
    · intro htype
      rw [htype]
      rfl
  | sum =>
    by_cases hbits : type.1.bits ≤ 16
    · exact iff_of_true (right_sum_narrow type v.1 hbits hvalues) (.inl hbits)
    · rw [Shows.right (shows_sum hh (Nat.lt_of_not_le hbits) v.1), AggregateHandled,
        or_iff_right hbits]
      exact and_congr_right fun hfit => sum_taken hh hvalues (handler_types hh).2.2.2 id hfit

/-- The sum of 2147483647 and 1, as `gint`s, is -2147483648. -/
theorem intSum_wraps : ¬ AggregateRight ⟨.int, rfl⟩ .sum [2147483647, 1] := by
  intro h
  have hno : ¬ SumsFit .int 0 [2147483647, 1] := fun hfit => absurd hfit.2.1 (by decide)
  exact absurd (h.2 hno) (by decide)

end LibGda
