import LibGda.ModelIterSync
import Mathlib

/-! The holders of an iterator after the data model was reset: one for each column, in the order
of the columns. -/

namespace LibGda

namespace ModelIter

variable {D : Type}

namespace State

theorem exists_free (used : List String) (id : String) :
    ∃ e ∈ List.range (used.length + 1), id ++ "_" ++ toString (e + 1) ∉ used := by
  by_contra hall
  have hall : ∀ e ∈ List.range (used.length + 1), id ++ "_" ++ toString (e + 1) ∈ used := by
    simpa using hall
  have hinj : Function.Injective fun e : Nat => id ++ "_" ++ toString (e + 1) := by
    intro a b h
    have hrepr := Nat.repr_injective ((String.append_right_inj _).mp h)
    omega
  have hnodup := List.Nodup.map hinj (@List.nodup_range (used.length + 1))
  have hsub : ((List.range (used.length + 1)).map fun e => id ++ "_" ++ toString (e + 1)) ⊆
      used := by
    intro x hx
    obtain ⟨e, he, rfl⟩ := List.mem_map.mp hx
    exact hall e he
  have hlen := (List.subperm_of_subset hnodup hsub).length_le
  simp at hlen

theorem freeId_not_mem (used : List String) (id : String) : freeId used id ∉ used := by
  rw [freeId]
  cases hf : ((List.range (used.length + 1)).map fun e => id ++ "_" ++ toString (e + 1)).find?
      (· ∉ used) with
  | none =>
    obtain ⟨e, he, hfree⟩ := exists_free used id
    have hno := List.find?_eq_none.mp hf _ (List.mem_map_of_mem he)
    simp only [decide_not, Bool.not_eq_true', decide_eq_false_iff_not, not_not] at hno
    exact absurd hno hfree
  | some x =>
    have hx := List.find?_some hf
    simpa using hx

theorem holderId_not_mem {used : List String} {c : Column D} (hc : ∀ id, c.id = some id → id ∉ used)
    (col : Nat) : holderId used col c ∉ used := by
  rw [holderId]
  cases hid : c.id with
  | some id => exact hc id hid
  | none =>
    dsimp only
    split
    · exact freeId_not_mem _ _
    · next hno => exact hno

def IdsFree (used : List String) (col : Nat) : List (Column D) → Prop
  | [] => True
  | c :: cs => (∀ id, c.id = some id → id ∉ used) ∧
      IdsFree (used ++ [holderId used col c]) (col + 1) cs

theorem defineHolders_modelCol [ContentsCompare D] {holders : List (IterHolder D)} {col : Nat}
    {cs : List (Column D)} (hfree : IdsFree (holders.map IterHolder.id) col cs) :
    (defineHolders holders col cs).map IterHolder.modelCol =
      holders.map IterHolder.modelCol ++ List.range' col cs.length := by
  induction cs generalizing holders col with
  | nil => simp [defineHolders]
  | cons c cs ih =>
    have hnew := holderId_not_mem hfree.1 col
    rw [defineHolders, ih]
    · simp only [defineHolder, hnew, if_false, List.map_append, List.map_cons, List.map_nil,
        List.length_cons, List.append_assoc, List.range'_succ, List.singleton_append]
    · simp only [defineHolder, hnew, if_false, List.map_append, List.map_cons, List.map_nil]
      exact hfree.2

theorem adjustTypes_spec (hs : List (IterHolder D)) (cs : List (Column D)) :
    (adjustTypes hs cs).1.map IterHolder.modelCol =
        (hs.map IterHolder.modelCol).take (adjustTypes hs cs).1.length ∧
      (adjustTypes hs cs).1.length + (adjustTypes hs cs).2.2.length = cs.length ∧
        (adjustTypes hs cs).1.length ≤ hs.length := by
  induction hs generalizing cs with
  | nil => cases cs <;> simp [adjustTypes]
  | cons h hs ih =>
    cases cs with
    | nil => simp [adjustTypes]
    | cons c cs =>
      obtain ⟨hcols, hlen, hle⟩ := ih cs
      rw [adjustTypes]
      split
      · simp only [List.map_cons, List.length_cons, List.take_succ_cons, hcols, true_and]
        omega
      · split
        · simp
        · simp only [List.map_cons, List.length_cons, List.take_succ_cons, hcols, true_and]
          omega

def Aligned (s : State D) : Prop :=
  s.iter.holders.map IterHolder.modelCol = List.range s.model.shownColumns.length

theorem Aligned.modelCol {s : State D} (ha : s.Aligned) {pos : Nat} {h : IterHolder D}
    (hh : s.iter.holders[pos]? = some h) : h.modelCol = pos := by
  have hget : (s.iter.holders.map IterHolder.modelCol)[pos]? = some h.modelCol := by simp [hh]
  rw [ha] at hget
  obtain ⟨_, heq⟩ := List.getElem?_eq_some_iff.mp hget
  simpa using heq.symm

def ColumnsFit (s : State D) : Prop :=
  let a := adjustTypes s.iter.holders s.model.shownColumns
  IdsFree (a.1.map IterHolder.id) a.1.length a.2.2

def Ordered (s : State D) : Prop :=
  s.iter.holders.map IterHolder.modelCol = List.range s.iter.holders.length

theorem Aligned.ordered {s : State D} (ha : s.Aligned) : s.Ordered := by
  have hlen := congrArg List.length ha
  simp only [List.length_map, List.length_range] at hlen
  rw [Ordered, hlen]
  exact ha

theorem Ordered.redefined [ContentsCompare D] {s : State D} (ho : s.Ordered)
    (hfit : s.ColumnsFit) : s.redefined.Aligned := by
  obtain ⟨hcols, hlen, hle⟩ := adjustTypes_spec s.iter.holders s.model.shownColumns
  have hfirst : (adjustTypes s.iter.holders s.model.shownColumns).1.map IterHolder.modelCol =
      List.range (adjustTypes s.iter.holders s.model.shownColumns).1.length := by
    rw [hcols, ho, List.take_range, Nat.min_eq_left hle]
  show (defineHolders _ _ _).map _ = List.range s.model.shownColumns.length
  rw [defineHolders_modelCol hfit, hfirst, ← hlen, List.range_eq_range', List.range_eq_range',
    ← List.range'_append_1, Nat.zero_add]

end State

end ModelIter

end LibGda

/-! Where an iterator is and what its holders show, and that moves keep both. -/

namespace LibGda

namespace ModelIter

variable {D : Type}

namespace State

def Positioned (s : State D) : Prop :=
  ∀ row, s.iter.row = some row → ∃ key, s.on = some key ∧
    ∀ i, s.model.rows[i]?.map Row.key = some key ↔ i = row

variable [ContentsCompare D]

def Showing (s : State D) : Prop :=
  ∀ row, s.iter.row = some row → ∀ h ∈ s.iter.holders,
    Shows h.holder (s.model.cellAt h.modelCol row)

structure Coherent (s : State D) : Prop where
  aligned : s.Aligned
  positioned : s.Positioned
  showing : s.Showing

omit [ContentsCompare D] in
structure Sound (s : State D) : Prop where
  aligned : s.Aligned
  settled : ∀ h ∈ s.iter.holders, Settled h.holder
  keys : (s.model.rows.map Row.key).Nodup
  fresh : ∀ key ∈ s.model.rows.map Row.key, key < s.model.nextKey

section Away

variable {s : State D}

omit [ContentsCompare D] in
theorem Sound.positioned (hs : s.Sound)
    (hrow : ∀ row, s.iter.row = some row →
      s.on.isSome = true ∧ s.model.rows[row]?.map Row.key = s.on) : s.Positioned := by
  intro row hr
  obtain ⟨hsome, hkey⟩ := hrow row hr
  obtain ⟨key, hon⟩ := Option.isSome_iff_exists.mp hsome
  rw [hon] at hkey
  refine ⟨key, hon, ?_⟩
  intro i
  constructor
  · intro hi
    rw [← List.getElem?_map] at hi hkey
    obtain ⟨hilt, hieq⟩ := List.getElem?_eq_some_iff.mp hi
    obtain ⟨hrlt, hreq⟩ := List.getElem?_eq_some_iff.mp hkey
    exact (List.Nodup.getElem_inj_iff hs.keys).mp (hieq.trans hreq.symm)
  · rintro rfl
    exact hkey

omit [ContentsCompare D] in
theorem Sound.keeping (hs : s.Sound) (keep : Bool) : (s.keeping keep).Sound :=
  ⟨hs.aligned, hs.settled, hs.keys, hs.fresh⟩

omit [ContentsCompare D] in
theorem Sound.notPositioned (hs : s.Sound) : s.notPositioned.Sound :=
  ⟨hs.aligned, hs.settled, hs.keys, hs.fresh⟩

theorem coherent_notPositioned (ha : s.Aligned) (hrow : s.iter.row = none) : s.Coherent := by
  constructor
  · exact ha
  · intro row hr
    rw [hrow] at hr
    cases hr
  · intro row hr
    rw [hrow] at hr
    cases hr

omit [ContentsCompare D] in
theorem invalidateContents_aligned (ha : s.Aligned) : s.invalidateContents.Aligned := by
  show List.map _ (s.iter.holders.map _) = _
  rw [List.map_map]
  exact ha

omit [ContentsCompare D] in
theorem invalidateContents_sound (ha : s.Aligned) (hkeys : (s.model.rows.map Row.key).Nodup)
    (hfresh : ∀ key ∈ s.model.rows.map Row.key, key < s.model.nextKey) :
      s.invalidateContents.Sound := by
  refine ⟨invalidateContents_aligned ha, ?_, hkeys, hfresh⟩
  intro h hh
  obtain ⟨h', _, rfl⟩ := List.mem_map.mp hh
  exact settled_forceInvalid _

omit [ContentsCompare D] in
theorem Sound.invalidateContents (hs : s.Sound) : s.invalidateContents.Sound :=
  invalidateContents_sound hs.aligned hs.keys hs.fresh

theorem Coherent.invalidateContents (hc : s.Coherent) : s.invalidateContents.Coherent := by
  refine ⟨invalidateContents_aligned hc.aligned, hc.positioned, ?_⟩
  intro row _ h hh
  obtain ⟨h', _, rfl⟩ := List.mem_map.mp hh
  exact .inl (isValid_forceInvalid _)

end Away

section Moves

variable {s : State D}

structure Moved (s t : State D) : Prop where
  sound : t.Sound
  coherent : t.Coherent
  model : t.model = s.model
  keep : s.iter.keepParamChanges = false → t.iter.keepParamChanges = false

theorem Sound.away (hs : s.Sound) : Moved s s.invalidateContents.notPositioned := by
  have hsound := hs.invalidateContents.notPositioned
  exact ⟨hsound, coherent_notPositioned hsound.aligned rfl, rfl, fun _ => rfl⟩

theorem positionAt_eq (s : State D) (row : Nat) : s.positionAt row =
    { s with
      iter := { s.iter with
        row := some row
        holders := s.iter.holders.mapIdx fun col h => h.synced (s.model.cellAt col row) }
      on := s.model.rows[row]?.map Row.key } := by
  have hsync := @syncHolders_keeping D (s.keeping true) _ rfl row
  rw [positionAt]
  dsimp only
  rw [hsync]
  rfl

theorem Sound.positionAt (hs : s.Sound) {row : Nat} (hrow : row < s.model.rows.length) :
    Moved s (s.positionAt row) := by
  rw [positionAt_eq]
  have hsound : ({ s with
      iter := { s.iter with
        row := some row
        holders := s.iter.holders.mapIdx fun col h => h.synced (s.model.cellAt col row) }
      on := s.model.rows[row]?.map Row.key } : State D).Sound := by
    refine ⟨?_, ?_, hs.keys, hs.fresh⟩
    · rw [Aligned, ← hs.aligned]
      apply List.ext_getElem?
      intro i
      simp only [List.getElem?_map, List.getElem?_mapIdx, Option.map_map]
      congr 1
      funext h
      exact h.synced_modelCol _
    · intro h hh
      obtain ⟨i, hi, rfl⟩ := List.mem_mapIdx.mp hh
      exact (IterHolder.synced_shows (hs.settled _ (List.getElem_mem hi)) _).1
  refine ⟨hsound, ⟨hsound.aligned, hsound.positioned ?_, ?_⟩, rfl, fun hk => hk⟩
  · intro r hr
    obtain rfl := Option.some.inj hr
    exact ⟨by simp [hrow], rfl⟩
  · intro r hr h hh
    obtain rfl := Option.some.inj hr
    obtain ⟨i, hi, rfl⟩ := List.mem_mapIdx.mp hh
    have hcol : (s.iter.holders[i]).modelCol = i :=
      hs.aligned.modelCol (List.getElem?_eq_getElem hi)
    rw [IterHolder.synced_modelCol, hcol]
    exact (IterHolder.synced_shows (hs.settled _ (List.getElem_mem hi)) _).2

theorem Sound.moveToRowDefault (hs : s.Sound) (row : Int) :
    Moved s (s.moveToRowDefault row).1 := by
  rw [State.moveToRowDefault]
  split
  · exact hs.away
  · next hrow => exact hs.positionAt (by omega)

theorem Sound.moveToRow (hs : s.Sound) (row : Int) : Moved s (s.moveToRow row).1 := by
  rw [State.moveToRow]
  split
  · exact hs.moveToRowDefault row
  · split
    · exact ⟨hs.notPositioned, coherent_notPositioned hs.aligned rfl, rfl, fun hk => hk⟩
    · exact hs.moveToRowDefault row

omit [ContentsCompare D] in
theorem currentRow_nonneg (s : State D) : -1 ≤ s.currentRow := by
  rw [currentRow]
  cases s.iter.row with
  | none => decide
  | some row => exact le_trans (by decide) (Int.natCast_nonneg row)

theorem Sound.moveNext (hs : s.Sound) : Moved s s.moveNext.1 := by
  have hrow := s.currentRow_nonneg
  rw [State.moveNext]
  split
  · exact hs.away
  · exact hs.positionAt (by omega)

theorem Sound.movePrev (hs : s.Sound) (hp : s.Positioned) : Moved s s.movePrev.1 := by
  rw [State.movePrev]
  split
  · exact hs.away
  · next hneg =>
    apply hs.positionAt
    cases hr : s.iter.row with
    | none => simp [currentRow, hr] at hneg
    | some row =>
      obtain ⟨key, _, hkey⟩ := hp row hr
      have hlt : row < s.model.rows.length := by
        by_contra hge
        have hnone : s.model.rows[row]? = none := List.getElem?_eq_none (by omega)
        have hsome := (hkey row).mpr rfl
        simp [hnone] at hsome
      simp only [currentRow, hr, Option.elim_some, Int.ofNat_eq_natCast]
      omega

end Moves

end State

end ModelIter

end LibGda
