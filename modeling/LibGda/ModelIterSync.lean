import LibGda.ModelIter

/-! What a holder of an iterator shows once it took its value from a row, and what a loop over the
holders does to the data model: nothing. -/

namespace LibGda

namespace ModelIter

variable {D : Type}

section List

variable {α : Type}

theorem getElem?_foldl_modify (f : Nat → α → α) (l : List α) (n i : Nat) :
    ((List.range n).foldl (fun l i => l.modify i (f i)) l)[i]? =
      l[i]?.map fun a => if i < n then f i a else a := by
  induction n with
  | zero => simp
  | succ n ih =>
    rw [List.range_succ, List.foldl_append, List.foldl_cons, List.foldl_nil, List.getElem?_modify,
      ih, Option.map_eq_map, Option.map_map]
    congr 1
    funext a
    by_cases heq : n = i
    · subst heq
      simp
    · have hlt : i < n + 1 ↔ i < n := by omega
      simp [heq, hlt]

theorem foldl_modify_range (f : Nat → α → α) (l : List α) :
    (List.range l.length).foldl (fun l i => l.modify i (f i)) l = l.mapIdx f := by
  apply List.ext_getElem?
  intro i
  rw [getElem?_foldl_modify, List.getElem?_mapIdx]
  cases hl : l[i]? with
  | none => rfl
  | some a =>
    have hi : i < l.length := (List.getElem?_eq_some_iff.mp hl).1
    simp [hi]

theorem set_eq_modify {l : List α} {i : Nat} {a b : α} (hl : l[i]? = some a) {f : α → α}
    (hf : f a = b) : l.set i b = l.modify i f := by
  apply List.ext_getElem?
  intro j
  rw [List.getElem?_set, List.getElem?_modify]
  obtain ⟨hi, hget⟩ := List.getElem?_eq_some_iff.mp hl
  by_cases hj : i = j
  · subst hj
    simp [hi, hget, hf]
  · simp [hj]

end List

def ShownAs [ContentsCompare D] (shown value : Option (GValue D)) : Prop :=
  (holdsNull shown = true ∧ holdsNull value = true) ∨
    ∃ c v, shown = some c ∧ value = some v ∧ c.valueType = v.valueType ∧
      (c = v ∨ gdaValueDiffer v c = false ∨ gdaValueCompare c v = 0)

def Settled (h : HolderValue D) : Prop :=
  h.defaultForced = true → h.invalidForced = false → h.valid = false →
    ∀ d ∈ h.defaultValue, d.valueType = h.gType → d = .null

section Holder

variable [ContentsCompare D] {h : HolderValue D}

omit [ContentsCompare D] in
theorem settled_forceInvalid (h : HolderValue D) : Settled h.forceInvalid := by
  intro _ hforced
  rw [HolderValue.forceInvalid] at hforced
  split at hforced
  · next hi => simp [hi] at hforced
  · cases hforced

omit [ContentsCompare D] in
theorem isValid_forceInvalid (h : HolderValue D) : h.forceInvalid.isValid = false := by
  rw [HolderValue.forceInvalid]
  split
  · next hi => simp [HolderValue.isValid, hi]
  · rfl

omit [ContentsCompare D] in
theorem settled_of_valid (hv : h.valid = true) : Settled h := by
  intro _ _ hf
  rw [hv] at hf
  cases hf

theorem shownAs_of_not_differs {value : Option (GValue D)}
    (hd : h.differs value false = false) : ShownAs h.getValue value := by
  simp only [HolderValue.differs, Bool.false_eq_true, if_false] at hd
  by_cases hn : (holdsNull h.getValue && holdsNull value) = true
  · exact .inl (by simpa using hn)
  · rw [if_neg hn] at hd
    cases value with
    | none => cases hd
    | some v =>
      cases hc : h.getValue with
      | none =>
        rw [hc] at hd
        cases hd
      | some c =>
        simp only [hc] at hd
        by_cases ht : v.valueType = c.valueType
        · rw [if_pos ht] at hd
          exact .inr ⟨c, v, rfl, rfl, ht.symm, .inr (.inl hd)⟩
        · rw [if_neg ht] at hd
          cases hd

omit [ContentsCompare D] in
theorem getValue_revalidated (hs : Settled h) (hvalid : h.isValid = true) :
    ({ h with invalidForced := false, valid := true } : HolderValue D).getValue = h.getValue ∨
      (h.getValue = none ∧ holdsNull
        ({ h with invalidForced := false, valid := true } : HolderValue D).getValue = true) := by
  cases hv : h.valid with
  | true => exact .inl (by simp [HolderValue.getValue, hv])
  | false =>
    have hinv : h.invalidForced = false := by
      cases hi : h.invalidForced with
      | false => rfl
      | true => simp [HolderValue.isValid, hi] at hvalid
    have hforced : h.defaultForced = true := by
      cases hf : h.defaultForced with
      | true => rfl
      | false => simp [HolderValue.isValid, hinv, hf, hv] at hvalid
    have hnever := hs hforced hinv hv
    refine .inr ⟨by simp [HolderValue.getValue, hv], ?_⟩
    simp only [HolderValue.getValue, hforced, if_true]
    cases hdef : h.defaultValue with
    | none => rfl
    | some d =>
      by_cases ht : d.valueType = h.gType
      · have hd : d = .null := hnever d hdef ht
        simp [Option.filter, ht]
        simp [hd]
      · simp [Option.filter, ht, holdsNull]

theorem ShownAs.revalidated (hs : Settled h) (hvalid : h.isValid = true)
    {value : Option (GValue D)} (hshown : ShownAs h.getValue value) :
    ShownAs ({ h with invalidForced := false, valid := true } : HolderValue D).getValue value := by
  rcases getValue_revalidated hs hvalid with hsame | ⟨hnone, hnull⟩
  · rw [hsame]
    exact hshown
  · rw [hnone] at hshown
    rcases hshown with hn | ⟨c, v, hc, _⟩
    · exact .inl ⟨hnull, hn.2⟩
    · cases hc

theorem shownAs_realSetValue (hs : Settled h) {value : Option (GValue D)}
    (hok : (h.realSetValue value false true).2 = true) :
    (h.realSetValue value false true).1.valid = true ∧
      ShownAs (h.realSetValue value false true).1.getValue value := by
  rcases HolderRun.realSetValue_cases h value false true with
    ⟨hd, hacc, hvalid, hr⟩ | ⟨hf, _⟩ | ⟨_, hr⟩
  · rw [hr]
    exact ⟨rfl, (shownAs_of_not_differs hd).revalidated hs hvalid⟩
  · cases hf
  · rw [hr] at hok ⊢
    have hacc : h.accepts value = true := hok
    refine ⟨hacc, ?_⟩
    cases hd : h.isDefault value with
    | false =>
      simp only [HolderValue.getValue, hacc, if_true]
      cases value with
      | none => exact .inl ⟨rfl, rfl⟩
      | some v => exact .inr ⟨v, v, rfl, rfl, rfl, .inl rfl⟩
    | true =>
      simp only [HolderValue.getValue, hacc, if_true]
      simp only [HolderValue.isDefault] at hd
      split at hd
      · next d hdef =>
        simp only [Bool.or_eq_true, Bool.and_eq_true, gdaValueIsNull_iff,
          decide_eq_true_eq] at hd
        rcases hd with ⟨rfl, hnull⟩ | ⟨ht, hsame⟩
        · refine .inl ⟨?_, hnull⟩
          by_cases ht : (GValue.null : GValue D).valueType = h.gType
          · simp [hdef, Option.filter, ht]
          · simp [hdef, Option.filter, ht, holdsNull]
        · split at hsame
          · next v =>
            simp only [Bool.and_eq_true, decide_eq_true_eq] at hsame
            refine .inr ⟨d, v, ?_, rfl, ht.trans hsame.1.symm, .inr (.inr hsame.2)⟩
            simp [hdef, Option.filter, ht]
          · cases hsame
      · cases hd

theorem settled_realSetValue (hs : Settled h) (value : Option (GValue D)) (agreed : Bool) :
    Settled (h.realSetValue value false agreed).1 := by
  rcases HolderRun.realSetValue_cases h value false agreed with ⟨_, _, _, hr⟩ | ⟨_, hr⟩ | ⟨_, hr⟩
  · rw [hr]
    exact settled_of_valid rfl
  · rw [hr]
    exact hs
  · rw [hr]
    intro hd _ hacc d hdef ht
    obtain ⟨d', hdef', hcase⟩ := HolderRun.isDefault_cases hd
    have hsame : d = d' := Option.some.inj (hdef.symm.trans hdef')
    rcases hcase with ⟨hn, _⟩ | ⟨_, _, hok⟩
    · exact hsame.trans hn
    · exact absurd hok (by simpa using hacc)

end Holder

def Shows [ContentsCompare D] (h : HolderValue D) (cell : Option (Cell D)) : Prop :=
  h.isValid = false ∨ ∃ c v, cell = some c ∧ c.value = some v ∧
    (ShownAs h.getValue (some v) ∨ (c.attributes.isDefault = true ∧ h.defaultForced = true) ∨
      (c.attributes.isNull = true ∧ holdsNull h.getValue = true))

namespace IterHolder

variable [ContentsCompare D] (h : IterHolder D)

def took (value : Option (GValue D)) : IterHolder D × Bool :=
  let r := h.holder.realSetValue value false true
  if State.asks h.holder value then
    ({ h with holder := r.1, atDefault := h.holder.isDefault value }, r.2)
  else ({ h with holder := r.1 }, r.2)

omit [ContentsCompare D] in
def toDefault : IterHolder D :=
  if h.holder.defaultForced || h.holder.defaultValue.isNone then h
  else { h with holder := h.holder.setValueToDefault.1, atDefault := true }

omit [ContentsCompare D] in
def invalid : IterHolder D :=
  { h with holder := h.holder.forceInvalid }

def withAttributes (flags : GdaValueAttribute) : IterHolder D :=
  let h := if flags.isDefault then h.toDefault else h
  let h := if flags.isNull then (h.took none).1 else h
  if flags.dataNonValid then h.invalid else h

def synced (cell : Option (Cell D)) : IterHolder D :=
  match cell with
  | some ⟨some value, flags⟩ =>
    if (h.took (some value)).2 then (h.took (some value)).1.withAttributes flags
    else (h.took (some value)).1.invalid
  | _ => h.invalid

variable {h : IterHolder D}

theorem took_holder (h : IterHolder D) (value : Option (GValue D)) :
    (h.took value).1.holder = (h.holder.realSetValue value false true).1 ∧
      (h.took value).2 = (h.holder.realSetValue value false true).2 ∧
        (h.took value).1.modelCol = h.modelCol := by
  rw [took]
  split
  · exact ⟨rfl, rfl, rfl⟩
  · exact ⟨rfl, rfl, rfl⟩

theorem settled_took (hs : Settled h.holder) (value : Option (GValue D)) :
    Settled (h.took value).1.holder := by
  rw [(took_holder h value).1]
  exact settled_realSetValue hs value true

theorem holdsNull_took_none (hs : Settled h.holder) :
    holdsNull (h.took none).1.holder.getValue = true := by
  rw [(took_holder h none).1]
  cases hok : (h.holder.realSetValue none false true).2 with
  | true =>
    rcases (shownAs_realSetValue hs hok).2 with hn | ⟨_, _, _, hv, _⟩
    · exact hn.1
    · cases hv
  | false =>
    rcases HolderRun.realSetValue_cases h.holder none false true with
      ⟨_, _, _, hr⟩ | ⟨hf, _⟩ | ⟨_, hr⟩
    · rw [hr] at hok
      cases hok
    · cases hf
    · rw [hr] at hok ⊢
      have hacc : h.holder.accepts none = false := hok
      simp [HolderValue.getValue, hacc, holdsNull]

theorem withAttributes_shows {flags : GdaValueAttribute} {value : GValue D}
    (hs : Settled h.holder) (hv : h.holder.valid = true)
    (hshown : ShownAs h.holder.getValue (some value)) :
    Settled (h.withAttributes flags).holder ∧
      Shows (h.withAttributes flags).holder (some ⟨some value, flags⟩) := by
  rw [withAttributes]
  generalize hd : (if flags.isDefault then h.toDefault else h) = d
  have hdefault : Settled d.holder ∧ (ShownAs d.holder.getValue (some value) ∨
      (flags.isDefault = true ∧ d.holder.defaultForced = true)) := by
    subst hd
    cases hflag : flags.isDefault with
    | false => exact ⟨hs, .inl hshown⟩
    | true =>
      simp only [if_true, toDefault]
      split
      · exact ⟨hs, .inl hshown⟩
      · next hno =>
        simp only [Bool.or_eq_true, not_or, Bool.not_eq_true] at hno
        simp only [HolderValue.setValueToDefault, hno.1, hno.2, Bool.false_eq_true, if_false]
        exact ⟨settled_of_valid hv, .inr ⟨trivial, trivial⟩⟩
  generalize hn : (if flags.isNull then (d.took none).1 else d) = n
  have hnull : Settled n.holder ∧ (ShownAs n.holder.getValue (some value) ∨
      (flags.isDefault = true ∧ n.holder.defaultForced = true) ∨
        (flags.isNull = true ∧ holdsNull n.holder.getValue = true)) := by
    subst hn
    cases hflag : flags.isNull with
    | false =>
      refine ⟨hdefault.1, ?_⟩
      rcases hdefault.2 with hv | hd
      · exact .inl hv
      · exact .inr (.inl hd)
    | true =>
      exact ⟨settled_took hdefault.1 none, .inr (.inr ⟨rfl, holdsNull_took_none hdefault.1⟩)⟩
  split
  · exact ⟨settled_forceInvalid _, .inl (isValid_forceInvalid _)⟩
  · exact ⟨hnull.1, .inr ⟨_, value, rfl, rfl, hnull.2⟩⟩

theorem synced_shows (hs : Settled h.holder) (cell : Option (Cell D)) :
    Settled (h.synced cell).holder ∧ Shows (h.synced cell).holder cell := by
  have hinvalid (h : IterHolder D) : Settled h.invalid.holder ∧ Shows h.invalid.holder cell :=
    ⟨settled_forceInvalid _, .inl (isValid_forceInvalid _)⟩
  rw [synced.eq_def]
  split
  · next value flags =>
    split
    · next hok =>
      rw [(took_holder h _).2.1] at hok
      have hset := shownAs_realSetValue hs hok
      rw [← (took_holder h _).1] at hset
      exact withAttributes_shows (settled_took hs _) hset.1 hset.2
    · exact hinvalid _
  · exact hinvalid _

omit [ContentsCompare D] in
theorem toDefault_modelCol (h : IterHolder D) : h.toDefault.modelCol = h.modelCol := by
  rw [toDefault]
  split <;> rfl

theorem synced_modelCol (h : IterHolder D) (cell : Option (Cell D)) :
    (h.synced cell).modelCol = h.modelCol := by
  have hw (h : IterHolder D) (flags : GdaValueAttribute) :
      (h.withAttributes flags).modelCol = h.modelCol := by
    cases hd : flags.isDefault <;> cases hn : flags.isNull <;> cases hv : flags.dataNonValid <;>
      simp [withAttributes, hd, hn, hv, invalid, took_holder, toDefault_modelCol]
  rw [synced.eq_def]
  split
  · split
    · rw [hw, (took_holder h _).2.2]
    · exact (took_holder h _).2.2
  · rfl

end IterHolder

namespace State

variable {s : State D}

def modifyHolder (s : State D) (pos : Nat) (f : IterHolder D → IterHolder D) : State D :=
  { s with iter := { s.iter with holders := s.iter.holders.modify pos f } }

theorem setHolder_eq {pos : Nat} {h h' : IterHolder D} (hh : s.iter.holders[pos]? = some h)
    {f : IterHolder D → IterHolder D} (hf : f h = h') : s.setHolder pos h' =
      s.modifyHolder pos f := by
  rw [setHolder, modifyHolder, set_eq_modify hh hf]

theorem modifyHolder_of_none {pos : Nat} (hh : s.iter.holders[pos]? = none)
    (f : IterHolder D → IterHolder D) : s.modifyHolder pos f = s := by
  rw [modifyHolder, List.modify_eq_self (List.getElem?_eq_none_iff.mp hh)]

theorem modifyHolder_modifyHolder (s : State D) (pos : Nat) (f g : IterHolder D → IterHolder D) :
    (s.modifyHolder pos f).modifyHolder pos g = s.modifyHolder pos (g ∘ f) := by
  simp only [modifyHolder, List.modify_modify_eq]

theorem holderForceInvalid_eq (s : State D) (pos : Nat) :
    s.holderForceInvalid pos = s.modifyHolder pos IterHolder.invalid := by
  rw [holderForceInvalid]
  cases hh : s.iter.holders[pos]? with
  | none => exact (modifyHolder_of_none hh _).symm
  | some h => exact setHolder_eq hh rfl

theorem holderAttrChanged_keeping (hk : s.iter.keepParamChanges = true) (h : IterHolder D)
    (toset : Bool) : s.holderAttrChanged h toset = s := by
  rw [holderAttrChanged]
  cases s.iter.row with
  | none => rfl
  | some row => simp [hk]

theorem holderSetValueToDefault_keeping (hk : s.iter.keepParamChanges = true) (pos : Nat) :
    s.holderSetValueToDefault pos = s.modifyHolder pos IterHolder.toDefault := by
  rw [holderSetValueToDefault]
  cases hh : s.iter.holders[pos]? with
  | none => exact (modifyHolder_of_none hh _).symm
  | some h =>
    dsimp only
    split
    · next hd =>
      have hset : s.setHolder pos h = s.modifyHolder pos IterHolder.toDefault :=
        setHolder_eq hh (by rw [IterHolder.toDefault, if_pos hd])
      have hid : s.setHolder pos h = s := by
        have hself : s.setHolder pos h = s.modifyHolder pos id := setHolder_eq hh rfl
        rw [hself]
        simp [modifyHolder]
      exact hid.symm.trans hset
    · next hd =>
      rw [holderAttrChanged_keeping hk]
      exact setHolder_eq hh (by rw [IterHolder.toDefault, if_neg hd])

variable [ContentsCompare D]

theorem holderSetValue_keeping (hk : s.iter.keepParamChanges = true) (pos : Nat)
    (value : Option (GValue D)) (answer : Option GdaValueAttribute) :
    (s.holderSetValue pos value answer).1 = s.modifyHolder pos (fun h => (h.took value).1) ∧
      ∀ h, s.iter.holders[pos]? = some h →
        (s.holderSetValue pos value answer).2 = (h.took value).2 := by
  have hvalidate (h : IterHolder D) : s.validateHolderChange h value answer = (s, true) := by
    rw [validateHolderChange]
    cases s.iter.row with
    | none => rfl
    | some row => simp [hk]
  rw [holderSetValue]
  cases hh : s.iter.holders[pos]? with
  | none => exact ⟨(modifyHolder_of_none hh _).symm, fun h hf => by cases hf⟩
  | some h =>
    simp only [hvalidate]
    by_cases hasks : asks h.holder value = true
    · have htook : h.took value = ({ h with
          holder := (h.holder.realSetValue value false true).1,
          atDefault := h.holder.isDefault value },
          (h.holder.realSetValue value false true).2) := by
        rw [IterHolder.took]
        exact if_pos hasks
      simp only [hasks, if_true, Bool.and_true, holderAttrChanged_keeping hk]
      refine ⟨setHolder_eq hh (by rw [htook]), ?_⟩
      intro h' hf
      obtain rfl := Option.some.inj hf
      rw [htook]
    · have hasks := Bool.eq_false_iff.mpr hasks
      have htook : h.took value = ({ h with
          holder := (h.holder.realSetValue value false true).1 },
          (h.holder.realSetValue value false true).2) := by
        rw [IterHolder.took]
        exact if_neg (by simp [hasks])
      simp only [hasks, Bool.false_eq_true, if_false, Bool.false_and]
      refine ⟨setHolder_eq hh (by rw [htook]), ?_⟩
      intro h' hf
      obtain rfl := Option.some.inj hf
      rw [htook]

theorem setParamAttributes_keeping (hk : s.iter.keepParamChanges = true) (pos : Nat)
    (flags : GdaValueAttribute) : s.setParamAttributes pos flags =
      s.modifyHolder pos (fun h => h.withAttributes flags) := by
  have hid (s : State D) : s = s.modifyHolder pos id := by simp [modifyHolder]
  rw [setParamAttributes]
  have hd : (if flags.isDefault then s.holderSetValueToDefault pos else s) =
      s.modifyHolder pos (fun h => if flags.isDefault then h.toDefault else h) := by
    cases flags.isDefault with
    | false => exact hid s
    | true => exact holderSetValueToDefault_keeping hk pos
  rw [hd]
  have hn (s : State D) (hk : s.iter.keepParamChanges = true) :
      (if flags.isNull then (s.holderSetValue pos none none).1 else s) =
        s.modifyHolder pos (fun h => if flags.isNull then (h.took none).1 else h) := by
    cases flags.isNull with
    | false => exact hid s
    | true => exact (holderSetValue_keeping hk pos none none).1
  rw [hn (s.modifyHolder pos _) hk]
  have hv (s : State D) : (if flags.dataNonValid then s.holderForceInvalid pos else s) =
      s.modifyHolder pos (fun h => if flags.dataNonValid then h.invalid else h) := by
    cases flags.dataNonValid with
    | false => exact hid s
    | true => exact holderForceInvalid_eq s pos
  rw [hv, modifyHolder_modifyHolder, modifyHolder_modifyHolder]
  rfl

theorem syncHolder_keeping (hk : s.iter.keepParamChanges = true) (row col : Nat) :
    s.syncHolder row col = s.modifyHolder col (fun h => h.synced (s.model.cellAt col row)) := by
  rw [syncHolder]
  split
  · next value flags hcell =>
    have hset := holderSetValue_keeping hk col (some value) none
    rw [hcell]
    cases hh : s.iter.holders[col]? with
    | none =>
      have hnone : s.holderSetValue col (some value) none = (s, false) := by
        rw [holderSetValue, hh]
      rw [hnone, modifyHolder_of_none hh]
      dsimp only
      rw [if_neg Bool.false_ne_true, holderForceInvalid_eq, modifyHolder_of_none hh]
    | some h =>
      dsimp only
      rw [hset.2 h hh, hset.1]
      by_cases hok : (h.took (some value)).2 = true
      · rw [if_pos hok, setParamAttributes_keeping (by exact hk), modifyHolder_modifyHolder,
          ← setHolder_eq hh rfl]
        refine setHolder_eq hh ?_
        simp only [IterHolder.synced, hok, if_true, Function.comp]
      · rw [if_neg hok, holderForceInvalid_eq, modifyHolder_modifyHolder, ← setHolder_eq hh rfl]
        refine setHolder_eq hh ?_
        simp only [IterHolder.synced, Function.comp]
        rw [if_neg hok]
  · next hcell =>
    rw [holderForceInvalid_eq]
    congr 1
    funext h
    rw [IterHolder.synced.eq_def]
    split
    · next value flags hc => exact absurd hc (hcell value flags)
    · rfl

theorem syncHolders_keeping (hk : s.iter.keepParamChanges = true) (row : Nat) :
    s.syncHolders row = { s with iter := { s.iter with
      holders := s.iter.holders.mapIdx fun col h => h.synced (s.model.cellAt col row) } } := by
  have hloop (n : Nat) :
      (List.range n).foldl (fun s col => s.syncHolder row col) s =
        { s with iter := { s.iter with
          holders := (List.range n).foldl
            (fun l col => l.modify col fun h => h.synced (s.model.cellAt col row))
            s.iter.holders } } := by
    induction n with
    | zero => rfl
    | succ n ih =>
      simp only [List.range_succ, List.foldl_append, List.foldl_cons, List.foldl_nil]
      rw [ih, syncHolder_keeping (by exact hk)]
      rfl
  rw [syncHolders, hloop, foldl_modify_range]

end State

end ModelIter

end LibGda
