import LibGda.HolderValue
import LibGda.RunInvariant

/-! The readers of a holder agree along a run of calls, as long as each call meets a
condition on the state it starts from. -/

namespace LibGda

open RunInvariant

variable {D : Type}

namespace HolderRun

variable [ContentsCompare D]

def AtOtherDefault (h : HolderValue D) : Prop :=
  h.defaultForced = true ∧ ∃ d, h.defaultValue = some d ∧ d.valueType ≠ h.gType

structure Coherent (s : HolderRun D) : Prop where
  shown : s.holder.isValid = true ↔ s.holder.getValue.isSome = true ∨ AtOtherDefault s.holder
  forced : s.forced = true → s.holder.isValid = false
  notNull : s.holder.isValid = true → s.holder.notNull = true → s.holder.getValue ≠ some .null
  isDefault : s.holder.defaultForced = true → ∃ d, s.holder.defaultValue = some d ∧
    s.holder.isValid = true ∧ (d.valueType = s.holder.gType → s.holder.getValue = some d)

/-- What a call does: a value which is set is valid, and the one which is shown stays if only the
default changes. -/
def Kept (s : HolderRun D) (c : HolderCall D) : Prop :=
  match c with
  | .setDefaultValue _ _ => (s.step c).holder.getValue = s.holder.getValue
  | _ => (s.holder.call c).2 = some true → (s.step c).holder.isValid = true

def MeetsSet (s : HolderRun D) (value : Option (GValue D)) (agreed : Bool) : Prop :=
  agreed = true → holdsNull value = true → s.holder.notNull = true →
    s.holder.defaultValue = some .null → s.holder.gType ≠ none ∧ s.forced = false

def MeetsDrop (h : HolderValue D) (value : Option (GValue D)) (agreed : Bool) : Prop :=
  h.defaultForced = true → ∀ d ∈ h.defaultValue,
    if d.valueType = h.gType then h.value.getD .null = d
    else (d = .null ∧ h.notNull = false) ∨ (agreed = false ∧ h.valid = true) → value = some .null

def MeetsNewDefault (s : HolderRun D) (value : Option (GValue D)) : Prop :=
  let h := s.holder
  ∀ w ∈ value,
    if w.valueType = none then
      s.forced = false ∧ h.invalidForced = false ∧
      if h.gType = none then
        h.valid = true ∧ h.notNull = false ∧
          (h.defaultForced = true → h.defaultValue.map GValue.valueType = some none)
      else h.defaultForced = true ∨ h.valid = false ∨ holdsNull h.value = false
    else ∀ c ∈ h.getValue, w.valueType = h.gType → gdaValueCompare w c = 0 → w = c

def Meets (s : HolderRun D) : HolderCall D → Prop
  | .setValue v agreed => MeetsSet s (s.holder.offered v).1 agreed
  | .takeValue v agreed => MeetsSet s v agreed
  | .setValueToDefault => s.holder.defaultForced = false → ∀ d ∈ s.holder.defaultValue,
      d.valueType = s.holder.gType →
        s.holder.valid = true ∧ (s.holder.notNull = true → d ≠ .null)
  | .setDefaultValue v agreed => MeetsDrop s.holder v agreed ∧ MeetsNewDefault s v
  | .setNotNull true => s.holder.notNull = false → s.holder.defaultForced = true →
      ∀ d ∈ s.holder.defaultValue, d.valueType = s.holder.gType →
        holdsNull s.holder.value = false ∧ d ≠ .null
  | .setNotNull false => s.holder.notNull = true → holdsNull s.holder.value = true →
      s.forced = false
  | .forceInvalid => s.holder.invalidForced = true ∨ s.holder.defaultForced = false

structure Sound (h : HolderValue D) (forced : Bool) : Prop where
  notForced : h.valid = true ∨ h.defaultForced = true → h.invalidForced = false ∧ forced = false
  nulls : h.valid = true → h.defaultForced = false → h.notNull = true → holdsNull h.value = false
  atDefault : h.defaultForced = true → ∃ d, h.defaultValue = some d ∧
    (d.valueType = h.gType → h.valid = true ∧ (h.notNull = true → d ≠ .null)) ∧
    (d = .null ∨ d.valueType ≠ h.gType → holdsNull h.value = true)
  refused : h.valid = false → holdsNull h.value = true
  invalid : h.invalidForced = true → forced = true


omit [ContentsCompare D] in
theorem Sound.coherent {h : HolderValue D} {forced : Bool} (hs : Sound h forced) :
    Coherent ⟨h, forced⟩ := by
  cases hd : h.defaultForced with
  | false =>
    have hget := HolderValue.getValue_own hd
    have hvalid : h.isValid = h.valid := by
      have := hs.notForced
      cases hv : h.valid <;> cases hi : h.invalidForced <;> simp_all [HolderValue.isValid]
    constructor
    · simp only [hvalid, hget, AtOtherDefault, hd]
      cases h.valid <;> simp
    · intro hf
      have := hs.notForced
      simp_all
    · intro hv hn
      have hnull := hs.nulls (hvalid ▸ hv) hd hn
      intro heq
      rw [hget, if_pos (hvalid ▸ hv)] at heq
      rw [← holdsNull_getD, heq] at hnull
      cases hnull
    · intro hf
      simp [hd] at hf
  | true =>
    obtain ⟨d, hv, htype, hnull⟩ := hs.atDefault hd
    have hget := HolderValue.getValue_default hd hv
    have hfree := hs.notForced (.inr hd)
    have hvalid : h.isValid = true := by simp [HolderValue.isValid, hfree.1, hd, hv]
    constructor
    · simp only [hvalid, hget, AtOtherDefault, hd, hv]
      by_cases ht : d.valueType = h.gType
      · simp [ht, (htype ht).1]
      · simp [ht]
    · intro hf
      simp_all
    · intro _ hn heq
      rw [hget] at heq
      split at heq
      · next hc => exact (htype hc.2).2 hn (Option.some.inj heq)
      · cases heq
    · intro _
      refine ⟨d, hv, hvalid, ?_⟩
      intro ht
      simp [hget, ht, (htype ht).1]

theorem realSetValue_cases (h : HolderValue D) (value : Option (GValue D))
    (isCurrent agreed : Bool) :
    (h.differs value isCurrent = false ∧ h.accepts value = true ∧ h.isValid = true ∧
      h.realSetValue value isCurrent agreed =
        ({ h with invalidForced := false, valid := true }, true)) ∨
    (agreed = false ∧ h.realSetValue value isCurrent agreed = (h, false)) ∨
    (agreed = true ∧ h.realSetValue value isCurrent agreed =
      ({ h with
        invalidForced := false
        valid := h.accepts value
        defaultForced := h.isDefault value
        value := if h.accepts value then value else none }, h.accepts value)) := by
  by_cases hc : (!h.differs value isCurrent && h.accepts value && h.isValid) = true
  · left
    have hr : h.realSetValue value isCurrent agreed =
        ({ h with invalidForced := false, valid := true }, true) := by
      rw [HolderValue.realSetValue]
      exact if_pos hc
    simp only [Bool.and_eq_true, Bool.not_eq_true'] at hc
    exact ⟨hc.1.1, hc.1.2, hc.2, hr⟩
  · right
    cases agreed with
    | false => exact .inl ⟨rfl, by simp only [HolderValue.realSetValue, if_neg hc]; rfl⟩
    | true => exact .inr ⟨rfl, by simp only [HolderValue.realSetValue, if_neg hc]; rfl⟩

theorem isDefault_cases {h : HolderValue D} {value : Option (GValue D)}
    (hd : h.isDefault value = true) : ∃ d, h.defaultValue = some d ∧
      ((d = .null ∧ holdsNull value = true) ∨
        (d ≠ .null ∧ d.valueType = h.gType ∧ h.accepts value = true)) := by
  simp only [HolderValue.isDefault] at hd
  split at hd
  · next d hv =>
    refine ⟨d, hv, ?_⟩
    simp only [Bool.or_eq_true, Bool.and_eq_true, gdaValueIsNull_iff, decide_eq_true_eq] at hd
    rcases hd with hnull | ⟨ht, hsame⟩
    · exact .inl hnull
    · split at hsame
      · next v =>
        simp only [Bool.and_eq_true, decide_eq_true_eq] at hsame
        have hv : d = .null ↔ v = .null := by
          rw [← valueType_eq_none_iff, ← valueType_eq_none_iff, ht, hsame.1]
        by_cases hn : d = .null
        · exact .inl ⟨hn, by simp [hv.mp hn]⟩
        · refine .inr ⟨hn, ht, ?_⟩
          have hvn : gdaValueIsNull v = false := by simpa [← hv] using hn
          simp [HolderValue.accepts, hvn, hsame.1]
      · cases hsame
  · cases hd

omit [ContentsCompare D] in
theorem accepts_null {h : HolderValue D} {value : Option (GValue D)}
    (hn : holdsNull value = true) : h.accepts value = !h.notNull := by
  simp [HolderValue.accepts, hn]

omit [ContentsCompare D] in
theorem Sound.free {h : HolderValue D} {forced : Bool} (hs : Sound h forced)
    (hv : h.isValid = true) :
    h.invalidForced = false ∧ forced = false ∧ (h.defaultForced = false → h.valid = true) := by
  have hfree : h.invalidForced = false := by
    cases hi : h.invalidForced with
    | false => rfl
    | true => simp [HolderValue.isValid, hi] at hv
  have hvalid : h.defaultForced = false → h.valid = true := by
    intro hd
    simpa [HolderValue.isValid, hfree, hd] using hv
  cases hd : h.defaultForced with
  | false => exact ⟨hfree, (hs.notForced (.inl (hvalid hd))).2, fun _ => hvalid hd⟩
  | true => exact ⟨hfree, (hs.notForced (.inr hd)).2, fun hf => by cases hf⟩

omit [ContentsCompare D] in
theorem Sound.revalidate {h : HolderValue D} {forced : Bool} (hs : Sound h forced)
    (hv : h.isValid = true) : Sound { h with invalidForced := false, valid := true } forced := by
  obtain ⟨-, hok, hvalid⟩ := hs.free hv
  constructor
  · intro _
    exact ⟨rfl, hok⟩
  · intro _ hd hn
    exact hs.nulls (hvalid hd) hd hn
  · intro hd
    obtain ⟨d, hdv, htype, hnull⟩ := hs.atDefault hd
    exact ⟨d, hdv, fun ht => ⟨rfl, (htype ht).2⟩, hnull⟩
  · intro hf
    cases hf
  · intro hf
    cases hf

theorem Sound.realSetValue {h : HolderValue D} {forced : Bool} (hs : Sound h forced)
    {value : Option (GValue D)} {agreed : Bool} (isCurrent : Bool)
    (hm : MeetsSet ⟨h, forced⟩ value agreed) :
    let r := h.realSetValue value isCurrent agreed
    Sound r.1 (forced && r.2 != true) ∧ (r.2 = true → r.1.isValid = true) := by
  rcases realSetValue_cases h value isCurrent agreed with
    ⟨_, hacc, hvalid, hr⟩ | ⟨_, hr⟩ | ⟨hagreed, hr⟩
  · simp only [hr]
    have hforced : forced = false := (hs.free hvalid).2.1
    have hsound := hs.revalidate hvalid
    refine ⟨by simpa [hforced] using hsound, ?_⟩
    intro _
    simp only [HolderValue.isValid]
    cases hd : h.defaultForced with
    | false => rfl
    | true =>
      obtain ⟨d, hdv, -⟩ := hs.atDefault hd
      simp [hdv]
  · simp only [hr]
    refine ⟨by simpa using hs, ?_⟩
    intro hf
    cases hf
  · simp only [hr]
    have hrefused : h.isDefault value = true → h.accepts value = false →
        h.gType ≠ none ∧ forced = false ∧ h.defaultValue = some .null := by
      intro hd hacc
      obtain ⟨d, hv, ⟨rfl, hn⟩ | ⟨_, _, hacc'⟩⟩ := isDefault_cases hd
      · have hnn : h.notNull = true := by simpa [accepts_null hn] using hacc
        have := hm hagreed hn hnn hv
        exact ⟨this.1, this.2, hv⟩
      · rw [hacc] at hacc'
        cases hacc'
    constructor
    · constructor
      · rintro (hacc | hd)
        · have hacc : h.accepts value = true := hacc
          simp [hacc]
        · cases hacc : h.accepts value with
          | true => simp
          | false => simp [(hrefused hd hacc).2.1]
      · intro hacc _ hn
        have hacc : h.accepts value = true := hacc
        have hn : h.notNull = true := hn
        simp only [hacc, if_true]
        cases hnull : holdsNull value with
        | false => rfl
        | true => simp [accepts_null hnull, hn] at hacc
      · intro hd
        obtain ⟨d, hv, hcase⟩ := isDefault_cases hd
        refine ⟨d, hv, ?_, ?_⟩
        · intro ht
          rcases hcase with ⟨rfl, hn⟩ | ⟨hne, _, hacc⟩
          · have hacc : h.accepts value = true := by
              cases hacc : h.accepts value with
              | true => rfl
              | false => exact absurd ht.symm (hrefused hd hacc).1
            refine ⟨hacc, ?_⟩
            intro hnn
            have hnn : h.notNull = true := hnn
            simp [accepts_null hn, hnn] at hacc
          · exact ⟨hacc, fun _ => hne⟩
        · intro hor
          have hn : holdsNull value = true := by
            rcases hcase with ⟨_, hn⟩ | ⟨hne, ht, _⟩
            · exact hn
            · exact (hor.elim hne (· ht)).elim
          simp only
          split
          · exact hn
          · rfl
      · intro hacc
        have hacc : h.accepts value = false := hacc
        simp [hacc, holdsNull]
      · intro hf
        cases hf
    · intro hacc
      have hacc : h.accepts value = true := hacc
      simp only [HolderValue.isValid, hacc]
      cases hd : h.isDefault value with
      | false => simp
      | true =>
        obtain ⟨d, hv, -⟩ := isDefault_cases hd
        simp [hv]

theorem Sound.setValueToDefault {s : HolderRun D} (hs : Sound s.holder s.forced)
    (hm : s.Meets .setValueToDefault) :
    let r := s.holder.setValueToDefault
    Sound r.1 (s.forced && r.2 != true) ∧ (r.2 = true → r.1.isValid = true) := by
  simp only [HolderValue.setValueToDefault]
  split
  · next hd =>
    obtain ⟨d, hv, htype, hnull⟩ := hs.atDefault hd
    have hfree := hs.notForced (.inr hd)
    refine ⟨by simpa [hfree.2] using hs, ?_⟩
    intro _
    simp [HolderValue.isValid, hfree.1, hd, hv]
  · next hd =>
    have hd : s.holder.defaultForced = false := by simpa using hd
    split
    · refine ⟨by simpa using hs, ?_⟩
      intro hf
      cases hf
    · next hsome =>
      obtain ⟨d, hv⟩ : ∃ d, s.holder.defaultValue = some d := by
        cases hv : s.holder.defaultValue with
        | none => simp [hv] at hsome
        | some d => exact ⟨d, rfl⟩
      constructor
      · constructor
        · intro _
          simp
        · intro _ hf
          cases hf
        · intro _
          exact ⟨d, hv, fun ht => hm hd d hv ht, fun _ => rfl⟩
        · intro _
          rfl
        · intro hf
          cases hf
      · intro _
        simp [HolderValue.isValid, hv]

theorem Sound.forceInvalid {s : HolderRun D} (hs : Sound s.holder s.forced)
    (hm : s.Meets .forceInvalid) : Sound s.holder.forceInvalid true := by
  simp only [HolderValue.forceInvalid]
  split
  · next hi =>
    constructor
    · intro hor
      have := hs.notForced hor
      simp [hi] at this
    · exact hs.nulls
    · exact hs.atDefault
    · exact hs.refused
    · intro _
      rfl
  · next hi =>
    have hd : s.holder.defaultForced = false := hm.resolve_left hi
    constructor
    · rintro (hf | hf)
      · cases hf
      · exact absurd hf (by simp [hd])
    · intro hf
      cases hf
    · intro hf
      exact absurd hf (by simp [hd])
    · intro _
      rfl
    · intro _
      rfl

theorem Sound.setNotNull {s : HolderRun D} (hs : Sound s.holder s.forced) {b : Bool}
    (hm : s.Meets (.setNotNull b)) : Sound (s.holder.setNotNull b) s.forced := by
  simp only [HolderValue.setNotNull]
  split
  · exact hs
  · next hb =>
    split
    · next hn =>
      cases b with
      | true =>
        have hnn : s.holder.notNull = false := by simpa using Ne.symm hb
        have hforced : s.holder.defaultForced = true →
            s.holder.invalidForced = false ∧ s.forced = false := fun hd => hs.notForced (.inr hd)
        constructor
        · rintro (hf | hd)
          · cases hf
          · exact hforced hd
        · intro hf
          cases hf
        · intro hd
          obtain ⟨d, hv, -, hnull⟩ := hs.atDefault hd
          refine ⟨d, hv, ?_, hnull⟩
          intro ht
          have := (hm hnn hd d hv ht).1
          rw [hn] at this
          cases this
        · intro _
          exact hn
        · exact hs.invalid
      | false =>
        have hnn : s.holder.notNull = true := by simpa using Ne.symm hb
        have hforced : s.forced = false := hm hnn hn
        constructor
        · intro _
          refine ⟨?_, hforced⟩
          cases hi : s.holder.invalidForced with
          | false => rfl
          | true => exact absurd (hs.invalid hi) (by simp [hforced])
        · intro _ _ hf
          cases hf
        · intro hd
          obtain ⟨d, hv, -, hnull⟩ := hs.atDefault hd
          refine ⟨d, hv, ?_, hnull⟩
          intro _
          refine ⟨rfl, ?_⟩
          intro hf
          cases hf
        · intro _
          exact hn
        · exact hs.invalid
    · next hn =>
      have hn : holdsNull s.holder.value = false := by simpa using hn
      constructor
      · exact hs.notForced
      · intro _ _ _
        exact hn
      · intro hd
        obtain ⟨d, hv, htype, hnull⟩ := hs.atDefault hd
        refine ⟨d, hv, fun ht => ⟨(htype ht).1, ?_⟩, hnull⟩
        rintro - rfl
        have := hnull (.inl rfl)
        rw [hn] at this
        cases this
      · exact hs.refused
      · exact hs.invalid

theorem dropDefault_own {h : HolderValue D} {forced : Bool} (hs : Sound h forced) (agreed : Bool)
    (ho : ¬ AtOtherDefault h) :
    h.dropDefault agreed = { h with defaultForced := false, defaultValue := none } := by
  cases hd : h.defaultForced with
  | false => simp [HolderValue.dropDefault, hd]
  | true =>
    obtain ⟨d, hv, htype, -⟩ := hs.atDefault hd
    have ht : d.valueType = h.gType := by
      by_contra hne
      exact ho ⟨hd, d, hv, hne⟩
    obtain ⟨hvalid, hnull⟩ := htype ht
    have hfree := (hs.notForced (.inr hd)).1
    have hacc : h.accepts (some d) = true := by
      by_cases hn : d = .null
      · rw [accepts_null (by simp [hn])]
        cases hnn : h.notNull with
        | false => rfl
        | true => exact absurd hn (hnull hnn)
      · have hn : gdaValueIsNull d = false := by simpa using hn
        simp [HolderValue.accepts, hn, ht]
    have hisValid : h.isValid = true := by simp [HolderValue.isValid, hfree, hd, hv]
    simp [HolderValue.dropDefault, HolderValue.realSetValue, HolderValue.differs, hd, hv, ht,
      hvalid, hacc, hisValid, hfree]

theorem dropDefault_other {h : HolderValue D} {forced : Bool} (hs : Sound h forced)
    (agreed : Bool) {d : GValue D} (hd : h.defaultForced = true) (hv : h.defaultValue = some d)
    (ht : d.valueType ≠ h.gType) : ∃ valid value,
      h.dropDefault agreed = { h with
        valid := valid, value := value, defaultForced := false, defaultValue := none } ∧
      holdsNull value = true ∧
      (valid = true → (d = .null ∧ h.notNull = false) ∨ (agreed = false ∧ h.valid = true)) := by
  obtain ⟨d', hv', -, hnull⟩ := hs.atDefault hd
  obtain rfl : d' = d := Option.some.inj (hv'.symm.trans hv)
  have hvalue := hnull (.inr ht)
  have hfree := (hs.notForced (.inr hd)).1
  have haccepts : h.accepts (some d') = true → d' = .null ∧ h.notNull = false := by
    intro hacc
    by_cases hn : d' = .null
    · rw [accepts_null (by simp [hn])] at hacc
      exact ⟨hn, by simpa using hacc⟩
    · have hn : gdaValueIsNull d' = false := by simpa using hn
      simp [HolderValue.accepts, hn, ht] at hacc
  have hdrop : h.dropDefault agreed = { (h.realSetValue (some d') false agreed).1 with
      defaultForced := false, defaultValue := none } := by
    simp [HolderValue.dropDefault, hd, hv, ht]
  rcases realSetValue_cases h (some d') false agreed with
    ⟨_, hacc, _, hr⟩ | ⟨hagreed, hr⟩ | ⟨hagreed, hr⟩
  · refine ⟨true, h.value, by rw [hdrop, hr, hfree], hvalue, ?_⟩
    intro _
    exact .inl (haccepts hacc)
  · exact ⟨h.valid, h.value, by rw [hdrop, hr], hvalue, fun hvalid => .inr ⟨hagreed, hvalid⟩⟩
  · cases hacc : h.accepts (some d') with
    | true =>
      obtain ⟨hn, hnn⟩ := haccepts hacc
      refine ⟨true, some d', ?_, by simp [hn], fun _ => .inl ⟨hn, hnn⟩⟩
      simp only [hdrop, hr, hacc, if_true, hfree]
    | false =>
      refine ⟨false, none, ?_, rfl, fun hf => by cases hf⟩
      simp only [hdrop, hr, hacc, hfree, Bool.false_eq_true, if_false]

omit [ContentsCompare D] in
theorem Sound.withDefault {g : HolderValue D} {forced : Bool} {w : GValue D}
    (hrefused : g.valid = false → holdsNull g.value = true)
    (hfree : g.invalidForced = false ∧ forced = false)
    (htype : w.valueType = g.gType → g.valid = true ∧ (g.notNull = true → w ≠ .null))
    (hnull : w = .null ∨ w.valueType ≠ g.gType → holdsNull g.value = true) :
    Sound { g with defaultForced := true, defaultValue := some w } forced := by
  constructor
  · intro _
    exact hfree
  · intro _ hf
    cases hf
  · intro _
    exact ⟨w, rfl, htype, hnull⟩
  · exact hrefused
  · intro hf
    have hf : g.invalidForced = true := hf
    rw [hfree.1] at hf
    cases hf

theorem gdaValueCompare_null {v : GValue D} (h : gdaValueCompare .null v = 0) : v = .null := by
  cases v with
  | null => rfl
  | data t c => simp [gdaValueCompare] at h

theorem takeDefault_cases (g : HolderValue D) (w : GValue D) :
    g.takeDefault (some w) = { g with defaultForced := false, defaultValue := some w } ∨
    (g.takeDefault (some w) = { g with defaultForced := true, defaultValue := some w } ∧
      ((w = .null ∧ holdsNull g.getValue = true) ∨
        (w ≠ .null ∧ w.valueType = g.gType ∧
          ∃ c, g.getValue = some c ∧ gdaValueCompare w c = 0))) := by
  simp only [HolderValue.takeDefault]
  by_cases hdef : g.shows w = true
  · right
    refine ⟨by rw [hdef], ?_⟩
    simp only [HolderValue.shows, Bool.or_eq_true, Bool.and_eq_true, gdaValueIsNull_iff,
      decide_eq_true_eq] at hdef
    rcases hdef with hnull | ⟨ht, hsame⟩
    · exact .inl hnull
    · split at hsame
      · next c hc =>
        have hsame : gdaValueCompare w c = 0 := by simpa using hsame
        by_cases hn : w = .null
        · have hcn : c = .null := gdaValueCompare_null (hn ▸ hsame)
          exact .inl ⟨hn, by rw [hc, hcn]; rfl⟩
        · exact .inr ⟨hn, ht, c, hc, hsame⟩
      · cases hsame
  · left
    rw [(Bool.not_eq_true _).mp hdef]

def StandsFor (g : HolderValue D) (forced : Bool) (w : GValue D) : Prop :=
  if w.valueType = none then
    forced = false ∧ g.invalidForced = false ∧
    if g.gType = none then g.valid = true ∧ g.notNull = false
    else g.valid = false ∨ holdsNull g.value = false
  else ∀ c ∈ g.getValue, w.valueType = g.gType → gdaValueCompare w c = 0 → w = c

theorem Sound.takeDefault {g : HolderValue D} {forced : Bool} (hs : Sound g forced)
    (hd : g.defaultForced = false) {value : Option (GValue D)}
    (hm : ∀ w ∈ value, StandsFor g forced w) :
    Sound (g.takeDefault value) forced ∧ (g.takeDefault value).getValue = g.getValue := by
  cases value with
  | none => exact ⟨hs, rfl⟩
  | some w =>
    have hw := hm w rfl
    have hshown := HolderValue.getValue_own hd
    rcases takeDefault_cases g w with hr | ⟨hr, hcase⟩
    · rw [hr]
      constructor
      · constructor
        · intro hor
          exact hs.notForced (.inl (hor.resolve_right Bool.false_ne_true))
        · intro hvalid _ hn
          exact hs.nulls hvalid hd hn
        · intro hf
          cases hf
        · exact hs.refused
        · exact hs.invalid
      · rw [HolderValue.getValue_own rfl, hshown]
    · rw [hr, HolderValue.getValue_default rfl rfl]
      rcases hcase with ⟨rfl, hnull⟩ | ⟨hn, ht, c, hc, hsame⟩
      · obtain ⟨hforced, hinvalid, hother⟩ : forced = false ∧ g.invalidForced = false ∧ _ := hw
        have hvalue : holdsNull g.value = true := by
          cases hvalid : g.valid with
          | false => exact hs.refused hvalid
          | true => rwa [hshown, hvalid, if_pos rfl, holdsNull_getD] at hnull
        by_cases hg : g.gType = none
        · rw [if_pos hg] at hother
          have hget : g.getValue = some .null := by
            rw [hshown, if_pos hother.1, getD_null_of_holdsNull hvalue]
          refine ⟨.withDefault hs.refused ⟨hinvalid, hforced⟩ ?_ (fun _ => hvalue), ?_⟩
          · intro _
            simp [hother]
          · rw [hget]
            exact if_pos ⟨hother.1, hg.symm⟩
        · rw [if_neg hg] at hother
          have ht : (.null : GValue D).valueType ≠ g.gType := fun heq => hg heq.symm
          have hvalid : g.valid = false := by
            rcases hother with hvalid | hvn
            · exact hvalid
            · rw [hvalue] at hvn
              cases hvn
          refine ⟨.withDefault hs.refused ⟨hinvalid, hforced⟩ (fun heq => absurd heq ht) (fun _ =>
            hvalue), ?_⟩
          simp [hshown, hvalid]
      · have hvalid : g.valid = true := by
          rw [hshown] at hc
          by_contra hf
          rw [if_neg hf] at hc
          cases hc
        have hwc : w = c := by
          rw [StandsFor, if_neg (fun heq => hn ((valueType_eq_none_iff w).mp heq))] at hw
          exact hw c hc ht hsame
        refine ⟨.withDefault hs.refused (hs.notForced (.inl hvalid)) (fun _ =>
          ⟨hvalid, fun _ => hn⟩) ?_, ?_⟩
        · intro hor
          exact (hor.elim hn (fun hne => hne ht)).elim
        · rw [if_pos ⟨hvalid, ht⟩, hc, hwc]

theorem Sound.setDefaultValue {s : HolderRun D} (hs : Sound s.holder s.forced)
    {value : Option (GValue D)} {agreed : Bool} (hm : s.Meets (.setDefaultValue value agreed)) :
    Sound (s.holder.setDefaultValue value agreed) s.forced ∧
      (s.holder.setDefaultValue value agreed).getValue = s.holder.getValue := by
  obtain ⟨h, forced⟩ := s
  obtain ⟨hdrop, hnew⟩ : MeetsDrop h value agreed ∧ MeetsNewDefault ⟨h, forced⟩ value := hm
  have hs : Sound h forced := hs
  simp only [HolderValue.setDefaultValue]
  by_cases ho : AtOtherDefault h
  · obtain ⟨hd, d, hv, ht⟩ := ho
    obtain ⟨valid, held, hr, hheld, hvalid⟩ := dropDefault_other hs agreed hd hv ht
    have hmv : valid = true → value = some .null := by
      intro htrue
      have := hdrop hd d hv
      rw [if_neg ht] at this
      exact this (hvalid htrue)
    have hshown : h.getValue = none := by
      rw [HolderValue.getValue_default hd hv]
      exact if_neg (fun hc => ht hc.2)
    have hnull : ∀ w ∈ value, w.valueType = none →
        forced = false ∧ h.invalidForced = false ∧ h.gType ≠ none := by
      intro w hw hn
      have := hnew w hw
      rw [if_pos hn] at this
      refine ⟨this.1, this.2.1, ?_⟩
      intro hg
      have hd' := this.2.2
      rw [if_pos hg] at hd'
      have hdt := hd'.2.2 hd
      rw [hv] at hdt
      exact ht ((Option.some.inj hdt).trans hg.symm)
    rw [hr, hshown]
    cases valid with
    | false =>
      have hg : Sound { h with valid := false, value := held, defaultForced := false,
                               defaultValue := none } forced := by
        constructor
        · rintro (hf | hf) <;> cases hf
        · intro hf
          cases hf
        · intro hf
          cases hf
        · intro _
          exact hheld
        · exact hs.invalid
      refine hg.takeDefault rfl ?_
      intro w hw
      rw [StandsFor]
      split
      · next hn =>
        obtain ⟨hforced, hinvalid, hgt⟩ := hnull w hw hn
        refine ⟨hforced, hinvalid, ?_⟩
        rw [if_neg hgt]
        exact .inl rfl
      · intro c hc
        cases hc
    | true =>
      obtain rfl := hmv rfl
      obtain ⟨hforced, hinvalid, hgt⟩ := hnull .null rfl rfl
      have hgt : (.null : GValue D).valueType ≠ h.gType := fun heq => hgt heq.symm
      have hstate : HolderValue.takeDefault
          { h with
            valid := true, value := held, defaultForced := false, defaultValue := none }
          (some .null) =
          { h with
            valid := true, value := held, defaultForced := true, defaultValue := some .null } := by
        simp [HolderValue.takeDefault, HolderValue.shows, HolderValue.getValue,
          getD_null_of_holdsNull hheld]
      rw [hstate]
      refine ⟨.withDefault (g := { h with valid := true, value := held }) (fun hf => by cases hf)
        ⟨hinvalid, hforced⟩ (fun heq => absurd heq hgt) (fun _ => hheld), ?_⟩
      rw [HolderValue.getValue_default rfl rfl]
      exact if_neg (fun hc => hgt hc.2)
  · rw [dropDefault_own hs agreed ho]
    -- at a default of its type, the holder has the very same value
    have hsame : h.defaultForced = true →
        h.valid = true ∧ (h.notNull = true → holdsNull h.value = false) ∧
        ∃ d, h.defaultValue = some d ∧ d.valueType = h.gType ∧ h.value.getD .null = d := by
      intro hd
      obtain ⟨d, hv, htype, -⟩ := hs.atDefault hd
      have ht : d.valueType = h.gType := by
        by_contra hne
        exact ho ⟨hd, d, hv, hne⟩
      have hd := hdrop hd d hv
      rw [if_pos ht] at hd
      obtain ⟨hvalid, hnn⟩ := htype ht
      refine ⟨hvalid, ?_, d, hv, ht, hd⟩
      intro hn
      rw [← holdsNull_getD, hd, holdsNull_some, gdaValueIsNull_eq_false]
      exact hnn hn
    have hshown : HolderValue.getValue { h with defaultForced := false, defaultValue := none } =
        h.getValue := by
      rw [HolderValue.getValue_own rfl]
      cases hd : h.defaultForced with
      | false => exact (HolderValue.getValue_own hd).symm
      | true =>
        obtain ⟨hvalid, -, d, hv, ht, heq⟩ := hsame hd
        rw [HolderValue.getValue_default hd hv]
        simp only [hvalid, ht, heq, and_self, if_true]
    have hg : Sound { h with defaultForced := false, defaultValue := none } forced := by
      constructor
      · intro hor
        exact hs.notForced (.inl (hor.resolve_right Bool.false_ne_true))
      · intro hvalid _ hn
        cases hd : h.defaultForced with
        | false => exact hs.nulls hvalid hd hn
        | true => exact (hsame hd).2.1 hn
      · intro hf
        cases hf
      · exact hs.refused
      · exact hs.invalid
    rw [← hshown]
    refine hg.takeDefault rfl ?_
    intro w hw
    have hnew := hnew w hw
    rw [StandsFor]
    split
    · next hn =>
      rw [if_pos hn] at hnew
      obtain ⟨hforced, hinvalid, hcase⟩ := hnew
      refine ⟨hforced, hinvalid, ?_⟩
      by_cases hgt : h.gType = none
      · rw [if_pos hgt] at hcase ⊢
        exact ⟨hcase.1, hcase.2.1⟩
      · rw [if_neg hgt] at hcase ⊢
        rcases hcase with hd | hcase
        · obtain ⟨-, -, d, -, ht, heq⟩ := hsame hd
          right
          rw [← holdsNull_getD]
          have hdn : d ≠ .null := by
            rintro rfl
            exact hgt ht.symm
          simpa [heq] using hdn
        · exact hcase
    · next hn =>
      rw [if_neg hn] at hnew
      rw [hshown]
      exact hnew

theorem Sound.step {s : HolderRun D} (hs : Sound s.holder s.forced) {c : HolderCall D}
    (hm : s.Meets c) : Sound (s.step c).holder (s.step c).forced ∧ Kept s c := by
  have houtcome : ∀ b : Bool, (some b != some true) = (b != true) := by decide
  have hnone : ((none : Option Bool) != some true) = true := rfl
  cases c with
  | setValue v agreed =>
    obtain ⟨hsound, hvalid⟩ := hs.realSetValue (s.holder.offered v).2 hm
    refine ⟨by simpa [HolderRun.step, HolderValue.call, houtcome] using hsound, ?_⟩
    intro hret
    exact hvalid (Option.some.inj hret)
  | takeValue v agreed =>
    obtain ⟨hsound, hvalid⟩ := hs.realSetValue false hm
    refine ⟨by simpa [HolderRun.step, HolderValue.call, houtcome] using hsound, ?_⟩
    intro hret
    exact hvalid (Option.some.inj hret)
  | setValueToDefault =>
    obtain ⟨hsound, hvalid⟩ := hs.setValueToDefault hm
    refine ⟨by simpa [HolderRun.step, HolderValue.call, houtcome] using hsound, ?_⟩
    intro hret
    exact hvalid (Option.some.inj hret)
  | setDefaultValue v agreed =>
    obtain ⟨hsound, hshown⟩ := hs.setDefaultValue hm
    exact ⟨by simpa [HolderRun.step, HolderValue.call, hnone] using hsound, hshown⟩
  | setNotNull b =>
    refine ⟨by simpa [HolderRun.step, HolderValue.call, hnone] using hs.setNotNull hm, ?_⟩
    intro hret
    cases hret
  | forceInvalid =>
    refine ⟨by simpa [HolderRun.step, HolderValue.call] using hs.forceInvalid hm, ?_⟩
    intro hret
    cases hret

def new (gType : GType) : HolderRun D where
  holder := { gType := gType }

omit [ContentsCompare D] in
theorem sound_new (gType : GType) : Sound (new gType : HolderRun D).holder false := by
  constructor
  · intro _
    exact ⟨rfl, rfl⟩
  · intro _ _ hf
    cases hf
  · intro hf
    cases hf
  · intro hf
    cases hf
  · intro hf
    cases hf

theorem Sound.run {s : HolderRun D} (hs : Sound s.holder s.forced) {calls : List (HolderCall D)}
    (hm : EveryStep HolderRun.step Meets s calls) :
    Sound (calls.foldl HolderRun.step s).holder (calls.foldl HolderRun.step s).forced ∧
      EveryStep HolderRun.step Kept s calls := by
  induction calls generalizing s with
  | nil => exact ⟨hs, trivial⟩
  | cons c calls ih =>
    obtain ⟨hsound, hkept⟩ := hs.step hm.1
    have hrest := ih hsound hm.2
    exact ⟨hrest.1, hkept, hrest.2⟩

/-- The readers agree in every run whose calls meet their conditions, and each call does what it
should. -/
theorem coherent_of_meets (gType : GType) (calls : List (HolderCall D))
    (hm : EveryStep HolderRun.step Meets (new gType) calls) :
    Coherent (calls.foldl HolderRun.step (new gType)) ∧
      EveryStep HolderRun.step Kept (new gType) calls := by
  have h := Sound.run (sound_new gType) hm
  exact ⟨h.1.coherent, h.2⟩

def exampleCalls : List (HolderCall Int) :=
  [.setDefaultValue (some (.data 0 5)) true, .setValue (.given (some (.data 0 6))) true,
    .setNotNull true, .setValue (.given none) true, .takeValue (some (.data 0 7)) true,
    .forceInvalid, .setValue (.given (some (.data 0 5))) true, .setValue .current true]

theorem coherent_of_meets_example :
    Coherent (exampleCalls.foldl HolderRun.step (new (some 0))) ∧
      EveryStep HolderRun.step Kept (new (some 0)) exampleCalls := by
  apply coherent_of_meets
  simp [exampleCalls, EveryStep, Meets, MeetsSet, MeetsDrop, MeetsNewDefault, new, HolderRun.step,
    HolderValue.call, HolderValue.offered, HolderValue.setDefaultValue, HolderValue.dropDefault,
    HolderValue.takeDefault, HolderValue.shows, HolderValue.getValue, HolderValue.realSetValue,
      HolderValue.accepts,
    HolderValue.isValid, HolderValue.differs, HolderValue.isDefault, HolderValue.forceInvalid,
    HolderValue.setNotNull, GValue.valueType, gdaValueCompare, ContentsCompare.compare, holdsNull]

/-- A holder which refused a value is valid at its default, and shows nothing. -/
theorem not_coherent_of_refused :
    ¬ ∀ calls : List (HolderCall Int),
      Coherent (calls.foldl HolderRun.step (new (some 0))) ∧
        EveryStep HolderRun.step Kept (new (some 0)) calls := by
  intro h
  have hc := (h [.setDefaultValue (some (.data 0 5)) true,
    .setValue (.given (some (.data 1 6))) true, .setValueToDefault]).1.shown
  rcases hc.mp (by decide) with hshown | ⟨-, d, hd, ht⟩
  · revert hshown
    decide
  · obtain rfl : GValue.data 0 5 = d := Option.some.inj hd
    exact ht rfl

end HolderRun

end LibGda
