import LibGda.SelectValidity

/-! The fields of a SELECT which is valid: which of them have the column of their own object. -/

namespace LibGda.SelectValidity

section Visits

variable {targets found : List SelectTarget} {parts : List Part} {part : Part} {t : SelectTarget}
  {f : SelectField} {n : Nat}

theorem visits_subset (hpart : part ∈ parts) :
    ∃ k, ∀ v ∈ part.visits targets k, v ∈ visitsOf targets n parts := by
  induction parts generalizing n with
  | nil => cases hpart
  | cons p parts ih =>
    rw [visitsOf]
    rcases List.mem_cons.1 hpart with rfl | hrest
    · refine ⟨n, ?_⟩
      intro v hv
      exact List.mem_append_left _ hv
    · obtain ⟨k, hk⟩ := ih hrest
      refine ⟨k, ?_⟩
      intro v hv
      exact List.mem_append_right _ (hk v hv)

theorem target_visited (ht : t ∈ targetsOf parts) :
    ∃ k, Visit.target targets k t ∈ visitsOf targets n parts := by
  induction parts generalizing n with
  | nil => cases ht
  | cons p parts ih =>
    have hlater : t ∈ targetsOf parts →
        ∃ k, Visit.target targets k t ∈ visitsOf targets n (p :: parts) := by
      intro hrest
      rw [visitsOf]
      obtain ⟨k, hk⟩ := @ih (if p.isTarget then n + 1 else n) hrest
      exact ⟨k, List.mem_append_right _ hk⟩
    cases p with
    | selectFrom inner =>
      rw [targetsOf, List.mem_filterMap] at ht
      obtain ⟨q, hq, htarget⟩ := ht
      cases q with
      | selectTarget target others =>
        obtain rfl : target = t := Option.some.inj htarget
        obtain ⟨k, hk⟩ := @visits_subset targets inner _ 0 hq
        refine ⟨k, ?_⟩
        rw [visitsOf, Part.visits]
        apply List.mem_append_left
        apply hk
        rw [Part.visits]
        exact List.mem_append_right _ List.mem_cons_self
      | select _ => cases htarget
      | selectFrom _ => cases htarget
      | selectField _ _ => cases htarget
      | usingField => cases htarget
      | other _ => cases htarget
    | select _ => exact hlater ht
    | selectField _ _ => exact hlater ht
    | selectTarget _ _ => exact hlater ht
    | usingField => exact hlater ht
    | other _ => exact hlater ht

mutual

theorem field_visited (part : Part) {targets found : List SelectTarget} {f : SelectField} {n : Nat}
    (h : Visit.field found f ∈ part.visits targets n) :
    found = targets ∨ ∀ t ∈ found, ∃ k, Visit.target found k t ∈ part.visits targets n := by
  cases part with
  | select parts =>
    rw [Part.visits] at h ⊢
    refine Or.inr ?_
    rcases field_visitedOf parts h with rfl | hfound
    · intro t ht
      exact target_visited ht
    · exact hfound
  | selectFrom parts =>
    rw [Part.visits] at h ⊢
    exact field_visitedOf parts h
  | selectField field parts =>
    rw [Part.visits, List.mem_append] at h
    rcases h with hinner | hself
    · rcases field_visitedOf parts hinner with heq | hfound
      · exact Or.inl heq
      · refine Or.inr ?_
        intro t ht
        obtain ⟨k, hk⟩ := hfound t ht
        refine ⟨k, ?_⟩
        rw [Part.visits]
        exact List.mem_append_left _ hk
    · cases List.mem_singleton.1 hself
      exact Or.inl rfl
  | selectTarget target parts =>
    rw [Part.visits, List.mem_append] at h
    rcases h with hinner | hself
    · rcases field_visitedOf parts hinner with heq | hfound
      · exact Or.inl heq
      · refine Or.inr ?_
        intro t ht
        obtain ⟨k, hk⟩ := hfound t ht
        refine ⟨k, ?_⟩
        rw [Part.visits]
        exact List.mem_append_left _ hk
    · cases List.mem_singleton.1 hself
  | usingField =>
    rw [Part.visits] at h
    cases List.mem_singleton.1 h
  | other parts =>
    rw [Part.visits] at h ⊢
    exact field_visitedOf parts h

theorem field_visitedOf (parts : List Part) {targets found : List SelectTarget} {f : SelectField}
    {n : Nat} (h : Visit.field found f ∈ visitsOf targets n parts) :
    found = targets ∨ ∀ t ∈ found, ∃ k, Visit.target found k t ∈ visitsOf targets n parts := by
  cases parts with
  | nil => cases h
  | cons p parts =>
    rw [visitsOf, List.mem_append] at h
    rw [visitsOf]
    rcases h with hfirst | hrest
    · rcases field_visited p hfirst with heq | hfound
      · exact Or.inl heq
      · refine Or.inr ?_
        intro t ht
        obtain ⟨k, hk⟩ := hfound t ht
        exact ⟨k, List.mem_append_left _ hk⟩
    · rcases field_visitedOf parts hrest with heq | hfound
      · exact Or.inl heq
      · refine Or.inr ?_
        intro t ht
        obtain ⟨k, hk⟩ := hfound t ht
        exact ⟨k, List.mem_append_right _ hk⟩

end

theorem targets_visited (h : Visit.field found f ∈ selectVisits parts) (ht : t ∈ found) :
    ∃ k, Visit.target found k t ∈ selectVisits parts := by
  rcases field_visited _ h with rfl | hfound
  · cases ht
  · exact hfound t ht

end Visits

section Columns

variable {m : MetaData} {fuel object i : Nat} {name table : SqlName} {targets ts : List SelectTarget}
  {t : SelectTarget} {dbo dbo' : Option Nat} {tcol tcol' : Option (Nat × Nat)}

theorem tableColumn_spec {c : Nat × Nat} (h : tableColumn m object name = some c) :
    c.1 = object ∧ ∃ column, (m.columns object)[c.2]? = some column ∧
      identifierEqual column name = true := by
  rw [tableColumn, Option.map_eq_some_iff] at h
  obtain ⟨k, hk, rfl⟩ := h
  obtain ⟨hlt, heq, -⟩ := List.findIdx?_eq_some_iff_getElem.1 hk
  exact ⟨rfl, _, List.getElem?_eq_getElem hlt, heq⟩

theorem tableColumn_of_mem {column : SqlName} (hmem : column ∈ m.columns object)
    (heq : identifierEqual column name = true) :
    ∃ k, tableColumn m object name = some (object, k) := by
  have hsome : ((m.columns object).findIdx? fun c => identifierEqual c name).isSome = true := by
    rw [List.findIdx?_isSome, List.any_eq_true]
    exact ⟨column, hmem, heq⟩
  obtain ⟨k, hk⟩ := Option.isSome_iff_exists.1 hsome
  refine ⟨k, ?_⟩
  rw [tableColumn, hk]
  rfl

theorem findTable_spec (h : findTable m targets fuel name = .ok object) :
    findTableOrView m targets fuel name = .ok object ∧ m.isTableOrView object = true := by
  rw [findTable] at h
  cases hfind : findTableOrView m targets fuel name with
  | error e =>
    rw [hfind] at h
    cases h
  | ok o =>
    rw [hfind] at h
    change (if m.isTableOrView o then _ else _) = _ at h
    split at h
    · rename_i htable
      obtain rfl := Except.ok.inj h
      exact ⟨rfl, htable⟩
    · cases h

theorem checkTarget_table (h : checkTarget m targets fuel t = .ok (some object)) :
    m.isTableOrView object = true := by
  rw [checkTarget] at h
  cases hname : t.tableName with
  | none =>
    rw [hname] at h
    cases h
  | some name =>
    rw [hname] at h
    cases hfind : findTable m targets fuel name with
    | error e =>
      simp only [hfind] at h
      cases h
    | ok o =>
      simp only [hfind] at h
      obtain rfl : o = object := Option.some.inj (Except.ok.inj h)
      exact (findTable_spec hfind).2

theorem searchTargets_last
    (h : searchTargets m targets fuel name ts dbo tcol = .ok (dbo', tcol'))
    (ht : ts.getLast? = some t) :
    ∃ o, checkTarget m targets fuel t = .ok o ∧
      tcol' = (o.bind fun o => tableColumn m o name) ∧ (tcol' ≠ none → dbo' = o) := by
  induction ts generalizing dbo tcol with
  | nil => cases ht
  | cons first ts ih =>
    rw [searchTargets] at h
    cases hcheck : checkTarget m targets fuel first with
    | error e =>
      rw [hcheck] at h
      cases h
    | ok o =>
      rw [hcheck] at h
      simp only [bind, Except.bind] at h
      cases ts with
      | nil =>
        obtain rfl : first = t := Option.some.inj ht
        refine ⟨o, hcheck, ?_⟩
        cases hcolumn : o.bind fun o => tableColumn m o name with
        | none =>
          rw [hcolumn] at h
          obtain ⟨-, rfl⟩ := Prod.mk.inj (Except.ok.inj h)
          refine ⟨rfl, ?_⟩
          intro hne
          exact absurd rfl hne
        | some c =>
          simp only [hcolumn] at h
          split at h
          · cases h
          · obtain ⟨rfl, rfl⟩ := Prod.mk.inj (Except.ok.inj h)
            exact ⟨rfl, fun _ => rfl⟩
      | cons second ts =>
        rw [List.getLast?_cons_cons] at ht
        cases hcolumn : o.bind fun o => tableColumn m o name with
        | none =>
          rw [hcolumn] at h
          exact ih h ht
        | some c =>
          simp only [hcolumn] at h
          split at h
          · cases h
          · exact ih h ht

theorem checkUnqualified_spec (hstar : isStar name = false)
    (h : checkUnqualified m targets fuel name = .ok (object, tcol)) :
    searchTargets m targets fuel name targets none none = .ok (some object, tcol) := by
  rw [checkUnqualified] at h
  cases hsearch : searchTargets m targets fuel name targets none none with
  | error e =>
    rw [hsearch] at h
    cases h
  | ok found =>
    obtain ⟨dbo, column⟩ := found
    rw [hsearch] at h
    cases dbo with
    | some o =>
      obtain ⟨rfl, rfl⟩ := Prod.mk.inj (Except.ok.inj h)
      rfl
    | none =>
      simp only [hstar] at h
      cases targets with
      | nil => cases h
      | cons first ts =>
        cases ts with
        | nil => cases h
        | cons second ts => cases h

theorem checkUnqualified_column (hstar : isStar name = false)
    (h : checkUnqualified m targets fuel name = .ok (object, tcol)) :
    (∃ k, tcol = some (object, k)) ↔ ∃ t o, targets.getLast? = some t ∧
      checkTarget m targets fuel t = .ok (some o) ∧
        ∃ column ∈ m.columns o, identifierEqual column name = true := by
  have hsearch := checkUnqualified_spec hstar h
  cases hlast : targets.getLast? with
  | none =>
    rw [List.getLast?_eq_none_iff] at hlast
    rw [hlast] at hsearch
    cases hsearch
  | some t =>
    obtain ⟨o, hcheck, hcolumn, hsame⟩ := searchTargets_last hsearch hlast
    constructor
    · rintro ⟨k, rfl⟩
      have ho := hsame (by simp)
      rw [← ho] at hcheck hcolumn
      obtain ⟨-, column, hmem, heq⟩ := tableColumn_spec hcolumn.symm
      exact ⟨t, object, rfl, hcheck, column, List.mem_of_getElem? hmem, heq⟩
    · rintro ⟨t', o', ht', hcheck', column, hmem, heq⟩
      obtain rfl := Option.some.inj ht'
      rw [hcheck] at hcheck'
      obtain rfl := Except.ok.inj hcheck'
      obtain ⟨k, hk⟩ := tableColumn_of_mem hmem heq
      have htcol : tcol = some (o', k) := hcolumn.trans hk
      have ho : some object = some o' := hsame (by simp [htcol])
      rw [Option.some.inj ho]
      exact ⟨k, htcol⟩

theorem checkQualified_spec (hstar : isStar name = false)
    (h : checkQualified m targets fuel table name = .ok (object, tcol)) :
    findTableOrView m targets fuel table = .ok object ∧ m.isTableOrView object = true ∧
      ∃ k, tcol = some (object, k) ∧ tableColumn m object name = some (object, k) := by
  rw [checkQualified] at h
  cases hfind : findTable m targets fuel table with
  | error e =>
    rw [hfind] at h
    cases h
  | ok o =>
    obtain ⟨hview, htable⟩ := findTable_spec hfind
    rw [hfind] at h
    simp only [bind, Except.bind, hstar, Bool.false_eq_true, if_false] at h
    cases hcolumn : tableColumn m o name with
    | none =>
      rw [hcolumn] at h
      cases h
    | some c =>
      rw [hcolumn] at h
      obtain ⟨rfl, rfl⟩ := Prod.mk.inj (Except.ok.inj h)
      have hc := (tableColumn_spec hcolumn).1
      have hpair : c = (o, c.2) := by rw [← hc]
      rw [hpair] at hcolumn ⊢
      exact ⟨hview, htable, c.2, rfl, hcolumn⟩

end Columns

section Contract

variable {m : MetaData} {fuel : Nat} {parts : List Part} {targets : List SelectTarget}
  {f : SelectField} {c : CheckedField} {vs : List Visit} {checked : List CheckedField}

theorem mem_checkVisits (h : checkVisits m fuel vs = .ok checked) :
    c ∈ checked ↔ ∃ targets f, Visit.field targets f ∈ vs ∧ checkField m targets fuel f = .ok c := by
  induction vs generalizing checked with
  | nil =>
    obtain rfl := Except.ok.inj h
    constructor
    · intro hc
      cases hc
    · rintro ⟨targets, f, hmem, -⟩
      cases hmem
  | cons v vs ih =>
    rw [checkVisits] at h
    cases hv : checkVisit m fuel v with
    | error e =>
      rw [hv] at h
      cases h
    | ok fields =>
      rw [hv] at h
      cases hvs : checkVisits m fuel vs with
      | error e =>
        change (checkVisits m fuel vs >>= _) = _ at h
        rw [hvs] at h
        cases h
      | ok others =>
        change (checkVisits m fuel vs >>= _) = _ at h
        rw [hvs] at h
        obtain rfl := Except.ok.inj h
        have hfirst : c ∈ fields ↔
            ∃ targets f, Visit.field targets f = v ∧ checkField m targets fuel f = .ok c := by
          cases v with
          | field targets f =>
            rw [checkVisit] at hv
            cases hcheck : checkField m targets fuel f with
            | error e =>
              rw [hcheck] at hv
              cases hv
            | ok g =>
              rw [hcheck] at hv
              obtain rfl := Except.ok.inj hv
              rw [List.mem_singleton]
              constructor
              · intro hc
                exact ⟨targets, f, rfl, by rw [hcheck, hc]⟩
              · rintro ⟨targets', f', heq, hcheck'⟩
                obtain ⟨rfl, rfl⟩ := Visit.field.inj heq
                rw [hcheck] at hcheck'
                exact (Except.ok.inj hcheck').symm
          | target targets before t =>
            rw [checkVisit] at hv
            cases hcheck : checkTarget m (cleanedUpTo (before + 1) targets) fuel t.cleaned with
            | error e =>
              rw [hcheck] at hv
              cases hv
            | ok o =>
              rw [hcheck] at hv
              obtain rfl := Except.ok.inj hv
              refine iff_of_false List.not_mem_nil ?_
              rintro ⟨targets', f', heq, -⟩
              cases heq
          | usingField => cases hv
        rw [List.mem_append, hfirst, ih hvs]
        constructor
        · rintro (⟨targets, f, hmem, hc⟩ | ⟨targets, f, hmem, hc⟩)
          · exact ⟨targets, f, by rw [hmem]; exact List.mem_cons_self, hc⟩
          · exact ⟨targets, f, List.mem_cons_of_mem _ hmem, hc⟩
        · rintro ⟨targets, f, hmem, hc⟩
          rcases List.mem_cons.1 hmem with heq | hmem
          · exact Or.inl ⟨targets, f, heq, hc⟩
          · exact Or.inr ⟨targets, f, hmem, hc⟩

theorem visit_checked (h : checkVisits m fuel vs = .ok checked)
    (hmem : Visit.field targets f ∈ vs) : ∃ c, checkField m targets fuel f = .ok c := by
  induction vs generalizing checked with
  | nil => cases hmem
  | cons v vs ih =>
    rw [checkVisits] at h
    cases hv : checkVisit m fuel v with
    | error e =>
      rw [hv] at h
      cases h
    | ok fields =>
      rw [hv] at h
      change (checkVisits m fuel vs >>= _) = _ at h
      cases hvs : checkVisits m fuel vs with
      | error e =>
        rw [hvs] at h
        cases h
      | ok others =>
        rcases List.mem_cons.1 hmem with rfl | hmem
        · rw [checkVisit] at hv
          cases hcheck : checkField m targets fuel f with
          | error e =>
            rw [hcheck] at hv
            cases hv
          | ok c => exact ⟨c, rfl⟩
        · exact ih hvs hmem

theorem checkField_field (h : checkField m targets fuel f = .ok c) : c.field = f := by
  rw [checkField] at h
  generalize fieldNames m f = names at h
  obtain ⟨front, last⟩ := names
  cases last with
  | none =>
    obtain rfl := Except.ok.inj h
    rfl
  | some last =>
    cases front with
    | none =>
      simp only at h
      cases hcheck : checkUnqualified m targets fuel last with
      | error e =>
        rw [hcheck] at h
        cases h
      | ok found =>
        rw [hcheck] at h
        obtain rfl := Except.ok.inj h
        rfl
    | some table =>
      simp only at h
      cases hcheck : checkQualified m targets fuel table last with
      | error e =>
        rw [hcheck] at h
        cases h
      | ok found =>
        rw [hcheck] at h
        obtain rfl := Except.ok.inj h
        rfl

theorem checkField_spec {name : SqlName} (hname : columnName m f = some name)
    (h : checkField m targets fuel f = .ok c) :
    isStar name = false ∧ ∃ object, c.object = some object ∧
      match (fieldNames m f).1 with
      | none => checkUnqualified m targets fuel name = .ok (object, c.column)
      | some table => checkQualified m targets fuel table name = .ok (object, c.column) := by
  rw [checkField] at h
  rw [columnName] at hname
  generalize fieldNames m f = names at h hname ⊢
  obtain ⟨front, last⟩ := names
  cases last with
  | none => cases hname
  | some last =>
    simp only at hname
    split at hname
    · cases hname
    · rename_i hstar
      obtain rfl := Option.some.inj hname
      refine ⟨Bool.eq_false_iff.2 hstar, ?_⟩
      cases front with
      | none =>
        simp only at h ⊢
        cases hcheck : checkUnqualified m targets fuel last with
        | error e =>
          rw [hcheck] at h
          cases h
        | ok found =>
          rw [hcheck] at h
          obtain rfl := Except.ok.inj h
          exact ⟨found.1, rfl, rfl⟩
      | some table =>
        simp only at h ⊢
        cases hcheck : checkQualified m targets fuel table last with
        | error e =>
          rw [hcheck] at h
          cases h
        | ok found =>
          rw [hcheck] at h
          obtain rfl := Except.ok.inj h
          exact ⟨found.1, rfl, rfl⟩

theorem isRight_iff (hvisit : Visit.field targets f ∈ selectVisits parts)
    (h : checkField m targets fuel f = .ok c) :
    IsRight m fuel parts c ↔ Resolves m fuel parts targets f := by
  have hf := checkField_field h
  by_cases hplain : ∃ name, columnName m f = some name
  · obtain ⟨name, hname⟩ := hplain
    obtain ⟨hstar, object, hobject, hcheck⟩ := checkField_spec hname h
    have hright : IsRight m fuel parts c ↔ Designates m fuel parts object ∧
        m.isTableOrView object = true ∧ ∃ i, c.column = some (object, i) ∧
          ∃ column, (m.columns object)[i]? = some column ∧ identifierEqual column name = true := by
      constructor
      · intro hr
        obtain ⟨o, i, ho, hdes, htable, hcolumn⟩ := hr name (by rw [hf]; exact hname)
        obtain rfl : object = o := Option.some.inj (hobject.symm.trans ho)
        exact ⟨hdes, htable, i, hcolumn⟩
      · rintro ⟨hdes, htable, i, hcolumn⟩ name' hname'
        rw [hf, hname] at hname'
        obtain rfl := Option.some.inj hname'
        exact ⟨object, i, hobject, hdes, htable, hcolumn⟩
    have hresolves : Resolves m fuel parts targets f ↔
        match (fieldNames m f).1 with
        | none => ∃ t object, targets.getLast? = some t ∧
          checkTarget m targets fuel t = .ok (some object) ∧
            ∃ column ∈ m.columns object, identifierEqual column name = true
        | some table => ∃ object, findTableOrView m targets fuel table = .ok object ∧
          Designates m fuel parts object := by
      constructor
      · intro hr
        exact hr name hname
      · intro hr name' hname'
        rw [hname] at hname'
        obtain rfl := Option.some.inj hname'
        exact hr
    rw [hright, hresolves]
    cases hfront : (fieldNames m f).1 with
    | none =>
      rw [hfront] at hcheck
      have hiff := checkUnqualified_column hstar hcheck
      simp only
      constructor
      · rintro ⟨-, -, i, hcolumn, -⟩
        exact hiff.1 ⟨i, hcolumn⟩
      · intro hlast
        obtain ⟨k, hk⟩ := hiff.2 hlast
        obtain ⟨t, o, ht, htarget, -⟩ := hlast
        have hsearch := checkUnqualified_spec hstar hcheck
        obtain ⟨o', htarget', hcolumn, hsame⟩ := searchTargets_last hsearch ht
        have ho' : some object = o' := hsame (by simp [hk])
        rw [← ho', hk] at hcolumn
        rw [← ho'] at htarget'
        obtain ⟨-, hget⟩ := tableColumn_spec hcolumn.symm
        obtain ⟨n, hn⟩ := targets_visited hvisit (List.mem_of_getLast? ht)
        exact ⟨⟨targets, n, t, hn, htarget'⟩, checkTarget_table htarget', k, hk, hget⟩
    | some table =>
      rw [hfront] at hcheck
      obtain ⟨hfind, htable, k, hk, hcolumn⟩ := checkQualified_spec hstar hcheck
      simp only
      constructor
      · rintro ⟨hdes, -⟩
        exact ⟨object, hfind, hdes⟩
      · rintro ⟨o, ho, hdes⟩
        rw [hfind] at ho
        obtain rfl := Except.ok.inj ho
        exact ⟨hdes, htable, k, hk, (tableColumn_spec hcolumn).2⟩
  · have hnone : columnName m f = none := by
      cases hname : columnName m f with
      | none => rfl
      | some name => exact absurd ⟨name, hname⟩ hplain
    constructor
    · intro _ name hname
      rw [hnone] at hname
      cases hname
    · intro _ name hname
      rw [hf, hnone] at hname
      cases hname

/-- The fields of a valid SELECT have the columns of their own objects exactly when each of them
resolves. -/
theorem select_contract (h : checkValidity m fuel parts = .ok checked) :
    (∀ c ∈ checked, IsRight m fuel parts c) ↔
      ∀ targets f, Visit.field targets f ∈ selectVisits parts →
        Resolves m fuel parts targets f := by
  constructor
  · intro hright targets f hvisit
    obtain ⟨c, hc⟩ := visit_checked h hvisit
    exact (isRight_iff hvisit hc).1 (hright c ((mem_checkVisits h).2 ⟨targets, f, hvisit, hc⟩))
  · intro hresolves c hc
    obtain ⟨targets, f, hvisit, hcheck⟩ := (mem_checkVisits h).1 hc
    exact (isRight_iff hvisit hcheck).2 (hresolves targets f hvisit)

end Contract

section Tables

def twoTables : MetaData where
  complement name :=
    if name = ['t'] then .ok 0 else if name = ['u'] then .ok 1 else .error "Could not find object"
  isTableOrView _ := true
  columns object := if object = 0 then [['a']] else [['b']]
  identifierQuote name := name
  isNumber _ := false

def namedField (name : SqlName) : SelectField where
  value := some name
  tableName := none
  fieldName := none

def selectA (tables : List SqlName) : List Part :=
  [.selectField (namedField ['a']) [.other []],
    .selectFrom (tables.map fun table =>
      .selectTarget { as := none, tableName := some table } [.other []])]

def checkedA (column : Option (Nat × Nat)) : CheckedField where
  field := namedField ['a']
  object := some 0
  column

/-- `SELECT a FROM u, t` -/
theorem select_lastTable :
    IsRight twoTables 1 (selectA [['u'], ['t']]) (checkedA (some (0, 0))) := by
  have hcheck : checkValidity twoTables 1 (selectA [['u'], ['t']]) =
      .ok [checkedA (some (0, 0))] := rfl
  refine (select_contract hcheck).2 ?_ _ List.mem_cons_self
  intro targets f hvisit name hname
  have hfield : targets = [{ as := none, tableName := some ['u'] },
      { as := none, tableName := some ['t'] }] ∧ f = namedField ['a'] := by
    simpa [selectVisits, selectA, Part.visits, visitsOf, targetsOf] using hvisit
  obtain ⟨rfl, rfl⟩ := hfield
  obtain rfl : ['a'] = name := Option.some.inj hname
  exact ⟨{ as := none, tableName := some ['t'] }, 0, rfl, rfl, ['a'], List.mem_cons_self, by decide⟩

/-- `SELECT a FROM t, u`: the column is looked for in each target, and that of `t` is lost. -/
theorem select_otherTable : ¬ ∀ (m : MetaData) (fuel : Nat) (parts : List Part)
    (checked : List CheckedField), checkValidity m fuel parts = .ok checked →
      ∀ c ∈ checked, IsRight m fuel parts c := by
  intro h
  have hcheck : checkValidity twoTables 1 (selectA [['t'], ['u']]) = .ok [checkedA none] := rfl
  have hright := h _ _ _ _ hcheck _ List.mem_cons_self
  obtain ⟨object, i, -, -, -, hcolumn, -⟩ := hright ['a'] rfl
  cases hcolumn

end Tables

end LibGda.SelectValidity
