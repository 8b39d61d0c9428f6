import LibGda.VirtualCursors
import Mathlib.Data.List.Nodup

/-! The cursors of a virtual table answer as the scans which they are for, as long as no data are
forgotten and no scan which ended in an exception is used again. -/

namespace LibGda

variable {A V : Type} {ncols : Nat}
  {produce : A → Option (ScannedModel V ncols)} {s : VirtualSession A V ncols} {t : ScanState A}

/-- The data for some arguments, of which `m` rows have been read. -/
structure DataFits (produce : A → Option (ScannedModel V ncols)) (failed : List A)
    (data : VirtualFilteredData A V ncols) (m : Nat) : Prop where
  produced : produce data.args = some data.model
  reuseable : data.reuseable = true
  loaded : Loaded data m
  reads : data.args ∉ failed → Reads data m

/-- The table with the scans it stands for; `read` tells how many rows of each data have been read. -/
structure SimulatesWith (produce : A → Option (ScannedModel V ncols)) (s : VirtualSession A V ncols)
    (t : ScanState A) (start : Nat) (read : Nat → Nat) : Prop where
  args : s.table.filtered.map (·.args) = t.made
  nodup : t.made.Nodup
  few : t.made.length ≤ maxVdataNumber
  context : s.table.contextData = (List.range t.made.length).reverse
  offset : s.table.rowsOffset = (start + t.made.length) % 2 ^ 32
  offsets : ∀ (i : Nat) data, s.table.filtered[i]? = some data →
    data.rowidOffset = (start + i) % 2 ^ 32
  data : ∀ (i : Nat) data, s.table.filtered[i]? = some data → DataFits produce t.failed data (read i)
  cursors : ∀ c args row, t.cursors c = some (args, row) → ∃ (i : Nat) (data : VirtualFilteredData A V ncols),
    s.table.cursors c = { data := some i, row := row } ∧ s.table.filtered[i]? = some data ∧
      data.args = args ∧ Within data (read i) row
  kept : s.rowids.length = t.kept.length
  rowids : ∀ (k : Nat) (args : A) (row : Nat), t.kept[k]? = some (args, row) →
    ∃ (i : Nat) (data : VirtualFilteredData A V ncols),
    s.table.filtered[i]? = some data ∧ data.args = args ∧ row < read i ∧
      s.rowids[k]? = some (((row : Int) + data.rowidOffset * 2 ^ 32) % 2 ^ 64)

def Simulates (produce : A → Option (ScannedModel V ncols)) (s : VirtualSession A V ncols)
    (t : ScanState A) : Prop :=
  ∃ start read, SimulatesWith produce s t start read

section Lookup

variable {start : Nat} {read : Nat → Nat} {i j : Nat} {data : VirtualFilteredData A V ncols}

theorem SimulatesWith.length (h : SimulatesWith produce s t start read) :
    s.table.filtered.length = t.made.length := by
  rw [← h.args, List.length_map]

theorem SimulatesWith.made_get (h : SimulatesWith produce s t start read)
    (hdata : s.table.filtered[i]? = some data) : t.made[i]? = some data.args := by
  rw [← h.args, List.getElem?_map, hdata]
  rfl

theorem SimulatesWith.lt (h : SimulatesWith produce s t start read)
    (hdata : s.table.filtered[i]? = some data) : i < t.made.length := by
  rw [← h.length]
  exact (List.getElem?_eq_some_iff.1 hdata).1

theorem SimulatesWith.index_inj (h : SimulatesWith produce s t start read)
    {data' : VirtualFilteredData A V ncols} (hdata : s.table.filtered[i]? = some data)
    (hdata' : s.table.filtered[j]? = some data') (hargs : data.args = data'.args) : i = j := by
  have hi := h.made_get hdata
  have hj := h.made_get hdata'
  rw [← hargs] at hj
  exact (List.getElem?_inj (h.lt hdata) h.nodup).1 (hi.trans hj.symm)

theorem SimulatesWith.mem_context (h : SimulatesWith produce s t start read)
    (hdata : s.table.filtered[i]? = some data) : i ∈ s.table.contextData := by
  rw [h.context, List.mem_reverse, List.mem_range]
  exact h.lt hdata

theorem SimulatesWith.exists_data (h : SimulatesWith produce s t start read) {args : A}
    (hargs : args ∈ t.made) :
    ∃ (i : Nat) (data : VirtualFilteredData A V ncols),
      s.table.filtered[i]? = some data ∧ data.args = args := by
  rw [← h.args] at hargs
  obtain ⟨data, hmem, rfl⟩ := List.mem_map.1 hargs
  obtain ⟨i, hi⟩ := List.mem_iff_getElem?.1 hmem
  exact ⟨i, data, hi, rfl⟩

theorem SimulatesWith.find_offset (h : SimulatesWith produce s t start read)
    (hdata : s.table.filtered[i]? = some data) :
    (s.table.contextData.filterMap (s.table.filtered[·]?)).find?
      (fun data' => (data'.rowidOffset : Int) = data.rowidOffset) = some data := by
  have hmem : data ∈ s.table.contextData.filterMap (s.table.filtered[·]?) :=
    List.mem_filterMap.2 ⟨i, h.mem_context hdata, hdata⟩
  cases hfound : (s.table.contextData.filterMap (s.table.filtered[·]?)).find?
      (fun data' => (data'.rowidOffset : Int) = data.rowidOffset) with
  | none =>
    have hnone := List.find?_eq_none.1 hfound data hmem
    simp at hnone
  | some data' =>
    have hfirst := List.find?_some hfound
    have hsame : (data'.rowidOffset : Int) = data.rowidOffset := of_decide_eq_true hfirst
    obtain ⟨j, -, hj⟩ := List.mem_filterMap.1 (List.mem_of_find?_eq_some hfound)
    have hoffset := h.offsets i data hdata
    have hoffset' := h.offsets j data' hj
    have hi := h.lt hdata
    have hj' := h.lt hj
    have hfew := h.few
    rw [maxVdataNumber] at hfew
    have hij : i = j := by omega
    subst hij
    rw [hdata] at hj
    exact hj.symm

theorem SimulatesWith.valueOfRowid (h : SimulatesWith produce s t start read)
    (hdata : s.table.filtered[i]? = some data) {row col : Nat} (hrow : row < read i)
    (hcol : col < ncols) :
    s.table.valueOfRowid (((row : Int) + data.rowidOffset * 2 ^ 32) % 2 ^ 64) col =
      modelValue produce data.args row col := by
  have hfits := h.data i data hdata
  have hsmall := data.model.small
  have hloaded := hfits.loaded.1
  have hoffset := h.offsets i data hdata
  have hlt : data.rowidOffset < 2 ^ 32 := by
    rw [hoffset]
    exact Nat.mod_lt _ (by decide)
  have hhigh : ((row : Int) + data.rowidOffset * 2 ^ 32) % 2 ^ 64 / 2 ^ 32 % 2 ^ 32 =
      data.rowidOffset := by omega
  have hlow : VirtualTable.rowOfRowid (((row : Int) + data.rowidOffset * 2 ^ 32) % 2 ^ 64) =
      row := by
    have hmod : ((row : Int) + data.rowidOffset * 2 ^ 32) % 2 ^ 64 % 2 ^ 32 = row := by omega
    rw [VirtualTable.rowOfRowid]
    simp only [hmod]
    rw [if_pos (by omega)]
  have hne : ¬ ncols ≤ col := by omega
  rw [VirtualTable.valueOfRowid, if_neg hne]
  simp only [hhigh, h.find_offset hdata, hlow]
  rw [dataValue_loaded hfits.loaded.2 hrow hcol, modelValue, hfits.produced]
  rfl

variable [DecidableEq A]

theorem SimulatesWith.reuse_eq (h : SimulatesWith produce s t start read)
    (hdata : s.table.filtered[i]? = some data) : s.table.reuse data.args = some i := by
  have hfits := h.data i data hdata
  cases hfound : s.table.reuse data.args with
  | none =>
    have hnone := List.find?_eq_none.1 hfound i (h.mem_context hdata)
    simp [hdata, hfits.reuseable] at hnone
  | some j =>
    have hsome := List.find?_some hfound
    cases hdata' : s.table.filtered[j]? with
    | none => simp [hdata'] at hsome
    | some data' =>
      simp only [hdata', Bool.and_eq_true, decide_eq_true_eq] at hsome
      rw [h.index_inj hdata hdata' hsome.2.symm]

theorem SimulatesWith.reuse_none (h : SimulatesWith produce s t start read) {args : A}
    (hargs : args ∉ t.made) : s.table.reuse args = none := by
  apply List.find?_eq_none.2
  intro i _
  cases hdata : s.table.filtered[i]? with
  | none => simp
  | some data =>
    have hmem : data.args ∈ t.made := List.mem_of_getElem? (h.made_get hdata)
    have hne : data.args ≠ args := by
      rintro rfl
      exact hargs hmem
    simp [hne]

end Lookup

section Moves

variable {start : Nat} {read : Nat → Nat} {i c p : Nat} {data data' : VirtualFilteredData A V ncols}

theorem getElem?_setData {table : VirtualTable A V ncols} (hdata : table.filtered[i]? = some data)
    (j : Nat) : (table.setData i data').filtered[j]? =
      if j = i then some data' else table.filtered[j]? := by
  have hlt := (List.getElem?_eq_some_iff.1 hdata).1
  rw [VirtualTable.setData, List.getElem?_set]
  by_cases hji : j = i
  · rw [if_pos hji, if_pos hji.symm, if_pos (hji ▸ hlt)]
  · rw [if_neg hji, if_neg (Ne.symm hji)]

theorem Within.mono {m m' : Nat} (h : Within data m p) (hmodel : data'.model = data.model)
    (hm : m ≤ m') (hloaded : Loaded data' m') (hiter : data.iter = none → data'.iter = none) :
    Within data' m' p := by
  rcases h with hlt | ⟨hnone, hpm, hend⟩
  · exact .inl (by omega)
  · have hle := hloaded.1
    rw [hmodel] at hle
    have hm' : m' = m := by omega
    rw [hm']
    exact .inr ⟨hiter hnone, hpm, by rw [hmodel]; exact hend⟩

theorem SimulatesWith.replace (h : SimulatesWith produce s t start read)
    (hdata : s.table.filtered[i]? = some data) {m : Nat} {failed : List A} {cursor : VirtualCursor}
    {cursors : Nat → Option (A × Nat)} (hargs : data'.args = data.args)
    (hmodel : data'.model = data.model) (hoffset : data'.rowidOffset = data.rowidOffset)
    (hm : read i ≤ m) (hfits : DataFits produce failed data' m)
    (hiter : data.iter = none → data'.iter = none) (hfailed : ∀ args ∈ t.failed, args ∈ failed)
    (hothers : ∀ c', c' ≠ c → cursors c' = t.cursors c')
    (hcursor : ∀ args row, cursors c = some (args, row) →
      args = data.args ∧ cursor = { data := some i, row := row } ∧ Within data' m row) :
    SimulatesWith produce { s with table := (s.table.setData i data').setCursor c cursor }
      { t with failed, cursors } start (fun j => if j = i then m else read j) := by
  have hget := fun j => @getElem?_setData A V ncols i data data' s.table hdata j
  have hlt := (List.getElem?_eq_some_iff.1 hdata).1
  constructor
  · have hset : (s.table.filtered.set i data').map (·.args) = s.table.filtered.map (·.args) := by
      rw [List.map_set, hargs]
      apply List.ext_getElem?
      intro j
      rw [List.getElem?_set]
      split
      · next hij =>
        subst hij
        rw [List.getElem?_map, hdata, List.length_map, if_pos hlt]
        rfl
      · rfl
    exact hset.trans h.args
  · exact h.nodup
  · exact h.few
  · exact h.context
  · exact h.offset
  · intro j other hother
    have hother' : (if j = i then some data' else s.table.filtered[j]?) = some other :=
      (hget j).symm.trans hother
    split at hother'
    · next hji =>
      obtain rfl := Option.some.inj hother'
      rw [hoffset, hji]
      exact h.offsets i data hdata
    · exact h.offsets j other hother'
  · intro j other hother
    have hother' : (if j = i then some data' else s.table.filtered[j]?) = some other :=
      (hget j).symm.trans hother
    by_cases hji : j = i
    · rw [if_pos hji] at hother' ⊢
      obtain rfl := Option.some.inj hother'
      exact hfits
    · rw [if_neg hji] at hother' ⊢
      have hold := h.data j other hother'
      exact ⟨hold.produced, hold.reuseable, hold.loaded,
        fun hnot => hold.reads fun hmem => hnot (hfailed _ hmem)⟩
  · intro c' args row hrow
    by_cases hc : c' = c
    · subst hc
      obtain ⟨rfl, hcur, hwithin⟩ := hcursor args row hrow
      refine ⟨i, data', ?_, ?_, hargs, ?_⟩
      · rw [← hcur]
        exact if_pos rfl
      · exact (hget i).trans (if_pos rfl)
      · rw [if_pos rfl]
        exact hwithin
    · have hrow' : cursors c' = some (args, row) := hrow
      rw [hothers c' hc] at hrow'
      obtain ⟨j, other, hcur, hother, hsame, hwithin⟩ := h.cursors c' args row hrow'
      have hcur' : ((s.table.setData i data').setCursor c cursor).cursors c' =
          { data := some j, row := row } := (if_neg hc).trans hcur
      by_cases hji : j = i
      · subst hji
        obtain rfl := Option.some.inj (hdata.symm.trans hother)
        refine ⟨j, data', hcur', (hget j).trans (if_pos rfl), hargs.trans hsame, ?_⟩
        rw [if_pos rfl]
        exact hwithin.mono hmodel hm hfits.loaded hiter
      · refine ⟨j, other, hcur', (hget j).trans ((if_neg hji).trans hother), hsame, ?_⟩
        rw [if_neg hji]
        exact hwithin
  · exact h.kept
  · intro k args row hrow
    obtain ⟨j, other, hother, hsame, hread, hrowid⟩ := h.rowids k args row hrow
    by_cases hji : j = i
    · subst hji
      obtain rfl := Option.some.inj (hdata.symm.trans hother)
      refine ⟨j, data', (hget j).trans (if_pos rfl), hargs.trans hsame, ?_, ?_⟩
      · rw [if_pos rfl]
        omega
      · rw [hoffset]
        exact hrowid
    · refine ⟨j, other, (hget j).trans ((if_neg hji).trans hother), hsame, ?_, hrowid⟩
      rw [if_neg hji]
      exact hread

theorem SimulatesWith.move (h : SimulatesWith produce s t start read)
    (hdata : s.table.filtered[i]? = some data) (hnot : data.args ∉ t.failed) (hp : p ≤ read i)
    {table : VirtualTable A V ncols}
    (htable : table = s.table.setCursor c { data := some i, row := (p : Int) - 1 }) :
    if data.model.raises p then
      (table.virtualNext c).1 = .error ∧ ∀ cursors : Nat → Option (A × Nat),
        (∀ c', c' ≠ c → cursors c' = t.cursors c') →
        (∀ args row, cursors c = some (args, row) → args = data.args ∧ row + 1 = p) →
        Simulates produce { s with table := (table.virtualNext c).2 }
          { t with failed := data.args :: t.failed, cursors }
    else
      (table.virtualNext c).1 = .ok ∧
        Simulates produce { s with table := (table.virtualNext c).2 }
          (t.setCursor c (some (data.args, p))) := by
  have hfits := h.data i data hdata
  have hend : p ≤ data.model.rows.length := Nat.le_trans hp hfits.loaded.1
  have hspec := moveIter_spec hfits.loaded (hfits.reads hnot) hp hend
  have hnext : table.virtualNext c =
      ((VirtualTable.moveIter data p).1,
        (s.table.setData i (VirtualTable.moveIter data p).2.2).setCursor c
          { data := some i, row := (VirtualTable.moveIter data p).2.1 }) := by
    have hcursor : table.cursors c = { data := some i, row := (p : Int) - 1 } := by
      rw [htable]
      exact if_pos rfl
    have hfiltered : table.filtered[i]? = some data := by
      rw [htable]
      exact hdata
    have hrow : (p : Int) - 1 + 1 = p := by omega
    rw [VirtualTable.virtualNext, hcursor]
    simp only [Option.bind_some, hfiltered, Option.map_some, hrow]
    have hset : ∀ (d : VirtualFilteredData A V ncols) (cur cur' : VirtualCursor),
        ((s.table.setCursor c cur).setData i d).setCursor c cur' =
          (s.table.setData i d).setCursor c cur' := by
      intro d cur cur'
      rw [VirtualTable.setCursor, VirtualTable.setCursor, VirtualTable.setCursor]
      congr 1
      funext c'
      split
      · rfl
      · next hc => exact if_neg hc
    rw [htable, hset]
  cases hraises : data.model.raises p with
  | true =>
    rw [hraises, if_pos rfl] at hspec
    rw [if_pos rfl]
    obtain ⟨data', hmove, hdata'⟩ := hspec
    rw [hnext, hmove]
    refine ⟨rfl, fun cursors hothers hcursor => ?_⟩
    refine ⟨start, _, h.replace hdata (by rw [hdata']) (by rw [hdata']) (by rw [hdata'])
      (Nat.le_refl (read i)) ⟨?_, ?_, ?_, ?_⟩ (fun _ => by rw [hdata'])
      (fun args hargs => List.mem_cons_of_mem data.args hargs) hothers ?_⟩
    · rw [hdata']
      exact hfits.produced
    · rw [hdata']
      exact hfits.reuseable
    · rw [hdata']
      exact hfits.loaded
    · intro hnot'
      rw [hdata'] at hnot'
      exact absurd (List.mem_cons_self ..) hnot'
    · intro args row hrow
      obtain ⟨rfl, hrow'⟩ := hcursor args row hrow
      refine ⟨rfl, ?_, .inl (by omega)⟩
      have hcast : (p : Int) - 1 = row := by omega
      rw [hcast]
  | false =>
    rw [hraises, if_neg Bool.false_ne_true] at hspec
    rw [if_neg Bool.false_ne_true]
    obtain ⟨data', m', hmove, hargs, hmodel, hoffset, hreuse, hm, hloaded, hreads, hwithin,
      hiter⟩ := hspec
    rw [hnext, hmove]
    refine ⟨rfl, start, _, h.replace hdata hargs hmodel hoffset hm
      ⟨?_, ?_, hloaded, fun _ => hreads⟩ hiter (fun args hargs => hargs)
      (fun c' hc => if_neg hc) ?_⟩
    · rw [hargs, hmodel]
      exact hfits.produced
    · rw [hreuse]
      exact hfits.reuseable
    · intro args row hrow
      have hrow' : (some (data.args, p) : Option (A × Nat)) = some (args, row) :=
        (if_pos rfl).symm.trans hrow
      obtain ⟨rfl, rfl⟩ := Prod.mk.inj (Option.some.inj hrow')
      exact ⟨rfl, rfl, hwithin⟩

end Moves

section Calls

variable {start : Nat} {read : Nat → Nat}

section Add

variable [DecidableEq A] {args : A} {model : ScannedModel V ncols}

theorem make_of_mem (h : args ∈ t.made) : t.make args = t := by
  rw [ScanState.make, if_pos h]

theorem SimulatesWith.add (h : SimulatesWith produce s t start read) (hargs : args ∉ t.made)
    (hfew : t.made.length < maxVdataNumber) (hproduce : produce args = some model) :
    SimulatesWith produce { s with table := s.table.addData args model } (t.make args) start
      (fun j => if j = t.made.length then 0 else read j) := by
  have hmade : (t.make args).made = t.made ++ [args] := if_neg hargs
  have hlength := h.length
  have hold {j : Nat} {data : VirtualFilteredData A V ncols}
      (hdata : s.table.filtered[j]? = some data) :
      (s.table.addData args model).filtered[j]? = some data ∧ j ≠ t.made.length := by
    have hlt := (List.getElem?_eq_some_iff.1 hdata).1
    refine ⟨(List.getElem?_append_left hlt).trans hdata, by omega⟩
  have hnew {j : Nat} {data : VirtualFilteredData A V ncols}
      (hdata : (s.table.addData args model).filtered[j]? = some data) :
      s.table.filtered[j]? = some data ∨ j = t.made.length ∧
        data = { args, model, iter := some (-1), valuesArray := [], nrows := -1,
                 rowidOffset := s.table.rowsOffset, reuseable := true } := by
    have hdata' : (s.table.filtered ++ [_])[j]? = some data := hdata
    rcases Nat.lt_or_ge j s.table.filtered.length with hlt | hge
    · rw [List.getElem?_append_left hlt] at hdata'
      exact .inl hdata'
    · rw [List.getElem?_append_right hge] at hdata'
      rcases Nat.eq_or_lt_of_le hge with heq | hgt
      · rw [← heq, Nat.sub_self] at hdata'
        exact .inr ⟨by omega, (Option.some.inj hdata').symm⟩
      · rw [List.getElem?_eq_none (by simp only [List.length_singleton]; omega)] at hdata'
        cases hdata'
  constructor
  · rw [hmade, ← h.args]
    exact List.map_append
  · rw [hmade]
    apply List.nodup_append.2
    refine ⟨h.nodup, List.nodup_singleton args, ?_⟩
    intro a ha b hb
    rw [List.mem_singleton.1 hb]
    rintro rfl
    exact hargs ha
  · rw [hmade, List.length_append, List.length_singleton]
    omega
  · have hshort : ¬ (s.table.filtered.length :: s.table.contextData).length > maxVdataNumber := by
      rw [List.length_cons, h.context, List.length_reverse, List.length_range]
      omega
    have hcontext : (s.table.addData args model).contextData =
        s.table.filtered.length :: s.table.contextData := if_neg hshort
    rw [hmade, List.length_append, List.length_singleton, List.range_succ, List.reverse_append,
      ← h.context, ← hlength]
    exact hcontext
  · have hoffset := h.offset
    rw [hmade, List.length_append, List.length_singleton]
    change (s.table.rowsOffset + 1) % 2 ^ 32 = _
    omega
  · intro j data hdata
    rcases hnew hdata with hdata | ⟨rfl, rfl⟩
    · exact h.offsets j data hdata
    · exact h.offset
  · intro j data hdata
    rcases hnew hdata with hdata | ⟨rfl, rfl⟩
    · rw [if_neg (hold hdata).2]
      exact h.data j data hdata
    · rw [if_pos rfl]
      exact ⟨hproduce, rfl, ⟨Nat.zero_le _, rfl⟩, fun _ => .going rfl fun k hk => by omega⟩
  · intro c args' row hrow
    obtain ⟨j, data, hcursor, hdata, hsame, hwithin⟩ := h.cursors c args' row hrow
    refine ⟨j, data, hcursor, (hold hdata).1, hsame, ?_⟩
    rw [if_neg (hold hdata).2]
    exact hwithin
  · exact h.kept
  · intro k args' row hrow
    obtain ⟨j, data, hdata, hsame, hread, hrowid⟩ := h.rowids k args' row hrow
    refine ⟨j, data, (hold hdata).1, hsame, ?_, hrowid⟩
    rw [if_neg (hold hdata).2]
    exact hread

omit [DecidableEq A] in
theorem SimulatesWith.filter_found (h : SimulatesWith produce s t start read) {i c : Nat}
    {data : VirtualFilteredData A V ncols} (hdata : s.table.filtered[i]? = some data)
    (hnot : data.args ∉ t.failed) {table : VirtualTable A V ncols}
    (htable : table = s.table.setCursor c { data := some i, row := -1 }) :
    let spec : VirtualAnswer V × ScanState A :=
      if data.model.raises 0 then
        (.code .error, (t.fail data.args).setCursor c none)
      else (.code .ok, t.setCursor c (some (data.args, 0)))
    .code (table.virtualNext c).1 = spec.1 ∧
      Simulates produce { s with table := (table.virtualNext c).2 } spec.2 := by
  have hmove := @SimulatesWith.move A V ncols produce s t start read i c 0 data h hdata hnot
    (Nat.zero_le _) table htable
  cases hraises : data.model.raises 0 with
  | true =>
    rw [hraises, if_pos rfl] at hmove
    refine ⟨congrArg _ hmove.1, hmove.2 _ (fun c' hc => if_neg hc) ?_⟩
    intro args row hrow
    have hnone : (none : Option (A × Nat)) = some (args, row) := (if_pos rfl).symm.trans hrow
    cases hnone
  | false =>
    rw [hraises, if_neg Bool.false_ne_true] at hmove
    exact ⟨congrArg _ hmove.1, hmove.2⟩

theorem simulates_filter (h : Simulates produce s t) {c : Nat}
    (hfits : ScanFits t (.filter c args)) :
    (s.step produce (.filter c args)).1 = (scanStep produce t (.filter c args)).1 ∧
      Simulates produce (s.step produce (.filter c args)).2
        (scanStep produce t (.filter c args)).2 := by
  obtain ⟨start, read, h⟩ := h
  obtain ⟨hnot, hroom⟩ := hfits
  by_cases hmade : args ∈ t.made
  · obtain ⟨i, data, hdata, rfl⟩ := h.exists_data hmade
    have hresult : s.table.virtualFilter produce c data.args =
        (s.table.setCursor c { data := some i, row := -1 }).virtualNext c := by
      rw [VirtualTable.virtualFilter, h.reuse_eq hdata]
    have hfound := @SimulatesWith.filter_found A V ncols produce s t start read h i c data hdata
      hnot _ rfl
    rw [VirtualSession.step, scanStep, (h.data i data hdata).produced, hresult]
    simp only [make_of_mem hmade]
    exact hfound
  · have hreuse := h.reuse_none hmade
    cases hproduce : produce args with
    | none =>
      have hresult : s.table.virtualFilter produce c args = (.error, s.table) := by
        rw [VirtualTable.virtualFilter, hreuse]
        simp only [hproduce]
      rw [VirtualSession.step, scanStep, hproduce, hresult]
      exact ⟨rfl, start, read, h⟩
    | some model =>
      have hadd := h.add hmade (hroom.resolve_left hmade) hproduce
      have hresult : s.table.virtualFilter produce c args =
          ((s.table.addData args model).setCursor c
            { data := some s.table.filtered.length, row := -1 }).virtualNext c := by
        rw [VirtualTable.virtualFilter, hreuse]
        simp only [hproduce]
      have hdata : (s.table.addData args model).filtered[s.table.filtered.length]? =
          some { args, model, iter := some (-1), valuesArray := [], nrows := -1,
                 rowidOffset := s.table.rowsOffset, reuseable := true } := by
        exact (List.getElem?_append_right (Nat.le_refl _)).trans (by rw [Nat.sub_self]; rfl)
      have hfound := @SimulatesWith.filter_found A V ncols produce _ _ start _ hadd _ c _ hdata
        hnot _ rfl
      rw [VirtualSession.step, scanStep, hproduce, hresult]
      exact hfound

end Add

variable [DecidableEq A] {c : Nat}

omit [DecidableEq A] in
theorem modelRows_eq {data : VirtualFilteredData A V ncols}
    (h : produce data.args = some data.model) :
    modelRows produce data.args = data.model.rows.length := by
  rw [modelRows, h]

omit [DecidableEq A] in
theorem Within.lt {data : VirtualFilteredData A V ncols} {m row : Nat} (h : Within data m row)
    (hproduce : produce data.args = some data.model) (hrow : row < modelRows produce data.args) :
    row < m := by
  rw [modelRows_eq hproduce] at hrow
  rcases h with hlt | ⟨-, hpm, hend⟩
  · exact hlt
  · omega

theorem simulates_next (h : Simulates produce s t) (hallows : SqliteAllows produce t (.next c))
    (hfits : ScanFits t (.next c)) :
    (s.step produce (.next c)).1 = (scanStep produce t (.next c)).1 ∧
      Simulates produce (s.step produce (.next c)).2 (scanStep produce t (.next c)).2 := by
  obtain ⟨start, read, h⟩ := h
  obtain ⟨args, row, hcursor, hrow⟩ := hallows
  have hnot := hfits args row hcursor
  obtain ⟨i, data, htable, hdata, rfl, hwithin⟩ := h.cursors c args row hcursor
  have hproduced := (h.data i data hdata).produced
  have hread := hwithin.lt hproduced hrow
  have hself : s.table = s.table.setCursor c { data := some i, row := ((row + 1 : Nat) : Int) - 1 } := by
    have hcast : ((row + 1 : Nat) : Int) - 1 = row := by omega
    rw [hcast, VirtualTable.setCursor]
    have hcursors : (fun c' => if c' = c then ({ data := some i, row := row } : VirtualCursor)
        else s.table.cursors c') = s.table.cursors := by
      funext c'
      split
      · next hc => rw [hc, htable]
      · rfl
    rw [hcursors]
  have hmove := @SimulatesWith.move A V ncols produce s t start read i c (row + 1) data h hdata
    hnot hread s.table hself
  rw [VirtualSession.step, scanStep, hcursor]
  simp only [hproduced]
  cases hraises : data.model.raises (row + 1) with
  | true =>
    rw [hraises, if_pos rfl] at hmove
    refine ⟨congrArg _ hmove.1, hmove.2 t.cursors (fun _ _ => rfl) ?_⟩
    intro args' row' hrow'
    obtain ⟨rfl, rfl⟩ := Prod.mk.inj (Option.some.inj (hcursor.symm.trans hrow'))
    exact ⟨rfl, rfl⟩
  | false =>
    rw [hraises, if_neg Bool.false_ne_true] at hmove
    exact ⟨congrArg _ hmove.1, hmove.2⟩

omit [DecidableEq A] in
theorem cursorData_eq {i row : Nat} {data : VirtualFilteredData A V ncols}
    (htable : s.table.cursors c = { data := some i, row := row })
    (hdata : s.table.filtered[i]? = some data) :
    VirtualSession.cursorData s.table c = some data := by
  rw [VirtualSession.cursorData, htable]
  exact hdata

theorem simulates_eof (h : Simulates produce s t) (hallows : SqliteAllows produce t (.eof c))
    (hfits : ScanFits t (.eof c)) :
    (s.step produce (.eof c)).1 = (scanStep produce t (.eof c)).1 ∧
      Simulates produce (s.step produce (.eof c)).2 (scanStep produce t (.eof c)).2 := by
  have h' := h
  obtain ⟨start, read, h⟩ := h
  obtain ⟨args, row, hcursor⟩ := hallows
  have hnot := hfits args row hcursor
  obtain ⟨i, data, htable, hdata, rfl, hwithin⟩ := h.cursors c args row hcursor
  have hdataFits := h.data i data hdata
  have hend : VirtualTable.virtualEof data (s.table.cursors c) =
      decide (modelRows produce data.args ≤ row) := by
    have hle := hdataFits.loaded.1
    rw [modelRows_eq hdataFits.produced, htable, VirtualTable.virtualEof]
    cases hdataFits.reads hnot with
    | going hiter _ =>
      rcases hwithin with hlt | ⟨hnone, -, -⟩
      · simp only [hiter]
        symm
        apply decide_eq_false
        omega
      · rw [hiter] at hnone
        cases hnone
    | done hiter hm hnrows _ =>
      simp only [hiter, hnrows, ← hm, Int.ofNat_le]
  rw [VirtualSession.step, scanStep, hcursor, cursorData_eq htable hdata]
  exact ⟨congrArg _ hend, h'⟩

theorem simulates_column {i : Nat} (h : Simulates produce s t)
    (hallows : SqliteAllows produce t (.column c i)) :
    (s.step produce (.column c i)).1 = (scanStep produce t (.column c i)).1 ∧
      Simulates produce (s.step produce (.column c i)).2 (scanStep produce t (.column c i)).2 := by
  have h' := h
  obtain ⟨start, read, h⟩ := h
  obtain ⟨args, row, hcursor, hrow⟩ := hallows
  obtain ⟨j, data, htable, hdata, rfl, hwithin⟩ := h.cursors c args row hcursor
  have hdataFits := h.data j data hdata
  have hread := hwithin.lt hdataFits.produced hrow
  rw [VirtualSession.step, scanStep, hcursor, cursorData_eq htable hdata]
  simp only [htable]
  split
  · exact ⟨rfl, h'⟩
  · split
    · exact ⟨rfl, h'⟩
    · next hcol =>
      have hvalue : VirtualTable.dataValue data row i = modelValue produce data.args row i := by
        rw [dataValue_loaded hdataFits.loaded.2 hread (by omega), modelValue, hdataFits.produced]
        rfl
      exact ⟨congrArg VirtualAnswer.value hvalue, h'⟩

theorem simulates_rowid (h : Simulates produce s t) (hallows : SqliteAllows produce t (.rowid c)) :
    (s.step produce (.rowid c)).1 = (scanStep produce t (.rowid c)).1 ∧
      Simulates produce (s.step produce (.rowid c)).2 (scanStep produce t (.rowid c)).2 := by
  obtain ⟨start, read, h⟩ := h
  obtain ⟨args, row, hcursor, hrow⟩ := hallows
  obtain ⟨i, data, htable, hdata, rfl, hwithin⟩ := h.cursors c args row hcursor
  have hread := hwithin.lt (h.data i data hdata).produced hrow
  rw [VirtualSession.step, scanStep, hcursor, cursorData_eq htable hdata]
  refine ⟨rfl, start, read, ?_⟩
  refine { h with kept := ?_, rowids := ?_ }
  · simp only [List.length_append, List.length_singleton, h.kept]
  · intro k args' row' hkept
    rcases Nat.lt_or_ge k t.kept.length with hlt | hge
    · rw [List.getElem?_append_left hlt] at hkept
      obtain ⟨j, other, hother, hsame, hread', hrowid⟩ := h.rowids k args' row' hkept
      refine ⟨j, other, hother, hsame, hread', ?_⟩
      rw [List.getElem?_append_left (by rw [h.kept]; exact hlt)]
      exact hrowid
    · rw [List.getElem?_append_right hge] at hkept
      have hk : k = t.kept.length := by
        rcases Nat.eq_or_lt_of_le hge with heq | hgt
        · exact heq.symm
        · rw [List.getElem?_eq_none (by simp only [List.length_singleton]; omega)] at hkept
          cases hkept
      rw [hk, Nat.sub_self] at hkept
      obtain ⟨rfl, rfl⟩ := Prod.mk.inj (Option.some.inj hkept)
      refine ⟨i, data, hdata, rfl, hread, ?_⟩
      rw [hk, ← h.kept, List.getElem?_append_right (Nat.le_refl _), Nat.sub_self, htable]
      rfl

theorem simulates_find {k i : Nat} (h : Simulates produce s t)
    (hallows : SqliteAllows produce t (.find k i)) :
    (s.step produce (.find k i)).1 = (scanStep produce t (.find k i)).1 ∧
      Simulates produce (s.step produce (.find k i)).2 (scanStep produce t (.find k i)).2 := by
  have h' := h
  obtain ⟨start, read, h⟩ := h
  obtain ⟨hk, hcol⟩ := hallows
  obtain ⟨⟨args, row⟩, hkept⟩ : ∃ cursor, t.kept[k]? = some cursor :=
    ⟨_, List.getElem?_eq_getElem hk⟩
  obtain ⟨j, data, hdata, rfl, hread, hrowid⟩ := h.rowids k args row hkept
  rw [VirtualSession.step, scanStep, hkept, hrowid]
  exact ⟨congrArg _ (h.valueOfRowid hdata hread hcol), h'⟩

theorem simulates_step : AnswerMachine.AlikeStep (VirtualSession.step produce) (scanStep produce)
    (fun t call => SqliteAllows produce t call ∧ ScanFits t call) (Simulates produce) := by
  intro s t call hsim hallowed
  cases call with
  | filter c args => exact simulates_filter hsim hallowed.2
  | next c => exact simulates_next hsim hallowed.1 hallowed.2
  | eof c => exact simulates_eof hsim hallowed.1 hallowed.2
  | column c i => exact simulates_column hsim hallowed.1
  | rowid c => exact simulates_rowid hsim hallowed.1
  | find k i => exact simulates_find hsim hallowed.1

end Calls

section Run

variable [DecidableEq A]

/-- A table at the start of a statement: nothing has been scanned, and the next offset is of the type
`guint32`. -/
def newSession (A V : Type) (ncols start : Nat) : VirtualSession A V ncols where
  table :=
    { rowsOffset := start % 2 ^ 32, filtered := [], contextData := []
      cursors := fun _ => { data := none, row := 0 } }
  rowids := []

def noScans (A : Type) : ScanState A where
  cursors := fun _ => none
  made := []
  failed := []
  kept := []

omit [DecidableEq A] in
theorem simulates_new (start : Nat) :
    Simulates produce (newSession A V ncols start) (noScans A) := by
  refine ⟨start, fun _ => 0, ?_⟩
  constructor
  · rfl
  · exact List.nodup_nil
  · exact Nat.zero_le _
  · rfl
  · rfl
  · intro i data hdata
    cases hdata
  · intro i data hdata
    cases hdata
  · intro c args row hcursor
    cases hcursor
  · rfl
  · intro k args row hrow
    cases hrow

/-- Each cursor is at its own row of the model for its arguments, whatever the others do, and row
identifiers lead back to their values. -/
theorem scans_answered (start : Nat) (calls : List (VirtualCall A))
    (hallowed : AnswerMachine.AllAllowed (scanStep produce)
      (fun t call => SqliteAllows produce t call ∧ ScanFits t call) (noScans A) calls) :
    AnswerMachine.answers (VirtualSession.step produce) (newSession A V ncols start) calls =
      AnswerMachine.answers (scanStep produce) (noScans A) calls :=
  AnswerMachine.answers_eq simulates_step (simulates_new start) hallowed

def twoRows (exceptionAt : Option Nat) : Unit → Option (ScannedModel Nat 1) := fun _ =>
  some { rows := [[10], [20]], exceptionAt, width := by decide, small := by decide }

/-- Two cursors share the data, and the second one is behind. -/
theorem scans_answered_two :
    AnswerMachine.answers (VirtualSession.step (twoRows none)) (newSession Unit Nat 1 7)
        [.filter 0 (), .filter 1 (), .next 0, .rowid 0, .next 0, .eof 0, .column 1 0, .find 0 0] =
      AnswerMachine.answers (scanStep (twoRows none)) (noScans Unit)
        [.filter 0 (), .filter 1 (), .next 0, .rowid 0, .next 0, .eof 0, .column 1 0, .find 0 0] := by
  have hnone (args : Unit) : args ∉ ([] : List Unit) := List.not_mem_nil
  refine scans_answered 7 _ ⟨⟨trivial, hnone (), .inr (by decide)⟩,
    ⟨trivial, hnone (), .inl (List.mem_cons_self ..)⟩,
    ⟨⟨(), 0, rfl, by decide⟩, fun args _ _ => hnone args⟩,
    ⟨⟨(), 1, rfl, by decide⟩, trivial⟩,
    ⟨⟨(), 1, rfl, by decide⟩, fun args _ _ => hnone args⟩,
    ⟨⟨(), 2, rfl⟩, fun args _ _ => hnone args⟩,
    ⟨⟨(), 0, rfl, by decide⟩, trivial⟩, ⟨⟨by decide, by decide⟩, trivial⟩, trivial⟩

/-- After a scan which ended in an exception, another cursor is told that there are no rows. -/
theorem failed_scan_served :
    AnswerMachine.AllAllowed (scanStep (twoRows (some 1))) (SqliteAllows (twoRows (some 1)))
        (noScans Unit) [.filter 0 (), .next 0, .filter 1 (), .eof 1] ∧
      AnswerMachine.answers (VirtualSession.step (twoRows (some 1))) (newSession Unit Nat 1 0)
          [.filter 0 (), .next 0, .filter 1 (), .eof 1] ≠
        AnswerMachine.answers (scanStep (twoRows (some 1))) (noScans Unit)
          [.filter 0 (), .next 0, .filter 1 (), .eof 1] := by
  refine ⟨⟨trivial, ⟨(), 0, rfl, by decide⟩, trivial, ⟨(), 0, rfl⟩, trivial⟩, ?_⟩
  decide

end Run

end LibGda
