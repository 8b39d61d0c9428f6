import LibGda.RegistryEdits

/-! The links between the registries are kept by every edit which creates no
change for no row and drops none from one list alone, and the registries agree
when no renumbering takes over the entry of another change. -/

namespace LibGda

open KeyTable

variable {D : Type} {rs : RowModifs D}

namespace RowModifs

theorem keyed_sound (h : Linked rs) : Sound (0 ≤ ·) rs.keyed rs.allModifs :=
  h.modified

theorem renumber_keyed (rs : RowModifs D) (row delta : Int) : (rs.renumber row delta).keyed =
    rs.allModifs.foldl (rekey (fun k => row < k) fun k => k + delta) rs.keyed :=
  foldl_renumberStep_keyed row delta rs.allModifs rs

theorem mem_erase_of_row_ne (rs : RowModifs D) {ptrs : List RowModifPtr} {ptr other : RowModifPtr}
    (hm : other ∈ ptrs) (hne : rs.modelRow other ≠ rs.modelRow ptr) : other ∈ ptrs.erase ptr :=
  (List.mem_erase_of_ne fun he => hne (congrArg rs.modelRow he)).2 hm

end RowModifs

namespace Linked

theorem bound_prepend (h : Linked rs) {rm : RowModif D} (hrow : -1 ≤ rm.modelRow) :
    ∀ ptr ∈ rs.nextPtr :: rs.pool, -1 ≤ (rs.prepend rm).modelRow ptr := by
  intro ptr hp
  rcases List.mem_cons.1 hp with rfl | hp
  · have hself := rs.prepend_modelRow_self rm
    omega
  · have hlt := h.fresh ptr hp
    exact le_of_le_of_eq (h.bound ptr hp) (rs.prepend_modelRow_of_ne rm (Nat.ne_of_lt hlt)).symm

theorem cachedModifs_prepend (h : Linked rs) {rm : RowModif D} :
    ∀ ptr ∈ rs.cachedModifs, 0 ≤ (rs.prepend rm).modelRow ptr := by
  intro ptr hp
  have hlt := h.fresh ptr (RowModifs.mem_pool.2 (Or.inr (Or.inl hp)))
  exact le_of_le_of_eq (h.cachedModifs ptr hp) (rs.prepend_modelRow_of_ne rm (Nat.ne_of_lt hlt)).symm

theorem modified_removed (h : Linked rs) {ptr other : RowModifPtr} {key : Int}
    (hk : hashRemove rs.modifyRows (rs.modelRow ptr) key = some other) :
    other ∈ rs.allModifs.erase ptr ∧ rs.modelRow other = key ∧ 0 ≤ key := by
  by_cases hkey : key = rs.modelRow ptr
  · simp [hashRemove, hkey] at hk
  · simp only [hashRemove, hkey, if_false] at hk
    obtain ⟨hm, hr, hpos⟩ := h.modified key other hk
    exact ⟨rs.mem_erase_of_row_ne hm (hr ▸ hkey), hr, hpos⟩

theorem addModified (h : Linked rs) {rm : RowModif D} (h0 : 0 ≤ rm.modelRow) :
    Linked (rs.addModified rm.modelRow rm) where
  toAllocated := (h.prepend rm).setTable _
  modified key ptr hk := by
    change hashInsert rs.modifyRows rm.modelRow rs.nextPtr key = some ptr at hk
    by_cases hkey : key = rm.modelRow
    · simp only [hashInsert, hkey, if_true, Option.some.injEq] at hk
      subst hk
      exact ⟨List.mem_cons_self, hkey ▸ rs.prepend_modelRow_self rm, hkey ▸ h0⟩
    · simp only [hashInsert, hkey, if_false] at hk
      obtain ⟨hm, hrow, hpos⟩ := h.modified key ptr hk
      have hlt := h.fresh ptr (RowModifs.mem_pool.2 (Or.inl hm))
      exact ⟨List.mem_cons_of_mem _ hm,
        (rs.prepend_modelRow_of_ne rm (Nat.ne_of_lt hlt)).trans hrow, hpos⟩
  added ptr hp := List.mem_cons_of_mem _ (h.added ptr hp)
  bound := h.bound_prepend (by omega)
  cachedModifs := h.cachedModifs_prepend

theorem addNew (h : Linked rs) {rm : RowModif D} (hrow : rm.modelRow = -1) :
    Linked (rs.addNew rm) where
  toAllocated := h.toAllocated.addNew hrow
  modified key ptr hk := by
    obtain ⟨hm, hr, hpos⟩ := h.modified key ptr hk
    have hlt := h.fresh ptr (RowModifs.mem_pool.2 (Or.inl hm))
    exact ⟨List.mem_cons_of_mem _ hm, (rs.prepend_modelRow_of_ne rm (Nat.ne_of_lt hlt)).trans hr, hpos⟩
  added ptr hp := by
    rcases List.mem_append.1 hp with hp | hp
    · exact List.mem_cons_of_mem _ (h.added ptr hp)
    · obtain rfl := List.mem_singleton.1 hp
      exact List.mem_cons_self
  bound := h.bound_prepend (by omega)
  cachedModifs := h.cachedModifs_prepend

theorem update (h : Linked rs) {ptr : RowModifPtr} {f : RowModif D → RowModif D}
    (hrow : (f (rs.memory ptr)).modelRow = (rs.memory ptr).modelRow) : Linked (rs.update ptr f) := by
  have hr := RowModifs.update_modelRow rs hrow
  refine ⟨h.toAllocated.update hrow, ?_, h.added, ?_, ?_⟩
  · intro key other hk
    rw [hr]
    exact h.modified key other hk
  · intro other hp
    rw [hr]
    exact h.bound other hp
  · intro other hp
    rw [hr]
    exact h.cachedModifs other hp

theorem removeModified (h : Linked rs) {ptr : RowModifPtr} (h0 : 0 ≤ rs.modelRow ptr) :
    Linked (rs.removeModified (rs.modelRow ptr) ptr) where
  toAllocated := h.toAllocated.removeModified _ _
  modified _ _ hk := h.modified_removed hk
  added other hp := by
    have hr := (h.newRow other hp).1
    exact rs.mem_erase_of_row_ne (h.added other hp) (by omega)
  bound other hp := h.bound other ((List.erase_sublist.append_right _).subset hp)
  cachedModifs := h.cachedModifs

theorem removeNew (h : Linked rs) {ptr : RowModifPtr} (hneg : rs.modelRow ptr < 0) :
    Linked (rs.removeNew ptr) where
  toAllocated := (h.toAllocated.eraseAll ptr).eraseNew ptr
  modified key other hk := by
    obtain ⟨hm, hr, hpos⟩ := h.modified key other hk
    exact ⟨rs.mem_erase_of_row_ne hm (by omega), hr, hpos⟩
  added other hp := by
    have hne : other ≠ ptr := fun he => (h.newNodup.not_mem_erase) (he ▸ hp)
    exact (List.mem_erase_of_ne hne).2 (h.added other (List.mem_of_mem_erase hp))
  bound other hp := h.bound other ((List.erase_sublist.append_right _).subset hp)
  cachedModifs := h.cachedModifs

theorem removeCommitted (h : Linked rs) (ptr : RowModifPtr) : Linked (rs.removeCommitted ptr) where
  toAllocated := ((h.toAllocated.eraseAll ptr).eraseNew ptr).setTable _
  modified _ _ hk := h.modified_removed hk
  added other hp := by
    have hne : other ≠ ptr := fun he => (h.newNodup.not_mem_erase) (he ▸ hp)
    exact (List.mem_erase_of_ne hne).2 (h.added other (List.mem_of_mem_erase hp))
  bound other hp := h.bound other ((List.erase_sublist.append_right _).subset hp)
  cachedModifs := h.cachedModifs

theorem destroyAt (h : Linked rs) (row : Int) : Linked (rs.destroyAt row) := by
  unfold RowModifs.destroyAt
  split
  case h_1 ptr hptr =>
    obtain ⟨-, hr, hpos⟩ := h.modified row ptr hptr
    subst hr
    exact h.removeModified hpos
  case h_2 => exact h

theorem renumber (h : Linked rs) (row : Nat) {delta : Int} (hd : -1 ≤ delta) :
    Linked (rs.renumber row delta) := by
  have hs := RowModifs.renumber_same rs row delta
  refine ⟨h.toAllocated.renumber row delta, ?_, ?_, ?_, ?_⟩
  · have hh : Sound (0 ≤ ·) (rs.renumber row delta).keyed rs.allModifs := by
      rw [RowModifs.renumber_keyed]
      exact (RowModifs.keyed_sound h).foldl_rekey (fun k hk => by omega) fun _ hw => hw
    intro key ptr hk
    rw [hs.allModifs]
    exact hh key ptr hk
  · simpa only [hs.allModifs, hs.newRows] using h.added
  · intro ptr hp
    have hb := h.bound ptr (by simpa only [RowModifs.pool, hs.allModifs, hs.cachedModifs,
      hs.cachedInserts] using hp)
    have hr := RowModifs.renumber_modelRow rs h.nodup_all row delta ptr
    simp only [RowModifs.modelRow] at hb ⊢
    rw [hr]
    split <;> omega
  · intro ptr hp
    rw [hs.cachedModifs] at hp
    rw [RowModifs.renumber_modelRow_of_not_mem rs h.nodup_all row delta
      (h.not_mem_all (Or.inl hp))]
    exact h.cachedModifs ptr hp

theorem clear (h : Linked rs) {table : Int → Option RowModifPtr}
    (htable : ∀ key ptr, table key ≠ some ptr) :
    Linked { rs with newRows := [], allModifs := [], modifyRows := table } where
  nodup := (List.nodup_append.1 h.nodup).2.1
  fresh ptr hp := h.fresh ptr (List.mem_append_right _ hp)
  newNodup := List.nodup_nil
  newRow := by simp
  cachedInserts := h.cachedInserts
  modified key ptr hk := absurd hk (htable key ptr)
  added := by simp
  bound ptr hp := h.bound ptr (List.mem_append_right _ hp)
  cachedModifs := h.cachedModifs

theorem migrate (h : Linked rs) : Linked rs.migrate where
  toAllocated := h.toAllocated.migrate
  modified key ptr hk := by cases hk
  added ptr hp := by cases hp
  bound ptr hp := h.bound ptr (rs.migrate_pool_perm.mem_iff.1 hp)
  cachedModifs ptr hp := by
    rcases List.mem_append.1 hp with hp | hp
    · obtain ⟨hm, hne⟩ := List.mem_filter.1 (List.mem_reverse.1 hp)
      have hb := h.bound ptr (RowModifs.mem_pool.2 (Or.inl hm))
      have hne' : rs.modelRow ptr ≠ -1 := by simpa [RowModifs.modelRow] using hne
      change 0 ≤ rs.modelRow ptr
      omega
    · exact h.cachedModifs ptr hp

theorem fetchInserts (h : Linked rs) (isMatch : RowModif D → Bool) :
    Linked (rs.fetchInserts isMatch) where
  toAllocated := h.toAllocated.fetchInserts isMatch
  modified key ptr hk := by
    obtain ⟨hm, hr⟩ := h.modified key ptr hk
    exact ⟨List.mem_append_right _ hm, hr⟩
  added ptr hp := by
    rcases List.mem_append.1 hp with hp | hp
    · exact List.mem_append_right _ (h.added ptr hp)
    · exact List.mem_append_left _ (List.mem_reverse.2 hp)
  bound ptr hp := h.bound ptr ((rs.fetchInserts_pool_perm isMatch).mem_iff.1 hp)
  cachedModifs := h.cachedModifs

theorem fetchModif_modelRow (rs : RowModifs D) (row : Int) {ptr other : RowModifPtr}
    (h : other ≠ ptr) : (rs.fetchModif row ptr).modelRow other = rs.modelRow other := by
  simp [RowModifs.fetchModif, RowModifs.modelRow, RowModifs.update, h]

theorem fetchModif_modelRow_self (rs : RowModifs D) (row : Int) (ptr : RowModifPtr) :
    (rs.fetchModif row ptr).modelRow ptr = row := by
  simp [RowModifs.fetchModif, RowModifs.modelRow, RowModifs.update]

theorem fetchModif (h : Linked rs) (row : Nat) {ptr : RowModifPtr} (hptr : ptr ∈ rs.cachedModifs) :
    Linked (rs.fetchModif row ptr) where
  toAllocated := h.toAllocated.fetchModif row hptr
  modified key other hk := by
    change hashInsert rs.modifyRows row ptr key = some other at hk
    by_cases hkey : key = row
    · simp only [hashInsert, hkey, if_true, Option.some.injEq] at hk
      subst hk
      exact ⟨List.mem_cons_self, hkey ▸ fetchModif_modelRow_self rs row ptr, by omega⟩
    · simp only [hashInsert, hkey, if_false] at hk
      obtain ⟨hm, hr, hpos⟩ := h.modified key other hk
      have hne : other ≠ ptr := fun he => h.not_mem_all (Or.inl hptr) (he ▸ hm)
      exact ⟨List.mem_cons_of_mem _ hm, (fetchModif_modelRow rs row hne).trans hr, hpos⟩
  added other hp := List.mem_cons_of_mem _ (h.added other hp)
  bound other hp := by
    by_cases hne : other = ptr
    · rw [hne, fetchModif_modelRow_self]
      omega
    · rw [fetchModif_modelRow rs row hne]
      exact h.bound other ((rs.fetchModif_pool_perm row hptr).mem_iff.1 hp)
  cachedModifs other hp := by
    by_cases hne : other = ptr
    · rw [hne, fetchModif_modelRow_self]
      omega
    · rw [fetchModif_modelRow rs row hne]
      exact h.cachedModifs other (List.mem_of_mem_erase hp)

theorem cleanCache (h : Linked rs) :
    Linked { rs with cachedModifs := [], cachedInserts := [] } where
  nodup := by simpa [RowModifs.pool] using h.nodup_all
  fresh ptr hp := h.fresh ptr (RowModifs.mem_pool.2 (Or.inl (by simpa [RowModifs.pool] using hp)))
  newNodup := h.newNodup
  newRow ptr hp := ⟨(h.newRow ptr hp).1, (h.newRow ptr hp).2.1, by simp, by simp⟩
  cachedInserts := by simp
  modified := h.modified
  added := h.added
  bound ptr hp := h.bound ptr (RowModifs.mem_pool.2 (Or.inl (by simpa [RowModifs.pool] using hp)))
  cachedModifs := by simp

theorem key_of_drop (h : Linked rs) {key : Int} {ptr : RowModifPtr}
    (hkey : (0 ≤ key ∧ rs.modifyRows key = some ptr) ∨ (0 ≤ key ∧ rs.modelRow ptr = key)) :
    rs.modelRow ptr = key ∧ 0 ≤ key := by
  rcases hkey with ⟨h0, hk⟩ | ⟨h0, hr⟩
  · exact ⟨(h.modified key ptr hk).2.1, h0⟩
  · exact ⟨hr, h0⟩

theorem edit {rules : EditRules D} (hstray : ¬ rules.stray) (horphan : ¬ rules.orphan)
    {ss : RowModifs D} (h : Linked rs) (he : Edit rules rs ss) : Linked ss := by
  cases he with
  | create hrow _ hkey =>
    subst hrow
    exact h.addModified (hkey.resolve_left hstray)
  | createNew hrow => exact h.addNew hrow
  | write hrow => exact h.update hrow
  | @dropModified key ptr f hrow _ hkey =>
    obtain ⟨hr, h0⟩ := h.key_of_drop (hkey.imp_right fun hk => hk.resolve_right horphan)
    have hu := RowModifs.update_modelRow rs hrow
    have h0' : 0 ≤ (rs.update ptr f).modelRow ptr := by
      rw [hu, hr]
      exact h0
    have hh := (h.update hrow).removeModified h0'
    rw [hu, hr] at hh
    exact hh
  | dropNew hreach hrow => exact h.removeNew hrow
  | rowInserted => exact h.renumber _ (by omega)
  | rowUpdated => exact h.destroyAt _
  | rowRemoved => exact (h.destroyAt _).renumber _ (by omega)
  | dropCommitted => exact h.removeCommitted _
  | cancelAll htable =>
    refine h.clear fun key ptr hk => ?_
    obtain ⟨hk, hno⟩ := htable key ptr hk
    obtain ⟨hm, hr, h0⟩ := h.modified key ptr hk
    exact hno ptr hm (by omega) hr
  | clearTable hall =>
    refine ⟨h.toAllocated.setTable _, fun _ _ hk => ?_, h.added, h.bound, h.cachedModifs⟩
    cases hk
  | migrate => exact h.migrate
  | fetchInserts => exact h.fetchInserts _
  | fetchModif _ hptr => exact h.fetchModif _ hptr
  | cleanCache => exact h.cleanCache

end Linked

namespace Complete

theorem represents (hl : Linked rs) (h : Complete rs) :
    Represents (0 ≤ ·) rs.keyed rs.allModifs := fun key ptr =>
  ⟨hl.modified key ptr, fun ⟨hm, hr, h0⟩ => by
    subst hr
    exact h.modified ptr hm h0⟩

theorem of_represents (h : Represents (0 ≤ ·) rs.keyed rs.allModifs)
    (hnew : ∀ ptr ∈ rs.allModifs, rs.modelRow ptr = -1 → ptr ∈ rs.newRows) : Complete rs where
  modified ptr hm h0 := (h (rs.modelRow ptr) ptr).2 ⟨hm, rfl, h0⟩
  added := hnew

theorem of_no_change (hall : rs.allModifs = []) : Complete rs where
  modified ptr hp := by simp [hall] at hp
  added ptr hp := by simp [hall] at hp

theorem eq_of_row (hl : Linked rs) (h : Complete rs) {a b : RowModifPtr} (ha : a ∈ rs.allModifs)
    (hb : b ∈ rs.allModifs) (h0 : 0 ≤ rs.modelRow b) (he : rs.modelRow a = rs.modelRow b) : a = b :=
  (h.represents hl).key_inj ha hb he h0

theorem addModified (hl : Linked rs) (h : Complete rs) {rm : RowModif D} (h0 : 0 ≤ rm.modelRow)
    (hfree : rs.modifyRows rm.modelRow = none) : Complete (rs.addModified rm.modelRow rm) where
  modified ptr hp hpos := by
    change hashInsert rs.modifyRows rm.modelRow rs.nextPtr ((rs.prepend rm).modelRow ptr) = some ptr
    rcases List.mem_cons.1 hp with rfl | hp
    · rw [rs.prepend_modelRow_self rm]
      simp [hashInsert]
    · have hlt := hl.fresh ptr (RowModifs.mem_pool.2 (Or.inl hp))
      have hrow := rs.prepend_modelRow_of_ne rm (Nat.ne_of_lt hlt)
      have hk := h.modified ptr hp (by rw [← hrow]; exact hpos)
      have hne : rs.modelRow ptr ≠ rm.modelRow := fun he => by simp [← he, hk] at hfree
      rw [hrow, hashInsert, if_neg hne]
      exact hk
  added ptr hp hneg := by
    change (rs.prepend rm).modelRow ptr = -1 at hneg
    rcases List.mem_cons.1 hp with rfl | hp
    · rw [rs.prepend_modelRow_self rm] at hneg
      omega
    · have hlt := hl.fresh ptr (RowModifs.mem_pool.2 (Or.inl hp))
      rw [rs.prepend_modelRow_of_ne rm (Nat.ne_of_lt hlt)] at hneg
      exact h.added ptr hp hneg

theorem addNew (hl : Linked rs) (h : Complete rs) {rm : RowModif D} (hrow : rm.modelRow = -1) :
    Complete (rs.addNew rm) where
  modified ptr hp hpos := by
    change rs.modifyRows ((rs.prepend rm).modelRow ptr) = some ptr
    change 0 ≤ (rs.prepend rm).modelRow ptr at hpos
    rcases List.mem_cons.1 hp with rfl | hp
    · rw [rs.prepend_modelRow_self rm] at hpos
      omega
    · have hlt := hl.fresh ptr (RowModifs.mem_pool.2 (Or.inl hp))
      rw [rs.prepend_modelRow_of_ne rm (Nat.ne_of_lt hlt)] at hpos ⊢
      exact h.modified ptr hp hpos
  added ptr hp hneg := by
    rcases List.mem_cons.1 hp with rfl | hp
    · exact List.mem_append_right _ List.mem_cons_self
    · have hlt := hl.fresh ptr (RowModifs.mem_pool.2 (Or.inl hp))
      have hr := rs.prepend_modelRow_of_ne rm (Nat.ne_of_lt hlt)
      exact List.mem_append_left _ (h.added ptr hp (hr.symm.trans hneg))

theorem update (h : Complete rs) {ptr : RowModifPtr} {f : RowModif D → RowModif D}
    (hrow : (f (rs.memory ptr)).modelRow = (rs.memory ptr).modelRow) :
    Complete (rs.update ptr f) := by
  have hr := RowModifs.update_modelRow rs hrow
  refine ⟨fun other hp h0 => ?_, fun other hp hneg => ?_⟩
  · rw [hr] at h0 ⊢
    exact h.modified other hp h0
  · rw [hr] at hneg
    exact h.added other hp hneg

theorem removeModified (hl : Linked rs) (h : Complete rs) {ptr : RowModifPtr}
    (hptr : ptr ∈ rs.allModifs) (h0 : 0 ≤ rs.modelRow ptr) :
    Complete (rs.removeModified (rs.modelRow ptr) ptr) where
  modified other hp hpos := by
    have hm := List.mem_of_mem_erase hp
    have hne : rs.modelRow other ≠ rs.modelRow ptr := fun he => by
      obtain rfl := h.eq_of_row hl hm hptr h0 he
      exact hl.nodup_all.not_mem_erase hp
    change hashRemove rs.modifyRows (rs.modelRow ptr) (rs.modelRow other) = some other
    rw [hashRemove, if_neg hne]
    exact h.modified other hm hpos
  added other hp hneg := h.added other (List.mem_of_mem_erase hp) hneg

theorem removeNew (hl : Linked rs) (h : Complete rs) (ptr : RowModifPtr) :
    Complete (rs.removeNew ptr) where
  modified other hp hpos := h.modified other (List.mem_of_mem_erase hp) hpos
  added other hp hneg := by
    have hne : other ≠ ptr := fun he => hl.nodup_all.not_mem_erase (he ▸ hp)
    exact (List.mem_erase_of_ne hne).2 (h.added other (List.mem_of_mem_erase hp) hneg)

theorem removeCommitted (hl : Linked rs) (h : Complete rs) {ptr : RowModifPtr}
    (hptr : ptr ∈ rs.allModifs ∨ rs.modelRow ptr < 0) : Complete (rs.removeCommitted ptr) where
  modified other hp hpos := by
    have hm := List.mem_of_mem_erase hp
    have hne : rs.modelRow other ≠ rs.modelRow ptr := fun he => by
      have hpos' : 0 ≤ rs.modelRow other := hpos
      have hin := hptr.resolve_right (by omega)
      obtain rfl := h.eq_of_row hl hm hin (he ▸ hpos') he
      exact hl.nodup_all.not_mem_erase hp
    change hashRemove rs.modifyRows (rs.modelRow ptr) (rs.modelRow other) = some other
    rw [hashRemove, if_neg hne]
    exact h.modified other hm hpos
  added other hp hneg := by
    have hne : other ≠ ptr := fun he => hl.nodup_all.not_mem_erase (he ▸ hp)
    exact (List.mem_erase_of_ne hne).2 (h.added other (List.mem_of_mem_erase hp) hneg)

theorem destroyAt (hl : Linked rs) (h : Complete rs) (row : Int) : Complete (rs.destroyAt row) := by
  unfold RowModifs.destroyAt
  split
  case h_1 ptr hptr =>
    obtain ⟨hm, hr, hpos⟩ := hl.modified row ptr hptr
    subst hr
    exact h.removeModified hl hm hpos
  case h_2 => exact h

theorem row_ne_of_destroyAt (hl : Linked rs) (h : Complete rs) (row : Nat) :
    ∀ ptr ∈ (rs.destroyAt row).allModifs, (rs.destroyAt row).modelRow ptr ≠ row := by
  intro ptr hp he
  unfold RowModifs.destroyAt at hp he
  split at hp
  case h_1 other hother =>
    simp only [hother] at he
    obtain ⟨hm, hr, hpos⟩ := hl.modified row other hother
    obtain rfl := h.eq_of_row hl (List.mem_of_mem_erase hp) hm (by omega) (he.trans hr.symm)
    exact hl.nodup_all.not_mem_erase hp
  case h_2 hnone =>
    simp only [hnone] at he
    have hk := h.modified ptr hp (by omega)
    rw [he] at hk
    simp [hnone] at hk

theorem renumber (hl : Linked rs) (h : Complete rs) (row : Nat) {delta : Int}
    (hd : delta = 1 ∨ delta = -1) (hclobber : rs.NoClobber row delta)
    (hfree : delta = -1 → ∀ ptr ∈ rs.allModifs, rs.modelRow ptr ≠ row) :
    Complete (rs.renumber row delta) := by
  have hs := RowModifs.renumber_same rs row delta
  refine of_represents ?_ fun ptr hp hneg => ?_
  · rw [RowModifs.renumber_keyed, hs.allModifs]
    refine (h.represents hl).foldl_rekey (fun a b he => by omega) (fun k hk => ?_)
      (fun k => by omega) (fun _ hw => hw) hl.nodup_all hclobber fun v hv hsel w hw he => ⟨hw, ?_⟩
    · have hk' : (row : Int) < k := hk
      exact ⟨by omega, by omega⟩
    · have hsel' : (row : Int) < rs.modelRow v := hsel
      have he' : rs.modelRow w = rs.modelRow v + delta := he
      change (row : Int) < rs.modelRow w
      rcases hd with rfl | rfl
      · omega
      · have := hfree rfl w hw
        omega
  · rw [hs.allModifs] at hp
    rw [hs.newRows]
    refine h.added ptr hp ?_
    have hr := RowModifs.renumber_modelRow rs hl.nodup_all row delta ptr
    rw [RowModifs.modelRow, hr] at hneg
    change (rs.memory ptr).modelRow = -1
    split at hneg <;> omega

theorem fetchInserts (hl : Linked rs) (h : Complete rs) (isMatch : RowModif D → Bool) :
    Complete (rs.fetchInserts isMatch) where
  modified ptr hp hpos := by
    rcases List.mem_append.1 hp with hp | hp
    · have hr := hl.cachedInserts ptr (List.mem_of_mem_filter (List.mem_reverse.1 hp))
      have hpos' : 0 ≤ rs.modelRow ptr := hpos
      omega
    · exact h.modified ptr hp hpos
  added ptr hp hneg := by
    rcases List.mem_append.1 hp with hp | hp
    · exact List.mem_append_right _ (List.mem_reverse.1 hp)
    · exact List.mem_append_left _ (h.added ptr hp hneg)

theorem fetchModif (h : Complete rs) (row : Nat) {ptr : RowModifPtr}
    (hfree : rs.modifyRows row = none) :
    Complete (rs.fetchModif row ptr) where
  modified other hp hpos := by
    change hashInsert rs.modifyRows row ptr ((rs.fetchModif row ptr).modelRow other) = some other
    by_cases hne : other = ptr
    · subst hne
      rw [Linked.fetchModif_modelRow_self, hashInsert, if_pos rfl]
    · have hm := (List.mem_cons.1 hp).resolve_left hne
      rw [Linked.fetchModif_modelRow rs row hne] at hpos ⊢
      have hk := h.modified other hm hpos
      have hrow : rs.modelRow other ≠ row := fun he => by simp [← he, hk] at hfree
      rw [hashInsert, if_neg hrow]
      exact hk
  added other hp hneg := by
    by_cases hne : other = ptr
    · rw [hne, Linked.fetchModif_modelRow_self] at hneg
      omega
    · rw [Linked.fetchModif_modelRow rs row hne] at hneg
      exact h.added other ((List.mem_cons.1 hp).resolve_left hne) hneg

theorem edit {rules : EditRules D} (hstray : ¬ rules.stray) (horphan : ¬ rules.orphan)
    (hclobber : ¬ rules.clobber) {ss : RowModifs D} (hl : Linked rs) (h : Complete rs)
    (he : Edit rules rs ss) : Complete ss := by
  cases he with
  | create hrow hfree hkey =>
    subst hrow
    have h0 := hkey.resolve_left hstray
    exact h.addModified hl h0 (hfree h0)
  | createNew hrow => exact h.addNew hl hrow
  | write hrow => exact h.update hrow
  | @dropModified key ptr f hrow hreach hkey =>
    obtain ⟨hr, h0⟩ := hl.key_of_drop (hkey.imp_right fun hk => hk.resolve_right horphan)
    have hu := RowModifs.update_modelRow rs hrow
    have h0' : 0 ≤ (rs.update ptr f).modelRow ptr := by
      rw [hu, hr]
      exact h0
    have hh := (h.update hrow).removeModified (hl.update hrow) (hl.row_of_reached hreach) h0'
    rw [hu, hr] at hh
    exact hh
  | dropNew => exact h.removeNew hl _
  | rowInserted _ hc =>
    exact h.renumber hl _ (Or.inl rfl) (hc.resolve_left hclobber) fun hd => by omega
  | rowUpdated => exact h.destroyAt hl _
  | rowRemoved _ hc =>
    exact (h.destroyAt hl _).renumber (hl.destroyAt _) _ (Or.inr rfl) (hc.resolve_left hclobber)
      fun _ => h.row_ne_of_destroyAt hl _
  | dropCommitted hptr => exact h.removeCommitted hl hptr
  | cancelAll => exact of_no_change rfl
  | clearTable hall => exact of_no_change hall
  | migrate => exact of_no_change rfl
  | fetchInserts => exact h.fetchInserts hl _
  | fetchModif _ _ hfree => exact h.fetchModif _ hfree
  | cleanCache => exact ⟨h.modified, h.added⟩

end Complete

def AllHave (form : RowModif D → Prop) (rs : RowModifs D) : Prop :=
  ∀ ptr ∈ rs.pool, form (rs.memory ptr)

namespace AllHave

variable {form : RowModif D → Prop}

theorem prepend (hl : Allocated rs) (h : AllHave form rs) {rm : RowModif D} (hrm : form rm) :
    AllHave form (rs.prepend rm) := by
  intro ptr hp
  rcases List.mem_cons.1 hp with rfl | hp
  · simpa [RowModifs.prepend] using hrm
  · have hne : ptr ≠ rs.nextPtr := Nat.ne_of_lt (hl.fresh ptr hp)
    simpa [RowModifs.prepend, hne] using h ptr hp

theorem of_subset (h : AllHave form rs) {ss : RowModifs D} (hmem : ss.memory = rs.memory)
    (hsub : ∀ ptr ∈ ss.pool, ptr ∈ rs.pool) : AllHave form ss := fun ptr hp =>
  hmem ▸ h ptr (hsub ptr hp)

theorem update (h : AllHave form rs) {ptr : RowModifPtr} {f : RowModif D → RowModif D}
    (hf : form (rs.memory ptr) → form (f (rs.memory ptr))) : AllHave form (rs.update ptr f) := by
  intro other hp
  by_cases ho : other = ptr
  · subst ho
    rw [RowModifs.update_memory_self]
    exact hf (h other hp)
  · rw [RowModifs.update_memory_of_ne rs f ho]
    exact h other hp

theorem destroyAt (h : AllHave form rs) (row : Int) : AllHave form (rs.destroyAt row) := by
  unfold RowModifs.destroyAt
  split
  · exact h.of_subset rfl fun ptr hp => (List.erase_sublist.append_right _).subset hp
  · exact h

theorem renumber (hl : Allocated rs) (h : AllHave form rs) (row : Nat) {delta : Int}
    (hd : -1 ≤ delta) (hstable : ∀ rm : RowModif D, ∀ row : Int, 0 ≤ rm.modelRow → 0 ≤ row → form rm →
      form { rm with modelRow := row }) : AllHave form (rs.renumber row delta) := by
  intro ptr hp
  have hs := RowModifs.renumber_same rs row delta
  have hmem : ptr ∈ rs.pool := by
    simpa only [RowModifs.pool, hs.allModifs, hs.cachedModifs, hs.cachedInserts] using hp
  rw [hs.memory ptr, RowModifs.renumber_modelRow rs hl.nodup_all]
  split
  case isTrue hsel =>
    have := hsel.2
    exact hstable _ _ (by omega) (by omega) (h ptr hmem)
  case isFalse => exact h ptr hmem

theorem edit {rules : EditRules D} (hl : Linked rs) (h : AllHave rules.form rs)
    (hstable : rules.renumbering → ∀ rm : RowModif D, ∀ row : Int, 0 ≤ rm.modelRow → 0 ≤ row →
      rules.form rm → rules.form { rm with modelRow := row })
    {ss : RowModifs D} (he : Edit rules rs ss) : AllHave rules.form ss := by
  cases he with
  | create _ _ _ hform => exact h.prepend hl.toAllocated hform
  | createNew _ hform => exact h.prepend hl.toAllocated hform
  | write _ hform => exact h.update hform
  | @dropModified key ptr f hrow hreach hkey =>
    have hall := hl.row_of_reached hreach
    intro other hp
    have hne : other ≠ ptr := by
      rintro rfl
      rcases List.mem_append.1 hp with hp | hp
      · exact hl.nodup_all.not_mem_erase hp
      · exact hl.not_mem_all (List.mem_append.1 hp) hall
    have hm : other ∈ rs.pool := (List.erase_sublist.append_right _).subset hp
    change rules.form ((rs.update ptr f).memory other)
    rw [RowModifs.update_memory_of_ne rs f hne]
    exact h other hm
  | dropNew =>
    exact h.of_subset rfl fun ptr hp => (List.erase_sublist.append_right _).subset hp
  | rowInserted hr => exact h.renumber hl.toAllocated _ (by omega) (hstable hr)
  | rowUpdated => exact h.destroyAt _
  | rowRemoved hr =>
    exact (h.destroyAt _).renumber (hl.toAllocated.destroyAt _) _ (by omega) (hstable hr)
  | dropCommitted =>
    exact h.of_subset rfl fun ptr hp => (List.erase_sublist.append_right _).subset hp
  | cancelAll => exact h.of_subset rfl fun ptr hp => List.mem_append_right _ hp
  | clearTable => exact h.of_subset rfl fun ptr hp => hp
  | migrate => exact h.of_subset rfl fun ptr hp => rs.migrate_pool_perm.mem_iff.1 hp
  | fetchInserts => exact h.of_subset rfl fun ptr hp => (rs.fetchInserts_pool_perm _).mem_iff.1 hp
  | @fetchModif row ptr hr hptr =>
    intro other hp
    have hm := (rs.fetchModif_pool_perm row hptr).mem_iff.1 hp
    by_cases ho : other = ptr
    · subst ho
      have hrow := hl.cachedModifs other hptr
      have hh := hstable hr (rs.memory other) row hrow (by omega) (h other hm)
      simpa [RowModifs.fetchModif] using hh
    · have hh := h other hm
      rw [← RowModifs.update_memory_of_ne rs (fun rm => { rm with modelRow := (row : Int) }) ho] at hh
      exact hh
  | cleanCache =>
    exact h.of_subset rfl fun ptr hp =>
      RowModifs.mem_pool.2 (Or.inl (by simpa [RowModifs.pool] using hp))

end AllHave

end LibGda
