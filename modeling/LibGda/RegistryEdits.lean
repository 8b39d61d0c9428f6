import LibGda.ProxyMachine
import LibGda.SignalSpecs

/-! The elementary changes that the operations of a proxy make to its registries,
and what each of them keeps of the links between the registries. -/

namespace LibGda

open KeyTable

variable {D : Type}

namespace RowModifs

/-- Every `RowModif` which is not freed. -/
def pool (rs : RowModifs D) : List RowModifPtr :=
  rs.allModifs ++ (rs.cachedModifs ++ rs.cachedInserts)

def modelRow (rs : RowModifs D) (ptr : RowModifPtr) : Int :=
  (rs.memory ptr).modelRow

def Reached (rs : RowModifs D) (ptr : RowModifPtr) : Prop :=
  (∃ row, 0 ≤ row ∧ rs.modifyRows row = some ptr) ∨ ptr ∈ rs.newRows

/-- `undelete` and the loss of the last value drop a change of a model row. -/
def dropModified (rs : RowModifs D) (key : Int) (ptr : RowModifPtr)
    (f : RowModif D → RowModif D) : RowModifs D :=
  (rs.update ptr f).removeModified key ptr

end RowModifs

/-- What the edits of a run keep, the form of every change, and what they may do to the lists. -/
structure EditRules (D : Type) where
  form : RowModif D → Prop := fun _ => True
  clobber : Prop := False
  stray : Prop := False
  orphan : Prop := False
  blank : Prop := False
  renumbering : Prop := True

inductive Edit (rules : EditRules D) : RowModifs D → RowModifs D → Prop
  | create {rs : RowModifs D} {key : Int} {rm : RowModif D} (hrow : rm.modelRow = key)
      (hfree : 0 ≤ key → rs.modifyRows key = none) (hkey : rules.stray ∨ 0 ≤ key)
      (hform : rules.form rm) : Edit rules rs (rs.addModified key rm)
  | createNew {rs : RowModifs D} {rm : RowModif D} (hrow : rm.modelRow = -1)
      (hform : rules.form rm) : Edit rules rs (rs.addNew rm)
  | write {rs : RowModifs D} {ptr : RowModifPtr} {f : RowModif D → RowModif D}
      (hrow : (f (rs.memory ptr)).modelRow = (rs.memory ptr).modelRow)
      (hform : rules.form (rs.memory ptr) → rules.form (f (rs.memory ptr))) :
      Edit rules rs (rs.update ptr f)
  | dropModified {rs : RowModifs D} {key : Int} {ptr : RowModifPtr} {f : RowModif D → RowModif D}
      (hrow : (f (rs.memory ptr)).modelRow = (rs.memory ptr).modelRow) (hreach : rs.Reached ptr)
      (hkey : (0 ≤ key ∧ rs.modifyRows key = some ptr) ∨ (0 ≤ key ∧ rs.modelRow ptr = key) ∨
        rules.orphan) : Edit rules rs (rs.dropModified key ptr f)
  | dropNew {rs : RowModifs D} {ptr : RowModifPtr} (hreach : rs.Reached ptr)
      (hrow : rs.modelRow ptr < 0) : Edit rules rs (rs.removeNew ptr)
  | rowInserted {rs : RowModifs D} {row : Nat} (hr : rules.renumbering)
      (hclobber : rules.clobber ∨ rs.NoClobber row 1) : Edit rules rs (rs.renumber row 1)
  | rowUpdated {rs : RowModifs D} {row : Nat} : Edit rules rs (rs.destroyAt row)
  | rowRemoved {rs : RowModifs D} {row : Nat} (hr : rules.renumbering)
      (hclobber : rules.clobber ∨ (rs.destroyAt row).NoClobber row (-1)) :
      Edit rules rs ((rs.destroyAt row).renumber row (-1))
  | dropCommitted {rs : RowModifs D} {ptr : RowModifPtr}
      (hptr : ptr ∈ rs.allModifs ∨ rs.modelRow ptr < 0) : Edit rules rs (rs.removeCommitted ptr)
  | cancelAll {rs : RowModifs D} {table : Int → Option RowModifPtr}
      (htable : ∀ key ptr, table key = some ptr → rs.modifyRows key = some ptr ∧
        ∀ other ∈ rs.allModifs, 0 ≤ rs.modelRow other → rs.modelRow other ≠ key) :
      Edit rules rs { rs with newRows := [], allModifs := [], modifyRows := table }
  | clearTable {rs : RowModifs D} (hall : rs.allModifs = []) :
      Edit rules rs { rs with modifyRows := fun _ => none }
  | migrate {rs : RowModifs D} : Edit rules rs rs.migrate
  | fetchInserts {rs : RowModifs D} {isMatch : RowModif D → Bool} :
      Edit rules rs (rs.fetchInserts isMatch)
  | fetchModif {rs : RowModifs D} {row : Nat} {ptr : RowModifPtr} (hr : rules.renumbering)
      (hptr : ptr ∈ rs.cachedModifs) (hfree : rs.modifyRows row = none) :
      Edit rules rs (rs.fetchModif row ptr)
  | cleanCache {rs : RowModifs D} :
      Edit rules rs { rs with cachedModifs := [], cachedInserts := [] }

def Edits (rules : EditRules D) : RowModifs D → RowModifs D → Prop :=
  Relation.ReflTransGen (Edit rules)

theorem Edit.edits {rules : EditRules D} {rs ss : RowModifs D} (h : Edit rules rs ss) :
    Edits rules rs ss :=
  Relation.ReflTransGen.single h

structure Allocated (rs : RowModifs D) : Prop where
  nodup : rs.pool.Nodup
  fresh : ∀ ptr ∈ rs.pool, ptr < rs.nextPtr
  newNodup : rs.newRows.Nodup
  newRow : ∀ ptr ∈ rs.newRows, rs.modelRow ptr = -1 ∧ ptr < rs.nextPtr ∧
    ptr ∉ rs.cachedModifs ∧ ptr ∉ rs.cachedInserts
  cachedInserts : ∀ ptr ∈ rs.cachedInserts, rs.modelRow ptr = -1

/-- The entries of `modify_rows` and `new_rows` are changes of `all_modifs`, under their key. -/
structure Linked (rs : RowModifs D) : Prop extends Allocated rs where
  modified : ∀ key ptr, rs.modifyRows key = some ptr →
    ptr ∈ rs.allModifs ∧ rs.modelRow ptr = key ∧ 0 ≤ key
  added : ∀ ptr ∈ rs.newRows, ptr ∈ rs.allModifs
  bound : ∀ ptr ∈ rs.pool, -1 ≤ rs.modelRow ptr
  cachedModifs : ∀ ptr ∈ rs.cachedModifs, 0 ≤ rs.modelRow ptr

/-- Every change of `all_modifs` has its entry, when no entry is lost either. -/
structure Complete (rs : RowModifs D) : Prop where
  modified : ∀ ptr ∈ rs.allModifs, 0 ≤ rs.modelRow ptr → rs.modifyRows (rs.modelRow ptr) = some ptr
  added : ∀ ptr ∈ rs.allModifs, rs.modelRow ptr = -1 → ptr ∈ rs.newRows

theorem linked_empty : Linked ({} : RowModifs D) where
  nodup := by simp [RowModifs.pool]
  fresh := by simp [RowModifs.pool]
  newNodup := List.nodup_nil
  newRow := by simp
  cachedInserts := by simp
  modified := by simp
  added := by simp
  bound := by simp [RowModifs.pool]
  cachedModifs := by simp

theorem complete_empty : Complete ({} : RowModifs D) where
  modified := by simp
  added := by simp

theorem Linked.row_of_reached {rs : RowModifs D} (h : Linked rs) {ptr : RowModifPtr}
    (hr : rs.Reached ptr) : ptr ∈ rs.allModifs := by
  rcases hr with ⟨row, -, hrow⟩ | hnew
  · exact (h.modified row ptr hrow).1
  · exact h.added ptr hnew

namespace RowModifs

theorem mem_pool {rs : RowModifs D} {ptr : RowModifPtr} :
    ptr ∈ rs.pool ↔ ptr ∈ rs.allModifs ∨ ptr ∈ rs.cachedModifs ∨ ptr ∈ rs.cachedInserts := by
  simp [pool]

theorem prepend_modelRow_of_ne (rs : RowModifs D) (rm : RowModif D) {ptr : RowModifPtr}
    (h : ptr ≠ rs.nextPtr) : (rs.prepend rm).modelRow ptr = rs.modelRow ptr := by
  simp [prepend, modelRow, h]

theorem prepend_modelRow_self (rs : RowModifs D) (rm : RowModif D) :
    (rs.prepend rm).modelRow rs.nextPtr = rm.modelRow := by
  simp [prepend, modelRow]

theorem update_modelRow (rs : RowModifs D) {ptr : RowModifPtr} {f : RowModif D → RowModif D}
    (h : (f (rs.memory ptr)).modelRow = (rs.memory ptr).modelRow) :
    (rs.update ptr f).modelRow = rs.modelRow := by
  funext other
  by_cases ho : other = ptr
  · subst ho
    simp [modelRow, h]
  · simp [modelRow, update_memory_of_ne rs f ho]

theorem migrate_pool_perm (rs : RowModifs D) : rs.migrate.pool.Perm rs.pool := by
  have hf := List.filter_append_perm (fun rm => (rs.memory rm).modelRow == -1) rs.allModifs
  have hi := (List.filter (fun rm => (rs.memory rm).modelRow == -1) rs.allModifs).reverse_perm
  have hm := (List.filter (fun rm => !(rs.memory rm).modelRow == -1) rs.allModifs).reverse_perm
  have hc := (hm.append_right rs.cachedModifs).append (hi.append_right rs.cachedInserts)
  refine hc.trans (List.Perm.trans ?_ (hf.append_right _))
  rw [List.perm_iff_count]
  intro ptr
  simp only [List.count_append]
  omega

theorem fetchInserts_pool_perm (rs : RowModifs D) (isMatch : RowModif D → Bool) :
    (rs.fetchInserts isMatch).pool.Perm rs.pool := by
  have hf := List.filter_append_perm (fun rm => isMatch (rs.memory rm)) rs.cachedInserts
  rw [List.perm_iff_count] at hf ⊢
  intro ptr
  have hh := hf ptr
  simp only [List.count_append] at hh
  simp only [pool, fetchInserts, List.count_append, List.count_reverse]
  omega

theorem fetchModif_pool_perm (rs : RowModifs D) (row : Int) {ptr : RowModifPtr}
    (h : ptr ∈ rs.cachedModifs) : (rs.fetchModif row ptr).pool.Perm rs.pool := by
  have hf := List.perm_cons_erase h
  rw [List.perm_iff_count] at hf ⊢
  intro other
  have hh := hf other
  simp only [List.count_cons] at hh
  simp only [pool, fetchModif, update, List.count_append, List.count_cons]
  omega

theorem renumber_modelRow_of_not_mem (rs : RowModifs D) (hn : rs.allModifs.Nodup)
    (row delta : Int) {ptr : RowModifPtr} (h : ptr ∉ rs.allModifs) :
    (rs.renumber row delta).modelRow ptr = rs.modelRow ptr :=
  (renumber_modelRow rs hn row delta ptr).trans (if_neg fun hh => h hh.1)

theorem renumber_modelRow_neg (rs : RowModifs D) (hn : rs.allModifs.Nodup) (row : Nat)
    (delta : Int) {ptr : RowModifPtr} (h : rs.modelRow ptr < 0) :
    (rs.renumber row delta).modelRow ptr = rs.modelRow ptr := by
  refine (renumber_modelRow rs hn row delta ptr).trans (if_neg fun hh => ?_)
  have : (row : Int) < rs.modelRow ptr := hh.2
  omega

end RowModifs

namespace Allocated

variable {rs : RowModifs D}

theorem nodup_all (h : Allocated rs) : rs.allModifs.Nodup :=
  (List.nodup_append.1 h.nodup).1

theorem not_mem_all (h : Allocated rs) {ptr : RowModifPtr}
    (hp : ptr ∈ rs.cachedModifs ∨ ptr ∈ rs.cachedInserts) : ptr ∉ rs.allModifs := by
  intro ha
  have hd := (List.nodup_append.1 h.nodup).2.2 ptr ha ptr (by simpa using hp)
  exact hd rfl

theorem of_perm (h : Allocated rs) {ss : RowModifs D} (hpool : ss.pool.Perm rs.pool)
    (hptr : ss.nextPtr = rs.nextPtr) (hnodup : ss.newRows.Nodup)
    (hnew : ∀ ptr ∈ ss.newRows, ss.modelRow ptr = -1 ∧ ptr < ss.nextPtr ∧
      ptr ∉ ss.cachedModifs ∧ ptr ∉ ss.cachedInserts)
    (hins : ∀ ptr ∈ ss.cachedInserts, ss.modelRow ptr = -1) : Allocated ss where
  nodup := hpool.nodup_iff.2 h.nodup
  fresh ptr hp := hptr ▸ h.fresh ptr (hpool.mem_iff.1 hp)
  newNodup := hnodup
  newRow := hnew
  cachedInserts := hins

theorem prepend (h : Allocated rs) (rm : RowModif D) : Allocated (rs.prepend rm) where
  nodup := List.nodup_cons.2 ⟨fun hp => absurd (h.fresh _ hp) (by simp), h.nodup⟩
  fresh ptr hp := by
    rcases List.mem_cons.1 hp with rfl | hp
    · exact Nat.lt_succ_self _
    · exact Nat.lt_succ_of_lt (h.fresh ptr hp)
  newNodup := h.newNodup
  newRow ptr hp := by
    obtain ⟨hrow, hlt, hm, hi⟩ := h.newRow ptr hp
    exact ⟨by rw [RowModifs.prepend_modelRow_of_ne rs rm (Nat.ne_of_lt hlt)]; exact hrow,
      Nat.lt_succ_of_lt hlt, hm, hi⟩
  cachedInserts ptr hp := by
    have hlt := h.fresh ptr (RowModifs.mem_pool.2 (Or.inr (Or.inr hp)))
    rw [RowModifs.prepend_modelRow_of_ne rs rm (Nat.ne_of_lt hlt)]
    exact h.cachedInserts ptr hp

theorem setTable (h : Allocated rs) (table : Int → Option RowModifPtr) :
    Allocated { rs with modifyRows := table } :=
  ⟨h.nodup, h.fresh, h.newNodup, h.newRow, h.cachedInserts⟩

theorem addNew (h : Allocated rs) {rm : RowModif D} (hrow : rm.modelRow = -1) :
    Allocated (rs.addNew rm) where
  nodup := (h.prepend rm).nodup
  fresh := (h.prepend rm).fresh
  newNodup := by
    refine List.nodup_append.2 ⟨h.newNodup, List.nodup_singleton _, fun a ha b hb => ?_⟩
    have hlt := (h.newRow a ha).2.1
    obtain rfl := List.mem_singleton.1 hb
    exact Nat.ne_of_lt hlt
  newRow ptr hp := by
    rcases List.mem_append.1 hp with hp | hp
    · exact (h.prepend rm).newRow ptr hp
    · obtain rfl := List.mem_singleton.1 hp
      refine ⟨(RowModifs.prepend_modelRow_self rs rm).trans hrow, Nat.lt_succ_self _,
        fun hm => ?_, fun hm => ?_⟩
      · exact absurd (h.fresh _ (RowModifs.mem_pool.2 (Or.inr (Or.inl hm)))) (by simp)
      · exact absurd (h.fresh _ (RowModifs.mem_pool.2 (Or.inr (Or.inr hm)))) (by simp)
  cachedInserts := (h.prepend rm).cachedInserts

theorem update (h : Allocated rs) {ptr : RowModifPtr} {f : RowModif D → RowModif D}
    (hrow : (f (rs.memory ptr)).modelRow = (rs.memory ptr).modelRow) :
    Allocated (rs.update ptr f) where
  nodup := h.nodup
  fresh := h.fresh
  newNodup := h.newNodup
  newRow other hp := by
    rw [RowModifs.update_modelRow rs hrow]
    exact h.newRow other hp
  cachedInserts other hp := by
    rw [RowModifs.update_modelRow rs hrow]
    exact h.cachedInserts other hp

theorem eraseAll (h : Allocated rs) (ptr : RowModifPtr) :
    Allocated { rs with allModifs := rs.allModifs.erase ptr } where
  nodup := h.nodup.sublist (List.erase_sublist.append_right _)
  fresh other hp := h.fresh other ((List.erase_sublist.append_right _).subset hp)
  newNodup := h.newNodup
  newRow := h.newRow
  cachedInserts := h.cachedInserts

theorem eraseNew (h : Allocated rs) (ptr : RowModifPtr) :
    Allocated { rs with newRows := rs.newRows.erase ptr } where
  nodup := h.nodup
  fresh := h.fresh
  newNodup := h.newNodup.erase ptr
  newRow other hp := h.newRow other (List.mem_of_mem_erase hp)
  cachedInserts := h.cachedInserts

theorem removeModified (h : Allocated rs) (key : Int) (ptr : RowModifPtr) :
    Allocated (rs.removeModified key ptr) :=
  (h.eraseAll ptr).setTable _

theorem destroyAt (h : Allocated rs) (row : Int) : Allocated (rs.destroyAt row) := by
  unfold RowModifs.destroyAt
  split
  · exact h.removeModified _ _
  · exact h

theorem renumber (h : Allocated rs) (row : Nat) (delta : Int) :
    Allocated (rs.renumber row delta) := by
  have hs := RowModifs.renumber_same rs row delta
  have hpool : (rs.renumber row delta).pool = rs.pool := by
    simp only [RowModifs.pool, hs.allModifs, hs.cachedModifs, hs.cachedInserts]
  refine h.of_perm (hpool ▸ List.Perm.refl _) hs.nextPtr (hs.newRows ▸ h.newNodup)
    (fun ptr hp => ?_) fun ptr hp => ?_
  · rw [hs.newRows] at hp
    obtain ⟨hrow, hlt, hm, hi⟩ := h.newRow ptr hp
    rw [RowModifs.renumber_modelRow_neg rs h.nodup_all row delta (by omega), hs.nextPtr,
      hs.cachedModifs, hs.cachedInserts]
    exact ⟨hrow, hlt, hm, hi⟩
  · rw [hs.cachedInserts] at hp
    have hrow := h.cachedInserts ptr hp
    rw [RowModifs.renumber_modelRow_neg rs h.nodup_all row delta (by omega)]
    exact hrow

theorem migrate (h : Allocated rs) : Allocated rs.migrate := by
  refine h.of_perm rs.migrate_pool_perm rfl List.nodup_nil (fun ptr hp => by cases hp)
    fun ptr hp => ?_
  rcases List.mem_append.1 hp with hp | hp
  · have hm := (List.mem_filter.1 (List.mem_reverse.1 hp)).2
    exact beq_iff_eq.1 hm
  · exact h.cachedInserts ptr hp

theorem fetchInserts (h : Allocated rs) (isMatch : RowModif D → Bool) :
    Allocated (rs.fetchInserts isMatch) := by
  have hci : rs.cachedInserts.Nodup :=
    (List.nodup_append.1 (List.nodup_append.1 h.nodup).2.1).2.1
  have hcm : ∀ ptr ∈ rs.cachedInserts, ptr ∉ rs.cachedModifs := fun ptr hp hm =>
    (List.nodup_append.1 (List.nodup_append.1 h.nodup).2.1).2.2 ptr hm ptr hp rfl
  refine h.of_perm (rs.fetchInserts_pool_perm isMatch) rfl ?_ (fun ptr hp => ?_) fun ptr hp => ?_
  · refine List.nodup_append.2 ⟨h.newNodup, hci.filter _, fun a ha b hb hab => ?_⟩
    subst hab
    exact (h.newRow a ha).2.2.2 (List.mem_of_mem_filter hb)
  · rcases List.mem_append.1 hp with hp | hp
    · obtain ⟨hrow, hlt, hm, hi⟩ := h.newRow ptr hp
      exact ⟨hrow, hlt, hm, fun hmem => hi (List.mem_of_mem_filter hmem)⟩
    · obtain ⟨hmem, hmatch⟩ := List.mem_filter.1 hp
      refine ⟨h.cachedInserts ptr hmem, h.fresh ptr (RowModifs.mem_pool.2 (Or.inr (Or.inr hmem))),
        hcm ptr hmem, fun hrest => ?_⟩
      have hno := (List.mem_filter.1 hrest).2
      simp [hmatch] at hno
  · exact h.cachedInserts ptr (List.mem_of_mem_filter hp)

theorem fetchModif (h : Allocated rs) (row : Int) {ptr : RowModifPtr}
    (hptr : ptr ∈ rs.cachedModifs) : Allocated (rs.fetchModif row ptr) := by
  have hne : ∀ other, other ≠ ptr →
      (rs.fetchModif row ptr).modelRow other = rs.modelRow other := fun other ho => by
    simp [RowModifs.fetchModif, RowModifs.modelRow, RowModifs.update, ho]
  have hcm : ∀ other ∈ rs.cachedInserts, other ≠ ptr := fun other ho he =>
    (List.nodup_append.1 (List.nodup_append.1 h.nodup).2.1).2.2 ptr hptr other ho he.symm
  refine h.of_perm (rs.fetchModif_pool_perm row hptr) rfl h.newNodup (fun other hp => ?_)
    fun other hp => ?_
  · obtain ⟨hrow, hlt, hm, hi⟩ := h.newRow other hp
    refine ⟨?_, hlt, fun hmem => hm (List.mem_of_mem_erase hmem), hi⟩
    rw [hne other fun he => hm (he ▸ hptr)]
    exact hrow
  · rw [hne other (hcm other hp)]
    exact h.cachedInserts other hp

end Allocated

end LibGda
