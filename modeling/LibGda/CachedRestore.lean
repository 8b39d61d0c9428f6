import LibGda.CachedChanges

/-! The changes which are back after the model of a proxy has been changed twice. -/

namespace LibGda

open RunInvariant GreedyAssignment

variable {D : Type}

section Order

variable {rs ss : RowModifs D}

theorem filter_erase_of_nodup {α : Type} [DecidableEq α] {l : List α} (hn : l.Nodup) (p : α → Bool)
    (a : α) : (l.erase a).filter p = (l.filter p).erase a := by
  rw [hn.erase_eq_filter, (hn.filter p).erase_eq_filter, List.filter_filter, List.filter_filter]
  simp only [Bool.and_comm]

theorem reverse_erase_of_nodup {α : Type} [DecidableEq α] {l : List α} (hn : l.Nodup) (a : α) :
    (l.erase a).reverse = l.reverse.erase a := by
  rw [hn.erase_eq_filter, (List.nodup_reverse.2 hn).erase_eq_filter, List.filter_reverse]

def RowModifs.inserts (rs : RowModifs D) : List RowModifPtr :=
  rs.allModifs.filter fun ptr => rs.modelRow ptr == -1

def InOrder (rs : RowModifs D) : Prop := rs.newRows = rs.inserts.reverse

namespace RowModifs

theorem inserts_congr (hall : ss.allModifs = rs.allModifs)
    (hrow : ∀ ptr ∈ rs.allModifs, ss.modelRow ptr = -1 ↔ rs.modelRow ptr = -1) :
    ss.inserts = rs.inserts := by
  rw [inserts, inserts, hall]
  refine List.filter_congr fun ptr hp => ?_
  rw [Bool.eq_iff_iff, beq_iff_eq, beq_iff_eq]
  exact hrow ptr hp

theorem inserts_erase (hn : rs.allModifs.Nodup) {ptr : RowModifPtr} :
    ({ rs with allModifs := rs.allModifs.erase ptr } : RowModifs D).inserts =
      rs.inserts.erase ptr :=
  filter_erase_of_nodup hn _ ptr

theorem inserts_erase_modified (hn : rs.allModifs.Nodup) {ptr : RowModifPtr}
    (h : rs.modelRow ptr ≠ -1) :
    ({ rs with allModifs := rs.allModifs.erase ptr } : RowModifs D).inserts = rs.inserts := by
  rw [inserts_erase hn]
  refine List.erase_of_not_mem fun hmem => h ?_
  exact beq_iff_eq.1 (List.mem_filter.1 hmem).2

theorem inserts_cons (rs : RowModifs D) (rm : RowModif D) (hfresh : rs.nextPtr ∉ rs.allModifs) :
    (rs.prepend rm).inserts =
      if rm.modelRow = -1 then rs.nextPtr :: rs.inserts else rs.inserts := by
  have hrest : rs.allModifs.filter (fun ptr => (rs.prepend rm).modelRow ptr == -1) =
    rs.inserts := by
    refine List.filter_congr fun ptr hp => ?_
    rw [prepend_modelRow_of_ne rs rm fun heq => hfresh (heq ▸ hp)]
  have hall : (rs.prepend rm).allModifs = rs.nextPtr :: rs.allModifs := rfl
  rw [inserts, hall, List.filter_cons, prepend_modelRow_self, hrest]
  simp only [beq_iff_eq]

end RowModifs

namespace InOrder

theorem congr (h : InOrder rs) (hnew : ss.newRows = rs.newRows) (hins : ss.inserts = rs.inserts) :
    InOrder ss := by
  rw [InOrder, hnew, hins]
  exact h

theorem renumber (h : InOrder rs) (hl : Linked rs) (row : Nat) {delta : Int} (hd : -1 ≤ delta) :
    InOrder (rs.renumber row delta) := by
  refine h.congr (RowModifs.renumber_newRows _ _ _)
    (RowModifs.inserts_congr (RowModifs.renumber_allModifs _ _ _) fun ptr hp => ?_)
  have hrow := RowModifs.renumber_modelRow rs hl.nodup_all row delta ptr
  simp only [RowModifs.modelRow]
  rw [hrow]
  split <;> omega

theorem dropModified (h : InOrder rs) (hl : Linked rs) {ptr : RowModifPtr}
    (hrow : 0 ≤ rs.modelRow ptr) (key : Int) : InOrder (rs.removeModified key ptr) :=
  h.congr rfl (RowModifs.inserts_erase_modified hl.nodup_all (by omega))

theorem destroyAt (h : InOrder rs) (hl : Linked rs) (row : Int) : InOrder (rs.destroyAt row) := by
  rw [RowModifs.destroyAt]
  cases hptr : rs.modifyRows row with
  | none => exact h
  | some ptr =>
    obtain ⟨-, hrow, hpos⟩ := hl.modified row ptr hptr
    exact h.dropModified hl (hrow ▸ hpos) row

theorem dropFrom (h : InOrder rs) (hl : Linked rs) (ptr : RowModifPtr) :
    InOrder (rs.removeNew ptr) := by
  have hnodup : rs.inserts.Nodup := hl.nodup_all.filter _
  have hins : (rs.removeNew ptr).inserts = rs.inserts.erase ptr :=
    RowModifs.inserts_erase hl.nodup_all
  have hnew : (rs.removeNew ptr).newRows = rs.newRows.erase ptr := rfl
  rw [InOrder, hins, hnew, h, reverse_erase_of_nodup hnodup]

theorem edit {rules : EditRules D} (hstray : ¬ rules.stray) (horphan : ¬ rules.orphan)
    (h : InOrder rs) (hl : Linked rs) (he : Edit rules rs ss) : InOrder ss := by
  have hfresh : rs.nextPtr ∉ rs.allModifs := fun hmem =>
    absurd (hl.fresh _ (RowModifs.mem_pool.2 (.inl hmem))) (Nat.lt_irrefl _)
  cases he with
  | @create key rm hrow _ hkey =>
    have h0 : rm.modelRow ≠ -1 := by
      have hpos := hkey.resolve_left hstray
      omega
    have hins : (rs.addModified key rm).inserts = rs.inserts :=
      (RowModifs.inserts_cons rs rm hfresh).trans (if_neg h0)
    exact h.congr rfl hins
  | @createNew rm hrow =>
    have hins : (rs.addNew rm).inserts = rs.nextPtr :: rs.inserts :=
      (RowModifs.inserts_cons rs rm hfresh).trans (if_pos hrow)
    have hnew : (rs.addNew rm).newRows = rs.newRows ++ [rs.nextPtr] := rfl
    rw [InOrder, hins, hnew, h, List.reverse_cons]
  | write hrow =>
    refine h.congr rfl (RowModifs.inserts_congr rfl fun ptr _ => ?_)
    rw [RowModifs.update_modelRow rs hrow]
  | @dropModified key ptr f hrow _ hkey =>
    obtain ⟨hr, h0⟩ := hl.key_of_drop (hkey.imp_right fun hk => hk.resolve_right horphan)
    have hupdate : InOrder (rs.update ptr f) := by
      refine h.congr rfl (RowModifs.inserts_congr rfl fun other _ => ?_)
      rw [RowModifs.update_modelRow rs hrow]
    refine hupdate.dropModified (hl.update hrow) ?_ key
    rw [RowModifs.update_modelRow rs hrow, hr]
    exact h0
  | dropNew => exact h.dropFrom hl _
  | rowInserted => exact h.renumber hl _ (by omega)
  | rowUpdated => exact h.destroyAt hl _
  | rowRemoved => exact (h.destroyAt hl _).renumber (hl.destroyAt _) _ (by omega)
  | dropCommitted => exact (h.dropFrom hl _).congr rfl rfl
  | cancelAll => exact rfl
  | clearTable => exact h
  | migrate => exact rfl
  | @fetchInserts isMatch =>
    have hcached : ∀ ptr ∈ (rs.cachedInserts.filter fun rm => isMatch (rs.memory rm)).reverse,
        (rs.modelRow ptr == -1) = true := fun ptr hp =>
      beq_iff_eq.2 (hl.cachedInserts ptr (List.mem_of_mem_filter (List.mem_reverse.1 hp)))
    have hins : (rs.fetchInserts isMatch).inserts =
        (rs.cachedInserts.filter fun rm => isMatch (rs.memory rm)).reverse ++ rs.inserts := by
      show List.filter (fun ptr => rs.modelRow ptr == -1) (_ ++ _) = _
      rw [List.filter_append, List.filter_eq_self.2 hcached]
      rfl
    rw [InOrder, hins, List.reverse_append, List.reverse_reverse, ← h]
    rfl
  | @fetchModif row ptr _ hptr =>
    have hnot : ptr ∉ rs.allModifs := hl.not_mem_all (.inl hptr)
    refine h.congr rfl ?_
    have hrest : rs.allModifs.filter (fun other => (rs.fetchModif row ptr).modelRow other == -1) =
        rs.inserts := by
      refine List.filter_congr fun other hp => ?_
      have hne : other ≠ ptr := fun heq => hnot (heq ▸ hp)
      rw [Linked.fetchModif_modelRow rs row hne]
    have hall : (rs.fetchModif row ptr).allModifs = ptr :: rs.allModifs := rfl
    have hrow : ¬ (((row : Int) == -1) = true) := by
      rw [beq_iff_eq]
      omega
    rw [RowModifs.inserts, hall, List.filter_cons, Linked.fetchModif_modelRow_self, hrest,
      if_neg hrow]
  | cleanCache => exact h

theorem edits {rules : EditRules D} (hstray : ¬ rules.stray) (horphan : ¬ rules.orphan)
    (h : InOrder rs) (hl : Linked rs) (he : Edits rules rs ss) : InOrder ss := by
  induction he with
  | refl => exact h
  | tail hedits hedit ih => exact ih.edit hstray horphan (hl.edits hstray horphan hedits) hedit

end InOrder

end Order

section Matching

variable [ContentsCompare D]

/-- `gda_value_differ` puts the values of a type into classes. -/
structure DiffersByClass (D : Type) [ContentsCompare D] : Prop where
  symm : ∀ (t : Nat) (a b : D), ContentsCompare.differ t a b = false →
    ContentsCompare.differ t b a = false
  trans : ∀ (t : Nat) (a b c : D), ContentsCompare.differ t a b = false →
    ContentsCompare.differ t b c = false → ContentsCompare.differ t a c = false

def CellsAgree : Option (GValue D) → Option (GValue D) → Prop
  | some a, some b => a.valueType = b.valueType ∧ gdaValueDiffer a b = false
  | none, none => True
  | _, _ => False

theorem cellsAgree_values {t u : Nat} {a b : D} :
    CellsAgree (some (.data t a)) (some (.data u b)) ↔
      t = u ∧ ContentsCompare.differ t a b = false := by
  rw [CellsAgree, gdaValueDiffer]
  simp only [GValue.valueType, Option.some.injEq]
  constructor
  · rintro ⟨rfl, h⟩
    exact ⟨rfl, by simpa using h⟩
  · rintro ⟨rfl, h⟩
    exact ⟨rfl, by simpa using h⟩

theorem CellsAgree.symm (hd : DiffersByClass D) {v w : Option (GValue D)} (h : CellsAgree v w) :
    CellsAgree w v := by
  match v, w with
  | none, none => trivial
  | some .null, some .null => exact h
  | some (.data t a), some (.data u b) =>
    obtain ⟨rfl, hab⟩ := cellsAgree_values.1 h
    exact cellsAgree_values.2 ⟨rfl, hd.symm t a b hab⟩
  | some .null, some (.data _ _) => exact absurd h.1.symm nofun
  | some (.data _ _), some .null => exact absurd h.1.symm nofun

theorem CellsAgree.trans (hd : DiffersByClass D) {v w x : Option (GValue D)}
    (h : CellsAgree v w) (h' : CellsAgree w x) : CellsAgree v x := by
  match v, w, x with
  | none, none, none => trivial
  | some .null, some .null, some .null => exact h
  | some (.data t a), some (.data u b), some (.data v c) =>
    obtain ⟨rfl, hab⟩ := cellsAgree_values.1 h
    obtain ⟨rfl, hbc⟩ := cellsAgree_values.1 h'
    exact cellsAgree_values.2 ⟨rfl, hd.trans t a b c hab hbc⟩
  | some .null, some (.data _ _), _ => exact absurd h.1.symm nofun
  | some (.data _ _), some .null, _ => exact absurd h.1.symm nofun
  | some .null, some .null, some (.data _ _) => exact absurd h'.1.symm nofun
  | some (.data _ _), some (.data _ _), some .null => exact absurd h'.1.symm nofun

end Matching

section Queue

variable {rs : RowModifs D}

variable [ContentsCompare D]

open GdaDataProxy

end Queue

namespace GdaDataProxy

variable [ContentsCompare D] {p q : GdaDataProxy D}

end GdaDataProxy

end LibGda
