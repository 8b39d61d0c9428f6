import LibGda.RegistryAgreement

/-! Nothing is left of the changes of a proxy once they are all cancelled or applied. -/

namespace LibGda.GdaDataProxy

open RunInvariant

variable {D : Type}

def linkRules : EditRules D where
  clobber := True
  blank := True

theorem linkRules_form [ContentsCompare D] : FormRules (linkRules : EditRules D) := by
  constructor <;> intros <;> trivial

theorem afterSignal_sublist (rs : RowModifs D) (signal : ModelSignal) :
    (rs.afterSignal signal).allModifs.Sublist rs.allModifs := by
  have hdestroy : ∀ row, (rs.destroyAt row).allModifs.Sublist rs.allModifs := by
    intro row
    unfold RowModifs.destroyAt
    split
    · exact List.erase_sublist
    · exact List.Sublist.refl _
  cases signal with
  | rowInserted row =>
    rw [RowModifs.afterSignal, RowModifs.renumber_allModifs]
  | rowUpdated row => exact hdestroy row
  | rowRemoved row =>
    rw [RowModifs.afterSignal, RowModifs.renumber_allModifs]
    exact hdestroy row

theorem afterSignals_sublist (signals : List ModelSignal) (rs : RowModifs D) :
    (signals.foldl RowModifs.afterSignal rs).allModifs.Sublist rs.allModifs := by
  induction signals generalizing rs with
  | nil => exact List.Sublist.refl _
  | cons signal rest ih => exact (ih _).trans (afterSignal_sublist rs signal)

theorem receive_sublist {β : Type} {p q : GdaDataProxy D} {reply : ModelReply D β}
    (h : p.receive reply = .ok q) : q.modifs.allModifs.Sublist p.modifs.allModifs := by
  rw [receive_modifs h]
  exact afterSignals_sublist _ _

theorem length_erase_lt {ptrs left : List RowModifPtr} {ptr : RowModifPtr}
    (hsub : left.Sublist ptrs) (hmem : ptr ∈ ptrs) : (left.erase ptr).length < ptrs.length := by
  have hle := hsub.length_le
  by_cases hleft : ptr ∈ left
  · have hpos := List.length_pos_of_mem hleft
    rw [List.length_erase_of_mem hleft]
    omega
  · rw [List.erase_of_not_mem hleft]
    rcases Nat.lt_or_eq_of_le hle with hlt | heq
    · exact hlt
    · exact absurd (hsub.eq_of_length heq ▸ hmem) hleft

theorem rowCommitted_lt {p : GdaDataProxy D} {ptrs : List RowModifPtr} {ptr : RowModifPtr}
    (hsub : p.modifs.allModifs.Sublist ptrs) (hmem : ptr ∈ ptrs) {proxyRow modelRow : Int}
    {accepted : Bool} (hok : (p.rowCommitted ptr proxyRow modelRow accepted).2 = true) :
    (p.rowCommitted ptr proxyRow modelRow accepted).1.modifs.allModifs.length < ptrs.length := by
  have hlt := length_erase_lt hsub hmem
  cases accepted with
  | false => cases hok
  | true =>
    rw [rowCommitted, if_pos rfl]
    simp only
    split
    case isTrue => exact hlt
    case isFalse hnot =>
      have hnot' : ptr ∉ p.modifs.allModifs := hnot
      rwa [List.erase_of_not_mem hnot'] at hlt

/-- A change which is committed is no longer in the list, whatever the model signals. -/
theorem commitChange_lt {p q : GdaDataProxy D} {proxied : ProxiedModel D} {ptr : RowModifPtr}
    {proxyRow : Int} (hmem : ptr ∈ p.modifs.allModifs)
    (h : p.commitChange proxied ptr proxyRow = .ok (q, true)) :
    q.modifs.allModifs.length < p.modifs.allModifs.length := by
  unfold commitChange commitExisting commitInsert at h
  simp only at h
  split at h
  · split at h
    · split at h
      · cases h
      · obtain ⟨r, hr, h⟩ := bind_ok h
        obtain ⟨rfl, hok⟩ := pair_ok h
        exact rowCommitted_lt (receive_sublist hr) hmem hok
    · split at h
      · cases h
      · split at h
        · cases h
        · obtain ⟨r, hr, h⟩ := bind_ok h
          obtain ⟨rfl, hok⟩ := pair_ok h
          exact rowCommitted_lt (receive_sublist hr) hmem hok
  · split at h
    · cases h
    · obtain ⟨r, hr, h⟩ := bind_ok h
      obtain ⟨rfl, hok⟩ := pair_ok h
      have hsub := receive_sublist hr
      have hlt := length_erase_lt hsub hmem
      rw [if_pos (of_decide_eq_true hok)]
      split <;> exact hlt

theorem applyLoop_empties {turns : Nat} {proxied : Nat → ProxiedModel D} {p q : GdaDataProxy D}
    (hturns : p.modifs.allModifs.length ≤ turns) (h : applyLoop turns proxied p = .ok (q, true)) :
    q.modifs.allModifs = [] := by
  induction turns generalizing proxied p with
  | zero =>
    obtain ⟨rfl, -⟩ := pair_ok h
    exact List.length_eq_zero_iff.1 (Nat.le_zero.1 hturns)
  | succ turns ih =>
    unfold applyLoop at h
    split at h
    case h_1 hall =>
      obtain ⟨rfl, -⟩ := pair_ok h
      exact hall
    case h_2 ptr rest hall =>
      obtain ⟨⟨r, allok⟩, hr, h⟩ := bind_ok h
      cases allok with
      | false => cases (pair_ok h).2
      | true =>
        have hmem : ptr ∈ p.ensureChunkSync.modifs.allModifs := by
          rw [ensureChunkSync_modifs, hall]
          exact List.mem_cons_self ..
        have hlt : r.modifs.allModifs.length < p.modifs.allModifs.length := by
          rw [← ensureChunkSync_modifs p]
          unfold commitRowModif at hr
          obtain ⟨proxyRow, -, hr⟩ := bind_ok hr
          split at hr
          · cases (pair_ok hr).2
          · obtain ⟨⟨s, b⟩, hs, hr⟩ := bind_ok hr
            obtain ⟨rfl, rfl⟩ := pair_ok hr
            exact commitChange_lt hmem hs
        exact ih (by omega) h

theorem applyLoopMeets_link (turns : Nat) (proxied : Nat → ProxiedModel D) (p : GdaDataProxy D) :
    ApplyLoopMeets linkRules turns proxied p := by
  induction turns generalizing proxied p with
  | zero => trivial
  | succ turns ih => exact fun ptr rest _ => ⟨Or.inl trivial, fun q _ => ih _ q⟩

def Finishes (p q : GdaDataProxy D) : Prop :=
  p.cancelAllChanges = .ok q ∨ ∃ proxied, p.applyAllChanges proxied = .ok (q, true)

theorem Finishes.empties {p q : GdaDataProxy D} (h : p.Finishes q) (hl : Linked p.modifs) :
    q.modifs.allModifs = [] ∧ q.modifs.newRows = [] ∧ q.modifs.modifyRows = fun _ => none := by
  have hedits : Edits linkRules p.modifs q.modifs := by
    rcases h with hcancel | ⟨proxied, happly⟩
    · exact cancelAllChanges_edits hcancel
    · exact applyAllChanges_edits trivial (applyLoopMeets_link _ _ _) happly
  have hall : q.modifs.allModifs = [] := by
    rcases h with hcancel | ⟨proxied, happly⟩
    · unfold cancelAllChanges at hcancel
      simp only at hcancel
      split at hcancel
      · cases hcancel
      · obtain ⟨s, -, hloop⟩ := bind_ok hcancel
        obtain ⟨table, emitted, rfl, -⟩ := cancelLoop_ok rfl hloop
        rfl
    · obtain ⟨⟨r, allok⟩, hr, h⟩ := bind_ok happly
      obtain ⟨s, hs, h⟩ := bind_ok h
      obtain ⟨rfl, rfl⟩ := pair_ok h
      rw [(redisplayed_adjustDisplayedChunk hs).modifs]
      exact applyLoop_empties (Nat.le_refl _) hr
  have hlinked := hl.edits not_false not_false hedits
  refine ⟨hall, List.eq_nil_iff_forall_not_mem.2 fun ptr hmem => ?_, funext fun key => ?_⟩
  · have hin := hlinked.added ptr hmem
    rw [hall] at hin
    cases hin
  · cases hkey : q.modifs.modifyRows key with
    | none => rfl
    | some ptr =>
      have hin := (hlinked.modified key ptr hkey).1
      rw [hall] at hin
      cases hin

theorem proxyRowToRowModif_none {p : GdaDataProxy D} (hnew : p.modifs.newRows = [])
    (htable : p.modifs.modifyRows = fun _ => none) (proxyRow : Int) :
    p.proxyRowToRowModif proxyRow = none := by
  rw [proxyRowToRowModif, absoluteRowToModelRow]
  split
  · rfl
  · split <;> simp [hnew, htable]

/-- What the data model has in the row, or the error without such a value. -/
def valueInModel (p : GdaDataProxy D) (column proxyRow : Int) :
    Except (Option GError) (GValue D) :=
  if 0 ≤ p.proxyRowToModelRow proxyRow then
    match p.model.getValueAt column (p.proxyRowToModelRow proxyRow) with
    | some value => .ok value
    | none => .error (some .external)
  else .error (some (p.rowError proxyRow))

/-- Whatever was edited, committed or signalled before, nothing is left of the changes once they
are all cancelled or applied: each row shows the values of the data model, twice. -/
theorem finished_showsModel [ContentsCompare D] {model : GdaDataModel D} {acts : List (Act D)}
    {p q r : GdaDataProxy D} (hnew : new model = .ok p)
    (hmeets : StepsMeet step (StepMeets linkRules) p acts) (hrun : run step p acts = .ok q)
    (hfinish : q.Finishes r) :
    r.modifs.allModifs = [] ∧ ∀ proxyRow column : Int, 0 ≤ proxyRow → 0 ≤ column →
      column < r.modelNbCols → ¬ (proxyRow = 0 ∧ r.addNullEntry = true) →
        r.getValueAt column proxyRow = r.valueInModel column proxyRow ∧
          r.getValueAt (column + r.modelNbCols) proxyRow = r.valueInModel column proxyRow ∧
          (r.getValueAttributes proxyRow column).isUnchanged = true := by
  have hinit : Linked p.modifs := by
    rw [new_modifs hnew]
    exact linked_empty
  have hlinked : Linked q.modifs := by
    have hstep : ∀ {p q : GdaDataProxy D} {act : Act D}, Linked p.modifs →
        p.StepMeets linkRules act → p.step act = .ok q → Linked q.modifs := by
      intro p q act hl hm hs
      exact hl.edits not_false not_false (step_edits trivial linkRules_form hm hs)
    exact run_invariant (I := fun p => Linked p.modifs) (fun _ _ _ => hstep) hinit hmeets hrun
  obtain ⟨hall, hrows, htable⟩ := hfinish.empties hlinked
  refine ⟨hall, ?_⟩
  intro proxyRow column hrow hcol hlt hentry
  have hmodif := proxyRowToRowModif_none hrows htable proxyRow
  have hmod : (column + r.modelNbCols).tmod r.modelNbCols = column := by
    rw [Int.tmod_eq_emod_of_nonneg (by omega), Int.add_emod_right, Int.emod_eq_of_lt hcol hlt]
  refine ⟨?_, ?_, ?_⟩
  · rw [getValueAt, if_neg (by omega), if_neg hentry, if_pos hlt, hmodif]
    rfl
  · rw [getValueAt, if_neg (by omega), if_neg hentry, if_neg (by omega), if_pos (by omega), hmod,
      hmodif]
    rfl
  · rw [getValueAttributes, if_neg (by omega), hmodif]
    simp only [Option.bind_none]
    split <;> split <;> rfl

theorem finished_showsModel_threeRows : ∃ p q r, new threeRows = .ok p ∧
    run step p [.setValueAt 0 2 (some (.data 1 31)), .delete 1] = .ok q ∧
      q.cancelAllChanges = .ok r ∧ q.modifs.allModifs = [1, 0] ∧
        r.getValueAt 0 2 = r.valueInModel 0 2 := by
  obtain ⟨p, hp⟩ : ∃ p, new threeRows = .ok p := ⟨_, rfl⟩
  obtain ⟨q, hq⟩ : ∃ q, run step p [.setValueAt 0 2 (some (.data 1 31)), .delete 1] = .ok q := by
    obtain rfl := Except.ok.inj hp
    exact ⟨_, rfl⟩
  obtain ⟨r, hr⟩ : ∃ r, q.cancelAllChanges = .ok r := by
    obtain rfl := Except.ok.inj hp
    obtain rfl := Except.ok.inj hq
    exact ⟨_, rfl⟩
  have hmeets : StepsMeet step (StepMeets linkRules) p
      [.setValueAt 0 2 (some (.data 1 31)), .delete 1] := by
    refine ⟨trivial, fun s hs => ⟨fun _ => ⟨Or.inr ?_, Or.inl trivial⟩, fun _ _ => trivial⟩⟩
    obtain rfl := Except.ok.inj hp
    obtain rfl := Except.ok.inj hs
    decide
  have hshown := (finished_showsModel hp hmeets hq (.inl hr)).2 2 0 (by decide) (by decide) ?_ (by simp)
  · refine ⟨p, q, r, hp, hq, hr, ?_, hshown.1⟩
    obtain rfl := Except.ok.inj hp
    obtain rfl := Except.ok.inj hq
    rfl
  · obtain rfl := Except.ok.inj hp
    obtain rfl := Except.ok.inj hq
    obtain rfl := Except.ok.inj hr
    exact Int.one_pos

end LibGda.GdaDataProxy
