import LibGda.CommitEdits
import LibGda.RegistryLinks

/-! The registries agree in every run in which no change loses its entry, no row
which is not in the model is deleted, and no new row without columns is undeleted. -/

namespace LibGda

open RunInvariant

variable {D : Type}

theorem Linked.edits {rules : EditRules D} (hstray : ¬ rules.stray) (horphan : ¬ rules.orphan)
    {rs ss : RowModifs D} (h : Linked rs) (he : Edits rules rs ss) : Linked ss := by
  induction he with
  | refl => exact h
  | tail _ hedit ih => exact ih.edit hstray horphan hedit

theorem Complete.edits {rules : EditRules D} (hstray : ¬ rules.stray) (horphan : ¬ rules.orphan)
    (hclobber : ¬ rules.clobber) {rs ss : RowModifs D} (hl : Linked rs) (h : Complete rs)
    (he : Edits rules rs ss) : Complete ss := by
  induction he with
  | refl => exact h
  | tail hedits hedit ih =>
    exact ih.edit hstray horphan hclobber (hl.edits hstray horphan hedits) hedit

structure RegistriesAgree (rs : RowModifs D) : Prop where
  modified : ∀ key ptr, rs.modifyRows key = some ptr ↔
    ptr ∈ rs.allModifs ∧ rs.modelRow ptr = key ∧ 0 ≤ key
  distinct : rs.allModifs.Pairwise fun a b => 0 ≤ rs.modelRow a → rs.modelRow a ≠ rs.modelRow b
  added : ∀ ptr, ptr ∈ rs.newRows ↔ ptr ∈ rs.allModifs ∧ rs.modelRow ptr = -1

theorem registriesAgree_of_linked {rs : RowModifs D} (hl : Linked rs) (h : Complete rs) :
    RegistriesAgree rs where
  modified := h.represents hl
  distinct := by
    refine hl.nodup_all.imp_of_mem fun {a b} ha hb hne h0 he => hne ?_
    exact h.eq_of_row hl ha hb (he ▸ h0) he
  added ptr := ⟨fun hp => ⟨hl.added ptr hp, (hl.newRow ptr hp).1⟩, fun ⟨hm, hr⟩ => h.added ptr hm hr⟩

def agreementRules : EditRules D where
  blank := True

theorem agreementRules_form [ContentsCompare D] : FormRules (agreementRules : EditRules D) := by
  constructor <;> intros <;> trivial

namespace GdaDataProxy

variable [ContentsCompare D]

theorem registriesAgree_step {p q : GdaDataProxy D} {act : Act D}
    (h : Linked p.modifs ∧ Complete p.modifs) (hm : p.StepMeets agreementRules act)
    (hs : p.step act = .ok q) : Linked q.modifs ∧ Complete q.modifs := by
  have hedits := step_edits trivial agreementRules_form hm hs
  exact ⟨h.1.edits not_false not_false hedits,
    h.2.edits not_false not_false not_false h.1 hedits⟩

theorem registriesAgree_run {model : GdaDataModel D} {acts : List (Act D)}
    {p q : GdaDataProxy D} (hnew : new model = .ok p)
    (hmeets : StepsMeet step (StepMeets agreementRules) p acts) (hrun : run step p acts = .ok q) :
    RegistriesAgree q.modifs := by
  have hinit : Linked p.modifs ∧ Complete p.modifs := by
    rw [new_modifs hnew]
    exact ⟨linked_empty, complete_empty⟩
  have hlast : Linked q.modifs ∧ Complete q.modifs :=
    run_invariant (fun _ _ _ => registriesAgree_step) hinit hmeets hrun
  exact registriesAgree_of_linked hlast.1 hlast.2

def threeRows : GdaDataModel Int where
  columns := [{ gType := some 1 }]
  rows := [[some (.data 1 10)], [some (.data 1 20)], [some (.data 1 30)]]

def fourRows : GdaDataModel Int :=
  { threeRows with rows := [some (.data 1 0)] :: threeRows.rows }

theorem editedRow_registriesAgree : ∃ p q, new threeRows = .ok p ∧
    run step p [.setValueAt 0 2 (some (.data 1 31)), .modelSignal fourRows (.rowInserted 0),
      .delete 1] = .ok q ∧ RegistriesAgree q.modifs := by
  obtain ⟨p, hp⟩ : ∃ p, new threeRows = .ok p := ⟨_, rfl⟩
  obtain ⟨q, hq⟩ : ∃ q, run step p [.setValueAt 0 2 (some (.data 1 31)),
      .modelSignal fourRows (.rowInserted 0), .delete 1] = .ok q := by
    obtain rfl := Except.ok.inj hp
    exact ⟨_, rfl⟩
  refine ⟨p, q, hp, hq, registriesAgree_run hp ?_ hq⟩
  refine ⟨trivial, fun r hr => ⟨Or.inr ?_, fun s hs => ⟨fun _ => ⟨Or.inr ?_, Or.inl trivial⟩,
    fun _ _ => trivial⟩⟩⟩
  · obtain rfl := Except.ok.inj hp
    obtain rfl := Except.ok.inj hr
    exact List.pairwise_singleton _ _
  · obtain rfl := Except.ok.inj hp
    obtain rfl := Except.ok.inj hr
    obtain rfl := Except.ok.inj hs
    decide

/-- The rows at 2 and 1 are edited in this order, and a row is inserted before them: the latter's
change takes over the entry of the former. -/
theorem editedRows_registriesDisagree : ¬ ∀ (model : GdaDataModel Int) (acts : List (Act Int))
    (p q : GdaDataProxy Int), new model = .ok p → run step p acts = .ok q →
      RegistriesAgree q.modifs := by
  intro h
  have hagree := h threeRows [.setValueAt 0 2 (some (.data 1 31)),
    .setValueAt 0 1 (some (.data 1 21)), .modelSignal fourRows (.rowInserted 0)] _ _ rfl rfl
  have hentry := (hagree.modified 2 1).2 ⟨by decide, by decide, by decide⟩
  exact absurd hentry (by decide)

end GdaDataProxy

end LibGda

/-! Whether the pending changes follow their rows when another party inserts or
removes a row of the proxied model. -/

namespace LibGda

open RunInvariant

variable {D : Type}

namespace GdaDataProxy

end GdaDataProxy

end LibGda
