import LibGda.ModificationStatements

/-! A modification statement which is refused: what its checks have recorded by then, and which
columns the parameters of an accepted one stand for. -/

namespace LibGda

namespace ModifInternals

section Contract

variable (ctx : SelectContext) (s : ModifInternals) (stmt : ModStatement)

def structureAfter : ModStatement :=
  if ctx.acceptable = false then stmt
  else
    match s.checkedStatement stmt with
    | .error _ => stmt
    | .ok (_, stmt', _) => stmt'

def Installed : Prop :=
  ∀ mtype stmt, s.modifStmts mtype = some stmt →
    ∃ holders, getParameters stmt = .ok (some holders)

def Takes (s' : ModifInternals) : Prop := s.setModificationStatement ctx stmt = .ok (.ok (), s')

def FirstChecks : Prop :=
  ctx.acceptable = true ∧ ∃ passed, s.checkedStatement stmt = .ok passed

def FailsStructure : Prop :=
  ctx.checkStructure (s.structureAfter ctx stmt) = false ∨
    ∃ error, getParameters (s.structureAfter ctx stmt) = .error error

def FailsHolders : Prop :=
  ctx.checkStructure (s.structureAfter ctx stmt) = true ∧ ∃ params error,
    getParameters (s.structureAfter ctx stmt) = .ok (some params) ∧
      checkHolders ctx (s.ensureModifSet ctx).1 params = .error error

def Passes (params : List ParamHolder) : Prop :=
  s.FirstChecks ctx stmt ∧ ctx.checkStructure (s.structureAfter ctx stmt) = true ∧
    getParameters (s.structureAfter ctx stmt) = .ok (some params) ∧
      checkHolders ctx (s.ensureModifSet ctx).1 params = .ok ()

end Contract

section Checks

variable {ctx : SelectContext} {s s' : ModifInternals} {stmt stmt' : ModStatement} {mtype : ModType}

inductive Checked (s : ModifInternals) (stmt : ModStatement) : ModStatement → ModifInternals → Prop
  | insert (htype : stmt.stmtType = .insert) : Checked s stmt stmt s
  | replaced {cond : RowCondition} (htype : stmt.stmtType = .update ∨ stmt.stmtType = .delete)
      (hcond : s.uniqueRowCondition = some cond) : Checked s stmt { stmt with cond := some cond } s
  | recorded {cond : RowCondition} (htype : stmt.stmtType = .update ∨ stmt.stmtType = .delete)
      (hnone : s.uniqueRowCondition = none) (hcond : stmt.cond = some cond) :
      Checked s stmt stmt (s.setUniqueRowCondition cond)

theorem withRowCondition_ok (htype : stmt.stmtType = .update ∨ stmt.stmtType = .delete)
    (h : s.withRowCondition stmt = .ok (stmt', s')) : s.Checked stmt stmt' s' := by
  rw [withRowCondition] at h
  cases hunique : s.uniqueRowCondition with
  | some cond =>
    rw [hunique] at h
    obtain ⟨rfl, rfl⟩ := Prod.mk.inj (Except.ok.inj h)
    exact .replaced htype hunique
  | none =>
    rw [hunique] at h
    cases hcond : stmt.cond with
    | none =>
      rw [hcond] at h
      cases h
    | some cond =>
      rw [hcond] at h
      simp only at h
      split at h
      · obtain ⟨rfl, rfl⟩ := Prod.mk.inj (Except.ok.inj h)
        exact .recorded htype hunique hcond
      · cases h

theorem checkedStatement_ok (h : s.checkedStatement stmt = .ok (mtype, stmt', s')) :
    s.Checked stmt stmt' s' := by
  have hwhere (htype : stmt.stmtType = .update ∨ stmt.stmtType = .delete) (t : ModType)
      (h : (s.withRowCondition stmt).map (fun r => (t, r.1, r.2)) = .ok (mtype, stmt', s')) :
      s.Checked stmt stmt' s' := by
    cases hrow : s.withRowCondition stmt with
    | error error =>
      rw [hrow] at h
      cases h
    | ok r =>
      rw [hrow] at h
      obtain ⟨-, h⟩ := Prod.mk.inj (Except.ok.inj h)
      obtain ⟨rfl, rfl⟩ := Prod.mk.inj h
      exact withRowCondition_ok htype hrow
  rw [checkedStatement] at h
  cases htype : stmt.stmtType with
  | insert =>
    rw [htype] at h
    simp only at h
    split at h
    · cases h
    · cases h
    · obtain ⟨-, h⟩ := Prod.mk.inj (Except.ok.inj h)
      obtain ⟨rfl, rfl⟩ := Prod.mk.inj h
      exact .insert htype
    · cases h
  | update =>
    rw [htype] at h
    exact hwhere (.inl htype) _ h
  | delete =>
    rw [htype] at h
    exact hwhere (.inr htype) _ h
  | other =>
    rw [htype] at h
    cases h

theorem Checked.rest (ctx : SelectContext) (h : s.Checked stmt stmt' s') : s'.modifStmts =
    s.modifStmts ∧
    s'.modifSet = s.modifSet ∧ s'.modifParams = s.modifParams ∧
      (s'.ensureModifSet ctx).1 = (s.ensureModifSet ctx).1 := by
  cases h with
  | insert => exact ⟨rfl, rfl, rfl, rfl⟩
  | replaced => exact ⟨rfl, rfl, rfl, rfl⟩
  | recorded =>
    refine ⟨rfl, rfl, rfl, ?_⟩
    rw [ensureModifSet, ensureModifSet, setUniqueRowCondition]
    cases hset : s.modifSet with
    | none => rfl
    | some modifSet => rfl

theorem structureAfter_checked (hacceptable : ctx.acceptable = true)
    (h : s.checkedStatement stmt = .ok (mtype, stmt', s')) : s.structureAfter ctx stmt = stmt' := by
  rw [structureAfter, if_neg (by simp [hacceptable]), h]

end Checks

section Outcomes

variable {ctx : SelectContext} {s s' s'' : ModifInternals} {stmt stmt' : ModStatement}
  {mtype : ModType} {params : List ParamHolder}

theorem mergeStatements_ok {modifStmts : ModType → Option ModStatement}
    (h : ∀ mtype stmt, modifStmts mtype = some stmt →
      ∃ holders, getParameters stmt = .ok (some holders))
    (mtypes : List ModType) (made : ParamSet × (ModType → List HolderPtr)) :
    ∃ made', mergeStatements modifStmts mtypes made = .ok (.ok made') := by
  induction mtypes generalizing made with
  | nil => exact ⟨made, rfl⟩
  | cons mtype mtypes ih =>
    rw [mergeStatements]
    cases hstmt : modifStmts mtype with
    | none => exact ih made
    | some stmt =>
      obtain ⟨holders, hholders⟩ := h mtype stmt hstmt
      simp only [hholders]
      exact ih _

theorem computeModifSet_ok (ctx : SelectContext) (h : s.Installed) :
    ∃ s', s.computeModifSet ctx = .ok (.ok (), s') ∧ s'.modifStmts = s.modifStmts := by
  obtain ⟨⟨modifSet, modifParams⟩, hmade⟩ :=
    mergeStatements_ok h [.insQuery, .updQuery, .delQuery] (s.newModifSet ctx, fun _ => [])
  rw [computeModifSet, hmade]
  exact ⟨_, rfl, rfl⟩

theorem install_installed (h : s.Installed) (hparams : getParameters stmt = .ok (some params)) :
    (s.install mtype stmt).Installed := by
  intro t stmt' hstmt
  rw [install] at hstmt
  simp only at hstmt
  split at hstmt
  · rw [← Option.some.inj hstmt]
    exact ⟨params, hparams⟩
  · exact h t stmt' hstmt

theorem ensureModifSet_rest (ctx : SelectContext) (s : ModifInternals) :
    (s.ensureModifSet ctx).2.uniqueRowCondition = s.uniqueRowCondition ∧
      (s.ensureModifSet ctx).2.modifStmts = s.modifStmts ∧
      (s.ensureModifSet ctx).2.modifParams = s.modifParams ∧
      ((s.ensureModifSet ctx).2.modifSet = s.modifSet ↔ s.modifSet ≠ none) := by
  rw [ensureModifSet]
  cases hset : s.modifSet with
  | none => simp
  | some modifSet => simp [hset]

inductive Outcome (ctx : SelectContext) (s : ModifInternals) (stmt stmt' : ModStatement)
    (mtype : ModType) (s₁ : ModifInternals) : Prop
  | structureFails (h : s.FailsStructure ctx stmt) (hholders : ¬s.FailsHolders ctx stmt)
      (hcall : ∃ error, s.setModificationStatement ctx stmt = .ok (.error error, s₁))
  | faults (h : ¬s.FailsStructure ctx stmt) (hholders : ¬s.FailsHolders ctx stmt)
      (hpasses : ∀ params, ¬s.Passes ctx stmt params)
      (hcall : s.setModificationStatement ctx stmt = .error .nullParams)
  | holdersFail (h : ¬s.FailsStructure ctx stmt) (hholders : s.FailsHolders ctx stmt)
      (hcall : ∃ error, s.setModificationStatement ctx stmt =
        .ok (.error error, (s₁.ensureModifSet ctx).2))
  | takes (h : ¬s.FailsStructure ctx stmt) (hholders : ¬s.FailsHolders ctx stmt)
      (hpasses : ∃ params, s.Passes ctx stmt params)
      (hcall : ∃ s', s.Takes ctx stmt s' ∧ s'.modifStmts = (s.install mtype stmt').modifStmts)

theorem outcome (hs : s.Installed) (hacceptable : ctx.acceptable = true)
    (h : s.checkedStatement stmt = .ok (mtype, stmt', s')) :
    Outcome ctx s stmt stmt' mtype s' := by
  have hafter := structureAfter_checked hacceptable h
  have hchecked := checkedStatement_ok h
  obtain ⟨hstmts, hset, -, hensure⟩ := hchecked.rest ctx
  have hyes : ¬ ctx.acceptable = false := by simp [hacceptable]
  have hcall := setModificationStatement.eq_1 ctx s stmt
  rw [if_neg hyes, h] at hcall
  simp only at hcall
  by_cases hstructure : ctx.checkStructure stmt' = false
  · rw [if_pos hstructure] at hcall
    refine .structureFails ?_ ?_ ⟨_, hcall⟩
    · left
      rw [hafter]
      exact hstructure
    · intro hfails
      rw [FailsHolders, hafter, hstructure] at hfails
      exact Bool.false_ne_true hfails.1
  · rw [if_neg hstructure] at hcall
    have hfails : s.FailsStructure ctx stmt ↔ ∃ error, getParameters stmt' = .error error := by
      rw [FailsStructure, hafter]
      simp [hstructure]
    cases hparams : getParameters stmt' with
    | error error =>
      rw [hparams] at hcall
      refine .structureFails (hfails.2 ⟨error, hparams⟩) ?_ ⟨error, hcall⟩
      intro hholders
      obtain ⟨-, params, -, heq, -⟩ := hholders
      rw [hafter, hparams] at heq
      cases heq
    | ok holders =>
      have hno : ¬s.FailsStructure ctx stmt := by
        rw [hfails, hparams]
        rintro ⟨error, heq⟩
        cases heq
      cases holders with
      | none =>
        rw [hparams] at hcall
        refine .faults hno ?_ ?_ hcall
        · intro hholders
          obtain ⟨-, params, -, heq, -⟩ := hholders
          rw [hafter, hparams] at heq
          cases heq
        · intro params hpasses
          have heq := hpasses.2.2.1
          rw [hafter, hparams] at heq
          cases heq
      | some params =>
        rw [hparams] at hcall
        simp only [hensure] at hcall
        cases hcheck : checkHolders ctx (s.ensureModifSet ctx).1 params with
        | error error =>
          rw [hcheck] at hcall
          refine .holdersFail hno ⟨?_, params, error, ?_, hcheck⟩ ⟨error, hcall⟩
          · rw [hafter]
            exact eq_true_of_ne_false hstructure
          · rw [hafter]
            exact hparams
        | ok r =>
          rw [hcheck] at hcall
          refine .takes hno ?_ ⟨params, ⟨hacceptable, _, h⟩, ?_, ?_, hcheck⟩ ?_
          · intro hholders
            obtain ⟨-, params', error, heq, hcheck'⟩ := hholders
            rw [hafter, hparams] at heq
            obtain rfl := Option.some.inj (Except.ok.inj heq)
            rw [hcheck] at hcheck'
            cases hcheck'
          · rw [hafter]
            exact eq_true_of_ne_false hstructure
          · rw [hafter]
            exact hparams
          · have hinstalled : ((s'.ensureModifSet ctx).2.install mtype stmt').Installed := by
              apply install_installed _ hparams
              intro t stmt'' hstmt
              rw [(ensureModifSet_rest ctx s').2.1, hstmts] at hstmt
              exact hs t stmt'' hstmt
            obtain ⟨s'', hcompute, hmodif⟩ := computeModifSet_ok ctx hinstalled
            refine ⟨s'', hcall.trans hcompute, ?_⟩
            rw [hmodif, install, install, (ensureModifSet_rest ctx s').2.1, hstmts]

end Outcomes

section Atomicity

variable {ctx : SelectContext} {s s' : ModifInternals} {stmt : ModStatement}

end Atomicity

end ModifInternals

end LibGda
