import LibGda.ModificationStatements
import LibGda.RunInvariant

/-! The statements executed for some columns are kept from one modification to the next;
a run in which no kept statement differs from what the installed one gives. -/

namespace LibGda

open RunInvariant

namespace ModifInternals

def HoldsComputed (cache : List Bool → Option ModStatement)
    (compute : List Bool → Except ModError ModStatement) : Prop :=
  ∀ bv stmt, cache bv = some stmt → compute bv = .ok stmt

structure CachesFresh (s : ModifInternals) : Prop where
  upd : ∀ upd, s.modifStmts .updQuery = some upd →
    HoldsComputed s.updStmts (computeSingleUpdateStmt upd)
  ins : ∀ ins, s.modifStmts .insQuery = some ins →
    HoldsComputed s.insStmts (computeSingleInsertStmt ins)

def InstallFresh (s : ModifInternals) (stmt : ModStatement) : Prop :=
  ∀ mtype stmt' s', s.checkedStatement stmt = .ok (mtype, stmt', s') →
    match mtype with
    | .updQuery => HoldsComputed s.updStmts (computeSingleUpdateStmt stmt')
    | .insQuery => HoldsComputed s.insStmts (computeSingleInsertStmt stmt')
    | .delQuery => True

def InstallsFresh (ctx : SelectContext) : List ModStatement → ModifInternals → Prop
  | [], _ => True
  | stmt :: stmts, s => InstallFresh s stmt ∧
    ∀ r s', s.setModificationStatement ctx stmt = .ok (r, s') → InstallsFresh ctx stmts s'

def CallFresh (ctx : SelectContext) (s : ModifInternals) : StatementCall → Prop
  | .setModificationStatement stmt => InstallFresh s stmt
  | .computeModificationStatements computed =>
    InstallsFresh ctx (computedStatements computed) s.unsetStatements
  | _ => True

def computedFor (s : ModifInternals) : StatementCall → Option (Except ModError ModStatement)
  | .setValueAt col _ _ =>
    (s.modifStmts .updQuery).map (computeSingleUpdateStmt · (oneColumn col))
  | .setValues values _ _ => (s.modifStmts .updQuery).map (computeSingleUpdateStmt · values)
  | .appendValues values _ _ => (s.modifStmts .insQuery).map (computeSingleInsertStmt · values)
  | _ => none

/-- The executed statement is the one the installed statement gives, with values given
through holders of the set in use. -/
def ExecutesInstalled (s : ModifInternals) (call : StatementCall) (e : Executed) : Prop :=
  s.computedFor call = some (.ok e.stmt) ∧
    ∃ modifSet, s.modifSet = some modifSet ∧
      ∀ holder ∈ e.given, ∃ id, holderOf modifSet id = some holder

variable {ctx : SelectContext} {s s' : ModifInternals}

/-! What the calls leave of the statements and of the caches. -/

theorem withRowCondition_keeps {stmt stmt' : ModStatement}
    (h : s.withRowCondition stmt = .ok (stmt', s')) :
    s'.modifStmts = s.modifStmts ∧ s'.updStmts = s.updStmts ∧ s'.insStmts = s.insStmts := by
  unfold withRowCondition at h
  split at h
  · obtain ⟨-, rfl⟩ := pair_ok h
    exact ⟨rfl, rfl, rfl⟩
  · split at h
    · cases h
    · split at h
      · obtain ⟨-, rfl⟩ := pair_ok h
        exact ⟨rfl, rfl, rfl⟩
      · cases h

theorem checkedStatement_keeps {stmt stmt' : ModStatement} {mtype : ModType}
    (h : s.checkedStatement stmt = .ok (mtype, stmt', s')) :
    s'.modifStmts = s.modifStmts ∧ s'.updStmts = s.updStmts ∧ s'.insStmts = s.insStmts := by
  unfold checkedStatement at h
  split at h
  · split at h
    · cases h
    · cases h
    · obtain ⟨-, h⟩ := pair_ok h
      obtain ⟨-, rfl⟩ := Prod.mk.inj h
      exact ⟨rfl, rfl, rfl⟩
    · cases h
  · obtain ⟨⟨stmt₁, s₁⟩, hcond, heq⟩ := map_ok h
    obtain ⟨-, heq⟩ := Prod.mk.inj heq
    obtain ⟨-, rfl⟩ := Prod.mk.inj heq
    exact withRowCondition_keeps hcond
  · obtain ⟨⟨stmt₁, s₁⟩, hcond, heq⟩ := map_ok h
    obtain ⟨-, heq⟩ := Prod.mk.inj heq
    obtain ⟨-, rfl⟩ := Prod.mk.inj heq
    exact withRowCondition_keeps hcond
  · cases h

theorem computeModifSet_keeps {r : Except ModError Unit}
    (h : s.computeModifSet ctx = .ok (r, s')) :
    s'.modifStmts = s.modifStmts ∧ s'.updStmts = s.updStmts ∧ s'.insStmts = s.insStmts := by
  unfold computeModifSet at h
  split at h
  · cases h
  · obtain ⟨-, rfl⟩ := pair_ok h
    exact ⟨rfl, rfl, rfl⟩
  · obtain ⟨-, rfl⟩ := pair_ok h
    exact ⟨rfl, rfl, rfl⟩

theorem ensureModifSet_keeps (ctx : SelectContext) (s : ModifInternals) :
    (s.ensureModifSet ctx).2.modifStmts = s.modifStmts ∧
      (s.ensureModifSet ctx).2.updStmts = s.updStmts ∧
      (s.ensureModifSet ctx).2.insStmts = s.insStmts := by
  unfold ensureModifSet
  split <;> exact ⟨rfl, rfl, rfl⟩

theorem setModificationStatement_cases {stmt : ModStatement} {r : Except ModError Unit}
    (h : s.setModificationStatement ctx stmt = .ok (r, s')) :
    (s'.updStmts = s.updStmts ∧ s'.insStmts = s.insStmts) ∧
      (s'.modifStmts = s.modifStmts ∨
        ∃ mtype stmt' s₁, s.checkedStatement stmt = .ok (mtype, stmt', s₁) ∧
          s'.modifStmts = fun t => if t = mtype then some stmt' else s.modifStmts t) := by
  unfold setModificationStatement at h
  split at h
  · obtain ⟨-, rfl⟩ := pair_ok h
    exact ⟨⟨rfl, rfl⟩, .inl rfl⟩
  · split at h
    · obtain ⟨-, rfl⟩ := pair_ok h
      exact ⟨⟨rfl, rfl⟩, .inl rfl⟩
    next mtype stmt' s₁ hchecked =>
      obtain ⟨hm, hu, hi⟩ := checkedStatement_keeps hchecked
      split at h
      · obtain ⟨-, rfl⟩ := pair_ok h
        exact ⟨⟨hu, hi⟩, .inl hm⟩
      · split at h
        · obtain ⟨-, rfl⟩ := pair_ok h
          exact ⟨⟨hu, hi⟩, .inl hm⟩
        · cases h
        · obtain ⟨hm', hu', hi'⟩ := ensureModifSet_keeps ctx s₁
          simp only at h
          split at h
          · obtain ⟨-, rfl⟩ := pair_ok h
            exact ⟨⟨hu'.trans hu, hi'.trans hi⟩, .inl (hm'.trans hm)⟩
          · obtain ⟨hm'', hu'', hi''⟩ := computeModifSet_keeps h
            refine ⟨⟨hu''.trans (hu'.trans hu), hi''.trans (hi'.trans hi)⟩, .inr ?_⟩
            refine ⟨mtype, stmt', s₁, hchecked, hm''.trans ?_⟩
            show (fun t => if t = mtype then some stmt' else _) = _
            rw [hm', hm]

theorem CachesFresh.setModificationStatement (hfresh : CachesFresh s) {stmt : ModStatement}
    {r : Except ModError Unit} (hinstall : InstallFresh s stmt)
    (h : s.setModificationStatement ctx stmt = .ok (r, s')) : CachesFresh s' := by
  obtain ⟨⟨hu, hi⟩, hm | ⟨mtype, stmt', s₁, hchecked, hm⟩⟩ := setModificationStatement_cases h
  · constructor
    · rw [hm, hu]
      exact hfresh.upd
    · rw [hm, hi]
      exact hfresh.ins
  · have hnew := hinstall mtype stmt' s₁ hchecked
    constructor
    · intro upd hupd
      rw [hm] at hupd
      rw [hu]
      cases mtype with
      | updQuery =>
        obtain rfl := Option.some.inj hupd
        exact hnew
      | insQuery => exact hfresh.upd upd hupd
      | delQuery => exact hfresh.upd upd hupd
    · intro ins hins
      rw [hm] at hins
      rw [hi]
      cases mtype with
      | insQuery =>
        obtain rfl := Option.some.inj hins
        exact hnew
      | updQuery => exact hfresh.ins ins hins
      | delQuery => exact hfresh.ins ins hins

theorem CachesFresh.setStatements (hfresh : CachesFresh s) {stmts : List ModStatement}
    (hinstall : InstallsFresh ctx stmts s) (h : setStatements ctx stmts s = .ok s') :
    CachesFresh s' := by
  induction stmts generalizing s with
  | nil =>
    obtain rfl := Except.ok.inj h
    exact hfresh
  | cons stmt stmts ih =>
    unfold ModifInternals.setStatements at h
    split at h
    · cases h
    next r s₁ hset =>
      exact ih (hfresh.setModificationStatement hinstall.1 hset) (hinstall.2 r s₁ hset) h

theorem CachesFresh.unsetStatements (s : ModifInternals) : CachesFresh s.unsetStatements where
  upd := nofun
  ins := nofun

theorem cached_spec {cache cache' : List Bool → Option ModStatement}
    {compute : List Bool → Except ModError ModStatement} {bv : List Bool} {stmt : ModStatement}
    (hholds : HoldsComputed cache compute) (h : cached cache compute bv = .ok (stmt, cache')) :
    compute bv = .ok stmt ∧ HoldsComputed cache' compute := by
  unfold cached at h
  split at h
  next found =>
    obtain ⟨rfl, rfl⟩ := pair_ok h
    exact ⟨hholds bv _ found, hholds⟩
  · obtain ⟨computed, hcompute, heq⟩ := map_ok h
    obtain ⟨rfl, rfl⟩ := Prod.mk.inj heq
    refine ⟨hcompute, fun b stmt hb => ?_⟩
    simp only at hb
    by_cases hbv : b = bv
    · rw [if_pos hbv] at hb
      rw [hbv, hcompute, Option.some.inj hb]
    · rw [if_neg hbv] at hb
      exact hholds b stmt hb

theorem giveNewValues_mem {mtype : ModType} {modifSet : ParamSet} {bv : List Bool}
    {holder : HolderPtr} (h : holder ∈ s.giveNewValues mtype modifSet bv) :
    ∃ id, holderOf modifSet id = some holder := by
  simp only [giveNewValues, List.mem_filterMap] at h
  obtain ⟨i, -, hi⟩ := h
  split at hi
  · split at hi
    next found hfound =>
      split at hi
      · exact ⟨_, hfound.trans hi⟩
      · cases hi
    · cases hi
  · cases hi

theorem giveOldValues_mem {modifSet : ParamSet} {holder : HolderPtr}
    (h : holder ∈ giveOldValues ctx modifSet) : ∃ id, holderOf modifSet id = some holder := by
  simp only [giveOldValues, List.mem_filterMap] at h
  obtain ⟨i, -, hi⟩ := h
  exact ⟨_, hi⟩

theorem vectorSetValueAt_spec (hfresh : CachesFresh s) {upd : ModStatement}
    (hupd : s.modifStmts .updQuery = some upd) {modifSet : ParamSet} {given : List HolderPtr}
    (hgiven : ∀ holder ∈ given, ∃ id, holderOf modifSet id = some holder) {bv : List Bool}
    {rowFound executes : Bool} {r : Except ModError (Option Executed)}
    (h : s.vectorSetValueAt ctx upd modifSet given bv rowFound executes = (r, s')) :
    CachesFresh s' ∧ ∀ e, r.toOption.join = some e → computeSingleUpdateStmt upd bv = .ok e.stmt ∧
      ∀ holder ∈ e.given, ∃ id, holderOf modifSet id = some holder := by
  unfold vectorSetValueAt at h
  split at h
  · obtain ⟨rfl, rfl⟩ := Prod.mk.inj h
    exact ⟨hfresh, nofun⟩
  · split at h
    · obtain ⟨rfl, rfl⟩ := Prod.mk.inj h
      exact ⟨hfresh, nofun⟩
    next stmt updStmts hcached =>
      obtain ⟨hstmt, hholds⟩ := cached_spec (hfresh.upd upd hupd) hcached
      have hfresh' : CachesFresh { s with updStmts := updStmts } := by
        refine ⟨fun upd' hupd' => ?_, hfresh.ins⟩
        obtain rfl := Option.some.inj (hupd.symm.trans hupd')
        exact hholds
      simp only at h
      split at h
      · obtain ⟨rfl, rfl⟩ := Prod.mk.inj h
        exact ⟨hfresh', nofun⟩
      · obtain ⟨rfl, rfl⟩ := Prod.mk.inj h
        refine ⟨hfresh', fun e he => ?_⟩
        obtain rfl := Option.some.inj he
        refine ⟨hstmt, fun holder hmem => ?_⟩
        rcases List.mem_append.1 hmem with hmem | hmem
        · exact hgiven holder hmem
        · exact giveOldValues_mem hmem

theorem refused {r r' : Except ModError (Option Executed)} {P : Executed → Prop}
    (hfresh : CachesFresh s) (hnone : r'.toOption.join = none)
    (h : (.ok (r', s) : Except ModFault _) = .ok (r, s')) :
    CachesFresh s' ∧ ∀ e, r.toOption.join = some e → P e := by
  obtain ⟨rfl, rfl⟩ := pair_ok h
  refine ⟨hfresh, ?_⟩
  intro e he
  rw [hnone] at he
  cases he

theorem setValueAt_spec (hfresh : CachesFresh s) {col : Nat} {rowFound executes : Bool}
    {r : Except ModError (Option Executed)}
    (h : s.setValueAt ctx col rowFound executes = .ok (r, s')) :
    CachesFresh s' ∧ ∀ e, r.toOption.join = some e →
      s.ExecutesInstalled (.setValueAt col rowFound executes) e := by
  unfold setValueAt at h
  split at h
  · exact refused hfresh rfl h
  split at h
  · exact refused hfresh rfl h
  split at h
  · exact refused hfresh rfl h
  next upd hupd =>
    split at h
    · exact refused hfresh rfl h
    split at h
    · cases h
    next modifSet hset =>
      split at h
      · exact refused hfresh rfl h
      next holder hholder =>
        have hgiven : ∀ p ∈ (if holder ∈ s.modifParams .updQuery then [holder] else []),
            ∃ id, holderOf modifSet id = some p := by
          intro p hp
          split at hp
          · obtain rfl := List.mem_singleton.1 hp
            exact ⟨_, hholder⟩
          · cases hp
        obtain ⟨hfresh', hexec⟩ := vectorSetValueAt_spec hfresh hupd hgiven (Except.ok.inj h)
        refine ⟨hfresh', fun e he => ?_⟩
        obtain ⟨hstmt, hholders⟩ := hexec e he
        refine ⟨?_, modifSet, hset, hholders⟩
        rw [computedFor, hupd, ← hstmt]
        rfl

theorem setValues_spec (hfresh : CachesFresh s) {values : List Bool} {rowFound executes : Bool}
    {r : Except ModError (Option Executed)}
    (h : s.setValues ctx values rowFound executes = .ok (r, s')) :
    CachesFresh s' ∧ ∀ e, r.toOption.join = some e →
      s.ExecutesInstalled (.setValues values rowFound executes) e := by
  unfold setValues at h
  split at h
  · exact refused hfresh rfl h
  split at h
  · exact refused hfresh rfl h
  split at h
  · exact refused hfresh rfl h
  next upd hupd =>
    split at h
    · exact refused hfresh rfl h
    split at h
    · exact refused hfresh rfl h
    split at h
    · cases h
    next modifSet hset =>
      obtain ⟨hfresh', hexec⟩ := vectorSetValueAt_spec hfresh hupd
        (fun p hp => giveNewValues_mem hp) (Except.ok.inj h)
      refine ⟨hfresh', fun e he => ?_⟩
      obtain ⟨hstmt, hholders⟩ := hexec e he
      refine ⟨?_, modifSet, hset, hholders⟩
      rw [computedFor, hupd, ← hstmt]
      rfl

theorem appendValues_spec (hfresh : CachesFresh s) {values : List Bool}
    {nRowsKnown executes : Bool} {r : Except ModError (Option Executed)}
    (h : s.appendValues ctx values nRowsKnown executes = .ok (r, s')) :
    CachesFresh s' ∧ ∀ e, r.toOption.join = some e →
      s.ExecutesInstalled (.appendValues values nRowsKnown executes) e := by
  unfold appendValues at h
  split at h
  · exact refused hfresh rfl h
  split at h
  · exact refused hfresh rfl h
  split at h
  · exact refused hfresh rfl h
  next ins hins =>
    split at h
    · exact refused hfresh rfl h
    split at h
    · exact refused hfresh rfl h
    split at h
    · exact refused hfresh rfl h
    next stmt insStmts hcached =>
      obtain ⟨hstmt, hholds⟩ := cached_spec (hfresh.ins ins hins) hcached
      have hfresh' : CachesFresh { s with insStmts := insStmts } := by
        refine ⟨hfresh.upd, fun ins' hins' => ?_⟩
        obtain rfl := Option.some.inj (hins.symm.trans hins')
        exact hholds
      simp only at h
      split at h
      · cases h
      next modifSet hset =>
        split at h
        · obtain ⟨rfl, rfl⟩ := pair_ok h
          exact ⟨hfresh', nofun⟩
        · obtain ⟨rfl, rfl⟩ := pair_ok h
          refine ⟨hfresh', fun e he => ?_⟩
          obtain rfl := Option.some.inj he
          refine ⟨?_, modifSet, hset, fun p hp => giveNewValues_mem hp⟩
          rw [computedFor, hins, ← hstmt]
          rfl

theorem CachesFresh.call (hfresh : CachesFresh s) {c : StatementCall} (hcall : CallFresh ctx s c)
    {executed : Option Executed} (h : s.call ctx c = .ok (executed, s')) : CachesFresh s' := by
  cases c with
  | setModificationStatement stmt =>
    obtain ⟨⟨r, s₁⟩, hset, heq⟩ := map_ok h
    obtain ⟨-, rfl⟩ := Prod.mk.inj heq
    exact hfresh.setModificationStatement hcall hset
  | computeModificationStatements computed =>
    obtain ⟨s₁, hset, heq⟩ := map_ok h
    obtain ⟨-, rfl⟩ := Prod.mk.inj heq
    unfold computeModificationStatements at hset
    split at hset
    · obtain rfl := Except.ok.inj hset
      exact hfresh
    · exact (CachesFresh.unsetStatements s).setStatements hcall hset
  | setValueAt col rowFound executes =>
    obtain ⟨⟨r, s₁⟩, hset, heq⟩ := map_ok h
    obtain ⟨-, rfl⟩ := Prod.mk.inj heq
    exact (setValueAt_spec hfresh hset).1
  | setValues values rowFound executes =>
    obtain ⟨⟨r, s₁⟩, hset, heq⟩ := map_ok h
    obtain ⟨-, rfl⟩ := Prod.mk.inj heq
    exact (setValues_spec hfresh hset).1
  | appendValues values nRowsKnown executes =>
    obtain ⟨⟨r, s₁⟩, hset, heq⟩ := map_ok h
    obtain ⟨-, rfl⟩ := Prod.mk.inj heq
    exact (appendValues_spec hfresh hset).1

theorem CachesFresh.executes (hfresh : CachesFresh s) {c : StatementCall} {e : Executed}
    (h : s.call ctx c = .ok (some e, s')) : s.ExecutesInstalled c e := by
  cases c with
  | setModificationStatement stmt =>
    obtain ⟨_, -, heq⟩ := map_ok h
    cases heq
  | computeModificationStatements computed =>
    obtain ⟨_, -, heq⟩ := map_ok h
    cases heq
  | setValueAt col rowFound executes =>
    obtain ⟨⟨r, s₁⟩, hset, heq⟩ := map_ok h
    exact (setValueAt_spec hfresh hset).2 e (Prod.mk.inj heq).1
  | setValues values rowFound executes =>
    obtain ⟨⟨r, s₁⟩, hset, heq⟩ := map_ok h
    exact (setValues_spec hfresh hset).2 e (Prod.mk.inj heq).1
  | appendValues values nRowsKnown executes =>
    obtain ⟨⟨r, s₁⟩, hset, heq⟩ := map_ok h
    exact (appendValues_spec hfresh hset).2 e (Prod.mk.inj heq).1

def callStep (ctx : SelectContext) (s : ModifInternals) (c : StatementCall) :
    Except ModFault ModifInternals :=
  (s.call ctx c).map Prod.snd

end ModifInternals

end LibGda
