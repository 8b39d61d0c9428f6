import LibGda.StepEdits

/-! Applying, cancelling and resetting, as edits of the registries, and with them
every step of the proxy. -/

namespace LibGda

open RunInvariant

variable {D : Type}

namespace RowModifs

def afterSignal (rs : RowModifs D) : ModelSignal → RowModifs D
  | .rowInserted row => rs.renumber row 1
  | .rowUpdated row => rs.destroyAt row
  | .rowRemoved row => (rs.destroyAt row).renumber row (-1)

/-- No change loses its entry of `modify_rows` to the change of another row. -/
def KeepsEntries (rs : RowModifs D) : ModelSignal → Prop
  | .rowInserted row => rs.NoClobber row 1
  | .rowUpdated _ => True
  | .rowRemoved row => (rs.destroyAt row).NoClobber row (-1)

def SignalsKeepEntries : RowModifs D → List ModelSignal → Prop
  | _, [] => True
  | rs, signal :: rest => rs.KeepsEntries signal ∧ SignalsKeepEntries (rs.afterSignal signal) rest

theorem renumberStep_memory_neg (rs : RowModifs D) (row : Nat) (delta : Int)
    (other : RowModifPtr) {ptr : RowModifPtr} (h : rs.modelRow ptr < 0) :
    (rs.renumberStep row delta other).memory ptr = rs.memory ptr := by
  unfold renumberStep
  simp only
  split
  case isTrue hrow =>
    by_cases ho : ptr = other
    · subst ho
      have : (row : Int) < rs.modelRow ptr := hrow
      omega
    · simp [update, ho]
  case isFalse => rfl

theorem renumber_memory_neg (rs : RowModifs D) (row : Nat) (delta : Int) {ptr : RowModifPtr}
    (h : rs.modelRow ptr < 0) : (rs.renumber row delta).memory ptr = rs.memory ptr := by
  suffices hall : ∀ ptrs : List RowModifPtr,
      (ptrs.foldl (renumberStep row delta) rs).memory ptr = rs.memory ptr from hall _
  intro ptrs
  induction ptrs generalizing rs with
  | nil => rfl
  | cons other ptrs ih =>
    have hstep := rs.renumberStep_memory_neg row delta other h
    rw [List.foldl_cons, ih _ (by simpa only [modelRow, hstep] using h), hstep]

@[simp] theorem destroyAt_memory (rs : RowModifs D) (row : Int) :
    (rs.destroyAt row).memory = rs.memory := by
  unfold destroyAt
  split <;> rfl

theorem afterSignal_memory_neg (rs : RowModifs D) (signal : ModelSignal) {ptr : RowModifPtr}
    (h : rs.modelRow ptr < 0) : (rs.afterSignal signal).memory ptr = rs.memory ptr := by
  cases signal with
  | rowInserted row => exact rs.renumber_memory_neg row 1 h
  | rowUpdated row => exact congrFun (rs.destroyAt_memory row) ptr
  | rowRemoved row =>
    have hd : (rs.destroyAt row).modelRow ptr < 0 := by simpa only [modelRow, destroyAt_memory] using h
    exact ((rs.destroyAt row).renumber_memory_neg row (-1) hd).trans
      (congrFun (rs.destroyAt_memory row) ptr)

end RowModifs

theorem afterSignal_edits {rules : EditRules D} {rs : RowModifs D} {signal : ModelSignal}
    (hr : rules.renumbering) (h : rules.clobber ∨ rs.KeepsEntries signal) :
    Edits rules rs (rs.afterSignal signal) := by
  cases signal with
  | rowInserted row => exact (Edit.rowInserted hr h).edits
  | rowUpdated row => exact Edit.rowUpdated.edits
  | rowRemoved row => exact (Edit.rowRemoved hr h).edits

theorem afterSignals_edits {rules : EditRules D} (hr : rules.renumbering)
    {signals : List ModelSignal} {rs : RowModifs D}
    (h : rules.clobber ∨ rs.SignalsKeepEntries signals) :
    Edits rules rs (signals.foldl RowModifs.afterSignal rs) := by
  induction signals generalizing rs with
  | nil => exact Edits.refl _
  | cons signal rest ih =>
    exact (afterSignal_edits hr (h.imp_right And.left)).trans (ih (h.imp_right And.right))

namespace GdaDataProxy

theorem onModelSignal_modifs {p q : GdaDataProxy D} {model : GdaDataModel D}
    {signal : ModelSignal} (h : p.onModelSignal model signal = .ok q) :
    q.modifs = p.modifs.afterSignal signal := by
  cases signal with
  | rowInserted row =>
    obtain ⟨_, _, _, -, rfl⟩ := proxiedModelRowInsertedCb_ok h
    rfl
  | rowUpdated row =>
    obtain ⟨_, rfl⟩ := proxiedModelRowUpdatedCb_ok h
    rfl
  | rowRemoved row =>
    obtain ⟨_, _, _, _, -, -, rfl⟩ := proxiedModelRowRemovedCb_ok h
    rfl

theorem onModelSignals_modifs {p q : GdaDataProxy D}
    {signals : List (GdaDataModel D × ModelSignal)} (h : p.onModelSignals signals = .ok q) :
    q.modifs = (signals.map Prod.snd).foldl RowModifs.afterSignal p.modifs := by
  induction signals generalizing p with
  | nil =>
    obtain rfl := Except.ok.inj h
    rfl
  | cons s rest ih =>
    obtain ⟨r, hr, h⟩ := bind_ok h
    rw [ih h, onModelSignal_modifs hr]
    rfl

theorem receive_modifs {β : Type} {p q : GdaDataProxy D} {reply : ModelReply D β}
    (h : p.receive reply = .ok q) :
    q.modifs = (reply.signals.map Prod.snd).foldl RowModifs.afterSignal p.modifs := by
  obtain ⟨r, hr, h⟩ := bind_ok h
  obtain rfl := Except.ok.inj h
  have hh := onModelSignals_modifs hr
  exact hh

/-- The signals of the model when it is asked for the change `ptr`. -/
def commitSignals (p : GdaDataProxy D) (proxied : ProxiedModel D) (ptr : RowModifPtr) :
    List ModelSignal :=
  let rm := p.modifs.memory ptr
  let signals :=
    if rm.toBeDeleted then (proxied.removeRow p.model rm.modelRow).signals
    else if 0 ≤ rm.modelRow then (proxied.setValues p.model rm.modelRow rm.updateValues).signals
    else (proxied.appendValues p.model (rm.insertValues p.modelNbCols)).signals
  signals.map Prod.snd

/-- No entry is lost while the change `ptr` is committed. -/
def CommitMeets (rules : EditRules D) (p : GdaDataProxy D) (proxied : ProxiedModel D)
    (ptr : RowModifPtr) : Prop :=
  rules.clobber ∨ p.modifs.SignalsKeepEntries (p.commitSignals proxied ptr)

theorem rowCommitted_edits {rules : EditRules D} {p : GdaDataProxy D} (ptr : RowModifPtr)
    (proxyRow modelRow : Int) (accepted : Bool) :
    Edits rules p.modifs (p.rowCommitted ptr proxyRow modelRow accepted).1.modifs := by
  unfold rowCommitted
  split
  · simp only
    split
    case isTrue hm => exact (Edit.dropCommitted (Or.inl hm)).edits
    case isFalse => exact Edits.refl _
  · exact Edits.refl _

theorem commitExisting_edits {rules : EditRules D} {p q : GdaDataProxy D}
    {proxied : ProxiedModel D} {ptr : RowModifPtr} {proxyRow : Int} {ok : Bool}
    (hr : rules.renumbering) (hm : p.CommitMeets rules proxied ptr)
    (hrow : (p.modifs.memory ptr).toBeDeleted = true ∨ 0 ≤ (p.modifs.memory ptr).modelRow)
    (h : p.commitExisting proxied ptr proxyRow = .ok (q, ok)) : Edits rules p.modifs q.modifs := by
  unfold commitExisting at h
  unfold CommitMeets commitSignals at hm
  simp only at h hm
  split at h
  case isTrue hdel =>
    rw [if_pos hdel] at hm
    split at h
    · cases h
    · obtain ⟨r, hreceive, h⟩ := bind_ok h
      obtain ⟨rfl, -⟩ := pair_ok h
      have hs := afterSignals_edits hr hm
      rw [← receive_modifs hreceive] at hs
      exact hs.trans (rowCommitted_edits _ _ _ _)
  case isFalse hdel =>
    rw [if_neg hdel, if_pos (hrow.resolve_left hdel)] at hm
    split at h
    · cases h
    · split at h
      · cases h
      · obtain ⟨r, hreceive, h⟩ := bind_ok h
        obtain ⟨rfl, -⟩ := pair_ok h
        have hs := afterSignals_edits hr hm
        rw [← receive_modifs hreceive] at hs
        exact hs.trans (rowCommitted_edits _ _ _ _)

theorem foldl_afterSignal_modelRow_neg (signals : List ModelSignal) {rs : RowModifs D}
    {ptr : RowModifPtr} (h : rs.modelRow ptr < 0) :
    (signals.foldl RowModifs.afterSignal rs).modelRow ptr < 0 := by
  induction signals generalizing rs with
  | nil => exact h
  | cons signal rest ih =>
    refine ih ?_
    simpa only [RowModifs.modelRow, rs.afterSignal_memory_neg signal h] using h

theorem commitInsert_edits {rules : EditRules D} {p q : GdaDataProxy D}
    {proxied : ProxiedModel D} {ptr : RowModifPtr} {proxyRow : Int} {ok : Bool}
    (hr : rules.renumbering) (hm : p.CommitMeets rules proxied ptr)
    (hdel : (p.modifs.memory ptr).toBeDeleted = false) (hrow : p.modifs.modelRow ptr < 0)
    (h : p.commitInsert proxied ptr proxyRow = .ok (q, ok)) : Edits rules p.modifs q.modifs := by
  have hrow' : ¬ 0 ≤ (p.modifs.memory ptr).modelRow := Int.not_le.2 hrow
  unfold CommitMeets commitSignals at hm
  simp only [hdel, Bool.false_eq_true, hrow', if_false] at hm
  unfold commitInsert at h
  simp only at h
  split at h
  · cases h
  · obtain ⟨r, hreceive, h⟩ := bind_ok h
    obtain ⟨rfl, -⟩ := pair_ok h
    have hmodifs := receive_modifs hreceive
    have hs := afterSignals_edits hr hm
    refine hs.trans ?_
    rw [← hmodifs]
    split
    case isTrue =>
      have hneg : r.modifs.modelRow ptr < 0 := by
        rw [hmodifs]
        exact foldl_afterSignal_modelRow_neg _ hrow
      have hd : Edits rules r.modifs (r.modifs.removeCommitted ptr) :=
        (Edit.dropCommitted (Or.inr hneg)).edits
      split <;> exact hd
    case isFalse => exact Edits.refl _

theorem commitChange_edits {rules : EditRules D} {p q : GdaDataProxy D} {proxied : ProxiedModel D}
    {ptr : RowModifPtr} {proxyRow : Int} {ok : Bool} (hr : rules.renumbering)
    (hm : p.CommitMeets rules proxied ptr) (h : p.commitChange proxied ptr proxyRow = .ok (q, ok)) :
    Edits rules p.modifs q.modifs := by
  unfold commitChange at h
  simp only at h
  split at h
  case isTrue hrow => exact commitExisting_edits hr hm (by simpa using hrow) h
  case isFalse hrow =>
    simp only [Bool.or_eq_true, decide_eq_true_eq, not_or, Bool.not_eq_true] at hrow
    exact commitInsert_edits hr hm hrow.1 (Int.not_le.1 hrow.2) h

theorem commitRowModif_edits {rules : EditRules D} {p q : GdaDataProxy D}
    {proxied : ProxiedModel D} {ptr : RowModifPtr} {adjustDisplay ok : Bool}
    (hr : rules.renumbering) (hm : p.ensureChunkSync.CommitMeets rules proxied ptr)
    (h : p.commitRowModif proxied (some ptr) adjustDisplay = .ok (q, ok)) :
    Edits rules p.modifs q.modifs := by
  rw [← ensureChunkSync_modifs p]
  unfold commitRowModif at h
  simp only at h
  generalize p.ensureChunkSync = r at h hm ⊢
  obtain ⟨proxyRow, -, h⟩ := bind_ok h
  split at h
  · obtain ⟨rfl, -⟩ := pair_ok h
    exact Edits.refl _
  · obtain ⟨⟨s, b⟩, hs, h⟩ := bind_ok h
    have hedits := commitChange_edits hr hm hs
    split at h
    · obtain ⟨t, ht, h⟩ := bind_ok h
      obtain ⟨rfl, -⟩ := pair_ok h
      rw [(redisplayed_adjustDisplayedChunk ht).modifs]
      exact hedits
    · obtain ⟨rfl, -⟩ := pair_ok h
      exact hedits

def ApplyRowMeets (rules : EditRules D) (p : GdaDataProxy D) (proxied : ProxiedModel D)
    (proxyRow : Int) : Prop :=
  ∀ ptr, p.proxyRowToRowModif proxyRow = some ptr →
    p.ensureChunkSync.CommitMeets rules proxied ptr

theorem applyRowChanges_edits {rules : EditRules D} {p q : GdaDataProxy D}
    {proxied : ProxiedModel D} {proxyRow : Int} {ok : Bool} (hr : rules.renumbering)
    (hm : p.ApplyRowMeets rules proxied proxyRow)
    (h : p.applyRowChanges proxied proxyRow = .ok (q, ok)) : Edits rules p.modifs q.modifs := by
  unfold applyRowChanges at h
  split at h
  · obtain ⟨rfl, -⟩ := pair_ok h
    exact Edits.refl _
  · cases hrm : p.proxyRowToRowModif proxyRow with
    | none =>
      rw [hrm] at h
      obtain ⟨rfl, -⟩ := pair_ok h
      exact Edits.refl _
    | some ptr =>
      rw [hrm] at h
      exact commitRowModif_edits hr (hm ptr hrm) h

def ApplyLoopMeets (rules : EditRules D) : Nat → (Nat → ProxiedModel D) → GdaDataProxy D → Prop
  | 0, _, _ => True
  | turns + 1, proxied, p => ∀ ptr rest, p.modifs.allModifs = ptr :: rest →
      p.ensureChunkSync.CommitMeets rules (proxied 0) ptr ∧
        ∀ q, p.commitRowModif (proxied 0) (some ptr) false = .ok (q, true) →
          ApplyLoopMeets rules turns (fun n => proxied (n + 1)) q

theorem applyLoop_edits {rules : EditRules D} (hr : rules.renumbering) {turns : Nat}
    {proxied : Nat → ProxiedModel D} {p q : GdaDataProxy D} {ok : Bool}
    (hm : ApplyLoopMeets rules turns proxied p) (h : applyLoop turns proxied p = .ok (q, ok)) :
    Edits rules p.modifs q.modifs := by
  induction turns generalizing proxied p with
  | zero =>
    obtain ⟨rfl, -⟩ := pair_ok h
    exact Edits.refl _
  | succ turns ih =>
    unfold applyLoop at h
    split at h
    case h_1 =>
      obtain ⟨rfl, -⟩ := pair_ok h
      exact Edits.refl _
    case h_2 ptr rest hall =>
      obtain ⟨hcommit, hrest⟩ := hm ptr rest hall
      obtain ⟨⟨r, allok⟩, hr', h⟩ := bind_ok h
      have hedits := commitRowModif_edits hr hcommit hr'
      cases allok with
      | true => exact hedits.trans (ih (hrest r hr') h)
      | false =>
        obtain ⟨rfl, -⟩ := pair_ok h
        exact hedits

def ApplyAllMeets (rules : EditRules D) (p : GdaDataProxy D) (proxied : Nat → ProxiedModel D) :
    Prop :=
  ApplyLoopMeets rules p.modifs.allModifs.length proxied p.ensureChunkSync

theorem applyAllChanges_edits {rules : EditRules D} {p q : GdaDataProxy D}
    {proxied : Nat → ProxiedModel D} {ok : Bool} (hr : rules.renumbering)
    (hm : p.ApplyAllMeets rules proxied) (h : p.applyAllChanges proxied = .ok (q, ok)) :
    Edits rules p.modifs q.modifs := by
  obtain ⟨⟨r, allok⟩, hr', h⟩ := bind_ok h
  obtain ⟨s, hs, h⟩ := bind_ok h
  obtain ⟨rfl, -⟩ := pair_ok h
  rw [(redisplayed_adjustDisplayedChunk hs).modifs]
  rw [ensureChunkSync_modifs] at hr'
  have hedits := applyLoop_edits hr hm hr'
  rwa [ensureChunkSync_modifs] at hedits

theorem removeLastRows_modifs (nrows : Int) (count : Nat) (p : GdaDataProxy D) :
    (removeLastRows nrows count p).modifs = p.modifs := by
  induction count generalizing nrows p with
  | zero => rfl
  | succ count ih => exact ih (nrows - 1) (p.rowRemoved (nrows - 1))

theorem cancelNewRows_modifs {p q : GdaDataProxy D} (h : p.cancelNewRows = .ok q) :
    q.modifs = { p.modifs with newRows := [] } := by
  unfold cancelNewRows at h
  simp only at h
  split at h
  case h_1 hnew =>
    obtain rfl := Except.ok.inj h
    rw [← hnew]
  case h_2 =>
    obtain ⟨mapping, -, h⟩ := bind_ok h
    obtain rfl := Except.ok.inj h
    exact (redisplayed_chunkSyncIdleStep 50 _).modifs
  case h_3 =>
    obtain rfl := Except.ok.inj h
    exact removeLastRows_modifs _ _ _

theorem removeFirst_entry {rs : RowModifs D} {rm ptr : RowModifPtr} {rest : List RowModifPtr}
    {key : Int} (h : (rs.removeFirst rm rest).modifyRows key = some ptr) :
    rs.modifyRows key = some ptr ∧ (0 ≤ rs.modelRow rm → rs.modelRow rm ≠ key) := by
  unfold RowModifs.removeFirst at h
  by_cases h0 : 0 ≤ (rs.memory rm).modelRow
  · simp only [h0, if_true, hashRemove] at h
    split at h
    · cases h
    · exact ⟨h, fun _ he => absurd he.symm (by assumption)⟩
  · simp only [h0, if_false] at h
    exact ⟨h, fun h0' => absurd h0' h0⟩

theorem cancelLoop_ok {ptrs : List RowModifPtr} {p q : GdaDataProxy D}
    (hall : p.modifs.allModifs = ptrs) (h : p.cancelLoop ptrs = .ok q) :
    ∃ table emitted, q = { p with
        modifs := { p.modifs with allModifs := [], modifyRows := table }
        emitted := emitted } ∧
      ∀ key ptr, table key = some ptr → p.modifs.modifyRows key = some ptr ∧
        ∀ other ∈ ptrs, 0 ≤ p.modifs.modelRow other → p.modifs.modelRow other ≠ key := by
  induction ptrs generalizing p with
  | nil =>
    obtain rfl := Except.ok.inj h
    exact ⟨p.modifs.modifyRows, p.emitted, by rw [← hall], fun key ptr hk => ⟨hk, by simp⟩⟩
  | cons rm rest ih =>
    obtain ⟨proxyRow, -, h⟩ := bind_ok h
    obtain ⟨emitted, he⟩ := signalIf_eq { p with modifs := p.modifs.removeFirst rm rest }
      (0 ≤ proxyRow) (.rowUpdated proxyRow (p.proxyRowToAbsoluteRow proxyRow))
    have h' : ({ p with modifs := p.modifs.removeFirst rm rest, emitted := emitted } :
        GdaDataProxy D).cancelLoop rest = .ok q := by
      rw [← he]
      exact h
    obtain ⟨table, emitted', rfl, htable⟩ := ih rfl h'
    refine ⟨table, emitted', rfl, fun key ptr hk => ?_⟩
    obtain ⟨hentry, hrest⟩ := htable key ptr hk
    obtain ⟨hentry', hfirst⟩ := removeFirst_entry hentry
    refine ⟨hentry', fun other ho => ?_⟩
    rcases List.mem_cons.1 ho with rfl | ho
    · exact hfirst
    · exact hrest other ho

theorem cancelAllChanges_edits {rules : EditRules D} {p q : GdaDataProxy D}
    (h : p.cancelAllChanges = .ok q) : Edits rules p.modifs q.modifs := by
  unfold cancelAllChanges at h
  rw [← ensureChunkSync_modifs p]
  generalize p.ensureChunkSync = r at h ⊢
  simp only at h
  split at h
  · cases h
  · obtain ⟨s, hs, h⟩ := bind_ok h
    obtain ⟨table, emitted, rfl, htable⟩ := cancelLoop_ok rfl h
    rw [cancelNewRows_modifs hs] at htable ⊢
    have hcancel : Edit rules r.modifs
        { r.modifs with newRows := [], allModifs := [], modifyRows := table } := .cancelAll htable
    exact hcancel.edits

theorem cleanProxy_edits {rules : EditRules D} {p q : GdaDataProxy D} (h : p.cleanProxy = .ok q) :
    Edits rules p.modifs q.modifs ∧ q.modifs.modifyRows = fun _ => none := by
  unfold cleanProxy at h
  split at h
  case isTrue hall =>
    obtain rfl := Except.ok.inj h
    exact ⟨(Edit.clearTable (List.isEmpty_iff.1 hall)).edits, rfl⟩
  case isFalse =>
    obtain ⟨r, hr, h⟩ := bind_ok h
    split at h
    case isTrue hall =>
      obtain rfl := Except.ok.inj h
      exact ⟨(cancelAllChanges_edits hr).trans (Edit.clearTable (List.isEmpty_iff.1 hall)).edits, rfl⟩
    case isFalse => cases h

theorem fetchModifs_edits [ContentsCompare D] {rules : EditRules D} (hr : rules.renumbering)
    (count row : Nat) {p : GdaDataProxy D} (hfree : ∀ key : Int, row ≤ key →
      p.modifs.modifyRows key = none) :
    Edits rules p.modifs ((List.range' row count).foldl fetchModif p).modifs := by
  induction count generalizing row p with
  | zero => exact Edits.refl _
  | succ count ih =>
    rw [List.range'_succ, List.foldl_cons]
    unfold fetchModif
    cases hf : p.modifs.cachedModifs.find? fun rm => p.modifMatches row (p.modifs.memory rm) with
    | none => exact ih (row + 1) fun key hk => hfree key (by omega)
    | some ptr =>
      have hedit : Edit rules p.modifs (p.modifs.fetchModif row ptr) :=
        .fetchModif hr (List.mem_of_find?_eq_some hf) (hfree row (Int.le_refl _))
      refine hedit.edits.trans (ih (row + 1) (p := { p with modifs := _ }) fun key hk => ?_)
      have hne : key ≠ row := by omega
      simpa [RowModifs.fetchModif, RowModifs.update, hashInsert, hne] using hfree key (by omega)

theorem fetchCurrentCachedChanges_edits [ContentsCompare D] {rules : EditRules D}
    (hr : rules.renumbering) {p : GdaDataProxy D} (hfree : p.modifs.modifyRows = fun _ => none) :
    Edits rules p.modifs p.fetchCurrentCachedChanges.modifs := by
  have hinserts : Edits rules p.modifs p.fetchInserts.modifs := Edit.fetchInserts.edits
  unfold fetchCurrentCachedChanges
  rw [List.range_eq_range']
  refine hinserts.trans (fetchModifs_edits hr _ _ fun key _ => ?_)
  exact congrFun hfree key

theorem initChunk_ok {p q : GdaDataProxy D} (h : p.initChunk = .ok q) :
    ∃ first last chunk, q =
      { p with sampleFirstRow := first, sampleLastRow := last, chunk := chunk } := by
  obtain ⟨⟨r, chunk⟩, hr, h⟩ := bind_ok h
  obtain rfl := Except.ok.inj h
  obtain ⟨first, last, rfl⟩ := computeDisplayChunk_ok hr
  exact ⟨_, _, _, rfl⟩

theorem initChunk_modifs {p q : GdaDataProxy D} (h : p.initChunk = .ok q) :
    q.modifs = p.modifs := by
  obtain ⟨_, _, _, rfl⟩ := initChunk_ok h
  rfl

theorem installModel_edits [ContentsCompare D] {rules : EditRules D} (hr : rules.renumbering)
    {p q : GdaDataProxy D} {model : GdaDataModel D} (hfree : p.modifs.modifyRows = fun _ => none)
    (h : p.installModel model = .ok q) : Edits rules p.modifs q.modifs := by
  obtain ⟨r, hinit, h⟩ := bind_ok h
  obtain rfl := Except.ok.inj h
  have hm := initChunk_modifs hinit
  replace hm : r.modifs = p.modifs := hm
  rw [← hm] at hfree ⊢
  split
  · exact fetchCurrentCachedChanges_edits hr hfree
  · exact Edits.refl _

theorem cleanInstall_edits [ContentsCompare D] {rules : EditRules D} (hr : rules.renumbering)
    {p q r : GdaDataProxy D} {model : GdaDataModel D} (hclean : p.cleanProxy = .ok r)
    (h : r.installModel model = .ok q) : Edits rules p.modifs q.modifs := by
  obtain ⟨hedits, hfree⟩ := cleanProxy_edits hclean
  exact hedits.trans (installModel_edits hr hfree h)

theorem proxiedModelResetCb_edits [ContentsCompare D] {rules : EditRules D}
    (hr : rules.renumbering) {p q : GdaDataProxy D} {model : GdaDataModel D}
    (h : p.proxiedModelResetCb model = .ok q) : Edits rules p.modifs q.modifs := by
  obtain ⟨r, hclean, h⟩ := bind_ok h
  obtain ⟨s, hs, h⟩ := bind_ok h
  obtain rfl := Except.ok.inj h
  have hh := cleanInstall_edits hr hclean hs
  exact hh

theorem setModel_edits [ContentsCompare D] {rules : EditRules D} (hr : rules.renumbering)
    {p q : GdaDataProxy D} {model : GdaDataModel D} (h : p.setModel model = .ok q) :
    Edits rules p.modifs q.modifs := by
  obtain ⟨r, hclean, h⟩ := bind_ok h
  obtain ⟨s, hs, h⟩ := bind_ok h
  obtain rfl := Except.ok.inj h
  have hh := cleanInstall_edits hr hclean hs
  refine Relation.ReflTransGen.trans ?_ hh
  simp only
  split
  · exact Edit.migrate.edits
  · exact Edits.refl _

theorem setCacheChanges_edits {rules : EditRules D} (p : GdaDataProxy D) (value : Bool) :
    Edits rules p.modifs (p.setCacheChanges value).modifs := by
  cases value with
  | true => exact Edits.refl _
  | false => exact Edit.cleanCache.edits

theorem applyFilterStatement_modifs {p q : GdaDataProxy D} {rows : Option (List Int)}
    (h : p.applyFilterStatement rows = .ok q) : q.modifs = p.modifs := by
  have hh := (redisplayed_adjustDisplayedChunk h).modifs
  rw [hh]
  exact ensureChunkSync_modifs p

theorem setSampleSize_modifs {p q : GdaDataProxy D} {size : Int}
    (h : p.setSampleSize size = .ok q) : q.modifs = p.modifs := by
  rw [← ensureChunkSync_modifs p]
  unfold setSampleSize at h
  generalize p.ensureChunkSync = r at h ⊢
  generalize (if size ≤ 0 then 0 else size) = newSize at h
  simp only at h
  split at h
  · obtain ⟨s, hs, h⟩ := bind_ok h
    obtain rfl := Except.ok.inj h
    exact (redisplayed_adjustDisplayedChunk hs).modifs
  · obtain rfl := Except.ok.inj h
    rfl

theorem setSampleStart_modifs {p q : GdaDataProxy D} {start : Int}
    (h : p.setSampleStart start = .ok q) : q.modifs = p.modifs := by
  unfold setSampleStart at h
  split at h
  · obtain rfl := Except.ok.inj h
    rfl
  · rw [← ensureChunkSync_modifs p]
    generalize p.ensureChunkSync = r at h ⊢
    simp only at h
    split at h
    · exact (redisplayed_adjustDisplayedChunk h).modifs
    · obtain rfl := Except.ok.inj h
      rfl

theorem setAddNullEntry_modifs (p : GdaDataProxy D) (value : Bool) :
    (p.setAddNullEntry value).modifs = p.modifs := by
  unfold setAddNullEntry
  split
  · rfl
  · simp only
    split <;> rfl

theorem setDeferSync_modifs (p : GdaDataProxy D) (value : Bool) :
    (p.setDeferSync value).modifs = p.modifs := by
  unfold setDeferSync
  simp only
  split
  · exact (redisplayed_chunkSyncIdleStep 50 _).modifs
  · rfl

theorem idle_modifs (p : GdaDataProxy D) : p.idle.modifs = p.modifs := by
  unfold idle
  split
  · exact (redisplayed_chunkSyncIdleStep 50 _).modifs
  · rfl

def StepMeets [ContentsCompare D] (rules : EditRules D) (p : GdaDataProxy D) : Act D → Prop
  | .appendRow => p.AppendMeets rules
  | .appendValues values => p.AppendValuesMeets rules values
  | .removeRow row => p.DeleteMeets rules row
  | .delete row => p.DeleteMeets rules row
  | .undelete row => p.UndeleteMeets rules row
  | .alterValueAttributes row col flags => rules.blank ∨ ¬ p.BlankAlter row col flags
  | .applyRowChanges proxied row => p.ApplyRowMeets rules proxied row
  | .applyAllChanges proxied => p.ApplyAllMeets rules proxied
  | .modelSignal _ signal => rules.clobber ∨ p.modifs.KeepsEntries signal
  | _ => True

theorem step_edits [ContentsCompare D] {rules : EditRules D} (hr : rules.renumbering)
    (hf : FormRules rules) {p q : GdaDataProxy D} {act : Act D} (hm : p.StepMeets rules act)
    (h : p.step act = .ok q) : Edits rules p.modifs q.modifs := by
  have hsame : ∀ {r : GdaDataProxy D}, r.modifs = p.modifs → Edits rules p.modifs r.modifs :=
    fun he => he ▸ Edits.refl _
  cases act with
  | setValueAt col row value =>
    obtain ⟨⟨r, b⟩, hr', h⟩ := bind_ok h
    obtain rfl := Except.ok.inj h
    exact setValueAt_edits hf hr'
  | setValues row values =>
    obtain ⟨⟨r, b⟩, hr', h⟩ := bind_ok h
    obtain rfl := Except.ok.inj h
    exact setValues_edits hf hr'
  | appendRow =>
    obtain rfl := Except.ok.inj h
    exact append_edits hf hm
  | appendValues values =>
    obtain ⟨⟨r, row⟩, hr', h⟩ := bind_ok h
    obtain rfl := Except.ok.inj h
    exact appendValues_edits hf hm hr'
  | removeRow row =>
    obtain rfl := Except.ok.inj h
    exact removeRow_edits hf hm
  | delete row =>
    obtain rfl := Except.ok.inj h
    exact delete_edits hf hm
  | undelete row =>
    obtain rfl := Except.ok.inj h
    exact undelete_edits hf hm
  | alterValueAttributes row col flags => exact alterValueAttributes_edits hf hm h
  | cancelRowChanges row col =>
    obtain rfl := Except.ok.inj h
    exact cancelRowChanges_edits hf
  | cancelAllChanges => exact cancelAllChanges_edits h
  | applyRowChanges proxied row =>
    obtain ⟨⟨r, b⟩, hr', h⟩ := bind_ok h
    obtain rfl := Except.ok.inj h
    exact applyRowChanges_edits hr hm hr'
  | applyAllChanges proxied =>
    obtain ⟨⟨r, b⟩, hr', h⟩ := bind_ok h
    obtain rfl := Except.ok.inj h
    exact applyAllChanges_edits hr hm hr'
  | setSampleSize size => exact hsame (setSampleSize_modifs h)
  | setSampleStart start => exact hsame (setSampleStart_modifs h)
  | applyFilterStatement rows => exact hsame (applyFilterStatement_modifs h)
  | setNotify value =>
    obtain rfl := Except.ok.inj h
    exact Edits.refl _
  | setAddNullEntry value =>
    obtain rfl := Except.ok.inj h
    exact hsame (setAddNullEntry_modifs p value)
  | setDeferSync value =>
    obtain rfl := Except.ok.inj h
    exact hsame (setDeferSync_modifs p value)
  | setSampleSizeProperty value =>
    have hmodifs : q.modifs = p.modifs := by
      obtain ⟨_, _, _, rfl⟩ := initChunk_ok h
      rfl
    exact hsame hmodifs
  | setCacheChanges value =>
    obtain rfl := Except.ok.inj h
    exact setCacheChanges_edits p value
  | setModel model => exact setModel_edits hr h
  | chunkSyncIdle =>
    obtain rfl := Except.ok.inj h
    exact hsame (idle_modifs p)
  | modelSignal model signal =>
    rw [onModelSignal_modifs h]
    exact afterSignal_edits hr hm
  | modelReset model => exact proxiedModelResetCb_edits hr h

theorem new_modifs [ContentsCompare D] {model : GdaDataModel D} {p : GdaDataProxy D}
    (h : new model = .ok p) : p.modifs = {} := by
  obtain ⟨r, hr, h⟩ := bind_ok h
  obtain ⟨s, hs, hr⟩ := bind_ok hr
  obtain ⟨_, _, _, rfl⟩ := initChunk_ok hs
  obtain rfl := Except.ok.inj hr
  obtain ⟨_, _, _, rfl⟩ := initChunk_ok h
  rfl

end GdaDataProxy

end LibGda
