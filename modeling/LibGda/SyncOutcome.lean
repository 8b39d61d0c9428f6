import LibGda.SyncMirror

/-! The end of a synchronization, however it is cut in calls from the main loop. -/

namespace LibGda

open ListSync RunInvariant

variable {D : Type}

namespace GdaDataProxy

theorem Redisplayed.nullRows {p q : GdaDataProxy D} (h : p.Redisplayed q) :
    q.nullRows = p.nullRows := by
  obtain ⟨_, _, _, _, _, _, _, _, rfl⟩ := h
  rfl

theorem Redisplayed.targetRows {p q : GdaDataProxy D} (h : p.Redisplayed q)
    (chunkTo : DisplayChunk) : q.targetRows chunkTo = p.targetRows chunkTo := by
  obtain ⟨_, _, _, _, _, _, _, _, rfl⟩ := h
  cases chunkTo <;> rfl

theorem Redisplayed.forceDirectMapping {p q : GdaDataProxy D} (h : p.Redisplayed q) :
    q.forceDirectMapping = p.forceDirectMapping := by
  obtain ⟨_, _, _, _, _, _, _, _, rfl⟩ := h
  rfl

theorem Redisplayed.modelNbRows {p q : GdaDataProxy D} (h : p.Redisplayed q) :
    q.modelNbRows = p.modelNbRows := by
  obtain ⟨_, _, _, _, _, _, _, _, rfl⟩ := h
  rfl

theorem Redisplayed.displayedRows {p q : GdaDataProxy D} (h : p.Redisplayed q)
    (hc : q.chunk = p.chunk) : q.displayedRows = p.displayedRows := by
  rw [GdaDataProxy.displayedRows, hc, h.modelNbRows, h.modifs]
  rfl

variable {p : GdaDataProxy D} {chunkTo : DisplayChunk} {old l : List Int} {sep : Nat}

theorem Syncing.loop (steps : Nat) (h : p.Syncing chunkTo old l sep) :
    ∃ l' sep', (syncLoop chunkTo steps p sep).1.Syncing chunkTo old l' sep' ∧
      p.Signaled (syncLoop chunkTo steps p sep).1 l l' ∧
      ((syncLoop chunkTo steps p sep).2 = true → liveAt liveRow l' sep' = none ∧
        liveAt liveRow (p.targetRows chunkTo) sep' = none) ∧
      ((syncLoop chunkTo steps p sep).2 = false →
        todo liveRow (p.targetRows chunkTo) l' sep' + steps =
          todo liveRow (p.targetRows chunkTo) l sep) := by
  induction steps generalizing p l sep with
  | zero => exact ⟨l, sep, h, .refl p l, (nomatch ·), fun _ => rfl⟩
  | succ steps ih =>
    rcases h.step with ⟨hs, hl, ht⟩ | ⟨q, next, l₁, hs, hq⟩
    · simp only [syncLoop, hs]
      exact ⟨l, sep, h, .refl p l, fun _ => ⟨hl, ht⟩, (nomatch ·)⟩
    · have hr := redisplayed_syncStep hs
      simp only [syncLoop, hs]
      obtain ⟨l', sep', hsync, hsignaled, hdone, htodo⟩ := ih hq.syncing
      rw [hr.targetRows] at hdone htodo
      refine ⟨l', sep', hsync, hq.signaled.trans hr.nullRows hsignaled, hdone, ?_⟩
      intro hfalse
      have hleft := htodo hfalse
      have hone := hq.todo_eq
      omega

/-- A call of `chunk_sync_idle` is to come, with `l` the rows of a listener. -/
def Awaiting (p : GdaDataProxy D) (chunkTo : DisplayChunk) (old l : List Int) (sep : Nat) : Prop :=
  p.countSyncRows.Syncing chunkTo old l sep

theorem Syncing.awaiting (h : p.Syncing chunkTo old l sep) : p.Awaiting chunkTo old l sep := by
  refine ⟨h.notified, h.indirect, h.pending, h.mapped, h.chunkSep, h.sync,
    ⟨h.mirrors.mapping, ?_, h.mirrors.nonneg, h.mirrors.numbered⟩⟩
  intro hc
  have hcounted := h.mirrors.counted hc
  have hnn : ¬ p.chunkProxyNbRows < 0 := by omega
  simp only [countSyncRows, hnn, if_false]
  exact hcounted

theorem Awaiting.scheduled (h : p.Awaiting chunkTo old l sep) (idle : Bool) :
    ({ p with chunkSyncIdleId := idle } : GdaDataProxy D).countSyncRows.Syncing
      chunkTo old l sep :=
  ⟨h.notified, h.indirect, h.pending, h.mapped, h.chunkSep, h.sync,
    ⟨h.mirrors.mapping, h.mirrors.counted, h.mirrors.nonneg, h.mirrors.numbered⟩⟩

theorem guint_pos {i : Int} (h : 0 < i) : 0 < guint i := by
  rw [guint, if_pos (Int.le_of_lt h)]
  omega

theorem Syncing.maxSteps_pos (h : p.Syncing chunkTo old l sep) {idleStep : Nat}
    (hk : 0 < idleStep) : 0 < p.syncMaxSteps idleStep chunkTo := by
  have hle := h.sync.sep_le
  have htarget := h.sync.sep_le_target
  have hsep := h.chunkSep
  have hmax : ∀ a b : Nat, 0 < a ∨ 0 < b → 0 < if p.deferSync then min (max (max 0 a) b) idleStep
      else max (max 0 a) b := by
    intro a b hab
    split <;> omega
  refine hmax _ _ ?_
  cases chunkTo with
  | some mapping =>
    refine Or.inl (guint_pos ?_)
    have hlen : sep ≤ mapping.length := htarget
    omega
  | none =>
    cases hc : p.chunk with
    | none => exact absurd rfl (h.mapped hc)
    | some mapping =>
      obtain rfl := h.mirrors.mapping mapping hc
      refine Or.inr (guint_pos ?_)
      omega

def syncedRows (p : GdaDataProxy D) (chunkTo : DisplayChunk) (old : List Int) : List Int :=
  (p.targetRows chunkTo).takeWhile liveRow ++ old.dropWhile liveRow

def idleStart (p : GdaDataProxy D) : GdaDataProxy D :=
  ({ p with chunkSyncIdleId := p.deferSync && p.chunkSyncIdleId } : GdaDataProxy D).countSyncRows

theorem chunkSyncIdleStep_pending (h : p.chunkTo = some chunkTo) (idleStep : Nat) :
    (p.chunkSyncIdleStep idleStep).1 =
      if (syncLoop chunkTo (p.idleStart.syncMaxSteps idleStep chunkTo) p.idleStart
        (guint p.idleStart.chunkSep)).2 then
        (syncLoop chunkTo (p.idleStart.syncMaxSteps idleStep chunkTo) p.idleStart
          (guint p.idleStart.chunkSep)).1.endSync chunkTo
      else (syncLoop chunkTo (p.idleStart.syncMaxSteps idleStep chunkTo) p.idleStart
        (guint p.idleStart.chunkSep)).1 := by
  have hstep : p.chunkSyncIdleStep idleStep =
      if (syncLoop chunkTo (p.idleStart.syncMaxSteps idleStep chunkTo) p.idleStart
        (guint p.idleStart.chunkSep)).2 then
        ((syncLoop chunkTo (p.idleStart.syncMaxSteps idleStep chunkTo) p.idleStart
          (guint p.idleStart.chunkSep)).1.endSync chunkTo, false)
      else ((syncLoop chunkTo (p.idleStart.syncMaxSteps idleStep chunkTo) p.idleStart
        (guint p.idleStart.chunkSep)).1, true) := by
    cases p
    cases h
    rfl
  rw [hstep]
  split <;> rfl

theorem Awaiting.idle (h : p.Awaiting chunkTo old l sep) (idleStep : Nat) :
    ((p.chunkSyncIdleStep idleStep).1.chunkTo = none ∧
      (p.chunkSyncIdleStep idleStep).1.chunk = chunkTo ∧
      p.Signaled (p.chunkSyncIdleStep idleStep).1 l (p.syncedRows chunkTo old)) ∨
    ∃ l' sep', (p.chunkSyncIdleStep idleStep).1.Awaiting chunkTo old l' sep' ∧
      p.Signaled (p.chunkSyncIdleStep idleStep).1 l l' ∧
      (0 < idleStep → todo liveRow (p.targetRows chunkTo) l' sep' <
        todo liveRow (p.targetRows chunkTo) l sep) := by
  have hs : p.idleStart.Syncing chunkTo old l sep := h.scheduled (p.deferSync && p.chunkSyncIdleId)
  have hpending : p.chunkTo = some chunkTo := h.pending
  have hsep : guint p.idleStart.chunkSep = sep := by
    rw [hs.chunkSep, guint, if_pos (Int.natCast_nonneg sep), Int.toNat_natCast]
  have hsame : p.Redisplayed p.idleStart := ⟨_, _, _, _, _, _, _, _, rfl⟩
  have hquiet : p.Signaled p.idleStart l l := ⟨[], (List.append_nil _).symm, rfl⟩
  rw [chunkSyncIdleStep_pending hpending, hsep]
  generalize p.idleStart = q at hs hsame hquiet
  obtain ⟨l', sep', hsync, hsignaled, hdone, htodo⟩ :=
    hs.loop (q.syncMaxSteps idleStep chunkTo)
  have hr := redisplayed_syncLoop chunkTo (q.syncMaxSteps idleStep chunkTo) q sep
  have hall := hquiet.trans hsame.nullRows hsignaled
  rw [hsame.targetRows] at hdone htodo
  cases hend : (syncLoop chunkTo (q.syncMaxSteps idleStep chunkTo) q sep).2 with
  | true =>
    obtain ⟨hl, ht⟩ := hdone hend
    have hrows := hsync.sync
    rw [hr.targetRows, hsame.targetRows] at hrows
    have hfinal : l' = p.syncedRows chunkTo old := hrows.finish hl ht
    rw [if_pos rfl]
    refine Or.inl ⟨rfl, rfl, ?_⟩
    obtain ⟨signals, he, hm⟩ := hall
    exact ⟨signals, he, hfinal ▸ hm⟩
  | false =>
    rw [if_neg Bool.false_ne_true]
    refine Or.inr ⟨l', sep', hsync.awaiting, hall, ?_⟩
    intro hk
    have hpos := hs.maxSteps_pos hk
    have hleft := htodo hend
    omega

/-- Calls of `chunk_sync_idle`, each with the number of turns it may make. -/
def runSync : List Nat → GdaDataProxy D → GdaDataProxy D
  | [], p => p
  | idleStep :: cuts, p => runSync cuts (p.chunkSyncIdleStep idleStep).1

theorem redisplayed_runSync (cuts : List Nat) (p : GdaDataProxy D) :
    p.Redisplayed (runSync cuts p) := by
  induction cuts generalizing p with
  | nil => exact .refl p
  | cons idleStep cuts ih => exact (redisplayed_chunkSyncIdleStep idleStep p).trans (ih _)

theorem runSync_idle (cuts : List Nat) (h : p.chunkTo = none) :
    (runSync cuts p).chunkTo = none ∧ (runSync cuts p).chunk = p.chunk ∧
      (runSync cuts p).emitted = p.emitted := by
  induction cuts generalizing p with
  | nil => exact ⟨h, rfl, rfl⟩
  | cons idleStep cuts ih =>
    have hstep : (p.chunkSyncIdleStep idleStep).1 =
        { p with chunkSyncIdleId := p.deferSync && p.chunkSyncIdleId } := by
      simp [chunkSyncIdleStep, h]
    rw [runSync, hstep]
    exact ih h

theorem Awaiting.run (h : p.Awaiting chunkTo old l sep) {cuts : List Nat}
    (hend : (runSync cuts p).chunkTo = none) :
    (runSync cuts p).chunk = chunkTo ∧
      p.Signaled (runSync cuts p) l (p.syncedRows chunkTo old) := by
  induction cuts generalizing p l sep with
  | nil =>
    have hpending : p.chunkTo = some chunkTo := h.pending
    rw [runSync, hpending] at hend
    cases hend
  | cons idleStep cuts ih =>
    have hr := redisplayed_chunkSyncIdleStep idleStep p
    rw [runSync] at hend ⊢
    rcases h.idle idleStep with ⟨hto, hchunk, hsignaled⟩ | ⟨l', sep', hq, hsignaled, -⟩
    · obtain ⟨-, hchunk', hemitted⟩ := runSync_idle cuts hto
      refine ⟨hchunk'.trans hchunk, ?_⟩
      obtain ⟨signals, he, hm⟩ := hsignaled
      exact ⟨signals, hemitted.trans he, hm⟩
    · obtain ⟨hchunk, hrest⟩ := ih hq hend
      have hrows : (p.chunkSyncIdleStep idleStep).1.syncedRows chunkTo old =
          p.syncedRows chunkTo old := by
        rw [syncedRows, hr.targetRows, ← syncedRows]
      rw [hrows] at hrest
      exact ⟨hchunk, hsignaled.trans hr.nullRows hrest⟩

theorem runSync_append (cuts cuts' : List Nat) (p : GdaDataProxy D) :
    runSync (cuts ++ cuts') p = runSync cuts' (runSync cuts p) := by
  induction cuts generalizing p with
  | nil => rfl
  | cons idleStep cuts ih => exact ih _

theorem awaiting_start (hn : p.notifyChanges = true) (hf : p.forceDirectMapping = false)
    (hto : p.chunkTo = some chunkTo) (hmapped : p.chunk = none → chunkTo ≠ none)
    (hrows : p.chunk = none → 0 ≤ p.modelNbRows) (hsep : p.chunkSep = 0)
    (hcount : p.chunkProxyNbRows = -1) :
    p.Awaiting chunkTo p.displayedRows p.displayedRows 0 := by
  have hnb : p.countSyncRows.chunkProxyNbRows = p.modelNbRows + p.modifs.newRows.length := by
    simp [countSyncRows, hcount]
  refine ⟨hn, hf, hto, hmapped, hsep, Sync.start _ _ _, ?_, ?_, ?_, ?_⟩
  · intro mapping hc
    have hc' : p.chunk = some mapping := hc
    simp [displayedRows, hc']
  · intro hc
    have hc' : p.chunk = none := hc
    have hnn := hrows hc'
    rw [hnb]
    simp only [displayedRows, hc', length_rowsBelow]
    omega
  · intro hc v hv
    have hc' : p.chunk = none := hc
    simp only [displayedRows, hc', List.drop_zero] at hv
    exact of_decide_eq_true (live_of_mem_rowsBelow hv)
  · intro hc b hb i _ hi
    have hc' : p.chunk = none := hc
    simp only [displayedRows, hc', length_rowsBelow] at hi ⊢
    rw [getElem?_rowsBelow, if_pos (by omega)]

def newDisplay (p : GdaDataProxy D) : Except Fault (GdaDataProxy D × DisplayChunk) :=
  ({ p with chunkSyncIdleId := false, chunkTo := none } : GdaDataProxy D).computeDisplayChunk

theorem adjustDisplayedChunk_ok {s q : GdaDataProxy D} (hd : p.newDisplay = .ok (s, chunkTo))
    (hq : p.adjustDisplayedChunk = .ok q) :
    p.Redisplayed q ∧
    ((p.chunk = chunkTo ∧ q.chunk = chunkTo ∧ q.chunkTo = none ∧ q.emitted = p.emitted) ∨
      (p.chunk ≠ chunkTo ∧ ∃ r cuts, q = runSync cuts r ∧ p.Redisplayed r ∧ r.chunk = p.chunk ∧
        r.chunkTo = some chunkTo ∧ r.chunkSep = 0 ∧ r.chunkProxyNbRows = -1 ∧
        ∃ first last, r.emitted = p.emitted ++ [.sampleChanged first last])) := by
  refine ⟨redisplayed_adjustDisplayedChunk hq, ?_⟩
  obtain ⟨⟨s', chunkTo'⟩, hr, h⟩ := bind_ok hq
  have hsame : (s', chunkTo') = (s, chunkTo) := Except.ok.inj (hr.symm.trans hd)
  obtain ⟨rfl, rfl⟩ := Prod.mk.inj hsame
  obtain ⟨first, last, rfl⟩ := computeDisplayChunk_ok hr
  simp only at h
  split at h
  · obtain rfl := Except.ok.inj h
    have hc : p.chunk = chunkTo' := ‹_›
    exact Or.inl ⟨hc, hc, rfl, rfl⟩
  · have hc : ¬ p.chunk = chunkTo' := ‹_›
    split at h
    · obtain rfl := Except.ok.inj h
      exact Or.inr ⟨hc, _, [50], rfl, ⟨_, _, _, _, _, _, _, _, rfl⟩, rfl, rfl, rfl, rfl, _, _, rfl⟩
    · obtain rfl := Except.ok.inj h
      exact Or.inr ⟨hc, _, [], rfl, ⟨_, _, _, _, _, _, _, _, rfl⟩, rfl, rfl, rfl, rfl, _, _, rfl⟩

/-- The listeners are told all of the change to the display `chunkTo`. -/
def TellsAll (p : GdaDataProxy D) (chunkTo : DisplayChunk) : Prop :=
  p.chunk = chunkTo ∨
    match chunkTo with
    | some mapping => p.displayedRows.dropWhile liveRow = mapping.dropWhile liveRow
    | none => 0 ≤ p.modelNbRows ∧ p.modifs.newRows = [] ∧ ∀ v ∈ p.displayedRows, 0 ≤ v

theorem dropWhile_eq_nil_of_rowsBelow {rows : List Int} {n m : Int}
    (h : rowsBelow n ++ rows.dropWhile liveRow = rowsBelow m) : rows.dropWhile liveRow = [] := by
  cases hd : rows.dropWhile liveRow with
  | nil => rfl
  | cons v rest =>
    have hhead : ¬ liveRow v = true := by
      have hnot := List.head_dropWhile_not liveRow (l := rows) (by simp [hd])
      simp only [hd, List.head_cons] at hnot
      simp [hnot]
    have hmem : v ∈ rowsBelow m := by
      rw [← h, hd]
      exact List.mem_append_right _ List.mem_cons_self
    exact absurd (live_of_mem_rowsBelow hmem) hhead

theorem syncedRows_reported_iff {r : GdaDataProxy D} (hr : p.Redisplayed r)
    (hf : p.forceDirectMapping = false) (hrows : p.modelNbRows = p.model.getNRows)
    (hne : p.chunk ≠ chunkTo) (hchunk : r.chunk = chunkTo) (hto : r.chunkTo = none) :
    r.Reports (r.nullRows ++ p.syncedRows chunkTo p.displayedRows) ↔ p.TellsAll chunkTo := by
  have hfr : r.forceDirectMapping = false := hr.forceDirectMapping.trans hf
  rw [reports_iff hfr (fun _ => hto), List.append_cancel_left_eq, hr.modelNbRows, hchunk]
  cases chunkTo with
  | some mapping =>
    have hsplit := List.takeWhile_append_dropWhile (p := liveRow) (l := mapping)
    have hrows' : r.displayedRows = mapping := by simp [displayedRows, hchunk]
    simp only [TellsAll, hne, false_or, syncedRows, targetRows, hrows', reduceCtorEq, false_implies,
      and_true]
    constructor
    · intro h
      rw [← hsplit] at h
      have hcancel := h
      rw [List.takeWhile_append_dropWhile] at hcancel
      exact List.append_cancel_left (hcancel.trans hsplit.symm)
    · intro h
      rw [h, hsplit]
  | none =>
    have hrows' : r.displayedRows = rowsBelow (p.modelNbRows + p.modifs.newRows.length) := by
      simp [displayedRows, hchunk, hr.modelNbRows, hr.modifs]
    have hall : (rowsBelow p.modelNbRows).takeWhile liveRow = rowsBelow p.modelNbRows :=
      List.takeWhile_eq_self_iff.2 fun v hv => live_of_mem_rowsBelow hv
    simp only [TellsAll, hne, false_or, syncedRows, targetRows, hrows', ← hrows, hall,
      forall_true_left]
    constructor
    · rintro ⟨h, hk⟩
      have hnil := dropWhile_eq_nil_of_rowsBelow h
      refine ⟨hk, ?_, ?_⟩
      · have hlen := congrArg List.length h
        rw [hnil, List.append_nil, length_rowsBelow, length_rowsBelow] at hlen
        exact List.eq_nil_of_length_eq_zero (by omega)
      · intro v hv
        exact of_decide_eq_true (List.dropWhile_eq_nil_iff.1 hnil v hv)
    · rintro ⟨hk, hnew, hnn⟩
      have hnil : p.displayedRows.dropWhile liveRow = [] :=
        List.dropWhile_eq_nil_iff.2 fun v hv => decide_eq_true (hnn v hv)
      exact ⟨by simp [hnil, hnew], hk⟩

/-- The rows that a listener keeps up to date are those which the proxy reports at the end
of a synchronization, exactly when it is told all of it. -/
theorem sync_mirror_iff {q s : GdaDataProxy D} {mirror : List Int}
    (hn : p.notifyChanges = true) (hf : p.forceDirectMapping = false)
    (hto : p.chunk = none → p.chunkTo = none) (hrows : p.modelNbRows = p.model.getNRows)
    (hm : p.Reports mirror) (hd : p.newDisplay = .ok (s, chunkTo))
    (hq : p.adjustDisplayedChunk = .ok q) (cuts : List Nat)
    (hend : (runSync cuts q).chunkTo = none) :
    (runSync cuts q).Reports
        (mirrorAfter ((runSync cuts q).emitted.drop p.emitted.length) mirror) ↔
      p.TellsAll chunkTo := by
  obtain ⟨hsame, hcase⟩ := adjustDisplayedChunk_ok hd hq
  obtain ⟨rfl, hknown⟩ := (reports_iff hf hto mirror).1 hm
  rcases hcase with ⟨hc, hqc, hqto, hqe⟩ | ⟨hc, r, before, rfl, hr, hrc, hrto, hrsep, hrnb, first,
    last, hre⟩
  · -- the display is the same
    obtain ⟨-, hchunk, hemitted⟩ := runSync_idle cuts hqto
    have hquiet : (runSync cuts q).emitted.drop p.emitted.length = [] := by
      rw [hemitted, hqe, List.drop_length]
    have hrun := hsame.trans (redisplayed_runSync cuts q)
    have hchunk' : (runSync cuts q).chunk = p.chunk := hchunk.trans (hqc.trans hc.symm)
    rw [hquiet]
    refine iff_of_true ?_ (Or.inl hc)
    refine (reports_iff (hrun.forceDirectMapping.trans hf) (fun _ => hend) _).2 ⟨?_, ?_⟩
    · rw [hrun.nullRows, hrun.displayedRows hchunk']
      rfl
    · intro hnone
      rw [hrun.modelNbRows]
      exact hknown (hchunk'.symm.trans hnone)
  · have hstart : r.Awaiting chunkTo r.displayedRows r.displayedRows 0 := by
      obtain ⟨_, _, _, _, _, _, _, _, rfl⟩ := hr
      refine awaiting_start hn hf hrto ?_ (fun hnone => hknown (hrc ▸ hnone)) hrsep hrnb
      rintro hnone rfl
      exact hc (hrc.symm.trans hnone)
    have hdisplayed := hr.displayedRows hrc
    rw [← runSync_append] at hend ⊢
    obtain ⟨hchunk, signals, he, hmirror⟩ := hstart.run hend
    have htold : (runSync (before ++ cuts) r).emitted.drop p.emitted.length =
        .sampleChanged first last :: signals := by
      rw [he, hre, List.append_assoc, List.drop_left]
      rfl
    have hrun := hr.trans (redisplayed_runSync (before ++ cuts) r)
    have hsynced : r.syncedRows chunkTo r.displayedRows = p.syncedRows chunkTo p.displayedRows := by
      rw [syncedRows, hr.targetRows, hdisplayed, ← syncedRows]
    have hfinal : mirrorAfter (.sampleChanged first last :: signals) (p.nullRows ++ p.displayedRows) =
        (runSync (before ++ cuts) r).nullRows ++ p.syncedRows chunkTo p.displayedRows := by
      rw [hrun.nullRows, ← hsynced, ← hr.nullRows, ← hmirror, hdisplayed]
      rfl
    rw [htold, hfinal]
    exact syncedRows_reported_iff hrun hf hrows hc hchunk hend

def reorderedProxy : GdaDataProxy Int :=
  { model := { columns := [{ gType := some 1 }], rows := [[some (.data 1 10)], [some (.data 1 20)]] }
    modelNbCols := 1
    modelNbRows := 2
    chunk := some [1] }

theorem reordered_rows_are_mirrored : ∃ q, reorderedProxy.adjustDisplayedChunk = .ok q ∧
    (runSync [1, 2, 7] q).Reports (mirrorAfter ((runSync [1, 2, 7] q).emitted.drop 0) [1]) := by
  have hm : reorderedProxy.Reports [1] :=
    (reports_iff rfl (fun _ => rfl) _).2 ⟨rfl, (nomatch ·)⟩
  obtain ⟨q, hq⟩ : ∃ q, reorderedProxy.adjustDisplayedChunk = .ok q := ⟨_, rfl⟩
  have hend : (runSync [1, 2, 7] q).chunkTo = none := by
    obtain rfl := Except.ok.inj hq
    rfl
  refine ⟨q, hq, (sync_mirror_iff rfl rfl (fun _ => rfl) rfl hm rfl hq [1, 2, 7] hend).2 ?_⟩
  exact Or.inr ⟨by decide, rfl, by decide⟩

def appendedProxy : GdaDataProxy Int :=
  { model := { columns := [{ gType := some 1 }], rows := [[some (.data 1 10)], [some (.data 1 20)]] }
    modelNbCols := 1
    modelNbRows := 2
    modifs := { allModifs := [0], newRows := [0], nextPtr := 1 }
    chunk := some [0, 2] }

theorem new_row_is_not_mirrored :
    ¬ ∀ (p q s : GdaDataProxy Int) (chunkTo : DisplayChunk) (mirror : List Int) (cuts : List Nat),
      p.notifyChanges = true → p.forceDirectMapping = false →
      (p.chunk = none → p.chunkTo = none) → p.modelNbRows = p.model.getNRows →
      p.Reports mirror → p.newDisplay = .ok (s, chunkTo) → p.adjustDisplayedChunk = .ok q →
      (runSync cuts q).chunkTo = none →
      (runSync cuts q).Reports
        (mirrorAfter ((runSync cuts q).emitted.drop p.emitted.length) mirror) := by
  intro h
  have hm : appendedProxy.Reports [0, 2] :=
    (reports_iff rfl (fun _ => rfl) _).2 ⟨rfl, (nomatch ·)⟩
  have hreports := h appendedProxy _ _ _ [0, 2] [50] rfl rfl (nomatch ·) rfl hm rfl rfl rfl
  have hn := hreports.1
  exact absurd hn (by decide)

end GdaDataProxy

end LibGda
