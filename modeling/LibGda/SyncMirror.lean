import LibGda.DisplayFrame
import LibGda.ListSync

/-! The synchronization of the display as its listeners see it: the signals of a
synchronization are edits of the rows, from those displayed to the new ones. -/

namespace LibGda

open ListSync RunInvariant

variable {D : Type}

def ProxySignal.edit : ProxySignal → Option (ListSync.Edit Int)
  | .rowInserted row absRow => some (.insert row.toNat absRow)
  | .rowUpdated row absRow => some (.update row.toNat absRow)
  | .rowRemoved row => some (.remove row.toNat)
  | _ => none

def mirrorAfter (signals : List ProxySignal) (mirror : List Int) : List Int :=
  replay (signals.filterMap ProxySignal.edit) mirror

theorem mirrorAfter_append (signals signals' : List ProxySignal) (mirror : List Int) :
    mirrorAfter (signals ++ signals') mirror = mirrorAfter signals' (mirrorAfter signals mirror) := by
  simp [mirrorAfter, replay_append]

def liveRow (absRow : Int) : Bool :=
  decide (0 ≤ absRow)

theorem liveAt_of_nonneg {rows : List Int} {i : Nat} (h : 0 ≤ (rows[i]?).getD (-1)) :
    liveAt liveRow rows i = some ((rows[i]?).getD (-1)) := by
  refine liveAt_eq_some.2 ⟨?_, decide_eq_true h⟩
  cases hget : rows[i]? with
  | none => rw [hget] at h; exact absurd h (by decide)
  | some v => rfl

theorem liveAt_of_neg {rows : List Int} {i : Nat} (h : (rows[i]?).getD (-1) < 0) :
    liveAt liveRow rows i = none := by
  cases hl : liveAt liveRow rows i with
  | none => rfl
  | some v =>
    obtain ⟨hget, hlive⟩ := liveAt_eq_some.1 hl
    rw [hget] at h
    exact absurd (of_decide_eq_true hlive) (Int.not_le.2 h)

def rowsBelow (n : Int) : List Int :=
  (List.range n.toNat).map Int.ofNat

theorem getElem?_rowsBelow (n : Int) (i : Nat) :
    (rowsBelow n)[i]? = if (i : Int) < n then some (i : Int) else none := by
  by_cases hi : (i : Int) < n
  · have hlt : i < n.toNat := by omega
    simp [rowsBelow, hi, hlt]
  · have hge : ¬ i < n.toNat := by omega
    simp [rowsBelow, hi, hge]

theorem length_rowsBelow (n : Int) : (rowsBelow n).length = n.toNat := by
  simp [rowsBelow]

theorem live_of_mem_rowsBelow {n v : Int} (h : v ∈ rowsBelow n) : liveRow v = true := by
  obtain ⟨i, -, rfl⟩ := List.mem_map.1 h
  exact decide_eq_true (Int.natCast_nonneg i)

namespace GdaDataProxy

/-- The `NULL` entry which is displayed before the rows. -/
def nullRows (p : GdaDataProxy D) : List Int :=
  if p.addNullEntry then [-1] else []

def displayedRows (p : GdaDataProxy D) : List Int :=
  match p.chunk with
  | some mapping => mapping
  | none => rowsBelow (p.modelNbRows + p.modifs.newRows.length)

def targetRows (p : GdaDataProxy D) : DisplayChunk → List Int
  | some mapping => mapping
  | none => rowsBelow p.model.getNRows

def Reports (p : GdaDataProxy D) (mirror : List Int) : Prop :=
  p.getNRows = mirror.length ∧
    ∀ i : Nat, i < mirror.length → mirror[i]? = some (p.proxyRowToAbsoluteRow i)

def absoluteRowAt (p : GdaDataProxy D) (i : Nat) : Int :=
  match p.chunk with
  | some mapping => mapping.getD i (-1)
  | none =>
    match p.chunkTo with
    | some (some mapping) => if i < p.chunkSep then mapping.getD i i else i
    | _ => i

theorem length_nullRows (p : GdaDataProxy D) :
    (p.nullRows.length : Int) = if p.addNullEntry then 1 else 0 := by
  unfold nullRows
  split <;> rfl

theorem proxyRowToAbsoluteRow_shift {p : GdaDataProxy D} (hf : p.forceDirectMapping = false)
    (i : Nat) : p.proxyRowToAbsoluteRow (i + p.nullRows.length : Nat) = p.absoluteRowAt i := by
  have hneg : ¬ ((i + p.nullRows.length : Nat) : Int) < 0 := by omega
  rw [proxyRowToAbsoluteRow, if_neg hneg, hf]
  have hz : ((i : Int) + 1 == 0) = false := by
    simp only [beq_eq_false_iff_ne]
    omega
  rcases hc : p.chunk with _ | mapping <;> rcases hto : p.chunkTo with _ | _ | mappingTo <;>
    cases ha : p.addNullEntry <;> simp [nullRows, ha, absoluteRowAt, hc, hto, hz]

theorem reports_iff {p : GdaDataProxy D} (hf : p.forceDirectMapping = false)
    (hto : p.chunk = none → p.chunkTo = none) (mirror : List Int) :
    p.Reports mirror ↔
      mirror = p.nullRows ++ p.displayedRows ∧ (p.chunk = none → 0 ≤ p.modelNbRows) := by
  have hnull := p.length_nullRows
  -- the rows after the `NULL` entry are the displayed ones
  have hrow : ∀ i : Nat, i < p.displayedRows.length →
      p.displayedRows[i]? = some (p.absoluteRowAt i) := by
    intro i hi
    cases hc : p.chunk with
    | some mapping =>
      simp only [displayedRows, hc] at hi ⊢
      simp [absoluteRowAt, hc, hi]
    | none =>
      simp only [displayedRows, hc] at hi ⊢
      rw [length_rowsBelow] at hi
      have hlt : (i : Int) < p.modelNbRows + p.modifs.newRows.length := by omega
      simp [getElem?_rowsBelow, hlt, absoluteRowAt, hc, hto hc]
  have hcount : (p.chunk = none → 0 ≤ p.modelNbRows) →
      p.getNRows = (p.nullRows ++ p.displayedRows).length := by
    intro hk
    rw [List.length_append, Int.natCast_add, hnull]
    cases hc : p.chunk with
    | some mapping => simp [getNRows, hc, hf, displayedRows, Int.add_comm]
    | none =>
      have hnn := hk hc
      simp only [getNRows, hc, hf, hto hc, displayedRows, length_rowsBelow, hnn, if_true,
        Bool.not_false, Bool.true_and]
      omega
  have hall : ∀ i : Nat, i < (p.nullRows ++ p.displayedRows).length →
      (p.nullRows ++ p.displayedRows)[i]? = some (p.proxyRowToAbsoluteRow i) := by
    intro i hi
    by_cases hb : i < p.nullRows.length
    · rw [List.getElem?_append_left hb]
      cases ha : p.addNullEntry with
      | false => simp [nullRows, ha] at hb
      | true =>
        have hz : i = 0 := by simpa [nullRows, ha] using hb
        subst hz
        simp [nullRows, ha, proxyRowToAbsoluteRow, hf]
    · obtain ⟨j, rfl⟩ := Nat.exists_eq_add_of_le' (Nat.le_of_not_lt hb)
      rw [List.length_append] at hi
      rw [List.getElem?_append_right (Nat.le_add_left _ _), Nat.add_sub_cancel,
        hrow j (by omega), proxyRowToAbsoluteRow_shift hf]
  constructor
  · rintro ⟨hn, hm⟩
    have hk : p.chunk = none → 0 ≤ p.modelNbRows := by
      intro hc
      by_contra hneg
      simp only [getNRows, hc, hneg, if_false] at hn
      omega
    refine ⟨?_, hk⟩
    have hlen : mirror.length = (p.nullRows ++ p.displayedRows).length := by
      have hc := hcount hk
      omega
    refine List.ext_getElem? ?_
    intro i
    by_cases hi : i < mirror.length
    · rw [hm i hi, hall i (by omega)]
    · rw [List.getElem?_eq_none (by omega), List.getElem?_eq_none (by omega)]
  · rintro ⟨rfl, hk⟩
    exact ⟨hcount hk, hall⟩

theorem syncReplRow_eq (p : GdaDataProxy D) (chunkTo : DisplayChunk) (i : Nat) :
    p.syncReplRow chunkTo i = ((p.targetRows chunkTo)[i]?).getD (-1) := by
  cases chunkTo with
  | some mapping => simp [syncReplRow, targetRows]
  | none =>
    have hmove : p.model.iterMoveToRow i = decide ((i : Int) < p.model.getNRows) := by
      simp [GdaDataModel.iterMoveToRow]
    rw [syncReplRow, hmove, targetRows, getElem?_rowsBelow]
    by_cases hi : (i : Int) < p.model.getNRows
    · simp [hi]
    · simp [hi]

/-- The rows kept by a listener during a synchronization, `l` after the `NULL` entry,
and what the proxy counts without a mapping. -/
structure Mirrors (p : GdaDataProxy D) (target l : List Int) (sep : Nat) : Prop where
  mapping : ∀ mapping, p.chunk = some mapping → mapping = l
  counted : p.chunk = none → 0 ≤ p.chunkProxyNbRows ∧ (l.length : Int) = max p.chunkProxyNbRows sep
  nonneg : p.chunk = none → ∀ v ∈ l.drop sep, 0 ≤ v
  numbered : p.chunk = none → ∀ b, liveAt liveRow target sep = some b →
    ∀ i, sep ≤ i → i < l.length → l[i]? = some (i : Int)

structure Syncing (p : GdaDataProxy D) (chunkTo : DisplayChunk) (old l : List Int) (sep : Nat) :
    Prop where
  notified : p.notifyChanges = true
  indirect : p.forceDirectMapping = false
  pending : p.chunkTo = some chunkTo
  mapped : p.chunk = none → chunkTo ≠ none
  chunkSep : p.chunkSep = sep
  sync : Sync liveRow old (p.targetRows chunkTo) l sep
  mirrors : p.Mirrors (p.targetRows chunkTo) l sep

variable {p : GdaDataProxy D} {target l : List Int} {sep : Nat}

theorem Mirrors.cur_live (h : p.Mirrors target l sep) (hcur : 0 ≤ p.syncCurRow sep) :
    ∃ v, liveAt liveRow l sep = some v ∧
      ∀ b, liveAt liveRow target sep = some b → v = p.syncCurRow sep := by
  cases hc : p.chunk with
  | some mapping =>
    obtain rfl := h.mapping mapping hc
    have hget : p.syncCurRow sep = (mapping[sep]?).getD (-1) := by simp [syncCurRow, hc]
    rw [hget] at hcur ⊢
    exact ⟨_, liveAt_of_nonneg hcur, fun b hb => rfl⟩
  | none =>
    obtain ⟨-, hlen⟩ := h.counted hc
    simp only [syncCurRow, hc] at hcur ⊢
    by_cases hs : p.chunkProxyNbRows ≤ sep
    · rw [if_pos hs] at hcur
      exact absurd hcur (by decide)
    · have hlt : sep < l.length := by omega
      have hmem : l[sep] ∈ l.drop sep := by
        rw [List.drop_eq_getElem_cons hlt]
        exact List.mem_cons_self
      refine ⟨l[sep], liveAt_eq_some.2 ⟨List.getElem?_eq_getElem hlt,
        decide_eq_true (h.nonneg hc _ hmem)⟩, ?_⟩
      intro b hb
      have hnum := h.numbered hc b hb sep (Nat.le_refl sep) hlt
      rw [List.getElem?_eq_getElem hlt] at hnum
      rw [if_neg hs]
      exact Option.some.inj hnum

theorem Mirrors.cur_dead (h : p.Mirrors target l sep) (hcur : p.syncCurRow sep < 0) :
    liveAt liveRow l sep = none ∧ (p.chunk = none → l.length ≤ sep) := by
  cases hc : p.chunk with
  | some mapping =>
    obtain rfl := h.mapping mapping hc
    have hget : p.syncCurRow sep = (mapping[sep]?).getD (-1) := by simp [syncCurRow, hc]
    rw [hget] at hcur
    exact ⟨liveAt_of_neg hcur, (nomatch ·)⟩
  | none =>
    obtain ⟨-, hlen⟩ := h.counted hc
    simp only [syncCurRow, hc] at hcur
    by_cases hs : p.chunkProxyNbRows ≤ sep
    · have hle : l.length ≤ sep := by omega
      refine ⟨?_, fun _ => hle⟩
      rw [liveAt, List.getElem?_eq_none hle]
      rfl
    · rw [if_neg hs] at hcur
      omega

/-- The signals since `p`, and what they make of the rows of a listener. -/
def Signaled (p q : GdaDataProxy D) (l l' : List Int) : Prop :=
  ∃ signals, q.emitted = p.emitted ++ signals ∧
    mirrorAfter signals (p.nullRows ++ l) = p.nullRows ++ l'

theorem Signaled.trans {p q r : GdaDataProxy D} {l l' l'' : List Int} (h : p.Signaled q l l')
    (hn : q.nullRows = p.nullRows) (h' : q.Signaled r l' l'') : p.Signaled r l l'' := by
  obtain ⟨signals, he, hm⟩ := h
  obtain ⟨signals', he', hm'⟩ := h'
  refine ⟨signals ++ signals', ?_, ?_⟩
  · rw [he', he, List.append_assoc]
  · rw [mirrorAfter_append, hm, ← hn, hm', hn]

theorem Signaled.refl (p : GdaDataProxy D) (l : List Int) : p.Signaled p l l :=
  ⟨[], by simp, rfl⟩

theorem signaled_edit {p q : GdaDataProxy D} {signal : ProxySignal} {e : ListSync.Edit Int}
    (he : q.emitted = p.emitted ++ [signal]) (hs : signal.edit = some (e.shift p.nullRows.length))
    (l : List Int) : p.Signaled q l (e.apply l) := by
  refine ⟨[signal], he, ?_⟩
  have hf : [signal].filterMap ProxySignal.edit = [e.shift p.nullRows.length] := by simp [hs]
  rw [mirrorAfter, hf]
  exact e.apply_shift p.nullRows l

theorem gArray_replace {array : List Int} {index : Nat} (h : index < array.length) (value : Int) :
    gArrayRemoveIndex (gArrayInsertVal array index value) (index + 1) = array.set index value := by
  have hle : index ≤ array.length := Nat.le_of_lt h
  have hlength : (array.take index ++ [value]).length = index + 1 := by simp [hle]
  have hsplit : array.take index ++ value :: array.drop index =
      (array.take index ++ [value]) ++ array.drop index := by simp
  rw [gArrayInsertVal, if_pos hle, gArrayRemoveIndex, hsplit, ← hlength,
    List.eraseIdx_append_of_length_le (Nat.le_refl _), Nat.sub_self, List.drop_eq_getElem_cons h,
    List.eraseIdx_cons_zero, List.set_eq_take_append_cons_drop, if_pos h, List.append_assoc]
  rfl

section Step

variable {chunkTo : DisplayChunk} {old : List Int}

theorem Syncing.notify (h : p.Syncing chunkTo old l sep) (signal : ProxySignal) :
    (p.notify signal).Syncing chunkTo old l sep :=
  ⟨h.notified, h.indirect, h.pending, h.mapped, h.chunkSep, h.sync,
    ⟨h.mirrors.mapping, h.mirrors.counted, h.mirrors.nonneg, h.mirrors.numbered⟩⟩

theorem notify_emitted (h : p.notifyChanges = true) (signal : ProxySignal) :
    (p.notify signal).emitted = p.emitted ++ [signal] := by
  simp [GdaDataProxy.notify, h]

theorem Syncing.absoluteRowAt (h : p.Syncing chunkTo old l (sep + 1)) {b : Int}
    (hb : liveAt liveRow (p.targetRows chunkTo) sep = some b) : p.absoluteRowAt sep = b := by
  have hget := (liveAt_eq_some.1 hb).1
  have hl : l[sep]? = some b := by
    have htake := congrArg (fun rows : List Int => rows[sep]?) h.sync.done
    simp only [List.getElem?_take, Nat.lt_succ_self, if_true] at htake
    rw [htake, hget]
  cases hc : p.chunk with
  | some mapping =>
    obtain rfl := h.mirrors.mapping mapping hc
    simp [GdaDataProxy.absoluteRowAt, hc, hl]
  | none =>
    cases chunkTo with
    | none => exact absurd rfl (h.mapped hc)
    | some mapping =>
      have hmapping : mapping[sep]? = some b := hget
      have hlt : (sep : Int) < p.chunkSep := by
        rw [h.chunkSep]
        omega
      simp [GdaDataProxy.absoluteRowAt, hc, h.pending, hlt, hmapping]

theorem Syncing.row_eq (h : p.Syncing chunkTo old l (sep + 1)) {b : Int}
    (hb : liveAt liveRow (p.targetRows chunkTo) sep = some b) :
    p.proxyRowToAbsoluteRow (sep + if p.addNullEntry then 1 else 0) = b := by
  have hrow : (sep : Int) + (if p.addNullEntry then 1 else 0) =
      ((sep + p.nullRows.length : Nat) : Int) := by
    rw [Int.natCast_add, p.length_nullRows]
  rw [hrow, proxyRowToAbsoluteRow_shift h.indirect, h.absoluteRowAt hb]

theorem toNat_row (p : GdaDataProxy D) (sep : Nat) :
    ((sep : Int) + if p.addNullEntry then 1 else 0).toNat = sep + p.nullRows.length := by
  have hnull := p.length_nullRows
  omega

theorem Syncing.replace (h : p.Syncing chunkTo old l sep) {a b : Int}
    (ha : liveAt liveRow l sep = some a)
    (hb : liveAt liveRow (p.targetRows chunkTo) sep = some b) :
    ({ p with
      chunk := p.chunk.map fun mapping =>
        gArrayRemoveIndex (gArrayInsertVal mapping sep b) (sep + 1)
      chunkSep := p.chunkSep + 1 } : GdaDataProxy D).Syncing chunkTo old (l.set sep b) (sep + 1) := by
  have hlt := lt_of_liveAt ha
  have hdrop : (l.set sep b).drop (sep + 1) = l.drop (sep + 1) :=
    List.drop_set_of_lt (Nat.lt_succ_self sep)
  refine ⟨h.notified, h.indirect, h.pending, ?_, ?_, h.sync.update ha hb, ?_, ?_, ?_, ?_⟩
  · intro hc
    exact h.mapped (Option.map_eq_none_iff.1 hc)
  · show p.chunkSep + 1 = ((sep + 1 : Nat) : Int)
    rw [h.chunkSep]
    rfl
  · intro mapping hm
    obtain ⟨mapping', hc, rfl⟩ := Option.map_eq_some_iff.1 hm
    obtain rfl := h.mirrors.mapping mapping' hc
    exact gArray_replace hlt b
  · intro hc
    obtain ⟨hnn, hlen⟩ := h.mirrors.counted (Option.map_eq_none_iff.1 hc)
    refine ⟨hnn, ?_⟩
    show ((l.set sep b).length : Int) = max p.chunkProxyNbRows ((sep + 1 : Nat) : Int)
    rw [List.length_set]
    omega
  · intro hc v hv
    rw [hdrop] at hv
    have hmem : v ∈ l.drop sep := by
      rw [List.drop_eq_getElem_cons hlt]
      exact List.mem_cons_of_mem _ hv
    exact h.mirrors.nonneg (Option.map_eq_none_iff.1 hc) v hmem
  · intro hc b' hb' i hi hil
    rw [List.length_set] at hil
    rw [List.getElem?_set_ne (by omega)]
    exact h.mirrors.numbered (Option.map_eq_none_iff.1 hc) b hb i (by omega) hil

theorem Syncing.shrink (h : p.Syncing chunkTo old l sep) {a : Int}
    (ha : liveAt liveRow l sep = some a)
    (ht : liveAt liveRow (p.targetRows chunkTo) sep = none) :
    ({ p with
      chunk := p.chunk.map fun mapping => gArrayRemoveIndex mapping sep
      chunkProxyNbRows := p.chunkProxyNbRows - 1 } : GdaDataProxy D).Syncing chunkTo old
        (l.eraseIdx sep) sep := by
  have hlt := lt_of_liveAt ha
  refine ⟨h.notified, h.indirect, h.pending, ?_, h.chunkSep, h.sync.remove ha, ?_, ?_, ?_, ?_⟩
  · intro hc
    exact h.mapped (Option.map_eq_none_iff.1 hc)
  · intro mapping hm
    obtain ⟨mapping', hc, rfl⟩ := Option.map_eq_some_iff.1 hm
    obtain rfl := h.mirrors.mapping mapping' hc
    rfl
  · intro hc
    obtain ⟨hnn, hlen⟩ := h.mirrors.counted (Option.map_eq_none_iff.1 hc)
    show 0 ≤ p.chunkProxyNbRows - 1 ∧
      ((l.eraseIdx sep).length : Int) = max (p.chunkProxyNbRows - 1) (sep : Int)
    rw [List.length_eraseIdx_of_lt hlt]
    omega
  · intro hc v hv
    have hmem : v ∈ l.drop sep := by
      rw [List.eraseIdx_eq_take_drop_succ,
        List.drop_append_of_le_length (by simp [Nat.le_of_lt hlt])] at hv
      rw [List.drop_eq_getElem_cons hlt]
      simp only [List.drop_take, Nat.sub_self, List.take_zero, List.nil_append] at hv
      exact List.mem_cons_of_mem _ hv
    exact h.mirrors.nonneg (Option.map_eq_none_iff.1 hc) v hmem
  · intro hc b hb
    have ht' : liveAt liveRow (p.targetRows chunkTo) sep = some b := hb
    rw [ht] at ht'
    cases ht'

theorem Syncing.extend (h : p.Syncing chunkTo old l sep) {b : Int}
    (hend : p.chunk = none → l.length ≤ sep)
    (hb : liveAt liveRow (p.targetRows chunkTo) sep = some b) :
    ({ p with
      chunk := p.chunk.map fun mapping => gArrayInsertVal mapping sep b
      chunkSep := p.chunkSep + 1 } : GdaDataProxy D).Syncing chunkTo old
        (l.take sep ++ b :: l.drop sep) (sep + 1) := by
  have hle := h.sync.sep_le
  refine ⟨h.notified, h.indirect, h.pending, ?_, ?_, h.sync.insert hb, ?_, ?_, ?_, ?_⟩
  · intro hc
    exact h.mapped (Option.map_eq_none_iff.1 hc)
  · show p.chunkSep + 1 = ((sep + 1 : Nat) : Int)
    rw [h.chunkSep]
    rfl
  · intro mapping hm
    obtain ⟨mapping', hc, rfl⟩ := Option.map_eq_some_iff.1 hm
    obtain rfl := h.mirrors.mapping mapping' hc
    exact if_pos hle
  · intro hc
    have hc := Option.map_eq_none_iff.1 hc
    obtain ⟨hnn, hlen⟩ := h.mirrors.counted hc
    have hlast := hend hc
    refine ⟨hnn, ?_⟩
    show ((l.take sep ++ b :: l.drop sep).length : Int) =
      max p.chunkProxyNbRows ((sep + 1 : Nat) : Int)
    simp only [List.length_append, List.length_take, List.length_cons, List.length_drop]
    omega
  · intro hc v hv
    have hlast := hend (Option.map_eq_none_iff.1 hc)
    rw [List.drop_eq_nil_of_le] at hv
    · cases hv
    · simp only [List.length_append, List.length_take, List.length_cons, List.length_drop]
      omega
  · intro hc b' hb' i hi hil
    have hlast := hend (Option.map_eq_none_iff.1 hc)
    simp only [List.length_append, List.length_take, List.length_cons, List.length_drop] at hil
    omega

structure Turned (p : GdaDataProxy D) (chunkTo : DisplayChunk) (old l : List Int) (sep : Nat)
    (q : GdaDataProxy D) (next : Nat) (l' : List Int) : Prop where
  syncing : q.Syncing chunkTo old l' next
  todo_eq : todo liveRow (p.targetRows chunkTo) l' next + 1 =
    todo liveRow (p.targetRows chunkTo) l sep
  signaled : p.Signaled q l l'

theorem Syncing.step (h : p.Syncing chunkTo old l sep) :
    (p.syncStep chunkTo sep = none ∧ liveAt liveRow l sep = none ∧
      liveAt liveRow (p.targetRows chunkTo) sep = none) ∨
    ∃ q next l', p.syncStep chunkTo sep = some (q, next) ∧
      p.Turned chunkTo old l sep q next l' := by
  have hrepl := p.syncReplRow_eq chunkTo sep
  by_cases hcur : 0 ≤ p.syncCurRow sep
  · obtain ⟨a, ha, hnum⟩ := h.mirrors.cur_live hcur
    by_cases hr : 0 ≤ p.syncReplRow chunkTo sep
    · -- both rows are there
      have hb := liveAt_of_nonneg (hrepl ▸ hr)
      rw [← hrepl] at hb
      have hq := h.replace ha hb
      refine Or.inr ⟨_, _, l.set sep (p.syncReplRow chunkTo sep),
        if_pos ⟨hcur, hr⟩, ?_, todo_update ha hb, ?_⟩
      · split
        · exact hq.notify _
        · exact hq
      · split
        · refine signaled_edit (e := .update sep (p.syncReplRow chunkTo sep))
            (notify_emitted hq.notified _) ?_ l
          simp only [ProxySignal.edit, hq.row_eq hb, toNat_row, ListSync.Edit.shift]
          rfl
        · have heq : p.syncReplRow chunkTo sep = a := by
            rw [hnum _ hb]
            exact (not_ne_iff.1 ‹_›).symm
          have hset : l.set sep (p.syncReplRow chunkTo sep) = l := by
            obtain ⟨hlt, hval⟩ := List.getElem?_eq_some_iff.1 (liveAt_eq_some.1 ha).1
            rw [heq, ← hval]
            exact List.set_getElem_self hlt
          rw [hset]
          exact ⟨[], by simp, rfl⟩
    · -- the rows that are left go away
      have hneg : p.syncReplRow chunkTo sep < 0 := by omega
      have ht := liveAt_of_neg (hrepl ▸ hneg)
      have hq := h.shrink ha ht
      refine Or.inr ⟨_, _, l.eraseIdx sep, (if_neg (by omega)).trans (if_pos ⟨hcur, hneg⟩),
        hq.notify _, todo_remove ha ht, ?_⟩
      refine signaled_edit (e := .remove sep) (notify_emitted hq.notified _) ?_ l
      simp only [ProxySignal.edit, toNat_row, ListSync.Edit.shift]
      rfl
  · have hcur : p.syncCurRow sep < 0 := by omega
    obtain ⟨hl, hend⟩ := h.mirrors.cur_dead hcur
    by_cases hr : 0 ≤ p.syncReplRow chunkTo sep
    · -- rows are added at the end
      have hb := liveAt_of_nonneg (hrepl ▸ hr)
      rw [← hrepl] at hb
      have hq := h.extend hend hb
      refine Or.inr ⟨_, _, l.take sep ++ p.syncReplRow chunkTo sep :: l.drop sep,
        (if_neg (by omega)).trans ((if_neg (by omega)).trans (if_pos ⟨hcur, hr⟩)),
        hq.notify _, todo_insert hl hb h.sync.sep_le, ?_⟩
      refine signaled_edit (e := .insert sep (p.syncReplRow chunkTo sep))
        (notify_emitted hq.notified _) ?_ l
      simp only [ProxySignal.edit, hq.row_eq hb, toNat_row, ListSync.Edit.shift]
      rfl
    · have hneg : p.syncReplRow chunkTo sep < 0 := by omega
      have hnone : p.syncStep chunkTo sep = none :=
        (if_neg (by omega)).trans ((if_neg (by omega)).trans (if_neg (by omega)))
      exact Or.inl ⟨hnone, hl, liveAt_of_neg (hrepl ▸ hneg)⟩

end Step

end GdaDataProxy

end LibGda
