import LibGda.ProxyMachine
import LibGda.RunInvariant

/-! What the computation and the synchronization of the display leave as it is. -/

namespace LibGda

open RunInvariant

variable {D : Type}

namespace GdaDataProxy

def Redisplayed (p q : GdaDataProxy D) : Prop :=
  ∃ first last idle chunk chunkTo chunkSep chunkProxyNbRows emitted, q =
    { p with
      sampleFirstRow := first
      sampleLastRow := last
      chunkSyncIdleId := idle
      chunk := chunk
      chunkTo := chunkTo
      chunkSep := chunkSep
      chunkProxyNbRows := chunkProxyNbRows
      emitted := emitted }

theorem Redisplayed.refl (p : GdaDataProxy D) : p.Redisplayed p :=
  ⟨_, _, _, _, _, _, _, _, rfl⟩

theorem Redisplayed.trans {p q r : GdaDataProxy D} (h : p.Redisplayed q) (h' : q.Redisplayed r) :
    p.Redisplayed r := by
  obtain ⟨_, _, _, _, _, _, _, _, rfl⟩ := h
  obtain ⟨_, _, _, _, _, _, _, _, rfl⟩ := h'
  exact ⟨_, _, _, _, _, _, _, _, rfl⟩

theorem Redisplayed.modifs {p q : GdaDataProxy D} (h : p.Redisplayed q) : q.modifs = p.modifs := by
  obtain ⟨_, _, _, _, _, _, _, _, rfl⟩ := h
  rfl

theorem redisplayed_syncStep {p q : GdaDataProxy D} {chunkTo : DisplayChunk} {index next : Nat}
    (h : p.syncStep chunkTo index = some (q, next)) : p.Redisplayed q := by
  unfold syncStep at h
  simp only at h
  split at h
  · obtain ⟨rfl, -⟩ := Prod.mk.inj (Option.some.inj h)
    split
    · exact ⟨_, _, _, _, _, _, _, _, rfl⟩
    · exact ⟨_, _, _, _, _, _, _, _, rfl⟩
  · split at h
    · obtain ⟨rfl, -⟩ := Prod.mk.inj (Option.some.inj h)
      exact ⟨_, _, _, _, _, _, _, _, rfl⟩
    · split at h
      · obtain ⟨rfl, -⟩ := Prod.mk.inj (Option.some.inj h)
        exact ⟨_, _, _, _, _, _, _, _, rfl⟩
      · cases h

theorem redisplayed_syncLoop (chunkTo : DisplayChunk) (steps : Nat) (p : GdaDataProxy D)
    (index : Nat) : p.Redisplayed (syncLoop chunkTo steps p index).1 := by
  induction steps generalizing p index with
  | zero => exact .refl p
  | succ steps ih =>
    unfold syncLoop
    cases hs : p.syncStep chunkTo index with
    | none => exact .refl p
    | some next => exact (redisplayed_syncStep hs).trans (ih next.1 next.2)

theorem redisplayed_chunkSyncIdleStep (idleStep : Nat) (p : GdaDataProxy D) :
    p.Redisplayed (p.chunkSyncIdleStep idleStep).1 := by
  have hp : p.Redisplayed { p with chunkSyncIdleId := p.deferSync && p.chunkSyncIdleId } :=
    ⟨_, _, _, _, _, _, _, _, rfl⟩
  unfold chunkSyncIdleStep
  generalize ({ p with chunkSyncIdleId := p.deferSync && p.chunkSyncIdleId } : GdaDataProxy D) = q
    at hp
  simp only
  cases hto : q.chunkTo with
  | none => exact hp
  | some chunkTo =>
    have hq : q.Redisplayed q.countSyncRows := ⟨_, _, _, _, _, _, _, _, rfl⟩
    have hl := redisplayed_syncLoop chunkTo (q.countSyncRows.syncMaxSteps idleStep chunkTo)
      q.countSyncRows (guint q.countSyncRows.chunkSep)
    simp only
    split
    · exact ((hp.trans hq).trans hl).trans ⟨_, _, _, _, _, _, _, _, rfl⟩
    · exact (hp.trans hq).trans hl

theorem redisplayed_ensureChunkSync (p : GdaDataProxy D) : p.Redisplayed p.ensureChunkSync := by
  unfold ensureChunkSync
  split
  · obtain ⟨_, _, _, _, _, _, _, _, he⟩ :=
      redisplayed_chunkSyncIdleStep 50 { p with deferSync := false }
    rw [chunkSyncIdle, he]
    exact ⟨_, _, _, _, _, _, _, _, rfl⟩
  · exact .refl p

@[simp] theorem ensureChunkSync_modifs (p : GdaDataProxy D) : p.ensureChunkSync.modifs = p.modifs :=
  p.redisplayed_ensureChunkSync.modifs

theorem ensureChunkSync_of_not_scheduled {p : GdaDataProxy D} (h : p.chunkSyncIdleId = false) :
    p.ensureChunkSync = p := by
  simp [ensureChunkSync, h]

theorem clipSample_eq (p : GdaDataProxy D) (nbRows : Int) :
    ∃ first last, (p.clipSample nbRows).1 =
      { p with sampleFirstRow := first, sampleLastRow := last } := by
  unfold clipSample
  split <;> exact ⟨_, _, rfl⟩

theorem computeDisplayChunk_ok {p q : GdaDataProxy D} {chunk : DisplayChunk}
    (h : p.computeDisplayChunk = .ok (q, chunk)) :
    ∃ first last, q = { p with sampleFirstRow := first, sampleLastRow := last } := by
  unfold computeDisplayChunk at h
  split at h
  · obtain ⟨mapping, -, he⟩ := bind_ok h
    obtain ⟨rfl, -⟩ := pair_ok he
    exact p.clipSample_eq _
  · split at h
    · split at h
      · obtain ⟨mapping, -, he⟩ := bind_ok h
        obtain ⟨rfl, -⟩ := pair_ok he
        exact p.clipSample_eq _
      · obtain ⟨rfl, -⟩ := pair_ok h
        exact p.clipSample_eq _
    · split at h
      · obtain ⟨rfl, -⟩ := pair_ok h
        exact ⟨_, _, rfl⟩
      · obtain ⟨rfl, -⟩ := pair_ok h
        exact ⟨_, _, rfl⟩

theorem redisplayed_adjustDisplayedChunk {p q : GdaDataProxy D}
    (h : p.adjustDisplayedChunk = .ok q) : p.Redisplayed q := by
  obtain ⟨⟨r, chunkTo⟩, hr, h⟩ := bind_ok h
  obtain ⟨first, last, rfl⟩ := computeDisplayChunk_ok hr
  simp only at h
  split at h
  · obtain rfl := Except.ok.inj h
    exact ⟨_, _, _, _, _, _, _, _, rfl⟩
  · split at h
    · obtain rfl := Except.ok.inj h
      refine Redisplayed.trans ?_ (redisplayed_chunkSyncIdleStep 50 _)
      exact ⟨_, _, _, _, _, _, _, _, rfl⟩
    · obtain rfl := Except.ok.inj h
      exact ⟨_, _, _, _, _, _, _, _, rfl⟩

end GdaDataProxy

end LibGda
