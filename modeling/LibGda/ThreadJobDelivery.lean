import LibGda.ThreadJobResults

/-! The arguments of the jobs are destroyed once, their results are delivered once, and who waits
for a result waits for a job which gives one. -/

namespace LibGda

open RunInvariant

variable {T R : Type}

namespace ThreadWrapper

def Over (w : ThreadWrapper T R) (j : Nat) : Prop :=
  (w.job j).cancelled = true ∨ j ∈ w.history.taken ∧ (w.job j).isVoid = true ∨
    j ∈ w.deliveredJobs

/-- The argument of the jobs of `gone` is destroyed, and what was delivered is what the functions
returned. -/
structure Settled (w : ThreadWrapper T R) (gone : Nat → Prop) : Prop where
  nodup_destroyed : w.history.destroyed.Nodup
  mem_destroyed : ∀ j,
    j ∈ w.history.destroyed ↔ j < w.nextJob ∧ (w.job j).destroys = true ∧ gone j
  argGone : ∀ j < w.nextJob, ((w.job j).argGone = true ↔ j ∈ w.history.destroyed)
  nodup_delivered : w.deliveredJobs.Nodup
  delivered : ∀ e ∈ w.history.delivered, e.job ∈ w.history.taken ∧
    (w.job e.job).isVoid = false ∧ (w.job e.job).owner = e.thread ∧
      (w.job e.job).jobId = e.expId ∧ ∃ r, e.outcome = some r ∧ (e.job, r) ∈ w.history.returned
  result : ∀ p ∈ w.history.returned, (w.job p.1).result = some p.2
  jobId : ∀ j < w.nextJob, (w.job j).jobId = j + 1
  counted : ∀ p ∈ w.history.counted, p.1 = p.2

structure SameOutcome (a b : ThreadJob T R) : Prop where
  owner : b.owner = a.owner
  jobId : b.jobId = a.jobId
  isVoid : b.isVoid = a.isVoid
  destroys : b.destroys = a.destroys
  argGone : b.argGone = a.argGone
  result : b.result = a.result

theorem sameOutcome_update {w : ThreadWrapper T R} {j : Nat} {b : ThreadJob T R}
    (h : SameOutcome (w.job j) b) (i : Nat) :
    SameOutcome (w.job i) (Function.update w.job j b i) := by
  by_cases hi : i = j
  · subst hi
    rwa [Function.update_self]
  · rw [Function.update_of_ne hi]
    exact ⟨rfl, rfl, rfl, rfl, rfl, rfl⟩

namespace Settled

variable {w : ThreadWrapper T R} {gone : Nat → Prop}

theorem congr {gone' : Nat → Prop} (h : w.Settled gone)
    (hgone : ∀ j < w.nextJob, (gone' j ↔ gone j)) : w.Settled gone' := by
  refine ⟨h.nodup_destroyed, ?_, h.argGone, h.nodup_delivered, h.delivered, h.result, h.jobId,
    h.counted⟩
  intro j
  rw [h.mem_destroyed]
  constructor
  · rintro ⟨hlt, hdestroys, hj⟩
    exact ⟨hlt, hdestroys, (hgone j hlt).mpr hj⟩
  · rintro ⟨hlt, hdestroys, hj⟩
    exact ⟨hlt, hdestroys, (hgone j hlt).mp hj⟩

theorem mem_taken_of_delivered (h : w.Settled gone) {j : Nat} (hj : j ∈ w.deliveredJobs) :
    j ∈ w.history.taken ∧ (w.job j).isVoid = false := by
  obtain ⟨e, he, rfl⟩ := List.mem_map.mp hj
  have hd := h.delivered e he
  exact ⟨hd.1, hd.2.1⟩

theorem move (h : w.Settled gone) {u : ThreadWrapper T R} (hnext : u.nextJob = w.nextJob)
    (hjob : ∀ i, SameOutcome (w.job i) (u.job i))
    (hdestroyed : u.history.destroyed = w.history.destroyed)
    (hdelivered : u.history.delivered = w.history.delivered)
    (htaken : ∀ j ∈ w.history.taken, j ∈ u.history.taken)
    (hreturned : u.history.returned = w.history.returned)
    (hcounted : u.history.counted = w.history.counted) : u.Settled gone := by
  constructor
  · rw [hdestroyed]
    exact h.nodup_destroyed
  · intro j
    rw [hdestroyed, hnext, (hjob j).destroys]
    exact h.mem_destroyed j
  · intro j hj
    rw [hnext] at hj
    rw [hdestroyed, (hjob j).argGone]
    exact h.argGone j hj
  · rw [deliveredJobs, hdelivered]
    exact h.nodup_delivered
  · intro e he
    rw [hdelivered] at he
    obtain ⟨hmem, hvoid, howner, hid, hr⟩ := h.delivered e he
    rw [(hjob _).isVoid, (hjob _).owner, (hjob _).jobId, hreturned]
    exact ⟨htaken _ hmem, hvoid, howner, hid, hr⟩
  · intro p hp
    rw [hreturned] at hp
    rw [(hjob _).result]
    exact h.result p hp
  · intro j hj
    rw [hnext] at hj
    rw [(hjob j).jobId]
    exact h.jobId j hj
  · rw [hcounted]
    exact h.counted

theorem destroyArg (h : w.Settled gone) {j : Nat} (hj : j < w.nextJob) :
    (w.destroyArg j).Settled fun i => gone i ∨ i = j := by
  simp only [ThreadWrapper.destroyArg]
  split
  · next hc =>
    simp only [Bool.and_eq_true, Bool.not_eq_true'] at hc
    have hnot : j ∉ w.history.destroyed := by
      intro hmem
      have hgone := (h.argGone j hj).mpr hmem
      rw [hc.2] at hgone
      cases hgone
    have hsame : ∀ i, (Function.update w.job j (w.job j).withoutArg i).owner = (w.job i).owner ∧
        (Function.update w.job j (w.job j).withoutArg i).jobId = (w.job i).jobId ∧
        (Function.update w.job j (w.job j).withoutArg i).isVoid = (w.job i).isVoid ∧
        (Function.update w.job j (w.job j).withoutArg i).destroys = (w.job i).destroys ∧
        (Function.update w.job j (w.job j).withoutArg i).result = (w.job i).result := by
      intro i
      by_cases hi : i = j
      · subst hi
        simp
      · simp [Function.update_of_ne hi]
    constructor
    · simpa [List.nodup_append, h.nodup_destroyed] using
        fun a ha => ne_of_mem_of_not_mem ha hnot
    · intro i
      simp only [List.mem_append, List.mem_singleton, h.mem_destroyed i, hsame]
      constructor
      · rintro (⟨hlt, hd, hi⟩ | rfl)
        · exact ⟨hlt, hd, .inl hi⟩
        · exact ⟨hj, hc.1, .inr rfl⟩
      · rintro ⟨hlt, hd, hi | hi⟩
        · exact .inl ⟨hlt, hd, hi⟩
        · exact .inr hi
    · intro i hi
      by_cases hij : i = j
      · subst hij
        simp
      · simpa [Function.update_of_ne hij, hij] using h.argGone i hi
    · exact h.nodup_delivered
    · intro e he
      simp only [hsame]
      exact h.delivered e he
    · intro p hp
      simp only [hsame]
      exact h.result p hp
    · intro i hi
      simp only [hsame]
      exact h.jobId i hi
    · exact h.counted
  · next hc =>
    have hgone : (w.job j).destroys = true → gone j := by
      intro hd
      have harg : (w.job j).argGone = true := by simpa [hd] using hc
      exact ((h.mem_destroyed j).mp ((h.argGone j hj).mp harg)).2.2
    refine ⟨h.nodup_destroyed, ?_, h.argGone, h.nodup_delivered, h.delivered, h.result, h.jobId,
      h.counted⟩
    intro i
    rw [h.mem_destroyed]
    constructor
    · rintro ⟨hlt, hd, hi⟩
      exact ⟨hlt, hd, .inl hi⟩
    · rintro ⟨hlt, hd, hi | rfl⟩
      · exact ⟨hlt, hd, hi⟩
      · exact ⟨hlt, hd, hgone hd⟩

theorem deliver (h : w.Settled gone) {e : Delivery T R} (hnew : e.job ∉ w.deliveredJobs)
    (he : e.job ∈ w.history.taken ∧ (w.job e.job).isVoid = false ∧
      (w.job e.job).owner = e.thread ∧ (w.job e.job).jobId = e.expId ∧
        ∃ r, e.outcome = some r ∧ (e.job, r) ∈ w.history.returned) :
    Settled { w with history :=
      { w.history with delivered := w.history.delivered ++ [e] } } gone := by
  refine ⟨h.nodup_destroyed, h.mem_destroyed, h.argGone, ?_, ?_, h.result, h.jobId, h.counted⟩
  · have hn := h.nodup_delivered
    simp only [deliveredJobs, List.map_append, List.map_cons, List.map_nil] at hn hnew ⊢
    simpa [List.nodup_append, hn] using fun a ha => ne_of_mem_of_not_mem
      (List.mem_map_of_mem ha) hnew
  · intro e' he'
    rcases List.mem_append.mp he' with hold | hlast
    · exact h.delivered e' hold
    · obtain rfl := List.mem_singleton.mp hlast
      exact he

theorem count (h : w.Settled gone) {p : Nat × Nat} (hp : p.1 = p.2) :
    Settled { w with history :=
      { w.history with counted := w.history.counted ++ [p] } } gone := by
  refine ⟨h.nodup_destroyed, h.mem_destroyed, h.argGone, h.nodup_delivered, h.delivered, h.result,
    h.jobId, ?_⟩
  intro p' hp'
  rcases List.mem_append.mp hp' with hold | hlast
  · exact h.counted p' hold
  · obtain rfl := List.mem_singleton.mp hlast
    exact hp

end Settled

def Target (w : ThreadWrapper T R) (d : ThreadData) : ThreadPosition → Prop
  | .idle => True
  | .pushing _ => True
  | .iterating true none => ∃ j ∈ d.jobs, (w.job j).isVoid = false
  | .iterating true (some f) =>
    f.resultsLength = none ∧ ∃ j ∈ d.jobs, (w.job j).isVoid = false ∧ (w.job j).jobId = f.expId
  | .iterating false none => True
  | .iterating false (some f) => f.resultsLength ≠ none
  | .fetching true expId =>
    ∃ j, (j ∈ d.jobs ∨ j ∈ d.results) ∧ (w.job j).isVoid = false ∧ (w.job j).jobId = expId
  | .fetching false _ => True

def AimedAt (w : ThreadWrapper T R) (t : T) : Prop :=
  w.position t = .idle ∨ ∃ d, w.threadsHash t = some d ∧ w.Target d (w.position t)

def Aimed (w : ThreadWrapper T R) : Prop :=
  ∀ t, w.AimedAt t

theorem Target.congr {w u : ThreadWrapper T R} {d : ThreadData} {p : ThreadPosition}
    (h : w.Target d p) (hjob : ∀ j, j ∈ d.jobs ∨ j ∈ d.results →
      (u.job j).isVoid = (w.job j).isVoid ∧ (u.job j).jobId = (w.job j).jobId) :
    u.Target d p := by
  cases p with
  | idle => trivial
  | pushing j => trivial
  | iterating mayBlock fetch =>
    cases mayBlock with
    | false => cases fetch <;> exact h
    | true =>
      cases fetch with
      | none =>
        obtain ⟨j, hj, hvoid⟩ := h
        refine ⟨j, hj, ?_⟩
        rwa [(hjob j (.inl hj)).1]
      | some f =>
        obtain ⟨hf, j, hj, hvoid, hid⟩ := h
        refine ⟨hf, j, hj, ?_⟩
        rw [(hjob j (.inl hj)).1, (hjob j (.inl hj)).2]
        exact ⟨hvoid, hid⟩
  | fetching mayLock expId =>
    cases mayLock with
    | false => trivial
    | true =>
      obtain ⟨j, hj, hvoid, hid⟩ := h
      refine ⟨j, hj, ?_⟩
      rw [(hjob j hj).1, (hjob j hj).2]
      exact ⟨hvoid, hid⟩

structure Sound (w : ThreadWrapper T R) : Prop where
  ordered : w.Ordered
  queued : w.Queued
  shared : w.Shared
  settled : w.Settled w.Over
  aimed : w.Aimed

namespace Sound

variable {w : ThreadWrapper T R} (h : w.Sound)

include h

theorem lt_of_mem {t : T} {d : ThreadData} (hd : w.threadsHash t = some d) {j : Nat}
    (hj : j ∈ d.jobs ∨ j ∈ d.results) : j < w.nextJob := by
  rcases hj with hj | hj
  · exact ((h.shared.mem_jobs t d hd j).mp hj).1.1
  · have hunfetched := ((h.shared.mem_results t d hd j).mp hj).1
    exact h.ordered.finished_lt (h.queued.taken_finished j hunfetched.1)

theorem taken_lt {j : Nat} (hj : j ∈ w.history.taken) : j < w.nextJob :=
  h.ordered.finished_lt (h.queued.taken_finished j hj)

theorem mine {t : T} {d : ThreadData} (hd : w.threadsHash t = some d) {j : Nat}
    (hj : j ∈ w.queue d.fromWorkerThread) : j ∈ d.jobs := by
  obtain ⟨hfin, hreply, hnew⟩ := (h.queued.mem_iff _ j).mp hj
  have hopen : w.Open j :=
    ⟨h.ordered.finished_lt hfin, h.ordered.not_cancelled_of_finished hfin, hnew⟩
  have habsent := h.shared.absent j (.inl hopen)
  obtain ⟨d', hd'⟩ := Option.ne_none_iff_exists'.mp habsent
  have hfrom := h.shared.reply j d' hopen hd'
  have howner := h.shared.distinct _ _ _ _ hd' hd (hfrom.symm.trans hreply)
  exact (h.shared.mem_jobs t d hd j).mpr ⟨hopen, howner⟩

theorem aim {u : ThreadWrapper T R}
    (hjob : ∀ j < w.nextJob,
      (u.job j).isVoid = (w.job j).isVoid ∧ (u.job j).jobId = (w.job j).jobId)
    (hcases : ∀ t, u.AimedAt t ∨
      u.position t = w.position t ∧ u.threadsHash t = w.threadsHash t) : u.Aimed := by
  intro t
  rcases hcases t with ht | ⟨hpos, hhash⟩
  · exact ht
  · rcases h.aimed t with hidle | ⟨d, hd, htarget⟩
    · exact .inl (hpos.trans hidle)
    · refine .inr ⟨d, hhash.trans hd, ?_⟩
      rw [hpos]
      exact htarget.congr fun j hj => hjob j (h.lt_of_mem hd hj)

end Sound

end ThreadWrapper

end LibGda
