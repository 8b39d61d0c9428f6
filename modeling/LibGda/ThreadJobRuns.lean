import LibGda.ThreadJobDelivery

/-! Runs of user threads and of the worker thread. -/

namespace LibGda

open RunInvariant

variable {T R : Type}

namespace ThreadWrapper

theorem SameButArg.setThreadData [DecidableEq T] {w u : ThreadWrapper T R} (h : SameButArg w u)
    (t : T) (d : Option ThreadData) : SameButArg (w.setThreadData t d) (u.setThreadData t d) := by
  refine ⟨h.nextJob, h.job, h.nextQueue, ?_, h.taken, h.delivered⟩
  simp only [ThreadWrapper.setThreadData, h.threadsHash]

theorem SameButArg.setPosition [DecidableEq T] {w u : ThreadWrapper T R} (h : SameButArg w u)
    (t : T) (p : ThreadPosition) : SameButArg w (u.setPosition t p) :=
  ⟨h.nextJob, h.job, h.nextQueue, h.threadsHash, h.taken, h.delivered⟩

theorem SameButArg.over {w u : ThreadWrapper T R} (h : SameButArg w u) (j : Nat) :
    u.Over j ↔ w.Over j := by
  simp only [Over, deliveredJobs, (h.job j).cancelled, (h.job j).isVoid, h.taken, h.delivered]

theorem destroyArg_position (w : ThreadWrapper T R) (j : Nat) :
    (w.destroyArg j).position = w.position := by
  rcases destroyArg_cases w j with h | h
  · rw [h]
  · rw [h]

theorem SameOutcome.refl (a : ThreadJob T R) : SameOutcome a a :=
  ⟨rfl, rfl, rfl, rfl, rfl, rfl⟩

namespace Sound

variable [DecidableEq T] {w : ThreadWrapper T R} {t : T}

theorem setPosition (h : w.Sound) {p : ThreadPosition} (hbefore : ∀ j, w.position t ≠ .pushing j)
    (hafter : ∀ j, p ≠ .pushing j)
    (ht : p = .idle ∨ ∃ d, w.threadsHash t = some d ∧ w.Target d p) :
    (w.setPosition t p).Sound := by
  constructor
  · exact h.ordered.setPosition hbefore hafter
  · exact ⟨h.queued.nodup_taken, h.queued.taken_finished, h.queued.nodup, h.queued.mem_iff⟩
  · exact h.shared.congr ⟨rfl, fun _ => SameJob.refl _, rfl, rfl, rfl, rfl⟩
  · exact h.settled.move rfl (fun _ => SameOutcome.refl _) rfl rfl (fun _ hj => hj) rfl rfl
  · apply h.aim
    · intro j _
      exact ⟨rfl, rfl⟩
    · intro t'
      by_cases ht' : t' = t
      · subst ht'
        left
        rcases ht with hidle | ⟨d, hd, htarget⟩
        · exact .inl (by simp [ThreadWrapper.setPosition, hidle])
        · refine .inr ⟨d, hd, ?_⟩
          simp only [ThreadWrapper.setPosition, Function.update_self]
          exact htarget.congr fun _ _ => ⟨rfl, rfl⟩
      · right
        simp [ThreadWrapper.setPosition, Function.update_of_ne ht']

theorem push (h : w.Sound) {j : Nat} (hp : w.position t = .pushing j) : (w.push t j).Sound := by
  constructor
  · exact h.ordered.push hp
  · exact ⟨h.queued.nodup_taken, h.queued.taken_finished, h.queued.nodup, h.queued.mem_iff⟩
  · exact h.shared.congr ⟨rfl, fun _ => SameJob.refl _, rfl, rfl, rfl, rfl⟩
  · exact h.settled.move rfl (fun _ => SameOutcome.refl _) rfl rfl (fun _ hj => hj) rfl rfl
  · apply h.aim
    · intro j _
      exact ⟨rfl, rfl⟩
    · intro t'
      by_cases ht' : t' = t
      · subst ht'
        exact .inl (.inl (by simp [ThreadWrapper.push, ThreadWrapper.setPosition]))
      · right
        simp [ThreadWrapper.push, ThreadWrapper.setPosition, Function.update_of_ne ht']

theorem getThreadData (h : w.Sound) (t : T) : (w.getThreadData t).1.Sound := by
  constructor
  · exact h.ordered.getThreadData t
  · simp only [ThreadWrapper.getThreadData]
    split
    · exact h.queued
    · exact ⟨h.queued.nodup_taken, h.queued.taken_finished, h.queued.nodup, h.queued.mem_iff⟩
  · exact h.shared.getThreadData t
  · simp only [ThreadWrapper.getThreadData]
    split
    · exact h.settled
    · exact h.settled.move rfl (fun _ => SameOutcome.refl _) rfl rfl (fun _ hj => hj) rfl rfl
  · simp only [ThreadWrapper.getThreadData]
    split
    · exact h.aimed
    · next hnone =>
      apply h.aim
      · intro j _
        exact ⟨rfl, rfl⟩
      · intro t'
        by_cases ht' : t' = t
        · subst ht'
          rcases h.aimed t' with hidle | ⟨d, hd, -⟩
          · exact .inl (.inl hidle)
          · rw [hnone] at hd
            cases hd
        · right
          simp [ThreadWrapper.setThreadData, Function.update_of_ne ht']

theorem execute_of_some (h : w.Sound) (hp : w.position t = .idle) {d : ThreadData}
    (hd : w.threadsHash t = some d) (hid : w.nextJob + 1 < 2 ^ 32) (isVoid destroys : Bool) :
    (w.execute t isVoid destroys).Sound := by
  have hnew : w.nextJob ∉ w.history.taken := fun hmem => Nat.lt_irrefl _ (h.taken_lt hmem)
  have hsame : ∀ j < w.nextJob,
      Function.update w.job w.nextJob (w.newJob t d isVoid destroys) j = w.job j := by
    intro j hj
    exact Function.update_of_ne (Nat.ne_of_lt hj) _ _
  have hlast : ∀ j < w.nextJob + 1, j < w.nextJob ∨ j = w.nextJob := fun j hj => by omega
  have hdestroyed : ∀ j ∈ w.history.destroyed, j < w.nextJob :=
    fun j hj => ((h.settled.mem_destroyed j).mp hj).1
  constructor
  · exact h.ordered.execute hp hd isVoid destroys
  · exact h.queued.execute h.ordered hd isVoid destroys
  · exact h.shared.execute hd hnew isVoid destroys
  · rw [execute_eq hd]
    refine ⟨h.settled.nodup_destroyed, ?_, ?_, h.settled.nodup_delivered, ?_, ?_, ?_,
      h.settled.counted⟩
    · intro j
      rcases Nat.lt_trichotomy j w.nextJob with hj | rfl | hj
      · simp only [Over, hsame j hj]
        rw [h.settled.mem_destroyed]
        have : j < w.nextJob + 1 ↔ j < w.nextJob := by omega
        rw [this]
        rfl
      · have hnot : w.nextJob ∉ w.history.destroyed :=
          fun hmem => Nat.lt_irrefl _ (hdestroyed _ hmem)
        have hnotd : w.nextJob ∉ w.deliveredJobs :=
          fun hmem => hnew (h.settled.mem_taken_of_delivered hmem).1
        simp only [deliveredJobs] at hnotd
        simp [Over, deliveredJobs, hnot, newJob, hnew, hnotd]
      · constructor
        · intro hmem
          have := hdestroyed j hmem
          omega
        · rintro ⟨hlt, -⟩
          simp only at hlt
          omega
    · intro j hj
      rcases hlast j hj with hlt | rfl
      · simp only [hsame j hlt]
        exact h.settled.argGone j hlt
      · have hnot : w.nextJob ∉ w.history.destroyed :=
          fun hmem => Nat.lt_irrefl _ (hdestroyed _ hmem)
        simp [newJob, hnot]
    · intro e he
      have hdel := h.settled.delivered e he
      simp only [hsame e.job (h.taken_lt hdel.1)]
      exact hdel
    · intro p hp
      have hfin : p.1 ∈ w.finished := List.mem_map_of_mem hp
      simp only [hsame p.1 (h.ordered.finished_lt hfin)]
      exact h.settled.result p hp
    · intro j hj
      rcases hlast j hj with hlt | rfl
      · simp only [hsame j hlt]
        exact h.settled.jobId j hlt
      · simp only [Function.update_self, newJob]
        exact Nat.mod_eq_of_lt hid
  · rw [execute_eq hd]
    apply h.aim
    · intro j hj
      simp only [hsame j hj, and_self]
    · intro t'
      by_cases ht' : t' = t
      · subst ht'
        left
        right
        simp [Target]
      · right
        simp [Function.update_of_ne ht']

theorem execute (h : w.Sound) (hp : w.position t = .idle) (hid : w.nextJob + 1 < 2 ^ 32)
    (isVoid destroys : Bool) : (w.execute t isVoid destroys).Sound := by
  have hsame : (w.getThreadData t).1.position = w.position ∧
      (w.getThreadData t).1.nextJob = w.nextJob := by
    simp only [ThreadWrapper.getThreadData]
    split <;> exact ⟨rfl, rfl⟩
  rw [execute_getThreadData]
  apply (h.getThreadData t).execute_of_some
  · rw [hsame.1]
    exact hp
  · exact getThreadData_some w t
  · rw [hsame.2]
    exact hid

theorem cancel (h : w.Sound) (hp : w.position t = .idle) (id : Nat) : (w.cancel t id).Sound := by
  simp only [ThreadWrapper.cancel]
  split
  · exact h
  next d hd =>
  split
  · exact h
  next j hfind =>
  split
  · exact h
  next hprocessed =>
  have hj : j ∈ d.jobs := List.mem_of_find?_eq_some hfind
  have hopen := ((h.shared.mem_jobs t d hd j).mp hj).1
  have hpopped : j ∉ w.history.popped := by
    intro hmem
    exact hprocessed ((h.ordered.processed j hopen.1).mpr hmem)
  have hcancelled := sameButArg_destroyArg (w.setJob j (w.job j).withdrawn) j
  have hsame : ∀ i, SameOutcome (w.job i) (Function.update w.job j (w.job j).withdrawn i) :=
    sameOutcome_update ⟨rfl, rfl, rfl, rfl, rfl, rfl⟩
  constructor
  · exact ((h.ordered.cancel hpopped).destroyArg j).setThreadData _
  · have hq := (h.queued.cancel j).destroyArg j
    exact ⟨hq.nodup_taken, hq.taken_finished, hq.nodup, hq.mem_iff⟩
  · exact (h.shared.cancel hd hj).congr (hcancelled.setThreadData t _)
  · have hmove : (w.setJob j (w.job j).withdrawn).Settled w.Over :=
      h.settled.move rfl hsame rfl rfl (fun _ hi => hi) rfl rfl
    have hdestroy := hmove.destroyArg hopen.1
    have hset : (((w.setJob j (w.job j).withdrawn).destroyArg j).setThreadData t
        (some { d with jobs := d.jobs.erase j })).Settled fun i => w.Over i ∨ i = j :=
      hdestroy.move rfl (fun _ => SameOutcome.refl _) rfl rfl (fun _ hi => hi) rfl rfl
    apply hset.congr
    intro i _
    have hover := hcancelled.over i
    refine hover.trans ?_
    by_cases hi : i = j
    · subst hi
      simp [Over, setJob]
    · simp [Over, setJob, hi, deliveredJobs]
  · apply h.aim
    · intro i _
      have hi := hcancelled.job i
      have hi' := hsame i
      exact ⟨hi.isVoid.trans hi'.isVoid, hi.jobId.trans hi'.jobId⟩
    · intro t'
      have hpos : (((w.setJob j (w.job j).withdrawn).destroyArg j).setThreadData t
          (some { d with jobs := d.jobs.erase j })).position = w.position := by
        have hdestroy := destroyArg_position (w.setJob j (w.job j).withdrawn) j
        exact hdestroy
      by_cases ht' : t' = t
      · subst ht'
        refine .inl (.inl ?_)
        rw [hpos]
        exact hp
      · refine .inr ⟨by rw [hpos], ?_⟩
        simp only [ThreadWrapper.setThreadData, Function.update_of_ne ht']
        rw [hcancelled.threadsHash]
        rfl

theorem getWaitingSize_eq (h : w.Sound)
    (hstarted : ∀ d, w.threadsHash t = some d → ∀ j ∈ d.jobs, (w.job j).processed = false) :
    w.getWaitingSize t = (w.notStarted t).length := by
  have hmem : ∀ j, j ∈ w.notStarted t ↔
      j < w.nextJob ∧ (w.job j).owner = t ∧ (w.job j).cancelled = false ∧
        (w.job j).processed = false := by
    intro j
    simp [notStarted, and_assoc]
  have hopen : ∀ j ∈ w.notStarted t, w.Open j := by
    intro j hj
    obtain ⟨hlt, -, hc, hprocessed⟩ := (hmem j).mp hj
    refine ⟨hlt, hc, ?_⟩
    intro htaken
    have hfin := h.queued.taken_finished j htaken
    have hpopped := (h.ordered.mem_executed.mp (h.ordered.executed_of_finished hfin)).1
    rw [(h.ordered.processed j hlt).mpr hpopped] at hprocessed
    cases hprocessed
  have hnodup : (w.notStarted t).Nodup := List.nodup_range.filter _
  rw [getWaitingSize]
  split
  · next hnone =>
    have hnil : w.notStarted t = [] := by
      apply List.eq_nil_iff_forall_not_mem.mpr
      intro j hj
      have habsent := h.shared.absent j (.inl (hopen j hj))
      rw [((hmem j).mp hj).2.1] at habsent
      exact habsent hnone
    rw [hnil]
    rfl
  · next d hd =>
    have hall : (d.jobs.filter fun j => !(w.job j).cancelled) = d.jobs := by
      apply List.filter_eq_self.mpr
      intro j hj
      simp [((h.shared.mem_jobs t d hd j).mp hj).1.2.1]
    rw [hall]
    apply List.Perm.length_eq
    apply (List.perm_ext_iff_of_nodup (h.shared.nodup_jobs t d hd) hnodup).mpr
    intro j
    rw [h.shared.mem_jobs t d hd, hmem]
    constructor
    · rintro ⟨hj, howner⟩
      exact ⟨hj.1, howner, hj.2.1,
        hstarted d hd j ((h.shared.mem_jobs t d hd j).mpr ⟨hj, howner⟩)⟩
    · intro hj
      exact ⟨hopen j ((hmem j).mpr hj), hj.2.1⟩

theorem count (h : w.Sound)
    (hstarted : ∀ d, w.threadsHash t = some d → ∀ j ∈ d.jobs, (w.job j).processed = false) :
    (w.count t).Sound := by
  constructor
  · exact ⟨h.ordered.split, h.ordered.nodup, h.ordered.bound, h.ordered.processed,
      h.ordered.executed, h.ordered.running, h.ordered.pushing, h.ordered.created⟩
  · exact ⟨h.queued.nodup_taken, h.queued.taken_finished, h.queued.nodup, h.queued.mem_iff⟩
  · exact h.shared.congr ⟨rfl, fun _ => SameJob.refl _, rfl, rfl, rfl, rfl⟩
  · exact h.settled.count (h.getWaitingSize_eq hstarted)
  · apply h.aim
    · intro j _
      exact ⟨rfl, rfl⟩
    · intro t'
      exact .inr ⟨rfl, rfl⟩

omit [DecidableEq T] in
theorem workerPop (h : w.Sound) {u : ThreadWrapper T R} (hu : w.workerPop = .ok u) : u.Sound := by
  have hordered := h.ordered.workerPop hu
  have hqueued := h.queued.workerPop hu
  simp only [ThreadWrapper.workerPop] at hu
  split at hu
  · next j rest hw hto =>
    have hlt : j < w.nextJob := by
      apply h.ordered.bound
      rw [h.ordered.split, hto]
      simp
    have hjob : ∀ i, SameJob (w.job i) (Function.update w.job j (w.job j).started i) :=
      sameJob_update ⟨rfl, rfl, rfl, rfl, rfl, rfl⟩
    have hout : ∀ i, SameOutcome (w.job i) (Function.update w.job j (w.job j).started i) :=
      sameOutcome_update ⟨rfl, rfl, rfl, rfl, rfl, rfl⟩
    split at hu
    · next hc =>
      obtain rfl := Except.ok.inj hu
      have hsame := sameButArg_destroyArg { w with
        toWorkerThread := rest
        job := Function.update w.job j (w.job j).started
        history := { w.history with popped := w.history.popped ++ [j] } } j
      simp only [Function.update_self, ThreadJob.started_cancelled] at hc
      refine ⟨hordered, hqueued, ?_, ?_, ?_⟩
      · have hmove : SameButArg w { w with
            toWorkerThread := rest
            job := Function.update w.job j (w.job j).started
            history := { w.history with popped := w.history.popped ++ [j] } } :=
          ⟨rfl, hjob, rfl, rfl, rfl, rfl⟩
        exact (h.shared.congr hmove).congr hsame
      · have hmove : Settled { w with
            toWorkerThread := rest
            job := Function.update w.job j (w.job j).started
            history := { w.history with popped := w.history.popped ++ [j] } } w.Over :=
          h.settled.move rfl hout rfl rfl (fun _ hi => hi) rfl rfl
        apply (hmove.destroyArg hlt).congr
        intro i _
        refine (hsame.over i).trans ?_
        simp only [Over, deliveredJobs, (hjob i).cancelled, (hjob i).isVoid]
        constructor
        · exact Or.inl
        · rintro (hi | rfl)
          · exact hi
          · exact .inl hc
      · apply h.aim
        · intro i _
          have hi := hsame.job i
          exact ⟨hi.isVoid.trans (hjob i).isVoid, hi.jobId.trans (hjob i).jobId⟩
        · intro t
          refine .inr ⟨?_, by rw [hsame.threadsHash]⟩
          rw [destroyArg_position]
    · obtain rfl := Except.ok.inj hu
      refine ⟨hordered, hqueued, ?_, ?_, ?_⟩
      · exact h.shared.congr ⟨rfl, hjob, rfl, rfl, rfl, rfl⟩
      · have hmove := h.settled.move (u := { w with
            toWorkerThread := rest
            job := Function.update w.job j (w.job j).started
            history := { w.history with
              popped := w.history.popped ++ [j], executed := w.history.executed ++ [j] }
            worker := some j }) rfl hout rfl rfl (fun _ hi => hi) rfl rfl
        apply hmove.congr
        intro i _
        simp only [Over, deliveredJobs, (hjob i).cancelled, (hjob i).isVoid]
      · apply h.aim
        · intro i _
          exact ⟨(hjob i).isVoid, (hjob i).jobId⟩
        · intro t
          exact .inr ⟨rfl, rfl⟩
  · cases hu

omit [DecidableEq T] in
theorem workerReturn (h : w.Sound) {r : R} {u : ThreadWrapper T R}
    (hu : w.workerReturn r = .ok u) : u.Sound := by
  have hordered := h.ordered.workerReturn hu
  have hqueued := h.queued.workerReturn h.ordered hu
  simp only [ThreadWrapper.workerReturn] at hu
  split at hu
  · cases hu
  · next j hw =>
    obtain rfl := Except.ok.inj hu
    obtain ⟨hlt, -, hnew, -⟩ := h.ordered.worker hw
    have hjob : ∀ i, SameJob (w.job i) (Function.update w.job j ((w.job j).withResult r) i) :=
      sameJob_update ⟨rfl, rfl, rfl, rfl, rfl, rfl⟩
    refine ⟨hordered, hqueued, ?_, ?_, ?_⟩
    · exact h.shared.congr ⟨rfl, hjob, rfl, rfl, rfl, rfl⟩
    · constructor
      · exact h.settled.nodup_destroyed
      · intro i
        simp only [Over, deliveredJobs, (hjob i).destroys, (hjob i).cancelled, (hjob i).isVoid]
        exact h.settled.mem_destroyed i
      · intro i hi
        have harg : (Function.update w.job j ((w.job j).withResult r) i).argGone =
            (w.job i).argGone := by
          by_cases hij : i = j
          · simp [hij]
          · simp [Function.update_of_ne hij]
        simp only [harg]
        exact h.settled.argGone i hi
      · exact h.settled.nodup_delivered
      · intro e he
        obtain ⟨hmem, hvoid, howner, hid, r', hr, hret⟩ := h.settled.delivered e he
        simp only [(hjob _).isVoid, (hjob _).owner, (hjob _).jobId]
        exact ⟨hmem, hvoid, howner, hid, r', hr, List.mem_append_left _ hret⟩
      · intro p hp
        rcases List.mem_append.mp hp with hold | hlast
        · have hne : p.1 ≠ j := by
            rintro rfl
            exact hnew (List.mem_map_of_mem hold)
          simpa [Function.update_of_ne hne] using h.settled.result p hold
        · obtain rfl := List.mem_singleton.mp hlast
          simp
      · intro i hi
        simp only [(hjob i).jobId]
        exact h.settled.jobId i hi
      · exact h.settled.counted
    · apply h.aim
      · intro i _
        exact ⟨(hjob i).isVoid, (hjob i).jobId⟩
      · intro t
        exact .inr ⟨rfl, rfl⟩

omit [DecidableEq T] in
theorem target_afterIterate {d : ThreadData} (d' : ThreadData) {mayBlock : Bool}
    {fetch : Option PendingFetch}
    (h : w.Target d (.iterating mayBlock fetch))
    (hjobs : ∀ j ∈ d.jobs, (w.job j).isVoid = false → j ∈ d'.jobs ∨ j ∈ d'.results) :
    w.Target d' (afterIterate d' fetch) := by
  cases fetch with
  | none => trivial
  | some f =>
    simp only [afterIterate]
    split
    · next hnone =>
      cases mayBlock with
      | false => exact absurd hnone h
      | true =>
        obtain ⟨-, j, hj, hvoid, hid⟩ := h
        exact ⟨j, hjobs j hj hvoid, hvoid, hid⟩
    · split <;> trivial

omit [DecidableEq T] in
theorem afterIterate_ne (d : ThreadData) (fetch : Option PendingFetch) (j : Nat) :
    afterIterate d fetch ≠ .pushing j := by
  intro heq
  simp only [afterIterate] at heq
  split at heq
  · cases heq
  · split at heq
    · cases heq
    · split at heq <;> cases heq

omit [DecidableEq T] in
theorem not_delivered (h : w.Sound) {d : ThreadData} (hd : w.threadsHash t = some d) {j : Nat}
    (hj : j ∈ d.jobs) : j ∉ w.deliveredJobs := by
  intro hmem
  exact ((h.shared.mem_jobs t d hd j).mp hj).1.2.2 (h.settled.mem_taken_of_delivered hmem).1

def popped (w : ThreadWrapper T R) (q j : Nat) (rest : List Nat) : ThreadWrapper T R :=
  { w with
    queue := Function.update w.queue q rest
    history := { w.history with taken := w.history.taken ++ [j] } }

omit [DecidableEq T] in
theorem popped_ordered (h : w.Sound) (q j : Nat) (rest : List Nat) : (popped w q j rest).Ordered :=
  ⟨h.ordered.split, h.ordered.nodup, h.ordered.bound, h.ordered.processed, h.ordered.executed,
    h.ordered.running, h.ordered.pushing, h.ordered.created⟩

omit [DecidableEq T] in
theorem popped_settled (h : w.Sound) (q j : Nat) (rest : List Nat) :
    (popped w q j rest).Settled w.Over :=
  h.settled.move rfl (fun _ => SameOutcome.refl _) rfl rfl
    (fun _ hi => List.mem_append_left _ hi) rfl rfl

omit [DecidableEq T] in
theorem popped_over (w : ThreadWrapper T R) (q j : Nat) (rest : List Nat) (i : Nat) :
    (popped w q j rest).Over i ↔ w.Over i ∨ i = j ∧ (w.job j).isVoid = true := by
  simp only [Over, deliveredJobs, popped, List.mem_append, List.mem_singleton]
  constructor
  · rintro (hi | ⟨hi | rfl, hv⟩ | hi)
    · exact .inl (.inl hi)
    · exact .inl (.inr (.inl ⟨hi, hv⟩))
    · exact .inr ⟨rfl, hv⟩
    · exact .inl (.inr (.inr hi))
  · rintro ((hi | ⟨hi, hv⟩ | hi) | ⟨rfl, hv⟩)
    · exact .inl hi
    · exact .inr (.inl ⟨.inl hi, hv⟩)
    · exact .inr (.inr hi)
    · exact .inr (.inl ⟨.inr rfl, hv⟩)

omit [DecidableEq T] in
theorem target_popped_void {d : ThreadData} {j : Nat} (hvoid : (w.job j).isVoid = true)
    (hnodup : d.jobs.Nodup) {mayBlock : Bool} {fetch : Option PendingFetch}
    (h : w.Target d (.iterating mayBlock fetch)) :
    w.Target { d with jobs := d.jobs.erase j } (.iterating mayBlock fetch) := by
  have hkeep : ∀ i ∈ d.jobs, (w.job i).isVoid = false → i ∈ d.jobs.erase j := by
    intro i hi hv
    apply hnodup.mem_erase_iff.mpr
    refine ⟨?_, hi⟩
    rintro rfl
    rw [hvoid] at hv
    cases hv
  cases mayBlock with
  | false => cases fetch <;> exact h
  | true =>
    cases fetch with
    | none =>
      obtain ⟨i, hi, hv⟩ := h
      exact ⟨i, hkeep i hi hv, hv⟩
    | some f =>
      obtain ⟨hf, i, hi, hv, hid⟩ := h
      exact ⟨hf, i, hkeep i hi hv, hv, hid⟩

section Iterate

variable {d : ThreadData} {mayBlock : Bool} {fetch : Option PendingFetch}

omit [DecidableEq T] in
theorem target (h : w.Sound) (hd : w.threadsHash t = some d) {p : ThreadPosition}
    (hp : w.position t = p) (hne : p ≠ .idle) : w.Target d p := by
  rcases h.aimed t with hidle | ⟨d', hd', htarget⟩
  · exact absurd (hp.symm.trans hidle) hne
  · obtain rfl := Option.some.inj (hd.symm.trans hd')
    rwa [hp] at htarget

theorem iterate_void (h : w.Sound) (hd : w.threadsHash t = some d)
    (hp : w.position t = .iterating mayBlock fetch) {j : Nat} {rest : List Nat}
    (hq : w.queue d.fromWorkerThread = j :: rest) (hvoid : (w.job j).isVoid = true) :
    (((popped w d.fromWorkerThread j rest).destroyArg j).setThreadData t
      (some { d with jobs := d.jobs.erase j })).Sound := by
  have hmem : j ∈ d.jobs := h.mine hd (by rw [hq]; simp)
  have hsame := sameButArg_destroyArg (popped w d.fromWorkerThread j rest) j
  have hpopped : ThreadData.popped d j (w.job j).isVoid = { d with jobs := d.jobs.erase j } := by
    simp [ThreadData.popped, hvoid]
  constructor
  · exact ((h.popped_ordered _ _ _).destroyArg j).setThreadData _
  · have hqueued := (h.queued.take hq).destroyArg j
    exact ⟨hqueued.nodup_taken, hqueued.taken_finished, hqueued.nodup, hqueued.mem_iff⟩
  · have hshared := h.shared.take hd hmem (h.not_delivered hd hmem)
      (Function.update w.queue d.fromWorkerThread rest)
    rw [hpopped] at hshared
    exact hshared.congr (hsame.setThreadData t _)
  · have hset := (h.popped_settled d.fromWorkerThread j rest).destroyArg
      (h.lt_of_mem hd (.inl hmem))
    have hmove : (((popped w d.fromWorkerThread j rest).destroyArg j).setThreadData t
        (some { d with jobs := d.jobs.erase j })).Settled fun i => w.Over i ∨ i = j :=
      hset.move rfl (fun _ => SameOutcome.refl _) rfl rfl (fun _ hi => hi) rfl rfl
    apply hmove.congr
    intro i _
    refine (hsame.over i).trans ?_
    rw [popped_over]
    simp only [hvoid, and_true]
  · have hjob : ∀ i, ((((popped w d.fromWorkerThread j rest).destroyArg j).setThreadData t
        (some { d with jobs := d.jobs.erase j })).job i).isVoid = (w.job i).isVoid ∧
        ((((popped w d.fromWorkerThread j rest).destroyArg j).setThreadData t
          (some { d with jobs := d.jobs.erase j })).job i).jobId = (w.job i).jobId :=
      fun i => ⟨(hsame.job i).isVoid, (hsame.job i).jobId⟩
    have hpos : (((popped w d.fromWorkerThread j rest).destroyArg j).setThreadData t
        (some { d with jobs := d.jobs.erase j })).position = w.position := by
      simp only [ThreadWrapper.setThreadData, destroyArg_position, popped]
    apply h.aim
    · exact fun i _ => hjob i
    · intro t'
      by_cases ht' : t' = t
      · subst ht'
        refine .inl (.inr ⟨{ d with jobs := d.jobs.erase j }, ?_, ?_⟩)
        · simp only [ThreadWrapper.setThreadData, Function.update_self]
        · rw [hpos, hp]
          have htarget := h.target hd hp (by intro hidle; cases hidle)
          exact (target_popped_void hvoid (h.shared.nodup_jobs t' d hd) htarget).congr
            fun i _ => hjob i
      · refine .inr ⟨by rw [hpos], ?_⟩
        simp only [ThreadWrapper.setThreadData, Function.update_of_ne ht', hsame.threadsHash]
        rfl

theorem iterate_result (h : w.Sound) (hd : w.threadsHash t = some d)
    (hp : w.position t = .iterating mayBlock fetch) {j : Nat} {rest : List Nat}
    (hq : w.queue d.fromWorkerThread = j :: rest) (hvoid : (w.job j).isVoid = false) :
    (((popped w d.fromWorkerThread j rest).setThreadData t
      (some { d with jobs := d.jobs.erase j, results := d.results ++ [j] })).setPosition t
        (afterIterate { d with jobs := d.jobs.erase j, results := d.results ++ [j] }
          fetch)).Sound := by
  have hmem : j ∈ d.jobs := h.mine hd (by rw [hq]; simp)
  have hpopped : ThreadData.popped d j (w.job j).isVoid =
      { d with jobs := d.jobs.erase j, results := d.results ++ [j] } := by
    simp [ThreadData.popped, hvoid]
  constructor
  · apply ((h.popped_ordered _ _ _).setThreadData _).setPosition
    · intro i hi
      cases hp.symm.trans hi
    · exact afterIterate_ne _ fetch
  · have hqueued := h.queued.take hq
    exact ⟨hqueued.nodup_taken, hqueued.taken_finished, hqueued.nodup, hqueued.mem_iff⟩
  · have hshared := h.shared.take hd hmem (h.not_delivered hd hmem)
      (Function.update w.queue d.fromWorkerThread rest)
    rw [hpopped] at hshared
    exact hshared.congr ⟨rfl, fun _ => SameJob.refl _, rfl, rfl, rfl, rfl⟩
  · have hset : (popped w d.fromWorkerThread j rest).Settled
        (popped w d.fromWorkerThread j rest).Over := by
      apply (h.popped_settled d.fromWorkerThread j rest).congr
      intro i _
      rw [popped_over]
      simp [hvoid]
    exact hset.move rfl (fun _ => SameOutcome.refl _) rfl rfl (fun _ hi => hi) rfl rfl
  · apply h.aim
    · intro i _
      exact ⟨rfl, rfl⟩
    · intro t'
      by_cases ht' : t' = t
      · subst ht'
        refine .inl (.inr
          ⟨{ d with jobs := d.jobs.erase j, results := d.results ++ [j] }, ?_, ?_⟩)
        · simp only [ThreadWrapper.setThreadData, ThreadWrapper.setPosition, Function.update_self]
        · simp only [ThreadWrapper.setPosition, Function.update_self]
          have htarget := h.target hd hp (by intro hidle; cases hidle)
          have hafter := target_afterIterate
            { d with jobs := d.jobs.erase j, results := d.results ++ [j] } htarget (by
              intro i hi _
              by_cases hij : i = j
              · right
                simp [hij]
              · exact .inl ((List.mem_erase_of_ne hij).mpr hi))
          exact hafter.congr fun _ _ => ⟨rfl, rfl⟩
      · right
        simp [ThreadWrapper.setThreadData, ThreadWrapper.setPosition, popped,
          Function.update_of_ne ht']

theorem iterateStep (h : w.Sound) (hd : w.threadsHash t = some d)
    (hp : w.position t = .iterating mayBlock fetch) {u : ThreadWrapper T R}
    (hu : w.iterateStep t d mayBlock fetch = .ok u) : u.Sound := by
  simp only [ThreadWrapper.iterateStep] at hu
  split at hu
  · split at hu
    · cases hu
    · obtain rfl := Except.ok.inj hu
      have htarget := h.target hd hp (by intro hidle; cases hidle)
      apply h.setPosition
      · intro i hi
        cases hp.symm.trans hi
      · exact afterIterate_ne d fetch
      · exact .inr ⟨d, hd, target_afterIterate d htarget fun j hj _ => .inl hj⟩
  · next j rest hq =>
    split at hu
    · next hvoid =>
      obtain rfl := Except.ok.inj hu
      exact h.iterate_void hd hp hq hvoid
    · next hvoid =>
      obtain rfl := Except.ok.inj hu
      exact h.iterate_result hd hp hq (by simpa using hvoid)

end Iterate

section Fetch

variable {d : ThreadData} {mayLock : Bool} {expId : Nat}

omit [DecidableEq T] in
theorem find_result {j : Nat}
    (hfind : (d.results.find? fun j => (w.job j).jobId == expId) = some j) :
    j ∈ d.results ∧ (w.job j).jobId = expId := by
  have hid := List.find?_some hfind
  exact ⟨List.mem_of_find?_eq_some hfind, by simpa using hid⟩

def gave (w : ThreadWrapper T R) (e : Delivery T R) : ThreadWrapper T R :=
  { w with history := { w.history with delivered := w.history.delivered ++ [e] } }

theorem fetch_found (h : w.Sound) (hd : w.threadsHash t = some d)
    (hp : w.position t = .fetching mayLock expId) {e : Delivery T R} (he : e.job ∈ d.results)
    (hthread : e.thread = t) (hid : (w.job e.job).jobId = e.expId)
    (hout : e.outcome = (w.job e.job).result) {x : Option ThreadData}
    (hx : x = some { d with results := d.results.erase e.job } ∨
      x = none ∧ d.results.erase e.job = [] ∧ d.jobs = []) :
    (((gave (w.setThreadData t x) e).destroyArg e.job).setPosition t .idle).Sound := by
  obtain ⟨hunfetched, howner⟩ := (h.shared.mem_results t d hd e.job).mp he
  have hlt := h.taken_lt hunfetched.1
  have hsame := sameButArg_destroyArg (gave (w.setThreadData t x) e) e.job
  have hbefore : ∀ j, w.position t ≠ .pushing j := by
    intro j hj
    cases hp.symm.trans hj
  have hshared : (gave (w.setThreadData t x) e).Shared := by
    have hdel := h.shared.deliver hd he
    rcases hx with rfl | ⟨rfl, hresults, hjobs⟩
    · exact hdel.congr ⟨rfl, fun _ => SameJob.refl _, rfl, rfl, rfl, rfl⟩
    · have hforget := hdel.forget (t := t)
        (d := { d with results := d.results.erase e.job })
        (by simp [ThreadWrapper.setThreadData]) hjobs hresults
      refine hforget.congr ⟨rfl, fun _ => SameJob.refl _, rfl, ?_, rfl, rfl⟩
      simp [gave, ThreadWrapper.setThreadData]
  have hsettled : (gave (w.setThreadData t x) e).Settled w.Over := by
    obtain ⟨p, hmem, hpj⟩ := List.mem_map.mp (h.queued.taken_finished e.job hunfetched.1)
    have hresult := h.settled.result p hmem
    rw [hpj] at hresult
    have hdel := h.settled.deliver hunfetched.2.2
      ⟨hunfetched.1, hunfetched.2.1, howner.trans hthread.symm, hid, p.2, hout.trans hresult,
        hpj ▸ hmem⟩
    exact hdel.move rfl (fun _ => SameOutcome.refl _) rfl rfl (fun _ hi => hi) rfl rfl
  constructor
  · have hordered : (gave (w.setThreadData t x) e).Ordered :=
      ⟨h.ordered.split, h.ordered.nodup, h.ordered.bound, h.ordered.processed, h.ordered.executed,
        h.ordered.running, h.ordered.pushing, h.ordered.created⟩
    apply (hordered.destroyArg e.job).setPosition
    · rw [destroyArg_position]
      exact hbefore
    · intro j hj
      cases hj
  · have hqueued : (gave (w.setThreadData t x) e).Queued :=
      ⟨h.queued.nodup_taken, h.queued.taken_finished, h.queued.nodup, h.queued.mem_iff⟩
    have hq := hqueued.destroyArg e.job
    exact ⟨hq.nodup_taken, hq.taken_finished, hq.nodup, hq.mem_iff⟩
  · exact hshared.congr (hsame.setPosition t .idle)
  · have hset := hsettled.destroyArg hlt
    have hmove : (((gave (w.setThreadData t x) e).destroyArg e.job).setPosition t
        .idle).Settled fun i => w.Over i ∨ i = e.job :=
      hset.move rfl (fun _ => SameOutcome.refl _) rfl rfl (fun _ hi => hi) rfl rfl
    apply hmove.congr
    intro i _
    refine (hsame.over i).trans ?_
    simp only [Over, deliveredJobs, gave, ThreadWrapper.setThreadData, List.map_append,
      List.map_cons, List.map_nil, List.mem_append, List.mem_singleton, or_assoc]
  · apply h.aim
    · intro i _
      exact ⟨(hsame.job i).isVoid, (hsame.job i).jobId⟩
    · intro t'
      by_cases ht' : t' = t
      · subst ht'
        exact .inl (.inl (by simp [ThreadWrapper.setPosition]))
      · right
        simp only [ThreadWrapper.setPosition, Function.update_of_ne ht', destroyArg_position,
          hsame.threadsHash]
        simp [gave, ThreadWrapper.setThreadData, Function.update_of_ne ht']

theorem fetchStep (h : w.Sound) (hd : w.threadsHash t = some d)
    (hp : w.position t = .fetching mayLock expId) : (w.fetchStep t d mayLock expId).Sound := by
  have htarget := h.target hd hp (by intro hidle; cases hidle)
  simp only [ThreadWrapper.fetchStep]
  split
  · next hfind =>
    apply h.setPosition
    · intro j hj
      cases hp.symm.trans hj
    · intro j hj
      cases hj
    · refine .inr ⟨d, hd, ?_⟩
      cases mayLock with
      | false => exact Option.some_ne_none _
      | true =>
        obtain ⟨j, hj, hvoid, hid⟩ := htarget
        refine ⟨rfl, j, ?_, hvoid, hid⟩
        rcases hj with hj | hj
        · exact hj
        · have hnot := List.find?_eq_none.mp hfind j hj
          simp [hid] at hnot
  · next j hfind =>
    obtain ⟨hj, hid⟩ := find_result hfind
    apply @fetch_found T R _ w t d mayLock expId h hd hp
      { thread := t, expId := expId, job := j, outcome := (w.job j).result } hj rfl hid rfl
    cases hleft : !(d.results.erase j).isEmpty || !d.jobs.isEmpty ||
        !(w.queue d.fromWorkerThread).isEmpty with
    | true =>
      left
      rfl
    | false =>
      right
      simp only [Bool.or_eq_false_iff, Bool.not_eq_false', List.isEmpty_iff] at hleft
      exact ⟨rfl, hleft.1.1, hleft.1.2⟩

end Fetch

end Sound

variable [DecidableEq T]

def HasData (w : ThreadWrapper T R) (t : T) (P : ThreadData → Prop) : Prop :=
  match w.threadsHash t with
  | none => True
  | some d => P d

/-- The job IDs do not wrap, no job is counted which was started, and a call which blocks is made
only if there is a job whose result it can get. -/
def Meets (w : ThreadWrapper T R) : ThreadStep T R → Prop
  | .execute _ _ _ => w.nextJob + 1 < 2 ^ 32
  | .getWaitingSize t => w.HasData t fun d => ∀ j ∈ d.jobs, (w.job j).processed = false
  | .iterate t mayBlock =>
    mayBlock = true → w.HasData t fun d => ∃ j ∈ d.jobs, (w.job j).isVoid = false
  | .fetchResult t mayLock expId =>
    mayLock = true → expId ≠ 0 → w.HasData t fun d =>
      ∃ j ∈ d.jobs ++ d.results, (w.job j).isVoid = false ∧ (w.job j).jobId = expId
  | _ => True

instance {w : ThreadWrapper T R} {t : T} {P : ThreadData → Prop} [DecidablePred P] :
    Decidable (w.HasData t P) :=
  match h : w.threadsHash t with
  | none => isTrue (by simp [HasData, h])
  | some d => decidable_of_iff (P d) (by simp [HasData, h])

instance (w : ThreadWrapper T R) : ∀ a, Decidable (w.Meets a)
  | .execute _ _ _ => inferInstanceAs (Decidable (_ < _))
  | .getWaitingSize _ => inferInstanceAs (Decidable (HasData _ _ _))
  | .iterate _ _ => inferInstanceAs (Decidable (_ → HasData _ _ _))
  | .fetchResult _ _ _ => inferInstanceAs (Decidable (_ → _ → HasData _ _ _))
  | .cancel _ _ => inferInstanceAs (Decidable True)
  | .goOn _ => inferInstanceAs (Decidable True)
  | .workerPop => inferInstanceAs (Decidable True)
  | .workerReturn _ => inferInstanceAs (Decidable True)

omit [DecidableEq T] in
theorem sound_new [Inhabited T] : (new : ThreadWrapper T R).Sound := by
  refine ⟨⟨rfl, List.nodup_nil, ?_, ?_, rfl, rfl, ?_, ?_⟩, ⟨List.nodup_nil, ?_, ?_, ?_⟩,
    ⟨?_, ?_, ?_, ?_, ?_, ?_, ?_, ?_, ?_⟩, ⟨List.nodup_nil, ?_, ?_, List.nodup_nil, ?_, ?_, ?_,
      ?_⟩, ?_⟩
  all_goals simp [new, Open, Unfetched, finished, Aimed, AimedAt]

omit [DecidableEq T] in
theorem sound_call {w : ThreadWrapper T R} {t : T} {next u : ThreadWrapper T R}
    (hnext : w.position t = .idle → next.Sound) (hu : w.call t next = .ok u) : u.Sound := by
  simp only [call] at hu
  split at hu
  · next hp =>
    obtain rfl := Except.ok.inj hu
    exact hnext hp
  · cases hu

theorem sound_start {w : ThreadWrapper T R} (h : w.Sound) {t : T} {p : ThreadPosition}
    (hidle : w.position t = .idle) (hp : ∀ j, p ≠ .pushing j)
    (ht : w.HasData t fun d => w.Target d p) : (w.start t p).Sound := by
  simp only [start]
  split
  · exact h
  · next d hd =>
    simp only [HasData, hd] at ht
    apply h.setPosition
    · intro j hj
      cases hidle.symm.trans hj
    · exact hp
    · exact .inr ⟨d, hd, ht⟩

theorem sound_step {w u : ThreadWrapper T R} {a : ThreadStep T R} (h : w.Sound)
    (ha : w.Meets a) (hu : w.step a = .ok u) : u.Sound := by
  cases a with
  | execute t isVoid destroys =>
    exact sound_call (fun hp => h.execute hp ha isVoid destroys) hu
  | cancel t id => exact sound_call (fun hp => h.cancel hp id) hu
  | getWaitingSize t =>
    apply sound_call _ hu
    intro _
    apply h.count
    intro d hd
    simpa [Meets, HasData, hd] using ha
  | iterate t mayBlock =>
    apply sound_call _ hu
    intro hp
    apply sound_start h hp
    · intro j hj
      cases hj
    · cases mayBlock with
      | false =>
        simp only [HasData]
        split <;> trivial
      | true => exact ha rfl
  | fetchResult t mayLock expId =>
    apply sound_call _ hu
    intro hp
    split
    · exact h
    · next hid =>
      apply sound_start h hp
      · intro j hj
        cases hj
      · cases mayLock with
        | false =>
          simp only [HasData]
          split <;> trivial
        | true =>
          have hdata := ha rfl hid
          simp only [HasData, List.mem_append] at hdata ⊢
          exact hdata
  | goOn t =>
    simp only [step, goOn] at hu
    split at hu
    · next j hp =>
      obtain rfl := Except.ok.inj hu
      exact h.push hp
    · next mayBlock fetch d hp hd => exact h.iterateStep hd hp hu
    · next mayLock expId d hp hd =>
      obtain rfl := Except.ok.inj hu
      exact h.fetchStep hd hp
    · cases hu
  | workerPop => exact h.workerPop hu
  | workerReturn r => exact h.workerReturn hu

def WillPost (w : ThreadWrapper T R) (t : T) (d : ThreadData) (j : Nat) : Prop :=
  (j ∈ w.toWorkerThread ∨ w.worker = some j) ∧ (w.job j).owner = t ∧
    (w.job j).cancelled = false ∧ (w.job j).isVoid = false ∧
      (w.job j).replyQueue = d.fromWorkerThread

structure JobsKept (w : ThreadWrapper T R) : Prop where
  inOrder : w.history.executed.Sublist w.history.pushed
  executedOnce : w.history.executed.Nodup
  notCancelled : ∀ j ∈ w.history.executed, (w.job j).cancelled = false
  ids : ∀ i < w.nextJob, ∀ j < w.nextJob, (w.job i).jobId = (w.job j).jobId → i = j
  destroyedOnce : w.history.destroyed.Nodup
  destroyed : ∀ j < w.nextJob,
    (j ∈ w.history.destroyed ↔ (w.job j).destroys = true ∧ w.Over j)
  deliveredOnce : w.deliveredJobs.Nodup
  delivered : ∀ e ∈ w.history.delivered, (w.job e.job).owner = e.thread ∧
    (w.job e.job).jobId = e.expId ∧ (w.job e.job).isVoid = false ∧
      ∃ r, e.outcome = some r ∧ (e.job, r) ∈ w.history.returned
  kept : ∀ j ∈ w.finished, (w.job j).isVoid = false → j ∉ w.deliveredJobs →
    ∃ d, w.threadsHash (w.job j).owner = some d ∧
      (j ∈ d.results ∨ j ∈ w.queue d.fromWorkerThread)
  counted : ∀ p ∈ w.history.counted, p.1 = p.2
  waiting : ∀ t fetch d, w.position t = .iterating true fetch → w.threadsHash t = some d →
    w.queue d.fromWorkerThread = [] →
      ∃ j, w.WillPost t d j ∧ ∀ f, fetch = some f → (w.job j).jobId = f.expId

omit [DecidableEq T] in
theorem Sound.willPost {w : ThreadWrapper T R} (h : w.Sound) {t : T} {d : ThreadData}
    (hd : w.threadsHash t = some d) (hp : ∀ j, w.position t ≠ .pushing j)
    (hq : w.queue d.fromWorkerThread = []) {j : Nat} (hj : j ∈ d.jobs)
    (hvoid : (w.job j).isVoid = false) : w.WillPost t d j := by
  obtain ⟨hopen, howner⟩ := (h.shared.mem_jobs t d hd j).mp hj
  have hreply : (w.job j).replyQueue = d.fromWorkerThread :=
    h.shared.reply j d hopen (by rw [howner, hd])
  refine ⟨?_, howner, hopen.2.1, hvoid, hreply⟩
  have hpushed : j ∈ w.history.pushed := by
    rcases h.ordered.created j hopen.1 with hmem | hpos
    · exact hmem
    · rw [howner] at hpos
      exact absurd hpos (hp j)
  rw [h.ordered.split] at hpushed
  rcases List.mem_append.mp hpushed with hpopped | hto
  · have hexecuted := h.ordered.mem_executed.mpr ⟨hpopped, hopen.2.1⟩
    rw [h.ordered.running] at hexecuted
    rcases List.mem_append.mp hexecuted with hfin | hworker
    · have hmem := (h.queued.mem_iff d.fromWorkerThread j).mpr ⟨hfin, hreply, hopen.2.2⟩
      rw [hq] at hmem
      cases hmem
    · right
      simpa using hworker
  · exact .inl hto

omit [DecidableEq T] in
theorem Sound.jobsKept {w : ThreadWrapper T R} (h : w.Sound) : w.JobsKept := by
  constructor
  · exact h.ordered.inOrder
  · exact h.ordered.nodup_executed
  · intro j hj
    exact (h.ordered.mem_executed.mp hj).2
  · intro i hi j hj heq
    rw [h.settled.jobId i hi, h.settled.jobId j hj] at heq
    omega
  · exact h.settled.nodup_destroyed
  · intro j hj
    rw [h.settled.mem_destroyed]
    simp [hj]
  · exact h.settled.nodup_delivered
  · intro e he
    obtain ⟨-, hvoid, howner, hid, hr⟩ := h.settled.delivered e he
    exact ⟨howner, hid, hvoid, hr⟩
  · intro j hj hvoid hdel
    by_cases htaken : j ∈ w.history.taken
    · have hunfetched : w.Unfetched j := ⟨htaken, hvoid, hdel⟩
      obtain ⟨d, hd⟩ := Option.ne_none_iff_exists'.mp (h.shared.absent j (.inr hunfetched))
      exact ⟨d, hd, .inl ((h.shared.mem_results _ d hd j).mpr ⟨hunfetched, rfl⟩)⟩
    · have hopen : w.Open j :=
        ⟨h.ordered.finished_lt hj, h.ordered.not_cancelled_of_finished hj, htaken⟩
      obtain ⟨d, hd⟩ := Option.ne_none_iff_exists'.mp (h.shared.absent j (.inl hopen))
      refine ⟨d, hd, .inr ((h.queued.mem_iff _ j).mpr ⟨hj, ?_, htaken⟩)⟩
      exact h.shared.reply j d hopen hd
  · exact h.settled.counted
  · intro t fetch d hp hd hq
    have htarget := h.target hd hp (by intro hidle; cases hidle)
    have hne : ∀ j, w.position t ≠ .pushing j := by
      intro j hj
      cases hp.symm.trans hj
    cases fetch with
    | none =>
      obtain ⟨j, hj, hvoid⟩ := htarget
      refine ⟨j, h.willPost hd hne hq hj hvoid, ?_⟩
      intro f hf
      cases hf
    | some f =>
      obtain ⟨-, j, hj, hvoid, hid⟩ := htarget
      refine ⟨j, h.willPost hd hne hq hj hvoid, ?_⟩
      intro f' hf
      obtain rfl := Option.some.inj hf
      exact hid

/-- In every run whose calls wait for and count what they can, the wrapper keeps its promises. -/
theorem jobsKept_of_meets [Inhabited T] {as : List (ThreadStep T R)} {w : ThreadWrapper T R}
    (hmeets : StepsMeet step Meets new as) (hrun : run step new as = .ok w) : w.JobsKept := by
  have hsound : w.Sound :=
    run_invariant (fun _ _ _ hs ha hu => sound_step hs ha hu) sound_new hmeets hrun
  exact hsound.jobsKept

def fetchJob : List (ThreadStep Unit Nat) :=
  [.execute () false true, .goOn (), .getWaitingSize (), .workerPop, .workerReturn 5,
    .fetchResult () true 1, .goOn (), .goOn (), .goOn ()]

theorem jobsKept_fetchJob : ∃ w, run step new fetchJob = .ok w ∧ w.JobsKept := by
  have hmeets : StepsMeet step Meets new fetchJob := by decide
  exact ⟨_, rfl, jobsKept_of_meets hmeets rfl⟩

/-- A job which the worker has started is counted. -/
theorem not_jobsKept : ¬ ∀ (as : List (ThreadStep Unit Unit)) w,
    run step new as = .ok w → w.JobsKept := by
  intro h
  have hkept := h [.execute () false false, .goOn (), .workerPop, .getWaitingSize ()] _ rfl
  have hcounted := hkept.counted (1, 0) (by decide)
  cases hcounted

example : ∃ w, run step (new : ThreadWrapper Unit Unit)
    [.execute () false false, .goOn (), .cancel () 1, .fetchResult () true 1, .goOn (),
      .workerPop] = .ok w ∧ w.position () = .iterating true (some ⟨1, none⟩) ∧
      w.toWorkerThread = [] ∧ w.worker = none ∧ w.queue 0 = [] :=
  ⟨_, rfl, rfl, rfl, rfl, rfl⟩

end ThreadWrapper

end LibGda
