import LibGda.ThreadJobs

/-! The order in which the worker thread executes jobs, and what is in the queues. -/

namespace LibGda

open RunInvariant

variable {T R : Type}

namespace ThreadWrapper

def finished (w : ThreadWrapper T R) : List Nat :=
  w.history.returned.map Prod.fst

structure Ordered (w : ThreadWrapper T R) : Prop where
  split : w.history.pushed = w.history.popped ++ w.toWorkerThread
  nodup : w.history.pushed.Nodup
  bound : ∀ j ∈ w.history.pushed, j < w.nextJob
  processed : ∀ j < w.nextJob, ((w.job j).processed = true ↔ j ∈ w.history.popped)
  executed : w.history.executed = w.history.popped.filter fun j => !(w.job j).cancelled
  running : w.history.executed = w.finished ++ w.worker.toList
  pushing : ∀ t j, w.position t = .pushing j →
    j < w.nextJob ∧ (w.job j).owner = t ∧ j ∉ w.history.pushed
  created : ∀ j < w.nextJob, j ∈ w.history.pushed ∨ w.position (w.job j).owner = .pushing j

namespace Ordered

variable {w : ThreadWrapper T R} (h : w.Ordered)

include h

theorem nodup_popped : w.history.popped.Nodup := by
  have hn := h.nodup
  rw [h.split] at hn
  exact (List.nodup_append.mp hn).1

theorem mem_pushed_of_popped {j : Nat} (hj : j ∈ w.history.popped) : j ∈ w.history.pushed := by
  rw [h.split]
  exact List.mem_append_left _ hj

theorem nodup_executed : w.history.executed.Nodup := by
  rw [h.executed]
  exact h.nodup_popped.filter _

theorem mem_executed {j : Nat} :
    j ∈ w.history.executed ↔ j ∈ w.history.popped ∧ (w.job j).cancelled = false := by
  rw [h.executed, List.mem_filter]
  simp

theorem executed_of_finished {j : Nat} (hj : j ∈ w.finished) : j ∈ w.history.executed := by
  rw [h.running]
  exact List.mem_append_left _ hj

theorem finished_lt {j : Nat} (hj : j ∈ w.finished) : j < w.nextJob :=
  h.bound j (h.mem_pushed_of_popped (h.mem_executed.mp (h.executed_of_finished hj)).1)

theorem not_cancelled_of_finished {j : Nat} (hj : j ∈ w.finished) :
    (w.job j).cancelled = false :=
  (h.mem_executed.mp (h.executed_of_finished hj)).2

theorem inOrder : w.history.executed.Sublist w.history.pushed := by
  rw [h.split, h.executed]
  exact List.filter_sublist.trans (List.sublist_append_left _ _)

theorem worker {j : Nat} (hw : w.worker = some j) :
    j < w.nextJob ∧ (w.job j).cancelled = false ∧ j ∉ w.finished ∧ j ∈ w.history.popped := by
  have hmem : j ∈ w.history.executed := by
    rw [h.running, hw]
    simp
  have hn := h.nodup_executed
  rw [h.running, hw] at hn
  have hpopped := h.mem_executed.mp hmem
  refine ⟨h.bound j (h.mem_pushed_of_popped hpopped.1), hpopped.2, ?_, hpopped.1⟩
  intro hf
  exact (List.nodup_append.mp hn).2.2 j hf j (by simp) rfl

end Ordered

structure Queued (w : ThreadWrapper T R) : Prop where
  nodup_taken : w.history.taken.Nodup
  taken_finished : ∀ j ∈ w.history.taken, j ∈ w.finished
  nodup : ∀ q, (w.queue q).Nodup
  mem_iff : ∀ q j, j ∈ w.queue q ↔
    j ∈ w.finished ∧ (w.job j).replyQueue = q ∧ j ∉ w.history.taken

section Steps

variable [DecidableEq T] {w : ThreadWrapper T R} {t : T}

theorem Ordered.push (h : w.Ordered) {j : Nat} (hp : w.position t = .pushing j) :
    (w.push t j).Ordered := by
  obtain ⟨hlt, howner, hnew⟩ := h.pushing t j hp
  constructor
  · simp [ThreadWrapper.push, setPosition, h.split]
  · simpa [ThreadWrapper.push, setPosition, List.nodup_append, h.nodup] using
      fun a ha => (ne_of_mem_of_not_mem ha hnew)
  · intro i hi
    rcases List.mem_append.mp hi with hi | hi
    · exact h.bound i hi
    · obtain rfl := List.mem_singleton.mp hi
      exact hlt
  · exact h.processed
  · exact h.executed
  · exact h.running
  · intro t' i hi
    by_cases ht : t' = t
    · subst ht
      simp [ThreadWrapper.push, setPosition] at hi
    · simp only [ThreadWrapper.push, setPosition, Function.update_of_ne ht] at hi
      obtain ⟨hi1, hi2, hi3⟩ := h.pushing t' i hi
      refine ⟨hi1, hi2, ?_⟩
      intro hmem
      rcases List.mem_append.mp hmem with hmem | hmem
      · exact hi3 hmem
      · obtain rfl := List.mem_singleton.mp hmem
        exact ht (hi2.symm.trans howner)
  · intro i hi
    by_cases hij : i = j
    · exact .inl (by simp [ThreadWrapper.push, setPosition, hij])
    · rcases h.created i hi with hmem | hpos
      · exact .inl (List.mem_append_left _ hmem)
      · right
        have ht : (w.job i).owner ≠ t := by
          intro ht
          rw [ht, hp] at hpos
          exact hij (ThreadPosition.pushing.inj hpos).symm
        simpa [ThreadWrapper.push, setPosition, Function.update_of_ne ht] using hpos

omit [DecidableEq T] in
theorem destroyArg_cases (w : ThreadWrapper T R) (j : Nat) : w.destroyArg j = w ∨
    w.destroyArg j = { w with
      job := Function.update w.job j (w.job j).withoutArg
      history := { w.history with destroyed := w.history.destroyed ++ [j] } } := by
  simp only [destroyArg]
  split
  · exact .inr rfl
  · exact .inl rfl

structure SameStage (a b : ThreadJob T R) : Prop where
  owner : b.owner = a.owner
  jobId : b.jobId = a.jobId
  isVoid : b.isVoid = a.isVoid
  destroys : b.destroys = a.destroys
  replyQueue : b.replyQueue = a.replyQueue
  cancelled : b.cancelled = a.cancelled
  processed : b.processed = a.processed

omit [DecidableEq T] in
theorem sameStage_update {j : Nat} {b : ThreadJob T R} (h : SameStage (w.job j) b) (i : Nat) :
    SameStage (w.job i) (Function.update w.job j b i) := by
  by_cases hi : i = j
  · subst hi
    rwa [Function.update_self]
  · rw [Function.update_of_ne hi]
    exact ⟨rfl, rfl, rfl, rfl, rfl, rfl, rfl⟩

omit [DecidableEq T] in
theorem Ordered.updateJob (h : w.Ordered) {j : Nat} {b : ThreadJob T R}
    (hb : SameStage (w.job j) b) : Ordered { w with job := Function.update w.job j b } := by
  have hsame := sameStage_update hb
  constructor
  · exact h.split
  · exact h.nodup
  · exact h.bound
  · intro i hi
    simp only [(hsame i).processed]
    exact h.processed i hi
  · simp only [(hsame _).cancelled]
    exact h.executed
  · exact h.running
  · intro t i hi
    simp only [(hsame i).owner]
    exact h.pushing t i hi
  · intro i hi
    simp only [(hsame i).owner]
    exact h.created i hi

omit [DecidableEq T] in
theorem Ordered.destroyArg (h : w.Ordered) (j : Nat) : (w.destroyArg j).Ordered := by
  rcases destroyArg_cases w j with hr | hr
  · rw [hr]
    exact h
  · rw [hr]
    have hu := h.updateJob (b := (w.job j).withoutArg) ⟨rfl, rfl, rfl, rfl, rfl, rfl, rfl⟩
    exact ⟨hu.split, hu.nodup, hu.bound, hu.processed, hu.executed, hu.running, hu.pushing,
      hu.created⟩

theorem Ordered.setThreadData (h : w.Ordered) (d : Option ThreadData) :
    (w.setThreadData t d).Ordered :=
  ⟨h.split, h.nodup, h.bound, h.processed, h.executed, h.running, h.pushing, h.created⟩

theorem Ordered.setPosition (h : w.Ordered) {p : ThreadPosition}
    (hbefore : ∀ j, w.position t ≠ .pushing j) (hafter : ∀ j, p ≠ .pushing j) :
    (w.setPosition t p).Ordered := by
  constructor
  · exact h.split
  · exact h.nodup
  · exact h.bound
  · exact h.processed
  · exact h.executed
  · exact h.running
  · intro t' i hi
    by_cases ht : t' = t
    · subst ht
      simp only [ThreadWrapper.setPosition, Function.update_self] at hi
      exact absurd hi (hafter i)
    · simp only [ThreadWrapper.setPosition, Function.update_of_ne ht] at hi
      exact h.pushing t' i hi
  · intro i hi
    rcases h.created i hi with hmem | hpos
    · exact .inl hmem
    · right
      have ht : (w.job i).owner ≠ t := by
        intro ht
        rw [ht] at hpos
        exact hbefore i hpos
      simpa [ThreadWrapper.setPosition, Function.update_of_ne ht] using hpos

omit [DecidableEq T] in
theorem Ordered.cancel (h : w.Ordered) {j : Nat} (hj : j ∉ w.history.popped) :
    Ordered { w with job := Function.update w.job j (w.job j).withdrawn } := by
  constructor
  · exact h.split
  · exact h.nodup
  · exact h.bound
  · intro i hi
    by_cases hij : i = j
    · subst hij
      simpa using h.processed i hi
    · simpa [Function.update_of_ne hij] using h.processed i hi
  · simp only [h.executed]
    apply List.filter_congr
    intro i hi
    have hij : i ≠ j := ne_of_mem_of_not_mem hi hj
    simp [Function.update_of_ne hij]
  · exact h.running
  · intro t i hi
    by_cases hij : i = j
    · subst hij
      simpa using h.pushing t i hi
    · simpa [Function.update_of_ne hij] using h.pushing t i hi
  · intro i hi
    by_cases hij : i = j
    · subst hij
      simpa using h.created i hi
    · simpa [Function.update_of_ne hij] using h.created i hi

omit [DecidableEq T] in
theorem Ordered.workerReturn (h : w.Ordered) {r : R} {u : ThreadWrapper T R}
    (hu : w.workerReturn r = .ok u) : u.Ordered := by
  simp only [ThreadWrapper.workerReturn] at hu
  split at hu
  · cases hu
  · next j hw =>
    obtain rfl := Except.ok.inj hu
    have hb := h.updateJob (b := (w.job j).withResult r) ⟨rfl, rfl, rfl, rfl, rfl, rfl, rfl⟩
    refine ⟨hb.split, hb.nodup, hb.bound, hb.processed, hb.executed, ?_, hb.pushing, hb.created⟩
    have hrun := h.running
    rw [hw] at hrun
    simpa [finished] using hrun

omit [DecidableEq T] in
theorem Ordered.workerPop (h : w.Ordered) {u : ThreadWrapper T R} (hu : w.workerPop = .ok u) :
    u.Ordered := by
  simp only [ThreadWrapper.workerPop] at hu
  split at hu
  · next j rest hw hto =>
    have hsplit := h.split
    rw [hto] at hsplit
    have hnew : j ∉ w.history.popped := by
      intro hmem
      have hn := h.nodup
      rw [hsplit] at hn
      exact (List.nodup_append.mp hn).2.2 j hmem j (by simp) rfl
    have hrun := h.running
    rw [hw] at hrun
    have hlt : j < w.nextJob := h.bound j (by rw [hsplit]; simp)
    have hsame : ∀ i, (Function.update w.job j (w.job j).started i).owner =
        (w.job i).owner := by
      intro i
      by_cases hij : i = j
      · simp [hij]
      · simp [Function.update_of_ne hij]
    have hcancelled : ∀ i,
        (Function.update w.job j (w.job j).started i).cancelled =
          (w.job i).cancelled := by
      intro i
      by_cases hij : i = j
      · simp [hij]
      · simp [Function.update_of_ne hij]
    have hprocessed : ∀ i < w.nextJob,
        ((Function.update w.job j (w.job j).started i).processed = true ↔
          i ∈ w.history.popped ++ [j]) := by
      intro i hi
      by_cases hij : i = j
      · simp [hij]
      · simpa [Function.update_of_ne hij, hij] using h.processed i hi
    split at hu
    · next hc =>
      obtain rfl := Except.ok.inj hu
      apply Ordered.destroyArg
      simp only [Function.update_self, ThreadJob.started_cancelled] at hc
      constructor
      · simp [hsplit]
      · exact h.nodup
      · exact h.bound
      · exact hprocessed
      · simp [hcancelled, hc, List.filter_append, h.executed]
      · simpa [finished, hw] using hrun
      · intro t i hi
        simp only [hsame]
        exact h.pushing t i hi
      · intro i hi
        simp only [hsame]
        exact h.created i hi
    · next hc =>
      obtain rfl := Except.ok.inj hu
      simp only [Function.update_self, ThreadJob.started_cancelled] at hc
      constructor
      · simp [hsplit]
      · exact h.nodup
      · exact h.bound
      · exact hprocessed
      · simp [hcancelled, hc, List.filter_append, h.executed]
      · simp only [finished] at hrun ⊢
        simp [hrun]
      · intro t i hi
        simp only [hsame]
        exact h.pushing t i hi
      · intro i hi
        simp only [hsame]
        exact h.created i hi
  · cases hu

theorem getThreadData_some (w : ThreadWrapper T R) (t : T) :
    (w.getThreadData t).1.threadsHash t = some (w.getThreadData t).2 := by
  simp only [getThreadData]
  split
  · next d hd => exact hd
  · simp [ThreadWrapper.setThreadData]

theorem execute_getThreadData (w : ThreadWrapper T R) (t : T) (isVoid destroys : Bool) :
    w.execute t isVoid destroys = (w.getThreadData t).1.execute t isVoid destroys := by
  cases hd : w.threadsHash t with
  | some d => simp [getThreadData, hd]
  | none => simp [execute, getThreadData, hd, ThreadWrapper.setThreadData]

def newJob (w : ThreadWrapper T R) (t : T) (d : ThreadData) (isVoid destroys : Bool) :
    ThreadJob T R where
  owner := t
  jobId := (w.nextJob + 1) % 2 ^ 32
  isVoid := isVoid
  destroys := destroys
  replyQueue := d.fromWorkerThread

theorem execute_eq {d : ThreadData} (hd : w.threadsHash t = some d) (isVoid destroys : Bool) :
    w.execute t isVoid destroys = { w with
      nextJob := w.nextJob + 1
      job := Function.update w.job w.nextJob (w.newJob t d isVoid destroys)
      threadsHash := Function.update w.threadsHash t
        (some { d with jobs := d.jobs ++ [w.nextJob] })
      position := Function.update w.position t (.pushing w.nextJob) } := by
  simp [execute, getThreadData, hd, ThreadWrapper.setThreadData, ThreadWrapper.setPosition, setJob,
    newJob]

theorem Ordered.getThreadData (h : w.Ordered) (t : T) : (w.getThreadData t).1.Ordered := by
  simp only [ThreadWrapper.getThreadData]
  split
  · exact h
  · exact ⟨h.split, h.nodup, h.bound, h.processed, h.executed, h.running, h.pushing, h.created⟩

theorem Ordered.execute (h : w.Ordered) (hp : w.position t = .idle) {d : ThreadData}
    (hd : w.threadsHash t = some d) (isVoid destroys : Bool) :
    (w.execute t isVoid destroys).Ordered := by
  rw [execute_eq hd]
  have hnew : w.nextJob ∉ w.history.pushed := fun hmem => Nat.lt_irrefl _ (h.bound _ hmem)
  have hne : ∀ j ∈ w.history.popped, j ≠ w.nextJob := by
    intro j hj
    exact ne_of_mem_of_not_mem (h.mem_pushed_of_popped hj) hnew
  constructor
  · exact h.split
  · exact h.nodup
  · intro j hj
    exact Nat.lt_succ_of_lt (h.bound j hj)
  · intro j hj
    by_cases hjn : j = w.nextJob
    · subst hjn
      have hnot : w.nextJob ∉ w.history.popped := fun hmem => hne _ hmem rfl
      simp [newJob, hnot]
    · have hlt : j < w.nextJob := by
        simp only at hj
        omega
      simpa [Function.update_of_ne hjn] using h.processed j hlt
  · simp only [h.executed]
    apply List.filter_congr
    intro j hj
    simp [Function.update_of_ne (hne j hj)]
  · exact h.running
  · intro t' j hj
    by_cases ht : t' = t
    · subst ht
      simp only [Function.update_self] at hj
      obtain rfl := ThreadPosition.pushing.inj hj
      exact ⟨Nat.lt_succ_self _, by simp [newJob], hnew⟩
    · simp only [Function.update_of_ne ht] at hj
      obtain ⟨hlt, howner, hmem⟩ := h.pushing t' j hj
      have hjn : j ≠ w.nextJob := by omega
      exact ⟨Nat.lt_succ_of_lt hlt, by simpa [Function.update_of_ne hjn] using howner, hmem⟩
  · intro j hj
    by_cases hjn : j = w.nextJob
    · subst hjn
      right
      simp [newJob]
    · have hlt : j < w.nextJob := by
        simp only at hj
        omega
      rcases h.created j hlt with hmem | hpos
      · exact .inl hmem
      · right
        have ht : (w.job j).owner ≠ t := by
          intro ht
          rw [ht, hp] at hpos
          cases hpos
        simpa [Function.update_of_ne hjn, Function.update_of_ne ht] using hpos

omit [DecidableEq T] in
theorem Queued.updateJob (h : w.Queued) {j : Nat} {b : ThreadJob T R}
    (hb : SameStage (w.job j) b) : Queued { w with job := Function.update w.job j b } := by
  have hsame := sameStage_update hb
  refine ⟨h.nodup_taken, h.taken_finished, h.nodup, ?_⟩
  intro q i
  simp only [(hsame i).replyQueue]
  exact h.mem_iff q i

omit [DecidableEq T] in
theorem Queued.destroyArg (h : w.Queued) (j : Nat) : (w.destroyArg j).Queued := by
  rcases destroyArg_cases w j with hr | hr
  · rw [hr]
    exact h
  · rw [hr]
    have hu := h.updateJob (b := (w.job j).withoutArg) ⟨rfl, rfl, rfl, rfl, rfl, rfl, rfl⟩
    exact ⟨hu.nodup_taken, hu.taken_finished, hu.nodup, hu.mem_iff⟩

omit [DecidableEq T] in
theorem Queued.cancel (h : w.Queued) (j : Nat) :
    Queued { w with job := Function.update w.job j (w.job j).withdrawn } := by
  refine ⟨h.nodup_taken, h.taken_finished, h.nodup, ?_⟩
  intro q i
  have hmem := h.mem_iff q i
  simp only [finished] at hmem ⊢
  by_cases hi : i = j
  · subst hi
    simpa using hmem
  · simpa [Function.update_of_ne hi] using hmem

omit [DecidableEq T] in
theorem Queued.workerPop (h : w.Queued) {u : ThreadWrapper T R} (hu : w.workerPop = .ok u) :
    u.Queued := by
  simp only [ThreadWrapper.workerPop] at hu
  split at hu
  · next j rest hw hto =>
    have hmem : ∀ q i, i ∈ w.queue q ↔ i ∈ w.finished ∧
        (Function.update w.job j (w.job j).started i).replyQueue = q ∧ i ∉ w.history.taken := by
      intro q i
      by_cases hi : i = j
      · subst hi
        simpa using h.mem_iff q i
      · simpa [Function.update_of_ne hi] using h.mem_iff q i
    split at hu
    · obtain rfl := Except.ok.inj hu
      apply Queued.destroyArg
      exact ⟨h.nodup_taken, h.taken_finished, h.nodup, hmem⟩
    · obtain rfl := Except.ok.inj hu
      exact ⟨h.nodup_taken, h.taken_finished, h.nodup, hmem⟩
  · cases hu

omit [DecidableEq T] in
theorem Queued.workerReturn (h : w.Queued) (ho : w.Ordered) {r : R} {u : ThreadWrapper T R}
    (hu : w.workerReturn r = .ok u) : u.Queued := by
  simp only [ThreadWrapper.workerReturn] at hu
  split at hu
  · cases hu
  · next j hw =>
    obtain rfl := Except.ok.inj hu
    obtain ⟨-, -, hnew, -⟩ := ho.worker hw
    have hnot : ∀ q, j ∉ w.queue q := by
      intro q hmem
      exact hnew ((h.mem_iff q j).mp hmem).1
    have htaken : j ∉ w.history.taken := fun hmem => hnew (h.taken_finished j hmem)
    have hfinished : ∀ i, i ∈ (w.history.returned ++ [(j, r)]).map Prod.fst ↔
        i ∈ w.finished ∨ i = j := by
      intro i
      simp [finished]
    constructor
    · exact h.nodup_taken
    · intro i hi
      exact (hfinished i).mpr (.inl (h.taken_finished i hi))
    · intro q
      by_cases hq : q = (w.job j).replyQueue
      · subst hq
        simpa [List.nodup_append, h.nodup] using
          fun a ha => ne_of_mem_of_not_mem ha (hnot _)
      · simpa [Function.update_of_ne hq] using h.nodup q
    · intro q i
      have hmem : ∀ q, i ∈ w.queue q ↔ i ∈ w.finished ∧ (w.job i).replyQueue = q ∧
          i ∉ w.history.taken := fun q => h.mem_iff q i
      unfold finished at ⊢
      rw [hfinished]
      by_cases hi : i = j
      · subst hi
        by_cases hq : q = (w.job i).replyQueue
        · simp [hq, htaken]
        · simp [Function.update_of_ne hq, hnot, Ne.symm hq]
      · by_cases hq : q = (w.job j).replyQueue
        · subst hq
          simpa [hi, Function.update_of_ne hi] using hmem _
        · simpa [hi, Function.update_of_ne hi, Function.update_of_ne hq] using hmem q

theorem Queued.execute (h : w.Queued) (ho : w.Ordered) {d : ThreadData}
    (hd : w.threadsHash t = some d) (isVoid destroys : Bool) :
    (w.execute t isVoid destroys).Queued := by
  rw [execute_eq hd]
  refine ⟨h.nodup_taken, h.taken_finished, h.nodup, ?_⟩
  intro q j
  by_cases hj : j = w.nextJob
  · have hnot : j ∉ w.finished := by
      intro hf
      have := ho.finished_lt hf
      omega
    have hnotq : j ∉ w.queue q := fun hmem => hnot ((h.mem_iff q j).mp hmem).1
    constructor
    · intro hmem
      exact absurd hmem hnotq
    · intro hmem
      exact absurd hmem.1 hnot
  · have hmem := h.mem_iff q j
    simp only [finished] at hmem ⊢
    simpa [Function.update_of_ne hj] using hmem

omit [DecidableEq T] in
theorem Queued.take (h : w.Queued) {q j : Nat} {rest : List Nat} (hq : w.queue q = j :: rest) :
    Queued { w with
      queue := Function.update w.queue q rest
      history := { w.history with taken := w.history.taken ++ [j] } } := by
  have hj := (h.mem_iff q j).mp (by rw [hq]; simp)
  have hn := h.nodup q
  rw [hq, List.nodup_cons] at hn
  constructor
  · simpa [List.nodup_append, h.nodup_taken] using fun a ha => ne_of_mem_of_not_mem ha hj.2.2
  · intro i hi
    rcases List.mem_append.mp hi with hi | hi
    · exact h.taken_finished i hi
    · obtain rfl := List.mem_singleton.mp hi
      exact hj.1
  · intro q'
    by_cases hq' : q' = q
    · subst hq'
      simpa using hn.2
    · simpa [Function.update_of_ne hq'] using h.nodup q'
  · intro q' i
    by_cases hq' : q' = q
    · subst hq'
      have hmem := h.mem_iff q' i
      rw [hq, List.mem_cons] at hmem
      simp only [Function.update_self, List.mem_append, List.mem_singleton, not_or]
      constructor
      · intro hi
        have := hmem.mp (.inr hi)
        exact ⟨this.1, this.2.1, this.2.2, ne_of_mem_of_not_mem hi hn.1⟩
      · rintro ⟨hf, hr, ht, hne⟩
        exact (hmem.mpr ⟨hf, hr, ht⟩).resolve_left hne
    · simp only [Function.update_of_ne hq', List.mem_append, List.mem_singleton, not_or]
      constructor
      · intro hi
        have hmem := (h.mem_iff q' i).mp hi
        refine ⟨hmem.1, hmem.2.1, hmem.2.2, ?_⟩
        rintro rfl
        exact hq' (hmem.2.1.symm.trans hj.2.1)
      · rintro ⟨hf, hr, ht, -⟩
        exact (h.mem_iff q' i).mpr ⟨hf, hr, ht⟩

end Steps

end ThreadWrapper

end LibGda
