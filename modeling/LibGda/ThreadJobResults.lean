import LibGda.ThreadJobOrder

/-! What each thread knows of its jobs, and what has become of the results and of the
arguments. -/

namespace LibGda

variable {T R : Type}

namespace ThreadWrapper

def deliveredJobs (w : ThreadWrapper T R) : List Nat :=
  w.history.delivered.map Delivery.job

def Open (w : ThreadWrapper T R) (j : Nat) : Prop :=
  j < w.nextJob ∧ (w.job j).cancelled = false ∧ j ∉ w.history.taken

def Unfetched (w : ThreadWrapper T R) (j : Nat) : Prop :=
  j ∈ w.history.taken ∧ (w.job j).isVoid = false ∧ j ∉ w.deliveredJobs

structure Shared (w : ThreadWrapper T R) : Prop where
  nodup_jobs : ∀ t d, w.threadsHash t = some d → d.jobs.Nodup
  mem_jobs : ∀ t d, w.threadsHash t = some d → ∀ j, j ∈ d.jobs ↔ w.Open j ∧ (w.job j).owner = t
  nodup_results : ∀ t d, w.threadsHash t = some d → d.results.Nodup
  mem_results : ∀ t d, w.threadsHash t = some d → ∀ j,
    j ∈ d.results ↔ w.Unfetched j ∧ (w.job j).owner = t
  absent : ∀ j, w.Open j ∨ w.Unfetched j → w.threadsHash (w.job j).owner ≠ none
  reply : ∀ j d, w.Open j → w.threadsHash (w.job j).owner = some d →
    (w.job j).replyQueue = d.fromWorkerThread
  replyLt : ∀ j < w.nextJob, (w.job j).replyQueue < w.nextQueue
  queueLt : ∀ t d, w.threadsHash t = some d → d.fromWorkerThread < w.nextQueue
  distinct : ∀ t t' d d', w.threadsHash t = some d → w.threadsHash t' = some d' →
    d.fromWorkerThread = d'.fromWorkerThread → t = t'

structure SameJob (a b : ThreadJob T R) : Prop where
  owner : b.owner = a.owner
  jobId : b.jobId = a.jobId
  isVoid : b.isVoid = a.isVoid
  destroys : b.destroys = a.destroys
  replyQueue : b.replyQueue = a.replyQueue
  cancelled : b.cancelled = a.cancelled

theorem SameJob.refl (a : ThreadJob T R) : SameJob a a :=
  ⟨rfl, rfl, rfl, rfl, rfl, rfl⟩

theorem sameJob_update {w : ThreadWrapper T R} {j : Nat} {b : ThreadJob T R}
    (h : SameJob (w.job j) b) (i : Nat) : SameJob (w.job i) (Function.update w.job j b i) := by
  by_cases hi : i = j
  · subst hi
    rwa [Function.update_self]
  · rw [Function.update_of_ne hi]
    exact SameJob.refl _

theorem sameJob_destroyArg (w : ThreadWrapper T R) (j i : Nat) :
    SameJob (w.job i) ((w.destroyArg j).job i) := by
  rcases destroyArg_cases w j with h | h
  · rw [h]
    exact SameJob.refl _
  · rw [h]
    have hsame : SameJob (w.job j) (w.job j).withoutArg := ⟨rfl, rfl, rfl, rfl, rfl, rfl⟩
    exact sameJob_update hsame i

structure SameButArg (w u : ThreadWrapper T R) : Prop where
  nextJob : u.nextJob = w.nextJob
  job : ∀ i, SameJob (w.job i) (u.job i)
  nextQueue : u.nextQueue = w.nextQueue
  threadsHash : u.threadsHash = w.threadsHash
  taken : u.history.taken = w.history.taken
  delivered : u.history.delivered = w.history.delivered

theorem sameButArg_destroyArg (w : ThreadWrapper T R) (j : Nat) : SameButArg w
    (w.destroyArg j) := by
  have hjob := sameJob_destroyArg w j
  rcases destroyArg_cases w j with h | h
  · rw [h]
    exact ⟨rfl, fun i => SameJob.refl _, rfl, rfl, rfl, rfl⟩
  · rw [h] at hjob ⊢
    exact ⟨rfl, hjob, rfl, rfl, rfl, rfl⟩

theorem Shared.congr {w u : ThreadWrapper T R} (h : w.Shared) (hu : SameButArg w u) :
    u.Shared := by
  have hopen : ∀ j, u.Open j ↔ w.Open j := by
    intro j
    simp only [Open, hu.nextJob, (hu.job j).cancelled, hu.taken]
  have hunfetched : ∀ j, u.Unfetched j ↔ w.Unfetched j := by
    intro j
    simp only [Unfetched, deliveredJobs, (hu.job j).isVoid, hu.taken, hu.delivered]
  constructor
  · simp only [hu.threadsHash]
    exact h.nodup_jobs
  · simp only [hu.threadsHash, hopen, (hu.job _).owner]
    exact h.mem_jobs
  · simp only [hu.threadsHash]
    exact h.nodup_results
  · simp only [hu.threadsHash, hunfetched, (hu.job _).owner]
    exact h.mem_results
  · simp only [hu.threadsHash, hopen, hunfetched, (hu.job _).owner]
    exact h.absent
  · simp only [hu.threadsHash, hopen, (hu.job _).owner, (hu.job _).replyQueue]
    exact h.reply
  · simp only [hu.nextJob, hu.nextQueue, (hu.job _).replyQueue]
    exact h.replyLt
  · simp only [hu.threadsHash, hu.nextQueue]
    exact h.queueLt
  · simp only [hu.threadsHash]
    exact h.distinct

section Steps

variable [DecidableEq T] {w : ThreadWrapper T R} {t : T}

theorem update_cases {hash : T → Option ThreadData} {t t' : T} {d e : ThreadData}
    (h : Function.update hash t (some d) t' = some e) :
    (t' = t ∧ e = d) ∨ (t' ≠ t ∧ hash t' = some e) := by
  by_cases ht : t' = t
  · subst ht
    rw [Function.update_self] at h
    exact .inl ⟨rfl, (Option.some.inj h).symm⟩
  · rw [Function.update_of_ne ht] at h
    exact .inr ⟨ht, h⟩

theorem Shared.getThreadData (h : w.Shared) (t : T) : (w.getThreadData t).1.Shared := by
  simp only [ThreadWrapper.getThreadData]
  split
  · exact h
  · next hnone =>
    have hgone : ∀ j, w.Open j ∨ w.Unfetched j → (w.job j).owner ≠ t := by
      rintro j hj rfl
      exact h.absent j hj hnone
    have hhash : ∀ t' d, Function.update w.threadsHash t
        (some { fromWorkerThread := w.nextQueue : ThreadData }) t' = some d →
        (t' = t ∧ d = { fromWorkerThread := w.nextQueue }) ∨
          (t' ≠ t ∧ w.threadsHash t' = some d) := fun _ _ => update_cases
    constructor
    · intro t' d hd
      rcases hhash t' d hd with ⟨rfl, rfl⟩ | ⟨-, hd⟩
      · exact List.nodup_nil
      · exact h.nodup_jobs t' d hd
    · intro t' d hd j
      rcases hhash t' d hd with ⟨rfl, rfl⟩ | ⟨-, hd⟩
      · simp only [List.not_mem_nil, false_iff]
        intro hj
        exact hgone j (.inl hj.1) hj.2
      · exact h.mem_jobs t' d hd j
    · intro t' d hd
      rcases hhash t' d hd with ⟨rfl, rfl⟩ | ⟨-, hd⟩
      · exact List.nodup_nil
      · exact h.nodup_results t' d hd
    · intro t' d hd j
      rcases hhash t' d hd with ⟨rfl, rfl⟩ | ⟨-, hd⟩
      · simp only [List.not_mem_nil, false_iff]
        intro hj
        exact hgone j (.inr hj.1) hj.2
      · exact h.mem_results t' d hd j
    · intro j hj
      have habsent := h.absent j hj
      simpa [ThreadWrapper.setThreadData, Function.update_of_ne (hgone j hj)] using habsent
    · intro j d hj hd
      rcases hhash _ d hd with ⟨ht, -⟩ | ⟨-, hd⟩
      · exact absurd ht (hgone j (.inl hj))
      · exact h.reply j d hj hd
    · intro j hj
      exact Nat.lt_succ_of_lt (h.replyLt j hj)
    · intro t' d hd
      rcases hhash t' d hd with ⟨-, rfl⟩ | ⟨-, hd⟩
      · exact Nat.lt_succ_self _
      · exact Nat.lt_succ_of_lt (h.queueLt t' d hd)
    · intro t₁ t₂ d₁ d₂ hd₁ hd₂ heq
      rcases hhash t₁ d₁ hd₁ with ⟨ht₁, rfl⟩ | ⟨-, hd₁'⟩
      · rcases hhash t₂ d₂ hd₂ with ⟨ht₂, -⟩ | ⟨-, hd₂'⟩
        · exact ht₁.trans ht₂.symm
        · have := h.queueLt t₂ d₂ hd₂'
          simp only at heq
          omega
      · rcases hhash t₂ d₂ hd₂ with ⟨-, rfl⟩ | ⟨-, hd₂'⟩
        · have := h.queueLt t₁ d₁ hd₁'
          simp only at heq
          omega
        · exact h.distinct t₁ t₂ d₁ d₂ hd₁' hd₂' heq

theorem Shared.ownData (h : w.Shared) {u : ThreadWrapper T R} {d d' : ThreadData}
    (hd : w.threadsHash t = some d) (hfrom : d'.fromWorkerThread = d.fromWorkerThread)
    (hhash : u.threadsHash = Function.update w.threadsHash t (some d'))
    (hqueue : u.nextQueue = w.nextQueue)
    (hjob : ∀ j, w.Open j ∨ w.Unfetched j →
      (u.job j).owner = (w.job j).owner ∧ (u.job j).replyQueue = (w.job j).replyQueue)
    (hother : ∀ j, (u.job j).owner ≠ t →
      (u.Open j ↔ w.Open j) ∧ (u.Unfetched j ↔ w.Unfetched j))
    (hreplyLt : ∀ j < u.nextJob, (u.job j).replyQueue < w.nextQueue)
    (hreply : ∀ j, u.Open j → (u.job j).owner = t → (u.job j).replyQueue = d.fromWorkerThread)
    (hjobs : d'.jobs.Nodup ∧ ∀ j, j ∈ d'.jobs ↔ u.Open j ∧ (u.job j).owner = t)
    (hresults : d'.results.Nodup ∧ ∀ j, j ∈ d'.results ↔ u.Unfetched j ∧ (u.job j).owner = t) :
    u.Shared := by
  have hcases : ∀ t' e, u.threadsHash t' = some e →
      (t' = t ∧ e = d') ∨ (t' ≠ t ∧ w.threadsHash t' = some e) := by
    intro t' e he
    rw [hhash] at he
    exact update_cases he
  constructor
  · intro t' e he
    rcases hcases t' e he with ⟨-, rfl⟩ | ⟨-, he'⟩
    · exact hjobs.1
    · exact h.nodup_jobs t' e he'
  · intro t' e he j
    rcases hcases t' e he with ⟨rfl, rfl⟩ | ⟨ht, he'⟩
    · exact hjobs.2 j
    · rw [h.mem_jobs t' e he' j]
      constructor
      · rintro ⟨hopen, rfl⟩
        have howner := (hjob j (.inl hopen)).1
        have hne : (u.job j).owner ≠ t := by rwa [howner]
        exact ⟨(hother j hne).1.mpr hopen, howner⟩
      · rintro ⟨hopen, rfl⟩
        have hopen' := (hother j ht).1.mp hopen
        exact ⟨hopen', (hjob j (.inl hopen')).1.symm⟩
  · intro t' e he
    rcases hcases t' e he with ⟨-, rfl⟩ | ⟨-, he'⟩
    · exact hresults.1
    · exact h.nodup_results t' e he'
  · intro t' e he j
    rcases hcases t' e he with ⟨rfl, rfl⟩ | ⟨ht, he'⟩
    · exact hresults.2 j
    · rw [h.mem_results t' e he' j]
      constructor
      · rintro ⟨hopen, rfl⟩
        have howner := (hjob j (.inr hopen)).1
        have hne : (u.job j).owner ≠ t := by rwa [howner]
        exact ⟨(hother j hne).2.mpr hopen, howner⟩
      · rintro ⟨hopen, rfl⟩
        have hopen' := (hother j ht).2.mp hopen
        exact ⟨hopen', (hjob j (.inr hopen')).1.symm⟩
  · intro j hj
    rw [hhash]
    by_cases ht : (u.job j).owner = t
    · rw [ht, Function.update_self]
      exact Option.some_ne_none _
    · rw [Function.update_of_ne ht]
      have hj' : w.Open j ∨ w.Unfetched j := hj.imp (hother j ht).1.mp (hother j ht).2.mp
      rw [(hjob j hj').1]
      exact h.absent j hj'
  · intro j e hj he
    rcases hcases _ e he with ⟨ht, rfl⟩ | ⟨ht, he'⟩
    · rw [hfrom]
      exact hreply j hj ht
    · have hj' := (hother j ht).1.mp hj
      have hsame := hjob j (.inl hj')
      rw [hsame.1] at he'
      rw [hsame.2]
      exact h.reply j e hj' he'
  · rw [hqueue]
    exact hreplyLt
  · intro t' e he
    rw [hqueue]
    rcases hcases t' e he with ⟨-, rfl⟩ | ⟨-, he'⟩
    · rw [hfrom]
      exact h.queueLt t d hd
    · exact h.queueLt t' e he'
  · intro t₁ t₂ d₁ d₂ hd₁ hd₂ heq
    rcases hcases t₁ d₁ hd₁ with ⟨ht₁, rfl⟩ | ⟨-, hd₁'⟩
    · rcases hcases t₂ d₂ hd₂ with ⟨ht₂, -⟩ | ⟨-, hd₂'⟩
      · exact ht₁.trans ht₂.symm
      · rw [hfrom] at heq
        exact ht₁.trans (h.distinct t t₂ d d₂ hd hd₂' heq)
    · rcases hcases t₂ d₂ hd₂ with ⟨ht₂, rfl⟩ | ⟨-, hd₂'⟩
      · rw [hfrom] at heq
        exact (h.distinct t₁ t d₁ d hd₁' hd heq).trans ht₂.symm
      · exact h.distinct t₁ t₂ d₁ d₂ hd₁' hd₂' heq

theorem Shared.execute (h : w.Shared) {d : ThreadData} (hd : w.threadsHash t = some d)
    (hnew : w.nextJob ∉ w.history.taken) (isVoid destroys : Bool) :
    (w.execute t isVoid destroys).Shared := by
  rw [execute_eq hd]
  have hold : ∀ j, w.Open j ∨ w.Unfetched j → j ≠ w.nextJob := by
    rintro j (hj | hj) rfl
    · exact Nat.lt_irrefl _ hj.1
    · exact hnew hj.1
  have hopen : ∀ j, j < w.nextJob + 1 ∧
      (Function.update w.job w.nextJob (w.newJob t d isVoid destroys) j).cancelled = false ∧
        j ∉ w.history.taken ↔ w.Open j ∨ j = w.nextJob := by
    intro j
    by_cases hj : j = w.nextJob
    · subst hj
      simp [newJob, hnew]
    · simp only [Function.update_of_ne hj, Open, hj, or_false]
      have : j < w.nextJob + 1 ↔ j < w.nextJob := by omega
      rw [this]
  have hunfetched : ∀ j, j ∈ w.history.taken ∧
      (Function.update w.job w.nextJob (w.newJob t d isVoid destroys) j).isVoid = false ∧
        j ∉ w.deliveredJobs ↔ w.Unfetched j := by
    intro j
    by_cases hj : j = w.nextJob
    · subst hj
      simp [Unfetched, hnew]
    · simp only [Function.update_of_ne hj, Unfetched]
  have hmine : (Function.update w.job w.nextJob (w.newJob t d isVoid destroys) w.nextJob).owner =
      t := by simp [newJob]
  apply h.ownData hd
  case hhash => rfl
  case hfrom => rfl
  case hqueue => rfl
  case hjob =>
    intro j hj
    simp only [Function.update_of_ne (hold j hj), and_self]
  case hother =>
    intro j hj
    constructor
    · refine (hopen j).trans ⟨?_, Or.inl⟩
      rintro (hj' | rfl)
      · exact hj'
      · exact absurd hmine hj
    · exact hunfetched j
  case hreplyLt =>
    intro j hj
    by_cases hjn : j = w.nextJob
    · subst hjn
      simpa [newJob] using h.queueLt t d hd
    · simp only [Function.update_of_ne hjn]
      apply h.replyLt
      simp only at hj
      omega
  case hreply =>
    intro j hj howner
    rcases (hopen j).mp hj with hj' | rfl
    · simp only [Function.update_of_ne (hold j (.inl hj'))] at howner ⊢
      exact h.reply j d hj' (by rw [howner, hd])
    · simp [newJob]
  case hjobs =>
    constructor
    · have hnot : w.nextJob ∉ d.jobs := fun hmem =>
        Nat.lt_irrefl _ ((h.mem_jobs t d hd _).mp hmem).1.1
      simpa [List.nodup_append, h.nodup_jobs t d hd] using fun a ha => ne_of_mem_of_not_mem ha hnot
    · intro j
      rw [List.mem_append, List.mem_singleton, h.mem_jobs t d hd]
      constructor
      · rintro (⟨hj, howner⟩ | rfl)
        · refine ⟨(hopen j).mpr (.inl hj), ?_⟩
          simpa only [Function.update_of_ne (hold j (.inl hj))] using howner
        · exact ⟨(hopen _).mpr (.inr rfl), hmine⟩
      · rintro ⟨hj, howner⟩
        rcases (hopen j).mp hj with hj' | rfl
        · simp only [Function.update_of_ne (hold j (.inl hj'))] at howner
          exact .inl ⟨hj', howner⟩
        · exact .inr rfl
  case hresults =>
    refine ⟨h.nodup_results t d hd, ?_⟩
    intro j
    rw [h.mem_results t d hd]
    constructor
    · rintro ⟨hj, howner⟩
      refine ⟨(hunfetched j).mpr hj, ?_⟩
      simpa only [Function.update_of_ne (hold j (.inr hj))] using howner
    · rintro ⟨hj, howner⟩
      have hj' := (hunfetched j).mp hj
      simp only [Function.update_of_ne (hold j (.inr hj'))] at howner
      exact ⟨hj', howner⟩

theorem Shared.cancel (h : w.Shared) {d : ThreadData} (hd : w.threadsHash t = some d) {j : Nat}
    (hj : j ∈ d.jobs) : ((w.setJob j (w.job j).withdrawn).setThreadData t
      (some { d with jobs := d.jobs.erase j })).Shared := by
  obtain ⟨hopenj, howner⟩ := (h.mem_jobs t d hd j).mp hj
  have hsame : ∀ i, (Function.update w.job j (w.job j).withdrawn i).owner = (w.job i).owner ∧
      (Function.update w.job j (w.job j).withdrawn i).replyQueue = (w.job i).replyQueue ∧
      (Function.update w.job j (w.job j).withdrawn i).isVoid = (w.job i).isVoid := by
    intro i
    by_cases hi : i = j
    · subst hi
      simp
    · simp [Function.update_of_ne hi]
  have hopen : ∀ i, i < w.nextJob ∧
      (Function.update w.job j (w.job j).withdrawn i).cancelled = false ∧
        i ∉ w.history.taken ↔ w.Open i ∧ i ≠ j := by
    intro i
    by_cases hi : i = j
    · subst hi
      simp
    · simp [Open, hi]
  have hunfetched : ∀ i, i ∈ w.history.taken ∧
      (Function.update w.job j (w.job j).withdrawn i).isVoid = false ∧
        i ∉ w.deliveredJobs ↔ w.Unfetched i := by
    intro i
    simp only [(hsame i).2.2, Unfetched]
  apply h.ownData hd
  case hhash => rfl
  case hfrom => rfl
  case hqueue => rfl
  case hjob =>
    intro i _
    exact ⟨(hsame i).1, (hsame i).2.1⟩
  case hother =>
    intro i hi
    refine ⟨(hopen i).trans ⟨And.left, ?_⟩, hunfetched i⟩
    intro hi'
    refine ⟨hi', ?_⟩
    rintro rfl
    exact hi ((hsame i).1.trans howner)
  case hreplyLt =>
    intro i hi
    rw [ThreadWrapper.setThreadData, setJob, (hsame i).2.1]
    exact h.replyLt i hi
  case hreply =>
    intro i hi hown
    rw [ThreadWrapper.setThreadData, setJob, (hsame i).1] at hown
    rw [ThreadWrapper.setThreadData, setJob, (hsame i).2.1]
    exact h.reply i d ((hopen i).mp hi).1 (by rw [hown, hd])
  case hjobs =>
    refine ⟨(h.nodup_jobs t d hd).erase j, ?_⟩
    intro i
    rw [(h.nodup_jobs t d hd).mem_erase_iff, h.mem_jobs t d hd]
    constructor
    · rintro ⟨hi, hi', hown⟩
      exact ⟨(hopen i).mpr ⟨hi', hi⟩, (hsame i).1.trans hown⟩
    · rintro ⟨hi, hown⟩
      obtain ⟨hi', hne⟩ := (hopen i).mp hi
      exact ⟨hne, hi', (hsame i).1.symm.trans hown⟩
  case hresults =>
    refine ⟨h.nodup_results t d hd, ?_⟩
    intro i
    rw [h.mem_results t d hd]
    constructor
    · rintro ⟨hi, hown⟩
      exact ⟨(hunfetched i).mpr hi, (hsame i).1.trans hown⟩
    · rintro ⟨hi, hown⟩
      exact ⟨(hunfetched i).mp hi, (hsame i).1.symm.trans hown⟩

def ThreadData.popped (d : ThreadData) (j : Nat) (isVoid : Bool) : ThreadData :=
  { d with
    jobs := d.jobs.erase j
    results := if isVoid then d.results else d.results ++ [j] }

theorem Shared.take (h : w.Shared) {d : ThreadData} (hd : w.threadsHash t = some d) {j : Nat}
    (hj : j ∈ d.jobs) (hnew : j ∉ w.deliveredJobs) (q : Nat → List Nat) :
    ({ w with
      queue := q
      history := { w.history with taken := w.history.taken ++ [j] } }.setThreadData t
        (some (ThreadData.popped d j (w.job j).isVoid))).Shared := by
  obtain ⟨hopenj, howner⟩ := (h.mem_jobs t d hd j).mp hj
  have hopen : ∀ i, i < w.nextJob ∧ (w.job i).cancelled = false ∧ i ∉ w.history.taken ++ [j] ↔
      w.Open i ∧ i ≠ j := by
    intro i
    simp only [List.mem_append, List.mem_singleton, not_or, Open, and_assoc]
  have hunfetched : ∀ i, i ∈ w.history.taken ++ [j] ∧ (w.job i).isVoid = false ∧
      i ∉ w.deliveredJobs ↔ w.Unfetched i ∨ i = j ∧ (w.job j).isVoid = false := by
    intro i
    simp only [List.mem_append, List.mem_singleton, Unfetched]
    constructor
    · rintro ⟨hi | rfl, hvoid, hdel⟩
      · exact .inl ⟨hi, hvoid, hdel⟩
      · exact .inr ⟨rfl, hvoid⟩
    · rintro (⟨hi, hvoid, hdel⟩ | ⟨rfl, hvoid⟩)
      · exact ⟨.inl hi, hvoid, hdel⟩
      · exact ⟨.inr rfl, hvoid, hnew⟩
  apply h.ownData hd
  case hhash => rfl
  case hfrom => rfl
  case hqueue => rfl
  case hjob =>
    intro i _
    exact ⟨rfl, rfl⟩
  case hother =>
    intro i hi
    have hne : i ≠ j := by
      rintro rfl
      exact hi howner
    constructor
    · refine (hopen i).trans ⟨And.left, fun hi' => ⟨hi', hne⟩⟩
    · refine (hunfetched i).trans ⟨?_, Or.inl⟩
      rintro (hi' | ⟨hi', -⟩)
      · exact hi'
      · exact absurd hi' hne
  case hreplyLt => exact h.replyLt
  case hreply =>
    intro i hi hown
    exact h.reply i d ((hopen i).mp hi).1 (by rw [← hd, ← hown]; rfl)
  case hjobs =>
    refine ⟨(h.nodup_jobs t d hd).erase j, ?_⟩
    intro i
    rw [ThreadData.popped, (h.nodup_jobs t d hd).mem_erase_iff, h.mem_jobs t d hd]
    constructor
    · rintro ⟨hi, hi', hown⟩
      exact ⟨(hopen i).mpr ⟨hi', hi⟩, hown⟩
    · rintro ⟨hi, hown⟩
      obtain ⟨hi', hne⟩ := (hopen i).mp hi
      exact ⟨hne, hi', hown⟩
  case hresults =>
    have hnot : j ∉ d.results := fun hmem =>
      hopenj.2.2 ((h.mem_results t d hd j).mp hmem).1.1
    have hn := h.nodup_results t d hd
    constructor
    · simp only [ThreadData.popped]
      split
      · exact hn
      · simpa [List.nodup_append, hn] using fun a ha => ne_of_mem_of_not_mem ha hnot
    · intro i
      have hmem : i ∈ (ThreadData.popped d j (w.job j).isVoid).results ↔
          i ∈ d.results ∨ i = j ∧ (w.job j).isVoid = false := by
        simp only [ThreadData.popped]
        split
        · next hvoid => simp [hvoid]
        · next hvoid => simp [hvoid]
      rw [hmem, h.mem_results t d hd]
      constructor
      · rintro (⟨hi, hown⟩ | ⟨rfl, hvoid⟩)
        · exact ⟨(hunfetched i).mpr (.inl hi), hown⟩
        · exact ⟨(hunfetched i).mpr (.inr ⟨rfl, hvoid⟩), howner⟩
      · rintro ⟨hi, hown⟩
        rcases (hunfetched i).mp hi with hi' | hi'
        · exact .inl ⟨hi', hown⟩
        · exact .inr hi'

theorem Shared.deliver (h : w.Shared) {d : ThreadData} (hd : w.threadsHash t = some d)
    {e : Delivery T R} (hj : e.job ∈ d.results) :
    ({ w with
      history := { w.history with delivered := w.history.delivered ++ [e] } }.setThreadData t
        (some { d with results := d.results.erase e.job })).Shared := by
  obtain ⟨-, howner⟩ := (h.mem_results t d hd e.job).mp hj
  have hunfetched : ∀ i, i ∈ w.history.taken ∧ (w.job i).isVoid = false ∧
      i ∉ (w.history.delivered ++ [e]).map Delivery.job ↔ w.Unfetched i ∧ i ≠ e.job := by
    intro i
    simp only [List.map_append, List.map_cons, List.map_nil, List.mem_append, List.mem_singleton,
      not_or, Unfetched, deliveredJobs, and_assoc]
  apply h.ownData hd
  case hhash => rfl
  case hfrom => rfl
  case hqueue => rfl
  case hjob =>
    intro i _
    exact ⟨rfl, rfl⟩
  case hother =>
    intro i hi
    refine ⟨Iff.rfl, (hunfetched i).trans ⟨And.left, fun hi' => ⟨hi', ?_⟩⟩⟩
    rintro rfl
    exact hi howner
  case hreplyLt => exact h.replyLt
  case hreply =>
    intro i hi hown
    exact h.reply i d hi (by rw [← hd, ← hown]; rfl)
  case hjobs => exact ⟨h.nodup_jobs t d hd, h.mem_jobs t d hd⟩
  case hresults =>
    refine ⟨(h.nodup_results t d hd).erase _, ?_⟩
    intro i
    rw [(h.nodup_results t d hd).mem_erase_iff, h.mem_results t d hd]
    constructor
    · rintro ⟨hi, hi', hown⟩
      exact ⟨(hunfetched i).mpr ⟨hi', hi⟩, hown⟩
    · rintro ⟨hi, hown⟩
      obtain ⟨hi', hne⟩ := (hunfetched i).mp hi
      exact ⟨hne, hi', hown⟩

theorem Shared.forget (h : w.Shared) {d : ThreadData} (hd : w.threadsHash t = some d)
    (hjobs : d.jobs = []) (hresults : d.results = []) : (w.setThreadData t none).Shared := by
  have hhash : ∀ t' e, (w.setThreadData t none).threadsHash t' = some e →
      w.threadsHash t' = some e := by
    intro t' e he
    by_cases ht : t' = t
    · subst ht
      simp [ThreadWrapper.setThreadData] at he
    · simpa [ThreadWrapper.setThreadData, Function.update_of_ne ht] using he
  constructor
  · exact fun t' e he => h.nodup_jobs t' e (hhash t' e he)
  · exact fun t' e he => h.mem_jobs t' e (hhash t' e he)
  · exact fun t' e he => h.nodup_results t' e (hhash t' e he)
  · exact fun t' e he => h.mem_results t' e (hhash t' e he)
  · intro j hj
    have ht : (w.job j).owner ≠ t := by
      intro ht
      rcases hj with hj | hj
      · have hmem := (h.mem_jobs t d hd j).mpr ⟨hj, ht⟩
        rw [hjobs] at hmem
        cases hmem
      · have hmem := (h.mem_results t d hd j).mpr ⟨hj, ht⟩
        rw [hresults] at hmem
        cases hmem
    simpa [ThreadWrapper.setThreadData, Function.update_of_ne ht] using h.absent j hj
  · exact fun j e hj he => h.reply j e hj (hhash _ e he)
  · exact h.replyLt
  · exact fun t' e he => h.queueLt t' e (hhash t' e he)
  · exact fun t₁ t₂ d₁ d₂ hd₁ hd₂ => h.distinct t₁ t₂ d₁ d₂ (hhash t₁ d₁ hd₁) (hhash t₂ d₂ hd₂)

end Steps

end ThreadWrapper

end LibGda
