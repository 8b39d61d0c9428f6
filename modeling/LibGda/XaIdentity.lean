import LibGda.XaTwoPhase

/-! The ids which the providers are given. The length of the branch is never set, so that an id which
is given is never the one of the connection; which runs are sound is told by when none is given. -/

namespace LibGda

open RunInvariant

namespace GdaXaTransaction

variable {C : Type}

/-- The collections and the marks tell the same connections, and what is remembered is the one
connection without distributed transactions, if there is one. -/
structure Agrees (provider : C → Option XaFuncs) (s : GdaXaTransaction C) : Prop where
  nodup : s.cncList.Nodup
  hashed : ∀ c, (s.cncHash c).isSome ↔ c ∈ s.cncList
  marked : ∀ c, s.marks c = some .thisTransaction ↔ c ∈ s.cncList
  remembered : ∀ c, s.nonXaCnc = some c → c ∈ s.cncList ∧ provider c = none
  onePlain : ∀ c ∈ s.cncList, ∀ d ∈ s.cncList, provider c = none → provider d = none → c = d

def IsIdOf (s : GdaXaTransaction C) (c : C) (xid : GdaXaTransactionId) : Prop :=
  ∃ branch, s.cncHash c = some (branch ++ [0]) ∧ xid.format = s.xid.format ∧
    xid.gtridLength = s.xid.gtridLength ∧ xid.bqualLength = branch.length ∧
    xid.data.take (xid.gtridLength + xid.bqualLength) =
      s.xid.data.take s.xid.gtridLength ++ branch

def GivesIds (s : GdaXaTransaction C) : Prop :=
  ∀ e ∈ s.calls, ∀ xid, e.1.xid = some xid → IsIdOf s e.1.cnc xid

def RecoversWhole (a : Request C) (s : GdaXaTransaction C) : Prop :=
  ∀ answers listed, a = .commitRecovered answers listed →
    ∀ c xid b, (.xaCommit c xid, b) ∈ s.calls →
      ∃ recovered, some recovered ∈ answers.recovered c ∧ IsIdOf s c recovered

/-- A request which gives no id to a provider, and does not leave a connection remembered which is
not registered any more. -/
def Sound (provider : C → Option XaFuncs) (s : GdaXaTransaction C) : Request C → Prop
  | .registerConnection .. => True
  | .unregisterConnection c => c ∈ s.cncList → s.nonXaCnc ≠ some c
  | .begin answers =>
    -- the first connection with functions which is reached has none to start or to roll back
    ∀ before c after f, s.cncList = before ++ c :: after →
      (∀ d ∈ before, provider d = none ∧ answers.succeeds (.beginTransaction d) = true) →
      provider c = some f → f.xaStart = false ∧ f.xaRollback = false
  | .commit .. =>
    -- nothing is remembered, or the first connection can neither be ended nor prepared
    ∀ d c after f, s.nonXaCnc = some d → s.cncList = c :: after → provider c = some f →
      f.xaEnd = false ∧ ¬ (f.xaPrepare = true ∧ f.xaCommit = true) ∧ f.xaRollback = false
  | .rollback _ => ∀ c ∈ s.cncList, ∀ f, provider c = some f → f.xaRollback = false
  | .commitRecovered answers _ =>
    ∀ c ∈ s.cncList, ∀ f, provider c = some f → f.xaRecover = true → f.xaCommit = true →
      ∀ xid, some xid ∈ answers.recovered c →
        ¬ (xid.format = s.xid.format ∧ xid.gtridLength = s.xid.gtridLength ∧ xid.bqualLength = 0)

section Steps

variable {provider : C → Option XaFuncs} {answers : XaAnswers C} {listed : Bool}
  {s t u v : GdaXaTransaction C} {c d : C}

theorem Sends.format {Q : XaCall C → Bool → Prop} (h : Sends Q s t) :
    t.xid.format = s.xid.format ∧ t.xid.gtridLength = s.xid.gtridLength ∧
      t.xid.bqualLength = s.xid.bqualLength := by
  obtain ⟨data, cs, rfl, -⟩ := h
  exact ⟨rfl, rfl, rfl⟩

abbrev SendsNoId (s t : GdaXaTransaction C) : Prop :=
  Sends (fun call _ => call.xid = none) s t

theorem rollbackBranch_noId (hback : ∀ f, provider c = some f → f.xaRollback = false)
    (h : rollbackBranch provider answers s c = .ok t) : SendsNoId s t := by
  obtain ⟨branch, f, -, hf, rfl⟩ := rollbackBranch_eq_ok.1 h
  rw [if_neg (by simp [hback f hf])]
  exact (Sends.refl s).branched branch

theorem prepareWith_noId {f : XaFuncs} (hend : f.xaEnd = false)
    (hlacks : ¬ (f.xaPrepare = true ∧ f.xaCommit = true)) :
    prepareWith answers f s c = (s, false) := by
  have hended : endWith answers f s c = (s, true) := by
    rw [endWith, if_neg (by simp [hend])]
  rw [prepareWith, hended]
  cases hprepare : f.xaPrepare with
  | false => simp
  | true =>
    have hcommit : f.xaCommit = false := Bool.eq_false_iff.2 fun hcommit =>
      hlacks ⟨hprepare, hcommit⟩
    simp [hcommit]

theorem commit_noId {r : CommitResult C} (hsound : Sound provider s (.commit answers listed))
    (h : commit provider answers listed s = .ok r) : SendsNoId { s with calls := [] } r.state := by
  by_cases hnone : s.nonXaCnc = none
  · rw [commit_of_nothing hnone] at h
    obtain rfl := Except.ok.inj h
    exact Sends.refl { s with calls := [] }
  obtain ⟨d, hd⟩ := Option.ne_none_iff_exists'.1 hnone
  have hne : ({ s with calls := [] } : GdaXaTransaction C).nonXaCnc ≠ none := hnone
  have hnot {c : C} {cncs done : List C} {u : GdaXaTransaction C} (hlist : s.cncList = c :: cncs)
      (hc : c ∈ done) (hpassed : Passed (prepareOn provider answers) done
        { s with calls := [] } u) :
      False := by
    obtain ⟨-, f, hf, hprepare, hcommit⟩ := passed_prepared hpassed hne hc
    exact (hsound d c cncs f hd hlist hf).2.1 ⟨hprepare, hcommit⟩
  rcases commit_cases h with
    ⟨-, done, c, rest, u, v, hsplit, hpassed, hfail, hback⟩ | ⟨u, hpassed, hrest⟩
  · cases done with
    | cons e done => exact (hnot hsplit (List.mem_cons_self ..) hpassed).elim
    | nil =>
      obtain rfl := hpassed
      obtain ⟨hnone', -⟩ | ⟨-, branch, f, -, hf, hr⟩ := prepareOn_eq_ok.1 hfail
      · exact absurd hnone' hne
      obtain ⟨hend, hlacks, hroll⟩ := hsound d c rest f hd hsplit hf
      rw [prepareWith_noId hend hlacks] at hr
      obtain ⟨rfl, -⟩ := Prod.mk.inj hr
      obtain ⟨t, ht, hnil⟩ := bind_ok hback
      obtain rfl := Except.ok.inj hnil
      refine ((Sends.refl _).branched branch).trans ?_
      have hne' : (({ s with calls := [] } : GdaXaTransaction C).branched branch).nonXaCnc ≠ none :=
        hnone
      rw [abortOn, if_neg hne'] at ht
      refine rollbackBranch_noId (fun g hg => ?_) ht
      rw [hf] at hg
      exact Option.some.inj hg ▸ hroll
  · by_cases hnil : s.cncList = []
    · have hplain : SendsNoId u (commitPlain answers u).1 :=
        (commitPlain_sends answers u).mono fun call a hcall => by
          obtain ⟨⟨e, -, rfl⟩, -⟩ := hcall
          rfl
      simp only [hnil] at hrest
      have hu : { s with calls := [] } = u := hpassed.eq_of_nil hnil
      rw [hu]
      rcases hrest with ⟨-, -, hback⟩ | ⟨-, -, hcommitted⟩
      · exact Except.ok.inj hback ▸ hplain
      · have hstate : (commitPlain answers u).1 = r.state :=
          congrArg Prod.fst (Except.ok.inj hcommitted)
        exact hstate ▸ hplain
    · obtain ⟨c, cncs, hlist⟩ := List.exists_cons_of_ne_nil hnil
      exact (hnot hlist (hlist ▸ List.mem_cons_self ..) hpassed).elim

theorem Registered.agrees (h : Registered provider s)
    (hmem : ∀ c, s.nonXaCnc = some c → c ∈ s.cncList) : Agrees provider s where
  nodup := h.nodup
  hashed := h.hashed
  marked := h.marked
  remembered c hc := ⟨hmem c hc, h.remembered c hc⟩
  onePlain c hc d hd hcn hdn :=
    Option.some.inj ((h.plain c hc hcn).symm.trans (h.plain d hd hdn))

variable [DecidableEq C]

theorem cancelOn_noId (hback : ∀ f, provider c = some f → f.xaRollback = false)
    (h : cancelOn provider answers s c = .ok t) : SendsNoId s t := by
  obtain ⟨-, rfl⟩ | ⟨-, f, hf, ⟨-, rfl⟩ | ⟨hroll, -⟩⟩ := cancelOn_eq_ok.1 h
  · exact (Sends.refl s).call rfl
  · exact Sends.refl t
  · rw [hback f hf] at hroll
    cases hroll

theorem startOn_noId {b : Bool} (hstart : ∀ f, provider c = some f → f.xaStart = false)
    (h : startOn provider answers s c = .ok (t, b)) : SendsNoId s t := by
  obtain ⟨-, hr⟩ | ⟨-, f, hf, ⟨-, hr⟩ | ⟨hstart', -⟩⟩ := startOn_eq_ok.1 h
  · obtain ⟨rfl, -⟩ := Prod.mk.inj hr
    exact (Sends.refl s).call rfl
  · obtain ⟨rfl, -⟩ := Prod.mk.inj hr
    exact Sends.refl t
  · rw [hstart f hf] at hstart'
    cases hstart'

theorem passed_plain {cncs : List C} (h : Registered provider s)
    (hpassed : Passed (startOn provider answers) cncs s t)
    (hfirst : ∀ before c after f, cncs = before ++ c :: after →
      (∀ d ∈ before, provider d = none ∧ answers.succeeds (.beginTransaction d) = true) →
      provider c = some f → f.xaStart = false) :
    ∀ c ∈ cncs, provider c = none ∧ answers.succeeds (.beginTransaction c) = true := by
  induction cncs generalizing s with
  | nil => exact fun c hc => absurd hc List.not_mem_nil
  | cons c cncs ih =>
    obtain ⟨u, hu, hrest⟩ := hpassed
    have hc : provider c = none ∧ answers.succeeds (.beginTransaction c) = true := by
      obtain ⟨hplain, hr⟩ | ⟨-, f, hf, ⟨-, hr⟩ | ⟨hstart, -⟩⟩ := startOn_eq_ok.1 hu
      · exact ⟨h.remembered c hplain, (congrArg Prod.snd hr).symm⟩
      · cases congrArg Prod.snd hr
      · have hfalse := hfirst [] c cncs f rfl (fun d hd => absurd hd List.not_mem_nil) hf
        rw [hstart] at hfalse
        cases hfalse
    have htail := ih (h.sends (startOn_sends hu)) hrest fun before d after f hsplit hbefore =>
      hfirst (c :: before) d after f (congrArg (List.cons c) hsplit) fun e he => by
        rcases List.mem_cons.1 he with rfl | he
        · exact hc
        · exact hbefore e he
    intro d hd
    rcases List.mem_cons.1 hd with rfl | hd
    · exact hc
    · exact htail d hd

theorem begin_noId {b : Bool} (h : Registered provider s)
    (hsound : Sound provider s (.begin answers)) (hbegin : begin provider answers s = .ok (t, b)) :
    SendsNoId { s with calls := [] } t := by
  have hstarted {done rest : List C} {u : GdaXaTransaction C} (hsplit : s.cncList = done ++ rest)
      (hpassed : Passed (startOn provider answers) done { s with calls := [] } u) :
      (∀ c ∈ done, provider c = none ∧ answers.succeeds (.beginTransaction c) = true) ∧
        SendsNoId { s with calls := [] } u := by
    have hplain := passed_plain h.noCalls hpassed fun before c after f heq hbefore hf =>
      (hsound before c (after ++ rest) f (by rw [hsplit, heq]; simp) hbefore hf).1
    refine ⟨hplain, hpassed.sends fun w c hc x b hx => startOn_noId (fun f hf => ?_) hx⟩
    rw [(hplain c hc).1] at hf
    cases hf
  rcases begin_cases hbegin with ⟨-, hpassed⟩ | ⟨-, done, c, rest, u, v, hsplit, hpassed, hfail,
    hback⟩
  · exact (hstarted (List.append_nil _).symm hpassed).2
  · obtain ⟨hplain, hsu⟩ := hstarted hsplit hpassed
    have hc (f : XaFuncs) (hf : provider c = some f) : f.xaStart = false ∧ f.xaRollback = false :=
      hsound done c rest f hsplit hplain hf
    refine (hsu.trans (startOn_noId (fun f hf => (hc f hf).1) hfail)).trans (foldlM_sends ?_ hback)
    intro w d hd x hx
    refine cancelOn_noId (fun f hf => ?_) hx
    rcases List.mem_cons.1 hd with rfl | hd
    · exact (hc f hf).2
    · rw [(hplain d (List.mem_reverse.1 hd)).1] at hf
      cases hf

theorem rollback_noId (hsound : Sound provider s (.rollback answers))
    (h : rollback provider answers s = .ok t) : SendsNoId { s with calls := [] } t := by
  refine rollback_sends h fun w c hc x hx => ?_
  rw [rollbackOn] at hx
  split at hx
  · obtain rfl := Except.ok.inj hx
    exact (Sends.refl w).call rfl
  · exact rollbackBranch_noId (hsound c hc) hx

theorem commitRecovered_noId {r : CommitResult C} (h : Registered provider s)
    (hsound : Sound provider s (.commitRecovered answers listed))
    (hrun : commitRecovered provider answers listed s = .ok r) :
    SendsNoId { s with calls := [] } r.state := by
  refine commitRecovered_sends hrun fun q c hc q' hq hq' => ?_
  have hrecover : SendsNoId q.state (q.state.call answers (.xaRecover c)).1 :=
    (Sends.refl q.state).call rfl
  obtain heq | heq | ⟨-, f, branch, hf, -, heq | ⟨hcan, hcommit, ⟨xid, hxid, hsame⟩, -⟩⟩ :=
    recoverOn_cases hq'
  · rw [heq]
    exact Sends.refl q.state
  · rw [heq]
    exact hrecover
  · rw [heq]
    exact hrecover.branched branch
  · -- the id which was recovered is one of those excluded
    refine absurd ?_ (hsound c hc f hf hcan hcommit xid hxid)
    obtain ⟨hformat, hgtrid, hbqual⟩ := (hq.trans (hrecover.branched branch)).format
    have hzero : s.xid.bqualLength = 0 := h.bqual
    simp only [sameId, Bool.and_eq_true, decide_eq_true_eq] at hsame
    rw [hformat, hgtrid, hbqual] at hsame
    exact ⟨hsame.1.1.1, hsame.1.1.2, hsame.1.2.trans hzero⟩

theorem registerConnection_keeps (branch : CBytes)
    (hmem : ∀ d, s.nonXaCnc = some d → d ∈ s.cncList) :
    (∀ d, (registerConnection provider s c branch).1.nonXaCnc = some d →
      d ∈ (registerConnection provider s c branch).1.cncList) ∧
    (registerConnection provider s c branch).1.calls = s.calls := by
  rw [registerConnection]
  split
  · exact ⟨hmem, rfl⟩
  · split
    · exact ⟨hmem, rfl⟩
    · split
      · exact ⟨hmem, rfl⟩
      · split
        · exact ⟨hmem, rfl⟩
        · split
          · split
            · exact ⟨hmem, rfl⟩
            · refine ⟨fun d hd => ?_, rfl⟩
              obtain rfl := Option.some.inj hd
              exact List.mem_cons_self ..
          · exact ⟨fun d hd => List.mem_cons_of_mem c (hmem d hd), rfl⟩

theorem step_sound {a : Request C} (h : Registered provider s)
    (hmem : ∀ c, s.nonXaCnc = some c → c ∈ s.cncList) (hsound : Sound provider s a)
    (hstep : step provider s a = .ok t) :
    (∀ c, t.nonXaCnc = some c → c ∈ t.cncList) ∧ ∀ e ∈ t.calls, e.1.xid = none := by
  have hsent {u : GdaXaTransaction C} (hu : SendsNoId { s with calls := [] } u) :
      (∀ c, u.nonXaCnc = some c → c ∈ u.cncList) ∧ ∀ e ∈ u.calls, e.1.xid = none := by
    refine ⟨fun c hc => ?_, ?_⟩
    · rw [hu.nonXaCnc] at hc
      rw [hu.cncList]
      exact hmem c hc
    · obtain ⟨cs, hcs, hcs'⟩ := hu.calls
      rw [hcs]
      exact hcs'
  cases a with
  | registerConnection c branch =>
    obtain rfl := Except.ok.inj hstep
    have hnone : ∀ d, ({ s with calls := [] } : GdaXaTransaction C).nonXaCnc = some d →
        d ∈ s.cncList := hmem
    obtain ⟨hkeeps, hcalls⟩ := @registerConnection_keeps C provider _ c _ branch hnone
    refine ⟨hkeeps, ?_⟩
    rw [hcalls]
    exact fun e he => absurd he List.not_mem_nil
  | unregisterConnection c =>
    obtain rfl := Except.ok.inj hstep
    rw [unregisterConnection]
    split
    · next hc =>
      refine ⟨fun d hd => ?_, fun e he => absurd he List.not_mem_nil⟩
      have hdc : d ≠ c := fun heq => hsound hc (heq ▸ hd)
      exact (h.nodup.mem_erase_iff).2 ⟨hdc, hmem d hd⟩
    · exact ⟨hmem, fun e he => absurd he List.not_mem_nil⟩
  | begin answers =>
    obtain ⟨⟨u, b⟩, hu, rfl⟩ := map_ok hstep
    exact hsent (begin_noId h hsound hu)
  | commit answers listed =>
    obtain ⟨r, hr, rfl⟩ := map_ok hstep
    exact hsent (commit_noId hsound hr)
  | rollback answers => exact hsent (rollback_noId hsound hstep)
  | commitRecovered answers listed =>
    obtain ⟨r, hr, rfl⟩ := map_ok hstep
    exact hsent (commitRecovered_noId h hsound hr)

/-- Where every request is sound, the collections agree, every id given to a provider is the one of
the connection, and what was recovered is the whole id. -/
theorem sound_run {formatId : Nat} {transactionId : CBytes} {marks : C → Option XaOwner}
    {requests : List (Request C)} (hmarks : ∀ c, marks c ≠ some .thisTransaction)
    (hsound : StepsMeet (step provider) (Sound provider) (new formatId transactionId marks)
      requests)
    (hrun : run (step provider) (new formatId transactionId marks) requests = .ok s) :
    Agrees provider s ∧ GivesIds s ∧ ∀ a, requests.getLast? = some a → RecoversWhole a s := by
  have hstep (s : GdaXaTransaction C) (a : Request C) (t : GdaXaTransaction C)
      (hs : Registered provider s ∧ (∀ c, s.nonXaCnc = some c → c ∈ s.cncList) ∧
        ∀ e ∈ s.calls, e.1.xid = none)
      (hsound : Sound provider s a) (ht : step provider s a = .ok t) :
      Registered provider t ∧ (∀ c, t.nonXaCnc = some c → c ∈ t.cncList) ∧
        ∀ e ∈ t.calls, e.1.xid = none :=
    ⟨hs.1.step ht, step_sound hs.1 hs.2.1 hsound ht⟩
  have hnew : Registered provider (new formatId transactionId marks) :=
    registered_new formatId transactionId hmarks
  obtain ⟨hs, hmem, hnone⟩ := run_invariant hstep
    ⟨hnew, (fun c hc => by cases hc), fun e he => absurd he List.not_mem_nil⟩ hsound hrun
  refine ⟨hs.agrees hmem, fun e he xid hxid => ?_, fun a _ answers listed _ c xid b hcall => ?_⟩
  · rw [hnone e he] at hxid
    cases hxid
  · cases hnone _ hcall

end Steps

def twoProviders : Bool → Option XaFuncs
  | false => none
  | true => some {}

def answering : XaAnswers Bool where
  succeeds _ := true
  recovered _ := []

theorem zero_notMem_one : 0 ∉ bytes "one" := by decide

def plainRequests : List (Request Bool) :=
  [.registerConnection false ⟨bytes "one", zero_notMem_one⟩, .begin answering, .rollback answering]

theorem sound_run_plain :
    ∃ s, run (step twoProviders) (new 1 ⟨bytes "global", by decide⟩ fun _ => none) plainRequests =
      .ok s ∧ s.cncList = [false] ∧ Agrees twoProviders s ∧ GivesIds s := by
  have hmarks (c : Bool) : (fun _ => none : Bool → Option XaOwner) c ≠ some .thisTransaction := by
    intro h
    cases h
  -- a request on connections without functions gives no id
  have hbegin {s : GdaXaTransaction Bool} (hs : s.cncList = [false]) :
      Sound twoProviders s (.begin answering) := by
    intro before c after f hsplit _ hf
    have hc : c ∈ s.cncList := hsplit ▸ List.mem_append_right _ (List.mem_cons_self ..)
    rw [hs] at hc
    obtain rfl := List.mem_singleton.1 hc
    cases hf
  have hrollback {s : GdaXaTransaction Bool} (hs : s.cncList = [false]) :
      Sound twoProviders s (.rollback answering) := by
    intro c hc f hf
    rw [hs] at hc
    obtain rfl := List.mem_singleton.1 hc
    cases hf
  have hsound : StepsMeet (step twoProviders) (Sound twoProviders)
      (new 1 ⟨bytes "global", by decide⟩ fun _ => none) plainRequests := by
    refine ⟨trivial, fun t ht => ?_⟩
    obtain rfl := Except.ok.inj ht
    refine ⟨hbegin rfl, fun t ht => ?_⟩
    obtain rfl := Except.ok.inj ht
    exact ⟨hrollback rfl, fun t ht => trivial⟩
  obtain ⟨hagrees, hgives, -⟩ := sound_run hmarks hsound rfl
  exact ⟨_, rfl, rfl, hagrees, hgives⟩

/-- The id which a provider is given has no branch. -/
theorem started_without_branch :
    ∃ s, run (step twoProviders) (new 1 ⟨bytes "global", by decide⟩ fun _ => none)
      [.registerConnection true ⟨bytes "one", by decide⟩, .begin answering] = .ok s ∧
      ¬ GivesIds s := by
  refine ⟨_, rfl, fun hgives => ?_⟩
  obtain ⟨branch, hbranch, -, -, hlength, -⟩ := hgives _ (List.mem_singleton.2 rfl) _ rfl
  have hbin : bytes "one" ++ [0] = branch ++ [0] := Option.some.inj hbranch
  obtain rfl := List.append_cancel_right hbin
  cases hlength

end GdaXaTransaction

end LibGda
