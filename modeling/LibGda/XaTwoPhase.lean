import LibGda.XaRegistration

/-! The two phases of `gda_xa_transaction_commit`. A transaction passes the first one only where
each connection was prepared; where the variable which is compared is `NULL` as nothing is
remembered, the loops pass over every connection. -/

namespace LibGda

open RunInvariant

namespace GdaXaTransaction

variable {C : Type} {provider : C → Option XaFuncs} {answers : XaAnswers C} {listed : Bool}
  {s t u v : GdaXaTransaction C} {c d : C} {cncs : List C}

theorem commit_of_stopped {done rest : List C} (hsplit : s.cncList = done ++ c :: rest)
    (hpassed : Passed (prepareOn provider answers) done { s with calls := [] } u)
    (hfail : prepareOn provider answers u c = .ok (v, false))
    (hback : (c :: done.reverse).foldlM (abortOn provider answers) v = .ok t) :
    commit provider answers listed s = .ok { state := t, returned := false } := by
  have hloop : tryEach (prepareOn provider answers) [] s.cncList { s with calls := [] } =
      .ok (v, some (c :: (done.reverse ++ []))) :=
    tryEach_stopped.2 ⟨done, c, rest, u, hsplit, rfl, hpassed, hfail⟩
  rw [List.append_nil] at hloop
  exact bind_of_ok hloop (bind_of_ok hback rfl)

theorem commit_of_plain (hpassed : Passed (prepareOn provider answers) s.cncList
      { s with calls := [] } u) (hplain : (commitPlain answers u).2 = false)
    (hback : s.cncList.foldlM (abortOn provider answers) (commitPlain answers u).1 = .ok t) :
    commit provider answers listed s = .ok { state := t, returned := false } := by
  refine bind_of_ok (tryEach_passed.2 hpassed) ?_
  simp only [hplain, Bool.not_false, if_true]
  exact bind_of_ok hback rfl

theorem commit_of_passed {toRecover : List C}
    (hpassed : Passed (prepareOn provider answers) s.cncList { s with calls := [] } u)
    (hplain : (commitPlain answers u).2 = true)
    (hcommit : s.cncList.foldlM (commitOn provider answers listed) ((commitPlain answers u).1, []) =
      .ok (t, toRecover)) :
    commit provider answers listed s =
      .ok { state := t, returned := true, toRecover := toRecover } := by
  refine bind_of_ok (tryEach_passed.2 hpassed) ?_
  simp only [hplain, Bool.not_true, Bool.false_eq_true, if_false]
  exact bind_of_ok hcommit rfl

theorem prepareWith_true {f : XaFuncs} (h : (prepareWith answers f s c).2 = true) :
    f.xaPrepare = true ∧ f.xaCommit = true ∧
      Succeeded XaCall.prepares c (prepareWith answers f s c).1.calls := by
  cases hended : (endWith answers f s c).2 with
  | false => simp [prepareWith, hended] at h
  | true =>
    cases hprepare : f.xaPrepare with
    | false => simp [prepareWith, hended, hprepare] at h
    | true =>
      cases hcommit : f.xaCommit with
      | false => simp [prepareWith, hended, hprepare, hcommit] at h
      | true =>
        have heq : prepareWith answers f s c =
            (endWith answers f s c).1.call answers (.xaPrepare c s.xid) := by
          simp [prepareWith, hended, hprepare, hcommit]
        rw [heq] at h ⊢
        refine ⟨rfl, rfl, (.xaPrepare c s.xid, answers.succeeds (.xaPrepare c s.xid)), ?_, rfl, rfl,
          h⟩
        exact List.mem_append_right _ (List.mem_singleton.2 rfl)

theorem passed_prepared (h : Passed (prepareOn provider answers) cncs s u) (hs : s.nonXaCnc ≠ none)
    (hc : c ∈ cncs) :
    Succeeded XaCall.prepares c u.calls ∧
      ∃ f, provider c = some f ∧ f.xaPrepare = true ∧ f.xaCommit = true := by
  have hkeeps (w : GdaXaTransaction C) (e : C) (_ : e ∈ cncs) (x : GdaXaTransaction C) (b : Bool)
      (hw : w.nonXaCnc ≠ none) (hx : prepareOn provider answers w e = .ok (x, b)) :
      x.nonXaCnc ≠ none := (prepareOn_sends hx).nonXaCnc ▸ hw
  obtain ⟨done, rest, w, x, hsplit, hw, hx, hrest⟩ := h.at_mem hkeeps hs hc
  obtain ⟨hnone, -⟩ | ⟨-, branch, f, -, hf, hr⟩ := prepareOn_eq_ok.1 hx
  · exact absurd hnone hw
  have htrue : (prepareWith answers f (w.branched branch) c).2 = true := congrArg Prod.snd hr.symm
  have hstate : x = (prepareWith answers f (w.branched branch) c).1 := congrArg Prod.fst hr
  obtain ⟨hprepare, hcommit, hsucceeded⟩ := prepareWith_true htrue
  obtain ⟨cs, hcs, -⟩ := (hrest.sends fun w e _ x b hx =>
    (prepareOn_sends hx).mono (R := fun _ _ => True) fun _ _ _ => trivial).calls
  refine ⟨?_, f, hf, hprepare, hcommit⟩
  rw [hcs, hstate]
  exact hsucceeded.append_left cs

theorem not_passed_plain (h : Passed (prepareOn provider answers) cncs s u) (hs : s.nonXaCnc ≠ none)
    (hc : c ∈ cncs) : provider c ≠ none := by
  obtain ⟨-, f, hf, -⟩ := passed_prepared h hs hc
  rw [hf]
  exact Option.some_ne_none f

theorem committed {r q : GdaXaTransaction C × List C} (hr : r.1.nonXaCnc ≠ none)
    (h : cncs.foldlM (commitOn provider answers true) r = .ok q) (hc : c ∈ cncs) :
    (provider c).isSome = true ∧ c ∈ q.2 ∨ Succeeded XaCall.commits c q.1.calls := by
  obtain ⟨l, m, rfl⟩ := List.append_of_mem hc
  rw [List.foldlM_append] at h
  obtain ⟨w, hw, h⟩ := bind_ok h
  rw [List.foldlM_cons] at h
  obtain ⟨x, hx, h⟩ := bind_ok h
  have hwr := commit_foldlM_sends (Q := fun _ _ => True) (fun r c _ q hq =>
    (commitOn_sends hq).mono fun _ _ _ => trivial) hw
  obtain ⟨cs, hcs, -⟩ := (commit_foldlM_sends (Q := fun _ _ => True) (fun r c _ q hq =>
    (commitOn_sends hq).mono fun _ _ _ => trivial) h).calls
  have hsub (e : C) (he : e ∈ x.2) : e ∈ q.2 := by
    refine foldlM_keeps (P := fun q : GdaXaTransaction C × List C => e ∈ q.2) ?_ he h
    intro y a _ z hy hz
    obtain ⟨-, rfl⟩ | ⟨-, branch, f, -, -, -, rfl⟩ := commitOn_eq_ok.1 hz
    · exact hy
    · dsimp only
      split
      · exact List.mem_cons_of_mem a hy
      · exact hy
  obtain ⟨hnone, -⟩ | ⟨-, branch, f, -, hf, -, rfl⟩ := commitOn_eq_ok.1 hx
  · rw [hwr.nonXaCnc] at hnone
    exact absurd hnone hr
  cases hsucceeds : answers.succeeds (.xaCommit c (w.1.branched branch).xid) with
  | false =>
    refine .inl ⟨Option.isSome_iff_exists.2 ⟨f, hf⟩, hsub c ?_⟩
    simp [hsucceeds]
  | true =>
    refine .inr ⟨(.xaCommit c (w.1.branched branch).xid, true), ?_, rfl, rfl, rfl⟩
    rw [hcs]
    apply List.mem_append_left
    rw [← hsucceeds]
    exact List.mem_append_right _ (List.mem_singleton.2 rfl)

/-! What each kind of transaction does which is not safe. -/

theorem passed_of_nothing (hnone : s.nonXaCnc = none) (cncs : List C) :
    Passed (prepareOn provider answers) cncs s s := by
  induction cncs with
  | nil => rfl
  | cons c cncs ih => exact ⟨s, prepareOn_eq_ok.2 (.inl ⟨hnone, rfl⟩), ih⟩

theorem committed_of_nothing (hnone : s.nonXaCnc = none) (cncs toRecover : List C) :
    cncs.foldlM (commitOn provider answers listed) (s, toRecover) = .ok (s, toRecover) := by
  induction cncs with
  | nil => rfl
  | cons c cncs ih =>
    rw [List.foldlM_cons]
    exact bind_of_ok (commitOn_eq_ok.2 (.inl ⟨hnone, rfl⟩)) ih

theorem commit_of_nothing (hnone : s.nonXaCnc = none) :
    commit provider answers listed s =
      .ok { state := { s with calls := [] }, returned := true } := by
  have hnone' : ({ s with calls := [] } : GdaXaTransaction C).nonXaCnc = none := hnone
  have hplain : commitPlain answers { s with calls := [] } = ({ s with calls := [] }, true) := by
    rw [commitPlain, hnone']
  refine commit_of_passed (passed_of_nothing hnone' s.cncList) (congrArg Prod.snd hplain) ?_
  rw [hplain]
  exact committed_of_nothing hnone' s.cncList []

theorem commit_violates_plain (h : Registered provider s) (hc : c ∈ s.cncList)
    (hplain : s.nonXaCnc = some c) : ¬ CommitMeets provider s (commit provider answers listed
      s) := by
  have hnone : provider c = none := h.remembered c hplain
  have hne : ({ s with calls := [] } : GdaXaTransaction C).nonXaCnc ≠ none := by
    simp [hplain]
  cases hcommit : commit provider answers listed s with
  | error e => exact id
  | ok r =>
    intro hmeets
    rcases commit_cases hcommit with
      ⟨hfalse, done, d, rest, u, v, hsplit, hpassed, hfail, hback⟩ | ⟨u, hpassed, -⟩
    · obtain ⟨e, he, -, hec⟩ := (hmeets.2.2 hfalse).2 c hc
      have hsu := hpassed.sends (Q := fun call _ => (provider call.cnc).isSome = true)
        fun w e _ x b hx => (prepareOn_sends hx).mono fun _ _ hcall => hcall.2.2.1 ▸ hcall.2.2.2
      have huv : Sends (fun call _ => (provider call.cnc).isSome = true) u v :=
        (prepareOn_sends hfail).mono fun _ _ hcall => hcall.2.2.1 ▸ hcall.2.2.2
      have hvt := foldlM_sends (Q := fun call _ => (provider call.cnc).isSome = true)
        (fun w e _ x hx => (abortOn_sends hx).mono fun _ _ hcall => hcall.2.1 ▸ hcall.2.2) hback
      obtain ⟨cs, hcs, hcs'⟩ := ((hsu.trans huv).trans hvt).calls
      rw [hcs] at he
      have hsome := hcs' e he
      rw [hec, hnone] at hsome
      cases hsome
    · exact not_passed_plain hpassed hne hc hnone

theorem Registered.supporting (h : Registered provider s) (hc : c ∈ s.cncList)
    (hstale : s.nonXaCnc ≠ some c) :
    ∃ branch f, s.cncHash c = some branch ∧ provider c = some f := by
  obtain ⟨branch, hb, ⟨hplain, -⟩ | ⟨-, f, hf⟩⟩ := h.cases_mem hc
  · exact absurd hplain hstale
  · exact ⟨branch, f, hb, hf⟩

theorem abortOn_isOk (h : Registered provider s) (hc : c ∈ s.cncList)
    (hstale : s.nonXaCnc ≠ some c) : ∃ t, abortOn provider answers s c = .ok t := by
  obtain ⟨branch, f, hb, hf⟩ := h.supporting hc hstale
  rw [abortOn]
  split
  · exact ⟨s, rfl⟩
  · exact ⟨_, rollbackBranch_eq_ok.2 ⟨branch, f, hb, hf, rfl⟩⟩

theorem abortOn_made (hne : s.nonXaCnc ≠ none) (hcan : CanRollBack provider c)
    (h : abortOn provider answers s c = .ok t) : Made XaCall.rollsBack c t.calls := by
  rw [abortOn, if_neg hne] at h
  obtain ⟨branch, f, -, hf, rfl⟩ := rollbackBranch_eq_ok.1 h
  rw [if_pos (hcan f hf)]
  exact ⟨_, List.mem_append_right _ (List.mem_singleton.2 rfl), rfl, rfl⟩

theorem abortOn_rollsBack (h : abortOn provider answers s c = .ok t) :
    Sends (fun call _ => call.rollsBack = true → call.cnc = c ∧ CanRollBack provider c) s t := by
  rw [abortOn] at h
  split at h
  · obtain rfl := Except.ok.inj h
    exact Sends.refl s
  · obtain ⟨branch, f, -, hf, rfl⟩ := rollbackBranch_eq_ok.1 h
    split
    · next hroll =>
      refine ((Sends.refl s).branched branch).call fun _ => ⟨rfl, fun g hg => ?_⟩
      rw [hf] at hg
      exact Option.some.inj hg ▸ hroll
    · exact (Sends.refl s).branched branch

theorem prepareWith_refused (f : XaFuncs) (s : GdaXaTransaction C) (c : C)
    (hanswers : ∀ call, answers.succeeds call = false) : (prepareWith answers f s c).2 = false := by
  rw [prepareWith, endWith]
  cases f.xaEnd <;> cases f.xaPrepare <;> cases f.xaCommit <;> simp [call, hanswers]

theorem commit_of_refused (h : Registered provider s) (hlist : s.cncList = c :: cncs)
    (hd : s.nonXaCnc = some d) (hdc : d ≠ c) (hanswers : ∀ call, answers.succeeds call = false) :
    ∃ t, commit provider answers listed s = .ok { state := t, returned := false } ∧
      ∀ e ∈ t.calls, e.1.rollsBack = true → e.1.cnc = c ∧ CanRollBack provider c := by
  have hc : c ∈ s.cncList := hlist ▸ List.mem_cons_self ..
  have hstale : s.nonXaCnc ≠ some c := hd ▸ fun heq => hdc (Option.some.inj heq)
  obtain ⟨branch, f, hb, hf⟩ := h.supporting hc hstale
  have hfail : ∃ v, prepareOn provider answers { s with calls := [] } c = .ok (v, false) := by
    refine ⟨(prepareWith answers f (({ s with calls := [] } : GdaXaTransaction C).branched branch)
      c).1, prepareOn_eq_ok.2 (.inr ⟨by simp [hd], branch, f, hb, hf, ?_⟩)⟩
    exact Prod.ext rfl (prepareWith_refused f _ c hanswers).symm
  obtain ⟨v, hv⟩ := hfail
  have hsv := prepareOn_sends hv
  obtain ⟨t, ht⟩ : ∃ t, abortOn provider answers v c = .ok t :=
    abortOn_isOk (h.noCalls.sends hsv) (hsv.cncList ▸ hc) (hsv.nonXaCnc ▸ hstale)
  have hback : [c].foldlM (abortOn provider answers) v = .ok t := bind_of_ok ht rfl
  have hsplit : s.cncList = [] ++ c :: cncs := hlist
  refine ⟨t, commit_of_stopped hsplit rfl hv hback, ?_⟩
  obtain ⟨cs, hcs, hcs'⟩ := ((hsv.mono (R := fun call _ => call.rollsBack = true → call.cnc = c ∧
    CanRollBack provider c) fun call _ hcall hroll => absurd (hcall.2.1.symm.trans hroll)
      Bool.noConfusion).trans (abortOn_rollsBack ht)).calls
  rw [hcs]
  exact hcs'

theorem commit_of_lost {f : XaFuncs} (h : Registered provider s) (hlist : s.cncList = [c])
    (hd : s.nonXaCnc = some d) (hdc : d ≠ c) (hf : provider c = some f)
    (hprepare : f.xaPrepare = true) (hcommit : f.xaCommit = true)
    (hanswers : ∀ call, answers.succeeds call = match call with
      | .xaCommit .. => false
      | _ => true) :
    ∃ t, commit provider answers false s = .ok { state := t, returned := true } ∧
      ¬ Succeeded XaCall.commits c t.calls := by
  have hc : c ∈ s.cncList := hlist ▸ List.mem_cons_self ..
  have hstale : s.nonXaCnc ≠ some c := hd ▸ fun heq => hdc (Option.some.inj heq)
  obtain ⟨branch, g, hb, hg⟩ := h.supporting hc hstale
  obtain rfl : f = g := Option.some.inj (hf.symm.trans hg)
  generalize hs₀ : (({ s with calls := [] } : GdaXaTransaction C).branched branch) = s₀
  have htrue : (prepareWith answers f s₀ c).2 = true := by
    have hended : (endWith answers f s₀ c).2 = true := by
      rw [endWith]
      split
      · exact hanswers _
      · rfl
    simp [prepareWith, hended, hprepare, hcommit, call, hanswers]
  have hp : prepareOn provider answers { s with calls := [] } c =
      .ok ((prepareWith answers f s₀ c).1, true) := by
    refine prepareOn_eq_ok.2 (.inr ⟨by simp [hd], branch, f, hb, hf, ?_⟩)
    rw [hs₀]
    exact Prod.ext rfl htrue.symm
  have hpassed : Passed (prepareOn provider answers) [c] { s with calls := [] }
      (prepareWith answers f s₀ c).1 := ⟨_, hp, rfl⟩
  rw [← hlist] at hpassed
  have hsent := prepareOn_sends hp
  generalize (prepareWith answers f s₀ c).1 = u at hpassed hsent
  have hplain : commitPlain answers u = u.call answers (.commitTransaction d) := by
    rw [commitPlain, hsent.nonXaCnc]
    simp [hd]
  have hplain' : (commitPlain answers u).2 = true := by
    rw [hplain]
    exact hanswers _
  have hlast : commitOn provider answers false ((commitPlain answers u).1, []) c = .ok
      ((((commitPlain answers u).1.branched branch).call answers
        (.xaCommit c ((commitPlain answers u).1.branched branch).xid)).1, []) := by
    refine commitOn_eq_ok.2 (.inr ⟨?_, branch, f, ?_, hf, hcommit, ?_⟩)
    · rw [(commitPlain_sends answers u).nonXaCnc, hsent.nonXaCnc]
      simp [hd]
    · rw [(commitPlain_sends answers u).cncHash, hsent.cncHash]
      exact hb
    · rw [Bool.and_false, if_neg Bool.false_ne_true]
  have hloop : [c].foldlM (commitOn provider answers false) ((commitPlain answers u).1, []) = .ok
      ((((commitPlain answers u).1.branched branch).call answers
        (.xaCommit c ((commitPlain answers u).1.branched branch).xid)).1, []) :=
    bind_of_ok hlast rfl
  rw [← hlist] at hloop
  refine ⟨_, commit_of_passed hpassed hplain' hloop, ?_⟩
  rintro ⟨e, he, hkind, hec, hok⟩
  obtain ⟨cs, hcs, hcs'⟩ := hsent.calls
  rw [hplain] at he
  rcases List.mem_append.1 he with he | he
  · rcases List.mem_append.1 he with he | he
    · rw [hcs] at he
      have hfalse := (hcs' e he).1
      rw [hkind] at hfalse
      cases hfalse
    · obtain rfl := List.mem_singleton.1 he
      exact hdc hec
  · obtain rfl := List.mem_singleton.1 he
    rw [hanswers] at hok
    cases hok

/-! What a commit does in any transaction where something is remembered. -/

theorem commit_prepared {r : CommitResult C} (hne : s.nonXaCnc ≠ none)
    (h : commit provider answers listed s = .ok r) {before after : List (XaCall C × Bool)}
    {e : XaCall C × Bool} (hsplit : r.state.calls = before ++ e :: after)
    (he : e.1.commits = true) (hc : c ∈ s.cncList) : Succeeded XaCall.prepares c before := by
  have hmem : e ∈ r.state.calls := hsplit ▸ List.mem_append_right _ (List.mem_cons_self ..)
  rcases commit_cases h with
    ⟨-, done, d, rest, u, v, -, hpassed, hfail, hback⟩ | ⟨u, hpassed, hrest⟩
  · have hsu := hpassed.sends (Q := fun call _ => call.commits = false)
      fun w e _ x b hx => (prepareOn_sends hx).mono fun _ _ hcall => hcall.1
    have huv : Sends (fun call _ => call.commits = false) u v :=
      (prepareOn_sends hfail).mono fun _ _ hcall => hcall.1
    have hvt := foldlM_sends (Q := fun call _ => call.commits = false) (fun w e _ x hx =>
      (abortOn_sends hx).mono fun _ _ hcall => XaCall.commits_of_rollsBack hcall.1) hback
    obtain ⟨cs, hcs, hcs'⟩ := ((hsu.trans huv).trans hvt).calls
    rw [hcs] at hmem
    have hfalse := hcs' e hmem
    rw [he] at hfalse
    cases hfalse
  · obtain ⟨cs, hcs, hcs'⟩ := (hpassed.sends (Q := fun call _ => call.commits = false)
      fun w e _ x b hx => (prepareOn_sends hx).mono fun _ _ hcall => hcall.1).calls
    have hplain := (commitPlain_sends answers u).mono (R := fun _ _ => True) fun _ _ _ => trivial
    have hend : Sends (fun _ _ => True) (commitPlain answers u).1 r.state := by
      rcases hrest with ⟨-, -, hback⟩ | ⟨-, -, hcommitted⟩
      · exact foldlM_sends (fun w e _ x hx => (abortOn_sends hx).mono fun _ _ _ => trivial) hback
      · exact commit_foldlM_sends (fun w e _ x hx => (commitOn_sends hx).mono fun _ _ _ => trivial)
          hcommitted
    obtain ⟨ds, hds, -⟩ := (hplain.trans hend).calls
    have hne' : e ∉ u.calls := by
      intro hmem
      rw [hcs] at hmem
      have hfalse := hcs' e hmem
      rw [he] at hfalse
      cases hfalse
    obtain ⟨x, rfl⟩ := before_of_split (hds.symm.trans hsplit) hne'
    exact (passed_prepared hpassed hne hc).1.append_left x

theorem commit_failed {r : CommitResult C} (h : commit provider answers listed s = .ok r)
    (hfalse : r.returned = false) {e : XaCall C × Bool} (he : e ∈ r.state.calls)
    (hkind : e.1.commits = true) : e.2 = false := by
  have hprepare (w : GdaXaTransaction C) (d : C) (x : GdaXaTransaction C) (b : Bool)
      (hx : prepareOn provider answers w d = .ok (x, b)) :
      Sends (fun call a => call.commits = true → a = false) w x :=
    (prepareOn_sends hx).mono fun _ _ hcall htrue => absurd (hcall.1.symm.trans htrue)
      Bool.noConfusion
  have habort (w : GdaXaTransaction C) (d : C) (x : GdaXaTransaction C)
      (hx : abortOn provider answers w d = .ok x) :
      Sends (fun call a => call.commits = true → a = false) w x :=
    (abortOn_sends hx).mono fun _ _ hcall htrue =>
      absurd ((XaCall.commits_of_rollsBack hcall.1).symm.trans htrue) Bool.noConfusion
  have hall : Sends (fun call a => call.commits = true → a = false) { s with calls := [] }
      r.state := by
    rcases commit_cases h with
      ⟨-, done, d, rest, u, v, -, hpassed, hfail, hback⟩ | ⟨u, hpassed, hrest⟩
    · exact ((hpassed.sends fun w d _ x b hx => hprepare w d x b hx).trans
        (hprepare u d v false hfail)).trans (foldlM_sends (fun w d _ x hx => habort w d x hx) hback)
    · rcases hrest with ⟨-, hplain, hback⟩ | ⟨htrue, -, -⟩
      · refine ((hpassed.sends fun w d _ x b hx => hprepare w d x b hx).trans ?_).trans
          (foldlM_sends (fun w d _ x hx => habort w d x hx) hback)
        exact (commitPlain_sends answers u).mono fun _ _ hcall _ => hcall.2.trans hplain
      · rw [hfalse] at htrue
        cases htrue
  obtain ⟨cs, hcs, hcs'⟩ := hall.calls
  rw [hcs] at he
  exact hcs' e he hkind

end GdaXaTransaction

end LibGda

/-! Which transactions are safe, whatever the calls of the providers give. -/

namespace LibGda

open RunInvariant

namespace GdaXaTransaction

variable {C : Type} {provider : C → Option XaFuncs} {answers : XaAnswers C} {listed : Bool}
  {s t u v : GdaXaTransaction C} {c d : C}

theorem commit_isOk (h : Registered provider s) (hlist : s.cncList = [c])
    (hd : s.nonXaCnc = some d) (hdc : d ≠ c) :
    ∃ r, commit provider answers listed s = .ok r := by
  have hc : c ∈ s.cncList := hlist ▸ List.mem_cons_self ..
  have hstale : s.nonXaCnc ≠ some c := hd ▸ fun heq => hdc (Option.some.inj heq)
  obtain ⟨branch, f, hb, hf⟩ := h.supporting hc hstale
  obtain ⟨⟨u, b⟩, hu⟩ : ∃ r, prepareOn provider answers { s with calls := [] } c = .ok r :=
    ⟨_, prepareOn_eq_ok.2 (.inr ⟨by simp [hd], branch, f, hb, hf, rfl⟩)⟩
  have hsu := prepareOn_sends hu
  have habort {w : GdaXaTransaction C} (hw : Registered provider w) (hlist' : c ∈ w.cncList)
      (hstale' : w.nonXaCnc ≠ some c) : ∃ t, [c].foldlM (abortOn provider answers) w = .ok t := by
    obtain ⟨t, ht⟩ : ∃ t, abortOn provider answers w c = .ok t := abortOn_isOk hw hlist' hstale'
    exact ⟨t, bind_of_ok ht rfl⟩
  cases b with
  | false =>
    obtain ⟨t, ht⟩ := habort (h.noCalls.sends hsu) (hsu.cncList ▸ hc) (hsu.nonXaCnc ▸ hstale)
    have hsplit : s.cncList = [] ++ c :: [] := hlist
    exact ⟨_, commit_of_stopped hsplit rfl hu ht⟩
  | true =>
    have hpassed : Passed (prepareOn provider answers) [c] { s with calls := [] } u := ⟨u, hu, rfl⟩
    obtain ⟨-, g, hg, -, hcommit⟩ := passed_prepared hpassed (by simp [hd])
      (List.mem_singleton.2 rfl)
    rw [← hlist] at hpassed
    have hw : Sends (fun _ _ => True) { s with calls := [] } (commitPlain answers u).1 :=
      (hsu.mono fun _ _ _ => trivial).trans
        ((commitPlain_sends answers u).mono fun _ _ _ => trivial)
    cases hplain : (commitPlain answers u).2 with
    | false =>
      obtain ⟨t, ht⟩ := habort (h.noCalls.sends hw) (hw.cncList ▸ hc) (hw.nonXaCnc ▸ hstale)
      rw [← hlist] at ht
      exact ⟨_, commit_of_plain hpassed hplain ht⟩
    | true =>
      have hne : (commitPlain answers u).1.nonXaCnc ≠ none := by
        rw [hw.nonXaCnc]
        simp [hd]
      obtain ⟨q, hq⟩ : ∃ q, commitOn provider answers listed ((commitPlain answers u).1, []) c =
          .ok q :=
        ⟨_, commitOn_eq_ok.2 (.inr ⟨hne, branch, g, hw.cncHash ▸ hb, hg, hcommit, rfl⟩)⟩
      have hloop : [c].foldlM (commitOn provider answers listed) ((commitPlain answers u).1, []) =
          .ok q := bind_of_ok hq rfl
      rw [← hlist] at hloop
      exact ⟨_, commit_of_passed hpassed hplain hloop⟩

theorem commit_rolledBack {r : CommitResult C} (hlist : s.cncList = [c]) (hne : s.nonXaCnc ≠ none)
    (hcan : CanRollBack provider c) (h : commit provider answers listed s = .ok r)
    (hfalse : r.returned = false) : Made XaCall.rollsBack c r.state.calls := by
  have hprepare (w : GdaXaTransaction C) (d : C) (x : GdaXaTransaction C) (b : Bool)
      (hx : prepareOn provider answers w d = .ok (x, b)) : Sends (fun _ _ => True) w x :=
    (prepareOn_sends hx).mono fun _ _ _ => trivial
  rcases commit_cases h with
    ⟨-, done, e, rest, u, v, hsplit, hpassed, hfail, hback⟩ | ⟨u, hpassed, hrest⟩
  · rw [hlist] at hsplit
    cases done with
    | cons a done =>
      have hnil : done ++ e :: rest = [] := (List.cons.inj hsplit).2.symm
      exact absurd hnil (List.append_ne_nil_of_right_ne_nil done (List.cons_ne_nil e rest))
    | nil =>
      obtain ⟨rfl, -⟩ := List.cons.inj hsplit
      obtain ⟨t, ht, hnil⟩ := bind_ok hback
      obtain rfl := Except.ok.inj hnil
      have hsv := (hpassed.sends fun w d _ x b hx => hprepare w d x b hx).trans
        (hprepare u c v false hfail)
      exact abortOn_made (hsv.nonXaCnc ▸ hne) hcan ht
  · rcases hrest with ⟨-, -, hback⟩ | ⟨htrue, -, -⟩
    · rw [hlist] at hback
      obtain ⟨t, ht, hnil⟩ := bind_ok hback
      obtain rfl := Except.ok.inj hnil
      have hsv := (hpassed.sends fun w d _ x b hx => hprepare w d x b hx).trans
        ((commitPlain_sends answers u).mono fun _ _ _ => trivial)
      exact abortOn_made (hsv.nonXaCnc ▸ hne) hcan ht
    · rw [hfalse] at htrue
      cases htrue

theorem commit_meets (h : Registered provider s) (hsafe : CommitSafe provider listed s) :
    CommitMeets provider s (commit provider answers listed s) := by
  rcases hsafe with hnil | ⟨c, d, f, hlist, hd, hdc, hf, hroll, hlisted⟩
  · obtain ⟨r, hr⟩ : ∃ r, commit provider answers listed s = .ok r := by
      have hpassed : Passed (prepareOn provider answers) s.cncList { s with calls := [] }
          { s with calls := [] } := by
        rw [hnil]
        rfl
      cases hplain : (commitPlain answers { s with calls := [] }).2 with
      | false => exact ⟨_, commit_of_plain hpassed hplain (by rw [hnil]; rfl)⟩
      | true => exact ⟨_, commit_of_passed hpassed hplain (by rw [hnil]; rfl)⟩
    rw [hr]
    refine ⟨?_, ?_, ?_⟩
    · intro before e after _ _ c hc
      exact absurd (hnil ▸ hc) List.not_mem_nil
    · intro _ c hc
      exact absurd (hnil ▸ hc) List.not_mem_nil
    · intro hfalse
      refine ⟨fun e he hkind => commit_failed hr hfalse he hkind, fun c hc => ?_⟩
      exact absurd (hnil ▸ hc) List.not_mem_nil
  · obtain ⟨r, hr⟩ : ∃ r, commit provider answers listed s = .ok r := commit_isOk h hlist hd hdc
    have hne : s.nonXaCnc ≠ none := by simp [hd]
    rw [hr]
    refine ⟨?_, ?_, ?_⟩
    · intro before e after hsplit he e hmem _
      exact commit_prepared hne hr hsplit he hmem
    · intro htrue e hmem
      rcases commit_cases hr with ⟨hfalse, -⟩ | ⟨u, hpassed, ⟨hfalse, -⟩ | ⟨-, -, hcommitted⟩⟩
      · rw [htrue] at hfalse
        cases hfalse
      · rw [htrue] at hfalse
        cases hfalse
      · rcases hlisted with rfl | hlacks
        · have hw := (hpassed.sends fun w d _ x b hx => (prepareOn_sends hx).mono
            (R := fun _ _ => True) fun _ _ _ => trivial).trans
              ((commitPlain_sends answers u).mono fun _ _ _ => trivial)
          exact committed (hw.nonXaCnc ▸ hne) hcommitted hmem
        · obtain ⟨-, g, hg, hprepare, hcommit⟩ :=
            passed_prepared hpassed hne (hlist ▸ List.mem_singleton.2 rfl)
          rw [hf] at hg
          obtain rfl := Option.some.inj hg
          exact absurd ⟨hprepare, hcommit⟩ hlacks
    · intro hfalse
      refine ⟨fun e he hkind => commit_failed hr hfalse he hkind, fun e he => ?_⟩
      rw [hlist] at he
      obtain rfl := List.mem_singleton.1 he
      refine commit_rolledBack hlist hne (fun g hg => ?_) hr hfalse
      rw [hf] at hg
      exact Option.some.inj hg ▸ hroll

def refusing : XaAnswers C where
  succeeds _ := false
  recovered _ := []

def losing : XaAnswers C where
  succeeds
    | .xaCommit .. => false
    | _ => true
  recovered _ := []

theorem commitSafe_of_meets (h : Registered provider s)
    (hmeets : ∀ answers, CommitMeets provider s (commit provider answers listed s)) :
    CommitSafe provider listed s := by
  cases hlist : s.cncList with
  | nil => exact .inl hlist
  | cons c rest =>
    have hc : c ∈ s.cncList := hlist ▸ List.mem_cons_self ..
    cases hd : s.nonXaCnc with
    | none =>
      have hdone := hmeets refusing
      rw [commit_of_nothing hd] at hdone
      rcases hdone.2.1 rfl c hc with ⟨-, hrecover⟩ | ⟨e, he, -⟩
      · exact absurd hrecover List.not_mem_nil
      · exact absurd he List.not_mem_nil
    | some d =>
      by_cases hmem : d ∈ s.cncList
      · exact absurd (hmeets refusing) (commit_violates_plain h hmem hd)
      have hdc : d ≠ c := fun heq => hmem (heq ▸ hc)
      obtain ⟨t, ht, hback⟩ :=
        @commit_of_refused C provider refusing listed s c d rest h hlist hd hdc fun _ => rfl
      have hrefused := hmeets refusing
      rw [ht] at hrefused
      have hmade := (hrefused.2.2 rfl).2
      have hnil : rest = [] := by
        cases rest with
        | nil => rfl
        | cons e rest =>
          obtain ⟨x, hx, hkind, hxe⟩ :=
            hmade e (hlist ▸ List.mem_cons_of_mem _ (List.mem_cons_self ..))
          have hce : e = c := hxe.symm.trans (hback x hx hkind).1
          have hnodup := h.nodup
          rw [hlist, hce] at hnodup
          exact absurd (List.mem_cons_self ..) (List.nodup_cons.1 hnodup).1
      subst hnil
      obtain ⟨x, hx, hkind, -⟩ := hmade c hc
      obtain ⟨branch, f, -, hf⟩ := h.supporting hc (hd ▸ fun heq => hdc (Option.some.inj heq))
      refine .inr ⟨c, d, f, hlist, hd, hdc, hf, (hback x hx hkind).2 f hf, ?_⟩
      by_contra hnot
      rw [not_or, not_not] at hnot
      obtain ⟨hlisted, hprepare, hcommit⟩ := hnot
      obtain rfl : listed = false := Bool.eq_false_iff.2 hlisted
      obtain ⟨t, ht, hlost⟩ :=
        @commit_of_lost C provider losing s c d f h hlist hd hdc hf hprepare hcommit fun _ => rfl
      have hdone := hmeets losing
      rw [ht] at hdone
      rcases hdone.2.1 rfl c hc with ⟨-, hrecover⟩ | hcommitted
      · exact absurd hrecover List.not_mem_nil
      · exact hlost hcommitted

section Outcome

variable [DecidableEq C]

/-- Commits and beginnings do what a distributed transaction asks, whatever the calls give, for the
transactions which are safe and for no others. -/
theorem twoPhase_iff (hs : Reachable provider s) (listed : Bool) :
    (∀ answers, CommitMeets provider s (commit provider answers listed s) ∧
      BeginMeets (begin provider answers s)) ↔
    CommitSafe provider listed s ∧ BeginSafe provider s := by
  have h : Registered provider s := hs.registered
  constructor
  · intro hmeets
    refine ⟨commitSafe_of_meets h fun answers => (hmeets answers).1, ?_⟩
    intro before c d after hsplit hstart
    by_contra hcan
    obtain ⟨answers, hviolates⟩ := begin_violates h hsplit hstart hcan
    exact hviolates (hmeets answers).2
  · intro hsafe answers
    exact ⟨commit_meets h hsafe.1, begin_meets h hsafe.2⟩

end Outcome

def pairRequests : List (Request Bool) :=
  [.registerConnection false ⟨bytes "one", by decide⟩,
    .registerConnection true ⟨bytes "two", by decide⟩,
    .begin { succeeds := fun _ => true, recovered := fun _ => [] }]

def pairStarted : Except XaFault (GdaXaTransaction Bool) :=
  run (step fun _ => some {}) (new 1 ⟨bytes "global", by decide⟩ fun _ => none) pairRequests

/-- The commit of the two connections commits neither of them, and returns that it is done. -/
theorem pair_not_committed :
    ∃ s, pairStarted = .ok s ∧ s.cncList = [true, false] ∧
      ¬ ∀ answers, CommitMeets (fun _ => some {}) s (commit (fun _ => some {}) answers true s) := by
  refine ⟨_, rfl, rfl, fun hmeets => ?_⟩
  rcases (hmeets refusing).2.1 rfl true (List.mem_cons_self ..) with ⟨-, hrecover⟩ | ⟨e, he, -⟩
  · exact absurd hrecover List.not_mem_nil
  · exact absurd he List.not_mem_nil

theorem twoPhase_pair :
    ∃ s, Reachable (fun _ => some {}) s ∧ pairStarted = .ok s ∧
      ¬ ∀ answers, CommitMeets (fun _ => some {}) s (commit (fun _ => some {}) answers true s) ∧
        BeginMeets (begin (fun _ => some {}) answers s) := by
  have hreach (s : GdaXaTransaction Bool) (hs : pairStarted = .ok s) :
      Reachable (fun _ => some {}) s :=
    ⟨1, ⟨bytes "global", by decide⟩, fun _ => none, pairRequests, (fun _ h => by cases h), hs⟩
  refine ⟨_, hreach _ rfl, rfl, fun hmeets => ?_⟩
  rcases ((twoPhase_iff (hreach _ rfl) true).1 hmeets).1 with hnil | ⟨c, d, f, hlist, -⟩
  · cases hnil
  · cases hlist

end GdaXaTransaction

end LibGda
