import LibGda.XaCalls

/-! The connections of a `GdaXaTransaction` over any sequence of requests: the list, the branches and
the marks tell the same ones, and at most one of them has a provider without distributed
transactions. -/

namespace LibGda

open RunInvariant

namespace GdaXaTransaction

variable {C : Type} {provider : C → Option XaFuncs} {answers : XaAnswers C} {listed : Bool}
  {s t : GdaXaTransaction C} {c : C}

section Sends

variable {Q : XaCall C → Bool → Prop}

theorem abortOn_sends (h : abortOn provider answers s c = .ok t) :
    Sends (fun call _ => call.rollsBack = true ∧ call.cnc = c ∧ (provider c).isSome = true) s
      t := by
  rw [abortOn] at h
  split at h
  · obtain rfl := Except.ok.inj h
    exact Sends.refl s
  · exact rollbackBranch_sends h

theorem commitPlain_sends (answers : XaAnswers C) (s : GdaXaTransaction C) :
    Sends (fun call a => (∃ c, s.nonXaCnc = some c ∧ call = .commitTransaction c) ∧
      a = (commitPlain answers s).2) s (commitPlain answers s).1 := by
  cases hplain : s.nonXaCnc with
  | none =>
    simp only [commitPlain, hplain]
    exact Sends.refl s
  | some c =>
    simp only [commitPlain, hplain]
    exact (Sends.refl s).call ⟨⟨c, rfl, rfl⟩, rfl⟩

theorem undone_sends {body : GdaXaTransaction C → C → Except XaFault (GdaXaTransaction C × Bool)}
    {undo : GdaXaTransaction C → C → Except XaFault (GdaXaTransaction C)} {cncs done rest : List C}
    {c : C} {u v : GdaXaTransaction C} (hsplit : cncs = done ++ c :: rest)
    (hbody : ∀ u, ∀ c ∈ cncs, ∀ v b, body u c = .ok (v, b) → Sends Q u v)
    (hundo : ∀ u, ∀ c ∈ cncs, ∀ v, undo u c = .ok v → Sends Q u v)
    (hpassed : Passed body done s u) (hfail : body u c = .ok (v, false))
    (hback : (c :: done.reverse).foldlM undo v = .ok t) : Sends Q s t := by
  subst hsplit
  have hdone : Sends Q s u := hpassed.sends fun u d hd => hbody u d (List.mem_append_left _ hd)
  have hfailed : Sends Q u v := hbody u c (by simp) v false hfail
  refine (hdone.trans hfailed).trans (foldlM_sends ?_ hback)
  intro u d hd
  exact hundo u d (by simp only [List.mem_cons, List.mem_reverse, List.mem_append] at hd ⊢; tauto)

theorem commit_sends {r : CommitResult C} (h : commit provider answers listed s = .ok r)
    (hprepare : ∀ u, ∀ c ∈ s.cncList, ∀ v b, prepareOn provider answers u c = .ok (v, b) →
      Sends Q u v)
    (hplain : ∀ u, Sends Q u (commitPlain answers u).1)
    (habort : ∀ u, ∀ c ∈ s.cncList, ∀ v, abortOn provider answers u c = .ok v → Sends Q u v)
    (hcommit : ∀ r, ∀ c ∈ s.cncList, ∀ q, commitOn provider answers listed r c = .ok q →
      Sends Q r.1 q.1) :
    Sends Q { s with calls := [] } r.state := by
  rcases commit_cases h with ⟨-, done, c, rest, u, v, hsplit, hpassed, hfail, hback⟩ | hpassed
  · exact undone_sends hsplit hprepare habort hpassed hfail hback
  · obtain ⟨u, hpassed, hrest⟩ := hpassed
    have hdone : Sends Q { s with calls := [] } u := hpassed.sends hprepare
    refine (hdone.trans (hplain u)).trans ?_
    rcases hrest with ⟨-, -, hback⟩ | ⟨-, -, hcommitted⟩
    · exact foldlM_sends habort hback
    · exact commit_foldlM_sends hcommit hcommitted

variable [DecidableEq C]

theorem begin_sends {b : Bool} (h : begin provider answers s = .ok (t, b))
    (hstart : ∀ u, ∀ c ∈ s.cncList, ∀ v b, startOn provider answers u c = .ok (v, b) →
      Sends Q u v)
    (hcancel : ∀ u, ∀ c ∈ s.cncList, ∀ v, cancelOn provider answers u c = .ok v → Sends Q u v) :
    Sends Q { s with calls := [] } t := by
  rcases begin_cases h with ⟨-, hpassed⟩ | ⟨-, done, c, rest, u, v, hsplit, hpassed, hfail, hback⟩
  · exact hpassed.sends hstart
  · exact undone_sends hsplit hstart hcancel hpassed hfail hback

theorem rollbackOn_sends (h : rollbackOn provider answers s c = .ok t) :
    Sends (fun call _ => call.rollsBack = true ∧ call.cnc = c) s t := by
  rw [rollbackOn] at h
  split at h
  · obtain rfl := Except.ok.inj h
    exact (Sends.refl s).call ⟨rfl, rfl⟩
  · exact (rollbackBranch_sends h).mono fun call b hcall => ⟨hcall.1, hcall.2.1⟩

theorem rollback_sends (h : rollback provider answers s = .ok t)
    (hback : ∀ u, ∀ c ∈ s.cncList, ∀ v, rollbackOn provider answers u c = .ok v → Sends Q u v) :
    Sends Q { s with calls := [] } t :=
  foldlM_sends hback h

theorem commitRecovered_sends {r : CommitResult C}
    (h : commitRecovered provider answers listed s = .ok r)
    (hrecover : ∀ r : CommitResult C, ∀ c ∈ s.cncList, ∀ q,
      Sends Q { s with calls := [] } r.state →
      recoverOn provider answers listed r c = .ok q → Sends Q r.state q.state) :
    Sends Q { s with calls := [] } r.state := by
  have hstep (r : CommitResult C) (c : C) (hc : c ∈ s.cncList) (q : CommitResult C)
      (hr : Sends Q { s with calls := [] } r.state)
      (hq : recoverOn provider answers listed r c = .ok q) :
      Sends Q { s with calls := [] } q.state := hr.trans (hrecover r c hc q hr hq)
  rw [commitRecovered] at h
  exact @foldlM_keeps XaFault C _ _ (fun r => Sends Q { s with calls := [] } r.state) s.cncList
    { state := { s with calls := [] }, returned := true } r hstep (Sends.refl _) h

end Sends

theorem step_sends [DecidableEq C] {a : Request C} (h : step provider s a = .ok t) :
    (∃ c branch, a = .registerConnection c branch) ∨ (∃ c, a = .unregisterConnection c) ∨
      Sends (fun _ _ => True) { s with calls := [] } t := by
  cases a with
  | registerConnection c branch => exact .inl ⟨c, branch, rfl⟩
  | unregisterConnection c => exact .inr (.inl ⟨c, rfl⟩)
  | begin answers =>
    obtain ⟨⟨u, b⟩, hu, rfl⟩ := map_ok h
    refine .inr (.inr (begin_sends hu ?_ ?_))
    · exact fun u c _ v b hv => (startOn_sends hv).mono fun _ _ _ => trivial
    · exact fun u c _ v hv => (cancelOn_sends hv).mono fun _ _ _ => trivial
  | commit answers listed =>
    obtain ⟨r, hr, rfl⟩ := map_ok h
    refine .inr (.inr (commit_sends hr ?_ ?_ ?_ ?_))
    · exact fun u c _ v b hv => (prepareOn_sends hv).mono fun _ _ _ => trivial
    · exact fun u => (commitPlain_sends answers u).mono fun _ _ _ => trivial
    · exact fun u c _ v hv => (abortOn_sends hv).mono fun _ _ _ => trivial
    · exact fun r c _ q hq => (commitOn_sends hq).mono fun _ _ _ => trivial
  | rollback answers =>
    refine .inr (.inr (rollback_sends h ?_))
    exact fun u c _ v hv => (rollbackOn_sends hv).mono fun _ _ _ => trivial
  | commitRecovered answers listed =>
    obtain ⟨r, hr, rfl⟩ := map_ok h
    refine .inr (.inr (commitRecovered_sends hr ?_))
    exact fun r c _ q _ hq => (recoverOn_sends hq).mono fun _ _ _ => trivial

structure Registered (provider : C → Option XaFuncs) (s : GdaXaTransaction C) : Prop where
  nodup : s.cncList.Nodup
  hashed : ∀ c, (s.cncHash c).isSome ↔ c ∈ s.cncList
  marked : ∀ c, s.marks c = some .thisTransaction ↔ c ∈ s.cncList
  plain : ∀ c ∈ s.cncList, provider c = none → s.nonXaCnc = some c
  remembered : ∀ c, s.nonXaCnc = some c → provider c = none
  bqual : s.xid.bqualLength = 0

theorem Registered.sends {Q : XaCall C → Bool → Prop} (h : Registered provider s)
    (hst : Sends Q s t) : Registered provider t := by
  obtain ⟨data, cs, rfl, -⟩ := hst
  exact ⟨h.nodup, h.hashed, h.marked, h.plain, h.remembered, h.bqual⟩

theorem Registered.noCalls (h : Registered provider s) :
    Registered provider { s with calls := [] } :=
  ⟨h.nodup, h.hashed, h.marked, h.plain, h.remembered, h.bqual⟩

theorem registered_new (formatId : Nat) (transactionId : CBytes) {marks : C → Option XaOwner}
    (hmarks : ∀ c, marks c ≠ some .thisTransaction) :
    Registered provider (new formatId transactionId marks) where
  nodup := List.nodup_nil
  hashed c := by simp [new]
  marked c := by simp [new, hmarks c]
  plain c hc := absurd hc List.not_mem_nil
  remembered c hc := by simp [new] at hc
  bqual := by
    rw [new]
    split <;> rfl

theorem Registered.cases_mem (h : Registered provider s) (hc : c ∈ s.cncList) :
    ∃ branch, s.cncHash c = some branch ∧
      (s.nonXaCnc = some c ∧ provider c = none ∨
        s.nonXaCnc ≠ some c ∧ ∃ f, provider c = some f) := by
  obtain ⟨branch, hb⟩ := Option.isSome_iff_exists.1 ((h.hashed c).2 hc)
  refine ⟨branch, hb, ?_⟩
  cases hf : provider c with
  | none => exact .inl ⟨h.plain c hc hf, rfl⟩
  | some f =>
    refine .inr ⟨fun hn => ?_, f, rfl⟩
    have hnone : provider c = none := h.remembered c hn
    rw [hf] at hnone
    cases hnone

section Steps

variable [DecidableEq C]

theorem Registered.add {bin : Bytes} (h : Registered provider s) (hc : c ∉ s.cncList)
    (hplain : provider c = none → s.nonXaCnc = some c) : Registered provider (s.add c bin) where
  nodup := List.nodup_cons.2 ⟨hc, h.nodup⟩
  hashed d := by
    have hold := h.hashed d
    simp only [GdaXaTransaction.add, Function.update_apply, List.mem_cons]
    split <;> simp_all
  marked d := by
    have hold := h.marked d
    simp only [GdaXaTransaction.add, Function.update_apply, List.mem_cons]
    split <;> simp_all
  plain d hd hnone := by
    rcases List.mem_cons.1 hd with rfl | hd
    · exact hplain hnone
    · exact h.plain d hd hnone
  remembered := h.remembered
  bqual := h.bqual

theorem Registered.registerConnection (h : Registered provider s) (c : C) (branch : CBytes) :
    Registered provider (registerConnection provider s c branch).1 := by
  rw [GdaXaTransaction.registerConnection]
  split
  · exact h
  · split
    · exact h
    · split
      · next hhash =>
        refine ⟨h.nodup, fun d => ?_, h.marked, h.plain, h.remembered, h.bqual⟩
        have hold := h.hashed d
        simp only [Function.update_apply]
        split
        · next heq =>
          subst heq
          simpa using (h.hashed d).1 hhash
        · exact hold
      · next hhash =>
        have hmem : c ∉ s.cncList := fun hc => hhash ((h.hashed c).2 hc)
        split
        · exact h
        · split
          · next hnone =>
            have hprov : provider c = none := Option.isNone_iff_eq_none.1 hnone
            split
            · exact h
            · next hfree =>
              -- nothing is remembered yet, and so no connection of the list is without support
              have hfree : s.nonXaCnc = none := by simpa using hfree
              have hnew : Registered provider { s with nonXaCnc := some c } := by
                refine ⟨h.nodup, h.hashed, h.marked, ?_, ?_, h.bqual⟩
                · intro d hd hd'
                  have hsome : s.nonXaCnc = some d := h.plain d hd hd'
                  rw [hfree] at hsome
                  cases hsome
                · intro d hd
                  obtain rfl := Option.some.inj hd
                  exact hprov
              exact hnew.add hmem fun _ => rfl
          · next hsome =>
            refine h.add hmem fun hnone => ?_
            exact absurd (Option.isNone_iff_eq_none.2 hnone) hsome

theorem Registered.unregisterConnection (h : Registered provider s) (c : C) :
    Registered provider (unregisterConnection s c) := by
  rw [GdaXaTransaction.unregisterConnection]
  split
  · next hmem =>
    refine ⟨h.nodup.erase c, fun d => ?_, fun d => ?_, fun d hd => ?_, h.remembered, h.bqual⟩
    · have hold := h.hashed d
      simp only [h.nodup.mem_erase_iff, Function.update_apply]
      split <;> simp_all
    · have hold := h.marked d
      simp only [h.nodup.mem_erase_iff, Function.update_apply]
      split <;> simp_all
    · exact h.plain d (List.mem_of_mem_erase hd)
  · exact h

theorem Registered.step {a : Request C} (h : Registered provider s)
    (hstep : step provider s a = .ok t) : Registered provider t := by
  rcases step_sends hstep with ⟨c, branch, rfl⟩ | ⟨c, rfl⟩ | hsends
  · obtain rfl := Except.ok.inj hstep
    exact h.noCalls.registerConnection c branch
  · obtain rfl := Except.ok.inj hstep
    exact h.noCalls.unregisterConnection c
  · exact h.noCalls.sends hsends

def Reachable (provider : C → Option XaFuncs) (s : GdaXaTransaction C) : Prop :=
  ∃ formatId transactionId marks requests, (∀ c, marks c ≠ some XaOwner.thisTransaction) ∧
    run (GdaXaTransaction.step provider) (new formatId transactionId marks) requests = .ok s

theorem Reachable.registered (h : Reachable provider s) : Registered provider s := by
  obtain ⟨formatId, transactionId, marks, requests, hmarks, hrun⟩ := h
  have hstep (s : GdaXaTransaction C) (a : Request C) (t : GdaXaTransaction C)
      (hs : Registered provider s) (_ : True) (ht : GdaXaTransaction.step provider s a = .ok t) :
      Registered provider t := hs.step ht
  exact run_invariant hstep (registered_new formatId transactionId hmarks)
    (stepsMeet_true requests _) hrun

end Steps

end GdaXaTransaction

end LibGda

/-! The two phases of `gda_xa_transaction_commit`, and a `gda_xa_transaction_begin` which fails: for
which transactions they do what a distributed transaction is for, whatever the calls give. -/

namespace LibGda

open RunInvariant

namespace GdaXaTransaction

variable {C : Type}

def Made (kind : XaCall C → Bool) (c : C) (calls : List (XaCall C × Bool)) : Prop :=
  ∃ e ∈ calls, kind e.1 = true ∧ e.1.cnc = c

def Succeeded (kind : XaCall C → Bool) (c : C) (calls : List (XaCall C × Bool)) : Prop :=
  ∃ e ∈ calls, kind e.1 = true ∧ e.1.cnc = c ∧ e.2 = true

def CommitMeets (provider : C → Option XaFuncs) (s : GdaXaTransaction C) :
    Except XaFault (CommitResult C) → Prop
  | .error _ => False
  | .ok r =>
    (∀ before e after, r.state.calls = before ++ e :: after → e.1.commits = true →
      ∀ c ∈ s.cncList, (provider c).isSome = true → Succeeded XaCall.prepares c before) ∧
    (r.returned = true → ∀ c ∈ s.cncList,
      (provider c).isSome = true ∧ c ∈ r.toRecover ∨ Succeeded XaCall.commits c r.state.calls) ∧
    (r.returned = false → (∀ e ∈ r.state.calls, e.1.commits = true → e.2 = false) ∧
      ∀ c ∈ s.cncList, Made XaCall.rollsBack c r.state.calls)

/-- What a distributed transaction asks of a beginning which fails: what was started is rolled
back. -/
def BeginMeets : Except XaFault (GdaXaTransaction C × Bool) → Prop
  | .ok (t, false) => ∀ before e after, t.calls = before ++ e :: after → e.1.starts = true →
      e.2 = true → Made XaCall.rollsBack e.1.cnc after
  | _ => True

def CanStart (provider : C → Option XaFuncs) (c : C) : Prop :=
  ∀ f, provider c = some f → f.xaStart = true

def CanRollBack (provider : C → Option XaFuncs) (c : C) : Prop :=
  ∀ f, provider c = some f → f.xaRollback = true

/-- There is no connection, or there is one and a connection without distributed transactions which
was registered before and is still remembered. -/
def CommitSafe (provider : C → Option XaFuncs) (listed : Bool) (s : GdaXaTransaction C) : Prop :=
  s.cncList = [] ∨ ∃ c d f, s.cncList = [c] ∧ s.nonXaCnc = some d ∧ d ≠ c ∧
    provider c = some f ∧ f.xaRollback = true ∧
    (listed = true ∨ ¬ (f.xaPrepare = true ∧ f.xaCommit = true))

def BeginSafe (provider : C → Option XaFuncs) (s : GdaXaTransaction C) : Prop :=
  ∀ before c d after, s.cncList = before ++ c :: d :: after →
    (∀ e ∈ before ++ [c], CanStart provider e) → CanRollBack provider c

theorem Made.append_right {kind : XaCall C → Bool} {c : C} {cs : List (XaCall C × Bool)}
    (h : Made kind c cs) (ds : List (XaCall C × Bool)) : Made kind c (ds ++ cs) := by
  obtain ⟨e, he, hkind⟩ := h
  exact ⟨e, List.mem_append_right ds he, hkind⟩

theorem Made.append_left {kind : XaCall C → Bool} {c : C} {cs : List (XaCall C × Bool)}
    (h : Made kind c cs) (ds : List (XaCall C × Bool)) : Made kind c (cs ++ ds) := by
  obtain ⟨e, he, hkind⟩ := h
  exact ⟨e, List.mem_append_left ds he, hkind⟩

theorem Succeeded.append_left {kind : XaCall C → Bool} {c : C} {cs : List (XaCall C × Bool)}
    (h : Succeeded kind c cs) (ds : List (XaCall C × Bool)) : Succeeded kind c (cs ++ ds) := by
  obtain ⟨e, he, hkind⟩ := h
  exact ⟨e, List.mem_append_left ds he, hkind⟩

theorem before_of_split {α : Type} {cs ds before after : List α} {e : α}
    (h : cs ++ ds = before ++ e :: after) (he : e ∉ cs) : ∃ x, before = cs ++ x := by
  rcases List.append_eq_append_iff.1 h with ⟨x, hbefore, -⟩ | ⟨x, hcs, hds⟩
  · exact ⟨x, hbefore⟩
  · cases x with
    | nil => exact ⟨[], by rw [hcs, List.append_nil, List.append_nil]⟩
    | cons y x =>
      obtain ⟨rfl, -⟩ := List.cons.inj hds
      refine absurd ?_ he
      rw [hcs]
      exact List.mem_append_right _ (List.mem_cons_self ..)

theorem after_of_split {α : Type} {cs ds before after : List α} {e : α}
    (h : cs ++ ds = before ++ e :: after) (he : e ∉ ds) : ∃ x, after = x ++ ds := by
  rcases List.append_eq_append_iff.1 h with ⟨x, -, hds⟩ | ⟨x, -, hafter⟩
  · refine absurd ?_ he
    rw [hds]
    exact List.mem_append_right _ (List.mem_cons_self ..)
  · cases x with
    | nil =>
      refine absurd ?_ he
      rw [← List.nil_append ds, ← hafter]
      exact List.mem_cons_self ..
    | cons y x => exact ⟨x, (List.cons.inj hafter).2⟩

section Begin

variable {provider : C → Option XaFuncs} {answers : XaAnswers C}
  {s t u v : GdaXaTransaction C} {c d : C} {cncs : List C}

theorem foldlM_isOk {body : GdaXaTransaction C → C → Except XaFault (GdaXaTransaction C)}
    {Q : XaCall C → Bool → Prop}
    (hbody : ∀ u, Registered provider u → u.nonXaCnc = s.nonXaCnc → ∀ c ∈ u.cncList, c ∈ cncs →
      ∃ v, body u c = .ok v)
    (hsends : ∀ u c v, body u c = .ok v → Sends Q u v) (h : Registered provider s)
    (hcncs : ∀ c ∈ cncs, c ∈ s.cncList) : ∃ t, cncs.foldlM body s = .ok t := by
  induction cncs generalizing s with
  | nil => exact ⟨s, rfl⟩
  | cons c cncs ih =>
    obtain ⟨u, hu⟩ := hbody s h rfl c (hcncs c (List.mem_cons_self ..)) (List.mem_cons_self ..)
    have hsu : Sends Q s u := hsends s c u hu
    obtain ⟨t, ht⟩ := @ih u
      (fun v hv hplain d hd hd' => hbody v hv (hplain.trans hsu.nonXaCnc) d hd
        (List.mem_cons_of_mem c hd'))
      (h.sends hsu) fun d hd => hsu.cncList ▸ hcncs d (List.mem_cons_of_mem c hd)
    refine ⟨t, ?_⟩
    rw [List.foldlM_cons]
    exact bind_of_ok hu ht

variable [DecidableEq C]

theorem startOn_true (h : startOn provider answers s c = .ok (t, true)) :
    (∃ call, call.starts = true ∧ call.cnc = c ∧ answers.succeeds call = true ∧
      t.calls = s.calls ++ [(call, true)]) ∧ (s.nonXaCnc ≠ some c → CanStart provider c) := by
  obtain ⟨hplain, hr⟩ | ⟨-, f, hf, ⟨-, hr⟩ | ⟨hstart, branch, -, hr⟩⟩ := startOn_eq_ok.1 h
  · obtain ⟨rfl, hb⟩ := Prod.mk.inj hr
    refine ⟨⟨.beginTransaction c, rfl, rfl, hb.symm, ?_⟩, fun hn => absurd hplain hn⟩
    rw [hb]
  · cases (Prod.mk.inj hr).2
  · obtain ⟨rfl, hb⟩ := Prod.mk.inj hr
    refine ⟨⟨.xaStart c (s.branched branch).xid, rfl, rfl, hb.symm, ?_⟩, fun _ g hg => ?_⟩
    · rw [hb]
      rfl
    · rw [hf] at hg
      obtain rfl := Option.some.inj hg
      exact hstart

theorem cancelOn_made (hcan : CanRollBack provider c)
    (h : cancelOn provider answers s c = .ok t) :
    ∃ cs, t.calls = s.calls ++ cs ∧ Made XaCall.rollsBack c cs := by
  obtain ⟨-, rfl⟩ | ⟨-, f, hf, ⟨hroll, -⟩ | ⟨-, branch, -, rfl⟩⟩ := cancelOn_eq_ok.1 h
  · exact ⟨_, rfl, _, List.mem_singleton.2 rfl, rfl, rfl⟩
  · rw [hcan f hf] at hroll
    cases hroll
  · exact ⟨_, rfl, _, List.mem_singleton.2 rfl, rfl, rfl⟩

theorem cancelled (hcan : CanRollBack provider c) (hc : c ∈ cncs)
    (h : cncs.foldlM (cancelOn provider answers) s = .ok t) :
    ∃ cs, t.calls = s.calls ++ cs ∧ Made XaCall.rollsBack c cs ∧
      ∀ e ∈ cs, e.1.rollsBack = true := by
  obtain ⟨l, r, rfl⟩ := List.append_of_mem hc
  rw [List.foldlM_append] at h
  obtain ⟨u, hu, h⟩ := bind_ok h
  rw [List.foldlM_cons] at h
  obtain ⟨v, hv, h⟩ := bind_ok h
  have hkind (w : GdaXaTransaction C) (d : C) (x : GdaXaTransaction C)
      (hx : cancelOn provider answers w d = .ok x) :
      Sends (fun call _ => call.rollsBack = true) w x :=
    (cancelOn_sends hx).mono fun _ _ hcall => hcall.1
  obtain ⟨cs, hcs, hcs'⟩ := (foldlM_sends (fun w d _ x hx => hkind w d x hx) hu).calls
  obtain ⟨ds, hds, hds'⟩ := (hkind u c v hv).calls
  obtain ⟨es, hes, hes'⟩ := (foldlM_sends (fun w d _ x hx => hkind w d x hx) h).calls
  obtain ⟨ds', hds'', hmade⟩ := cancelOn_made hcan hv
  obtain rfl : ds = ds' := List.append_cancel_left (hds.symm.trans hds'')
  refine ⟨cs ++ (ds ++ es), ?_, (hmade.append_left es).append_right cs, ?_⟩
  · rw [hes, hds, hcs, List.append_assoc, List.append_assoc]
  · intro e he
    rcases List.mem_append.1 he with he | he
    · exact hcs' e he
    · exact (List.mem_append.1 he).elim (hds' e) (hes' e)

theorem begin_meets (h : Registered provider s) (hsafe : BeginSafe provider s) :
    BeginMeets (begin provider answers s) := by
  cases hbegin : begin provider answers s with
  | error e => trivial
  | ok r =>
    obtain ⟨t, b⟩ := r
    rcases begin_cases hbegin with ⟨rfl, -⟩ | ⟨rfl, done, c, rest, u, v, hsplit, hpassed, hfail,
      hback⟩
    · trivial
    intro before e after ht hstarts htrue
    have hremembered (w : GdaXaTransaction C) (d : C) (_ : d ∈ done) (x : GdaXaTransaction C)
        (b : Bool) (hw : w.nonXaCnc = s.nonXaCnc)
        (hx : startOn provider answers w d = .ok (x, b)) : x.nonXaCnc = s.nonXaCnc :=
      (startOn_sends hx).nonXaCnc.trans hw
    have hcanStart (d : C) (hd : d ∈ done) : CanStart provider d := by
      obtain ⟨-, -, w, x, -, hw, hx, -⟩ := hpassed.at_mem hremembered rfl hd
      by_cases hplain : w.nonXaCnc = some d
      · intro f hf
        have hnone : provider d = none := h.remembered d (hw ▸ hplain)
        rw [hnone] at hf
        cases hf
      · exact (startOn_true hx).2 hplain
    obtain ⟨cs, hcs, hcs'⟩ := (hpassed.sends (Q := fun call _ => call.cnc ∈ done)
      fun w d hd x b hx => (startOn_sends hx).mono fun call a hcall => hcall.2.1 ▸ hd).calls
    obtain ⟨ds, hds, hds'⟩ := (startOn_sends hfail).calls
    obtain ⟨es, hes, hes'⟩ := (foldlM_sends (Q := fun call _ => call.rollsBack = true)
      (fun w d _ x hx => (cancelOn_sends hx).mono fun _ _ hcall => hcall.1) hback).calls
    have hcalls : (cs ++ ds) ++ es = before ++ e :: after := by
      rw [← ht, hes, hds, hcs]
      rfl
    have hes'' : e ∉ es := by
      intro he
      rw [XaCall.starts_of_rollsBack (hes' e he)] at hstarts
      cases hstarts
    have hmem : e.1.cnc ∈ done := by
      have hall : e ∈ (cs ++ ds) ++ es := by
        rw [hcalls]
        exact List.mem_append_right _ (List.mem_cons_self ..)
      rcases List.mem_append.1 ((List.mem_append.1 hall).resolve_right hes'') with he | he
      · exact hcs' e he
      · have hfalse := (hds' e he).2.2
        rw [htrue] at hfalse
        cases hfalse
    obtain ⟨x, rfl⟩ := after_of_split hcalls hes''
    -- the connection is not the last one, as the one which has failed comes behind it
    have hcan : CanRollBack provider e.1.cnc := by
      obtain ⟨l, r, hl⟩ := List.append_of_mem hmem
      have hstarted (d : C) (hd : d ∈ l ++ [e.1.cnc]) : CanStart provider d := by
        apply hcanStart
        rw [hl]
        rcases List.mem_append.1 hd with hd | hd
        · exact List.mem_append_left _ hd
        · obtain rfl := List.mem_singleton.1 hd
          exact List.mem_append_right _ (List.mem_cons_self ..)
      cases r with
      | nil => exact hsafe l _ c rest (by rw [hsplit, hl, List.append_assoc]; rfl) hstarted
      | cons d r =>
        exact hsafe l _ d (r ++ c :: rest) (by rw [hsplit, hl, List.append_assoc]; rfl) hstarted
    obtain ⟨es', hes''', hmade, -⟩ := cancelled hcan
      (List.mem_cons_of_mem c (List.mem_reverse.2 hmem)) hback
    obtain rfl : es = es' := List.append_cancel_left (hes.symm.trans hes''')
    exact hmade.append_right x

theorem startOn_isOk (h : Registered provider s) (hc : c ∈ s.cncList) :
    ∃ r, startOn provider answers s c = .ok r := by
  obtain ⟨branch, hb, ⟨hplain, -⟩ | ⟨hplain, f, hf⟩⟩ := h.cases_mem hc
  · exact ⟨_, startOn_eq_ok.2 (.inl ⟨hplain, rfl⟩)⟩
  · cases hstart : f.xaStart with
    | false => exact ⟨_, startOn_eq_ok.2 (.inr ⟨hplain, f, hf, .inl ⟨hstart, rfl⟩⟩)⟩
    | true =>
      exact ⟨_, startOn_eq_ok.2 (.inr ⟨hplain, f, hf, .inr ⟨hstart, branch, hb, rfl⟩⟩)⟩

theorem cancelOn_isOk (h : Registered provider s) (hc : c ∈ s.cncList) :
    ∃ t, cancelOn provider answers s c = .ok t := by
  obtain ⟨branch, hb, ⟨hplain, -⟩ | ⟨hplain, f, hf⟩⟩ := h.cases_mem hc
  · exact ⟨_, cancelOn_eq_ok.2 (.inl ⟨hplain, rfl⟩)⟩
  · cases hroll : f.xaRollback with
    | false => exact ⟨_, cancelOn_eq_ok.2 (.inr ⟨hplain, f, hf, .inl ⟨hroll, rfl⟩⟩)⟩
    | true =>
      exact ⟨_, cancelOn_eq_ok.2 (.inr ⟨hplain, f, hf, .inr ⟨hroll, branch, hb, rfl⟩⟩)⟩

theorem passed_startOn (h : Registered provider s) (hcncs : ∀ c ∈ cncs, c ∈ s.cncList)
    (hstart : ∀ c ∈ cncs, CanStart provider c)
    (hanswers : ∀ call : XaCall C, call.cnc ∈ cncs → answers.succeeds call = true) :
    ∃ t, Passed (startOn provider answers) cncs s t := by
  induction cncs generalizing s with
  | nil => exact ⟨s, rfl⟩
  | cons c cncs ih =>
    have hc : c ∈ c :: cncs := List.mem_cons_self ..
    have hone : ∃ u, startOn provider answers s c = .ok (u, true) := by
      obtain ⟨branch, hb, ⟨hplain, -⟩ | ⟨hplain, f, hf⟩⟩ := h.cases_mem (hcncs c hc)
      · refine ⟨(s.call answers (.beginTransaction c)).1, startOn_eq_ok.2 (.inl ⟨hplain, ?_⟩)⟩
        exact Prod.ext rfl (hanswers (.beginTransaction c) hc).symm
      · refine ⟨((s.branched branch).call answers (.xaStart c (s.branched branch).xid)).1,
          startOn_eq_ok.2 (.inr ⟨hplain, f, hf, .inr ⟨hstart c hc f hf, branch, hb, ?_⟩⟩)⟩
        exact Prod.ext rfl (hanswers (.xaStart c _) hc).symm
    obtain ⟨u, hu⟩ := hone
    have hsu := startOn_sends hu
    obtain ⟨t, ht⟩ := ih (h.sends hsu)
      (fun d hd => hsu.cncList ▸ hcncs d (List.mem_cons_of_mem c hd))
      (fun d hd => hstart d (List.mem_cons_of_mem c hd))
      (fun call hcall => hanswers call (List.mem_cons_of_mem c hcall))
    exact ⟨t, u, hu, ht⟩

theorem begin_of_fail {done rest : List C} (hsplit : s.cncList = done ++ c :: rest)
    (hpassed : Passed (startOn provider answers) done { s with calls := [] } u)
    (hfail : startOn provider answers u c = .ok (v, false))
    (hback : (c :: done.reverse).foldlM (cancelOn provider answers) v = .ok t) :
    begin provider answers s = .ok (t, false) := by
  have hloop : tryEach (startOn provider answers) [] s.cncList { s with calls := [] } =
      .ok (v, some (c :: (done.reverse ++ []))) :=
    tryEach_stopped.2 ⟨done, c, rest, u, hsplit, rfl, hpassed, hfail⟩
  rw [List.append_nil] at hloop
  exact bind_of_ok hloop (bind_of_ok hback rfl)

theorem begin_violates {before after : List C} (h : Registered provider s)
    (hsplit : s.cncList = before ++ c :: d :: after)
    (hstart : ∀ e ∈ before ++ [c], CanStart provider e) (hcan : ¬ CanRollBack provider c) :
    ∃ answers, ¬ BeginMeets (begin provider answers s) := by
  refine ⟨⟨fun call => decide (call.cnc ∈ before ++ [c]), fun _ => []⟩, ?_⟩
  generalize hanswers : (⟨fun call => decide (call.cnc ∈ before ++ [c]), fun _ => []⟩ :
    XaAnswers C) = answers
  have hsplit' : s.cncList = (before ++ [c]) ++ d :: after := by
    rw [hsplit, List.append_assoc, List.singleton_append]
  have hd : d ∉ before ++ [c] := by
    have hnodup := h.nodup
    rw [hsplit'] at hnodup
    exact fun hmem => (List.disjoint_of_nodup_append hnodup) hmem (List.mem_cons_self ..)
  have hsub (e : C) (he : e ∈ before ++ [c]) : e ∈ s.cncList :=
    hsplit' ▸ List.mem_append_left _ he
  have hdmem : d ∈ s.cncList := hsplit' ▸ List.mem_append_right _ (List.mem_cons_self ..)
  have hpassed : ∃ u, Passed (startOn provider answers) (before ++ [c]) { s with calls := [] } u :=
    passed_startOn h.noCalls hsub hstart fun call hcall => by
      rw [← hanswers]
      exact decide_eq_true hcall
  obtain ⟨u, hu⟩ := hpassed
  have hkeeps (w : GdaXaTransaction C) (e : C) (_ : e ∈ before ++ [c]) (x : GdaXaTransaction C)
      (b : Bool) (hx : startOn provider answers w e = .ok (x, b)) :
      Sends (fun call _ => call.rollsBack = false) w x :=
    (startOn_sends hx).mono fun _ _ hcall => XaCall.rollsBack_of_starts hcall.1
  have hsu := hu.sends hkeeps
  have hru : Registered provider u := h.noCalls.sends hsu
  have hfail : ∃ v, startOn provider answers u d = .ok (v, false) := by
    obtain ⟨⟨v, b⟩, hv⟩ : ∃ r, startOn provider answers u d = .ok r :=
      startOn_isOk hru (hsu.cncList ▸ hdmem)
    cases b with
    | false => exact ⟨v, hv⟩
    | true =>
      obtain ⟨⟨call, -, hcnc, htrue, -⟩, -⟩ := startOn_true hv
      rw [← hanswers] at htrue
      exact absurd (hcnc ▸ of_decide_eq_true htrue) hd
  obtain ⟨v, hv⟩ := hfail
  have huv : Sends (fun call _ => call.rollsBack = false) u v :=
    (startOn_sends hv).mono fun _ _ hcall => XaCall.rollsBack_of_starts hcall.1
  have hrv : Registered provider v := hru.sends huv
  have hback : ∃ t, (d :: (before ++ [c]).reverse).foldlM (cancelOn provider answers) v =
    .ok t := by
    refine foldlM_isOk (fun w hw _ e he _ => cancelOn_isOk hw he)
      (fun w e x hx => (cancelOn_sends hx).mono (R := fun _ _ => True) fun _ _ _ => trivial) hrv ?_
    intro e he
    rw [huv.cncList, hsu.cncList]
    rcases List.mem_cons.1 he with rfl | he
    · exact hdmem
    · exact hsub e (List.mem_reverse.1 he)
  obtain ⟨t, ht⟩ := hback
  -- no call of the whole operation rolls the connection back
  have hnone : ∃ f, provider c = some f ∧ f.xaRollback = false := by
    simpa [CanRollBack] using hcan
  obtain ⟨f, hf, hroll⟩ := hnone
  have hall : Sends (fun call _ => call.rollsBack = true → call.cnc ≠ c) { s with calls := [] }
    t := by
    have hsv : Sends (fun call _ => call.rollsBack = true → call.cnc ≠ c)
      { s with calls := [] } v :=
      (hsu.trans huv).mono fun call _ hcall hroll => absurd (hcall.symm.trans hroll)
        Bool.noConfusion
    refine (foldlM_keeps (P := fun w => Registered provider w ∧
      Sends (fun call _ => call.rollsBack = true → call.cnc ≠ c) { s with calls := [] } w)
      ?_ ⟨hrv, hsv⟩ ht).2
    intro w e _ x hw hx
    refine ⟨hw.1.sends (cancelOn_sends hx), hw.2.trans ?_⟩
    by_cases hec : e = c
    · subst hec
      obtain ⟨hplain, -⟩ | ⟨-, g, hg, ⟨-, rfl⟩ | ⟨hcan', -⟩⟩ := cancelOn_eq_ok.1 hx
      · have hsome := hw.1.remembered e hplain
        rw [hf] at hsome
        cases hsome
      · exact Sends.refl x
      · rw [hf] at hg
        obtain rfl := Option.some.inj hg
        rw [hroll] at hcan'
        cases hcan'
    · refine (cancelOn_sends hx).mono fun call _ hcall _ => ?_
      rw [hcall.2]
      exact hec
  have hbegin : begin provider answers s = .ok (t, false) := begin_of_fail hsplit' hu hv ht
  rw [hbegin]
  intro hmeets
  obtain ⟨done, rest, w, x, -, -, hx, hxu⟩ := hu.at_mem (P := fun _ => True)
    (fun _ _ _ _ _ _ _ => trivial) trivial (List.mem_append_right before (List.mem_singleton.2 rfl))
  obtain ⟨⟨call, hstarts, hcnc, -, hcalls⟩, -⟩ := startOn_true hx
  obtain ⟨cs, hcs, -⟩ := (hxu.sends (Q := fun _ _ => True) fun w e _ x b hx =>
    (startOn_sends hx).mono fun _ _ _ => trivial).calls
  obtain ⟨ds, hds, -⟩ := (huv.mono (R := fun _ _ => True) fun _ _ _ => trivial).trans
    (foldlM_sends (Q := fun _ _ => True) (fun w e _ x hx =>
      (cancelOn_sends hx).mono fun _ _ _ => trivial) ht) |>.calls
  have hsplit'' : t.calls = w.calls ++ (call, true) :: (cs ++ ds) := by
    rw [hds, hcs, hcalls]
    simp
  obtain ⟨e, he, hkind, hec⟩ := hmeets w.calls (call, true) (cs ++ ds) hsplit'' hstarts rfl
  obtain ⟨es, hes, hes'⟩ := hall.calls
  have hmem : e ∈ es := by
    have hmem : e ∈ t.calls := by
      rw [hsplit'']
      exact List.mem_append_right _ (List.mem_cons_of_mem _ he)
    rw [hes] at hmem
    exact hmem
  exact hes' e hmem hkind (hec.trans hcnc)

end Begin

end GdaXaTransaction

end LibGda
