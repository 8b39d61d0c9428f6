import LibGda.XaTransaction

/-! What one operation on a `GdaXaTransaction` calls, connection by connection. The connections stay
registered as they are, so that every operation meets them as the one before left them. -/

namespace LibGda

open RunInvariant

namespace XaCall

variable {C : Type}

def cnc : XaCall C → C
  | .xaStart c _ | .xaEnd c _ | .xaPrepare c _ | .xaCommit c _ | .xaRollback c _ | .xaRecover c
  | .beginTransaction c | .commitTransaction c | .rollbackTransaction c => c

def xid : XaCall C → Option GdaXaTransactionId
  | .xaStart _ x | .xaEnd _ x | .xaPrepare _ x | .xaCommit _ x | .xaRollback _ x => some x
  | _ => none

def starts : XaCall C → Bool
  | .xaStart .. | .beginTransaction _ => true
  | _ => false

def prepares : XaCall C → Bool
  | .xaPrepare .. => true
  | _ => false

def commits : XaCall C → Bool
  | .xaCommit .. | .commitTransaction _ => true
  | _ => false

def rollsBack : XaCall C → Bool
  | .xaRollback .. | .rollbackTransaction _ => true
  | _ => false

theorem starts_of_rollsBack {call : XaCall C} (h : call.rollsBack = true) :
    call.starts = false := by
  cases call with
  | xaRollback => rfl
  | rollbackTransaction => rfl
  | _ => cases h

theorem rollsBack_of_starts {call : XaCall C} (h : call.starts = true) :
    call.rollsBack = false := by
  cases call with
  | xaStart => rfl
  | beginTransaction => rfl
  | _ => cases h

theorem commits_of_rollsBack {call : XaCall C} (h : call.rollsBack = true) :
    call.commits = false := by
  cases call with
  | xaRollback => rfl
  | rollbackTransaction => rfl
  | _ => cases h

end XaCall

namespace GdaXaTransaction

variable {C : Type} {s t u : GdaXaTransaction C}

section Loops

variable {S : Type} {body : S → C → Except XaFault (S × Bool)}

def Passed (body : S → C → Except XaFault (S × Bool)) : List C → S → S → Prop
  | [], s, t => s = t
  | cnc :: cncs, s, t => ∃ u, body s cnc = .ok (u, true) ∧ Passed body cncs u t

theorem Passed.eq_of_nil {cncs : List C} {s t : S} (h : Passed body cncs s t) (hnil : cncs = []) :
    s = t := by
  subst hnil
  exact h

theorem Passed.keeps {P : S → Prop} {cncs : List C} {s t : S} (h : Passed body cncs s t)
    (hstep : ∀ s, ∀ c ∈ cncs, ∀ u b, P s → body s c = .ok (u, b) → P u) (hs : P s) : P t := by
  induction cncs generalizing s with
  | nil => exact h ▸ hs
  | cons c cncs ih =>
    obtain ⟨u, hu, hrest⟩ := h
    have hpu : P u := hstep s c (List.mem_cons_self ..) u true hs hu
    exact ih hrest (fun s c hc => hstep s c (List.mem_cons_of_mem _ hc)) hpu

theorem Passed.at_mem {P : S → Prop} {cncs : List C} {s t : S} (h : Passed body cncs s t)
    (hstep : ∀ s, ∀ c ∈ cncs, ∀ u b, P s → body s c = .ok (u, b) → P u) (hs : P s) {c : C}
    (hc : c ∈ cncs) :
    ∃ done rest v u, cncs = done ++ c :: rest ∧ P v ∧ body v c = .ok (u, true) ∧
      Passed body rest u t := by
  induction cncs generalizing s with
  | nil => exact absurd hc (List.not_mem_nil)
  | cons d cncs ih =>
    obtain ⟨u, hu, hrest⟩ := h
    rcases List.mem_cons.1 hc with rfl | hmem
    · exact ⟨[], cncs, s, u, rfl, hs, hu, hrest⟩
    · have hpu : P u := hstep s d (List.mem_cons_self ..) u true hs hu
      obtain ⟨done, rest, v, w, rfl, hpv, hw, hpassed⟩ :=
        ih hrest (fun s c hc => hstep s c (List.mem_cons_of_mem _ hc)) hpu hmem
      exact ⟨d :: done, rest, v, w, rfl, hpv, hw, hpassed⟩

theorem tryEach_passed {before cncs : List C} {s t : S} :
    tryEach body before cncs s = .ok (t, none) ↔ Passed body cncs s t := by
  induction cncs generalizing before s with
  | nil =>
    constructor
    · intro h
      exact congrArg Prod.fst (Except.ok.inj h)
    · intro h
      exact congrArg (fun t => Except.ok (t, none)) h
  | cons c cncs ih =>
    constructor
    · intro h
      obtain ⟨⟨u, b⟩, hu, hrest⟩ := bind_ok h
      cases b with
      | false => cases hrest
      | true => exact ⟨u, hu, ih.1 hrest⟩
    · intro h
      obtain ⟨u, hu, hrest⟩ := h
      exact bind_of_ok hu (ih.2 hrest)

theorem tryEach_stopped {before cncs back : List C} {s t : S} :
    tryEach body before cncs s = .ok (t, some back) ↔
      ∃ done c rest u, cncs = done ++ c :: rest ∧ back = c :: (done.reverse ++ before) ∧
        Passed body done s u ∧ body u c = .ok (t, false) := by
  induction cncs generalizing before s with
  | nil =>
    constructor
    · intro h
      cases h
    · intro h
      obtain ⟨done, c, rest, u, hnil, -⟩ := h
      exact absurd hnil (List.append_ne_nil_of_right_ne_nil done (List.cons_ne_nil c rest)).symm
  | cons c cncs ih =>
    constructor
    · intro h
      obtain ⟨⟨u, b⟩, hu, hrest⟩ := bind_ok h
      cases b with
      | false =>
        cases hrest
        exact ⟨[], c, cncs, s, rfl, rfl, rfl, hu⟩
      | true =>
        obtain ⟨done, d, rest, v, rfl, rfl, hpassed, hfail⟩ := ih.1 hrest
        refine ⟨c :: done, d, rest, v, rfl, ?_, ⟨u, hu, hpassed⟩, hfail⟩
        rw [List.reverse_cons, List.append_assoc, List.singleton_append]
    · intro h
      obtain ⟨done, d, rest, v, hsplit, rfl, hpassed, hfail⟩ := h
      cases done with
      | nil =>
        cases hsplit
        obtain rfl := hpassed
        exact bind_of_ok hfail rfl
      | cons e done =>
        cases hsplit
        obtain ⟨u, hu, hpassed⟩ := hpassed
        refine bind_of_ok hu (ih.2 ⟨done, d, rest, v, rfl, ?_, hpassed, hfail⟩)
        rw [List.reverse_cons, List.append_assoc, List.singleton_append]

end Loops

def Sends (Q : XaCall C → Bool → Prop) (s t : GdaXaTransaction C) : Prop :=
  ∃ data cs, t = { s with xid := { s.xid with data }, calls := s.calls ++ cs } ∧
    ∀ e ∈ cs, Q e.1 e.2

section Sends

variable {Q R : XaCall C → Bool → Prop}

theorem Sends.refl (s : GdaXaTransaction C) : Sends Q s s := by
  refine ⟨s.xid.data, [], ?_, fun e he => absurd he List.not_mem_nil⟩
  rw [List.append_nil]

theorem Sends.trans (h : Sends Q s t) (h' : Sends Q t u) : Sends Q s u := by
  obtain ⟨data, cs, rfl, hcs⟩ := h
  obtain ⟨data', ds, rfl, hds⟩ := h'
  refine ⟨data', cs ++ ds, ?_, ?_⟩
  · rw [List.append_assoc]
  · intro e he
    exact (List.mem_append.1 he).elim (hcs e) (hds e)

theorem Sends.mono (h : Sends Q s t) (himp : ∀ c b, Q c b → R c b) : Sends R s t := by
  obtain ⟨data, cs, rfl, hcs⟩ := h
  exact ⟨data, cs, rfl, fun e he => himp e.1 e.2 (hcs e he)⟩

theorem Sends.call {answers : XaAnswers C} {c : XaCall C} (h : Sends Q s t)
    (hc : Q c (answers.succeeds c)) : Sends Q s (t.call answers c).1 := by
  refine h.trans ⟨t.xid.data, [(c, answers.succeeds c)], rfl, ?_⟩
  intro e he
  obtain rfl := List.mem_singleton.1 he
  exact hc

theorem Sends.branched (h : Sends Q s t) (branch : Bytes) : Sends Q s (t.branched branch) := by
  refine h.trans ⟨(t.branched branch).xid.data, [], ?_, fun e he => absurd he List.not_mem_nil⟩
  rw [List.append_nil]
  rfl

theorem Sends.cncList (h : Sends Q s t) : t.cncList = s.cncList := by
  obtain ⟨data, cs, rfl, -⟩ := h
  rfl

theorem Sends.cncHash (h : Sends Q s t) : t.cncHash = s.cncHash := by
  obtain ⟨data, cs, rfl, -⟩ := h
  rfl

theorem Sends.nonXaCnc (h : Sends Q s t) : t.nonXaCnc = s.nonXaCnc := by
  obtain ⟨data, cs, rfl, -⟩ := h
  rfl

theorem Sends.marks (h : Sends Q s t) : t.marks = s.marks := by
  obtain ⟨data, cs, rfl, -⟩ := h
  rfl

theorem Sends.calls (h : Sends Q s t) : ∃ cs, t.calls = s.calls ++ cs ∧ ∀ e ∈ cs, Q e.1 e.2 := by
  obtain ⟨data, cs, rfl, hcs⟩ := h
  exact ⟨cs, rfl, hcs⟩

end Sends

section Bodies

variable {provider : C → Option XaFuncs} {answers : XaAnswers C} {c : C}

theorem withBranch_eq_ok :
    s.withBranch c = .ok t ↔ ∃ branch, s.cncHash c = some branch ∧ t = s.branched branch := by
  rw [withBranch]
  cases s.cncHash c with
  | none => simp
  | some branch => simp [eq_comm]

theorem xaFuncs_eq_ok {f : XaFuncs} : xaFuncs provider c = .ok f ↔ provider c = some f := by
  rw [xaFuncs]
  cases provider c with
  | none => simp
  | some g => simp

theorem ok_eq_ok {α : Type} {a b : α} : (.ok a : Except XaFault α) = .ok b ↔ b = a :=
  ⟨fun h => (Except.ok.inj h).symm, fun h => congrArg Except.ok h.symm⟩

theorem bind_eq_ok {α β : Type} {x : Except XaFault α} {f : α → Except XaFault β} {b : β} :
    x >>= f = .ok b ↔ ∃ a, x = .ok a ∧ f a = .ok b :=
  ⟨bind_ok, fun ⟨_, hx, hf⟩ => bind_of_ok hx hf⟩

theorem prepareOn_eq_ok {r : GdaXaTransaction C × Bool} :
    prepareOn provider answers s c = .ok r ↔
      s.nonXaCnc = none ∧ r = (s, true) ∨
      s.nonXaCnc ≠ none ∧ ∃ branch f, s.cncHash c = some branch ∧ provider c = some f ∧
        r = prepareWith answers f (s.branched branch) c := by
  rw [prepareOn]
  by_cases hnone : s.nonXaCnc = none
  · rw [if_pos hnone, ok_eq_ok]
    simp [hnone]
  · rw [if_neg hnone]
    simp [-Except.ok.injEq, hnone, pure, Except.pure, ok_eq_ok, bind_eq_ok, withBranch_eq_ok,
      xaFuncs_eq_ok]

theorem rollbackBranch_eq_ok :
    rollbackBranch provider answers s c = .ok t ↔
      ∃ branch f, s.cncHash c = some branch ∧ provider c = some f ∧
        t = if f.xaRollback then
            ((s.branched branch).call answers (.xaRollback c (s.branched branch).xid)).1
          else s.branched branch := by
  simp only [rollbackBranch, bind_eq_ok, withBranch_eq_ok, xaFuncs_eq_ok]
  constructor
  · rintro ⟨_, ⟨branch, hb, rfl⟩, f, hf, hr⟩
    refine ⟨branch, f, hb, hf, ?_⟩
    cases hback : f.xaRollback with
    | false =>
      rw [if_neg (by simp [hback])] at hr
      exact (Except.ok.inj hr).symm
    | true =>
      rw [if_pos hback] at hr
      exact (Except.ok.inj hr).symm
  · rintro ⟨branch, f, hb, hf, rfl⟩
    refine ⟨_, ⟨branch, hb, rfl⟩, f, hf, ?_⟩
    split <;> rfl

theorem commitOn_eq_ok {listed : Bool} {r q : GdaXaTransaction C × List C} :
    commitOn provider answers listed r c = .ok q ↔
      r.1.nonXaCnc = none ∧ q = r ∨
      r.1.nonXaCnc ≠ none ∧ ∃ branch f, r.1.cncHash c = some branch ∧ provider c = some f ∧
        f.xaCommit = true ∧
        q = (((r.1.branched branch).call answers (.xaCommit c (r.1.branched branch).xid)).1,
          if !answers.succeeds (.xaCommit c (r.1.branched branch).xid) && listed then c :: r.2
          else r.2) := by
  rw [commitOn]
  by_cases hnone : r.1.nonXaCnc = none
  · rw [if_pos hnone, ok_eq_ok]
    simp [hnone]
  · rw [if_neg hnone]
    simp only [hnone, false_and, false_or, ne_eq, not_false_iff, true_and, bind_eq_ok,
      withBranch_eq_ok, xaFuncs_eq_ok]
    constructor
    · rintro ⟨_, ⟨branch, hb, rfl⟩, f, hf, hr⟩
      refine ⟨branch, f, hb, hf, ?_⟩
      split at hr
      · next hcommit => exact ⟨hcommit, (Except.ok.inj hr).symm⟩
      · cases hr
    · rintro ⟨branch, f, hb, hf, hcommit, rfl⟩
      refine ⟨_, ⟨branch, hb, rfl⟩, f, hf, ?_⟩
      rw [if_pos hcommit]
      rfl

theorem rollbackBranch_sends (h : rollbackBranch provider answers s c = .ok t) :
    Sends (fun call _ => call.rollsBack = true ∧ call.cnc = c ∧ (provider c).isSome = true) s
      t := by
  obtain ⟨branch, f, -, hf, rfl⟩ := rollbackBranch_eq_ok.1 h
  have hs : (provider c).isSome = true := Option.isSome_iff_exists.2 ⟨f, hf⟩
  split
  · exact ((Sends.refl s).branched branch).call ⟨rfl, rfl, hs⟩
  · exact (Sends.refl s).branched branch

theorem prepareWith_sends (answers : XaAnswers C) (f : XaFuncs) (s : GdaXaTransaction C) (c : C) :
    Sends (fun call _ => call.commits = false ∧ call.rollsBack = false ∧ call.cnc = c) s
      (prepareWith answers f s c).1 := by
  have hended : Sends (fun call _ => call.commits = false ∧ call.rollsBack = false ∧ call.cnc = c) s
      (endWith answers f s c).1 := by
    rw [endWith]
    split
    · exact (Sends.refl s).call ⟨rfl, rfl, rfl⟩
    · exact Sends.refl s
  rw [prepareWith]
  split
  · exact hended
  · split
    · exact hended
    · split
      · exact hended
      · exact hended.call ⟨rfl, rfl, rfl⟩

theorem prepareOn_sends {b : Bool} (h : prepareOn provider answers s c = .ok (t, b)) :
    Sends (fun call _ => call.commits = false ∧ call.rollsBack = false ∧ call.cnc = c ∧
      (provider c).isSome = true) s t := by
  obtain ⟨-, hr⟩ | ⟨-, branch, f, -, hf, hr⟩ := prepareOn_eq_ok.1 h
  · obtain ⟨rfl, -⟩ := Prod.mk.inj hr
    exact Sends.refl t
  · have hs : (provider c).isSome = true := Option.isSome_iff_exists.2 ⟨f, hf⟩
    have ht : t = (prepareWith answers f (s.branched branch) c).1 := congrArg Prod.fst hr
    rw [ht]
    refine ((Sends.refl s).branched branch).trans ?_
    refine (prepareWith_sends answers f (s.branched branch) c).mono ?_
    intro call b hcall
    exact ⟨hcall.1, hcall.2.1, hcall.2.2, hs⟩

theorem commitOn_sends {listed : Bool} {r q : GdaXaTransaction C × List C}
    (h : commitOn provider answers listed r c = .ok q) :
    Sends (fun call _ => call.commits = true ∧ call.cnc = c) r.1 q.1 := by
  obtain ⟨-, rfl⟩ | ⟨-, branch, f, -, -, -, rfl⟩ := commitOn_eq_ok.1 h
  · exact Sends.refl q.1
  · exact ((Sends.refl r.1).branched branch).call ⟨rfl, rfl⟩

variable [DecidableEq C]

theorem plainOrBranch_eq_ok {α : Type} (has : XaFuncs → Bool) {plain without r : α}
    {k : GdaXaTransaction C → α} :
    (if s.nonXaCnc ≠ some c then do
        let funcs ← xaFuncs provider c
        if !has funcs then pure without
        else do
          let s ← s.withBranch c
          pure (k s)
      else .ok plain : Except XaFault α) = .ok r ↔
      s.nonXaCnc = some c ∧ r = plain ∨
      s.nonXaCnc ≠ some c ∧ ∃ f, provider c = some f ∧
        (has f = false ∧ r = without ∨
          has f = true ∧ ∃ branch, s.cncHash c = some branch ∧ r = k (s.branched branch)) := by
  by_cases hplain : s.nonXaCnc = some c
  · rw [if_neg (not_not_intro hplain), ok_eq_ok]
    simp only [hplain, true_and, ne_eq, not_true, false_and, or_false]
  · rw [if_pos hplain, bind_eq_ok]
    simp only [hplain, false_and, false_or, ne_eq, not_false_iff, true_and, xaFuncs_eq_ok]
    refine exists_congr fun f => and_congr_right fun _ => ?_
    cases hf : has f with
    | false => simp [-Except.ok.injEq, pure, Except.pure, ok_eq_ok]
    | true => simp [-Except.ok.injEq, pure, Except.pure, ok_eq_ok, bind_eq_ok, withBranch_eq_ok]

theorem startOn_eq_ok {r : GdaXaTransaction C × Bool} :
    startOn provider answers s c = .ok r ↔
      s.nonXaCnc = some c ∧ r = s.call answers (.beginTransaction c) ∨
      s.nonXaCnc ≠ some c ∧ ∃ f, provider c = some f ∧
        (f.xaStart = false ∧ r = (s, false) ∨
          f.xaStart = true ∧ ∃ branch, s.cncHash c = some branch ∧
            r = (s.branched branch).call answers (.xaStart c (s.branched branch).xid)) := by
  exact plainOrBranch_eq_ok XaFuncs.xaStart

theorem cancelOn_eq_ok :
    cancelOn provider answers s c = .ok t ↔
      s.nonXaCnc = some c ∧ t = (s.call answers (.rollbackTransaction c)).1 ∨
      s.nonXaCnc ≠ some c ∧ ∃ f, provider c = some f ∧
        (f.xaRollback = false ∧ t = s ∨
          f.xaRollback = true ∧ ∃ branch, s.cncHash c = some branch ∧
            t = ((s.branched branch).call answers (.xaRollback c (s.branched branch).xid)).1) := by
  exact plainOrBranch_eq_ok XaFuncs.xaRollback

theorem recoverOn_cases {listed : Bool} {r q : CommitResult C}
    (h : recoverOn provider answers listed r c = .ok q) :
    q.state = r.state ∨ q.state = (r.state.call answers (.xaRecover c)).1 ∨
      r.state.nonXaCnc ≠ some c ∧ ∃ f branch, provider c = some f ∧
        r.state.cncHash c = some branch ∧
        (q.state = ((r.state.call answers (.xaRecover c)).1).branched branch ∨
          f.xaRecover = true ∧ f.xaCommit = true ∧
          (∃ xid, some xid ∈ answers.recovered c ∧
            sameId (((r.state.call answers (.xaRecover c)).1).branched branch).xid xid = true) ∧
          q.state = ((((r.state.call answers (.xaRecover c)).1).branched branch).call answers
            (.xaCommit c (((r.state.call answers (.xaRecover c)).1).branched branch).xid)).1) := by
  rw [recoverOn] at h
  split at h
  · exact .inl (congrArg CommitResult.state (Except.ok.inj h)).symm
  · next hplain =>
    obtain ⟨f, hf, h⟩ := bind_ok h
    have hfuncs : provider c = some f := xaFuncs_eq_ok.1 hf
    split at h
    · exact .inl (congrArg CommitResult.state (Except.ok.inj h)).symm
    · next hrecover =>
      dsimp only at h
      split at h
      · exact .inr (.inl (congrArg CommitResult.state (Except.ok.inj h)).symm)
      · obtain ⟨u, hu, h⟩ := bind_ok h
        obtain ⟨branch, hb, rfl⟩ := withBranch_eq_ok.1 hu
        refine .inr (.inr ⟨hplain, f, branch, hfuncs, hb, ?_⟩)
        split at h
        · next hany =>
          split at h
          · next hcommit =>
            refine .inr ⟨by simpa using hrecover, hcommit, ?_, ?_⟩
            · obtain ⟨x, hx, hsame⟩ := List.any_eq_true.1 hany
              obtain ⟨xid, rfl, hxid⟩ := (Option.any_eq_true _ _).1 hsame
              exact ⟨xid, hx, hxid⟩
            · exact (congrArg CommitResult.state (Except.ok.inj h)).symm
          · exact .inl (congrArg CommitResult.state (Except.ok.inj h)).symm
        · exact .inl (congrArg CommitResult.state (Except.ok.inj h)).symm

theorem startOn_sends {b : Bool} (h : startOn provider answers s c = .ok (t, b)) :
    Sends (fun call a => call.starts = true ∧ call.cnc = c ∧ a = b) s t := by
  obtain ⟨-, hr⟩ | ⟨-, f, -, ⟨-, hr⟩ | ⟨-, branch, -, hr⟩⟩ := startOn_eq_ok.1 h
  · obtain ⟨rfl, rfl⟩ := Prod.mk.inj hr
    exact (Sends.refl s).call ⟨rfl, rfl, rfl⟩
  · obtain ⟨rfl, -⟩ := Prod.mk.inj hr
    exact Sends.refl t
  · obtain ⟨rfl, rfl⟩ := Prod.mk.inj hr
    exact ((Sends.refl s).branched branch).call ⟨rfl, rfl, rfl⟩

theorem cancelOn_sends (h : cancelOn provider answers s c = .ok t) :
    Sends (fun call _ => call.rollsBack = true ∧ call.cnc = c) s t := by
  obtain ⟨-, rfl⟩ | ⟨-, f, -, ⟨-, rfl⟩ | ⟨-, branch, -, rfl⟩⟩ := cancelOn_eq_ok.1 h
  · exact (Sends.refl s).call ⟨rfl, rfl⟩
  · exact Sends.refl t
  · exact ((Sends.refl s).branched branch).call ⟨rfl, rfl⟩

theorem recoverOn_sends {listed : Bool} {r q : CommitResult C}
    (h : recoverOn provider answers listed r c = .ok q) :
    Sends (fun call _ => call.cnc = c) r.state q.state := by
  have hrecover : Sends (fun call _ => call.cnc = c) r.state
      (r.state.call answers (.xaRecover c)).1 := (Sends.refl r.state).call rfl
  obtain hq | hq | ⟨-, f, branch, -, -, hq | ⟨-, -, -, hq⟩⟩ := recoverOn_cases h
  · rw [hq]
    exact Sends.refl r.state
  · rw [hq]
    exact hrecover
  · rw [hq]
    exact hrecover.branched branch
  · rw [hq]
    exact (hrecover.branched branch).call rfl

end Bodies

/-! The calls of an operation are of a kind where those of each of its connections are. -/

section Operations

variable {provider : C → Option XaFuncs} {answers : XaAnswers C} {listed : Bool}
  {Q : XaCall C → Bool → Prop}

theorem foldlM_sends {body : GdaXaTransaction C → C → Except XaFault (GdaXaTransaction C)}
    {cncs : List C} (hbody : ∀ s, ∀ c ∈ cncs, ∀ t, body s c = .ok t → Sends Q s t)
    (h : cncs.foldlM body s = .ok t) : Sends Q s t := by
  refine foldlM_keeps ?_ (Sends.refl s) h
  intro u c hc v hu hv
  exact hu.trans (hbody u c hc v hv)

theorem Passed.sends {body : GdaXaTransaction C → C → Except XaFault (GdaXaTransaction C × Bool)}
    {cncs : List C} (h : Passed body cncs s t)
    (hbody : ∀ s, ∀ c ∈ cncs, ∀ t b, body s c = .ok (t, b) → Sends Q s t) : Sends Q s t := by
  refine h.keeps ?_ (Sends.refl s)
  intro u c hc v b hu hv
  exact hu.trans (hbody u c hc v b hv)

theorem commit_foldlM_sends {cncs : List C} {r q : GdaXaTransaction C × List C}
    (hbody : ∀ r, ∀ c ∈ cncs, ∀ q, commitOn provider answers listed r c = .ok q → Sends Q r.1 q.1)
    (h : cncs.foldlM (commitOn provider answers listed) r = .ok q) : Sends Q r.1 q.1 := by
  refine @foldlM_keeps XaFault C _ _ (fun q => Sends Q r.1 q.1) cncs r q ?_ (Sends.refl r.1) h
  intro u c hc v hu hv
  exact hu.trans (hbody u c hc v hv)

theorem commit_cases {r : CommitResult C} (h : commit provider answers listed s = .ok r) :
    (r.returned = false ∧ ∃ done c rest u v, s.cncList = done ++ c :: rest ∧
      Passed (prepareOn provider answers) done { s with calls := [] } u ∧
      prepareOn provider answers u c = .ok (v, false) ∧
      (c :: done.reverse).foldlM (abortOn provider answers) v = .ok r.state) ∨
    ∃ u, Passed (prepareOn provider answers) s.cncList { s with calls := [] } u ∧
      (r.returned = false ∧ (commitPlain answers u).2 = false ∧
        s.cncList.foldlM (abortOn provider answers) (commitPlain answers u).1 = .ok r.state ∨
      r.returned = true ∧ (commitPlain answers u).2 = true ∧
        s.cncList.foldlM (commitOn provider answers listed) ((commitPlain answers u).1, []) =
          .ok (r.state, r.toRecover)) := by
  rw [commit] at h
  obtain ⟨⟨v, back⟩, hv, h⟩ := bind_ok h
  cases back with
  | some back =>
    obtain ⟨w, hw, h⟩ := bind_ok h
    obtain rfl := Except.ok.inj h
    obtain ⟨done, c, rest, u, hsplit, rfl, hpassed, hfail⟩ := tryEach_stopped.1 hv
    rw [List.append_nil] at hw
    exact .inl ⟨rfl, done, c, rest, u, v, hsplit, hpassed, hfail, hw⟩
  | none =>
    refine .inr ⟨v, tryEach_passed.1 hv, ?_⟩
    cases hplain : (commitPlain answers v).2 with
    | false =>
      simp only [hplain, Bool.not_false, if_true] at h
      obtain ⟨w, hw, h⟩ := bind_ok h
      obtain rfl := Except.ok.inj h
      exact .inl ⟨rfl, rfl, hw⟩
    | true =>
      simp only [hplain, Bool.not_true, Bool.false_eq_true, if_false] at h
      obtain ⟨w, hw, h⟩ := bind_ok h
      obtain rfl := Except.ok.inj h
      exact .inr ⟨rfl, rfl, hw⟩

variable [DecidableEq C]

theorem begin_cases {b : Bool} (h : begin provider answers s = .ok (t, b)) :
    b = true ∧ Passed (startOn provider answers) s.cncList { s with calls := [] } t ∨
    b = false ∧ ∃ done c rest u v, s.cncList = done ++ c :: rest ∧
      Passed (startOn provider answers) done { s with calls := [] } u ∧
      startOn provider answers u c = .ok (v, false) ∧
      (c :: done.reverse).foldlM (cancelOn provider answers) v = .ok t := by
  rw [begin] at h
  obtain ⟨⟨v, back⟩, hv, h⟩ := bind_ok h
  cases back with
  | none =>
    obtain ⟨rfl, rfl⟩ := pair_ok h
    exact .inl ⟨rfl, tryEach_passed.1 hv⟩
  | some back =>
    obtain ⟨w, hw, h⟩ := bind_ok h
    obtain ⟨rfl, rfl⟩ := pair_ok h
    obtain ⟨done, c, rest, u, hsplit, rfl, hpassed, hfail⟩ := tryEach_stopped.1 hv
    rw [List.append_nil] at hw
    exact .inr ⟨rfl, done, c, rest, u, v, hsplit, hpassed, hfail, hw⟩

end Operations

end GdaXaTransaction

end LibGda
