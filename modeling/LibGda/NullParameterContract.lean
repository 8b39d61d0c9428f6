import LibGda.NullParameterTrees

/-! When `gda_rewrite_sql_statement_for_null_parameters` changes the comparisons with NULL parameters and
nothing else: on every parsed statement, and on some unknown ones. -/

namespace LibGda.NullParams

section Segment

variable {pieces : List (List Char)} {operand : Operand} {before : List Char}

def segmentLeft (pieces : List (List Char)) : Left :=
  match walkBack (pieces.map kept) with
  | some ms => (markedText ms, some false)
  | none => (frontText pieces, some true)

theorem isNull_length : " IS NULL".toList.length = 8 := rfl

theorem isNotNull_length : " IS NOT NULL".toList.length = 12 := rfl

theorem longer_ne {x y : List Char} {c : Char} (h : x.length + 1 ≠ y.length) :
    before ++ [c] ++ x ≠ before ++ y := by
  intro heq
  have hlen := congrArg List.length heq
  simp only [List.length_append, List.length_cons, List.length_nil] at hlen
  omega

theorem expectedFront_none (hright : operand.right = none) (null : Bool) :
    expectedFront pieces null operand = (frontText pieces, some true) := by
  unfold expectedFront
  rw [hright]
  cases null with
  | true => rfl
  | false => rfl

theorem expectedFront_some {symbol : Symbol} (hright : operand.right = some symbol)
    (htext : trimmed (frontText pieces) = before ++ symbol.text) :
    expectedFront pieces true operand = (before ++ symbol.nullTest, some false) := by
  unfold expectedFront
  rw [hright]
  simp only [htext, List.length_append, Nat.add_sub_cancel, List.take_left]

theorem segment_iff (hreading : ∀ symbol ∈ operand.right, EndsWith (frontText pieces) symbol) :
    segmentLeft pieces = expectedFront pieces true operand ∧ operand.left = false ↔
      Agrees pieces operand := by
  rw [Agrees, and_comm]
  apply and_congr_right
  intro _
  by_cases hlast : (trimmed (frontText pieces)).getLast? = some '='
  · obtain ⟨u, hu⟩ := List.getLast?_eq_some_iff.1 hlast
    obtain ⟨ms, hms, htext⟩ := walkBack_some hu
    have hleft : segmentLeft pieces = (markedText ms, some false) := by rw [segmentLeft, hms]
    rw [hleft]
    cases hright : operand.right with
    | none =>
      simp only
      refine iff_of_false ?_ (fun h => h hlast)
      rw [expectedFront_none hright]
      intro h
      cases (Prod.mk.inj h).2
    | some symbol =>
      obtain ⟨before, hbefore, hfree⟩ := hreading symbol (by rw [hright]; exact Option.mem_some_self _)
      rw [expectedFront_some hright hbefore, Prod.mk.injEq]
      simp only [and_true]
      rw [hbefore] at hu
      cases symbol with
      | eq =>
        have hsame : before = u := List.append_cancel_right hu
        subst hsame
        refine iff_of_true ?_ trivial
        by_cases hdiff : ['!', '='] <:+ lastPiece pieces
        · simp only [if_pos hdiff] at htext
          obtain ⟨b, rfl, -⟩ := htext
          have hbang := hfree '!' (by simp)
          exact absurd (by simp) hbang
        · simp only [if_neg hdiff] at htext
          exact htext
      | eqEq =>
        have hsame : u = before ++ ['='] := by
          have heq : before ++ ['='] ++ ['='] = u ++ ['='] := by
            rw [← hu, List.append_assoc]
            rfl
          exact (List.append_cancel_right heq).symm
        refine iff_of_false ?_ id
        intro hsame'
        by_cases hdiff : ['!', '='] <:+ lastPiece pieces
        · simp only [if_pos hdiff] at htext
          obtain ⟨b, hb, -⟩ := htext
          rw [hsame] at hb
          have hc := (List.append_inj' hb rfl).2
          exact absurd hc (by decide)
        · simp only [if_neg hdiff] at htext
          rw [htext, hsame] at hsame'
          refine longer_ne ?_ hsame'
          change " IS NULL".toList.length + 1 ≠ " IS NULL".toList.length
          rw [isNull_length]
          decide
      | bangEq =>
        have hsame : u = before ++ ['!'] := by
          have heq : before ++ ['!'] ++ ['='] = u ++ ['='] := by
            rw [← hu, List.append_assoc]
            rfl
          exact (List.append_cancel_right heq).symm
        by_cases hdiff : ['!', '='] <:+ lastPiece pieces
        · simp only [if_pos hdiff] at htext
          obtain ⟨b, hb, htext⟩ := htext
          have hsame' : before = b := List.append_cancel_right (hsame.symm.trans hb)
          refine iff_of_true ?_ hdiff
          rw [htext, hsame']
          rfl
        · simp only [if_neg hdiff] at htext
          refine iff_of_false ?_ hdiff
          intro hsame'
          rw [htext, hsame] at hsame'
          refine longer_ne ?_ hsame'
          change " IS NULL".toList.length + 1 ≠ " IS NOT NULL".toList.length
          rw [isNull_length, isNotNull_length]
          decide
      | ltGt =>
        have hlen : before ++ ['<'] ++ ['>'] = u ++ ['='] := by
          rw [← hu, List.append_assoc]
          rfl
        have hc := (List.append_inj' hlen rfl).2
        exact absurd hc (by decide)
  · have hleft : segmentLeft pieces = (frontText pieces, some true) := by
      rw [segmentLeft, walkBack_none hlast]
    rw [hleft]
    cases hright : operand.right with
    | none =>
      exact iff_of_true (expectedFront_none hright true).symm hlast
    | some symbol =>
      obtain ⟨before, hbefore, -⟩ := hreading symbol (by rw [hright]; exact Option.mem_some_self _)
      rw [expectedFront_some hright hbefore]
      have hne : ¬ ((frontText pieces, some true) : Left) = (before ++ symbol.nullTest, some false) := by
        intro h
        cases (Prod.mk.inj h).2
      rw [hbefore] at hlast
      cases symbol with
      | eq => exact absurd (by simp [Symbol.text]) hlast
      | eqEq => exact absurd (by simp [Symbol.text]) hlast
      | bangEq => exact absurd (by simp [Symbol.text]) hlast
      | ltGt => exact iff_of_false hne id

end Segment

section Run

variable {params : GdaSet} {seg tail : List Marked} {p m : Marked} {name : String}
  {value : Option Literal} {exprs : List UnknownExpr} {pieces : List (List Char)}
  {operands : List Operand}

theorem walkBack_eq (m : Marked) (before : List Marked) : walkBack (m :: before) =
    match m.expr with
    | .text value =>
      match scanText value with
      | .stops => none
      | .comparison rewritten => some ({ m with expr := .text rewritten } :: before)
      | .blank => (walkBack before).map fun before => { m with removed := true } :: before
    | .param _ _ => none := by
  exact walkBack.eq_def (m :: before)

theorem walkBack_barrier (hp : p.expr = .param name value) :
    walkBack (seg ++ p :: tail) = (walkBack seg).map fun ms => ms ++ p :: tail := by
  induction seg with
  | nil =>
    rw [List.nil_append, walkBack_eq, hp]
    rfl
  | cons m seg ih =>
    rw [List.cons_append, walkBack_eq, walkBack_eq]
    cases m.expr with
    | param _ _ => rfl
    | text v =>
      simp only
      cases scanText v with
      | stops => rfl
      | comparison rewritten => rfl
      | blank =>
        simp only [ih, Option.map_map]
        rfl

theorem visitUnknown_barrier (hp : p.expr = .param name value) :
    visitUnknown params exprs (seg ++ p :: tail) =
      (p :: tail).reverse ++ visitUnknown params exprs seg := by
  induction exprs generalizing seg with
  | nil => rw [visitUnknown, visitUnknown, List.reverse_append]
  | cons e exprs ih =>
    cases e with
    | text v =>
      rw [visitUnknown, visitUnknown, ← List.cons_append, ih]
    | param name' value' =>
      rw [visitUnknown, visitUnknown, walkBack_barrier hp]
      by_cases hnull : isNull params name' = true
      · rw [if_pos hnull, if_pos hnull]
        cases walkBack seg with
        | none =>
          simp only [Option.map_none]
          rw [← List.cons_append, ih]
        | some ms =>
          simp only [Option.map_some]
          rw [← List.cons_append, ih]
      · rw [if_neg hnull, if_neg hnull, ← List.cons_append, ih]

theorem view_text (ms : List Marked) (hms : ∀ m ∈ ms, ∃ v, m.expr = .text v)
    (more : List Marked) (pieces : List (List Char)) :
    ∃ pieces', view (ms.reverse ++ more) pieces = view more pieces' ∧
      frontText pieces' = frontText pieces ++ markedText ms := by
  induction ms generalizing more with
  | nil => exact ⟨pieces, rfl, (List.append_nil _).symm⟩
  | cons m ms ih =>
    have hrest : ∀ m ∈ ms, ∃ v, m.expr = .text v := fun m hm => hms m (List.mem_cons_of_mem _ hm)
    obtain ⟨v, hv⟩ := hms m List.mem_cons_self
    obtain ⟨pieces', hview, htext⟩ := ih hrest (m :: more)
    have hsplit : (m :: ms).reverse ++ more = ms.reverse ++ m :: more := by simp
    rw [hsplit, hview, view, hv, markedText, hv]
    by_cases hremoved : m.removed = true
    · simp only [if_pos hremoved]
      exact ⟨pieces', rfl, htext⟩
    · simp only [if_neg hremoved]
      exact ⟨v :: pieces', rfl, by rw [frontText_cons, htext, List.append_assoc]⟩

theorem walkBack_texts {ms : List Marked} (h : walkBack seg = some ms)
    (hseg : ∀ m ∈ seg, ∃ v, m.expr = .text v) : ∀ m ∈ ms, ∃ v, m.expr = .text v := by
  induction seg generalizing ms with
  | nil => cases h
  | cons s seg ih =>
    have hrest : ∀ m ∈ seg, ∃ v, m.expr = .text v := fun m hm => hseg m (List.mem_cons_of_mem _ hm)
    obtain ⟨v, hv⟩ := hseg s List.mem_cons_self
    rw [walkBack_eq, hv] at h
    simp only at h
    cases hscan : scanText v with
    | stops =>
      rw [hscan] at h
      cases h
    | comparison rewritten =>
      rw [hscan] at h
      obtain rfl := Option.some.inj h
      intro m hm
      rcases List.mem_cons.1 hm with rfl | hm
      · exact ⟨rewritten, rfl⟩
      · exact hrest m hm
    | blank =>
      rw [hscan] at h
      obtain ⟨ms', hms', rfl⟩ := Option.map_eq_some_iff.1 h
      intro m hm
      rcases List.mem_cons.1 hm with rfl | hm
      · exact ⟨v, rfl⟩
      · exact ih hms' hrest m hm

theorem kept_texts (pieces : List (List Char)) : ∀ m ∈ pieces.map kept, ∃ v, m.expr = .text v := by
  intro m hm
  obtain ⟨v, -, rfl⟩ := List.mem_map.1 hm
  exact ⟨v, rfl⟩

theorem view_param (pieces : List (List Char)) :
    view (visitUnknown params (.param name value :: exprs) (pieces.map kept)) [] =
      (if isNull params name = true then segmentLeft pieces else (frontText pieces, some true)) ::
        view (visitUnknown params exprs []) [] := by
  have hseg : ∀ (ms : List Marked) (removed : Bool), (∀ m ∈ ms, ∃ v, m.expr = .text v) →
      view (visitUnknown params exprs
        ({ expr := .param name value, removed := removed } :: ms)) [] =
          (markedText ms, some !removed) :: view (visitUnknown params exprs []) [] := by
    intro ms removed hms
    have hbarrier := @visitUnknown_barrier params [] ms
      { expr := .param name value, removed := removed } name value exprs rfl
    rw [List.nil_append] at hbarrier
    rw [hbarrier, List.reverse_cons, List.append_assoc]
    obtain ⟨pieces', hview, htext⟩ := view_text ms hms
      ([{ expr := .param name value, removed := removed }] ++ visitUnknown params exprs []) []
    rw [hview, List.singleton_append, view, htext]
    rfl
  rw [visitUnknown]
  by_cases hnull : isNull params name = true
  · rw [if_pos hnull, if_pos hnull, segmentLeft]
    cases hwalk : walkBack (pieces.map kept) with
    | none =>
      simp only
      rw [hseg _ _ (kept_texts pieces), markedText_kept]
      rfl
    | some ms =>
      simp only
      rw [hseg _ _ (walkBack_texts hwalk (kept_texts pieces))]
      rfl
  · rw [if_neg hnull, if_neg hnull, hseg _ _ (kept_texts pieces), markedText_kept]
    rfl

theorem expectedFront_false (pieces : List (List Char)) (operand : Operand) :
    expectedFront pieces false operand = (frontText pieces, some true) := by
  rw [expectedFront]
  simp

theorem texts_iff (hreading : Reading exprs pieces operands) :
    view (visitUnknown params exprs (pieces.map kept)) [] = expected params exprs pieces operands ∧
        NoneLeft params exprs operands ↔ AllAgree params exprs pieces operands := by
  induction exprs generalizing pieces operands with
  | nil =>
    obtain ⟨pieces', hview, htext⟩ := view_text _ (kept_texts pieces) [] []
    rw [List.append_nil] at hview
    refine iff_of_true ⟨?_, trivial⟩ trivial
    rw [visitUnknown, hview, view, htext, expected, markedText_kept]
    rfl
  | cons e exprs ih =>
    cases e with
    | text v => exact @ih (v :: pieces) operands hreading
    | param name value =>
      obtain ⟨operand, others, rfl, hends, hrest⟩ := hreading
      have htail := @ih [] others hrest
      rw [List.map_nil] at htail
      rw [view_param, expected, List.cons.injEq, NoneLeft, AllAgree, ← htail]
      by_cases hnull : isNull params name = true
      · have hsegment := segment_iff hends
        rw [if_pos hnull, hnull]
        simp only [true_implies, ← hsegment]
        clear * -
        tauto
      · rw [if_neg hnull, Bool.eq_false_iff.2 hnull, expectedFront_false]
        simp

end Run

section Modified

variable {params : GdaSet} {exprs : List UnknownExpr} {visited : List Marked}

theorem walkBack_spec {ms : List Marked} (h : walkBack visited = some ms) :
    ms.length = visited.length ∧
      (visited.any Marked.removed = true → ms.any Marked.removed = true) := by
  induction visited generalizing ms with
  | nil => cases h
  | cons m visited ih =>
    rw [walkBack_eq] at h
    split at h
    · split at h
      · cases h
      · obtain rfl := Option.some.inj h
        exact ⟨rfl, id⟩
      · obtain ⟨ms', hms', rfl⟩ := Option.map_eq_some_iff.1 h
        obtain ⟨hlen, -⟩ := ih hms'
        refine ⟨by rw [List.length_cons, List.length_cons, hlen], ?_⟩
        intro _
        simp
    · cases h

theorem visitUnknown_length : (visitUnknown params exprs visited).length =
    visited.length + exprs.length := by
  induction exprs generalizing visited with
  | nil => rw [visitUnknown, List.length_reverse, List.length_nil, Nat.add_zero]
  | cons e exprs ih =>
    cases e with
    | text v =>
      rw [visitUnknown, ih, List.length_cons, List.length_cons]
      omega
    | param name value =>
      rw [visitUnknown]
      split
      · split
        · rename_i ms hms
          rw [ih, List.length_cons, List.length_cons, (walkBack_spec hms).1]
          omega
        · rw [ih, List.length_cons, List.length_cons]
          omega
      · rw [ih, List.length_cons, List.length_cons]
        omega

theorem visitUnknown_removed (h : visited.any Marked.removed = true) :
    (visitUnknown params exprs visited).any Marked.removed = true := by
  induction exprs generalizing visited with
  | nil =>
    rw [visitUnknown, List.any_reverse]
    exact h
  | cons e exprs ih =>
    have hkept : ∀ e : UnknownExpr,
        ({ expr := e, removed := false } :: visited : List Marked).any Marked.removed = true := by
      intro e
      rw [List.any_cons, h, Bool.or_true]
    cases e with
    | text v =>
      rw [visitUnknown]
      exact ih (hkept _)
    | param name value =>
      rw [visitUnknown]
      split
      · split
        · apply ih
          rw [List.any_cons, Bool.true_or]
        · exact ih (hkept _)
      · exact ih (hkept _)

theorem visitUnknown_unchanged
    (h : (visitUnknown params exprs visited).any Marked.removed = false) :
    (visitUnknown params exprs visited).map Marked.expr = visited.reverse.map Marked.expr ++ exprs := by
  induction exprs generalizing visited with
  | nil => rw [visitUnknown, List.append_nil]
  | cons e exprs ih =>
    have hkept : ∀ removed : Bool,
        ({ expr := e, removed } :: visited : List Marked).reverse.map Marked.expr ++ exprs =
          visited.reverse.map Marked.expr ++ e :: exprs := by
      intro removed
      simp
    cases e with
    | text v =>
      rw [visitUnknown] at h ⊢
      rw [ih h, hkept]
    | param name value =>
      rw [visitUnknown] at h ⊢
      split at h
      · rename_i hnull
        rw [if_pos hnull]
        split at h
        · rename_i ms hms
          have hremoved : (visitUnknown params exprs
              ({ expr := .param name value, removed := true } :: ms)).any Marked.removed = true := by
            apply visitUnknown_removed
            rw [List.any_cons, Bool.true_or]
          rw [hremoved] at h
          cases h
        · rw [ih h, hkept]
      · rename_i hnull
        rw [if_neg hnull, ih h, hkept]

theorem markedUnknown_eq (params : GdaSet) (exprs : List UnknownExpr) :
    markedUnknown params exprs = visitUnknown params exprs [] := by
  have hplain : ∀ (exprs : List UnknownExpr) (visited : List Marked), hasNull params = false →
      visitUnknown params exprs visited =
        visited.reverse ++ exprs.map fun expr => { expr, removed := false } := by
    intro exprs
    induction exprs with
    | nil =>
      intro visited _
      rw [visitUnknown, List.map_nil, List.append_nil]
    | cons e exprs ih =>
      intro visited hnull
      have hcons : ({ expr := e, removed := false } :: visited).reverse ++
          (exprs.map fun expr => ({ expr, removed := false } : Marked)) =
            visited.reverse ++ (e :: exprs).map fun expr => { expr, removed := false } := by
        simp
      cases e with
      | text v => rw [visitUnknown, ih _ hnull, hcons]
      | param name value =>
        rw [visitUnknown, isNull_of_not_hasNull hnull]
        simp only [Bool.false_eq_true, if_false]
        rw [ih _ hnull, hcons]
  rw [markedUnknown]
  by_cases hnull : hasNull params = true
  · rw [if_pos hnull]
  · rw [if_neg hnull, hplain exprs [] (Bool.eq_false_iff.2 hnull)]
    rfl

theorem rewriteUnknown_modified (params : GdaSet) (exprs : List UnknownExpr) :
    (rewriteUnknown params exprs).2 = true ↔ (rewriteUnknown params exprs).1 ≠ exprs := by
  rw [rewriteUnknown, markedUnknown_eq]
  simp only
  have hlen := @visitUnknown_length params exprs []
  have hunchanged := @visitUnknown_unchanged params exprs []
  generalize visitUnknown params exprs [] = marked at hlen hunchanged
  by_cases hany : marked.any Marked.removed = true
  · refine iff_of_true hany ?_
    intro heq
    have hlen' := congrArg List.length heq
    rw [List.length_map] at hlen'
    have hall : (marked.filter fun m => !m.removed).length = marked.length := by
      rw [hlen', hlen]
      simp
    have hkept := List.length_filter_eq_length_iff.1 hall
    obtain ⟨m, hm, hremoved⟩ := List.any_eq_true.1 hany
    have hm' := hkept m hm
    rw [hremoved] at hm'
    cases hm'
  · refine iff_of_false hany ?_
    rw [not_not]
    have hnone := Bool.eq_false_iff.2 hany
    have hfilter : (marked.filter fun m => !m.removed) = marked := by
      rw [List.filter_eq_self]
      intro m hm
      have hm' := List.any_eq_false.1 hnone m hm
      simp [hm']
    rw [hfilter, hunchanged hnone]
    rfl

end Modified

section Contract

inductive Statement where
  | parsed (s : ParsedStatement)
  | unknown (s : UnknownStatement)

/-- The comparisons with a NULL parameter are changed, nothing else is, and it is reported whether
something changed. -/
def Rewritten (params : GdaSet) : Statement → Prop
  | .parsed s => (rewriteParsed params s).1 = s.contents.law params ∧
    ((rewriteParsed params s).2 = true ↔ s.contents.law params ≠ s.contents)
  | .unknown s => UnknownRewritten params s

def Recognized (params : GdaSet) : Statement → Prop
  | .parsed _ => True
  | .unknown s => AllAgree params s.exprs [] s.operands

/-- A parsed statement is always rewritten as it has to be, an unknown one exactly when each NULL
parameter is the right operand of an `=` or of the only `!=`. -/
theorem nullParameters_contract (params : GdaSet) (s : Statement) :
    Rewritten params s ↔ Recognized params s := by
  cases s with
  | parsed s => exact iff_of_true (rewriteParsed_law params s) trivial
  | unknown s =>
    have htexts := @texts_iff params s.exprs [] s.operands s.reading
    rw [List.map_nil, ← markedUnknown_eq] at htexts
    constructor
    · rintro ⟨htext, hleft, -⟩
      exact htexts.1 ⟨htext, hleft⟩
    · intro hagree
      obtain ⟨htext, hleft⟩ := htexts.2 hagree
      exact ⟨htext, hleft, rewriteUnknown_modified params s.exprs⟩

def lessOrEqual : UnknownStatement where
  exprs := [.text ['a'], .text ['<', '='], .param "p" none]
  operands := [{ right := none, left := false }]
  reading := ⟨_, _, rfl, nofun, rfl⟩

/-- `a <= ##p` becomes `a < IS NULL`. -/
theorem lessOrEqual_rewritten :
    ¬ ∀ (params : GdaSet) (s : Statement), Rewritten params s := by
  intro h
  have htexts := (h [{ id := "p", value := .null }] (.unknown lessOrEqual)).texts
  have hhead := congrArg List.head? htexts
  cases hhead

end Contract

end LibGda.NullParams
