import LibGda.NullParameters

/-! The comparisons of a parsed statement: both passes change exactly those with a NULL parameter. -/

namespace LibGda.NullParams.Part

variable {params : GdaSet} {kind : PartKind} {ptr c : Nat} {parts : List Part} {p : Part}
  {exprList l : List Nat} {op : SqlOperator}

def isNullParam (params : GdaSet) : Part → Bool
  | node _ (.expr (some name) _) _ => isNull params name
  | _ => false

def nulledOperand (params : GdaSet) : PartKind → List Part → Option Nat
  | .operation op, [a, b] =>
    if IsComparison op then
      if a.isNullParam params then some 0 else if b.isNullParam params then some 1 else none
    else none
  | _, _ => none

def nulledKind : PartKind → PartKind
  | .operation op => .operation (nullOperator op)
  | kind => kind

mutual

def law (params : GdaSet) : Part → Part
  | node ptr kind parts =>
    match nulledOperand params kind parts with
    | some k => node ptr (nulledKind kind) ((lawOf params parts).eraseIdx k)
    | none => node ptr kind (lawOf params parts)

def lawOf (params : GdaSet) : List Part → List Part
  | [] => []
  | part :: parts => part.law params :: lawOf params parts

end

mutual

def marks (params : GdaSet) : Part → List Nat
  | node _ kind parts =>
    marksOf params parts ++
      match nulledOperand params kind parts with
      | some k => (parts.map Part.ptr)[k]?.toList
      | none => []

def marksOf (params : GdaSet) : List Part → List Nat
  | [] => []
  | part :: parts => part.marks params ++ marksOf params parts

end

section Pointers

theorem ptr_mem_ptrs (p : Part) : p.ptr ∈ p.ptrs := by
  cases p with
  | node ptr kind parts =>
    rw [ptrs]
    exact List.mem_cons_self

theorem mem_ptrsOf {x : Nat} : x ∈ ptrsOf parts ↔ ∃ p ∈ parts, x ∈ p.ptrs := by
  induction parts with
  | nil => simp [ptrsOf]
  | cons p parts ih => simp [ptrsOf, ih]

theorem mem_marksOf {x : Nat} : x ∈ marksOf params parts ↔ ∃ p ∈ parts, x ∈ p.marks params := by
  induction parts with
  | nil => simp [marksOf]
  | cons p parts ih => simp [marksOf, ih]

theorem mem_nulled {x : Nat} (h : x ∈ (match nulledOperand params kind parts with
    | some k => (parts.map Part.ptr)[k]?.toList
    | none => [])) : ∃ p ∈ parts, p.ptr = x := by
  cases hk : nulledOperand params kind parts with
  | none =>
    rw [hk] at h
    cases h
  | some k =>
    rw [hk] at h
    simp only [Option.mem_toList] at h
    exact List.mem_map.1 (List.mem_of_getElem? h)

theorem nulledOperand_some {k : Nat} (h : nulledOperand params kind parts = some k) :
    ∃ op a b, kind = .operation op ∧ parts = [a, b] ∧ (k = 0 ∨ k = 1) := by
  rw [nulledOperand.eq_def] at h
  split at h
  · rename_i op a b
    refine ⟨op, a, b, rfl, rfl, ?_⟩
    split at h
    · split at h
      · exact Or.inl (Option.some.inj h).symm
      · split at h
        · exact Or.inr (Option.some.inj h).symm
        · cases h
    · cases h
  · cases h

mutual

theorem marks_subset (p : Part) : ∀ x ∈ p.marks params, x ∈ ptrsOf p.parts := by
  cases p with
  | node ptr kind parts =>
    intro x hx
    rw [marks, List.mem_append] at hx
    rcases hx with hinner | hown
    · exact marksOf_subset parts x hinner
    · obtain ⟨q, hq, rfl⟩ := mem_nulled hown
      exact mem_ptrsOf.2 ⟨q, hq, ptr_mem_ptrs q⟩

theorem marksOf_subset (parts : List Part) : ∀ x ∈ marksOf params parts, x ∈ ptrsOf parts := by
  cases parts with
  | nil =>
    intro x hx
    cases hx
  | cons p parts =>
    intro x hx
    rw [marksOf, List.mem_append] at hx
    rw [ptrsOf, List.mem_append]
    rcases hx with hfirst | hrest
    · refine Or.inl ?_
      have hinner := marks_subset p x hfirst
      cases p with
      | node ptr kind inner =>
        rw [ptrs]
        exact List.mem_cons_of_mem _ hinner
    · exact Or.inr (marksOf_subset parts x hrest)

end

theorem ptrs_eq (p : Part) : p.ptrs = p.ptr :: ptrsOf p.parts := by
  cases p with
  | node ptr kind parts =>
    rw [ptrs]
    rfl

theorem unique_part (hnodup : (ptrsOf parts).Nodup) {p q : Part} {x : Nat} (hp : p ∈ parts)
    (hq : q ∈ parts) (hxp : x ∈ p.ptrs) (hxq : x ∈ q.ptrs) : p = q := by
  induction parts with
  | nil => cases hp
  | cons r parts ih =>
    rw [ptrsOf, List.nodup_append] at hnodup
    obtain ⟨-, hrest, hapart⟩ := hnodup
    have happart : ∀ s ∈ parts, x ∈ s.ptrs → x ∉ r.ptrs := by
      intro s hs hxs hxr
      exact hapart x hxr x (mem_ptrsOf.2 ⟨s, hs, hxs⟩) rfl
    rcases List.mem_cons.1 hp with rfl | hp'
    · rcases List.mem_cons.1 hq with rfl | hq'
      · rfl
      · exact absurd hxp (happart q hq' hxq)
    · rcases List.mem_cons.1 hq with rfl | hq'
      · exact absurd hxq (happart p hp' hxp)
      · exact ih hrest hp' hq'

theorem nodup_part (hnodup : (ptrsOf parts).Nodup) (hp : p ∈ parts) : p.ptrs.Nodup := by
  induction parts with
  | nil => cases hp
  | cons r parts ih =>
    rw [ptrsOf, List.nodup_append] at hnodup
    rcases List.mem_cons.1 hp with rfl | hp
    · exact hnodup.1
    · exact ih hnodup.2.1 hp

end Pointers

section Remove

@[simp] theorem ptr_remove (p : Part) : (p.remove c).ptr = p.ptr := by
  cases p with
  | node ptr kind parts =>
    rw [remove]
    split
    · split
      · rfl
      · rfl
    · rfl

theorem removeIn_eq (parts : List Part) : removeIn c parts = parts.map (remove c) := by
  induction parts with
  | nil => rfl
  | cons p parts ih => rw [removeIn, ih, List.map_cons]

theorem map_ptr_remove (parts : List Part) :
    (parts.map (remove c)).map Part.ptr = parts.map Part.ptr := by
  rw [List.map_map]
  apply List.map_congr_left
  intro p _
  exact ptr_remove p

theorem remove_inner (h : ∀ op, kind = .operation op → c ∉ parts.map Part.ptr) :
    (node ptr kind parts).remove c = node ptr kind (parts.map (remove c)) := by
  rw [remove, ← removeIn_eq]
  cases kind with
  | operation op => simp only [operationOf, if_neg (h op rfl)]
  | expr paramSpec value => rfl
  | other contents => rfl

theorem remove_operand (h : c ∈ parts.map Part.ptr) :
    (node ptr (.operation op) parts).remove c =
      node ptr (.operation (nullOperator op)) (parts.filter fun p => p.ptr ≠ c) := by
  rw [remove]
  simp only [operationOf, if_pos h]

mutual

theorem remove_of_not_mem (p : Part) (h : c ∉ p.ptrs) : p.remove c = p := by
  cases p with
  | node ptr kind parts =>
    rw [ptrs, List.mem_cons, not_or] at h
    have hptr : c ∉ parts.map Part.ptr := by
      intro hmem
      obtain ⟨q, hq, rfl⟩ := List.mem_map.1 hmem
      exact h.2 (mem_ptrsOf.2 ⟨q, hq, ptr_mem_ptrs q⟩)
    rw [remove_inner fun _ _ => hptr, removeAll_of_not_mem parts h.2]

theorem removeAll_of_not_mem (parts : List Part) (h : c ∉ ptrsOf parts) :
    parts.map (remove c) = parts := by
  cases parts with
  | nil => rfl
  | cons p parts =>
    rw [ptrsOf, List.mem_append, not_or] at h
    rw [List.map_cons, remove_of_not_mem p h.1, removeAll_of_not_mem parts h.2]

end

mutual

theorem ptrs_remove (p : Part) : ∀ x ∈ (p.remove c).ptrs, x ∈ p.ptrs := by
  cases p with
  | node ptr kind parts =>
    intro x hx
    have hinner : x ∈ (node ptr kind (parts.map (remove c))).ptrs → x ∈ (node ptr kind parts).ptrs := by
      intro hx
      rw [ptrs, List.mem_cons] at hx ⊢
      rcases hx with hx | hx
      · exact Or.inl hx
      · exact Or.inr (ptrsOf_remove parts x hx)
    by_cases hc : c ∈ parts.map Part.ptr
    · cases kind with
      | operation op =>
        rw [remove_operand hc, ptrs, List.mem_cons] at hx
        rw [ptrs, List.mem_cons]
        rcases hx with hx | hx
        · exact Or.inl hx
        · obtain ⟨q, hq, hxq⟩ := mem_ptrsOf.1 hx
          exact Or.inr (mem_ptrsOf.2 ⟨q, (List.mem_filter.1 hq).1, hxq⟩)
      | expr paramSpec value =>
        rw [remove_inner (fun _ hkind => by cases hkind)] at hx
        exact hinner hx
      | other contents =>
        rw [remove_inner (fun _ hkind => by cases hkind)] at hx
        exact hinner hx
    · rw [remove_inner fun _ _ => hc] at hx
      exact hinner hx

theorem ptrsOf_remove (parts : List Part) :
    ∀ x ∈ ptrsOf (parts.map (remove c)), x ∈ ptrsOf parts := by
  cases parts with
  | nil =>
    intro x hx
    exact hx
  | cons p parts =>
    intro x hx
    rw [List.map_cons, ptrsOf, List.mem_append] at hx
    rw [ptrsOf, List.mem_append]
    rcases hx with hx | hx
    · exact Or.inl (ptrs_remove p x hx)
    · exact Or.inr (ptrsOf_remove parts x hx)

end

def removeAll (l : List Nat) (p : Part) : Part := l.foldl (fun part expr => part.remove expr) p

theorem removeAll_inner (h : ∀ op, kind = .operation op → ∀ x ∈ l, x ∉ parts.map Part.ptr) :
    removeAll l (node ptr kind parts) = node ptr kind (parts.map (removeAll l)) := by
  induction l generalizing parts with
  | nil =>
    rw [removeAll, List.foldl_nil]
    congr 1
    exact (List.map_id'' (fun _ => rfl) parts).symm
  | cons c l ih =>
    have hc : ∀ op, kind = .operation op → c ∉ parts.map Part.ptr :=
      fun op hkind => h op hkind c List.mem_cons_self
    have hrest : ∀ op, kind = .operation op →
        ∀ x ∈ l, x ∉ (parts.map (remove c)).map Part.ptr := by
      intro op hkind x hx
      rw [map_ptr_remove]
      exact h op hkind x (List.mem_cons_of_mem _ hx)
    have hstep : removeAll (c :: l) (node ptr kind parts) =
        removeAll l ((node ptr kind parts).remove c) := rfl
    rw [hstep, remove_inner hc, ih hrest, List.map_map]
    rfl

theorem removeAll_operand (hc : c ∈ parts.map Part.ptr) (hl : c ∈ l)
    (honly : ∀ x ∈ l, x ∈ parts.map Part.ptr → x = c)
    (happart : ∀ q ∈ parts, q.ptr ≠ c → c ∉ q.ptrs) :
    removeAll l (node ptr (.operation op) parts) =
      node ptr (.operation (nullOperator op))
        ((parts.filter fun p => p.ptr ≠ c).map (removeAll l)) := by
  induction l generalizing parts with
  | nil => cases hl
  | cons x l ih =>
    have hstep : removeAll (x :: l) (node ptr (.operation op) parts) =
        removeAll l ((node ptr (.operation op) parts).remove x) := rfl
    by_cases hx : x = c
    · subst hx
      have hgone : ∀ op', PartKind.operation (nullOperator op) = .operation op' →
          ∀ y ∈ l, y ∉ (parts.filter fun p => p.ptr ≠ x).map Part.ptr := by
        intro op' _ y hy hmem
        obtain ⟨q, hq, rfl⟩ := List.mem_map.1 hmem
        obtain ⟨hqmem, hqne⟩ := List.mem_filter.1 hq
        have heq := honly q.ptr (List.mem_cons_of_mem _ hy) (List.mem_map.2 ⟨q, hqmem, rfl⟩)
        exact (of_decide_eq_true hqne) heq
      rw [hstep, remove_operand hc, removeAll_inner hgone]
      congr 1
      apply List.map_congr_left
      intro q hq
      obtain ⟨hqmem, hqne⟩ := List.mem_filter.1 hq
      have hnot := happart q hqmem (of_decide_eq_true hqne)
      have hq' : removeAll (x :: l) q = removeAll l (q.remove x) := rfl
      rw [hq', remove_of_not_mem q hnot]
    · have hnot : x ∉ parts.map Part.ptr := by
        intro hmem
        exact hx (honly x List.mem_cons_self hmem)
      have hl' : c ∈ l := by
        rcases List.mem_cons.1 hl with heq | hl'
        · exact absurd heq.symm hx
        · exact hl'
      have honly' : ∀ y ∈ l, y ∈ (parts.map (remove x)).map Part.ptr → y = c := by
        intro y hy hmem
        rw [map_ptr_remove] at hmem
        exact honly y (List.mem_cons_of_mem _ hy) hmem
      have happart' : ∀ q ∈ parts.map (remove x), q.ptr ≠ c → c ∉ q.ptrs := by
        intro q hq hqne hmem
        obtain ⟨r, hr, rfl⟩ := List.mem_map.1 hq
        rw [ptr_remove] at hqne
        exact happart r hr hqne (ptrs_remove r c hmem)
      have hc' : c ∈ (parts.map (remove x)).map Part.ptr := by
        rw [map_ptr_remove]
        exact hc
      rw [hstep, remove_inner fun _ _ => hnot, ih hc' hl' honly' happart', List.filter_map,
        List.map_map]
      have hptr : ((fun p : Part => decide (p.ptr ≠ c)) ∘ remove x) =
          fun p : Part => decide (p.ptr ≠ c) := by
        funext q
        simp only [Function.comp_apply, ptr_remove]
      rw [hptr]
      rfl

end Remove

section Visit

variable {parent : Option (SqlOperator × List Nat)} {x : Nat}

theorem nullParamFunc_other (h : ∀ op operands, parent = some (op, operands) → ¬ IsComparison op) :
    nullParamFunc params parent ptr kind exprList = exprList := by
  cases kind with
  | expr paramSpec value =>
    cases paramSpec with
    | none => rfl
    | some name =>
      cases parent with
      | none => rfl
      | some operation =>
        obtain ⟨op, operands⟩ := operation
        rw [nullParamFunc, if_neg]
        intro hop
        exact h op operands rfl hop.1
  | operation type => rfl
  | other contents => rfl

theorem nullParamFunc_comparison (hop : IsComparison op) {operands : List Nat} {o : Nat}
    (ho : otherOperand operands p.ptr = some o) :
    nullParamFunc params (some (op, operands)) p.ptr p.kind exprList =
      if p.isNullParam params = true ∧ o ∉ exprList then p.ptr :: exprList else exprList := by
  cases p with
  | node ptr kind parts =>
    cases kind with
    | expr paramSpec value =>
      cases paramSpec with
      | none => simp [nullParamFunc, Part.kind, isNullParam]
      | some name =>
        have ho' : otherOperand operands ptr = some o := ho
        by_cases hnull : isNull params name = true
        · by_cases hmem : o ∈ exprList
          · simp [nullParamFunc, Part.kind, Part.ptr, isNullParam, hop, hnull, ho', hmem]
          · simp [nullParamFunc, Part.kind, Part.ptr, isNullParam, hop, hnull, ho', hmem]
        · simp [nullParamFunc, Part.kind, isNullParam, hnull]
    | operation type => simp [nullParamFunc, Part.kind, isNullParam]
    | other contents => simp [nullParamFunc, Part.kind, isNullParam]

theorem visit_eq (p : Part) : visit params parent p exprList =
    nullParamFunc params parent p.ptr p.kind
      (visitAll params (operationOf p.kind p.parts) p.parts exprList) := by
  cases p with
  | node ptr kind parts => rw [visit, Part.ptr, Part.kind, Part.parts]

theorem visit_operands {a b : Part} (hop : IsComparison op) (hnodup : (ptrsOf [a, b]).Nodup)
    (hfresh : ∀ x ∈ ptrsOf [a, b], x ∉ exprList)
    (ha : ∀ x l, (∀ y ∈ a.ptrs, y ∉ l) →
      (x ∈ visitAll params (operationOf a.kind a.parts) a.parts l ↔ x ∈ l ∨ x ∈ a.marks params))
    (hb : ∀ x l, (∀ y ∈ b.ptrs, y ∉ l) →
      (x ∈ visitAll params (operationOf b.kind b.parts) b.parts l ↔ x ∈ l ∨ x ∈ b.marks params)) :
    x ∈ visitAll params (some (op, [a.ptr, b.ptr])) [a, b] exprList ↔
      x ∈ exprList ∨ x ∈ marksOf params [a, b] ∨
        x ∈ (match nulledOperand params (.operation op) [a, b] with
          | some k => ([a, b].map Part.ptr)[k]?.toList
          | none => []) := by
  have hptrs : ptrsOf [a, b] = a.ptrs ++ b.ptrs := by simp [ptrsOf]
  rw [hptrs] at hnodup hfresh
  obtain ⟨hna, hnb, hapart⟩ := List.nodup_append.1 hnodup
  have hne : a.ptr ≠ b.ptr := hapart _ (ptr_mem_ptrs a) _ (ptr_mem_ptrs b)
  have hoa : otherOperand [a.ptr, b.ptr] a.ptr = some b.ptr := by simp [otherOperand]
  have hob : otherOperand [a.ptr, b.ptr] b.ptr = some a.ptr := by simp [otherOperand, hne]
  have hmarksa : ∀ y ∈ a.marks params, y ∈ a.ptrs ∧ y ≠ a.ptr := by
    intro y hy
    have hin := marks_subset a y hy
    rw [ptrs_eq] at hna ⊢
    refine ⟨List.mem_cons_of_mem _ hin, ?_⟩
    rintro rfl
    exact (List.nodup_cons.1 hna).1 hin
  have hmarksb : ∀ y ∈ b.marks params, y ∈ b.ptrs := by
    intro y hy
    rw [ptrs_eq]
    exact List.mem_cons_of_mem _ (marks_subset b y hy)
  have hfresha : ∀ y ∈ a.ptrs, y ∉ exprList := fun y hy => hfresh y (List.mem_append_left _ hy)
  have hfreshb : ∀ y ∈ b.ptrs, y ∉ exprList := fun y hy => hfresh y (List.mem_append_right _ hy)
  -- after the parts of `a`
  generalize hl₁ : visitAll params (operationOf a.kind a.parts) a.parts exprList = l₁
  have hmem₁ : ∀ y, y ∈ l₁ ↔ y ∈ exprList ∨ y ∈ a.marks params := by
    intro y
    rw [← hl₁]
    exact ha y exprList hfresha
  have hb₁ : ∀ y ∈ b.ptrs, y ∉ l₁ := by
    intro y hy hmem
    rcases (hmem₁ y).1 hmem with hmem | hmem
    · exact hfreshb y hy hmem
    · exact hapart y (hmarksa y hmem).1 y hy rfl
  have ha₁ : a.ptr ∉ l₁ := by
    intro hmem
    rcases (hmem₁ _).1 hmem with hmem | hmem
    · exact hfresha _ (ptr_mem_ptrs a) hmem
    · exact (hmarksa _ hmem).2 rfl
  -- after `a`
  generalize hl₂ : visit params (some (op, [a.ptr, b.ptr])) a exprList = l₂
  have hmem₂ : ∀ y, y ∈ l₂ ↔ y ∈ l₁ ∨ (y = a.ptr ∧ a.isNullParam params = true) := by
    intro y
    rw [← hl₂, visit_eq, hl₁, nullParamFunc_comparison hop hoa]
    by_cases hnull : a.isNullParam params = true
    · rw [if_pos ⟨hnull, hb₁ _ (ptr_mem_ptrs b)⟩, List.mem_cons]
      simp only [hnull, and_true]
      exact or_comm
    · rw [if_neg (fun h => hnull h.1)]
      simp [hnull]
  have hb₂ : ∀ y ∈ b.ptrs, y ∉ l₂ := by
    intro y hy hmem
    rcases (hmem₂ y).1 hmem with hmem | ⟨rfl, -⟩
    · exact hb₁ y hy hmem
    · exact hapart _ (ptr_mem_ptrs a) _ hy rfl
  -- after the parts of `b`
  generalize hl₃ : visitAll params (operationOf b.kind b.parts) b.parts l₂ = l₃
  have hmem₃ : ∀ y, y ∈ l₃ ↔ y ∈ l₂ ∨ y ∈ b.marks params := by
    intro y
    rw [← hl₃]
    exact hb y l₂ hb₂
  have ha₃ : a.ptr ∈ l₃ ↔ a.isNullParam params = true := by
    rw [hmem₃, hmem₂]
    constructor
    · rintro ((hmem | ⟨-, hnull⟩) | hmem)
      · exact absurd hmem ha₁
      · exact hnull
      · exact absurd rfl (hapart _ (ptr_mem_ptrs a) _ (hmarksb _ hmem))
    · intro hnull
      exact Or.inl (Or.inr ⟨rfl, hnull⟩)
  have hlast : x ∈ visitAll params (some (op, [a.ptr, b.ptr])) [a, b] exprList ↔
      x ∈ l₃ ∨ (x = b.ptr ∧ b.isNullParam params = true ∧ a.isNullParam params = false) := by
    rw [visitAll, visitAll, visitAll, hl₂, visit_eq, hl₃, nullParamFunc_comparison hop hob]
    by_cases hnull : b.isNullParam params = true ∧ a.ptr ∉ l₃
    · have hanull : a.isNullParam params = false := by
        rw [Bool.eq_false_iff]
        exact fun h => hnull.2 (ha₃.2 h)
      rw [if_pos hnull, List.mem_cons]
      simp only [hnull.1, hanull, and_true]
      exact or_comm
    · rw [if_neg hnull]
      constructor
      · exact Or.inl
      · rintro (hmem | ⟨-, hbnull, hanull⟩)
        · exact hmem
        · refine absurd ⟨hbnull, ?_⟩ hnull
          rw [ha₃, hanull]
          exact Bool.false_ne_true
  have hown : x ∈ (match nulledOperand params (.operation op) [a, b] with
      | some k => ([a, b].map Part.ptr)[k]?.toList
      | none => []) ↔ x = a.ptr ∧ a.isNullParam params = true ∨
        x = b.ptr ∧ b.isNullParam params = true ∧ a.isNullParam params = false := by
    simp only [nulledOperand, if_pos hop]
    cases a.isNullParam params with
    | true => simp
    | false =>
      cases b.isNullParam params with
      | true => simp
      | false => simp
  have hmarks : marksOf params [a, b] = a.marks params ++ b.marks params := by simp [marksOf]
  rw [hlast, hmem₃, hmem₂, hmem₁, hown, hmarks, List.mem_append]
  clear * -
  tauto

mutual

theorem mem_visitAll (p : Part) : ∀ (x : Nat) (exprList : List Nat), p.ptrs.Nodup → p.Binary →
    (∀ y ∈ p.ptrs, y ∉ exprList) →
      (x ∈ visitAll params (operationOf p.kind p.parts) p.parts exprList ↔
        x ∈ exprList ∨ x ∈ p.marks params) := by
  cases p with
  | node ptr kind parts =>
    intro x exprList hnodup hbinary hfresh
    rw [ptrs, List.nodup_cons] at hnodup
    rw [Binary] at hbinary
    have hfresh' : ∀ y ∈ ptrsOf parts, y ∉ exprList := by
      intro y hy
      apply hfresh
      rw [ptrs]
      exact List.mem_cons_of_mem _ hy
    by_cases hcomparison : ∃ op, kind = .operation op ∧ IsComparison op
    · obtain ⟨op, rfl, hop⟩ := hcomparison
      have hlen := hbinary.1 op rfl hop
      match parts, hlen with
      | [a, b], _ =>
        have hbin := hbinary.2
        simp only [BinaryOf, and_true] at hbin
        have hna := nodup_part hnodup.2 List.mem_cons_self
        have hnb : b.ptrs.Nodup := nodup_part hnodup.2 (List.mem_cons_of_mem _ List.mem_cons_self)
        rw [marks, List.mem_append]
        exact visit_operands hop hnodup.2 hfresh'
          (fun x l hl => mem_visitAll a x l hna hbin.1 hl)
          (fun x l hl => mem_visitAll b x l hnb hbin.2 hl)
    · have hother : ∀ op operands, operationOf kind parts = some (op, operands) →
          ¬ IsComparison op := by
        intro op operands hparent hop
        cases kind with
        | operation type =>
          obtain ⟨rfl, -⟩ := Prod.mk.inj (Option.some.inj hparent)
          exact hcomparison ⟨_, rfl, hop⟩
        | expr paramSpec value => cases hparent
        | other contents => cases hparent
      have hnone : nulledOperand params kind parts = none := by
        cases kind with
        | operation op =>
          have hop : ¬ IsComparison op := fun hop => hcomparison ⟨op, rfl, hop⟩
          rw [nulledOperand.eq_def]
          split
          · rename_i heq
            obtain rfl := PartKind.operation.inj heq
            rw [if_neg hop]
          · rfl
        | expr paramSpec value => rfl
        | other contents => rfl
      have hmarks : (node ptr kind parts).marks params = marksOf params parts := by
        rw [marks, hnone, List.append_nil]
      rw [hmarks]
      exact mem_visitList parts x exprList (operationOf kind parts) hother hnodup.2 hbinary.2 hfresh'

theorem mem_visitList (parts : List Part) : ∀ (x : Nat) (exprList : List Nat)
    (parent : Option (SqlOperator × List Nat)),
    (∀ op operands, parent = some (op, operands) → ¬ IsComparison op) → (ptrsOf parts).Nodup →
      BinaryOf parts → (∀ y ∈ ptrsOf parts, y ∉ exprList) →
        (x ∈ visitAll params parent parts exprList ↔ x ∈ exprList ∨ x ∈ marksOf params parts) := by
  cases parts with
  | nil =>
    intro x exprList parent _ _ _ _
    simp [visitAll, marksOf]
  | cons p parts =>
    intro x exprList parent hother hnodup hbinary hfresh
    rw [ptrsOf, List.nodup_append] at hnodup
    obtain ⟨hnp, hnrest, hapart⟩ := hnodup
    rw [BinaryOf] at hbinary
    have hfreshp : ∀ y ∈ p.ptrs, y ∉ exprList := by
      intro y hy
      apply hfresh
      rw [ptrsOf]
      exact List.mem_append_left _ hy
    have hfirst : ∀ y, y ∈ visit params parent p exprList ↔
        y ∈ exprList ∨ y ∈ p.marks params := by
      intro y
      rw [visit_eq, nullParamFunc_other hother]
      exact mem_visitAll p y exprList hnp hbinary.1 hfreshp
    have hfreshrest : ∀ y ∈ ptrsOf parts, y ∉ visit params parent p exprList := by
      intro y hy hmem
      rcases (hfirst y).1 hmem with hmem | hmem
      · apply hfresh y _ hmem
        rw [ptrsOf]
        exact List.mem_append_right _ hy
      · have hin : y ∈ p.ptrs := by
          rw [ptrs_eq]
          exact List.mem_cons_of_mem _ (marks_subset p y hmem)
        exact hapart y hin y hy rfl
    rw [visitAll, mem_visitList parts x _ parent hother hnrest hbinary.2 hfreshrest, hfirst,
      marksOf, List.mem_append, or_assoc]

end

mutual

theorem visit_of_not_hasNull (p : Part) (hnull : hasNull params = false) :
    ∀ (parent : Option (SqlOperator × List Nat)) (l : List Nat), visit params parent p l = l := by
  cases p with
  | node ptr kind parts =>
    intro parent l
    rw [visit, visitAll_of_not_hasNull parts hnull]
    cases kind with
    | expr paramSpec value =>
      cases paramSpec with
      | none => rfl
      | some name =>
        cases parent with
        | none => rfl
        | some operation =>
          obtain ⟨op, operands⟩ := operation
          rw [nullParamFunc, if_neg]
          rw [isNull_of_not_hasNull hnull]
          simp
    | operation type => rfl
    | other contents => rfl

theorem visitAll_of_not_hasNull (parts : List Part) (hnull : hasNull params = false) :
    ∀ (parent : Option (SqlOperator × List Nat)) (l : List Nat),
      visitAll params parent parts l = l := by
  cases parts with
  | nil =>
    intro parent l
    rw [visitAll]
  | cons p parts =>
    intro parent l
    rw [visitAll, visit_of_not_hasNull p hnull, visitAll_of_not_hasNull parts hnull]

end

end Visit

section Law

mutual

theorem removeAll_law (p : Part) (hnodup : p.ptrs.Nodup)
    (hl : ∀ x ∈ ptrsOf p.parts, x ∈ l ↔ x ∈ p.marks params) : removeAll l p = p.law params := by
  cases p with
  | node ptr kind parts =>
    rw [ptrs, List.nodup_cons] at hnodup
    have hnodup' := hnodup.2
    change ∀ x ∈ ptrsOf parts, _ at hl
    have hchild : ∀ q ∈ parts, q.ptr ∉ marksOf params parts := by
      intro q hq hmem
      obtain ⟨r, hr, hmarked⟩ := mem_marksOf.1 hmem
      have hin := marks_subset r _ hmarked
      have hrptrs : q.ptr ∈ r.ptrs := by
        rw [ptrs_eq]
        exact List.mem_cons_of_mem _ hin
      obtain rfl := unique_part hnodup' hq hr (ptr_mem_ptrs q) hrptrs
      have hnq := nodup_part hnodup' hq
      rw [ptrs_eq] at hnq
      exact (List.nodup_cons.1 hnq).1 hin
    have hinner : parts.map (removeAll l) = lawOf params parts := by
      apply removeAll_lawOf parts hnodup'
      intro q hq x hx
      have hxq : x ∈ q.ptrs := by
        rw [ptrs_eq]
        exact List.mem_cons_of_mem _ hx
      rw [hl x (mem_ptrsOf.2 ⟨q, hq, hxq⟩), marks, List.mem_append, mem_marksOf]
      constructor
      · rintro (⟨r, hr, hmarked⟩ | hown)
        · have hrptrs : x ∈ r.ptrs := by
            rw [ptrs_eq]
            exact List.mem_cons_of_mem _ (marks_subset r x hmarked)
          obtain rfl := unique_part hnodup' hq hr hxq hrptrs
          exact hmarked
        · obtain ⟨r, hr, rfl⟩ := mem_nulled hown
          obtain rfl := unique_part hnodup' hq hr hxq (ptr_mem_ptrs r)
          have hnq := nodup_part hnodup' hq
          rw [ptrs_eq] at hnq
          exact absurd hx (List.nodup_cons.1 hnq).1
      · intro hmarked
        exact Or.inl ⟨q, hq, hmarked⟩
    have hown : ∀ q ∈ parts, q.ptr ∈ l ↔ q.ptr ∈ (match nulledOperand params kind parts with
        | some k => (parts.map Part.ptr)[k]?.toList
        | none => []) := by
      intro q hq
      rw [hl _ (mem_ptrsOf.2 ⟨q, hq, ptr_mem_ptrs q⟩), marks, List.mem_append]
      constructor
      · rintro (hmem | hmem)
        · exact absurd hmem (hchild q hq)
        · exact hmem
      · exact Or.inr
    rw [law]
    cases hk : nulledOperand params kind parts with
    | none =>
      rw [removeAll_inner, hinner]
      intro op _ x hx hmem
      obtain ⟨q, hq, rfl⟩ := List.mem_map.1 hmem
      have hnone := (hown q hq).1 hx
      rw [hk] at hnone
      cases hnone
    | some k =>
      obtain ⟨op, a, b, rfl, rfl, hcases⟩ := nulledOperand_some hk
      have hne : a.ptr ≠ b.ptr := by
        intro heq
        simp only [ptrsOf, List.append_nil, List.nodup_append] at hnodup'
        exact hnodup'.2.2 _ (ptr_mem_ptrs a) _ (ptr_mem_ptrs b) heq
      have happart : ∀ c ∈ [a, b], ∀ q ∈ [a, b], q.ptr ≠ c.ptr → c.ptr ∉ q.ptrs := by
        intro c hc q hq hqc hmem
        obtain rfl := unique_part hnodup' hc hq (ptr_mem_ptrs c) hmem
        exact hqc rfl
      rw [← hinner]
      rw [hk] at hown
      rcases hcases with rfl | rfl
      · have hla : a.ptr ∈ l := (hown a (by simp)).2 (by simp)
        have hlb : b.ptr ∉ l := by
          intro hmem
          have hb := (hown b (by simp)).1 hmem
          simp only [List.map_cons, List.getElem?_cons_zero, Option.toList_some,
            List.mem_singleton] at hb
          exact hne hb.symm
        rw [removeAll_operand (c := a.ptr) (by simp) hla ?_ (happart a (by simp))]
        · simp [nulledKind, Ne.symm hne]
        · intro x hx hmem
          simp only [List.map_cons, List.map_nil, List.mem_cons, List.not_mem_nil, or_false] at hmem
          rcases hmem with rfl | rfl
          · rfl
          · exact absurd hx hlb
      · have hlb : b.ptr ∈ l := (hown b (by simp)).2 (by simp)
        have hla : a.ptr ∉ l := by
          intro hmem
          have ha := (hown a (by simp)).1 hmem
          simp only [List.map_cons, List.getElem?_cons_succ, List.getElem?_cons_zero,
            Option.toList_some, List.mem_singleton] at ha
          exact hne ha
        rw [removeAll_operand (c := b.ptr) (by simp) hlb ?_ (happart b (by simp))]
        · simp [nulledKind, hne]
        · intro x hx hmem
          simp only [List.map_cons, List.map_nil, List.mem_cons, List.not_mem_nil, or_false] at hmem
          rcases hmem with rfl | rfl
          · exact absurd hx hla
          · rfl

theorem removeAll_lawOf (parts : List Part) (hnodup : (ptrsOf parts).Nodup)
    (hl : ∀ q ∈ parts, ∀ x ∈ ptrsOf q.parts, x ∈ l ↔ x ∈ q.marks params) :
    parts.map (removeAll l) = lawOf params parts := by
  cases parts with
  | nil => rfl
  | cons p parts =>
    rw [ptrsOf, List.nodup_append] at hnodup
    rw [List.map_cons, lawOf, removeAll_law p hnodup.1 (hl p List.mem_cons_self),
      removeAll_lawOf parts hnodup.2.1 (fun q hq => hl q (List.mem_cons_of_mem _ hq))]

end

mutual

theorem length_law (p : Part) :
    (p.law params).ptrs.length + (p.marks params).length ≤ p.ptrs.length := by
  cases p with
  | node ptr kind parts =>
    have hparts := length_lawOf parts
    rw [law, marks]
    cases hk : nulledOperand params kind parts with
    | none =>
      simp only [ptrs, List.length_cons, List.append_nil]
      omega
    | some k =>
      obtain ⟨op, a, b, rfl, rfl, hcases⟩ := nulledOperand_some hk
      have ha := length_law a
      have hb := length_law b
      have hpa : 0 < (a.law params).ptrs.length := by
        rw [ptrs_eq]
        exact Nat.succ_pos _
      have hpb : 0 < (b.law params).ptrs.length := by
        rw [ptrs_eq]
        exact Nat.succ_pos _
      rcases hcases with rfl | rfl
      · simp [lawOf, ptrs, ptrsOf, marksOf]
        omega
      · simp [lawOf, ptrs, ptrsOf, marksOf]
        omega

theorem length_lawOf (parts : List Part) :
    (ptrsOf (lawOf params parts)).length + (marksOf params parts).length ≤
      (ptrsOf parts).length := by
  cases parts with
  | nil => exact Nat.le_refl _
  | cons p parts =>
    have hp := length_law p
    have hparts := length_lawOf parts
    simp only [lawOf, ptrsOf, marksOf, List.length_append]
    omega

end

mutual

theorem law_of_marks_nil (p : Part) (h : p.marks params = []) : p.law params = p := by
  cases p with
  | node ptr kind parts =>
    rw [marks, List.append_eq_nil_iff] at h
    rw [law]
    cases hk : nulledOperand params kind parts with
    | none => simp only [lawOf_of_marks_nil parts h.1]
    | some k =>
      obtain ⟨op, a, b, rfl, rfl, hcases⟩ := nulledOperand_some hk
      have hown := h.2
      rw [hk] at hown
      rcases hcases with rfl | rfl
      · cases hown
      · cases hown

theorem lawOf_of_marks_nil (parts : List Part) (h : marksOf params parts = []) :
    lawOf params parts = parts := by
  cases parts with
  | nil => rfl
  | cons p parts =>
    rw [marksOf, List.append_eq_nil_iff] at h
    rw [lawOf, law_of_marks_nil p h.1, lawOf_of_marks_nil parts h.2]

end

theorem law_eq_iff (p : Part) : p.law params = p ↔ p.marks params = [] := by
  constructor
  · intro h
    have hlen := @length_law params p
    rw [h] at hlen
    exact List.eq_nil_of_length_eq_zero (by omega)
  · exact law_of_marks_nil p

end Law

end LibGda.NullParams.Part

namespace LibGda.NullParams

theorem rewriteParsed_law (params : GdaSet) (s : ParsedStatement) :
    (rewriteParsed params s).1 = s.contents.law params ∧
      ((rewriteParsed params s).2 = true ↔ s.contents.law params ≠ s.contents) := by
  have hfresh : ∀ y ∈ s.contents.ptrs, y ∉ ([] : List Nat) := fun _ _ => List.not_mem_nil
  have hvisit : s.contents.visit params none [] =
      Part.visitAll params (Part.operationOf s.contents.kind s.contents.parts) s.contents.parts [] := by
    rw [Part.visit_eq, Part.nullParamFunc_other]
    intro op operands h
    cases h
  have hmem : ∀ x, x ∈ s.contents.visit params none [] ↔ x ∈ s.contents.marks params := by
    intro x
    rw [hvisit, Part.mem_visitAll s.contents x [] s.nodup s.binary hfresh]
    simp
  have hlist : (if hasNull params then s.contents.visit params none [] else []) =
      s.contents.visit params none [] := by
    by_cases hnull : hasNull params = true
    · rw [if_pos hnull]
    · rw [if_neg hnull, Part.visit_of_not_hasNull s.contents (Bool.eq_false_iff.2 hnull)]
  rw [rewriteParsed, hlist]
  refine ⟨Part.removeAll_law s.contents s.nodup fun x _ => hmem x, ?_⟩
  rw [Ne, Part.law_eq_iff]
  have hempty : s.contents.visit params none [] = [] ↔ s.contents.marks params = [] := by
    rw [List.eq_nil_iff_forall_not_mem, List.eq_nil_iff_forall_not_mem]
    simp only [hmem]
  rw [← hempty]
  simp

end LibGda.NullParams
