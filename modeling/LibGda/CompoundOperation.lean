import LibGda.SqlCompound
import Mathlib.Algebra.Order.Ring.Int

/-! Multisets are compared by the number of times that one row is in them, and an
operation by its operands, each SELECT of the input being one of its own. -/

namespace LibGda

open OperatorPrecedence

variable {σ : Type}

def countOp : GdaSqlStatementCompoundType → Nat → Nat → Nat
  | .union, a, b => min 1 (a + b)
  | .unionAll, a, b => a + b
  | .intersect, a, b => min 1 (min a b)
  | .intersectAll, a, b => min a b
  | .except, a, b => if b = 0 then min 1 a else 0
  | .exceptAll, a, b => a - b

theorem count_multisetOp {ρ : Type} [DecidableEq ρ] (x : ρ) (ctype : GdaSqlStatementCompoundType)
    (a b : Multiset ρ) :
    (multisetOp ctype a b).count x = countOp ctype (a.count x) (b.count x) := by
  have hdedup : ∀ m : Multiset ρ, m.dedup.count x = min 1 (m.count x) := by
    intro m
    rw [Multiset.count_dedup]
    by_cases hm : x ∈ m
    · have hpos := Multiset.count_pos.2 hm
      simp only [hm, if_true]
      omega
    · simp [hm]
  cases ctype with
  | union => simp only [multisetOp, countOp, hdedup, Multiset.count_add]
  | unionAll => exact Multiset.count_add x a b
  | intersect => simp only [multisetOp, countOp, hdedup, Multiset.count_inter]
  | intersectAll => exact Multiset.count_inter x a b
  | except =>
    simp only [multisetOp, countOp, Multiset.count_filter, hdedup, Multiset.count_eq_zero]
  | exceptAll => exact Multiset.count_sub x a b

theorem countOp_assoc {ctype : GdaSqlStatementCompoundType} (h : ctype.associative = true)
    (a b c : Nat) : countOp ctype (countOp ctype a b) c = countOp ctype a (countOp ctype b c) := by
  cases ctype with
  | except => cases h
  | exceptAll => cases h
  | union | unionAll | intersect | intersectAll =>
    simp only [countOp]
    omega

def readCount (env : σ → Nat) (t : CompoundTree σ) : Nat :=
  t.fold (rowsActions countOp env)

def countOperands (env : σ → Nat) (t : CompoundTree σ) : Operands Nat :=
  t.fold (operandActions countOp env)

def builtCount (env : σ → Nat) (t : CompoundTree σ) : Nat :=
  (countOperands env t).value countOp

theorem countOperands_binary (env : σ → Nat) (ctype : GdaSqlStatementCompoundType)
    (l r : CompoundTree σ) : countOperands env (.binary ctype l r) =
      (countOperands env l).compose countOp ctype (countOperands env r) := rfl

theorem countOperands_shape (env : σ → Nat) (t : CompoundTree σ) :
    (countOperands env t).compoundType = readCompoundType t ∧
      ∃ v vs, (countOperands env t).values = v :: vs ∧ (readCompoundType t = none → vs = []) := by
  induction t with
  | leaf s => exact ⟨rfl, env s, [], rfl, fun _ => rfl⟩
  | prefixed ctype e ih => exact ih
  | binary ctype l r ihl ihr =>
    obtain ⟨hlt, v, vs, hv, -⟩ := ihl
    rw [countOperands_binary]
    by_cases hl : (countOperands env l).compoundType = some ctype
    · refine ⟨?_, v, vs ++ (countOperands env r).values, ?_, (nomatch ·)⟩
      · simp [Operands.compose, hl, readCompoundType]
      · simp [Operands.compose, hl, hv]
    · refine ⟨?_, (countOperands env l).value countOp, [(countOperands env r).value countOp], ?_,
        (nomatch ·)⟩
      · simp [Operands.compose, hl, readCompoundType]
      · simp [Operands.compose, hl]
  | suffixed s e ih => exact s.elim
  | bracketed o c e ih => exact ih

theorem builtCount_merged (env : σ → Nat) {ctype : GdaSqlStatementCompoundType}
    {l : CompoundTree σ} (r : CompoundTree σ) (hl : readCompoundType l = some ctype) :
    builtCount env (.binary ctype l r) =
      (countOperands env r).values.foldl (countOp ctype) (builtCount env l) := by
  obtain ⟨hlt, v, vs, hv, -⟩ := countOperands_shape env l
  rw [hl] at hlt
  have hcombine : combine countOp (some ctype) = countOp ctype := rfl
  simp only [builtCount, countOperands_binary, Operands.compose, hlt, if_true, Operands.value, hv,
    List.cons_append, List.foldl_append, hcombine]

theorem builtCount_nested (env : σ → Nat) {ctype : GdaSqlStatementCompoundType}
    {l : CompoundTree σ} (r : CompoundTree σ) (hl : readCompoundType l ≠ some ctype) :
    builtCount env (.binary ctype l r) =
      countOp ctype (builtCount env l) (builtCount env r) := by
  have hlt := (countOperands_shape env l).1
  have hne : (countOperands env l).compoundType ≠ some ctype := by
    rw [hlt]
    exact hl
  simp only [builtCount, countOperands_binary, Operands.compose, hne, if_false]
  rfl

theorem foldl_countOp {ctype : GdaSqlStatementCompoundType} (h : ctype.associative = true)
    (a b : Nat) (vs : List Nat) : vs.foldl (countOp ctype) (countOp ctype a b) =
      countOp ctype a (vs.foldl (countOp ctype) b) := by
  induction vs generalizing b with
  | nil => rfl
  | cons v vs ih =>
    simp only [List.foldl_cons, countOp_assoc h]
    exact ih (countOp ctype b v)

theorem builtCount_binary (env : σ → Nat) {ctype : GdaSqlStatementCompoundType}
    {l r : CompoundTree σ}
    (h : composesWell ctype (readCompoundType l) (readCompoundType r) = true) :
    builtCount env (.binary ctype l r) =
      countOp ctype (builtCount env l) (builtCount env r) := by
  by_cases hl : readCompoundType l = some ctype
  · rw [builtCount_merged env r hl]
    obtain ⟨hrt, w, ws, hw, hsingle⟩ := countOperands_shape env r
    simp only [composesWell, hl, bne_self_eq_false, Bool.false_or, Bool.or_eq_true, beq_iff_eq,
      Bool.and_eq_true] at h
    have hr : builtCount env r = ws.foldl (combine countOp (readCompoundType r)) w := by
      simp only [builtCount, Operands.value, hw, hrt]
    rw [hw, List.foldl_cons]
    rcases h with h | ⟨h, ha⟩
    · rw [hr, hsingle h]
      rfl
    · rw [hr, h]
      exact foldl_countOp ha _ w ws
  · exact builtCount_nested env r hl

theorem builtCount_of_keepsOperation (env : σ → Nat) {t : CompoundTree σ}
    (h : keepsOperation t = true) : builtCount env t = readCount env t := by
  induction t with
  | leaf s => rfl
  | prefixed ctype e ih => exact ih h
  | binary ctype l r ihl ihr =>
    simp only [keepsOperation, Bool.and_eq_true] at h
    rw [builtCount_binary env h.2, ihl h.1.1, ihr h.1.2]
    rfl
  | suffixed s e ih => exact s.elim
  | bracketed o c e ih => exact ih h

theorem counts_zero (t : CompoundTree σ) :
    readCount (fun _ => 0) t = 0 ∧ builtCount (fun _ => 0) t = 0 ∧
      ∀ v ∈ (countOperands (fun _ => 0) t).values, v = 0 := by
  have hop : ∀ ctype, countOp ctype 0 0 = 0 := by
    intro ctype
    cases ctype <;> rfl
  have hfold : ∀ ctype (vs : List Nat), (∀ v ∈ vs, v = 0) → vs.foldl (countOp ctype) 0 = 0 := by
    intro ctype vs hvs
    induction vs with
    | nil => rfl
    | cons v vs ih =>
      rw [List.foldl_cons, hvs v List.mem_cons_self, hop]
      exact ih fun w hw => hvs w (List.mem_cons_of_mem _ hw)
  induction t with
  | leaf s => exact ⟨rfl, rfl, by simp [countOperands, Tree.fold, operandActions]⟩
  | prefixed ctype e ih => exact ih
  | binary ctype l r ihl ihr =>
    obtain ⟨hml, hvl, hol⟩ := ihl
    obtain ⟨hmr, hvr, hor⟩ := ihr
    refine ⟨?_, ?_, ?_⟩
    · show countOp ctype (readCount (fun _ => 0) l) (readCount (fun _ => 0) r) = 0
      rw [hml, hmr, hop]
    · by_cases hl : readCompoundType l = some ctype
      · rw [builtCount_merged _ r hl, hvl, hfold ctype _ hor]
      · rw [builtCount_nested _ r hl, hvl, hvr, hop]
    · intro v hv
      rw [countOperands_binary] at hv
      by_cases hl : (countOperands (fun _ => 0) l).compoundType = some ctype
      · simp only [Operands.compose, hl, if_true, List.mem_append] at hv
        exact hv.elim (hol v) (hor v)
      · simp only [Operands.compose, hl, if_false, List.mem_cons, List.not_mem_nil, or_false] at hv
        rcases hv with rfl | rfl
        · exact hvl
        · exact hvr
  | suffixed s e ih => exact s.elim
  | bracketed o c e ih => exact ih

/-- The counts of `t` are the same with both operands. -/
def SameCounts (env env' : σ → Nat) (t : CompoundTree σ) : Prop :=
  readCount env t = readCount env' t ∧ countOperands env t = countOperands env' t

theorem SameCounts.built {env env' : σ → Nat} {t : CompoundTree σ} (h : SameCounts env env' t) :
    builtCount env t = builtCount env' t :=
  congrArg (Operands.value countOp) h.2

theorem sameCounts_of_leaves {env env' : σ → Nat} {t : CompoundTree σ}
    (h : ∀ s ∈ t.leaves, env s = env' s) : SameCounts env env' t := by
  refine ⟨Tree.fold_congr (rowsActions countOp env') env h, ?_⟩
  refine Tree.fold_congr (operandActions countOp env') (fun s => ⟨none, [env s]⟩) ?_
  intro s hs
  rw [h s hs]
  rfl

theorem exists_counts {l r : CompoundTree σ} (hnodup : (l.leaves ++ r.leaves).Nodup)
    (envl envr : σ → Nat) : ∃ env, SameCounts env envl l ∧ SameCounts env envr r := by
  classical
  refine ⟨fun s => if s ∈ l.leaves then envl s else envr s, sameCounts_of_leaves ?_,
    sameCounts_of_leaves ?_⟩
  · intro s hs
    simp [hs]
  · intro s hs
    have hl : s ∉ l.leaves := fun hl => (List.nodup_append.1 hnodup).2.2 s hl s hs rfl
    simp [hl]

theorem foldl_countOp_zero {ctype : GdaSqlStatementCompoundType} {v : Nat}
    (h : countOp ctype v 0 = v) {vs : List Nat} (hvs : ∀ w ∈ vs, w = 0) :
    vs.foldl (countOp ctype) v = v := by
  induction vs with
  | nil => rfl
  | cons w vs ih =>
    rw [List.foldl_cons, hvs w List.mem_cons_self, h]
    exact ih fun w hw => hvs w (List.mem_cons_of_mem _ hw)

theorem exists_counts_one {t : CompoundTree σ} (hnodup : t.leaves.Nodup)
    (hc : composesAll t = true) : ∃ env, readCount env t = 1 ∧ builtCount env t = 1 := by
  induction t with
  | leaf s => exact ⟨fun _ => 1, rfl, rfl⟩
  | prefixed ctype e ih => exact ih hnodup hc
  | binary ctype l r ihl ihr =>
    have hlr := List.nodup_append.1 hnodup
    simp only [composesAll, Bool.and_eq_true] at hc
    obtain ⟨⟨hcl, hcr⟩, hcomposes⟩ := hc
    obtain ⟨envl, hml, hvl⟩ := ihl hlr.1 hcl
    by_cases hone : countOp ctype 1 0 = 1
    · obtain ⟨env, hsl, hsr⟩ := exists_counts hnodup envl fun _ => 0
      obtain ⟨hmr, hvr, hor⟩ := counts_zero r
      have hbl : builtCount env l = 1 := hsl.built.trans hvl
      have hbr : builtCount env r = 0 := hsr.built.trans hvr
      refine ⟨env, ?_, ?_⟩
      · show countOp ctype (readCount env l) (readCount env r) = 1
        rw [hsl.1, hsr.1, hml, hmr, hone]
      · by_cases hl : readCompoundType l = some ctype
        · rw [builtCount_merged env r hl, hbl, hsr.2, foldl_countOp_zero hone hor]
        · rw [builtCount_nested env r hl, hbl, hbr, hone]
    · -- an intersection, of two sides with the row
      obtain ⟨envr, hmr, hvr⟩ := ihr hlr.2.1 hcr
      obtain ⟨env, hsl, hsr⟩ := exists_counts hnodup envl envr
      have hbl : builtCount env l = 1 := hsl.built.trans hvl
      have hbr : builtCount env r = 1 := hsr.built.trans hvr
      have hboth : countOp ctype 1 1 = 1 ∧ ctype.associative = true := by
        cases ctype <;> simp [countOp, GdaSqlStatementCompoundType.associative] at hone ⊢
      have hwell : composesWell ctype (readCompoundType l) (readCompoundType r) = true := by
        rw [composesWell, hboth.2, Bool.and_true]
        exact hcomposes
      refine ⟨env, ?_, ?_⟩
      · show countOp ctype (readCount env l) (readCount env r) = 1
        rw [hsl.1, hsr.1, hml, hmr, hboth.1]
      · rw [builtCount_binary env hwell, hbl, hbr, hboth.1]
  | suffixed s e ih => exact s.elim
  | bracketed o c e ih => exact ih hnodup hc

theorem countOp_le {ctype : GdaSqlStatementCompoundType} (h : ctype.associative = false)
    (a b : Nat) : countOp ctype a b ≤ a := by
  cases ctype with
  | except =>
    simp only [countOp]
    split <;> omega
  | exceptAll => exact Nat.sub_le a b
  | union | unionAll | intersect | intersectAll => cases h

theorem foldl_countOp_le {ctype : GdaSqlStatementCompoundType} (h : ctype.associative = false)
    (v : Nat) (vs : List Nat) : vs.foldl (countOp ctype) v ≤ v := by
  induction vs generalizing v with
  | nil => exact Nat.le_refl v
  | cons w vs ih => exact (ih _).trans (countOp_le h v w)

theorem exists_counts_empty {ctype : GdaSqlStatementCompoundType} (ha : ctype.associative = false)
    {t : CompoundTree σ} (ht : readCompoundType t = some ctype) (hnodup : t.leaves.Nodup)
    (hc : composesAll t = true) :
    ∃ env, readCount env t = 0 ∧ ∃ v vs, (countOperands env t).values = v :: vs ∧ 1 ≤ v := by
  induction t with
  | leaf s => cases ht
  | prefixed ctype' e ih => exact ih ht hnodup hc
  | binary ctype' l r ihl ihr =>
    obtain rfl := Option.some.inj ht
    have hlr := List.nodup_append.1 hnodup
    simp only [composesAll, Bool.and_eq_true] at hc
    obtain ⟨⟨hcl, hcr⟩, -⟩ := hc
    obtain ⟨envl, hml, hvl⟩ := exists_counts_one hlr.1 hcl
    obtain ⟨envr, hmr, hvr⟩ := exists_counts_one hlr.2.1 hcr
    obtain ⟨env, hsl, hsr⟩ := exists_counts hnodup envl envr
    have hbl : builtCount env l = 1 := hsl.built.trans hvl
    refine ⟨env, ?_, ?_⟩
    · show countOp ctype' (readCount env l) (readCount env r) = 0
      rw [hsl.1, hsr.1, hml, hmr]
      cases ctype' with
      | except => rfl
      | exceptAll => rfl
      | union | unionAll | intersect | intersectAll => cases ha
    · obtain ⟨hlt, v, vs, hv, -⟩ := countOperands_shape env l
      rw [countOperands_binary]
      by_cases hl : (countOperands env l).compoundType = some ctype'
      · refine ⟨v, vs ++ (countOperands env r).values, by simp [Operands.compose, hl, hv], ?_⟩
        have hle := foldl_countOp_le ha v vs
        have hvalue : builtCount env l = vs.foldl (countOp ctype') v := by
          simp only [builtCount, Operands.value, hv, hl]
          rfl
        omega
      · refine ⟨builtCount env l, [builtCount env r], by simp [Operands.compose, hl, builtCount], ?_⟩
        omega
  | suffixed s e ih => exact s.elim
  | bracketed o c e ih => exact ih ht hnodup hc

def Differ (a b : Nat) : Prop :=
  (a = 1 ∧ b = 0) ∨ (a = 0 ∧ b = 1)

theorem differ_countOp (ctype : GdaSqlStatementCompoundType) :
    (∃ c, c ≤ 1 ∧ ∀ a b, Differ a b → Differ (countOp ctype a c) (countOp ctype b c)) ∧
      ∃ c, c ≤ 1 ∧ ∀ a b, Differ a b → Differ (countOp ctype c a) (countOp ctype c b) := by
  have hleft : ∀ c, Differ (countOp ctype 1 c) (countOp ctype 0 c) →
      ∀ a b, Differ a b → Differ (countOp ctype a c) (countOp ctype b c) := by
    rintro c h a b (⟨rfl, rfl⟩ | ⟨rfl, rfl⟩)
    · exact h
    · exact h.symm.imp And.symm And.symm
  have hright : ∀ c, Differ (countOp ctype c 1) (countOp ctype c 0) →
      ∀ a b, Differ a b → Differ (countOp ctype c a) (countOp ctype c b) := by
    rintro c h a b (⟨rfl, rfl⟩ | ⟨rfl, rfl⟩)
    · exact h
    · exact h.symm.imp And.symm And.symm
  cases ctype with
  | union | unionAll =>
    exact ⟨⟨0, Nat.zero_le 1, hleft 0 (by simp [Differ, countOp])⟩,
      0, Nat.zero_le 1, hright 0 (by simp [Differ, countOp])⟩
  | intersect | intersectAll =>
    exact ⟨⟨1, Nat.le_refl 1, hleft 1 (by simp [Differ, countOp])⟩,
      1, Nat.le_refl 1, hright 1 (by simp [Differ, countOp])⟩
  | except | exceptAll =>
    exact ⟨⟨0, Nat.zero_le 1, hleft 0 (by simp [Differ, countOp])⟩,
      1, Nat.le_refl 1, hright 1 (by simp [Differ, countOp])⟩

theorem exists_counts_eq {c : Nat} (hc : c ≤ 1) {t : CompoundTree σ} (hnodup : t.leaves.Nodup)
    (hall : composesAll t = true) : ∃ env, readCount env t = c ∧ builtCount env t = c := by
  obtain rfl | rfl : c = 0 ∨ c = 1 := by omega
  · exact ⟨fun _ => 0, (counts_zero t).1, (counts_zero t).2.1⟩
  · exact exists_counts_one hnodup hall

theorem exists_counts_differ {t : CompoundTree σ} (hnodup : t.leaves.Nodup)
    (hc : composesAll t = true) (hk : keepsOperation t = false) :
    ∃ env, Differ (builtCount env t) (readCount env t) := by
  induction t with
  | leaf s => cases hk
  | prefixed ctype e ih => exact ih hnodup hc hk
  | binary ctype l r ihl ihr =>
    have hlr := List.nodup_append.1 hnodup
    simp only [composesAll, Bool.and_eq_true] at hc
    obtain ⟨⟨hcl, hcr⟩, hcomposes⟩ := hc
    have hread : ∀ env, readCount env (.binary ctype l r) =
      countOp ctype (readCount env l) (readCount env r) := fun env => rfl
    by_cases hwell : composesWell ctype (readCompoundType l) (readCompoundType r) = true
    · cases hkl : keepsOperation l with
      | false =>
        obtain ⟨envl, hl⟩ := ihl hlr.1 hcl hkl
        obtain ⟨c, hle, hdiffer⟩ := (differ_countOp ctype).1
        obtain ⟨envr, hm, hv⟩ := exists_counts_eq hle hlr.2.1 hcr
        obtain ⟨env, hsl, hsr⟩ := exists_counts hnodup envl envr
        refine ⟨env, ?_⟩
        rw [hread, builtCount_binary env hwell, hsl.1, hsl.built, hsr.1, hsr.built, hm, hv]
        exact hdiffer _ _ hl
      | true =>
        have hkr : keepsOperation r = false := by simpa [keepsOperation, hkl, hwell] using hk
        obtain ⟨envr, hr⟩ := ihr hlr.2.1 hcr hkr
        obtain ⟨c, hle, hdiffer⟩ := (differ_countOp ctype).2
        obtain ⟨envl, hm, hv⟩ := exists_counts_eq hle hlr.1 hcl
        obtain ⟨env, hsl, hsr⟩ := exists_counts hnodup envl envr
        refine ⟨env, ?_⟩
        rw [hread, builtCount_binary env hwell, hsl.1, hsl.built, hsr.1, hsr.built, hm, hv]
        exact hdiffer _ _ hr
    · -- the operands of the right difference are taken from the left one by one
      simp only [composes, composesWell, Bool.or_eq_true, Bool.and_eq_true, bne_iff_ne, beq_iff_eq,
        not_or, not_and, ne_eq, not_not, Bool.not_eq_true] at hcomposes hwell
      obtain ⟨⟨hlt, hrne⟩, hassoc⟩ := hwell
      have hrt : readCompoundType r = some ctype := by
        rcases hcomposes with (h | h) | h
        · exact absurd hlt h
        · exact absurd h hrne
        · exact h
      have ha := hassoc hrt
      obtain ⟨envl, hml, hvl⟩ := exists_counts_one hlr.1 hcl
      obtain ⟨envr, hmr, v, vs, hv, hpos⟩ := exists_counts_empty ha hrt hlr.2.1 hcr
      obtain ⟨env, hsl, hsr⟩ := exists_counts hnodup envl envr
      have hgone : countOp ctype 1 v = 0 ∧ countOp ctype 1 0 = 1 := by
        cases ctype with
        | except => exact ⟨if_neg (Nat.one_le_iff_ne_zero.1 hpos), rfl⟩
        | exceptAll => exact ⟨Nat.sub_eq_zero_of_le hpos, rfl⟩
        | union | unionAll | intersect | intersectAll => cases ha
      refine ⟨env, Or.inr ⟨?_, ?_⟩⟩
      · have hle := foldl_countOp_le ha 0 vs
        rw [builtCount_merged env r hlt, hsl.built, hvl, hsr.2, hv, List.foldl_cons, hgone.1]
        omega
      · rw [hread, hsl.1, hsr.1, hml, hmr, hgone.2]
  | suffixed s e ih => exact s.elim
  | bracketed o c e ih => exact ih hnodup hc hk

theorem count_evalCompound {ρ : Type} [DecidableEq ρ] (x : ρ) (rows : σ → Multiset ρ)
    {t : CompoundTree σ} {c : GdaSqlStatementCompound σ} (hc : ComposedAs t c) :
    (evalCompound multisetOp rows c).count x = builtCount (fun s => (rows s).count x) t := by
  have hvalue : ∀ o : Operands (Multiset ρ), (o.value multisetOp).count x =
      (⟨o.compoundType, o.values.map (Multiset.count x)⟩ : Operands Nat).value countOp := by
    rintro ⟨compoundType, values⟩
    cases values with
    | nil => simp [Operands.value]
    | cons v vs =>
      show (vs.foldl (combine multisetOp compoundType) v).count x =
        (vs.map (Multiset.count x)).foldl (combine countOp compoundType) (v.count x)
      induction vs generalizing v with
      | nil => rfl
      | cons w vs ih =>
        simp only [List.foldl_cons, List.map_cons, ih]
        cases compoundType with
        | none => rfl
        | some ctype => simp only [combine, count_multisetOp]
  have hhom : Hom (operandActions multisetOp rows)
      (operandActions countOp fun s => (rows s).count x)
      (fun o => ⟨o.compoundType, o.values.map (Multiset.count x)⟩) := by
    refine ⟨fun _ => rfl, fun _ _ => rfl, ?_, fun s => s.elim, fun _ _ _ => rfl⟩
    intro ctype l r
    by_cases hl : l.compoundType = some ctype
    · simp [operandActions, Operands.compose, hl]
    · simp [operandActions, Operands.compose, hl, hvalue]
  rw [evalCompound_eq_value, hc.2.2.2 _ multisetOp rows, hvalue, builtCount, countOperands,
    ← Tree.map_fold hhom]

theorem count_readRows {ρ : Type} [DecidableEq ρ] (x : ρ) (rows : σ → Multiset ρ)
    (t : CompoundTree σ) : (t.fold (rowsActions multisetOp rows)).count x =
      readCount (fun s => (rows s).count x) t := by
  have hhom : Hom (rowsActions multisetOp rows) (rowsActions countOp fun s => (rows s).count x)
      (Multiset.count x) :=
    ⟨fun _ => rfl, fun _ _ => rfl, fun ctype a b => count_multisetOp x ctype a b,
      fun s => s.elim, fun _ _ _ => rfl⟩
  exact Tree.map_fold hhom t

/-- A combination is composed to a statement of the operation that is read exactly where no compound
is composed with one that it may not be. -/
theorem parseCompound_operation_iff (tokens : List (CompoundToken σ)) :
    (∀ (ρ : Type) [DecidableEq ρ] (rows : Nat × σ → Multiset ρ),
      (parseCompound (numberFrom 0 tokens)).map (evalCompound multisetOp rows) =
        parse compoundGrammar (rowsActions multisetOp rows) (numberFrom 0 tokens)) ↔
    ∀ t, readCompound (numberFrom 0 tokens) = some t → keepsOperation t = true := by
  have hparse : parseCompound (numberFrom 0 tokens) =
      (readCompound (numberFrom 0 tokens)).bind buildCompound := by
    rw [parseCompound, parse_eq_fold, ← readCompound]
    cases readCompound (numberFrom 0 tokens) with
    | none => rfl
    | some t => rfl
  have hrows : ∀ (ρ : Type) [DecidableEq ρ] (rows : Nat × σ → Multiset ρ),
      parse compoundGrammar (rowsActions multisetOp rows) (numberFrom 0 tokens) =
        (readCompound (numberFrom 0 tokens)).map (Tree.fold (rowsActions multisetOp rows)) :=
    fun ρ _ rows => parse_eq_fold _ _ _
  cases hread : readCompound (numberFrom 0 tokens) with
  | none => simp [hparse, hrows, hread]
  | some t =>
    have hnodup : t.leaves.Nodup := leaves_nodup hread
    obtain ⟨hbuilt, hnull⟩ := buildCompound_composes t
    simp only [hparse, hrows, hread, Option.bind_some, Option.map_some, Option.some.injEq,
      forall_eq']
    constructor
    · intro h
      cases hall : composesAll t with
      | false =>
        have hnone := h Unit fun _ => 0
        rw [hnull hall] at hnone
        cases hnone
      | true =>
        obtain ⟨c, hc, hcomposed⟩ := hbuilt hall
        by_contra hk
        obtain ⟨env, hdiffer⟩ := exists_counts_differ hnodup hall (Bool.of_not_eq_true hk)
        have hrow := h Unit fun s => Multiset.replicate (env s) ()
        rw [hc, Option.map_some, Option.some.injEq] at hrow
        have hcount : builtCount env t = readCount env t := by
          have hmultiset := congrArg (Multiset.count ()) hrow
          rw [count_evalCompound () _ hcomposed, count_readRows] at hmultiset
          simpa only [Multiset.count_replicate_self] using hmultiset
        rcases hdiffer with ⟨h1, h0⟩ | ⟨h0, h1⟩ <;> omega
    · intro hk ρ _ rows
      obtain ⟨c, hc, hcomposed⟩ := hbuilt (composesAll_of_keepsOperation hk)
      rw [hc, Option.map_some, Option.some.injEq]
      refine Multiset.ext.2 ?_
      intro x
      rw [count_evalCompound x rows hcomposed, count_readRows, builtCount_of_keepsOperation _ hk]

/-- `s UNION s UNION (s EXCEPT s)` has no statement. -/
theorem union_with_difference_is_null :
    ¬ ∀ (tokens : List (CompoundToken Unit)) (ρ : Type) [DecidableEq ρ]
        (rows : Nat × Unit → Multiset ρ),
      (parseCompound (numberFrom 0 tokens)).map (evalCompound multisetOp rows) =
        parse compoundGrammar (rowsActions multisetOp rows) (numberFrom 0 tokens) := by
  intro h
  have hnull := h [.leaf (), .operator .union, .leaf (), .operator .union, .opening (), .leaf (),
    .operator .except, .leaf (), .closing ()] Unit fun _ => 0
  cases hnull

end LibGda
