import Mathlib.Algebra.Order.Ring.Int
import Mathlib.Data.List.Lex

/-! Functions which compare by the sign of a number, and the orders they tell. -/

namespace Comparators

def Tells {κ : Type} [LT κ] (r : Int) (x y : κ) : Prop := (r < 0 ↔ x < y) ∧ (r = 0 ↔ x = y)

section Tells

variable {κ : Type} [LinearOrder κ] {r r' : Int} {x y z : κ}

theorem Tells.pos (h : Tells r x y) : 0 < r ↔ y < x := by
  rw [← not_le, ← not_le, le_iff_lt_or_eq, le_iff_lt_or_eq, h.1, h.2]

theorem Tells.nonpos (h : Tells r x y) : r ≤ 0 ↔ x ≤ y := by
  rw [le_iff_lt_or_eq, le_iff_lt_or_eq, h.1, h.2]

theorem Tells.neg (h : Tells r x y) : Tells (-r) y x := by
  refine ⟨?_, ?_⟩
  · rw [← h.pos]
    omega
  · rw [@eq_comm κ y, ← h.2]
    omega

theorem Tells.sign_eq (h : Tells r x y) (h' : Tells r' x y) : r.sign = r'.sign := by
  rcases lt_trichotomy x y with hlt | heq | hgt
  · rw [Int.sign_eq_neg_one_of_neg (h.1.2 hlt), Int.sign_eq_neg_one_of_neg (h'.1.2 hlt)]
  · rw [h.2.2 heq, h'.2.2 heq]
  · rw [Int.sign_eq_one_of_pos (h.pos.2 hgt), Int.sign_eq_one_of_pos (h'.pos.2 hgt)]

theorem Tells.opposite (h : Tells r x y) (h' : Tells r' y x) : r.sign = -r'.sign := by
  rw [← Int.sign_neg]
  exact h.sign_eq h'.neg

theorem Tells.map {κ' : Type} [LinearOrder κ'] {f : κ → κ'} (hf : ∀ a b, f a < f b ↔ a < b)
    (h : Tells r x y) : Tells r (f x) (f y) := by
  refine ⟨h.1.trans (hf x y).symm, h.2.trans ?_⟩
  constructor
  · exact congrArg f
  · intro heq
    refine le_antisymm (not_lt.1 fun hlt => ?_) (not_lt.1 fun hlt => ?_)
    · exact absurd ((hf y x).2 hlt) (heq ▸ lt_irrefl _)
    · exact absurd ((hf x y).2 hlt) (heq ▸ lt_irrefl _)

theorem tells_of_lt (hr : r < 0) (h : x < y) : Tells r x y :=
  ⟨iff_of_true hr h, iff_of_false (ne_of_lt hr) (ne_of_lt h)⟩

theorem tells_of_gt (hr : 0 < r) (h : y < x) : Tells r x y :=
  ⟨iff_of_false (lt_asymm hr) (lt_asymm h), iff_of_false (ne_of_gt hr) (ne_of_gt h)⟩

theorem tells_self (x : κ) : Tells 0 x x :=
  ⟨iff_of_false (lt_irrefl _) (lt_irrefl _), iff_of_true rfl rfl⟩

theorem tells_sub (i j : Int) : Tells (i - j) i j := by
  refine ⟨?_, ?_⟩ <;> omega

end Tells

def threeWay (i j : Int) : Int := if i > j then 1 else if i = j then 0 else -1

theorem threeWay_tells (i j : Int) : Tells (threeWay i j) i j := by
  rw [threeWay]
  by_cases hgt : i > j
  · rw [if_pos hgt]
    exact tells_of_gt Int.one_pos hgt
  · rw [if_neg hgt]
    by_cases heq : i = j
    · rw [if_pos heq, heq]
      exact tells_self j
    · rw [if_neg heq]
      exact tells_of_lt (by decide) (lt_of_le_of_ne (not_lt.1 hgt) heq)

/-- `memcmp`: the difference of the first bytes which are not the same. -/
def memcmp : List UInt8 → List UInt8 → Int
  | x :: xs, y :: ys => if x = y then memcmp xs ys else x.toNat - y.toNat
  | _, _ => 0

def strcmp : List UInt8 → List UInt8 → Int
  | [], [] => 0
  | [], y :: _ => -y.toNat
  | x :: _, [] => x.toNat
  | x :: xs, y :: ys => if x = y then strcmp xs ys else x.toNat - y.toNat

def codes (bytes : List UInt8) : List Int := bytes.map fun b => (b.toNat : Int)

theorem codes_injective {xs ys : List UInt8} (h : codes xs = codes ys) : xs = ys := by
  refine List.map_injective_iff.2 ?_ h
  intro b c hbc
  exact UInt8.toNat_inj.1 (Int.ofNat.inj hbc)

section Bytes

variable {κ : Type} [LinearOrder κ] {r : Int} {x y : κ} {xs ys : List κ}

theorem Tells.cons (h : Tells r xs ys) : Tells r (x :: xs) (x :: ys) := by
  refine ⟨h.1.trans ?_, h.2.trans ?_⟩
  · rw [List.cons_lt_cons_iff]
    exact ⟨fun hlt => .inr ⟨rfl, hlt⟩, fun hor => (hor.resolve_left (lt_irrefl x)).2⟩
  · rw [List.cons_eq_cons]
    exact (and_iff_right rfl).symm

theorem Tells.head (hne : x ≠ y) (h : Tells r x y) : Tells r (x :: xs) (y :: ys) := by
  rcases lt_or_gt_of_ne hne with hlt | hgt
  · exact tells_of_lt (h.1.2 hlt) (List.cons_lt_cons_iff.2 (.inl hlt))
  · exact tells_of_gt (h.pos.2 hgt) (List.cons_lt_cons_iff.2 (.inl hgt))

theorem memcmp_tells {xs ys : List UInt8} (h : xs.length = ys.length) :
    Tells (memcmp xs ys) (codes xs) (codes ys) := by
  induction xs generalizing ys with
  | nil =>
    rw [List.length_nil, eq_comm, List.length_eq_zero_iff] at h
    rw [h]
    exact tells_self _
  | cons x xs ih =>
    cases ys with
    | nil => cases h
    | cons y ys =>
      rw [memcmp]
      by_cases heq : x = y
      · rw [if_pos heq, heq]
        exact (ih (Nat.succ.inj h)).cons
      · rw [if_neg heq]
        refine Tells.head ?_ (tells_sub _ _)
        exact fun hcodes => heq (UInt8.toNat_inj.1 (Int.ofNat.inj hcodes))

theorem code_pos {b : UInt8} {bytes : List UInt8} (h : 0 ∉ b :: bytes) : 0 < (b.toNat : Int) := by
  have hne : b ≠ 0 := fun heq => h (heq ▸ List.mem_cons_self)
  have hcode : b.toNat ≠ 0 := fun heq => hne (UInt8.toNat_inj.1 heq)
  omega

theorem strcmp_tells {xs ys : List UInt8} (hxs : 0 ∉ xs) (hys : 0 ∉ ys) :
    Tells (strcmp xs ys) (codes xs) (codes ys) := by
  induction xs generalizing ys with
  | nil =>
    cases ys with
    | nil => exact tells_self _
    | cons y ys =>
      have hpos := code_pos hys
      refine tells_of_lt ?_ (List.nil_lt_cons _ _)
      rw [strcmp]
      omega
  | cons x xs ih =>
    cases ys with
    | nil => exact tells_of_gt (code_pos hxs) (List.nil_lt_cons _ _)
    | cons y ys =>
      rw [strcmp]
      by_cases heq : x = y
      · rw [if_pos heq, heq]
        exact (ih (fun hmem => hxs (List.mem_cons_of_mem _ hmem))
          (fun hmem => hys (List.mem_cons_of_mem _ hmem))).cons
      · rw [if_neg heq]
        refine Tells.head ?_ (tells_sub _ _)
        exact fun hcodes => heq (UInt8.toNat_inj.1 (Int.ofNat.inj hcodes))

theorem memcmp_append {xs ys : List UInt8} (h : xs.length = ys.length) (xs' ys' : List UInt8) :
    memcmp (xs ++ xs') (ys ++ ys') = if xs = ys then memcmp xs' ys' else memcmp xs ys := by
  induction xs generalizing ys with
  | nil =>
    rw [List.length_nil, eq_comm, List.length_eq_zero_iff] at h
    rw [h, if_pos rfl]
    rfl
  | cons x xs ih =>
    cases ys with
    | nil => cases h
    | cons y ys =>
      rw [List.cons_append, List.cons_append, memcmp, memcmp]
      by_cases heq : x = y
      · rw [if_pos heq, if_pos heq, ih (Nat.succ.inj h), heq]
        simp only [List.cons_eq_cons, true_and]
      · rw [if_neg heq, if_neg heq, if_neg fun hcons => heq (List.cons_eq_cons.1 hcons).1]

end Bytes

structure Field where
  bytes : List UInt8
  value : Int

def littleEndian : Nat → Nat → List UInt8
  | 0, _ => []
  | width + 1, n => UInt8.ofNat n :: littleEndian width (n / 256)

theorem length_littleEndian (width n : Nat) : (littleEndian width n).length = width := by
  induction width generalizing n with
  | zero => rfl
  | succ width ih => rw [littleEndian, List.length_cons, ih]

theorem littleEndian_injective {width n m : Nat} (hn : n < 256 ^ width) (hm : m < 256 ^ width)
    (h : littleEndian width n = littleEndian width m) : n = m := by
  induction width generalizing n m with
  | zero =>
    rw [Nat.pow_zero] at hn hm
    omega
  | succ width ih =>
    rw [littleEndian, littleEndian, List.cons_eq_cons] at h
    rw [Nat.pow_succ] at hn hm
    have hquot := ih (Nat.div_lt_of_lt_mul (by omega)) (Nat.div_lt_of_lt_mul (by omega)) h.2
    have hrem : n % 256 = m % 256 := by
      have := congrArg UInt8.toNat h.1
      rwa [UInt8.toNat_ofNat', UInt8.toNat_ofNat'] at this
    omega

namespace Field

def unsigned (width n : Nat) : Field := ⟨littleEndian width n, n⟩

def Alike (f g : Field) : Prop :=
  f.bytes.length = g.bytes.length ∧ (f.bytes = g.bytes ↔ f.value = g.value)

theorem unsigned_alike {width n m : Nat} (hn : n < 256 ^ width) (hm : m < 256 ^ width) :
    Alike (unsigned width n) (unsigned width m) := by
  refine ⟨(length_littleEndian width n).trans (length_littleEndian width m).symm, ?_⟩
  constructor
  · intro h
    exact congrArg Int.ofNat (littleEndian_injective hn hm h)
  · intro h
    exact congrArg (littleEndian width) (Int.ofNat.inj h)

def FirstOrdered : List Field → List Field → Prop
  | f :: fs, g :: gs =>
    if f.value = g.value then FirstOrdered fs gs else memcmp f.bytes g.bytes < 0 ↔ f.value < g.value
  | _, _ => True

def memory (fs : List Field) : List UInt8 := fs.flatMap bytes

theorem memory_alike {fs gs : List Field} (h : List.Forall₂ Alike fs gs) :
    (memory fs).length = (memory gs).length ∧
      (memory fs = memory gs ↔ fs.map value = gs.map value) := by
  induction h with
  | nil => exact ⟨rfl, iff_of_true rfl rfl⟩
  | @cons f g fs gs hfield _ ih =>
    refine ⟨?_, ?_⟩
    · rw [memory, memory, List.flatMap_cons, List.flatMap_cons, List.length_append,
        List.length_append, hfield.1]
      exact congrArg (g.bytes.length + ·) ih.1
    · rw [memory, memory, List.flatMap_cons, List.flatMap_cons, List.map_cons, List.map_cons,
        List.cons_eq_cons, ← hfield.2, ← ih.2]
      constructor
      · intro heq
        exact List.append_inj heq hfield.1
      · intro heq
        rw [heq.1]
        exact congrArg (g.bytes ++ ·) heq.2

theorem memcmp_memory_tells_iff {fs gs : List Field} (h : List.Forall₂ Alike fs gs) :
    Tells (memcmp (memory fs) (memory gs)) (fs.map value) (gs.map value) ↔ FirstOrdered fs gs := by
  induction h with
  | nil => exact iff_of_true (tells_self _) trivial
  | @cons f g fs gs hfield hrest ih =>
    rw [memory, memory, List.flatMap_cons, List.flatMap_cons, memcmp_append hfield.1, List.map_cons,
      List.map_cons, FirstOrdered]
    by_cases heq : f.value = g.value
    · rw [if_pos (hfield.2.2 heq), if_pos heq, ← ih, heq]
      refine ⟨fun htells => ⟨?_, ?_⟩, Tells.cons⟩
      · refine htells.1.trans ?_
        rw [List.cons_lt_cons_iff]
        exact ⟨fun hor => (hor.resolve_left (lt_irrefl _)).2, fun hlt => .inr ⟨rfl, hlt⟩⟩
      · refine htells.2.trans ?_
        rw [List.cons_eq_cons]
        exact and_iff_right rfl
    · have hbytes : f.bytes ≠ g.bytes := fun hsame => heq (hfield.2.1 hsame)
      have hcmp := memcmp_tells hfield.1
      have hne : memcmp f.bytes g.bytes ≠ 0 := fun hzero =>
        hbytes (codes_injective (hcmp.2.1 hzero))
      rw [if_neg hbytes, if_neg heq]
      constructor
      · intro htells
        refine htells.1.trans ?_
        rw [List.cons_lt_cons_iff]
        exact or_iff_left fun hand => heq hand.1
      · intro hfirst
        refine Tells.head heq ⟨hfirst, iff_of_false hne heq⟩

end Field

end Comparators
