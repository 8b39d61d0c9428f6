import LibGda.DefaultEscape

/-! `gda_text_to_alphanum` and `gda_alphanum_to_text`. -/

namespace LibGda

def encodeToken : Bytes := bytes "__gda"

def isAlphanum (b : UInt8) : Bool :=
  (byte '0' ≤ b && b ≤ byte '9') || (byte 'A' ≤ b && b ≤ byte 'Z') ||
    (byte 'a' ≤ b && b ≤ byte 'z')

/-- A `gchar`, which is signed, as the `unsigned int` which `%x` prints. -/
def printedChar (b : UInt8) : Nat := if b < 128 then b.toNat else b.toNat + (2 ^ 32 - 2 ^ 8)

def hexText (n : Nat) : Bytes := (Nat.toDigits 16 n).map fun c => UInt8.ofNat c.toNat

def alphanumChar (b : UInt8) : Bytes :=
  if isAlphanum b then [b] else encodeToken ++ hexText (printedChar b)

def textToAlphanum (text : Bytes) : Bytes := text.flatMap alphanumChar

def hexNibble (c : UInt8) : Option UInt8 :=
  if byte 'a' ≤ c ∧ c ≤ byte 'f' then some (c - byte 'a' + 10)
  else if byte '0' ≤ c ∧ c ≤ byte '9' then some (c - byte '0')
  else none

def alphanumLoop (behind : UInt8) : Nat → Bytes → Nat → Int → Option Bytes
  | 0, z, _, _ => some z
  | turns + 1, z, ptr, length =>
    if z.getD ptr behind = 0 then some z
    else if encodeToken.length + 2 ≤ length ∧ encodeToken.isPrefixOf (z.drop ptr) = true then do
      let high ← hexNibble (z.getD (ptr + encodeToken.length) behind)
      let low ← hexNibble (z.getD (ptr + encodeToken.length + 1) behind)
      let length := length - (encodeToken.length + 1)
      alphanumLoop behind turns
        (memmove behind (z.set ptr (high * 16 + low)) (ptr + 1) (ptr + 1 + (encodeToken.length + 1))
          length.toNat)
        (ptr + 1) length
    else alphanumLoop behind turns z (ptr + 1) (length - 1)

/-- `gda_alphanum_to_text`, in the block of the text and its terminator. -/
def alphanumToText (behind : UInt8) (text : Bytes) : Except BlockFault (Option CBytes) := do
  let length ← checkedGint text.length
  .ok ((alphanumLoop behind text.length (text ++ [0]) 0 length).map cString)

def IsCoded (b : UInt8) : Prop := isAlphanum b = true ∨ (16 ≤ b ∧ b < 128)

instance (b : UInt8) : Decidable (IsCoded b) := by
  unfold IsCoded
  infer_instance

section Chars

variable {b c : UInt8}

theorem forall_byte {p : UInt8 → Prop} (h : ∀ n < 256, p (UInt8.ofNat n)) (b : UInt8) : p b := by
  have hb := h b.toNat b.toNat_lt
  rwa [UInt8.ofNat_toNat] at hb

def readsCoded (b : UInt8) : Bool :=
  match hexText (printedChar b) with
  | [high, low] =>
    match hexNibble high, hexNibble low with
    | some x, some y => x * 16 + y == b
    | _, _ => false
  | _ => false

def readsControl (b : UInt8) : Bool :=
  match hexText (printedChar b) with
  | [digit] => hexNibble digit == some b
  | _ => false

/-- A negative `gchar` is printed with the digits of an `int`. -/
def printsNegative (b : UInt8) : Bool :=
  match hexText (printedChar b) with
  | [c₁, c₂, c₃, c₄, c₅, c₆, high, low] =>
    [c₁, c₂, c₃, c₄, c₅, c₆] == bytes "ffffff" &&
      (b != 255 || (high == byte 'f' && low == byte 'f'))
  | _ => false

theorem printed_coded (b : UInt8) : 16 ≤ b → b < 128 → ∃ high low x y,
    hexText (printedChar b) = [high, low] ∧ hexNibble high = some x ∧ hexNibble low = some y ∧
      x * 16 + y = b := by
  have hcheck : ∀ b : UInt8, 16 ≤ b → b < 128 → readsCoded b = true := by
    apply forall_byte
    decide +kernel
  intro hlow hhigh
  have hb := hcheck b hlow hhigh
  rw [readsCoded] at hb
  split at hb
  · next high low htext =>
    split at hb
    · next x y hx hy => exact ⟨high, low, x, y, htext, hx, hy, beq_iff_eq.1 hb⟩
    · cases hb
  · cases hb

theorem printed_control (b : UInt8) : b < 16 → ∃ digit,
    hexText (printedChar b) = [digit] ∧ hexNibble digit = some b := by
  have hcheck : ∀ b : UInt8, b < 16 → readsControl b = true := by
    apply forall_byte
    decide +kernel
  intro hlow
  have hb := hcheck b hlow
  rw [readsControl] at hb
  split at hb
  · next digit htext => exact ⟨digit, htext, beq_iff_eq.1 hb⟩
  · cases hb

theorem printed_negative (b : UInt8) : 128 ≤ b → ∃ high low,
    hexText (printedChar b) = bytes "ffffff" ++ [high, low] ∧
      (b = 255 → high = byte 'f' ∧ low = byte 'f') := by
  have hcheck : ∀ b : UInt8, 128 ≤ b → printsNegative b = true := by
    apply forall_byte
    decide +kernel
  intro hhigh
  have hb := hcheck b hhigh
  rw [printsNegative] at hb
  split at hb
  · next c₁ c₂ c₃ c₄ c₅ c₆ high low htext =>
    rw [Bool.and_eq_true, beq_iff_eq] at hb
    refine ⟨high, low, by rw [htext, ← hb.1]; rfl, ?_⟩
    intro hlast
    have hdigits := hb.2
    rw [hlast] at hdigits
    simpa using hdigits
  · cases hb

theorem nibble_lt (c y : UInt8) : hexNibble c = some y → y < 16 := by
  have hcheck : ∀ c : UInt8, (hexNibble c).all (· < 16) = true := by
    apply forall_byte
    decide +kernel
  intro hy
  have hc := hcheck c
  rw [hy] at hc
  exact of_decide_eq_true hc

theorem isAlphanum_hexText (b : UInt8) : ∀ c ∈ hexText (printedChar b), isAlphanum c = true := by
  have hcheck : ∀ b : UInt8, (hexText (printedChar b)).all isAlphanum = true := by
    apply forall_byte
    decide +kernel
  exact List.all_eq_true.1 (hcheck b)

theorem ne_of_isAlphanum (h : isAlphanum b = true) : b ≠ 0 ∧ b ≠ byte '_' := by
  constructor
  · rintro rfl
    exact absurd h (by decide)
  · rintro rfl
    exact absurd h (by decide)

end Chars

section Loop

variable {behind b high low x y : UInt8} {done rest tail z : Bytes} {turns : Nat} {length : Int}

theorem alphanumLoop_end (behind : UInt8) (done tail : Bytes) (turns : Nat) (length : Int) :
    alphanumLoop behind turns (done ++ 0 :: tail) done.length length = some (done ++ 0 :: tail) := by
  cases turns with
  | zero => rfl
  | succ turns =>
    have hread : (done ++ 0 :: tail).getD done.length behind = 0 := getD_behind done _ 0
    rw [alphanumLoop, if_pos hread]

theorem alphanumLoop_alphanum (hb : isAlphanum b = true) (z : Bytes) :
    alphanumLoop behind (turns + 1) (done ++ b :: z) done.length length =
      alphanumLoop behind turns (done ++ b :: z) (done.length + 1) (length - 1) := by
  have hread : (done ++ b :: z).getD done.length behind = b := getD_behind done _ 0
  have hne := ne_of_isAlphanum hb
  have htoken : encodeToken.isPrefixOf ((done ++ b :: z).drop done.length) = false := by
    rw [List.drop_left]
    have hhead : (byte '_' == b) = false := beq_false_of_ne hne.2.symm
    show (byte '_' == b && _) = false
    rw [hhead]
    rfl
  rw [alphanumLoop, hread, if_neg hne.1, if_neg]
  rw [htoken]
  exact fun h => Bool.false_ne_true h.2

theorem alphanumLoop_alphanums {front : Bytes} (hfront : ∀ b ∈ front, isAlphanum b = true)
    (done z : Bytes) (turns : Nat) (length : Int) :
    alphanumLoop behind (turns + front.length) (done ++ (front ++ z)) done.length length =
      alphanumLoop behind turns (done ++ (front ++ z)) (done.length + front.length)
        (length - front.length) := by
  induction front generalizing done length with
  | nil => simp
  | cons b front ih =>
    have hb := hfront b List.mem_cons_self
    have hstep := @alphanumLoop_alphanum behind b done (turns + front.length) length hb (front ++ z)
    have hrec := ih (fun c hc => hfront c (List.mem_cons_of_mem b hc)) (done ++ [b]) (length - 1)
    rw [List.append_assoc, List.length_append, List.length_singleton] at hrec
    have hlength : length - 1 - (front.length : Int) = length - ((b :: front).length : Int) := by
      rw [List.length_cons]
      omega
    rw [hlength, Nat.add_assoc, Nat.add_comm 1] at hrec
    exact hstep.trans hrec

theorem token_front (done z : Bytes) :
    (done ++ (encodeToken ++ z)).getD done.length behind = byte '_' ∧
      encodeToken.isPrefixOf ((done ++ (encodeToken ++ z)).drop done.length) = true ∧
      ∀ k, (done ++ (encodeToken ++ z)).getD (done.length + encodeToken.length + k) behind =
        z.getD k behind := by
  refine ⟨getD_behind done _ 0, ?_, ?_⟩
  · rw [List.drop_left, List.isPrefixOf_iff_prefix]
    exact List.prefix_append _ _
  · intro k
    rw [Nat.add_assoc, getD_behind, getD_behind]

theorem alphanumLoop_token (hx : hexNibble high = some x) (hy : hexNibble low = some y)
    (hlength : (rest.length : Int) + 7 ≤ length) (turns : Nat) : ∃ tail',
    alphanumLoop behind (turns + 1) (done ++ (encodeToken ++ high :: low :: (rest ++ 0 :: tail)))
      done.length length =
      alphanumLoop behind turns (done ++ (x * 16 + y) :: (rest ++ 0 :: tail')) (done.length + 1)
        (length - 6) := by
  obtain ⟨hread, htoken, hbehind⟩ :=
    @token_front behind done (high :: low :: (rest ++ 0 :: tail))
  have hhigh := hbehind 0
  have hlow := hbehind 1
  have hmany : rest.length < (length - 6).toNat := by omega
  obtain ⟨junk, hmove⟩ := memmove_gap behind (done ++ [x * 16 + y]) (bytes "_gda" ++ [high, low])
    rest tail hmany
  refine ⟨junk, ?_⟩
  have hset : (done ++ (encodeToken ++ high :: low :: (rest ++ 0 :: tail))).set done.length
      (x * 16 + y) = (done ++ [x * 16 + y]) ++ ((bytes "_gda" ++ [high, low]) ++
        (rest ++ 0 :: tail)) := by
    rw [List.set_append_right _ _ le_rfl, Nat.sub_self, List.append_assoc]
    rfl
  have henough : (encodeToken.length : Int) + 2 ≤ length := by
    have : encodeToken.length = 5 := rfl
    omega
  rw [alphanumLoop, hread, if_neg (by decide), if_pos ⟨henough, htoken⟩]
  rw [Nat.add_zero] at hhigh
  rw [List.length_append, List.length_singleton] at hmove
  have hx' : hexNibble ((high :: low :: (rest ++ 0 :: tail)).getD 0 behind) = some x := hx
  have hy' : hexNibble ((high :: low :: (rest ++ 0 :: tail)).getD 1 behind) = some y := hy
  simp only [hhigh, hlow, hx', hy', Option.bind_eq_bind, Option.bind_some]
  show alphanumLoop behind turns (memmove behind _ (done.length + 1)
    (done.length + 1 + (bytes "_gda" ++ [high, low]).length) (length - 6).toNat) _ _ = _
  rw [hset, hmove, List.append_assoc]
  rfl

theorem alphanumLoop_keeps {z' : Bytes} {n ptr : Nat} (hn : n ≤ z.length) (hptr : n ≤ ptr)
    (h : alphanumLoop behind turns z ptr length = some z') : z'.take n = z.take n := by
  induction turns generalizing z ptr length with
  | zero =>
    obtain rfl := Option.some.inj h
    rfl
  | succ turns ih =>
    rw [alphanumLoop] at h
    split at h
    · obtain rfl := Option.some.inj h
      rfl
    · split at h
      · obtain ⟨x, -, h⟩ := Option.bind_eq_some_iff.1 h
        obtain ⟨y, -, h⟩ := Option.bind_eq_some_iff.1 h
        have hfront : n ≤ ((z.set ptr (x * 16 + y)).take (ptr + 1)).length := by
          rw [List.length_take, List.length_set]
          omega
        have hkept := ih (by rw [memmove, List.append_assoc, List.length_append]; omega)
          (by omega) h
        rw [hkept, memmove, List.append_assoc, List.take_append_of_le_length hfront,
          List.take_take, Nat.min_eq_left (by omega), List.take_set_of_le hptr]
      · exact ih hn (by omega) h

end Loop

section Texts

variable {behind b : UInt8} {s front : Bytes}

theorem textToAlphanum_append (s t : Bytes) :
    textToAlphanum (s ++ t) = textToAlphanum s ++ textToAlphanum t :=
  List.flatMap_append

theorem textToAlphanum_cons (b : UInt8) (s : Bytes) :
    textToAlphanum (b :: s) = alphanumChar b ++ textToAlphanum s :=
  List.flatMap_cons

theorem textToAlphanum_alphanum (h : ∀ b ∈ s, isAlphanum b = true) : textToAlphanum s = s := by
  induction s with
  | nil => rfl
  | cons b s ih =>
    rw [textToAlphanum_cons, alphanumChar, if_pos (h b List.mem_cons_self),
      ih fun c hc => h c (List.mem_cons_of_mem b hc)]
    rfl

theorem textToAlphanum_chars (s : Bytes) :
    ∀ c ∈ textToAlphanum s, isAlphanum c = true ∨ c = byte '_' := by
  intro c hc
  obtain ⟨b, -, hb⟩ := List.mem_flatMap.1 hc
  rw [alphanumChar] at hb
  split at hb
  · next halphanum =>
    rw [List.mem_singleton.1 hb]
    exact .inl halphanum
  · rcases List.mem_append.1 hb with htoken | htext
    · have htokens : encodeToken.all (fun c => isAlphanum c || c == byte '_') = true := by decide
      simpa using List.all_eq_true.mp htokens _ htoken
    · exact .inl (isAlphanum_hexText b c htext)

theorem alphanumLoop_coded (hfront : ∀ b ∈ front, IsCoded b) (done rest tail : Bytes) (turns : Nat)
    (length : Int) (hturns : (textToAlphanum front ++ rest).length ≤ turns)
    (hlength : ((textToAlphanum front ++ rest).length : Int) ≤ length) :
    ∃ tail' turns' length',
      alphanumLoop behind turns (done ++ (textToAlphanum front ++ (rest ++ 0 :: tail))) done.length
        length =
        alphanumLoop behind turns' ((done ++ front) ++ (rest ++ 0 :: tail'))
          (done ++ front).length length' ∧
      rest.length ≤ turns' ∧ (rest.length : Int) ≤ length' := by
  induction front generalizing done tail turns length with
  | nil =>
    refine ⟨tail, turns, length, ?_, hturns, hlength⟩
    rw [List.append_nil]
    rfl
  | cons b front ih =>
    have hrest := fun c hc => hfront c (List.mem_cons_of_mem b hc)
    rw [textToAlphanum_cons] at hturns hlength ⊢
    by_cases hb : isAlphanum b = true
    · rw [alphanumChar, if_pos hb] at hturns hlength ⊢
      rw [List.append_assoc, List.length_append, List.length_singleton] at hturns hlength
      obtain ⟨turns, rfl⟩ : ∃ k, turns = k + 1 := ⟨turns - 1, by omega⟩
      obtain ⟨tail', turns', length', hloop, hturns', hlength'⟩ :=
        ih hrest (done ++ [b]) tail turns (length - 1) (by omega) (by omega)
      refine ⟨tail', turns', length', ?_, hturns', hlength'⟩
      have hstep := @alphanumLoop_alphanum behind b done turns length hb
        (textToAlphanum front ++ (rest ++ 0 :: tail))
      simp only [List.append_assoc, List.length_append, List.length_singleton,
        List.cons_append, List.nil_append] at hstep hloop ⊢
      exact hstep.trans hloop
    · obtain ⟨hlow, hhigh⟩ := (hfront b List.mem_cons_self).resolve_left hb
      obtain ⟨high, low, x, y, htext, hx, hy, hxy⟩ := printed_coded b hlow hhigh
      rw [alphanumChar, if_neg hb, htext] at hturns hlength ⊢
      have htoken : encodeToken.length = 5 := rfl
      simp only [List.length_append, List.length_cons, List.length_nil, htoken] at hturns hlength
      obtain ⟨turns, rfl⟩ : ∃ k, turns = k + 1 := ⟨turns - 1, by omega⟩
      obtain ⟨tail₁, hstep⟩ := @alphanumLoop_token behind high low x y done
        (textToAlphanum front ++ rest) tail length hx hy
        (by rw [List.length_append]; push_cast; omega) turns
      obtain ⟨tail', turns', length', hloop, hturns', hlength'⟩ :=
        ih hrest (done ++ [b]) tail₁ turns (length - 6)
          (by rw [List.length_append]; omega)
          (by rw [List.length_append]; push_cast; omega)
      refine ⟨tail', turns', length', ?_, hturns', hlength'⟩
      rw [hxy] at hstep
      simp only [List.append_assoc, List.length_append, List.length_singleton,
        List.cons_append, List.nil_append] at hstep hloop ⊢
      exact hstep.trans hloop

theorem cString_front {front : Bytes} (hfront : 0 ∉ front) (z : Bytes) :
    (cString (front ++ z)).1 = front ++ (cString z).1 := by
  have hall : ∀ c ∈ front, (c != 0) = true := fun c hc => bne_iff_ne.2 fun h => hfront (h ▸ hc)
  exact List.takeWhile_append_of_pos hall

theorem front_of_take {z : Bytes} (h : z.take front.length = front) (hfront : 0 ∉ front) :
    ∃ y, (cString z).1 = front ++ y := by
  have hsplit := List.take_append_drop front.length z
  rw [h] at hsplit
  rw [← hsplit, cString_front hfront]
  exact ⟨_, rfl⟩

theorem alphanumLoop_digits (s done tail z : Bytes) (turns : Nat) (length : Int)
    (hdone : 0 ∉ done) (hturns : (bytes "ffffff" ++ textToAlphanum s).length ≤ turns)
    (h : alphanumLoop behind turns (done ++ (bytes "ffffff" ++ (textToAlphanum s ++ 0 :: tail)))
      done.length length = some z) : (cString z).1 ≠ done ++ s := by
  induction hn : s.length using Nat.strong_induction_on generalizing s done turns length with
  | _ n ih =>
  subst hn
  intro heq
  have hdigits : ∀ b ∈ bytes "ffffff", isAlphanum b = true := List.all_eq_true.mp (by decide)
  have hsix : (bytes "ffffff").length = 6 := rfl
  rw [List.length_append, hsix] at hturns
  obtain ⟨turns, rfl⟩ : ∃ k, turns = k + 6 := ⟨turns - 6, by omega⟩
  have hsteps := @alphanumLoop_alphanums behind _ hdigits done (textToAlphanum s ++ 0 :: tail) turns
    length
  rw [hsix] at hsteps
  rw [hsteps] at h
  have hlen : (done ++ bytes "ffffff").length = done.length + 6 := by
    rw [List.length_append, hsix]
  have hsplit : done ++ (bytes "ffffff" ++ (textToAlphanum s ++ 0 :: tail)) =
      (done ++ bytes "ffffff") ++ (textToAlphanum s ++ 0 :: tail) :=
    (List.append_assoc _ _ _).symm
  rw [hsplit, ← hlen] at h
  have hle : (done ++ bytes "ffffff").length ≤
      ((done ++ bytes "ffffff") ++ (textToAlphanum s ++ 0 :: tail)).length :=
    (List.prefix_append _ _).length_le
  have htake := alphanumLoop_keeps hle le_rfl h
  rw [List.take_left] at htake
  have hzero : 0 ∉ done ++ bytes "ffffff" := by
    intro hmem
    rcases List.mem_append.1 hmem with hmem | hmem
    · exact hdone hmem
    · exact absurd hmem (by decide)
  obtain ⟨y, hy⟩ := front_of_take htake hzero
  rw [heq, List.append_assoc] at hy
  obtain rfl := List.append_cancel_left hy
  rw [textToAlphanum_append, textToAlphanum_alphanum hdigits, List.length_append, hsix] at hturns
  rw [textToAlphanum_append, textToAlphanum_alphanum hdigits,
    List.append_assoc (bytes "ffffff") (textToAlphanum y)] at h
  refine ih y.length ?_ y (done ++ bytes "ffffff") turns _ hzero ?_ h rfl ?_
  · rw [List.length_append, hsix]
    omega
  · rw [List.length_append, hsix]
    omega
  · rw [heq, List.append_assoc]

theorem ne_of_control {y : UInt8} (hzero : b ≠ 0) (hb : b < 16) (hy : y < 16) :
    b * 16 + y ≠ b ∧ b * 16 + y ≠ 0 := by
  have hcheck : ∀ n < 16, ∀ m < 16, n ≠ 0 →
      UInt8.ofNat n * 16 + UInt8.ofNat m ≠ UInt8.ofNat n ∧
        UInt8.ofNat n * 16 + UInt8.ofNat m ≠ 0 := by decide
  have hne : b.toNat ≠ 0 := fun h => hzero (UInt8.toNat_inj.1 h)
  have := hcheck b.toNat hb y.toNat hy hne
  rwa [UInt8.ofNat_toNat, UInt8.ofNat_toNat] at this

theorem alphanumLoop_place {done z z' s : Bytes} {c : UInt8} {turns : Nat} {length : Int}
    (hz : z.take (done.length + 1) = done ++ [c]) (hdone : 0 ∉ done) (hc : c ≠ 0)
    (h : alphanumLoop behind turns z (done.length + 1) length = some z')
    (heq : (cString z').1 = done ++ b :: s) : c = b := by
  have hlen : (done ++ [c]).length = done.length + 1 := by
    rw [List.length_append, List.length_singleton]
  have hle : done.length + 1 ≤ z.length := by
    have := congrArg List.length hz
    rw [List.length_take, hlen] at this
    omega
  have htake := alphanumLoop_keeps hle le_rfl h
  rw [hz, ← hlen] at htake
  have hnone : 0 ∉ done ++ [c] := by
    intro hmem
    rcases List.mem_append.1 hmem with hmem | hmem
    · exact hdone hmem
    · exact hc (List.mem_singleton.1 hmem).symm
  obtain ⟨y, hy⟩ := front_of_take htake hnone
  rw [heq, List.append_assoc] at hy
  exact (List.cons.inj (List.append_cancel_left hy)).1.symm

theorem alphanumLoop_uncoded (s done tail z : Bytes) (turns : Nat) (length : Int)
    (hdone : 0 ∉ done) (hzero : b ≠ 0) (hb : ¬ IsCoded b)
    (hturns : (alphanumChar b ++ textToAlphanum s).length ≤ turns)
    (hlength : ((alphanumChar b ++ textToAlphanum s).length : Int) ≤ length)
    (h : alphanumLoop behind turns (done ++ (alphanumChar b ++ (textToAlphanum s ++ 0 :: tail)))
      done.length length = some z) : (cString z).1 ≠ done ++ b :: s := by
  rw [IsCoded, not_or, not_and] at hb
  intro heq
  have htoken : encodeToken.length = 5 := rfl
  rw [alphanumChar, if_neg hb.1] at hturns hlength h
  by_cases hlow : b < 16
  · obtain ⟨digit, htext, hdigit⟩ := printed_control b hlow
    rw [htext] at hturns hlength h
    simp only [List.length_append, List.length_singleton, htoken] at hturns
    obtain ⟨turns, rfl⟩ : ∃ k, turns = k + 1 := ⟨turns - 1, by omega⟩
    rw [List.append_assoc] at h
    obtain ⟨hread, -, hbehind⟩ :=
      @token_front behind done ([digit] ++ (textToAlphanum s ++ 0 :: tail))
    rw [alphanumLoop, hread, if_neg (by decide)] at h
    split at h
    · -- the digit and the character behind it are taken for another character
      have hhigh := hbehind 0
      rw [Nat.add_zero] at hhigh
      rw [hhigh] at h
      obtain ⟨x, hx, h⟩ := Option.bind_eq_some_iff.1 h
      obtain rfl : x = b := Option.some.inj (hx.symm.trans hdigit)
      obtain ⟨y, hy, h⟩ := Option.bind_eq_some_iff.1 h
      have hne := ne_of_control hzero hlow (nibble_lt _ _ hy)
      refine hne.1 (alphanumLoop_place ?_ hdone hne.2 h heq)
      rw [memmove, List.append_assoc, List.take_append_of_le_length, List.take_take,
        Nat.min_self, List.set_append_right _ _ le_rfl, Nat.sub_self, List.take_length_add_append]
      · rfl
      · simp only [List.length_take, List.length_set, List.length_append, List.length_cons]
        omega
    · have hplace : byte '_' = b := by
        refine alphanumLoop_place ?_ hdone (by decide) h heq
        rw [List.take_length_add_append]
        rfl
      rw [← hplace] at hlow
      exact absurd hlow (by decide)
  · have hhigh : 128 ≤ b := by
      by_contra hno
      exact hb.2 (UInt8.not_lt.1 hlow) (UInt8.not_le.1 hno)
    obtain ⟨high, low, htext, hlast⟩ := printed_negative b hhigh
    rw [htext] at hturns hlength h
    have hsix : (bytes "ffffff").length = 6 := rfl
    have hfour : (bytes "ffff").length = 4 := rfl
    simp only [List.length_append, List.length_cons, List.length_nil, htoken, hsix] at hlength
    simp only [List.length_append, List.length_cons, List.length_nil, htoken, hsix] at hturns
    obtain ⟨turns, rfl⟩ : ∃ k, turns = k + 1 := ⟨turns - 1, by omega⟩
    obtain ⟨tail', hstep⟩ := @alphanumLoop_token behind (byte 'f') (byte 'f') 15 15 done
      (bytes "ffff" ++ ([high, low] ++ textToAlphanum s)) tail length rfl rfl
      (by
        simp only [List.length_append, List.length_cons, List.length_nil, hfour]
        push_cast at hlength ⊢
        omega) turns
    have hsplit : encodeToken ++ (bytes "ffffff" ++ [high, low]) ++ (textToAlphanum s ++ 0 :: tail) =
        encodeToken ++ byte 'f' :: byte 'f' ::
          (bytes "ffff" ++ ([high, low] ++ textToAlphanum s) ++ 0 :: tail) := by
      simp only [List.append_assoc]
      rfl
    rw [hsplit, hstep] at h
    have hplace : (15 * 16 + 15 : UInt8) = b := by
      refine alphanumLoop_place ?_ hdone (by decide) h heq
      rw [List.take_length_add_append]
      rfl
    obtain ⟨rfl, rfl⟩ := hlast hplace.symm
    have hdone' : 0 ∉ done ++ [(15 * 16 + 15 : UInt8)] := by
      intro hmem
      rcases List.mem_append.1 hmem with hmem | hmem
      · exact hdone hmem
      · exact absurd hmem (by decide)
    have hbuffer : done ++ (15 * 16 + 15 : UInt8) ::
        (bytes "ffff" ++ ([byte 'f', byte 'f'] ++ textToAlphanum s) ++ 0 :: tail') =
        (done ++ [(15 * 16 + 15 : UInt8)]) ++ (bytes "ffffff" ++ (textToAlphanum s ++ 0 :: tail')) := by
      simp only [List.append_assoc]
      rfl
    have hptr : (done ++ [(15 * 16 + 15 : UInt8)]).length = done.length + 1 := by
      rw [List.length_append, List.length_singleton]
    rw [hbuffer, ← hptr] at h
    refine alphanumLoop_digits s _ tail' z turns _ hdone' ?_ h ?_
    · rw [List.length_append, hsix]
      omega
    · rw [heq, List.append_assoc, hplace]
      rfl

theorem coded_or_uncoded (s : Bytes) : (∀ b ∈ s, IsCoded b) ∨
    ∃ front b rest, s = front ++ b :: rest ∧ (∀ c ∈ front, IsCoded c) ∧ ¬ IsCoded b := by
  induction s with
  | nil => exact .inl nofun
  | cons b s ih =>
    by_cases hb : IsCoded b
    · rcases ih with hall | ⟨front, c, rest, rfl, hfront, hc⟩
      · exact .inl (List.forall_mem_cons.2 ⟨hb, hall⟩)
      · exact .inr ⟨b :: front, c, rest, rfl, List.forall_mem_cons.2 ⟨hb, hfront⟩, hc⟩
    · exact .inr ⟨[], b, s, rfl, nofun, hb⟩

/-- What the loop makes of a text which was written by `gda_text_to_alphanum`. -/
def readBack (behind : UInt8) (s : Bytes) : Option CBytes :=
  (alphanumLoop behind (textToAlphanum s).length (textToAlphanum s ++ [0]) 0
    (textToAlphanum s).length).map cString

theorem readBack_iff (behind : UInt8) (text : CBytes) :
    readBack behind text = some text ↔ ∀ b ∈ text.1, IsCoded b := by
  rw [readBack, Option.map_eq_some_iff]
  constructor
  · intro ⟨z, hloop, hz⟩
    rcases coded_or_uncoded text.1 with hall | ⟨front, b, rest, hsplit, hfront, hb⟩
    · exact hall
    · exfalso
      have hno : ∀ c ∈ front ++ b :: rest, c ≠ 0 := by
        rw [← hsplit]
        exact fun c hc h => text.2 (h ▸ hc)
      have henc : textToAlphanum text.1 =
          textToAlphanum front ++ (alphanumChar b ++ textToAlphanum rest) := by
        rw [hsplit, textToAlphanum_append]
        rfl
      obtain ⟨tail, turns, length, heq, hturns, hlength⟩ := @alphanumLoop_coded behind _
        hfront [] (alphanumChar b ++ textToAlphanum rest) []
        (textToAlphanum front ++ (alphanumChar b ++ textToAlphanum rest)).length
        (textToAlphanum front ++ (alphanumChar b ++ textToAlphanum rest)).length le_rfl
        (Int.le_refl _)
      rw [← henc] at heq
      have hstart : ([] : Bytes) ++ (textToAlphanum front ++
          (alphanumChar b ++ textToAlphanum rest ++ 0 :: [])) = textToAlphanum text.1 ++ [0] := by
        rw [henc, List.nil_append, List.append_assoc, List.append_assoc, List.append_assoc]
      rw [hstart] at heq
      have hend : alphanumLoop behind turns
          (front ++ (alphanumChar b ++ (textToAlphanum rest ++ 0 :: tail))) front.length length =
          some z := by
        rw [← List.append_assoc (alphanumChar b)]
        exact heq.symm.trans hloop
      have hz' := alphanumLoop_uncoded rest front tail z turns length
        (fun h => hno 0 (List.mem_append_left _ h) rfl)
        (hno b (List.mem_append_right _ List.mem_cons_self)) hb hturns hlength hend
      exact hz' ((congrArg Subtype.val hz).trans hsplit)
  · intro hall
    obtain ⟨tail, turns, length, heq, -, -⟩ := @alphanumLoop_coded behind _ hall [] [] []
      (textToAlphanum text.1).length (textToAlphanum text.1).length
      (by rw [List.append_nil]) (by simp)
    refine ⟨text.1 ++ 0 :: tail, heq.trans (alphanumLoop_end behind text.1 tail turns length), ?_⟩
    exact Subtype.ext (cString_append text.1 tail text.2)

end Texts

section Contract

variable (behind : UInt8) (text : CBytes)

def AlphanumRoundTrips : Prop :=
  (∀ c ∈ textToAlphanum text, isAlphanum c = true ∨ c = byte '_') ∧
    alphanumToText behind (textToAlphanum text) = .ok (some text)

theorem alphanumRoundTrips_iff : AlphanumRoundTrips behind text ↔
    (∀ b ∈ text.1, IsCoded b) ∧ (textToAlphanum text).length < 2 ^ 31 := by
  rw [AlphanumRoundTrips, and_iff_right (textToAlphanum_chars text.1), ← readBack_iff behind]
  by_cases hfits : (textToAlphanum text.1).length < 2 ^ 31
  · have hok : alphanumToText behind (textToAlphanum text.1) = .ok (readBack behind text.1) := by
      rw [alphanumToText, checkedGint, if_pos hfits]
      rfl
    rw [hok, Except.ok.injEq, and_iff_left hfits]
  · refine iff_of_false ?_ fun h => hfits h.2
    rw [alphanumToText, checkedGint, if_neg hfits]
    intro h
    cases h

/-- Two texts whose characters are coded are not written in the same way. -/
theorem textToAlphanum_contract :
    (∀ text : CBytes, AlphanumRoundTrips behind text ↔
      (∀ b ∈ text.1, IsCoded b) ∧ (textToAlphanum text).length < 2 ^ 31) ∧
    ∀ text text' : CBytes, (∀ b ∈ text.1, IsCoded b) → (∀ b ∈ text'.1, IsCoded b) →
      textToAlphanum text = textToAlphanum text' → text = text' := by
  refine ⟨alphanumRoundTrips_iff behind, ?_⟩
  intro text text' h h' heq
  have hback := (readBack_iff behind text).2 h
  have hback' := (readBack_iff behind text').2 h'
  rw [readBack, heq] at hback
  exact Option.some.inj (hback.symm.trans hback')

end Contract

theorem control_alphanum : let text : CBytes := ⟨[1, byte 'a'], by decide⟩
    let text' : CBytes := ⟨[26], by decide⟩
    ¬ AlphanumRoundTrips 0 text ∧ textToAlphanum text = textToAlphanum text' := by
  refine ⟨?_, by decide⟩
  rw [alphanumRoundTrips_iff]
  exact fun h => absurd (h.1 1 List.mem_cons_self) (by decide)

end LibGda
