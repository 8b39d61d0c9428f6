import LibGda.Rfc1738

/-! The texts which an XML document may hold: characters which XML allows, in UTF-8. -/

namespace Xml

open LibGda

def IsChar (c : Char) : Prop :=
  let v := c.val.toNat
  v = 0x9 ∨ v = 0xa ∨ v = 0xd ∨ 0x20 ≤ v ∧ v ≤ 0xfffd ∨ 0x10000 ≤ v

def IsText (text : Bytes) : Prop :=
  ∃ chars : List Char, (∀ c ∈ chars, IsChar c) ∧ text = chars.flatMap String.utf8EncodeChar

variable {text a b : Bytes} {x y : UInt8}

theorem isText_nil : IsText [] := ⟨[], by simp, rfl⟩

theorem IsText.append (ha : IsText a) (hb : IsText b) : IsText (a ++ b) := by
  obtain ⟨cs, hcs, rfl⟩ := ha
  obtain ⟨ds, hds, rfl⟩ := hb
  refine ⟨cs ++ ds, ?_, List.flatMap_append.symm⟩
  intro c hc
  rcases List.mem_append.1 hc with hc | hc
  · exact hcs c hc
  · exact hds c hc

theorem isText_char {c : Char} (h : IsChar c) : IsText (String.utf8EncodeChar c) := by
  refine ⟨[c], ?_, by simp⟩
  intro d hd
  rw [List.mem_singleton.1 hd]
  exact h

def isPrintable (x : UInt8) : Bool := 0x20 ≤ x && x ≤ 0x7e

theorem isPrintable_iff : isPrintable x = true ↔ 0x20 ≤ x.toNat ∧ x.toNat ≤ 0x7e := by
  rw [isPrintable, Bool.and_eq_true, decide_eq_true_eq, decide_eq_true_eq, UInt8.le_iff_toNat_le,
    UInt8.le_iff_toNat_le]
  rfl

theorem encode_ascii {c : Char} (h : c.val.toNat ≤ 0x7f) :
    String.utf8EncodeChar c = [UInt8.ofNat c.val.toNat] := by
  rw [String.utf8EncodeChar]
  exact if_pos h

theorem encode_high {c : Char} (h : ¬ c.val.toNat ≤ 0x7f) :
    ∀ x ∈ String.utf8EncodeChar c, 0x80 ≤ x.toNat := by
  have hlow (n : Nat) : 0x80 ≤ (UInt8.ofNat (n % 0x40 + 0x80)).toNat := by
    rw [UInt8.toNat_ofNat']
    omega
  have htwo (n : Nat) : 0x80 ≤ (UInt8.ofNat (n % 0x20 + 0xc0)).toNat := by
    rw [UInt8.toNat_ofNat']
    omega
  have hthree (n : Nat) : 0x80 ≤ (UInt8.ofNat (n % 0x10 + 0xe0)).toNat := by
    rw [UInt8.toNat_ofNat']
    omega
  have hfour (n : Nat) : 0x80 ≤ (UInt8.ofNat (n % 0x08 + 0xf0)).toNat := by
    rw [UInt8.toNat_ofNat']
    omega
  intro x hx
  rw [String.utf8EncodeChar] at hx
  simp only [if_neg h] at hx
  split at hx
  · simp only [List.mem_cons, List.not_mem_nil, or_false] at hx
    rcases hx with rfl | rfl
    · exact htwo _
    · exact hlow _
  · split at hx
    · simp only [List.mem_cons, List.not_mem_nil, or_false] at hx
      rcases hx with rfl | rfl | rfl
      · exact hthree _
      · exact hlow _
      · exact hlow _
    · simp only [List.mem_cons, List.not_mem_nil, or_false] at hx
      rcases hx with rfl | rfl | rfl | rfl
      · exact hfour _
      · exact hlow _
      · exact hlow _
      · exact hlow _

theorem isText_printable (h : ∀ x ∈ text, isPrintable x = true) : IsText text := by
  induction text with
  | nil => exact isText_nil
  | cons x text ih =>
    rw [List.forall_mem_cons] at h
    have hx := isPrintable_iff.1 h.1
    have hvalid : x.toNat.isValidChar := .inl (by omega)
    have hval : (Char.ofNat x.toNat).val.toNat = x.toNat := by
      rw [Char.ofNat, dif_pos hvalid]
      rfl
    have hone : IsText [x] := by
      have hchar : IsChar (Char.ofNat x.toNat) := by
        rw [IsChar]
        simp only [hval]
        omega
      have henc : String.utf8EncodeChar (Char.ofNat x.toNat) = [x] := by
        rw [encode_ascii (by omega), hval, UInt8.ofNat_toNat]
      exact henc ▸ isText_char hchar
    exact hone.append (ih h.2)

theorem IsText.behind (h : IsText (a ++ x :: b)) (hx : x.toNat ≤ 0x7f) : IsText b := by
  obtain ⟨chars, hchars, htext⟩ := h
  induction chars generalizing a with
  | nil => simp at htext
  | cons c chars ih =>
    rw [List.forall_mem_cons] at hchars
    rw [List.flatMap_cons] at htext
    rcases List.append_eq_append_iff.1 htext with ⟨d, henc, hrest⟩ | ⟨d, ha, hrest⟩
    · -- the byte is one of the first character
      cases d with
      | nil =>
        rw [List.append_nil] at henc
        rw [List.nil_append] at hrest
        exact ih (a := []) hchars.2 hrest
      | cons y d =>
        rw [List.cons_append] at hrest
        obtain ⟨hxy, hb⟩ := List.cons.inj hrest
        have hmem : x ∈ String.utf8EncodeChar c := by
          rw [henc, hxy]
          exact List.mem_append_right a (List.mem_cons_self ..)
        have hascii : c.val.toNat ≤ 0x7f := by
          by_contra hhigh
          have hle := encode_high hhigh x hmem
          omega
        rw [encode_ascii hascii] at henc
        have hd : d = [] := by
          have hlen := congrArg List.length henc
          simp only [List.length_append, List.length_cons, List.length_nil] at hlen
          apply List.eq_nil_of_length_eq_zero
          omega
        rw [hb, hd, List.nil_append]
        exact ⟨chars, hchars.2, rfl⟩
    · exact ih (a := d) hchars.2 hrest.symm

theorem map_inj_high {fold : UInt8 → UInt8}
    (hhigh : ∀ x y, 0x80 ≤ x.toNat → fold x = fold y → x = y) (ha : ∀ x ∈ a, 0x80 ≤ x.toNat)
    (h : a.map fold = b.map fold) : a = b := by
  induction a generalizing b with
  | nil => exact (List.map_eq_nil_iff.1 h.symm).symm
  | cons x a ih =>
    cases b with
    | nil => cases h
    | cons y b =>
      rw [List.forall_mem_cons] at ha
      rw [List.map_cons, List.map_cons] at h
      rw [hhigh x y ha.1 (List.cons.inj h).1, ih ha.2 (List.cons.inj h).2]

theorem IsText.sameCase {fold : UInt8 → UInt8} (h : IsText a) (hsame : a.map fold = b.map fold)
    (hhigh : ∀ x y, 0x80 ≤ x.toNat → fold x = fold y → x = y)
    (hlow : ∀ x y, x.toNat ≤ 0x7f → fold x = fold y → x = y ∨ isPrintable y = true) :
    IsText b := by
  obtain ⟨chars, hchars, rfl⟩ := h
  induction chars generalizing b with
  | nil =>
    rw [List.map_eq_nil_iff.1 hsame.symm]
    exact isText_nil
  | cons c chars ih =>
    rw [List.forall_mem_cons] at hchars
    rw [List.flatMap_cons, List.map_append] at hsame
    obtain ⟨b₁, b₂, rfl, h₁, h₂⟩ := List.map_eq_append_iff.1 hsame.symm
    refine IsText.append ?_ (ih hchars.2 h₂.symm)
    by_cases hascii : c.val.toNat ≤ 0x7f
    · rw [encode_ascii hascii] at h₁
      obtain ⟨y, rfl⟩ : ∃ y, b₁ = [y] := by
        have hlen := congrArg List.length h₁
        rw [List.length_map, List.length_map] at hlen
        exact List.length_eq_one_iff.1 hlen
      have hfold : fold y = fold (UInt8.ofNat c.val.toNat) := by
        simpa using h₁
      have htoNat : (UInt8.ofNat c.val.toNat).toNat ≤ 0x7f := by
        rw [UInt8.toNat_ofNat']
        omega
      rcases hlow _ y htoNat hfold.symm with heq | hprint
      · rw [← heq, ← encode_ascii hascii]
        exact isText_char hchars.1
      · apply isText_printable
        intro z hz
        rw [List.mem_singleton.1 hz]
        exact hprint
    · have hall := encode_high hascii
      have hb₁ : b₁ = String.utf8EncodeChar c :=
        (map_inj_high hhigh hall h₁.symm).symm
      rw [hb₁]
      exact isText_char hchars.1

end Xml

/-! Trees of XML nodes, as an XML library gives them. -/

namespace Xml

open LibGda

inductive Node where
  | element (name : String) (attrs : List (String × String)) (children : List Node)
  | text (content : CBytes)
  | other (name : String)

namespace Node

def name : Node → String
  | element name _ _ => name
  | text _ => "text"
  | other name => name

def isText : Node → Bool
  | text _ => true
  | _ => false

def children : Node → List Node
  | element _ _ children => children
  | _ => []

def getProp (node : Node) (key : String) : Option String :=
  match node with
  | element _ attrs _ => attrs.lookup key
  | _ => none

mutual

def content : Node → Bytes
  | element _ _ children => contents children
  | text content => content.1
  | other _ => []

def contents : List Node → Bytes
  | [] => []
  | node :: nodes => node.content ++ contents nodes

end

mutual

theorem zero_notMem_content : ∀ node : Node, 0 ∉ node.content
  | element _ _ children => by
    rw [content]
    exact zero_notMem_contents children
  | text c => by
    rw [content]
    exact c.2
  | other _ => by simp [content]

theorem zero_notMem_contents : ∀ nodes : List Node, 0 ∉ contents nodes
  | [] => by simp [contents]
  | node :: nodes => by
    rw [contents, List.mem_append, not_or]
    exact ⟨zero_notMem_content node, zero_notMem_contents nodes⟩

end

def getContent (node : Node) : CBytes :=
  ⟨node.content, node.zero_notMem_content⟩

theorem getContent_text (name : String) (attrs : List (String × String)) (s : CBytes) :
    (element name attrs [text s]).getContent = s := by
  apply Subtype.ext
  simp [getContent, content, contents]

theorem getContent_empty (name : String) (attrs : List (String × String)) :
    (element name attrs []).getContent.1 = [] := by
  simp [getContent, content, contents]

end Node

end Xml
