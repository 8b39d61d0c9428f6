import LibGda.DsnConfig
import LibGda.TimeText
import Mathlib.Data.List.DropRight

/-! `GdaQuarkList`: names and values, where the values of some names are kept mangled. -/

namespace LibGda

def randomBlobSize : Nat := 1024

/-- `random_blob`, which is filled once. -/
structure RandomBlob where
  bytes : Bytes
  length_eq : bytes.length = randomBlobSize

structure ProtectedValue where
  offset : Nat
  pvalue : Bytes
  cvalue : Option Bytes := none
  inBlob : offset + pvalue.length ≤ randomBlobSize

/-- `GdaQuarkList`; a table which was not made yet has no entry. -/
structure QuarkList where
  hashTable : List (Bytes × Bytes) := []
  hashProtected : List (Bytes × ProtectedValue) := []

section Tables

variable {V : Type}

def gHashInsert (name : Bytes) (value : V) (table : List (Bytes × V)) : List (Bytes × V) :=
  (name, value) :: table.filter fun entry => entry.1 ≠ name

def gHashLookup (name : Bytes) (table : List (Bytes × V)) : Option V :=
  (table.find? fun entry => entry.1 = name).map Prod.snd

def gHashDelete (name : Bytes) (table : List (Bytes × V)) : List (Bytes × V) :=
  table.filter fun entry => entry.1 ≠ name

end Tables

section Protect

variable (blob : RandomBlob)

def xorBlob (offset : Nat) (s : Bytes) : Bytes :=
  List.zipWith (· ^^^ ·) s (blob.bytes.drop offset)

def protectedGetLength (str : Bytes) (offset : Nat) : Nat :=
  (((xorBlob blob offset str).take (randomBlobSize - offset - 1)).takeWhile (· != 0)).length

/-- The clear value which `protected_value_xor` makes. -/
def ProtectedValue.clear (p : ProtectedValue) : Bytes :=
  (xorBlob blob p.offset p.pvalue).take (protectedGetLength blob p.pvalue p.offset)

/-- `g_random_int_range (0, RANDOM_BLOB_SIZE - l - 2)` for a random number; GLib gives 0 when the
range is empty. -/
def randomOffset (l random : Nat) : Nat :=
  if 0 < randomBlobSize - l - 2 then random % (randomBlobSize - l - 2) else 0

theorem randomOffset_le {l : Nat} (hl : l < randomBlobSize) (random : Nat) :
    randomOffset l random + (l + 1) ≤ randomBlobSize ∧
      l ≤ randomBlobSize - randomOffset l random - 1 := by
  rw [randomOffset]
  by_cases hpos : 0 < randomBlobSize - l - 2
  · have hlt := Nat.mod_lt random hpos
    rw [if_pos hpos]
    omega
  · rw [if_neg hpos]
    omega

/-- `protected_value_new`: nothing when the value is too big. -/
def protectedValueNew (random : Nat) (cvalue : Bytes) : Option ProtectedValue :=
  if hl : cvalue.length < randomBlobSize then
    some {
      offset := randomOffset cvalue.length random
      pvalue := xorBlob blob (randomOffset cvalue.length random) (cvalue ++ [0])
      inBlob := by
        have hle := (randomOffset_le hl random).1
        rw [xorBlob, List.length_zipWith, List.length_append, List.length_singleton]
        omega }
  else none

def ProtectedValue.copy (p : ProtectedValue) : ProtectedValue where
  offset := p.offset
  pvalue := p.pvalue.take (protectedGetLength blob p.pvalue p.offset + 1)
  inBlob := by
    have hle := p.inBlob
    rw [List.length_take]
    omega

def ProtectedValue.unmangle (p : ProtectedValue) : ProtectedValue :=
  { p with cvalue := some (p.cvalue.getD (p.clear blob)) }

def nameIsProtected (name : Bytes) : Bool :=
  (name.take 4).map asciiLower == bytes "pass" || (name.take 8).map asciiLower == bytes "username"

end Protect

section Calls

variable (blob : RandomBlob)

def strStrip (s : Bytes) : Bytes := (s.dropWhile asciiIsSpace).rdropWhile asciiIsSpace

def pairOf (part : Bytes) : Option (Bytes × Bytes) :=
  if byte '=' ∈ part then
    some (rfc1738Decode (strStrip (part.takeWhile (· != byte '='))),
      rfc1738Decode (strStrip (part.dropWhile (· != byte '=')).tail))
  else none

def pairsOf (string : Bytes) : List (Bytes × Bytes) :=
  ((string.splitOn (byte ';')).takeWhile (· != [])).filterMap pairOf

def addPair (q : QuarkList) (random : Nat) (pair : Bytes × Bytes) : QuarkList :=
  if nameIsProtected pair.1 = false then
    { q with hashTable := gHashInsert pair.1 pair.2 q.hashTable }
  else
    match protectedValueNew blob random pair.2 with
    | some pvalue => { q with hashProtected := gHashInsert pair.1 pvalue q.hashProtected }
    | none => { q with hashTable := gHashInsert pair.1 pair.2 q.hashTable }

def addPairs (q : QuarkList) (random : Nat → Nat) : List (Bytes × Bytes) → QuarkList
  | [] => q
  | pair :: pairs => addPairs (addPair blob q (random 0) pair) (fun n => random (n + 1)) pairs

def quarkListAddFromString (random : Nat → Nat) (q : QuarkList) (string : Bytes) (cleanup : Bool) :
    QuarkList :=
  if string = [] then q else addPairs blob (if cleanup then {} else q) random (pairsOf string)

def quarkListFind (q : QuarkList) (name : Bytes) : QuarkList × Option Bytes :=
  match gHashLookup name q.hashTable with
  | some value => (q, some value)
  | none =>
    match gHashLookup name q.hashProtected with
    | some pvalue =>
      ({ q with
          hashProtected := q.hashProtected.map fun entry =>
            (entry.1, if entry.1 = name then entry.2.unmangle blob else entry.2) },
        (pvalue.unmangle blob).cvalue)
    | none => (q, none)

def quarkListRemove (q : QuarkList) (name : Bytes) : QuarkList :=
  if (gHashLookup name q.hashTable).isSome then
    { q with hashTable := gHashDelete name q.hashTable }
  else { q with hashProtected := gHashDelete name q.hashProtected }

def quarkListProtectValues (q : QuarkList) : QuarkList :=
  { q with
    hashProtected := q.hashProtected.map fun entry => (entry.1, { entry.2 with cvalue := none }) }

/-- `gda_quark_list_foreach`: the pairs which the function is called with. -/
def quarkListForeach (q : QuarkList) : List (Bytes × Bytes) :=
  q.hashTable ++ q.hashProtected.map fun entry =>
    (entry.1, entry.2.cvalue.getD (entry.2.clear blob))

def quarkListCopy (q : QuarkList) : QuarkList :=
  { q with hashProtected := q.hashProtected.map fun entry => (entry.1, entry.2.copy blob) }

end Calls

section Runs

variable (blob : RandomBlob)

/-- A list of `key=value` which is made with `gda_rfc1738_encode`. -/
def quarkText (pairs : List (CBytes × CBytes)) : Bytes :=
  [byte ';'].intercalate
    (pairs.map fun pair => rfc1738Encode pair.1.1 ++ byte '=' :: rfc1738Encode pair.2.1)

inductive QuarkCall where
  | addFromString (random : Nat → Nat) (pairs : List (CBytes × CBytes)) (cleanup : Bool)
  | find (name : Bytes)
  | remove (name : Bytes)
  | protectValues
  | foreach
  | copy
  | clear

inductive QuarkAnswer where
  | done
  | found (value : Option Bytes)
  | pairs (pairs : List (Bytes × Bytes))

def quarkStep (lists : List QuarkList) (which : Nat) (h : which < lists.length) :
    QuarkCall → List QuarkList × QuarkAnswer
  | .addFromString random pairs cleanup =>
    (lists.set which
      (quarkListAddFromString blob random lists[which] (quarkText pairs) cleanup), .done)
  | .find name =>
    let (q, value) := quarkListFind blob lists[which] name
    (lists.set which q, .found value)
  | .remove name => (lists.set which (quarkListRemove lists[which] name), .done)
  | .protectValues => (lists.set which (quarkListProtectValues lists[which]), .done)
  | .foreach => (lists, .pairs (quarkListForeach blob lists[which]))
  | .copy => (lists ++ [quarkListCopy blob lists[which]], .done)
  | .clear => (lists.set which {}, .done)

abbrev QuarkMap := Bytes → Option Bytes

def putPairs (table : QuarkMap) (pairs : List (CBytes × CBytes)) : QuarkMap :=
  pairs.foldl (fun table pair => KeyTable.put table pair.1.1 pair.2.1) table

def mapStep (maps : List QuarkMap) (which : Nat) (h : which < maps.length) :
    QuarkCall → List QuarkMap
  | .addFromString _ pairs cleanup =>
    maps.set which (putPairs (if cleanup then fun _ => none else maps[which]) pairs)
  | .remove name => maps.set which (KeyTable.drop maps[which] name)
  | .copy => maps ++ [maps[which]]
  | .clear => maps.set which fun _ => none
  | _ => maps

def AnswerRight (table : QuarkMap) : QuarkCall → QuarkAnswer → Prop
  | .find name, .found value => value = table name
  | .foreach, .pairs pairs =>
    (pairs.map Prod.fst).Nodup ∧ ∀ name value, (name, value) ∈ pairs ↔ table name = some value
  | .find _, _ => False
  | .foreach, _ => False
  | _, _ => True

/-- All the answers of a run are the ones of the maps. A call on a list which is not there ends it. -/
def QuarkRunMeets : List QuarkList → List QuarkMap → List (Nat × QuarkCall) → Prop
  | _, _, [] => True
  | lists, maps, (which, call) :: calls =>
    ∀ (h : which < lists.length) (h' : which < maps.length),
      AnswerRight maps[which] call (quarkStep blob lists which h call).2 ∧
        QuarkRunMeets (quarkStep blob lists which h call).1 (mapStep maps which h' call) calls

def PairsFit (table : QuarkMap) : List (CBytes × CBytes) → Prop
  | [] => True
  | pair :: pairs =>
    (nameIsProtected pair.1.1 = true → ∀ old, table pair.1.1 = some old →
      (old.length < randomBlobSize ↔ pair.2.1.length < randomBlobSize)) ∧
      PairsFit (KeyTable.put table pair.1.1 pair.2.1) pairs

def QuarkCallFits (table : QuarkMap) : QuarkCall → Prop
  | .addFromString _ pairs cleanup =>
    (pairs = [] → cleanup = true → table = fun _ => none) ∧
      PairsFit (if cleanup then fun _ => none else table) pairs
  | _ => True

def QuarkRunFits : List QuarkMap → List (Nat × QuarkCall) → Prop
  | _, [] => True
  | maps, (which, call) :: calls =>
    ∀ h : which < maps.length,
      QuarkCallFits maps[which] call ∧ QuarkRunFits (mapStep maps which h call) calls

end Runs

section Text

variable {s : Bytes}

theorem encode_notSpace (s : Bytes) : ∀ b ∈ rfc1738Encode s, asciiIsSpace b = false := by
  intro b hb
  obtain ⟨c, -, hc⟩ := List.mem_flatMap.1 hb
  have hdigits : ∀ n < 16, asciiIsSpace (hexDigit (UInt8.ofNat n)) = false := by decide
  rw [encodeByte] at hc
  split at hc
  · have hlt := c.toNat_lt
    have hhigh := hdigits (c / 16).toNat (by simp; omega)
    have hlow := hdigits (c % 16).toNat (by simp; omega)
    rw [UInt8.ofNat_toNat] at hhigh hlow
    simp only [List.mem_cons, List.not_mem_nil, or_false] at hc
    rcases hc with rfl | rfl | rfl
    · rfl
    · exact hhigh
    · exact hlow
  · next hplain =>
    rw [List.mem_singleton.1 hc]
    apply eq_false_of_ne_true
    intro hspace
    apply hplain
    simp only [asciiIsSpace, Bool.or_eq_true, beq_iff_eq] at hspace
    rcases hspace with (((rfl | rfl) | rfl) | rfl) | rfl <;> decide

theorem strStrip_encode (s : Bytes) : strStrip (rfc1738Encode s) = rfc1738Encode s := by
  have hspace := encode_notSpace s
  have hfront : (rfc1738Encode s).dropWhile asciiIsSpace = rfc1738Encode s := by
    cases hencode : rfc1738Encode s with
    | nil => rfl
    | cons b rest =>
      rw [List.dropWhile_cons_of_neg]
      simp [hspace b (hencode ▸ List.mem_cons_self)]
  rw [strStrip, hfront, List.rdropWhile_eq_self_iff]
  intro hne
  simp [hspace _ (List.getLast_mem hne)]

theorem pairOf_encoded (pair : CBytes × CBytes) :
    pairOf (rfc1738Encode pair.1.1 ++ byte '=' :: rfc1738Encode pair.2.1) =
      some (pair.1.1, pair.2.1) := by
  have hname : ∀ b ∈ rfc1738Encode pair.1.1, (b != byte '=') = true := by
    intro b hb
    have hne : b ≠ byte '=' := fun heq => not_mem_encode (by decide) pair.1.1 (heq ▸ hb)
    simpa using hne
  rw [pairOf, if_pos (List.mem_append_right _ List.mem_cons_self),
    List.takeWhile_append_of_pos hname, List.dropWhile_append_of_pos hname]
  simp [strStrip_encode, rfc1738Decode_encode]

theorem pairsOf_quarkText (pairs : List (CBytes × CBytes)) (hne : pairs ≠ []) :
    pairsOf (quarkText pairs) = pairs.map fun pair => (pair.1.1, pair.2.1) := by
  have hsplit : (quarkText pairs).splitOn (byte ';') = pairs.map fun pair =>
      rfc1738Encode pair.1.1 ++ byte '=' :: rfc1738Encode pair.2.1 := by
    apply List.splitOn_intercalate
    · intro part hpart hmem
      obtain ⟨pair, -, rfl⟩ := List.mem_map.1 hpart
      rcases List.mem_append.1 hmem with hname | hvalue
      · exact not_mem_encode (by decide) _ hname
      · rcases List.mem_cons.1 hvalue with heq | hvalue
        · exact absurd heq (by decide)
        · exact not_mem_encode (by decide) _ hvalue
    · simpa using hne
  have hparts : ∀ part ∈ pairs.map fun pair =>
      rfc1738Encode pair.1.1 ++ byte '=' :: rfc1738Encode pair.2.1, (part != []) = true := by
    intro part hpart
    obtain ⟨pair, -, rfl⟩ := List.mem_map.1 hpart
    simp
  rw [pairsOf, hsplit, List.takeWhile_eq_self_iff.2 hparts, List.filterMap_map]
  have hpair : (fun pair : CBytes × CBytes => pairOf (rfc1738Encode pair.1.1 ++ byte '=' ::
      rfc1738Encode pair.2.1)) = fun pair => some (pair.1.1, pair.2.1) := by
    funext pair
    exact pairOf_encoded pair
  rw [Function.comp_def, hpair, List.filterMap_eq_map']

theorem quarkText_eq_nil {pairs : List (CBytes × CBytes)} : quarkText pairs = [] ↔ pairs = [] := by
  constructor
  · intro h
    by_contra hne
    have hpairs := pairsOf_quarkText pairs hne
    rw [h] at hpairs
    have hnil : pairsOf [] = [] := by decide
    rw [hnil] at hpairs
    exact hne (List.map_eq_nil_iff.1 hpairs.symm)
  · rintro rfl
    rfl

end Text

section Mangled

variable {blob : RandomBlob} {v : Bytes} {random : Nat} {p : ProtectedValue}

theorem xor_xor (s key : Bytes) (h : s.length ≤ key.length) :
    List.zipWith (· ^^^ ·) (List.zipWith (· ^^^ ·) s key) key = s := by
  induction s generalizing key with
  | nil => rfl
  | cons b s ih =>
    cases key with
    | nil => cases h
    | cons k key =>
      have hb : b ^^^ k ^^^ k = b := by
        rw [UInt8.xor_assoc, UInt8.xor_self, UInt8.xor_zero]
      rw [List.zipWith_cons_cons, List.zipWith_cons_cons, hb, ih key (Nat.le_of_succ_le_succ h)]

/-- The entry is what `protected_value_new` made of a value. -/
def ProtectedValue.Hides (blob : RandomBlob) (p : ProtectedValue) (v : Bytes) : Prop :=
  v.length < randomBlobSize ∧ 0 ∉ v ∧ (∃ random, p.offset = randomOffset v.length random ∧
    p.pvalue = xorBlob blob p.offset (v ++ [0])) ∧ ∀ c ∈ p.cvalue, c = v

theorem ProtectedValue.Hides.length (h : p.Hides blob v) :
    protectedGetLength blob p.pvalue p.offset = v.length ∧
      xorBlob blob p.offset p.pvalue = v ++ [0] := by
  obtain ⟨hlt, hzero, ⟨random, hoffset, hvalue⟩, -⟩ := h
  obtain ⟨hin, hle⟩ := randomOffset_le hlt random
  have hxor : xorBlob blob p.offset p.pvalue = v ++ [0] := by
    rw [hvalue, xorBlob, xorBlob]
    apply xor_xor
    rw [List.length_drop, blob.length_eq, hoffset, List.length_append, List.length_singleton]
    omega
  refine ⟨?_, hxor⟩
  have hall : ∀ b ∈ v, (b != 0) = true := by
    intro b hb
    have hne : b ≠ 0 := fun heq => hzero (heq ▸ hb)
    simpa using hne
  rw [protectedGetLength, hxor, hoffset, List.take_append, List.take_of_length_le hle,
    List.takeWhile_append_of_pos hall, List.length_append]
  cases randomBlobSize - randomOffset v.length random - 1 - v.length with
  | zero => rfl
  | succ n => simp

theorem ProtectedValue.Hides.clear_eq (h : p.Hides blob v) : p.clear blob = v := by
  rw [ProtectedValue.clear, h.length.1, h.length.2, List.take_left']
  rfl

theorem ProtectedValue.Hides.shown (h : p.Hides blob v) : p.cvalue.getD (p.clear blob) = v := by
  cases hclear : p.cvalue with
  | none => exact h.clear_eq
  | some c => exact h.2.2.2 c hclear

theorem ProtectedValue.Hides.unmangle (h : p.Hides blob v) : (p.unmangle blob).Hides blob v := by
  refine ⟨h.1, h.2.1, h.2.2.1, ?_⟩
  intro c hc
  rw [← Option.some.inj hc]
  exact h.shown

theorem ProtectedValue.Hides.mangle (h : p.Hides blob v) :
    ({ p with cvalue := none } : ProtectedValue).Hides blob v :=
  ⟨h.1, h.2.1, h.2.2.1, fun _ hc => by cases hc⟩

theorem ProtectedValue.Hides.copy (h : p.Hides blob v) : (p.copy blob).Hides blob v := by
  obtain ⟨random, hoffset, hvalue⟩ := h.2.2.1
  refine ⟨h.1, h.2.1, ⟨random, hoffset, ?_⟩, fun _ hc => by cases hc⟩
  have hlength : p.pvalue.length ≤ v.length + 1 := by
    rw [hvalue, xorBlob, List.length_zipWith, List.length_append, List.length_singleton]
    omega
  show p.pvalue.take (protectedGetLength blob p.pvalue p.offset + 1) = _
  rw [h.length.1, List.take_of_length_le hlength]
  exact hvalue

theorem hides_new (hzero : 0 ∉ v) (h : protectedValueNew blob random v = some p) :
    p.Hides blob v := by
  rw [protectedValueNew] at h
  split at h
  · next hlt =>
    rw [← Option.some.inj h]
    exact ⟨hlt, hzero, ⟨random, rfl, rfl⟩, fun _ hc => by cases hc⟩
  · cases h

end Mangled

section Lookup

variable {V : Type} {name : Bytes} {value : V} {table : List (Bytes × V)} {entry : Bytes × V}

theorem mem_gHashInsert : entry ∈ gHashInsert name value table ↔
    entry = (name, value) ∨ entry ∈ table ∧ entry.1 ≠ name := by
  simp [gHashInsert]

theorem mem_gHashDelete : entry ∈ gHashDelete name table ↔ entry ∈ table ∧ entry.1 ≠ name := by
  simp [gHashDelete]

theorem nodup_gHashDelete (h : (table.map Prod.fst).Nodup) :
    ((gHashDelete name table).map Prod.fst).Nodup :=
  (List.filter_sublist.map Prod.fst).nodup h

theorem nodup_gHashInsert (h : (table.map Prod.fst).Nodup) :
    ((gHashInsert name value table).map Prod.fst).Nodup := by
  rw [gHashInsert, List.map_cons, List.nodup_cons]
  refine ⟨?_, nodup_gHashDelete h⟩
  intro hmem
  obtain ⟨entry, hentry, hname⟩ := List.mem_map.1 hmem
  exact (mem_gHashDelete.1 hentry).2 hname

theorem gHashLookup_eq_none : gHashLookup name table = none ↔ ∀ value, (name, value) ∉ table := by
  rw [gHashLookup, Option.map_eq_none_iff, List.find?_eq_none]
  constructor
  · intro h value hmem
    exact h _ hmem (decide_eq_true rfl)
  · intro h entry hmem hname
    have heq : entry.1 = name := of_decide_eq_true hname
    exact h entry.2 (heq ▸ hmem)

theorem mem_of_gHashLookup (h : gHashLookup name table = some value) : (name, value) ∈ table := by
  obtain ⟨entry, hfind, rfl⟩ := Option.map_eq_some_iff.1 h
  have hname := List.find?_some hfind
  have heq : entry.1 = name := of_decide_eq_true hname
  exact heq ▸ List.mem_of_find?_eq_some hfind

end Lookup

section Simulation

variable {blob : RandomBlob} {q : QuarkList} {table : QuarkMap} {lists : List QuarkList}
  {maps : List QuarkMap} {name value : Bytes}

structure QuarkList.Shows (blob : RandomBlob) (q : QuarkList) (table : QuarkMap) : Prop where
  plain : ∀ name value, (name, value) ∈ q.hashTable → table name = some value ∧
    (nameIsProtected name = true → ¬ value.length < randomBlobSize)
  hidden : ∀ name p, (name, p) ∈ q.hashProtected → nameIsProtected name = true ∧
    ∃ value, table name = some value ∧ p.Hides blob value
  shown : ∀ name value, table name = some value →
    (name, value) ∈ q.hashTable ∨ ∃ p, (name, p) ∈ q.hashProtected
  plainNames : (q.hashTable.map Prod.fst).Nodup
  hiddenNames : (q.hashProtected.map Prod.fst).Nodup

theorem QuarkList.shows_new : ({} : QuarkList).Shows blob fun _ => none := by
  constructor <;> simp

theorem QuarkList.Shows.apart (h : q.Shows blob table) {p : ProtectedValue}
    (hplain : (name, value) ∈ q.hashTable) : (name, p) ∉ q.hashProtected := by
  intro hhidden
  obtain ⟨hprotected, other, hother, hhides⟩ := h.hidden name p hhidden
  obtain ⟨hvalue, hlong⟩ := h.plain name value hplain
  obtain rfl : value = other := Option.some.inj (hvalue.symm.trans hother)
  exact hlong hprotected hhides.1

theorem QuarkList.Shows.mapHidden (h : q.Shows blob table)
    (f : Bytes × ProtectedValue → ProtectedValue)
    (hf : ∀ entry value, entry.2.Hides blob value → (f entry).Hides blob value) :
    QuarkList.Shows blob
      { q with hashProtected := q.hashProtected.map fun entry => (entry.1, f entry) } table := by
  refine ⟨h.plain, ?_, ?_, h.plainNames, ?_⟩
  · intro name p hmem
    obtain ⟨entry, hentry, heq⟩ := List.mem_map.1 hmem
    obtain ⟨rfl, rfl⟩ := Prod.mk.inj heq
    obtain ⟨hprotected, value, hvalue, hhides⟩ := h.hidden entry.1 entry.2 hentry
    exact ⟨hprotected, value, hvalue, hf entry value hhides⟩
  · intro name value hvalue
    refine (h.shown name value hvalue).imp_right ?_
    rintro ⟨p, hp⟩
    exact ⟨f (name, p), List.mem_map.2 ⟨(name, p), hp, rfl⟩⟩
  · rw [List.map_map]
    exact h.hiddenNames

theorem QuarkList.Shows.putPlain (h : q.Shows blob table)
    (hlong : nameIsProtected name = true → ¬ value.length < randomBlobSize)
    (hfree : ∀ p, (name, p) ∉ q.hashProtected) :
    QuarkList.Shows blob { q with hashTable := gHashInsert name value q.hashTable }
      (KeyTable.put table name value) := by
  refine ⟨?_, ?_, ?_, nodup_gHashInsert h.plainNames, h.hiddenNames⟩
  · intro other v hmem
    rcases mem_gHashInsert.1 hmem with heq | ⟨hmem, hne⟩
    · obtain ⟨rfl, rfl⟩ := Prod.mk.inj heq
      exact ⟨KeyTable.put_self _ _ _, hlong⟩
    · rw [KeyTable.put_of_ne _ _ hne]
      exact h.plain other v hmem
  · intro other p hmem
    have hne : other ≠ name := fun heq => hfree p (heq ▸ hmem)
    rw [KeyTable.put_of_ne _ _ hne]
    exact h.hidden other p hmem
  · intro other v hv
    by_cases hne : other = name
    · rw [hne, KeyTable.put_self] at hv
      rw [hne, ← Option.some.inj hv]
      exact .inl (mem_gHashInsert.2 (.inl rfl))
    · rw [KeyTable.put_of_ne _ _ hne] at hv
      exact (h.shown other v hv).imp_left fun hmem => mem_gHashInsert.2 (.inr ⟨hmem, hne⟩)

theorem QuarkList.Shows.putHidden (h : q.Shows blob table) {p : ProtectedValue}
    (hprotected : nameIsProtected name = true) (hhides : p.Hides blob value)
    (hfree : ∀ v, (name, v) ∉ q.hashTable) :
    QuarkList.Shows blob { q with hashProtected := gHashInsert name p q.hashProtected }
      (KeyTable.put table name value) := by
  refine ⟨?_, ?_, ?_, h.plainNames, nodup_gHashInsert h.hiddenNames⟩
  · intro other v hmem
    have hne : other ≠ name := fun heq => hfree v (heq ▸ hmem)
    rw [KeyTable.put_of_ne _ _ hne]
    exact h.plain other v hmem
  · intro other p' hmem
    rcases mem_gHashInsert.1 hmem with heq | ⟨hmem, hne⟩
    · obtain ⟨rfl, rfl⟩ := Prod.mk.inj heq
      exact ⟨hprotected, value, KeyTable.put_self _ _ _, hhides⟩
    · rw [KeyTable.put_of_ne _ _ hne]
      exact h.hidden other p' hmem
  · intro other v hv
    by_cases hne : other = name
    · exact .inr ⟨p, mem_gHashInsert.2 (.inl (by rw [hne]))⟩
    · rw [KeyTable.put_of_ne _ _ hne] at hv
      refine (h.shown other v hv).imp_right ?_
      rintro ⟨p', hp'⟩
      exact ⟨p', mem_gHashInsert.2 (.inr ⟨hp', hne⟩)⟩

theorem QuarkList.Shows.addPair (h : q.Shows blob table) (random : Nat) (hzero : 0 ∉ value)
    (hfits : nameIsProtected name = true → ∀ old, table name = some old →
      (old.length < randomBlobSize ↔ value.length < randomBlobSize)) :
    (LibGda.addPair blob q random (name, value)).Shows blob (KeyTable.put table name value) := by
  rw [LibGda.addPair]
  by_cases hprotected : nameIsProtected name = true
  · rw [if_neg (by simp [hprotected])]
    cases hnew : protectedValueNew blob random value with
    | some p =>
      have hhides := hides_new hzero hnew
      refine h.putHidden hprotected hhides ?_
      intro v hv
      obtain ⟨hold, hlong⟩ := h.plain name v hv
      exact hlong hprotected ((hfits hprotected v hold).2 hhides.1)
    | none =>
      have hlong : ¬ value.length < randomBlobSize := by
        intro hlt
        rw [protectedValueNew, dif_pos hlt] at hnew
        cases hnew
      refine h.putPlain (fun _ => hlong) ?_
      intro p hp
      obtain ⟨-, old, hold, hhides⟩ := h.hidden name p hp
      exact hlong ((hfits hprotected old hold).1 hhides.1)
  · rw [if_pos (eq_false_of_ne_true hprotected)]
    refine h.putPlain (fun hyes => absurd hyes hprotected) ?_
    intro p hp
    exact hprotected (h.hidden name p hp).1

theorem QuarkList.Shows.addPairs (h : q.Shows blob table) (random : Nat → Nat)
    (pairs : List (CBytes × CBytes)) (hfits : PairsFit table pairs) :
    (LibGda.addPairs blob q random (pairs.map fun pair => (pair.1.1, pair.2.1))).Shows blob
      (putPairs table pairs) := by
  induction pairs generalizing q table random with
  | nil => exact h
  | cons pair pairs ih => exact ih (h.addPair (random 0) pair.2.2 hfits.1) _ hfits.2

theorem QuarkList.Shows.addFromString (h : q.Shows blob table) (random : Nat → Nat)
    {pairs : List (CBytes × CBytes)} {cleanup : Bool}
    (hfits : QuarkCallFits table (.addFromString random pairs cleanup)) :
    (quarkListAddFromString blob random q (quarkText pairs) cleanup).Shows blob
      (putPairs (if cleanup then fun _ => none else table) pairs) := by
  obtain ⟨hempty, hpairs⟩ := hfits
  by_cases hnil : pairs = []
  · rw [quarkListAddFromString, if_pos (quarkText_eq_nil.2 hnil), hnil]
    cases cleanup with
    | false => exact h
    | true =>
      have hnone := hempty hnil rfl
      rw [← hnone]
      exact h
  · rw [quarkListAddFromString, if_neg (fun heq => hnil (quarkText_eq_nil.1 heq)),
      pairsOf_quarkText pairs hnil]
    refine QuarkList.Shows.addPairs ?_ random pairs hpairs
    cases cleanup with
    | false => exact h
    | true => exact QuarkList.shows_new

theorem QuarkList.Shows.find (h : q.Shows blob table) (name : Bytes) :
    (quarkListFind blob q name).1.Shows blob table ∧
      (quarkListFind blob q name).2 = table name := by
  rw [quarkListFind]
  cases hplain : gHashLookup name q.hashTable with
  | some value => exact ⟨h, (h.plain name value (mem_of_gHashLookup hplain)).1.symm⟩
  | none =>
    cases hhidden : gHashLookup name q.hashProtected with
    | some p =>
      obtain ⟨-, value, hvalue, hhides⟩ := h.hidden name p (mem_of_gHashLookup hhidden)
      refine ⟨h.mapHidden (fun entry => if entry.1 = name then entry.2.unmangle blob else entry.2)
        ?_, ?_⟩
      · intro entry value hentry
        split
        · exact hentry.unmangle
        · exact hentry
      · rw [hvalue]
        exact congrArg some hhides.shown
    | none =>
      refine ⟨h, ?_⟩
      cases hvalue : table name with
      | none => rfl
      | some value =>
        rcases h.shown name value hvalue with hmem | ⟨p, hmem⟩
        · exact absurd hmem (gHashLookup_eq_none.1 hplain value)
        · exact absurd hmem (gHashLookup_eq_none.1 hhidden p)

theorem QuarkList.Shows.remove (h : q.Shows blob table) (name : Bytes) :
    (quarkListRemove q name).Shows blob (KeyTable.drop table name) := by
  have hshown : ∀ other value, KeyTable.drop table name other = some value →
      other ≠ name ∧ table other = some value := by
    intro other value hvalue
    by_cases heq : other = name
    · rw [heq, KeyTable.drop_self] at hvalue
      cases hvalue
    · rw [KeyTable.drop_of_ne _ heq] at hvalue
      exact ⟨heq, hvalue⟩
  rw [quarkListRemove]
  cases hplain : gHashLookup name q.hashTable with
  | some value =>
    have hmem := mem_of_gHashLookup hplain
    refine ⟨?_, ?_, ?_, nodup_gHashDelete h.plainNames, h.hiddenNames⟩
    · intro other v hv
      obtain ⟨hin, hne⟩ := mem_gHashDelete.1 hv
      rw [KeyTable.drop_of_ne _ hne]
      exact h.plain other v hin
    · intro other p hp
      have hne : other ≠ name := fun heq => h.apart hmem (heq ▸ hp)
      rw [KeyTable.drop_of_ne _ hne]
      exact h.hidden other p hp
    · intro other v hv
      obtain ⟨hne, hold⟩ := hshown other v hv
      exact (h.shown other v hold).imp_left fun hin => mem_gHashDelete.2 ⟨hin, hne⟩
  | none =>
    refine ⟨?_, ?_, ?_, h.plainNames, nodup_gHashDelete h.hiddenNames⟩
    · intro other v hv
      have hne : other ≠ name := fun heq => gHashLookup_eq_none.1 hplain v (heq ▸ hv)
      rw [KeyTable.drop_of_ne _ hne]
      exact h.plain other v hv
    · intro other p hp
      obtain ⟨hin, hne⟩ := mem_gHashDelete.1 hp
      rw [KeyTable.drop_of_ne _ hne]
      exact h.hidden other p hin
    · intro other v hv
      obtain ⟨hne, hold⟩ := hshown other v hv
      refine (h.shown other v hold).imp_right ?_
      rintro ⟨p, hp⟩
      exact ⟨p, mem_gHashDelete.2 ⟨hp, hne⟩⟩

theorem QuarkList.Shows.foreach (h : q.Shows blob table) :
    AnswerRight table .foreach (.pairs (quarkListForeach blob q)) := by
  have hvalues : ∀ name value, (name, value) ∈ quarkListForeach blob q ↔
      (name, value) ∈ q.hashTable ∨
        ∃ p, (name, p) ∈ q.hashProtected ∧ table name = some value := by
    intro name value
    rw [quarkListForeach, List.mem_append, List.mem_map]
    constructor
    · intro hmem
      refine hmem.imp_right ?_
      rintro ⟨entry, hentry, heq⟩
      obtain ⟨rfl, rfl⟩ := Prod.mk.inj heq
      obtain ⟨-, v, hv, hhides⟩ := h.hidden entry.1 entry.2 hentry
      exact ⟨entry.2, hentry, by rw [hv, hhides.shown]⟩
    · intro hmem
      refine hmem.imp_right ?_
      rintro ⟨p, hp, hvalue⟩
      obtain ⟨-, v, hv, hhides⟩ := h.hidden name p hp
      exact ⟨(name, p), hp, by rw [hhides.shown, Option.some.inj (hv.symm.trans hvalue)]⟩
  constructor
  · rw [quarkListForeach, List.map_append, List.map_map]
    refine List.nodup_append.2 ⟨h.plainNames, h.hiddenNames, ?_⟩
    rintro a ha b hb rfl
    obtain ⟨plain, hplain, rfl⟩ := List.mem_map.1 ha
    obtain ⟨hidden, hhidden, hname⟩ := List.mem_map.1 hb
    have hsame : hidden.1 = plain.1 := hname
    exact h.apart (p := hidden.2) hplain (hsame ▸ hhidden)
  · intro name value
    rw [hvalues]
    constructor
    · intro hmem
      rcases hmem with hmem | ⟨p, -, hvalue⟩
      · exact (h.plain name value hmem).1
      · exact hvalue
    · intro hvalue
      exact (h.shown name value hvalue).imp_right fun hin => hin.imp fun _ hp => ⟨hp, hvalue⟩

def AllShow (blob : RandomBlob) (lists : List QuarkList) (maps : List QuarkMap) : Prop :=
  lists.length = maps.length ∧ ∀ i (h : i < lists.length) (h' : i < maps.length),
    lists[i].Shows blob maps[i]

theorem AllShow.set (h : AllShow blob lists maps) (i : Nat) (hq : q.Shows blob table) :
    AllShow blob (lists.set i q) (maps.set i table) := by
  refine ⟨by rw [List.length_set, List.length_set, h.1], ?_⟩
  intro j hj hj'
  rw [List.getElem_set, List.getElem_set]
  split
  · exact hq
  · exact h.2 j _ _

theorem AllShow.append (h : AllShow blob lists maps) (hq : q.Shows blob table) :
    AllShow blob (lists ++ [q]) (maps ++ [table]) := by
  refine ⟨by rw [List.length_append, List.length_append, h.1]; rfl, ?_⟩
  intro j hj hj'
  rw [List.getElem_append, List.getElem_append]
  by_cases hlt : j < lists.length
  · rw [dif_pos hlt, dif_pos (h.1 ▸ hlt)]
    exact h.2 j _ _
  · rw [dif_neg hlt, dif_neg (h.1 ▸ hlt), List.getElem_singleton, List.getElem_singleton]
    exact hq

theorem AllShow.setSame (h : AllShow blob lists maps) {i : Nat} (hi : i < maps.length)
    (hq : q.Shows blob maps[i]) : AllShow blob (lists.set i q) maps := by
  have hset := h.set i hq
  rwa [List.set_getElem_self] at hset

theorem AllShow.step (h : AllShow blob lists maps) {which : Nat} (hlt : which < lists.length)
    (hlt' : which < maps.length) (call : QuarkCall) (hfits : QuarkCallFits maps[which] call) :
    AllShow blob (quarkStep blob lists which hlt call).1 (mapStep maps which hlt' call) ∧
      AnswerRight maps[which] call (quarkStep blob lists which hlt call).2 := by
  have hq := h.2 which hlt hlt'
  cases call with
  | addFromString random pairs cleanup =>
    exact ⟨h.set which (hq.addFromString random hfits), trivial⟩
  | find name =>
    obtain ⟨hshows, hvalue⟩ := hq.find name
    exact ⟨h.setSame hlt' hshows, hvalue⟩
  | remove name => exact ⟨h.set which (hq.remove name), trivial⟩
  | protectValues =>
    exact ⟨h.setSame hlt' (hq.mapHidden (fun entry => { entry.2 with cvalue := none })
      fun _ _ hentry => hentry.mangle), trivial⟩
  | foreach => exact ⟨h, hq.foreach⟩
  | copy => exact ⟨h.append (hq.mapHidden (fun entry => entry.2.copy blob)
      fun _ _ hentry => hentry.copy), trivial⟩
  | clear => exact ⟨h.set which QuarkList.shows_new, trivial⟩

theorem AllShow.run (h : AllShow blob lists maps) (calls : List (Nat × QuarkCall))
    (hfits : QuarkRunFits maps calls) : QuarkRunMeets blob lists maps calls := by
  induction calls generalizing lists maps with
  | nil => trivial
  | cons call calls ih =>
    intro hlt hlt'
    obtain ⟨hcall, hrest⟩ := hfits hlt'
    obtain ⟨hnext, hanswer⟩ := h.step hlt hlt' call.2 hcall
    exact ⟨hanswer, ih hnext hrest⟩

theorem allShow_new (blob : RandomBlob) : AllShow blob [{}] [fun _ => none] := by
  refine ⟨rfl, ?_⟩
  intro i hi hi'
  obtain rfl : i = 0 := by simpa using hi
  exact QuarkList.shows_new

/-- In every run from a new list, whatever the random numbers are, the lists answer as maps do. -/
theorem quarkList_run (blob : RandomBlob) (calls : List (Nat × QuarkCall))
    (hfits : QuarkRunFits [fun _ => none] calls) :
    QuarkRunMeets blob [{}] [fun _ => none] calls :=
  (allShow_new blob).run calls hfits

def exampleBlob : RandomBlob := ⟨List.replicate randomBlobSize 1, List.length_replicate⟩

theorem zero_notMem_password : 0 ∉ bytes "PASSWORD" := by decide

theorem zero_notMem_value : 0 ∉ bytes "a;b" := by decide

def examplePair : CBytes × CBytes :=
  (⟨bytes "PASSWORD", zero_notMem_password⟩, ⟨bytes "a;b", zero_notMem_value⟩)

theorem quarkList_run_password : QuarkRunMeets exampleBlob [{}] [fun _ => none]
    [(0, .addFromString (fun _ => 5) [examplePair] false), (0, .find (bytes "PASSWORD")),
      (0, .protectValues), (0, .copy), (1, .find (bytes "PASSWORD"))] := by
  apply quarkList_run
  simp [QuarkRunFits, QuarkCallFits, PairsFit]

theorem emptyList_notCleanedUp : ¬ QuarkRunMeets exampleBlob [{}] [fun _ => none]
    [(0, .addFromString (fun _ => 5) [examplePair] false),
      (0, .addFromString (fun _ => 5) [] true), (0, .find (bytes "PASSWORD"))] := by
  intro h
  have hfits : QuarkCallFits (fun _ => none) (.addFromString (fun _ => 5) [examplePair] false) := by
    simp [QuarkCallFits, PairsFit]
  have hnew : ({} : QuarkList).Shows exampleBlob fun _ => none := QuarkList.shows_new
  have hshows := hnew.addFromString (fun _ => 5) hfits
  have hfound := (hshows.find (bytes "PASSWORD")).2
  have hanswer := ((h (by decide) (by decide)).2 (by decide) (by decide)).2 (by decide) (by decide)
  have hnone := hfound.symm.trans hanswer.1
  exact absurd hnone (by decide)

end Simulation

end LibGda
