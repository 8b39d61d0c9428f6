import LibGda.PropertyParsing

/-! What a parameter rendered in long form is read back as. -/

namespace LibGda

open TerminatedBuffer RunInvariant GdaSqlParser

/-- Registered types are found by their names, which have no backslash, and the names which the code
gives to types are not registered. -/
structure GTypes.Lawful {T : Type} (types : GTypes T) : Prop where
  registered : ∀ type name, types.typeName type = some name → types.typeFromName name = some type
  names : ∀ type name, types.typeName type = some name → '\\' ∉ name
  unregistered : ∀ name ∈ ["null", "int", "string", "date", "time", "timestamp", "boolean", "blob",
    "binary"], types.typeFromName name.toList = none

section RoundTrip

variable {T : Type} [DecidableEq T] {types : GTypes T} {mode : GdaSqlParserMode}
  {flavour : GdaSqlParserFlavour} {pspec : GdaSqlParamSpec T} {name : List Char}
    {value : TokenValue}

theorem GTypes.Lawful.fromString (h : types.Lawful) {type : T} {str : List Char}
    (hstr : types.toString type = some str) :
    types.fromString str = some type ∧ '\\' ∉ str := by
  have hnamed : ∀ (s : String) (t : T), s ∈ ["null", "int", "string", "date", "time", "timestamp",
      "boolean", "blob", "binary"] → types.namedType s.toList = some t → '\\' ∉ s.toList →
        some s.toList = some str → type = t → types.fromString str = some type ∧ '\\' ∉ str := by
    rintro s t hs ht hplain hsome rfl
    cases hsome
    refine ⟨?_, hplain⟩
    rw [GTypes.fromString, h.unregistered s hs, ht]
    rfl
  rw [GTypes.toString] at hstr
  split at hstr
  · exact hnamed "null" types.null (by decide) rfl (by decide) hstr ‹_›
  split at hstr
  · exact hnamed "int" types.int (by decide) rfl (by decide) hstr ‹_›
  split at hstr
  · exact hnamed "string" types.string (by decide) rfl (by decide) hstr ‹_›
  split at hstr
  · exact hnamed "date" types.date (by decide) rfl (by decide) hstr ‹_›
  split at hstr
  · exact hnamed "time" types.time (by decide) rfl (by decide) hstr ‹_›
  split at hstr
  · exact hnamed "timestamp" types.timestamp (by decide) rfl (by decide) hstr ‹_›
  split at hstr
  · exact hnamed "boolean" types.boolean (by decide) rfl (by decide) hstr ‹_›
  split at hstr
  · exact hnamed "blob" types.blob (by decide) rfl (by decide) hstr ‹_›
  split at hstr
  · exact hnamed "binary" types.binary (by decide) rfl (by decide) hstr ‹_›
  · refine ⟨?_, h.names type str hstr⟩
    rw [GTypes.fromString, h.registered type str hstr]
    rfl

def properties (types : GTypes T) (pspec : GdaSqlParamSpec T) (name : List Char) :
    List PropertyText :=
  (("name:", .pName), forceQuotes name) ::
    (("type:", .pType), quotedTypeName types pspec.gType) ::
      ((match pspec.descr with
        | some descr => [(("descr:", .pDescr), forceQuotes descr)]
        | none => []) ++
        if pspec.nullok then [(("nullok:", .pNullOk), "true".toList)] else [])

theorem renderLong_eq : renderLong types pspec name value =
    value.getD "##".toList ++ ' ' :: '/' :: '*' ::
      (propertiesText (properties types pspec name) ++ " */".toList) := by
  obtain ⟨_, descr, isParam, nullok, gType⟩ := pspec
  cases descr <;> cases nullok <;> simp [renderLong, properties, propertiesText]

def ReadsBack (types : GTypes T) (mode : GdaSqlParserMode) (flavour : GdaSqlParserFlavour)
    (pspec : GdaSqlParamSpec T) (name : List Char) (value : TokenValue) (text : CString) : Prop :=
  ∃ s, parseWith (Delimiter.grammar types Empty) (onText ⟨[], zero_notMem_empty⟩ mode flavour) text =
    .ok s ∧
    (∃ type, s.tokens.passedTokens =
      type :: .lsBracket :: ((properties types pspec name).map fun p => p.1.2) ++
        [.rsBracket, .endOfFile]) ∧
    (Delimiter.grammar types Empty).parsedStatement s.grammar =
      some (.unknown [{ value := value, paramSpec := some { pspec with isParam := true } }])

theorem properties_forall {P : PropertyText → Prop}
    (hname : P (("name:", .pName), forceQuotes name))
    (htype : P (("type:", .pType), quotedTypeName types pspec.gType))
    (hdescr : ∀ d, pspec.descr = some d → P (("descr:", .pDescr), forceQuotes d))
    (hnullok : P (("nullok:", .pNullOk), "true".toList)) :
    ∀ p ∈ properties types pspec name, P p := by
  intro p h
  rw [properties] at h
  rcases List.mem_cons.1 h with rfl | h
  · exact hname
  rcases List.mem_cons.1 h with rfl | h
  · exact htype
  rcases List.mem_append.1 h with h | h
  · cases hd : pspec.descr with
    | none =>
      rw [hd] at h
      cases h
    | some d =>
      rw [hd] at h
      obtain rfl := List.mem_singleton.1 h
      exact hdescr d hd
  · split at h
    · obtain rfl := List.mem_singleton.1 h
      exact hnullok
    · cases h

theorem properties_mem : ∀ p ∈ properties types pspec name, p.1 ∈ paramProperties := by
  refine properties_forall ?_ ?_ (fun d _ => ?_) ?_
  · show ("name:", TokenType.pName) ∈ paramProperties
    decide
  · show ("type:", TokenType.pType) ∈ paramProperties
    decide
  · show ("descr:", TokenType.pDescr) ∈ paramProperties
    decide
  · show ("nullok:", TokenType.pNullOk) ∈ paramProperties
    decide

theorem quotedTypeName_eq {str : List Char} (h : types.toString pspec.gType = some str) :
    quotedTypeName types pspec.gType = forceQuotes str := by
  rw [quotedTypeName, h]

theorem properties_read (hlaws : types.Lawful) (hknown : types.toString pspec.gType ≠ none)
    (hname : '\\' ∉ name) (hdescr : ∀ d, pspec.descr = some d → '\\' ∉ d) :
    ∀ p ∈ properties types pspec name, ReadsValue p.2 := by
  obtain ⟨str, hstr⟩ := Option.ne_none_iff_exists'.1 hknown
  refine properties_forall (readsValue_forceQuotes hname) ?_ ?_ readsValue_true
  · show ReadsValue (quotedTypeName types pspec.gType)
    rw [quotedTypeName_eq hstr]
    exact readsValue_forceQuotes (hlaws.fromString hstr).2
  · intro d hd
    exact readsValue_forceQuotes (hdescr d hd)

theorem takeProperties_properties (hlaws : types.Lawful) (hpspec : pspec.name = some name)
    (hknown : types.toString pspec.gType ≠ none) (hname : '\\' ∉ name)
    (hdescr : ∀ d, pspec.descr = some d → '\\' ∉ d) :
    Delimiter.takeProperties types (propertyTokens (properties types pspec name)) (.empty types) =
      { pspec with isParam := true } := by
  obtain ⟨str, hstr⟩ := Option.ne_none_iff_exists'.1 hknown
  have htype := quotedTypeName_eq hstr
  have hfound := hlaws.fromString hstr
  obtain ⟨_, descr, isParam, nullok, gType⟩ := pspec
  cases hpspec
  have hspec : Delimiter.takeProperties types (propertyTokens
      [(("name:", .pName), forceQuotes name), (("type:", .pType), quotedTypeName types gType)])
        (.empty types) =
      { name := some name, descr := none, isParam := true, nullok := false, gType := gType } := by
    rw [htype]
    show GdaSqlParamSpec.mk (some (removeQuotes (forceQuotes name))) none true false
      ((types.fromString (removeQuotes (forceQuotes str))).getD types.null) = _
    rw [removeQuotes_forceQuotes hname, removeQuotes_forceQuotes hfound.2, hfound.1]
    rfl
  rw [properties, propertyTokens, List.map_cons, List.map_cons]
  show Delimiter.takeProperties types _ (Delimiter.takeProperties types (propertyTokens
      [(("name:", .pName), forceQuotes name), (("type:", .pType), quotedTypeName types gType)])
        (.empty types)) = _
  rw [hspec]
  cases descr with
  | none => cases nullok <;> rfl
  | some d =>
    have hd := removeQuotes_forceQuotes (hdescr d rfl)
    cases nullok with
    | false =>
      show GdaSqlParamSpec.mk (some name) (some (removeQuotes (forceQuotes d))) true false gType = _
      rw [hd]
    | true =>
      show GdaSqlParamSpec.mk (some name) (some (removeQuotes (forceQuotes d))) true true gType = _
      rw [hd]

theorem readsBack_of_plain {text : CString} (hlaws : types.Lawful)
    (hpspec : pspec.name = some name) (hknown : types.toString pspec.gType ≠ none)
    (hvalue : ∀ v, value = some v → LiteralText mode flavour v)
    (htext : text.1 = renderLong types pspec name value)
    (hname : '\\' ∉ name) (hdescr : ∀ d, pspec.descr = some d → '\\' ∉ d) :
    ReadsBack types mode flavour pspec name value text := by
  rw [renderLong_eq, ← List.append_nil (properties types pspec name)] at htext
  have hread : ∀ p ∈ properties types pspec name, p.1 ∈ paramProperties ∧ ReadsValue p.2 :=
    fun p hp => ⟨properties_mem p hp, properties_read hlaws hknown hname hdescr p hp⟩
  obtain ⟨s, type, hreach, h⟩ := parse_to_properties types hvalue hread htext
  have hmem : ∀ t ∈ propertyTokens (properties types pspec name),
    t.1 ∈ Delimiter.propertyTypes := by
    intro t ht
    obtain ⟨p, hp, rfl⟩ := List.mem_map.1 ht
    exact mem_propertyTypes (properties_mem p hp)
  have hne : propertyTokens (properties types pspec name) ≠ [] := List.cons_ne_nil _ _
  have hspec := takeProperties_properties hlaws hpspec hknown hname hdescr
  have hpending : (openBracket T value).pending =
    .bracket { value := value, paramSpec := none } := rfl
  rw [Delimiter.foldl_push_bracket types hpending hne hmem] at h
  obtain ⟨fuel, hfuel, heq⟩ := hreach _ (startState_fuel text)
  obtain ⟨s', hs', hpassed, hstatement⟩ := h.parse_closed types Empty rfl rfl fuel hfuel
  refine ⟨ParseState.finish (Delimiter.grammar types Empty) s', ?_, ⟨type, ?_⟩, ?_⟩
  · rw [parseWith_eq, heq, hs']
    rfl
  · rw [ParseState.finish_tokens, hpassed]
    rfl
  · rw [ParseState.finish_grammar, hstatement]
    show some _ = _
    rw [← hspec]
    rfl

theorem ReadsBack.parsed {text : CString} (h : ReadsBack types mode flavour pspec name value text) :
    ∃ s type, ParseState.parseTokens (Delimiter.grammar types Empty) (text.1.length + 1)
        (startState T mode flavour text) = .ok s ∧
      s.tokens.passedTokens = type :: .lsBracket ::
        ((properties types pspec name).map fun p => p.1.2) ++ [.rsBracket, .endOfFile] ∧
      (Delimiter.grammar types Empty).parsedStatement ((Delimiter.grammar types Empty).finish
        s.grammar) =
        some (.unknown [{ value := value, paramSpec := some { pspec with isParam := true } }]) := by
  obtain ⟨s, hs, ⟨type, htypes⟩, hstatement⟩ := h
  rw [parseWith_eq] at hs
  obtain ⟨s', hs', rfl⟩ := map_ok hs
  rw [ParseState.finish_tokens] at htypes
  rw [ParseState.finish_grammar] at hstatement
  exact ⟨s', type, hs', htypes, hstatement⟩

theorem spec_of_statement {T S : Type} {value value' : TokenValue} {spec spec' : GdaSqlParamSpec T}
    (h : (some (.unknown [{ value := value, paramSpec := some spec }]) :
      Option (GdaSqlParsedStatement T S)) =
        some (.unknown [{ value := value', paramSpec := some spec' }])) :
    spec = spec' := by
  cases h
  rfl

theorem ReadsBack.plain_name {text : CString} (hpspec : pspec.name = some name)
    (hvalue : ∀ v, value = some v → LiteralText mode flavour v)
    (htext : text.1 = renderLong types pspec name value)
    (h : ReadsBack types mode flavour pspec name value text) : '\\' ∉ name := by
  obtain ⟨s, type, hs, htypes, hstatement⟩ := h.parsed
  rw [renderLong_eq] at htext
  obtain ⟨w, props, hw, hprops, hspec⟩ := @parse_quoted_property T types mode flavour value []
    (properties types pspec name).tail ("name:", .pName) name text s type hvalue nofun (by decide)
    (fun p hp => properties_mem p (List.mem_of_mem_tail hp)) htext hs htypes
  rw [hspec] at hstatement
  have hname := congrArg GdaSqlParamSpec.name (spec_of_statement hstatement)
  rw [Delimiter.takeProperties_name, hpspec] at hname
  · exact hw (Option.some.inj hname)
  · intro t ht
    have hmem : t.1 ∈ props.map Prod.fst := List.mem_map_of_mem ht
    have htail : ∀ p ∈ (properties types pspec name).tail, p.1.2 ≠ .pName := by
      cases hd : pspec.descr <;> cases hn : pspec.nullok <;> simp [properties, hd, hn]
    rw [hprops] at hmem
    obtain ⟨p, hp, hpt⟩ := List.mem_map.1 hmem
    rw [← hpt]
    exact htail p hp

theorem ReadsBack.plain_descr {text : CString} {d : List Char} (hlaws : types.Lawful)
    (hknown : types.toString pspec.gType ≠ none) (hd : pspec.descr = some d)
    (hvalue : ∀ v, value = some v → LiteralText mode flavour v)
    (htext : text.1 = renderLong types pspec name value) (hname : '\\' ∉ name)
    (h : ReadsBack types mode flavour pspec name value text) : '\\' ∉ d := by
  obtain ⟨str, hstr⟩ := Option.ne_none_iff_exists'.1 hknown
  obtain ⟨s, type, hs, htypes, hstatement⟩ := h.parsed
  have hsplit : properties types pspec name =
      [(("name:", .pName), forceQuotes name),
        (("type:", .pType), quotedTypeName types pspec.gType)] ++
        (("descr:", .pDescr), forceQuotes d) ::
          if pspec.nullok then [(("nullok:", .pNullOk), "true".toList)] else [] := by
    rw [properties, hd]
    rfl
  have hothers : ∀ p ∈ (if pspec.nullok then [(("nullok:", TokenType.pNullOk), "true".toList)]
    else []),
      p.1 = ("nullok:", TokenType.pNullOk) := by
    intro p hp
    split at hp
    · rw [List.mem_singleton.1 hp]
    · cases hp
  have hread : ∀ p ∈ [(("name:", TokenType.pName), forceQuotes name),
      (("type:", TokenType.pType), quotedTypeName types pspec.gType)], p.1 ∈ paramProperties ∧
        ReadsValue p.2 := by
    intro p hp
    rcases List.mem_cons.1 hp with rfl | hp
    · exact ⟨by show ("name:", TokenType.pName) ∈ paramProperties; decide, readsValue_forceQuotes
        hname⟩
    · obtain rfl := List.mem_singleton.1 hp
      refine ⟨by show ("type:", TokenType.pType) ∈ paramProperties; decide, ?_⟩
      show ReadsValue (quotedTypeName types pspec.gType)
      rw [quotedTypeName_eq hstr]
      exact readsValue_forceQuotes (hlaws.fromString hstr).2
  rw [renderLong_eq, hsplit] at htext
  rw [hsplit] at htypes
  obtain ⟨w, props, hw, hprops, hspec⟩ := @parse_quoted_property T types mode flavour value
    _ _ ("descr:", .pDescr) d text s type hvalue hread (by decide)
    (fun p hp => by rw [hothers p hp]; decide) htext hs htypes
  rw [hspec] at hstatement
  have hdescr := congrArg GdaSqlParamSpec.descr (spec_of_statement hstatement)
  rw [Delimiter.takeProperties_descr, hd] at hdescr
  · exact hw (Option.some.inj hdescr)
  · intro t ht
    have hmem : t.1 ∈ props.map Prod.fst := List.mem_map_of_mem ht
    rw [hprops] at hmem
    obtain ⟨p, hp, hpt⟩ := List.mem_map.1 hmem
    rw [← hpt, hothers p hp]
    decide

/-- A parameter rendered in long form is read back exactly when neither its name nor its
description has a backslash. -/
theorem renderLong_readsBack_iff {T : Type} [DecidableEq T] (types : GTypes T)
    (hlaws : types.Lawful) (mode : GdaSqlParserMode) (flavour : GdaSqlParserFlavour)
    (flag : ParamsFlag) (hlong : flag.long = true) (pspec : GdaSqlParamSpec T) (name : List Char)
    (hname : pspec.name = some name) (hknown : types.toString pspec.gType ≠ none)
    (value : TokenValue) (hvalue : ∀ v, value = some v → LiteralText mode flavour v)
    (text : CString)
    (htext : renderParamSpec types flag pspec value = some text.1) :
    ReadsBack types mode flavour pspec name value text ↔
      '\\' ∉ name ∧ ∀ d, pspec.descr = some d → '\\' ∉ d := by
  have hwrites : flag.writesLong name value = true := by
    rw [ParamsFlag.writesLong, hlong, if_pos (Or.inl rfl)]
  have hrendered : text.1 = renderLong types pspec name value := by
    rw [renderParamSpec, hname, Option.map_some, if_pos hwrites] at htext
    exact (Option.some.inj htext).symm
  constructor
  · intro h
    have hplain := h.plain_name hname hvalue hrendered
    exact ⟨hplain, fun d hd => h.plain_descr hlaws hknown hd hvalue hrendered hplain⟩
  · rintro ⟨hplain, hdescr⟩
    exact readsBack_of_plain hlaws hname hknown hvalue hrendered hplain hdescr

end RoundTrip

theorem numberedTypes_lawful : numberedTypes.Lawful where
  registered _ _ h := nomatch h
  names _ _ h := nomatch h
  unregistered _ _ := rfl

def ageSpec : GdaSqlParamSpec Nat where
  name := some "age".toList
  descr := some "say \"how old\"".toList
  isParam := true
  nullok := true
  gType := 1

def ageText : CString :=
  ⟨"12 /* name:\"age\" type:\"int\" descr:\"say \"\"how old\"\"\" nullok:true */".toList, by decide⟩

theorem ageSpec_readsBack :
    ReadsBack numberedTypes .parse .standard ageSpec "age".toList (some "12".toList) ageText := by
  have hvalue : ∀ v, some "12".toList = some v → LiteralText .parse .standard v := by
    rintro v hv
    cases hv
    exact ⟨'1', ['2'], _, .integer, rfl, rfl, rfl, Or.inr (Or.inl rfl), rfl, rfl⟩
  refine (renderLong_readsBack_iff numberedTypes numberedTypes_lawful .parse .standard
    { long := true, short := false } rfl ageSpec "age".toList rfl (by decide) (some "12".toList)
    hvalue ageText rfl).2 ⟨by decide, ?_⟩
  rintro d hd
  cases hd
  decide

def pathSpec : GdaSqlParamSpec Nat where
  name := some "a\\b".toList
  descr := none
  isParam := true
  nullok := false
  gType := 1

/-- The backslash of a name escapes the character behind it for the tokenizer, and makes
`_remove_quotes` leave nothing. -/
theorem backslashName_not_readsBack :
    ¬ ∀ (pspec : GdaSqlParamSpec Nat) (name : List Char) (text : CString), pspec.name = some name →
      name ≠ [] → numberedTypes.toString pspec.gType ≠ none →
        renderParamSpec numberedTypes { long := true, short := false } pspec none = some text.1 →
          ReadsBack numberedTypes .delimit .standard pspec name none text := by
  intro h
  have hread := h pathSpec "a\\b".toList
    ⟨"## /* name:\"a\\b\" type:\"int\" */".toList, by decide⟩ rfl (by decide) (by decide) rfl
  have hplain : '\\' ∉ "a\\b".toList := hread.plain_name rfl (by
    intro v hv
    cases hv) rfl
  exact hplain (by decide)

end LibGda
