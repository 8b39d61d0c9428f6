import LibGda.QuotedText
import LibGda.SqlTokenizer

/-! The specifications of the parameters of a statement: quotes around names, and how the values of
the properties are taken. -/

namespace LibGda

/-- The loop of `_remove_quotes` on what is between the quotes; `none` where it leaves the empty
string. -/
def unquoted (delim : Char) : List Char → Option (List Char)
  | [] => some []
  | [c] => if c = delim ∨ c = '"' ∨ c = '\\' then none else some [c]
  | c :: d :: rest =>
    if c = delim then
      if d = delim then (unquoted delim rest).map (delim :: ·) else none
    else if c = '"' then
      if d = '"' then (unquoted delim rest).map ('"' :: ·) else none
    else if c = '\\' then
      if d = '\\' then (unquoted delim rest).map ('\\' :: ·)
      else if d = delim then (unquoted delim rest).map (delim :: ·)
      else none
    else (unquoted delim (d :: rest)).map (c :: ·)

def removeQuotes (str : List Char) : List Char :=
  match str with
  | [] => []
  | delim :: rest =>
    if delim = '\'' ∨ delim = '"' then
      -- the last quote may miss
      let body := if str.getLast? = some delim then rest.dropLast else rest
      (unquoted delim body).getD []
    else str

def forceQuotes (str : List Char) : List Char :=
  '"' :: (str.flatMap fun c => if c = '"' then ['"', '"'] else [c]) ++ ['"']

structure GTypes (T : Type) where
  null : T
  int : T
  uint : T
  string : T
  date : T
  time : T
  timestamp : T
  boolean : T
  blob : T
  binary : T
  short : T
  ushort : T
  int64 : T
  uint64 : T
  char : T
  uchar : T
  typeName : T → Option (List Char)
  typeFromName : List Char → Option T

namespace GTypes

variable {T : Type} [DecidableEq T]

def toString (types : GTypes T) (type : T) : Option (List Char) :=
  if type = types.null then some "null".toList
  else if type = types.int then some "int".toList
  else if type = types.string then some "string".toList
  else if type = types.date then some "date".toList
  else if type = types.time then some "time".toList
  else if type = types.timestamp then some "timestamp".toList
  else if type = types.boolean then some "boolean".toList
  else if type = types.blob then some "blob".toList
  else if type = types.binary then some "binary".toList
  else types.typeName type

def namedType (types : GTypes T) (str : List Char) : Option T :=
  match lowered str with
  | "int" => some types.int
  | "uint" => some types.uint
  | "string" => some types.string
  | "date" => some types.date
  | "time" => some types.time
  | "timestamp" => some types.timestamp
  | "int64" => some types.int64
  | "uint64" => some types.uint64
  | "char" => some types.char
  | "uchar" => some types.uchar
  | "gshort" => some types.short
  | "gushort" => some types.ushort
  | _ =>
    match String.ofList str with
    | "boolean" => some types.boolean
    | "blob" => some types.blob
    | "binary" => some types.binary
    | "null" => some types.null
    | "short" => some types.short
    | "ushort" => some types.ushort
    | _ => none

def fromString (types : GTypes T) (str : List Char) : Option T :=
  (types.typeFromName str).or (types.namedType str)

end GTypes

def numberedTypes : GTypes Nat where
  null := 0
  int := 1
  uint := 2
  string := 3
  date := 4
  time := 5
  timestamp := 6
  boolean := 7
  blob := 8
  binary := 9
  short := 10
  ushort := 11
  int64 := 12
  uint64 := 13
  char := 14
  uchar := 15
  typeName _ := none
  typeFromName _ := none

structure GdaSqlParamSpec (T : Type) where
  name : Option (List Char)
  descr : Option (List Char)
  isParam : Bool
  nullok : Bool
  gType : T
  deriving DecidableEq

namespace GdaSqlParamSpec

variable {T : Type} (types : GTypes T)

def empty : GdaSqlParamSpec T where
  name := none
  descr := none
  isParam := true
  nullok := false
  gType := types.null

def takeName (pspec : GdaSqlParamSpec T) (value : TokenValue) : GdaSqlParamSpec T :=
  { pspec with name := value.map removeQuotes }

def takeDescr (pspec : GdaSqlParamSpec T) (value : TokenValue) : GdaSqlParamSpec T :=
  { pspec with descr := value.map removeQuotes }

def takeNullok (pspec : GdaSqlParamSpec T) (value : TokenValue) : GdaSqlParamSpec T :=
  let first := value.bind fun str => (removeQuotes str).head?
  { pspec with nullok := first = some 't' ∨ first = some 'T' }

def takeType (pspec : GdaSqlParamSpec T) (value : TokenValue) : GdaSqlParamSpec T :=
  { pspec with
    gType := (value.bind fun str => types.fromString (removeQuotes str)).getD types.null }

/-- The text up to `::`, and what follows it. -/
def upToColons : List Char → List Char × Option (List Char)
  | ':' :: ':' :: rest => ([], some rest)
  | c :: rest => (c :: (upToColons rest).1, (upToColons rest).2)
  | [] => ([], none)

/-- `gda_sql_param_spec_new`: the name, then the type, then the nullity, as far as there is a text. -/
def new (value : TokenValue) : GdaSqlParamSpec T :=
  match value with
  | none => empty types
  | some [] => empty types
  | some str =>
    let (name, rest) := upToColons str
    let pspec := { empty types with name := some name }
    match rest with
    | none => pspec
    | some [] => pspec
    | some str =>
      let (type, rest) := upToColons str
      let pspec := { pspec with gType := (types.fromString type).getD types.null }
      match rest with
      | none => pspec
      | some [] => pspec
      | some str =>
        let first := (upToColons str).1.head?
        { pspec with nullok := first = some 'n' ∨ first = some 'N' }

end GdaSqlParamSpec

end LibGda

/-! `default_render_param_spec` for a parameter to which no value is given, and what the quotes
around its texts become when they are taken off. -/

namespace LibGda

structure ParamsFlag where
  long : Bool
  short : Bool
  deriving DecidableEq

def ParamsFlag.writesLong (flag : ParamsFlag) (name : List Char) (value : TokenValue) : Bool :=
  if flag.long ∨ flag.short then flag.long
  else value.isNone || forceQuotes name != name

section Rendering

variable {T : Type} [DecidableEq T] (types : GTypes T)

/-- `%s` on what `gda_sql_identifier_force_quotes` makes of the name of a type. -/
def quotedTypeName (type : T) : List Char :=
  match types.toString type with
  | some name => forceQuotes name
  | none => "(null)".toList

def renderLong (pspec : GdaSqlParamSpec T) (name : List Char) (value : TokenValue) : List Char :=
  value.getD "##".toList ++ " /* ".toList ++ ("name:".toList ++ forceQuotes name) ++
    (" type:".toList ++ quotedTypeName types pspec.gType) ++
    (match pspec.descr with
      | some descr => " descr:".toList ++ forceQuotes descr
      | none => []) ++
    (if pspec.nullok then " nullok:true".toList else []) ++ " */".toList

def renderShort (pspec : GdaSqlParamSpec T) (name : List Char) : List Char :=
  "##".toList ++ name ++
    (if pspec.gType = types.null then []
      else "::".toList ++ (types.toString pspec.gType).getD "(null)".toList ++
        (if pspec.nullok then "::NULL".toList else []))

/-- `default_render_param_spec`; `none` for an unnamed parameter. -/
def renderParamSpec (flag : ParamsFlag) (pspec : GdaSqlParamSpec T) (value : TokenValue) :
    Option (List Char) :=
  pspec.name.map fun name =>
    if flag.writesLong name value then renderLong types pspec name value
    else renderShort types pspec name

end Rendering

section Quotes

variable {text body rest : List Char}

def doubledQuotes (text : List Char) : List Char :=
  text.flatMap fun c => if c = '"' then ['"', '"'] else [c]

@[simp] theorem doubledQuotes_nil : doubledQuotes [] = [] := rfl

@[simp] theorem doubledQuotes_quote : doubledQuotes ('"' :: text) = '"' :: '"' :: doubledQuotes
    text := rfl

theorem doubledQuotes_cons {c : Char} (hc : c ≠ '"') :
    doubledQuotes (c :: text) = c :: doubledQuotes text := by
  rw [doubledQuotes, List.flatMap_cons, if_neg hc]
  rfl

theorem forceQuotes_eq : forceQuotes text = '"' :: (doubledQuotes text ++ ['"']) := rfl

theorem mem_doubledQuotes {c : Char} : c ∈ doubledQuotes text ↔ c ∈ text := by
  induction text with
  | nil => rfl
  | cons d text ih =>
    by_cases hd : d = '"'
    · subst hd
      rw [doubledQuotes_quote]
      simp [ih]
    · rw [doubledQuotes_cons hd]
      simp [ih]

theorem doubledQuotes_body (h : '\\' ∉ text) : QuotedBody '"' (doubledQuotes text) := by
  induction text with
  | nil => exact .nil
  | cons c text ih =>
    rw [List.mem_cons, not_or] at h
    by_cases hc : c = '"'
    · subst hc
      exact (ih h.2).doubled
    · rw [doubledQuotes_cons hc]
      exact (ih h.2).plain hc (Ne.symm h.1)

theorem unquoted_quote : unquoted '"' ('"' :: '"' :: rest) = (unquoted '"' rest).map
    ('"' :: ·) := rfl

theorem unquoted_backslash :
    unquoted '"' ('\\' :: '\\' :: rest) = (unquoted '"' rest).map ('\\' :: ·) := rfl

theorem unquoted_plain {c : Char} (hc : c ≠ '"') (he : c ≠ '\\') :
    unquoted '"' (c :: rest) = (unquoted '"' rest).map (c :: ·) := by
  cases rest with
  | nil => simp [unquoted, hc, he]
  | cons d rest => rw [unquoted, if_neg hc, if_neg hc, if_neg he]

theorem unquoted_doubledQuotes (h : '\\' ∉ text) : unquoted '"' (doubledQuotes text) =
    some text := by
  induction text with
  | nil => rfl
  | cons c text ih =>
    rw [List.mem_cons, not_or] at h
    by_cases hc : c = '"'
    · subst hc
      rw [doubledQuotes_quote, unquoted_quote, ih h.2]
      rfl
    · rw [doubledQuotes_cons hc, unquoted_plain hc (Ne.symm h.1), ih h.2]
      rfl

theorem removeQuotes_quoted (body : List Char) :
    removeQuotes ('"' :: (body ++ ['"'])) = (unquoted '"' body).getD [] := by
  have hlast : ('"' :: (body ++ ['"'])).getLast? = some '"' := by
    rw [← List.cons_append, List.getLast?_append]
    rfl
  simp only [removeQuotes, or_true, if_true, if_pos hlast, List.dropLast_concat]

theorem removeQuotes_forceQuotes (h : '\\' ∉ text) : removeQuotes (forceQuotes text) = text := by
  rw [forceQuotes_eq, removeQuotes_quoted, unquoted_doubledQuotes h]
  rfl

theorem unquoted_starts_backslash {w : List Char} (h : unquoted '"' body = some ('\\' :: w)) :
    ∃ rest, body = '\\' :: '\\' :: rest ∧ unquoted '"' rest = some w := by
  cases body with
  | nil => cases h
  | cons c body =>
    by_cases hc : c = '"'
    · subst hc
      cases body with
      | nil => cases h
      | cons d body =>
        by_cases hd : d = '"'
        · subst hd
          rw [unquoted_quote] at h
          obtain ⟨v, -, hv⟩ := Option.map_eq_some_iff.1 h
          cases hv
        · simp [unquoted, hd] at h
    · by_cases he : c = '\\'
      · subst he
        cases body with
        | nil => cases h
        | cons d body =>
          by_cases hd : d = '\\'
          · subst hd
            rw [unquoted_backslash] at h
            obtain ⟨v, hv, hcons⟩ := Option.map_eq_some_iff.1 h
            cases hcons
            exact ⟨body, rfl, hv⟩
          · by_cases hq : d = '"'
            · subst hq
              have hmap : (unquoted '"' body).map ('"' :: ·) = some ('\\' :: w) := h
              obtain ⟨v, -, hv⟩ := Option.map_eq_some_iff.1 hmap
              cases hv
            · simp [unquoted, hd, hq] at h
      · rw [unquoted_plain hc he] at h
        obtain ⟨v, -, hv⟩ := Option.map_eq_some_iff.1 h
        cases hv
        exact absurd rfl he

theorem backslash_prefix (h : '\\' :: body <+: doubledQuotes text ++ '"' :: rest) :
    ∃ t, text = '\\' :: t ∧ body <+: doubledQuotes t ++ '"' :: rest := by
  cases text with
  | nil => exact absurd (List.cons_prefix_cons.1 h).1 (by decide)
  | cons c text =>
    by_cases hc : c = '"'
    · subst hc
      exact absurd (List.cons_prefix_cons.1 h).1 (by decide)
    · rw [doubledQuotes_cons hc] at h
      obtain ⟨rfl, hbody⟩ := List.cons_prefix_cons.1 h
      exact ⟨text, rfl, hbody⟩

theorem unquoted_ne_backslashes (k : Nat) (h : body <+: doubledQuotes text ++ '"' :: rest) :
    unquoted '"' body ≠ some (List.replicate (k + 1) '\\' ++ text) := by
  induction hn : text.length using Nat.strong_induction_on generalizing text body k with
  | _ n ih =>
    intro hbody
    obtain ⟨body', rfl, hbody'⟩ := unquoted_starts_backslash hbody
    obtain ⟨text', rfl, hpre⟩ := backslash_prefix h
    obtain ⟨text'', rfl, hpre'⟩ := backslash_prefix hpre
    have hmore : List.replicate k '\\' ++ '\\' :: '\\' :: text'' =
        List.replicate (k + 1 + 1) '\\' ++ text'' := by
      rw [List.replicate_succ', List.replicate_succ']
      simp
    have hbody'' : unquoted '"' body' = some (List.replicate k '\\' ++ '\\' :: '\\' :: text'') :=
      hbody'
    rw [hmore] at hbody''
    have hlt : text''.length < n := by
      rw [← hn]
      simp only [List.length_cons]
      omega
    exact ih _ hlt (k + 1) hpre' rfl hbody''

theorem not_mem_of_unquoted (h : body <+: doubledQuotes text ++ '"' :: rest)
    (hbody : unquoted '"' body = some text) : '\\' ∉ text := by
  induction text generalizing body with
  | nil => exact List.not_mem_nil
  | cons c text ih =>
    by_cases hc : c = '\\'
    · subst hc
      obtain ⟨body', rfl, hbody'⟩ := unquoted_starts_backslash hbody
      obtain ⟨_, ht, hpre⟩ := backslash_prefix h
      cases ht
      obtain ⟨text', rfl, hpre'⟩ := backslash_prefix hpre
      exact absurd hbody' (unquoted_ne_backslashes 0 hpre')
    · have hne : body ≠ [] := by
        rintro rfl
        cases hbody
      obtain ⟨d, body, rfl⟩ := List.exists_cons_of_ne_nil hne
      rw [List.mem_cons, not_or]
      refine ⟨Ne.symm hc, ?_⟩
      by_cases hq : c = '"'
      · subst hq
        rw [doubledQuotes_quote] at h
        obtain ⟨rfl, hpre⟩ := List.cons_prefix_cons.1 h
        cases body with
        | nil => cases hbody
        | cons d body =>
          obtain ⟨rfl, hpre'⟩ := List.cons_prefix_cons.1 hpre
          rw [unquoted_quote] at hbody
          obtain ⟨v, hv, hcons⟩ := Option.map_eq_some_iff.1 hbody
          cases hcons
          exact ih hpre' hv
      · rw [doubledQuotes_cons hq] at h
        obtain ⟨rfl, hpre⟩ := List.cons_prefix_cons.1 h
        rw [unquoted_plain hq hc] at hbody
        obtain ⟨v, hv, hcons⟩ := Option.map_eq_some_iff.1 hbody
        cases hcons
        exact ih hpre hv

end Quotes

end LibGda
