import LibGda.SchemaStatements
import Mathlib.Data.List.Basic

/-! `meta_data_context_from_statement`: the parts of the meta store to be updated after a statement,
from the words of its text. -/

namespace LibGda

structure MetaContext where
  tableName : String
  columnNames : List String
  columnValues : List (Option Text)
  deriving DecidableEq

inductive MissingWord where
  | missing
  deriving DecidableEq

def strcmpIs (word : Option Text) (key : String) : Except MissingWord Bool :=
  match word with
  | none => .error .missing
  | some text => .ok (decide (text = key.toList))

def strcasecmpIs (word : Option Text) (key : String) : Except MissingWord Bool :=
  match word with
  | none => .error .missing
  | some text => .ok (decide (text.map Char.toUpper = key.toList.map Char.toUpper))

/-- `if (! x || ! y)` and its like: the second test is made when the first one holds. -/
def bothHold (x y : Except MissingWord Bool) : Except MissingWord Bool :=
  match x with
  | .error e => .error e
  | .ok false => .ok false
  | .ok true => y

section Model

variable (quote : Text → Option Text)

def contextForTable (tname : Text) : MetaContext :=
  ⟨"_tables", ["table_name"], [quote tname]⟩

/-- The name and what is behind it, where it may be the `IF` of `IF EXISTS`: what is looked at behind
it is cut into words even when it is no such clause. -/
def skipIfExists (opname : Text) (named : NextWord) : Except MissingWord
    (Option Text × Option Text) :=
  if opname = "CREATE".toList ∨ opname = "DROP".toList then
    match strcasecmpIs named.word "IF" with
    | .error e => .error e
    | .ok false => .ok (named.word, named.next)
    | .ok true =>
      let s1 := getNextWord named.next false
      if opname = "CREATE".toList then
        let s2 := getNextWord s1.next false
        match bothHold (strcmpIs s1.word "NOT") (strcmpIs s2.word "EXISTS") with
        | .error e => .error e
        | .ok true => .ok ((getNextWord s2.next true).word, (getNextWord s2.next true).next)
        | .ok false => .ok (named.word, s1.left)
      else
        match strcmpIs s1.word "EXISTS" with
        | .error e => .error e
        | .ok true => .ok ((getNextWord s1.next true).word, (getNextWord s1.next true).next)
        | .ok false => .ok (named.word, s1.left)
  else .ok (named.word, named.next)

def renameContexts (next : Option Text) : Except MissingWord (List MetaContext) :=
  let rename := getNextWord next false
  match rename.word with
  | none => .ok []
  | some word =>
    if word ≠ "RENAME".toList then .ok []
    else
      let second := getNextWord rename.next false
      match second.word with
      | none => .ok []
      | some word =>
        if word ≠ "TO".toList then .ok []
        else
          match (getNextWord second.next true).word with
          | none => .ok []
          | some tname => .ok [contextForTable quote tname]

/-- `if (tname)`, for the name which `next` starts with. -/
def namedContexts (opname : Text) (next : Option Text) : Except MissingWord (List MetaContext) :=
  match skipIfExists opname (getNextWord next true) with
  | .error e => .error e
  | .ok (none, _) => .ok []
  | .ok (some tname, next) => (renameContexts quote next).map (· ++ [contextForTable quote tname])

/-- `meta_data_context_from_statement`, for the text which `gda_statement_to_sql` makes of the
statement; the contexts are prepended. -/
def metaDataContextFromStatement (isVconnectionDataModel : Bool) (sql : Option Text) :
    Except MissingWord (List MetaContext) :=
  match sql with
  | none => .ok []
  | some text =>
    let first := getNextWord (some text) false
    match first.word with
    | none => .ok []
    | some opname =>
      if opname = "ALTER".toList ∨ isVconnectionDataModel = false ∧
          (opname = "CREATE".toList ∨ opname = "DROP".toList) then
        let second := getNextWord first.next false
        match second.word with
        | none => .ok []
        | some kind =>
          if kind = "TABLE".toList ∨ kind = "VIEW".toList then namedContexts quote opname
            second.next
          else .ok []
      else .ok []

end Model

def Headed (isVconnectionDataModel : Bool) (op : String) (text body : Text) : Prop :=
  (op = "ALTER" ∨ isVconnectionDataModel = false ∧ (op = "CREATE" ∨ op = "DROP")) ∧
    ∃ kind ∈ ["TABLE", "VIEW"], ∃ mid, Keyword op.toList text mid ∧ Keyword kind.toList mid body

/-- The clause which the operation has: `IF NOT EXISTS` or `IF EXISTS`. -/
def IfClause (op : String) (body named : Text) : Prop :=
  ∃ word behind, word.map Char.toUpper = "IF".toList ∧ Plain body word behind ∧
    (op = "CREATE" ∧ (∃ mid, Keyword "NOT".toList behind mid ∧ Keyword "EXISTS".toList mid named) ∨
      op = "DROP" ∧ Keyword "EXISTS".toList behind named)

def RenameTo (behind named : Text) : Prop :=
  ∃ mid, Keyword "RENAME".toList behind mid ∧ Keyword "TO".toList mid named

/-- The new name of the statement, if it has one, is a plain one behind `RENAME TO`, and there is no
`RENAME TO` if it has none. -/
def Renamed (behind : Text) : Option Text → Prop
  | none => ∀ named, ¬ RenameTo behind named
  | some new => ∃ named after, RenameTo behind named ∧ Plain named new after

def PlainlyNamed (op : String) (body name : Text) (new : Option Text) : Prop :=
  (∃ named behind, IfClause op body named ∧ Plain named name behind ∧ Renamed behind new) ∨
    (∀ named, ¬ IfClause op body named) ∧ ∃ behind, Plain body name behind ∧
      if (op = "CREATE" ∨ op = "DROP") ∧ name.map Char.toUpper = "IF".toList then new = none
      else Renamed behind new

def PlainlyWritten (isVconnectionDataModel : Bool) (text : Text) : Prop :=
  match schemaStatement text with
  | none => ∀ op body, ¬ Headed isVconnectionDataModel op text body
  | some (name, new) => ∃ op body, Headed isVconnectionDataModel op text body ∧
      PlainlyNamed op body name new

/-- Whatever the quoting of the provider is, the contexts are those of the names, and no function is
given a missing word. -/
def NamesContexts (isVconnectionDataModel : Bool) (text : Text) : Prop :=
  ∀ quote, metaDataContextFromStatement quote isVconnectionDataModel (some text) =
    .ok ((schemaNames text).map (contextForTable quote))

section Evaluation

variable {quote : Text → Option Text} {isVconnectionDataModel : Bool} {op : String}
variable {text body named behind name : Text} {next new : Option Text}

theorem isKey_alter : IsKey "ALTER".toList := ⟨by decide, List.all_eq_true.mp (by decide)⟩
theorem isKey_create : IsKey "CREATE".toList := ⟨by decide, List.all_eq_true.mp (by decide)⟩
theorem isKey_drop : IsKey "DROP".toList := ⟨by decide, List.all_eq_true.mp (by decide)⟩
theorem isKey_kind {kind : String} (h : kind ∈ ["TABLE", "VIEW"]) : IsKey kind.toList := by
  simp only [List.mem_cons, List.not_mem_nil, or_false] at h
  obtain rfl | rfl := h
  · exact ⟨by decide, List.all_eq_true.mp (by decide)⟩
  · exact ⟨by decide, List.all_eq_true.mp (by decide)⟩
theorem isKey_rename : IsKey "RENAME".toList := ⟨by decide, List.all_eq_true.mp (by decide)⟩
theorem isKey_to : IsKey "TO".toList := ⟨by decide, List.all_eq_true.mp (by decide)⟩
theorem isKey_not : IsKey "NOT".toList := ⟨by decide, List.all_eq_true.mp (by decide)⟩
theorem isKey_exists : IsKey "EXISTS".toList := ⟨by decide, List.all_eq_true.mp (by decide)⟩

theorem not_keyword_nil {key after : Text} (hkey : IsKey key) : ¬ Keyword key [] after := by
  intro h
  obtain ⟨blanks, word, rest, htext, -, hword, -⟩ := h
  have hnil : word = [] := by
    have happend := (List.append_eq_nil_iff.1 htext.symm).2
    exact (List.append_eq_nil_iff.1 happend).1
  rw [hnil] at hword
  exact hkey.1 hword.symm

theorem getNextWord_behind {key after : Text} (hkey : IsKey key)
    (h : Keyword key (next.getD []) after) :
    ∃ left, getNextWord next false = ⟨some key, some after, left⟩ := by
  cases next with
  | none => exact absurd h (not_keyword_nil hkey)
  | some behind => exact getNextWord_keyword hkey h

theorem keyword_behind {key : Text} (hkey : IsKey key) (h : (getNextWord next false).word =
    some key) :
    ∃ after, Keyword key (next.getD []) after := by
  cases next with
  | none => cases h
  | some behind => exact keyword_of_word hkey h

theorem renameContexts_none (h : ∀ named, ¬ RenameTo (next.getD []) named) :
    renameContexts quote next = .ok [] := by
  unfold renameContexts
  dsimp only
  cases hrename : (getNextWord next false).word with
  | none => rfl
  | some word =>
    dsimp only
    by_cases hword : word = "RENAME".toList
    · rw [if_neg (not_not_intro hword)]
      subst hword
      obtain ⟨mid, hmid⟩ := keyword_behind isKey_rename hrename
      obtain ⟨left, hread⟩ := getNextWord_behind isKey_rename hmid
      rw [hread]
      cases hto : (getNextWord (some mid) false).word with
      | none => rfl
      | some word' =>
        dsimp only
        by_cases hword' : word' = "TO".toList
        · subst hword'
          obtain ⟨named, hnamed⟩ := keyword_of_word isKey_to hto
          exact absurd ⟨mid, hmid, hnamed⟩ (h named)
        · rw [if_pos hword']
    · rw [if_pos hword]

theorem renameContexts_some (h : RenameTo (next.getD []) named)
    (hname : (getNextWord (some named) true).word = some name) :
    renameContexts quote next = .ok [contextForTable quote name] := by
  obtain ⟨mid, hrename, hto⟩ := h
  obtain ⟨left, hread⟩ := getNextWord_behind isKey_rename hrename
  obtain ⟨left', hread'⟩ := getNextWord_keyword isKey_to hto
  simp [renameContexts, hread, hread', hname]

theorem plain_if {word : Text} (hif : word.map Char.toUpper = "IF".toList)
    (h : (getNextWord (some body) true).word = some word) :
    ∃ behind, Plain body word behind ∧ (getNextWord (some body) true).next = some behind := by
  have hchars : ∀ c ∈ word, isWordChar c = true := by
    intro c hc
    rw [← isWordChar_toUpper]
    have hmem : c.toUpper ∈ "IF".toList := hif ▸ List.mem_map_of_mem hc
    exact List.all_eq_true.mp (by decide : "IF".toList.all isWordChar = true) _ hmem
  cases word with
  | nil => cases hif
  | cons c word =>
    obtain ⟨behind, hplain⟩ := plain_of_word (.inl ⟨List.cons_ne_nil _ _, quote_not_mem hchars⟩) h
    obtain ⟨next, hnext⟩ := getNextWord_next (hchars c (List.mem_cons_self ..)) h
    have hbehind := (getNextWord_plain hplain).2
    rw [hnext, Option.getD_some] at hbehind
    rw [hbehind] at hnext
    exact ⟨behind, hplain, hnext⟩

theorem skipIfExists_clause (h : IfClause op body named) :
    skipIfExists op.toList (getNextWord (some body) true) =
      .ok ((getNextWord (some named) true).word, (getNextWord (some named) true).next) := by
  obtain ⟨word, behind, hif, hplain, hop⟩ := h
  have hword := (getNextWord_plain hplain).1
  obtain ⟨behind', hplain', hnext⟩ := plain_if hif hword
  have hbehind : behind' = behind := by
    rw [← (getNextWord_plain hplain).2, ← (getNextWord_plain hplain').2]
  subst hbehind
  have hcompare : strcasecmpIs (getNextWord (some body) true).word "IF" = .ok true := by
    rw [hword]
    simp [strcasecmpIs, hif]
  unfold skipIfExists
  rw [hcompare, hnext]
  obtain ⟨rfl, mid, hnot, hexists⟩ | ⟨rfl, hexists⟩ := hop
  · obtain ⟨left, hread⟩ := getNextWord_keyword isKey_not hnot
    obtain ⟨left', hread'⟩ := getNextWord_keyword isKey_exists hexists
    simp [hread, hread', strcmpIs, bothHold]
  · obtain ⟨left, hread⟩ := getNextWord_keyword isKey_exists hexists
    simp [hread, strcmpIs]

theorem not_renameTo_left {left : Text} (h : (getNextWord next false).left = some left) :
    ¬ RenameTo left named := by
  intro hrename
  obtain ⟨mid, hmid, hto⟩ := hrename
  cases next with
  | none => cases h
  | some behind =>
    obtain ⟨left', hread⟩ := getNextWord_keyword isKey_rename hmid
    have hnext := next_of_left h
    rw [hread, Option.getD_some] at hnext
    rw [hnext] at hto
    exact not_keyword_nil isKey_to hto

theorem toList_eq {key key' : String} : key.toList = key'.toList ↔ key = key' :=
  ⟨String.toList_inj.1, fun h => h ▸ rfl⟩

theorem skipIfExists_bare (h : ¬ ((op = "CREATE" ∨ op = "DROP") ∧
    name.map Char.toUpper = "IF".toList)) (hname : (getNextWord (some body) true).word =
      some name) :
    skipIfExists op.toList (getNextWord (some body) true) =
      .ok (some name, (getNextWord (some body) true).next) := by
  unfold skipIfExists
  rw [hname]
  by_cases hop : op = "CREATE" ∨ op = "DROP"
  · have hif : ¬ name.map Char.toUpper = "IF".toList.map Char.toUpper := fun hif => h ⟨hop, hif⟩
    have hcompare : strcasecmpIs (some name) "IF" = .ok false := by
      rw [strcasecmpIs, decide_eq_false hif]
    rw [if_pos (hop.imp toList_eq.2 toList_eq.2), hcompare]
  · rw [if_neg fun hor => hop (hor.imp toList_eq.1 toList_eq.1)]

theorem skipIfExists_if (h : ∀ named, ¬ IfClause op body named) (hop : op = "CREATE" ∨ op = "DROP")
    (hif : name.map Char.toUpper = "IF".toList)
    (hname : (getNextWord (some body) true).word = some name) :
    ∃ next, skipIfExists op.toList (getNextWord (some body) true) = .ok (some name, next) ∧
      ∀ named, ¬ RenameTo (next.getD []) named := by
  obtain ⟨behind, hplain, hnext⟩ := plain_if hif hname
  obtain ⟨word, left, hword, hleft⟩ := getNextWord_word behind false
  have hcompare : strcasecmpIs (some name) "IF" = .ok true := by simp [strcasecmpIs, hif]
  refine ⟨some left, ?_, fun named => not_renameTo_left hleft⟩
  unfold skipIfExists
  rw [if_pos (hop.imp toList_eq.2 toList_eq.2), hname, hcompare, hnext]
  dsimp only
  rw [hleft]
  obtain rfl | rfl := hop
  · rw [if_pos rfl, hword]
    by_cases hnot : word = "NOT".toList
    · subst hnot
      obtain ⟨mid, hmid⟩ := keyword_of_word isKey_not hword
      obtain ⟨left', hread⟩ := getNextWord_keyword isKey_not hmid
      obtain ⟨word', left'', hword', -⟩ := getNextWord_word mid false
      have hexists : ¬ word' = "EXISTS".toList := by
        intro heq
        rw [heq] at hword'
        obtain ⟨named, hnamed⟩ := keyword_of_word isKey_exists hword'
        exact h named ⟨name, behind, hif, hplain, .inl ⟨rfl, mid, hmid, hnamed⟩⟩
      rw [hread, hword', strcmpIs, strcmpIs, decide_eq_true rfl, decide_eq_false hexists]
      rfl
    · rw [strcmpIs, decide_eq_false hnot]
      rfl
  · have hexists : ¬ word = "EXISTS".toList := by
      intro heq
      rw [heq] at hword
      obtain ⟨named, hnamed⟩ := keyword_of_word isKey_exists hword
      exact h named ⟨name, behind, hif, hplain, .inr ⟨rfl, hnamed⟩⟩
    rw [if_neg (by decide), hword, strcmpIs, decide_eq_false hexists]

end Evaluation

section Reading

variable {quote : Text → Option Text} {isVconnectionDataModel : Bool} {op : String}
variable {text body named behind name : Text} {next new : Option Text}

/-- The new name which is read behind `RENAME TO`. -/
def ReadsNew (behind : Text) : Option Text → Prop
  | none => ∀ named, ¬ RenameTo behind named
  | some new => ∃ named, RenameTo behind named ∧ (getNextWord (some named) true).word = some new

/-- The names which are read: as `PlainlyNamed`, for any words. -/
def ReadsNames (op : String) (body name : Text) (new : Option Text) : Prop :=
  (∃ named, IfClause op body named ∧ (getNextWord (some named) true).word = some name ∧
      ReadsNew ((getNextWord (some named) true).next.getD []) new) ∨
    (∀ named, ¬ IfClause op body named) ∧ (getNextWord (some body) true).word = some name ∧
      if (op = "CREATE" ∨ op = "DROP") ∧ name.map Char.toUpper = "IF".toList then new = none
      else ReadsNew ((getNextWord (some body) true).next.getD []) new

theorem renameContexts_reads (h : ReadsNew (next.getD []) new) :
    renameContexts quote next = .ok (new.toList.map (contextForTable quote)) := by
  cases new with
  | none => exact renameContexts_none h
  | some new =>
    obtain ⟨named, hrename, hname⟩ := h
    exact renameContexts_some hrename hname

theorem namedContexts_reads (h : ReadsNames op body name new) :
    namedContexts quote op.toList (some body) =
      .ok ((new.toList ++ [name]).map (contextForTable quote)) := by
  unfold namedContexts
  obtain ⟨named, hclause, hname, hnew⟩ | ⟨hclause, hname, hnew⟩ := h
  · rw [skipIfExists_clause hclause, hname]
    dsimp only
    rw [renameContexts_reads hnew, List.map_append]
    rfl
  · by_cases hif : (op = "CREATE" ∨ op = "DROP") ∧ name.map Char.toUpper = "IF".toList
    · rw [if_pos hif] at hnew
      subst hnew
      obtain ⟨next, hskip, hrename⟩ := skipIfExists_if hclause hif.1 hif.2 hname
      rw [hskip]
      dsimp only
      rw [renameContexts_none hrename]
      rfl
    · rw [if_neg hif] at hnew
      rw [skipIfExists_bare hif hname]
      dsimp only
      rw [renameContexts_reads hnew, List.map_append]
      rfl

theorem readsNew_exists (behind : Text) : ∃ new, ReadsNew behind new := by
  by_cases h : ∃ named, RenameTo behind named
  · obtain ⟨named, hnamed⟩ := h
    obtain ⟨word, left, hword, -⟩ := getNextWord_word named true
    exact ⟨some word, named, hnamed, hword⟩
  · exact ⟨none, fun named hnamed => h ⟨named, hnamed⟩⟩

theorem reads_exists (op : String) (body : Text) : ∃ name new, ReadsNames op body name new := by
  by_cases h : ∃ named, IfClause op body named
  · obtain ⟨named, hnamed⟩ := h
    obtain ⟨word, left, hword, -⟩ := getNextWord_word named true
    obtain ⟨new, hnew⟩ := readsNew_exists ((getNextWord (some named) true).next.getD [])
    exact ⟨word, new, .inl ⟨named, hnamed, hword, hnew⟩⟩
  · have hclause : ∀ named, ¬ IfClause op body named := fun named hnamed => h ⟨named, hnamed⟩
    obtain ⟨word, left, hword, -⟩ := getNextWord_word body true
    by_cases hif : (op = "CREATE" ∨ op = "DROP") ∧ word.map Char.toUpper = "IF".toList
    · refine ⟨word, none, .inr ⟨hclause, hword, ?_⟩⟩
      rw [if_pos hif]
    · obtain ⟨new, hnew⟩ := readsNew_exists ((getNextWord (some body) true).next.getD [])
      refine ⟨word, new, .inr ⟨hclause, hword, ?_⟩⟩
      rw [if_neg hif]
      exact hnew

theorem renamed_iff (hspelled : ∀ m, new = some m → Spelled m) :
    Renamed behind new ↔ ReadsNew behind new := by
  cases new with
  | none => exact Iff.rfl
  | some new =>
    constructor
    · intro h
      obtain ⟨named, after, hrename, hplain⟩ := h
      exact ⟨named, hrename, (getNextWord_plain hplain).1⟩
    · intro h
      obtain ⟨named, hrename, hword⟩ := h
      obtain ⟨after, hplain⟩ := plain_of_word (hspelled new rfl) hword
      exact ⟨named, after, hrename, hplain⟩

theorem plainlyNamed_iff (hname : Spelled name) (hnew : ∀ m, new = some m → Spelled m) :
    PlainlyNamed op body name new ↔ ReadsNames op body name new := by
  constructor
  · intro h
    obtain ⟨named, behind, hclause, hplain, hrenamed⟩ | ⟨hclause, behind, hplain, hrenamed⟩ := h
    · obtain ⟨hword, rfl⟩ := getNextWord_plain hplain
      exact .inl ⟨named, hclause, hword, (renamed_iff hnew).1 hrenamed⟩
    · obtain ⟨hword, rfl⟩ := getNextWord_plain hplain
      rw [renamed_iff hnew] at hrenamed
      exact .inr ⟨hclause, hword, hrenamed⟩
  · intro h
    obtain ⟨named, hclause, hword, hrenamed⟩ | ⟨hclause, hword, hrenamed⟩ := h
    · obtain ⟨behind, hplain⟩ := plain_of_word hname hword
      rw [(getNextWord_plain hplain).2] at hrenamed
      exact .inl ⟨named, behind, hclause, hplain, (renamed_iff hnew).2 hrenamed⟩
    · obtain ⟨behind, hplain⟩ := plain_of_word hname hword
      rw [(getNextWord_plain hplain).2] at hrenamed
      refine .inr ⟨hclause, behind, hplain, ?_⟩
      rw [renamed_iff hnew]
      exact hrenamed

theorem contexts_of_kind {mid : Text} {opname : Text} (hop : opname = "ALTER".toList ∨
      isVconnectionDataModel = false ∧ (opname = "CREATE".toList ∨ opname = "DROP".toList))
    (hkey : Keyword opname text mid) (hword : IsKey opname) :
    metaDataContextFromStatement quote isVconnectionDataModel (some text) =
      match (getNextWord (some mid) false).word with
      | none => .ok []
      | some kind =>
        if kind = "TABLE".toList ∨ kind = "VIEW".toList then
          namedContexts quote opname (getNextWord (some mid) false).next
        else .ok [] := by
  obtain ⟨left, hread⟩ := getNextWord_keyword hword hkey
  unfold metaDataContextFromStatement
  dsimp only
  rw [hread]
  dsimp only
  rw [if_pos hop]

theorem isKey_op (h : op = "ALTER" ∨ isVconnectionDataModel = false ∧
    (op = "CREATE" ∨ op = "DROP")) :
    IsKey op.toList := by
  obtain rfl | ⟨-, rfl | rfl⟩ := h
  · exact isKey_alter
  · exact isKey_create
  · exact isKey_drop

theorem contexts_headed (h : Headed isVconnectionDataModel op text body) :
    metaDataContextFromStatement quote isVconnectionDataModel (some text) =
      namedContexts quote op.toList (some body) := by
  obtain ⟨hop, kind, hkind, mid, hkey, hkey'⟩ := h
  have hop' := hop.imp toList_eq.2 (And.imp_right (Or.imp toList_eq.2 toList_eq.2))
  obtain ⟨left, hread⟩ := getNextWord_keyword (isKey_kind hkind) hkey'
  rw [contexts_of_kind hop' hkey (isKey_op hop), hread]
  dsimp only
  simp only [List.mem_cons, List.not_mem_nil, or_false] at hkind
  rw [if_pos (hkind.imp toList_eq.2 toList_eq.2)]

theorem contexts_not_headed (h : ∀ op body, ¬ Headed isVconnectionDataModel op text body) :
    metaDataContextFromStatement quote isVconnectionDataModel (some text) = .ok [] := by
  obtain ⟨opname, left, hopname, -⟩ := getNextWord_word text false
  by_cases hop : opname = "ALTER".toList ∨ isVconnectionDataModel = false ∧
      (opname = "CREATE".toList ∨ opname = "DROP".toList)
  · obtain ⟨op, hop', rfl⟩ : ∃ op : String, (op = "ALTER" ∨ isVconnectionDataModel = false ∧
        (op = "CREATE" ∨ op = "DROP")) ∧ opname = op.toList := by
      obtain rfl | ⟨hv, rfl | rfl⟩ := hop
      · exact ⟨"ALTER", .inl rfl, rfl⟩
      · exact ⟨"CREATE", .inr ⟨hv, .inl rfl⟩, rfl⟩
      · exact ⟨"DROP", .inr ⟨hv, .inr rfl⟩, rfl⟩
    obtain ⟨mid, hkey⟩ := keyword_of_word (isKey_op hop') hopname
    rw [contexts_of_kind hop hkey (isKey_op hop')]
    obtain ⟨kind, left', hkind, -⟩ := getNextWord_word mid false
    rw [hkind]
    dsimp only
    by_cases hlist : kind = "TABLE".toList ∨ kind = "VIEW".toList
    · exfalso
      obtain rfl | rfl := hlist
      · obtain ⟨body, hbody⟩ := keyword_of_word (isKey_kind (by simp)) hkind
        exact h op body ⟨hop', "TABLE", by simp, mid, hkey, hbody⟩
      · obtain ⟨body, hbody⟩ := keyword_of_word (isKey_kind (by simp)) hkind
        exact h op body ⟨hop', "VIEW", by simp, mid, hkey, hbody⟩
    · rw [if_neg hlist]
  · unfold metaDataContextFromStatement
    dsimp only
    rw [hopname]
    dsimp only
    rw [if_neg hop]

theorem names_of_contexts {names names' : List Text}
    (h : names.map (contextForTable some) = names'.map (contextForTable some)) : names =
      names' := by
  have hinj : Function.Injective (contextForTable some) := by
    intro name name' heq
    simpa [contextForTable] using heq
  exact List.map_injective_iff.2 hinj h

theorem new_name_inj {name' : Text} {new' : Option Text}
    (h : new.toList ++ [name] = new'.toList ++ [name']) : name = name' ∧ new = new' := by
  obtain ⟨hnew, hname⟩ := List.append_inj' h rfl
  refine ⟨by simpa using hname, ?_⟩
  cases new with
  | none =>
    cases new' with
    | none => rfl
    | some _ => cases hnew
  | some _ =>
    cases new' with
    | none => cases hnew
    | some _ => simpa using hnew

end Reading

example : metaDataContextFromStatement some false
    (some "create Table if not\nexists 'T1' (x int)".toList) =
      .ok [contextForTable some "\"T1\"".toList] := by decide

/-- The contexts are those of the names of the statement exactly where the text is plainly written. -/
theorem metaDataContextFromStatement_contract (isVconnectionDataModel : Bool) (text : Text) :
    NamesContexts isVconnectionDataModel text ↔ PlainlyWritten isVconnectionDataModel text := by
  unfold NamesContexts PlainlyWritten schemaNames
  by_cases hheaded : ∃ op body, Headed isVconnectionDataModel op text body
  · obtain ⟨op, body, hhead⟩ := hheaded
    cases hstatement : schemaStatement text with
    | none =>
      constructor
      · intro h
        obtain ⟨name, new, hreads⟩ := reads_exists op body
        have hcontexts := h some
        rw [contexts_headed hhead, namedContexts_reads hreads] at hcontexts
        simp at hcontexts
      · intro h
        exact absurd hhead (h op body)
    | some names =>
      obtain ⟨name, new⟩ := names
      obtain ⟨hname, hnew⟩ := schemaStatement_spelled hstatement
      dsimp only
      constructor
      · intro h
        obtain ⟨name', new', hreads⟩ := reads_exists op body
        have hcontexts := h some
        rw [contexts_headed hhead, namedContexts_reads hreads, Except.ok.injEq] at hcontexts
        obtain ⟨rfl, rfl⟩ := new_name_inj (names_of_contexts hcontexts)
        exact ⟨op, body, hhead, (plainlyNamed_iff hname hnew).2 hreads⟩
      · intro h quote
        obtain ⟨op', body', hhead', hplain⟩ := h
        rw [contexts_headed hhead', namedContexts_reads ((plainlyNamed_iff hname hnew).1 hplain)]
  · have hnone : ∀ op body, ¬ Headed isVconnectionDataModel op text body :=
      fun op body h => hheaded ⟨op, body, h⟩
    cases hstatement : schemaStatement text with
    | none =>
      constructor
      · intro _
        exact hnone
      · intro _ quote
        exact contexts_not_headed hnone
    | some names =>
      dsimp only
      constructor
      · intro h
        have hcontexts := h some
        rw [contexts_not_headed hnone] at hcontexts
        simp at hcontexts
      · intro h
        obtain ⟨op, body, hhead, -⟩ := h
        exact absurd hhead (hnone op body)

/-- A space ends the name, between quotes too. -/
theorem spaced_name_cut :
    ¬ NamesContexts false "ALTER TABLE \"my table\" RENAME TO other".toList := by
  intro h
  exact absurd (h some) (by decide)

end LibGda
