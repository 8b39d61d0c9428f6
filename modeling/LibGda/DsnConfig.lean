import LibGda.ConnectionString
import LibGda.DefaultEscape
import LibGda.KeyedTables
import LibGda.XmlText

/-! The data source names which `GdaConfig` keeps in memory, and its two files. -/

namespace LibGda

structure GdaDsnInfo where
  name : Bytes
  provider : Option Bytes := none
  cncString : Option Bytes := none
  description : Option Bytes := none
  authString : Option Bytes := none
  isSystem : Bool := false
  deriving DecidableEq

structure ConfigEntry where
  tag : Bytes
  name : Option Bytes
  type : Option Bytes
  value : Option Bytes

structure ConfigSection where
  tag : Bytes
  path : Option Bytes
  entries : List ConfigEntry

abbrev ConfigDocument := List ConfigSection

def ConfigEntry.attributes (entry : ConfigEntry) : List Bytes :=
  entry.name.toList ++ entry.type.toList ++ entry.value.toList

def ConfigSection.attributes (node : ConfigSection) : List Bytes :=
  node.path.toList ++ node.entries.flatMap ConfigEntry.attributes

def Savable (doc : ConfigDocument) : Prop :=
  ∀ node ∈ doc, node.tag = bytes "section" ∧ (∀ entry ∈ node.entries, entry.tag = bytes "entry") ∧
    ∀ text ∈ node.attributes, Xml.IsText text

/-- `parse` gives nothing where there is no file, or no document in it. What is saved is read back,
if its texts may stand in a document. -/
structure ConfigFiles (File : Type) where
  parse : File → Option ConfigDocument
  save : ConfigDocument → File
  isText_parse : ∀ file doc, parse file = some doc →
    ∀ node ∈ doc, ∀ text ∈ node.attributes, Xml.IsText text
  parse_save : ∀ doc, Savable doc → parse (save doc) = some doc

/-- What stays the same in a session: the identifiers of the installed providers, and if the system
file may be changed. -/
structure ConfigSession (File : Type) where
  files : ConfigFiles File
  casefold : Bytes → Bytes
  providers : List Bytes
  systemConfigAllowed : Bool

structure GdaConfig (File : Type) where
  dsnList : List GdaDsnInfo
  systemFile : File
  userFile : File

def getDsnInfo (dsnList : List GdaDsnInfo) (dsnName : Bytes) : Option GdaDsnInfo :=
  KeyedList.lookup GdaDsnInfo.name (dsnSplit dsnName).1 dsnList

def asciiLower (b : UInt8) : UInt8 :=
  if 65 ≤ b ∧ b ≤ 90 then b + 32 else b

/-- `gda_config_get_provider_info`, which compares without case. -/
def getProviderInfo (providers : List Bytes) (providerName : Bytes) : Option Bytes :=
  let wanted :=
    if providerName.map asciiLower = (bytes "MS Access").map asciiLower then bytes "MSAccess"
    else providerName
  providers.find? fun id => id.map asciiLower = wanted.map asciiLower

section Load

variable {File : Type} (session : ConfigSession File)

structure SectionState where
  info : GdaDsnInfo
  username : Option Bytes := none
  password : Option Bytes := none

def readProperty (providers : List Bytes) (prop value : Bytes) (info : GdaDsnInfo) : GdaDsnInfo :=
  if prop = bytes "DSN" then { info with cncString := some value }
  else if prop = bytes "Provider" then
    { info with provider := some ((getProviderInfo providers value).getD value) }
  else if prop = bytes "Description" then { info with description := some value }
  else info

def readEntry (providers : List Bytes) (s : SectionState) (entry : ConfigEntry) : SectionState :=
  if entry.tag ≠ bytes "entry" then s
  else
    match entry.name, entry.value with
    | some prop, some value =>
      let info := readProperty providers prop value s.info
      if prop = bytes "Auth" then { s with info := { info with authString := some value } }
      else if prop = bytes "Username" then { s with info, username := some value }
      else if prop = bytes "Password" then { s with info, password := some value }
      else { s with info }
    | _, _ => s

def migrateAuth (s : SectionState) : GdaDsnInfo :=
  match s.username with
  | none => s.info
  | some username =>
    if username = [] ∨ s.info.authString.isSome then s.info
    else
      match s.password with
      | some password =>
        { s.info with
          authString := some (bytes "USERNAME=" ++ rfc1738Encode username ++ bytes ";PASSWORD=" ++
            rfc1738Encode password) }
      | none => { s.info with authString := some (bytes "USERNAME=" ++ rfc1738Encode username) }

def sectionInfo (isSystem : Bool) (name : Bytes) (entries : List ConfigEntry) : GdaDsnInfo :=
  migrateAuth (entries.foldl (readEntry session.providers) { info := { name, isSystem } })

/-- The last element of a path; without a `/` the code goes on in front of the text. -/
def lastElement (path : Bytes) : Option Bytes :=
  if byte '/' ∈ path then some (path.reverse.takeWhile (· != byte '/')).reverse else none

def insertInfo (info : GdaDsnInfo) (dsnList : List GdaDsnInfo) : List GdaDsnInfo :=
  dsnList.orderedInsert (fun a b => session.casefold a.name ≤ session.casefold b.name) info

/-- One turn of the loop of `load_config_file`; there is no result where it reads in front of a
text. -/
def loadSection (isSystem : Bool) (dsnList : List GdaDsnInfo) (node : ConfigSection) :
    Option (List GdaDsnInfo) :=
  if node.tag ≠ bytes "section" then some dsnList
  else
    match node.path with
    | none => some dsnList
    | some path =>
      match lastElement path with
      | none => none
      | some ptr =>
        match getDsnInfo dsnList ptr with
        | none => some (insertInfo session (sectionInfo session isSystem ptr node.entries) dsnList)
        | some info =>
          some (KeyedList.replace GdaDsnInfo.name
            (sectionInfo session isSystem info.name node.entries) dsnList)

def loadConfigFile (isSystem : Bool) (dsnList : List GdaDsnInfo) (file : File) :
    Option (List GdaDsnInfo) :=
  match session.files.parse file with
  | none => some dsnList
  | some doc => doc.foldlM (loadSection session isSystem) dsnList

def loadFiles (systemFile userFile : File) : Option (List GdaDsnInfo) :=
  (loadConfigFile session true [] systemFile).bind fun dsnList =>
    loadConfigFile session false dsnList userFile

end Load

section Save

def entryElement (name : String) (value : Option Bytes) : ConfigEntry :=
  { tag := bytes "entry"
    name := some (bytes name)
    type := some (bytes "string")
    -- an attribute which is set to nothing is written as an empty one
    value := some (value.getD []) }

def sectionElement (info : GdaDsnInfo) : ConfigSection :=
  { tag := bytes "section"
    path := some (bytes "/apps/libgda/Datasources/" ++ info.name)
    entries :=
      [entryElement "Provider" info.provider, entryElement "DSN" info.cncString] ++
      (if info.isSystem then [] else [entryElement "Auth" info.authString]) ++
      [entryElement "Description" info.description] }

def saveDocument (isSystem : Bool) (dsnList : List GdaDsnInfo) : ConfigDocument :=
  (dsnList.filter fun info => info.isSystem = isSystem).map sectionElement

variable {File : Type} (session : ConfigSession File)

def saveConfigFile (isSystem : Bool) (config : GdaConfig File) : GdaConfig File :=
  let file := session.files.save (saveDocument isSystem config.dsnList)
  if isSystem then { config with systemFile := file } else { config with userFile := file }

def saveMarked (saveSystem saveUser : Bool) (config : GdaConfig File) : GdaConfig File :=
  let config := if saveSystem then saveConfigFile session true config else config
  if saveUser then saveConfigFile session false config else config

def defineDsn (config : GdaConfig File) (info : GdaDsnInfo) : Bool × GdaConfig File :=
  if info.isSystem ∧ ¬ session.systemConfigAllowed then (false, config)
  else
    match getDsnInfo config.dsnList info.name with
    | some einfo =>
      let changed := decide (info.isSystem ≠ einfo.isSystem)
      let dsnList := KeyedList.replace GdaDsnInfo.name { info with name := einfo.name }
        config.dsnList
      (true, saveMarked session (info.isSystem || changed) (!info.isSystem || changed)
        { config with dsnList })
    | none =>
      (true, saveMarked session info.isSystem (!info.isSystem)
        { config with dsnList := insertInfo session info config.dsnList })

def removeDsn (config : GdaConfig File) (dsnName : Bytes) : Bool × GdaConfig File :=
  match getDsnInfo config.dsnList dsnName with
  | none => (false, config)
  | some info =>
    if info.isSystem ∧ ¬ session.systemConfigAllowed then (false, config)
    else
      (true, saveMarked session info.isSystem (!info.isSystem)
        { config with dsnList := KeyedList.remove GdaDsnInfo.name info.name config.dsnList })

inductive ConfigCall where
  | define (info : GdaDsnInfo)
  | remove (dsnName : Bytes)

def performCall (config : GdaConfig File) : ConfigCall → Bool × GdaConfig File
  | .define info => defineDsn session config info
  | .remove dsnName => removeDsn session config dsnName

end Save

end LibGda

/-! What the files of the configuration define: the last section of a name does, and loading a file
puts these definitions over the ones which are there. -/

namespace LibGda

variable {File : Type} {session : ConfigSession File} {isSystem : Bool} {name : Bytes}
  {dsnList : List GdaDsnInfo} {info : GdaDsnInfo} {doc : ConfigDocument} {node : ConfigSection}

def SectionNamed (node : ConfigSection) (name : Bytes) : Prop :=
  node.tag = bytes "section" ∧ ∃ path, node.path = some path ∧ lastElement path = some name

def PlainNames (doc : ConfigDocument) : Prop :=
  ∀ node ∈ doc, node.tag = bytes "section" → ∀ path, node.path = some path →
    ∃ name, lastElement path = some name ∧ byte '@' ∉ name

def sectionOf (session : ConfigSession File) (isSystem : Bool) (node : ConfigSection) :
    Option GdaDsnInfo :=
  if node.tag ≠ bytes "section" then none
  else (node.path.bind lastElement).map fun name => sectionInfo session isSystem name node.entries

def docDefinition (session : ConfigSession File) (isSystem : Bool) (name : Bytes) :
    ConfigDocument → Option GdaDsnInfo
  | [] => none
  | node :: doc =>
    (docDefinition session isSystem name doc).or
      ((sectionOf session isSystem node).filter fun info => info.name = name)

def fileDefinition (session : ConfigSession File) (isSystem : Bool) (file : File) (name : Bytes) :
    Option GdaDsnInfo :=
  (session.files.parse file).bind (docDefinition session isSystem name)

theorem dsnSplit_plain (h : byte '@' ∉ name) : (dsnSplit name).1 = name := by
  have hdrop : name.dropWhile (· != byte '@') = [] := by
    apply List.dropWhile_eq_nil_iff.2
    intro b hb
    have hne : b ≠ byte '@' := by
      rintro rfl
      exact h hb
    simpa using hne
  rw [dsnSplit, splitAt, hdrop]

theorem getDsnInfo_plain (h : byte '@' ∉ name) :
    getDsnInfo dsnList name = KeyedList.lookup GdaDsnInfo.name name dsnList := by
  rw [getDsnInfo, dsnSplit_plain h]

section Entries

variable {s : SectionState} {entry : ConfigEntry} {entries : List ConfigEntry}
  {providers : List Bytes}

theorem readProperty_name {prop value : Bytes} {info : GdaDsnInfo} :
    (readProperty providers prop value info).name = info.name ∧
      (readProperty providers prop value info).isSystem = info.isSystem := by
  rw [readProperty]
  split
  · exact ⟨rfl, rfl⟩
  · split
    · exact ⟨rfl, rfl⟩
    · split <;> exact ⟨rfl, rfl⟩

theorem readEntry_name :
    (readEntry providers s entry).info.name = s.info.name ∧
      (readEntry providers s entry).info.isSystem = s.info.isSystem := by
  rw [readEntry]
  split
  · exact ⟨rfl, rfl⟩
  · split
    · simp only []
      split
      · exact readProperty_name
      · split
        · exact readProperty_name
        · split <;> exact readProperty_name
    · exact ⟨rfl, rfl⟩

theorem foldl_readEntry_name :
    (entries.foldl (readEntry providers) s).info.name = s.info.name ∧
      (entries.foldl (readEntry providers) s).info.isSystem = s.info.isSystem := by
  induction entries generalizing s with
  | nil => exact ⟨rfl, rfl⟩
  | cons entry entries ih =>
    have hrest := @ih (readEntry providers s entry)
    have hone := @readEntry_name s entry providers
    exact ⟨hrest.1.trans hone.1, hrest.2.trans hone.2⟩

theorem migrateAuth_name : (migrateAuth s).name = s.info.name ∧
    (migrateAuth s).isSystem = s.info.isSystem := by
  rw [migrateAuth]
  split
  · exact ⟨rfl, rfl⟩
  · split
    · exact ⟨rfl, rfl⟩
    · split <;> exact ⟨rfl, rfl⟩

theorem sectionInfo_name : (sectionInfo session isSystem name entries).name = name ∧
    (sectionInfo session isSystem name entries).isSystem = isSystem := by
  have hmigrate := @migrateAuth_name
    (entries.foldl (readEntry session.providers) { info := { name, isSystem } })
  have hfold := @foldl_readEntry_name { info := { name, isSystem } } entries session.providers
  exact ⟨hmigrate.1.trans hfold.1, hmigrate.2.trans hfold.2⟩

end Entries

theorem sectionOf_eq_some (h : sectionOf session isSystem node = some info) :
    SectionNamed node info.name ∧ info.isSystem = isSystem ∧
      info = sectionInfo session isSystem info.name node.entries := by
  rw [sectionOf] at h
  split at h
  · cases h
  · next htag =>
    obtain ⟨name, hname, rfl⟩ := Option.map_eq_some_iff.1 h
    obtain ⟨path, hpath, hlast⟩ := Option.bind_eq_some_iff.1 hname
    have hkey := @sectionInfo_name _ session isSystem name node.entries
    rw [hkey.1, hkey.2]
    exact ⟨⟨not_not.1 htag, path, hpath, hlast⟩, rfl, rfl⟩

theorem docDefinition_eq_some (h : docDefinition session isSystem name doc = some info) :
    info.name = name ∧ info.isSystem = isSystem ∧
      ∃ node ∈ doc, sectionOf session isSystem node = some info := by
  induction doc with
  | nil => cases h
  | cons node doc ih =>
    rw [docDefinition] at h
    cases hdoc : docDefinition session isSystem name doc with
    | some found =>
      rw [hdoc, Option.some_or] at h
      obtain ⟨hname, hlevel, node', hmem, hsection⟩ := ih (hdoc.trans h)
      exact ⟨hname, hlevel, node', List.mem_cons_of_mem node hmem, hsection⟩
    | none =>
      rw [hdoc, Option.none_or, Option.filter_eq_some_iff] at h
      have hsection := sectionOf_eq_some h.1
      exact ⟨of_decide_eq_true h.2, hsection.2.1, node, List.mem_cons_self .., h.1⟩

theorem docDefinition_ne_none : docDefinition session isSystem name doc ≠ none ↔
    ∃ node ∈ doc, SectionNamed node name := by
  induction doc with
  | nil => simp [docDefinition]
  | cons node doc ih =>
    have hnode : (sectionOf session isSystem node).filter (fun info => info.name = name) ≠ none ↔
        SectionNamed node name := by
      rw [Option.ne_none_iff_exists']
      constructor
      · rintro ⟨info, hinfo⟩
        rw [Option.filter_eq_some_iff] at hinfo
        have hsection := sectionOf_eq_some hinfo.1
        rw [← of_decide_eq_true hinfo.2]
        exact hsection.1
      · rintro ⟨htag, path, hpath, hlast⟩
        refine ⟨sectionInfo session isSystem name node.entries, ?_⟩
        rw [Option.filter_eq_some_iff, sectionOf, if_neg (not_not.2 htag), hpath]
        simp [hlast, sectionInfo_name]
    have hcons : (∃ node' ∈ node :: doc, SectionNamed node' name) ↔
        SectionNamed node name ∨ ∃ node' ∈ doc, SectionNamed node' name := by simp
    rw [docDefinition, hcons, ← ih, ← hnode]
    cases docDefinition session isSystem name doc with
    | none => simp
    | some found => simp

theorem loadSection_plain (htag : node.tag = bytes "section") {path : Bytes}
    (hpath : node.path = some path) (hlast : lastElement path = some name) (hat : byte '@' ∉ name) :
    loadSection session isSystem dsnList node =
      some (match KeyedList.lookup GdaDsnInfo.name name dsnList with
        | none => insertInfo session (sectionInfo session isSystem name node.entries) dsnList
        | some _ =>
          KeyedList.replace GdaDsnInfo.name (sectionInfo session isSystem name node.entries)
            dsnList) := by
  rw [loadSection, if_neg (not_not.2 htag), hpath]
  simp only [hlast]
  rw [getDsnInfo_plain hat]
  cases hlookup : KeyedList.lookup GdaDsnInfo.name name dsnList with
  | none => rfl
  | some found => simp only [KeyedList.key_of_lookup hlookup]

def LoadedOver (dsnList dsnList' : List GdaDsnInfo) (defined : Bytes → Option GdaDsnInfo) : Prop :=
  ((dsnList.map GdaDsnInfo.name).Nodup → (dsnList'.map GdaDsnInfo.name).Nodup) ∧
    ∀ name, KeyedList.lookup GdaDsnInfo.name name dsnList' =
      (defined name).or (KeyedList.lookup GdaDsnInfo.name name dsnList)

theorem putInfo_over (info : GdaDsnInfo) (dsnList : List GdaDsnInfo) :
    LoadedOver dsnList
      (match KeyedList.lookup GdaDsnInfo.name info.name dsnList with
        | none => insertInfo session info dsnList
        | some _ => KeyedList.replace GdaDsnInfo.name info dsnList)
      (fun name => if name = info.name then some info else none) := by
  cases hlookup : KeyedList.lookup GdaDsnInfo.name info.name dsnList with
  | none =>
    constructor
    · intro hnodup
      exact KeyedList.nodup_orderedInsert _ hnodup hlookup
    · intro name
      rw [insertInfo, KeyedList.lookup_orderedInsert _ hlookup]
      by_cases hname : name = info.name
      · simp [hname]
      · simp [hname]
  | some found =>
    constructor
    · intro hnodup
      rw [KeyedList.keys_replace]
      exact hnodup
    · intro name
      rw [KeyedList.lookup_replace (by rw [hlookup]; exact Option.some_ne_none found)]
      by_cases hname : name = info.name
      · simp [hname]
      · simp [hname]

theorem loadSection_over
    (hplain : node.tag = bytes "section" → ∀ path, node.path = some path →
      ∃ name, lastElement path = some name ∧ byte '@' ∉ name) :
    ∃ dsnList', loadSection session isSystem dsnList node = some dsnList' ∧
      LoadedOver dsnList dsnList' fun name =>
        (sectionOf session isSystem node).filter fun info => info.name = name := by
  by_cases htag : node.tag = bytes "section"
  · cases hpath : node.path with
    | none =>
      refine ⟨dsnList, ?_, id, ?_⟩
      · rw [loadSection, if_neg (not_not.2 htag), hpath]
      · intro name
        simp [sectionOf, hpath]
    | some path =>
      obtain ⟨name, hlast, hat⟩ := hplain htag path hpath
      refine ⟨_, loadSection_plain htag hpath hlast hat, ?_⟩
      have hkey := @sectionInfo_name _ session isSystem name node.entries
      have hput := @putInfo_over _ session (sectionInfo session isSystem name node.entries) dsnList
      rw [hkey.1] at hput
      refine ⟨hput.1, fun other => ?_⟩
      rw [hput.2 other]
      have hsection : sectionOf session isSystem node =
          some (sectionInfo session isSystem name node.entries) := by
        rw [sectionOf, if_neg (not_not.2 htag), hpath, Option.bind_some, hlast]
        rfl
      have hdefined : (if other = name then
            some (sectionInfo session isSystem name node.entries) else none) =
          (sectionOf session isSystem node).filter fun info => info.name = other := by
        rw [hsection]
        by_cases hother : other = name
        · simp [hother, Option.filter, hkey.1]
        · simp [hother, Option.filter, hkey.1, Ne.symm hother]
      simp only [hdefined]
  · refine ⟨dsnList, ?_, id, ?_⟩
    · rw [loadSection, if_pos htag]
    · intro name
      simp [sectionOf, htag]

theorem loadDocument_over (hplain : PlainNames doc) :
    ∃ dsnList', doc.foldlM (loadSection session isSystem) dsnList = some dsnList' ∧
      LoadedOver dsnList dsnList' fun name => docDefinition session isSystem name doc := by
  induction doc generalizing dsnList with
  | nil => exact ⟨dsnList, rfl, id, fun name => by simp [docDefinition]⟩
  | cons node doc ih =>
    obtain ⟨list₁, hload₁, hover₁⟩ := @loadSection_over _ session isSystem dsnList node
      (hplain node (List.mem_cons_self ..))
    obtain ⟨list₂, hload₂, hover₂⟩ := @ih list₁ fun n hn => hplain n (List.mem_cons_of_mem node hn)
    refine ⟨list₂, ?_, fun hnodup => hover₂.1 (hover₁.1 hnodup), fun name => ?_⟩
    · rw [List.foldlM_cons, hload₁]
      exact hload₂
    · simp only [hover₂.2, hover₁.2, docDefinition, Option.or_assoc]

def PlainFile (session : ConfigSession File) (file : File) : Prop :=
  ∀ doc, session.files.parse file = some doc → PlainNames doc

theorem loadConfigFile_over {file : File} (hplain : PlainFile session file) :
    ∃ dsnList', loadConfigFile session isSystem dsnList file = some dsnList' ∧
      LoadedOver dsnList dsnList' (fileDefinition session isSystem file) := by
  rw [loadConfigFile]
  cases hparse : session.files.parse file with
  | none =>
    refine ⟨dsnList, rfl, id, fun name => ?_⟩
    rw [fileDefinition, hparse, Option.bind_none, Option.none_or]
  | some doc =>
    obtain ⟨list', hload, hover⟩ := @loadDocument_over _ session isSystem dsnList doc
      (hplain doc hparse)
    refine ⟨list', hload, hover.1, fun name => ?_⟩
    rw [hover.2, fileDefinition, hparse, Option.bind_some]

theorem loadFiles_over {systemFile userFile : File} (hsystem : PlainFile session systemFile)
    (huser : PlainFile session userFile) :
    ∃ dsnList', loadFiles session systemFile userFile = some dsnList' ∧
      (dsnList'.map GdaDsnInfo.name).Nodup ∧
      ∀ name, KeyedList.lookup GdaDsnInfo.name name dsnList' =
        (fileDefinition session false userFile name).or
          (fileDefinition session true systemFile name) := by
  obtain ⟨list₁, hload₁, hover₁⟩ := @loadConfigFile_over _ session true [] systemFile hsystem
  obtain ⟨list₂, hload₂, hover₂⟩ := @loadConfigFile_over _ session false list₁ userFile huser
  refine ⟨list₂, ?_, hover₂.1 (hover₁.1 List.nodup_nil), fun name => ?_⟩
  · rw [loadFiles, hload₁]
    exact hload₂
  · rw [hover₂.2, hover₁.2, KeyedList.lookup_nil, Option.or_none]

theorem fileDefinition_eq_some {file : File}
    (h : fileDefinition session isSystem file name = some info) :
    info.name = name ∧ info.isSystem = isSystem := by
  obtain ⟨doc, -, hdoc⟩ := Option.bind_eq_some_iff.1 h
  have hdefined := docDefinition_eq_some hdoc
  exact ⟨hdefined.1, hdefined.2.1⟩

end LibGda
