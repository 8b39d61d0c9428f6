import LibGda.DsnConfigSaving

/-! Runs of definitions and removals: when memory stays the finite map which is loaded from the two
files, and one name never touches another. -/

namespace LibGda

variable {File : Type} {session : ConfigSession File} {config config' : GdaConfig File}
  {name : Bytes} {info : GdaDsnInfo} {saveSystem saveUser : Bool}

def definition (config : GdaConfig File) (name : Bytes) : Option GdaDsnInfo :=
  KeyedList.lookup GdaDsnInfo.name name config.dsnList

def GdaConfig.file (config : GdaConfig File) (isSystem : Bool) : File :=
  if isSystem then config.systemFile else config.userFile

def Alike (a b : Option GdaDsnInfo) : Prop := a.map GdaDsnInfo.plain = b.map GdaDsnInfo.plain

def loadedAlone (session : ConfigSession File) (config : GdaConfig File) (isSystem : Bool)
    (name : Bytes) : Option (Option GdaDsnInfo) :=
  (loadConfigFile session isSystem [] (config.file isSystem)).map
    (KeyedList.lookup GdaDsnInfo.name name)

def ConfigCall.target : ConfigCall → Bytes
  | define info => info.name
  | remove dsnName => dsnName

def ConfigCall.result : ConfigCall → Option GdaDsnInfo
  | define info => some info
  | remove _ => none

structure CallDone (session : ConfigSession File) (config config' : GdaConfig File)
    (call : ConfigCall) : Prop where
  own : definition config' call.target = call.result
  others : ∀ name, name ≠ call.target → definition config' name = definition config name
  distinct : (config'.dsnList.map GdaDsnInfo.name).Nodup
  reload : ∃ dsnList, loadFiles session config'.systemFile config'.userFile = some dsnList ∧
    ∀ name, Alike (KeyedList.lookup GdaDsnInfo.name name dsnList) (definition config' name)
  level : ∀ info ∈ config'.dsnList, ∃ loaded,
    loadedAlone session config' info.isSystem info.name = some loaded ∧ Alike loaded (some info)
  hidden : ∀ info ∈ config'.dsnList, info.isSystem = false →
    loadedAlone session config' true info.name = loadedAlone session config true info.name

def CallMeets (session : ConfigSession File) (config : GdaConfig File) (call : ConfigCall) : Prop :=
  if (performCall session config call).1 = true then
    CallDone session config (performCall session config call).2 call
  else (performCall session config call).2 = config

def RunMeets (session : ConfigSession File) : GdaConfig File → List ConfigCall → Prop
  | _, [] => True
  | config, call :: calls =>
    CallMeets session config call ∧ RunMeets session (performCall session config call).2 calls

section Conditions

def InFile (session : ConfigSession File) (file : File) (name : Bytes) : Prop :=
  ∃ doc, session.files.parse file = some doc ∧ ∃ node ∈ doc, SectionNamed node name

def SystemFits (session : ConfigSession File) (config : GdaConfig File) (name : Bytes) : Prop :=
  ∀ info ∈ config.dsnList, info.name ≠ name →
    if info.isSystem then info.authString.getD [] = []
    else ¬ InFile session config.systemFile info.name

def CallFits (session : ConfigSession File) (config : GdaConfig File) : ConfigCall → Prop
  | .define info =>
    info.isSystem = true ∧ session.systemConfigAllowed = false ∨
      InfoFits session.providers info ∧
        if info.isSystem then info.authString.getD [] = [] ∧ SystemFits session config info.name
        else ∀ einfo, definition config info.name = some einfo → einfo.isSystem = false
  | .remove dsnName =>
    getDsnInfo config.dsnList dsnName = none ∨
      byte '@' ∉ dsnName ∧ ∀ info, definition config dsnName = some info →
        if info.isSystem then
          session.systemConfigAllowed = false ∨ SystemFits session config dsnName
        else ¬ InFile session config.systemFile dsnName

def RunFits (session : ConfigSession File) : GdaConfig File → List ConfigCall → Prop
  | _, [] => True
  | config, call :: calls =>
    CallFits session config call ∧ RunFits session (performCall session config call).2 calls

end Conditions

structure Settled (session : ConfigSession File) (config : GdaConfig File) : Prop where
  nodup : (config.dsnList.map GdaDsnInfo.name).Nodup
  fits : ∀ info ∈ config.dsnList, InfoFits session.providers info
  systemPlain : PlainFile session config.systemFile
  userPlain : PlainFile session config.userFile
  reload : ∀ name, Alike
    ((fileDefinition session false config.userFile name).or
      (fileDefinition session true config.systemFile name)) (definition config name)

section Agreement

variable {a b : Option GdaDsnInfo}

theorem alike_none (h : Alike a none) : a = none := Option.map_eq_none_iff.1 h

theorem alike_some (h : Alike a (some info)) :
    ∃ found, a = some found ∧ found.plain = info.plain := by
  obtain ⟨found, hfound, hplain⟩ := Option.map_eq_some_iff.1 h
  exact ⟨found, hfound, hplain⟩

theorem isSystem_of_plain {other : GdaDsnInfo} (h : other.plain = info.plain) :
    other.isSystem = info.isSystem := by
  have hlevel := congrArg GdaDsnInfo.isSystem h
  exact hlevel

inductive Placed (user system inMemory : Option GdaDsnInfo) : Prop where
  | nowhere (hmemory : inMemory = none) (huser : user = none) (hsystem : system = none)
  | user (info found : GdaDsnInfo) (hmemory : inMemory = some info) (hlevel : info.isSystem = false)
      (huser : user = some found) (hplain : found.plain = info.plain)
  | system (info found : GdaDsnInfo) (hmemory : inMemory = some info)
      (hlevel : info.isSystem = true) (huser : user = none) (hsystem : system = some found)
      (hplain : found.plain = info.plain)

theorem Settled.placed (h : Settled session config) (name : Bytes) :
    Placed (fileDefinition session false config.userFile name)
      (fileDefinition session true config.systemFile name) (definition config name) := by
  have hreload := h.reload name
  cases hmemory : definition config name with
  | none =>
    rw [hmemory] at hreload
    have hnone := Option.or_eq_none_iff.1 (alike_none hreload)
    exact .nowhere rfl hnone.1 hnone.2
  | some info =>
    rw [hmemory] at hreload
    obtain ⟨found, hfound, hplain⟩ := alike_some hreload
    have hlevel := isSystem_of_plain hplain
    cases huser : fileDefinition session false config.userFile name with
    | some found' =>
      rw [huser, Option.some_or] at hfound
      obtain rfl := Option.some.inj hfound
      rw [(fileDefinition_eq_some huser).2] at hlevel
      exact .user info found' rfl hlevel.symm rfl hplain
    | none =>
      rw [huser, Option.none_or] at hfound
      rw [(fileDefinition_eq_some hfound).2] at hlevel
      exact .system info found rfl hlevel.symm rfl hfound hplain

def savedAs (saved isSystem : Bool) (inMemory inFile : Option GdaDsnInfo) : Option GdaDsnInfo :=
  if saved then (inMemory.filter fun info => info.isSystem = isSystem).map savedInfo else inFile

def Covered (saveSystem saveUser : Bool) (user system inMemory : Option GdaDsnInfo) : Prop :=
  match inMemory with
  | none => (saveUser = false → user = none) ∧ (saveSystem = false → system = none)
  | some info =>
    if info.isSystem then
      (saveUser = false → user = none) ∧
        if saveSystem then info.authString.getD [] = [] else Alike system (some info)
    else saveUser = false → Alike user (some info)

theorem alike_savedInfo (h : info.isSystem = true → info.authString.getD [] = []) :
    Alike (some (savedInfo info)) (some info) := by
  rw [Alike, Option.map_some, Option.map_some, plain_savedInfo h]

theorem Covered.alike {user system inMemory : Option GdaDsnInfo}
    (h : Covered saveSystem saveUser user system inMemory) :
    Alike ((savedAs saveUser false inMemory user).or (savedAs saveSystem true inMemory system))
      inMemory := by
  cases inMemory with
  | none =>
    have huser : savedAs saveUser false none user = none := by
      cases saveUser with
      | true => rfl
      | false => exact h.1 rfl
    have hsystem : savedAs saveSystem true none system = none := by
      cases saveSystem with
      | true => rfl
      | false => exact h.2 rfl
    rw [huser, hsystem]
    rfl
  | some info =>
    cases hlevel : info.isSystem with
    | true =>
      rw [Covered] at h
      simp only [hlevel, if_true] at h
      have huser : savedAs saveUser false (some info) user = none := by
        cases saveUser with
        | true => simp [savedAs, Option.filter, hlevel]
        | false => exact h.1 rfl
      rw [huser, Option.none_or]
      cases saveSystem with
      | true =>
        have hauth : info.authString.getD [] = [] := h.2
        have hsaved : savedAs true true (some info) system = some (savedInfo info) := by
          simp [savedAs, Option.filter, hlevel]
        rw [hsaved]
        exact alike_savedInfo fun _ => hauth
      | false => exact h.2
    | false =>
      rw [Covered] at h
      simp only [hlevel, Bool.false_eq_true, if_false] at h
      cases saveUser with
      | true =>
        have hsaved : savedAs true false (some info) user = some (savedInfo info) := by
          simp [savedAs, Option.filter, hlevel]
        rw [hsaved, Option.some_or]
        apply alike_savedInfo
        intro hsystem
        rw [hlevel] at hsystem
        cases hsystem
      | false =>
        obtain ⟨found, hfound, hplain⟩ := alike_some (h rfl)
        have hkept : savedAs false false (some info) user = some found := hfound
        rw [hkept, Option.some_or, Alike, Option.map_some, Option.map_some, hplain]

theorem Placed.covered {user system inMemory : Option GdaDsnInfo}
    (h : Placed user system inMemory)
    (hauth : saveSystem = true → ∀ info, inMemory = some info → info.isSystem = true →
      info.authString.getD [] = []) :
    Covered saveSystem saveUser user system inMemory := by
  cases h with
  | nowhere hmemory huser hsystem =>
    rw [hmemory]
    exact ⟨fun _ => huser, fun _ => hsystem⟩
  | user info found hmemory hlevel huser hplain =>
    rw [hmemory, Covered]
    simp only [hlevel, Bool.false_eq_true, if_false]
    intro _
    rw [huser, Alike, Option.map_some, Option.map_some, hplain]
  | system info found hmemory hlevel huser hsystem hplain =>
    rw [hmemory, Covered]
    simp only [hlevel, if_true]
    refine ⟨fun _ => huser, ?_⟩
    split
    · next hsave => exact hauth hsave info hmemory hlevel
    · rw [hsystem, Alike, Option.map_some, Option.map_some, hplain]

end Agreement

section Saving

theorem dsnList_saveMarked : (saveMarked session saveSystem saveUser config).dsnList =
    config.dsnList := by
  cases saveSystem <;> cases saveUser <;> rfl

theorem definition_saveMarked : definition (saveMarked session saveSystem saveUser config) name =
    definition config name := by
  rw [definition, dsnList_saveMarked, definition]

theorem systemFile_saveMarked : (saveMarked session saveSystem saveUser config).systemFile =
    if saveSystem then session.files.save (saveDocument true config.dsnList)
    else config.systemFile := by
  cases saveSystem <;> cases saveUser <;> rfl

theorem userFile_saveMarked : (saveMarked session saveSystem saveUser config).userFile =
    if saveUser then session.files.save (saveDocument false config.dsnList)
    else config.userFile := by
  cases saveSystem <;> cases saveUser <;> rfl

variable {dsnList : List GdaDsnInfo}

theorem settled_saveMarked (hold : Settled session config)
    (hnodup : (dsnList.map GdaDsnInfo.name).Nodup)
    (hfits : ∀ info ∈ dsnList, InfoFits session.providers info)
    (hcovered : ∀ name, Covered saveSystem saveUser
      (fileDefinition session false config.userFile name)
      (fileDefinition session true config.systemFile name)
      (KeyedList.lookup GdaDsnInfo.name name dsnList)) :
    Settled session (saveMarked session saveSystem saveUser { config with dsnList }) := by
  constructor
  · rw [dsnList_saveMarked]
    exact hnodup
  · rw [dsnList_saveMarked]
    exact hfits
  · rw [systemFile_saveMarked]
    cases saveSystem with
    | true => exact plainFile_saved hfits
    | false => exact hold.systemPlain
  · rw [userFile_saveMarked]
    cases saveUser with
    | true => exact plainFile_saved hfits
    | false => exact hold.userPlain
  · intro name
    have huser : fileDefinition session false
        (saveMarked session saveSystem saveUser { config with dsnList }).userFile name =
        savedAs saveUser false (KeyedList.lookup GdaDsnInfo.name name dsnList)
          (fileDefinition session false config.userFile name) := by
      rw [userFile_saveMarked, savedAs]
      cases saveUser with
      | true => exact fileDefinition_saved hnodup hfits
      | false => rfl
    have hsystem : fileDefinition session true
        (saveMarked session saveSystem saveUser { config with dsnList }).systemFile name =
        savedAs saveSystem true (KeyedList.lookup GdaDsnInfo.name name dsnList)
          (fileDefinition session true config.systemFile name) := by
      rw [systemFile_saveMarked, savedAs]
      cases saveSystem with
      | true => exact fileDefinition_saved hnodup hfits
      | false => rfl
    rw [huser, hsystem, definition_saveMarked]
    exact (hcovered name).alike

end Saving

section Steps

theorem Settled.reloads (h : Settled session config) :
    ∃ dsnList, loadFiles session config.systemFile config.userFile = some dsnList ∧
      ∀ name, Alike (KeyedList.lookup GdaDsnInfo.name name dsnList) (definition config name) := by
  obtain ⟨dsnList, hload, -, hlookup⟩ := loadFiles_over h.systemPlain h.userPlain
  refine ⟨dsnList, hload, fun name => ?_⟩
  rw [hlookup name]
  exact h.reload name

theorem Settled.plainFile (h : Settled session config) (isSystem : Bool) :
    PlainFile session (config.file isSystem) := by
  cases isSystem with
  | true => exact h.systemPlain
  | false => exact h.userPlain

theorem Settled.loadedAlone (h : Settled session config) (isSystem : Bool) (name : Bytes) :
    loadedAlone session config isSystem name =
      some (fileDefinition session isSystem (config.file isSystem) name) := by
  obtain ⟨dsnList, hload, hover⟩ := @loadConfigFile_over _ session isSystem [] _
    (h.plainFile isSystem)
  rw [LibGda.loadedAlone, hload, Option.map_some, hover.2 name, KeyedList.lookup_nil,
    Option.or_none]

theorem Settled.definition_of_mem (h : Settled session config) (hmem : info ∈ config.dsnList) :
    definition config info.name = some info :=
  KeyedList.lookup_of_mem h.nodup hmem

theorem Settled.level (h : Settled session config) (hmem : info ∈ config.dsnList) :
    ∃ loaded, LibGda.loadedAlone session config info.isSystem info.name = some loaded ∧
      Alike loaded (some info) := by
  refine ⟨_, h.loadedAlone info.isSystem info.name, ?_⟩
  have hmemory := h.definition_of_mem hmem
  cases h.placed info.name with
  | nowhere hnone _ _ =>
    rw [hmemory] at hnone
    cases hnone
  | user info' found hsome hlevel huser hplain =>
    obtain rfl := Option.some.inj (hmemory.symm.trans hsome)
    rw [hlevel]
    have hfile : config.file false = config.userFile := rfl
    rw [hfile, huser, Alike, Option.map_some, Option.map_some, hplain]
  | system info' found hsome hlevel huser hsystem hplain =>
    obtain rfl := Option.some.inj (hmemory.symm.trans hsome)
    rw [hlevel]
    have hfile : config.file true = config.systemFile := rfl
    rw [hfile, hsystem, Alike, Option.map_some, Option.map_some, hplain]

theorem fileDefinition_eq_none {file : File} {isSystem : Bool} (h : ¬ InFile session file name) :
    fileDefinition session isSystem file name = none := by
  rw [fileDefinition]
  cases hparse : session.files.parse file with
  | none => rfl
  | some doc =>
    rw [Option.bind_some]
    by_contra hne
    exact h ⟨doc, hparse, docDefinition_ne_none.1 hne⟩

theorem hidden_of_settled (hold : Settled session config) (hnew : Settled session config')
    (hcall : config'.systemFile = config.systemFile ∨
      (∀ info ∈ config'.dsnList, info.isSystem = false →
        ¬ InFile session config.systemFile info.name) ∧
      ∀ name, fileDefinition session true config'.systemFile name =
        savedAs true true (definition config' name)
          (fileDefinition session true config.systemFile name)) :
    ∀ info ∈ config'.dsnList, info.isSystem = false →
      LibGda.loadedAlone session config' true info.name =
        LibGda.loadedAlone session config true info.name := by
  intro info hmem hlevel
  rw [hold.loadedAlone, hnew.loadedAlone]
  have hfile : config.file true = config.systemFile := rfl
  have hfile' : config'.file true = config'.systemFile := rfl
  rw [hfile, hfile']
  rcases hcall with hsame | ⟨hnone, hsaved⟩
  · rw [hsame]
  · rw [fileDefinition_eq_none (hnone info hmem hlevel), hsaved, hnew.definition_of_mem hmem]
    simp [savedAs, Option.filter, hlevel]

variable {dsnList : List GdaDsnInfo} {call : ConfigCall}

theorem callDone_saveMarked (hold : Settled session config)
    (hnodup : (dsnList.map GdaDsnInfo.name).Nodup)
    (hfits : ∀ info ∈ dsnList, InfoFits session.providers info)
    (hlookup : ∀ name, KeyedList.lookup GdaDsnInfo.name name dsnList =
      if name = call.target then call.result else definition config name)
    (htarget : Covered saveSystem saveUser
      (fileDefinition session false config.userFile call.target)
      (fileDefinition session true config.systemFile call.target) call.result)
    (hsystem : saveSystem = true → SystemFits session config call.target ∧
      ∀ info, call.result = some info → info.isSystem = true) :
    CallDone session config (saveMarked session saveSystem saveUser { config with dsnList }) call ∧
      Settled session (saveMarked session saveSystem saveUser { config with dsnList }) := by
  have hdefinition (name : Bytes) :
      definition (saveMarked session saveSystem saveUser { config with dsnList }) name =
        if name = call.target then call.result else definition config name := by
    rw [definition_saveMarked]
    exact hlookup name
  have hnew : Settled session (saveMarked session saveSystem saveUser { config with dsnList }) := by
    apply settled_saveMarked hold hnodup hfits
    intro name
    rw [hlookup name]
    by_cases hname : name = call.target
    · rw [if_pos hname, hname]
      exact htarget
    · rw [if_neg hname]
      apply (hold.placed name).covered
      intro hsave info hinfo hlevel
      have hmem : info ∈ config.dsnList := KeyedList.mem_of_lookup hinfo
      have hkey : info.name = name := KeyedList.key_of_lookup hinfo
      have hsafe := (hsystem hsave).1 info hmem (hkey ▸ hname)
      rw [if_pos hlevel] at hsafe
      exact hsafe
  refine ⟨⟨?_, ?_, hnew.nodup, hnew.reloads, fun info hmem => hnew.level hmem, ?_⟩, hnew⟩
  · rw [hdefinition, if_pos rfl]
  · intro name hname
    rw [hdefinition, if_neg hname]
  · apply hidden_of_settled hold hnew
    cases hsave : saveSystem with
    | false => exact .inl (by rw [systemFile_saveMarked]; rfl)
    | true =>
      refine .inr ⟨?_, ?_⟩
      · intro info hmem hlevel
        rw [dsnList_saveMarked] at hmem
        have hinfo := KeyedList.lookup_of_mem hnodup hmem
        rw [hlookup] at hinfo
        by_cases hname : info.name = call.target
        · rw [if_pos hname] at hinfo
          rw [(hsystem hsave).2 info hinfo] at hlevel
          cases hlevel
        · rw [if_neg hname] at hinfo
          have hsafe := (hsystem hsave).1 info (KeyedList.mem_of_lookup hinfo) hname
          rw [hlevel, if_neg Bool.false_ne_true] at hsafe
          exact hsafe
      · intro name
        rw [definition_saveMarked, systemFile_saveMarked]
        exact fileDefinition_saved hnodup hfits

theorem Settled.user_none (hold : Settled session config)
    (h : ∀ einfo, definition config name = some einfo → einfo.isSystem = true) :
    fileDefinition session false config.userFile name = none := by
  cases hold.placed name with
  | nowhere hmemory huser hsystem => exact huser
  | user einfo found hmemory hlevel huser hplain =>
    rw [h einfo hmemory] at hlevel
    cases hlevel
  | system einfo found hmemory hlevel huser hsystem hplain => exact huser

theorem define_done (hold : Settled session config) (hinfo : InfoFits session.providers info)
    (hlevel : if info.isSystem then
        info.authString.getD [] = [] ∧ SystemFits session config info.name
      else ∀ einfo, definition config info.name = some einfo → einfo.isSystem = false)
    (hsaveUser : info.isSystem = false → saveUser = true)
    (hkept : info.isSystem = true → saveUser = false →
      ∀ einfo, definition config info.name = some einfo → einfo.isSystem = true)
    (hnodup : (dsnList.map GdaDsnInfo.name).Nodup) (hmem : ∀ other ∈ dsnList,
      other = info ∨ other ∈ config.dsnList)
    (hlookup : ∀ name, KeyedList.lookup GdaDsnInfo.name name dsnList =
      if name = info.name then some info else definition config name) :
    CallDone session config (saveMarked session info.isSystem saveUser { config with dsnList })
        (.define info) ∧
      Settled session (saveMarked session info.isSystem saveUser { config with dsnList }) := by
  apply callDone_saveMarked hold hnodup
  · intro other hother
    rcases hmem other hother with rfl | hother
    · exact hinfo
    · exact hold.fits other hother
  · exact hlookup
  · have hresult : ConfigCall.result (.define info) = some info := rfl
    rw [hresult, Covered]
    cases hsystem : info.isSystem with
    | true =>
      rw [hsystem, if_pos rfl] at hlevel
      rw [if_pos rfl, if_pos rfl]
      exact ⟨fun hsave => hold.user_none (hkept hsystem hsave), hlevel.1⟩
    | false =>
      rw [if_neg Bool.false_ne_true, hsaveUser hsystem]
      intro hsave
      cases hsave
  · intro hsystem
    rw [if_pos hsystem] at hlevel
    refine ⟨hlevel.2, fun other hother => ?_⟩
    rw [← Option.some.inj hother]
    exact hsystem

theorem Settled.define (hold : Settled session config)
    (hfits : CallFits session config (.define info)) :
    CallMeets session config (.define info) ∧
      Settled session (performCall session config (.define info)).2 := by
  by_cases hrefused : info.isSystem = true ∧ session.systemConfigAllowed = false
  · have hresult : performCall session config (.define info) = (false, config) := by
      rw [performCall, defineDsn, if_pos ⟨hrefused.1, by rw [hrefused.2]; exact Bool.false_ne_true⟩]
    rw [CallMeets, hresult]
    exact ⟨rfl, hold⟩
  have hrefused' : ¬ (info.isSystem = true ∧ ¬ session.systemConfigAllowed = true) := by
    intro h
    exact hrefused ⟨h.1, Bool.eq_false_iff.2 h.2⟩
  obtain ⟨hinfo, hlevel⟩ := hfits.resolve_left hrefused
  have hget := @getDsnInfo_plain info.name config.dsnList hinfo.noAt
  cases hfound : KeyedList.lookup GdaDsnInfo.name info.name config.dsnList with
  | none =>
    have hresult : performCall session config (.define info) =
        (true, saveMarked session info.isSystem (!info.isSystem)
          { config with dsnList := insertInfo session info config.dsnList }) := by
      rw [performCall, defineDsn, if_neg hrefused', hget, hfound]
    have hdone := @define_done _ session config info (!info.isSystem)
      (insertInfo session info config.dsnList) hold hinfo hlevel
      (fun hsystem => by rw [hsystem]; rfl)
      (fun _ _ einfo heinfo => by
        rw [definition, hfound] at heinfo
        cases heinfo)
      (KeyedList.nodup_orderedInsert _ hold.nodup hfound)
      (fun other hother => (List.mem_orderedInsert _).1 hother)
      (fun name => KeyedList.lookup_orderedInsert _ hfound)
    rw [CallMeets, hresult]
    exact hdone
  | some einfo =>
    have hname : einfo.name = info.name := KeyedList.key_of_lookup hfound
    have hsame : { info with name := einfo.name } = info := by rw [hname]
    have hflag : (info.isSystem || decide (info.isSystem ≠ einfo.isSystem)) = info.isSystem := by
      cases hsystem : info.isSystem with
      | true => rfl
      | false =>
        rw [hsystem, if_neg Bool.false_ne_true] at hlevel
        rw [hlevel einfo hfound]
        rfl
    have hresult : performCall session config (.define info) =
        (true, saveMarked session info.isSystem
          (!info.isSystem || decide (info.isSystem ≠ einfo.isSystem))
          { config with dsnList := KeyedList.replace GdaDsnInfo.name info config.dsnList }) := by
      rw [performCall, defineDsn, if_neg hrefused', hget, hfound]
      simp only [hsame, hflag]
    have hne : KeyedList.lookup GdaDsnInfo.name info.name config.dsnList ≠ none := by
      rw [hfound]
      exact Option.some_ne_none einfo
    have hdone := @define_done _ session config info
      (!info.isSystem || decide (info.isSystem ≠ einfo.isSystem))
      (KeyedList.replace GdaDsnInfo.name info config.dsnList) hold hinfo hlevel
      (fun hsystem => by rw [hsystem]; rfl)
      (fun hsystem hsave other hother => by
        obtain rfl := Option.some.inj (hfound.symm.trans hother)
        cases hlevel' : einfo.isSystem with
        | true => rfl
        | false =>
          rw [hsystem, hlevel'] at hsave
          cases hsave)
      (by
        rw [KeyedList.keys_replace]
        exact hold.nodup)
      (fun other hother => KeyedList.mem_replace hother)
      (fun name => KeyedList.lookup_replace hne)
    rw [CallMeets, hresult]
    exact hdone

theorem Settled.remove (hold : Settled session config)
    (hfits : CallFits session config (.remove name)) :
    CallMeets session config (.remove name) ∧
      Settled session (performCall session config (.remove name)).2 := by
  cases hfound : getDsnInfo config.dsnList name with
  | none =>
    have hresult : performCall session config (.remove name) = (false, config) := by
      rw [performCall, removeDsn, hfound]
    rw [CallMeets, hresult]
    exact ⟨rfl, hold⟩
  | some info =>
    obtain ⟨hat, hlevel⟩ := hfits.resolve_left (by rw [hfound]; exact Option.some_ne_none info)
    have hmemory : definition config name = some info := by
      rw [definition, ← getDsnInfo_plain hat, hfound]
    have hname : info.name = name := KeyedList.key_of_lookup hmemory
    have hsafe := hlevel info hmemory
    by_cases hrefused : info.isSystem = true ∧ session.systemConfigAllowed = false
    · have hresult : performCall session config (.remove name) = (false, config) := by
        rw [performCall, removeDsn, hfound]
        exact if_pos ⟨hrefused.1, by rw [hrefused.2]; exact Bool.false_ne_true⟩
      rw [CallMeets, hresult]
      exact ⟨rfl, hold⟩
    have hrefused' : ¬ (info.isSystem = true ∧ ¬ session.systemConfigAllowed = true) := by
      intro h
      exact hrefused ⟨h.1, Bool.eq_false_iff.2 h.2⟩
    have hresult : performCall session config (.remove name) =
        (true, saveMarked session info.isSystem (!info.isSystem)
          { config with dsnList := KeyedList.remove GdaDsnInfo.name name config.dsnList }) := by
      rw [performCall, removeDsn, hfound, ← hname]
      exact if_neg hrefused'
    have hdone := @callDone_saveMarked _ session config info.isSystem (!info.isSystem)
      (KeyedList.remove GdaDsnInfo.name name config.dsnList) (.remove name) hold
      (KeyedList.nodup_remove hold.nodup)
      (fun other hother => hold.fits other (KeyedList.remove_sublist.subset hother))
      (fun other => KeyedList.lookup_remove hold.nodup)
      (by
        refine ⟨fun hsave => ?_, fun hsave => ?_⟩
        · apply hold.user_none
          intro einfo heinfo
          obtain rfl := Option.some.inj (hmemory.symm.trans heinfo)
          exact Bool.not_eq_false' .. ▸ hsave
        · rw [hsave, if_neg Bool.false_ne_true] at hsafe
          exact fileDefinition_eq_none hsafe)
      (fun hsystem => by
        rw [if_pos hsystem] at hsafe
        refine ⟨hsafe.resolve_left fun hallowed => hrefused ⟨hsystem, hallowed⟩, ?_⟩
        intro other hother
        cases hother)
    rw [CallMeets, hresult]
    exact hdone

theorem Settled.run (hold : Settled session config) (calls : List ConfigCall)
    (hfits : RunFits session config calls) : RunMeets session config calls := by
  induction calls generalizing config with
  | nil => exact trivial
  | cons call calls ih =>
    have hcall : CallMeets session config call ∧
        Settled session (performCall session config call).2 := by
      cases call with
      | define info => exact hold.define hfits.1
      | remove dsnName => exact hold.remove hfits.1
    exact ⟨hcall.1, ih hcall.2 hfits.2⟩

theorem settled_of_load {systemFile userFile : File} {dsnList : List GdaDsnInfo}
    (hsystem : PlainFile session systemFile) (huser : PlainFile session userFile)
    (hload : loadFiles session systemFile userFile = some dsnList) :
    Settled session { dsnList, systemFile, userFile } := by
  obtain ⟨loaded, hload', hnodup, hlookup⟩ := loadFiles_over hsystem huser
  obtain rfl := Option.some.inj (hload.symm.trans hload')
  refine ⟨hnodup, ?_, hsystem, huser, fun name => ?_⟩
  · intro info hmem
    have hinfo := KeyedList.lookup_of_mem hnodup hmem
    rw [hlookup, Option.or_eq_some_iff] at hinfo
    rcases hinfo with hinfo | ⟨-, hinfo⟩
    · exact fileDefinition_fits huser hinfo
    · exact fileDefinition_fits hsystem hinfo
  · rw [definition, hlookup name]
    rfl

end Steps

section Claim

/-- The configuration is a finite map which its files hold, in every run whose calls fit. -/
theorem config_run {systemFile userFile : File} (hsystem : PlainFile session systemFile)
    (huser : PlainFile session userFile) :
    ∃ dsnList, loadFiles session systemFile userFile = some dsnList ∧
      ∀ calls, RunFits session { dsnList, systemFile, userFile } calls →
        RunMeets session { dsnList, systemFile, userFile } calls := by
  obtain ⟨dsnList, hload, -, -⟩ := loadFiles_over hsystem huser
  refine ⟨dsnList, hload, fun calls hfits => ?_⟩
  exact (settled_of_load hsystem huser hload).run calls hfits

abbrev MemoryFile :=
  Option { doc : ConfigDocument // ∀ node ∈ doc, ∀ text ∈ node.attributes, Xml.IsText text }

open Classical in
noncomputable def memoryFiles : ConfigFiles MemoryFile where
  parse file := file.map (·.1)
  save doc :=
    if h : ∀ node ∈ doc, ∀ text ∈ node.attributes, Xml.IsText text then some ⟨doc, h⟩ else none
  isText_parse := by
    intro file doc hdoc
    obtain ⟨file, -, rfl⟩ := Option.map_eq_some_iff.1 hdoc
    exact file.2
  parse_save := by
    intro doc hdoc
    rw [dif_pos fun node hnode => (hdoc node hnode).2.2]
    rfl

noncomputable def memorySession : ConfigSession MemoryFile where
  files := memoryFiles
  casefold := id
  providers := [bytes "SQLite"]
  systemConfigAllowed := true

/-- A user definition and a system definition, from missing files. -/
theorem config_run_two : ∃ dsnList, loadFiles memorySession none none = some dsnList ∧
    RunMeets memorySession { dsnList, systemFile := none, userFile := none }
      [.define { name := bytes "b", cncString := some (bytes "DB_NAME=b") },
        .define { name := bytes "c", isSystem := true }] := by
  have hplain : PlainFile memorySession none := by
    intro doc hdoc
    cases hdoc
  obtain ⟨dsnList, hload, hrun⟩ := config_run hplain hplain
  refine ⟨dsnList, hload, hrun _ ?_⟩
  obtain rfl : [] = dsnList := Option.some.inj hload
  have htext {text : String} (h : ∀ x ∈ bytes text, Xml.isPrintable x = true) :
      ∀ value, some (bytes text) = some value → Xml.IsText value := by
    intro value hvalue
    rw [← Option.some.inj hvalue]
    exact Xml.isText_printable h
  have hnone : ∀ value : Bytes, none = some value → Xml.IsText value := fun _ h => by cases h
  have hb : InfoFits memorySession.providers
      { name := bytes "b", cncString := some (bytes "DB_NAME=b") } :=
    ⟨by decide +kernel, by decide +kernel,
      ⟨Xml.isText_printable (by decide +kernel), hnone, htext (by decide +kernel), hnone, hnone⟩,
      fun _ h => by cases h⟩
  have hc : InfoFits memorySession.providers { name := bytes "c", isSystem := true } :=
    ⟨by decide +kernel, by decide +kernel,
      ⟨Xml.isText_printable (by decide +kernel), hnone, hnone, hnone, hnone⟩, fun _ h => by cases h⟩
  refine ⟨.inr ⟨hb, ?_⟩, .inr ⟨hc, rfl, ?_⟩, trivial⟩
  · intro einfo heinfo
    cases heinfo
  · intro info hinfo _
    obtain rfl : info = { name := bytes "b", cncString := some (bytes "DB_NAME=b") } :=
      List.mem_singleton.1 hinfo
    rintro ⟨doc, hdoc, -⟩
    cases hdoc

/-- Defining `a@b` changes the definition of `b`. -/
theorem other_changed :
    ¬ RunMeets memorySession { dsnList := [], systemFile := none, userFile := none }
      [.define { name := bytes "b" },
        .define { name := bytes "a@b", description := some (bytes "x") }] := by
  rintro ⟨-, hcall, -⟩
  have hdone := (if_pos rfl).mp hcall
  have hothers := hdone.others (bytes "b") (by decide +kernel)
  have hdescription := congrArg (Option.map GdaDsnInfo.description) hothers
  exact absurd hdescription (by decide +kernel)

end Claim

end LibGda
