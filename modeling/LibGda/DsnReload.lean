import LibGda.DsnConfigRuns
import Mathlib.Data.List.MinMax

/-! `reload_dsn_configuration`: the data sources of the files take the place of those in memory,
and the listeners are told what differs. -/

namespace LibGda

inductive DsnSignal where
  | added (info : GdaDsnInfo)
  | changed (info : GdaDsnInfo)
  | removed (info : GdaDsnInfo)

structure ReloadState where
  dsnList : List GdaDsnInfo
  hash : List Bytes
  signals : List DsnSignal

section Reload

variable {File : Type} (session : ConfigSession File)

def sameDefinition (oinfo ninfo : GdaDsnInfo) : Bool :=
  oinfo.provider = ninfo.provider && oinfo.description = ninfo.description &&
    oinfo.cncString = ninfo.cncString && oinfo.authString = ninfo.authString &&
    oinfo.isSystem = ninfo.isSystem

/-- `*oinfo = *ninfo` for the entry which was found under a name. -/
def exchangeInfo (found : Bytes) (ninfo : GdaDsnInfo) : List GdaDsnInfo → List GdaDsnInfo
  | [] => []
  | info :: dsnList =>
    if info.name = found then ninfo :: dsnList else info :: exchangeInfo found ninfo dsnList

def reloadInfo (s : ReloadState) (ninfo : GdaDsnInfo) : ReloadState :=
  match getDsnInfo s.dsnList ninfo.name with
  | none =>
    ⟨insertInfo session ninfo s.dsnList, ninfo.name :: s.hash, s.signals ++ [.added ninfo]⟩
  | some oinfo =>
    if sameDefinition oinfo ninfo then { s with hash := oinfo.name :: s.hash }
    else
      ⟨exchangeInfo oinfo.name ninfo s.dsnList, ninfo.name :: s.hash,
        s.signals ++ [.changed ninfo]⟩

def removeOld (s : ReloadState) : List GdaDsnInfo × List DsnSignal :=
  (s.dsnList.filter fun info => info.name ∈ s.hash,
    s.signals ++ (s.dsnList.filter fun info => info.name ∉ s.hash).map .removed)

/-- `reload_dsn_configuration`: the list in memory and the signals, in their order. -/
def reloadDsnConfiguration (current : List GdaDsnInfo) (systemFile userFile : File) :
    Option (List GdaDsnInfo × List DsnSignal) :=
  (loadFiles session systemFile userFile).map fun newList =>
    removeOld (newList.foldl (reloadInfo session) ⟨current, [], []⟩)

end Reload

section Listener

def DsnSignal.name : DsnSignal → Bytes
  | added info => info.name
  | changed info => info.name
  | removed info => info.name

def DsnSignal.apply (table : Bytes → Option GdaDsnInfo) : DsnSignal → Bytes → Option GdaDsnInfo
  | added info => KeyTable.put table info.name info
  | changed info => KeyTable.put table info.name info
  | removed info => KeyTable.drop table info.name

def dsnTable (dsnList : List GdaDsnInfo) (name : Bytes) : Option GdaDsnInfo :=
  KeyedList.lookup GdaDsnInfo.name name dsnList

variable {File : Type} (session : ConfigSession File)

/-- `data_source_info_compare` is never positive from an entry to a later one. -/
def SortedDsn (dsnList : List GdaDsnInfo) : Prop :=
  dsnList.Pairwise fun a b => session.casefold a.name ≤ session.casefold b.name

structure DsnList where
  list : List GdaDsnInfo
  sorted : SortedDsn session list
  distinct : (list.map GdaDsnInfo.name).Nodup

def filesDefinition (systemFile userFile : File) (name : Bytes) : Option GdaDsnInfo :=
  (fileDefinition session false userFile name).or (fileDefinition session true systemFile name)

structure Reloaded (current : List GdaDsnInfo) (systemFile userFile : File)
    (r : List GdaDsnInfo × List DsnSignal) : Prop where
  defined : dsnTable r.1 = filesDefinition session systemFile userFile
  sorted : SortedDsn session r.1
  distinct : (r.1.map GdaDsnInfo.name).Nodup
  mirrored : r.2.foldl DsnSignal.apply (dsnTable current) = dsnTable r.1
  once : (r.2.map DsnSignal.name).Nodup
  differs : ∀ signal ∈ r.2, dsnTable current signal.name ≠ dsnTable r.1 signal.name

def Reloads (systemFile userFile : File) : Prop :=
  ∀ current : DsnList session, ∃ r,
    reloadDsnConfiguration session current.list systemFile userFile = some r ∧
      Reloaded session current.list systemFile userFile r

end Listener

section Merge

variable {File : Type} {session : ConfigSession File} {old done dsnList : List GdaDsnInfo}
  {s : ReloadState} {info : GdaDsnInfo} {name : Bytes} {systemFile userFile : File}

theorem exchangeInfo_self (info : GdaDsnInfo) (dsnList : List GdaDsnInfo) :
    exchangeInfo info.name info dsnList = KeyedList.replace GdaDsnInfo.name info dsnList := by
  induction dsnList with
  | nil => rfl
  | cons x dsnList ih => rw [exchangeInfo, KeyedList.replace, ih]

theorem same_of_sameDefinition {oinfo ninfo : GdaDsnInfo} (hname : oinfo.name = ninfo.name)
    (h : sameDefinition oinfo ninfo = true) : oinfo = ninfo := by
  obtain ⟨name, provider, cncString, description, authString, isSystem⟩ := oinfo
  simp only [sameDefinition, Bool.and_eq_true, decide_eq_true_eq] at h
  obtain ⟨⟨⟨⟨rfl, rfl⟩, rfl⟩, rfl⟩, rfl⟩ := h
  obtain rfl : name = ninfo.name := hname
  rfl

theorem sameDefinition_self (info : GdaDsnInfo) : sameDefinition info info = true := by
  simp [sameDefinition]

theorem sorted_insertInfo (h : SortedDsn session dsnList) :
    SortedDsn session (insertInfo session info dsnList) := by
  have htotal : Std.Total fun a b : GdaDsnInfo =>
      session.casefold a.name ≤ session.casefold b.name := ⟨fun _ _ => List.le_total _ _⟩
  have htrans : IsTrans GdaDsnInfo fun a b => session.casefold a.name ≤ session.casefold b.name :=
    ⟨fun _ _ _ => List.le_trans⟩
  exact List.Pairwise.orderedInsert info dsnList h

theorem sorted_replace (h : SortedDsn session dsnList) :
    SortedDsn session (KeyedList.replace GdaDsnInfo.name info dsnList) := by
  have hkeys : ∀ xs : List GdaDsnInfo, SortedDsn session xs ↔
      (xs.map GdaDsnInfo.name).Pairwise fun a b => session.casefold a ≤ session.casefold b := by
    intro xs
    rw [List.pairwise_map, SortedDsn]
  rw [hkeys, KeyedList.keys_replace, ← hkeys]
  exact h

theorem lookup_concat (xs : List GdaDsnInfo) (x : GdaDsnInfo) (name : Bytes) :
    dsnTable (xs ++ [x]) name = (dsnTable xs name).or (if x.name = name then some x else none) := by
  rw [dsnTable, dsnTable, KeyedList.lookup, KeyedList.lookup, List.find?_append]
  by_cases hname : x.name = name
  · rw [if_pos hname, List.find?_cons_of_pos (by simpa using hname)]
  · rw [if_neg hname, List.find?_cons_of_neg (by simpa using hname), List.find?_nil]

structure Merged (session : ConfigSession File) (old done : List GdaDsnInfo) (s : ReloadState) :
    Prop where
  table : ∀ name, dsnTable s.dsnList name = (dsnTable done name).or (dsnTable old name)
  sorted : SortedDsn session s.dsnList
  distinct : (s.dsnList.map GdaDsnInfo.name).Nodup
  hash : ∀ name, name ∈ s.hash ↔ name ∈ done.map GdaDsnInfo.name
  mirrored : s.signals.foldl DsnSignal.apply (dsnTable old) = dsnTable s.dsnList
  once : (s.signals.map DsnSignal.name).Nodup
  known : ∀ signal ∈ s.signals, signal.name ∈ done.map GdaDsnInfo.name
  differs : ∀ signal ∈ s.signals, dsnTable old signal.name ≠ dsnTable done signal.name

theorem not_mem_iff_table : name ∉ done.map GdaDsnInfo.name ↔ dsnTable done name = none := by
  rw [dsnTable, KeyedList.lookup_eq_none, List.mem_map]
  constructor
  · intro h info hinfo hname
    exact h ⟨info, hinfo, hname⟩
  · intro h ⟨info, hinfo, hname⟩
    exact h info hinfo hname

theorem Merged.signalled (h : Merged session old done s)
    (hnew : info.name ∉ done.map GdaDsnInfo.name) {signal : DsnSignal} {hash : List Bytes}
    (hsorted : SortedDsn session dsnList) (hdistinct : (dsnList.map GdaDsnInfo.name).Nodup)
    (hput : dsnTable dsnList = KeyTable.put (dsnTable s.dsnList) info.name info)
    (hhash : hash = info.name :: s.hash) (hname : signal.name = info.name)
    (happly : ∀ table, signal.apply table = KeyTable.put table info.name info)
    (hdiffers : dsnTable old info.name ≠ some info) :
    Merged session old (done ++ [info]) ⟨dsnList, hash, s.signals ++ [signal]⟩ := by
  have hnone := not_mem_iff_table.1 hnew
  have hself : dsnTable (done ++ [info]) info.name = some info := by
    rw [lookup_concat, hnone, if_pos rfl, Option.none_or]
  refine ⟨?_, hsorted, hdistinct, ?_, ?_, ?_, ?_, ?_⟩
  · intro name
    rw [hput]
    by_cases hname : name = info.name
    · rw [hname, KeyTable.put_self, hself, Option.some_or]
    · rw [KeyTable.put_of_ne _ _ hname, h.table, lookup_concat, if_neg (Ne.symm hname),
        Option.or_none]
  · intro name
    simp [hhash, h.hash, or_comm]
  · rw [List.foldl_append, h.mirrored, List.foldl_cons, List.foldl_nil, happly, hput]
  · rw [List.map_append, List.map_singleton, ← List.concat_eq_append, List.nodup_concat]
    refine ⟨?_, h.once⟩
    intro hmem
    obtain ⟨other, hother, heq⟩ := List.mem_map.1 hmem
    rw [hname] at heq
    exact hnew (heq ▸ h.known other hother)
  · intro other hother
    rw [List.map_append, List.mem_append]
    rcases List.mem_append.1 hother with hmem | hmem
    · exact .inl (h.known other hmem)
    · rw [List.mem_singleton.1 hmem, hname]
      exact .inr (List.mem_singleton_self _)
  · intro other hother
    rcases List.mem_append.1 hother with hmem | hmem
    · have hknown := h.known other hmem
      have hne : info.name ≠ other.name := fun heq => hnew (heq ▸ hknown)
      rw [lookup_concat, if_neg hne, Option.or_none]
      exact h.differs other hmem
    · rw [List.mem_singleton.1 hmem, hname, hself]
      exact hdiffers

theorem Merged.reloadInfo (h : Merged session old done s) (hplain : byte '@' ∉ info.name)
    (hnew : info.name ∉ done.map GdaDsnInfo.name) :
    Merged session old (done ++ [info]) (LibGda.reloadInfo session s info) := by
  have hnone := not_mem_iff_table.1 hnew
  have hold : dsnTable s.dsnList info.name = dsnTable old info.name := by
    rw [h.table, hnone, Option.none_or]
  rw [LibGda.reloadInfo, getDsnInfo_plain hplain]
  cases hlookup : KeyedList.lookup GdaDsnInfo.name info.name s.dsnList with
  | none =>
    refine h.signalled hnew (sorted_insertInfo h.sorted)
      (KeyedList.nodup_orderedInsert _ h.distinct hlookup) ?_ rfl rfl (fun _ => rfl) ?_
    · funext name
      rw [dsnTable, insertInfo, KeyedList.lookup_orderedInsert _ hlookup, KeyTable.put]
      rfl
    · rw [← hold, dsnTable, hlookup]
      exact (Option.some_ne_none info).symm
  | some oinfo =>
    have hname := KeyedList.key_of_lookup hlookup
    have hfound : dsnTable old info.name = some oinfo := hold.symm.trans hlookup
    simp only
    by_cases hsame : sameDefinition oinfo info = true
    · obtain rfl := same_of_sameDefinition hname hsame
      rw [if_pos hsame]
      have hconcat : ∀ name, name ≠ oinfo.name →
          dsnTable (done ++ [oinfo]) name = dsnTable done name := by
        intro name hne
        rw [lookup_concat, if_neg (Ne.symm hne), Option.or_none]
      refine ⟨?_, h.sorted, h.distinct, ?_, h.mirrored, h.once, ?_, ?_⟩
      · intro name
        rw [h.table]
        by_cases hne : name = oinfo.name
        · rw [hne, lookup_concat, hnone, hfound, if_pos rfl]
          rfl
        · rw [hconcat name hne]
      · intro name
        simp [h.hash, or_comm]
      · intro signal hsignal
        rw [List.map_append]
        exact List.mem_append_left _ (h.known signal hsignal)
      · intro signal hsignal
        have hne : signal.name ≠ oinfo.name := fun heq => hnew (heq ▸ h.known signal hsignal)
        rw [hconcat _ hne]
        exact h.differs signal hsignal
    · rw [if_neg hsame, hname, exchangeInfo_self]
      refine h.signalled hnew (sorted_replace h.sorted) ?_ ?_ rfl rfl (fun _ => rfl) ?_
      · rw [KeyedList.keys_replace]
        exact h.distinct
      · funext name
        have hsome : KeyedList.lookup GdaDsnInfo.name info.name s.dsnList ≠ none := by
          rw [hlookup]
          exact Option.some_ne_none oinfo
        rw [dsnTable, KeyedList.lookup_replace hsome, KeyTable.put]
        rfl
      · rw [hfound]
        intro heq
        apply hsame
        rw [Option.some.inj heq]
        exact sameDefinition_self info

theorem Merged.foldl {new : List GdaDsnInfo} (h : Merged session old done s)
    (hplain : ∀ info ∈ new, byte '@' ∉ info.name)
    (hnodup : ((done ++ new).map GdaDsnInfo.name).Nodup) :
    Merged session old (done ++ new) (new.foldl (LibGda.reloadInfo session) s) := by
  induction new generalizing done s with
  | nil => rwa [List.append_nil]
  | cons info new ih =>
    have hassoc : done ++ info :: new = done ++ [info] ++ new := by simp
    rw [hassoc] at hnodup ⊢
    have hnew : info.name ∉ done.map GdaDsnInfo.name := by
      rw [List.map_append, List.map_append] at hnodup
      have hleft := (List.nodup_append.1 (List.nodup_append.1 hnodup).1).2.2
      intro hmem
      exact hleft _ hmem _ (List.mem_singleton_self _) rfl
    exact ih (h.reloadInfo (hplain info List.mem_cons_self) hnew)
      (fun x hx => hplain x (List.mem_cons_of_mem info hx)) hnodup

theorem merged_start (hsorted : SortedDsn session old)
    (hdistinct : (old.map GdaDsnInfo.name).Nodup) : Merged session old [] ⟨old, [], []⟩ where
  table _ := (Option.none_or).symm
  sorted := hsorted
  distinct := hdistinct
  hash _ := Iff.rfl
  mirrored := rfl
  once := List.nodup_nil
  known _ h := absurd h List.not_mem_nil
  differs _ h := absurd h List.not_mem_nil

theorem foldl_removed (table : Bytes → Option GdaDsnInfo) (infos : List GdaDsnInfo) (name : Bytes) :
    (infos.map DsnSignal.removed).foldl DsnSignal.apply table name =
      if name ∈ infos.map GdaDsnInfo.name then none else table name := by
  induction infos generalizing table with
  | nil => rfl
  | cons info infos ih =>
    rw [List.map_cons, List.foldl_cons, ih, List.map_cons, DsnSignal.apply, KeyTable.drop]
    by_cases hmem : name ∈ infos.map GdaDsnInfo.name
    · rw [if_pos hmem, if_pos (List.mem_cons_of_mem _ hmem)]
    · rw [if_neg hmem]
      by_cases hname : name = info.name
      · rw [if_pos hname, if_pos (hname ▸ List.mem_cons_self)]
      · rw [if_neg hname, if_neg fun h => (List.mem_cons.1 h).elim hname hmem]

theorem Merged.removeOld (h : Merged session old done s) :
    dsnTable (LibGda.removeOld s).1 = dsnTable done ∧ SortedDsn session (LibGda.removeOld s).1 ∧
      ((LibGda.removeOld s).1.map GdaDsnInfo.name).Nodup ∧
      (LibGda.removeOld s).2.foldl DsnSignal.apply (dsnTable old) = dsnTable done ∧
      ((LibGda.removeOld s).2.map DsnSignal.name).Nodup ∧
      ∀ signal ∈ (LibGda.removeOld s).2,
        dsnTable old signal.name ≠ dsnTable done signal.name := by
  have hmem : ∀ info, info ∈ (s.dsnList.filter fun info => info.name ∉ s.hash) →
      info ∈ s.dsnList ∧ dsnTable done info.name = none := by
    intro info hinfo
    obtain ⟨hin, hout⟩ := List.mem_filter.1 hinfo
    refine ⟨hin, not_mem_iff_table.1 ?_⟩
    rw [← h.hash]
    exact of_decide_eq_true hout
  have hnames : ((s.dsnList.filter fun info => info.name ∉ s.hash).map DsnSignal.removed).map
      DsnSignal.name = (s.dsnList.filter fun info => info.name ∉ s.hash).map GdaDsnInfo.name := by
    rw [List.map_map]
    rfl
  refine ⟨?_, h.sorted.sublist List.filter_sublist, ?_, ?_, ?_, ?_⟩
  · funext name
    have hfilter := KeyedList.lookup_filter (k := name) h.distinct fun info => info.name ∈ s.hash
    rw [dsnTable, LibGda.removeOld, hfilter]
    have htable := h.table name
    rw [dsnTable] at htable
    rw [htable]
    cases hdone : dsnTable done name with
    | none =>
      rw [Option.none_or]
      cases hold : dsnTable old name with
      | none => rfl
      | some info =>
        have hname : info.name = name := KeyedList.key_of_lookup hold
        have hhash : info.name ∉ s.hash := by
          rw [h.hash, hname]
          exact not_mem_iff_table.2 hdone
        rw [Option.filter_some, if_neg (by simpa using hhash)]
    | some info =>
      have hname : info.name = name := KeyedList.key_of_lookup hdone
      have hhash : info.name ∈ s.hash := by
        rw [h.hash]
        exact List.mem_map_of_mem (KeyedList.mem_of_lookup hdone)
      rw [Option.some_or, Option.filter_some, if_pos (by simpa using hhash)]
  · exact ((List.filter_sublist).map GdaDsnInfo.name).nodup h.distinct
  · funext name
    rw [LibGda.removeOld, List.foldl_append, h.mirrored, foldl_removed]
    cases hdone : dsnTable done name with
    | none =>
      have hhash : name ∉ s.hash := by
        rw [h.hash]
        exact not_mem_iff_table.2 hdone
      split
      · rfl
      · next hout =>
        rw [dsnTable, KeyedList.lookup_eq_none]
        intro info hinfo hname
        apply hout
        rw [← hname]
        rw [← hname] at hhash
        exact List.mem_map_of_mem (List.mem_filter.2 ⟨hinfo, by simpa using hhash⟩)
    | some info =>
      rw [if_neg, h.table, hdone, Option.some_or]
      intro hin
      obtain ⟨other, hother, hname⟩ := List.mem_map.1 hin
      rw [← hname, (hmem other hother).2] at hdone
      cases hdone
  · rw [LibGda.removeOld, List.map_append, hnames]
    refine List.nodup_append.2 ⟨h.once, ((List.filter_sublist).map _).nodup h.distinct, ?_⟩
    rintro a ha b hb rfl
    obtain ⟨signal, hsignal, rfl⟩ := List.mem_map.1 ha
    obtain ⟨info, hinfo, hname⟩ := List.mem_map.1 hb
    exact not_mem_iff_table.2 (hmem info hinfo).2 (hname ▸ h.known signal hsignal)
  · intro signal hsignal
    rcases List.mem_append.1 hsignal with hsignal | hsignal
    · exact h.differs signal hsignal
    · obtain ⟨info, hinfo, rfl⟩ := List.mem_map.1 hsignal
      obtain ⟨hin, hnone⟩ := hmem info hinfo
      have hsome := KeyedList.lookup_of_mem h.distinct hin
      have htable := h.table info.name
      rw [hnone, Option.none_or, dsnTable, hsome] at htable
      rw [DsnSignal.name, hnone, ← htable]
      exact Option.some_ne_none info

theorem reloads_of_plain (hsystem : PlainFile session systemFile)
    (huser : PlainFile session userFile) : Reloads session systemFile userFile := by
  intro current
  obtain ⟨newList, hload, hnodup, htable⟩ := loadFiles_over hsystem huser
  have hdefined : dsnTable newList = filesDefinition session systemFile userFile := by
    funext name
    exact htable name
  have hplain : ∀ info ∈ newList, byte '@' ∉ info.name := by
    intro info hinfo
    have hsome := KeyedList.lookup_of_mem hnodup hinfo
    rw [htable] at hsome
    have hfile : ∀ {isSystem file}, PlainFile session file →
        fileDefinition session isSystem file info.name ≠ none → byte '@' ∉ info.name := by
      intro isSystem file hfile hne
      rw [fileDefinition] at hne
      cases hparse : session.files.parse file with
      | none =>
        rw [hparse] at hne
        exact absurd rfl hne
      | some doc =>
        rw [hparse, Option.bind_some] at hne
        obtain ⟨node, hnode, htag, path, hpath, hlast⟩ := docDefinition_ne_none.1 hne
        obtain ⟨name, hname, hat⟩ := hfile doc hparse node hnode htag path hpath
        rw [hlast] at hname
        rw [Option.some.inj hname]
        exact hat
    rcases Option.or_eq_some_iff.1 hsome with hfound | ⟨-, hfound⟩
    · exact hfile huser (by rw [hfound]; exact Option.some_ne_none info)
    · exact hfile hsystem (by rw [hfound]; exact Option.some_ne_none info)
  have hmerged := (merged_start current.sorted current.distinct).foldl hplain hnodup
  obtain ⟨hlist, hsorted, hdistinct, hmirrored, honce, hdiffers⟩ := hmerged.removeOld
  rw [List.nil_append, hdefined] at hlist hmirrored
  rw [List.nil_append, hdefined] at hdiffers
  refine ⟨_, by rw [reloadDsnConfiguration, hload]; rfl, hlist, hsorted, hdistinct, ?_, honce, ?_⟩
  · rw [hlist]
    exact hmirrored
  · rw [hlist]
    exact hdiffers

end Merge

section Parsed

variable {File : Type} {session : ConfigSession File} {isSystem : Bool}
  {dsnList dsnList' : List GdaDsnInfo} {s : ReloadState} {info : GdaDsnInfo} {n name : Bytes}
  {node : ConfigSection} {doc : ConfigDocument} {file systemFile userFile : File}

def fileNames (session : ConfigSession File) (file : File) : List Bytes :=
  ((session.files.parse file).getD []).filterMap fun node =>
    if node.tag = bytes "section" then node.path.bind lastElement else none

theorem mem_fileNames (isSystem : Bool) : name ∈ fileNames session file ↔
    fileDefinition session isSystem file name ≠ none := by
  rw [fileNames, fileDefinition, List.mem_filterMap]
  cases session.files.parse file with
  | none => simp
  | some doc =>
    rw [Option.bind_some, docDefinition_ne_none]
    simp only [Option.getD_some, SectionNamed, Option.ite_none_right_eq_some,
      Option.bind_eq_some_iff]

theorem loadSection_names (h : loadSection session isSystem dsnList node = some dsnList') :
    (∀ info ∈ dsnList', info.name ∈ dsnList.map GdaDsnInfo.name ∨ SectionNamed node info.name) ∧
      (node.tag = bytes "section" → ∀ path, node.path = some path → lastElement path ≠ none) := by
  rw [loadSection] at h
  split at h
  · next htag =>
    obtain rfl := Option.some.inj h
    exact ⟨fun info hinfo => .inl (List.mem_map_of_mem hinfo), fun heq => absurd heq htag⟩
  · next htag =>
    split at h
    · next hpath =>
      obtain rfl := Option.some.inj h
      refine ⟨fun info hinfo => .inl (List.mem_map_of_mem hinfo), ?_⟩
      intro _ path hsome
      rw [hpath] at hsome
      cases hsome
    · next path hpath =>
      split at h
      · cases h
      · next ptr hlast =>
        have hlasts : ∀ path', node.path = some path' → lastElement path' ≠ none := by
          intro path' hpath'
          rw [hpath] at hpath'
          rw [← Option.some.inj hpath', hlast]
          exact Option.some_ne_none ptr
        have hkey := fun name => @sectionInfo_name _ session isSystem name node.entries
        split at h
        · obtain rfl := Option.some.inj h
          refine ⟨fun info hinfo => ?_, fun _ => hlasts⟩
          rcases List.mem_cons.1 ((List.perm_orderedInsert _ _ _).mem_iff.1 hinfo) with rfl | hmem
          · rw [(hkey ptr).1]
            exact .inr ⟨not_not.1 htag, path, hpath, hlast⟩
          · exact .inl (List.mem_map_of_mem hmem)
        · obtain rfl := Option.some.inj h
          refine ⟨fun info hinfo => ?_, fun _ => hlasts⟩
          have hmem := List.mem_map_of_mem (f := GdaDsnInfo.name) hinfo
          rw [KeyedList.keys_replace] at hmem
          exact .inl hmem

theorem loadDocument_names (h : doc.foldlM (loadSection session isSystem) dsnList = some dsnList') :
    (∀ info ∈ dsnList', info.name ∈ dsnList.map GdaDsnInfo.name ∨
      ∃ node ∈ doc, SectionNamed node info.name) ∧
      ∀ node ∈ doc, node.tag = bytes "section" → ∀ path, node.path = some path →
        lastElement path ≠ none := by
  induction doc generalizing dsnList with
  | nil =>
    obtain rfl := Option.some.inj h
    exact ⟨fun info hinfo => .inl (List.mem_map_of_mem hinfo), by simp⟩
  | cons node doc ih =>
    rw [List.foldlM_cons] at h
    obtain ⟨list₁, hsection, hrest⟩ := Option.bind_eq_some_iff.1 h
    obtain ⟨hone, hlast⟩ := loadSection_names hsection
    obtain ⟨hnames, hlasts⟩ := ih hrest
    refine ⟨fun info hinfo => ?_, List.forall_mem_cons.2 ⟨hlast, hlasts⟩⟩
    rcases hnames info hinfo with hmem | ⟨node', hnode, hnamed⟩
    · obtain ⟨info', hinfo', hname⟩ := List.mem_map.1 hmem
      rw [← hname]
      rcases hone info' hinfo' with hmem | hnamed
      · exact .inl hmem
      · exact .inr ⟨node, List.mem_cons_self, hnamed⟩
    · exact .inr ⟨node', List.mem_cons_of_mem node hnode, hnamed⟩

/-- The file can be loaded: no path is without a `/`. -/
def Loadable (session : ConfigSession File) (file : File) : Prop :=
  ∀ doc, session.files.parse file = some doc → ∀ node ∈ doc, node.tag = bytes "section" →
    ∀ path, node.path = some path → lastElement path ≠ none

theorem loadConfigFile_names (h : loadConfigFile session isSystem dsnList file = some dsnList') :
    (∀ info ∈ dsnList', info.name ∈ dsnList.map GdaDsnInfo.name ∨
      info.name ∈ fileNames session file) ∧ Loadable session file := by
  rw [loadConfigFile] at h
  cases hparse : session.files.parse file with
  | none =>
    rw [hparse] at h
    obtain rfl := Option.some.inj h
    refine ⟨fun info hinfo => .inl (List.mem_map_of_mem hinfo), ?_⟩
    intro doc hdoc
    rw [hparse] at hdoc
    cases hdoc
  | some doc =>
    rw [hparse] at h
    obtain ⟨hnames, hlasts⟩ := loadDocument_names h
    refine ⟨fun info hinfo => (hnames info hinfo).imp_right ?_, ?_⟩
    · intro hnamed
      rw [mem_fileNames isSystem, fileDefinition, hparse]
      exact docDefinition_ne_none.2 hnamed
    · intro doc' hdoc'
      rw [hparse] at hdoc'
      rw [← Option.some.inj hdoc']
      exact hlasts

theorem loadFiles_names (h : loadFiles session systemFile userFile = some dsnList) :
    (∀ info ∈ dsnList, info.name ∈ fileNames session systemFile ++ fileNames session userFile) ∧
      Loadable session systemFile ∧ Loadable session userFile := by
  obtain ⟨list₁, hsystem, huser⟩ := Option.bind_eq_some_iff.1 h
  obtain ⟨hnames₁, hlast₁⟩ := loadConfigFile_names hsystem
  obtain ⟨hnames₂, hlast₂⟩ := loadConfigFile_names huser
  refine ⟨fun info hinfo => ?_, hlast₁, hlast₂⟩
  rcases hnames₂ info hinfo with hmem | hmem
  · obtain ⟨info', hinfo', hname⟩ := List.mem_map.1 hmem
    rw [← hname]
    rcases hnames₁ info' hinfo' with hnil | hfile
    · cases hnil
    · exact List.mem_append_left _ hfile
  · exact List.mem_append_right _ hmem

theorem length_dsnSplit (h : byte '@' ∈ name) : (dsnSplit name).1.length < name.length := by
  have hcut := @List.takeWhile_append_dropWhile _ (· != byte '@') name
  rw [dsnSplit, splitAt]
  cases hdrop : name.dropWhile (· != byte '@') with
  | nil =>
    have hall := List.dropWhile_eq_nil_iff.1 hdrop _ h
    simp at hall
  | cons b rest =>
    have hlength := congrArg List.length hcut
    rw [hdrop, List.length_append, List.length_cons] at hlength
    show rest.length < name.length
    omega

def Doubled (n : Bytes) (s : ReloadState) : Prop :=
  1 ≤ s.dsnList.countP (fun info => info.name = n) ∧
    (n ∈ s.hash → 2 ≤ s.dsnList.countP fun info => info.name = n)

theorem countP_exchangeInfo {found : Bytes} (hfound : found ≠ n)
    (h : found ∈ dsnList.map GdaDsnInfo.name) :
    (exchangeInfo found info dsnList).countP (fun x => x.name = n) =
      dsnList.countP (fun x => x.name = n) + if info.name = n then 1 else 0 := by
  induction dsnList with
  | nil => cases h
  | cons x dsnList ih =>
    rw [exchangeInfo]
    by_cases hx : x.name = found
    · have hne : x.name ≠ n := hx ▸ hfound
      rw [if_pos hx, List.countP_cons, List.countP_cons]
      simp [hne]
    · have hmem : found ∈ dsnList.map GdaDsnInfo.name :=
        (List.mem_cons.1 h).resolve_left (Ne.symm hx)
      rw [if_neg hx, List.countP_cons, List.countP_cons, ih hmem]
      omega

theorem Doubled.reloadInfo (h : Doubled n s) (hsplit : (dsnSplit info.name).1 ≠ n) :
    Doubled n (LibGda.reloadInfo session s info) := by
  obtain ⟨hone, htwo⟩ := h
  have hmore : ∀ {list : List GdaDsnInfo} {signals},
      list.countP (fun x => x.name = n) =
        s.dsnList.countP (fun x => x.name = n) + (if info.name = n then 1 else 0) →
      Doubled n ⟨list, info.name :: s.hash, signals⟩ := by
    intro list signals hcount
    rw [Doubled, hcount]
    refine ⟨by omega, ?_⟩
    intro hmem
    rcases List.mem_cons.1 hmem with heq | hmem
    · rw [if_pos heq.symm]
      omega
    · have := htwo hmem
      omega
  rw [LibGda.reloadInfo]
  split
  · apply hmore
    rw [insertInfo, (List.perm_orderedInsert _ _ _).countP_eq, List.countP_cons]
    simp
  · next oinfo hfound =>
    have hname : oinfo.name = (dsnSplit info.name).1 := KeyedList.key_of_lookup hfound
    split
    · refine ⟨hone, fun hmem => htwo ?_⟩
      exact (List.mem_cons.1 hmem).resolve_left fun heq => hsplit (hname ▸ heq.symm)
    · apply hmore
      exact countP_exchangeInfo (hname ▸ hsplit)
        (List.mem_map_of_mem (KeyedList.mem_of_lookup hfound))

theorem Doubled.foldl {new : List GdaDsnInfo} (h : Doubled n s)
    (hsplit : ∀ info ∈ new, (dsnSplit info.name).1 ≠ n) :
    Doubled n (new.foldl (LibGda.reloadInfo session) s) := by
  induction new generalizing s with
  | nil => exact h
  | cons info new ih =>
    exact ih (h.reloadInfo (hsplit info List.mem_cons_self))
      fun x hx => hsplit x (List.mem_cons_of_mem info hx)

theorem Doubled.spoils (h : Doubled n s) (hdistinct : ((removeOld s).1.map GdaDsnInfo.name).Nodup) :
    dsnTable (removeOld s).1 n = none := by
  by_cases hhash : n ∈ s.hash
  · have hcount : (removeOld s).1.countP (fun info => info.name = n) =
        s.dsnList.countP fun info => info.name = n := by
      rw [removeOld, List.countP_filter]
      apply List.countP_congr
      intro info _
      simp only [Bool.and_eq_true, decide_eq_true_eq, and_iff_left_iff_imp]
      rintro rfl
      exact hhash
    have htwo := h.2 hhash
    have hle := List.nodup_iff_count_le_one.1 hdistinct n
    have hmap : ((removeOld s).1.map GdaDsnInfo.name).count n =
        (removeOld s).1.countP fun info => info.name = n := by
      rw [List.count, List.countP_map]
      apply List.countP_congr
      intro info _
      simp
    omega
  · rw [dsnTable, KeyedList.lookup_eq_none]
    intro info hinfo hname
    have hmem := of_decide_eq_true (List.mem_filter.1 hinfo).2
    exact hhash (hname ▸ hmem)

theorem not_reloads_of_at (hn : byte '@' ∈ n)
    (hmem : n ∈ fileNames session systemFile ++ fileNames session userFile)
    (hlongest : ∀ name ∈ fileNames session systemFile ++ fileNames session userFile,
      byte '@' ∈ name → name.length ≤ n.length) : ¬ Reloads session systemFile userFile := by
  intro h
  obtain ⟨r, hreload, hr⟩ := h ⟨[{ name := n }], List.pairwise_singleton _ _, List.nodup_singleton _⟩
  obtain ⟨newList, hload, rfl⟩ := Option.map_eq_some_iff.1 hreload
  have hsplit : ∀ info ∈ newList, (dsnSplit info.name).1 ≠ n := by
    intro info hinfo heq
    have hin := (loadFiles_names hload).1 info hinfo
    by_cases hat : byte '@' ∈ info.name
    · have hshort := length_dsnSplit hat
      have hle := hlongest info.name hin hat
      rw [heq] at hshort
      omega
    · rw [dsnSplit_plain hat] at heq
      exact hat (heq ▸ hn)
  have hstart : Doubled n ⟨[{ name := n }], [], []⟩ := by
    rw [Doubled]
    simp
  have hnone := (@Doubled.foldl _ session _ n _ hstart hsplit).spoils hr.distinct
  rw [hr.defined, filesDefinition, Option.or_eq_none_iff] at hnone
  rcases List.mem_append.1 hmem with hfile | hfile
  · exact (mem_fileNames true).1 hfile hnone.2
  · exact (mem_fileNames false).1 hfile hnone.1

/-- The list in memory and the listeners follow the files exactly when the paths of the files have
names behind a `/`, and no name has an `@`. -/
theorem reloads_iff (session : ConfigSession File) (systemFile userFile : File) :
    Reloads session systemFile userFile ↔
      PlainFile session systemFile ∧ PlainFile session userFile := by
  constructor
  · intro h
    obtain ⟨r, hreload, -⟩ := h ⟨[], List.Pairwise.nil, List.nodup_nil⟩
    obtain ⟨newList, hload, -⟩ := Option.map_eq_some_iff.1 hreload
    obtain ⟨-, hsystem, huser⟩ := loadFiles_names hload
    have hplain : ∀ name ∈ fileNames session systemFile ++ fileNames session userFile,
        byte '@' ∉ name := by
      intro name hname hat
      have hin : name ∈ (fileNames session systemFile ++ fileNames session userFile).filter
          fun name => byte '@' ∈ name := List.mem_filter.2 ⟨hname, decide_eq_true hat⟩
      obtain ⟨n, hn⟩ : ∃ n, ((fileNames session systemFile ++ fileNames session userFile).filter
          fun name => byte '@' ∈ name).argmax List.length = some n := by
        apply Option.ne_none_iff_exists'.1
        rw [Ne, List.argmax_eq_none]
        exact List.ne_nil_of_mem hin
      obtain ⟨hmem, hatn⟩ := List.mem_filter.1 (List.argmax_mem (f := List.length) hn)
      refine not_reloads_of_at (of_decide_eq_true hatn) hmem ?_ h
      intro other hother hato
      exact List.le_of_mem_argmax (List.mem_filter.2 ⟨hother, decide_eq_true hato⟩) hn
    have hfile : ∀ {file}, Loadable session file →
        (∀ name ∈ fileNames session file, byte '@' ∉ name) → PlainFile session file := by
      intro file hloadable hnames doc hdoc node hnode htag path hpath
      obtain ⟨name, hlast⟩ := Option.ne_none_iff_exists'.1 (hloadable doc hdoc node hnode htag path
        hpath)
      refine ⟨name, hlast, hnames name ?_⟩
      rw [mem_fileNames true, fileDefinition, hdoc]
      exact docDefinition_ne_none.2 ⟨node, hnode, htag, path, hpath, hlast⟩
    exact ⟨hfile hsystem fun name hname => hplain name (List.mem_append_left _ hname),
      hfile huser fun name hname => hplain name (List.mem_append_right _ hname)⟩
  · rintro ⟨hsystem, huser⟩
    exact reloads_of_plain hsystem huser

/-- A file with a section for the name `a@b`. -/
def atFile : MemoryFile :=
  some ⟨[{ tag := bytes "section", path := some (bytes "/a@b"), entries := [] }], by
    intro node hnode text htext
    rw [List.mem_singleton.1 hnode] at htext
    rw [List.mem_singleton.1 htext]
    exact Xml.isText_printable (List.all_eq_true.1 (by decide))⟩

/-- `a@b` is added a second time, beside the entry which is there. -/
theorem atName_notReloaded : ¬ Reloads memorySession none atFile := by
  have hnames : fileNames memorySession none ++ fileNames memorySession atFile =
      [bytes "a@b"] := by decide +kernel
  have hat : byte '@' ∈ bytes "a@b" := by decide
  apply not_reloads_of_at hat
  · rw [hnames]
    exact List.mem_singleton_self _
  · intro name hname _
    rw [hnames, List.mem_singleton] at hname
    rw [hname]

end Parsed

end LibGda
