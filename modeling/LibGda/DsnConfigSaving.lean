import LibGda.DsnConfig

/-! What is saved of a definition and read back: the texts which an XML document takes, with the
provider under its identifier, and of a system definition no authentication. -/

namespace LibGda

variable {File : Type} {session : ConfigSession File} {isSystem : Bool} {name : Bytes}
  {dsnList : List GdaDsnInfo} {info : GdaDsnInfo}

def GdaDsnInfo.plain (info : GdaDsnInfo) : GdaDsnInfo :=
  { info with
    provider := some (info.provider.getD [])
    cncString := some (info.cncString.getD [])
    description := some (info.description.getD [])
    authString := some (info.authString.getD []) }

def ProviderSettled (providers : List Bytes) (provider : Option Bytes) : Prop :=
  ∀ value, provider = some value → (getProviderInfo providers value).getD value = value

def TextsFit (info : GdaDsnInfo) : Prop :=
  Xml.IsText info.name ∧ (∀ text, info.provider = some text → Xml.IsText text) ∧
    (∀ text, info.cncString = some text → Xml.IsText text) ∧
    (∀ text, info.description = some text → Xml.IsText text) ∧
    ∀ text, info.authString = some text → Xml.IsText text

structure InfoFits (providers : List Bytes) (info : GdaDsnInfo) : Prop where
  noAt : byte '@' ∉ info.name
  noSlash : byte '/' ∉ info.name
  texts : TextsFit info
  provider : ProviderSettled providers info.provider

section Providers

variable {providers : List Bytes} {id value : Bytes}

theorem asciiLower_iff (x : UInt8) :
    (asciiLower x).toNat =
      if 65 ≤ x.toNat ∧ x.toNat ≤ 90 then x.toNat + 32 else x.toNat := by
  have hcond : (65 ≤ x ∧ x ≤ 90) ↔ 65 ≤ x.toNat ∧ x.toNat ≤ 90 := by
    rw [UInt8.le_iff_toNat_le, UInt8.le_iff_toNat_le]
    rfl
  rw [asciiLower]
  by_cases h : 65 ≤ x.toNat ∧ x.toNat ≤ 90
  · rw [if_pos (hcond.2 h), if_pos h, UInt8.toNat_add]
    have hconst : (32 : UInt8).toNat = 32 := rfl
    omega
  · rw [if_neg (fun hx => h (hcond.1 hx)), if_neg h]

theorem isText_of_sameCase (h : Xml.IsText value) (hsame : value.map asciiLower = id.map asciiLower) :
    Xml.IsText id := by
  refine h.sameCase hsame ?_ ?_
  · intro x y hx heq
    have hval := congrArg UInt8.toNat heq
    rw [asciiLower_iff, asciiLower_iff] at hval
    apply UInt8.toNat_inj.1
    split at hval <;> split at hval <;> omega
  · intro x y hx heq
    have hval := congrArg UInt8.toNat heq
    rw [asciiLower_iff, asciiLower_iff] at hval
    by_cases hsame : x = y
    · exact .inl hsame
    · have hne : x.toNat ≠ y.toNat := fun h => hsame (UInt8.toNat_inj.1 h)
      apply Or.inr
      apply Xml.isPrintable_iff.2
      split at hval <;> split at hval <;> omega

theorem isText_bytes_msAccess : Xml.IsText (bytes "MSAccess") := by
  apply Xml.isText_printable
  decide +kernel

def wantedProvider (value : Bytes) : Bytes :=
  if value.map asciiLower = (bytes "MS Access").map asciiLower then bytes "MSAccess" else value

theorem getProviderInfo_eq : getProviderInfo providers value =
    providers.find? fun id => id.map asciiLower = (wantedProvider value).map asciiLower := rfl

theorem getProviderInfo_sameCase (h : getProviderInfo providers value = some id) :
    id.map asciiLower = (wantedProvider value).map asciiLower := by
  rw [getProviderInfo_eq] at h
  have hfound := List.find?_some h
  exact of_decide_eq_true hfound

theorem wantedProvider_ne :
    (wantedProvider value).map asciiLower ≠ (bytes "MS Access").map asciiLower := by
  rw [wantedProvider]
  split
  · decide +kernel
  · next h => exact h

theorem getProviderInfo_self (h : getProviderInfo providers value = some id) :
    getProviderInfo providers id = some id := by
  have hsame := getProviderInfo_sameCase h
  have hwanted : wantedProvider id = id := by
    have hne := @wantedProvider_ne value
    rw [← hsame] at hne
    rw [wantedProvider, if_neg hne]
  rw [getProviderInfo_eq] at h ⊢
  rw [hwanted, hsame]
  exact h

theorem providerSettled_getD :
    (getProviderInfo providers ((getProviderInfo providers value).getD value)).getD
      ((getProviderInfo providers value).getD value) = (getProviderInfo providers value).getD value := by
  cases h : getProviderInfo providers value with
  | none => rw [Option.getD_none, h, Option.getD_none]
  | some id => rw [Option.getD_some, getProviderInfo_self h, Option.getD_some]

theorem isText_providerInfo (hvalue : Xml.IsText value) :
    Xml.IsText ((getProviderInfo providers value).getD value) := by
  cases h : getProviderInfo providers value with
  | none => exact hvalue
  | some id =>
    have hsame := getProviderInfo_sameCase h
    rw [Option.getD_some]
    rw [wantedProvider] at hsame
    split at hsame
    · exact isText_of_sameCase isText_bytes_msAccess hsame.symm
    · exact isText_of_sameCase hvalue hsame.symm

theorem providerInfo_nil : (getProviderInfo providers []).getD [] = [] := by
  cases h : getProviderInfo providers [] with
  | none => rfl
  | some id =>
    have hsame := getProviderInfo_sameCase h
    have hwanted : wantedProvider [] = [] := by
      rw [wantedProvider, if_neg]
      decide +kernel
    rw [hwanted] at hsame
    exact List.map_eq_nil_iff.1 hsame

theorem providerInfo_settled {provider : Option Bytes} (h : ProviderSettled providers provider) :
    (getProviderInfo providers (provider.getD [])).getD (provider.getD []) = provider.getD [] := by
  cases provider with
  | none => exact providerInfo_nil
  | some value => exact h value rfl

end Providers

section Paths

theorem lastElement_behind {path : Bytes} (h : lastElement path = some name) :
    byte '/' ∉ name ∧ ∃ before, path = before ++ byte '/' :: name := by
  rw [lastElement] at h
  split at h
  · next hmem =>
    obtain rfl := Option.some.inj h
    constructor
    · intro hslash
      have hne := List.mem_takeWhile_imp (List.mem_reverse.1 hslash)
      simp at hne
    · have hsplit := List.takeWhile_append_dropWhile (p := (· != byte '/')) (l := path.reverse)
      cases hdrop : path.reverse.dropWhile (· != byte '/') with
      | nil =>
        have hall := List.dropWhile_eq_nil_iff.1 hdrop (byte '/') (List.mem_reverse.2 hmem)
        simp at hall
      | cons b rest =>
        have hb : b = byte '/' := by
          have hhead := List.head?_dropWhile_not (· != byte '/') path.reverse
          rw [hdrop] at hhead
          simpa using hhead
        refine ⟨rest.reverse, ?_⟩
        rw [hdrop, hb] at hsplit
        have hrev := congrArg List.reverse hsplit
        rw [List.reverse_reverse, List.reverse_append, List.reverse_cons, List.append_assoc] at hrev
        exact hrev.symm
  · cases h

theorem lastElement_append {before : Bytes} (h : byte '/' ∉ name) :
    lastElement (before ++ byte '/' :: name) = some name := by
  have hmem : byte '/' ∈ before ++ byte '/' :: name :=
    List.mem_append_right before (List.mem_cons_self ..)
  have hall : ∀ b ∈ name.reverse, (b != byte '/') = true := by
    intro b hb
    have hne : b ≠ byte '/' := by
      rintro rfl
      exact h (List.mem_reverse.1 hb)
    simpa using hne
  rw [lastElement, if_pos hmem, List.reverse_append, List.reverse_cons, List.append_assoc,
    List.takeWhile_append_of_pos hall]
  simp

theorem path_eq : bytes "/apps/libgda/Datasources/" ++ name =
    bytes "/apps/libgda/Datasources" ++ byte '/' :: name := by
  have hconst : bytes "/apps/libgda/Datasources/" =
      bytes "/apps/libgda/Datasources" ++ [byte '/'] := by decide +kernel
  rw [hconst, List.append_assoc]
  rfl

end Paths

section Saved

def savedInfo (info : GdaDsnInfo) : GdaDsnInfo :=
  { info.plain with authString := if info.isSystem then none else some (info.authString.getD []) }

theorem sectionNamed_sectionElement (h : byte '/' ∉ info.name) :
    SectionNamed (sectionElement info) info.name :=
  ⟨rfl, _, rfl, by rw [path_eq, lastElement_append h]⟩

variable {providers : List Bytes} {s : SectionState} {value : Option Bytes}

theorem readEntry_provider : readEntry providers s (entryElement "Provider" value) =
    { s with
      info := { s.info with
        provider := some ((getProviderInfo providers (value.getD [])).getD (value.getD [])) } } :=
  rfl

theorem readEntry_dsn : readEntry providers s (entryElement "DSN" value) =
    { s with info := { s.info with cncString := some (value.getD []) } } := rfl

theorem readEntry_auth : readEntry providers s (entryElement "Auth" value) =
    { s with info := { s.info with authString := some (value.getD []) } } := rfl

theorem readEntry_description : readEntry providers s (entryElement "Description" value) =
    { s with info := { s.info with description := some (value.getD []) } } := rfl

theorem sectionOf_sectionElement (h : InfoFits session.providers info) :
    sectionOf session info.isSystem (sectionElement info) = some (savedInfo info) := by
  have hlast : lastElement (bytes "/apps/libgda/Datasources/" ++ info.name) = some info.name := by
    rw [path_eq, lastElement_append h.noSlash]
  have hpath : (sectionElement info).path.bind lastElement = some info.name := hlast
  have hprovider := providerInfo_settled h.provider
  have htag : ¬ (sectionElement info).tag ≠ bytes "section" := not_not.2 rfl
  rw [sectionOf, if_neg htag, hpath, Option.map_some, sectionInfo, sectionElement]
  simp only [List.foldl_append, List.foldl_cons, List.foldl_nil, readEntry_provider, readEntry_dsn,
    hprovider]
  cases hlevel : info.isSystem with
  | true => simp [readEntry_description, migrateAuth, savedInfo, GdaDsnInfo.plain, hlevel]
  | false =>
    simp [readEntry_description, readEntry_auth, migrateAuth, savedInfo, GdaDsnInfo.plain, hlevel]

theorem plain_savedInfo (h : info.isSystem = true → info.authString.getD [] = []) :
    (savedInfo info).plain = info.plain := by
  cases hlevel : info.isSystem with
  | true =>
    have hauth := h hlevel
    simp [savedInfo, GdaDsnInfo.plain, hlevel, hauth]
  | false => simp [savedInfo, GdaDsnInfo.plain, hlevel]

theorem name_savedInfo : (savedInfo info).name = info.name := rfl

theorem docDefinition_saved {xs : List GdaDsnInfo} (hnodup : (xs.map GdaDsnInfo.name).Nodup)
    (hfits : ∀ info ∈ xs, InfoFits session.providers info)
    (hlevel : ∀ info ∈ xs, info.isSystem = isSystem) :
    docDefinition session isSystem name (xs.map sectionElement) =
      (KeyedList.lookup GdaDsnInfo.name name xs).map savedInfo := by
  induction xs with
  | nil => rfl
  | cons info xs ih =>
    rw [List.map_cons, List.nodup_cons] at hnodup
    rw [List.forall_mem_cons] at hfits hlevel
    have hsection := sectionOf_sectionElement hfits.1
    rw [hlevel.1] at hsection
    rw [List.map_cons, docDefinition, ih hnodup.2 hfits.2 hlevel.2, hsection,
      KeyedList.lookup_cons]
    by_cases hname : info.name = name
    · have hnone : KeyedList.lookup GdaDsnInfo.name name xs = none := by
        apply KeyedList.lookup_eq_none.2
        intro other hother heq
        apply hnodup.1
        rw [hname, ← heq]
        exact List.mem_map_of_mem hother
      simp [hnone, hname, Option.filter, name_savedInfo]
    · simp [hname, Option.filter, name_savedInfo]

theorem attributes_entryElement {prop : String} {text : Bytes}
    (h : text ∈ (entryElement prop value).attributes) :
    text = bytes prop ∨ text = bytes "string" ∨ text = value.getD [] := by
  simpa [ConfigEntry.attributes, entryElement] using h

theorem isText_getD (h : ∀ text, value = some text → Xml.IsText text) :
    Xml.IsText (value.getD []) := by
  cases value with
  | none => exact Xml.isText_nil
  | some text => exact h text rfl

theorem isText_entryElement {prop : String} (hprop : Xml.IsText (bytes prop))
    (hvalue : ∀ text, value = some text → Xml.IsText text) :
    ∀ text ∈ (entryElement prop value).attributes, Xml.IsText text := by
  intro text htext
  rcases attributes_entryElement htext with rfl | rfl | rfl
  · exact hprop
  · apply Xml.isText_printable
    decide +kernel
  · exact isText_getD hvalue

theorem savable_saveDocument (h : ∀ info ∈ dsnList, TextsFit info) :
    Savable (saveDocument isSystem dsnList) := by
  intro node hnode
  obtain ⟨info, hinfo, rfl⟩ := List.mem_map.1 hnode
  obtain ⟨hname, hprovider, hcnc, hdescription, hauth⟩ := h info (List.mem_filter.1 hinfo).1
  have hentries : ∀ entry ∈ (sectionElement info).entries, entry.tag = bytes "entry" ∧
      ∀ text ∈ entry.attributes, Xml.IsText text := by
    intro entry hentry
    have hcases : entry = entryElement "Provider" info.provider ∨
        entry = entryElement "DSN" info.cncString ∨ entry = entryElement "Auth" info.authString ∨
        entry = entryElement "Description" info.description := by
      rw [sectionElement] at hentry
      cases hlevel : info.isSystem with
      | true =>
        simp only [hlevel, if_true, List.append_nil, List.mem_append, List.mem_cons,
          List.not_mem_nil, or_false] at hentry
        tauto
      | false =>
        simp only [hlevel, Bool.false_eq_true, if_false, List.mem_append, List.mem_cons,
          List.not_mem_nil, or_false] at hentry
        tauto
    rcases hcases with rfl | rfl | rfl | rfl
    · exact ⟨rfl, isText_entryElement (Xml.isText_printable (by decide +kernel)) hprovider⟩
    · exact ⟨rfl, isText_entryElement (Xml.isText_printable (by decide +kernel)) hcnc⟩
    · exact ⟨rfl, isText_entryElement (Xml.isText_printable (by decide +kernel)) hauth⟩
    · exact ⟨rfl, isText_entryElement (Xml.isText_printable (by decide +kernel)) hdescription⟩
  refine ⟨rfl, fun entry hentry => (hentries entry hentry).1, fun text htext => ?_⟩
  rw [ConfigSection.attributes, List.mem_append] at htext
  rcases htext with hpath | hentry
  · have hroot : Xml.IsText (bytes "/apps/libgda/Datasources/") :=
      Xml.isText_printable (by decide +kernel)
    have hpath' : text = bytes "/apps/libgda/Datasources/" ++ info.name := by
      simpa [sectionElement] using hpath
    rw [hpath']
    exact hroot.append hname
  · obtain ⟨entry, hmem, htext⟩ := List.mem_flatMap.1 hentry
    exact (hentries entry hmem).2 text htext

theorem fileDefinition_saved (hnodup : (dsnList.map GdaDsnInfo.name).Nodup)
    (hfits : ∀ info ∈ dsnList, InfoFits session.providers info) :
    fileDefinition session isSystem (session.files.save (saveDocument isSystem dsnList)) name =
      ((KeyedList.lookup GdaDsnInfo.name name dsnList).filter
        fun info => info.isSystem = isSystem).map savedInfo := by
  have hsavable : Savable (saveDocument isSystem dsnList) :=
    savable_saveDocument fun info hinfo => (hfits info hinfo).texts
  rw [fileDefinition, session.files.parse_save _ hsavable, Option.bind_some, saveDocument,
    docDefinition_saved, KeyedList.lookup_filter hnodup]
  · exact (List.filter_sublist.map GdaDsnInfo.name).nodup hnodup
  · intro info hinfo
    exact hfits info (List.mem_filter.1 hinfo).1
  · intro info hinfo
    exact of_decide_eq_true (List.mem_filter.1 hinfo).2

theorem plainFile_saved (hfits : ∀ info ∈ dsnList, InfoFits session.providers info) :
    PlainFile session (session.files.save (saveDocument isSystem dsnList)) := by
  have hsavable : Savable (saveDocument isSystem dsnList) :=
    savable_saveDocument fun info hinfo => (hfits info hinfo).texts
  intro doc hdoc
  rw [session.files.parse_save _ hsavable] at hdoc
  obtain rfl := Option.some.inj hdoc
  intro node hnode _ path hpath
  obtain ⟨info, hinfo, rfl⟩ := List.mem_map.1 hnode
  have hinfo' := hfits info (List.mem_filter.1 hinfo).1
  obtain ⟨-, path', hpath', hlast⟩ := sectionNamed_sectionElement hinfo'.noSlash
  obtain rfl := Option.some.inj (hpath.symm.trans hpath')
  exact ⟨info.name, hlast, hinfo'.noAt⟩

end Saved

section Loaded

variable {providers : List Bytes} {s : SectionState} {entry : ConfigEntry}
  {entries : List ConfigEntry} {text : Bytes}

structure StateFits (providers : List Bytes) (s : SectionState) : Prop where
  texts : TextsFit s.info
  provider : ProviderSettled providers s.info.provider

theorem readProperty_fits {prop value : Bytes} (htexts : TextsFit info)
    (hprovider : ProviderSettled providers info.provider) (hvalue : Xml.IsText value) :
    TextsFit (readProperty providers prop value info) ∧
      ProviderSettled providers (readProperty providers prop value info).provider := by
  have hsome {t : Bytes} (ht : Xml.IsText t) : ∀ text, some t = some text → Xml.IsText text := by
    intro text htext
    rw [← Option.some.inj htext]
    exact ht
  obtain ⟨hname, hp, hc, hd, ha⟩ := htexts
  rw [readProperty]
  split
  · exact ⟨⟨hname, hp, hsome hvalue, hd, ha⟩, hprovider⟩
  · split
    · refine ⟨⟨hname, hsome (isText_providerInfo hvalue), hc, hd, ha⟩, ?_⟩
      intro id hid
      rw [← Option.some.inj hid]
      exact providerSettled_getD
    · split
      · exact ⟨⟨hname, hp, hc, hsome hvalue, ha⟩, hprovider⟩
      · exact ⟨⟨hname, hp, hc, hd, ha⟩, hprovider⟩

theorem readEntry_fits (h : StateFits providers s)
    (hentry : ∀ text ∈ entry.attributes, Xml.IsText text) :
    StateFits providers (readEntry providers s entry) := by
  rw [readEntry]
  split
  · exact h
  · split
    · next prop value hprop hvalue =>
      have htext : Xml.IsText value := hentry value (by simp [ConfigEntry.attributes, hvalue])
      obtain ⟨htexts, hprovider⟩ := @readProperty_fits s.info providers prop value h.texts
        h.provider htext
      simp only []
      split
      · refine ⟨⟨htexts.1, htexts.2.1, htexts.2.2.1, htexts.2.2.2.1, ?_⟩, hprovider⟩
        intro text hauth
        rw [← Option.some.inj hauth]
        exact htext
      · split
        · exact ⟨htexts, hprovider⟩
        · split
          · exact ⟨htexts, hprovider⟩
          · exact ⟨htexts, hprovider⟩
    · exact h

theorem foldl_readEntry_fits (h : StateFits providers s)
    (hentries : ∀ entry ∈ entries, ∀ text ∈ entry.attributes, Xml.IsText text) :
    StateFits providers (entries.foldl (readEntry providers) s) := by
  induction entries generalizing s with
  | nil => exact h
  | cons entry entries ih =>
    rw [List.forall_mem_cons] at hentries
    exact ih (readEntry_fits h hentries.1) hentries.2

theorem isPrintable_hexDigit {n : UInt8} (h : n < 16) : Xml.isPrintable (hexDigit n) = true := by
  have hn : n.toNat < 16 := h
  apply Xml.isPrintable_iff.2
  have hzero : (byte '0').toNat = 48 := by decide
  have hletter : (byte 'a').toNat = 97 := by decide
  have hten : (10 : UInt8).toNat = 10 := rfl
  rw [hexDigit]
  split
  · next hlt =>
    have hlt' : n.toNat < 10 := hlt
    rw [UInt8.toNat_add, hzero]
    omega
  · next hge =>
    have hge' : ¬ n.toNat < 10 := hge
    have hle : (10 : UInt8) ≤ n := by
      rw [UInt8.le_iff_toNat_le, hten]
      omega
    rw [UInt8.toNat_add, hletter, UInt8.toNat_sub_of_le _ _ hle, hten]
    omega

theorem isPrintable_encodeByte {b x : UInt8} (h : x ∈ encodeByte b) : Xml.isPrintable x = true := by
  rw [encodeByte] at h
  split at h
  · simp only [List.mem_cons, List.not_mem_nil, or_false] at h
    rcases h with rfl | rfl | rfl
    · decide
    · apply isPrintable_hexDigit
      have hb := b.toNat_lt
      have hconst : (16 : UInt8).toNat = 16 := rfl
      rw [UInt8.lt_iff_toNat_lt, UInt8.toNat_div, hconst]
      omega
    · apply isPrintable_hexDigit
      have hconst : (16 : UInt8).toNat = 16 := rfl
      rw [UInt8.lt_iff_toNat_lt, UInt8.toNat_mod, hconst]
      omega
  · next hplain =>
    rw [List.mem_singleton] at h
    subst h
    simp only [rfc1738Encodes, Bool.or_eq_true, decide_eq_true_eq, beq_iff_eq, not_or] at hplain
    obtain ⟨⟨⟨⟨-, hlow⟩, hdel⟩, hhigh⟩, -⟩ := hplain
    have hdel' : x.toNat ≠ 127 := fun heq => hdel (UInt8.toNat_inj.1 heq)
    rw [UInt8.le_iff_toNat_le] at hlow hhigh
    have hconst : (31 : UInt8).toNat = 31 := rfl
    have hconst' : (128 : UInt8).toNat = 128 := rfl
    apply Xml.isPrintable_iff.2
    omega
theorem isText_encode (value : Bytes) : Xml.IsText (rfc1738Encode value) := by
  apply Xml.isText_printable
  intro x hx
  obtain ⟨b, -, hb⟩ := List.mem_flatMap.1 hx
  exact isPrintable_encodeByte hb

theorem migrateAuth_fits (h : StateFits providers s) : TextsFit (migrateAuth s) ∧
    ProviderSettled providers (migrateAuth s).provider := by
  have huser : Xml.IsText (bytes "USERNAME=") := Xml.isText_printable (by decide +kernel)
  have hpassword : Xml.IsText (bytes ";PASSWORD=") := Xml.isText_printable (by decide +kernel)
  obtain ⟨⟨hname, hp, hc, hd, ha⟩, hprovider⟩ := h
  rw [migrateAuth]
  split
  · exact ⟨⟨hname, hp, hc, hd, ha⟩, hprovider⟩
  · next username _ =>
    split
    · exact ⟨⟨hname, hp, hc, hd, ha⟩, hprovider⟩
    · split
      · next password _ =>
        refine ⟨⟨hname, hp, hc, hd, fun text htext => ?_⟩, hprovider⟩
        rw [← Option.some.inj htext]
        exact ((huser.append (isText_encode username)).append hpassword).append
          (isText_encode password)
      · refine ⟨⟨hname, hp, hc, hd, fun text htext => ?_⟩, hprovider⟩
        rw [← Option.some.inj htext]
        exact huser.append (isText_encode username)

theorem sectionOf_fits {node : ConfigSection} (h : sectionOf session isSystem node = some info)
    (htexts : ∀ text ∈ node.attributes, Xml.IsText text) (hat : byte '@' ∉ info.name) :
    InfoFits session.providers info := by
  obtain ⟨⟨-, path, hpath, hlast⟩, -, hinfo⟩ := sectionOf_eq_some h
  obtain ⟨hslash, before, hbefore⟩ := lastElement_behind hlast
  have hname : Xml.IsText info.name := by
    have hpathText : Xml.IsText path := htexts path (by simp [ConfigSection.attributes, hpath])
    rw [hbefore] at hpathText
    exact hpathText.behind (by decide)
  have hentries : ∀ entry ∈ node.entries, ∀ text ∈ entry.attributes, Xml.IsText text := by
    intro entry hentry text htext
    apply htexts
    rw [ConfigSection.attributes, List.mem_append]
    exact .inr (List.mem_flatMap.2 ⟨entry, hentry, htext⟩)
  have hnone : ∀ text : Bytes, none = some text → Xml.IsText text := fun _ h => by cases h
  have hstart : StateFits session.providers
      ({ info := { name := info.name, isSystem } } : SectionState) :=
    ⟨⟨hname, hnone, hnone, hnone, hnone⟩, fun _ h => by cases h⟩
  have hfits := migrateAuth_fits (foldl_readEntry_fits hstart hentries)
  have heq : migrateAuth (node.entries.foldl (readEntry session.providers)
      { info := { name := info.name, isSystem } }) = info := hinfo.symm
  rw [heq] at hfits
  exact ⟨hat, hslash, hfits.1, hfits.2⟩

theorem fileDefinition_fits {file : File} (hplain : PlainFile session file)
    (h : fileDefinition session isSystem file name = some info) :
    InfoFits session.providers info := by
  obtain ⟨doc, hparse, hdoc⟩ := Option.bind_eq_some_iff.1 h
  obtain ⟨-, -, node, hnode, hsection⟩ := docDefinition_eq_some hdoc
  refine sectionOf_fits hsection (session.files.isText_parse file doc hparse node hnode) ?_
  obtain ⟨⟨htag, path, hpath, hlast⟩, -, -⟩ := sectionOf_eq_some hsection
  obtain ⟨name', hlast', hat⟩ := hplain doc hparse node hnode htag path hpath
  obtain rfl := Option.some.inj (hlast.symm.trans hlast')
  exact hat

end Loaded

end LibGda
