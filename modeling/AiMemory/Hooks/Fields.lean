/-
The path fields of file tools.

A tool's schema has several fields that carry paths; a call may have any of them.  Of a field
that is there either all strings are read, or the call yields no paths.  The extraction keeps
to this but for the fields it passes over.
-/
import AiMemory.Lib.Fallible
import AiMemory.Hooks.Inspect

open Fallible List Option

namespace Capture

open Json (Value)

/-! ### Fields -/

/-- The strings of a path field, `none` when its value is unreadable or has too many
entries. -/
abbrev FieldPaths := Option (List Text)

/-- The single-path fields of an object and its `paths`. -/
def directField (object : Value) : FieldPaths := do
  let direct ← strings (directPathKeys.filterMap object.get?)
  let listed ← (object.get? "paths").elim (some []) fun values => values.asArray?.bind strings
  if maxCaptureCandidates < direct.length + listed.length then none else some (direct ++ listed)

def arrayField (read : Value → FieldPaths) (values : Value) : FieldPaths := do
  let entries ← values.asArray?
  if maxCaptureCandidates < entries.length then none
  else (entries.mapM read).map List.flatten

def entryField (entry : Value) : FieldPaths := entry.asObject?.bind fun _ => directField entry

def textField (value : Value) : FieldPaths := value.asStr?.map fun text => [text.toList]

/-- One entry of Cline's `files`, under every name its path may have. -/
def fileField : Value → FieldPaths
  | .string path => some [path.toList]
  | .object fields => strings (["path", "file_path", "filePath"].filterMap fun key => fields.lookup key)
  | _ => none

def keyed (args : Value) (key : String) (read : Value → FieldPaths) : List FieldPaths :=
  (args.get? key).toList.map (arrayField read)

def editFields (name : String) (args : Value) (keys : List String) : List FieldPaths :=
  if isMultiEdit name then keys.flatMap fun key => keyed args key entryField else []

def includeFields (name : String) (args : Value) : List FieldPaths :=
  if lowercased name = "read_many_files" then keyed args "include" textField else []

def operationFields (name : String) (args : Value) : List FieldPaths :=
  if ["read", "fs_read"].contains (lowercased name) then keyed args "operations" entryField else []

def fileFields (agent : AgentKind) (name : String) (args : Value) : List FieldPaths :=
  if agent = .cline ∧ lowercased name = "read_files" then keyed args "files" fileField else []

def isMuseMemory (agent : AgentKind) (name : String) : Prop :=
  agent = .muse ∧ museMemoryToolNames.contains (lowercased name)

instance (agent : AgentKind) (name : String) : Decidable (isMuseMemory agent name) :=
  inferInstanceAs (Decidable (_ ∧ _))

/-- The `path` of a Muse memory tool, placed in the memory directory of the repository.  No path
names a file of another scope. -/
def museField (args : Value) : List FieldPaths :=
  (args.get? "path").toList.map fun value => do
    let path ← value.asStr?
    if (args.get? "scope").bind Value.asStr? = some "project" then
      some [if isAbsolute path.toList then path.toList else ".agents/memory/".toList ++ path.toList]
    else none

/-- The path fields of a file tool's schema that a call has. -/
def pathFields (agent : AgentKind) (name : String) (args : Value) : List FieldPaths :=
  if isMuseMemory agent name then museField args
  else directField args ::
    (editFields name args ["edits", "replacements"] ++ includeFields name args ++
      operationFields name args ++ fileFields agent name args)

/-- Each field is readable and its strings are among the paths. -/
def Complete (fields : List FieldPaths) (paths : List Text) : Prop :=
  ∀ field ∈ fields, ∃ texts, field = some texts ∧ ∀ text ∈ texts, text ∈ paths

/-! ### Fields that are read -/

def editKey (args : Value) : String := if (args.get? "edits").isSome then "edits" else "replacements"

/-- A list of edits or operations: neither it nor an entry of it may name nothing. -/
def filledField (values : Value) : FieldPaths := do
  let entries ← values.asArray?
  if entries.length = 0 then none
  else arrayField (fun entry => (entryField entry).filter (· ≠ [])) values

/-- One entry of Cline's `files`, under the first name its path has. -/
def firstName : Value → FieldPaths
  | .object fields =>
    (["path", "file_path", "filePath"].filterMap fun key => fields.lookup key).head?.bind textField
  | file => textField file

/-- The direct fields count as absent when they are unreadable. -/
def readDirect (args : Value) : FieldPaths := some ((directField args).getD [])

def readBeside (name : String) (args : Value) : List FieldPaths :=
  (if isMultiEdit name then [(args.get? (editKey args)).bind filledField] else []) ++
    includeFields name args ++
    if ["read", "fs_read"].contains (lowercased name) then
      (args.get? "operations").toList.map filledField
    else []

/-- The fields read of the call of a file tool. -/
def sharedFields (name : String) (args : Value) : List FieldPaths :=
  readDirect args :: readBeside name args

/-- The fields read of a call of Cline whose shared fields do not fit. -/
def clineFields (args : Value) : List FieldPaths := readDirect args :: keyed args "files" firstName

/-- The fields are readable and their strings, added to the paths, are not too many. -/
def Adds (paths : List Text) (fields : List FieldPaths) (out : List Text) : Prop :=
  ∃ found : List (List Text), fields = found.map some ∧ out = paths ++ found.flatten ∧
    out.length ≤ maxCaptureCandidates

/-- The fields are readable and name some paths, each of them usable. -/
def Yields (fields : List FieldPaths) (paths : List Text) : Prop :=
  Adds [] fields paths ∧ paths ≠ [] ∧ ∀ path ∈ paths, usablePath path

/-- The edits that are not looked at when there is another list of them. -/
def besideEdits (name : String) (args : Value) : List FieldPaths :=
  if (args.get? "edits").isSome then editFields name args ["replacements"] else []

/-- Where the fields read fit, the direct fields are readable and the fields that are passed
over name nothing else. -/
def NothingLost (agent : AgentKind) (name : String) (args : Value) : Prop :=
  ¬ isMuseMemory agent name → args.asObject?.isSome →
    (∀ paths, Yields (sharedFields name args) paths →
      directField args ≠ none ∧
        Complete (besideEdits name args ++ fileFields agent name args) paths) ∧
    (agent = .cline → (∀ paths, ¬ Yields (sharedFields name args) paths) →
      ∀ paths, Yields (clineFields args) paths → directField args ≠ none ∧
        Complete (editFields name args ["edits", "replacements"] ++ includeFields name args ++
          operationFields name args ++ fileFields agent name args) paths)

/-! ### Paths added -/

variable {paths out : List Text} {fields more : List FieldPaths} {args values : Value}
  {name : String} {agent : AgentKind}

lemma adds_nil (h : paths.length ≤ maxCaptureCandidates) : Adds paths [] out ↔ paths = out := by
  constructor
  · rintro ⟨found, hfound, rfl, -⟩
    rw [map_eq_nil_iff.mp hfound.symm]
    exact (append_nil paths).symm
  · rintro rfl
    exact ⟨[], rfl, (append_nil _).symm, h⟩

lemma adds_single {field : FieldPaths} : Adds paths [field] out ↔
    ∃ texts, field = some texts ∧ out = paths ++ texts ∧ out.length ≤ maxCaptureCandidates := by
  constructor
  · rintro ⟨found, hfound, rfl, hlen⟩
    obtain ⟨texts, rfl, rfl⟩ := map_eq_singleton_iff.mp hfound.symm
    exact ⟨texts, rfl, by simp, hlen⟩
  · rintro ⟨texts, rfl, rfl, hlen⟩
    exact ⟨[texts], rfl, by simp, hlen⟩

lemma adds_append :
    Adds paths (fields ++ more) out ↔ ∃ mid, Adds paths fields mid ∧ Adds mid more out := by
  constructor
  · rintro ⟨found, hfound, rfl, hlen⟩
    obtain ⟨first, rest, rfl, rfl, rfl⟩ := map_eq_append_iff.mp hfound.symm
    rw [flatten_append, ← append_assoc] at hlen ⊢
    refine ⟨paths ++ first.flatten, ⟨first, rfl, rfl, ?_⟩, rest, rfl, rfl, hlen⟩
    rw [length_append] at hlen
    omega
  · rintro ⟨_, ⟨first, rfl, rfl, -⟩, rest, rfl, rfl, hlen⟩
    exact ⟨first ++ rest, by simp, by simp, hlen⟩

lemma Adds.length_le (h : Adds paths fields out) : out.length ≤ maxCaptureCandidates := by
  obtain ⟨_, _, _, hlen⟩ := h
  exact hlen

lemma Adds.complete (h : Adds paths fields out) : Complete fields out := by
  obtain ⟨found, rfl, rfl, -⟩ := h
  intro field hfield
  obtain ⟨texts, htexts, rfl⟩ := mem_map.mp hfield
  exact ⟨texts, rfl, fun text ht => mem_append_right _ (mem_flatten_of_mem htexts ht)⟩

@[simp] lemma complete_append :
    Complete (fields ++ more) paths ↔ Complete fields paths ∧ Complete more paths :=
  forall_mem_append

lemma complete_cons {field : FieldPaths} :
    Complete (field :: fields) paths ↔ Complete [field] paths ∧ Complete fields paths := by
  rw [← singleton_append, complete_append]

lemma directField_length {object : Value} (h : directField object = some paths) :
    paths.length ≤ maxCaptureCandidates := by
  obtain ⟨direct, -, h⟩ := bind_eq_some_iff.mp h
  obtain ⟨listed, -, h⟩ := bind_eq_some_iff.mp h
  split at h
  · cases h
  · cases h
    rw [length_append]
    omega

lemma readDirect_length (args : Value) :
    ((directField args).getD []).length ≤ maxCaptureCandidates := by
  cases h : directField args with
  | none => exact Nat.zero_le _
  | some paths => exact directField_length h

/-- An object with no path in its direct fields counts as one with unreadable fields. -/
theorem directPaths_eq (object : Value) :
    directPaths object = (directField object).filter (· ≠ []) := by
  unfold directPaths directField
  cases hdirect : strings (directPathKeys.filterMap object.get?) with
  | none => rfl
  | some direct =>
    have hfew : direct.length ≤ maxCaptureCandidates := by
      have hlen := length_of_mapM_eq_some hdirect
      have hkeys : (directPathKeys.filterMap object.get?).length ≤ directPathKeys.length :=
        length_filterMap_le ..
      have hseven : directPathKeys.length = 7 := rfl
      have hmax : maxCaptureCandidates = 32 := rfl
      omega
    cases object.get? "paths" with
    | none =>
      by_cases hnil : direct = [] <;> simp [Option.filter, hnil, not_lt.mpr hfew]
    | some values =>
      cases hentries : values.asArray? with
      | none => simp [hentries]
      | some entries =>
        cases hstrings : strings entries with
        | none => simp [hentries, hstrings]
        | some listed =>
          have hlen : listed.length = entries.length := length_of_mapM_eq_some hstrings
          by_cases hmany : maxCaptureCandidates < direct.length + entries.length
          · simp [hentries, hstrings, hmany, hlen]
          · simp only [hentries, hstrings, hlen, hmany, bind_eq_bind, bind_some,
              map_some, elim_some, if_false, Option.filter]
            by_cases hnil : direct ++ listed = []
            · rw [if_pos hnil, if_neg (by simp [hnil])]
            · rw [if_neg hnil, if_pos (by simp [hnil])]

lemma entryPaths_iff {entries : List Value} (hpaths : paths.length ≤ maxCaptureCandidates) :
    entryPaths paths entries = some out ↔
      ∃ found, (entries.mapM fun entry => (entryField entry).filter (· ≠ [])) = some found ∧
        out = paths ++ found.flatten ∧ out.length ≤ maxCaptureCandidates := by
  induction entries generalizing paths with
  | nil =>
    constructor
    · rintro ⟨⟩
      exact ⟨[], rfl, by simp, hpaths⟩
    · rintro ⟨_, ⟨⟩, rfl, -⟩
      exact congrArg some (append_nil paths).symm
  | cons entry entries ih =>
    have hentry : ∀ direct, (entryField entry).filter (· ≠ []) = some direct ↔
        ∃ object, entry.asObject? = some object ∧ directPaths entry = some direct := by
      intro direct
      rw [directPaths_eq]
      unfold entryField
      cases entry.asObject? <;> simp
    rw [mapM_cons]
    constructor
    · intro h
      obtain ⟨fields, hfields, h⟩ := bind_eq_some_iff.mp h
      obtain ⟨direct, hdirect, h⟩ := bind_eq_some_iff.mp h
      by_cases hmany : maxCaptureCandidates < paths.length + direct.length
      · rw [if_pos hmany] at h; cases h
      rw [if_neg hmany] at h
      obtain ⟨found, hfound, rfl, hlen⟩ := (ih (by rw [length_append]; omega)).mp h
      rw [(hentry direct).mpr ⟨fields, hfields, hdirect⟩, hfound]
      exact ⟨direct :: found, rfl, by simp, hlen⟩
    · rintro ⟨found, hfound, hout, hlen⟩
      obtain ⟨direct, hdirect, hfound⟩ := bind_eq_some_iff.mp hfound
      obtain ⟨rest, hrest, ⟨⟩⟩ := bind_eq_some_iff.mp hfound
      obtain ⟨object, hobject, hdirect⟩ := (hentry direct).mp hdirect
      change out = _ ++ (direct :: rest).flatten at hout
      rw [flatten_cons, ← append_assoc] at hout
      subst hout
      have hfew : (paths ++ direct).length ≤ maxCaptureCandidates := by
        rw [length_append] at hlen
        omega
      unfold entryPaths
      rw [hobject, hdirect]
      change (if _ then _ else _) = _
      rw [if_neg (by rw [length_append] at hfew; omega)]
      exact (ih hfew).mpr ⟨rest, hrest, rfl, hlen⟩

lemma filled_iff (hpaths : paths.length ≤ maxCaptureCandidates) :
    (values.asArray?.bind fun entries =>
      if entries.length = 0 ∨ maxCaptureCandidates < entries.length then none
      else entryPaths paths entries) = some out ↔ Adds paths [filledField values] out := by
  rw [adds_single]
  unfold filledField arrayField
  cases values.asArray? with
  | none => simp
  | some entries =>
    simp only [bind_eq_bind, bind_some]
    by_cases hnone : entries.length = 0
    · rw [if_pos (.inl hnone), if_pos hnone]
      simp
    rw [if_neg hnone]
    by_cases hmany : maxCaptureCandidates < entries.length
    · rw [if_pos (.inr hmany), if_pos hmany]
      simp
    rw [if_neg (by simp [hnone, hmany]), if_neg hmany, entryPaths_iff hpaths]
    constructor
    · rintro ⟨found, hfound, hout⟩
      exact ⟨_, congrArg (Option.map flatten) hfound, hout⟩
    · rintro ⟨texts, htexts, hout⟩
      obtain ⟨found, hfound, rfl⟩ := map_eq_some_iff.mp htexts
      exact ⟨found, hfound, hout⟩

lemma editPaths_iff (hpaths : paths.length ≤ maxCaptureCandidates) :
    editPaths name args paths = some out ↔
      Adds paths (if isMultiEdit name then [(args.get? (editKey args)).bind filledField] else [])
        out := by
  have hkey : (args.get? "edits").or (args.get? "replacements") = args.get? (editKey args) := by
    unfold editKey
    cases hedits : args.get? "edits" with
    | none => exact none_or
    | some _ => exact hedits.symm
  unfold editPaths
  by_cases hname : isMultiEdit name
  · rw [if_pos hname, if_pos hname, hkey]
    cases args.get? (editKey args) with
    | none => simp [adds_single]
    | some values => exact filled_iff hpaths
  · rw [if_neg hname, if_neg hname, some_inj]
    exact (adds_nil hpaths).symm

/-- Entries that are one string each. -/
theorem singles_iff {read : Value → Option Text} {field : Value → FieldPaths}
    (hfield : ∀ value, field value = (read value).map fun text => [text]) :
    (values.asArray?.bind fun entries =>
      if maxCaptureCandidates < paths.length + entries.length then none
      else (entries.mapM read).map (paths ++ ·)) = some out ↔
    Adds paths [arrayField field values] out := by
  obtain rfl : field = fun value => (read value).map fun text => [text] := funext hfield
  rw [adds_single]
  unfold arrayField
  cases values.asArray? with
  | none => simp
  | some entries =>
    simp only [Option.bind_eq_bind, Option.bind_some]
    have hflat : ((entries.mapM fun value => (read value).map fun text => [text]).map flatten) =
        entries.mapM read := by
      rw [mapM_map, Option.map_map]
      convert Option.map_id' using 2
      funext texts
      exact (flatMap_def ..).symm.trans (flatMap_singleton' texts)
    rw [hflat]
    cases htexts : entries.mapM read with
    | none => simp
    | some texts =>
      have hlen : texts.length = entries.length := length_of_mapM_eq_some htexts
      by_cases hmany : maxCaptureCandidates < paths.length + entries.length
      · rw [if_pos hmany]
        constructor
        · intro h; cases h
        · rintro ⟨added, hadded, rfl, hfew⟩
          split at hadded
          · cases hadded
          · cases hadded
            rw [length_append] at hfew
            omega
      · rw [if_neg hmany, if_neg (by omega)]
        constructor
        · rintro ⟨⟩
          exact ⟨texts, rfl, rfl, by rw [length_append]; omega⟩
        · rintro ⟨_, ⟨⟩, rfl, -⟩
          rfl

lemma includePaths_iff (hpaths : paths.length ≤ maxCaptureCandidates) :
    includePaths name args paths = some out ↔ Adds paths (includeFields name args) out := by
  unfold includePaths includeFields keyed
  by_cases hname : lowercased name = "read_many_files"
  · rw [if_pos hname, if_pos hname]
    cases args.get? "include" with
    | none => exact some_inj.trans (adds_nil hpaths).symm
    | some values => exact singles_iff fun value => by cases value <;> rfl
  · rw [if_neg hname, if_neg hname, some_inj]
    exact (adds_nil hpaths).symm

lemma operationPaths_iff (hpaths : paths.length ≤ maxCaptureCandidates) :
    operationPaths name args paths = some out ↔
      Adds paths (if ["read", "fs_read"].contains (lowercased name) then
        (args.get? "operations").toList.map filledField else []) out := by
  unfold operationPaths
  by_cases hname : ["read", "fs_read"].contains (lowercased name)
  · rw [if_pos hname, if_pos hname]
    cases args.get? "operations" with
    | none => exact some_inj.trans (adds_nil hpaths).symm
    | some values => exact filled_iff hpaths
  · rw [if_neg hname, if_neg hname, some_inj]
    exact (adds_nil hpaths).symm

lemma usablePaths_iff :
    usablePaths paths = some out ↔ paths = out ∧ out ≠ [] ∧ ∀ path ∈ out, usablePath path := by
  unfold usablePaths
  constructor
  · intro h
    split at h
    · rename_i husable
      cases h
      simpa using husable
    · cases h
  · rintro ⟨rfl, hne, hall⟩
    rw [if_pos (by simpa using ⟨hne, hall⟩)]

lemma yields_iff : Yields (readDirect args :: fields) paths ↔
    Adds ((directField args).getD []) fields paths ∧ paths ≠ [] ∧
      ∀ path ∈ paths, usablePath path := by
  have hdirect : ∀ mid, Adds [] [readDirect args] mid ↔ (directField args).getD [] = mid := by
    intro mid
    rw [adds_single]
    constructor
    · rintro ⟨_, ⟨⟩, rfl, -⟩
      rfl
    · rintro rfl
      exact ⟨_, rfl, rfl, readDirect_length args⟩
  unfold Yields
  rw [← singleton_append, adds_append]
  simp only [hdirect, exists_eq_left']

lemma directPaths_getD : (directPaths args).getD [] = (directField args).getD [] := by
  rw [directPaths_eq]
  cases directField args with
  | none => rfl
  | some texts => by_cases hnil : texts = [] <;> simp [Option.filter, hnil]

lemma extractPaths_iff : extractPaths name args = some paths ↔
    args.asObject?.isSome ∧ Yields (sharedFields name args) paths := by
  unfold sharedFields readBeside
  rw [yields_iff, adds_append]
  simp only [adds_append]
  constructor
  · intro h
    obtain ⟨object, hobject, h⟩ := bind_eq_some_iff.mp h
    obtain ⟨edited, hedited, h⟩ := bind_eq_some_iff.mp h
    obtain ⟨included, hincluded, h⟩ := bind_eq_some_iff.mp h
    obtain ⟨operated, hoperated, h⟩ := bind_eq_some_iff.mp h
    obtain ⟨rfl, husable⟩ := usablePaths_iff.mp h
    rw [directPaths_getD] at hedited
    have hedits := (editPaths_iff (readDirect_length args)).mp hedited
    have hincludes := (includePaths_iff hedits.length_le).mp hincluded
    have hoperations := (operationPaths_iff hincludes.length_le).mp hoperated
    exact ⟨by rw [hobject]; rfl, ⟨included, ⟨edited, hedits, hincludes⟩, hoperations⟩, husable⟩
  · rintro ⟨hobject, ⟨included, ⟨edited, hedits, hincludes⟩, hoperations⟩, husable⟩
    obtain ⟨object, hobject⟩ := isSome_iff_exists.mp hobject
    rw [← directPaths_getD] at hedits
    have hdirect : ((directPaths args).getD []).length ≤ maxCaptureCandidates := by
      rw [directPaths_getD]
      exact readDirect_length args
    refine bind_eq_some_iff.mpr ⟨object, hobject, bind_eq_some_iff.mpr
      ⟨edited, (editPaths_iff hdirect).mpr hedits, bind_eq_some_iff.mpr
        ⟨included, (includePaths_iff hedits.length_le).mpr hincludes, bind_eq_some_iff.mpr
          ⟨paths, (operationPaths_iff hincludes.length_le).mpr hoperations, ?_⟩⟩⟩⟩
    exact usablePaths_iff.mpr ⟨rfl, husable⟩

lemma clineFilePaths_iff : clineFilePaths args = some paths ↔
    args.asObject?.isSome ∧ Yields (clineFields args) paths := by
  have hname : ∀ file, firstName file = (clineFile file).map fun path => [path] := by
    intro file
    cases file with
    | object fields =>
      unfold firstName clineFile textField
      cases hpath : fields.lookup "path" <;> cases hfile : fields.lookup "file_path" <;>
        cases hcamel : fields.lookup "filePath" <;>
        simp [hpath, hfile, hcamel, Function.comp_def]
    | _ => rfl
  unfold clineFields keyed clineFilePaths
  rw [yields_iff, directPaths_getD]
  cases args.asObject? with
  | none => simp
  | some object =>
    have hdirect := readDirect_length args
    cases args.get? "files" with
    | none =>
      refine Iff.trans usablePaths_iff ?_
      rw [toList_none, map_nil, adds_nil hdirect]
      exact ⟨fun h => ⟨rfl, h⟩, fun h => h.2⟩
    | some files =>
      rw [isSome_some, eq_self, true_and, toList_some, map_singleton,
        ← singles_iff hname]
      simp only [bind_eq_bind, bind_some]
      cases files.asArray? with
      | none => simp
      | some entries =>
        simp only [bind_some]
        by_cases hmany : maxCaptureCandidates < ((directField args).getD []).length + entries.length
        · simp [hmany]
        · rw [if_neg hmany, if_neg hmany]
          cases entries.mapM clineFile with
          | none => simp
          | some texts => simpa using usablePaths_iff

/-! ### Fields that are passed over -/

theorem filledField_arrayField {texts : List Text} (h : filledField values = some texts) :
    arrayField entryField values = some texts := by
  obtain ⟨entries, hentries, h⟩ := bind_eq_some_iff.mp h
  split at h
  · cases h
  obtain ⟨others, hothers, h⟩ := bind_eq_some_iff.mp h
  obtain rfl := some.inj (hentries.symm.trans hothers)
  split at h
  · cases h
  rename_i hfew
  obtain ⟨found, hfound, rfl⟩ := map_eq_some_iff.mp h
  have hread : entries.mapM entryField = some found :=
    mapM_mono (fun _ _ hentry => (filter_eq_some_iff.mp hentry).1) hfound
  unfold arrayField
  rw [hentries]
  change (if _ then _ else _) = _
  rw [if_neg hfew, hread]
  rfl

lemma complete_filled {key : String}
    (hread : ∀ values, args.get? key = some values → Complete [filledField values] paths) :
    Complete (keyed args key entryField) paths := by
  intro field hfield
  obtain ⟨values, hvalues, rfl⟩ := mem_map.mp hfield
  obtain ⟨texts, htexts, hmem⟩ := hread values (mem_toList.mp hvalues) _ mem_cons_self
  exact ⟨texts, filledField_arrayField htexts, hmem⟩

lemma complete_direct (h : Complete [readDirect args] paths) :
    Complete [directField args] paths ↔ directField args ≠ none := by
  unfold readDirect at h
  cases hdirect : directField args with
  | none => simp [Complete]
  | some texts =>
    rw [hdirect] at h
    exact iff_of_true h (by simp)

lemma complete_edits
    (h : Complete (if isMultiEdit name then [(args.get? (editKey args)).bind filledField] else [])
      paths) :
    Complete (editFields name args ["edits", "replacements"]) paths ↔
      Complete (besideEdits name args) paths := by
  unfold besideEdits editFields
  by_cases hname : isMultiEdit name
  · rw [if_pos hname] at h
    rw [if_pos hname, if_pos hname, flatMap_cons, flatMap_singleton, complete_append]
    unfold editKey at h
    cases hedits : args.get? "edits" with
    | none =>
      rw [hedits] at h
      refine iff_of_true ⟨?_, complete_filled fun values hvalues => ?_⟩ fun _ hfield => ?_
      · exact complete_filled fun values hvalues => by rw [hedits] at hvalues; cases hvalues
      · simpa [hvalues] using h
      · cases hfield
    | some values =>
      simp only [hedits, isSome_some, if_true, bind_some] at h ⊢
      refine and_iff_right (complete_filled fun others hothers => ?_)
      obtain rfl := some.inj (hedits.symm.trans hothers)
      exact h
  · rw [if_neg hname, if_neg hname]
    split <;> rfl

lemma complete_shared (hmuse : ¬ isMuseMemory agent name)
    (h : Yields (sharedFields name args) paths) :
    Complete (pathFields agent name args) paths ↔ directField args ≠ none ∧
      Complete (besideEdits name args ++ fileFields agent name args) paths := by
  obtain ⟨hread, -⟩ := h
  have hread := hread.complete
  unfold sharedFields readBeside at hread
  unfold pathFields
  rw [if_neg hmuse, complete_cons]
  rw [complete_cons] at hread
  simp only [complete_append] at hread ⊢
  obtain ⟨hdirect, ⟨hedits, hinclude⟩, hoperations⟩ := hread
  rw [complete_direct hdirect, complete_edits hedits]
  have hops : Complete (operationFields name args) paths := by
    unfold operationFields
    split at hoperations
    · rename_i hname
      rw [if_pos hname]
      exact complete_filled fun values hvalues => by simpa [hvalues] using hoperations
    · rename_i hname
      rw [if_neg hname]
      exact hoperations
  tauto

lemma complete_cline (hmuse : ¬ isMuseMemory agent name) (h : Yields (clineFields args) paths) :
    Complete (pathFields agent name args) paths ↔ directField args ≠ none ∧
      Complete (editFields name args ["edits", "replacements"] ++ includeFields name args ++
        operationFields name args ++ fileFields agent name args) paths := by
  unfold pathFields
  rw [if_neg hmuse, complete_cons,
    complete_direct (complete_cons.mp h.1.complete).1]

lemma museMemoryPaths_complete (h : museMemoryPaths args = some paths) :
    Complete (museField args) paths := by
  obtain ⟨_, -, h⟩ := bind_eq_some_iff.mp h
  split at h
  · cases h
  rename_i hscope
  obtain ⟨path, hpath, h⟩ := bind_eq_some_iff.mp h
  obtain ⟨value, hvalue, hpath⟩ := bind_eq_some_iff.mp hpath
  split at h
  · cases h
  unfold museField
  rw [hvalue]
  intro field hfield
  rw [mem_singleton.mp hfield]
  refine ⟨paths, ?_, fun _ ht => ht⟩
  simp only [hpath, not_not.mp hscope, if_true, bind_eq_bind, bind_some]
  split at h
  · rename_i habsolute
    rw [if_pos habsolute]
    exact h
  · rename_i habsolute
    rw [if_neg habsolute]
    exact h

lemma filePaths_iff (hmuse : ¬ isMuseMemory agent name) :
    filePaths agent name args = some paths ↔ extractPaths name args = some paths ∨
      agent = .cline ∧ extractPaths name args = none ∧ clineFilePaths args = some paths := by
  change (if isMuseMemory agent name then _ else _) = _ ↔ _
  rw [if_neg hmuse]
  by_cases hcline : agent = .cline
  · rw [if_pos hcline, or_eq_some_iff]
    simp [hcline]
  · simp [hcline]

/-- What a file tool's call yields is complete unless something is lost. -/
theorem complete_iff_nothingLost (agent : AgentKind) (name : String) (args : Value) :
    (∀ paths, filePaths agent name args = some paths →
      Complete (pathFields agent name args) paths) ↔ NothingLost agent name args := by
  constructor
  · intro hcomplete hmuse hobject
    refine ⟨fun paths hfits => ?_, fun hcline hnone paths hfits => ?_⟩
    · have hextract := extractPaths_iff.mpr ⟨hobject, hfits⟩
      exact (complete_shared hmuse hfits).mp
        (hcomplete paths ((filePaths_iff hmuse).mpr (.inl hextract)))
    · have hextract : extractPaths name args = none := by
        rw [eq_none_iff_forall_ne_some]
        exact fun others hothers => hnone others (extractPaths_iff.mp hothers).2
      have hfiles := clineFilePaths_iff.mpr ⟨hobject, hfits⟩
      exact (complete_cline hmuse hfits).mp
        (hcomplete paths ((filePaths_iff hmuse).mpr (.inr ⟨hcline, hextract, hfiles⟩)))
  · intro hkept paths h
    by_cases hmuse : isMuseMemory agent name
    · change (if isMuseMemory agent name then museMemoryPaths args else _) = some paths at h
      rw [if_pos hmuse] at h
      unfold pathFields
      rw [if_pos hmuse]
      exact museMemoryPaths_complete h
    rcases (filePaths_iff hmuse).mp h with h | ⟨hcline, hnone, h⟩
    · obtain ⟨hobject, hfits⟩ := extractPaths_iff.mp h
      exact (complete_shared hmuse hfits).mpr ((hkept hmuse hobject).1 paths hfits)
    · obtain ⟨hobject, hfits⟩ := clineFilePaths_iff.mp h
      refine (complete_cline hmuse hfits).mpr ((hkept hmuse hobject).2 hcline ?_ paths hfits)
      intro others hothers
      rw [extractPaths_iff.mpr ⟨hobject, hothers⟩] at hnone
      cases hnone

lemma extract_file {fields : List (String × Value)}
    {args : Option Value} (hcall : toolFields agent (.object fields) = some (name, args)) :
    extract agent (.object fields) = extractCall agent name args (callId (.object fields)) := by
  unfold extract
  rw [hcall]

lemma extractCall_paths (args : Option Value)
    (id : Option String) (hfile : agentFamily agent name = .file) :
    (extractCall agent name args id).family = .file ∧
      (extractCall agent name args id).paths = args.bind (filePaths agent name) :=
  ⟨hfile, if_pos hfile⟩

/-- The paths that a file tool's call yields hold every string of its path fields, each of them
readable, exactly when nothing is lost with the fields passed over.  A call without paths is
kept as metadata only. -/
theorem paths_complete_iff (agent : AgentKind) (fields : List (String × Value)) (name : String)
    (args : Option Value) (hcall : toolFields agent (.object fields) = some (name, args))
    (hfile : agentFamily agent name = .file) :
    ((∀ paths, (extract agent (.object fields)).paths = some paths →
        ∃ value, args = some value ∧ Complete (pathFields agent name value) paths) ↔
      ∀ value, args = some value → NothingLost agent name value) ∧
    ((extract agent (.object fields)).paths = none →
      ∀ (U : Unicode) (policy : CapturePolicy) (cwd : Text), policy.state = .active →
        (policy.inspect U agent (.object fields) cwd).protocol.disposition = .metadataOnly) := by
  obtain ⟨hfamily, hpaths⟩ := extractCall_paths args (callId (.object fields)) hfile
  rw [extract_file hcall, hpaths]
  constructor
  · cases args with
    | none => simp
    | some value =>
      simp only [Option.bind_some, Option.some.injEq, forall_eq']
      rw [← complete_iff_nothingLost]
      simp only [exists_eq_left']
  · intro hnone U policy cwd hactive
    change (policy.inspectExtracted U (extract agent (.object fields)) cwd).1 = .metadataOnly
    rw [CapturePolicy.inspectExtracted, hactive, extract_file hcall]
    show (if _ then _ else _ : CaptureDisposition × ExtractionState).1 = _
    split
    · rfl
    · rw [hfamily, hpaths, hnone]
      rfl

def editCall (args : List (String × Value)) : List (String × Value) :=
  [("tool_name", .string "multi_edit"), ("tool_input", .object args)]

/-- One direct path and one edit, both read. -/
theorem paths_complete_iff_edit :
    Complete (pathFields .claudeCode "multi_edit" (.object
      [("file_path", .string "a"), ("edits", .array [.object [("path", .string "b")]])]))
      [['a'], ['b']] := by
  obtain ⟨_, ⟨⟩, hcomplete⟩ := (paths_complete_iff .claudeCode
    (editCall [("file_path", .string "a"), ("edits", .array [.object [("path", .string "b")]])])
    "multi_edit" _ rfl (by decide +kernel)).1.mpr (by
      -- the direct field is readable, and no field is passed over
      rintro _ ⟨⟩ - -
      exact ⟨fun _ _ => ⟨by decide +kernel, nofun⟩, nofun⟩) [['a'], ['b']] (by decide +kernel)
  exact hcomplete

/-- The path `secret` is lost when another direct field is not a string. -/
theorem unreadable_field_loses_path :
    ∃ args, toolFields .claudeCode (.object (editCall args)) =
        some ("multi_edit", some (.object args)) ∧
      agentFamily .claudeCode "multi_edit" = .file ∧
      (Value.object args).get? "file_path" = some (.string "secret") ∧
      (extract .claudeCode (.object (editCall args))).paths = some [['a']] ∧
      ¬ Complete (pathFields .claudeCode "multi_edit" (.object args)) [['a']] := by
  refine ⟨[("file_path", .string "secret"), ("path", .number "5"),
    ("edits", .array [.object [("path", .string "a")]])], rfl, by decide +kernel, rfl,
    by decide +kernel, ?_⟩
  intro h
  have hunread : directField (.object [("file_path", .string "secret"), ("path", .number "5"),
      ("edits", .array [.object [("path", .string "a")]])]) = none := by decide +kernel
  obtain ⟨texts, htexts, -⟩ := h (directField _) mem_cons_self
  rw [hunread] at htexts
  cases htexts

end Capture
