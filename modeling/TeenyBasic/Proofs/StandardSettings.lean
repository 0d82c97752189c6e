import TeenyBasic.Settings.Checker
import TeenyBasic.Proofs.SettingsRules

/-!
# The standard libraries keep the rules

`Settings.ofEntries` looks up each spelling of a setting and then goes through all keys.  What it
looks up is an entry that the rules name (`said_eq_none_iff`, `uses_of_said`), and the keys it
complains about are the ones that the rules forbid (`flatMap_findingOnKey`), so the standard
libraries keep the rules for checking settings (`documented_standardLibrary`).
-/

namespace TeenyBasic

namespace Settings

open Yaml (Value)

def name? : Value → Option String
  | .text name => some name
  | _ => none

/-- What is found wrong with a value under a name. -/
def Complaint.about (name : String) (complaint : Complaint) : Finding :=
  ⟨some (.text name), complaint⟩

/-- What is found wrong with a key that counts for no setting. -/
def strayFinding (key : Value) : Finding :=
  ⟨some (labelOf key), if (name? key).isSome then .unknownKey else .keyNotText⟩

/-- How the standard libraries read values. -/
def standard : standardLibrary.Conventions where
  name? := name?
  ofName := .text
  name?_ofName _ := rfl
  ofText := .text
  ofInteger := .integer
  ofTruth := .truth
  readText least name value := (readText least value).mapError (Complaint.about name)
  readInteger least greatest name value :=
    (readBounded least greatest value).mapError (Complaint.about name)
  readTruth name value := (readSwitch value).mapError (Complaint.about name)
  forbidden key _ := strayFinding key

private theorem name?_eq_some {key : Value} {name : String} (named : name? key = some name) :
    key = .text name := by
  cases key with
  | text value =>
    apply congrArg Value.text
    exact Option.some.inj named
  | _ => cases named

variable {entries : List (Value × Value)} {name : String} {value : Value}

@[simp] theorem holds_iff : standard.Holds entries name value ↔ (.text name, value) ∈ entries := by
  constructor
  · rintro ⟨key, named, inside⟩
    obtain rfl := name?_eq_some named
    exact inside
  · intro inside
    exact ⟨_, rfl, inside⟩

private theorem mem_names_standard (inside : (.text name, value) ∈ entries) :
    name ∈ standard.names entries :=
  Library.Conventions.mem_names_iff.mpr ⟨value, holds_iff.mpr inside⟩

@[simp] theorem valueAt?_eq_none_iff :
    valueAt? entries name = none ↔ name ∉ standard.names entries := by
  rw [valueAt?, Option.map_eq_none_iff, List.find?_eq_none, Library.Conventions.mem_names_iff,
    not_exists]
  constructor
  · intro fresh value holds
    exact fresh _ (holds_iff.mp holds) (decide_eq_true rfl)
  · rintro fresh ⟨key, value⟩ inside found
    cases key with
    | text key =>
      obtain rfl : key = name := of_decide_eq_true found
      exact fresh value (holds_iff.mpr inside)
    | _ => cases found

theorem holds_of_valueAt? (found : valueAt? entries name = some value) :
    standard.Holds entries name value := by
  obtain ⟨⟨key, value⟩, first, rfl⟩ := Option.map_eq_some_iff.mp found
  have inside := List.mem_of_find?_eq_some first
  have named := List.find?_some first
  cases key with
  | text key =>
    obtain rfl : key = name := of_decide_eq_true named
    exact holds_iff.mpr inside
  | _ => cases named

section Settings

variable {α : Type} {setting : standardLibrary.Setting α}

@[simp] theorem said_eq_none_iff :
    setting.said entries = none ↔ setting.IsAbsent standard entries := by
  rw [Field.said, Library.Setting.IsAbsent]
  cases found : valueAt? entries setting.hyphenated with
  | none =>
    have fresh := valueAt?_eq_none_iff.mp found
    rw [Option.map_eq_none_iff, valueAt?_eq_none_iff]
    exact ⟨fun absent => ⟨fresh, absent⟩, And.right⟩
  | some value =>
    have member := Library.Conventions.mem_names_iff.mpr ⟨value, holds_of_valueAt? found⟩
    constructor
    · intro impossible
      cases impossible
    · intro absent
      exact absurd member absent.1

/-- What is looked up for a setting is the entry that it is to be read from. -/
theorem uses_of_said (found : setting.said entries = some (name, value)) :
    setting.Uses standard entries name value := by
  rw [Field.said] at found
  cases first : valueAt? entries setting.hyphenated with
  | none =>
    rw [first] at found
    obtain ⟨held, plain, pair⟩ := Option.map_eq_some_iff.mp found
    cases pair
    exact .plain (valueAt?_eq_none_iff.mp first) (holds_of_valueAt? plain)
  | some held =>
    rw [first] at found
    cases found
    exact .hyphenated (holds_of_valueAt? first)

/-- A reader gives what a setting is and what is wrong with it. -/
def Reads (setting : standardLibrary.Setting α) (read : Value → Except Complaint α) : Prop :=
  ∀ name value, setting.read name value = (read value).mapError (Complaint.about name)

variable {read : Value → Except Complaint α}

theorem Reads.reports (reads : Reads setting read) :
    setting.Reports standard entries (findingOn read (setting.said entries)) := by
  cases found : setting.said entries with
  | none => exact .fine (.fallback (said_eq_none_iff.mp found))
  | some used =>
    obtain ⟨name, value⟩ := used
    have uses := uses_of_said found
    have readAs := reads name value
    rw [findingOn]
    cases result : read value with
    | ok result =>
      rw [result] at readAs
      exact .fine (.taken uses readAs)
    | error complaint =>
      rw [result] at readAs
      exact .refused uses readAs

theorem Reads.gives (reads : Reads setting read)
    (nothing : findingOn read (setting.said entries) = []) :
    setting.Gives standard entries (settingOr setting.fallback read (setting.said entries)) := by
  cases found : setting.said entries with
  | none => exact .fallback (said_eq_none_iff.mp found)
  | some used =>
    obtain ⟨name, value⟩ := used
    have readAs := reads name value
    rw [found, findingOn] at nothing
    rw [settingOr]
    cases result : read value with
    | ok result =>
      rw [result] at readAs
      exact .taken (uses_of_said found) readAs
    | error complaint =>
      rw [result] at nothing
      cases nothing

/-- Of the names in a mapping, those that count for a setting are the one that it is read from. -/
theorem counts_iff (member : name ∈ standard.names entries) :
    setting.Counts (standard.names entries) name ↔
      (setting.said entries).map (·.1) = some name := by
  rw [Field.said, Library.Setting.Counts]
  cases found : valueAt? entries setting.hyphenated with
  | none =>
    have fresh := valueAt?_eq_none_iff.mp found
    rw [Option.map_map]
    constructor
    · rintro (rfl | ⟨rfl, -⟩)
      · exact absurd member fresh
      · cases plain : valueAt? entries setting.plain with
        | none => exact absurd member (valueAt?_eq_none_iff.mp plain)
        | some value => rfl
    · intro same
      obtain ⟨value, -, rfl⟩ := Option.map_eq_some_iff.mp same
      exact .inr ⟨rfl, fresh⟩
  | some value =>
    have present := Library.Conventions.mem_names_iff.mpr ⟨value, holds_of_valueAt? found⟩
    constructor
    · rintro (rfl | ⟨-, fresh⟩)
      · rfl
      · exact absurd present fresh
    · intro same
      exact .inl (Option.some.inj same).symm

end Settings

def usedNames (entries : List (Value × Value)) : List String :=
  [pathField.said entries, precisionField.said entries, echoField.said entries].filterMap
    fun used => used.map (·.1)

private theorem mem_usedNames_iff (member : name ∈ standard.names entries) :
    name ∈ usedNames entries ↔ standard.IsKnown (standard.names entries) name := by
  rw [Library.Conventions.IsKnown, counts_iff member, counts_iff member, counts_iff member]
  simp only [usedNames, List.mem_filterMap, List.mem_cons, List.not_mem_nil, or_false,
    exists_eq_or_imp, exists_eq_left]
  rfl

private theorem findingOnKey_usedNames {entry : Value × Value} (inside : entry ∈ entries) :
    findingOnKey (usedNames entries) entry.1 =
      if standard.IsStray (standard.names entries) entry.1 then [strayFinding entry.1] else [] := by
  obtain ⟨key, value⟩ := entry
  cases key with
  | text name =>
    have known := mem_usedNames_iff (mem_names_standard inside)
    have stray : standard.IsStray (standard.names entries) (.text name) ↔
        name ∉ usedNames entries := by
      rw [known, Library.Conventions.IsStray]
      exact ⟨fun strays => strays name rfl, fun unknown _ same => Option.some.inj same ▸ unknown⟩
    by_cases used : name ∈ usedNames entries
    · rw [if_neg (fun strays => stray.mp strays used), findingOnKey,
        if_pos (List.contains_iff_mem.mpr used)]
    · rw [if_pos (stray.mpr used), findingOnKey,
        if_neg (fun contained => used (List.contains_iff_mem.mp contained))]
      rfl
  | _ =>
    rw [if_pos]
    · rfl
    · intro name found
      cases found

theorem flatMap_findingOnKey :
    (entries.flatMap fun entry => findingOnKey (usedNames entries) entry.1) =
      standard.strays entries := by
  rw [Library.Conventions.strays,
    List.flatMap_congr fun entry inside => findingOnKey_usedNames inside]
  -- which keys are stray depends on the whole mapping, so its names stay as they are
  generalize standard.names entries = keys
  induction entries with
  | nil => rfl
  | cons entry entries induction =>
    rw [List.flatMap_cons, induction]
    by_cases stray : standard.IsStray keys entry.1
    · rw [if_pos stray, List.filter_cons_of_pos (by simpa using stray)]
      rfl
    · rw [if_neg stray, List.filter_cons_of_neg (by simpa using stray)]
      rfl

/-- Everything that is found wrong with a mapping. -/
def complaints (entries : List (Value × Value)) : List Finding :=
  findingOn readPath (pathField.said entries) ++
    findingOn readPrecision (precisionField.said entries) ++
    findingOn readSwitch (echoField.said entries) ++ standard.strays entries

def readings (entries : List (Value × Value)) : Settings where
  outputPath := settingOr pathField.fallback readPath (pathField.said entries)
  printPrecision := settingOr precisionField.fallback readPrecision (precisionField.said entries)
  echoCode := settingOr echoField.fallback readSwitch (echoField.said entries)

theorem ofEntries_eq (entries : List (Value × Value)) :
    ofEntries entries =
      if (complaints entries).isEmpty then .ok (readings entries)
      else .error (complaints entries) := by
  rw [complaints, ← flatMap_findingOnKey]
  rfl

theorem check_eq_ok_iff {settings : Settings} :
    standardLibrary.check entries = .ok settings ↔
      complaints entries = [] ∧ readings entries = settings := by
  change (ofEntries entries).mapError Raised.declared = _ ↔ _
  rw [ofEntries_eq]
  by_cases fine : complaints entries = []
  · rw [if_pos (List.isEmpty_iff.mpr fine)]
    exact ⟨fun same => ⟨fine, Except.ok.inj same⟩, fun same => congrArg Except.ok same.2⟩
  · rw [if_neg (fun empty => fine (List.isEmpty_iff.mp empty))]
    constructor
    · intro impossible
      cases impossible
    · intro accepted
      exact absurd accepted.1 fine

theorem check_eq_error_iff {raised : Raised (List Finding)} :
    standardLibrary.check entries = .error raised ↔
      complaints entries ≠ [] ∧ raised = .declared (complaints entries) := by
  change (ofEntries entries).mapError Raised.declared = _ ↔ _
  rw [ofEntries_eq]
  by_cases fine : complaints entries = []
  · rw [if_pos (List.isEmpty_iff.mpr fine)]
    constructor
    · intro impossible
      cases impossible
    · intro refused
      exact absurd fine refused.1
  · rw [if_neg (fun empty => fine (List.isEmpty_iff.mp empty))]
    constructor
    · intro same
      exact ⟨fine, (Except.error.inj same).symm⟩
    · rintro ⟨-, rfl⟩
      rfl

private theorem readBounded_eq_ok {least greatest number : Int}
    (read : readBounded least greatest value = .ok number) :
    least ≤ number ∧ number ≤ greatest := by
  rw [readBounded] at read
  split at read
  · cases read
  · split at read
    · cases read
    · split at read
      · cases read
      · cases read
        omega

theorem ok_of_mapError {α ε δ : Type} {result : Except ε α} {convert : ε → δ} {given : α}
    (mapped : result.mapError convert = .ok given) : result = .ok given := by
  cases result with
  | error fault => cases mapped
  | ok found => exact congrArg Except.ok (Except.ok.inj mapped)

/-- The standard libraries keep the rules. -/
theorem documented_standardLibrary : standardLibrary.Documented standard where
  declared entries error refused := by
    cases (check_eq_error_iff.mp refused).2
  populates entries settings _ accepted := by
    obtain ⟨nothing, rfl⟩ := check_eq_ok_iff.mp accepted
    simp only [complaints, List.append_eq_nil_iff] at nothing
    obtain ⟨⟨⟨path, precision⟩, echo⟩, -⟩ := nothing
    have readsPath : Reads standard.path readPath := fun _ _ => rfl
    have readsPrecision : Reads standard.precision readPrecision := fun _ _ => rfl
    have readsEcho : Reads standard.echo readSwitch := fun _ _ => rfl
    exact ⟨readsPath.gives path, readsPrecision.gives precision, readsEcho.gives echo⟩
  forbids entries settings _ accepted := by
    obtain ⟨nothing, -⟩ := check_eq_ok_iff.mp accepted
    simp only [complaints, List.append_eq_nil_iff] at nothing
    exact Library.Conventions.strays_eq_nil_iff.mp nothing.2
  finds entries findings _ refused := by
    obtain ⟨wrong, same⟩ := check_eq_error_iff.mp refused
    cases same
    have readsPath : Reads standard.path readPath := fun _ _ => rfl
    have readsPrecision : Reads standard.precision readPrecision := fun _ _ => rfl
    have readsEcho : Reads standard.echo readSwitch := fun _ _ => rfl
    exact ⟨wrong, _, _, _, readsPath.reports, readsPrecision.reports, readsEcho.reports, rfl⟩
  long_of_readText least name value text read := by
    have read := ok_of_mapError read
    cases value with
    | text held =>
      rw [readText] at read
      split at read
      · cases read
      · cases read
        omega
    | _ => cases read
  readText_ofText least name text long := by
    change (readText least (.text text)).mapError _ = _
    rw [readText, if_neg (Nat.not_lt.mpr long)]
    rfl
  bounds_of_readInteger least greatest name value number read :=
    readBounded_eq_ok (ok_of_mapError read)
  readInteger_ofInteger least greatest name number above below := by
    change (readBounded least greatest (.integer number)).mapError _ = _
    rw [readBounded, readInteger]
    dsimp only
    rw [if_neg (Int.not_lt.mpr below), if_neg (Int.not_lt.mpr above)]
    rfl
  readTruth_ofTruth name truth := rfl

end Settings

end TeenyBasic
