import Mathlib.Data.List.Basic
import TeenyBasic.Settings.Library

/-!
# Rules for checking settings

What the documentation of a checking library promises, for any library.  A library has keys, of
which some are names, and values, of which some are texts, whole numbers and truth values; it reads
the values of a declared type and within declared bounds (`Library.Conventions`).  The rules
(`Library.Documented`) say how it goes through a mapping in which no name is the key of two entries:

* a setting is read from the entry under its hyphenated spelling, or else from the one under its
  plain spelling, or else it has its fallback;
* a key that counts for no setting is forbidden;
* a mapping with nothing wrong in it is accepted, and of any other everything that is wrong is
  found, the settings in their order and then the forbidden keys in the order of the mapping;
* a value that has the declared type already stays as it is, and what is read is within its bounds.

Which entries count is a matter of which names there are and not of where they stand, so all of this
is kept by reordering a mapping (`Accepts.of_perm`, `Setting.Reports.of_perm`).
-/

namespace TeenyBasic

namespace Settings

namespace Library

/-- The keys and values of a library, and how it reads the values of settings.  A value is read
together with the name of its entry, which a finding may mention. -/
structure Conventions (library : Library) where
  /-- The name that a key is. -/
  name? : library.Key → Option String
  ofName : String → library.Key
  name?_ofName : ∀ name, name? (ofName name) = some name
  ofText : String → library.Value
  ofInteger : Int → library.Value
  ofTruth : Bool → library.Value
  readText : (least : Nat) → String → library.Value → Except library.Finding String
  readInteger : (least greatest : Int) → String → library.Value → Except library.Finding Int
  readTruth : String → library.Value → Except library.Finding Bool
  /-- What is found wrong with an entry whose key is forbidden. -/
  forbidden : library.Key → library.Value → library.Finding

namespace Conventions

variable {library : Library} (conventions : Conventions library)

def names (entries : List (library.Key × library.Value)) : List String :=
  entries.filterMap fun entry => conventions.name? entry.1

def Holds (entries : List (library.Key × library.Value)) (name : String)
    (value : library.Value) : Prop :=
  ∃ key, conventions.name? key = some name ∧ (key, value) ∈ entries

variable {conventions} {entries others : List (library.Key × library.Value)} {name : String}
  {value : library.Value}

@[simp] theorem mem_names_iff :
    name ∈ conventions.names entries ↔ ∃ value, conventions.Holds entries name value := by
  constructor
  · intro member
    obtain ⟨⟨key, value⟩, inside, named⟩ := List.mem_filterMap.mp member
    exact ⟨value, key, named, inside⟩
  · rintro ⟨value, key, named, inside⟩
    exact List.mem_filterMap.mpr ⟨_, inside, named⟩

theorem names_perm (reordered : entries.Perm others) :
    (conventions.names entries).Perm (conventions.names others) :=
  reordered.filterMap _

theorem mem_names_iff_of_perm (reordered : entries.Perm others) (name : String) :
    name ∈ conventions.names others ↔ name ∈ conventions.names entries :=
  (names_perm reordered).symm.mem_iff

theorem Holds.of_perm (holds : conventions.Holds entries name value)
    (reordered : entries.Perm others) : conventions.Holds others name value := by
  obtain ⟨key, named, inside⟩ := holds
  exact ⟨key, named, reordered.mem_iff.mp inside⟩

private theorem nodup_names_cons_iff {entry : library.Key × library.Value} :
    (conventions.names (entry :: entries)).Nodup ↔
      (∀ name, conventions.name? entry.1 = some name → name ∉ conventions.names entries) ∧
        (conventions.names entries).Nodup := by
  cases named : conventions.name? entry.1 with
  | none =>
    have same : conventions.names (entry :: entries) = conventions.names entries :=
      List.filterMap_cons_none named
    rw [same]
    refine ⟨fun distinct => ⟨?_, distinct⟩, And.right⟩
    intro name found
    cases found
  | some name =>
    have split : conventions.names (entry :: entries) = name :: conventions.names entries :=
      List.filterMap_cons_some named
    rw [split, List.nodup_cons]
    constructor
    · rintro ⟨fresh, distinct⟩
      exact ⟨fun _ same => Option.some.inj same ▸ fresh, distinct⟩
    · rintro ⟨fresh, distinct⟩
      exact ⟨fresh name rfl, distinct⟩

/-- With distinct names, the entry under a name is the only one. -/
theorem Holds.unique (distinct : (conventions.names entries).Nodup) {other : library.Value}
    (holds : conventions.Holds entries name value) (also : conventions.Holds entries name other) :
    value = other := by
  obtain ⟨key, named, inside⟩ := holds
  obtain ⟨key', named', inside'⟩ := also
  induction entries with
  | nil => cases inside
  | cons entry entries induction =>
    obtain ⟨fresh, distinct⟩ := nodup_names_cons_iff.mp distinct
    -- an entry in front that has the name excludes the name from those behind it
    have alone {first later : library.Key} {seen held : library.Value}
        (here : (first, seen) = entry) (named : conventions.name? first = some name)
        (named' : conventions.name? later = some name) : (later, held) ∉ entries := by
      intro behind
      subst here
      exact fresh name named (mem_names_iff.mpr ⟨held, later, named', behind⟩)
    rcases List.mem_cons.mp inside with here | later <;>
      rcases List.mem_cons.mp inside' with there | after
    · cases here.trans there.symm
      rfl
    · exact absurd after (alone here named named')
    · exact absurd later (alone there named' named)
    · exact induction distinct later after

end Conventions

/-- A setting as a library sees it: its declaration, and how its value is read. -/
structure Setting (library : Library) (α : Type) extends Field α where
  read : String → library.Value → Except library.Finding α

namespace Conventions

variable {library : Library} (conventions : Conventions library)

def path : Setting library String where
  toField := pathField
  read := conventions.readText leastPathLength

def precision : Setting library Int where
  toField := precisionField
  read := conventions.readInteger leastPrecision greatestPrecision

def echo : Setting library Bool where
  toField := echoField
  read := conventions.readTruth

end Conventions

namespace Setting

variable {library : Library} {α : Type} (setting : Setting library α)
  (conventions : Conventions library) (entries : List (library.Key × library.Value))

/-- The setting is read from the entry with this name and value: an entry under the plain spelling
counts only where there is none under the hyphenated one. -/
inductive Uses : String → library.Value → Prop
  | hyphenated {value} :
      conventions.Holds entries setting.hyphenated value → Uses setting.hyphenated value
  | plain {value} :
      setting.hyphenated ∉ conventions.names entries →
      conventions.Holds entries setting.plain value →
      Uses setting.plain value

def IsAbsent : Prop :=
  setting.hyphenated ∉ conventions.names entries ∧ setting.plain ∉ conventions.names entries

/-- What a mapping makes of a setting that it does not get wrong. -/
inductive Gives : α → Prop
  | fallback : setting.IsAbsent conventions entries → Gives setting.fallback
  | taken {name value result} :
      setting.Uses conventions entries name value →
      setting.read name value = .ok result →
      Gives result

/-- What is found wrong with a setting. -/
inductive Reports : List library.Finding → Prop
  | fine {result} : setting.Gives conventions entries result → Reports []
  | refused {name value finding} :
      setting.Uses conventions entries name value →
      setting.read name value = .error finding →
      Reports [finding]

def Counts (keys : List String) (name : String) : Prop :=
  name = setting.hyphenated ∨ name = setting.plain ∧ setting.hyphenated ∉ keys

instance (keys : List String) (name : String) : Decidable (setting.Counts keys name) :=
  inferInstanceAs (Decidable (_ ∨ _))

variable {setting conventions entries} {others : List (library.Key × library.Value)}
  {name : String} {value : library.Value} {findings : List library.Finding}

theorem Uses.of_perm (uses : setting.Uses conventions entries name value)
    (reordered : entries.Perm others) : setting.Uses conventions others name value := by
  cases uses with
  | hyphenated holds => exact .hyphenated (holds.of_perm reordered)
  | plain fresh holds =>
    apply Uses.plain
    · rwa [Conventions.mem_names_iff_of_perm reordered]
    · exact holds.of_perm reordered

theorem IsAbsent.of_perm (absent : setting.IsAbsent conventions entries)
    (reordered : entries.Perm others) : setting.IsAbsent conventions others := by
  rwa [IsAbsent, Conventions.mem_names_iff_of_perm reordered,
    Conventions.mem_names_iff_of_perm reordered]

theorem Gives.of_perm {result : α} (gives : setting.Gives conventions entries result)
    (reordered : entries.Perm others) : setting.Gives conventions others result := by
  cases gives with
  | fallback absent => exact .fallback (absent.of_perm reordered)
  | taken uses read => exact .taken (uses.of_perm reordered) read

theorem Reports.of_perm (reports : setting.Reports conventions entries findings)
    (reordered : entries.Perm others) : setting.Reports conventions others findings := by
  cases reports with
  | fine gives => exact .fine (gives.of_perm reordered)
  | refused uses read => exact .refused (uses.of_perm reordered) read

theorem Uses.not_isAbsent (uses : setting.Uses conventions entries name value) :
    ¬setting.IsAbsent conventions entries := by
  intro absent
  cases uses with
  | hyphenated holds => exact absent.1 (Conventions.mem_names_iff.mpr ⟨value, holds⟩)
  | plain _ holds => exact absent.2 (Conventions.mem_names_iff.mpr ⟨value, holds⟩)

theorem Uses.unique (distinct : (conventions.names entries).Nodup) {name' : String}
    {value' : library.Value} (uses : setting.Uses conventions entries name value)
    (also : setting.Uses conventions entries name' value') : name = name' ∧ value = value' := by
  cases uses with
  | hyphenated holds =>
    cases also with
    | hyphenated holds' => exact ⟨rfl, holds.unique distinct holds'⟩
    | plain fresh _ => exact absurd (Conventions.mem_names_iff.mpr ⟨_, holds⟩) fresh
  | plain fresh holds =>
    cases also with
    | hyphenated holds' => exact absurd (Conventions.mem_names_iff.mpr ⟨_, holds'⟩) fresh
    | plain _ holds' => exact ⟨rfl, holds.unique distinct holds'⟩

theorem Gives.read_eq (distinct : (conventions.names entries).Nodup) {result : α}
    (gives : setting.Gives conventions entries result)
    (uses : setting.Uses conventions entries name value) :
    setting.read name value = .ok result := by
  cases gives with
  | fallback absent => exact absurd absent uses.not_isAbsent
  | taken also read =>
    obtain ⟨rfl, rfl⟩ := uses.unique distinct also
    exact read

theorem Gives.unique (distinct : (conventions.names entries).Nodup) {result result' : α}
    (gives : setting.Gives conventions entries result)
    (also : setting.Gives conventions entries result') : result = result' := by
  cases also with
  | fallback absent =>
    cases gives with
    | fallback => rfl
    | taken uses _ => exact absurd absent uses.not_isAbsent
  | taken uses read => exact Except.ok.inj ((gives.read_eq distinct uses).symm.trans read)

/-- What holds of the fallback and of everything that is read holds of a setting that is given. -/
theorem Gives.induct {result : α} (gives : setting.Gives conventions entries result)
    (holds : α → Prop) (fallback : holds setting.fallback)
    (read : ∀ name value result, setting.read name value = .ok result → holds result) :
    holds result := by
  cases gives with
  | fallback absent => exact fallback
  | taken uses found => exact read _ _ _ found

theorem Reports.unique (distinct : (conventions.names entries).Nodup)
    {findings' : List library.Finding} (reports : setting.Reports conventions entries findings)
    (also : setting.Reports conventions entries findings') : findings = findings' := by
  cases reports with
  | fine gives =>
    cases also with
    | fine => rfl
    | refused uses read => cases (gives.read_eq distinct uses).symm.trans read
  | refused uses read =>
    cases also with
    | fine gives => cases (gives.read_eq distinct uses).symm.trans read
    | refused uses' read' =>
      obtain ⟨rfl, rfl⟩ := uses.unique distinct uses'
      rw [Except.error.inj (read.symm.trans read')]

end Setting

namespace Conventions

variable {library : Library} (conventions : Conventions library)

def IsKnown (keys : List String) (name : String) : Prop :=
  conventions.path.Counts keys name ∨ conventions.precision.Counts keys name ∨
    conventions.echo.Counts keys name

instance (keys : List String) (name : String) : Decidable (conventions.IsKnown keys name) :=
  inferInstanceAs (Decidable (_ ∨ _))

def IsStray (keys : List String) (key : library.Key) : Prop :=
  ∀ name ∈ conventions.name? key, ¬conventions.IsKnown keys name

instance (keys : List String) (key : library.Key) : Decidable (conventions.IsStray keys key) :=
  inferInstanceAs (Decidable (∀ name ∈ conventions.name? key, ¬conventions.IsKnown keys name))

/-- What is found wrong with the stray keys of a mapping, in the order of its entries. -/
def strays (entries : List (library.Key × library.Value)) : List library.Finding :=
  (entries.filter fun entry => conventions.IsStray (conventions.names entries) entry.1).map
    fun entry => conventions.forbidden entry.1 entry.2

/-- A mapping gives these settings, and every key in it counts for one. -/
structure Accepts (entries : List (library.Key × library.Value)) (settings : Settings) :
    Prop where
  path : conventions.path.Gives conventions entries settings.outputPath
  precision : conventions.precision.Gives conventions entries settings.printPrecision
  echo : conventions.echo.Gives conventions entries settings.echoCode
  known : ∀ entry ∈ entries, ¬conventions.IsStray (conventions.names entries) entry.1

variable {conventions} {entries others : List (library.Key × library.Value)}

theorem isStray_iff_of_perm (reordered : entries.Perm others) (key : library.Key) :
    conventions.IsStray (conventions.names others) key ↔
      conventions.IsStray (conventions.names entries) key := by
  simp only [IsStray, IsKnown, Setting.Counts, mem_names_iff_of_perm reordered]

/-- Reordered entries have the same stray keys. -/
theorem strays_perm (reordered : entries.Perm others) :
    (conventions.strays entries).Perm (conventions.strays others) := by
  have same : (others.filter fun entry =>
        conventions.IsStray (conventions.names others) entry.1) =
      others.filter fun entry => conventions.IsStray (conventions.names entries) entry.1 := by
    apply List.filter_congr
    intro entry _
    exact decide_eq_decide.mpr (isStray_iff_of_perm reordered entry.1)
  rw [strays, strays, same]
  exact (reordered.filter _).map _

theorem strays_eq_nil_iff :
    conventions.strays entries = [] ↔
      ∀ entry ∈ entries, ¬conventions.IsStray (conventions.names entries) entry.1 := by
  rw [strays, List.map_eq_nil_iff, List.filter_eq_nil_iff]
  simp only [decide_eq_true_eq]

theorem Accepts.of_perm {settings : Settings} (accepts : conventions.Accepts entries settings)
    (reordered : entries.Perm others) : conventions.Accepts others settings where
  path := accepts.path.of_perm reordered
  precision := accepts.precision.of_perm reordered
  echo := accepts.echo.of_perm reordered
  known entry inside := by
    rw [isStray_iff_of_perm reordered]
    exact accepts.known entry (reordered.mem_iff.mpr inside)

end Conventions

/-- What the documentation of a checking library promises of mappings in which no name is the key of
two entries. -/
structure Documented (library : Library) (conventions : Conventions library) : Prop where
  /-- Checking fails only with findings. -/
  declared : ∀ entries error, library.check entries ≠ .error (.foreign error)
  /-- Settings are read by their spellings, the hyphenated one first, or have their fallback. -/
  populates : ∀ entries settings, (conventions.names entries).Nodup →
    library.check entries = .ok settings →
    conventions.path.Gives conventions entries settings.outputPath ∧
    conventions.precision.Gives conventions entries settings.printPrecision ∧
    conventions.echo.Gives conventions entries settings.echoCode
  /-- No other key is allowed. -/
  forbids : ∀ entries settings, (conventions.names entries).Nodup →
    library.check entries = .ok settings →
    ∀ entry ∈ entries, ¬conventions.IsStray (conventions.names entries) entry.1
  /-- Everything that is wrong is found, and something is. -/
  finds : ∀ entries findings, (conventions.names entries).Nodup →
    library.check entries = .error (.declared findings) →
    findings ≠ [] ∧ ∃ path precision echo,
      conventions.path.Reports conventions entries path ∧
      conventions.precision.Reports conventions entries precision ∧
      conventions.echo.Reports conventions entries echo ∧
      findings = path ++ precision ++ echo ++ conventions.strays entries
  long_of_readText : ∀ least name value text,
    conventions.readText least name value = .ok text → least ≤ text.length
  readText_ofText : ∀ least name text, least ≤ text.length →
    conventions.readText least name (conventions.ofText text) = .ok text
  bounds_of_readInteger : ∀ least greatest name value number,
    conventions.readInteger least greatest name value = .ok number →
    least ≤ number ∧ number ≤ greatest
  readInteger_ofInteger : ∀ least greatest name number, least ≤ number → number ≤ greatest →
    conventions.readInteger least greatest name (conventions.ofInteger number) = .ok number
  readTruth_ofTruth : ∀ name truth,
    conventions.readTruth name (conventions.ofTruth truth) = .ok truth

end Library

end Settings

end TeenyBasic
