import TeenyBasic.Proofs.StandardSettings

/-!
# Settings in any order

For any library that keeps the rules for checking settings, a mapping is accepted just if the rules
accept it (`Documented.check_eq_ok_iff`), and the rules look at which entries there are.  So the
order of the entries decides nothing but the order in which forbidden keys are complained about, and
settings that were accepted are accepted again when they are written out.
-/

namespace TeenyBasic

namespace Settings

namespace Library

variable {library : Library} {conventions : Conventions library}
  {entries others : List (library.Key × library.Value)} {settings : Settings}

theorem Conventions.Accepts.unique (distinct : (conventions.names entries).Nodup)
    {other : Settings} (accepts : conventions.Accepts entries settings)
    (also : conventions.Accepts entries other) : settings = other := by
  obtain ⟨path, precision, echo⟩ := settings
  obtain ⟨path', precision', echo'⟩ := other
  obtain rfl : path = path' := accepts.path.unique distinct also.path
  obtain rfl : precision = precision' := accepts.precision.unique distinct also.precision
  obtain rfl : echo = echo' := accepts.echo.unique distinct also.echo
  rfl

namespace Documented

/-- The rules decide what is accepted. -/
theorem check_eq_ok_iff (documented : library.Documented conventions)
    (distinct : (conventions.names entries).Nodup) :
    library.check entries = .ok settings ↔ conventions.Accepts entries settings := by
  have accepts_of_check {given : Settings} (accepted : library.check entries = .ok given) :
      conventions.Accepts entries given := by
    obtain ⟨path, precision, echo⟩ := documented.populates entries given distinct accepted
    exact ⟨path, precision, echo, documented.forbids entries given distinct accepted⟩
  refine ⟨accepts_of_check, fun accepts => ?_⟩
  cases checked : library.check entries with
  | ok given => rw [(accepts_of_check checked).unique distinct accepts]
  | error raised =>
    cases raised with
    | foreign error => exact absurd checked (documented.declared entries error)
    | declared findings =>
      -- where the rules accept, nothing is found, but a refusal has something to say
      obtain ⟨wrong, path, precision, echo, onPath, onPrecision, onEcho, rfl⟩ :=
        documented.finds entries findings distinct checked
      obtain rfl := onPath.unique distinct (.fine accepts.path)
      obtain rfl := onPrecision.unique distinct (.fine accepts.precision)
      obtain rfl := onEcho.unique distinct (.fine accepts.echo)
      rw [Conventions.strays_eq_nil_iff.mpr accepts.known] at wrong
      exact absurd rfl wrong

theorem check_eq_ok_iff_of_perm (documented : library.Documented conventions)
    (distinct : (conventions.names entries).Nodup) (reordered : entries.Perm others) :
    library.check others = .ok settings ↔ library.check entries = .ok settings := by
  have distinct' := (Conventions.names_perm reordered).nodup_iff.mp distinct
  rw [documented.check_eq_ok_iff distinct, documented.check_eq_ok_iff distinct']
  exact ⟨fun accepts => accepts.of_perm reordered.symm, fun accepts => accepts.of_perm reordered⟩

/-- Reordered entries are refused with the same findings, but that the forbidden keys follow the new
order. -/
theorem check_of_perm (documented : library.Documented conventions)
    (distinct : (conventions.names entries).Nodup) (reordered : entries.Perm others)
    {path precision echo : List library.Finding}
    (onPath : conventions.path.Reports conventions entries path)
    (onPrecision : conventions.precision.Reports conventions entries precision)
    (onEcho : conventions.echo.Reports conventions entries echo)
    (refused : ∀ settings, library.check entries ≠ .ok settings) :
    library.check others =
      .error (.declared (path ++ precision ++ echo ++ conventions.strays others)) := by
  have distinct' := (Conventions.names_perm reordered).nodup_iff.mp distinct
  cases checked : library.check others with
  | ok settings =>
    exact absurd ((documented.check_eq_ok_iff_of_perm distinct reordered).mp checked)
      (refused settings)
  | error raised =>
    cases raised with
    | foreign error => exact absurd checked (documented.declared others error)
    | declared findings =>
      obtain ⟨-, path', precision', echo', onPath', onPrecision', onEcho', rfl⟩ :=
        documented.finds others findings distinct' checked
      rw [onPath'.unique distinct' (onPath.of_perm reordered),
        onPrecision'.unique distinct' (onPrecision.of_perm reordered),
        onEcho'.unique distinct' (onEcho.of_perm reordered)]

private theorem outputPath_ne_empty (documented : library.Documented conventions)
    (accepts : conventions.Accepts entries settings) : settings.outputPath ≠ "" := by
  apply accepts.path.induct (· ≠ "")
  · change pathField.fallback ≠ ""
    decide
  · rintro name value path read rfl
    have long := documented.long_of_readText _ _ _ _ read
    cases long

private theorem printPrecision_bounds (documented : library.Documented conventions)
    (accepts : conventions.Accepts entries settings) :
    0 ≤ settings.printPrecision ∧ settings.printPrecision ≤ 17 := by
  apply accepts.precision.induct fun precision => 0 ≤ precision ∧ precision ≤ 17
  · change 0 ≤ precisionField.fallback ∧ precisionField.fallback ≤ 17
    decide
  · intro name value precision read
    exact documented.bounds_of_readInteger _ _ _ _ _ read

end Documented

end Library

inductive Spelling
  | hyphenated
  | plain
  deriving DecidableEq, Repr

def Field.spelled {α : Type} (field : Field α) : Spelling → String
  | .hyphenated => field.hyphenated
  | .plain => field.plain

namespace Library

variable {library : Library} (conventions : Conventions library)

/-- The mapping that gives settings their own values, each under either of its names. -/
def Conventions.written (settings : Settings) (path precision echo : Spelling) :
    List (library.Key × library.Value) :=
  [(conventions.ofName (pathField.spelled path), conventions.ofText settings.outputPath),
    (conventions.ofName (precisionField.spelled precision),
      conventions.ofInteger settings.printPrecision),
    (conventions.ofName (echoField.spelled echo), conventions.ofTruth settings.echoCode)]

variable {conventions} {α : Type} {setting : Setting library α} {spelling : Spelling}

theorem Setting.uses_spelled {entries : List (library.Key × library.Value)} {value : library.Value}
    (holds : conventions.Holds entries (setting.spelled spelling) value)
    (only : spelling = .plain → setting.hyphenated ∉ conventions.names entries) :
    setting.Uses conventions entries (setting.spelled spelling) value := by
  cases spelling with
  | hyphenated => exact .hyphenated holds
  | plain => exact .plain (only rfl) holds

theorem Setting.counts_spelled {keys : List String}
    (only : spelling = .plain → setting.hyphenated ∉ keys) :
    setting.Counts keys (setting.spelled spelling) := by
  cases spelling with
  | hyphenated => exact .inl rfl
  | plain => exact .inr ⟨rfl, only rfl⟩

namespace Conventions

variable (conventions) (settings : Settings) (path precision echo : Spelling)

theorem names_written :
    conventions.names (conventions.written settings path precision echo) =
      [pathField.spelled path, precisionField.spelled precision, echoField.spelled echo] := by
  simp [names, written, conventions.name?_ofName]

private theorem nodup_names_written :
    (conventions.names (conventions.written settings path precision echo)).Nodup := by
  rw [names_written]
  cases path <;> cases precision <;> cases echo <;> decide

/-- Where a plain name is written, its hyphenated spelling is not. -/
theorem hyphenated_not_mem_names_written :
    (path = .plain → pathField.hyphenated ∉
      conventions.names (conventions.written settings path precision echo)) ∧
    (precision = .plain → precisionField.hyphenated ∉
      conventions.names (conventions.written settings path precision echo)) ∧
    (echo = .plain → echoField.hyphenated ∉
      conventions.names (conventions.written settings path precision echo)) := by
  rw [names_written]
  cases path <;> cases precision <;> cases echo <;> decide

end Conventions

/-- Settings within their bounds are given by the mapping of their own values. -/
theorem Documented.accepts_written (documented : library.Documented conventions)
    {settings : Settings} (path precision echo : Spelling) (nonempty : settings.outputPath ≠ "")
    (bounded : 0 ≤ settings.printPrecision ∧ settings.printPrecision ≤ 17) :
    conventions.Accepts (conventions.written settings path precision echo) settings := by
  obtain ⟨onlyPath, onlyPrecision, onlyEcho⟩ :=
    conventions.hyphenated_not_mem_names_written settings path precision echo
  have holds (name : String) (value : library.Value)
      (inside : (conventions.ofName name, value) ∈
        conventions.written settings path precision echo) :
      conventions.Holds (conventions.written settings path precision echo) name value :=
    ⟨_, conventions.name?_ofName name, inside⟩
  have long : leastPathLength ≤ settings.outputPath.length := by
    apply Nat.one_le_iff_ne_zero.mpr
    rwa [Ne, String.length_eq_zero_iff]
  have readPath := documented.readText_ofText _ (pathField.spelled path) _ long
  have readPrecision := documented.readInteger_ofInteger _ _ (precisionField.spelled precision) _
    bounded.1 bounded.2
  have readEcho := documented.readTruth_ofTruth (echoField.spelled echo) settings.echoCode
  constructor
  · exact .taken (Setting.uses_spelled (holds _ _ (.head _)) onlyPath) readPath
  · exact .taken (Setting.uses_spelled (holds _ _ (.tail _ (.head _))) onlyPrecision) readPrecision
  · exact .taken (Setting.uses_spelled (holds _ _ (.tail _ (.tail _ (.head _)))) onlyEcho) readEcho
  · intro entry inside stray
    rcases inside with _ | ⟨_, _ | ⟨_, _ | ⟨_, ⟨⟩⟩⟩⟩
    · exact stray _ (conventions.name?_ofName _) (.inl (Setting.counts_spelled onlyPath))
    · exact stray _ (conventions.name?_ofName _)
        (.inr (.inl (Setting.counts_spelled onlyPrecision)))
    · exact stray _ (conventions.name?_ofName _) (.inr (.inr (Setting.counts_spelled onlyEcho)))

end Library

namespace Sample

open Yaml (Value)

/-- Settings out of their order, in both spellings, with values that have to be converted. -/
def relaxed : List (Value × Value) :=
  [(.text "print_precision", .text "1_0"), (.text "echo-code", .integer 1),
    (.text "output-path", .text "a.c")]

/-- A path under both names, a switch that is no switch, and a number as a key. -/
def crowded : List (Value × Value) :=
  [(.integer 7, .null), (.text "output_path", .text "b.c"),
    (.text "echo-code", .text "perhaps"), (.text "output-path", .text "")]

theorem check_relaxed : standardLibrary.check relaxed = .ok ⟨"a.c", 10, true⟩ := by
  rfl

private theorem check_crowded :
    standardLibrary.check crowded = .error (.declared [⟨some (.text "output-path"), .shortText⟩,
      ⟨some (.text "echo-code"), .unreadableTruth⟩, ⟨some (.number 7), .keyNotText⟩,
      ⟨some (.text "output_path"), .unknownKey⟩]) := by
  rfl

end Sample

/-- Settings checked by a library that keeps the rules, from a mapping without two entries under one
name.  Whether it is accepted, and as which settings, is the same for every order of its entries,
and so are the findings on the settings, which come first and in the order of the settings; the
findings on forbidden keys follow in the order of the entries.  Accepted settings have a path and a
precision in range, and the mapping of their own values, under either name each and in any order,
gives them again. -/
theorem check_of_reordering {library : Library} {conventions : library.Conventions}
    (documented : library.Documented conventions)
    {entries : List (library.Key × library.Value)}
    (distinct : (conventions.names entries).Nodup) :
    (∀ others settings, entries.Perm others →
      (library.check others = .ok settings ↔ library.check entries = .ok settings)) ∧
    ((∀ settings, library.check entries ≠ .ok settings) →
      ∃ path precision echo,
        conventions.path.Reports conventions entries path ∧
        conventions.precision.Reports conventions entries precision ∧
        conventions.echo.Reports conventions entries echo ∧
        ∀ others, entries.Perm others →
          library.check others =
            .error (.declared (path ++ precision ++ echo ++ conventions.strays others)) ∧
          (conventions.strays entries).Perm (conventions.strays others)) ∧
    ∀ settings, library.check entries = .ok settings →
      settings.outputPath ≠ "" ∧
      0 ≤ settings.printPrecision ∧
      settings.printPrecision ≤ 17 ∧
      ∀ path precision echo others,
        (conventions.written settings path precision echo).Perm others →
          library.check others = .ok settings := by
  refine ⟨?_, ?_, ?_⟩
  · intro others settings reordered
    exact documented.check_eq_ok_iff_of_perm distinct reordered
  · intro refused
    cases checked : library.check entries with
    | ok settings => exact absurd checked (refused settings)
    | error raised =>
      cases raised with
      | foreign error => exact absurd checked (documented.declared entries error)
      | declared findings =>
        obtain ⟨-, path, precision, echo, onPath, onPrecision, onEcho, -⟩ :=
          documented.finds entries findings distinct checked
        refine ⟨path, precision, echo, onPath, onPrecision, onEcho, ?_⟩
        intro others reordered
        refine ⟨?_, Library.Conventions.strays_perm reordered⟩
        exact documented.check_of_perm distinct reordered onPath onPrecision onEcho refused
  · intro settings accepted
    have accepts := (documented.check_eq_ok_iff distinct).mp accepted
    have nonempty := documented.outputPath_ne_empty accepts
    have bounded := documented.printPrecision_bounds accepts
    refine ⟨nonempty, bounded.1, bounded.2, ?_⟩
    intro path precision echo others reordered
    have again := conventions.nodup_names_written settings path precision echo
    rw [documented.check_eq_ok_iff_of_perm again reordered, documented.check_eq_ok_iff again]
    exact documented.accepts_written path precision echo nonempty bounded

/-- The settings of one mapping in reverse order and written out again, and the complaints about
another one in reverse order. -/
theorem check_of_reordering_reversed :
    (standard.names Sample.relaxed).Nodup ∧ (standard.names Sample.crowded).Nodup ∧
      standardLibrary.check Sample.relaxed.reverse = .ok ⟨"a.c", 10, true⟩ ∧
      standardLibrary.check (standard.written ⟨"a.c", 10, true⟩ .plain .hyphenated .plain).reverse =
        .ok ⟨"a.c", 10, true⟩ ∧
      ∃ path precision echo,
        standard.path.Reports standard Sample.crowded path ∧
        standard.precision.Reports standard Sample.crowded precision ∧
        standard.echo.Reports standard Sample.crowded echo ∧
        standardLibrary.check Sample.crowded.reverse =
          .error (.declared (path ++ precision ++ echo ++
            [⟨some (.text "output_path"), .unknownKey⟩, ⟨some (.number 7), .keyNotText⟩])) := by
  have relaxed : (standard.names Sample.relaxed).Nodup := by decide
  have crowded : (standard.names Sample.crowded).Nodup := by decide
  obtain ⟨reordered, -, accepted⟩ := check_of_reordering documented_standardLibrary relaxed
  obtain ⟨-, -, -, again⟩ := accepted _ Sample.check_relaxed
  obtain ⟨-, refused, -⟩ := check_of_reordering documented_standardLibrary crowded
  obtain ⟨path, precision, echo, onPath, onPrecision, onEcho, others⟩ := refused (by
    intro settings accepted
    cases Sample.check_crowded.symm.trans accepted)
  refine ⟨relaxed, crowded, ?_, ?_, path, precision, echo, onPath, onPrecision, onEcho, ?_⟩
  · rw [reordered _ _ (List.reverse_perm _).symm]
    exact Sample.check_relaxed
  · exact again _ _ _ _ (List.reverse_perm _).symm
  · exact (others _ (List.reverse_perm _).symm).1

end Settings

end TeenyBasic
