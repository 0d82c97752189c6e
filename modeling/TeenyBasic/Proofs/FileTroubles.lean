import TeenyBasic.Settings.File
import TeenyBasic.Proofs.CompiledFiles

/-!
# Troubles with files

Work on files may fail in ways that are not reported.  A null character in a path is one of them,
and it is met just if the path has one and the work gets as far as that path.  Another is a settings
file whose bytes are not UTF-8.  With libraries that fail only as they declare
(`Settings.Library.OnlyDeclared`), loading settings meets no other.
-/

namespace TeenyBasic

namespace Files

private theorem mem_of_mem_splitSlashes {text part : List Char} {character : Char}
    (isPart : part ∈ splitSlashes text) (member : character ∈ part) : character ∈ text := by
  induction text generalizing part with
  | nil => simp_all [splitSlashes]
  | cons first rest induction =>
    rw [splitSlashes] at isPart
    split at isPart
    · rcases List.mem_cons.mp isPart with rfl | later
      · simp at member
      · exact List.mem_cons_of_mem _ (induction later member)
    · split at isPart
      · simp_all
      · next front parts split =>
        rcases List.mem_cons.mp isPart with rfl | later
        · rcases List.mem_cons.mp member with rfl | inside
          · exact List.mem_cons_self
          · exact List.mem_cons_of_mem _ (induction (by simp [split]) inside)
        · exact List.mem_cons_of_mem _ (induction (by simp [split, later]) member)

theorem Path.holdsNull_ofText {text : String} (noNull : '\x00' ∉ text.toList) :
    (Path.ofText text).holdsNull = false := by
  simp only [holdsNull, ofText, List.any_map, List.any_eq_false, List.mem_filter]
  rintro part ⟨isPart, -⟩
  simpa using fun inside => noNull (mem_of_mem_splitSlashes isPart inside)

private theorem Path.holdsNull_upTo_succ {path : Path} {count : Nat}
    (held : (path.upTo count).holdsNull = true) : (path.upTo (count + 1)).holdsNull = true := by
  simp only [holdsNull, upTo, List.any_eq_true] at held ⊢
  obtain ⟨name, member, inside⟩ := held
  exact ⟨name, List.take_subset_take_left _ (Nat.le_succ count) member, inside⟩

variable {path : Path} {tree : FileTree}

theorem FileTree.readBytes_eq_nullCharacter_iff (tree : FileTree) {path : Path} :
    tree.readBytes path = .error .nullCharacter ↔ path.holdsNull = true := by
  unfold readBytes
  split
  · simp_all
  · split <;> simp_all

private theorem FileTree.writeBytes_eq_nullCharacter_iff (tree : FileTree) {path : Path}
    (bytes : List UInt8) :
    (tree.writeBytes path bytes).1 = .error .nullCharacter ↔ path.holdsNull = true := by
  have notNull (place : List String) : (tree.fill place bytes).1 ≠ .error .nullCharacter := by
    by_cases cut : tree.CutsShort bytes
    · obtain ⟨shortage, limited, short⟩ := cut
      simp [fill, accept_of_lt limited short]
    · simp [fill, accept_of_not_cutsShort cut]
  unfold writeBytes
  split
  · simp_all
  · split <;> simp_all

private theorem FileTree.makeDirectory_eq_nullCharacter_iff (tree : FileTree) {path : Path} :
    tree.makeDirectory path = .error .nullCharacter ↔ path.holdsNull = true := by
  unfold makeDirectory
  split
  · simp_all
  · split <;> simp_all

private theorem FileTree.leadsTo_ne_nullCharacter (test : Entry → Bool) :
    tree.leadsTo test path ≠ .error .nullCharacter := by
  unfold leadsTo
  split
  · simp
  · split <;> simp

theorem FileTree.holdsNull_of_leadsTo {test : Entry → Bool}
    (leads : tree.leadsTo test path = .ok true) : path.holdsNull = false := by
  unfold leadsTo at leads
  split at leads
  · cases leads
  · simp_all

theorem ensureDirectory_eq_nullCharacter_iff (path : Path) (tree : FileTree) :
    ((ensureDirectory path : OnTree _) tree).1 = .error .nullCharacter ↔
      path.holdsNull = true := by
  rw [← tree.makeDirectory_eq_nullCharacter_iff]
  have attempt : (makeDirectory path : OnTree _) tree = _ := OnTree.change_eq
  rw [ensureDirectory, OnTree.bind_apply, attempt]
  cases made : tree.makeDirectory path with
  | ok after => simp [OnTree.pure_apply]
  | error fault =>
    dsimp only
    split
    · simp [OnTree.pure_apply]
    · next other =>
      have notNull : fault ≠ .nullCharacter := by
        rintro rfl
        simp at other
      rw [OnTree.bind_apply, OnTree.isDirectory_apply]
      cases leads : tree.leadsTo FileTree.isDirectoryEntry path with
      | error other =>
        have otherNotNull : other ≠ .nullCharacter := by
          rintro rfl
          exact tree.leadsTo_ne_nullCharacter _ leads
        simp [OnTree.pure_apply, notNull, otherNotNull]
      | ok isThere => cases isThere <;> simp [OnTree.pure_apply, notNull]

private theorem ensureDirectories_eq_nullCharacter_iff (path : Path) (count : Nat)
    (tree : FileTree) :
    ((ensureDirectories path count : OnTree _) tree).1 = .error .nullCharacter ↔
      (path.upTo count).holdsNull = true := by
  induction count generalizing tree with
  | zero => exact ensureDirectory_eq_nullCharacter_iff _ tree
  | succ count induction =>
    have ensured := ensureDirectory_eq_nullCharacter_iff (path.upTo (count + 1))
    rw [ensureDirectories, OnTree.bind_apply]
    cases first : ((ensureDirectory (path.upTo (count + 1)) : OnTree _) tree).1 with
    | ok done => simp [OnTree.pure_apply, ← ensured tree, first]
    | error fault =>
      dsimp only
      split
      · next isMissing =>
        -- a missing directory is no matter of null characters, and then neither are its parents
        have noNull : (path.upTo (count + 1)).holdsNull ≠ true := by
          rw [Ne, ← ensured tree, first, isMissing]
          simp
        rw [OnTree.bind_apply]
        generalize ((ensureDirectory _ : OnTree (Except AccessFault Unit)) tree).2 = middle
        cases parents : ((ensureDirectories path count : OnTree _) middle).1 with
        | ok done => exact ensured _
        | error other =>
          have parentsNotNull : other ≠ .nullCharacter := by
            rintro rfl
            exact noNull (Path.holdsNull_upTo_succ ((induction middle).mp parents))
          simp [OnTree.pure_apply, noNull, parentsNotNull]
      · rw [← ensured tree, first]
        rfl

end Files

namespace Compilation

open Files

variable {precision : Int} {source output : Path} {tree : FileTree}

private theorem textOf_eq_ok_iff {bytes : List UInt8} {text : String} :
    textOf bytes = .ok text ↔ ∃ original, bytes = Text.Utf8.encode original ∧
      text = String.ofList (Text.unifyLineEnds original.toList) := by
  unfold textOf
  constructor
  · intro given
    split at given
    · next original decoded =>
      exact ⟨original, Text.Utf8.decode_eq_ok_iff.mp decoded, (Except.ok.inj given).symm⟩
    · cases given
  · rintro ⟨original, rfl, rfl⟩
    rw [Text.Utf8.decode_eq_ok_iff.mpr rfl]

private theorem textOf_eq_error_iff {bytes : List UInt8} {fault : Text.Utf8.Fault} :
    textOf bytes = .error fault ↔ Text.Utf8.decode bytes = .error fault := by
  unfold textOf
  split <;> simp_all

theorem readText_apply (path : Path) (tree : FileTree) :
    (readText path : OnTree _) tree =
      (match tree.readBytes path with
        | .error fault => .error (.access fault)
        | .ok bytes =>
            match textOf bytes with
            | .ok text => .ok text
            | .error fault => .error (.encoding fault), tree) := by
  have readBytes_apply : (readBytes path : OnTree _) tree = (tree.readBytes path, tree) := rfl
  rw [readText, OnTree.bind_apply, readBytes_apply]
  cases tree.readBytes path with
  | error fault => rfl
  | ok bytes =>
    dsimp only
    cases textOf bytes <;> rfl

private theorem readText_eq_ok_iff {text : String} :
    ((readText source : OnTree _) tree).1 = .ok text ↔ Reads source tree text := by
  have reads_iff : Reads source tree text ↔
      ∃ bytes, tree.readBytes source = .ok bytes ∧ textOf bytes = .ok text := by
    simp only [Reads, textOf_eq_ok_iff]
    grind
  rw [reads_iff, readText_apply]
  cases tree.readBytes source with
  | error fault => simp
  | ok bytes => cases decoded : textOf bytes <;> simp [decoded]

theorem readText_eq_encoding_iff {fault : Text.Utf8.Fault} :
    ((readText source : OnTree _) tree).1 = .error (.encoding fault) ↔
      ∃ bytes, tree.readBytes source = .ok bytes ∧ Text.Utf8.decode bytes = .error fault := by
  simp only [← textOf_eq_error_iff]
  rw [readText_apply]
  cases tree.readBytes source with
  | error fault => simp
  | ok bytes => cases decoded : textOf bytes <;> simp [decoded]

theorem readText_eq_access_iff {fault : AccessFault} :
    ((readText source : OnTree _) tree).1 = .error (.access fault) ↔
      tree.readBytes source = .error fault := by
  rw [readText_apply]
  cases tree.readBytes source with
  | error fault => simp
  | ok bytes => cases decoded : textOf bytes <;> simp [decoded]

theorem sourceText_eq_nullCharacter_iff (source : Path) (tree : FileTree) :
    ((sourceText source : OnTree _) tree).1 = .error .nullCharacter ↔
      source.holdsNull = true := by
  rw [← tree.readBytes_eq_nullCharacter_iff, ← readText_eq_access_iff, sourceText,
    OnTree.bind_apply]
  rcases ((readText source : OnTree _) tree).1 with ((_ | ⟨refusal, path⟩) | fault) | text
  · simp [OnTree.pure_apply]
  · cases refusal <;> simp [OnTree.pure_apply]
  · simp [OnTree.pure_apply]
  · simp [OnTree.pure_apply]

/-- Writing an output file gets to a null character in its path.  The directories that the file lies
in are made first. -/
def MeetsNull (output : Path) (tree : FileTree) : Prop :=
  output.holdsNull = true ∧ (output.parent.holdsNull = true ∨
    ((ensureDirectories output.parent output.parent.names.length : OnTree _) tree).1 = .ok ())

private theorem writeOutput_eq_nullCharacter_iff (output : Path) (code : String) (tree : FileTree) :
    ((writeOutput output code : OnTree _) tree).1 = .error .nullCharacter ↔
      MeetsNull output tree := by
  have whole : output.parent.upTo output.parent.names.length = output.parent := by
    rw [Path.upTo, List.take_length]
  have parents :=
    ensureDirectories_eq_nullCharacter_iff output.parent output.parent.names.length tree
  rw [whole] at parents
  have stops (fault : AccessFault) :
      writeStop output fault = .nullCharacter ↔ fault = .nullCharacter := by
    cases fault <;> simp [writeStop]
  rw [MeetsNull, writeOutput, OnTree.bind_apply]
  cases ensured : ((ensureDirectories output.parent output.parent.names.length :
      OnTree _) tree).1 with
  | error fault =>
    rw [ensured, Except.error.injEq] at parents
    simp only [OnTree.pure_apply, Except.error.injEq, stops, parents, reduceCtorEq, or_false]
    exact ⟨fun held => ⟨Path.holdsNull_of_parent held, held⟩, And.right⟩
  | ok done =>
    dsimp only
    rw [OnTree.bind_apply, OnTree.writeBytes_apply]
    generalize ((ensureDirectories _ _ : OnTree (Except AccessFault Unit)) tree).2 = middle
    rw [← middle.writeBytes_eq_nullCharacter_iff (Text.Utf8.encode code)]
    rcases middle.writeBytes output (Text.Utf8.encode code) with ⟨fault | _, after⟩
    · simp [OnTree.pure_apply, stops]
    · simp [OnTree.pure_apply]

/-- Compiling gets to a null character only in the path of the output. -/
theorem run_eq_nullCharacter_iff (noNull : source.holdsNull = false) :
    ((run precision source output : OnTree _) tree).1 = .error .nullCharacter ↔
      (∃ code, Translates precision source tree code) ∧ MeetsNull output tree := by
  by_cases made : ∃ code, Translates precision source tree code
  · obtain ⟨code, translates⟩ := made
    have made : ∃ code, Translates precision source tree code := ⟨code, translates⟩
    rw [run_of_translates output translates, ← writeOutput_eq_nullCharacter_iff output code]
    rcases (writeOutput output code : OnTree _) tree with ⟨stop | _, after⟩ <;> simp [made]
  · have read := sourceText_eq_nullCharacter_iff source tree
    simp only [made, false_and, iff_false]
    rw [run, OnTree.bind_apply]
    rcases sourceText_cases source tree with ⟨text, taken, reads⟩ | ⟨stop, taken, -⟩
    · rw [taken]
      dsimp only
      cases translated : CProgram.ofSource precision text with
      | error diagnostic => simp [OnTree.pure_apply]
      | ok code => exact absurd ⟨code, text, reads, translated⟩ made
    · rw [taken, noNull] at read
      rw [taken]
      simpa [OnTree.pure_apply] using read

end Compilation

namespace Settings

open Files Compilation

/-- The libraries fail only with the errors that they declare. -/
structure Library.OnlyDeclared (library : Library) : Prop where
  read : ∀ text error, library.read text ≠ .error (.foreign error)
  check : ∀ entries error, library.check entries ≠ .error (.foreign error)

def Undecodable (path : Path) (tree : FileTree) (fault : Text.Utf8.Fault) : Prop :=
  ∃ bytes, tree.readBytes path = .ok bytes ∧ Text.Utf8.decode bytes = .error fault

namespace Library

variable {library : Library} {path : Path} {tree : FileTree}

theorem OnlyDeclared.exists_failure_of_checkFile (declared : library.OnlyDeclared)
    {entries : List (library.Key × library.Value)} {stop : Stop library}
    (refused : library.checkFile path entries = .error stop) :
    ∃ failure, stop = .failure failure := by
  unfold checkFile at refused
  split at refused
  · cases refused
  · exact ⟨_, (Except.error.inj refused).symm⟩
  · next error raised => exact absurd raised (declared.check entries error)

/-- Reading settings from a text ends in settings or a report. -/
theorem OnlyDeclared.exists_failure_of_readFile (declared : library.OnlyDeclared) {text : String}
    {stop : Stop library} (refused : library.readFile path text = .error stop) :
    ∃ failure, stop = .failure failure := by
  unfold readFile at refused
  split at refused
  · exact ⟨_, (Except.error.inj refused).symm⟩
  · next error raised => exact absurd raised (declared.read text error)
  · exact declared.exists_failure_of_checkFile refused
  · exact declared.exists_failure_of_checkFile refused
  · exact ⟨_, (Except.error.inj refused).symm⟩

theorem load_apply (library : Library) (path : Path) (tree : FileTree) :
    (library.load path : OnTree _) tree =
      (match ((readText path : OnTree _) tree).1 with
        | .ok text => library.readFile path text
        | .error (.encoding fault) => .error (.encoding fault)
        | .error (.access .nullCharacter) => .error (.access .nullCharacter)
        | .error (.access (.system .missing _)) => .error (.failure (.missingFile path))
        | .error (.access fault) => .error (.failure (.unreadableFile path fault)), tree) := by
  have same : ((readText path : OnTree _) tree).2 = tree := by rw [readText_apply]
  rw [load, OnTree.bind_apply, same]
  split <;> simp_all [OnTree.pure_apply]

@[simp] theorem load_snd (library : Library) (path : Path) (tree : FileTree) :
    ((library.load path : OnTree (Except (Stop library) Settings)) tree).2 = tree := by
  rw [load_apply]

theorem load_eq_ok_iff {settings : Settings} :
    ((library.load path : OnTree _) tree).1 = .ok settings ↔
      ∃ text, Reads path tree text ∧ library.readFile path text = .ok settings := by
  simp only [← readText_eq_ok_iff, load_apply]
  split <;> simp_all

theorem find_apply (library : Library) (directory : Path) (tree : FileTree) :
    (library.find directory : OnTree _) tree =
      match tree.leadsTo (fun _ => true) (directory.child fileName) with
      | .error fault => (.error (.access fault), tree)
      | .ok false => (.ok default, tree)
      | .ok true => (library.load (directory.child fileName) : OnTree _) tree := by
  have search : (isThere (directory.child fileName) : OnTree _) tree =
      (tree.leadsTo (fun _ => true) (directory.child fileName), tree) := rfl
  rw [find, OnTree.bind_apply, search]
  rcases tree.leadsTo (fun _ => true) (directory.child fileName) with fault | _ | _ <;> rfl

/-- Loading settings ends without a report only if the file is no text. -/
theorem OnlyDeclared.load_eq_error_iff (declared : library.OnlyDeclared) {stop : Stop library}
    (noNull : path.holdsNull = false) (unreported : ∀ failure, stop ≠ .failure failure) :
    ((library.load path : OnTree _) tree).1 = .error stop ↔
      ∃ fault, stop = .encoding fault ∧ Undecodable path tree fault := by
  rw [load_apply]
  constructor
  · intro stopped
    dsimp only at stopped
    split at stopped
    · obtain ⟨failure, rfl⟩ := declared.exists_failure_of_readFile stopped
      exact absurd rfl (unreported failure)
    · next fault read =>
      exact ⟨fault, (Except.error.inj stopped).symm, readText_eq_encoding_iff.mp read⟩
    · next read =>
      rw [readText_eq_access_iff, tree.readBytes_eq_nullCharacter_iff, noNull] at read
      cases read
    · exact absurd (Except.error.inj stopped).symm (unreported _)
    · exact absurd (Except.error.inj stopped).symm (unreported _)
  · rintro ⟨fault, rfl, undecodable⟩
    rw [readText_eq_encoding_iff.mpr undecodable]

end Library

end Settings

end TeenyBasic
