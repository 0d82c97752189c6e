import Mathlib
import TeenyBasic.Compilation
import TeenyBasic.Files.Tree
import TeenyBasic.Proofs.Utf8Text

/-!
# What compiling a file changes

Making directories and writing a file are the only changes to a tree of files, and both happen
where a path leads.  So what a compilation does to a tree can be said place by place.  A success
makes directories on the way to the output file and puts the code there.  A failure leaves every
file as it was, unless the system takes only a part of the code (`CutsShort`): then the output file
is left with that part, and what was in it before is lost.
-/

namespace TeenyBasic

namespace Files

namespace FileTree

variable {tree before after : FileTree} {place target : List String} {entry : Entry}
  {names : List String} {path : Path} {bytes : List UInt8}

theorem follow_of_node {name : String} (ordinary : name ≠ "..")
    (short : ¬greatestName < name.utf8ByteSize)
    (found : tree.nodeAt? (place ++ [name]) = some entry) (names : List String) :
    tree.follow place .directory (name :: names) = tree.follow (place ++ [name]) entry names := by
  rw [follow]
  · simp only [if_neg short, found]
  · exact ordinary

/-- Nothing is where a path leads to nothing. -/
theorem nodeAt?_of_follow_vacant (leads : tree.follow place entry names = .vacant target) :
    target ≠ [] ∧ tree.nodeAt? target = none := by
  fun_induction follow tree place entry names with
  | case1 => cases leads
  | case2 => cases leads
  | case3 place names induction => exact induction leads
  | case4 => cases leads
  | case5 place name names _ _ next entry found induction => exact induction leads
  | case6 place name names _ _ next missing last =>
    obtain rfl := Location.vacant.inj leads
    exact ⟨by simp [next], missing⟩
  | case7 => cases leads

-- a file is reached by a name, never by the start of a path or by two dots
private theorem nodeAt?_of_follow_from
    (leads : tree.follow place entry names = .present target (.file bytes))
    (known : entry = .file bytes → tree.nodeAt? place = some (.file bytes)) :
    tree.nodeAt? target = some (.file bytes) := by
  fun_induction follow tree place entry names with
  | case1 place entry =>
    obtain ⟨rfl, rfl⟩ := Location.present.inj leads
    exact known rfl
  | case2 => cases leads
  | case3 place names induction => exact induction leads (by simp)
  | case4 => cases leads
  | case5 place name names _ _ next entry found induction =>
    exact induction leads fun same => same ▸ found
  | case6 => cases leads
  | case7 => cases leads

/-- A file is where a path leads to it. -/
theorem nodeAt?_of_follow_file
    (leads : tree.follow place .directory names = .present target (.file bytes)) :
    tree.nodeAt? target = some (.file bytes) :=
  nodeAt?_of_follow_from leads (by simp)

/-- All directories stay where they are. -/
structure KeepsDirectories (before after : FileTree) : Prop where
  working : after.working = before.working
  kept : ∀ place, before.nodeAt? place = some .directory → after.nodeAt? place = some .directory

private theorem KeepsDirectories.follow_directory (keeps : before.KeepsDirectories after)
    (leads : before.follow place entry names = .present target .directory) :
    after.follow place entry names = .present target .directory := by
  fun_induction follow before place entry names with
  | case1 => exact leads
  | case2 => cases leads
  | case3 place names induction =>
    rw [follow]
    exact induction leads
  | case4 => cases leads
  | case5 place name names ordinary short next entry found induction =>
    have inside : entry = .directory := by
      cases entry with
      | directory => rfl
      | file bytes => cases names <;> simp [follow] at leads
    subst inside
    rw [follow_of_node ordinary short (keeps.kept _ found)]
    exact induction leads
  | case6 => cases leads
  | case7 => cases leads

/-- A path that leads to a file, or to nothing, leads to what is put there. -/
theorem KeepsDirectories.follow_target (keeps : before.KeepsDirectories after)
    (leads : before.follow place .directory names = .vacant target ∨
      ∃ bytes, before.follow place .directory names = .present target (.file bytes))
    {new : Entry} (now : after.nodeAt? target = some new) :
    after.follow place .directory names = .present target new := by
  generalize inside : Entry.directory = entry at leads ⊢
  fun_induction follow before place entry names with
  | case1 =>
    subst inside
    rcases leads with leads | ⟨_, leads⟩ <;> cases leads
  | case2 => cases inside
  | case3 place names induction =>
    rw [follow]
    exact induction rfl leads
  | case4 => rcases leads with leads | ⟨_, leads⟩ <;> cases leads
  | case5 place name names ordinary short next entry found induction =>
    cases entry with
    | directory =>
      rw [follow_of_node ordinary short (keeps.kept _ found)]
      exact induction rfl leads
    | file old =>
      cases names with
      | nil =>
        rcases leads with leads | ⟨_, leads⟩
        · cases leads
        · obtain ⟨rfl, -⟩ := Location.present.inj leads
          rw [follow_of_node ordinary short now, follow]
      | cons => rcases leads with leads | ⟨_, leads⟩ <;> cases leads
  | case6 place name names ordinary short next missing last =>
    rcases leads with leads | ⟨_, leads⟩
    · obtain rfl := Location.vacant.inj leads
      obtain rfl := List.isEmpty_iff.mp (Bool.and_elim_left last)
      rw [follow_of_node ordinary short now, follow]
    · cases leads
  | case7 => rcases leads with leads | ⟨_, leads⟩ <;> cases leads

theorem KeepsDirectories.locate_directory (keeps : before.KeepsDirectories after)
    (leads : before.locate path = .present target .directory) :
    after.locate path = .present target .directory := by
  have start : after.startOf path = before.startOf path := by rw [startOf, keeps.working, startOf]
  unfold locate at leads ⊢
  split at leads
  · cases leads
  · next short =>
    rw [if_neg short, start]
    exact keeps.follow_directory leads

/-- The path leads to a file at a place, or to nothing that could be there. -/
def LeadsToTarget (tree : FileTree) (path : Path) (target : List String) : Prop :=
  tree.locate path = .vacant target ∨ ∃ bytes, tree.locate path = .present target (.file bytes)

theorem KeepsDirectories.locate_target (keeps : before.KeepsDirectories after)
    (leads : before.LeadsToTarget path target) {new : Entry}
    (now : after.nodeAt? target = some new) : after.locate path = .present target new := by
  have start : after.startOf path = before.startOf path := by rw [startOf, keeps.working, startOf]
  unfold LeadsToTarget locate at leads
  unfold locate
  split at leads
  · rcases leads with leads | ⟨_, leads⟩ <;> cases leads
  · next short =>
    rw [if_neg short, start]
    exact keeps.follow_target leads now

theorem nodeAt?_of_locate_vacant (leads : tree.locate path = .vacant target) :
    target ≠ [] ∧ tree.nodeAt? target = none := by
  unfold locate at leads
  split at leads
  · cases leads
  · exact nodeAt?_of_follow_vacant leads

private theorem nodeAt?_of_locate_file (leads : tree.locate path = .present target (.file bytes)) :
    tree.nodeAt? target = some (.file bytes) := by
  unfold locate at leads
  split at leads
  · cases leads
  · exact nodeAt?_of_follow_file leads

theorem LeadsToTarget.nodeAt?_cases (leads : tree.LeadsToTarget path target) :
    target ≠ [] ∧
      (tree.nodeAt? target = none ∨ ∃ bytes, tree.nodeAt? target = some (.file bytes)) := by
  rcases leads with leads | ⟨bytes, leads⟩
  · obtain ⟨below, missing⟩ := nodeAt?_of_locate_vacant leads
    exact ⟨below, .inl missing⟩
  · have found := nodeAt?_of_locate_file leads
    refine ⟨?_, .inr ⟨bytes, found⟩⟩
    rintro rfl
    cases found

theorem LeadsToTarget.keepsDirectories_set (leads : tree.LeadsToTarget path target) (new : Entry) :
    tree.KeepsDirectories (tree.set target new) where
  working := rfl
  kept place isDirectory := by
    obtain ⟨below, content⟩ := leads.nodeAt?_cases
    rw [nodeAt?_set tree below, if_neg]
    · exact isDirectory
    · rintro rfl
      rcases content with missing | ⟨bytes, found⟩ <;> simp_all

private theorem exists_place_of_makeDirectory (made : tree.makeDirectory path = .ok after) :
    ∃ place, tree.locate path = .vacant place ∧ after = tree.set place .directory := by
  unfold makeDirectory at made
  split at made
  · cases made
  · split at made
    · cases made
    · next place leads => exact ⟨place, leads, (Except.ok.inj made).symm⟩
    · cases made

/-- The system takes only a part of some bytes. -/
def CutsShort (tree : FileTree) (bytes : List UInt8) : Prop :=
  ∃ shortage ∈ tree.shortage, shortage.room < bytes.length

@[simp] theorem accept_of_not_cutsShort (fits : ¬tree.CutsShort bytes) :
    tree.accept bytes = (.ok (), bytes) := by
  unfold accept
  split
  · rfl
  · next shortage limited =>
    rw [if_pos]
    exact Nat.le_of_not_lt fun short => fits ⟨shortage, limited, short⟩

theorem accept_of_lt {shortage : Shortage} (limited : tree.shortage = some shortage)
    (short : shortage.room < bytes.length) :
    tree.accept bytes = (.error (.system shortage.fault none), bytes.take shortage.room) := by
  simp only [accept, limited]
  rw [if_neg (Nat.not_le.mpr short)]

/-- Writing changes nothing before the file is open. -/
theorem writeBytes_cases (tree : FileTree) (path : Path) (bytes : List UInt8) :
    (∃ fault, tree.writeBytes path bytes = (.error fault, tree)) ∨
    ∃ place, tree.LeadsToTarget path place ∧
      tree.writeBytes path bytes = tree.fill place bytes := by
  unfold writeBytes
  split
  · exact .inl ⟨_, rfl⟩
  · split
    · exact .inl ⟨_, rfl⟩
    · next place old leads => exact .inr ⟨place, .inr ⟨old, leads⟩, rfl⟩
    · next place leads => exact .inr ⟨place, .inl leads, rfl⟩
    · exact .inl ⟨_, rfl⟩

private theorem writeBytes_of_leadsToTarget (noNull : path.holdsNull = false)
    (leads : tree.LeadsToTarget path target) (bytes : List UInt8) :
    tree.writeBytes path bytes = tree.fill target bytes := by
  rcases leads with leads | ⟨old, leads⟩ <;> simp [writeBytes, noNull, leads]

/-- Nothing is lost, and all that is new are directories to which beginnings of a path lead. -/
structure OnlyMakes (path : Path) (before after : FileTree) : Prop where
  working : after.working = before.working
  shortage : after.shortage = before.shortage
  kept : ∀ place entry, before.nodeAt? place = some entry → after.nodeAt? place = some entry
  made : ∀ place entry, before.nodeAt? place = none → after.nodeAt? place = some entry →
    entry = .directory ∧
      ∃ count ≤ path.names.length, after.locate (path.upTo count) = .present place .directory

private theorem OnlyMakes.keepsDirectories (makes : OnlyMakes path before after) :
    before.KeepsDirectories after where
  working := makes.working
  kept place := makes.kept place .directory

theorem OnlyMakes.file_iff (makes : OnlyMakes path before after) (place : List String)
    (bytes : List UInt8) :
    after.nodeAt? place = some (.file bytes) ↔ before.nodeAt? place = some (.file bytes) := by
  refine ⟨fun found => ?_, makes.kept place _⟩
  cases old : before.nodeAt? place with
  | none => cases (makes.made place _ old found).1
  | some entry => rw [← makes.kept place entry old, found]

/-- A file is put where a path leads after directories were made. -/
theorem OnlyMakes.set_file {output : Path} (makes : OnlyMakes path before after)
    (leads : after.LeadsToTarget output target) (bytes : List UInt8) :
    (after.set target (.file bytes)).locate output = .present target (.file bytes) ∧
      (after.set target (.file bytes)).nodeAt? target = some (.file bytes) ∧
      ∀ other, other ≠ target →
        (after.set target (.file bytes)).nodeAt? other = before.nodeAt? other ∨
          before.nodeAt? other = none ∧
            (after.set target (.file bytes)).nodeAt? other = some .directory ∧
            ∃ count ≤ path.names.length,
              (after.set target (.file bytes)).locate (path.upTo count) =
                .present other .directory := by
  obtain ⟨below, -⟩ := leads.nodeAt?_cases
  have keeps := leads.keepsDirectories_set (.file bytes)
  have now : (after.set target (.file bytes)).nodeAt? target = some (.file bytes) := by
    rw [nodeAt?_set after below, if_pos rfl]
  refine ⟨keeps.locate_target leads now, now, fun other elsewhere => ?_⟩
  rw [nodeAt?_set after below, if_neg elsewhere]
  cases old : before.nodeAt? other with
  | some entry => exact .inl (makes.kept other entry old)
  | none =>
    cases new : after.nodeAt? other with
    | none => exact .inl rfl
    | some entry =>
      obtain ⟨rfl, count, bound, located⟩ := makes.made other entry old new
      exact .inr ⟨rfl, rfl, count, bound, keeps.locate_directory located⟩

theorem onlyMakes_refl (path : Path) (tree : FileTree) : OnlyMakes path tree tree where
  working := rfl
  shortage := rfl
  kept _ _ found := found
  made place entry missing found := by simp [missing] at found

theorem OnlyMakes.trans {middle : FileTree} (first : OnlyMakes path before middle)
    (second : OnlyMakes path middle after) : OnlyMakes path before after where
  working := second.working.trans first.working
  shortage := second.shortage.trans first.shortage
  kept place entry found := second.kept place entry (first.kept place entry found)
  made place entry missing found := by
    cases between : middle.nodeAt? place with
    | none => exact second.made place entry between found
    | some other =>
      obtain ⟨rfl, count, bound, leads⟩ := first.made place other missing between
      have same := second.kept place .directory between
      obtain rfl : Entry.directory = entry := Option.some.inj (same.symm.trans found)
      exact ⟨rfl, count, bound, second.keepsDirectories.locate_directory leads⟩

private theorem onlyMakes_set {count : Nat} (bound : count ≤ path.names.length)
    (leads : tree.locate (path.upTo count) = .vacant target) :
    OnlyMakes path tree (tree.set target .directory) := by
  obtain ⟨below, vacant⟩ := nodeAt?_of_locate_vacant leads
  have aim : tree.LeadsToTarget (path.upTo count) target := .inl leads
  have now : (tree.set target .directory).nodeAt? target = some .directory := by
    rw [nodeAt?_set tree below, if_pos rfl]
  refine ⟨rfl, rfl, ?_, ?_⟩
  · intro place entry found
    rw [nodeAt?_set tree below, if_neg]
    · exact found
    · rintro rfl
      simp [vacant] at found
  · intro place entry missing found
    rw [nodeAt?_set tree below] at found
    split at found
    · next same =>
      subst same
      obtain rfl := Option.some.inj found
      exact ⟨rfl, count, bound, (aim.keepsDirectories_set .directory).locate_target aim now⟩
    · simp [missing] at found

end FileTree

namespace OnTree

theorem bind_apply {α β : Type} (first : OnTree α) (next : α → OnTree β) (tree : FileTree) :
    (first >>= next) tree = next (first tree).1 (first tree).2 :=
  rfl

@[simp] theorem pure_apply {α : Type} (value : α) (tree : FileTree) :
    (pure value : OnTree α) tree = (value, tree) :=
  rfl

theorem change_eq {attempt : FileTree → Except AccessFault FileTree} {tree : FileTree} :
    change attempt tree =
      match attempt tree with
      | .ok changed => (.ok (), changed)
      | .error fault => (.error fault, tree) :=
  rfl

@[simp] theorem writeBytes_apply (path : Path) (bytes : List UInt8) (tree : FileTree) :
    (writeBytes path bytes : OnTree _) tree = tree.writeBytes path bytes :=
  rfl

@[simp] theorem isDirectory_apply (path : Path) (tree : FileTree) :
    (isDirectory path : OnTree _) tree = (tree.leadsTo FileTree.isDirectoryEntry path, tree) :=
  rfl

end OnTree

variable {path : Path} {tree : FileTree}

/-- Making sure of a directory makes it or changes nothing. -/
theorem ensureDirectory_cases (path : Path) (tree : FileTree) :
    (∃ place, tree.locate path = .vacant place ∧
      (ensureDirectory path : OnTree _) tree = (.ok (), tree.set place .directory)) ∨
    ((ensureDirectory path : OnTree _) tree).2 = tree := by
  rw [ensureDirectory, OnTree.bind_apply]
  have attempt : (makeDirectory path : OnTree _) tree = _ := OnTree.change_eq
  rw [attempt]
  cases made : tree.makeDirectory path with
  | ok after =>
    obtain ⟨place, leads, rfl⟩ := FileTree.exists_place_of_makeDirectory made
    exact .inl ⟨place, leads, rfl⟩
  | error fault =>
    right
    dsimp only
    split
    · rfl
    · rw [OnTree.bind_apply, OnTree.isDirectory_apply]
      rcases tree.leadsTo FileTree.isDirectoryEntry path with fault | _ | _ <;> rfl

theorem onlyMakes_ensureDirectory {count : Nat} (bound : count ≤ path.names.length)
    (tree : FileTree) :
    FileTree.OnlyMakes path tree
      ((ensureDirectory (path.upTo count) : OnTree (Except AccessFault Unit)) tree).2 := by
  rcases ensureDirectory_cases (path.upTo count) tree with ⟨place, leads, made⟩ | same
  · rw [made]
    exact FileTree.onlyMakes_set bound leads
  · rw [same]
    exact FileTree.onlyMakes_refl path tree

theorem Path.holdsNull_of_parent (held : path.parent.holdsNull = true) :
    path.holdsNull = true := by
  simp only [holdsNull, List.any_eq_true] at held ⊢
  obtain ⟨name, member, inside⟩ := held
  exact ⟨name, List.dropLast_subset _ member, inside⟩

/-- A directory that is there is left as it is. -/
theorem ensureDirectories_of_present {place : List String} (noNull : path.holdsNull = false)
    (leads : tree.locate path = .present place .directory) :
    (ensureDirectories path path.names.length : OnTree _) tree = (.ok (), tree) := by
  have whole : path.upTo path.names.length = path := by
    rw [Path.upTo, List.take_length]
  have refused : tree.makeDirectory path = .error (.system .alreadyThere (some path)) := by
    simp [FileTree.makeDirectory, noNull, leads]
  have isThere : tree.leadsTo FileTree.isDirectoryEntry path = .ok true := by
    simp [FileTree.leadsTo, noNull, leads, FileTree.isDirectoryEntry]
  have ensured : (ensureDirectory path : OnTree _) tree = (.ok (), tree) := by
    have attempt : (makeDirectory path : OnTree _) tree = _ := OnTree.change_eq
    rw [ensureDirectory, OnTree.bind_apply, attempt, refused]
    dsimp only
    rw [if_neg (by simp), OnTree.bind_apply, OnTree.isDirectory_apply, isThere]
    rfl
  generalize path.names.length = count at whole ⊢
  cases count with
  | zero => rw [ensureDirectories, whole, ensured]
  | succ count =>
    rw [ensureDirectories, OnTree.bind_apply, whole, ensured]
    rfl

private theorem onlyMakes_ensureDirectories (path : Path) {count : Nat}
    (bound : count ≤ path.names.length)
    (tree : FileTree) :
    FileTree.OnlyMakes path tree
      ((ensureDirectories path count : OnTree (Except AccessFault Unit)) tree).2 := by
  induction count generalizing tree with
  | zero => exact onlyMakes_ensureDirectory bound tree
  | succ count induction =>
    have first := onlyMakes_ensureDirectory bound tree
    rw [ensureDirectories, OnTree.bind_apply]
    generalize (ensureDirectory (path.upTo (count + 1)) : OnTree (Except AccessFault Unit)) tree =
      outcome at first ⊢
    obtain ⟨_ | _, middle⟩ := outcome
    · dsimp only
      split
      · have further := induction (by omega) middle
        rw [OnTree.bind_apply]
        generalize (ensureDirectories path count : OnTree (Except AccessFault Unit)) middle =
          outcome at further ⊢
        obtain ⟨_ | _, next⟩ := outcome
        · exact first.trans further
        · exact (first.trans further).trans (onlyMakes_ensureDirectory bound next)
      · exact first
    · exact first

end Files

namespace Compilation

open Files

variable {precision : Int} {source output : Path} {tree : FileTree} {code : String}

/-- The source file holds the bytes of a text that is the given one once its line ends are made
line feeds. -/
def Reads (source : Path) (tree : FileTree) (text : String) : Prop :=
  ∃ original, tree.readBytes source = .ok (Text.Utf8.encode original) ∧
    text = String.ofList (Text.unifyLineEnds original.toList)

def Translates (precision : Int) (source : Path) (tree : FileTree) (code : String) : Prop :=
  ∃ text, Reads source tree text ∧ CProgram.ofSource precision text = .ok code

theorem Reads.unique {text text' : String} (reads : Reads source tree text)
    (reads' : Reads source tree text') : text = text' := by
  obtain ⟨original, held, rfl⟩ := reads
  obtain ⟨original', held', rfl⟩ := reads'
  have same : Text.Utf8.encode original = Text.Utf8.encode original' :=
    Except.ok.inj (held.symm.trans held')
  have decoded := Text.Utf8.decode_eq_ok_iff.mpr same
  rw [Text.Utf8.decode_eq_ok_iff.mpr rfl] at decoded
  rw [Except.ok.inj decoded]

/-- Reading a source file changes nothing, and fails only if it holds no text. -/
theorem sourceText_cases (source : Path) (tree : FileTree) :
    (∃ text, (sourceText source : OnTree _) tree = (.ok text, tree) ∧ Reads source tree text) ∨
    ∃ stop, (sourceText source : OnTree _) tree = (.error stop, tree) ∧
      ∀ text, ¬Reads source tree text := by
  have readBytes_apply : (readBytes source : OnTree _) tree = (tree.readBytes source, tree) := rfl
  rw [sourceText, OnTree.bind_apply, readText, OnTree.bind_apply, readBytes_apply]
  cases held : tree.readBytes source with
  | error fault =>
    have unread (text : String) : ¬Reads source tree text := by
      rintro ⟨original, other, -⟩
      cases held.symm.trans other
    right
    rcases fault with _ | ⟨refusal, path⟩
    · exact ⟨_, rfl, unread⟩
    · cases refusal <;> exact ⟨_, rfl, unread⟩
  | ok bytes =>
    dsimp only [textOf]
    cases decoded : Text.Utf8.decode bytes with
    | ok original =>
      obtain rfl := Text.Utf8.decode_eq_ok_iff.mp decoded
      exact .inl ⟨_, rfl, original, held, rfl⟩
    | error fault =>
      refine .inr ⟨_, rfl, ?_⟩
      rintro text ⟨original, other, -⟩
      obtain rfl : bytes = Text.Utf8.encode original := Except.ok.inj (held.symm.trans other)
      cases decoded.symm.trans (Text.Utf8.decode_eq_ok_iff.mpr rfl)

/-- The end of an attempt of which only a part was written. -/
def cutStop (output : Path) (shortage : Shortage) : Stop :=
  .failure (.unwritableOutput output (.system shortage.fault none))

/-- What comes of writing a code to an output file: directories are made, and then the file is not
touched, or it holds the code, or it holds the part that there was room for. -/
inductive Writes (output : Path) (code : String) (tree : FileTree) :
    Except Stop Unit → FileTree → Prop
  | refused {middle : FileTree} (stop : Stop)
      (makes : FileTree.OnlyMakes output.parent tree middle) :
      Writes output code tree (.error stop) middle
  | whole {middle : FileTree} {place : List String}
      (makes : FileTree.OnlyMakes output.parent tree middle)
      (leads : middle.LeadsToTarget output place) :
      Writes output code tree (.ok ()) (middle.set place (.file (Text.Utf8.encode code)))
  | cut {middle : FileTree} {place : List String} {shortage : Shortage}
      (makes : FileTree.OnlyMakes output.parent tree middle)
      (leads : middle.LeadsToTarget output place) (limited : tree.shortage = some shortage)
      (short : shortage.room < (Text.Utf8.encode code).length) :
      Writes output code tree (.error (cutStop output shortage))
        (middle.set place (.file ((Text.Utf8.encode code).take shortage.room)))

private theorem writes_of_leadsToTarget {middle : FileTree} {place : List String}
    (makes : FileTree.OnlyMakes output.parent tree middle)
    (leads : middle.LeadsToTarget output place) (code : String) :
    Writes output code tree
      ((middle.fill place (Text.Utf8.encode code)).1.mapError (writeStop output))
      (middle.fill place (Text.Utf8.encode code)).2 := by
  by_cases cut : middle.CutsShort (Text.Utf8.encode code)
  · obtain ⟨shortage, limited, short⟩ := cut
    rw [FileTree.fill, FileTree.accept_of_lt limited short]
    exact .cut makes leads (makes.shortage.symm.trans limited) short
  · rw [FileTree.fill, FileTree.accept_of_not_cutsShort cut]
    exact .whole makes leads

theorem writeOutput_apply_of_made {middle : FileTree}
    (made : (ensureDirectories output.parent output.parent.names.length : OnTree _) tree =
      (.ok (), middle)) (code : String) :
    (writeOutput output code : OnTree _) tree =
      Prod.map (Except.mapError (writeStop output)) id
        (middle.writeBytes output (Text.Utf8.encode code)) := by
  rw [writeOutput, OnTree.bind_apply, made]
  dsimp only
  rw [OnTree.bind_apply, OnTree.writeBytes_apply]
  rcases middle.writeBytes output (Text.Utf8.encode code) with ⟨_ | _, after⟩ <;> rfl

private theorem writes_writeOutput (output : Path) (code : String) (tree : FileTree) :
    Writes output code tree ((writeOutput output code : OnTree _) tree).1
      ((writeOutput output code : OnTree _) tree).2 := by
  have makes := onlyMakes_ensureDirectories output.parent (Nat.le_refl _) tree
  cases made : (ensureDirectories output.parent output.parent.names.length :
      OnTree (Except AccessFault Unit)) tree with
  | mk result middle =>
    rw [made] at makes
    cases result with
    | error fault =>
      rw [writeOutput, OnTree.bind_apply, made]
      exact .refused _ makes
    | ok done =>
      rw [writeOutput_apply_of_made made]
      rcases middle.writeBytes_cases output (Text.Utf8.encode code) with
        ⟨fault, wrote⟩ | ⟨place, leads, wrote⟩
      · rw [wrote]
        exact .refused _ makes
      · rw [wrote]
        exact writes_of_leadsToTarget makes leads code

private theorem exists_stop_of_not_translates (output : Path)
    (unmade : ∀ code, ¬Translates precision source tree code) :
    ∃ stop, (run precision source output : OnTree _) tree = (.error stop, tree) := by
  rw [run, OnTree.bind_apply]
  rcases sourceText_cases source tree with ⟨text, read, reads⟩ | ⟨stop, read, -⟩
  · rw [read]
    dsimp only
    cases translated : CProgram.ofSource precision text with
    | error diagnostic => exact ⟨_, rfl⟩
    | ok code => exact absurd ⟨text, reads, translated⟩ (unmade code)
  · rw [read]
    exact ⟨stop, rfl⟩

theorem run_of_translates (output : Path) (translates : Translates precision source tree code) :
    (run precision source output : OnTree _) tree =
      match (writeOutput output code : OnTree _) tree with
      | (.error stop, after) => (.error stop, after)
      | (.ok (), after) => (.ok code, after) := by
  obtain ⟨text, reads, translated⟩ := translates
  rw [run, OnTree.bind_apply]
  rcases sourceText_cases source tree with ⟨other, read, reads'⟩ | ⟨stop, read, unread⟩
  · obtain rfl := reads'.unique reads
    rw [read]
    dsimp only
    rw [translated]
    dsimp only
    rw [OnTree.bind_apply]
    rcases (writeOutput output code : OnTree _) tree with ⟨stop | _, after⟩ <;> rfl
  · exact absurd reads (unread text)

/-- Nothing is written unless the source file was put into C. -/
theorem run_cases (precision : Int) (source output : Path) (tree : FileTree) :
    ((∀ code, ¬Translates precision source tree code) ∧
      ∃ stop, (run precision source output : OnTree _) tree = (.error stop, tree)) ∨
    ∃ code result after, Translates precision source tree code ∧
      Writes output code tree result after ∧
      (run precision source output : OnTree _) tree = (result.map fun _ => code, after) := by
  by_cases made : ∃ code, Translates precision source tree code
  · obtain ⟨code, translates⟩ := made
    refine .inr ⟨code, _, _, translates, writes_writeOutput output code tree, ?_⟩
    rw [run_of_translates output translates]
    rcases (writeOutput output code : OnTree _) tree with ⟨_ | _, after⟩ <;> rfl
  · have unmade : ∀ code, ¬Translates precision source tree code := not_exists.mp made
    exact .inl ⟨unmade, exists_stop_of_not_translates output unmade⟩

section InPlace

variable {place target : List String}

/-- Where no directory is to be made, code is written as the file is filled. -/
theorem run_of_leadsToTarget (noNull : output.holdsNull = false)
    (directory : tree.locate output.parent = .present place .directory)
    (leads : tree.LeadsToTarget output target)
    (translates : Translates precision source tree code) :
    (run precision source output : OnTree _) tree =
      Prod.map (fun result => (result.mapError (writeStop output)).map fun _ => code) id
        (tree.fill target (Text.Utf8.encode code)) := by
  have noNull' : output.parent.holdsNull = false := by
    refine Bool.eq_false_iff.mpr fun held => ?_
    exact Bool.false_ne_true (noNull.symm.trans (Path.holdsNull_of_parent held))
  rw [run_of_translates output translates,
    writeOutput_apply_of_made (ensureDirectories_of_present noNull' directory),
    FileTree.writeBytes_of_leadsToTarget noNull leads]
  rcases tree.fill target (Text.Utf8.encode code) with ⟨_ | _, after⟩ <;> rfl

/-- Code is written where nothing is in the way and there is room. -/
theorem run_of_room (noNull : output.holdsNull = false)
    (directory : tree.locate output.parent = .present place .directory)
    (leads : tree.LeadsToTarget output target)
    (translates : Translates precision source tree code)
    (fits : ¬tree.CutsShort (Text.Utf8.encode code)) :
    (run precision source output : OnTree _) tree =
      (.ok code, tree.set target (.file (Text.Utf8.encode code))) := by
  rw [run_of_leadsToTarget noNull directory leads translates, FileTree.fill,
    FileTree.accept_of_not_cutsShort fits]
  rfl

/-- Where there is no room for all of the code, the output file is left with a part of it. -/
theorem run_of_shortage {shortage : Shortage} (noNull : output.holdsNull = false)
    (directory : tree.locate output.parent = .present place .directory)
    (leads : tree.LeadsToTarget output target)
    (translates : Translates precision source tree code)
    (limited : tree.shortage = some shortage)
    (short : shortage.room < (Text.Utf8.encode code).length) :
    (run precision source output : OnTree _) tree =
      (.error (cutStop output shortage),
        tree.set target (.file ((Text.Utf8.encode code).take shortage.room))) := by
  rw [run_of_leadsToTarget noNull directory leads translates, FileTree.fill,
    FileTree.accept_of_lt limited short]
  rfl

end InPlace

theorem translates_of_run
    (ran : ((run precision source output : OnTree _) tree).1 = .ok code) :
    Translates precision source tree code := by
  rcases run_cases precision source output tree with
    ⟨-, stop, same⟩ | ⟨other, outcome, left, translates, writes, same⟩
  · rw [same] at ran
    cases ran
  · rw [same] at ran
    cases outcome with
    | error stop => cases ran
    | ok done =>
      obtain rfl := Except.ok.inj ran
      exact translates

theorem Writes.of_error {stop : Stop} {after : FileTree}
    (writes : Writes output code tree (.error stop) after) :
    FileTree.OnlyMakes output.parent tree after ∨
    ∃ target, tree.CutsShort (Text.Utf8.encode code) ∧
      ∃ bytes, after.locate output = .present target (.file bytes) ∧
        ∀ other, other ≠ target → ∀ bytes, after.nodeAt? other = some (.file bytes) ↔
          tree.nodeAt? other = some (.file bytes) := by
  cases writes with
  | refused _ makes => exact .inl makes
  | @cut middle target shortage makes leads limited short =>
    obtain ⟨located, -, others⟩ :=
      makes.set_file leads ((Text.Utf8.encode code).take shortage.room)
    refine .inr ⟨target, ⟨shortage, limited, short⟩, _, located, ?_⟩
    intro other elsewhere bytes
    rcases others other elsewhere with same | ⟨missing, made, -⟩
    · rw [same]
    · simp [missing, made]

namespace Sample

/-- The file ends its line in the way that needs to be unified. -/
def files : FileTree where
  entries := [(["p"], .file (Text.Utf8.encode "LABEL a\r\n"))]
  working := []

def labelFile : Path :=
  ⟨.working, ["p"]⟩

/-- There is no directory for the output yet. -/
def madeFile : Path :=
  ⟨.working, ["made", "p.c"]⟩

def labelCode : String :=
  "#include <stdio.h>\nint main(void) \x7b\na:;\nreturn 0;\n\x7d\n"

set_option maxRecDepth 10000 in
theorem run_files : ((run 2 labelFile madeFile : OnTree _) files).1 = .ok labelCode := by
  cbv

/-- The file next to an old output, on a system that takes no bytes. -/
def crammed : FileTree where
  entries := (["p.c"], .file (Text.Utf8.encode "old")) :: files.entries
  working := []
  shortage := some ⟨0, .other 28 "No space left on device"⟩

def oldFile : Path :=
  ⟨.working, ["p.c"]⟩

private theorem translates_crammed : Translates 2 labelFile crammed labelCode := by
  obtain ⟨text, ⟨original, held, unified⟩, translated⟩ := translates_of_run run_files
  exact ⟨text, ⟨original, held, unified⟩, translated⟩

end Sample

/-- What compiling a file changes.  A failure makes no more than directories, and not even these if
the source was not put into C; only if the system cuts the code short is the output file changed,
and no other file is.  A success gives the code of the source and changes nothing but that
directories to which the output's parent and its beginnings lead are made, and that the output file
holds the code.  If the source is put into C and nothing is in the way of the output, it is a
success where there is room for the code, and otherwise a failure after which the output file holds
the part that there was room for. -/
theorem run_frame {precision : Int} {source output : Path} {tree after : FileTree}
    {result : Except Stop String}
    (ran : (run precision source output : OnTree _) tree = (result, after)) :
    (∀ stop, result = .error stop →
      ((∀ code, ¬Translates precision source tree code) → after = tree) ∧
      ((∀ code, Translates precision source tree code →
          ¬tree.CutsShort (Text.Utf8.encode code)) →
        FileTree.OnlyMakes output.parent tree after ∧
        ∀ place bytes, after.nodeAt? place = some (.file bytes) ↔
          tree.nodeAt? place = some (.file bytes)) ∧
      ∀ place, (∀ bytes, after.locate output ≠ .present place (.file bytes)) →
        ∀ bytes, after.nodeAt? place = some (.file bytes) ↔
          tree.nodeAt? place = some (.file bytes)) ∧
    (∀ code, result = .ok code →
      Translates precision source tree code ∧
      ∃ place, after.locate output = .present place (.file (Text.Utf8.encode code)) ∧
        after.nodeAt? place = some (.file (Text.Utf8.encode code)) ∧
        ∀ other, other ≠ place → after.nodeAt? other = tree.nodeAt? other ∨
          tree.nodeAt? other = none ∧ after.nodeAt? other = some .directory ∧
            ∃ count ≤ output.parent.names.length,
              after.locate (output.parent.upTo count) = .present other .directory) ∧
    (∀ code place target, Translates precision source tree code → output.holdsNull = false →
      tree.locate output.parent = .present place .directory → tree.LeadsToTarget output target →
      (¬tree.CutsShort (Text.Utf8.encode code) →
        result = .ok code ∧ after = tree.set target (.file (Text.Utf8.encode code))) ∧
      ∀ shortage, tree.shortage = some shortage →
        shortage.room < (Text.Utf8.encode code).length →
        result = .error (cutStop output shortage) ∧
        after = tree.set target (.file ((Text.Utf8.encode code).take shortage.room))) := by
  refine ⟨?_, ?_, ?_⟩
  · rintro stop rfl
    rcases run_cases precision source output tree with
      ⟨-, other, same⟩ | ⟨code, outcome, left, translates, writes, same⟩
    · obtain ⟨-, rfl⟩ := Prod.mk.inj (ran.symm.trans same)
      exact ⟨fun _ => rfl, fun _ => ⟨FileTree.onlyMakes_refl _ _, fun _ _ => Iff.rfl⟩,
        fun _ _ _ => Iff.rfl⟩
    · obtain ⟨failed, rfl⟩ := Prod.mk.inj (ran.symm.trans same)
      cases outcome with
      | ok done => cases failed
      | error other =>
        refine ⟨fun unmade => absurd translates (unmade code), ?_⟩
        rcases writes.of_error with makes | ⟨target, cut, bytes, located, others⟩
        · exact ⟨fun _ => ⟨makes, makes.file_iff⟩, fun place _ => makes.file_iff place⟩
        · refine ⟨fun fits => absurd cut (fits code translates), ?_⟩
          intro place elsewhere
          apply others place
          rintro rfl
          exact elsewhere bytes located
  · rintro code rfl
    refine ⟨translates_of_run (congrArg Prod.fst ran), ?_⟩
    rcases run_cases precision source output tree with
      ⟨-, stop, same⟩ | ⟨other, outcome, left, -, writes, same⟩
    · cases (Prod.mk.inj (ran.symm.trans same)).1
    · obtain ⟨coded, rfl⟩ := Prod.mk.inj (ran.symm.trans same)
      cases writes with
      | refused => cases coded
      | cut => cases coded
      | whole makes leads =>
        obtain rfl := Except.ok.inj coded
        exact ⟨_, makes.set_file leads _⟩
  · intro code place target translates noNull directory leads
    constructor
    · intro fits
      exact Prod.mk.inj (ran.symm.trans (run_of_room noNull directory leads translates fits))
    · intro shortage limited short
      have cut := run_of_shortage noNull directory leads translates limited short
      exact Prod.mk.inj (ran.symm.trans cut)

theorem run_frame_files :
    ∃ after, (run 2 Sample.labelFile Sample.madeFile : OnTree _) Sample.files =
        (.ok Sample.labelCode, after) ∧
      Translates 2 Sample.labelFile Sample.files Sample.labelCode ∧
      ∃ place, after.locate Sample.madeFile =
        .present place (.file (Text.Utf8.encode Sample.labelCode)) := by
  have ran : (run 2 Sample.labelFile Sample.madeFile : OnTree _) Sample.files =
      (.ok Sample.labelCode, _) :=
    Prod.ext Sample.run_files rfl
  obtain ⟨translates, place, located, -, -⟩ := (run_frame ran).2.1 _ rfl
  exact ⟨_, ran, translates, place, located⟩

/-- A compilation that fails for want of room has emptied the output file. -/
theorem run_crammed :
    ∃ stop after, (run 2 Sample.labelFile Sample.oldFile : OnTree _) Sample.crammed =
        (.error stop, after) ∧
      Sample.crammed.nodeAt? ["p.c"] = some (.file (Text.Utf8.encode "old")) ∧
      after.nodeAt? ["p.c"] = some (.file []) := by
  have cut := @run_of_shortage 2 Sample.labelFile Sample.oldFile Sample.crammed Sample.labelCode []
    ["p.c"] ⟨0, .other 28 "No space left on device"⟩ rfl rfl (.inr ⟨_, rfl⟩)
    Sample.translates_crammed rfl (by decide)
  exact ⟨_, _, cut, rfl, rfl⟩

end Compilation

end TeenyBasic
