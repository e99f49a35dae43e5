import LineScript.Files.FileSystem
import LineScript.Proofs.Files.Names

/-!
Where paths lead in a file system, and what writing a file leaves as it was.

A path leads to a file only through a name at its end, since two dots and empty segments lead to
directories.  So two paths whose names differ never lead to the same file.
-/

set_option autoImplicit false

namespace LineScript

namespace FileSystem

variable {files : FileSystem}

/-! ## Entries -/

private theorem find?_insert_same {location : Location} (nonempty : location ≠ []) (entry : Entry) :
    (files.insert location entry).find? location = some entry := by
  cases location with
  | nil => exact absurd rfl nonempty
  | cons name names => simp [find?, insert]

private theorem find?_insert_of_ne {location other : Location} (different : other ≠ location)
    (entry : Entry) : (files.insert location entry).find? other = files.find? other := by
  cases other with
  | nil => rfl
  | cons name names =>
      have unequal : (name :: names == location) = false := beq_false_of_ne different
      simp [find?, insert, List.lookup_cons, unequal]

private theorem ne_nil_of_free {location : Location}
    (free : files.find? location ≠ some .directory) :
    location ≠ [] := by
  rintro rfl
  exact free rfl

private theorem find?_insert_of_free {location place : Location}
    (free : files.find? location ≠ some .directory) (content : ByteArray)
    (directory : files.find? place = some .directory) :
    (files.insert location (.file content)).find? place = some .directory := by
  have apart : place ≠ location := by
    rintro rfl
    exact free directory
  rw [find?_insert_of_ne apart, directory]

/-- Everything stands in a directory, so that two dots lead from a directory to one. -/
def IsTree (files : FileSystem) : Prop :=
  ∀ location entry, files.find? location = some entry →
    files.find? location.dropLast = some .directory

theorem isTree_empty (workingDirectory : String) : (empty workingDirectory).IsTree := by
  intro location entry found
  match location with
  | [] => rfl
  | [_] => rfl
  | first :: second :: names => simp [find?, empty, List.lookup_cons] at found

/-- A file put where there is no directory, in one that exists, keeps the tree. -/
theorem IsTree.insert_file (tree : files.IsTree) {location : Location} (content : ByteArray)
    (free : files.find? location ≠ some .directory)
    (inside : files.find? location.dropLast = some .directory) :
    (files.insert location (.file content)).IsTree := by
  intro place entry found
  by_cases same : place = location
  · rw [same]
    exact find?_insert_of_free free content inside
  · rw [find?_insert_of_ne same] at found
    exact find?_insert_of_free free content (tree place entry found)

/-! ## Ways -/

/-- Where a segment leads from a directory. -/
inductive Leads : Location → String → Location → Prop where
  | stays {location : Location} {segment : String} (dot : segment = "" ∨ segment = ".") :
      Leads location segment location
  | leaves {location : Location} : Leads location ".." location.dropLast
  | enters {location : Location} {segment : String} (isName : Path.IsName segment)
      (short : segment.utf8ByteSize ≤ nameLimit) : Leads location segment (location ++ [segment])

private theorem walk_cons_eq_ok {start location : Location} {segment : String}
    {others : List String} :
    files.walk start (segment :: others) = .ok location ↔
      files.find? start = some .directory ∧
        ∃ next, Leads start segment next ∧ files.walk next others = .ok location := by
  constructor
  · intro walked
    rw [walk] at walked
    split at walked
    · cases walked
    · cases walked
    · next directory =>
      refine ⟨directory, ?_⟩
      split at walked
      · next dot => exact ⟨start, .stays (by simpa using dot), walked⟩
      · next noDot =>
        split at walked
        · next dots =>
          subst dots
          exact ⟨_, .leaves, walked⟩
        · next noDots =>
          split at walked
          · cases walked
          · next short =>
            simp only [Bool.or_eq_true, decide_eq_true_eq, not_or] at noDot
            exact ⟨_, .enters ⟨noDot.1, noDot.2, noDots⟩ (Nat.le_of_not_lt short), walked⟩
  · rintro ⟨directory, next, leads, walked⟩
    cases leads with
    | stays dot => simpa [walk, directory, dot] using walked
    | leaves => simpa [walk, directory] using walked
    | enters isName short =>
        obtain ⟨nonempty, dot, dots⟩ := isName
        simpa [walk, directory, nonempty, dot, dots, Nat.not_lt.mpr short] using walked

/-- The last step of a way is made in a directory. -/
private theorem leads_of_walk_concat {start location : Location} {before : List String}
    {segment : String}
    (walked : files.walk start (before ++ [segment]) = .ok location) :
    ∃ place, files.find? place = some .directory ∧ Leads place segment location := by
  induction before generalizing start with
  | nil =>
      obtain ⟨directory, next, leads, ends⟩ := walk_cons_eq_ok.mp walked
      cases ends
      exact ⟨start, directory, leads⟩
  | cons first before ih =>
      obtain ⟨_, _, _, onward⟩ := walk_cons_eq_ok.mp walked
      exact ih onward

/-- A way that exists stays when a file is put where there is no directory. -/
private theorem walk_insert {start location place : Location} {segments : List String}
    (walked : files.walk start segments = .ok location)
    (free : files.find? place ≠ some .directory) (content : ByteArray) :
    (files.insert place (.file content)).walk start segments = .ok location := by
  induction segments generalizing start with
  | nil => exact walked
  | cons segment segments ih =>
      obtain ⟨directory, next, leads, onward⟩ := walk_cons_eq_ok.mp walked
      have kept := find?_insert_of_free free content directory
      exact walk_cons_eq_ok.mpr ⟨kept, next, leads, ih onward⟩

/-! ## Paths -/

/-- What a path has to be, whatever the files are. -/
def IsFit (path : String) : Prop :=
  '\x00' ∉ path.toList ∧ path ≠ "" ∧ path.utf8ByteSize ≤ pathLimit

theorem locate_eq_ok {path : String} {location : Location} :
    files.locate path = .ok location ↔ IsFit path ∧
      files.walk (files.origin path) (Path.segments path) = .ok location := by
  unfold locate follow IsFit
  split
  · next inside => simp [inside]
  · split
    · next empty => simp [empty]
    · split
      · next long => simp [Nat.not_le.mpr long]
      · next clean nonempty short => simp [clean, nonempty, Nat.le_of_not_lt short]

/-- In a tree a path that does not lead to a directory ends in the name of the place it leads to. -/
theorem locate_name (tree : files.IsTree) {path : String} {location : Location}
    (located : files.locate path = .ok location) (free : files.find? location ≠ some .directory) :
    ∃ before name place, Path.segments path = before ++ [name] ∧ Path.IsName name ∧
      files.find? place = some .directory ∧ location = place ++ [name] := by
  obtain ⟨_, walked⟩ := locate_eq_ok.mp located
  obtain empty | ⟨before, name, ends⟩ := List.eq_nil_or_concat (Path.segments path)
  · exact absurd empty (Path.segments_ne_nil path)
  · rw [List.concat_eq_append] at ends
    rw [ends] at walked
    obtain ⟨place, directory, leads⟩ := leads_of_walk_concat walked
    cases leads with
    | stays => exact absurd directory free
    | leaves => exact absurd (tree place .directory directory) free
    | enters isName => exact ⟨before, name, place, ends, isName, directory, rfl⟩

private theorem locate_insert {path : String} {location place : Location}
    (located : files.locate path = .ok location) (free : files.find? place ≠ some .directory)
    (content : ByteArray) :
    (files.insert place (.file content)).locate path = .ok location := by
  obtain ⟨fit, walked⟩ := locate_eq_ok.mp located
  exact locate_eq_ok.mpr ⟨fit, walk_insert walked free content⟩

private theorem lookup_located {path : String} {entry : Entry}
    (found : files.lookup path = .ok entry) :
    ∃ location, files.locate path = .ok location ∧ files.find? location = some entry := by
  unfold lookup at found
  split at found
  · cases found
  · next location located =>
    split at found
    · cases found
    · next standing =>
      cases found
      exact ⟨location, located, standing⟩

theorem lookup_of_located {path : String} {location : Location} {entry : Entry}
    (located : files.locate path = .ok location) (found : files.find? location = some entry) :
    files.lookup path = .ok entry := by
  simp [lookup, located, found]

theorem readText_of_lookup {path text : String}
    (found : files.lookup path = .ok (.file text.toUTF8)) : files.readText path = .ok text := by
  have valid : String.fromUTF8? text.toUTF8 = some text := dif_pos text.isValidUTF8
  simp only [readText, found, valid]

theorem readText_file {path text : String} (read : files.readText path = .ok text) :
    ∃ content, files.lookup path = .ok (.file content) := by
  unfold readText at read
  split at read
  · cases read
  · cases read
  · next content found => exact ⟨content, found⟩

/-! ## Writing -/

/-- The file at a path has a text, and whatever stands elsewhere is the same as before. -/
structure Replaced (path text : String) (files after : FileSystem) : Prop where
  content : after.lookup path = .ok (.file text.toUTF8)
  elsewhere : ∀ location, files.locate path ≠ .ok location →
    after.find? location = files.find? location
  workingDirectory : after.workingDirectory = files.workingDirectory

private theorem writeText_insert {path text : String} {after : FileSystem}
    (written : files.writeText path text = .ok after) :
    ∃ location, files.locate path = .ok location ∧ files.find? location ≠ some .directory ∧
      after = files.insert location (.file text.toUTF8) := by
  unfold writeText locateTarget at written
  split at written
  · cases written
  · next location located =>
    split at located
    · split at located <;> cases located
    · split at written
      · cases written
      · next free =>
        cases written
        exact ⟨location, located, free, rfl⟩

theorem replaced_of_writeText {path text : String} {after : FileSystem}
    (written : files.writeText path text = .ok after) : Replaced path text files after := by
  obtain ⟨location, located, free, rfl⟩ := writeText_insert written
  refine ⟨?_, fun other elsewhere => ?_, rfl⟩
  · exact lookup_of_located (locate_insert located free _)
      (find?_insert_same (ne_nil_of_free free) _)
  · refine find?_insert_of_ne (fun same => elsewhere ?_) _
    rw [same, located]

theorem IsTree.writeText (tree : files.IsTree) {path text : String} {after : FileSystem}
    (written : files.writeText path text = .ok after) : after.IsTree := by
  obtain ⟨location, located, free, rfl⟩ := writeText_insert written
  obtain ⟨_, name, place, _, _, directory, rfl⟩ := locate_name tree located free
  refine tree.insert_file _ free ?_
  rwa [List.dropLast_concat]

/-- A source and the program saved for it are different files: writing the one leaves the other. -/
theorem lookup_source_of_writeText (tree : files.IsTree) {path target source text : String}
    {after : FileSystem} (compiled : Path.compiled? path = some target)
    (read : files.readText path = .ok source)
    (written : files.writeText target text = .ok after) :
    after.lookup path = files.lookup path := by
  obtain ⟨content, found⟩ := readText_file read
  obtain ⟨location, located, standing⟩ := lookup_located found
  obtain ⟨savedLocation, savedLocated, free, rfl⟩ := writeText_insert written
  have apart : location ≠ savedLocation := by
    rintro rfl
    obtain ⟨_, name, _, ends, isName, _, same⟩ := locate_name tree located free
    obtain ⟨_, savedName, _, savedEnds, savedIsName, _, savedSame⟩ :=
      locate_name tree savedLocated free
    obtain rfl : name = savedName := by
      have lasts := congrArg List.getLast? (same.symm.trans savedSame)
      simpa using lasts
    have extension : Path.extension? path = some Path.savedExtension := by
      rw [Path.extension?, Path.splitName?_of_isName ends isName]
      exact Path.extension_of_compiled? compiled savedEnds savedIsName
    rw [Path.compiled?_eq_none_iff.mpr extension] at compiled
    cases compiled
  rw [found]
  exact lookup_of_located (locate_insert located free _)
    ((find?_insert_of_ne apart _).trans standing)

end FileSystem

end LineScript
