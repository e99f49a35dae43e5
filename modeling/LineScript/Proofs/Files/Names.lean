import LineScript.Files.Path

/-!
The names that paths end in.

The program compiled from a source is saved under the name of the source with another extension.  Of
both paths only the last segment counts for that: it never has the extension of saved programs in the
one, and always in the other.
-/

set_option autoImplicit false

namespace LineScript

namespace Path

/-! ## Segments -/

private theorem stretches_ne_nil (text : List Char) : stretches text ≠ [] := by
  fun_cases stretches text <;> simp

private theorem stretches_append_slash (before behind : List Char) :
    stretches (before ++ '/' :: behind) = stretches before ++ stretches behind := by
  induction before with
  | nil => simp [stretches]
  | cons character before ih =>
      by_cases slash : character = '/'
      · simp [stretches, slash, ih]
      · obtain ⟨first, following, same⟩ := List.exists_cons_of_ne_nil (stretches_ne_nil before)
        simp [stretches, slash, ih, same]

private theorem stretches_of_not_mem {text : List Char} (plain : '/' ∉ text) : stretches text =
    [text] := by
  induction text with
  | nil => rfl
  | cons character text ih =>
      simp only [List.mem_cons, not_or] at plain
      simp [stretches, ih plain.2, Ne.symm plain.1]

private theorem not_mem_of_mem_stretches {text : List Char} :
    ∀ stretch ∈ stretches text, '/' ∉ stretch := by
  induction text with
  | nil => simp [stretches]
  | cons character text ih =>
      by_cases slash : character = '/'
      · simpa [stretches, slash] using ih
      · obtain ⟨first, following, same⟩ := List.exists_cons_of_ne_nil (stretches_ne_nil text)
        rw [same] at ih
        simpa [stretches, slash, same, Ne.symm slash] using ih

theorem segments_ne_nil (path : String) : segments path ≠ [] := by
  simp [segments, stretches_ne_nil]

private theorem not_mem_of_mem_segments {path segment : String} (member : segment ∈ segments path) :
    '/' ∉ segment.toList := by
  obtain ⟨stretch, inside, rfl⟩ := List.mem_map.mp member
  rw [String.toList_ofList]
  exact not_mem_of_mem_stretches stretch inside

/-- A name put behind others with slashes between them is the last segment. -/
private theorem getLast?_segments_intercalate (before : List String) {name : String}
    (plain : '/' ∉ name.toList) :
    (segments ("/".intercalate (before ++ [name]))).getLast? = some name := by
  rw [segments, String.toList_intercalate, show "/".toList = ['/'] from rfl, List.map_append,
    List.map_singleton, List.getLast?_map]
  induction before with
  | nil => simp [stretches_of_not_mem plain]
  | cons first before ih =>
      rw [List.map_cons, List.cons_append, List.intercalate_cons_of_ne_nil (by simp),
        List.append_assoc, List.singleton_append, stretches_append_slash, List.getLast?_append,
        Option.map_or, ih]
      rfl

/-! ## Names of files -/

/-- A segment that leads into the directory it is used in: it is not empty and not made of one or two
dots. -/
def IsName (segment : String) : Prop :=
  segment ≠ "" ∧ segment ≠ "." ∧ segment ≠ ".."

theorem splitName?_of_isName {path name : String} {before : List String}
    (ends : segments path = before ++ [name]) (isName : IsName name) :
    splitName? path = some (before, name) := by
  obtain ⟨nonempty, dot, dots⟩ := isName
  simp [splitName?, ends, nonempty, dot, dots]

private theorem of_splitName? {path name : String} {before : List String}
    (split : splitName? path = some (before, name)) : name ≠ "" ∧ '/' ∉ name.toList := by
  unfold splitName? at split
  split at split
  · cases split
  · next last others dropped =>
    split at split
    · cases split
    · cases split
      have member : name ∈ segments path := by
        have inside : name ∈ name :: others := List.mem_cons_self
        rw [← dropped] at inside
        exact List.mem_reverse.mp ((List.dropWhile_sublist _).mem inside)
      refine ⟨?_, not_mem_of_mem_segments member⟩
      rintro rfl
      have stops := List.head?_dropWhile_not (fun segment => segment = "" || segment = ".")
        (segments path).reverse
      rw [dropped] at stops
      simp at stops

/-! ## Extensions -/

private theorem splitExtension_of_dot {stem extension : List Char} (nonempty : stem ≠ [])
    (plain : '.' ∉ extension) :
    splitExtension (String.ofList (stem ++ '.' :: extension)) =
      (String.ofList stem, some (String.ofList extension)) := by
  have inside : ∀ character ∈ extension.reverse, (character != '.') = true := by
    intro character member
    rw [bne_iff_ne]
    rintro rfl
    exact plain (List.mem_reverse.mp member)
  obtain ⟨last, others, same⟩ := List.exists_cons_of_ne_nil (List.reverse_ne_nil_iff.mpr nonempty)
  simp only [splitExtension, String.toList_ofList, List.reverse_append, List.reverse_cons,
    List.append_assoc, List.singleton_append]
  rw [List.dropWhile_append_of_pos inside, List.takeWhile_append_of_pos inside]
  simp [same, ← List.reverse_eq_iff.mp same]

private theorem splitExtension_cases (name : String) :
    splitExtension name = (name, none) ∨
      ∃ stem extension, stem ≠ [] ∧ name.toList = stem ++ '.' :: extension ∧
        splitExtension name = (String.ofList stem, some (String.ofList extension)) := by
  unfold splitExtension
  dsimp only
  split
  · exact .inl rfl
  · exact .inl rfl
  · next dot stem several dropped =>
    have isDot : dot = '.' := by
      have stops := List.head?_dropWhile_not (· != '.') name.toList.reverse
      rw [dropped] at stops
      simpa using stops
    have both := @List.takeWhile_append_dropWhile _ (· != '.') name.toList.reverse
    rw [dropped, isDot] at both
    refine .inr ⟨stem.reverse, _, ?_, ?_, rfl⟩
    · intro empty
      exact several (List.reverse_eq_nil_iff.mp empty)
    · simpa using (congrArg List.reverse both).symm

private theorem splitExtension_renamed {name : String} (nonempty : name ≠ "") :
    (splitExtension ((splitExtension name).1 ++ "." ++ savedExtension)).2 = some savedExtension := by
  have stem : (splitExtension name).1.toList ≠ [] := by
    rcases splitExtension_cases name with same | ⟨stem, extension, stemNonempty, _, same⟩
    · simpa [same] using nonempty
    · simpa [same] using stemNonempty
  have text : (splitExtension name).1 ++ "." ++ savedExtension =
      String.ofList ((splitExtension name).1.toList ++ '.' :: savedExtension.toList) := by
    apply String.toList_inj.mp
    simp
  rw [text, splitExtension_of_dot stem (by decide)]
  simp only [String.ofList_toList]

private theorem not_mem_renamed {name : String} (plain : '/' ∉ name.toList) :
    '/' ∉ ((splitExtension name).1 ++ "." ++ savedExtension).toList := by
  have stem : '/' ∉ (splitExtension name).1.toList := by
    rcases splitExtension_cases name with same | ⟨stem, extension, _, text, same⟩
    · rwa [same]
    · rw [same, String.toList_ofList]
      rw [text] at plain
      exact fun member => plain (List.mem_append_left _ member)
  simp [stem, savedExtension]

/-! ## Saved programs -/

theorem compiled?_eq_none_iff {path : String} :
    compiled? path = none ↔ extension? path = some savedExtension := by
  unfold compiled?
  cases extension? path with
  | none => simp
  | some extension => simp

private theorem compiled?_eq_setExtension {path target : String}
    (compiled : compiled? path = some target) :
    ∃ cut, target = setExtension savedExtension cut := by
  unfold compiled? at compiled
  split at compiled
  · exact ⟨_, (Option.some.inj compiled).symm⟩
  · split at compiled
    · cases compiled
    · exact ⟨_, (Option.some.inj compiled).symm⟩

/-- A program is saved under a name with the extension of saved programs, if it is saved under a name
at all. -/
theorem extension_of_compiled? {path target name : String} {before : List String}
    (compiled : compiled? path = some target) (ends : segments target = before ++ [name])
    (isName : IsName name) : (splitExtension name).2 = some savedExtension := by
  obtain ⟨cut, rfl⟩ := compiled?_eq_setExtension compiled
  have named := splitName?_of_isName ends isName
  unfold setExtension at ends named
  cases split : splitName? cut with
  | none =>
      rw [split] at named
      simp [split] at named
  | some parts =>
      obtain ⟨nonempty, plain⟩ := of_splitName? split
      rw [split] at ends
      have last := getLast?_segments_intercalate parts.1 (not_mem_renamed plain)
      rw [ends, List.getLast?_concat] at last
      obtain rfl := Option.some.inj last
      exact splitExtension_renamed nonempty

end Path

end LineScript
