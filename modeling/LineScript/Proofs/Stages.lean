import LineScript.Compilation

/-!
The stages of compilation.

A source text is accepted exactly when no stage reports an error, and what comes out is the program
that was read.  Whatever the stages report is added behind the diagnostics they were given, and only
errors among those can make a difference to them.
-/

set_option autoImplicit false

namespace LineScript

namespace Diagnostics

/-! ## Errors among diagnostics -/

private theorem hasError_append (before behind : Diagnostics) :
    (before ++ behind).hasError = (before.hasError || behind.hasError) := by
  unfold hasError
  exact List.any_append

/-- Diagnostics that are errors without exception. -/
def OnlyErrors (reported : Diagnostics) : Prop :=
  ∀ entry ∈ reported, entry.severity = .error

theorem OnlyErrors.append {before behind : Diagnostics} (first : before.OnlyErrors)
    (second : behind.OnlyErrors) : (before ++ behind).OnlyErrors :=
  List.forall_mem_append.mpr ⟨first, second⟩

theorem OnlyErrors.hasError_eq {reported : Diagnostics} (only : reported.OnlyErrors) :
    reported.hasError = !reported.isEmpty := by
  cases reported with
  | nil => rfl
  | cons entry others => simp [hasError, Diagnostic.isError, only entry List.mem_cons_self]

theorem OnlyErrors.errorCount_append {reported : Diagnostics} (only : reported.OnlyErrors)
    (prior : Diagnostics) :
    (prior ++ reported).errorCount = prior.errorCount + reported.length := by
  have all : reported.countP Diagnostic.isError = reported.length :=
    List.countP_eq_length.mpr fun entry member => by simp [Diagnostic.isError, only entry member]
  rw [errorCount, errorCount, List.countP_append, all]

/-- The number of errors never falls from stage to stage, so no difference is cut off at zero. -/
theorem OnlyErrors.errorsSince_append {reported : Diagnostics} (only : reported.OnlyErrors)
    (prior : Diagnostics) : (prior ++ reported).errorsSince prior = reported.length := by
  rw [errorsSince, only.errorCount_append, Nat.add_sub_cancel_left]

private theorem onlyErrors_lexical (errors : List LexicalError) :
    OnlyErrors (errors.map LexicalError.toDiagnostic) := by
  simp [OnlyErrors, LexicalError.toDiagnostic]

private theorem onlyErrors_grammar (errors : List GrammarError) :
    OnlyErrors (errors.map GrammarError.toDiagnostic) := by
  simp [OnlyErrors, GrammarError.toDiagnostic]

private theorem onlyErrors_runtime (errors : List RuntimeError) :
    OnlyErrors (errors.map RuntimeError.toDiagnostic) := by
  simp [OnlyErrors, RuntimeError.toDiagnostic]

end Diagnostics

/-! ## The stages behind scanning -/

open Diagnostics

/-- What the stages report on tokens if there is no error before: the errors of the first stage that
has any. -/
def stageReports (tokens : List Token) : Diagnostics :=
  if validate tokens = [] then
    if (Program.read tokens).2 = [] then
      (Program.read tokens).1.check.map RuntimeError.toDiagnostic
    else (Program.read tokens).2.map GrammarError.toDiagnostic
  else (validate tokens).map GrammarError.toDiagnostic

private theorem onlyErrors_stageReports (tokens : List Token) :
    (stageReports tokens).OnlyErrors := by
  unfold stageReports
  split
  · split
    · exact onlyErrors_runtime _
    · exact onlyErrors_grammar _
  · exact onlyErrors_grammar _

private theorem compileTokens_of_hasError {prior : Diagnostics} (failed : prior.hasError = true)
    (tokens : List Token) :
    compileTokens tokens prior =
      ⟨[], false, prior ++ (validate tokens).map GrammarError.toDiagnostic⟩ := by
  unfold compileTokens
  simp [hasError_append, failed]

private theorem compileTokens_of_clean {prior : Diagnostics} (clean : prior.hasError = false)
    (tokens : List Token) :
    compileTokens tokens prior =
      ⟨if validate tokens = [] then (Program.read tokens).1 else [],
        (stageReports tokens).isEmpty, prior ++ stageReports tokens⟩ := by
  unfold compileTokens stageReports
  dsimp only
  rw [(onlyErrors_grammar _).errorsSince_append, (onlyErrors_runtime _).errorsSince_append,
    hasError_append, hasError_append, hasError_append, clean,
    (onlyErrors_grammar _).hasError_eq, (onlyErrors_grammar _).hasError_eq]
  cases validate tokens with
  | cons error others => simp
  | nil =>
      cases (Program.read tokens).2 with
      | cons error others => simp
      | nil =>
          cases (Program.read tokens).1.check <;> simp

/-- What every stage behind scanning asks of the tokens of an accepted source. -/
structure PassesStages (tokens : List Token) : Prop where
  valid : validate tokens = []
  readClean : (Program.read tokens).2 = []
  checked : (Program.read tokens).1.check = []

private theorem passesStages_of_stageReports {tokens : List Token}
    (nothing : stageReports tokens = []) :
    PassesStages tokens := by
  unfold stageReports at nothing
  split at nothing
  · next valid =>
    split at nothing
    · next readClean => exact ⟨valid, readClean, List.map_eq_nil_iff.mp nothing⟩
    · next unread => exact absurd (List.map_eq_nil_iff.mp nothing) unread
  · next invalid => exact absurd (List.map_eq_nil_iff.mp nothing) invalid

private theorem compileTokens_accepted {tokens : List Token} {prior : Diagnostics}
    (accepted : (compileTokens tokens prior).accepted = true) :
    PassesStages tokens ∧ (compileTokens tokens prior).program = (Program.read tokens).1 := by
  cases clean : prior.hasError with
  | true =>
      rw [compileTokens_of_hasError clean] at accepted
      cases accepted
  | false =>
      rw [compileTokens_of_clean clean] at accepted ⊢
      have passes := passesStages_of_stageReports (List.isEmpty_iff.mp accepted)
      exact ⟨passes, if_pos passes.valid⟩

theorem compile_eq_some {source : String} {prior : Diagnostics} {program : Program}
    (accepted : (compile source prior).1 = some program) :
    PassesStages (Scan.ofText source).tokens ∧
      (Program.read (Scan.ofText source).tokens).1 = program := by
  unfold compile at accepted
  dsimp only at accepted
  split at accepted
  · next passed =>
    obtain ⟨passes, same⟩ := compileTokens_accepted passed
    rw [same] at accepted
    exact ⟨passes, Option.some.inj accepted⟩
  · cases accepted

/-- A source is accepted if no stage finds anything to report. -/
theorem compile_of_stages {source : String} {tokens : List Token} {program : Program}
    {prior : Diagnostics} (scanned : Scan.ofText source = ⟨tokens, []⟩)
    (clean : prior.hasError = false) (valid : validate tokens = [])
    (read : Program.read tokens = (program, [])) (checked : program.check = []) :
    (compile source prior).1 = some program := by
  have silent : stageReports tokens = [] := by
    simp [stageReports, valid, read, checked]
  have unchanged : prior ++ Scan.diagnostics ⟨tokens, []⟩ = prior := List.append_nil prior
  unfold compile
  simp only [scanned, unchanged, compileTokens_of_clean clean, silent, valid, read,
    List.isEmpty_nil, if_true]

/-! ## What is reported -/

/-- The stages add errors and nothing else, accept exactly if there is no error in the end, and look
at what was reported before only to see whether there is an error in it. -/
theorem compileTokens_appends (tokens : List Token) (prior : Diagnostics) :
    ∃ reported : Diagnostics, reported.OnlyErrors ∧
      ((compileTokens tokens prior).accepted = !(prior ++ reported).hasError) ∧
      ∀ other : Diagnostics, other.hasError = prior.hasError →
        compileTokens tokens other = ⟨(compileTokens tokens prior).program,
          (compileTokens tokens prior).accepted, other ++ reported⟩ := by
  cases clean : prior.hasError with
  | true =>
      rw [compileTokens_of_hasError clean]
      refine ⟨_, onlyErrors_grammar (validate tokens), ?_, fun other failed => ?_⟩
      · simp [hasError_append, clean]
      · exact compileTokens_of_hasError failed tokens
  | false =>
      rw [compileTokens_of_clean clean]
      refine ⟨_, onlyErrors_stageReports tokens, ?_, fun other clean => ?_⟩
      · simp [hasError_append, clean, (onlyErrors_stageReports tokens).hasError_eq]
      · exact compileTokens_of_clean clean tokens

/-- Compiling a source adds its errors, and nothing else, behind the diagnostics it is given, and
gives a program exactly if there is no error in the end.  Diagnostics without errors make no
difference to what is reported or returned. -/
theorem compile_appends (source : String) (prior : Diagnostics) :
    ∃ reported : Diagnostics, (compile source prior).2 = prior ++ reported ∧
      (∀ entry ∈ reported, entry.severity = .error) ∧
      (compile source prior).2.errorCount = prior.errorCount + reported.length ∧
      ((∃ program, (compile source prior).1 = some program) ↔
        (compile source prior).2.hasError = false) ∧
      (prior.hasError = false → compile source [] = ((compile source prior).1, reported)) := by
  obtain ⟨reported, only, verdict, same⟩ := compileTokens_appends (Scan.ofText source).tokens
    (prior ++ (Scan.ofText source).diagnostics)
  have compiled (other : Diagnostics)
      (alike : (other ++ (Scan.ofText source).diagnostics).hasError =
        (prior ++ (Scan.ofText source).diagnostics).hasError) :
      compile source other =
        ((compile source prior).1, other ++ ((Scan.ofText source).diagnostics ++ reported)) := by
    rw [compile, same _ alike, List.append_assoc]
    rfl
  have onlyErrors := (onlyErrors_lexical (Scan.ofText source).errors).append only
  have appended := congrArg Prod.snd (compiled prior rfl)
  refine ⟨_, appended, onlyErrors, ?_, ?_, fun clean => ?_⟩
  · rw [appended]
    exact onlyErrors.errorCount_append prior
  · rw [appended, ← List.append_assoc, compile]
    simp [verdict]
  · exact compiled [] (by simp [hasError_append, clean])

/-- A warning stays in front of the error that is found, and that error is the same without it. -/
theorem compile_behindWarning :
    hasError [⟨.warning, "unused value", some 3⟩] = false ∧
      (compile "+" []).2 = [⟨.error, "Expected expression, but found \"+\"", some 1⟩] ∧
      (compile "+" [⟨.warning, "unused value", some 3⟩]).2 =
        [⟨.warning, "unused value", some 3⟩,
          ⟨.error, "Expected expression, but found \"+\"", some 1⟩] := by
  have pieces : Lexeme.split ['+'] = [.token .plus none] := by
    rw [Lexeme.split, show Lexeme.first '+' [] = (.token .plus none, []) from rfl, Lexeme.split]
  have scanned : Scan.ofText "+" = ⟨[.plain .plus 1, .plain .inputEnd 1], []⟩ := by
    rw [Scan.ofText, show "+".toList = ['+'] from rfl, pieces]
    rfl
  have alone : (compile "+" []).2 =
      [⟨.error, "Expected expression, but found \"+\"", some 1⟩] := by
    rw [compile, scanned]
    decide +kernel
  obtain ⟨reported, appended, _, _, _, same⟩ :=
    compile_appends "+" [⟨.warning, "unused value", some 3⟩]
  obtain rfl : _ = reported := alone.symm.trans (congrArg Prod.snd (same rfl))
  exact ⟨rfl, alone, appended⟩

end LineScript
