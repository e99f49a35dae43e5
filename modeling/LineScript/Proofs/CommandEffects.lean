import LineScript.Command
import LineScript.Proofs.Files.Locations
import LineScript.Proofs.Saved.RoundTrip
import Mathlib.Data.List.Permutation

/-!
What a command does to the files, and when it succeeds.

The two steps of a command are described by what has to hold for them to succeed.  A step that does
not succeed leaves all files as they were, and running a program leaves them in any case.
-/

set_option autoImplicit false

namespace LineScript

/-! ## Access in memory -/

namespace FileSystem

variable {files after : FileSystem}

private theorem run_bind {Result Next : Type} {action : StateM FileSystem Result} {result : Result}
    (ran : action.run files = (result, after)) (next : Result → StateM FileSystem Next) :
    (action >>= next).run files = (next result).run after := by
  rw [StateT.run_bind, ran]
  rfl

private theorem run_pathExists (path : String) :
    (FileAccess.pathExists path : StateM FileSystem Bool).run files =
      (files.pathExists path, files) :=
  rfl

private theorem run_readText (path : String) :
    (FileAccess.readText path : StateM FileSystem (Except AccessFault String)).run files =
      (files.readText path, files) :=
  rfl

private theorem run_writeText_ok {path text : String}
    (written : files.writeText path text = .ok after) :
    (FileAccess.writeText path text : StateM FileSystem (Except AccessFault Unit)).run files =
      (.ok (), after) := by
  simp only [FileAccess.writeText, StateT.run, written]

private theorem run_writeText_error {path text : String} {fault : AccessFault}
    (refused : files.writeText path text = .error fault) :
    (FileAccess.writeText path text : StateM FileSystem (Except AccessFault Unit)).run files =
      (.error fault, files) := by
  simp only [FileAccess.writeText, StateT.run, refused]

private theorem pathExists_of_readText {path text : String}
    (read : files.readText path = .ok text) :
    files.pathExists path = true := by
  obtain ⟨content, found⟩ := readText_file read
  rw [pathExists, found]
  rfl

end FileSystem

namespace Command

open FileSystem

variable {files after : FileSystem} {path target : String} {program : Program}

/-! ## Steps -/

/-- With neither flag both steps are selected. -/
def SelectsCompile (command : Command) : Prop :=
  command.compile = true ∨ command.run = false

def SelectsRun (command : Command) : Prop :=
  command.run = true ∨ command.compile = false

/-- A path leads to a source that compiles to a program. -/
def Accepts (files : FileSystem) (path : String) (program : Program) : Prop :=
  ∃ source, files.readText path = .ok source ∧ (LineScript.compile source []).1 = some program

/-- A source is compiled and the program saved. -/
structure Compiles (files : FileSystem) (path target : String) (program : Program)
    (after : FileSystem) : Prop where
  place : Path.compiled? path = some target
  accepted : Accepts files path program
  saved : files.writeText target (Saved.text program) = .ok after

theorem Accepts.unique {other : Program} (accepted : Accepts files path program)
    (again : Accepts files path other) : program = other := by
  obtain ⟨source, read, compiled⟩ := accepted
  obtain ⟨_, readAgain, compiledAgain⟩ := again
  cases read.symm.trans readAgain
  exact Option.some.inj (compiled.symm.trans compiledAgain)

theorem Compiles.unique {otherTarget : String} {otherProgram : Program} {otherAfter : FileSystem}
    (step : Compiles files path target program after)
    (again : Compiles files path otherTarget otherProgram otherAfter) :
    target = otherTarget ∧ program = otherProgram ∧ after = otherAfter := by
  obtain rfl := Option.some.inj (step.place.symm.trans again.place)
  obtain rfl := step.accepted.unique again.accepted
  exact ⟨rfl, rfl, Except.ok.inj (step.saved.symm.trans again.saved)⟩

/-- A saved program is loaded and runs to its end. -/
def Runs (passLimit : Nat) (files : FileSystem) (path : String) : Prop :=
  ∃ text program sink, files.readText path = .ok text ∧ Saved.readText text = .ok program ∧
    program.execute passLimit .unbounded = (.completed, sink)

private theorem run_save_ok (saved : files.writeText target (Saved.text program) = .ok after) :
    (Saved.save target program : StateM FileSystem _).run files = (.ok (), after) := by
  rw [Saved.save, run_bind (run_writeText_ok saved)]
  rfl

private theorem run_save_error {fault : AccessFault}
    (refused : files.writeText target (Saved.text program) = .error fault) :
    (Saved.save target program : StateM FileSystem _).run files =
      (.error (.inaccessible target fault), files) := by
  rw [Saved.save, run_bind (run_writeText_error refused)]
  rfl

/-- The step that compiles succeeds where it can, and otherwise changes nothing. -/
theorem compileFile_run (files : FileSystem) (path : String) :
    (∃ target program after, Compiles files path target program after ∧
        (compileFile path : StateM FileSystem _).run files = (.ok target, after)) ∨
      (∀ target program after, ¬Compiles files path target program after) ∧
        ∃ report : Report, report.status ≠ 0 ∧
          (compileFile path : StateM FileSystem _).run files = (.error report, files) := by
  unfold compileFile
  cases place : Path.compiled? path with
  | none =>
      refine .inr ⟨fun target program after step => ?_, _, Nat.one_ne_zero, rfl⟩
      cases place.symm.trans step.place
  | some target =>
      dsimp only
      rw [run_bind (run_readText path)]
      cases read : files.readText path with
      | error fault =>
          refine .inr ⟨fun target program after step => ?_, _, Nat.one_ne_zero, rfl⟩
          obtain ⟨source, readable, _⟩ := step.accepted
          cases read.symm.trans readable
      | ok source =>
          dsimp only
          split
          · next diagnostics rejected =>
            refine .inr ⟨fun target program after step => ?_, _, Nat.one_ne_zero, rfl⟩
            obtain ⟨_, readable, accepted⟩ := step.accepted
            cases read.symm.trans readable
            rw [rejected] at accepted
            cases accepted
          · next program diagnostics compiled =>
            have accepted : Accepts files path program := ⟨source, read, by rw [compiled]⟩
            cases saved : files.writeText target (Saved.text program) with
            | error fault =>
                rw [run_bind (run_save_error saved)]
                refine .inr ⟨fun other another after step => ?_, _, Nat.one_ne_zero, rfl⟩
                cases place.symm.trans step.place
                obtain rfl := accepted.unique step.accepted
                cases saved.symm.trans step.saved
            | ok after =>
                rw [run_bind (run_save_ok saved)]
                exact .inl ⟨target, program, after, ⟨place, accepted, saved⟩, rfl⟩

private theorem run_load (files : FileSystem) (path : String) :
    ∃ result : Except Saved.StoreError Program,
      (Saved.load path : StateM FileSystem _).run files = (result, files) ∧
        ∀ program, result = .ok program ↔
          ∃ text, files.readText path = .ok text ∧ Saved.readText text = .ok program := by
  rw [Saved.load, run_bind (run_readText path)]
  cases read : files.readText path with
  | error fault => exact ⟨_, rfl, by simp⟩
  | ok text =>
      dsimp only
      cases loaded : Saved.readText text with
      | error error => exact ⟨_, rfl, by simp [loaded]⟩
      | ok program => exact ⟨_, rfl, by simp [loaded]⟩

/-- The step that runs changes nothing. -/
theorem runFile_run (passLimit : Nat) (files : FileSystem) (path : String) :
    ∃ report : Report, (report.status = 0 ↔ Runs passLimit files path) ∧
      (runFile passLimit path : StateM FileSystem Report).run files = (report, files) := by
  obtain ⟨result, ran, loads⟩ := run_load files path
  have runs : Runs passLimit files path ↔ ∃ program sink, result = .ok program ∧
      program.execute passLimit .unbounded = (.completed, sink) := by
    simp only [loads, Runs]
    exact ⟨fun ⟨text, program, sink, read, loaded, completed⟩ =>
        ⟨program, sink, ⟨text, read, loaded⟩, completed⟩,
      fun ⟨program, sink, ⟨text, read, loaded⟩, completed⟩ =>
        ⟨text, program, sink, read, loaded, completed⟩⟩
  rw [runFile, run_bind ran, runs]
  cases result with
  | error error => exact ⟨_, by simp [Report.failure], rfl⟩
  | ok program =>
      dsimp only
      split
      · next sink completed => exact ⟨_, by simp [completed], rfl⟩
      · next error sink failed => exact ⟨_, by simp [failed, Report.diagnosed], rfl⟩
      · next sink unfinished => exact ⟨_, by simp [unfinished], rfl⟩

/-! ## Commands -/

/-- The report of a command on a file system in memory, and the files after it. -/
def performed (passLimit : Nat) (command : Command) (files : FileSystem) : Report × FileSystem :=
  (command.perform passLimit : StateM FileSystem Report).run files

/-- The path of a command exists and every selected step succeeds, the one that runs after the one
that compiles. -/
structure Succeeds (passLimit : Nat) (command : Command) (files after : FileSystem) : Prop where
  pathExists : files.pathExists command.path = true
  compiles : command.SelectsCompile → ∃ target program,
    Compiles files command.path target program after ∧
      (command.SelectsRun → Runs passLimit after target)
  runs : ¬command.SelectsCompile → Runs passLimit files command.path

/-- What a command leaves behind. -/
structure Effects (passLimit : Nat) (command : Command) (files : FileSystem) (report : Report)
    (after : FileSystem) : Prop where
  /-- So that another command can follow. -/
  tree : after.IsTree
  pathKept : after.lookup command.path = files.lookup command.path
  /-- The step that compiles replaces the one file it saves; without it no file is different. -/
  changes :
    (∃ target program, command.SelectsCompile ∧ Compiles files command.path target program after ∧
        Replaced target (Saved.text program) files after) ∨
      after = files ∧ ∀ target program saved, command.SelectsCompile →
        ¬Compiles files command.path target program saved
  unchanged :
    files.pathExists command.path = false ∨
        Path.extension? command.path = some Path.savedExtension ∨
        (∀ program, ¬Accepts files command.path program) ∨ ¬command.SelectsCompile →
      after = files
  success : report.status = 0 ↔ Succeeds passLimit command files after

theorem selectsCompile_iff (command : Command) :
    (command.compile || !command.run) = true ↔ command.SelectsCompile := by
  simp [SelectsCompile]

theorem selectsRun_iff (command : Command) :
    (command.run || !command.compile) = true ↔ command.SelectsRun := by
  simp [SelectsRun]

theorem Compiles.pathExists (step : Compiles files path target program after) :
    files.pathExists path = true := by
  obtain ⟨source, read, _⟩ := step.accepted
  exact pathExists_of_readText read

/-- A command that saves nothing leaves the files, and its status tells only of running. -/
theorem Effects.of_same (tree : files.IsTree) {passLimit : Nat} {command : Command}
    {report : Report}
    (fails : ∀ target program saved, command.SelectsCompile →
      ¬Compiles files command.path target program saved)
    (success : report.status = 0 ↔ files.pathExists command.path = true ∧
      ¬command.SelectsCompile ∧ Runs passLimit files command.path) :
    Effects passLimit command files report files where
  tree := tree
  pathKept := rfl
  changes := .inr ⟨rfl, fails⟩
  unchanged _ := rfl
  success := by
    rw [success]
    constructor
    · rintro ⟨pathExists, unselected, runs⟩
      exact ⟨pathExists, fun selected => absurd selected unselected, fun _ => runs⟩
    · rintro ⟨pathExists, compiles, runs⟩
      have unselected : ¬command.SelectsCompile := by
        intro selected
        obtain ⟨target, program, step, _⟩ := compiles selected
        exact fails target program files selected step
      exact ⟨pathExists, unselected, runs unselected⟩

/-- A command that saves a program replaces one file, which is not the one its path leads to. -/
theorem Effects.of_compiles (tree : files.IsTree) {passLimit : Nat} {command : Command}
    {report : Report} (selected : command.SelectsCompile)
    (step : Compiles files command.path target program after)
    (success : report.status = 0 ↔ (command.SelectsRun → Runs passLimit after target)) :
    Effects passLimit command files report after where
  tree := tree.writeText step.saved
  pathKept := by
    obtain ⟨source, read, _⟩ := step.accepted
    exact lookup_source_of_writeText tree step.place read step.saved
  changes := .inl ⟨target, program, selected, step, replaced_of_writeText step.saved⟩
  unchanged := by
    rintro (missing | extension | rejected | unselected)
    · exact absurd step.pathExists (by simp [missing])
    · cases step.place.symm.trans (Path.compiled?_eq_none_iff.mpr extension)
    · exact absurd step.accepted (rejected program)
    · exact absurd selected unselected
  success := by
    rw [success]
    constructor
    · intro runs
      exact ⟨step.pathExists, fun _ => ⟨target, program, step, runs⟩,
        fun unselected => absurd selected unselected⟩
    · rintro ⟨_, compiles, _⟩
      obtain ⟨_, _, again, runs⟩ := compiles selected
      obtain ⟨rfl, _, _⟩ := step.unique again
      exact runs

/-- A command keeps what its path leads to and changes at most the file where the program compiled
from it is saved, and its status is success exactly if every selected step succeeds. -/
theorem performed_effects (passLimit : Nat) (command : Command) {files : FileSystem}
    (tree : files.IsTree) :
    Effects passLimit command files (performed passLimit command files).1
      (performed passLimit command files).2 := by
  rw [performed, perform, run_bind (run_pathExists command.path)]
  cases pathExists : files.pathExists command.path with
  | false =>
      refine .of_same tree (fun target program saved _ step => ?_) ?_
      · simp [step.pathExists] at pathExists
      · exact iff_of_false Nat.one_ne_zero (by simp [pathExists])
  | true =>
      rw [if_pos rfl]
      by_cases selected : command.SelectsCompile
      · rw [if_pos ((selectsCompile_iff command).mpr selected)]
        obtain ⟨target, program, after, step, ran⟩ | ⟨fails, report, failed, ran⟩ :=
          compileFile_run files command.path
        · rw [run_bind ran]
          dsimp only
          by_cases onward : command.SelectsRun
          · rw [if_pos ((selectsRun_iff command).mpr onward)]
            obtain ⟨report, success, finished⟩ := runFile_run passLimit after target
            rw [finished]
            exact .of_compiles tree selected step (by simp [success, onward])
          · rw [if_neg (mt (selectsRun_iff command).mp onward)]
            refine .of_compiles tree selected step ?_
            exact ⟨fun _ chosen => absurd chosen onward, fun _ => rfl⟩
        · rw [run_bind ran]
          refine .of_same tree (fun target program saved _ => fails target program saved) ?_
          exact ⟨fun succeeded => absurd succeeded failed,
            fun reached => absurd selected reached.2.1⟩
      · rw [if_neg (mt (selectsCompile_iff command).mp selected)]
        obtain ⟨report, success, finished⟩ := runFile_run passLimit files command.path
        rw [finished]
        refine .of_same tree (fun _ _ _ chosen => absurd chosen selected) ?_
        rw [success]
        exact ⟨fun runs => ⟨pathExists, selected, runs⟩, fun reached => reached.2.2⟩

/-- A working directory with one source in it. -/
def noteFiles : FileSystem :=
  (FileSystem.empty "work").insert ["work", "notes.v2.bs"] (.file "println 2".toUTF8)

def noteProgram : Program :=
  [.print (.literal (.int 2) 1) true]

private theorem locate_notes : noteFiles.locate "./notes.v2.bs" = .ok ["work", "notes.v2.bs"] := by
  have segments : Path.segments "./notes.v2.bs" = [".", "notes.v2.bs"] := by cbv
  refine locate_eq_ok.mpr ⟨⟨by decide, by decide, by decide⟩, ?_⟩
  rw [segments]
  rfl

private theorem compile_notes : (LineScript.compile "println 2" []).1 = some noteProgram := by
  have scanned : Scan.ofText "println 2" = ⟨[.plain .printlnWord 1,
      ⟨.integerLiteral, some (.integer 2), 1⟩, .plain .inputEnd 1], []⟩ := by
    decide +kernel
  exact compile_of_stages scanned rfl (by decide +kernel) (by cbv) (by decide +kernel)

private theorem compiles_notes : Compiles noteFiles "./notes.v2.bs" "./notes.v2.bsl" noteProgram
    (noteFiles.insert ["work", "notes.v2.bsl"] (.file (Saved.text noteProgram).toUTF8)) where
  place := by cbv
  accepted :=
    ⟨"println 2", readText_of_lookup (lookup_of_located locate_notes rfl), compile_notes⟩
  saved := by
    have segments : Path.segments "./notes.v2.bsl" = [".", "notes.v2.bsl"] := by cbv
    have located : noteFiles.locate "./notes.v2.bsl" = .ok ["work", "notes.v2.bsl"] := by
      refine locate_eq_ok.mpr ⟨⟨by decide, by decide, by decide⟩, ?_⟩
      rw [segments]
      rfl
    have plain : Path.endsInSlash "./notes.v2.bsl" = false := by cbv
    rw [writeText, locateTarget, plain, if_neg Bool.false_ne_true, located]
    rfl

/-- Without flags the source is compiled, the program is saved beside it, and it runs. -/
theorem performed_notes :
    noteFiles.IsTree ∧ (performed 0 ⟨false, false, "./notes.v2.bs"⟩ noteFiles).1.status = 0 ∧
      (performed 0 ⟨false, false, "./notes.v2.bs"⟩ noteFiles).2.readText "./notes.v2.bsl" =
        .ok (Saved.text noteProgram) ∧
      (performed 0 ⟨false, false, "./notes.v2.bs"⟩ noteFiles).2.lookup "./notes.v2.bs" =
        .ok (.file "println 2".toUTF8) := by
  have tree : noteFiles.IsTree := (isTree_empty "work").insert_file _ (by rintro ⟨⟩) rfl
  have effects := performed_effects 0 ⟨false, false, "./notes.v2.bs"⟩ tree
  obtain ⟨target, program, selected, step, replaced⟩ | ⟨_, fails⟩ := effects.changes
  · obtain ⟨rfl, rfl, _⟩ := compiles_notes.unique step
    have saved := readText_of_lookup replaced.content
    have loaded : Saved.readText (Saved.text noteProgram) = .ok noteProgram := by
      rw [Saved.readText_text (compile_storable (by decide) compile_notes)]
      exact if_pos (by decide)
    refine ⟨tree, effects.success.mpr ?_, saved, ?_⟩
    · exact ⟨step.pathExists, fun _ => ⟨_, _, step, fun _ => ⟨_, _, _, saved, loaded, rfl⟩⟩,
        absurd selected⟩
    · rw [effects.pathKept]
      exact lookup_of_located locate_notes rfl
  · exact absurd compiles_notes (fails _ _ _ (.inr rfl))

end Command

end LineScript
