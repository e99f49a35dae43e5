import LineScript.Command
import LineScript.Compilation
import LineScript.Decimal.Text
import LineScript.Files.FileSystem
import LineScript.Json.Reader
import LineScript.Main
import LineScript.Saved.Store
import LineScript.Value.Operation
import LineScript.Proofs.Grammar
import LineScript.Proofs.ReadingRules
import LineScript.Proofs.Grammar.Expressions
import LineScript.Proofs.Grammar.Programs
import LineScript.Proofs.CheckSoundness
import LineScript.Proofs.IntegerArithmetic
import LineScript.Proofs.Kinds
import LineScript.Proofs.LoopNames
import LineScript.Proofs.NameSafety
import LineScript.Proofs.Saved.RoundTrip
import LineScript.Proofs.Saved.Resaving
import LineScript.Proofs.Saved.TextNesting
import LineScript.Proofs.ScopeBalance
import LineScript.Proofs.Scoping
import LineScript.Proofs.SteadyKinds
import LineScript.Proofs.Validation.Acceptance
import LineScript.Proofs.Validation.Coherence
import LineScript.Proofs.Validation.Expressions
import LineScript.Proofs.Validation.NameFaults
import LineScript.Proofs.Validation.Programs
import LineScript.Proofs.Validation.Recovery
import LineScript.Proofs.Validation.Reports
import LineScript.Proofs.Validation.Turns
import LineScript.Proofs.Scanning.Spelling
import LineScript.Proofs.Scanning.Places
import LineScript.Proofs.Scanning.Writing
import LineScript.Proofs.Scanning.Lines
import LineScript.Proofs.Scanning.Faults
import LineScript.Proofs.Files.Locations
import LineScript.Proofs.CommandEffects
import LineScript.Proofs.Reading.Forks
import LineScript.Proofs.Reading.Lines
import LineScript.Proofs.Reading.InputEnd
import LineScript.Proofs.Effects
import LineScript.Proofs.Output
import LineScript.Proofs.Reading.Progress
import LineScript.Proofs.Termination
