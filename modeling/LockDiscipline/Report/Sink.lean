import LockDiscipline.Report.Diagnostic
import LockDiscipline.Text.Pieces

/-!
Where diagnostics are gathered. One that comes without a code is given one that hangs only on the
sink's code space and on the diagnostic's message and span, so that it is the same in every run with
one hash function.
-/

namespace LockDiscipline

/-- A hash function, from messages to 32 bytes. -/
abbrev HashFunction := List UInt8 → Vector UInt8 32

/-- Diagnostics in the order they were pushed. -/
structure DiagnosticSink where
  /-- The name under which codes are given. -/
  codeSpace : String := "GEN"
  toList : List Diagnostic := []
  deriving DecidableEq, Repr

namespace DiagnosticSink

/-- The eight bytes of a word, the lowest first. -/
def wordBytes (w : UInt64) : List UInt8 :=
  (List.range 8).map fun i => (w >>> (8 * .ofNat i)).toUInt8

/-- What a code is derived from: code space, message and span in a row. -/
def codeMessage (codeSpace : String) (d : Diagnostic) : List UInt8 :=
  codeSpace.toUTF8.toList ++ d.message.toUTF8.toList ++
    match d.span with
    | some s => wordBytes s.start ++ wordBytes s.stop
    | none => []

/-- The number in five digits or more, filled up with zeros in front. -/
def fiveDigits (n : Nat) : String :=
  let digits := toString n
  String.ofList (List.replicate (5 - digits.length) '0') ++ digits

/-- The number that the first four bytes of a hash make up, the lowest first. -/
def number (hash : Vector UInt8 32) : Nat :=
  (hash.toList.take 4).foldr (fun byte n => byte.toNat + 256 * n) 0

/-- The code of a diagnostic that has none: the code space in capitals and five digits of a hash. -/
def derivedCode (hash : HashFunction) (codeSpace : String) (d : Diagnostic) : DiagnosticCode :=
  let suffix := number (hash (codeMessage codeSpace d)) % 100000
  ⟨Text.upper codeSpace ++ fiveDigits suffix, some codeSpace⟩

/-- Adds a diagnostic at the end, with a code if it had none. -/
def push (hash : HashFunction) (s : DiagnosticSink) (d : Diagnostic) : DiagnosticSink :=
  let code := d.code.getD (derivedCode hash s.codeSpace d)
  { s with toList := s.toList ++ [{ d with code := some code }] }

/-- Adds an error without a code. -/
def pushError (hash : HashFunction) (s : DiagnosticSink) (message : String) (span : Option Span) :
    DiagnosticSink :=
  s.push hash { severity := .error, code := none, message, span, notes := [] }

/-- Adds a warning without a code. -/
def pushWarning (hash : HashFunction) (s : DiagnosticSink) (message : String)
    (span : Option Span) : DiagnosticSink :=
  s.push hash { severity := .warning, code := none, message, span, notes := [] }

/-- How many diagnostics there are. -/
def size (s : DiagnosticSink) : Nat := s.toList.length

/-- Whether there is none. -/
def isEmpty (s : DiagnosticSink) : Bool := s.toList.isEmpty

/-- Whether one of them is an error. -/
def hasErrors (s : DiagnosticSink) : Bool := s.toList.any fun d => d.severity = .error

end DiagnosticSink

end LockDiscipline
