import LockDiscipline.Digest.Blake3
import LockDiscipline.Guard.UnitCheck
import LockDiscipline.Lint.Discovery
import LockDiscipline.Lint.GuardedBy
import LockDiscipline.Report.LogOptions
import LockDiscipline.Report.Sink
import LockDiscipline.Yaml.Reader
import LockDiscipline.Proofs.Held.Flow
import LockDiscipline.Proofs.Held.BodyFlow
import LockDiscipline.Proofs.Held.BodyWalk
import LockDiscipline.Proofs.Held.Grounded
import LockDiscipline.Proofs.Held.Path
import LockDiscipline.Proofs.Held.Precision
import LockDiscipline.Proofs.Held.Soundness
import LockDiscipline.Proofs.Held.Reports
import LockDiscipline.Proofs.Held.Monotone
import LockDiscipline.Proofs.Held.FinallyJump
import LockDiscipline.Proofs.Names.Lookup
import LockDiscipline.Proofs.Names.Forest
import LockDiscipline.Proofs.Names.Nearest
import LockDiscipline.Proofs.Names.Signature
import LockDiscipline.Proofs.Names.Binding
import LockDiscipline.Proofs.Names.LockPlace
import LockDiscipline.Proofs.Guards.Findings
import LockDiscipline.Proofs.Guards.Overloads
import LockDiscipline.Proofs.Guards.Suppression
import LockDiscipline.Proofs.Settings.Cycle
import LockDiscipline.Proofs.Settings.Override
import LockDiscipline.Proofs.Held.Origin
import LockDiscipline.Proofs.Guards.Statics
import LockDiscipline.Proofs.Guards.LockIdentity
import LockDiscipline.Proofs.Settings.Nearest
import LockDiscipline.Proofs.Guards.Intraprocedural
import LockDiscipline.Proofs.Guards.Filters
import LockDiscipline.Proofs.Held.Inherited
import LockDiscipline.Proofs.Spelling.Lexeme
import LockDiscipline.Proofs.Spelling.Grammar
import LockDiscipline.Proofs.Spelling.RoundTrip
import LockDiscipline.Proofs.Checks.Registration
import LockDiscipline.Proofs.Checks.Defaults
import LockDiscipline.Proofs.Held.Points
import LockDiscipline.Proofs.Held.Kept
import LockDiscipline.Proofs.Held.Carries
import LockDiscipline.Proofs.Held.Carried
import LockDiscipline.Proofs.Held.Rounds
import LockDiscipline.Proofs.Held.Handlers
import LockDiscipline.Proofs.Held.Leaving
import LockDiscipline.Proofs.Names.Receiver
import LockDiscipline.Proofs.Names.Canonical
import LockDiscipline.Proofs.Rules.CanonicalName
import LockDiscipline.Proofs.Rules.Silenced
import LockDiscipline.Proofs.Guards.Callers
import LockDiscipline.Proofs.Guards.Accounting
import LockDiscipline.Proofs.Rules.Precedence
import LockDiscipline.Proofs.Settings.Outcome
import LockDiscipline.Proofs.Settings.EntryOrder
import LockDiscipline.Proofs.Settings.Spelled
import LockDiscipline.Proofs.Checks.ById
import LockDiscipline.Proofs.Rules.Listed
import LockDiscipline.Proofs.Held.BareNames
import LockDiscipline.Proofs.Held.LoopNames
import LockDiscipline.Proofs.Held.Stacks
import LockDiscipline.Proofs.Settings.ListFlag
