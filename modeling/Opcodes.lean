import Opcodes.Main
import Opcodes.Proofs.ByteGrammar
import Opcodes.Proofs.Aliases
import Opcodes.Proofs.Declarations
import Opcodes.Proofs.BoundedSinks
import Opcodes.Proofs.Meaning
import Opcodes.Proofs.Generation
import Opcodes.Proofs.EscapeSequences
import Opcodes.Proofs.Accounts
import Opcodes.Proofs.Refusals
import Opcodes.Proofs.Requests
import Opcodes.Proofs.Lookups
import Opcodes.Proofs.RoundTrip
import Opcodes.Proofs.ListingColors
import Opcodes.Proofs.ColorSetting
import Opcodes.Proofs.RuleOrder
import Opcodes.Proofs.Uniqueness
import Opcodes.Proofs.Verdicts
import Opcodes.Proofs.Composition
import Opcodes.Proofs.ListedNames
import Opcodes.Proofs.GridGeometry
import Opcodes.Proofs.GeneratedLines
import Opcodes.Proofs.FlagRuns
import Opcodes.Proofs.FieldFormat
import Opcodes.Proofs.RuleText
import Opcodes.Proofs.Refilling
import Opcodes.Proofs.FamilyRanges
