import HatCircle.Json.Error
import HatCircle.Main
import HatCircle.Proofs.Grammar
import HatCircle.Proofs.TokenOrder
import HatCircle.Proofs.Derivation
import HatCircle.Proofs.Lexing
import HatCircle.Proofs.Charset
import HatCircle.Proofs.Acceptance
import HatCircle.Proofs.Meaning
import HatCircle.Proofs.Parsing
import HatCircle.Proofs.Evaluation
import HatCircle.Proofs.Guess
import HatCircle.Proofs.Exhaustive
import HatCircle.Proofs.Proven
import HatCircle.Proofs.Compilation
import HatCircle.Proofs.OwnHat
import HatCircle.Proofs.RightGuesses
import HatCircle.Proofs.Canonical
import HatCircle.Proofs.Drawing
import HatCircle.Proofs.Sampling
import HatCircle.Proofs.Yields
import HatCircle.Proofs.Wire
import HatCircle.Proofs.Batches
import HatCircle.Proofs.Tables
import HatCircle.Proofs.SumStrategy
import HatCircle.Proofs.Agreement
import HatCircle.Proofs.Respelling
import HatCircle.Proofs.Sentinel
import HatCircle.Proofs.Rotation
import HatCircle.Proofs.Resuming
import HatCircle.Proofs.Tally
import HatCircle.Proofs.Enumeration
import HatCircle.Proofs.TreeValue
import HatCircle.Proofs.Chains
import HatCircle.Proofs.Scanning
import HatCircle.Proofs.Rejections
import HatCircle.Proofs.Brackets
import HatCircle.Proofs.Quoting
import HatCircle.Proofs.Legible
import HatCircle.Proofs.Strangers
import HatCircle.Proofs.NeededParentheses
import HatCircle.Proofs.Numerals
import HatCircle.Proofs.CommandLines
import HatCircle.Proofs.OptionLayers
import HatCircle.Proofs.Listing
import HatCircle.Proofs.MatchedPairs
import HatCircle.Proofs.TokenPlaces
import HatCircle.Proofs.BracketPlaces
import HatCircle.Proofs.Reordering
import HatCircle.Proofs.Documents
