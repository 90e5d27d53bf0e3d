import Reckoner.Main
import Reckoner.Proofs.Reading.Account
import Reckoner.Proofs.Reading.Tape
import Reckoner.Proofs.Reading.Complete
import Reckoner.Proofs.Reading.Whole
import Reckoner.Proofs.Acceptance
import Reckoner.Proofs.CorrectPrefix
import Reckoner.Proofs.Lexis
import Reckoner.Proofs.LongestLexeme
import Reckoner.Proofs.Scanning
import Reckoner.Proofs.MaximalMunch
import Reckoner.Proofs.NumeralText
import Reckoner.Proofs.Evaluation
import Reckoner.Proofs.Stack.Machine
import Reckoner.Proofs.Stack.Simulation
import Reckoner.Proofs.Stack.Bounds
import Reckoner.Proofs.Stack.Descent
import Reckoner.Proofs.StackSafety
import Reckoner.Proofs.LexicalErrors
import Reckoner.Proofs.Likeness
import Reckoner.Proofs.Seams
import Reckoner.Proofs.Places
import Reckoner.Proofs.Verdict
import Reckoner.Proofs.Substitution
import Reckoner.Proofs.Parentheses
import Reckoner.Proofs.Units
import Reckoner.Proofs.RoundTrip
import Reckoner.Proofs.Printing
import Reckoner.Proofs.Words
import Reckoner.Proofs.WordTree
import Reckoner.Proofs.Bytes.Slices
import Reckoner.Proofs.Bytes.Scanner
import Reckoner.Proofs.Bytes.Agreement
import Reckoner.Proofs.Bytes.Calls
import Reckoner.Proofs.Reading.Alike
import Reckoner.Proofs.Blanks
import Reckoner.Proofs.Diagnostics
import Reckoner.Proofs.Reading.Demand
import Reckoner.Proofs.Journal
import Reckoner.Proofs.Listings
import Reckoner.Proofs.Lines
import Reckoner.Proofs.Stages
import Reckoner.Proofs.Sessions
import Reckoner.Proofs.FirstFailure
import Reckoner.Proofs.FirstFault
import Reckoner.Proofs.Complaints
import Reckoner.Proofs.Arguments
import Reckoner.Proofs.Stack.Breaks
import Reckoner.Proofs.Limits
import Reckoner.Proofs.Unreadable
import Reckoner.Proofs.Letters
import Reckoner.Proofs.PrintedTrees
import Reckoner.Proofs.Nearest
import Reckoner.Proofs.Literals
import Reckoner.Proofs.LetterCase
import Reckoner.Proofs.Respelling
import Reckoner.Proofs.Reentry
