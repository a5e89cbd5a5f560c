import MonkeyLang.Main
import MonkeyLang.Store.Outline
import MonkeyLang.Value.Outline
import MonkeyLang.Proofs.Parsing.Limit
import MonkeyLang.Proofs.Parsing.Grammar
import MonkeyLang.Proofs.Parsing.Sound
import MonkeyLang.Proofs.Parsing.Complete
import MonkeyLang.Proofs.Parsing.MapTokens
import MonkeyLang.Proofs.Lexing.Tokens
import MonkeyLang.Proofs.Parsing.Reading
import MonkeyLang.Proofs.Lexing.Bytes
import MonkeyLang.Proofs.Lexing.Spelling
import MonkeyLang.Proofs.Rendering.Tree
import MonkeyLang.Proofs.Rendering.Spelled
import MonkeyLang.Proofs.Evaluation.Frame
import MonkeyLang.Proofs.Evaluation.EarlyExit
import MonkeyLang.Proofs.Evaluation.Carriers
import MonkeyLang.Proofs.Evaluation.Renaming
import MonkeyLang.Proofs.Evaluation.Mirror
import MonkeyLang.Proofs.Evaluation.Spans
import MonkeyLang.Proofs.Evaluation.Reached
import MonkeyLang.Proofs.Evaluation.Repetition
import MonkeyLang.Proofs.Rendering.Meaning
import MonkeyLang.Proofs.Store.History
import MonkeyLang.Proofs.Parsing.Spans
import MonkeyLang.Proofs.Lexing.Append
import MonkeyLang.Proofs.Lexing.Scanner
import MonkeyLang.Proofs.Parsing.Lockstep
import MonkeyLang.Proofs.Parsing.Append
import MonkeyLang.Proofs.Session.Lines
import MonkeyLang.Proofs.Lexing.Cover
import MonkeyLang.Proofs.Lexing.Layout
import MonkeyLang.Proofs.Parsing.Layout
import MonkeyLang.Proofs.Evaluation.Invariant
import MonkeyLang.Proofs.Evaluation.Snapshots
import MonkeyLang.Proofs.Evaluation.Identity
import MonkeyLang.Proofs.Evaluation.Making
import MonkeyLang.Proofs.Command.Agreement
import MonkeyLang.Proofs.Lexing.Respelling
import MonkeyLang.Proofs.Parsing.Awaited
import MonkeyLang.Proofs.Parsing.Supply
import MonkeyLang.Proofs.Parsing.Course
import MonkeyLang.Proofs.Parsing.FirstError
import MonkeyLang.Proofs.Parsing.Blocks
import MonkeyLang.Proofs.Parsing.Order
import MonkeyLang.Proofs.Session.Conversation
import MonkeyLang.Proofs.Parsing.Calls
import MonkeyLang.Proofs.Parsing.Dropped
import MonkeyLang.Proofs.Parsing.Stretches
import MonkeyLang.Proofs.Parsing.Walk
import MonkeyLang.Proofs.Parsing.Routines
import MonkeyLang.Proofs.Parsing.Descent
import MonkeyLang.Proofs.Lexing.LongestMatch
import MonkeyLang.Proofs.Evaluation.Depth
import MonkeyLang.Proofs.Evaluation.OneByOne
import MonkeyLang.Proofs.Evaluation.Arithmetic
import MonkeyLang.Proofs.Evaluation.Sequences
import MonkeyLang.Proofs.Report.Places
import MonkeyLang.Proofs.Evaluation.Literals
import MonkeyLang.Proofs.Rendering.Inspect
import MonkeyLang.Proofs.Rendering.Numerals
