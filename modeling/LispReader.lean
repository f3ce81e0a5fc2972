import LispReader.CommandLine.Answer
import LispReader.Tree.Datum
import LispReader.Tree.Foreign
import LispReader.Main
import LispReader.Request
import LispReader.Operation
import LispReader.Proofs.Begun
import LispReader.Proofs.Descent
import LispReader.Proofs.Descent.Machine
import LispReader.Proofs.Descent.Table
import LispReader.Proofs.Programs
import LispReader.Proofs.Labels
import LispReader.Proofs.Agreement
import LispReader.Proofs.ViablePrefix
import LispReader.Proofs.WellTyped
import LispReader.Proofs.Reach
import LispReader.Proofs.Lines
import LispReader.Proofs.Lexis
import LispReader.Proofs.LexicalFaults
import LispReader.Proofs.Tiling
import LispReader.Proofs.Digits
import LispReader.Proofs.Readings
import LispReader.Proofs.RoundTrip
import LispReader.Proofs.Analyses
import LispReader.Proofs.Layout
import LispReader.Proofs.Spans
import LispReader.Proofs.Leftmost
import LispReader.Proofs.Restriction
import LispReader.Proofs.Lookahead
import LispReader.Proofs.Conservation
import LispReader.Proofs.Json.Reader
import LispReader.Proofs.Json.Written
import LispReader.Proofs.Rendering
import LispReader.Proofs.Characters
import LispReader.Proofs.Json.Plain
import LispReader.Proofs.Data
import LispReader.Proofs.Payload
import LispReader.Proofs.Messages
import LispReader.Proofs.Reports
import LispReader.Proofs.Displacement
import LispReader.Proofs.Sessions
import LispReader.Proofs.Transcripts
import LispReader.Proofs.Pieces
import LispReader.Proofs.JoinedLines
import LispReader.Proofs.LineEnds
import LispReader.Proofs.Conflicts
import LispReader.Proofs.Cells
import LispReader.Proofs.DataText
import LispReader.Proofs.Indentation
import LispReader.Proofs.DataFaults
import LispReader.Proofs.DataRoundTrip
import LispReader.Proofs.ForeignLeaves
import LispReader.Proofs.Arrangement
import LispReader.Proofs.RunLength
import LispReader.Proofs.Requests
import LispReader.Proofs.Operations
