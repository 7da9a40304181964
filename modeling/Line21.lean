import Line21.Main
import Line21.Proofs.CommandLine.Run
import Line21.Proofs.Conversion.Cues
import Line21.Proofs.Conversion.PopOn
import Line21.Proofs.Conversion.RawPairs
import Line21.Proofs.Conversion.Reading
import Line21.Proofs.Format.Clock
import Line21.Proofs.Format.Lines
import Line21.Proofs.Receiver.Bounds
import Line21.Proofs.Receiver.Channels
import Line21.Proofs.Receiver.Correction
import Line21.Proofs.Receiver.Loading
import Line21.Proofs.Receiver.Offscreen
import Line21.Proofs.Receiver.PopOn
import Line21.Proofs.Receiver.Quiet
import Line21.Proofs.Receiver.Reached
import Line21.Proofs.Receiver.Repertoire
import Line21.Proofs.Receiver.Repetition
import Line21.Proofs.Receiver.RollUp
import Line21.Proofs.Receiver.Rows
import Line21.Proofs.Screen.Window
import Line21.Proofs.Service.Conversions
import Line21.Proofs.Service.Expiry
import Line21.Proofs.Service.Isolation
import Line21.Proofs.Service.Ledger
import Line21.Proofs.Service.Live
import Line21.Proofs.Service.Outcomes
import Line21.Proofs.Source.Documents
import Line21.Proofs.Source.Frames
import Line21.Proofs.Source.Timecodes
import Line21.Proofs.Stream.Failure
import Line21.Proofs.Stream.Interruption
import Line21.Proofs.Stream.Negotiation
import Line21.Proofs.Stream.Noise
import Line21.Proofs.Stream.Numbering
import Line21.Proofs.Stream.Order
import Line21.Proofs.Stream.Refusal
import Line21.Proofs.Text.Trimming
import Line21.Service.Basic
