import ReactorTrace.Main
import ReactorTrace.Encoder.Writer
import ReactorTrace.Output.Recording
import ReactorTrace.Files.Tree
import ReactorTrace.Proofs.Reading
import ReactorTrace.Proofs.StoredHeader
import ReactorTrace.Proofs.Standing
import ReactorTrace.Proofs.DecoderRuns
import ReactorTrace.Proofs.StoredTrace
import ReactorTrace.Proofs.Acceptance
import ReactorTrace.Proofs.Truncation
import ReactorTrace.Proofs.Records
import ReactorTrace.Proofs.RoundTrip
import ReactorTrace.Proofs.LossyText
import ReactorTrace.Proofs.HeaderRoundTrip
import ReactorTrace.Proofs.Descriptions
import ReactorTrace.Proofs.EncoderRuns
import ReactorTrace.Proofs.OutputFaults
import ReactorTrace.Proofs.Outputs
import ReactorTrace.Proofs.TableLines
import ReactorTrace.Proofs.Streams
import ReactorTrace.Proofs.FileEffects
import ReactorTrace.Proofs.TableFiles
import ReactorTrace.Proofs.Appending
import ReactorTrace.Proofs.Limits
import ReactorTrace.Proofs.Locality
import ReactorTrace.Proofs.Refusals
import ReactorTrace.Proofs.SameRows
import ReactorTrace.Proofs.UnreadBytes
import ReactorTrace.Proofs.RowText
import ReactorTrace.Proofs.Recovery
import ReactorTrace.Proofs.CommandLineRuns
import ReactorTrace.Proofs.RecordForms
import ReactorTrace.Proofs.HeldText
import ReactorTrace.Proofs.Splitting
import ReactorTrace.Proofs.RowFields
import ReactorTrace.Proofs.JsonStrings
import ReactorTrace.Proofs.JsonTokens
import ReactorTrace.Proofs.EventNameDocuments
import ReactorTrace.Proofs.DumpText
import ReactorTrace.Proofs.BoundedLoops
import ReactorTrace.Proofs.ElapsedTimes
