import VideoExport.Engine.Memory
import VideoExport.Main
import VideoExport.Proofs.Batch.Addressing
import VideoExport.Proofs.Batch.Isolation
import VideoExport.Proofs.Batch.Messages
import VideoExport.Proofs.CommandLine.ExitCode
import VideoExport.Proofs.CommandLine.Image
import VideoExport.Proofs.Deadline.Delays
import VideoExport.Proofs.Engine.Entries
import VideoExport.Proofs.Engine.Output
import VideoExport.Proofs.Engine.Storage
import VideoExport.Proofs.Engine.Streams
import VideoExport.Proofs.Engine.Temporary
import VideoExport.Proofs.Exporter.FontCoherence
import VideoExport.Proofs.Exporter.Settings
import VideoExport.Proofs.Exporter.Simulation
import VideoExport.Proofs.Fonts.Calls
import VideoExport.Proofs.Graph.Agreement
import VideoExport.Proofs.Graph.Color
import VideoExport.Proofs.Graph.Fades
import VideoExport.Proofs.Graph.Retiming
import VideoExport.Proofs.Graph.Stages
import VideoExport.Proofs.Graph.WellFormed
import VideoExport.Proofs.Job.Cleanup
import VideoExport.Proofs.Job.Numbers
import VideoExport.Proofs.Job.Output
import VideoExport.Proofs.Job.Recovery
import VideoExport.Proofs.Job.Staged
import VideoExport.Proofs.Job.States
import VideoExport.Proofs.Job.Telling
import VideoExport.Proofs.Settings.Change
import VideoExport.Proofs.Settings.Domain
import VideoExport.Proofs.Settings.Reading
import VideoExport.Proofs.Settings.Refusal
import VideoExport.Proofs.Settings.RoundTrip
import VideoExport.Proofs.Staging.Block
