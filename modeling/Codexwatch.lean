import Codexwatch.CaptureEbpf.Loader
import Codexwatch.CaptureEbpf.Programs
import Codexwatch.Lib.Table
import Codexwatch.Lib.Check
import Codexwatch.Lib.Text
import Codexwatch.Lib.Reference
import Codexwatch.Lib.Run
import Codexwatch.Lib.Chunks
import Codexwatch.Lib.Redelivery
import Codexwatch.Protocol.State
import Codexwatch.Protocol.Types
import Codexwatch.Protocol.Validation
import Codexwatch.Protocol.Codec
import Codexwatch.Protocol.Content
import Codexwatch.Server.Ingest
import Codexwatch.Server.Content
import Codexwatch.Server.Retention
import Codexwatch.Server.Decisions
import Codexwatch.Server.Integrity
import Codexwatch.Server.Fulfilment
import Codexwatch.Server.Dispatch
import Codexwatch.Server.Isolation
import Codexwatch.Server.Queries
import Codexwatch.Server.Visibility
import Codexwatch.Server.Paging
import Codexwatch.Server.Convergence
import Codexwatch.Capture.Responses
import Codexwatch.Capture.Http1
import Codexwatch.Capture.Tcp
import Codexwatch.Capture.Completeness
import Codexwatch.Capture.Wraparound
import Codexwatch.Capture.Closing
import Codexwatch.Capture.Reassembly
import Codexwatch.Client.Wire
import Codexwatch.Client.Attempt
import Codexwatch.Client.Store
import Codexwatch.Client.Ingress
import Codexwatch.Client.Projection
import Codexwatch.Client.Evidence
import Codexwatch.Client.Lane
import Codexwatch.Client.Numbering
import Codexwatch.Client.Terminal
import Codexwatch.Client.Refinement
import Codexwatch.Client.Messages
import Codexwatch.Client.Flow
import Codexwatch.Client.Stream
import Codexwatch.Client.Reuse
import Codexwatch.Client.Exits
import Codexwatch.Client.Losses
import Codexwatch.Client.Retrieval
import Codexwatch.Client.Pinning
import Codexwatch.Client.Files
import Codexwatch.Client.Persistence
import Codexwatch.Client.Uploads
import Codexwatch.Client.Budget
import Codexwatch.Client.Outbox
import Codexwatch.Client.Blob
import Codexwatch.System.Delivery
import Codexwatch.System.Commands
import Codexwatch.System.Upload
import Codexwatch.System.Transfer
import Codexwatch.System.ProcessEnd
import Codexwatch.Capture.H2
import Codexwatch.Capture.H2Frames
import Codexwatch.Capture.WsFrames
import Codexwatch.Capture.Sse
import Codexwatch.Capture.Exchange
import Codexwatch.Client.Application
import Codexwatch.Client.Detection
import Codexwatch.Client.Multiplexing
import Codexwatch.Capture.SseLines
import Codexwatch.Client.Transports
import Codexwatch.Client.Containment
import Codexwatch.Capture.Overlap
import Codexwatch.Capture.FinDelivery
import Codexwatch.Protocol.Accumulation
import Codexwatch.Client.Sequencing
import Codexwatch.Client.ProcessIndex
import Codexwatch.Client.Discovery
import Codexwatch.Client.Instances
import Codexwatch.Client.PassiveTap
import Codexwatch.Client.Attribution
import Codexwatch.Server.Cleanup
import Codexwatch.Notifier.Daemon
import Codexwatch.Notifier.Announcements
import Codexwatch.CaptureEbpf.Plaintext
import Codexwatch.CaptureEbpf.Connections
import Codexwatch.Lib.Cbor
import Codexwatch.Protocol.Encoding
import Codexwatch.Client.WireSize
import Codexwatch.Lib.Checked
import Codexwatch.Lib.Words
import Codexwatch.Capture.EventStream
import Codexwatch.Capture.Chunked
import Codexwatch.Capture.FrameLengths
import Codexwatch.Capture.Address
import Codexwatch.Client.Lengths
import Codexwatch.Client.Procfs
import Codexwatch.Client.SocketAttribution
import Codexwatch.Profile.Attach
import Codexwatch.Server.Eviction
import Codexwatch.Client.Degradation
import Codexwatch.Client.Pairing
import Codexwatch.Client.Interim
import Codexwatch.Lib.Resync
import Codexwatch.Client.Alignment
import Codexwatch.Client.Truncation
import Codexwatch.Client.PendingSegments
import Codexwatch.Protocol.RoundTrip
import Codexwatch.System.Identity
import Codexwatch.Lib.Lines
import Codexwatch.Client.TitleIndex
import Codexwatch.Client.Titles
import Codexwatch.Client.Lineage
import Codexwatch.Lib.HeaderBlock
import Codexwatch.Client.Rerendering
import Codexwatch.Server.Answers
import Codexwatch.Server.Ownership
import Codexwatch.Server.Sending
import Codexwatch.System.Flushing
import Codexwatch.System.EbpfLane
import Codexwatch.Server.Arrivals
import Codexwatch.System.Uploading
import Codexwatch.System.Telling
import Codexwatch.Client.FlowTable
import Codexwatch.Lib.Channel
import Codexwatch.System.Capturing
