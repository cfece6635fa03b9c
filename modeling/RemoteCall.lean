import RemoteCall.Main
import RemoteCall.Stream.Basic
import RemoteCall.Transport.Direct
import RemoteCall.Transport.Pipe
import RemoteCall.Transport.Recorded
import RemoteCall.Transport.Scripted
import RemoteCall.Proofs.Pdu.Reading
import RemoteCall.Proofs.Pdu.Encoding
import RemoteCall.Proofs.Pdu.RoundTrip
import RemoteCall.Proofs.Pdu.Decoding
import RemoteCall.Proofs.Assembly
import RemoteCall.Proofs.Endpoint.History
import RemoteCall.Proofs.Endpoint.Execution
import RemoteCall.Proofs.Fragment
import RemoteCall.Proofs.Endpoint.Calls
import RemoteCall.Proofs.Client.Talk
import RemoteCall.Proofs.Endpoint.Binding
import RemoteCall.Proofs.Client.Bind
import RemoteCall.Proofs.Client.Calls
import RemoteCall.Proofs.Ndr.Uniform
import RemoteCall.Proofs.Ndr.Fixed
import RemoteCall.Proofs.Ndr.Binding
import RemoteCall.Proofs.Ndr.Forest
import RemoteCall.Proofs.Ndr.Tree
import RemoteCall.Proofs.Ndr.Plain
import RemoteCall.Proofs.Ndr.Mirror
import RemoteCall.Proofs.Ndr.Fits
import RemoteCall.Proofs.Ndr.Stream
import RemoteCall.Proofs.Stream.Frames
import RemoteCall.Proofs.Stream.Progress
import RemoteCall.Proofs.Stream.Reads
import RemoteCall.Proofs.Stream.Writes
import RemoteCall.Proofs.Stream.Connections
import RemoteCall.Proofs.Endpoint.Steps
import RemoteCall.Proofs.Endpoint.Answers
import RemoteCall.Proofs.Endpoint.Contexts
import RemoteCall.Proofs.Delivery
import RemoteCall.Proofs.Endpoint.Sharing
import RemoteCall.Proofs.Endpoint.Requests
import RemoteCall.Proofs.Ndr.Messages
import RemoteCall.Proofs.Service.Messages
import RemoteCall.Proofs.Endpoint.Sending
import RemoteCall.Proofs.Stream.Queue
import RemoteCall.Proofs.Endpoint.Parameters
import RemoteCall.Proofs.Client.Compatible
import RemoteCall.Proofs.Client.Trace
import RemoteCall.Proofs.Client.Responses
import RemoteCall.Proofs.Client.Sessions
import RemoteCall.Proofs.Client.Agreement
import RemoteCall.Proofs.Pdu.Errors
import RemoteCall.Proofs.Client.Faults
import RemoteCall.Proofs.Client.Links
import RemoteCall.Proofs.Pdu.Rewriting
import RemoteCall.Proofs.Endpoint.Representations
import RemoteCall.Proofs.Ndr.Exact
import RemoteCall.Proofs.Ndr.Truncation
import RemoteCall.Proofs.Service.Truncation
import RemoteCall.Proofs.Reassembly
import RemoteCall.Proofs.Ndr.DepthFirst
import RemoteCall.Proofs.Service.Operations
import RemoteCall.Proofs.Client.Connections
import RemoteCall.Proofs.CommandLine.Listing
import RemoteCall.Proofs.Ndr.Onward
import RemoteCall.Proofs.Ndr.Independence
import RemoteCall.Proofs.Ndr.Decoded
import RemoteCall.Proofs.Ndr.Bound
import RemoteCall.Proofs.Ndr.Spelling
import RemoteCall.Proofs.Ndr.Pieces
import RemoteCall.Proofs.Ndr.Readable
import RemoteCall.Proofs.Ndr.NormalForm
import RemoteCall.Proofs.Ndr.Halting
import RemoteCall.Proofs.Association.Negotiation
import RemoteCall.Proofs.Ndr.Flushing
import RemoteCall.Proofs.Pdu.Bounds
import RemoteCall.Proofs.Association.Numbering
import RemoteCall.Proofs.Gathering
import RemoteCall.Proofs.Ndr.Words
import RemoteCall.Proofs.Service.UnknownLevels
import RemoteCall.Proofs.Stream.Failures
import RemoteCall.Proofs.Pipe.Paths
import RemoteCall.Proofs.Endpoint.Selection
import RemoteCall.Proofs.Service.Enumeration
import RemoteCall.Proofs.Service.Lookup
import RemoteCall.Proofs.Ndr.Strings
import RemoteCall.Proofs.Pipe.Instances
