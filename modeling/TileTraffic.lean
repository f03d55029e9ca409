import TileTraffic.Bundle.Basic
import TileTraffic.Bundle.Destination
import TileTraffic.Bundle.Partition
import TileTraffic.Channel.Assignment
import TileTraffic.Channel.Pool
import TileTraffic.Channel.Slots
import TileTraffic.Cli.Memory
import TileTraffic.Cli.Options
import TileTraffic.Cli.Report
import TileTraffic.Cli.Run
import TileTraffic.Compile
import TileTraffic.Descriptor.Chain
import TileTraffic.Descriptor.Window
import TileTraffic.Device
import TileTraffic.Flow.Reuse
import TileTraffic.Flow.Table
import TileTraffic.Graph.Replicate
import TileTraffic.Graph.Validity
import TileTraffic.Host.Control
import TileTraffic.Json.Printer
import TileTraffic.Json.Reader
import TileTraffic.Main
import TileTraffic.Metadata
import TileTraffic.Program.Json
import TileTraffic.Program.Listing
import TileTraffic.SharedMemory
import TileTraffic.Proofs.Bundle.Acceptance
import TileTraffic.Proofs.Bundle.Addresses
import TileTraffic.Proofs.Bundle.Appended
import TileTraffic.Proofs.Bundle.Cover
import TileTraffic.Proofs.Bundle.Destination
import TileTraffic.Proofs.Bundle.Ends
import TileTraffic.Proofs.Bundle.Numbering
import TileTraffic.Proofs.Bundle.Order
import TileTraffic.Proofs.Bundle.Partition
import TileTraffic.Proofs.Channel.Appended
import TileTraffic.Proofs.Channel.Assignment
import TileTraffic.Proofs.Channel.Booking
import TileTraffic.Proofs.Channel.Calls
import TileTraffic.Proofs.Channel.Excerpt
import TileTraffic.Proofs.Channel.External
import TileTraffic.Proofs.Channel.Failure
import TileTraffic.Proofs.Channel.Growth
import TileTraffic.Proofs.Channel.Ledger
import TileTraffic.Proofs.Channel.Level
import TileTraffic.Proofs.Channel.Links
import TileTraffic.Proofs.Channel.Passes
import TileTraffic.Proofs.Channel.Pool
import TileTraffic.Proofs.Channel.Requests
import TileTraffic.Proofs.Channel.Riders
import TileTraffic.Proofs.Channel.Rotation
import TileTraffic.Proofs.Channel.Seats
import TileTraffic.Proofs.Channel.Separation
import TileTraffic.Proofs.Channel.Slots
import TileTraffic.Proofs.Channel.Step
import TileTraffic.Proofs.Compile
import TileTraffic.Proofs.Descriptor.Blocks
import TileTraffic.Proofs.Descriptor.Chain
import TileTraffic.Proofs.Descriptor.Elements
import TileTraffic.Proofs.Descriptor.Failure
import TileTraffic.Proofs.Descriptor.Laps
import TileTraffic.Proofs.Descriptor.Synthesis
import TileTraffic.Proofs.Descriptor.Tiles
import TileTraffic.Proofs.Descriptor.Window
import TileTraffic.Proofs.Device.Arena
import TileTraffic.Proofs.Device.Buffers
import TileTraffic.Proofs.Device.FirstFit
import TileTraffic.Proofs.Device.Guards
import TileTraffic.Proofs.Device.Locks
import TileTraffic.Proofs.Device.PairTable
import TileTraffic.Proofs.Device.Pairs
import TileTraffic.Proofs.Device.Placement
import TileTraffic.Proofs.Device.Requests
import TileTraffic.Proofs.Device.Room
import TileTraffic.Proofs.Execution.Exclusion
import TileTraffic.Proofs.Execution.Handover
import TileTraffic.Proofs.Execution.Machine
import TileTraffic.Proofs.Execution.Phases
import TileTraffic.Proofs.Failure
import TileTraffic.Proofs.Flow.Connections
import TileTraffic.Proofs.Flow.Reuse
import TileTraffic.Proofs.Flow.Scan
import TileTraffic.Proofs.Flow.Table
import TileTraffic.Proofs.Graph
import TileTraffic.Proofs.Graph.Replicate
import TileTraffic.Proofs.Graph.Validity
import TileTraffic.Proofs.History
import TileTraffic.Proofs.Host.Control
import TileTraffic.Proofs.Host.Growth
import TileTraffic.Proofs.Host.Launches
import TileTraffic.Proofs.Host.Meaning
import TileTraffic.Proofs.Host.Parts
import TileTraffic.Proofs.Host.Scope
import TileTraffic.Proofs.Host.Spaces
import TileTraffic.Proofs.Host.Trace
import TileTraffic.Proofs.Json.Number
import TileTraffic.Proofs.Json.Reader
import TileTraffic.Proofs.Json.Record
import TileTraffic.Proofs.Json.Token
import TileTraffic.Proofs.Lists
import TileTraffic.Proofs.Metadata
import TileTraffic.Proofs.Ordered
import TileTraffic.Proofs.Outcome
import TileTraffic.Proofs.Positions
import TileTraffic.Proofs.Program.Appended
import TileTraffic.Proofs.Program.Broadcast
import TileTraffic.Proofs.Program.Counterparts
import TileTraffic.Proofs.Program.Delivery
import TileTraffic.Proofs.Program.Failure
import TileTraffic.Proofs.Program.Flows
import TileTraffic.Proofs.Program.Interface
import TileTraffic.Proofs.Program.Interleaving
import TileTraffic.Proofs.Program.Limits
import TileTraffic.Proofs.Program.Locks
import TileTraffic.Proofs.Program.Memory
import TileTraffic.Proofs.Program.Order
import TileTraffic.Proofs.Program.SideTable
import TileTraffic.Proofs.Program.Stages
import TileTraffic.Proofs.Program.Symbols
import TileTraffic.Proofs.Program.Windows
import TileTraffic.Proofs.Success
import TileTraffic.Proofs.Wire.Graph
import TileTraffic.Proofs.Wire.Text
