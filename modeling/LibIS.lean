import LibIS.Library.Receive
import LibIS.Library.Threads
import LibIS.Library.Channel
import LibIS.Library.Objects
import LibIS.Library.Dealing
import LibIS.Library.OrNaN
import LibIS.Buffering
import LibIS.Buffering.ReadBounds
import LibIS.Buffering.AppendOnly
import LibIS.Buffering.Growth
import LibIS.Common
import LibIS.BoundingBox
import LibIS.Grid
import LibIS.Serialization
import LibIS.Serialization.Canonical
import LibIS.Serialization.FixedArrays
import LibIS.SimState
import LibIS.ArrayMetadata
import LibIS.Sim.Setters
import LibIS.Sim.ConnectionManager
import LibIS.Sim.Agreement
import LibIS.Sim.FrameArrival
import LibIS.RegionTransfer
import LibIS.ParticleDelivery
import LibIS.Client.Assignment
import LibIS.Client.SimulationConnection
import LibIS.InterComm.ByteChannel
import LibIS.InterComm.ClosedPeer
import LibIS.InterComm.HostExchange
import LibIS.InterComm.MPI
import LibIS.QueryRound.Rounds
import LibIS.Serving.Shutdown
import LibIS.Session.Pairing
import LibIS.InterComm.Accept
import LibIS.InterComm.AcceptFailures
import LibIS.InterComm.Connect
import LibIS.Wiring.Sockets
import LibIS.Wiring.RateLimit
import LibIS.Library.Completion
import LibIS.Wiring.Completion
import LibIS.Library.Tables
import LibIS.Examples.Volume
import LibIS.Examples.VolumeBricks
import LibIS.InterComm.Delivery
import LibIS.Examples.VolumeDelivery
import LibIS.QueryRound.Waiting
import LibIS.QueryRound.WaitingSims
import LibIS.QueryRound.Costs
import LibIS.QueryRound.InFlight
import LibIS.QueryRound.Completion
import LibIS.Library.Framing
import LibIS.SocketRounds.Completion
import LibIS.SocketRounds.Messages
import LibIS.SocketRounds.Refinement
import LibIS.SocketRounds.Rounds
import LibIS.SocketRounds.System
import LibIS.SocketRounds.Transfers
