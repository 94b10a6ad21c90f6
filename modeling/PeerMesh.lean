import PeerMesh.Inspect
import PeerMesh.Network.Step
import PeerMesh.Proofs.Bytes
import PeerMesh.Proofs.Clock
import PeerMesh.Proofs.Clock.Merge
import PeerMesh.Proofs.Cluster
import PeerMesh.Proofs.Cluster.Issues
import PeerMesh.Proofs.Cluster.Effect
import PeerMesh.Proofs.Cluster.Faithful
import PeerMesh.Proofs.Cluster.Flow
import PeerMesh.Proofs.Cluster.MapReduce
import PeerMesh.Proofs.Cluster.Pump
import PeerMesh.Proofs.Cluster.Reducers
import PeerMesh.Proofs.Cluster.Rejoin
import PeerMesh.Proofs.Cluster.Remote
import PeerMesh.Proofs.Cluster.Steps
import PeerMesh.Proofs.Cluster.Served
import PeerMesh.Proofs.Cluster.Silence
import PeerMesh.Proofs.Cluster.Orderly
import PeerMesh.Proofs.Cluster.Survey
import PeerMesh.Proofs.Cluster.Traffic
import PeerMesh.Proofs.Events.Reductions
import PeerMesh.Proofs.Events.Chronicle
import PeerMesh.Proofs.Events.Live
import PeerMesh.Proofs.Events.Numbering
import PeerMesh.Proofs.Events.Steady
import PeerMesh.Proofs.Interpreter.Allowance
import PeerMesh.Proofs.Interpreter.Attempts
import PeerMesh.Proofs.Interpreter.Calls
import PeerMesh.Proofs.Interpreter.Dispatch
import PeerMesh.Proofs.Interpreter.Edits
import PeerMesh.Proofs.Interpreter.Frame
import PeerMesh.Proofs.Interpreter.Heard
import PeerMesh.Proofs.Interpreter.Household
import PeerMesh.Proofs.Interpreter.Inbound
import PeerMesh.Proofs.Interpreter.Invocations
import PeerMesh.Proofs.Interpreter.Jobs
import PeerMesh.Proofs.Interpreter.Loop
import PeerMesh.Proofs.Interpreter.Named
import PeerMesh.Proofs.Interpreter.Outbound
import PeerMesh.Proofs.Interpreter.Outbox
import PeerMesh.Proofs.Interpreter.Overlap
import PeerMesh.Proofs.Interpreter.Payload
import PeerMesh.Proofs.Interpreter.Pipeline
import PeerMesh.Proofs.Interpreter.Pump
import PeerMesh.Proofs.Interpreter.Readable
import PeerMesh.Proofs.Interpreter.Mappings
import PeerMesh.Proofs.Interpreter.Run
import PeerMesh.Proofs.Interpreter.Shapes
import PeerMesh.Proofs.Interpreter.Traceless
import PeerMesh.Proofs.JobIds
import PeerMesh.Proofs.Mesh.Operations
import PeerMesh.Proofs.Mesh.Delivery
import PeerMesh.Proofs.Mesh.History
import PeerMesh.Proofs.Mesh.View
import PeerMesh.Proofs.Registry
import PeerMesh.Proofs.Store.Handles
import PeerMesh.Proofs.Wire.Direct
import PeerMesh.Proofs.Wire.Envelope
import PeerMesh.Proofs.Wire.Gate
import PeerMesh.Proofs.Wire.Kind
import PeerMesh.Proofs.Wire.Normal
import PeerMesh.Proofs.Wire.Outcome
import PeerMesh.Store.Handles
import PeerMesh.Proofs.Interpreter.Draws
import PeerMesh.Proofs.Interpreter.Recorded
