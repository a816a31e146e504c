import Reassembly.Main
import Reassembly.Packet.AddressText
import Reassembly.Packet.Draft
import Reassembly.Proofs.Provenance
import Reassembly.Proofs.Completeness
import Reassembly.Proofs.Rotation
import Reassembly.Proofs.Duplicates
import Reassembly.Proofs.PacketBounds
import Reassembly.Proofs.PacketGrammar
import Reassembly.Proofs.PacketRoundTrip
import Reassembly.Proofs.CapTransparency
import Reassembly.Proofs.Recovery
import Reassembly.Proofs.Counters
import Reassembly.Proofs.PendingAhead
import Reassembly.Proofs.Pickup
import Reassembly.Proofs.ConnectionDelivery
import Reassembly.Proofs.DumpGrammar
import Reassembly.Proofs.DumpDelivery
import Reassembly.Proofs.DumpEdits
import Reassembly.Proofs.SettingsRoundTrip
import Reassembly.Proofs.Draining
import Reassembly.Proofs.SinkIndependence
import Reassembly.Proofs.GreedyDrain
import Reassembly.Proofs.DrainCoverage
import Reassembly.Proofs.Eviction
import Reassembly.Proofs.AtRest
import Reassembly.Proofs.Refusal
import Reassembly.Proofs.Verdicts
import Reassembly.Proofs.NearestKept
import Reassembly.Proofs.DrainedPayloads
import Reassembly.Proofs.Retransmission
import Reassembly.Proofs.Guarded
import Reassembly.Proofs.StaleEntries
import Reassembly.Proofs.DumpPrefix
import Reassembly.Proofs.CircularOrder
import Reassembly.Proofs.ScriptApplication
