import Schematic.Main
import Schematic.Proofs.Board.Hiding
import Schematic.Proofs.Board.Pins
import Schematic.Proofs.Board.Safety
import Schematic.Proofs.Circuit.Collision
import Schematic.Proofs.Circuit.Constants
import Schematic.Proofs.Circuit.Deduplication
import Schematic.Proofs.Circuit.Clashes
import Schematic.Proofs.Circuit.Coverage
import Schematic.Proofs.Circuit.Identifiers
import Schematic.Proofs.Circuit.Routing
import Schematic.Proofs.Circuit.Widths
import Schematic.Proofs.Circuit.GatedClock
import Schematic.Proofs.Circuit.Hiding
import Schematic.Proofs.Circuit.Words
import Schematic.Proofs.Circuit.Body
import Schematic.Proofs.Hdl.Declared
import Schematic.Proofs.Scan.Line
import Schematic.Proofs.Hdl.Spelled
import Schematic.Proofs.Circuit.OutputPins
import Schematic.Proofs.Circuit.Unplanned
import Schematic.Proofs.Clock.Tick
import Schematic.Proofs.Component.Multiplexer
import Schematic.Proofs.Component.Payload
import Schematic.Proofs.Circuit.Safety
import Schematic.Proofs.Hdl.Targets
import Schematic.Proofs.Config.Reload
import Schematic.Proofs.Facts.Delta
import Schematic.Proofs.Facts.Order
import Schematic.Proofs.Facts.Roles
import Schematic.Proofs.File.Rerun
import Schematic.Proofs.Hdl.Commented
import Schematic.Proofs.Hdl.Linking
import Schematic.Proofs.Naming.Sanitized
import Schematic.Proofs.Naming.Unique
import Schematic.Proofs.Netlist.Contents
import Schematic.Proofs.Netlist.Recursion
import Schematic.Proofs.Scan.Ranges
