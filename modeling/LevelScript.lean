import LevelScript.Document.Level
import LevelScript.Tool.FileTree
import LevelScript.Main
import LevelScript.Proofs.Instruction.Listing
import LevelScript.Proofs.Image.Rearranged
import LevelScript.Proofs.Assembly.Legacy
import LevelScript.Proofs.Assembly.Layouts
import LevelScript.Proofs.Machine.Cases
import LevelScript.Proofs.Machine.Limits
import LevelScript.Proofs.Machine.Segments
import LevelScript.Proofs.Machine.Storage
import LevelScript.Proofs.World.Activators
import LevelScript.Proofs.Session.Canonical
import LevelScript.Proofs.Session.Delivery
import LevelScript.Proofs.Level.Activations
import LevelScript.Proofs.Level.Delays
import LevelScript.Proofs.Level.Origins
import LevelScript.Proofs.Level.Postponed
import LevelScript.Proofs.Level.Stale
import LevelScript.Proofs.Snapshot.Storable
