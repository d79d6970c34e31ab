import Colourway.Proofs.Document.Pruned
import Colourway.Proofs.Document.Reordered
import Colourway.Proofs.Theme.Whole
import Colourway.Proofs.Token.Session
import Colourway.Proofs.Token.Reached
import Colourway.Proofs.Layer.Origins
import Colourway.Proofs.Layer.Appended
import Colourway.Proofs.Layer.Pointwise
import Colourway.Proofs.Layer.Staged
import Colourway.Proofs.Resolve.Outcome
import Colourway.Proofs.Resolve.Frame
import Colourway.Proofs.Resolve.Resolved
import Colourway.Service.Explain
import Colourway.Settings.Sources
import Colourway.Token.Checkpoint
import Colourway.Proofs.Layer.LastWriter
import Colourway.Proofs.Resolve.Settled
import Colourway.Proofs.Theme.Assembled
import Colourway.Proofs.Theme.Emitted
import Colourway.Proofs.Resolve.Raised
import Colourway.Proofs.Resolve.Lockstep
import Colourway.Proofs.Resolve.Respelled
import Colourway.Proofs.Colour.Written
import Colourway.Proofs.Resolve.Derivation
import Colourway.Proofs.Resolve.Explained
import Colourway.Proofs.Resolve.Stored
import Colourway.Proofs.Colour.Faults
import Colourway.Proofs.Files.Found
import Colourway.Proofs.Resolve.Stopped
import Colourway.Proofs.Theme.Faults
import Colourway.Proofs.Service.Batch
import Colourway.Proofs.Document.Ordered
import Colourway.Proofs.Syntax.Aliases
import Colourway.Proofs.Files.Formats
import Colourway.Proofs.Colour.Literal
import Colourway.Proofs.Colour.Opacity
import Colourway.Proofs.Service.Telemetry
import Colourway.Proofs.Number.Fraction
import Colourway.Proofs.Resolve.Spliced
import Colourway.Proofs.Token.Ancestors
import Colourway.Proofs.Colour.Canonical
