import Trellis.Build
import Trellis.Number.Shortest
import Trellis.Project.DevProps
import Trellis.Proofs.Build.Links
import Trellis.Proofs.Build.Paths
import Trellis.Proofs.Build.Strict
import Trellis.Proofs.Jsx.Accounting
import Trellis.Proofs.Jsx.Apart
import Trellis.Proofs.Jsx.ClassValue
import Trellis.Proofs.Jsx.Dangers
import Trellis.Proofs.Jsx.Degradation
import Trellis.Proofs.Jsx.Directives
import Trellis.Proofs.Jsx.Fragment
import Trellis.Proofs.Jsx.Loops
import Trellis.Proofs.Jsx.Operands
import Trellis.Proofs.Jsx.Piping
import Trellis.Proofs.Jsx.References
import Trellis.Proofs.Jsx.Shape
import Trellis.Proofs.Jsx.Styles
import Trellis.Proofs.Jsx.Values
import Trellis.Proofs.Output.Capture
import Trellis.Proofs.Output.Imports
import Trellis.Proofs.Output.Lifecycle
import Trellis.Proofs.Output.ModulePaths
import Trellis.Proofs.Output.Order
import Trellis.Proofs.Output.Reindent
import Trellis.Proofs.Output.Scope
import Trellis.Proofs.Output.Services
import Trellis.Proofs.Output.Signals
import Trellis.Proofs.Output.Stability
import Trellis.Proofs.Registry.History
import Trellis.Proofs.Template.Attributes
import Trellis.Proofs.Template.Calls
import Trellis.Proofs.Template.Conservation
import Trellis.Proofs.Template.Lossless
import Trellis.Proofs.Template.Places
import Trellis.Proofs.Template.Readings
import Trellis.Proofs.Template.RoundTrip
import Trellis.Proofs.TypeScript.Stored
import Trellis.Template.Summary
