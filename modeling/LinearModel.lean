import LinearModel.Document.Build
import LinearModel.Logging
import LinearModel.Program.DefaultSolver
import LinearModel.Solution.Json
import LinearModel.Solver.Recording
import LinearModel.Proofs.Layout.Tiling
import LinearModel.Proofs.Shape.RowMajor
import LinearModel.Proofs.Layout.RoundTrip
import LinearModel.Proofs.Draft.Shapes
import LinearModel.Proofs.Program.Isolation
import LinearModel.Proofs.Draft.Edits
import LinearModel.Proofs.Program.Reachable
import LinearModel.Proofs.Program.Styles
import LinearModel.Proofs.Solver.Loading
import LinearModel.Proofs.Program.Drafted
import LinearModel.Proofs.Program.Meaning
import LinearModel.Proofs.Program.Assembly
import LinearModel.Proofs.Solver.Calls
import LinearModel.Proofs.Solver.Session
import LinearModel.Proofs.Program.Solving
import LinearModel.Proofs.Program.Refusal
import LinearModel.Proofs.Layout.Ranges
import LinearModel.Proofs.Program.Recorded
import LinearModel.Proofs.Program.StandIn
import LinearModel.Proofs.Document.Building
import LinearModel.Proofs.Document.Capacity
import LinearModel.Proofs.Layout.BoundOrder
import LinearModel.Proofs.Solver.History
import LinearModel.Proofs.Solver.Boxes
import LinearModel.Proofs.Solver.Reloading
import LinearModel.Proofs.Solver.Conformance
import LinearModel.Proofs.Layout.Rearranging
import LinearModel.Proofs.Program.Rearranging
import LinearModel.Proofs.Json.Nesting
import LinearModel.Proofs.Binary64.Exactness
import LinearModel.Proofs.Solver.Snapping
import LinearModel.Proofs.Program.Reported
import LinearModel.Proofs.Json.Rectangles
import LinearModel.Proofs.Program.Statuses
import LinearModel.Proofs.Program.Overwriting
import LinearModel.Proofs.Solver.Refusals
import LinearModel.Proofs.Solver.Settings
import LinearModel.Proofs.Layout.Words
import LinearModel.Proofs.Layout.Admission
import LinearModel.Proofs.Tensor.Strided
import LinearModel.Proofs.Program.Transposed
import LinearModel.Proofs.Draft.Cells
import LinearModel.Proofs.Text.Relations
import LinearModel.Proofs.Draft.FlatRow
import LinearModel.Proofs.Layout.Parts
import LinearModel.Proofs.Program.Integers
import LinearModel.Proofs.Draft.Operations
