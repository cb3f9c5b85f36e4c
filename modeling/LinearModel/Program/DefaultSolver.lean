import LinearModel.Exact.Backend
import LinearModel.Program.Solve
import LinearModel.Solver.Staging

/-!
# The default solver

Where no solver is named, a program is solved by a fresh staging solver over the exact backend.
-/

namespace LinearModel

def defaultSolver (config : Configuration) : Solver Staging :=
  Staging.solver "microlp" Exact.backend config

/-- Solves the program with the default solver. -/
def Program.solveDefault (config : Configuration) (scale : Bool) (program : Program) :
    Except ModelError Solution × Program :=
  let (answer, next, _) := program.solve config (defaultSolver config) scale .empty
  (answer, next)

end LinearModel
