import CombinatorNet.Language.Flatten
import CombinatorNet.Language.Parse
import CombinatorNet.Network.Basic

/-!
# Compiling programs

## Main definitions

* `CompileSettings` — the limit on nested instances and the settings of the layout
* `Program.compile` — the network of a program, with its layout
* `compile` — the same for a source text
-/

namespace CombinatorNet

/-- The settings of a compilation. -/
structure CompileSettings where
  /-- How deep instances may be nested. -/
  maxDepth : Nat := 32
  layout : LayoutSettings := {}
deriving DecidableEq, Repr, Inhabited

/-- The network of a program, with its layout. -/
def Program.compile (p : Program) (settings : CompileSettings) : Except NetworkError Network := do
  let statements ← p.flatten settings.maxDepth
  let network ← Network.ofStatements statements settings.layout
  return (← network.finalize).2

/-- The network of a source text, with its layout. -/
def compile (source : String) (settings : CompileSettings) : Except NetworkError Network := do
  (← Program.parse source).compile settings

end CombinatorNet
