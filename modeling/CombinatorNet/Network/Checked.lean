import CombinatorNet.Network.Compile

/-!
# Compiling with overflow checks

A build with overflow checks panics where a release build wraps around. Two kinds of numbers of a
compilation can leave their words: the sum of the literals that a constant has for one signal, and
the cube of the width of the layout. As long as they fit, the two builds do the same.

## Main definitions

* `Request.sumsFit` — whether the sums of the literals of a request fit
* `Network.ofStatementsChecked`, `Network.finalizeChecked` — building and laying out a network
* `Program.compileChecked`, `compileChecked` — compiling a program and a source text

## Main results

* `compileChecked_follows` — what is compiled with overflow checks is what a release build compiles
-/

namespace CombinatorNet

/-- Whether the sums of the literals of a request fit in their words. -/
def Request.sumsFit : Request → Bool
  | .constant _ values _ => (SignalSet.collectChecked values).isSome
  | _ => true

namespace Network

/-- Do what a statement asks for. The literals of a constant are added up first. -/
def performChecked (n : Network) (s : Statement) : Checked NetworkError Network :=
  .ifFits s.request.sumsFit (n.perform s)

/-- Do what several statements ask for, one after the other. -/
def performEachChecked (n : Network) : List Statement → Checked NetworkError Network
  | [] => pure n
  | s :: rest => do (← n.performChecked s).performEachChecked rest

/-- The network of a list of statements. -/
def ofStatementsChecked (statements : List Statement) (settings : LayoutSettings) :
    Checked NetworkError Network :=
  (empty settings).performEachChecked statements

/-- The layout of a network. The width matters only if there is no layout from before. -/
def finalizeChecked (n : Network) : Checked NetworkError (Layout × Network) :=
  .ifFits (n.layout.isSome ∨ (n.site n.settings n.colors).Fits) n.finalize

end Network

/-- The network of a program, with its layout. -/
def Program.compileChecked (p : Program) (settings : CompileSettings) :
    Checked NetworkError Network := do
  let statements ← p.flatten settings.maxDepth
  let network ← Network.ofStatementsChecked statements settings.layout
  return (← network.finalizeChecked).2

/-- The network of a source text, with its layout. -/
def compileChecked (source : String) (settings : CompileSettings) :
    Checked NetworkError Network := do
  (← Program.parse source).compileChecked settings

/-! ### The two builds -/

theorem Network.performEachChecked_follows (n : Network) (statements : List Statement) :
    (n.performEachChecked statements).Follows (n.performEach statements) := by
  induction statements generalizing n with
  | nil => exact .inl rfl
  | cons s rest ih => exact (Checked.follows_ifFits _ _).bind fun m => ih m

/-- A build with overflow checks compiles a program to what a release build compiles it to, or it
panics. -/
theorem Program.compileChecked_follows (p : Program) (settings : CompileSettings) :
    (p.compileChecked settings).Follows (p.compile settings) :=
  (Checked.follows_lift _).bind fun statements =>
    (Network.performEachChecked_follows _ statements).bind fun _ =>
      (Checked.follows_ifFits _ _).bind fun _ => .inl rfl

theorem compileChecked_follows (source : String) (settings : CompileSettings) :
    (compileChecked source settings).Follows (compile source settings) :=
  (Checked.follows_lift _).bind fun p => p.compileChecked_follows settings

end CombinatorNet
