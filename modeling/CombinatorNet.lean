import CombinatorNet.Main
import CombinatorNet.Network.WireReport
import CombinatorNet.Proofs.Coloring.Decision
import CombinatorNet.Proofs.Language.RoundTrip
import CombinatorNet.Proofs.Layout.Locality
import CombinatorNet.Proofs.Layout.Routes
import CombinatorNet.Proofs.Network.Cache
import CombinatorNet.Proofs.Network.Realizable
import CombinatorNet.Proofs.Network.Refusal
import CombinatorNet.Proofs.Language.Nesting
import CombinatorNet.Proofs.Network.Influence
import CombinatorNet.Proofs.Network.Reordering
import CombinatorNet.Proofs.Network.Settling
import CombinatorNet.Proofs.Layout.Drawing
import CombinatorNet.Proofs.Network.ValidWiring
import CombinatorNet.Proofs.Network.Reserved
import CombinatorNet.Proofs.Network.Canonical
import CombinatorNet.Proofs.Coloring.Preference
import CombinatorNet.Proofs.Language.Renaming
import CombinatorNet.Proofs.Network.Locations
import CombinatorNet.Proofs.Coloring.Batches
import CombinatorNet.Proofs.Coloring.Refused
import CombinatorNet.Proofs.Layout.Direct
import CombinatorNet.Proofs.Layout.Termination
import CombinatorNet.Proofs.Network.Uncolored
import CombinatorNet.Proofs.Language.Spacing
import CombinatorNet.Proofs.Language.Slices
import CombinatorNet.Proofs.Combinator.Meaning
import CombinatorNet.Proofs.Signal.Literals
import CombinatorNet.Proofs.Combinator.SourceText
import CombinatorNet.Proofs.Combinator.Operators
import CombinatorNet.Proofs.Signal.Merging
import CombinatorNet.Proofs.Network.Buttons
import CombinatorNet.Proofs.Coloring.Apart
import CombinatorNet.Proofs.Layout.Appending
import CombinatorNet.Proofs.Network.Appending
import CombinatorNet.Proofs.Coloring.Sizes
import CombinatorNet.Proofs.Layout.Rounds
import CombinatorNet.Proofs.Network.Overflow
