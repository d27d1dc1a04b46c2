import Amaru.Ledger.Scripts
import Amaru.Ledger.ScriptsCorrectness
import Amaru.Ledger.ScriptsInputs
import Amaru.Heap.Sift
import Amaru.Heap.SiftOrder
import Amaru.Heap.BinaryHeap
import Amaru.Heap.Ties
import Amaru.Sim.World
import Amaru.Sim.WorldRefinement
import Amaru.Sim.Runs
import Amaru.Sim.NodeRuns
import Amaru.PureStage.Builder
import Amaru.PureStage.BuilderInvariant
import Amaru.Sim.Harness
import Amaru.Sim.Echo
import Amaru.PureStage.Airlock
import Amaru.PureStage.Transition
import Amaru.PureStage.Output
import Amaru.Sim.EchoStage
