import Modulation.Clock
import Modulation.Closeness
import Modulation.Main
import Modulation.Proofs.Effect.Page
import Modulation.Proofs.VectorSignal.Grammar
import Modulation.Proofs.Random.Stream
import Modulation.Proofs.Signal.Draws
import Modulation.Proofs.VectorSignal.Draws
import Modulation.Proofs.Effect.Draws
import Modulation.Proofs.Signal.Evaluation
import Modulation.Proofs.VectorSignal.Evaluation
import Modulation.Proofs.Effect.Loading
import Modulation.Proofs.Command.Check
import Modulation.Proofs.Faults.Broken
import Modulation.Proofs.VectorSignal.Bounds
import Modulation.Proofs.VectorSignal.Form
import Modulation.Proofs.Signal.Reversal
import Modulation.Proofs.VectorSignal.Phases
import Modulation.Proofs.VectorSignal.Stillness
import Modulation.Proofs.VectorSignal.Waveforms
import Modulation.Proofs.VectorSignal.Arity
import Modulation.Proofs.VectorSignal.Extremes
import Modulation.Proofs.VectorSignal.SavedPhases
import Modulation.Proofs.Rewording.Reading
import Modulation.Proofs.Command.Options
import Modulation.Proofs.Command.Rejection
import Modulation.Proofs.Command.Run
import Modulation.Proofs.Effect.Changes
import Modulation.Proofs.Signal.PairList
