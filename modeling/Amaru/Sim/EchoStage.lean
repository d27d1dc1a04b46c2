import Amaru.Sim.Echo
import Amaru.PureStage.Transition

set_option autoImplicit false

/- The echo stage of `simulate_pure_stage_echo` as pure-stage runs it. The node of the World that
`spawn` returns hands each envelope to the echo stage and returns what the `output` stage then
forwards; `SimulationRunning`, which polls the stage and carries its sends, is not in the sources,
so `echoNode` runs `echoHandle` in its place. Here the stage's transition, the `async` block the
test passes to `network.stage`, is run over the airlock instead: along every interleaving of the
runtime's polls and a driver keeping the airlock's contract, it sends nothing but the answer
`echoHandle` returns and returns only `echoHandle`'s count, and a driver that resumes its one send
brings it there. On any other message both panic with one text. -/
namespace Amaru.Sim

open Amaru.PureStage

variable {R : Type}

/-- The transition the test registers as stage `echo`, its state `(state, out)` cut down to the
count as in `echoHandle`, on one message. On an echo request it bumps the count, sends the answer
to `out` (the effect is named by the envelope it carries, `out` being the one output stage) and
awaits the send, which `accept`, the mapper `Effects::send` gives `airlock_effect` in `effect.rs`,
resumes or not on the driver's response; then it returns the count. Any other message panics the
`async` block at its first poll. -/
def echoStage (accept : StageResponse R → Option Unit) (state : Nat) (msg : Envelope EchoMessage) :
    Except String (Transition (Envelope EchoMessage) R Nat) :=
  match msg.body with
  | .echo msgId echo =>
    let state := state + 1
    let echoResponse := if state % 5 = 0 then toUppercase echo else echo
    let reply : Envelope EchoMessage := ⟨msg.dest, msg.src, .echoOk state msgId echoResponse⟩
    .ok (.await reply fun r => (accept r).map fun _ => .done state)
  | .echoOk .. => .error (notAnEcho msg.body)

/-- The echo node of the World is the echo stage run over the airlock. On a message that is not an
echo request both panic with one text. On an echo request `echoHandle` answers with one envelope;
from the stage's transition not yet polled, over a box left empty or holding `Unit`, along every
interleaving of the runtime's polls and a driver keeping the airlock's contract, the driver has
taken no effect but the send of that answer, and the stage returns only once the driver resumed
the send, with `echoHandle`'s count. A driver resuming the send brings it there. -/
theorem echoStage_refines_echoHandle (accept : StageResponse R → Option Unit) (state : Nat)
    (msg : Envelope EchoMessage) {box : EffectBox (Envelope EchoMessage) R}
    (unused : box = none ∨ box = some (.inr .unit)) :
    (∀ err, echoStage accept state msg = .error err ↔ echoHandle state msg = .error err) ∧
    ∀ transition, echoStage accept state msg = .ok transition →
      ∃ answer state', echoHandle state msg = .ok ([answer], state') ∧
        (∀ a, StageRun.Reaches (StageRun.start transition box) a →
          a.taken <+: [answer] ∧ ∀ value, a.result = some value →
            value = state' ∧ a.taken = [answer] ∧ ∃ r, a.posted = [r] ∧ accept r = some ()) ∧
        ∀ r, accept r = some () → ∃ a, StageRun.Reaches (StageRun.start transition box) a ∧
          a.taken = [answer] ∧ a.posted = [r] ∧ a.result = some state' := by
  cases body : msg.body with
  | echoOk => exact ⟨by simp [echoStage, echoHandle, body], fun _ staged => by
      simp [echoStage, body] at staged⟩
  | echo msgId echo =>
    simp only [echoStage, echoHandle, body]
    refine ⟨by simp, fun transition staged => ?_⟩
    cases staged
    exact ⟨_, _, rfl, StageRun.reaches_await_done unused _ accept _⟩

/-- A stage that is resumed only on `Unit`, answering a first echo request: over an empty box,
the run that resumes the send returns the count `1`. -/
theorem echoStage_refines_echoHandle_first :
    ((none : EffectBox (Envelope EchoMessage) Nat) = none ∨
      (none : EffectBox (Envelope EchoMessage) Nat) = some (.inr .unit)) ∧
    let msg : Envelope EchoMessage := ⟨"c1", "n1", .echo 0 "Please echo 7"⟩
    let accept := fun r => unitResponse (some r)
    (∀ err, echoStage accept 0 msg = .error err ↔ echoHandle 0 msg = .error err) ∧
    ∀ transition, echoStage accept 0 msg = .ok transition →
      ∃ answer state', echoHandle 0 msg = .ok ([answer], state') ∧
        (∀ a, StageRun.Reaches (StageRun.start transition none) a →
          a.taken <+: [answer] ∧ ∀ value, a.result = some value →
            value = state' ∧ a.taken = [answer] ∧ ∃ r, a.posted = [r] ∧ accept r = some ()) ∧
        ∀ r, accept r = some () → ∃ a, StageRun.Reaches (StageRun.start transition none) a ∧
          a.taken = [answer] ∧ a.posted = [r] ∧ a.result = some state' :=
  ⟨.inl rfl, echoStage_refines_echoHandle _ 0 _ (.inl rfl)⟩

end Amaru.Sim
