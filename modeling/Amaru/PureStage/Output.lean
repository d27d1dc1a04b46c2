import Amaru.PureStage.Transition

set_option autoImplicit false

/- The transitions of the sink stages `output` and `output_interrupt` (`simulation.rs`). Each
forwards the message it receives into the unbounded channel whose `Receiver` the builder hands to
the caller; `tx.send` fails only once that `Receiver` is dropped. `output_interrupt` first awaits
`eff.interrupt()` on a message its predicate picks; `Effects` and the mapper it gives
`airlock_effect` are in `effect.rs`, so the mapper is a parameter. Over the airlock, `output`
posts nothing and forwards on no response, and so does `output_interrupt` on a message the
predicate does not pick; a picked message is forwarded only once a driver took the interrupt and
resumed it, so a driver that holds the interrupt holds the message. -/
namespace Amaru.PureStage

/-- `StageEffect::Interrupt`, the one effect a sink stage posts. -/
inductive InterruptEffect
  | interrupt
deriving DecidableEq, Repr

variable {M R : Type}

/-- `tx.send(msg).map_err(|_| anyhow::anyhow!("channel closed"))` on the sink's channel: the
message is in the channel when the `Receiver` is alive, and the send fails otherwise. -/
def channelSend (receiverAlive : Bool) (msg : M) : Except String M :=
  if receiverAlive then .ok msg else .error "channel closed"

/-- The transition `output` registers, on one message: it sends the message into the channel and
returns. -/
def outputTransition (receiverAlive : Bool) (msg : M) :
    Transition InterruptEffect R (Except String M) :=
  .done (channelSend receiverAlive msg)

/-- The transition `output_interrupt` registers, on one message: on a message `interrupt` picks it
first awaits `eff.interrupt()`, which `accept` resumes or not on the driver's response; then it
sends the message into the channel and returns. -/
def outputInterruptTransition (interrupt : M → Bool) (accept : StageResponse R → Option Unit)
    (receiverAlive : Bool) (msg : M) : Transition InterruptEffect R (Except String M) :=
  if interrupt msg then
    .await .interrupt fun r => (accept r).map fun _ => .done (channelSend receiverAlive msg)
  else .done (channelSend receiverAlive msg)

/-- The sinks over the airlock, from the transition not yet polled, over a box left empty or
holding `Unit`, along every interleaving of the runtime's polls and a driver keeping the airlock's
contract. `output` posts nothing and forwards the message, on no response, and some run gets it
forwarded; so does `output_interrupt` on a message its predicate does not pick. On a message it picks, the
driver takes nothing but the interrupt, and the message is forwarded only once the driver resumed
the interrupt; any response resuming it gets the message forwarded. -/
theorem sinks_forward_after_interrupt (interrupt : M → Bool)
    (accept : StageResponse R → Option Unit) (receiverAlive : Bool) (msg : M)
    {box : EffectBox InterruptEffect R} (unused : box = none ∨ box = some (.inr .unit)) :
    ((∀ a, StageRun.Reaches (StageRun.start (outputTransition receiverAlive msg) box) a →
        a.taken = [] ∧ ∀ value, a.result = some value →
          value = channelSend receiverAlive msg ∧ a.posted = []) ∧
      ∃ a, StageRun.Reaches (StageRun.start (outputTransition receiverAlive msg) box) a ∧
        a.result = some (channelSend receiverAlive msg)) ∧
    (interrupt msg = true →
      (∀ a, StageRun.Reaches
          (StageRun.start (outputInterruptTransition interrupt accept receiverAlive msg) box) a →
        a.taken <+: [.interrupt] ∧ ∀ value, a.result = some value →
          value = channelSend receiverAlive msg ∧ a.taken = [.interrupt] ∧
            ∃ r, a.posted = [r] ∧ accept r = some ()) ∧
      ∀ r, accept r = some () → ∃ a, StageRun.Reaches
          (StageRun.start (outputInterruptTransition interrupt accept receiverAlive msg) box) a ∧
        a.taken = [.interrupt] ∧ a.posted = [r] ∧ a.result = some (channelSend receiverAlive msg)) ∧
    (interrupt msg = false →
      (∀ a, StageRun.Reaches
          (StageRun.start (outputInterruptTransition interrupt accept receiverAlive msg) box) a →
        a.taken = [] ∧ ∀ value, a.result = some value →
          value = channelSend receiverAlive msg ∧ a.posted = []) ∧
      ∃ a, StageRun.Reaches
          (StageRun.start (outputInterruptTransition interrupt accept receiverAlive msg) box) a ∧
        a.result = some (channelSend receiverAlive msg)) := by
  refine ⟨StageRun.reaches_done unused _, fun picked => ?_, fun passed => ?_⟩
  · rw [outputInterruptTransition, if_pos picked]
    exact StageRun.reaches_await_done unused _ accept _
  · rw [outputInterruptTransition, if_neg (by simp [passed])]
    exact StageRun.reaches_done unused _

/-- The sink of the builder's documentation, `output_interrupt("output", |msg| *msg == 2)`,
resumed on `Unit`, on the message `2`: its interrupt is taken before `2` is forwarded. -/
theorem sinks_forward_after_interrupt_two :
    let interrupt := fun msg : Nat => decide (msg = 2)
    let accept := fun r => unitResponse (some r)
    let box : EffectBox InterruptEffect Nat := none
    (box = none ∨ box = some (.inr .unit)) ∧
    ((∀ a, StageRun.Reaches (StageRun.start (outputTransition true 2) box) a →
        a.taken = [] ∧ ∀ value, a.result = some value →
          value = channelSend true 2 ∧ a.posted = []) ∧
      ∃ a, StageRun.Reaches (StageRun.start (outputTransition true 2) box) a ∧
        a.result = some (channelSend true 2)) ∧
    (interrupt 2 = true →
      (∀ a, StageRun.Reaches
          (StageRun.start (outputInterruptTransition interrupt accept true 2) box) a →
        a.taken <+: [.interrupt] ∧ ∀ value, a.result = some value →
          value = channelSend true 2 ∧ a.taken = [.interrupt] ∧
            ∃ r, a.posted = [r] ∧ accept r = some ()) ∧
      ∀ r, accept r = some () → ∃ a, StageRun.Reaches
          (StageRun.start (outputInterruptTransition interrupt accept true 2) box) a ∧
        a.taken = [.interrupt] ∧ a.posted = [r] ∧ a.result = some (channelSend true 2)) ∧
    (interrupt 2 = false →
      (∀ a, StageRun.Reaches
          (StageRun.start (outputInterruptTransition interrupt accept true 2) box) a →
        a.taken = [] ∧ ∀ value, a.result = some value →
          value = channelSend true 2 ∧ a.posted = []) ∧
      ∃ a, StageRun.Reaches
          (StageRun.start (outputInterruptTransition interrupt accept true 2) box) a ∧
        a.result = some (channelSend true 2)) :=
  ⟨.inl rfl, sinks_forward_after_interrupt (fun msg : Nat => decide (msg = 2))
    (fun r => unitResponse (some r)) true 2 (.inl rfl)⟩

end Amaru.PureStage
