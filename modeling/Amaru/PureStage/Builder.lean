import Mathlib.Data.List.AList

set_option autoImplicit false

/- The `SimulationBuilder` of `pure-stage` (`simulation.rs`): the stage graph a test assembles
before `run` hands it to `SimulationRunning::new`. A `HashMap` is an `AList`, whose keys are
distinct by construction; its iteration order, which the standard library leaves unspecified,
is the list's. Stage states, messages and transition closures are type-erased in the source
(`Box<dyn State>`, `Box<dyn Message>`, `Transition`): here they are the parameters `V`, `M` and
`T`. The builder never runs a transition, so a transition is data to it. The shared effect box,
the clock and `now` pass through untouched and are left out. -/
namespace Amaru.PureStage

abbrev Name := String

inductive InitStageState (V : Type)
  | uninitialized
  | idle (state : V)
deriving DecidableEq, Repr

structure InitStageData (V M T : Type) where
  state : InitStageState V
  mailbox : List M
  transition : T

/-- The effects a stage can wait on; `run` uses only `Receive`. -/
inductive StageEffect
  | receive
deriving DecidableEq, Repr

/-- The states of a running stage; `run` creates only `Idle`. -/
inductive StageState (V : Type)
  | idle (state : V)
deriving DecidableEq, Repr

/-- A running stage's data. A pending sender is named by its stage. -/
structure StageData (V M T : Type) where
  name : Name
  mailbox : List M
  state : StageState V
  transition : T
  waiting : Option StageEffect
  senders : List Name

structure SimulationBuilder (V M T : Type) where
  stages : AList fun _ : Name => InitStageData V M T
  mailboxSize : Nat

/-- The handle `stage` returns: the stage's name and the initial state that `wire_up` finishes. -/
structure StageBuildRef (V : Type) where
  name : Name
  state : V

structure StageRef where
  name : Name
deriving DecidableEq, Repr

/-- The builder's panics: `stage` on a name it has, `wire_up`'s `unwrap` on a name it lacks,
and `run` on a stage never wired. -/
inductive Panic (V : Type)
  | stageExists (name : Name) (state : InitStageState V)
  | unwrapNone
  | forgotWireUp (name : Name)
deriving DecidableEq, Repr

variable {V M T : Type}

namespace SimulationBuilder

def default : SimulationBuilder V M T := ⟨∅, 10⟩

def withMailboxSize (builder : SimulationBuilder V M T) (size : Nat) : SimulationBuilder V M T :=
  { builder with mailboxSize := size }

/-- `stage`: registers `name`, not yet wired. The source inserts first and panics on the value
the insert replaced; the panic ends the program, so the lookup comes first here. -/
def stage (builder : SimulationBuilder V M T) (name : Name) (transition : T) (state : V) :
    Except (Panic V) (SimulationBuilder V M T × StageBuildRef V) :=
  match builder.stages.lookup name with
  | some old => .error (.stageExists name old.state)
  | none =>
    .ok ({ builder with stages := builder.stages.insert name ⟨.uninitialized, [], transition⟩ },
      ⟨name, state⟩)

/-- `wire_up`: runs the mutator on the ref's state and leaves the result in the stage, now
`Idle`. -/
def wireUp (builder : SimulationBuilder V M T) (stage : StageBuildRef V) (f : V → V) :
    Except (Panic V) (SimulationBuilder V M T × StageRef) :=
  let state := f stage.state
  match builder.stages.lookup stage.name with
  | none => .error .unwrapNone
  | some data =>
    .ok ({ builder with stages := builder.stages.insert stage.name { data with state := .idle state } },
      ⟨stage.name⟩)

/-- The common body of `output` and `output_interrupt`: a stage holding `()` (here `unit`) whose
transition forwards each message to the returned `Receiver`, wired at once by a mutator that
does nothing. The channel is not modelled. -/
def outputStage (builder : SimulationBuilder V M T) (name : Name) (transition : T) (unit : V) :
    Except (Panic V) (SimulationBuilder V M T × StageRef) := do
  let (builder, stage) ← builder.stage name transition unit
  builder.wireUp stage id

/-- `output`: `forward` is the transition that sends each message to the channel. -/
def output (builder : SimulationBuilder V M T) (name : Name) (forward : T) (unit : V) :
    Except (Panic V) (SimulationBuilder V M T × StageRef) :=
  builder.outputStage name forward unit

/-- `output_interrupt`: `forwardOrInterrupt` first interrupts on the messages the predicate
picks, then sends to the channel. -/
def outputInterrupt (builder : SimulationBuilder V M T) (name : Name) (forwardOrInterrupt : T)
    (unit : V) : Except (Panic V) (SimulationBuilder V M T × StageRef) :=
  builder.outputStage name forwardOrInterrupt unit

/-- One turn of `run`'s loop: a wired stage becomes `Idle`, waiting on `Receive`, with no
pending senders. -/
def runStage (stages : AList fun _ : Name => StageData V M T)
    (entry : Sigma fun _ : Name => InitStageData V M T) :
    Except (Panic V) (AList fun _ : Name => StageData V M T) :=
  match entry.2.state with
  | .uninitialized => .error (.forgotWireUp entry.1)
  | .idle state =>
    .ok (stages.insert entry.1 ⟨entry.1, entry.2.mailbox, .idle state, entry.2.transition,
      some .receive, []⟩)

/-- `run`: the stage map and the mailbox size it hands to `SimulationRunning::new`. -/
def run (builder : SimulationBuilder V M T) :
    Except (Panic V) ((AList fun _ : Name => StageData V M T) × Nat) := do
  let stages ← builder.stages.entries.foldlM runStage ∅
  pure (stages, builder.mailboxSize)

theorem stage_of_not_mem {builder : SimulationBuilder V M T} {name : Name} (fresh : name ∉ builder.stages)
    (transition : T) (state : V) :
    builder.stage name transition state =
      .ok ({ builder with stages := builder.stages.insert name ⟨.uninitialized, [], transition⟩ },
        ⟨name, state⟩) := by
  simp [stage, AList.lookup_eq_none.mpr fresh]

theorem wireUp_of_lookup {builder : SimulationBuilder V M T} {stage : StageBuildRef V}
    {data : InitStageData V M T} (found : builder.stages.lookup stage.name = some data) (f : V → V) :
    builder.wireUp stage f =
      .ok ({ builder with
        stages := builder.stages.insert stage.name { data with state := .idle (f stage.state) } },
        ⟨stage.name⟩) := by
  simp [wireUp, found]

theorem runStage_eq_ok {stages next : AList fun _ : Name => StageData V M T}
    {entry : Sigma fun _ : Name => InitStageData V M T} :
    runStage stages entry = .ok next ↔ ∃ state, entry.2.state = .idle state ∧
      next = stages.insert entry.1 ⟨entry.1, entry.2.mailbox, .idle state, entry.2.transition,
        some .receive, []⟩ := by
  unfold runStage
  split <;> simp_all [eq_comm]

theorem runStage_eq_error {stages : AList fun _ : Name => StageData V M T}
    {entry : Sigma fun _ : Name => InitStageData V M T} {panic : Panic V} :
    runStage stages entry = .error panic ↔
      entry.2.state = .uninitialized ∧ panic = .forgotWireUp entry.1 := by
  unfold runStage
  split <;> simp_all [eq_comm]

section RunLoop

variable {entries : List (Sigma fun _ : Name => InitStageData V M T)}
  {stages result : AList fun _ : Name => StageData V M T}

theorem foldlM_runStage_cons (entry : Sigma fun _ : Name => InitStageData V M T) :
    (entry :: entries).foldlM runStage stages =
      (runStage stages entry).bind fun next => entries.foldlM runStage next := rfl

/-- `run`'s loop panics only on a stage that was never wired, and names it. -/
theorem foldlM_runStage_eq_error {panic : Panic V} (ran : entries.foldlM runStage stages = .error panic) :
    ∃ entry ∈ entries, entry.2.state = .uninitialized ∧ panic = .forgotWireUp entry.1 := by
  induction entries generalizing stages with
  | nil => simp [pure, Except.pure] at ran
  | cons entry entries ih =>
    rw [foldlM_runStage_cons] at ran
    cases step : runStage stages entry with
    | error failure =>
      rw [step, Except.bind, Except.error.injEq] at ran
      exact ⟨entry, List.mem_cons_self _ _, ran ▸ runStage_eq_error.mp step⟩
    | ok next =>
      rw [step, Except.bind] at ran
      obtain ⟨visited, mem, unwired⟩ := ih ran
      exact ⟨visited, List.mem_cons_of_mem _ mem, unwired⟩

/-- `run`'s loop panics when it meets a stage that was never wired. -/
theorem foldlM_runStage_panics {entry : Sigma fun _ : Name => InitStageData V M T}
    (mem : entry ∈ entries) (unwired : entry.2.state = .uninitialized) :
    ∃ panic, entries.foldlM runStage stages = .error panic := by
  induction entries generalizing stages with
  | nil => simp at mem
  | cons first entries ih =>
    rw [foldlM_runStage_cons]
    cases step : runStage stages first with
    | error panic => exact ⟨panic, rfl⟩
    | ok next =>
      have later : entry ∈ entries := by
        rcases List.mem_cons.mp mem with rfl | later
        · obtain ⟨state, idle, -⟩ := runStage_eq_ok.mp step
          simp [idle] at unwired
        · exact later
      exact ih later

/-- `run`'s loop leaves the entries of names it does not visit as they were. -/
theorem foldlM_runStage_lookup_of_not_mem {name : Name} (absent : name ∉ entries.keys)
    (ran : entries.foldlM runStage stages = .ok result) : result.lookup name = stages.lookup name := by
  induction entries generalizing stages with
  | nil =>
    obtain rfl : stages = result := by simpa [pure, Except.pure] using ran
    rfl
  | cons entry entries ih =>
    simp only [List.keys_cons, List.mem_cons, not_or] at absent
    rw [foldlM_runStage_cons] at ran
    cases step : runStage stages entry with
    | error panic => simp [step, Except.bind] at ran
    | ok next =>
      obtain ⟨state, -, rfl⟩ := runStage_eq_ok.mp step
      rw [step, Except.bind] at ran
      rw [ih absent.2 ran, AList.lookup_insert_ne absent.1]

/-- Every stage `run`'s loop visits ends up `Idle` in the result, waiting on `Receive`, with its
mailbox and no pending senders. -/
theorem foldlM_runStage_lookup (distinct : entries.NodupKeys)
    (ran : entries.foldlM runStage stages = .ok result) :
    ∀ entry ∈ entries, ∃ state, entry.2.state = .idle state ∧
      result.lookup entry.1 = some ⟨entry.1, entry.2.mailbox, .idle state, entry.2.transition,
        some .receive, []⟩ := by
  induction entries generalizing stages with
  | nil => simp
  | cons entry entries ih =>
    rw [List.nodupKeys_cons] at distinct
    rw [foldlM_runStage_cons] at ran
    cases step : runStage stages entry with
    | error panic => simp [step, Except.bind] at ran
    | ok next =>
      obtain ⟨state, idle, rfl⟩ := runStage_eq_ok.mp step
      rw [step, Except.bind] at ran
      intro visited mem
      rcases List.mem_cons.mp mem with rfl | later
      · exact ⟨state, idle, by
          rw [foldlM_runStage_lookup_of_not_mem distinct.1 ran, AList.lookup_insert]⟩
      · exact ih distinct.2 ran visited later

end RunLoop

theorem run_eq_error {builder : SimulationBuilder V M T} {panic : Panic V} :
    builder.run = .error panic ↔ builder.stages.entries.foldlM runStage ∅ = .error panic := by
  simp only [run]
  cases builder.stages.entries.foldlM runStage ∅ <;> simp [bind, Except.bind, pure, Except.pure]

theorem run_eq_ok {builder : SimulationBuilder V M T}
    {stages : AList fun _ : Name => StageData V M T} {size : Nat} :
    builder.run = .ok (stages, size) ↔
      builder.stages.entries.foldlM runStage ∅ = .ok stages ∧ size = builder.mailboxSize := by
  simp only [run]
  cases builder.stages.entries.foldlM runStage ∅ <;>
    simp [bind, Except.bind, pure, Except.pure, eq_comm]

end SimulationBuilder

end Amaru.PureStage
