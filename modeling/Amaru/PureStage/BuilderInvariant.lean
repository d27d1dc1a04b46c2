import Amaru.PureStage.Builder

set_option autoImplicit false

/- The caller's side of the builder: the names it has registered and, for each, whether it still
holds the name's `StageBuildRef` or has passed it to `wire_up`. A builder reached by the calls
the caller may make (`stage` and `output` on new names, `wire_up` once per ref) agrees with that
record at every point, so each such call succeeds, and `run` panics exactly when some registered
stage was never wired. -/
namespace Amaru.PureStage

variable {V M T : Type}

/-- What the caller has done with a registered name: it holds the `StageBuildRef` made with
`state`, or `wire_up` has left `state` in the stage. -/
inductive Registration (V : Type)
  | held (state : V)
  | wired (state : V)
deriving DecidableEq, Repr

/-- The stage state a registration calls for. -/
def Registration.recorded : Registration V → InitStageState V
  | .held _ => .uninitialized
  | .wired state => .idle state

@[simp] theorem Registration.recorded_held (state : V) : (Registration.held state).recorded = .uninitialized :=
  rfl

@[simp] theorem Registration.recorded_wired (state : V) : (Registration.wired state).recorded = .idle state :=
  rfl

abbrev Registry (V : Type) := AList fun _ : Name => Registration V

open SimulationBuilder

/-- The calls the caller may make, from `default`, each recording its effect in the registry. -/
inductive Reachable : SimulationBuilder V M T → Registry V → Prop
  | default : Reachable SimulationBuilder.default ∅
  | stage {builder next : SimulationBuilder V M T} {registry : Registry V} {name : Name}
      {transition : T} {state : V} {ref : StageBuildRef V}
      (reached : Reachable builder registry) (fresh : name ∉ registry)
      (call : builder.stage name transition state = .ok (next, ref)) :
      Reachable next (registry.insert name (.held state))
  | wireUp {builder next : SimulationBuilder V M T} {registry : Registry V} {ref : StageBuildRef V}
      {f : V → V} {stageRef : StageRef}
      (reached : Reachable builder registry) (held : registry.lookup ref.name = some (.held ref.state))
      (call : builder.wireUp ref f = .ok (next, stageRef)) :
      Reachable next (registry.insert ref.name (.wired (f ref.state)))
  | output {builder next : SimulationBuilder V M T} {registry : Registry V} {name : Name}
      {forward : T} {unit : V} {stageRef : StageRef}
      (reached : Reachable builder registry) (fresh : name ∉ registry)
      (call : builder.output name forward unit = .ok (next, stageRef)) :
      Reachable next (registry.insert name (.wired unit))
  | outputInterrupt {builder next : SimulationBuilder V M T} {registry : Registry V} {name : Name}
      {forwardOrInterrupt : T} {unit : V} {stageRef : StageRef}
      (reached : Reachable builder registry) (fresh : name ∉ registry)
      (call : builder.outputInterrupt name forwardOrInterrupt unit = .ok (next, stageRef)) :
      Reachable next (registry.insert name (.wired unit))
  | withMailboxSize {builder : SimulationBuilder V M T} {registry : Registry V}
      (reached : Reachable builder registry) (size : Nat) :
      Reachable (builder.withMailboxSize size) registry

/-- The builder's stage map agrees with the registry: the same names, a stage `Idle` exactly
where its ref was wired and holding what `wire_up` left, and nothing in any mailbox. -/
structure Consistent (builder : SimulationBuilder V M T) (registry : Registry V) : Prop where
  states : ∀ name,
    (builder.stages.lookup name).map (·.state) = (registry.lookup name).map Registration.recorded
  mailboxes : ∀ name data, builder.stages.lookup name = some data → data.mailbox = []

namespace Consistent

variable {builder : SimulationBuilder V M T} {registry : Registry V}

theorem mem_iff (consistent : Consistent builder registry) (name : Name) :
    name ∈ builder.stages ↔ name ∈ registry := by
  have := congrArg Option.isSome (consistent.states name)
  rw [Option.isSome_map', Option.isSome_map'] at this
  rw [← AList.lookup_isSome, ← AList.lookup_isSome, this]

theorem insert (consistent : Consistent builder registry) (name : Name)
    (data : InitStageData V M T) (registration : Registration V)
    (agrees : data.state = registration.recorded) (empty : data.mailbox = []) :
    Consistent { builder with stages := builder.stages.insert name data }
      (registry.insert name registration) where
  states other := by
    dsimp only
    by_cases same : other = name
    · subst same
      simp [agrees]
    · rw [AList.lookup_insert_ne same, AList.lookup_insert_ne same]
      exact consistent.states other
  mailboxes other stored found := by
    dsimp only at found
    by_cases same : other = name
    · subst same
      rw [AList.lookup_insert, Option.some.injEq] at found
      exact found ▸ empty
    · rw [AList.lookup_insert_ne same] at found
      exact consistent.mailboxes other stored found

theorem stage_eq (consistent : Consistent builder registry) {name : Name} (fresh : name ∉ registry)
    (transition : T) (state : V) :
    builder.stage name transition state =
      .ok ({ builder with stages := builder.stages.insert name ⟨.uninitialized, [], transition⟩ },
        ⟨name, state⟩) :=
  stage_of_not_mem ((consistent.mem_iff name).not.mpr fresh) transition state

/-- A registered name has a stage in the state its registration calls for: `Uninitialized`
while the caller holds its ref, `Idle` with what `wire_up` left once wired. -/
theorem lookup_of_registered (consistent : Consistent builder registry) {name : Name}
    {registration : Registration V} (registered : registry.lookup name = some registration) :
    ∃ data, builder.stages.lookup name = some data ∧ data.state = registration.recorded := by
  have agrees := consistent.states name
  rw [registered, Option.map_some'] at agrees
  exact Option.map_eq_some'.mp agrees

theorem outputStage_eq (consistent : Consistent builder registry) {name : Name}
    (fresh : name ∉ registry) (transition : T) (unit : V) :
    builder.outputStage name transition unit =
      .ok ({ builder with stages := builder.stages.insert name ⟨.idle unit, [], transition⟩ },
        ⟨name⟩) := by
  simp only [outputStage, consistent.stage_eq fresh, bind, Except.bind]
  rw [wireUp_of_lookup (AList.lookup_insert _)]
  simp

theorem stage (consistent : Consistent builder registry) (name : Name) (transition : T)
    (state : V) :
    Consistent { builder with stages := builder.stages.insert name ⟨.uninitialized, [], transition⟩ }
      (registry.insert name (.held state)) :=
  consistent.insert name _ (.held state) rfl rfl

theorem outputStage (consistent : Consistent builder registry) {name : Name} (transition : T)
    (unit : V) :
    Consistent { builder with stages := builder.stages.insert name ⟨.idle unit, [], transition⟩ }
      (registry.insert name (.wired unit)) :=
  consistent.insert name _ (.wired unit) rfl rfl

/-- `run` panics only on a registered name whose ref was never wired, and names it. -/
theorem run_eq_error (consistent : Consistent builder registry) {panic : Panic V}
    (ran : builder.run = .error panic) :
    ∃ name state, panic = .forgotWireUp name ∧ registry.lookup name = some (.held state) := by
  obtain ⟨⟨name, data⟩, mem, unwired, rfl⟩ :=
    foldlM_runStage_eq_error (SimulationBuilder.run_eq_error.mp ran)
  have agrees := consistent.states name
  rw [AList.mem_lookup_iff.mpr mem, Option.map_some'] at agrees
  obtain ⟨registration, found, recorded⟩ := Option.map_eq_some'.mp agrees.symm
  cases registration with
  | held state => exact ⟨name, state, rfl, found⟩
  | wired state => exact absurd (recorded.trans unwired) (by simp)

/-- `run` panics on a registered name whose ref was never wired. -/
theorem run_panics (consistent : Consistent builder registry) {name : Name} {state : V}
    (held : registry.lookup name = some (.held state)) : ∃ panic, builder.run = .error panic := by
  obtain ⟨data, found, unwired⟩ := consistent.lookup_of_registered held
  obtain ⟨panic, ran⟩ : ∃ panic, builder.stages.entries.foldlM runStage ∅ = .error panic :=
    foldlM_runStage_panics (AList.mem_lookup_iff.mp found) unwired
  exact ⟨panic, SimulationBuilder.run_eq_error.mpr ran⟩

/-- What `run` hands to `SimulationRunning::new`: every registered name, each wired stage `Idle`
with what `wire_up` left, waiting on `Receive`, its mailbox empty and no sender pending. -/
theorem run_eq_ok (consistent : Consistent builder registry)
    {stages : AList fun _ : Name => StageData V M T} {size : Nat}
    (ran : builder.run = .ok (stages, size)) :
    (∀ name, name ∈ stages ↔ name ∈ registry) ∧
    ∀ name state, registry.lookup name = some (.wired state) →
      ∃ data, stages.lookup name = some data ∧ data.name = name ∧ data.state = .idle state ∧
        data.waiting = some .receive ∧ data.mailbox = [] ∧ data.senders = [] := by
  have loop := (SimulationBuilder.run_eq_ok.mp ran).1
  have visited := foldlM_runStage_lookup builder.stages.nodupKeys loop
  refine ⟨fun name => ?_, fun name state wired => ?_⟩
  · rw [← consistent.mem_iff, ← AList.lookup_isSome, ← AList.lookup_isSome]
    cases found : builder.stages.lookup name with
    | none =>
      have absent : name ∉ builder.stages.entries.keys := AList.lookup_eq_none.mp found
      simp [foldlM_runStage_lookup_of_not_mem absent loop]
    | some data =>
      obtain ⟨_, -, lookup⟩ := visited ⟨name, data⟩ (AList.mem_lookup_iff.mp found)
      simp [lookup]
  · obtain ⟨data, found, idle⟩ := consistent.lookup_of_registered wired
    obtain ⟨state', idle', lookup⟩ := visited ⟨name, data⟩ (AList.mem_lookup_iff.mp found)
    obtain rfl : state' = state := by simpa [idle] using idle'.symm
    exact ⟨_, lookup, rfl, rfl, rfl, consistent.mailboxes name data found, rfl⟩

end Consistent

theorem Reachable.consistent {builder : SimulationBuilder V M T} {registry : Registry V}
    (reached : Reachable builder registry) : Consistent builder registry := by
  induction reached with
  | default => exact ⟨fun _ => rfl, fun _ _ found => by simp [SimulationBuilder.default] at found⟩
  | stage _ fresh call ih =>
    rw [ih.stage_eq fresh, Except.ok.injEq, Prod.mk.injEq] at call
    exact call.1 ▸ ih.stage _ _ _
  | @wireUp builder next registry ref f stageRef _ held call ih =>
    obtain ⟨data, found, -⟩ := ih.lookup_of_registered held
    rw [wireUp_of_lookup found, Except.ok.injEq, Prod.mk.injEq] at call
    exact call.1 ▸ ih.insert ref.name _ (.wired (f ref.state)) rfl (ih.mailboxes ref.name data found)
  | output _ fresh call ih | outputInterrupt _ fresh call ih =>
    simp only [SimulationBuilder.output, SimulationBuilder.outputInterrupt,
      ih.outputStage_eq fresh, Except.ok.injEq, Prod.mk.injEq] at call
    exact call.1 ▸ ih.outputStage _ _
  | withMailboxSize _ _ ih => exact ⟨ih.states, ih.mailboxes⟩

/-- Along every sequence of calls the caller may make, the builder agrees with the caller's
record: one entry per registered name, `Idle` exactly where the ref was wired. Each further such
call succeeds. `run` panics exactly when some registered stage was never wired, and names one;
otherwise every registered name was wired, and `run` hands `SimulationRunning::new` exactly the
registered names, each `Idle` with what `wire_up` left, waiting on `Receive`, with an empty
mailbox and no pending senders. -/
theorem reachable_builder_run {builder : SimulationBuilder V M T} {registry : Registry V}
    (reached : Reachable builder registry) :
    Consistent builder registry ∧
    (∀ name transition state, name ∉ registry →
      ∃ next, builder.stage name transition state = .ok (next, ⟨name, state⟩)) ∧
    (∀ (ref : StageBuildRef V) (f : V → V), registry.lookup ref.name = some (.held ref.state) →
      ∃ next, builder.wireUp ref f = .ok (next, ⟨ref.name⟩)) ∧
    (∀ name forward unit, name ∉ registry →
      ∃ next, builder.output name forward unit = .ok (next, ⟨name⟩)) ∧
    (∀ name forwardOrInterrupt unit, name ∉ registry →
      ∃ next, builder.outputInterrupt name forwardOrInterrupt unit = .ok (next, ⟨name⟩)) ∧
    (∀ panic, builder.run = .error panic →
      ∃ name state, panic = .forgotWireUp name ∧ registry.lookup name = some (.held state)) ∧
    (∀ name state, registry.lookup name = some (.held state) →
      ∃ panic, builder.run = .error panic) ∧
    ∀ stages size, builder.run = .ok (stages, size) →
      (∀ name, name ∈ stages ↔ name ∈ registry) ∧
      (∀ name ∈ registry, ∃ state, registry.lookup name = some (.wired state)) ∧
      ∀ name state, registry.lookup name = some (.wired state) →
        ∃ data, stages.lookup name = some data ∧ data.name = name ∧ data.state = .idle state ∧
          data.waiting = some .receive ∧ data.mailbox = [] ∧ data.senders = [] := by
  have consistent := reached.consistent
  refine ⟨consistent, fun name transition state fresh => ⟨_, consistent.stage_eq fresh transition state⟩,
    fun ref f held => ?_, fun name forward unit fresh => ⟨_, consistent.outputStage_eq fresh forward unit⟩,
    fun name forwardOrInterrupt unit fresh =>
      ⟨_, consistent.outputStage_eq fresh forwardOrInterrupt unit⟩,
    fun _ ran => consistent.run_eq_error ran, fun _ _ held => consistent.run_panics held,
    fun stages size ran => ⟨(consistent.run_eq_ok ran).1, fun name mem => ?_, (consistent.run_eq_ok ran).2⟩⟩
  · obtain ⟨data, found, -⟩ := consistent.lookup_of_registered held
    exact ⟨_, wireUp_of_lookup found f⟩
  · obtain ⟨registration, found⟩ := Option.isSome_iff_exists.mp (AList.lookup_isSome.mpr mem)
    cases registration with
    | held state =>
      obtain ⟨panic, failed⟩ := consistent.run_panics found
      simp [ran] at failed
    | wired state => exact ⟨state, found⟩

/-- The builder of the crate's doc example: stage `basic` with state 1, an `output` stage, and
`basic` wired by a mutator that adds one. -/
def basicBuilder : SimulationBuilder Nat Nat Unit :=
  ⟨((((∅ : AList fun _ : Name => InitStageData Nat Nat Unit).insert "basic" ⟨.uninitialized, [], ()⟩).insert
    "output" ⟨.uninitialized, [], ()⟩).insert "output" ⟨.idle 0, [], ()⟩).insert "basic"
    ⟨.idle 2, [], ()⟩, 10⟩

def basicRegistry : Registry Nat :=
  (((∅ : Registry Nat).insert "basic" (.held 1)).insert "output" (.wired 0)).insert "basic" (.wired 2)

theorem basicBuilder_reachable : Reachable basicBuilder basicRegistry := by
  have staged : Reachable (⟨(∅ : AList fun _ : Name => InitStageData Nat Nat Unit).insert "basic"
      ⟨.uninitialized, [], ()⟩, 10⟩ : SimulationBuilder Nat Nat Unit)
      ((∅ : Registry Nat).insert "basic" (.held 1)) :=
    .stage .default (by decide) rfl
  have withOutput : Reachable (⟨(((∅ : AList fun _ : Name => InitStageData Nat Nat Unit).insert
      "basic" ⟨.uninitialized, [], ()⟩).insert "output" ⟨.uninitialized, [], ()⟩).insert "output"
      ⟨.idle 0, [], ()⟩, 10⟩ : SimulationBuilder Nat Nat Unit)
      (((∅ : Registry Nat).insert "basic" (.held 1)).insert "output" (.wired 0)) :=
    .output staged (by decide) rfl
  exact @Reachable.wireUp Nat Nat Unit _ _ _ ⟨"basic", 1⟩ (· + 1) ⟨"basic"⟩ withOutput (by decide) rfl

theorem basicBuilder_reachable_run :
    Reachable basicBuilder basicRegistry ∧ Consistent basicBuilder basicRegistry ∧
      ∀ stages size, basicBuilder.run = .ok (stages, size) →
        ∀ name, name ∈ stages ↔ name ∈ basicRegistry := by
  obtain ⟨consistent, -, -, -, -, -, -, ran⟩ := reachable_builder_run basicBuilder_reachable
  exact ⟨basicBuilder_reachable, consistent, fun stages size ok => (ran stages size ok).1⟩

/-- On a builder the caller has reached, `stage` on a registered name panics, naming it and the
stage's state: `Uninitialized` while the caller holds its ref, `Idle` with what `wire_up` left
once wired. -/
theorem reachable_stage_registered {builder : SimulationBuilder V M T} {registry : Registry V}
    (reached : Reachable builder registry) {name : Name} {registration : Registration V}
    (registered : registry.lookup name = some registration) (transition : T) (state : V) :
    builder.stage name transition state = .error (.stageExists name registration.recorded) := by
  obtain ⟨data, found, recorded⟩ := reached.consistent.lookup_of_registered registered
  simp [SimulationBuilder.stage, found, recorded]

theorem basicBuilder_stage_basic :
    Reachable basicBuilder basicRegistry ∧ basicRegistry.lookup "basic" = some (.wired 2) ∧
      basicBuilder.stage "basic" () 5 = .error (.stageExists "basic" (Registration.wired 2).recorded) :=
  ⟨basicBuilder_reachable, by decide,
    reachable_stage_registered basicBuilder_reachable (by decide) () 5⟩

end Amaru.PureStage
