import Amaru.Sim.WorldRefinement
import Amaru.Heap.Ties

set_option autoImplicit false

/- Runs of the World: the first `n` calls of `step_world` from any World, with the entries
they pop. Each run is a run of the discrete-event machine from `Machine.start`, so the
machine's invariants (nothing lost or duplicated, nothing delivered in the simulated past, the
trace only grows) hold of every World run. -/
namespace Amaru.Sim

open Amaru.Heap

variable {σ Msg : Type}

/-- The first `n` calls of `step_world` from `world`: the entries they pop and `deliver`, in order,
and the World after them, or the panic the delivery of the last one raised. -/
def World.steps : Nat → World σ Msg → List (Entry Msg) × Except Panic (World σ Msg)
  | 0, world => ([], .ok world)
  | n + 1, world =>
    match world.heap.pop with
    | (some entry, heap) =>
      match deliver world entry heap with
      | .ok next => (entry :: (World.steps n next).1, (World.steps n next).2)
      | .error panic => ([entry], .error panic)
    | (none, _) => World.steps n world

@[simp] theorem World.steps_zero (world : World σ Msg) : world.steps 0 = ([], .ok world) := rfl

theorem World.steps_succ (n : Nat) (world : World σ Msg) :
    world.steps (n + 1) =
      match stepWorld world with
      | .ok (_, next) => (world.heap.pop.1.toList ++ (next.steps n).1, (next.steps n).2)
      | .error panic => (world.heap.pop.1.toList, .error panic) := by
  rw [World.steps]
  rcases popped : world.heap.pop with ⟨_ | entry, heap⟩
  · simp [stepWorld, popped]
  · cases delivered : deliver world entry heap <;> simp [stepWorld, popped, delivered, Except.map]

theorem Machine.Panics.mem_pending {m : Machine σ Msg} {entry : Entry Msg} {panic : Panic}
    (panics : m.Panics entry panic) : entry ∈ m.pending := by
  cases panics <;> assumption

theorem steps_simulate_ok (n : Nat) {world world' : World σ Msg} {m : Machine σ Msg}
    (related : Refines world m) (ran : (world.steps n).2 = .ok world') :
    ∃ m', m.Reaches m' ∧ Refines world' m' ∧ m'.delivered = m.delivered ++ (world.steps n).1 := by
  induction n generalizing world m with
  | zero =>
    obtain rfl : world = world' := by simpa using ran
    exact ⟨m, .refl, related, by simp⟩
  | succ n ih =>
    rcases stepped : stepWorld world with panic | ⟨next, mid⟩
    · simp [World.steps_succ, stepped] at ran
    · simp only [World.steps_succ, stepped] at ran ⊢
      obtain ⟨m₁, step, related₁, delivered₁⟩ := stepWorld_simulates related stepped
      obtain ⟨m', reaches, related', delivered'⟩ := ih related₁ ran
      exact ⟨m', .head ⟨next, step⟩ reaches, related', by simp [delivered', delivered₁]⟩

theorem steps_simulate_error (n : Nat) {world : World σ Msg} {m : Machine σ Msg} {panic : Panic}
    (related : Refines world m) (ran : (world.steps n).2 = .error panic) :
    ∃ m' entry, m.Reaches m' ∧ m'.Panics entry panic ∧
      m.delivered ++ (world.steps n).1 = m'.delivered ++ [entry] := by
  induction n generalizing world m with
  | zero => simp at ran
  | succ n ih =>
    rcases stepped : stepWorld world with panic' | ⟨next, mid⟩
    · simp only [World.steps_succ, stepped, Except.error.injEq] at ran ⊢
      obtain ⟨entry, popped, panics⟩ := stepWorld_panics related (ran ▸ stepped)
      exact ⟨m, entry, .refl, panics, by simp [popped]⟩
    · simp only [World.steps_succ, stepped] at ran ⊢
      obtain ⟨m₁, step, related₁, delivered₁⟩ := stepWorld_simulates related stepped
      obtain ⟨m', entry, reaches, panics, delivered'⟩ := ih related₁ ran
      exact ⟨m', entry, .head ⟨next, step⟩ reaches, panics, by simp [← delivered', delivered₁]⟩

/-- From a World's start, a run that ends well reaches a machine state that has delivered
exactly the popped entries. -/
theorem steps_reach_ok (n : Nat) {world world' : World σ Msg}
    (ran : (world.steps n).2 = .ok world') :
    ∃ m', (Machine.start world).Reaches m' ∧ Refines world' m' ∧
      m'.delivered = (world.steps n).1 :=
  steps_simulate_ok n (refines_start world) ran

theorem steps_reach_error (n : Nat) {world : World σ Msg} {panic : Panic}
    (ran : (world.steps n).2 = .error panic) :
    ∃ m' entry, (Machine.start world).Reaches m' ∧ m'.Panics entry panic ∧
      (world.steps n).1 = m'.delivered ++ [entry] :=
  steps_simulate_error n (refines_start world) ran

/-- Every run keeps the machine's time order: the entries popped so far come in arrival order,
and none is due after an entry the heap still holds. -/
theorem steps_inTimeOrder (n : Nat) (world : World σ Msg) :
    (world.steps n).1.Pairwise (fun earlier later => earlier.arrivalTime ≤ later.arrivalTime) ∧
    ∀ world', (world.steps n).2 = .ok world' →
      ∀ d ∈ (world.steps n).1, ∀ e ∈ world'.heap.elements, d.arrivalTime ≤ e.arrivalTime := by
  rcases ran : (world.steps n).2 with panic | world'
  · obtain ⟨m', entry, reaches, panics, delivered⟩ := steps_reach_error n ran
    have ordered := reaches.inTimeOrder_of_start
    rw [delivered]
    refine ⟨List.pairwise_append.mpr ⟨ordered.sorted, List.pairwise_singleton _ _, ?_⟩, by simp⟩
    intro d mem e atEntry
    rw [List.mem_singleton.mp atEntry]
    exact ordered.bounded d mem entry panics.mem_pending
  · obtain ⟨m', reaches, related, delivered⟩ := steps_reach_ok n ran
    have ordered := reaches.inTimeOrder_of_start
    rw [← delivered]
    refine ⟨ordered.sorted, ?_⟩
    rintro _ ⟨⟩ d mem e later
    exact ordered.bounded d mem e (related.pending ▸ later)

/-- The World refines the discrete-event machine. A call of `step_world` that does not panic is
a machine step from every machine state the World implements (`Done` exactly when nothing is
pending, and then the World is unchanged); one that panics is a machine panic. Along the first
`n` calls, the World implements a state the machine reaches from `Machine.start` having
delivered exactly the popped entries; every entry ever inserted is delivered once or still in
the heap, and the trace only grows. -/
theorem world_refines_machine (world : World σ Msg) :
    (∀ m, Refines world m →
      (∀ next world', stepWorld world = .ok (next, world') →
        (next = .done → world' = world) ∧ ∃ m', m.Step next m' ∧ Refines world' m') ∧
      ∀ panic, stepWorld world = .error panic → ∃ entry, m.Panics entry panic) ∧
    ∀ n world', (world.steps n).2 = .ok world' →
      ∃ m', (Machine.start world).Reaches m' ∧ Refines world' m' ∧
        m'.delivered = (world.steps n).1 ∧
        world'.heap.elements + ↑(world.steps n).1 = m'.inserted ∧
        world.trace <+: world'.trace := by
  refine ⟨fun m related => ⟨fun next world' stepped => ?_, fun panic stepped => ?_⟩,
    fun n world' ran => ?_⟩
  · obtain ⟨m', step, related', -⟩ := stepWorld_simulates related stepped
    exact ⟨fun done => (stepWorld_done (done ▸ stepped)).1, m', step, related'⟩
  · obtain ⟨entry, -, panics⟩ := stepWorld_panics related stepped
    exact ⟨entry, panics⟩
  · obtain ⟨m', reaches, related, popped⟩ := steps_reach_ok n ran
    refine ⟨m', reaches, related, popped, ?_, ?_⟩
    · rw [related.pending, ← popped]
      exact reaches.conserved_of_start
    · rw [related.trace]
      exact reaches.trace_extends

def silentNode : NodeHandle Unit Nat := ⟨(), fun state _ => .ok ([], state)⟩

/-- One request from client `c1` to `n2`, a node the World does not have. -/
def strayWorld : World Unit Nat := World.new [⟨0, ⟨"c1", "n2", 0⟩⟩] [("n1", silentNode)]

theorem stepWorld_panics_on_unknown_destination :
    strayWorld.heap.elements ≠ 0 ∧ stepWorld strayWorld = .error (.unknownDestination "n2") :=
  ⟨by with_unfolding_all decide, by with_unfolding_all rfl⟩

/-- No call of `step_world` delivers in the simulated past: the popped arrival times never
decrease, and no entry left in the heap is due before the last one popped. -/
theorem popped_arrival_times_monotone (n : Nat) (world : World σ Msg) :
    ((world.steps n).1.map Entry.arrivalTime).Sorted (· ≤ ·) ∧
    ∀ world', (world.steps n).2 = .ok world' →
      ∀ last ∈ (world.steps n).1.getLast?, ∀ entry ∈ world'.heap.elements,
        last.arrivalTime ≤ entry.arrivalTime := by
  obtain ⟨sorted, bounded⟩ := steps_inTimeOrder n world
  exact ⟨List.pairwise_map.mpr sorted, fun world' ran last mem =>
    bounded world' ran last (List.mem_of_getLast?_eq_some mem)⟩

/-- Four requests from client `c1` to `n1`, all due at time 0, given to `World::new` in the order
of their bodies. -/
def tiedWorld : World Unit Nat :=
  World.new ((List.range 4).map fun i => ⟨0, ⟨"c1", "n1", i⟩⟩) [("n1", silentNode)]

theorem tiedWorld_delivers_out_of_insertion_order :
    (tiedWorld.steps 4).1.map (·.envelope.body) = [0, 2, 1, 3] ∧
    ((runWorld 5 tiedWorld).map fun result => result.toOption.map fun run => run.1.map (·.body)) =
      some (some [0, 2, 1, 3]) :=
  ⟨by with_unfolding_all decide, by with_unfolding_all decide⟩

theorem scheduleOutputs_data_of_le {arrivalTime : Nat} (outputs : List (Envelope Msg))
    {heap : BinaryHeap (@Entry.key Msg)}
    (due : ∀ i < heap.len, (heap.data i).arrivalTime ≤ arrivalTime + netDelay) :
    heap.len ≤ (scheduleOutputs arrivalTime outputs heap).len ∧
      ∀ i < heap.len, (scheduleOutputs arrivalTime outputs heap).data i = heap.data i := by
  induction outputs generalizing heap with
  | nil => exact ⟨le_rfl, fun _ _ => rfl⟩
  | cons output outputs ih =>
    have pushed : (heap.push ⟨arrivalTime + netDelay, output⟩).data =
        Function.update heap.data heap.len ⟨arrivalTime + netDelay, output⟩ :=
      BinaryHeap.push_data_of_le fun i inside => (Entry.key_le_key _ _).mpr (due i inside)
    have dueAfter : ∀ i < (heap.push ⟨arrivalTime + netDelay, output⟩).len,
        ((heap.push ⟨arrivalTime + netDelay, output⟩).data i).arrivalTime ≤
          arrivalTime + netDelay := by
      intro i inside
      rw [pushed]
      by_cases atEnd : i = heap.len
      · rw [atEnd, Function.update_same]
      · rw [Function.update_noteq atEnd]
        exact due i (by rw [BinaryHeap.len_push] at inside; omega)
    obtain ⟨longer, kept⟩ := ih dueAfter
    simp only [scheduleOutputs, List.foldl_cons, BinaryHeap.len_push] at longer kept ⊢
    refine ⟨by omega, fun i inside => ?_⟩
    rw [kept i (by omega), pushed, Function.update_noteq (by omega)]

theorem steps_succ_fst (n : Nat) (world : World σ Msg) :
    ∃ later, (world.steps (n + 1)).1 = world.heap.pop.1.toList ++ later := by
  rw [World.steps_succ]
  split
  · exact ⟨_, rfl⟩
  · exact ⟨[], (List.append_nil _).symm⟩

theorem steps_take_two {world : World σ Msg} {first : Entry Msg}
    {rest : BinaryHeap (@Entry.key Msg)} (handled : (stepWorld world).toBool)
    (popped : world.heap.pop = (some first, rest)) (nonempty : rest.len ≠ 0)
    (due : ∀ i < rest.len, (rest.data i).arrivalTime ≤ first.arrivalTime + netDelay) (n : Nat) :
    (world.steps (n + 2)).1.take 2 = [first, rest.data 0] := by
  cases stepped : stepWorld world with
  | error panic => simp [stepped, Except.toBool] at handled
  | ok result =>
    obtain ⟨outputs, scheduled⟩ := stepWorld_heap popped stepped
    obtain ⟨longer, kept⟩ := scheduleOutputs_data_of_le outputs due
    rw [← scheduled] at longer kept
    have second : result.2.heap.pop.1 = some (rest.data 0) := by
      rw [BinaryHeap.pop_fst (by omega), kept 0 (by omega)]
    obtain ⟨later, delivered⟩ := steps_succ_fst n result.2
    rw [World.steps_succ, stepped]
    simp only [delivered, popped, second, Option.toList_some]
    rfl

/-- Entries due at one time are not delivered in the order `World::new` is given them: from four
such entries on, whatever they and the nodes are, the second call of `step_world` delivers the
third entry, once the first call has not panicked. -/
theorem steps_tied_delivers_third_second [Inhabited Msg] (first second third fourth : Entry Msg)
    (rest : List (Entry Msg)) (nodeHandles : List (NodeId × NodeHandle σ Msg))
    (tied : ∀ entry ∈ second :: third :: fourth :: rest, entry.arrivalTime = first.arrivalTime)
    (handled : (stepWorld (World.new (first :: second :: third :: fourth :: rest) nodeHandles)).toBool)
    (n : Nat) :
    ((World.new (first :: second :: third :: fourth :: rest) nodeHandles).steps (n + 2)).1.take 2 =
      [first, third] := by
  have keys : ∀ entry ∈ first :: second :: third :: fourth :: rest, entry.key = first.key := by
    intro entry mem
    rcases List.mem_cons.mp mem with rfl | later
    · rfl
    · exact congrArg OrderDual.toDual (tied entry later)
  obtain ⟨popped, root, nonempty, stillTied⟩ := BinaryHeap.fromVec_pop_of_tied keys
  have delivered := steps_take_two handled (Prod.ext popped rfl) nonempty
    (fun i inside => (congrArg OrderDual.ofDual (stillTied i inside)).le.trans (Nat.le_add_right _ _)) n
  exact delivered.trans (congrArg (fun entry => [first, entry]) root)

theorem tiedWorld_delivers_third_second :
    ((tiedWorld.steps 4).1.take 2).map (·.envelope.body) = [0, 2] :=
  congrArg (List.map (·.envelope.body))
    (steps_tied_delivers_third_second ⟨0, ⟨"c1", "n1", 0⟩⟩ ⟨0, ⟨"c1", "n1", 1⟩⟩
      ⟨0, ⟨"c1", "n1", 2⟩⟩ ⟨0, ⟨"c1", "n1", 3⟩⟩ [] [("n1", silentNode)] (by decide)
      (by with_unfolding_all decide) 2)

theorem steps_trace_extends (n : Nat) {world world' : World σ Msg}
    (ran : (world.steps n).2 = .ok world') : world.trace <+: world'.trace := by
  obtain ⟨m', reaches, related, -⟩ := steps_reach_ok n ran
  rw [related.trace]
  exact reaches.trace_extends

theorem runWorldLoop_steps (fuel : Nat) {world : World σ Msg} {result : Except Panic (World σ Msg)}
    (ran : runWorldLoop fuel world = some result) :
    ∃ n, (world.steps n).2 = result ∧ ∀ world', result = .ok world' → world'.heap.elements = 0 := by
  induction fuel generalizing world with
  | zero => simp [runWorldLoop] at ran
  | succ fuel ih =>
    rcases stepped : stepWorld world with panic | ⟨_ | _, next⟩
    · simp only [runWorldLoop, stepped, Option.some.injEq] at ran
      exact ⟨1, by simp [World.steps_succ, stepped, ran], by simp [← ran]⟩
    · simp only [runWorldLoop, stepped, Option.some.injEq] at ran
      obtain ⟨rfl, empty⟩ := stepWorld_done stepped
      exact ⟨0, by simp [ran], fun _ finished => by simp_all⟩
    · simp only [runWorldLoop, stepped] at ran
      obtain ⟨n, steps, empty⟩ := ih ran
      exact ⟨n + 1, by simp [World.steps_succ, stepped, steps], empty⟩

/-- What `run_world` returns is the end of a run of `step_world`, with the heap empty, and the
part of its trace after the World's. -/
theorem runWorld_steps {fuel : Nat} {world world' : World σ Msg} {appended : List (Envelope Msg)}
    (ran : runWorld fuel world = some (.ok (appended, world'))) :
    ∃ n, (world.steps n).2 = .ok world' ∧ world'.heap.elements = 0 ∧
      appended = world'.trace.drop world.trace.length := by
  simp only [runWorld, Option.map_eq_some'] at ran
  obtain ⟨result, looped, finished⟩ := ran
  cases result with
  | error panic => cases finished
  | ok final =>
    simp only [Except.map, Except.ok.injEq, Prod.mk.injEq] at finished
    obtain ⟨rfl, rfl⟩ := finished
    obtain ⟨n, steps, empty⟩ := runWorldLoop_steps fuel looped
    exact ⟨n, steps, empty _ rfl, rfl⟩

/-- `run_world` returns exactly what it appended to the trace, and returns only once the heap is
empty. -/
theorem runWorld_appends {fuel : Nat} {world world' : World σ Msg} {appended : List (Envelope Msg)}
    (ran : runWorld fuel world = some (.ok (appended, world'))) :
    world'.trace = world.trace ++ appended ∧ world'.heap.elements = 0 := by
  obtain ⟨n, steps, empty, rfl⟩ := runWorld_steps ran
  exact ⟨(List.prefix_iff_eq_append.mp (steps_trace_extends n steps)).symm, empty⟩

/-- What `run_world` returns, delivery by delivery: the entries it delivered, in arrival order,
each with what its node's handler returned on it. The slice it returns is, per delivery, the
delivered envelope if a client sent it, then the answers to clients; the entries delivered are
the heap's and the outputs to nodes, each exactly once. -/
theorem runWorld_trace_blocks {fuel : Nat} {world world' : World σ Msg}
    {appended : List (Envelope Msg)} (ran : runWorld fuel world = some (.ok (appended, world'))) :
    ∃ blocks : List (Entry Msg × List (Envelope Msg)),
      (blocks.map fun block => block.1.arrivalTime).Sorted (· ≤ ·) ∧
      ↑(blocks.map Prod.fst) = world.heap.elements +
        ↑(blocks.flatMap fun block => scheduled block.1.arrivalTime block.2) ∧
      (∀ block ∈ blocks, ∃ node state state', world.nodes block.1.envelope.dest = some node ∧
        node.handle state block.1.envelope = .ok (block.2, state')) ∧
      appended = blocks.flatMap fun block => traced block.1.envelope block.2 := by
  obtain ⟨n, steps, empty, rfl⟩ := runWorld_steps ran
  obtain ⟨m', reaches, related, -⟩ := steps_reach_ok n steps
  obtain ⟨blocks, delivered, trace, inserted, handlers⟩ := reaches.blocks
  have sorted := reaches.inTimeOrder_of_start.sorted
  rw [delivered, Machine.start_delivered, List.nil_append, List.pairwise_map] at sorted
  have conserved := reaches.conserved_of_start
  rw [Machine.Conserved, ← related.pending, empty, zero_add, delivered,
    Machine.start_delivered, List.nil_append, inserted, Machine.start_inserted] at conserved
  refine ⟨blocks, List.pairwise_map.mpr sorted, conserved, handlers, ?_⟩
  rw [related.trace, trace, Machine.start_trace, List.drop_left]

theorem runWorldLoop_isSome_of_shrinks {P : Machine σ Msg → Prop}
    (shrinks : ∀ {m m' : Machine σ Msg}, P m → m.Step .continue m' →
      P m' ∧ Multiset.card m'.pending < Multiset.card m.pending)
    (fuel : Nat) {world : World σ Msg} {m : Machine σ Msg} (related : Refines world m)
    (holds : P m) (below : Multiset.card m.pending < fuel) : (runWorldLoop fuel world).isSome := by
  induction fuel generalizing world m with
  | zero => omega
  | succ fuel ih =>
    rcases stepped : stepWorld world with panic | ⟨_ | _, next⟩
    · simp [runWorldLoop, stepped]
    · simp [runWorldLoop, stepped]
    · obtain ⟨m', step, related', -⟩ := stepWorld_simulates related stepped
      obtain ⟨holds', fewer⟩ := shrinks holds step
      simp only [runWorldLoop, stepped]
      exact ih related' holds' (by omega)

theorem Machine.Step.keeps {P : Machine σ Msg → Prop}
    (shrinks : ∀ {m m' : Machine σ Msg}, P m → m.Step .continue m' →
      P m' ∧ Multiset.card m'.pending < Multiset.card m.pending)
    {m m' : Machine σ Msg} {next : Next} (holds : P m) (step : m.Step next m') : P m' := by
  cases next
  · cases step
    exact holds
  · exact (shrinks holds step).1

/-- `run_world` under an invariant that every delivery keeps, that leaves fewer entries pending
at each delivery, and under which no delivery panics: it returns within the fuel, at a World
that implements a state the machine reaches, with nothing pending. -/
theorem runWorld_of_invariant {P : Machine σ Msg → Prop}
    (shrinks : ∀ {m m' : Machine σ Msg}, P m → m.Step .continue m' →
      P m' ∧ Multiset.card m'.pending < Multiset.card m.pending)
    (safe : ∀ {m : Machine σ Msg} {entry : Entry Msg} {panic : Panic}, P m →
      m.Panics entry panic → False)
    {fuel : Nat} {world : World σ Msg} (holds : P (Machine.start world))
    (below : world.heap.len < fuel) :
    ∃ m' final, (Machine.start world).Reaches m' ∧ P m' ∧ Refines final m' ∧ m'.pending = 0 ∧
      runWorld fuel world = some (.ok (final.trace.drop world.trace.length, final)) := by
  have invariant : ∀ {m'}, (Machine.start world).Reaches m' → P m' :=
    fun reaches => reaches.invariant (fun holds step => Machine.Step.keeps shrinks holds step) holds
  obtain ⟨result, looped⟩ := Option.isSome_iff_exists.mp
    (runWorldLoop_isSome_of_shrinks shrinks fuel (refines_start world) holds (by simpa using below))
  obtain ⟨n, ran, empty⟩ := runWorldLoop_steps _ looped
  cases result with
  | error panic =>
    obtain ⟨m', entry, reaches, panics, -⟩ := steps_reach_error n ran
    exact (safe (invariant reaches) panics).elim
  | ok final =>
    obtain ⟨m', reaches, related, -⟩ := steps_reach_ok n ran
    refine ⟨m', final, reaches, invariant reaches, related, related.pending ▸ empty final rfl, ?_⟩
    simp only [runWorld, looped]
    rfl

theorem runWorldLoop_isSome_of_answersOnlyClients (fuel : Nat) {world : World σ Msg}
    (quiet : AnswersOnlyClients world.nodes) (below : world.heap.len < fuel) :
    (runWorldLoop fuel world).isSome := by
  refine @runWorldLoop_isSome_of_shrinks σ Msg (fun m => AnswersOnlyClients m.nodes)
    (fun quiet step => ?_) fuel world _ (refines_start world) quiet
    (by simpa [Machine.start] using below)
  obtain ⟨quiet', shrinks⟩ := step.answersOnlyClients quiet
  exact ⟨quiet', by omega⟩

/-- With handlers that answer only clients, `run_world` returns, or panics, within one call of
`step_world` per pending entry and a last call that finds the heap empty. -/
theorem runWorld_isSome_of_answersOnlyClients (world : World σ Msg)
    (quiet : AnswersOnlyClients world.nodes) : (runWorld (world.heap.len + 1) world).isSome := by
  simpa [runWorld] using runWorldLoop_isSome_of_answersOnlyClients _ quiet (Nat.lt_succ_self _)

/-- A node that answers client `c1` with each message it gets, shifted by how many it answered
before. -/
def answerNode : NodeHandle Nat Nat :=
  ⟨0, fun count envelope => .ok ([⟨"n1", "c1", envelope.body + count⟩], count + 1)⟩

/-- Three requests from `c1` to `n1`, two of them due at once. -/
def answerWorld : World Nat Nat :=
  World.new [⟨0, ⟨"c1", "n1", 7⟩⟩, ⟨1, ⟨"c1", "n1", 8⟩⟩, ⟨1, ⟨"c1", "n1", 9⟩⟩] [("n1", answerNode)]

theorem answerWorld_returns :
    AnswersOnlyClients answerWorld.nodes ∧
      (runWorld (answerWorld.heap.len + 1) answerWorld).isSome := by
  have quiet : AnswersOnlyClients answerWorld.nodes := by
    intro id node found state envelope outgoing state' handled o mem
    simp only [answerWorld, World.new, collectNodes, List.foldl_cons, List.foldl_nil,
      Function.update_apply] at found
    split_ifs at found
    obtain rfl := Option.some.inj found
    obtain ⟨rfl, -⟩ := Prod.mk.inj (Except.ok.inj handled)
    rw [List.mem_singleton.mp mem]
    exact isClient_c1
  exact ⟨quiet, runWorld_isSome_of_answersOnlyClients answerWorld quiet⟩

def tiedRun : List (Envelope Nat) × World Unit Nat :=
  match runWorld 5 tiedWorld with
  | some (.ok result) => result
  | _ => ([], tiedWorld)

/-- Node `n1` passes each message on to `n2`, and `n2` answers client `c1`. -/
def relayNodes : List (NodeId × NodeHandle Unit Nat) :=
  [("n1", ⟨(), fun state envelope => .ok ([⟨"n1", "n2", envelope.body⟩], state)⟩),
    ("n2", ⟨(), fun state envelope => .ok ([⟨"n2", "c1", envelope.body + 1⟩], state)⟩)]

/-- Two requests from `c1` to `n1` through the relay: each is delivered, passed on to `n2` with a
delay, and answered from there. -/
def relayWorld : World Unit Nat :=
  World.new [⟨0, ⟨"c1", "n1", 7⟩⟩, ⟨1, ⟨"c1", "n1", 8⟩⟩] relayNodes

def relayRun : List (Envelope Nat) × World Unit Nat :=
  match runWorld 5 relayWorld with
  | some (.ok result) => result
  | _ => ([], relayWorld)

theorem relayWorld_trace_blocks :
    runWorld 5 relayWorld = some (.ok (relayRun.1, relayRun.2)) ∧
      ∃ blocks : List (Entry Nat × List (Envelope Nat)),
        (blocks.map fun block => block.1.arrivalTime).Sorted (· ≤ ·) ∧
        ↑(blocks.map Prod.fst) = relayWorld.heap.elements +
          ↑(blocks.flatMap fun block => scheduled block.1.arrivalTime block.2) ∧
        (∀ block ∈ blocks, ∃ node state state', relayWorld.nodes block.1.envelope.dest = some node ∧
          node.handle state block.1.envelope = .ok (block.2, state')) ∧
        relayRun.1 = blocks.flatMap fun block => traced block.1.envelope block.2 := by
  have ran : runWorld 5 relayWorld = some (.ok (relayRun.1, relayRun.2)) := by
    with_unfolding_all rfl
  exact ⟨ran, runWorld_trace_blocks ran⟩

/-- The relay's trace: each request, and later the answer `n2` sends for it. -/
example : relayRun.1 = [⟨"c1", "n1", 7⟩, ⟨"c1", "n1", 8⟩, ⟨"n2", "c1", 8⟩, ⟨"n2", "c1", 9⟩] := by
  with_unfolding_all rfl

theorem tiedWorld_run_appends :
    runWorld 5 tiedWorld = some (.ok tiedRun) ∧
      tiedRun.2.trace = tiedWorld.trace ++ tiedRun.1 ∧ tiedRun.2.heap.elements = 0 := by
  have ran : runWorld 5 tiedWorld = some (.ok tiedRun) := by with_unfolding_all rfl
  exact ⟨ran, runWorld_appends ran⟩

end Amaru.Sim
