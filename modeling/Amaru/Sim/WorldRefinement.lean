import Amaru.Sim.World
import Mathlib.Logic.Relation
import Mathlib.Data.List.Sort

set_option autoImplicit false

/- The World against the discrete-event machine it implements. The machine holds the pending
entries as a multiset, so a heap layout is invisible to it; it delivers some entry of least
arrival time, runs that node's handler once, and schedules the handler's outputs to nodes
`netDelay` later. Two ghost fields, the entries delivered so far and every entry ever inserted,
carry the run-level facts. `Refines` relates a World to a machine state, one call of
`step_world` is one machine step, and the machine's invariants then hold along every run. -/
namespace Amaru.Sim

open Amaru.Heap

variable {σ Msg : Type}

/-- Whether a node id names a client: `step_world` traces what clients send and receive. -/
def isClient (id : NodeId) : Bool := id.startsWith "c"

theorem isClient_c1 : isClient "c1" = true := by
  with_unfolding_all decide

theorem isClient_n1 : isClient "n1" = false := by
  with_unfolding_all decide

/-- The entries a delivery at `arrivalTime` adds: the handler's outputs to nodes, each due
`netDelay` later, in the order returned. -/
def scheduled (arrivalTime : Nat) (outgoing : List (Envelope Msg)) : List (Entry Msg) :=
  (outgoing.filter fun o => !isClient o.dest).map fun o => ⟨arrivalTime + netDelay, o⟩

/-- What a delivery of `envelope` appends to the trace: the envelope when a client sent it,
then the handler's outputs to clients, in the order returned. -/
def traced (envelope : Envelope Msg) (outgoing : List (Envelope Msg)) : List (Envelope Msg) :=
  (if isClient envelope.src then [envelope] else []) ++ outgoing.filter fun o => isClient o.dest

theorem arrivalTime_of_mem_scheduled {arrivalTime : Nat} {outgoing : List (Envelope Msg)}
    {entry : Entry Msg} (mem : entry ∈ scheduled arrivalTime outgoing) :
    entry.arrivalTime = arrivalTime + netDelay := by
  obtain ⟨o, -, rfl⟩ := List.mem_map.mp mem
  rfl

/-- Every node's handler answers only clients: whatever its state and input, it returns no
envelope for a node. -/
def AnswersOnlyClients (nodes : NodeId → Option (NodeHandle σ Msg)) : Prop :=
  ∀ id node, nodes id = some node → ∀ state envelope outgoing state',
    node.handle state envelope = .ok (outgoing, state') → ∀ o ∈ outgoing, isClient o.dest = true

structure Machine (σ Msg : Type) where
  pending : Multiset (Entry Msg)
  trace : List (Envelope Msg)
  nodes : NodeId → Option (NodeHandle σ Msg)
  /-- Ghost: the entries handed to a handler so far, in order. -/
  delivered : List (Entry Msg)
  /-- Ghost: every entry that has been pending, once per insertion. -/
  inserted : Multiset (Entry Msg)

namespace Machine

/-- One step: with nothing pending the machine is done; otherwise an entry of least arrival
time leaves, its destination's handler runs once on it, the outputs to nodes become pending and
the trace grows by `traced`. -/
inductive Step : Machine σ Msg → Next → Machine σ Msg → Prop
  | done {m : Machine σ Msg} (empty : m.pending = 0) : Step m .done m
  | deliver {m : Machine σ Msg} {entry : Entry Msg} {rest : Multiset (Entry Msg)}
      {node : NodeHandle σ Msg} {outgoing : List (Envelope Msg)} {state : σ}
      (split : m.pending = rest + {entry})
      (least : ∀ other ∈ m.pending, entry.arrivalTime ≤ other.arrivalTime)
      (found : m.nodes entry.envelope.dest = some node)
      (handled : node.handle node.state entry.envelope = .ok (outgoing, state)) :
      Step m .continue
        { pending := rest + ↑(scheduled entry.arrivalTime outgoing)
          trace := m.trace ++ traced entry.envelope outgoing
          nodes := Function.update m.nodes entry.envelope.dest (some { node with state })
          delivered := m.delivered ++ [entry]
          inserted := m.inserted + ↑(scheduled entry.arrivalTime outgoing) }

/-- The next delivery, of `entry`, panics: the entry has least arrival time and names no node,
or its node's handler fails. -/
inductive Panics (m : Machine σ Msg) (entry : Entry Msg) : Panic → Prop
  | unknownDestination (pending : entry ∈ m.pending)
      (least : ∀ other ∈ m.pending, entry.arrivalTime ≤ other.arrivalTime)
      (missing : m.nodes entry.envelope.dest = none) :
      Panics m entry (.unknownDestination entry.envelope.dest)
  | handlerFailed {node : NodeHandle σ Msg} {err : String} (pending : entry ∈ m.pending)
      (least : ∀ other ∈ m.pending, entry.arrivalTime ≤ other.arrivalTime)
      (found : m.nodes entry.envelope.dest = some node)
      (failed : node.handle node.state entry.envelope = .error err) :
      Panics m entry (.handlerFailed err)

def Reaches : Machine σ Msg → Machine σ Msg → Prop :=
  Relation.ReflTransGen fun m m' => ∃ next, Step m next m'

/-- The machine state a World starts from: nothing delivered, and the heap's entries the only
ones inserted. -/
def start (world : World σ Msg) : Machine σ Msg :=
  ⟨world.heap.elements, world.trace, world.nodes, [], world.heap.elements⟩

section Start

variable (world : World σ Msg)

@[simp] theorem start_pending : (start world).pending = world.heap.elements := rfl
@[simp] theorem start_trace : (start world).trace = world.trace := rfl
@[simp] theorem start_nodes : (start world).nodes = world.nodes := rfl
@[simp] theorem start_delivered : (start world).delivered = [] := rfl
@[simp] theorem start_inserted : (start world).inserted = world.heap.elements := rfl

end Start

/-- Nothing lost and nothing duplicated: each insertion is delivered once or still pending. -/
def Conserved (m : Machine σ Msg) : Prop := m.pending + ↑m.delivered = m.inserted

/-- Nothing delivered in the simulated past: deliveries come in arrival order, and no pending
entry is due before a delivered one. -/
structure InTimeOrder (m : Machine σ Msg) : Prop where
  sorted : m.delivered.Pairwise fun earlier later => earlier.arrivalTime ≤ later.arrivalTime
  bounded : ∀ d ∈ m.delivered, ∀ e ∈ m.pending, d.arrivalTime ≤ e.arrivalTime

theorem Reaches.invariant {P : Machine σ Msg → Prop}
    (step : ∀ {m m' : Machine σ Msg} {next : Next}, P m → Step m next m' → P m')
    {m m' : Machine σ Msg} (reaches : Reaches m m') (holds : P m) : P m' := by
  induction reaches with
  | refl => exact holds
  | tail _ last ih => exact step ih last.choose_spec

theorem Step.conserved {m m' : Machine σ Msg} {next : Next} (conserved : m.Conserved)
    (step : Step m next m') : m'.Conserved := by
  cases step with
  | done => exact conserved
  | @deliver entry rest _ outgoing _ split =>
    show rest + ↑(scheduled entry.arrivalTime outgoing) + ↑(m.delivered ++ [entry]) =
      m.inserted + ↑(scheduled entry.arrivalTime outgoing)
    rw [← conserved, split, ← Multiset.coe_add, Multiset.coe_singleton]
    ac_rfl

theorem Step.inTimeOrder {m m' : Machine σ Msg} {next : Next} (ordered : m.InTimeOrder)
    (step : Step m next m') : m'.InTimeOrder := by
  cases step with
  | done => exact ordered
  | @deliver entry rest _ outgoing _ split least =>
    have pending : entry ∈ m.pending := by simp [split]
    have early : ∀ d ∈ m.delivered ++ [entry], d.arrivalTime ≤ entry.arrivalTime := by
      intro d mem
      rcases List.mem_append.mp mem with old | fresh
      · exact ordered.bounded d old entry pending
      · rw [List.mem_singleton.mp fresh]
    refine ⟨List.pairwise_append.mpr ⟨ordered.sorted, List.pairwise_singleton _ _,
      fun d mem _ atEntry => ?_⟩, fun d mem e later => ?_⟩
    · rw [List.mem_singleton.mp atEntry]
      exact early d (List.mem_append_left _ mem)
    · rcases Multiset.mem_add.mp later with stays | added
      · have stays : e ∈ m.pending := by simp [split, stays]
        rcases List.mem_append.mp mem with old | fresh
        · exact ordered.bounded d old e stays
        · rw [List.mem_singleton.mp fresh]
          exact least e stays
      · have := early d mem
        rw [arrivalTime_of_mem_scheduled (Multiset.mem_coe.mp added)]
        omega

theorem Step.trace_extends {m m' : Machine σ Msg} {next : Next} (step : Step m next m') :
    m.trace <+: m'.trace := by
  cases step with
  | done => exact List.prefix_refl _
  | deliver => exact List.prefix_append _ _

theorem Reaches.trace_extends {m m' : Machine σ Msg} (reaches : Reaches m m') :
    m.trace <+: m'.trace := by
  induction reaches with
  | refl => exact List.prefix_refl _
  | tail _ last ih => exact ih.trans last.choose_spec.trace_extends

theorem Step.answersOnlyClients {m m' : Machine σ Msg} (quiet : AnswersOnlyClients m.nodes)
    (step : Step m .continue m') :
    AnswersOnlyClients m'.nodes ∧ Multiset.card m'.pending + 1 = Multiset.card m.pending := by
  cases step with
  | @deliver entry rest node outgoing state split _ found handled =>
    have none : scheduled entry.arrivalTime outgoing = [] := by
      simpa [scheduled, List.filter_eq_nil_iff] using quiet _ node found _ _ _ _ handled
    refine ⟨fun id node' found' => ?_, by simp [split, none]⟩
    by_cases atDest : id = entry.envelope.dest
    · subst atDest
      obtain rfl : { node with state } = node' := by simpa using found'
      exact quiet _ node found
    · exact quiet id node' (by simpa [Function.update_noteq atDest] using found')

/-- A step keeps every node's handler: only the delivering node's state changes. -/
theorem Step.handle_of_nodes {m m' : Machine σ Msg} {next : Next} (step : Step m next m')
    {id : NodeId} {node' : NodeHandle σ Msg} (found' : m'.nodes id = some node') :
    ∃ node, m.nodes id = some node ∧ node.handle = node'.handle := by
  cases step with
  | done => exact ⟨node', found', rfl⟩
  | @deliver entry rest node outgoing state split _ found handled =>
    by_cases atDest : id = entry.envelope.dest
    · subst atDest
      obtain rfl : { node with state } = node' := by simpa using found'
      exact ⟨node, found, rfl⟩
    · exact ⟨node', by simpa [Function.update_noteq atDest] using found', rfl⟩

theorem Reaches.handle_of_nodes {m m' : Machine σ Msg} (reaches : Reaches m m') {id : NodeId}
    {node' : NodeHandle σ Msg} (found' : m'.nodes id = some node') :
    ∃ node, m.nodes id = some node ∧ node.handle = node'.handle := by
  induction reaches generalizing node' with
  | refl => exact ⟨node', found', rfl⟩
  | tail _ last ih =>
    obtain ⟨between, found, same⟩ := last.choose_spec.handle_of_nodes found'
    obtain ⟨node, found₀, same₀⟩ := ih found
    exact ⟨node, found₀, same₀.trans same⟩

/-- A run, delivery by delivery: each delivered entry with what its node's handler returned on
it. Per delivery the trace gains what `traced` records and the pending entries gain the outputs
to nodes; every handler is one the run started with. -/
theorem Reaches.blocks {m m' : Machine σ Msg} (reaches : Reaches m m') :
    ∃ blocks : List (Entry Msg × List (Envelope Msg)),
      m'.delivered = m.delivered ++ blocks.map Prod.fst ∧
      m'.trace = m.trace ++ blocks.flatMap (fun block => traced block.1.envelope block.2) ∧
      m'.inserted = m.inserted +
        ↑(blocks.flatMap fun block => scheduled block.1.arrivalTime block.2) ∧
      ∀ block ∈ blocks, ∃ node state state', m.nodes block.1.envelope.dest = some node ∧
        node.handle state block.1.envelope = .ok (block.2, state') := by
  induction reaches with
  | refl => exact ⟨[], by simp, by simp, by simp, by simp⟩
  | @tail between m' earlier last ih =>
    obtain ⟨blocks, delivered, trace, inserted, handlers⟩ := ih
    obtain ⟨next, step⟩ := last
    cases step with
    | done => exact ⟨blocks, delivered, trace, inserted, handlers⟩
    | @deliver entry rest node outgoing state split _ found handled =>
      obtain ⟨first, found₀, same⟩ := Reaches.handle_of_nodes earlier found
      refine ⟨blocks ++ [(entry, outgoing)], by simp [delivered], by simp [trace],
        by simp [inserted, add_assoc], fun block mem => ?_⟩
      rcases List.mem_append.mp mem with old | fresh
      · exact handlers block old
      · rw [List.mem_singleton.mp fresh]
        exact ⟨first, node.state, state, found₀, same ▸ handled⟩

theorem start_conserved (world : World σ Msg) : (start world).Conserved := by
  simp [Conserved, start]

theorem start_inTimeOrder (world : World σ Msg) : (start world).InTimeOrder :=
  ⟨List.Pairwise.nil, fun _ mem => absurd mem (List.not_mem_nil _)⟩

theorem Reaches.conserved_of_start {world : World σ Msg} {m : Machine σ Msg}
    (reaches : (start world).Reaches m) : m.Conserved :=
  reaches.invariant Step.conserved (start_conserved world)

theorem Reaches.inTimeOrder_of_start {world : World σ Msg} {m : Machine σ Msg}
    (reaches : (start world).Reaches m) : m.InTimeOrder :=
  reaches.invariant Step.inTimeOrder (start_inTimeOrder world)

end Machine

/-- A World implements machine state `m`: its heap holds the pending entries, in whatever
layout, and the trace and the nodes are the machine's. -/
structure Refines (world : World σ Msg) (m : Machine σ Msg) : Prop where
  pending : world.heap.elements = m.pending
  trace : world.trace = m.trace
  nodes : world.nodes = m.nodes

theorem refines_start (world : World σ Msg) : Refines world (Machine.start world) :=
  ⟨rfl, rfl, rfl⟩

section Step

variable {world : World σ Msg} {entry : Entry Msg} {rest : BinaryHeap (@Entry.key Msg)}

theorem stepWorld_of_pop_none (popped : world.heap.pop = (none, rest)) :
    stepWorld world = .ok (.done, world) := by
  simp [stepWorld, popped]

theorem stepWorld_of_unknown (popped : world.heap.pop = (some entry, rest))
    (missing : world.nodes entry.envelope.dest = none) :
    stepWorld world = .error (.unknownDestination entry.envelope.dest) := by
  simp [stepWorld, deliver, popped, missing, Except.map]

theorem stepWorld_of_failed {node : NodeHandle σ Msg} {err : String}
    (popped : world.heap.pop = (some entry, rest))
    (found : world.nodes entry.envelope.dest = some node)
    (failed : node.handle node.state entry.envelope = .error err) :
    stepWorld world = .error (.handlerFailed err) := by
  simp [stepWorld, deliver, popped, found, failed, Except.map]

theorem stepWorld_of_handled {node : NodeHandle σ Msg} {outgoing : List (Envelope Msg)} {state : σ}
    (popped : world.heap.pop = (some entry, rest))
    (found : world.nodes entry.envelope.dest = some node)
    (handled : node.handle node.state entry.envelope = .ok (outgoing, state)) :
    stepWorld world = .ok (.continue,
      { heap := scheduleOutputs entry.arrivalTime (outgoing.filter fun o => !isClient o.dest) rest
        nodes := Function.update world.nodes entry.envelope.dest (some { node with state })
        trace := world.trace ++ traced entry.envelope outgoing }) := by
  simp only [stepWorld, deliver, popped, found, handled, Except.map,
    List.partition_eq_filter_filter, traced, isClient]
  split_ifs <;> simp [Function.comp_def]

/-- A call of `step_world` that pops an entry and does not panic leaves the rest of the heap with
the entry's outputs pushed. -/
theorem stepWorld_heap {world' : World σ Msg} {next : Next}
    (popped : world.heap.pop = (some entry, rest)) (stepped : stepWorld world = .ok (next, world')) :
    ∃ outputs, world'.heap = scheduleOutputs entry.arrivalTime outputs rest := by
  cases found : world.nodes entry.envelope.dest with
  | none => rw [stepWorld_of_unknown popped found] at stepped; cases stepped
  | some node =>
    cases handled : node.handle node.state entry.envelope with
    | error err => rw [stepWorld_of_failed popped found handled] at stepped; cases stepped
    | ok result =>
      rw [stepWorld_of_handled popped found handled] at stepped
      cases stepped
      exact ⟨_, rfl⟩

/-- A call of `step_world` that does not panic is one machine step, and the entry it pops is
the one the machine delivers. -/
theorem stepWorld_simulates {world' : World σ Msg} {m : Machine σ Msg} {next : Next}
    (related : Refines world m) (stepped : stepWorld world = .ok (next, world')) :
    ∃ m', m.Step next m' ∧ Refines world' m' ∧
      m'.delivered = m.delivered ++ world.heap.pop.1.toList := by
  rcases popped : world.heap.pop with ⟨_ | entry, rest⟩
  · obtain ⟨-, empty⟩ := BinaryHeap.pop_none popped
    rw [stepWorld_of_pop_none popped, Except.ok.injEq, Prod.mk.injEq] at stepped
    obtain ⟨rfl, rfl⟩ := stepped
    exact ⟨m, .done (related.pending ▸ empty), related, by simp⟩
  · obtain ⟨split, least⟩ := BinaryHeap.pop_some popped
    rw [related.pending] at split least
    cases found : world.nodes entry.envelope.dest with
    | none => simp [stepWorld_of_unknown popped found] at stepped
    | some node =>
      cases handled : node.handle node.state entry.envelope with
      | error err => simp [stepWorld_of_failed popped found handled] at stepped
      | ok result =>
        obtain ⟨outgoing, state⟩ := result
        rw [stepWorld_of_handled popped found handled, Except.ok.injEq, Prod.mk.injEq] at stepped
        obtain ⟨rfl, rfl⟩ := stepped
        refine ⟨_, .deliver split least (related.nodes ▸ found) handled, ⟨?_, ?_, ?_⟩, rfl⟩
        · exact elements_scheduleOutputs _ _ _
        · simp only [related.trace]
        · simp only [related.nodes]

/-- A call of `step_world` that panics panics on the entry of least arrival time, as the machine
does. -/
theorem stepWorld_panics {m : Machine σ Msg} {panic : Panic} (related : Refines world m)
    (stepped : stepWorld world = .error panic) :
    ∃ entry, world.heap.pop.1 = some entry ∧ m.Panics entry panic := by
  rcases popped : world.heap.pop with ⟨_ | entry, rest⟩
  · simp [stepWorld_of_pop_none popped] at stepped
  · obtain ⟨split, least⟩ := BinaryHeap.pop_some popped
    rw [related.pending] at split least
    have pending : entry ∈ m.pending := by simp [split]
    refine ⟨entry, rfl, ?_⟩
    cases found : world.nodes entry.envelope.dest with
    | none =>
      rw [stepWorld_of_unknown popped found, Except.error.injEq] at stepped
      exact stepped ▸ .unknownDestination pending least (related.nodes ▸ found)
    | some node =>
      cases handled : node.handle node.state entry.envelope with
      | error err =>
        rw [stepWorld_of_failed popped found handled, Except.error.injEq] at stepped
        exact stepped ▸ .handlerFailed pending least (related.nodes ▸ found) handled
      | ok result => simp [stepWorld_of_handled popped found handled] at stepped

/-- A call returns `Done` only on an empty heap, and then leaves the World as it was. -/
theorem stepWorld_done {world' : World σ Msg} (stepped : stepWorld world = .ok (.done, world')) :
    world' = world ∧ world.heap.elements = 0 := by
  obtain ⟨m', step, -⟩ := stepWorld_simulates (refines_start world) stepped
  cases step with
  | done empty =>
    rw [stepWorld_of_pop_none (BinaryHeap.pop_of_len_eq_zero
      (BinaryHeap.elements_eq_zero.mp empty))] at stepped
    exact ⟨by simpa using stepped.symm, empty⟩

end Step

end Amaru.Sim
