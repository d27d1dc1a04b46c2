import Amaru.Sim.Runs

set_option autoImplicit false

/- The World that `simulate` runs for each generated case: nodes `n1`, ..., `nN`, each the
handle `spawn` returns, and one request from client `c1` to `n1` per generated message, due at
the instant it was generated. Random generation, shrinking and the clock are left out: the
generated messages and their instants are the input. With nodes that, as the echo stage does,
always succeed and answer the client only, from a node, `run_world` returns, and the trace
handed to the property holds each generated request exactly once. -/
namespace Amaru.Sim

open Amaru.Heap

variable {σ Msg : Type}

/-- The entry the message strategy's `prop_map` makes of `msg`, generated at `arrivalTime`. -/
def generatedEntry (arrivalTime : Nat) (msg : Msg) : Entry Msg :=
  ⟨arrivalTime, ⟨"c1", "n1", msg⟩⟩

/-- `(1..=number_of_nodes).map(|i| (format!("n{}", i), spawn()))`; `spawn` is a function
pointer, so every call gives the same handle. -/
def spawnNodeHandles (numberOfNodes : Nat) (spawn : NodeHandle σ Msg) :
    List (NodeId × NodeHandle σ Msg) :=
  (List.range numberOfNodes).map fun i => ("n" ++ toString (i + 1), spawn)

/-- `World::new(initial_messages, node_handles)` for generated `(instant, msg)` pairs. -/
def simulateWorld [Inhabited Msg] (numberOfNodes : Nat) (spawn : NodeHandle σ Msg)
    (messages : List (Nat × Msg)) : World σ Msg :=
  World.new (messages.map fun message => generatedEntry message.1 message.2)
    (spawnNodeHandles numberOfNodes spawn)

/-- A node as the echo stage is: every call succeeds, and every envelope it returns goes to a
client and comes from a node. -/
structure RepliesToClients (node : NodeHandle σ Msg) : Prop where
  succeeds : ∀ state envelope, ∃ outgoing state', node.handle state envelope = .ok (outgoing, state')
  replies : ∀ state envelope outgoing state', node.handle state envelope = .ok (outgoing, state') →
    ∀ o ∈ outgoing, isClient o.dest = true ∧ isClient o.src = false

/-- What holds of every handle given to `collect` holds of every node it builds. -/
theorem collectNodes_of_forall {P : NodeHandle σ Msg → Prop}
    {nodeHandles : List (NodeId × NodeHandle σ Msg)} (all : ∀ entry ∈ nodeHandles, P entry.2) :
    ∀ id node, collectNodes nodeHandles id = some node → P node := by
  intro id node found
  rw [collectNodes_apply, Option.map_eq_some'] at found
  obtain ⟨entry, last, rfl⟩ := found
  exact all entry (List.mem_reverse.mp (List.mem_of_find?_eq_some last))

/-- Every id given to `collect` has a node. -/
theorem collectNodes_isSome {id : NodeId} {nodeHandles : List (NodeId × NodeHandle σ Msg)}
    (mem : id ∈ nodeHandles.map Prod.fst) : (collectNodes nodeHandles id).isSome := by
  obtain ⟨entry, listed, rfl⟩ := List.mem_map.mp mem
  rw [collectNodes_apply, Option.isSome_map', List.find?_isSome]
  exact ⟨entry, List.mem_reverse.mpr listed, beq_self_eq_true _⟩

/-- Node `n1` of the simulated World is the handle `spawn` returns. -/
theorem simulateWorld_nodes_n1 [Inhabited Msg] {numberOfNodes : Nat} (atLeastOne : 0 < numberOfNodes)
    (spawn : NodeHandle σ Msg) (messages : List (Nat × Msg)) :
    (simulateWorld numberOfNodes spawn messages).nodes "n1" = some spawn := by
  have spawned : ∀ entry ∈ spawnNodeHandles numberOfNodes spawn, entry.2 = spawn := by
    intro entry mem
    obtain ⟨i, -, rfl⟩ := List.mem_map.mp mem
    rfl
  have named : "n1" ∈ (spawnNodeHandles numberOfNodes spawn).map Prod.fst :=
    List.mem_map.mpr ⟨("n1", spawn), List.mem_map.mpr ⟨0, List.mem_range.mpr atLeastOne, rfl⟩, rfl⟩
  obtain ⟨node, found⟩ := Option.isSome_iff_exists.mp (collectNodes_isSome named)
  exact found.trans (congrArg some (@collectNodes_of_forall σ Msg (· = spawn) _ spawned _ _ found))

/-- What the simulated World keeps while it serves the `initial` requests: nothing else is ever
inserted, every pending entry is a client's request to `n1`, every node runs `spawn`'s handler,
`n1` exists, and the client requests in the trace are the entries delivered so far. -/
structure Machine.Serves (spawn : NodeHandle σ Msg) (initial : Multiset (Entry Msg))
    (m : Machine σ Msg) : Prop where
  inserted : m.inserted = initial
  pending : ∀ e ∈ m.pending, e.envelope.dest = "n1" ∧ isClient e.envelope.src = true
  nodes : ∀ id node, m.nodes id = some node → node.handle = spawn.handle
  present : (m.nodes "n1").isSome
  trace : m.trace.filter (fun e => isClient e.src) = m.delivered.map (·.envelope)

theorem Machine.Serves.answersOnlyClients {spawn : NodeHandle σ Msg}
    {initial : Multiset (Entry Msg)} {m : Machine σ Msg}
    (replies : RepliesToClients spawn) (serves : m.Serves spawn initial) : AnswersOnlyClients m.nodes :=
  fun id node found state envelope outgoing state' handled o mem =>
    (replies.replies state envelope outgoing state' (serves.nodes id node found ▸ handled) o mem).1

theorem Machine.Serves.not_panics {spawn : NodeHandle σ Msg} {initial : Multiset (Entry Msg)}
    {m : Machine σ Msg} (replies : RepliesToClients spawn) (serves : m.Serves spawn initial) {entry : Entry Msg}
    {panic : Panic} (panics : m.Panics entry panic) : False := by
  cases panics with
  | unknownDestination pending _ missing =>
    have present := serves.present
    rw [← (serves.pending entry pending).1, missing] at present
    cases present
  | handlerFailed _ _ found failed =>
    obtain ⟨outgoing, state', handled⟩ := replies.succeeds _ entry.envelope
    rw [← serves.nodes _ _ found, failed] at handled
    cases handled

theorem Machine.Step.serves {spawn : NodeHandle σ Msg} {initial : Multiset (Entry Msg)}
    {m m' : Machine σ Msg} {next : Next} (replies : RepliesToClients spawn)
    (serves : m.Serves spawn initial) (step : m.Step next m') : m'.Serves spawn initial := by
  cases step with
  | done => exact serves
  | @deliver entry rest node outgoing state split _ found handled =>
    have answered := replies.replies _ _ _ _ (serves.nodes _ node found ▸ handled)
    have none : scheduled entry.arrivalTime outgoing = [] := by
      simpa [scheduled, List.filter_eq_nil_iff] using fun o mem => (answered o mem).1
    have request := serves.pending entry (by simp [split])
    refine ⟨by simp [none, serves.inserted], fun e pending => serves.pending e ?_,
      fun id node' found' => ?_, ?_, ?_⟩
    · simp only [none, Multiset.coe_nil, add_zero] at pending
      simp [split, pending]
    · by_cases atDest : id = entry.envelope.dest
      · subst atDest
        obtain rfl : { node with state } = node' := by simpa using found'
        exact serves.nodes _ node found
      · exact serves.nodes id node' (by simpa [Function.update_noteq atDest] using found')
    · by_cases atDest : "n1" = entry.envelope.dest
      · dsimp only
        rw [← atDest, Function.update_same]
        rfl
      · simpa [Function.update_noteq atDest] using serves.present
    · have responses : (outgoing.filter fun o => isClient o.dest).filter
          (fun e => isClient e.src) = [] := by
        rw [List.filter_eq_nil_iff]
        intro o mem
        simp [(answered o (List.mem_filter.mp mem).1).2]
      simp [traced, List.filter_append, serves.trace, request.2, responses]

theorem simulateWorld_serves [Inhabited Msg] {numberOfNodes : Nat} (atLeastOne : 0 < numberOfNodes)
    (spawn : NodeHandle σ Msg) (messages : List (Nat × Msg)) :
    (Machine.start (simulateWorld numberOfNodes spawn messages)).Serves spawn
      ↑(messages.map fun message => generatedEntry message.1 message.2) where
  inserted := by simp [Machine.start, simulateWorld, World.new, BinaryHeap.elements_fromVec]
  pending e mem := by
    simp only [Machine.start, simulateWorld, World.new, BinaryHeap.elements_fromVec,
      Multiset.mem_coe, List.mem_map] at mem
    obtain ⟨message, -, rfl⟩ := mem
    exact ⟨rfl, isClient_c1⟩
  nodes := collectNodes_of_forall fun entry mem => by
    obtain ⟨i, -, rfl⟩ := List.mem_map.mp mem
    rfl
  present := by simp [Machine.start, simulateWorld_nodes_n1 atLeastOne]
  trace := rfl

/-- The World `simulate` builds, with nodes that always succeed and answer the client only,
from a node: `run_world` returns within one call per generated message and a last call, and the
client requests in the trace it hands to the property are the generated requests, each once. -/
theorem simulateWorld_run_world [Inhabited Msg] (numberOfNodes : Nat)
    (atLeastOne : 0 < numberOfNodes) (spawn : NodeHandle σ Msg) (replies : RepliesToClients spawn)
    (messages : List (Nat × Msg)) :
    ∃ trace final, runWorld (messages.length + 1) (simulateWorld numberOfNodes spawn messages) =
        some (.ok (trace, final)) ∧
      (trace.filter fun envelope => isClient envelope.src).Perm
        (messages.map fun message => (generatedEntry message.1 message.2).envelope) := by
  have length : (simulateWorld numberOfNodes spawn messages).heap.len = messages.length := by
    simp [simulateWorld, World.new, BinaryHeap.fromVec]
  obtain ⟨m', final, reaches, serving, related, drained, ran⟩ :=
    @runWorld_of_invariant σ Msg
      (Machine.Serves spawn ↑(messages.map fun message => generatedEntry message.1 message.2))
      (fun serves step => ⟨step.serves replies serves,
        by have := (step.answersOnlyClients (serves.answersOnlyClients replies)).2; omega⟩)
      (fun serves panics => serves.not_panics replies panics) (messages.length + 1) _
      (simulateWorld_serves atLeastOne spawn messages) (by rw [length]; exact Nat.lt_succ_self _)
  refine ⟨_, final, ran, ?_⟩
  have requests : messages.map (fun message => (generatedEntry message.1 message.2).envelope) =
      (messages.map fun message => generatedEntry message.1 message.2).map (·.envelope) := by
    simp
  rw [show (simulateWorld numberOfNodes spawn messages).trace.length = 0 from rfl, List.drop_zero,
    related.trace, serving.trace, requests]
  refine List.Perm.map _ (Multiset.coe_eq_coe.mp ?_)
  rw [← serving.inserted, ← reaches.conserved_of_start, drained, zero_add]

/-- One case of `simulate`: `run_world` on the World for the generated messages, given `fuel`
calls of `step_world`, and `property` on the trace it returns. -/
def simulateCase [Inhabited Msg] {ε : Type} (fuel numberOfNodes : Nat) (spawn : NodeHandle σ Msg)
    (property : List (Envelope Msg) → Except ε Unit) (messages : List (Nat × Msg)) :
    Option (Except Panic (Except ε Unit)) :=
  (runWorld fuel (simulateWorld numberOfNodes spawn messages)).map fun result =>
    result.map fun run => property run.1

theorem answerNode_repliesToClients : RepliesToClients answerNode where
  succeeds _ _ := ⟨_, _, rfl⟩
  replies _ _ _ _ handled o mem := by
    obtain ⟨rfl, -⟩ := Prod.mk.inj (Except.ok.inj handled)
    rw [List.mem_singleton.mp mem]
    exact ⟨isClient_c1, isClient_n1⟩

/-- Three generated requests, two at one instant, to a node that answers each. -/
theorem simulateWorld_run_world_answered :
    0 < 1 ∧ RepliesToClients answerNode ∧
      ∃ trace final, runWorld ([((0 : Nat), (7 : Nat)), (1, 8), (1, 9)].length + 1)
          (simulateWorld 1 answerNode [(0, 7), (1, 8), (1, 9)]) = some (.ok (trace, final)) ∧
        (trace.filter fun envelope => isClient envelope.src).Perm
          ([((0 : Nat), (7 : Nat)), (1, 8), (1, 9)].map fun message =>
            (generatedEntry message.1 message.2).envelope) :=
  ⟨Nat.one_pos, answerNode_repliesToClients,
    simulateWorld_run_world 1 Nat.one_pos answerNode answerNode_repliesToClients
      [(0, 7), (1, 8), (1, 9)]⟩

end Amaru.Sim
