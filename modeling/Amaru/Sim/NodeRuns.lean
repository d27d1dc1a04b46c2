import Amaru.Sim.Runs

set_option autoImplicit false

/- Each node of the World on its own. A node handle owns its state and is called on one envelope
at a time, so whatever the interleaving of deliveries across nodes, a node is where its handler,
run alone from its first state over the envelopes delivered to it in the order they were popped,
leaves it; and a handler that fails in the World fails on that node's own run. The machine keeps
this as an invariant over its `delivered` ghost history. -/
namespace Amaru.Sim

variable {σ Msg : Type}

/-- A node run alone: its handler on each envelope in turn, from its state; the outputs of each
call, and the node after the last one. -/
def NodeHandle.run (node : NodeHandle σ Msg) :
    List (Envelope Msg) → Except String (List (List (Envelope Msg)) × NodeHandle σ Msg)
  | [] => .ok ([], node)
  | envelope :: rest =>
    match node.handle node.state envelope with
    | .ok (outgoing, state) =>
      (NodeHandle.run { node with state } rest).map fun ran => (outgoing :: ran.1, ran.2)
    | .error err => .error err

/-- One more envelope extends a node's run by one call of its handler, from where the run left
the node. -/
theorem NodeHandle.run_concat {node node' : NodeHandle σ Msg} {envelopes : List (Envelope Msg)}
    {outputs : List (List (Envelope Msg))} (ran : node.run envelopes = .ok (outputs, node'))
    (envelope : Envelope Msg) :
    node.run (envelopes ++ [envelope]) = (node'.handle node'.state envelope).map
      fun handled => (outputs ++ [handled.1], { node' with state := handled.2 }) := by
  induction envelopes generalizing node outputs with
  | nil =>
    obtain ⟨rfl, rfl⟩ : [] = outputs ∧ node = node' := by simpa [NodeHandle.run] using ran
    show node.run [envelope] = _
    simp only [NodeHandle.run]
    cases node.handle node.state envelope <;> rfl
  | cons first rest ih =>
    simp only [NodeHandle.run] at ran
    split at ran
    · rename_i outgoing state handled
      cases later : NodeHandle.run { node with state } rest with
      | error err => simp [later, Except.map] at ran
      | ok result =>
        simp only [later, Except.map, Except.ok.injEq, Prod.mk.injEq] at ran
        rw [List.cons_append, NodeHandle.run, handled]
        simp only
        rw [ih (by rw [later, ← ran.2]), ← ran.1]
        cases node'.handle node'.state envelope <;> rfl
    · cases ran

/-- The envelopes among `entries` that go to node `id`, in order. -/
def envelopesTo (id : NodeId) (entries : List (Entry Msg)) : List (Envelope Msg) :=
  (entries.map Entry.envelope).filter fun envelope => envelope.dest == id

theorem envelopesTo_concat (id : NodeId) (entries : List (Entry Msg)) (entry : Entry Msg) :
    envelopesTo id (entries ++ [entry]) =
      envelopesTo id entries ++ if entry.envelope.dest = id then [entry.envelope] else [] := by
  by_cases atId : entry.envelope.dest = id <;> simp [envelopesTo, List.filter_append, atId]

/-- Every node of the machine is where its first handle, run alone over the envelopes delivered
to it so far, leaves it; an id that named no node names none. -/
structure Machine.Sequential (nodes₀ : NodeId → Option (NodeHandle σ Msg)) (m : Machine σ Msg) :
    Prop where
  absent : ∀ id, nodes₀ id = none → m.nodes id = none
  present : ∀ id node, nodes₀ id = some node → ∃ outputs node',
    node.run (envelopesTo id m.delivered) = .ok (outputs, node') ∧ m.nodes id = some node'

namespace Machine

variable {nodes₀ : NodeId → Option (NodeHandle σ Msg)}

theorem start_sequential (world : World σ Msg) : (start world).Sequential world.nodes :=
  ⟨fun _ missing => missing, fun _ node known => ⟨[], node, rfl, known⟩⟩

/-- A delivery extends the run of its destination by one call and leaves every other node's run
as it was. -/
theorem Step.sequential {m m' : Machine σ Msg} {next : Next} (sequential : m.Sequential nodes₀)
    (step : Step m next m') : m'.Sequential nodes₀ := by
  cases step with
  | done => exact sequential
  | @deliver entry rest node outgoing state _ _ found handled =>
    constructor
    · intro id missing
      have absent := sequential.absent id missing
      by_cases atDest : id = entry.envelope.dest
      · rw [atDest, found] at absent
        cases absent
      · simpa [Function.update_noteq atDest] using absent
    · intro id first known
      obtain ⟨outputs, node', ran, current⟩ := sequential.present id first known
      by_cases atDest : entry.envelope.dest = id
      · subst atDest
        obtain rfl : node' = node := Option.some.inj (current.symm.trans found)
        refine ⟨outputs ++ [outgoing], { node' with state }, ?_, by simp⟩
        rw [envelopesTo_concat, if_pos rfl, NodeHandle.run_concat ran, handled]
        rfl
      · refine ⟨outputs, node', ?_, ?_⟩
        · rwa [envelopesTo_concat, if_neg atDest, List.append_nil]
        · simpa [Function.update_noteq (Ne.symm atDest)] using current

theorem Reaches.sequential_of_start {world : World σ Msg} {m : Machine σ Msg}
    (reaches : (start world).Reaches m) : m.Sequential world.nodes :=
  reaches.invariant Step.sequential (start_sequential world)

/-- The handler that fails at a machine state's next delivery fails on its node's own run,
extended by that delivery. -/
theorem Panics.run_error {m : Machine σ Msg} {entry : Entry Msg} {err : String}
    (sequential : m.Sequential nodes₀) (panics : m.Panics entry (.handlerFailed err)) :
    ∃ id node, nodes₀ id = some node ∧
      node.run (envelopesTo id (m.delivered ++ [entry])) = .error err := by
  cases panics with
  | @handlerFailed node _ _ _ found failed =>
    cases known : nodes₀ entry.envelope.dest with
    | none => simp [sequential.absent _ known] at found
    | some first =>
      obtain ⟨outputs, node', ran, current⟩ := sequential.present _ first known
      obtain rfl : node' = node := Option.some.inj (current.symm.trans found)
      refine ⟨entry.envelope.dest, first, known, ?_⟩
      rw [envelopesTo_concat, if_pos rfl, NodeHandle.run_concat ran, failed]
      rfl

end Machine

/-- A node of the World is a sequential process. After the first `n` calls of `step_world`,
whatever the interleaving of deliveries across nodes, each node is where its handle, run alone
from its first state over the envelopes popped for it, in pop order, leaves it, and an id that
named no node still names none. When the calls end in a handler's failure, that handler fails
on its node's own run over the envelopes popped for it, the last popped one included. -/
theorem steps_nodes_sequential (n : Nat) (world : World σ Msg) :
    (∀ world', (world.steps n).2 = .ok world' →
      (∀ id, world.nodes id = none → world'.nodes id = none) ∧
      ∀ id node, world.nodes id = some node → ∃ outputs node',
        node.run (envelopesTo id (world.steps n).1) = .ok (outputs, node') ∧
          world'.nodes id = some node') ∧
    ∀ err, (world.steps n).2 = .error (.handlerFailed err) →
      ∃ id node, world.nodes id = some node ∧
        node.run (envelopesTo id (world.steps n).1) = .error err := by
  refine ⟨fun world' ran => ?_, fun err ran => ?_⟩
  · obtain ⟨m', reaches, related, delivered⟩ := steps_reach_ok n ran
    have sequential := reaches.sequential_of_start
    rw [← delivered, related.nodes]
    exact ⟨sequential.absent, sequential.present⟩
  · obtain ⟨m', entry, reaches, panics, delivered⟩ := steps_reach_error n ran
    rw [delivered]
    exact panics.run_error reaches.sequential_of_start

end Amaru.Sim
