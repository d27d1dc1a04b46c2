import Amaru.Heap.BinaryHeap
import Mathlib.Data.Nat.Defs
import Mathlib.Order.Synonym

set_option autoImplicit false

/- The discrete-event World of the simulator (`simulator/simulate.rs`): a heap of in-flight
envelopes ordered by arrival time, the nodes' handlers, and the trace. Arrival times are
nanoseconds of simulated time. A node handle is the state its closure owns and the function
that runs on it; how a handle is built (a stage graph, a child process) is not modelled, and
neither is `close`, which only `Drop` calls. -/
namespace Amaru.Sim

open Amaru.Heap

abbrev NodeId := String

structure Envelope (Msg : Type) where
  src : NodeId
  dest : NodeId
  body : Msg
deriving DecidableEq, Repr, Inhabited

structure Entry (Msg : Type) where
  arrivalTime : Nat
  envelope : Envelope Msg
deriving DecidableEq, Repr, Inhabited

/-- The order of `Reverse<Entry>`: `Entry::cmp` compares arrival times only, and `Reverse` makes
the max-heap pop the earliest. -/
def Entry.key {Msg : Type} (entry : Entry Msg) : Natᵒᵈ := OrderDual.toDual entry.arrivalTime

@[simp] theorem Entry.key_le_key {Msg : Type} (entry other : Entry Msg) :
    entry.key ≤ other.key ↔ other.arrivalTime ≤ entry.arrivalTime := Iff.rfl

structure NodeHandle (σ Msg : Type) where
  state : σ
  handle : σ → Envelope Msg → Except String (List (Envelope Msg) × σ)

structure World (σ Msg : Type) where
  heap : BinaryHeap (@Entry.key Msg)
  nodes : NodeId → Option (NodeHandle σ Msg)
  trace : List (Envelope Msg)

inductive Next
  | done
  | continue
deriving DecidableEq, Repr

/-- The two panics of `step_world`: a destination with no node, and a handler's `Err`. -/
inductive Panic
  | unknownDestination (dest : NodeId)
  | handlerFailed (err : String)
deriving DecidableEq, Repr

/-- The text each panic prints. -/
def Panic.message : Panic → String
  | .unknownDestination dest => "unknown destination node \x27" ++ dest ++ "\x27"
  | .handlerFailed err => err

/-- `Duration::from_millis(100)`, in nanoseconds. -/
def netDelay : Nat := 100 * 1000000

variable {σ Msg : Type}

/-- The `BTreeMap` that `collect` builds from the node handles: a later handle of the same id
replaces an earlier one. -/
def collectNodes (nodeHandles : List (NodeId × NodeHandle σ Msg)) :
    NodeId → Option (NodeHandle σ Msg) :=
  nodeHandles.foldl (fun nodes (id, handle) => Function.update nodes id (some handle)) fun _ => none

/-- The fold of `collect` from any map: an id listed gets its last handle, any other keeps what
the map had. -/
theorem foldl_update_apply (nodeHandles : List (NodeId × NodeHandle σ Msg))
    (nodes : NodeId → Option (NodeHandle σ Msg)) (id : NodeId) :
    nodeHandles.foldl (fun nodes (id, handle) => Function.update nodes id (some handle)) nodes id =
      ((nodeHandles.reverse.find? fun entry => entry.1 == id).map Prod.snd).or (nodes id) := by
  induction nodeHandles generalizing nodes with
  | nil => rfl
  | cons entry rest ih =>
    obtain ⟨key, handle⟩ := entry
    rw [List.foldl_cons, ih, List.reverse_cons, List.find?_append]
    cases rest.reverse.find? fun entry => entry.1 == id with
    | some found => rfl
    | none =>
      by_cases same : key = id
      · subst same
        simp
      · simp [same, Function.update_noteq (Ne.symm same)]

theorem collectNodes_apply (nodeHandles : List (NodeId × NodeHandle σ Msg)) (id : NodeId) :
    collectNodes nodeHandles id =
      (nodeHandles.reverse.find? fun entry => entry.1 == id).map Prod.snd := by
  rw [collectNodes, foldl_update_apply]
  cases (nodeHandles.reverse.find? fun entry => entry.1 == id).map Prod.snd <;> rfl

def World.new [Inhabited Msg] (initialMessages : List (Entry Msg))
    (nodeHandles : List (NodeId × NodeHandle σ Msg)) : World σ Msg where
  heap := BinaryHeap.fromVec Entry.key initialMessages
  nodes := collectNodes nodeHandles
  trace := []

/-- `World::new`: the heap holds exactly the initial entries, the trace is empty, and each node id
has the last handle listed under it; an earlier handle of the same id is dropped. -/
theorem World.new_spec [Inhabited Msg] (initialMessages : List (Entry Msg))
    (nodeHandles : List (NodeId × NodeHandle σ Msg)) :
    (World.new initialMessages nodeHandles).heap.elements = ↑initialMessages ∧
      (World.new initialMessages nodeHandles).trace = [] ∧
      ∀ id, (World.new initialMessages nodeHandles).nodes id =
        (nodeHandles.reverse.find? fun entry => entry.1 == id).map Prod.snd :=
  ⟨BinaryHeap.elements_fromVec _, rfl, collectNodes_apply nodeHandles⟩

/-- The pushes of a step's internal outputs, each due `netDelay` after the popped entry. -/
def scheduleOutputs (arrivalTime : Nat) (outputs : List (Envelope Msg))
    (heap : BinaryHeap (@Entry.key Msg)) : BinaryHeap (@Entry.key Msg) :=
  outputs.foldl (fun heap envelope => heap.push ⟨arrivalTime + netDelay, envelope⟩) heap

theorem elements_scheduleOutputs (arrivalTime : Nat) (outputs : List (Envelope Msg))
    (heap : BinaryHeap (@Entry.key Msg)) :
    (scheduleOutputs arrivalTime outputs heap).elements =
      heap.elements +
        ↑(outputs.map fun envelope => (⟨arrivalTime + netDelay, envelope⟩ : Entry Msg)) := by
  induction outputs generalizing heap with
  | nil => simp [scheduleOutputs]
  | cons output outputs ih =>
    simp only [scheduleOutputs, List.foldl_cons] at ih ⊢
    rw [ih, BinaryHeap.elements_push, List.map_cons, ← Multiset.cons_coe, add_assoc,
      Multiset.singleton_add]

/-- The arm of `step_world` for a popped entry, given the heap the pop left: the entry is handed
to its destination's handler, the answers to clients join the trace after the entry (when a
client sent it), and the other outputs are pushed, due `netDelay` later. -/
def deliver (world : World σ Msg) (entry : Entry Msg) (heap : BinaryHeap (@Entry.key Msg)) :
    Except Panic (World σ Msg) :=
  match world.nodes entry.envelope.dest with
  | some node =>
    match node.handle node.state entry.envelope with
    | .ok (outgoing, state) =>
      let (clientResponses, outputs) := outgoing.partition fun msg => msg.dest.startsWith "c"
      let heap := scheduleOutputs entry.arrivalTime outputs heap
      let trace :=
        if entry.envelope.src.startsWith "c" then world.trace ++ [entry.envelope] else world.trace
      .ok { heap,
            nodes := Function.update world.nodes entry.envelope.dest (some { node with state }),
            trace := trace ++ clientResponses }
    | .error err => .error (.handlerFailed err)
  | none => .error (.unknownDestination entry.envelope.dest)

def stepWorld (world : World σ Msg) : Except Panic (Next × World σ Msg) :=
  match world.heap.pop with
  | (some entry, heap) => (deliver world entry heap).map fun world => (.continue, world)
  | (none, _) => .ok (.done, world)

/-- The loop of `run_world`, given at most `fuel` calls of `step_world`: `none` when the fuel
runs out before `Done`. -/
def runWorldLoop : Nat → World σ Msg → Option (Except Panic (World σ Msg))
  | 0, _ => none
  | fuel + 1, world =>
    match stepWorld world with
    | .ok (.continue, world) => runWorldLoop fuel world
    | .ok (.done, world) => some (.ok world)
    | .error panic => some (.error panic)

/-- `run_world`: the trace appended until `Done`, and the World then. -/
def runWorld (fuel : Nat) (world : World σ Msg) :
    Option (Except Panic (List (Envelope Msg) × World σ Msg)) :=
  let prev := world.trace.length
  (runWorldLoop fuel world).map fun result => result.map fun world => (world.trace.drop prev, world)

end Amaru.Sim
