import Amaru.Sim.Harness

set_option autoImplicit false

/- The test `simulate_pure_stage_echo` of `simulator/simulate.rs`: nodes whose stage graph is the
echo stage wired to an `output` stage, requests from client `c1` to `n1`, and `ECHO_PROPERTY` on
the trace. `echo.rs` is not in the sources, so `EchoMessage` is rebuilt from the fields the test
builds and matches, with the derived `Debug` its panic prints; `SimulationRunning` is not either,
so a node's handle runs the echo stage's transition on the envelope and returns the one answer it
sends to `output`, which is what `drain` hands back. The stage uppercases every fifth answer, the
bug the test seeds. `to_uppercase` is modelled on ASCII text, which is all `generate_message`
makes. Every run of the World delivers the generated requests in arrival order, each followed by
its answer: the property holds of every case with fewer than five requests, and fails on the
fifth request of every case of five or more whose texts are distinct. -/
namespace Amaru.Sim

open Amaru.Heap

/-- The echo protocol's messages, with the fields `simulate.rs` builds and matches. -/
inductive EchoMessage
  | echo (msgId : Nat) (echo : String)
  | echoOk (msgId : Nat) (inReplyTo : Nat) (echo : String)
deriving DecidableEq, Repr, Inhabited

section Uppercase

/-- `str::to_uppercase` on ASCII text, the only text `generate_message` makes: `a` to `z` become
`A` to `Z`, and every other ASCII character stays. Unicode case mapping beyond ASCII (`é` to `É`,
`ß` to `SS`) is not modelled; the theorems about the test's cases are over generated texts. -/
def toUppercase (s : String) : String := ⟨s.data.map Char.toUpper⟩

theorem toNat_ofNat_of_lt {m : Nat} (small : m < 55296) : (Char.ofNat m).toNat = m := by
  have valid : m.isValidChar := Or.inl small
  simp only [Char.ofNat, valid, dite_true]
  rfl

theorem toUpper_toUpper (c : Char) : c.toUpper.toUpper = c.toUpper := by
  simp only [Char.toUpper]
  split_ifs with lower upper
  · rw [toNat_ofNat_of_lt (by omega)] at upper
    omega
  · rfl
  · rfl

theorem toUpper_ne_of_isLower {c : Char} (lower : c.isLower) : c.toUpper ≠ c := by
  have range : 97 ≤ c.toNat ∧ c.toNat ≤ 122 := by
    simpa [Char.isLower, Char.toNat, UInt32.le_def, BitVec.le_def] using lower
  intro same
  have moved := congrArg Char.toNat same
  simp only [Char.toUpper] at moved
  rw [if_pos range, toNat_ofNat_of_lt (by omega)] at moved
  omega

theorem toUppercase_toUppercase (s : String) : toUppercase (toUppercase s) = toUppercase s := by
  simp [toUppercase, Function.comp_def, toUpper_toUpper]

theorem toUppercase_ne {s : String} (lower : ∃ c ∈ s.data, c.isLower) : toUppercase s ≠ s := by
  obtain ⟨c, mem, isLower⟩ := lower
  intro same
  rw [← congrArg String.data same] at mem
  obtain ⟨original, -, rfl⟩ := List.mem_map.mp mem
  exact toUpper_ne_of_isLower isLower (toUpper_toUpper original)

end Uppercase

section Debug

/-- `char::escape_debug` as `{:?}` of a `str` applies it, on ASCII characters: `\0`, tab, line
feed, carriage return, double quote and backslash get their two-character escapes, the other
control characters and delete a `\u` escape in lower-case hex, and printable characters stay.
Other characters stay as they are, as printable ones do in Rust; its escapes of non-printable and
grapheme-extending characters are not modelled. -/
def escapeDebug (c : Char) : String :=
  match c.toNat with
  | 0 => "\\0"
  | 9 => "\\t"
  | 10 => "\\n"
  | 13 => "\\r"
  | 34 => "\\\""
  | 92 => "\\\\"
  | code =>
    if code < 32 ∨ code = 127 then "\\u\x7b" ++ String.mk (Nat.toDigits 16 code) ++ "\x7d"
    else c.toString

/-- `{:?}` of a `String`: the text between double quotes, each character escaped. -/
def debugString (s : String) : String := "\"" ++ String.join (s.data.map escapeDebug) ++ "\""

/-- `{:?}` of an `EchoMessage`, as `#[derive(Debug)]` prints a struct variant. -/
def EchoMessage.debug : EchoMessage → String
  | .echo msgId text =>
    "Echo \x7b msg_id: " ++ toString msgId ++ ", echo: " ++ debugString text ++ " \x7d"
  | .echoOk msgId inReplyTo text =>
    "EchoOk \x7b msg_id: " ++ toString msgId ++ ", in_reply_to: " ++ toString inReplyTo ++
      ", echo: " ++ debugString text ++ " \x7d"

/-- The text of the echo stage's panic on a message that is not an echo request:
`panic!("Got a message that wasn't an echo: {:?}", msg.body)`. -/
def notAnEcho (body : EchoMessage) : String :=
  "Got a message that wasn\x27t an echo: " ++ body.debug

example : notAnEcho (.echoOk 1 0 "a\"b") =
    "Got a message that wasn\x27t an echo: EchoOk \x7b msg_id: 1, in_reply_to: 0, echo: \"a\\\"b\" \x7d" := by
  decide

end Debug

/-- The echo stage's transition, its state `(state, out)` cut down to the count: an echo request
bumps the count and is answered to its sender, with the count as `msg_id`, and every fifth
answer is uppercased. Any other message panics the stage. -/
def echoHandle (state : Nat) (msg : Envelope EchoMessage) :
    Except String (List (Envelope EchoMessage) × Nat) :=
  match msg.body with
  | .echo msgId echo =>
    let state := state + 1
    let echoResponse := if state % 5 = 0 then toUppercase echo else echo
    .ok ([⟨msg.dest, msg.src, .echoOk state msgId echoResponse⟩], state)
  | .echoOk .. => .error (notAnEcho msg.body)

/-- The handle `spawn` returns: the echo stage, its count at `0u64`. -/
def echoNode : NodeHandle Nat EchoMessage := ⟨0, echoHandle⟩

section Property

/-- Whether `resp` is what `ECHO_PROPERTY` looks for after the request `msg` of id `msgId` and
text `echo`: an `EchoOk` to the request's sender, in reply to `msgId`, echoing `echo`. -/
def answers (msg : Envelope EchoMessage) (msgId : Nat) (echo : String)
    (resp : Envelope EchoMessage) : Bool :=
  resp.dest == msg.src &&
    match resp.body with
    | .echoOk _ inReplyTo respEcho => inReplyTo == msgId && respEcho == echo
    | .echo .. => false

/-- `ECHO_PROPERTY`: each echo request a client sent is answered later in the trace. It fails on
the first that is not, which the source prints with the whole trace. -/
def echoProperty : List (Envelope EchoMessage) → Except (Envelope EchoMessage) Unit
  | [] => .ok ()
  | msg :: rest =>
    if msg.src.startsWith "c" then
      match msg.body with
      | .echo msgId echo =>
        match rest.find? (answers msg msgId echo) with
        | some _ => echoProperty rest
        | none => .error msg
      | .echoOk .. => echoProperty rest
    else echoProperty rest

/-- `msg` is an echo request a client sent, with no answer in `later`. -/
def Unanswered (msg : Envelope EchoMessage) (later : List (Envelope EchoMessage)) : Prop :=
  isClient msg.src = true ∧
    ∃ msgId echo, msg.body = .echo msgId echo ∧ ∀ resp ∈ later, answers msg msgId echo resp = false

/-- What `ECHO_PROPERTY` asks of a trace: no echo request a client sent goes unanswered after
it. -/
def EchoAnswered (trace : List (Envelope EchoMessage)) : Prop :=
  ∀ pre msg post, trace = pre ++ msg :: post → ¬Unanswered msg post

/-- `msg` is the first echo request of `trace` that a client sent and that has no answer after
it: each request before it has one. -/
def FirstUnanswered (trace : List (Envelope EchoMessage)) (msg : Envelope EchoMessage) : Prop :=
  ∃ pre post, trace = pre ++ msg :: post ∧ Unanswered msg post ∧
    ∀ before request between, pre = before ++ request :: between →
      ¬Unanswered request (between ++ msg :: post)

theorem echoProperty_cons_of_unanswered {msg : Envelope EchoMessage}
    {rest : List (Envelope EchoMessage)} (unanswered : Unanswered msg rest) :
    echoProperty (msg :: rest) = .error msg := by
  obtain ⟨client, msgId, echo, body, missing⟩ := unanswered
  have starts : msg.src.startsWith "c" = true := client
  have found : rest.find? (answers msg msgId echo) = none :=
    List.find?_eq_none.mpr fun resp mem => by simp [missing resp mem]
  simp [echoProperty, starts, body, found]

theorem echoProperty_cons_of_answered {msg : Envelope EchoMessage}
    {rest : List (Envelope EchoMessage)} (answered : ¬Unanswered msg rest) :
    echoProperty (msg :: rest) = echoProperty rest := by
  by_cases client : isClient msg.src = true
  · have starts : msg.src.startsWith "c" = true := client
    cases body : msg.body with
    | echoOk => simp [echoProperty, starts, body]
    | echo msgId echo =>
      cases found : rest.find? (answers msg msgId echo) with
      | none =>
        refine absurd ⟨client, msgId, echo, body, fun resp mem => ?_⟩ answered
        simpa using List.find?_eq_none.mp found resp mem
      | some _ => simp [echoProperty, starts, body, found]
  · have starts : msg.src.startsWith "c" = false := by simpa using client
    simp [echoProperty, starts]

theorem echoAnswered_cons (msg : Envelope EchoMessage) (rest : List (Envelope EchoMessage)) :
    EchoAnswered (msg :: rest) ↔ ¬Unanswered msg rest ∧ EchoAnswered rest := by
  constructor
  · intro answered
    exact ⟨answered [] msg rest rfl, fun pre later post split =>
      answered (msg :: pre) later post (by rw [split]; rfl)⟩
  · rintro ⟨first, answered⟩ pre later post split
    cases pre with
    | nil =>
      obtain ⟨rfl, rfl⟩ := List.cons.inj split
      exact first
    | cons head pre => exact answered pre later post (List.cons.inj split).2

theorem firstUnanswered_cons (head : Envelope EchoMessage) (rest : List (Envelope EchoMessage))
    (msg : Envelope EchoMessage) :
    FirstUnanswered (head :: rest) msg ↔
      Unanswered head rest ∧ msg = head ∨ ¬Unanswered head rest ∧ FirstUnanswered rest msg := by
  constructor
  · rintro ⟨pre, post, split, unanswered, before⟩
    cases pre with
    | nil =>
      obtain ⟨rfl, rfl⟩ := List.cons.inj split
      exact .inl ⟨unanswered, rfl⟩
    | cons first pre =>
      obtain ⟨rfl, rfl⟩ := List.cons.inj split
      exact .inr ⟨before [] head pre rfl, pre, post, rfl, unanswered,
        fun before' request between split' => before (head :: before') request between
          (by rw [split']; rfl)⟩
  · rintro (⟨unanswered, rfl⟩ | ⟨answered, pre, post, rfl, unanswered, before⟩)
    · exact ⟨[], rest, rfl, unanswered, fun before request between split => by simp at split⟩
    · refine ⟨head :: pre, post, rfl, unanswered, fun before' request between split => ?_⟩
      cases before' with
      | nil =>
        obtain ⟨rfl, rfl⟩ := List.cons.inj split
        exact answered
      | cons first before' => exact before before' request between (List.cons.inj split).2

/-- `ECHO_PROPERTY` accepts a trace exactly when every echo request a client sent is answered
after it, and otherwise rejects it naming the first that is not. -/
theorem echoProperty_eq_iff (trace : List (Envelope EchoMessage)) :
    (echoProperty trace = .ok () ↔ EchoAnswered trace) ∧
      ∀ msg, echoProperty trace = .error msg ↔ FirstUnanswered trace msg := by
  induction trace with
  | nil =>
    exact ⟨⟨fun _ _ _ _ split => by simp at split, fun _ => rfl⟩,
      fun _ => ⟨nofun, fun ⟨_, _, split, _⟩ => by simp at split⟩⟩
  | cons head rest ih =>
    rw [echoAnswered_cons]
    by_cases unanswered : Unanswered head rest
    · rw [echoProperty_cons_of_unanswered unanswered]
      refine ⟨⟨nofun, fun answered => (answered.1 unanswered).elim⟩, fun msg => ?_⟩
      rw [firstUnanswered_cons]
      simp [unanswered, eq_comm]
    · rw [echoProperty_cons_of_answered unanswered]
      refine ⟨by simp [unanswered, ih.1], fun msg => ?_⟩
      rw [firstUnanswered_cons, ih.2]
      simp [unanswered]

end Property

section Run

/-- The entry the strategy makes of a generated request `(instant, msg_id, echo)`: an echo
request from client `c1` to `n1`. -/
def echoEntry (request : Nat × Nat × String) : Entry EchoMessage :=
  generatedEntry request.1 (.echo request.2.1 request.2.2)

def echoMessages (requests : List (Nat × Nat × String)) : List (Nat × EchoMessage) :=
  requests.map fun request => (request.1, .echo request.2.1 request.2.2)

/-- The text `generate_message` makes of `i`: `format!("Please echo {}", i)`. -/
def echoText (i : Fin 128) : String := "Please echo " ++ toString i.val

/-- The request `generate_message` makes of `i`, generated at an instant, as
`(instant, msg_id, echo)`: `EchoMessage::Echo { msg_id: 0, echo: echoText i }`. -/
def generatedRequest (request : Nat × Fin 128) : Nat × Nat × String :=
  (request.1, 0, echoText request.2)

theorem echoText_isLower (i : Fin 128) : ∃ c ∈ (echoText i).data, c.isLower :=
  ⟨'l', List.mem_append_left _ (by decide), by decide⟩

def echoAnswer (count : Nat) (request : Nat × Nat × String) : Envelope EchoMessage :=
  ⟨"n1", "c1", .echoOk count request.2.1
    (if count % 5 = 0 then toUppercase request.2.2 else request.2.2)⟩

/-- The trace of the echo node serving `requests` in this order after `count` earlier ones:
each request followed by its answer. -/
def echoTrace (count : Nat) : List (Nat × Nat × String) → List (Envelope EchoMessage)
  | [] => []
  | request :: rest =>
    (echoEntry request).envelope :: echoAnswer (count + 1) request :: echoTrace (count + 1) rest

theorem echoHandle_echoEntry (count : Nat) (request : Nat × Nat × String) :
    echoHandle count (echoEntry request).envelope =
      .ok ([echoAnswer (count + 1) request], count + 1) :=
  rfl

theorem echoEntry_injective : Function.Injective echoEntry := by
  rintro ⟨arrivalTime, msgId, echo⟩ ⟨arrivalTime', msgId', echo'⟩ same
  simp only [echoEntry, generatedEntry, Entry.mk.injEq, Envelope.mk.injEq, EchoMessage.echo.injEq,
    true_and] at same
  obtain ⟨rfl, rfl, rfl⟩ := same
  rfl

theorem echoTrace_append_singleton (count : Nat) (served : List (Nat × Nat × String))
    (request : Nat × Nat × String) :
    echoTrace count (served ++ [request]) = echoTrace count served ++
      [(echoEntry request).envelope, echoAnswer (count + served.length + 1) request] := by
  induction served generalizing count with
  | nil => rfl
  | cons head rest ih =>
    have shift : count + 1 + rest.length = count + (rest.length + 1) := by omega
    rw [List.cons_append, echoTrace.eq_2, echoTrace.eq_2, ih, shift, List.length_cons]
    rfl

/-- What the World keeps while the echo node serves `requests`: every request is pending or
delivered, and the delivered ones were served in order, giving the echo trace and leaving node
`n1` with their count. -/
structure Machine.EchoRun (requests : List (Nat × Nat × String)) (m : Machine Nat EchoMessage) :
    Prop where
  accounted : m.pending + ↑m.delivered = ↑(requests.map echoEntry)
  served : ∃ served, m.delivered = served.map echoEntry ∧ m.trace = echoTrace 0 served ∧
    m.nodes "n1" = some ⟨served.length, echoHandle⟩

variable {requests : List (Nat × Nat × String)}

theorem Machine.EchoRun.mem_pending {m : Machine Nat EchoMessage} (run : m.EchoRun requests)
    {entry : Entry EchoMessage} (pending : entry ∈ m.pending) : ∃ request, entry = echoEntry request := by
  have mem : entry ∈ (↑(requests.map echoEntry) : Multiset (Entry EchoMessage)) :=
    run.accounted ▸ Multiset.mem_add.mpr (.inl pending)
  obtain ⟨request, -, rfl⟩ := List.mem_map.mp (Multiset.mem_coe.mp mem)
  exact ⟨request, rfl⟩

theorem Machine.EchoRun.not_panics {m : Machine Nat EchoMessage} (run : m.EchoRun requests)
    {entry : Entry EchoMessage} {panic : Panic} (panics : m.Panics entry panic) : False := by
  obtain ⟨served, -, -, n1⟩ := run.served
  cases panics with
  | unknownDestination pending _ missing =>
    obtain ⟨request, rfl⟩ := run.mem_pending pending
    rw [show (echoEntry request).envelope.dest = "n1" from rfl, n1] at missing
    cases missing
  | handlerFailed pending _ found failed =>
    obtain ⟨request, rfl⟩ := run.mem_pending pending
    obtain rfl := Option.some.inj (found.symm.trans n1)
    dsimp only at failed
    rw [echoHandle_echoEntry] at failed
    cases failed

/-- Each delivery serves the next request: it is answered to the client, so nothing is pushed,
and the trace gains the request and its answer. -/
theorem Machine.Step.echoRun {m m' : Machine Nat EchoMessage} {next : Next}
    (run : m.EchoRun requests) (step : m.Step next m') :
    m'.EchoRun requests ∧
      (next = .continue → Multiset.card m'.pending + 1 = Multiset.card m.pending) := by
  cases step with
  | done => exact ⟨run, nofun⟩
  | @deliver entry rest node outgoing state split _ found handled =>
    have pending : entry ∈ m.pending := by simp [split]
    obtain ⟨request, rfl⟩ := run.mem_pending pending
    obtain ⟨served, delivered, trace, n1⟩ := run.served
    obtain rfl := Option.some.inj (found.symm.trans n1)
    dsimp only at handled
    rw [echoHandle_echoEntry] at handled
    obtain ⟨rfl, rfl⟩ := Prod.mk.inj (Except.ok.inj handled)
    have none : scheduled (echoEntry request).arrivalTime [echoAnswer (served.length + 1) request] =
        [] := by
      simp [scheduled, echoAnswer, isClient_c1]
    refine ⟨⟨?_, served ++ [request], ?_, ?_, ?_⟩, fun _ => ?_⟩
    · dsimp only
      rw [none, ← run.accounted, split, Multiset.coe_nil, add_zero, ← Multiset.coe_add,
        Multiset.coe_singleton]
      ac_rfl
    · simp [delivered]
    · simp [trace, traced, echoTrace_append_singleton, echoEntry, generatedEntry, isClient_c1,
        echoAnswer]
    · simp only [List.length_append, List.length_singleton]
      exact Function.update_same (echoEntry request).envelope.dest _ m.nodes
    · simp [none, split]

theorem echoRun_start {numberOfNodes : Nat} (atLeastOne : 0 < numberOfNodes)
    (requests : List (Nat × Nat × String)) :
    (Machine.start (simulateWorld numberOfNodes echoNode (echoMessages requests))).EchoRun
      requests where
  accounted := by
    simp only [Machine.start, simulateWorld, World.new, BinaryHeap.elements_fromVec, echoMessages,
      List.map_map, Multiset.coe_nil, add_zero]
    rfl
  served := ⟨[], rfl, rfl, simulateWorld_nodes_n1 atLeastOne echoNode (echoMessages requests)⟩

/-- `run_world` on the echo World returns within one call per request and a last call, having
delivered the requests in arrival order, each followed by its answer. -/
theorem echoWorld_run {numberOfNodes : Nat} (atLeastOne : 0 < numberOfNodes)
    (requests : List (Nat × Nat × String)) :
    ∃ delivered final, delivered.Perm requests ∧ (delivered.map (·.1)).Sorted (· ≤ ·) ∧
      runWorld (requests.length + 1)
          (simulateWorld numberOfNodes echoNode (echoMessages requests)) =
        some (.ok (echoTrace 0 delivered, final)) := by
  have length : (simulateWorld numberOfNodes echoNode (echoMessages requests)).heap.len =
      requests.length := by
    simp [simulateWorld, World.new, BinaryHeap.fromVec, echoMessages]
  obtain ⟨m', final, reaches, run, related, drained, ran⟩ :=
    @runWorld_of_invariant Nat EchoMessage (Machine.EchoRun requests)
      (fun run step => ⟨(step.echoRun run).1, by have := (step.echoRun run).2 rfl; omega⟩)
      (fun run panics => run.not_panics panics) (requests.length + 1) _
      (echoRun_start atLeastOne requests) (by rw [length]; exact Nat.lt_succ_self _)
  obtain ⟨served, delivered, trace, -⟩ := run.served
  have accounted := run.accounted
  rw [drained, zero_add, delivered, ← Multiset.map_coe, ← Multiset.map_coe] at accounted
  have sorted := reaches.inTimeOrder_of_start.sorted
  rw [delivered, List.pairwise_map] at sorted
  refine ⟨served, final, Multiset.coe_eq_coe.mp (Multiset.map_injective echoEntry_injective
    accounted), List.pairwise_map.mpr sorted, ?_⟩
  rw [ran, related.trace, trace]
  rfl

end Run

section Outcome

theorem echoProperty_echoTrace_cons (count : Nat) (request : Nat × Nat × String)
    (rest : List (Nat × Nat × String)) (exact : (count + 1) % 5 ≠ 0) :
    echoProperty (echoTrace count (request :: rest)) = echoProperty (echoTrace (count + 1) rest) := by
  have client : "c1".startsWith "c" = true := isClient_c1
  have node : "n1".startsWith "c" = false := isClient_n1
  simp [echoTrace, echoProperty, echoEntry, generatedEntry, echoAnswer, answers, client, node, exact]

theorem echoProperty_echoTrace_of_exact (count : Nat) (served : List (Nat × Nat × String))
    (exact : ∀ i < served.length, (count + i + 1) % 5 ≠ 0) :
    echoProperty (echoTrace count served) = .ok () := by
  induction served generalizing count with
  | nil => rfl
  | cons request rest ih =>
    rw [echoProperty_echoTrace_cons count request rest (exact 0 (Nat.succ_pos _))]
    refine ih (count + 1) fun i below => ?_
    have shifted := exact (i + 1) (Nat.succ_lt_succ below)
    omega

theorem mem_echoTrace {count : Nat} {served : List (Nat × Nat × String)}
    {resp : Envelope EchoMessage} (mem : resp ∈ echoTrace count served) :
    ∃ request ∈ served, resp = (echoEntry request).envelope ∨ ∃ n, resp = echoAnswer n request := by
  induction served generalizing count with
  | nil => cases mem
  | cons head rest ih =>
    simp only [echoTrace, List.mem_cons] at mem
    rcases mem with rfl | rfl | mem
    · exact ⟨head, List.mem_cons_self _ _, .inl rfl⟩
    · exact ⟨head, List.mem_cons_self _ _, .inr ⟨_, rfl⟩⟩
    · obtain ⟨request, mem, shape⟩ := ih mem
      exact ⟨request, List.mem_cons_of_mem _ mem, shape⟩

theorem echoProperty_echoTrace_fifth (request : Nat × Nat × String)
    (rest : List (Nat × Nat × String)) (lower : ∃ c ∈ request.2.2.data, c.isLower)
    (fresh : ∀ later ∈ rest, later.2.2 ≠ request.2.2) :
    echoProperty (echoTrace 4 (request :: rest)) = .error (echoEntry request).envelope := by
  have changed := toUppercase_ne lower
  have unanswered : ∀ resp ∈ echoAnswer 5 request :: echoTrace 5 rest,
      answers (echoEntry request).envelope request.2.1 request.2.2 resp = false := by
    intro resp mem
    rcases List.mem_cons.mp mem with rfl | mem
    · simp [answers, echoAnswer, echoEntry, generatedEntry, changed]
    obtain ⟨later, inRest, rfl | ⟨n, rfl⟩⟩ := mem_echoTrace mem
    · simp [answers, echoEntry, generatedEntry]
    have upper : toUppercase later.2.2 ≠ request.2.2 := fun same =>
      changed (by rw [← same, toUppercase_toUppercase])
    by_cases fifth : n % 5 = 0 <;>
      simp [answers, echoAnswer, echoEntry, generatedEntry, fifth, fresh later inRest, upper]
  have notFound : (echoAnswer 5 request :: echoTrace 5 rest).find?
      (answers (echoEntry request).envelope request.2.1 request.2.2) = none :=
    List.find?_eq_none.mpr fun resp mem => by simp [unanswered resp mem]
  have client : (echoEntry request).envelope.src.startsWith "c" = true := isClient_c1
  show echoProperty ((echoEntry request).envelope :: echoAnswer 5 request :: echoTrace 5 rest) = _
  rw [echoProperty, if_pos client]
  dsimp only [echoEntry, generatedEntry] at notFound ⊢
  rw [notFound]

/-- On five or more requests with distinct texts, each holding a lower-case letter, the property
fails on the fifth. -/
theorem echoProperty_echoTrace_of_fifth :
    ∀ served : List (Nat × Nat × String), 5 ≤ served.length → (served.map (·.2.2)).Nodup →
      (∀ request ∈ served, ∃ c ∈ request.2.2.data, c.isLower) →
      ∃ fifth, served[4]? = some fifth ∧
        echoProperty (echoTrace 0 served) = .error (echoEntry fifth).envelope
  | a :: b :: c :: d :: fifth :: rest, _, distinct, lower => by
    refine ⟨fifth, by simp, ?_⟩
    rw [echoProperty_echoTrace_cons 0 a _ (by decide), echoProperty_echoTrace_cons 1 b _ (by decide),
      echoProperty_echoTrace_cons 2 c _ (by decide), echoProperty_echoTrace_cons 3 d _ (by decide)]
    refine echoProperty_echoTrace_fifth fifth rest (lower fifth (by simp)) fun later mem same => ?_
    simp only [List.map_cons, List.nodup_cons, List.mem_map] at distinct
    exact distinct.2.2.2.2.1 ⟨later, mem, same⟩
  | [], five, _, _ | [_], five, _, _ | [_, _], five, _, _ | [_, _, _], five, _, _
  | [_, _, _, _], five, _, _ => by simp at five

/-- `simulate_pure_stage_echo`, one case per list of generated requests, each an instant and the
value `i` that `generate_message` makes a request of, and any number of nodes: `run_world`
returns within one call per request and a last call, having delivered the requests in arrival
order, each followed by the echo node's answer. `ECHO_PROPERTY` holds of every case with fewer
than five requests, and fails on the fifth delivered request of every case of five or more whose
texts are distinct. -/
theorem simulate_echo_case (numberOfNodes : Nat) (atLeastOne : 0 < numberOfNodes)
    (requests : List (Nat × Fin 128)) :
    ∃ delivered : List (Nat × Nat × String), delivered.Perm (requests.map generatedRequest) ∧
      (delivered.map (·.1)).Sorted (· ≤ ·) ∧
      (∃ final, runWorld (requests.length + 1)
          (simulateWorld numberOfNodes echoNode (echoMessages (requests.map generatedRequest))) =
        some (.ok (echoTrace 0 delivered, final))) ∧
      (requests.length < 5 →
        simulateCase (requests.length + 1) numberOfNodes echoNode echoProperty
          (echoMessages (requests.map generatedRequest)) = some (.ok (.ok ()))) ∧
      (5 ≤ requests.length → (requests.map fun request => echoText request.2).Nodup →
        ∃ fifth, delivered[4]? = some fifth ∧
          simulateCase (requests.length + 1) numberOfNodes echoNode echoProperty
            (echoMessages (requests.map generatedRequest)) =
              some (.ok (.error (echoEntry fifth).envelope))) := by
  have length := List.length_map requests generatedRequest
  obtain ⟨delivered, final, perm, sorted, ran⟩ :=
    echoWorld_run atLeastOne (requests.map generatedRequest)
  rw [length] at ran
  have case : simulateCase (requests.length + 1) numberOfNodes echoNode echoProperty
      (echoMessages (requests.map generatedRequest)) =
        some (.ok (echoProperty (echoTrace 0 delivered))) := by
    simp only [simulateCase, ran]
    rfl
  have count : delivered.length = requests.length := perm.length_eq.trans length
  refine ⟨delivered, perm, sorted, ⟨final, ran⟩, fun fewer => ?_, fun five distinct => ?_⟩
  · rw [case, echoProperty_echoTrace_of_exact 0 delivered fun i below => by omega]
  · have texts : ((requests.map generatedRequest).map (·.2.2)).Nodup := by
      simpa [generatedRequest, Function.comp_def] using distinct
    obtain ⟨fifth, at4, fails⟩ := echoProperty_echoTrace_of_fifth delivered (count ▸ five)
      ((perm.map _).nodup_iff.mpr texts) fun request mem => by
        obtain ⟨generated, -, rfl⟩ := List.mem_map.mp (perm.subset mem)
        exact echoText_isLower generated.2
    exact ⟨fifth, at4, by rw [case, fails]⟩

def fiveEchoes : List (Nat × Fin 128) := [(0, 0), (1, 1), (2, 2), (3, 3), (4, 4)]

example : simulateCase 6 1 echoNode echoProperty (echoMessages (fiveEchoes.map generatedRequest)) =
    some (.ok (.error ⟨"c1", "n1", .echo 0 "Please echo 4"⟩)) := by
  with_unfolding_all rfl

/-- A repeated text hides the bug: the sixth answer echoes the fifth request's text. -/
example : simulateCase 7 1 echoNode echoProperty
    (echoMessages (((List.range 6).map fun i => (i, (3 : Fin 128))).map generatedRequest)) =
      some (.ok (.ok ())) := by
  with_unfolding_all rfl

theorem simulate_echo_case_five :
    0 < 1 ∧ 5 ≤ fiveEchoes.length ∧ (fiveEchoes.map fun request => echoText request.2).Nodup ∧
      ∃ delivered : List (Nat × Nat × String), delivered.Perm (fiveEchoes.map generatedRequest) ∧
        ∃ fifth, delivered[4]? = some fifth ∧
          simulateCase (fiveEchoes.length + 1) 1 echoNode echoProperty
            (echoMessages (fiveEchoes.map generatedRequest)) =
              some (.ok (.error (echoEntry fifth).envelope)) := by
  have distinct : (fiveEchoes.map fun request => echoText request.2).Nodup := by decide
  obtain ⟨delivered, perm, -, -, -, fails⟩ := simulate_echo_case 1 Nat.one_pos fiveEchoes
  exact ⟨Nat.one_pos, le_rfl, distinct, delivered, perm, fails le_rfl distinct⟩

end Outcome

end Amaru.Sim
