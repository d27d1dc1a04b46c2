import Amaru.PureStage.Airlock

set_option autoImplicit false

/- A stage's transition over the airlock. The code of a stage's transition awaits one effect at
a time: each `eff.send(..).await` (and the other effects of `Effects`, built in `stage` over the
builder's one `EffectBox`) is the future `airlock_effect` returns, with the effect's mapper, and
the code after the `.await` runs on from what the mapper made of the response. Polling the
transition's future polls the airlock future it awaits; when that one is ready, the code runs on
in the same poll, to its end or to its next `.await`, whose airlock future it polls once, which
posts the next effect. Against a driver keeping the airlock's contract this implements the
transition run directly on the driver's responses. -/
namespace Amaru.PureStage

/-- A stage's transition as its future runs it: returned with a value, or at an `.await` on the
airlock future of `effect`, where `next` is what the effect's mapper and the code after the
`.await` make of a response: the rest of the transition, or nothing when the mapper rejects it. -/
inductive Transition (E R Out : Type)
  | done (value : Out)
  | await (effect : E) (next : StageResponse R → Option (Transition E R Out))

variable {E R Out : Type}

namespace Transition

/-- The transition run directly, its `.await`s answered by `responses` in order: the effects it
performed and what is left of it; nothing when a response is rejected or comes after the end. -/
def feed : Transition E R Out → List (StageResponse R) → Option (List E × Transition E R Out)
  | t, [] => some ([], t)
  | .done _, _ :: _ => none
  | .await e next, r :: rs => (next r).bind fun t => (t.feed rs).map fun ran => (e :: ran.1, ran.2)

/-- The effects the transition performs when its `.await`s get `responses`, in order, the one it
then awaits included. -/
def effects : Transition E R Out → List (StageResponse R) → List E
  | .done _, _ => []
  | .await e _, [] => [e]
  | .await e next, r :: rs => e :: ((next r).map fun t => t.effects rs).getD []

theorem feed_await_cons {e : E} {next : StageResponse R → Option (Transition E R Out)}
    {r : StageResponse R} {responses : List (StageResponse R)} {performed : List E}
    {rest : Transition E R Out} :
    (await e next).feed (r :: responses) = some (performed, rest) ↔
      ∃ t performed', next r = some t ∧ t.feed responses = some (performed', rest) ∧
        performed = e :: performed' := by
  simp only [feed, Option.bind_eq_some, Option.map_eq_some', Prod.mk.injEq]
  constructor
  · rintro ⟨t, accepted, ⟨performed', _⟩, fed, rfl, rfl⟩
    exact ⟨t, performed', accepted, fed, rfl⟩
  · rintro ⟨t, performed', accepted, fed, rfl⟩
    exact ⟨t, accepted, _, fed, rfl, rfl⟩

theorem feed_concat {t : Transition E R Out} {responses : List (StageResponse R)}
    {performed : List E} {e : E} {next : StageResponse R → Option (Transition E R Out)}
    (fed : t.feed responses = some (performed, .await e next)) (r : StageResponse R) :
    t.feed (responses ++ [r]) = (next r).map fun rest => (performed ++ [e], rest) := by
  induction responses generalizing t performed with
  | nil =>
    obtain ⟨rfl, rfl⟩ : [] = performed ∧ t = .await e next := by simpa [feed] using fed
    show (Transition.await e next).feed [r] = _
    simp only [feed]
    cases next r <;> rfl
  | cons first responses ih =>
    cases t with
    | done => simp [feed] at fed
    | await e₀ next₀ =>
      obtain ⟨t₁, performed₁, accepted, fed₁, rfl⟩ := feed_await_cons.mp fed
      show (Transition.await e₀ next₀).feed (first :: (responses ++ [r])) = _
      rw [feed, accepted, Option.some_bind, ih fed₁, Option.map_map]
      rfl

theorem effects_append {t rest : Transition E R Out} {responses : List (StageResponse R)}
    {performed : List E} (fed : t.feed responses = some (performed, rest))
    (later : List (StageResponse R)) :
    t.effects (responses ++ later) = performed ++ rest.effects later := by
  induction responses generalizing t performed with
  | nil =>
    obtain ⟨rfl, rfl⟩ : [] = performed ∧ t = rest := by simpa [feed] using fed
    rfl
  | cons first responses ih =>
    cases t with
    | done => simp [feed] at fed
    | await e₀ next₀ =>
      obtain ⟨t₁, performed₁, accepted, fed₁, rfl⟩ := feed_await_cons.mp fed
      simp [List.cons_append, effects, accepted, ih fed₁]

section AwaitOnce

variable (e : E) (accept : StageResponse R → Option Unit) (value : Out)

theorem feed_done_eq_some {responses : List (StageResponse R)} {performed : List E}
    {value' : Out} :
    (done value : Transition E R Out).feed responses = some (performed, .done value') ↔
      value' = value ∧ performed = [] ∧ responses = [] := by
  cases responses <;> simp [feed, eq_comm, and_comm]

theorem effects_await_done (responses : List (StageResponse R)) :
    (await e fun r => (accept r).map fun _ => done value).effects responses = [e] := by
  cases responses with
  | nil => rfl
  | cons r _ =>
    simp only [effects]
    cases accept r <;> simp [effects]

theorem feed_await_done {responses : List (StageResponse R)} {performed : List E} {value' : Out} :
    (await e fun r => (accept r).map fun _ => done value).feed responses =
        some (performed, .done value') ↔
      value' = value ∧ performed = [e] ∧ ∃ r, responses = [r] ∧ accept r = some () := by
  constructor
  · intro ran
    cases responses with
    | nil => simp [feed] at ran
    | cons r rest =>
      simp only [feed] at ran
      cases resumed : accept r <;> cases rest <;> simp_all [feed]
  · rintro ⟨rfl, rfl, r, rfl, resumed⟩
    simp [feed, resumed]

end AwaitOnce

end Transition

/-- The future of a stage's transition: not yet polled, at an `.await` whose airlock future has
posted its effect, or returned. -/
inductive StageFuture (E R Out : Type)
  | unstarted (transition : Transition E R Out)
  | awaiting (next : StageResponse R → Option (Transition E R Out))
  | returned

/-- What a poll of a stage's future panics with: one of `airlock_effect`'s panics, or the panic of
an `async` block polled after it returned. -/
inductive StagePanic (E R : Type)
  | airlock (panic : AirlockPanic E R)
  | resumedAfterCompletion

theorem airlockPoll_post (response : Option (StageResponse R) → Option Out) (e : E)
    {box : EffectBox E R} (unused : box = none ∨ box = some (.inr .unit)) :
    airlockPoll response (some e) box = .ok (.pending, none, some (.inl e)) := by
  rcases unused with rfl | rfl <;> rfl

/-- The code of a transition from its start, or from just after an `.await`, run to its end or to
its next `.await`, whose airlock future it polls for the first time: that poll posts the effect
and is pending (`airlockPoll_post`), and the future then awaits the response. -/
def runToAwait (transition : Transition E R Out) (box : EffectBox E R) :
    Except (StagePanic E R) (Poll Out × StageFuture E R Out × EffectBox E R) :=
  match transition with
  | .done value => .ok (.ready value, .returned, box)
  | .await e next =>
    match airlockPoll (fun r => r.bind next) (some e) box with
    | .ok (_, _, box) => .ok (.pending, .awaiting next, box)
    | .error panic => .error (.airlock panic)

/-- One poll of a stage's future: the first runs the transition from its start; a later one polls
the airlock future it awaits and, when that is ready, runs on from what the mapper made of the
response, in the same poll. -/
def stagePoll : StageFuture E R Out → EffectBox E R →
    Except (StagePanic E R) (Poll Out × StageFuture E R Out × EffectBox E R)
  | .unstarted transition, box => runToAwait transition box
  | .awaiting next, box =>
    match airlockPoll (fun r => r.bind next) none box with
    | .ok (.ready rest, _, box) => runToAwait rest box
    | .ok (.pending, _, box) => .ok (.pending, .awaiting next, box)
    | .error panic => .error (.airlock panic)
  | .returned, _ => .error .resumedAfterCompletion

/-- A stage's future over the airlock with a driver: the future, the box, what the future
returned, and the driver's side as in `Airlock`: the effects it took, whether it owes a response,
and the responses it posted. -/
structure StageRun (E R Out : Type) where
  future : StageFuture E R Out
  box : EffectBox E R
  result : Option Out
  taken : List E
  owed : Bool
  posted : List (StageResponse R)

def StageRun.start (transition : Transition E R Out) (box : EffectBox E R) : StageRun E R Out :=
  ⟨.unstarted transition, box, none, [], false, []⟩

/-- The moves of the runtime and of a driver keeping the airlock's contract, as in `Move`: poll
the unfinished future while its effect is not waiting in the box; take an effect from the box;
answer a taken effect with a response put into the empty box. -/
inductive StageMove : StageRun E R Out → StageRun E R Out → Prop
  | poll {a : StageRun E R Out} {poll : Poll Out} {future : StageFuture E R Out}
      {box : EffectBox E R} (unfinished : a.result = none)
      (notWaiting : ∀ x, a.box ≠ some (.inl x))
      (polled : stagePoll a.future a.box = .ok (poll, future, box)) :
      StageMove a { a with future, box, result := poll.toOption }
  | take {a : StageRun E R Out} {x : E} (holds : a.box = some (.inl x)) :
      StageMove a { a with box := none, taken := a.taken ++ [x], owed := true }
  | respond {a : StageRun E R Out} (r : StageResponse R) (empty : a.box = none)
      (owes : a.owed = true) :
      StageMove a { a with box := some (.inr r), owed := false, posted := a.posted ++ [r] }

/-- The runs of a stage's future: any interleaving of the runtime's polls and the driver's
moves. -/
def StageRun.Reaches : StageRun E R Out → StageRun E R Out → Prop :=
  Relation.ReflTransGen StageMove

section Phases

variable (t₀ : Transition E R Out)

/-- Where a run of transition `t₀` can be: not yet polled; at an `.await` whose effect waits in
the box; taken and owed a response; answered; with the response rejected by the mapper, so that
the future waits for good; or returned. At an `.await`, `t₀` fed with the responses the future
consumed has performed the effects the driver took before this one and stands at this
`.await`. -/
inductive StagePhase : StageRun E R Out → Prop
  | unstarted {a : StageRun E R Out} (future : a.future = .unstarted t₀)
      (box : a.box = none ∨ a.box = some (.inr .unit)) (result : a.result = none)
      (taken : a.taken = []) (owed : a.owed = false) (posted : a.posted = []) : StagePhase a
  | posted {a : StageRun E R Out} {e : E} {next : StageResponse R → Option (Transition E R Out)}
      (future : a.future = .awaiting next) (fed : t₀.feed a.posted = some (a.taken, .await e next))
      (box : a.box = some (.inl e)) (result : a.result = none) (owed : a.owed = false) :
      StagePhase a
  | awaiting {a : StageRun E R Out} {e : E} {next : StageResponse R → Option (Transition E R Out)}
      {performed : List E} (future : a.future = .awaiting next)
      (fed : t₀.feed a.posted = some (performed, .await e next))
      (taken : a.taken = performed ++ [e])
      (box : a.box = none) (result : a.result = none) (owed : a.owed = true) : StagePhase a
  | answered {a : StageRun E R Out} {e : E} {next : StageResponse R → Option (Transition E R Out)}
      {performed : List E} {consumed : List (StageResponse R)} {r : StageResponse R}
      (future : a.future = .awaiting next)
      (fed : t₀.feed consumed = some (performed, .await e next))
      (posted : a.posted = consumed ++ [r]) (taken : a.taken = performed ++ [e])
      (box : a.box = some (.inr r)) (result : a.result = none) (owed : a.owed = false) :
      StagePhase a
  | rejected {a : StageRun E R Out} {e : E} {next : StageResponse R → Option (Transition E R Out)}
      {performed : List E} {consumed : List (StageResponse R)} {r : StageResponse R}
      (future : a.future = .awaiting next)
      (fed : t₀.feed consumed = some (performed, .await e next))
      (posted : a.posted = consumed ++ [r]) (rejects : next r = none)
      (taken : a.taken = performed ++ [e]) (box : a.box = none) (result : a.result = none)
      (owed : a.owed = false) : StagePhase a
  | returned {a : StageRun E R Out} {value : Out} (future : a.future = .returned)
      (fed : t₀.feed a.posted = some (a.taken, .done value))
      (box : a.box = none ∨ a.box = some (.inr .unit)) (result : a.result = some value)
      (owed : a.owed = false) : StagePhase a

variable {t₀}

theorem runToAwait_eq (t : Transition E R Out) {box : EffectBox E R}
    (unused : box = none ∨ box = some (.inr .unit)) :
    (∃ value, t = .done value ∧ runToAwait t box = .ok (.ready value, .returned, box)) ∨
      ∃ e next, t = .await e next ∧
        runToAwait t box = .ok (.pending, .awaiting next, some (.inl e)) := by
  cases t with
  | done value => exact .inl ⟨value, rfl, rfl⟩
  | await e next => exact .inr ⟨e, next, rfl, by simp [runToAwait, airlockPoll_post _ e unused]⟩

theorem stagePoll_answered (next : StageResponse R → Option (Transition E R Out))
    (r : StageResponse R) :
    stagePoll (.awaiting next) (some (.inr r)) =
      match next r with
      | some rest => runToAwait rest none
      | none => .ok (.pending, .awaiting next, none) := by
  simp only [stagePoll, airlockPoll, Option.some_bind]
  cases next r <;> rfl

theorem stagePoll_waiting (next : StageResponse R → Option (Transition E R Out)) :
    stagePoll (.awaiting next) (none : EffectBox E R) = .ok (.pending, .awaiting next, none) :=
  rfl

theorem stagePhase_start {box : EffectBox E R} (unused : box = none ∨ box = some (.inr .unit)) :
    StagePhase t₀ (StageRun.start t₀ box) :=
  .unstarted rfl unused rfl rfl rfl rfl

theorem StagePhase.of_runToAwait {a : StageRun E R Out} {rest : Transition E R Out}
    {box : EffectBox E R} (unused : box = none ∨ box = some (.inr .unit))
    (fed : t₀.feed a.posted = some (a.taken, rest)) (owed : a.owed = false)
    {poll : Poll Out} {future : StageFuture E R Out} {box' : EffectBox E R}
    (ran : runToAwait rest box = .ok (poll, future, box')) :
    StagePhase t₀ { a with future, box := box', result := poll.toOption } := by
  rcases runToAwait_eq rest unused with ⟨value, rfl, returns⟩ | ⟨e, next, rfl, awaits⟩
  · rw [returns, Except.ok.injEq, Prod.mk.injEq, Prod.mk.injEq] at ran
    obtain ⟨rfl, rfl, rfl⟩ := ran
    exact .returned rfl fed unused rfl owed
  · rw [awaits, Except.ok.injEq, Prod.mk.injEq, Prod.mk.injEq] at ran
    obtain ⟨rfl, rfl, rfl⟩ := ran
    exact .posted rfl fed rfl rfl owed

/-- Every move keeps the run of `t₀` in one of its phases. -/
theorem StagePhase.move {a a' : StageRun E R Out} (phase : StagePhase t₀ a)
    (move : StageMove a a') : StagePhase t₀ a' := by
  cases move with
  | @poll poll future box unfinished notWaiting polled =>
    cases phase with
    | unstarted future₀ box₀ _ taken owed posted =>
      rw [future₀] at polled
      exact StagePhase.of_runToAwait box₀ (by simp [taken, posted, Transition.feed]) owed polled
    | posted _ _ box₀ => exact absurd box₀ (notWaiting _)
    | awaiting future₀ fed taken box₀ _ owed =>
      rw [future₀, box₀, stagePoll_waiting, Except.ok.injEq, Prod.mk.injEq, Prod.mk.injEq] at polled
      obtain ⟨rfl, rfl, rfl⟩ := polled
      exact .awaiting rfl fed taken rfl rfl owed
    | @answered e next performed consumed r future₀ fed posted taken box₀ _ owed =>
      rw [future₀, box₀, stagePoll_answered] at polled
      cases accepted : next r with
      | none =>
        rw [accepted, Except.ok.injEq, Prod.mk.injEq, Prod.mk.injEq] at polled
        obtain ⟨rfl, rfl, rfl⟩ := polled
        exact .rejected rfl fed posted accepted taken rfl rfl owed
      | some rest =>
        rw [accepted] at polled
        refine StagePhase.of_runToAwait (.inl rfl) ?_ owed polled
        rw [posted, taken, Transition.feed_concat fed, accepted]
        rfl
    | rejected future₀ fed posted rejects taken box₀ _ owed =>
      rw [future₀, box₀, stagePoll_waiting, Except.ok.injEq, Prod.mk.injEq, Prod.mk.injEq] at polled
      obtain ⟨rfl, rfl, rfl⟩ := polled
      exact .rejected rfl fed posted rejects taken rfl rfl owed
    | returned _ _ _ result => simp [result] at unfinished
  | @take x holds =>
    cases phase with
    | posted future fed box result owed =>
      obtain rfl := Sum.inl.inj (Option.some.inj (box.symm.trans holds))
      exact .awaiting future fed rfl rfl result rfl
    | unstarted _ box | returned _ _ box => rcases box with box | box <;> simp [box] at holds
    | awaiting _ _ _ box | rejected _ _ _ _ _ box => simp [box] at holds
    | answered _ _ _ _ box => simp [box] at holds
  | respond r empty owes =>
    cases phase with
    | awaiting future fed taken _ result => exact .answered future fed rfl taken rfl result rfl
    | unstarted _ _ _ _ owed | posted _ _ _ _ owed | answered _ _ _ _ _ _ owed
    | rejected _ _ _ _ _ _ _ owed | returned _ _ _ _ owed => simp [owed] at owes

theorem StagePhase.reaches {a a' : StageRun E R Out} (phase : StagePhase t₀ a)
    (reaches : StageRun.Reaches a a') : StagePhase t₀ a' := by
  induction reaches with
  | refl => exact phase
  | tail _ last ih => exact ih.move last

theorem StagePhase.poll_ok {a : StageRun E R Out} (phase : StagePhase t₀ a)
    (unfinished : a.result = none) (notWaiting : ∀ x, a.box ≠ some (.inl x)) :
    ∃ poll future box, stagePoll a.future a.box = .ok (poll, future, box) := by
  cases phase with
  | unstarted future box =>
    rw [future]
    rcases runToAwait_eq t₀ box with ⟨_, _, ran⟩ | ⟨_, _, _, ran⟩ <;> exact ⟨_, _, _, ran⟩
  | posted _ _ box => exact absurd box (notWaiting _)
  | awaiting future _ _ box | rejected future _ _ _ _ box =>
    rw [future, box]
    exact ⟨_, _, _, stagePoll_waiting _⟩
  | @answered _ next _ _ r future _ _ _ box =>
    rw [future, box, stagePoll_answered]
    cases next r with
    | none => exact ⟨_, _, _, rfl⟩
    | some rest =>
      rcases runToAwait_eq rest (.inl rfl) with ⟨_, _, ran⟩ | ⟨_, _, _, ran⟩ <;>
        exact ⟨_, _, _, ran⟩
  | returned _ _ _ result => simp [result] at unfinished

/-- The driver has taken the effects the transition performs on the responses it posted, in
order, and no other. -/
theorem StagePhase.taken_prefix {a : StageRun E R Out} (phase : StagePhase t₀ a) :
    a.taken <+: t₀.effects a.posted := by
  cases phase with
  | unstarted _ _ _ taken => simp [taken]
  | posted _ fed =>
    rw [← List.append_nil a.posted, Transition.effects_append fed]
    exact List.prefix_append _ _
  | awaiting _ fed taken =>
    rw [← List.append_nil a.posted, Transition.effects_append fed, taken]
    exact List.prefix_refl _
  | answered _ fed posted taken | rejected _ fed posted _ taken =>
    rw [posted, Transition.effects_append fed, taken, Transition.effects]
    exact ⟨_, by rw [List.append_assoc, List.singleton_append]⟩
  | returned _ fed =>
    rw [← List.append_nil a.posted, Transition.effects_append fed]
    simp [Transition.effects]

theorem StagePhase.result_eq {a : StageRun E R Out} (phase : StagePhase t₀ a) {value : Out}
    (returned : a.result = some value) : t₀.feed a.posted = some (a.taken, .done value) := by
  cases phase with
  | returned _ fed _ result => rwa [← Option.some.inj (result.symm.trans returned)]
  | unstarted _ _ result | posted _ _ _ result | awaiting _ _ _ _ result
  | answered _ _ _ _ _ result | rejected _ _ _ _ _ _ result => simp [result] at returned

end Phases

theorem StageRun.complete (t₀ : Transition E R Out) :
    ∀ (responses : List (StageResponse R)) (a : StageRun E R Out) {e : E}
      {next : StageResponse R → Option (Transition E R Out)} {performed : List E} {value : Out},
      a.future = .awaiting next → t₀.feed a.posted = some (a.taken, .await e next) →
      a.box = some (.inl e) → a.result = none → a.owed = false →
      (Transition.await e next).feed responses = some (performed, .done value) →
      ∃ a', StageRun.Reaches a a' ∧ a'.taken = a.taken ++ performed ∧
        a'.posted = a.posted ++ responses ∧ a'.result = some value
  | [], _, _, _, _, _, _, _, _, _, _, ran => by simp [Transition.feed] at ran
  | r :: responses, a, e, next, performed, value, future, fed, box, result, owed, ran => by
    obtain ⟨rest, later, accepted, ranRest, rfl⟩ := Transition.feed_await_cons.mp ran
    let answered : StageRun E R Out :=
      { a with
        box := some (.inr r)
        taken := a.taken ++ [e]
        owed := false
        posted := a.posted ++ [r] }
    have toAnswered : StageRun.Reaches a answered :=
      .tail (.single (.take box)) (.respond r rfl rfl)
    have fedNext : t₀.feed answered.posted = some (answered.taken, rest) := by
      simp only [answered, Transition.feed_concat fed, accepted]
      rfl
    have polled : stagePoll answered.future answered.box = runToAwait rest none := by
      simp only [answered, future, stagePoll_answered, accepted]
    rcases runToAwait_eq rest (.inl rfl) with
      ⟨value', rfl, returns⟩ | ⟨e', next', rfl, awaits⟩
    · obtain ⟨rfl, rfl, rfl⟩ := (Transition.feed_done_eq_some value').mp ranRest
      exact ⟨_, toAnswered.tail (.poll result (by simp [answered]) (polled.trans returns)),
        by simp [answered], rfl, rfl⟩
    · obtain ⟨a', reaches, taken, posted, returned⟩ := StageRun.complete t₀ responses
        { answered with future := .awaiting next', box := some (.inl e'), result := none }
        rfl fedNext rfl rfl rfl ranRest
      exact ⟨a', (toAnswered.tail (.poll result (by simp [answered]) (polled.trans awaits))).trans
        reaches, by simp [taken, answered], by simp [posted, answered], returned⟩

/-- Every direct run of a transition completes over the airlock: from the transition not yet
polled, a driver answering each effect in turn with the run's responses brings the future to the
run's value. -/
theorem StageRun.reaches_of_feed (t₀ : Transition E R Out) {box : EffectBox E R}
    (unused : box = none ∨ box = some (.inr .unit)) {responses : List (StageResponse R)}
    {performed : List E} {value : Out} (ran : t₀.feed responses = some (performed, .done value)) :
    ∃ a, StageRun.Reaches (StageRun.start t₀ box) a ∧ a.taken = performed ∧
      a.posted = responses ∧ a.result = some value := by
  have notWaiting : ∀ x, box ≠ some (.inl x) := by rcases unused with rfl | rfl <;> simp
  rcases runToAwait_eq t₀ unused with ⟨value', rfl, returns⟩ | ⟨e, next, rfl, awaits⟩
  · obtain ⟨rfl, rfl, rfl⟩ := (Transition.feed_done_eq_some value').mp ran
    exact ⟨_, .single (.poll rfl notWaiting returns), rfl, rfl, rfl⟩
  · obtain ⟨a', reaches, taken, posted, returned⟩ := StageRun.complete (.await e next) responses
      ⟨.awaiting next, some (.inl e), none, [], false, []⟩ rfl rfl rfl rfl rfl ran
    exact ⟨a', .head (.poll rfl notWaiting awaits) reaches, by simpa using taken,
      by simpa using posted, returned⟩

section AwaitOnce

variable {box : EffectBox E R} (unused : box = none ∨ box = some (.inr .unit))
include unused

theorem StageRun.reaches_done (value : Out) :
    (∀ a, StageRun.Reaches (StageRun.start (.done value) box) a → a.taken = [] ∧
      ∀ value', a.result = some value' → value' = value ∧ a.posted = []) ∧
    ∃ a, StageRun.Reaches (StageRun.start (.done value) box) a ∧ a.result = some value := by
  refine ⟨fun a reaches => ?_, ?_⟩
  · have phase := (stagePhase_start unused).reaches reaches
    refine ⟨List.eq_nil_of_prefix_nil (by simpa [Transition.effects] using phase.taken_prefix),
      fun value' returned => ?_⟩
    obtain ⟨same, -, posted⟩ := (Transition.feed_done_eq_some value).mp (phase.result_eq returned)
    exact ⟨same, posted⟩
  · obtain ⟨a, reaches, -, -, returned⟩ :=
      StageRun.reaches_of_feed _ unused ((Transition.feed_done_eq_some value).mpr ⟨rfl, rfl, rfl⟩)
    exact ⟨a, reaches, returned⟩

theorem StageRun.reaches_await_done (e : E) (accept : StageResponse R → Option Unit)
    (value : Out) :
    (∀ a, StageRun.Reaches
        (StageRun.start (.await e fun r => (accept r).map fun _ => .done value) box) a →
      a.taken <+: [e] ∧ ∀ value', a.result = some value' →
        value' = value ∧ a.taken = [e] ∧ ∃ r, a.posted = [r] ∧ accept r = some ()) ∧
    ∀ r, accept r = some () → ∃ a, StageRun.Reaches
        (StageRun.start (.await e fun r => (accept r).map fun _ => .done value) box) a ∧
      a.taken = [e] ∧ a.posted = [r] ∧ a.result = some value := by
  refine ⟨fun a reaches => ?_, fun r resumed => ?_⟩
  · have phase := (stagePhase_start unused).reaches reaches
    exact ⟨Transition.effects_await_done e accept value a.posted ▸ phase.taken_prefix,
      fun _ returned => (Transition.feed_await_done e accept value).mp (phase.result_eq returned)⟩
  · exact StageRun.reaches_of_feed _ unused
      ((Transition.feed_await_done e accept value).mpr ⟨rfl, rfl, r, rfl, resumed⟩)

end AwaitOnce

/-- The contract of a stage's transition over the airlock. From a transition not yet polled, over
a box left empty or holding `Unit`, along every interleaving of the runtime's polls and a driver's
moves that keep the airlock's contract: a poll the runtime may make does not panic; the driver
has taken the effects the transition performs on the responses it posted, in order, and no
other; and the future returns only the value of the transition run directly on those responses.
Conversely every direct run completes: a driver answering each effect in turn brings the future
to the run's value. -/
theorem transition_contract (t₀ : Transition E R Out) {box : EffectBox E R}
    (unused : box = none ∨ box = some (.inr .unit)) :
    (∀ a, StageRun.Reaches (StageRun.start t₀ box) a →
      (a.result = none → (∀ x, a.box ≠ some (.inl x)) →
        ∃ poll future box', stagePoll a.future a.box = .ok (poll, future, box')) ∧
      a.taken <+: t₀.effects a.posted ∧
      ∀ value, a.result = some value → t₀.feed a.posted = some (a.taken, .done value)) ∧
    ∀ responses performed value, t₀.feed responses = some (performed, .done value) →
      ∃ a, StageRun.Reaches (StageRun.start t₀ box) a ∧ a.taken = performed ∧
        a.posted = responses ∧ a.result = some value := by
  refine ⟨fun a reaches => ?_, fun _ _ _ ran => StageRun.reaches_of_feed t₀ unused ran⟩
  have phase := (stagePhase_start unused).reaches reaches
  exact ⟨phase.poll_ok, phase.taken_prefix, fun _ returned => phase.result_eq returned⟩

def sendOnce : Transition Nat Nat Unit :=
  .await 7 fun r => (unitResponse (some r)).map .done

theorem transition_contract_send :
    ((none : EffectBox Nat Nat) = none ∨ (none : EffectBox Nat Nat) = some (.inr .unit)) ∧
    (∀ a, StageRun.Reaches (StageRun.start sendOnce none) a →
      (a.result = none → (∀ x, a.box ≠ some (.inl x)) →
        ∃ poll future box', stagePoll a.future a.box = .ok (poll, future, box')) ∧
      a.taken <+: sendOnce.effects a.posted ∧
      ∀ value, a.result = some value → sendOnce.feed a.posted = some (a.taken, .done value)) ∧
    ∀ responses performed value, sendOnce.feed responses = some (performed, .done value) →
      ∃ a, StageRun.Reaches (StageRun.start sendOnce none) a ∧ a.taken = performed ∧
        a.posted = responses ∧ a.result = some value :=
  ⟨.inl rfl, transition_contract sendOnce (.inl rfl)⟩

end Amaru.PureStage
