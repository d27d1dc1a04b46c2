import Mathlib.Logic.Relation
import Mathlib.Data.List.Basic

set_option autoImplicit false

/- `airlock_effect` of `pure-stage/src/simulation.rs`: the future a stage awaits for each effect.
It shares one slot with the driver, the `EffectBox`, which carries an effect to the driver or a
response back. `StageEffect` and `StageResponse` live in `effect.rs` and the driver in
`running.rs`, neither in the sources: the effect is opaque, a response is `Unit` or another
value, which is all `airlock_effect` tells apart, and the driver is any party that keeps the
airlock's contract. It takes only an effect from the box, and puts a response only into the
empty box, once per effect it took; the runtime does not poll a stage while the stage's effect
waits in the box. Then no poll panics, the driver receives the stage's effect exactly once, and
the future returns only what its mapper makes of a response the driver posted. -/
namespace Amaru.PureStage

/-- The responses a driver feeds back: `Unit`, or any other. -/
inductive StageResponse (R : Type)
  | unit
  | other (response : R)
deriving DecidableEq, Repr

/-- `EffectBox`: empty, `Left` (`inl`) an effect, or `Right` (`inr`) a response. -/
abbrev EffectBox (E R : Type) := Option (E ⊕ StageResponse R)

/-- `std::task::Poll`. -/
inductive Poll (α : Type)
  | ready (value : α)
  | pending
deriving DecidableEq, Repr

def Poll.toOption {α : Type} : Poll α → Option α
  | .ready value => some value
  | .pending => none

/-- The three panics of `airlock_effect`. -/
inductive AirlockPanic (E R : Type)
  | effectAlreadySet (effect : E)
  | leftoverResponse (response : StageResponse R)
  | expectedResponse (effect : E)
deriving DecidableEq, Repr

variable {E R Out : Type}

/-- One `poll` of the future `airlock_effect` returns, given the effect it still has to post
(`None` once posted) and the box: what the poll returns, and both again after it. -/
def airlockPoll (response : Option (StageResponse R) → Option Out) (effect : Option E)
    (eb : EffectBox E R) : Except (AirlockPanic E R) (Poll Out × Option E × EffectBox E R) :=
  match effect with
  | some effect =>
    match eb with
    | some (.inl x) => .error (.effectAlreadySet x)
    | some (.inr .unit) | none => .ok (.pending, none, some (.inl effect))
    | some (.inr resp) => .error (.leftoverResponse resp)
  | none =>
    match eb with
    | none => .ok (.pending, none, none)
    | some (.inl x) => .error (.expectedResponse x)
    | some (.inr x) =>
      match response (some x) with
      | some out => .ok (.ready out, none, none)
      | none => .ok (.pending, none, none)

/-- The airlock with both parties: the future's effect still to post and what it returned once
ready, the box, and the driver's side: the effects it took, whether it owes a response, and the
responses it posted. -/
structure Airlock (E R Out : Type) where
  effect : Option E
  box : EffectBox E R
  result : Option Out
  taken : List E
  owed : Bool
  posted : List (StageResponse R)

def Airlock.start (effect : E) (box : EffectBox E R) : Airlock E R Out :=
  ⟨some effect, box, none, [], false, []⟩

/-- The moves of the runtime and of a driver keeping the contract: poll the unfinished future
while its effect is not waiting in the box; take an effect from the box; answer a taken effect
with a response put into the empty box. -/
inductive Move (response : Option (StageResponse R) → Option Out) :
    Airlock E R Out → Airlock E R Out → Prop
  | poll {a : Airlock E R Out} {poll : Poll Out} {effect : Option E} {box : EffectBox E R}
      (unfinished : a.result = none) (notWaiting : ∀ x, a.box ≠ some (.inl x))
      (polled : airlockPoll response a.effect a.box = .ok (poll, effect, box)) :
      Move response a { a with effect, box, result := poll.toOption }
  | take {a : Airlock E R Out} {x : E} (holds : a.box = some (.inl x)) :
      Move response a { a with box := none, taken := a.taken ++ [x], owed := true }
  | respond {a : Airlock E R Out} (r : StageResponse R) (empty : a.box = none)
      (owes : a.owed = true) :
      Move response a { a with box := some (.inr r), owed := false, posted := a.posted ++ [r] }

section Phases

variable (response : Option (StageResponse R) → Option Out) (e : E)

/-- Where the airlock of effect `e` can be: not yet posted; posted and waiting in the box; taken
and owed a response; answered; or settled, the response consumed, and the result, if any, the
mapper's value on a posted response. -/
inductive Phase : Airlock E R Out → Prop
  | fresh {a : Airlock E R Out} (effect : a.effect = some e)
      (box : a.box = none ∨ a.box = some (.inr .unit)) (result : a.result = none)
      (taken : a.taken = []) (owed : a.owed = false) : Phase a
  | posted {a : Airlock E R Out} (effect : a.effect = none) (box : a.box = some (.inl e))
      (result : a.result = none) (taken : a.taken = []) (owed : a.owed = false) : Phase a
  | awaiting {a : Airlock E R Out} (effect : a.effect = none) (box : a.box = none)
      (result : a.result = none) (taken : a.taken = [e]) (owed : a.owed = true) : Phase a
  | answered {a : Airlock E R Out} {r : StageResponse R} (effect : a.effect = none)
      (box : a.box = some (.inr r)) (sent : r ∈ a.posted) (result : a.result = none)
      (taken : a.taken = [e]) (owed : a.owed = false) : Phase a
  | settled {a : Airlock E R Out} (effect : a.effect = none) (box : a.box = none)
      (result : ∀ out, a.result = some out → ∃ r ∈ a.posted, response (some r) = some out)
      (taken : a.taken = [e]) (owed : a.owed = false) : Phase a

variable {response e}

theorem phase_start {box : EffectBox E R} (unused : box = none ∨ box = some (.inr .unit)) :
    Phase response e (Airlock.start e box : Airlock E R Out) :=
  .fresh rfl unused rfl rfl rfl

theorem airlockPoll_answer (r : StageResponse R) :
    ∃ poll : Poll Out, airlockPoll response (none : Option E) (some (.inr r)) = .ok (poll, none, none) ∧
      poll.toOption = response (some r) := by
  cases mapped : response (some r) with
  | none => exact ⟨.pending, by simp [airlockPoll, mapped], rfl⟩
  | some out => exact ⟨.ready out, by simp [airlockPoll, mapped], rfl⟩

theorem Phase.poll_ok {a : Airlock E R Out} (phase : Phase response e a)
    (notWaiting : ∀ x, a.box ≠ some (.inl x)) :
    ∃ poll effect box, airlockPoll response a.effect a.box = .ok (poll, effect, box) := by
  cases phase with
  | fresh effect box =>
    rw [effect]
    rcases box with box | box <;> rw [box] <;> exact ⟨_, _, _, rfl⟩
  | posted _ box => exact absurd box (notWaiting e)
  | awaiting effect box | settled effect box =>
    rw [effect, box]
    exact ⟨_, _, _, rfl⟩
  | @answered r effect box =>
    rw [effect, box]
    obtain ⟨poll, answered, -⟩ := @airlockPoll_answer E R Out response r
    exact ⟨poll, none, none, answered⟩

/-- Every move keeps the airlock in one of its phases. -/
theorem Phase.move {a a' : Airlock E R Out} (phase : Phase response e a)
    (move : Move response a a') : Phase response e a' := by
  cases move with
  | @poll poll effect' box' unfinished notWaiting polled =>
    cases phase with
    | fresh effect box _ taken owed =>
      rw [effect] at polled
      rcases box with box | box <;>
      · rw [box] at polled
        simp only [airlockPoll, Except.ok.injEq, Prod.mk.injEq] at polled
        obtain ⟨rfl, rfl, rfl⟩ := polled
        exact .posted rfl rfl rfl taken owed
    | posted _ box => exact absurd box (notWaiting e)
    | awaiting effect box _ taken owed =>
      simp only [effect, box, airlockPoll, Except.ok.injEq, Prod.mk.injEq] at polled
      obtain ⟨rfl, rfl, rfl⟩ := polled
      exact .awaiting rfl rfl rfl taken owed
    | @answered r effect box sent _ taken owed =>
      obtain ⟨value, answered, mapped⟩ := @airlockPoll_answer E R Out response r
      rw [effect, box, answered, Except.ok.injEq, Prod.mk.injEq, Prod.mk.injEq] at polled
      obtain ⟨rfl, rfl, rfl⟩ := polled
      exact .settled rfl rfl (fun out returned => ⟨r, sent, mapped ▸ returned⟩) taken owed
    | settled effect box _ taken owed =>
      simp only [effect, box, airlockPoll, Except.ok.injEq, Prod.mk.injEq] at polled
      obtain ⟨rfl, rfl, rfl⟩ := polled
      exact .settled rfl rfl (fun _ returned => nomatch returned) taken owed
  | @take x holds =>
    cases phase with
    | posted effect box result taken owed =>
      obtain rfl := Sum.inl.inj (Option.some.inj (box.symm.trans holds))
      exact .awaiting effect rfl result (by simp [taken]) rfl
    | fresh _ box => rcases box with box | box <;> simp [box] at holds
    | awaiting _ box | settled _ box => simp [box] at holds
    | answered _ box => simp [box] at holds
  | respond r empty owes =>
    cases phase with
    | awaiting effect _ result taken => exact .answered effect rfl (by simp) result taken rfl
    | fresh _ _ _ _ owed | settled _ _ _ _ owed => simp [owed] at owes
    | posted _ box | answered _ box => simp [box] at empty

/-- The runs of the airlock: any interleaving of the runtime's polls and the driver's moves. -/
def Airlock.Reaches (response : Option (StageResponse R) → Option Out) :
    Airlock E R Out → Airlock E R Out → Prop :=
  Relation.ReflTransGen (Move response)

theorem Phase.reaches {a a' : Airlock E R Out} (phase : Phase response e a)
    (reaches : Airlock.Reaches response a a') : Phase response e a' := by
  induction reaches with
  | refl => exact phase
  | tail _ last ih => exact ih.move last

theorem Phase.taken_eq {a : Airlock E R Out} (phase : Phase response e a) :
    a.taken = [] ∨ a.taken = [e] := by
  cases phase with
  | fresh _ _ _ taken | posted _ _ _ taken => exact .inl taken
  | awaiting _ _ _ taken | answered _ _ _ _ taken | settled _ _ _ taken => exact .inr taken

theorem Phase.result_eq {a : Airlock E R Out} (phase : Phase response e a) {out : Out}
    (returned : a.result = some out) : ∃ r ∈ a.posted, response (some r) = some out := by
  cases phase with
  | settled _ _ result => exact result out returned
  | fresh _ _ result | posted _ _ result | awaiting _ _ result | answered _ _ _ result =>
    simp [result] at returned

end Phases

/-- The airlock's contract. From a fresh future for effect `e`, over a box left empty or
holding `Unit`, along every interleaving of the runtime's polls and a driver's moves that keep
the contract: a poll the runtime may make does not panic; the driver has taken nothing, or `e`
once; and the future has returned nothing, or the mapper's value on a response the driver
posted. The round trip completes: a poll, the driver taking `e` and answering `r`, and a poll
leave the future with the mapper's value on `r`. -/
theorem airlock_contract (response : Option (StageResponse R) → Option Out) (e : E)
    {box : EffectBox E R} (unused : box = none ∨ box = some (.inr .unit)) :
    (∀ a, Airlock.Reaches response (Airlock.start e box) a →
      (a.result = none → (∀ x, a.box ≠ some (.inl x)) →
        ∃ poll effect box', airlockPoll response a.effect a.box = .ok (poll, effect, box')) ∧
      (a.taken = [] ∨ a.taken = [e]) ∧
      ∀ out, a.result = some out → ∃ r ∈ a.posted, response (some r) = some out) ∧
    ∀ r, ∃ a, Airlock.Reaches response (Airlock.start e box) a ∧
      a.taken = [e] ∧ a.posted = [r] ∧ a.result = response (some r) := by
  refine ⟨fun a reaches => ?_, fun r => ?_⟩
  · have phase := (phase_start unused).reaches reaches
    exact ⟨fun _ notWaiting => phase.poll_ok notWaiting, phase.taken_eq,
      fun _ returned => phase.result_eq returned⟩
  · have posted : airlockPoll response (some e) box = .ok (.pending, none, some (.inl e)) := by
      rcases unused with rfl | rfl <;> rfl
    have notWaiting : ∀ x, box ≠ some (.inl x) := by
      rcases unused with rfl | rfl <;> simp
    obtain ⟨poll, answered, value⟩ := @airlockPoll_answer E R Out response r
    exact ⟨_, .tail (.tail (.tail (.single (.poll rfl notWaiting posted)) (.take rfl))
      (.respond r rfl rfl)) (.poll rfl (by simp) answered), rfl, rfl, value⟩

def unitResponse : Option (StageResponse Nat) → Option Unit
  | some .unit => some ()
  | _ => none

theorem airlock_contract_send :
    ((none : EffectBox Nat Nat) = none ∨ (none : EffectBox Nat Nat) = some (.inr .unit)) ∧
    (∀ a, Airlock.Reaches unitResponse (Airlock.start 7 none) a →
      (a.result = none → (∀ x, a.box ≠ some (.inl x)) →
        ∃ poll effect box', airlockPoll unitResponse a.effect a.box = .ok (poll, effect, box')) ∧
      (a.taken = [] ∨ a.taken = [7]) ∧
      ∀ out, a.result = some out → ∃ r ∈ a.posted, unitResponse (some r) = some out) ∧
    ∀ r, ∃ a, Airlock.Reaches unitResponse (Airlock.start 7 none) a ∧
      a.taken = [7] ∧ a.posted = [r] ∧ a.result = unitResponse (some r) :=
  ⟨.inl rfl, airlock_contract unitResponse 7 (.inl rfl)⟩

end Amaru.PureStage
