import Amaru.Ledger.ScriptsCorrectness

set_option autoImplicit false

/- What `execute` reads of the transaction's inputs. It looks the UTxO slice up at the spent and
reference inputs only, so a context whose slice agrees with it there gives the same result. And it
does not depend on their order. Every set it builds (the provided scripts, the input datum hashes)
is the same for the inputs in any order, and the one list it builds from them,
`inputs_missing_datum`, comes out in the inputs' order. The resolution that precedes the checks
stops at the first input the UTxO slice does not hold, so which input its `unreachable!` names
depends on the order, but which of its two arms it stops at does not. -/
namespace Amaru.Ledger.Scripts

/-- Two results of `execute` that agree up to the order of the inputs they name: both stop at the
same `unreachable!` arm, or both return the same verdict, or both return
`UnspendableInputsNoDatums` over the same inputs in another order. -/
def SameUpToInputOrder :
    Except Unreachable (Except InvalidScripts Unit) →
      Except Unreachable (Except InvalidScripts Unit) → Prop
  | .ok verdict, .ok verdict' => verdict = verdict' ∨ ∃ missing missing',
      verdict = .error (.unspendableInputsNoDatums missing) ∧
        verdict' = .error (.unspendableInputsNoDatums missing') ∧ missing.Perm missing'
  | .error (.input _), .error (.input _) => True
  | .error (.referenceInput _), .error (.referenceInput _) => True
  | _, _ => False

theorem resolveInputs_of_not_isSome (lookup : TransactionInput → Option TransactionOutput)
    {inputs : List TransactionInput} (unresolved : ¬∀ input ∈ inputs, (lookup input).isSome) :
    ∃ input, resolveInputs lookup inputs = .error input := by
  induction inputs with
  | nil => simp at unresolved
  | cons first rest ih =>
    cases found : lookup first with
    | none => exact ⟨first, by simp [resolveInputs, found]⟩
    | some output =>
      obtain ⟨input, stopped⟩ := ih fun held => unresolved fun input mem => by
        rcases List.mem_cons.mp mem with rfl | later
        · simp [found]
        · exact held input later
      exact ⟨input, by simp [resolveInputs, found, stopped, Except.map]⟩

theorem execute_of_unresolved_input (context : Context)
    (referenceInputs : Option (List TransactionInput)) {inputs : List TransactionInput}
    (witnessSet : MintedWitnessSet)
    (unresolved : ¬∀ input ∈ inputs, (context.lookup input).isSome) :
    ∃ input, execute context referenceInputs inputs witnessSet = .error (.input input) := by
  obtain ⟨input, stopped⟩ := resolveInputs_of_not_isSome context.lookup unresolved
  exact ⟨input, by simp only [execute, stopped]; rfl⟩

theorem execute_of_unresolved_reference (context : Context)
    {referenceInputs : Option (List TransactionInput)} {inputs : List TransactionInput}
    (witnessSet : MintedWitnessSet) (resolved : ∀ input ∈ inputs, (context.lookup input).isSome)
    (unresolved : ¬∀ input ∈ referenceInputs.getD [], (context.lookup input).isSome) :
    ∃ input,
      execute context referenceInputs inputs witnessSet = .error (.referenceInput input) := by
  obtain ⟨input, stopped⟩ := resolveInputs_of_not_isSome context.lookup unresolved
  exact ⟨input, by simp only [execute, resolveInputs_of_isSome _ _ resolved, stopped]; rfl⟩

theorem requiredScriptInputs_perm (providedScripts : Finset ScriptRefWithHash)
    {resolved resolved' : List Resolved} (perm : resolved.Perm resolved') :
    (requiredScriptInputs providedScripts resolved).Perm
      (requiredScriptInputs providedScripts resolved') :=
  perm.filterMap _

theorem checkDatums_perm (context : Context) (providedScripts : Finset ScriptRefWithHash)
    {resolved resolved' : List Resolved} (witnessSet : MintedWitnessSet)
    (perm : resolved.Perm resolved') :
    SameUpToInputOrder (.ok (checkDatums context providedScripts resolved witnessSet))
      (.ok (checkDatums context providedScripts resolved' witnessSet)) := by
  have entries := requiredScriptInputs_perm providedScripts perm
  have hashes : (inputDatums (requiredScriptInputs providedScripts resolved)).1 =
      (inputDatums (requiredScriptInputs providedScripts resolved')).1 := by
    rw [inputDatums_eq, inputDatums_eq]
    exact List.toFinset_eq_of_perm _ _ (entries.filterMap _)
  have missing : (inputDatums (requiredScriptInputs providedScripts resolved)).2.Perm
      (inputDatums (requiredScriptInputs providedScripts resolved')).2 := by
    rw [inputDatums_eq, inputDatums_eq]
    exact (entries.filter _).map _
  unfold checkDatums
  generalize inputDatums (requiredScriptInputs providedScripts resolved) = collected
    at hashes missing
  generalize inputDatums (requiredScriptInputs providedScripts resolved') = collected'
    at hashes missing
  obtain ⟨inputDatumHashes, inputsMissingDatum⟩ := collected
  obtain ⟨_, inputsMissingDatum'⟩ := collected'
  subst hashes
  dsimp only at missing
  by_cases none : inputsMissingDatum = []
  · subst none
    obtain rfl := missing.nil_eq
    exact .inl rfl
  · have none' : inputsMissingDatum' ≠ [] := fun empty => none (empty ▸ missing).eq_nil
    refine .inr ⟨_, _, ?_, ?_, missing⟩ <;> simp [none, none']

theorem executeResolved_perm (context : Context)
    {resolvedInputs resolvedInputs' resolvedReferenceInputs resolvedReferenceInputs' :
      List Resolved}
    (witnessSet : MintedWitnessSet) (spent : resolvedInputs.Perm resolvedInputs')
    (referenced : resolvedReferenceInputs.Perm resolvedReferenceInputs') :
    SameUpToInputOrder
      (.ok (executeResolved context resolvedInputs resolvedReferenceInputs witnessSet))
      (.ok (executeResolved context resolvedInputs' resolvedReferenceInputs' witnessSet)) := by
  have provided : providedScripts context.requiredScripts resolvedInputs resolvedReferenceInputs
      witnessSet = providedScripts context.requiredScripts resolvedInputs'
        resolvedReferenceInputs' witnessSet := by
    simp only [providedScripts, providedReferenceScripts]
    rw [List.toFinset_eq_of_perm _ _ ((spent.append referenced).filterMap _)]
  simp only [executeResolved, provided]
  split_ifs
  · exact .inl rfl
  · exact .inl rfl
  · exact checkDatums_perm context _ witnessSet spent

private theorem map_filterMap_sublist {α β : Type} {f : α → Option β} {g : β → α}
    (inverse : ∀ a b, f a = some b → g b = a) (l : List α) :
    ((l.filterMap f).map g).Sublist l := by
  induction l with
  | nil => exact .slnil
  | cons a rest ih =>
    cases found : f a with
    | none => simpa [found] using ih.cons a
    | some b => simpa [found, inverse a b found] using ih.cons₂ a

theorem resolveAll_sublist (lookup : TransactionInput → Option TransactionOutput)
    (inputs : List TransactionInput) : ((resolveAll lookup inputs).map (·.1)).Sublist inputs :=
  map_filterMap_sublist (fun input entry found => by
    obtain ⟨_, -, rfl⟩ := Option.map_eq_some'.mp found
    rfl) inputs

theorem requiredScriptInputs_sublist (providedScripts : Finset ScriptRefWithHash)
    (resolved : List Resolved) :
    ((requiredScriptInputs providedScripts resolved).map (·.1)).Sublist resolved := by
  rw [requiredScriptInputs_eq]
  refine map_filterMap_sublist (fun entry required found => ?_) resolved
  simp only [Option.bind_eq_some, Option.map_eq_some'] at found
  obtain ⟨_, -, _, -, rfl⟩ := found
  rfl

/-- The inputs an `UnspendableInputsNoDatums` of `execute` lists are spent inputs, in the order
of the transaction's inputs. -/
theorem execute_unspendable_sublist (context : Context)
    (referenceInputs : Option (List TransactionInput)) (inputs : List TransactionInput)
    (witnessSet : MintedWitnessSet) {missing : List TransactionInput}
    (returned : execute context referenceInputs inputs witnessSet =
      .ok (.error (.unspendableInputsNoDatums missing))) :
    missing.Sublist inputs := by
  have spentHeld : ∀ input ∈ inputs, (context.lookup input).isSome := by
    by_contra unresolved
    obtain ⟨_, stopped⟩ := execute_of_unresolved_input context referenceInputs witnessSet unresolved
    simp [stopped] at returned
  have referencedHeld : ∀ input ∈ referenceInputs.getD [], (context.lookup input).isSome := by
    by_contra unresolved
    obtain ⟨_, stopped⟩ := execute_of_unresolved_reference context witnessSet spentHeld unresolved
    simp [stopped] at returned
  rw [execute_of_isSome context referenceInputs inputs witnessSet
    (List.forall_mem_append.mpr ⟨spentHeld, referencedHeld⟩)] at returned
  simp only [Except.ok.injEq, executeResolved, checkDatums, inputDatums_eq] at returned
  split_ifs at returned <;> cases returned
  calc List.Sublist _ ((requiredScriptInputs _ (resolveAll context.lookup inputs)).map (·.1.1)) :=
        (List.filter_sublist _).map _
    _ = ((requiredScriptInputs _ _).map (·.1)).map (·.1) := (List.map_map _ _ _).symm
    List.Sublist _ ((resolveAll context.lookup inputs).map (·.1)) :=
        (requiredScriptInputs_sublist _ _).map _
    List.Sublist _ inputs := resolveAll_sublist _ _

/-- `execute` does not depend on the order of the transaction's inputs or reference inputs.
Reordered, it stops at the same arm of `unreachable!`, though maybe at another input; or it
returns the same verdict, but for the inputs an `UnspendableInputsNoDatums` lists, which come in
the order of the spent inputs. -/
theorem execute_inputs_perm (context : Context)
    {referenceInputs referenceInputs' : Option (List TransactionInput)}
    {inputs inputs' : List TransactionInput} (witnessSet : MintedWitnessSet)
    (spent : inputs.Perm inputs')
    (referenced : (referenceInputs.getD []).Perm (referenceInputs'.getD [])) :
    SameUpToInputOrder (execute context referenceInputs inputs witnessSet)
      (execute context referenceInputs' inputs' witnessSet) ∧
    ∀ missing, execute context referenceInputs inputs witnessSet =
      .ok (.error (.unspendableInputsNoDatums missing)) → missing.Sublist inputs := by
  refine ⟨?_, fun _ => execute_unspendable_sublist context referenceInputs inputs witnessSet⟩
  have held : ∀ {list list' : List TransactionInput}, list.Perm list' →
      ((∀ input ∈ list, (context.lookup input).isSome) ↔
        ∀ input ∈ list', (context.lookup input).isSome) :=
    fun perm => forall_congr' fun _ => imp_congr_left perm.mem_iff
  by_cases spentHeld : ∀ input ∈ inputs, (context.lookup input).isSome
  · by_cases referencedHeld : ∀ input ∈ referenceInputs.getD [], (context.lookup input).isSome
    · rw [execute_of_isSome context referenceInputs inputs witnessSet
          (List.forall_mem_append.mpr ⟨spentHeld, referencedHeld⟩),
        execute_of_isSome context referenceInputs' inputs' witnessSet
          (List.forall_mem_append.mpr
            ⟨(held spent).mp spentHeld, (held referenced).mp referencedHeld⟩)]
      exact executeResolved_perm context witnessSet (spent.filterMap _) (referenced.filterMap _)
    · obtain ⟨_, stopped⟩ := execute_of_unresolved_reference context witnessSet spentHeld
        referencedHeld
      obtain ⟨_, stopped'⟩ := execute_of_unresolved_reference context witnessSet
        ((held spent).mp spentHeld) (mt (held referenced).mpr referencedHeld)
      rw [stopped, stopped']
      trivial
  · obtain ⟨_, stopped⟩ := execute_of_unresolved_input context referenceInputs witnessSet spentHeld
    obtain ⟨_, stopped'⟩ := execute_of_unresolved_input context referenceInputs' witnessSet
      (mt (held spent).mpr spentHeld)
    rw [stopped, stopped']
    trivial

/-- A context requiring script 7 whose two spent outputs sit at script 7's address with no
datum. -/
def twoLockedContext : Context :=
  ⟨{7}, fun input => if input.transactionId = 0 ∧ input.index < 2 then
    some ⟨some (.shelley ⟨.script 7⟩), none, none⟩ else none, ∅⟩

theorem execute_inputs_perm_swapped :
    [⟨0, 0⟩, ⟨0, 1⟩].Perm [⟨0, 1⟩, (⟨0, 0⟩ : TransactionInput)] ∧
      ((none : Option (List TransactionInput)).getD []).Perm ((none : Option _).getD []) ∧
      SameUpToInputOrder
        (execute twoLockedContext none [⟨0, 0⟩, ⟨0, 1⟩] ⟨[⟨7, .plutusV1Script⟩], none⟩)
        (execute twoLockedContext none [⟨0, 1⟩, ⟨0, 0⟩] ⟨[⟨7, .plutusV1Script⟩], none⟩) ∧
      ∀ missing, execute twoLockedContext none [⟨0, 0⟩, ⟨0, 1⟩] ⟨[⟨7, .plutusV1Script⟩], none⟩ =
        .ok (.error (.unspendableInputsNoDatums missing)) → missing.Sublist [⟨0, 0⟩, ⟨0, 1⟩] :=
  ⟨.swap _ _ _, .refl _, execute_inputs_perm twoLockedContext _ (.swap _ _ _) (.refl _)⟩

example :
    execute twoLockedContext none [⟨0, 0⟩, ⟨0, 1⟩] ⟨[⟨7, .plutusV1Script⟩], none⟩ =
        .ok (.error (.unspendableInputsNoDatums [⟨0, 0⟩, ⟨0, 1⟩])) ∧
      execute twoLockedContext none [⟨0, 1⟩, ⟨0, 0⟩] ⟨[⟨7, .plutusV1Script⟩], none⟩ =
        .ok (.error (.unspendableInputsNoDatums [⟨0, 1⟩, ⟨0, 0⟩])) :=
  ⟨by with_unfolding_all rfl, by with_unfolding_all rfl⟩

theorem resolveInputs_congr {lookup lookup' : TransactionInput → Option TransactionOutput}
    {inputs : List TransactionInput} (agree : ∀ input ∈ inputs, lookup input = lookup' input) :
    resolveInputs lookup inputs = resolveInputs lookup' inputs := by
  induction inputs with
  | nil => rfl
  | cons first rest ih =>
    simp only [resolveInputs, agree first (List.mem_cons_self _ _),
      ih fun input mem => agree input (List.mem_cons_of_mem _ mem)]

/-- `execute` reads the UTxO slice of its context only at the transaction's spent and reference
inputs: two contexts with the same required scripts and allowed supplemental datums, whose slices
agree there, give the same result, so a validation on the slice of a transaction's inputs decides
as one on the whole UTxO. -/
theorem execute_lookup_local {context context' : Context}
    (referenceInputs : Option (List TransactionInput)) (inputs : List TransactionInput)
    (witnessSet : MintedWitnessSet) (required : context.requiredScripts = context'.requiredScripts)
    (allowed : context.allowedSupplementalDatums = context'.allowedSupplementalDatums)
    (agree : ∀ input ∈ inputs ++ referenceInputs.getD [],
      context.lookup input = context'.lookup input) :
    execute context referenceInputs inputs witnessSet =
      execute context' referenceInputs inputs witnessSet := by
  obtain ⟨requiredScripts, lookup, allowedSupplementalDatums⟩ := context
  obtain ⟨_, lookup', _⟩ := context'
  dsimp only at required allowed agree
  subst required allowed
  simp only [execute, resolveInputs_congr fun input mem => agree input (List.mem_append_left _ mem),
    resolveInputs_congr fun input mem => agree input (List.mem_append_right _ mem)]
  rfl

/-- `twoLockedContext` with one more output in its slice, at an input no transaction below
spends. -/
def widerContext : Context :=
  { twoLockedContext with
    lookup := fun input => if input = ⟨1, 0⟩ then twoLockedContext.lookup ⟨0, 0⟩
      else twoLockedContext.lookup input }

theorem execute_lookup_local_wider :
    twoLockedContext.requiredScripts = widerContext.requiredScripts ∧
    twoLockedContext.allowedSupplementalDatums = widerContext.allowedSupplementalDatums ∧
    (∀ input ∈ [⟨0, 0⟩, ⟨0, 1⟩] ++ (none : Option (List TransactionInput)).getD [],
      twoLockedContext.lookup input = widerContext.lookup input) ∧
    execute twoLockedContext none [⟨0, 0⟩, ⟨0, 1⟩] ⟨[⟨7, .plutusV1Script⟩], none⟩ =
      execute widerContext none [⟨0, 0⟩, ⟨0, 1⟩] ⟨[⟨7, .plutusV1Script⟩], none⟩ :=
  have agree : ∀ input ∈ [⟨0, 0⟩, ⟨0, 1⟩] ++ (none : Option (List TransactionInput)).getD [],
      twoLockedContext.lookup input = widerContext.lookup input := by
    simp [widerContext]
  ⟨rfl, rfl, agree, execute_lookup_local none _ _ rfl rfl agree⟩

end Amaru.Ledger.Scripts
