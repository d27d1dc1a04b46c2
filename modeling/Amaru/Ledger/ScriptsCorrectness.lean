import Amaru.Ledger.Scripts

set_option autoImplicit false

/- What `execute` decides, stated over the sets the ledger rules speak of: the required scripts
`N`, the witnessed scripts `W`, the reference scripts `R`, the witnessed datums `D`. -/
namespace Amaru.Ledger.Scripts

/-- `W`: the hashes of the scripts the witness set provides. -/
def witnessedScriptHashes (witnessSet : MintedWitnessSet) : Finset Nat :=
  (getProvidedScripts witnessSet).toFinset.image (·.hash)

/-- `R`: the hashes of the reference scripts on the outputs the transaction spends or
references. -/
def referenceScriptHashes (context : Context) (referenceInputs : Option (List TransactionInput))
    (inputs : List TransactionInput) : Finset Nat :=
  ((inputs ++ referenceInputs.getD []).filterMap fun input =>
    (context.lookup input).bind (·.hasScriptRef)).toFinset.image (·.hash)

/-- The result is neither `MissingRequiredScripts` nor `ExtraneousScriptWitnesses`. -/
def passesScriptChecks : Except InvalidScripts Unit → Bool
  | .error (.missingRequiredScripts _) | .error (.extraneousScriptWitnesses _) => false
  | _ => true

/-- The inputs paired with their outputs, when the slice holds every one of them. -/
def resolveAll (lookup : TransactionInput → Option TransactionOutput)
    (inputs : List TransactionInput) : List Resolved :=
  inputs.filterMap fun input => (lookup input).map (input, ·)

theorem mem_resolveAll {lookup : TransactionInput → Option TransactionOutput}
    {inputs : List TransactionInput} {entry : Resolved} :
    entry ∈ resolveAll lookup inputs ↔ entry.1 ∈ inputs ∧ lookup entry.1 = some entry.2 := by
  obtain ⟨input, output⟩ := entry
  simp only [resolveAll, List.mem_filterMap, Option.map_eq_some', Prod.mk.injEq]
  constructor
  · rintro ⟨input', mem, output', found, rfl, rfl⟩
    exact ⟨mem, found⟩
  · rintro ⟨mem, found⟩
    exact ⟨input, mem, output, found, rfl, rfl⟩

theorem resolveAll_append (lookup : TransactionInput → Option TransactionOutput)
    (inputs others : List TransactionInput) :
    resolveAll lookup (inputs ++ others) = resolveAll lookup inputs ++ resolveAll lookup others :=
  List.filterMap_append _ _ _

theorem resolveInputs_of_isSome (lookup : TransactionInput → Option TransactionOutput)
    (inputs : List TransactionInput) (resolves : ∀ input ∈ inputs, (lookup input).isSome) :
    resolveInputs lookup inputs = .ok (resolveAll lookup inputs) := by
  induction inputs with
  | nil => rfl
  | cons input rest ih =>
    obtain ⟨output, found⟩ := Option.isSome_iff_exists.mp (resolves input (List.mem_cons_self _ _))
    have restResolves := ih fun other mem => resolves other (List.mem_cons_of_mem _ mem)
    simp only [resolveInputs, found, restResolves, resolveAll, List.filterMap_cons,
      Option.map_some']
    rfl

/-- When the slice holds every spent and referenced input, `execute` returns, and what it
returns is the check of the resolved lists. -/
theorem execute_of_isSome (context : Context) (referenceInputs : Option (List TransactionInput))
    (inputs : List TransactionInput) (witnessSet : MintedWitnessSet)
    (resolves : ∀ input ∈ inputs ++ referenceInputs.getD [], (context.lookup input).isSome) :
    execute context referenceInputs inputs witnessSet =
      .ok (executeResolved context (resolveAll context.lookup inputs)
        (resolveAll context.lookup (referenceInputs.getD [])) witnessSet) := by
  have spent := resolveInputs_of_isSome context.lookup inputs
    fun input mem => resolves input (List.mem_append_left _ mem)
  have referenced := resolveInputs_of_isSome context.lookup (referenceInputs.getD [])
    fun input mem => resolves input (List.mem_append_right _ mem)
  simp only [execute, spent, referenced]
  rfl

/-! ## The script checks -/

private theorem sort_eq_nil_iff (s : Finset Nat) : s.sort (· ≤ ·) = [] ↔ s = ∅ := by
  rw [← Finset.val_eq_zero, ← Finset.sort_eq (· ≤ ·), Multiset.coe_eq_zero]

theorem missingScripts_eq_nil (requiredScripts : Finset Nat)
    (providedScripts : Finset ScriptRefWithHash) :
    missingScripts requiredScripts providedScripts = [] ↔
      requiredScripts ⊆ providedScripts.image (·.hash) := by
  rw [missingScripts, sort_eq_nil_iff, Finset.sdiff_eq_empty_iff_subset]

/-- The `fold` that collects `extra_scripts` keeps, in order, the hashes that are not required. -/
theorem extraScripts_eq (requiredScripts : Finset Nat)
    (providedScripts : Finset ScriptRefWithHash) :
    extraScripts requiredScripts providedScripts =
      ((providedScripts.sort (· ≤ ·)).filter fun script => script.hash ∉ requiredScripts).map
        (·.hash) := by
  suffices collected : ∀ (scripts : List ScriptRefWithHash) (accum : List Nat),
      scripts.foldl (fun accum script =>
        if script.hash ∉ requiredScripts then accum ++ [script.hash] else accum) accum =
      accum ++ (scripts.filter fun script => script.hash ∉ requiredScripts).map (·.hash) by
    exact collected _ []
  intro scripts
  induction scripts with
  | nil => simp
  | cons script rest ih =>
    intro accum
    rw [List.foldl_cons, ih]
    by_cases required : script.hash ∈ requiredScripts <;> simp [List.filter_cons, required]

theorem extraScripts_eq_nil (requiredScripts : Finset Nat)
    (providedScripts : Finset ScriptRefWithHash) :
    extraScripts requiredScripts providedScripts = [] ↔
      ∀ script ∈ providedScripts, script.hash ∈ requiredScripts := by
  simp [extraScripts_eq, List.filter_eq_nil_iff]

theorem mem_providedReferenceScripts {requiredScripts : Finset Nat}
    {resolvedInputs resolvedReferenceInputs : List Resolved} {script : ScriptRefWithHash} :
    script ∈ providedReferenceScripts requiredScripts resolvedInputs resolvedReferenceInputs ↔
      (∃ entry ∈ resolvedInputs ++ resolvedReferenceInputs, entry.2.hasScriptRef = some script) ∧
        script.hash ∈ requiredScripts := by
  simp only [providedReferenceScripts, List.mem_toFinset, List.mem_filterMap,
    Option.filter_eq_some, Option.mem_def, decide_eq_true_eq]
  constructor
  · rintro ⟨entry, mem, found, required⟩
    exact ⟨⟨entry, mem, found⟩, required⟩
  · rintro ⟨⟨entry, mem, found⟩, required⟩
    exact ⟨entry, mem, found, required⟩

theorem mem_providedScripts {requiredScripts : Finset Nat}
    {resolvedInputs resolvedReferenceInputs : List Resolved} {witnessSet : MintedWitnessSet}
    {script : ScriptRefWithHash} :
    script ∈ providedScripts requiredScripts resolvedInputs resolvedReferenceInputs witnessSet ↔
      script ∈ getProvidedScripts witnessSet ∨
        (∃ entry ∈ resolvedInputs ++ resolvedReferenceInputs, entry.2.hasScriptRef = some script) ∧
          script.hash ∈ requiredScripts := by
  rw [providedScripts, Finset.mem_union, List.mem_toFinset, mem_providedReferenceScripts]

/-- The script checks pass exactly when every required script is provided and every provided
script is required. -/
theorem passesScriptChecks_executeResolved (context : Context)
    (resolvedInputs resolvedReferenceInputs : List Resolved) (witnessSet : MintedWitnessSet) :
    passesScriptChecks (executeResolved context resolvedInputs resolvedReferenceInputs witnessSet)
        = true ↔
      missingScripts context.requiredScripts
          (providedScripts context.requiredScripts resolvedInputs resolvedReferenceInputs
            witnessSet) = [] ∧
        extraScripts context.requiredScripts
          (providedScripts context.requiredScripts resolvedInputs resolvedReferenceInputs
            witnessSet) = [] := by
  simp only [executeResolved]
  split_ifs with missing extra
  · simp_all [passesScriptChecks]
  · simp_all [passesScriptChecks]
  · simp only [Bool.not_eq_true', List.isEmpty_eq_false, ne_eq, Decidable.not_not] at missing extra
    simp only [missing, extra, and_self, iff_true]
    simp only [checkDatums]
    split_ifs <;> rfl

theorem exists_resolved_hasScriptRef {lookup : TransactionInput → Option TransactionOutput}
    {inputs : List TransactionInput} {script : ScriptRefWithHash} :
    (∃ entry ∈ resolveAll lookup inputs, entry.2.hasScriptRef = some script) ↔
      script ∈ inputs.filterMap fun input => (lookup input).bind (·.hasScriptRef) := by
  simp only [mem_resolveAll, List.mem_filterMap, Option.bind_eq_some]
  constructor
  · rintro ⟨⟨input, output⟩, ⟨mem, found⟩, carried⟩
    exact ⟨input, mem, output, found, carried⟩
  · rintro ⟨input, mem, output, found, carried⟩
    exact ⟨(input, output), ⟨mem, found⟩, carried⟩

/-- A hash is provided when it is witnessed, or required and carried by a reference script. -/
theorem mem_image_providedScripts (context : Context)
    (referenceInputs : Option (List TransactionInput)) (inputs : List TransactionInput)
    (witnessSet : MintedWitnessSet) (hash : Nat) :
    hash ∈ (providedScripts context.requiredScripts (resolveAll context.lookup inputs)
        (resolveAll context.lookup (referenceInputs.getD [])) witnessSet).image (·.hash) ↔
      hash ∈ witnessedScriptHashes witnessSet ∨
        hash ∈ referenceScriptHashes context referenceInputs inputs ∧
          hash ∈ context.requiredScripts := by
  simp only [Finset.mem_image, mem_providedScripts, ← resolveAll_append,
    exists_resolved_hasScriptRef, witnessedScriptHashes, referenceScriptHashes, List.mem_toFinset]
  constructor
  · rintro ⟨script, witnessed | ⟨carried, required⟩, rfl⟩
    · exact .inl ⟨script, witnessed, rfl⟩
    · exact .inr ⟨⟨script, carried, rfl⟩, required⟩
  · rintro (⟨script, witnessed, rfl⟩ | ⟨⟨script, carried, rfl⟩, required⟩)
    · exact ⟨script, .inl witnessed, rfl⟩
    · exact ⟨script, .inr ⟨carried, required⟩, rfl⟩

/-- Every provided script is required exactly when every witnessed one is: the reference
scripts are only taken when required. -/
theorem providedScripts_required_iff (context : Context)
    (resolvedInputs resolvedReferenceInputs : List Resolved) (witnessSet : MintedWitnessSet) :
    (∀ script ∈ providedScripts context.requiredScripts resolvedInputs resolvedReferenceInputs
        witnessSet, script.hash ∈ context.requiredScripts) ↔
      witnessedScriptHashes witnessSet ⊆ context.requiredScripts := by
  simp only [mem_providedScripts, witnessedScriptHashes, Finset.subset_iff, Finset.mem_image,
    List.mem_toFinset]
  constructor
  · rintro provided _ ⟨script, witnessed, rfl⟩
    exact provided script (.inl witnessed)
  · rintro witnessed script (mem | ⟨-, required⟩)
    · exact witnessed ⟨script, mem, rfl⟩
    · exact required

/-- The script checks of `execute` against the sets of the ledger rule: they pass exactly when
`N \ R ⊆ W ⊆ N`. A witness that is also supplied as a reference script passes. -/
theorem execute_passesScriptChecks_iff (context : Context)
    (referenceInputs : Option (List TransactionInput)) (inputs : List TransactionInput)
    (witnessSet : MintedWitnessSet)
    (resolves : ∀ input ∈ inputs ++ referenceInputs.getD [], (context.lookup input).isSome) :
    ∃ result, execute context referenceInputs inputs witnessSet = .ok result ∧
      (passesScriptChecks result = true ↔
        context.requiredScripts \ referenceScriptHashes context referenceInputs inputs ⊆
            witnessedScriptHashes witnessSet ∧
          witnessedScriptHashes witnessSet ⊆ context.requiredScripts) := by
  refine ⟨_, execute_of_isSome context referenceInputs inputs witnessSet resolves, ?_⟩
  rw [passesScriptChecks_executeResolved, missingScripts_eq_nil, extraScripts_eq_nil,
    providedScripts_required_iff]
  have covered : context.requiredScripts ⊆ (providedScripts context.requiredScripts
        (resolveAll context.lookup inputs) (resolveAll context.lookup (referenceInputs.getD []))
          witnessSet).image (·.hash) ↔
      context.requiredScripts \ referenceScriptHashes context referenceInputs inputs ⊆
        witnessedScriptHashes witnessSet := by
    simp only [Finset.subset_iff, Finset.mem_sdiff, mem_image_providedScripts]
    constructor
    · rintro provided hash ⟨required, unreferenced⟩
      exact (provided required).resolve_right fun referenced => unreferenced referenced.1
    · intro witnessed hash required
      by_cases referenced : hash ∈ referenceScriptHashes context referenceInputs inputs
      · exact .inr ⟨referenced, required⟩
      · exact .inl (witnessed ⟨required, referenced⟩)
  rw [covered]

/-- A context requiring script 7 whose one spent output carries script 7 as a reference
script. -/
def referenceScriptContext : Context :=
  ⟨{7}, fun input => if input = ⟨0, 0⟩ then
    some ⟨none, none, some ⟨7, .plutusV2Script⟩⟩ else none, ∅⟩

theorem execute_passesScriptChecks_iff_reference :
    (∀ input ∈ [⟨0, 0⟩] ++ (none : Option (List TransactionInput)).getD [],
        (referenceScriptContext.lookup input).isSome) ∧
      ∃ result, execute referenceScriptContext none [⟨0, 0⟩] ⟨[], none⟩ = .ok result ∧
        (passesScriptChecks result = true ↔
          referenceScriptContext.requiredScripts \
              referenceScriptHashes referenceScriptContext none [⟨0, 0⟩] ⊆
            witnessedScriptHashes ⟨[], none⟩ ∧
          witnessedScriptHashes ⟨[], none⟩ ⊆ referenceScriptContext.requiredScripts) :=
  ⟨by decide, execute_passesScriptChecks_iff _ _ _ _ (by decide)⟩

/-- The witness set also provides script 7: `W = {7}` while `N \ R = ∅`, and yet `execute`
accepts. -/
theorem execute_accepts_witness_duplicating_reference :
    execute referenceScriptContext none [⟨0, 0⟩] ⟨[⟨7, .plutusV2Script⟩], none⟩ = .ok (.ok ()) ∧
      witnessedScriptHashes ⟨[⟨7, .plutusV2Script⟩], none⟩ ≠
        referenceScriptContext.requiredScripts \
          referenceScriptHashes referenceScriptContext none [⟨0, 0⟩] :=
  ⟨by with_unfolding_all rfl, by with_unfolding_all decide⟩

/-! ## The datum checks -/

/-- The script hash locking an output: the payment credential of a Shelley address whose payment
part is a script. -/
def lockingScript (output : TransactionOutput) : Option Nat :=
  match output.address with
  | some (.shelley address) =>
    if address.payment.isScript then some address.payment.asHash else none
  | _ => none

/-- The scripts a transaction provides: its witness scripts and the reference scripts of the
outputs it spends or references. -/
def availableScripts (context : Context) (referenceInputs : Option (List TransactionInput))
    (inputs : List TransactionInput) (witnessSet : MintedWitnessSet) : Finset ScriptRefWithHash :=
  (getProvidedScripts witnessSet).toFinset ∪
    ((inputs ++ referenceInputs.getD []).filterMap fun input =>
      (context.lookup input).bind (·.hasScriptRef)).toFinset

/-- Some script of `available` in one of `languages` locks `output`. -/
def lockedIn (available : Finset ScriptRefWithHash) (languages : BorrowedScript → Bool)
    (output : TransactionOutput) : Bool :=
  decide (∃ script ∈ available, lockingScript output = some script.hash ∧
    languages script.script = true)

def isPlutusV1OrV2 : BorrowedScript → Bool
  | .plutusV1Script | .plutusV2Script => true
  | .nativeScript | .plutusV3Script => false

def isPlutus : BorrowedScript → Bool
  | .nativeScript => false
  | .plutusV1Script | .plutusV2Script | .plutusV3Script => true

/-- `U`: the spent inputs whose output has no datum and is locked by a Plutus V1 or V2 script. -/
def unspendableInputs (context : Context) (available : Finset ScriptRefWithHash)
    (inputs : List TransactionInput) : List TransactionInput :=
  inputs.filter fun input =>
    match context.lookup input with
    | some output => output.datum.isNone && lockedIn available isPlutusV1OrV2 output
    | none => false

/-- The datum hashes of the spent outputs locked by a script in one of `languages`. -/
def lockedDatumHashes (context : Context) (available : Finset ScriptRefWithHash)
    (inputs : List TransactionInput) (languages : BorrowedScript → Bool) : Finset Nat :=
  (inputs.filterMap fun input => (context.lookup input).bind fun output =>
    match output.datum with
    | some (.hash hash) => if lockedIn available languages output then some hash else none
    | _ => none).toFinset

def datumHash : Option BorrowedDatumOption → Option Nat
  | some (.hash hash) => some hash
  | _ => none

/-- The `None` arm of the datum loop: no datum, and a Plutus V1 or V2 script. -/
def missesDatum (entry : Resolved × ScriptRefWithHash) : Bool :=
  entry.1.2.datum.isNone && isPlutusV1OrV2 entry.2.script

/-- The datum loop collects the datum hashes of its entries, and, in order, the inputs that
miss a datum. -/
theorem inputDatums_eq (entries : List (Resolved × ScriptRefWithHash)) :
    inputDatums entries = ((entries.filterMap fun entry => datumHash entry.1.2.datum).toFinset,
      (entries.filter missesDatum).map (·.1.1)) := by
  suffices collected : ∀ accum : Finset Nat × List TransactionInput,
      entries.foldl collectInputDatum accum =
        (accum.1 ∪ (entries.filterMap fun entry => datumHash entry.1.2.datum).toFinset,
          accum.2 ++ (entries.filter missesDatum).map (·.1.1)) by
    simpa using collected (∅, [])
  induction entries with
  | nil => simp
  | cons entry rest ih =>
    intro accum
    rw [List.foldl_cons, ih]
    obtain ⟨⟨input, ⟨address, datum, hasScriptRef⟩⟩, ⟨hash, script⟩⟩ := entry
    rcases datum with _ | (stored | _)
    · cases script <;> simp [collectInputDatum, missesDatum, isPlutusV1OrV2, datumHash]
    · simp [collectInputDatum, missesDatum, datumHash, Finset.insert_union, Finset.union_insert]
    · simp [collectInputDatum, missesDatum, datumHash]

theorem checkDatums_eq_ok_iff (context : Context) (providedScripts : Finset ScriptRefWithHash)
    (resolvedInputs : List Resolved) (witnessSet : MintedWitnessSet) :
    checkDatums context providedScripts resolvedInputs witnessSet = .ok () ↔
      (inputDatums (requiredScriptInputs providedScripts resolvedInputs)).2 = [] ∧
        (inputDatums (requiredScriptInputs providedScripts resolvedInputs)).1 ⊆
          witnessDatumHashes witnessSet ∧
        witnessDatumHashes witnessSet \
            (inputDatums (requiredScriptInputs providedScripts resolvedInputs)).1 ⊆
          context.allowedSupplementalDatums := by
  unfold checkDatums
  generalize inputDatums (requiredScriptInputs providedScripts resolvedInputs) = collected
  obtain ⟨inputDatumHashes, inputsMissingDatum⟩ := collected
  simp only [Bool.not_eq_true', List.isEmpty_eq_false, ne_eq]
  split_ifs with missing unmatched extraneous <;>
    simp_all [sort_eq_nil_iff, Finset.sdiff_eq_empty_iff_subset]

theorem requiredScriptInputs_eq (providedScripts : Finset ScriptRefWithHash)
    (resolvedInputs : List Resolved) :
    requiredScriptInputs providedScripts resolvedInputs =
      resolvedInputs.filterMap fun entry => (lockingScript entry.2).bind fun hash =>
        ((providedScripts.sort (· ≤ ·)).find? fun script => script.hash = hash).map (entry, ·) := by
  unfold requiredScriptInputs
  congr 1
  funext entry
  obtain ⟨input, ⟨address, datum, hasScriptRef⟩⟩ := entry
  rcases address with _ | (⟨payment⟩ | _ | _) <;> simp only [lockingScript, Option.bind]
  split_ifs <;> rfl

theorem mem_requiredScriptInputs {providedScripts : Finset ScriptRefWithHash}
    {resolvedInputs : List Resolved} {entry : Resolved × ScriptRefWithHash} :
    entry ∈ requiredScriptInputs providedScripts resolvedInputs ↔
      entry.1 ∈ resolvedInputs ∧ ∃ hash, lockingScript entry.1.2 = some hash ∧
        ((providedScripts.sort (· ≤ ·)).find? fun script => script.hash = hash) = some entry.2 := by
  obtain ⟨resolved, script⟩ := entry
  simp only [requiredScriptInputs_eq, List.mem_filterMap, Option.bind_eq_some,
    Option.map_eq_some', Prod.mk.injEq]
  constructor
  · rintro ⟨resolved', mem, hash, locked, script', found, rfl, rfl⟩
    exact ⟨mem, hash, locked, found⟩
  · rintro ⟨mem, hash, locked, found⟩
    exact ⟨resolved, mem, hash, locked, script, found, rfl, rfl⟩

theorem providedScripts_subset_available (context : Context)
    (referenceInputs : Option (List TransactionInput)) (inputs : List TransactionInput)
    (witnessSet : MintedWitnessSet) :
    providedScripts context.requiredScripts (resolveAll context.lookup inputs)
        (resolveAll context.lookup (referenceInputs.getD [])) witnessSet ⊆
      availableScripts context referenceInputs inputs witnessSet := by
  intro script
  simp only [mem_providedScripts, ← resolveAll_append, exists_resolved_hasScriptRef,
    availableScripts, Finset.mem_union, List.mem_toFinset]
  rintro (witnessed | ⟨carried, -⟩)
  · exact .inl witnessed
  · exact .inr carried

/-- When every required hash is provided and the available scripts have distinct hashes, the
datum loop visits each script-locked spent input once, with the one script of its hash. -/
theorem mem_requiredScriptInputs_of_unambiguous {requiredScripts : Finset Nat}
    {provided available : Finset ScriptRefWithHash} {resolvedInputs : List Resolved}
    (covered : requiredScripts ⊆ provided.image (·.hash)) (inAvailable : provided ⊆ available)
    (needed : ∀ entry ∈ resolvedInputs, ∀ hash, lockingScript entry.2 = some hash →
      hash ∈ requiredScripts)
    (unambiguous : ∀ script ∈ available, ∀ other ∈ available, script.hash = other.hash →
      script = other)
    (entry : Resolved × ScriptRefWithHash) :
    entry ∈ requiredScriptInputs provided resolvedInputs ↔
      entry.1 ∈ resolvedInputs ∧ lockingScript entry.1.2 = some entry.2.hash ∧
        entry.2 ∈ available := by
  rw [mem_requiredScriptInputs]
  constructor
  · rintro ⟨mem, hash, locked, found⟩
    have sameHash : entry.2.hash = hash := by simpa using List.find?_some found
    have isProvided := (Finset.mem_sort _).mp (List.mem_of_find?_eq_some found)
    exact ⟨mem, sameHash ▸ locked, inAvailable isProvided⟩
  · rintro ⟨mem, locked, isAvailable⟩
    obtain ⟨script, isProvided, sameHash⟩ :=
      Finset.mem_image.mp (covered (needed entry.1 mem _ locked))
    have some : (((provided.sort (· ≤ ·)).find? fun candidate =>
        candidate.hash = entry.2.hash)).isSome := List.find?_isSome.mpr
      ⟨script, (Finset.mem_sort _).mpr isProvided, by simpa using sameHash⟩
    obtain ⟨first, found⟩ := Option.isSome_iff_exists.mp some
    have firstProvided := (Finset.mem_sort _).mp (List.mem_of_find?_eq_some found)
    have firstHash : first.hash = entry.2.hash := by simpa using List.find?_some found
    rw [unambiguous first (inAvailable firstProvided) entry.2 isAvailable firstHash] at found
    exact ⟨mem, entry.2.hash, locked, found⟩

/-- The entries of the datum loop of `execute`, described by what they are: a spent input with its
resolved output, locked by the hash of an available script, with that script. -/
def LoopEntries (context : Context) (available : Finset ScriptRefWithHash)
    (inputs : List TransactionInput) (entries : List (Resolved × ScriptRefWithHash)) : Prop :=
  ∀ entry, entry ∈ entries ↔ (entry.1.1 ∈ inputs ∧ context.lookup entry.1.1 = some entry.1.2) ∧
    lockingScript entry.1.2 = some entry.2.hash ∧ entry.2 ∈ available

theorem inputsMissingDatum_eq_nil_iff {context : Context} {available : Finset ScriptRefWithHash}
    {inputs : List TransactionInput} {entries : List (Resolved × ScriptRefWithHash)}
    (members : LoopEntries context available inputs entries) :
    (inputDatums entries).2 = [] ↔ unspendableInputs context available inputs = [] := by
  rw [inputDatums_eq]
  simp only [List.map_eq_nil_iff, List.filter_eq_nil_iff, unspendableInputs]
  constructor
  · intro complete input mem
    cases found : context.lookup input with
    | none => simp
    | some output =>
      simp only [Bool.and_eq_true, lockedIn, decide_eq_true_eq, not_and]
      rintro noDatum ⟨script, isAvailable, locked, language⟩
      exact complete ((input, output), script) ((members _).mpr ⟨⟨mem, found⟩, locked,
        isAvailable⟩) (by simp [missesDatum, noDatum, language])
  · intro complete entry mem misses
    obtain ⟨⟨inInputs, found⟩, locked, isAvailable⟩ := (members entry).mp mem
    simp only [missesDatum, Bool.and_eq_true] at misses
    apply complete entry.1.1 inInputs
    simp only [found, Bool.and_eq_true, lockedIn, decide_eq_true_eq]
    exact ⟨misses.1, entry.2, isAvailable, locked, misses.2⟩

theorem inputDatumHashes_eq {context : Context} {available : Finset ScriptRefWithHash}
    {inputs : List TransactionInput} {entries : List (Resolved × ScriptRefWithHash)}
    (members : LoopEntries context available inputs entries) :
    (inputDatums entries).1 = lockedDatumHashes context available inputs fun _ => true := by
  ext hash
  simp only [inputDatums_eq, lockedDatumHashes, List.mem_toFinset, List.mem_filterMap,
    Option.bind_eq_some]
  constructor
  · rintro ⟨entry, mem, stored⟩
    obtain ⟨⟨inInputs, found⟩, locked, isAvailable⟩ := (members entry).mp mem
    refine ⟨entry.1.1, inInputs, entry.1.2, found, ?_⟩
    have lockedAny : lockedIn available (fun _ => true) entry.1.2 = true := by
      simpa [lockedIn] using ⟨entry.2, isAvailable, locked⟩
    cases datum : entry.1.2.datum with
    | none => simp [datum, datumHash] at stored
    | some option =>
      cases option <;> simp_all [datumHash]
  · rintro ⟨input, inInputs, output, found, stored⟩
    cases datum : output.datum with
    | none => simp [datum] at stored
    | some option =>
      cases option with
      | data => simp [datum] at stored
      | hash stored' =>
        simp only [datum, lockedIn, decide_eq_true_eq, and_true, Option.ite_none_right_eq_some,
          Option.some.injEq] at stored
        obtain ⟨⟨script, isAvailable, locked⟩, rfl⟩ := stored
        exact ⟨((input, output), script), (members _).mpr ⟨⟨inInputs, found⟩, locked, isAvailable⟩,
          by simp [datum, datumHash]⟩

/-- Once the script checks pass, `execute` accepts exactly when no input locked by a Plutus V1
or V2 script lacks a datum, every datum hash on a script-locked spent output is witnessed, and
every other witnessed datum is an allowed supplemental one. The datum hash of an output locked
by a native script counts like any other. -/
theorem execute_eq_ok_iff_datums (context : Context)
    (referenceInputs : Option (List TransactionInput)) (inputs : List TransactionInput)
    (witnessSet : MintedWitnessSet)
    (resolves : ∀ input ∈ inputs ++ referenceInputs.getD [], (context.lookup input).isSome)
    (pastScriptChecks : ∀ result, execute context referenceInputs inputs witnessSet = .ok result →
      passesScriptChecks result = true)
    (needed : ∀ input ∈ inputs, ∀ output hash, context.lookup input = some output →
      lockingScript output = some hash → hash ∈ context.requiredScripts)
    (unambiguous : ∀ script ∈ availableScripts context referenceInputs inputs witnessSet,
      ∀ other ∈ availableScripts context referenceInputs inputs witnessSet,
        script.hash = other.hash → script = other) :
    execute context referenceInputs inputs witnessSet = .ok (.ok ()) ↔
      unspendableInputs context (availableScripts context referenceInputs inputs witnessSet)
          inputs = [] ∧
        lockedDatumHashes context (availableScripts context referenceInputs inputs witnessSet)
            inputs (fun _ => true) ⊆ witnessDatumHashes witnessSet ∧
        witnessDatumHashes witnessSet \ lockedDatumHashes context
            (availableScripts context referenceInputs inputs witnessSet) inputs (fun _ => true) ⊆
          context.allowedSupplementalDatums := by
  have executed := execute_of_isSome context referenceInputs inputs witnessSet resolves
  obtain ⟨noneMissing, noneExtra⟩ :=
    (passesScriptChecks_executeResolved _ _ _ _).mp (pastScriptChecks _ executed)
  have members : LoopEntries context (availableScripts context referenceInputs inputs witnessSet)
      inputs (requiredScriptInputs (providedScripts context.requiredScripts
        (resolveAll context.lookup inputs) (resolveAll context.lookup (referenceInputs.getD []))
          witnessSet) (resolveAll context.lookup inputs)) := by
    intro entry
    rw [mem_requiredScriptInputs_of_unambiguous ((missingScripts_eq_nil _ _).mp noneMissing)
      (providedScripts_subset_available context referenceInputs inputs witnessSet)
      (fun entry mem hash => needed entry.1 (mem_resolveAll.mp mem).1 entry.2 hash
        (mem_resolveAll.mp mem).2) unambiguous, mem_resolveAll]
  rw [executed, Except.ok.injEq, executeResolved]
  simp only [noneMissing, noneExtra, List.isEmpty_nil, Bool.not_true, Bool.false_eq_true,
    ↓reduceIte]
  rw [checkDatums_eq_ok_iff, inputsMissingDatum_eq_nil_iff members, inputDatumHashes_eq members]

/-- A context requiring script 7 whose one spent output sits at script 7's address and carries
datum hash 5. -/
def scriptLockedContext : Context :=
  ⟨{7}, fun input => if input = ⟨0, 0⟩ then
    some ⟨some (.shelley ⟨.script 7⟩), some (.hash 5), none⟩ else none, ∅⟩

theorem scriptLockedContext_needed :
    ∀ input ∈ [⟨0, 0⟩], ∀ output hash, scriptLockedContext.lookup input = some output →
      lockingScript output = some hash → hash ∈ scriptLockedContext.requiredScripts := by
  intro input mem output hash found locked
  rw [List.mem_singleton.mp mem] at found
  cases found
  cases locked
  decide

/-- Script 7 is a Plutus V2 script here and the witness set holds datum 5. -/
theorem execute_eq_ok_iff_datums_witnessed :
    (∀ input ∈ [⟨0, 0⟩] ++ (none : Option (List TransactionInput)).getD [],
        (scriptLockedContext.lookup input).isSome) ∧
      (∀ result, execute scriptLockedContext none [⟨0, 0⟩] ⟨[⟨7, .plutusV2Script⟩], some [5]⟩ =
        .ok result → passesScriptChecks result = true) ∧
      (∀ input ∈ [⟨0, 0⟩], ∀ output hash, scriptLockedContext.lookup input = some output →
        lockingScript output = some hash → hash ∈ scriptLockedContext.requiredScripts) ∧
      (∀ script ∈ availableScripts scriptLockedContext none [⟨0, 0⟩]
          ⟨[⟨7, .plutusV2Script⟩], some [5]⟩,
        ∀ other ∈ availableScripts scriptLockedContext none [⟨0, 0⟩]
          ⟨[⟨7, .plutusV2Script⟩], some [5]⟩, script.hash = other.hash → script = other) ∧
      (execute scriptLockedContext none [⟨0, 0⟩] ⟨[⟨7, .plutusV2Script⟩], some [5]⟩ =
          .ok (.ok ()) ↔
        unspendableInputs scriptLockedContext (availableScripts scriptLockedContext none
            [⟨0, 0⟩] ⟨[⟨7, .plutusV2Script⟩], some [5]⟩) [⟨0, 0⟩] = [] ∧
          lockedDatumHashes scriptLockedContext (availableScripts scriptLockedContext none
              [⟨0, 0⟩] ⟨[⟨7, .plutusV2Script⟩], some [5]⟩) [⟨0, 0⟩] (fun _ => true) ⊆
            witnessDatumHashes ⟨[⟨7, .plutusV2Script⟩], some [5]⟩ ∧
          witnessDatumHashes ⟨[⟨7, .plutusV2Script⟩], some [5]⟩ \
              lockedDatumHashes scriptLockedContext (availableScripts scriptLockedContext none
                [⟨0, 0⟩] ⟨[⟨7, .plutusV2Script⟩], some [5]⟩) [⟨0, 0⟩] (fun _ => true) ⊆
            scriptLockedContext.allowedSupplementalDatums) := by
  have resolves : ∀ input ∈ [⟨0, 0⟩] ++ (none : Option (List TransactionInput)).getD [],
      (scriptLockedContext.lookup input).isSome := by decide
  have past : ∀ result, execute scriptLockedContext none [⟨0, 0⟩]
      ⟨[⟨7, .plutusV2Script⟩], some [5]⟩ = .ok result → passesScriptChecks result = true := by
    intro result executed
    rw [show execute scriptLockedContext none [⟨0, 0⟩] ⟨[⟨7, .plutusV2Script⟩], some [5]⟩ =
      .ok (.ok ()) by with_unfolding_all rfl] at executed
    cases executed
    rfl
  have unambiguous : ∀ script ∈ availableScripts scriptLockedContext none [⟨0, 0⟩]
      ⟨[⟨7, .plutusV2Script⟩], some [5]⟩, ∀ other ∈ availableScripts scriptLockedContext none
        [⟨0, 0⟩] ⟨[⟨7, .plutusV2Script⟩], some [5]⟩, script.hash = other.hash →
          script = other := by
    with_unfolding_all decide
  exact ⟨resolves, past, scriptLockedContext_needed, unambiguous,
    execute_eq_ok_iff_datums _ _ _ _ resolves past (scriptLockedContext_needed)
      unambiguous⟩

/-- Script 7 is a native script and the witness set holds no datum. No input is unspendable
and no output locked by a Plutus script has a datum hash, yet `execute` asks for datum 5: its
input datum hashes take the datum of an output locked by any provided script, native ones
included. -/
theorem execute_requires_datum_of_native_locked_output :
    unspendableInputs scriptLockedContext (availableScripts scriptLockedContext none [⟨0, 0⟩]
        ⟨[⟨7, .nativeScript⟩], none⟩) [⟨0, 0⟩] = [] ∧
      lockedDatumHashes scriptLockedContext (availableScripts scriptLockedContext none [⟨0, 0⟩]
        ⟨[⟨7, .nativeScript⟩], none⟩) [⟨0, 0⟩] isPlutus = ∅ ∧
      witnessDatumHashes ⟨[⟨7, .nativeScript⟩], none⟩ = ∅ ∧
      execute scriptLockedContext none [⟨0, 0⟩] ⟨[⟨7, .nativeScript⟩], none⟩ =
        .ok (.error (.missingRequiredDatums [5] {5})) :=
  ⟨by with_unfolding_all decide, by with_unfolding_all decide, rfl, by with_unfolding_all rfl⟩

end Amaru.Ledger.Scripts
