import Mathlib.Data.Finset.Sort

set_option autoImplicit false

/- The script and datum witness checks of a transaction (`rules/transaction/scripts.rs`).
Script and datum hashes are natural numbers, ordered as their bytes are. A script is its hash and its language:
`execute` reads no other part of it, nor of an output, an address or a witness set. -/
namespace Amaru.Ledger.Scripts

structure TransactionInput where
  transactionId : Nat
  index : Nat
deriving DecidableEq, Repr

inductive BorrowedScript
  | nativeScript
  | plutusV1Script
  | plutusV2Script
  | plutusV3Script
deriving DecidableEq, Repr

/-- The position of a language among the variants, which is how the derived order ranks them. -/
def BorrowedScript.rank : BorrowedScript → Nat
  | .nativeScript => 0
  | .plutusV1Script => 1
  | .plutusV2Script => 2
  | .plutusV3Script => 3

theorem BorrowedScript.rank_lt (script : BorrowedScript) : script.rank < 4 := by
  cases script <;> decide

theorem BorrowedScript.rank_injective : Function.Injective BorrowedScript.rank := by
  intro first second same
  cases first <;> cases second <;> first | rfl | cases same

structure ScriptRefWithHash where
  hash : Nat
  script : BorrowedScript
deriving Repr

/-- The order of a `BTreeSet` of scripts: by hash, then by language. -/
instance : LinearOrder ScriptRefWithHash :=
  LinearOrder.lift' (fun s => 4 * s.hash + s.script.rank) (by
    rintro ⟨hash, script⟩ ⟨hash', script'⟩ same
    change 4 * hash + script.rank = 4 * hash' + script'.rank at same
    have below := script.rank_lt
    have below' := script'.rank_lt
    have hashes : hash = hash' := by omega
    have ranks : script.rank = script'.rank := by omega
    rw [hashes, BorrowedScript.rank_injective ranks])

inductive ShelleyPaymentPart
  | key (hash : Nat)
  | script (hash : Nat)
deriving DecidableEq, Repr

def ShelleyPaymentPart.isScript : ShelleyPaymentPart → Bool
  | .key _ => false
  | .script _ => true

def ShelleyPaymentPart.asHash : ShelleyPaymentPart → Nat
  | .key hash => hash
  | .script hash => hash

structure ShelleyAddress where
  payment : ShelleyPaymentPart
deriving DecidableEq, Repr

inductive Address
  | shelley (address : ShelleyAddress)
  | byron
  | stake
deriving DecidableEq, Repr

inductive BorrowedDatumOption
  | hash (hash : Nat)
  | data
deriving DecidableEq, Repr

/-- An output as `execute` reads it: `address()` (`none` when it does not decode), `datum()`
and `has_script_ref()`. -/
structure TransactionOutput where
  address : Option Address
  datum : Option BorrowedDatumOption
  hasScriptRef : Option ScriptRefWithHash

/-- A witness set as `execute` reads it: the scripts `get_provided_scripts` returns for it, and
the `original_hash` of each of its `plutus_data`. -/
structure MintedWitnessSet where
  providedScripts : List ScriptRefWithHash
  plutusData : Option (List Nat)

def getProvidedScripts (witnessSet : MintedWitnessSet) : List ScriptRefWithHash :=
  witnessSet.providedScripts

/-- The validation context: its required scripts, its UTxO slice and its allowed
supplemental datums. -/
structure Context where
  requiredScripts : Finset Nat
  lookup : TransactionInput → Option TransactionOutput
  allowedSupplementalDatums : Finset Nat

inductive InvalidScripts
  | missingRequiredScripts (missing : List Nat)
  | extraneousScriptWitnesses (extra : List Nat)
  | unspendableInputsNoDatums (inputs : List TransactionInput)
  | missingRequiredDatums (missing : List Nat) (provided : Finset Nat)
  | extraneousSupplementalDatums (allowed : Finset Nat) (provided : Finset Nat)

/-- The two `unreachable!` arms: a spent input or a reference input the slice does not hold. -/
inductive Unreachable
  | input (input : TransactionInput)
  | referenceInput (input : TransactionInput)

abbrev Resolved := TransactionInput × TransactionOutput

/-- Each input with its output, in order; the first input the slice does not hold stops it. -/
def resolveInputs (lookup : TransactionInput → Option TransactionOutput) :
    List TransactionInput → Except TransactionInput (List Resolved)
  | [] => .ok []
  | input :: rest =>
    match lookup input with
    | none => .error input
    | some output => (resolveInputs lookup rest).map ((input, output) :: ·)

/-- The reference scripts of the spent and referenced outputs whose hash is required. -/
def providedReferenceScripts (requiredScripts : Finset Nat)
    (resolvedInputs resolvedReferenceInputs : List Resolved) : Finset ScriptRefWithHash :=
  ((resolvedInputs ++ resolvedReferenceInputs).filterMap fun (_, output) =>
    output.hasScriptRef.filter fun scriptRef => scriptRef.hash ∈ requiredScripts).toFinset

def providedScripts (requiredScripts : Finset Nat)
    (resolvedInputs resolvedReferenceInputs : List Resolved)
    (witnessSet : MintedWitnessSet) : Finset ScriptRefWithHash :=
  (getProvidedScripts witnessSet).toFinset ∪
    providedReferenceScripts requiredScripts resolvedInputs resolvedReferenceInputs

def missingScripts (requiredScripts : Finset Nat)
    (providedScripts : Finset ScriptRefWithHash) : List Nat :=
  (requiredScripts \ providedScripts.image (·.hash)).sort (· ≤ ·)

def extraScripts (requiredScripts : Finset Nat)
    (providedScripts : Finset ScriptRefWithHash) : List Nat :=
  (providedScripts.sort (· ≤ ·)).foldl (fun accum script =>
    if script.hash ∉ requiredScripts then accum ++ [script.hash] else accum) []

/-- The spent inputs locked by a script payment credential, each with the first provided
script of that hash; an input whose script is not provided is left out. -/
def requiredScriptInputs (providedScripts : Finset ScriptRefWithHash)
    (resolvedInputs : List Resolved) : List (Resolved × ScriptRefWithHash) :=
  resolvedInputs.filterMap fun inputOutput =>
    inputOutput.2.address.bind fun
      | .shelley shelleyAddress =>
        if shelleyAddress.payment.isScript then
          ((providedScripts.sort (· ≤ ·)).find? fun script =>
            script.hash = shelleyAddress.payment.asHash).map (inputOutput, ·)
        else none
      | .byron | .stake => none

/-- One turn of the `for_each` that fills `input_datum_hashes` and `inputs_missing_datum`. -/
def collectInputDatum (accum : Finset Nat × List TransactionInput)
    (entry : Resolved × ScriptRefWithHash) : Finset Nat × List TransactionInput :=
  match entry.1.2.datum with
  | none =>
    match entry.2.script with
    | .plutusV1Script | .plutusV2Script => (accum.1, accum.2 ++ [entry.1.1])
    | .nativeScript | .plutusV3Script => accum
  | some (.hash hash) => (insert hash accum.1, accum.2)
  | some .data => accum

def inputDatums (requiredScriptInputs : List (Resolved × ScriptRefWithHash)) :
    Finset Nat × List TransactionInput :=
  requiredScriptInputs.foldl collectInputDatum (∅, [])

def witnessDatumHashes (witnessSet : MintedWitnessSet) : Finset Nat :=
  (witnessSet.plutusData.map List.toFinset).getD ∅

/-- The datum checks of `execute`, from `required_script_inputs` on. -/
def checkDatums (context : Context) (providedScripts : Finset ScriptRefWithHash)
    (resolvedInputs : List Resolved) (witnessSet : MintedWitnessSet) :
    Except InvalidScripts Unit :=
  let (inputDatumHashes, inputsMissingDatum) :=
    inputDatums (requiredScriptInputs providedScripts resolvedInputs)
  if !inputsMissingDatum.isEmpty then .error (.unspendableInputsNoDatums inputsMissingDatum) else
  let witnessDatumHashes := witnessDatumHashes witnessSet
  let unmatchedDatums := (inputDatumHashes \ witnessDatumHashes).sort (· ≤ ·)
  if !unmatchedDatums.isEmpty then
    .error (.missingRequiredDatums unmatchedDatums inputDatumHashes) else
  let allowedSupplementalDatum := context.allowedSupplementalDatums
  let supplementalDatums := witnessDatumHashes \ inputDatumHashes
  let extraneousSupplementalDatums :=
    (supplementalDatums \ allowedSupplementalDatum).sort (· ≤ ·)
  if !extraneousSupplementalDatums.isEmpty then
    .error (.extraneousSupplementalDatums allowedSupplementalDatum supplementalDatums) else
  .ok ()

/-- Everything `execute` does once both input lists are resolved. -/
def executeResolved (context : Context) (resolvedInputs resolvedReferenceInputs : List Resolved)
    (witnessSet : MintedWitnessSet) : Except InvalidScripts Unit :=
  let requiredScripts := context.requiredScripts
  let providedScripts :=
    providedScripts requiredScripts resolvedInputs resolvedReferenceInputs witnessSet
  let missingScripts := missingScripts requiredScripts providedScripts
  if !missingScripts.isEmpty then .error (.missingRequiredScripts missingScripts) else
  let extraScripts := extraScripts requiredScripts providedScripts
  if !extraScripts.isEmpty then .error (.extraneousScriptWitnesses extraScripts) else
  checkDatums context providedScripts resolvedInputs witnessSet

def execute (context : Context) (referenceInputs : Option (List TransactionInput))
    (inputs : List TransactionInput) (witnessSet : MintedWitnessSet) :
    Except Unreachable (Except InvalidScripts Unit) := do
  let resolvedInputs ← (resolveInputs context.lookup inputs).mapError .input
  let resolvedReferenceInputs ←
    (resolveInputs context.lookup (referenceInputs.getD [])).mapError .referenceInput
  pure (executeResolved context resolvedInputs resolvedReferenceInputs witnessSet)

end Amaru.Ledger.Scripts
