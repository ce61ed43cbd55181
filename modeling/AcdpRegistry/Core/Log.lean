/-
  The transparency-log endpoints (`acdp-registry-core/src/handlers/log.rs`, `log.rs`)
  and the witness cosignatures they serve (`witness.rs`).

  A request is a program of store reads and of actions on the head-root cache; the
  log grows between them.  Rows of `log_leaves` are the ones a publish appends.
  `LogApi` holds the protocol crate's hashing, Merkle and verification functions
  over a type `H` of hashes.
-/
import AcdpRegistry.Core.Publish
import AcdpRegistry.Lib.Proc
import AcdpRegistry.Store.Read

namespace AcdpRegistry

open Lib

/-! ## Records -/

/-- `LogCheckpoint`: a signed tree head. -/
structure LogCheckpoint where
  logId : String
  treeSize : ℕ
  rootHash : String
  timestamp : ℤ
  signature : String
  deriving DecidableEq, Repr

structure LogInclusion where
  logId : String
  leafIndex : ℕ
  treeSize : ℕ
  inclusionPath : List String
  logCheckpoint : LogCheckpoint
  leaf : Option Json := none

structure LogConsistencyProof where
  logId : String
  firstTreeSize : ℕ
  secondTreeSize : ℕ
  consistencyPath : List String
  logCheckpoint : LogCheckpoint

/-- `LogCosignature`: who witnessed which checkpoint. -/
structure LogCosignature where
  logId : String
  treeSize : ℕ
  rootHash : String
  witnessId : String
  deriving DecidableEq, Repr

/-- A `log_witness_cosignatures` row. -/
structure CosignatureRow where
  logId : String
  treeSize : ℕ
  rootHash : String
  witnessDid : String
  witnessedAt : String
  cosignature : Json

structure LogApi (H : Type) where
  merkleTreeHash : List H → H
  inclusionPath : ℕ → List H → Option (List H)
  consistencyProof : ℕ → List H → Option (List H)
  verifyInclusion : (leaf : H) → (index size : ℕ) → List H → (root : H) → Bool
  verifyConsistency : (first second : ℕ) → (firstRoot secondRoot : H) → List H → Bool
  encodeSha256Hex : H → String
  decodeSha256Hex : String → Except AcdpError H
  /-- The signature of `mint_log_checkpoint`. -/
  signCheckpoint : (logId : String) → ℕ → (root : String) → (timestamp : ℤ) → Except AcdpError String
  /-- `CtxId::parse` accepts the text. -/
  isCtxId : String → Bool
  /-- `LogEntryRecord::leaf`. -/
  leaf : LogLeafRow → Except AcdpError Json
  /-- `LogCosignature::from_value`. -/
  cosignatureFromValue : Json → Except AcdpError LogCosignature
  /-- `verify_witness_cosignature_value`, against a DID document and a checkpoint. -/
  verifyWitnessCosignature : Json → (didDoc : Json) → LogCheckpoint → Except AcdpError LogCosignature

/-- The tables, the head-root cache of the process, the stored cosignatures, and every checkpoint that
    the signer has minted. -/
structure LogSystem where
  db : Db := {}
  rootCache : Option (ℕ × String) := none
  cosignatures : List CosignatureRow := []
  minted : List LogCheckpoint := []

structure LogServer (H : Type) where
  api : LogApi H
  logId : String
  /-- `capabilities.anonymous_public_reads`. -/
  publicArmOpen : Bool := false

abbrev LogProc := Proc LogSystem RegistryError

/-! ## Store calls -/

namespace Db

variable {H : Type} (api : LogApi H)

def logTreeSize (db : Db) : ℕ := db.logLeaves.length

def logLeafHashes (upTo : ℕ) (db : Db) : Except AcdpError (List H) :=
  let rows := (db.logLeaves.filter (·.leafIndex < upTo)).insertionSort (·.leafIndex ≤ ·.leafIndex)
  let n := rows.length
  if n ≠ upTo then
    .error (.registryInternal (s!"transparency log is not dense: {n} leaves stored below index {upTo} " ++
      "(RFC-ACDP-0012 §5.3)"))
  else rows.mapM fun r => api.decodeSha256Hex r.leafHash

def logLeafByCtx (ctxId : String) (db : Db) : Option LogLeafRow :=
  db.logLeaves.find? (·.ctxId = ctxId)

def logLeafByIndex (leafIndex : ℕ) (db : Db) : Option LogLeafRow :=
  db.logLeaves.find? (·.leafIndex = leafIndex)

/-- `tenant_of_ctx`, with the handler's default. -/
def tenantOfCtx (ctxId : String) (db : Db) : String :=
  ((db.context? ctxId).map (·.tenantId)).getD "default"

end Db

namespace LogSystem

def witnessCosignaturesFor (logId : String) (treeSize : ℕ) (rootHash : String) (s : LogSystem) :
    List Json :=
  ((s.cosignatures.filter fun r => r.logId = logId ∧ r.treeSize = treeSize ∧ r.rootHash = rootHash)
    |>.insertionSort fun a b => a.witnessDid ≤ b.witnessDid).map (·.cosignature)

def upsertWitnessCosignature (row : CosignatureRow) (s : LogSystem) : LogSystem :=
  { s with
    cosignatures := s.cosignatures.filter (fun r => !(r.logId = row.logId &&
      r.treeSize = row.treeSize && r.rootHash = row.rootHash && r.witnessDid = row.witnessDid)) ++ [row] }

def cachedRoot (treeSize : ℕ) (s : LogSystem) : Option String :=
  (s.rootCache.filter (·.1 = treeSize)).map (·.2)

/-- `cache_root`: the newest size is kept. -/
def cacheRoot (treeSize : ℕ) (root : String) (s : LogSystem) : LogSystem :=
  match s.rootCache with
  | some (size, _) => if size > treeSize then s else { s with rootCache := some (treeSize, root) }
  | none => { s with rootCache := some (treeSize, root) }

def mint (checkpoint : LogCheckpoint) (s : LogSystem) : LogSystem :=
  { s with minted := s.minted ++ [checkpoint] }

end LogSystem

/-! ## Checkpoints -/

namespace LogServer

variable {H : Type} (srv : LogServer H)

def schemaViolation {α : Type} (msg : String) : LogProc α := .fail (.acdp (.schemaViolation msg))

/-- One shape for "not logged" and "not visible". -/
def notFound : RegistryError := .acdp (.notFound "context not found in the log")

/-- `parse_u64`. -/
def parseParameter (name raw : String) : Except RegistryError ℕ :=
  match parseU64 raw.toList with
  | some n => .ok n
  | none =>
    .error (.acdp (.schemaViolation
      s!"query parameter '{name}' must be a non-negative integer (got '{raw}')"))

def rootFor (treeSize : ℕ) (hashes : List H) (current : ℕ) : LogProc String := do
  match ← Proc.read (LogSystem.cachedRoot treeSize) with
  | some cached => return cached
  | none =>
    let root := srv.api.encodeSha256Hex (srv.api.merkleTreeHash hashes)
    if treeSize = current then do
      Proc.write (LogSystem.cacheRoot treeSize root)
      return root
    else return root

/-- `mint_log_checkpoint`; the caller says how its error is handed on. -/
def mintCheckpoint {ε : Type} (mapErr : AcdpError → ε) (treeSize : ℕ) (root : String) (now : ℤ) :
    Proc LogSystem ε LogCheckpoint :=
  match srv.api.signCheckpoint srv.logId treeSize root now with
  | .error e => .fail (mapErr e)
  | .ok signature => do
    let checkpoint : LogCheckpoint := ⟨srv.logId, treeSize, root, now, signature⟩
    Proc.write (LogSystem.mint checkpoint)
    return checkpoint

def witnessSignaturesFor (checkpoint : LogCheckpoint) : LogProc (List Json) :=
  Proc.read (LogSystem.witnessCosignaturesFor srv.logId checkpoint.treeSize checkpoint.rootHash)

def readHashes (upTo : ℕ) : LogProc (List H) := do
  Proc.lift ((← Proc.read fun s => s.db.logLeafHashes srv.api upTo).mapError .acdp)

def headRoot (treeSize : ℕ) : LogProc String := do
  match ← Proc.read (LogSystem.cachedRoot treeSize) with
  | some root => return root
  | none =>
    let hashes ← srv.readHashes treeSize
    srv.rootFor treeSize hashes treeSize

/-- `log_checkpoint`: the checkpoint and the cosignatures beside it. -/
def logCheckpoint (now : ℤ) : LogProc (LogCheckpoint × List Json) := do
  let treeSize ← Proc.read (·.db.logTreeSize)
  let root ← srv.headRoot treeSize
  let checkpoint ← srv.mintCheckpoint .acdp treeSize root now
  return (checkpoint, ← srv.witnessSignaturesFor checkpoint)

/-! ## Proofs -/

structure Caller where
  requester : Option String := none
  tenant : Option String := none

/-- `LogProofQuery`. -/
structure ProofQuery where
  ctxId : Option String := none
  leafIndex : Option String := none
  treeSize : Option String := none
  first : Option String := none
  second : Option String := none

/-- `requester_can_retrieve`: the retrieval rule, then the tenant. -/
def requesterCanRetrieve (caller : Caller) (ctxId : String) : LogProc Bool := do
  if !srv.api.isCtxId ctxId then return false
  else
    let visible ← Proc.read fun s =>
      (s.db.context? ctxId).any (·.body.retrieveVisible caller.requester srv.publicArmOpen)
    match visible, caller.tenant with
    | false, _ => return false
    | true, none => return true
    | true, some tenant => return (← Proc.read (·.db.tenantOfCtx ctxId)) = tenant

/-- The leaf that the query names, and whether the caller may see it; `current` is the size read
    before. -/
def lookupLeaf (caller : Caller) (q : ProofQuery) (current : ℕ) : LogProc (LogLeafRow × Bool) := do
  match q.ctxId, q.leafIndex with
  | some _, some _ =>
    schemaViolation "supply exactly one of ?ctx_id= or ?leaf_index=, not both (RFC-ACDP-0012 §8.2)"
  | some ctxId, none =>
    if !(← srv.requesterCanRetrieve caller ctxId) then .fail notFound
    else
      match ← Proc.read (·.db.logLeafByCtx ctxId) with
      | none => .fail notFound
      | some record => return (record, true)
  | none, some raw =>
    let leafIndex ← Proc.lift (parseParameter "leaf_index" raw)
    match ← Proc.read (·.db.logLeafByIndex leafIndex) with
    | none =>
      schemaViolation (s!"leaf_index {leafIndex} is not < the current tree size {current} " ++
        "(RFC-ACDP-0012 §8.2)")
    | some record => return (record, ← srv.requesterCanRetrieve caller record.ctxId)
  | none, none =>
    schemaViolation ("inclusion mode requires exactly one of ?ctx_id= or ?leaf_index= " ++
      "(RFC-ACDP-0012 §8.2)")

/-- The tree size to prove against: the current one, or a smaller one above the leaf. -/
def proofSize (q : ProofQuery) (leafIndex current : ℕ) : Except RegistryError ℕ :=
  match q.treeSize with
  | none => .ok current
  | some raw => do
    let n ← parseParameter "tree_size" raw
    ensure (leafIndex < n && n ≤ current) (.acdp (.schemaViolation
      (s!"tree_size must satisfy leaf_index ({leafIndex}) < tree_size ≤ current size ({current}), " ++
        s!"got {n} (RFC-ACDP-0012 §8.2)")))
    return n

def proveInclusion (q : ProofQuery) (now : ℤ) (current : ℕ) (record : LogLeafRow) (echoLeaf : Bool) :
    LogProc (LogInclusion × List Json) := do
  let treeSize ← Proc.lift (proofSize q record.leafIndex current)
  let hashes ← srv.readHashes treeSize
  let leafIndex := record.leafIndex
  match srv.api.inclusionPath leafIndex hashes with
  | none => .fail (.internal s!"no inclusion path for leaf {leafIndex} at size {treeSize}")
  | some path =>
    let root ← srv.rootFor treeSize hashes current
    let checkpoint ← srv.mintCheckpoint .acdp treeSize root now
    let leaf ← Proc.lift (if echoLeaf then ((srv.api.leaf record).map some).mapError .acdp else .ok none)
    let inclusion : LogInclusion :=
      { logId := srv.logId
        leafIndex := leafIndex
        treeSize := treeSize
        inclusionPath := path.map srv.api.encodeSha256Hex
        logCheckpoint := checkpoint
        leaf := leaf }
    return (inclusion, ← srv.witnessSignaturesFor checkpoint)

/-- `inclusion_proof_response`. -/
def inclusionProof (caller : Caller) (q : ProofQuery) (now : ℤ) :
    LogProc (LogInclusion × List Json) := do
  let current ← Proc.read (·.db.logTreeSize)
  let found ← srv.lookupLeaf caller q current
  srv.proveInclusion q now current found.1 found.2

/-- `consistency_proof_response`. -/
def consistencyProof (q : ProofQuery) (now : ℤ) : LogProc (LogConsistencyProof × List Json) := do
  match q.first, q.second with
  | some firstRaw, some secondRaw =>
    let first ← Proc.lift (parseParameter "first" firstRaw)
    let second ← Proc.lift (parseParameter "second" secondRaw)
    let current ← Proc.read (·.db.logTreeSize)
    Proc.lift (ensure (!(first = 0 || first > second || second > current)) (.acdp (.schemaViolation
      (s!"consistency mode requires 0 < first ≤ second ≤ current tree size ({current}); " ++
        s!"got first={first}, second={second} (RFC-ACDP-0012 §8.2)"))))
    let hashes ← srv.readHashes second
    match srv.api.consistencyProof first hashes with
    | none => .fail (.internal s!"no consistency proof for {first} → {second}")
    | some path =>
      let root ← srv.rootFor second hashes current
      let checkpoint ← srv.mintCheckpoint .acdp second root now
      let proof : LogConsistencyProof :=
        ⟨srv.logId, first, second, path.map srv.api.encodeSha256Hex, checkpoint⟩
      return (proof, ← srv.witnessSignaturesFor checkpoint)
  | _, _ => schemaViolation "consistency mode requires both ?first= and ?second= (RFC-ACDP-0012 §8.2)"

/-! ## Witnesses -/

def reconstructCheckpoint (treeSize : ℕ) (now : ℤ) : Proc LogSystem AcdpError (Option LogCheckpoint) := do
  let current ← Proc.read (·.db.logTreeSize)
  if treeSize > current then return none
  else
    let hashes ← Proc.lift (← Proc.read fun s => s.db.logLeafHashes srv.api treeSize)
    let root := srv.api.encodeSha256Hex (srv.api.merkleTreeHash hashes)
    return some (← srv.mintCheckpoint id treeSize root now)

/-- `verify_cosignature_against_own_log`. -/
def verifyCosignature (didDoc cosignature : Json) (now : ℤ) :
    Proc LogSystem AcdpError LogCosignature := do
  let peek ← Proc.lift (srv.api.cosignatureFromValue cosignature)
  let theirs := peek.logId
  let ours := srv.logId
  let size := peek.treeSize
  Proc.lift (ensure (theirs = ours) (.invalidWitnessCosignature
    (s!"cosignature witnessed_checkpoint.log_id '{theirs}' is not this registry's log '{ours}' " ++
      "(RFC-ACDP-0015 §6.1)")))
  match ← srv.reconstructCheckpoint size now with
  | none =>
    .fail (.invalidWitnessCosignature
      (s!"cosignature witnessed_checkpoint.tree_size {size} is beyond this registry's current " ++
        "head — cannot confirm the observed root (RFC-ACDP-0015 §7 step 2)"))
  | some checkpoint => Proc.lift (srv.api.verifyWitnessCosignature cosignature didDoc checkpoint)

/-- `verify_and_store_resolved`: only what verifies is stored. -/
def verifyAndStore (didDoc cosignature : Json) (now : ℤ) : LogProc Bool := do
  match ← (srv.verifyCosignature didDoc cosignature now).attempt with
  | .error _ => return false
  | .ok verified =>
    let witnessedAt := match cosignature.get? "witnessed_at" with
      | some (.string text) => text
      | _ => ""
    Proc.write (LogSystem.upsertWitnessCosignature
      ⟨verified.logId, verified.treeSize, verified.rootHash, verified.witnessId, witnessedAt, cosignature⟩)
    return true

/-! ## Requests -/

/-- What reaches the log: the endpoints' requests, and the cosignatures that a poll fetched. -/
inductive Request
  | checkpoint (now : ℤ)
  | proof (caller : Except RegistryError Caller) (q : ProofQuery) (now : ℤ)
  | cosignature (didDoc cosignature : Json) (now : ℤ)

inductive Answer
  | checkpoint (checkpoint : LogCheckpoint) (witnessSignatures : List Json)
  | inclusion (inclusion : LogInclusion) (witnessSignatures : List Json)
  | consistency (proof : LogConsistencyProof) (witnessSignatures : List Json)
  | stored (stored : Bool)

/-- `log_proof`: one of the two modes. -/
def logProof (caller : Except RegistryError Caller) (q : ProofQuery) (now : ℤ) : LogProc Answer := do
  let inclusionMode := q.ctxId.isSome || q.leafIndex.isSome || q.treeSize.isSome
  let consistencyMode := q.first.isSome || q.second.isSome
  if inclusionMode && consistencyMode then
    schemaViolation ("mixing the inclusion parameters (ctx_id / leaf_index / tree_size) with the " ++
      "consistency parameters (first / second) is not allowed (RFC-ACDP-0012 §8.2)")
  else if consistencyMode then
    let (proof, signatures) ← srv.consistencyProof q now
    return .consistency proof signatures
  else if !inclusionMode then
    schemaViolation ("GET /log/proof requires either ?ctx_id= or ?leaf_index= (inclusion mode) or " ++
      "?first=&second= (consistency mode) (RFC-ACDP-0012 §8.2)")
  else
    let caller ← Proc.lift caller
    let (inclusion, signatures) ← srv.inclusionProof caller q now
    return .inclusion inclusion signatures

def serve : Request → LogProc Answer
  | .checkpoint now => do
    let (checkpoint, signatures) ← srv.logCheckpoint now
    return .checkpoint checkpoint signatures
  | .proof caller q now => srv.logProof caller q now
  | .cosignature didDoc cosignature now => return .stored (← srv.verifyAndStore didDoc cosignature now)

end LogServer

end AcdpRegistry
