import NanoAural.Base.System
import NanoAural.Durable.RecoverySets

/-!
# Backup and restore

`create_recovery_set` and `restore_recovery_set` as sequences of system calls, any
of which may be the last one before a kill. Both build a stage directory, keep a
state file that names the phase, and publish the stage by a rename that replaces
nothing. Unfinished copies of the state file are left out: nothing reads one.
-/

namespace NanoAural

open Faulty Faulty.Prog

namespace Recovery

/-- The phases of a backup and of a restore. -/
inductive OperationPhase where
  | building | publishing
  | preparing | prepared | databaseRestoring | databaseRestored
  deriving DecidableEq, Repr

/-- What the state file says, less the constants of its operation. -/
structure OperationState where
  phase : OperationPhase
  databaseIdentity : String
  manifestSha256 : Option String
  deriving DecidableEq, Repr

/-- `RecoveryEvidence`. -/
structure RecoveryEvidence where
  objectCount : Nat
  blobBytes : Nat
  databaseDumpBytes : Nat
  deriving DecidableEq, Repr

/-- What an operation works on. `τ` is the type of the directory it publishes. -/
structure RecoveryWorld (τ : Type) where
  stage : Option τ
  target : Option τ
  state : Option OperationState
  /-- How often the dump took effect in the target database. -/
  restores : Nat
  /-- What other parties put at the target path, if it is free, at each moment. -/
  arrivals : Nat → Option τ
  moment : Nat
  /-- What another party did put there. -/
  foreign : Option τ
  /-- The last removal of the state file took effect. -/
  finished : Bool

abbrev RecoveryProg (τ α : Type) := Prog (RecoveryWorld τ) RecoveryRaise α

variable {τ : Type} (env : RecoveryEnv)

/-- `raise RecoverySetError(code)` unless `c`. -/
def insist (c : Bool) (code : String) : RecoveryProg τ Unit :=
  raiseWhen (!c) (.recoverySet code)

/-- A look that can fail. -/
def inspect {α : Type} (f : RecoveryWorld τ → Except RecoveryRaise α) : RecoveryProg τ α :=
  call fun w => (f w, w)

/-- `os.fsync`, or a hook of the caller's. -/
def pause : RecoveryProg τ Unit := act id

/-! ## Paths -/

/-- The world after other parties had their chance. -/
def RecoveryWorld.visited (w : RecoveryWorld τ) : RecoveryWorld τ :=
  match w.target, w.arrivals w.moment with
  | none, some t => { w with target := some t, foreign := some t, moment := w.moment + 1 }
  | _, _ => { w with moment := w.moment + 1 }

/-- Other parties act. -/
def others : RecoveryProg τ Unit := assign RecoveryWorld.visited

/-- `target.exists()`. -/
def targetExists : RecoveryProg τ Bool := do
  others
  look fun w => w.target.isSome

/-- `stage.exists()`. -/
def stageExists : RecoveryProg τ Bool := look fun w => w.stage.isSome

/-- `if target.exists() and not stage.exists(): published`
`elif stage.exists() and not target.exists(): staged`, else the state is invalid. -/
def whichExists {α : Type} (published staged : RecoveryProg τ α) (invalid : RecoveryRaise) :
    RecoveryProg τ α := do
  let there ← targetExists
  let stagedToo ← stageExists
  if there && !stagedToo then published
  else do
    let stagedNow ← stageExists
    let thereToo ← targetExists
    if stagedNow && !thereToo then staged else raise invalid

/-- `os.mkdir` of the stage. -/
def makeStage (empty : τ) : RecoveryProg τ Unit := call fun w =>
  match w.stage with
  | some _ => (.error .os, w)
  | none => (.ok (), { w with stage := some empty })

/-- Change something below the stage. -/
def onStage (f : τ → τ) : RecoveryProg τ Unit := act fun w => { w with stage := w.stage.map f }

/-- `_remove_owned_stage`. `remains` is what is left of a directory entry by entry. -/
def removeOwnedStage (remains : τ → List τ) : RecoveryProg τ Unit := do
  let stage ← look fun w => w.stage
  match stage with
  | none => pure ()
  | some t => do
      forEach (remains t) fun t' => act fun w => { w with stage := some t' }
      act fun w => { w with stage := none }
      pause

/-- A rename of the stage that replaces nothing. -/
def RecoveryWorld.rename (w : RecoveryWorld τ) : Except RecoveryRaise Unit × RecoveryWorld τ :=
  match w.target, w.stage with
  | some _, _ => (.error (.recoverySet "RECOVERY_TARGET_EXISTS"), w)
  | none, none => (.error (.recoverySet "RECOVERY_PUBLICATION_FAILED"), w)
  | none, some t => (.ok (), { w with stage := none, target := some t })

/-- `_publish_directory`. -/
def publishDirectory : RecoveryProg τ Unit := do
  others
  call RecoveryWorld.rename
  pause

/-! ## The state file -/

def stateInvalid : RecoveryRaise := .recoverySet "RECOVERY_OPERATION_STATE_INVALID"

/-- `_write_operation_state`: an atomic replacement. -/
def writeOperationState (phase : OperationPhase) (manifest : Option String) :
    RecoveryProg τ Unit := do
  insist (isSha256 env.databaseIdentity) "RECOVERY_DATABASE_IDENTITY_INVALID"
  pause
  act fun w => { w with state := some ⟨phase, env.databaseIdentity, manifest⟩ }
  pause

/-- What the state file reads as. -/
def RecoveryWorld.stateRead (w : RecoveryWorld τ) : Except RecoveryRaise OperationState :=
  match w.state with
  | none => .error stateInvalid
  | some s =>
      if s.manifestSha256.all isSha256 && isSha256 s.databaseIdentity then .ok s
      else .error stateInvalid

/-- `_read_operation_state`. -/
def readOperationState : RecoveryProg τ OperationState := inspect RecoveryWorld.stateRead

/-- The state the operation was left in, if any. -/
def operationState : RecoveryProg τ (Option OperationState) :=
  Prog.tryCatch (do
    let s ← readOperationState
    pure (some s)) fun e =>
    if e != stateInvalid then raise e
    else do
      let exists' ← look fun w => w.state.isSome
      if exists' then raise e else pure none

/-- `_unlink_durable` of the state file; `last` where the operation is then done. -/
def unlinkState (last : Bool) : RecoveryProg τ Unit := do
  call fun w =>
    match w.state with
    | none => (.error .os, w)
    | some _ => (.ok (), { w with state := none, finished := w.finished || last })
  pause

/-! ## Copying -/

/-- Where an object root lies in the stage. -/
structure TreeAt (τ : Type) where
  get : τ → Option ObjectTree
  modify : (ObjectTree → ObjectTree) → τ → τ

/-- Write bytes one by one, `size` of them so far. -/
def writeBytes (append : UInt8 → τ → τ) (maxBytes : Nat) :
    List UInt8 → Nat → RecoveryProg τ Unit
  | [], _ => pure ()
  | b :: rest, size =>
      if maxBytes < size + 1 then raise (.recoverySet "RECOVERY_BOUND_EXCEEDED")
      else do
        onStage (append b)
        writeBytes append maxBytes rest (size + 1)

def ObjectTree.addDirectory (path : String) (t : ObjectTree) : ObjectTree :=
  { t with dirs := t.dirs ++ [path] }

def ObjectTree.addFile (path : String) (t : ObjectTree) : ObjectTree :=
  { t with files := t.files ++ [(path, [])] }

def ObjectTree.append (path : String) (b : UInt8) (t : ObjectTree) : ObjectTree :=
  { t with files := t.files.map fun f => if f.1 == path then (f.1, f.2 ++ [b]) else f }

/-- `_copy_stream` to the canonical key `path`. The parents that are missing are made first. -/
def copyStream (root : TreeAt τ) (path : String) (content : List UInt8) (maxBytes : Nat) :
    RecoveryProg τ (String × Nat) := do
  let missing ← look fun w => (canonicalDirectories (baseName path)).filter fun d =>
    !((w.stage.bind root.get).any fun t => t.dirs.contains d)
  forEach missing fun d => onStage (root.modify (ObjectTree.addDirectory d))
  call fun w =>
    if (w.stage.bind root.get).any fun t => (t.read path).isSome then (.error .os, w)
    else (.ok (), { w with stage := w.stage.map (root.modify (ObjectTree.addFile path)) })
  writeBytes (fun b => root.modify (ObjectTree.append path b)) maxBytes content 0
  pause
  pure (env.sha256 content, content.length)

/-- `open_reader` of an object of an object root nothing changes. -/
def openReader (t : ObjectTree) (key : String) : RecoveryProg τ (List UInt8) :=
  inspect fun _ =>
    match t.read key with
    | none => .error .os
    | some content => .ok content

/-! ## Restore -/

/-- The whole stage is the object root. -/
def wholeStage : TreeAt ObjectTree := ⟨some, id⟩

/-- What is left of an object root entry by entry. -/
def ObjectTree.remains (t : ObjectTree) : List ObjectTree :=
  t.files.tails.map (fun files => ⟨t.dirs, files⟩) ++ t.dirs.tails.map fun dirs => ⟨dirs, []⟩

/-- `target_database_is_empty`: a dump with the migration ledger leaves a table. -/
def databaseIsEmpty : RecoveryProg τ Bool := look fun w => w.restores == 0

/-- `target_database_has_sealed_migration_ledger`. -/
def databaseHasSealedLedger : RecoveryProg τ Bool :=
  look fun w => w.restores != 0 && env.databaseSealed

/-- `_require_database_identity`. -/
def requireDatabaseIdentity (expected : String) : RecoveryProg τ Unit := do
  let observed ← look fun _ => env.databaseIdentity
  insist (observed == expected) "RECOVERY_DATABASE_IDENTITY_CHANGED"

/-- The loop that copies the objects, with the bytes restored so far. -/
def restoreObjects (source : ObjectTree) : List RecoveryObject → Nat → RecoveryProg ObjectTree Unit
  | [], _ => pure ()
  | item :: rest, total => do
      let content ← openReader source item.storageKey
      let (digest, size) ← copyStream env wholeStage item.storageKey content
        (min (min item.sizeBytes env.limits.maxSingleBlobBytes)
          (min (env.limits.maxTotalBlobBytes - total) (env.limits.maxTemporaryBytes - total)))
      insist (digest == item.sha256 && size == item.sizeBytes) "RECOVERY_CANONICAL_INTEGRITY_FAILED"
      restoreObjects source rest (total + size)

/-- `_validate_canonical_root`. The store it opens makes a root that is not there. -/
def validateCanonicalRoot (root : RecoveryWorld ObjectTree → Option ObjectTree)
    (make : RecoveryWorld ObjectTree → RecoveryWorld ObjectTree) (objects : List RecoveryObject) :
    RecoveryProg ObjectTree Unit := do
  inspect fun w => do
    let keys ← canonicalKeys env.limits ((root w).getD ⟨[], []⟩)
    demand (keys == objects.map RecoveryObject.storageKey) "RECOVERY_CANONICAL_INTEGRITY_FAILED"
  act fun w => if (root w).isSome then w else make w
  inspect fun w => demand (intact env.sha256 ((root w).getD ⟨[], []⟩) objects)
    "RECOVERY_CANONICAL_INTEGRITY_FAILED"

def validateStage (objects : List RecoveryObject) : RecoveryProg ObjectTree Unit :=
  validateCanonicalRoot env (fun w => w.stage) (fun w => { w with stage := some ⟨[], []⟩ }) objects

def validateTarget (objects : List RecoveryObject) : RecoveryProg ObjectTree Unit :=
  validateCanonicalRoot env (fun w => w.target)
    (fun w => if w.target.isSome then w else { w with target := some ⟨[], []⟩ }) objects

/-- `if phase == "preparing"`. -/
def prepare (source : ObjectTree) (v : ValidatedRecoverySet) :
    RecoveryProg ObjectTree OperationPhase := do
  let empty ← databaseIsEmpty
  insist empty "RECOVERY_DATABASE_AMBIGUOUS"
  removeOwnedStage ObjectTree.remains
  makeStage ⟨[], []⟩
  restoreObjects env source v.objects 0
  inspect fun w => do
    let keys ← canonicalKeys env.limits (w.stage.getD ⟨[], []⟩)
    demand (keys == v.objects.map RecoveryObject.storageKey) "RECOVERY_CANONICAL_INTEGRITY_FAILED"
  pause
  writeOperationState env .prepared (some v.manifestSha256)
  pause
  pure .prepared

/-- `if phase == "prepared"`. -/
def enterDatabase (v : ValidatedRecoverySet) : RecoveryProg ObjectTree OperationPhase := do
  let empty ← databaseIsEmpty
  insist empty "RECOVERY_DATABASE_AMBIGUOUS"
  validateStage env v.objects
  requireDatabaseIdentity env env.databaseIdentity
  writeOperationState env .databaseRestoring (some v.manifestSha256)
  pause
  pure .databaseRestoring

/-- `restore`: one transaction, of a dump with the digest expected. -/
def restoreDump (dump : List UInt8) (expected : String) : RecoveryProg ObjectTree Unit := do
  insist (dump.length ≤ env.limits.maxDatabaseDumpBytes) "RECOVERY_BOUND_EXCEEDED"
  insist (1 ≤ dump.length && env.sha256 dump == expected) "RECOVERY_DATABASE_INTEGRITY_FAILED"
  act fun w => { w with restores := w.restores + 1 }
  pause

/-- `if phase == "database_restoring"`. -/
def restoreDatabase (dump : List UInt8) (v : ValidatedRecoverySet) :
    RecoveryProg ObjectTree OperationPhase := do
  let empty ← databaseIsEmpty
  (if empty then restoreDump env dump v.dumpSha256 else pure ())
  requireDatabaseIdentity env env.databaseIdentity
  let sealed ← databaseHasSealedLedger env
  insist sealed "RECOVERY_DATABASE_AUTHORITY_INVALID"
  writeOperationState env .databaseRestored (some v.manifestSha256)
  pause
  pure .databaseRestored

/-- What follows the phases. -/
def publishObjects (v : ValidatedRecoverySet) : RecoveryProg ObjectTree RecoveryEvidence := do
  let sealed ← databaseHasSealedLedger env
  insist sealed "RECOVERY_DATABASE_AUTHORITY_INVALID"
  requireDatabaseIdentity env env.databaseIdentity
  whichExists (validateTarget env v.objects) (do
    validateStage env v.objects
    publishDirectory
    pause) stateInvalid
  unlinkState true
  pure ⟨v.objects.length, (v.objects.map RecoveryObject.sizeBytes).sum, v.dumpSizeBytes⟩

/-- The phase a restore starts in. -/
def restorePhase (v : ValidatedRecoverySet) : RecoveryProg ObjectTree OperationPhase := do
  let state ← operationState
  match state with
  | none => do
      let there ← targetExists
      insist (!there) "RECOVERY_TARGET_EXISTS"
      let staged ← stageExists
      insist (!staged) "RECOVERY_OPERATION_STAGE_INVALID"
      let empty ← databaseIsEmpty
      insist empty "RECOVERY_DATABASE_NOT_EMPTY"
      writeOperationState env .preparing (some v.manifestSha256)
      pure .preparing
  | some s => do
      -- a state that was left behind must be of this very set
      raiseWhen (s.manifestSha256 != some v.manifestSha256) stateInvalid
      insist (s.databaseIdentity == env.databaseIdentity) "RECOVERY_DATABASE_IDENTITY_CHANGED"
      pure s.phase

/-- `restore_recovery_set`. -/
def restoreRecoverySet (source : RecoveryTree) : RecoveryProg ObjectTree RecoveryEvidence := do
  let v ← inspect fun _ => validateRecoverySet env source
  insist (isSha256 env.databaseIdentity) "RECOVERY_DATABASE_IDENTITY_INVALID"
  let phase ← restorePhase env v
  let phase ← (if phase == .preparing then prepare env (source.canonical.getD ⟨[], []⟩) v
    else pure phase)
  let phase ← (if phase == .prepared then enterDatabase env v else pure phase)
  let phase ← (if phase == .databaseRestoring then restoreDatabase env (source.dump.getD []) v
    else pure phase)
  raiseWhen (phase != .databaseRestored) stateInvalid
  publishObjects env v

/-! ## Backup -/

/-- The object root of a recovery set. -/
def canonicalOf : TreeAt RecoveryTree :=
  ⟨RecoveryTree.canonical, fun f t => { t with canonical := t.canonical.map f }⟩

def RecoveryTree.empty : RecoveryTree := ⟨none, none, none, 0⟩

/-- What is left of a recovery set entry by entry. -/
def RecoveryTree.remains (t : RecoveryTree) : List RecoveryTree :=
  ((t.canonical.map ObjectTree.remains).getD []).map (fun c => { t with canonical := some c })
    ++ [{ t with canonical := none }, { t with canonical := none, dump := none },
      { t with canonical := none, dump := none, manifest := none }]

/-- `dump`, of what the database holds, to the stage. -/
def dumpDatabase (dump : List UInt8) : RecoveryProg RecoveryTree (String × Nat) := do
  call fun w =>
    if (w.stage.bind RecoveryTree.dump).isSome then (.error .os, w)
    else (.ok (), { w with stage := w.stage.map fun t => { t with dump := some [] } })
  writeBytes (fun b t => { t with dump := t.dump.map (· ++ [b]) }) env.limits.maxDatabaseDumpBytes
    dump 0
  pause
  insist (1 ≤ dump.length) "RECOVERY_DATABASE_DUMP_FAILED"
  pure (env.sha256 dump, dump.length)

/-- The loop that copies the objects, with those copied and the bytes so far. -/
def backupObjects (source : ObjectTree) (dumpSize : Nat) :
    List String → List RecoveryObject → Nat → RecoveryProg RecoveryTree (List RecoveryObject × Nat)
  | [], objects, total => pure (objects, total)
  | key :: rest, objects, total => do
      let content ← openReader source key
      let (digest, size) ← copyStream env canonicalOf key content
        (min env.limits.maxSingleBlobBytes (min (env.limits.maxTotalBlobBytes - total)
          (env.limits.maxTemporaryBytes - dumpSize - total)))
      insist (digest == baseName key) "RECOVERY_CANONICAL_INTEGRITY_FAILED"
      insist (total + size ≤ env.limits.maxTotalBlobBytes) "RECOVERY_BOUND_EXCEEDED"
      backupObjects source dumpSize rest (objects ++ [⟨key, digest, size⟩]) (total + size)

/-- `_atomic_json` of the manifest: written beside it, then moved in its place. -/
def writeManifest (m : RecoveryManifest) : RecoveryProg RecoveryTree Unit := do
  onStage fun t => { t with temporaries := t.temporaries + 1 }
  pause
  onStage fun t => { t with temporaries := t.temporaries - 1, manifest := some m }
  pause

/-- `_hash_file` of the stage's manifest. -/
def hashManifest : RecoveryProg RecoveryTree String := inspect fun w =>
  match w.stage.bind RecoveryTree.manifest with
  | none => .error .os
  | some m => do
      demand ((env.manifestBytes m).length ≤ maxManifestBytes) "RECOVERY_BOUND_EXCEEDED"
      .ok (env.sha256 (env.manifestBytes m))

def ValidatedRecoverySet.evidence (v : ValidatedRecoverySet) : RecoveryEvidence :=
  ⟨v.objects.length, (v.objects.map RecoveryObject.sizeBytes).sum, v.dumpSizeBytes⟩

/-- `_validate_recovery_set` of what is at a path, and that it is what was to be published. -/
def validateSet (path : RecoveryWorld RecoveryTree → Option RecoveryTree)
    (expected : Option String) : RecoveryProg RecoveryTree ValidatedRecoverySet := do
  let completed ← inspect fun w =>
    match path w with
    | none => .error (.recoverySet "RECOVERY_SET_INVALID")
    | some t => validateRecoverySet env t
  raiseWhen (some completed.manifestSha256 != expected
    || completed.sourceDatabaseIdentity != env.databaseIdentity) stateInvalid
  pure completed

/-- A backup that was left to publish. -/
def publishSet (s : OperationState) : RecoveryProg RecoveryTree RecoveryEvidence :=
  whichExists (do
    let completed ← validateSet env (fun w => w.target) s.manifestSha256
    unlinkState true
    pure completed.evidence) (do
    let completed ← validateSet env (fun w => w.stage) s.manifestSha256
    requireDatabaseIdentity env env.databaseIdentity
    publishDirectory
    pause
    unlinkState true
    pure completed.evidence) stateInvalid

/-- A backup from the beginning. -/
def buildSet (source : ObjectTree) (dump : List UInt8) :
    RecoveryProg RecoveryTree RecoveryEvidence := do
  let there ← targetExists
  insist (!there) "RECOVERY_TARGET_EXISTS"
  let staged ← stageExists
  insist (!staged) "RECOVERY_OPERATION_STAGE_INVALID"
  writeOperationState env .building none
  makeStage RecoveryTree.empty
  -- the directory `canonical` of the stage
  onStage fun t => { t with canonical := some ⟨[], []⟩ }
  let (dumpDigest, dumpSize) ← dumpDatabase env dump
  pause
  insist (1 ≤ dumpSize && isSha256 dumpDigest) "RECOVERY_DATABASE_DUMP_FAILED"
  insist (dumpSize ≤ env.limits.maxTemporaryBytes) "RECOVERY_BOUND_EXCEEDED"
  let keys ← inspect fun _ => canonicalKeys env.limits source
  let (objects, total) ← backupObjects env source dumpSize keys [] 0
  pause
  writeManifest ⟨dumpDigest, dumpSize, env.databaseIdentity, objects, total⟩
  pause
  pause
  let manifestDigest ← hashManifest env
  requireDatabaseIdentity env env.databaseIdentity
  writeOperationState env .publishing (some manifestDigest)
  pause
  publishDirectory
  pause
  unlinkState true
  pure ⟨objects.length, total, dumpSize⟩

/-- A backup that was left building: it publishes what has a manifest and begins anew otherwise. -/
def resumeBuilding (source : ObjectTree) (dump : List UInt8) :
    RecoveryProg RecoveryTree RecoveryEvidence := do
  let complete ← look fun w => (w.stage.bind RecoveryTree.manifest).isSome
  if complete then do
    let completed ← inspect fun w =>
      match w.stage with
      | none => .error (.recoverySet "RECOVERY_SET_INVALID")
      | some t => validateRecoverySet env t
    insist (completed.sourceDatabaseIdentity == env.databaseIdentity)
      "RECOVERY_DATABASE_IDENTITY_CHANGED"
    pause
    writeOperationState env .publishing (some completed.manifestSha256)
    let s ← readOperationState
    publishSet env s
  else do
    removeOwnedStage RecoveryTree.remains
    unlinkState false
    buildSet env source dump

/-- `create_recovery_set`, where the database dumps as `dump`. -/
def createRecoverySet (source : ObjectTree) (dump : List UInt8) :
    RecoveryProg RecoveryTree RecoveryEvidence := do
  insist (isSha256 env.databaseIdentity) "RECOVERY_DATABASE_IDENTITY_INVALID"
  let sealed ← look fun _ => env.databaseSealed
  insist sealed "RECOVERY_DATABASE_AUTHORITY_INVALID"
  let state ← operationState
  match state with
  | none => buildSet env source dump
  | some s => do
      insist (s.databaseIdentity == env.databaseIdentity) "RECOVERY_DATABASE_IDENTITY_CHANGED"
      match s.phase with
      | .building => resumeBuilding env source dump
      | .publishing => publishSet env s
      | .preparing | .prepared | .databaseRestoring | .databaseRestored => raise stateInvalid

/-! ## Runs -/

/-- Nothing begun; at the target path may already be what others put there. -/
structure RecoveryWorld.Initial (w : RecoveryWorld τ) : Prop where
  stage : w.stage = none
  state : w.state = none
  restores : w.restores = 0
  foreign : w.foreign = w.target
  finished : w.finished = false

/-- Invocations that are killed before the last removal of the state file took effect; between
them other parties may act. -/
inductive KilledStep (operation : RecoveryProg τ RecoveryEvidence → Prop) (w : RecoveryWorld τ) :
    RecoveryWorld τ → Prop where
  | killed (p : RecoveryProg τ RecoveryEvidence) (hp : operation p)
      (faults : List (Fault RecoveryRaise)) (w' : RecoveryWorld τ)
      (hrun : p.run faults w = (.killed, w')) (hfinished : w'.finished = false) :
      KilledStep operation w w'
  | others : KilledStep operation w w.visited

/-- Any finite sequence of kills. -/
def killedRuns (operation : RecoveryProg τ RecoveryEvidence → Prop) :
    Machine.System (RecoveryWorld τ) where
  init := RecoveryWorld.Initial
  step := KilledStep operation

end Recovery

end NanoAural
