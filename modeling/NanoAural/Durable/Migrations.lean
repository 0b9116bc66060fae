import Mathlib.Data.String.Basic
import NanoAural.Base.Order
import NanoAural.Base.System
import NanoAural.Base.Transaction
import NanoAural.Durable.Domain

/-!
# Migrations

The ordered, checksum-sealed SQL migrations. The ledger is a table that may be
missing, hold filenames only, or carry digests; its seal is the three catalog
objects that pin the digests down. The SQL of a migration is opaque: it runs and is
recorded, or it raises and takes its transaction with it.
-/

namespace NanoAural

open Relational Machine

/-! ## Sources -/

/-- What a migration call raises: its own integrity codes, or what the database reports. -/
inductive MigrationError where
  | integrity (code : String)
  | database (text : String)
  deriving DecidableEq, Repr

structure MigrationSource where
  filename : String
  sql : String
  sha256 : String
  deriving DecidableEq, Repr

/-- What a call takes from its surroundings. -/
structure MigrationEnv where
  /-- SHA-256, of bytes. -/
  sha256 : ByteArray → String
  /-- Whether a text runs on the database the texts before it made. -/
  succeeds : List String → String → Bool
  /-- The role of the connection. -/
  user : String

def isAsciiDigit (c : Char) : Bool := '0' ≤ c && c ≤ '9'

/-- `_MIGRATION_NAME`: `^[0-9]{4}_[a-z0-9_]+\.sql$`. -/
def isMigrationName (name : String) : Bool :=
  match name.toList with
  | a :: b :: c :: d :: '_' :: rest =>
      let stem := rest.take (rest.length - 4)
      [a, b, c, d].all isAsciiDigit && rest.drop (rest.length - 4) == ".sql".toList
        && !stem.isEmpty && stem.all fun x => ('a' ≤ x && x ≤ 'z') || isAsciiDigit x || x == '_'
  | _ => false

/-- `int(filename[:4])`. -/
def migrationNumber (filename : String) : Nat :=
  (filename.toList.take 4).foldl (fun n c => 10 * n + (c.toNat - 48)) 0

/-- `_decode_source`. -/
def decodeSource (env : MigrationEnv) (entry : String × ByteArray) :
    Except MigrationError MigrationSource := do
  raiseIf (!isMigrationName entry.1) (.integrity "MIGRATION_SOURCE_NAME_INVALID")
  match String.fromUTF8? entry.2 with
  | none => .error (.integrity "MIGRATION_SOURCE_ENCODING_INVALID")
  | some sql => do
      raiseIf (isBlank sql) (.integrity "MIGRATION_SOURCE_EMPTY")
      pure ⟨entry.1, sql, env.sha256 entry.2⟩

/-- The `*.sql` entries of a directory, by name. -/
def sqlEntries (directory : List (String × ByteArray)) : List (String × ByteArray) :=
  orderBy Prod.fst (directory.filter fun entry => ".sql".toList.isSuffixOf entry.1.toList)

/-- `_migration_sources`. -/
def migrationSources (env : MigrationEnv) (directory : List (String × ByteArray)) :
    Except MigrationError (List MigrationSource) := do
  let entries ← (sqlEntries directory).mapM (decodeSource env)
  raiseIf entries.isEmpty (.integrity "MIGRATION_SOURCE_SET_EMPTY")
  raiseIf (!decide (entries.map MigrationSource.filename).Nodup)
    (.integrity "MIGRATION_SOURCE_NAME_DUPLICATE")
  raiseIf (entries.map (migrationNumber ∘ MigrationSource.filename)
      != List.range' 1 entries.length)
    (.integrity "MIGRATION_SOURCE_SEQUENCE_INVALID")
  pure entries

/-! ## The database -/

/-- A function of the catalog named `nano_aural_guard_schema_migration_ledger`. -/
structure GuardFunction where
  schema : String
  source : String
  securityDefiner : Bool
  leakproof : Bool
  argumentCount : Nat
  owner : String
  deriving DecidableEq

/-- The constraint `nano_aural_schema_migrations_sha256_format`. -/
structure SealConstraint where
  kind : Char
  validated : Bool
  expression : String
  deriving DecidableEq

/-- The trigger `nano_aural_schema_migrations_guard`; `none` runs a function of another name. -/
structure SealTrigger where
  enabled : Char
  kind : Nat
  function : Option GuardFunction
  deriving DecidableEq

/-- The table `nano_aural_schema_migrations`, with the parts of the catalog that seal it. -/
structure MigrationLedger where
  /-- `filename, sha256`. -/
  rows : List (String × Option String)
  /-- `filename` is the primary key. -/
  key : (rows.map Prod.fst).Nodup
  /-- There is a column `sha256`. -/
  digestColumn : Bool
  digestNotNull : Bool
  digestIsText : Bool
  /-- `PUBLIC` may write the table or a column of it. -/
  publicWrites : Bool
  /-- A role that is neither `PUBLIC` nor the owner may. -/
  otherWrites : Bool
  constraint : Option SealConstraint
  trigger : Option SealTrigger

structure MigrationDb where
  ledger : Option MigrationLedger
  /-- The functions of schema `public` under the guard's name. -/
  guards : List GuardFunction
  /-- Default privileges let other roles write a new table. -/
  defaultWrites : Bool
  /-- The SQL texts executed so far. -/
  executed : List String

/-- A statement sequence of a migration call. -/
abbrev MigrationTx := Tx MigrationDb MigrationError

/-- The ledger a statement names. -/
def theLedger : MigrationTx MigrationLedger := do
  let db ← Tx.read
  Tx.orFail db.ledger (.database "relation nano_aural_schema_migrations does not exist")

def setLedger (ledger : MigrationLedger) : MigrationTx Unit :=
  Tx.modify fun db => { db with ledger := some ledger }

/-- `_prepare_ledger`. -/
def prepareLedger : MigrationTx Unit := Tx.modify fun db =>
  { db with ledger := some (match db.ledger with
    | none => ⟨[], List.nodup_nil, true, false, true, false, db.defaultWrites, none, none⟩
    | some ledger =>
        if ledger.digestColumn then ledger
        else { ledger with digestColumn := true, digestNotNull := false, digestIsText := true }) }

/-- `_ledger_rows`. -/
def ledgerRows : MigrationTx (List (String × Option String)) := do
  let ledger ← theLedger
  pure (orderBy Prod.fst ledger.rows)

/-! ## The ledger against the sources -/

/-- `_validate_prefix`. -/
def validatePrefix (sources : List MigrationSource) (rows : List (String × Option String)) :
    Except MigrationError Unit :=
  raiseIf (decide (rows.length > sources.length)
      || rows.map Prod.fst != (sources.take rows.length).map MigrationSource.filename)
    (.integrity "MIGRATION_LEDGER_NOT_ORDERED_PREFIX")

/-- The loop of `_validate_sealed_rows`. -/
def validateDigests : List (MigrationSource × String × Option String) → Except MigrationError Unit
  | [] => .ok ()
  | (_, _, none) :: _ => .error (.integrity "MIGRATION_LEGACY_CHECKSUMS_REQUIRED")
  | (source, _, some digest) :: rest => do
      raiseIf (!isSha256 digest || digest != source.sha256)
        (.integrity "MIGRATION_CHECKSUM_MISMATCH")
      validateDigests rest

/-- `_validate_sealed_rows`. -/
def validateSealedRows (sources : List MigrationSource) (rows : List (String × Option String)) :
    Except MigrationError Unit := do
  validatePrefix sources rows
  validateDigests (sources.zip rows)

/-! ## The seal -/

/-- `_LEDGER_FUNCTION_SOURCE`. -/
def ledgerFunctionSource : String := "DECLARE
    authorized BOOLEAN := FALSE;
BEGIN
    IF TG_OP = 'INSERT' THEN
        BEGIN
            EXECUTE 'SELECT EXISTS (SELECT 1 FROM pg_temp.nano_aural_migration_authorization WHERE token = current_setting(''nano_aural.migration_runner_token'', true))'
                INTO authorized;
        EXCEPTION
            WHEN undefined_table OR invalid_schema_name THEN
                authorized := FALSE;
        END;
        IF authorized THEN
            RETURN NEW;
        END IF;
    END IF;
    RAISE EXCEPTION 'schema migration ledger rows require the migration runner';
END"

/-- `_CHECK_EXPRESSION`. -/
def checkExpression : String := "(sha256 ~ '^[0-9a-f]\x7b64\x7d$'::text)"

/-- `_seal_objects_present`. -/
def sealObjectsPresent : MigrationTx Bool := do
  let db ← Tx.read
  let ledger ← theLedger
  pure (ledger.constraint.isSome || !db.guards.isEmpty || ledger.trigger.isSome)

/-- The guard function `_install_ledger_seal` creates. -/
def sealGuard (env : MigrationEnv) : GuardFunction :=
  ⟨"public", ledgerFunctionSource, false, false, 0, env.user⟩

/-- The ledger `_install_ledger_seal` leaves. -/
def MigrationLedger.seal (env : MigrationEnv) (ledger : MigrationLedger) : MigrationLedger :=
  { ledger with
    constraint := some ⟨'c', true, checkExpression⟩, digestNotNull := true
    publicWrites := false, trigger := some ⟨'O', 31, some (sealGuard env)⟩ }

/-- `_install_ledger_seal`. -/
def installLedgerSeal (env : MigrationEnv) : MigrationTx Unit := do
  let present ← sealObjectsPresent
  Tx.ensure (!present) (.integrity "MIGRATION_LEDGER_SEAL_CONFLICT")
  let ledger ← theLedger
  Tx.ensure (ledger.rows.all fun row => row.2.all isSha256)
    (.database "check constraint nano_aural_schema_migrations_sha256_format is violated")
  Tx.ensure (ledger.rows.all fun row => row.2.isSome)
    (.database "column sha256 contains null values")
  setLedger (ledger.seal env)
  Tx.modify fun db => { db with guards := sealGuard env :: db.guards }

/-- The row `_verify_ledger_seal` expects of the catalog. -/
def sealExpected (env : MigrationEnv) (ledger : MigrationLedger) (constraint : SealConstraint)
    (trigger : SealTrigger) (guard : GuardFunction) : Bool :=
  ledger.digestNotNull && ledger.digestIsText && constraint.kind == 'c' && constraint.validated
    && constraint.expression == checkExpression && trigger.enabled == 'O' && trigger.kind == 31
    && guard.source == ledgerFunctionSource && !guard.securityDefiner && !guard.leakproof
    && guard.argumentCount == 0 && guard.schema == "public" && guard.owner == env.user
    && !(ledger.publicWrites || ledger.otherWrites)

/-- Whether `_verify_ledger_seal` accepts the catalog. A table has at most one constraint and one
trigger of a name. -/
def sealed (env : MigrationEnv) (db : MigrationDb) : Bool :=
  match db.ledger with
  | none => false
  | some ledger =>
      match ledger.constraint, ledger.trigger with
      | some constraint, some trigger =>
          trigger.function.any (sealExpected env ledger constraint trigger)
            && db.guards.length == 1
      | _, _ => false

/-- `_verify_ledger_seal`. -/
def verifyLedgerSeal (env : MigrationEnv) : MigrationTx Unit := do
  let db ← Tx.read
  Tx.ensure (sealed env db) (.integrity "MIGRATION_LEDGER_SEAL_INVALID")

/-! ## Applying -/

/-- Run one migration's SQL. -/
def executeSql (env : MigrationEnv) (sql : String) : MigrationTx Unit := do
  let db ← Tx.read
  Tx.ensure (env.succeeds db.executed sql) (.database "migration SQL failed")
  Tx.modify fun db => { db with executed := db.executed ++ [sql] }

/-- The ledger with one more row, under a new filename. -/
def MigrationLedger.add (ledger : MigrationLedger) (filename sha256 : String)
    (h : filename ∉ ledger.rows.map Prod.fst) : MigrationLedger :=
  { ledger with
    rows := ledger.rows ++ [(filename, some sha256)]
    key := by
      rw [List.map_append, List.map_cons, List.map_nil]
      exact ledger.key.append (List.nodup_singleton _) (by simpa using h) }

/-- `INSERT INTO nano_aural_schema_migrations (filename,sha256)`. The guard trigger, where there is
one, lets the migration runner insert and nobody else. -/
def insertLedgerRow (authorized : Bool) (filename sha256 : String) : MigrationTx Unit := do
  let ledger ← theLedger
  Tx.ensure (ledger.trigger.isNone || authorized)
    (.database "schema migration ledger rows require the migration runner")
  Tx.ensure (ledger.constraint.isNone || isSha256 sha256)
    (.database "check constraint nano_aural_schema_migrations_sha256_format is violated")
  if h : filename ∈ ledger.rows.map Prod.fst then
    Tx.fail (.database "duplicate key value violates unique constraint")
  else setLedger (ledger.add filename sha256 h)

/-- The loop over the pending sources. -/
def runPending (env : MigrationEnv) (authorized : Bool) : List MigrationSource → MigrationTx Unit
  | [] => pure ()
  | source :: rest => do
      executeSql env source.sql
      insertLedgerRow authorized source.filename source.sha256
      runPending env authorized rest

/-- The transaction of `apply_postgres_migrations`. -/
def applyBody (env : MigrationEnv) (sources : List MigrationSource) : MigrationTx Unit := do
  prepareLedger
  let rows ← ledgerRows
  Tx.lift (validateSealedRows sources rows)
  if rows.isEmpty then do
    let present ← sealObjectsPresent
    Tx.ensure (!present) (.integrity "MIGRATION_LEDGER_SEAL_CONFLICT")
    runPending env false sources
    installLedgerSeal env
    verifyLedgerSeal env
  else do
    verifyLedgerSeal env
    runPending env true (sources.drop rows.length)
    verifyLedgerSeal env

/-- `apply_postgres_migrations`. -/
def applyPostgresMigrations (env : MigrationEnv) (directory : List (String × ByteArray))
    (db : MigrationDb) : Except MigrationError Unit × MigrationDb :=
  match migrationSources env directory with
  | .error e => (.error e, db)
  | .ok sources => atomically (applyBody env sources) db

/-! ## Verifying -/

/-- The transaction of `verify_postgres_migrations`. -/
def verifyBody (env : MigrationEnv) (sources : List MigrationSource) : MigrationTx Unit := do
  let db ← Tx.read
  let ledger ← Tx.orFail db.ledger (.integrity "MIGRATION_LEDGER_MISSING")
  Tx.ensure ledger.digestColumn (.integrity "MIGRATION_LEGACY_CHECKSUMS_REQUIRED")
  let rows ← ledgerRows
  Tx.lift (validateSealedRows sources rows)
  Tx.ensure (rows.length == sources.length) (.integrity "MIGRATION_PENDING")
  verifyLedgerSeal env

/-- `verify_postgres_migrations`. -/
def verifyPostgresMigrations (env : MigrationEnv) (directory : List (String × ByteArray))
    (db : MigrationDb) : Except MigrationError Unit × MigrationDb :=
  match migrationSources env directory with
  | .error e => (.error e, db)
  | .ok sources => atomically (verifyBody env sources) db

/-! ## Adopting -/

/-- `UPDATE ... SET sha256=%s WHERE filename=%s AND sha256 IS NULL`, with its row count. -/
def adoptRow (source : MigrationSource) : MigrationTx Nat := do
  let ledger ← theLedger
  let matching := fun (row : String × Option String) => row.1 == source.filename && row.2.isNone
  let adopt := fun (row : String × Option String) =>
    if matching row then (row.1, some source.sha256) else row
  setLedger { ledger with
    rows := ledger.rows.map adopt
    -- the filenames, which are the key, stay as they are
    key := by
      have hfst : Prod.fst ∘ adopt = Prod.fst := by
        funext row
        show (adopt row).1 = row.1
        dsimp only [adopt]
        split <;> rfl
      rw [List.map_map, hfst]
      exact ledger.key }
  pure (ledger.rows.countP matching)

/-- The loop of the adoption. -/
def adoptRows (trusted : List (String × String)) :
    List (MigrationSource × String × Option String) → MigrationTx Unit
  | [] => pure ()
  | (source, _, digest) :: rest => do
      let expected ← Tx.orFail (trusted.lookup source.filename) (.database "KeyError")
      Tx.ensure (expected == source.sha256) (.integrity "MIGRATION_ADOPTION_TRUST_MISMATCH")
      Tx.ensure (digest.all (· == source.sha256)) (.integrity "MIGRATION_CHECKSUM_MISMATCH")
      if digest.isNone then do
        let changed ← adoptRow source
        Tx.ensure (changed == 1) (.integrity "MIGRATION_ADOPTION_CONCURRENT_CHANGE")
        adoptRows trusted rest
      else adoptRows trusted rest

/-- The transaction of `adopt_legacy_postgres_migration_checksums`. -/
def adoptBody (env : MigrationEnv) (trusted : List (String × String))
    (sources : List MigrationSource) : MigrationTx Unit := do
  prepareLedger
  let rows ← ledgerRows
  Tx.lift (validatePrefix sources rows)
  Tx.ensure (!rows.isEmpty) (.integrity "MIGRATION_ADOPTION_NOT_REQUIRED")
  Tx.ensure (trusted.all (fun entry => (rows.map Prod.fst).contains entry.1)
      && rows.all fun row => (trusted.map Prod.fst).contains row.1)
    (.integrity "MIGRATION_ADOPTION_MANIFEST_INCOMPLETE")
  let present ← sealObjectsPresent
  Tx.ensure (!present) (.integrity "MIGRATION_LEDGER_SEAL_CONFLICT")
  adoptRows trusted (sources.zip rows)
  installLedgerSeal env
  verifyLedgerSeal env

/-- `adopt_legacy_postgres_migration_checksums`; `trusted` is a mapping, by its items. -/
def adoptLegacyPostgresMigrationChecksums (env : MigrationEnv) (trusted : List (String × String))
    (directory : List (String × ByteArray)) (db : MigrationDb) :
    Except MigrationError Unit × MigrationDb :=
  if trusted.isEmpty || trusted.any (fun entry => !isMigrationName entry.1 || !isSha256 entry.2)
  then (.error (.integrity "MIGRATION_ADOPTION_MANIFEST_INVALID"), db)
  else
    match migrationSources env directory with
    | .error e => (.error e, db)
    | .ok sources => atomically (adoptBody env trusted sources) db

/-! ## Sequences of calls -/

inductive MigrationCall where
  | apply
  | verify
  | adopt (trusted : List (String × String))

def MigrationCall.run (env : MigrationEnv) (directory : List (String × ByteArray)) :
    MigrationCall → MigrationDb → Except MigrationError Unit × MigrationDb
  | .apply, db => applyPostgresMigrations env directory db
  | .verify, db => verifyPostgresMigrations env directory db
  | .adopt trusted, db => adoptLegacyPostgresMigrationChecksums env trusted directory db

/-- The database, and the largest source set so far. -/
structure MigrationRun where
  db : MigrationDb
  sources : List MigrationSource

/-- Calls in sequence, each with a source set that extends the ones before it. A directory that is
no source set may be given at any time: every call refuses it. -/
def migrationSystem (env : MigrationEnv) (db₀ : MigrationDb) : System MigrationRun where
  init run := run = ⟨db₀, []⟩
  step run run' := ∃ (call : MigrationCall) (directory : List (String × ByteArray)),
    (match migrationSources env directory with
      | .error _ => run'.sources = run.sources
      | .ok sources => run.sources <+: sources ∧ run'.sources = sources)
    ∧ run'.db = (call.run env directory run.db).2

end NanoAural
