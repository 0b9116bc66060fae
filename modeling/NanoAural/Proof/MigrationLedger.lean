import NanoAural.Durable.Migrations

/-!
# Every migration once, in order

`apply` runs the sources the ledger does not list, in their order, and leaves a
sealed ledger that lists them all; `adopt` runs nothing. What a sequence of calls
executes is then a segment of the largest source set: what one call left in the
ledger, the next one does not run again.
-/

namespace NanoAural

open Relational Machine

variable {env : MigrationEnv} {sources : List MigrationSource}

/-! ## Source sets -/

theorem mapM_filename : ∀ {entries : List (String × ByteArray)} {sources : List MigrationSource},
    entries.mapM (decodeSource env) = .ok sources →
      sources.map MigrationSource.filename = entries.map Prod.fst := by
  intro entries
  induction entries with
  | nil =>
      intro sources h
      obtain rfl := Except.ok.inj h
      rfl
  | cons entry rest ih =>
      intro sources h
      rw [List.mapM_cons] at h
      obtain ⟨source, hsource, h⟩ := except_bind_ok.mp h
      obtain ⟨decoded, hrest, h⟩ := except_bind_ok.mp h
      obtain rfl := Except.ok.inj h
      have hname : source.filename = entry.1 := by
        unfold decodeSource at hsource
        obtain ⟨_, hsource⟩ := raiseIf_bind_ok.mp hsource
        split at hsource
        · exact nomatch hsource
        · obtain ⟨_, hsource⟩ := raiseIf_bind_ok.mp hsource
          obtain rfl := Except.ok.inj hsource
          rfl
      rw [List.map_cons, List.map_cons, hname, ih hrest]

/-- **A source set is listed strictly by filename.** -/
theorem migrationSources_sorted {directory : List (String × ByteArray)}
    (h : migrationSources env directory = .ok sources) :
    (sources.map MigrationSource.filename).Pairwise (· < ·) := by
  unfold migrationSources at h
  obtain ⟨entries, hentries, h⟩ := except_bind_ok.mp h
  obtain ⟨_, h⟩ := raiseIf_bind_ok.mp h
  obtain ⟨hdistinct, h⟩ := raiseIf_bind_ok.mp h
  obtain ⟨_, h⟩ := raiseIf_bind_ok.mp h
  obtain rfl := Except.ok.inj h
  have hnodup : (entries.map MigrationSource.filename).Nodup := by simpa using hdistinct
  have hle : (entries.map MigrationSource.filename).Pairwise (· ≤ ·) := by
    rw [mapM_filename hentries]
    exact List.pairwise_map.mpr (orderBy_pairwise _ _)
  exact (hle.and hnodup).imp fun h => lt_of_le_of_ne h.1 h.2

/-! ## Rows -/

/-- The row of a source that has run. -/
def MigrationSource.row (source : MigrationSource) : String × Option String :=
  (source.filename, some source.sha256)

/-- The ledger's rows by filename; a missing ledger has none. -/
def MigrationDb.rows (db : MigrationDb) : List (String × Option String) :=
  match db.ledger with
  | none => []
  | some ledger => orderBy Prod.fst ledger.rows

theorem rows_of {db : MigrationDb} {ledger : MigrationLedger} (h : db.ledger = some ledger) :
    db.rows = orderBy Prod.fst ledger.rows := by
  unfold MigrationDb.rows
  rw [h]

theorem theLedger_bind {α : Type} {f : MigrationLedger → MigrationTx α} {db : MigrationDb}
    {r : α × MigrationDb} :
    (theLedger >>= f) db = .ok r ↔ ∃ ledger, db.ledger = some ledger ∧ f ledger db = .ok r := by
  unfold theLedger
  rw [Tx.bind_assoc, Tx.bind_eval (Tx.read_run db)]
  exact Tx.orFail_bind

theorem ledgerRows_bind {α : Type} {f : List (String × Option String) → MigrationTx α}
    {db : MigrationDb} {r : α × MigrationDb} (h : (ledgerRows >>= f) db = .ok r) :
    f db.rows db = .ok r := by
  unfold ledgerRows at h
  rw [Tx.bind_assoc] at h
  obtain ⟨ledger, hledger, h⟩ := theLedger_bind.mp h
  rw [rows_of hledger]
  exact h

theorem sealObjectsPresent_bind {α : Type} {f : Bool → MigrationTx α} {db : MigrationDb}
    {r : α × MigrationDb} (h : (sealObjectsPresent >>= f) db = .ok r) :
    ∃ present, f present db = .ok r := by
  unfold sealObjectsPresent at h
  rw [Tx.bind_assoc, Tx.bind_eval (Tx.read_run db), Tx.bind_assoc] at h
  obtain ⟨ledger, _, h⟩ := theLedger_bind.mp h
  exact ⟨_, h⟩

theorem verifyLedgerSeal_ok {db db' : MigrationDb} {u : Unit}
    (h : verifyLedgerSeal env db = .ok (u, db')) : db' = db ∧ sealed env db = true := by
  unfold verifyLedgerSeal at h
  rw [Tx.bind_eval (Tx.read_run db)] at h
  obtain ⟨hsealed, rfl⟩ := Tx.ensure_ok.mp h
  exact ⟨rfl, hsealed⟩

/-- Installing the seal executes nothing and keeps the rows. -/
theorem installLedgerSeal_ok {db db' : MigrationDb} {u : Unit}
    (h : installLedgerSeal env db = .ok (u, db')) :
    db'.executed = db.executed ∧ db'.rows = db.rows := by
  unfold installLedgerSeal at h
  obtain ⟨_, h⟩ := sealObjectsPresent_bind h
  obtain ⟨_, h⟩ := Tx.ensure_bind.mp h
  obtain ⟨ledger, hledger, h⟩ := theLedger_bind.mp h
  obtain ⟨_, h⟩ := Tx.ensure_bind.mp h
  obtain ⟨_, h⟩ := Tx.ensure_bind.mp h
  obtain ⟨_, s₁, h₁, h⟩ := Tx.bind_ok.mp h
  obtain ⟨_, rfl⟩ := Prod.mk.inj (Except.ok.inj h₁)
  obtain ⟨_, rfl⟩ := Prod.mk.inj (Except.ok.inj h)
  refine ⟨rfl, ?_⟩
  rw [rows_of hledger]
  rfl

/-- Preparing the ledger executes nothing and keeps the rows. -/
theorem prepareLedger_ok (db : MigrationDb) :
    ∃ db₁ ledger, prepareLedger db = .ok ((), db₁) ∧ db₁.ledger = some ledger
      ∧ db₁.executed = db.executed ∧ db₁.rows = db.rows := by
  refine ⟨_, _, rfl, rfl, rfl, ?_⟩
  rw [rows_of rfl]
  cases hledger : db.ledger with
  | none =>
      unfold MigrationDb.rows
      rw [hledger]
      rfl
  | some ledger =>
      rw [rows_of hledger]
      dsimp only
      split <;> rfl

theorem validatePrefix_ok {rows : List (String × Option String)}
    (h : validatePrefix sources rows = .ok ()) :
    rows.length ≤ sources.length
      ∧ rows.map Prod.fst = (sources.take rows.length).map MigrationSource.filename := by
  unfold validatePrefix raiseIf at h
  split at h
  · exact nomatch h
  · rename_i hc
    simpa using hc

theorem validateDigests_ok : ∀ {pairs : List (MigrationSource × String × Option String)},
    validateDigests pairs = .ok () → ∀ p ∈ pairs, p.2.2 = some p.1.sha256 := by
  intro pairs
  induction pairs with
  | nil => exact fun _ p hp => absurd hp (by simp)
  | cons pair rest ih =>
      obtain ⟨source, filename, digest⟩ := pair
      intro h
      cases digest with
      | none => exact nomatch h
      | some digest =>
          obtain ⟨hc, h⟩ := raiseIf_bind_ok.mp h
          simp only [Bool.or_eq_false_iff, bne_eq_false_iff_eq] at hc
          intro p hp
          rcases List.mem_cons.mp hp with rfl | hp
          · rw [hc.2]
          · exact ih h p hp

/-- Validated rows are those of the sources they are as many as. -/
theorem validateSealedRows_ok {rows : List (String × Option String)}
    (h : validateSealedRows sources rows = .ok ()) :
    rows = (sources.take rows.length).map MigrationSource.row := by
  unfold validateSealedRows at h
  obtain ⟨_, happlied, hdigests⟩ := except_bind_ok.mp h
  obtain ⟨hlength, hnames⟩ := validatePrefix_ok happlied
  have hdigest := validateDigests_ok hdigests
  refine List.ext_getElem (by simp; omega) fun i hi hi' => ?_
  rw [List.getElem_map, List.getElem_take]
  have hsource : i < sources.length := by omega
  have hname : rows[i].1 = sources[i].filename := by
    have := congrArg (fun l => l[i]?) hnames
    simpa [hi, hsource] using this
  have hpair : (sources[i], rows[i]) ∈ sources.zip rows :=
    List.mem_iff_getElem.mpr ⟨i, by simp; omega, by simp⟩
  exact Prod.ext hname (hdigest _ hpair)

/-! ## Running the pending sources -/

theorem executeSql_bind {α : Type} {sql : String} {f : Unit → MigrationTx α} {db : MigrationDb}
    {r : α × MigrationDb} (h : (executeSql env sql >>= f) db = .ok r) :
    f () { db with executed := db.executed ++ [sql] } = .ok r := by
  unfold executeSql at h
  rw [Tx.bind_assoc, Tx.bind_eval (Tx.read_run db), Tx.bind_assoc] at h
  obtain ⟨_, h⟩ := Tx.ensure_bind.mp h
  exact h

theorem insertLedgerRow_ok {authorized : Bool} {filename sha256 : String} {db db' : MigrationDb}
    {u : Unit} (h : insertLedgerRow authorized filename sha256 db = .ok (u, db')) :
    ∃ ledger ledger', db.ledger = some ledger ∧ db'.ledger = some ledger'
      ∧ ledger'.rows = ledger.rows ++ [(filename, some sha256)] ∧ db'.executed = db.executed := by
  unfold insertLedgerRow at h
  obtain ⟨ledger, hledger, h⟩ := theLedger_bind.mp h
  obtain ⟨_, h⟩ := Tx.ensure_bind.mp h
  obtain ⟨_, h⟩ := Tx.ensure_bind.mp h
  split at h
  · exact nomatch h
  · obtain ⟨_, rfl⟩ := Prod.mk.inj (Except.ok.inj h)
    exact ⟨ledger, _, hledger, rfl, rfl, rfl⟩

/-- **The loop runs every pending text once and in order**, and lists it. -/
theorem runPending_ok {authorized : Bool} : ∀ {pending : List MigrationSource}
    {db db' : MigrationDb} {ledger : MigrationLedger} {u : Unit}, db.ledger = some ledger →
    runPending env authorized pending db = .ok (u, db') →
    ∃ ledger', db'.ledger = some ledger'
      ∧ ledger'.rows = ledger.rows ++ pending.map MigrationSource.row
      ∧ db'.executed = db.executed ++ pending.map MigrationSource.sql := by
  intro pending
  induction pending with
  | nil =>
      intro db db' ledger u hledger h
      obtain ⟨_, rfl⟩ := Prod.mk.inj (Except.ok.inj h)
      exact ⟨ledger, hledger, by simp, by simp⟩
  | cons source rest ih =>
      intro db db' ledger u hledger h
      unfold runPending at h
      replace h := executeSql_bind h
      obtain ⟨_, db₁, hinsert, h⟩ := Tx.bind_ok.mp h
      obtain ⟨l, l₁, hl, hl₁, hrows, hexecuted⟩ := insertLedgerRow_ok hinsert
      obtain rfl : ledger = l := Option.some.inj (hledger.symm.trans hl)
      obtain ⟨ledger', hledger', hrows', hexecuted'⟩ := ih hl₁ h
      refine ⟨ledger', hledger', ?_, ?_⟩
      · rw [hrows', hrows, List.append_assoc]
        rfl
      · rw [hexecuted', hexecuted, List.map_cons, List.append_assoc]
        rfl

/-! ## The three calls -/

/-- What an application does: the sources the ledger does not list, and the ledger that lists
them. -/
def Migrated (env : MigrationEnv) (sources : List MigrationSource) (db db' : MigrationDb) : Prop :=
  db.rows = (sources.take db.rows.length).map MigrationSource.row
    ∧ db'.executed = db.executed ++ (sources.drop db.rows.length).map MigrationSource.sql
    ∧ db'.rows = sources.map MigrationSource.row ∧ sealed env db' = true

/-- What an adoption does: no text runs, and the rows, each under a trusted digest, are sealed. -/
def Adopted (env : MigrationEnv) (trusted : List (String × String))
    (sources : List MigrationSource) (db db' : MigrationDb) : Prop :=
  (∀ row ∈ db.rows, ∃ source ∈ sources, source.filename = row.1
      ∧ trusted.lookup row.1 = some source.sha256)
    ∧ db.rows.map Prod.fst = (sources.take db.rows.length).map MigrationSource.filename
    ∧ db'.executed = db.executed
    ∧ db'.rows = (sources.take db.rows.length).map MigrationSource.row ∧ sealed env db' = true

/-- The ledger's rows before and the pending ones are the rows of all sources. -/
theorem rows_pending {db : MigrationDb} {ledger ledger' : MigrationLedger}
    (hsorted : (sources.map MigrationSource.filename).Pairwise (· < ·))
    (hledger : db.ledger = some ledger)
    (hrows : db.rows = (sources.take db.rows.length).map MigrationSource.row)
    (hrows' : ledger'.rows
      = ledger.rows ++ (sources.drop db.rows.length).map MigrationSource.row) :
    orderBy Prod.fst ledger'.rows = sources.map MigrationSource.row := by
  have hperm : ledger.rows.Perm ((sources.take db.rows.length).map MigrationSource.row) := by
    rw [← hrows, rows_of hledger]
    exact (orderBy_perm _ _).symm
  refine orderBy_eq ?_ ?_
  · rw [hrows']
    refine (hperm.append_right _).trans ?_
    rw [← List.map_append, List.take_append_drop]
  · rw [List.map_map]
    exact hsorted

/-- The loop over the pending sources, from a ledger that lists the ones before them. -/
theorem runPending_migrated {authorized : Bool} {db db₁ db₂ : MigrationDb}
    {ledger : MigrationLedger} {u : Unit}
    (hsorted : (sources.map MigrationSource.filename).Pairwise (· < ·))
    (hledger : db₁.ledger = some ledger) (hexecuted : db₁.executed = db.executed)
    (hrows : db₁.rows = db.rows)
    (happlied : db₁.rows = (sources.take db₁.rows.length).map MigrationSource.row)
    (h : runPending env authorized (sources.drop db₁.rows.length) db₁ = .ok (u, db₂)) :
    db.rows = (sources.take db.rows.length).map MigrationSource.row
      ∧ db₂.executed = db.executed ++ (sources.drop db.rows.length).map MigrationSource.sql
      ∧ db₂.rows = sources.map MigrationSource.row := by
  obtain ⟨ledger', hledger', hrows', hexecuted'⟩ := runPending_ok hledger h
  refine ⟨hrows ▸ happlied, ?_, ?_⟩
  · rw [hexecuted', hexecuted, hrows]
  · rw [rows_of hledger', rows_pending hsorted hledger happlied hrows']

theorem applyBody_ok {db db' : MigrationDb} {u : Unit}
    (hsorted : (sources.map MigrationSource.filename).Pairwise (· < ·))
    (h : applyBody env sources db = .ok (u, db')) : Migrated env sources db db' := by
  unfold applyBody at h
  obtain ⟨db₁, ledger, hprepare, hledger, hexecuted, hrows⟩ := prepareLedger_ok db
  rw [Tx.bind_eval hprepare] at h
  replace h := ledgerRows_bind h
  obtain ⟨_, hvalid, h⟩ := Tx.lift_bind.mp h
  have happlied := validateSealedRows_ok hvalid
  split at h
  · rename_i hempty
    -- nothing is listed: every source is pending, and the seal is installed last
    have hnone : db₁.rows.length = 0 := by simpa using hempty
    obtain ⟨_, h⟩ := sealObjectsPresent_bind h
    obtain ⟨_, h⟩ := Tx.ensure_bind.mp h
    obtain ⟨_, db₂, hrun, h⟩ := Tx.bind_ok.mp h
    obtain ⟨_, db₃, hinstall, h⟩ := Tx.bind_ok.mp h
    obtain ⟨rfl, hsealed⟩ := verifyLedgerSeal_ok h
    obtain ⟨hexecuted₃, hrows₃⟩ := installLedgerSeal_ok hinstall
    obtain ⟨hlisted, htexts, hall⟩ := runPending_migrated hsorted hledger hexecuted hrows happlied
      (by rw [hnone, List.drop_zero]; exact hrun)
    exact ⟨hlisted, hexecuted₃.trans htexts, hrows₃.trans hall, hsealed⟩
  · obtain ⟨_, db₂, hverify, h⟩ := Tx.bind_ok.mp h
    obtain ⟨rfl, _⟩ := verifyLedgerSeal_ok hverify
    obtain ⟨_, db₃, hrun, h⟩ := Tx.bind_ok.mp h
    obtain ⟨rfl, hsealed⟩ := verifyLedgerSeal_ok h
    obtain ⟨hlisted, htexts, hall⟩ :=
      runPending_migrated hsorted hledger hexecuted hrows happlied hrun
    exact ⟨hlisted, htexts, hall, hsealed⟩

/-- **Apply.** It raises and changes nothing, or migrates. -/
theorem apply_migrates (env : MigrationEnv) (directory : List (String × ByteArray))
    (db : MigrationDb) :
    (∃ e, applyPostgresMigrations env directory db = (.error e, db))
      ∨ ∃ sources db', migrationSources env directory = .ok sources
        ∧ applyPostgresMigrations env directory db = (.ok (), db')
        ∧ Migrated env sources db db' := by
  unfold applyPostgresMigrations
  cases hsources : migrationSources env directory with
  | error e => exact .inl ⟨e, rfl⟩
  | ok sources =>
      rcases atomically_cases (applyBody env sources) db with ⟨e, h⟩ | ⟨_, db', hbody, h⟩
      · exact .inl ⟨e, h⟩
      · exact .inr ⟨sources, db', rfl, h, applyBody_ok (migrationSources_sorted hsources) hbody⟩

/-- **Verify.** It reads. -/
theorem verify_unchanged (env : MigrationEnv) (directory : List (String × ByteArray))
    (db : MigrationDb) : (verifyPostgresMigrations env directory db).2 = db := by
  unfold verifyPostgresMigrations
  cases migrationSources env directory with
  | error e => rfl
  | ok sources =>
      show (atomically (verifyBody env sources) db).2 = db
      rcases atomically_cases (verifyBody env sources) db with ⟨e, h⟩ | ⟨_, db', hbody, h⟩
      · rw [h]
      · rw [h]
        unfold verifyBody at hbody
        rw [Tx.bind_eval (Tx.read_run db)] at hbody
        obtain ⟨ledger, _, hbody⟩ := Tx.orFail_bind.mp hbody
        obtain ⟨_, hbody⟩ := Tx.ensure_bind.mp hbody
        replace hbody := ledgerRows_bind hbody
        obtain ⟨_, _, hbody⟩ := Tx.lift_bind.mp hbody
        obtain ⟨_, hbody⟩ := Tx.ensure_bind.mp hbody
        exact (verifyLedgerSeal_ok hbody).1

/-! ## Adoption -/

/-- What adopting one source makes of a row. -/
def adopted (source : MigrationSource) (row : String × Option String) : String × Option String :=
  if row.1 == source.filename && row.2.isNone then (row.1, some source.sha256) else row

@[simp] theorem adopted_fst (source : MigrationSource) (row : String × Option String) :
    (adopted source row).1 = row.1 := by
  unfold adopted
  split <;> rfl

theorem adoptRow_ok {source : MigrationSource} {db db' : MigrationDb} {n : Nat}
    (h : adoptRow source db = .ok (n, db')) :
    ∃ ledger ledger', db.ledger = some ledger ∧ db'.ledger = some ledger'
      ∧ ledger'.rows = ledger.rows.map (adopted source) ∧ db'.executed = db.executed := by
  unfold adoptRow at h
  obtain ⟨ledger, hledger, h⟩ := theLedger_bind.mp h
  obtain ⟨_, rfl⟩ := Prod.mk.inj (Except.ok.inj h)
  exact ⟨ledger, _, hledger, rfl, rfl, rfl⟩

/-- What the loop of the adoption makes of a row. -/
def settled (pairs : List (MigrationSource × String × Option String))
    (row : String × Option String) : String × Option String :=
  pairs.foldl (fun row p => if p.2.2.isNone then adopted p.1 row else row) row

theorem adopted_other {source : MigrationSource} {row : String × Option String}
    (h : row.1 ≠ source.filename) : adopted source row = row := by
  unfold adopted
  rw [if_neg (by simp [h])]

theorem settled_cons_other {p : MigrationSource × String × Option String}
    {pairs : List (MigrationSource × String × Option String)} {row : String × Option String}
    (h : row.1 ≠ p.1.filename) : settled (p :: pairs) row = settled pairs row := by
  unfold settled
  rw [List.foldl_cons, adopted_other h, ite_self]

theorem settled_other {pairs : List (MigrationSource × String × Option String)}
    {row : String × Option String} (h : ∀ p ∈ pairs, row.1 ≠ p.1.filename) :
    settled pairs row = row := by
  induction pairs with
  | nil => rfl
  | cons p rest ih =>
      rw [settled_cons_other (h p (by simp))]
      exact ih fun q hq => h q (by simp [hq])

/-- A listed row ends as its source's row. -/
theorem settled_listed {pairs : List (MigrationSource × String × Option String)}
    {source : MigrationSource} {row : String × Option String}
    (hdistinct : (pairs.map fun p => p.1.filename).Nodup) (hmem : (source, row) ∈ pairs)
    (hname : row.1 = source.filename) (hdigest : row.2.all (· == source.sha256) = true) :
    settled pairs row = source.row := by
  induction pairs with
  | nil => exact absurd hmem (by simp)
  | cons p rest ih =>
      rw [List.map_cons, List.nodup_cons] at hdistinct
      rcases List.mem_cons.mp hmem with rfl | hmem
      · -- the row's own pair: it is settled here, and no later pair has its name
        have hrest : ∀ q ∈ rest, source.row.1 ≠ q.1.filename := fun q hq he =>
          hdistinct.1 (List.mem_map.mpr ⟨q, hq, he.symm⟩)
        have hstep : (if row.2.isNone then adopted source row else row) = source.row := by
          obtain ⟨name, digest⟩ := row
          subst hname
          cases digest with
          | none => simp [adopted, MigrationSource.row]
          | some digest =>
              obtain rfl : digest = source.sha256 := by simpa using hdigest
              rfl
        unfold settled
        rw [List.foldl_cons, hstep]
        exact settled_other hrest
      · have hne : row.1 ≠ p.1.filename := fun he =>
          hdistinct.1 (List.mem_map.mpr ⟨_, hmem, hname.symm.trans he⟩)
        rw [settled_cons_other hne]
        exact ih hdistinct.2 hmem

theorem adoptRows_ok {trusted : List (String × String)} :
    ∀ {pairs : List (MigrationSource × String × Option String)} {db db' : MigrationDb}
      {ledger : MigrationLedger} {u : Unit}, db.ledger = some ledger →
      adoptRows trusted pairs db = .ok (u, db') →
      (∀ p ∈ pairs, trusted.lookup p.1.filename = some p.1.sha256
          ∧ p.2.2.all (· == p.1.sha256) = true)
        ∧ ∃ ledger', db'.ledger = some ledger' ∧ ledger'.rows = ledger.rows.map (settled pairs)
          ∧ db'.executed = db.executed := by
  intro pairs
  induction pairs with
  | nil =>
      intro db db' ledger u hledger h
      obtain ⟨_, rfl⟩ := Prod.mk.inj (Except.ok.inj h)
      exact ⟨fun p hp => absurd hp (by simp), ledger, hledger,
        (List.map_id ledger.rows).symm, rfl⟩
  | cons p rest ih =>
      obtain ⟨source, name, digest⟩ := p
      intro db db' ledger u hledger h
      unfold adoptRows at h
      obtain ⟨expected, htrusted, h₁⟩ := Tx.orFail_bind.mp h
      obtain ⟨hexpected, h₂⟩ := Tx.ensure_bind.mp h₁
      obtain ⟨hdigest, h₃⟩ := Tx.ensure_bind.mp h₂
      obtain rfl : expected = source.sha256 := by simpa using hexpected
      clear h h₁ h₂
      -- a row without a digest is given one, a row with one must agree
      cases digest with
      | none =>
          change (adoptRow source >>= _) db = _ at h₃
          obtain ⟨n, db₁, hadopt, h⟩ := Tx.bind_ok.mp h₃
          obtain ⟨_, h⟩ := Tx.ensure_bind.mp h
          obtain ⟨l, l₁, hl, hl₁, hrows₁, hexecuted₁⟩ := adoptRow_ok hadopt
          obtain rfl : ledger = l := Option.some.inj (hledger.symm.trans hl)
          obtain ⟨hrest, l', hl', hrows', hexecuted'⟩ := ih hl₁ h
          refine ⟨fun p hp => ?_, l', hl', ?_, hexecuted'.trans hexecuted₁⟩
          · rcases List.mem_cons.mp hp with rfl | hp
            · exact ⟨htrusted, hdigest⟩
            · exact hrest p hp
          · rw [hrows', hrows₁, List.map_map]
            rfl
      | some digest =>
          change adoptRows trusted rest db = _ at h₃
          obtain ⟨hrest, l', hl', hrows', hexecuted'⟩ := ih hledger h₃
          refine ⟨fun p hp => ?_, l', hl', hrows', hexecuted'⟩
          rcases List.mem_cons.mp hp with rfl | hp
          · exact ⟨htrusted, hdigest⟩
          · exact hrest p hp

theorem adoptBody_ok {trusted : List (String × String)} {db db' : MigrationDb} {u : Unit}
    (hsorted : (sources.map MigrationSource.filename).Pairwise (· < ·))
    (h : adoptBody env trusted sources db = .ok (u, db')) :
    Adopted env trusted sources db db' := by
  unfold adoptBody at h
  obtain ⟨db₁, ledger, hprepare, hledger, hexecuted, hrows⟩ := prepareLedger_ok db
  rw [Tx.bind_eval hprepare] at h
  replace h := ledgerRows_bind h
  obtain ⟨_, happlied, h⟩ := Tx.lift_bind.mp h
  obtain ⟨_, h⟩ := Tx.ensure_bind.mp h
  obtain ⟨_, h⟩ := Tx.ensure_bind.mp h
  obtain ⟨_, h⟩ := sealObjectsPresent_bind h
  obtain ⟨_, h⟩ := Tx.ensure_bind.mp h
  obtain ⟨_, db₂, hadopt, h⟩ := Tx.bind_ok.mp h
  obtain ⟨_, db₃, hinstall, h⟩ := Tx.bind_ok.mp h
  obtain ⟨rfl, hsealed⟩ := verifyLedgerSeal_ok h
  obtain ⟨hexecuted₃, hrows₃⟩ := installLedgerSeal_ok hinstall
  obtain ⟨htrusted, ledger', hledger', hrows', hexecuted'⟩ := adoptRows_ok hledger hadopt
  obtain ⟨hlength, hnames⟩ := validatePrefix_ok happlied
  rw [hrows] at hlength hnames htrusted hrows'
  have hpair : ∀ (i : Nat) (hi : i < db.rows.length) (hs : i < sources.length),
      (sources[i], db.rows[i]) ∈ sources.zip db.rows := fun i hi hs =>
    List.mem_iff_getElem.mpr ⟨i, by simp; omega, by simp⟩
  have hname : ∀ (i : Nat) (hi : i < db.rows.length) (hs : i < sources.length),
      db.rows[i].1 = sources[i].filename := fun i hi hs => by
    have := congrArg (fun l => l[i]?) hnames
    simpa [hi, hs] using this
  have hdistinct : ((sources.zip db.rows).map fun p => p.1.filename).Nodup := by
    have hfst : (sources.zip db.rows).map (fun p => p.1.filename)
        = (sources.take db.rows.length).map MigrationSource.filename := by
      refine List.ext_getElem (by simp [hlength]) fun i hi hi' => ?_
      simp
    rw [hfst]
    exact (hsorted.imp fun h => h.ne).sublist ((List.take_sublist _ _).map _)
  -- the settled rows are those of the first sources
  have hsettled : db.rows.map (settled (sources.zip db.rows))
      = (sources.take db.rows.length).map MigrationSource.row := by
    refine List.ext_getElem (by simp; omega) fun i hi hi' => ?_
    have hrow : i < db.rows.length := by simpa using hi
    have hsource : i < sources.length := by omega
    rw [List.getElem_map, List.getElem_map, List.getElem_take]
    have hmem := hpair i hrow hsource
    exact settled_listed hdistinct hmem (hname i hrow hsource) (htrusted _ hmem).2
  refine ⟨fun row hrow => ?_, hnames, hexecuted₃.trans (hexecuted'.trans hexecuted), ?_, hsealed⟩
  · obtain ⟨i, hi, rfl⟩ := List.mem_iff_getElem.mp hrow
    have hs : i < sources.length := by omega
    refine ⟨sources[i], List.getElem_mem hs, (hname i hi hs).symm, ?_⟩
    rw [hname i hi hs]
    exact (htrusted _ (hpair i hi hs)).1
  · rw [hrows₃, rows_of hledger']
    refine orderBy_eq ?_ ?_
    · rw [hrows', ← hsettled]
      refine List.Perm.map _ ?_
      rw [← hrows, rows_of hledger]
      exact (orderBy_perm _ _).symm
    · rw [List.map_map]
      exact (hsorted.sublist ((List.take_sublist _ _).map _))

/-- **Adopt.** It raises and changes nothing, or seals the rows it was given digests for. -/
theorem adopt_seals (env : MigrationEnv) (trusted : List (String × String))
    (directory : List (String × ByteArray)) (db : MigrationDb) :
    (∃ e, adoptLegacyPostgresMigrationChecksums env trusted directory db = (.error e, db))
      ∨ ∃ sources db', migrationSources env directory = .ok sources
        ∧ adoptLegacyPostgresMigrationChecksums env trusted directory db = (.ok (), db')
        ∧ Adopted env trusted sources db db' := by
  unfold adoptLegacyPostgresMigrationChecksums
  split
  · exact .inl ⟨_, rfl⟩
  · cases hsources : migrationSources env directory with
    | error e => exact .inl ⟨e, rfl⟩
    | ok sources =>
        rcases atomically_cases (adoptBody env trusted sources) db with ⟨e, h⟩ | ⟨_, db', hbody, h⟩
        · exact .inl ⟨e, h⟩
        · exact .inr ⟨sources, db', rfl, h, adoptBody_ok (migrationSources_sorted hsources) hbody⟩

/-! ## Sequences of calls -/

/-- What a run has executed since `db₀`: the sources of one set, from the first that `db₀` did not
list; and the ledger lists them all. -/
def Executed (db₀ : MigrationDb) (run : MigrationRun) : Prop :=
  (run.db.rows.map Prod.fst = db₀.rows.map Prod.fst ∧ run.db.executed = db₀.executed)
    ∨ ∃ applied, applied <+: run.sources ∧ db₀.rows.length ≤ applied.length
      ∧ run.db.rows.map Prod.fst = applied.map MigrationSource.filename
      ∧ run.db.executed
        = db₀.executed ++ (applied.drop db₀.rows.length).map MigrationSource.sql

theorem executed_unchanged {db₀ : MigrationDb} {run run' : MigrationRun}
    (h : Executed db₀ run) (hsources : run.sources <+: run'.sources)
    (hrows : run'.db.rows.map Prod.fst = run.db.rows.map Prod.fst)
    (hexecuted : run'.db.executed = run.db.executed) : Executed db₀ run' := by
  rcases h with ⟨hsame, htexts⟩ | ⟨applied, hpre, hlength, hsame, htexts⟩
  · exact .inl ⟨hrows.trans hsame, hexecuted.trans htexts⟩
  · exact .inr ⟨applied, hpre.trans hsources, hlength, hrows.trans hsame,
      hexecuted.trans htexts⟩

theorem executed_apply {db₀ db' : MigrationDb} {run : MigrationRun}
    (h : Executed db₀ run) (hsources : run.sources <+: sources)
    (hmigrated : Migrated env sources run.db db') : Executed db₀ ⟨db', sources⟩ := by
  obtain ⟨happlied, htexts, hall, _⟩ := hmigrated
  have hcount : run.db.rows.length ≤ sources.length := by
    have := congrArg List.length happlied
    rw [List.length_map, List.length_take] at this
    omega
  have hnames : db'.rows.map Prod.fst = sources.map MigrationSource.filename := by
    rw [hall, List.map_map]
    rfl
  rcases h with ⟨hsame, hnone⟩ | ⟨applied, hpre, hlength, hsame, hsome⟩
  · have hcounts : run.db.rows.length = db₀.rows.length := by
      simpa using congrArg List.length hsame
    refine .inr ⟨sources, List.prefix_rfl, by omega, hnames, ?_⟩
    rw [htexts, hnone, hcounts]
  · have hcounts : run.db.rows.length = applied.length := by
      simpa using congrArg List.length hsame
    refine .inr ⟨sources, List.prefix_rfl, by omega, hnames, ?_⟩
    -- what ran before and what ran now are adjacent segments of the sources
    obtain ⟨rest, rfl⟩ := hpre.trans hsources
    rw [htexts, hsome, hcounts, List.drop_left, List.drop_append_of_le_length hlength,
      List.map_append, List.append_assoc]

theorem executed_step {db₀ : MigrationDb} {run run' : MigrationRun} (h : Executed db₀ run)
    (hstep : (migrationSystem env db₀).step run run') : Executed db₀ run' := by
  obtain ⟨call, directory, hsources, hdb⟩ := hstep
  have hgrows : run.sources <+: run'.sources := by
    split at hsources
    · exact hsources ▸ List.prefix_rfl
    · rw [hsources.2]
      exact hsources.1
  have hstay : (call.run env directory run.db).2 = run.db → Executed db₀ run' := fun hsame =>
    executed_unchanged h hgrows (by rw [hdb, hsame]) (by rw [hdb, hsame])
  cases call with
  | verify => exact hstay (verify_unchanged env directory run.db)
  | apply =>
      rcases apply_migrates env directory run.db with ⟨e, hrun⟩ | ⟨sources, db', hset, hrun, hdone⟩
      · exact hstay (by show (applyPostgresMigrations _ _ _).2 = _; rw [hrun])
      · rw [hset] at hsources
        obtain rfl : run'.db = db' := hdb.trans
          (show (applyPostgresMigrations _ _ _).2 = db' by rw [hrun])
        have := executed_apply h hsources.1 hdone
        rwa [← hsources.2] at this
  | adopt trusted =>
      rcases adopt_seals env trusted directory run.db with
        ⟨e, hrun⟩ | ⟨sources, db', _, hrun, _, hnames, hexecuted, hrows, _⟩
      · exact hstay (by show (adoptLegacyPostgresMigrationChecksums _ _ _ _).2 = _; rw [hrun])
      · obtain rfl : run'.db = db' := hdb.trans
          (show (adoptLegacyPostgresMigrationChecksums _ _ _ _).2 = db' by rw [hrun])
        refine executed_unchanged h hgrows ?_ hexecuted
        rw [hrows, hnames, List.map_map]
        rfl

/-- An application is a step of a run. -/
theorem apply_step {db₀ : MigrationDb} {directory : List (String × ByteArray)} (db : MigrationDb)
    (before : List MigrationSource) (hset : migrationSources env directory = .ok sources)
    (hgrows : before <+: sources) : (migrationSystem env db₀).step ⟨db, before⟩
      ⟨(applyPostgresMigrations env directory db).2, sources⟩ := by
  refine ⟨.apply, directory, ?_, rfl⟩
  rw [hset]
  exact ⟨hgrows, rfl⟩

theorem executed_reachable {db₀ : MigrationDb} {run : MigrationRun}
    (h : (migrationSystem env db₀).Reachable run) : Executed db₀ run := by
  refine System.Reachable.invariant (fun run hinit => ?_) (fun run run' _ h hstep => ?_) h
  · obtain rfl : run = ⟨db₀, []⟩ := hinit
    exact .inl ⟨rfl, rfl⟩
  · exact executed_step h hstep

/-- The largest source set of a run is listed strictly by filename. -/
theorem sources_reachable {db₀ : MigrationDb} {run : MigrationRun}
    (h : (migrationSystem env db₀).Reachable run) :
    (run.sources.map MigrationSource.filename).Pairwise (· < ·) := by
  refine System.Reachable.invariant
    (I := fun run => (run.sources.map MigrationSource.filename).Pairwise (· < ·))
    (fun run hinit => ?_) (fun run run' _ h hstep => ?_) h
  · obtain rfl : run = ⟨db₀, []⟩ := hinit
    exact List.Pairwise.nil
  · obtain ⟨_, directory, hsources, _⟩ := hstep
    split at hsources
    · rw [hsources]
      exact h
    · rename_i hset
      rw [hsources.2]
      exact migrationSources_sorted hset

/-- **Ordered, exactly-once migrations.** For every state of the database: apply raises and changes
nothing, or runs the pending sources in order and leaves a sealed ledger of them all, over rows that
all carried their source's digest; adopt raises and changes nothing, or runs no text and seals rows
that were all given their source's digest; verify changes nothing. What a sequence of calls over a
growing source set runs is a segment of it: no source twice, and so no text twice unless two sources
hold it. -/
theorem migrations_exactly_once (env : MigrationEnv) :
    (∀ directory db, (∃ e, applyPostgresMigrations env directory db = (.error e, db))
      ∨ ∃ sources db', migrationSources env directory = .ok sources
        ∧ applyPostgresMigrations env directory db = (.ok (), db')
        ∧ Migrated env sources db db')
    ∧ (∀ trusted directory db,
      (∃ e, adoptLegacyPostgresMigrationChecksums env trusted directory db = (.error e, db))
        ∨ ∃ sources db', migrationSources env directory = .ok sources
          ∧ adoptLegacyPostgresMigrationChecksums env trusted directory db = (.ok (), db')
          ∧ Adopted env trusted sources db db')
    ∧ (∀ directory db, (verifyPostgresMigrations env directory db).2 = db)
    ∧ ∀ db₀ run, (migrationSystem env db₀).Reachable run →
      ∃ applied, applied <+: run.sources ∧ (applied.map MigrationSource.filename).Nodup
        ∧ run.db.executed
          = db₀.executed ++ (applied.drop db₀.rows.length).map MigrationSource.sql
        ∧ ((run.sources.map MigrationSource.sql).Nodup →
          ((applied.drop db₀.rows.length).map MigrationSource.sql).Nodup) := by
  refine ⟨apply_migrates env, adopt_seals env, verify_unchanged env, fun db₀ run h => ?_⟩
  rcases executed_reachable h with ⟨_, hnone⟩ | ⟨applied, hpre, _, _, hsome⟩
  · exact ⟨[], List.nil_prefix, List.nodup_nil, by simpa using hnone, by simp⟩
  · have hdistinct := (sources_reachable h).imp fun h => h.ne
    refine ⟨applied, hpre, hdistinct.sublist (hpre.sublist.map _), hsome, fun hsql => ?_⟩
    exact hsql.sublist (((List.drop_sublist _ _).trans hpre.sublist).map _)

/-! ## A fresh database migrates -/

theorem theLedger_eval {α : Type} {f : MigrationLedger → MigrationTx α} {db : MigrationDb}
    (ledger : MigrationLedger) (h : db.ledger = some ledger) :
    (theLedger >>= f) db = f ledger db := by
  unfold theLedger
  rw [Tx.bind_assoc, Tx.bind_eval (Tx.read_run db)]
  exact Tx.orFail_eval h

/-- A ledger no seal object guards. -/
structure Unsealed (ledger : MigrationLedger) : Prop where
  constraint : ledger.constraint = none
  trigger : ledger.trigger = none
  text : ledger.digestIsText = true
  writes : ledger.otherWrites = false

/-- An unsealed ledger takes new rows from anyone. -/
theorem runPending_fresh (hrun : ∀ texts sql, env.succeeds texts sql = true) :
    ∀ (pending : List MigrationSource) {ledger : MigrationLedger} (texts : List String),
    Unsealed ledger →
    ((ledger.rows.map Prod.fst) ++ pending.map MigrationSource.filename).Nodup →
    ∃ ledger', runPending env false pending ⟨some ledger, [], false, texts⟩
        = .ok ((), ⟨some ledger', [], false, texts ++ pending.map MigrationSource.sql⟩)
      ∧ Unsealed ledger' ∧ ledger'.rows = ledger.rows ++ pending.map MigrationSource.row := by
  intro pending
  induction pending with
  | nil =>
      intro ledger texts hunsealed _
      exact ⟨ledger, by rw [List.map_nil, List.append_nil]; rfl, hunsealed, by simp⟩
  | cons source rest ih =>
      intro ledger texts hunsealed hnodup
      have hfresh : source.filename ∉ ledger.rows.map Prod.fst := fun hmem =>
        (List.nodup_append.mp hnodup).2.2 _ hmem _ (by simp) rfl
      have hexecute : executeSql env source.sql ⟨some ledger, [], false, texts⟩
          = .ok ((), ⟨some ledger, [], false, texts ++ [source.sql]⟩) := by
        unfold executeSql
        rw [Tx.bind_eval (Tx.read_run _), Tx.ensure_eval (hrun _ _)]
        rfl
      have hinsert : insertLedgerRow false source.filename source.sha256
            ⟨some ledger, [], false, texts ++ [source.sql]⟩
          = .ok ((), ⟨some (ledger.add source.filename source.sha256 hfresh), [], false,
              texts ++ [source.sql]⟩) := by
        unfold insertLedgerRow
        rw [theLedger_eval ledger rfl, Tx.ensure_eval (by simp [hunsealed.trigger]),
          Tx.ensure_eval (by simp [hunsealed.constraint]), dif_neg hfresh]
        rfl
      obtain ⟨ledger', hrest, hunsealed', hrows⟩ := ih (texts ++ [source.sql])
        (show Unsealed (ledger.add source.filename source.sha256 hfresh) from ⟨hunsealed.constraint, hunsealed.trigger, hunsealed.text, hunsealed.writes⟩)
        (by simpa [MigrationLedger.add] using hnodup)
      unfold runPending
      rw [Tx.bind_eval hexecute, Tx.bind_eval hinsert, hrest]
      exact ⟨ledger', by simp, hunsealed', by
        simpa [MigrationLedger.add, MigrationSource.row] using hrows⟩

theorem sealObjectsPresent_fresh {ledger : MigrationLedger} {texts : List String}
    (h : Unsealed ledger) : sealObjectsPresent ⟨some ledger, [], false, texts⟩
      = .ok (false, ⟨some ledger, [], false, texts⟩) := by
  unfold sealObjectsPresent
  rw [Tx.bind_eval (Tx.read_run _), theLedger_eval ledger rfl, h.constraint, h.trigger]
  rfl

/-- The seal `_install_ledger_seal` makes is the one `_verify_ledger_seal` looks for. -/
theorem seal_expected {ledger : MigrationLedger} (htext : ledger.digestIsText = true)
    (hwrites : ledger.otherWrites = false) : sealExpected env (ledger.seal env)
      ⟨'c', true, checkExpression⟩ ⟨'O', 31, some (sealGuard env)⟩ (sealGuard env) = true := by
  unfold sealExpected sealGuard
  -- the two long texts are compared with themselves
  generalize ledgerFunctionSource = source
  generalize checkExpression = expression
  simp [MigrationLedger.seal, htext, hwrites]

/-- An unsealed ledger of digests takes the seal, and the seal is the one expected. -/
theorem installLedgerSeal_fresh (env : MigrationEnv) {ledger : MigrationLedger}
    (texts : List String)
    (h : Unsealed ledger)
    (hdigest : ∀ row ∈ ledger.rows, ∃ digest, row.2 = some digest ∧ isSha256 digest = true) :
    ∃ db', installLedgerSeal env ⟨some ledger, [], false, texts⟩ = .ok ((), db')
      ∧ verifyLedgerSeal env db' = .ok ((), db') := by
  have hformat : (ledger.rows.all fun row => row.2.all isSha256) = true := by
    refine List.all_eq_true.mpr fun row hrow => ?_
    obtain ⟨digest, hsome, hsha⟩ := hdigest row hrow
    rw [hsome]
    exact hsha
  have hnotNull : (ledger.rows.all fun row => row.2.isSome) = true := by
    refine List.all_eq_true.mpr fun row hrow => ?_
    obtain ⟨digest, hsome, _⟩ := hdigest row hrow
    rw [hsome]
    rfl
  refine ⟨⟨some (ledger.seal env), [sealGuard env], false, texts⟩, ?_, ?_⟩
  · unfold installLedgerSeal
    rw [Tx.bind_eval (sealObjectsPresent_fresh h), Tx.ensure_eval (show (!false) = true from rfl),
      theLedger_eval ledger rfl, Tx.ensure_eval hformat, Tx.ensure_eval hnotNull]
    rfl
  · unfold verifyLedgerSeal
    rw [Tx.bind_eval (Tx.read_run _)]
    have hsealed : sealed env ⟨some (ledger.seal env), [sealGuard env], false, texts⟩ = true := by
      show (sealExpected env (ledger.seal env) _ _ (sealGuard env) && true) = true
      rw [seal_expected h.text h.writes, Bool.and_true]
    rw [hsealed]
    rfl

/-- **A fresh database migrates**, where the SQL runs and the digests are SHA-256 texts. -/
theorem apply_fresh {directory : List (String × ByteArray)} (texts : List String)
    (hsources : migrationSources env directory = .ok sources)
    (hrun : ∀ texts sql, env.succeeds texts sql = true)
    (hdigest : ∀ source ∈ sources, isSha256 source.sha256 = true) :
    (applyPostgresMigrations env directory ⟨none, [], false, texts⟩).1 = .ok () := by
  have hempty : Unsealed ⟨[], List.nodup_nil, true, false, true, false, false, none, none⟩ :=
    ⟨rfl, rfl, rfl, rfl⟩
  have hdistinct : (sources.map MigrationSource.filename).Nodup :=
    (migrationSources_sorted hsources).imp fun h => h.ne
  obtain ⟨ledger, hpending, hunsealed, hrows⟩ := runPending_fresh hrun sources texts hempty
    (by simpa using hdistinct)
  obtain ⟨db', hinstall, hverify⟩ := installLedgerSeal_fresh env (texts ++ sources.map MigrationSource.sql) hunsealed (by
      rw [hrows]
      intro row hrow
      obtain ⟨source, hsource, rfl⟩ := List.mem_map.mp (by simpa using hrow)
      exact ⟨_, rfl, hdigest source hsource⟩)
  have hprepare : prepareLedger ⟨none, [], false, texts⟩
      = .ok ((), ⟨some ⟨[], List.nodup_nil, true, false, true, false, false, none, none⟩, [],
        false, texts⟩) := rfl
  have hnoRows : ledgerRows ⟨some ⟨[], List.nodup_nil, true, false, true, false, false, none, none⟩,
      [], false, texts⟩ = .ok ([], ⟨some ⟨[], List.nodup_nil, true, false, true, false, false, none,
        none⟩, [], false, texts⟩) := rfl
  have hvalid : validateSealedRows sources [] = .ok () := by
    unfold validateSealedRows validatePrefix
    rw [List.zip_nil_right]
    rfl
  have hbody : applyBody env sources ⟨none, [], false, texts⟩ = .ok ((), db') := by
    unfold applyBody
    rw [Tx.bind_eval hprepare, Tx.bind_eval hnoRows, Tx.lift_eval hvalid]
    change (sealObjectsPresent >>= _) _ = _
    rw [Tx.bind_eval (sealObjectsPresent_fresh hempty),
      Tx.ensure_eval (show (!false) = true from rfl), Tx.bind_eval hpending, Tx.bind_eval hinstall]
    exact hverify
  unfold applyPostgresMigrations
  rw [hsources]
  show (atomically (applyBody env sources) _).1 = _
  unfold atomically
  rw [hbody]

/-- A database whose SQL always runs, seen by role `owner`; the digest is that of `SELECT 1`. -/
def selectOneEnv : MigrationEnv where
  sha256 _ := "e004ebd5b5532a4b85984a62f8ad48a81aa3460c1ca07701f386135d72cdecf5"
  succeeds _ _ := true
  user := "owner"

def freshDatabase : MigrationDb := ⟨none, [], false, []⟩

/-- Two migrations with the same text. -/
def twiceSelectOne : List (String × ByteArray) :=
  [("0001_a.sql", "SELECT 1".toUTF8), ("0002_b.sql", "SELECT 1".toUTF8)]

/-- Their sources. -/
def selectOneSources : List MigrationSource :=
  [⟨"0001_a.sql", "SELECT 1", selectOneEnv.sha256 ByteArray.empty⟩,
    ⟨"0002_b.sql", "SELECT 1", selectOneEnv.sha256 ByteArray.empty⟩]

theorem twiceSelectOne_sources :
    migrationSources selectOneEnv twiceSelectOne = .ok selectOneSources := by decide +kernel

/-- The run that applies them. -/
def twiceSelectOneRun : MigrationRun :=
  ⟨(applyPostgresMigrations selectOneEnv twiceSelectOne freshDatabase).2, selectOneSources⟩

theorem twiceSelectOneRun_reachable :
    (migrationSystem selectOneEnv freshDatabase).Reachable twiceSelectOneRun :=
  (System.Reachable.of_init rfl).step
    (apply_step freshDatabase [] twiceSelectOne_sources List.nil_prefix)

theorem migrations_exactly_once_twice :
    ∃ applied, applied <+: twiceSelectOneRun.sources
      ∧ (applied.map MigrationSource.filename).Nodup
      ∧ twiceSelectOneRun.db.executed = freshDatabase.executed
          ++ (applied.drop freshDatabase.rows.length).map MigrationSource.sql
      ∧ ((twiceSelectOneRun.sources.map MigrationSource.sql).Nodup →
        ((applied.drop freshDatabase.rows.length).map MigrationSource.sql).Nodup) :=
  (migrations_exactly_once selectOneEnv).2.2.2 freshDatabase twiceSelectOneRun
    twiceSelectOneRun_reachable

/-- **Two sources with one text.** One application runs the text twice. -/
theorem migrations_repeat_text :
    (applyPostgresMigrations selectOneEnv twiceSelectOne freshDatabase).1 = .ok ()
      ∧ (applyPostgresMigrations selectOneEnv twiceSelectOne freshDatabase).2.executed
        = ["SELECT 1", "SELECT 1"] := by
  have hok := apply_fresh [] twiceSelectOne_sources (fun _ _ => rfl)
    (by decide +kernel)
  refine ⟨hok, ?_⟩
  rcases apply_migrates selectOneEnv twiceSelectOne freshDatabase with
    ⟨e, hrun⟩ | ⟨sources, db', hset, hrun, _, htexts, _⟩
  · exact absurd hok (by
      show (applyPostgresMigrations selectOneEnv twiceSelectOne freshDatabase).1 ≠ _
      rw [hrun]
      simp)
  · obtain rfl := Except.ok.inj (twiceSelectOne_sources.symm.trans hset)
    rw [hrun]
    exact htexts

end NanoAural
