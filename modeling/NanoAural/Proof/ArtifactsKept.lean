import NanoAural.Proof.Idempotency
import NanoAural.Proof.Winner

/-!
# Artifacts are never rewritten

Beside the ledger and the queue runs the repository, whose methods register blobs
and may take one out of use. None of them touches an artifact or what a blob is:
what was shown of an artifact once is what is shown of it for ever.
-/

namespace NanoAural

open Relational Machine

/-- What a blob is, whatever state it is in. -/
def BlobRow.identity (b : BlobRow) : String × Nat × String × String :=
  (b.sha256, b.sizeBytes, b.storageKey, b.contentType)

/-- Artifacts and blobs are still there, and the blobs are what they were. -/
structure KeepsArtifacts (db db' : Db) : Prop where
  artifacts : ∀ r ∈ db.artifacts.rows, r ∈ db'.artifacts.rows
  blobs : ∀ id b, db.blobs.find? id = some b →
    ∃ b', db'.blobs.find? id = some b' ∧ b'.identity = b.identity

variable {digest : CanonicalRequest → String} {json : JsonColumn} {db db' : Db}

theorem KeepsArtifacts.of_eq (ha : db'.artifacts = db.artifacts) (hb : db'.blobs = db.blobs) :
    KeepsArtifacts db db' :=
  ⟨fun _ hr => ha ▸ hr, fun _ b h => ⟨b, by rw [hb, h], rfl⟩⟩

theorem KeepsArtifacts.refl (db : Db) : KeepsArtifacts db db := .of_eq rfl rfl

theorem KeepsArtifacts.trans {a b c : Db} (h : KeepsArtifacts a b) (h' : KeepsArtifacts b c) :
    KeepsArtifacts a c := by
  refine ⟨fun r hr => h'.artifacts r (h.artifacts r hr), fun id x hx => ?_⟩
  obtain ⟨y, hy, hxy⟩ := h.blobs id x hx
  obtain ⟨z, hz, hyz⟩ := h'.blobs id y hy
  exact ⟨z, hz, hyz.trans hxy⟩

/-- The queue and the ledger only add. -/
theorem KeepsArtifacts.of_effect {allowed : Int → Prop} (he : Effect json allowed db db') :
    KeepsArtifacts db db' := by
  refine ⟨fun r hr => ?_, fun id b hb => ⟨b, blob_kept he hb, rfl⟩⟩
  obtain ⟨new, hnew, _⟩ := artifacts_effect he
  rw [hnew]
  exact List.mem_append_left _ hr

/-! ## Statements -/

/-- A transaction body that keeps artifacts and blobs. -/
abbrev Keeping {α : Type} (body : Sql α) : Prop :=
  Tx.Keeps (fun s s' : Session Db Deferred => KeepsArtifacts s.db s'.db) body

theorem keeping_pure {α : Type} (a : α) : Keeping (pure a) :=
  Tx.keeps_pure (fun s => .refl s.db) a

theorem keeping_bind {α β : Type} {body : Sql α} {f : α → Sql β} (hbody : Keeping body)
    (hf : ∀ a, Keeping (f a)) : Keeping (body >>= f) := Tx.keeps_bind .trans hbody hf

theorem keeping_select {α : Type} (q : Db → α) : Keeping (select q) :=
  Tx.Keeps.of_same (fun s => .refl s.db) fun _ _ _ h => (Prod.mk.inj (Except.ok.inj h)).2

theorem keeping_ensure (b : Bool) (e : Error) : Keeping (Tx.ensure b e) :=
  Tx.keeps_ensure (fun s => .refl s.db) b e

theorem keeping_orFail {α : Type} (o : Option α) (e : Error) : Keeping (Tx.orFail o e) :=
  Tx.keeps_orFail (fun s => .refl s.db) o e

theorem keeping_lift {α : Type} (x : Except Error α) : Keeping (Tx.lift x) :=
  Tx.keeps_lift (fun s => .refl s.db) x

section Tables

variable {ρ κ : Type} [Schema ρ κ] {T : Target ρ}

/-- A table other than the artifacts and the blobs. -/
def OffArtifacts (T : Target ρ) : Prop :=
  ∀ db t, (T.store db t).artifacts = db.artifacts ∧ (T.store db t).blobs = db.blobs

theorem keeping_insert (hT : OffArtifacts T) (row : ρ) : Keeping (insert T row) := by
  intro s u s' h
  obtain ⟨_, t, _, _, rfl⟩ := insert_ok h
  exact .of_eq (hT _ t).1 (hT _ t).2

theorem keeping_insertUnless (hT : OffArtifacts T) (conflict : ρ → ρ → Bool) (row : ρ) :
    Keeping (insertUnless T conflict row) := by
  intro s u s' h
  obtain ⟨_, _, _, ⟨_, rfl, _⟩ | ⟨t, _, _, _, rfl⟩⟩ := insertUnless_ok h
  · exact .refl _
  · exact .of_eq (hT _ t).1 (hT _ t).2

theorem keeping_update (hT : OffArtifacts T) (id : κ) (cond : ρ → Bool) (set : ρ → ρ) :
    Keeping (update T id cond set) := by
  intro s n s' h
  rcases update_ok h with ⟨_, rfl, _⟩ | ⟨_, _, t, _, _, _, _, _, rfl⟩
  · exact .refl _
  · exact .of_eq (hT _ t).1 (hT _ t).2

end Tables

/-- A blob is registered beside the others. -/
theorem keeping_registered (conflict : BlobRow → BlobRow → Bool) (row : BlobRow) :
    Keeping (insertUnless blobsTable conflict row) := by
  intro s added s' h
  obtain ⟨_, _, _, ⟨_, rfl, _⟩ | ⟨t, _, _, ht, rfl⟩⟩ := insertUnless_ok h
  · exact .refl _
  · exact ⟨fun _ hr => hr, fun id b hb => ⟨b, Table.insert?_keep ht hb, rfl⟩⟩

/-- A blob that goes out of use stays what it is. -/
theorem keeping_blobState (id : Uuid) (state : BlobState) :
    Keeping (update blobsTable id (fun _ => true) fun b => { b with state := state }) := by
  intro s n s' h
  rcases update_ok h with ⟨_, rfl, _⟩ | ⟨old, new, t, hold, _, hb, ht, _, rfl⟩
  · exact .refl _
  · obtain ⟨_, rfl⟩ := guarded_ok.mp hb
    refine ⟨fun _ hr => hr, fun k b hk => ?_⟩
    have hid : old.id = id := Table.key_of_find? hold
    have hfind : s.db.blobs.find? (Schema.key { old with state := state }) = some old := by
      rw [← hold]
      exact congrArg _ hid
    by_cases hkey : k = old.id
    · subst hkey
      obtain rfl : b = old := Option.some.inj (hk.symm.trans (hid ▸ hold))
      exact ⟨{ b with state := state }, Table.put?_self ht hfind, rfl⟩
    · exact ⟨b, (Table.put?_other ht hfind hkey).trans hk, rfl⟩

/-! ## The repository's methods -/

theorem offArtifacts_jobs : OffArtifacts jobsTable := fun _ _ => ⟨rfl, rfl⟩

theorem keeping_event (jobId : Uuid) (attemptId : Option Uuid) (eventType : EventType) :
    Keeping (event jobId attemptId eventType) :=
  keeping_bind (keeping_select _) fun _ => keeping_insert (fun _ _ => ⟨rfl, rfl⟩) _

theorem keeping_insertInputs (jobId : Uuid) : ∀ items, Keeping (insertInputs jobId items)
  | [] => keeping_pure ()
  | _ :: items => keeping_bind (keeping_insert (fun _ _ => ⟨rfl, rfl⟩) _) fun _ =>
      keeping_insertInputs jobId items

theorem keeping_createJobRows (jobId : Uuid) (sub : Submission) (hash : String) :
    Keeping (createJobRows json jobId sub hash) := by
  refine keeping_bind (keeping_select _) fun _ => keeping_bind (keeping_orFail _ _) fun _ =>
    keeping_bind (keeping_ensure _ _) fun _ => keeping_bind (keeping_select _) fun _ =>
    keeping_bind (keeping_insertUnless offArtifacts_jobs _ _) fun added => ?_
  cases added with
  | true =>
      exact keeping_bind (keeping_insertInputs _ _) fun _ => keeping_bind (keeping_event _ _ _)
        fun _ => keeping_pure _
  | false =>
      have hjobByKey : Keeping (jobByKey sub.namespaceId sub.idempotencyKey) :=
        keeping_bind (keeping_select _) fun _ => keeping_bind (keeping_orFail _ _) fun _ =>
          keeping_bind (keeping_select _) fun _ => keeping_lift _
      exact keeping_bind hjobByKey fun _ => keeping_bind (keeping_ensure _ _) fun _ =>
        keeping_pure _

theorem keeping_requestCancelRows (jobId : Uuid) : Keeping (requestCancelRows jobId) := by
  refine keeping_bind (keeping_select _) fun _ => keeping_bind (keeping_lift _) fun job => ?_
  cases job.state with
  | queued | running =>
      exact keeping_bind (keeping_update offArtifacts_jobs _ _ _) fun _ => keeping_event _ _ _
  | succeeded | failed | cancelled => exact keeping_pure ()

/-- **No method rewrites an artifact or a blob.** -/
theorem RepositoryCall.keepsArtifacts (c : RepositoryCall) (db : Db) :
    KeepsArtifacts db (c.run digest json db) := by
  -- a transaction keeps what each of its statements keeps
  have committed : ∀ {α : Type} {body : Sql α}, Keeping body →
      KeepsArtifacts db (commit body db).2 := fun h => transaction_keeps .refl h db
  cases c with
  | registerDeployment deployment | registerWorker worker =>
      exact committed (keeping_bind (keeping_insert (fun _ _ => ⟨rfl, rfl⟩) _) fun _ =>
        keeping_pure _)
  | registerBlob blob =>
      refine committed (keeping_bind (keeping_registered _ _) fun added => ?_)
      cases added with
      | true => exact keeping_lift _
      | false =>
          exact keeping_bind (keeping_select _) fun _ => keeping_bind (keeping_orFail _ _) fun _ =>
            keeping_lift _
  | createAsset asset =>
      exact committed (keeping_bind (keeping_select _) fun _ => keeping_bind (keeping_orFail _ _)
        fun _ => keeping_bind (keeping_ensure _ _) fun _ =>
        keeping_bind (keeping_insert (fun _ _ => ⟨rfl, rfl⟩) _) fun _ => keeping_pure _)
  | createJob jobId sub =>
      show KeepsArtifacts db (NanoAural.createJob digest json jobId sub db).2
      unfold NanoAural.createJob
      split
      · exact .refl db
      · rename_i hash _
        have hk : KeepsArtifacts db (commit (createJobRows json jobId sub hash) db).2 :=
          committed (keeping_createJobRows jobId sub hash)
        split <;> rename_i hcommit <;> rw [hcommit] at hk <;> exact hk
  | requestCancel jobId =>
      show KeepsArtifacts db (requestJobCancel jobId db).2
      have hk := committed (keeping_requestCancelRows jobId)
      unfold requestJobCancel
      split <;> rename_i hcommit <;> rw [hcommit] at hk <;> exact hk
  | setDeploymentState id state | setAssetState id state =>
      exact committed (keeping_update (fun _ _ => ⟨rfl, rfl⟩) _ _ _)
  | setBlobState id state => exact committed (keeping_blobState id state)
  | queue c =>
      -- what a call of the queue keeps, its effects tell
      have heff : Relation.ReflTransGen (Effect json fun _ => True) db _ :=
        c.effects json (fun _ _ => trivial) db
      show KeepsArtifacts db (c.run json db).2
      generalize (c.run json db).2 = db' at heff
      induction heff with
      | refl => exact .refl db
      | tail _ he ih => exact ih.trans (.of_effect he)

theorem keepsArtifacts (hr : (repositorySystem digest json).Runs db db') :
    KeepsArtifacts db db' := by
  have hstep : ∀ s s', (repositorySystem digest json).step s s' → KeepsArtifacts s s' := by
    rintro s _ ⟨c, rfl⟩
    exact c.keepsArtifacts s
  exact System.Runs.respects .refl (fun _ _ _ => .trans) hstep hr

/-! ## What is shown -/

/-- What is shown is an artifact's row with its blob's. -/
theorem visibleWinner_row {jobId : Uuid} {ns : Option String} {v : VisibleArtifact}
    (hv : v ∈ visibleWinner jobId ns db) :
    ∃ r ∈ db.artifacts.rows, ∃ b, db.blobs.find? r.blobId = some b ∧ v = r.visible b := by
  unfold visibleWinner at hv
  split at hv
  · cases hv
  · split at hv
    · obtain ⟨r, hr, hrow⟩ := List.mem_filterMap.mp (mem_orderBy.mp hv)
      unfold visibleRow at hrow
      split at hrow
      · rename_i p b _ hb
        split at hrow
        · exact ⟨r, hr, b, hb, (Option.some.inj hrow).symm⟩
        · cases hrow
      · cases hrow
    · cases hv

/-- **An artifact is shown as it was shown before.** -/
theorem visibleWinner_kept {jobId jobId' : Uuid} {ns ns' : Option String} {v v' : VisibleArtifact}
    (hr : (repositorySystem digest json).Runs db db') (hv : v ∈ visibleWinner jobId ns db)
    (hv' : v' ∈ visibleWinner jobId' ns' db') (hid : v'.artifactId = v.artifactId) : v' = v := by
  have hk := keepsArtifacts hr
  obtain ⟨r, hmem, b, hb, rfl⟩ := visibleWinner_row hv
  obtain ⟨r', hmem', b', hb', rfl⟩ := visibleWinner_row hv'
  obtain rfl : r' = r := Table.eq_of_key hmem' (hk.artifacts r hmem) hid
  obtain ⟨b'', hb'', hsame⟩ := hk.blobs _ b hb
  obtain rfl : b' = b'' := Option.some.inj (hb'.symm.trans hb'')
  have hblob : b'.id = b.id := (Table.key_of_find? hb').trans (Table.key_of_find? hb).symm
  simp only [BlobRow.identity, Prod.mk.injEq] at hsame
  obtain ⟨hsha, hsize, hkey, htype⟩ := hsame
  simp only [ArtifactRow.visible, hblob, hsha, hsize, hkey, htype]

end NanoAural
