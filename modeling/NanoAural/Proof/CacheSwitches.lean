import NanoAural.Proof.FailClosed

/-!
# What turns the condition cache off

Two flags in memory and two kinds of file on disk turn the cache off, for one
deployment or for all. The store's programs read them and, where nothing goes
wrong, write none but the fuse of the deployment they invalidate. What the
facade's methods do to the switches of another deployment follows: nothing, as
long as the fingerprint they are given is one the condition cache itself takes.
-/

namespace NanoAural

open Faulty Faulty.Prog

namespace ConditionCache

variable {κ : Type} (env : CacheEnv κ)

/-! ## Programs that leave the switches alone -/

/-- A property that says nothing about files, clocks and recency, and that clearing a fuse keeps. -/
structure Idle (I : CacheState κ → Prop) : Prop where
  data : ∀ s d, I s → I { s with data := d }
  metas : ∀ s m, I s → I { s with metas := m }
  access : ∀ s a, I s → I { s with access := a }
  readings : ∀ s n, I s → I { s with readings := n }
  clear : ∀ s deployment, I s →
    I { s with deploymentFuses := s.deploymentFuses.filter (· != deployment) }

variable {I : CacheState κ → Prop}

theorem calmly_catchIo {α : Type} {p handler : CacheProg κ α} (hp : Calmly I p)
    (hhandler : Calmly I handler) : Calmly I (catchIo p handler) := by
  refine calmly_tryCatch hp fun e => ?_
  cases e with
  | os | value => exact hhandler
  | drift | other | interrupt => exact calmly_raise _

theorem calmly_catchAny {α : Type} {p : CacheProg κ α} {handler : CacheRaise → CacheProg κ α}
    (hp : Calmly I p) (hhandler : ∀ e, Calmly I (handler e)) : Calmly I (catchAny p handler) := by
  refine calmly_tryCatch hp fun e => ?_
  cases e with
  | interrupt => exact calmly_raise _
  | os | value | drift | other => exact hhandler _

theorem calmly_sync : Calmly I (sync : CacheProg κ Unit) := calmly_act fun _ hs => hs

theorem calmly_now (h : Idle I) : Calmly I (now : CacheProg κ Nat) :=
  calmly_call fun s hs => h.readings s _ hs

theorem calmly_monotonicNs (h : Idle I) : Calmly I (monotonicNs : CacheProg κ Nat) :=
  calmly_call fun s hs => h.readings s _ hs

theorem calmly_requireFingerprint (deployment : String) :
    Calmly I (requireFingerprint deployment : CacheProg κ Unit) := calmly_raiseWhen _ _

/-! ### The fuse authorities -/

section Authority

variable (fuses : Authority κ)

theorem calmly_authority_ensureOpen : Calmly I fuses.ensureOpen :=
  calmly_bind (calmly_peek _) fun _ => calmly_raiseWhen _ _

theorem calmly_globalFused : Calmly I fuses.globalFused :=
  calmly_bind (calmly_authority_ensureOpen fuses) fun _ => calmly_look _

theorem calmly_deploymentFused (deployment : String) :
    Calmly I (fuses.deploymentFused deployment) :=
  calmly_bind (calmly_requireFingerprint _) fun _ =>
    calmly_bind (calmly_authority_ensureOpen fuses) fun _ => calmly_call fun s hs => by
      split <;> exact hs

theorem calmly_isFused (deployment : String) : Calmly I (fuses.isFused deployment) :=
  calmly_bind (calmly_requireFingerprint _) fun _ =>
    calmly_bind (calmly_globalFused fuses) fun _ =>
      calmly_ite (fun _ => calmly_pure _) fun _ => calmly_deploymentFused fuses deployment

theorem calmly_clearDeployment (h : Idle I) (deployment : String) :
    Calmly I (fuses.clearDeployment deployment) :=
  calmly_bind (calmly_requireFingerprint _) fun _ =>
    calmly_bind (calmly_authority_ensureOpen fuses) fun _ =>
      calmly_bind (calmly_call fun s hs => by
        split
        · exact h.clear s deployment hs
        · exact hs) fun _ => calmly_sync

end Authority

/-! ### The store's methods -/

namespace Store

theorem calmly_ensureOpen : Calmly I (ensureOpen : CacheProg κ Unit) :=
  calmly_bind (calmly_peek _) fun _ => calmly_raiseWhen _ _

theorem calmly_deleteDigest (h : Idle I) (digest : String) :
    Calmly I (deleteDigest digest : CacheProg κ Unit) :=
  calmly_bind (calmly_act fun s hs => h.data s _ hs) fun _ =>
    calmly_bind (calmly_act fun s hs => h.metas s _ hs) fun _ =>
      calmly_assign fun s hs => h.access s _ hs

theorem calmly_readMetadata (digest : String) :
    Calmly I (readMetadata digest : CacheProg κ Metadata) := by
  refine calmly_call fun s hs => ?_
  split
  · exact hs
  · split <;> exact hs

theorem calmly_readData (digest : String) : Calmly I (readData env digest) := by
  refine calmly_call fun s hs => ?_
  split
  · exact hs
  · split <;> exact hs

theorem calmly_publishData (h : Idle I) (digest : String) (payload : List UInt8) :
    Calmly I (publishData digest payload : CacheProg κ Bool) := by
  refine calmly_bind (calmly_call fun s hs => ?_) fun _ =>
    calmly_ite (fun _ => calmly_bind calmly_sync fun _ => calmly_pure _) fun _ => calmly_pure _
  split
  · exact hs
  · exact h.data s _ hs

theorem calmly_publishMeta (h : Idle I) (digest : String) (metadata : Metadata) :
    Calmly I (publishMeta digest metadata : CacheProg κ Bool) := by
  refine calmly_bind (calmly_call fun s hs => ?_) fun _ =>
    calmly_ite (fun _ => calmly_bind calmly_sync fun _ => calmly_pure _) fun _ => calmly_pure _
  split
  · exact hs
  · exact h.metas s _ hs

theorem calmly_readEntry (h : Idle I) (parent : κ) (role : String) :
    Calmly I (readEntry env parent role) := by
  refine calmly_bind (calmly_look _) fun dataExists => calmly_bind (calmly_look _) fun metaExists =>
    calmly_ite (fun _ => calmly_pure _) fun _ => calmly_ite (fun _ => ?_) fun _ => ?_
  · exact calmly_bind (calmly_now h) fun _ => calmly_bind (calmly_look _) fun _ =>
      calmly_ite (fun _ => calmly_bind (calmly_deleteDigest h _) fun _ => calmly_pure _)
        fun _ => calmly_pure _
  · exact calmly_bind (calmly_readMetadata _) fun _ => calmly_bind (calmly_raiseWhen _ _) fun _ =>
      calmly_bind (calmly_raiseWhen _ _) fun _ => calmly_bind (calmly_readData env _) fun _ =>
      calmly_bind (calmly_raiseWhen _ _) fun _ => calmly_bind (calmly_raiseWhen _ _) fun _ =>
      calmly_bind (calmly_raiseWhen _ _) fun _ => calmly_bind (calmly_raiseWhen _ _) fun _ =>
      calmly_pure _

theorem calmly_getEntry (h : Idle I) (parent : κ) (role : String) :
    Calmly I (getEntry env parent role) := by
  refine calmly_bind calmly_ensureOpen fun _ => calmly_bind (calmly_isFused _ _) fun _ =>
    calmly_ite (fun _ => calmly_pure _) fun _ =>
    calmly_bind (calmly_catchIo (calmly_readEntry env h parent role)
      (calmly_bind (calmly_deleteDigest h _) fun _ => calmly_pure _)) fun entry => ?_
  cases entry with
  | none => exact calmly_pure _
  | some entry =>
      exact calmly_bind (calmly_now h) fun _ => calmly_ite
        (fun _ => calmly_bind (calmly_deleteDigest h _) fun _ => calmly_pure _) fun _ =>
        calmly_bind (calmly_monotonicNs h) fun _ =>
          calmly_bind (calmly_assign fun s hs => h.access s _ hs) fun _ => calmly_pure _

theorem calmly_metadataRecords (h : Idle I) :
    ∀ names, Calmly I (metadataRecords names : CacheProg κ (List (String × Metadata)))
  | [] => calmly_pure _
  | digest :: rest => calmly_bind (calmly_catchIo (calmly_bind (calmly_readMetadata digest)
      fun _ => calmly_pure _) (calmly_bind (calmly_deleteDigest h digest) fun _ => calmly_pure _))
      fun _ => calmly_bind (calmly_metadataRecords h rest) fun _ => calmly_pure _

theorem calmly_allMetadata (h : Idle I) :
    Calmly I (allMetadata : CacheProg κ (List (String × Metadata))) :=
  calmly_bind (calmly_look _) fun names => calmly_metadataRecords h names

theorem calmly_evict (h : Idle I) : ∀ records total, Calmly I (evict env records total)
  | [], _ => calmly_pure _
  | (_, digest, _) :: rest, _ => calmly_ite
      (fun _ => calmly_bind (calmly_deleteDigest h digest) fun _ => calmly_evict h rest _)
      fun _ => calmly_pure _

theorem calmly_enforceLimits (h : Idle I) : Calmly I (enforceLimits env) :=
  calmly_bind (calmly_allMetadata h) fun _ => calmly_bind (calmly_peek _) fun _ =>
    calmly_evict env h _ _

theorem calmly_cleanupEntry (h : Idle I) (now : Nat) (globallyFused : Bool) (digest : String) :
    Calmly I (cleanupEntry env now globallyFused digest) := by
  refine calmly_catchIo (calmly_bind (calmly_readMetadata digest) fun _ => calmly_bind ?_ fun _ =>
    calmly_ite (fun _ => calmly_deleteDigest h digest) fun _ => calmly_pure _)
    (calmly_deleteDigest h digest)
  exact calmly_ite (fun _ => calmly_pure _) fun _ => calmly_deploymentFused _ _

theorem calmly_cleanup (h : Idle I) : Calmly I (cleanup env) :=
  calmly_bind calmly_ensureOpen fun _ => calmly_bind (calmly_now h) fun _ =>
    calmly_bind (calmly_globalFused _) fun _ => calmly_bind (calmly_look _) fun _ =>
    calmly_bind (calmly_forEach (fun digest => calmly_bind (calmly_look _) fun _ =>
      calmly_ite (fun _ => calmly_deleteDigest h digest) fun _ => calmly_pure _) _) fun _ =>
    calmly_bind (calmly_forEach (fun digest => calmly_bind (calmly_look _) fun _ =>
      calmly_ite (fun _ => calmly_deleteDigest h digest) fun _ => calmly_pure _) _) fun _ =>
    calmly_bind (calmly_forEach (calmly_cleanupEntry env h _ _) _) fun _ =>
    calmly_bind (calmly_enforceLimits env h) fun _ => calmly_sync

theorem calmly_countEntries :
    ∀ records, Calmly I (countEntries records : CacheProg κ (Nat × Nat))
  | [] => calmly_pure _
  | (digest, metadata) :: rest => by
      refine calmly_bind (calmly_tryCatch (calmly_bind (calmly_isFused _ _) fun _ => calmly_ite
        (fun _ => calmly_pure _) fun _ => calmly_look _) fun e => ?_) fun _ =>
        calmly_bind (calmly_countEntries rest) fun _ => calmly_pure _
      cases e with
      | value => exact calmly_pure _
      | os | drift | other | interrupt => exact calmly_raise _

theorem calmly_snapshot (h : Idle I) : Calmly I (snapshot env) :=
  calmly_bind calmly_ensureOpen fun _ => calmly_bind (calmly_cleanup env h) fun _ =>
    calmly_bind (calmly_allMetadata h) fun _ => calmly_countEntries _

theorem calmly_putIfAbsent (h : Idle I) (parent : κ) (role : String) (payload : List UInt8) :
    Calmly I (putIfAbsent env parent role payload) := by
  refine calmly_bind (calmly_raiseWhen _ _) fun _ => calmly_ite (fun _ => calmly_pure _) fun _ =>
    calmly_bind (calmly_raiseWhen _ _) fun _ => calmly_bind calmly_ensureOpen fun _ =>
    calmly_bind (calmly_isFused _ _) fun _ => calmly_ite (fun _ => calmly_pure _) fun _ =>
    calmly_bind (calmly_getEntry env h parent role) fun existing => ?_
  cases existing with
  | some entry => exact calmly_pure _
  | none =>
      refine calmly_bind (calmly_now h) fun now => calmly_bind (calmly_publishData h _ _)
        fun stored => calmly_ite (fun _ => ?_) fun _ => calmly_bind ?_ fun _ =>
          calmly_ite (fun _ => ?_) fun _ => ?_
      · refine calmly_bind (calmly_readEntry env h parent role) fun concurrent => ?_
        cases concurrent with
        | some entry => exact calmly_pure _
        | none => exact calmly_pure _
      · exact calmly_catchAny (calmly_publishMeta h _ _) fun _ =>
          calmly_bind (calmly_act fun s hs => h.data s _ hs) fun _ => calmly_raise _
      · exact calmly_bind (calmly_act fun s hs => h.data s _ hs) fun _ => calmly_pure _
      · exact calmly_bind (calmly_monotonicNs h) fun _ =>
          calmly_bind (calmly_assign fun s hs => h.access s _ hs) fun _ =>
          calmly_bind (calmly_enforceLimits env h) fun _ => calmly_bind calmly_sync fun _ =>
          calmly_bind (calmly_look _) fun _ => calmly_pure _

theorem calmly_delete (h : Idle I) (parent : κ) (role : String) :
    Calmly I (delete env parent role) :=
  calmly_bind calmly_ensureOpen fun _ => calmly_bind (calmly_deleteDigest h _) fun _ => calmly_sync

theorem calmly_invalidateDeployment (h : Idle I) (deployment : String) :
    Calmly I (invalidateDeployment deployment : CacheProg κ Nat) :=
  calmly_bind (calmly_requireFingerprint _) fun _ => calmly_bind calmly_ensureOpen fun _ =>
    calmly_bind (calmly_allMetadata h) fun _ =>
    calmly_bind (calmly_forEach (fun r : String × Metadata => calmly_deleteDigest h r.1) _) fun _ =>
    calmly_bind calmly_sync fun _ => calmly_bind (calmly_clearDeployment _ h deployment) fun _ =>
    calmly_pure _

end Store

/-! ### What they raise -/

section Smooth

variable {R : CacheRaise → Prop}

theorem smoothly_catchIo {α : Type} {Q : α → Prop} {p handler : CacheProg κ α}
    (hp : Smoothly I Q (fun e => e = .os ∨ e = .value) p) (hhandler : Smoothly I Q R handler) :
    Smoothly I Q R (catchIo p handler) := by
  refine smoothly_tryCatch hp fun e he => ?_
  rcases he with rfl | rfl
  · exact hhandler
  · exact hhandler

theorem smoothly_requireFingerprint {deployment : String} (hR : R .value) :
    Smoothly I (fun _ => True) R (requireFingerprint deployment : CacheProg κ Unit) :=
  smoothly_raiseWhen (fun _ => hR) fun _ => trivial

theorem smoothly_authority_ensureOpen {fuses : Authority κ} (hopen : ∀ s, I s → fuses s = false) :
    Smoothly I (fun _ => True) R fuses.ensureOpen :=
  smoothly_bind (smoothly_peek hopen) fun closed (hclosed : closed = false) =>
    smoothly_raiseWhen (fun h => by rw [hclosed] at h; cases h) fun _ => trivial

/-- A fuse whose name the file system does not take is not cleared. -/
theorem smoothly_clearDeployment {fuses : Authority κ} {deployment : String}
    (hname : hasFuseName deployment = false) (hR : ∀ e, e ≠ .interrupt → R e) :
    Smoothly I (fun _ => False) R (fuses.clearDeployment deployment) := by
  refine smoothly_andThen (smoothly_requireFingerprint (hR _ (by decide))) fun _ =>
    smoothly_andThen (smoothly_andThen (smoothly_peek fun _ _ => trivial) fun _ =>
      smoothly_raiseWhen (fun _ => hR _ (by decide)) fun _ => trivial) fun _ =>
    smoothly_bind (P := fun _ => False) (smoothly_call (fun s a s' _ h => ?_) fun s e s' hs h => ?_)
      fun _ h => h.elim
  · rw [hname] at h
    cases h
  · rw [hname] at h
    cases h
    exact ⟨hs, hR _ (by decide)⟩

namespace Store

theorem smoothly_ensureOpen (hopen : ∀ s, I s → s.storeClosed = false) :
    Smoothly I (fun _ => True) R (ensureOpen : CacheProg κ Unit) :=
  smoothly_bind (smoothly_peek hopen) fun closed (hclosed : closed = false) =>
    smoothly_raiseWhen (fun h => by rw [hclosed] at h; cases h) fun _ => trivial

theorem smoothly_deleteDigest (h : Idle I) (digest : String) :
    Smoothly I (fun _ => True) R (deleteDigest digest : CacheProg κ Unit) :=
  smoothly_andThen (smoothly_act (fun s hs => h.data s _ hs) trivial) fun _ =>
    smoothly_andThen (smoothly_act (fun s hs => h.metas s _ hs) trivial) fun _ =>
      smoothly_assign (fun s hs => h.access s _ hs) trivial

theorem smoothly_readMetadata (digest : String) :
    Smoothly I (fun _ => True) (fun e => e = .os ∨ e = .value)
      (readMetadata digest : CacheProg κ Metadata) := by
  refine smoothly_call (fun s a s' hs h => ?_) fun s e s' hs h => ?_
  · split at h
    · cases h
    · split at h
      · cases h
      · cases h
        exact ⟨hs, trivial⟩
  · split at h
    · cases h
      exact ⟨hs, .inl rfl⟩
    · split at h
      · cases h
        exact ⟨hs, .inr rfl⟩
      · cases h

theorem smoothly_metadataRecords (h : Idle I) : ∀ names, Smoothly I (fun _ => True) R
    (metadataRecords names : CacheProg κ (List (String × Metadata)))
  | [] => smoothly_pure trivial
  | digest :: rest => smoothly_andThen (smoothly_catchIo
      (smoothly_andThen (smoothly_readMetadata digest) fun _ => smoothly_pure trivial)
      (smoothly_andThen (smoothly_deleteDigest h digest) fun _ => smoothly_pure trivial)) fun _ =>
      smoothly_andThen (smoothly_metadataRecords h rest) fun _ => smoothly_pure trivial

theorem smoothly_allMetadata (h : Idle I) : Smoothly I (fun _ => True) R
    (allMetadata : CacheProg κ (List (String × Metadata))) :=
  smoothly_andThen (smoothly_look fun _ _ => trivial) fun names => smoothly_metadataRecords h names

theorem smoothly_evict (h : Idle I) :
    ∀ records total, Smoothly I (fun _ => True) R (evict env records total)
  | [], _ => smoothly_pure trivial
  | (_, digest, _) :: rest, _ => smoothly_ite
      (fun _ => smoothly_andThen (smoothly_deleteDigest h digest) fun _ => smoothly_evict h rest _)
      fun _ => smoothly_pure trivial

theorem smoothly_enforceLimits (h : Idle I) :
    Smoothly I (fun _ => True) R (enforceLimits env) :=
  smoothly_andThen (smoothly_allMetadata h) fun _ =>
    smoothly_andThen (smoothly_peek fun _ _ => trivial) fun _ => smoothly_evict env h _ _

/-- A fuse that cannot be looked up condemns the entry and nothing else. -/
theorem smoothly_cleanupEntry (h : Idle I) (hopen : ∀ s, I s → s.storeFusesClosed = false)
    (now : Nat) (globallyFused : Bool) (digest : String) :
    Smoothly I (fun _ => True) R (cleanupEntry env now globallyFused digest) := by
  refine smoothly_catchIo (smoothly_andThen (smoothly_readMetadata digest) fun _ =>
    smoothly_andThen ?_ fun _ =>
      smoothly_ite (fun _ => smoothly_deleteDigest h digest) fun _ => smoothly_pure trivial)
    (smoothly_deleteDigest h digest)
  refine smoothly_ite (fun _ => smoothly_pure trivial) fun _ =>
    smoothly_andThen (smoothly_requireFingerprint (.inr rfl)) fun _ =>
    smoothly_andThen (smoothly_authority_ensureOpen hopen) fun _ =>
    smoothly_call (fun s a s' hs h => ?_) fun s e s' hs h => ?_
  · split at h
    · cases h
      exact ⟨hs, trivial⟩
    · cases h
  · split at h
    · cases h
    · cases h
      exact ⟨hs, .inl rfl⟩

/-- `cleanup` of an open store raises nothing. -/
theorem smoothly_cleanup (h : Idle I)
    (hopen : ∀ s, I s → s.storeClosed = false ∧ s.storeFusesClosed = false) :
    Smoothly I (fun _ => True) R (cleanup env) :=
  smoothly_andThen (smoothly_ensureOpen fun s hs => (hopen s hs).1) fun _ =>
    smoothly_andThen (smoothly_call (fun s _ _ hs heq => by
      cases heq
      exact ⟨h.readings s _ hs, trivial⟩) fun _ _ _ _ heq => by cases heq) fun _ =>
    smoothly_andThen (smoothly_andThen
      (smoothly_authority_ensureOpen fun s hs => (hopen s hs).2) fun _ =>
        smoothly_look fun _ _ => trivial) fun _ =>
    smoothly_andThen (smoothly_look fun _ _ => trivial) fun _ =>
    smoothly_andThen (smoothly_forEach (fun digest =>
      smoothly_andThen (smoothly_look fun _ _ => trivial) fun _ =>
        smoothly_ite (fun _ => smoothly_deleteDigest h digest) fun _ => smoothly_pure trivial) _)
      fun _ =>
    smoothly_andThen (smoothly_forEach (fun digest =>
      smoothly_andThen (smoothly_look fun _ _ => trivial) fun _ =>
        smoothly_ite (fun _ => smoothly_deleteDigest h digest) fun _ => smoothly_pure trivial) _)
      fun _ =>
    smoothly_andThen (smoothly_forEach
      (smoothly_cleanupEntry env h (fun s hs => (hopen s hs).2) _ _) _) fun _ =>
    smoothly_andThen (smoothly_enforceLimits env h) fun _ => smoothly_act (fun _ hs => hs) trivial

/-- A deployment whose fuse has no name is not invalidated. -/
theorem smoothly_invalidateDeployment (h : Idle I) {deployment : String}
    (hname : hasFuseName deployment = false) (hR : ∀ e, e ≠ .interrupt → R e) :
    Smoothly I (fun _ => False) R (invalidateDeployment deployment : CacheProg κ Nat) :=
  smoothly_andThen (smoothly_requireFingerprint (hR _ (by decide))) fun _ =>
    smoothly_andThen (smoothly_andThen (smoothly_peek fun _ _ => trivial) fun _ =>
      smoothly_raiseWhen (fun _ => hR _ (by decide)) fun _ => trivial) fun _ =>
    smoothly_andThen (smoothly_allMetadata h) fun _ =>
    smoothly_andThen (smoothly_forEach
      (fun r : String × Metadata => smoothly_deleteDigest h r.1) _) fun _ =>
    smoothly_andThen (smoothly_act (fun _ hs => hs) trivial) fun _ =>
    smoothly_bind (smoothly_clearDeployment hname hR) fun _ h => h.elim

end Store

end Smooth

/-! ## The facade's methods -/

/-- A property the facade keeps in all it does for the deployments `allowed`, which are those of the
transaction at hand. -/
structure Facade (I : CacheState κ → Prop) (allowed : String → Prop) : Prop where
  idle : Idle I
  isDisabled : ∀ deployment, allowed deployment → Calmly I (Cache.isDisabled deployment)
  fuseDeployment : ∀ deployment, allowed deployment → Calmly I (Cache.fuseDeployment deployment)
  undisable : ∀ s deployment, I s →
    I { s with disabledDeployments := s.disabledDeployments.filter (· != deployment) }
  generation : ∀ s n, I s → I { s with generation := n }
  update : ∀ s (f : Transaction κ → Transaction κ), (∀ t, (f t).parent = t.parent) → I s →
    I { s with txn := f s.txn }
  parent : ∀ s, I s → ∀ parent, s.txn.parent = some parent → allowed (env.deployment parent)

variable {env} {allowed : String → Prop} {parent : κ}

/-- What is read of memory may be assumed of the rest. -/
theorem calmly_peek_bind {α β : Type} {f : CacheState κ → β} {p : β → CacheProg κ α}
    {φ : β → Prop} (hφ : ∀ s, I s → φ (f s)) (hp : ∀ b, φ b → Calmly I (p b)) :
    Calmly I (peek f >>= p) := fun s hs => hp (f s) (hφ s hs) s hs

namespace Cache

theorem calmly_getEntry (h : Facade env I allowed) (ha : allowed (env.deployment parent))
    (role : String) : Calmly I (getEntry env parent role) :=
  calmly_bind (h.isDisabled _ ha) fun _ => calmly_bind (calmly_raiseWhen _ _) fun _ =>
    Store.calmly_getEntry env h.idle parent role

theorem calmly_safePut (h : Facade env I allowed) (ha : allowed (env.deployment parent))
    (role : String) (payload : List UInt8) : Calmly I (safePut env parent role payload) := by
  refine calmly_bind (h.isDisabled _ ha) fun _ => calmly_ite (fun _ => calmly_pure _) fun _ =>
    calmly_catchAny (calmly_bind (Store.calmly_putIfAbsent env h.idle parent role payload)
      fun outcome => ?_) fun _ => calmly_bind (h.fuseDeployment _ ha) fun _ => calmly_pure _
  cases outcome with
  | stored | present | rejected => exact calmly_pure _
  | conflict | fault => exact calmly_bind (h.fuseDeployment _ ha) fun _ => calmly_pure _

theorem calmly_safeDelete (h : Facade env I allowed) (ha : allowed (env.deployment parent))
    (role : String) : Calmly I (safeDelete env parent role) :=
  calmly_bind (h.isDisabled _ ha) fun _ => calmly_ite (fun _ => calmly_pure _) fun _ =>
    calmly_catchAny (calmly_bind (Store.calmly_delete env h.idle parent role) fun _ =>
      calmly_pure _) fun _ => calmly_bind (h.fuseDeployment _ ha) fun _ => calmly_pure _

theorem calmly_safeSnapshot (h : Facade env I allowed) : Calmly I (safeSnapshot env) :=
  calmly_bind (calmly_peek _) fun _ => calmly_ite (fun _ => calmly_pure _) fun _ =>
    calmly_catchAny (calmly_bind (Store.calmly_snapshot env h.idle) fun _ => calmly_pure _)
      fun _ => calmly_pure _

theorem calmly_nextGeneration (h : Facade env I allowed) :
    Calmly I (nextGeneration : CacheProg κ Unit) := calmly_assign fun s hs => h.generation s _ hs

theorem calmly_invalidateDeployment (h : Facade env I allowed) {deployment : String}
    (ha : allowed deployment) : Calmly I (invalidateDeployment deployment) :=
  calmly_bind (calmly_requireFingerprint _) fun _ => calmly_bind (calmly_nextGeneration h) fun _ =>
    calmly_catchAny (calmly_bind (Store.calmly_invalidateDeployment h.idle deployment) fun _ =>
      calmly_bind (calmly_clearDeployment _ h.idle deployment) fun _ =>
      calmly_bind (calmly_assign fun s hs => h.undisable s _ hs) fun _ => calmly_pure _)
      fun _ => calmly_bind (h.fuseDeployment _ ha) fun _ => calmly_pure _

theorem calmly_releaseDeployment (h : Facade env I allowed) {deployment : String}
    (ha : allowed deployment) : Calmly I (releaseDeployment env deployment) :=
  calmly_bind (calmly_requireFingerprint _) fun _ => calmly_bind (calmly_peek _) fun _ =>
    calmly_ite (fun _ => calmly_pure _) fun _ =>
    calmly_catchAny (Store.calmly_cleanup env h.idle) fun _ =>
      calmly_bind (calmly_nextGeneration h) fun _ => calmly_bind (h.fuseDeployment _ ha) fun _ =>
      calmly_pure _

end Cache

namespace Transaction

theorem calmly_update (h : Facade env I allowed) {f : Transaction κ → Transaction κ}
    (hf : ∀ t, (f t).parent = t.parent) : Calmly I (update f) :=
  calmly_assign fun s hs => h.update s f hf hs

theorem calmly_read (h : Facade env I allowed) (ha : allowed (env.deployment parent))
    (role : String) : Calmly I (read env parent role) := by
  refine calmly_bind (calmly_catchAny (Cache.calmly_getEntry h ha role) fun _ => calmly_pure _)
    fun entry => ?_
  cases entry with
  | none => exact calmly_pure _
  | some entry => exact calmly_update h fun _ => rfl

theorem calmly_report (h : Facade env I allowed) : Calmly I (report env) :=
  calmly_bind (calmly_peek _) fun _ => calmly_ite (fun _ => calmly_pure _) fun _ =>
    calmly_bind (Cache.calmly_safeSnapshot h) fun _ => calmly_pure _

theorem calmly_abort (h : Facade env I allowed) : Calmly I (abort : CacheProg κ Unit) :=
  calmly_update h fun _ => rfl

theorem calmly_invalidated (h : Facade env I allowed) : Calmly I (invalidated env) :=
  calmly_bind (calmly_abort h) fun _ => calmly_report h

theorem calmly_reject (h : Facade env I allowed) (role : String) : Calmly I (reject env role) := by
  refine calmly_peek_bind (φ := fun t => ∀ parent, t.parent = some parent →
    allowed (env.deployment parent)) h.parent fun txn htxn => ?_
  split
  · exact calmly_pure _
  · rename_i parent hparent
    exact calmly_ite (fun _ => calmly_bind (calmly_update h fun _ => rfl) fun _ =>
      calmly_bind (Cache.calmly_safeDelete h (htxn parent hparent) role) fun _ => calmly_pure _)
      fun _ => calmly_pure _

theorem calmly_stage (h : Facade env I allowed) (role : String) (payload : List UInt8) :
    Calmly I (stage role payload : CacheProg κ Unit) :=
  calmly_bind (calmly_peek _) fun _ => calmly_ite (fun _ => calmly_update h fun _ => rfl)
    fun _ => calmly_pure _

theorem calmly_rollbackNewWrites (h : Facade env I allowed)
    (ha : allowed (env.deployment parent)) : Calmly I (rollbackNewWrites env parent) :=
  calmly_bind (calmly_peek _) fun _ => calmly_bind (calmly_forEach (fun role =>
    calmly_bind (Cache.calmly_safeDelete h ha role) fun _ => calmly_pure _) _) fun _ =>
      calmly_update h fun _ => rfl

variable [DecidableEq κ] {check : Option String → CacheProg κ Unit}

theorem calmly_persist (h : Facade env I allowed) (ha : allowed (env.deployment parent))
    (hcheck : ∀ next, Calmly I (check next)) (pending : List (String × List UInt8))
    (revalidated : Option κ) : Calmly I (persist env check parent pending revalidated) := by
  refine calmly_bind (calmly_forEach (fun staged => calmly_bind (hcheck _) fun _ =>
    calmly_bind (Cache.calmly_safePut h ha _ _) fun _ => calmly_ite (fun _ => ?_)
      fun _ => calmly_pure _) _) fun _ =>
    calmly_bind (hcheck none) fun _ => calmly_raiseWhen _ _
  exact calmly_update h fun _ => rfl

theorem calmly_commit (h : Facade env I allowed) (hcheck : ∀ next, Calmly I (check next))
    (current revalidated : Option κ) :
    Calmly I (Transaction.commit env check current revalidated) := by
  refine calmly_peek_bind (φ := fun t => ∀ parent, t.parent = some parent →
    allowed (env.deployment parent)) h.parent fun txn htxn =>
    calmly_ite (fun _ => calmly_report h) fun _ => ?_
  split
  · exact calmly_bind (calmly_update h fun _ => rfl) fun _ => calmly_report h
  · rename_i parent hparent
    have ha := htxn parent hparent
    exact calmly_ite (fun _ => calmly_bind (calmly_abort h) fun _ => calmly_raise _) fun _ =>
      calmly_bind (calmly_tryCatch (calmly_persist h ha hcheck _ _) fun _ =>
        calmly_bind (calmly_rollbackNewWrites h ha) fun _ => calmly_bind (calmly_abort h) fun _ =>
        calmly_raise _) fun _ => calmly_bind (calmly_abort h) fun _ => calmly_report h

end Transaction

section Calls

variable [DecidableEq κ] {check : Option String → CacheProg κ Unit}

theorem Cache.calmly_commit (h : Facade env I allowed) (hcheck : ∀ next, Calmly I (check next))
    (current revalidated : Option κ) : Calmly I (Cache.commit env check current revalidated) := by
  refine calmly_bind (calmly_peek _) fun txn => ?_
  cases txn.parent with
  | none => exact Transaction.calmly_commit h hcheck none none
  | some parent =>
      cases current with
      | none => exact calmly_bind (Transaction.calmly_abort h) fun _ => calmly_raise _
      | some key =>
          exact calmly_bind (calmly_peek _) fun _ => calmly_ite
            (fun _ => Transaction.calmly_invalidated h)
            fun _ => Transaction.calmly_commit h hcheck (some key) revalidated

theorem Cache.calmly_assertCurrent (h : Facade env I allowed) (current : Option κ) :
    Calmly I (Cache.assertCurrent env current) := by
  refine calmly_peek_bind (φ := fun t => ∀ parent, t.parent = some parent →
    allowed (env.deployment parent)) h.parent fun txn htxn => ?_
  split
  · exact calmly_pure _
  · rename_i parent hparent
    exact calmly_ite (fun _ => calmly_bind
      (Transaction.calmly_rollbackNewWrites h (htxn parent hparent)) fun _ => calmly_raise _)
      fun _ => calmly_pure _

/-- Whatever a caller does with a transaction. -/
theorem calmly_transactionCall (h : Facade env I allowed) (c : TransactionCall κ) :
    Calmly I (c.run env) := by
  cases c with
  | stage role payload => exact Transaction.calmly_stage h role payload
  | reject role => exact Transaction.calmly_reject h role
  | abort => exact Transaction.calmly_abort h
  | report => exact Transaction.calmly_report h
  | commit current revalidated =>
      exact Cache.calmly_commit h (fun _ => calmly_act fun _ hs => hs) current revalidated
  | assertCurrent current => exact Cache.calmly_assertCurrent h current

end Calls

end ConditionCache

end NanoAural
