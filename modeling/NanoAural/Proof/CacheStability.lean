import NanoAural.ControlFoley.ConditionCache

/-!
# What the condition cache's programs leave alone

Most programs of the cache only delete files and add fuses, whatever befalls
their calls; they keep every property that survives both. A put links a payload
and then the record beside it, and keeps a property that survives these two steps
as well.
-/

namespace NanoAural

open Faulty Faulty.Prog

namespace ConditionCache

variable {κ : Type}

/-! ## What deleting and fusing cannot break -/

/-- `t` came of `t₀` by a transaction's own methods: it may have lost payloads, not gained any. -/
structure Held (t₀ t : Transaction κ) : Prop where
  begun : t.begun = t₀.begun
  parent : t.parent = t₀.parent
  generation : t.generation = t₀.generation
  payloads : ∀ e ∈ t.payloads, e ∈ t₀.payloads

theorem Held.refl (t : Transaction κ) : Held t t := ⟨rfl, rfl, rfl, fun _ h => h⟩

theorem Held.trans {a b c : Transaction κ} (h : Held a b) (h' : Held b c) : Held a c :=
  ⟨h'.begun.trans h.begun, h'.parent.trans h.parent, h'.generation.trans h.generation,
    fun e he => h.payloads e (h'.payloads e he)⟩

/-- What survives the deletion of files, the writing of fuses and all bookkeeping. -/
structure Settled (I : CacheState κ → Prop) : Prop where
  data : ∀ s digest, I s → I { s with data := s.data.erase digest }
  metas : ∀ s digest, I s → I { s with metas := s.metas.erase digest }
  access : ∀ s access, I s → I { s with access := access }
  readings : ∀ s n, I s → I { s with readings := n }
  storeFusesClosed : ∀ s, I s → I { s with storeFusesClosed := true }
  storeClosed : ∀ s, I s → I { s with storeClosed := true }
  fuse : ∀ s deployment, I s →
    I { s with deploymentFuses := s.deploymentFuses ++ [deployment] }
  fuseAll : ∀ s, I s → I { s with globalFuse := true }
  disable : ∀ s, I s → I { s with globallyDisabled := true }
  deployments : ∀ s deployments, I s → I { s with disabledDeployments := deployments }
  txn : ∀ s t, Held s.txn t → I s → I { s with txn := t }

variable {I : CacheState κ → Prop} (env : CacheEnv κ)

theorem always_catchIo {α : Type} {p handler : CacheProg κ α} (hp : Always I p)
    (hhandler : Always I handler) : Always I (catchIo p handler) := by
  refine always_tryCatch hp fun e => ?_
  cases e with
  | os | value => exact hhandler
  | drift | other | interrupt => exact always_raise _

theorem always_catchAny {α : Type} {p : CacheProg κ α} {handler : CacheRaise → CacheProg κ α}
    (hp : Always I p) (hhandler : ∀ e, Always I (handler e)) : Always I (catchAny p handler) := by
  refine always_tryCatch hp fun e => ?_
  cases e with
  | interrupt => exact always_raise _
  | os | value | drift | other => exact hhandler _

theorem always_sync : Always I (sync : CacheProg κ Unit) := always_act fun _ h => h

theorem always_now (h : Settled I) : Always I (now : CacheProg κ Nat) :=
  always_call fun s hs => h.readings s _ hs

theorem always_monotonicNs (h : Settled I) : Always I (monotonicNs : CacheProg κ Nat) :=
  always_call fun s hs => h.readings s _ hs

theorem always_requireFingerprint (deployment : String) :
    Always I (requireFingerprint deployment : CacheProg κ Unit) := always_raiseWhen _ _

/-! ### The fuse authorities -/

section Authority

variable (fuses : Authority κ)

theorem always_authority_ensureOpen : Always I fuses.ensureOpen :=
  always_bind (always_peek _) fun _ => always_raiseWhen _ _

theorem always_globalFused : Always I fuses.globalFused :=
  always_bind (always_authority_ensureOpen fuses) fun _ => always_look _

theorem always_deploymentFused (deployment : String) :
    Always I (fuses.deploymentFused deployment) :=
  always_bind (always_requireFingerprint _) fun _ =>
    always_bind (always_authority_ensureOpen fuses) fun _ => always_call fun s hs => by
      split <;> exact hs

theorem always_isFused (deployment : String) : Always I (fuses.isFused deployment) :=
  always_bind (always_requireFingerprint _) fun _ => always_bind (always_globalFused fuses) fun _ =>
    always_ite (fun _ => always_pure _) fun _ => always_deploymentFused fuses deployment

theorem always_writeOnce {named : Bool} {present : CacheState κ → Bool}
    {add : CacheState κ → CacheState κ} (hadd : ∀ s, I s → I (add s)) :
    Always I (fuses.writeOnce named present add) := by
  refine always_bind (always_authority_ensureOpen fuses) fun _ => always_bind ?_ fun _ =>
    always_ite (fun _ => always_pure _) fun _ => always_sync
  refine always_call fun s hs => ?_
  split
  · exact hs
  · split
    · exact hs
    · exact hadd s hs

theorem always_fuseDeployment (h : Settled I) (deployment : String) :
    Always I (fuses.fuseDeployment deployment) :=
  always_bind (always_requireFingerprint _) fun _ =>
    always_writeOnce fuses fun s hs => h.fuse s deployment hs

theorem always_fuseAll (h : Settled I) : Always I fuses.fuseAll :=
  always_writeOnce fuses fun s hs => h.fuseAll s hs

theorem always_authority_close {mark : CacheState κ → CacheState κ}
    (hmark : ∀ s, I s → I (mark s)) : Always I (fuses.close mark) :=
  always_bind (always_peek _) fun _ => always_ite (fun _ => always_pure _) fun _ =>
    always_bind always_sync fun _ => always_assign hmark

end Authority

/-! ### The store's methods -/

namespace Store

theorem always_ensureOpen : Always I (ensureOpen : CacheProg κ Unit) :=
  always_bind (always_peek _) fun _ => always_raiseWhen _ _

theorem always_deleteDigest (h : Settled I) (digest : String) :
    Always I (deleteDigest digest : CacheProg κ Unit) :=
  always_bind (always_act fun s hs => h.data s digest hs) fun _ =>
    always_bind (always_act fun s hs => h.metas s digest hs) fun _ =>
      always_assign fun s hs => h.access s _ hs

theorem always_readMetadata (digest : String) :
    Always I (readMetadata digest : CacheProg κ Metadata) := by
  refine always_call fun s hs => ?_
  split
  · exact hs
  · split <;> exact hs

theorem always_readData (digest : String) : Always I (readData env digest) := by
  refine always_call fun s hs => ?_
  split
  · exact hs
  · split <;> exact hs

theorem always_readEntry (h : Settled I) (parent : κ) (role : String) :
    Always I (readEntry env parent role) := by
  refine always_bind (always_look _) fun dataExists => always_bind (always_look _) fun metaExists =>
    always_ite (fun _ => always_pure _) fun _ => always_ite (fun _ => ?_) fun _ => ?_
  · exact always_bind (always_now h) fun _ => always_bind (always_look _) fun _ =>
      always_ite (fun _ => always_bind (always_deleteDigest h _) fun _ => always_pure _)
        fun _ => always_pure _
  · exact always_bind (always_readMetadata _) fun _ => always_bind (always_raiseWhen _ _) fun _ =>
      always_bind (always_raiseWhen _ _) fun _ => always_bind (always_readData env _) fun _ =>
      always_bind (always_raiseWhen _ _) fun _ => always_bind (always_raiseWhen _ _) fun _ =>
      always_bind (always_raiseWhen _ _) fun _ => always_bind (always_raiseWhen _ _) fun _ =>
      always_pure _

theorem always_getEntry (h : Settled I) (parent : κ) (role : String) :
    Always I (getEntry env parent role) := by
  refine always_bind always_ensureOpen fun _ => always_bind (always_isFused _ _) fun _ =>
    always_ite (fun _ => always_pure _) fun _ => always_bind ?_ fun entry => ?_
  · exact always_catchIo (always_readEntry env h parent role)
      (always_bind (always_deleteDigest h _) fun _ => always_pure _)
  · cases entry with
    | none => exact always_pure _
    | some entry =>
        exact always_bind (always_now h) fun _ => always_ite
          (fun _ => always_bind (always_deleteDigest h _) fun _ => always_pure _)
          fun _ => always_bind (always_monotonicNs h) fun _ =>
            always_bind (always_assign fun s hs => h.access s _ hs) fun _ => always_pure _

theorem always_metadataRecords (h : Settled I) :
    ∀ names, Always I (metadataRecords names : CacheProg κ (List (String × Metadata))) := by
  intro names
  induction names with
  | nil => exact always_pure _
  | cons digest rest ih =>
      refine always_bind (always_catchIo ?_ ?_) fun _ => always_bind ih fun _ => always_pure _
      · exact always_bind (always_readMetadata digest) fun _ => always_pure _
      · exact always_bind (always_deleteDigest h digest) fun _ => always_pure _

theorem always_allMetadata (h : Settled I) :
    Always I (allMetadata : CacheProg κ (List (String × Metadata))) :=
  always_bind (always_look _) fun names => always_metadataRecords h names

theorem always_evict (h : Settled I) :
    ∀ records total, Always I (evict env records total) := by
  intro records
  induction records with
  | nil => exact fun _ => always_pure _
  | cons record rest ih =>
      exact fun total => always_ite
        (fun _ => always_bind (always_deleteDigest h _) fun _ => ih _) fun _ => always_pure _

theorem always_enforceLimits (h : Settled I) : Always I (enforceLimits env) :=
  always_bind (always_allMetadata h) fun _ => always_bind (always_peek _) fun _ =>
    always_evict env h _ _

theorem always_cleanupEntry (h : Settled I) (now : Nat) (globallyFused : Bool) (digest : String) :
    Always I (cleanupEntry env now globallyFused digest) := by
  refine always_catchIo (always_bind (always_readMetadata digest) fun _ => always_bind ?_ fun _ =>
    always_ite (fun _ => always_deleteDigest h digest) fun _ => always_pure _)
    (always_deleteDigest h digest)
  exact always_ite (fun _ => always_pure _) fun _ => always_deploymentFused _ _

theorem always_cleanup (h : Settled I) : Always I (cleanup env) := by
  refine always_bind always_ensureOpen fun _ => always_bind (always_now h) fun _ =>
    always_bind (always_globalFused _) fun _ => always_bind (always_look _) fun _ =>
    always_bind (always_forEach (fun digest => ?_) _) fun _ =>
    always_bind (always_forEach (fun digest => ?_) _) fun _ =>
    always_bind (always_forEach (fun digest => always_cleanupEntry env h _ _ digest) _) fun _ =>
    always_bind (always_enforceLimits env h) fun _ => always_sync
  · exact always_bind (always_look _) fun _ => always_ite (fun _ => always_deleteDigest h digest)
      fun _ => always_pure _
  · exact always_bind (always_look _) fun _ => always_ite (fun _ => always_deleteDigest h digest)
      fun _ => always_pure _

theorem always_countEntries :
    ∀ records, Always I (countEntries records : CacheProg κ (Nat × Nat)) := by
  intro records
  induction records with
  | nil => exact always_pure _
  | cons record rest ih =>
      refine always_bind (always_tryCatch ?_ fun e => ?_) fun _ => always_bind ih fun _ =>
        always_pure _
      · exact always_bind (always_isFused _ _) fun _ =>
          always_ite (fun _ => always_pure _) fun _ => always_look _
      · cases e with
        | value => exact always_pure _
        | os | drift | other | interrupt => exact always_raise _

theorem always_snapshot (h : Settled I) : Always I (snapshot env) :=
  always_bind always_ensureOpen fun _ => always_bind (always_cleanup env h) fun _ =>
    always_bind (always_allMetadata h) fun _ => always_countEntries _

theorem always_delete (h : Settled I) (parent : κ) (role : String) :
    Always I (delete env parent role) :=
  always_bind always_ensureOpen fun _ => always_bind (always_deleteDigest h _) fun _ => always_sync

theorem always_close (h : Settled I) : Always I (close env) :=
  always_bind (always_peek _) fun _ => always_ite (fun _ => always_pure _) fun _ =>
    always_bind (always_cleanup env h) fun _ =>
    always_bind (always_authority_close _ fun s hs => h.storeFusesClosed s hs) fun _ =>
    always_bind always_sync fun _ => always_assign fun s hs => h.storeClosed s hs

/-! ### A put -/

/-- What `put_if_absent` asks of a property: it survives linking the payload, and linking the
record beside the payload just linked. -/
structure Publishable (env : CacheEnv κ) (parent : κ) (role : String) (payload : List UInt8)
    (I : CacheState κ → Prop) : Prop where
  data : ∀ s t, I s → I { s with
    data := s.data.insert (env.keyDigest parent role) ⟨payload, s.txn.begun, t⟩ }
  metas : ∀ s now t, I s →
    (∃ t', s.data.lookup (env.keyDigest parent role) = some ⟨payload, s.txn.begun, t'⟩) →
    I { s with
      metas := s.metas.insert (env.keyDigest parent role)
        (MetaFile.mk (some (newMetadata env parent role payload now)) t) }

variable {parent : κ} {role : String} {payload : List UInt8}

/-- The payload at hand is linked under its digest. -/
def Linked (digest : String) (payload : List UInt8) (s : CacheState κ) : Prop :=
  ∃ t, s.data.lookup digest = some ⟨payload, s.txn.begun, t⟩

theorem publishData_linked (hp : Publishable env parent role payload I) :
    Triple I (publishData (env.keyDigest parent role) payload) fun x s =>
      I s ∧ (x = .returned true → Linked (env.keyDigest parent role) payload s) := by
  refine triple_bind (R := fun x s =>
      I s ∧ (x = .returned true → Linked (env.keyDigest parent role) payload s))
    (triple_call ?_ ?_ ?_ ?_) (fun linked => ?_) (fun e s h => ⟨h.1, by simp⟩)
    fun s h => ⟨h.1, by simp⟩
  · intro s a s' hs heq
    split at heq
    · obtain ⟨ha, rfl⟩ := Prod.mk.inj heq
      refine ⟨hs, fun h => ?_⟩
      cases ha
      cases h
    · obtain ⟨_, rfl⟩ := Prod.mk.inj heq
      exact ⟨hp.data s _ hs, fun _ => ⟨_, AList.lookup_insert _⟩⟩
  · intro s e s' hs heq
    split at heq <;> cases heq
  · intro e s hs
    refine ⟨⟨hs, by simp⟩, ?_, by simp⟩
    split
    · exact hs
    · exact hp.data s _ hs
  · intro s hs
    refine ⟨⟨hs, by simp⟩, ?_, by simp⟩
    split
    · exact hs
    · exact hp.data s _ hs
  · refine triple_ite (fun h => ?_) fun h => ?_
    · subst h
      refine triple_bind (R := fun _ s => I s ∧ Linked (env.keyDigest parent role) payload s)
        (triple_act (fun s h => ⟨h.1, h.2 rfl⟩) (fun e s h => ?_) fun s h => ?_) (fun _ => ?_)
        (fun _ s h => ⟨h.1, by simp⟩) fun s h => ⟨h.1, by simp⟩
      · exact ⟨⟨h.1, h.2 rfl⟩, h.1, h.2 rfl⟩
      · exact ⟨⟨h.1, h.2 rfl⟩, h.1, h.2 rfl⟩
      · exact triple_pure fun s h => ⟨h.1, fun _ => h.2⟩
    · exact triple_pure fun s h' => ⟨h'.1, by simp⟩

theorem publishMeta_keeps (hp : Publishable env parent role payload I) (now : Nat) :
    Triple (fun s => I s ∧ Linked (env.keyDigest parent role) payload s)
      (publishMeta (env.keyDigest parent role) (newMetadata env parent role payload now))
      fun _ s => I s := by
  refine triple_bind (R := fun _ s => I s) (triple_call ?_ ?_ ?_ ?_) (fun linked => ?_)
    (fun _ _ h => h) fun _ h => h
  · intro s a s' hs heq
    split at heq
    · obtain ⟨_, rfl⟩ := Prod.mk.inj heq
      exact hs.1
    · obtain ⟨_, rfl⟩ := Prod.mk.inj heq
      exact hp.metas s now _ hs.1 hs.2
  · intro s e s' hs heq
    split at heq <;> cases heq
  · intro e s hs
    refine ⟨hs.1, ?_⟩
    split
    · exact hs.1
    · exact hp.metas s now _ hs.1 hs.2
  · intro s hs
    refine ⟨hs.1, ?_⟩
    split
    · exact hs.1
    · exact hp.metas s now _ hs.1 hs.2
  · exact always_ite (fun _ => always_bind always_sync fun _ => always_pure _)
      fun _ => always_pure _

theorem always_putIfAbsent (h : Settled I) (hp : Publishable env parent role payload I) :
    Always I (putIfAbsent env parent role payload) := by
  refine always_bind (always_raiseWhen _ _) fun _ => always_ite (fun _ => always_pure _) fun _ =>
    always_bind (always_raiseWhen _ _) fun _ => always_bind always_ensureOpen fun _ =>
    always_bind (always_isFused _ _) fun _ => always_ite (fun _ => always_pure _) fun _ =>
    always_bind (always_getEntry env h parent role) fun existing => ?_
  cases existing with
  | some entry => exact always_pure _
  | none =>
      refine always_bind (always_now h) fun now => triple_bind (publishData_linked env hp)
        (fun stored => ?_) (fun _ _ h => h.1) fun _ h => h.1
      cases stored with
      | false =>
          refine Triple.weaken (P := I) (Q := fun _ s => I s) ?_ (fun s hs => hs.1) fun _ _ hs => hs
          refine always_bind (always_readEntry env h parent role) fun concurrent => ?_
          cases concurrent with
          | some entry => exact always_pure _
          | none => exact always_pure _
      | true =>
          refine triple_bind (R := fun _ s => I s) ?_ (fun metaStored => ?_) (fun _ _ h => h)
            fun _ h => h
          · refine triple_tryCatch (R := fun _ s => I s) ((publishMeta_keeps env hp now).weaken
              (fun s hs => ⟨hs.1, hs.2 rfl⟩) fun _ _ hs => hs) (fun e => ?_) (fun _ _ h => h)
              fun _ h => h
            cases e with
            | interrupt => exact always_raise _
            | os | value | drift | other =>
                exact always_bind (always_act fun s hs => h.data s _ hs) fun _ => always_raise _
          · refine always_ite (fun _ => ?_) fun _ => ?_
            · exact always_bind (always_act fun s hs => h.data s _ hs) fun _ => always_pure _
            · exact always_bind (always_monotonicNs h) fun _ =>
                always_bind (always_assign fun s hs => h.access s _ hs) fun _ =>
                always_bind (always_enforceLimits env h) fun _ =>
                always_bind always_sync fun _ => always_bind (always_look _) fun _ => always_pure _

end Store

/-! ### The facade's methods -/

namespace Cache

theorem always_isDisabled (h : Settled I) (deployment : String) :
    Always I (isDisabled deployment : CacheProg κ Bool) :=
  always_bind (always_peek _) fun _ => always_ite (fun _ => always_pure _) fun _ =>
    always_catchAny (always_isFused _ deployment) fun _ =>
      always_bind (always_assign fun s hs => h.disable s hs) fun _ => always_pure _

theorem always_fuseAll (h : Settled I) : Always I (fuseAll : CacheProg κ Bool) :=
  always_bind (always_assign fun s hs => h.disable s hs) fun _ =>
    always_catchAny (always_bind (ConditionCache.always_fuseAll _ h) fun _ => always_pure _)
      fun _ => always_pure _

theorem always_fuseDeployment (h : Settled I) (deployment : String) :
    Always I (fuseDeployment deployment : CacheProg κ Bool) :=
  always_bind (always_assign fun s hs => h.deployments s _ hs) fun _ =>
    always_catchAny (always_bind (ConditionCache.always_fuseDeployment _ h deployment) fun _ =>
      always_pure _) fun _ => always_fuseAll h

theorem always_safePut (h : Settled I) {parent : κ} {role : String} {payload : List UInt8}
    (hp : Store.Publishable env parent role payload I) :
    Always I (safePut env parent role payload) := by
  refine always_bind (always_isDisabled h _) fun _ => always_ite (fun _ => always_pure _) fun _ =>
    always_catchAny (always_bind (Store.always_putIfAbsent env h hp) fun outcome => ?_) fun _ =>
      always_bind (always_fuseDeployment h _) fun _ => always_pure _
  cases outcome with
  | stored | present | rejected => exact always_pure _
  | conflict | fault => exact always_bind (always_fuseDeployment h _) fun _ => always_pure _

theorem always_safeDelete (h : Settled I) (parent : κ) (role : String) :
    Always I (safeDelete env parent role) :=
  always_bind (always_isDisabled h _) fun _ => always_ite (fun _ => always_pure _) fun _ =>
    always_catchAny (always_bind (Store.always_delete env h parent role) fun _ => always_pure _)
      fun _ => always_bind (always_fuseDeployment h _) fun _ => always_pure _

theorem always_safeSnapshot (h : Settled I) : Always I (safeSnapshot env) :=
  always_bind (always_peek _) fun _ => always_ite (fun _ => always_pure _) fun _ =>
    always_catchAny (always_bind (Store.always_snapshot env h) fun _ => always_pure _)
      fun _ => always_pure _

end Cache

/-! ### The transaction's methods -/

namespace Transaction

theorem always_update (h : Settled I) {f : Transaction κ → Transaction κ}
    (hf : ∀ t, Held t (f t)) : Always I (update f) :=
  always_assign fun s hs => h.txn s _ (hf s.txn) hs

theorem always_abort (h : Settled I) : Always I (abort : CacheProg κ Unit) :=
  always_update h fun _ => ⟨rfl, rfl, rfl, fun _ he => he⟩

theorem always_report (h : Settled I) : Always I (report env) :=
  always_bind (always_peek _) fun _ => always_ite (fun _ => always_pure _) fun _ =>
    always_bind (Cache.always_safeSnapshot env h) fun _ => always_pure _

theorem always_invalidated (h : Settled I) : Always I (invalidated env) :=
  always_bind (always_abort h) fun _ => always_report env h

theorem always_reject (h : Settled I) (role : String) : Always I (reject env role) := by
  refine always_bind (always_peek _) fun txn => ?_
  split
  · exact always_pure _
  · refine always_ite (fun _ => always_bind (always_update h fun t => ?_) fun _ =>
      always_bind (Cache.always_safeDelete env h _ role) fun _ => always_pure _)
      fun _ => always_pure _
    exact ⟨rfl, rfl, rfl, fun e he => (List.mem_filter.mp he).1⟩

theorem always_stage (h : Settled I) (role : String) (payload : List UInt8) :
    Always I (stage role payload : CacheProg κ Unit) :=
  always_bind (always_peek _) fun _ => always_ite
    (fun _ => always_update h fun _ => ⟨rfl, rfl, rfl, fun _ he => he⟩) fun _ => always_pure _

theorem always_rollbackNewWrites (h : Settled I) (parent : κ) :
    Always I (rollbackNewWrites env parent) :=
  always_bind (always_peek _) fun _ => always_bind (always_forEach (fun role =>
    always_bind (Cache.always_safeDelete env h parent role) fun _ => always_pure _) _) fun _ =>
      always_update h fun _ => ⟨rfl, rfl, rfl, fun _ he => he⟩

variable [DecidableEq κ]

theorem always_persist (h : Settled I) {parent : κ}
    (hp : ∀ role payload, Store.Publishable env parent role payload I)
    (pending : List (String × List UInt8)) (revalidated : Option κ) :
    Always I (persist env (fun _ => act id) parent pending revalidated) := by
  refine always_bind (always_forEach (fun staged => always_bind (always_act fun _ h => h) fun _ =>
    always_bind (Cache.always_safePut env h (hp _ _)) fun _ => always_ite (fun _ => ?_)
      fun _ => always_pure _) _) fun _ =>
    always_bind (always_act fun _ h => h) fun _ => always_raiseWhen _ _
  exact always_update h fun _ => ⟨rfl, rfl, rfl, fun _ he => he⟩

end Transaction

end ConditionCache

end NanoAural
