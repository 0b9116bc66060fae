import NanoAural.Proof.CacheStability

/-!
# An invalidated payload stays invalidated

A payload file beside a metadata record is under a fuse, or was staged by a
transaction begun after every invalidation of its deployment. A commit pairs only
what it staged itself, and the generation stops it where it began before an
invalidation; an invalidation clears a fuse only where it has left no record. So
whatever befalls the calls, across every restart, no later transaction reads what
was staged before.
-/

namespace NanoAural

open Faulty Faulty.Prog

namespace ConditionCache

variable {κ : Type} (env : CacheEnv κ)

/-! ## The fence -/

/-- `origin` is later than every invalidation of the deployment. -/
def Fresh (invs : List Invalidation) (deployment : String) (origin : Nat) : Prop :=
  ∀ inv ∈ invs, inv.covers deployment → inv.stamp < origin

/-- `is_fused`. -/
def CacheDisk.Fused (disk : CacheDisk) (deployment : String) : Prop :=
  disk.globalFuse = true ∨ deployment ∈ disk.deploymentFuses

/-- There is a record under the digest that parses. -/
def Recorded (metas : Directory MetaFile) (digest : String) (m : Metadata) : Prop :=
  ∃ t, metas.lookup digest = some ⟨some m, t⟩

theorem Recorded.unique {metas : Directory MetaFile} {digest : String} {m m' : Metadata}
    (h : Recorded metas digest m) (h' : Recorded metas digest m') : m = m' := by
  obtain ⟨t, h⟩ := h
  obtain ⟨t', h'⟩ := h'
  rw [h] at h'
  cases h'
  rfl

theorem Recorded.of_erase {metas : Directory MetaFile} {digest digest' : String} {m : Metadata}
    (h : Recorded (metas.erase digest) digest' m) : digest' ≠ digest ∧ Recorded metas digest' m := by
  obtain ⟨t, h⟩ := h
  by_cases heq : digest' = digest
  · subst heq
    rw [AList.lookup_erase] at h
    cases h
  · exact ⟨heq, t, by rwa [AList.lookup_erase_ne heq] at h⟩

/-- Every payload beside a record is under a fuse, or fresh. -/
def CacheDisk.Fenced (invs : List Invalidation) (disk : CacheDisk) : Prop :=
  ∀ digest file m, disk.data.lookup digest = some file → Recorded disk.metas digest m →
    disk.Fused m.deploymentFingerprint ∨ Fresh invs m.deploymentFingerprint file.origin

theorem lookup_erase_some {φ : Type} {d : Directory φ} {digest digest' : String} {a : φ}
    (h : (d.erase digest).lookup digest' = some a) :
    digest' ≠ digest ∧ d.lookup digest' = some a := by
  by_cases heq : digest' = digest
  · subst heq
    rw [AList.lookup_erase] at h
    cases h
  · exact ⟨heq, by rwa [AList.lookup_erase_ne heq] at h⟩

/-- What every program keeps that does not invalidate: the fence, and its object's memory as it
was. -/
structure Quiet (invs : List Invalidation) (s₀ s : CacheState κ) : Prop where
  fenced : s.toCacheDisk.Fenced invs
  generation : s.generation = s₀.generation
  fusesClosed : s.fusesClosed = s₀.fusesClosed
  /-- A closed cache stays disabled. -/
  closed : s.fusesClosed = true → s.globallyDisabled = true

variable {invs : List Invalidation} {s₀ : CacheState κ}

theorem CacheDisk.Fenced.erase {data data' : Directory DataFile} {metas metas' : Directory MetaFile}
    {disk : CacheDisk} (h : disk.Fenced invs)
    (hdata : ∀ digest file, data'.lookup digest = some file → data.lookup digest = some file)
    (hmetas : ∀ digest file, metas'.lookup digest = some file → metas.lookup digest = some file)
    (hd : disk.data = data) (hm : disk.metas = metas) :
    CacheDisk.Fenced invs { disk with data := data', metas := metas' } := by
  subst hd hm
  intro digest file m hfile ⟨t, hrecord⟩
  exact h digest file m (hdata digest file hfile) ⟨t, hmetas digest _ hrecord⟩

theorem CacheDisk.Fenced.fuse {disk : CacheDisk} (h : disk.Fenced invs) (fuses : List String)
    (all : Bool) (hfuses : ∀ d ∈ disk.deploymentFuses, d ∈ fuses)
    (hall : disk.globalFuse = true → all = true) :
    CacheDisk.Fenced invs { disk with deploymentFuses := fuses, globalFuse := all } := by
  intro digest file m hfile hrecord
  refine (h digest file m hfile hrecord).imp (fun hfused => ?_) fun hfresh => hfresh
  exact hfused.imp hall (hfuses _)

/-- The fence, with a property of the object's memory that disabling keeps. -/
theorem settled_fenced {F : FacadeMemory → Prop}
    (hdisable : ∀ i, F i → F { i with globallyDisabled := true })
    (hdeployments : ∀ i deployments, F i → F { i with disabledDeployments := deployments }) :
    Settled fun s : CacheState κ => s.toCacheDisk.Fenced invs ∧ F s.toFacadeMemory where
  data _ _ h := ⟨h.1.erase (fun _ _ hl => (lookup_erase_some hl).2) (fun _ _ hl => hl) rfl rfl, h.2⟩
  metas _ _ h := ⟨h.1.erase (fun _ _ hl => hl) (fun _ _ hl => (lookup_erase_some hl).2) rfl rfl, h.2⟩
  access _ _ h := h
  readings _ _ h := h
  storeFusesClosed _ h := h
  storeClosed _ h := h
  fuse _ _ h := ⟨h.1.fuse _ _ (fun _ hd => List.mem_append_left _ hd) fun hg => hg, h.2⟩
  fuseAll _ h := ⟨h.1.fuse _ _ (fun _ hd => hd) fun _ => rfl, h.2⟩
  disable _ h := ⟨h.1, hdisable _ h.2⟩
  deployments _ _ h := ⟨h.1, hdeployments _ _ h.2⟩
  txn _ _ _ h := h

theorem quiet_iff {s : CacheState κ} : Quiet invs s₀ s ↔ s.toCacheDisk.Fenced invs ∧
    s.generation = s₀.generation ∧ s.fusesClosed = s₀.fusesClosed ∧
      (s.fusesClosed = true → s.globallyDisabled = true) :=
  ⟨fun h => ⟨h.fenced, h.generation, h.fusesClosed, h.closed⟩,
    fun h => ⟨h.1, h.2.1, h.2.2.1, h.2.2.2⟩⟩

theorem settled_quiet : Settled (Quiet invs s₀) := by
  have heq : Quiet invs s₀ = fun s : CacheState κ => s.toCacheDisk.Fenced invs ∧
      s.generation = s₀.generation ∧ s.fusesClosed = s₀.fusesClosed ∧
        (s.fusesClosed = true → s.globallyDisabled = true) := funext fun s => propext quiet_iff
  rw [heq]
  exact settled_fenced (F := fun i => i.generation = s₀.generation ∧
    i.fusesClosed = s₀.fusesClosed ∧ (i.fusesClosed = true → i.globallyDisabled = true))
    (fun i hi => ⟨hi.1, hi.2.1, fun _ => rfl⟩) fun i _ hi => hi

/-- A property that says nothing of the transaction, with one of the transaction alone. -/
theorem Settled.with {I : CacheState κ → Prop} (hI : Settled I)
    (hany : ∀ s t, I s → I { s with txn := t }) {T : Transaction κ → Prop}
    (hT : ∀ t t', Held t t' → T t → T t') : Settled fun s => I s ∧ T s.txn where
  data s digest h := ⟨hI.data s digest h.1, h.2⟩
  metas s digest h := ⟨hI.metas s digest h.1, h.2⟩
  access s a h := ⟨hI.access s a h.1, h.2⟩
  readings s n h := ⟨hI.readings s n h.1, h.2⟩
  storeFusesClosed s h := ⟨hI.storeFusesClosed s h.1, h.2⟩
  storeClosed s h := ⟨hI.storeClosed s h.1, h.2⟩
  fuse s d h := ⟨hI.fuse s d h.1, h.2⟩
  fuseAll s h := ⟨hI.fuseAll s h.1, h.2⟩
  disable s h := ⟨hI.disable s h.1, h.2⟩
  deployments s ds h := ⟨hI.deployments s ds h.1, h.2⟩
  txn s t ht h := ⟨hany s t h.1, hT _ _ ht h.2⟩

theorem Quiet.any {s : CacheState κ} (t : Transaction κ) (h : Quiet invs s₀ s) :
    Quiet invs s₀ { s with txn := t } := ⟨h.fenced, h.generation, h.fusesClosed, h.closed⟩

/-- What a method of a transaction keeps. -/
def Kept (invs : List Invalidation) (s₀ s : CacheState κ) : Prop :=
  Quiet invs s₀ s ∧ Held s₀.txn s.txn

theorem settled_kept : Settled (Kept invs s₀) :=
  settled_quiet.with (fun _ t h => h.any t) fun _ _ ht h => h.trans ht

/-- A transaction later than every invalidation may put. -/
theorem publishable_kept (hlater : ∀ inv ∈ invs, inv.stamp < s₀.txn.begun) (parent : κ)
    (role : String) (payload : List UInt8) :
    Store.Publishable env parent role payload (Kept invs s₀) where
  data s t h := by
    refine ⟨⟨?_, h.1.generation, h.1.fusesClosed, h.1.closed⟩, h.2⟩
    intro digest file m hfile hrecord
    by_cases heq : digest = env.keyDigest parent role
    · subst heq
      change AList.lookup _ (AList.insert _ _ _) = _ at hfile
      rw [AList.lookup_insert] at hfile
      cases hfile
      refine .inr fun inv hinv _ => ?_
      change inv.stamp < s.txn.begun
      rw [h.2.begun]
      exact hlater inv hinv
    · change AList.lookup _ (AList.insert _ _ _) = _ at hfile
      rw [AList.lookup_insert_ne heq] at hfile
      exact h.1.fenced digest file m hfile hrecord
  metas s now t h hlinked := by
    refine ⟨⟨?_, h.1.generation, h.1.fusesClosed, h.1.closed⟩, h.2⟩
    intro digest file m hfile hrecord
    by_cases heq : digest = env.keyDigest parent role
    · subst heq
      obtain ⟨t', hlinked⟩ := hlinked
      have hmark : file = ⟨payload, s.txn.begun, t'⟩ := Option.some.inj (hfile.symm.trans hlinked)
      refine .inr fun inv hinv _ => ?_
      rw [hmark]
      change inv.stamp < s.txn.begun
      rw [h.2.begun]
      exact hlater inv hinv
    · obtain ⟨t', hrecord⟩ := hrecord
      change AList.lookup _ (AList.insert _ _ _) = _ at hrecord
      rw [AList.lookup_insert_ne heq] at hrecord
      exact h.1.fenced digest file m hfile ⟨t', hrecord⟩

/-! ## Reading -/

section Reading

variable {I : CacheState κ → Prop}

theorem yields_catchIo {α : Type} {P : CacheState κ → Prop} {p handler : CacheProg κ α}
    {φ : α → CacheState κ → Prop} (hp : Yields P I p φ) (hhandler : Yields I I handler φ) :
    Yields P I (catchIo p handler) φ := by
  refine yields_tryCatch hp fun e => ?_
  cases e with
  | os | value => exact hhandler
  | drift | other | interrupt => exact yields_raise fun _ hs => hs

theorem yields_catchAny {α : Type} {P : CacheState κ → Prop} {p : CacheProg κ α}
    {handler : CacheRaise → CacheProg κ α} {φ : α → CacheState κ → Prop} (hp : Yields P I p φ)
    (hhandler : ∀ e, Yields I I (handler e) φ) : Yields P I (catchAny p handler) φ := by
  refine yields_tryCatch hp fun e => ?_
  cases e with
  | interrupt => exact yields_raise fun _ hs => hs
  | os | value | drift | other => exact hhandler _

theorem isFused_unfused (fuses : Authority κ) (deployment : String) :
    Yields I I (fuses.isFused deployment) fun fused s =>
      fused = false → ¬ s.toCacheDisk.Fused deployment := by
  refine (always_requireFingerprint deployment).yields_bind (fun _ hs => hs) fun _ => yields_bind (φ := fun fused s => s.globalFuse = fused) ?_ fun fused => ?_
  · exact (always_authority_ensureOpen fuses).yields_bind (fun _ hs => hs) fun _ =>
      yields_look (fun _ hs => hs) fun _ _ => rfl
  · refine yields_ite (fun h => ?_) fun h => ?_
    · exact yields_pure (fun _ hs => hs.1) fun _ _ => by simp
    · rw [Bool.not_eq_true] at h
      subst h
      refine (always_requireFingerprint deployment).yields_bind (fun _ hs => hs.1) fun _ =>
        (always_authority_ensureOpen fuses).yields_bind (fun _ hs => hs.1) fun _ =>
        yields_call (fun _ hs => hs.1) (fun s hs => ?_) fun s fused s' hs heq hnot => ?_
      · split <;> exact hs.1
      · split at heq
        · obtain ⟨hfused, rfl⟩ := Prod.mk.inj heq
          rintro (hglobal | hmem)
          · exact absurd (hs.2.symm.trans hglobal) (by decide)
          · exact absurd (List.contains_iff_mem.mpr hmem)
              (by rw [Except.ok.inj hfused, hnot]; decide)
        · cases (Prod.mk.inj heq).1

theorem readMetadata_recorded {P : CacheState κ → Prop} (hI : ∀ s, P s → I s) (digest : String) :
    Yields P I (Store.readMetadata digest) fun m s => P s ∧ Recorded s.metas digest m := by
  refine yields_call hI (fun s hs => ?_) fun s a s' hs heq => ?_
  · split
    · exact hI s hs
    · split <;> exact hI s hs
  · split at heq
    · cases heq
    · rename_i file hfile
      split at heq
      · cases heq
      · rename_i m hcontent
        obtain ⟨ha, rfl⟩ := Prod.mk.inj heq
        refine ⟨hs, file.mtime, ?_⟩
        rw [← Except.ok.inj ha, hfile, ← hcontent]

theorem readData_found {P : CacheState κ → Prop} (hI : ∀ s, P s → I s) (digest : String) :
    Yields P I (Store.readData env digest) fun file s =>
      P s ∧ s.data.lookup digest = some file := by
  refine yields_call hI (fun s hs => ?_) fun s a s' hs heq => ?_
  · split
    · exact hI s hs
    · split <;> exact hI s hs
  · split at heq
    · cases heq
    · rename_i file hfile
      split at heq
      · cases heq
      · obtain ⟨ha, rfl⟩ := Prod.mk.inj heq
        rw [← Except.ok.inj ha]
        exact ⟨hs, hfile⟩

theorem yields_none {P : CacheState κ → Prop} {φ : CacheEntry → Prop} (hI : ∀ s, P s → I s) :
    Yields P I (pure none : CacheProg κ (Option CacheEntry)) fun a _ => ∀ e ∈ a, φ e :=
  yields_pure hI fun _ _ _ he => by cases he

/-- A payload that is read is fresh, where no fuse stands. -/
theorem readEntry_fresh (hI : Settled I) (hfenced : ∀ s, I s → s.toCacheDisk.Fenced invs)
    (parent : κ) (role : String) :
    Yields (fun s => I s ∧ ¬ s.toCacheDisk.Fused (env.deployment parent)) I
      (Store.readEntry env parent role)
      fun a _ => ∀ e ∈ a, Fresh invs (env.deployment parent) e.origin := by
  have hout : ∀ s, I s ∧ ¬ s.toCacheDisk.Fused (env.deployment parent) → I s := fun _ hs => hs.1
  refine (always_look _).yields_bind hout fun dataExists => (always_look _).yields_bind hout
    fun metaExists => yields_ite (fun _ => yields_none hout) fun _ => yields_ite (fun _ => ?_)
      fun _ => ?_
  · -- one file without the other: nothing is read
    refine Yields.weaken (P := I) ?_ hout fun _ _ _ h => h
    refine (always_now hI).yields_bind (fun _ hs => hs) fun _ => (always_look _).yields_bind
      (fun _ hs => hs) fun _ => yields_ite (fun _ => ?_) fun _ => yields_none fun _ hs => hs
    exact (Store.always_deleteDigest hI _).yields_bind (fun _ hs => hs) fun _ =>
      yields_none fun _ hs => hs
  · -- what a record that binds the key says is looked up in the fence
    refine yields_bind (readMetadata_recorded hout _) fun m => yields_bind
      (yields_raiseWhen fun _ hs => hs.1) fun _ => (always_raiseWhen _ _).yields_bind
      (fun _ hs => hs.1) fun _ => yields_bind (readData_found env (fun _ hs => hs.1) _) fun file => ?_
    refine (always_raiseWhen _ _).yields_bind (fun _ hs => hs.1) fun _ =>
      (always_raiseWhen _ _).yields_bind (fun _ hs => hs.1) fun _ =>
      (always_raiseWhen _ _).yields_bind (fun _ hs => hs.1) fun _ =>
      (always_raiseWhen _ _).yields_bind (fun _ hs => hs.1) fun _ =>
      yields_pure (fun _ hs => hs.1) fun s hs e he => ?_
    obtain ⟨hs, ⟨-, hbinds, -, ⟨-, hfused⟩, hrecorded⟩, hfile⟩ := hs
    have hdeployment : m.deploymentFingerprint = env.deployment parent := by
      simp only [Store.binds, Bool.not_eq_eq_eq_not, Bool.not_false, Bool.and_eq_true,
        beq_iff_eq] at hbinds
      exact hbinds.1.1.2
    cases he
    have hfence := hfenced s hs _ file m hfile hrecorded
    rw [hdeployment] at hfence
    exact hfence.resolve_left hfused

theorem getEntry_fresh (hI : Settled I) (hfenced : ∀ s, I s → s.toCacheDisk.Fenced invs)
    (parent : κ) (role : String) :
    Yields I I (Store.getEntry env parent role)
      fun a _ => ∀ e ∈ a, Fresh invs (env.deployment parent) e.origin := by
  refine Store.always_ensureOpen.yields_bind (fun _ hs => hs) fun _ => yields_bind
    (isFused_unfused Authority.store (env.deployment parent)) fun fused => yields_ite
      (fun _ => yields_none fun _ hs => hs.1) fun hfused => ?_
  rw [Bool.not_eq_true] at hfused
  refine yields_bind (yields_catchIo ((readEntry_fresh env hI hfenced parent role).weaken
    (fun _ hs => ⟨hs.1, hs.2 hfused⟩) fun _ _ _ h => h) ?_) fun entry => yields_assume fun he => ?_
  · exact (Store.always_deleteDigest hI _).yields_bind (fun _ hs => hs) fun _ =>
      yields_none fun _ hs => hs
  · cases entry with
    | none => exact yields_none fun _ hs => hs
    | some entry =>
        refine (always_now hI).yields_bind (fun _ hs => hs) fun _ => yields_ite (fun _ => ?_)
          fun _ => ?_
        · exact (Store.always_deleteDigest hI _).yields_bind (fun _ hs => hs) fun _ =>
            yields_none fun _ hs => hs
        · exact (always_monotonicNs hI).yields_bind (fun _ hs => hs) fun _ =>
            (always_assign fun s hs => hI.access s _ hs).yields_bind (fun _ hs => hs) fun _ =>
            yields_pure (fun _ hs => hs) fun _ _ => he

end Reading

/-! ## Beginning and committing -/

/-- Only an open cache is not disabled. -/
theorem isDisabled_open {I : CacheState κ → Prop} (hI : Settled I)
    (hquiet : ∀ s, I s → Quiet invs s₀ s) (deployment : String) :
    Yields I I (Cache.isDisabled deployment) fun disabled _ =>
      disabled = false → s₀.fusesClosed = false := by
  refine yields_bind (φ := fun disabled _ => disabled = false → s₀.fusesClosed = false)
    (yields_peek (fun _ hs => hs) fun s hs hdisabled => ?_) fun disabled => yields_assume fun h =>
      yields_ite (fun hd => ?_) fun hd => ?_
  · rw [Bool.or_eq_false_iff] at hdisabled
    have hnot : s.fusesClosed ≠ true := fun hclosed =>
      absurd ((hquiet s hs).closed hclosed) (by rw [hdisabled.1]; decide)
    rw [← (hquiet s hs).fusesClosed, ← Bool.not_eq_true]
    exact hnot
  · exact yields_pure (fun _ hs => hs) fun _ _ => by simp
  · rw [Bool.not_eq_true] at hd
    exact Always.yields_of (always_catchAny (always_isFused Authority.facade deployment) fun _ =>
      always_bind (always_assign fun s hs => hI.disable s hs) fun _ => always_pure _)
      fun _ _ _ _ => h hd

/-- What a transaction knows of its beginning. -/
structure Begun (invs : List Invalidation) (s₀ : CacheState κ) (begun : Nat) (t : Transaction κ) :
    Prop where
  begun : t.begun = begun
  generation : t.generation = s₀.generation
  live : t.parent ≠ none → s₀.fusesClosed = false
  payloads : ∀ parent, t.parent = some parent →
    ∀ e ∈ t.payloads, Fresh invs (env.deployment parent) e.2.2

theorem Begun.held {begun : Nat} {t t' : Transaction κ} (h : Begun env invs s₀ begun t)
    (ht : Held t t') : Begun env invs s₀ begun t' where
  begun := ht.begun.trans h.begun
  generation := ht.generation.trans h.generation
  live hp := h.live (ht.parent ▸ hp)
  payloads parent hp e he := h.payloads parent (ht.parent ▸ hp) e (ht.payloads e he)

theorem begun_parentless {begun : Nat} {roles : List String} {disabled : Bool} :
    Begun env invs s₀ begun (Cache.parentless begun roles s₀.generation disabled) :=
  ⟨rfl, rfl, fun h => absurd rfl h, fun _ h => by cases h⟩

/-- Reading one role adds a fresh payload or none. -/
theorem read_begun (begun : Nat) (parent : κ) (role : String) :
    Always (fun s => Quiet invs s₀ s ∧ (Begun env invs s₀ begun s.txn ∧ s.txn.parent = some parent))
      (Transaction.read env parent role) := by
  have hsettled : Settled fun s : CacheState κ =>
      Quiet invs s₀ s ∧ (Begun env invs s₀ begun s.txn ∧ s.txn.parent = some parent) :=
    settled_quiet.with (T := fun t => Begun env invs s₀ begun t ∧ t.parent = some parent)
      (fun _ t h => h.any t) fun _ _ ht h => ⟨h.1.held env ht, ht.parent.trans h.2⟩
  refine Yields.always (φ := fun _ _ => True) (yields_bind (yields_catchAny
    (φ := fun a _ => ∀ e ∈ a, Fresh invs (env.deployment parent) e.origin) ?_ fun _ =>
      yields_none fun _ hs => hs) fun entry => yields_assume fun he => ?_)
  · exact (Cache.always_isDisabled hsettled _).yields_bind (fun _ hs => hs) fun _ =>
      (always_raiseWhen _ _).yields_bind (fun _ hs => hs) fun _ =>
      getEntry_fresh env hsettled (fun s hs => hs.1.fenced) parent role
  · cases entry with
    | none => exact yields_pure (fun _ hs => hs) fun _ _ => True.intro
    | some entry =>
        refine yields_assign (fun s hs => ⟨hs.1.any _, ⟨hs.2.1.begun, hs.2.1.generation,
          hs.2.1.live, fun parent' hp e hmem => ?_⟩, hs.2.2⟩) fun _ _ => True.intro
        have hparent : parent' = parent := Option.some.inj (hp.symm.trans hs.2.2)
        rw [hparent]
        rcases List.mem_append.mp hmem with hold | hnew
        · exact hs.2.1.payloads parent hs.2.2 e hold
        · rw [List.mem_singleton.mp hnew]
          exact he entry rfl

/-- A transaction begins with fresh payloads, and with a parent only in an open cache. -/
theorem begin_begun (begun : Nat) (deployment : String) (roles : List String)
    (parentKey : Option κ) :
    Yields (Quiet invs s₀) (Quiet invs s₀) (Cache.begin env begun deployment roles parentKey)
      fun _ s => Begun env invs s₀ begun s.txn := by
  have hparentless : ∀ {generation disabled}, generation = s₀.generation →
      Yields (Quiet invs s₀) (Quiet invs s₀) (assign fun s =>
        { s with txn := Cache.parentless begun roles generation disabled } : CacheProg κ Unit)
        fun _ s => Begun env invs s₀ begun s.txn := by
    rintro generation disabled rfl
    exact yields_assign (fun s hs => hs.any _) fun _ _ => begun_parentless env
  refine (Cache.always_isDisabled settled_quiet deployment).yields_bind (fun _ hs => hs) fun _ =>
    yields_bind (yields_peek (φ := fun g _ => g = s₀.generation) (fun _ hs => hs)
      fun s hs => hs.generation) fun generation => yields_assume fun hgeneration =>
    yields_ite (fun _ => hparentless hgeneration) fun _ => yields_catchAny ?_
      fun _ => hparentless hgeneration
  cases parentKey with
  | none => exact yields_raise fun _ hs => hs
  | some parent =>
      refine yields_bind (isDisabled_open settled_quiet (fun _ hs => hs) deployment) fun disabled =>
        yields_assume fun hopen => yields_ite (fun _ => hparentless hgeneration) fun hd => ?_
      rw [Bool.not_eq_true] at hd
      subst hgeneration
      refine yields_bind (φ := fun _ s => Begun env invs s₀ begun s.txn ∧ s.txn.parent = some parent)
        (yields_assign (fun s hs => hs.any _) fun s hs => ⟨⟨rfl, rfl, fun _ => hopen hd,
          fun _ _ _ he => by cases he⟩, rfl⟩) fun _ => ?_
      exact Triple.weaken (always_forEach (read_begun env begun parent) roles)
        (fun _ hs => hs) fun _ s hs => ⟨hs.1, fun _ _ => hs.2.1⟩

section Commit

variable [DecidableEq κ]

theorem transaction_commit_kept (hput : s₀.txn.parent ≠ none →
    ∀ parent role payload, Store.Publishable env parent role payload (Kept invs s₀))
    (current revalidated : Option κ) :
    Always (Kept invs s₀) (Transaction.commit env (fun _ => act id) current revalidated) := by
  refine always_peek_bind (φ := fun t => Held s₀.txn t) (fun s hs => hs.2) fun txn htxn =>
    always_ite (fun _ => Transaction.always_report env settled_kept) fun _ => ?_
  split
  · exact always_bind (Transaction.always_update settled_kept fun _ =>
      ⟨rfl, rfl, rfl, fun _ he => he⟩) fun _ => Transaction.always_report env settled_kept
  · rename_i parent hparent
    have hsome : s₀.txn.parent ≠ none := by rw [← htxn.parent, hparent]; exact Option.some_ne_none _
    have habort : Always (Kept invs s₀) (Transaction.abort : CacheProg κ Unit) :=
      Transaction.always_abort settled_kept
    refine always_ite (fun _ => always_bind habort fun _ => always_raise _) fun _ =>
      always_bind (always_tryCatch (Transaction.always_persist env settled_kept
        (fun role payload => hput hsome parent role payload) _ _) fun e => ?_) fun _ =>
      always_bind habort fun _ => Transaction.always_report env settled_kept
    exact always_bind (Transaction.always_rollbackNewWrites env settled_kept parent) fun _ =>
      always_bind habort fun _ => always_raise _

/-- **A commit puts only where its transaction is later than every invalidation**: the generation
sees to that. -/
theorem commit_kept (hlater : s₀.txn.generation = s₀.generation → s₀.txn.parent ≠ none →
    ∀ inv ∈ invs, inv.stamp < s₀.txn.begun) (current revalidated : Option κ) :
    Always (Kept invs s₀) (Cache.commit env (fun _ => act id) current revalidated) := by
  refine always_peek_bind (φ := fun t => Held s₀.txn t) (fun s hs => hs.2) fun txn htxn => ?_
  split
  · rename_i hnone
    exact transaction_commit_kept env (fun h => absurd (htxn.parent ▸ hnone) h) none none
  · cases current with
    | none => exact always_bind (Transaction.always_abort settled_kept) fun _ => always_raise _
    | some key =>
        refine always_peek_bind (φ := fun g => g = s₀.generation) (fun s hs => hs.1.generation)
          fun generation hgeneration => always_ite
            (fun _ => Transaction.always_invalidated env settled_kept) fun hsame => ?_
        rw [bne_iff_ne, not_not, htxn.generation, hgeneration] at hsame
        exact transaction_commit_kept env
          (fun hparent parent role payload => publishable_kept env (hlater hsame hparent) parent role
            payload) (some key) revalidated

theorem assertCurrent_kept (current : Option κ) :
    Always (Kept invs s₀) (Cache.assertCurrent env current) := by
  refine always_bind (always_peek _) fun txn => ?_
  split
  · exact always_pure _
  · exact always_ite (fun _ => always_bind
      (Transaction.always_rollbackNewWrites env settled_kept _) fun _ => always_raise _)
      fun _ => always_pure _

/-- What a caller does with a transaction keeps the fence. -/
theorem transactionCall_kept (hlater : s₀.txn.generation = s₀.generation → s₀.txn.parent ≠ none →
    ∀ inv ∈ invs, inv.stamp < s₀.txn.begun) (c : TransactionCall κ) :
    Always (Kept invs s₀) (c.run env) := by
  cases c with
  | stage role payload => exact Transaction.always_stage settled_kept role payload
  | reject role => exact Transaction.always_reject env settled_kept role
  | abort => exact Transaction.always_abort settled_kept
  | report => exact Transaction.always_report env settled_kept
  | commit current revalidated => exact commit_kept env hlater current revalidated
  | assertCurrent current => exact assertCurrent_kept env current

end Commit

/-! ## Invalidating -/

/-- No record is one of those. -/
def Cleared (doomed : Metadata → Bool) (metas : Directory MetaFile) : Prop :=
  ∀ digest m, Recorded metas digest m → doomed m = false

/-- A property of the records alone that deletions keep. -/
theorem Settled.and_records {I : CacheState κ → Prop} (hI : Settled I)
    {R : Directory MetaFile → Prop} (hR : ∀ metas digest, R metas → R (metas.erase digest)) :
    Settled fun s => I s ∧ R s.metas where
  data s digest h := ⟨hI.data s digest h.1, h.2⟩
  metas s digest h := ⟨hI.metas s digest h.1, hR _ _ h.2⟩
  access s a h := ⟨hI.access s a h.1, h.2⟩
  readings s n h := ⟨hI.readings s n h.1, h.2⟩
  storeFusesClosed s h := ⟨hI.storeFusesClosed s h.1, h.2⟩
  storeClosed s h := ⟨hI.storeClosed s h.1, h.2⟩
  fuse s d h := ⟨hI.fuse s d h.1, h.2⟩
  fuseAll s h := ⟨hI.fuseAll s h.1, h.2⟩
  disable s h := ⟨hI.disable s h.1, h.2⟩
  deployments s ds h := ⟨hI.deployments s ds h.1, h.2⟩
  txn s t ht h := ⟨hI.txn s t ht h.1, h.2⟩

section Sweep

variable {I : CacheState κ → Prop}

theorem deleteDigest_gone (hI : Settled I) (digest : String) :
    Yields I I (Store.deleteDigest digest) fun _ s => ∀ m, ¬ Recorded s.metas digest m := by
  refine (always_act fun s hs => hI.data s digest hs).yields_bind (fun _ hs => hs) fun _ =>
    yields_bind (φ := fun _ s => ∀ m, ¬ Recorded s.metas digest m)
      (yields_act (fun _ hs => hs) (fun s hs => hI.metas s digest hs) fun s _ m hm =>
        hm.of_erase.1 rfl) fun _ => ?_
  exact yields_assign (fun s hs => hI.access s _ hs.1) fun _ hs => hs.2

/-- Every record still there has been listed. -/
theorem metadataRecords_listed (names : List String) : ∀ {I : CacheState κ → Prop}, Settled I →
    Yields I I (Store.metadataRecords names) fun records s =>
      ∀ digest ∈ names, ∀ m, Recorded s.metas digest m → (digest, m) ∈ records := by
  induction names with
  | nil => exact fun _ => yields_pure (fun _ hs => hs) fun _ _ _ hmem => by cases hmem
  | cons digest rest ih =>
      intro I hI
      refine yields_bind (φ := fun record s => ∀ m, Recorded s.metas digest m → record = some m)
        (yields_catchIo ?_ ?_) fun record => ?_
      · exact yields_bind (readMetadata_recorded (fun _ hs => hs) digest) fun m =>
          yields_pure (fun _ hs => hs.1) fun s hs m' hm' => congrArg some (hs.2.2.unique hm')
      · exact yields_bind (deleteDigest_gone hI digest) fun _ =>
          yields_pure (fun _ hs => hs.1) fun s hs m hm => absurd hm (hs.2 m)
      · -- later deletions cannot bring the record back
        have hsettled : Settled fun s : CacheState κ =>
            I s ∧ ∀ m, Recorded s.metas digest m → record = some m :=
          hI.and_records (R := fun metas => ∀ m, Recorded metas digest m → record = some m)
            fun metas _ h m hm => h m hm.of_erase.2
        refine ((yields_bind (ih hsettled) fun records => yields_pure (fun _ hs => hs.1)
          fun s hs digest' hmem m hm => ?_).out fun _ hs => hs.1).weaken (fun _ hs => hs)
          fun _ _ _ h => h.2
        rcases List.mem_cons.mp hmem with rfl | hrest
        · rw [hs.1.2 m hm]
          exact List.mem_cons_self
        · have hin := hs.2 digest' hrest m hm
          split
          · exact hin
          · exact List.mem_cons_of_mem _ hin

theorem allMetadata_listed (hI : Settled I) :
    Yields I I Store.allMetadata fun records s =>
      ∀ digest m, Recorded s.metas digest m → (digest, m) ∈ records := by
  refine yields_bind (φ := fun names s => ∀ digest m, Recorded s.metas digest m → digest ∈ names)
    (yields_look (fun _ hs => hs) fun s _ digest m ⟨t, hm⟩ =>
      AList.mem_keys.mpr (AList.lookup_isSome.mp (by rw [hm]; rfl))) fun names => ?_
  have hsettled : Settled fun s : CacheState κ =>
      I s ∧ ∀ digest m, Recorded s.metas digest m → digest ∈ names :=
    hI.and_records (R := fun metas => ∀ digest m, Recorded metas digest m → digest ∈ names)
      fun metas _ h digest m hm => h digest m hm.of_erase.2
  exact ((metadataRecords_listed names hsettled).out fun _ hs => hs.1).weaken (fun _ hs => hs)
    fun records s _ h digest m hm => h.2 digest (h.1.2 digest m hm) m hm

/-- Deleting what is listed clears the directory. -/
theorem deleteListed_cleared (hI : Settled I) (doomed : Metadata → Bool)
    (listed : List (String × Metadata)) :
    Yields (fun s => I s ∧ ∀ digest m, Recorded s.metas digest m → doomed m = true →
        (digest, m) ∈ listed) I
      (forEach listed fun r => Store.deleteDigest r.1) fun _ s => Cleared doomed s.metas := by
  refine Yields.weaken (yields_forEach (J := fun rest s => ∀ digest m,
    Recorded s.metas digest m → doomed m = true → (digest, m) ∈ rest) (fun r rest => ?_) listed)
    (fun _ hs => hs) fun _ s _ h digest m hm => ?_
  · have hsettled : Settled fun s : CacheState κ => I s ∧ ∀ digest m, Recorded s.metas digest m →
        doomed m = true → (digest, m) ∈ r :: rest :=
      hI.and_records (R := fun metas => ∀ digest m, Recorded metas digest m → doomed m = true →
        (digest, m) ∈ r :: rest) fun metas _ h digest m hm => h digest m hm.of_erase.2
    refine ((deleteDigest_gone hsettled r.1).out fun _ hs => hs.1).weaken (fun _ hs => hs)
      fun _ s _ h digest m hm hd => ?_
    refine (List.mem_cons.mp (h.1.2 digest m hm hd)).resolve_left fun heq => ?_
    exact h.2 m (by rwa [← congrArg Prod.fst heq])
  · by_contra hd
    exact absurd (h digest m hm (by simpa using hd)) List.not_mem_nil

/-! ### Clearing and setting fuses -/

theorem always_clearDeployment (fuses : Authority κ) {deployment : String}
    (hclear : ∀ s, I s →
      I { s with deploymentFuses := s.deploymentFuses.filter (· != deployment) }) :
    Always I (fuses.clearDeployment deployment) :=
  always_bind (always_requireFingerprint deployment) fun _ =>
    always_bind (always_authority_ensureOpen fuses) fun _ => always_bind (always_call fun s hs => by
      split
      · exact hclear s hs
      · exact hs) fun _ => always_sync

theorem always_unlinkAll
    (hclear : ∀ s deployment, I s →
      I { s with deploymentFuses := s.deploymentFuses.filter (· != deployment) })
    (hall : ∀ s, I s → I { s with globalFuse := false }) :
    Always I (Authority.unlinkAll : CacheProg κ Unit) :=
  always_bind (always_look _) fun _ => always_bind (always_act hall) fun _ => always_bind (always_forEach
      (fun deployment => always_act fun s hs => hclear s deployment hs) _) fun _ => always_sync

theorem facade_open {P : CacheState κ → Prop} (hI : ∀ s, P s → I s) :
    Yields P I (Authority.facade (κ := κ)).ensureOpen fun _ s => P s ∧ s.fusesClosed = false := by
  refine yields_bind (φ := fun closed s => P s ∧ s.fusesClosed = closed)
    (yields_peek hI fun s hs => ⟨hs, rfl⟩) fun closed => ?_
  exact (yields_raiseWhen fun _ hs => hs.1).weaken (fun _ hs => hs)
    fun _ s _ h => ⟨h.2.2.1, h.2.2.2.trans h.1⟩

/-- A write that succeeds leaves the fuse there, and was made by an open cache. -/
theorem writeOnce_present (hquiet : ∀ s, I s → Quiet invs s₀ s) {named : Bool}
    {present : CacheState κ → Bool} {add : CacheState κ → CacheState κ}
    (hadd : ∀ s, I s → I (add s)) (hpresent : ∀ s, present (add s) = true) :
    Yields I I (Authority.facade.writeOnce named present add) fun _ s =>
      s₀.fusesClosed = false ∧ present s = true := by
  refine yields_bind ((facade_open fun _ hs => hs).weaken (fun _ hs => hs)
    fun _ s _ h => (hquiet s h.1).fusesClosed ▸ h.2) fun _ => yields_assume fun hopen =>
    yields_bind (φ := fun _ s => present s = true) (yields_call (fun _ hs => hs) (fun s hs => ?_)
      fun s a s' _ heq => ?_) fun existed => ?_
  · split
    · exact hs
    · split
      · exact hs
      · exact hadd s hs
  · split at heq
    · cases (Prod.mk.inj heq).1
    · split at heq
      · rename_i h
        obtain ⟨_, rfl⟩ := Prod.mk.inj heq
        exact h
      · obtain ⟨_, rfl⟩ := Prod.mk.inj heq
        exact hpresent s
  · exact yields_ite (fun _ => yields_pure (fun _ hs => hs.1) fun _ hs => ⟨hopen, hs.2⟩) fun _ =>
      (always_sync.yields fun _ hs => hs.1).weaken (fun _ hs => hs) fun _ _ _ h => ⟨hopen, h.2⟩

end Sweep

/-! ### One deployment -/

section Invalidate

variable {I : CacheState κ → Prop}

/-- `invalidate_deployment` of the store leaves no record of the deployment. -/
theorem store_invalidateDeployment (hI : Settled I) (deployment : String)
    (hclear : ∀ s, I s → Cleared (fun m => m.deploymentFingerprint == deployment) s.metas →
      I { s with deploymentFuses := s.deploymentFuses.filter (· != deployment) }) :
    Yields I I (Store.invalidateDeployment deployment) fun _ s =>
      Cleared (fun m => m.deploymentFingerprint == deployment) s.metas := by
  refine (always_requireFingerprint deployment).yields_bind (fun _ hs => hs) fun _ =>
    Store.always_ensureOpen.yields_bind (fun _ hs => hs) fun _ =>
    yields_bind (allMetadata_listed hI) fun records => yields_bind
      ((deleteListed_cleared hI (fun m => m.deploymentFingerprint == deployment) _).weaken
        (fun s hs => ⟨hs.1, fun digest m hm hd => List.mem_filter.mpr ⟨hs.2 digest m hm, hd⟩⟩)
        fun _ _ _ h => h) fun _ => always_sync.yields_bind (fun _ hs => hs.1) fun _ => ?_
  exact (always_clearDeployment _ fun s hs => ⟨hclear s hs.1 hs.2, hs.2⟩).yields_bind
    (fun _ hs => hs.1) fun _ => yields_pure (fun _ hs => hs.1) fun _ hs => hs.2

theorem store_invalidateAll (hI : Settled I)
    (hclear : ∀ s deployment, I s → Cleared (fun _ => true) s.metas →
      I { s with deploymentFuses := s.deploymentFuses.filter (· != deployment) })
    (hall : ∀ s, I s → Cleared (fun _ => true) s.metas → I { s with globalFuse := false }) :
    Yields I I Store.invalidateAll fun _ s => Cleared (fun _ => true) s.metas := by
  refine Store.always_ensureOpen.yields_bind (fun _ hs => hs) fun _ =>
    yields_bind (allMetadata_listed hI) fun records => yields_bind
      ((deleteListed_cleared hI (fun _ => true) _).weaken
        (fun s hs => ⟨hs.1, fun digest m hm _ => hs.2 digest m hm⟩)
        fun _ _ _ h => h) fun _ => always_sync.yields_bind (fun _ hs => hs.1) fun _ => ?_
  exact (always_bind (always_authority_ensureOpen _) fun _ => always_unlinkAll
    (fun s d hs => ⟨hclear s d hs.1 hs.2, hs.2⟩) fun s hs => ⟨hall s hs.1 hs.2, hs.2⟩).yields_bind
    (fun _ hs => hs.1) fun _ => yields_pure (fun _ hs => hs.1) fun _ hs => hs.2

/-- A new invalidation, where nothing it covers is left but under a fuse. -/
theorem CacheDisk.Fenced.append {disk : CacheDisk} (h : disk.Fenced invs) (inv : Invalidation)
    (hfused : ∀ digest m, Recorded disk.metas digest m → inv.covers m.deploymentFingerprint →
      disk.Fused m.deploymentFingerprint) : disk.Fenced (invs ++ [inv]) := by
  intro digest file m hfile hrecord
  by_cases hcovers : inv.covers m.deploymentFingerprint
  · exact .inl (hfused digest m hrecord hcovers)
  · refine (h digest file m hfile hrecord).imp (fun hf => hf) fun hfresh inv' hinv' hcovers' => ?_
    rcases List.mem_append.mp hinv' with hold | hnew
    · exact hfresh inv' hold hcovers'
    · rw [List.mem_singleton.mp hnew] at hcovers'
      exact absurd hcovers' hcovers

theorem Quiet.clear {s : CacheState κ} (h : Quiet invs s₀ s) (deployment : String)
    (hclear : ∀ digest m, Recorded s.metas digest m → m.deploymentFingerprint ≠ deployment) :
    Quiet invs s₀ { s with deploymentFuses := s.deploymentFuses.filter (· != deployment) } := by
  refine ⟨fun digest file m hfile hrecord => ?_, h.generation, h.fusesClosed, h.closed⟩
  refine (h.fenced digest file m hfile hrecord).imp (fun hfused => hfused.imp (fun hg => hg)
    fun hmem => List.mem_filter.mpr ⟨hmem, ?_⟩) fun hfresh => hfresh
  exact bne_iff_ne.mpr (hclear digest m hrecord)

/-- The state an invalidation works in: the generation has been counted up. -/
def bumped (s : CacheState κ) : CacheState κ := { s with generation := s.generation + 1 }

theorem fuseAll_fused :
    Yields (Quiet invs s₀) (Quiet invs s₀) Cache.fuseAll fun ok s =>
      ok = true → s₀.fusesClosed = false ∧ s.globalFuse = true := by
  refine (always_assign fun s hs => settled_quiet.disable s hs).yields_bind (fun _ hs => hs)
    fun _ => yields_catchAny ?_ fun _ => yields_pure (fun _ hs => hs) fun _ _ => by simp
  exact yields_bind (writeOnce_present (fun _ hs => hs) (fun s hs => settled_quiet.fuseAll s hs)
    fun _ => rfl) fun _ => yields_pure (fun _ hs => hs.1) fun s hs _ => hs.2

theorem fuseDeployment_fused (deployment : String) :
    Yields (Quiet invs s₀) (Quiet invs s₀) (Cache.fuseDeployment deployment) fun ok s =>
      ok = true → s₀.fusesClosed = false ∧ s.toCacheDisk.Fused deployment := by
  refine (always_assign fun s hs => settled_quiet.deployments s _ hs).yields_bind (fun _ hs => hs)
    fun _ => yields_catchAny ?_ fun _ => fuseAll_fused.weaken (fun _ hs => hs)
      fun _ _ _ h hok => ⟨(h hok).1, .inl (h hok).2⟩
  refine yields_bind ((always_requireFingerprint deployment).yields_bind (fun _ hs => hs) fun _ =>
    writeOnce_present (fun _ hs => hs) (fun s hs => settled_quiet.fuse s deployment hs)
      fun _ => ?_) fun _ =>
    yields_pure (fun _ hs => hs.1) fun s hs _ => ⟨hs.2.1, .inr (List.contains_iff_mem.mp hs.2.2)⟩
  exact List.contains_iff_mem.mpr (List.mem_append_right _ (List.mem_singleton_self _))

/-- **An invalidation that stands on a deletion or a fuse leaves no pair of the deployment without
one**, and only an open cache makes it. -/
theorem invalidateFingerprint_fenced (deployment : String) (stamp : Nat) :
    Yields (Quiet invs s₀) (Quiet invs (bumped s₀)) (Cache.invalidateFingerprint deployment)
      fun a s => a.2 = true → s₀.fusesClosed = false
        ∧ s.toCacheDisk.Fenced (invs ++ [⟨some deployment, stamp⟩]) := by
  refine yields_bind (φ := fun _ _ => True) (yields_assign (fun s hs => ⟨hs.fenced,
    congrArg (· + 1) hs.generation, hs.fusesClosed, hs.closed⟩) fun _ _ => True.intro) fun _ =>
    yields_assume fun _ => yields_catchAny ?_ fun _ => ?_
  -- after the removal no record of the deployment is left on the disk
  · have hne : ∀ {metas digest m}, Cleared (fun m => m.deploymentFingerprint == deployment) metas →
        Recorded metas digest m → m.deploymentFingerprint ≠ deployment := fun hclear hm =>
      beq_eq_false_iff_ne.mp (hclear _ _ hm)
    refine yields_bind (store_invalidateDeployment settled_quiet deployment
      fun s hs hclear => hs.clear deployment fun digest m hm => hne hclear hm) fun count => ?_
    refine yields_bind (φ := fun _ s => s₀.fusesClosed = false ∧
      Cleared (fun m => m.deploymentFingerprint == deployment) s.metas) ?_ fun _ => ?_
    · refine (always_requireFingerprint deployment).yields_bind (fun _ hs => hs.1) fun _ =>
        yields_bind (facade_open fun _ hs => hs.1) fun _ => ?_
      refine yields_bind (φ := fun _ s => s₀.fusesClosed = false ∧
        Cleared (fun m => m.deploymentFingerprint == deployment) s.metas)
        (yields_call (fun _ hs => hs.1) (fun s hs => ?_) fun s _ s' hs heq => ?_) fun _ => ?_
      · split
        · exact hs.1.clear deployment fun digest m hm => hne hs.2.1.2 hm
        · exact hs.1
      · split at heq
        · obtain ⟨_, rfl⟩ := Prod.mk.inj heq
          exact ⟨hs.1.fusesClosed.symm.trans hs.2.2, hs.2.1.2⟩
        · cases (Prod.mk.inj heq).1
      · exact (always_sync.yields fun _ hs => hs.1).weaken (fun _ hs => hs) fun _ _ _ h => h.2
    · refine yields_bind (φ := fun _ s => s₀.fusesClosed = false ∧
        s.toCacheDisk.Fenced (invs ++ [⟨some deployment, stamp⟩]))
        (yields_assign (fun s hs => settled_quiet.deployments s _ hs.1) fun s hs => ⟨hs.2.1, ?_⟩)
        fun _ => yields_pure (fun _ hs => hs.1) fun s hs _ => hs.2
      refine hs.1.fenced.append _ fun digest m hm hcovers => ?_
      rcases hcovers with hnone | hsome
      · cases hnone
      · exact absurd (Option.some.inj hsome).symm (hne hs.2.2 hm)
  -- whatever failed above, the fuse is lit instead
  · refine yields_bind (fuseDeployment_fused deployment) fun fused => yields_pure (fun _ hs => hs.1)
      fun s hs hok => ⟨(hs.2 hok).1, hs.1.fenced.append _ fun digest m hm hcovers => ?_⟩
    rcases hcovers with hnone | hsome
    · cases hnone
    · rw [← Option.some.inj hsome]
      exact (hs.2 hok).2

theorem invalidateAll_fenced (stamp : Nat) :
    Yields (Quiet invs s₀) (Quiet invs (bumped s₀)) (Cache.invalidateAll (κ := κ))
      fun a s => a.2 = true → s₀.fusesClosed = false
        ∧ s.toCacheDisk.Fenced (invs ++ [⟨none, stamp⟩]) := by
  refine yields_bind (φ := fun _ _ => True) (yields_assign (fun s hs => ⟨hs.fenced,
    congrArg (· + 1) hs.generation, hs.fusesClosed, hs.closed⟩) fun _ _ => True.intro) fun _ =>
    yields_assume fun _ => yields_catchAny ?_ fun _ => ?_
  · have hgone : ∀ {metas digest m}, Cleared (fun _ => true) metas → ¬ Recorded metas digest m :=
      fun hclear hm => absurd (hclear _ _ hm) (by simp)
    have hglobal : ∀ s, Quiet invs (bumped s₀) s → Cleared (fun _ => true) s.metas →
        Quiet invs (bumped s₀) { s with globalFuse := false } := fun s hs hclear =>
      ⟨fun digest file m _ hm => absurd hm (hgone hclear), hs.generation, hs.fusesClosed, hs.closed⟩
    refine yields_bind (store_invalidateAll settled_quiet
      (fun s d hs hclear => hs.clear d fun _ _ hm => absurd hm (hgone hclear)) hglobal)
      fun count => ?_
    refine yields_bind (φ := fun _ s => s₀.fusesClosed = false ∧ Cleared (fun _ => true) s.metas)
      ?_ fun _ => ?_
    · refine yields_bind (φ := fun _ s => s₀.fusesClosed = false ∧ Cleared (fun _ => true) s.metas)
        ((facade_open fun _ hs => hs.1).weaken (fun _ hs => hs)
          fun _ s hs h => ⟨hs.fusesClosed.symm.trans h.2, h.1.2⟩) fun _ => ?_
      have hunlink : Always (fun s => Quiet invs (bumped s₀) s ∧ (s₀.fusesClosed = false ∧
          Cleared (fun _ => true) s.metas)) Authority.unlinkAll :=
        always_unlinkAll (fun s d hs => ⟨hs.1.clear d fun _ _ hm => absurd hm (hgone hs.2.2), hs.2⟩)
          fun s hs => ⟨hglobal s hs.1 hs.2.2, hs.2⟩
      exact (hunlink.yields fun _ hs => hs.1).weaken (fun _ hs => hs) fun _ _ _ h => h.2
    · -- only an open cache comes here, so it may stop being disabled
      have hopen : ∀ s, Quiet invs (bumped s₀) s → s₀.fusesClosed = false →
          Quiet invs (bumped s₀) { s with globallyDisabled := false, disabledDeployments := [] } :=
        fun s hs h => ⟨hs.fenced, hs.generation, hs.fusesClosed, fun hclosed => by
          have hfalse : s.fusesClosed = false := hs.fusesClosed.trans h
          exact absurd (hfalse.symm.trans hclosed) (by decide)⟩
      refine yields_bind (φ := fun _ s => s₀.fusesClosed = false ∧
        s.toCacheDisk.Fenced (invs ++ [⟨none, stamp⟩]))
        (yields_assign (fun s hs => hopen s hs.1 hs.2.1) fun s hs => ⟨hs.2.1, ?_⟩)
        fun _ => yields_pure (fun _ hs => hs.1) fun s hs _ => hs.2
      exact hs.1.fenced.append _ fun digest m hm _ => absurd hm (hgone hs.2.2)
  · refine yields_bind fuseAll_fused fun fused => yields_pure (fun _ hs => hs.1)
      fun s hs hok => ⟨(hs.2 hok).1, hs.1.fenced.append _ fun _ _ _ _ => .inl (hs.2 hok).2⟩

end Invalidate

/-! ## Releasing, closing and opening -/

/-- What passes over an object's memory: its generation only counts up, it stays closed, and closed
it stays disabled. -/
structure Passed (i i' : FacadeMemory) : Prop where
  generation : i.generation ≤ i'.generation
  unchanged : i'.generation = i.generation → i'.fusesClosed = i.fusesClosed
  opened : i'.fusesClosed = false → i.fusesClosed = false
  closed : i'.fusesClosed = true → i'.globallyDisabled = true

/-- What every program keeps. -/
def Safe (invs : List Invalidation) (s₀ s : CacheState κ) : Prop :=
  s.toCacheDisk.Fenced invs ∧ Passed s₀.toFacadeMemory s.toFacadeMemory

theorem Quiet.safe {s : CacheState κ} (h : Quiet invs s₀ s) : Safe invs s₀ s :=
  ⟨h.fenced, h.generation.ge, fun _ => h.fusesClosed, fun hc => h.fusesClosed ▸ hc, h.closed⟩

theorem Quiet.safe_of_bumped {s : CacheState κ} (h : Quiet invs (bumped s₀) s) : Safe invs s₀ s := by
  refine ⟨h.fenced, ?_, fun heq => ?_, fun hc => ?_, h.closed⟩
  · rw [h.generation]
    exact Nat.le_succ _
  · exact absurd (h.generation.symm.trans heq) (Nat.succ_ne_self _)
  · exact h.fusesClosed.symm.trans hc

theorem invalidate_fenced (deployment : Option String) (stamp : Nat) :
    Yields (Quiet invs s₀) (Safe invs s₀) (invalidate (κ := κ) deployment) fun a s =>
      Quiet invs (bumped s₀) s ∧ (a.2 = true → s₀.fusesClosed = false
        ∧ s.toCacheDisk.Fenced (invs ++ [⟨deployment, stamp⟩])) := by
  cases deployment with
  | some deployment =>
      exact (always_requireFingerprint deployment).yields_bind (fun _ hs => hs.safe) fun _ =>
        (invalidateFingerprint_fenced deployment stamp).out fun _ hs => hs.safe_of_bumped
  | none => exact (invalidateAll_fenced stamp).out fun _ hs => hs.safe_of_bumped

theorem releaseDeployment_safe (deployment : String) :
    Triple (Quiet invs s₀) (Cache.releaseDeployment env deployment) fun _ s => Safe invs s₀ s := by
  refine triple_bind (always_requireFingerprint deployment) (fun _ => ?_) (fun _ _ h => h.safe)
    fun _ h => h.safe
  refine triple_bind (always_peek _) (fun _ => triple_ite (fun _ => triple_pure fun _ h => h.safe)
    fun _ => triple_tryCatch (R := fun _ s => Quiet invs s₀ s)
      (Store.always_cleanup env settled_quiet) (fun e => ?_) (fun _ _ h => h.safe) fun _ h => h.safe)
    (fun _ _ h => h.safe) fun _ h => h.safe
  have hnext : Triple (Quiet invs s₀) (do
      Cache.nextGeneration
      let _ ← Cache.fuseDeployment deployment
      pure () : CacheProg κ Unit) fun _ s => Safe invs s₀ s := by
    refine triple_bind (R := fun _ s => Quiet invs (bumped s₀) s) (triple_assign fun s h =>
      ⟨h.fenced, congrArg (· + 1) h.generation, h.fusesClosed, h.closed⟩) (fun _ => ?_)
      (fun _ _ h => h.safe_of_bumped) fun _ h => h.safe_of_bumped
    exact Triple.weaken (always_bind (Cache.always_fuseDeployment settled_quiet deployment)
      fun _ => always_pure ()) (fun _ h => h) fun _ _ h => h.safe_of_bumped
  cases e with
  | interrupt => exact triple_raise fun _ h => h.safe
  | os | value | drift | other => exact hnext

/-- What `close` keeps from its first two lines on. -/
def Closing (invs : List Invalidation) (s₀ s : CacheState κ) : Prop :=
  s.toCacheDisk.Fenced invs ∧ s.generation = s₀.generation + 1 ∧ s.globallyDisabled = true ∧
    (s₀.fusesClosed = true → s.fusesClosed = true)

theorem settled_closing : Settled (Closing invs s₀) :=
  settled_fenced (F := fun i => i.generation = s₀.generation + 1 ∧ i.globallyDisabled = true ∧
    (s₀.fusesClosed = true → i.fusesClosed = true)) (fun _ hi => ⟨hi.1, rfl, hi.2.2⟩)
    fun _ _ hi => hi

theorem Closing.safe {s : CacheState κ} (h : Closing invs s₀ s) : Safe invs s₀ s := by
  obtain ⟨hfenced, hgeneration, hdisabled, hclosed⟩ := h
  refine ⟨hfenced, ?_, fun heq => ?_, fun hopen => ?_, fun _ => hdisabled⟩
  · rw [hgeneration]
    exact Nat.le_succ _
  · exact absurd (hgeneration.symm.trans heq) (Nat.succ_ne_self _)
  · rw [← Bool.not_eq_true]
    exact fun hc => absurd ((hclosed hc).symm.trans hopen) (by decide)

theorem close_safe :
    Triple (Quiet invs s₀) (Cache.close env) fun _ s => Safe invs s₀ s := by
  refine triple_assign_bind (R := fun s => s.toCacheDisk.Fenced invs ∧
    s.generation = s₀.generation + 1 ∧ s.fusesClosed = s₀.fusesClosed) (triple_assign_bind
      (R := Closing invs s₀) ?_ fun s h => ⟨h.1, h.2.1, rfl, fun hc => h.2.2.trans hc⟩)
    fun s h => ⟨h.fenced, congrArg (· + 1) h.generation, h.fusesClosed⟩
  refine Triple.weaken (always_tryFinally (always_catchAny
    (Store.always_close env settled_closing) fun _ => always_bind
      (Cache.always_fuseAll settled_closing) fun _ => always_pure _)
    (always_authority_close _ fun s h => ⟨h.1, h.2.1, h.2.2.1, fun _ => rfl⟩))
    (fun _ h => h) fun _ _ h => h.safe

/-- A cache opens behind the fence, with the memory of its own making. -/
theorem open_fenced :
    Always (fun s => s.toCacheDisk.Fenced invs ∧ s.fusesClosed = false ∧ s.generation = 0)
      (Cache.open' env) := by
  have hsettled : Settled fun s : CacheState κ => s.toCacheDisk.Fenced invs ∧
      s.fusesClosed = false ∧ s.generation = 0 :=
    settled_fenced (F := fun i => i.fusesClosed = false ∧ i.generation = 0) (fun _ hi => hi)
      fun _ _ hi => hi
  exact always_bind (always_act fun _ h => h) fun _ => always_bind
    (Store.always_cleanup env hsettled) fun _ => always_bind (always_act fun _ h => h) fun _ =>
    always_bind (always_globalFused _) fun _ => always_assign fun _ h => h

/-! ## Worlds -/

/-- **The invariant.** -/
structure CacheWorld.Sound (w : CacheWorld κ) : Prop where
  fenced : w.disk.Fenced w.invalidations
  stamps : ∀ inv ∈ w.invalidations, inv.stamp < w.now
  begun : ∀ e ∈ w.transactions, e.2.begun < w.now
  /-- A closed cache stays disabled. -/
  closed : ∀ i ∈ w.instances, i.facade.fusesClosed = true → i.facade.globallyDisabled = true
  /-- At most one cache is open. -/
  one : ∀ (n n' : Nat) (i i' : Instance), w.instances[n]? = some i → w.instances[n']? = some i' →
    i.facade.fusesClosed = false → i'.facade.fusesClosed = false → n = n'
  /-- A transaction is of its cache's past; of its present, it is later than every invalidation. -/
  generation : ∀ e ∈ w.transactions, ∃ i, w.instances[e.1]? = some i ∧
    e.2.generation ≤ i.facade.generation ∧ (e.2.generation = i.facade.generation →
      e.2.parent ≠ none → i.facade.fusesClosed = false ∧
        ∀ inv ∈ w.invalidations, inv.stamp < e.2.begun)
  /-- What a transaction read is later than every invalidation before its beginning. -/
  payloads : ∀ e ∈ w.transactions, ∀ parent, e.2.parent = some parent → ∀ p ∈ e.2.payloads,
    ∀ inv ∈ w.invalidations, inv.covers (env.deployment parent) → inv.stamp < e.2.begun →
      inv.stamp < p.2.2

namespace CacheWorld

variable {env} {w : CacheWorld κ}

/-- Every program leaves a sound world, whatever becomes of the process. -/
theorem Sound.after (h : w.Sound env) {n : Nat} {i : Instance} (hi : w.instances[n]? = some i)
    {α : Type} {x : Exit CacheRaise α} {s₀ s : CacheState κ} (hi₀ : s₀.toFacadeMemory = i.facade)
    (hsafe : Safe w.invalidations s₀ s) : (w.after n x s).Sound env := by
  obtain ⟨hfenced, hpassed⟩ := hsafe
  rw [hi₀] at hpassed
  have hsame : ∀ {n' i'}, (w.instances.set n ⟨s.toStoreMemory, s.toFacadeMemory⟩)[n']? = some i' →
      (n' = n ∧ i' = ⟨s.toStoreMemory, s.toFacadeMemory⟩) ∨ (n' ≠ n ∧ w.instances[n']? = some i') := by
    intro n' i' hget
    by_cases hn : n' = n
    · subst hn
      rw [List.getElem?_set_self (List.getElem?_eq_some_iff.mp hi).1] at hget
      exact .inl ⟨rfl, (Option.some.inj hget).symm⟩
    · rw [List.getElem?_set_ne (Ne.symm hn)] at hget
      exact .inr ⟨hn, hget⟩
  -- a kill leaves the disk and takes every instance
  have hkilled : Sound env { w with disk := s.toCacheDisk, instances := [], transactions := [] } :=
    ⟨hfenced, h.stamps, fun _ he => (nomatch he), fun _ hmem => (nomatch hmem),
      fun _ _ _ _ hget => (nomatch hget), fun _ he => (nomatch he), fun _ he => (nomatch he)⟩
  -- otherwise the one instance is replaced by what the call left of it
  have hlives : Sound env { w with
      disk := s.toCacheDisk
      instances := w.instances.set n ⟨s.toStoreMemory, s.toFacadeMemory⟩ } := by
    refine ⟨hfenced, h.stamps, h.begun, fun i' hmem hclosed => ?_, fun n₁ n₂ i₁ i₂ h₁ h₂ ho₁ ho₂ => ?_,
      fun e he => ?_, h.payloads⟩
    · obtain ⟨n', hget⟩ := List.mem_iff_getElem?.mp hmem
      rcases hsame hget with ⟨_, rfl⟩ | ⟨_, hold⟩
      · exact hpassed.closed hclosed
      · exact h.closed i' (List.mem_of_getElem? hold) hclosed
    · rcases hsame h₁ with ⟨rfl, rfl⟩ | ⟨_, hold₁⟩ <;> rcases hsame h₂ with ⟨rfl, rfl⟩ | ⟨_, hold₂⟩
      · rfl
      · exact h.one _ _ _ _ hi hold₂ (hpassed.opened ho₁) ho₂
      · exact h.one _ _ _ _ hold₁ hi ho₁ (hpassed.opened ho₂)
      · exact h.one _ _ _ _ hold₁ hold₂ ho₁ ho₂
    · obtain ⟨i', hget, hle, hlater⟩ := h.generation e he
      by_cases hn : e.1 = n
      · rw [hn, hi] at hget
        cases hget
        refine ⟨⟨s.toStoreMemory, s.toFacadeMemory⟩, ?_, hle.trans hpassed.generation,
          fun heq hparent => ?_⟩
        · rw [hn]
          exact List.getElem?_set_self (List.getElem?_eq_some_iff.mp hi).1
        · have hback : s.generation = i.facade.generation :=
            le_antisymm (heq ▸ hle) hpassed.generation
          obtain ⟨hopen, hstamps⟩ := hlater (heq.trans hback) hparent
          exact ⟨(hpassed.unchanged hback).trans hopen, hstamps⟩
      · exact ⟨i', by rw [List.getElem?_set_ne (Ne.symm hn)]; exact hget, hle, hlater⟩
  cases x with
  | killed => exact hkilled
  | returned a => exact hlives
  | raised e => exact hlives

theorem Sound.later (h : w.Sound env) : Sound env { w with now := w.now + 1 } :=
  ⟨h.fenced, fun inv hinv => Nat.lt_succ_of_lt (h.stamps inv hinv),
    fun e he => Nat.lt_succ_of_lt (h.begun e he), h.closed, h.one, h.generation, h.payloads⟩

theorem Sound.begins (h : w.Sound env) {n : Nat} {i : Instance} (hi : w.instances[n]? = some i)
    {s₀ : CacheState κ} (hgeneration : i.facade.generation = s₀.generation)
    (hclosed : i.facade.fusesClosed = s₀.fusesClosed) {t : Transaction κ}
    (ht : Begun env w.invalidations s₀ w.now t) :
    Sound env { w with now := w.now + 1, transactions := w.transactions ++ [(n, t)] } := by
  refine ⟨h.fenced, h.later.stamps, fun e he => ?_, h.closed, h.one, fun e he => ?_,
    fun e he parent hparent p hp inv hinv hcovers hstamp => ?_⟩
  · rcases List.mem_append.mp he with hold | hnew
    · exact Nat.lt_succ_of_lt (h.begun e hold)
    · rw [List.mem_singleton.mp hnew, ht.begun]
      exact Nat.lt_succ_self _
  · rcases List.mem_append.mp he with hold | hnew
    · exact h.generation e hold
    · rw [List.mem_singleton.mp hnew]
      refine ⟨i, hi, (ht.generation.trans hgeneration.symm).le,
        fun _ hparent => ⟨hclosed.trans (ht.live hparent), fun inv hinv => ?_⟩⟩
      rw [ht.begun]
      exact h.stamps inv hinv
  · rcases List.mem_append.mp he with hold | hnew
    · exact h.payloads e hold parent hparent p hp inv hinv hcovers hstamp
    · rw [List.mem_singleton.mp hnew] at hparent hp
      exact ht.payloads parent hparent p hp inv hinv hcovers

theorem Sound.setTransaction (h : w.Sound env) {j n : Nat} {t t' : Transaction κ}
    (ht : w.transactions[j]? = some (n, t)) (hheld : Held t t') :
    Sound env { w with transactions := w.transactions.set j (n, t') } := by
  have hin : ((n, t) : Nat × Transaction κ) ∈ w.transactions := List.mem_of_getElem? ht
  refine ⟨h.fenced, h.stamps, fun e he => ?_, h.closed, h.one, fun e he => ?_,
    fun e he parent hparent p hp inv hinv hcovers hstamp => ?_⟩
  · rcases List.mem_or_eq_of_mem_set he with hold | rfl
    · exact h.begun e hold
    · exact hheld.begun ▸ h.begun _ hin
  · rcases List.mem_or_eq_of_mem_set he with hold | rfl
    · exact h.generation e hold
    · obtain ⟨i, hi, hle, hlater⟩ := h.generation _ hin
      refine ⟨i, hi, hheld.generation ▸ hle, fun heq hparent => ?_⟩
      have hnow := hlater (hheld.generation ▸ heq) (hheld.parent ▸ hparent)
      exact ⟨hnow.1, fun inv hinv => hheld.begun ▸ hnow.2 inv hinv⟩
  · rcases List.mem_or_eq_of_mem_set he with hold | rfl
    · exact h.payloads e hold parent hparent p hp inv hinv hcovers hstamp
    · exact h.payloads _ hin parent (hheld.parent ▸ hparent) p (hheld.payloads p hp) inv hinv hcovers
        (hheld.begun ▸ hstamp)

/-- A new invalidation, where no open cache has a transaction of its present generation. -/
theorem Sound.invalidates (h : w.Sound env) {deployment : Option String}
    (hfenced : w.disk.Fenced (w.invalidations ++ [⟨deployment, w.now⟩]))
    (hpast : ∀ e ∈ w.transactions, ∀ i, w.instances[e.1]? = some i →
      i.facade.fusesClosed = false → e.2.generation ≠ i.facade.generation) :
    Sound env { w with
      now := w.now + 1, invalidations := w.invalidations ++ [⟨deployment, w.now⟩] } := by
  refine ⟨hfenced, fun inv hinv => ?_, h.later.begun, h.closed, h.one, fun e he => ?_,
    fun e he parent hparent p hp inv hinv hcovers hstamp => ?_⟩
  · rcases List.mem_append.mp hinv with hold | hnew
    · exact Nat.lt_succ_of_lt (h.stamps inv hold)
    · rw [List.mem_singleton.mp hnew]
      exact Nat.lt_succ_self _
  · obtain ⟨i, hi, hle, hlater⟩ := h.generation e he
    exact ⟨i, hi, hle, fun heq hparent => absurd heq (hpast e he i hi (hlater heq hparent).1)⟩
  · rcases List.mem_append.mp hinv with hold | hnew
    · exact h.payloads e he parent hparent p hp inv hold hcovers hstamp
    · rw [List.mem_singleton.mp hnew] at hstamp
      exact absurd (h.begun e he) (Nat.lt_asymm hstamp)

/-- A cache opened where every other is closed. -/
theorem Sound.opens (h : w.Sound env) {s : CacheState κ}
    (hclosed : ∀ i ∈ w.instances, i.facade.fusesClosed = true)
    (hfenced : s.toCacheDisk.Fenced w.invalidations) (hopen : s.fusesClosed = false) :
    Sound env { w with
      disk := s.toCacheDisk
      instances := w.instances ++ [⟨s.toStoreMemory, s.toFacadeMemory⟩] } := by
  have hlast : ∀ {n : Nat} {i : Instance},
      (w.instances ++ [⟨s.toStoreMemory, s.toFacadeMemory⟩])[n]? = some i →
      i.facade.fusesClosed = false → n = w.instances.length := by
    intro n i hget hi
    by_contra hn
    rcases Nat.lt_or_gt_of_ne hn with hlt | hgt
    · rw [List.getElem?_append_left hlt] at hget
      exact absurd ((hclosed i (List.mem_of_getElem? hget)).symm.trans hi) (by decide)
    · rw [List.getElem?_eq_none (by simp; omega)] at hget
      cases hget
  refine ⟨hfenced, h.stamps, h.begun, fun i hmem hc => ?_, fun n n' i i' hn hn' ho ho' => ?_,
    fun e he => ?_, h.payloads⟩
  · rcases List.mem_append.mp hmem with hold | hnew
    · exact h.closed i hold hc
    · rw [List.mem_singleton.mp hnew] at hc
      exact absurd (hopen.symm.trans hc) (by decide)
  · exact (hlast hn ho).trans (hlast hn' ho').symm
  · obtain ⟨i, hi, hrest⟩ := h.generation e he
    exact ⟨i, by rw [List.getElem?_append_left (List.getElem?_eq_some_iff.mp hi).1]; exact hi, hrest⟩

/-- The start of a program. -/
theorem Sound.quiet (h : w.Sound env) {n : Nat} {i : Instance} (hi : w.instances[n]? = some i)
    (t : Transaction κ) : Quiet w.invalidations (w.state i t) (w.state i t) :=
  ⟨h.fenced, rfl, rfl, h.closed i (List.mem_of_getElem? hi)⟩

/-- **Preserved by every step.** -/
theorem sound_step [DecidableEq κ] {w' : CacheWorld κ} (h : w.Sound env)
    (hstep : CacheStep env w w') : w'.Sound env := by
  cases hstep with
  | kill => exact ⟨h.fenced, h.stamps, fun _ he => (nomatch he), fun _ hmem => (nomatch hmem),
      fun _ _ _ _ hget => (nomatch hget), fun _ he => (nomatch he), fun _ he => (nomatch he)⟩
  | opened faults x s hclosed hrun =>
      have hopen : Always (fun s : CacheState κ => s.toCacheDisk.Fenced w.invalidations ∧
          s.fusesClosed = false ∧ s.generation = 0) (Cache.open' env) := open_fenced env
      have hpost := hopen.run ⟨h.fenced, rfl, rfl⟩ hrun
      cases x with
      | killed => exact ⟨hpost.1, h.stamps, fun _ he => (nomatch he), fun _ hmem => (nomatch hmem),
          fun _ _ _ _ hget => (nomatch hget), fun _ he => (nomatch he), fun _ he => (nomatch he)⟩
      | raised e => exact ⟨hpost.1, h.stamps, h.begun, h.closed, h.one, h.generation, h.payloads⟩
      | returned a => exact h.opens hclosed hpost.1 hpost.2.1
  | begin n i hi deployment roles parentKey hkey faults x s hrun =>
      have hpost := (begin_begun env w.now deployment roles parentKey).run
        (h.quiet hi noTransaction) hrun
      have hfacade : (w.state i noTransaction).toFacadeMemory = i.facade := rfl
      have hafter := h.after hi (x := x) hfacade hpost.1.safe
      cases x with
      | returned a =>
          exact hafter.begins (i := ⟨s.toStoreMemory, s.toFacadeMemory⟩)
            (List.getElem?_set_self (List.getElem?_eq_some_iff.mp hi).1) hpost.1.generation
            hpost.1.fusesClosed (hpost.2 a rfl)
      | raised e => exact hafter.later
      | killed => exact hafter.later
  | transaction j n t ht i hi c faults x s hrun =>
      have hkept : Always (Kept w.invalidations (w.state i t)) (c.run env) :=
        transactionCall_kept env (fun heq hparent => ?_) c
      · have hpost := hkept.run ⟨h.quiet hi t, Held.refl t⟩ hrun
        have hfacade : (w.state i t).toFacadeMemory = i.facade := rfl
        have hafter := h.after hi (x := x) hfacade hpost.1.safe
        cases x with
        | killed => exact hafter
        | returned a => exact hafter.setTransaction ht hpost.2
        | raised e => exact hafter.setTransaction ht hpost.2
      · obtain ⟨i', hi', _, hlater⟩ := h.generation _ (List.mem_of_getElem? ht)
        have hsame : i' = i := Option.some.inj (hi'.symm.trans hi)
        exact (hlater (hsame ▸ heq) hparent).2
  | invalidate n i hi deployment faults x s hrun hfused =>
      have hpost := (invalidate_fenced deployment w.now).run (h.quiet hi noTransaction) hrun
      have hfacade : (w.state i noTransaction).toFacadeMemory = i.facade := rfl
      have hafter := h.after hi (x := x) hfacade hpost.1
      cases x with
      | raised e => exact hafter.later
      | killed => exact hafter.later
      | returned a =>
          obtain ⟨hquiet, hstands⟩ := hpost.2 a rfl
          obtain ⟨hopen, hfenced⟩ := hstands (hfused a.1 a.2 rfl)
          have hself : (w.after n (.returned a : Exit CacheRaise (Nat × Bool)) s).instances[n]? =
              some ⟨s.toStoreMemory, s.toFacadeMemory⟩ :=
            List.getElem?_set_self (List.getElem?_eq_some_iff.mp hi).1
          refine hafter.invalidates hfenced fun e he i' hi' hopen' => ?_
          -- the one open cache is the one that counted its generation up
          have hn : e.1 = n := hafter.one e.1 n i' _ hi' hself hopen'
            (hquiet.fusesClosed.trans hopen)
          rw [hn, hself] at hi'
          cases hi'
          obtain ⟨i₀, hi₀, hle, _⟩ := h.generation e he
          rw [hn, hi] at hi₀
          cases hi₀
          exact (Nat.lt_succ_of_le hle).ne.trans_eq hquiet.generation.symm
  | releaseDeployment n i hi deployment faults x s hrun =>
      exact h.after hi rfl ((releaseDeployment_safe env deployment).run (h.quiet hi _) hrun)
  | close n i hi faults x s hrun =>
      exact h.after hi rfl ((close_safe env).run (h.quiet hi _) hrun)

theorem sound_init (h : w.Initial) : w.Sound env := by
  refine ⟨fun _ _ _ _ _ => .inr fun inv hinv => ?_, fun inv hinv => ?_, fun e he => ?_,
    fun i hi => ?_, fun n n' i i' hi => ?_, fun e he => ?_, fun e he => ?_⟩
  · rw [h.invalidations] at hinv
    cases hinv
  · rw [h.invalidations] at hinv
    cases hinv
  · rw [h.transactions] at he
    cases he
  · rw [h.instances] at hi
    cases hi
  · rw [h.instances] at hi
    cases hi
  · rw [h.transactions] at he
    cases he
  · rw [h.transactions] at he
    cases he

theorem sound_reachable [DecidableEq κ] (h : (cacheSystem env).Reachable w) : w.Sound env :=
  h.invariant (I := Sound env) (fun _ hinit => sound_init hinit)
    fun _ _ _ hsound hstep => sound_step hsound hstep

end CacheWorld

/-- **L2 invalidation is fail-closed and survives restart.** After any sequence of calls, faults,
kills and reopenings, a transaction begun after an invalidation holds for a deployment it covers
only payloads that transactions begun after that invalidation staged. -/
theorem l2_invalidation_fail_closed [DecidableEq κ] {w : CacheWorld κ}
    (h : (cacheSystem env).Reachable w) :
    ∀ inv ∈ w.invalidations, ∀ e ∈ w.transactions, inv.stamp < e.2.begun →
      ∀ parent, e.2.parent = some parent → inv.covers (env.deployment parent) →
        ∀ p ∈ e.2.payloads, inv.stamp < p.2.2 :=
  fun inv hinv e he hbegun parent hparent hcovers p hp =>
    (CacheWorld.sound_reachable h).payloads e he parent hparent p hp inv hinv hcovers hbegun

/-! ### One invalidation -/

/-- A fingerprint every validator takes. -/
def sampleFingerprint : String := String.ofList ('1' :: List.replicate 63 '0')

/-- Keys are deployments, and a digest spells its bytes. -/
def plainEnv : CacheEnv String where
  policy := ⟨"c1", "s1", 4, 16, 64, 100, 10⟩
  sha256 := fun bytes => String.ofList (bytes.map fun b => Char.ofNat b.toNat)
  validBundle := fun _ => true
  deployment := id
  keyDigest := fun parent role => parent ++ role

def emptyRoot : CacheWorld String :=
  ⟨⟨fun _ => 5, id, 0, ∅, ∅, false, []⟩, [], [], 0, []⟩

/-- One step where nothing goes wrong, with the cache or transaction of that number. -/
inductive PlainStep where
  | kill
  | opens
  | begins (n : Nat)
  | calls (n j : Nat) (c : TransactionCall String)
  | invalidates (n : Nat)

namespace CacheWorld

variable (w : CacheWorld String)

def instanceAt (n : Nat) : Instance := w.instances.getD n freshInstance

def transactionAt (j : Nat) : Nat × Transaction String := w.transactions.getD j (0, noTransaction)

def openRun : Exit CacheRaise Unit × CacheState String :=
  (Cache.open' plainEnv).run [] (w.state freshInstance noTransaction)

def beginRun (n : Nat) : Exit CacheRaise Unit × CacheState String :=
  (Cache.begin plainEnv w.now sampleFingerprint ["v"] (some sampleFingerprint)).run [] (w.state (w.instanceAt n) noTransaction)

def callRun (n j : Nat) (c : TransactionCall String) : Exit CacheRaise Unit × CacheState String :=
  (c.run plainEnv).run [] (w.state (w.instanceAt n) (w.transactionAt j).2)

def invalidateRun (n : Nat) : Exit CacheRaise (Nat × Bool) × CacheState String :=
  (invalidate (some sampleFingerprint)).run [] (w.state (w.instanceAt n) noTransaction)

def plain : PlainStep → CacheWorld String
  | .kill => { w with instances := [], transactions := [] }
  | .opens => w.opened w.openRun.1 w.openRun.2
  | .begins n => w.began n (w.beginRun n).1 (w.beginRun n).2
  | .calls n j c => w.called n j (w.callRun n j c).1 (w.callRun n j c).2
  | .invalidates n => w.invalidated n (some sampleFingerprint) (w.invalidateRun n).1 (w.invalidateRun n).2

/-- The step may be taken. -/
def plainOk : PlainStep → Bool
  | .kill => true
  | .opens => w.instances.all fun i => i.facade.fusesClosed
  | .begins n => (w.instances[n]?).isSome
  | .calls n j _ => (w.instances[n]?).isSome && (w.transactions[j]?).isSome
      && (w.transactionAt j).1 == n
  | .invalidates n => (w.instances[n]?).isSome && (w.invalidateRun n).1 == .returned (1, true)

variable {w}

theorem instanceAt_get {n : Nat} (h : (w.instances[n]?).isSome) :
    w.instances[n]? = some (w.instanceAt n) := by
  obtain ⟨i, hi⟩ := Option.isSome_iff_exists.mp h
  rw [instanceAt, List.getD_eq_getElem?_getD, hi]
  rfl

theorem transactionAt_get {j : Nat} (h : (w.transactions[j]?).isSome) :
    w.transactions[j]? = some (w.transactionAt j) := by
  obtain ⟨e, he⟩ := Option.isSome_iff_exists.mp h
  rw [transactionAt, List.getD_eq_getElem?_getD, he]
  rfl

theorem transactionAt_mem {j : Nat} (h : (w.transactions[j]?).isSome) :
    w.transactionAt j ∈ w.transactions := List.mem_of_getElem? (transactionAt_get h)

theorem plain_step {p : PlainStep} (h : w.plainOk p = true) : CacheStep plainEnv w (w.plain p) := by
  cases p with
  | kill => exact .kill
  | opens => exact .opened [] _ _ (List.all_eq_true.mp h) rfl
  | begins n =>
      exact .begin n _ (instanceAt_get h) sampleFingerprint ["v"] (some sampleFingerprint)
        (fun parent hp => (Option.some.inj hp).symm) [] _ _ rfl
  | calls n j c =>
      simp only [plainOk, Bool.and_eq_true, beq_iff_eq] at h
      refine .transaction j n (w.transactionAt j).2 ?_ _ (instanceAt_get h.1.1) c [] _ _ rfl
      rw [transactionAt_get h.1.2, ← h.2]
  | invalidates n =>
      simp only [plainOk, Bool.and_eq_true, beq_iff_eq] at h
      refine .invalidate n _ (instanceAt_get h.1) (some sampleFingerprint) [] _ _ rfl fun count ok hok => ?_
      have hboth := Exit.returned.inj (h.2.symm.trans hok)
      exact (congrArg Prod.snd hboth).symm

def plays : List PlainStep → CacheWorld String → CacheWorld String
  | [], w => w
  | p :: ps, w => plays ps (w.plain p)

def playsOk : List PlainStep → CacheWorld String → Bool
  | [], _ => true
  | p :: ps, w => w.plainOk p && playsOk ps (w.plain p)

theorem plays_reachable (ps : List PlainStep) (h : (cacheSystem plainEnv).Reachable w)
    (hok : playsOk ps w = true) : (cacheSystem plainEnv).Reachable (plays ps w) := by
  induction ps generalizing w with
  | nil => exact h
  | cons p ps ih =>
      simp only [playsOk, Bool.and_eq_true] at hok
      exact ih (h.step (plain_step hok.1)) hok.2

end CacheWorld

/-- A payload is stored, invalidated and stored anew; the process dies and the next one reads. -/
def storedTwice : List PlainStep :=
  [.opens, .begins 0, .calls 0 0 (.stage "v" [1]), .calls 0 0 (.commit (some sampleFingerprint) (some sampleFingerprint)),
    .invalidates 0, .begins 0, .calls 0 1 (.stage "v" [2]),
    .calls 0 1 (.commit (some sampleFingerprint) (some sampleFingerprint)), .kill, .opens, .begins 0]

theorem storedTwice_reachable :
    (cacheSystem plainEnv).Reachable (CacheWorld.plays storedTwice emptyRoot) :=
  CacheWorld.plays_reachable storedTwice (.of_init ⟨rfl, rfl, rfl⟩) (by decide +kernel)

/-- The next process reads the second payload, and only that. -/
theorem l2_invalidation_fail_closed_reopened :
    ∃ e ∈ (CacheWorld.plays storedTwice emptyRoot).transactions,
      e.2.payloads = [("v", [2], 2)] ∧ ∀ p ∈ e.2.payloads, 1 < p.2.2 := by
  have hparent : ((CacheWorld.plays storedTwice emptyRoot).transactionAt 0).2.parent = some sampleFingerprint := by
    decide +kernel
  have hbegun : ((CacheWorld.plays storedTwice emptyRoot).transactionAt 0).2.begun = 3 := by
    decide +kernel
  have hpayloads : ((CacheWorld.plays storedTwice emptyRoot).transactionAt 0).2.payloads =
      [("v", [2], 2)] := by decide +kernel
  have hinv : (CacheWorld.plays storedTwice emptyRoot).invalidations = [⟨some sampleFingerprint, 1⟩] := by
    decide +kernel
  have he : (CacheWorld.plays storedTwice emptyRoot).transactionAt 0 ∈
      (CacheWorld.plays storedTwice emptyRoot).transactions :=
    CacheWorld.transactionAt_mem (by decide +kernel)
  exact ⟨_, he, hpayloads, l2_invalidation_fail_closed plainEnv storedTwice_reachable ⟨some sampleFingerprint, 1⟩
    (hinv ▸ List.mem_singleton_self _) _ he (by rw [hbegun]; decide) sampleFingerprint hparent (.inr rfl)⟩

end ConditionCache

end NanoAural
