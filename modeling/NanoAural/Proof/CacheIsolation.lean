import NanoAural.Proof.CacheSwitches

/-!
# One deployment and the cache of another

What the calls of one deployment do to the condition cache of another, where no
call on the disk fails. The modules that hand a fingerprint to the cache take 64
hexadecimal digits; the cache itself refuses one digit 64 times, and the file
system refuses the name of a fuse whose digits take several bytes. `_is_disabled`
takes either for a failing fuse and turns the cache off for every deployment, and
so ends the invalidation of a deployment whose fuse has no name; nothing but
`invalidate_all` turns it on again. Every other call leaves the cache of the
others on.
-/

namespace NanoAural

open Faulty Faulty.Prog

namespace ConditionCache

variable {κ : Type} {env : CacheEnv κ}

/-! ## The cache is on -/

/-- A fingerprint a fuse can be kept for: the cache takes it, and the file system takes the name. -/
def isFusible (deployment : String) : Bool := isFingerprint deployment && hasFuseName deployment

theorem isFusible_iff {deployment : String} :
    isFusible deployment = true ↔ isFingerprint deployment = true ∧ hasFuseName deployment = true :=
  Bool.and_eq_true_iff

/-- The cache is on for the deployment. -/
structure Enabled (deployment : String) (s : CacheState κ) : Prop where
  fingerprint : isFusible deployment = true
  globally : s.globallyDisabled = false
  deployments : deployment ∉ s.disabledDeployments
  opened : s.fusesClosed = false
  globalFuse : s.globalFuse = false
  deploymentFuses : deployment ∉ s.deploymentFuses

theorem requireFingerprint_run {deployment : String} (h : isFingerprint deployment = true)
    (s : CacheState κ) : requireFingerprint deployment [] s = (.returned (), [], s) := by
  unfold requireFingerprint
  rw [h]
  rfl

theorem requireFingerprint_refuses {deployment : String} (h : isFingerprint deployment = false)
    (s : CacheState κ) : requireFingerprint deployment [] s = (.raised .value, [], s) := by
  unfold requireFingerprint
  rw [h]
  rfl

theorem ensureOpen_run {s : CacheState κ} (hopen : s.fusesClosed = false) :
    Authority.facade.ensureOpen [] s = (.returned (), [], s) := by
  change raiseWhen s.fusesClosed _ [] s = _
  rw [hopen]
  rfl

/-- The global fuse, where the authority is open. -/
theorem globalFused_run {s : CacheState κ} (hopen : s.fusesClosed = false) :
    Authority.facade.globalFused [] s = (.returned s.globalFuse, [], s) :=
  bind_returned (ensureOpen_run hopen)

/-- A fuse is looked up by its name. -/
theorem deploymentFused_run {deployment : String} (hfp : isFingerprint deployment = true)
    {s : CacheState κ} (hopen : s.fusesClosed = false) :
    Authority.facade.deploymentFused deployment [] s
      = (if hasFuseName deployment then .returned (s.deploymentFuses.contains deployment)
          else .raised .os, [], s) := by
  refine (bind_returned (requireFingerprint_run hfp s)).trans
    ((bind_returned (ensureOpen_run hopen)).trans ?_)
  cases hname : hasFuseName deployment with
  | true => exact call_returned (by rw [if_pos rfl])
  | false => exact call_raised (by rw [if_neg Bool.false_ne_true])

/-- What an open fuse authority says of a fingerprint it takes. -/
theorem isFused_run {deployment : String} (hfp : isFusible deployment = true)
    {s : CacheState κ} (hopen : s.fusesClosed = false) :
    Authority.facade.isFused deployment [] s
      = (.returned (s.globalFuse || s.deploymentFuses.contains deployment), [], s) := by
  obtain ⟨hfp, hname⟩ := isFusible_iff.mp hfp
  have hdeployment := deploymentFused_run hfp hopen
  rw [hname, if_pos rfl] at hdeployment
  refine (bind_returned (requireFingerprint_run hfp s)).trans
    ((bind_returned (globalFused_run hopen)).trans ?_)
  cases s.globalFuse with
  | true => rfl
  | false => exact hdeployment

/-- Of a fingerprint it does not take, the authority says at most that the global fuse stands. -/
theorem isFused_refused {deployment : String} (hfp : isFusible deployment = false)
    (s : CacheState κ) :
    (s.globalFuse = true ∧ Authority.facade.isFused deployment [] s = (.returned true, [], s))
      ∨ ∃ e, e ≠ .interrupt ∧ Authority.facade.isFused deployment [] s = (.raised e, [], s) := by
  cases hdigits : isFingerprint deployment with
  | false => exact .inr ⟨.value, by decide, bind_raised (requireFingerprint_refuses hdigits s)⟩
  | true =>
      have hname : hasFuseName deployment = false := by
        rw [isFusible, hdigits, Bool.true_and] at hfp
        exact hfp
      have hrequire := requireFingerprint_run hdigits s
      cases hopen : s.fusesClosed with
      | true =>
          have hensure : Authority.facade.ensureOpen [] s = (.raised .other, [], s) := by
            change raiseWhen s.fusesClosed _ [] s = _
            rw [hopen]
            rfl
          exact .inr ⟨.other, by decide,
            (bind_returned hrequire).trans (bind_raised (bind_raised hensure))⟩
      | false =>
          have hrest := (bind_returned (f := fun _ => do
            let fused ← Authority.facade.globalFused
            if fused then pure true else Authority.facade.deploymentFused deployment)
              hrequire).trans (bind_returned (globalFused_run hopen))
          cases hglobal : s.globalFuse with
          | true =>
              rw [hglobal] at hrest
              exact .inl ⟨rfl, hrest⟩
          | false =>
              have hdeployment := deploymentFused_run hdigits hopen
              rw [hname, if_neg Bool.false_ne_true] at hdeployment
              rw [hglobal] at hrest
              exact .inr ⟨.os, by decide, hrest.trans hdeployment⟩

/-- What `_is_disabled` goes by before it asks for a fuse. -/
def switchedOff (deployment : String) (s : CacheState κ) : Bool :=
  s.globallyDisabled || s.disabledDeployments.contains deployment

theorem switchedOff_eq_false {deployment : String} {s : CacheState κ} :
    switchedOff deployment s = false
      ↔ s.globallyDisabled = false ∧ deployment ∉ s.disabledDeployments := by
  unfold switchedOff
  simp

theorem Cache.isDisabled_on {deployment : String} {s : CacheState κ}
    (h : switchedOff deployment s = false) :
    Cache.isDisabled deployment [] s
      = catchAny (Authority.facade.isFused deployment) (fun _ => do
          assign fun s => { s with globallyDisabled := true }
          pure true) [] s := by
  change (if switchedOff deployment s then pure true else _ : CacheProg κ Bool) [] s = _
  rw [h]
  rfl

theorem Cache.isDisabled_off {deployment : String} {s : CacheState κ}
    (h : switchedOff deployment s = true) :
    Cache.isDisabled deployment [] s = (.returned true, [], s) := by
  change (if switchedOff deployment s then pure true else _ : CacheProg κ Bool) [] s = _
  rw [h]
  rfl

/-- A fingerprint the cache takes changes nothing by being asked for. -/
theorem Cache.isDisabled_run {deployment : String} (hfp : isFusible deployment = true)
    {s : CacheState κ} (hopen : s.fusesClosed = false) :
    ∃ disabled, Cache.isDisabled deployment [] s = (.returned disabled, [], s) := by
  cases h : switchedOff deployment s with
  | true => exact ⟨true, isDisabled_off h⟩
  | false => exact ⟨_, (isDisabled_on h).trans (tryCatch_returned (isFused_run hfp hopen))⟩

/-- **The defect.** A fingerprint no fuse can be kept for turns the cache off for all, unless it is
off already for that fingerprint or the global fuse stands. -/
theorem Cache.isDisabled_refused {deployment : String} (hfp : isFusible deployment = false)
    {s : CacheState κ} (h : switchedOff deployment s = false) :
    (s.globalFuse = true ∧ Cache.isDisabled deployment [] s = (.returned true, [], s))
      ∨ Cache.isDisabled deployment [] s
        = (.returned true, [], { s with globallyDisabled := true }) := by
  rcases isFused_refused hfp s with ⟨hglobal, hrun⟩ | ⟨e, he, hrun⟩
  · exact .inl ⟨hglobal, (isDisabled_on h).trans (tryCatch_returned hrun)⟩
  · refine .inr ((isDisabled_on h).trans ((tryCatch_raised hrun).trans ?_))
    cases e with
    | interrupt => exact absurd rfl he
    | os | value | drift | other => rfl

theorem Enabled.isDisabled {deployment : String} {s : CacheState κ} (h : Enabled deployment s) :
    Cache.isDisabled deployment [] s = (.returned false, [], s) := by
  have hfused : (s.globalFuse || s.deploymentFuses.contains deployment) = false := by
    simp [h.globalFuse, h.deploymentFuses]
  have hrun := isFused_run h.fingerprint h.opened
  rw [hfused] at hrun
  exact (Cache.isDisabled_on (switchedOff_eq_false.mpr ⟨h.globally, h.deployments⟩)).trans
    (tryCatch_returned hrun)

theorem writeOnce_run (present : CacheState κ → Bool) (add : CacheState κ → CacheState κ)
    {s : CacheState κ} (hopen : s.fusesClosed = false) :
    Authority.facade.writeOnce true present add [] s
      = (.returned (), [], if present s then s else add s) := by
  refine (bind_returned (ensureOpen_run hopen)).trans ?_
  cases h : present s with
  | true =>
      refine (bind_returned (show _ = (Exit.returned true, [], s) from call_returned ?_)).trans rfl
      rw [h]
      rfl
  | false =>
      refine (bind_returned (show _ = (Exit.returned false, [], add s) from call_returned ?_)).trans rfl
      rw [h]
      rfl

theorem writeOnce_unnamed (present : CacheState κ → Bool) (add : CacheState κ → CacheState κ)
    {s : CacheState κ} (hopen : s.fusesClosed = false) :
    Authority.facade.writeOnce false present add [] s = (.raised .os, [], s) := by
  refine (bind_returned (ensureOpen_run hopen)).trans (bind_raised (call_raised ?_))
  rw [Bool.not_false, if_pos rfl]

/-- Fusing with an open authority succeeds, and writes nothing but the deployment's switches. -/
theorem Cache.fuseDeployment_run {deployment : String} (hfp : isFusible deployment = true)
    {s : CacheState κ} (hopen : s.fusesClosed = false) :
    ∃ fuses, Cache.fuseDeployment deployment [] s = (.returned true, [], { s with
        disabledDeployments := deployment :: s.disabledDeployments
        deploymentFuses := fuses }) ∧ (∀ d ∈ fuses, d = deployment ∨ d ∈ s.deploymentFuses) := by
  obtain ⟨hfp, hname⟩ := isFusible_iff.mp hfp
  let s' := { s with disabledDeployments := deployment :: s.disabledDeployments }
  have hrun : Authority.facade.fuseDeployment deployment [] s'
      = (.returned (), [], if s'.deploymentFuses.contains deployment then s'
          else { s' with deploymentFuses := s'.deploymentFuses ++ [deployment] }) := by
    refine (bind_returned (requireFingerprint_run hfp s')).trans ?_
    rw [hname]
    exact writeOnce_run (s := s') (fun s => s.deploymentFuses.contains deployment)
      (fun s => { s with deploymentFuses := s.deploymentFuses ++ [deployment] }) hopen
  have hfused : ∀ s'' fuses, s'' = { s' with deploymentFuses := fuses } →
      Authority.facade.fuseDeployment deployment [] s' = (.returned (), [], s'') →
      Cache.fuseDeployment deployment [] s = (.returned true, [], { s with
        disabledDeployments := deployment :: s.disabledDeployments
        deploymentFuses := fuses }) := by
    rintro s'' fuses rfl hfuse
    exact (bind_returned (show _ = (Exit.returned (), [], s') from rfl)).trans
      (tryCatch_returned (bind_returned hfuse))
  cases h : s'.deploymentFuses.contains deployment with
  | true =>
      rw [h] at hrun
      exact ⟨s.deploymentFuses, hfused _ _ rfl hrun, fun d hd => .inr hd⟩
  | false =>
      rw [h] at hrun
      refine ⟨s.deploymentFuses ++ [deployment], hfused _ _ rfl hrun, fun d hd => ?_⟩
      rcases List.mem_append.mp hd with hd | hd
      · exact .inr hd
      · exact .inl (List.mem_singleton.mp hd)

/-- A fuse without a name takes the global one with it. -/
theorem Cache.fuseDeployment_unnamed {deployment : String} (hfp : isFingerprint deployment = true)
    (hname : hasFuseName deployment = false) {s : CacheState κ} (hopen : s.fusesClosed = false) :
    ∃ s', Cache.fuseDeployment deployment [] s = (.returned true, [], s')
      ∧ s'.globallyDisabled = true := by
  let s' := { s with disabledDeployments := deployment :: s.disabledDeployments }
  let off := { s' with globallyDisabled := true }
  have hfuse : Authority.facade.fuseDeployment deployment [] s' = (.raised .os, [], s') := by
    refine (bind_returned (requireFingerprint_run hfp s')).trans ?_
    rw [hname]
    exact writeOnce_unnamed _ _ (s := s') hopen
  have hall : Authority.facade.fuseAll [] off
      = (.returned (), [], if off.globalFuse then off else { off with globalFuse := true }) :=
    writeOnce_run (fun s => s.globalFuse) (fun s => { s with globalFuse := true }) hopen
  have hrun : Cache.fuseDeployment deployment [] s
      = (.returned true, [], if off.globalFuse then off else { off with globalFuse := true }) :=
    (bind_returned (show _ = (Exit.returned (), [], s') from rfl)).trans
      ((tryCatch_raised (bind_raised hfuse)).trans
        ((bind_returned (show _ = (Exit.returned (), [], off) from rfl)).trans
          (tryCatch_returned (bind_returned hall))))
  refine ⟨_, hrun, ?_⟩
  split
  · rfl
  · rfl

/-- **What being on is for.** A transaction gets a parent, and what it reads and writes is read and
written in the store. -/
structure Serves (env : CacheEnv κ) (deployment : String) (s : CacheState κ) : Prop where
  enabled : Cache.isDisabled deployment [] s = (.returned false, [], s)
  begins : ∀ begun roles parent, env.deployment parent = deployment →
    ((Cache.begin env begun deployment roles (some parent)) [] s).2.2.txn.parent = some parent
  reads : ∀ parent role, env.deployment parent = deployment →
    Cache.getEntry env parent role [] s = Store.getEntry env parent role [] s
  writes : ∀ parent role payload outcome s', env.deployment parent = deployment →
    Store.putIfAbsent env parent role payload [] s = (.returned outcome, [], s') →
    ((Cache.safePut env parent role payload) [] s).1 = .returned outcome

/-! ## Properties the facade keeps -/

theorem calmly_writeOnce {I : CacheState κ → Prop} (fuses : Authority κ) (named : Bool)
    (present : CacheState κ → Bool) {add : CacheState κ → CacheState κ}
    (hadd : ∀ s, I s → I (add s)) : Calmly I (fuses.writeOnce named present add) := by
  refine calmly_bind (calmly_authority_ensureOpen fuses) fun _ =>
    calmly_bind (calmly_call fun s hs => ?_) fun existed =>
      calmly_ite (fun _ => calmly_pure _) fun _ => calmly_sync
  split
  · exact hs
  · split
    · exact hs
    · exact hadd s hs

/-- A property that no switch can break once it is thrown is kept whatever the fingerprints are. -/
theorem facade_of_thrown {I : CacheState κ → Prop} (idle : Idle I)
    (globally : ∀ s, I s → I { s with globallyDisabled := true })
    (deployments : ∀ s ds, I s → I { s with disabledDeployments := ds })
    (globalFuse : ∀ s, I s → I { s with globalFuse := true })
    (deploymentFuses : ∀ s fs, I s → I { s with deploymentFuses := fs })
    (generation : ∀ s n, I s → I { s with generation := n })
    (update : ∀ s (f : Transaction κ → Transaction κ), (∀ t, (f t).parent = t.parent) → I s →
      I { s with txn := f s.txn }) : Facade env I fun _ => True where
  idle := idle
  isDisabled deployment _ :=
    calmly_bind (calmly_peek _) fun _ => calmly_ite (fun _ => calmly_pure _) fun _ =>
      calmly_catchAny (calmly_isFused _ _) fun _ =>
        calmly_bind (calmly_assign fun s hs => globally s hs) fun _ => calmly_pure _
  fuseDeployment deployment _ := by
    have hall : Calmly I (Cache.fuseAll : CacheProg κ Bool) :=
      calmly_bind (calmly_assign fun s hs => globally s hs) fun _ =>
        calmly_catchAny (calmly_bind (calmly_writeOnce _ _ _ fun s hs => globalFuse s hs)
          fun _ => calmly_pure _) fun _ => calmly_pure _
    have hone : Calmly I (Authority.facade.fuseDeployment deployment) :=
      calmly_bind (calmly_requireFingerprint _) fun _ =>
        calmly_writeOnce _ _ _ fun s hs => deploymentFuses s _ hs
    exact calmly_bind (calmly_assign fun s hs => deployments s _ hs) fun _ =>
      calmly_catchAny (calmly_bind hone fun _ => calmly_pure _) fun _ => hall
  undisable s _ hs := deployments s _ hs
  generation := generation
  update := update
  parent _ _ _ _ := trivial

variable (env) in
/-- Once off for all, off for all. -/
theorem facade_globallyDisabled :
    Facade env (fun s => s.globallyDisabled = true) fun _ => True :=
  facade_of_thrown ⟨fun _ _ h => h, fun _ _ h => h, fun _ _ h => h, fun _ _ h => h, fun _ _ h => h⟩
    (fun _ _ => rfl) (fun _ _ h => h) (fun _ h => h) (fun _ _ h => h) (fun _ _ h => h)
    fun _ _ _ h => h

/-- The parent of a transaction stays what it is. -/
theorem facade_parent (φ : Option κ → Prop) :
    Facade env (fun s => φ s.txn.parent) fun _ => True :=
  facade_of_thrown ⟨fun _ _ h => h, fun _ _ h => h, fun _ _ h => h, fun _ _ h => h, fun _ _ h => h⟩
    (fun _ h => h) (fun _ _ h => h) (fun _ h => h) (fun _ _ h => h) (fun _ _ h => h)
    fun s f hf h => by rw [hf]; exact h

/-- What the calls of other deployments may be for. -/
def Foreign (deployment other : String) : Prop := isFusible other = true ∧ other ≠ deployment

/-- The cache is on for the deployment, and the transaction at hand is of another. -/
structure Spared (env : CacheEnv κ) (deployment : String) (s : CacheState κ) : Prop where
  enabled : Enabled deployment s
  parent : ∀ parent, s.txn.parent = some parent → Foreign deployment (env.deployment parent)

theorem idle_spared (deployment : String) : Idle (Spared env deployment) where
  data _ _ h := ⟨⟨h.1.1, h.1.2, h.1.3, h.1.4, h.1.5, h.1.6⟩, h.2⟩
  metas _ _ h := ⟨⟨h.1.1, h.1.2, h.1.3, h.1.4, h.1.5, h.1.6⟩, h.2⟩
  access _ _ h := ⟨⟨h.1.1, h.1.2, h.1.3, h.1.4, h.1.5, h.1.6⟩, h.2⟩
  readings _ _ h := ⟨⟨h.1.1, h.1.2, h.1.3, h.1.4, h.1.5, h.1.6⟩, h.2⟩
  clear _ _ h := ⟨⟨h.1.1, h.1.2, h.1.3, h.1.4, h.1.5,
    fun hmem => h.1.6 (List.mem_of_mem_filter hmem)⟩, h.2⟩

variable (env) in
/-- **The cache of a deployment through the calls of another.** -/
theorem facade_spared (deployment : String) :
    Facade env (Spared env deployment) (Foreign deployment) where
  idle := idle_spared deployment
  isDisabled other hother s hs := by
    obtain ⟨disabled, hrun⟩ := Cache.isDisabled_run hother.1 hs.enabled.opened
    rw [hrun]
    exact ⟨rfl, hs⟩
  fuseDeployment other hother s hs := by
    obtain ⟨fuses, hrun, hfuses⟩ := Cache.fuseDeployment_run hother.1 hs.enabled.opened
    rw [hrun]
    obtain ⟨⟨hfp, hglobally, hdeployments, hopen, hglobal, hfuse⟩, hparent⟩ := hs
    refine ⟨rfl, ⟨hfp, hglobally, fun hmem => ?_, hopen, hglobal, fun hmem => ?_⟩, hparent⟩
    · rcases List.mem_cons.mp hmem with h | h
      · exact hother.2 h.symm
      · exact hdeployments h
    · rcases hfuses _ hmem with h | h
      · exact hother.2 h.symm
      · exact hfuse h
  undisable _ _ h := ⟨⟨h.1.1, h.1.2, fun hmem => h.1.3 (List.mem_of_mem_filter hmem), h.1.4, h.1.5,
    h.1.6⟩, h.2⟩
  generation _ _ h := ⟨⟨h.1.1, h.1.2, h.1.3, h.1.4, h.1.5, h.1.6⟩, h.2⟩
  update s f hf h := ⟨⟨h.1.1, h.1.2, h.1.3, h.1.4, h.1.5, h.1.6⟩, fun parent hparent =>
    h.2 parent ((hf s.txn).symm.trans hparent)⟩
  parent _ h := h.parent

/-! ## Beginning -/

/-- A transaction begun where its deployment is allowed. -/
theorem Cache.calmly_begin {I : CacheState κ → Prop} {allowed : String → Prop}
    (h : Facade env I allowed) {deployment : String} (ha : allowed deployment)
    (hbegun : ∀ s t, I s → (∀ parent, t.parent = some parent → env.deployment parent = deployment) →
      I { s with txn := t })
    (begun : Nat) (roles : List String) (parentKey : Option κ)
    (hkey : ∀ parent ∈ parentKey, env.deployment parent = deployment) :
    Calmly I (Cache.begin env begun deployment roles parentKey) := by
  have hparentless : ∀ generation disabled, Calmly I (assign fun s =>
      { s with txn := parentless begun roles generation disabled } : CacheProg κ Unit) := fun _ _ =>
    calmly_assign fun s hs => hbegun s _ hs fun parent hparent => by cases hparent
  refine calmly_bind (h.isDisabled _ ha) fun _ => calmly_bind (calmly_peek _) fun _ =>
    calmly_ite (fun _ => hparentless _ _) fun _ => calmly_catchAny ?_ fun _ => hparentless _ _
  cases parentKey with
  | none => exact calmly_raise _
  | some parent =>
      have hparent : env.deployment parent = deployment := hkey parent rfl
      refine calmly_bind (h.isDisabled _ ha) fun _ => calmly_ite (fun _ => hparentless _ _)
        fun _ => calmly_bind (calmly_assign fun s hs => hbegun s _ hs fun _ hp => ?_) fun _ =>
          calmly_forEach (fun role => Transaction.calmly_read h (hparent ▸ ha) role) _
      exact Option.some.inj hp ▸ hparent

/-- A lookup swallows all it can. -/
theorem read_raises (parent : κ) (role : String) :
    Triple (fun _ => True) (Transaction.read env parent role)
      fun x _ => ∀ e, x = .raised e → e = .interrupt := by
  have hcaught : Triple (fun _ => True)
      (catchAny (Cache.getEntry env parent role) fun _ => pure none)
      fun x _ => ∀ e, x = .raised e → e = .interrupt := by
    refine triple_tryCatch (R := fun _ _ => True) (fun _ _ _ => trivial) (fun e => ?_)
      (fun _ _ _ _ h => by cases h) fun _ _ _ h => by cases h
    cases e with
    | interrupt => exact triple_raise fun _ _ _ h => (Exit.raised.inj h).symm
    | os | value | drift | other => exact triple_pure fun _ _ _ h => by cases h
  refine triple_bind hcaught (fun entry => ?_)
    (fun e _ h e' he => h e' (congrArg Exit.raised (Exit.raised.inj he)))
    fun _ _ e he => by cases he
  cases entry with
  | none => exact triple_pure fun _ _ _ h => by cases h
  | some entry => exact triple_assign fun _ _ _ h => by cases h

variable (env) in
theorem reads_raise (parent : κ) (roles : List String) :
    Triple (fun _ => True) (forEach roles (Transaction.read env parent))
      fun x _ => ∀ e, x = .raised e → e = .interrupt := by
  induction roles with
  | nil => exact triple_pure fun _ _ _ h => by cases h
  | cons role roles ih =>
      exact triple_bind (read_raises parent role) (fun _ => ih.weaken (fun _ _ => trivial)
        fun _ _ h => h) (fun e _ h e' he => h e' he) fun _ h e he => h e he

/-- What raises only interrupts is not caught. -/
theorem catchAny_passes {α : Type} {p : CacheProg κ α} {handler : CacheRaise → CacheProg κ α}
    {faults : List (Fault CacheRaise)} {s : CacheState κ}
    (h : ∀ e, (p faults s).1 = .raised e → e = .interrupt) :
    catchAny p handler faults s = p faults s := by
  unfold catchAny Prog.tryCatch
  generalize p faults s = r at h
  obtain ⟨x, rest, s'⟩ := r
  cases x with
  | returned a => rfl
  | raised e =>
      cases h e rfl
      rfl
  | killed => rfl

/-- **Begun where the cache is on**, a transaction has the parent its inputs have. -/
theorem Enabled.begins {deployment : String} {s : CacheState κ} (h : Enabled deployment s)
    (begun : Nat) (roles : List String) {parent : κ} :
    ((Cache.begin env begun deployment roles (some parent)) [] s).2.2.txn.parent = some parent := by
  let s' : CacheState κ := { s with
    txn := ⟨begun, some parent, roles, s.generation, [], [], [], false, false⟩ }
  have hreads := reads_raise env parent roles [] s' trivial
  have hbegin : Cache.begin env begun deployment roles (some parent) [] s
      = forEach roles (Transaction.read env parent) [] s' := by
    refine (bind_returned h.isDisabled).trans ((bind_returned rfl).trans ?_)
    have hbody := bind_returned (f := fun disabled => if disabled then
        assign fun s' : CacheState κ =>
          { s' with txn := Cache.parentless begun roles s.generation true }
      else do
        assign fun s' => { s' with
          txn := ⟨begun, some parent, roles, s.generation, [], [], [], false, false⟩ }
        forEach roles (Transaction.read env parent)) h.isDisabled
    have hrun : _ = forEach roles (Transaction.read env parent) [] s' := hbody.trans rfl
    exact (catchAny_passes fun e he => hreads e (by rw [← hrun]; exact he)).trans hrun
  rw [hbegin]
  exact (calmly_forEach (fun role => Transaction.calmly_read (facade_parent (· = some parent))
    trivial role) roles s' rfl).2

theorem Enabled.writes {deployment : String} {s : CacheState κ} (h : Enabled deployment s)
    {parent : κ} {role : String} {payload : List UInt8} {outcome : PutOutcome} {s' : CacheState κ}
    (hparent : env.deployment parent = deployment)
    (hput : Store.putIfAbsent env parent role payload [] s = (.returned outcome, [], s')) :
    ((Cache.safePut env parent role payload) [] s).1 = .returned outcome := by
  subst hparent
  have hopen : s'.fusesClosed = false := by
    have hcalm := (Store.calmly_putIfAbsent env (I := fun s : CacheState κ => s.fusesClosed = false)
      ⟨fun _ _ h => h, fun _ _ h => h, fun _ _ h => h, fun _ _ h => h, fun _ _ h => h⟩
      parent role payload s h.opened).2
    rwa [hput] at hcalm
  have hfused : ∀ outcome', outcome' = outcome → ∃ s'', (do
      let _ ← Cache.fuseDeployment (env.deployment parent)
      pure outcome' : CacheProg κ PutOutcome) [] s' = (.returned outcome, [], s'') := by
    rintro _ rfl
    obtain ⟨fuses, hrun, _⟩ := Cache.fuseDeployment_run h.fingerprint hopen
    exact ⟨_, bind_returned hrun⟩
  have hrun : ∃ s'', Cache.safePut env parent role payload [] s = (.returned outcome, [], s'') := by
    cases outcome with
    | stored | present | rejected =>
        exact ⟨s', (bind_returned h.isDisabled).trans (tryCatch_returned (bind_returned hput))⟩
    | conflict | fault =>
        obtain ⟨s'', hrest⟩ := hfused _ rfl
        exact ⟨s'', (bind_returned h.isDisabled).trans
          (tryCatch_returned ((bind_returned hput).trans hrest))⟩
  obtain ⟨s'', hrun⟩ := hrun
  rw [hrun]

/-- **Where the cache is on, it serves.** -/
theorem Enabled.serves {deployment : String} {s : CacheState κ} (h : Enabled deployment s) :
    Serves env deployment s where
  enabled := h.isDisabled
  begins begun roles parent _ := h.begins begun roles
  reads parent role hparent := by
    subst hparent
    exact (bind_returned h.isDisabled).trans (bind_returned rfl)
  writes parent role payload outcome s' hparent hput := h.writes hparent hput

/-! ## Sessions -/

/-- The parent of a transaction has a fingerprint a fuse can be kept for. -/
def Vetted (env : CacheEnv κ) (parent : Option κ) : Prop :=
  ∀ p, parent = some p → isFusible (env.deployment p) = true

/-- Where the cache is off for the deployment, a transaction begins without a parent. -/
theorem begin_off {begun : Nat} {deployment : String} {roles : List String} {parentKey : Option κ}
    {s s' : CacheState κ} (h : Cache.isDisabled deployment [] s = (.returned true, [], s')) :
    Cache.begin env begun deployment roles parentKey [] s
      = (.returned (), [], { s' with
          txn := Cache.parentless begun roles s'.generation true }) := (bind_returned h).trans rfl

/-- No transaction gets a parent whose fingerprint no fuse can be kept for. -/
theorem begin_vetted (begun : Nat) (deployment : String) (roles : List String)
    (parentKey : Option κ) (hkey : ∀ parent ∈ parentKey, env.deployment parent = deployment)
    (s : CacheState κ) (hs : Vetted env s.txn.parent) :
    Vetted env ((Cache.begin env begun deployment roles parentKey).run [] s).2.txn.parent := by
  cases hfp : isFusible deployment with
  | true =>
      refine (Cache.calmly_begin (facade_parent (Vetted env)) trivial (fun s t _ ht p hp => ?_)
        begun roles parentKey hkey).run hs
      rw [ht p hp]
      exact hfp
  | false =>
      have hdisabled : ∃ s', Cache.isDisabled deployment [] s = (.returned true, [], s') := by
        cases hoff : switchedOff deployment s with
        | true => exact ⟨s, Cache.isDisabled_off hoff⟩
        | false =>
            rcases Cache.isDisabled_refused hfp hoff with ⟨_, hrun⟩ | hrun
            · exact ⟨_, hrun⟩
            · exact ⟨_, hrun⟩
      obtain ⟨s', hrun⟩ := hdisabled
      unfold Prog.run
      rw [begin_off hrun]
      intro p hp
      cases hp

/-- A cache object and its transactions, which `begin` made. -/
structure Session (env : CacheEnv κ) where
  state : CacheState κ
  transactions : List (Transaction κ)
  vetted : ∀ t ∈ transactions, Vetted env t.parent

/-- A call on the cache or on one of its transactions. The cancellation check of a commit may raise
before any write, and `parent_key` is told what it makes of the inputs. -/
inductive CacheCall (env : CacheEnv κ) where
  | begin (begun : Nat) (deployment : String) (roles : List String)
      (parentKey : Option { parent : κ // env.deployment parent = deployment })
  | commit (j : Nat) (check : Option String → Option CacheRaise) (current revalidated : Option κ)
  | transaction (j : Nat) (call : TransactionCall κ)
  | invalidateDeployment (deployment : String)
  | releaseDeployment (deployment : String)

/-- The check as a program. -/
def verdict (check : Option String → Option CacheRaise) (next : Option String) :
    CacheProg κ Unit :=
  match check next with
  | none => pure ()
  | some e => raise e

theorem calmly_verdict {I : CacheState κ → Prop} (check : Option String → Option CacheRaise)
    (next : Option String) : Calmly I (verdict check next) := by
  unfold verdict
  cases check next with
  | none => exact calmly_pure _
  | some e => exact calmly_raise _

namespace Session

variable (x : Session env)

/-- Where a program starts that works on no transaction. -/
def idleState : CacheState κ := { x.state with txn := noTransaction }

/-- Run a program that works on no transaction. -/
def run {α : Type} (p : CacheProg κ α) : Session env :=
  { x with state := (p.run [] x.idleState).2 }

/-- Run a program on a transaction, if there is one of that number. -/
def runOn (p : CacheProg κ Unit) (hp : Calmly (fun s => Vetted env s.txn.parent) p) (j : Nat) :
    Session env :=
  match h : x.transactions[j]? with
  | none => x
  | some t =>
      { state := (p.run [] { x.state with txn := t }).2
        transactions := x.transactions.set j (p.run [] { x.state with txn := t }).2.txn
        vetted := fun t' ht' => by
          rcases List.mem_or_eq_of_mem_set ht' with ht' | rfl
          · exact x.vetted t' ht'
          · exact hp.run (s := { x.state with txn := t }) (x.vetted t (List.mem_of_getElem? h)) }

/-- The transactions after `begin`, which adds one where it returned. -/
def begun (exit : Exit CacheRaise Unit) (t : Transaction κ) : List (Transaction κ) :=
  match exit with
  | .returned _ => x.transactions ++ [t]
  | .raised _ | .killed => x.transactions

theorem begun_vetted (exit : Exit CacheRaise Unit) {t : Transaction κ} (ht : Vetted env t.parent) :
    ∀ t' ∈ x.begun exit t, Vetted env t'.parent := by
  cases exit with
  | returned _ =>
      intro t' ht'
      rcases List.mem_append.mp ht' with ht' | ht'
      · exact x.vetted t' ht'
      · exact List.mem_singleton.mp ht' ▸ ht
  | raised _ | killed => exact x.vetted

/-- Begin a transaction. -/
def runBegin (begun : Nat) (deployment : String) (roles : List String)
    (parentKey : Option { parent : κ // env.deployment parent = deployment }) : Session env :=
  let r := (Cache.begin env begun deployment roles (parentKey.map Subtype.val)).run [] x.idleState
  { state := r.2
    transactions := x.begun r.1 r.2.txn
    vetted := x.begun_vetted r.1 (begin_vetted begun deployment roles _ (by
      intro parent hparent
      obtain ⟨key, _, rfl⟩ := Option.map_eq_some_iff.mp hparent
      exact key.2) _ fun p hp => by cases hp) }

variable [DecidableEq κ]

/-- One call, where nothing goes wrong. -/
def play : CacheCall env → Session env
  | .begin begun deployment roles parentKey => x.runBegin begun deployment roles parentKey
  | .commit j check current revalidated =>
      x.runOn (Cache.commit env (verdict check) current revalidated)
        (Cache.calmly_commit (facade_parent _) (calmly_verdict check) current revalidated) j
  | .transaction j call => x.runOn (call.run env) (calmly_transactionCall (facade_parent _) call) j
  | .invalidateDeployment deployment => x.run (Cache.invalidateDeployment deployment)
  | .releaseDeployment deployment => x.run (Cache.releaseDeployment env deployment)

def plays (calls : List (CacheCall env)) : Session env := calls.foldl (fun x call => x.play call) x

end Session

/-! ## The cache of another deployment -/

/-- A fingerprint the rest of the program accepts, of a deployment other than `deployment`. -/
def Other (deployment other : String) : Prop := acceptsSha256 other = true ∧ other ≠ deployment

/-- The call is for another deployment than `deployment`. -/
def CacheCall.IsFor (deployment : String) (x : Session env) : CacheCall env → Prop
  | .begin _ other _ _ => Other deployment other
  | .commit j _ _ _ | .transaction j _ => ∀ t, x.transactions[j]? = some t →
      ∀ parent, t.parent = some parent → env.deployment parent ≠ deployment
  | .invalidateDeployment other | .releaseDeployment other => Other deployment other

/-- The call asks for a fuse that cannot be kept: it begins a transaction for a fingerprint that is
one digit 64 times or too long for a file name, unless the cache is off for it already, or it
invalidates, or releases from a closed store, a deployment whose fuse has no name. -/
def CacheCall.Offends (x : Session env) : CacheCall env → Prop
  | .begin _ other _ _ => (other.toList.dedup.length = 1 ∨ hasFuseName other = false)
      ∧ other ∉ x.state.disabledDeployments
  | .commit _ _ _ _ | .transaction _ _ => False
  | .invalidateDeployment other => other.toList.dedup.length ≠ 1 ∧ hasFuseName other = false
  | .releaseDeployment other => other.toList.dedup.length ≠ 1 ∧ hasFuseName other = false
      ∧ (x.state.storeClosed = true ∨ x.state.storeFusesClosed = true)

theorem isFingerprint_iff {value : String} (h : acceptsSha256 value = true) :
    isFingerprint value = true ↔ value.toList.dedup.length ≠ 1 := by
  unfold isFingerprint
  simp [h]

theorem isFusible_eq_false {value : String} (h : acceptsSha256 value = true) :
    isFusible value = false ↔ value.toList.dedup.length = 1 ∨ hasFuseName value = false := by
  rw [← Bool.not_eq_true, isFusible_iff, isFingerprint_iff h, not_and_or, not_not,
    Bool.not_eq_true]

theorem Enabled.with_txn {deployment : String} {s : CacheState κ} (h : Enabled deployment s)
    (t : Transaction κ) : Enabled deployment { s with txn := t } :=
  ⟨h.1, h.2, h.3, h.4, h.5, h.6⟩

/-- A program that works on no transaction. -/
theorem enabled_run {deployment : String} {x : Session env} (h : Enabled deployment x.state)
    {α : Type} {p : CacheProg κ α} (hcalm : Calmly (Spared env deployment) p) :
    Enabled deployment (x.run p).state :=
  (hcalm.run (s := x.idleState) ⟨h.with_txn _, fun _ hparent => by cases hparent⟩).enabled

/-- A method of a transaction of another deployment. -/
theorem enabled_runOn {deployment : String} {x : Session env} (h : Enabled deployment x.state)
    {p : CacheProg κ Unit} (hp : Calmly (fun s => Vetted env s.txn.parent) p) {j : Nat}
    (hcalm : Calmly (Spared env deployment) p)
    (hfor : ∀ t, x.transactions[j]? = some t →
      ∀ parent, t.parent = some parent → env.deployment parent ≠ deployment) :
    Enabled deployment (x.runOn p hp j).state := by
  unfold Session.runOn
  split
  · exact h
  · rename_i t ht
    refine (hcalm.run (s := { x.state with txn := t }) ⟨h.with_txn t, fun parent hparent => ?_⟩).enabled
    exact ⟨x.vetted t (List.mem_of_getElem? ht) parent hparent, hfor t ht parent hparent⟩

/-- A method that looks at the fingerprint before it does anything. -/
theorem enabled_guarded {deployment other : String} {x : Session env}
    (h : Enabled deployment x.state) {α : Type} {p : CacheProg κ α}
    (hpassed : isFingerprint other = true →
      Enabled deployment (x.run (requireFingerprint other >>= fun _ => p)).state) :
    Enabled deployment (x.run (requireFingerprint other >>= fun _ => p)).state := by
  cases hfp : isFingerprint other with
  | true => exact hpassed hfp
  | false =>
      have hrun := bind_raised (f := fun _ => p) (requireFingerprint_refuses hfp x.idleState)
      unfold Session.run Prog.run
      rw [hrun]
      exact h.with_txn _

/-- A transaction for another deployment begins. -/
theorem enabled_runBegin {deployment other : String} {x : Session env}
    (h : Enabled deployment x.state) (hfor : Other deployment other)
    (hgood : isFusible other = true ∨ other ∈ x.state.disabledDeployments)
    (begun : Nat) (roles : List String)
    (parentKey : Option { parent : κ // env.deployment parent = other }) :
    Enabled deployment (x.runBegin begun other roles parentKey).state := by
  rcases hgood with hfp | hmem
  · have hforeign : Foreign deployment other := ⟨hfp, hfor.2⟩
    refine enabled_run h (Cache.calmly_begin (facade_spared env deployment) hforeign
      (fun s t hs ht => ⟨hs.enabled.with_txn t, fun parent hparent => ?_⟩) begun roles _ ?_)
    · rw [ht parent hparent]
      exact hforeign
    · intro parent hparent
      obtain ⟨key, _, rfl⟩ := Option.map_eq_some_iff.mp hparent
      exact key.2
  · have hoff : switchedOff other x.idleState = true := by
      unfold switchedOff
      rw [Bool.or_eq_true, List.contains_iff_mem]
      exact .inr hmem
    change Enabled deployment ((Cache.begin env begun other roles
      (parentKey.map Subtype.val)).run [] x.idleState).2
    unfold Prog.run
    rw [begin_off (Cache.isDisabled_off hoff)]
    exact h.with_txn _

theorem releaseDeployment_run {deployment : String} (hfp : isFingerprint deployment = true)
    {s : CacheState κ} (h : s.globallyDisabled = false) :
    Cache.releaseDeployment env deployment [] s
      = catchAny (Store.cleanup env) (fun _ => do
          Cache.nextGeneration
          let _ ← Cache.fuseDeployment deployment
          pure ()) [] s := by
  refine (bind_returned (requireFingerprint_run hfp s)).trans ?_
  change (if s.globallyDisabled then pure () else _ : CacheProg κ Unit) [] s = _
  rw [h]
  rfl

/-- A closed store is not cleaned up. -/
theorem cleanup_closed (env : CacheEnv κ) {s : CacheState κ}
    (h : s.storeClosed = true ∨ s.storeFusesClosed = true) :
    ∃ s', s'.fusesClosed = s.fusesClosed
      ∧ Store.cleanup env [] s = (.raised .other, [], s') := by
  cases hstore : s.storeClosed with
  | true =>
      have hensure : Store.ensureOpen [] s = (.raised .other, [], s) := by
        change raiseWhen s.storeClosed _ [] s = _
        rw [hstore]
        rfl
      exact ⟨s, rfl, bind_raised hensure⟩
  | false =>
      have hfuses : s.storeFusesClosed = true := h.resolve_left (by rw [hstore]; decide)
      have hensure : Store.ensureOpen [] s = (.returned (), [], s) := by
        change raiseWhen s.storeClosed _ [] s = _
        rw [hstore]
        rfl
      let s' : CacheState κ := { s with readings := s.readings + 1 }
      have hglobal : Authority.store.globalFused [] s' = (.raised .other, [], s') := by
        refine bind_raised ?_
        change raiseWhen s.storeFusesClosed _ [] s' = _
        rw [hfuses]
        rfl
      exact ⟨s', rfl, (bind_returned hensure).trans
        ((bind_returned (show _ = (Exit.returned _, [], s') from call_returned rfl)).trans
          (bind_raised hglobal))⟩

/-- What `release_deployment` does with a deployment whose fuse has no name, while the cache is on:
its clean-up returns from an open store, and nothing asks for the fuse. -/
theorem enabled_release_unnamed {deployment other : String} {x : Session env}
    (h : Enabled deployment x.state) (hfp : isFingerprint other = true)
    (hstore : x.state.storeClosed = false) (hfuses : x.state.storeFusesClosed = false) :
    Enabled deployment (x.run (Cache.releaseDeployment env other)).state := by
  have hidle : Idle fun s : CacheState κ => Enabled deployment s
      ∧ s.storeClosed = false ∧ s.storeFusesClosed = false := by
    have hspared : Idle (Spared env deployment) := idle_spared deployment
    have hnone : ∀ s : CacheState κ, Enabled deployment s →
        Spared env deployment { s with txn := noTransaction } := fun s hs =>
      ⟨hs.with_txn _, fun _ hparent => by cases hparent⟩
    exact ⟨fun s d hs => ⟨(hspared.data _ d (hnone s hs.1)).1.with_txn s.txn, hs.2⟩,
      fun s m hs => ⟨(hspared.metas _ m (hnone s hs.1)).1.with_txn s.txn, hs.2⟩,
      fun s a hs => ⟨(hspared.access _ a (hnone s hs.1)).1.with_txn s.txn, hs.2⟩,
      fun s n hs => ⟨(hspared.readings _ n (hnone s hs.1)).1.with_txn s.txn, hs.2⟩,
      fun s d hs => ⟨(hspared.clear _ d (hnone s hs.1)).1.with_txn s.txn, hs.2⟩⟩
  obtain ⟨r, s', hrun, hs', hr⟩ := Store.smoothly_cleanup env (R := fun _ => False) hidle
    (fun _ hs => hs.2) x.idleState ⟨h.with_txn _, hstore, hfuses⟩
  cases r with
  | returned _ =>
      change Enabled deployment ((Cache.releaseDeployment env other).run [] x.idleState).2
      unfold Prog.run
      rw [releaseDeployment_run (s := x.idleState) hfp h.globally,
        show catchAny (Store.cleanup env) _ [] _ = _ from tryCatch_returned hrun]
      exact hs'.1
  | raised _ | killed => exact hr.elim

section

variable [DecidableEq κ]

/-- Each call holds of the session it is made in. -/
def Throughout (P : Session env → CacheCall env → Prop) :
    List (CacheCall env) → Session env → Prop
  | [], _ => True
  | call :: calls, x => P x call ∧ Throughout P calls (x.play call)

/-- **One call.** -/
theorem enabled_play {deployment : String} {x : Session env} (h : Enabled deployment x.state)
    (call : CacheCall env) (hfor : call.IsFor deployment x) (hgood : ¬ call.Offends x) :
    Enabled deployment (x.play call).state := by
  have hfacade := facade_spared env deployment
  cases call with
  | begin begun other roles parentKey =>
      refine enabled_runBegin h hfor ?_ begun roles parentKey
      by_contra hbad
      rw [not_or, Bool.not_eq_true, isFusible_eq_false hfor.1] at hbad
      exact hgood hbad
  | commit j check current revalidated =>
      exact enabled_runOn h
        (Cache.calmly_commit (facade_parent _) (calmly_verdict check) current revalidated)
        (Cache.calmly_commit hfacade (calmly_verdict check) current revalidated) hfor
  | transaction j call =>
      exact enabled_runOn h (calmly_transactionCall (facade_parent _) call)
        (calmly_transactionCall hfacade call) hfor
  | invalidateDeployment other =>
      refine enabled_guarded h fun hfp => ?_
      have hname : hasFuseName other = true := by
        by_contra hname
        exact hgood ⟨(isFingerprint_iff hfor.1).mp hfp, Bool.not_eq_true _ ▸ hname⟩
      exact enabled_run h (Cache.calmly_invalidateDeployment hfacade
        ⟨isFusible_iff.mpr ⟨hfp, hname⟩, hfor.2⟩)
  | releaseDeployment other =>
      refine enabled_guarded h fun hfp => ?_
      cases hname : hasFuseName other with
      | true => exact enabled_run h (Cache.calmly_releaseDeployment hfacade
          ⟨isFusible_iff.mpr ⟨hfp, hname⟩, hfor.2⟩)
      | false =>
          have hopen : ¬ (x.state.storeClosed = true ∨ x.state.storeFusesClosed = true) :=
            fun hclosed => hgood ⟨(isFingerprint_iff hfor.1).mp hfp, hname, hclosed⟩
          rw [not_or, Bool.not_eq_true, Bool.not_eq_true] at hopen
          exact enabled_release_unnamed h hfp hopen.1 hopen.2

/-- What a call does once the cache is off for all. -/
theorem globallyDisabled_play {x : Session env} (h : x.state.globallyDisabled = true)
    (call : CacheCall env) : (x.play call).state.globallyDisabled = true := by
  have hfacade := facade_globallyDisabled env
  have hrunOn : ∀ (p : CacheProg κ Unit) hp (j : Nat),
      Calmly (fun s : CacheState κ => s.globallyDisabled = true) p →
      (x.runOn p hp j).state.globallyDisabled = true := by
    intro p hp j hcalm
    unfold Session.runOn
    split
    · exact h
    · rename_i t ht
      exact hcalm.run (s := { x.state with txn := t }) h
  cases call with
  | begin begun other roles parentKey =>
      refine (Cache.calmly_begin hfacade trivial (fun _ _ hs _ => hs) begun roles _ ?_).run
        (s := x.idleState) h
      intro parent hparent
      obtain ⟨key, _, rfl⟩ := Option.map_eq_some_iff.mp hparent
      exact key.2
  | commit j check current revalidated =>
      exact hrunOn _
        (Cache.calmly_commit (facade_parent _) (calmly_verdict check) current revalidated) j
        (Cache.calmly_commit hfacade (calmly_verdict check) current revalidated)
  | transaction j call =>
      exact hrunOn _ (calmly_transactionCall (facade_parent _) call) j
        (calmly_transactionCall hfacade call)
  | invalidateDeployment other =>
      exact (Cache.calmly_invalidateDeployment hfacade trivial).run (s := x.idleState) h
  | releaseDeployment other =>
      exact (Cache.calmly_releaseDeployment hfacade trivial).run (s := x.idleState) h

omit [DecidableEq κ] in
/-- A transaction that begins for a fingerprint no fuse can be kept for. -/
theorem globallyDisabled_begin {deployment other : String} {x : Session env}
    (h : Enabled deployment x.state) (hfp : isFusible other = false)
    (hmem : other ∉ x.state.disabledDeployments) (begun : Nat) (roles : List String)
    (parentKey : Option { parent : κ // env.deployment parent = other }) :
    (x.runBegin begun other roles parentKey).state.globallyDisabled = true := by
  change ((Cache.begin env begun other roles (parentKey.map Subtype.val)).run []
    x.idleState).2.globallyDisabled = true
  unfold Prog.run
  rcases Cache.isDisabled_refused hfp (s := x.idleState)
    (switchedOff_eq_false.mpr ⟨h.globally, hmem⟩) with ⟨hglobal, _⟩ | hrun
  · exact absurd (h.globalFuse.symm.trans hglobal) Bool.false_ne_true
  · rw [begin_off hrun]

omit [DecidableEq κ] in
/-- An invalidation whose last step asks for a fuse without a name. -/
theorem globallyDisabled_invalidate {deployment other : String} {x : Session env}
    (h : Enabled deployment x.state) (hfp : isFingerprint other = true)
    (hname : hasFuseName other = false) :
    (x.run (Cache.invalidateDeployment other)).state.globallyDisabled = true := by
  let s : CacheState κ := { x.idleState with generation := x.state.generation + 1 }
  have hidle : Idle fun s : CacheState κ => s.fusesClosed = false :=
    ⟨fun _ _ h => h, fun _ _ h => h, fun _ _ h => h, fun _ _ h => h, fun _ _ h => h⟩
  obtain ⟨r, s', hrun, hopen, hr⟩ := Store.smoothly_invalidateDeployment hidle hname
    (R := fun e => e ≠ .interrupt) (fun _ he => he) s h.opened
  cases r with
  | returned _ | killed => exact hr.elim
  | raised e =>
      obtain ⟨s'', hfuse, hoff⟩ := Cache.fuseDeployment_unnamed hfp hname hopen
      have hall : Cache.invalidateDeployment other [] x.idleState
          = (.returned (0, true), [], s'') := by
        refine (bind_returned (requireFingerprint_run hfp x.idleState)).trans
          ((bind_returned (show _ = (Exit.returned (), [], s) from rfl)).trans
            ((tryCatch_raised (bind_raised hrun)).trans ?_))
        cases e with
        | interrupt => exact absurd rfl hr
        | os | value | drift | other => exact bind_returned hfuse
      change ((Cache.invalidateDeployment other).run [] x.idleState).2.globallyDisabled = true
      unfold Prog.run
      rw [hall]
      exact hoff

omit [DecidableEq κ] in
/-- A release from a closed store, whose clean-up raises. -/
theorem globallyDisabled_release {deployment other : String} {x : Session env}
    (h : Enabled deployment x.state) (hfp : isFingerprint other = true)
    (hname : hasFuseName other = false)
    (hclosed : x.state.storeClosed = true ∨ x.state.storeFusesClosed = true) :
    (x.run (Cache.releaseDeployment env other)).state.globallyDisabled = true := by
  obtain ⟨s, hopen, hrun⟩ := cleanup_closed env (s := x.idleState) hclosed
  obtain ⟨s', hfuse, hoff⟩ := Cache.fuseDeployment_unnamed hfp hname
    (s := { s with generation := s.generation + 1 }) (hopen.trans h.opened)
  change ((Cache.releaseDeployment env other).run [] x.idleState).2.globallyDisabled = true
  unfold Prog.run
  rw [releaseDeployment_run (s := x.idleState) hfp h.globally,
    show catchAny (Store.cleanup env) _ [] _ = _ from (tryCatch_raised hrun).trans
      ((bind_returned (show _ = (Exit.returned (), [], _) from rfl)).trans (bind_returned hfuse))]
  exact hoff

/-- **One such call is enough.** -/
theorem offends_play {deployment : String} {x : Session env} (h : Enabled deployment x.state)
    {call : CacheCall env} (hfor : call.IsFor deployment x) (hbad : call.Offends x) :
    (x.play call).state.globallyDisabled = true := by
  cases call with
  | begin begun other roles parentKey =>
      exact globallyDisabled_begin h ((isFusible_eq_false hfor.1).mpr hbad.1) hbad.2 begun roles
        parentKey
  | invalidateDeployment other =>
      exact globallyDisabled_invalidate h ((isFingerprint_iff hfor.1).mpr hbad.1) hbad.2
  | releaseDeployment other =>
      exact globallyDisabled_release h ((isFingerprint_iff hfor.1).mpr hbad.1) hbad.2.1 hbad.2.2
  | commit | transaction => exact hbad.elim

theorem globallyDisabled_plays {x : Session env} (h : x.state.globallyDisabled = true)
    (calls : List (CacheCall env)) : (x.plays calls).state.globallyDisabled = true := by
  induction calls generalizing x with
  | nil => exact h
  | cons call calls ih => exact ih (globallyDisabled_play h call)

omit [DecidableEq κ] in
/-- Off for all, the cache serves nobody. -/
theorem not_serves {deployment : String} {s : CacheState κ} (h : s.globallyDisabled = true) :
    ¬ Serves env deployment s := by
  intro hserves
  have hoff : switchedOff deployment s = true := by
    unfold switchedOff
    rw [h, Bool.true_or]
  have henabled := hserves.enabled
  rw [Cache.isDisabled_off hoff] at henabled
  cases henabled

/-- **One deployment's calls and the cache of another.** The cache serves the other afterwards
exactly if none of the calls asked for a fuse that cannot be kept. -/
theorem serves_after_others_iff (deployment : String) (x : Session env)
    (h : Enabled deployment x.state) (calls : List (CacheCall env))
    (hfor : Throughout (fun x call => call.IsFor deployment x) calls x) :
    Serves env deployment (x.plays calls).state
      ↔ Throughout (fun x call => ¬ call.Offends x) calls x := by
  induction calls generalizing x with
  | nil => exact ⟨fun _ => trivial, fun _ => h.serves⟩
  | cons call calls ih =>
      by_cases hgood : call.Offends x
      · have hoff := globallyDisabled_plays (offends_play h hfor.1 hgood) calls
        exact ⟨fun hserves => absurd hserves (not_serves hoff), fun hall => absurd hgood hall.1⟩
      · have hrest := ih (x.play call) (enabled_play h call hfor.1 hgood) hfor.2
        exact ⟨fun hserves => ⟨hgood, hrest.mp hserves⟩, fun hall => hrest.mpr hall.2⟩

end

/-! ### Sixty-four zeros -/

/-- A digest every module but the condition cache takes. -/
def zeros : String := String.ofList (List.replicate 64 '0')

/-- A cache just opened on an empty root. -/
def freshSession : Session plainEnv :=
  ⟨emptyRoot.state freshInstance noTransaction, [], fun _ h => by cases h⟩

theorem freshSession_enabled : Enabled sampleFingerprint freshSession.state :=
  ⟨by decide +kernel, rfl, List.not_mem_nil, rfl, rfl, List.not_mem_nil⟩

theorem accepts_zeros : acceptsSha256 zeros = true := by decide +kernel

theorem zeros_ne_sample : zeros ≠ sampleFingerprint := by decide +kernel

/-- One transaction for the zeros, and no transaction of another deployment gets a parent. -/
theorem zeros_disable_others :
    Throughout (fun x call => call.IsFor sampleFingerprint x) [.begin 0 zeros [] none] freshSession
      ∧ ¬ Serves plainEnv sampleFingerprint
        (freshSession.plays [.begin 0 zeros [] none]).state := by
  have hfor : CacheCall.IsFor sampleFingerprint freshSession (.begin 0 zeros [] none) :=
    ⟨accepts_zeros, zeros_ne_sample⟩
  have hbad : CacheCall.Offends freshSession (.begin 0 zeros [] none) :=
    ⟨.inl (by decide +kernel), List.not_mem_nil⟩
  exact ⟨⟨hfor, trivial⟩, not_serves (offends_play freshSession_enabled hfor hbad)⟩

/-- A digest the condition cache takes too. -/
def otherFingerprint : String := String.ofList ('2' :: List.replicate 63 '0')

/-- Digits of four bytes, not all the same: the mathematical bold zero and one. -/
def boldDigits : String := String.ofList (List.replicate 63 '𝟎' ++ ['𝟏'])

theorem accepts_boldDigits : acceptsSha256 boldDigits = true := by decide +kernel

theorem boldDigits_unnamed : hasFuseName boldDigits = false := by decide +kernel

theorem boldDigits_ne_sample : boldDigits ≠ sampleFingerprint := by decide +kernel

example : ¬ Serves plainEnv sampleFingerprint
    (freshSession.plays [.invalidateDeployment boldDigits]).state := by
  have hfor : CacheCall.IsFor sampleFingerprint freshSession (.invalidateDeployment boldDigits) :=
    ⟨accepts_boldDigits, boldDigits_ne_sample⟩
  have hbad : CacheCall.Offends freshSession (.invalidateDeployment boldDigits) :=
    ⟨by decide +kernel, boldDigits_unnamed⟩
  have hoff := offends_play freshSession_enabled hfor hbad
  rw [Session.plays, List.foldl_cons, List.foldl_nil]
  exact not_serves hoff

/-- A release of the bold digits, a transaction and an invalidation of one deployment, then a
release of the zeros. -/
def politeCalls : List (CacheCall plainEnv) :=
  [.releaseDeployment boldDigits, .begin 0 otherFingerprint ["v"] (some ⟨otherFingerprint, rfl⟩),
    .invalidateDeployment otherFingerprint, .releaseDeployment zeros]

theorem sample_served_after_others :
    Serves plainEnv sampleFingerprint (freshSession.plays politeCalls).state := by
  have hother : Other sampleFingerprint otherFingerprint :=
    ⟨by decide +kernel, by decide +kernel⟩
  have hgood : otherFingerprint.toList.dedup.length ≠ 1 := by decide +kernel
  have hname : hasFuseName otherFingerprint = true := by decide +kernel
  have hfor : Throughout (fun x call => call.IsFor sampleFingerprint x) politeCalls freshSession :=
    ⟨⟨accepts_boldDigits, boldDigits_ne_sample⟩, hother, hother, ⟨accepts_zeros, zeros_ne_sample⟩,
      trivial⟩
  have hcalm : Throughout (fun x call => ¬ call.Offends x) politeCalls freshSession := by
    refine ⟨fun hbad => ?_, fun hbad => ?_, fun hbad => ?_, fun hbad => ?_, trivial⟩
    · exact hbad.2.2.elim Bool.false_ne_true Bool.false_ne_true
    · exact hbad.1.elim hgood fun hnameless => Bool.false_ne_true (hnameless.symm.trans hname)
    · exact Bool.false_ne_true (hbad.2.symm.trans hname)
    · exact hbad.1 (by decide +kernel)
  exact (serves_after_others_iff sampleFingerprint freshSession freshSession_enabled politeCalls
    hfor).mpr hcalm

end ConditionCache

end NanoAural
