import NanoAural.ControlFoley.L0L1Cache
import NanoAural.Proof.FailClosed
import NanoAural.Proof.MemoryCache

/-!
# The generation fences old transactions off

An entry that can be read was staged after every invalidation of its deployment: what an
invalidation leaves in the store is of another deployment, or its deployment is disabled
from then on. A commit stores only under the generation its transaction began with, and
every invalidation moves on to the next one, so what is stored was begun after all of
them. The interleaving does not matter, because each step holds the lock throughout.
-/

namespace NanoAural

open Faulty Faulty.Prog

namespace L0L1Cache

open ConditionCache (Invalidation Fresh)
open MemoryCache

variable {κ : Type} {env : Env κ} {invs : List Invalidation}

/-! ## The store behind the flags -/

/-- What can be read was staged after every invalidation of its deployment. -/
structure Memory.Fenced (env : Env κ) (invs : List Invalidation) (m : Memory) : Prop where
  bounded : m.store.Bounded env.policy
  fresh : ∀ item ∈ m.store.entries.items, m.isDisabled item.2.deploymentFingerprint = false →
    Fresh invs item.2.deploymentFingerprint (m.origin item.1)

/-- A call that stores nothing. -/
theorem Memory.Fenced.effect {m : Memory} (h : m.Fenced env invs) {c : StoreCall}
    {x : Exit StoreRaise StoreAnswer} {store : MemoryStore}
    (he : MemoryCache.Effect env.policy env.hash m.store c x store)
    (hx : x ≠ .returned (.outcome .stored)) (readings : Nat) :
    ({ m with store := store, readings := readings } : Memory).Fenced env invs :=
  ⟨bounded_step h.bounded he, fun item hitem hopen => by
    rcases effect_fresh he hitem with hmem | ⟨hstored, _⟩
    · exact h.fresh item hmem hopen
    · exact absurd hstored hx⟩

/-- A transaction of after every invalidation stores. -/
theorem Memory.Fenced.stored {m : Memory} (h : m.Fenced env invs) {tier keyDigest deployment : String}
    {payload : List UInt8} {reading : Option ℚ} {x : Exit StoreRaise StoreAnswer}
    {store : MemoryStore} (he : MemoryCache.Effect env.policy env.hash m.store
      (.putIfAbsent tier keyDigest deployment payload reading) x store)
    {begun : Nat} (hlater : ∀ inv ∈ invs, inv.stamp < begun) (readings : Nat) :
    ({ m with
        store := store
        readings := readings
        origin := Function.update m.origin (tier, keyDigest) begun } : Memory).Fenced env invs := by
  refine ⟨bounded_step h.bounded he, fun item hitem hopen => ?_⟩
  change Fresh invs _ (Function.update m.origin (tier, keyDigest) begun item.1)
  by_cases hself : item.1 = (tier, keyDigest)
  · rw [hself, Function.update_self]
    exact fun inv hinv _ => hlater inv hinv
  · rw [Function.update_of_ne hself]
    rcases effect_fresh he hitem with hmem | ⟨_, _, hcall⟩
    · exact h.fresh item hmem hopen
    · injection hcall with htier hdigest
      exact absurd (Prod.ext htier.symm hdigest.symm) hself

/-! ## What the transactions' methods keep -/

/-- The flags and the generation are those of `m`, the transaction at hand began as `t` did, and
what it has read is `Good`. -/
structure Kept (env : Env κ) (invs : List Invalidation) (m : Memory) (t : Transaction κ)
    (Good : String × ReadPayload → Prop) (s : State κ) : Prop where
  fenced : s.toMemory.Fenced env invs
  generation : s.generation = m.generation
  globally : s.globallyDisabled = m.globallyDisabled
  deployments : s.disabledDeployments = m.disabledDeployments
  begun : s.txn.begun = t.begun
  key : s.txn.key = t.key
  txnGeneration : s.txn.generation = t.generation
  payloads : ∀ p ∈ s.txn.payloads.items, Good p

variable {m : Memory} {t : Transaction κ} {Good : String × ReadPayload → Prop}

theorem Kept.memory {s s' : State κ} (h : Kept env invs m t Good s)
    (hfenced : s'.toMemory.Fenced env invs) (hgeneration : s'.generation = s.generation)
    (hglobally : s'.globallyDisabled = s.globallyDisabled)
    (hdeployments : s'.disabledDeployments = s.disabledDeployments) (htxn : s'.txn = s.txn) :
    Kept env invs m t Good s' :=
  ⟨hfenced, hgeneration.trans h.generation, hglobally.trans h.globally,
    hdeployments.trans h.deployments, htxn ▸ h.begun, htxn ▸ h.key, htxn ▸ h.txnGeneration,
    htxn ▸ h.payloads⟩

theorem Kept.isDisabled {s : State κ} (h : Kept env invs m t Good s) (deployment : String) :
    s.isDisabled deployment = m.isDisabled deployment := by
  unfold Memory.isDisabled
  rw [h.globally, h.deployments]

theorem always_catchException {I : State κ → Prop} {α : Type} {p handler : CacheProg κ α}
    (hp : Always I p) (hhandler : Always I handler) : Always I (catchException p handler) := by
  refine always_tryCatch hp fun e => ?_
  cases e with
  | interrupt => exact always_raise _
  | cache | drift | exception => exact hhandler

theorem yields_catchException {P I : State κ → Prop} {α : Type} {p handler : CacheProg κ α}
    {φ : α → State κ → Prop} (hp : Yields P I p φ) (hhandler : Yields I I handler φ) :
    Yields P I (catchException p handler) φ := by
  refine yields_tryCatch hp fun e => ?_
  cases e with
  | interrupt => exact yields_raise fun _ h => h
  | cache | drift | exception => exact hhandler

/-- Nothing that bears on the fence is written. -/
theorem Kept.update {s : State κ} (h : Kept env invs m t Good s) {f : Transaction κ → Transaction κ}
    (hf : ∀ t, (f t).begun = t.begun ∧ (f t).key = t.key ∧ (f t).generation = t.generation)
    (hpayloads : ∀ t, ∀ p ∈ (f t).payloads.items, p ∈ t.payloads.items ∨ Good p) :
    Kept env invs m t Good { s with txn := f s.txn } := by
  obtain ⟨hbegun, hkey, hgeneration⟩ := hf s.txn
  refine ⟨h.fenced, h.generation, h.globally, h.deployments, hbegun.trans h.begun,
    hkey.trans h.key, hgeneration.trans h.txnGeneration, fun p hp => ?_⟩
  rcases hpayloads s.txn p hp with hold | hgood
  · exact h.payloads p hold
  · exact hgood

theorem always_update {f : Transaction κ → Transaction κ}
    (hf : ∀ t, (f t).begun = t.begun ∧ (f t).key = t.key ∧ (f t).generation = t.generation)
    (hpayloads : ∀ t, ∀ p ∈ (f t).payloads.items, p ∈ t.payloads.items ∨ Good p) :
    Always (Kept env invs m t Good) (Transaction.update f) :=
  always_assign fun _ hs => hs.update hf hpayloads

/-- An update that leaves what was read. -/
theorem always_update_quiet {f : Transaction κ → Transaction κ}
    (hf : ∀ t, (f t).begun = t.begun ∧ (f t).key = t.key ∧ (f t).generation = t.generation ∧
      (f t).payloads = t.payloads) :
    Always (Kept env invs m t Good) (Transaction.update f) :=
  always_update (fun t => ⟨(hf t).1, (hf t).2.1, (hf t).2.2.1⟩) fun t _ hp =>
    .inl ((hf t).2.2.2 ▸ hp)

theorem always_setState (tier : String) (state : TierState) :
    Always (Kept env invs m t Good)
      (Transaction.setState tier state : CacheProg κ Unit) :=
  always_update_quiet fun _ => ⟨rfl, rfl, rfl, rfl⟩

theorem always_recordFault (reason : String) :
    Always (Kept env invs m t Good)
      (Transaction.recordFault reason : CacheProg κ Unit) :=
  always_update_quiet fun _ => ⟨rfl, rfl, rfl, rfl⟩

theorem always_abort : Always (Kept env invs m t Good)
    (Transaction.abort : CacheProg κ Unit) :=
  always_update_quiet fun _ => ⟨rfl, rfl, rfl, rfl⟩

/-! ### Calls on the store -/

/-- **A call that stores nothing keeps the fence**, and does what its method does. -/
theorem yields_storeCall {α : Type} {method : Option ℚ → StoreProg α} {c : Option ℚ → StoreCall}
    {answer : α → StoreAnswer} {φ : α → MemoryStore → Prop}
    (heffect : ∀ reading store, store.Balanced →
      Comes (method reading) store (Effects env.policy env.hash store (c reading) answer))
    (hquiet : ∀ a, answer a ≠ .outcome .stored)
    (hφ : ∀ reading store a store',
      MemoryCache.Effect env.policy env.hash store (c reading) (.returned (answer a)) store' →
        φ a store') :
    Yields (Kept env invs m t Good) (Kept env invs m t Good) (storeCall unmarked method)
      fun a s => φ a s.store := by
  have hrun : ∀ s : State κ, Kept env invs m t Good s → Effects env.policy env.hash s.store
      (c (s.clock s.readings)) answer ((method (s.clock s.readings)).run [] s.store).1
      ((method (s.clock s.readings)).run [] s.store).2 := fun s hs =>
    (heffect (s.clock s.readings) s.store hs.fenced.bounded.balanced).run
  refine yields_call (fun _ hs => hs) (fun s hs => ?_) fun s a s' hs heq => ?_
  · have he := hrun s hs
    generalize (method (s.clock s.readings)).run [] s.store = r at he ⊢
    obtain ⟨x, store⟩ := r
    cases x with
    | returned a =>
        exact hs.memory (hs.fenced.effect he (fun h => hquiet a (Exit.returned.inj h)) _) rfl rfl rfl
          rfl
    | raised e => exact hs.memory (hs.fenced.effect he (by simp) _) rfl rfl rfl rfl
    | killed => exact hs.memory (hs.fenced.effect he (by simp) _) rfl rfl rfl rfl
  · have he := hrun s hs
    generalize (method (s.clock s.readings)).run [] s.store = r at he heq
    obtain ⟨x, store⟩ := r
    cases x with
    | returned a' =>
        obtain ⟨ha, rfl⟩ := Prod.mk.inj heq
        obtain rfl := Except.ok.inj ha
        exact hφ _ _ _ _ he
    | raised | killed => cases (Prod.mk.inj heq).1

theorem always_storeCall {α : Type} {method : Option ℚ → StoreProg α} {c : Option ℚ → StoreCall}
    {answer : α → StoreAnswer}
    (heffect : ∀ reading store, store.Balanced →
      Comes (method reading) store (Effects env.policy env.hash store (c reading) answer))
    (hquiet : ∀ a, answer a ≠ .outcome .stored) :
    Always (Kept env invs m t Good) (storeCall unmarked method) :=
  (yields_storeCall (φ := fun _ _ => True) heffect hquiet fun _ _ _ _ _ => trivial).always

/-- **A put of a transaction of after every invalidation keeps it.** -/
theorem always_safePut (hlater : ∀ inv ∈ invs, inv.stamp < t.begun) (tier : String) (k : κ)
    (payload : List UInt8) :
    Always (Kept env invs m t Good) (Cache.safePut env tier k payload) := by
  refine always_bind (always_peek _) fun _ => always_ite (fun _ => always_pure _) fun _ =>
    always_catchException (always_bind (always_call fun s hs => ?_) fun _ => always_pure _)
      (always_pure _)
  have he := (putIfAbsent_effect env.policy env.hash hs.fenced.bounded.balanced tier (env.digest k)
    (env.deployment k) payload (s.clock s.readings)).run
  generalize (MemoryCache.putIfAbsent env.policy env.hash tier (env.digest k) (env.deployment k)
    payload (s.clock s.readings)).run [] s.store = r at he ⊢
  obtain ⟨x, store⟩ := r
  cases x with
  | returned outcome =>
      refine hs.memory ?_ rfl rfl rfl rfl
      by_cases hstored : outcome = .stored
      · have hmark : marked (tier, env.digest k) outcome s
            = Function.update s.origin (tier, env.digest k) s.txn.begun := if_pos hstored
        change Memory.Fenced env invs { s.toMemory with
          store := store, readings := s.readings + 1, origin := marked _ outcome s }
        rw [hmark]
        exact hs.fenced.stored he (by rw [hs.begun]; exact hlater) _
      · have hmark : marked (tier, env.digest k) outcome s = s.origin := if_neg hstored
        change Memory.Fenced env invs { s.toMemory with
          store := store, readings := s.readings + 1, origin := marked _ outcome s }
        rw [hmark]
        exact hs.fenced.effect he (fun h => hstored (by injection h with h; injection h)) _
  | raised e => exact hs.memory (hs.fenced.effect he (by simp) _) rfl rfl rfl rfl
  | killed => exact hs.memory (hs.fenced.effect he (by simp) _) rfl rfl rfl rfl

theorem always_safeDelete (tier : String) (k : κ) :
    Always (Kept env invs m t Good) (Cache.safeDelete env tier k) :=
  always_bind (always_peek _) fun _ => always_ite (fun _ => always_pure _) fun _ =>
    always_catchException (always_storeCall (c := fun _ => .delete tier (env.digest k))
      (fun _ store _ => delete_effect env.policy env.hash (s := store) tier (env.digest k))
      fun _ h => (by cases h)) (always_pure _)

theorem always_safeSnapshot : Always (Kept env invs m t Good) Cache.safeSnapshot :=
  always_bind (always_peek _) fun _ => always_ite (fun _ => always_pure _) fun _ =>
    always_catchException (always_map _ (always_storeCall (c := .snapshot)
      (fun reading _ h => snapshot_effect env.policy env.hash h reading)
      fun _ h => (by cases h))) (always_pure _)

theorem always_report : Always (Kept env invs m t Good) Transaction.report :=
  always_bind (always_bind (always_peek _) fun _ => always_ite (fun _ => always_pure _) fun _ =>
    always_safeSnapshot) fun _ => always_bind (always_bind (always_peek _) fun _ =>
      always_ite (fun _ => always_recordFault _) fun _ => always_pure _) fun _ => always_peek _

/-! ## What a transaction reads -/

/-- The store holds the entry, and the deployment may be read. -/
def Held (env : Env κ) (tier : String) (k : κ) (entry : StoreEntry) (s : State κ) : Prop :=
  ((tier, env.digest k), entry) ∈ s.store.entries.items ∧ s.isDisabled (env.deployment k) = false

/-- **What is read is in the store**, of a deployment that is not disabled. -/
theorem getEntry_held (tier : String) (k : κ) :
    Yields (Kept env invs m t Good) (Kept env invs m t Good) (Cache.getEntry env tier k)
      fun entry s => ∀ e ∈ entry, Held env tier k e s := by
  refine yields_bind (φ := fun disabled _ => disabled = m.isDisabled (env.deployment k))
    (yields_peek (fun _ hs => hs) fun _ hs => hs.isDisabled _) fun disabled =>
      yields_raiseWhen_bind (fun _ hs => hs.1) fun hopen => ?_
  have hget : Yields (Kept env invs m t Good) (Kept env invs m t Good)
      (storeCall unmarked (MemoryCache.getEntry tier (env.digest k)))
      fun entry s => ∀ e ∈ entry, ((tier, env.digest k), e) ∈ s.store.entries.items := by
    refine yields_storeCall (c := .getEntry tier (env.digest k))
      (φ := fun entry store => ∀ e ∈ entry, ((tier, env.digest k), e) ∈ store.entries.items)
      (fun reading store _ => getEntry_effect env.policy env.hash (s := store) tier (env.digest k)
        reading) (fun _ h => nomatch h) fun reading store entry store' he e hmem => ?_
    obtain rfl := Option.mem_def.mp hmem
    cases he with
    | hit hnow hentry hlive =>
        exact OrderedMap.mem_moveToEnd.mpr (OrderedMap.get?_eq_some.mp hentry)
  refine yields_assume fun hdisabled => Yields.weaken hget (fun _ hs => hs) fun entry s hs h e he => ?_
  exact ⟨h e he, by rw [hs.isDisabled, ← hdisabled, hopen]⟩

/-- Writing the transaction leaves the store and the flags. -/
theorem always_update_held {tier : String} {k : κ} {entry : StoreEntry}
    {f : Transaction κ → Transaction κ}
    (hf : ∀ t, (f t).begun = t.begun ∧ (f t).key = t.key ∧ (f t).generation = t.generation)
    (hpayloads : ∀ t, ∀ p ∈ (f t).payloads.items, p ∈ t.payloads.items ∨ Good p) :
    Always (fun s => Kept env invs m t Good s ∧ Held env tier k entry s) (Transaction.update f) :=
  always_assign fun _ hs => ⟨hs.1.update hf hpayloads, hs.2⟩

theorem judge_held (tier : String) (k : κ) (expected : Option (List UInt8)) (entry : StoreEntry)
    (hgood : ∀ payload origin, Fresh invs (env.deployment k) origin → Good (tier, ⟨payload, origin⟩)) :
    Triple (fun s => Kept env invs m t Good s ∧ Held env tier k entry s)
      (Transaction.judge env tier k expected (some entry)) fun _ s => Kept env invs m t Good s := by
  refine triple_ite (fun hvalid => ?_) fun _ => ?_
  · have hdeployment : entry.deploymentFingerprint = env.deployment k := by
      simp only [Transaction.isValid, Bool.and_eq_true, beq_iff_eq] at hvalid
      exact hvalid.1.1.2
    refine Triple.weaken (Q := fun _ s => Kept env invs m t Good s ∧ Held env tier k entry s)
      (always_bind (always_update_held (fun _ => ⟨rfl, rfl, rfl⟩) fun _ _ hp => .inl hp)
        fun _ => always_peek_bind (φ := Fresh invs (env.deployment k)) (fun s hs => ?_)
          fun origin hfresh => always_update_held (fun _ => ⟨rfl, rfl, rfl⟩) fun t p hp => ?_)
      (fun _ hs => hs) fun _ _ hs => hs.1
    · have hold := hs.1.fenced.fresh _ hs.2.1
      rw [hdeployment] at hold
      exact hold hs.2.2
    · rcases OrderedMap.mem_put.mp hp with ⟨hmem, _⟩ | rfl
      · exact .inl hmem
      · exact .inr (hgood _ _ hfresh)
  · exact Triple.weaken (always_bind (always_setState _ _) fun _ =>
      always_bind (always_update_quiet fun _ => ⟨rfl, rfl, rfl, rfl⟩) fun _ => always_safeDelete _ _)
      (fun _ hs => hs.1) fun _ _ h => h

/-- **What is read was staged after every invalidation.** -/
theorem always_read (tier : String) (k : κ) (expected : Option (List UInt8))
    (hgood : ∀ payload origin, Fresh invs (env.deployment k) origin → Good (tier, ⟨payload, origin⟩)) :
    Always (Kept env invs m t Good) (Transaction.read env tier k expected) := by
  have hentry : Yields (Kept env invs m t Good) (Kept env invs m t Good)
      (catchException (some <$> Cache.getEntry env tier k) (pure none))
      fun entry s => ∀ e, entry = some (some e) → Held env tier k e s :=
    yields_catchException (yields_map (Yields.weaken (getEntry_held tier k) (fun _ hs => hs)
      fun entry s _ h e he => h e (Option.some.inj he)))
      (yields_pure (fun _ hs => hs) fun _ _ _ h => nomatch h)
  refine triple_bind hentry (fun entry => ?_) (fun _ _ h => h.1) fun _ h => h.1
  cases entry with
  | none =>
      exact Triple.weaken (always_bind (always_setState _ _) fun _ => always_recordFault _)
        (fun _ hs => hs.1) fun _ _ h => h
  | some entry =>
      cases entry with
      | none => exact Triple.weaken (always_setState _ _) (fun _ hs => hs.1) fun _ _ h => h
      | some entry =>
          exact Triple.weaken (judge_held tier k expected entry hgood)
            (fun _ hs => ⟨hs.1, hs.2 _ rfl entry rfl⟩) fun _ _ h => h

/-! ## Programs -/

/-- The cache is as it was, behind the fence. -/
def Same (env : Env κ) (invs : List Invalidation) (m : Memory) (s : State κ) : Prop :=
  Kept env invs m s.txn (fun _ => True) s

theorem Kept.same {s : State κ} (h : Kept env invs m t Good s) : Same env invs m s :=
  ⟨h.fenced, h.generation, h.globally, h.deployments, rfl, rfl, rfl, fun _ _ => trivial⟩

/-- What a transaction with that key may have read. -/
def Readable (env : Env κ) (invs : List Invalidation) (key : Option κ) (p : String × ReadPayload) :
    Prop :=
  ∀ k ∈ key, Fresh invs (env.deployment k) p.2.origin

/-- The transaction at hand has just begun. -/
def Begun (env : Env κ) (invs : List Invalidation) (m : Memory) (begun : Nat) (s : State κ) : Prop :=
  Kept env invs m s.txn (Readable env invs s.txn.key) s ∧ s.txn.begun = begun
    ∧ s.txn.generation = m.generation

theorem keyless_begun (begun : Nat) (reason : String) (disabled : Bool) :
    Yields (Same env invs m) (Same env invs m) (Cache.keyless begun reason disabled)
      fun _ => Begun env invs m begun := by
  have hend : ∀ s, Same env invs m s → Begun env invs m begun { s with
      txn := Transaction.new begun none s.generation (some reason) disabled } := fun s hs =>
    ⟨⟨hs.fenced, hs.generation, hs.globally, hs.deployments, rfl, rfl, rfl,
      fun _ hp => (by cases hp)⟩, rfl, hs.generation⟩
  exact yields_assign (fun s hs => (hend s hs).1.same) hend

theorem construct_begun (begun : Nat) (k : κ) :
    Yields (Same env invs m) (Same env invs m) (Transaction.construct env begun k)
      fun _ => Begun env invs m begun := by
  have hrest : Always (Kept env invs m (Transaction.new begun (some k) m.generation none false)
      (Readable env invs (some k))) (do
        Transaction.read env "l0_metadata" k (some (env.canonicalBytes k))
        Transaction.read env "l1_preprocess" k none
        Transaction.update fun t =>
          if t.states.get? "l0_metadata" = some .hit then t
          else { t with pending := t.pending.put "l0_metadata" (env.canonicalBytes k) }) := by
    have hgood : ∀ tier payload origin, Fresh invs (env.deployment k) origin →
        Readable env invs (some k) (tier, ⟨payload, origin⟩) := by
      intro tier payload origin hfresh k' hk'
      obtain rfl := Option.some.inj hk'
      exact hfresh
    refine always_bind (always_read _ _ _ (hgood _)) fun _ =>
      always_bind (always_read _ _ _ (hgood _)) fun _ => always_update_quiet fun t => ?_
    split <;> exact ⟨rfl, rfl, rfl, rfl⟩
  refine triple_assign_bind (Triple.weaken hrest (fun _ hs => hs) fun x s hs => ?_) fun s hs => ?_
  · refine ⟨hs.same, fun _ _ => ⟨⟨hs.fenced, hs.generation, hs.globally, hs.deployments, rfl, rfl,
      rfl, ?_⟩, hs.begun, hs.txnGeneration⟩⟩
    rw [hs.key]
    exact hs.payloads
  · exact ⟨hs.fenced, hs.generation, hs.globally, hs.deployments, rfl, rfl, hs.generation,
      fun _ hp => (by cases hp)⟩

/-- **A transaction begins with what was staged after every invalidation.** -/
theorem beginKeyed_begun (begun : Nat) (deployment : String) (key : Except Raised κ) :
    Yields (Same env invs m) (Same env invs m) (Cache.beginKeyed env begun deployment key)
      fun _ => Begun env invs m begun := by
  refine yields_catchException ?_ (keyless_begun begun _ _)
  cases key with
  | error e => exact yields_raise fun _ hs => hs
  | ok k =>
      refine Always.yields_bind (always_peek _) (fun _ hs => hs) fun disabled => ?_
      exact yields_ite (fun _ => keyless_begun begun _ _) fun _ => construct_begun begun k

theorem beginCheck_begun (begun : Nat) (deployment : String) :
    Yields (Same env invs m) (Same env invs m) (Cache.beginCheck begun deployment)
      fun done s => done = true → Begun env invs m begun s := by
  refine Always.yields_bind (always_peek _) (fun _ hs => hs) fun disabled =>
    yields_ite (fun _ => ?_) fun _ => yields_pure (fun _ hs => hs) fun _ _ h => (by cases h)
  exact yields_bind (keyless_begun begun _ _) fun _ =>
    yields_pure (fun _ hs => hs.1) fun _ hs _ => hs.2

section Calls

variable [DecidableEq κ]

/-- `commit` of the transaction: with a key it began after every invalidation. -/
theorem always_transaction_commit (hlater : t.key ≠ none → ∀ inv ∈ invs, inv.stamp < t.begun)
    (current : Option κ) : Always (Kept env invs m t Good) (Transaction.commit env current) := by
  refine always_peek_bind (φ := fun txn => txn.key = t.key) (fun _ hs => hs.key) fun txn hkey =>
    always_ite (fun _ => always_report) fun _ => ?_
  split
  · exact always_bind (always_update_quiet fun _ => ⟨rfl, rfl, rfl, rfl⟩) fun _ => always_report
  · rename_i k hk
    have hwrite : ∀ staged, Always (Kept env invs m t Good) (Transaction.write env k staged) := by
      intro staged
      refine always_bind (always_safePut (hlater (by rw [← hkey, hk]; simp)) _ _ _) fun outcome => ?_
      cases outcome with
      | stored => exact always_update_quiet fun _ => ⟨rfl, rfl, rfl, rfl⟩
      | fault | rejected => exact always_recordFault _
      | present => exact always_pure _
    refine always_ite (fun _ => ?_) fun _ => always_bind always_abort fun _ => always_raise _
    exact always_bind (always_forEach hwrite _) fun _ => always_bind always_abort fun _ =>
      always_report

/-- **A commit stores only under the generation its transaction began with.** -/
theorem always_commit (hlater : t.generation = m.generation → t.key ≠ none →
    ∀ inv ∈ invs, inv.stamp < t.begun) (current : Except Raised κ) :
    Always (Kept env invs m t Good) (Cache.commit env current) := by
  refine always_peek_bind (φ := fun txn => txn.key = t.key ∧ txn.generation = t.generation)
    (fun _ hs => ⟨hs.key, hs.txnGeneration⟩) fun txn htxn => ?_
  split
  · rename_i hnone
    exact always_transaction_commit (fun hkey => absurd (htxn.1.symm.trans hnone) hkey) none
  · refine always_bind (always_catchException ?_ (always_bind always_abort fun _ =>
      always_raise _)) fun current => ?_
    · cases current with
      | error e => exact always_raise e
      | ok k => exact always_pure k
    · refine always_peek_bind (φ := fun generation => generation = m.generation)
        (fun _ hs => hs.generation) fun generation hgeneration => always_ite (fun _ => ?_) fun hsame => ?_
      · exact always_bind (always_update_quiet fun _ => ⟨rfl, rfl, rfl, rfl⟩) fun _ => always_report
      · rw [bne_iff_ne, not_not, htxn.2, hgeneration] at hsame
        exact always_transaction_commit (hlater hsame) _

theorem always_transactionCall (hlater : t.generation = m.generation → t.key ≠ none →
    ∀ inv ∈ invs, inv.stamp < t.begun) (c : TransactionCall κ) :
    Always (Kept env invs m t Good) (c.run env) := by
  cases c with
  | rejectCachedPreprocess =>
      refine always_bind (always_peek _) fun txn => ?_
      split
      · exact always_pure _
      · refine always_bind (always_setState _ _) fun _ => always_bind
          (always_update (fun _ => ⟨rfl, rfl, rfl⟩) fun _ _ hp => .inl (OrderedMap.mem_erase.mp hp).1)
          fun _ => always_safeDelete _ _
  | stagePreprocess payload =>
      exact always_bind (always_peek _) fun _ => always_ite (fun _ => always_pure _) fun _ =>
        always_ite (fun _ => always_recordFault _) fun _ =>
          always_update_quiet fun _ => ⟨rfl, rfl, rfl, rfl⟩
  | recordFault reason => exact always_recordFault reason
  | abort => exact always_abort
  | report => exact always_map _ always_report
  | commit current => exact always_map _ (always_commit hlater current)

end Calls

/-! ## Invalidations -/

theorem always_same {α : Type} {p : CacheProg κ α}
    (h : ∀ t, Always (Kept env invs m t fun _ => True) p) : Always (Same env invs m) p :=
  fun faults s hs => (h s.txn faults s hs).same

theorem Memory.Fenced.append {m : Memory} (h : m.Fenced env invs) {inv : Invalidation}
    (hgone : ∀ item ∈ m.store.entries.items, m.isDisabled item.2.deploymentFingerprint = false →
      ¬ inv.covers item.2.deploymentFingerprint) : m.Fenced env (invs ++ [inv]) := by
  refine ⟨h.bounded, fun item hitem hopen other hother hcovers => ?_⟩
  rcases List.mem_append.mp hother with hold | hnew
  · exact h.fresh item hitem hopen other hold hcovers
  · obtain rfl := List.mem_singleton.mp hnew
    exact absurd hcovers (hgone item hitem hopen)

/-- More flags let nothing through. -/
theorem Memory.Fenced.disable {m m' : Memory} (h : m.Fenced env invs) (hstore : m'.store = m.store)
    (horigin : m'.origin = m.origin)
    (hflags : ∀ deployment, m.isDisabled deployment = true → m'.isDisabled deployment = true) :
    m'.Fenced env invs := by
  refine ⟨hstore ▸ h.bounded, fun item hitem hopen => ?_⟩
  rw [horigin]
  refine h.fresh item (hstore ▸ hitem) (Bool.eq_false_iff.mpr fun hclosed => ?_)
  rw [hflags _ hclosed] at hopen
  cases hopen

/-- `self._generation += 1`, written. -/
def Memory.next (m : Memory) : Memory := { m with generation := m.generation + 1 }

theorem nextGeneration_same : ∀ s, Same env invs m s →
    Same env invs m.next { s with generation := s.generation + 1 } := fun _ hs =>
  ⟨⟨hs.fenced.bounded, hs.fenced.fresh⟩, congrArg (· + 1) hs.generation, hs.globally,
    hs.deployments, rfl, rfl, rfl, fun _ _ => trivial⟩

/-- The generation never goes back. -/
def Passed (env : Env κ) (invs : List Invalidation) (m : Memory) (s : State κ) : Prop :=
  s.toMemory.Fenced env invs ∧ m.generation ≤ s.generation

theorem Same.passed {s : State κ} (h : Same env invs m s) : Passed env invs m s :=
  ⟨h.fenced, h.generation.ge⟩

theorem Same.passed_of_next {s : State κ} (h : Same env invs m.next s) : Passed env invs m s :=
  ⟨h.fenced, by rw [h.generation]; exact Nat.le_succ _⟩

/-- **An invalidation is by deletion or by a flag.** Under a flag that was up already nothing of any
deployment can be read. -/
theorem invalidate_rest {inv : Invalidation} {p : CacheProg κ Nat} {flag : State κ → State κ}
    (hp : Yields (Same env invs m.next) (Same env invs m.next) p fun _ s =>
      ∀ item ∈ s.store.entries.items, ¬ inv.covers item.2.deploymentFingerprint)
    (hstore : ∀ s, (flag s).store = s.store ∧ (flag s).origin = s.origin ∧
      (flag s).generation = s.generation)
    (hmono : ∀ s deployment, s.isDisabled deployment = true → (flag s).isDisabled deployment = true)
    (hflag : ∀ s deployment, inv.covers deployment → (flag s).isDisabled deployment = true) :
    Yields (Same env invs m) (Passed env invs m) (do
      Cache.nextGeneration
      let disabled ← peek fun s => s.globallyDisabled
      if disabled then pure 0
      else catchException p (do
        assign flag
        pure 0))
      fun _ s => s.toMemory.Fenced env (invs ++ [inv]) ∧ m.generation < s.generation := by
  have hnext : ∀ s, Same env invs m.next s → m.generation < s.generation := fun s hs => by
    rw [hs.generation]
    exact Nat.lt_succ_self _
  refine triple_assign_bind ?_ nextGeneration_same
  refine triple_bind (R := fun x s => Same env invs m.next s ∧
    ∀ disabled, x = .returned disabled → disabled = s.globallyDisabled)
    (triple_peek fun s hs => ⟨hs, fun _ h => (Exit.returned.inj h).symm⟩) (fun disabled => ?_)
    (fun _ _ hs => ⟨hs.1.passed_of_next, fun _ h => (by cases h)⟩)
    fun _ hs => ⟨hs.1.passed_of_next, fun _ h => (by cases h)⟩
  refine triple_ite (fun hdisabled => triple_pure fun s hs => ?_) fun _ => ?_
  · refine ⟨hs.1.passed_of_next, fun _ _ => ⟨hs.1.fenced.append fun item hitem hopen => ?_,
      hnext s hs.1⟩⟩
    have hup : s.globallyDisabled = true := (hs.2 _ rfl).symm.trans hdisabled
    rw [Memory.isDisabled, hup] at hopen
    cases hopen
  -- a removal that returns leaves no entry of the deployments in question
  · have hbody : Yields (Same env invs m.next) (Same env invs m.next) p fun _ s =>
        s.toMemory.Fenced env (invs ++ [inv]) ∧ m.generation < s.generation :=
      Yields.weaken hp (fun _ hs => hs) fun _ s hs hgone =>
        ⟨hs.fenced.append fun item hitem _ => hgone item hitem, hnext s hs⟩
    refine triple_tryCatch (Triple.weaken hbody (fun _ hs => hs.1) fun _ _ hs => hs) (fun e => ?_)
      (fun _ _ hs => ⟨hs.1.passed_of_next, hs.2⟩) fun _ hs => ⟨hs.1.passed_of_next, hs.2⟩
    -- what is disabled is not served, so the entries that stayed do no harm
    have hhandler : Triple (Same env invs m.next) (do
        assign flag
        pure 0 : CacheProg κ Nat) fun x s => Passed env invs m s ∧
          ∀ a, x = .returned a → s.toMemory.Fenced env (invs ++ [inv]) ∧ m.generation < s.generation := by
      refine triple_assign_bind (R := fun s => s.toMemory.Fenced env invs ∧
        s.toMemory.Fenced env (invs ++ [inv]) ∧ m.generation < s.generation)
        (triple_pure fun s hs => ⟨⟨hs.1, hs.2.2.le⟩, fun _ _ => hs.2⟩) fun s hs => ?_
      obtain ⟨hkeep, horigin, hgeneration⟩ := hstore s
      have hfenced := hs.fenced.disable hkeep horigin (hmono s)
      refine ⟨hfenced, hfenced.append fun item _ hopen hcovers => ?_, ?_⟩
      · rw [hflag s _ hcovers] at hopen
        cases hopen
      · rw [hgeneration]
        exact hnext s hs
    cases e with
    -- `except Exception` lets an interrupt through, and then nothing is promised
    | interrupt =>
        exact triple_raise fun _ hs => ⟨hs.1.passed_of_next, fun _ h => (by cases h)⟩
    | cache | drift | exception => exact Triple.weaken hhandler (fun _ hs => hs.1) fun _ _ h => h

/-- A call after which the store has nothing of what the invalidation covers. -/
theorem storeCall_uncovered {inv : Invalidation} {method : Option ℚ → StoreProg Nat}
    {c : Option ℚ → StoreCall}
    (heffect : ∀ reading store, store.Balanced →
      Comes (method reading) store (Effects env.policy env.hash store (c reading) .count))
    (hgone : ∀ reading store n store',
      MemoryCache.Effect env.policy env.hash store (c reading) (.returned (.count n)) store' →
      ∀ item ∈ store'.entries.items, ¬ inv.covers item.2.deploymentFingerprint) :
    Yields (Same env invs m) (Same env invs m) (storeCall unmarked method) fun _ s =>
      ∀ item ∈ s.store.entries.items, ¬ inv.covers item.2.deploymentFingerprint := by
  intro faults s hs
  have hcall := yields_storeCall (t := s.txn) (φ := fun _ store =>
    ∀ item ∈ store.entries.items, ¬ inv.covers item.2.deploymentFingerprint) heffect
    (fun _ h => nomatch h) hgone faults s hs
  exact ⟨hcall.1.same, hcall.2⟩

/-- **An invalidation leaves nothing to be read of what it covers.** -/
theorem invalidate_fenced (deployment : Option String) (stamp : Nat) :
    Yields (Same env invs m) (Passed env invs m) (Cache.invalidate deployment) fun _ s =>
      s.toMemory.Fenced env (invs ++ [⟨deployment, stamp⟩]) ∧ m.generation < s.generation := by
  cases deployment with
  | none =>
      refine invalidate_rest (storeCall_uncovered (c := fun _ => .invalidateAll)
        (fun _ store _ => invalidateAll_effect env.policy env.hash (s := store))
        fun _ _ n store' he item hitem => ?_) (fun _ => ⟨rfl, rfl, rfl⟩) (fun _ _ _ => rfl)
        fun _ _ _ => rfl
      cases he with
      | cleared => cases hitem
  | some deployment =>
      refine Always.yields_bind (P := Same env invs m) ?_ (fun _ hs => hs.passed) fun _ =>
        invalidate_rest (storeCall_uncovered (c := fun _ => .invalidateDeployment deployment)
          (fun _ store _ => invalidateDeployment_effect env.policy env.hash (s := store) deployment)
          fun _ store n store' he item hitem hcovers => ?_)
          (fun _ => ⟨rfl, rfl, rfl⟩) (fun s d h => ?_) fun s d hcovers => ?_
      · cases hcheck : MemoryCache.checkSha256 deployment "deployment_fingerprint" with
        | ok u => exact always_pure ()
        | error e => exact always_raise _
      · cases he with
        | invalidated =>
            rw [removeAll_identities] at hitem
            rcases hcovers with hnone | hsome
            · cases hnone
            · rw [Option.some.inj hsome] at hitem
              simpa using (List.mem_filter.mp hitem).2
      · simp only [Memory.isDisabled, Bool.or_eq_true, List.contains_cons] at h ⊢
        exact h.imp id .inr
      · rcases hcovers with hnone | hsome
        · cases hnone
        · rw [Option.some.inj hsome]
          simp [Memory.isDisabled]

theorem close_passed :
    Triple (Same env invs m) (Cache.close : CacheProg κ Unit) fun _ s => Passed env invs m s := by
  have hclose : ∀ store : MemoryStore, Comes MemoryCache.close store
      (Effects env.policy env.hash store .close fun _ => .nothing) := fun _ => ⟨_, _, rfl, .closed⟩
  refine triple_assign_bind (triple_assign_bind (R := fun s => Same env invs { m.next with
    globallyDisabled := true } s) (Triple.weaken (always_same fun t => always_catchException
      (always_storeCall (c := fun _ => .close) (fun _ store _ => hclose store)
        fun _ h => nomatch h) (always_pure _))
      (fun _ hs => hs) fun _ s hs => ?_) fun s hs => ?_) nextGeneration_same
  · exact ⟨hs.fenced, by rw [hs.generation]; exact Nat.le_succ _⟩
  · exact ⟨hs.fenced.disable rfl rfl fun _ _ => rfl, hs.generation, rfl, hs.deployments, rfl, rfl, rfl,
      fun _ _ => trivial⟩

/-! ## Worlds -/

variable (env) in
/-- What holds in every reachable world. -/
structure World.Sound (w : World κ) : Prop where
  fenced : w.memory.Fenced env w.invalidations
  stamps : ∀ inv ∈ w.invalidations, inv.stamp < w.now
  begun : ∀ t ∈ w.transactions, t.begun < w.now
  generation : ∀ t ∈ w.transactions, t.generation ≤ w.memory.generation
  /-- Who may still commit began after every invalidation. -/
  later : ∀ t ∈ w.transactions, t.generation = w.memory.generation → t.key ≠ none →
    ∀ inv ∈ w.invalidations, inv.stamp < t.begun
  reads : ∀ t ∈ w.transactions, ∀ k ∈ t.key, ∀ inv ∈ w.invalidations,
    inv.covers (env.deployment k) → inv.stamp < t.begun → ∀ p ∈ t.payloads.items, inv.stamp < p.2.origin

namespace World

variable {w : World κ}

theorem Sound.same (h : w.Sound env) (t : Transaction κ) :
    Same env w.invalidations w.memory (w.state t) :=
  ⟨h.fenced, rfl, rfl, rfl, rfl, rfl, rfl, fun _ _ => trivial⟩

/-- The cache moves on, whoever began stays as he is. -/
theorem Sound.memory (h : w.Sound env) {m : Memory} (hfenced : m.Fenced env w.invalidations)
    (hgeneration : w.memory.generation ≤ m.generation) : Sound env { w with memory := m } where
  fenced := hfenced
  stamps := h.stamps
  begun := h.begun
  generation := fun t ht => (h.generation t ht).trans hgeneration
  later := fun t ht hsame =>
    h.later t ht (le_antisymm (h.generation t ht) (hgeneration.trans hsame.ge))
  reads := h.reads

/-- A transaction that has begun joins. -/
theorem Sound.begins (h : w.Sound env) {s : State κ}
    (hbegun : Begun env w.invalidations w.memory w.now s) :
    Sound env { w with
      memory := s.toMemory
      transactions := w.transactions ++ [s.txn]
      now := w.now + 1 } := by
  obtain ⟨hkept, hnow, hgeneration⟩ := hbegun
  have hmoved := h.memory hkept.fenced hkept.generation.ge
  refine ⟨hkept.fenced, fun inv hinv => (h.stamps inv hinv).trans (Nat.lt_succ_self _),
    fun t ht => ?_, fun t ht => ?_, fun t ht => ?_, fun t ht => ?_⟩
  all_goals rcases List.mem_append.mp ht with hold | hnew
  · exact (h.begun t hold).trans (Nat.lt_succ_self _)
  · obtain rfl := List.mem_singleton.mp hnew
    exact hnow ▸ Nat.lt_succ_self _
  · exact hmoved.generation t hold
  · obtain rfl := List.mem_singleton.mp hnew
    exact (hgeneration.trans hkept.generation.symm).le
  · exact hmoved.later t hold
  · obtain rfl := List.mem_singleton.mp hnew
    exact fun _ _ inv hinv => hnow ▸ h.stamps inv hinv
  · exact h.reads t hold
  · obtain rfl := List.mem_singleton.mp hnew
    exact fun k hk inv hinv hcovers _ p hp => hkept.payloads p hp k hk inv hinv hcovers

/-- A method leaves its transaction as it began, with no more read. -/
theorem Sound.called (h : w.Sound env) {j : Nat} {t : Transaction κ} (ht : w.transactions[j]? = some t)
    {s : State κ} (hkept : Kept env w.invalidations w.memory t (· ∈ t.payloads.items) s) :
    Sound env (w.called j s) := by
  have hmem := List.mem_of_getElem? ht
  have hmoved := h.memory hkept.fenced hkept.generation.ge
  refine ⟨hkept.fenced, h.stamps, fun t' ht' => ?_, fun t' ht' => ?_, fun t' ht' => ?_,
    fun t' ht' => ?_⟩
  all_goals rcases List.mem_or_eq_of_mem_set ht' with hold | rfl
  · exact h.begun t' hold
  · exact hkept.begun ▸ h.begun t hmem
  · exact hmoved.generation t' hold
  · exact hkept.txnGeneration ▸ hmoved.generation t hmem
  · exact hmoved.later t' hold
  · rw [hkept.begun, hkept.key, hkept.txnGeneration]
    exact hmoved.later t hmem
  · exact h.reads t' hold
  · rw [hkept.begun, hkept.key]
    exact fun k hk inv hinv hcovers hlt p hp =>
      h.reads t hmem k hk inv hinv hcovers hlt p (hkept.payloads p hp)

/-- **One step keeps the fence**, whichever thread takes it. -/
theorem sound_step [DecidableEq κ] {w' : World κ} (h : w.Sound env) (hstep : Step env w w') :
    w'.Sound env := by
  cases hstep with
  | check deployment faults x s hrun =>
      obtain ⟨hsame, hdone⟩ := Triple.run (beginCheck_begun w.now deployment) (h.same _) hrun
      have hmoved := h.memory hsame.fenced hsame.generation.ge
      cases x with
      | raised | killed => exact hmoved
      | returned done =>
          cases done with
          | true => exact h.begins (hdone true rfl rfl)
          | false => exact ⟨hmoved.fenced, hmoved.stamps, hmoved.begun, hmoved.generation,
              hmoved.later, hmoved.reads⟩
  | begin n deployment hn key hkey faults x s hrun =>
      obtain ⟨hsame, hbegun⟩ := Triple.run (beginKeyed_begun w.now deployment key) (h.same _) hrun
      have hmoved := h.memory hsame.fenced hsame.generation.ge
      cases x with
      | raised | killed => exact ⟨hmoved.fenced, hmoved.stamps, hmoved.begun, hmoved.generation,
          hmoved.later, hmoved.reads⟩
      | returned u =>
          have hjoined := h.begins (hbegun u rfl)
          exact ⟨hjoined.fenced, hjoined.stamps, hjoined.begun, hjoined.generation, hjoined.later,
            hjoined.reads⟩
  | transaction j t ht c faults x s hrun =>
      have hkept : Kept env w.invalidations w.memory t (· ∈ t.payloads.items) (w.state t) :=
        ⟨h.fenced, rfl, rfl, rfl, rfl, rfl, rfl, fun _ hp => hp⟩
      exact h.called ht (Triple.run (always_transactionCall
        (h.later t (List.mem_of_getElem? ht)) c) hkept hrun)
  | invalidate deployment faults x s hrun =>
      obtain ⟨hpassed, hdone⟩ := Triple.run (invalidate_fenced deployment w.now) (h.same _) hrun
      cases x with
      | raised | killed => exact h.memory hpassed.1 hpassed.2
      | returned n =>
          obtain ⟨hfenced, hlt⟩ := hdone n rfl
          refine ⟨hfenced, fun inv hinv => ?_, fun t ht => (h.begun t ht).trans (Nat.lt_succ_self _),
            fun t ht => (h.generation t ht).trans hlt.le, fun t ht hsame => ?_,
            fun t ht k hk inv hinv hcovers hlater => ?_⟩
          · rcases List.mem_append.mp hinv with hold | hnew
            · exact (h.stamps inv hold).trans (Nat.lt_succ_self _)
            · obtain rfl := List.mem_singleton.mp hnew
              exact Nat.lt_succ_self _
          -- no transaction is of the new generation, so none may still publish
          · exact absurd hsame (((h.generation t ht).trans_lt hlt).ne)
          · rcases List.mem_append.mp hinv with hold | hnew
            · exact h.reads t ht k hk inv hold hcovers hlater
            · obtain rfl := List.mem_singleton.mp hnew
              -- every open transaction began before this invalidation
              exact absurd hlater (h.begun t ht).not_gt
  | close faults x s hrun =>
      obtain ⟨hfenced, hgeneration⟩ := Triple.run close_passed (h.same _) hrun
      exact h.memory hfenced hgeneration

theorem sound_init (h : w.Initial) : w.Sound env := by
  refine ⟨⟨h.store ▸ bounded_new, fun item hitem => ?_⟩, fun inv hinv => ?_, fun t ht => ?_,
    fun t ht => ?_, fun t ht => ?_, fun t ht => ?_⟩
  · rw [h.store] at hitem
    cases hitem
  · rw [h.invalidations] at hinv
    cases hinv
  all_goals
    rw [h.transactions] at ht
    cases ht

theorem sound_reachable [DecidableEq κ] (h : (cacheSystem env).Reachable w) : w.Sound env :=
  h.invariant (I := Sound env) (fun _ hinit => sound_init hinit)
    fun _ _ _ hsound hstep => sound_step hsound hstep

end World

/-- **The L0/L1 generation fence.** However threads begin, commit and invalidate and whatever calls
of the store raise, a transaction begun after an invalidation has read of a deployment it covers only
payloads that transactions begun after that invalidation staged. -/
theorem generation_fence [DecidableEq κ] {w : World κ} (h : (cacheSystem env).Reachable w) :
    ∀ inv ∈ w.invalidations, ∀ t ∈ w.transactions, inv.stamp < t.begun →
      ∀ k ∈ t.key, inv.covers (env.deployment k) → ∀ p ∈ t.payloads.items, inv.stamp < p.2.origin :=
  fun inv hinv t ht hbegun k hk hcovers p hp =>
    (World.sound_reachable h).reads t ht k hk inv hinv hcovers hbegun p hp

/-! ### One invalidation -/

/-- Keys are deployments, and there is one digest. -/
def plainEnv : Env String := ⟨hugePolicy, oneByteHash, id, fun _ => [1]⟩

def emptyCache : World String :=
  ⟨⟨.new, fun _ => 0, fun _ => some 0, 0, 0, false, []⟩, [], [], 0, []⟩

/-- One step of a thread where nothing goes wrong. -/
inductive PlainStep where
  | checks
  | begins
  | calls (j : Nat) (c : TransactionCall String)
  | invalidates

namespace World

variable (w : World String)

def transactionAt (j : Nat) : Transaction String := w.transactions.getD j noTransaction

def checkRun : Exit Raised Bool × State String :=
  (Cache.beginCheck w.now oneByteKey).run [] (w.state noTransaction)

def beginRun : Exit Raised Unit × State String :=
  (Cache.beginKeyed plainEnv w.now oneByteKey (.ok oneByteKey)).run [] (w.state noTransaction)

def callRun (j : Nat) (c : TransactionCall String) : Exit Raised Unit × State String :=
  (c.run plainEnv).run [] (w.state (w.transactionAt j))

def invalidateRun : Exit Raised Nat × State String :=
  (Cache.invalidate (some oneByteKey)).run [] (w.state noTransaction)

def plain : PlainStep → World String
  | .checks => w.checked oneByteKey w.checkRun.1 w.checkRun.2
  | .begins => w.began 0 w.beginRun.1 w.beginRun.2
  | .calls j c => w.called j (w.callRun j c).2
  | .invalidates => w.invalidated (some oneByteKey) w.invalidateRun.1 w.invalidateRun.2

/-- The step may be taken. -/
def plainOk : PlainStep → Bool
  | .checks | .invalidates => true
  | .begins => w.underway[0]? == some oneByteKey
  | .calls j _ => (w.transactions[j]?).isSome

variable {w}

theorem transactionAt_get {j : Nat} (h : (w.transactions[j]?).isSome) :
    w.transactions[j]? = some (w.transactionAt j) := by
  obtain ⟨t, ht⟩ := Option.isSome_iff_exists.mp h
  rw [transactionAt, List.getD_eq_getElem?_getD, ht]
  rfl

theorem plain_step {p : PlainStep} (h : w.plainOk p = true) : Step plainEnv w (w.plain p) := by
  cases p with
  | checks => exact .check oneByteKey [] _ _ rfl
  | begins =>
      exact .begin 0 oneByteKey (eq_of_beq h) (.ok oneByteKey) (fun k hk => (Except.ok.inj hk).symm)
        [] _ _ rfl
  | calls j c => exact .transaction j _ (transactionAt_get h) c [] _ _ rfl
  | invalidates => exact .invalidate (some oneByteKey) [] _ _ rfl

def plays : List PlainStep → World String → World String
  | [], w => w
  | p :: ps, w => plays ps (w.plain p)

def playsOk : List PlainStep → World String → Bool
  | [], _ => true
  | p :: ps, w => w.plainOk p && playsOk ps (w.plain p)

theorem plays_reachable (ps : List PlainStep) (h : (cacheSystem plainEnv).Reachable w)
    (hok : playsOk ps w = true) : (cacheSystem plainEnv).Reachable (plays ps w) := by
  induction ps generalizing w with
  | nil => exact h
  | cons p ps ih =>
      simp only [playsOk, Bool.and_eq_true] at hok
      exact ih (h.step (plain_step hok.1)) hok.2

end World

/-- A payload is stored, invalidated and stored anew; a third transaction reads. -/
def storedTwice : List PlainStep :=
  [.checks, .begins, .calls 0 (.stagePreprocess [1]), .calls 0 (.commit (.ok oneByteKey)),
    .invalidates, .checks, .begins, .calls 1 (.stagePreprocess [2]),
    .calls 1 (.commit (.ok oneByteKey)), .checks, .begins]

theorem storedTwice_reachable : (cacheSystem plainEnv).Reachable (World.plays storedTwice emptyCache) :=
  World.plays_reachable storedTwice (.of_init ⟨rfl, rfl, ⟨rfl, rfl⟩, rfl, rfl, rfl⟩) (by decide +kernel)

/-- The third transaction reads the second payload, which the second transaction staged. -/
theorem generation_fence_reread :
    ∃ t ∈ (World.plays storedTwice emptyCache).transactions,
      t.payloads.get? "l1_preprocess" = some ⟨[2], 2⟩ ∧ ∀ p ∈ t.payloads.items, 1 < p.2.origin := by
  have hget : (World.plays storedTwice emptyCache).transactions[2]?.isSome := by decide +kernel
  have hkey : ((World.plays storedTwice emptyCache).transactionAt 2).key = some oneByteKey := by
    decide +kernel
  have hbegun : ((World.plays storedTwice emptyCache).transactionAt 2).begun = 3 := by decide +kernel
  have hpayload : ((World.plays storedTwice emptyCache).transactionAt 2).payloads.get? "l1_preprocess"
      = some ⟨[2], 2⟩ := by decide +kernel
  have hinv : (World.plays storedTwice emptyCache).invalidations = [⟨some oneByteKey, 1⟩] := by
    decide +kernel
  have hmem := List.mem_of_getElem? (World.transactionAt_get hget)
  exact ⟨_, hmem, hpayload, generation_fence storedTwice_reachable ⟨some oneByteKey, 1⟩
    (hinv ▸ List.mem_singleton_self _) _ hmem (by rw [hbegun]; decide) oneByteKey hkey (.inr rfl)⟩

end L0L1Cache

end NanoAural
