import Mathlib.Data.Finset.Card
import NanoAural.Durable.Materialization

/-!
# Materialized inputs are the verified inputs

The workspace is described by the inputs made so far: a file for each, with the bytes
its blob row records, and no other file. Making one more keeps that, whatever else
happens the list of exposed inputs stays empty until the lease has been confirmed over
all of them, and the handler removes the workspace on every other way out.
-/

namespace NanoAural

namespace Materialization

open Faulty Faulty.Prog Relational StreamCopy

variable {Duration : Type} {env : Env Duration}

/-! ## The workspace -/

/-- The files are those of the inputs, one for each. -/
structure Describes (env : Env Duration) (files : String → Option (List UInt8))
    (inputs : List (MaterializedInput Duration)) : Prop where
  each : ∀ m ∈ inputs, ∃ content, files m.path = some content ∧ content.length = m.sizeBytes ∧
    env.sha256 content = m.sha256
  only : ∀ name, files name ≠ none → ∃ m ∈ inputs, m.path = name
  paths : (inputs.map MaterializedInput.path).Nodup

/-- Nothing is exposed, and there is a workspace to remove. -/
def Hidden (w : World Duration) : Prop := w.materialized = [] ∧ w.entered = true

def Holding (env : Env Duration) (inputs : List (MaterializedInput Duration)) (w : World Duration) :
    Prop :=
  Hidden w ∧ ∃ files, w.workspace = some files ∧ Describes env files inputs

/-- One more file is being written. -/
def Writing (env : Env Duration) (inputs : List (MaterializedInput Duration)) (name : String)
    (content : List UInt8) (w : World Duration) : Prop :=
  Hidden w ∧ ∃ files, w.workspace = some (Function.update files name (some content)) ∧
    files name = none ∧ Describes env files inputs

/-- The input is made of the evidence. -/
structure Matches (item : VerifiedInputEvidence) (m : MaterializedInput Duration) : Prop where
  role : m.role = item.role
  asset : m.assetId = item.asset.assetId
  blob : m.blobId = item.blob.blobId
  sha256 : m.sha256 = item.blob.sha256
  size : m.sizeBytes = item.blob.sizeBytes

theorem Describes.append {files : String → Option (List UInt8)}
    {inputs : List (MaterializedInput Duration)} {m : MaterializedInput Duration}
    {content : List UInt8} (h : Describes env files inputs) (hnone : files m.path = none)
    (hsize : content.length = m.sizeBytes) (hdigest : env.sha256 content = m.sha256) :
    Describes env (Function.update files m.path (some content)) (inputs ++ [m]) := by
  have hfresh : ∀ m' ∈ inputs, m'.path ≠ m.path := by
    intro m' hm' hpath
    obtain ⟨content', hfile, _⟩ := h.each m' hm'
    rw [hpath, hnone] at hfile
    cases hfile
  refine ⟨fun m' hm' => ?_, fun name hname => ?_, ?_⟩
  · rcases List.mem_append.mp hm' with hold | hnew
    · rw [Function.update_of_ne (hfresh m' hold)]
      exact h.each m' hold
    · cases List.mem_singleton.mp hnew
      exact ⟨content, Function.update_self .., hsize, hdigest⟩
  · by_cases heq : name = m.path
    · exact ⟨m, List.mem_append_right _ List.mem_cons_self, heq.symm⟩
    · rw [Function.update_of_ne heq] at hname
      obtain ⟨m', hm', hpath⟩ := h.only name hname
      exact ⟨m', List.mem_append_left _ hm', hpath⟩
  · rw [List.map_append, List.nodup_append]
    refine ⟨h.paths, List.nodup_singleton _, fun a ha b hb => ?_⟩
    obtain ⟨m', hm', rfl⟩ := List.mem_map.mp ha
    rw [List.mem_singleton.mp hb]
    exact hfresh m' hm'

/-! ## One input -/

theorem yields_pass {P I : World Duration → Prop} (hI : ∀ w, P w → I w) :
    Yields P I (pass : Prog (World Duration) Raised Unit) fun _ => P :=
  yields_look hI fun _ h => h

theorem yields_translate {α : Type} {P : World Duration → Prop} {I : World Duration → Prop}
    {p : Prog (World Duration) Raised α} {φ : α → World Duration → Prop} {e : Raised}
    (h : Yields P I p φ) : Yields P I (translate e p) φ :=
  yields_tryCatch h fun _ => yields_ite (fun _ => yields_raise fun _ h => h)
    fun _ => yields_raise fun _ h => h

/-- Events matter to no file. -/
theorem yields_note {P : World Duration → Prop} {event : InputEvent}
    (hP : ∀ w events, P w → P { w with events := events }) (hI : ∀ w, P w → Hidden w) :
    Yields P Hidden (note event) fun _ => P := by
  refine yields_atomic hI (fun w u w' hw heq => ?_) fun w e w' _ heq => ?_
  · obtain ⟨_, rfl⟩ := Prod.mk.inj heq
    exact ⟨hI _ (hP w _ hw), hP w _ hw⟩
  · cases heq

theorem yields_createFile (inputs : List (MaterializedInput Duration)) (name : String) :
    Yields (Holding env inputs) Hidden (createFile name) fun _ => Writing env inputs name [] := by
  refine yields_atomic (fun _ h => h.1) (fun w u w' hw heq => ?_) fun w e w' hw heq => ?_
  · obtain ⟨hhidden, files, hfiles, hdescribes⟩ := hw
    rw [hfiles] at heq
    dsimp only at heq
    split at heq
    · cases heq
    · rename_i hnone
      obtain ⟨_, rfl⟩ := Prod.mk.inj heq
      exact ⟨hhidden, hhidden, files, rfl, Option.not_isSome_iff_eq_none.mp hnone, hdescribes⟩
  · obtain ⟨hhidden, files, hfiles, _⟩ := hw
    rw [hfiles] at heq
    dsimp only at heq
    split at heq
    · exact (Prod.mk.inj heq).2 ▸ hhidden
    · cases heq

theorem yields_appendFile (inputs : List (MaterializedInput Duration)) (name : String)
    (content chunk : List UInt8) :
    Yields (Writing env inputs name content) Hidden (appendFile name chunk) fun _ =>
      Writing env inputs name (content ++ chunk) := by
  refine yields_act (fun _ h => h.1) (fun _ h => h.1) fun w hw => ?_
  obtain ⟨hhidden, files, hfiles, hnone, hdescribes⟩ := hw
  refine ⟨hhidden, files, ?_, hnone, hdescribes⟩
  dsimp only
  rw [hfiles, Option.map_some, Function.update_self, Function.update_idem]
  rfl

theorem yields_copyInput (inputs : List (MaterializedInput Duration)) (index : Nat)
    (item : VerifiedInputEvidence) :
    Yields (Writing env inputs (filename index item) []) Hidden (copyInput env index item)
      fun received => Writing env inputs (filename index item) received := by
  have hcopy : Yields (Writing env inputs (filename index item) []) Hidden
      (copyFrom (env.canonical index item.blob.storageKey) item.blob.sizeBytes
        (.integrity "canonical reader returned non-bytes")
        (.integrity "canonical object exceeds persisted size")
        (note .read) (appendFile (filename index item)) 0 [])
      fun received => Writing env inputs (filename index item) received := by
    refine (yields_copyFrom (J := Writing env inputs (filename index item)) (fun _ _ h => h.1)
      (fun _ => ?_) fun received chunk => ?_).weaken (fun _ h => h) fun _ _ _ h => h.1
    · exact yields_note (fun _ _ h => h) fun _ h => h.1
    · exact yields_appendFile inputs _ received chunk
  refine yields_translate (yields_seq (yields_pass fun _ h => h.1) fun _ => ?_)
  refine yields_seq hcopy fun received => ?_
  exact yields_seq (yields_pass fun _ h => h.1) fun _ => yields_pure (fun _ h => h.1) fun _ h => h

theorem yields_probeMedia (inputs : List (MaterializedInput Duration)) (index : Nat)
    (name : String) (content : List UInt8) (expected : InputMedia Duration) :
    Yields (Writing env inputs name content) Hidden (probeMedia env index name expected) fun _ =>
      Writing env inputs name content := by
  have hopen : Yields (Writing env inputs name content) Hidden
      (openFile name : Prog (World Duration) Raised (List UInt8))
      fun _ => Writing env inputs name content := by
    refine yields_atomic (fun _ h => h.1) (fun w bytes w' hw heq => ?_) fun w e w' hw heq => ?_
    · split at heq
      · cases heq
      · obtain ⟨_, rfl⟩ := Prod.mk.inj heq
        exact ⟨hw.1, hw⟩
    · split at heq
      · exact (Prod.mk.inj heq).2 ▸ hw.1
      · cases heq
  have hprobe : Yields (Writing env inputs name content) Hidden
      (translate (.media "verified media could not be re-probed") do
        let content ← openFile name
        pass
        pure (env.probe index content) : Prog (World Duration) Raised (InputMedia Duration))
      fun _ => Writing env inputs name content :=
    yields_translate (yields_seq hopen fun _ => yields_seq (yields_pass fun _ h => h.1) fun _ =>
      yields_pure (fun _ h => h.1) fun _ h => h)
  refine yields_seq hprobe fun actual => ?_
  exact yields_raiseWhen_bind (fun _ h => h.1) fun _ => yields_pure (fun _ h => h.1) fun _ h => h

/-- **One input**: a file of exactly the recorded bytes, or an exception. -/
theorem yields_materializeOne (inputs : List (MaterializedInput Duration)) (index : Nat)
    (item : VerifiedInputEvidence) :
    Yields (Holding env inputs) Hidden (materializeOne env index item) fun m w =>
      Holding env (inputs ++ [m]) w ∧ Matches item m := by
  unfold materializeOne
  cases expectedMedia env item.asset with
  | error e => exact yields_raise fun _ h => h.1
  | ok expected =>
      refine yields_seq (yields_pass fun _ h => h.1) fun _ => ?_
      refine yields_seq (yields_createFile inputs _) fun _ => ?_
      refine yields_seq (yields_copyInput inputs index item) fun received => ?_
      refine yields_raiseWhen_bind (fun _ h => h.1) fun hequal => ?_
      rw [Bool.or_eq_false_iff, bne_eq_false_iff_eq, bne_eq_false_iff_eq] at hequal
      refine yields_seq (yields_probeMedia inputs index _ received expected) fun media => ?_
      refine yields_pure (fun _ h => h.1) fun w hw => ?_
      obtain ⟨hhidden, files, hfiles, hnone, hdescribes⟩ := hw
      have hone := hdescribes.append (m := ⟨item.role, item.asset.assetId, item.blob.blobId,
        item.blob.sha256, received.length, filename index item, media⟩) hnone rfl hequal.2
      exact ⟨⟨hhidden, _, hfiles, hone⟩, rfl, rfl, rfl, rfl, hequal.1⟩

/-- **All inputs**, in order. -/
theorem yields_materializeAll :
    ∀ (items : List VerifiedInputEvidence) (index : Nat) (inputs : List (MaterializedInput Duration)),
      Yields (Holding env inputs) Hidden (materializeAll env index items) fun made w =>
        Holding env (inputs ++ made) w ∧ List.Forall₂ Matches items made
  | [], _, inputs => yields_pure (fun _ h => h.1) fun w hw =>
      ⟨by rw [List.append_nil]; exact hw, .nil⟩
  | item :: rest, index, inputs => by
      refine yields_seq (yields_materializeOne inputs index item) fun m => ?_
      refine (yields_assume (c := Matches item m) fun hmatches => ?_)
      refine yields_seq (yields_materializeAll rest (index + 1) (inputs ++ [m])) fun made => ?_
      refine yields_pure (fun _ h => h.1.1) fun w hw => ⟨?_, .cons hmatches hw.2⟩
      have hholding := hw.1
      rw [List.append_assoc] at hholding
      exact hholding

/-! ## Entering -/

theorem yields_assertLease {P I : World Duration → Prop} (hI : ∀ w, P w → I w)
    (hP : ∀ w event, P w → P { w with events := w.events ++ [event] }) :
    Yields P I (assertLease : Prog (World Duration) Raised Unit) fun _ w =>
      P w ∧ w.events.getLast? = some .leaseConfirmed := by
  refine yields_tryCatch ?_ fun _ => yields_ite (fun _ => yields_raise fun _ h => h)
    fun _ => yields_raise fun _ h => h
  refine yields_atomic hI (fun w u w' hw heq => ?_) fun w e w' _ heq => ?_
  · obtain ⟨_, rfl⟩ := Prod.mk.inj heq
    exact ⟨hI _ (hP w _ hw), hP w _ hw, List.getLast?_concat ..⟩
  · cases heq

/-- Nothing has been made. -/
def Fresh (w : World Duration) : Prop :=
  w.workspace = none ∧ w.materialized = [] ∧ w.entered = false

/-- The inputs are exposed. -/
def Exposed (env : Env Duration) (w : World Duration) : Prop :=
  (∃ files, w.workspace = some files ∧ Describes env files w.materialized) ∧
    List.Forall₂ Matches (orderBy VerifiedInputEvidence.role env.evidence) w.materialized ∧
    w.events.getLast? = some .leaseConfirmed

/-- How `__enter__` ends. -/
def Entered (env : Env Duration) : Exit Raised Unit → World Duration → Prop
  | .returned _, w => Exposed env w
  | .raised _, w => w.workspace = none ∧ w.materialized = []
  | .killed, w => w.materialized = []

/-- The part that the handler guards. -/
theorem triple_guarded : Triple (Holding env []) (do
    let materialized ← materializeAll env 0 (orderBy VerifiedInputEvidence.role env.evidence)
    assertLease
    Prog.assign fun w => { w with materialized := materialized }) fun x w =>
      match x with
      | .returned _ => Exposed env w
      | .raised _ | .killed => Hidden w := by
  refine triple_bind (yields_materializeAll _ 0 []) (fun made => ?_) (fun _ _ h => h.1) fun _ h => h.1
  have hlease : Yields (fun w => Holding env made w ∧
      List.Forall₂ Matches (orderBy VerifiedInputEvidence.role env.evidence) made) Hidden
      (assertLease : Prog (World Duration) Raised Unit) fun _ w =>
        (Holding env made w ∧
          List.Forall₂ Matches (orderBy VerifiedInputEvidence.role env.evidence) made) ∧
        w.events.getLast? = some .leaseConfirmed :=
    yields_assertLease (fun _ h => h.1.1) fun _ _ h => h
  refine (triple_bind hlease (fun _ => triple_assign fun w hw => ?_) (fun _ _ h => h.1)
    fun _ h => h.1).weaken (fun w hw => hw.2 made rfl) fun _ _ h => h
  obtain ⟨⟨⟨_, files, hfiles, hdescribes⟩, hmatches⟩, hevents⟩ := hw.2 () rfl
  exact ⟨⟨files, hfiles, hdescribes⟩, hmatches, hevents⟩

/-- **`__enter__`** exposes the inputs, or leaves nothing. -/
theorem triple_enter : Triple Fresh (enter env) (Entered env) := by
  unfold enter
  cases validateEvidence env with
  | error e => exact triple_raise fun _ h => ⟨h.1, h.2.1⟩
  | ok _ =>
      have hlease : Yields Fresh Fresh (assertLease : Prog (World Duration) Raised Unit)
          fun _ => Fresh :=
        (yields_assertLease (fun _ h => h) fun _ _ h => h).weaken (fun _ h => h) fun _ _ _ h => h.1
      refine triple_bind hlease (fun _ => ?_) (fun _ _ h => ⟨h.1.1, h.1.2.1⟩) fun _ h => h.1.2.1
      refine triple_bind (R := fun _ => Fresh) ?_ (fun _ => ?_) (fun _ _ h => ⟨h.1, h.2.1⟩)
        fun _ h => h.2.1
      · exact (triple_look (P := Fresh) (fun _ h => h) (fun _ _ h => h) fun _ h => h).weaken
          (fun _ h => h.1) fun _ _ h => h
      refine triple_bind (R := fun x w =>
        match x with
        | .returned _ => Holding env [] w
        | .raised _ | .killed => Fresh w) ?_ (fun _ => ?_) (fun _ _ h => ⟨h.1, h.2.1⟩) fun _ h => h.2.1
      · refine triple_atomic (fun w u w' hw heq => ?_) (fun w e w' _ heq => ?_) (fun _ _ h => h)
          fun _ h => h
        · obtain ⟨_, rfl⟩ := Prod.mk.inj heq
          exact ⟨⟨hw.2.1, rfl⟩, _, rfl, fun _ h => (by cases h), fun name h => absurd rfl h,
            List.nodup_nil⟩
        · cases heq
      refine triple_tryCatch triple_guarded (fun e => ?_) (fun _ _ h => h) fun _ h => h.1
      refine triple_assign_bind (R := fun w => w.workspace = none ∧ w.materialized = [])
        (triple_raise fun _ h => h) fun w hw => ?_
      have hentered : w.entered = true := hw.2
      rw [if_pos hentered]
      exact ⟨rfl, rfl⟩

/-! ## Evidence -/

/-- What evidence has to be: one piece for each role of the job, of the asset the job names, and
that asset and its blob verified, in the job's namespace and under the canonical key. -/
structure Proven (job : JobRecord) (evidence : List VerifiedInputEvidence) : Prop where
  once : (evidence.map VerifiedInputEvidence.role).Nodup
  cover : ∀ role, role ∈ job.inputs.map JobInput.role ↔ role ∈ evidence.map VerifiedInputEvidence.role
  named : ∀ item ∈ evidence, ∃ input ∈ job.inputs, input.role = item.role ∧
    input.assetId = item.asset.assetId
  verified : ∀ item ∈ evidence, item.asset.namespaceId = job.namespaceId ∧
    item.asset.blobId = item.blob.blobId ∧ item.asset.state = .verified ∧
    item.blob.state = .verified ∧
    LocalBlobStore.canonicalKey item.blob.sha256 = .ok item.blob.storageKey

theorem validateInput_ok {assetId : Uuid} {item : VerifiedInputEvidence} {u : Unit}
    (h : validateInput env assetId item = .ok u) :
    item.asset.assetId = assetId ∧ item.asset.namespaceId = env.job.namespaceId ∧
      item.asset.blobId = item.blob.blobId ∧ item.asset.state = .verified ∧
      item.blob.state = .verified ∧
      LocalBlobStore.canonicalKey item.blob.sha256 = .ok item.blob.storageKey := by
  unfold validateInput at h
  simp only [except_bind_ok, raiseIf_ok, exists_const, Bool.or_eq_false_iff,
    bne_eq_false_iff_eq] at h
  obtain ⟨hasset, ⟨⟨⟨hnamespace, hblob⟩, hstate⟩, hverified⟩, hkey⟩ := h
  refine ⟨hasset, hnamespace, hblob, hstate, hverified, ?_⟩
  cases hcanonical : LocalBlobStore.canonicalKey item.blob.sha256 with
  | error e =>
      rw [hcanonical] at hkey
      cases hkey
  | ok key =>
      rw [hcanonical] at hkey
      obtain ⟨_, hsame, _⟩ := except_bind_ok.mp hkey
      rw [raiseIf_ok, bne_eq_false_iff_eq] at hsame
      rw [hsame]

theorem validateInputs_ok : ∀ {items : List (String × Uuid)} {u : Unit},
    validateInputs env items = .ok u → ∀ p ∈ items,
      ∃ item, (supplied env).get? p.1 = some item ∧ ∃ u, validateInput env p.2 item = .ok u
  | [], _, _, _, hp => by cases hp
  | (role, assetId) :: rest, _, h, p, hp => by
      unfold validateInputs at h
      cases hsupplied : (supplied env).get? role with
      | none =>
          rw [hsupplied] at h
          cases h
      | some item =>
          rw [hsupplied] at h
          obtain ⟨u, hinput, hrest⟩ := except_bind_ok.mp h
          rcases List.mem_cons.mp hp with rfl | hmem
          · exact ⟨item, hsupplied, u, hinput⟩
          · exact validateInputs_ok hrest p hmem

/-- A dictionary with as many items as it was built of was built under distinct keys. -/
theorem nodup_of_length {α κ ν : Type} [DecidableEq κ] {f : α → κ} {g : α → ν} {as : List α}
    (h : (as.foldl (fun m a => m.put (f a) (g a)) OrderedMap.empty).items.length = as.length) :
    (as.map f).Nodup := by
  have hsame : ((as.foldl (fun m a => m.put (f a) (g a)) OrderedMap.empty).items.map
      Prod.fst).toFinset = (as.map f).toFinset := by
    ext k
    rw [List.mem_toFinset, List.mem_toFinset]
    constructor
    · intro hk
      obtain ⟨p, hp, rfl⟩ := List.mem_map.mp hk
      rcases OrderedMap.mem_foldl_put hp with hempty | ⟨a, ha, heq⟩
      · cases hempty
      · exact List.mem_map.mpr ⟨a, ha, congrArg Prod.fst heq⟩
    · intro hk
      obtain ⟨v, hv⟩ := Option.isSome_iff_exists.mp (OrderedMap.isSome_get?_foldl_put.mpr (.inr hk))
      exact List.mem_map.mpr ⟨(k, v), OrderedMap.get?_eq_some.mp hv, rfl⟩
  have hcard := congrArg Finset.card hsame
  rw [List.toFinset_card_of_nodup (OrderedMap.nodup _), List.card_toFinset, List.length_map, h,
    ← List.length_map (f := f)] at hcard
  exact List.dedup_eq_self.mp ((List.dedup_sublist _).eq_of_length hcard.symm)

theorem supplied_isSome (role : String) : ((supplied env).get? role).isSome = true
    ↔ role ∈ env.evidence.map VerifiedInputEvidence.role := by
  refine OrderedMap.isSome_get?_foldl_put.trans (or_iff_right fun h => ?_)
  cases h

theorem expected_isSome (role : String) : ((expected env).get? role).isSome = true
    ↔ role ∈ env.job.inputs.map JobInput.role := by
  refine OrderedMap.isSome_get?_foldl_put.trans (or_iff_right fun h => ?_)
  cases h

/-- **Evidence that passes** is what it has to be. -/
theorem proven_of_validate {u : Unit} (h : validateEvidence env = .ok u) :
    Proven env.job env.evidence := by
  unfold validateEvidence at h
  simp only [except_bind_ok, raiseIf_ok, exists_const, Bool.or_eq_false_iff,
    bne_eq_false_iff_eq, Bool.not_eq_false'] at h
  obtain ⟨_, _, ⟨⟨hlength, hextra⟩, hmissing⟩, hinputs⟩ := h
  -- as many roles as items: no role is given twice
  have honce : (env.evidence.map VerifiedInputEvidence.role).Nodup := nodup_of_length (g := id) hlength
  -- so each item is the one its role gives
  have hget : ∀ item ∈ env.evidence, (supplied env).get? item.role = some item := by
    intro item hitem
    obtain ⟨found, hfound⟩ := Option.isSome_iff_exists.mp
      ((supplied_isSome item.role).mpr (List.mem_map_of_mem hitem))
    rcases OrderedMap.mem_foldl_put (OrderedMap.get?_eq_some.mp hfound) with hempty | ⟨a, ha, heq⟩
    · cases hempty
    · obtain ⟨hrole, hvalue⟩ := Prod.mk.inj heq
      have hsame : a = item := List.inj_on_of_nodup_map honce ha hitem hrole
      rw [hvalue.symm.trans hsame] at hfound
      exact hfound
  have hexpected : ∀ item ∈ env.evidence, ∃ assetId, (item.role, assetId) ∈ (expected env).items := by
    intro item hitem
    have hsome := List.all_eq_true.mp hextra _ (OrderedMap.get?_eq_some.mp (hget item hitem))
    obtain ⟨assetId, hassetId⟩ := Option.isSome_iff_exists.mp hsome
    exact ⟨assetId, OrderedMap.get?_eq_some.mp hassetId⟩
  have hchecked : ∀ item ∈ env.evidence, ∃ input ∈ env.job.inputs, input.role = item.role ∧
      ∃ u, validateInput env input.assetId item = .ok u := by
    intro item hitem
    obtain ⟨assetId, hmem⟩ := hexpected item hitem
    obtain ⟨found, hfound, u, hu⟩ := validateInputs_ok hinputs _ hmem
    rw [hget item hitem] at hfound
    cases hfound
    rcases OrderedMap.mem_foldl_put hmem with hempty | ⟨input, hinput, heq⟩
    · cases hempty
    · obtain ⟨hrole, rfl⟩ := Prod.mk.inj heq
      exact ⟨input, hinput, hrole, u, hu⟩
  refine ⟨honce, fun role => ⟨fun hrole => ?_, fun hrole => ?_⟩, fun item hitem => ?_,
    fun item hitem => ?_⟩
  · obtain ⟨assetId, hassetId⟩ := Option.isSome_iff_exists.mp ((expected_isSome role).mpr hrole)
    have hsome := List.all_eq_true.mp hmissing _ (OrderedMap.get?_eq_some.mp hassetId)
    exact (supplied_isSome role).mp hsome
  · obtain ⟨item, hitem, rfl⟩ := List.mem_map.mp hrole
    obtain ⟨input, hinput, hsame, _⟩ := hchecked item hitem
    exact List.mem_map.mpr ⟨input, hinput, hsame⟩
  · obtain ⟨input, hinput, hsame, u, hu⟩ := hchecked item hitem
    exact ⟨input, hinput, hsame, (validateInput_ok hu).1.symm⟩
  · obtain ⟨input, hinput, hsame, u, hu⟩ := hchecked item hitem
    exact (validateInput_ok hu).2

/-! ## The whole -/

/-- How `__enter__` of a new materializer ends and what it leaves, with these faults. -/
def entered (env : Env Duration) (faults : List (Fault Raised)) : Exit Raised Unit × World Duration :=
  (enter env).run faults .start

theorem validate_of_returned {faults : List (Fault Raised)}
    (h : (entered env faults).1 = .returned ()) : Proven env.job env.evidence := by
  unfold entered Prog.run enter at h
  cases hvalid : validateEvidence env with
  | error e =>
      rw [hvalid] at h
      cases h
  | ok u => exact proven_of_validate hvalid

theorem entered_unproven (h : ¬ Proven env.job env.evidence) (faults : List (Fault Raised)) :
    (entered env faults).2 = .start := by
  unfold entered Prog.run enter
  cases hvalid : validateEvidence env with
  | error e => rfl
  | ok u => exact absurd (proven_of_validate hvalid) h

theorem forall₂_mem {α β : Type} {R : α → β → Prop} {as : List α} {bs : List β}
    (h : List.Forall₂ R as bs) : (∀ b ∈ bs, ∃ a ∈ as, R a b) ∧ ∀ a ∈ as, ∃ b ∈ bs, R a b := by
  induction h with
  | nil => exact ⟨fun _ h => (by cases h), fun _ h => (by cases h)⟩
  | @cons a b _ _ hab _ ih =>
      constructor
      · intro b' hb'
        rcases List.mem_cons.mp hb' with rfl | hmem
        · exact ⟨a, List.mem_cons_self, hab⟩
        · obtain ⟨a', ha', hR⟩ := ih.1 b' hmem
          exact ⟨a', List.mem_cons_of_mem _ ha', hR⟩
      · intro a' ha'
        rcases List.mem_cons.mp ha' with rfl | hmem
        · exact ⟨b, List.mem_cons_self, hab⟩
        · obtain ⟨b', hb', hR⟩ := ih.2 a' hmem
          exact ⟨b', List.mem_cons_of_mem _ hb', hR⟩

theorem roles_of_matches {items : List VerifiedInputEvidence}
    {made : List (MaterializedInput Duration)} (h : List.Forall₂ Matches items made) :
    made.map MaterializedInput.role = items.map VerifiedInputEvidence.role := by
  induction h with
  | nil => rfl
  | cons hmatches _ ih => rw [List.map_cons, List.map_cons, hmatches.role, ih]

/-- **Materialized inputs are exactly the verified inputs.** However the store, the probe and the
lease authority behave and wherever a call fails: `__enter__` returns only on proven evidence and
with the lease confirmed last; then there is one input for each role of the job, of the evidence for
the role and the asset the job names, and the files of the workspace are theirs, one for each, with
the byte count and the digest its blob records. When it raises, nothing is exposed and there is no
workspace. Evidence that is not proven never leads to a file. -/
theorem materialized_verified (env : Env Duration) (faults : List (Fault Raised)) :
    ((entered env faults).1 = .returned () →
      Proven env.job env.evidence ∧
      ((entered env faults).2.materialized.map MaterializedInput.role).Nodup ∧
      (∀ role, role ∈ env.job.inputs.map JobInput.role ↔
        role ∈ (entered env faults).2.materialized.map MaterializedInput.role) ∧
      (∀ m ∈ (entered env faults).2.materialized, ∃ item ∈ env.evidence, Matches item m ∧
        ∃ input ∈ env.job.inputs, input.role = m.role ∧ input.assetId = m.assetId) ∧
      (∃ files, (entered env faults).2.workspace = some files ∧
        Describes env files (entered env faults).2.materialized) ∧
      (entered env faults).2.events.getLast? = some .leaseConfirmed) ∧
    (∀ e, (entered env faults).1 = .raised e →
      (entered env faults).2.materialized = [] ∧ (entered env faults).2.workspace = none) ∧
    (¬ Proven env.job env.evidence →
      (entered env faults).2.materialized = [] ∧ (entered env faults).2.workspace = none) := by
  have hends : Entered env (entered env faults).1 (entered env faults).2 :=
    triple_enter faults _ ⟨rfl, rfl, rfl⟩
  refine ⟨fun hreturned => ?_, fun e hraised => ?_, fun hunproven => ?_⟩
  · have hproven := validate_of_returned hreturned
    rw [hreturned] at hends
    obtain ⟨hworkspace, hmatches, hlease⟩ := hends
    have hperm := (orderBy_perm VerifiedInputEvidence.role env.evidence).map VerifiedInputEvidence.role
    have hroles := roles_of_matches hmatches
    refine ⟨hproven, ?_, fun role => ?_, fun m hm => ?_, hworkspace, hlease⟩
    · rw [hroles]
      exact hperm.nodup_iff.mpr hproven.once
    · rw [hproven.cover, hroles, hperm.mem_iff]
    · obtain ⟨item, hitem, hmatch⟩ := (forall₂_mem hmatches).1 m hm
      have hevidence := mem_orderBy.mp hitem
      obtain ⟨input, hinput, hrole, hasset⟩ := hproven.named item hevidence
      exact ⟨item, hevidence, hmatch, input, hinput, hrole.trans hmatch.role.symm,
        hasset.trans hmatch.asset.symm⟩
  · rw [hraised] at hends
    exact ⟨hends.2, hends.1⟩
  · rw [entered_unproven hunproven faults]
    exact ⟨rfl, rfl⟩

/-- A digest, and a job with one input that has it. -/
def sampleSha : String := String.ofList (List.replicate 64 'a')

def sampleEnv : Env Nat where
  job :=
    { jobId := 1, namespaceId := "ns", idempotencyKey := "key", requestSha256 := sampleSha
      request := .dict [], deploymentId := 2, inputs := [⟨"video", 3, rfl⟩]
      requiredArtifactKinds := [.output], state := .running, currentAttemptId := some 4
      winningAttemptId := none, cancelRequested := false, leaseEpoch := 1 }
  attempt := ⟨4, 1, 5, 1, 1, .active⟩
  lease := ⟨1, 4, 5, 1, 60⟩
  evidence :=
    [⟨"video", ⟨3, 6, "ns", .input, .verified,
        .dict [("media_type", .str "video/mp4"), ("duration_seconds", .int 2)]⟩,
      ⟨6, sampleSha, 3, NanoAural.canonicalKey sampleSha, .verified, "video/mp4"⟩⟩]
  canonical _ _ index := .bytes (if index = 0 then [1, 2, 3] else [])
  probe _ _ := ⟨"video/mp4", 2⟩
  sha256 _ := sampleSha
  float _ := some 2
  proper duration := decide (0 < duration)
  isclose a b := a == b

/-- A run that returns, with its file in the workspace. -/
example : (entered sampleEnv []).1 = .returned () ∧
    (entered sampleEnv []).2.materialized.map MaterializedInput.role = ["video"] ∧
    (entered sampleEnv []).2.workspace.bind (· "input-0000-aaaaaaaaaaaaaaaa.bin")
      = some [1, 2, 3] := by
  decide +kernel

end Materialization

end NanoAural
