import NanoAural.Durable.CanonicalRequests
import NanoAural.Proof.Idempotency

/-!
# What the canonical request tells apart

Two requests are hashed as the same bytes exactly when they are the same typed JSON
value up to the order of keys, for the same deployment, with the same asset under
every role and the same set of kinds. Submissions are replayed and refused by that.
-/

namespace NanoAural

open JsonText Relational

/-! ## The checked value -/

mutual

/-- The check changes nothing but tuples, which are arrays already. -/
theorem jsonValue_canonical : ∀ {v w : PyValue}, canonicalJsonValue v = .ok w →
    jsonValue w = jsonValue v
  | .null, _, h | .bool _, _, h | .int _, _, h | .str _, _, h => by
      rw [← Except.ok.inj h]
  | .float _, _, h => by
      unfold canonicalJsonValue at h
      split at h
      · cases h
      · rw [← Except.ok.inj h]
  | .list items, _, h => by
      unfold canonicalJsonValue at h
      obtain ⟨items', hitems, h⟩ := except_bind_ok.mp h
      rw [← Except.ok.inj h, jsonValue, jsonValue, jsonItems_canonical hitems]
  | .tuple items, _, h => by
      unfold canonicalJsonValue at h
      obtain ⟨items', hitems, h⟩ := except_bind_ok.mp h
      rw [← Except.ok.inj h, jsonValue, jsonValue, jsonItems_canonical hitems]
  | .dict entries, _, h => by
      unfold canonicalJsonValue at h
      obtain ⟨entries', hentries, h⟩ := except_bind_ok.mp h
      rw [← Except.ok.inj h, jsonValue, jsonValue, jsonEntries_canonical hentries]

theorem jsonItems_canonical : ∀ {vs ws : List PyValue}, canonicalItems vs = .ok ws →
    jsonItems ws = jsonItems vs
  | [], _, h => by rw [← Except.ok.inj h]
  | v :: vs, _, h => by
      unfold canonicalItems at h
      obtain ⟨w, hw, h⟩ := except_bind_ok.mp h
      obtain ⟨ws, hws, h⟩ := except_bind_ok.mp h
      rw [← Except.ok.inj h, jsonItems, jsonItems, jsonValue_canonical hw, jsonItems_canonical hws]

theorem jsonEntries_canonical : ∀ {vs ws : List (String × PyValue)}, canonicalEntries vs = .ok ws →
    jsonEntries ws = jsonEntries vs
  | [], _, h => by rw [← Except.ok.inj h]
  | (k, v) :: vs, _, h => by
      unfold canonicalEntries at h
      obtain ⟨w, hw, h⟩ := except_bind_ok.mp h
      obtain ⟨ws, hws, h⟩ := except_bind_ok.mp h
      rw [← Except.ok.inj h, jsonEntries, jsonEntries, jsonValue_canonical hw,
        jsonEntries_canonical hws]

end

mutual

/-- A value that passed the check has no float but a finite one. -/
theorem writable_canonical : ∀ {v w : PyValue}, v.proper = true → canonicalJsonValue v = .ok w →
    Writable (jsonValue v)
  | .null, _, _, _ | .bool _, _, _, _ | .int _, _, _, _ | .str _, _, _, _ => trivial
  | .float _, _, hv, h => by
      unfold canonicalJsonValue at h
      split at h
      · cases h
      · rename_i hfinite
        rw [PyValue.proper, Bool.or_eq_true] at hv
        exact Or.inl (hv.resolve_left hfinite)
  | .list items, _, hv, h => by
      unfold canonicalJsonValue at h
      obtain ⟨items', hitems, _⟩ := except_bind_ok.mp h
      exact writableItems_canonical hv hitems
  | .tuple items, _, hv, h => by
      unfold canonicalJsonValue at h
      obtain ⟨items', hitems, _⟩ := except_bind_ok.mp h
      exact writableItems_canonical hv hitems
  | .dict entries, _, hv, h => by
      unfold canonicalJsonValue at h
      obtain ⟨entries', hentries, _⟩ := except_bind_ok.mp h
      rw [PyValue.proper, Bool.and_eq_true] at hv
      exact writableEntries_canonical hv.2 hentries

theorem writableItems_canonical : ∀ {vs ws : List PyValue}, properItems vs = true →
    canonicalItems vs = .ok ws → WritableItems (jsonItems vs)
  | [], _, _, _ => trivial
  | v :: vs, _, hv, h => by
      rw [properItems, Bool.and_eq_true] at hv
      unfold canonicalItems at h
      obtain ⟨w, hw, h⟩ := except_bind_ok.mp h
      obtain ⟨ws, hws, _⟩ := except_bind_ok.mp h
      exact ⟨writable_canonical hv.1 hw, writableItems_canonical hv.2 hws⟩

theorem writableEntries_canonical : ∀ {vs ws : List (String × PyValue)}, properEntries vs = true →
    canonicalEntries vs = .ok ws → WritableMembers (jsonEntries vs)
  | [], _, _, _ => trivial
  | (k, v) :: vs, _, hv, h => by
      rw [properEntries, Bool.and_eq_true] at hv
      unfold canonicalEntries at h
      obtain ⟨w, hw, h⟩ := except_bind_ok.mp h
      obtain ⟨ws, hws, _⟩ := except_bind_ok.mp h
      exact ⟨writable_canonical hv.1 hw, writableEntries_canonical hv.2 hws⟩

end

theorem jsonEntries_keys (vs : List (String × PyValue)) :
    (jsonEntries vs).map Prod.fst = vs.map Prod.fst := by
  induction vs with
  | nil => rfl
  | cons v vs ih => rw [jsonEntries, List.map_cons, List.map_cons, ih]

mutual

theorem distinctKeys_proper : ∀ {v : PyValue}, v.proper = true → (jsonValue v).distinctKeys = true
  | .null, _ | .bool _, _ | .int _, _ | .float _, _ | .str _, _ => rfl
  | .list _, h | .tuple _, h => distinctItems_proper h
  | .dict _, h => by
      rw [PyValue.proper, Bool.and_eq_true, decide_eq_true_eq] at h
      rw [jsonValue, JsonValue.distinctKeys, Bool.and_eq_true, decide_eq_true_eq, jsonEntries_keys]
      exact ⟨h.1, distinctEntries_proper h.2⟩

theorem distinctItems_proper : ∀ {vs : List PyValue}, properItems vs = true →
    distinctItems (jsonItems vs) = true
  | [], _ => rfl
  | _ :: _, h => by
      rw [properItems, Bool.and_eq_true] at h
      rw [jsonItems, distinctItems, Bool.and_eq_true]
      exact ⟨distinctKeys_proper h.1, distinctItems_proper h.2⟩

theorem distinctEntries_proper : ∀ {vs : List (String × PyValue)}, properEntries vs = true →
    distinctMembers (jsonEntries vs) = true
  | [], _ => rfl
  | (_, _) :: _, h => by
      rw [properEntries, Bool.and_eq_true] at h
      rw [jsonEntries, distinctMembers, Bool.and_eq_true]
      exact ⟨distinctKeys_proper h.1, distinctEntries_proper h.2⟩

end

/-! ## The payload -/

/-- The request as the value that is written. -/
def RequestArguments.json (r : RequestArguments) : JsonValue :=
  .object
    [("deployment_id", .string r.deploymentId), ("request", jsonValue r.request),
      ("inputs", .array ((orderBy Prod.fst r.inputs).map fun item =>
        .object [("role", .string item.1), ("asset_id", .string item.2)])),
      ("required_artifact_kinds", .array
        ((orderBy id (r.requiredArtifactKinds.map ArtifactKind.value)).map .string))]

theorem jsonItems_map {α : Type} (f : α → PyValue) (items : List α) :
    jsonItems (items.map f) = items.map fun a => jsonValue (f a) := by
  induction items with
  | nil => rfl
  | cons a rest ih => rw [List.map_cons, List.map_cons, jsonItems, ih]

theorem payload_ok {r : RequestArguments} {payload : List UInt8} (h : r.payload = .ok payload) :
    (∃ normalized, canonicalJsonValue r.request = .ok normalized)
      ∧ payload = canonicalBytes plainEscape r.json := by
  unfold RequestArguments.payload at h
  obtain ⟨-, h⟩ := raiseIf_bind_ok.mp h
  obtain ⟨normalized, hnormalized, h⟩ := except_bind_ok.mp h
  obtain ⟨_, -, h⟩ := except_bind_ok.mp h
  refine ⟨⟨normalized, hnormalized⟩, ?_⟩
  rw [← Except.ok.inj h, canonicalPayload, dumpsSorted, RequestArguments.json]
  simp only [jsonValue, jsonEntries, jsonItems_map, jsonValue_canonical hnormalized]

/-- What the arguments of `canonical_request_sha256` are promised to be. -/
structure RequestArguments.Proper (r : RequestArguments) : Prop where
  request : r.request.proper = true
  roles : (r.inputs.map Prod.fst).Nodup
  kinds : r.requiredArtifactKinds.Nodup

theorem writableStrings (texts : List String) : WritableItems (texts.map .string) :=
  writableItems_iff.mpr fun v hv => by
    obtain ⟨text, -, rfl⟩ := List.mem_map.mp hv
    trivial

theorem distinctItems_iff {items : List JsonValue} :
    distinctItems items = true ↔ ∀ v ∈ items, v.distinctKeys = true := by
  induction items with
  | nil => simp [distinctItems]
  | cons v rest ih => rw [distinctItems, Bool.and_eq_true, ih, List.forall_mem_cons]

theorem writable_json {r : RequestArguments} (hr : r.Proper) {normalized : PyValue}
    (h : canonicalJsonValue r.request = .ok normalized) : Writable r.json := by
  refine ⟨trivial, writable_canonical hr.request h, ?_, writableStrings _, trivial⟩
  refine writableItems_iff.mpr fun v hv => ?_
  obtain ⟨item, -, rfl⟩ := List.mem_map.mp hv
  exact ⟨trivial, trivial, trivial⟩

theorem distinctKeys_json {r : RequestArguments} (hr : r.Proper) : r.json.distinctKeys = true := by
  rw [RequestArguments.json, JsonValue.distinctKeys, Bool.and_eq_true]
  refine ⟨decide_eq_true (by simp), ?_⟩
  simp only [distinctMembers, Bool.and_eq_true, Bool.and_true]
  refine ⟨rfl, distinctKeys_proper hr.request, distinctItems_iff.mpr ?_, distinctItems_iff.mpr ?_⟩
  · intro v hv
    obtain ⟨item, -, rfl⟩ := List.mem_map.mp hv
    rw [JsonValue.distinctKeys, Bool.and_eq_true]
    exact ⟨decide_eq_true (by simp), rfl⟩
  · intro v hv
    obtain ⟨text, -, rfl⟩ := List.mem_map.mp hv
    rfl

/-! ## What the payload tells apart -/

/-- The same request: the same typed value up to the order of keys, for the same deployment, with
the same asset under every role and the same kinds. -/
structure RequestArguments.Same (r r' : RequestArguments) : Prop where
  request : Alike (jsonValue r.request) (jsonValue r'.request)
  deploymentId : r.deploymentId = r'.deploymentId
  inputs : ∀ item, item ∈ r.inputs ↔ item ∈ r'.inputs
  kinds : ∀ kind, kind ∈ r.requiredArtifactKinds ↔ kind ∈ r'.requiredArtifactKinds

/-- Sorted lists are equal when the lists hold the same. -/
theorem orderBy_eq_iff {α κ : Type} [LinearOrder κ] {f : α → κ} {as bs : List α}
    (has : (as.map f).Nodup) (hbs : (bs.map f).Nodup) :
    orderBy f as = orderBy f bs ↔ ∀ a, a ∈ as ↔ a ∈ bs := by
  constructor
  · intro h a
    rw [← mem_orderBy (f := f), h, mem_orderBy]
  · intro h
    exact orderBy_congr ((List.perm_ext_iff_of_nodup has.of_map hbs.of_map).mpr h) has

theorem kindValue_injective : Function.Injective ArtifactKind.value := by
  intro a b h
  cases a with
  | output =>
      cases b with
      | output => rfl
      | manifest => exact absurd h (by decide)
  | manifest =>
      cases b with
      | output => exact absurd h (by decide)
      | manifest => rfl

theorem alike_json_iff {r r' : RequestArguments} :
    Alike r.json r'.json ↔ Alike (jsonValue r.request) (jsonValue r'.request)
      ∧ r.deploymentId = r'.deploymentId
      ∧ orderBy Prod.fst r.inputs = orderBy Prod.fst r'.inputs
      ∧ orderBy id (r.requiredArtifactKinds.map ArtifactKind.value)
        = orderBy id (r'.requiredArtifactKinds.map ArtifactKind.value) := by
  have hinput : ∀ a b : String × String,
      Alike (.object [("role", .string a.1), ("asset_id", .string a.2)])
        (.object [("role", .string b.1), ("asset_id", .string b.2)]) ↔ a = b := by
    intro a b
    refine (alike_object_iff ?_ ?_).trans ?_
    · simp
    · rfl
    · rw [alikeMembers_cons_iff, alikeMembers_cons_iff, alike_string_iff, alike_string_iff,
        alikeMembers_nil, and_true, Prod.ext_iff]
  refine (alike_object_iff ?_ ?_).trans ?_
  · simp
  · rfl
  rw [alikeMembers_cons_iff, alikeMembers_cons_iff, alikeMembers_cons_iff, alikeMembers_cons_iff,
    alikeMembers_nil, and_true, alike_string_iff, alike_array_iff, alike_array_iff,
    alikeItems_map_iff hinput, alikeItems_map_iff fun _ _ => alike_string_iff]
  exact and_left_comm

theorem same_iff {r r' : RequestArguments} (hr : r.Proper) (hr' : r'.Proper) :
    r.Same r' ↔ Alike r.json r'.json := by
  rw [alike_json_iff, orderBy_eq_iff hr.roles hr'.roles, orderBy_eq_iff
    (by rw [List.map_id]; exact hr.kinds.map kindValue_injective)
    (by rw [List.map_id]; exact hr'.kinds.map kindValue_injective)]
  have hkinds : (∀ value, value ∈ r.requiredArtifactKinds.map ArtifactKind.value
        ↔ value ∈ r'.requiredArtifactKinds.map ArtifactKind.value)
      ↔ ∀ kind, kind ∈ r.requiredArtifactKinds ↔ kind ∈ r'.requiredArtifactKinds := by
    constructor
    · intro h kind
      have := h kind.value
      rwa [List.mem_map_of_injective kindValue_injective,
        List.mem_map_of_injective kindValue_injective] at this
    · intro h value
      simp only [List.mem_map, h]
  rw [hkinds]
  exact ⟨fun h => ⟨h.request, h.deploymentId, h.inputs, h.kinds⟩, fun h => ⟨h.1, h.2.1, h.2.2.1, h.2.2.2⟩⟩

/-- **The payload is the request.** -/
theorem payload_eq_iff {r r' : RequestArguments} (hr : r.Proper) (hr' : r'.Proper)
    {payload payload' : List UInt8} (h : r.payload = .ok payload) (h' : r'.payload = .ok payload') :
    payload = payload' ↔ r.Same r' := by
  obtain ⟨⟨_, hchecked⟩, rfl⟩ := payload_ok h
  obtain ⟨⟨_, hchecked'⟩, rfl⟩ := payload_ok h'
  rw [same_iff hr hr', canonicalBytes_eq_iff readable_plainEscape (writable_json hr hchecked)
    (writable_json hr' hchecked') (distinctKeys_json hr')]

/-! ## Submissions -/

theorem jsonEntries_eq_map (vs : List (String × PyValue)) :
    jsonEntries vs = vs.map fun e => (e.1, jsonValue e.2) := by
  induction vs with
  | nil => rfl
  | cons v vs ih => rw [jsonEntries, ih, List.map_cons]

mutual

/-- Keys that are sorted beforehand are sorted all the same. -/
theorem sortKeys_sorted : ∀ {v : PyValue}, (jsonValue v).distinctKeys = true →
    (jsonValue (sortKeys v)).sortKeys = (jsonValue v).sortKeys
  | .null, _ | .bool _, _ | .int _, _ | .float _, _ | .str _, _ => rfl
  | .list _, h => by
      rw [sortKeys, jsonValue, jsonValue, JsonValue.sortKeys, JsonValue.sortKeys, sortItems_sorted h]
  | .tuple _, h => by
      rw [sortKeys, jsonValue, jsonValue, JsonValue.sortKeys, JsonValue.sortKeys, sortItems_sorted h]
  | .dict entries, h => by
      rw [jsonValue, JsonValue.distinctKeys, Bool.and_eq_true, decide_eq_true_eq] at h
      have hperm : (sortMembers (jsonEntries (orderBy Prod.fst (sortEntries entries)))).Perm
          (sortMembers (jsonEntries entries)) := by
        rw [← sortMembers_sorted h.2, sortMembers_eq_map, sortMembers_eq_map, jsonEntries_eq_map,
          jsonEntries_eq_map]
        exact ((orderBy_perm _ _).map _).map _
      have hkeys : ((sortMembers (jsonEntries (orderBy Prod.fst (sortEntries entries)))).map
          Prod.fst).Nodup := by
        refine (hperm.map _).nodup_iff.mpr ?_
        rw [sortMembers_keys]
        exact h.1
      rw [sortKeys, jsonValue, jsonValue, JsonValue.sortKeys, JsonValue.sortKeys,
        orderBy_congr hperm hkeys]

theorem sortItems_sorted : ∀ {vs : List PyValue}, distinctItems (jsonItems vs) = true →
    JsonText.sortItems (jsonItems (sortItems vs)) = JsonText.sortItems (jsonItems vs)
  | [], _ => rfl
  | v :: vs, h => by
      rw [jsonItems, distinctItems, Bool.and_eq_true] at h
      rw [sortItems, jsonItems, jsonItems, JsonText.sortItems, JsonText.sortItems,
        sortKeys_sorted h.1, sortItems_sorted h.2]

theorem sortMembers_sorted : ∀ {vs : List (String × PyValue)},
    distinctMembers (jsonEntries vs) = true →
    sortMembers (jsonEntries (sortEntries vs)) = sortMembers (jsonEntries vs)
  | [], _ => rfl
  | (k, v) :: vs, h => by
      rw [jsonEntries, distinctMembers, Bool.and_eq_true] at h
      rw [sortEntries, jsonEntries, jsonEntries, sortMembers, sortMembers, sortKeys_sorted h.1,
        sortMembers_sorted h.2]

end

theorem canonicalPayload_sorted {v : PyValue} (h : (jsonValue v).distinctKeys = true)
    (deploymentId : String) (inputs : List (String × String)) (kinds : List String) :
    canonicalPayload (sortKeys v) deploymentId inputs kinds
      = canonicalPayload v deploymentId inputs kinds := by
  unfold canonicalPayload dumpsSorted canonicalBytes
  simp only [jsonValue, jsonEntries, JsonValue.sortKeys, sortMembers, sortKeys_sorted h]

/-- The hash of a submission is that of its payload. -/
theorem requestHash_payload {sha256 : List UInt8 → String} {ids : IdentifierText} {sub : Submission}
    {hash : String} (hproper : (sub.arguments ids).Proper)
    (h : sub.requestHash (requestDigest sha256 ids) = .ok hash) :
    ∃ payload, (sub.arguments ids).payload = .ok payload ∧ hash = sha256 payload := by
  unfold Submission.requestHash at h
  obtain ⟨-, h⟩ := raiseIf_bind_ok.mp h
  obtain ⟨-, h⟩ := raiseIf_bind_ok.mp h
  obtain ⟨-, h⟩ := raiseIf_bind_ok.mp h
  obtain ⟨-, h⟩ := raiseIf_bind_ok.mp h
  obtain ⟨canonical, hcanonical, h⟩ := except_bind_ok.mp h
  unfold canonicalRequest at hcanonical
  obtain ⟨hmapping, hcanonical⟩ := raiseIf_bind_ok.mp hcanonical
  obtain ⟨request, hrequest, hcanonical⟩ := except_bind_ok.mp hcanonical
  have hdistinct : (jsonValue request).distinctKeys = true := by
    rw [jsonValue_canonical hrequest]
    exact distinctKeys_proper hproper.request
  have hinputs : (orderBy JobInput.role sub.normalizedInputs).map
        (fun item => (item.role, ids.text item.assetId))
      = orderBy Prod.fst (sub.arguments ids).inputs :=
    List.map_insertionSort _ _ _ _ fun _ _ _ _ => Iff.rfl
  have htext : requireText (sub.arguments ids).deploymentId "deployment_id" = .ok () := by
    unfold requireText Submission.arguments
    rw [ids.filled]
    rfl
  refine ⟨canonicalPayload request (ids.text sub.deploymentId)
    (orderBy Prod.fst (sub.arguments ids).inputs)
    (orderBy id (sub.required.map ArtifactKind.value)), ?_, ?_⟩
  · unfold RequestArguments.payload
    refine raiseIf_bind_ok.mpr ⟨hmapping, except_bind_ok.mpr ⟨request, hrequest, ?_⟩⟩
    exact except_bind_ok.mpr ⟨(), htext, rfl⟩
  · rw [← Except.ok.inj h, ← Except.ok.inj hcanonical, requestDigest, canonicalPayload_sorted hdistinct,
      List.map_map, ← hinputs]
    rfl

/--
**The canonical request payload identifies a request.**

Two payloads are equal exactly when the requests are the same. Under a used key, then, whatever
happened since the first submission, the same request is answered with the job and any other is
refused, if SHA-256 tells the two payloads apart.
-/
theorem canonical_request_identity (sha256 : List UInt8 → String) (ids : IdentifierText) :
    (∀ r r' : RequestArguments, r.Proper → r'.Proper → ∀ payload payload',
        r.payload = .ok payload → r'.payload = .ok payload' → (payload = payload' ↔ r.Same r'))
      ∧ ∀ (m m₁ m₂ : MemoryRepository) (jobId : Uuid) (sub sub' : Submission) (job : JobRecord),
        (sub.arguments ids).Proper → (sub'.arguments ids).Proper →
        sub'.namespaceId = sub.namespaceId → sub'.idempotencyKey = sub.idempotencyKey →
        (∀ payload payload', (sub.arguments ids).payload = .ok payload →
          (sub'.arguments ids).payload = .ok payload' →
          sha256 payload = sha256 payload' → payload = payload') →
        m.createJob (requestDigest sha256 ids) jobId sub = (.ok job, m₁) →
        (memorySystem (requestDigest sha256 ids)).Runs m₁ m₂ →
        (∃ hash, sub'.requestHash (requestDigest sha256 ids) = .ok hash) →
        ((sub.arguments ids).Same (sub'.arguments ids) →
          ∃ job', job'.submitted = job.submitted
            ∧ ∀ id, m₂.createJob (requestDigest sha256 ids) id sub' = (.ok job', m₂))
        ∧ (¬ (sub.arguments ids).Same (sub'.arguments ids) →
          ∀ id, m₂.createJob (requestDigest sha256 ids) id sub'
            = (.error idempotencyConflict, m₂)) := by
  refine ⟨fun r r' hr hr' _ _ h h' => payload_eq_iff hr hr' h h', ?_⟩
  intro m m₁ m₂ jobId sub sub' job hproper hproper' hns hkey hinjective hfirst hr ⟨hash', hhash'⟩
  obtain ⟨hash, _, hhash, -⟩ := memory_createJob_ok hfirst
  obtain ⟨job', hnamed, hsub, hreplay, hconflict⟩ := memory_replay hfirst hr
  obtain ⟨payload, hpayload, rfl⟩ := requestHash_payload hproper hhash
  obtain ⟨payload', hpayload', rfl⟩ := requestHash_payload hproper' hhash'
  have hsame := payload_eq_iff hproper hproper' hpayload hpayload'
  constructor
  · intro h
    have heq : sub'.requestHash (requestDigest sha256 ids)
        = sub.requestHash (requestDigest sha256 ids) := by
      rw [hhash, hhash', hsame.mpr h]
    refine ⟨job', hsub, fun id => ?_⟩
    rw [← hreplay id]
    -- a used key is looked up alike for both
    unfold MemoryRepository.named at hnamed
    unfold MemoryRepository.createJob
    rw [heq, hns, hkey]
    cases hused : m₂.jobByIdempotency (sub.namespaceId, sub.idempotencyKey) with
    | none =>
        rw [hused] at hnamed
        cases hnamed
    | some existingId => rfl
  · intro h id
    refine hconflict id sub' hns hkey ⟨_, hhash'⟩ fun heq => h ?_
    rw [hhash, hhash', Except.ok.injEq] at heq
    exact hsame.mp (hinjective _ _ hpayload hpayload' heq.symm)

/-- Identifiers spelled by their length. -/
def unaryIds : IdentifierText where
  text id := String.ofList (List.replicate (id + 1) 'd')
  injective a b h := by
    have := congrArg List.length (String.ofList_injective h)
    simpa using this
  filled id := by simp [isBlank, List.replicate_succ, isSpace]

/-- A request with two members, and the same request with the members the other way round. -/
def keyedSubmission : Submission :=
  ⟨"n", "keyed", .dict [("a", .int 1), ("b", .bool true)], 1, [], [.output]⟩

def swappedSubmission : Submission :=
  ⟨"n", "keyed", .dict [("b", .bool true), ("a", .int 1)], 1, [], [.output]⟩

/-- The SHA-256 of the payload of both. -/
def keyedHash (_ : List UInt8) : String :=
  "b04eaad43621a9d7e58400e1e243e91dc319c731d242b8309a3308e28a352e0d"

/-- The job the first of them creates. -/
def keyedRecord : JobRecord :=
  ⟨6, "n", "keyed", keyedHash [], .dict [("a", .int 1), ("b", .bool true)], 1, [], [.output],
    .queued, none, none, false, 0⟩

/-- The repository it leaves. -/
def keyedMemory : MemoryRepository :=
  (smallMemory.createJob (requestDigest keyedHash unaryIds) 6 keyedSubmission).2

theorem keyed_proper : (keyedSubmission.arguments unaryIds).Proper :=
  ⟨by decide, by decide, by decide⟩

theorem swapped_proper : (swappedSubmission.arguments unaryIds).Proper :=
  ⟨by decide, by decide, by decide⟩

theorem keyed_same_swapped :
    (keyedSubmission.arguments unaryIds).Same (swappedSubmission.arguments unaryIds) where
  request := .object (.swap _ _ _) (.cons .int (.cons .bool .nil))
  deploymentId := rfl
  inputs _ := .rfl
  kinds _ := .rfl

theorem canonical_request_identity_swapped :
    ∃ job' : JobRecord, job'.submitted = keyedRecord.submitted
      ∧ ∀ id, keyedMemory.createJob (requestDigest keyedHash unaryIds) id swappedSubmission
        = (.ok job', keyedMemory) := by
  have hfirst : (smallMemory.createJob (requestDigest keyedHash unaryIds) 6 keyedSubmission).1
      = .ok keyedRecord := by decide +kernel
  have hpayloads : ∀ payload payload',
      (keyedSubmission.arguments unaryIds).payload = .ok payload →
      (swappedSubmission.arguments unaryIds).payload = .ok payload' → payload = payload' :=
    fun _ _ h h' => (payload_eq_iff keyed_proper swapped_proper h h').mpr keyed_same_swapped
  exact ((canonical_request_identity keyedHash unaryIds).2 smallMemory keyedMemory keyedMemory 6
    keyedSubmission swappedSubmission keyedRecord keyed_proper swapped_proper rfl rfl
    (fun payload payload' h h' _ => hpayloads payload payload' h h') (Prod.ext hfirst rfl) .refl
    ⟨keyedHash [], rfl⟩).1 keyed_same_swapped

end NanoAural
