import NanoAural.Remote.Download

/-!
# Downloads are verified and atomic

The directory is compared with the one there would be without the call, to which
others do the same. The two differ at the temporary name only, until the link: it makes
the destination where there is none, of a file that has been compared with what the
response declares. So a download that raises leaves the directory as it would be, and
one that is stopped anywhere has at most added the temporary file and a verified
destination.
-/

namespace NanoAural

namespace RemoteDownload

open Faulty StreamCopy

variable {env : Env} {args : Arguments}

/-! ## What is said of a directory -/

/-- Bytes that the response gives, of the size and the digest it declares, within the limit. -/
structure Verified (env : Env) (args : Arguments) (content : List UInt8) : Prop where
  given : Gives (env.transport args.jobId args.artifactId).body 0 content
  size : declaredSize env (env.transport args.jobId args.artifactId) = some (content.length : Int)
  digest : env.sha256 content = declaredSha env (env.transport args.jobId args.artifactId)
  limit : content.length ≤ env.maxDownloadBytes

/-- Apart from the temporary name, the directory is as it would be without the call, or has a
verified file at the destination where there would be none. -/
def Kept (env : Env) (args : Arguments) (w : World) : Prop :=
  ∀ name, name ≠ temporary env args → w.names name = w.without name ∨
    (name = args.name ∧ w.without name = none ∧
      ∃ content, w.names name = some (.ours content) ∧ Verified env args content)

/-- Nothing has been created. -/
def Untouched (w : World) : Prop := w.names = w.without ∧ w.created = none

/-- The temporary file holds this, and nothing else has been created. -/
def Partial (env : Env) (args : Arguments) (content : List UInt8) (w : World) : Prop :=
  w.names = Function.update w.without (temporary env args) (some (.ours content)) ∧
    w.without (temporary env args) = none ∧ w.created = none

/-- The destination has been made. -/
def Made (env : Env) (args : Arguments) (w : World) : Prop :=
  Kept env args w ∧ w.without (temporary env args) = none ∧
    ∃ content, w.created = some content ∧ Verified env args content

/-- Wherever the call is stopped. -/
def Safe (env : Env) (args : Arguments) (w : World) : Prop :=
  Kept env args w ∧ ∀ content, w.created = some content → Verified env args content

theorem Untouched.safe {w : World} (h : Untouched w) : Safe env args w := by
  refine ⟨fun name _ => .inl (by rw [h.1]), fun content hcreated => ?_⟩
  rw [h.2] at hcreated
  cases hcreated

theorem Partial.safe {content : List UInt8} {w : World} (h : Partial env args content w) :
    Safe env args w := by
  refine ⟨fun name hname => .inl ?_, fun content hcreated => ?_⟩
  · rw [h.1, Function.update_of_ne hname]
  · rw [h.2.2] at hcreated
    cases hcreated

theorem Made.safe {w : World} (h : Made env args w) : Safe env args w := by
  obtain ⟨hkept, _, content, hcreated, hverified⟩ := h
  refine ⟨hkept, fun content' hcreated' => ?_⟩
  rw [hcreated] at hcreated'
  exact Option.some.inj hcreated' ▸ hverified

/-! ## Others -/

section Others

variable (t : String) (w : World)

theorem stir_created : (w.stir t).created = w.created := by
  unfold World.stir
  split <;> rfl

theorem stir_bodyOpen : (w.stir t).bodyOpen = w.bodyOpen := by
  unfold World.stir
  split <;> rfl

/-- Others leave the temporary name alone, and do the same elsewhere with the call and without. -/
theorem change_agree (moves : List (String × Option (List UInt8))) :
    ∀ (f g : String → Option Entry) (name : String),
      (name = t → moves.foldl (change t) f name = f name) ∧
      ((moves.foldl (change t) f name = f name ∧ moves.foldl (change t) g name = g name) ∨
        moves.foldl (change t) f name = moves.foldl (change t) g name) := by
  induction moves with
  | nil => exact fun _ _ _ => ⟨fun _ => rfl, .inl ⟨rfl, rfl⟩⟩
  | cons move rest ih =>
      intro f g name
      rw [List.foldl_cons, List.foldl_cons]
      obtain ⟨htemporary, hagree⟩ := ih (change t f move) (change t g move) name
      by_cases hname : name = move.1
      · by_cases ht : move.1 = t
        · have hf : ∀ h, change t h move = h := fun h => if_pos ht
          rw [hf] at htemporary hagree
          rw [hf] at hagree
          simp only [hf]
          exact ⟨htemporary, hagree⟩
        · have hf : ∀ h : String → Option Entry, change t h move name = move.2.map .theirs := fun h => by
            rw [hname]
            unfold change
            rw [if_neg ht, Function.update_self]
          refine ⟨fun h => absurd (hname.symm.trans h) ht, .inr ?_⟩
          rcases hagree with ⟨hl, hr⟩ | hsame
          · rw [hl, hr, hf, hf]
          · exact hsame
      · have hf : ∀ h : String → Option Entry, change t h move name = h name := fun h => by
          unfold change
          split
          · rfl
          · exact Function.update_of_ne hname _ _
        rw [hf] at htemporary hagree
        rw [hf] at hagree
        exact ⟨htemporary, hagree⟩

theorem stir_agree (name : String) :
    ((w.stir t).names name = w.names name ∧ (w.stir t).without name = w.without name) ∨
      (w.stir t).names name = (w.stir t).without name := by
  unfold World.stir
  split
  · exact .inl ⟨rfl, rfl⟩
  · exact (change_agree t _ w.names w.without name).2

theorem stir_temporary :
    (w.stir t).names t = w.names t ∧ (w.stir t).without t = w.without t := by
  unfold World.stir
  split
  · exact ⟨rfl, rfl⟩
  · exact ⟨(change_agree t _ w.names w.without t).1 rfl, (change_agree t _ w.without w.names t).1 rfl⟩

end Others

section Stir

variable {w : World}

theorem Untouched.stir (h : Untouched w) (t : String) : Untouched (w.stir t) := by
  refine ⟨funext fun name => ?_, (stir_created t w).trans h.2⟩
  rcases stir_agree t w name with ⟨hnames, hwithout⟩ | hsame
  · rw [hnames, hwithout, h.1]
  · exact hsame

theorem Partial.stir {content : List UInt8} (h : Partial env args content w) :
    Partial env args content (w.stir (temporary env args)) := by
  obtain ⟨hnames, hwithout, hcreated⟩ := h
  obtain ⟨htemporary, htemporary'⟩ := stir_temporary (temporary env args) w
  refine ⟨funext fun name => ?_, htemporary'.trans hwithout, (stir_created _ w).trans hcreated⟩
  by_cases hname : name = temporary env args
  · rw [hname, Function.update_self, htemporary, hnames, Function.update_self]
  · rw [Function.update_of_ne hname]
    rcases stir_agree (temporary env args) w name with ⟨hn, hw⟩ | hsame
    · rw [hn, hw, hnames, Function.update_of_ne hname]
    · exact hsame

theorem Kept.stir (h : Kept env args w) : Kept env args (w.stir (temporary env args)) := by
  intro name hname
  rcases stir_agree (temporary env args) w name with ⟨hn, hw⟩ | hsame
  · rw [hn, hw]
    exact h name hname
  · exact .inl hsame

end Stir

/-! ## The pieces -/

/-- A call that is none of the directory's. -/
theorem triple_pass {P : World → Prop} {Q : Exit Raised Unit → World → Prop}
    (hstir : ∀ w, P w → P (w.stir (temporary env args)))
    (hreturned : ∀ w, P w → Q (.returned ()) w) (hraised : ∀ e w, P w → Q (.raised e) w)
    (hkilled : ∀ w, P w → Q .killed w) : Prog.Triple P (pass env args) Q := by
  refine Prog.triple_atomic (fun w _ w' hw heq => ?_) (fun w e w' _ heq => ?_) hraised hkilled
  · obtain ⟨_, rfl⟩ := Prod.mk.inj heq
    exact hreturned _ (hstir w hw)
  · cases heq

/-- How `receive` ends. -/
def Received (env : Env) (args : Arguments) : Exit Raised Unit → World → Prop
  | .returned _, w => Made env args w
  | .raised _, w => ∃ content, Partial env args content w
  | .killed, w => Safe env args w

/-- A call on the outside while the temporary file is written. -/
theorem triple_pass_midway (content : List UInt8) :
    Prog.Triple (Partial env args content) (pass env args) fun x w =>
      match x with
      | .returned _ => Partial env args content w
      | .raised _ => ∃ content, Partial env args content w
      | .killed => Safe env args w :=
  triple_pass (fun _ h => h.stir) (fun _ h => h) (fun _ _ h => ⟨content, h⟩) fun _ h => h.safe

theorem partial_write {content : List UInt8} {w : World} (h : Partial env args content w)
    (chunk : List UInt8) : Partial env args (content ++ chunk)
      (put (temporary env args) (some (.ours (content ++ chunk))) w) := by
  refine ⟨?_, h.2⟩
  change Function.update w.names _ _ = _
  rw [h.1, Function.update_idem]
  rfl

theorem triple_writeChunk (content chunk : List UInt8) :
    Prog.Triple (Partial env args content) (writeChunk env args chunk) fun x w =>
      match x with
      | .returned _ => Partial env args (content ++ chunk) w
      | .raised _ => ∃ content, Partial env args content w
      | .killed => Safe env args w := by
  have hnames : ∀ w, Partial env args content w →
      (w.stir (temporary env args)).names (temporary env args) = some (.ours content) := by
    intro w hw
    rw [hw.stir.1, Function.update_self]
  -- what was written is there on each of the three ways out, and the link is not
  refine Prog.triple_act (fun w hw => ?_) (fun _ w hw => ⟨⟨_, hw⟩, ⟨content ++ chunk, ?_⟩⟩)
    fun w hw => ⟨hw.safe, (?_ : Partial env args (content ++ chunk) _).safe⟩
  all_goals
    dsimp only
    rw [hnames w hw]
    exact partial_write hw.stir chunk

/-- **The link** makes the destination of a verified file, or changes nothing. -/
theorem triple_link {content : List UInt8} (hverified : Verified env args content) :
    Prog.Triple (Partial env args content) (link env args) (Received env args) := by
  refine Prog.triple_atomic (fun w u w' hw heq => ?_) (fun w e w' hw heq => ?_)
    (fun _ w hw => ⟨content, hw⟩) fun w hw => hw.safe
  · have hnames : (w.stir (temporary env args)).names (temporary env args) = some (.ours content) := by
      rw [hw.stir.1, Function.update_self]
    dsimp only at heq
    rw [hnames] at heq
    cases htarget : (w.stir (temporary env args)).names args.name with
    | some entry =>
        rw [htarget] at heq
        cases heq
    | none =>
        rw [htarget] at heq
        obtain ⟨_, rfl⟩ := Prod.mk.inj heq
        refine ⟨fun name hname => ?_, hw.stir.2.1, content, rfl, hverified⟩
        have hwithout : (w.stir (temporary env args)).names name
            = (w.stir (temporary env args)).without name := by
          rw [hw.stir.1, Function.update_of_ne hname]
        by_cases hdestination : name = args.name
        · subst hdestination
          exact .inr ⟨rfl, hwithout.symm.trans htarget, content, Function.update_self .., hverified⟩
        · exact .inl ((Function.update_of_ne hdestination _ _).trans hwithout)
  · have hsame : w' = w.stir (temporary env args) := by
      dsimp only at heq
      split at heq <;> first | exact (Prod.mk.inj heq).2.symm | cases heq
    rw [hsame]
    exact ⟨content, hw.stir⟩

/-- Removing the temporary file. -/
theorem triple_unlinkTemporary {P : World → Prop} {Q : Exit Raised Unit → World → Prop}
    (h : ∀ w, P w → Q (.returned ())
      (put (temporary env args) none (w.stir (temporary env args)))) :
    Prog.Triple P (unlinkTemporary env args) Q := by
  refine Prog.triple_attempt (fun w u w' hw heq => ?_) fun w e w' _ heq => ?_
  · obtain ⟨_, rfl⟩ := Prod.mk.inj heq
    exact h w hw
  · cases heq

theorem Made.unlinked {w : World} (h : Made env args w) :
    Made env args (put (temporary env args) none (w.stir (temporary env args))) := by
  obtain ⟨hkept, hwithout, content, hcreated, hverified⟩ := h
  refine ⟨fun name hname => ?_, (stir_temporary _ w).2.trans hwithout, content,
    (stir_created _ w).trans hcreated, hverified⟩
  have hold := hkept.stir name hname
  have hnames : (put (temporary env args) none (w.stir (temporary env args))).names name
      = (w.stir (temporary env args)).names name := Function.update_of_ne hname _ _
  rw [hnames]
  exact hold

theorem Partial.unlinked {content : List UInt8} {w : World} (h : Partial env args content w) :
    Untouched (put (temporary env args) none (w.stir (temporary env args))) := by
  obtain ⟨hnames, hwithout, hcreated⟩ := h.stir
  refine ⟨?_, hcreated⟩
  change Function.update (w.stir (temporary env args)).names _ none = (w.stir (temporary env args)).without
  rw [hnames, Function.update_idem]
  exact Function.update_eq_self_iff.mpr hwithout.symm

theorem checkHeaders_ok {response : HttpResponse} {size : Nat}
    (h : checkHeaders env response = .ok size) :
    declaredSize env response = some (size : Int) ∧ size ≤ env.maxDownloadBytes := by
  unfold checkHeaders at h
  cases hsize : declaredSize env response with
  | none =>
      rw [hsize] at h
      cases h
  | some declared =>
      rw [hsize] at h
      dsimp only at h
      split at h
      · cases h
      rename_i hshape
      split at h
      · cases h
      rename_i hlimit
      split at h
      · have heq : declared.toNat = size := Except.ok.inj h
        exact ⟨congrArg some (by omega), by omega⟩
      · cases h

/-- **`receive`** leaves a verified destination, or a temporary file and nothing else. -/
theorem triple_receive {size : Nat}
    (hheaders : checkHeaders env (env.transport args.jobId args.artifactId) = .ok size) :
    Prog.Triple (Partial env args []) (receive env args (env.transport args.jobId args.artifactId) size)
      (Received env args) := by
  obtain ⟨hsize, hlimit⟩ := checkHeaders_ok hheaders
  refine Prog.triple_bind (triple_pass_midway []) (fun _ => ?_) (fun _ _ h => h) fun _ h => h
  refine Prog.triple_bind (R := fun x w =>
    match x with
    | .returned received => Gives (env.transport args.jobId args.artifactId).body 0 received ∧
        Partial env args received w
    | .raised _ => ∃ content, Partial env args content w
    | .killed => Safe env args w) ?_ (fun received => ?_) (fun _ _ h => h) fun _ h => h
  · refine triple_copyFrom (J := Partial env args) (fun content => ?_) (fun content chunk => ?_)
      (fun content w hw => ?_) (by exact Nat.zero_le _) fun rest w hgives _ hw => ?_
    · exact (triple_pass_midway content).weaken (fun _ h => h) fun x w hx => by cases x <;> exact hx
    · exact (triple_writeChunk content chunk).weaken (fun _ h => h) fun x w hx => by
        cases x <;> exact hx
    · exact ⟨⟨content, hw⟩, ⟨content, hw⟩⟩
    · exact ⟨hgives, hw⟩
  refine Prog.Triple.assume fun hgives => ?_
  refine Prog.triple_bind (triple_pass_midway received) (fun _ => ?_) (fun _ _ h => h) fun _ h => h
  refine Prog.triple_bind (triple_pass_midway received) (fun _ => ?_) (fun _ _ h => h) fun _ h => h
  refine Prog.triple_raiseWhen_bind (fun _ w hw => ⟨received, hw⟩) fun hequal => ?_
  rw [Bool.or_eq_false_iff, bne_eq_false_iff_eq, bne_eq_false_iff_eq] at hequal
  have hverified : Verified env args received :=
    ⟨hgives, by rw [hsize, hequal.1], hequal.2, hequal.1.le.trans hlimit⟩
  refine Prog.triple_bind (triple_link hverified) (fun _ => ?_) (fun _ _ h => h) fun _ h => h
  exact triple_unlinkTemporary fun w hw => Made.unlinked hw

/-- How `download` ends. -/
def Ended (env : Env) (args : Arguments) : Exit Raised Unit → World → Prop
  | .returned _, w => Made env args w ∧ w.names (temporary env args) = none ∧ w.bodyOpen = false
  | .raised _, w => Untouched w ∧ w.bodyOpen = false
  | .killed, w => Safe env args w

/-- What `finish` adds to how `receive` ends. -/
theorem triple_finish {P : World → Prop} {Q : World → Prop}
    (h : ∀ w, P w → Q (put (temporary env args) none
      (World.stir (temporary env args) { w with bodyOpen := false }))) :
    Prog.Triple P (finish env args) fun x w =>
      match x with
      | .returned _ => Q w
      | .raised _ | .killed => False := by
  unfold finish closeBody
  exact Prog.triple_assign_bind (R := fun w' => ∃ w, P w ∧ w' = { w with bodyOpen := false })
    (triple_unlinkTemporary fun w' ⟨w, hw, hw'⟩ => hw' ▸ h w hw) fun w hw => ⟨w, hw, rfl⟩

/-- Closing the body and raising. -/
theorem triple_close_raise {α : Type} {e : Raised} {Q : Exit Raised α → World → Prop}
    (h : ∀ w, Untouched w → w.bodyOpen = false → Q (.raised e) w) :
    Prog.Triple Untouched (closeBody >>= fun _ => (Prog.raise e : Prog World Raised α)) Q :=
  Prog.triple_assign_bind (R := fun w => Untouched w ∧ w.bodyOpen = false)
    (Prog.triple_raise fun w hw => h w hw.1 hw.2) fun _ hw => ⟨hw, rfl⟩

theorem triple_openTemporary :
    Prog.Triple Untouched (openTemporary env args) fun x w =>
      match x with
      | .returned _ => Partial env args [] w
      | .raised _ | .killed => Untouched w := by
  refine Prog.triple_atomic (fun w u w' hw heq => ?_) (fun w e w' hw heq => ?_)
    (fun _ _ hw => hw) fun _ hw => hw
  · have hstir := hw.stir (temporary env args)
    dsimp only at heq
    split at heq
    · cases heq
    · rename_i hnone
      obtain ⟨_, rfl⟩ := Prod.mk.inj heq
      refine ⟨?_, (congrFun hstir.1 _).symm.trans hnone, hstir.2⟩
      change Function.update (w.stir (temporary env args)).names _ _ = _
      rw [hstir.1]
      rfl
  · have hsame : w' = w.stir (temporary env args) := by
      dsimp only at heq
      split at heq <;> first | exact (Prod.mk.inj heq).2.symm | cases heq
    rw [hsame]
    exact hw.stir _

/-- **From the response on.** -/
theorem triple_store :
    Prog.Triple Untouched (store env args (env.transport args.jobId args.artifactId))
      (Ended env args) := by
  unfold store
  refine Prog.triple_ite (fun _ => triple_close_raise fun _ hw hclosed => ⟨hw, hclosed⟩) fun _ => ?_
  cases hheaders : checkHeaders env (env.transport args.jobId args.artifactId) with
  | error e => exact triple_close_raise fun _ hw hclosed => ⟨hw, hclosed⟩
  | ok size =>
      refine Prog.triple_bind (R := fun x w =>
        match x with
        | .returned _ => Partial env args [] w
        | .raised _ => Untouched w ∧ w.bodyOpen = false
        | .killed => Untouched w) ?_ (fun _ => ?_) (fun _ _ h => h) fun _ h => h.safe
      · exact Prog.triple_tryCatch triple_openTemporary
          (fun _ => triple_close_raise fun _ hw hclosed => ⟨hw, hclosed⟩) (fun _ _ h => h) fun _ h => h
      refine Prog.triple_tryFinally (triple_receive hheaders) (fun _ => ?_) (fun e => ?_) fun _ h => h
      · refine (triple_finish (Q := Ended env args (.returned ())) fun w hw => ?_).weaken
          (fun _ h => h) fun x w hx => by cases x <;> first | exact hx | exact hx.elim
        have hmade : Made env args { w with bodyOpen := false } := hw
        exact ⟨hmade.unlinked, Function.update_self .., (stir_bodyOpen _ _).trans rfl⟩
      · refine (triple_finish (Q := Ended env args (.raised e)) fun w hw => ?_).weaken
          (fun _ h => h) fun x w hx => by cases x <;> first | exact hx | exact hx.elim
        obtain ⟨content, hpartial⟩ := hw
        have hpartial' : Partial env args content { w with bodyOpen := false } := hpartial
        exact ⟨hpartial'.unlinked, (stir_bodyOpen _ _).trans rfl⟩

/-! ## The whole -/

/-- Nothing has been created, and no body is open. -/
def Idle (w : World) : Prop := Untouched w ∧ w.bodyOpen = false

/-- What a part before the response leaves. -/
def Waiting {α : Type} (env : Env) (args : Arguments) : Exit Raised α → World → Prop
  | .returned _, w | .raised _, w => Idle w
  | .killed, w => Safe env args w

theorem Idle.stir {w : World} (h : Idle w) (t : String) : Idle (w.stir t) :=
  ⟨h.1.stir t, (stir_bodyOpen t w).trans h.2⟩

theorem triple_pass_idle : Prog.Triple Idle (pass env args) (Waiting env args) :=
  triple_pass (fun _ h => h.stir _) (fun _ h => h) (fun _ _ h => h) fun _ h => h.1.safe

theorem triple_openDirectory : Prog.Triple Idle (openDirectory env args) (Waiting env args) := by
  refine Prog.triple_bind triple_pass_idle (fun _ => ?_) (fun _ _ h => h) fun _ h => h
  refine Prog.triple_forEach (J := fun _ => Idle) (fun part rest => ?_) (fun _ h => h) _
  refine Prog.triple_ite (fun _ => Prog.triple_pure fun _ h => h) fun _ => ?_
  refine Prog.triple_ite (fun _ => Prog.triple_raise fun _ h => h) fun _ => ?_
  exact triple_pass_idle.weaken (fun _ h => h) fun x w hx => by cases x <;> exact hx

theorem triple_request : Prog.Triple Idle (request env args) fun x w =>
    match x with
    | .returned response => response = env.transport args.jobId args.artifactId ∧ Untouched w
    | .raised _ => Idle w
    | .killed => Safe env args w := by
  refine Prog.triple_tryCatch (R := fun x w =>
    match x with
    | .returned response => response = env.transport args.jobId args.artifactId ∧ Untouched w
    | .raised _ => Idle w
    | .killed => Safe env args w) ?_ (fun e => ?_) (fun _ _ h => h) fun _ h => h
  · refine Prog.triple_atomic (fun w response w' hw heq => ?_) (fun w e w' _ heq => ?_)
      (fun _ _ hw => hw) fun _ hw => hw.1.safe
    · obtain ⟨hresponse, rfl⟩ := Prod.mk.inj heq
      exact ⟨(Except.ok.inj hresponse).symm, hw.1.stir _⟩
    · cases heq
  · cases e <;> exact Prog.triple_raise fun _ h => h

theorem triple_download : Prog.Triple Idle (download env args) (Ended env args) := by
  refine Prog.triple_raiseWhen_bind (fun _ _ h => h) fun _ => ?_
  refine Prog.triple_bind (R := Waiting env args) ?_ (fun _ => ?_) (fun _ _ h => h) fun _ h => h
  · refine Prog.triple_tryCatch triple_openDirectory (fun e => ?_) (fun _ _ h => h) fun _ h => h
    exact Prog.triple_ite (fun _ => Prog.triple_raise fun _ h => h)
      fun _ => Prog.triple_raise fun _ h => h
  refine Prog.triple_raiseWhen_bind (fun _ _ h => h) fun _ => ?_
  refine Prog.triple_bind (R := Waiting env args) ?_ (fun found => ?_) (fun _ _ h => h) fun _ h => h
  · refine Prog.triple_atomic (fun w a w' hw heq => ?_) (fun w e w' _ heq => ?_) (fun _ _ h => h)
      fun _ h => h.1.safe
    · obtain ⟨_, rfl⟩ := Prod.mk.inj heq
      exact hw.stir _
    · cases heq
  refine Prog.triple_raiseWhen_bind (fun _ _ h => h) fun _ => ?_
  refine Prog.triple_raiseWhen_bind (fun _ _ h => h) fun _ => ?_
  refine Prog.triple_raiseWhen_bind (fun _ _ h => h) fun _ => ?_
  refine Prog.triple_bind triple_request (fun response => ?_) (fun _ _ h => h) fun _ h => h
  refine Prog.Triple.assume fun hresponse => ?_
  rw [hresponse]
  exact triple_store

/-- How a download ends and what it leaves, from a directory with these names, while others make
these changes and these faults befall its calls. -/
def downloaded (env : Env) (args : Arguments) (names : String → Option (List UInt8))
    (others : List (List (String × Option (List UInt8)))) (faults : List (Fault Raised)) :
    Exit Raised Unit × World :=
  (download env args).run faults (.start names others)

/-- **Downloads are verified and atomic.** Whatever the response, the directory, what others do to
it and where the calls fail: apart from the temporary file the directory is as it would be without
the call, or has at the destination, where there would be nothing, a file of exactly the bytes that
the response gives and declares; a download that returns has made that file and left nothing else;
one that raises leaves the directory as it would be; and either way the body is closed. -/
theorem download_verified (env : Env) (args : Arguments) (names : String → Option (List UInt8))
    (others : List (List (String × Option (List UInt8)))) (faults : List (Fault Raised)) :
    (∀ name, name ≠ temporary env args →
      (downloaded env args names others faults).2.names name
          = (downloaded env args names others faults).2.without name ∨
        (name = args.name ∧ (downloaded env args names others faults).2.without name = none ∧
          ∃ content, (downloaded env args names others faults).2.names name = some (.ours content) ∧
            Verified env args content)) ∧
    (∀ content, (downloaded env args names others faults).2.created = some content →
      Verified env args content) ∧
    ((downloaded env args names others faults).1 = .returned () →
      (downloaded env args names others faults).2.created.isSome ∧
      (downloaded env args names others faults).2.bodyOpen = false ∧
      (downloaded env args names others faults).2.names (temporary env args)
        = (downloaded env args names others faults).2.without (temporary env args)) ∧
    ∀ e, (downloaded env args names others faults).1 = .raised e →
      (downloaded env args names others faults).2.names
          = (downloaded env args names others faults).2.without ∧
        (downloaded env args names others faults).2.created = none ∧
        (downloaded env args names others faults).2.bodyOpen = false := by
  have hended : Ended env args (downloaded env args names others faults).1
      (downloaded env args names others faults).2 :=
    triple_download faults _ ⟨⟨rfl, rfl⟩, rfl⟩
  generalize downloaded env args names others faults = r at hended
  obtain ⟨x, w⟩ := r
  have hsafe : Safe env args w := by
    cases x with
    | returned u => exact hended.1.safe
    | raised e => exact hended.1.safe
    | killed => exact hended
  refine ⟨hsafe.1, hsafe.2, fun hx => ?_, fun e hx => ?_⟩
  · cases hx
    obtain ⟨⟨_, hwithout, content, hcreated, _⟩, hnames, hclosed⟩ := hended
    exact ⟨Option.isSome_iff_exists.mpr ⟨content, hcreated⟩, hclosed, hnames.trans hwithout.symm⟩
  · cases hx
    exact ⟨hended.1.1, hended.1.2, hended.2⟩

end RemoteDownload

end NanoAural
