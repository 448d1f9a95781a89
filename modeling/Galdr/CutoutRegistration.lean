import Galdr.Placements
import Galdr.SessionSteps

/-!
# A cutout and its board

A cutout owns its outline, and so where its board moves the outline is carried along: a move of
the board by a placement carries it by what leads from the old placement to the new, and a move
of a group by the shift. In every document that a session holds the corners of the outline are
therefore where the board's motion since the cutout was made takes them, undo and redo included
(`Session.riding_step`), and a shape is the image of the shape. A rectangle is kept as two corners,
though, and a placement may turn the board: the rectangle between the carried corners is the image
of the rectangle just when the motion skews neither of its sides (`registered_iff`).
-/

namespace Galdr.Project

variable {K : Type} {E : Engine K}

/-! ## Outlines -/

namespace CutoutOutlineSpec

section Lattice

variable [LinearOrder K]

/-- The region that an outline denotes, given what the engine's regions denote. -/
def denotes (denote : E.Region → Set (K × K)) : CutoutOutlineSpec E → Set (K × K)
  | .rectangle low high => Set.uIcc low high
  | .geometry region => denote region

end Lattice

variable [Field K]

/-- An outline carried along. -/
def transform (delta : Affine K) : CutoutOutlineSpec E → CutoutOutlineSpec E
  | .rectangle low high => .rectangle (delta.apply low) (delta.apply high)
  | .geometry region => .geometry (E.transform region delta)

/-- An outline that a motion took from another: the corners are moved, or the shape is the image. -/
def Moved (denote : E.Region → Set (K × K)) (motion : Affine K)
    (outline moved : CutoutOutlineSpec E) : Prop :=
  (∃ low high, outline = .rectangle low high
      ∧ moved = .rectangle (motion.apply low) (motion.apply high))
    ∨ ∃ region shape, outline = .geometry region ∧ moved = .geometry shape
      ∧ denote shape = motion.apply '' denote region

/-- The motion moves the outline as what it denotes. -/
def Carries [LinearOrder K] (motion : Affine K) : CutoutOutlineSpec E → Prop
  | .rectangle low high => motion.KeepsSides low high
  | .geometry _ => True

variable {denote : E.Region → Set (K × K)} {outline moved : CutoutOutlineSpec E}

theorem Moved.identity (outline : CutoutOutlineSpec E) :
    Moved denote .identity outline outline := by
  cases outline with
  | rectangle low high => exact .inl ⟨low, high, rfl, by simp⟩
  | geometry region => exact .inr ⟨region, region, rfl, rfl, by simp⟩

/-- An outline that is carried once more. -/
theorem Moved.transform (hmoves : ∀ region (m : Affine K), m.determinant ≠ 0 →
      denote (E.transform region m) = m.apply '' denote region)
    {motion delta : Affine K} (h : Moved denote motion outline moved)
    (hdet : delta.determinant ≠ 0) :
    Moved denote (motion.andThen delta) outline (moved.transform delta) := by
  rcases h with ⟨low, high, rfl, rfl⟩ | ⟨region, shape, rfl, rfl, hshape⟩
  · refine .inl ⟨low, high, rfl, ?_⟩
    rw [Affine.apply_andThen, Affine.apply_andThen]
    rfl
  · refine .inr ⟨region, _, rfl, rfl, ?_⟩
    rw [hmoves shape delta hdet, hshape, Set.image_image]
    refine Set.image_congr fun p _ => ?_
    rw [Affine.apply_andThen]

/-- **A carried outline denotes the image just when the motion skews no side of it.** -/
theorem Moved.denotes_iff [LinearOrder K] [IsStrictOrderedRing K] {motion : Affine K}
    (h : Moved denote motion outline moved) (hdet : motion.determinant ≠ 0) :
    moved.denotes denote = motion.apply '' outline.denotes denote ↔ outline.Carries motion := by
  rcases h with ⟨low, high, rfl, rfl⟩ | ⟨region, shape, rfl, rfl, hshape⟩
  · exact Affine.image_uIcc_iff hdet low high
  · exact iff_of_true hshape trivial

end CutoutOutlineSpec

open CutoutOutlineSpec

/-! ## A cutout that rides on its board -/

section Riding

variable [Field K]

/-- A cutout `o` that was made where the board lay at `start`, and that the motion of the board
since took along. -/
def Object.Rides (denote : E.Region → Set (K × K)) (board : ObjectId) (start : Affine K)
    (outline : CutoutOutlineSpec E) (b o : Object K (ObjectPayload E)) : Prop :=
  ∃ job spec motion, o.payload = .cncJob job ∧ job.source = some board
    ∧ Session.isRebuildable job = true ∧ job.operation = .cutout spec
    ∧ start.andThen motion = b.info.placement ∧ motion.determinant ≠ 0
    ∧ Moved denote motion outline spec.outline

/-- The outline of a cutout is carried along. -/
theorem operation_carryDependentJob {job : CncJobObject E} {spec : CutoutSpec E}
    (h : job.operation = .cutout spec) (delta : Affine K) :
    (Session.carryDependentJob job delta).operation
      = .cutout { spec with outline := spec.outline.transform delta } := by
  unfold Session.carryDependentJob
  rw [h]
  cases hspec : spec.outline with
  | rectangle low high => simp only [hspec]; rfl
  | geometry region => simp only [hspec]; rfl

/-- **A board that moves takes its cutout along**, and one that does not leaves it. -/
theorem Object.Rides.withDependents {denote : E.Region → Set (K × K)}
    (hmoves : ∀ region (m : Affine K), m.determinant ≠ 0 →
      denote (E.transform region m) = m.apply '' denote region)
    {board : ObjectId} {start delta : Affine K} {outline : CutoutOutlineSpec E}
    {moved : ObjectId → Bool} {b o b' o' : Object K (ObjectPayload E)}
    (h : Object.Rides denote board start outline b o) (hpayload : o'.payload = o.payload)
    (hmoved : moved board = true → b'.info.placement = b.info.placement.andThen delta
      ∧ delta.determinant ≠ 0)
    (hkept : moved board = false → b'.info.placement = b.info.placement) :
    Object.Rides denote board start outline
      (Session.withDependents moved (Session.carryDependentJob · delta) b')
      (Session.withDependents moved (Session.carryDependentJob · delta) o') := by
  obtain ⟨job, spec, motion, hjob, hsource, hrebuildable, hspec, hmotion, hdet, houtline⟩ := h
  unfold Object.Rides
  rw [Session.withDependents_info]
  unfold Session.withDependents
  rw [hpayload, hjob]
  dsimp only
  rw [hsource, hrebuildable, Bool.and_true, Option.any_some]
  cases hboard : moved board with
  | true =>
    obtain ⟨hplaced, hdelta⟩ := hmoved hboard
    rw [if_pos rfl, hplaced]
    refine ⟨_, _, motion.andThen delta, rfl, hsource, hrebuildable,
      operation_carryDependentJob hspec delta, ?_, ?_, houtline.transform hmoves hdelta⟩
    · rw [← Affine.andThen_assoc, hmotion]
    · rw [Affine.determinant_andThen]
      exact mul_ne_zero hdet hdelta
  | false =>
    rw [if_neg Bool.false_ne_true, hkept hboard]
    exact ⟨job, spec, motion, hpayload.trans hjob, hsource, hrebuildable, hspec, hmotion, hdet,
      houtline⟩

/-- In a document, a cutout of this identifier rides on its board. -/
def Document.Riding (denote : E.Region → Set (K × K)) (board id : ObjectId) (start : Affine K)
    (outline : CutoutOutlineSpec E) (doc : Document E) : Prop :=
  ∀ o, doc.collection.get id = some o → ∃ b, doc.collection.get board = some b
    ∧ Object.Rides denote board start outline b o

/-- Every object lies rigidly. -/
def Document.Rigid [LinearOrder K] (doc : Document E) : Prop :=
  ∀ o ∈ doc.collection.objects, o.info.placement.isRigid = true

section Order

variable [LinearOrder K] [IsStrictOrderedRing K]

theorem Affine.isRigid_identity : (Affine.identity : Affine K).isRigid = true := by
  simp [Affine.isRigid, Affine.identity, Affine.determinant]

theorem Document.Rigid.of_follows {doc doc' : Document E} (h : doc.Rigid)
    (hfollows : Follows doc doc') : doc'.Rigid := by
  intro o' ho'
  rcases hfollows.collection.object o' ho' with ⟨o, ho, hkeeps⟩ | hfresh
  · exact hkeeps.rigid (h o ho)
  · rw [hfresh.placement]
    exact Affine.isRigid_identity

variable {denote : E.Region → Set (K × K)} {board id : ObjectId} {start : Affine K}
  {outline : CutoutOutlineSpec E}

omit [LinearOrder K] [IsStrictOrderedRing K] in
/-- A document whose objects are placed elsewhere, where the board's motion is carried to the
jobs that were made from it. -/
theorem Document.Riding.modify (hmoves : ∀ region (m : Affine K), m.determinant ≠ 0 →
      denote (E.transform region m) = m.apply '' denote region) {doc : Document E}
    (h : doc.Riding denote board id start outline) {delta : Affine K} (moved : ObjectId → Bool)
    (place : Object K (ObjectPayload E) → Object K (ObjectPayload E))
    (hid : ∀ o, (Session.withDependents moved (fun job => Session.carryDependentJob job delta)
      (place o)).info.id = o.info.id)
    (hpayload : ∀ o, (place o).payload = o.payload)
    (hmoved : ∀ b, doc.collection.get board = some b → moved board = true →
      (place b).info.placement = b.info.placement.andThen delta ∧ delta.determinant ≠ 0)
    (hkept : ∀ b, doc.collection.get board = some b → moved board = false →
      (place b).info.placement = b.info.placement) :
    Document.Riding denote board id start outline (⟨doc.collection.modify (fun o =>
      Session.withDependents moved (fun job => Session.carryDependentJob job delta) (place o)) hid,
      doc.setup⟩ : Document E) := by
  intro o' ho'
  rw [ObjectCollection.get_modify, Option.map_eq_some_iff] at ho'
  obtain ⟨o, ho, rfl⟩ := ho'
  obtain ⟨b, hb, hrides⟩ := h o ho
  refine ⟨_, ?_, hrides.withDependents hmoves (hpayload o) (hmoved b hb) (hkept b hb)⟩
  rw [ObjectCollection.get_modify, hb, Option.map_some]

theorem riding_setObjectPlacement (hmoves : ∀ region (m : Affine K), m.determinant ≠ 0 →
      denote (E.transform region m) = m.apply '' denote region) {doc : Document E}
    (hrigid : doc.Rigid) (h : doc.Riding denote board id start outline) {target : ObjectId}
    {object : Object K (ObjectPayload E)} (hget : doc.collection.get target = some object)
    {placement : Affine K} (hplacement : placement.isRigid = true) :
    Document.Riding denote board id start outline
      (⟨Session.setObjectPlacement doc.collection target placement, doc.setup⟩ : Document E) := by
  obtain ⟨inv, hinv, hdet⟩ := Affine.exists_inverse
    (hrigid object (ObjectCollection.get_eq_some_iff.1 hget).1)
  have hdelta : (inv.andThen placement).determinant ≠ 0 := by
    rw [Affine.determinant_andThen]
    exact mul_ne_zero hdet (by linarith [Affine.half_lt_determinant hplacement])
  unfold Session.setObjectPlacement ObjectCollection.modifyId
  rw [hget, Option.bind_some, hinv]
  dsimp only [Option.map_some]
  rw [ObjectCollection.modify_modify]
  refine h.modify hmoves (fun src => decide (src = target)) (fun o => if o.info.id = target then
    { o with info := { o.info with placement := placement } } else o) _ (fun o => ?_)
    (fun b hb hboard => ?_) fun b hb hboard => ?_
  · split
    · rfl
    · rfl
  · obtain rfl := of_decide_eq_true hboard
    obtain rfl := Option.some.inj (hget.symm.trans hb)
    rw [if_pos (ObjectCollection.get_eq_some_iff.1 hb).2, ← Affine.andThen_assoc,
      (Affine.andThen_inverse hinv).1, Affine.identity_andThen]
    exact ⟨rfl, hdelta⟩
  · rw [if_neg]
    rw [(ObjectCollection.get_eq_some_iff.1 hb).2]
    exact of_decide_eq_false hboard

omit [LinearOrder K] [IsStrictOrderedRing K] in
theorem riding_shiftMembers (hmoves : ∀ region (m : Affine K), m.determinant ≠ 0 →
      denote (E.transform region m) = m.apply '' denote region) {doc : Document E}
    (h : doc.Riding denote board id start outline) (members : List ObjectId) (dx dy : K) :
    Document.Riding denote board id start outline
      (⟨Session.shiftMembers doc.collection members (.translate dx dy), doc.setup⟩ :
        Document E) := by
  refine h.modify hmoves (fun src => decide (src ∈ members)) (fun o => if o.info.id ∈ members then
    { o with info := { o.info with placement := o.info.placement.andThen (.translate dx dy) } }
    else o) _ (fun o => ?_) (fun b hb hboard => ?_) fun b hb hboard => ?_
  · split
    · rfl
    · rfl
  · rw [if_pos ((ObjectCollection.get_eq_some_iff.1 hb).2 ▸ of_decide_eq_true hboard),
      Affine.determinant_translate]
    exact ⟨rfl, one_ne_zero⟩
  · rw [if_neg ((ObjectCollection.get_eq_some_iff.1 hb).2 ▸ of_decide_eq_false hboard)]

/-! ## Runs of moves -/

/-- The operations that move objects, and undo and redo. -/
inductive SessionOp.Moves : SessionOp E → Prop
  | setPlacement (id : ObjectId) (placement : Affine K) : Moves (.setPlacement id placement)
  | translateObject (id : ObjectId) (dx dy : K) : Moves (.translateObject id dx dy)
  | moveGroup (anchor : ObjectId) (dx dy : K) (newEdit : Bool) :
    Moves (.moveGroup anchor dx dy newEdit)
  | undo : Moves .undo
  | redo : Moves .redo

namespace Session

theorem riding_setPlacement (hmoves : ∀ region (m : Affine K), m.determinant ≠ 0 →
      denote (E.transform region m) = m.apply '' denote region) {s : Session E}
    (hrigid : s.history.All Document.Rigid)
    (h : s.history.All (Document.Riding denote board id start outline)) (target : ObjectId)
    (placement : Affine K) :
    (s.setPlacement target placement).2.history.All
      (Document.Riding denote board id start outline) := by
  unfold Session.setPlacement Document.object
  cases hget : s.doc.collection.get target with
  | none => exact h
  | some object =>
    dsimp only
    split
    · exact h
    · rename_i hplacement
      rw [Bool.not_eq_true', Bool.not_eq_false] at hplacement
      split
      · exact h
      · show ((s.history.edit fun c => ((), setObjectPlacement c target placement)).2).All _
        refine h.edit ?_
        exact riding_setObjectPlacement hmoves hrigid.present h.present hget hplacement

/-- **Every move takes the cutout along with its board.** -/
theorem riding_step (hmoves : ∀ region (m : Affine K), m.determinant ≠ 0 →
      denote (E.transform region m) = m.apply '' denote region) {s : Session E}
    (hrigid : s.history.All Document.Rigid)
    (h : s.history.All (Document.Riding denote board id start outline)) {op : SessionOp E}
    (hop : op.Moves) :
    (s.step op).2.history.All (Document.Riding denote board id start outline) := by
  cases hop with
  | setPlacement target placement => exact riding_setPlacement hmoves hrigid h target placement
  | translateObject target dx dy =>
    show (s.translateObject target dx dy).2.history.All _
    unfold Session.translateObject
    split
    · exact h
    · exact riding_setPlacement hmoves hrigid h target _
  | moveGroup anchor dx dy newEdit =>
    show (s.moveGroup anchor dx dy newEdit).2.history.All _
    unfold Session.moveGroup
    split
    · exact h
    · have hshifted := riding_shiftMembers hmoves h.present (s.moveSet anchor) dx dy
      cases newEdit with
      | true =>
        show ((s.history.edit fun c =>
          ((), shiftMembers c (s.moveSet anchor) (.translate dx dy))).2).All _
        refine h.edit ?_
        exact hshifted
      | false =>
        show ((s.history.amend fun c =>
          ((), shiftMembers c (s.moveSet anchor) (.translate dx dy))).2).All _
        refine h.amend ?_
        exact hshifted
  | undo => exact h.undo
  | redo => exact h.redo

theorem riding_run (hmoves : ∀ region (m : Affine K), m.determinant ≠ 0 →
      denote (E.transform region m) = m.apply '' denote region) {s : Session E}
    (hrigid : s.history.All Document.Rigid)
    (h : s.history.All (Document.Riding denote board id start outline)) {ops : List (SessionOp E)}
    (hops : ∀ op ∈ ops, op.Moves) :
    (s.run ops).history.All (Document.Riding denote board id start outline) := by
  induction ops generalizing s with
  | nil => exact h
  | cons op ops ih =>
    obtain ⟨hop, hops⟩ := List.forall_mem_cons.1 hops
    refine ih ?_ (riding_step hmoves hrigid h hop) hops
    exact (s.step_advances op).all (fun _ _ hfollows hdoc => hdoc.of_follows hfollows) hrigid

omit [LinearOrder K] [IsStrictOrderedRing K] in
/-- What is added comes behind the objects, under the next identifier. -/
theorem add_eq {s s' : Session E} {name : String} {payload : ObjectPayload E}
    (h : s.add name payload = (.ok id, s')) :
    id = s.collection.nextId ∧ ∃ c : Objects E,
      c.objects = s.collection.objects ++ [⟨⟨id, name, .identity, true⟩, payload⟩]
        ∧ s'.history = { s.history.snapshot with present := ⟨c, s.doc.setup⟩ } := by
  unfold Session.add at h
  split at h
  · cases h
  · rename_i hname
    have hadd : ∀ c : Objects E, (c.byName name).isSome = false →
        (c.add ⟨0, name, .identity, true⟩ payload).1 = .ok c.nextId
          ∧ (c.add ⟨0, name, .identity, true⟩ payload).2.objects
            = c.objects ++ [⟨⟨c.nextId, name, .identity, true⟩, payload⟩] := by
      intro c hfree
      unfold ObjectCollection.add
      rw [if_neg (by rw [hfree]; exact Bool.false_ne_true)]
      exact ⟨rfl, rfl⟩
    obtain ⟨hok, hobjects⟩ := hadd s.collection (Bool.eq_false_of_not_eq_true hname)
    obtain ⟨hid, rfl⟩ := Prod.mk.inj h
    have hid' : ((s.collection.add ⟨0, name, .identity, true⟩ payload).1.mapError
      ScriptError.project : Except (ScriptError E) ObjectId) = .ok id := hid
    rw [hok] at hid'
    obtain rfl := Except.ok.inj hid'
    exact ⟨rfl, _, hobjects, rfl⟩

/-- A cutout that was just made lies where its board lies, and no document before knows of it. -/
theorem riding_cutout {s s' : Session E} (hordered : Ordered s.history) {spec : CutoutSpec E}
    {job : E.IsolationJob} {b : Object K (ObjectPayload E)}
    (hboard : s.collection.get board = some b)
    (hcutout : s.cutout spec job (some board) = (.ok id, s')) :
    s'.history.All (Document.Riding denote board id b.info.placement spec.outline) := by
  unfold Session.cutout at hcutout
  split at hcutout
  · cases hcutout
  · rename_i program hprogram
    obtain ⟨rfl, c, hobjects, hhistory⟩ := add_eq hcutout
    have hbefore : ∀ doc : Document E, doc.collection.nextId ≤ s.collection.nextId →
        doc.Riding denote board s.collection.nextId b.info.placement spec.outline := by
      intro doc hnext o ho
      obtain ⟨hmem, hid⟩ := ObjectCollection.get_eq_some_iff.1 ho
      exact absurd (doc.collection.below o hmem) (not_lt.2 (hid ▸ hnext))
    -- What could be redone is dropped, and so only the documents behind the cutout matter.
    have hall : History.All
        (Document.Riding denote board s.collection.nextId b.info.placement spec.outline)
        { s.history with future := [] } :=
      ⟨hbefore _ le_rfl,
        fun doc hdoc => hbefore doc ((List.pairwise_cons.1 hordered.past).1 doc hdoc),
        fun doc hdoc => absurd hdoc List.not_mem_nil⟩
    rw [hhistory]
    refine hall.snapshot fun o ho => ⟨b, ?_, ?_⟩
    · obtain ⟨hmem, hid⟩ := ObjectCollection.get_eq_some_iff.1 hboard
      refine ObjectCollection.get_eq_some_iff.2 ⟨?_, hid⟩
      rw [hobjects]
      exact List.mem_append_left _ hmem
    · obtain ⟨hmem, hid⟩ := ObjectCollection.get_eq_some_iff.1 ho
      rw [hobjects] at hmem
      rcases List.mem_append.1 hmem with hmem | hmem
      · exact absurd hid (s.collection.below o hmem).ne
      · rw [List.mem_singleton.1 hmem]
        exact ⟨_, spec, .identity, rfl, rfl, rfl, rfl, Affine.andThen_identity _,
          by rw [Affine.determinant_identity]; exact one_ne_zero, .identity _⟩

/-- **The law of registration**: the outline that the cutout keeps denotes the image of the one it
was made with, under the motion that led the board from where it lay to where it lies. -/
def Registered (denote : E.Region → Set (K × K)) (board id : ObjectId) (start : Affine K)
    (outline : CutoutOutlineSpec E) (s : Session E) : Prop :=
  ∀ o, s.collection.get id = some o → ∃ b motion job spec, s.collection.get board = some b
    ∧ start.andThen motion = b.info.placement ∧ o.payload = .cncJob job
    ∧ job.operation = .cutout spec
    ∧ spec.outline.denotes denote = motion.apply '' outline.denotes denote

/-- **A cutout stays registered to its board, in every run of moves, just when the motion of the
board skews no side of the outline.** -/
theorem registered_iff (hmoves : ∀ region (m : Affine K), m.determinant ≠ 0 →
      denote (E.transform region m) = m.apply '' denote region)
    {before after : List (SessionOp E)} (hafter : ∀ op ∈ after, op.Moves) {spec : CutoutSpec E}
    {job : E.IsolationJob} {b : Object K (ObjectPayload E)} {s : Session E}
    (hboard : ((new : Session E).run before).collection.get board = some b)
    (hcutout : ((new : Session E).run before).cutout spec job (some board) = (.ok id, s)) :
    Registered denote board id b.info.placement spec.outline (s.run after)
      ↔ ∀ o b' motion, (s.run after).collection.get id = some o →
        (s.run after).collection.get board = some b' →
        b.info.placement.andThen motion = b'.info.placement → spec.outline.Carries motion := by
  have hrigid : ((new : Session E).run before).history.All Document.Rigid :=
    all_run (fun o ho => absurd ho List.not_mem_nil)
      (fun _ _ hfollows hdoc => hdoc.of_follows hfollows) before
  have hmade : (((new : Session E).run before).step (.cutout spec job (some board))).2 = s :=
    congrArg Prod.snd hcutout
  have hrigid' : s.history.All Document.Rigid := by
    rw [← hmade]
    exact (step_advances _ _).all (fun _ _ hfollows hdoc => hdoc.of_follows hfollows) hrigid
  have hriding := (riding_run hmoves hrigid'
    (riding_cutout (ordered_run before) hboard hcutout) hafter).present
  have hunique : ∀ {m m' : Affine K}, b.info.placement.andThen m = b.info.placement.andThen m' →
      m = m' := Affine.andThen_left_cancel
    (hrigid.present b (ObjectCollection.get_eq_some_iff.1 hboard).1)
  constructor
  · intro hregistered o b' motion ho hb' hmotion
    obtain ⟨b₁, hb₁, cut, spec₁, m, hcut, -, -, hspec, hm, hdet, hmoved⟩ := hriding o ho
    obtain ⟨b₂, m', cut', spec₂, hb₂, hm', hcut', hspec', hdenotes⟩ := hregistered o ho
    obtain rfl := Option.some.inj (hb'.symm.trans hb₁)
    obtain rfl := Option.some.inj (hb'.symm.trans hb₂)
    obtain rfl := ObjectPayload.cncJob.inj (hcut.symm.trans hcut')
    obtain rfl := CamOperation.cutout.inj (hspec.symm.trans hspec')
    obtain rfl := hunique (hm.trans hm'.symm)
    obtain rfl := hunique (hm.trans hmotion.symm)
    exact (hmoved.denotes_iff hdet).1 hdenotes
  · intro hcarries o ho
    obtain ⟨b', hb', cut, spec', m, hcut, -, -, hspec, hm, hdet, hmoved⟩ := hriding o ho
    exact ⟨b', m, cut, spec', hb', hm, hcut, hspec,
      (hmoved.denotes_iff hdet).2 (hcarries o b' m ho hb' hm)⟩

end Session

end Order

end Riding

/-! ## Boards that turn -/

/-- An engine whose regions are sets of points. -/
def Engine.plane : Engine ℚ where
  Region := Set (ℚ × ℚ)
  Polylines := Unit
  ExcellonImage := Unit
  IsolationSpec := Unit
  DrillSpec := Unit
  PaintSpec := Unit
  NonCopperSpec := Unit
  CutoutParams := Unit
  PanelizeSpec := Unit
  MirrorLineSpec := Unit
  IsolationJob := Unit
  DrillJob := Unit
  Toolpaths := Unit
  DrillPlan := Unit
  Program := String
  Fault := Empty
  parseGerber _ := .ok ∅
  parseExcellon _ := .ok ()
  importSvg _ := .ok (∅, ())
  importDxf _ := .ok (∅, ())
  importGcode _ := .ok (∅, ())
  transform region map := map.apply '' region
  placeHits _ _ := ()
  bounds _ := none
  isolate _ _ := .ok ()
  planDrilling _ _ := .ok ()
  paint _ _ := .ok ()
  clearNoncopper _ _ := .ok ()
  cutoutRectangle _ _ _ := .ok ()
  cutoutGeometry _ _ := .ok ()
  noPolylines := ()
  panelize region _ := .ok region
  mirror region _ := region
  isolationTool _ := 1 / 5
  paintTool _ := 1 / 5
  nonCopperTool _ := 1 / 5
  cutoutTool _ := 2
  toolNote _ := ""
  drillToolsNote _ := none
  registered name := name == "grbl" || name == "generic"
  emitIsolation _ _ _ dialect _ := dialect
  emitDrilling _ _ _ dialect _ := dialect

/-- A turn whose sine and cosine are fractions. -/
def turn : Affine ℚ := ⟨3 / 5, -4 / 5, 0, 4 / 5, 3 / 5, 0⟩

/-- A board with a cutout about a rectangle. -/
def cutBoard : Session Engine.plane :=
  (((Session.new : Session Engine.plane).run [.openGerberStr "board" "M02*"]).cutout
    ⟨.rectangle (0, 0) (10, 5), ()⟩ () (some 1)).2

/-- A shift, and what takes it back and on again. -/
def shiftedTwice : List (SessionOp Engine.plane) := [.moveGroup 1 3 4 true, .undo, .redo]

theorem moves_shiftedTwice : ∀ op ∈ shiftedTwice, op.Moves := by
  intro op hop
  unfold shiftedTwice at hop
  simp only [List.mem_cons, List.not_mem_nil, or_false] at hop
  rcases hop with rfl | rfl | rfl
  · exact .moveGroup 1 3 4 true
  · exact .undo
  · exact .redo

/-- The law at a board that is shifted. -/
theorem registered_iff_shifted :
    Session.Registered (fun region : Set (ℚ × ℚ) => region) 1 2 .identity
        (.rectangle (0, 0) (10, 5) : CutoutOutlineSpec Engine.plane) (cutBoard.run shiftedTwice)
      ↔ ∀ o b motion, (cutBoard.run shiftedTwice).collection.get 2 = some o →
        (cutBoard.run shiftedTwice).collection.get 1 = some b →
        Affine.identity.andThen motion = b.info.placement →
        (.rectangle (0, 0) (10, 5) : CutoutOutlineSpec Engine.plane).Carries motion :=
  @Session.registered_iff ℚ Engine.plane _ _ _ (fun region : Set (ℚ × ℚ) => region) 1 2
    (fun _ _ _ => rfl) [.openGerberStr "board" "M02*"] shiftedTwice moves_shiftedTwice
    ⟨.rectangle (0, 0) (10, 5), ()⟩ ()
    ⟨⟨1, "board", .identity, true⟩, .gerber "M02*" (some (∅ : Set (ℚ × ℚ)))⟩ cutBoard rfl rfl

/-- The board is turned, and the corners of the rectangle with it. -/
theorem turned_cutBoard : ∃ o b job, (cutBoard.setPlacement 1 turn).2.collection.get 2 = some o
    ∧ (cutBoard.setPlacement 1 turn).2.collection.get 1 = some b ∧ b.info.placement = turn
    ∧ o.payload = .cncJob job
    ∧ job.operation = .cutout ⟨.rectangle (turn.apply (0, 0)) (turn.apply (10, 5)), ()⟩ := by
  have hrigid : turn.isRigid = true := by decide +kernel
  have hmoves : Affine.identity ≠ turn := by decide +kernel
  have hinverse : (Affine.identity : Affine ℚ).inverse = some .identity := by decide +kernel
  have hobject : cutBoard.doc.object 1
      = .ok ⟨⟨1, "board", .identity, true⟩, .gerber "M02*" (some (∅ : Set (ℚ × ℚ)))⟩ := rfl
  have hplaced : (cutBoard.setPlacement 1 turn).2
      = (cutBoard.edit fun c => ((), Session.setObjectPlacement c 1 turn)).2 := by
    unfold Session.setPlacement
    rw [hobject]
    dsimp only
    rw [hrigid, if_neg (by decide), if_neg hmoves]
  have hcarried : Session.setObjectPlacement cutBoard.collection 1 turn
      = (cutBoard.collection.modifyId 1
          (fun o => { o with info := { o.info with placement := turn } }) fun _ => rfl).modify
        (Session.withDependents (· = 1) fun job => Session.carryDependentJob job turn)
        fun o => by rw [Session.withDependents_info] := by
    unfold Session.setObjectPlacement
    have hget : cutBoard.collection.get 1
      = some ⟨⟨1, "board", .identity, true⟩, .gerber "M02*" (some (∅ : Set (ℚ × ℚ)))⟩ := rfl
    rw [hget, Option.bind_some, hinverse, Option.map_some, Affine.identity_andThen]
  rw [hplaced]
  show ∃ o b job, (Session.setObjectPlacement cutBoard.collection 1 turn).get 2 = some o
    ∧ (Session.setObjectPlacement cutBoard.collection 1 turn).get 1 = some b ∧ _
  rw [hcarried]
  exact ⟨_, _, _, rfl, rfl, rfl, rfl, rfl⟩

/-- A rectangle about a board that is turned is no longer about the board. -/
theorem not_registered_turned :
    ¬ ∀ (before after : List (SessionOp Engine.plane)) board id spec job b s,
      (∀ op ∈ after, op.Moves) →
      ((Session.new : Session Engine.plane).run before).collection.get board = some b →
      ((Session.new : Session Engine.plane).run before).cutout spec job (some board)
        = (.ok id, s) →
      Session.Registered (fun region : Set (ℚ × ℚ) => region) board id b.info.placement spec.outline
        (s.run after) := by
  intro h
  have hregistered := h [.openGerberStr "board" "M02*"] [.setPlacement 1 turn] 1 2
    ⟨.rectangle (0, 0) (10, 5), ()⟩ () _ cutBoard
    (fun op hop => by rw [List.mem_singleton.1 hop]; exact .setPlacement 1 turn) rfl rfl
  obtain ⟨o, b, job, ho, hb, hplacement, hjob, hspec⟩ := turned_cutBoard
  obtain ⟨b', motion, job', spec, hb', hmotion, hjob', hspec', hdenotes⟩ := hregistered o ho
  obtain rfl := Option.some.inj (hb.symm.trans hb')
  obtain rfl := ObjectPayload.cncJob.inj (hjob.symm.trans hjob')
  obtain rfl := CamOperation.cutout.inj (hspec.symm.trans hspec')
  have hmotion' : motion = turn := by
    rw [hplacement] at hmotion
    exact (Affine.identity_andThen motion).symm.trans hmotion
  rw [hmotion'] at hdenotes
  -- The corner at (10, 0) is taken to (6, 8), to the right of both carried corners.
  have hcorner : turn.apply (10, 0) ∈ Set.uIcc (turn.apply (0, 0)) (turn.apply (10, 5)) := by
    have hinside : ((10, 0) : ℚ × ℚ) ∈ Set.uIcc (0, 0) (10, 5) := by
      rw [Affine.mem_uIcc_iff]
      norm_num
    have himage : Set.uIcc (turn.apply (0, 0)) (turn.apply (10, 5))
      = turn.apply '' Set.uIcc (0, 0) (10, 5) := hdenotes
    rw [himage]
    exact Set.mem_image_of_mem turn.apply hinside
  rw [Affine.mem_uIcc_iff] at hcorner
  norm_num [turn, Affine.apply] at hcorner

end Galdr.Project
