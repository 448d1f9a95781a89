import Galdr.CamSession

/-!
# What an operation does to the history

Whatever an operation of a session computes, it does one of four things to the history: it puts
a document on the present behind a snapshot, it replaces the present, it goes back, or it goes
on (`Session.step_advances`). The document that it puts there follows from the one before it:
the objects are those of before, a job possibly made anew or flagged, and one more at most, which
the engine just made; identifiers are handed out upwards; and the setup is that of before, or
one that a stock or a point defines (`Follows`). What is to hold of every document of every run
is therefore shown for one document that follows another.
-/

namespace Galdr.Project

variable {K : Type} {E : Engine K}

/-! ## Documents that follow one another -/

/-- What the engine makes of a source is kept beside it. -/
def ObjectPayload.Parsed : ObjectPayload E → Prop
  | .gerber source image => ∃ copper, E.parseGerber source = .ok copper ∧ image = some copper
  | .excellon source image => ∃ hits, E.parseExcellon source = .ok hits ∧ image = some hits
  | .geometry _ _ => True
  | .cncJob _ => True

/-- A job has no source to parse. -/
theorem ObjectPayload.parsed_of_kind {payload : ObjectPayload E} (h : payload.kind = .cncJob) :
    payload.Parsed := by
  cases payload with
  | cncJob job => exact trivial
  | _ => cases h

section Documents

variable [Field K] [LinearOrder K]

/-- An object that came from another: it has the identifier of the other, it lies rigidly if the
other did, and it is what the other was, or a job. -/
structure Object.Keeps (o o' : Object K (ObjectPayload E)) : Prop where
  id : o'.info.id = o.info.id
  rigid : o.info.placement.isRigid = true → o'.info.placement.isRigid = true
  payload : o'.payload = o.payload ∨ o'.payload.kind = .cncJob

/-- An object that has just been added to a collection. -/
structure Object.Fresh (c : Objects E) (o : Object K (ObjectPayload E)) : Prop where
  id : c.nextId ≤ o.info.id
  placement : o.info.placement = .identity
  parsed : o.payload.Parsed

/-- The objects of one collection came from another's, or have just been added to it. -/
structure Evolves (c c' : Objects E) : Prop where
  nextId : c.nextId ≤ c'.nextId
  object : ∀ o' ∈ c'.objects, (∃ o ∈ c.objects, o.Keeps o') ∨ o'.Fresh c

/-- A setup that a stock or a point defines. -/
def WorkSetup.Derived (setup : WorkSetup K) : Prop :=
  (∃ stock, setup = .fromStock stock) ∨ ∃ x y, setup = .point x y

/-- One document follows another. -/
structure Follows (doc doc' : Document E) : Prop where
  collection : Evolves doc.collection doc'.collection
  setup : doc'.setup = doc.setup ∨ doc'.setup.Derived

theorem Object.Keeps.refl (o : Object K (ObjectPayload E)) : o.Keeps o :=
  ⟨rfl, fun h => h, .inl rfl⟩

namespace Evolves

variable {c : Objects E}

/-- Objects that are all of before. -/
theorem of_subset {c' : Objects E} (hnext : c'.nextId = c.nextId)
    (hobjects : ∀ o ∈ c'.objects, o ∈ c.objects) : Evolves c c' where
  nextId := hnext.ge
  object o ho := .inl ⟨o, hobjects o ho, .refl o⟩

theorem refl (c : Objects E) : Evolves c c := of_subset rfl fun _ ho => ho

/-- Each object is changed. -/
theorem of_modify {f : Object K (ObjectPayload E) → Object K (ObjectPayload E)}
    (hf : ∀ o, (f o).info.id = o.info.id)
    (hkeeps : ∀ o : Object K (ObjectPayload E), o.Keeps (f o)) :
    Evolves c (c.modify f hf) where
  nextId := le_rfl
  object o' ho' := by
    obtain ⟨o, ho, rfl⟩ := List.mem_map.1 ho'
    exact .inl ⟨o, ho, hkeeps o⟩

/-- One object is changed. -/
theorem of_modifyId {id : ObjectId} {f : Object K (ObjectPayload E) → Object K (ObjectPayload E)}
    (hf : ∀ o, (f o).info.id = o.info.id)
    (hkeeps : ∀ o : Object K (ObjectPayload E), o.Keeps (f o)) :
    Evolves c (c.modifyId id f hf) := by
  refine of_modify _ fun o => ?_
  split
  · exact hkeeps o
  · exact .refl o

/-- One object is added. -/
theorem of_add (info : ObjectMeta K) (payload : ObjectPayload E)
    (hplacement : info.placement = .identity) (hparsed : payload.Parsed) :
    Evolves c (c.add info payload).2 := by
  unfold ObjectCollection.add
  split
  · exact refl c
  · refine ⟨Nat.le_succ _, fun o ho => ?_⟩
    rcases List.mem_append.1 ho with ho | ho
    · exact .inl ⟨o, ho, .refl o⟩
    · rw [List.mem_singleton.1 ho]
      exact .inr ⟨le_rfl, hplacement, hparsed⟩

end Evolves

/-- Jobs are changed, and nothing else. -/
theorem keeps_withDependents (moved : ObjectId → Bool) (f : CncJobObject E → CncJobObject E)
    (o : Object K (ObjectPayload E)) : o.Keeps (Session.withDependents moved f o) := by
  refine ⟨?_, ?_, ?_⟩
  · rw [Session.withDependents_info]
  · rw [Session.withDependents_info]
    exact fun h => h
  · exact (Session.withDependents_payload moved f o).imp Eq.symm And.right

/-- Objects that lie elsewhere, rigidly. -/
theorem Object.Keeps.placed {o o' : Object K (ObjectPayload E)} (h : o.Keeps o')
    {placement : Affine K} (hrigid : o.info.placement.isRigid = true → placement.isRigid = true) :
    o.Keeps { o' with info := { o'.info with placement := placement } } :=
  ⟨h.id, hrigid, h.payload⟩

theorem Object.Keeps.trans {o o' o'' : Object K (ObjectPayload E)} (h : o.Keeps o')
    (h' : o'.Keeps o'') : o.Keeps o'' where
  id := h'.id.trans h.id
  rigid ho := h'.rigid (h.rigid ho)
  payload := by
    rcases h'.payload with heq | hjob
    · rw [heq]
      exact h.payload
    · exact .inr hjob

/-- A translation keeps a rigid map rigid. -/
theorem Affine.isRigid_andThen_translate (m : Affine K) (dx dy : K) :
    (m.andThen (.translate dx dy)).isRigid = m.isRigid := by
  unfold Affine.isRigid Affine.determinant Affine.andThen Affine.translate
  simp only [one_mul, zero_mul, add_zero, zero_add]

theorem evolves_setObjectPlacement (c : Objects E) (id : ObjectId) {placement : Affine K}
    (hrigid : placement.isRigid = true) :
    Evolves c (Session.setObjectPlacement c id placement) := by
  unfold Session.setObjectPlacement ObjectCollection.modifyId
  have hplaced : ∀ o : Object K (ObjectPayload E), o.Keeps (if o.info.id = id then
      { o with info := { o.info with placement := placement } } else o) := by
    intro o
    split
    · exact (Object.Keeps.refl o).placed fun _ => hrigid
    · exact .refl o
  dsimp only
  split
  · rw [ObjectCollection.modify_modify]
    exact .of_modify _ fun o => (hplaced o).trans (keeps_withDependents _ _ _)
  · rw [ObjectCollection.modify_modify]
    exact .of_modify _ fun o => (hplaced o).trans (keeps_withDependents _ _ _)

theorem evolves_shiftMembers (c : Objects E) (members : List ObjectId) (dx dy : K) :
    Evolves c (Session.shiftMembers c members (.translate dx dy)) := by
  refine .of_modify _ fun o => ?_
  refine Object.Keeps.trans ?_ (keeps_withDependents _ _ _)
  split
  · exact (Object.Keeps.refl o).placed (Affine.isRigid_andThen_translate _ dx dy).trans
  · exact .refl o

theorem evolves_flagAllJobsStale (c : Objects E) : Evolves c (Session.flagAllJobsStale c) := by
  refine .of_modify _ fun o => ?_
  split
  · split
    · exact ⟨rfl, fun h => h, .inr rfl⟩
    · exact .refl o
  · exact .refl o

/-! ## Histories that follow one another -/

/-- What an operation does to a history. -/
inductive Advances (h : History (Objects E) (WorkSetup K)) :
    History (Objects E) (WorkSetup K) → Prop
  /-- A document is put on the present. -/
  | push (changed : Document E) (hfollows : Follows h.present changed) :
    Advances h { h.snapshot with present := changed }
  /-- The present is replaced, and no identifier is handed out. -/
  | replace (changed : Document E) (hfollows : Follows h.present changed)
    (hnext : changed.collection.nextId = h.present.collection.nextId) :
    Advances h { h with present := changed }
  /-- Back. -/
  | undo : Advances h h.undo.2
  /-- On. -/
  | redo : Advances h h.redo.2

namespace Advances

variable {h h' : History (Objects E) (WorkSetup K)}

theorem refl (h : History (Objects E) (WorkSetup K)) : Advances h h :=
  .replace h.present ⟨.refl _, .inl rfl⟩ rfl

theorem edit {R : Type} {mutate : Objects E → R × Objects E}
    (hevolves : Evolves h.present.collection (mutate h.present.collection).2) :
    Advances h (h.edit mutate).2 := .push _ ⟨hevolves, .inl rfl⟩

theorem amend {R : Type} {mutate : Objects E → R × Objects E}
    (hevolves : Evolves h.present.collection (mutate h.present.collection).2)
    (hnext : (mutate h.present.collection).2.nextId = h.present.collection.nextId) :
    Advances h (h.amend mutate).2 := by
  unfold History.amend
  dsimp only
  split
  · exact .replace _ ⟨hevolves, .inl rfl⟩ hnext
  · exact .push _ ⟨hevolves, .inl rfl⟩

/-- What holds of every document, and of one that follows another of which it holds, holds of
every document behind the operation. -/
theorem all (hadvances : Advances h h') {P : Document E → Prop}
    (hP : ∀ doc doc', Follows doc doc' → P doc → P doc') (hall : h.All P) : h'.All P := by
  cases hadvances with
  | push changed hfollows => exact hall.snapshot (hP _ _ hfollows hall.present)
  | replace changed hfollows => exact hall.replace (hP _ _ hfollows hall.present)
  | undo => exact hall.undo
  | redo => exact hall.redo

end Advances

/-! ### The order of the identifiers -/

/-- The documents that can be gone back to have handed out no more identifiers than the present,
and those that can be gone on to no fewer. -/
structure Ordered (h : History (Objects E) (WorkSetup K)) : Prop where
  past : (h.present :: h.past).Pairwise fun doc doc' =>
    doc'.collection.nextId ≤ doc.collection.nextId
  future : (h.present :: h.future).Pairwise fun doc doc' =>
    doc.collection.nextId ≤ doc'.collection.nextId

namespace Ordered

variable {h h' : History (Objects E) (WorkSetup K)}

omit [Field K] [LinearOrder K] in
theorem snapshot (hordered : Ordered h) {changed : Document E}
    (hnext : h.present.collection.nextId ≤ changed.collection.nextId) :
    Ordered { h.snapshot with present := changed } := by
  have hpast : (changed :: h.present :: h.past).Pairwise fun doc doc' : Document E =>
      doc'.collection.nextId ≤ doc.collection.nextId := by
    refine List.pairwise_cons.2 ⟨fun doc hdoc => ?_, hordered.past⟩
    rcases List.mem_cons.1 hdoc with rfl | hdoc
    · exact hnext
    · exact ((List.pairwise_cons.1 hordered.past).1 doc hdoc).trans hnext
  refine ⟨hpast.sublist (List.Sublist.cons_cons changed ?_), List.pairwise_singleton _ _⟩
  unfold History.snapshot
  dsimp only
  split
  · exact List.dropLast_sublist _
  · exact List.Sublist.refl _

omit [Field K] [LinearOrder K] in
theorem replace (hordered : Ordered h) {changed : Document E}
    (hnext : changed.collection.nextId = h.present.collection.nextId) :
    Ordered { h with present := changed } := by
  obtain ⟨hpast, hfuture⟩ := hordered
  rw [List.pairwise_cons, ← hnext] at hpast hfuture
  exact ⟨List.pairwise_cons.2 hpast, List.pairwise_cons.2 hfuture⟩

omit [Field K] [LinearOrder K] in
theorem undo (hordered : Ordered h) : Ordered h.undo.2 := by
  cases hundo : h.canUndo with
  | false => rwa [History.undo_of_not_canUndo hundo]
  | true =>
    obtain ⟨previous, past, hpast, heq⟩ := History.undo_eq hundo
    obtain ⟨hbefore, hfuture⟩ := hordered
    rw [hpast, List.pairwise_cons] at hbefore
    have hprevious := hbefore.1 previous List.mem_cons_self
    rw [heq]
    refine ⟨hbefore.2, List.pairwise_cons.2 ⟨fun doc hdoc => ?_, hfuture⟩⟩
    rcases List.mem_cons.1 hdoc with rfl | hdoc
    · exact hprevious
    · exact hprevious.trans ((List.pairwise_cons.1 hfuture).1 doc hdoc)

omit [Field K] [LinearOrder K] in
theorem redo (hordered : Ordered h) : Ordered h.redo.2 := by
  cases hredo : h.canRedo with
  | false => rwa [History.redo_of_not_canRedo hredo]
  | true =>
    obtain ⟨next, future, hfuture, heq⟩ := History.redo_eq hredo
    obtain ⟨hpast, hbehind⟩ := hordered
    rw [hfuture, List.pairwise_cons] at hbehind
    have hnext := hbehind.1 next List.mem_cons_self
    rw [heq]
    refine ⟨List.pairwise_cons.2 ⟨fun doc hdoc => ?_, hpast⟩, hbehind.2⟩
    rcases List.mem_cons.1 hdoc with rfl | hdoc
    · exact hnext
    · exact ((List.pairwise_cons.1 hpast).1 doc hdoc).trans hnext

/-- **Identifiers are handed out upwards, back and on as well.** -/
theorem advances (hordered : Ordered h) (hadvances : Advances h h') : Ordered h' := by
  cases hadvances with
  | push changed hfollows => exact hordered.snapshot hfollows.collection.nextId
  | replace changed hfollows hnext => exact hordered.replace hnext
  | undo => exact hordered.undo
  | redo => exact hordered.redo

end Ordered

/-! ## Every operation -/

namespace Session

variable {s : Session E}

theorem advances_add {name : String} {payload : ObjectPayload E} (hparsed : payload.Parsed) :
    Advances s.history (s.add name payload).2.history := by
  unfold Session.add
  split
  · exact .refl _
  · show Advances s.history (s.history.edit fun c => c.add ⟨0, name, .identity, true⟩ payload).2
    exact .edit (.of_add _ _ rfl hparsed)

theorem advances_addParsed {T : Type} {name : String} {parsed : Except E.Fault T}
    {payload : T → ObjectPayload E}
    (hparsed : ∀ value, parsed = .ok value → (payload value).Parsed) :
    Advances s.history (s.addParsed name parsed payload).2.history := by
  unfold Session.addParsed
  split
  · exact .refl _
  · rename_i value
    exact advances_add (hparsed value rfl)

theorem advances_storeGeometry {polygons : Except (ScriptError E) E.Region} {source : ObjectId}
    {suffix : String} :
    Advances s.history (s.storeGeometry polygons source suffix).2.history := by
  unfold Session.storeGeometry
  split
  · exact .refl _
  · split
    · exact .refl _
    · exact advances_add trivial

theorem advances_storeDerived {program : Except (ScriptError E) E.Program} {source : ObjectId}
    {operation : CamOperation E} {suffix : String} {emission : JobEmission E} :
    Advances s.history (s.storeDerived program source operation suffix emission).2.history := by
  unfold Session.storeDerived
  split
  · exact .refl _
  · split
    · exact .refl _
    · exact advances_add trivial

theorem advances_commitSetup {setup : WorkSetup K} (coalesce : Bool) (hderived : setup.Derived) :
    Advances s.history (s.commitSetup setup coalesce).history := by
  unfold Session.commitSetup
  split
  · exact .refl _
  · unfold History.commitSetup
    dsimp only
    have hfollows : Follows s.history.present
        ⟨flagAllJobsStale s.history.present.collection, setup⟩ :=
      ⟨evolves_flagAllJobsStale _, .inr hderived⟩
    split
    · exact .replace _ hfollows rfl
    · exact .push _ hfollows

theorem advances_setPlacement (id : ObjectId) (placement : Affine K) :
    Advances s.history (s.setPlacement id placement).2.history := by
  unfold Session.setPlacement
  split
  · exact .refl _
  · split
    · exact .refl _
    · rename_i hrigid
      rw [Bool.not_eq_true', Bool.not_eq_false] at hrigid
      split
      · exact .refl _
      · show Advances s.history
          (s.history.edit fun c => ((), setObjectPlacement c id placement)).2
        exact .edit (evolves_setObjectPlacement _ _ hrigid)

/-- **What an operation does to the history.** -/
theorem step_advances (s : Session E) (op : SessionOp E) :
    Advances s.history (s.step op).2.history := by
  cases op with
  | openGerberStr name source => exact advances_addParsed fun value h => ⟨value, h, rfl⟩
  | openExcellonStr name source => exact advances_addParsed fun value h => ⟨value, h, rfl⟩
  | importSvgStr | importDxfStr | importGcodeStr => exact advances_addParsed fun _ _ => trivial
  | rename id newName =>
    show Advances s.history (s.history.edit fun c => c.rename id newName).2
    refine .edit ?_
    rcases s.history.present.collection.rename_cases id newName with hsame | hrenamed
    · rw [hsame]
      exact .refl _
    · rw [hrenamed]
      exact .of_modifyId _ fun o => ⟨rfl, fun h => h, .inl rfl⟩
  | setVisible id visible =>
    show Advances s.history (s.setVisible id visible).2.history
    unfold Session.setVisible
    split
    · exact .refl _
    · split
      · exact .refl _
      · show Advances s.history (s.history.edit fun c => ((), c.modifyId id
          (fun o => { o with info := { o.info with visible := visible } }) fun _ => rfl)).2
        exact .edit (.of_modifyId (by intro o; rfl) fun o => ⟨rfl, fun h => h, .inl rfl⟩)
  | delete id =>
    show Advances s.history (s.delete id).2.history
    have hhistory : (s.delete id).2.history = (s.history.edit fun c => c.remove id).2 := by
      unfold Session.delete
      dsimp only
      split
      · rfl
      · rfl
    rw [hhistory]
    exact .edit (.of_subset (ObjectCollection.nextId_remove _ _) fun o =>
      ObjectCollection.mem_of_remove)
  | reorder id index =>
    show Advances s.history (s.history.edit fun c => c.reorder id index).2
    exact .edit (.of_subset (ObjectCollection.nextId_reorder _ _ _) fun o =>
      ObjectCollection.mem_of_reorder)
  | createGroup name =>
    show Advances s.history (s.history.edit fun c => c.createGroup name).2
    refine .edit (.of_subset (ObjectCollection.nextId_createGroup _ _) fun o ho => ?_)
    rwa [ObjectCollection.objects_createGroup] at ho
  | addToGroup group id =>
    show Advances s.history (s.history.edit fun c => c.addToGroup group id).2
    refine .edit (.of_subset (ObjectCollection.nextId_addToGroup _ _ _) fun o ho => ?_)
    rwa [ObjectCollection.objects_addToGroup] at ho
  | addToImportGroup id =>
    show Advances s.history (s.addToImportGroup id).2.history
    unfold Session.addToImportGroup
    split
    · exact .refl _
    · have hgrouped : ∀ c : Objects E, (if c.hasGroup importGroup then c
          else (c.createGroup importGroup).2).nextId = c.nextId
          ∧ (if c.hasGroup importGroup then c
            else (c.createGroup importGroup).2).objects = c.objects := by
        intro c
        split
        · exact ⟨rfl, rfl⟩
        · exact ⟨c.nextId_createGroup _, c.objects_createGroup _⟩
      show Advances s.history (s.history.amend fun c => ((), ((if c.hasGroup importGroup then c
        else (c.createGroup importGroup).2).addToGroup importGroup id).2)).2
      refine .amend (.of_subset ?_ fun o ho => ?_) ?_
      · exact (ObjectCollection.nextId_addToGroup _ _ _).trans (hgrouped _).1
      · rwa [ObjectCollection.objects_addToGroup, (hgrouped _).2] at ho
      · exact (ObjectCollection.nextId_addToGroup _ _ _).trans (hgrouped _).1
  | setDialect name =>
    show Advances s.history (s.setDialect name).2.history
    unfold Session.setDialect
    split
    · exact .refl _
    · exact .refl _
  | setStock stock coalesce => exact advances_commitSetup coalesce (.inl ⟨stock, rfl⟩)
  | fitStockTo reference thickness coalesce =>
    show Advances s.history (s.fitStockTo reference thickness coalesce).2.history
    unfold Session.fitStockTo
    split
    · exact .refl _
    · exact advances_commitSetup coalesce (.inl ⟨_, rfl⟩)
  | setDatumPoint x y => exact advances_commitSetup false (.inr ⟨x, y, rfl⟩)
  | clearDatum => exact advances_commitSetup false (.inl ⟨none, rfl⟩)
  | setDatum origin reference =>
    show Advances s.history (s.setDatum origin reference).2.history
    unfold Session.setDatum
    split
    · exact .refl _
    · exact advances_commitSetup false (.inr ⟨_, _, rfl⟩)
  | setPlacement id placement => exact advances_setPlacement id placement
  | translateObject id dx dy =>
    show Advances s.history (s.translateObject id dx dy).2.history
    unfold Session.translateObject
    split
    · exact .refl _
    · exact advances_setPlacement _ _
  | moveGroup anchor dx dy newEdit =>
    show Advances s.history (s.moveGroup anchor dx dy newEdit).2.history
    unfold Session.moveGroup
    split
    · exact .refl _
    · cases newEdit with
      | true =>
        show Advances s.history (s.history.edit fun c =>
          ((), shiftMembers c (s.moveSet anchor) (.translate dx dy))).2
        exact .edit (evolves_shiftMembers _ _ _ _)
      | false =>
        show Advances s.history (s.history.amend fun c =>
          ((), shiftMembers c (s.moveSet anchor) (.translate dx dy))).2
        exact .amend (evolves_shiftMembers _ _ _ _) rfl
  | isolate | drill | paint | noncopper => exact advances_storeDerived
  | cutout spec job board =>
    show Advances s.history (s.cutout spec job board).2.history
    unfold Session.cutout
    split
    · exact .refl _
    · exact advances_add trivial
  | panelize | mirror | transform => exact advances_storeGeometry
  | rebuildJob id =>
    show Advances s.history (s.rebuildJob id).2.history
    unfold Session.rebuildJob
    split
    · exact .refl _
    · split
      · split
        · exact .refl _
        · split
          · exact .refl _
          · rename_i job _ _ emission _ _ program _
            show Advances s.history (s.history.edit fun c => ((), c.modifyId id
              (fun o => { o with payload := .cncJob (.fromProgram program s.dialect job.source
                job.operation (s.doc.setup.origin.1, s.doc.setup.origin.2.1) (some emission)) })
              fun _ => rfl)).2
            exact .edit (.of_modifyId (by intro o; rfl) fun o => ⟨rfl, fun h => h, .inr rfl⟩)
      · exact .refl _
  | undo => exact .undo
  | redo => exact .redo

/-- What holds of an empty document, and of one that follows another of which it holds, holds of
every document of every run. -/
theorem all_run {P : Document E → Prop} (hnew : P ⟨.new, .default⟩)
    (hP : ∀ doc doc', Follows doc doc' → P doc → P doc') (ops : List (SessionOp E)) :
    ((new : Session E).run ops).history.All P := by
  have hrun : ∀ s : Session E, s.history.All P → (s.run ops).history.All P := by
    induction ops with
    | nil => exact fun s h => h
    | cons op ops ih => exact fun s h => ih _ ((s.step_advances op).all hP h)
  exact hrun new ⟨hnew, fun _ h => absurd h List.not_mem_nil, fun _ h => absurd h List.not_mem_nil⟩

/-- The identifiers are ordered in every run. -/
theorem ordered_run (ops : List (SessionOp E)) : Ordered ((new : Session E).run ops).history := by
  have hrun : ∀ s : Session E, Ordered s.history → Ordered (s.run ops).history := by
    induction ops with
    | nil => exact fun s h => h
    | cons op ops ih => exact fun s h => ih _ (h.advances (s.step_advances op))
  exact hrun new ⟨List.pairwise_singleton _ _, List.pairwise_singleton _ _⟩

end Session

end Documents

end Galdr.Project
