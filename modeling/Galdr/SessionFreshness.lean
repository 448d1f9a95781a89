import Galdr.SessionErrors
import Galdr.DocumentFreshness

/-!
# Stale jobs

In every document that a session holds, and in every one that it can go back or on to, a job
that is not flagged is current, since whatever changes an input of a job flags it
(`Session.Fresh.step`). To make such a job anew therefore changes nothing, as long as the
session posts in the dialect of the job. The dialect of the session is no input of a job that is
posted already, and so a job that is made anew may change where another dialect was chosen.
-/

namespace Galdr.Project

variable {K : Type} {E : Engine K}

/-! ## Sessions -/

namespace Session

variable [Field K] [LinearOrder K]

/-- Every document of the session is fresh. -/
def Fresh (s : Session E) : Prop := s.history.All Document.Fresh

theorem fresh_new : (new : Session E).Fresh :=
  ⟨⟨fun _ ho => absurd ho List.not_mem_nil, fun _ ho => absurd ho List.not_mem_nil⟩,
    fun _ ho => absurd ho List.not_mem_nil, fun _ ho => absurd ho List.not_mem_nil⟩

variable {s : Session E}

theorem Fresh.edit (h : s.Fresh) {R : Type} {mutate : Objects E → R × Objects E}
    (hmutate : Document.Fresh (⟨(mutate s.collection).2, s.doc.setup⟩ : Document E)) :
    (s.edit mutate).2.Fresh := History.All.edit h hmutate

/-- A new object that is no job. -/
theorem Fresh.add (h : s.Fresh) {name : String} {payload : ObjectPayload E}
    (hjob : ∀ job, payload = .cncJob job →
      job.Sourced s.collection ∧ job.origin = (s.doc.setup.origin.1, s.doc.setup.origin.2.1)
        ∧ ∀ emission program, job.emission = some emission →
          s.doc.rebuildProgram job.dialect job.operation emission job.source = .ok program →
          job.gcode = program) :
    (s.add name payload).2.Fresh := by
  unfold Session.add
  split
  · exact h
  · show (s.edit fun c => c.add ⟨0, name, .identity, true⟩ payload).2.Fresh
    refine h.edit ?_
    exact h.present.of_add _ payload hjob

theorem Fresh.addParsed (h : s.Fresh) {T : Type} {name : String} {parsed : Except E.Fault T}
    {payload : T → ObjectPayload E} (hpayload : ∀ value job, payload value ≠ .cncJob job) :
    (s.addParsed name parsed payload).2.Fresh := by
  unfold Session.addParsed
  split
  · exact h
  · exact h.add fun job hjob => absurd hjob (hpayload _ job)

theorem Fresh.storeGeometry (h : s.Fresh) {polygons : Except (ScriptError E) E.Region}
    {source : ObjectId} {suffix : String} :
    (s.storeGeometry polygons source suffix).2.Fresh := by
  unfold Session.storeGeometry
  split
  · exact h
  · split
    · exact h
    · exact h.add fun job hjob => by cases hjob

/-- A program that is stored as a job is the one that the job would be made anew with. -/
theorem Fresh.storeProgram (h : s.Fresh) {program : E.Program} {source : Option ObjectId}
    {operation : CamOperation E} {baseName : String} {emission : JobEmission E}
    (hprogram : s.doc.rebuildProgram s.dialect operation emission source = .ok program) :
    (s.storeProgram program source operation baseName (some emission)).2.Fresh := by
  refine h.add fun job hjob => ?_
  obtain rfl := ObjectPayload.cncJob.inj hjob
  refine ⟨?_, rfl, ?_⟩
  · rintro howns src rfl
    obtain ⟨o, ho⟩ := Document.get_of_rebuildProgram howns hprogram
    obtain ⟨hmem, rfl⟩ := ObjectCollection.get_eq_some_iff.1 ho
    exact s.collection.below o hmem
  · rintro emission' program' hsome hprogram'
    obtain rfl := Option.some.inj hsome
    exact Except.ok.inj (hprogram.symm.trans hprogram')

theorem Fresh.storeDerived (h : s.Fresh) {program : Except (ScriptError E) E.Program}
    {source : ObjectId} {operation : CamOperation E} {suffix : String} {emission : JobEmission E}
    (hprogram : s.doc.rebuildProgram s.dialect operation emission (some source) = program) :
    (s.storeDerived program source operation suffix emission).2.Fresh := by
  unfold Session.storeDerived
  split
  · exact h
  · split
    · exact h
    · exact h.storeProgram hprogram

theorem Fresh.commitSetup (h : s.Fresh) (setup : WorkSetup K) (coalesce : Bool) :
    (s.commitSetup setup coalesce).Fresh := by
  unfold Session.commitSetup
  split
  · exact h
  · show History.All Document.Fresh
      (s.history.commitSetup coalesce fun c _ => ((), flagAllJobsStale c, setup)).2
    refine History.All.commitSetup h ?_
    exact h.present.of_flag setup

omit [LinearOrder K] in
theorem ownsOutline_carryDependentJob (job : CncJobObject E) (delta : Affine K) :
    (carryDependentJob job delta).operation.ownsOutline = job.operation.ownsOutline := by
  unfold carryDependentJob
  cases job.operation with
  | cutout spec => rfl
  | _ => rfl

theorem fresh_setObjectPlacement {doc : Document E} (h : doc.Fresh) (id : ObjectId)
    (placement : Affine K) :
    Document.Fresh (⟨setObjectPlacement doc.collection id placement, doc.setup⟩ : Document E) := by
  unfold setObjectPlacement ObjectCollection.modifyId
  have hplace : ∀ o : Object K (ObjectPayload E), decide (o.info.id = id) = false →
      (if o.info.id = id then { o with info := { o.info with placement := placement } } else o)
        = o := fun o ho => if_neg (of_decide_eq_false ho)
  have hpayload : ∀ o : Object K (ObjectPayload E),
      (if o.info.id = id then { o with info := { o.info with placement := placement } }
        else o).payload = o.payload := fun o => by split <;> rfl
  dsimp only
  split
  · rename_i delta hdelta
    rw [ObjectCollection.modify_modify]
    exact h.of_move (fun src => decide (src = id)) (fun job => carryDependentJob job delta)
      (fun job => ⟨rfl, rfl, ownsOutline_carryDependentJob job delta⟩) hpayload hplace _
  · rw [ObjectCollection.modify_modify]
    exact h.of_move (fun src => decide (src = id)) (fun job => { job with stale := true })
      (fun job => ⟨rfl, rfl, rfl⟩) hpayload hplace _

theorem fresh_shiftMembers {doc : Document E} (h : doc.Fresh) (members : List ObjectId)
    (shift : Affine K) :
    Document.Fresh (⟨shiftMembers doc.collection members shift, doc.setup⟩ : Document E) := by
  unfold shiftMembers
  refine h.of_move (fun src => decide (src ∈ members)) (fun job => carryDependentJob job shift)
    (fun job => ⟨rfl, rfl, ownsOutline_carryDependentJob job shift⟩) (fun o => ?_) (fun o ho => ?_) _
  · split <;> rfl
  · exact if_neg (of_decide_eq_false ho)

theorem Fresh.setPlacement (h : s.Fresh) (id : ObjectId) (placement : Affine K) :
    (s.setPlacement id placement).2.Fresh := by
  unfold Session.setPlacement
  split
  · exact h
  · split
    · exact h
    · split
      · exact h
      · show (s.edit fun c => ((), setObjectPlacement c id placement)).2.Fresh
        refine h.edit ?_
        exact fresh_setObjectPlacement h.present id placement

/-- **What a job is when it is made anew.** -/
theorem rebuildJob_eq {id : ObjectId} (hok : (s.rebuildJob id).1 = .ok ()) :
    ∃ o job emission program, s.collection.get id = some o ∧ o.payload = .cncJob job
      ∧ job.emission = some emission
      ∧ s.doc.rebuildProgram s.dialect job.operation emission job.source = .ok program
      ∧ (s.rebuildJob id).2 = (s.edit fun c => ((), c.modifyId id (fun o =>
          { o with payload := .cncJob (.fromProgram program s.dialect job.source job.operation
            (s.doc.setup.origin.1, s.doc.setup.origin.2.1) (some emission)) }) fun _ => rfl)).2 := by
  unfold Session.rebuildJob at hok ⊢
  unfold Document.object at hok ⊢
  cases hget : s.doc.collection.get id with
  | none =>
    rw [hget] at hok
    cases hok
  | some o =>
    rw [hget] at hok
    dsimp only at hok ⊢
    cases hpayload : o.payload with
    | cncJob job =>
      rw [hpayload] at hok
      dsimp only at hok ⊢
      cases hemission : job.emission with
      | none =>
        rw [hemission] at hok
        cases hok
      | some emission =>
        rw [hemission] at hok
        dsimp only at hok ⊢
        cases hprogram : s.doc.rebuildProgram s.dialect job.operation emission job.source with
        | error e =>
          rw [hprogram] at hok
          cases hok
        | ok program => exact ⟨o, job, emission, program, rfl, hpayload, hemission, hprogram, rfl⟩
    | _ =>
      rw [hpayload] at hok
      cases hok

omit [Field K] [LinearOrder K] in
/-- A job is no source, whatever it is made. -/
theorem keepsSource_job {c : Objects E} {id : ObjectId} {o : Object K (ObjectPayload E)}
    {job : CncJobObject E} (hget : c.get id = some o) (hjob : o.payload = .cncJob job)
    (cnc : CncJobObject E) (src : ObjectId) :
    KeepsSource c (c.modifyId id (fun o => { o with payload := .cncJob cnc }) fun _ => rfl) src
      ∧ KeepsSource (c.modifyId id (fun o => { o with payload := .cncJob cnc }) fun _ => rfl) c
        src := by
  refine keepsSource_modifyId src (fun o => { o with payload := .cncJob cnc }) (fun _ => rfl)
    fun o' hmem hid => ?_
  have hsame : o' = o :=
    Option.some.inj ((ObjectCollection.get_eq_some_iff.2 ⟨hmem, hid⟩).symm.trans hget)
  exact ⟨rfl, .inr ⟨by rw [hsame, hjob]; rfl, rfl⟩⟩

/-- A job that is made anew is current, and the others are as they were. -/
theorem Fresh.rebuildJob (h : s.Fresh) (id : ObjectId) : (s.rebuildJob id).2.Fresh := by
  cases hresult : (s.rebuildJob id).1 with
  | error e =>
    have hclean : s.Clean (s.step (.rebuildJob id)) := step_clean fun hrefused => hrefused
    have hsame : (s.rebuildJob id).2 = s := hclean e hresult
    rwa [hsame]
  | ok r =>
    obtain ⟨o, job, emission, program, hget, hjob, hemission, hprogram, heq⟩ := rebuildJob_eq hresult
    generalize hcnc : CncJobObject.fromProgram program s.dialect job.source job.operation
      (s.doc.setup.origin.1, s.doc.setup.origin.2.1) (some emission) = cnc at heq
    rw [heq]
    refine h.edit ?_
    have hmem := (ObjectCollection.get_eq_some_iff.1 hget).1
    have hkeeps := fun src => (keepsSource_job hget hjob cnc src).1
    refine h.present.step le_rfl fun o' ho' job' hjob' => ?_
    obtain ⟨o', hmem', rfl⟩ := List.mem_map.1 ho'
    by_cases hid : o'.info.id = id
    · rw [if_pos hid] at hjob'
      obtain rfl := hcnc.trans (ObjectPayload.cncJob.inj hjob')
      refine .made ⟨rfl, fun emission' program' hsome hprogram' => ?_⟩ (h.present.sourced o hmem job hjob)
      obtain rfl := Option.some.inj hsome
      refine Except.ok.inj (hprogram.symm.trans (Document.rebuildProgram_of_keeps ?_ ?_ hprogram'))
      · rfl
      · exact fun _ src _ => hkeeps src
    · rw [if_neg hid] at hjob'
      exact .kept o' hmem' hjob' rfl fun _ src _ => hkeeps src

/-! ### Every operation -/

/-- **Every operation keeps every document fresh.** -/
theorem Fresh.step (h : s.Fresh) (op : SessionOp E) : (s.step op).2.Fresh := by
  cases op with
  | openGerberStr | openExcellonStr | importSvgStr | importDxfStr | importGcodeStr =>
    exact h.addParsed fun _ _ => nofun
  | rename id newName =>
    show (s.edit fun c => c.rename id newName).2.Fresh
    refine h.edit ?_
    rcases s.collection.rename_cases id newName with hsame | hrenamed
    · rw [hsame]
      exact h.present
    · rw [hrenamed]
      exact h.present.of_info id (fun o => { o with info := { o.info with name := newName } })
        (fun _ => rfl) (fun _ => rfl) fun _ => rfl
  | setVisible id visible =>
    show (s.setVisible id visible).2.Fresh
    unfold Session.setVisible
    split
    · exact h
    · split
      · exact h
      · show (s.edit fun c => ((), c.modifyId id
          (fun o => { o with info := { o.info with visible := visible } }) fun _ => rfl)).2.Fresh
        refine h.edit ?_
        exact h.present.of_info id (fun o => { o with info := { o.info with visible := visible } })
          (fun _ => rfl) (fun _ => rfl) fun _ => rfl
  | delete id =>
    have hhistory : (s.delete id).2 = (s.edit fun c => c.remove id).2 := by
      unfold Session.delete
      dsimp only
      split
      · rfl
      · rfl
    show (s.delete id).2.Fresh
    rw [hhistory]
    refine h.edit ?_
    exact h.present.of_subset (s.collection.nextId_remove id).ge fun o => s.collection.mem_of_remove
  | reorder id index =>
    show (s.edit fun c => c.reorder id index).2.Fresh
    refine h.edit ?_
    exact h.present.of_subset (s.collection.nextId_reorder id index).ge fun o =>
      s.collection.mem_of_reorder
  | createGroup name =>
    show (s.edit fun c => c.createGroup name).2.Fresh
    refine h.edit ?_
    exact h.present.of_subset (s.collection.nextId_createGroup name).ge fun o ho => by
      rwa [s.collection.objects_createGroup name] at ho
  | addToGroup group id =>
    show (s.edit fun c => c.addToGroup group id).2.Fresh
    refine h.edit ?_
    exact h.present.of_subset (s.collection.nextId_addToGroup group id).ge fun o ho => by
      rwa [s.collection.objects_addToGroup group id] at ho
  | addToImportGroup id =>
    show (s.addToImportGroup id).2.Fresh
    unfold Session.addToImportGroup
    split
    · exact h
    · show History.All Document.Fresh (s.history.amend fun c => ((), ((if c.hasGroup importGroup
        then c else (c.createGroup importGroup).2).addToGroup importGroup id).2)).2
      refine History.All.amend h ?_
      refine h.present.of_subset ?_ fun o ho => ?_
      · rw [ObjectCollection.nextId_addToGroup]
        split
        · exact le_rfl
        · rw [ObjectCollection.nextId_createGroup]
      · rw [ObjectCollection.objects_addToGroup] at ho
        split at ho
        · exact ho
        · rwa [ObjectCollection.objects_createGroup] at ho
  | setDialect name =>
    show (s.setDialect name).2.Fresh
    unfold Session.setDialect
    split
    · exact h
    · exact h
  | setStock stock coalesce => exact h.commitSetup _ _
  | fitStockTo reference thickness coalesce =>
    show (s.fitStockTo reference thickness coalesce).2.Fresh
    unfold Session.fitStockTo
    split
    · exact h
    · exact h.commitSetup _ _
  | setDatumPoint x y => exact h.commitSetup _ _
  | clearDatum => exact h.commitSetup _ _
  | setDatum origin reference =>
    show (s.setDatum origin reference).2.Fresh
    unfold Session.setDatum
    split
    · exact h
    · exact h.commitSetup _ _
  | setPlacement id placement => exact h.setPlacement id placement
  | translateObject id dx dy =>
    show (s.translateObject id dx dy).2.Fresh
    unfold Session.translateObject
    split
    · exact h
    · exact h.setPlacement _ _
  | moveGroup anchor dx dy newEdit =>
    show (s.moveGroup anchor dx dy newEdit).2.Fresh
    unfold Session.moveGroup
    split
    · exact h
    · have hmoved := fresh_shiftMembers h.present (s.moveSet anchor) (.translate dx dy)
      cases newEdit with
      | true =>
        show History.All Document.Fresh (s.history.edit fun c =>
          ((), shiftMembers c (s.moveSet anchor) (.translate dx dy))).2
        refine History.All.edit h ?_
        exact hmoved
      | false =>
        show History.All Document.Fresh (s.history.amend fun c =>
          ((), shiftMembers c (s.moveSet anchor) (.translate dx dy))).2
        refine History.All.amend h ?_
        exact hmoved
  | isolate | drill | paint | noncopper => exact h.storeDerived rfl
  | cutout spec job board =>
    show (s.cutout spec job board).2.Fresh
    unfold Session.cutout
    split
    · exact h
    · rename_i program hprogram
      exact h.storeProgram hprogram
  | panelize | mirror | transform => exact h.storeGeometry
  | rebuildJob id => exact h.rebuildJob id
  | undo => exact History.All.undo h
  | redo => exact History.All.redo h

/-- **Every document of every run is fresh.** -/
theorem fresh_run (ops : List (SessionOp E)) : ((new : Session E).run ops).Fresh := by
  have hrun : ∀ s : Session E, s.Fresh → (s.run ops).Fresh := by
    induction ops with
    | nil => exact fun s h => h
    | cons op ops ih => exact fun s h => ih _ (h.step op)
  exact hrun new fresh_new

/-- **The law of stale jobs.** -/
structure Honest (s : Session E) : Prop where
  /-- A job that is not flagged keeps the program that its inputs make now. -/
  program : ∀ id o job emission program, s.collection.get id = some o → o.payload = .cncJob job →
    job.emission = some emission → job.stale = false →
    s.doc.rebuildProgram job.dialect job.operation emission job.source = .ok program →
    job.gcode = program
  /-- To make such a job anew, in its dialect, changes nothing. -/
  rebuild : ∀ id o job, s.collection.get id = some o → o.payload = .cncJob job →
    job.stale = false → job.dialect = s.dialect → (s.rebuildJob id).1 = .ok () →
    (s.rebuildJob id).2.doc = s.doc
  /-- To make a job anew another time changes nothing. -/
  twice : ∀ id, (s.rebuildJob id).1 = .ok () →
    ((s.rebuildJob id).2.rebuildJob id).1 = .ok ()
      ∧ ((s.rebuildJob id).2.rebuildJob id).2.doc = (s.rebuildJob id).2.doc

omit [Field K] [LinearOrder K] in
/-- To put an object's own payload in its place changes nothing. -/
theorem modifyId_self {c : Objects E} {id : ObjectId} {o : Object K (ObjectPayload E)}
    {job : CncJobObject E} (hget : c.get id = some o) (hjob : o.payload = .cncJob job) :
    c.modifyId id (fun o => { o with payload := .cncJob job }) (fun _ => rfl) = c := by
  have hsame : ∀ o' ∈ c.objects,
      (if o'.info.id = id then { o' with payload := .cncJob job } else o') = o' := by
    intro o' hmem
    split
    · rename_i hid
      obtain rfl : o' = o :=
        Option.some.inj ((ObjectCollection.get_eq_some_iff.2 ⟨hmem, hid⟩).symm.trans hget)
      rw [← hjob]
    · rfl
  unfold ObjectCollection.modifyId ObjectCollection.modify
  obtain ⟨objects, groups, nextId, nodup, below⟩ := c
  rw [ObjectCollection.mk.injEq]
  exact ⟨(List.map_congr_left hsame).trans objects.map_id, rfl, rfl⟩

/-- A job that is what its inputs make stays what it is. -/
theorem rebuildJob_current {id : ObjectId} {o : Object K (ObjectPayload E)} {job : CncJobObject E}
    (hget : s.collection.get id = some o) (hjob : o.payload = .cncJob job)
    (hcurrent : job.Current s.doc) (hstale : job.stale = false) (hdialect : job.dialect = s.dialect)
    (hok : (s.rebuildJob id).1 = .ok ()) : (s.rebuildJob id).2.doc = s.doc := by
  obtain ⟨o', job', emission, program, hget', hjob', hemission, hprogram, heq⟩ := rebuildJob_eq hok
  obtain rfl := Option.some.inj (hget.symm.trans hget')
  obtain rfl := ObjectPayload.cncJob.inj (hjob.symm.trans hjob')
  have hsame : CncJobObject.fromProgram program s.dialect job.source job.operation
      (s.doc.setup.origin.1, s.doc.setup.origin.2.1) (some emission) = job := by
    rw [← hdialect] at hprogram
    rw [← hcurrent.gcode emission program hemission hprogram, ← hcurrent.origin, ← hemission,
      ← hdialect]
    unfold CncJobObject.fromProgram
    rw [← hstale]
  rw [heq, hsame]
  show (⟨s.collection.modifyId id (fun o => { o with payload := .cncJob job }) (fun _ => rfl),
    s.doc.setup⟩ : Document E) = s.doc
  rw [modifyId_self hget hjob]

/-- A job that was just made anew is made anew once more, into what it is. -/
theorem rebuildJob_twice {id : ObjectId} (hok : (s.rebuildJob id).1 = .ok ()) :
    ((s.rebuildJob id).2.rebuildJob id).1 = .ok ()
      ∧ ((s.rebuildJob id).2.rebuildJob id).2.doc = (s.rebuildJob id).2.doc := by
  obtain ⟨o, job, emission, program, hget, hjob, hemission, hprogram, heq⟩ := rebuildJob_eq hok
  generalize hcnc : CncJobObject.fromProgram program s.dialect job.source job.operation
    (s.doc.setup.origin.1, s.doc.setup.origin.2.1) (some emission) = cnc at heq
  have hkeeps := fun src => (keepsSource_job hget hjob cnc src).2
  rw [heq]
  generalize hnext : (s.edit fun c => ((), c.modifyId id (fun o =>
    { o with payload := .cncJob cnc }) fun _ => rfl)).2 = s'
  have hdoc : s'.doc = ⟨s.collection.modifyId id (fun o => { o with payload := .cncJob cnc })
      fun _ => rfl, s.doc.setup⟩ := by rw [← hnext]; rfl
  have hdialect : s'.dialect = s.dialect := by rw [← hnext]; rfl
  have hget' : s'.collection.get id = some { o with payload := .cncJob cnc } := by
    show s'.doc.collection.get id = _
    rw [hdoc]
    unfold ObjectCollection.modifyId
    rw [ObjectCollection.get_modify, hget, Option.map_some,
      if_pos (ObjectCollection.get_eq_some_iff.1 hget).2]
  have hprogram' : s'.doc.rebuildProgram s.dialect job.operation emission job.source
      = .ok program := by
    refine Document.rebuildProgram_of_keeps ?_ ?_ hprogram
    · rw [hdoc]
    · rw [hdoc]
      exact fun _ src _ => hkeeps src
  have hok' : (s'.rebuildJob id).1 = .ok () := by
    unfold Session.rebuildJob Document.object
    dsimp only
    rw [hget', ← hcnc]
    dsimp only [CncJobObject.fromProgram]
    rw [hdialect, hprogram']
  refine ⟨hok', rebuildJob_current hget' rfl ⟨?_, ?_⟩ ?_ ?_ hok'⟩
  · rw [← hcnc, hdoc]
    rfl
  · intro emission' program' hsome hprogram''
    rw [← hcnc] at hsome hprogram'' ⊢
    obtain rfl := Option.some.inj hsome
    exact Except.ok.inj (hprogram'.symm.trans hprogram'')
  · rw [← hcnc]
    rfl
  · rw [← hcnc, hdialect]
    rfl

theorem Fresh.honest (h : s.Fresh) : s.Honest where
  program id o job emission program hget hjob hemission hstale hprogram :=
    (h.present.current o (ObjectCollection.get_eq_some_iff.1 hget).1 job hjob
      (by rw [hemission]; rfl) hstale).gcode emission program hemission hprogram
  rebuild id o job hget hjob hstale hdialect hok := by
    obtain ⟨o', job', emission, program, hget', hjob', hemission, -, -⟩ := rebuildJob_eq hok
    obtain rfl := Option.some.inj (hget.symm.trans hget')
    obtain rfl := ObjectPayload.cncJob.inj (hjob.symm.trans hjob')
    exact rebuildJob_current hget hjob (h.present.current o
      (ObjectCollection.get_eq_some_iff.1 hget).1 job hjob (by rw [hemission]; rfl) hstale) hstale
      hdialect hok
  twice _ := rebuildJob_twice

/-- **In every run, a job that is not flagged keeps the program that its inputs make: to make it
anew, in the dialect that it was posted in, changes nothing.** -/
theorem honest_run (ops : List (SessionOp E)) : ((new : Session E).run ops).Honest :=
  (fresh_run ops).honest

end Session

/-! ## Another dialect -/

/-- A board is isolated, and another dialect is chosen: the job is not flagged, and to make it
anew makes another program. -/
theorem not_dialect : ¬ ∀ (ops : List (SessionOp Engine.echo)) id o job emission program,
    ((Session.new.run ops).collection.get id = some o → o.payload = .cncJob job →
      job.emission = some emission → job.stale = false →
      (Session.new.run ops).doc.rebuildProgram (Session.new.run ops).dialect job.operation emission
        job.source = .ok program → job.gcode = program) := by
  intro h
  have hsame : "grbl" = "generic" :=
    h [.openGerberStr "board" "", .isolate 1 () (), .setDialect "generic"] 2 _ _ _ "generic"
      rfl rfl rfl rfl rfl
  exact absurd hsame (by decide)

end Galdr.Project
