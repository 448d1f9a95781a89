import Galdr.CamSession

/-!
# Current jobs

A job is current if the program that it keeps is what its inputs make: the source where it lies
on the stock, the datum, the operation, the emission, and the dialect that it was posted in. A
document is fresh if every job that can be made anew and is not flagged is current. A change
keeps a document fresh if it carries every job: with all that its program depends on, flagged,
or made anew (`Document.Fresh.step`). The changes that a session makes are of this kind, one by
one.
-/

namespace Galdr.Project

variable {K : Type} {E : Engine K}

/-! ## What a program depends on -/

/-- Two objects are the same as a source. -/
def SameSource (o o' : Object K (ObjectPayload E)) : Prop :=
  o.info.placement = o'.info.placement
    ∧ (o.payload = o'.payload ∨ o.payload.kind = .cncJob ∧ o'.payload.kind = .cncJob)

/-- What is there as a source behind a change was there before it. -/
def KeepsSource (c c' : Objects E) (id : ObjectId) : Prop :=
  ∀ o', c'.get id = some o' → ∃ o, c.get id = some o ∧ SameSource o o'

theorem SameSource.refl (o : Object K (ObjectPayload E)) : SameSource o o := ⟨rfl, .inl rfl⟩

theorem SameSource.symm {o o' : Object K (ObjectPayload E)} (h : SameSource o o') :
    SameSource o' o := ⟨h.1.symm, h.2.imp Eq.symm And.symm⟩

/-- A source that was there before a change is kept. -/
theorem keepsSource_of_mem {c c' : Objects E} {id : ObjectId}
    (h : ∀ o ∈ c'.objects, o.info.id = id → o ∈ c.objects) : KeepsSource c c' id := by
  intro o' ho'
  obtain ⟨hmem, hid⟩ := ObjectCollection.get_eq_some_iff.1 ho'
  exact ⟨o', ObjectCollection.get_eq_some_iff.2 ⟨h o' hmem hid, hid⟩, SameSource.refl o'⟩

/-- Sources are kept by a change that keeps them one by one. -/
theorem keepsSource_modify {c : Objects E} {id : ObjectId}
    {f : Object K (ObjectPayload E) → Object K (ObjectPayload E)}
    (hf : ∀ o, (f o).info.id = o.info.id)
    (hsame : ∀ o ∈ c.objects, o.info.id = id → SameSource o (f o)) :
    KeepsSource c (c.modify f hf) id := by
  intro o' ho'
  rw [ObjectCollection.get_modify] at ho'
  obtain ⟨o, ho, rfl⟩ := Option.map_eq_some_iff.1 ho'
  obtain ⟨hmem, hid⟩ := ObjectCollection.get_eq_some_iff.1 ho
  exact ⟨o, ho, hsame o hmem hid⟩

/-- Sources are kept, in either direction, by a change of one object that keeps it. -/
theorem keepsSource_modifyId {c : Objects E} {id : ObjectId} (src : ObjectId)
    (f : Object K (ObjectPayload E) → Object K (ObjectPayload E))
    (hf : ∀ o, (f o).info.id = o.info.id)
    (hsame : ∀ o ∈ c.objects, o.info.id = id → SameSource o (f o)) :
    KeepsSource c (c.modifyId id f hf) src ∧ KeepsSource (c.modifyId id f hf) c src := by
  have hall : ∀ o ∈ c.objects, SameSource o (if o.info.id = id then f o else o) := by
    intro o hmem
    split
    · rename_i hid
      exact hsame o hmem hid
    · exact SameSource.refl o
  refine ⟨keepsSource_modify (ObjectCollection.id_ite hf) fun o hmem _ => hall o hmem, fun o ho => ?_⟩
  refine ⟨_, ?_, (hall o (ObjectCollection.get_eq_some_iff.1 ho).1).symm⟩
  unfold ObjectCollection.modifyId
  rw [ObjectCollection.get_modify, ho]
  rfl

/-- The operation has an outline of its own. -/
def CamOperation.ownsOutline : CamOperation E → Bool
  | .cutout _ => true
  | _ => false

namespace Document

variable [Field K] [LinearOrder K] {doc doc' : Document E} {id : ObjectId}

omit [Field K] [LinearOrder K] in
/-- The region of a source is that of the same source. -/
theorem sourceRegion_congr {o o' : Object K (ObjectPayload E)}
    (hget : doc.collection.get id = some o) (hget' : doc'.collection.get id = some o')
    (hsame : SameSource o o') : doc.sourceRegion id = doc'.sourceRegion id := by
  unfold sourceRegion object
  rw [hget, hget']
  obtain ⟨-, hpayload | ⟨hjob, hjob'⟩⟩ := hsame
  · simp only [hpayload, bind, Except.bind]
  · obtain ⟨info, payload⟩ := o
    obtain ⟨info', payload'⟩ := o'
    cases payload with
    | cncJob job =>
      cases payload' with
      | cncJob job' => rfl
      | _ => cases hjob'
    | _ => cases hjob

theorem regionOf_congr {o o' : Object K (ObjectPayload E)}
    (hget : doc.collection.get id = some o) (hget' : doc'.collection.get id = some o')
    (hsame : SameSource o o') : doc.regionOf id = doc'.regionOf id := by
  unfold regionOf object
  rw [hget, hget', sourceRegion_congr hget hget' hsame]
  simp only [bind, Except.bind, hsame.1]

theorem excellonImageOf_congr {o o' : Object K (ObjectPayload E)}
    (hget : doc.collection.get id = some o) (hget' : doc'.collection.get id = some o')
    (hsame : SameSource o o') : doc.excellonImageOf id = doc'.excellonImageOf id := by
  unfold excellonImageOf object
  rw [hget, hget']
  obtain ⟨hplacement, hpayload | ⟨hjob, hjob'⟩⟩ := hsame
  · simp only [bind, Except.bind, hpayload, hplacement]
  · obtain ⟨info, payload⟩ := o
    obtain ⟨info', payload'⟩ := o'
    cases payload with
    | cncJob job =>
      cases payload' with
      | cncJob job' => rfl
      | _ => cases hjob'
    | _ => cases hjob

theorem regionOf_eq_error (hget : doc.collection.get id = none) :
    doc.regionOf id = .error (.unknownObject id) := by
  unfold regionOf object
  rw [hget]
  rfl

theorem excellonImageOf_eq_error (hget : doc.collection.get id = none) :
    doc.excellonImageOf id = .error (.unknownObject id) := by
  unfold excellonImageOf object
  rw [hget]
  rfl

/-- The program of a job is the same while the setup and its source are. -/
theorem rebuildProgram_congr (hsetup : doc.setup = doc'.setup) {dialect : String}
    {operation : CamOperation E} {emission : JobEmission E} {source : Option ObjectId}
    (hregion : operation.ownsOutline = false → ∀ src, source = some src →
      doc.regionOf src = doc'.regionOf src ∧ doc.excellonImageOf src = doc'.excellonImageOf src) :
    doc.rebuildProgram dialect operation emission source
      = doc'.rebuildProgram dialect operation emission source := by
  cases operation with
  | cutout spec =>
    cases emission with
    | isolation job =>
      show doc.cutoutProgram dialect spec job _ = doc'.cutoutProgram dialect spec job _
      unfold cutoutProgram
      rw [hsetup]
    | drill job => rfl
  | isolation spec =>
    cases emission with
    | isolation job =>
      cases source with
      | none => rfl
      | some src =>
        show doc.isolationProgram dialect src spec job _ = doc'.isolationProgram dialect src spec job _
        unfold isolationProgram
        rw [hsetup, (hregion rfl src rfl).1]
    | drill job => rfl
  | drilling spec =>
    cases emission with
    | isolation job => rfl
    | drill job =>
      cases source with
      | none => rfl
      | some src =>
        show doc.drillProgram dialect src spec job = doc'.drillProgram dialect src spec job
        unfold drillProgram
        rw [hsetup, (hregion rfl src rfl).2]
  | paint spec =>
    cases emission with
    | isolation job =>
      cases source with
      | none => rfl
      | some src =>
        show doc.paintProgram dialect src spec job _ = doc'.paintProgram dialect src spec job _
        unfold paintProgram
        rw [hsetup, (hregion rfl src rfl).1]
    | drill job => rfl
  | nonCopper spec =>
    cases emission with
    | isolation job =>
      cases source with
      | none => rfl
      | some src =>
        show doc.noncopperProgram dialect src spec job _
          = doc'.noncopperProgram dialect src spec job _
        unfold noncopperProgram
        rw [hsetup, (hregion rfl src rfl).1]
    | drill job => rfl

/-- A job whose source is there no more has no program. -/
theorem get_of_rebuildProgram {dialect : String} {operation : CamOperation E}
    {emission : JobEmission E} {src : ObjectId} {program : E.Program}
    (howns : operation.ownsOutline = false)
    (h : doc.rebuildProgram dialect operation emission (some src) = .ok program) :
    ∃ o, doc.collection.get src = some o := by
  cases hget : doc.collection.get src with
  | some o => exact ⟨o, rfl⟩
  | none =>
    exfalso
    have hregion := regionOf_eq_error hget
    have himage := excellonImageOf_eq_error hget
    cases operation with
    | cutout spec => cases howns
    | isolation spec =>
      cases emission with
      | isolation job =>
        replace h : doc.isolationProgram dialect src spec job _ = _ := h
        unfold isolationProgram at h
        rw [hregion] at h
        cases h
      | drill job => cases h
    | drilling spec =>
      cases emission with
      | isolation job => cases h
      | drill job =>
        replace h : doc.drillProgram dialect src spec job = _ := h
        unfold drillProgram at h
        rw [himage] at h
        cases h
    | paint spec =>
      cases emission with
      | isolation job =>
        replace h : doc.paintProgram dialect src spec job _ = _ := h
        unfold paintProgram at h
        rw [hregion] at h
        cases h
      | drill job => cases h
    | nonCopper spec =>
      cases emission with
      | isolation job =>
        replace h : doc.noncopperProgram dialect src spec job _ = _ := h
        unfold noncopperProgram at h
        rw [hregion] at h
        cases h
      | drill job => cases h

/-- **The program of a job behind a change that keeps the setup and its source is the one from
before it.** -/
theorem rebuildProgram_of_keeps (hsetup : doc'.setup = doc.setup) {dialect : String}
    {operation : CamOperation E} {emission : JobEmission E} {source : Option ObjectId}
    (hkeeps : operation.ownsOutline = false → ∀ src, source = some src →
      KeepsSource doc.collection doc'.collection src) {program : E.Program}
    (h : doc'.rebuildProgram dialect operation emission source = .ok program) :
    doc.rebuildProgram dialect operation emission source = .ok program := by
  rw [rebuildProgram_congr hsetup.symm, h]
  rintro howns src rfl
  obtain ⟨o', ho'⟩ := get_of_rebuildProgram howns h
  obtain ⟨o, ho, hsame⟩ := hkeeps howns src rfl o' ho'
  exact ⟨regionOf_congr ho ho' hsame, excellonImageOf_congr ho ho' hsame⟩

end Document

/-! ## Documents -/

namespace CncJobObject

variable [Field K] [LinearOrder K]

/-- A job keeps what its inputs make. -/
structure Current (job : CncJobObject E) (doc : Document E) : Prop where
  origin : job.origin = (doc.setup.origin.1, doc.setup.origin.2.1)
  gcode : ∀ emission program, job.emission = some emission →
    doc.rebuildProgram job.dialect job.operation emission job.source = .ok program →
    job.gcode = program

/-- The source of a job, but for a cutout, has an identifier that is given out. -/
def Sourced (job : CncJobObject E) (c : Objects E) : Prop :=
  job.operation.ownsOutline = false → ∀ src, job.source = some src → src < c.nextId

end CncJobObject

namespace Document

variable [Field K] [LinearOrder K] {doc doc' : Document E}

/-- **Every job that can be made anew and is not flagged is current.** -/
structure Fresh (doc : Document E) : Prop where
  current : ∀ o ∈ doc.collection.objects, ∀ job, o.payload = .cncJob job →
    job.emission.isSome = true → job.stale = false → job.Current doc
  sourced : ∀ o ∈ doc.collection.objects, ∀ job, o.payload = .cncJob job →
    job.Sourced doc.collection

/-- A job behind a change: kept with its inputs, flagged, or made by the change. -/
inductive Carried (doc doc' : Document E) (job : CncJobObject E) : Prop
  /-- The job and its inputs are as they were. -/
  | kept (o : Object K (ObjectPayload E)) (hmem : o ∈ doc.collection.objects)
      (hjob : o.payload = .cncJob job) (hsetup : doc'.setup = doc.setup)
      (hkeeps : job.operation.ownsOutline = false → ∀ src, job.source = some src →
        KeepsSource doc.collection doc'.collection src)
  /-- The job is flagged, if it can be made anew. -/
  | flagged (o : Object K (ObjectPayload E)) (hmem : o ∈ doc.collection.objects)
      (old : CncJobObject E) (hold : o.payload = .cncJob old) (hsource : job.source = old.source)
      (howns : job.operation.ownsOutline = old.operation.ownsOutline)
      (hstale : job.emission.isSome = true → job.stale = true)
  /-- The job is new, or made anew. -/
  | made (hcurrent : job.Current doc') (hsourced : job.Sourced doc'.collection)

/-- **A change that carries every job keeps the jobs current.** -/
theorem Fresh.step (h : doc.Fresh) (hnext : doc.collection.nextId ≤ doc'.collection.nextId)
    (hjobs : ∀ o ∈ doc'.collection.objects, ∀ job, o.payload = .cncJob job →
      Carried doc doc' job) : doc'.Fresh := by
  constructor
  · intro o ho job hjob hemission hstale
    cases hjobs o ho job hjob with
    | kept old hmem hold hsetup hkeeps =>
      have hcurrent := h.current old hmem job hold hemission hstale
      refine ⟨hsetup ▸ hcurrent.origin, fun emission program hsome hprogram => ?_⟩
      exact hcurrent.gcode emission program hsome (rebuildProgram_of_keeps hsetup hkeeps hprogram)
    | flagged old hmem oldJob hold hsource howns hflag =>
      cases hstale.symm.trans (hflag hemission)
    | made hcurrent hsourced => exact hcurrent
  · intro o ho job hjob howns src hsrc
    cases hjobs o ho job hjob with
    | kept old hmem hold hsetup hkeeps =>
      exact (h.sourced old hmem job hold howns src hsrc).trans_le hnext
    | flagged old hmem oldJob hold hsource hownsOld hflag =>
      exact (h.sourced old hmem oldJob hold (hownsOld ▸ howns) src (hsource ▸ hsrc)).trans_le hnext
    | made hcurrent hsourced => exact hsourced howns src hsrc

/-- A change that only takes objects away, or moves them in the order. -/
theorem Fresh.of_subset (h : doc.Fresh) {c : Objects E} (hnext : doc.collection.nextId ≤ c.nextId)
    (hmem : ∀ o ∈ c.objects, o ∈ doc.collection.objects) : Fresh (⟨c, doc.setup⟩ : Document E) :=
  h.step hnext fun o ho _ hjob =>
    .kept o (hmem o ho) hjob rfl fun _ _ _ => keepsSource_of_mem fun o ho _ => hmem o ho

/-- A change of what no program depends on. -/
theorem Fresh.of_info (h : doc.Fresh) (id : ObjectId)
    (f : Object K (ObjectPayload E) → Object K (ObjectPayload E))
    (hf : ∀ o, (f o).info.id = o.info.id) (hpayload : ∀ o, (f o).payload = o.payload)
    (hplacement : ∀ o, (f o).info.placement = o.info.placement) :
    Fresh (⟨doc.collection.modifyId id f hf, doc.setup⟩ : Document E) := by
  refine h.step le_rfl fun o ho job hjob => ?_
  obtain ⟨o, hmem, rfl⟩ := List.mem_map.1 ho
  have hsame : (if o.info.id = id then f o else o).payload = o.payload := by
    split
    · exact hpayload o
    · rfl
  exact .kept o hmem (hsame.symm.trans hjob) rfl fun _ src _ =>
    (keepsSource_modifyId src f hf fun o _ _ => ⟨(hplacement o).symm, .inl (hpayload o).symm⟩).1

/-- A new object, under a name. -/
theorem Fresh.of_add (h : doc.Fresh) (info : ObjectMeta K) (payload : ObjectPayload E)
    (hjob : ∀ job, payload = .cncJob job →
      job.Sourced doc.collection ∧ job.origin = (doc.setup.origin.1, doc.setup.origin.2.1)
        ∧ ∀ emission program, job.emission = some emission →
          doc.rebuildProgram job.dialect job.operation emission job.source = .ok program →
          job.gcode = program) :
    Fresh (⟨(doc.collection.add info payload).2, doc.setup⟩ : Document E) := by
  by_cases hname : (doc.collection.byName info.name).isSome = true
  · have hadd : (doc.collection.add info payload).2 = doc.collection := by
      unfold ObjectCollection.add
      rw [if_pos hname]
    rw [hadd]
    exact h
  · have hobjects : (doc.collection.add info payload).2.objects
        = doc.collection.objects ++ [⟨{ info with id := doc.collection.nextId }, payload⟩] := by
      unfold ObjectCollection.add
      rw [if_neg hname]
    have hnext : (doc.collection.add info payload).2.nextId = doc.collection.nextId + 1 := by
      unfold ObjectCollection.add
      rw [if_neg hname]
    have hkeeps : ∀ src < doc.collection.nextId,
        KeepsSource doc.collection (doc.collection.add info payload).2 src := by
      refine fun src hsrc => keepsSource_of_mem fun o ho hid => ?_
      rw [hobjects] at ho
      rcases List.mem_append.1 ho with ho | ho
      · exact ho
      · rw [List.mem_singleton.1 ho] at hid
        exact absurd hid hsrc.ne'
    refine h.step (by rw [hnext]; exact Nat.le_succ _) fun o ho job ho' => ?_
    dsimp only at ho
    rw [hobjects] at ho
    rcases List.mem_append.1 ho with ho | ho
    · exact .kept o ho ho' rfl fun howns src hsrc =>
        hkeeps src (h.sourced o ho job ho' howns src hsrc)
    · rw [List.mem_singleton.1 ho] at ho'
      obtain ⟨hsourced, horigin, hgcode⟩ := hjob job ho'
      refine .made ⟨horigin, fun emission program hsome hprogram => ?_⟩ fun howns src hsrc => ?_
      · refine hgcode emission program hsome (rebuildProgram_of_keeps ?_ ?_ hprogram)
        · rfl
        · exact fun howns src hsrc => hkeeps src (hsourced howns src hsrc)
      · rw [hnext]
        exact Nat.lt_succ_of_lt (hsourced howns src hsrc)

/-- A new setup flags every job. -/
theorem Fresh.of_flag (h : doc.Fresh) (setup : WorkSetup K) :
    Fresh (⟨Session.flagAllJobsStale doc.collection, setup⟩ : Document E) := by
  refine h.step le_rfl fun o ho job hjob => ?_
  obtain ⟨o, hmem, rfl⟩ := List.mem_map.1 ho
  obtain ⟨info, payload⟩ := o
  cases payload with
  | cncJob old =>
    dsimp only at hjob
    cases hrebuildable : Session.isRebuildable old with
    | true =>
      rw [hrebuildable, if_pos rfl] at hjob
      obtain rfl := ObjectPayload.cncJob.inj hjob
      exact .flagged _ hmem old rfl rfl rfl fun _ => rfl
    | false =>
      rw [hrebuildable, if_neg (by decide)] at hjob
      obtain rfl := ObjectPayload.cncJob.inj hjob
      exact .flagged _ hmem old rfl rfl rfl fun hemission => by
        cases hrebuildable.symm.trans hemission
  | _ => cases hjob

/-- A move flags the jobs whose sources it moves. -/
theorem Fresh.of_move (h : doc.Fresh) (moved : ObjectId → Bool)
    {place : Object K (ObjectPayload E) → Object K (ObjectPayload E)}
    (f : CncJobObject E → CncJobObject E)
    (hf : ∀ job, (f job).stale = true ∧ (f job).source = job.source
      ∧ (f job).operation.ownsOutline = job.operation.ownsOutline)
    (hpayload : ∀ o, (place o).payload = o.payload)
    (hplace : ∀ o, moved o.info.id = false → place o = o)
    (hmodify : ∀ o, (Session.withDependents moved f (place o)).info.id = o.info.id) :
    Fresh (⟨doc.collection.modify (fun o => Session.withDependents moved f (place o)) hmodify,
      doc.setup⟩ : Document E) := by
  have hkeeps : ∀ src, moved src = false → KeepsSource doc.collection
      (doc.collection.modify (fun o => Session.withDependents moved f (place o)) hmodify) src := by
    rintro src hsrc
    refine keepsSource_modify hmodify fun o _ ho => ⟨?_, ?_⟩
    · rw [Session.withDependents_info, hplace o (by rw [ho]; exact hsrc)]
    · rw [hplace o (by rw [ho]; exact hsrc)]
      exact Session.withDependents_payload moved f o
  refine h.step le_rfl fun o ho job hjob => ?_
  obtain ⟨o, hmem, rfl⟩ := List.mem_map.1 ho
  rcases Session.withDependents_job hjob with ⟨hold, hnot⟩ | ⟨old, hold, rfl⟩
  · rw [hpayload] at hold
    cases hemission : job.emission.isSome with
    | false =>
      exact .flagged o hmem job hold rfl rfl fun hsome => by cases hemission.symm.trans hsome
    | true =>
      refine .kept o hmem hold rfl fun _ src hsrc => hkeeps src ?_
      rw [hsrc] at hnot
      exact Bool.eq_false_iff.2 fun hmoved => hnot ⟨hmoved, hemission⟩
  · rw [hpayload] at hold
    exact .flagged o hmem old hold (hf old).2.1 (hf old).2.2 fun _ => (hf old).1

end Document

end Galdr.Project
