import Galdr.GeoBackend
import Galdr.ProjectFile
import Galdr.SessionSteps

/-!
# Saving and loading a project

In every document that a session holds, each image is what the parser makes of its source, and a
stock defines the origin (`Document.sound_run`). What saving drops is therefore what hydration
makes again, and a project that is saved, loaded and hydrated is the project. A document is loaded
only at version 1, since the version is read once more, exactly, with the other fields. But the
gate that refuses the other versions reads 64 bits and narrows them to 32: an integer that is one
modulo `2 ^ 32` passes it and fails as a field, and one that has no 64 bits is taken for none
(`gated_iff`).
-/

namespace Galdr.Project

variable {K : Type} {E : Engine K}

/-! ## Hydration -/

section Hydrate

/-- The images are dropped. -/
def ObjectPayload.uncached : ObjectPayload E → ObjectPayload E
  | .gerber source _ => .gerber source none
  | .excellon source _ => .excellon source none
  | .geometry polygons polylines => .geometry polygons polylines
  | .cncJob job => .cncJob job

/-- The image is dropped. -/
def Object.uncached (o : Object K (ObjectPayload E)) : Object K (ObjectPayload E) :=
  { o with payload := o.payload.uncached }

/-- The image that was dropped is made again. -/
theorem Object.reparse_uncached {o : Object K (ObjectPayload E)} (h : o.payload.Parsed) :
    o.uncached.reparse = .ok o := by
  obtain ⟨info, payload⟩ := o
  cases payload with
  | gerber source image =>
    obtain ⟨copper, hparse, rfl⟩ := h
    unfold Object.uncached Object.reparse
    dsimp only [ObjectPayload.uncached]
    rw [hparse]
    rfl
  | excellon source image =>
    obtain ⟨hits, hparse, rfl⟩ := h
    unfold Object.uncached Object.reparse
    dsimp only [ObjectPayload.uncached]
    rw [hparse]
    rfl
  | geometry polygons polylines => rfl
  | cncJob job => rfl

/-- What is parsed anew is itself, with the image that its source makes. -/
theorem Object.reparse_cases {o o' : Object K (ObjectPayload E)} (h : o.reparse = .ok o') :
    o'.info = o.info ∧ o'.payload.Parsed ∧ o'.uncached = o.uncached := by
  obtain ⟨info, payload⟩ := o
  unfold Object.reparse at h
  cases payload with
  | gerber source image =>
    dsimp only at h
    cases hparse : E.parseGerber source with
    | error e =>
      rw [hparse] at h
      cases h
    | ok copper =>
      rw [hparse] at h
      obtain rfl := Except.ok.inj h
      exact ⟨rfl, ⟨copper, hparse, rfl⟩, rfl⟩
  | excellon source image =>
    dsimp only at h
    cases hparse : E.parseExcellon source with
    | error e =>
      rw [hparse] at h
      cases h
    | ok hits =>
      rw [hparse] at h
      obtain rfl := Except.ok.inj h
      exact ⟨rfl, ⟨hits, hparse, rfl⟩, rfl⟩
  | geometry polygons polylines =>
    obtain rfl := Except.ok.inj h
    exact ⟨rfl, trivial, rfl⟩
  | cncJob job =>
    obtain rfl := Except.ok.inj h
    exact ⟨rfl, trivial, rfl⟩

/-- What has its image is parsed to itself. -/
theorem Object.reparse_of_parsed {o : Object K (ObjectPayload E)} (h : o.payload.Parsed) :
    o.reparse = .ok o := by
  rw [← o.reparse_uncached h]
  obtain ⟨info, payload⟩ := o
  cases payload with
  | _ => rfl

/-- The first object of an identifier has its image. -/
def Settled (objects : List (Object K (ObjectPayload E))) (id : ObjectId) : Prop :=
  ∀ o, (objects.find? fun o => o.info.id = id) = some o → o.payload.Parsed

variable {objects objects' : List (Object K (ObjectPayload E))} {id : ObjectId}

theorem settled_cons_of_eq {o : Object K (ObjectPayload E)} (hid : o.info.id = id) :
    Settled (o :: objects) id ↔ o.payload.Parsed := by
  have hfind : ((o :: objects).find? fun o => o.info.id = id) = some o :=
    List.find?_cons_of_pos (decide_eq_true hid)
  unfold Settled
  rw [hfind]
  exact ⟨fun h => h o rfl, fun h found hfound => Option.some.inj hfound ▸ h⟩

theorem settled_cons_of_ne {o : Object K (ObjectPayload E)} (hid : o.info.id ≠ id) :
    Settled (o :: objects) id ↔ Settled objects id := by
  have hfind : ((o :: objects).find? fun o => o.info.id = id)
      = objects.find? fun o => o.info.id = id :=
    List.find?_cons_of_neg (by rw [decide_eq_true_eq]; exact hid)
  unfold Settled
  rw [hfind]

/-- **What parsing the first object of an identifier anew does.** -/
theorem updateFirst_cases (h : updateFirst id Object.reparse objects = .ok objects') :
    (objects'.map fun o => o.info.id) = (objects.map fun o => o.info.id)
      ∧ Settled objects' id ∧ ∀ id', Settled objects id' → Settled objects' id' := by
  induction objects generalizing objects' with
  | nil =>
    obtain rfl := Except.ok.inj h
    exact ⟨rfl, fun o ho => absurd ho (Option.some_ne_none o).symm, fun id' h => h⟩
  | cons o objects ih =>
    unfold updateFirst at h
    split at h
    · rename_i hid
      obtain ⟨o', hparse, h⟩ := Geo.exists_ok_of_bind h
      obtain rfl := Except.ok.inj h
      obtain ⟨hinfo, hparsed, -⟩ := Object.reparse_cases hparse
      have hid' : o'.info.id = id := by rw [hinfo, hid]
      refine ⟨?_, (settled_cons_of_eq hid').2 hparsed, fun other hother => ?_⟩
      · rw [List.map_cons, List.map_cons, hinfo]
      · by_cases heq : o'.info.id = other
        · exact (settled_cons_of_eq heq).2 hparsed
        · rw [settled_cons_of_ne heq]
          rw [hinfo] at heq
          exact (settled_cons_of_ne heq).1 hother
    · rename_i hid
      obtain ⟨rest, hrest, h⟩ := Geo.exists_ok_of_bind h
      obtain rfl := Except.ok.inj h
      obtain ⟨hids, hsettled, hkept⟩ := ih hrest
      refine ⟨?_, (settled_cons_of_ne hid).2 hsettled, fun other hother => ?_⟩
      · rw [List.map_cons, List.map_cons, hids]
      · by_cases heq : o.info.id = other
        · exact (settled_cons_of_eq heq).2 ((settled_cons_of_eq heq).1 hother)
        · exact (settled_cons_of_ne heq).2 (hkept other ((settled_cons_of_ne heq).1 hother))

/-- Where the first object of an identifier has its image, nothing is done. -/
theorem updateFirst_of_settled (h : Settled objects id) :
    updateFirst id Object.reparse objects = .ok objects := by
  induction objects with
  | nil => rfl
  | cons o objects ih =>
    unfold updateFirst
    split
    · rename_i hid
      rw [Object.reparse_of_parsed ((settled_cons_of_eq hid).1 h)]
      rfl
    · rename_i hid
      rw [ih ((settled_cons_of_ne hid).1 h)]
      rfl

/-- The sources of these identifiers, parsed anew. -/
abbrev hydrateAll (ids : List ObjectId) (objects : List (Object K (ObjectPayload E))) :
    Except (FileError E) (List (Object K (ObjectPayload E))) :=
  ids.foldlM (fun objects id => updateFirst id Object.reparse objects) objects

/-- Behind the run through the identifiers each of them has its image. -/
theorem hydrateAll_cases {ids : List ObjectId} (h : hydrateAll ids objects = .ok objects') :
    (objects'.map fun o => o.info.id) = (objects.map fun o => o.info.id)
      ∧ (∀ id ∈ ids, Settled objects' id) ∧ ∀ id, Settled objects id → Settled objects' id := by
  induction ids generalizing objects with
  | nil =>
    obtain rfl := Except.ok.inj h
    exact ⟨rfl, fun id hid => absurd hid List.not_mem_nil, fun id h => h⟩
  | cons id ids ih =>
    obtain ⟨next, hnext, h⟩ := Geo.exists_ok_of_bind h
    obtain ⟨hids, hsettled, hkept⟩ := updateFirst_cases hnext
    obtain ⟨hids', hsettled', hkept'⟩ := ih h
    exact ⟨hids'.trans hids, List.forall_mem_cons.2 ⟨hkept' id hsettled, hsettled'⟩,
      fun other hother => hkept' other (hkept other hother)⟩

theorem hydrateAll_of_settled {ids : List ObjectId} (h : ∀ id ∈ ids, Settled objects id) :
    hydrateAll ids objects = .ok objects := by
  induction ids with
  | nil => rfl
  | cons id ids ih =>
    obtain ⟨hid, hids⟩ := List.forall_mem_cons.1 h
    show (updateFirst id Object.reparse objects >>= hydrateAll ids) = _
    rw [updateFirst_of_settled hid]
    exact ih hids

/-- **To hydrate a hydrated project changes nothing.** -/
theorem hydrate_hydrate {project hydrated : Project E} (h : project.hydrate = .ok hydrated) :
    hydrated.hydrate = .ok hydrated := by
  unfold Project.hydrate at h
  obtain ⟨objects, hobjects, h⟩ := Geo.exists_ok_of_bind h
  obtain rfl := Except.ok.inj h
  obtain ⟨hids, hsettled, -⟩ := hydrateAll_cases hobjects
  unfold Project.hydrate
  dsimp only
  rw [hids]
  have hsame := hydrateAll_of_settled hsettled
  unfold hydrateAll at hsame
  rw [hsame]
  rfl

/-- The first object of an identifier, behind others. -/
theorem updateFirst_append {done rest : List (Object K (ObjectPayload E))}
    {o o' : Object K (ObjectPayload E)} (hdone : ∀ d ∈ done, d.info.id ≠ o.info.id)
    (hparse : o.reparse = .ok o') :
    updateFirst o.info.id Object.reparse (done ++ o :: rest) = .ok (done ++ o' :: rest) := by
  induction done with
  | nil =>
    rw [List.nil_append]
    unfold updateFirst
    rw [if_pos rfl, hparse]
    rfl
  | cons d done ih =>
    obtain ⟨hd, hdone⟩ := List.forall_mem_cons.1 hdone
    rw [List.cons_append]
    unfold updateFirst
    rw [if_neg hd, ih hdone]
    rfl

/-- Objects whose images were dropped get them back, one after the other. -/
theorem hydrateAll_uncached (done : List (Object K (ObjectPayload E)))
    {rest : List (Object K (ObjectPayload E))}
    (hnodup : ((done ++ rest).map fun o => o.info.id).Nodup)
    (hparsed : ∀ o ∈ rest, o.payload.Parsed) :
    hydrateAll (rest.map fun o => o.info.id) (done ++ rest.map Object.uncached)
      = .ok (done ++ rest) := by
  induction rest generalizing done with
  | nil => rfl
  | cons o rest ih =>
    obtain ⟨ho, hrest⟩ := List.forall_mem_cons.1 hparsed
    have hdone : ∀ d ∈ done, d.info.id ≠ o.uncached.info.id := by
      intro d hd heq
      rw [List.map_append, List.nodup_append] at hnodup
      exact hnodup.2.2 _ (List.mem_map_of_mem hd) _ (List.mem_map_of_mem List.mem_cons_self) heq
    show (updateFirst o.uncached.info.id Object.reparse
      (done ++ o.uncached :: rest.map Object.uncached) >>= hydrateAll _) = _
    rw [updateFirst_append hdone (Object.reparse_uncached ho)]
    have hnext := ih (done ++ [o]) (by simpa using hnodup) hrest
    rw [List.append_assoc, List.append_assoc] at hnext
    exact hnext

end Hydrate

/-! ## What a session holds -/

section Documents

variable [Field K] [LinearOrder K]

/-- Every image is what its source makes, and the stock defines the origin. -/
structure Document.Sound (doc : Document E) : Prop where
  parsed : ∀ o ∈ doc.collection.objects, o.payload.Parsed
  origin : ∀ stock, doc.setup.stock = some stock → doc.setup.origin = stock.origin

theorem Document.Sound.of_follows {doc doc' : Document E} (h : doc.Sound)
    (hfollows : Follows doc doc') : doc'.Sound := by
  refine ⟨fun o' ho' => ?_, fun stock hstock => ?_⟩
  · rcases hfollows.collection.object o' ho' with ⟨o, ho, hkeeps⟩ | hfresh
    · rcases hkeeps.payload with hsame | hjob
      · rw [hsame]
        exact h.parsed o ho
      · exact ObjectPayload.parsed_of_kind hjob
    · exact hfresh.parsed
  · rcases hfollows.setup with hsame | ⟨chosen, hchosen⟩ | ⟨x, y, hpoint⟩
    · rw [hsame] at hstock ⊢
      exact h.origin stock hstock
    · rw [hchosen] at hstock ⊢
      cases chosen with
      | none => cases hstock
      | some chosen =>
        obtain rfl := Option.some.inj hstock
        rfl
    · rw [hpoint] at hstock
      cases hstock

/-- **Every document of every run is sound.** -/
theorem Document.sound_run (ops : List (SessionOp E)) :
    ((Session.new : Session E).run ops).history.All Document.Sound :=
  Session.all_run ⟨fun o ho => absurd ho List.not_mem_nil, fun stock hstock => by cases hstock⟩
    (fun _ _ hfollows h => h.of_follows hfollows) ops

/-! ## The round trip -/

variable {serde : Serde E}

omit [LinearOrder K] in
/-- All but the images is kept. -/
theorem Serde.Exact.kept_object (h : serde.Exact) (o : Object K (ObjectPayload E)) :
    (objectCodec serde).kept o = o.uncached := by
  obtain ⟨info, payload⟩ := o
  cases payload with
  | gerber source image => rfl
  | excellon source image => rfl
  | geometry polygons polylines =>
    show (⟨info, .geometry (serde.polygons.kept polygons) (serde.polylines.kept polylines)⟩ :
      Object K (ObjectPayload E)) = ⟨info, .geometry polygons polylines⟩
    rw [h.polygons, h.polylines]
  | cncJob job =>
    have hemission : job.emission.map serde.emission.kept = job.emission := by
      cases hsome : job.emission with
      | none => rfl
      | some emission => exact congrArg some (h.emission emission)
    show (⟨info, .cncJob { job with
        gcode := serde.program.kept job.gcode
        operation := serde.operation.kept job.operation
        emission := job.emission.map serde.emission.kept }⟩ : Object K (ObjectPayload E))
      = ⟨info, .cncJob job⟩
    rw [h.program, h.operation, hemission]

omit [LinearOrder K] in
theorem Serde.Exact.kept_collection (h : serde.Exact)
    (c : StoredCollection K (ObjectPayload E)) :
    (collectionCodec serde).kept c = { c with objects := c.objects.map Object.uncached } := by
  have hgroups : c.groups.map (groupCodec : JsonCodec K Group).kept = c.groups := c.groups.map_id
  show ({ c with
      objects := c.objects.map (objectCodec serde).kept
      groups := c.groups.map (groupCodec : JsonCodec K Group).kept } :
    StoredCollection K (ObjectPayload E)) = _
  rw [hgroups, List.map_congr_left fun o _ => h.kept_object o]

omit [LinearOrder K] [Field K] in
theorem bind_of_ok {X Y : Type} {x : Except (FileError E) X} {f : X → Except (FileError E) Y}
    {value : X} (h : x = .ok value) : (x >>= f) = f value := by
  rw [h]
  rfl

omit [LinearOrder K] [Field K] in
theorem bind_of_error {X Y : Type} {x : Except (FileError E) X} {f : X → Except (FileError E) Y}
    {e : FileError E} (h : x = .error e) : (x >>= f) = .error e := by
  rw [h]
  rfl

omit [LinearOrder K] [Field K] in
theorem mapError_of_ok {X : Type} {x : Except String X} {value : X} (h : x = .ok value)
    (f : String → FileError E) : x.mapError f = .ok value := by
  rw [h]
  rfl

omit [LinearOrder K] in
/-- A document of the version of the schema is loaded as its fields are read. -/
theorem loadProject_of_version {json : String} {value : Json K} {file : ProjectFile E}
    (hjson : serde.fromStr json = .ok value)
    (hversion : (readVersion value : Except (FileError E) UInt32) = .ok schemaVersion)
    (hfile : (projectFileCodec serde).decode value = .ok file) :
    ∃ origin, loadProject serde json = .ok ⟨file.name, file.collection, origin, file.stock⟩
      ∧ (file.stock = none → origin = file.origin)
      ∧ ∀ stock, file.stock = some stock → origin = stock.origin := by
  have hupgrade : (upgrade schemaVersion value : Except (FileError E) (Json K)) = .ok value :=
    if_pos rfl
  obtain ⟨version, name, collection, origin, stock⟩ := file
  cases stock with
  | none =>
    exact ⟨origin, (bind_of_ok (mapError_of_ok hjson _)).trans ((bind_of_ok hversion).trans
      ((bind_of_ok hupgrade).trans (bind_of_ok (mapError_of_ok hfile _)))), fun _ => rfl,
      fun stock hstock => absurd hstock.symm (Option.some_ne_none stock)⟩
  | some stock =>
    exact ⟨stock.origin, (bind_of_ok (mapError_of_ok hjson _)).trans ((bind_of_ok hversion).trans
      ((bind_of_ok hupgrade).trans (bind_of_ok (mapError_of_ok hfile _)))),
      fun hnone => absurd hnone (Option.some_ne_none stock),
      fun stock' hstock => congrArg Stock.origin (Option.some.inj hstock)⟩

omit [LinearOrder K] in
/-- **What is loaded of a project that was saved** is the project without its images. -/
theorem loadProject_saveProject (h : serde.Exact) {project : Project E} {text : String}
    (hsave : saveProject serde project = .ok text)
    (horigin : ∀ stock, project.stock = some stock → project.origin = stock.origin) :
    loadProject serde text = .ok { project with
      collection := { project.collection with
        objects := project.collection.objects.map Object.uncached } } := by
  have hprint : serde.toStringPretty ((projectFileCodec serde).encode ⟨schemaVersion,
      project.name, project.collection, project.origin, project.stock⟩) = .ok text := by
    unfold saveProject at hsave
    cases hprint : serde.toStringPretty ((projectFileCodec serde).encode ⟨schemaVersion,
      project.name, project.collection, project.origin, project.stock⟩) with
    | error e =>
      rw [hprint] at hsave
      cases hsave
    | ok printed =>
      rw [hprint] at hsave
      rw [Except.ok.inj hsave]
  have hfile := (projectFileCodec serde).decode_encode ⟨schemaVersion, project.name,
    project.collection, project.origin, project.stock⟩
  obtain ⟨origin, hload, hnone, hsome⟩ := loadProject_of_version (h.text _ _ hprint) rfl hfile
  have hsame : origin = project.origin := by
    cases hstock : project.stock with
    | none => exact hnone hstock
    | some stock => exact (hsome stock hstock).trans (horigin stock hstock).symm
  rw [hload, hsame]
  exact congrArg (fun c => Except.ok (⟨project.name, c, project.origin, project.stock⟩ : Project E))
    (h.kept_collection project.collection)

/-- **The round trip**: a project that is saved, loaded, and hydrated is the project, and the
origin that it keeps is the one that its stock defines. -/
def Session.RoundTrips (serde : Serde E) (name : String) (s : Session E) : Prop :=
  ∀ text, s.saveProject serde name = .ok text → ∃ loaded, loadProject serde text = .ok loaded
    ∧ loaded.hydrate
      = .ok ⟨name, s.collection.stored, s.doc.setup.origin, s.doc.setup.stock⟩
    ∧ ∀ stock, s.doc.setup.stock = some stock → s.doc.setup.origin = stock.origin

theorem Session.roundTrips_run (h : serde.Exact) (name : String) (ops : List (SessionOp E)) :
    ((Session.new : Session E).run ops).RoundTrips serde name := by
  intro text hsave
  have hsound := (Document.sound_run (E := E) ops).present
  generalize (Session.new : Session E).run ops = s at hsave hsound ⊢
  refine ⟨_, loadProject_saveProject h hsave hsound.origin, ?_, hsound.origin⟩
  have hall : hydrateAll (s.collection.objects.map fun o => o.info.id)
      (s.collection.objects.map Object.uncached) = .ok s.collection.objects :=
    hydrateAll_uncached [] s.collection.nodup hsound.parsed
  have hids : ((s.collection.objects.map Object.uncached).map fun o => o.info.id)
      = s.collection.objects.map fun o => o.info.id := by
    rw [List.map_map]
    rfl
  have hobjects : hydrateAll ((s.collection.objects.map Object.uncached).map fun o => o.info.id)
      (s.collection.objects.map Object.uncached) = .ok s.collection.objects := by
    rw [hids]
    exact hall
  exact (bind_of_ok hobjects).trans rfl

/-! ## The gate -/

/-- **The law of the gate**: a document is loaded at version 1 only, and any other integer in the
place of the version is refused as a version that is not supported. -/
structure Gated (serde : Serde E) (json : String) : Prop where
  /-- What is loaded is of version 1. -/
  version : ∀ project, loadProject serde json = .ok project → ∃ value,
    serde.fromStr json = .ok value ∧ value.get "schema_version" = some (.integer false 1)
  /-- Any other integer is refused for what it is. -/
  refused : ∀ value negative magnitude, serde.fromStr json = .ok value →
    value.get "schema_version" = some (.integer negative magnitude) →
    ¬ (negative = false ∧ magnitude = 1) →
    ∃ found, loadProject serde json = .error (.unsupportedVersion found schemaVersion)

omit [LinearOrder K] [Field K] in
theorem ok_of_mapError {X : Type} {x : Except String X} {f : String → FileError E} {value : X}
    (h : x.mapError f = .ok value) : x = .ok value := by
  cases x with
  | error e => cases h
  | ok found => exact congrArg Except.ok (Except.ok.inj h)

omit [LinearOrder K] [Field K] in
/-- The version of a document: an integer of 64 bits without a sign, narrowed. -/
theorem readVersion_eq_ok {value : Json K} {version : UInt32}
    (h : (readVersion value : Except (FileError E) UInt32) = .ok version) :
    ∃ magnitude, value.get "schema_version" = some (.integer false magnitude)
      ∧ magnitude < 2 ^ 64 ∧ version = .ofNat magnitude := by
  unfold readVersion at h
  cases hget : value.get "schema_version" with
  | none =>
    rw [hget] at h
    cases h
  | some field =>
    rw [hget, Option.bind_some] at h
    cases field with
    | integer negative magnitude =>
      cases negative with
      | true => cases h
      | false =>
        rw [Json.asU64_integer] at h
        by_cases hsmall : magnitude < 2 ^ 64
        · rw [if_pos hsmall] at h
          exact ⟨magnitude, rfl, hsmall, (Except.ok.inj h).symm⟩
        · rw [if_neg hsmall] at h
          cases h
    | _ => cases h

omit [LinearOrder K] [Field K] in
theorem readVersion_of_integer {value : Json K} {magnitude : ℕ}
    (hget : value.get "schema_version" = some (.integer false magnitude))
    (hsmall : magnitude < 2 ^ 64) :
    (readVersion value : Except (FileError E) UInt32) = .ok (.ofNat magnitude) := by
  unfold readVersion
  rw [hget, Option.bind_some, Json.asU64_integer, if_pos hsmall]

/-- The version as 32 bits have it. -/
theorem ofNat_eq_schemaVersion_iff (magnitude : ℕ) :
    UInt32.ofNat magnitude = schemaVersion ↔ magnitude % 2 ^ 32 = 1 := by
  rw [← UInt32.toNat_inj, UInt32.toNat_ofNat']
  exact Iff.rfl

omit [LinearOrder K] in
/-- **What is loaded is of version 1**: the version is read once more, with the other fields. -/
theorem version_of_loadProject {json : String} {project : Project E}
    (h : loadProject serde json = .ok project) : ∃ value, serde.fromStr json = .ok value
      ∧ value.get "schema_version" = some (.integer false 1) := by
  obtain ⟨value, hjson, h⟩ := Geo.exists_ok_of_bind h
  obtain ⟨version, hversion, h⟩ := Geo.exists_ok_of_bind h
  obtain ⟨upgraded, hupgraded, h⟩ := Geo.exists_ok_of_bind h
  obtain ⟨file, hfile, -⟩ := Geo.exists_ok_of_bind h
  obtain ⟨magnitude, hget, -, rfl⟩ := readVersion_eq_ok hversion
  unfold upgrade at hupgraded
  split at hupgraded
  · rename_i hone
    obtain rfl := Except.ok.inj hupgraded
    obtain ⟨version, hfield, -⟩ := Geo.exists_ok_of_bind (ok_of_mapError hfile)
    unfold JsonCodec.field at hfield
    rw [hget] at hfield
    dsimp only [u32Codec] at hfield
    split at hfield
    · rename_i hsmall
      have hnarrow := (ofNat_eq_schemaVersion_iff magnitude).1 hone
      rw [Nat.mod_eq_of_lt hsmall] at hnarrow
      refine ⟨value, ok_of_mapError hjson, ?_⟩
      rw [hget, hnarrow]
    · cases hfield
  · cases hupgraded

omit [LinearOrder K] in
/-- A document whose version cannot be read is refused for that. -/
theorem loadProject_of_error {json : String} {value : Json K} {e : FileError E}
    (hjson : serde.fromStr json = .ok value) (hversion : readVersion value = .error e) :
    loadProject serde json = .error e := by
  refine (bind_of_ok (mapError_of_ok hjson _)).trans ?_
  rw [hversion]
  rfl

omit [LinearOrder K] in
/-- **The gate refuses an integer for what it is just when it has 64 bits, no sign, and is not one
in its lowest 32 bits.** -/
theorem refused_iff {json : String} {value : Json K} {negative : Bool} {magnitude : ℕ}
    (hjson : serde.fromStr json = .ok value)
    (hget : value.get "schema_version" = some (.integer negative magnitude)) :
    (∃ found, loadProject serde json = .error (.unsupportedVersion found schemaVersion))
      ↔ negative = false ∧ magnitude < 2 ^ 64 ∧ magnitude % 2 ^ 32 ≠ 1 := by
  have hnone : ∀ document : Json K, value.get "schema_version" = some document →
      document.asU64 = none →
      ¬ ∃ found, loadProject serde json = .error (.unsupportedVersion found schemaVersion) := by
    rintro document hdocument hu64 ⟨found, hload⟩
    have hversion : (readVersion value : Except (FileError E) UInt32)
        = .error (.deserialize "missing or non-integer 'schema_version' field") := by
      unfold readVersion
      rw [hdocument, Option.bind_some, hu64]
    cases (loadProject_of_error hjson hversion).symm.trans hload
  cases negative with
  | true => exact iff_of_false (hnone _ hget rfl) fun h => Bool.noConfusion h.1
  | false =>
    by_cases hsmall : magnitude < 2 ^ 64
    · have hversion := readVersion_of_integer (E := E) hget hsmall
      by_cases hone : magnitude % 2 ^ 32 = 1
      · refine iff_of_false ?_ fun h => h.2.2 hone
        rintro ⟨found, hload⟩
        rw [(ofNat_eq_schemaVersion_iff magnitude).2 hone] at hversion
        cases hfile : (projectFileCodec serde).decode value with
        | error message =>
          have hupgrade : (upgrade schemaVersion value : Except (FileError E) (Json K))
              = .ok value := if_pos rfl
          have hrefused : ((projectFileCodec serde).decode value).mapError FileError.deserialize
              = .error (.deserialize message : FileError E) := by
            rw [hfile]
            rfl
          have hfailed : loadProject serde json = .error (.deserialize message) :=
            (bind_of_ok (mapError_of_ok hjson _)).trans ((bind_of_ok hversion).trans
              ((bind_of_ok hupgrade).trans (bind_of_error hrefused)))
          cases hfailed.symm.trans hload
        | ok file =>
          obtain ⟨origin, hloaded, -, -⟩ := loadProject_of_version hjson hversion hfile
          cases hloaded.symm.trans hload
      · refine iff_of_true ⟨.ofNat magnitude, ?_⟩ ⟨rfl, hsmall, hone⟩
        refine (bind_of_ok (mapError_of_ok hjson _)).trans ((bind_of_ok hversion).trans ?_)
        have hupgrade : (upgrade (.ofNat magnitude) value : Except (FileError E) (Json K))
            = .error (.unsupportedVersion (.ofNat magnitude) schemaVersion) :=
          if_neg fun h => hone ((ofNat_eq_schemaVersion_iff magnitude).1 h)
        rw [hupgrade]
        rfl
    · refine iff_of_false (hnone _ hget ?_) fun h => hsmall h.2.1
      rw [Json.asU64_integer, if_neg hsmall]

omit [LinearOrder K] in
/-- **The gate keeps its law just where each integer in the place of the version is one, or has 64
bits and no sign and is not one in its lowest 32 bits.** -/
theorem gated_iff (json : String) : Gated serde json ↔ ∀ value negative magnitude,
    serde.fromStr json = .ok value →
    value.get "schema_version" = some (.integer negative magnitude) →
    negative = false ∧ (magnitude = 1 ∨ magnitude < 2 ^ 64 ∧ magnitude % 2 ^ 32 ≠ 1) := by
  constructor
  · intro h value negative magnitude hjson hget
    by_cases hone : negative = false ∧ magnitude = 1
    · exact ⟨hone.1, .inl hone.2⟩
    · obtain ⟨hnegative, hrefused⟩ := (refused_iff hjson hget).1
        (h.refused value negative magnitude hjson hget hone)
      exact ⟨hnegative, .inr hrefused⟩
  · refine fun h => ⟨fun project hload => version_of_loadProject hload,
      fun value negative magnitude hjson hget hother => ?_⟩
    obtain ⟨hnegative, hone | hrefused⟩ := h value negative magnitude hjson hget
    · exact absurd ⟨hnegative, hone⟩ hother
    · exact (refused_iff hjson hget).2 ⟨hnegative, hrefused⟩

end Documents

/-! ## Integers that slip through -/

/-- Nothing to write. -/
def emptyCodec : JsonCodec ℚ Unit where
  encode _ := .array []
  decode _ := .ok ()
  kept := id
  decode_encode _ := rfl

/-- The operations of the engine. -/
def echoOperations : JsonCodec ℚ (CamOperation Engine.echo) where
  encode
    | .isolation _ => .object [("Isolation", .array [])]
    | .drilling _ => .object [("Drilling", .array [])]
    | .paint _ => .object [("Paint", .array [])]
    | .nonCopper _ => .object [("NonCopper", .array [])]
    | .cutout ⟨.rectangle low high, _⟩ =>
      .object [("Cutout", .array [pairCodec.encode low, pairCodec.encode high])]
    | .cutout ⟨.geometry _, _⟩ => .object [("Cutout", .array [])]
  decode document := do
    let (name, value) ← document.variant
    match name, value with
    | "Isolation", _ => .ok (.isolation ())
    | "Drilling", _ => .ok (.drilling ())
    | "Paint", _ => .ok (.paint ())
    | "NonCopper", _ => .ok (.nonCopper ())
    | "Cutout", .array [low, high] =>
      .ok (.cutout ⟨.rectangle (← pairCodec.decode low) (← pairCodec.decode high), ()⟩)
    | "Cutout", _ => .ok (.cutout ⟨.geometry (), ()⟩)
    | _, _ => .error "unknown variant"
  kept := id
  decode_encode operation := by
    cases operation with
    | cutout spec =>
      obtain ⟨outline, params⟩ := spec
      cases outline with
      | rectangle low high => rfl
      | geometry region => rfl
    | _ => rfl

/-- The emissions of the engine. -/
def echoEmissions : JsonCodec ℚ (JobEmission Engine.echo) where
  encode
    | .isolation _ => .object [("Isolation", .array [])]
    | .drill _ => .object [("Drill", .array [])]
  decode document := do
    let (name, _) ← document.variant
    match name with
    | "Isolation" => .ok (.isolation ())
    | "Drill" => .ok (.drill ())
    | _ => .error "unknown variant"
  kept := id
  decode_encode emission := by cases emission <;> rfl

/-- What is written of the echoing engine, but for the text. -/
def echoCodecs : Serde Engine.echo where
  toStringPretty _ := .error "no text"
  fromStr _ := .error "no document"
  polygons := emptyCodec
  polylines := emptyCodec
  program := .text
  operation := echoOperations
  emission := echoEmissions
  emission_ne_null emission' h := by cases emission' <;> cases h

/-- The document of an empty project. -/
def emptyDocument : Json ℚ :=
  (projectFileCodec echoCodecs).encode ⟨schemaVersion, "board", ⟨[], [], 1⟩, (0, 0, 0), none⟩

/-- The text of an empty project. -/
def emptyText : String :=
  "\x7b\"schema_version\": 1, \"name\": \"board\", "
    ++ "\"collection\": \x7b\"objects\": [], \"groups\": [], \"next_id\": 1\x7d, "
    ++ "\"origin\": [0.0, 0.0, 0.0], \"stock\": null\x7d"

/-- A version whose lowest 32 bits are one. -/
def wideText : String := "\x7b\"schema_version\": 4294967297\x7d"

/-- An engine's texts: the text of an empty project, and one that declares the wide version. -/
def echoSerde : Serde Engine.echo :=
  { echoCodecs with
    toStringPretty := fun document =>
      match document with
      | .object [("schema_version", .integer false 1), ("name", .text "board"),
          ("collection", .object [("objects", .array []), ("groups", .array []),
            ("next_id", .integer false 1)]),
          ("origin", .array [.decimal x, .decimal y, .decimal z]), ("stock", .null)] =>
        if x = 0 ∧ y = 0 ∧ z = 0 then .ok emptyText else .error "no text"
      | _ => .error "no text"
    fromStr := fun text =>
      if text = emptyText then .ok emptyDocument
      else if text = wideText then .ok (.object [("schema_version", .integer false 4294967297)])
      else .error "expected value" }

theorem exact_echoSerde : echoSerde.Exact where
  text document text h := by
    unfold echoSerde at h ⊢
    dsimp only at h ⊢
    split at h
    · split at h
      · rename_i hzero
        obtain ⟨rfl, rfl, rfl⟩ := hzero
        obtain rfl := Except.ok.inj h
        rw [if_pos rfl]
        rfl
      · cases h
    · cases h
  polygons _ := rfl
  polylines _ := rfl
  program _ := rfl
  operation _ := rfl
  emission _ := rfl

/-- An empty project is saved, and its text is loaded. -/
example : ((Session.new : Session Engine.echo).saveProject echoSerde "board").toOption
    = some emptyText := by rfl

end Galdr.Project
