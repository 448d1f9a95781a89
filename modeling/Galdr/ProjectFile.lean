import Galdr.CamSession
import Galdr.Json

/-!
# The project file

A project is saved as a JSON document under the version of its schema: its name, its objects and
groups, the work origin, and the stock. The images that the parsers made of the sources are not
written; a project that was loaded has none until it is hydrated, which parses every source
anew. The stock defines the origin, and so a project that is loaded with a stock takes the origin
from it. A document of another version is refused; the version is read as 64 bits and narrowed to
32.

What is derived for the types of the engine, and the text of a document, is a parameter
(`Serde`).
-/

-- A project is called so in the namespace that is called so.
set_option linter.dupNamespace false

namespace Galdr.Project

variable {K : Type}

/-! ## Projects -/

/-- The objects and groups of a project, as a file has them: nothing is known of the
identifiers. -/
structure StoredCollection (K P : Type) where
  /-- The objects, in their order. -/
  objects : List (Object K P)
  /-- The groups. -/
  groups : List Group
  /-- The next identifier. -/
  nextId : ObjectId

/-- The objects and groups, as a file has them. -/
def ObjectCollection.stored {P : Type} (c : ObjectCollection K P) : StoredCollection K P :=
  ⟨c.objects, c.groups, c.nextId⟩

/-- A project. -/
structure Project (E : Engine K) where
  /-- The name. -/
  name : String
  /-- The objects and groups. -/
  collection : StoredCollection K (ObjectPayload E)
  /-- The point that is at zero. -/
  origin : K × K × K
  /-- The stock. -/
  stock : Option (Stock K)

/-- The errors of a project file. -/
inductive FileError (E : Engine K)
  /-- Writing failed. -/
  | serialize (message : String)
  /-- The document is none, or not one of its version. -/
  | deserialize (message : String)
  /-- The version is not one that can be read. -/
  | unsupportedVersion (found supported : UInt32)
  /-- A source could not be parsed again. -/
  | engine (fault : E.Fault)

/-- `SCHEMA_VERSION`. -/
def schemaVersion : UInt32 := 1

/-! ## Codecs -/

/-- How serde writes and reads what is a parameter of the session, and the text of a document. -/
structure Serde (E : Engine K) where
  /-- The text of a document. -/
  toStringPretty : Json K → Except String String
  /-- The document of a text. -/
  fromStr : String → Except String (Json K)
  /-- Regions. -/
  polygons : JsonCodec K E.Region
  /-- Open paths. -/
  polylines : JsonCodec K E.Polylines
  /-- Rendered lines. -/
  program : JsonCodec K E.Program
  /-- Operations. -/
  operation : JsonCodec K (CamOperation E)
  /-- Emissions. -/
  emission : JsonCodec K (JobEmission E)
  /-- An emission is not written as one that is missing. -/
  emission_ne_null : ∀ emission', emission.encode emission' ≠ .null

/-- Every value is written and read back exactly. -/
structure Serde.Exact {E : Engine K} (serde : Serde E) : Prop where
  text : ∀ document text, serde.toStringPretty document = .ok text →
    serde.fromStr text = .ok document
  polygons : serde.polygons.Exact
  polylines : serde.polylines.Exact
  program : serde.program.Exact
  operation : serde.operation.Exact
  emission : serde.emission.Exact

section Codecs

variable [Field K]

/-- A map, as its six coefficients. -/
def affineCodec : JsonCodec K (Affine K) where
  encode m := .array (([m.a, m.b, m.c, m.d, m.e, m.f] : List K).map JsonCodec.number.encode)
  decode document := do
    match ← (JsonCodec.list JsonCodec.number).decode document with
    | [a, b, c, d, e, f] => .ok ⟨a, b, c, d, e, f⟩
    | _ => .error "invalid length, expected an array of length 6"
  kept := id
  decode_encode _ := rfl

/-- A pair of numbers. -/
def pairCodec : JsonCodec K (K × K) where
  encode p := .array (([p.1, p.2] : List K).map JsonCodec.number.encode)
  decode document := do
    match ← (JsonCodec.list JsonCodec.number).decode document with
    | [x, y] => .ok (x, y)
    | _ => .error "invalid length, expected a tuple of size 2"
  kept := id
  decode_encode _ := rfl

/-- Three numbers. -/
def tripleCodec : JsonCodec K (K × K × K) where
  encode p := .array (([p.1, p.2.1, p.2.2] : List K).map JsonCodec.number.encode)
  decode document := do
    match ← (JsonCodec.list JsonCodec.number).decode document with
    | [x, y, z] => .ok (x, y, z)
    | _ => .error "invalid length, expected a tuple of size 3"
  kept := id
  decode_encode _ := rfl

/-- An unsigned number of 32 bits. -/
def u32Codec : JsonCodec K UInt32 where
  encode n := .integer false n.toNat
  decode
    | .integer false magnitude =>
      if magnitude < 2 ^ 32 then .ok (.ofNat magnitude) else .error "invalid value, expected u32"
    | _ => .error "invalid type, expected u32"
  kept := id
  decode_encode n := by
    show (if n.toNat < 2 ^ 32 then Except.ok (UInt32.ofNat n.toNat) else _) = _
    rw [if_pos n.toNat_lt, UInt32.ofNat_toNat]
    rfl

/-- The corners, by their names. -/
def datumCodec : JsonCodec K DatumCorner where
  encode
    | .bottomLeft => .text "BottomLeft"
    | .bottomRight => .text "BottomRight"
    | .topLeft => .text "TopLeft"
    | .topRight => .text "TopRight"
    | .center => .text "Center"
  decode
    | .text "BottomLeft" => .ok .bottomLeft
    | .text "BottomRight" => .ok .bottomRight
    | .text "TopLeft" => .ok .topLeft
    | .text "TopRight" => .ok .topRight
    | .text "Center" => .ok .center
    | _ => .error "unknown variant"
  kept := id
  decode_encode corner := by cases corner <;> rfl

/-- The faces, by their names. -/
def zRefCodec : JsonCodec K ZReference where
  encode
    | .top => .text "Top"
    | .bottom => .text "Bottom"
  decode
    | .text "Top" => .ok .top
    | .text "Bottom" => .ok .bottom
    | _ => .error "unknown variant"
  kept := id
  decode_encode face := by cases face <;> rfl

/-- A stock. -/
def stockCodec : JsonCodec K (Stock K) where
  encode stock := .object [
    ("min_x", JsonCodec.number.encode stock.minX), ("min_y", JsonCodec.number.encode stock.minY),
    ("size_x", JsonCodec.number.encode stock.sizeX),
    ("size_y", JsonCodec.number.encode stock.sizeY),
    ("thickness", JsonCodec.number.encode stock.thickness), ("z_ref", zRefCodec.encode stock.zRef),
    ("datum", datumCodec.encode stock.datum)]
  decode document := do
    let minX ← JsonCodec.number.field "min_x" document
    let minY ← JsonCodec.number.field "min_y" document
    let sizeX ← JsonCodec.number.field "size_x" document
    let sizeY ← JsonCodec.number.field "size_y" document
    let thickness ← JsonCodec.number.field "thickness" document
    let zRef ← zRefCodec.field "z_ref" document
    let datum ← datumCodec.field "datum" document
    .ok ⟨minX, minY, sizeX, sizeY, thickness, zRef, datum⟩
  kept := id
  decode_encode stock := by
    obtain ⟨minX, minY, sizeX, sizeY, thickness, zRef, datum⟩ := stock
    cases zRef <;> cases datum <;> rfl

/-- The source of a job. -/
def sourceCodec : JsonCodec K (Option ObjectId) := JsonCodec.nat.option fun _ h => by cases h

/-- A group. -/
def groupCodec : JsonCodec K Group where
  encode group := .object [("name", JsonCodec.text.encode group.name),
    ("members", (JsonCodec.list JsonCodec.nat).encode group.members)]
  decode document := do
    let name ← JsonCodec.text.field "name" document
    let members ← (JsonCodec.list JsonCodec.nat).field "members" document
    .ok ⟨name, members⟩
  kept := id
  decode_encode group := by
    rw [JsonCodec.field_encode JsonCodec.text rfl,
      JsonCodec.field_encode (JsonCodec.list JsonCodec.nat) rfl]
    show Except.ok (⟨group.name, group.members.map id⟩ : Group) = .ok group
    rw [List.map_id]

/-- The tag of a unit. A session works in millimetres. -/
def unitCodec : JsonCodec K Unit where
  encode _ := .text "mm"
  decode
    | .text "mm" => .ok ()
    | .text "inch" => .ok ()
    | .text other => .error ("unknown unit tag '" ++ other ++ "'")
    | _ => .error "invalid type, expected a string"
  kept := id
  decode_encode _ := rfl

/-- What every object has. A session writes no notes. -/
def metaCodec : JsonCodec K (ObjectMeta K) where
  encode info := .object [("id", JsonCodec.nat.encode info.id),
    ("name", JsonCodec.text.encode info.name),
    ("units", unitCodec.encode ()), ("placement", affineCodec.encode info.placement),
    ("visible", JsonCodec.bool.encode info.visible), ("notes", JsonCodec.text.encode "")]
  decode document := do
    let id ← JsonCodec.nat.field "id" document
    let name ← JsonCodec.text.field "name" document
    let _ ← unitCodec.field "units" document
    let placement ← affineCodec.field "placement" document
    let visible ← JsonCodec.bool.field "visible" document
    let _ ← JsonCodec.text.fieldOr "notes" "" document
    .ok ⟨id, name, placement, visible⟩
  kept := id
  decode_encode _ := rfl

variable {E : Engine K} (serde : Serde E)

/-- A job. What an old project lacks has a default. -/
def jobCodec : JsonCodec K (CncJobObject E) where
  encode job := .object [("gcode", serde.program.encode job.gcode),
    ("dialect", JsonCodec.text.encode job.dialect), ("source", sourceCodec.encode job.source),
    ("operation", serde.operation.encode job.operation), ("origin", pairCodec.encode job.origin),
    ("stale", JsonCodec.bool.encode job.stale),
    ("emission", (serde.emission.option serde.emission_ne_null).encode job.emission)]
  decode document := do
    let gcode ← serde.program.field "gcode" document
    let dialect ← JsonCodec.text.field "dialect" document
    let source ← sourceCodec.fieldOr "source" none document
    let operation ← serde.operation.field "operation" document
    let origin ← pairCodec.fieldOr "origin" (0, 0) document
    let stale ← JsonCodec.bool.fieldOr "stale" false document
    let emission ← (serde.emission.option serde.emission_ne_null).fieldOr "emission" none document
    .ok ⟨gcode, dialect, source, operation, origin, stale, emission⟩
  kept job := { job with
    gcode := serde.program.kept job.gcode
    operation := serde.operation.kept job.operation
    emission := job.emission.map serde.emission.kept }
  decode_encode job := by
    rw [JsonCodec.field_encode serde.program rfl, JsonCodec.field_encode JsonCodec.text rfl,
      JsonCodec.fieldOr_encode sourceCodec rfl, JsonCodec.field_encode serde.operation rfl,
      JsonCodec.fieldOr_encode pairCodec rfl, JsonCodec.fieldOr_encode JsonCodec.bool rfl,
      JsonCodec.fieldOr_encode (serde.emission.option serde.emission_ne_null) rfl]
    obtain ⟨gcode, dialect, source, operation, origin, stale, emission⟩ := job
    cases source with
    | none => rfl
    | some id => rfl

/-- Shapes. -/
def geometryCodec : JsonCodec K (E.Region × E.Polylines) where
  encode shapes := .object [("polygons", serde.polygons.encode shapes.1),
    ("polylines", serde.polylines.encode shapes.2)]
  decode document := do
    let polygons ← serde.polygons.field "polygons" document
    let polylines ← serde.polylines.field "polylines" document
    .ok (polygons, polylines)
  kept shapes := (serde.polygons.kept shapes.1, serde.polylines.kept shapes.2)
  decode_encode shapes := by
    rw [JsonCodec.field_encode serde.polygons rfl, JsonCodec.field_encode serde.polylines rfl]
    rfl

/-- What an object is, under the name of its kind. The images are not written. -/
def payloadCodec : JsonCodec K (ObjectPayload E) where
  encode
    | .gerber source _ => .object [("Gerber", .object [("source", JsonCodec.text.encode source)])]
    | .excellon source _ =>
      .object [("Excellon", .object [("source", JsonCodec.text.encode source)])]
    | .geometry polygons polylines =>
      .object [("Geometry", (geometryCodec serde).encode (polygons, polylines))]
    | .cncJob job => .object [("CncJob", (jobCodec serde).encode job)]
  decode document := do
    let (name, value) ← document.variant
    if name = "Gerber" then .ok (.gerber (← JsonCodec.text.field "source" value) none)
    else if name = "Excellon" then .ok (.excellon (← JsonCodec.text.field "source" value) none)
    else if name = "Geometry" then
      let shapes ← (geometryCodec serde).decode value
      .ok (.geometry shapes.1 shapes.2)
    else if name = "CncJob" then .ok (.cncJob (← (jobCodec serde).decode value))
    else .error ("unknown variant `" ++ name ++ "`")
  kept
    | .gerber source _ => .gerber source none
    | .excellon source _ => .excellon source none
    | .geometry polygons polylines =>
      .geometry (serde.polygons.kept polygons) (serde.polylines.kept polylines)
    | .cncJob job => .cncJob ((jobCodec serde).kept job)
  decode_encode payload := by
    cases payload with
    | gerber source image => rfl
    | excellon source image => rfl
    | geometry polygons polylines =>
      exact congrArg (Except.map fun shapes => ObjectPayload.geometry shapes.1 shapes.2)
        ((geometryCodec serde).decode_encode (polygons, polylines))
    | cncJob job =>
      exact congrArg (Except.map ObjectPayload.cncJob) ((jobCodec serde).decode_encode job)

/-- An object. -/
def objectCodec : JsonCodec K (Object K (ObjectPayload E)) where
  encode o := .object [("meta", metaCodec.encode o.info),
    ("payload", (payloadCodec serde).encode o.payload)]
  decode document := do
    let info ← metaCodec.field "meta" document
    let payload ← (payloadCodec serde).field "payload" document
    .ok ⟨info, payload⟩
  kept o := { o with payload := (payloadCodec serde).kept o.payload }
  decode_encode o := by
    rw [JsonCodec.field_encode metaCodec rfl, JsonCodec.field_encode (payloadCodec serde) rfl]
    rfl

/-- The objects and groups. -/
def collectionCodec : JsonCodec K (StoredCollection K (ObjectPayload E)) where
  encode c := .object [("objects", (objectCodec serde).list.encode c.objects),
    ("groups", groupCodec.list.encode c.groups), ("next_id", JsonCodec.nat.encode c.nextId)]
  decode document := do
    let objects ← (objectCodec serde).list.field "objects" document
    let groups ← groupCodec.list.field "groups" document
    let nextId ← JsonCodec.nat.field "next_id" document
    .ok ⟨objects, groups, nextId⟩
  kept c := { c with
    objects := c.objects.map (objectCodec serde).kept
    groups := c.groups.map groupCodec.kept }
  decode_encode c := by
    rw [JsonCodec.field_encode (objectCodec serde).list rfl,
      JsonCodec.field_encode groupCodec.list rfl,
      JsonCodec.field_encode JsonCodec.nat rfl]
    rfl

/-- The versioned project envelope. -/
structure ProjectFile (E : Engine K) where
  /-- The version of the schema. -/
  schemaVersion : UInt32
  /-- The name. -/
  name : String
  /-- The objects and groups. -/
  collection : StoredCollection K (ObjectPayload E)
  /-- The point that is at zero. -/
  origin : K × K × K
  /-- The stock. -/
  stock : Option (Stock K)

/-- The envelope. What an old project lacks has a default. -/
def projectFileCodec : JsonCodec K (ProjectFile E) where
  encode file := .object [("schema_version", u32Codec.encode file.schemaVersion),
    ("name", JsonCodec.text.encode file.name),
    ("collection", (collectionCodec serde).encode file.collection),
    ("origin", tripleCodec.encode file.origin),
    ("stock", (stockCodec.option fun _ h => by cases h).encode file.stock)]
  decode document := do
    let schemaVersion ← u32Codec.field "schema_version" document
    let name ← JsonCodec.text.field "name" document
    let collection ← (collectionCodec serde).field "collection" document
    let origin ← tripleCodec.fieldOr "origin" (0, 0, 0) document
    let stock ← (stockCodec.option fun _ h => by cases h).fieldOr "stock" none document
    .ok ⟨schemaVersion, name, collection, origin, stock⟩
  kept file := { file with collection := (collectionCodec serde).kept file.collection }
  decode_encode file := by
    rw [JsonCodec.field_encode u32Codec rfl, JsonCodec.field_encode JsonCodec.text rfl,
      JsonCodec.field_encode (collectionCodec serde) rfl, JsonCodec.fieldOr_encode tripleCodec rfl,
      JsonCodec.fieldOr_encode (stockCodec.option fun _ h => by cases h) rfl]
    obtain ⟨schemaVersion, name, collection, origin, stock⟩ := file
    cases stock with
    | none => rfl
    | some stock => rfl

/-! ## Saving and loading -/

/-- Write a project at the version of the schema. -/
def saveProject (project : Project E) : Except (FileError E) String :=
  (serde.toStringPretty ((projectFileCodec serde).encode
    ⟨schemaVersion, project.name, project.collection, project.origin, project.stock⟩)).mapError
    .serialize

omit [Field K] in
/-- The version of a document, narrowed to 32 bits. -/
def readVersion (value : Json K) : Except (FileError E) UInt32 :=
  match (value.get "schema_version").bind Json.asU64 with
  | some version => .ok (.ofNat version)
  | none => .error (.deserialize "missing or non-integer 'schema_version' field")

omit [Field K] in
/-- Bring a document up to the version of the schema. There is one version only. -/
def upgrade (version : UInt32) (value : Json K) : Except (FileError E) (Json K) :=
  if version = schemaVersion then .ok value
  else .error (.unsupportedVersion version schemaVersion)

/-- Read a project. -/
def loadProject (json : String) : Except (FileError E) (Project E) := do
  let value ← (serde.fromStr json).mapError .deserialize
  let version ← readVersion value
  let upgraded ← upgrade version value
  let file ← ((projectFileCodec serde).decode upgraded).mapError .deserialize
  -- The stock is the source of truth when present.
  let origin := match file.stock with
    | some stock => stock.origin
    | none => file.origin
  .ok ⟨file.name, file.collection, origin, file.stock⟩

end Codecs

/-! ## Hydration -/

section Hydrate

variable {E : Engine K}

/-- Parse the source of an object anew. -/
def Object.reparse (o : Object K (ObjectPayload E)) :
    Except (FileError E) (Object K (ObjectPayload E)) :=
  match o.payload with
  | .gerber source _ => do
    let image ← (E.parseGerber source).mapError .engine
    .ok { o with payload := .gerber source (some image) }
  | .excellon source _ => do
    let image ← (E.parseExcellon source).mapError .engine
    .ok { o with payload := .excellon source (some image) }
  | .geometry _ _ => .ok o
  | .cncJob _ => .ok o

/-- Change the first object of an identifier, if there is one. -/
def updateFirst (id : ObjectId)
    (f : Object K (ObjectPayload E) → Except (FileError E) (Object K (ObjectPayload E))) :
    List (Object K (ObjectPayload E)) → Except (FileError E) (List (Object K (ObjectPayload E)))
  | [] => .ok []
  | o :: objects =>
    if o.info.id = id then do .ok ((← f o) :: objects)
    else do .ok (o :: (← updateFirst id f objects))

/-- Parse every source anew, identifier after identifier. -/
def Project.hydrate (project : Project E) : Except (FileError E) (Project E) := do
  let objects ← (project.collection.objects.map fun o => o.info.id).foldlM
    (fun objects id => updateFirst id Object.reparse objects) project.collection.objects
  .ok { project with collection := { project.collection with objects := objects } }

end Hydrate

/-- Write the project of a session, under a name. -/
def Session.saveProject [Field K] {E : Engine K} (serde : Serde E) (name : String)
    (s : Session E) : Except (FileError E) String :=
  Galdr.Project.saveProject serde
    ⟨name, s.collection.stored, s.doc.setup.origin, s.doc.setup.stock⟩

end Galdr.Project
