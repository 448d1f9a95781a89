import Mathlib

/-!
# The objects of a project

The objects of a project are held in their order, each under an identifier of its own and a
name. Identifiers are handed out in order and never again, and so an object that refers to
another keeps referring to it through renaming, reordering, and the removal of others. Objects
may be gathered in groups.
-/

namespace Galdr.Project

/-- An identifier. -/
abbrev ObjectId := ℕ

section Affine

variable {K : Type} [Field K] [LinearOrder K]

/-- An affine map of the plane, `(a x + b y + c, d x + e y + f)`. -/
structure Affine (K : Type) where
  /-- x from x. -/
  a : K
  /-- x from y. -/
  b : K
  /-- The translation of x. -/
  c : K
  /-- y from x. -/
  d : K
  /-- y from y. -/
  e : K
  /-- The translation of y. -/
  f : K
  deriving DecidableEq

namespace Affine

omit [LinearOrder K] in
/-- The identity. -/
def identity : Affine K := ⟨1, 0, 0, 0, 1, 0⟩

omit [LinearOrder K] in
/-- A translation. -/
def translate (dx dy : K) : Affine K := ⟨1, 0, dx, 0, 1, dy⟩

omit [LinearOrder K] in
/-- One map, and then another. -/
def andThen (m1 m2 : Affine K) : Affine K where
  a := m2.a * m1.a + m2.b * m1.d
  b := m2.a * m1.b + m2.b * m1.e
  c := m2.a * m1.c + m2.b * m1.f + m2.c
  d := m2.d * m1.a + m2.e * m1.d
  e := m2.d * m1.b + m2.e * m1.e
  f := m2.d * m1.c + m2.e * m1.f + m2.f

omit [LinearOrder K] in
/-- The image of a point. -/
def apply (m : Affine K) (p : K × K) : K × K :=
  (m.a * p.1 + m.b * p.2 + m.c, m.d * p.1 + m.e * p.2 + m.f)

omit [LinearOrder K] in
/-- The determinant of the linear part. -/
def determinant (m : Affine K) : K := m.a * m.e - m.b * m.d

/-- The inverse, unless the map is singular. -/
def inverse (m : Affine K) : Option (Affine K) :=
  let det := m.determinant
  if |det| < 1 / 1000000000000 then none
  else
    let invDet := 1 / det
    let a := m.e * invDet
    let b := -m.b * invDet
    let d := -m.d * invDet
    let e := m.a * invDet
    some ⟨a, b, -(a * m.c + b * m.f), d, e, -(d * m.c + e * m.f)⟩

/-- A rotation and a translation, up to a tolerance. -/
def isRigid (m : Affine K) : Bool :=
  let tol : K := 1 / 1000000000
  let col0 := m.a * m.a + m.d * m.d
  let col1 := m.b * m.b + m.e * m.e
  let dot := m.a * m.b + m.d * m.e
  decide (|col0 - 1| < tol) && decide (|col1 - 1| < tol) && decide (|dot| < tol)
    && decide (0 < m.determinant)

end Affine

end Affine

/-! ## Objects -/

/-- What every object has. -/
structure ObjectMeta (K : Type) where
  /-- The identifier. -/
  id : ObjectId
  /-- The name. -/
  name : String
  /-- Where the object lies on the stock. -/
  placement : Affine K
  /-- The object is shown. -/
  visible : Bool

/-- An object: what every object has, and what it is. -/
structure Object (K P : Type) where
  /-- What every object has. -/
  info : ObjectMeta K
  /-- What it is. -/
  payload : P

/-- A named group. -/
structure Group where
  /-- The name. -/
  name : String
  /-- The members, in the order they were added. -/
  members : List ObjectId

/-- The errors of a collection. -/
inductive ProjectError
  /-- The name of an object is taken. -/
  | duplicateName (name : String)
  /-- There is no object of an identifier. -/
  | unknownId (id : ObjectId)
  /-- The name of a group is taken. -/
  | duplicateGroup (name : String)
  /-- There is no group of a name. -/
  | unknownGroup (name : String)
  deriving DecidableEq

/-- The objects of a project, in their order. -/
structure ObjectCollection (K P : Type) where
  /-- The objects. -/
  objects : List (Object K P)
  /-- The groups. -/
  groups : List Group
  /-- The next identifier. -/
  nextId : ObjectId
  /-- No two objects have one identifier. -/
  nodup : (objects.map fun o => o.info.id).Nodup
  /-- No identifier is handed out twice. -/
  below : ∀ o ∈ objects, o.info.id < nextId

namespace ObjectCollection

variable {K P : Type}

/-- No objects. -/
def new : ObjectCollection K P where
  objects := []
  groups := []
  nextId := 1
  nodup := List.nodup_nil
  below _ h := absurd h List.not_mem_nil

/-- The object of an identifier. -/
def get (c : ObjectCollection K P) (id : ObjectId) : Option (Object K P) :=
  c.objects.find? fun o => o.info.id = id

/-- The object of a name. -/
def byName (c : ObjectCollection K P) (name : String) : Option (Object K P) :=
  c.objects.find? fun o => o.info.name = name

/-- An object is what its identifier gets. -/
theorem get_eq_some_iff {c : ObjectCollection K P} {id : ObjectId} {o : Object K P} :
    c.get id = some o ↔ o ∈ c.objects ∧ o.info.id = id := by
  unfold get
  constructor
  · intro h
    exact ⟨List.mem_of_find?_eq_some h, by simpa using List.find?_some h⟩
  · rintro ⟨hmem, rfl⟩
    cases hfind : c.objects.find? fun o' => o'.info.id = o.info.id with
    | none => exact absurd (decide_eq_true rfl) (List.find?_eq_none.1 hfind o hmem)
    | some o' =>
      have hmem' := List.mem_of_find?_eq_some hfind
      have hid : o'.info.id = o.info.id := by simpa using List.find?_some hfind
      rw [List.inj_on_of_nodup_map c.nodup hmem' hmem hid]

theorem get_eq_none_iff {c : ObjectCollection K P} {id : ObjectId} :
    c.get id = none ↔ ∀ o ∈ c.objects, o.info.id ≠ id := by
  unfold get
  rw [List.find?_eq_none]
  simp only [decide_eq_true_eq, ne_eq]

/-- Objects with the same identifiers get the same. -/
theorem get_congr {c c' : ObjectCollection K P} {id : ObjectId}
    (h : ∀ o, o.info.id = id → (o ∈ c.objects ↔ o ∈ c'.objects)) : c.get id = c'.get id := by
  cases hget : c'.get id with
  | none =>
    rw [get_eq_none_iff] at hget ⊢
    exact fun o ho hid => hget o ((h o hid).1 ho) hid
  | some o =>
    rw [get_eq_some_iff] at hget ⊢
    exact ⟨(h o hget.2).2 hget.1, hget.2⟩

/-- Change every object, but for its identifier. -/
def modify (c : ObjectCollection K P) (f : Object K P → Object K P)
    (hf : ∀ o, (f o).info.id = o.info.id) : ObjectCollection K P where
  objects := c.objects.map f
  groups := c.groups
  nextId := c.nextId
  nodup := by
    rw [List.map_map]
    have hsame : (fun o : Object K P => o.info.id) ∘ f = fun o => o.info.id := funext hf
    rw [hsame]
    exact c.nodup
  below o ho := by
    obtain ⟨o, hmem, rfl⟩ := List.mem_map.1 ho
    rw [hf o]
    exact c.below o hmem

theorem get_modify (c : ObjectCollection K P) (f : Object K P → Object K P)
    (hf : ∀ o, (f o).info.id = o.info.id) (id : ObjectId) :
    (c.modify f hf).get id = (c.get id).map f := by
  cases hget : c.get id with
  | none =>
    rw [get_eq_none_iff] at hget
    rw [Option.map_none, get_eq_none_iff]
    intro o ho
    obtain ⟨o, hmem, rfl⟩ := List.mem_map.1 ho
    rw [hf o]
    exact hget o hmem
  | some o =>
    rw [get_eq_some_iff] at hget
    rw [Option.map_some, get_eq_some_iff]
    exact ⟨List.mem_map_of_mem hget.1, (hf o).trans hget.2⟩

/-- One change, and then another. -/
theorem modify_modify (c : ObjectCollection K P) (f g : Object K P → Object K P)
    (hf : ∀ o, (f o).info.id = o.info.id) (hg : ∀ o, (g o).info.id = o.info.id) :
    (c.modify f hf).modify g hg
      = c.modify (fun o => g (f o)) fun o => (hg (f o)).trans (hf o) := by
  unfold modify
  rw [ObjectCollection.mk.injEq]
  exact ⟨List.map_map, rfl, rfl⟩

theorem id_ite {f : Object K P → Object K P} (hf : ∀ o, (f o).info.id = o.info.id) {id : ObjectId}
    (o : Object K P) : (if o.info.id = id then f o else o).info.id = o.info.id := by
  split
  · exact hf o
  · rfl

/-- Change the object of an identifier. -/
def modifyId (c : ObjectCollection K P) (id : ObjectId) (f : Object K P → Object K P)
    (hf : ∀ o, (f o).info.id = o.info.id) : ObjectCollection K P :=
  c.modify (fun o => if o.info.id = id then f o else o) (id_ite hf)

/-- Add an object under a new identifier. Its name must be free. -/
def add (c : ObjectCollection K P) (info : ObjectMeta K) (payload : P) :
    Except ProjectError ObjectId × ObjectCollection K P :=
  if (c.byName info.name).isSome then (.error (.duplicateName info.name), c)
  else
    (.ok c.nextId,
      { objects := c.objects ++ [⟨{ info with id := c.nextId }, payload⟩]
        groups := c.groups
        nextId := c.nextId + 1
        nodup := by
          rw [List.map_append, List.map_singleton]
          refine List.Nodup.append c.nodup (List.nodup_singleton _) ?_
          rw [List.disjoint_singleton]
          intro h
          obtain ⟨o, ho, hid⟩ := List.mem_map.1 h
          exact absurd hid (c.below o ho).ne
        below := by
          intro o ho
          rcases List.mem_append.1 ho with ho | ho
          · exact Nat.lt_succ_of_lt (c.below o ho)
          · rw [List.mem_singleton.1 ho]
            exact Nat.lt_succ_self _ })

/-- Remove an object, from its groups as well. -/
def remove (c : ObjectCollection K P) (id : ObjectId) :
    Option (Object K P) × ObjectCollection K P :=
  match c.get id with
  | none => (none, c)
  | some object =>
    (some object,
      { objects := c.objects.eraseP fun o => o.info.id = id
        groups := c.groups.map fun g => { g with members := g.members.filter (· ≠ id) }
        nextId := c.nextId
        nodup := c.nodup.sublist (List.eraseP_sublist.map _)
        below := fun o ho => c.below o (List.mem_of_mem_eraseP ho) })

@[simp] theorem nextId_remove (c : ObjectCollection K P) (id : ObjectId) :
    (c.remove id).2.nextId = c.nextId := by
  unfold remove
  split
  · rfl
  · rfl

theorem mem_of_remove {c : ObjectCollection K P} {id : ObjectId} {o : Object K P}
    (h : o ∈ (c.remove id).2.objects) : o ∈ c.objects := by
  unfold remove at h
  split at h
  · exact h
  · exact List.mem_of_mem_eraseP h

/-- Rename an object. The name must be free, or its own. -/
def rename (c : ObjectCollection K P) (id : ObjectId) (newName : String) :
    Except ProjectError Unit × ObjectCollection K P :=
  match c.byName newName with
  | some existing =>
    if existing.info.id ≠ id then (.error (.duplicateName newName), c)
    else
      match c.get id with
      | none => (.error (.unknownId id), c)
      | some _ =>
        (.ok (), c.modifyId id (fun o => { o with info := { o.info with name := newName } })
          fun _ => rfl)
  | none =>
    match c.get id with
    | none => (.error (.unknownId id), c)
    | some _ =>
      (.ok (), c.modifyId id (fun o => { o with info := { o.info with name := newName } })
        fun _ => rfl)

/-- An object is renamed, or nothing is done. -/
theorem rename_cases (c : ObjectCollection K P) (id : ObjectId) (newName : String) :
    (c.rename id newName).2 = c
      ∨ (c.rename id newName).2 = c.modifyId id
        (fun o => { o with info := { o.info with name := newName } }) fun _ => rfl := by
  unfold rename
  split
  · split
    · exact .inl rfl
    · split
      · exact .inl rfl
      · exact .inr rfl
  · split
    · exact .inl rfl
    · exact .inr rfl

theorem perm_reorder {objects : List (Object K P)} {object : Object K P}
    (h : objects.find? (fun o => decide (o.info.id = object.info.id)) = some object) (n : ℕ) :
    ((objects.eraseP fun o => o.info.id = object.info.id).insertIdx
      (min n (objects.eraseP fun o => o.info.id = object.info.id).length) object).Perm objects := by
  obtain ⟨hp, before, behind, hobjects, hbefore⟩ := List.find?_eq_some_iff_append.1 h
  have herase : objects.eraseP (fun o => decide (o.info.id = object.info.id)) = before ++ behind := by
    have hhead : (object :: behind).eraseP (fun o => decide (o.info.id = object.info.id)) = behind :=
      List.eraseP_cons_of_pos hp
    rw [hobjects, List.eraseP_append_right _ (by simpa using hbefore), hhead]
  rw [herase, hobjects]
  exact (List.perm_insertIdx _ _ (min_le_right _ _)).trans List.perm_middle.symm

/-- Move an object in the order. -/
def reorder (c : ObjectCollection K P) (id : ObjectId) (newIndex : ℕ) :
    Except ProjectError Unit × ObjectCollection K P :=
  match hget : c.get id with
  | none => (.error (.unknownId id), c)
  | some object =>
    let rest := c.objects.eraseP fun o => o.info.id = object.info.id
    have hperm : (rest.insertIdx (min newIndex rest.length) object).Perm c.objects :=
      perm_reorder (by rw [(get_eq_some_iff.1 hget).2]; exact hget) newIndex
    (.ok (),
      { objects := rest.insertIdx (min newIndex rest.length) object
        groups := c.groups
        nextId := c.nextId
        nodup := (hperm.map _).nodup_iff.2 c.nodup
        below := fun o ho => c.below o (hperm.mem_iff.1 ho) })

@[simp] theorem nextId_reorder (c : ObjectCollection K P) (id : ObjectId) (newIndex : ℕ) :
    (c.reorder id newIndex).2.nextId = c.nextId := by
  unfold reorder
  split
  · rfl
  · rfl

theorem mem_of_reorder {c : ObjectCollection K P} {id : ObjectId} {newIndex : ℕ} {o : Object K P}
    (h : o ∈ (c.reorder id newIndex).2.objects) : o ∈ c.objects := by
  unfold reorder at h
  split at h
  · exact h
  · rename_i object hget
    exact (perm_reorder (by rw [(get_eq_some_iff.1 hget).2]; exact hget) newIndex).mem_iff.1 h

/-- Add an empty group. -/
def createGroup (c : ObjectCollection K P) (name : String) :
    Except ProjectError Unit × ObjectCollection K P :=
  if c.groups.any (·.name = name) then (.error (.duplicateGroup name), c)
  else (.ok (), { c with groups := c.groups ++ [⟨name, []⟩] })

@[simp] theorem objects_createGroup (c : ObjectCollection K P) (name : String) :
    (c.createGroup name).2.objects = c.objects := by
  unfold createGroup
  split
  · rfl
  · rfl

@[simp] theorem nextId_createGroup (c : ObjectCollection K P) (name : String) :
    (c.createGroup name).2.nextId = c.nextId := by
  unfold createGroup
  split
  · rfl
  · rfl

/-- There is a group of a name. -/
def hasGroup (c : ObjectCollection K P) (name : String) : Bool := c.groups.any (·.name = name)

/-- Add an object to a group; to add it again does nothing. -/
def addToGroup (c : ObjectCollection K P) (group : String) (id : ObjectId) :
    Except ProjectError Unit × ObjectCollection K P :=
  match c.get id with
  | none => (.error (.unknownId id), c)
  | some _ =>
    if c.hasGroup group then
      -- No two groups have one name, so that this is the first of the name only.
      (.ok (), { c with groups := c.groups.map fun g =>
        if g.name = group ∧ id ∉ g.members then { g with members := g.members ++ [id] } else g })
    else (.error (.unknownGroup group), c)

@[simp] theorem objects_addToGroup (c : ObjectCollection K P) (group : String) (id : ObjectId) :
    (c.addToGroup group id).2.objects = c.objects := by
  unfold addToGroup
  split
  · rfl
  · split
    · rfl
    · rfl

@[simp] theorem nextId_addToGroup (c : ObjectCollection K P) (group : String) (id : ObjectId) :
    (c.addToGroup group id).2.nextId = c.nextId := by
  unfold addToGroup
  split
  · rfl
  · split
    · rfl
    · rfl

/-- The first group that an object is in. -/
def groupOf (c : ObjectCollection K P) (id : ObjectId) : Option Group :=
  c.groups.find? fun g => id ∈ g.members

end ObjectCollection

end Galdr.Project
