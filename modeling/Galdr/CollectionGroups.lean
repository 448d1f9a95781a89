import Galdr.CamSession
import Galdr.Runs

/-!
# The groups of a project

Whatever is done to the objects of a project, their identifiers and their names stay distinct, a
failed operation leaves everything as it was, and no operation touches an object or a membership
that it does not name. But nothing takes an object out of the group it is in when it is added to
another one, and so an object is in at most one group exactly as long as only objects of no other
group are added (`consistent_iff`). Where this holds, an object moves with its group
(`moveSet_of_mem`).
-/

namespace Galdr.Project

variable {K P : Type}

/-- The operations of a collection. -/
inductive CollectionOp (K P : Type)
  | add (info : ObjectMeta K) (payload : P)
  | remove (id : ObjectId)
  | rename (id : ObjectId) (newName : String)
  | reorder (id : ObjectId) (newIndex : ℕ)
  | createGroup (name : String)
  | addToGroup (group : String) (id : ObjectId)

deriving instance DecidableEq for Group

/-- A group without an object. -/
def Group.without (g : Group) (id : ObjectId) : Group :=
  { g with members := g.members.filter (· ≠ id) }

/-- A group with an object, if it is the one of a name. -/
def Group.join (g : Group) (group : String) (id : ObjectId) : Group :=
  if g.name = group ∧ id ∉ g.members then { g with members := g.members ++ [id] } else g

theorem Group.mem_without {g : Group} {id id' : ObjectId} :
    id' ∈ (g.without id).members ↔ id' ∈ g.members ∧ id' ≠ id := by
  simp [without]

@[simp] theorem Group.name_join (g : Group) (group : String) (id : ObjectId) :
    (g.join group id).name = g.name := by
  unfold join
  split
  · rfl
  · rfl

theorem Group.mem_join {g : Group} {group : String} {id id' : ObjectId} :
    id' ∈ (g.join group id).members ↔ id' ∈ g.members ∨ g.name = group ∧ id' = id := by
  unfold join
  by_cases hname : g.name = group <;> by_cases hmem : id ∈ g.members
  · rw [if_neg (by simp [hmem])]
    exact ⟨.inl, fun h => h.elim (fun h => h) fun h => h.2 ▸ hmem⟩
  · rw [if_pos ⟨hname, hmem⟩]
    simp [hname]
  · simp [hname]
  · simp [hname]

theorem Group.nodup_join {g : Group} (h : g.members.Nodup) (group : String) (id : ObjectId) :
    (g.join group id).members.Nodup := by
  unfold join
  split
  · rename_i hnew
    exact h.append (List.nodup_singleton id) (List.disjoint_singleton.mpr hnew.2)
  · exact h

namespace ObjectCollection

/-- An operation: whether it fails, the identifier that it hands out, and what it leaves. -/
def step (c : ObjectCollection K P) :
    CollectionOp K P → Except ProjectError (Option ObjectId) × ObjectCollection K P
  | .add info payload => ((c.add info payload).1.map some, (c.add info payload).2)
  | .remove id => (.ok none, (c.remove id).2)
  | .rename id newName => ((c.rename id newName).1.map fun _ => none, (c.rename id newName).2)
  | .reorder id newIndex => ((c.reorder id newIndex).1.map fun _ => none, (c.reorder id newIndex).2)
  | .createGroup name => ((c.createGroup name).1.map fun _ => none, (c.createGroup name).2)
  | .addToGroup group id => ((c.addToGroup group id).1.map fun _ => none, (c.addToGroup group id).2)

/-- What an operation leaves. -/
def apply (c : ObjectCollection K P) (op : CollectionOp K P) : ObjectCollection K P := (c.step op).2

/-- What operations leave. -/
def run (c : ObjectCollection K P) (ops : List (CollectionOp K P)) : ObjectCollection K P :=
  ops.foldl apply c

/-- The identifier that an operation hands out. -/
def issue (c : ObjectCollection K P) (op : CollectionOp K P) : List ObjectId :=
  match (c.step op).1 with
  | .ok (some id) => [id]
  | _ => []

/-- The identifiers that operations hand out, in order. -/
def issued (c : ObjectCollection K P) : List (CollectionOp K P) → List ObjectId
  | [] => []
  | op :: ops => c.issue op ++ (c.apply op).issued ops

/-- An object is a member of the group of a name. -/
def IsMember (c : ObjectCollection K P) (group : String) (id : ObjectId) : Prop :=
  ∃ g ∈ c.groups, g.name = group ∧ id ∈ g.members

/-- What a project promises of its objects and groups. -/
structure Sound (c : ObjectCollection K P) : Prop where
  /-- No two objects have one identifier. -/
  ids : (c.objects.map fun o => o.info.id).Nodup
  /-- The next identifier is new. -/
  below : ∀ o ∈ c.objects, o.info.id < c.nextId
  /-- No two objects have one name. -/
  names : (c.objects.map fun o => o.info.name).Nodup
  /-- No two groups have one name. -/
  groupNames : (c.groups.map Group.name).Nodup
  /-- The members are objects. -/
  exist : ∀ g ∈ c.groups, ∀ id ∈ g.members, ∃ o ∈ c.objects, o.info.id = id
  /-- A member is listed once. -/
  once : ∀ g ∈ c.groups, g.members.Nodup
  /-- An object is in at most one group. -/
  one : ∀ g ∈ c.groups, ∀ g' ∈ c.groups, ∀ id ∈ g.members, id ∈ g'.members → g = g'

/-- The object that an operation names. -/
def Names (c : ObjectCollection K P) : CollectionOp K P → ObjectId → Prop
  | .add _ _, id => id = c.nextId
  | .remove id', id => id = id'
  | .rename id' _, id => id = id'
  | _, _ => False

/-- The membership that an operation names. -/
def NamesMembership : CollectionOp K P → String → ObjectId → Prop
  | .remove id', _, id => id = id'
  | .addToGroup group' id', group, id => group = group' ∧ id = id'
  | _, _, _ => False

/-- A failed operation changes nothing, and one that does not fail changes what it names. -/
structure Framed (c : ObjectCollection K P) (op : CollectionOp K P) : Prop where
  /-- An operation that fails leaves everything as it was. -/
  failed : ∀ e, (c.step op).1 = .error e → c.apply op = c
  /-- Every object that is not named stays as it is. -/
  objects : ∀ id, ¬c.Names op id → (c.apply op).get id = c.get id
  /-- Every membership that is not named stays as it is. -/
  members : ∀ group id, ¬NamesMembership op group id →
    ((c.apply op).IsMember group id ↔ c.IsMember group id)

/-- Only an object of no other group is added to a group. -/
def OneGroup (c : ObjectCollection K P) : CollectionOp K P → Prop
  | .addToGroup group id => c.get id = none ∨ c.hasGroup group = false
      ∨ ∀ g ∈ c.groups, id ∈ g.members → g.name = group
  | _ => True

/-! ## What an operation leaves -/

variable {c c' : ObjectCollection K P} {id : ObjectId}

theorem exists_object_iff {id : ObjectId} :
    (∃ o ∈ c.objects, o.info.id = id) ↔ (c.get id).isSome = true := by
  rw [Option.isSome_iff_exists]
  exact exists_congr fun o => get_eq_some_iff.symm

theorem add_cases (c : ObjectCollection K P) (info : ObjectMeta K) (payload : P) :
    c.add info payload = (.error (.duplicateName info.name), c)
      ∨ (c.add info payload).1 = .ok c.nextId ∧ (c.add info payload).2.nextId = c.nextId + 1
        ∧ (c.add info payload).2.objects
          = c.objects ++ [⟨{ info with id := c.nextId }, payload⟩] := by
  unfold add
  split
  · exact .inl rfl
  · exact .inr ⟨rfl, rfl, rfl⟩

theorem remove_cases (c : ObjectCollection K P) (id : ObjectId) :
    (c.remove id).2 = c ∨ (c.remove id).2.objects = c.objects.eraseP (fun o => o.info.id = id)
      ∧ (c.remove id).2.groups = c.groups.map (Group.without · id) := by
  unfold remove
  split
  · exact .inl rfl
  · exact .inr ⟨rfl, rfl⟩

theorem reorder_perm (c : ObjectCollection K P) (id : ObjectId) (newIndex : ℕ) :
    (c.reorder id newIndex).2.objects.Perm c.objects := by
  unfold reorder
  split
  · exact List.Perm.refl _
  · rename_i object hget
    exact perm_reorder (by rw [(get_eq_some_iff.1 hget).2]; exact hget) newIndex

@[simp] theorem groups_reorder (c : ObjectCollection K P) (id : ObjectId) (newIndex : ℕ) :
    (c.reorder id newIndex).2.groups = c.groups := by
  unfold reorder
  split
  · rfl
  · rfl

@[simp] theorem groups_add (c : ObjectCollection K P) (info : ObjectMeta K) (payload : P) :
    (c.add info payload).2.groups = c.groups := by
  unfold add
  split
  · rfl
  · rfl

@[simp] theorem groups_rename (c : ObjectCollection K P) (id : ObjectId) (newName : String) :
    (c.rename id newName).2.groups = c.groups := by
  rcases c.rename_cases id newName with h | h
  · rw [h]
  · rw [h]
    rfl

theorem groups_createGroup (c : ObjectCollection K P) (name : String) :
    (c.createGroup name).2 = c ∧ c.hasGroup name = true
      ∨ (c.createGroup name).2.groups = c.groups ++ [⟨name, []⟩] ∧ c.hasGroup name = false := by
  unfold createGroup hasGroup
  split
  · rename_i h
    exact .inl ⟨rfl, h⟩
  · rename_i h
    exact .inr ⟨rfl, Bool.eq_false_iff.mpr h⟩

theorem groups_addToGroup (c : ObjectCollection K P) (group : String) (id : ObjectId) :
    (c.addToGroup group id).2 = c ∧ (c.get id = none ∨ c.hasGroup group = false)
      ∨ (c.addToGroup group id).2.groups = c.groups.map (Group.join · group id)
        ∧ (c.get id).isSome = true ∧ c.hasGroup group = true := by
  unfold addToGroup
  cases hget : c.get id with
  | none => exact .inl ⟨rfl, .inl rfl⟩
  | some o =>
    cases hgroup : c.hasGroup group with
    | false => exact .inl ⟨rfl, .inr rfl⟩
    | true => exact .inr ⟨rfl, rfl, rfl⟩

/-! ## What an operation does not touch -/

theorem rename_error (c : ObjectCollection K P) (id : ObjectId) (newName : String)
    (e : ProjectError) : (c.rename id newName).1 = .error e → (c.rename id newName).2 = c := by
  unfold rename
  split
  · split
    · exact fun _ => rfl
    · split
      · exact fun _ => rfl
      · rintro ⟨⟩
  · split
    · exact fun _ => rfl
    · rintro ⟨⟩

theorem add_error (c : ObjectCollection K P) (info : ObjectMeta K) (payload : P)
    (e : ProjectError) : (c.add info payload).1 = .error e → (c.add info payload).2 = c := by
  unfold add
  split
  · exact fun _ => rfl
  · rintro ⟨⟩

theorem reorder_error (c : ObjectCollection K P) (id : ObjectId) (newIndex : ℕ)
    (e : ProjectError) : (c.reorder id newIndex).1 = .error e → (c.reorder id newIndex).2 = c := by
  unfold reorder
  split
  · exact fun _ => rfl
  · rintro ⟨⟩

theorem createGroup_error (c : ObjectCollection K P) (name : String) (e : ProjectError) :
    (c.createGroup name).1 = .error e → (c.createGroup name).2 = c := by
  unfold createGroup
  split
  · exact fun _ => rfl
  · rintro ⟨⟩

theorem addToGroup_error (c : ObjectCollection K P) (group : String) (id : ObjectId)
    (e : ProjectError) : (c.addToGroup group id).1 = .error e → (c.addToGroup group id).2 = c := by
  unfold addToGroup
  split
  · exact fun _ => rfl
  · split
    · rintro ⟨⟩
    · exact fun _ => rfl

theorem error_of_map {S T : Type} {r : Except ProjectError S} {f : S → T} {e : ProjectError}
    (h : r.map f = .error e) : r = .error e := by
  cases r with
  | error e' =>
    cases h
    rfl
  | ok value => cases h

theorem failed_unchanged (c : ObjectCollection K P) (op : CollectionOp K P) (e : ProjectError)
    (h : (c.step op).1 = .error e) : c.apply op = c := by
  cases op with
  | add info payload => exact c.add_error info payload e (error_of_map h)
  | remove id => cases h
  | rename id newName => exact c.rename_error id newName e (error_of_map h)
  | reorder id newIndex => exact c.reorder_error id newIndex e (error_of_map h)
  | createGroup name => exact c.createGroup_error name e (error_of_map h)
  | addToGroup group id => exact c.addToGroup_error group id e (error_of_map h)

theorem get_apply (c : ObjectCollection K P) (op : CollectionOp K P) {id : ObjectId}
    (h : ¬c.Names op id) : (c.apply op).get id = c.get id := by
  cases op with
  | add info payload =>
    refine get_congr fun o ho => ?_
    have hne : o.info.id ≠ c.nextId := fun heq => h (ho.symm.trans heq)
    change o ∈ (c.add info payload).2.objects ↔ o ∈ c.objects
    unfold add
    split
    · rfl
    · change o ∈ c.objects ++ [_] ↔ _
      rw [List.mem_append, List.mem_singleton, or_iff_left]
      rintro rfl
      exact hne rfl
  | remove id' =>
    rcases c.remove_cases id' with heq | ⟨hobjects, -⟩
    · exact congrArg (·.get id) heq
    · refine get_congr fun o ho => ?_
      change o ∈ (c.remove id').2.objects ↔ o ∈ c.objects
      rw [hobjects, List.mem_eraseP_of_neg]
      exact fun heq => h (ho.symm.trans (of_decide_eq_true heq))
  | rename id' newName =>
    rcases c.rename_cases id' newName with heq | heq
    · exact congrArg (·.get id) heq
    · refine (congrArg (·.get id) heq).trans ?_
      dsimp only
      unfold modifyId
      rw [get_modify]
      cases hget : c.get id with
      | none => rfl
      | some o =>
        rw [Option.map_some, if_neg]
        exact fun hid => h ((get_eq_some_iff.mp hget).2.symm.trans hid)
  | reorder id' newIndex => exact get_congr fun o _ => (c.reorder_perm id' newIndex).mem_iff
  | createGroup name =>
    have hobjects : (c.apply (.createGroup name)).objects = c.objects :=
      c.objects_createGroup name
    exact get_congr fun o _ => by rw [hobjects]
  | addToGroup group id' =>
    have hobjects : (c.apply (.addToGroup group id')).objects = c.objects :=
      c.objects_addToGroup group id'
    exact get_congr fun o _ => by rw [hobjects]

theorem isMember_congr (h : c'.groups = c.groups) (group : String) (id : ObjectId) :
    c'.IsMember group id ↔ c.IsMember group id := by
  unfold IsMember
  rw [h]

theorem isMember_apply (c : ObjectCollection K P) (op : CollectionOp K P) {group : String}
    {id : ObjectId} (h : ¬NamesMembership op group id) :
    (c.apply op).IsMember group id ↔ c.IsMember group id := by
  cases op with
  | add info payload => exact isMember_congr (c.groups_add info payload) group id
  | rename id' newName => exact isMember_congr (c.groups_rename id' newName) group id
  | reorder id' newIndex => exact isMember_congr (c.groups_reorder id' newIndex) group id
  | remove id' =>
    rcases c.remove_cases id' with heq | ⟨-, hgroups⟩
    · exact isMember_congr (congrArg groups heq) group id
    · have hmem (g : Group) : id ∈ (g.without id').members ↔ id ∈ g.members := by
        rw [Group.mem_without]
        exact and_iff_left h
      change (∃ g ∈ (c.remove id').2.groups, _) ↔ _
      rw [hgroups]
      simp only [List.mem_map, exists_exists_and_eq_and, hmem]
      rfl
  | createGroup name =>
    rcases c.groups_createGroup name with ⟨heq, -⟩ | ⟨hgroups, -⟩
    · exact isMember_congr (congrArg groups heq) group id
    · change (∃ g ∈ (c.createGroup name).2.groups, _) ↔ _
      rw [hgroups]
      simp [IsMember]
  | addToGroup group' id' =>
    rcases c.groups_addToGroup group' id' with ⟨heq, -⟩ | ⟨hgroups, -⟩
    · exact isMember_congr (congrArg groups heq) group id
    · have hmem (g : Group) : (g.join group' id').name = group ∧ id ∈ (g.join group' id').members
          ↔ g.name = group ∧ id ∈ g.members := by
        rw [Group.name_join, Group.mem_join]
        refine and_congr_right fun hname => or_iff_left ?_
        rintro ⟨hname', hid⟩
        exact h ⟨hname.symm.trans hname', hid⟩
      change (∃ g ∈ (c.addToGroup group' id').2.groups, _) ↔ _
      rw [hgroups]
      simp only [List.mem_map, exists_exists_and_eq_and, hmem]
      rfl

/-- **An operation leaves what it does not name.** -/
theorem framed (c : ObjectCollection K P) (op : CollectionOp K P) : c.Framed op where
  failed := c.failed_unchanged op
  objects _ h := c.get_apply op h
  members _ _ h := c.isMember_apply op h

/-! ## What every operation keeps -/

theorem nodup_names_iff (c : ObjectCollection K P) :
    (c.objects.map fun o => o.info.name).Nodup
      ↔ ∀ a ∈ c.objects, ∀ b ∈ c.objects, a.info.name = b.info.name → a = b :=
  ⟨fun h _ ha _ hb heq => List.inj_on_of_nodup_map h ha hb heq,
    fun h => (List.Nodup.of_map _ c.nodup).map_on h⟩

/-- With the groups as they were, and every object still there, only the names need a look. -/
theorem Sound.of_groups (h : c.Sound) (hgroups : c'.groups = c.groups)
    (hobjects : ∀ o ∈ c.objects, ∃ o' ∈ c'.objects, o'.info.id = o.info.id)
    (hnames : (c'.objects.map fun o => o.info.name).Nodup) : c'.Sound where
  ids := c'.nodup
  below := c'.below
  names := hnames
  groupNames := by
    rw [hgroups]
    exact h.groupNames
  exist g hg id hid := by
    rw [hgroups] at hg
    obtain ⟨o, ho, rfl⟩ := h.exist g hg id hid
    exact hobjects o ho
  once g hg := h.once g (hgroups ▸ hg)
  one g hg g' hg' := h.one g (hgroups ▸ hg) g' (hgroups ▸ hg')

theorem Sound.add (h : c.Sound) (info : ObjectMeta K) (payload : P) :
    (c.add info payload).2.Sound := by
  refine h.of_groups (c.groups_add info payload) ?_ ?_
  · intro o ho
    refine ⟨o, ?_, rfl⟩
    unfold ObjectCollection.add
    split
    · exact ho
    · exact List.mem_append_left _ ho
  · unfold ObjectCollection.add
    split
    · exact h.names
    · rename_i hfree
      rw [List.map_append, List.map_singleton]
      refine h.names.append (List.nodup_singleton _) (List.disjoint_singleton.mpr fun hmem => ?_)
      obtain ⟨o, ho, hname⟩ := List.mem_map.mp hmem
      refine hfree (Option.isSome_iff_ne_none.mpr fun hnone => ?_)
      exact List.find?_eq_none.mp hnone o ho (decide_eq_true hname)

theorem Sound.reorder (h : c.Sound) (id : ObjectId) (newIndex : ℕ) :
    (c.reorder id newIndex).2.Sound :=
  have hperm := c.reorder_perm id newIndex
  h.of_groups (c.groups_reorder id newIndex) (fun o ho => ⟨o, hperm.mem_iff.mpr ho, rfl⟩)
    ((hperm.map _).nodup_iff.mpr h.names)

/-- A name that is given to an object is free, or its own. -/
theorem rename_cases_of_free (c : ObjectCollection K P) (id : ObjectId) (newName : String) :
    (c.rename id newName).2 = c
      ∨ (∀ o ∈ c.objects, o.info.name = newName → ∃ o' ∈ c.objects, o'.info.name = newName
          ∧ o'.info.id = id)
        ∧ (c.rename id newName).2 = c.modifyId id
          (fun o => { o with info := { o.info with name := newName } }) fun _ => rfl := by
  unfold rename
  split
  · rename_i existing hname
    split
    · exact .inl rfl
    · rename_i hown
      split
      · exact .inl rfl
      · refine .inr ⟨fun _ _ _ => ?_, rfl⟩
        have hfound : existing.info.name = newName := by simpa using List.find?_some hname
        exact ⟨existing, List.mem_of_find?_eq_some hname, hfound, not_not.mp hown⟩
  · rename_i hfree
    split
    · exact .inl rfl
    · refine .inr ⟨fun o ho hname => ?_, rfl⟩
      exact absurd (decide_eq_true hname) (List.find?_eq_none.mp hfree o ho)

theorem Sound.rename (h : c.Sound) (id : ObjectId) (newName : String) :
    (c.rename id newName).2.Sound := by
  have hinj := c.nodup_names_iff.mp h.names
  rcases c.rename_cases_of_free id newName with heq | ⟨hfree, heq⟩
  · rw [heq]
    exact h
  · rw [heq]
    refine h.of_groups rfl (fun o ho => ⟨_, List.mem_map_of_mem ho, ?_⟩) ?_
    · split
      · rfl
      · rfl
    · have hown : ∀ o ∈ c.objects, o.info.name = newName → o.info.id = id := by
        intro o ho hname
        obtain ⟨o', ho', hname', hid⟩ := hfree o ho hname
        rw [hinj o ho o' ho' (hname.trans hname'.symm)]
        exact hid
      change ((c.objects.map _).map _).Nodup
      rw [List.map_map]
      refine (List.Nodup.of_map _ c.nodup).map_on fun a ha b hb hab => ?_
      simp only [Function.comp_apply] at hab
      split at hab
      · rename_i hida
        split at hab
        · rename_i hidb
          exact List.inj_on_of_nodup_map c.nodup ha hb (hida.trans hidb.symm)
        · rename_i hidb
          exact absurd (hown b hb hab.symm) hidb
      · rename_i hida
        split at hab
        · exact absurd (hown a ha hab) hida
        · exact hinj a ha b hb hab

theorem Sound.remove (h : c.Sound) (id : ObjectId) : (c.remove id).2.Sound := by
  rcases c.remove_cases id with heq | ⟨hobjects, hgroups⟩
  · rw [heq]
    exact h
  · refine ⟨(c.remove id).2.nodup, (c.remove id).2.below, ?_, ?_, ?_, ?_, ?_⟩
    · rw [hobjects]
      exact h.names.sublist (List.eraseP_sublist.map _)
    · rw [hgroups, List.map_map]
      exact h.groupNames
    · rw [hgroups]
      rintro g hg id' hid'
      obtain ⟨g, hmem, rfl⟩ := List.mem_map.mp hg
      obtain ⟨hid', hne⟩ := Group.mem_without.mp hid'
      obtain ⟨o, ho, rfl⟩ := h.exist g hmem id' hid'
      refine ⟨o, ?_, rfl⟩
      rw [hobjects, List.mem_eraseP_of_neg (by simpa using hne)]
      exact ho
    · rw [hgroups]
      rintro g hg
      obtain ⟨g, hmem, rfl⟩ := List.mem_map.mp hg
      exact (h.once g hmem).filter _
    · rw [hgroups]
      rintro g hg g' hg' id' hid hid'
      obtain ⟨g, hmem, rfl⟩ := List.mem_map.mp hg
      obtain ⟨g', hmem', rfl⟩ := List.mem_map.mp hg'
      rw [h.one g hmem g' hmem' id' (Group.mem_without.mp hid).1 (Group.mem_without.mp hid').1]

theorem Sound.createGroup (h : c.Sound) (name : String) : (c.createGroup name).2.Sound := by
  rcases c.groups_createGroup name with ⟨heq, -⟩ | ⟨hgroups, hfree⟩
  · rw [heq]
    exact h
  · have hobjects := c.objects_createGroup name
    refine ⟨(c.createGroup name).2.nodup, (c.createGroup name).2.below, ?_, ?_, ?_, ?_, ?_⟩
    · rw [hobjects]
      exact h.names
    · rw [hgroups, List.map_append, List.map_singleton]
      refine h.groupNames.append (List.nodup_singleton _)
        (List.disjoint_singleton.mpr fun hmem => ?_)
      obtain ⟨g, hg, hname⟩ := List.mem_map.mp hmem
      refine Bool.false_ne_true (hfree.symm.trans (List.any_eq_true.mpr ⟨g, hg, ?_⟩))
      exact decide_eq_true hname
    · rw [hgroups, hobjects]
      intro g hg id hid
      rcases List.mem_append.mp hg with hg | hg
      · exact h.exist g hg id hid
      · rw [List.mem_singleton.mp hg] at hid
        cases hid
    · rw [hgroups]
      intro g hg
      rcases List.mem_append.mp hg with hg | hg
      · exact h.once g hg
      · rw [List.mem_singleton.mp hg]
        exact List.nodup_nil
    · rw [hgroups]
      intro g hg g' hg' id hid hid'
      rcases List.mem_append.mp hg with hg | hg
      · rcases List.mem_append.mp hg' with hg' | hg'
        · exact h.one g hg g' hg' id hid hid'
        · rw [List.mem_singleton.mp hg'] at hid'
          cases hid'
      · rw [List.mem_singleton.mp hg] at hid
        cases hid

/-- **To add an object to a group keeps the promises** exactly if it is in no other group. -/
theorem Sound.addToGroup_iff (h : c.Sound) (group : String) (id : ObjectId) :
    (c.addToGroup group id).2.Sound ↔ c.OneGroup (.addToGroup group id) := by
  change _ ↔ c.get id = none ∨ c.hasGroup group = false
    ∨ ∀ g ∈ c.groups, id ∈ g.members → g.name = group
  rcases c.groups_addToGroup group id with ⟨heq, hrefused⟩ | ⟨hgroups, hget, hgroup⟩
  · rw [heq]
    exact iff_of_true h (hrefused.imp_right .inl)
  · have hobjects := c.objects_addToGroup group id
    obtain ⟨target, htarget, hname⟩ := List.any_eq_true.mp hgroup
    have hname : target.name = group := of_decide_eq_true hname
    rw [or_iff_right (Option.isSome_iff_ne_none.mp hget),
      or_iff_right (Bool.eq_false_iff.not.mpr (not_not.mpr hgroup))]
    constructor
    · intro hsound g hg hid
      have hone := hsound.one
      rw [hgroups] at hone
      have heq := hone (g.join group id) (List.mem_map_of_mem hg) (target.join group id)
        (List.mem_map_of_mem htarget) id (Group.mem_join.mpr (.inl hid))
        (Group.mem_join.mpr (.inr ⟨hname, rfl⟩))
      calc g.name
          _ = (g.join group id).name := (g.name_join group id).symm
          _ = (target.join group id).name := congrArg Group.name heq
          _ = group := (target.name_join group id).trans hname
    · intro hother
      refine ⟨(c.addToGroup group id).2.nodup, (c.addToGroup group id).2.below, ?_, ?_, ?_, ?_, ?_⟩
      · rw [hobjects]
        exact h.names
      · have hnames : Group.name ∘ (Group.join · group id) = Group.name :=
          funext fun g => g.name_join group id
        rw [hgroups, List.map_map, hnames]
        exact h.groupNames
      · rw [hgroups, hobjects]
        intro g hg id' hid'
        obtain ⟨g, hmem, rfl⟩ := List.mem_map.mp hg
        rcases Group.mem_join.mp hid' with hid' | ⟨-, rfl⟩
        · exact h.exist g hmem id' hid'
        · exact exists_object_iff.mpr hget
      · rw [hgroups]
        intro g hg
        obtain ⟨g, hmem, rfl⟩ := List.mem_map.mp hg
        exact Group.nodup_join (h.once g hmem) group id
      · rw [hgroups]
        intro g hg g' hg' id' hid hid'
        obtain ⟨g, hmem, rfl⟩ := List.mem_map.mp hg
        obtain ⟨g', hmem', rfl⟩ := List.mem_map.mp hg'
        have hsame : ∀ a ∈ c.groups, ∀ b ∈ c.groups, a.name = b.name → a = b :=
          fun a ha b hb => List.inj_on_of_nodup_map h.groupNames ha hb
        suffices g = g' from congrArg (Group.join · group id) this
        rcases Group.mem_join.mp hid with hin | ⟨hg1, rfl⟩
        · rcases Group.mem_join.mp hid' with hin' | ⟨hg2, rfl⟩
          · exact h.one g hmem g' hmem' id' hin hin'
          · exact hsame g hmem g' hmem' ((hother g hmem hin).trans hg2.symm)
        · rcases Group.mem_join.mp hid' with hin' | ⟨hg2, -⟩
          · exact hsame g hmem g' hmem' (hg1.trans (hother g' hmem' hin').symm)
          · exact hsame g hmem g' hmem' (hg1.trans hg2.symm)

/-- **An operation keeps the promises** exactly if it adds no object of one group to another. -/
theorem Sound.apply_iff (c : ObjectCollection K P) (op : CollectionOp K P) (h : c.Sound) :
    (c.apply op).Sound ↔ c.OneGroup op := by
  cases op with
  | add info payload => exact iff_of_true (h.add info payload) trivial
  | remove id => exact iff_of_true (h.remove id) trivial
  | rename id newName => exact iff_of_true (h.rename id newName) trivial
  | reorder id newIndex => exact iff_of_true (h.reorder id newIndex) trivial
  | createGroup name => exact iff_of_true (h.createGroup name) trivial
  | addToGroup group id => exact h.addToGroup_iff group id

theorem Sound.new : (new : ObjectCollection K P).Sound where
  ids := List.nodup_nil
  below _ h := absurd h List.not_mem_nil
  names := List.nodup_nil
  groupNames := List.nodup_nil
  exist _ h := absurd h List.not_mem_nil
  once _ h := absurd h List.not_mem_nil
  one _ h := absurd h List.not_mem_nil

/-! ## Identifiers -/

theorem issue_none {S : Type} (r : Except ProjectError S) :
    (match r.map fun _ => (none : Option ObjectId) with
      | .ok (some id) => [id]
      | _ => []) = [] := by
  cases r with
  | error e => rfl
  | ok value => rfl

/-- An identifier that is handed out is the next one. -/
theorem issue_cases (c : ObjectCollection K P) (op : CollectionOp K P) :
    c.issue op = [] ∧ (c.apply op).nextId = c.nextId
        ∧ (∀ o ∈ (c.apply op).objects, ∃ o' ∈ c.objects, o'.info.id = o.info.id)
      ∨ c.issue op = [c.nextId] ∧ (c.apply op).nextId = c.nextId + 1
        ∧ ∀ o ∈ (c.apply op).objects, o.info.id = c.nextId
          ∨ ∃ o' ∈ c.objects, o'.info.id = o.info.id := by
  cases op with
  | add info payload =>
    simp only [issue, apply, step]
    rcases c.add_cases info payload with heq | ⟨hid, hnext, hobjects⟩
    · rw [heq]
      exact .inl ⟨rfl, rfl, fun o ho => ⟨o, ho, rfl⟩⟩
    · rw [hid, hnext, hobjects]
      refine .inr ⟨rfl, rfl, fun o ho => ?_⟩
      rcases List.mem_append.mp ho with ho | ho
      · exact .inr ⟨o, ho, rfl⟩
      · rw [List.mem_singleton.mp ho]
        exact .inl rfl
  | remove id =>
    exact .inl ⟨rfl, c.nextId_remove id, fun o ho => ⟨o, mem_of_remove ho, rfl⟩⟩
  | rename id newName =>
    refine .inl ⟨issue_none (c.rename id newName).1, ?_⟩
    change (c.rename id newName).2.nextId = c.nextId ∧ ∀ o ∈ (c.rename id newName).2.objects, _
    rcases c.rename_cases id newName with heq | heq
    · rw [heq]
      exact ⟨rfl, fun o ho => ⟨o, ho, rfl⟩⟩
    · rw [heq]
      refine ⟨rfl, fun o ho => ?_⟩
      obtain ⟨o', ho', rfl⟩ := List.mem_map.mp ho
      exact ⟨o', ho', (id_ite (f := fun o => { o with info := { o.info with name := newName } })
        (fun _ => rfl) o').symm⟩
  | reorder id newIndex =>
    exact .inl ⟨issue_none (c.reorder id newIndex).1, c.nextId_reorder id newIndex,
      fun o ho => ⟨o, mem_of_reorder ho, rfl⟩⟩
  | createGroup name =>
    refine .inl ⟨issue_none (c.createGroup name).1, c.nextId_createGroup name, fun o ho => ?_⟩
    exact ⟨o, c.objects_createGroup name ▸ ho, rfl⟩
  | addToGroup group id =>
    refine .inl ⟨issue_none (c.addToGroup group id).1, c.nextId_addToGroup group id, fun o ho => ?_⟩
    exact ⟨o, c.objects_addToGroup group id ▸ ho, rfl⟩

theorem issued_spec (c : ObjectCollection K P) (ops : List (CollectionOp K P)) :
    (c.issued ops).Pairwise (· < ·) ∧ (∀ id ∈ c.issued ops, c.nextId ≤ id)
      ∧ ∀ o ∈ (c.run ops).objects, o.info.id ∈ c.issued ops
        ∨ ∃ o' ∈ c.objects, o'.info.id = o.info.id := by
  induction ops generalizing c with
  | nil =>
    exact ⟨List.Pairwise.nil, fun _ h => absurd h List.not_mem_nil, fun o ho => .inr ⟨o, ho, rfl⟩⟩
  | cons op ops ih =>
    obtain ⟨hsorted, hfresh, hobjects⟩ := ih (c.apply op)
    change ∀ o ∈ (c.run (op :: ops)).objects, _ at hobjects
    unfold issued
    rcases c.issue_cases op with ⟨hissue, hnext, hkeep⟩ | ⟨hissue, hnext, hkeep⟩
    · rw [hissue, List.nil_append]
      rw [hnext] at hfresh
      refine ⟨hsorted, hfresh, fun o ho => ?_⟩
      rcases hobjects o ho with h | ⟨o', ho', hid⟩
      · exact .inl h
      · obtain ⟨o'', ho'', hid'⟩ := hkeep o' ho'
        exact .inr ⟨o'', ho'', hid'.trans hid⟩
    · rw [hissue, List.singleton_append]
      rw [hnext] at hfresh
      refine ⟨List.pairwise_cons.mpr ⟨hfresh, hsorted⟩, ?_, fun o ho => ?_⟩
      · rintro id hid
        rcases List.mem_cons.mp hid with rfl | hid
        · exact le_rfl
        · exact (Nat.le_succ _).trans (hfresh id hid)
      · rcases hobjects o ho with h | ⟨o', ho', hid⟩
        · exact .inl (List.mem_cons_of_mem _ h)
        · rcases hkeep o' ho' with hnew | ⟨o'', ho'', hid'⟩
          · exact .inl (List.mem_cons.mpr (.inl (hid.symm.trans hnew)))
          · exact .inr ⟨o'', ho'', hid'.trans hid⟩

/-! ## Runs -/

/-- What a project promises of a run: every state is sound, every operation leaves what it does not
name, and no identifier is handed out twice. -/
structure Consistent (ops : List (CollectionOp K P)) : Prop where
  /-- Every state is sound. -/
  sound : ∀ n, ((new : ObjectCollection K P).run (ops.take n)).Sound
  /-- Every operation leaves what it does not name. -/
  framed : ∀ n op, ((new : ObjectCollection K P).run (ops.take n)).Framed op
  /-- The identifiers that are handed out increase. -/
  fresh : ((new : ObjectCollection K P).issued ops).Pairwise (· < ·)
  /-- Every object has an identifier that was handed out. -/
  issued : ∀ o ∈ ((new : ObjectCollection K P).run ops).objects,
    o.info.id ∈ (new : ObjectCollection K P).issued ops

/-- **A run keeps what a project promises** exactly if it adds no object of one group to
another. -/
theorem consistent_iff (ops : List (CollectionOp K P)) :
    Consistent ops ↔ Runs.Allowed apply OneGroup new ops := by
  have hstep (c : ObjectCollection K P) (op : CollectionOp K P) (h : c.Sound) :
      (c.apply op).Sound ↔ c.OneGroup op := h.apply_iff c op
  rw [Runs.allowed_iff_forall_take hstep Sound.new ops]
  obtain ⟨hsorted, -, hobjects⟩ := (new : ObjectCollection K P).issued_spec ops
  refine ⟨Consistent.sound, fun hsound =>
    ⟨hsound, fun n op => framed _ op, hsorted, fun o ho => ?_⟩⟩
  exact (hobjects o ho).resolve_right fun ⟨_, h, _⟩ => absurd h List.not_mem_nil

/-- **An object can be in two groups**, of which it moves with the first. -/
theorem not_consistent_two_groups :
    ¬∀ ops : List (CollectionOp ℚ Unit), Consistent ops := by
  intro h
  have hsound := (h [.createGroup "Top", .createGroup "Bottom",
    .add ⟨0, "Board", .identity, true⟩ (), .addToGroup "Top" 1, .addToGroup "Bottom" 1]).sound 5
  have hone := hsound.one ⟨"Top", [1]⟩ (by decide) ⟨"Bottom", [1]⟩ (by decide) 1 (by decide)
    (by decide)
  exact absurd (congrArg Group.name hone) (by decide)

end ObjectCollection

end Galdr.Project
