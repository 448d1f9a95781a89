import Galdr.CamSession

/-!
# Operations that fail

A session checks the arguments of an operation before the history takes a snapshot, and so an
operation that fails leaves no trace. Five operations leave the check to the collection, behind
the snapshot: to rename, to delete, to reorder, to create a group, and to add to one. Where the
collection refuses, the document is pushed onto the past and what could be redone is lost.
-/

namespace Galdr.Project

/-! ## What the collection refuses -/

namespace ObjectCollection

variable {K P : Type} {c : ObjectCollection K P} {id : ObjectId}

/-- The name is that of another object. -/
def Taken (c : ObjectCollection K P) (id : ObjectId) (name : String) : Prop :=
  ∃ o, c.byName name = some o ∧ o.info.id ≠ id

theorem rename_refused {name : String} (h : c.Taken id name ∨ c.get id = none) :
    ∃ e, c.rename id name = (.error e, c) := by
  unfold rename
  cases hname : c.byName name with
  | none =>
    have hget : c.get id = none := by
      rcases h with ⟨o, ho, -⟩ | h
      · cases hname.symm.trans ho
      · exact h
    rw [hget]
    exact ⟨_, rfl⟩
  | some existing =>
    dsimp only
    split
    · exact ⟨_, rfl⟩
    · rename_i hsame
      have hget : c.get id = none := by
        rcases h with ⟨o, ho, hne⟩ | h
        · rw [Option.some.inj (hname.symm.trans ho)] at hsame
          exact absurd hne hsame
        · exact h
      rw [hget]
      exact ⟨_, rfl⟩

theorem rename_accepted {name : String} (h : ¬ (c.Taken id name ∨ c.get id = none)) :
    (c.rename id name).1 = .ok () := by
  obtain ⟨htaken, hget⟩ := not_or.1 h
  obtain ⟨o, hget⟩ := Option.ne_none_iff_exists'.1 hget
  unfold rename
  cases hname : c.byName name with
  | none => rw [hget]
  | some existing =>
    have hsame : ¬ existing.info.id ≠ id := fun hne => htaken ⟨existing, hname, hne⟩
    dsimp only
    rw [if_neg hsame, hget]

theorem remove_refused (h : c.get id = none) : c.remove id = (none, c) := by
  unfold remove
  rw [h]

theorem remove_accepted (h : c.get id ≠ none) : (c.remove id).1.isSome = true := by
  obtain ⟨o, hget⟩ := Option.ne_none_iff_exists'.1 h
  unfold remove
  rw [hget]
  rfl

theorem reorder_refused {index : ℕ} (h : c.get id = none) :
    c.reorder id index = (.error (.unknownId id), c) := by
  unfold reorder
  split
  · rfl
  · rename_i hget
    cases h.symm.trans hget

theorem reorder_accepted {index : ℕ} (h : c.get id ≠ none) :
    (c.reorder id index).1 = .ok () := by
  unfold reorder
  split
  · rename_i hget
    exact absurd hget h
  · rfl

theorem createGroup_refused {name : String} (h : c.hasGroup name = true) :
    c.createGroup name = (.error (.duplicateGroup name), c) := if_pos h

theorem createGroup_accepted {name : String} (h : ¬ c.hasGroup name = true) :
    (c.createGroup name).1 = .ok () := by
  have hfree : ¬ (c.groups.any fun g => decide (g.name = name)) = true := h
  unfold createGroup
  rw [if_neg hfree]

theorem addToGroup_refused {group : String} (h : c.get id = none ∨ c.hasGroup group = false) :
    ∃ e, c.addToGroup group id = (.error e, c) := by
  unfold addToGroup
  cases hget : c.get id with
  | none => exact ⟨_, rfl⟩
  | some o =>
    have hgroup : c.hasGroup group = false := h.resolve_left (by rw [hget]; exact nofun)
    dsimp only
    rw [hgroup]
    exact ⟨_, rfl⟩

theorem addToGroup_accepted {group : String}
    (h : ¬ (c.get id = none ∨ c.hasGroup group = false)) :
    (c.addToGroup group id).1 = .ok () := by
  obtain ⟨hget, hgroup⟩ := not_or.1 h
  obtain ⟨o, hget⟩ := Option.ne_none_iff_exists'.1 hget
  unfold addToGroup
  rw [hget]
  dsimp only
  rw [if_pos (Bool.eq_true_of_not_eq_false hgroup)]

end ObjectCollection

/-! ## What a snapshot leaves as it is -/

namespace History

variable {C W : Type}

/-- The past is full of the document, and there is nothing to redo. -/
structure Saturated (h : History C W) : Prop where
  future : h.future = []
  full : h.limit ≤ h.past.length
  same : ∀ p ∈ h.past, p = h.present

theorem dropLast_cons_eq_iff {A : Type} (a : A) (l : List A) :
    (a :: l).dropLast = l ↔ ∀ x ∈ l, x = a := by
  induction l generalizing a with
  | nil => exact iff_of_true rfl (List.forall_mem_nil _)
  | cons b l ih =>
    rw [List.dropLast_cons_cons, List.cons.injEq, ih b, List.forall_mem_cons]
    constructor
    · rintro ⟨rfl, h⟩
      exact ⟨rfl, h⟩
    · rintro ⟨rfl, h⟩
      exact ⟨rfl, h⟩

/-- A snapshot leaves the history as it is just when the past is full of the document. -/
theorem snapshot_eq_self_iff (h : History C W) : h.snapshot = h ↔ h.Saturated := by
  obtain ⟨present, past, future, limit, hpos⟩ := h
  unfold snapshot
  dsimp only
  constructor
  · intro h
    obtain ⟨-, hpast, hfuture, -⟩ := History.mk.inj h
    have hlong : limit < (present :: past).length := by
      by_contra hshort
      rw [if_neg hshort] at hpast
      exact absurd (congrArg List.length hpast) (by simp)
    rw [if_pos hlong] at hpast
    exact ⟨hfuture.symm, Nat.lt_succ_iff.1 hlong, (dropLast_cons_eq_iff present past).1 hpast⟩
  · rintro ⟨hfuture, hfull, hsame⟩
    have hlong : limit < (present :: past).length := Nat.lt_succ_iff.2 hfull
    have hfuture : future = [] := hfuture
    rw [if_pos hlong, (dropLast_cons_eq_iff present past).2 hsame, hfuture]

/-- An edit that leaves the objects as they are is a snapshot. -/
theorem edit_eq_snapshot {R : Type} {h : History C W} {mutate : C → R × C} {r : R}
    (hmutate : mutate h.present.collection = (r, h.present.collection)) :
    h.edit mutate = (r, h.snapshot) := by
  have hpresent : h.snapshot.present = h.present := rfl
  unfold edit
  dsimp only
  rw [hpresent, hmutate]
  rfl

end History

/-! ## Operations -/

namespace Session

variable {K : Type} {E : Engine K}

/-- The collection refuses an operation, behind the snapshot. -/
def Refused (s : Session E) : SessionOp E → Prop
  | .rename id newName => s.collection.Taken id newName ∨ s.collection.get id = none
  | .delete id => s.collection.get id = none
  | .reorder id _ => s.collection.get id = none
  | .createGroup name => s.collection.hasGroup name = true
  | .addToGroup group id => s.collection.get id = none ∨ s.collection.hasGroup group = false
  | _ => False

theorem edit_eq_snapshot {R : Type} {s : Session E} {mutate : Objects E → R × Objects E} {r : R}
    (hmutate : mutate s.collection = (r, s.collection)) :
    s.edit mutate = (r, { s with history := s.history.snapshot }) := by
  unfold edit
  rw [History.edit_eq_snapshot hmutate]

theorem edit_fst {R : Type} (s : Session E) (mutate : Objects E → R × Objects E) :
    (s.edit mutate).1 = (mutate s.collection).1 := rfl

section Steps

variable [Field K] [LinearOrder K]

/-- What the collection refuses fails, behind a snapshot. -/
theorem step_refused {s : Session E} {op : SessionOp E} (h : s.Refused op) :
    (∃ e, (s.step op).1 = .error e) ∧ (s.step op).2.history = s.history.snapshot := by
  cases op with
  | rename id newName =>
    obtain ⟨e, he⟩ := ObjectCollection.rename_refused h
    show (∃ e, (s.rename id newName).1 = _) ∧ (s.rename id newName).2.history = _
    unfold rename
    rw [edit_eq_snapshot he]
    exact ⟨⟨_, rfl⟩, rfl⟩
  | delete id =>
    show (∃ e, (s.delete id).1 = _) ∧ (s.delete id).2.history = _
    unfold delete
    rw [edit_eq_snapshot (ObjectCollection.remove_refused h)]
    exact ⟨⟨_, rfl⟩, rfl⟩
  | reorder id index =>
    show (∃ e, (s.reorder id index).1 = _) ∧ (s.reorder id index).2.history = _
    unfold reorder
    rw [edit_eq_snapshot (ObjectCollection.reorder_refused h)]
    exact ⟨⟨_, rfl⟩, rfl⟩
  | createGroup name =>
    show (∃ e, (s.createGroup name).1 = _) ∧ (s.createGroup name).2.history = _
    unfold createGroup
    rw [edit_eq_snapshot (ObjectCollection.createGroup_refused h)]
    exact ⟨⟨_, rfl⟩, rfl⟩
  | addToGroup group id =>
    obtain ⟨e, he⟩ := ObjectCollection.addToGroup_refused h
    show (∃ e, (s.addToGroup group id).1 = _) ∧ (s.addToGroup group id).2.history = _
    unfold addToGroup
    rw [edit_eq_snapshot he]
    exact ⟨⟨_, rfl⟩, rfl⟩
  | _ => cases h

/-- An operation that is done, or that leaves the session as it is. -/
def Clean {R : Type} (s : Session E) (result : Except (ScriptError E) R × Session E) : Prop :=
  ∀ e, result.1 = .error e → result.2 = s

omit [Field K] [LinearOrder K] in
theorem clean_error {R : Type} (s : Session E) (e : ScriptError E) :
    s.Clean ((.error e, s) : Except (ScriptError E) R × Session E) := fun _ _ => rfl

omit [Field K] [LinearOrder K] in
theorem clean_ok {R : Type} (s s' : Session E) (r : R) :
    s.Clean ((.ok r, s') : Except (ScriptError E) R × Session E) := nofun

omit [Field K] [LinearOrder K] in
theorem clean_map {R : Type} {s : Session E} {result : Except (ScriptError E) R × Session E}
    (h : s.Clean result) : s.Clean (result.map (·.map fun _ => ()) id) := by
  obtain ⟨r, s'⟩ := result
  intro e he
  cases r with
  | error e' => exact h e' rfl
  | ok r => cases he

omit [Field K] [LinearOrder K] in
/-- What the collection accepts is done. -/
theorem clean_of_ok {R : Type} {s : Session E} {result : Except (ScriptError E) R × Session E} {r : R}
    (h : result.1 = .ok r) : s.Clean result := fun e he => by cases h.symm.trans he

omit [LinearOrder K] in
/-- An object is added under a name that is free, which was checked. -/
theorem clean_add (s : Session E) (name : String) (payload : ObjectPayload E) :
    s.Clean (s.add name payload) := by
  unfold add
  split
  · exact clean_error s _
  · rename_i hfree
    refine clean_of_ok (r := s.collection.nextId) ?_
    have hadd : (s.collection.add ⟨0, name, .identity, true⟩ payload).1 = .ok s.collection.nextId := by
      unfold ObjectCollection.add
      rw [if_neg hfree]
    show ((s.edit fun c => c.add ⟨0, name, .identity, true⟩ payload).1.mapError _) = _
    rw [edit_fst, hadd]
    rfl

omit [LinearOrder K] in
theorem clean_addParsed {T : Type} (s : Session E) (name : String) (parsed : Except E.Fault T)
    (payload : T → ObjectPayload E) : s.Clean (s.addParsed name parsed payload) := by
  unfold addParsed
  split
  · exact clean_error s _
  · exact s.clean_add _ _

omit [LinearOrder K] in
theorem clean_storeDerived (s : Session E) (program : Except (ScriptError E) E.Program)
    (source : ObjectId) (operation : CamOperation E) (suffix : String) (emission : JobEmission E) :
    s.Clean (s.storeDerived program source operation suffix emission) := by
  unfold storeDerived
  split
  · exact clean_error s _
  · split
    · exact clean_error s _
    · exact s.clean_add _ _

omit [LinearOrder K] in
theorem clean_storeGeometry (s : Session E) (polygons : Except (ScriptError E) E.Region)
    (source : ObjectId) (suffix : String) : s.Clean (s.storeGeometry polygons source suffix) := by
  unfold storeGeometry
  split
  · exact clean_error s _
  · split
    · exact clean_error s _
    · exact s.clean_add _ _

theorem clean_setPlacement (s : Session E) (id : ObjectId) (placement : Affine K) :
    s.Clean (s.setPlacement id placement) := by
  unfold setPlacement
  split
  · exact clean_error s _
  · split
    · exact clean_error s _
    · split
      · exact clean_ok s _ _
      · exact clean_ok s _ _

/-- **Any other operation that fails leaves the session as it is.** -/
theorem step_clean {s : Session E} {op : SessionOp E} (h : ¬ s.Refused op) :
    s.Clean (s.step op) := by
  cases op with
  | openGerberStr | openExcellonStr | importSvgStr | importDxfStr | importGcodeStr =>
    exact clean_map (s.clean_addParsed _ _ _)
  | rename id newName =>
    refine clean_of_ok (r := ()) ?_
    show (s.edit fun c => c.rename id newName).1.mapError _ = _
    rw [edit_fst, ObjectCollection.rename_accepted h]
    rfl
  | setVisible id visible =>
    show s.Clean (s.setVisible id visible)
    unfold setVisible
    split
    · exact clean_error s _
    · split
      · exact clean_ok s _ _
      · exact clean_ok s _ _
  | delete id =>
    show s.Clean (s.delete id)
    unfold delete
    dsimp only
    rw [edit_fst, if_pos (ObjectCollection.remove_accepted h)]
    exact clean_ok s _ _
  | reorder id index =>
    refine clean_of_ok (r := ()) ?_
    show (s.edit fun c => c.reorder id index).1.mapError _ = _
    rw [edit_fst, ObjectCollection.reorder_accepted h]
    rfl
  | createGroup name =>
    refine clean_of_ok (r := ()) ?_
    show (s.edit fun c => c.createGroup name).1.mapError _ = _
    rw [edit_fst, ObjectCollection.createGroup_accepted h]
    rfl
  | addToGroup group id =>
    refine clean_of_ok (r := ()) ?_
    show (s.edit fun c => c.addToGroup group id).1.mapError _ = _
    rw [edit_fst, ObjectCollection.addToGroup_accepted h]
    rfl
  | addToImportGroup id =>
    show s.Clean (s.addToImportGroup id)
    unfold addToImportGroup
    split
    · exact clean_error s _
    · exact clean_ok s _ _
  | setDialect name =>
    show s.Clean (s.setDialect name)
    unfold setDialect
    split
    · exact clean_ok s _ _
    · exact clean_error s _
  | setStock stock coalesce => exact clean_ok s _ _
  | fitStockTo reference thickness coalesce =>
    show s.Clean (s.fitStockTo reference thickness coalesce)
    unfold fitStockTo
    split
    · exact clean_error s _
    · exact clean_ok s _ _
  | setDatumPoint x y => exact clean_ok s _ _
  | clearDatum => exact clean_ok s _ _
  | setDatum origin reference =>
    show s.Clean (s.setDatum origin reference)
    unfold setDatum
    split
    · exact clean_error s _
    · exact clean_ok s _ _
  | setPlacement id placement => exact s.clean_setPlacement id placement
  | translateObject id dx dy =>
    show s.Clean (s.translateObject id dx dy)
    unfold translateObject
    split
    · exact clean_error s _
    · exact s.clean_setPlacement _ _
  | moveGroup anchor dx dy newEdit =>
    show s.Clean (s.moveGroup anchor dx dy newEdit)
    unfold moveGroup
    split
    · exact clean_error s _
    · exact clean_ok s _ _
  | isolate | drill | paint | noncopper => exact clean_map (s.clean_storeDerived _ _ _ _ _)
  | cutout spec job board =>
    refine clean_map (?_ : s.Clean (s.cutout spec job board))
    unfold cutout
    split
    · exact clean_error s _
    · exact s.clean_add _ _
  | panelize | mirror | transform => exact clean_map (s.clean_storeGeometry _ _ _)
  | rebuildJob id =>
    show s.Clean (s.rebuildJob id)
    unfold rebuildJob
    split
    · exact clean_error s _
    · split
      · split
        · exact clean_error s _
        · split
          · exact clean_error s _
          · exact clean_ok s _ _
      · exact clean_error s _
  | undo => exact clean_ok s _ _
  | redo => exact clean_ok s _ _

/-- **An operation that fails leaves the document and what can be undone and redone as they
are just when the collection does not refuse it, or a snapshot would change nothing.** -/
theorem unchanged_iff (s : Session E) (op : SessionOp E) :
    (∀ e, (s.step op).1 = .error e → (s.step op).2.history = s.history)
      ↔ (s.Refused op → s.history.Saturated) := by
  constructor
  · intro h hrefused
    obtain ⟨⟨e, he⟩, hhistory⟩ := step_refused hrefused
    exact (History.snapshot_eq_self_iff s.history).1 (hhistory.symm.trans (h e he))
  · intro h e he
    by_cases hrefused : s.Refused op
    · rw [(step_refused hrefused).2]
      exact (History.snapshot_eq_self_iff s.history).2 (h hrefused)
    · rw [step_clean hrefused e he]

end Steps

end Session

/-! ## The law -/

/-- **Undo and redo are linear just when no gesture goes on behind an undo; and a session keeps
its history where an operation fails just when the collection does not refuse it, or a snapshot
would change nothing.** -/
theorem undo_redo_iff {C W : Type} (collection : C) (setup : W) (limit : ℕ)
    (ops : List (HistoryOp C W)) {K : Type} [Field K] [LinearOrder K] {E : Engine K}
    (s : Session E) (op : SessionOp E) :
    ((∀ n ≤ ops.length,
        ((ops.take n).foldl Trace.step (.start collection setup limit)).Linear)
      ↔ Runs.Allowed Trace.step Trace.Keeps (.start collection setup limit) ops)
    ∧ ((∀ e, (s.step op).1 = .error e → (s.step op).2.history = s.history)
      ↔ (s.Refused op → s.history.Saturated)) := by
  refine ⟨Trace.linear_run_iff (Nat.zero_le _) (fun hredo => ?_) ops, s.unchanged_iff op⟩
  cases hredo

/-- An edit, another one, back, and a step that goes on with the gesture: what can be redone
would take back the step. And where an unknown object is deleted there is something to undo. -/
theorem not_undo_redo :
    (¬ ∀ ops : List (HistoryOp ℕ Unit), ∀ n ≤ ops.length,
        ((ops.take n).foldl Trace.step (.start 0 () 4)).Linear)
      ∧ ¬ ∀ (s : Session Engine.echo) (op : SessionOp Engine.echo) (e : ScriptError Engine.echo),
        (s.step op).1 = .error e → (s.step op).2.history = s.history := by
  constructor
  · intro h
    have hlinear := h [.edit (· + 1), .edit (· + 1), .undo, .amend (· + 10)] 4 le_rfl
    have hsame : (some ⟨1, ()⟩ : Option (Snapshot ℕ Unit)) = some ⟨11, ()⟩ := hlinear.redoes rfl
    have hcollection := (Snapshot.mk.inj (Option.some.inj hsame)).1
    exact absurd hcollection (by decide)
  · intro h
    have hhistory := h .new (.delete 1) _ rfl
    have hundo : true = false := congrArg History.canUndo hhistory
    exact Bool.noConfusion hundo

end Galdr.Project
