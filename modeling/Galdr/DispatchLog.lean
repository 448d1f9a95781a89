import Mathlib

/-!
# The log of a queue that is served in pieces

Items are released into a queue and served in order, a piece at a time. What
waits may be dropped at any moment, the item under way included. The log keeps
an entry for every item ever released, with how much of it was served and what
became of it: what was served is then the pieces of the entries, one after the
other.
-/

namespace DispatchLog

variable {α : Type}

/-- What became of an item. -/
inductive Fate
  /-- It is in the queue, or under way. -/
  | waiting
  /-- It was served to its end. -/
  | served
  /-- It was dropped, wherever it stood. -/
  | dropped
  deriving DecidableEq, Repr

/-- An item that was released. -/
structure Entry (α : Type) where
  /-- The item. -/
  item : List α
  /-- How much of it was served. -/
  sent : ℕ
  /-- What became of it. -/
  fate : Fate
  deriving DecidableEq

namespace Entry

/-- What was served of the item. -/
def piece (e : Entry α) : List α := e.item.take e.sent

/-- What was not. -/
def rest (e : Entry α) : List α := e.item.drop e.sent

/-- A piece of the item is served. -/
def serve (n : ℕ) (e : Entry α) : Entry α :=
  ⟨e.item, e.sent + n, if e.item.length ≤ e.sent + n then .served else .waiting⟩

/-- The item is dropped where it waits. -/
def drop (e : Entry α) : Entry α :=
  if e.fate = .waiting then ⟨e.item, e.sent, .dropped⟩ else e

/-- **A later state of an entry**: the same item, of which no less was served; and the same
entry where nothing was left to do. -/
def Follows (e f : Entry α) : Prop :=
  f.item = e.item ∧ e.sent ≤ f.sent ∧ (e.fate ≠ .waiting → f = e)

theorem Follows.refl (e : Entry α) : e.Follows e := ⟨rfl, le_rfl, fun _ => rfl⟩

theorem Follows.trans {e f g : Entry α} (h : e.Follows f) (h' : f.Follows g) : e.Follows g := by
  obtain ⟨hitem, hsent, hfate⟩ := h
  obtain ⟨hitem', hsent', hfate'⟩ := h'
  refine ⟨hitem'.trans hitem, hsent.trans hsent', fun hne => ?_⟩
  have hsame : f = e := hfate hne
  subst hsame
  exact hfate' hne

theorem follows_drop (e : Entry α) : e.Follows e.drop := by
  unfold drop
  split
  case isTrue hwaits => exact ⟨rfl, le_rfl, fun hne => absurd hwaits hne⟩
  case isFalse => exact .refl e

theorem follows_serve {e : Entry α} (h : e.fate = .waiting) (n : ℕ) : e.Follows (e.serve n) :=
  ⟨rfl, Nat.le_add_right _ _, fun hne => absurd h hne⟩

/-- What is served is what was left, as far as it reaches. -/
theorem piece_serve (n : ℕ) (e : Entry α) : (e.serve n).piece = e.piece ++ e.rest.take n :=
  List.take_add

theorem rest_serve (n : ℕ) (e : Entry α) : (e.serve n).rest = e.rest.drop n :=
  (List.drop_drop ..).symm

theorem piece_drop (e : Entry α) : e.drop.piece = e.piece := by
  unfold drop
  split <;> rfl

theorem fate_drop_ne (e : Entry α) : e.drop.fate ≠ .waiting := by
  unfold drop
  split
  case isTrue => exact Fate.noConfusion
  case isFalse hfate => exact hfate

end Entry

/-- **Who waits, waits behind**: after an item that waits come only items that wait and of
which nothing was served. -/
def Behind (e f : Entry α) : Prop := e.fate = .waiting → f.fate = .waiting ∧ f.sent = 0

/-- **A log**: the entries in the order of their release. An item counts as served only when
all of it was, and the queue is served from its front. -/
structure Log (α : Type) where
  /-- The entries. -/
  entries : List (Entry α)
  /-- What counts as served was served to its end. -/
  served_all : ∀ e ∈ entries, e.fate = .served → e.piece = e.item
  /-- The queue is served in order. -/
  in_order : entries.Pairwise Behind

/-- A piece of the first item that waits is served. -/
def serveFirst (n : ℕ) : List (Entry α) → List (Entry α)
  | [] => []
  | e :: es => if e.fate = .waiting then e.serve n :: es else e :: serveFirst n es

/-- What is left of the items that wait. -/
def waiting : List (Entry α) → List (List α)
  | [] => []
  | e :: es => if e.fate = .waiting then e.rest :: waiting es else waiting es

theorem waiting_cons_of_waiting {e : Entry α} (h : e.fate = .waiting) (es : List (Entry α)) :
    waiting (e :: es) = e.rest :: waiting es := if_pos h

theorem waiting_cons_of_ne {e : Entry α} (h : e.fate ≠ .waiting) (es : List (Entry α)) :
    waiting (e :: es) = waiting es := if_neg h

theorem serveFirst_cons_of_waiting {e : Entry α} (h : e.fate = .waiting) (n : ℕ)
    (es : List (Entry α)) : serveFirst n (e :: es) = e.serve n :: es := if_pos h

theorem serveFirst_cons_of_ne {e : Entry α} (h : e.fate ≠ .waiting) (n : ℕ)
    (es : List (Entry α)) : serveFirst n (e :: es) = e :: serveFirst n es := if_neg h

theorem waiting_append (es fs : List (Entry α)) :
    waiting (es ++ fs) = waiting es ++ waiting fs := by
  induction es with
  | nil => rfl
  | cons e es ih =>
    rw [List.cons_append]
    by_cases hfate : e.fate = .waiting
    · rw [waiting_cons_of_waiting hfate, waiting_cons_of_waiting hfate, ih, List.cons_append]
    · rw [waiting_cons_of_ne hfate, waiting_cons_of_ne hfate, ih]

/-- Nothing waits exactly where every item was served or dropped. -/
theorem waiting_eq_nil_iff {es : List (Entry α)} :
    waiting es = [] ↔ ∀ e ∈ es, e.fate ≠ .waiting := by
  induction es with
  | nil => exact iff_of_true rfl (List.forall_mem_nil _)
  | cons e es ih =>
    rw [List.forall_mem_cons]
    by_cases hfate : e.fate = .waiting
    · rw [waiting_cons_of_waiting hfate]
      exact iff_of_false (List.cons_ne_nil _ _) fun h => h.1 hfate
    · rw [waiting_cons_of_ne hfate, ih]
      exact (and_iff_right hfate).symm

/-- Serving a piece takes it off what waits. -/
theorem waiting_serveFirst {n : ℕ} {es : List (Entry α)} {r : List α} {rs : List (List α)}
    (h : waiting es = r :: rs) :
    waiting (serveFirst n es) = if r.length ≤ n then rs else r.drop n :: rs := by
  induction es with
  | nil => exact absurd h.symm (List.cons_ne_nil _ _)
  | cons e es ih =>
    by_cases hfate : e.fate = .waiting
    · rw [waiting_cons_of_waiting hfate] at h
      obtain ⟨rfl, rfl⟩ := List.cons.inj h
      have hlength : e.rest.length ≤ n ↔ e.item.length ≤ e.sent + n := by
        unfold Entry.rest
        rw [List.length_drop]
        exact Nat.sub_le_iff_le_add'
      rw [serveFirst_cons_of_waiting hfate]
      by_cases hall : e.item.length ≤ e.sent + n
      · have hserved : (e.serve n).fate ≠ .waiting := by
          show (if _ then _ else _) ≠ _
          rw [if_pos hall]
          exact Fate.noConfusion
        rw [waiting_cons_of_ne hserved, if_pos (hlength.2 hall)]
      · have hserved : (e.serve n).fate = .waiting := if_neg hall
        rw [waiting_cons_of_waiting hserved, Entry.rest_serve,
          if_neg fun hle => hall (hlength.1 hle)]
    · rw [waiting_cons_of_ne hfate] at h
      rw [serveFirst_cons_of_ne hfate, waiting_cons_of_ne hfate, ih h]

/-- **What is served goes behind what was**: nothing of the items after the first that waits
was served yet. -/
theorem flatMap_piece_serveFirst (n : ℕ) {es : List (Entry α)} (h : es.Pairwise Behind) :
    (serveFirst n es).flatMap Entry.piece
      = es.flatMap Entry.piece ++ ((waiting es).headD []).take n := by
  induction es with
  | nil => exact List.take_nil.symm
  | cons e es ih =>
    obtain ⟨hhead, htail⟩ := List.pairwise_cons.1 h
    by_cases hfate : e.fate = .waiting
    · have hnothing : es.flatMap Entry.piece = [] := by
        refine List.flatMap_eq_nil_iff.2 fun f hf => ?_
        unfold Entry.piece
        rw [(hhead f hf hfate).2, List.take_zero]
      rw [serveFirst_cons_of_waiting hfate, waiting_cons_of_waiting hfate, List.flatMap_cons,
        List.flatMap_cons, hnothing, List.append_nil, List.append_nil, Entry.piece_serve]
      rfl
    · rw [serveFirst_cons_of_ne hfate, waiting_cons_of_ne hfate, List.flatMap_cons,
        List.flatMap_cons, ih htail, List.append_assoc]

theorem mem_serveFirst {n : ℕ} {es : List (Entry α)} {f : Entry α} (h : f ∈ serveFirst n es) :
    f ∈ es ∨ ∃ e ∈ es, f = e.serve n := by
  induction es with
  | nil => exact Or.inl h
  | cons e es ih =>
    by_cases hfate : e.fate = .waiting
    · rw [serveFirst_cons_of_waiting hfate] at h
      refine (List.mem_cons.1 h).elim (fun hf => ?_) fun hf => Or.inl (List.mem_cons_of_mem _ hf)
      exact Or.inr ⟨e, List.mem_cons_self, hf⟩
    · rw [serveFirst_cons_of_ne hfate] at h
      refine (List.mem_cons.1 h).elim (fun hf => Or.inl (hf ▸ List.mem_cons_self)) fun hf => ?_
      refine (ih hf).imp (List.mem_cons_of_mem _) fun ⟨g, hg, hrest⟩ => ?_
      exact ⟨g, List.mem_cons_of_mem _ hg, hrest⟩

theorem map_item_serveFirst (n : ℕ) (es : List (Entry α)) :
    (serveFirst n es).map Entry.item = es.map Entry.item := by
  induction es with
  | nil => rfl
  | cons e es ih =>
    by_cases hfate : e.fate = .waiting
    · rw [serveFirst_cons_of_waiting hfate]
      rfl
    · rw [serveFirst_cons_of_ne hfate, List.map_cons, List.map_cons, ih]

theorem pairwise_serveFirst (n : ℕ) {es : List (Entry α)} (h : es.Pairwise Behind) :
    (serveFirst n es).Pairwise Behind := by
  induction es with
  | nil => exact h
  | cons e es ih =>
    obtain ⟨hhead, htail⟩ := List.pairwise_cons.1 h
    by_cases hfate : e.fate = .waiting
    · rw [serveFirst_cons_of_waiting hfate]
      exact List.pairwise_cons.2 ⟨fun f hf _ => hhead f hf hfate, htail⟩
    · rw [serveFirst_cons_of_ne hfate]
      exact List.pairwise_cons.2 ⟨fun f _ hwaits => absurd hwaits hfate, ih htail⟩

/-! ## What may happen to a log -/

namespace Log

/-- The log before anything is released. -/
def empty : Log α := ⟨[], List.forall_mem_nil _, .nil⟩

/-- An item is released. -/
def release (l : Log α) (item : List α) : Log α where
  entries := l.entries ++ [⟨item, 0, .waiting⟩]
  served_all := List.forall_mem_append.2
    ⟨l.served_all, List.forall_mem_singleton.2 fun h => Fate.noConfusion h⟩
  in_order := List.pairwise_append.2 ⟨l.in_order, List.pairwise_singleton _ _,
    fun _ _ _ hf _ => List.eq_of_mem_singleton hf ▸ ⟨rfl, rfl⟩⟩

/-- What waits is dropped. -/
def dropWaiting (l : Log α) : Log α where
  entries := l.entries.map Entry.drop
  served_all := by
    refine List.forall_mem_map.2 fun e he => ?_
    have hall := l.served_all e he
    unfold Entry.drop
    split
    case isTrue => exact fun h => Fate.noConfusion h
    case isFalse => exact hall
  in_order := by
    refine List.pairwise_map.2 (l.in_order.imp fun {e _} _ hwaits => ?_)
    exact absurd hwaits e.fate_drop_ne

/-- A piece of the front of the queue is served. -/
def serve (l : Log α) (n : ℕ) : Log α where
  entries := serveFirst n l.entries
  served_all := by
    intro f hf
    refine (mem_serveFirst hf).elim (l.served_all f) fun ⟨e, _, hserve⟩ hserved => ?_
    subst hserve
    unfold Entry.serve at hserved ⊢
    by_cases hall : e.item.length ≤ e.sent + n
    · exact List.take_of_length_le hall
    · rw [if_neg hall] at hserved
      exact Fate.noConfusion hserved
  in_order := pairwise_serveFirst n l.in_order

/-- The items, in the order of their release. -/
def items (l : Log α) : List (List α) := l.entries.map Entry.item

/-- What was served, in the order of the items. -/
def output (l : Log α) : List α := l.entries.flatMap Entry.piece

/-- What is left of the items that wait. -/
def queue (l : Log α) : List (List α) := waiting l.entries

@[simp]
theorem items_release (l : Log α) (item : List α) : (l.release item).items = l.items ++ [item] :=
  List.map_append

@[simp]
theorem output_release (l : Log α) (item : List α) : (l.release item).output = l.output := by
  unfold output release
  rw [List.flatMap_append]
  exact List.append_nil _

@[simp]
theorem queue_release (l : Log α) (item : List α) : (l.release item).queue = l.queue ++ [item] :=
  waiting_append ..

@[simp]
theorem items_dropWaiting (l : Log α) : l.dropWaiting.items = l.items := by
  unfold items dropWaiting
  rw [List.map_map]
  refine List.map_congr_left fun e _ => ?_
  show e.drop.item = e.item
  exact e.follows_drop.1

@[simp]
theorem output_dropWaiting (l : Log α) : l.dropWaiting.output = l.output := by
  unfold output dropWaiting
  rw [List.flatMap_map]
  exact congrArg l.entries.flatMap (funext Entry.piece_drop)

@[simp]
theorem queue_dropWaiting (l : Log α) : l.dropWaiting.queue = [] :=
  waiting_eq_nil_iff.2 (List.forall_mem_map.2 fun e _ => e.fate_drop_ne)

@[simp]
theorem items_serve (l : Log α) (n : ℕ) : (l.serve n).items = l.items := map_item_serveFirst ..

/-- **A piece is served from the front of the queue.** -/
theorem output_serve (l : Log α) (n : ℕ) :
    (l.serve n).output = l.output ++ (l.queue.headD []).take n :=
  flatMap_piece_serveFirst n l.in_order

theorem queue_serve {l : Log α} {r : List α} {rs : List (List α)} (h : l.queue = r :: rs) (n : ℕ) :
    (l.serve n).queue = if r.length ≤ n then rs else r.drop n :: rs :=
  waiting_serveFirst h

/-- **A later state of a log**: every entry is still there, where it was, and nothing happens
any more to an item that was served or dropped. -/
def Extends (l l' : Log α) : Prop :=
  ∀ (i : ℕ) (e : Entry α), l.entries[i]? = some e → ∃ f, l'.entries[i]? = some f ∧ e.Follows f

theorem Extends.refl (l : Log α) : l.Extends l := fun _ e he => ⟨e, he, .refl e⟩

theorem Extends.trans {l l' l'' : Log α} (h : l.Extends l') (h' : l'.Extends l'') :
    l.Extends l'' := by
  intro i e he
  obtain ⟨f, hf, hef⟩ := h i e he
  obtain ⟨g, hg, hfg⟩ := h' i f hf
  exact ⟨g, hg, hef.trans hfg⟩

theorem extends_release (l : Log α) (item : List α) : l.Extends (l.release item) := by
  intro i e he
  refine ⟨e, ?_, .refl e⟩
  show (l.entries ++ [_])[i]? = some e
  rw [List.getElem?_append_left (List.getElem?_eq_some_iff.1 he).1, he]

theorem extends_dropWaiting (l : Log α) : l.Extends l.dropWaiting := by
  intro i e he
  refine ⟨e.drop, ?_, e.follows_drop⟩
  show (l.entries.map Entry.drop)[i]? = _
  rw [List.getElem?_map, he]
  rfl

theorem extends_serve (l : Log α) (n : ℕ) : l.Extends (l.serve n) := by
  show ∀ i e, l.entries[i]? = some e → ∃ f, (serveFirst n l.entries)[i]? = some f
      ∧ Entry.Follows e f
  induction l.entries with
  | nil => exact fun i e he => absurd (List.getElem?_nil.symm.trans he).symm (Option.some_ne_none e)
  | cons e' es ih =>
    intro i e he
    by_cases hfate : e'.fate = .waiting
    · rw [serveFirst_cons_of_waiting hfate]
      cases i with
      | zero =>
        obtain rfl := Option.some_inj.1 he
        exact ⟨_, rfl, Entry.follows_serve hfate n⟩
      | succ i => exact ⟨e, he, .refl e⟩
    · rw [serveFirst_cons_of_ne hfate]
      cases i with
      | zero => exact ⟨e, he, .refl e⟩
      | succ i => exact ih i e he

end Log

end DispatchLog
