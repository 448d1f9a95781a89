import Galdr.Emit

/-!
# The motion of a tool

The calls of an emitted program move a tool: a rapid takes it through the air, a feed
through the board. The tool remembers how deep a feed has been at the place it is at,
which is how deep a rapid may go there.
-/

namespace Galdr.Eitri

variable {K : Type} [LinearOrder K]

/-! ## The tool -/

/-- Where the tool is. -/
structure Tool (K : Type) where
  /-- Its first coordinate. -/
  x : K
  /-- Its second coordinate. -/
  y : K
  /-- Its height above the board. -/
  z : K
  /-- The lowest height a feed has been at since the tool came to this place. -/
  bored : Option K
  deriving DecidableEq

/-- What a feed does. -/
inductive Feed (K : Type)
  /-- From a height down to another one. -/
  | plunge (x y z : K)
  /-- Along a segment, from one height to another one. -/
  | cut (x y z : K) (segment : Segment K) (dest : K)
  deriving DecidableEq

namespace Tool

/-- The tool after a rapid. -/
def rapid (t : Tool K) (axes : Axes K) : Tool K :=
  let x := axes.x.getD t.x
  let y := axes.y.getD t.y
  ⟨x, y, axes.z.getD t.z, if x = t.x ∧ y = t.y then t.bored else none⟩

/-- The tool after a feed. -/
def feed (t : Tool K) (axes : Axes K) : Tool K :=
  let x := axes.x.getD t.x
  let y := axes.y.getD t.y
  let z := axes.z.getD t.z
  ⟨x, y, z, if x = t.x ∧ y = t.y then some (t.bored.elim z (min z)) else some z⟩

/-- The tool after a call. -/
def step (t : Tool K) : Hook K → Tool K
  | .rapid axes => t.rapid axes
  | .linear axes _ => t.feed axes
  | .arc move _ => t.feed (.xy move.x move.y)
  | .startCode _ | .endCode _ | .dwell _ | .spindleOn _ | .toolChange _ => t

/-- The tool after a list of calls. -/
def run (t : Tool K) (hooks : List (Hook K)) : Tool K := hooks.foldl step t

/-- What a call feeds. -/
def feedOf (t : Tool K) : Hook K → List (Feed K)
  | .linear axes _ =>
    match axes.x, axes.y with
    | none, none => [.plunge t.x t.y (axes.z.getD t.z)]
    | x, y => [.cut t.x t.y t.z (.line (x.getD t.x) (y.getD t.y)) (axes.z.getD t.z)]
  | .arc move _ => [.cut t.x t.y t.z (.arc move.x move.y move.offset move.dir) t.z]
  | .rapid _ | .startCode _ | .endCode _ | .dwell _ | .spindleOn _ | .toolChange _ => []

/-- All a list of calls feeds. -/
def feeds (t : Tool K) : List (Hook K) → List (Feed K)
  | [] => []
  | hook :: rest => t.feedOf hook ++ (t.step hook).feeds rest

variable (t : Tool K)

@[simp] theorem run_nil : t.run [] = t := rfl

@[simp] theorem run_cons (hook : Hook K) (rest : List (Hook K)) :
    t.run (hook :: rest) = (t.step hook).run rest := rfl

@[simp] theorem run_append (hooks rest : List (Hook K)) :
    t.run (hooks ++ rest) = (t.run hooks).run rest :=
  List.foldl_append

@[simp] theorem feeds_nil : t.feeds [] = [] := rfl

@[simp] theorem feeds_cons (hook : Hook K) (rest : List (Hook K)) :
    t.feeds (hook :: rest) = t.feedOf hook ++ (t.step hook).feeds rest := rfl

@[simp] theorem feeds_append (hooks rest : List (Hook K)) :
    t.feeds (hooks ++ rest) = t.feeds hooks ++ (t.run hooks).feeds rest := by
  induction hooks generalizing t with
  | nil => rfl
  | cons hook hooks ih =>
    show t.feedOf hook ++ (t.step hook).feeds (hooks ++ rest) = _
    rw [ih, feeds_cons, run_cons, List.append_assoc]

end Tool

/-! ## Safe rapids -/

variable [Field K]

/-- A rapid is safe: it crosses the board at a safe height, and goes below the surface
only where a feed has been as deep. -/
structure RapidSafe (safe : K → Prop) (t : Tool K) (axes : Axes K) : Prop where
  /-- The tool that crosses the board is, and stays, at a safe height. -/
  traverse : (t.rapid axes).x ≠ t.x ∨ (t.rapid axes).y ≠ t.y →
    safe t.z ∧ (t.rapid axes).z = t.z
  /-- The tool that goes below the surface goes straight down into a hole. -/
  plunge : (t.rapid axes).z < 0 → (t.rapid axes).x = t.x ∧ (t.rapid axes).y = t.y
    ∧ ∃ depth, t.bored = some depth ∧ depth ≤ (t.rapid axes).z

/-- Every rapid of a list of calls is safe. -/
def SafeFrom (safe : K → Prop) : Tool K → List (Hook K) → Prop
  | _, [] => True
  | t, .rapid axes :: rest => RapidSafe safe t axes ∧ SafeFrom safe (t.rapid axes) rest
  | t, hook :: rest => SafeFrom safe (t.step hook) rest

section Safe

variable {safe : K → Prop} {t : Tool K}

theorem safeFrom_append {hooks rest : List (Hook K)} :
    SafeFrom safe t (hooks ++ rest) ↔ SafeFrom safe t hooks ∧ SafeFrom safe (t.run hooks) rest := by
  induction hooks generalizing t with
  | nil => exact (true_and _).to_iff.symm
  | cons hook hooks ih =>
    cases hook with
    | rapid axes =>
      show _ ∧ SafeFrom safe _ (hooks ++ rest) ↔ (_ ∧ _) ∧ _
      rw [ih, and_assoc]
      rfl
    | _ => exact ih

/-- The rapids of a safe list of calls, each from where the calls before it lead. -/
theorem SafeFrom.rapidSafe {hooks : List (Hook K)} (h : SafeFrom safe t hooks)
    {before after : List (Hook K)} {axes : Axes K} (heq : hooks = before ++ .rapid axes :: after) :
    RapidSafe safe (t.run before) axes := by
  subst heq
  exact (safeFrom_append.1 h).2.1

/-- A lift. -/
theorem rapidSafe_onlyZ {z : K} (hz : 0 ≤ z) : RapidSafe safe t (.onlyZ z) where
  traverse h := absurd h (by simp [Tool.rapid, Axes.onlyZ])
  plunge h := absurd h (not_lt.2 hz)

/-- A way back into a hole. -/
theorem rapidSafe_resume {z depth : K} (hbored : t.bored = some depth) (h : depth ≤ z) :
    RapidSafe safe t (.onlyZ z) where
  traverse h := absurd h (by simp [Tool.rapid, Axes.onlyZ])
  plunge _ := ⟨rfl, rfl, depth, hbored, h⟩

/-- A way across the board. -/
theorem rapidSafe_xy {x y : K} (hsafe : safe t.z) (hz : 0 ≤ t.z) :
    RapidSafe safe t (.xy x y) where
  traverse _ := ⟨hsafe, rfl⟩
  plunge h := absurd h (not_lt.2 hz)

/-- Calls without a rapid are safe. -/
theorem safeFrom_of_forall_ne {hooks : List (Hook K)}
    (h : ∀ axes, Hook.rapid axes ∉ hooks) : SafeFrom safe t hooks := by
  induction hooks generalizing t with
  | nil => trivial
  | cons hook hooks ih =>
    have hrest : ∀ axes, Hook.rapid axes ∉ hooks := fun axes hmem =>
      h axes (List.mem_cons_of_mem _ hmem)
    cases hook with
    | rapid axes => exact absurd (List.mem_cons_self ..) (h axes)
    | _ => exact ih hrest

/-- More heights may be safe. -/
theorem SafeFrom.mono {safe' : K → Prop} {hooks : List (Hook K)} (h : SafeFrom safe t hooks)
    (hle : ∀ z, safe z → safe' z) : SafeFrom safe' t hooks := by
  induction hooks generalizing t with
  | nil => trivial
  | cons hook hooks ih =>
    cases hook with
    | rapid axes =>
      exact ⟨⟨fun hne => ⟨hle _ (h.1.traverse hne).1, (h.1.traverse hne).2⟩, h.1.plunge⟩,
        ih h.2⟩
    | _ => exact ih h

end Safe

end Galdr.Eitri
