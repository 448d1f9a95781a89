import Galdr.GeoBackend
import Galdr.TravelOrder

/-!
# Drill plans and ordered paths

The hits of a drill file are grouped by tool, and those of each tool are put in the order that an
optimizer says; the paths of a fill are ordered by the same optimizers. A slot may be cut the other
way around, and so may a path that is open.

Every hit is in the plan once, under its own tool (`planDrilling_spec`), and every path is kept
with all its points (`orderPaths_spec`).
-/

namespace Galdr.Eitri.Travel

variable {K : Type} [Field K] [LinearOrder K]

/-! ## The stops of an optimizer -/

/-- What orders stops. -/
abbrev Optimizer (K : Type) := ∀ n : ℕ, (Fin n → Stop K) → Point K → List (Routed n)

/-- Its tours go to every stop once. -/
def KeepsStops (optimizer : Optimizer K) : Prop :=
  ∀ n stops start, ((optimizer n stops start).map Routed.index).Perm (List.finRange n)

/-- Work stops at a token that is cancelled. -/
def checkCancel (cancelled : Bool) : Except Geo.Error Unit :=
  if cancelled then .error .cancelled else .ok ()

/-- `order_stops`: a look at the token, and then the tour. -/
def orderStops (optimizer : Optimizer K) {n : ℕ} (stops : Fin n → Stop K) (start : Point K)
    (cancelled : Bool) : Except Geo.Error (List (Routed n)) := do
  checkCancel cancelled
  .ok (optimizer n stops start)

/-! ## Drilling -/

/-- A hit of a drill file. -/
inductive DrillHit (K : Type)
  /-- A hole. -/
  | drill (tool : ℕ) (x y : K)
  /-- A slot. -/
  | slot (tool : ℕ) (start finish : K × K)

/-- The number of the tool of a hit. -/
def DrillHit.tool : DrillHit K → ℕ
  | drill tool _ _ => tool
  | slot tool _ _ => tool

/-- A hit without its tool. -/
inductive HitKind (K : Type)
  | drill (p : Point K)
  | slot (a b : Point K)

/-- What a hit is. -/
def DrillHit.kind : DrillHit K → HitKind K
  | drill _ x y => .drill ⟨x, y⟩
  | slot _ start finish => .slot ⟨start.1, start.2⟩ ⟨finish.1, finish.2⟩

/-- The stop of a hit. -/
def HitKind.stop : HitKind K → Stop K
  | drill p => .point p
  | slot a b => .segment a b

/-- A move of a drill plan. -/
inductive DrillMove (K : Type)
  | drill (place : Point K)
  | slot (start finish : Point K)

/-- Where the tool leaves a move. -/
def DrillMove.exit : DrillMove K → Point K
  | drill place => place
  | slot _ finish => finish

/-- How a tool drills. -/
structure DrillParams (K : Type) where
  depth : K
  feed : K
  retract : K
  peck : Option K
  dwell : Option K

/-- How the tools drill, and where the machine is. -/
structure DrillConfig (K : Type) where
  defaults : DrillParams K
  overrides : List (ℕ × DrillParams K)
  start : Point K

/-- The parameters of a tool. -/
def DrillConfig.paramsFor (config : DrillConfig K) (tool : ℕ) : DrillParams K :=
  (config.overrides.lookup tool).getD config.defaults

/-- A drill file: the diameters of its tools, and its hits. -/
structure ExcellonImage (K : Type) where
  tools : List (ℕ × K)
  hits : List (DrillHit K)

/-- The moves of one tool. -/
structure ToolDrillPlan (K : Type) where
  tool : ℕ
  diameter : K
  params : DrillParams K
  moves : List (DrillMove K)

/-- A hit is put with those of its tool; the tools ascend. -/
def entryPush (tool : ℕ) (kind : HitKind K) : List (ℕ × List (HitKind K)) →
    List (ℕ × List (HitKind K))
  | [] => [(tool, [kind])]
  | (t, kinds) :: rest =>
    if tool < t then (tool, [kind]) :: (t, kinds) :: rest
    else if tool = t then (t, kinds ++ [kind]) :: rest
    else (t, kinds) :: entryPush tool kind rest

/-- The hits by tool. -/
def byTool (hits : List (DrillHit K)) : List (ℕ × List (HitKind K)) :=
  hits.foldl (fun groups hit => entryPush hit.tool hit.kind groups) []

/-- The move of a stop of a tour. -/
def moveOf (kinds : List (HitKind K)) (r : Routed kinds.length) : DrillMove K :=
  match kinds[r.index] with
  | .drill p => .drill p
  | .slot a b => if r.reversed then .slot b a else .slot a b

section Plan

variable (optimizer : Optimizer K) (image : ExcellonImage K) (config : DrillConfig K)
  (cancelled : ℕ → Bool)

/-- The plans of some tools, from where the machine is; the token is looked at twice for each. -/
def planTools : List (ℕ × List (HitKind K)) → ℕ → Point K →
    Except Geo.Error (List (ToolDrillPlan K))
  | [], _, _ => .ok []
  | (tool, kinds) :: rest, look, cursor => do
    checkCancel (cancelled look)
    let tour ← orderStops optimizer (fun i : Fin kinds.length => kinds[i].stop) cursor
      (cancelled (look + 1))
    let moves := tour.map (moveOf kinds)
    let plans ← planTools rest (look + 2) ((moves.getLast?.map DrillMove.exit).getD cursor)
    .ok (⟨tool, (image.tools.lookup tool).getD 0, config.paramsFor tool, moves⟩ :: plans)

/-- `plan_drilling`. -/
def planDrilling : Except Geo.Error (List (ToolDrillPlan K)) :=
  planTools optimizer image config cancelled (byTool image.hits) 0 config.start

end Plan

/-! ## Paths -/

/-- The stop of a path: a closed one ends where it starts. -/
def pathStop (p : RingPath K) : Stop K :=
  if p.isClosed then .point p.start else .segment p.start p.finish

/-- The path of a stop of a tour. -/
def pathOf (paths : List (RingPath K)) (r : Routed paths.length) : RingPath K :=
  if r.reversed && !paths[r.index].isClosed then ⟨paths[r.index].points.reverse⟩
  else paths[r.index]

/-- `order_paths`. -/
def orderPaths (optimizer : Optimizer K) (paths : List (RingPath K)) (start : Point K)
    (cancelled : Bool) : Except Geo.Error (List (RingPath K)) := do
  let tour ← orderStops optimizer (fun i : Fin paths.length => pathStop paths[i]) start cancelled
  .ok (tour.map (pathOf paths))

/-! ## Nothing is lost -/

/-- A move drills a hit: a slot may be cut the other way around. -/
def Carries : HitKind K → DrillMove K → Prop
  | .drill p, move => move = .drill p
  | .slot a b, move => move = .slot a b ∨ move = .slot b a

/-- A path is kept with its points: one that is open may be turned around. -/
def Keeps (p q : RingPath K) : Prop :=
  q = p ∨ (p.isClosed = false ∧ q.points = p.points.reverse)

section Kept

variable {optimizer : Optimizer K} {n : ℕ} {tour : List (Routed n)}

/-- A tour goes to every element of a list. -/
theorem perm_map_index {A : Type} {l : List A} {tour : List (Routed l.length)}
    (h : (tour.map Routed.index).Perm (List.finRange l.length)) :
    (tour.map fun r => l[r.index]).Perm l := by
  have hmap := h.map (l[·])
  have hall : (List.finRange l.length).map (l[·]) = l := List.map_getElem_finRange l
  rw [List.map_map, hall] at hmap
  exact hmap

omit [Field K] [LinearOrder K] in
theorem carries_moveOf (kinds : List (HitKind K)) (r : Routed kinds.length) :
    Carries kinds[r.index] (moveOf kinds r) := by
  unfold moveOf
  generalize kinds[r.index] = kind
  cases kind with
  | drill p => rfl
  | slot a b =>
    cases r.reversed with
    | false => exact .inl rfl
    | true => exact .inr rfl

theorem keeps_pathOf (paths : List (RingPath K)) (r : Routed paths.length) :
    Keeps paths[r.index] (pathOf paths r) := by
  unfold pathOf
  split
  · rename_i hturned
    rw [Bool.and_eq_true, Bool.not_eq_true'] at hturned
    exact .inr ⟨hturned.2, rfl⟩
  · exact .inl rfl

omit [Field K] [LinearOrder K] in
theorem orderStops_spec (hoptimizer : KeepsStops optimizer) {stops : Fin n → Stop K}
    {start : Point K} {cancelled : Bool}
    (h : orderStops optimizer stops start cancelled = .ok tour) :
    (tour.map Routed.index).Perm (List.finRange n) := by
  obtain ⟨_, -, htour⟩ := Geo.exists_ok_of_bind h
  obtain rfl := Except.ok.inj htour
  exact hoptimizer n stops start

/-- **Every path is kept, with all its points.** -/
theorem orderPaths_spec (hoptimizer : KeepsStops optimizer) {paths ordered : List (RingPath K)}
    {start : Point K} {cancelled : Bool}
    (h : orderPaths optimizer paths start cancelled = .ok ordered) :
    ∃ l : List (RingPath K), l.Perm paths ∧ List.Forall₂ Keeps l ordered := by
  obtain ⟨tour, htour, hordered⟩ := Geo.exists_ok_of_bind h
  obtain rfl := Except.ok.inj hordered
  refine ⟨_, perm_map_index (orderStops_spec hoptimizer htour), ?_⟩
  rw [List.forall₂_map_left_iff, List.forall₂_map_right_iff]
  exact List.forall₂_same.mpr fun r _ => keeps_pathOf paths r

/-! ## The hits of a tool -/

/-- The hits are in the groups of their tools, and the tools ascend. -/
structure Grouped (hits : List (DrillHit K)) (groups : List (ℕ × List (HitKind K))) : Prop where
  ascending : groups.Pairwise fun a b => a.1 < b.1
  mem : ∀ tool kinds, (tool, kinds) ∈ groups ↔
    kinds = (hits.filter fun hit => hit.tool = tool).map DrillHit.kind ∧ kinds ≠ []

omit [Field K] [LinearOrder K] in
/-- What a hit does to the groups. -/
theorem mem_entryPush {tool t : ℕ} {kind : HitKind K} {kinds : List (HitKind K)}
    {groups : List (ℕ × List (HitKind K))} (h : groups.Pairwise fun a b => a.1 < b.1) :
    (t, kinds) ∈ entryPush tool kind groups ↔
      if t = tool then
        (∃ old, (tool, old) ∈ groups ∧ kinds = old ++ [kind])
          ∨ ((∀ old, (tool, old) ∉ groups) ∧ kinds = [kind])
      else (t, kinds) ∈ groups := by
  induction groups with
  | nil =>
    by_cases heq : t = tool
    · simp [entryPush, heq]
    · simp [entryPush, heq]
  | cons group rest ih =>
    obtain ⟨s, others⟩ := group
    obtain ⟨hfirst, hrest⟩ := List.pairwise_cons.mp h
    have hfresh : ∀ old, (s, old) ∉ rest := fun old hold => absurd (hfirst _ hold) (lt_irrefl s)
    unfold entryPush
    by_cases hlt : tool < s
    · have hnone : ∀ old, (tool, old) ∉ rest := fun old hold => by
        have := hfirst _ hold
        dsimp only at this
        omega
      rw [if_pos hlt]
      by_cases heq : t = tool
      · subst heq
        have hne : t ≠ s := hlt.ne
        simp [hne, hnone]
      · simp [heq]
    · rw [if_neg hlt]
      by_cases hsame : tool = s
      · subst hsame
        rw [if_pos rfl]
        by_cases heq : t = tool
        · subst heq
          simp [hfresh]
        · simp [heq]
      · rw [if_neg hsame, List.mem_cons, ih hrest]
        by_cases heq : t = tool
        · subst heq
          simp [hsame]
        · simp [heq]

omit [Field K] [LinearOrder K] in
theorem pairwise_entryPush {tool : ℕ} {kind : HitKind K} {groups : List (ℕ × List (HitKind K))}
    (h : groups.Pairwise fun a b => a.1 < b.1) :
    (entryPush tool kind groups).Pairwise fun a b => a.1 < b.1 := by
  induction groups with
  | nil => exact List.pairwise_singleton _ _
  | cons group rest ih =>
    obtain ⟨s, others⟩ := group
    obtain ⟨hfirst, hrest⟩ := List.pairwise_cons.mp h
    unfold entryPush
    split
    · rename_i hlt
      refine List.pairwise_cons.mpr ⟨fun b hb => ?_, h⟩
      rcases List.mem_cons.mp hb with rfl | hb
      · exact hlt
      · exact hlt.trans (hfirst b hb)
    · split
      · exact List.pairwise_cons.mpr ⟨hfirst, hrest⟩
      · rename_i hlt hne
        refine List.pairwise_cons.mpr ⟨fun b hb => ?_, ih hrest⟩
        obtain ⟨t, kinds⟩ := b
        rw [mem_entryPush hrest] at hb
        split at hb
        · rename_i heq
          subst heq
          exact lt_of_le_of_ne (not_lt.mp hlt) (Ne.symm hne)
        · exact hfirst _ hb

omit [Field K] [LinearOrder K] in
/-- **Every hit is in the group of its tool.** -/
theorem grouped_byTool (hits : List (DrillHit K)) : Grouped hits (byTool hits) := by
  unfold byTool
  induction hits using List.reverseRecOn with
  | nil => exact ⟨.nil, by simp⟩
  | append_singleton before hit ih =>
    rw [List.foldl_append, List.foldl_cons, List.foldl_nil]
    refine ⟨pairwise_entryPush ih.ascending, fun tool kinds => ?_⟩
    rw [mem_entryPush ih.ascending, List.filter_append, List.map_append]
    by_cases heq : tool = hit.tool
    · subst heq
      have hkind : ([hit].filter fun h => h.tool = hit.tool).map DrillHit.kind = [hit.kind] := by
        simp
      rw [if_pos rfl, hkind]
      simp only [ih.mem]
      generalize (before.filter fun h => h.tool = hit.tool).map DrillHit.kind = old
      constructor
      · rintro (⟨_, ⟨rfl, -⟩, rfl⟩ | ⟨hnone, rfl⟩)
        · exact ⟨rfl, List.append_ne_nil_of_right_ne_nil _ (List.cons_ne_nil _ _)⟩
        · have hnil : old = [] := by
            by_contra hne
            exact hnone old ⟨rfl, hne⟩
          rw [hnil]
          exact ⟨rfl, List.cons_ne_nil _ _⟩
      · rintro ⟨rfl, -⟩
        by_cases hnil : old = []
        · subst hnil
          exact .inr ⟨fun _ h => h.2 h.1, rfl⟩
        · exact .inl ⟨old, ⟨rfl, hnil⟩, rfl⟩
    · have hnone : ([hit].filter fun h => h.tool = tool).map DrillHit.kind = [] := by
        simp [Ne.symm heq]
      rw [if_neg heq, hnone, List.append_nil, ih.mem]

/-! ## The plan -/

/-- The plan of a tool: its hits, once each. -/
structure Planned (image : ExcellonImage K) (config : DrillConfig K) (plan : ToolDrillPlan K) :
    Prop where
  diameter : plan.diameter = (image.tools.lookup plan.tool).getD 0
  params : plan.params = config.paramsFor plan.tool
  moves : ∃ l : List (HitKind K),
    l.Perm ((image.hits.filter fun hit => hit.tool = plan.tool).map DrillHit.kind)
      ∧ List.Forall₂ Carries l plan.moves

omit [LinearOrder K] in
theorem planTools_spec (hoptimizer : KeepsStops optimizer) {image : ExcellonImage K}
    {config : DrillConfig K} {cancelled : ℕ → Bool} {groups : List (ℕ × List (HitKind K))}
    {look : ℕ} {cursor : Point K} {plans : List (ToolDrillPlan K)}
    (h : planTools optimizer image config cancelled groups look cursor = .ok plans)
    (hgroups : ∀ group ∈ groups,
      group.2 = (image.hits.filter fun hit => hit.tool = group.1).map DrillHit.kind) :
    plans.map ToolDrillPlan.tool = groups.map Prod.fst
      ∧ ∀ plan ∈ plans, Planned image config plan := by
  induction groups generalizing look cursor plans with
  | nil =>
    obtain rfl := Except.ok.inj h
    exact ⟨rfl, fun _ hplan => absurd hplan List.not_mem_nil⟩
  | cons group rest ih =>
    obtain ⟨tool, kinds⟩ := group
    unfold planTools at h
    obtain ⟨_, -, h⟩ := Geo.exists_ok_of_bind h
    obtain ⟨tour, htour, h⟩ := Geo.exists_ok_of_bind h
    obtain ⟨later, hlater, h⟩ := Geo.exists_ok_of_bind h
    obtain rfl := Except.ok.inj h
    obtain ⟨htools, hplanned⟩ := ih hlater fun group hgroup =>
      hgroups group (List.mem_cons_of_mem _ hgroup)
    refine ⟨congrArg (tool :: ·) htools, fun plan hplan => ?_⟩
    rcases List.mem_cons.mp hplan with rfl | hplan
    · refine ⟨rfl, rfl, tour.map fun r => kinds[r.index], ?_, ?_⟩
      · have hkinds := hgroups _ List.mem_cons_self
        dsimp only at hkinds ⊢
        rw [← hkinds]
        exact perm_map_index (orderStops_spec hoptimizer htour)
      · rw [List.forall₂_map_left_iff, List.forall₂_map_right_iff]
        exact List.forall₂_same.mpr fun r _ => carries_moveOf kinds r
    · exact hplanned plan hplan

omit [LinearOrder K] in
/-- **Every hit is in the plan once, under its own tool.** -/
theorem planDrilling_spec (hoptimizer : KeepsStops optimizer) {image : ExcellonImage K}
    {config : DrillConfig K} {cancelled : ℕ → Bool} {plans : List (ToolDrillPlan K)}
    (h : planDrilling optimizer image config cancelled = .ok plans) :
    (plans.map ToolDrillPlan.tool).Pairwise (· < ·)
      ∧ (∀ tool, tool ∈ plans.map ToolDrillPlan.tool ↔ ∃ hit ∈ image.hits, hit.tool = tool)
      ∧ ∀ plan ∈ plans, Planned image config plan := by
  have hgrouped := grouped_byTool image.hits
  obtain ⟨htools, hplanned⟩ := planTools_spec hoptimizer h fun group hgroup =>
    ((hgrouped.mem group.1 group.2).mp hgroup).1
  rw [htools]
  refine ⟨List.pairwise_map.mpr hgrouped.ascending, fun tool => ?_, hplanned⟩
  constructor
  · intro htool
    obtain ⟨⟨_, kinds⟩, hgroup, rfl⟩ := List.mem_map.mp htool
    obtain ⟨rfl, hne⟩ := (hgrouped.mem _ _).mp hgroup
    obtain ⟨kind, hkind⟩ := List.exists_mem_of_ne_nil _ hne
    obtain ⟨hit, hhit, -⟩ := List.mem_map.mp hkind
    exact ⟨hit, (List.mem_filter.mp hhit).1, of_decide_eq_true (List.mem_filter.mp hhit).2⟩
  · rintro ⟨hit, hhit, rfl⟩
    refine List.mem_map.mpr ⟨(hit.tool, _), (hgrouped.mem _ _).mpr ⟨rfl, ?_⟩, rfl⟩
    exact List.ne_nil_of_mem (List.mem_map_of_mem
      (List.mem_filter.mpr ⟨hhit, decide_eq_true rfl⟩))

end Kept

/-! ## Sound tours -/

/-- The hypotenuse. -/
noncomputable def hypotenuse (x y : ℝ) : ℝ := √(x * x + y * y)

theorem hypotenuse_neg (x y : ℝ) : hypotenuse (-x) (-y) = hypotenuse x y := by
  unfold hypotenuse
  rw [neg_mul_neg, neg_mul_neg]

theorem keepsStops_nearestNeighbor :
    KeepsStops fun _ stops start => nearestNeighbor hypotenuse stops start :=
  fun _ _ _ => perm_nearestNeighbor

theorem keepsStops_twoOpt (maxRounds : ℕ) :
    KeepsStops fun _ stops start => twoOpt hypotenuse stops start maxRounds :=
  fun _ _ _ => (twoOpt_spec hypotenuse_neg maxRounds).1

/-- **Travel is optimised soundly.** A move that a sweep accepts changes the travel by what it is
said to, and makes it shorter. The sweeps and rounds make such moves only, so that the stops stay
and the tour is never longer than its seed. No plan loses a hit, and no order a path. -/
theorem travel_sound :
    (∀ (n : ℕ) (stops : Fin n → Stop ℝ) (start : Point ℝ) (tour : List (Routed n)),
      (∀ tour' delta, Move hypotenuse stops start tour tour' delta →
        tourTravel hypotenuse stops start tour' = tourTravel hypotenuse stops start tour + delta
          ∧ delta < -improveEps ∧ (tour'.map Routed.index).Perm (tour.map Routed.index))
      ∧ Moves hypotenuse stops start tour (twoOptSweep hypotenuse stops start tour).1
      ∧ Moves hypotenuse stops start tour (orOptSweep hypotenuse stops start tour).1
      ∧ ∀ rounds, Moves hypotenuse stops start tour (improve hypotenuse stops start rounds tour)
        ∧ ((improve hypotenuse stops start rounds tour).map Routed.index).Perm
          (tour.map Routed.index)
        ∧ tourTravel hypotenuse stops start (improve hypotenuse stops start rounds tour)
          ≤ tourTravel hypotenuse stops start tour)
    ∧ (∀ (n : ℕ) (stops : Fin n → Stop ℝ) (start : Point ℝ) (maxRounds : ℕ),
      ((twoOpt hypotenuse stops start maxRounds).map Routed.index).Perm (List.finRange n)
        ∧ tourTravel hypotenuse stops start (twoOpt hypotenuse stops start maxRounds)
          ≤ tourTravel hypotenuse stops start (nearestNeighbor hypotenuse stops start))
    ∧ ∀ optimizer : Optimizer ℝ,
      ((optimizer = fun _ stops start => nearestNeighbor hypotenuse stops start)
        ∨ ∃ maxRounds, optimizer = fun _ stops start =>
          twoOpt hypotenuse stops start maxRounds) →
      (∀ (image : ExcellonImage ℝ) (config : DrillConfig ℝ) (cancelled : ℕ → Bool)
        (plans : List (ToolDrillPlan ℝ)),
        planDrilling optimizer image config cancelled = .ok plans →
        (plans.map ToolDrillPlan.tool).Pairwise (· < ·)
          ∧ (∀ tool, tool ∈ plans.map ToolDrillPlan.tool ↔ ∃ hit ∈ image.hits, hit.tool = tool)
          ∧ ∀ plan ∈ plans, Planned image config plan)
      ∧ ∀ (paths ordered : List (RingPath ℝ)) (start : Point ℝ) (cancelled : Bool),
        orderPaths optimizer paths start cancelled = .ok ordered →
        ∃ l : List (RingPath ℝ), l.Perm paths ∧ List.Forall₂ Keeps l ordered := by
  refine ⟨fun n stops start tour => ⟨fun tour' delta hmove => hmove.spec hypotenuse_neg,
    moves_twoOptSweep tour, moves_orOptSweep tour, fun rounds => ?_⟩,
    fun n stops start maxRounds => twoOpt_spec hypotenuse_neg maxRounds,
    fun optimizer hoptimizer => ?_⟩
  · have hmoves : Moves hypotenuse stops start tour (improve hypotenuse stops start rounds tour) :=
      moves_improve rounds tour
    obtain ⟨hle, hperm⟩ := hmoves.spec hypotenuse_neg
    exact ⟨hmoves, hperm, hle⟩
  · have hkeeps : KeepsStops optimizer := by
      rcases hoptimizer with rfl | ⟨maxRounds, rfl⟩
      · exact keepsStops_nearestNeighbor
      · exact keepsStops_twoOpt maxRounds
    exact ⟨fun image config cancelled plans h => planDrilling_spec hkeeps h,
      fun paths ordered start cancelled h => orderPaths_spec hkeeps h⟩

end Galdr.Eitri.Travel
