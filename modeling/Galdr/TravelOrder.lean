import Galdr.CutRing
import Galdr.DirectedTours

/-!
# The order of the stops

A tour takes the tool to every stop once, and through each of them in one of two directions. What
counts is how far the tool travels from stop to stop. The tour that goes to the nearest stop each
time is the seed; it is improved by turning parts of it around and by putting single stops in
other places, as long as that makes the travel shorter.

What a move is said to save is what it saves (`tourTravel_reverseRange`, `tourTravel_relocate`),
so that no sweep makes a tour longer, and no stop is lost (`improves_improve`).
-/

namespace Galdr.Eitri.Travel

open Tours

variable {K : Type} [Field K] [LinearOrder K] {n : ℕ}

/-- A stop of the tool. -/
structure Stop (K : Type) where
  /-- Where the tool arrives, forwards. -/
  entry : Point K
  /-- Where the tool leaves, forwards. -/
  exit : Point K

namespace Stop

/-- A stop in one place. -/
def point (p : Point K) : Stop K := ⟨p, p⟩

/-- A stop from one place to another. -/
def segment (entry exit : Point K) : Stop K := ⟨entry, exit⟩

/-- Where the tool arrives. -/
def arrival (s : Stop K) (reversed : Bool) : Point K := if reversed then s.exit else s.entry

/-- Where the tool leaves. -/
def departure (s : Stop K) (reversed : Bool) : Point K := if reversed then s.entry else s.exit

end Stop

/-- A stop in a tour of some stops. -/
structure Routed (n : ℕ) where
  /-- Which stop it is. -/
  index : Fin n
  /-- It is passed through backwards. -/
  reversed : Bool
  deriving DecidableEq

/-- The same stop the other way around. -/
def Routed.flip (r : Routed n) : Routed n := { r with reversed := !r.reversed }

/-- Improving moves that save less are left. -/
def improveEps : K := 1 / ((1000000000 : ℕ) : K)

section Orders

variable (hypot : K → K → K)

/-- `distance_to`. -/
def distanceTo (a b : Point K) : K := hypot (a.x - b.x) (a.y - b.y)

variable (stops : Fin n → Stop K) (start : Point K)

/-- Where the tool arrives at a stop of a tour. -/
def arrival (r : Routed n) : Point K := (stops r.index).arrival r.reversed

/-- Where the tool leaves a stop of a tour. -/
def departure (r : Routed n) : Point K := (stops r.index).departure r.reversed

/-- The way of the tool between the stops of a tour. -/
def tourTravel (tour : List (Routed n)) : K :=
  (tour.foldl (fun (acc : K × Point K) r =>
    (acc.1 + distanceTo hypot acc.2 (arrival stops r), departure stops r)) (0, start)).1

/-! ## The nearest stop first -/

/-- The nearer of a stop that is not used yet and the best one so far. -/
def nearer (used : Fin n → Bool) (cursor : Point K) (best : Option (Fin n × Bool × K))
    (i : Fin n) : Option (Fin n × Bool × K) :=
  if used i then best
  else
    let forward := distanceTo hypot cursor (stops i).entry
    let backward := distanceTo hypot cursor (stops i).exit
    let choice := if backward < forward then (true, backward) else (false, forward)
    match best with
    | none => some (i, choice)
    | some (_, _, least) => if choice.2 < least then some (i, choice) else best

/-- The nearest stop that is not used yet. -/
def nearest (used : Fin n → Bool) (cursor : Point K) : Option (Fin n × Bool × K) :=
  (List.finRange n).foldl (nearer hypot stops used cursor) none

/-- Some more stops, the nearest first. -/
def visit : ℕ → (Fin n → Bool) → Point K → List (Routed n)
  | 0, _, _ => []
  | k + 1, used, cursor =>
    match nearest hypot stops used cursor with
    | none => visit k used cursor
    | some (i, reversed, _) =>
      ⟨i, reversed⟩ :: visit k (Function.update used i true) ((stops i).departure reversed)

/-- `NearestNeighbor::order`. -/
def nearestNeighbor : List (Routed n) := visit hypot stops n (fun _ => false) start

/-! ## Moves -/

/-- The point from which a place of a tour is reached. -/
def feed (tour : List (Routed n)) (pos : ℕ) : Point K :=
  if pos = 0 then start
  else
    match tour[pos - 1]? with
    | some previous => departure stops previous
    | none => start

/-- The hops at the ends of a part of a tour, before it is turned around and after. -/
def twoOptCosts (tour : List (Routed n)) (i j : ℕ) (ri rj : Routed n) : K × K :=
  let a := feed stops start tour i
  let before := distanceTo hypot a (arrival stops ri)
  let after := distanceTo hypot a (departure stops rj)
  match tour[j + 1]? with
  | some next =>
    (before + distanceTo hypot (departure stops rj) (arrival stops next),
      after + distanceTo hypot (arrival stops ri) (arrival stops next))
  | none => (before, after)

/-- A part of a tour turned around. -/
def reverseRange (tour : List (Routed n)) (i j : ℕ) : List (Routed n) :=
  tour.take i ++ ((((tour.drop i).take (j + 1 - i)).reverse.map Routed.flip) ++ tour.drop (j + 1))

/-- A part of a tour is turned around if that saves something. -/
def twoOptTry (state : List (Routed n) × Bool) (range : ℕ × ℕ) : List (Routed n) × Bool :=
  match state.1[range.1]?, state.1[range.2]? with
  | some ri, some rj =>
    let costs := twoOptCosts hypot stops start state.1 range.1 range.2 ri rj
    if costs.2 + improveEps < costs.1 then (reverseRange state.1 range.1 range.2, true) else state
  | _, _ => state

/-- The parts of a tour, of two stops or more. -/
def ranges (length : ℕ) : List (ℕ × ℕ) :=
  (List.range length).flatMap fun i => (List.range' (i + 1) (length - (i + 1))).map fun j => (i, j)

/-- `two_opt_sweep`. -/
def twoOptSweep (tour : List (Routed n)) : List (Routed n) × Bool :=
  (ranges tour.length).foldl (twoOptTry hypot stops start) (tour, false)

/-- What is saved by lifting a stop out of a tour. -/
def removalGain (tour : List (Routed n)) (i : ℕ) (moved : Routed n) : K :=
  let left := feed stops start tour i
  match tour[i + 1]? with
  | some next =>
    distanceTo hypot left (arrival stops moved)
      + distanceTo hypot (departure stops moved) (arrival stops next)
      - distanceTo hypot left (arrival stops next)
  | none => distanceTo hypot left (arrival stops moved)

/-- What it costs to put a stop into a gap of a tour. -/
def insertCost (reduced : List (Routed n)) (gap : ℕ) (moved : Routed n) : K :=
  let u := feed stops start reduced gap
  match reduced[gap]? with
  | some next =>
    distanceTo hypot u (arrival stops moved)
      + distanceTo hypot (departure stops moved) (arrival stops next)
      - distanceTo hypot u (arrival stops next)
  | none => distanceTo hypot u (arrival stops moved)

/-- The gaps of a tour, each in both directions. -/
def placements (length : ℕ) : List (ℕ × Bool) :=
  (List.range (length + 1)).flatMap fun gap => [(gap, false), (gap, true)]

/-- The better of a place for a stop and the best one so far. -/
def better (tour : List (Routed n)) (i : ℕ) (moved : Routed n) (best : Option (ℕ × Bool × K))
    (place : ℕ × Bool) : Option (ℕ × Bool × K) :=
  let delta := insertCost hypot stops start (tour.eraseIdx i) place.1 ⟨moved.index, place.2⟩
    - removalGain hypot stops start tour i moved
  if delta < -improveEps && best.all (fun b => decide (delta < b.2.2)) then
    some (place.1, place.2, delta)
  else best

/-- The best other place for a stop, if one saves something. -/
def orBest (tour : List (Routed n)) (i : ℕ) (moved : Routed n) : Option (ℕ × Bool × K) :=
  (placements (tour.eraseIdx i).length).foldl (better hypot stops start tour i moved) none

/-- A stop in another place. -/
def relocate (tour : List (Routed n)) (i : ℕ) (moved : Routed n) (gap : ℕ) (reversed : Bool) :
    List (Routed n) :=
  (tour.eraseIdx i).insertIdx gap ⟨moved.index, reversed⟩

/-- A stop is put in the best other place. -/
def orTry (state : List (Routed n) × Bool) (i : ℕ) : List (Routed n) × Bool :=
  match state.1[i]? with
  | none => state
  | some moved =>
    match orBest hypot stops start state.1 i moved with
    | none => state
    | some (gap, reversed, _) => (relocate state.1 i moved gap reversed, true)

/-- `or_opt_sweep`. -/
def orOptSweep (tour : List (Routed n)) : List (Routed n) × Bool :=
  (List.range tour.length).foldl (orTry hypot stops start) (tour, false)

/-- `TwoOpt::improve`: rounds of both sweeps, until one changes nothing. -/
def improve : ℕ → List (Routed n) → List (Routed n)
  | 0, tour => tour
  | rounds + 1, tour =>
    let turned := twoOptSweep hypot stops start tour
    let moved := orOptSweep hypot stops start turned.1
    if turned.2 || moved.2 then improve rounds moved.1 else moved.1

/-- `TwoOpt::order`. -/
def twoOpt (maxRounds : ℕ) : List (Routed n) :=
  improve hypot stops start maxRounds (nearestNeighbor hypot stops start)

end Orders

/-! ## What a tour is made of -/

section Legs

variable {hypot : K → K → K} {stops : Fin n → Stop K} {start : Point K}
  {tour : List (Routed n)} {i j gap : ℕ} {ri rj moved r : Routed n} {reversed : Bool}

variable (stops) in
/-- A stop of a tour as a leg. -/
def leg (r : Routed n) : Leg (Point K) := ⟨arrival stops r, departure stops r⟩

omit [Field K] [LinearOrder K] in
theorem leg_flip (r : Routed n) : leg stops r.flip = (leg stops r).flip := by
  obtain ⟨index, reversed⟩ := r
  cases reversed <;> rfl

omit [LinearOrder K] in
theorem tourTravel_eq (tour : List (Routed n)) :
    tourTravel hypot stops start tour = hops (distanceTo hypot) start (tour.map (leg stops)) := by
  have hfold : ∀ (tour : List (Routed n)) (total : K) (cursor : Point K),
      (tour.foldl (fun (acc : K × Point K) r =>
        (acc.1 + distanceTo hypot acc.2 (arrival stops r), departure stops r)) (total, cursor)).1
      = total + hops (distanceTo hypot) cursor (tour.map (leg stops)) := by
    intro tour
    induction tour with
    | nil => exact fun total _ => (add_zero total).symm
    | cons r rest ih =>
      intro total cursor
      rw [List.foldl_cons, ih, add_assoc]
      rfl
  unfold tourTravel
  rw [hfold, zero_add]

omit [Field K] [LinearOrder K] in
/-- A place of a tour is reached from where the tour before it ends. -/
theorem feed_eq (h : i ≤ tour.length) :
    feed stops start tour i = leave start ((tour.take i).map (leg stops)) := by
  unfold feed
  by_cases hzero : i = 0
  · subst hzero
    rw [if_pos rfl, List.take_zero]
    rfl
  · have hlt : i - 1 < tour.length := by omega
    have hlast : ((tour.take i).map (leg stops)).getLast? = some (leg stops tour[i - 1]) := by
      rw [List.getLast?_map, List.getLast?_take, if_neg hzero, List.getElem?_eq_getElem hlt]
      rfl
    rw [if_neg hzero, List.getElem?_eq_getElem hlt, leave_eq _ hlast]
    rfl

omit [LinearOrder K] in
/-- What follows in a tour is hopped onto. -/
theorem hopOnto_drop (p : Point K) (tour : List (Routed n)) (i : ℕ) :
    hopOnto (distanceTo hypot) p ((tour.drop i).map (leg stops))
      = match tour[i]? with
        | some next => distanceTo hypot p (arrival stops next)
        | none => 0 := by
  rw [← List.head?_drop]
  cases tour.drop i with
  | nil => rfl
  | cons next rest => rfl

omit [LinearOrder K] in
/-- The way back is as long as the way there. -/
theorem distanceTo_comm (heven : ∀ x y, hypot (-x) (-y) = hypot x y) (a b : Point K) :
    distanceTo hypot a b = distanceTo hypot b a := by
  unfold distanceTo
  rw [← heven, neg_sub, neg_sub]

/-! ## A part turned around -/

omit [LinearOrder K] in
theorem twoOptCosts_eq (h : i ≤ tour.length) :
    twoOptCosts hypot stops start tour i j ri rj
      = (distanceTo hypot (leave start ((tour.take i).map (leg stops))) (arrival stops ri)
          + hopOnto (distanceTo hypot) (departure stops rj) ((tour.drop (j + 1)).map (leg stops)),
        distanceTo hypot (leave start ((tour.take i).map (leg stops))) (departure stops rj)
          + hopOnto (distanceTo hypot) (arrival stops ri)
            ((tour.drop (j + 1)).map (leg stops))) := by
  unfold twoOptCosts
  rw [hopOnto_drop, hopOnto_drop, feed_eq h]
  cases tour[j + 1]? with
  | some next => rfl
  | none =>
    dsimp only
    rw [add_zero, add_zero]

/-- The part of a tour from one place to another. -/
theorem exists_split (hij : i ≤ j) (hi : tour[i]? = some ri) (hj : tour[j]? = some rj) :
    ∃ mid, tour = tour.take i ++ (mid ++ tour.drop (j + 1))
      ∧ reverseRange tour i j
        = tour.take i ++ ((mid.reverse.map Routed.flip) ++ tour.drop (j + 1))
      ∧ mid.head? = some ri ∧ mid.getLast? = some rj := by
  obtain ⟨hlt, -⟩ := List.getElem?_eq_some_iff.mp hj
  refine ⟨(tour.drop i).take (j + 1 - i), ?_, rfl, ?_, ?_⟩
  · have hdrop : tour.drop (j + 1) = (tour.drop i).drop (j + 1 - i) := by
      rw [List.drop_drop]
      congr 1
      omega
    rw [hdrop, List.take_append_drop, List.take_append_drop]
  · rw [List.head?_take, if_neg (by omega), List.head?_drop, hi]
  · rw [List.getLast?_take, if_neg (by omega), List.getElem?_drop]
    have hplace : i + (j + 1 - i - 1) = j := by omega
    rw [hplace, hj]
    rfl

omit [LinearOrder K] in
/-- **Turning a part around changes the travel by what it is said to.** -/
theorem tourTravel_reverseRange (heven : ∀ x y, hypot (-x) (-y) = hypot x y) (hij : i ≤ j)
    (hi : tour[i]? = some ri) (hj : tour[j]? = some rj) :
    tourTravel hypot stops start (reverseRange tour i j) = tourTravel hypot stops start tour
      + ((twoOptCosts hypot stops start tour i j ri rj).2
        - (twoOptCosts hypot stops start tour i j ri rj).1) := by
  obtain ⟨mid, htour, hreverse, hfirst, hlast⟩ := exists_split hij hi hj
  have hlt : i < tour.length := (List.getElem?_eq_some_iff.mp hi).1
  have hflip : (mid.reverse.map Routed.flip).map (leg stops)
      = ((mid.map (leg stops)).map Leg.flip).reverse := by
    rw [List.map_map, List.map_map, List.map_reverse]
    congr 1
    exact List.map_congr_left fun r _ => leg_flip r
  have hlegs := congrArg (List.map (leg stops)) htour
  rw [List.map_append, List.map_append] at hlegs
  have hhead : (mid.map (leg stops)).head? = some (leg stops ri) := by
    rw [List.head?_map, hfirst]
    rfl
  have htail : (mid.map (leg stops)).getLast? = some (leg stops rj) := by
    rw [List.getLast?_map, hlast]
    rfl
  rw [tourTravel_eq, tourTravel_eq, hreverse, List.map_append, List.map_append, hflip,
    hops_reverse (distanceTo_comm heven) start _ _ hhead htail, twoOptCosts_eq hlt.le, hlegs]
  rfl

/-! ## A stop in another place -/

omit [LinearOrder K] in
theorem removalGain_eq (h : i ≤ tour.length) :
    removalGain hypot stops start tour i moved
      = distanceTo hypot (leave start ((tour.take i).map (leg stops))) (arrival stops moved)
        + hopOnto (distanceTo hypot) (departure stops moved) ((tour.drop (i + 1)).map (leg stops))
        - hopOnto (distanceTo hypot) (leave start ((tour.take i).map (leg stops)))
          ((tour.drop (i + 1)).map (leg stops)) := by
  unfold removalGain
  rw [hopOnto_drop, hopOnto_drop, feed_eq h]
  cases tour[i + 1]? with
  | some next => rfl
  | none =>
    dsimp only
    rw [add_zero, sub_zero]

omit [LinearOrder K] in
theorem insertCost_eq (h : gap ≤ tour.length) :
    insertCost hypot stops start tour gap moved
      = distanceTo hypot (leave start ((tour.take gap).map (leg stops))) (arrival stops moved)
        + hopOnto (distanceTo hypot) (departure stops moved) ((tour.drop gap).map (leg stops))
        - hopOnto (distanceTo hypot) (leave start ((tour.take gap).map (leg stops)))
          ((tour.drop gap).map (leg stops)) := by
  unfold insertCost
  rw [hopOnto_drop, hopOnto_drop, feed_eq h]
  cases tour[gap]? with
  | some next => rfl
  | none =>
    dsimp only
    rw [add_zero, sub_zero]

/-- A list with an element put in. -/
theorem insertIdx_eq_take_drop {A : Type} {l : List A} {gap : ℕ} (h : gap ≤ l.length) (a : A) :
    l.insertIdx gap a = l.take gap ++ a :: l.drop gap := by
  induction l generalizing gap with
  | nil =>
    obtain rfl : gap = 0 := Nat.le_zero.mp h
    rfl
  | cons b rest ih =>
    cases gap with
    | zero => rfl
    | succ gap =>
      rw [List.insertIdx_succ_cons, ih (Nat.le_of_succ_le_succ h)]
      rfl

omit [LinearOrder K] in
/-- What a stop costs in a gap. -/
theorem tourTravel_insertIdx (h : gap ≤ tour.length) (r : Routed n) :
    tourTravel hypot stops start (tour.insertIdx gap r)
      = tourTravel hypot stops start tour + insertCost hypot stops start tour gap r := by
  have hinsert := insertIdx_eq_take_drop h r
  have hlegs := congrArg (List.map (leg stops)) (List.take_append_drop gap tour)
  rw [List.map_append] at hlegs
  rw [tourTravel_eq, tourTravel_eq, hinsert, List.map_append, List.map_cons, hops_insert, hlegs,
    insertCost_eq h]
  rfl

omit [LinearOrder K] in
/-- What a stop costs where it is. -/
theorem tourTravel_eraseIdx (h : tour[i]? = some moved) :
    tourTravel hypot stops start tour = tourTravel hypot stops start (tour.eraseIdx i)
      + removalGain hypot stops start tour i moved := by
  obtain ⟨hlt, hget⟩ := List.getElem?_eq_some_iff.mp h
  have hsplit : tour = tour.take i ++ moved :: tour.drop (i + 1) := by
    rw [← hget, List.cons_getElem_drop_succ, List.take_append_drop]
  have hlegs := congrArg (List.map (leg stops)) hsplit
  rw [List.map_append, List.map_cons] at hlegs
  rw [tourTravel_eq, tourTravel_eq, List.eraseIdx_eq_take_drop_succ, List.map_append, hlegs,
    hops_insert, removalGain_eq hlt.le]
  rfl

omit [LinearOrder K] in
/-- **Putting a stop in another place changes the travel by what it is said to.** -/
theorem tourTravel_relocate (hi : tour[i]? = some moved) (hgap : gap ≤ (tour.eraseIdx i).length) :
    tourTravel hypot stops start (relocate tour i moved gap reversed)
      = tourTravel hypot stops start tour
        + (insertCost hypot stops start (tour.eraseIdx i) gap ⟨moved.index, reversed⟩
          - removalGain hypot stops start tour i moved) := by
  unfold relocate
  have herase : tourTravel hypot stops start tour
      = tourTravel hypot stops start (tour.eraseIdx i)
        + removalGain hypot stops start tour i moved := tourTravel_eraseIdx hi
  rw [tourTravel_insertIdx hgap, herase]
  ring

/-! ## The moves of a search -/

variable (hypot stops start) in
/-- A move that a sweep accepts, and what it is said to change. -/
inductive Move (tour : List (Routed n)) : List (Routed n) → K → Prop
  /-- A part is turned around. -/
  | turn (i j : ℕ) (ri rj : Routed n) (hij : i < j) (hi : tour[i]? = some ri)
      (hj : tour[j]? = some rj)
      (haccepted : (twoOptCosts hypot stops start tour i j ri rj).2 + improveEps
        < (twoOptCosts hypot stops start tour i j ri rj).1) :
      Move tour (reverseRange tour i j) ((twoOptCosts hypot stops start tour i j ri rj).2
        - (twoOptCosts hypot stops start tour i j ri rj).1)
  /-- A stop is put in another place. -/
  | relocate (i gap : ℕ) (moved : Routed n) (reversed : Bool) (delta : K)
      (hi : tour[i]? = some moved)
      (haccepted : orBest hypot stops start tour i moved = some (gap, reversed, delta)) :
      Move tour (relocate tour i moved gap reversed) delta

variable (hypot stops start) in
/-- Some moves after each other. -/
def Moves : List (Routed n) → List (Routed n) → Prop :=
  Relation.ReflTransGen fun tour tour' => ∃ delta, Move hypot stops start tour tour' delta

variable (hypot stops start) in
/-- A place is a gap of the tour, and saves what it is said to. -/
def Saves (tour : List (Routed n)) (i : ℕ) (moved : Routed n) (best : ℕ × Bool × K) : Prop :=
  best.1 ≤ (tour.eraseIdx i).length
    ∧ best.2.2 = insertCost hypot stops start (tour.eraseIdx i) best.1 ⟨moved.index, best.2.1⟩
      - removalGain hypot stops start tour i moved
    ∧ best.2.2 < -improveEps

theorem saves_orBest {best : ℕ × Bool × K}
    (h : orBest hypot stops start tour i moved = some best) :
    Saves hypot stops start tour i moved best := by
  have hfold : ∀ (places : List (ℕ × Bool)) (best : Option (ℕ × Bool × K)),
      (∀ p ∈ places, p.1 ≤ (tour.eraseIdx i).length) →
      (∀ b, best = some b → Saves hypot stops start tour i moved b) →
      ∀ b, places.foldl (better hypot stops start tour i moved) best = some b →
        Saves hypot stops start tour i moved b := by
    intro places
    induction places with
    | nil => exact fun best _ hbest => hbest
    | cons place rest ih =>
      intro best hplaces hbest
      refine ih _ (fun p hp => hplaces p (List.mem_cons_of_mem _ hp)) fun b hb => ?_
      unfold better at hb
      dsimp only at hb
      split at hb
      · rename_i haccepted
        obtain rfl := Option.some.inj hb
        rw [Bool.and_eq_true, decide_eq_true_eq] at haccepted
        exact ⟨hplaces place List.mem_cons_self, rfl, haccepted.1⟩
      · exact hbest b hb
  refine hfold _ none (fun p hp => ?_) (fun b hb => by cases hb) _ h
  obtain ⟨k, hk, hp⟩ := List.mem_flatMap.mp hp
  have hle := Nat.le_of_lt_succ (List.mem_range.mp hk)
  rcases List.mem_cons.mp hp with rfl | hp
  · exact hle
  · obtain rfl := List.mem_singleton.mp hp
    exact hle

omit [Field K] [LinearOrder K] in
theorem perm_reverseRange (hij : i ≤ j) (hi : tour[i]? = some ri) (hj : tour[j]? = some rj) :
    ((reverseRange tour i j).map Routed.index).Perm (tour.map Routed.index) := by
  obtain ⟨mid, htour, hreverse, -, -⟩ := exists_split hij hi hj
  have hindex : (mid.reverse.map Routed.flip).map Routed.index = (mid.map Routed.index).reverse := by
    rw [List.map_map, List.map_reverse]
    rfl
  rw [hreverse, List.map_append, List.map_append, hindex]
  conv_rhs => rw [htour]
  rw [List.map_append, List.map_append]
  exact ((List.reverse_perm _).append_right _).append_left _

theorem perm_relocate (hi : tour[i]? = some moved) (hgap : gap ≤ (tour.eraseIdx i).length) :
    ((relocate tour i moved gap reversed).map Routed.index).Perm (tour.map Routed.index) := by
  obtain ⟨hlt, rfl⟩ := List.getElem?_eq_some_iff.mp hi
  have hput := (List.perm_insertIdx (⟨tour[i].index, reversed⟩ : Routed n) _ hgap).map Routed.index
  have hlift := (List.getElem_cons_eraseIdx_perm hlt).map Routed.index
  exact hput.trans hlift

/-- **A move changes the travel by what it is said to**, saves something, and keeps the stops. -/
theorem Move.spec [IsStrictOrderedRing K] (heven : ∀ x y, hypot (-x) (-y) = hypot x y)
    {tour' : List (Routed n)} {delta : K} (h : Move hypot stops start tour tour' delta) :
    tourTravel hypot stops start tour' = tourTravel hypot stops start tour + delta
      ∧ delta < -improveEps ∧ (tour'.map Routed.index).Perm (tour.map Routed.index) := by
  cases h with
  | turn i j ri rj hij hi hj haccepted =>
    exact ⟨tourTravel_reverseRange heven hij.le hi hj, by linarith,
      perm_reverseRange hij.le hi hj⟩
  | relocate i gap moved reversed delta hi haccepted =>
    obtain ⟨hgap, hdelta, hlt⟩ := saves_orBest haccepted
    dsimp only at hgap hdelta hlt
    subst hdelta
    exact ⟨tourTravel_relocate hi hgap, hlt, perm_relocate hi hgap⟩

theorem improveEps_pos [IsStrictOrderedRing K] : (0 : K) < improveEps :=
  div_pos one_pos (Nat.cast_pos.mpr (by decide))

/-- Moves never make a tour longer, and keep the stops. -/
theorem Moves.spec [IsStrictOrderedRing K] (heven : ∀ x y, hypot (-x) (-y) = hypot x y)
    {tour' : List (Routed n)} (h : Moves hypot stops start tour tour') :
    tourTravel hypot stops start tour' ≤ tourTravel hypot stops start tour
      ∧ (tour'.map Routed.index).Perm (tour.map Routed.index) := by
  induction h with
  | refl => exact ⟨le_rfl, .refl _⟩
  | tail _ hmove ih =>
    obtain ⟨delta, hmove⟩ := hmove
    obtain ⟨htravel, hdelta, hperm⟩ := hmove.spec heven
    have hpos : (0 : K) < improveEps := improveEps_pos
    exact ⟨by linarith [ih.1], hperm.trans ih.2⟩

/-! ## Sweeps and rounds -/

theorem mem_ranges {length : ℕ} {range : ℕ × ℕ} (h : range ∈ ranges length) :
    range.1 < range.2 := by
  obtain ⟨i, -, hrange⟩ := List.mem_flatMap.mp h
  obtain ⟨j, hj, rfl⟩ := List.mem_map.mp hrange
  have hle := (List.mem_range'_1.mp hj).1
  exact Nat.lt_of_succ_le hle

theorem moves_twoOptTry (state : List (Routed n) × Bool) {range : ℕ × ℕ}
    (h : range.1 < range.2) :
    Moves hypot stops start state.1 (twoOptTry hypot stops start state range).1 := by
  unfold twoOptTry
  split
  · rename_i ri rj hi hj
    dsimp only
    split
    · rename_i haccepted
      exact .single ⟨_, .turn range.1 range.2 ri rj h hi hj haccepted⟩
    · exact .refl
  · exact .refl

theorem moves_orTry (state : List (Routed n) × Bool) (i : ℕ) :
    Moves hypot stops start state.1 (orTry hypot stops start state i).1 := by
  unfold orTry
  split
  · exact .refl
  · rename_i moved hi
    split
    · exact .refl
    · rename_i gap reversed delta haccepted
      exact .single ⟨_, .relocate i gap moved reversed delta hi haccepted⟩

theorem moves_twoOptSweep (tour : List (Routed n)) :
    Moves hypot stops start tour (twoOptSweep hypot stops start tour).1 := by
  have hfold : ∀ (todo : List (ℕ × ℕ)) (state : List (Routed n) × Bool),
      (∀ range ∈ todo, range.1 < range.2) →
      Moves hypot stops start state.1 (todo.foldl (twoOptTry hypot stops start) state).1 := by
    intro todo
    induction todo with
    | nil => exact fun _ _ => .refl
    | cons range rest ih =>
      intro state htodo
      exact (moves_twoOptTry state (htodo range List.mem_cons_self)).trans
        (ih _ fun other hother => htodo other (List.mem_cons_of_mem _ hother))
  exact hfold (ranges tour.length) (tour, false) fun _ => mem_ranges

theorem moves_orOptSweep (tour : List (Routed n)) :
    Moves hypot stops start tour (orOptSweep hypot stops start tour).1 := by
  have hfold : ∀ (todo : List ℕ) (state : List (Routed n) × Bool),
      Moves hypot stops start state.1 (todo.foldl (orTry hypot stops start) state).1 := by
    intro todo
    induction todo with
    | nil => exact fun _ => .refl
    | cons i rest ih => exact fun state => (moves_orTry state i).trans (ih _)
  exact hfold (List.range tour.length) (tour, false)

/-- **Every round makes accepted moves only.** -/
theorem moves_improve (rounds : ℕ) (tour : List (Routed n)) :
    Moves hypot stops start tour (improve hypot stops start rounds tour) := by
  induction rounds generalizing tour with
  | zero => exact .refl
  | succ rounds ih =>
    have hturned : Moves hypot stops start tour (twoOptSweep hypot stops start tour).1 :=
      moves_twoOptSweep tour
    have hround := hturned.trans (moves_orOptSweep _)
    unfold improve
    dsimp only
    split
    · exact hround.trans (ih _)
    · exact hround

/-! ## The seed -/

/-- The stops that are not used yet. -/
def unused (used : Fin n → Bool) : List (Fin n) := (List.finRange n).filter fun i => !used i

theorem mem_unused {used : Fin n → Bool} {i : Fin n} : i ∈ unused used ↔ used i = false := by
  simp [unused]

omit [Field K] in
/-- The nearest stop is one that is not used yet, if there is one. -/
theorem nearest_spec [Field K] (used : Fin n → Bool) (cursor : Point K) :
    (∀ b, nearest hypot stops used cursor = some b → used b.1 = false)
      ∧ (nearest hypot stops used cursor = none → unused used = []) := by
  have hfold : ∀ (todo : List (Fin n)) (best : Option (Fin n × Bool × K)),
      (∀ b, best = some b → used b.1 = false) →
      (∀ b, todo.foldl (nearer hypot stops used cursor) best = some b → used b.1 = false)
        ∧ (todo.foldl (nearer hypot stops used cursor) best = none →
          best = none ∧ todo.filter (fun i => !used i) = []) := by
    intro todo
    induction todo with
    | nil => exact fun best hbest => ⟨hbest, fun hnone => ⟨hnone, rfl⟩⟩
    | cons i rest ih =>
      intro best hbest
      rw [List.foldl_cons]
      by_cases hused : used i = true
      · have hskip : nearer hypot stops used cursor best i = best := if_pos hused
        rw [hskip, List.filter_cons_of_neg (by simp [hused])]
        exact ih best hbest
      · have hfree : used i = false := Bool.eq_false_iff.mpr hused
        have htaken : ∃ b, nearer hypot stops used cursor best i = some b ∧ used b.1 = false := by
          unfold nearer
          rw [if_neg hused]
          cases best with
          | none => exact ⟨(i, _), rfl, hfree⟩
          | some b =>
            have hchoice : ∀ choice : Bool × K, ∃ b',
                (if choice.2 < b.2.2 then some (i, choice) else some b) = some b'
                  ∧ used b'.1 = false := by
              intro choice
              by_cases hlt : choice.2 < b.2.2
              · exact ⟨(i, choice), if_pos hlt, hfree⟩
              · exact ⟨b, if_neg hlt, hbest b rfl⟩
            exact hchoice _
        obtain ⟨b, hb, hbfree⟩ := htaken
        rw [hb]
        obtain ⟨hsome, hnone⟩ := ih (some b) fun b' hb' => Option.some.inj hb' ▸ hbfree
        exact ⟨hsome, fun h => by cases (hnone h).1⟩
  obtain ⟨hsome, hnone⟩ := hfold (List.finRange n) none fun b hb => by cases hb
  exact ⟨hsome, fun h => (hnone h).2⟩

theorem unused_update (used : Fin n → Bool) (i : Fin n) :
    unused (Function.update used i true) = (unused used).erase i := by
  have hnodup : (unused used).Nodup := (List.nodup_finRange n).filter _
  rw [hnodup.erase_eq_filter]
  unfold unused
  rw [List.filter_filter]
  refine List.filter_congr fun k _ => ?_
  by_cases heq : k = i
  · subst heq
    simp
  · simp [heq]

/-- **Every stop that is not used yet is visited once.** -/
theorem perm_visit (k : ℕ) (used : Fin n → Bool) (cursor : Point K)
    (h : (unused used).length = k) :
    ((visit hypot stops k used cursor).map Routed.index).Perm (unused used) := by
  induction k generalizing used cursor with
  | zero =>
    rw [List.length_eq_zero_iff.mp h]
    exact .refl _
  | succ k ih =>
    obtain ⟨hsome, hnone⟩ : (∀ b, nearest hypot stops used cursor = some b → used b.1 = false)
        ∧ (nearest hypot stops used cursor = none → unused used = []) :=
      nearest_spec used cursor
    unfold visit
    split
    · rename_i hnearest
      rw [hnone hnearest] at h
      cases h
    · rename_i i reversed least hnearest
      have hmem : i ∈ unused used := mem_unused.mpr (hsome _ hnearest)
      have hlength : (unused (Function.update used i true)).length = k := by
        rw [unused_update, List.length_erase_of_mem hmem, h]
        rfl
      have hrest := ih (Function.update used i true) ((stops i).departure reversed) hlength
      rw [unused_update] at hrest
      exact (hrest.cons i).trans (List.perm_cons_erase hmem).symm

theorem perm_nearestNeighbor :
    ((nearestNeighbor hypot stops start).map Routed.index).Perm (List.finRange n) := by
  have hall : unused (fun _ : Fin n => false) = List.finRange n :=
    List.filter_eq_self.mpr fun _ _ => rfl
  have hvisit : ((visit hypot stops n (fun _ => false) start).map Routed.index).Perm
      (unused fun _ : Fin n => false) :=
    perm_visit n (fun _ => false) start (by rw [hall, List.length_finRange])
  rwa [hall] at hvisit

/-- **The improved tour** visits every stop once, and is no longer than the seed. -/
theorem twoOpt_spec [IsStrictOrderedRing K] (heven : ∀ x y, hypot (-x) (-y) = hypot x y)
    (maxRounds : ℕ) :
    ((twoOpt hypot stops start maxRounds).map Routed.index).Perm (List.finRange n)
      ∧ tourTravel hypot stops start (twoOpt hypot stops start maxRounds)
        ≤ tourTravel hypot stops start (nearestNeighbor hypot stops start) := by
  have hmoves : Moves hypot stops start (nearestNeighbor hypot stops start)
      (twoOpt hypot stops start maxRounds) := moves_improve maxRounds _
  obtain ⟨hle, hperm⟩ := hmoves.spec heven
  exact ⟨hperm.trans perm_nearestNeighbor, hle⟩

end Legs

end Galdr.Eitri.Travel
