import Mathlib

/-!
# Tours of directed legs

A leg is arrived at in one place and left from another. The length of a tour of legs is that of
the hops to each leg from the one before; how long the legs are does not count. If the way back is
as long as the way there, turning a part of a tour around changes the two hops at its ends only
(`hops_reverse`), and so does lifting a leg out or putting one in (`hops_insert`).
-/

namespace Galdr.Tours

variable {P K : Type*}

/-- A leg of a tour. -/
structure Leg (P : Type*) where
  /-- Where it is arrived at. -/
  arrival : P
  /-- Where it is left from. -/
  departure : P

/-- The same leg the other way around. -/
def Leg.flip (leg : Leg P) : Leg P := ⟨leg.departure, leg.arrival⟩

section Hops

variable [AddCommGroup K] (d : P → P → K)

/-- The hops to each leg from the one before. -/
def hops (start : P) : List (Leg P) → K
  | [] => 0
  | leg :: rest => d start leg.arrival + hops leg.departure rest

/-- Where a tour ends. -/
def leave (start : P) : List (Leg P) → P
  | [] => start
  | leg :: rest => leave leg.departure rest

/-- The hop to the first leg, if there is one. -/
def hopOnto (start : P) : List (Leg P) → K
  | [] => 0
  | leg :: _ => d start leg.arrival

/-- The hops within a tour, without the one to the first leg. -/
def inner : List (Leg P) → K
  | [] => 0
  | leg :: rest => hops d leg.departure rest

variable {d} {start : P} {before legs after : List (Leg P)} {leg first last : Leg P}

theorem hops_eq (start : P) (legs : List (Leg P)) :
    hops d start legs = hopOnto d start legs + inner d legs := by
  cases legs with
  | nil => exact (add_zero 0).symm
  | cons leg rest => rfl

theorem hops_append :
    hops d start (before ++ after) = hops d start before + hops d (leave start before) after := by
  induction before generalizing start with
  | nil => exact (zero_add _).symm
  | cons leg rest ih =>
    show d start leg.arrival + hops d leg.departure (rest ++ after) = _
    rw [ih, ← add_assoc]
    rfl

theorem leave_append : leave start (before ++ after) = leave (leave start before) after := by
  induction before generalizing start with
  | nil => rfl
  | cons leg rest ih => exact ih

theorem leave_eq (start : P) (h : legs.getLast? = some last) :
    leave start legs = last.departure := by
  obtain ⟨before, rfl⟩ := List.getLast?_eq_some_iff.mp h
  rw [leave_append]
  rfl

theorem hopOnto_eq (h : legs.head? = some first) :
    hopOnto d start legs = d start first.arrival := by
  cases legs with
  | nil => cases h
  | cons leg rest =>
    obtain rfl := Option.some.inj h
    rfl

/-- Behind a leg the hops go on. -/
theorem inner_concat (h : legs.getLast? = some last) :
    inner d (legs ++ [leg]) = inner d legs + d last.departure leg.arrival := by
  cases legs with
  | nil => cases h
  | cons first rest =>
    show hops d first.departure (rest ++ [leg]) = _
    have hleave : leave first.departure rest = last.departure := leave_eq first.arrival h
    rw [hops_append, hleave]
    show _ + (d last.departure leg.arrival + 0) = _
    rw [add_zero]
    rfl

/-- **Turned around, a tour has the same hops within it.** -/
theorem inner_reverse (hd : ∀ a b, d a b = d b a) :
    inner d (legs.map Leg.flip).reverse = inner d legs := by
  induction legs with
  | nil => rfl
  | cons leg rest ih =>
    rw [List.map_cons, List.reverse_cons]
    cases rest with
    | nil => rfl
    | cons next rest =>
      have hlast : (((next :: rest).map Leg.flip).reverse).getLast? = some next.flip := by simp
      rw [inner_concat hlast, ih]
      show hops d next.departure rest + d next.arrival leg.departure
        = d leg.departure next.arrival + hops d next.departure rest
      rw [hd, add_comm]

/-- **A part of a tour is turned around**: the two hops at its ends change, and no other. -/
theorem hops_reverse (hd : ∀ a b, d a b = d b a) (start : P) (before after : List (Leg P))
    (hfirst : legs.head? = some first) (hlast : legs.getLast? = some last) :
    hops d start (before ++ ((legs.map Leg.flip).reverse ++ after))
      = hops d start (before ++ (legs ++ after))
        + ((d (leave start before) last.departure + hopOnto d first.arrival after)
          - (d (leave start before) first.arrival + hopOnto d last.departure after)) := by
  have hhead : ((legs.map Leg.flip).reverse).head? = some last.flip := by simp [hlast]
  have htail : ((legs.map Leg.flip).reverse).getLast? = some first.flip := by simp [hfirst]
  rw [hops_append, hops_append, hops_append, hops_append, leave_eq _ hlast, leave_eq _ htail,
    hops_eq _ legs, hops_eq _ (legs.map Leg.flip).reverse, hops_eq _ after,
    hops_eq last.departure after, inner_reverse hd, hopOnto_eq hfirst, hopOnto_eq hhead]
  show _ + (d _ last.departure + _ + (hopOnto d first.arrival after + _)) = _
  abel

/-- **A leg is put in**: the hop over it is replaced by the two hops to it and from it. -/
theorem hops_insert (start : P) (before after : List (Leg P)) (leg : Leg P) :
    hops d start (before ++ leg :: after) = hops d start (before ++ after)
      + (d (leave start before) leg.arrival + hopOnto d leg.departure after
        - hopOnto d (leave start before) after) := by
  rw [hops_append, hops_append]
  show _ + (d _ leg.arrival + hops d leg.departure after) = _
  rw [hops_eq _ after, hops_eq (leave start before) after]
  abel

end Hops

end Galdr.Tours
