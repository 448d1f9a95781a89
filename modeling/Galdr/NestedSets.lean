import Galdr.Painting

/-!
# Families of nested sets

In a family of sets of which any two lie one in the other or apart, the sets around a point are a
chain, and the level of a set is the number of those around it. The sets at even levels are the
outer ones, and a set at an odd level has one owner: the innermost outer set around it, which is
one level above (`owner_iff`). The outer sets, each without those it owns, cover the points that
an odd number of sets is around (`mem_outer_iff`).

Where the level of a set is read off one point in it, the sets within it and around the point are
counted too. The levels so read say which sets are outer ones and what these own exactly if no
set is probed in a set within it (`told_iff`).
-/

namespace Galdr.Painting

variable {X ι : Type*}

/-- Of any two sets of a family, one lies in the other, or they lie apart. -/
structure Nested (F : Finset ι) (s : ι → Set X) : Prop where
  nonempty : ∀ k ∈ F, (s k).Nonempty
  apart : ∀ k ∈ F, ∀ m ∈ F, k ≠ m → s k ⊂ s m ∨ s m ⊂ s k ∨ Disjoint (s k) (s m)

open Classical in
/-- The sets around a point. -/
noncomputable def setsAround (F : Finset ι) (s : ι → Set X) (x : X) : Finset ι :=
  F.filter fun k => x ∈ s k

open Classical in
/-- The number of sets around a set. -/
noncomputable def level (F : Finset ι) (s : ι → Set X) (k : ι) : ℕ := (above s F k).card

/-- A set at an even level. -/
def IsOuter (F : Finset ι) (s : ι → Set X) (k : ι) : Prop := level F s k % 2 = 0

/-- The innermost outer set around a set. -/
structure Owner (F : Finset ι) (s : ι → Set X) (h o : ι) : Prop where
  mem : o ∈ F
  outer : IsOuter F s o
  around : s h ⊂ s o
  innermost : ∀ m ∈ F, IsOuter F s m → s h ⊂ s m → s o ⊆ s m

namespace Nested

variable {F : Finset ι} {s : ι → Set X} {k m h o : ι} {x : X} {n : ℕ}

theorem mem_setsAround : k ∈ setsAround F s x ↔ k ∈ F ∧ x ∈ s k := by
  simp [setsAround]

/-- The sets around a point are a chain. -/
theorem comparable (hF : Nested F s) (hk : k ∈ setsAround F s x) (hm : m ∈ setsAround F s x)
    (hne : k ≠ m) : s k ⊂ s m ∨ s m ⊂ s k := by
  obtain ⟨hk, hxk⟩ := mem_setsAround.mp hk
  obtain ⟨hm, hxm⟩ := mem_setsAround.mp hm
  rcases hF.apart k hk m hm hne with h | h | hdisjoint
  · exact .inl h
  · exact .inr h
  · exact absurd hxm (Set.disjoint_left.mp hdisjoint hxk)

open Classical in
/-- The level of a set around a point is its level among those around the point. -/
theorem level_eq (hk : k ∈ setsAround F s x) :
    level F s k = (above s (setsAround F s x) k).card := by
  have hxk := (mem_setsAround.mp hk).2
  unfold level above setsAround
  rw [Finset.filter_filter]
  congr 1
  refine Finset.filter_congr fun m _ => ⟨fun hlt => ⟨hlt.1 hxk, hlt⟩, fun hlt => hlt.2⟩

theorem level_lt_card (hk : k ∈ setsAround F s x) : level F s k < (setsAround F s x).card := by
  classical
  rw [level_eq hk]
  exact card_above_lt k hk

/-- **Each level is there**, up to the number of the sets around a point. -/
theorem exists_level (hF : Nested F s) (hn : n < (setsAround F s x).card) :
    ∃ k ∈ setsAround F s x, level F s k = n := by
  classical
  have hchain : ∀ k ∈ setsAround F s x, ∀ m ∈ setsAround F s x, k ≠ m → s k ⊂ s m ∨ s m ⊂ s k :=
    fun k hk m hm hne => hF.comparable hk hm hne
  have himage := image_above_eq_range hchain
  obtain ⟨k, hk, hlevel⟩ := Finset.mem_image.mp (himage ▸ Finset.mem_range.mpr hn)
  exact ⟨k, hk, (level_eq hk).trans hlevel⟩

theorem level_lt_of_ssubset (hm : m ∈ F) (hlt : s k ⊂ s m) : level F s m < level F s k := by
  classical
  exact card_above_lt_of_ssubset hm hlt

/-- Of two sets around a point, the one at the higher level lies in the other. -/
theorem ssubset_of_level_lt (hF : Nested F s) (hk : k ∈ setsAround F s x)
    (hm : m ∈ setsAround F s x) (hlt : level F s k < level F s m) : s m ⊂ s k := by
  have hne : k ≠ m := fun heq => absurd hlt (heq ▸ lt_irrefl _)
  rcases hF.comparable hk hm hne with h | h
  · exact absurd (level_lt_of_ssubset (mem_setsAround.mp hm).1 h) (by omega)
  · exact h

/-- **The owner of a set at an odd level** is the outer set one level above. -/
theorem owner_iff (hF : Nested F s) (hh : h ∈ F) (hodd : ¬IsOuter F s h) :
    Owner F s h o ↔ o ∈ F ∧ s h ⊂ s o ∧ level F s h = level F s o + 1 := by
  obtain ⟨x, hx⟩ := hF.nonempty h hh
  have hmem : h ∈ setsAround F s x := mem_setsAround.mpr ⟨hh, hx⟩
  unfold IsOuter at hodd
  constructor
  · intro howner
    refine ⟨howner.mem, howner.around, ?_⟩
    obtain ⟨m, hm, hlevel⟩ := hF.exists_level (n := level F s h - 1)
      ((Nat.sub_le _ _).trans_lt (level_lt_card hmem))
    have ho : o ∈ setsAround F s x := mem_setsAround.mpr ⟨howner.mem, howner.around.1 hx⟩
    have hlt : s h ⊂ s m := hF.ssubset_of_level_lt hm hmem (by omega)
    -- the set one level above is an outer one, so the owner lies in it
    have hsub := howner.innermost m (mem_setsAround.mp hm).1
      (by unfold IsOuter; omega) hlt
    have habove := level_lt_of_ssubset howner.mem howner.around
    by_contra hne
    have hin := hF.ssubset_of_level_lt ho hm (by omega)
    exact hin.2 hsub
  · rintro ⟨ho, hlt, hlevel⟩
    refine ⟨ho, by unfold IsOuter; omega, hlt, fun m hm houter hltm => ?_⟩
    by_cases heq : o = m
    · rw [heq]
    have hox : o ∈ setsAround F s x := mem_setsAround.mpr ⟨ho, hlt.1 hx⟩
    have hmx : m ∈ setsAround F s x := mem_setsAround.mpr ⟨hm, hltm.1 hx⟩
    rcases hF.comparable hox hmx heq with hin | hin
    · exact hin.1
    · have hbelow := level_lt_of_ssubset ho hin
      have habove := level_lt_of_ssubset hm hltm
      omega

/-- Every set at an odd level has an owner. -/
theorem exists_owner (hF : Nested F s) (hh : h ∈ F) (hodd : ¬IsOuter F s h) :
    ∃ o, Owner F s h o := by
  obtain ⟨x, hx⟩ := hF.nonempty h hh
  have hmem : h ∈ setsAround F s x := mem_setsAround.mpr ⟨hh, hx⟩
  obtain ⟨o, ho, hlevel⟩ := hF.exists_level (n := level F s h - 1)
    ((Nat.sub_le _ _).trans_lt (level_lt_card hmem))
  unfold IsOuter at hodd
  refine ⟨o, (hF.owner_iff hh hodd).mpr ⟨(mem_setsAround.mp ho).1, ?_, by omega⟩⟩
  exact hF.ssubset_of_level_lt ho hmem (by omega)

/-- **The outer sets, without those they own**, cover the points that an odd number of sets is
around. -/
theorem mem_outer_iff (hF : Nested F s) :
    (∃ o ∈ F, IsOuter F s o ∧ x ∈ s o ∧ ∀ h ∈ F, ¬IsOuter F s h → Owner F s h o → x ∉ s h)
      ↔ (setsAround F s x).card % 2 = 1 := by
  classical
  have hchain : ∀ k ∈ setsAround F s x, ∀ m ∈ setsAround F s x, k ≠ m → s k ⊂ s m ∨ s m ⊂ s k :=
    fun k hk m hm hne => hF.comparable hk hm hne
  have hinnermost := exists_innermost_iff hchain
  rw [← hinnermost]
  constructor
  · rintro ⟨o, ho, houter, hx, howned⟩
    have hox : o ∈ setsAround F s x := mem_setsAround.mpr ⟨ho, hx⟩
    refine ⟨o, hox, by rw [← level_eq hox]; exact houter, fun m hm hlevel => ?_⟩
    rw [← level_eq hox, ← level_eq hm] at hlevel
    obtain ⟨hmF, hxm⟩ := mem_setsAround.mp hm
    unfold IsOuter at houter
    have hodd : ¬IsOuter F s m := by unfold IsOuter; omega
    refine howned m hmF hodd ((hF.owner_iff hmF hodd).mpr ⟨ho, ?_, hlevel⟩) hxm
    exact hF.ssubset_of_level_lt hox hm (by omega)
  · rintro ⟨o, hox, heven, hlast⟩
    obtain ⟨ho, hx⟩ := mem_setsAround.mp hox
    refine ⟨o, ho, by unfold IsOuter; rw [level_eq hox]; exact heven, hx,
      fun h hh hodd howner hxh => ?_⟩
    have hhx : h ∈ setsAround F s x := mem_setsAround.mpr ⟨hh, hxh⟩
    refine hlast h hhx ?_
    rw [← level_eq hox, ← level_eq hhx]
    exact ((hF.owner_iff hh hodd).mp howner).2.2

/-! ## Levels read off points -/

section Probes

variable {q : ι → X}

/-- The number of other sets around the point that a set is probed with. -/
noncomputable def probedLevel (F : Finset ι) (s : ι → Set X) (q : ι → X) (k : ι) : ℕ :=
  (setsAround F s (q k)).card - 1

/-- The probed levels say which sets are outer ones, and which of the others they own. -/
structure Told (F : Finset ι) (s : ι → Set X) (q : ι → X) : Prop where
  outer : ∀ k ∈ F, IsOuter F s k ↔ probedLevel F s q k % 2 = 0
  owned : ∀ o ∈ F, IsOuter F s o → ∀ m ∈ F,
    (probedLevel F s q m = probedLevel F s q o + 1 ∧ q m ∈ s o)
      ↔ ¬IsOuter F s m ∧ Owner F s m o

theorem mem_setsAround_probe (hq : ∀ k ∈ F, q k ∈ s k) (hk : k ∈ F) :
    k ∈ setsAround F s (q k) := mem_setsAround.mpr ⟨hk, hq k hk⟩

theorem card_setsAround_probe (hq : ∀ k ∈ F, q k ∈ s k) (hk : k ∈ F) :
    (setsAround F s (q k)).card = probedLevel F s q k + 1 := by
  have hpos := Finset.card_pos.mpr ⟨k, mem_setsAround_probe hq hk⟩
  unfold probedLevel
  omega

/-- Whatever lies around a set lies around its probe. -/
theorem level_le_probedLevel (hq : ∀ k ∈ F, q k ∈ s k) (hk : k ∈ F) :
    level F s k ≤ probedLevel F s q k := by
  have hlt := level_lt_card (mem_setsAround_probe hq hk)
  rw [card_setsAround_probe hq hk] at hlt
  omega

/-- **The level of a set is told by its probe** if it lies in no set within the set. -/
theorem probedLevel_eq (hF : Nested F s) (hq : ∀ k ∈ F, q k ∈ s k) (hk : k ∈ F)
    (hprobed : ∀ m ∈ F, s m ⊂ s k → q k ∉ s m) : probedLevel F s q k = level F s k := by
  refine le_antisymm ?_ (level_le_probedLevel hq hk)
  by_contra hlt
  have hkq := mem_setsAround_probe hq hk
  -- the set one level below, around the probe, lies in the set
  obtain ⟨m, hm, hlevel⟩ := hF.exists_level (x := q k) (n := level F s k + 1)
    (by rw [card_setsAround_probe hq hk]; omega)
  have hsub := hF.ssubset_of_level_lt hkq hm (by omega)
  exact hprobed m (mem_setsAround.mp hm).1 hsub (mem_setsAround.mp hm).2

theorem Told.probedLevel_owned (h : Told F s q) (ho : o ∈ F) (houter : IsOuter F s o)
    (hm : m ∈ F) (hodd : ¬IsOuter F s m) (howner : Owner F s m o) :
    probedLevel F s q m = probedLevel F s q o + 1 :=
  ((h.owned o ho houter m hm).mpr ⟨hodd, howner⟩).1

/-- Levels that are told are the levels of the outer sets. -/
theorem Told.probedLevel_outer (h : Told F s q) (hF : Nested F s) (hq : ∀ k ∈ F, q k ∈ s k)
    (hk : k ∈ F) (houter : IsOuter F s k) : probedLevel F s q k = level F s k := by
  classical
  by_contra hne
  -- of the outer sets whose level is not told, one at the highest level
  obtain ⟨k, hmem, hmax⟩ := Finset.exists_max_image
    (F.filter fun k => IsOuter F s k ∧ probedLevel F s q k ≠ level F s k) (level F s)
    ⟨k, Finset.mem_filter.mpr ⟨hk, houter, hne⟩⟩
  obtain ⟨hk, houter, hne⟩ := Finset.mem_filter.mp hmem
  have heven := (h.outer k hk).mp houter
  have hlt := lt_of_le_of_ne (level_le_probedLevel hq hk) hne.symm
  have hkq := mem_setsAround_probe hq hk
  unfold IsOuter at houter
  -- the set one level below around its probe is one that it owns
  obtain ⟨m, hm, hlevel⟩ := hF.exists_level (x := q k) (n := level F s k + 1)
    (by rw [card_setsAround_probe hq hk]; omega)
  have hmF := (mem_setsAround.mp hm).1
  have hmk : s m ⊂ s k := hF.ssubset_of_level_lt hkq hm (by omega)
  have hmodd : ¬IsOuter F s m := by unfold IsOuter; omega
  have hmprobed := h.probedLevel_owned hk houter hmF hmodd
    ((hF.owner_iff hmF hmodd).mpr ⟨hk, hmk, hlevel⟩)
  have hmq := mem_setsAround_probe hq hmF
  have hcard := card_setsAround_probe hq hmF
  -- and the set at the level that the probes tell is not
  obtain ⟨z, hz, hzlevel⟩ := hF.exists_level (x := q m) (n := probedLevel F s q k + 1)
    (by rw [hcard]; omega)
  have hzF := (mem_setsAround.mp hz).1
  have hzm : s z ⊂ s m := hF.ssubset_of_level_lt hmq hz (by omega)
  have hzodd : ¬IsOuter F s z := by unfold IsOuter; omega
  obtain ⟨y, hy⟩ := hF.exists_owner hzF hzodd
  have hylevel := ((hF.owner_iff hzF hzodd).mp hy).2.2
  have hytold : probedLevel F s q y = level F s y := by
    by_contra hyne
    have hle := hmax y (Finset.mem_filter.mpr ⟨hy.mem, hy.outer, hyne⟩)
    omega
  have hzprobed := h.probedLevel_owned hy.mem hy.outer hzF hzodd hy
  have hzowner := ((h.owned k hk houter z hzF).mp ⟨by omega, hmk.1 (hzm.1 (hq z hzF))⟩).2
  have hzk := ((hF.owner_iff hzF hzodd).mp hzowner).2.2
  omega

/-- **The levels are told exactly if no set is probed in a set within it.** -/
theorem told_iff (hF : Nested F s) (hq : ∀ k ∈ F, q k ∈ s k) :
    Told F s q ↔ ∀ k ∈ F, ∀ m ∈ F, s m ⊂ s k → q k ∉ s m := by
  constructor
  · intro h k hk m hm hlt hprobe
    have htold : probedLevel F s q k = level F s k := by
      by_cases houter : IsOuter F s k
      · exact h.probedLevel_outer hF hq hk houter
      · obtain ⟨o, ho⟩ := hF.exists_owner hk houter
        rw [h.probedLevel_owned ho.mem ho.outer hk houter ho,
          h.probedLevel_outer hF hq ho.mem ho.outer, ((hF.owner_iff hk houter).mp ho).2.2]
    have hbelow := level_lt_card (mem_setsAround.mpr ⟨hm, hprobe⟩)
    rw [card_setsAround_probe hq hk] at hbelow
    have hlevels := level_lt_of_ssubset hk hlt
    omega
  · intro h
    have htold : ∀ k ∈ F, probedLevel F s q k = level F s k := fun k hk =>
      hF.probedLevel_eq hq hk (h k hk)
    refine ⟨fun k hk => by rw [htold k hk]; rfl, fun o ho houter m hm => ?_⟩
    rw [htold m hm, htold o ho]
    unfold IsOuter at houter
    constructor
    · rintro ⟨hlevel, hmo⟩
      have hmodd : ¬IsOuter F s m := by unfold IsOuter; omega
      refine ⟨hmodd, (hF.owner_iff hm hmodd).mpr ⟨ho, ?_, hlevel⟩⟩
      exact hF.ssubset_of_level_lt (mem_setsAround.mpr ⟨ho, hmo⟩)
        (mem_setsAround_probe hq hm) (by omega)
    · rintro ⟨hmodd, howner⟩
      obtain ⟨-, hlt, hlevel⟩ := (hF.owner_iff hm hmodd).mp howner
      exact ⟨hlevel, hlt.1 (hq m hm)⟩

end Probes

/-! ## Sets listed from the outside in -/

section Chain

variable [DecidableEq ι] {l : List ι} {i : ℕ}

omit [DecidableEq ι] in
theorem nodup_of_pairwise (h : l.Pairwise fun a b => s b ⊂ s a) : l.Nodup :=
  h.imp fun hlt heq => absurd (heq ▸ hlt) (ssubset_irrefl _)

theorem of_pairwise (h : l.Pairwise fun a b => s b ⊂ s a) (hne : ∀ k ∈ l, (s k).Nonempty) :
    Nested l.toFinset s where
  nonempty k hk := hne k (List.mem_toFinset.mp hk)
  apart k hk m hm hkm := by
    obtain ⟨i, hi, rfl⟩ := List.mem_iff_getElem.mp (List.mem_toFinset.mp hk)
    obtain ⟨j, hj, rfl⟩ := List.mem_iff_getElem.mp (List.mem_toFinset.mp hm)
    rcases lt_trichotomy i j with hij | rfl | hij
    · exact .inr (.inl (List.pairwise_iff_getElem.mp h i j hi hj hij))
    · exact absurd rfl hkm
    · exact .inl (List.pairwise_iff_getElem.mp h j i hj hi hij)

/-- The level of a set is its place. -/
theorem level_getElem (h : l.Pairwise fun a b => s b ⊂ s a) (hi : i < l.length) :
    level l.toFinset s l[i] = i := by
  have habove : ∀ m, m ∈ l ∧ s l[i] ⊂ s m ↔ m ∈ l.take i := by
    intro m
    rw [List.mem_take_iff_getElem]
    constructor
    · rintro ⟨hm, hlt⟩
      obtain ⟨j, hj, rfl⟩ := List.mem_iff_getElem.mp hm
      refine ⟨j, lt_min ?_ hj, rfl⟩
      by_contra hle
      rcases (not_lt.mp hle).eq_or_lt with rfl | hij
      · exact ssubset_irrefl _ hlt
      · exact absurd (hlt.trans (List.pairwise_iff_getElem.mp h i j hi hj hij)) (ssubset_irrefl _)
    · rintro ⟨j, hj, rfl⟩
      have hjl := hj.trans_le (min_le_right i l.length)
      exact ⟨List.getElem_mem hjl, List.pairwise_iff_getElem.mp h j i hjl hi
        (hj.trans_le (min_le_left i l.length))⟩
  have hcard : (l.take i).toFinset.card = i := by
    rw [List.toFinset_card_of_nodup ((nodup_of_pairwise h).sublist (List.take_sublist i l)),
      List.length_take_of_le hi.le]
  unfold level above
  refine (congrArg Finset.card ?_).trans hcard
  ext m
  simp [habove]

end Chain
end Nested

end Galdr.Painting
