import Mathlib

/-!
# Tokens in places

A waiter of a concurrent object sits in exactly one place: on the list of the object, or in
the hands of an agent that has detached it.  `Placed loc S` says this for all waiters at
once: `loc p` lists the tokens in the place `p`, no token lies in two places or twice in
one, and the tokens placed somewhere are those satisfying `S`.  The lemmas are the moves an
operation can make: a token enters, leaves, or passes from one place to another.

`Housed` is the same for tokens that record their own place.  `Parked` is the case of agents
that park on a list: an agent is described by its control point, some control points are
parked, and others hold parked agents in hand.
-/

namespace Foundations

open Function

variable {π τ : Type*}

/-- The tokens satisfying `S` are distributed over the places, each lying in one of them once. -/
structure Placed (loc : π → List τ) (S : τ → Prop) : Prop where
  nodup : ∀ p, (loc p).Nodup
  unique : ∀ p q x, x ∈ loc p → x ∈ loc q → p = q
  mem_iff : ∀ x, S x ↔ ∃ p, x ∈ loc p

namespace Placed

variable {loc loc' : π → List τ} {S S' : τ → Prop} {p q : π} {x : τ}

/-- A token found in some place is one of those placed. -/
lemma of_mem (h : Placed loc S) (hx : x ∈ loc p) : S x :=
  (h.mem_iff x).mpr ⟨p, hx⟩

/-- The tokens change their order inside of the places. -/
lemma perm (h : Placed loc S) (hloc : ∀ p, (loc' p).Perm (loc p)) (hS : ∀ x, S' x ↔ S x) :
    Placed loc' S' := by
  refine ⟨fun p => (hloc p).nodup_iff.mpr (h.nodup p), fun p q x hp hq => ?_, fun x => ?_⟩
  · exact h.unique p q x ((hloc p).mem_iff.mp hp) ((hloc q).mem_iff.mp hq)
  · rw [hS, h.mem_iff]
    exact exists_congr fun p => (hloc p).mem_iff.symm

/-- Nothing moves. -/
lemma congr (h : Placed loc S) (hloc : ∀ p, loc' p = loc p) (hS : ∀ x, S' x ↔ S x) :
    Placed loc' S' :=
  h.perm (fun p => by rw [hloc p]) hS

/-- A new token enters the place `p`. -/
lemma enter (h : Placed loc S) (hx : ¬ S x) (hp : loc' p = x :: loc p)
    (hq : ∀ q, q ≠ p → loc' q = loc q) (hS : ∀ y, S' y ↔ y = x ∨ S y) : Placed loc' S' := by
  have hnew : ∀ q, x ∉ loc q := fun q hmem => hx (h.of_mem hmem)
  have hmem : ∀ q y, y ∈ loc' q ↔ (y = x ∧ q = p) ∨ y ∈ loc q := by
    intro q y
    by_cases hqp : q = p
    · subst hqp
      simp [hp]
    · simp [hq q hqp, hqp]
  refine ⟨fun q => ?_, fun q r y hy hy' => ?_, fun y => ?_⟩
  · by_cases hqp : q = p
    · subst hqp
      rw [hp]
      exact List.nodup_cons.mpr ⟨hnew q, h.nodup q⟩
    · rw [hq q hqp]
      exact h.nodup q
  · rcases (hmem q y).mp hy with ⟨rfl, rfl⟩ | hy
    · rcases (hmem r y).mp hy' with ⟨-, rfl⟩ | hy'
      · rfl
      · exact (hnew r hy').elim
    · rcases (hmem r y).mp hy' with ⟨rfl, rfl⟩ | hy'
      · exact (hnew q hy).elim
      · exact h.unique q r y hy hy'
  · rw [hS, h.mem_iff]
    constructor
    · rintro (rfl | ⟨q, hy⟩)
      · exact ⟨p, (hmem p y).mpr (Or.inl ⟨rfl, rfl⟩)⟩
      · exact ⟨q, (hmem q y).mpr (Or.inr hy)⟩
    · rintro ⟨q, hy⟩
      rcases (hmem q y).mp hy with ⟨rfl, -⟩ | hy
      · exact Or.inl rfl
      · exact Or.inr ⟨q, hy⟩

/-- A token leaves the place `p`. -/
lemma leave (h : Placed loc S) (hp : (loc p).Perm (x :: loc' p))
    (hq : ∀ q, q ≠ p → loc' q = loc q) (hS : ∀ y, S' y ↔ y ≠ x ∧ S y) : Placed loc' S' := by
  have hnodup : x ∉ loc' p ∧ (loc' p).Nodup :=
    List.nodup_cons.mp (hp.nodup_iff.mp (h.nodup p))
  have hxp : x ∈ loc p := hp.mem_iff.mpr List.mem_cons_self
  have hmem : ∀ q y, y ∈ loc' q ↔ y ≠ x ∧ y ∈ loc q := by
    intro q y
    by_cases hqp : q = p
    · subst hqp
      rw [hp.mem_iff, List.mem_cons]
      constructor
      · intro hy
        exact ⟨fun hyx => hnodup.1 (hyx ▸ hy), Or.inr hy⟩
      · rintro ⟨hne, hyx | hy⟩
        · exact (hne hyx).elim
        · exact hy
    · rw [hq q hqp]
      constructor
      · intro hy
        exact ⟨fun hyx => hqp (h.unique q p x (hyx ▸ hy) hxp), hy⟩
      · exact And.right
  refine ⟨fun q => ?_, fun q r y hy hy' => ?_, fun y => ?_⟩
  · by_cases hqp : q = p
    · subst hqp
      exact hnodup.2
    · rw [hq q hqp]
      exact h.nodup q
  · exact h.unique q r y ((hmem q y).mp hy).2 ((hmem r y).mp hy').2
  · rw [hS, h.mem_iff]
    constructor
    · rintro ⟨hne, q, hy⟩
      exact ⟨q, (hmem q y).mpr ⟨hne, hy⟩⟩
    · rintro ⟨q, hy⟩
      exact ⟨((hmem q y).mp hy).1, q, ((hmem q y).mp hy).2⟩

/-- Tokens pass between the places `p` and `q`. -/
lemma pass (h : Placed loc S) (hpq : p ≠ q)
    (hperm : (loc' p ++ loc' q).Perm (loc p ++ loc q))
    (hr : ∀ r, r ≠ p → r ≠ q → loc' r = loc r) (hS : ∀ y, S' y ↔ S y) : Placed loc' S' := by
  have hdisj : List.Disjoint (loc p) (loc q) := fun y hy hy' => hpq (h.unique p q y hy hy')
  have hnodup : (loc' p ++ loc' q).Nodup :=
    hperm.nodup_iff.mpr (List.nodup_append'.mpr ⟨h.nodup p, h.nodup q, hdisj⟩)
  obtain ⟨hp', hq', hdisj'⟩ := List.nodup_append'.mp hnodup
  have hmem : ∀ y, (y ∈ loc' p ∨ y ∈ loc' q) ↔ (y ∈ loc p ∨ y ∈ loc q) := by
    intro y
    simpa [List.mem_append] using hperm.mem_iff (a := y)
  -- a token found in `p` or `q` afterwards was there before
  have hback : ∀ r y, r = p ∨ r = q → y ∈ loc' r → ∃ t, (t = p ∨ t = q) ∧ y ∈ loc t := by
    rintro r y (rfl | rfl) hy
    · rcases (hmem y).mp (Or.inl hy) with hy | hy
      · exact ⟨r, Or.inl rfl, hy⟩
      · exact ⟨q, Or.inr rfl, hy⟩
    · rcases (hmem y).mp (Or.inr hy) with hy | hy
      · exact ⟨p, Or.inl rfl, hy⟩
      · exact ⟨r, Or.inr rfl, hy⟩
  refine ⟨fun r => ?_, fun r t y hy hy' => ?_, fun y => ?_⟩
  · by_cases hrp : r = p
    · exact hrp ▸ hp'
    · by_cases hrq : r = q
      · exact hrq ▸ hq'
      · rw [hr r hrp hrq]
        exact h.nodup r
  · by_cases hrpq : r = p ∨ r = q
    · obtain ⟨r', hr', hyr'⟩ := hback r y hrpq hy
      by_cases htpq : t = p ∨ t = q
      · -- both ends lie in the pair of places that exchanged tokens
        rcases hrpq with rfl | rfl <;> rcases htpq with rfl | rfl
        · rfl
        · exact (hdisj' hy hy').elim
        · exact (hdisj' hy' hy).elim
        · rfl
      · have hloc : loc' t = loc t := hr t (fun h => htpq (Or.inl h)) (fun h => htpq (Or.inr h))
        have : t = r' := h.unique t r' y (hloc ▸ hy') hyr'
        exact (htpq (this ▸ hr')).elim
    · have hloc : loc' r = loc r := hr r (fun h => hrpq (Or.inl h)) (fun h => hrpq (Or.inr h))
      by_cases htpq : t = p ∨ t = q
      · obtain ⟨t', ht', hyt'⟩ := hback t y htpq hy'
        have : r = t' := h.unique r t' y (hloc ▸ hy) hyt'
        exact (hrpq (this ▸ ht')).elim
      · have hloc' : loc' t = loc t := hr t (fun h => htpq (Or.inl h)) (fun h => htpq (Or.inr h))
        exact h.unique r t y (hloc ▸ hy) (hloc' ▸ hy')
  · rw [hS, h.mem_iff]
    constructor
    · rintro ⟨r, hy⟩
      by_cases hrp : r = p
      · rcases (hmem y).mpr (Or.inl (hrp ▸ hy)) with hy | hy
        · exact ⟨p, hy⟩
        · exact ⟨q, hy⟩
      · by_cases hrq : r = q
        · rcases (hmem y).mpr (Or.inr (hrq ▸ hy)) with hy | hy
          · exact ⟨p, hy⟩
          · exact ⟨q, hy⟩
        · exact ⟨r, by rwa [hr r hrp hrq]⟩
    · rintro ⟨r, hy⟩
      by_cases hrpq : r = p ∨ r = q
      · obtain ⟨t, -, hyt⟩ := hback r y hrpq hy
        exact ⟨t, hyt⟩
      · refine ⟨r, ?_⟩
        rwa [← hr r (fun h => hrpq (Or.inl h)) (fun h => hrpq (Or.inr h))]

end Placed

/-! ## Tokens that know their place -/

/-- Every token knows the place in which it lies, if any, and lies there once. -/
structure Housed (loc : π → List τ) (home : τ → Option π) : Prop where
  nodup : ∀ p, (loc p).Nodup
  mem_iff : ∀ p x, x ∈ loc p ↔ home x = some p

namespace Housed

variable {loc loc' : π → List τ} {home home' : τ → Option π} {x : τ}

/-- Tokens that are in no place, before and after, do not matter. -/
lemma congr (h : Housed loc home) (hloc : ∀ p, loc' p = loc p) (hhome : ∀ x, home' x = home x) :
    Housed loc' home' := by
  obtain rfl : loc' = loc := funext hloc
  obtain rfl : home' = home := funext hhome
  exact h

/-- The tokens on the list `ks` move from `src` to `dst`, either of which may be no place. -/
lemma move (h : Housed loc home) (ks : List τ) (src dst : Option π) (hne : src ≠ dst)
    (hks : ks.Nodup) (hsrc : ∀ x ∈ ks, home x = src) (hdst : ∀ x ∈ ks, home' x = dst)
    (hrest : ∀ x, x ∉ ks → home' x = home x)
    (hleave : ∀ p, src = some p → (loc p).Perm (ks ++ loc' p))
    (henter : ∀ p, dst = some p → (loc' p).Perm (loc p ++ ks))
    (hother : ∀ p, src ≠ some p → dst ≠ some p → loc' p = loc p) : Housed loc' home' := by
  have hcases : ∀ p, src = some p ∨ dst = some p ∨ loc' p = loc p := by
    intro p
    by_cases hs : src = some p
    · exact Or.inl hs
    · by_cases hd : dst = some p
      · exact Or.inr (Or.inl hd)
      · exact Or.inr (Or.inr (hother p hs hd))
  refine ⟨fun p => ?_, fun p x => ?_⟩
  · rcases hcases p with hs | hd | heq
    · have hnd := (hleave p hs).nodup_iff.mp (h.nodup p)
      exact (List.nodup_append'.mp hnd).2.1
    · rw [(henter p hd).nodup_iff]
      refine List.nodup_append'.mpr ⟨h.nodup p, hks, fun y hy hyk => hne ?_⟩
      rw [← hsrc y hyk, (h.mem_iff p y).mp hy, hd]
    · rw [heq]
      exact h.nodup p
  · by_cases hx : x ∈ ks
    · rw [hdst x hx]
      by_cases hd : dst = some p
      · simp [(henter p hd).mem_iff, hx, hd]
      · refine iff_of_false (fun hmem => ?_) hd
        by_cases hs : src = some p
        · have hnd := (hleave p hs).nodup_iff.mp (h.nodup p)
          exact (List.nodup_append'.mp hnd).2.2 hx hmem
        · rw [hother p hs hd, h.mem_iff, hsrc x hx] at hmem
          exact hs hmem
    · rw [hrest x hx, ← h.mem_iff]
      rcases hcases p with hs | hd | heq
      · simp [(hleave p hs).mem_iff, hx]
      · simp [(henter p hd).mem_iff, hx]
      · rw [heq]

end Housed

/-! ## Parked agents -/

section Parked

variable {ρ : Type*} {hand : ρ → List τ} {parked : ρ → Prop} {ws ws' : List τ} {pc pc' : τ → ρ}

/-- The places of parked agents: the list, and the hands of every agent. -/
def parkingPlaces (hand : ρ → List τ) (ws : List τ) (pc : τ → ρ) : Option τ → List τ
  | none => ws
  | some c => hand (pc c)

/-- Every parked agent is on the list `ws` or in the hands of one agent, and nobody else is. -/
def Parked (hand : ρ → List τ) (parked : ρ → Prop) (ws : List τ) (pc : τ → ρ) : Prop :=
  Placed (parkingPlaces hand ws pc) fun x => parked (pc x)

namespace Parked

/-- Whoever is on the list is parked. -/
lemma of_mem_list (h : Parked hand parked ws pc) {x : τ} (hx : x ∈ ws) : parked (pc x) :=
  (Placed.mem_iff h x).mpr ⟨none, hx⟩

/-- Whoever is in someone's hands is parked. -/
lemma of_mem_hand (h : Parked hand parked ws pc) {x c : τ} (hx : x ∈ hand (pc c)) :
    parked (pc x) :=
  (Placed.mem_iff h x).mpr ⟨some c, hx⟩

/-- Whoever is on the list is in nobody's hands. -/
lemma not_mem_hand (h : Parked hand parked ws pc) {x : τ} (hx : x ∈ ws) (c : τ) :
    x ∉ hand (pc c) := by
  intro hc
  have := Placed.unique h none (some c) x hx hc
  simp at this

/-- A parked agent is on the list or in somebody's hands. -/
lemma mem_or (h : Parked hand parked ws pc) {x : τ} (hx : parked (pc x)) :
    x ∈ ws ∨ ∃ c, x ∈ hand (pc c) := by
  obtain ⟨p, hp⟩ := (Placed.mem_iff h x).mp hx
  cases p with
  | none => exact Or.inl hp
  | some c => exact Or.inr ⟨c, hp⟩

/-- At the beginning nobody is parked. -/
lemma nil {p : ρ} (hhand : hand p = []) (hp : ¬ parked p) : Parked hand parked [] fun _ => p := by
  refine ⟨fun q => ?_, fun q r x hx => ?_, fun x => ?_⟩
  · cases q <;> simp [parkingPlaces, hhand]
  · cases q <;> simp [parkingPlaces, hhand] at hx
  · refine iff_of_false hp ?_
    rintro ⟨q, hq⟩
    cases q <;> simp [parkingPlaces, hhand] at hq

/-- Control points move without parking, waking or handing over anybody. -/
lemma congr (h : Parked hand parked ws pc)
    (hpc : ∀ d, hand (pc' d) = hand (pc d) ∧ (parked (pc' d) ↔ parked (pc d))) :
    Parked hand parked ws pc' := by
  refine Placed.congr h (fun q => ?_) fun d => (hpc d).2
  cases q with
  | none => rfl
  | some d => exact (hpc d).1

variable [DecidableEq τ]

/-- An agent parks itself. -/
lemma park (h : Parked hand parked ws pc) {c : τ} {p : ρ} (hc : ¬ parked (pc c)) (hp : parked p)
    (hhand : hand p = hand (pc c)) : Parked hand parked (c :: ws) (update pc c p) := by
  refine Placed.enter h (p := none) hc rfl (fun q hq => ?_) fun d => ?_
  · cases q with
    | none => exact (hq rfl).elim
    | some d =>
      by_cases hd : d = c
      · simp [parkingPlaces, hd, hhand]
      · simp [parkingPlaces, hd]
  · by_cases hd : d = c
    · simp [hd, hp]
    · simp [hd]

/-- Parked agents pass between the list and the hands of `c`. -/
lemma exchange (h : Parked hand parked ws pc) {c : τ} {p : ρ}
    (hperm : (ws' ++ hand p).Perm (ws ++ hand (pc c))) (hp : parked p ↔ parked (pc c)) :
    Parked hand parked ws' (update pc c p) := by
  refine Placed.pass h (p := none) (q := some c) (by simp) ?_ (fun q hn hs => ?_) fun d => ?_
  · simpa [parkingPlaces] using hperm
  · cases q with
    | none => exact (hn rfl).elim
    | some d =>
      have hd : d ≠ c := fun hdc => hs (congrArg some hdc)
      simp [parkingPlaces, hd]
  · by_cases hd : d = c
    · simp [hd, hp]
    · simp [hd]

/-- The agent `c` wakes `w`, whom it holds in hand. -/
lemma wake (h : Parked hand parked ws pc) (hempty : ∀ q, parked q → hand q = []) {c w : τ}
    {a p : ρ} (hperm : (hand (pc c)).Perm (w :: hand p)) (hp : ¬ parked p) (ha : ¬ parked a)
    (hhand : hand a = []) :
    Parked hand parked ws (update (update pc w a) c p) := by
  have hwc : w ∈ hand (pc c) := hperm.mem_iff.mpr List.mem_cons_self
  have hw : parked (pc w) := h.of_mem_hand hwc
  have hc : ¬ parked (pc c) := by
    intro hc
    rw [hempty _ hc] at hwc
    simp at hwc
  have hne : w ≠ c := fun heq => hc (heq ▸ hw)
  refine Placed.leave h (p := some c) (x := w) ?_ (fun q hq => ?_) fun d => ?_
  · simpa [parkingPlaces] using hperm
  · cases q with
    | none => rfl
    | some d =>
      have hd : d ≠ c := fun hdc => hq (congrArg some hdc)
      by_cases hdw : d = w
      · simp [parkingPlaces, hdw, hne, hhand, hempty _ hw]
      · simp [parkingPlaces, hd, hdw]
  · by_cases hd : d = c
    · simp [hd, hp, hc]
    · by_cases hdw : d = w
      · simp [hdw, hne, ha]
      · simp [hd, hdw]

/-- Parked agents pass between the hands of `c` and of `d`. -/
lemma hand_over (h : Parked hand parked ws pc) {c d : τ} {p q : ρ} (hcd : c ≠ d)
    (hperm : (hand p ++ hand q).Perm (hand (pc c) ++ hand (pc d)))
    (hp : parked p ↔ parked (pc c)) (hq : parked q ↔ parked (pc d)) :
    Parked hand parked ws (update (update pc d q) c p) := by
  refine Placed.pass h (p := some c) (q := some d) (by simpa using hcd) ?_ (fun r hc hd => ?_)
    fun x => ?_
  · simpa [parkingPlaces, hcd.symm] using hperm
  · cases r with
    | none => rfl
    | some e =>
      have hec : e ≠ c := fun hec => hc (congrArg some hec)
      have hed : e ≠ d := fun hed => hd (congrArg some hed)
      simp [parkingPlaces, hec, hed]
  · by_cases hxc : x = c
    · simp [hxc, hp]
    · by_cases hxd : x = d
      · simp [hxd, hcd.symm, hq]
      · simp [hxc, hxd]

/-- An agent on the list is woken and leaves it. -/
lemma unpark (h : Parked hand parked ws pc) {w : τ} {a : ρ} (hw : w ∈ ws) (ha : ¬ parked a)
    (hhand : hand a = hand (pc w)) :
    Parked hand parked (ws.erase w) (update pc w a) := by
  refine Placed.leave h (p := none) (x := w) ?_ (fun q hq => ?_) fun d => ?_
  · exact List.perm_cons_erase hw
  · cases q with
    | none => exact (hq rfl).elim
    | some d =>
      by_cases hd : d = w
      · simp [parkingPlaces, hd, hhand]
      · simp [parkingPlaces, hd]
  · by_cases hd : d = w
    · simp [hd, ha]
    · simp [hd]

end Parked

end Parked

end Foundations
