import Mathlib.Data.List.Basic
import Mathlib.Tactic.Common

/-!
# Programs that talk to their environment

A `Dialogue` is a program that asks its environment questions, which it cannot answer itself, and
goes on with the answers: system calls, readings of a clock, calls of a library.  An environment
answers each request, given the log of the exchanges so far; `play` lets the two run against each
other and is total.  `Ensures Q p l` says that whatever the answers are, the run of `p` from the log
`l` ends with a log and a value that satisfy `Q`; the rules of this logic follow the structure of
programs.  `loop_rule` is the rule for a loop with an invariant; `loop_ensures` also bounds the
rounds of the loop by what they leave in the log.
-/

namespace Foundations

universe u v w x

/-- A program that returns a value, or asks for an answer to the request `r` and goes on with
it. -/
inductive Dialogue (ρ : Type u) (ans : ρ → Type v) (α : Type w) where
  | ret (a : α)
  | ask (r : ρ) (k : ans r → Dialogue ρ ans α)

/-- A request and its answer. -/
structure Exchange (ρ : Type u) (ans : ρ → Type v) where
  request : ρ
  answer : ans request

namespace Dialogue

variable {ρ : Type u} {ans : ρ → Type v} {α β : Type w}

/-- Runs `f` on the value of a program. -/
def bind : Dialogue ρ ans α → (α → Dialogue ρ ans β) → Dialogue ρ ans β
  | ret a, f => f a
  | ask r k, f => ask r fun x => (k x).bind f

instance : Monad (Dialogue ρ ans) where
  pure := ret
  bind := bind

/-- The program that asks one question. -/
def request (r : ρ) : Dialogue ρ ans (ans r) :=
  ask r ret

/-- Repeats `body` at most `fuel` times, until it ends with a value. -/
def loop {σ : Type w} (body : σ → Dialogue ρ ans (σ ⊕ β)) : ℕ → σ → Dialogue ρ ans (Option β)
  | 0, _ => pure none
  | fuel + 1, s => body s >>= fun
    | .inl s' => loop body fuel s'
    | .inr b => pure (some b)

/-- The run of a program against an environment, with the log of their exchanges. -/
def play (env : List (Exchange ρ ans) → (r : ρ) → ans r) :
    Dialogue ρ ans α → List (Exchange ρ ans) → List (Exchange ρ ans) × α
  | ret a, l => (l, a)
  | ask r k, l => play env (k (env l r)) (l ++ [⟨r, env l r⟩])

/-- Whatever the environment answers, `p` ends with a log and a value in `Q`. -/
def Ensures (Q : List (Exchange ρ ans) → α → Prop) :
    Dialogue ρ ans α → List (Exchange ρ ans) → Prop
  | ret a, l => Q l a
  | ask r k, l => ∀ x, Ensures Q (k x) (l ++ [⟨r, x⟩])

variable {Q Q' : List (Exchange ρ ans) → α → Prop} {R : List (Exchange ρ ans) → β → Prop}
  {l : List (Exchange ρ ans)}

variable {p : Dialogue ρ ans α}

/-- What a program ensures holds after its run against any environment. -/
lemma Ensures.of_play (h : p.Ensures Q l)
    {env : List (Exchange ρ ans) → (r : ρ) → ans r} {l' : List (Exchange ρ ans)} {a : α}
    (hplay : p.play env l = (l', a)) : Q l' a := by
  induction p generalizing l with
  | ret b =>
    obtain ⟨rfl, rfl⟩ := Prod.mk.inj hplay
    exact h
  | ask r k ih => exact ih _ (h (env l r)) hplay

/-- The rule of consequence. -/
lemma Ensures.mono (h : p.Ensures Q l) (hQ : ∀ l a, Q l a → Q' l a) :
    p.Ensures Q' l := by
  induction p generalizing l with
  | ret a => exact hQ l a h
  | ask r k ih => exact fun x => ih x (h x)

/-- Two things that a program ensures hold together. -/
lemma Ensures.and (h : p.Ensures Q l) (h' : p.Ensures Q' l) :
    p.Ensures (fun l a => Q l a ∧ Q' l a) l := by
  induction p generalizing l with
  | ret a => exact ⟨h, h'⟩
  | ask r k ih => exact fun x => ih x (h x) (h' x)

@[simp] lemma ensures_pure {a : α} : (pure a : Dialogue ρ ans α).Ensures Q l ↔ Q l a :=
  Iff.rfl

/-- A program ensures what its first part ensures of the rest. -/
@[simp] lemma ensures_bind {f : α → Dialogue ρ ans β} :
    (p >>= f).Ensures R l ↔ p.Ensures (fun l a => (f a).Ensures R l) l := by
  change (p.bind f).Ensures R l ↔ _
  induction p generalizing l with
  | ret a => exact Iff.rfl
  | ask r k ih => exact forall_congr' fun x => ih x

/-- A branch ensures what the two sides do. -/
lemma ensures_ite {b : Prop} [Decidable b] {q : Dialogue ρ ans α} :
    (if b then p else q).Ensures Q l ↔ (b → p.Ensures Q l) ∧ (¬ b → q.Ensures Q l) := by
  split_ifs with hb <;> simp [hb]

/-- The loop rule, with an invariant that knows the number of rounds.  If every round ends in `R` or
goes on with the invariant, then a loop that is entered with the invariant ends in `R`, or runs out
of fuel with the invariant. -/
lemma loop_rule {σ : Type w} {body : σ → Dialogue ρ ans (σ ⊕ β)}
    {I : ℕ → List (Exchange ρ ans) → σ → Prop}
    (hbody : ∀ k l s, I k l s → (body s).Ensures (fun l' r => r.elim (I (k + 1) l') (R l')) l)
    (fuel : ℕ) {k : ℕ} {s : σ} (hI : I k l s) :
    (loop body fuel s).Ensures (fun l' r => r.elim (∃ s, I (k + fuel) l' s) (R l')) l := by
  induction fuel generalizing k l s with
  | zero => exact ⟨s, hI⟩
  | succ fuel ih =>
    rw [loop, ensures_bind]
    refine (hbody k l s hI).mono fun l₁ r hr => ?_
    cases r with
    | inl s₁ =>
      have hnext := ih hr
      rwa [Nat.add_right_comm] at hnext
    | inr b => exact hr

/-- The loop rule for an invariant `I` under which every round that goes on adds to the count `c` of
the log: a loop that runs out of fuel has added its fuel to the count. -/
lemma loop_ensures {σ : Type w} {body : σ → Dialogue ρ ans (σ ⊕ β)}
    {I : List (Exchange ρ ans) → σ → Prop} {c : List (Exchange ρ ans) → ℕ}
    (hbody : ∀ l s, I l s → (body s).Ensures
      (fun l' r => r.elim (fun s' => I l' s' ∧ c l < c l') (R l')) l)
    (fuel : ℕ) {s : σ} (hI : I l s) :
    (loop body fuel s).Ensures
      (fun l' r => r.elim ((∃ s, I l' s) ∧ fuel + c l ≤ c l') (R l')) l := by
  have hround : ∀ k l₁ s₁, (I l₁ s₁ ∧ k + c l ≤ c l₁) → (body s₁).Ensures
      (fun l' r => r.elim (fun s' => I l' s' ∧ k + 1 + c l ≤ c l') (R l')) l₁ := by
    rintro k l₁ s₁ ⟨hI₁, hcount⟩
    refine (hbody l₁ s₁ hI₁).mono fun l₂ r hr => ?_
    cases r with
    | inl s₂ =>
      obtain ⟨hI₂, hgrown⟩ := hr
      exact ⟨hI₂, by omega⟩
    | inr b => exact hr
  have hentered : I l s ∧ 0 + c l ≤ c l := ⟨hI, Nat.le_of_eq (Nat.zero_add (c l))⟩
  refine (loop_rule hround fuel hentered).mono fun l' r hr => ?_
  cases r with
  | none =>
    obtain ⟨s', hI', hcount⟩ := hr
    exact ⟨⟨s', hI'⟩, by omega⟩
  | some b => exact hr

end Dialogue

section Request

variable {ρ : Type u} {ans : ρ → Type v} {l : List (Exchange ρ ans)}

/-- A question may have any answer. -/
@[simp] lemma Dialogue.ensures_request {r : ρ} {Q : List (Exchange ρ ans) → ans r → Prop} :
    (Dialogue.request r).Ensures Q l ↔ ∀ x, Q (l ++ [⟨r, x⟩]) x :=
  Iff.rfl

end Request

/-! ## Properties of logs -/

section Logs

variable {ε : Type u} {P : List ε → ε → Prop} {l : List ε} {e : ε}

/-- Every entry of a log stands in the relation `P` to what was logged before it. -/
def Always (P : List ε → ε → Prop) (l : List ε) : Prop :=
  ∀ before e after, l = before ++ e :: after → P before e

@[simp] lemma always_nil : Always P [] := by
  intro before e after h
  simp at h

/-- What is read of a log up to its last entry. -/
private lemma concat_eq_concat {x e' : ε} {before after : List ε}
    (h : l ++ [e] = before ++ e' :: after.concat x) : l = before ++ e' :: after ∧ e = x := by
  have h' : l ++ [e] = (before ++ e' :: after) ++ [x] := by simpa using h
  obtain ⟨hl, hx⟩ := List.append_inj' h' rfl
  exact ⟨hl, by simpa using hx⟩

/-- The last entry is the only one to look at when a log grows. -/
@[simp] lemma always_concat : Always P (l ++ [e]) ↔ Always P l ∧ P l e := by
  constructor
  · intro h
    refine ⟨fun before x after hl => ?_, h l e [] rfl⟩
    exact h before x (after ++ [e]) (by simp [hl])
  · rintro ⟨h, he⟩ before x after hl
    rcases List.eq_nil_or_concat after with rfl | ⟨after, y, rfl⟩
    · obtain ⟨rfl, hx⟩ := List.append_inj' hl rfl
      obtain rfl : e = x := by simpa using hx
      exact he
    · exact h before x after (concat_eq_concat hl).1

/-- Every entry of a log that satisfies `a` is directly followed by one that satisfies `b`. -/
def Followed (a b : ε → Bool) (l : List ε) : Prop :=
  ∀ before e after, l = before ++ e :: after → a e = true → ∃ e' ∈ after.head?, b e' = true

variable {a b : ε → Bool} {e' : ε}

lemma followed_nil : Followed a b [] := by
  intro before e after h
  simp at h

/-- An entry that needs no successor. -/
lemma Followed.concat (h : Followed a b l) (he : a e = false) : Followed a b (l ++ [e]) := by
  intro before x after hl hx
  rcases List.eq_nil_or_concat after with rfl | ⟨after, y, rfl⟩
  · obtain rfl : e = x := by simpa using (List.append_inj' hl rfl).2
    rw [he] at hx
    cases hx
  · obtain ⟨z, hz, hb⟩ := h before x after (concat_eq_concat hl).1 hx
    exact ⟨z, by simp [List.head?_append, Option.mem_def.mp hz], hb⟩

/-- An entry with its successor. -/
lemma Followed.pair (h : Followed a b l) (hb : b e' = true) (ha : a e' = false) :
    Followed a b (l ++ [e] ++ [e']) := by
  intro before x after hl hx
  rcases List.eq_nil_or_concat after with rfl | ⟨after, y, rfl⟩
  · obtain rfl : e' = x := by simpa using (List.append_inj' hl rfl).2
    rw [ha] at hx
    cases hx
  · obtain ⟨hfront, rfl⟩ := concat_eq_concat hl
    rcases List.eq_nil_or_concat after with rfl | ⟨after, z, rfl⟩
    · exact ⟨e', rfl, hb⟩
    · obtain ⟨w, hw, hbw⟩ := h before x after (concat_eq_concat hfront).1 hx
      exact ⟨w, by simp [List.head?_append, Option.mem_def.mp hw], hbw⟩

end Logs

end Foundations
