import Mathlib.Logic.Basic

/-!
# Walks of a relation

Walks with a given number of steps.  The last section is about adding one edge
to a relation: a closed walk that is new goes through the edge, and cutting it
there leaves an old walk from the edge's end back to its start.
-/

namespace Walks

variable {K : Type*}

inductive Walk (E : K -> K -> Prop) : Nat -> K -> K -> Prop where
  | nil (a : K) : Walk E 0 a a
  | cons {n : Nat} {a b c : K} : E a b -> Walk E n b c -> Walk E (n + 1) a c

variable {E E' : K -> K -> Prop}

/-!
## Composition
-/

variable {n : Nat} {a b c : K}

theorem Walk.append
    {m : Nat} (h : Walk E m a b) (h' : Walk E n b c) :
    Walk E (m + n) a c := by
  induction h with
  | nil a =>
      rw [Nat.zero_add]
      exact h'
  | cons hedge _ ih =>
      rw [Nat.add_right_comm]
      exact .cons hedge (ih h')

theorem Walk.concat
    (h : Walk E n a b) (hedge : E b c) :
    Walk E (n + 1) a c :=
  h.append (.cons hedge (.nil c))

theorem Walk.last
    (h : Walk E (n + 1) a c) :
    exists b, Walk E n a b ∧ E b c := by
  induction n generalizing a with
  | zero =>
      cases h with
      | cons hedge hrest =>
          cases hrest
          exact ⟨a, .nil a, hedge⟩
  | succ n ih =>
      cases h with
      | cons hedge hrest =>
          rcases ih hrest with ⟨b, hinit, hlast⟩
          exact ⟨b, .cons hedge hinit, hlast⟩

theorem Walk.mono
    (hsub : forall a b, E a b -> E' a b) (h : Walk E n a b) :
    Walk E' n a b := by
  induction h with
  | nil a => exact .nil a
  | cons hedge _ ih => exact .cons (hsub _ _ hedge) ih

theorem Walk.dropLoops
    (h : Walk E n a b) :
    exists m, m ≤ n ∧ Walk (fun x y => x ≠ y ∧ E x y) m a b := by
  induction h with
  | nil a => exact ⟨0, Nat.le_refl 0, .nil a⟩
  | @cons n a b c hedge _ ih =>
      rcases ih with ⟨m, hle, hwalk⟩
      by_cases hloop : a = b
      · subst hloop
        exact ⟨m, by omega, hwalk⟩
      · exact ⟨m + 1, by omega, .cons ⟨hloop, hedge⟩ hwalk⟩

/-!
## One more edge
-/

/-- A walk over one more edge is an old walk, or an old walk to the edge's start
together with an old walk from its end. -/
theorem Walk.cut
    (hnew : forall x y, E' x y -> E x y ∨ (x = a ∧ y = b)) {x y : K} (h : Walk E' n x y) :
    Walk E n x y ∨ exists i j, i + j + 1 ≤ n ∧ Walk E i x a ∧ Walk E j b y := by
  induction h with
  | nil x => exact Or.inl (.nil x)
  | cons hedge _ ih =>
      rcases hnew _ _ hedge with hold | ⟨rfl, rfl⟩
      · rcases ih with hwalk | ⟨i, j, hlen, hto, hfrom⟩
        · exact Or.inl (.cons hold hwalk)
        · exact Or.inr ⟨i + 1, j, by omega, .cons hold hto, hfrom⟩
      · rcases ih with hwalk | ⟨i, j, hlen, -, hfrom⟩
        · exact Or.inr ⟨0, _, by omega, .nil _, hwalk⟩
        · exact Or.inr ⟨0, j, by omega, .nil _, hfrom⟩

def AcyclicUpTo (E : K -> K -> Prop) (bound : Nat) : Prop :=
  forall n k, 1 ≤ n -> n ≤ bound -> ¬ Walk E n k k

theorem AcyclicUpTo.addEdge
    {bound : Nat} (hold : AcyclicUpTo E (bound + 1))
    (hnew : forall x y, E' x y -> E x y ∨ (x = a ∧ y = b)) (hne : a ≠ b)
    (hpath : forall n, 1 ≤ n -> n ≤ bound -> ¬ Walk E n b a) :
    AcyclicUpTo E' (bound + 1) := by
  intro n k hpos hle hwalk
  rcases hwalk.cut hnew with hclosed | ⟨i, j, hlen, hto, hfrom⟩
  · exact hold n k hpos hle hclosed
  · have hback : Walk E (j + i) b a := hfrom.append hto
    have hsome : 1 ≤ j + i := by
      rcases Nat.eq_zero_or_pos (j + i) with hzero | hsome
      · rw [hzero] at hback
        cases hback
        exact absurd rfl hne
      · exact hsome
    exact hpath (j + i) hsome (by omega) hback

theorem AcyclicUpTo.anti
    {bound : Nat} (h : AcyclicUpTo E bound) (hsub : forall a b, E' a b -> E a b) :
    AcyclicUpTo E' bound := by
  intro n k hpos hle hwalk
  exact h n k hpos hle (hwalk.mono hsub)

end Walks
