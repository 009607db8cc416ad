import Mathlib.Data.List.Basic
import Mathlib.Data.List.TakeDrop
import Mathlib.Tactic.Common

/-!
# A range of a list held in pieces

A long list is held as consecutive pieces, and a range of it is read by cutting a
window out of each piece the range touches.  `covering` finds the windows from the
lengths of the pieces alone, by adding them up from the left.
-/

namespace Slicing

variable {A : Type}

def cut (l : List A) (lo hi : Nat) : List A :=
  (l.take hi).drop lo

theorem cut_append
    (l r : List A) (lo hi : Nat) :
    cut (l ++ r) lo hi = cut l lo hi ++ cut r (lo - l.length) (hi - l.length) := by
  unfold cut
  rw [List.take_append, List.drop_append, List.length_take]
  by_cases hhi : hi ≤ l.length
  · rw [Nat.sub_eq_zero_of_le hhi]
    simp
  · rw [Nat.min_eq_right (by omega)]

variable {hi lo : Nat}

theorem cut_eq_nil
    (l : List A) (h : hi ≤ lo) :
    cut l lo hi = [] := by
  unfold cut
  rw [List.drop_eq_nil_iff, List.length_take]
  omega

theorem cut_min_length
    (l : List A) (lo hi : Nat) :
    cut l lo (min hi l.length) = cut l lo hi := by
  unfold cut
  by_cases h : hi ≤ l.length
  · rw [Nat.min_eq_left h]
  · rw [Nat.min_eq_right (by omega), List.take_length, List.take_of_length_le (by omega)]

structure Window where
  index : Nat
  lo : Nat
  hi : Nat
deriving DecidableEq

/-- The windows of the range from `lo` up to `hi`, over pieces that start at offset `o`
and are counted from `i`. -/
def covering (lo hi : Nat) : Nat -> Nat -> List Nat -> List Window
  | _, _, [] => []
  | i, o, n :: rest =>
      if lo - o < min (hi - o) n then
        ⟨i, lo - o, min (hi - o) n⟩ :: covering lo hi (i + 1) (o + n) rest
      else
        covering lo hi (i + 1) (o + n) rest

theorem covering_eq_nil
    (lengths : List Nat) :
    forall i o, hi ≤ o -> covering lo hi i o lengths = [] := by
  induction lengths with
  | nil =>
      intro i o _
      rfl
  | cons n rest ih =>
      intro i o ho
      rw [covering, if_neg (by omega)]
      exact ih (i + 1) (o + n) (by omega)

theorem mem_covering
    (lengths : List Nat) {i o : Nat} {w : Window} (hw : w ∈ covering lo hi i o lengths) :
    i ≤ w.index ∧ w.lo < w.hi ∧ exists n, lengths[w.index - i]? = some n ∧ w.hi ≤ n := by
  induction lengths generalizing i o w with
  | nil => cases hw
  | cons n rest ih =>
      have hrest : w ∈ covering lo hi (i + 1) (o + n) rest ->
          i ≤ w.index ∧ w.lo < w.hi ∧
            exists k, (n :: rest)[w.index - i]? = some k ∧ w.hi ≤ k := by
        intro hmem
        rcases ih hmem with ⟨hindex, hlt, k, hk, hle⟩
        refine ⟨by omega, hlt, k, ?_, hle⟩
        have hsucc : w.index - i = w.index - (i + 1) + 1 := by omega
        rw [hsucc, List.getElem?_cons_succ, hk]
      rw [covering] at hw
      split at hw
      · rename_i hlt
        rcases List.mem_cons.mp hw with rfl | hmem
        · exact ⟨Nat.le_refl i, hlt, n, by simp, Nat.min_le_right _ _⟩
        · exact hrest hmem
      · exact hrest hw

theorem pairwise_covering
    (lo hi : Nat) (lengths : List Nat) :
    forall i o, (covering lo hi i o lengths).Pairwise fun a b => a.index < b.index := by
  induction lengths with
  | nil =>
      intro i o
      exact List.Pairwise.nil
  | cons n rest ih =>
      intro i o
      rw [covering]
      split
      · refine List.pairwise_cons.mpr ⟨?_, ih (i + 1) (o + n)⟩
        intro w hw
        exact (mem_covering rest hw).1
      · exact ih (i + 1) (o + n)

theorem flatMap_covering
    (lo hi : Nat) (pieces : List (List A)) :
    forall i o, ((covering lo hi i o (pieces.map List.length)).flatMap fun w =>
        cut ((pieces[w.index - i]?).getD []) w.lo w.hi) =
      cut pieces.flatten (lo - o) (hi - o) := by
  induction pieces with
  | nil =>
      intro i o
      simp [covering, cut]
  | cons piece rest ih =>
      intro i o
      have hrest : ((covering lo hi (i + 1) (o + piece.length) (rest.map List.length)).flatMap
          fun w => cut (((piece :: rest)[w.index - i]?).getD []) w.lo w.hi) =
            cut rest.flatten (lo - o - piece.length) (hi - o - piece.length) := by
        rw [Nat.sub_sub, Nat.sub_sub, ← ih (i + 1) (o + piece.length)]
        refine List.flatMap_congr fun w hw => ?_
        have hindex := (mem_covering _ hw).1
        have hsucc : w.index - i = w.index - (i + 1) + 1 := by omega
        rw [hsucc, List.getElem?_cons_succ]
      rw [List.map_cons, covering, List.flatten_cons, cut_append]
      split
      · rw [List.flatMap_cons, hrest, Nat.sub_self, List.getElem?_cons_zero, Option.getD_some,
          cut_min_length]
      · rename_i hempty
        rw [hrest, ← cut_min_length piece, cut_eq_nil piece (by omega), List.nil_append]

end Slicing
