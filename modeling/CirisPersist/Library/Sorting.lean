import CirisPersist.Library.MaxByKey
import Mathlib.Data.Finset.Sort
import Mathlib.Data.List.Sort
import Mathlib.Data.List.TakeWhile

/-!
# Sorting

Idioms of loops over vectors: the sorted list of the distinct members of a list, a
sort by distinct keys as a function of the members, the last element of a sort as the
element of largest key, and what a stable sort does with one more element.
-/

namespace Sorting

/-!
## Sorted and without repeats
-/

section Dedup

variable {A : Type*}

def dedupFrom [DecidableEq A] (last : A) : List A -> List A
  | [] => []
  | b :: rest => if b = last then dedupFrom last rest else b :: dedupFrom b rest

def dedup [DecidableEq A] : List A -> List A
  | [] => []
  | a :: rest => a :: dedupFrom a rest

variable [LinearOrder A]

def ascending (s : Finset A) : List A :=
  s.sort (· ≤ ·)

theorem mem_ascending_iff
    (s : Finset A) (a : A) :
    a ∈ ascending s <-> a ∈ s :=
  Finset.mem_sort (· ≤ ·)

def sortDedup (l : List A) : List A :=
  dedup (l.insertionSort (· ≤ ·))

theorem mem_cons_dedupFrom_iff
    (x : A) (l : List A) :
    forall last, x ∈ last :: dedupFrom last l <-> x ∈ last :: l := by
  induction l with
  | nil =>
      intro last
      exact Iff.rfl
  | cons b rest ih =>
      intro last
      by_cases hb : b = last
      · subst hb
        simp only [dedupFrom, if_true, ih, List.mem_cons]
        tauto
      · simp only [dedupFrom, if_neg hb, List.mem_cons]
        rw [← List.mem_cons, ih b, List.mem_cons]

theorem dedupFrom_pairwise
    (l : List A) :
    forall last, (last :: l).Pairwise (· ≤ ·) -> (last :: dedupFrom last l).Pairwise (· < ·) := by
  induction l with
  | nil =>
      intro last _
      exact List.pairwise_singleton _ _
  | cons b rest ih =>
      intro last hsorted
      have hlast := (List.pairwise_cons.mp hsorted).1
      have hrest := (List.pairwise_cons.mp hsorted).2
      by_cases hb : b = last
      · subst hb
        simp only [dedupFrom, if_true]
        exact ih b hrest
      · simp only [dedupFrom, if_neg hb]
        refine List.pairwise_cons.mpr ⟨?_, ih b hrest⟩
        intro x hx
        have hbelow : last < b := lt_of_le_of_ne (hlast b List.mem_cons_self) (Ne.symm hb)
        rcases List.mem_cons.mp ((mem_cons_dedupFrom_iff x rest b).mp hx) with rfl | hx
        · exact hbelow
        · exact lt_of_lt_of_le hbelow ((List.pairwise_cons.mp hrest).1 x hx)

theorem mem_sortDedup_iff
    (x : A) (l : List A) :
    x ∈ sortDedup l <-> x ∈ l := by
  have hsame : x ∈ l.insertionSort (· ≤ ·) <-> x ∈ l := List.mem_insertionSort (· ≤ ·)
  rw [← hsame]
  unfold sortDedup
  cases l.insertionSort (· ≤ ·) with
  | nil => exact Iff.rfl
  | cons a rest => exact mem_cons_dedupFrom_iff x rest a

theorem sortDedup_sorted
    (l : List A) :
    (sortDedup l).Pairwise (· < ·) := by
  have hsorted := List.pairwise_insertionSort (· ≤ ·) l
  unfold sortDedup
  cases hl : l.insertionSort (· ≤ ·) with
  | nil => exact List.Pairwise.nil
  | cons a rest =>
      rw [hl] at hsorted
      exact dedupFrom_pairwise rest a hsorted

theorem sortDedup_congr
    {l l' : List A} (h : forall x, x ∈ l <-> x ∈ l') :
    sortDedup l = sortDedup l' := by
  refine List.Pairwise.eq_of_mem_iff (sortDedup_sorted l) (sortDedup_sorted l') ?_
  intro x
  rw [mem_sortDedup_iff, mem_sortDedup_iff, h]

theorem length_sortDedup_le_of_subset
    {l l' : List A} (h : l ⊆ l') :
    (sortDedup l).length ≤ (sortDedup l').length := by
  have hnodup : (sortDedup l).Nodup := (sortDedup_sorted l).imp fun hlt => ne_of_lt hlt
  refine (List.subperm_of_subset hnodup fun x hx => ?_).length_le
  exact (mem_sortDedup_iff x l').mpr (h ((mem_sortDedup_iff x l).mp hx))

end Dedup

/-!
## The last element of a sort
-/

section Last

variable {A K : Type*} [LinearOrder K] {key : A -> K} {le : A -> A -> Prop} [DecidableRel le]

theorem pairwise_key_of_sort
    (hle : forall a b, le a b <-> key a ≤ key b) (l : List A) :
    (l.insertionSort le).Pairwise fun a b => key a ≤ key b := by
  have htotal : Std.Total le := ⟨fun a b => by
    rw [hle, hle]
    exact le_total _ _⟩
  have htrans : IsTrans A le := ⟨fun a b c hab hbc =>
    (hle a c).mpr (le_trans ((hle a b).mp hab) ((hle b c).mp hbc))⟩
  exact (List.pairwise_insertionSort le l).imp (fun h => (hle _ _).mp h)

variable {l l' : List A}

theorem insertionSort_eq_of_perm
    (hle : forall a b, le a b <-> key a ≤ key b)
    (hinj : forall a, a ∈ l -> forall b, b ∈ l -> key a = key b -> a = b) (h : l'.Perm l) :
    l'.insertionSort le = l.insertionSort le := by
  have hperm : (l'.insertionSort le).Perm (l.insertionSort le) :=
    ((List.perm_insertionSort le l').trans h).trans (List.perm_insertionSort le l).symm
  refine hperm.eq_of_pairwise ?_ (pairwise_key_of_sort hle l') (pairwise_key_of_sort hle l)
  intro a b ha hb hab hba
  have ha' : a ∈ l := h.mem_iff.mp ((List.mem_insertionSort le).mp ha)
  have hb' : b ∈ l := (List.mem_insertionSort le).mp hb
  exact hinj a ha' b hb' (le_antisymm hab hba)

theorem insertionSort_eq_of_ascending
    (hle : forall a b, le a b <-> key a ≤ key b) (hascending : l.Pairwise fun a b => key a < key b)
    (h : l'.Perm l) :
    l'.insertionSort le = l := by
  have hnodup : (l.map key).Nodup := List.pairwise_map.mpr (hascending.imp fun hlt => ne_of_lt hlt)
  rw [insertionSort_eq_of_perm hle (fun a ha b hb => List.inj_on_of_nodup_map hnodup ha hb) h]
  exact (hascending.imp fun hlt => (hle _ _).mpr (le_of_lt hlt)).insertionSort_eq

theorem eq_iff_ascending_of_perm
    (hsorted : l'.Pairwise fun a b => key a < key b) (hperm : l'.Perm l) :
    l' = l <-> l.Pairwise fun a b => key a < key b := by
  constructor
  · rintro rfl
    exact hsorted
  · intro h
    refine hperm.eq_of_pairwise ?_ hsorted h
    intro a b _ _ hab hba
    exact absurd hab (lt_asymm hba)

theorem isMaxBy_of_getLast_pairwise
    {m : A} (hsorted : l.Pairwise fun a b => key a ≤ key b) (h : l.getLast? = some m) :
    MaxByKey.IsMaxBy key l m := by
  rcases List.getLast?_eq_some_iff.mp h with ⟨init, rfl⟩
  rw [List.pairwise_append] at hsorted
  refine ⟨by simp, ?_⟩
  intro a ha
  rcases List.mem_append.mp ha with hinit | hlast
  · exact hsorted.2.2 a hinit m (List.mem_singleton_self m)
  · rw [List.mem_singleton.mp hlast]

theorem isMaxBy_of_getLast_sort
    (hle : forall a b, le a b <-> key a ≤ key b) {m : A}
    (h : (l.insertionSort le).getLast? = some m) :
    MaxByKey.IsMaxBy key l m := by
  have hmem : forall a, a ∈ l.insertionSort le <-> a ∈ l := fun a => List.mem_insertionSort le
  rcases isMaxBy_of_getLast_pairwise (pairwise_key_of_sort hle l) h with ⟨hm, hmax⟩
  exact ⟨(hmem m).mp hm, fun a ha => hmax a ((hmem a).mpr ha)⟩

theorem getLast_sort_eq_none_iff :
    (l.insertionSort le).getLast? = none <-> l = [] := by
  rw [List.getLast?_eq_none_iff, ← List.length_eq_zero_iff, List.length_insertionSort,
    List.length_eq_zero_iff]

theorem getLast_sort_eq_some_iff
    (hle : forall a b, le a b <-> key a ≤ key b)
    (hinj : forall a, a ∈ l -> forall b, b ∈ l -> key a = key b -> a = b) (m : A) :
    (l.insertionSort le).getLast? = some m <-> MaxByKey.IsMaxBy key l m := by
  constructor
  · exact isMaxBy_of_getLast_sort hle
  · rintro ⟨hmem, hmax⟩
    cases hlast : (l.insertionSort le).getLast? with
    | none =>
        rw [getLast_sort_eq_none_iff.mp hlast] at hmem
        cases hmem
    | some m' =>
        rcases isMaxBy_of_getLast_sort hle hlast with ⟨hmem', hmax'⟩
        rw [hinj m' hmem' m hmem (le_antisymm (hmax m' hmem') (hmax' m hmem))]

end Last

/-!
## Stability
-/

section Stable

variable {A K : Type*} [LinearOrder K] {key : A -> K} {le : A -> A -> Prop} [DecidableRel le]

theorem orderedInsert_append_of_le
    {x : A} {l' : List A} (h : forall b, b ∈ l' -> le x b) (l : List A) :
    (l ++ l').orderedInsert le x = l.orderedInsert le x ++ l' := by
  induction l with
  | nil =>
      cases l' with
      | nil => rfl
      | cons b rest => exact List.orderedInsert_cons_of_le le rest (h b List.mem_cons_self)
  | cons a l ih =>
      rw [List.cons_append, List.orderedInsert_cons, List.orderedInsert_cons, ih]
      split
      · rfl
      · rfl

theorem orderedInsert_append_of_not_le
    {x : A} (l' l : List A) (h : forall a, a ∈ l -> ¬ le x a) :
    (l ++ l').orderedInsert le x = l ++ l'.orderedInsert le x := by
  induction l with
  | nil => rfl
  | cons a l ih =>
      rw [List.cons_append, List.orderedInsert_cons, if_neg (h a List.mem_cons_self),
        ih fun b hb => h b (List.mem_cons_of_mem a hb), List.cons_append]

theorem insertionSort_eq_append
    (hle : forall a b, le a b <-> key a ≤ key b) (p : A -> Bool) (l : List A)
    (hbelow : forall a, a ∈ l -> forall b, b ∈ l -> p a = true -> p b = false -> key a < key b) :
    l.insertionSort le =
      (l.filter p).insertionSort le ++ (l.filter fun a => !p a).insertionSort le := by
  induction l with
  | nil => rfl
  | cons x l ih =>
      have htail := ih fun a ha b hb =>
        hbelow a (List.mem_cons_of_mem x ha) b (List.mem_cons_of_mem x hb)
      rw [List.insertionSort_cons, htail]
      cases hp : p x with
      | true =>
          rw [List.filter_cons_of_pos hp, List.filter_cons_of_neg (by simp [hp]),
            List.insertionSort_cons, orderedInsert_append_of_le]
          intro b hb
          rcases List.mem_filter.mp ((List.mem_insertionSort le).mp hb) with ⟨hmem, hnot⟩
          apply (hle x b).mpr
          apply le_of_lt
          exact hbelow x List.mem_cons_self b (List.mem_cons_of_mem x hmem) hp (by simpa using hnot)
      | false =>
          rw [List.filter_cons_of_neg (by simp [hp]), List.filter_cons_of_pos (by simp [hp]),
            List.insertionSort_cons, orderedInsert_append_of_not_le]
          intro a ha hxa
          rcases List.mem_filter.mp ((List.mem_insertionSort le).mp ha) with ⟨hmem, hpos⟩
          have hlt := hbelow a (List.mem_cons_of_mem x hmem) x List.mem_cons_self hpos hp
          exact absurd hlt (not_lt.mpr ((hle x a).mp hxa))

theorem exists_split_insertionSort_cons
    (hle : forall a b, le a b <-> key a ≤ key b) (e : A) (l : List A) :
    exists before after, (e :: l).insertionSort le = before ++ e :: after ∧
      l.insertionSort le = before ++ after ∧
      (forall a, a ∈ before -> key a ≤ key e) ∧ forall b, b ∈ after -> key e ≤ key b := by
  refine ⟨(l.insertionSort le).takeWhile fun b => decide ¬ le e b,
    (l.insertionSort le).dropWhile fun b => decide ¬ le e b, ?_, ?_, ?_, ?_⟩
  · rw [List.insertionSort_cons, List.orderedInsert_eq_take_drop]
  · rw [List.takeWhile_append_dropWhile]
  · intro a ha
    have hnot := List.mem_takeWhile_imp ha
    rw [decide_eq_true_eq, hle, not_le] at hnot
    exact le_of_lt hnot
  · intro b hb
    have hsorted := (pairwise_key_of_sort hle l).sublist
      (List.dropWhile_sublist fun b => decide ¬ le e b)
    cases hdrop : (l.insertionSort le).dropWhile fun b => decide ¬ le e b with
    | nil =>
        rw [hdrop] at hb
        cases hb
    | cons first rest =>
        rw [hdrop] at hb hsorted
        have hfirst : key e ≤ key first := by
          have hhead := List.head?_dropWhile_not (fun b => decide ¬ le e b) (l.insertionSort le)
          rw [hdrop, List.head?_cons] at hhead
          simpa [hle] using hhead
        rcases List.mem_cons.mp hb with rfl | hrest
        · exact hfirst
        · exact le_trans hfirst ((List.pairwise_cons.mp hsorted).1 b hrest)

theorem exists_split_insertionSort
    (hle : forall a b, le a b <-> key a ≤ key b) (e : A) (post pre : List A) :
    exists before after, (pre ++ e :: post).insertionSort le = before ++ e :: after ∧
      (pre ++ post).insertionSort le = before ++ after ∧
      (forall a, a ∈ before -> key a ≤ key e) ∧ forall b, b ∈ after -> key e ≤ key b := by
  induction pre with
  | nil => exact exists_split_insertionSort_cons hle e post
  | cons x pre ih =>
      rcases ih with ⟨before, after, hwith, hwithout, hbefore, hafter⟩
      by_cases hx : key x ≤ key e
      · -- the new element stands among those before
        refine ⟨before.orderedInsert le x, after, ?_, ?_, ?_, hafter⟩
        · rw [List.cons_append, List.insertionSort_cons, hwith, orderedInsert_append_of_le]
          intro b hb
          rcases List.mem_cons.mp hb with rfl | hb
          · exact (hle x b).mpr hx
          · exact (hle x b).mpr (le_trans hx (hafter b hb))
        · rw [List.cons_append, List.insertionSort_cons, hwithout, orderedInsert_append_of_le]
          intro b hb
          exact (hle x b).mpr (le_trans hx (hafter b hb))
        · intro a ha
          rcases (List.mem_orderedInsert le).mp ha with rfl | ha
          · exact hx
          · exact hbefore a ha
      · have hnot : forall a, a ∈ before -> ¬ le x a := by
          intro a ha hxa
          exact hx (le_trans ((hle x a).mp hxa) (hbefore a ha))
        refine ⟨before, after.orderedInsert le x, ?_, ?_, hbefore, ?_⟩
        · rw [List.cons_append, List.insertionSort_cons, hwith,
            orderedInsert_append_of_not_le _ _ hnot, List.orderedInsert_cons,
            if_neg fun h => hx ((hle x e).mp h)]
        · rw [List.cons_append, List.insertionSort_cons, hwithout,
            orderedInsert_append_of_not_le _ _ hnot]
        · intro b hb
          rcases (List.mem_orderedInsert le).mp hb with rfl | hb
          · exact le_of_lt (not_le.mp hx)
          · exact hafter b hb

end Stable

end Sorting
