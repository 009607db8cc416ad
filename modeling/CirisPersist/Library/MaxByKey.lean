import Mathlib.Order.Lattice
import Mathlib.Data.List.Basic

/-!
# The element of largest key

`maxByKey` scans a list and keeps the element of largest key, the last one where
keys tie.  Its specification does not depend on the order of the list once the
keys are distinct.
-/

namespace MaxByKey

variable {A K : Type*} [LinearOrder K] (key : A -> K)

def maxByKey : List A -> Option A
  | [] => none
  | first :: rest =>
      some (rest.foldl (fun best a => if key best ≤ key a then a else best) first)

def IsMaxBy (l : List A) (m : A) : Prop :=
  m ∈ l ∧ forall a, a ∈ l -> key a ≤ key m

variable {key}

theorem isMaxBy_scan
    (better : A -> A -> Bool) (hwins : forall a b, better a b = true -> key b ≤ key a)
    (hloses : forall a b, better a b = false -> key a ≤ key b) (rest : List A) :
    forall first, IsMaxBy key (first :: rest)
      (rest.foldl (fun best a => if better a best then a else best) first) := by
  induction rest with
  | nil =>
      intro first
      exact ⟨List.mem_cons_self, by simp⟩
  | cons a rest ih =>
      intro first
      rw [List.foldl_cons]
      cases hbetter : better a first with
      | true =>
          rcases ih a with ⟨hmem, hmax⟩
          have ha := hmax a List.mem_cons_self
          refine ⟨List.mem_cons_of_mem _ hmem, ?_⟩
          exact List.forall_mem_cons.mpr ⟨le_trans (hwins a first hbetter) ha, hmax⟩
      | false =>
          rcases ih first with ⟨hmem, hmax⟩
          have hfirst := hmax first List.mem_cons_self
          have hrest := fun c hc => hmax c (List.mem_cons_of_mem first hc)
          refine ⟨List.cons_subset_cons first (List.subset_cons_self a rest) hmem, ?_⟩
          exact List.forall_mem_cons.mpr ⟨hfirst,
            List.forall_mem_cons.mpr ⟨le_trans (hloses a first hbetter) hfirst, hrest⟩⟩

variable {l : List A}

theorem isMaxBy_of_maxByKey
    {m : A} (h : maxByKey key l = some m) :
    IsMaxBy key l m := by
  cases l with
  | nil =>
      cases h
  | cons first rest =>
      cases h
      have hscan := isMaxBy_scan (fun a best => decide (key best ≤ key a))
        (fun a b h => of_decide_eq_true h)
        (fun a b h => le_of_lt (not_le.mp (of_decide_eq_false h))) rest first
      simpa only [decide_eq_true_eq] using hscan

theorem maxByKey_isSome_of_mem
    (key : A -> K) {a : A} (h : a ∈ l) :
    exists m, maxByKey key l = some m := by
  cases l with
  | nil =>
      cases h
  | cons first rest => exact ⟨_, rfl⟩

theorem maxByKey_eq_some_iff
    (hinj : forall a, a ∈ l -> forall b, b ∈ l -> key a = key b -> a = b) (m : A) :
    maxByKey key l = some m <-> IsMaxBy key l m := by
  constructor
  · exact isMaxBy_of_maxByKey
  · rintro ⟨hmem, hmax⟩
    rcases maxByKey_isSome_of_mem key hmem with ⟨m', hm'⟩
    rcases isMaxBy_of_maxByKey hm' with ⟨hmem', hmax'⟩
    rw [hm', hinj m' hmem' m hmem (le_antisymm (hmax m' hmem') (hmax' m hmem))]

theorem maxByKey_map
    {B : Type*} (key : B -> K) (f : A -> B) (l : List A) :
    maxByKey key (l.map f) = (maxByKey (fun a => key (f a)) l).map f := by
  cases l with
  | nil => rfl
  | cons first rest =>
      simp only [List.map_cons, maxByKey, Option.map_some, Option.some.injEq]
      refine List.foldl_map_hom ?_
      intro best a
      exact (apply_ite f _ _ _).symm

end MaxByKey
