import Mathlib.Algebra.BigOperators.Group.List.Basic
import Mathlib.Data.Finset.Card
import Mathlib.Data.List.Induction
import Mathlib.Data.List.Nodup
import Mathlib.Data.List.Pairwise
import Mathlib.Data.List.TakeWhile
import Mathlib.Order.Lattice
import Std.Data.TreeMap.Lemmas

/-!
# Grouping by a key

Idioms of loops that collect rows by a key: the runs of equal keys in a sorted
list, the ordered map that a loop fills entry by entry, and sums and pairs taken group
by group.
-/

namespace Grouping

/-!
## Runs
-/

section Runs

variable {A K : Type*}

def runs [DecidableEq K] (key : A -> K) : List A -> List (List A)
  | [] => []
  | a :: rest =>
      match runs key rest with
      | (b :: run) :: later =>
          if key a = key b then (a :: b :: run) :: later else [a] :: (b :: run) :: later
      | later => [a] :: later

theorem runs_cons
    [DecidableEq K] (key : A -> K) (a : A) (rest : List A) :
    runs key (a :: rest) =
      (a :: rest.takeWhile fun b => key b = key a) ::
        runs key (rest.dropWhile fun b => key b = key a) := by
  induction rest generalizing a with
  | nil => rfl
  | cons b rest ih =>
      rw [runs, ih b]
      by_cases hkey : key a = key b
      · simp [hkey]
      · have hkey' : Not (key b = key a) := fun h => hkey h.symm
        simp [hkey, hkey', ih b]

theorem runs_induction
    [DecidableEq K] (key : A -> K) {P : List A -> Prop} (hnil : P [])
    (hcons : forall a rest, P (rest.dropWhile fun b => key b = key a) -> P (a :: rest))
    (l : List A) :
    P l := by
  induction hn : l.length using Nat.strong_induction_on generalizing l with
  | _ n ih =>
      cases l with
      | nil => exact hnil
      | cons a rest =>
          refine hcons a rest (ih _ ?_ _ rfl)
          rw [← hn, List.length_cons]
          exact Nat.lt_succ_of_le (List.dropWhile_suffix _).length_le

variable [DecidableEq K] {key : A -> K}

theorem flatten_runs
    (key : A -> K) (l : List A) :
    (runs key l).flatten = l := by
  induction l using runs_induction key with
  | hnil => rfl
  | hcons a rest ih =>
      rw [runs_cons, List.flatten_cons, ih, List.cons_append, List.takeWhile_append_dropWhile]

variable {g l : List A}

theorem exists_cons_of_mem_runs
    (hg : g ∈ runs key l) :
    exists a rest, g = a :: rest ∧ forall b, b ∈ g -> key b = key a := by
  induction l using runs_induction key with
  | hnil => cases hg
  | hcons a rest ih =>
      rw [runs_cons] at hg
      rcases List.mem_cons.mp hg with rfl | hg
      · refine ⟨a, _, rfl, ?_⟩
        intro b hb
        rcases List.mem_cons.mp hb with rfl | hb
        · rfl
        · simpa using List.mem_takeWhile_imp hb
      · exact ih hg

theorem mem_runs_of_mem
    (key : A -> K) {a : A} (ha : a ∈ l) :
    exists g, g ∈ runs key l ∧ a ∈ g := by
  rw [← flatten_runs key l] at ha
  exact List.mem_flatten.mp ha

theorem mem_of_mem_run
    {a : A} (hg : g ∈ runs key l) (ha : a ∈ g) :
    a ∈ l := by
  rw [← flatten_runs key l]
  exact List.mem_flatten.mpr ⟨g, hg, ha⟩

theorem length_run_eq_one
    (hnodup : (l.map key).Nodup) (hg : g ∈ runs key l) :
    g.length = 1 := by
  rcases exists_cons_of_mem_runs hg with ⟨a, rest, rfl, hkey⟩
  cases rest with
  | nil => rfl
  | cons b rest =>
      have hsub : (a :: b :: rest).Sublist l := by
        rw [← flatten_runs key l]
        exact List.sublist_flatten_of_mem hg
      have hdistinct := hnodup.sublist (hsub.map key)
      have hsame : key b = key a := hkey b (List.mem_cons_of_mem _ List.mem_cons_self)
      simp [hsame] at hdistinct

end Runs

section Sorted

variable {A K : Type*} [LinearOrder K] {key : A -> K}

theorem lt_of_mem_dropWhile
    {a y : A} {rest : List A} (hsorted : (a :: rest).Pairwise fun a b => key a ≤ key b)
    (hy : y ∈ rest.dropWhile fun b => key b = key a) :
    key a < key y := by
  induction rest with
  | nil => cases hy
  | cons b rest ih =>
      rcases List.pairwise_cons.mp hsorted with ⟨hfirst, hrest⟩
      by_cases hkey : key b = key a
      · rw [List.dropWhile_cons_of_pos (by simpa using hkey)] at hy
        exact ih (hsorted.sublist ((List.sublist_cons_self b rest).cons_cons a)) hy
      · rw [List.dropWhile_cons_of_neg (by simpa using hkey)] at hy
        have hlt : key a < key b := lt_of_le_of_ne (hfirst b List.mem_cons_self) (Ne.symm hkey)
        rcases List.mem_cons.mp hy with rfl | hy
        · exact hlt
        · exact lt_of_lt_of_le hlt ((List.pairwise_cons.mp hrest).1 y hy)

theorem runs_pairwise
    {l : List A} (hsorted : l.Pairwise fun a b => key a ≤ key b) :
    (runs key l).Pairwise fun g g' => forall x, x ∈ g -> forall y, y ∈ g' -> key x < key y := by
  induction l using runs_induction key with
  | hnil => exact List.Pairwise.nil
  | hcons a rest ih =>
      rw [runs_cons]
      have hrest := (List.pairwise_cons.mp hsorted).2
      refine List.pairwise_cons.mpr ⟨?_, ih (hrest.sublist (List.dropWhile_sublist _))⟩
      intro g hg x hx y hy
      have hkey : key x = key a := by
        rcases List.mem_cons.mp hx with rfl | hx
        · rfl
        · simpa using List.mem_takeWhile_imp hx
      have hy' : y ∈ rest.dropWhile fun b => key b = key a := mem_of_mem_run hg hy
      rw [hkey]
      exact lt_of_mem_dropWhile hsorted hy'

theorem mem_run_of_key_eq
    {l g : List A} {a b : A} (hsorted : l.Pairwise fun a b => key a ≤ key b) (hg : g ∈ runs key l)
    (ha : a ∈ g) (hb : b ∈ l) (hkey : key b = key a) :
    b ∈ g := by
  rcases mem_runs_of_mem key hb with ⟨g', hg', hb'⟩
  have hdistinct : (runs key l).Pairwise fun g g' =>
      forall x, x ∈ g -> forall y, y ∈ g' -> key x ≠ key y :=
    (runs_pairwise hsorted).imp fun hlt x hx y hy => ne_of_lt (hlt x hx y hy)
  have hsymm : Std.Symm fun g g' : List A =>
      forall x, x ∈ g -> forall y, y ∈ g' -> key x ≠ key y :=
    ⟨fun _ _ hne x hx y hy heq => hne y hy x hx heq.symm⟩
  by_cases hsame : g' = g
  · exact hsame ▸ hb'
  · exact absurd hkey (hdistinct.forall hg' hg hsame b hb' a ha)

end Sorted

/-!
## Maps filled by a loop
-/

section Maps

variable {A K V : Type*} [Ord K]

/-- The loop over `map.entry(key(a))`: each row replaces the value at its key by one
computed from it. -/
def upsertAll (key : A -> K) (step : Option V -> A -> V) (l : List A) : Std.TreeMap K V :=
  l.foldl (fun m a => m.insert (key a) (step m[key a]? a)) ∅

variable [Std.TransOrd K] [Std.LawfulEqOrd K] [DecidableEq K] (key : A -> K)

theorem getElem?_foldl_upsert
    (step : Option V -> A -> V) (k : K) (l : List A) (m : Std.TreeMap K V) :
    (l.foldl (fun m a => m.insert (key a) (step m[key a]? a)) m)[k]? =
      (l.filter fun a => key a = k).foldl (fun v a => some (step v a)) m[k]? := by
  induction l generalizing m with
  | nil => rfl
  | cons a rest ih =>
      rw [List.foldl_cons, ih, Std.TreeMap.getElem?_insert, List.filter_cons]
      by_cases hkey : key a = k
      · subst hkey
        simp
      · simp [hkey]

theorem getElem?_upsertAll
    (step : Option V -> A -> V) (l : List A) (k : K) :
    (upsertAll key step l)[k]? =
      (l.filter fun a => key a = k).foldl (fun v a => some (step v a)) none := by
  rw [upsertAll, getElem?_foldl_upsert]
  simp

theorem getElem?_upsertAll_last
    (l : List A) (k : K) :
    (upsertAll key (fun _ a => a) l)[k]? = (l.filter fun a => key a = k).getLast? := by
  rw [getElem?_upsertAll]
  induction l.filter (fun a => key a = k) using List.reverseRecOn with
  | nil => rfl
  | append_singleton l a _ => simp

end Maps

/-!
## Counting the entries of a map
-/

section Entries

variable {K V : Type*} [Ord K] (t : Std.TreeMap K V)

theorem values_eq_map_toList :
    t.values = t.toList.map Prod.snd := by
  have hfold : t.values = t.foldr (fun _ v l => v :: l) [] := rfl
  rw [hfold, Std.TreeMap.foldr_eq_foldr_toList]
  exact List.map_eq_foldr.symm

theorem length_values :
    t.values.length = t.size := by
  rw [values_eq_map_toList, List.length_map, Std.TreeMap.length_toList]

theorem exists_card_eq_countP_values
    [Std.TransOrd K] [Std.LawfulEqOrd K] (p : V -> Bool) :
    exists s : Finset K, s.card = t.values.countP p ∧
      forall k, k ∈ s <-> exists v, t[k]? = some v ∧ p v = true := by
  classical
  have hnodup : ((t.toList.filter fun e => p e.2).map Prod.fst).Nodup := by
    have hkeys : (t.toList.map Prod.fst).Nodup := by
      rw [Std.TreeMap.map_fst_toList_eq_keys]
      exact Std.TreeMap.nodup_keys
    exact hkeys.sublist (List.filter_sublist.map _)
  refine ⟨((t.toList.filter fun e => p e.2).map Prod.fst).toFinset, ?_, ?_⟩
  · rw [List.toFinset_card_of_nodup hnodup, List.length_map, values_eq_map_toList,
      List.countP_map, List.countP_eq_length_filter]
    rfl
  · intro k
    simp only [List.mem_toFinset, List.mem_map, List.mem_filter, Prod.exists,
      Std.TreeMap.mem_toList_iff_getElem?_eq_some]
    constructor
    · rintro ⟨k', v, ⟨hv, hp⟩, rfl⟩
      exact ⟨v, hv, hp⟩
    · rintro ⟨v, hv, hp⟩
      exact ⟨k, v, ⟨hv, hp⟩, rfl⟩

end Entries

/-!
## Sums by group
-/

theorem sum_map_filter_key
    {A K M : Type*} [DecidableEq K] [AddCommMonoid M] (key : A -> K) (f : A -> M) {keys : List K}
    {l : List A} (hnodup : keys.Nodup) (hcover : forall a, a ∈ l -> key a ∈ keys) :
    (keys.map fun k => ((l.filter fun a => key a = k).map f).sum).sum = (l.map f).sum := by
  induction l with
  | nil => simp
  | cons a rest ih =>
      have hrest := ih fun b hb => hcover b (List.mem_cons_of_mem _ hb)
      have hsplit : forall k, (((a :: rest).filter fun b => key b = k).map f).sum =
          (if key a = k then f a else 0) + ((rest.filter fun b => key b = k).map f).sum := by
        intro k
        by_cases hkey : key a = k
        · simp [hkey]
        · simp [hkey]
      have hself : (keys.map fun k => if key a = k then f a else 0).sum = f a := by
        rw [List.sum_map_eq_nsmul_single (key a) _ fun k hne _ => if_neg (Ne.symm hne),
          List.count_eq_one_of_mem hnodup (hcover a List.mem_cons_self), if_pos rfl, one_nsmul]
      simp only [hsplit]
      rw [List.sum_map_add, hself, hrest, List.map_cons, List.sum_cons]

/-!
## Pairs of a group
-/

theorem pairwise_of_groups
    {A K : Type*} [DecidableEq K] {key : A -> K} {R : A -> A -> Prop} {l : List A}
    (h : forall k, (l.filter fun a => key a = k).Pairwise R) :
    l.Pairwise fun a b => key a = key b -> R a b := by
  induction l with
  | nil => exact List.Pairwise.nil
  | cons a rest ih =>
      refine List.pairwise_cons.mpr ⟨?_, ih ?_⟩
      · intro b hb hkey
        have hgroup := h (key a)
        rw [List.filter_cons_of_pos (by simp), List.pairwise_cons] at hgroup
        exact hgroup.1 b (List.mem_filter.mpr ⟨hb, by simp [hkey]⟩)
      · intro k
        exact (h k).sublist ((List.sublist_cons_self a rest).filter _)

end Grouping
