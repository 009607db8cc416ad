import CirisPersist.Federation.Transform.Strip

/-!
# Redaction by a pipeline

What a grant asks for is a set of positions of the envelope: everything its paths
locate is to be gone.  A pipeline strips one path after the other, each in what the
stages before it have left.  Removing an element moves the later ones of its array
down, so a stage that addresses by number may look in the wrong place.

`Json.prune` removes all positions at once.  The pipeline agrees with it, in every
order, when no stage takes an element by number out of an array in which another
stage addresses that element or a later one by number.  Arrays that a listed path
removes as a whole, or empties, need not be looked at.
-/

namespace CirisPersist

/-!
## Positions
-/

namespace Json

inductive Step where
  | key (k : String)
  | index (i : Nat)
deriving DecidableEq

inductive At : Json -> List Step -> Json -> Prop where
  | here (v : Json) : At v [] v
  | key {k : String} {fields : List (String × Json)} {x w : Json} {a : List Step} :
      (k, x) ∈ fields -> At x a w -> At (.obj fields) (.key k :: a) w
  | index {i : Nat} {items : List Json} {x w : Json} {a : List Step} :
      items[i]? = some x -> At x a w -> At (.arr items) (.index i :: a) w

mutual

/-- The value without what stands at the positions, all removed at once. -/
def prune (hit : List Step -> Bool) : Json -> Json
  | .obj fields => .obj (pruneFields hit fields)
  | .arr items => .arr (pruneItems hit 0 items)
  | v => v

def pruneFields (hit : List Step -> Bool) : List (String × Json) -> List (String × Json)
  | [] => []
  | (k, x) :: rest =>
      if hit [.key k] then
        pruneFields hit rest
      else
        (k, prune (fun a => hit (.key k :: a)) x) :: pruneFields hit rest

def pruneItems (hit : List Step -> Bool) : Nat -> List Json -> List Json
  | _, [] => []
  | i, x :: rest =>
      if hit [.index i] then
        pruneItems hit (i + 1) rest
      else
        prune (fun a => hit (.index i :: a)) x :: pruneItems hit (i + 1) rest

end

theorem pruneFields_eq_self
    {hit : List Step -> Bool} (hnone : forall a, hit a = false) {fields : List (String × Json)}
    (hfields : forall f, f ∈ fields ->
      forall hit : List Step -> Bool, (forall a, hit a = false) -> prune hit f.2 = f.2) :
    pruneFields hit fields = fields := by
  induction fields with
  | nil => rfl
  | cons f rest ih =>
      rw [pruneFields, hnone, if_neg Bool.false_ne_true,
        hfields f List.mem_cons_self _ (fun a => hnone _),
        ih fun f hf => hfields f (List.mem_cons_of_mem _ hf)]

theorem pruneItems_eq_self
    {hit : List Step -> Bool} (hnone : forall a, hit a = false) {items : List Json}
    (hitems : forall x, x ∈ items ->
      forall hit : List Step -> Bool, (forall a, hit a = false) -> prune hit x = x) (i : Nat) :
    pruneItems hit i items = items := by
  induction items generalizing i with
  | nil => rfl
  | cons x rest ih =>
      rw [pruneItems, hnone, if_neg Bool.false_ne_true,
        hitems x List.mem_cons_self _ (fun a => hnone _),
        ih (fun x hx => hitems x (List.mem_cons_of_mem _ hx))]

theorem prune_scalar
    {v : Json} (harr : forall items, v ≠ .arr items) (hobj : forall fields, v ≠ .obj fields)
    (hit : List Step -> Bool) :
    prune hit v = v := by
  cases v with
  | arr items => exact absurd rfl (harr items)
  | obj fields => exact absurd rfl (hobj fields)
  | _ => rfl

theorem prune_eq_self
    (v : Json) (hit : List Step -> Bool) (hnone : forall a, hit a = false) :
    prune hit v = v := by
  induction v using Json.induct generalizing hit with
  | hscalar v harr hobj => exact prune_scalar harr hobj hit
  | harr items ih => rw [prune, pruneItems_eq_self hnone ih]
  | hobj fields ih => rw [prune, pruneFields_eq_self hnone ih]

end Json

namespace Federation
namespace Transform

open Json

/-!
## What a path locates
-/

def segmentMatches (segment : String) : Step -> Bool
  | .key k => segment == wildcard || segment == k
  | .index i => segment == wildcard || arrayIndex segment == some i

def locates : List String -> List Step -> Bool
  | [], [] => true
  | s :: segments, a :: position => segmentMatches s a && locates segments position
  | _, _ => false

def locatedBy (paths : List (List String)) (position : List Step) : Bool :=
  paths.any fun p => locates p position

def residual (a : Step) : List String -> Option (List String)
  | [] => none
  | s :: segments => if segmentMatches s a then some segments else none

theorem locates_cons_step
    (p : List String) (a : Step) (position : List Step) :
    locates p (a :: position) = (residual a p).any fun p' => locates p' position := by
  cases p with
  | nil => rfl
  | cons s segments =>
      simp only [locates, residual]
      cases segmentMatches s a with
      | false => rfl
      | true => rfl

theorem locatedBy_cons_step
    (paths : List (List String)) (a : Step) (position : List Step) :
    locatedBy paths (a :: position) = locatedBy (paths.filterMap (residual a)) position := by
  induction paths with
  | nil => rfl
  | cons p rest ih =>
      simp only [locatedBy, List.any_cons] at ih ⊢
      rw [ih, locates_cons_step, List.filterMap_cons]
      cases residual a p with
      | none => rfl
      | some p' => rfl

/-!
## One stage removes what its path locates
-/

theorem arrayIndex_wildcard :
    arrayIndex wildcard = none := by
  decide

variable {s : String}

theorem segmentMatches_key
    (hs : s ≠ wildcard) (k : String) :
    segmentMatches s (.key k) = decide (k = s) := by
  have hstar : (s == wildcard) = false := by
    simpa using hs
  rw [segmentMatches, hstar, Bool.false_or, beq_eq_decide]
  exact decide_eq_decide.mpr eq_comm

theorem segmentMatches_index
    (hs : s ≠ wildcard) (i : Nat) :
    segmentMatches s (.index i) = (arrayIndex s == some i) := by
  simp [segmentMatches, hs]

theorem prune_locates_step
    (s : String) (p : List String) (a : Step) (x : Json) :
    prune (fun position => locates (s :: p) (a :: position)) x =
      if segmentMatches s a then prune (locates p) x else x := by
  cases hmatch : segmentMatches s a with
  | true =>
      rw [if_pos rfl]
      congr 1
      funext position
      rw [locates, hmatch, Bool.true_and]
  | false =>
      rw [if_neg Bool.false_ne_true]
      refine prune_eq_self x _ fun position => ?_
      rw [locates, hmatch, Bool.false_and]

theorem pruneFields_terminal
    (s : String) (fields : List (String × Json)) :
    pruneFields (locates [s]) fields = fields.filter fun f => !segmentMatches s (.key f.1) := by
  induction fields with
  | nil => rfl
  | cons f rest ih =>
      rw [pruneFields, prune_locates_step, ih]
      cases hmatch : segmentMatches s (.key f.1) with
      | true => simp [locates, hmatch]
      | false => simp [locates, hmatch]

theorem pruneFields_descend
    (s second : String) (rest : List String) (fields : List (String × Json)) :
    pruneFields (locates (s :: second :: rest)) fields =
      fields.map fun f => (f.1, if segmentMatches s (.key f.1) then
        prune (locates (second :: rest)) f.2 else f.2) := by
  induction fields with
  | nil => rfl
  | cons f others ih =>
      rw [pruneFields, prune_locates_step, ih]
      simp [locates]

variable {i : Nat}

/-- A path through a number acts at one index: the scan that has come to `i` finds it `n - i`
further on.  The operation is to act on the head as the rest of the path does. -/
theorem pruneItems_at_number
    (hs : s ≠ wildcard) (segments : List String) (op : List Json -> Nat -> List Json)
    (hnil : forall n, op [] n = [])
    (hzero : forall x rest, op (x :: rest) 0 =
      if locates segments [] then rest else prune (locates segments) x :: rest)
    (hsucc : forall x rest n, op (x :: rest) (n + 1) = x :: op rest n) (items : List Json) :
    forall i, pruneItems (locates (s :: segments)) i items =
      match arrayIndex s with
      | some n => if i ≤ n then op items (n - i) else items
      | none => items := by
  induction items with
  | nil =>
      intro i
      cases arrayIndex s <;> simp [pruneItems, hnil]
  | cons x rest ih =>
      intro i
      rw [pruneItems, prune_locates_step, ih (i + 1)]
      simp only [locates, segmentMatches_index hs]
      cases hindex : arrayIndex s with
      | none => simp
      | some n =>
          rcases Nat.lt_trichotomy n i with hlt | rfl | hgt
          · have hne : n ≠ i := by omega
            simp [hne, show Not (i ≤ n) by omega, show Not (i + 1 ≤ n) by omega]
          · simp [hzero]
          · have hne : n ≠ i := by omega
            have hsub : n - i = n - (i + 1) + 1 := by omega
            simp [hne, hsub, hsucc, hgt.le, Nat.succ_le_of_lt hgt]

theorem pruneItems_wildcard
    (items : List Json) (i : Nat) :
    pruneItems (locates [wildcard]) i items = [] := by
  induction items generalizing i with
  | nil => rfl
  | cons x rest ih =>
      rw [pruneItems, ih]
      simp [locates, segmentMatches]

theorem pruneItems_wildcard_descend
    (second : String) (segments : List String) (items : List Json) (i : Nat) :
    pruneItems (locates (wildcard :: second :: segments)) i items =
      items.map (prune (locates (second :: segments))) := by
  induction items generalizing i with
  | nil => rfl
  | cons x rest ih =>
      rw [pruneItems, prune_locates_step, ih]
      simp [locates, segmentMatches]

theorem stripTerminal_eq_prune
    (s : String) (v : Json) :
    stripTerminal s v = prune (locates [s]) v := by
  by_cases hs : s = wildcard
  · subst hs
    cases v with
    | obj fields => simp [stripTerminal, prune, pruneFields_terminal, segmentMatches]
    | arr items => simp [stripTerminal, prune, pruneItems_wildcard]
    | _ => rfl
  · cases v with
    | obj fields =>
        simp [stripTerminal, prune, pruneFields_terminal, segmentMatches_key hs, hs]
    | arr items =>
        rw [prune, pruneItems_at_number hs [] List.eraseIdx (fun _ => rfl) (fun _ _ => rfl)
          (fun _ _ _ => rfl)]
        simp only [stripTerminal, hs, if_false]
        cases arrayIndex s <;> simp
    | _ => rfl

theorem descend_eq_prune
    (s second : String) (segments : List String) (v : Json) :
    descend s (prune (locates (second :: segments))) v =
      prune (locates (s :: second :: segments)) v := by
  by_cases hs : s = wildcard
  · subst hs
    cases v with
    | obj fields => simp [descend, prune, pruneFields_descend, segmentMatches]
    | arr items => simp [descend, prune, pruneItems_wildcard_descend]
    | _ => rfl
  · cases v with
    | obj fields => simp [descend, prune, pruneFields_descend, segmentMatches_key hs, hs]
    | arr items =>
        rw [prune, pruneItems_at_number hs (second :: segments)
          (fun items k => items.modify k (prune (locates (second :: segments))))
          (fun _ => List.modify_nil ..) (fun _ _ => rfl) (fun _ _ _ => List.modify_succ_cons ..)]
        simp only [descend, hs, if_false]
        cases arrayIndex s <;> simp
    | _ => rfl

theorem stripFieldRecursive_eq_prune
    (segments : List String) (hsegments : segments ≠ []) (v : Json) :
    stripFieldRecursive segments v = prune (locates segments) v := by
  induction segments generalizing v with
  | nil => exact absurd rfl hsegments
  | cons s rest ih =>
      cases rest with
      | nil => exact stripTerminal_eq_prune s v
      | cons second rest =>
          have hnext : stripFieldRecursive (second :: rest) =
              prune (locates (second :: rest)) :=
            funext fun x => ih (List.cons_ne_nil _ _) x
          rw [stripFieldRecursive, hnext, descend_eq_prune]

/-!
## Stages that keep out of each other's way
-/

/-- A listed path removes the value at the position, or one it stands in, or all its
elements. -/
def Removed (paths : List (List String)) (position : List Step) : Prop :=
  (exists b, b <+: position ∧ locatedBy paths b = true) ∨
    exists pre, pre ++ [wildcard] ∈ paths ∧ locates pre position = true

/-- Where the first path takes element `i` by number out of an array that is not removed
anyway, the second one addresses by number at most the elements before it. -/
def Apart (paths : List (List String)) (v : Json) (p q : List String) : Prop :=
  forall (pre pre' rest : List String) (s t : String) (a : List Step) (items : List Json)
    (i j : Nat), p = pre ++ [s] -> q = pre' ++ t :: rest ->
    locates pre a = true -> locates pre' a = true -> At v a (.arr items) -> ¬ Removed paths a ->
    arrayIndex s = some i -> arrayIndex t = some j -> i < items.length -> j < items.length ->
    j < i

variable {p : List String} {a : Step}

theorem residual_eq_some_iff
    {p' : List String} :
    residual a p = some p' <-> exists s, p = s :: p' ∧ segmentMatches s a = true := by
  cases p with
  | nil => simp [residual]
  | cons s segments =>
      simp only [residual, Option.ite_none_right_eq_some, Option.some.injEq, List.cons.injEq]
      constructor
      · rintro ⟨hmatch, rfl⟩
        exact ⟨s, ⟨rfl, rfl⟩, hmatch⟩
      · rintro ⟨s', ⟨rfl, rfl⟩, hmatch⟩
        exact ⟨hmatch, rfl⟩

variable {q : List String} {v : Json}

variable {paths : List (List String)}

theorem not_locatedBy_root
    (hnil : [] ∉ paths) :
    ¬ locatedBy paths [] = true := by
  intro hlocated
  rcases List.any_eq_true.mp hlocated with ⟨p, hp, hempty⟩
  cases p with
  | nil => exact hnil hp
  | cons s segments => cases hempty

theorem Removed.step
    (hnil : [] ∉ paths) {position : List Step} (h : Removed paths (a :: position)) :
    Removed (paths.filterMap (residual a)) position := by
  rcases h with ⟨b, hb, hlocated⟩ | ⟨pre, hpre, hlocates⟩
  · cases b with
    | nil => exact absurd hlocated (not_locatedBy_root hnil)
    | cons b0 b =>
        rcases List.cons_prefix_cons.mp hb with ⟨rfl, hrest⟩
        rw [locatedBy_cons_step] at hlocated
        exact Or.inl ⟨b, hrest, hlocated⟩
  · cases pre with
    | nil => cases hlocates
    | cons s pre =>
        simp only [locates, Bool.and_eq_true] at hlocates
        refine Or.inr ⟨pre, List.mem_filterMap.mpr ⟨_, hpre, ?_⟩, hlocates.2⟩
        exact residual_eq_some_iff.mpr ⟨s, rfl, hlocates.1⟩

theorem Apart.step
    {x : Json} {p' q' : List String} (h : Apart paths v p q) (hnil : [] ∉ paths)
    (hdown : forall position w, At x position w -> At v (a :: position) w)
    (hp : residual a p = some p') (hq : residual a q = some q') :
    Apart (paths.filterMap (residual a)) x p' q' := by
  rcases residual_eq_some_iff.mp hp with ⟨sp, rfl, hsp⟩
  rcases residual_eq_some_iff.mp hq with ⟨sq, rfl, hsq⟩
  intro pre pre' rest s t position items i j hp' hq' hpre hpre' hat hkept hi hj hitems hitems'
  refine h (sp :: pre) (sq :: pre') rest s t (a :: position) items i j ?_ ?_ ?_ ?_
    (hdown position _ hat) (fun hremoved => hkept (hremoved.step hnil)) hi hj hitems hitems'
  · rw [hp', List.cons_append]
  · rw [hq', List.cons_append]
  · rw [locates, hsp, hpre, Bool.and_self]
  · rw [locates, hsq, hpre', Bool.and_self]

/-!
## The stages below one step

What the stages do below a key, or below an element whose number they read alike, is what
the rests of their paths do there.
-/

def run (paths : List (List String)) (v : Json) : Json :=
  paths.foldl (fun u p => prune (locates p) u) v

theorem run_append
    (paths paths' : List (List String)) (v : Json) :
    run (paths ++ paths') v = run paths' (run paths v) :=
  List.foldl_append

theorem run_obj
    (paths : List (List String)) (fields : List (String × Json)) :
    run paths (.obj fields) =
      .obj (paths.foldl (fun fs p => pruneFields (locates p) fs) fields) := by
  induction paths generalizing fields with
  | nil => rfl
  | cons p rest ih =>
      rw [List.foldl_cons, ← ih]
      rfl

theorem run_arr
    (paths : List (List String)) (items : List Json) :
    run paths (.arr items) =
      .arr (paths.foldl (fun xs p => pruneItems (locates p) 0 xs) items) := by
  induction paths generalizing items with
  | nil => rfl
  | cons p rest ih =>
      rw [List.foldl_cons, ← ih]
      rfl

theorem prune_below
    (p : List String) (a : Step) (x : Json) :
    prune (fun position => locates p (a :: position)) x = run (residual a p).toList x := by
  simp only [locates_cons_step p a]
  cases residual a p with
  | none => exact prune_eq_self x _ fun _ => rfl
  | some p' => rfl

theorem filterMap_residual_concat
    (done : List (List String)) (q : List String) (a : Step) :
    (done ++ [q]).filterMap (residual a) =
      done.filterMap (residual a) ++ (residual a q).toList := by
  rw [List.filterMap_append]
  cases hq : residual a q <;> simp [hq]

theorem pruneFields_eq_filterMap
    (hit : List Step -> Bool) (fields : List (String × Json)) :
    pruneFields hit fields = fields.filterMap fun f =>
      if hit [.key f.1] then none
      else some (f.1, prune (fun position => hit (.key f.1 :: position)) f.2) := by
  induction fields with
  | nil => rfl
  | cons f rest ih =>
      rw [pruneFields, List.filterMap_cons, ih]
      cases hit [.key f.1] <;> rfl

theorem foldl_pruneFields
    (paths : List (List String)) (fields : List (String × Json)) :
    paths.foldl (fun fs p => pruneFields (locates p) fs) fields =
      fields.filterMap fun f =>
        if locatedBy paths [.key f.1] then none
        else some (f.1, run (paths.filterMap (residual (.key f.1))) f.2) := by
  induction paths generalizing fields with
  | nil => simp [locatedBy, run]
  | cons p rest ih =>
      rw [List.foldl_cons, ih, pruneFields_eq_filterMap, List.filterMap_filterMap]
      refine List.filterMap_congr fun f _ => ?_
      have hboth : locatedBy (p :: rest) [.key f.1] =
          (locates p [.key f.1] || locatedBy rest [.key f.1]) := rfl
      rw [hboth]
      cases locates p [.key f.1] with
      | true => rfl
      | false =>
          have hcons : (p :: rest).filterMap (residual (.key f.1)) =
              (residual (.key f.1) p).toList ++ rest.filterMap (residual (.key f.1)) := by
            rw [List.filterMap_cons]
            cases residual (.key f.1) p <;> rfl
          rw [hcons, run_append, ← prune_below]
          rfl

/-- The array after some stages: what is left of it, each element stripped by the rests of
their paths. -/
def settled (done : List (List String)) : Nat -> List Json -> List Json
  | _, [] => []
  | k, x :: rest =>
      if locatedBy done [.index k] then
        settled done (k + 1) rest
      else
        run (done.filterMap (residual (.index k))) x :: settled done (k + 1) rest

theorem settled_nil
    (k : Nat) (items : List Json) :
    settled [] k items = items := by
  induction items generalizing k with
  | nil => rfl
  | cons x rest ih =>
      rw [settled, ih]
      rfl

variable {done : List (List String)}

/-- The second pass finds an element at index `m` that stood at `k`, with `n` elements
from there on.  What it must know of the two, it knows at every later element. -/
structure SameReading (done : List (List String)) (q : List String)
    (Seen : Nat -> Nat -> Nat -> Prop) : Prop where
  same : forall k m n, Seen k m (n + 1) -> locatedBy done [.index k] = false ->
    forall position, locates q (.index m :: position) = locates q (.index k :: position)
  removed : forall k m n, Seen k m (n + 1) -> locatedBy done [.index k] = true ->
    Seen (k + 1) m n
  kept : forall k m n, Seen k m (n + 1) -> Seen (k + 1) (m + 1) n

theorem pruneItems_settled
    {Seen : Nat -> Nat -> Nat -> Prop} (hseen : SameReading done q Seen) (items : List Json) :
    forall k m, Seen k m items.length ->
      pruneItems (locates q) m (settled done k items) = settled (done ++ [q]) k items := by
  induction items with
  | nil =>
      intro k m _
      rfl
  | cons x rest ih =>
      intro k m hkm
      have hboth : locatedBy (done ++ [q]) [.index k] =
          (locatedBy done [.index k] || locates q [.index k]) := by
        simp [locatedBy]
      cases hdone : locatedBy done [.index k] with
      | true =>
          rw [settled, settled, hboth, hdone, Bool.true_or, if_pos rfl, if_pos rfl,
            ih (k + 1) m (hseen.removed k m _ hkm hdone)]
      | false =>
          have hnext := ih (k + 1) (m + 1) (hseen.kept k m _ hkm)
          have hsame := hseen.same k m _ hkm hdone
          rw [settled, settled, hboth, hdone, Bool.false_or, if_neg Bool.false_ne_true, pruneItems,
            hsame, hnext]
          cases locates q [.index k] with
          | true => rfl
          | false =>
              simp only [Bool.false_eq_true, if_false, hsame, prune_below,
                filterMap_residual_concat, run_append]

theorem removes_index
    (h : locates p [.index i] = true) :
    p = [wildcard] ∨ exists s, p = [s] ∧ arrayIndex s = some i := by
  cases p with
  | nil => cases h
  | cons s rest =>
      cases rest with
      | cons second rest => simp [locates] at h
      | nil =>
          by_cases hs : s = wildcard
          · exact Or.inl (by rw [hs])
          · refine Or.inr ⟨s, rfl, ?_⟩
            simpa [locates, segmentMatches_index hs] using h

theorem sameReading_of_uniform
    (done : List (List String)) (hq : forall k m position,
      locates q (.index m :: position) = locates q (.index k :: position)) :
    SameReading done q fun _ _ _ => True where
  same k m _ _ _ := hq k m
  removed _ _ _ _ _ := trivial
  kept _ _ _ _ := trivial

variable {t : String}

theorem sameReading_of_index
    {rest : List String} {j : Nat} (all : List Json) (ht : t ≠ wildcard)
    (hj : arrayIndex t = some j) (hapart : forall s k, [s] ∈ done -> arrayIndex s = some k ->
      k < all.length -> j < all.length -> j < k)
    (hnostar : [wildcard] ∉ done) :
    SameReading done (t :: rest) fun k m n =>
      k + n = all.length ∧ m ≤ k ∧ (m = k ∨ j < m ∨ all.length ≤ j) where
  same := by
    intro k m n hkm _ position
    rcases hkm with ⟨hlen, hle, hcases⟩
    simp only [locates, segmentMatches_index ht, hj]
    rcases hcases with rfl | hpassed
    · rfl
    · have hm : (j == m) = false := beq_false_of_ne (by omega)
      have hk : (j == k) = false := beq_false_of_ne (by omega)
      rw [Option.some_beq_some, Option.some_beq_some, hm, hk]
  removed := by
    intro k m n hkm hremoved
    rcases hkm with ⟨hlen, hle, hcases⟩
    refine ⟨by omega, by omega, ?_⟩
    rcases List.any_eq_true.mp hremoved with ⟨p, hp, hlocates⟩
    rcases removes_index hlocates with rfl | ⟨s, rfl, hs⟩
    · exact absurd hp hnostar
    · by_cases hlong : all.length ≤ j
      · exact Or.inr (Or.inr hlong)
      · have hlt : j < k := hapart s k hp hs (by omega) (by omega)
        rcases hcases with rfl | hbefore | hlong'
        · exact Or.inr (Or.inl hlt)
        · exact Or.inr (Or.inl hbefore)
        · exact absurd hlong' hlong
  kept := by
    intro k m n hkm
    rcases hkm with ⟨hlen, hle, hcases⟩
    exact ⟨by omega, by omega, by omega⟩

theorem foldl_pruneItems_settled
    {items : List Json} (hnostar : [wildcard] ∉ paths) (hkept : ¬ Removed paths [])
    (hnil : [] ∉ paths) (todo : List (List String)) :
    forall done, done ++ todo = paths -> paths.Pairwise (Apart paths (.arr items)) ->
      todo.foldl (fun xs p => pruneItems (locates p) 0 xs) (settled done 0 items) =
        settled paths 0 items := by
  induction todo with
  | nil =>
      intro done hdone _
      rw [List.append_nil] at hdone
      rw [hdone, List.foldl_nil]
  | cons q todo ih =>
      intro done hdone hpairwise
      have hstage : pruneItems (locates q) 0 (settled done 0 items) =
          settled (done ++ [q]) 0 items := by
        cases q with
        | nil => exact absurd (hdone ▸ List.mem_append_right _ List.mem_cons_self) hnil
        | cons t rest =>
            by_cases ht : t = wildcard
            · exact pruneItems_settled (sameReading_of_uniform done fun k m position => by
                simp [locates, segmentMatches, ht]) items 0 0 trivial
            · cases hj : arrayIndex t with
              | none =>
                  exact pruneItems_settled (sameReading_of_uniform done fun k m position => by
                    simp [locates, segmentMatches_index ht, hj]) items 0 0 trivial
              | some j =>
                  have hbefore : forall p, p ∈ done -> Apart paths (.arr items) p (t :: rest) := by
                    intro p hp
                    rw [← hdone, List.pairwise_append] at hpairwise
                    rw [← hdone]
                    exact hpairwise.2.2 p hp _ List.mem_cons_self
                  refine pruneItems_settled (sameReading_of_index items ht hj ?_ ?_) items
                    0 0 ⟨Nat.zero_add _, Nat.le_refl 0, Or.inl rfl⟩
                  · intro s k hs hk hklt hjlt
                    exact hbefore [s] hs [] [] rest s t [] items k j rfl rfl rfl rfl (.here _)
                      hkept hk hj hklt hjlt
                  · intro hstar
                    exact hnostar (hdone ▸ List.mem_append_left _ hstar)
      rw [List.foldl_cons, hstage]
      exact ih (done ++ [q]) (by rw [List.append_assoc, List.singleton_append, hdone]) hpairwise

theorem foldl_pruneItems_of_wildcard
    (hstar : [wildcard] ∈ paths) (items : List Json) :
    paths.foldl (fun xs p => pruneItems (locates p) 0 xs) items = [] := by
  have hempty : forall rest : List (List String),
      rest.foldl (fun xs p => pruneItems (locates p) 0 xs) [] = [] := by
    intro rest
    induction rest with
    | nil => rfl
    | cons p rest ih => exact ih
  induction paths generalizing items with
  | nil => cases hstar
  | cons p rest ih =>
      rw [List.foldl_cons]
      rcases List.mem_cons.mp hstar with rfl | hstar
      · rw [pruneItems_wildcard, hempty]
      · exact ih hstar _

theorem pruneItems_of_wildcard
    (hstar : [wildcard] ∈ paths) (items : List Json) :
    forall k, pruneItems (locatedBy paths) k items = [] := by
  induction items with
  | nil =>
      intro k
      rfl
  | cons x rest ih =>
      intro k
      have hlocated : locatedBy paths [.index k] = true :=
        List.any_eq_true.mpr ⟨_, hstar, by simp [locates, segmentMatches]⟩
      rw [pruneItems, hlocated, if_pos rfl, ih]

def RunsAtOnce (x : Json) : Prop :=
  forall paths, [] ∉ paths -> paths.Pairwise (Apart paths x) ->
    run paths x = prune (locatedBy paths) x

theorem RunsAtOnce.below
    {x : Json} (hx : RunsAtOnce x) (hnil : [] ∉ paths)
    (hpairwise : paths.Pairwise (Apart paths v))
    (hdown : forall position w, At x position w -> At v (a :: position) w)
    (hkept : locatedBy paths [a] = false) :
    run (paths.filterMap (residual a)) x =
      prune (fun position => locatedBy paths (a :: position)) x := by
  simp only [locatedBy_cons_step paths a]
  refine hx _ ?_ ?_
  · intro hempty
    rcases List.mem_filterMap.mp hempty with ⟨p, hp, hresidual⟩
    have hlocated : locatedBy paths [a] = true :=
      List.any_eq_true.mpr ⟨p, hp, by rw [locates_cons_step, hresidual]; rfl⟩
    rw [hlocated] at hkept
    cases hkept
  · rw [List.pairwise_filterMap]
    refine hpairwise.imp fun hapart p' hp' q' hq' => ?_
    exact hapart.step hnil hdown hp' hq'

theorem settled_eq_pruneItems
    {all : List Json} (hnil : [] ∉ paths) (hpairwise : paths.Pairwise (Apart paths (.arr all)))
    (items : List Json) (hitems : forall x, x ∈ items -> RunsAtOnce x) :
    forall k, all.drop k = items -> settled paths k items = pruneItems (locatedBy paths) k items := by
  induction items with
  | nil =>
      intro k _
      rfl
  | cons x rest ih =>
      intro k hdrop
      have hx : all[k]? = some x := by
        rw [← List.head?_drop, hdrop, List.head?_cons]
      have hdrop' : all.drop (k + 1) = rest := by
        rw [← List.tail_drop, hdrop, List.tail_cons]
      rw [settled, pruneItems, ih (fun y hy => hitems y (List.mem_cons_of_mem _ hy)) _ hdrop']
      cases hkept : locatedBy paths [.index k] with
      | true => rfl
      | false =>
          rw [(hitems x List.mem_cons_self).below hnil hpairwise
            (fun position w hat => .index hx hat) hkept]

theorem runs_at_once
    (v : Json) :
    RunsAtOnce v := by
  induction v using Json.induct with
  | hscalar v harr hobj =>
      intro paths _ _
      rw [run, prune_scalar harr hobj]
      exact List.foldl_fixed' (fun p => prune_scalar harr hobj _) paths
  | harr items ih =>
      intro paths hnil hpairwise
      rw [run_arr, prune]
      by_cases hstar : [wildcard] ∈ paths
      · rw [foldl_pruneItems_of_wildcard hstar, pruneItems_of_wildcard hstar]
      · have hkept : ¬ Removed paths [] := by
          rintro (⟨b, hb, hlocated⟩ | ⟨pre, hpre, hlocates⟩)
          · exact not_locatedBy_root hnil (List.prefix_nil.mp hb ▸ hlocated)
          · cases pre with
            | nil => exact hstar hpre
            | cons s pre => cases hlocates
        have hrun := foldl_pruneItems_settled hstar hkept hnil paths [] rfl hpairwise
        rw [settled_nil] at hrun
        rw [hrun, settled_eq_pruneItems hnil hpairwise items ih 0 List.drop_zero]
  | hobj fields ih =>
      intro paths hnil hpairwise
      rw [run_obj, prune, foldl_pruneFields, pruneFields_eq_filterMap]
      congr 1
      refine List.filterMap_congr fun f hf => ?_
      cases hkept : locatedBy paths [.key f.1] with
      | true => rfl
      | false =>
          rw [(ih f hf).below hnil hpairwise (fun position w hat => .key hf hat) hkept]

/-!
## Whole pipelines
-/

def Undisturbed (v : Json) (paths : List (List String)) : Prop :=
  paths.Pairwise fun p q => Apart paths v p q ∧ Apart paths v q p

theorem pathSegments_ne_nil
    {path : String} (hpath : refusedAtRoot (pathSegments path) = false) :
    pathSegments path ≠ [] := by
  intro hnil
  simp [refusedAtRoot, hnil] at hpath

theorem stripAll_eq_run
    (paths : List String)
    (hpass : forall path, path ∈ paths -> refusedAtRoot (pathSegments path) = false) (v : Json) :
    stripAll paths v = run (paths.map pathSegments) v := by
  induction paths generalizing v with
  | nil => rfl
  | cons path rest ih =>
      have hpath := hpass path List.mem_cons_self
      have hstage : stripFieldImpl v path = prune (locates (pathSegments path)) v := by
        rw [stripFieldImpl, hpath, if_neg Bool.false_ne_true,
          stripFieldRecursive_eq_prune _ (pathSegments_ne_nil hpath)]
      rw [stripAll, List.foldl_cons, hstage]
      exact ih (fun q hq => hpass q (List.mem_cons_of_mem _ hq)) _

theorem locatedBy_perm
    {paths paths' : List (List String)} (h : paths.Perm paths') :
    locatedBy paths = locatedBy paths' := by
  funext position
  exact h.any_eq

theorem removed_perm
    {paths paths' : List (List String)} (h : paths.Perm paths') (position : List Step) :
    Removed paths position <-> Removed paths' position := by
  unfold Removed
  rw [locatedBy_perm h]
  simp only [h.mem_iff]

theorem strip_in_order
    {paths order : List String}
    (hpass : forall path, path ∈ paths -> refusedAtRoot (pathSegments path) = false)
    (horder : order.Perm paths)
    (hapart : (order.map pathSegments).Pairwise (Apart (paths.map pathSegments) v)) :
    applyAll (stripStages order) v = .ok (prune (locatedBy (paths.map pathSegments)) v) := by
  have hmap : (order.map pathSegments).Perm (paths.map pathSegments) := horder.map _
  have hpass' : forall path, path ∈ order -> refusedAtRoot (pathSegments path) = false :=
    fun path hpath => hpass path (horder.mem_iff.mp hpath)
  have hnil : [] ∉ order.map pathSegments := by
    intro hempty
    rcases List.mem_map.mp hempty with ⟨path, hpath, hsegments⟩
    exact pathSegments_ne_nil (hpass' path hpath) hsegments
  have hown : (order.map pathSegments).Pairwise (Apart (order.map pathSegments) v) := by
    refine hapart.imp fun h => ?_
    intro pre pre' rest s t a items i j hp hq hpre hpre' hat hkept
    exact h pre pre' rest s t a items i j hp hq hpre hpre' hat
      (fun hremoved => hkept ((removed_perm hmap a).mpr hremoved))
  rw [applyAll_stripStages, stripAll_eq_run order hpass', runs_at_once v _ hnil hown,
    locatedBy_perm hmap]

theorem length_of_locates
    {position : List Step} (h : locates p position = true) :
    position.length = p.length := by
  induction p generalizing position with
  | nil =>
      cases position with
      | nil => rfl
      | cons a position => cases h
  | cons s rest ih =>
      cases position with
      | nil => cases h
      | cons a position =>
          simp only [locates, Bool.and_eq_true] at h
          rw [List.length_cons, List.length_cons, ih h.2]

/-- Paths that are apart as they are written, whatever the envelope: where the first
one ends in a number, the second has no number at that place that is as large. -/
theorem apart_of_segments
    (v : Json) (h : forall i j, (p[p.length - 1]?).bind arrayIndex = some i ->
      (q[p.length - 1]?).bind arrayIndex = some j -> j < i) :
    Apart paths v p q := by
  rintro pre pre' rest s t position items i j rfl rfl hpre hpre' - - hi hj - -
  have hlength : pre.length = pre'.length :=
    (length_of_locates hpre).symm.trans (length_of_locates hpre')
  refine h i j ?_ ?_
  · simpa using hi
  · simpa [hlength] using hj

/-- When no stage disturbs a later one the pipeline removes exactly what its paths
locate in the envelope it was given; when no two disturb each other, it does so in
every order. -/
theorem strip_pipeline_complete
    {v : Json} {paths : List String}
    (hpass : forall path, path ∈ paths -> refusedAtRoot (pathSegments path) = false) :
    ((paths.map pathSegments).Pairwise (Apart (paths.map pathSegments) v) ->
      applyAll (stripStages paths) v = .ok (prune (locatedBy (paths.map pathSegments)) v)) ∧
    (Undisturbed v (paths.map pathSegments) -> forall order, order.Perm paths ->
      applyAll (stripStages order) v = .ok (prune (locatedBy (paths.map pathSegments)) v)) := by
  refine ⟨strip_in_order hpass (List.Perm.refl paths), ?_⟩
  intro hpaths order horder
  have hsymm : forall {p q : List String},
      Apart (paths.map pathSegments) v p q ∧ Apart (paths.map pathSegments) v q p ->
        Apart (paths.map pathSegments) v q p ∧ Apart (paths.map pathSegments) v p q := And.symm
  exact strip_in_order hpass horder
    ((((horder.map pathSegments).pairwise_iff hsymm).mpr hpaths).imp And.left)

def listedEnvelope : Json :=
  .obj [("a", .arr [.str "x", .str "y", .str "z"]), ("b", .obj [("c", .str "d")])]

theorem array_of_listedEnvelope
    {position : List Step} {items : List Json} (h : At listedEnvelope position (.arr items)) :
    position = [.key "a"] := by
  cases h with
  | key hfield hbelow =>
      simp only [List.mem_cons, List.not_mem_nil, or_false, Prod.mk.injEq] at hfield
      rcases hfield with ⟨rfl, rfl⟩ | ⟨rfl, rfl⟩
      · cases hbelow with
        | here => rfl
        | index hitem hbelow =>
            have hscalar : forall x, x ∈ [Json.str "x", .str "y", .str "z"] ->
                exists text, x = Json.str text := by
              simp
            rcases hscalar _ (List.mem_of_getElem? hitem) with ⟨text, rfl⟩
            cases hbelow
      · cases hbelow with
        | key hfield hbelow =>
            simp only [List.mem_singleton, Prod.mk.injEq] at hfield
            rcases hfield with ⟨rfl, rfl⟩
            cases hbelow

theorem listedEnvelope_from_the_back :
    applyAll (stripStages ["a/1", "a/0"]) listedEnvelope =
        .ok (.obj [("a", .arr [.str "z"]), ("b", .obj [("c", .str "d")])]) ∧
      applyAll (stripStages ["b/*", "a/1"]) listedEnvelope =
        .ok (.obj [("a", .arr [.str "x", .str "z"]), ("b", .obj [])]) ∧
      applyAll (stripStages ["a/0", "a/1", "a"]) listedEnvelope =
        .ok (.obj [("b", .obj [("c", .str "d")])]) := by
  have hback : (["a/1", "a/0"].map pathSegments).Pairwise
      (Apart (["a/1", "a/0"].map pathSegments) listedEnvelope) := by
    refine List.pairwise_pair.mpr (apart_of_segments _ ?_)
    intro i j hi hj
    have hi' : some 1 = some i := hi
    have hj' : some 0 = some j := hj
    cases hi'
    cases hj'
    exact Nat.zero_lt_one
  have hapart : Undisturbed listedEnvelope (["a/1", "b/*"].map pathSegments) := by
    refine List.pairwise_pair.mpr ⟨apart_of_segments _ ?_, apart_of_segments _ ?_⟩
    · intro i j _ hj
      have hj' : none = some j := hj
      cases hj'
    · intro i j hi _
      have hi' : none = some i := hi
      cases hi'
  have hgone : Undisturbed listedEnvelope (["a", "a/0", "a/1"].map pathSegments) := by
    have hall : forall p q,
        Apart (["a", "a/0", "a/1"].map pathSegments) listedEnvelope p q := by
      intro p q pre pre' rest s t a items i j _ _ _ _ hat hkept
      cases array_of_listedEnvelope hat
      exact absurd (Or.inl ⟨_, List.prefix_refl _, by decide⟩) hkept
    exact List.pairwise_of_forall fun p q => ⟨hall p q, hall q p⟩
  refine ⟨?_, ?_, ?_⟩
  · exact (strip_pipeline_complete (by decide)).1 hback
  · exact (strip_pipeline_complete (by decide)).2 hapart _ (List.Perm.swap _ _ _)
  · exact (strip_pipeline_complete (by decide)).2 hgone _ (by decide)

theorem ascending_strips_leave_element
    {j : Nat} (hs : arrayIndex s = some i) (ht : arrayIndex t = some j) (hij : i < j)
    (items : List Json) :
    exists out, stripFieldRecursive [t] (stripFieldRecursive [s] (.arr items)) = .arr out ∧
      out[j - 1]? = items[j]? := by
  have hnumber : forall {u : String} {n : Nat}, arrayIndex u = some n -> u ≠ wildcard := by
    rintro u n hu rfl
    rw [arrayIndex_wildcard] at hu
    cases hu
  refine ⟨(items.eraseIdx i).eraseIdx j, ?_, ?_⟩
  · simp only [stripFieldRecursive, stripTerminal, hnumber hs, hnumber ht, if_false, hs, ht]
  · rw [List.getElem?_eraseIdx_of_lt (by omega), List.getElem?_eraseIdx_of_ge (by omega),
      Nat.sub_add_cancel (by omega)]

theorem listedEnvelope_from_the_front :
    applyAll (stripStages ["a/0", "a/1"]) listedEnvelope =
        .ok (.obj [("a", .arr [.str "y"]), ("b", .obj [("c", .str "d")])]) ∧
      At listedEnvelope [.key "a", .index 1] (.str "y") ∧
      locatedBy (["a/0", "a/1"].map pathSegments) [.key "a", .index 1] = true ∧
      applyAll (stripStages ["a/0", "a/1"]) listedEnvelope ≠
        applyAll (stripStages ["a/1", "a/0"]) listedEnvelope := by
  refine ⟨by rfl, ?_, by decide, ?_⟩
  · exact .key List.mem_cons_self (.index rfl (.here _))
  · intro hsame
    have hsame' : (.ok (.obj [("a", .arr [.str "y"]), ("b", .obj [("c", .str "d")])]) :
        Except TransformError Json) =
        .ok (.obj [("a", .arr [.str "z"]), ("b", .obj [("c", .str "d")])]) := hsame
    simp at hsame'

end Transform
end Federation
end CirisPersist
