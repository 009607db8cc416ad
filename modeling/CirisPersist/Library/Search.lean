import Mathlib.Data.Finset.Card
import Mathlib.Data.Finset.Insert

/-!
# Breadth-first search with a seen set

A search takes nodes from a queue, first in first out.  A node has a key and a
list of successors; a successor enters the queue only when its key has not been
seen.  Nodes of one key may differ, and only the first to arrive is searched
further.

The module proves that the search visits only reachable nodes and no key twice, that
it ends after as many rounds as there are keys, and that a search that has ended
visited a node for every reachable key when an earlier node can always stand in
for a later one.
-/

namespace Search

variable {N K : Type*}

/-!
## The search
-/

section Definitions

variable [DecidableEq K] (key : N -> K) (succs : N -> List N)

def fresh : Finset K -> List N -> List N
  | _, [] => []
  | seen, c :: cs =>
      if key c ∈ seen then
        fresh seen cs
      else
        c :: fresh (insert (key c) seen) cs

def seenAfter (seen : Finset K) (children : List N) : Finset K :=
  seen ∪ ((fresh key seen children).map key).toFinset

/-- The nodes taken from the queue, in order, within a number of rounds. -/
def explore : Nat -> Finset K -> List N -> List N
  | 0, _, _ => []
  | _ + 1, _, [] => []
  | rounds + 1, seen, n :: queue =>
      n :: explore rounds (seenAfter key seen (succs n))
        (queue ++ fresh key seen (succs n))

def remaining : Nat -> Finset K -> List N -> List N
  | 0, _, queue => queue
  | _ + 1, _, [] => []
  | rounds + 1, seen, n :: queue =>
      remaining rounds (seenAfter key seen (succs n)) (queue ++ fresh key seen (succs n))

inductive Reachable (root : N) : N -> Prop where
  | root : Reachable root root
  | step {n c : N} : Reachable root n -> c ∈ succs n -> Reachable root c

end Definitions

/-!
## Fresh nodes
-/

section Fresh

variable [DecidableEq K] {key : N -> K} (children : List N) (seen : Finset K)

theorem fresh_subset
    (c : N) (h : c ∈ fresh key seen children) :
    c ∈ children := by
  fun_induction fresh key seen children with
  | case1 => cases h
  | case2 seen child rest hseen ih => exact List.mem_cons_of_mem _ (ih h)
  | case3 seen child rest hnew ih =>
      cases List.mem_cons.mp h with
      | inl heq =>
          rw [heq]
          exact List.mem_cons_self
      | inr hrest => exact List.mem_cons_of_mem _ (ih hrest)

theorem seen_or_fresh
    (key : N -> K) (children : List N) (seen : Finset K) (c : N) (h : c ∈ children) :
    key c ∈ seen ∨ exists m, m ∈ fresh key seen children ∧ key m = key c := by
  fun_induction fresh key seen children with
  | case1 => cases h
  | case2 seen child rest hseen ih =>
      cases List.mem_cons.mp h with
      | inl heq =>
          rw [heq]
          exact Or.inl hseen
      | inr hrest => exact ih hrest
  | case3 seen child rest hnew ih =>
      cases List.mem_cons.mp h with
      | inl heq => exact Or.inr ⟨child, List.mem_cons_self, by rw [heq]⟩
      | inr hrest =>
          rcases ih hrest with hseen | ⟨m, hm, hkey⟩
          · cases Finset.mem_insert.mp hseen with
            | inl heq => exact Or.inr ⟨child, List.mem_cons_self, heq.symm⟩
            | inr hold => exact Or.inl hold
          · exact Or.inr ⟨m, List.mem_cons_of_mem _ hm, hkey⟩

theorem fresh_unseen
    (c : N) (h : c ∈ fresh key seen children) :
    key c ∉ seen := by
  fun_induction fresh key seen children with
  | case1 => cases h
  | case2 seen child rest hseen ih => exact ih h
  | case3 seen child rest hnew ih =>
      cases List.mem_cons.mp h with
      | inl heq =>
          rw [heq]
          exact hnew
      | inr hrest => exact fun hseen => ih hrest (Finset.mem_insert_of_mem hseen)

theorem nodup_map_fresh :
    ((fresh key seen children).map key).Nodup := by
  fun_induction fresh key seen children with
  | case1 => exact List.nodup_nil
  | case2 seen child rest hseen ih => exact ih
  | case3 seen child rest hnew ih =>
      refine List.nodup_cons.mpr ⟨?_, ih⟩
      intro hmem
      rcases List.mem_map.mp hmem with ⟨c, hc, hkey⟩
      exact fresh_unseen rest _ c hc (hkey ▸ Finset.mem_insert_self _ _)

theorem fresh_eq_self
    (hnew : forall c, c ∈ children -> key c ∉ seen) (hnodup : (children.map key).Nodup) :
    fresh key seen children = children := by
  fun_induction fresh key seen children with
  | case1 => rfl
  | case2 seen child rest hseen ih => exact absurd hseen (hnew child List.mem_cons_self)
  | case3 seen child rest _ ih =>
      rw [List.map_cons, List.nodup_cons] at hnodup
      rw [ih ?_ hnodup.2]
      intro c hc hmem
      cases Finset.mem_insert.mp hmem with
      | inl heq => exact hnodup.1 (heq ▸ List.mem_map_of_mem hc)
      | inr hseen => exact hnew c (List.mem_cons_of_mem _ hc) hseen

theorem seenAfter_cons_of_notMem
    {seen : Finset K} {c : N} (h : key c ∉ seen) :
    seenAfter key seen (c :: children) = seenAfter key (insert (key c) seen) children := by
  unfold seenAfter
  rw [fresh, if_neg h, List.map_cons, List.toFinset_cons, Finset.union_insert,
    ← Finset.insert_union]

theorem seenAfter_cons_of_mem
    {seen : Finset K} {c : N} (h : key c ∈ seen) :
    seenAfter key seen (c :: children) = seenAfter key seen children := by
  unfold seenAfter
  rw [fresh, if_pos h]

theorem fresh_append
    (first second : List N) (seen : Finset K) :
    fresh key seen (first ++ second) =
      fresh key seen first ++ fresh key (seenAfter key seen first) second := by
  induction first generalizing seen with
  | nil => simp [fresh, seenAfter]
  | cons c rest ih =>
      by_cases h : key c ∈ seen
      · rw [seenAfter_cons_of_mem rest h, List.cons_append, fresh, if_pos h, ih, fresh,
          if_pos h]
      · rw [seenAfter_cons_of_notMem rest h, List.cons_append, fresh, if_neg h, ih, fresh,
          if_neg h, List.cons_append]

theorem seenAfter_append
    (first second : List N) (seen : Finset K) :
    seenAfter key seen (first ++ second) = seenAfter key (seenAfter key seen first) second := by
  rw [seenAfter, fresh_append, List.map_append, List.toFinset_append, ← Finset.union_assoc]
  rfl

theorem card_seenAfter
    (key : N -> K) (children : List N) (seen : Finset K) :
    (seenAfter key seen children).card = seen.card + (fresh key seen children).length := by
  fun_induction fresh key seen children with
  | case1 => simp [seenAfter, fresh]
  | case2 seen child rest hseen ih => rw [seenAfter_cons_of_mem rest hseen, ih]
  | case3 seen child rest hnew ih =>
      rw [seenAfter_cons_of_notMem rest hnew, ih, Finset.card_insert_of_notMem hnew,
        List.length_cons]
      omega

end Fresh

/-!
## Soundness
-/

section Sound

variable [DecidableEq K] {key : N -> K} {succs : N -> List N}

theorem explore_invariant
    {inv : N -> Prop} (hinv : forall n, inv n -> forall c, c ∈ succs n -> inv c) (rounds : Nat)
    (seen : Finset K) (queue : List N) (hqueue : forall n, n ∈ queue -> inv n) (n : N)
    (hn : n ∈ explore key succs rounds seen queue) :
    inv n := by
  fun_induction explore key succs rounds seen queue with
  | case1 => cases hn
  | case2 => cases hn
  | case3 rounds seen first rest ih =>
      have hfirst := hqueue first List.mem_cons_self
      cases List.mem_cons.mp hn with
      | inl heq =>
          rw [heq]
          exact hfirst
      | inr hrest =>
          refine ih ?_ hrest
          intro c hc
          cases List.mem_append.mp hc with
          | inl hold => exact hqueue c (List.mem_cons_of_mem _ hold)
          | inr hnew => exact hinv first hfirst c (fresh_subset _ _ c hnew)

theorem reachable_of_explored
    {root n : N} {rounds : Nat} {seen : Finset K} (h : n ∈ explore key succs rounds seen [root]) :
    Reachable succs root n := by
  refine explore_invariant (fun _ hm _ hc => .step hm hc) rounds seen [root] ?_ n h
  intro m hm
  rw [List.mem_singleton.mp hm]
  exact .root

theorem key_of_mem_explore
    (rounds : Nat) (seen : Finset K) (queue : List N) (n : N)
    (hn : n ∈ explore key succs rounds seen queue) :
    key n ∈ queue.map key ∨ key n ∉ seen := by
  fun_induction explore key succs rounds seen queue with
  | case1 => cases hn
  | case2 => cases hn
  | case3 rounds seen first rest ih =>
      cases List.mem_cons.mp hn with
      | inl heq =>
          rw [heq]
          exact Or.inl List.mem_cons_self
      | inr hrest =>
          rcases ih hrest with hqueued | hunseen
          · rw [List.map_append, List.mem_append] at hqueued
            cases hqueued with
            | inl hold => exact Or.inl (List.mem_cons_of_mem _ hold)
            | inr hnew =>
                rcases List.mem_map.mp hnew with ⟨c, hc, hkey⟩
                rw [← hkey]
                exact Or.inr (fresh_unseen _ _ c hc)
          · exact Or.inr fun hseen => hunseen (Finset.mem_union_left _ hseen)

theorem nodup_map_explore
    (rounds : Nat) (seen : Finset K) (queue : List N) (hnodup : (queue.map key).Nodup)
    (hseen : forall n, n ∈ queue -> key n ∈ seen) :
    ((explore key succs rounds seen queue).map key).Nodup := by
  fun_induction explore key succs rounds seen queue with
  | case1 => exact List.nodup_nil
  | case2 => exact List.nodup_nil
  | case3 rounds seen first rest ih =>
      have hfirst : key first ∈ seen := hseen first List.mem_cons_self
      have hrest := List.nodup_cons.mp hnodup
      have hqueued : key first ∉ (rest ++ fresh key seen (succs first)).map key := by
        rw [List.map_append, List.mem_append]
        rintro (hold | hnew)
        · exact hrest.1 hold
        · rcases List.mem_map.mp hnew with ⟨c, hc, hkey⟩
          exact fresh_unseen _ _ c hc (hkey ▸ hfirst)
      refine List.nodup_cons.mpr ⟨?_, ih ?_ ?_⟩
      · intro hagain
        rcases List.mem_map.mp hagain with ⟨n, hn, hkey⟩
        rcases key_of_mem_explore rounds _ _ n hn with hmem | hunseen
        · exact hqueued (hkey ▸ hmem)
        · exact hunseen (hkey ▸ Finset.mem_union_left _ hfirst)
      · rw [List.map_append]
        refine List.nodup_append.mpr ⟨hrest.2, nodup_map_fresh _ _, ?_⟩
        intro k hk k' hk' heq
        rcases List.mem_map.mp hk with ⟨n, hn, hkey⟩
        rcases List.mem_map.mp hk' with ⟨c, hc, hkey'⟩
        refine fresh_unseen _ _ c hc ?_
        rw [hkey', ← heq, ← hkey]
        exact hseen n (List.mem_cons_of_mem _ hn)
      · intro n hn
        cases List.mem_append.mp hn with
        | inl hold => exact Finset.mem_union_left _ (hseen n (List.mem_cons_of_mem _ hold))
        | inr hnew =>
            exact Finset.mem_union_right _ (List.mem_toFinset.mpr (List.mem_map_of_mem hnew))

theorem length_explore_le
    (rounds : Nat) (seen : Finset K) (queue : List N) :
    (explore key succs rounds seen queue).length ≤ rounds := by
  fun_induction explore key succs rounds seen queue with
  | case1 => exact Nat.le_refl 0
  | case2 => exact Nat.zero_le _
  | case3 rounds seen first rest ih => exact Nat.succ_le_succ ih

end Sound

/-!
## Layers

Successors lie one layer deeper.  The queue is ordered by layer and spans at
most two, so a key that has been seen was seen no deeper than one layer below
the node in hand.
-/

section Layers

variable {key : N -> K} {succs : N -> List N} {depth : N -> Nat}

structure Layered (key : N -> K) (depth : N -> Nat) (seen : Finset K)
    (done queue : List N) : Prop where
  ordered : queue.Pairwise fun a b => depth a ≤ depth b
  spread : forall a, a ∈ queue -> forall b, b ∈ queue -> depth b ≤ depth a + 1
  witnessed : forall k, k ∈ seen -> exists m, m ∈ done ++ queue ∧ key m = k ∧
    forall q, q ∈ queue -> depth m ≤ depth q + 1

variable [DecidableEq K]

theorem Layered.start
    {roots : List N} (hlevel : forall a, a ∈ roots -> forall b, b ∈ roots -> depth a = depth b) :
    Layered key depth (seenAfter key ∅ roots) [] (fresh key ∅ roots) := by
  have hfresh : forall a, a ∈ fresh key ∅ roots -> a ∈ roots := fun a ha => fresh_subset _ _ a ha
  refine ⟨?_, ?_, ?_⟩
  · refine List.Pairwise.imp_of_mem ?_ (List.pairwise_of_forall (fun _ _ => trivial))
    intro a b ha hb _
    exact Nat.le_of_eq (hlevel a (hfresh a ha) b (hfresh b hb))
  · intro a ha b hb
    rw [hlevel b (hfresh b hb) a (hfresh a ha)]
    exact Nat.le_succ _
  · intro k hk
    rw [seenAfter, Finset.empty_union, List.mem_toFinset] at hk
    rcases List.mem_map.mp hk with ⟨m, hm, hkey⟩
    refine ⟨m, hm, hkey, ?_⟩
    intro q hq
    rw [hlevel m (hfresh m hm) q (hfresh q hq)]
    exact Nat.le_succ _

section OneRound

variable (hdepth : forall n c, c ∈ succs n -> depth c = depth n + 1) {seen : Finset K}
  {done rest : List N} {n : N} (h : Layered key depth seen done (n :: rest))

include hdepth h

theorem Layered.next :
    Layered key depth (seenAfter key seen (succs n)) (done ++ [n])
      (rest ++ fresh key seen (succs n)) := by
  have hnew : forall c, c ∈ fresh key seen (succs n) -> depth c = depth n + 1 :=
    fun c hc => hdepth n c (fresh_subset _ _ c hc)
  have hbelow : forall q, q ∈ rest -> depth n ≤ depth q :=
    fun q hq => List.rel_of_pairwise_cons h.ordered hq
  have habove : forall q, q ∈ rest -> depth q ≤ depth n + 1 :=
    fun q hq => h.spread n List.mem_cons_self q (List.mem_cons_of_mem _ hq)
  have hrange : forall q, q ∈ rest ++ fresh key seen (succs n) ->
      depth n ≤ depth q ∧ depth q ≤ depth n + 1 := by
    intro q hq
    cases List.mem_append.mp hq with
    | inl hold => exact ⟨hbelow q hold, habove q hold⟩
    | inr hfresh =>
        rw [hnew q hfresh]
        omega
  refine ⟨?_, ?_, ?_⟩
  · refine List.pairwise_append.mpr ⟨h.ordered.of_cons, ?_, ?_⟩
    · refine List.Pairwise.imp_of_mem ?_ (List.pairwise_of_forall (fun _ _ => trivial))
      intro a b ha hb _
      rw [hnew a ha, hnew b hb]
    · intro a ha b hb
      rw [hnew b hb]
      exact habove a ha
  · intro a ha b hb
    have hrangeA := hrange a ha
    have hrangeB := hrange b hb
    omega
  · intro k hk
    cases Finset.mem_union.mp hk with
    | inl hold =>
        rcases h.witnessed k hold with ⟨m, hm, hkey, hle⟩
        have hlen := hle n List.mem_cons_self
        refine ⟨m, ?_, hkey, ?_⟩
        · simp only [List.mem_append, List.mem_cons, List.not_mem_nil, or_false] at hm ⊢
          rcases hm with hdone | hn | hrest
          · exact Or.inl (Or.inl hdone)
          · exact Or.inl (Or.inr hn)
          · exact Or.inr (Or.inl hrest)
        · intro q hq
          have hrangeQ := hrange q hq
          omega
    | inr hfresh =>
        rcases List.mem_map.mp (List.mem_toFinset.mp hfresh) with ⟨m, hm, hkey⟩
        refine ⟨m, List.mem_append_right _ (List.mem_append_right _ hm), hkey, ?_⟩
        intro q hq
        have hrangeQ := hrange q hq
        rw [hnew m hm]
        omega

theorem Layered.successor
    {c : N} (hc : c ∈ succs n) :
    exists m, m ∈ done ++ n :: (rest ++ fresh key seen (succs n)) ∧
      key m = key c ∧ depth m ≤ depth n + 1 := by
  cases seen_or_fresh key (succs n) seen c hc with
  | inl hold =>
      rcases h.witnessed (key c) hold with ⟨m, hm, hkey, hle⟩
      refine ⟨m, ?_, hkey, hle n List.mem_cons_self⟩
      rw [← List.cons_append, ← List.append_assoc]
      exact List.mem_append_left _ hm
  | inr hfresh =>
      rcases hfresh with ⟨m, hm, hkey⟩
      refine ⟨m, ?_, hkey, Nat.le_of_eq (hdepth n m (fresh_subset _ _ m hm))⟩
      exact List.mem_append_right _ (List.mem_cons_of_mem _ (List.mem_append_right _ hm))

end OneRound

end Layers

/-!
## Rounds

With a round for every key the search empties its queue: a round takes one node,
and every node that enters uses up a key.
-/

section Rounds

variable [DecidableEq K] {key : N -> K} {succs : N -> List N} {depth : N -> Nat}

structure Enough (keys seen : Finset K) (queue : List N) (rounds : Nat) : Prop where
  inside : seen ⊆ keys
  budget : queue.length + (keys.card - seen.card) ≤ rounds

variable {keys : Finset K}

theorem Enough.next
    {seen : Finset K} {n : N} {rest : List N} {rounds : Nat}
    (hkeys : forall c, c ∈ succs n -> key c ∈ keys)
    (h : Enough keys seen (n :: rest) (rounds + 1)) :
    Enough keys (seenAfter key seen (succs n)) (rest ++ fresh key seen (succs n)) rounds := by
  have hinside : seenAfter key seen (succs n) ⊆ keys := by
    apply Finset.union_subset h.inside
    intro k hk
    rcases List.mem_map.mp (List.mem_toFinset.mp hk) with ⟨c, hc, rfl⟩
    exact hkeys c (fresh_subset _ _ c hc)
  refine ⟨hinside, ?_⟩
  have hcard := card_seenAfter key (succs n) seen
  have hbound := Finset.card_le_card hinside
  have hbudget := h.budget
  rw [List.length_cons] at hbudget
  rw [List.length_append]
  omega

theorem Enough.start
    {roots : List N} (hroots : forall r, r ∈ roots -> key r ∈ keys)
    {rounds : Nat} (hrounds : keys.card ≤ rounds) :
    Enough keys (seenAfter key ∅ roots) (fresh key ∅ roots) rounds := by
  have hinside : seenAfter key ∅ roots ⊆ keys := by
    intro k hk
    rw [seenAfter, Finset.empty_union, List.mem_toFinset] at hk
    rcases List.mem_map.mp hk with ⟨m, hm, rfl⟩
    exact hroots m (fresh_subset _ _ m hm)
  refine ⟨hinside, ?_⟩
  have hcard := card_seenAfter key roots ∅
  have hbound := Finset.card_le_card hinside
  rw [Finset.card_empty] at hcard
  omega

theorem Enough.drained
    (inv : N -> Prop) (hinv : forall n, inv n -> forall c, c ∈ succs n -> inv c ∧ key c ∈ keys)
    (rounds : Nat) (seen : Finset K) (queue : List N) (henough : Enough keys seen queue rounds)
    (hqueue : forall n, n ∈ queue -> inv n) :
    remaining key succs rounds seen queue = [] := by
  fun_induction remaining key succs rounds seen queue with
  | case1 seen queue =>
      have hbudget := henough.budget
      exact List.length_eq_zero_iff.mp (by omega)
  | case2 => rfl
  | case3 rounds seen first rest ih =>
      have hfirst := hinv first (hqueue first List.mem_cons_self)
      refine ih (henough.next fun c hc => (hfirst c hc).2) ?_
      intro c hc
      cases List.mem_append.mp hc with
      | inl hold => exact hqueue c (List.mem_cons_of_mem _ hold)
      | inr hnew => exact (hfirst c (fresh_subset _ _ c hnew)).1

end Rounds

/-!
## Closedness

A search that has emptied its queue took every node that was ever in it.
-/

section Drained

variable [DecidableEq K] {key : N -> K} {succs : N -> List N} {depth : N -> Nat}

theorem mem_explore_of_mem_queue
    (rounds : Nat) (seen : Finset K) (queue : List N)
    (hdrained : remaining key succs rounds seen queue = []) (n : N) (hn : n ∈ queue) :
    n ∈ explore key succs rounds seen queue := by
  fun_induction explore key succs rounds seen queue with
  | case1 seen queue =>
      rw [show queue = [] from hdrained] at hn
      cases hn
  | case2 => cases hn
  | case3 rounds seen first rest ih =>
      cases List.mem_cons.mp hn with
      | inl heq =>
          rw [heq]
          exact List.mem_cons_self
      | inr hrest => exact List.mem_cons_of_mem _ (ih hdrained (List.mem_append_left _ hrest))

theorem explore_closed
    (hdepth : forall n c, c ∈ succs n -> depth c = depth n + 1) (rounds : Nat) (seen : Finset K)
    (done queue : List N) (hdrained : remaining key succs rounds seen queue = [])
    (hlayers : Layered key depth seen done queue) (n : N)
    (hn : n ∈ explore key succs rounds seen queue) (c : N) (hc : c ∈ succs n) :
    exists m, m ∈ done ++ explore key succs rounds seen queue ∧
      key m = key c ∧ depth m ≤ depth n + 1 := by
  fun_induction explore key succs rounds seen queue generalizing done with
  | case1 => cases hn
  | case2 => cases hn
  | case3 rounds seen first rest ih =>
      have hqueue := mem_explore_of_mem_queue rounds _ _ hdrained
      cases List.mem_cons.mp hn with
      | inl heq =>
          subst heq
          rcases hlayers.successor hdepth hc with ⟨m, hm, hkey, hle⟩
          refine ⟨m, ?_, hkey, hle⟩
          cases List.mem_append.mp hm with
          | inl hdone => exact List.mem_append_left _ hdone
          | inr hrest => exact List.mem_append_right _ (List.cons_subset_cons n hqueue hrest)
      | inr hrest =>
          rcases ih (done ++ [first]) hdrained (hlayers.next hdepth) hrest with
            ⟨m, hm, hkey, hle⟩
          refine ⟨m, ?_, hkey, hle⟩
          rw [List.append_assoc] at hm
          exact hm

section Roots

variable {roots : List N} {rounds : Nat}

theorem exists_explored_root
    (hlevel : forall a, a ∈ roots -> forall b, b ∈ roots -> depth a = depth b)
    (hdrained : remaining key succs rounds (seenAfter key ∅ roots) (fresh key ∅ roots) = [])
    {root : N} (hroot : root ∈ roots) :
    exists m, m ∈ explore key succs rounds (seenAfter key ∅ roots) (fresh key ∅ roots) ∧
      key m = key root ∧ depth m ≤ depth root := by
  rcases seen_or_fresh key roots ∅ root hroot with hseen | ⟨m, hm, hkey⟩
  · exact absurd hseen (Finset.notMem_empty _)
  · exact ⟨m, mem_explore_of_mem_queue rounds _ _ hdrained m hm, hkey,
      Nat.le_of_eq (hlevel m (fresh_subset _ _ m hm) root hroot)⟩

theorem exists_explored_successor
    (hdepth : forall n c, c ∈ succs n -> depth c = depth n + 1)
    (hlevel : forall a, a ∈ roots -> forall b, b ∈ roots -> depth a = depth b)
    (hdrained : remaining key succs rounds (seenAfter key ∅ roots) (fresh key ∅ roots) = [])
    {n c : N} (hn : n ∈ explore key succs rounds (seenAfter key ∅ roots) (fresh key ∅ roots))
    (hc : c ∈ succs n) :
    exists m, m ∈ explore key succs rounds (seenAfter key ∅ roots) (fresh key ∅ roots) ∧
      key m = key c ∧ depth m ≤ depth n + 1 :=
  explore_closed hdepth rounds _ [] _ hdrained (Layered.start hlevel) n hn c hc

end Roots

/-!
## Completeness

A node that is visited first for its key has to stand in for every later one.
Where it can, in the sense that it has a successor for each of theirs, the
search reaches every reachable key, and no deeper than any path does.
-/

theorem exists_explored
    (hdepth : forall n c, c ∈ succs n -> depth c = depth n + 1)
    (root : N) (keys : Finset K) (hroot : key root ∈ keys)
    (hkeys : forall n c, c ∈ succs n -> key c ∈ keys)
    (standsIn : N -> N -> Prop)
    (hstep : forall m n, standsIn m n -> forall c, c ∈ succs n ->
      exists c', c' ∈ succs m ∧ key c' = key c)
    (hearlier : forall m n, Reachable succs root m -> Reachable succs root n ->
      key m = key n -> depth m ≤ depth n -> standsIn m n)
    {rounds : Nat} (hrounds : keys.card ≤ rounds)
    {n : N} (hn : Reachable succs root n) :
    exists m, m ∈ explore key succs rounds {key root} [root] ∧
      key m = key n ∧ depth m ≤ depth n ∧ standsIn m n := by
  have hqueue : fresh key ∅ [root] = [root] := by simp [fresh]
  have hseen : seenAfter key ∅ [root] = {key root} := by
    rw [seenAfter, hqueue]
    rfl
  have hlevel : forall a, a ∈ [root] -> forall b, b ∈ [root] -> depth a = depth b := by
    intro a ha b hb
    rw [List.mem_singleton.mp ha, List.mem_singleton.mp hb]
  have henough : Enough keys (seenAfter key ∅ [root]) (fresh key ∅ [root]) rounds := by
    refine Enough.start ?_ hrounds
    intro r hr
    rw [List.mem_singleton.mp hr]
    exact hroot
  have hdrained : remaining key succs rounds (seenAfter key ∅ [root]) (fresh key ∅ [root]) = [] :=
    Enough.drained (fun _ => True) (fun n _ c hc => ⟨trivial, hkeys n c hc⟩) rounds _ _ henough
      fun _ _ => trivial
  rw [← hqueue, ← hseen]
  induction hn with
  | root =>
      rcases exists_explored_root hlevel hdrained List.mem_cons_self with ⟨m, hm, hkey, hle⟩
      have hreached : Reachable succs root m := by
        rw [hseen, hqueue] at hm
        exact reachable_of_explored hm
      exact ⟨m, hm, hkey, hle, hearlier m root hreached .root hkey hle⟩
  | step hp hc ih =>
      rename_i p c
      rcases ih with ⟨m, hm, -, hmdepth, hstands⟩
      rcases hstep m p hstands c hc with ⟨c', hc', hkey'⟩
      rcases exists_explored_successor hdepth hlevel hdrained hm hc' with ⟨w, hw, hkey, hle⟩
      have hdepthC := hdepth p c hc
      have hwkey : key w = key c := hkey.trans hkey'
      have hwdepth : depth w ≤ depth c := by
        omega
      have hreached : Reachable succs root w := by
        rw [hseen, hqueue] at hw
        exact reachable_of_explored hw
      exact ⟨w, hw, hwkey, hwdepth, hearlier w c hreached (.step hp hc) hwkey hwdepth⟩

end Drained

end Search
