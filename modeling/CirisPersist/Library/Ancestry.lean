import Mathlib.Data.Finset.Card
import Mathlib.Data.Finset.Insert

/-!
# Walking back to a base

Nodes name prior nodes, and some nodes lie on a numbered base.  A walk from a node
follows the priors, stops where it meets the base and keeps the smallest number
met.  It takes nodes from a stack and skips those it has seen.

The walk finds the smallest number that any chain of priors off the base leads to.
-/

namespace Ancestry

variable {V : Type*}

/-!
## The walk
-/

def improve (best : Option Nat) (i : Nat) : Option Nat :=
  some (best.elim i fun b => min b i)

def visitPrior (base : V -> Option Nat) (s : List V × Option Nat) (p : V) :
    List V × Option Nat :=
  match base p with
  | some i => (s.1, improve s.2 i)
  | none => (p :: s.1, s.2)

section Walk

variable [DecidableEq V] (edges : List (V × V)) (base : V -> Option Nat)

def priorsOf (d : V) : List V :=
  (edges.filter fun e => decide (e.1 = d)).map Prod.snd

/-- `cap` bounds the number of nodes searched, `rounds` the number taken from the
stack. -/
def walk (cap : Nat) : Nat -> List V -> Finset V -> Option Nat -> Option Nat
  | 0, _, _, best => best
  | _ + 1, [], _, best => best
  | rounds + 1, d :: stack, seen, best =>
      if d ∈ seen ∨ cap < (insert d seen).card then
        walk cap rounds stack (insert d seen) best
      else
        let s := (priorsOf edges d).foldl (visitPrior base) (stack, best)
        walk cap rounds s.1 (insert d seen) s.2

def meet (cap : Nat) (start : V) : Option Nat :=
  walk edges base cap (edges.length + 1) [start] ∅ none

end Walk

/-!
## Chains of priors
-/

section Relations

variable (edges : List (V × V)) (base : V -> Option Nat) (start : V)

inductive Leads : V -> Prop where
  | start : Leads start
  | step {d p : V} : Leads d -> (d, p) ∈ edges -> base p = none -> Leads p

def Meets (i : Nat) : Prop :=
  exists d p, Leads edges base start d ∧ (d, p) ∈ edges ∧ base p = some i

end Relations

/-!
## One expansion
-/

section Expand

def AtMost (best : Option Nat) (i : Nat) : Prop :=
  exists b, best = some b ∧ b ≤ i

theorem atMost_improve
    (best : Option Nat) (i : Nat) :
    AtMost (improve best i) i := by
  cases best with
  | none => exact ⟨i, rfl, le_refl _⟩
  | some b => exact ⟨min b i, rfl, min_le_right _ _⟩

variable {best : Option Nat}

theorem atMost_improve_of_atMost
    {j : Nat} (i : Nat) (h : AtMost best j) :
    AtMost (improve best i) j := by
  rcases h with ⟨b, rfl, hle⟩
  exact ⟨min b i, rfl, le_trans (min_le_left _ _) hle⟩

theorem improve_eq_some
    {i b : Nat} (h : improve best i = some b) :
    best = some b ∨ b = i := by
  cases best with
  | none =>
      cases h
      exact Or.inr rfl
  | some b' =>
      cases h
      rcases min_choice b' i with hmin | hmin
      · exact Or.inl (congrArg some hmin.symm)
      · exact Or.inr hmin

/-- Everything one expansion does to the stack and to the number kept. -/
structure Expanded (base : V -> Option Nat) (ps : List V) (stack : List V) (best : Option Nat)
    (s : List V × Option Nat) : Prop where
  pushed : forall p, p ∈ s.1 <-> p ∈ stack ∨ p ∈ ps ∧ base p = none
  length : s.1.length ≤ stack.length + ps.length
  kept : forall j, AtMost best j -> AtMost s.2 j
  met : forall p i, p ∈ ps -> base p = some i -> AtMost s.2 i
  sound : forall b, s.2 = some b -> best = some b ∨ exists p, p ∈ ps ∧ base p = some b

theorem expanded_visitPrior
    (base : V -> Option Nat) (stack : List V) (best : Option Nat) (p : V) :
    Expanded base [p] stack best (visitPrior base (stack, best) p) := by
  unfold visitPrior
  cases hbase : base p with
  | some i =>
      refine ⟨?_, Nat.le_add_right _ _, fun j => atMost_improve_of_atMost i, ?_, ?_⟩
      · intro q
        constructor
        · exact Or.inl
        · rintro (hq | ⟨hq, hoff⟩)
          · exact hq
          · rw [List.mem_singleton.mp hq, hbase] at hoff
            cases hoff
      · intro q j hq hqbase
        rw [List.mem_singleton.mp hq, hbase] at hqbase
        cases hqbase
        exact atMost_improve best i
      · intro b hb
        rcases improve_eq_some hb with hbest | rfl
        · exact Or.inl hbest
        · exact Or.inr ⟨p, List.mem_singleton_self p, hbase⟩
  | none =>
      refine ⟨?_, le_refl _, fun _ h => h, ?_, fun _ => Or.inl⟩
      · intro q
        rw [List.mem_cons, List.mem_singleton]
        constructor
        · rintro (rfl | hq)
          · exact Or.inr ⟨rfl, hbase⟩
          · exact Or.inl hq
        · rintro (hq | ⟨hq, _⟩)
          · exact Or.inr hq
          · exact Or.inl hq
      · intro q j hq hqbase
        rw [List.mem_singleton.mp hq, hbase] at hqbase
        cases hqbase

theorem Expanded.append
    {base : V -> Option Nat} {ps qs stack : List V} {s t : List V × Option Nat}
    (hps : Expanded base ps stack best s) (hqs : Expanded base qs s.1 s.2 t) :
    Expanded base (ps ++ qs) stack best t := by
  refine ⟨?_, ?_, ?_, ?_, ?_⟩
  · intro p
    rw [hqs.pushed, hps.pushed, List.mem_append, or_assoc, or_and_right]
  · have hfirst := hps.length
    have hrest := hqs.length
    rw [List.length_append]
    omega
  · intro j hj
    exact hqs.kept j (hps.kept j hj)
  · intro p i hp hbase
    rcases List.mem_append.mp hp with hp | hp
    · exact hqs.kept i (hps.met p i hp hbase)
    · exact hqs.met p i hp hbase
  · intro b hb
    rcases hqs.sound b hb with hb | ⟨p, hp, hbase⟩
    · rcases hps.sound b hb with hbest | ⟨p, hp, hbase⟩
      · exact Or.inl hbest
      · exact Or.inr ⟨p, List.mem_append_left _ hp, hbase⟩
    · exact Or.inr ⟨p, List.mem_append_right _ hp, hbase⟩

theorem expanded_foldl
    (base : V -> Option Nat) (ps : List V) :
    forall stack best, Expanded base ps stack best (ps.foldl (visitPrior base) (stack, best)) := by
  induction ps with
  | nil =>
      intro stack best
      refine ⟨by simp, by simp, fun _ h => h, by simp, fun b h => Or.inl h⟩
  | cons p ps ih =>
      intro stack best
      exact (expanded_visitPrior base stack best p).append (ih _ _)

end Expand

/-!
## The invariant
-/

structure WalkInv (edges : List (V × V)) (base : V -> Option Nat) (start : V)
    (stack : List V) (seen : Finset V) (best : Option Nat) : Prop where
  stackLeads : forall d, d ∈ stack -> Leads edges base start d
  seenLeads : forall d, d ∈ seen -> Leads edges base start d
  bestMeets : forall b, best = some b -> Meets edges base start b
  started : start ∈ seen ∨ start ∈ stack
  closed : forall d p, d ∈ seen -> (d, p) ∈ edges -> base p = none -> p ∈ seen ∨ p ∈ stack
  kept : forall d p i, d ∈ seen -> (d, p) ∈ edges -> base p = some i -> AtMost best i

structure IsMeet (edges : List (V × V)) (base : V -> Option Nat) (start : V)
    (answer : Option Nat) : Prop where
  met : forall b, answer = some b -> Meets edges base start b
  least : forall i, Meets edges base start i -> AtMost answer i

theorem isMeet_of_done
    {edges : List (V × V)} {base : V -> Option Nat} {start : V} {seen : Finset V}
    {best : Option Nat} (hinv : WalkInv edges base start [] seen best) :
    IsMeet edges base start best := by
  have hall : forall d, Leads edges base start d -> d ∈ seen := by
    intro d hd
    induction hd with
    | start =>
        rcases hinv.started with hstart | hstart
        · exact hstart
        · cases hstart
    | step _ hedge hoff ih =>
        rcases hinv.closed _ _ ih hedge hoff with hp | hp
        · exact hp
        · cases hp
  refine ⟨hinv.bestMeets, ?_⟩
  rintro i ⟨d, p, hd, hedge, hbase⟩
  exact hinv.kept d p i (hall d hd) hedge hbase

/-!
## The whole walk
-/

section Spec

variable [DecidableEq V] {edges : List (V × V)} {base : V -> Option Nat} {start : V}

theorem mem_priorsOf_iff
    (d p : V) :
    p ∈ priorsOf edges d <-> (d, p) ∈ edges := by
  simp only [priorsOf, List.mem_map, List.mem_filter, decide_eq_true_eq, Prod.exists]
  constructor
  · rintro ⟨d', p', ⟨hedge, rfl⟩, rfl⟩
    exact hedge
  · intro hedge
    exact ⟨d, p, ⟨hedge, rfl⟩, rfl⟩

def pendingEdges (edges : List (V × V)) (seen : Finset V) : List (V × V) :=
  edges.filter fun e => decide (e.1 ∉ seen)

theorem pendingEdges_insert
    (edges : List (V × V)) {d : V} {seen : Finset V} (hnew : d ∉ seen) :
    (pendingEdges edges (insert d seen)).length + (priorsOf edges d).length =
      (pendingEdges edges seen).length := by
  unfold pendingEdges priorsOf
  rw [List.length_map]
  induction edges with
  | nil => rfl
  | cons e rest ih =>
      simp only [List.filter_cons, Finset.mem_insert, not_or]
      by_cases hd : e.1 = d
      · have hunseen : e.1 ∉ seen := by
          rw [hd]
          exact hnew
        simp only [hd, hnew, not_true_eq_false, false_and, decide_false, not_false_eq_true,
          decide_true, if_true, List.length_cons]
        simp only [Finset.mem_insert, not_or] at ih
        simp only [Bool.false_eq_true, if_false]
        omega
      · simp only [Finset.mem_insert, not_or] at ih
        by_cases hseen : e.1 ∈ seen
        · simpa [hd, hseen] using ih
        · simp only [hd, hseen, not_false_eq_true, and_self, decide_true, if_true, decide_false,
            List.length_cons, Bool.false_eq_true, if_false]
          omega

theorem mem_of_leads
    {d : V} (h : Leads edges base start d) :
    d ∈ insert start (edges.map Prod.snd).toFinset := by
  cases h with
  | start => exact Finset.mem_insert_self _ _
  | step _ hedge _ =>
      rw [Finset.mem_insert, List.mem_toFinset]
      exact Or.inr (List.mem_map_of_mem hedge)

theorem card_le_of_leads
    {seen : Finset V} (h : forall d, d ∈ seen -> Leads edges base start d) :
    seen.card ≤ edges.length + 1 := by
  have hsub : seen ⊆ insert start (edges.map Prod.snd).toFinset := fun d hd =>
    mem_of_leads (h d hd)
  calc
    seen.card ≤ (insert start (edges.map Prod.snd).toFinset).card := Finset.card_le_card hsub
    _ ≤ (edges.map Prod.snd).toFinset.card + 1 := Finset.card_insert_le _ _
    _ ≤ (edges.map Prod.snd).length + 1 := Nat.add_le_add_right (List.toFinset_card_le _) 1
    _ = edges.length + 1 := by rw [List.length_map]

variable {stack : List V} {seen : Finset V} {best : Option Nat} {d : V}

theorem walkInv_skip
    (hinv : WalkInv edges base start (d :: stack) seen best) (hseen : d ∈ seen) :
    WalkInv edges base start stack (insert d seen) best := by
  rw [Finset.insert_eq_self.mpr hseen]
  refine ⟨fun e he => hinv.stackLeads e (List.mem_cons_of_mem _ he), hinv.seenLeads,
    hinv.bestMeets, ?_, ?_, hinv.kept⟩
  · rcases hinv.started with hstart | hstart
    · exact Or.inl hstart
    · rcases List.mem_cons.mp hstart with rfl | hstart
      · exact Or.inl hseen
      · exact Or.inr hstart
  · intro e p he hedge hoff
    rcases hinv.closed e p he hedge hoff with hp | hp
    · exact Or.inl hp
    · rcases List.mem_cons.mp hp with rfl | hp
      · exact Or.inl hseen
      · exact Or.inr hp

theorem walkInv_expand
    {s : List V × Option Nat} (hinv : WalkInv edges base start (d :: stack) seen best)
    (hs : Expanded base (priorsOf edges d) stack best s) :
    WalkInv edges base start s.1 (insert d seen) s.2 := by
  have hd := hinv.stackLeads d List.mem_cons_self
  refine ⟨?_, ?_, ?_, ?_, ?_, ?_⟩
  · intro e he
    rcases (hs.pushed e).mp he with hstack | ⟨hprior, hoff⟩
    · exact hinv.stackLeads e (List.mem_cons_of_mem _ hstack)
    · exact .step hd ((mem_priorsOf_iff d e).mp hprior) hoff
  · intro e he
    rcases Finset.mem_insert.mp he with rfl | he
    · exact hd
    · exact hinv.seenLeads e he
  · intro b hb
    rcases hs.sound b hb with hbest | ⟨p, hp, hbase⟩
    · exact hinv.bestMeets b hbest
    · exact ⟨d, p, hd, (mem_priorsOf_iff d p).mp hp, hbase⟩
  · rcases hinv.started with hstart | hstart
    · exact Or.inl (Finset.mem_insert_of_mem hstart)
    · rcases List.mem_cons.mp hstart with rfl | hstart
      · exact Or.inl (Finset.mem_insert_self _ _)
      · exact Or.inr ((hs.pushed start).mpr (Or.inl hstart))
  · intro e p he hedge hoff
    rcases Finset.mem_insert.mp he with rfl | he
    · exact Or.inr ((hs.pushed p).mpr (Or.inr ⟨(mem_priorsOf_iff e p).mpr hedge, hoff⟩))
    · rcases hinv.closed e p he hedge hoff with hp | hp
      · exact Or.inl (Finset.mem_insert_of_mem hp)
      · rcases List.mem_cons.mp hp with rfl | hp
        · exact Or.inl (Finset.mem_insert_self _ _)
        · exact Or.inr ((hs.pushed p).mpr (Or.inl hp))
  · intro e p i he hedge hbase
    rcases Finset.mem_insert.mp he with rfl | he
    · exact hs.met p i ((mem_priorsOf_iff e p).mpr hedge) hbase
    · exact hs.kept i (hinv.kept e p i he hedge hbase)

theorem isMeet_walk
    {cap : Nat} (hcap : edges.length + 1 ≤ cap) (rounds : Nat) (stack : List V) (seen : Finset V)
    (best : Option Nat) (hinv : WalkInv edges base start stack seen best)
    (hrounds : stack.length + (pendingEdges edges seen).length ≤ rounds) :
    IsMeet edges base start (walk edges base cap rounds stack seen best) := by
  induction rounds generalizing stack seen best with
  | zero =>
      have hempty : stack = [] := List.length_eq_zero_iff.mp (by omega)
      subst hempty
      exact isMeet_of_done hinv
  | succ rounds ih =>
      cases stack with
      | nil => exact isMeet_of_done hinv
      | cons d stack =>
          rw [List.length_cons] at hrounds
          by_cases hseen : d ∈ seen
          · have hstep : walk edges base cap (rounds + 1) (d :: stack) seen best =
                walk edges base cap rounds stack (insert d seen) best := by
              rw [walk, if_pos (Or.inl hseen)]
            rw [hstep]
            refine ih _ _ _ (walkInv_skip hinv hseen) ?_
            rw [Finset.insert_eq_self.mpr hseen]
            omega
          · have hs := expanded_foldl base (priorsOf edges d) stack best
            have hnext := walkInv_expand hinv hs
            have hcard : ¬ cap < (insert d seen).card :=
              not_lt.mpr (le_trans (card_le_of_leads hnext.seenLeads) hcap)
            have hstep : walk edges base cap (rounds + 1) (d :: stack) seen best =
                walk edges base cap rounds
                  ((priorsOf edges d).foldl (visitPrior base) (stack, best)).1 (insert d seen)
                  ((priorsOf edges d).foldl (visitPrior base) (stack, best)).2 := by
              rw [walk, if_neg (not_or.mpr ⟨hseen, hcard⟩)]
            rw [hstep]
            refine ih _ _ _ hnext ?_
            have hlen := hs.length
            have hpending := pendingEdges_insert edges hseen
            omega

theorem isMeet_meet
    {cap : Nat} (hcap : edges.length + 1 ≤ cap) (start : V) :
    IsMeet edges base start (meet edges base cap start) := by
  refine isMeet_walk hcap _ _ _ _ ?_ ?_
  · refine ⟨?_, by simp, by simp, Or.inr List.mem_cons_self, by simp, by simp⟩
    intro d hd
    rw [List.mem_singleton.mp hd]
    exact .start
  · have hpending : (pendingEdges edges (∅ : Finset V)).length ≤ edges.length :=
      List.length_filter_le _ _
    rw [List.length_singleton]
    omega

end Spec

end Ancestry
