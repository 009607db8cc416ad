import Mathlib.Data.List.Sort
import Mathlib.Order.Defs.Unbundled

/-!
# Reading in pages behind a mark

A list of rows is read page by page.  Each page holds rows past a mark in the order of
their keys, and the mark moves to the key of its last row.  What is present may change
between the pages.  As long as rows are only added, the pages put end to end are in
order, and what was present from the start is missed by no finished walk.
-/

namespace CirisPersist.Keyset

section Library

universe u v

variable {R : Type u} {K : Type v} (lt : K -> K -> Prop) (key : R -> K)

def Past (mark : Option K) (r : R) : Prop :=
  forall m, mark = some m -> lt m (key r)

def Ascending (rows : List R) : Prop :=
  rows.Pairwise fun a b => lt (key a) (key b)

/-- One page of what is present past a mark.  There is a next mark, the key of the last row,
as long as something may be left. -/
structure Page (present : R -> Prop) (mark : Option K) (rows : List R) (next : Option K) :
    Prop where
  ascending : Ascending lt key rows
  sound : forall r, r ∈ rows -> present r ∧ Past lt key mark r
  complete : forall r, present r -> Past lt key mark r ->
    r ∈ rows ∨ exists k, next = some k ∧ lt k (key r)
  last : forall k, next = some k ->
    (exists r, r ∈ rows ∧ key r = k) ∧ forall r, r ∈ rows -> ¬ lt k (key r)

/-- Pages served one after the other, with what is present at each. -/
inductive Walk (present : Nat -> R -> Prop) (start : Option K) :
    Nat -> List R -> Option K -> Prop where
  | start : Walk present start 0 [] start
  | page {n : Nat} {rows page : List R} {mark : Option K} {k : K} :
      Walk present start n rows mark -> Page lt key (present n) mark page (some k) ->
        Walk present start (n + 1) (rows ++ page) (some k)

def Finished (present : Nat -> R -> Prop) (start : Option K) (rows : List R) : Prop :=
  exists n front page mark, rows = front ++ page ∧
    Walk lt key present start n front mark ∧ Page lt key (present n) mark page none

/-!
## One page
-/

section Cut

variable {lt key}
variable {present : R -> Prop} {mark : Option K} {answer : List R}

theorem page_of_whole
    (hsorted : Ascending lt key answer)
    (hanswer : forall r, r ∈ answer <-> present r ∧ Past lt key mark r) :
    Page lt key present mark answer none where
  ascending := hsorted
  sound := fun r hr => (hanswer r).mp hr
  complete := fun r hpresent hpast => Or.inl ((hanswer r).mpr ⟨hpresent, hpast⟩)
  last := by
    intro k hk
    cases hk

theorem page_of_front
    [IsStrictOrder K lt] {front rest : List R} {last : R} (hsorted : Ascending lt key answer)
    (hanswer : forall r, r ∈ answer <-> present r ∧ Past lt key mark r)
    (hcut : answer = (front ++ [last]) ++ rest) :
    Page lt key present mark (front ++ [last]) (some (key last)) := by
  subst hcut
  rcases List.pairwise_append.mp hsorted with ⟨hfront, -, hacross⟩
  constructor
  · exact hfront
  · intro r hr
    exact (hanswer r).mp (List.mem_append_left rest hr)
  · intro r hpresent hpast
    rcases List.mem_append.mp ((hanswer r).mpr ⟨hpresent, hpast⟩) with hr | hr
    · exact Or.inl hr
    · exact Or.inr ⟨key last, rfl, hacross last (by simp) r hr⟩
  · intro k hk
    cases hk
    refine ⟨⟨last, by simp, rfl⟩, ?_⟩
    intro r hr hlt
    rcases List.mem_append.mp hr with hr | hr
    · have hbefore := (List.pairwise_append.mp hfront).2.2 r hr last List.mem_cons_self
      exact irrefl_of lt (key last) (trans_of lt hlt hbefore)
    · rw [List.mem_singleton.mp hr] at hlt
      exact irrefl_of lt (key last) hlt

end Cut

/-!
## Whole walks
-/

section Walks

variable {lt key}
variable [IsStrictTotalOrder K lt]

variable {mark : Option K}

theorem lt_of_not_past
    {a b : R} (ha : ¬ Past lt key mark a) (hb : Past lt key mark b) :
    lt (key a) (key b) := by
  cases mark with
  | none =>
      refine absurd ?_ ha
      intro m hm
      cases hm
  | some m =>
      have hmb : lt m (key b) := hb m rfl
      have hma : ¬ lt m (key a) := by
        intro hlt
        refine ha ?_
        intro m' hm'
        cases hm'
        exact hlt
      rcases trichotomous_of lt m (key a) with hlt | heq | hgt
      · exact absurd hlt hma
      · rw [← heq]
        exact hmb
      · exact trans_of lt hgt hmb

variable {page rows : List R}

theorem ascending_append
    (hrows : Ascending lt key rows) (hpage : Ascending lt key page)
    (hbehind : forall r, r ∈ rows -> ¬ Past lt key mark r)
    (hpast : forall r, r ∈ page -> Past lt key mark r) :
    Ascending lt key (rows ++ page) := by
  refine List.pairwise_append.mpr ⟨hrows, hpage, ?_⟩
  intro a ha b hb
  exact lt_of_not_past (hbehind a ha) (hpast b hb)

theorem Ascending.nodup
    (h : Ascending lt key rows) :
    rows.Nodup := by
  refine List.Pairwise.imp ?_ h
  intro a b hlt heq
  rw [heq] at hlt
  exact irrefl_of lt (key b) hlt

theorem Ascending.eq_of_mem_iff
    {rows' : List R} (h : Ascending lt key rows) (h' : Ascending lt key rows')
    (hmem : forall r, r ∈ rows <-> r ∈ rows') :
    rows = rows' := by
  have hirrefl : Std.Irrefl fun a b : R => lt (key a) (key b) := ⟨fun a => irrefl_of lt (key a)⟩
  have hantisymm : Std.Antisymm fun a b : R => lt (key a) (key b) :=
    ⟨fun a b hab hba => absurd (trans_of lt hab hba) (irrefl_of lt (key a))⟩
  exact List.Pairwise.eq_of_mem_iff h h' hmem

variable {present : Nat -> R -> Prop} {start : Option K}

/-- What the pages so far hold, and what they have left behind the mark. -/
structure Covers (lt : K -> K -> Prop) (key : R -> K) (present : Nat -> R -> Prop)
    (start : Option K) (n : Nat) (rows : List R) (mark : Option K) : Prop where
  ascending : Ascending lt key rows
  sound : forall r, r ∈ rows -> (exists i, i < n ∧ present i r) ∧ Past lt key start r
  behind : forall r, r ∈ rows -> ¬ Past lt key mark r
  onward : forall r, Past lt key mark r -> Past lt key start r
  complete : forall r, present 0 r -> Past lt key start r -> r ∈ rows ∨ Past lt key mark r
  length : n ≤ rows.length

section Growing

variable (hgrow : forall n r, present n r -> present (n + 1) r)

include hgrow

theorem mono_present
    {r : R} (h : present 0 r) (n : Nat) :
    present n r := by
  induction n with
  | zero => exact h
  | succ n ih => exact hgrow n r ih

variable {n : Nat}

theorem Covers.append
    {next : Option K} (hcovers : Covers lt key present start n rows mark)
    (hpage : Page lt key (present n) mark page next) :
    Ascending lt key (rows ++ page) ∧
    (forall r, r ∈ rows ++ page -> (exists i, i < n + 1 ∧ present i r) ∧ Past lt key start r) ∧
    forall r, present 0 r -> Past lt key start r ->
      r ∈ rows ++ page ∨ exists k, next = some k ∧ lt k (key r) := by
  have hpast : forall r, r ∈ page -> Past lt key mark r := fun r hr => (hpage.sound r hr).2
  refine ⟨ascending_append hcovers.ascending hpage.ascending hcovers.behind hpast, ?_, ?_⟩
  · intro r hr
    rcases List.mem_append.mp hr with hr | hr
    · rcases hcovers.sound r hr with ⟨⟨i, hi, hpresent⟩, hstart⟩
      exact ⟨⟨i, Nat.lt_succ_of_lt hi, hpresent⟩, hstart⟩
    · exact ⟨⟨n, Nat.lt_succ_self n, (hpage.sound r hr).1⟩, hcovers.onward r (hpast r hr)⟩
  · intro r hpresent hstart
    rcases hcovers.complete r hpresent hstart with hr | hr
    · exact Or.inl (List.mem_append_left page hr)
    · exact (hpage.complete r (mono_present hgrow hpresent n) hr).imp_left
        (List.mem_append_right rows)

theorem Covers.step
    {k : K} (hcovers : Covers lt key present start n rows mark)
    (hpage : Page lt key (present n) mark page (some k)) :
    Covers lt key present start (n + 1) (rows ++ page) (some k) := by
  rcases hcovers.append hgrow hpage with ⟨hascending, hsound, hcomplete⟩
  rcases hpage.last k rfl with ⟨⟨last, hlast, rfl⟩, hbehind⟩
  have hpast : Past lt key mark last := (hpage.sound last hlast).2
  constructor
  · exact hascending
  · exact hsound
  · intro r hr hafter
    rcases List.mem_append.mp hr with hr | hr
    · have hbefore := lt_of_not_past (hcovers.behind r hr) hpast
      exact irrefl_of lt _ (trans_of lt hbefore (hafter (key last) rfl))
    · exact hbehind r hr (hafter (key last) rfl)
  · intro r hafter
    refine hcovers.onward r ?_
    intro m hm
    exact trans_of lt (hpast m hm) (hafter (key last) rfl)
  · intro r hpresent hstart
    rcases hcomplete r hpresent hstart with hr | ⟨k, hk, hlt⟩
    · exact Or.inl hr
    · refine Or.inr ?_
      intro m hm
      rw [hk] at hm
      cases hm
      exact hlt
  · have hlength := hcovers.length
    have hnonempty : 0 < page.length := List.length_pos_of_mem hlast
    rw [List.length_append]
    omega

theorem Walk.covers
    (hwalk : Walk lt key present start n rows mark) :
    Covers lt key present start n rows mark := by
  induction hwalk with
  | start =>
      constructor
      · exact List.Pairwise.nil
      · intro r hr
        cases hr
      · intro r hr
        cases hr
      · intro r h
        exact h
      · intro r _ h
        exact Or.inr h
      · exact Nat.le_refl 0
  | page hwalk hpage ih => exact ih.step hgrow hpage

theorem Finished.covers
    (h : Finished lt key present start rows) :
    Ascending lt key rows ∧
    (forall r, r ∈ rows -> (exists i, present i r) ∧ Past lt key start r) ∧
    forall r, present 0 r -> Past lt key start r -> r ∈ rows := by
  rcases h with ⟨n, front, page, mark, rfl, hwalk, hpage⟩
  rcases (hwalk.covers hgrow).append hgrow hpage with ⟨hascending, hsound, hcomplete⟩
  refine ⟨hascending, ?_, ?_⟩
  · intro r hr
    rcases hsound r hr with ⟨⟨i, -, hpresent⟩, hstart⟩
    exact ⟨⟨i, hpresent⟩, hstart⟩
  · intro r hpresent hstart
    rcases hcomplete r hpresent hstart with hr | ⟨k, hk, -⟩
    · exact hr
    · cases hk

theorem Walk.le_length
    (hwalk : Walk lt key present start n rows mark) {bound : List R}
    (hbound : forall i r, present i r -> r ∈ bound) :
    n ≤ bound.length := by
  have hcovers := hwalk.covers hgrow
  have hsub : rows ⊆ bound := by
    intro r hr
    rcases (hcovers.sound r hr).1 with ⟨i, -, hpresent⟩
    exact hbound i r hpresent
  exact Nat.le_trans hcovers.length (List.subperm_of_subset hcovers.ascending.nodup hsub).length_le

end Growing

end Walks

end Library

end CirisPersist.Keyset
