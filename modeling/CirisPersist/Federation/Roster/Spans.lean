import CirisPersist.Federation.Roster.History

/-!
# Membership spans

One loop keeps the roster and, for each active member, the start of the current span of
membership.  The spans are read off the history: a record member that was never removed
has no start, and any other span starts with the addition that last found its key inactive.
-/

namespace CirisPersist.Federation

/-- An addition that found the key inactive, after which the key was only added again. -/
def SpanStart (history : List AppliedEvent) (k : String) (t : Instant) : Prop :=
  exists before x after, history = before ++ x :: after ∧
    x.2.member.keyId = k ∧ x.2.isAdd = true ∧ x.1.active? k = none ∧ x.2.effectiveAt = t ∧
    forall y, y ∈ after -> y.2.member.keyId = k ->
      y.2.isAdd = true ∧ (y.1.active? k).isSome = true

def NeverRemoved (record : List CommunityMember) (history : List AppliedEvent) (k : String) :
    Prop :=
  (exists m, m ∈ record ∧ m.keyId = k) ∧
    forall x, x ∈ history -> x.2.member.keyId = k -> x.2.isAdd = true

/-- What the two maps of the loop say of the history so far. -/
structure SpanInv (record : List CommunityMember) (history : List AppliedEvent) (s : RosterState)
    (spans : RosterSpans) : Prop where
  active : forall k, spans[k]?.isSome = (s.active? k).isSome
  founding : forall k, spans[k]? = some none <-> NeverRemoved record history k
  started : forall k t, spans[k]? = some (some t) <-> SpanStart history k t

/-!
## The empty history
-/

theorem getElem?_recordSpans
    (record : List CommunityMember) (k : String) :
    (Std.TreeMap.ofList (record.map fun m => (m.keyId, none)) : RosterSpans)[k]? =
      ((RosterState.ofRecord record).active? k).map fun _ => none := by
  rw [RosterState.active?_ofRecord, Std.TreeMap.ofList_eq_insertMany_empty,
    Std.TreeMap.getElem?_insertMany_list, List.findSomeRev?_eq_findSome?_reverse,
    ← List.map_reverse, List.findSome?_map, Std.TreeMap.getElem?_emptyc, Option.or_none]
  induction record.reverse with
  | nil => rfl
  | cons m rest ih =>
      rw [List.findSome?_cons, List.find?_cons]
      by_cases hkey : m.keyId = k
      · simp [hkey]
      · have hbeq : (m.keyId == k) = false := beq_false_of_ne hkey
        simpa [hkey, hbeq] using ih

theorem not_spanStart_nil
    (k : String) (t : Instant) :
    ¬ SpanStart [] k t := by
  rintro ⟨before, x, after, heq, -⟩
  exact absurd (congrArg List.length heq) (by simp)

theorem spanInv_record
    (record : List CommunityMember) :
    SpanInv record [] (RosterState.ofRecord record)
      (Std.TreeMap.ofList (record.map fun m => (m.keyId, none))) := by
  constructor
  · intro k
    rw [getElem?_recordSpans, Option.isSome_map]
  · intro k
    have hmember : (RosterState.ofRecord record).active? k = none <->
        ¬ exists m, m ∈ record ∧ m.keyId = k := by
      rw [RosterState.active?_ofRecord_none_iff]
      simp
    rw [getElem?_recordSpans, NeverRemoved]
    cases hactive : (RosterState.ofRecord record).active? k with
    | none =>
        apply iff_of_false
        · exact nofun
        · intro hnever
          exact hmember.mp hactive hnever.1
    | some m =>
        apply iff_of_true rfl
        refine ⟨?_, nofun⟩
        apply Classical.byContradiction
        intro hnot
        rw [hmember.mpr hnot] at hactive
        cases hactive
  · intro k t
    rw [getElem?_recordSpans]
    apply iff_of_false
    · simp
    · exact not_spanStart_nil k t

/-!
## One applied event
-/

theorem spanStart_append_iff
    (history : List AppliedEvent) (y : AppliedEvent) (k : String) (t : Instant) :
    SpanStart (history ++ [y]) k t <->
      (y.2.member.keyId = k ∧ y.2.isAdd = true ∧ y.1.active? k = none ∧ y.2.effectiveAt = t) ∨
      (SpanStart history k t ∧
        (y.2.member.keyId = k -> y.2.isAdd = true ∧ (y.1.active? k).isSome = true)) := by
  constructor
  · rintro ⟨before, x, after, heq, hkey, hadd, hinactive, hdate, hafter⟩
    rcases List.eq_nil_or_concat' after with rfl | ⟨after, z, rfl⟩
    · rcases List.append_inj' heq rfl with ⟨-, hlast⟩
      cases List.singleton_injective hlast
      exact Or.inl ⟨hkey, hadd, hinactive, hdate⟩
    · rw [← List.cons_append, ← List.append_assoc] at heq
      rcases List.append_inj' heq rfl with ⟨rfl, hlast⟩
      cases List.singleton_injective hlast
      refine Or.inr ⟨⟨before, x, after, rfl, hkey, hadd, hinactive, hdate, ?_⟩, ?_⟩
      · intro y hy
        exact hafter y (List.mem_append_left _ hy)
      · exact hafter y (List.mem_append_right _ (List.mem_singleton_self y))
  · rintro (⟨hkey, hadd, hinactive, hdate⟩ | ⟨⟨before, x, after, rfl, hstart⟩, hlast⟩)
    · exact ⟨history, y, [], rfl, hkey, hadd, hinactive, hdate, nofun⟩
    · rcases hstart with ⟨hkey, hadd, hinactive, hdate, hafter⟩
      refine ⟨before, x, after ++ [y], by simp, hkey, hadd, hinactive, hdate, ?_⟩
      intro z hz
      rcases List.mem_append.mp hz with hz | hz
      · exact hafter z hz
      · rw [List.mem_singleton.mp hz]
        exact hlast

theorem neverRemoved_append_iff
    (record : List CommunityMember) (history : List AppliedEvent) (y : AppliedEvent) (k : String) :
    NeverRemoved record (history ++ [y]) k <->
      NeverRemoved record history k ∧ (y.2.member.keyId = k -> y.2.isAdd = true) := by
  simp only [NeverRemoved, List.mem_append, List.mem_singleton, or_imp, forall_and,
    forall_eq, and_assoc]

theorem getElem?_spansStep
    (s : RosterState) (spans : RosterSpans) (e : RosterEvent) (k : String) :
    (spansStep s spans e)[k]? =
      if e.member.keyId = k then
        if e.isAdd = false then none
        else if (s.active? k).isSome = true then spans[k]?
        else some (some e.effectiveAt)
      else spans[k]? := by
  unfold spansStep
  by_cases hkey : e.member.keyId = k
  · subst hkey
    rw [if_pos rfl]
    cases e.isAdd with
    | false => simp
    | true =>
        cases (s.active? e.member.keyId).isSome with
        | false => simp
        | true => simp
  · rw [if_neg hkey]
    cases e.isAdd with
    | false => simp [Std.TreeMap.getElem?_erase, hkey]
    | true =>
        cases (s.active? e.member.keyId).isSome with
        | false => simp [Std.TreeMap.getElem?_insert, hkey]
        | true => simp

theorem SpanInv.apply
    {record : List CommunityMember} {history : List AppliedEvent} {s : RosterState}
    {spans : RosterSpans} (h : SpanInv record history s spans) (e : RosterEvent) :
    SpanInv record (history ++ [(s, e)]) (s.put e.isAdd e.member) (spansStep s spans e) := by
  constructor
  · intro k
    rw [getElem?_spansStep, RosterState.active?_put]
    by_cases hkey : e.member.keyId = k
    · rw [if_pos hkey, if_pos hkey]
      cases e.isAdd with
      | false => rfl
      | true =>
          cases hactive : (s.active? k).isSome with
          | false => rfl
          | true =>
              have hspan := h.active k
              rw [hactive] at hspan
              exact hspan
    · rw [if_neg hkey, if_neg hkey]
      exact h.active k
  · intro k
    rw [getElem?_spansStep, neverRemoved_append_iff]
    by_cases hkey : e.member.keyId = k
    · rw [if_pos hkey]
      cases hadd : e.isAdd with
      | false => simp [hkey]
      | true =>
          cases hactive : (s.active? k).isSome with
          | false =>
              -- a key that was never removed would be active
              have hnot : ¬ NeverRemoved record history k := by
                intro hnever
                have hspan := h.active k
                rw [(h.founding k).mpr hnever, hactive] at hspan
                cases hspan
              simp [hnot]
          | true => simp [h.founding k]
    · rw [if_neg hkey, h.founding k]
      exact (and_iff_left_of_imp fun _ hsame => absurd hsame hkey).symm
  · intro k t
    rw [getElem?_spansStep, spanStart_append_iff]
    by_cases hkey : e.member.keyId = k
    · rw [if_pos hkey]
      cases hadd : e.isAdd with
      | false => simp [hkey]
      | true =>
          cases hactive : s.active? k with
          | none => simp [hkey]
          | some m => simp [h.started k t]
    · rw [if_neg hkey, h.started k t]
      simp [hkey]

/-!
## The replay
-/

section Replay

variable {W : Type} [RubricNum W] [External] {rules : RosterRules}
  {record : List CommunityMember}

theorem SpanInv.replay
    (events : List RosterEvent) {history : List AppliedEvent} {s : RosterState}
    {spans : RosterSpans} (h : SpanInv record history s spans) :
    SpanInv record (history ++ appliedFrom W rules s events)
      (events.foldl (foldRosterStep W rules) (s, spans)).1
      (events.foldl (foldRosterStep W rules) (s, spans)).2 := by
  induction events generalizing history s spans with
  | nil =>
      rw [appliedFrom, List.append_nil]
      exact h
  | cons e events ih =>
      rw [appliedFrom, List.foldl_cons, foldRosterStep]
      cases happlies : eventApplies W rules s e with
      | true =>
          have happlied := ih (h.apply e)
          rw [List.append_assoc, List.singleton_append] at happlied
          exact happlied
      | false => exact ih h

end Replay

variable (W : Type) [RubricNum W] [External] in
/-- The spans are kept for exactly the active members, and start where the history says. -/
theorem roster_spans_agree
    (record : List CommunityMember) (rules : RosterRules) (events : List RosterEvent)
    (asOf : Instant) :
    let spans := authorizedRosterSpansAt W record rules events asOf
    let history := rosterHistory W record rules events asOf
    (forall k, k ∈ spans <->
      ((authorizedRosterStateAt W record rules events asOf).active? k).isSome = true) ∧
    (forall k, spans[k]? = some none <-> NeverRemoved record history k) ∧
    (forall k t, spans[k]? = some (some t) <-> SpanStart history k t) := by
  intro spans history
  have hinv : SpanInv record history (authorizedRosterStateAt W record rules events asOf) spans :=
    (spanInv_record record).replay (rosterOrder events asOf)
  refine ⟨?_, hinv.founding, hinv.started⟩
  intro k
  rw [Std.TreeMap.mem_iff_isSome_getElem?, hinv.active k]

end CirisPersist.Federation
