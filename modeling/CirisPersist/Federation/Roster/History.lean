import CirisPersist.Federation.Roster.Replicas

/-!
# The history of a roster

The replay of a roster applies some of its events and leaves the others inert.  The events
it applied, each with the state it was applied to, are the roster's history.  A replay up
to a later instant goes on from the replay up to an earlier one, so no event reaches back;
at one instant the additions come first, so a removal has the last word.
-/

namespace CirisPersist.Federation

/-!
## The order of the replay
-/

theorem sortRosterEvents_eq_append
    (events : List RosterEvent) (t : Instant) :
    sortRosterEvents events =
      rosterOrder events t ++ sortRosterEvents (events.filter fun e => decide (t < e.effectiveAt)) := by
  have hlate : (events.filter fun e => !decide (e.effectiveAt ≤ t)) =
      events.filter fun e => decide (t < e.effectiveAt) := by
    apply List.filter_congr
    intro e _
    rw [← decide_not]
    simp only [not_le]
  rw [sortRosterEvents, Sorting.insertionSort_eq_append rosterEventBefore_iff
    (fun e => decide (e.effectiveAt ≤ t)), hlate]
  · rfl
  · intro a _ b _ ha hb
    have hlt : a.effectiveAt < b.effectiveAt :=
      lt_of_le_of_lt (of_decide_eq_true ha) (not_le.mp (of_decide_eq_false hb))
    exact Prod.Lex.toLex_lt_toLex.mpr (Or.inl hlt)

variable {t t' : Instant}

theorem rosterOrder_eq_append
    (events : List RosterEvent) (ht : t ≤ t') :
    rosterOrder events t' =
      rosterOrder events t ++ rosterOrder (events.filter fun e => decide (t < e.effectiveAt)) t' := by
  have hearly : (events.filter fun e => decide (e.effectiveAt ≤ t')).filter
      (fun e => decide (e.effectiveAt ≤ t)) = events.filter fun e => decide (e.effectiveAt ≤ t) := by
    rw [List.filter_filter]
    apply List.filter_congr
    intro e _
    rw [← Bool.decide_and, decide_eq_decide]
    exact and_iff_left_of_imp fun h => le_trans h ht
  have hlate : (events.filter fun e => decide (e.effectiveAt ≤ t')).filter
      (fun e => decide (t < e.effectiveAt)) =
        (events.filter fun e => decide (t < e.effectiveAt)).filter
          fun e => decide (e.effectiveAt ≤ t') := by
    rw [List.filter_filter, List.filter_filter]
    apply List.filter_congr
    intro e _
    rw [Bool.and_comm]
  rw [rosterOrder, sortRosterEvents_eq_append _ t, rosterOrder, hearly, hlate]
  rfl

theorem isAdd_of_after_removal
    {a b : RosterEvent} (hkey : eventKey a ≤ eventKey b) (hsame : b.effectiveAt ≤ a.effectiveAt)
    (hremoval : a.isAdd = false) :
    b.isAdd = false := by
  rcases (rosterEventBefore_iff a b).mpr hkey with hlt | ⟨-, hkind | ⟨hkind, -⟩⟩
  · exact absurd hsame (not_le.mpr hlt)
  · exact hkind.2
  · rw [← hkind, hremoval]

variable {e : RosterEvent}

theorem exists_split_rosterOrder
    (pre post : List RosterEvent) (hdate : e.effectiveAt ≤ t) :
    exists before after, rosterOrder (pre ++ e :: post) t = before ++ e :: after ∧
      rosterOrder (pre ++ post) t = before ++ after := by
  rcases Sorting.exists_split_insertionSort rosterEventBefore_iff e
    (post.filter fun e => decide (e.effectiveAt ≤ t))
    (pre.filter fun e => decide (e.effectiveAt ≤ t)) with ⟨before, after, hwith, hwithout, -⟩
  refine ⟨before, after, ?_, ?_⟩
  · rw [rosterOrder, sortRosterEvents, List.filter_append, List.filter_cons_of_pos
      (by simpa using hdate), hwith]
  · rw [rosterOrder, sortRosterEvents, List.filter_append, hwithout]

/-!
## Applied events
-/

section History

variable (W : Type) [RubricNum W] [External]

/-- An event that was applied, with the roster immediately before it. -/
abbrev AppliedEvent :=
  RosterState × RosterEvent

def appliedFrom (rules : RosterRules) : RosterState -> List RosterEvent -> List AppliedEvent
  | _, [] => []
  | s, e :: rest =>
      if eventApplies W rules s e then
        (s, e) :: appliedFrom rules (s.put e.isAdd e.member) rest
      else
        appliedFrom rules s rest

def rosterHistory (record : List CommunityMember) (rules : RosterRules)
    (events : List RosterEvent) (asOf : Instant) : List AppliedEvent :=
  appliedFrom W rules (RosterState.ofRecord record) (rosterOrder events asOf)

variable {W} {rules : RosterRules}

variable {s : RosterState}

theorem rosterStep_of_applies
    (h : eventApplies W rules s e = true) :
    rosterStep W rules s e = s.put e.isAdd e.member :=
  if_pos h

theorem rosterStep_of_inert
    (h : eventApplies W rules s e = false) :
    rosterStep W rules s e = s := by
  rw [rosterStep, h]
  rfl

theorem appliedFrom_append
    (later events : List RosterEvent) :
    forall s, appliedFrom W rules s (events ++ later) =
      appliedFrom W rules s events ++
        appliedFrom W rules (events.foldl (rosterStep W rules) s) later := by
  induction events with
  | nil =>
      intro s
      rfl
  | cons e events ih =>
      intro s
      rw [List.cons_append, appliedFrom, appliedFrom, List.foldl_cons]
      cases happlies : eventApplies W rules s e with
      | true =>
          rw [if_pos rfl, if_pos rfl, rosterStep_of_applies happlies, ih, List.cons_append]
      | false =>
          rw [if_neg Bool.false_ne_true, if_neg Bool.false_ne_true, rosterStep_of_inert happlies, ih]

variable {x : AppliedEvent}

theorem exists_split_of_mem_appliedFrom
    (events : List RosterEvent) :
    forall {s}, x ∈ appliedFrom W rules s events ->
      exists before after, events = before ++ x.2 :: after ∧
        before.foldl (rosterStep W rules) s = x.1 ∧ eventApplies W rules x.1 x.2 = true := by
  induction events with
  | nil =>
      intro s h
      cases h
  | cons e events ih =>
      intro s h
      rw [appliedFrom] at h
      -- applied or inert, the first event is a step and the rest goes on from there
      have hlater : forall {s'}, rosterStep W rules s e = s' ->
          x ∈ appliedFrom W rules s' events ->
          exists before after, e :: events = before ++ x.2 :: after ∧
            before.foldl (rosterStep W rules) s = x.1 ∧ eventApplies W rules x.1 x.2 = true := by
        intro s' hstep hx
        rcases ih hx with ⟨before, after, rfl, hreach, happlies⟩
        refine ⟨e :: before, after, rfl, ?_, happlies⟩
        rw [List.foldl_cons, hstep, hreach]
      cases happlies : eventApplies W rules s e with
      | true =>
          rw [happlies, if_pos rfl] at h
          rcases List.mem_cons.mp h with rfl | h
          · exact ⟨[], events, rfl, rfl, happlies⟩
          · exact hlater (rosterStep_of_applies happlies) h
      | false =>
          rw [happlies, if_neg Bool.false_ne_true] at h
          exact hlater (rosterStep_of_inert happlies) h

/-!
## Going on from an earlier instant
-/

variable {record : List CommunityMember}

theorem authorizedRosterStateAt_eq_continued
    (events : List RosterEvent) (ht : t ≤ t') :
    authorizedRosterStateAt W record rules events t' =
      (rosterOrder (events.filter fun e => decide (t < e.effectiveAt)) t').foldl
        (rosterStep W rules) (authorizedRosterStateAt W record rules events t) := by
  rw [authorizedRosterStateAt_eq_replay, authorizedRosterStateAt_eq_replay,
    rosterOrder_eq_append events ht, List.foldl_append]

variable {events : List RosterEvent}

theorem authorizedRosterStateAt_eq_of_filter
    {events' : List RosterEvent} (h : (events'.filter fun e => decide (e.effectiveAt ≤ t)) =
      events.filter fun e => decide (e.effectiveAt ≤ t)) :
    authorizedRosterStateAt W record rules events' t =
      authorizedRosterStateAt W record rules events t := by
  simp only [authorizedRosterStateAt, foldRoster, rosterOrder, h]

theorem mem_rosterHistory_of_le
    (ht : t ≤ t') (hx : x ∈ rosterHistory W record rules events t') (hdate : x.2.effectiveAt ≤ t) :
    x ∈ rosterHistory W record rules events t := by
  rw [rosterHistory, rosterOrder_eq_append events ht, appliedFrom_append] at hx
  rcases List.mem_append.mp hx with hx | hx
  · exact hx
  · rcases exists_split_of_mem_appliedFrom _ hx with ⟨before, after, horder, -⟩
    have hmem : x.2 ∈ rosterOrder (events.filter fun e => decide (t < e.effectiveAt)) t' := by
      rw [horder]
      exact List.mem_append_right before List.mem_cons_self
    have hlate := (List.mem_filter.mp ((mem_rosterOrder_iff _ _ _).mp hmem).1).2
    exact absurd (of_decide_eq_true hlate) (not_lt.mpr hdate)

/-!
## A removal has the last word
-/

theorem active?_removals
    {k : String} (events : List RosterEvent) (hremovals : forall e, e ∈ events -> e.isAdd = false)
    (s : RosterState) (hs : s.active? k = none) :
    (events.foldl (rosterStep W rules) s).active? k = none := by
  refine List.foldlRecOn (motive := fun s : RosterState => s.active? k = none) events _ hs ?_
  intro s hs e he
  unfold rosterStep
  split
  · rw [RosterState.active?_put, hremovals e he]
    split
    · rfl
    · exact hs
  · exact hs

theorem active?_eq_none_of_removal
    (hx : x ∈ rosterHistory W record rules events x.2.effectiveAt) (hremoval : x.2.isAdd = false) :
    (authorizedRosterStateAt W record rules events x.2.effectiveAt).active? x.2.member.keyId =
      none := by
  rcases exists_split_of_mem_appliedFrom _ hx with ⟨before, after, horder, hreach, happlies⟩
  have hsorted : (rosterOrder events x.2.effectiveAt).Pairwise fun a b => eventKey a ≤ eventKey b :=
    Sorting.pairwise_key_of_sort rosterEventBefore_iff _
  rw [horder, List.pairwise_append, List.pairwise_cons] at hsorted
  rw [authorizedRosterStateAt_eq_replay, horder, List.foldl_append, hreach, List.foldl_cons,
    rosterStep_of_applies happlies, hremoval]
  apply active?_removals
  · intro e he
    have hmem : e ∈ rosterOrder events x.2.effectiveAt := by
      rw [horder]
      exact List.mem_append_right before (List.mem_cons_of_mem _ he)
    have hdate := ((mem_rosterOrder_iff _ _ _).mp hmem).2
    exact isAdd_of_after_removal (hsorted.2.1.1 e he) hdate hremoval
  · exact RosterState.active?_put_self x.1 false x.2.member

/-!
## Events that change nothing
-/

theorem eventApplies_eq_false_iff :
    eventApplies W rules s e = false <->
      e.reversed = true ∨ (rosterEventStanding W rules s e).isOk = false := by
  rw [eventApplies, Bool.and_eq_false_iff, Bool.not_eq_false']

theorem authorizedRosterStateAt_erase
    {pre post before after : List RosterEvent}
    (hwith : rosterOrder (pre ++ e :: post) e.effectiveAt = before ++ e :: after)
    (hwithout : rosterOrder (pre ++ post) e.effectiveAt = before ++ after)
    (hinert : eventApplies W rules
      (before.foldl (rosterStep W rules) (RosterState.ofRecord record)) e = false) (t : Instant) :
    authorizedRosterStateAt W record rules (pre ++ post) t =
      authorizedRosterStateAt W record rules (pre ++ e :: post) t := by
  -- both replays agree at the event's instant and have the same events after it
  rcases le_or_gt e.effectiveAt t with hafter | hbefore
  · have hsame : authorizedRosterStateAt W record rules (pre ++ post) e.effectiveAt =
        authorizedRosterStateAt W record rules (pre ++ e :: post) e.effectiveAt := by
      rw [authorizedRosterStateAt_eq_replay, authorizedRosterStateAt_eq_replay, hwith, hwithout,
        List.foldl_append, List.foldl_append, List.foldl_cons, rosterStep_of_inert hinert]
    have hlater : (pre ++ e :: post).filter (fun e' => decide (e.effectiveAt < e'.effectiveAt)) =
        (pre ++ post).filter fun e' => decide (e.effectiveAt < e'.effectiveAt) := by
      rw [List.filter_append, List.filter_append, List.filter_cons_of_neg (by simp)]
    rw [authorizedRosterStateAt_eq_continued _ hafter, authorizedRosterStateAt_eq_continued _ hafter,
      hlater, hsame]
  · apply authorizedRosterStateAt_eq_of_filter
    rw [List.filter_append, List.filter_append, List.filter_cons_of_neg (by simpa using hbefore)]

variable (W) in
/-- No event reaches back, a removal wins a tie, and what is not applied may as well not be
there. -/
theorem roster_replay_causal
    (record : List CommunityMember) (rules : RosterRules) (events : List RosterEvent)
    (t t' : Instant) (ht : t ≤ t') :
    (forall events', (events'.filter fun e => decide (e.effectiveAt ≤ t)) =
        (events.filter fun e => decide (e.effectiveAt ≤ t)) ->
      authorizedRosterStateAt W record rules events' t =
        authorizedRosterStateAt W record rules events t) ∧
    authorizedRosterStateAt W record rules events t' =
      (rosterOrder (events.filter fun e => decide (t < e.effectiveAt)) t').foldl
        (rosterStep W rules) (authorizedRosterStateAt W record rules events t) ∧
    (DistinctEvents events -> forall events', events'.Perm events ->
      authorizedRosterStateAt W record rules events' t =
        authorizedRosterStateAt W record rules events t) ∧
    (forall add removal, add ∈ rosterHistory W record rules events t' ->
      removal ∈ rosterHistory W record rules events t' ->
      add.2.effectiveAt = t -> removal.2.effectiveAt = t ->
      add.2.isAdd = true -> removal.2.isAdd = false ->
      add.2.member.keyId = removal.2.member.keyId ->
      (authorizedRosterStateAt W record rules events t).active? add.2.member.keyId = none) ∧
    (forall pre e post, events = pre ++ e :: post ->
      (exists before after, rosterOrder events e.effectiveAt = before ++ e :: after ∧
        rosterOrder (pre ++ post) e.effectiveAt = before ++ after) ∧
      forall before after, rosterOrder events e.effectiveAt = before ++ e :: after ->
        rosterOrder (pre ++ post) e.effectiveAt = before ++ after ->
        (e.reversed = true ∨ (rosterEventStanding W rules
          (before.foldl (rosterStep W rules) (RosterState.ofRecord record)) e).isOk = false) ->
        forall later, authorizedRosterStateAt W record rules (pre ++ post) later =
          authorizedRosterStateAt W record rules events later) := by
  refine ⟨?_, authorizedRosterStateAt_eq_continued events ht, ?_, ?_, ?_⟩
  · intro events' h
    exact authorizedRosterStateAt_eq_of_filter h
  · intro hdistinct events' hperm
    exact authorizedRosterStateAt_eq_of_perm W record rules hdistinct hperm t
  · intro add removal _ hremoved _ hdate _ hremoval hsame
    subst hdate
    rw [hsame]
    exact active?_eq_none_of_removal (mem_rosterHistory_of_le ht hremoved (le_refl _)) hremoval
  · intro pre e post heq
    subst heq
    refine ⟨exists_split_rosterOrder pre post (le_refl _), ?_⟩
    intro before after hwith hwithout hinert later
    exact authorizedRosterStateAt_erase hwith hwithout (eventApplies_eq_false_iff.mpr hinert) later

end History

section Samples

open Reference

def legacyEvent (isAdd : Bool) (effectiveAt : Instant) : RosterEvent where
  effectiveAt := effectiveAt
  isAdd := isAdd
  member := ⟨"max", 0, none⟩
  signers := ∅
  moderatorRoots := ∅
  reversed := false

theorem roster_replay_causal_at_tie :
    let rules : RosterRules := ⟨"majority", none, none, NodeBearingSeats.none⟩
    let record : List CommunityMember := [⟨"fay", 0, some memberRoleFounder⟩]
    (authorizedRosterStateAt Rat record rules [legacyEvent false 5, legacyEvent true 5] 5).active?
      "max" = none := by
  intro rules record
  have hcausal := roster_replay_causal Rat record rules
    [legacyEvent false 5, legacyEvent true 5] 5 5 (le_refl _)
  apply hcausal.2.2.2.1 _ _ (List.Mem.head _) (List.Mem.tail _ (List.Mem.head _))
  · rfl
  · rfl
  · rfl
  · rfl
  · rfl

end Samples

end CirisPersist.Federation
