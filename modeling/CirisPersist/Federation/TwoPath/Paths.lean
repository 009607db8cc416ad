import CirisPersist.Federation.TwoPath.Decide

/-!
# What lands a proposal

The landing rule of the decision is stated once, for each path, and the results
about votes and time are read off it: more approvals only help, more objections
only hurt, votes of strangers do not matter, and a decision that lands, cancels
or refuses stays.  Under the self roster's policy the rule is the published
predicate of the two paths.
-/

namespace CirisPersist.Federation

open TwoPathDecision

def Counts.closedBy (c : Counts) (closed : Bool) : Counts :=
  { c with windowClosed := closed }

namespace TwoPathPolicy

/-!
## The landing rule
-/

section Rule

variable {policy : TwoPathPolicy} {r : Resolved} {c : Counts} {opensAt : Instant}

/-- By the quorum path: an irreversible change waits out the window, and can be
stopped until then. -/
def LandsByQuorum (policy : TwoPathPolicy) (r : Resolved) (c : Counts) : Prop :=
  r.enactMet c = true ∧
    (policy.irreversible = false ∨ c.windowClosed = true ∧ r.cancelReached c = false)

/-- By the lone path, where the quorum path does not land it. -/
structure LandsAlone (policy : TwoPathPolicy) (r : Resolved) (c : Counts) : Prop where
  closed : c.windowClosed = true
  notCancelled : r.cancelReached c = false
  reversePath : policy.reversePath = true
  silent : c.targetSpoke = false
  floorMet : r.floorMet c = true

theorem standsOpen_ne_lands
    (path : LandingPath) :
    policy.standsOpen r c opensAt ≠ lands path := by
  intro h
  cases h

theorem closesWith_ne_lands
    (reason : CancelReason) (path : LandingPath) :
    policy.closesWith r c opensAt reason ≠ lands path := by
  intro h
  unfold closesWith at h
  cases hclose : policy.atWindow with
  | cancel =>
      rw [hclose] at h
      cases h
  | stayOpen =>
      rw [hclose] at h
      exact standsOpen_ne_lands path h

theorem closesWith_ne_refused
    (reason : CancelReason) (why : TwoPathRefusal) :
    policy.closesWith r c opensAt reason ≠ refused why := by
  unfold closesWith
  cases policy.atWindow with
  | cancel => nofun
  | stayOpen => nofun

theorem isLanding_iff
    (d : TwoPathDecision) :
    d.isLanding = true <-> exists path, d = lands path := by
  cases d <;> simp [isLanding]

theorem decideCounts_cases
    (policy : TwoPathPolicy) (r : Resolved) (c : Counts) (opensAt : Instant) :
    (policy.LandsByQuorum r c ∧ policy.decideCounts r c opensAt = lands .quorum) ∨
    (r.enactMet c = false ∧ policy.LandsAlone r c ∧
      policy.decideCounts r c opensAt = lands .lone) ∨
    (c.windowClosed = false ∧ policy.decideCounts r c opensAt = policy.standsOpen r c opensAt) ∨
    (c.windowClosed = true ∧
      exists reason, policy.decideCounts r c opensAt = policy.closesWith r c opensAt reason) := by
  unfold decideCounts LandsByQuorum
  cases henact : r.enactMet c with
  | true =>
      cases policy.irreversible with
      | false => exact Or.inl ⟨⟨rfl, Or.inl rfl⟩, rfl⟩
      | true =>
          cases c.windowClosed with
          | false => exact Or.inr (Or.inr (Or.inl ⟨rfl, rfl⟩))
          | true =>
              cases r.cancelReached c with
              | false => exact Or.inl ⟨⟨rfl, Or.inr ⟨rfl, rfl⟩⟩, rfl⟩
              | true => exact Or.inr (Or.inr (Or.inr ⟨rfl, _, rfl⟩))
  | false =>
      cases hclosed : c.windowClosed with
      | false => exact Or.inr (Or.inr (Or.inl ⟨rfl, rfl⟩))
      | true =>
          cases hcancel : r.cancelReached c with
          | true => exact Or.inr (Or.inr (Or.inr ⟨rfl, _, rfl⟩))
          | false =>
              cases hpath : policy.reversePath with
              | false => exact Or.inr (Or.inr (Or.inr ⟨rfl, _, rfl⟩))
              | true =>
                  cases hspoke : c.targetSpoke with
                  | true => exact Or.inr (Or.inr (Or.inr ⟨rfl, _, rfl⟩))
                  | false =>
                      cases hfloor : r.floorMet c with
                      | false => exact Or.inr (Or.inr (Or.inr ⟨rfl, _, rfl⟩))
                      | true =>
                          exact Or.inr (Or.inl
                            ⟨rfl, ⟨hclosed, hcancel, hpath, hspoke, hfloor⟩, rfl⟩)

theorem decideCounts_ne_refused
    (reason : TwoPathRefusal) :
    policy.decideCounts r c opensAt ≠ refused reason := by
  rcases decideCounts_cases policy r c opensAt with
    ⟨-, h⟩ | ⟨-, -, h⟩ | ⟨-, h⟩ | ⟨-, why, h⟩
  · rw [h]
    nofun
  · rw [h]
    nofun
  · rw [h]
    nofun
  · rw [h]
    exact closesWith_ne_refused why reason

theorem decideCounts_eq_quorum_iff :
    policy.decideCounts r c opensAt = lands .quorum <-> policy.LandsByQuorum r c := by
  constructor
  · intro hlands
    rcases decideCounts_cases policy r c opensAt with
      ⟨hquorum, -⟩ | ⟨-, -, h⟩ | ⟨-, h⟩ | ⟨-, why, h⟩
    · exact hquorum
    · cases h.symm.trans hlands
    · cases h.symm.trans hlands
    · exact absurd (h.symm.trans hlands) (closesWith_ne_lands why _)
  · rintro ⟨hmet, hreversible | ⟨hclosed, hcancel⟩⟩
    · unfold decideCounts
      rw [hmet, hreversible]
      rfl
    · unfold decideCounts
      rw [hmet, hclosed, hcancel]
      cases policy.irreversible with
      | false => rfl
      | true => rfl

theorem decideCounts_eq_lone_iff :
    policy.decideCounts r c opensAt = lands .lone <->
      r.enactMet c = false ∧ policy.LandsAlone r c := by
  constructor
  · intro hlands
    rcases decideCounts_cases policy r c opensAt with
      ⟨-, h⟩ | ⟨henact, hlone, -⟩ | ⟨-, h⟩ | ⟨-, why, h⟩
    · cases h.symm.trans hlands
    · exact ⟨henact, hlone⟩
    · cases h.symm.trans hlands
    · exact absurd (h.symm.trans hlands) (closesWith_ne_lands why _)
  · rintro ⟨henact, hlone⟩
    unfold decideCounts
    rw [henact, hlone.closed, hlone.notCancelled, hlone.reversePath, hlone.silent, hlone.floorMet]
    rfl

theorem decideCounts_isLanding_iff :
    (policy.decideCounts r c opensAt).isLanding = true <->
      policy.LandsByQuorum r c ∨ policy.LandsAlone r c := by
  rw [isLanding_iff]
  constructor
  · rintro ⟨path, h⟩
    cases path with
    | quorum => exact Or.inl (decideCounts_eq_quorum_iff.mp h)
    | lone => exact Or.inr (decideCounts_eq_lone_iff.mp h).2
  · intro h
    rcases h with hquorum | hlone
    · exact ⟨.quorum, decideCounts_eq_quorum_iff.mpr hquorum⟩
    · cases henact : r.enactMet c with
      | true =>
          exact ⟨.quorum, decideCounts_eq_quorum_iff.mpr
            ⟨henact, Or.inr ⟨hlone.closed, hlone.notCancelled⟩⟩⟩
      | false => exact ⟨.lone, decideCounts_eq_lone_iff.mpr ⟨henact, hlone⟩⟩

end Rule

/-!
## Votes
-/

section Votes

theorem liveVotes_subset
    {keys keys' : Finset String} (roster : Finset String) (proposer : String) (h : keys ⊆ keys') :
    liveVotes roster proposer keys ⊆ liveVotes roster proposer keys' :=
  Finset.filter_subset_filter _ h

theorem liveVotes_congr
    {roster keys keys' : Finset String} {proposer : String}
    (h : forall k, k ∈ roster -> k ≠ proposer -> (k ∈ keys <-> k ∈ keys')) :
    liveVotes roster proposer keys = liveVotes roster proposer keys' := by
  ext k
  simp only [liveVotes, Finset.mem_filter]
  constructor
  · rintro ⟨hmem, hroster, hother⟩
    exact ⟨(h k hroster hother).mp hmem, hroster, hother⟩
  · rintro ⟨hmem, hroster, hother⟩
    exact ⟨(h k hroster hother).mpr hmem, hroster, hother⟩

variable {policy : TwoPathPolicy} {r : Resolved}

/-- One tally is at least as favourable as another at the same instant. -/
structure Favours (c better : Counts) : Prop where
  approvals : c.approvals ≤ better.approvals
  objections : better.objections ≤ c.objections
  spoke : better.targetSpoke = true -> c.targetSpoke = true
  closed : better.windowClosed = c.windowClosed

variable {c better : Counts}

theorem enactMet_of_favours
    (h : Favours c better) (hmet : r.enactMet c = true) :
    r.enactMet better = true := by
  have hvotes : r.enact ≤ c.approvals := of_decide_eq_true hmet
  exact decide_eq_true (le_trans hvotes h.approvals)

theorem floorMet_of_favours
    (h : Favours c better) (hmet : r.floorMet c = true) :
    r.floorMet better = true := by
  simp only [Resolved.floorMet, Option.any_eq_true, decide_eq_true_eq] at hmet ⊢
  rcases hmet with ⟨f, hf, hvotes⟩
  exact ⟨f, hf, le_trans hvotes h.approvals⟩

theorem not_cancelReached_of_favours
    (h : Favours c better) (hnot : r.cancelReached c = false) :
    r.cancelReached better = false := by
  simp only [Resolved.cancelReached, Option.any_eq_false, decide_eq_false_iff_not] at hnot ⊢
  intro v hv hreached
  exact hnot v hv (le_trans hreached h.objections)

theorem isLanding_of_favours
    (opensAt : Instant) (h : Favours c better)
    (hlands : (policy.decideCounts r c opensAt).isLanding = true) :
    (policy.decideCounts r better opensAt).isLanding = true := by
  rw [decideCounts_isLanding_iff] at hlands ⊢
  rcases hlands with ⟨hmet, hwhen⟩ | hlone
  · refine Or.inl ⟨enactMet_of_favours h hmet, ?_⟩
    rcases hwhen with hreversible | ⟨hclosed, hcancel⟩
    · exact Or.inl hreversible
    · exact Or.inr ⟨h.closed.trans hclosed, not_cancelReached_of_favours h hcancel⟩
  · refine Or.inr ⟨h.closed.trans hlone.closed, not_cancelReached_of_favours h hlone.notCancelled,
      hlone.reversePath, ?_, floorMet_of_favours h hlone.floorMet⟩
    cases hspoke : better.targetSpoke with
    | false => rfl
    | true =>
        have hwas := h.spoke hspoke
        rw [hlone.silent] at hwas
        cases hwas

variable (policy) (roster : Finset String) (proposal : Proposal) (now : Instant)

variable {answers : Answers}

theorem favours_of_more_approvers
    {approvers : Finset String} (h : answers.approvers ⊆ approvers) :
    Favours (policy.counts roster proposal answers now)
      (policy.counts roster proposal { answers with approvers := approvers } now) := by
  have hlive := Finset.card_le_card
    (Finset.sdiff_subset_sdiff (liveVotes_subset roster proposal.proposer h)
      (Finset.Subset.refl (liveVotes roster proposal.proposer answers.objectors)))
  exact ⟨Nat.succ_le_succ hlive, le_refl _, fun hspoke => hspoke, rfl⟩

theorem favours_of_fewer_objectors
    {objectors : Finset String} {acts : List Instant} (hobjectors : answers.objectors ⊆ objectors)
    (hacts : answers.targetActs ⊆ acts) :
    Favours
      (policy.counts roster proposal
        { answers with objectors := objectors, targetActs := acts } now)
      (policy.counts roster proposal answers now) := by
  have hlive := liveVotes_subset roster proposal.proposer hobjectors
  have happrovals := Finset.card_le_card
    (Finset.sdiff_subset_sdiff
      (Finset.Subset.refl (liveVotes roster proposal.proposer answers.approvers)) hlive)
  refine ⟨Nat.succ_le_succ happrovals, Finset.card_le_card hlive, ?_, rfl⟩
  simp only [counts, Bool.and_eq_true, List.any_eq_true]
  rintro ⟨hasked, act, hact, hafter⟩
  exact ⟨hasked, act, hacts hact, hafter⟩

theorem counts_congr
    {answers' : Answers} (happrovers : forall k, k ∈ roster -> k ≠ proposal.proposer ->
      (k ∈ answers.approvers <-> k ∈ answers'.approvers))
    (hobjectors : forall k, k ∈ roster -> k ≠ proposal.proposer ->
      (k ∈ answers.objectors <-> k ∈ answers'.objectors))
    (hacts : answers.targetActs = answers'.targetActs) :
    policy.counts roster proposal answers now = policy.counts roster proposal answers' now := by
  unfold counts
  rw [liveVotes_congr happrovers, liveVotes_congr hobjectors, hacts]

variable [External] (ahead : OpenAhead)

theorem decide_of_not_refused
    {policy : TwoPathPolicy} {roster : Finset String} {proposal : Proposal} {ahead : OpenAhead}
    (h : policy.refusal roster proposal ahead = none) (answers : Answers) (now : Instant) :
    policy.decide roster proposal answers ahead now =
      policy.decideCounts (policy.resolve roster proposal.proposer)
        (policy.counts roster proposal answers now) (policy.opensAt proposal) := by
  unfold TwoPathPolicy.decide
  rw [h]

theorem decide_of_refused
    {policy : TwoPathPolicy} {roster : Finset String} {proposal : Proposal} {ahead : OpenAhead}
    {reason : TwoPathRefusal} (h : policy.refusal roster proposal ahead = some reason)
    (answers : Answers) (now : Instant) :
    policy.decide roster proposal answers ahead now = refused reason := by
  unfold TwoPathPolicy.decide
  rw [h]

theorem isLanding_decide_of_favours
    {better : Answers} (h : Favours (policy.counts roster proposal answers now)
      (policy.counts roster proposal better now))
    (hlands : (policy.decide roster proposal answers ahead now).isLanding = true) :
    (policy.decide roster proposal better ahead now).isLanding = true := by
  cases hrefusal : policy.refusal roster proposal ahead with
  | some reason =>
      rw [decide_of_refused hrefusal] at hlands
      cases hlands
  | none =>
      rw [decide_of_not_refused hrefusal] at hlands ⊢
      exact isLanding_of_favours _ h hlands

/-- More approvers never undo a landing, more objectors or acts of the target
never make one, and votes of the proposer and of keys off the roster change
nothing at all. -/
theorem votes_monotone_and_isolated :
    (forall (answers : Answers) (approvers : Finset String),
      answers.approvers ⊆ approvers ->
      (policy.decide roster proposal answers ahead now).isLanding = true ->
      (policy.decide roster proposal { answers with approvers := approvers }
        ahead now).isLanding = true) ∧
    (forall (answers : Answers) (objectors : Finset String) (acts : List Instant),
      answers.objectors ⊆ objectors -> answers.targetActs ⊆ acts ->
      (policy.decide roster proposal answers ahead now).isLanding = false ->
      (policy.decide roster proposal
        { answers with objectors := objectors, targetActs := acts }
        ahead now).isLanding = false) ∧
    (forall answers answers' : Answers,
      (forall k, k ∈ roster -> k ≠ proposal.proposer ->
        (k ∈ answers.approvers <-> k ∈ answers'.approvers)) ->
      (forall k, k ∈ roster -> k ≠ proposal.proposer ->
        (k ∈ answers.objectors <-> k ∈ answers'.objectors)) ->
      answers.targetActs = answers'.targetActs ->
      policy.decide roster proposal answers ahead now =
        policy.decide roster proposal answers' ahead now) := by
  refine ⟨?_, ?_, ?_⟩
  · intro answers approvers hmore
    exact isLanding_decide_of_favours policy roster proposal now ahead
      (favours_of_more_approvers policy roster proposal now hmore)
  · intro answers objectors acts hobjectors hacts hnot
    have hfavours := favours_of_fewer_objectors policy roster proposal now hobjectors hacts
    have himp := isLanding_decide_of_favours policy roster proposal now ahead hfavours
    exact Bool.eq_false_iff.mpr fun hlands => Bool.eq_false_iff.mp hnot (himp hlands)
  · intro answers answers' happrovers hobjectors hacts
    unfold TwoPathPolicy.decide
    rw [counts_congr policy roster proposal now happrovers hobjectors hacts]

end Votes

/-!
## Time

The instant enters only through the close of the window.
-/

section Time

variable {policy : TwoPathPolicy} {r : Resolved} {c : Counts} {opensAt : Instant}

theorem lands_stays
    {closed : Bool} {path : LandingPath} (hlater : c.windowClosed = true -> closed = true)
    (h : policy.decideCounts r c opensAt = lands path) :
    policy.decideCounts r (c.closedBy closed) opensAt = lands path := by
  cases path with
  | quorum =>
      rw [decideCounts_eq_quorum_iff] at h ⊢
      rcases h with ⟨hmet, hreversible | ⟨hclosed, hcancel⟩⟩
      · exact ⟨hmet, Or.inl hreversible⟩
      · exact ⟨hmet, Or.inr ⟨hlater hclosed, hcancel⟩⟩
  | lone =>
      rw [decideCounts_eq_lone_iff] at h ⊢
      rcases h with ⟨henact, hlone⟩
      exact ⟨henact, hlater hlone.closed, hlone.notCancelled, hlone.reversePath, hlone.silent,
        hlone.floorMet⟩

theorem closed_of_cancelled
    {reason : CancelReason} (h : policy.decideCounts r c opensAt = cancelled reason) :
    c.windowClosed = true := by
  rcases decideCounts_cases policy r c opensAt with
    ⟨-, hd⟩ | ⟨-, -, hd⟩ | ⟨-, hd⟩ | ⟨hclosed, -⟩
  · cases hd.symm.trans h
  · cases hd.symm.trans h
  · cases hd.symm.trans h
  · exact hclosed

theorem closed_of_irreversible_lands
    {path : LandingPath} (hirreversible : policy.irreversible = true)
    (h : policy.decideCounts r c opensAt = lands path) :
    c.windowClosed = true := by
  cases path with
  | quorum =>
      rcases decideCounts_eq_quorum_iff.mp h with ⟨-, hreversible | ⟨hclosed, -⟩⟩
      · rw [hirreversible] at hreversible
        cases hreversible
      · exact hclosed
  | lone => exact (decideCounts_eq_lone_iff.mp h).2.closed

theorem counts_later
    (policy : TwoPathPolicy) (roster : Finset String) (proposal : Proposal)
    (answers : Answers) (t t' : Instant) :
    policy.counts roster proposal answers t' =
      (policy.counts roster proposal answers t).closedBy
        (Decidable.decide (policy.opensAt proposal ≤ t')) :=
  rfl

variable [External]

/-- A decision that lands, cancels or refuses stays as it is, and an irreversible
change never lands before its window closes. -/
theorem decide_settled_stays
    (policy : TwoPathPolicy) (roster : Finset String) (proposal : Proposal)
    (answers : Answers) (ahead : OpenAhead) {t t' : Instant}
    (hle : t ≤ t') :
    (forall path,
      policy.decide roster proposal answers ahead t = TwoPathDecision.lands path ->
      policy.decide roster proposal answers ahead t' = TwoPathDecision.lands path) ∧
    (forall reason,
      policy.decide roster proposal answers ahead t = TwoPathDecision.cancelled reason ->
      policy.decide roster proposal answers ahead t' = TwoPathDecision.cancelled reason) ∧
    (forall reason,
      policy.decide roster proposal answers ahead t = TwoPathDecision.refused reason ->
      policy.decide roster proposal answers ahead t' = TwoPathDecision.refused reason) ∧
    (policy.irreversible = true ->
      t < proposal.receivedAt + Instant.ofSeconds policy.windowSecs ->
      forall path,
        policy.decide roster proposal answers ahead t ≠ TwoPathDecision.lands path) := by
  cases hrefusal : policy.refusal roster proposal ahead with
  | some why =>
      simp only [decide_of_refused hrefusal]
      exact ⟨fun _ h => h, fun _ h => h, fun _ h => h, fun _ _ _ h => by cases h⟩
  | none =>
      simp only [decide_of_not_refused hrefusal]
      rw [counts_later policy roster proposal answers t t']
      have hlater : (policy.counts roster proposal answers t).windowClosed = true ->
          Decidable.decide (policy.opensAt proposal ≤ t') = true := by
        intro hclosed
        exact decide_eq_true (le_trans (of_decide_eq_true hclosed) hle)
      refine ⟨fun path h => lands_stays hlater h, ?_, ?_, ?_⟩
      · intro reason h
        have hclosed := closed_of_cancelled h
        have hsame : (policy.counts roster proposal answers t).closedBy
            (Decidable.decide (policy.opensAt proposal ≤ t')) =
              policy.counts roster proposal answers t := by
          rw [hlater hclosed, ← hclosed]
          rfl
        rw [hsame]
        exact h
      · intro reason h
        exact absurd h (decideCounts_ne_refused reason)
      · intro hirreversible hearly path h
        have hclosed := closed_of_irreversible_lands hirreversible h
        exact absurd (of_decide_eq_true hclosed) (not_le.mpr hearly)

end Time

/-!
## The published predicate

Under the self roster's rule the two paths are the two disjuncts of the published
predicate, which speaks of votes and rosters only and knows no thresholds.
-/

section Predicate

def QuorumLands (roster : Finset String) (proposal : Proposal) (answers : Answers) : Prop :=
  roster.card <
    2 * ((liveVotes roster proposal.proposer answers.approvers \
      liveVotes roster proposal.proposer answers.objectors).card + 1)

/-- The window has run, no majority of the others objects, and a target to be
evicted has kept silent. -/
def LoneLands (windowSecs : Int) (roster : Finset String) (proposal : Proposal)
    (answers : Answers) (now : Instant) : Prop :=
  proposal.receivedAt + Instant.ofSeconds windowSecs ≤ now ∧
    ¬ roster.card - 1 < 2 * (liveVotes roster proposal.proposer answers.objectors).card ∧
    (proposal.kind = .add ∨
      forall act, act ∈ answers.targetActs -> ¬ proposal.receivedAt ≤ act)

structure IsSelfRule (policy : TwoPathPolicy) : Prop where
  enact : policy.enact = .strictMajority
  cancel : policy.cancel = some .strictMajority
  cancelOver : policy.cancelOver = .others
  floor : policy.floor = some (.fraction 0 1 .atLeast)
  floorClass : policy.floorClass = .sameIdentity
  reversePath : policy.reversePath = true
  atWindow : policy.atWindow = .stayOpen
  reversible : policy.irreversible = false
  silence : policy.silence = .evictOnly

variable {policy : TwoPathPolicy} {roster : Finset String} {proposal : Proposal}

theorem proposer_mem_of_not_refused
    {ahead : OpenAhead} (h : policy.refusal roster proposal ahead = none) :
    proposal.proposer ∈ roster := by
  by_contra hoff
  unfold refusal at h
  rw [if_pos hoff] at h
  cases h

theorem targetSpoke_eq_false_iff
    (hself : policy.IsSelfRule) (answers : Answers) (now : Instant) :
    (policy.counts roster proposal answers now).targetSpoke = false <->
      proposal.kind = .add ∨
        forall act, act ∈ answers.targetActs -> ¬ proposal.receivedAt ≤ act := by
  simp only [counts, silenceAsked, hself.silence, Bool.and_eq_false_iff, decide_eq_false_iff_not,
    List.any_eq_false, decide_eq_true_eq]
  cases proposal.kind with
  | add => simp
  | evict => simp

theorem decideCounts_lands_or_pending
    (hself : policy.IsSelfRule) (r : Resolved) (c : Counts) (opensAt : Instant) :
    (policy.decideCounts r c opensAt).isLanding = true ∨
      exists earliest needs, policy.decideCounts r c opensAt = pending earliest needs := by
  rcases decideCounts_cases policy r c opensAt with
    ⟨-, h⟩ | ⟨-, -, h⟩ | ⟨-, h⟩ | ⟨-, why, h⟩
  · rw [h]
    exact Or.inl rfl
  · rw [h]
    exact Or.inl rfl
  · exact Or.inr ⟨_, _, h⟩
  · unfold closesWith at h
    rw [hself.atWindow] at h
    exact Or.inr ⟨_, _, h⟩

variable [External]

theorem enactMet_iff_quorumLands
    (hmajority : forall n, External.strictMajority n = n / 2 + 1)
    (hself : policy.IsSelfRule) (answers : Answers) (now : Instant) :
    (policy.resolve roster proposal.proposer).enactMet
        (policy.counts roster proposal answers now) = true <->
      QuorumLands roster proposal answers := by
  simp only [Resolved.enactMet, resolve, resolveOver, hself.enact, Threshold.votes, Base.count,
    hmajority, counts, decide_eq_true_eq, QuorumLands]
  omega

theorem cancelReached_eq_false_iff
    (hmajority : forall n, External.strictMajority n = n / 2 + 1) (hself : policy.IsSelfRule)
    (hproposer : proposal.proposer ∈ roster) (answers : Answers) (now : Instant) :
    (policy.resolve roster proposal.proposer).cancelReached
        (policy.counts roster proposal answers now) = false <->
      ¬ roster.card - 1 < 2 * (liveVotes roster proposal.proposer answers.objectors).card := by
  simp only [Resolved.cancelReached, resolve, resolveOver, hself.cancel, hself.cancelOver,
    hself.floorClass, Threshold.votes, Base.count, FloorClass.minCount, hproposer, hmajority,
    Option.map_some, Option.any_some, decide_true, and_self, if_true, decide_eq_false_iff_not]
  simp only [counts]
  omega

theorem floorMet_of_selfRule
    (hself : policy.IsSelfRule) (answers : Answers) (now : Instant) :
    (policy.resolve roster proposal.proposer).floorMet
      (policy.counts roster proposal answers now) = true := by
  simp [Resolved.floorMet, resolve, resolveOver, hself.floor, hself.floorClass, Threshold.votes,
    FloorClass.minCount, divCeil, counts]

theorem landsAlone_iff_loneLands
    (hmajority : forall n, External.strictMajority n = n / 2 + 1) (hself : policy.IsSelfRule)
    (hproposer : proposal.proposer ∈ roster) (answers : Answers) (now : Instant) :
    policy.LandsAlone (policy.resolve roster proposal.proposer)
        (policy.counts roster proposal answers now) <->
      LoneLands policy.windowSecs roster proposal answers now := by
  constructor
  · intro hlone
    exact ⟨of_decide_eq_true hlone.closed,
      (cancelReached_eq_false_iff hmajority hself hproposer answers now).mp hlone.notCancelled,
      (targetSpoke_eq_false_iff hself answers now).mp hlone.silent⟩
  · rintro ⟨hclosed, hobjections, hsilent⟩
    exact ⟨decide_eq_true hclosed,
      (cancelReached_eq_false_iff hmajority hself hproposer answers now).mpr hobjections,
      hself.reversePath,
      (targetSpoke_eq_false_iff hself answers now).mpr hsilent,
      floorMet_of_selfRule hself answers now⟩

/-- The decision under the self roster's rule is the published predicate. -/
theorem decide_refines_predicate
    (hmajority : forall n, External.strictMajority n = n / 2 + 1)
    (hself : policy.IsSelfRule)
    (roster : Finset String) (proposal : Proposal) (answers : Answers) (ahead : OpenAhead)
    (now : Instant)
    (haccepted : forall reason,
      policy.decide roster proposal answers ahead now ≠ TwoPathDecision.refused reason) :
    ((exists path,
        policy.decide roster proposal answers ahead now = TwoPathDecision.lands path) <->
      QuorumLands roster proposal answers ∨
        LoneLands policy.windowSecs roster proposal answers now) ∧
    (policy.decide roster proposal answers ahead now =
        TwoPathDecision.lands LandingPath.quorum <->
      QuorumLands roster proposal answers) ∧
    (¬ (QuorumLands roster proposal answers ∨
        LoneLands policy.windowSecs roster proposal answers now) ->
      exists earliest needs,
        policy.decide roster proposal answers ahead now =
          TwoPathDecision.pending earliest needs) ∧
    (forall reason,
      policy.decide roster proposal answers ahead now ≠ TwoPathDecision.cancelled reason) := by
  cases hrefusal : policy.refusal roster proposal ahead with
  | some reason => exact absurd (decide_of_refused hrefusal answers now) (haccepted reason)
  | none =>
      have hproposer := proposer_mem_of_not_refused hrefusal
      have hlone := landsAlone_iff_loneLands hmajority hself hproposer answers now
      have hquorum : policy.LandsByQuorum (policy.resolve roster proposal.proposer)
          (policy.counts roster proposal answers now) <->
            QuorumLands roster proposal answers := by
        rw [← enactMet_iff_quorumLands hmajority hself answers now]
        exact ⟨fun h => h.1, fun h => ⟨h, Or.inl hself.reversible⟩⟩
      rw [decide_of_not_refused hrefusal, ← isLanding_iff, decideCounts_isLanding_iff,
        decideCounts_eq_quorum_iff, hquorum, hlone]
      have hcases := decideCounts_lands_or_pending hself
        (policy.resolve roster proposal.proposer)
        (policy.counts roster proposal answers now) (policy.opensAt proposal)
      refine ⟨Iff.rfl, Iff.rfl, ?_, ?_⟩
      · intro hneither
        rcases hcases with hlands | hpending
        · rw [decideCounts_isLanding_iff, hquorum, hlone] at hlands
          exact absurd hlands hneither
        · exact hpending
      · intro reason hcancelled
        rw [hcancelled] at hcases
        rcases hcases with hlands | ⟨_, _, hpending⟩
        · cases hlands
        · cases hpending

end Predicate

section Samples

open Reference

def threeKeys : Finset String :=
  {"laptop", "phone", "tablet"}

def dayRule : TwoPathPolicy where
  base := .standingRoster
  enact := .strictMajority
  cancel := some .strictMajority
  cancelOver := .others
  floor := some (.fraction 0 1 .atLeast)
  floorClass := .sameIdentity
  reversePath := true
  atWindow := .stayOpen
  irreversible := false
  windowSecs := 86400
  silence := .evictOnly
  oneOpenPerProposer := true
  oneOpenPerTarget := true

def addsWatch : Proposal where
  id := "p"
  kind := .add
  proposer := "laptop"
  target := "watch"
  assertedAt := 0
  receivedAt := 0

def noAnswers : Answers :=
  ⟨∅, ∅, []⟩

def nothingAhead : OpenAhead :=
  ⟨false, false⟩

theorem dayRule_isSelfRule : dayRule.IsSelfRule :=
  ⟨rfl, rfl, rfl, rfl, rfl, rfl, rfl, rfl, rfl⟩

theorem addsWatch_refines_predicate :
    LoneLands 86400 threeKeys addsWatch noAnswers (Instant.ofSeconds 86400) ∧
      exists path,
        dayRule.decide threeKeys addsWatch noAnswers nothingAhead (Instant.ofSeconds 86400) =
          .lands path := by
  have hlone : LoneLands 86400 threeKeys addsWatch noAnswers (Instant.ofSeconds 86400) := by
    refine ⟨by decide, by decide, Or.inl rfl⟩
  have hrefines := decide_refines_predicate (fun _ => rfl) dayRule_isSelfRule threeKeys addsWatch
    noAnswers nothingAhead (Instant.ofSeconds 86400)
    (by
      have hrun : dayRule.decide threeKeys addsWatch noAnswers nothingAhead
          (Instant.ofSeconds 86400) = .lands .lone := by decide
      intro reason hrefused
      rw [hrun] at hrefused
      cases hrefused)
  exact ⟨hlone, hrefines.1.mpr (Or.inr hlone)⟩

theorem addsWatch_stays_landed :
    dayRule.decide threeKeys addsWatch noAnswers nothingAhead (Instant.ofSeconds 90000) =
      .lands .lone :=
  (decide_settled_stays dayRule threeKeys addsWatch noAnswers nothingAhead
    (show Instant.ofSeconds 86400 ≤ Instant.ofSeconds 90000 by decide)).1 .lone
      (by decide)

theorem addsWatch_lands_with_more_approvers :
    (dayRule.decide threeKeys addsWatch ⟨{"phone"}, ∅, []⟩ nothingAhead
      (Instant.ofSeconds 86400)).isLanding = true :=
  (votes_monotone_and_isolated dayRule threeKeys addsWatch (Instant.ofSeconds 86400)
    nothingAhead).1 noAnswers {"phone"} (Finset.empty_subset _) (by decide)

end Samples

end TwoPathPolicy

end CirisPersist.Federation
