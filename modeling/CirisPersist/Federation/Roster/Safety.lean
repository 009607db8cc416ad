import CirisPersist.Federation.Roster.Fold

/-!
# Safety of the roster replay

Two invariants of the authorized replay.  Keys outside the record never change
the roster by signing for each other.  And the last-founder rule keeps a
founder seated, as long as no event seats a non-founder in an otherwise empty
room.
-/

namespace CirisPersist.Federation

/-!
## Outsiders

The active entries are exactly the record members.  A removal an outsider signs
for its own key only records an inactive entry, and a ballot without a seated
signer is refused.
-/

def ActiveIsRecord (record : List CommunityMember) (s : RosterState) : Prop :=
  forall k m, s.active? k = some m <-> m ∈ record ∧ m.keyId = k

theorem activeIsRecord_ofRecord
    {record : List CommunityMember} (hnodup : (record.map CommunityMember.keyId).Nodup) :
    ActiveIsRecord record (RosterState.ofRecord record) := by
  intro k m
  constructor
  · intro h
    exact ⟨RosterState.mem_of_active?_ofRecord h, RosterState.keyId_of_active? h⟩
  · rintro ⟨hm, rfl⟩
    exact RosterState.active?_ofRecord_of_nodup hnodup hm

variable {s : RosterState}

theorem activeIsRecord_remove
    {record : List CommunityMember} (hs : ActiveIsRecord record s) (removed : CommunityMember) :
    ActiveIsRecord (record.filter fun m => m.keyId != removed.keyId) (s.put false removed) := by
  intro k m
  rw [List.mem_filter, bne_iff_ne]
  by_cases hk : k = removed.keyId
  · rw [hk, RosterState.active?_put_self]
    simp only [Bool.false_eq_true, if_false, reduceCtorEq, false_iff]
    rintro ⟨⟨-, hne⟩, hmk⟩
    exact hne hmk
  · rw [RosterState.active?_put_of_ne s false hk, hs k m]
    constructor
    · rintro ⟨hm, rfl⟩
      exact ⟨⟨hm, hk⟩, rfl⟩
    · rintro ⟨⟨hm, -⟩, hmk⟩
      exact ⟨hm, hmk⟩

section Outsiders

variable {W : Type} [RubricNum W] [External]
variable {record : List CommunityMember} {rules : RosterRules}

theorem activeIsRecord_rosterStep
    (hopen : rules.protocol ≠ ConsensusProtocol.openSelfAdmit) {e : RosterEvent}
    (hsigned : e.signers ≠ ∅) (hroots : e.moderatorRoots = ∅)
    (houtside : forall k, k ∈ e.signers -> forall m, m ∈ record -> m.keyId ≠ k)
    (hs : ActiveIsRecord record s) :
    ActiveIsRecord record (rosterStep W rules s e) := by
  unfold rosterStep
  split
  · rename_i happlies
    have hstanding : standingWithoutProtocol rules e = true ∨
        evaluate W (eventBallot rules s e) = .admitted := by
      have hok : (rosterEventStanding W rules s e).isOk = true := by
        simpa [eventApplies] using (Bool.and_eq_true_iff.mp happlies).2
      exact ((rosterEventStanding_isOk_iff rules s e).mp hok).1
    cases hstanding with
    | inl hwithout =>
        have hleave : e.isAdd = false ∧ e.member.keyId ∈ e.signers := by
          simpa [standingWithoutProtocol, moderatorMayAct, hsigned, hroots] using hwithout
        have hsame : record.filter (fun m => m.keyId != e.member.keyId) = record := by
          apply List.filter_eq_self.mpr
          intro m hm
          exact bne_iff_ne.mpr (houtside e.member.keyId hleave.2 m hm)
        rw [hleave.1, ← hsame]
        exact activeIsRecord_remove hs e.member
    | inr hadmitted =>
        rcases eligibleSigner_of_admitted W hopen hadmitted with ⟨seat, ⟨hseat, -⟩, hsigner⟩
        rcases (mem_activeSeats_iff rules s e.effectiveAt seat).mp hseat with ⟨m, hm, -⟩
        have hrecord := (hs seat.keyId m).mp hm
        exact absurd hrecord.2 (houtside seat.keyId hsigner m hrecord.1)
  · exact hs

theorem authorizedRosterAt_of_activeIsRecord
    {events : List RosterEvent} {asOf : Instant}
    (h : ActiveIsRecord record (authorizedRosterStateAt W record rules events asOf)) :
    authorizedRosterAt W record rules events asOf = record := by
  let s := authorizedRosterStateAt W record rules events asOf
  have hfirst : record.filterMap (fun m => s.active? m.keyId) = record := by
    have hall : forall m, m ∈ record -> s.active? m.keyId = some m := by
      intro m hm
      exact (h m.keyId m).mpr ⟨hm, rfl⟩
    rw [List.filterMap_congr hall]
    exact List.filterMap_some
  have hrest : s.activeMembers.filter (fun m => !record.any fun r => r.keyId == m.keyId) = [] := by
    apply List.filter_eq_nil_iff.mpr
    intro m hm
    have hactive := (RosterState.mem_activeMembers_iff s m).mp hm
    have hrecord := ((h m.keyId m).mp hactive).1
    simp only [Bool.not_eq_true', Bool.not_eq_false, List.any_eq_true, beq_iff_eq]
    exact ⟨m, hrecord, rfl⟩
  show record.filterMap (fun m => s.active? m.keyId) ++ _ = record
  rw [hfirst, hrest, List.append_nil]

variable (W)

theorem outsiders_never_change_roster
    (record : List CommunityMember)
    (hnodup : (record.map CommunityMember.keyId).Nodup)
    (rules : RosterRules)
    (hopen : rules.protocol ≠ ConsensusProtocol.openSelfAdmit)
    (events : List RosterEvent) (asOf : Instant)
    (hsigned : forall e, e ∈ events -> e.signers ≠ ∅)
    (hroots : forall e, e ∈ events -> e.moderatorRoots = ∅)
    (houtside : forall e, e ∈ events -> forall k, k ∈ e.signers ->
      forall m, m ∈ record -> m.keyId ≠ k) :
    (forall k m,
      (authorizedRosterStateAt W record rules events asOf).active? k = some m <->
        m ∈ record ∧ m.keyId = k) ∧
    authorizedRosterAt W record rules events asOf = record := by
  have hstate : ActiveIsRecord record (authorizedRosterStateAt W record rules events asOf) := by
    rw [authorizedRosterStateAt_eq_replay]
    apply List.foldlRecOn _ _ (activeIsRecord_ofRecord hnodup)
    intro s hs e he
    have hmem := ((mem_rosterOrder_iff events asOf e).mp he).1
    exact activeIsRecord_rosterStep hopen (hsigned e hmem) (hroots e hmem)
      (houtside e hmem) hs
  exact ⟨hstate, authorizedRosterAt_of_activeIsRecord hstate⟩

end Outsiders

section Samples

open Reference

def majorityRules : RosterRules where
  protocol := ConsensusProtocol.majority
  subkind := none
  policyBlob := none
  nodeBearing := NodeBearingSeats.none

def foundedRecord : List CommunityMember :=
  [⟨"ada", 0, some memberRoleFounder⟩, ⟨"bob", 0, none⟩]

def outsiderEvents : List RosterEvent :=
  [⟨10, true, ⟨"mallory", 10, some memberRoleFounder⟩, {"trudy"}, ∅, false⟩,
   ⟨11, true, ⟨"trudy", 11, none⟩, {"mallory", "trudy"}, ∅, false⟩,
   ⟨12, false, ⟨"ada", 12, none⟩, {"mallory", "trudy"}, ∅, false⟩]

theorem outsiderEvents_never_change_roster :
    authorizedRosterAt Rat foundedRecord majorityRules outsiderEvents 20 = foundedRecord :=
  (outsiders_never_change_roster Rat foundedRecord (by decide) majorityRules (by decide)
    outsiderEvents 20 (by decide) (by decide) (by decide)).2

end Samples

/-!
## The last founder

The rule guards events that remove or demote an active founder, and counts the
members other than the one named.  It says nothing about an event that seats or
re-roles a non-founder while nobody else is active.
-/

def FounderSeated (s : RosterState) : Prop :=
  (forall k, s.active? k = none) ∨
    exists k m, s.active? k = some m ∧ m.role = some memberRoleFounder

/-- An entry of the record that is a founder's and is the last one for its key. -/
def FounderOnRecord (record : List CommunityMember) : Prop :=
  exists pre m post, record = pre ++ m :: post ∧
    m.role = some memberRoleFounder ∧ forall m', m' ∈ post -> m'.keyId ≠ m.keyId

theorem active?_ofRecord_eq_some_iff
    (record : List CommunityMember) (k : String) (m : CommunityMember) :
    (RosterState.ofRecord record).active? k = some m <->
      exists pre post, record = pre ++ m :: post ∧ m.keyId = k ∧
        forall m', m' ∈ post -> m'.keyId ≠ k := by
  rw [RosterState.active?_ofRecord, List.find?_eq_some_iff_append]
  constructor
  · rintro ⟨hkey, post, pre, heq, hpost⟩
    refine ⟨pre.reverse, post.reverse, ?_, by simpa using hkey, ?_⟩
    · simpa using congrArg List.reverse heq
    · intro m' hm'
      simpa using hpost m' (List.mem_reverse.mp hm')
  · rintro ⟨pre, post, rfl, hkey, hpost⟩
    refine ⟨by simpa using hkey, post.reverse, pre.reverse, by simp, ?_⟩
    intro m' hm'
    simpa using hpost m' (List.mem_reverse.mp hm')

theorem founderSeated_ofRecord_iff
    {record : List CommunityMember} (hne : record ≠ []) :
    FounderSeated (RosterState.ofRecord record) <-> FounderOnRecord record := by
  constructor
  · rintro (hnone | ⟨k, m, hactive, hrole⟩)
    · rcases List.exists_mem_of_ne_nil record hne with ⟨m, hm⟩
      exact absurd rfl
        ((RosterState.active?_ofRecord_none_iff record m.keyId).mp (hnone m.keyId) m hm)
    · rcases (active?_ofRecord_eq_some_iff record k m).mp hactive with
        ⟨pre, post, heq, hmk, hpost⟩
      exact ⟨pre, m, post, heq, hrole, fun m' hm' => hmk ▸ hpost m' hm'⟩
  · rintro ⟨pre, m, post, heq, hrole, hpost⟩
    exact Or.inr ⟨m.keyId, m,
      (active?_ofRecord_eq_some_iff record m.keyId m).mpr ⟨pre, post, heq, rfl, hpost⟩, hrole⟩

theorem mem_othersAfter_iff
    (s : RosterState) (e : RosterEvent) (m : CommunityMember) :
    m ∈ othersAfter s e <-> s.active? m.keyId = some m ∧ m.keyId ≠ e.member.keyId := by
  simp [othersAfter, RosterState.mem_activeMembers_iff]

theorem other_of_founderSeated_put
    {m : CommunityMember} (hrole : m.role ≠ some memberRoleFounder)
    (hafter : FounderSeated (s.put true m)) :
    exists other, s.active? other.keyId = some other ∧ other.keyId ≠ m.keyId := by
  have hself := RosterState.active?_put_self s true m
  rcases hafter with hnone | ⟨k, founder, hk, hfounder⟩
  · rw [hnone] at hself
    cases hself
  have hne : k ≠ m.keyId := by
    rintro rfl
    rw [hself] at hk
    cases hk
    exact hrole hfounder
  rw [RosterState.active?_put_of_ne s true hne] at hk
  have hkey := RosterState.keyId_of_active? hk
  refine ⟨founder, ?_, ?_⟩
  · rw [hkey]
    exact hk
  · rw [hkey]
    exact hne

variable {e : RosterEvent}

theorem none_active_of_no_others
    (hnone : ¬ exists m, m ∈ othersAfter s e) (k : String) :
    (s.put false e.member).active? k = none := by
  by_cases hk : k = e.member.keyId
  · rw [hk, RosterState.active?_put_self]
    rfl
  rw [RosterState.active?_put_of_ne s false hk]
  cases hactive : s.active? k with
  | none => rfl
  | some m =>
      have hkey := RosterState.keyId_of_active? hactive
      refine absurd ⟨m, (mem_othersAfter_iff s e m).mpr ?_⟩ hnone
      rw [hkey]
      exact ⟨hactive, hk⟩

/-- An event that seats or re-roles a non-founder finds another active member. -/
def NotSeatedAlone (W : Type) [RubricNum W] [External] (rules : RosterRules)
    (s : RosterState) (e : RosterEvent) : Prop :=
  eventApplies W rules s e = true -> e.isAdd = true ->
    e.member.role ≠ some memberRoleFounder ->
      exists m, s.active? m.keyId = some m ∧ m.keyId ≠ e.member.keyId

section LastFounder

variable {W : Type} [RubricNum W] [External] {rules : RosterRules}

section Unseating

variable (hnode : forall k t, rules.nodeBearing.bearsAt k t = false)
  (happlies : eventApplies W rules s e = true)
  (hdown : e.isAdd = false ∨ e.member.role ≠ some memberRoleFounder) (hseated : FounderSeated s)
  (hother : exists m, m ∈ othersAfter s e)

include hnode happlies hdown hseated hother

/-- With no node-bearing seat, an applied event that takes a founder's seat and
leaves members leaves another founder. -/
theorem exists_other_founder :
    exists k m, k ≠ e.member.keyId ∧ s.active? k = some m ∧ m.role = some memberRoleFounder := by
  rcases hother with ⟨other, hother⟩
  have hactive := ((mem_othersAfter_iff s e other).mp hother).1
  rcases hseated with hnone | ⟨k, m, hk, hrole⟩
  · rw [hnone] at hactive
    cases hactive
  by_cases hkey : k = e.member.keyId
  · subst hkey
    have hloses : losesFounder rules s e = true := by
      have hdown' : (!e.isAdd || !e.member.isFounder) = true := by
        simpa [CommunityMember.isFounder] using hdown
      simp [losesFounder, isActiveFounder, hk, hrole, hnode, hdown']
    have hok : (rosterEventStanding W rules s e).isOk = true := (Bool.and_eq_true_iff.mp happlies).2
    have hleft := ((rosterEventStanding_isOk_iff rules s e).mp hok).2 hloses
      (List.ne_nil_of_mem hother)
    rcases List.exists_mem_of_ne_nil _ hleft with ⟨f, hf⟩
    rw [foundersAfter, List.mem_filter, mem_othersAfter_iff] at hf
    rcases hf with ⟨⟨hfactive, hfkey⟩, hfounder⟩
    have hfrole : f.role = some memberRoleFounder := by
      simpa [isActiveFounder, hfactive, hnode] using hfounder
    exact ⟨f.keyId, f, hfkey, hfactive, hfrole⟩
  · exact ⟨k, m, hkey, hk, hrole⟩

theorem founderSeated_put_of_other :
    FounderSeated (s.put e.isAdd e.member) := by
  rcases exists_other_founder hnode happlies hdown hseated hother with ⟨k, m, hk, hm, hrole⟩
  refine Or.inr ⟨k, m, ?_, hrole⟩
  rw [RosterState.active?_put_of_ne s e.isAdd hk]
  exact hm

end Unseating

theorem founderSeated_rosterStep_iff
    (hnode : forall k t, rules.nodeBearing.bearsAt k t = false)
    (s : RosterState) (e : RosterEvent)
    (hseated : FounderSeated s) :
    FounderSeated (rosterStep W rules s e) <-> NotSeatedAlone W rules s e := by
  cases happlies : eventApplies W rules s e with
  | false => simp [rosterStep, NotSeatedAlone, happlies, hseated]
  | true =>
      have hstep : rosterStep W rules s e = s.put e.isAdd e.member := by
        simp [rosterStep, happlies]
      rw [hstep]
      have hother := founderSeated_put_of_other hnode happlies
      constructor
      · intro hafter _ hadd hrole
        rw [hadd] at hafter
        exact other_of_founderSeated_put hrole hafter
      · intro hcompany
        cases hadd : e.isAdd with
        | true =>
            rw [hadd] at hother
            by_cases hrole : e.member.role = some memberRoleFounder
            · exact Or.inr ⟨e.member.keyId, e.member,
                RosterState.active?_put_self s true e.member, hrole⟩
            · rcases hcompany happlies hadd hrole with ⟨m, hm, hmk⟩
              exact hother (Or.inr hrole) hseated ⟨m, (mem_othersAfter_iff s e m).mpr ⟨hm, hmk⟩⟩
        | false =>
            rw [hadd] at hother
            by_cases hexists : exists m, m ∈ othersAfter s e
            · exact hother (Or.inl rfl) hseated hexists
            · exact Or.inl (none_active_of_no_others hexists)

variable (W)

theorem founder_seated_throughout_iff
    (record : List CommunityMember)
    (hrecord : exists m, m ∈ record ∧ m.role = some memberRoleFounder)
    (rules : RosterRules)
    (hnode : forall k t, rules.nodeBearing.bearsAt k t = false)
    (events : List RosterEvent) (asOf : Instant) :
    (Replay.AllReached (rosterStep W rules) (RosterState.ofRecord record)
        (rosterOrder events asOf) FounderSeated <->
      FounderOnRecord record ∧
        Replay.AllSteps (rosterStep W rules) (RosterState.ofRecord record)
          (rosterOrder events asOf) (NotSeatedAlone W rules)) ∧
    (FounderOnRecord record ->
      Replay.AllSteps (rosterStep W rules) (RosterState.ofRecord record)
        (rosterOrder events asOf) (NotSeatedAlone W rules) ->
      FounderSeated (authorizedRosterStateAt W record rules events asOf)) := by
  have hne : record ≠ [] := by
    rcases hrecord with ⟨m, hm, -⟩
    exact List.ne_nil_of_mem hm
  have hiff := Replay.allReached_iff
    (fun s e hs => founderSeated_rosterStep_iff (W := W) hnode s e hs)
    (rosterOrder events asOf) (RosterState.ofRecord record)
  rw [founderSeated_ofRecord_iff hne] at hiff
  refine ⟨hiff, fun hfounder hsteps => ?_⟩
  rw [authorizedRosterStateAt_eq_replay]
  exact (hiff.mpr ⟨hfounder, hsteps⟩).final

end LastFounder

section Samples

open Reference

def publicRules : RosterRules where
  protocol := ConsensusProtocol.openSelfAdmit
  subkind := some cohortSubkindPublic
  policyBlob := none
  nodeBearing := NodeBearingSeats.none

def soleFounder : List CommunityMember :=
  [⟨"ada", 0, some memberRoleFounder⟩]

/-- The only member leaves a public room, then a newcomer admits themselves. -/
def emptiedRoom : List RosterEvent :=
  [⟨10, false, ⟨"ada", 10, none⟩, {"ada"}, ∅, false⟩,
   ⟨20, true, ⟨"bob", 20, none⟩, {"bob"}, ∅, false⟩]

/-- A row from before signers were stored takes the founder tag off the only
member. -/
def demotedFounder : List RosterEvent :=
  [⟨10, true, ⟨"ada", 10, none⟩, ∅, ∅, false⟩]

theorem founderless_rooms :
    authorizedRosterAt Rat soleFounder publicRules emptiedRoom 30 = [⟨"bob", 20, none⟩] ∧
      ¬ FounderSeated (authorizedRosterStateAt Rat soleFounder publicRules emptiedRoom 30) ∧
      authorizedRosterAt Rat soleFounder majorityRules demotedFounder 30 =
        [⟨"ada", 10, none⟩] ∧
      ¬ FounderSeated
        (authorizedRosterStateAt Rat soleFounder majorityRules demotedFounder 30) := by
  have hnot : forall s : RosterState, s.activeMembers ≠ [] ->
      (forall m, m ∈ s.activeMembers -> m.role ≠ some memberRoleFounder) ->
      ¬ FounderSeated s := by
    rintro s hne hroles (hnone | ⟨k, m, hactive, hrole⟩)
    · rcases List.exists_mem_of_ne_nil _ hne with ⟨m, hm⟩
      rw [RosterState.mem_activeMembers_iff, hnone] at hm
      cases hm
    · have hkey := RosterState.keyId_of_active? hactive
      rw [← hkey] at hactive
      exact hroles m ((RosterState.mem_activeMembers_iff s m).mpr hactive) hrole
  refine ⟨by decide, hnot _ ?_ ?_, by decide, hnot _ ?_ ?_⟩ <;> decide

def widenedRoom : List RosterEvent :=
  [⟨10, true, ⟨"carol", 10, none⟩, {"ada", "bob"}, ∅, false⟩]

theorem widenedRoom_founder_seated :
    FounderSeated (authorizedRosterStateAt Rat foundedRecord majorityRules widenedRoom 30) := by
  refine (founder_seated_throughout_iff Rat foundedRecord ⟨_, List.mem_cons_self, rfl⟩
    majorityRules (fun k t => NodeBearingSeats.bearsAt_none k t) widenedRoom 30).2 ?_ ?_
  · exact ⟨[], ⟨"ada", 0, some memberRoleFounder⟩, [⟨"bob", 0, none⟩], rfl, rfl, by decide⟩
  · rw [show rosterOrder widenedRoom 30 = widenedRoom by decide, widenedRoom,
      Replay.allSteps_cons]
    refine ⟨fun _ _ _ => ⟨⟨"ada", 0, some memberRoleFounder⟩, by decide, by decide⟩, ?_⟩
    intro pre e post heq
    simp at heq

end Samples

end CirisPersist.Federation
