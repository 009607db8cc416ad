import CirisPersist.Federation.Roster.History
import CirisPersist.Library.Spells

/-!
# The authority of a root

An appointment counts only if its root was a founder when it was made.  The replay
that precedes the moderation walk therefore writes down, for every root, the spells
during which it was an active founder, and cuts out of them those during which it
bore `node`.  At every instant these intervals say what the fold up to that instant
says.
-/

namespace CirisPersist.Federation

/-!
## The intervals of a set of roots

The source scans once for all roots and keeps two maps by root: the intervals that
ended, and since when a root has been a founder.
-/

section Maps

variable (W : Type) [RubricNum W] [External]

structure AuthorityMaps where
  state : RosterState
  out : Std.TreeMap String (List InstantInterval)
  opened : Std.TreeMap String Instant

/-- `out.entry(k).or_default().push(interval)`. -/
def pushInterval (out : Std.TreeMap String (List InstantInterval)) (k : String)
    (interval : InstantInterval) : Std.TreeMap String (List InstantInterval) :=
  out.insert k (out[k]?.getD [] ++ [interval])

def authorityMapsStep (rules : RosterRules) (roots : Std.TreeSet String) (acc : AuthorityMaps)
    (e : RosterEvent) : AuthorityMaps :=
  if !eventApplies W rules acc.state e then
    acc
  else
    let state := acc.state.put e.isAdd e.member
    let k := e.member.keyId
    if !roots.contains k then
      { acc with state := state }
    else
      match acc.opened[k]?, isFounderIn state k with
      | none, true =>
          { acc with
            state := state
            opened := acc.opened.insert k e.effectiveAt }
      | some start, false =>
          { state := state
            out := pushInterval acc.out k (start, some e.effectiveAt)
            opened := acc.opened.erase k }
      | _, _ => { acc with state := state }

def withoutNodeBearing (rules : RosterRules) (k : String) (intervals : List InstantInterval) :
    List InstantInterval :=
  if k ∈ rules.nodeBearing.own then
    []
  else
    match rules.nodeBearing.occurrence[k]? with
    | some cuts => subtractIntervals intervals cuts
    | none => intervals

def strippedEvents (events : List RosterEvent) : List RosterEvent :=
  events.map fun e => { e with moderatorRoots := ∅ }

def authorityStart (record : List CommunityMember) (roots : Std.TreeSet String) :
    AuthorityMaps where
  state := RosterState.ofRecord record
  out := Std.TreeMap.empty
  opened := (roots.toList.filter (isFounderIn (RosterState.ofRecord record))).foldl
    (fun opened root => opened.insert root External.minUtc) Std.TreeMap.empty

def rootAuthorityIntervalsOf (record : List CommunityMember) (rules : RosterRules)
    (events : List RosterEvent) (roots : Std.TreeSet String) :
    Std.TreeMap String (List InstantInterval) :=
  let scanned := (sortRosterEvents (strippedEvents events)).foldl
    (authorityMapsStep W rules roots) (authorityStart record roots)
  let out := scanned.opened.foldl (fun out k start => pushInterval out k (start, none)) scanned.out
  out.map (withoutNodeBearing rules)

/-!
The replay of one root alone, with the spells it ends with.
-/

def replayStart (record : List CommunityMember) (root : String) : AuthorityReplay where
  state := RosterState.ofRecord record
  openSince := if isFounderIn (RosterState.ofRecord record) root then some External.minUtc else none
  closed := []

def authorityReplay (record : List CommunityMember) (rules : RosterRules)
    (events : List RosterEvent) (root : String) : AuthorityReplay :=
  (sortRosterEvents (strippedEvents events)).foldl (authorityStep W rules root)
    (replayStart record root)

def founderSpells (replay : AuthorityReplay) : List InstantInterval :=
  replay.closed ++ (replay.openSince.map fun since => (since, none)).toList

end Maps

/-!
## Cutting out the instants of `node`
-/

theorem subtractInterval_eq_minus
    (intervals : List InstantInterval) (cut : InstantInterval) :
    subtractInterval intervals cut = Spells.minus intervals cut := by
  refine congrArg (List.filter _) (List.flatMap_congr fun interval _ => ?_)
  rcases interval with ⟨start, ending⟩
  rcases cut with ⟨cutStart, cutEnd⟩
  cases ending <;> cases cutEnd <;> rfl

theorem subtractIntervals_eq_foldl
    (intervals cuts : List InstantInterval) :
    subtractIntervals intervals cuts = cuts.foldl Spells.minus intervals := by
  rw [subtractIntervals, funext fun i => funext fun c => subtractInterval_eq_minus i c]

theorem withoutNodeBearing_nil
    (rules : RosterRules) (k : String) :
    withoutNodeBearing rules k [] = [] := by
  unfold withoutNodeBearing
  split
  · rfl
  · split
    · rw [subtractIntervals_eq_foldl]
      exact Spells.foldl_minus_nil _
    · rfl

theorem any_withoutNodeBearing_iff
    (rules : RosterRules) (k : String) (intervals : List InstantInterval) (t : Instant) :
    (withoutNodeBearing rules k intervals).any (InstantInterval.holdsAt t) = true <->
      intervals.any (InstantInterval.holdsAt t) = true ∧ rules.nodeBearing.bearsAt k t = false := by
  unfold withoutNodeBearing NodeBearingSeats.bearsAt
  by_cases hown : k ∈ rules.nodeBearing.own
  · simp [hown]
  · rw [if_neg hown]
    cases hcuts : rules.nodeBearing.occurrence[k]? with
    | none => simp [hown]
    | some cuts =>
        simp only [hown, decide_false, Bool.false_or, Option.any_some]
        rw [subtractIntervals_eq_foldl]
        exact Spells.any_foldl_minus_iff cuts t intervals

/-!
## One root of the set

What the maps hold under one root is the replay of that root alone.
-/

theorem getElem?_pushInterval
    (out : Std.TreeMap String (List InstantInterval)) (k root : String)
    (interval : InstantInterval) :
    (pushInterval out k interval)[root]?.getD [] =
      if k = root then out[root]?.getD [] ++ [interval] else out[root]?.getD [] := by
  unfold pushInterval
  rw [Std.TreeMap.getElem?_insert]
  by_cases h : k = root
  · subst h
    simp
  · simp [h]

theorem getElem?_foldl_insert
    {T : Type*} (v : T) (k : String) (keys : List String) (opened : Std.TreeMap String T) :
    (keys.foldl (fun opened root => opened.insert root v) opened)[k]? =
      if k ∈ keys then some v else opened[k]? := by
  induction keys generalizing opened with
  | nil => simp
  | cons key rest ih =>
      rw [List.foldl_cons, ih, Std.TreeMap.getElem?_insert]
      by_cases hrest : k ∈ rest
      · simp [hrest]
      · by_cases hkey : key = k
        · simp [hkey]
        · simp [hrest, hkey, Ne.symm hkey]

theorem getElem?_foldl_pushInterval
    (root : String) (entries : List (String × Instant))
    (out : Std.TreeMap String (List InstantInterval)) :
    (entries.foldl (fun out entry => pushInterval out entry.1 (entry.2, none)) out)[root]?.getD
        [] =
      out[root]?.getD [] ++
        (entries.filter fun entry => entry.1 = root).map fun entry => (entry.2, none) := by
  induction entries generalizing out with
  | nil => simp
  | cons entry rest ih =>
      rw [List.foldl_cons, ih, getElem?_pushInterval]
      by_cases h : entry.1 = root
      · simp [h]
      · simp [h]

theorem filter_toList_key
    (opened : Std.TreeMap String Instant) (root : String) :
    ((opened.toList.filter fun entry => entry.1 = root).map fun entry =>
        ((entry.2, none) : InstantInterval)) =
      (opened[root]?.map fun start => (start, none)).toList := by
  have hmem : forall entry, entry ∈ opened.toList.filter (fun entry => entry.1 = root) <->
      exists start, opened[root]? = some start ∧ entry = (root, start) := by
    rintro ⟨k, start⟩
    rw [List.mem_filter, Std.TreeMap.mem_toList_iff_getElem?_eq_some, decide_eq_true_iff]
    constructor
    · rintro ⟨hget, rfl⟩
      exact ⟨start, hget, rfl⟩
    · rintro ⟨start', hget, heq⟩
      cases heq
      exact ⟨hget, rfl⟩
  have hnodup : (opened.toList.filter fun entry => entry.1 = root).Nodup := by
    refine List.Nodup.filter _ (Std.TreeMap.distinct_keys_toList.imp ?_)
    intro a b hdistinct heq
    exact hdistinct (by rw [heq]; exact Std.ReflCmp.compare_self)
  cases hopen : opened[root]? with
  | none =>
      have hnil : opened.toList.filter (fun entry => entry.1 = root) = [] := by
        rw [List.eq_nil_iff_forall_not_mem]
        intro entry hentry
        rcases (hmem entry).mp hentry with ⟨start, hget, _⟩
        rw [hopen] at hget
        cases hget
      rw [hnil]
      rfl
  | some start =>
      have hsingle : opened.toList.filter (fun entry => entry.1 = root) = [(root, start)] := by
        refine List.perm_singleton.mp ((List.perm_ext_iff_of_nodup hnodup
          (List.nodup_singleton _)).mpr ?_)
        intro entry
        rw [hmem, List.mem_singleton, hopen]
        constructor
        · rintro ⟨start', hget, rfl⟩
          cases hget
          rfl
        · rintro rfl
          exact ⟨start, rfl, rfl⟩
      rw [hsingle]
      rfl

variable {root : String}

theorem isFounderIn_put_of_ne
    (s : RosterState) (active : Bool) {m : CommunityMember} (h : m.keyId ≠ root) :
    isFounderIn (s.put active m) root = isFounderIn s root := by
  unfold isFounderIn
  rw [RosterState.active?_put_of_ne s active (Ne.symm h)]

section OneRoot

variable {W : Type} [RubricNum W] [External]

structure AuthorityMaps.Holds (maps : AuthorityMaps) (root : String) (replay : AuthorityReplay) :
    Prop where
  state : maps.state = replay.state
  out : maps.out[root]?.getD [] = replay.closed
  opened : maps.opened[root]? = replay.openSince

variable {roots : Std.TreeSet String}

theorem holds_authorityMapsStep
    {rules : RosterRules} (hroot : root ∈ roots) {maps : AuthorityMaps} {replay : AuthorityReplay}
    (h : maps.Holds root replay) (e : RosterEvent) :
    (authorityMapsStep W rules roots maps e).Holds root (authorityStep W rules root replay e) := by
  unfold authorityMapsStep authorityStep
  rw [h.state]
  split
  · exact h
  · by_cases hkey : e.member.keyId = root
    · subst hkey
      have hcontains : roots.contains e.member.keyId = true := Std.TreeSet.mem_iff_contains.mp hroot
      simp only [hcontains, Bool.not_true, Bool.false_eq_true, if_false, ne_eq, not_true_eq_false,
        h.opened]
      cases hopen : replay.openSince with
      | none =>
          cases isFounderIn (replay.state.put e.isAdd e.member) e.member.keyId with
          | false => exact ⟨rfl, h.out, h.opened.trans hopen⟩
          | true => exact ⟨rfl, h.out, by simp⟩
      | some start =>
          cases isFounderIn (replay.state.put e.isAdd e.member) e.member.keyId with
          | false => exact ⟨rfl, by simp [getElem?_pushInterval, h.out], by simp⟩
          | true => exact ⟨rfl, h.out, h.opened.trans hopen⟩
    · -- an event about another key leaves the root's entries alone
      simp only [ne_eq, hkey, not_false_eq_true, if_true]
      split
      · exact ⟨rfl, h.out, h.opened⟩
      · split
        · refine ⟨rfl, h.out, ?_⟩
          rw [Std.TreeMap.getElem?_insert, if_neg (by simpa using hkey)]
          exact h.opened
        · refine ⟨rfl, ?_, ?_⟩
          · rw [getElem?_pushInterval, if_neg hkey]
            exact h.out
          · rw [Std.TreeMap.getElem?_erase, if_neg (by simpa using hkey)]
            exact h.opened
        · exact ⟨rfl, h.out, h.opened⟩

variable (rules : RosterRules)

theorem holds_foldl_authorityMapsStep
    (hroot : root ∈ roots) (events : List RosterEvent) (maps : AuthorityMaps)
    (replay : AuthorityReplay) (h : maps.Holds root replay) :
    (events.foldl (authorityMapsStep W rules roots) maps).Holds root
      (events.foldl (authorityStep W rules root) replay) :=
  List.foldl_rel (r := fun maps : AuthorityMaps => maps.Holds root) h
    fun e _ _ _ h => holds_authorityMapsStep hroot h e

variable (record : List CommunityMember)

theorem holds_authorityStart
    (hroot : root ∈ roots) :
    (authorityStart record roots).Holds root (replayStart record root) := by
  refine ⟨rfl, by simp [authorityStart, replayStart], ?_⟩
  unfold authorityStart replayStart
  rw [getElem?_foldl_insert]
  simp only [List.mem_filter, Std.TreeSet.mem_toList, hroot, true_and]
  cases isFounderIn (RosterState.ofRecord record) root <;> simp

theorem rootAuthorityIntervals_eq
    (rules : RosterRules) (events : List RosterEvent) (root : String) :
    rootAuthorityIntervals W record rules events root =
      withoutNodeBearing rules root (founderSpells (authorityReplay W record rules events root)) :=
  rfl

theorem getElem?_rootAuthorityIntervalsOf
    (rules : RosterRules) (events : List RosterEvent) (hroot : root ∈ roots) :
    (rootAuthorityIntervalsOf W record rules events roots)[root]?.getD [] =
      rootAuthorityIntervals W record rules events root := by
  have hscan := holds_foldl_authorityMapsStep (W := W) rules hroot
    (sortRosterEvents (strippedEvents events)) _ _ (holds_authorityStart record hroot)
  have hmap : forall o : Option (List InstantInterval),
      (o.map (withoutNodeBearing rules root)).getD [] =
        withoutNodeBearing rules root (o.getD []) := by
    intro o
    cases o with
    | none => exact (withoutNodeBearing_nil rules root).symm
    | some intervals => rfl
  rw [rootAuthorityIntervals_eq, rootAuthorityIntervalsOf]
  rw [Std.TreeMap.getElem?_map, hmap, Std.TreeMap.foldl_eq_foldl_toList,
    getElem?_foldl_pushInterval, filter_toList_key, hscan.out, hscan.opened]
  rfl

/-!
## The spells of a root
-/

def AuthorityReplay.toScan (replay : AuthorityReplay) : Spells.Scan RosterState Instant where
  state := replay.state
  since := replay.openSince
  closed := replay.closed

theorem toScan_authorityStep
    {replay : AuthorityReplay} (htracks : replay.toScan.Tracks fun s => isFounderIn s root)
    (e : RosterEvent) :
    (authorityStep W rules root replay e).toScan =
      Spells.scanStep (rosterStep W rules) RosterEvent.effectiveAt (fun s => isFounderIn s root)
        replay.toScan e := by
  cases happlies : eventApplies W rules replay.state e with
  | false =>
      have hstep : rosterStep W rules replay.state e = replay.state := rosterStep_of_inert happlies
      rw [Spells.scanStep_of_same htracks (by rw [AuthorityReplay.toScan, hstep])]
      simp [authorityStep, happlies, AuthorityReplay.toScan, hstep]
  | true =>
      have hstep : rosterStep W rules replay.state e = replay.state.put e.isAdd e.member :=
        rosterStep_of_applies happlies
      by_cases hkey : e.member.keyId = root
      · cases hsince : replay.openSince <;>
          cases hholds : isFounderIn (replay.state.put e.isAdd e.member) root <;>
            simp [authorityStep, happlies, hkey, hsince, hholds, Spells.scanStep,
              AuthorityReplay.toScan, hstep]
      · rw [Spells.scanStep_of_same htracks
          (by rw [AuthorityReplay.toScan, hstep]; exact isFounderIn_put_of_ne _ _ hkey)]
        simp [authorityStep, happlies, hkey, AuthorityReplay.toScan, hstep]

theorem toScan_foldl_authorityStep
    (events : List RosterEvent) (replay : AuthorityReplay)
    (htracks : replay.toScan.Tracks fun s => isFounderIn s root) :
    (events.foldl (authorityStep W rules root) replay).toScan =
      events.foldl (Spells.scanStep (rosterStep W rules) RosterEvent.effectiveAt
        fun s => isFounderIn s root) replay.toScan := by
  induction events generalizing replay with
  | nil => rfl
  | cons e rest ih =>
      have hstep := toScan_authorityStep (W := W) rules htracks e
      rw [List.foldl_cons, List.foldl_cons, ← hstep]
      apply ih
      rw [hstep]
      exact Spells.tracks_scanStep e

theorem settled_replayStart
    (root : String) {t : Instant} (ht : External.minUtc ≤ t) :
    (replayStart record root).toScan.Settled (fun s => isFounderIn s root) t := by
  unfold replayStart AuthorityReplay.toScan
  refine ⟨?_, ?_, ?_⟩
  · unfold Spells.Scan.Tracks
    cases hfounder : isFounderIn (RosterState.ofRecord record) root <;> simp [hfounder]
  · intro since hsince
    simp only [Option.ite_none_right_eq_some, Option.some.injEq] at hsince
    rw [← hsince.2]
    exact ht
  · intro i hi
    cases hi

theorem any_founderSpells
    (rules : RosterRules) (events : List RosterEvent) (root : String) {t : Instant}
    (ht : External.minUtc ≤ t) :
    (founderSpells (authorityReplay W record rules events root)).any (InstantInterval.holdsAt t) =
      isFounderIn (authorizedRosterStateAt W record rules (strippedEvents events) t) root := by
  have hsettled := settled_replayStart record root ht
  have hscan := toScan_foldl_authorityStep (W := W) rules
    (sortRosterEvents (strippedEvents events)) _ hsettled.tracks
  have hearly : forall e, e ∈ rosterOrder (strippedEvents events) t -> e.effectiveAt ≤ t :=
    fun e he => ((mem_rosterOrder_iff _ _ e).mp he).2
  have hlate : forall e, e ∈ sortRosterEvents
      ((strippedEvents events).filter fun e => decide (t < e.effectiveAt)) ->
      t < e.effectiveAt := by
    intro e he
    rw [sortRosterEvents, List.mem_insertionSort, List.mem_filter] at he
    exact of_decide_eq_true he.2
  have hspells := Spells.any_spells_foldl_append (rosterStep W rules) hsettled hearly hlate
  rw [← sortRosterEvents_eq_append, ← hscan] at hspells
  rw [authorizedRosterStateAt_eq_replay]
  exact hspells

variable (W) in
/-- An instant lies in one of a root's authority intervals exactly when the fold up to that
instant, without moderators, has the root as an active founder that does not bear
`node`. -/
theorem root_authority_agrees_with_fold
    (record : List CommunityMember) (rules : RosterRules) (events : List RosterEvent)
    (roots : Std.TreeSet String) (root : String) (hroot : root ∈ roots)
    (t : Instant) (ht : External.minUtc ≤ t) :
    ((rootAuthorityIntervalsOf W record rules events roots)[root]?.getD []).any
        (InstantInterval.holdsAt t) = true <->
      (exists m, (authorizedRosterStateAt W record rules (strippedEvents events) t).active? root =
        some m ∧ m.role = some memberRoleFounder) ∧
      rules.nodeBearing.bearsAt root t = false := by
  rw [getElem?_rootAuthorityIntervalsOf record rules events hroot, rootAuthorityIntervals_eq,
    any_withoutNodeBearing_iff, any_founderSpells record rules events root ht]
  simp [isFounderIn, Option.any_eq_true]

end OneRoot

section Samples

open Reference

def faySeats : NodeBearingSeats where
  own := ∅
  occurrence := Std.TreeMap.empty.insert "fay" [(3, some 6)]

/-- Fay is on the record as the founder, and demoted at the ninth instant with another
founder seated. -/
def fayRules : RosterRules :=
  ⟨"majority", none, none, faySeats⟩

def fayRecord : List CommunityMember :=
  [⟨"fay", 0, some memberRoleFounder⟩, ⟨"gil", 0, some memberRoleFounder⟩]

def fayDemoted : RosterEvent where
  effectiveAt := 9
  isAdd := true
  member := ⟨"fay", 0, none⟩
  signers := ∅
  moderatorRoots := ∅
  reversed := false

/-- Past the spell in which it bore `node`, and before it is demoted, Fay has authority. -/
theorem fay_has_authority_at_seven :
    "fay" ∈ (Std.TreeSet.empty.insert "fay" : Std.TreeSet String) ∧
      External.minUtc ≤ (7 : Instant) ∧
      ((rootAuthorityIntervalsOf Rat fayRecord fayRules [fayDemoted]
        (Std.TreeSet.empty.insert "fay"))["fay"]?.getD []).any (InstantInterval.holdsAt 7) =
          true := by
  have hroot : "fay" ∈ (Std.TreeSet.empty.insert "fay" : Std.TreeSet String) := by simp
  have htime : External.minUtc ≤ (7 : Instant) := by decide
  refine ⟨hroot, htime, (root_authority_agrees_with_fold Rat fayRecord fayRules [fayDemoted] _
    "fay" hroot 7 htime).mpr ⟨⟨_, rfl, rfl⟩, ?_⟩⟩
  decide

end Samples

end CirisPersist.Federation
