import CirisPersist.Federation.Consensus.Evaluate
import CirisPersist.Library.FirstWins
import Mathlib.Data.List.Sort
import Std.Data.TreeMap.Lemmas

/-!
# Roster state

The roster fold keeps, for each key that has appeared, whether its latest
applied event left it active, together with the member value of that event.
Every entry is stored under its own member's key, which the type records.
-/

namespace CirisPersist.Federation

structure CommunityMember where
  keyId : String
  joinedAt : Instant
  role : Option String
deriving DecidableEq

def CommunityMember.isFounder (m : CommunityMember) : Bool :=
  m.role == some memberRoleFounder

@[simp]
theorem CommunityMember.isFounder_iff
    (m : CommunityMember) :
    m.isFounder = true <-> m.role = some memberRoleFounder := by
  simp [isFounder]

structure RosterState where
  entries : Std.TreeMap String (Bool × CommunityMember)
  keyed : forall (k : String) (active : Bool) (m : CommunityMember),
    entries[k]? = some (active, m) -> m.keyId = k

namespace RosterState

/-!
## Operations
-/

def empty : RosterState where
  entries := Std.TreeMap.empty
  keyed := by
    intro k active m h
    simp at h

/-- `state.insert(member.key_id, (active, member))`. -/
def put (s : RosterState) (active : Bool) (m : CommunityMember) : RosterState where
  entries := s.entries.insert m.keyId (active, m)
  keyed := by
    intro k active' m' h
    rw [Std.TreeMap.getElem?_insert] at h
    split at h
    · rename_i heq
      cases h
      exact Std.LawfulEqCmp.eq_of_compare heq
    · exact s.keyed k active' m' h

/-- Each record member, active, in order; a later entry for a key replaces an
earlier one. -/
def ofRecord (record : List CommunityMember) : RosterState :=
  record.foldl (fun s m => s.put true m) empty

def contains (s : RosterState) (k : String) : Bool :=
  s.entries.contains k

def active? (s : RosterState) (k : String) : Option CommunityMember :=
  match s.entries[k]? with
  | some (true, m) => some m
  | _ => none

def activeMembers (s : RosterState) : List CommunityMember :=
  s.entries.toList.filterMap fun entry => if entry.2.1 then some entry.2.2 else none

/-!
## Lookup lemmas
-/

@[simp]
theorem active?_empty
    (k : String) :
    empty.active? k = none := by
  simp [active?, empty]

variable (s : RosterState) (active : Bool)

theorem active?_put
    (m : CommunityMember) (k : String) :
    (s.put active m).active? k =
      if m.keyId = k then (if active then some m else none) else s.active? k := by
  unfold active? put
  rw [Std.TreeMap.getElem?_insert]
  by_cases h : m.keyId = k
  · cases active <;> simp [h]
  · simp [h]

theorem active?_put_self
    (m : CommunityMember) :
    (s.put active m).active? m.keyId = if active then some m else none := by
  rw [active?_put, if_pos rfl]

variable {m : CommunityMember} {k : String}

theorem active?_put_of_ne
    (h : k ≠ m.keyId) :
    (s.put active m).active? k = s.active? k := by
  rw [active?_put, if_neg (Ne.symm h)]

theorem keyId_of_active?
    {s : RosterState} (h : s.active? k = some m) :
    m.keyId = k := by
  unfold active? at h
  split at h
  · rename_i m' hget
    cases h
    exact s.keyed k true m hget
  · cases h

theorem mem_activeMembers_iff
    (m : CommunityMember) :
    m ∈ s.activeMembers <-> s.active? m.keyId = some m := by
  unfold activeMembers active?
  simp only [List.mem_filterMap, Prod.exists, Std.TreeMap.mem_toList_iff_getElem?_eq_some]
  constructor
  · rintro ⟨k, active, m', hget, hif⟩
    cases active with
    | false => simp at hif
    | true =>
        have hm : m' = m := by
          simpa using hif
        subst hm
        rw [s.keyed k true m' hget, hget]
  · intro h
    split at h
    · rename_i m' hget
      cases h
      exact ⟨m.keyId, true, m, hget, by simp⟩
    · cases h

theorem nodup_keyId_activeMembers :
    (s.activeMembers.map CommunityMember.keyId).Nodup := by
  unfold activeMembers
  rw [List.Nodup, List.pairwise_map, List.pairwise_filterMap]
  refine Std.TreeMap.distinct_keys_toList.imp_of_mem ?_
  rintro ⟨k, active, m⟩ ⟨k', active', m'⟩ hentry hentry' hdistinct n hn n' hn' hsame
  rw [Std.TreeMap.mem_toList_iff_getElem?_eq_some] at hentry hentry'
  have hm : active = true ∧ m = n := by
    simpa using hn
  have hm' : active' = true ∧ m' = n' := by
    simpa using hn'
  have hkey : k = k' := by
    rw [← s.keyed k active m hentry, ← s.keyed k' active' m' hentry', hm.2, hm'.2, hsame]
  exact hdistinct (by simp [hkey])

theorem active?_ofRecord
    (record : List CommunityMember) (k : String) :
    (ofRecord record).active? k = record.reverse.find? fun m => m.keyId == k := by
  induction record using List.reverseRecOn with
  | nil => simp [ofRecord]
  | append_singleton record m ih =>
      have hput : ofRecord (record ++ [m]) = (ofRecord record).put true m := by
        simp [ofRecord]
      rw [hput, active?_put, ih, List.reverse_append, List.reverse_singleton,
        List.singleton_append, List.find?_cons]
      by_cases h : m.keyId = k
      · simp [h]
      · rw [if_neg h, beq_false_of_ne h]

theorem active?_ofRecord_none_iff
    (record : List CommunityMember) (k : String) :
    (ofRecord record).active? k = none <-> forall m, m ∈ record -> m.keyId ≠ k := by
  simp [active?_ofRecord]

theorem mem_of_active?_ofRecord
    {record : List CommunityMember} (h : (ofRecord record).active? k = some m) :
    m ∈ record := by
  rw [active?_ofRecord] at h
  exact List.mem_reverse.mp (List.mem_of_find?_eq_some h)

theorem active?_ofRecord_of_nodup
    {record : List CommunityMember} (hnodup : (record.map CommunityMember.keyId).Nodup)
    (hm : m ∈ record) :
    (ofRecord record).active? m.keyId = some m := by
  have hreverse : (record.reverse.map CommunityMember.keyId).Nodup := by
    rwa [List.map_reverse, List.nodup_reverse]
  simp only [active?_ofRecord, beq_eq_decide]
  exact (FirstWins.find_key_eq_some_iff hreverse).mpr ⟨List.mem_reverse.mpr hm, rfl⟩

end RosterState

end CirisPersist.Federation
