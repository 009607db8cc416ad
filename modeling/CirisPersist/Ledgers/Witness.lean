import CirisPersist.Ledgers.Chain
import CirisPersist.Library.FirstWins

/-!
# Witnessed heads

A witness pins the hash of an entry.  A chain presented later is replayed and its
hash at the pinned number is compared.  Without collisions in the content hash a
head commits to its whole history: two verified chains with one head hash are
equal, and a chain that does not contradict a pinned entry agrees with the pinned
chain on every entry up to it.
-/

namespace CirisPersist.Ledgers

inductive ForkEvidence where
  | witnessContradiction (ledgerId : String) (witnessedSeq : Nat)
      (witnessedHash replayedHash : String)
deriving DecidableEq

section Witness

variable [CanonicalDigest]

def contradictsWitnessedAncestor (witnessedSeq : Nat) (witnessedHash : String)
    (chainFirstSeq : Nat) (chainFirstPrev : String) (chain : List LedgerEntry) :
    Except ChainViolation (Option ForkEvidence) :=
  match verifyChain chain chainFirstSeq chainFirstPrev with
  | .error violation => .error violation
  | .ok _ =>
      match chain.find? fun e => e.seq = witnessedSeq with
      | none => .ok none
      | some e =>
          if entryContentHash e = witnessedHash then
            .ok none
          else
            .ok (some (.witnessContradiction e.ledgerId witnessedSeq witnessedHash
              (entryContentHash e)))

/-!
## Linked chains
-/

theorem linked_of_verified
    {entries : List LedgerEntry} {h : ChainHead} (hok : verifyChainFromGenesis entries = .ok h) :
    Linked 0 h.ledgerId entries ∧ h.headHash = lastHash h.ledgerId entries := by
  cases entries with
  | nil => cases hok
  | cons first rest =>
      rcases verifyChainFromGenesis_cons_ok_iff.mp hok with ⟨-, hlinked, rfl⟩
      exact ⟨hlinked, rfl⟩

variable {prev : String}

theorem entry_of_not_contradicted
    {s n : Nat} {pinned : String} {chain : List LedgerEntry}
    (h : contradictsWitnessedAncestor s pinned n prev chain = .ok none)
    (hheld : exists e, e ∈ chain ∧ e.seq = s) :
    exists e, e ∈ chain ∧ e.seq = s ∧ entryContentHash e = pinned := by
  unfold contradictsWitnessedAncestor at h
  cases hverified : verifyChain chain n prev with
  | error violation =>
      rw [hverified] at h
      cases h
  | ok head =>
      rw [hverified] at h
      rcases hheld with ⟨held, hheld, rfl⟩
      rcases FirstWins.exists_find_key LedgerEntry.seq hheld with ⟨e, hfind, he, hseq⟩
      by_cases hhash : entryContentHash e = pinned
      · exact ⟨e, he, hseq, hhash⟩
      · simp [hfind, hhash] at h

variable {e : LedgerEntry}

theorem entry_at_seq
    {entries : List LedgerEntry} (hlinked : Linked 0 prev entries) (he : e ∈ entries) :
    entries[e.seq]? = some e := by
  rcases List.getElem_of_mem he with ⟨i, hi, rfl⟩
  have hseq := HashChain.seq_of_linked hlinked (List.getElem?_eq_getElem hi)
  rw [hseq, Nat.zero_add, List.getElem?_eq_getElem hi]

theorem prefix_ends_at
    {entries : List LedgerEntry} (hlinked : Linked 0 prev entries) (he : e ∈ entries) :
    exists init, entries.take (e.seq + 1) = init ++ [e] := by
  refine ⟨entries.take e.seq, ?_⟩
  rw [List.take_add_one, entry_at_seq hlinked he]
  rfl

theorem take_eq_of_shared_entry
    (hinj : Function.Injective entryContentHash) {a b : List LedgerEntry} {prev' : String}
    (ha : Linked 0 prev a) (hb : Linked 0 prev' b) (hea : e ∈ a) (heb : e ∈ b) :
    a.take (e.seq + 1) = b.take (e.seq + 1) := by
  rcases prefix_ends_at ha hea with ⟨initA, htakeA⟩
  rcases prefix_ends_at hb heb with ⟨initB, htakeB⟩
  have hlinkedA : Linked 0 prev (a.take (e.seq + 1)) := by
    rw [← List.take_append_drop (e.seq + 1) a] at ha
    exact (HashChain.linked_append.mp ha).1
  have hlinkedB : Linked 0 prev' (b.take (e.seq + 1)) := by
    rw [← List.take_append_drop (e.seq + 1) b] at hb
    exact (HashChain.linked_append.mp hb).1
  rw [htakeA] at hlinkedA ⊢
  rw [htakeB] at hlinkedB ⊢
  refine HashChain.eq_of_headHash_eq hinj hlinkedA hlinkedB (by simp) (by simp) ?_
  rw [HashChain.headHash_concat, HashChain.headHash_concat]

/-!
## Commitment
-/

/-- A verified head commits to the whole history, and an entry that a witness pinned
commits to everything up to it. -/
theorem verified_head_commits
    (hinj : Function.Injective entryContentHash)
    (a b : List LedgerEntry) (ca cb : ChainHead)
    (ha : verifyChainFromGenesis a = .ok ca) (hb : verifyChainFromGenesis b = .ok cb) :
    (ca.headHash = cb.headHash -> a = b) ∧
      forall (ledgerId : String) (s : Nat) (e : LedgerEntry),
        ca.ledgerId = ledgerId -> cb.ledgerId = ledgerId ->
        e ∈ a -> e.seq = s -> (exists e', e' ∈ b ∧ e'.seq = s) ->
        contradictsWitnessedAncestor s (entryContentHash e) 0 ledgerId b = .ok none ->
        a.filter (fun x => decide (x.seq ≤ s)) = b.filter (fun x => decide (x.seq ≤ s)) := by
  rcases linked_of_verified ha with ⟨hlinkedA, hheadA⟩
  rcases linked_of_verified hb with ⟨hlinkedB, hheadB⟩
  constructor
  · intro hsame
    rw [hheadA, hheadB] at hsame
    exact HashChain.eq_of_headHash_eq hinj hlinkedA hlinkedB (ne_nil_of_verified ha)
      (ne_nil_of_verified hb) hsame
  · rintro ledgerId s e - - hea rfl hheld hquiet
    rcases entry_of_not_contradicted hquiet hheld with ⟨e', he', -, hhash⟩
    obtain rfl := hinj hhash
    rw [HashChain.filter_seq_le_eq_take hlinkedA, HashChain.filter_seq_le_eq_take hlinkedB,
      Nat.sub_zero]
    exact take_eq_of_shared_entry hinj hlinkedA hlinkedB hea he'

/-- A pinned entry is left alone exactly by the chains that end before its number and by those
that repeat the pinned chain up to it. -/
theorem quiet_iff_agrees_below
    (hinj : Function.Injective entryContentHash) {a b : List LedgerEntry} {ca cb : ChainHead}
    (ha : verifyChainFromGenesis a = .ok ca) (hb : verifyChainFromGenesis b = .ok cb)
    (he : e ∈ a) :
    contradictsWitnessedAncestor e.seq (entryContentHash e) 0 cb.ledgerId b = .ok none <->
      b.length ≤ e.seq ∨ a.take (e.seq + 1) = b.take (e.seq + 1) := by
  have hlinkedA := (linked_of_verified ha).1
  have hlinkedB := (linked_of_verified hb).1
  constructor
  · intro hquiet
    refine or_iff_not_imp_left.mpr fun hlong => ?_
    have hat := List.getElem?_eq_getElem (Nat.not_le.mp hlong)
    have hseq := HashChain.seq_of_linked hlinkedB hat
    rw [Nat.zero_add] at hseq
    rcases entry_of_not_contradicted hquiet ⟨_, List.mem_of_getElem? hat, hseq⟩ with
      ⟨e', he', -, hhash⟩
    obtain rfl := hinj hhash
    exact take_eq_of_shared_entry hinj hlinkedA hlinkedB he he'
  · intro hagree
    have hverified : verifyChain b 0 cb.ledgerId = .ok cb := by
      cases b with
      | nil => cases hb
      | cons first rest =>
          rcases verifyChainFromGenesis_cons_ok_iff.mp hb with ⟨-, -, rfl⟩
          exact hb
    rw [contradictsWitnessedAncestor, hverified]
    cases hfind : b.find? fun x => x.seq = e.seq with
    | none => rfl
    | some x =>
        have hseq : x.seq = e.seq := by simpa using List.find?_some hfind
        have hx := entry_at_seq hlinkedB (List.mem_of_find?_eq_some hfind)
        rw [hseq] at hx
        rcases hagree with hshort | hagree
        · rw [List.getElem?_eq_none hshort] at hx
          cases hx
        · have hsame := congrArg (·[e.seq]?) hagree
          simp only [List.getElem?_take_of_succ, entry_at_seq hlinkedA he, hx] at hsame
          cases hsame
          simp

end Witness

/-!
## A pinned entry
-/

section Samples

open Reference

def thirdEntry : LedgerEntry :=
  { secondEntry with seq := 2, prevHash := entryContentHash secondEntry }

def twoEntries : List LedgerEntry :=
  [genesisEntry, secondEntry]

def threeEntries : List LedgerEntry :=
  [genesisEntry, secondEntry, thirdEntry]

def headOf (e : LedgerEntry) : ChainHead where
  ledgerId := e.ledgerId
  seq := e.seq
  headHash := entryContentHash e
  unit := e.unit

theorem twoEntries_verified :
    verifyChainFromGenesis twoEntries = .ok (headOf secondEntry) := by
  refine verifyChainFromGenesis_cons_ok_iff.mpr ⟨?_, ?_, ?_⟩
  · simp [Bound, secondEntry]
  · simp [HashChain.Linked, secondEntry, genesisEntry]
  · simp [headOf, secondEntry]

theorem threeEntries_verified :
    verifyChainFromGenesis threeEntries = .ok (headOf thirdEntry) := by
  refine verifyChainFromGenesis_cons_ok_iff.mpr ⟨?_, ?_, ?_⟩
  · simp [Bound, thirdEntry, secondEntry]
  · simp [HashChain.Linked, thirdEntry, secondEntry, genesisEntry]
  · simp [headOf, thirdEntry, secondEntry]

theorem threeEntries_not_contradicted :
    contradictsWitnessedAncestor 1 (entryContentHash secondEntry) 0 "ledger-a" threeEntries =
      .ok none := by
  have hverified : verifyChain threeEntries 0 "ledger-a" = .ok (headOf thirdEntry) :=
    (verifyChainFromGenesis_cons genesisEntry [secondEntry, thirdEntry]).symm.trans
      threeEntries_verified
  have hfind : (threeEntries.find? fun e => e.seq = 1) = some secondEntry := rfl
  simp [contradictsWitnessedAncestor, hverified, hfind]

theorem threeEntries_agree_below_pinned :
    contradictsWitnessedAncestor 1 (entryContentHash secondEntry) 0 "ledger-a" threeEntries =
        .ok none ∧
      (twoEntries.filter fun x => decide (x.seq ≤ 1)) =
        threeEntries.filter fun x => decide (x.seq ≤ 1) := by
  have hsecond : secondEntry ∈ threeEntries :=
    List.mem_cons_of_mem _ List.mem_cons_self
  exact ⟨threeEntries_not_contradicted,
    (verified_head_commits (entryContentHash_injective digest_injective) twoEntries
      threeEntries _ _ twoEntries_verified threeEntries_verified).2 "ledger-a" 1 secondEntry
      rfl rfl (List.mem_cons_of_mem _ List.mem_cons_self) rfl ⟨secondEntry, hsecond, rfl⟩
      threeEntries_not_contradicted⟩

theorem twoEntries_not_contradicted :
    contradictsWitnessedAncestor 2 (entryContentHash thirdEntry) 0 "ledger-a" twoEntries =
      .ok none :=
  (quiet_iff_agrees_below (e := thirdEntry) (entryContentHash_injective digest_injective)
    threeEntries_verified twoEntries_verified (by simp [threeEntries])).mpr (Or.inl le_rfl)

end Samples

end CirisPersist.Ledgers
