import CirisPersist.Base.Digest
import CirisPersist.Library.HashChain

/-!
# Ledger chains

A ledger is a hash-linked list of entries.  The genesis entry has sequence number
0 and points at the ledger id; every later entry points at the content hash of the
one before it.  The verifier replays a chain from its genesis or from a witnessed
checkpoint and returns the head.

The module follows `ledgers/standard.rs`.  The source's sequence numbers are `u64`, here they
are natural numbers.  A chain replayed from its genesis has as many entries as its head's
number says, so it never meets the bound; a checkpoint at `u64::MAX`, after which the source's
`checkpoint_seq + 1` overflows, is outside the model.
-/

namespace CirisPersist.Ledgers

/-!
## Entries
-/

inductive TransferDirection where
  | outgoing
  | incoming
deriving DecidableEq

inductive LedgerEntryKind where
  | credit
  | debit
  | transfer (counterpartyLedgerId matchingRef : String) (direction : TransferDirection)
deriving DecidableEq

structure LedgerEntry where
  ledgerId : String
  seq : Nat
  prevHash : String
  kind : LedgerEntryKind
  amountMinor : Nat
  unit : String
  refs : List String
deriving DecidableEq

def TransferDirection.text : TransferDirection -> String
  | .outgoing => "outgoing"
  | .incoming => "incoming"

def LedgerEntryKind.members : LedgerEntryKind -> List (String × Json)
  | .credit => [("kind", .str "credit")]
  | .debit => [("kind", .str "debit")]
  | .transfer counterpartyLedgerId matchingRef direction =>
      [("kind", .str "transfer"), ("counterparty_ledger_id", .str counterpartyLedgerId),
        ("matching_ref", .str matchingRef), ("direction", .str direction.text)]

def entryContentValue (e : LedgerEntry) : Json :=
  .obj (("amount_minor", .num (.int e.amountMinor)) :: e.kind.members ++
    [("ledger_id", .str e.ledgerId), ("prev_hash", .str e.prevHash),
      ("refs", .arr (e.refs.map .str)), ("seq", .num (.int e.seq)), ("unit", .str e.unit)])

theorem entryContentValue_injective :
    Function.Injective entryContentValue := by
  rintro ⟨l, s, p, k, a, u, rs⟩ ⟨l', s', p', k', a', u', rs'⟩ h
  have hrefs : rs.map Json.str = rs'.map Json.str -> rs = rs' :=
    (List.map_inj_right fun x y hxy => Json.str.inj hxy).mp
  have hdirection : forall d d' : TransferDirection, d.text = d'.text -> d = d' := by
    intro d d'
    cases d <;> cases d' <;> decide
  cases k <;> cases k' <;> simp [entryContentValue, LedgerEntryKind.members] at h
  case credit.credit => simp [h, hrefs h.2.2.2.1]
  case debit.debit => simp [h, hrefs h.2.2.2.1]
  case transfer.transfer =>
      simp [h, hrefs h.2.2.2.2.2.2.1, hdirection _ _ h.2.2.2.1]

section Hash

variable [CanonicalDigest]

def entryContentHash (e : LedgerEntry) : String :=
  CanonicalDigest.digest (entryContentValue e)

theorem entryContentHash_injective
    (h : Function.Injective (CanonicalDigest.digest : Json -> String)) :
    Function.Injective entryContentHash :=
  h.comp entryContentValue_injective

end Hash

/-!
## The verifier
-/

structure ChainHead where
  ledgerId : String
  seq : Nat
  headHash : String
  unit : String
deriving DecidableEq

inductive ChainViolation where
  | empty
  | ledgerIdMismatch (index : Nat) (expected found : String)
  | unitMismatch (seq : Nat) (expected found : String)
  | seqGap (expected found : Nat)
  | prevHashMismatch (seq : Nat) (expected found : String)
deriving DecidableEq

section Verify

variable [CanonicalDigest]

def verifyChainLoop (ledgerId unit : String) :
    Nat -> Nat -> String -> String -> List LedgerEntry -> Except ChainViolation ChainHead
  | _, expectedSeq, _, headHash, [] =>
      .ok { ledgerId, seq := expectedSeq - 1, headHash, unit }
  | index, expectedSeq, expectedPrev, _, e :: rest =>
      if e.ledgerId ≠ ledgerId then
        .error (.ledgerIdMismatch index ledgerId e.ledgerId)
      else if e.unit ≠ unit then
        .error (.unitMismatch e.seq unit e.unit)
      else if e.seq ≠ expectedSeq then
        .error (.seqGap expectedSeq e.seq)
      else if e.prevHash ≠ expectedPrev then
        .error (.prevHashMismatch e.seq expectedPrev e.prevHash)
      else
        verifyChainLoop ledgerId unit (index + 1) (expectedSeq + 1) (entryContentHash e)
          (entryContentHash e) rest

def verifyChain (entries : List LedgerEntry) (expectedFirstSeq : Nat)
    (expectedFirstPrev : String) : Except ChainViolation ChainHead :=
  match entries with
  | [] => .error .empty
  | first :: _ =>
      -- The ledger and its unit are whatever the first entry says.
      verifyChainLoop first.ledgerId first.unit 0 expectedFirstSeq expectedFirstPrev "" entries

def verifyChainFromGenesis (entries : List LedgerEntry) : Except ChainViolation ChainHead :=
  match entries with
  | [] => .error .empty
  | first :: _ => verifyChain entries 0 first.ledgerId

def verifyChainFromCheckpoint (checkpointSeq : Nat) (checkpointedHeadHash : String)
    (entries : List LedgerEntry) : Except ChainViolation ChainHead :=
  verifyChain entries (checkpointSeq + 1) checkpointedHeadHash

end Verify

/-!
## What the verifier accepts
-/

def Bound (ledgerId unit : String) (entries : List LedgerEntry) : Prop :=
  forall e, e ∈ entries -> e.ledgerId = ledgerId ∧ e.unit = unit

variable {rest : List LedgerEntry} {ledgerId unit : String}

theorem bound_cons
    {e : LedgerEntry} :
    Bound ledgerId unit (e :: rest) <->
      (e.ledgerId = ledgerId ∧ e.unit = unit) ∧ Bound ledgerId unit rest :=
  List.forall_mem_cons

variable {a b : List LedgerEntry}

theorem bound_append :
    Bound ledgerId unit (a ++ b) <-> Bound ledgerId unit a ∧ Bound ledgerId unit b :=
  List.forall_mem_append

section Accepts

variable [CanonicalDigest]

abbrev Linked : Nat -> String -> List LedgerEntry -> Prop :=
  HashChain.Linked LedgerEntry.seq LedgerEntry.prevHash entryContentHash

abbrev lastHash : String -> List LedgerEntry -> String :=
  HashChain.headHash entryContentHash

variable {h : ChainHead}

theorem verifyChainLoop_cons_ok_iff
    {prev headHash : String} {index n : Nat} {e : LedgerEntry} :
    verifyChainLoop ledgerId unit index n prev headHash (e :: rest) = .ok h <->
      ((e.ledgerId = ledgerId ∧ e.unit = unit) ∧ e.seq = n ∧ e.prevHash = prev) ∧
        verifyChainLoop ledgerId unit (index + 1) (n + 1) (entryContentHash e)
          (entryContentHash e) rest = .ok h := by
  by_cases hledger : e.ledgerId = ledgerId
  · by_cases hunit : e.unit = unit
    · by_cases hseq : e.seq = n
      · by_cases hprev : e.prevHash = prev
        · simp [verifyChainLoop, hledger, hunit, hseq, hprev]
        · simp [verifyChainLoop, hledger, hunit, hseq, hprev]
      · simp [verifyChainLoop, hledger, hunit, hseq]
    · simp [verifyChainLoop, hledger, hunit]
  · simp [verifyChainLoop, hledger]

theorem verifyChainLoop_ok_iff
    (ledgerId unit : String) (entries : List LedgerEntry) (index n : Nat) (prev : String)
    (h : ChainHead) :
    verifyChainLoop ledgerId unit index n prev prev entries = .ok h <->
      Bound ledgerId unit entries ∧ Linked n prev entries ∧
        h = { ledgerId, seq := n + entries.length - 1, headHash := lastHash prev entries,
              unit } := by
  induction entries generalizing index n prev h with
  | nil => simp [verifyChainLoop, Bound, HashChain.Linked, eq_comm]
  | cons e rest ih =>
      have hlen : n + 1 + rest.length = n + (e :: rest).length := by
        rw [List.length_cons]
        omega
      have hloop : verifyChainLoop ledgerId unit index n prev prev (e :: rest) = .ok h <-> _ :=
        verifyChainLoop_cons_ok_iff
      rw [hloop, ih, bound_cons, hlen]
      simp only [HashChain.Linked, HashChain.headHash_cons]
      tauto

theorem verifyChain_cons_ok_iff
    {first : LedgerEntry} {n : Nat} {prev : String} :
    verifyChain (first :: rest) n prev = .ok h <->
      Bound first.ledgerId first.unit (first :: rest) ∧ Linked n prev (first :: rest) ∧
        h = { ledgerId := first.ledgerId, seq := n + rest.length,
              headHash := lastHash prev (first :: rest), unit := first.unit } := by
  -- The hash carried into the first iteration is never read.
  have hstart : verifyChain (first :: rest) n prev =
      verifyChainLoop first.ledgerId first.unit 0 n prev prev (first :: rest) := rfl
  rw [hstart, verifyChainLoop_ok_iff]
  rfl

theorem verifyChainFromGenesis_cons
    (first : LedgerEntry) (rest : List LedgerEntry) :
    verifyChainFromGenesis (first :: rest) = verifyChain (first :: rest) 0 first.ledgerId := rfl

theorem verifyChainFromGenesis_cons_ok_iff
    {first : LedgerEntry} :
    verifyChainFromGenesis (first :: rest) = .ok h <->
      Bound first.ledgerId first.unit (first :: rest) ∧
        Linked 0 first.ledgerId (first :: rest) ∧
        h = { ledgerId := first.ledgerId, seq := rest.length,
              headHash := lastHash first.ledgerId (first :: rest), unit := first.unit } := by
  rw [verifyChainFromGenesis_cons, verifyChain_cons_ok_iff, Nat.zero_add]

theorem ne_nil_of_verified
    {entries : List LedgerEntry} (hok : verifyChainFromGenesis entries = .ok h) :
    entries ≠ [] := by
  rintro rfl
  cases hok

/-!
## Resuming from a checkpoint

A checkpoint hands over a sequence number and a hash.  The ledger id and the unit
are not part of it: the verifier takes them from the first entry of the tail.
-/

/-- The first chain verifies, and the second from the head of the first. -/
def Resumed (a b : List LedgerEntry) (h : ChainHead) : Prop :=
  exists c, verifyChainFromGenesis a = .ok c ∧
    verifyChainFromCheckpoint c.seq c.headHash b = .ok h

end Accepts

/-- The tail's first entry names the ledger and the unit of the first entry. -/
def ContinuesLedger (a b : List LedgerEntry) : Prop :=
  forall x y, a.head? = some x -> b.head? = some y ->
    y.ledgerId = x.ledgerId ∧ y.unit = x.unit

theorem continuesLedger_cons
    {x y : LedgerEntry} :
    ContinuesLedger (x :: a) (y :: b) <-> y.ledgerId = x.ledgerId ∧ y.unit = x.unit := by
  simp [ContinuesLedger]

section Resume

variable [CanonicalDigest]

/-- Each part names one ledger and one unit, its first entry's, and the two together number
up and link from the genesis on. -/
structure LinksTo (a b : List LedgerEntry) : Prop where
  base : forall x, a.head? = some x -> Bound x.ledgerId x.unit a
  tail : forall y, b.head? = some y -> Bound y.ledgerId y.unit b
  linked : forall x, a.head? = some x -> Linked 0 x.ledgerId (a ++ b)

theorem resumed_cons_iff
    {x y : LedgerEntry} {h : ChainHead} :
    Resumed (x :: a) (y :: b) h <->
      (Bound x.ledgerId x.unit (x :: a) ∧ Bound y.ledgerId y.unit (y :: b)) ∧
        Linked 0 x.ledgerId (x :: a ++ y :: b) ∧
        h = { ledgerId := y.ledgerId, seq := (a ++ y :: b).length,
              headHash := lastHash x.ledgerId (x :: a ++ y :: b), unit := y.unit } := by
  have hlen : a.length + 1 + b.length = (a ++ y :: b).length := by
    rw [List.length_append, List.length_cons]
    omega
  have hsplit : Linked 0 x.ledgerId (x :: a ++ y :: b) <->
      Linked 0 x.ledgerId (x :: a) ∧
        Linked (a.length + 1) (lastHash x.ledgerId (x :: a)) (y :: b) :=
    HashChain.linked_append.trans (by rw [Nat.zero_add, List.length_cons])
  have hlast : lastHash x.ledgerId (x :: a ++ y :: b) =
      lastHash (lastHash x.ledgerId (x :: a)) (y :: b) :=
    HashChain.headHash_append _ _ _ _
  rw [hsplit, hlast, ← hlen]
  constructor
  · rintro ⟨c, hc, htail⟩
    rcases verifyChainFromGenesis_cons_ok_iff.mp hc with ⟨hboundA, hlinkedA, rfl⟩
    rcases verifyChain_cons_ok_iff.mp htail with ⟨hboundB, hlinkedB, rfl⟩
    exact ⟨⟨hboundA, hboundB⟩, ⟨hlinkedA, hlinkedB⟩, rfl⟩
  · rintro ⟨⟨hboundA, hboundB⟩, ⟨hlinkedA, hlinkedB⟩, rfl⟩
    exact ⟨_, verifyChainFromGenesis_cons_ok_iff.mpr ⟨hboundA, hlinkedA, rfl⟩,
      verifyChain_cons_ok_iff.mpr ⟨hboundB, hlinkedB, rfl⟩⟩

theorem verifyChainFromGenesis_append_ok_iff
    (ha : a ≠ []) (hb : b ≠ []) (h : ChainHead) :
    verifyChainFromGenesis (a ++ b) = .ok h <-> Resumed a b h ∧ ContinuesLedger a b := by
  obtain ⟨x, a, rfl⟩ := List.exists_cons_of_ne_nil ha
  obtain ⟨y, b, rfl⟩ := List.exists_cons_of_ne_nil hb
  rw [List.cons_append, verifyChainFromGenesis_cons_ok_iff, resumed_cons_iff,
    continuesLedger_cons, ← List.cons_append, bound_append]
  constructor
  · rintro ⟨⟨hboundA, hboundB⟩, hlinked, rfl⟩
    rcases (bound_cons.mp hboundB).1 with ⟨hledger, hunit⟩
    rw [hledger, hunit]
    exact ⟨⟨⟨hboundA, hboundB⟩, hlinked, rfl⟩, rfl, rfl⟩
  · rintro ⟨⟨⟨hboundA, hboundB⟩, hlinked, rfl⟩, hledger, hunit⟩
    rw [hledger, hunit] at hboundB ⊢
    exact ⟨⟨hboundA, hboundB⟩, hlinked, rfl⟩

theorem exists_resumed_iff
    (ha : a ≠ []) (hb : b ≠ []) :
    (exists h, Resumed a b h) <-> LinksTo a b := by
  obtain ⟨x, a, rfl⟩ := List.exists_cons_of_ne_nil ha
  obtain ⟨y, b, rfl⟩ := List.exists_cons_of_ne_nil hb
  simp only [resumed_cons_iff]
  constructor
  · rintro ⟨h, ⟨hboundA, hboundB⟩, hlinked, -⟩
    refine ⟨?_, ?_, ?_⟩
    · rintro x' ⟨⟩
      exact hboundA
    · rintro y' ⟨⟩
      exact hboundB
    · rintro x' ⟨⟩
      exact hlinked
  · intro h
    exact ⟨_, ⟨h.base x rfl, h.tail y rfl⟩, h.linked x rfl, rfl⟩

/-- Verifying from a checkpoint is as strong as verifying whole exactly when the tail stays in
the ledger, if the two parts are each of one ledger and link up at all. -/
theorem resumed_as_strong_iff
    (a b : List LedgerEntry) (ha : a ≠ []) (hb : b ≠ []) :
    (forall h, verifyChainFromGenesis (a ++ b) = .ok h <->
        exists c, verifyChainFromGenesis a = .ok c ∧
          verifyChainFromCheckpoint c.seq c.headHash b = .ok h) <->
      (LinksTo a b -> ContinuesLedger a b) := by
  have hwhole := verifyChainFromGenesis_append_ok_iff ha hb
  rw [← exists_resumed_iff ha hb]
  constructor
  · rintro hstrong ⟨h, hresumed⟩
    exact ((hwhole h).mp ((hstrong h).mpr hresumed)).2
  · intro hcontinues h
    rw [hwhole h]
    exact ⟨fun hboth => hboth.1, fun hresumed => ⟨hresumed, hcontinues ⟨h, hresumed⟩⟩⟩

end Resume

/-!
## Two small ledgers
-/

section Samples

open Reference

def genesisEntry : LedgerEntry where
  ledgerId := "ledger-a"
  seq := 0
  prevHash := "ledger-a"
  kind := .credit
  amountMinor := 5
  unit := "usd"
  refs := []

def secondEntry : LedgerEntry :=
  { genesisEntry with seq := 1, prevHash := entryContentHash genesisEntry }

/-- An entry of another ledger in another unit that links to `genesisEntry`. -/
def foreignEntry : LedgerEntry :=
  { secondEntry with ledgerId := "ledger-b", unit := "eur" }

/-- A tail that goes on in the ledger, and a foreign tail after an entry that is no genesis. -/
theorem second_resumed_as_strong :
    (ContinuesLedger [genesisEntry] [secondEntry] ∧
      forall h, verifyChainFromGenesis ([genesisEntry] ++ [secondEntry]) = .ok h <->
        exists c, verifyChainFromGenesis [genesisEntry] = .ok c ∧
          verifyChainFromCheckpoint c.seq c.headHash [secondEntry] = .ok h) ∧
    Not (LinksTo [secondEntry] [foreignEntry]) ∧
      forall h, verifyChainFromGenesis ([secondEntry] ++ [foreignEntry]) = .ok h <->
        exists c, verifyChainFromGenesis [secondEntry] = .ok c ∧
          verifyChainFromCheckpoint c.seq c.headHash [foreignEntry] = .ok h := by
  have hcontinues : ContinuesLedger [genesisEntry] [secondEntry] :=
    continuesLedger_cons.mpr ⟨rfl, rfl⟩
  have hunlinked : Not (LinksTo [secondEntry] [foreignEntry]) := by
    intro hlinks
    exact absurd (hlinks.linked secondEntry rfl).1 (by decide)
  refine ⟨⟨hcontinues, ?_⟩, hunlinked, ?_⟩
  · exact (resumed_as_strong_iff _ _ (List.cons_ne_nil _ _) (List.cons_ne_nil _ _)).mpr
      fun _ => hcontinues
  · exact (resumed_as_strong_iff _ _ (List.cons_ne_nil _ _) (List.cons_ne_nil _ _)).mpr
      fun hlinks => absurd hlinks hunlinked

/-- After the verified head of `ledger-a` a tail of `ledger-b` in euros is accepted,
and the whole is refused. -/
theorem foreign_tail_resumed :
    Function.Injective entryContentHash ∧
      (exists c h, verifyChainFromGenesis [genesisEntry] = .ok c ∧
        verifyChainFromCheckpoint c.seq c.headHash [foreignEntry] = .ok h ∧
        c.ledgerId = "ledger-a" ∧ c.unit = "usd" ∧
        h.ledgerId = "ledger-b" ∧ h.unit = "eur") ∧
      verifyChainFromGenesis ([genesisEntry] ++ [foreignEntry]) =
        .error (.ledgerIdMismatch 1 "ledger-a" "ledger-b") := by
  refine ⟨entryContentHash_injective digest_injective, ?_, by rfl⟩
  have hbound : forall e : LedgerEntry, Bound e.ledgerId e.unit [e] :=
    fun e => bound_cons.mpr ⟨⟨rfl, rfl⟩, List.forall_mem_nil _⟩
  exact ⟨_, _,
    verifyChainFromGenesis_cons_ok_iff.mpr ⟨hbound _, ⟨rfl, rfl, trivial⟩, rfl⟩,
    verifyChain_cons_ok_iff.mpr ⟨hbound _, ⟨rfl, rfl, trivial⟩, rfl⟩,
    rfl, rfl, rfl, rfl⟩

end Samples

end CirisPersist.Ledgers
