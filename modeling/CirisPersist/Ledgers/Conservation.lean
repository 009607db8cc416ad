import CirisPersist.Ledgers.Chain
import CirisPersist.Library.FirstWins
import CirisPersist.Library.Grouping
import CirisPersist.Library.Sorting
import Mathlib.Algebra.Ring.Int.Defs
import Mathlib.Data.Finset.Card
import Mathlib.Data.Prod.Lex
import Mathlib.Data.String.Basic

/-!
# The conservation fold

The fold takes ledger entries in any order, drops forked positions and entries of a
foreign unit, pairs transfer halves by their reference and adds up a net position
per ledger.  It repairs nothing: whatever it leaves out or cannot pair is a flag.

Amounts are added as integers: the source adds them as `i128`, which no list of
`u64` amounts that fits in memory can overflow.
-/

namespace CirisPersist.Ledgers

/-!
## The result
-/

/-- The order of the flags is the order of the constructors, then of the fields. -/
inductive FoldFlag where
  | forkShapedSequence (ledgerId : String) (seq : Nat)
  | duplicateEntry (ledgerId : String) (seq : Nat)
  | unitMismatch (ledgerId : String) (seq : Nat)
  | unmatchedTransfer (ledgerId : String) (seq : Nat) (matchingRef : String)
  | overloadedMatchingRef (matchingRef : String) (count : Nat)
  | directionCollision (matchingRef : String)
  | counterpartyMismatch (matchingRef : String)
  | amountMismatch (matchingRef : String)
  | unitMismatchPair (matchingRef : String)
deriving DecidableEq, Ord

structure NetPosition where
  unit : String
  netMinor : String
deriving DecidableEq

structure ConservationFold where
  nets : Std.TreeMap String NetPosition
  flags : List FoldFlag
  entryCount : Nat

/-!
## The passes
-/

def position (e : LedgerEntry) : String ×ₗ Nat :=
  toLex (e.ledgerId, e.seq)

def canonicalKey (p : String × LedgerEntry) : (String ×ₗ Nat) ×ₗ String :=
  toLex (position p.2, p.1)

def distinctHashes (group : List (String × LedgerEntry)) : Nat :=
  (group.map Prod.fst).toFinset.card

def groupFlags (group : List (String × LedgerEntry)) : List FoldFlag :=
  match group with
  | [] => []
  | (_, first) :: _ =>
      if 1 < distinctHashes group then
        [.forkShapedSequence first.ledgerId first.seq]
      else if 1 < group.length then
        [.duplicateEntry first.ledgerId first.seq]
      else
        []

def groupSurvivor (group : List (String × LedgerEntry)) : Option LedgerEntry :=
  match group with
  | [] => none
  | (_, first) :: _ => if 1 < distinctHashes group then none else some first

def ledgerUnits (surviving : List LedgerEntry) : Std.TreeMap String String :=
  Grouping.upsertAll LedgerEntry.ledgerId (fun held e => held.getD e.unit) surviving

def inLedgerUnit (units : Std.TreeMap String String) (e : LedgerEntry) : Bool :=
  units[e.ledgerId]? = some e.unit

def unitFlags (surviving : List LedgerEntry) : List FoldFlag :=
  (surviving.filter fun e => !inLedgerUnit (ledgerUnits surviving) e).map
    fun e => .unitMismatch e.ledgerId e.seq

def counted (surviving : List LedgerEntry) : List LedgerEntry :=
  surviving.filter (inLedgerUnit (ledgerUnits surviving))

def LedgerEntry.matchingRef? (e : LedgerEntry) : Option String :=
  match e.kind with
  | .transfer _ matchingRef _ => some matchingRef
  | _ => none

def transferHalves (entries : List LedgerEntry) : List (String × LedgerEntry) :=
  entries.filterMap fun e => e.matchingRef?.map fun mref => (mref, e)

def byRef (entries : List LedgerEntry) : Std.TreeMap String (List LedgerEntry) :=
  Grouping.upsertAll Prod.fst (fun held p => held.getD [] ++ [p.2]) (transferHalves entries)

def pairFlags (mref : String) (a b : LedgerEntry) : List FoldFlag :=
  match a.kind, b.kind with
  | .transfer aCounterparty _ aDirection, .transfer bCounterparty _ bDirection =>
      (if aDirection = bDirection then [.directionCollision mref] else []) ++
      (if aCounterparty = b.ledgerId ∧ bCounterparty = a.ledgerId then []
        else [.counterpartyMismatch mref]) ++
      (if a.amountMinor = b.amountMinor then [] else [.amountMismatch mref]) ++
      (if a.unit = b.unit then [] else [.unitMismatchPair mref])
  -- Only transfers are filed under a reference.
  | _, _ => []

def refFlags (mref : String) (halves : List LedgerEntry) : List FoldFlag :=
  match halves with
  | [one] => [.unmatchedTransfer one.ledgerId one.seq mref]
  | [a, b] => pairFlags mref a b
  | many => [.overloadedMatchingRef mref many.length]

def transferFlags (entries : List LedgerEntry) : List FoldFlag :=
  (byRef entries).toList.flatMap fun p => refFlags p.1 p.2

def signedAmount (e : LedgerEntry) : Int :=
  match e.kind with
  | .credit => e.amountMinor
  | .debit => -e.amountMinor
  | .transfer _ _ .incoming => e.amountMinor
  | .transfer _ _ .outgoing => -e.amountMinor

def NetPosition.value (pos : NetPosition) : Int :=
  -- `expect`: the text is only ever written by the fold itself.
  pos.netMinor.toInt?.getD 0

def addToNet (held : Option NetPosition) (e : LedgerEntry) : NetPosition :=
  let pos := held.getD { unit := e.unit, netMinor := "0" }
  { pos with netMinor := toString (pos.value + signedAmount e) }

def nets (entries : List LedgerEntry) : Std.TreeMap String NetPosition :=
  Grouping.upsertAll LedgerEntry.ledgerId addToNet entries

section Fold

variable [CanonicalDigest]

def hashed (entries : List LedgerEntry) : List (String × LedgerEntry) :=
  (entries.map fun e => (entryContentHash e, e)).insertionSort
    fun a b => canonicalKey a ≤ canonicalKey b

def groups (entries : List LedgerEntry) : List (List (String × LedgerEntry)) :=
  Grouping.runs (fun p => position p.2) (hashed entries)

def surviving (entries : List LedgerEntry) : List LedgerEntry :=
  (groups entries).filterMap groupSurvivor

def foldFlags (entries : List LedgerEntry) : List FoldFlag :=
  (groups entries).flatMap groupFlags ++ unitFlags (surviving entries) ++
    transferFlags (counted (surviving entries))

def conservationFold (entries : List LedgerEntry) : ConservationFold where
  nets := nets (counted (surviving entries))
  flags := (foldFlags entries).insertionSort fun a b => (compare a b).isLE
  entryCount := (counted (surviving entries)).length

end Fold

/-!
## Sorting and grouping
-/

theorem canonicalKey_le_imp
    {p q : String × LedgerEntry} (h : canonicalKey p ≤ canonicalKey q) :
    position p.2 ≤ position q.2 := by
  rcases Prod.Lex.le_iff.mp h with hlt | ⟨heq, -⟩
  · exact le_of_lt hlt
  · exact le_of_eq heq

theorem position_eq_iff
    {e f : LedgerEntry} :
    position e = position f <-> e.ledgerId = f.ledgerId ∧ e.seq = f.seq := by
  simp [position]

theorem distinctHashes_le_one_iff
    {group : List (String × LedgerEntry)} :
    Not (1 < distinctHashes group) <-> forall p, p ∈ group -> forall q, q ∈ group -> p.1 = q.1 := by
  rw [Nat.not_lt, distinctHashes, Finset.card_le_one]
  simp only [List.mem_toFinset, List.mem_map]
  constructor
  · intro h p hp q hq
    exact h _ ⟨p, hp, rfl⟩ _ ⟨q, hq, rfl⟩
  · rintro h _ ⟨p, hp, rfl⟩ _ ⟨q, hq, rfl⟩
    exact h p hp q hq

theorem groupSurvivor_eq_some_iff
    {group : List (String × LedgerEntry)} {e : LedgerEntry} :
    groupSurvivor group = some e <->
      (exists h rest, group = (h, e) :: rest) ∧
        forall p, p ∈ group -> forall q, q ∈ group -> p.1 = q.1 := by
  rw [← distinctHashes_le_one_iff]
  cases group with
  | nil => simp [groupSurvivor]
  | cons p rest =>
      rcases p with ⟨h, first⟩
      by_cases hmany : 1 < distinctHashes ((h, first) :: rest)
      · simp [groupSurvivor, hmany]
      · simp [groupSurvivor, hmany]

section Hashed

variable [CanonicalDigest]

theorem mem_hashed_iff
    {entries : List LedgerEntry} {p : String × LedgerEntry} :
    p ∈ hashed entries <-> p.2 ∈ entries ∧ p.1 = entryContentHash p.2 := by
  rw [hashed, List.mem_insertionSort, List.mem_map]
  constructor
  · rintro ⟨e, he, rfl⟩
    exact ⟨he, rfl⟩
  · rintro ⟨he, hhash⟩
    exact ⟨p.2, he, by rw [← hhash]⟩

theorem hashed_sorted
    (entries : List LedgerEntry) :
    (hashed entries).Pairwise fun p q => position p.2 ≤ position q.2 := by
  have hsorted : (hashed entries).Pairwise fun p q => canonicalKey p ≤ canonicalKey q :=
    Sorting.pairwise_key_of_sort (fun _ _ => Iff.rfl) _
  exact hsorted.imp fun h => canonicalKey_le_imp h

theorem hashed_eq_of_perm
    (hinj : Function.Injective entryContentHash)
    {entries entries' : List LedgerEntry} (h : entries'.Perm entries) :
    hashed entries' = hashed entries := by
  refine Sorting.insertionSort_eq_of_perm (fun _ _ => Iff.rfl) ?_ (h.map _)
  intro p hp q hq hkey
  rcases List.mem_map.mp hp with ⟨e, -, rfl⟩
  rcases List.mem_map.mp hq with ⟨f, -, rfl⟩
  have hhash : entryContentHash e = entryContentHash f := congrArg Prod.snd (ofLex_inj.mpr hkey)
  rw [hinj hhash]

end Hashed

/-!
## Kept entries
-/


def Kept (entries : List LedgerEntry) (e : LedgerEntry) : Prop :=
  e ∈ entries ∧
    forall f, f ∈ entries -> f.ledgerId = e.ledgerId -> f.seq = e.seq -> f = e

instance (entries : List LedgerEntry) (e : LedgerEntry) : Decidable (Kept entries e) :=
  inferInstanceAs (Decidable (_ ∧ forall f, f ∈ entries -> _))

/-- The entry is kept and in the unit of its ledger's kept entry of lowest number. -/
def Counts (entries : List LedgerEntry) (e : LedgerEntry) : Prop :=
  Kept entries e ∧
    forall f, f ∈ entries -> Kept entries f -> f.ledgerId = e.ledgerId ->
      (forall g, g ∈ entries -> Kept entries g -> g.ledgerId = e.ledgerId -> f.seq ≤ g.seq) ->
      f.unit = e.unit

instance (entries : List LedgerEntry) (e : LedgerEntry) : Decidable (Counts entries e) :=
  inferInstanceAs (Decidable (_ ∧ forall f, f ∈ entries -> _))

section Kept

variable [CanonicalDigest] (hinj : Function.Injective entryContentHash)
  {entries : List LedgerEntry} {e f : LedgerEntry}

include hinj in
theorem mem_surviving_iff :
    e ∈ surviving entries <-> Kept entries e := by
  rw [surviving, List.mem_filterMap]
  constructor
  · rintro ⟨group, hgroup, hsurvivor⟩
    rcases groupSurvivor_eq_some_iff.mp hsurvivor with ⟨⟨h, rest, rfl⟩, hsame⟩
    have hmem : (h, e) ∈ hashed entries := Grouping.mem_of_mem_run hgroup List.mem_cons_self
    refine ⟨(mem_hashed_iff.mp hmem).1, ?_⟩
    intro f hf hledger hseq
    have hfmem : (entryContentHash f, f) ∈ (h, e) :: rest :=
      Grouping.mem_run_of_key_eq (hashed_sorted entries) hgroup List.mem_cons_self
        (mem_hashed_iff.mpr ⟨hf, rfl⟩) (position_eq_iff.mpr ⟨hledger, hseq⟩)
    have hhash : entryContentHash f = h := hsame _ hfmem _ List.mem_cons_self
    exact hinj (hhash.trans (mem_hashed_iff.mp hmem).2)
  · rintro ⟨he, halone⟩
    have hmem : (entryContentHash e, e) ∈ hashed entries := mem_hashed_iff.mpr ⟨he, rfl⟩
    rcases Grouping.mem_runs_of_mem (fun p => position p.2) hmem with ⟨group, hgroup, hin⟩
    rcases Grouping.exists_cons_of_mem_runs hgroup with ⟨first, rest, rfl, hkeys⟩
    have hall : forall p, p ∈ first :: rest -> p = (entryContentHash e, e) := by
      intro p hp
      rcases mem_hashed_iff.mp (Grouping.mem_of_mem_run hgroup hp) with ⟨hp', hhash⟩
      have hplace : position p.2 = position e := (hkeys p hp).trans (hkeys _ hin).symm
      have hentry : p.2 = e :=
        halone p.2 hp' (position_eq_iff.mp hplace).1 (position_eq_iff.mp hplace).2
      rw [← hentry, ← hhash]
    refine ⟨first :: rest, hgroup, groupSurvivor_eq_some_iff.mpr
      ⟨⟨entryContentHash e, rest, ?_⟩, ?_⟩⟩
    · rw [hall first List.mem_cons_self]
    · intro p hp q hq
      rw [hall p hp, hall q hq]

theorem surviving_pairwise
    (entries : List LedgerEntry) :
    (surviving entries).Pairwise fun e f => position e < position f := by
  rw [surviving, List.pairwise_filterMap]
  refine (Grouping.runs_pairwise (hashed_sorted entries)).imp ?_
  intro group group' hlt e he f hf
  rcases groupSurvivor_eq_some_iff.mp he with ⟨⟨h, rest, rfl⟩, -⟩
  rcases groupSurvivor_eq_some_iff.mp hf with ⟨⟨h', rest', rfl⟩, -⟩
  exact hlt _ List.mem_cons_self _ List.mem_cons_self

end Kept

/-!
## Counted entries
-/

variable (l : List LedgerEntry) (unit : String)

theorem foldl_held_unit :
    l.foldl (fun held e => some (Option.getD held e.unit)) (some unit) = some unit := by
  induction l with
  | nil => rfl
  | cons e rest ih => exact ih

theorem getElem?_ledgerUnits
    (ledgerId : String) :
    (ledgerUnits l)[ledgerId]? = (l.find? fun e => e.ledgerId = ledgerId).map LedgerEntry.unit := by
  rw [ledgerUnits, Grouping.getElem?_upsertAll, ← List.head?_filter]
  cases l.filter fun e => e.ledgerId = ledgerId with
  | nil => rfl
  | cons first rest => exact foldl_held_unit rest first.unit

theorem inLedgerUnit_iff
    {l : List LedgerEntry} {e : LedgerEntry} :
    inLedgerUnit (ledgerUnits l) e = true <->
      exists f, (l.find? fun f => f.ledgerId = e.ledgerId) = some f ∧ f.unit = e.unit := by
  rw [inLedgerUnit, getElem?_ledgerUnits, decide_eq_true_iff, Option.map_eq_some_iff]

theorem seq_le_of_find
    {l : List LedgerEntry} {ledgerId : String} {f g : LedgerEntry}
    (hsorted : l.Pairwise fun e f => position e < position f)
    (hfind : (l.find? fun e => e.ledgerId = ledgerId) = some f)
    (hg : g ∈ l) (hledger : g.ledgerId = ledgerId) :
    f.seq ≤ g.seq := by
  rcases List.find?_eq_some_iff_append.mp hfind with ⟨hf, before, after, rfl, hbefore⟩
  have hf' : f.ledgerId = ledgerId := by
    simpa using hf
  rcases List.mem_append.mp hg with hg | hg
  · have hother := hbefore g hg
    simp [hledger] at hother
  rcases List.mem_cons.mp hg with rfl | hg
  · exact Nat.le_refl _
  · have hlt : position f < position g :=
      (List.pairwise_cons.mp (List.pairwise_append.mp hsorted).2.1).1 g hg
    rcases Prod.Lex.lt_iff.mp hlt with hledgers | ⟨-, hseq⟩
    · exact absurd hledgers (by simp [position, hf', hledger])
    · exact Nat.le_of_lt hseq

theorem mem_counted_iff
    [CanonicalDigest] (hinj : Function.Injective entryContentHash)
    {entries : List LedgerEntry} {e : LedgerEntry} :
    e ∈ counted (surviving entries) <-> Counts entries e := by
  have hkept : forall f, f ∈ surviving entries <-> Kept entries f := fun f => mem_surviving_iff hinj
  rw [counted, List.mem_filter, inLedgerUnit_iff, hkept]
  refine and_congr_right fun he => ?_
  constructor
  · rintro ⟨first, hfind, hunit⟩ f - hf hledger hlowest
    have hfirst := (hkept first).mp (List.mem_of_find?_eq_some hfind)
    have hfirst' : first.ledgerId = e.ledgerId := by
      simpa using List.find?_some hfind
    have hle := seq_le_of_find (surviving_pairwise entries) hfind ((hkept f).mpr hf) hledger
    have hge := hlowest first hfirst.1 hfirst hfirst'
    rw [hfirst.2 f hf.1 (hledger.trans hfirst'.symm) (Nat.le_antisymm hge hle), hunit]
  · intro hunits
    rcases FirstWins.exists_find_key LedgerEntry.ledgerId ((hkept e).mpr he) with
      ⟨first, hfind, hfirst, hfirst'⟩
    rw [hkept] at hfirst
    refine ⟨first, hfind, hunits first hfirst.1 hfirst hfirst' ?_⟩
    intro g _ hg hledger
    exact seq_le_of_find (surviving_pairwise entries) hfind ((hkept g).mpr hg) hledger

/-!
## Nets
-/

theorem value_toString
    (n : Int) :
    NetPosition.value { unit, netMinor := toString n } = n := by
  rw [NetPosition.value, Int.toString_eq_repr, Int.toInt?_repr, Option.getD_some]

theorem foldl_addToNet
    (n : Int) :
    l.foldl (fun held e => some (addToNet held e)) (some { unit, netMinor := toString n }) =
      some { unit, netMinor := toString (n + (l.map signedAmount).sum) } := by
  induction l generalizing n with
  | nil => simp
  | cons e rest ih =>
      have hstep : addToNet (some { unit, netMinor := toString n }) e =
          { unit, netMinor := toString (n + signedAmount e) } := by
        simp only [addToNet, Option.getD_some, value_toString]
      rw [List.foldl_cons, hstep, ih, List.map_cons, List.sum_cons, Int.add_assoc]

theorem getElem?_nets
    (ledgerId : String) :
    (nets l)[ledgerId]? = (l.find? fun e => e.ledgerId = ledgerId).map fun first =>
        { unit := first.unit
          netMinor := toString ((l.filter fun e => e.ledgerId = ledgerId).map signedAmount).sum } := by
  rw [nets, Grouping.getElem?_upsertAll, ← List.head?_filter]
  cases l.filter fun e => e.ledgerId = ledgerId with
  | nil => rfl
  | cons first rest =>
      have hstart : addToNet none first =
          { unit := first.unit, netMinor := toString (signedAmount first) } := by
        have hzero : NetPosition.value { unit := first.unit, netMinor := "0" } = 0 :=
          value_toString first.unit 0
        simp [addToNet, hzero]
      rw [List.foldl_cons, hstart, foldl_addToNet, List.map_cons, List.sum_cons]
      rfl

end CirisPersist.Ledgers
