import CirisPersist.Ledgers.Conservation
import Mathlib.Algebra.BigOperators.Group.Finset.Basic

/-!
# Conservation

The fold does not depend on the order of the entries, and its nets are the sums of
the entries that count.  Without flags the nets of a unit add up to what was
credited less what was debited in it: every transfer is a pair that cancels.
Ledgers that verify lose no entry to the fold.
-/

namespace CirisPersist.Ledgers

/-!
## Totals
-/

/-- The exact sum of the entries of a ledger that count, each once. -/
def countedSum (entries : List LedgerEntry) (ledgerId : String) : Int :=
  ∑ e ∈ entries.toFinset with Counts entries e ∧ e.ledgerId = ledgerId, signedAmount e

def amountsOf (kind : LedgerEntryKind) (entries : List LedgerEntry) (unit : String) : Int :=
  ((entries.filter fun e => e.kind = kind ∧ e.unit = unit).map
    fun e => (e.amountMinor : Int)).sum

def credits : List LedgerEntry -> String -> Int :=
  amountsOf .credit

def debits : List LedgerEntry -> String -> Int :=
  amountsOf .debit

def ConservationFold.netTotal (fold : ConservationFold) (unit : String) : Int :=
  ((fold.nets.toList.filter fun p => p.2.unit = unit).map fun p => p.2.value).sum

def ledgerChain (entries : List LedgerEntry) (ledgerId : String) : List LedgerEntry :=
  (entries.filter fun e => e.ledgerId = ledgerId).insertionSort fun a b => a.seq ≤ b.seq

/-!
## Nets as sums
-/

variable {l : List LedgerEntry} {e : LedgerEntry}

theorem unit_eq_of_counted
    {f : LedgerEntry} (he : e ∈ counted l) (hf : f ∈ counted l)
    (hledger : e.ledgerId = f.ledgerId) :
    e.unit = f.unit := by
  rcases inLedgerUnit_iff.mp (List.mem_filter.mp he).2 with ⟨first, hfirst, hunit⟩
  rcases inLedgerUnit_iff.mp (List.mem_filter.mp hf).2 with ⟨first', hfirst', hunit'⟩
  rw [hledger, hfirst', Option.some.injEq] at hfirst
  rw [← hunit, ← hunit', hfirst]

theorem getElem?_nets_counted
    (he : e ∈ counted l) :
    (nets (counted l))[e.ledgerId]? =
      some { unit := e.unit
             netMinor := toString
              (((counted l).filter fun f => f.ledgerId = e.ledgerId).map signedAmount).sum } := by
  rcases FirstWins.exists_find_key LedgerEntry.ledgerId he with ⟨first, hfind, hfirst, hledger⟩
  rw [getElem?_nets, hfind, Option.map_some, unit_eq_of_counted hfirst he hledger]

theorem exists_counted_of_net
    {ledgerId : String} {pos : NetPosition} (h : (nets (counted l))[ledgerId]? = some pos) :
    exists e, e ∈ counted l ∧ e.ledgerId = ledgerId := by
  rw [getElem?_nets] at h
  rcases Option.map_eq_some_iff.mp h with ⟨first, hfind, -⟩
  exact ⟨first, List.mem_of_find?_eq_some hfind, by simpa using List.find?_some hfind⟩

section Sums

variable [CanonicalDigest] (hinj : Function.Injective entryContentHash)
  (entries : List LedgerEntry)

theorem nodup_counted :
    (counted (surviving entries)).Nodup := by
  have hdistinct : (surviving entries).Nodup :=
    (surviving_pairwise entries).imp fun h heq => absurd h (by simp [heq])
  exact hdistinct.filter _

include hinj in
theorem sum_counted
    (ledgerId : String) :
    (((counted (surviving entries)).filter fun e => e.ledgerId = ledgerId).map
      signedAmount).sum = countedSum entries ledgerId := by
  rw [← List.sum_toFinset _ ((nodup_counted entries).filter _), countedSum]
  refine Finset.sum_congr ?_ fun _ _ => rfl
  ext e
  simp only [List.mem_toFinset, List.mem_filter, Finset.mem_filter, mem_counted_iff hinj,
    decide_eq_true_iff]
  constructor
  · rintro ⟨hcounts, hledger⟩
    exact ⟨hcounts.1.1, hcounts, hledger⟩
  · rintro ⟨-, hcounts, hledger⟩
    exact ⟨hcounts, hledger⟩

end Sums

/-!
## Adding up the ledgers of a unit
-/

theorem net_of_mem_toList
    {p : String × NetPosition} (hp : p ∈ (nets (counted l)).toList) :
    (forall e, e ∈ counted l -> e.ledgerId = p.1 -> e.unit = p.2.unit) ∧
      p.2.value = (((counted l).filter fun e => e.ledgerId = p.1).map signedAmount).sum := by
  rcases p with ⟨ledgerId, pos⟩
  rw [Std.TreeMap.mem_toList_iff_getElem?_eq_some] at hp
  rcases exists_counted_of_net hp with ⟨e, he, rfl⟩
  rw [getElem?_nets_counted he, Option.some.injEq] at hp
  subst hp
  exact ⟨fun f hf hledger => unit_eq_of_counted hf he hledger, value_toString _ _⟩

theorem sum_nets
    (l : List LedgerEntry) (unit : String) :
    (((nets (counted l)).toList.filter fun p => p.2.unit = unit).map fun p => p.2.value).sum =
      (((counted l).filter fun e => e.unit = unit).map signedAmount).sum := by
  have hnodup : (((nets (counted l)).toList.filter fun p => p.2.unit = unit).map
      Prod.fst).Nodup := by
    have hkeys := Std.TreeMap.distinct_keys_toList (t := nets (counted l))
    refine List.Pairwise.map _ (fun a b h => ?_) (hkeys.filter _)
    simpa using h
  have hcover : forall e, e ∈ ((counted l).filter fun e => e.unit = unit) ->
      e.ledgerId ∈ ((nets (counted l)).toList.filter fun p => p.2.unit = unit).map Prod.fst := by
    intro e he
    rcases List.mem_filter.mp he with ⟨he, hunit⟩
    have hnet := Std.TreeMap.mem_toList_iff_getElem?_eq_some.mpr (getElem?_nets_counted he)
    exact List.mem_map.mpr ⟨_, List.mem_filter.mpr ⟨hnet, hunit⟩, rfl⟩
  rw [← Grouping.sum_map_filter_key LedgerEntry.ledgerId signedAmount hnodup hcover, List.map_map]
  refine congrArg List.sum (List.map_congr_left ?_)
  intro p hp
  rcases List.mem_filter.mp hp with ⟨hp, hunit⟩
  rcases net_of_mem_toList hp with ⟨hunits, hvalue⟩
  rw [hvalue, Function.comp, List.filter_filter]
  refine congrArg (fun m => (List.map signedAmount m).sum) (List.filter_congr ?_)
  intro e he
  by_cases hledger : e.ledgerId = p.1
  · simp [hledger, hunits e he hledger, of_decide_eq_true hunit]
  · simp [hledger]

/-!
## Transfers cancel
-/

theorem foldl_held_halves
    (g : List (String × LedgerEntry)) (held : List LedgerEntry) :
    g.foldl (fun v p => some (Option.getD v [] ++ [p.2])) (some held) =
      some (held ++ g.map Prod.snd) := by
  induction g generalizing held with
  | nil => simp
  | cons p rest ih =>
      rw [List.foldl_cons, Option.getD_some, ih, List.map_cons, List.append_assoc]
      rfl

theorem getElem?_byRef
    (l : List LedgerEntry) (mref : String) (halves : List LedgerEntry) :
    (byRef l)[mref]? = some halves <->
      halves ≠ [] ∧ ((transferHalves l).filter fun p => p.1 = mref).map Prod.snd = halves := by
  rw [byRef, Grouping.getElem?_upsertAll]
  cases (transferHalves l).filter fun p => p.1 = mref with
  | nil => simp [eq_comm]
  | cons p rest =>
      rw [List.foldl_cons, foldl_held_halves, Option.some.injEq]
      constructor
      · rintro rfl
        simp
      · rintro ⟨-, rfl⟩
        simp

theorem mem_transferHalves_iff
    {p : String × LedgerEntry} :
    p ∈ transferHalves l <-> p.2 ∈ l ∧ p.2.matchingRef? = some p.1 := by
  rcases p with ⟨mref, e⟩
  simp only [transferHalves, List.mem_filterMap, Option.map_eq_some_iff, Prod.mk.injEq]
  constructor
  · rintro ⟨f, hf, _, href, rfl, rfl⟩
    exact ⟨hf, href⟩
  · rintro ⟨he, href⟩
    exact ⟨e, he, mref, href, rfl, rfl⟩

variable {mref : String}

theorem kind_of_matchingRef
    (h : e.matchingRef? = some mref) :
    exists counterparty direction, e.kind = .transfer counterparty mref direction := by
  unfold LedgerEntry.matchingRef? at h
  cases hkind : e.kind with
  | credit => simp [hkind] at h
  | debit => simp [hkind] at h
  | transfer counterparty mref' direction =>
      simp only [hkind, Option.some.injEq] at h
      exact ⟨counterparty, direction, by rw [h]⟩

theorem cancel_of_pairFlags
    {aRef bRef : String} {a b : LedgerEntry} (ha : a.matchingRef? = some aRef)
    (hb : b.matchingRef? = some bRef) (h : pairFlags mref a b = []) :
    a.unit = b.unit ∧ signedAmount a + signedAmount b = 0 := by
  rcases kind_of_matchingRef ha with ⟨aCounterparty, aDirection, hkindA⟩
  rcases kind_of_matchingRef hb with ⟨bCounterparty, bDirection, hkindB⟩
  simp only [pairFlags, hkindA, hkindB, List.append_eq_nil_iff, ite_eq_right_iff,
    ite_eq_left_iff, List.cons_ne_nil, imp_false, Decidable.not_not] at h
  rcases h with ⟨⟨⟨hdirection, -⟩, hamount⟩, hunit⟩
  refine ⟨hunit, ?_⟩
  cases aDirection <;> cases bDirection <;>
    simp [signedAmount, hkindA, hkindB, hamount] at hdirection ⊢

theorem sum_halves_eq_zero
    {halves : List LedgerEntry} (unit : String)
    (hrefs : forall e, e ∈ halves -> e.matchingRef? = some mref) (h : refFlags mref halves = []) :
    ((halves.filter fun e => e.unit = unit).map signedAmount).sum = 0 := by
  match halves, hrefs, h with
  | [a, b], hrefs, h =>
      rcases cancel_of_pairFlags (hrefs a (by simp)) (hrefs b (by simp)) h with
        ⟨hunit, hcancel⟩
      by_cases hin : b.unit = unit
      · simp [hunit, hin, hcancel]
      · simp [hunit, hin]

theorem sum_transfers_eq_zero
    (unit : String) (hflags : transferFlags l = []) :
    (((transferHalves l).filter fun p => p.2.unit = unit).map
      fun p => signedAmount p.2).sum = 0 := by
  have hnodup : ((byRef l).toList.map Prod.fst).Nodup := by
    have hkeys := Std.TreeMap.distinct_keys_toList (t := byRef l)
    refine List.Pairwise.map _ (fun a b h => ?_) hkeys
    simpa using h
  have hcover : forall p, p ∈ ((transferHalves l).filter fun p => p.2.unit = unit) ->
      p.1 ∈ (byRef l).toList.map Prod.fst := by
    intro p hp
    have hfiled : (byRef l)[p.1]? =
        some (((transferHalves l).filter fun q => q.1 = p.1).map Prod.snd) := by
      refine (getElem?_byRef l p.1 _).mpr ⟨?_, rfl⟩
      refine List.ne_nil_of_mem (List.mem_map_of_mem (List.mem_filter.mpr ⟨?_, ?_⟩) : p.2 ∈ _)
      · exact (List.mem_filter.mp hp).1
      · simp
    exact List.mem_map.mpr ⟨_, Std.TreeMap.mem_toList_iff_getElem?_eq_some.mpr hfiled, rfl⟩
  rw [← Grouping.sum_map_filter_key Prod.fst (fun p => signedAmount p.2) hnodup hcover,
    List.map_map]
  refine List.sum_eq_zero ?_
  intro n hn
  rcases List.mem_map.mp hn with ⟨⟨mref, halves⟩, hp, rfl⟩
  have hfiled := (getElem?_byRef l mref halves).mp
    (Std.TreeMap.mem_toList_iff_getElem?_eq_some.mp hp)
  have hquiet : refFlags mref halves = [] := List.flatMap_eq_nil_iff.mp hflags _ hp
  have hrefs : forall e, e ∈ halves -> e.matchingRef? = some mref := by
    intro e he
    rw [← hfiled.2] at he
    rcases List.mem_map.mp he with ⟨q, hq, rfl⟩
    rcases List.mem_filter.mp hq with ⟨hq, hkey⟩
    rw [(mem_transferHalves_iff.mp hq).2, of_decide_eq_true hkey]
  rw [← sum_halves_eq_zero unit hrefs hquiet, ← hfiled.2, Function.comp, List.filter_filter,
    List.filter_map, List.map_map, List.filter_filter]
  refine congrArg (fun m => (List.map _ m).sum) (List.filter_congr ?_)
  intro q _
  simp [Bool.and_comm]

theorem sum_signedAmount
    (l : List LedgerEntry) (unit : String) :
    ((l.filter fun e => e.unit = unit).map signedAmount).sum =
      credits l unit - debits l unit +
        (((transferHalves l).filter fun p => p.2.unit = unit).map
          fun p => signedAmount p.2).sum := by
  induction l with
  | nil => rfl
  | cons e rest ih =>
      simp only [credits, debits, amountsOf, transferHalves] at ih ⊢
      by_cases hunit : e.unit = unit
      · cases hkind : e.kind <;>
          simp [hunit, hkind, signedAmount, LedgerEntry.matchingRef?, ih] <;> omega
      · cases hkind : e.kind <;> simp [hunit, hkind, LedgerEntry.matchingRef?, ih]

/-!
## Groups of one
-/

theorem groupFlags_eq_nil_iff
    {group : List (String × LedgerEntry)} (hne : group ≠ []) :
    groupFlags group = [] <-> group.length = 1 := by
  rcases group with _ | ⟨⟨h, first⟩, rest⟩
  · exact absurd rfl hne
  cases rest with
  | nil => simp [groupFlags, distinctHashes]
  | cons p rest =>
      by_cases hmany : 1 < distinctHashes ((h, first) :: p :: rest)
      · simp [groupFlags, hmany]
      · simp [groupFlags, hmany]

theorem filterMap_survivor_of_single
    {gs : List (List (String × LedgerEntry))} (h : forall g, g ∈ gs -> g.length = 1) :
    gs.filterMap groupSurvivor = gs.flatten.map Prod.snd := by
  induction gs with
  | nil => rfl
  | cons g rest ih =>
      rcases List.length_eq_one_iff.mp (h g List.mem_cons_self) with ⟨p, rfl⟩
      have hsurvivor : groupSurvivor [p] = some p.2 := by
        simp [groupSurvivor, distinctHashes]
      rw [List.filterMap_cons_some hsurvivor, ih fun g hg => h g (List.mem_cons_of_mem _ hg)]
      rfl

theorem counted_eq_of_no_unitFlags
    (h : unitFlags l = []) :
    counted l = l := by
  rw [unitFlags, List.map_eq_nil_iff, List.filter_eq_nil_iff] at h
  exact List.filter_eq_self.mpr fun e he => by simpa using h e he

theorem amountsOf_eq_of_perm
    {l' : List LedgerEntry} (h : l.Perm l') (kind : LedgerEntryKind) (unit : String) :
    amountsOf kind l unit = amountsOf kind l' unit :=
  ((h.filter _).map _).sum_eq

section Singles

variable [CanonicalDigest] {entries : List LedgerEntry}

theorem hashed_perm
    (entries : List LedgerEntry) :
    ((hashed entries).map Prod.snd).Perm entries := by
  have hsort := (List.perm_insertionSort (fun a b => canonicalKey a ≤ canonicalKey b)
    (entries.map fun e => (entryContentHash e, e))).map Prod.snd
  rw [List.map_map] at hsort
  exact hsort.trans (List.Perm.of_eq (List.map_id entries))

theorem surviving_perm_of_single
    (h : forall g, g ∈ groups entries -> g.length = 1) :
    (surviving entries).Perm entries := by
  rw [surviving, filterMap_survivor_of_single h, groups, Grouping.flatten_runs]
  exact hashed_perm entries

theorem ne_nil_of_mem_groups
    {g : List (String × LedgerEntry)} (hg : g ∈ groups entries) :
    g ≠ [] := by
  rcases Grouping.exists_cons_of_mem_runs hg with ⟨a, rest, rfl, -⟩
  exact List.cons_ne_nil _ _

theorem mem_flags_iff
    {flag : FoldFlag} :
    flag ∈ (conservationFold entries).flags <-> flag ∈ foldFlags entries :=
  List.mem_insertionSort _

theorem counted_perm_of_no_flags
    (h : foldFlags entries = []) :
    (counted (surviving entries)).Perm entries := by
  rw [foldFlags, List.append_eq_nil_iff, List.append_eq_nil_iff] at h
  rcases h with ⟨⟨hgroups, hunits⟩, -⟩
  rw [counted_eq_of_no_unitFlags hunits]
  refine surviving_perm_of_single fun g hg => ?_
  exact (groupFlags_eq_nil_iff (ne_nil_of_mem_groups hg)).mp
    (List.flatMap_eq_nil_iff.mp hgroups g hg)

theorem netTotal_eq_of_no_flags
    (h : (conservationFold entries).flags = []) (unit : String) :
    (conservationFold entries).netTotal unit = credits entries unit - debits entries unit := by
  have hflags : foldFlags entries = [] := by
    refine List.eq_nil_iff_forall_not_mem.mpr fun flag hflag => ?_
    rw [← mem_flags_iff, h] at hflag
    cases hflag
  have hperm := counted_perm_of_no_flags hflags
  have htransfers : transferFlags (counted (surviving entries)) = [] :=
    (List.append_eq_nil_iff.mp hflags).2
  have htotal : (conservationFold entries).netTotal unit =
      (((counted (surviving entries)).filter fun e => e.unit = unit).map signedAmount).sum :=
    sum_nets _ unit
  rw [htotal, sum_signedAmount, sum_transfers_eq_zero unit htransfers, Int.add_zero, credits,
    debits, amountsOf_eq_of_perm hperm, amountsOf_eq_of_perm hperm]

end Singles

/-!
## Ledgers that verify
-/

theorem nodup_positions
    {entries : List LedgerEntry}
    (h : forall ledgerId,
      ((entries.filter fun e => e.ledgerId = ledgerId).map LedgerEntry.seq).Nodup) :
    (entries.map position).Nodup := by
  induction entries with
  | nil => exact List.nodup_nil
  | cons e rest ih =>
      refine List.nodup_cons.mpr ⟨?_, ih fun ledgerId => ?_⟩
      · intro hmem
        rcases List.mem_map.mp hmem with ⟨f, hf, hplace⟩
        rcases position_eq_iff.mp hplace with ⟨hledger, hseq⟩
        have hown := h e.ledgerId
        rw [List.filter_cons_of_pos (by simp), List.map_cons, List.nodup_cons] at hown
        exact hown.1 (List.mem_map.mpr ⟨f, List.mem_filter.mpr ⟨hf, by simpa using hledger⟩, hseq⟩)
      · exact (h ledgerId).sublist (((List.sublist_cons_self e rest).filter _).map _)

theorem unitFlags_eq_nil
    (h : forall e, e ∈ l -> forall f, f ∈ l -> e.ledgerId = f.ledgerId -> e.unit = f.unit) :
    unitFlags l = [] := by
  rw [unitFlags, List.map_eq_nil_iff, List.filter_eq_nil_iff]
  intro e he
  have hin : inLedgerUnit (ledgerUnits l) e = true := by
    rcases FirstWins.exists_find_key LedgerEntry.ledgerId he with ⟨first, hfind, hfirst, hledger⟩
    exact inLedgerUnit_iff.mpr ⟨first, hfind, h first hfirst e he hledger⟩
  simp [hin]

section Verified

variable [CanonicalDigest] {entries : List LedgerEntry}

theorem chain_of_verified
    {ledgerId : String} {h : ChainHead}
    (hok : verifyChainFromGenesis (ledgerChain entries ledgerId) = .ok h) :
    ((entries.filter fun e => e.ledgerId = ledgerId).map LedgerEntry.seq).Nodup ∧
      forall e, e ∈ entries -> e.ledgerId = ledgerId -> e.unit = h.unit := by
  have hperm : (ledgerChain entries ledgerId).Perm
      (entries.filter fun e => e.ledgerId = ledgerId) :=
    List.perm_insertionSort _ _
  obtain ⟨first, rest, hchain⟩ := List.exists_cons_of_ne_nil (ne_nil_of_verified hok)
  rw [hchain] at hok
  rcases verifyChainFromGenesis_cons_ok_iff.mp hok with ⟨hbound, hlinked, rfl⟩
  rw [← hchain] at hbound hlinked
  constructor
  · rw [← (hperm.map _).nodup_iff]
    exact (List.pairwise_map.mpr (HashChain.seq_lt_of_linked hlinked)).imp Nat.ne_of_lt
  · intro e he hledger
    exact (hbound e (hperm.mem_iff.mpr (List.mem_filter.mpr ⟨he, by simpa using hledger⟩))).2

theorem fold_of_verified
    (hverified : forall ledgerId, (exists e, e ∈ entries ∧ e.ledgerId = ledgerId) ->
      exists h, verifyChainFromGenesis (ledgerChain entries ledgerId) = .ok h) :
    foldFlags entries = transferFlags (surviving entries) ∧
      counted (surviving entries) = surviving entries ∧
      (surviving entries).Perm entries := by
  have hseqs : forall ledgerId,
      ((entries.filter fun e => e.ledgerId = ledgerId).map LedgerEntry.seq).Nodup := by
    intro ledgerId
    by_cases hheld : exists e, e ∈ entries ∧ e.ledgerId = ledgerId
    · rcases hverified ledgerId hheld with ⟨h, hok⟩
      exact (chain_of_verified hok).1
    · have hempty : (entries.filter fun e => e.ledgerId = ledgerId) = [] := by
        refine List.filter_eq_nil_iff.mpr fun e he heq => hheld ⟨e, he, ?_⟩
        simpa using heq
      rw [hempty]
      exact List.nodup_nil
  have hunits : forall e, e ∈ entries -> forall f, f ∈ entries -> e.ledgerId = f.ledgerId ->
      e.unit = f.unit := by
    intro e he f hf hledger
    rcases hverified e.ledgerId ⟨e, he, rfl⟩ with ⟨h, hok⟩
    rw [(chain_of_verified hok).2 e he rfl, (chain_of_verified hok).2 f hf hledger.symm]
  have hplaces : ((hashed entries).map fun p => position p.2).Nodup := by
    have hsame := (hashed_perm entries).map position
    rw [List.map_map] at hsame
    exact hsame.nodup_iff.mpr (nodup_positions hseqs)
  have hsingle : forall g, g ∈ groups entries -> g.length = 1 :=
    fun g hg => Grouping.length_run_eq_one hplaces hg
  have hperm := surviving_perm_of_single hsingle
  have hgroupFlags : (groups entries).flatMap groupFlags = [] :=
    List.flatMap_eq_nil_iff.mpr fun g hg =>
      (groupFlags_eq_nil_iff (ne_nil_of_mem_groups hg)).mpr (hsingle g hg)
  have hunitFlags : unitFlags (surviving entries) = [] :=
    unitFlags_eq_nil fun e he f hf => hunits e (hperm.mem_iff.mp he) f (hperm.mem_iff.mp hf)
  have hcounted := counted_eq_of_no_unitFlags hunitFlags
  exact ⟨by rw [foldFlags, hgroupFlags, hunitFlags, hcounted]; rfl, hcounted, hperm⟩

end Verified

theorem aboutEntry_notMem_refFlags
    (mref : String) (halves : List LedgerEntry) (ledgerId : String) (seq : Nat) :
    .forkShapedSequence ledgerId seq ∉ refFlags mref halves ∧
      .duplicateEntry ledgerId seq ∉ refFlags mref halves ∧
      .unitMismatch ledgerId seq ∉ refFlags mref halves := by
  match halves with
  | [] | [one] | _ :: _ :: _ :: _ => simp [refFlags]
  | [a, b] =>
      simp only [refFlags, pairFlags]
      split <;> simp

/-!
## The conservation theorem
-/

theorem conservation_holds
    [CanonicalDigest] (hinj : Function.Injective entryContentHash) :
    (forall entries entries' : List LedgerEntry, entries'.Perm entries ->
      conservationFold entries' = conservationFold entries) ∧
    (forall entries : List LedgerEntry,
      (forall e, Counts entries e ->
        (conservationFold entries).nets[e.ledgerId]? =
          some { unit := e.unit, netMinor := toString (countedSum entries e.ledgerId) }) ∧
      forall ledgerId pos, (conservationFold entries).nets[ledgerId]? = some pos ->
        exists e, Counts entries e ∧ e.ledgerId = ledgerId) ∧
    (forall entries : List LedgerEntry, (conservationFold entries).flags = [] ->
      forall unit, (conservationFold entries).netTotal unit =
        credits entries unit - debits entries unit) ∧
    (forall entries : List LedgerEntry,
      (forall ledgerId, (exists e, e ∈ entries ∧ e.ledgerId = ledgerId) ->
        exists h, verifyChainFromGenesis (ledgerChain entries ledgerId) = .ok h) ->
      (forall ledgerId seq,
        FoldFlag.forkShapedSequence ledgerId seq ∉ (conservationFold entries).flags ∧
        FoldFlag.duplicateEntry ledgerId seq ∉ (conservationFold entries).flags ∧
        FoldFlag.unitMismatch ledgerId seq ∉ (conservationFold entries).flags) ∧
      (conservationFold entries).entryCount = entries.length) := by
  refine ⟨?_, ?_, ?_, ?_⟩
  · intro entries entries' hperm
    simp only [conservationFold, foldFlags, surviving, groups, hashed_eq_of_perm hinj hperm]
  · intro entries
    constructor
    · intro e he
      have hnet := getElem?_nets_counted ((mem_counted_iff hinj).mpr he)
      rw [sum_counted hinj] at hnet
      exact hnet
    · intro ledgerId pos hpos
      rcases exists_counted_of_net hpos with ⟨e, he, hledger⟩
      exact ⟨e, (mem_counted_iff hinj).mp he, hledger⟩
  · intro entries hflags unit
    exact netTotal_eq_of_no_flags hflags unit
  · intro entries hverified
    rcases fold_of_verified hverified with ⟨hflags, hcounted, hperm⟩
    constructor
    · intro ledgerId seq
      simp only [mem_flags_iff, hflags, transferFlags, List.mem_flatMap]
      refine ⟨?_, ?_, ?_⟩
      · rintro ⟨p, -, hp⟩
        exact (aboutEntry_notMem_refFlags p.1 p.2 ledgerId seq).1 hp
      · rintro ⟨p, -, hp⟩
        exact (aboutEntry_notMem_refFlags p.1 p.2 ledgerId seq).2.1 hp
      · rintro ⟨p, -, hp⟩
        exact (aboutEntry_notMem_refFlags p.1 p.2 ledgerId seq).2.2 hp
    · have hcount : (conservationFold entries).entryCount =
          (counted (surviving entries)).length := rfl
      rw [hcount, hcounted, hperm.length_eq]

/-!
## A payment
-/

section Samples

open Reference

def sentHalf : LedgerEntry :=
  { genesisEntry with kind := .transfer "ledger-b" "r" .outgoing, amountMinor := 2 }

def receivedHalf : LedgerEntry :=
  { genesisEntry with
    ledgerId := "ledger-b"
    prevHash := "ledger-b"
    kind := .transfer "ledger-a" "r" .incoming
    amountMinor := 2 }

/-- One ledger is credited five, and two pass from another to a third. -/
def payment : List LedgerEntry :=
  [receivedHalf, sentHalf, { genesisEntry with ledgerId := "ledger-c", prevHash := "ledger-c" }]

theorem payment_conserved :
    (conservationFold payment).flags = [] ∧
      (conservationFold payment).netTotal "usd" = 5 ∧
      (conservationFold payment).nets["ledger-a"]? =
        some { unit := "usd", netMinor := toString (-2 : Int) } ∧
      conservationFold payment.reverse = conservationFold payment := by
  rcases conservation_holds (entryContentHash_injective digest_injective) with
    ⟨horder, hnets, htotals, -⟩
  have hflags : (conservationFold payment).flags = [] := by
    rfl
  exact ⟨hflags, htotals payment hflags "usd", (hnets payment).1 sentHalf (by decide),
    horder payment payment.reverse (List.reverse_perm payment)⟩

end Samples

end CirisPersist.Ledgers
