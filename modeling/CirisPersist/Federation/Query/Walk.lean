import CirisPersist.Federation.Query.Pages
import CirisPersist.Library.Keyset
import Mathlib.Data.Prod.Lex

/-!
# A page walk misses and repeats nothing

Over a store of rows with distinct instants and ids every page of a walk is a page
behind a mark, so the walk is a walk of the keyset library.  Pages put end to end are the
admitted rows in order when the store stays as it is.  When rows are added between the
calls they still are in order and hold every row that was there from the start.
-/

namespace CirisPersist.Federation
namespace Query

open Keyset

/-!
## The order of rows
-/

theorem keyLt_iff_toLex
    (k m : Instant × String) :
    KeyLt k m <-> toLex k < toLex m := by
  rw [Prod.Lex.lt_iff]
  exact Iff.rfl

instance : IsStrictTotalOrder (Instant × String) KeyLt where
  irrefl := by
    intro k h
    exact lt_irrefl _ ((keyLt_iff_toLex k k).mp h)
  trans := by
    intro k m n hkm hmn
    rw [keyLt_iff_toLex] at *
    exact lt_trans hkm hmn
  trichotomous := by
    intro k m hkm hmk
    rw [keyLt_iff_toLex] at *
    exact toLex.injective (le_antisymm (not_lt.mp hmk) (not_lt.mp hkm))

instance (d : Direction) : IsStrictTotalOrder (Instant × String) d.Before := by
  cases d with
  | asc => exact inferInstanceAs (IsStrictTotalOrder (Instant × String) KeyLt)
  | desc => exact inferInstanceAs (IsStrictTotalOrder (Instant × String) (Function.swap KeyLt))

theorem newerThan_iff_not_keyLt
    (a b : PlacedAttestation) :
    newerThan a.toAttestation b.toAttestation <-> ¬ KeyLt (rowKey a) (rowKey b) := by
  have hlater : newerThan a.toAttestation b.toAttestation <->
      b.assertedAt < a.assertedAt ∨
        (b.assertedAt = a.assertedAt ∧ b.attestationId ≤ a.attestationId) :=
    Iff.rfl
  have hbefore : KeyLt (rowKey a) (rowKey b) <->
      a.assertedAt < b.assertedAt ∨
        (a.assertedAt = b.assertedAt ∧ a.attestationId < b.attestationId) :=
    Iff.rfl
  rw [hlater, hbefore, not_or, not_and, not_lt, not_lt]
  constructor
  · rintro (hlt | ⟨heq, hid⟩)
    · exact ⟨le_of_lt hlt, fun heq => absurd heq.symm (ne_of_lt hlt)⟩
    · exact ⟨le_of_eq heq, fun _ => hid⟩
  · rintro ⟨hle, hid⟩
    rcases lt_or_eq_of_le hle with hlt | heq
    · exact Or.inl hlt
    · exact Or.inr ⟨heq, hid heq.symm⟩

theorem precedes_iff
    (d : Direction) (a b : PlacedAttestation) :
    d.Precedes a b <-> ¬ d.Before (rowKey b) (rowKey a) := by
  cases d with
  | asc => exact newerThan_iff_not_keyLt b a
  | desc => exact newerThan_iff_not_keyLt a b

def InOrder (d : Direction) (rows : List PlacedAttestation) : Prop :=
  Ascending d.Before rowKey rows

variable {rows : List PlacedAttestation}

theorem sort_inOrder
    (q : AttestationQuery) (hdistinct : (rows.map rowKey).Nodup) :
    InOrder q.order (q.sort rows) := by
  have htotal : Std.Total q.order.Precedes := by
    constructor
    intro a b
    rw [precedes_iff, precedes_iff, ← not_and_or]
    rintro ⟨hba, hab⟩
    exact asymm_of q.order.Before hba hab
  have htrans : IsTrans PlacedAttestation q.order.Precedes := by
    constructor
    intro a b c hab hbc
    rw [precedes_iff] at *
    intro hca
    rcases trichotomous_of q.order.Before (rowKey a) (rowKey b) with hlt | heq | hgt
    · exact hbc (trans_of q.order.Before hca hlt)
    · rw [heq] at hca
      exact hbc hca
    · exact hab hgt
  have hsorted : (q.sort rows).Pairwise q.order.Precedes := List.pairwise_insertionSort _ _
  have hkeys : ((q.sort rows).map rowKey).Nodup :=
    ((List.perm_insertionSort q.order.Precedes rows).map rowKey).nodup_iff.mpr hdistinct
  refine (hsorted.and (List.pairwise_map.mp hkeys)).imp ?_
  rintro a b ⟨hprecedes, hne⟩
  rcases trichotomous_of q.order.Before (rowKey a) (rowKey b) with hlt | heq | hgt
  · exact hlt
  · exact absurd heq hne
  · exact absurd hgt ((precedes_iff q.order a b).mp hprecedes)

theorem mem_sort_iff
    (q : AttestationQuery) (rows : List PlacedAttestation) (a : PlacedAttestation) :
    a ∈ q.sort rows <-> a ∈ rows :=
  List.mem_insertionSort _

/-!
## One call
-/

def AttestationQuery.unmarked (q : AttestationQuery) : AttestationQuery :=
  { q with after := none }

def AttestationQuery.mark (q : AttestationQuery) : Option (Instant × String) :=
  q.after.map AttestationCursor.mark

theorem admits_iff
    (q : AttestationQuery) (a : PlacedAttestation) :
    q.admits a = true <-> q.unmarked.admits a = true ∧ Past q.order.Before rowKey q.mark a := by
  have hpast : (q.after.all fun c => decide (q.order.Before c.mark (rowKey a))) = true <->
      Past q.order.Before rowKey q.mark a := by
    unfold Past AttestationQuery.mark
    cases q.after <;> simp
  rw [← hpast]
  simp only [AttestationQuery.admits, AttestationQuery.unmarked, Option.all_none, Bool.and_true,
    Bool.and_eq_true]

def Asked (q : AttestationQuery) (rows : List PlacedAttestation) (a : PlacedAttestation) : Prop :=
  a ∈ rows ∧ q.unmarked.admits a = true

theorem mem_answer_iff
    (q : AttestationQuery) (rows : List PlacedAttestation) (a : PlacedAttestation) :
    a ∈ q.sort (rows.filter q.admits) <-> Asked q rows a ∧ Past q.order.Before rowKey q.mark a := by
  rw [mem_sort_iff, List.mem_filter, admits_iff, Asked, and_assoc]

theorem answer_inOrder
    (q : AttestationQuery) (hdistinct : (rows.map rowKey).Nodup) :
    InOrder q.order (q.sort (rows.filter q.admits)) :=
  sort_inOrder q (hdistinct.sublist (List.filter_sublist.map rowKey))

theorem queryAttestations_served
    {q : AttestationQuery} (hvalid : q.validate = .ok ()) (hdistinct : (rows.map rowKey).Nodup) :
    exists page, queryAttestations (execute rows) q = .served page ∧
      (forall c, page.next = some c -> c.version = "v1") ∧
      Keyset.Page q.order.Before rowKey (Asked q rows) q.mark page.rows
        (page.next.map AttestationCursor.mark) := by
  have hsorted := answer_inOrder q hdistinct
  have hanswer := mem_answer_iff q rows
  unfold queryAttestations execute
  rw [hvalid]
  dsimp only
  generalize q.sort (rows.filter q.admits) = answer at hsorted hanswer
  have hfetch : ¬ q.fetch < (answer.take q.fetch).length := by
    rw [List.length_take]
    omega
  rw [if_neg hfetch]
  by_cases hwhole : answer.length ≤ q.limit.rows
  · have htake : answer.take q.fetch = answer :=
      List.take_of_length_le (Nat.le_succ_of_le hwhole)
    rw [htake, if_neg (Nat.not_lt.mpr hwhole)]
    refine ⟨_, rfl, ?_, page_of_whole hsorted hanswer⟩
    intro c hc
    cases hc
  · have hlength : q.limit.rows < (answer.take q.fetch).length := by
      rw [List.length_take, AttestationQuery.fetch]
      omega
    have hkept : (answer.take q.fetch).take q.limit.rows = answer.take q.limit.rows := by
      rw [List.take_take, AttestationQuery.fetch, Nat.min_eq_left (Nat.le_succ _)]
    have hnonempty : answer.take q.limit.rows ≠ [] := by
      have hpos := q.limit.pos
      rw [← List.length_pos_iff, List.length_take]
      omega
    rw [if_pos hlength, hkept, List.getLast?_eq_some_getLast hnonempty]
    refine ⟨_, rfl, ?_, ?_⟩
    · intro c hc
      cases hc
      rfl
    · have hcut : answer.take q.limit.rows =
          (answer.take q.limit.rows).dropLast ++ [(answer.take q.limit.rows).getLast hnonempty] :=
        (List.dropLast_append_getLast hnonempty).symm
      have hpage := page_of_front hsorted hanswer
        (hcut ▸ (List.take_append_drop q.limit.rows answer).symm)
      rw [← hcut] at hpage
      exact hpage

/-!
## The state between two calls
-/

/-- The walk of `q` goes on: the cursor is the only part of the query that has moved. -/
structure Reading (q : AttestationQuery) (p : Pages) : Prop where
  opened : p.done = false
  query : exists after, p.query = { q with after := after }
  valid : p.query.validate = .ok ()
  last : forall c, p.last = some c -> p.query.after = some c

theorem validate_after
    {q : AttestationQuery} (hvalid : q.validate = .ok ())
    {c : AttestationCursor} (hversion : c.version = "v1") :
    ({ q with after := some c } : AttestationQuery).validate = .ok () := by
  unfold AttestationQuery.validate at *
  split at hvalid
  · cases hvalid
  · split at hvalid
    · cases hvalid
    · split at hvalid
      · cases hvalid
      · rename_i hpins hlimit hnames
        rw [if_neg hpins, if_neg hlimit, if_neg hnames]
        simp [hversion]

theorem reading_pages
    {q : AttestationQuery} (hvalid : q.validate = .ok ()) :
    Reading q q.pages where
  opened := rfl
  query := ⟨q.after, rfl⟩
  valid := hvalid
  last := by
    intro c hc
    cases hc

theorem cursor_advances
    {q : AttestationQuery} {present : PlacedAttestation -> Prop} {c : AttestationCursor}
    (hpage : Keyset.Page q.order.Before rowKey present q.mark rows (some c.mark)) :
    q.after ≠ some c := by
  intro hafter
  rcases (hpage.last c.mark rfl).1 with ⟨r, hr, hkey⟩
  have hpast := (hpage.sound r hr).2 c.mark (by rw [AttestationQuery.mark, hafter]; rfl)
  rw [hkey] at hpast
  exact irrefl_of q.order.Before c.mark hpast

variable {p : Pages}

theorem next_of_reading
    {q : AttestationQuery} (hreading : Reading q p) (hdistinct : (rows.map rowKey).Nodup) :
    exists page p', p.next (execute rows) = .ok (some page, p') ∧
      ((p'.done = true ∧
          Keyset.Page q.order.Before rowKey (Asked q rows) p.query.mark page none) ∨
        (Reading q p' ∧ exists k, p'.query.mark = some k ∧
          Keyset.Page q.order.Before rowKey (Asked q rows) p.query.mark page (some k))) := by
  rcases hreading.query with ⟨after, hquery⟩
  rcases queryAttestations_served hreading.valid hdistinct with ⟨page, hserved, hversion, hpage⟩
  have horder : p.query.order = q.order := by rw [hquery]
  have hasked : Asked p.query rows = Asked q rows := by
    unfold Asked AttestationQuery.unmarked
    rw [hquery]
  unfold Pages.next
  rw [hreading.opened, hserved]
  simp only [Bool.false_eq_true, if_false, ReadOutcome.result]
  cases hnext : page.next with
  | none =>
      rw [hnext, horder, hasked] at hpage
      exact ⟨page.rows, _, rfl, Or.inl ⟨rfl, hpage⟩⟩
  | some c =>
      rw [hnext] at hpage
      have hfresh : p.last ≠ some c := fun h => cursor_advances hpage (hreading.last c h)
      rw [horder, hasked] at hpage
      dsimp only
      rw [if_neg hfresh]
      refine ⟨page.rows, _, rfl, Or.inr ⟨?_, c.mark, rfl, hpage⟩⟩
      constructor
      · rfl
      · exact ⟨some c, by rw [hquery]⟩
      · exact validate_after hreading.valid (hversion c hnext)
      · intro c' hc'
        exact hc'

/-!
## The walk
-/

theorem next_of_done
    (hdone : p.done = true) (exec : Executor) :
    p.next exec = .ok (none, p) := by
  rw [Pages.next, if_pos hdone]

theorem walk_of_done
    (hdone : p.done = true) (exec : Nat -> Executor) (i calls : Nat) :
    Pages.walk exec i calls p = .ok ([], p) := by
  cases calls with
  | zero => rfl
  | succ calls => rw [Pages.walk, next_of_done hdone]

section Snapshots

variable {q : AttestationQuery} {store : Nat -> List PlacedAttestation}

def AskedAt (q : AttestationQuery) (store : Nat -> List PlacedAttestation) (n : Nat) :
    PlacedAttestation -> Prop :=
  Asked q (store n)

theorem walk_of_reading
    (hdistinct : forall n, ((store n).map rowKey).Nodup) (calls : Nat) :
    forall i p sofar, Reading q p ->
      Walk q.order.Before rowKey (AskedAt q store) q.mark i sofar p.query.mark ->
      exists pages p',
        Pages.walk (fun n => execute (store n)) i calls p = .ok (pages, p') ∧
        ((Reading q p' ∧ Walk q.order.Before rowKey (AskedAt q store) q.mark (i + calls)
            (sofar ++ pages.flatten) p'.query.mark) ∨
          (p'.done = true ∧ Finished q.order.Before rowKey (AskedAt q store) q.mark
            (sofar ++ pages.flatten))) := by
  induction calls with
  | zero =>
      intro i p sofar hreading hwalk
      refine ⟨[], p, rfl, Or.inl ⟨hreading, ?_⟩⟩
      simpa using hwalk
  | succ calls ih =>
      intro i p sofar hreading hwalk
      rcases next_of_reading hreading (hdistinct i) with ⟨page, p', hnext, hlast | hmore⟩
      · rcases hlast with ⟨hdone, hpage⟩
        refine ⟨[page], p', ?_, Or.inr ⟨hdone, i, sofar, page, p.query.mark, ?_, hwalk, hpage⟩⟩
        · simp only [Pages.walk, hnext, walk_of_done hdone]
        · simp
      · rcases hmore with ⟨hreading', k, hmark, hpage⟩
        have hwalk' := Walk.page hwalk hpage
        rw [← hmark] at hwalk'
        rcases ih (i + 1) p' (sofar ++ page) hreading' hwalk' with ⟨pages, p'', hrest, hend⟩
        refine ⟨page :: pages, p'', ?_, ?_⟩
        · simp [Pages.walk, hnext, hrest]
        · rw [List.flatten_cons, ← List.append_assoc, Nat.add_comm calls, ← Nat.add_assoc]
          exact hend

theorem walk_pages
    (hvalid : q.validate = .ok ()) (hdistinct : forall n, ((store n).map rowKey).Nodup)
    (calls : Nat) :
    exists pages p,
      Pages.walk (fun n => execute (store n)) 0 calls q.pages = .ok (pages, p) ∧
      ((p.done = false ∧ exists mark,
          Walk q.order.Before rowKey (AskedAt q store) q.mark calls pages.flatten mark) ∨
        (p.done = true ∧
          Finished q.order.Before rowKey (AskedAt q store) q.mark pages.flatten)) := by
  rcases walk_of_reading hdistinct calls 0 q.pages [] (reading_pages hvalid) .start with
    ⟨pages, p, hwalk, hend⟩
  rw [List.nil_append, Nat.zero_add] at hend
  refine ⟨pages, p, hwalk, ?_⟩
  rcases hend with ⟨hreading, hend⟩ | hend
  · exact Or.inl ⟨hreading.opened, p.query.mark, hend⟩
  · exact Or.inr hend

theorem askedAt_grows
    (hgrow : forall n, store n ⊆ store (n + 1)) :
    forall n r, AskedAt q store n r -> AskedAt q store (n + 1) r := by
  intro n r h
  exact ⟨hgrow n h.1, h.2⟩

/-- Whatever is added between the calls, the pages are in order, hold admitted rows only
and, once the walk is done, every admitted row that was there at the first call. -/
theorem walk_of_growing
    (hvalid : q.validate = .ok ()) (hdistinct : forall n, ((store n).map rowKey).Nodup)
    (hgrow : forall n, store n ⊆ store (n + 1)) (calls : Nat) :
    exists pages p,
      Pages.walk (fun n => execute (store n)) 0 calls q.pages = .ok (pages, p) ∧
      InOrder q.order pages.flatten ∧
      (forall r, r ∈ pages.flatten -> q.admits r = true ∧ exists n, r ∈ store n) ∧
      (p.done = true -> forall r, r ∈ store 0 -> q.admits r = true -> r ∈ pages.flatten) := by
  rcases walk_pages hvalid hdistinct calls with ⟨pages, p, hwalk, ⟨hopen, mark, hpages⟩ | hend⟩
  · have hcovers := hpages.covers (askedAt_grows hgrow)
    refine ⟨pages, p, hwalk, hcovers.ascending, ?_, ?_⟩
    · intro r hr
      rcases hcovers.sound r hr with ⟨⟨n, -, hmem, hadmits⟩, hpast⟩
      exact ⟨(admits_iff q r).mpr ⟨hadmits, hpast⟩, n, hmem⟩
    · intro hdone
      rw [hopen] at hdone
      cases hdone
  · rcases hend.2.covers (askedAt_grows hgrow) with ⟨hascending, hsound, hcomplete⟩
    refine ⟨pages, p, hwalk, hascending, ?_, ?_⟩
    · intro r hr
      rcases hsound r hr with ⟨⟨n, hmem, hadmits⟩, hpast⟩
      exact ⟨(admits_iff q r).mpr ⟨hadmits, hpast⟩, n, hmem⟩
    · intro _ r hr hadmits
      rcases (admits_iff q r).mp hadmits with ⟨hnarrow, hpast⟩
      exact hcomplete r ⟨hr, hnarrow⟩ hpast

theorem walk_done
    (hvalid : q.validate = .ok ()) (hdistinct : forall n, ((store n).map rowKey).Nodup)
    (hgrow : forall n, store n ⊆ store (n + 1)) {bound : List PlacedAttestation}
    (hbound : forall n, store n ⊆ bound) :
    exists pages p,
      Pages.walk (fun n => execute (store n)) 0 (bound.length + 1) q.pages = .ok (pages, p) ∧
      p.done = true := by
  rcases walk_pages hvalid hdistinct (bound.length + 1) with
    ⟨pages, p, hwalk, ⟨-, mark, hpages⟩ | hend⟩
  · have hle : bound.length + 1 ≤ bound.length :=
      hpages.le_length (askedAt_grows hgrow) (fun n r hr => hbound n hr.1)
    omega
  · exact ⟨pages, p, hwalk, hend.1⟩

theorem walk_of_constant
    (hvalid : q.validate = .ok ()) (hdistinct : (rows.map rowKey).Nodup) :
    exists pages p,
      Pages.walk (fun _ => execute rows) 0 (rows.length + 1) q.pages = .ok (pages, p) ∧
      p.done = true ∧ pages.flatten = q.sort (rows.filter q.admits) := by
  have hgrow : forall n : Nat, (fun _ => rows) n ⊆ (fun _ => rows) (n + 1) :=
    fun _ => List.Subset.refl rows
  rcases walk_done hvalid (fun _ => hdistinct) hgrow (fun _ => List.Subset.refl rows) with
    ⟨pages, p, hwalk, hdone⟩
  rcases walk_of_growing hvalid (fun _ => hdistinct) hgrow (rows.length + 1) with
    ⟨pages', p', hwalk', hascending, hsound, hcomplete⟩
  rw [hwalk] at hwalk'
  cases hwalk'
  refine ⟨pages, p, hwalk, hdone, ?_⟩
  refine hascending.eq_of_mem_iff (answer_inOrder q hdistinct) ?_
  intro r
  rw [mem_sort_iff, List.mem_filter]
  constructor
  · intro hr
    rcases hsound r hr with ⟨hadmits, -, hmem⟩
    exact ⟨hmem, hadmits⟩
  · rintro ⟨hmem, hadmits⟩
    exact hcomplete hdone r hmem hadmits

end Snapshots

/-- A walk of a valid query ends without an error with the admitted rows in order, and no row
twice.  With rows added between the calls it returns no row twice and stays in order; once
it ends, which it does if the rows are finitely many, it has returned every admitted row that
was there from the start. -/
theorem page_walk_exact
    (q : AttestationQuery) (hvalid : q.validate = Except.ok ()) :
    (forall rows : List PlacedAttestation, (rows.map rowKey).Nodup ->
      exists pages p,
        Pages.walk (fun _ => execute rows) 0 (rows.length + 1) q.pages = Except.ok (pages, p) ∧
        p.next (execute rows) = Except.ok (none, p) ∧
        pages.flatten = q.sort (rows.filter q.admits) ∧
        InOrder q.order pages.flatten ∧ pages.flatten.Nodup) ∧
    forall store : Nat -> List PlacedAttestation,
      (forall n, ((store n).map rowKey).Nodup) -> (forall n, store n ⊆ store (n + 1)) ->
      (forall calls, exists pages p,
        Pages.walk (fun n => execute (store n)) 0 calls q.pages = Except.ok (pages, p) ∧
        InOrder q.order pages.flatten ∧ pages.flatten.Nodup ∧
        (forall r, r ∈ pages.flatten -> q.admits r = true ∧ exists n, r ∈ store n) ∧
        (p.done = true -> forall r, r ∈ store 0 -> q.admits r = true -> r ∈ pages.flatten)) ∧
      forall bound : List PlacedAttestation, (forall n, store n ⊆ bound) ->
        exists pages p,
          Pages.walk (fun n => execute (store n)) 0 (bound.length + 1) q.pages =
            Except.ok (pages, p) ∧
          p.done = true ∧ forall exec, p.next exec = Except.ok (none, p) := by
  constructor
  · intro rows hdistinct
    rcases walk_of_constant hvalid hdistinct with ⟨pages, p, hwalk, hdone, hpages⟩
    have hascending : InOrder q.order pages.flatten := by
      rw [hpages]
      exact answer_inOrder q hdistinct
    exact ⟨pages, p, hwalk, next_of_done hdone _, hpages, hascending, hascending.nodup⟩
  · intro store hdistinct hgrow
    constructor
    · intro calls
      rcases walk_of_growing hvalid hdistinct hgrow calls with
        ⟨pages, p, hwalk, hascending, hsound, hcomplete⟩
      exact ⟨pages, p, hwalk, hascending, hascending.nodup, hsound, hcomplete⟩
    · intro bound hbound
      rcases walk_done hvalid hdistinct hgrow hbound with ⟨pages, p, hwalk, hdone⟩
      exact ⟨pages, p, hwalk, hdone, next_of_done hdone⟩

def sampleRow (id : String) (t : Instant) : PlacedAttestation where
  toAttestation := .ofAuthor id "author" "subject" .scores t []
  cohortScope := "federation"
  weight := none

def sampleQuery (d : Direction) : AttestationQuery where
  author := some "author"
  subject := none
  dimension := .any
  types := []
  typePrefix := none
  excludedDimensions := []
  tier := .federation
  order := d
  limit := ⟨1, by decide, by decide⟩
  after := none
  asOf := none
  scope := none

theorem page_walk_exact_sample :
    (sampleQuery .desc).validate = .ok () ∧
    exists pages p,
      Pages.walk (fun _ => execute [sampleRow "a" 0, sampleRow "b" 0]) 0 3
        (sampleQuery .desc).pages = .ok (pages, p) ∧
      pages.flatten.map (fun a => a.attestationId) = ["b", "a"] := by
  refine ⟨rfl, ?_⟩
  rcases (page_walk_exact (sampleQuery .desc) rfl).1
    [sampleRow "a" 0, sampleRow "b" 0] (by decide) with ⟨pages, p, hwalk, -, hpages, -⟩
  refine ⟨pages, p, hwalk, ?_⟩
  rw [hpages]
  decide

/-!
## Whole reads

The folds of the federation layer read every page of a query.  What they get is the whole read
of the store, as long as no stored type spells one of the five named ones as another.
-/

def namedTypes : List String :=
  ["scores", "delegates_to", "supersedes", "withdraws", "recants"]

def CanonicalType (t : AttestationType) : Prop :=
  forall token, t = .other token -> token ∉ namedTypes

theorem typeText_inj
    {t u : AttestationType} (ht : CanonicalType t) (hu : CanonicalType u)
    (h : typeText t = typeText u) :
    t = u := by
  cases t with
  | other token =>
      cases u with
      | other token' => exact congrArg AttestationType.other h
      | scores | delegatesTo | supersedes | withdraws | recants =>
          exact absurd (by rw [show token = _ from h]; decide) (ht token rfl)
  | scores | delegatesTo | supersedes | withdraws | recants =>
      cases u with
      | other token =>
          exact absurd (by rw [← show _ = token from h]; decide) (hu token rfl)
      | scores | delegatesTo | supersedes | withdraws | recants =>
          first
            | rfl
            | exact absurd h (by decide)

def ofRead (q : Federation.AttestationQuery) (limit : PageSize) : AttestationQuery where
  author := q.author
  subject := q.subject
  dimension := match q.dimension with
    | Federation.DimensionFilter.any => .any
    | Federation.DimensionFilter.startingWith stem => .startingWith stem
  types := q.types.map typeText
  typePrefix := none
  excludedDimensions := []
  tier := .federation
  order := .desc
  limit := limit
  after := none
  asOf := none
  scope := none

theorem ofRead_valid
    {q : Federation.AttestationQuery} (hpins : ¬ (q.author = none ∧ q.subject = none))
    {limit : PageSize} (hlimit : limit.rows ≤ maxPage) :
    (ofRead q limit).validate = .ok () := by
  have hnames : (ofRead q limit).dimension ≠ .anyOf [] := by
    unfold ofRead
    cases q.dimension <;> simp
  have hkeys : ¬ ((ofRead q limit).author = none ∧ (ofRead q limit).subject = none) := hpins
  have hfits : ¬ maxPage < (ofRead q limit).limit.rows := Nat.not_lt.mpr hlimit
  unfold AttestationQuery.validate
  rw [if_neg hkeys, if_neg hfits, if_neg hnames]
  rfl

theorem ofRead_admits_iff
    {q : Federation.AttestationQuery} (htypes : forall t, t ∈ q.types -> CanonicalType t)
    (limit : PageSize) {a : PlacedAttestation} (htype : CanonicalType a.attestationType) :
    (ofRead q limit).admits a = q.admits a.toAttestation := by
  have hnamed : (exists t, t ∈ q.types ∧ typeText t = typeText a.attestationType) <->
      a.attestationType ∈ q.types := by
    constructor
    · rintro ⟨t, ht, heq⟩
      rw [← typeText_inj (htypes t ht) htype heq]
      exact ht
    · intro ht
      exact ⟨a.attestationType, ht, rfl⟩
  have hexcluded : a.dimension.any ([] : List String).contains = false := by
    cases a.dimension <;> rfl
  unfold AttestationQuery.admits Federation.AttestationQuery.admits
  cases hdimension : q.dimension with
  | any => simp [ofRead, hnamed, hexcluded, hdimension, DimensionFilter.accepts]
  | startingWith stem => simp [ofRead, hnamed, hexcluded, hdimension, DimensionFilter.accepts]

/-- The pages of a read put end to end are the read. -/
theorem pages_eq_read
    (store : AttestationStore) (hrows : rows.map PlacedAttestation.toAttestation = store.rows)
    (hcanonical : forall a, a ∈ store.rows -> CanonicalType a.attestationType)
    {q : Federation.AttestationQuery} (hpins : ¬ (q.author = none ∧ q.subject = none))
    (htypes : forall t, t ∈ q.types -> CanonicalType t) {limit : PageSize}
    (hlimit : limit.rows ≤ maxPage) :
    exists pages p,
      Pages.walk (fun _ => execute rows) 0 (rows.length + 1) (ofRead q limit).pages =
        Except.ok (pages, p) ∧
      p.done = true ∧ pages.flatten.map PlacedAttestation.toAttestation = store.read q := by
  have hdistinct : (rows.map rowKey).Nodup := by
    have hids := store.distinct
    rw [← hrows, List.map_map] at hids
    refine List.Nodup.of_map Prod.snd ?_
    rw [List.map_map]
    exact hids
  rcases walk_of_constant (ofRead_valid hpins hlimit) hdistinct with
    ⟨pages, p, hwalk, hdone, hpages⟩
  refine ⟨pages, p, hwalk, hdone, ?_⟩
  have hfilter : rows.filter (ofRead q limit).admits =
      rows.filter fun a => q.admits a.toAttestation := by
    refine List.filter_congr ?_
    intro a ha
    exact ofRead_admits_iff htypes limit
      (hcanonical a.toAttestation (hrows ▸ List.mem_map_of_mem ha))
  rw [hpages, hfilter, AttestationStore.read, ← hrows, List.filter_map]
  exact List.map_insertionSort _ _ _ _ fun a _ b _ => Iff.rfl

theorem samplePages_eq_read :
    let rows := [sampleRow "a" 0, sampleRow "b" 0]
    let store : AttestationStore := ⟨rows.map PlacedAttestation.toAttestation, by decide⟩
    let q := Federation.AttestationQuery.byKey "author"
    exists pages p,
      Pages.walk (fun _ => execute rows) 0 3 (ofRead q ⟨1, by decide, by decide⟩).pages =
        .ok (pages, p) ∧
      p.done = true ∧ pages.flatten.map PlacedAttestation.toAttestation = store.read q := by
  refine pages_eq_read ⟨_, _⟩ rfl ?_ (by decide) (fun _ => List.not_mem_nil.elim) (by decide)
  simp [sampleRow, Attestation.ofAuthor, CanonicalType]

end Query
end CirisPersist.Federation
