import CirisPersist.Federation.Consensus.Admission
import Mathlib.Algebra.Order.BigOperators.Group.List
import Mathlib.Algebra.Order.Ring.Rat

/-!
# More signatures on the same change

Two ballots that differ only in their signers are compared, the second signed
by at least the keys of the first.  Every plain form keeps an admitting verdict.
A declared rubric keeps it when the new signers do not pull the sum down, and a
custom expression keeps it when no `all_of` inside an `any_of` hides an item
that cannot be evaluated.
-/

namespace CirisPersist.Federation

open ConsensusProtocol

/-!
## Verdict comparison

`Keeps` is the property in question.  `Improves` adds that an evaluable verdict
stays evaluable, which is what an `any_of` needs of its items.
-/

namespace Verdict

def Evaluable (v : Verdict) : Prop :=
  forall reason, v ≠ unevaluable reason

def Keeps (v w : Verdict) : Prop :=
  v = admitted -> w = admitted

structure Improves (v w : Verdict) : Prop where
  keeps : Keeps v w
  evaluable : v.Evaluable -> w.Evaluable

/-- What an expression needs: `Improves` only where it stands below an `any_of`. -/
structure GrowsWith (underAny : Bool) (v w : Verdict) : Prop where
  keeps : Keeps v w
  improves : underAny = true -> Improves v w

@[simp]
theorem evaluable_admitted :
    admitted.Evaluable := by
  intro reason h
  cases h

@[simp]
theorem evaluable_insufficient
    (detail : String) :
    (insufficient detail).Evaluable := by
  intro reason h
  cases h

@[simp]
theorem not_evaluable_unevaluable
    (reason : String) :
    ¬ (unevaluable reason).Evaluable := by
  intro h
  exact h reason rfl

theorem Improves.refl
    (v : Verdict) :
    Improves v v :=
  ⟨id, id⟩

theorem Improves.growsWith
    {underAny : Bool} {v w : Verdict} (h : Improves v w) :
    GrowsWith underAny v w :=
  ⟨h.keeps, fun _ => h⟩

theorem improves_of_unevaluable
    (reason : String) (w : Verdict) :
    Improves (unevaluable reason) w :=
  ⟨fun h => Verdict.noConfusion h, fun h => absurd h (not_evaluable_unevaluable reason)⟩

theorem Keeps.improves
    {v w : Verdict} (h : Keeps v w) (hw : w.Evaluable) :
    Improves v w :=
  ⟨h, fun _ => hw⟩

theorem evaluable_ite
    {p : Prop} [Decidable p] (detail : String) :
    (if p then admitted else insufficient detail).Evaluable := by
  split <;> simp

theorem improves_ite
    {p q : Prop} [Decidable p] [Decidable q] (detail detail' : String) (hpq : p -> q) :
    Improves (if p then admitted else insufficient detail)
      (if q then admitted else insufficient detail') := by
  refine Keeps.improves ?_ (evaluable_ite detail')
  intro h
  by_cases hp : p
  · rw [if_pos (hpq hp)]
  · rw [if_neg hp] at h
    cases h

end Verdict

open Verdict

/-!
## The counted seats grow
-/

section Signers

variable {S T : Finset String}

theorem counted_sublist_of_subset
    (elig : List Seat) (hST : S ⊆ T) :
    (counted elig S).Sublist (counted elig T) := by
  apply List.monotone_filter_right
  intro s hs
  simpa using hST (by simpa using hs)

theorem voicesBesides_le_of_sublist
    {got more : List Seat} (subject : Option String) (h : got.Sublist more) :
    voicesBesides got subject ≤ voicesBesides more subject :=
  h.countP_le

def newSigners (elig : List Seat) (S T : Finset String) : List Seat :=
  elig.filter fun s => decide (s.keyId ∈ T ∧ s.keyId ∉ S)

theorem sum_counted_of_subset
    (w : Seat -> Rat) (elig : List Seat) (hST : S ⊆ T) :
    ((counted elig T).map w).sum =
      ((counted elig S).map w).sum + ((newSigners elig S T).map w).sum := by
  induction elig with
  | nil => simp [counted, newSigners]
  | cons s rest ih =>
      unfold counted newSigners at ih ⊢
      by_cases hS : s.keyId ∈ S
      · simp [hS, hST hS, ih, add_assoc]
      · by_cases hT : s.keyId ∈ T
        · simp only [hS, hT, ih, List.filter_cons, decide_true, decide_false,
            Bool.false_eq_true, not_false_eq_true, and_self, if_true, if_false,
            List.map_cons, List.sum_cons]
          exact add_left_comm _ _ _
        · simp [hS, hT, ih]

theorem exactRubric_sum
    (ws : List Rat) :
    RubricNum.sum ws = ws.sum := by
  have hfold : forall (acc : Rat), ws.foldl RubricNum.add acc = acc + ws.sum := by
    induction ws with
    | nil => simp
    | cons w rest ih =>
        intro acc
        have hadd : RubricNum.add acc w = acc + w := rfl
        rw [List.foldl_cons, ih, hadd, List.sum_cons, add_assoc]
  have hzero : (RubricNum.zero : Rat) = 0 := rfl
  rw [RubricNum.sum, hfold, hzero, zero_add]

end Signers

/-!
## The plain arms

Below, `b` is signed by `S` and `b.signedBy T` is the same ballot signed by `T`.
-/

def Ballot.signedBy (b : Ballot) (T : Finset String) : Ballot :=
  { b with signers := T }

attribute [simps signers protocol subkind direction subject] Ballot.signedBy

@[simp]
theorem seated_signedBy
    (b : Ballot) (T : Finset String) (k : String) :
    seated (b.signedBy T) k = seated b k :=
  rfl

@[simp]
theorem eligible_signedBy
    (b : Ballot) (T : Finset String) :
    eligible (b.signedBy T) = eligible b :=
  rfl

section Arms

variable {b : Ballot} {elig got more : List Seat}

theorem evalFounderOnly_improves
    (h : got.Sublist more) :
    Improves (evalFounderOnly got) (evalFounderOnly more) := by
  apply improves_ite
  simp only [List.any_eq_true]
  rintro ⟨s, hs, hfounder⟩
  exact ⟨s, h.subset hs, hfounder⟩

variable (T : Finset String)

theorem evalUnanimous_improves
    (h : got.Sublist more) (h' : more.Sublist elig) :
    Improves (evalUnanimous b elig got) (evalUnanimous (b.signedBy T) elig more) := by
  have hlen := h.length_le
  have hlen' := h'.length_le
  have hplain :
      Improves
        (if got.length = elig.length then admitted
          else insufficient s!"unanimous: {got.length} of {elig.length} signed")
        (if more.length = elig.length then admitted
          else insufficient s!"unanimous: {more.length} of {elig.length} signed") := by
    apply improves_ite
    omega
  unfold evalUnanimous Ballot.signedBy
  cases b.direction with
  | add => exact hplain
  | remove =>
      cases b.subject with
      | none => exact hplain
      | some removed =>
          have hvoices := voicesBesides_le_of_sublist (some removed) h
          have hvoices' := voicesBesides_le_of_sublist (some removed) h'
          apply improves_ite
          omega

theorem evalUnanimous_evaluable
    (b : Ballot) (elig got : List Seat) :
    (evalUnanimous b elig got).Evaluable := by
  unfold evalUnanimous
  cases b.direction with
  | add => exact evaluable_ite _
  | remove =>
      cases b.subject with
      | none => exact evaluable_ite _
      | some removed => exact evaluable_ite _

theorem evalMajority_improves
    (h : got.Sublist more) :
    Improves (evalMajority elig got) (evalMajority elig more) := by
  have hlen := h.length_le
  apply improves_ite
  omega

theorem evalReverseQuorum_improves
    [External] (h : got.Sublist more) :
    Improves (evalReverseQuorum b elig got) (evalReverseQuorum (b.signedBy T) elig more) := by
  have hlen := h.length_le
  unfold evalReverseQuorum Ballot.signedBy
  cases ReverseQuorumPolicy.parse b.protocol with
  | none => exact .refl _
  | some policy =>
      cases b.direction with
      | remove => exact .refl _
      | add =>
          apply improves_ite
          omega

theorem evalQuorum_improves
    (tail : String) (h : got.Sublist more) :
    Improves (evalQuorum b got tail) (evalQuorum (b.signedBy T) more tail) := by
  have hlen := h.length_le
  unfold evalQuorum Ballot.signedBy
  cases parseQuorumTail tail with
  | none => exact .refl _
  | some mn =>
      apply improves_ite
      omega

theorem evalRole_improves
    (arg : Json) (h : got.Sublist more) :
    Improves (evalRole got arg) (evalRole more arg) := by
  unfold evalRole
  cases arg.getStr? "name" with
  | none => exact .refl _
  | some name =>
      cases arg.getU64? "min" with
      | none => exact .refl _
      | some minimum =>
          have hcount := h.countP_le (p := fun s => s.role == some name)
          apply improves_ite
          omega

end Arms

/-!
## Weighted rubrics

The rubric and its threshold are read from the declaration and the eligible
seats, never from the signers, so only the sum moves.
-/

section Weighted

variable {b : Ballot} {T : Finset String}

/-- The seats that sign only the second ballot do not pull the rubric's sum
down.  The built-in rubric weighs every seat one. -/
def RubricGrows (b : Ballot) (T : Finset String) (rubric : String) : Prop :=
  rubric ≠ rubricUniformHalf ->
    forall decl, declaredRubric b rubric = some decl ->
      0 ≤ ((newSigners (eligible b) b.signers T).map (declaredWeight Rat decl)).sum

theorem newWeight_nonneg
    {rubric : String} {weightOf : Seat -> Rat} {threshold : Rat} (hgrows : RubricGrows b T rubric)
    (hresolve : resolveRubric Rat b (eligible b) rubric = .ok (weightOf, threshold)) :
    0 ≤ ((newSigners (eligible b) b.signers T).map weightOf).sum := by
  unfold resolveRubric at hresolve
  by_cases huniform : rubric = rubricUniformHalf
  · rw [if_pos huniform] at hresolve
    injection hresolve with hpair
    have hone : (fun _ => RubricNum.one) = weightOf := congrArg Prod.fst hpair
    subst hone
    have hval : (0 : Rat) ≤ RubricNum.one := (zero_le_one : (0 : Rat) ≤ 1)
    apply List.sum_nonneg
    simp [hval]
  · rw [if_neg huniform] at hresolve
    cases hdecl : declaredRubric b rubric with
    | none => simp [hdecl] at hresolve
    | some decl =>
        simp only [hdecl] at hresolve
        split at hresolve
        · cases hresolve
        · split at hresolve
          · cases hresolve
          · injection hresolve with hpair
            have hweight : declaredWeight Rat decl = weightOf := congrArg Prod.fst hpair
            subst hweight
            exact hgrows huniform decl hdecl

theorem evalWeighted_improves
    {rubric : String} (hST : b.signers ⊆ T) (hgrows : RubricGrows b T rubric) :
    Improves
      (evalWeighted Rat b (eligible b) (counted (eligible b) b.signers) rubric)
      (evalWeighted Rat (b.signedBy T) (eligible b) (counted (eligible b) T) rubric) := by
  have hsame : resolveRubric Rat (b.signedBy T) (eligible b) rubric =
      resolveRubric Rat b (eligible b) rubric := rfl
  unfold evalWeighted
  rw [hsame]
  cases hresolve : resolveRubric Rat b (eligible b) rubric with
  | error reason => exact .refl _
  | ok resolved =>
      rcases resolved with ⟨weightOf, threshold⟩
      have hnew := newWeight_nonneg hgrows hresolve
      apply improves_ite
      have hle : forall x y : Rat, RubricNum.le x y = true <-> x ≤ y := by
        intro x y
        exact decide_eq_true_iff
      simp only [hle, exactRubric_sum, sum_counted_of_subset weightOf (eligible b) hST]
      intro hmet
      exact le_add_of_le_of_nonneg hmet hnew

end Weighted

/-!
## Past the guards

Growing the signer set never raises a guard that was down.
-/

section Guards

variable {b : Ballot} {T : Finset String}

structure PastGuards (b : Ballot) : Prop where
  notSelfSigned : selfSigned b = false
  signed : exists s, EligibleSigner b s

theorem PastGuards.withProtocol
    (hpast : PastGuards b) (protocol : String) :
    PastGuards { b with protocol := protocol } :=
  ⟨hpast.notSelfSigned, hpast.signed⟩

theorem PastGuards.signedBy
    (hpast : PastGuards b) (hST : b.signers ⊆ T) :
    PastGuards (b.signedBy T) := by
  rcases hpast with ⟨hself, s, hseat, hs⟩
  refine ⟨?_, s, hseat, hST hs⟩
  rw [← Bool.not_eq_true, selfSigned_eq_true_iff] at hself ⊢
  rintro ⟨hdir, k, hsubject, hT⟩
  have hsub : b.signers ⊆ {k} := by
    rw [← show T = {k} from hT]
    exact hST
  have hsigners : b.signers = {k} := by
    apply Finset.Subset.antisymm hsub
    rw [Finset.singleton_subset_iff, ← Finset.mem_singleton.mp (hsub hs)]
    exact hs
  exact hself ⟨hdir, k, hsubject, hsigners⟩

variable (W : Type) [RubricNum W] [External]

theorem evaluateForm_eq_arms
    (custom : String -> Verdict) (hopen : b.protocol ≠ openSelfAdmit) (hpast : PastGuards b) :
    evaluateForm W custom b =
      evaluateArms W custom b (eligible b) (counted (eligible b) b.signers) := by
  rcases hpast with ⟨hself, s, hs⟩
  have hne : counted (eligible b) b.signers ≠ [] :=
    List.ne_nil_of_mem ((mem_counted_iff b s).mpr hs)
  simp [evaluateForm, hopen, hself, hne]

end Guards

section ArmsTogether

variable [External] {b : Ballot} {T : Finset String}

theorem evaluateArms_improves
    (custom custom' : String -> Verdict) (hST : b.signers ⊆ T)
    (hgrows : forall rubric,
      Text.stripPrefix weightedPrefix b.protocol = some rubric -> RubricGrows b T rubric)
    (hcustom : forall id,
      Text.stripPrefix customPrefix b.protocol = some id -> Keeps (custom id) (custom' id)) :
    Keeps
      (evaluateArms Rat custom b (eligible b) (counted (eligible b) b.signers))
      (evaluateArms Rat custom' (b.signedBy T) (eligible b) (counted (eligible b) T)) ∧
    (Text.stripPrefix customPrefix b.protocol = none ->
      Improves
        (evaluateArms Rat custom b (eligible b) (counted (eligible b) b.signers))
        (evaluateArms Rat custom' (b.signedBy T) (eligible b) (counted (eligible b) T))) := by
  have hgot := counted_sublist_of_subset (eligible b) hST
  have hmore : (counted (eligible b) T).Sublist (eligible b) := List.filter_sublist
  have hplain : forall {v w : Verdict}, Improves v w ->
      Keeps v w ∧ (Text.stripPrefix customPrefix b.protocol = none ->
        Improves v w) := fun h => ⟨h.keeps, fun _ => h⟩
  have hproto : (b.signedBy T).protocol = b.protocol := rfl
  unfold evaluateArms
  simp only [hproto]
  split
  · exact hplain (evalFounderOnly_improves hgot)
  split
  · exact hplain (evalUnanimous_improves T hgot hmore)
  split
  · exact hplain (evalMajority_improves hgot)
  split
  · exact hplain (evalReverseQuorum_improves T hgot)
  cases Text.stripPrefix quorumPrefix b.protocol with
  | some tail => exact hplain (evalQuorum_improves T tail hgot)
  | none =>
      cases hweighted : Text.stripPrefix weightedPrefix b.protocol with
      | some rubric => exact hplain (evalWeighted_improves hST (hgrows rubric hweighted))
      | none =>
          cases hstrip : Text.stripPrefix customPrefix b.protocol with
          | some id => exact ⟨hcustom id hstrip, fun h => by cases h⟩
          | none => exact ⟨id, fun _ => Improves.refl _⟩

end ArmsTogether

/-!
## The items of a custom node

An `any_of` improves with its items.  An `all_of` stops at its first refusal, so
a later signature can uncover an item behind it; it improves when every item is
evaluable.
-/

section Items

variable {eval eval' : Json -> Verdict}

theorem evalItems_any_improves
    (items : List Json) (hitems : forall item, item ∈ items -> Improves (eval item) (eval' item))
    (last last' : Option String) :
    Improves (evalItems true eval (last.map insufficient) items)
      (evalItems true eval' (last'.map insufficient) items) := by
  induction items generalizing last last' with
  | nil =>
      simp only [evalItems, if_true, Option.getD_map]
      exact ⟨fun h => Verdict.noConfusion h, fun _ => evaluable_insufficient _⟩
  | cons item rest ih =>
      have hitem := hitems item (List.mem_cons_self)
      have hrest := ih (fun i hi => hitems i (List.mem_cons_of_mem item hi))
      cases hS : eval item with
      | admitted => simp [evalItems, hS, hitem.keeps hS, Improves.refl]
      | unevaluable reason =>
          simp only [evalItems, hS]
          exact improves_of_unevaluable reason _
      | insufficient detail =>
          have hT : (eval' item).Evaluable := hitem.evaluable (by simp [hS])
          cases hT' : eval' item with
          | admitted =>
              simp only [evalItems, hT', if_true]
              exact Keeps.improves (fun _ => rfl) evaluable_admitted
          | unevaluable reason => exact absurd hT' (hT reason)
          | insufficient detail' =>
              simp only [evalItems, hS, hT', if_true]
              exact hrest (some detail) (some detail')

theorem evalItems_all_keeps
    (items : List Json) (hitems : forall item, item ∈ items -> Keeps (eval item) (eval' item)) :
    Keeps (evalItems false eval none items) (evalItems false eval' none items) := by
  induction items with
  | nil => exact id
  | cons item rest ih =>
      have hrest := ih (fun i hi => hitems i (List.mem_cons_of_mem item hi))
      intro h
      cases hS : eval item with
      | admitted =>
          have hT : eval' item = admitted := hitems item (List.mem_cons_self) hS
          simp only [evalItems, hS, Bool.false_eq_true, if_false] at h
          simp only [evalItems, hT, Bool.false_eq_true, if_false]
          exact hrest h
      | unevaluable reason => simp [evalItems, hS] at h
      | insufficient detail => simp [evalItems, hS] at h

theorem evalItems_evaluable
    (anyOf : Bool) (items : List Json) (hitems : forall item, item ∈ items -> (eval item).Evaluable)
    (last : Option String) :
    (evalItems anyOf eval (last.map insufficient) items).Evaluable := by
  induction items generalizing last with
  | nil => cases anyOf <;> simp [evalItems, Option.getD_map]
  | cons item rest ih =>
      have hrest := ih (fun i hi => hitems i (List.mem_cons_of_mem item hi))
      have hitem := hitems item (List.mem_cons_self)
      cases hv : eval item with
      | admitted =>
          cases anyOf with
          | false => simpa [evalItems, hv] using hrest last
          | true => simp [evalItems, hv]
      | unevaluable reason => exact absurd hv (hitem reason)
      | insufficient detail =>
          cases anyOf with
          | false => simp [evalItems, hv]
          | true => simpa [evalItems, hv] using hrest (some detail)

end Items

/-!
## Declarations under which signatures only help

The rubrics an expression names, the nodes that can be evaluated whoever signs,
and the shape in which no `all_of` below an `any_of` hides a node that cannot.
-/

def exprItems (arg : Json) : List Json :=
  arg.asArray.getD []

def exprRubrics : Nat -> Json -> List String
  | 0, _ => []
  | levels + 1, expr =>
      match expr.asObject with
      | some [(op, arg)] =>
          if op = "any_of" ∨ op = "all_of" then
            (exprItems arg).flatMap (exprRubrics levels)
          else if op = "weighted" then
            arg.asStr.toList
          else
            []
      | _ => []

def declaredExpr (b : Ballot) (id : String) : Option Json :=
  (b.policyBlob.bind (·.get? "custom")).bind (·.get? id)

/-- The rubrics the protocol of a ballot names, itself or in its expression. -/
def NamesRubric (b : Ballot) (rubric : String) : Prop :=
  Text.stripPrefix ConsensusProtocol.weightedPrefix b.protocol = some rubric ∨
    exists id expr,
      Text.stripPrefix ConsensusProtocol.customPrefix b.protocol = some id ∧
      declaredExpr b id = some expr ∧
      rubric ∈ exprRubrics (maxCustomDepth + 1) expr

def leafEvaluable (b : Ballot) (op : String) (arg : Json) : Bool :=
  if op = "founder" ∨ op = "majority" ∨ op = "unanimous" then
    true
  else if op = "quorum" then
    arg.asU64.any fun m =>
      ((Text.stripPrefix ConsensusProtocol.quorumPrefix
        (quorumLeaf (eligible b) m)).bind parseQuorumTail).isSome
  else if op = "weighted" then
    arg.asStr.any fun r => (resolveRubric Rat b (eligible b) r).isOk
  else if op = "role" then
    (arg.getStr? "name").isSome && (arg.getU64? "min").isSome
  else
    false

def exprEvaluable (b : Ballot) : Nat -> Json -> Bool
  | 0, _ => false
  | levels + 1, expr =>
      match expr.asObject with
      | some [(op, arg)] =>
          if op = "any_of" ∨ op = "all_of" then
            !(exprItems arg).isEmpty && (exprItems arg).all (exprEvaluable b levels)
          else
            leafEvaluable b op arg
      | _ => false

def shortCircuitSafe (b : Ballot) : Bool -> Nat -> Json -> Bool
  | _, 0, _ => true
  | underAny, levels + 1, expr =>
      match expr.asObject with
      | some [(op, arg)] =>
          if op = "any_of" then
            (exprItems arg).all (shortCircuitSafe b true levels)
          else if op = "all_of" then
            (exprItems arg).all fun item =>
              shortCircuitSafe b false levels item &&
                (!underAny || exprEvaluable b levels item)
          else
            true
      | _ => true

theorem exprEvaluable_signedBy
    (b : Ballot) (T : Finset String) (levels : Nat) :
    forall expr, exprEvaluable (b.signedBy T) levels expr = exprEvaluable b levels expr := by
  induction levels with
  | zero =>
      intro expr
      rfl
  | succ levels ih =>
      intro expr
      have hitems : exprEvaluable (b.signedBy T) levels = exprEvaluable b levels :=
        funext ih
      have hleaf : forall op arg, leafEvaluable (b.signedBy T) op arg =
          leafEvaluable b op arg := fun _ _ => rfl
      simp only [exprEvaluable, hitems, hleaf]

/-!
## Custom expressions
-/

section Custom

variable [External] {b : Ballot} {T : Finset String}

theorem evalSub_improves
    {protocol : String} (hST : b.signers ⊆ T) (hpast : PastGuards b)
    (hopen : protocol ≠ openSelfAdmit) (hstrip : Text.stripPrefix customPrefix protocol = none)
    (hgrows : forall rubric,
      Text.stripPrefix weightedPrefix protocol = some rubric -> RubricGrows b T rubric) :
    Improves (evalSub Rat b protocol) (evalSub Rat (b.signedBy T) protocol) := by
  let leaf : Ballot := { b with protocol := protocol }
  have hleaf : evalSub Rat b protocol = _ :=
    evaluateForm_eq_arms Rat notReached hopen (hpast.withProtocol protocol)
  have hleaf' : evalSub Rat (b.signedBy T) protocol = _ :=
    evaluateForm_eq_arms Rat notReached hopen ((hpast.signedBy hST).withProtocol protocol)
  rw [hleaf, hleaf']
  exact (evaluateArms_improves (b := leaf) notReached notReached hST hgrows
    (fun _ _ => id)).2 hstrip

theorem evalLeaf_improves
    (op : String) (arg : Json) (hST : b.signers ⊆ T) (hpast : PastGuards b)
    (hgrows : op = "weighted" -> forall r, arg.asStr = some r -> RubricGrows b T r) :
    Improves
      (evalLeaf Rat b (eligible b) (counted (eligible b) b.signers) op arg)
      (evalLeaf Rat (b.signedBy T) (eligible b) (counted (eligible b) T) op arg) := by
  have hplain : forall protocol,
      protocol ≠ openSelfAdmit ->
      Text.stripPrefix customPrefix protocol = none ->
      Text.stripPrefix weightedPrefix protocol = none ->
      Improves (evalSub Rat b protocol) (evalSub Rat (b.signedBy T) protocol) := by
    intro protocol hopen hcustom hweighted
    apply evalSub_improves hST hpast hopen hcustom
    intro rubric hrubric
    rw [hweighted] at hrubric
    cases hrubric
  unfold evalLeaf
  split
  · exact hplain _ (by decide) (by decide) (by decide)
  split
  · exact hplain _ (by decide) (by decide) (by decide)
  split
  · exact hplain _ (by decide) (by decide) (by decide)
  split
  · cases arg.asU64 with
    | none => exact .refl _
    | some m =>
        exact hplain _ (quorumLeaf_ne_openSelfAdmit _ m)
          (stripPrefix_custom_quorumLeaf _ m) (stripPrefix_weighted_quorumLeaf _ m)
  split
  · rename_i hweighted
    cases hr : arg.asStr with
    | none => exact .refl _
    | some r =>
        apply evalSub_improves hST hpast (weightedLeaf_ne_openSelfAdmit r)
          (stripPrefix_custom_weighted r)
        intro rubric hrubric
        rw [Text.stripPrefix_append_self] at hrubric
        cases hrubric
        exact hgrows hweighted r hr
  split
  · exact evalRole_improves arg (counted_sublist_of_subset (eligible b) hST)
  · exact .refl _

def EvaluableForm (b : Ballot) (protocol : String) : Prop :=
  protocol = ConsensusProtocol.founderOnly ∨
    protocol = ConsensusProtocol.unanimous ∨
    protocol = ConsensusProtocol.majority ∨
    (exists tail, Text.stripPrefix ConsensusProtocol.quorumPrefix protocol = some tail ∧
      (parseQuorumTail tail).isSome = true) ∨
    (Text.stripPrefix ConsensusProtocol.quorumPrefix protocol = none ∧
      exists r, Text.stripPrefix ConsensusProtocol.weightedPrefix protocol = some r ∧
        (resolveRubric Rat b (eligible b) r).isOk = true)

theorem evaluateArms_evaluable
    {custom : String -> Verdict} {got : List Seat}
    (hreverse : Text.startsWith reverseQuorumPrefix b.protocol = false)
    (hform : EvaluableForm b b.protocol) :
    (evaluateArms Rat custom b (eligible b) got).Evaluable := by
  unfold evaluateArms
  split
  · exact evaluable_ite _
  split
  · exact evalUnanimous_evaluable b (eligible b) got
  split
  · exact evaluable_ite _
  rename_i hfounder hunanimous hmajority
  simp only [hreverse, Bool.false_eq_true, if_false]
  simp only [EvaluableForm, hfounder, hunanimous, hmajority, false_or] at hform
  rcases hform with ⟨tail, htail, hparse⟩ | ⟨hquorum, r, hr, hresolve⟩
  · rw [htail]
    rcases Option.isSome_iff_exists.mp hparse with ⟨mn, hmn⟩
    simp only [evalQuorum, hmn]
    exact evaluable_ite _
  · rw [hquorum, hr]
    cases hres : resolveRubric Rat b (eligible b) r with
    | error reason => simp [hres, Except.isOk, Except.toBool] at hresolve
    | ok resolved =>
        simp only [evalWeighted, hres]
        exact evaluable_ite _

theorem evalSub_evaluable
    {protocol : String} (hpast : PastGuards b) (hopen : protocol ≠ openSelfAdmit)
    (hreverse : Text.startsWith reverseQuorumPrefix protocol = false)
    (hform : EvaluableForm b protocol) :
    (evalSub Rat b protocol).Evaluable := by
  let leaf : Ballot := { b with protocol := protocol }
  have hleaf : evalSub Rat b protocol = _ :=
    evaluateForm_eq_arms Rat notReached hopen (hpast.withProtocol protocol)
  rw [hleaf]
  exact evaluateArms_evaluable (b := leaf) hreverse hform

theorem evalLeaf_evaluable
    (op : String) (arg : Json) (hpast : PastGuards b) (h : leafEvaluable b op arg = true) :
    (evalLeaf Rat b (eligible b) (counted (eligible b) b.signers) op arg).Evaluable := by
  unfold leafEvaluable at h
  unfold evalLeaf
  split
  · exact evalSub_evaluable hpast (by decide) (by decide) (Or.inl rfl)
  split
  · exact evalSub_evaluable hpast (by decide) (by decide) (Or.inr (Or.inr (Or.inl rfl)))
  split
  · exact evalSub_evaluable hpast (by decide) (by decide) (Or.inr (Or.inl rfl))
  rename_i hfounder hmajority hunanimous
  rw [if_neg (by simp [hfounder, hmajority, hunanimous])] at h
  split
  · rw [if_pos ‹_›] at h
    rcases (Option.any_eq_true _ _).mp h with ⟨m, hm, hparse⟩
    rcases Option.isSome_iff_exists.mp hparse with ⟨mn, hmn⟩
    rcases Option.bind_eq_some_iff.mp hmn with ⟨tail, htail, hmn⟩
    rw [hm]
    refine evalSub_evaluable hpast (quorumLeaf_ne_openSelfAdmit _ m)
      (startsWith_reverseQuorum_quorumLeaf _ m) ?_
    exact Or.inr (Or.inr (Or.inr (Or.inl ⟨tail, htail, by simp [hmn]⟩)))
  rw [if_neg ‹_›] at h
  split
  · rw [if_pos ‹_›] at h
    rcases (Option.any_eq_true _ _).mp h with ⟨r, hr, hresolve⟩
    rw [hr]
    refine evalSub_evaluable hpast (weightedLeaf_ne_openSelfAdmit r)
      (startsWith_reverseQuorum_weighted r) ?_
    exact Or.inr (Or.inr (Or.inr (Or.inr ⟨stripPrefix_quorum_weighted r, r,
      Text.stripPrefix_append_self _ r, hresolve⟩)))
  rw [if_neg ‹_›] at h
  split
  · rw [if_pos ‹_›, Bool.and_eq_true] at h
    rcases Option.isSome_iff_exists.mp h.1 with ⟨name, hname⟩
    rcases Option.isSome_iff_exists.mp h.2 with ⟨minimum, hmin⟩
    simp only [evalRole, hname, hmin]
    exact evaluable_ite _
  · rw [if_neg ‹_›] at h
    cases h

theorem evalExpr_cases
    (b : Ballot) (levels : Nat) (expr : Json) :
    (exists op arg items, (op = "any_of" ∨ op = "all_of") ∧
      expr.asObject = some [(op, arg)] ∧ arg.asArray = some items ∧
      forall b elig got, evalExpr Rat b elig got (levels + 1) expr =
        evalItems (op == "any_of") (evalExpr Rat b elig got levels) none items) ∨
    (exists op arg, ¬ (op = "any_of" ∨ op = "all_of") ∧ expr.asObject = some [(op, arg)] ∧
      forall b elig got, evalExpr Rat b elig got (levels + 1) expr =
        evalLeaf Rat b elig got op arg) ∨
    (exprEvaluable b (levels + 1) expr = false ∧
      exists reason, forall b elig got,
        evalExpr Rat b elig got (levels + 1) expr = unevaluable reason) := by
  by_cases hobj : exists op arg, expr.asObject = some [(op, arg)]
  · rcases hobj with ⟨op, arg, hobj⟩
    by_cases hop : op = "any_of" ∨ op = "all_of"
    · cases harr : exprItems arg with
      | nil =>
          refine Or.inr (Or.inr ⟨?_, s!"{op} takes a non-empty array", ?_⟩)
          · simp [exprEvaluable, hobj, hop, harr]
          · intro b elig got
            simp only [evalExpr, hobj]
            rw [if_pos hop]
            split
            · rename_i heq
              simp [exprItems, heq] at harr
            · rfl
      | cons item rest =>
          have hitems : arg.asArray = some (item :: rest) := by
            cases heq : arg.asArray with
            | none => simp [exprItems, heq] at harr
            | some items => simpa [exprItems, heq] using harr
          refine Or.inl ⟨op, arg, item :: rest, hop, hobj, hitems, ?_⟩
          intro b elig got
          simp only [evalExpr, hobj, hitems]
          exact if_pos hop
    · refine Or.inr (Or.inl ⟨op, arg, hop, hobj, ?_⟩)
      intro b elig got
      simp only [evalExpr, hobj]
      exact if_neg hop
  · refine Or.inr (Or.inr ⟨?_, "a custom expression node is an object with exactly one key", ?_⟩)
    · unfold exprEvaluable
      split
      · rename_i op arg heq
        exact absurd ⟨op, arg, heq⟩ hobj
      · rfl
    · intro b elig got
      unfold evalExpr
      split
      · rename_i op arg heq
        exact absurd ⟨op, arg, heq⟩ hobj
      · rfl

theorem evalExpr_evaluable
    (hpast : PastGuards b) (levels : Nat) :
    forall expr, exprEvaluable b levels expr = true ->
      (evalExpr Rat b (eligible b) (counted (eligible b) b.signers) levels expr).Evaluable := by
  induction levels with
  | zero =>
      intro expr h
      cases h
  | succ levels ih =>
      intro expr h
      rcases evalExpr_cases b levels expr with ⟨op, arg, items, hop, hobj, harr, heval⟩ |
        ⟨op, arg, hop, hobj, heval⟩ | ⟨hfalse, -⟩
      · simp only [exprEvaluable, hobj, hop, if_true, exprItems, harr, Option.getD_some,
          Bool.and_eq_true, List.all_eq_true] at h
        rw [heval]
        refine evalItems_evaluable _ items ?_ none
        intro i hi
        exact ih i (h.2 i hi)
      · simp only [exprEvaluable, hobj, hop, if_false] at h
        rw [heval]
        exact evalLeaf_evaluable op arg hpast h
      · rw [hfalse] at h
        cases h

theorem growsWith_allOf
    (hpast : PastGuards (b.signedBy T)) {underAny : Bool} {levels : Nat} {items : List Json}
    (hkeeps : forall i, i ∈ items ->
      Keeps (evalExpr Rat b (eligible b) (counted (eligible b) b.signers) levels i)
        (evalExpr Rat (b.signedBy T) (eligible b) (counted (eligible b) T) levels i))
    (hevaluable : underAny = true -> forall i, i ∈ items -> exprEvaluable b levels i = true) :
    GrowsWith underAny
      (evalItems false (evalExpr Rat b (eligible b) (counted (eligible b) b.signers) levels)
        none items)
      (evalItems false (evalExpr Rat (b.signedBy T) (eligible b) (counted (eligible b) T) levels)
        none items) := by
  have hall := evalItems_all_keeps items hkeeps
  refine ⟨hall, fun hunder => hall.improves ?_⟩
  refine evalItems_evaluable _ items ?_ none
  intro i hi
  apply evalExpr_evaluable hpast levels i
  rw [exprEvaluable_signedBy]
  exact hevaluable hunder i hi

theorem evalExpr_growsWith
    (hST : b.signers ⊆ T) (hpast : PastGuards b) (levels : Nat) :
    forall underAny expr,
      shortCircuitSafe b underAny levels expr = true ->
      (forall r, r ∈ exprRubrics levels expr -> RubricGrows b T r) ->
      GrowsWith underAny
        (evalExpr Rat b (eligible b) (counted (eligible b) b.signers) levels expr)
        (evalExpr Rat (b.signedBy T) (eligible b) (counted (eligible b) T) levels expr) := by
  induction levels with
  | zero =>
      intro underAny expr _ _
      exact (Improves.refl _).growsWith
  | succ levels ih =>
      intro underAny expr hsafe hgrows
      rcases evalExpr_cases b levels expr with ⟨op, arg, items, hop, hobj, harr, heval⟩ |
        ⟨op, arg, hop, hobj, heval⟩ | ⟨-, reason, heval⟩
      · rw [heval, heval]
        have hrubrics : forall i, i ∈ items ->
            forall r, r ∈ exprRubrics levels i -> RubricGrows b T r := by
          intro i hi r hr
          apply hgrows r
          simp only [exprRubrics, hobj, hop, if_true, exprItems, harr, Option.getD_some]
          exact List.mem_flatMap.mpr ⟨i, hi, hr⟩
        by_cases hany : op = "any_of"
        · subst hany
          have hall : forall i, i ∈ items -> shortCircuitSafe b true levels i = true := by
            simpa [shortCircuitSafe, hobj, exprItems, harr] using hsafe
          apply Improves.growsWith
          refine evalItems_any_improves items ?_ none none
          intro i hi
          exact (ih true i (hall i hi) (hrubrics i hi)).improves rfl
        · have hallOf : op = "all_of" := hop.resolve_left hany
          subst hallOf
          have hall : forall i, i ∈ items -> shortCircuitSafe b false levels i = true ∧
              (underAny = false ∨ exprEvaluable b levels i = true) := by
            simpa [shortCircuitSafe, hobj, exprItems, harr] using hsafe
          apply growsWith_allOf (hpast.signedBy hST)
          · intro i hi
            exact (ih false i (hall i hi).1 (hrubrics i hi)).keeps
          · intro hunder i hi
            simpa [hunder] using (hall i hi).2
      · rw [heval, heval]
        apply Improves.growsWith
        apply evalLeaf_improves op arg hST hpast
        intro hweighted r hr
        apply hgrows r
        simp [exprRubrics, hobj, hweighted, hr]
      · rw [heval, heval]
        exact (Improves.refl _).growsWith

end Custom

/-!
## Signer monotonicity
-/

theorem evaluateOpenSelfAdmit_keeps
    {b : Ballot} {T : Finset String} (hST : b.signers ⊆ T) :
    Keeps (evaluateOpenSelfAdmit b (counted (eligible b) b.signers))
      (evaluateOpenSelfAdmit (b.signedBy T) (counted (eligible b) T)) := by
  have hvoices :
      Keeps (evaluateOpenSelfAdmitVoices b (counted (eligible b) b.signers))
        (evaluateOpenSelfAdmitVoices (b.signedBy T) (counted (eligible b) T)) := by
    have hle := voicesBesides_le_of_sublist b.subject (counted_sublist_of_subset (eligible b) hST)
    refine (improves_ite _ _ ?_).keeps
    exact fun h => Nat.le_trans h hle
  unfold evaluateOpenSelfAdmit
  simp only [Ballot.signedBy_subkind, Ballot.signedBy_direction, Ballot.signedBy_subject,
    Ballot.signedBy_signers, seated_signedBy]
  split
  · exact id
  split
  · split
    · exact hvoices
    · exact (improves_ite _ _ fun hsigned => hST hsigned).keeps
  · exact hvoices

/-- What a declaration has to satisfy for further signatures `T` to be harmless. -/
structure SignaturesOnlyHelp (b : Ballot) (T : Finset String) : Prop where
  rubrics : forall rubric, NamesRubric b rubric -> RubricGrows b T rubric
  nodes : forall id expr,
    Text.stripPrefix ConsensusProtocol.customPrefix b.protocol = some id ->
    declaredExpr b id = some expr ->
    shortCircuitSafe b false (maxCustomDepth + 1) expr = true

theorem evaluate_signers_monotone
    [External] (b : Ballot) (T : Finset String)
    (hST : b.signers ⊆ T)
    (hdecl : SignaturesOnlyHelp b T)
    (hadmitted : evaluate Rat b = Verdict.admitted) :
    evaluate Rat (b.signedBy T) = Verdict.admitted := by
  cases evaluateForm_admit_cases Rat hadmitted with
  | inl hcase =>
      have hkeeps := evaluateOpenSelfAdmit_keeps hST hcase.2
      simpa [evaluate, evaluateForm, hcase.1] using hkeeps
  | inr hcase =>
      rcases hcase with ⟨hopen, hself, hsigner⟩
      have hpast : PastGuards b := ⟨hself, hsigner⟩
      have hcustom : forall id,
          Text.stripPrefix ConsensusProtocol.customPrefix b.protocol = some id ->
          Keeps (evalCustom Rat b id) (evalCustom Rat (b.signedBy T) id) := by
        intro id hid
        unfold evalCustom
        cases hexpr : declaredExpr b id with
        | none =>
            rw [show (b.signedBy T).policyBlob = b.policyBlob from rfl,
              show (b.policyBlob.bind (·.get? "custom")).bind (·.get? id) = none from hexpr]
            exact fun h => h
        | some expr =>
            rw [show (b.signedBy T).policyBlob = b.policyBlob from rfl,
              show (b.policyBlob.bind (·.get? "custom")).bind (·.get? id) = some expr
                from hexpr]
            exact (evalExpr_growsWith hST hpast (maxCustomDepth + 1) false expr
              (hdecl.nodes id expr hid hexpr)
              (fun r hr => hdecl.rubrics r (Or.inr ⟨id, expr, hid, hexpr, hr⟩))).1
      have harms := (evaluateArms_improves (evalCustom Rat b) (evalCustom Rat (b.signedBy T))
        hST (fun r hr => hdecl.rubrics r (Or.inl hr)) hcustom).1
      rw [evaluate, evaluateForm_eq_arms Rat _ hopen hpast] at hadmitted
      rw [evaluate, evaluateForm_eq_arms (b := b.signedBy T) Rat _ hopen (hpast.signedBy hST)]
      exact harms hadmitted

section Samples

open Reference

def rubricBallot (bobWeight : Int) : Ballot where
  protocol := "weighted:votes"
  subkind := none
  policyBlob := some (.obj [("rubrics", .obj [("votes", .obj
    [("weights", .obj [("ada", .num (.int 2)),
        ("bob", .num (.int bobWeight))]),
      ("threshold", .num (.int 2))])])])
  roster := [⟨"ada", some memberRoleFounder, false⟩, ⟨"bob", none, false⟩]
  signers := {"ada"}
  direction := .add
  subject := some "carol"

/-- The first branch of the `any_of` ends in a node nobody defined. -/
def councilBallot : Ballot where
  protocol := "custom:council"
  subkind := none
  policyBlob := some (.obj [("custom", .obj [("council", .obj
    [("any_of", .arr
      [.obj [("all_of", .arr
        [.obj [("majority", .obj [])], .obj [("veto", .obj [])]])],
       .obj [("founder", .obj [])]])])])])
  roster := [⟨"ada", some memberRoleFounder, false⟩, ⟨"bob", none, false⟩]
  signers := {"ada"}
  direction := .add
  subject := some "carol"

theorem further_signature_revokes :
    evaluate Rat (rubricBallot (-1)) = .admitted ∧
      evaluate Rat ((rubricBallot (-1)).signedBy {"ada", "bob"}) ≠ .admitted ∧
      evaluate Rat councilBallot = .admitted ∧
      evaluate Rat (councilBallot.signedBy {"ada", "bob"}) ≠ .admitted := by
  decide +kernel

theorem rubricBallot_monotone :
    evaluate Rat ((rubricBallot 1).signedBy {"ada", "bob"}) = .admitted := by
  refine evaluate_signers_monotone (rubricBallot 1) {"ada", "bob"} (by decide) ?_
    (by decide +kernel)
  have hnot : Text.stripPrefix ConsensusProtocol.customPrefix
      (rubricBallot 1).protocol = none := by
    decide
  refine ⟨?_, ?_⟩
  · intro rubric hnames _ decl hdecl
    have hrubric : "votes" = rubric := by
      rcases hnames with hr | ⟨id, -, hid, -⟩
      · exact Option.some.inj ((by decide : _ = some "votes").symm.trans hr)
      · simp [hnot] at hid
    subst hrubric
    cases hdecl
    decide +kernel
  · intro id expr hid
    simp [hnot] at hid

end Samples

end CirisPersist.Federation
