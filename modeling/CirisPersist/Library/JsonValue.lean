import CirisPersist.Library.Scanning
import CirisPersist.Library.Sorting
import Mathlib.Data.List.Nodup

/-!
# JSON values as key-value maps

A value as a reader of JSON text builds it.  A number is the token it was written with,
and an object is the list of its members in the order they came.

Two values are the same when they differ in the order of members only, at any depth.
Sorting the members of every object gives a normal form of that relation on the values
whose objects repeat no key.
-/

namespace CirisPersist.JsonText

/-!
## Number tokens
-/

def isNumberChar (c : Char) : Bool :=
  c.isDigit || c == '-' || c == '+' || c == '.' || c == 'e' || c == 'E'

def integerScan : Scan :=
  Scan.either (Scan.one (· == '0'))
    (Scan.seq (Scan.one fun c => c.isDigit && c != '0') (Scan.many Char.isDigit))

def digitsScan : Scan :=
  Scan.seq (Scan.one Char.isDigit) (Scan.many Char.isDigit)

def numberScan : Scan :=
  Scan.seq (Scan.maybe (Scan.one (· == '-')))
    (Scan.seq integerScan
      (Scan.seq (Scan.maybe (Scan.seq (Scan.one (· == '.')) digitsScan))
        (Scan.maybe (Scan.seq (Scan.one fun c => c == 'e' || c == 'E')
          (Scan.seq (Scan.maybe (Scan.one fun c => c == '+' || c == '-')) digitsScan)))))

theorem isNumberChar_of_isDigit
    {c : Char} (hc : c.isDigit = true) :
    isNumberChar c = true := by
  simp [isNumberChar, hc]

theorem over_digitsScan : Scan.Over isNumberChar digitsScan :=
  Scan.over_seq (Scan.over_one fun _ => isNumberChar_of_isDigit)
    (Scan.over_many fun _ => isNumberChar_of_isDigit)

theorem over_integerScan : Scan.Over isNumberChar integerScan := by
  apply Scan.over_either
  · apply Scan.over_one
    intro c hc
    simp [isNumberChar, beq_iff_eq.mp hc]
  · apply Scan.over_seq
    · apply Scan.over_one
      intro c hc
      exact isNumberChar_of_isDigit (Bool.and_eq_true_iff.mp hc).1
    · exact Scan.over_many fun _ => isNumberChar_of_isDigit

theorem over_numberScan : Scan.Over isNumberChar numberScan := by
  apply Scan.over_seq
  · apply Scan.over_maybe
    apply Scan.over_one
    intro c hc
    simp [isNumberChar, beq_iff_eq.mp hc]
  · apply Scan.over_seq over_integerScan
    apply Scan.over_seq
    · apply Scan.over_maybe
      apply Scan.over_seq _ over_digitsScan
      apply Scan.over_one
      intro c hc
      simp [isNumberChar, beq_iff_eq.mp hc]
    · apply Scan.over_maybe
      apply Scan.over_seq
      · apply Scan.over_one
        intro c hc
        rcases Bool.or_eq_true_iff.mp hc with he | he
        · simp [isNumberChar, beq_iff_eq.mp he]
        · simp [isNumberChar, beq_iff_eq.mp he]
      · apply Scan.over_seq _ over_digitsScan
        apply Scan.over_maybe
        apply Scan.over_one
        intro c hc
        rcases Bool.or_eq_true_iff.mp hc with hsign | hsign
        · simp [isNumberChar, beq_iff_eq.mp hsign]
        · simp [isNumberChar, beq_iff_eq.mp hsign]

structure NumberToken where
  text : List Char
  whole : numberScan text = some (text, [])
deriving DecidableEq

namespace NumberToken

theorem isNumberChar_of_mem
    (t : NumberToken) {c : Char} (hc : c ∈ t.text) :
    isNumberChar c = true :=
  over_numberScan.taken t.text _ t.whole c hc

theorem text_eq_cons
    (t : NumberToken) :
    exists c cs, t.text = c :: cs ∧ isNumberChar c = true := by
  have hwhole := t.whole
  have hchars : forall c, c ∈ t.text -> isNumberChar c = true := fun c => t.isNumberChar_of_mem
  cases htext : t.text with
  | nil =>
      rw [htext] at hwhole
      exact absurd hwhole (by decide)
  | cons c cs =>
      rw [htext] at hchars
      exact ⟨c, cs, rfl, hchars c List.mem_cons_self⟩

/-!
A whole number is written in decimal, with no zero before its first digit.
-/

theorem toDigits_eq_cons
    (n : Nat) (hn : 0 < n) :
    exists c cs, Nat.toDigits 10 n = c :: cs ∧ c ≠ '0' := by
  induction n using Nat.strongRecOn with
  | ind n ih =>
      by_cases hlt : n < 10
      · have hdigit : forall d, d < 10 -> 0 < d -> Nat.digitChar d ≠ '0' := by
          decide
        exact ⟨_, [], Nat.toDigits_of_lt_base hlt, hdigit n hlt hn⟩
      · rcases ih (n / 10) (by omega) (by omega) with ⟨c, cs, hdigits, hc⟩
        rw [Nat.toDigits_of_base_le (by decide) (by omega), hdigits]
        exact ⟨c, _, rfl, hc⟩

theorem integerScan_toDigits
    (n : Nat) :
    integerScan (Nat.toDigits 10 n) = some (Nat.toDigits 10 n, []) := by
  have hdigits : forall c, c ∈ Nat.toDigits 10 n -> c.isDigit = true :=
    fun c => Nat.isDigit_of_mem_toDigits (by decide) (by decide)
  cases Nat.eq_zero_or_pos n with
  | inl hzero =>
      rw [hzero]
      rfl
  | inr hpos =>
      rcases toDigits_eq_cons n hpos with ⟨c, cs, heq, hc⟩
      rw [heq] at hdigits ⊢
      have hrest : forall d, d ∈ cs -> d.isDigit = true :=
        fun d hd => hdigits d (List.mem_cons_of_mem c hd)
      have htake : cs.takeWhile Char.isDigit = cs := List.takeWhile_eq_self_iff.mpr hrest
      have hdrop : cs.dropWhile Char.isDigit = [] := List.dropWhile_eq_nil_iff.mpr hrest
      simp [integerScan, Scan.either, Scan.seq, Scan.one, Scan.many, hc,
        hdigits c List.mem_cons_self, htake, hdrop]

theorem numberScan_integer
    {sign digits : List Char}
    (hsign : Scan.maybe (Scan.one (· == '-')) (sign ++ digits) = some (sign, digits))
    (hdigits : integerScan digits = some (digits, [])) :
    numberScan (sign ++ digits) = some (sign ++ digits, []) := by
  rw [numberScan, Scan.seq, hsign, Option.bind_some, Scan.seq, hdigits]
  show some (sign ++ (digits ++ []), []) = some (sign ++ digits, [])
  rw [List.append_nil]

def ofInt (n : Int) : NumberToken where
  text := (if n < 0 then ['-'] else []) ++ Nat.toDigits 10 n.natAbs
  whole := by
    apply numberScan_integer _ (integerScan_toDigits n.natAbs)
    split
    · rfl
    · have hdigit : forall c, (Nat.toDigits 10 n.natAbs).head? = some c -> c.isDigit = true := by
        intro c hc
        exact Nat.isDigit_of_mem_toDigits (by decide) (by decide) (List.mem_of_mem_head? hc)
      cases hdigits : Nat.toDigits 10 n.natAbs with
      | nil => rfl
      | cons c cs =>
          have hc : c ≠ '-' := by
            intro hminus
            have hfalse := hdigit c (by rw [hdigits]; rfl)
            rw [hminus] at hfalse
            cases hfalse
          simp [Scan.maybe, Scan.either, Scan.one, Scan.skip, hc]

end NumberToken

/-!
## Values
-/

inductive Value where
  | null
  | bool (b : Bool)
  | num (token : NumberToken)
  | str (s : String)
  | arr (items : List Value)
  | obj (members : List (String × Value))

structure Algebra (A : Type) where
  null : A
  bool : Bool -> A
  num : NumberToken -> A
  str : String -> A
  arr : List A -> A
  obj : List (String × A) -> A

namespace Value

theorem induct
    {P : Value -> Prop}
    (hnull : P null) (hbool : forall b, P (bool b)) (hnum : forall t, P (num t))
    (hstr : forall s, P (str s))
    (harr : forall items, (forall x, x ∈ items -> P x) -> P (arr items))
    (hobj : forall members, (forall m, m ∈ members -> P m.2) -> P (obj members))
    (v : Value) :
    P v := by
  match v with
  | null => exact hnull
  | bool b => exact hbool b
  | num t => exact hnum t
  | str s => exact hstr s
  | arr items => exact harr items fun x hx => induct hnull hbool hnum hstr harr hobj x
  | obj members => exact hobj members fun m hm => induct hnull hbool hnum hstr harr hobj m.2
termination_by v
decreasing_by
  · have hlt := List.sizeOf_lt_of_mem hx
    simp only [Value.arr.sizeOf_spec]
    omega
  · have hlt := List.sizeOf_lt_of_mem hm
    have hsnd : sizeOf m.2 < sizeOf m := by
      cases m
      simp only [Prod.mk.sizeOf_spec]
      omega
    simp only [Value.obj.sizeOf_spec]
    omega

section Fold

variable {A : Type} (alg : Algebra A)

mutual

def fold : Value -> A
  | null => alg.null
  | bool b => alg.bool b
  | num t => alg.num t
  | str s => alg.str s
  | arr items => alg.arr (foldItems items)
  | obj members => alg.obj (foldMembers members)

def foldItems : List Value -> List A
  | [] => []
  | v :: rest => fold v :: foldItems rest

def foldMembers : List (String × Value) -> List (String × A)
  | [] => []
  | (k, v) :: rest => (k, fold v) :: foldMembers rest

end

def mapMembers {A B : Type} (f : A -> B) (members : List (String × A)) : List (String × B) :=
  members.map fun m => (m.1, f m.2)

theorem foldItems_eq_map
    (items : List Value) :
    foldItems alg items = items.map (fold alg) := by
  induction items with
  | nil => rfl
  | cons v rest ih => rw [foldItems, ih, List.map_cons]

theorem foldMembers_eq_mapMembers
    (members : List (String × Value)) :
    foldMembers alg members = mapMembers (fold alg) members := by
  induction members with
  | nil => rfl
  | cons m rest ih =>
      rw [foldMembers, ih]
      rfl

@[simp]
theorem fold_arr
    (items : List Value) :
    fold alg (arr items) = alg.arr (items.map (fold alg)) := by
  rw [fold, foldItems_eq_map]

@[simp]
theorem fold_obj
    (members : List (String × Value)) :
    fold alg (obj members) = alg.obj (mapMembers (fold alg) members) := by
  rw [fold, foldMembers_eq_mapMembers]

end Fold

variable {B : Type} {k : String}

theorem mem_mapMembers
    {A : Type} {f : A -> B} {members : List (String × A)} {y : B} :
    (k, y) ∈ mapMembers f members <-> exists x, (k, x) ∈ members ∧ f x = y := by
  simp [mapMembers]

theorem keys_mapMembers
    {A : Type} (f : A -> B) (members : List (String × A)) :
    (mapMembers f members).map Prod.fst = members.map Prod.fst := by
  simp [mapMembers]

theorem mapMembers_mapMembers
    {A C : Type} (g : B -> C) (f : A -> B) (members : List (String × A)) :
    mapMembers g (mapMembers f members) = mapMembers (fun x => g (f x)) members := by
  rw [mapMembers, mapMembers, List.map_map]
  rfl

theorem mapMembers_congr
    {A : Type} {f g : A -> B} {members : List (String × A)}
    (h : forall m, m ∈ members -> f m.2 = g m.2) :
    mapMembers f members = mapMembers g members := by
  apply List.map_congr_left
  intro m hm
  rw [h m hm]

theorem filter_mapMembers
    {A : Type} (f : A -> B) (p : String -> Bool) (members : List (String × A)) :
    (mapMembers f members).filter (fun m => p m.1) =
      mapMembers f (members.filter fun m => p m.1) := by
  rw [mapMembers, List.filter_map]
  rfl

theorem mem_keys_filter
    {A : Type} {p : String -> Bool} {members : List (String × A)} :
    k ∈ (members.filter fun m => p m.1).map Prod.fst <-> k ∈ members.map Prod.fst ∧ p k = true := by
  constructor
  · intro hk
    rcases List.mem_map.mp hk with ⟨m, hm, rfl⟩
    rcases List.mem_filter.mp hm with ⟨hm, hp⟩
    exact ⟨List.mem_map_of_mem hm, hp⟩
  · rintro ⟨hk, hp⟩
    rcases List.mem_map.mp hk with ⟨m, hm, rfl⟩
    exact List.mem_map_of_mem (List.mem_filter.mpr ⟨hm, hp⟩)

/-!
## Values that are the same as maps
-/

inductive Same : Value -> Value -> Prop where
  | null : Same null null
  | bool (b : Bool) : Same (bool b) (bool b)
  | num (t : NumberToken) : Same (num t) (num t)
  | str (s : String) : Same (str s) (str s)
  | arr {items items' : List Value} :
      items.length = items'.length ->
      (forall (i : Nat) x y, items[i]? = some x -> items'[i]? = some y -> Same x y) ->
      Same (arr items) (arr items')
  | obj {members members' : List (String × Value)} :
      (forall k, k ∈ members.map Prod.fst <-> k ∈ members'.map Prod.fst) ->
      (forall k x y, (k, x) ∈ members -> (k, y) ∈ members' -> Same x y) ->
      Same (obj members) (obj members')

def distinctKeys : Value -> Bool :=
  fold {
    null := true
    bool := fun _ => true
    num := fun _ => true
    str := fun _ => true
    arr := fun items => items.all id
    obj := fun members => decide (members.map Prod.fst).Nodup && members.all Prod.snd }

@[simp]
theorem distinctKeys_num
    (t : NumberToken) :
    (num t).distinctKeys = true :=
  rfl

@[simp]
theorem distinctKeys_str
    (s : String) :
    (str s).distinctKeys = true :=
  rfl

theorem distinctKeys_arr
    (items : List Value) :
    (arr items).distinctKeys = true <-> forall x, x ∈ items -> x.distinctKeys = true := by
  simp [distinctKeys]

theorem distinctKeys_obj
    (members : List (String × Value)) :
    (obj members).distinctKeys = true <->
      (members.map Prod.fst).Nodup ∧ forall m, m ∈ members -> m.2.distinctKeys = true := by
  rw [distinctKeys, fold_obj, Bool.and_eq_true, decide_eq_true_iff, keys_mapMembers, mapMembers,
    List.all_map, List.all_eq_true]
  rfl

theorem eq_of_mem_of_nodup
    {A : Type} {members : List (String × A)} (hnodup : (members.map Prod.fst).Nodup) {x y : A}
    (hx : (k, x) ∈ members) (hy : (k, y) ∈ members) :
    x = y :=
  congrArg Prod.snd (List.inj_on_of_nodup_map hnodup hx hy rfl)

theorem same_refl
    (v : Value) (hv : v.distinctKeys = true) :
    Same v v := by
  induction v using induct with
  | hnull => exact .null
  | hbool b => exact .bool b
  | hnum t => exact .num t
  | hstr s => exact .str s
  | harr items ih =>
      rw [distinctKeys_arr] at hv
      apply Same.arr rfl
      intro i x y hx hy
      rw [hx, Option.some.injEq] at hy
      rw [← hy]
      exact ih x (List.mem_of_getElem? hx) (hv x (List.mem_of_getElem? hx))
  | hobj members ih =>
      rw [distinctKeys_obj] at hv
      apply Same.obj (fun _ => Iff.rfl)
      intro k x y hx hy
      rw [eq_of_mem_of_nodup hv.1 hx hy]
      exact ih (k, y) hy (hv.2 (k, y) hy)

variable {members members' : List (String × Value)}

theorem same_of_perm
    (hv : (obj members).distinctKeys = true) (hperm : members.Perm members') :
    Same (obj members) (obj members') := by
  rw [distinctKeys_obj] at hv
  apply Same.obj
  · intro k
    exact (hperm.map Prod.fst).mem_iff
  · intro k x y hx hy
    have hmem := hperm.mem_iff.mpr hy
    rw [eq_of_mem_of_nodup hv.1 hx hmem]
    exact same_refl y (hv.2 (k, y) hmem)

/-!
## The sorted form
-/

section Sorted

variable {K : Type} [LinearOrder K] (key : String -> K)

def sortByKey {A : Type} (members : List (String × A)) : List (String × A) :=
  members.insertionSort fun a b => key a.1 ≤ key b.1

/-- The members of every object in ascending order of their keys. -/
def sorted : Value -> Value :=
  fold {
    null := null
    bool := bool
    num := num
    str := str
    arr := arr
    obj := fun members => obj (sortByKey key members) }

@[simp]
theorem sorted_arr
    (items : List Value) :
    sorted key (arr items) = arr (items.map (sorted key)) := by
  simp [sorted]

@[simp]
theorem sorted_obj
    (members : List (String × Value)) :
    sorted key (obj members) = obj (sortByKey key (mapMembers (sorted key) members)) := by
  simp [sorted]

theorem perm_sortByKey
    {A : Type} (members : List (String × A)) :
    (sortByKey key members).Perm members :=
  List.perm_insertionSort _ members

theorem sortByKey_mapMembers
    {A : Type} (f : A -> B) (members : List (String × A)) :
    sortByKey key (mapMembers f members) = mapMembers f (sortByKey key members) := by
  unfold sortByKey mapMembers
  apply Eq.symm
  apply List.map_insertionSort
  intro a _ b _
  exact Iff.rfl

variable {key}

theorem same_sorted
    (v : Value) (hv : v.distinctKeys = true) :
    Same (sorted key v) v := by
  induction v using induct with
  | hnull => exact .null
  | hbool b => exact .bool b
  | hnum t => exact .num t
  | hstr s => exact .str s
  | harr items ih =>
      rw [distinctKeys_arr] at hv
      rw [sorted_arr]
      apply Same.arr (List.length_map _)
      intro i x y hx hy
      have hmem := List.mem_of_getElem? hy
      rw [List.getElem?_map, hy, Option.map_some, Option.some.injEq] at hx
      rw [← hx]
      exact ih y hmem (hv y hmem)
  | hobj members ih =>
      rw [distinctKeys_obj] at hv
      rw [sorted_obj]
      have hperm := perm_sortByKey key (mapMembers (sorted key) members)
      apply Same.obj
      · intro k
        rw [(hperm.map Prod.fst).mem_iff, keys_mapMembers]
      · intro k x y hx hy
        rcases mem_mapMembers.mp (hperm.mem_iff.mp hx) with ⟨z, hz, rfl⟩
        rw [eq_of_mem_of_nodup hv.1 hz hy]
        exact ih (k, y) hy (hv.2 (k, y) hy)

theorem same_arr_of_map_eq
    {items items' : List Value} (h : items.map (sorted key) = items'.map (sorted key))
    (hsame : forall x y, x ∈ items -> y ∈ items' -> sorted key x = sorted key y -> Same x y) :
    Same (arr items) (arr items') := by
  apply Same.arr
  · simpa using congrArg List.length h
  · intro i x y hx hy
    have hsorted := congrArg (fun l => l[i]?) h
    simp only [List.getElem?_map, hx, hy, Option.map_some, Option.some.injEq] at hsorted
    exact hsame x y (List.mem_of_getElem? hx) (List.mem_of_getElem? hy) hsorted

theorem same_obj_of_perm
    (hnodup : (members'.map Prod.fst).Nodup)
    (hperm : (mapMembers (sorted key) members).Perm (mapMembers (sorted key) members'))
    (hsame : forall m m', m ∈ members -> m' ∈ members' -> sorted key m.2 = sorted key m'.2 ->
      Same m.2 m'.2) :
    Same (obj members) (obj members') := by
  apply Same.obj
  · intro k
    have hkeys := (hperm.map Prod.fst).mem_iff (a := k)
    rwa [keys_mapMembers, keys_mapMembers] at hkeys
  · intro k x y hx hy
    rcases mem_mapMembers.mp (hperm.mem_iff.mp (mem_mapMembers.mpr ⟨x, hx, rfl⟩)) with
      ⟨z, hz, hsorted⟩
    rw [eq_of_mem_of_nodup hnodup hz hy] at hsorted
    exact hsame (k, x) (k, y) hx hy hsorted.symm

theorem same_of_sorted_eq
    (u : Value) :
    forall v, u.distinctKeys = true -> v.distinctKeys = true -> sorted key u = sorted key v ->
      Same u v := by
  induction u using induct with
  | hnull =>
      intro v hu hv h
      cases v with
      | null => exact .null
      | _ => cases h
  | hbool b =>
      intro v hu hv h
      cases v with
      | bool b' =>
          cases h
          exact .bool b
      | _ => cases h
  | hnum t =>
      intro v hu hv h
      cases v with
      | num t' =>
          cases h
          exact .num t
      | _ => cases h
  | hstr s =>
      intro v hu hv h
      cases v with
      | str s' =>
          cases h
          exact .str s
      | _ => cases h
  | harr items ih =>
      intro v hu hv h
      cases v with
      | arr items' =>
          rw [distinctKeys_arr] at hu hv
          rw [sorted_arr, sorted_arr, arr.injEq] at h
          apply same_arr_of_map_eq h
          intro x y hx hy
          exact ih x hx y (hu x hx) (hv y hy)
      | _ => cases h
  | hobj members ih =>
      intro v hu hv h
      cases v with
      | obj members' =>
          rw [distinctKeys_obj] at hu hv
          rw [sorted_obj, sorted_obj, obj.injEq] at h
          -- equal after sorting, so one list is a permutation of the other
          have hperm := perm_sortByKey key (mapMembers (sorted key) members)
          rw [h] at hperm
          apply same_obj_of_perm hv.1 (hperm.symm.trans (perm_sortByKey key _))
          intro m m' hm hm'
          exact ih m hm m'.2 (hu.2 m hm) (hv.2 m' hm')
      | _ => cases h

theorem mem_mapMembers_of_same
    (hkeys : forall k, k ∈ members.map Prod.fst -> k ∈ members'.map Prod.fst)
    (hsorted : forall k x y, (k, x) ∈ members -> (k, y) ∈ members' -> sorted key x = sorted key y)
    {m : String × Value} (hm : m ∈ mapMembers (sorted key) members) :
    m ∈ mapMembers (sorted key) members' := by
  rcases mem_mapMembers.mp hm with ⟨x, hx, hsame⟩
  rcases List.mem_map.mp (hkeys m.1 (List.mem_map.mpr ⟨(m.1, x), hx, rfl⟩)) with ⟨m', hm', hkey⟩
  have hy : (m.1, m'.2) ∈ members' := by
    rw [← hkey]
    exact hm'
  apply mem_mapMembers.mpr
  exact ⟨m'.2, hy, (hsorted m.1 x m'.2 hx hy).symm.trans hsame⟩

theorem sorted_eq_of_same
    (hinj : Function.Injective key) {u v : Value} (h : Same u v) :
    u.distinctKeys = true -> v.distinctKeys = true -> sorted key u = sorted key v := by
  induction h with
  | null => exact fun _ _ => rfl
  | bool b => exact fun _ _ => rfl
  | num t => exact fun _ _ => rfl
  | str s => exact fun _ _ => rfl
  | @arr items items' hlength hsame ih =>
      intro hu hv
      rw [distinctKeys_arr] at hu hv
      rw [sorted_arr, sorted_arr, arr.injEq]
      apply List.ext_getElem
      · simpa using hlength
      · intro i hi hi'
        rw [List.length_map] at hi hi'
        simp only [List.getElem_map]
        exact ih i _ _ (List.getElem?_eq_getElem hi) (List.getElem?_eq_getElem hi')
          (hu _ (List.getElem_mem hi)) (hv _ (List.getElem_mem hi'))
  | @obj members members' hkeys hsame ih =>
      intro hu hv
      rw [distinctKeys_obj] at hu hv
      have hsorted : forall k x y, (k, x) ∈ members -> (k, y) ∈ members' ->
          sorted key x = sorted key y :=
        fun k x y hx hy => ih k x y hx hy (hu.2 (k, x) hx) (hv.2 (k, y) hy)
      -- no key repeats, so lists with the same members are permutations and sort alike
      have hnodup := (keys_mapMembers (sorted key) members).symm ▸ hu.1
      have hnodup' := (keys_mapMembers (sorted key) members').symm ▸ hv.1
      have hperm : (mapMembers (sorted key) members').Perm (mapMembers (sorted key) members) := by
        rw [List.perm_ext_iff_of_nodup hnodup'.of_map hnodup.of_map]
        intro m
        constructor
        · exact mem_mapMembers_of_same (fun k => (hkeys k).mpr)
            fun k x y hx hy => (hsorted k y x hy hx).symm
        · exact mem_mapMembers_of_same (fun k => (hkeys k).mp) hsorted
      rw [sorted_obj, sorted_obj, obj.injEq]
      apply Eq.symm
      apply Sorting.insertionSort_eq_of_perm (fun _ _ => Iff.rfl) _ hperm
      intro a ha b hb hkey
      exact List.inj_on_of_nodup_map hnodup ha hb (hinj hkey)

theorem sorted_eq_iff_same
    (hinj : Function.Injective key) {u v : Value} (hu : u.distinctKeys = true)
    (hv : v.distinctKeys = true) :
    sorted key u = sorted key v <-> Same u v :=
  ⟨same_of_sorted_eq u v hu hv, fun h => sorted_eq_of_same hinj h hu hv⟩

end Sorted

end Value
end CirisPersist.JsonText
