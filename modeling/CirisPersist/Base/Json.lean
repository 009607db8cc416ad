import Mathlib.Algebra.Ring.Int.Defs
import Mathlib.Data.Rat.Defs

/-!
# JSON values

The signed envelopes and the `policy_blob` of a group record are JSON.  The
accessors follow `serde_json::Value`: each returns `none` on a value of another
kind, and a lookup in anything but an object finds nothing.
-/

namespace CirisPersist

inductive JsonNumber where
  | int (n : Int)
  | float (q : Rat)
deriving DecidableEq

inductive Json where
  | null
  | bool (b : Bool)
  | num (n : JsonNumber)
  | str (s : String)
  | arr (items : List Json)
  | obj (fields : List (String × Json))

namespace Json

/-!
## Induction

A result about every value needs the members of an object and the elements of an
array, and nothing about the lists that hold them.
-/

theorem induct
    {P : Json -> Prop}
    (hscalar : forall v, (forall items, v ≠ arr items) -> (forall fields, v ≠ obj fields) -> P v)
    (harr : forall items, (forall x, x ∈ items -> P x) -> P (arr items))
    (hobj : forall fields, (forall f, f ∈ fields -> P f.2) -> P (obj fields)) (v : Json) :
    P v := by
  match v with
  | null => exact hscalar null nofun nofun
  | bool b => exact hscalar (bool b) nofun nofun
  | num n => exact hscalar (num n) nofun nofun
  | str s => exact hscalar (str s) nofun nofun
  | arr items => exact harr items fun x hx => induct hscalar harr hobj x
  | obj fields => exact hobj fields fun f hf => induct hscalar harr hobj f.2
termination_by v
decreasing_by
  · have hlt := List.sizeOf_lt_of_mem hx
    simp only [Json.arr.sizeOf_spec]
    omega
  · have hlt := List.sizeOf_lt_of_mem hf
    have hsnd : sizeOf f.2 < sizeOf f := by
      cases f
      simp only [Prod.mk.sizeOf_spec]
      omega
    simp only [Json.obj.sizeOf_spec]
    omega

/-!
## Equality
-/

mutual

def decEq : (a b : Json) -> Decidable (a = b)
  | null, null => isTrue rfl
  | bool a, bool b => decidable_of_iff (a = b) (by simp)
  | num a, num b => decidable_of_iff (a = b) (by simp)
  | str a, str b => decidable_of_iff (a = b) (by simp)
  | arr a, arr b =>
      match decEqItems a b with
      | isTrue h => isTrue (congrArg arr h)
      | isFalse h => isFalse fun e => h (arr.inj e)
  | obj a, obj b =>
      match decEqFields a b with
      | isTrue h => isTrue (congrArg obj h)
      | isFalse h => isFalse fun e => h (obj.inj e)
  | null, bool _ | null, num _ | null, str _ | null, arr _ | null, obj _
  | bool _, null | bool _, num _ | bool _, str _ | bool _, arr _ | bool _, obj _
  | num _, null | num _, bool _ | num _, str _ | num _, arr _ | num _, obj _
  | str _, null | str _, bool _ | str _, num _ | str _, arr _ | str _, obj _
  | arr _, null | arr _, bool _ | arr _, num _ | arr _, str _ | arr _, obj _
  | obj _, null | obj _, bool _ | obj _, num _ | obj _, str _ | obj _, arr _ =>
      isFalse nofun

def decEqItems : (a b : List Json) -> Decidable (a = b)
  | [], [] => isTrue rfl
  | [], _ :: _ => isFalse nofun
  | _ :: _, [] => isFalse nofun
  | x :: xs, y :: ys =>
      match decEq x y, decEqItems xs ys with
      | isTrue h, isTrue hs => isTrue (h ▸ hs ▸ rfl)
      | isFalse h, _ => isFalse fun e => h (List.cons.inj e).1
      | _, isFalse hs => isFalse fun e => hs (List.cons.inj e).2

def decEqFields : (a b : List (String × Json)) -> Decidable (a = b)
  | [], [] => isTrue rfl
  | [], _ :: _ => isFalse nofun
  | _ :: _, [] => isFalse nofun
  | (k, x) :: xs, (l, y) :: ys =>
      match decEq x y, decEqFields xs ys with
      | isTrue h, isTrue hs =>
          if hk : k = l then isTrue (h ▸ hs ▸ hk ▸ rfl)
          else isFalse fun e => hk (Prod.mk.inj (List.cons.inj e).1).1
      | isFalse h, _ => isFalse fun e => h (Prod.mk.inj (List.cons.inj e).1).2
      | _, isFalse hs => isFalse fun e => hs (List.cons.inj e).2

end

instance : DecidableEq Json :=
  decEq

/-!
## Accessors
-/

def asBool : Json -> Option Bool
  | bool b => some b
  | _ => none

def asStr : Json -> Option String
  | str s => some s
  | _ => none

def asNumber : Json -> Option JsonNumber
  | num n => some n
  | _ => none

def asU64 : Json -> Option Nat
  | num (.int n) => if 0 ≤ n && n < 2 ^ 64 then some n.toNat else none
  | _ => none

def asI64 : Json -> Option Int
  | num (.int n) => if -2 ^ 63 ≤ n && n < 2 ^ 63 then some n else none
  | _ => none

def asArray : Json -> Option (List Json)
  | arr items => some items
  | _ => none

def asObject : Json -> Option (List (String × Json))
  | obj fields => some fields
  | _ => none

def get? (v : Json) (key : String) : Option Json :=
  match v with
  | obj fields => fields.lookup key
  | _ => none

/-- `v.get(key).and_then(Value::as_str)`. -/
def getStr? (v : Json) (key : String) : Option String :=
  (v.get? key).bind asStr

def getU64? (v : Json) (key : String) : Option Nat :=
  (v.get? key).bind asU64

def getI64? (v : Json) (key : String) : Option Int :=
  (v.get? key).bind asI64

end Json
end CirisPersist
