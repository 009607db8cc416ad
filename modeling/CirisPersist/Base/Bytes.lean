import Mathlib.Algebra.Group.Nat.Defs
import Mathlib.Data.List.Basic

/-!
# Big-endian numbers and content keys
-/

namespace CirisPersist

def bigEndian : Nat -> Nat -> List UInt8
  | 0, _ => []
  | width + 1, n => bigEndian width (n / 256) ++ [UInt8.ofNat n]

def u32Be (n : UInt32) : List UInt8 :=
  bigEndian 4 n.toNat

def u64Be (n : UInt64) : List UInt8 :=
  bigEndian 8 n.toNat

@[simp]
theorem length_bigEndian
    (width : Nat) :
    forall n, (bigEndian width n).length = width := by
  induction width with
  | zero =>
      intro n
      rfl
  | succ width ih =>
      intro n
      rw [bigEndian, List.length_append, ih, List.length_singleton]

theorem bigEndian_inj
    (width : Nat) {n m : Nat} (hn : n < 256 ^ width) (hm : m < 256 ^ width)
    (heq : bigEndian width n = bigEndian width m) :
    n = m := by
  induction width generalizing n m with
  | zero => omega
  | succ width ih =>
      rw [bigEndian, bigEndian] at heq
      rcases List.append_inj' heq rfl with ⟨hinit, hlast⟩
      have hhigh : n / 256 = m / 256 := by
        rw [Nat.pow_succ] at hn hm
        exact ih (Nat.div_lt_of_lt_mul (by omega)) (Nat.div_lt_of_lt_mul (by omega)) hinit
      have hlow : n % 256 = m % 256 := by
        have hbyte := congrArg UInt8.toNat (List.singleton_injective hlast)
        simpa using hbyte
      omega

@[simp]
theorem length_u64Be
    (n : UInt64) :
    (u64Be n).length = 8 :=
  length_bigEndian 8 n.toNat

theorem u64Be_inj
    {n m : UInt64} (h : u64Be n = u64Be m) :
    n = m := by
  have hn := n.toNat_lt
  have hm := m.toNat_lt
  exact UInt64.toNat_inj.mp (bigEndian_inj 8 (by omega) (by omega) h)

theorem u32Be_inj
    {n m : UInt32} (h : u32Be n = u32Be m) :
    n = m := by
  have hn := n.toNat_lt
  have hm := m.toNat_lt
  exact UInt32.toNat_inj.mp (bigEndian_inj 4 (by omega) (by omega) h)

/-!
## Fields behind their length
-/

theorem lengthPrefixed_append_inj
    {field field' rest rest' : List UInt8}
    (hfield : field.length < 2 ^ 64) (hfield' : field'.length < 2 ^ 64)
    (h : u64Be (UInt64.ofNat field.length) ++ (field ++ rest) =
      u64Be (UInt64.ofNat field'.length) ++ (field' ++ rest')) :
    field = field' ∧ rest = rest' := by
  rcases List.append_inj h (by simp) with ⟨hlengths, htail⟩
  have hlength : field.length = field'.length := by
    have hcount := congrArg UInt64.toNat (u64Be_inj hlengths)
    rw [UInt64.toNat_ofNat_of_lt' hfield, UInt64.toNat_ofNat_of_lt' hfield'] at hcount
    exact hcount
  exact List.append_inj htail hlength

theorem toList_loop_eq_drop
    (bytes : ByteArray) (i : Nat) (taken : List UInt8) :
    ByteArray.toList.loop bytes i taken = taken.reverse ++ bytes.data.toList.drop i := by
  induction i, taken using ByteArray.toList.loop.induct bytes with
  | case1 i taken hi ih =>
      have hi' : i < bytes.data.toList.length := by simpa using hi
      have hbyte : bytes.get! i = bytes.data.toList[i] := by
        rw [ByteArray.get!, getElem!_pos bytes.data i (by simpa using hi), Array.getElem_toList]
      rw [ByteArray.toList.loop, if_pos hi, ih, hbyte, List.drop_eq_getElem_cons hi',
        List.reverse_cons, List.append_assoc, List.singleton_append]
  | case2 i taken hi =>
      have hlength : bytes.data.toList.length ≤ i := by simpa using hi
      rw [ByteArray.toList.loop, if_neg hi, List.drop_eq_nil_of_le hlength, List.append_nil]

theorem toList_eq_data
    (bytes : ByteArray) :
    bytes.toList = bytes.data.toList := by
  rw [ByteArray.toList, toList_loop_eq_drop, List.reverse_nil, List.nil_append, List.drop_zero]

theorem length_toUTF8_toList
    (s : String) :
    s.toUTF8.toList.length = s.utf8ByteSize := by
  rw [toList_eq_data, Array.length_toList]
  rfl

theorem toUTF8_toList_inj
    {s s' : String} (h : s.toUTF8.toList = s'.toUTF8.toList) :
    s = s' := by
  rw [toList_eq_data, toList_eq_data, Array.toList_inj] at h
  exact String.toByteArray_inj.mp (ByteArray.ext h)

theorem toList_toUTF8_ofList
    (cs : List Char) :
    (String.ofList cs).toUTF8.toList = cs.flatMap String.utf8EncodeChar := by
  rw [toList_eq_data]
  show (String.ofList cs).toByteArray.data.toList = _
  rw [String.toByteArray_ofList, List.utf8Encode, List.toList_data_toByteArray]

theorem toNat_lt_of_mem_toUTF8
    {cs : List Char} (hcs : forall c, c ∈ cs -> c.toNat < 128) {b : UInt8}
    (hb : b ∈ (String.ofList cs).toUTF8.toList) :
    b.toNat < 128 := by
  rw [toList_toUTF8_ofList, List.mem_flatMap] at hb
  rcases hb with ⟨c, hc, hbyte⟩
  have hlt : c.val.toNat < 128 := hcs c hc
  have hone : c.utf8Size = 1 := by
    rw [Char.utf8Size_eq_one_iff, UInt32.le_iff_toNat_le]
    exact Nat.le_of_lt_succ hlt
  rw [String.utf8EncodeChar_eq_singleton hone, List.mem_singleton] at hbyte
  rw [hbyte, UInt32.toNat_toUInt8]
  omega

abbrev Dek :=
  Vector UInt8 32

def Dek.zero : Dek :=
  Vector.replicate 32 0

end CirisPersist
