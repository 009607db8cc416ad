import Mathlib.Data.List.Induction
import Mathlib.Logic.Function.Basic

/-!
# Hash-linked chains

An entry carries a sequence number and the hash of its predecessor.  A chain is
linked when the numbers are dense and every entry points at the one before it.
Linking splits at any point of the chain, and without collisions the last hash
determines every entry.
-/

namespace HashChain

variable {E H : Type*} (seq : E -> Nat) (prev hash : E -> H)

/-- The entries number up from `n`, and the first one points at `p`. -/
def Linked : Nat -> H -> List E -> Prop
  | _, _, [] => True
  | n, p, e :: rest => seq e = n ∧ prev e = p ∧ Linked (n + 1) (hash e) rest

def headHash (p : H) (entries : List E) : H :=
  entries.foldl (fun _ e => hash e) p

@[simp] theorem headHash_nil
    (p : H) :
    headHash hash p [] = p := rfl

@[simp] theorem headHash_cons
    (p : H) (e : E) (rest : List E) :
    headHash hash p (e :: rest) = headHash hash (hash e) rest := rfl

@[simp] theorem headHash_concat
    (p : H) (entries : List E) (e : E) :
    headHash hash p (entries ++ [e]) = hash e := by
  simp [headHash]

theorem headHash_append
    (p : H) (a b : List E) :
    headHash hash p (a ++ b) = headHash hash (headHash hash p a) b := by
  simp [headHash]

variable {seq prev hash}

variable {n : Nat} {p : H}

theorem linked_append
    {a b : List E} :
    Linked seq prev hash n p (a ++ b) <->
      Linked seq prev hash n p a ∧ Linked seq prev hash (n + a.length) (headHash hash p a) b := by
  induction a generalizing n p with
  | nil => simp [Linked]
  | cons e rest ih =>
      have hlen : n + 1 + rest.length = n + (e :: rest).length := by
        rw [List.length_cons]
        omega
      simp only [List.cons_append, Linked, ih, headHash_cons, hlen, and_assoc]

variable {entries : List E}

theorem seq_of_linked
    (h : Linked seq prev hash n p entries) {i : Nat} {e : E} (hi : entries[i]? = some e) :
    seq e = n + i := by
  induction entries generalizing n p i with
  | nil => simp at hi
  | cons first rest ih =>
      cases i with
      | zero =>
          rw [List.getElem?_cons_zero, Option.some.injEq] at hi
          rw [← hi, h.1, Nat.add_zero]
      | succ i =>
          rw [List.getElem?_cons_succ] at hi
          rw [ih h.2.2 hi]
          omega

theorem seq_lt_of_linked
    (h : Linked seq prev hash n p entries) :
    entries.Pairwise fun e f => seq e < seq f := by
  rw [List.pairwise_iff_getElem]
  intro i j hi hj hij
  have hfirst := seq_of_linked h (List.getElem?_eq_getElem hi)
  have hsecond := seq_of_linked h (List.getElem?_eq_getElem hj)
  omega

theorem filter_seq_le_eq_take
    (h : Linked seq prev hash n p entries) (s : Nat) :
    entries.filter (fun e => decide (seq e ≤ s)) = entries.take (s + 1 - n) := by
  induction entries generalizing n p with
  | nil => simp
  | cons e rest ih =>
      rw [List.filter_cons, h.1, ih h.2.2]
      by_cases hle : n ≤ s
      · have hcount : s + 1 - n = (s + 1 - (n + 1)) + 1 := by
          omega
        simp [hle, hcount]
      · have hnone : s + 1 - n = 0 := by
          omega
        have hnone' : s + 1 - (n + 1) = 0 := by
          omega
        simp [hle, hnone, hnone']

/-- Without collisions the last hash determines the chain.  The induction takes
entries off the end: equal hashes give equal last entries, whose links are the last
hashes of what remains. -/
theorem eq_of_headHash_eq
    (hinj : Function.Injective hash) {a b : List E} {p' : H} (ha : Linked seq prev hash n p a)
    (hb : Linked seq prev hash n p' b) (hane : a ≠ []) (hbne : b ≠ [])
    (h : headHash hash p a = headHash hash p' b) :
    a = b := by
  induction a using List.reverseRecOn generalizing b with
  | nil => exact absurd rfl hane
  | append_singleton a x ih =>
      rcases List.eq_nil_or_concat b with rfl | ⟨b, y, rfl⟩
      · exact absurd rfl hbne
      rw [List.concat_eq_append] at hb h ⊢
      rw [headHash_concat, headHash_concat] at h
      obtain rfl := hinj h
      rcases linked_append.mp ha with ⟨ha, hseqA, hprevA, -⟩
      rcases linked_append.mp hb with ⟨hb, hseqB, hprevB, -⟩
      have hlen : a.length = b.length := by
        omega
      by_cases hempty : a = []
      · have hempty' : b = [] := by
          rw [← List.length_eq_zero_iff, ← hlen, hempty, List.length_nil]
        rw [hempty, hempty']
      · have hnonempty : b ≠ [] := by
          rw [← List.length_pos_iff, ← hlen, List.length_pos_iff]
          exact hempty
        rw [ih ha hb hempty hnonempty (hprevA.symm.trans hprevB)]

end HashChain
