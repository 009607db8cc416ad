import CirisPersist.Base.Json
import Std.Data.String.ToInt

/-!
# Digests of canonical JSON

Content hashes are SHA-256 over the canonical bytes of a JSON value, in lowercase
hex.  The canonicalizer and the hash live in other crates; the model takes their
composition as a parameter, and a result that needs a hash without collisions
says so.
-/

namespace CirisPersist

/-- `sha256_hex(&pinned_jcs(v)?)`; the values the source builds are never refused. -/
class CanonicalDigest where
  digest : Json -> String

/-!
## A digest without collisions

Concrete runs fix the digest to a spelling of the value itself.  Every piece of
the spelling tells where it ends, so a value can be read back from the text.
-/

namespace Json

def spellChars : List Char -> List Char
  | [] => ['.']
  | c :: cs => '_' :: c :: spellChars cs

def spellNumber : JsonNumber -> List Char
  | .int n => 'i' :: spellChars n.repr.toList
  | .float q => 'q' :: (spellChars q.num.repr.toList ++ spellChars q.den.repr.toList)

mutual

def spell : Json -> List Char
  | null => ['n']
  | bool b => ['b', if b then 't' else 'f']
  | num n => 'd' :: spellNumber n
  | str s => 's' :: spellChars s.toList
  | arr items => 'a' :: spellItems items
  | obj fields => 'o' :: spellFields fields

def spellItems : List Json -> List Char
  | [] => ['.']
  | v :: rest => '_' :: (spell v ++ spellItems rest)

def spellFields : List (String × Json) -> List Char
  | [] => ['.']
  | (k, v) :: rest => '_' :: (spellChars k.toList ++ (spell v ++ spellFields rest))

end

theorem spellChars_append_inj
    (cs ds r r' : List Char) (h : spellChars cs ++ r = spellChars ds ++ r') :
    cs = ds ∧ r = r' := by
  induction cs generalizing ds r r' with
  | nil =>
      cases ds with
      | nil => exact ⟨rfl, (List.cons.inj h).2⟩
      | cons d ds => simp [spellChars] at h
  | cons c cs ih =>
      cases ds with
      | nil => simp [spellChars] at h
      | cons d ds =>
          simp only [spellChars, List.cons_append, List.cons.injEq, true_and] at h
          rcases ih ds r r' h.2 with ⟨rfl, hr⟩
          exact ⟨by rw [h.1], hr⟩

theorem spellInt_append_inj
    {m n : Int} {r r' : List Char}
    (h : spellChars m.repr.toList ++ r = spellChars n.repr.toList ++ r') :
    m = n ∧ r = r' := by
  rcases spellChars_append_inj _ _ r r' h with ⟨htext, hr⟩
  exact ⟨Int.repr_injective (String.toList_injective htext), hr⟩

theorem spellNumber_append_inj
    {m n : JsonNumber} {r r' : List Char} (h : spellNumber m ++ r = spellNumber n ++ r') :
    m = n ∧ r = r' := by
  cases m with
  | int m =>
      cases n with
      | int n =>
          simp only [spellNumber, List.cons_append, List.cons.injEq, true_and] at h
          rcases spellInt_append_inj h with ⟨rfl, hr⟩
          exact ⟨rfl, hr⟩
      | float q => simp [spellNumber] at h
  | float p =>
      cases n with
      | int n => simp [spellNumber] at h
      | float q =>
          simp only [spellNumber, List.cons_append, List.append_assoc, List.cons.injEq,
            true_and] at h
          rcases spellInt_append_inj h with ⟨hnum, hrest⟩
          rcases spellChars_append_inj _ _ _ _ hrest with ⟨hden, hr⟩
          have hden' : p.den = q.den := Nat.repr_injective (String.toList_injective hden)
          exact ⟨by rw [Rat.ext hnum hden'], hr⟩

mutual

theorem spell_append_inj :
    forall (v w : Json) (r r' : List Char), spell v ++ r = spell w ++ r' -> v = w ∧ r = r'
  | v, w, r, r', h => by
      cases v <;> cases w <;> simp [spell] at h
      case null.null => exact ⟨rfl, h⟩
      case bool.bool b c =>
          exact ⟨by cases b <;> cases c <;> simp at h ⊢, h.2⟩
      case num.num m n =>
          rcases spellNumber_append_inj h with ⟨rfl, hr⟩
          exact ⟨rfl, hr⟩
      case str.str s t =>
          rcases spellChars_append_inj _ _ _ _ h with ⟨htext, hr⟩
          exact ⟨by rw [String.toList_injective htext], hr⟩
      case arr.arr items items' =>
          rcases spellItems_append_inj items items' r r' h with ⟨rfl, hr⟩
          exact ⟨rfl, hr⟩
      case obj.obj fields fields' =>
          rcases spellFields_append_inj fields fields' r r' h with ⟨rfl, hr⟩
          exact ⟨rfl, hr⟩

theorem spellItems_append_inj :
    forall (vs ws : List Json) (r r' : List Char),
      spellItems vs ++ r = spellItems ws ++ r' -> vs = ws ∧ r = r'
  | [], [], _, _, h => ⟨rfl, (List.cons.inj h).2⟩
  | [], _ :: _, _, _, h => by simp [spellItems] at h
  | _ :: _, [], _, _, h => by simp [spellItems] at h
  | v :: vs, w :: ws, r, r', h => by
      simp only [spellItems, List.cons_append, List.append_assoc, List.cons.injEq, true_and] at h
      rcases spell_append_inj v w _ _ h with ⟨rfl, hrest⟩
      rcases spellItems_append_inj vs ws r r' hrest with ⟨rfl, hr⟩
      exact ⟨rfl, hr⟩

theorem spellFields_append_inj :
    forall (vs ws : List (String × Json)) (r r' : List Char),
      spellFields vs ++ r = spellFields ws ++ r' -> vs = ws ∧ r = r'
  | [], [], _, _, h => ⟨rfl, (List.cons.inj h).2⟩
  | [], (_, _) :: _, _, _, h => by simp [spellFields] at h
  | (_, _) :: _, [], _, _, h => by simp [spellFields] at h
  | (k, v) :: vs, (l, w) :: ws, r, r', h => by
      simp only [spellFields, List.cons_append, List.append_assoc, List.cons.injEq, true_and] at h
      rcases spellChars_append_inj _ _ _ _ h with ⟨hkey, hvalue⟩
      rcases spell_append_inj v w _ _ hvalue with ⟨rfl, hrest⟩
      rcases spellFields_append_inj vs ws r r' hrest with ⟨rfl, hr⟩
      exact ⟨by rw [String.toList_injective hkey], hr⟩

end

end Json

namespace Reference

scoped instance canonicalDigest : CanonicalDigest where
  digest := fun v => String.ofList v.spell

theorem digest_injective :
    Function.Injective (CanonicalDigest.digest : Json -> String) := by
  intro v w h
  have htext : v.spell ++ [] = w.spell ++ [] := by
    rw [List.append_nil, List.append_nil]
    exact String.ofList_injective h
  exact (Json.spell_append_inj v w [] [] htext).1

end Reference

end CirisPersist
