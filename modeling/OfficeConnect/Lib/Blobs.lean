import Mathlib.Tactic

/-!
# A store addressed by content

A blob stands under the key its hash gives.  Bytes whose key is taken are not stored again, so no
save changes what a key names; and what a key names hashes to that key, whatever was saved.
-/

namespace Lib

/-- Blobs by key. -/
structure Blobs (κ β : Type*) where
  entries : List (κ × β) := []
deriving DecidableEq, Repr

namespace Blobs

variable {κ β : Type*} [DecidableEq κ] {hash : β → κ} {s s' s'' : Blobs κ β} {k : κ} {b b' : β}

def find (s : Blobs κ β) (k : κ) : Option β := s.entries.lookup k

/-- Store bytes under their hash, unless it is taken. -/
def save (hash : β → κ) (s : Blobs κ β) (b : β) : Blobs κ β :=
  if (s.find (hash b)).isSome then s else { entries := (hash b, b) :: s.entries }

/-- What a key names hashes to the key. -/
def Addressed (hash : β → κ) (s : Blobs κ β) : Prop := ∀ k b, s.find k = some b → hash b = k

/-- Every key of the first names the same bytes in the second. -/
def Keeps (s s' : Blobs κ β) : Prop := ∀ k b, s.find k = some b → s'.find k = some b

theorem find_empty (k : κ) : ({} : Blobs κ β).find k = none := rfl

theorem addressed_empty : Addressed hash ({} : Blobs κ β) := fun k b h => by
  rw [find_empty] at h
  cases h

theorem Keeps.refl (s : Blobs κ β) : Keeps s s := fun _ _ h => h

theorem Keeps.trans (h : Keeps s s') (h' : Keeps s' s'') : Keeps s s'' :=
  fun k b hb => h' k b (h k b hb)

theorem save_of_find (h : s.find (hash b) = some b') : s.save hash b = s :=
  if_pos (by rw [h]; rfl)

theorem find_save_of_none (h : s.find (hash b) = none) (k : κ) :
    (s.save hash b).find k = if k = hash b then some b else s.find k := by
  rw [save, if_neg (by simp [h]), find, List.lookup_cons]
  by_cases hk : k = hash b
  · simp [hk]
  · rw [if_neg hk, beq_false_of_ne hk]
    rfl

/-- No save changes what a key names. -/
theorem keeps_save (hash : β → κ) (s : Blobs κ β) (b : β) : Keeps s (s.save hash b) := by
  intro k b' hk
  cases h : s.find (hash b) with
  | some b'' => rw [save_of_find h, hk]
  | none =>
      have hne : k ≠ hash b := by
        rintro rfl
        rw [h] at hk
        cases hk
      rw [find_save_of_none h, if_neg hne, hk]

theorem Addressed.save (h : Addressed hash s) (b : β) : Addressed hash (s.save hash b) := by
  intro k b' hk
  cases hb : s.find (hash b) with
  | some b'' =>
      rw [save_of_find hb] at hk
      exact h k b' hk
  | none =>
      rw [find_save_of_none hb] at hk
      split_ifs at hk with heq
      · rw [heq, Option.some.inj hk]
      · exact h k b' hk

end Blobs

end Lib
