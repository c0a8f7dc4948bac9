import Mathlib.Tactic

/-!
# Keys joined by colons

A key built from parts that hold no colon determines its parts.
-/

namespace Lib

def joinColon (parts : List String) : String := ":".intercalate parts

/-- The part holds no separator. -/
def ColonFree (s : String) : Prop := ':' ∉ s.toList

theorem joinColon_inj {as bs : List String} (has : as ≠ []) (hbs : bs ≠ [])
    (hfa : ∀ s ∈ as, ColonFree s) (hfb : ∀ s ∈ bs, ColonFree s)
    (h : joinColon as = joinColon bs) : as = bs := by
  have hlist : [':'].intercalate (as.map String.toList) =
      [':'].intercalate (bs.map String.toList) := by
    simpa [joinColon, String.toList_intercalate] using congrArg String.toList h
  have hsplit := congrArg (List.splitOn ':') hlist
  rw [List.splitOn_intercalate _ (by simpa [ColonFree] using hfa) (by simpa using has),
    List.splitOn_intercalate _ (by simpa [ColonFree] using hfb) (by simpa using hbs)] at hsplit
  exact List.map_injective_iff.2 (fun _ _ => String.toList_injective) hsplit

theorem colonFree_nat (n : ℕ) : ColonFree (toString n) := by
  intro hmem
  rw [Nat.toString_eq_repr, Nat.toList_repr] at hmem
  have hdigit := Nat.isDigit_of_mem_toDigits (by decide) (by decide) hmem
  exact absurd hdigit (by decide)

theorem colonFree_cons {s : String} {parts : List String} (hs : ColonFree s)
    (hparts : ∀ p ∈ parts, ColonFree p) : ∀ p ∈ s :: parts, ColonFree p :=
  List.forall_mem_cons.2 ⟨hs, hparts⟩

/-- Numbers hold no separator. -/
theorem colonFree_nats (ns : List ℕ) : ∀ p ∈ ns.map toString, ColonFree p := by
  intro p hp
  obtain ⟨n, -, rfl⟩ := List.mem_map.1 hp
  exact colonFree_nat n

theorem toString_nat_inj {a b : ℕ} (h : toString a = toString b) : a = b := by
  have hdigits : Nat.toDigits 10 a = Nat.toDigits 10 b := by
    simpa only [Nat.toString_eq_repr, Nat.toList_repr] using congrArg String.toList h
  simpa using congrArg (fun digits => Nat.ofDigitChars 10 digits 0) hdigits

end Lib
