import Mathlib.Tactic

/-!
# Hash chains

A row of a hash chain stores the hash of the row before it and its own, a digest of that hash and
the row's body.  A list of rows is valid from a start when each row extends what stands before it.
When the digest is injective and never the start, the last hash of a valid list determines the list.
-/

namespace Lib

/-- How a row is read as a link of a hash chain. -/
structure HashChain (R D B : Type*) where
  prev : R → D
  hash : R → D
  body : R → B
  digest : D → B → D

namespace HashChain

variable {R D B : Type*} (c : HashChain R D B)

/-- The row may follow a row with hash `p`. -/
def Extends (p : D) (r : R) : Prop := c.prev r = p ∧ c.hash r = c.digest p (c.body r)

def Valid : D → List R → Prop
  | _, [] => True
  | p, r :: rs => c.Extends p r ∧ Valid (c.hash r) rs

/-- The last hash of a list that starts at `p`. -/
def tip : D → List R → D
  | p, [] => p
  | _, r :: rs => tip (c.hash r) rs

/-- All that a chain can see of a row. -/
def link (r : R) : D × D × B := (c.prev r, c.hash r, c.body r)

variable {c} {p : D} {r : R} {rs ss : List R}

theorem tip_append : c.tip p (rs ++ ss) = c.tip (c.tip p rs) ss := by
  induction rs generalizing p with
  | nil => rfl
  | cons r rs ih => exact ih

@[simp] theorem tip_concat : c.tip p (rs ++ [r]) = c.hash r := tip_append

theorem valid_append : c.Valid p (rs ++ ss) ↔ c.Valid p rs ∧ c.Valid (c.tip p rs) ss := by
  induction rs generalizing p with
  | nil => simp [Valid, tip]
  | cons r rs ih => simp only [List.cons_append, Valid, tip, ih, and_assoc]

@[simp] theorem valid_singleton : c.Valid p [r] ↔ c.Extends p r := by
  simp [Valid]

variable (c) in
/-- The row at which a list stops being valid. -/
def BreaksAt (p : D) (rs : List R) (r : R) : Prop :=
  ∃ before after, rs = before ++ r :: after ∧ c.Valid p before ∧ ¬ c.Extends (c.tip p before) r

@[simp] theorem not_breaksAt_nil : ¬ c.BreaksAt p [] r := by
  rintro ⟨before, after, h, -⟩
  simp at h

theorem breaksAt_cons {s : R} :
    c.BreaksAt p (s :: rs) r ↔
      ¬ c.Extends p s ∧ s = r ∨ c.Extends p s ∧ c.BreaksAt (c.hash s) rs r := by
  constructor
  · rintro ⟨before, after, heq, hvalid, hbreak⟩
    cases before with
    | nil =>
        rw [List.nil_append, List.cons.injEq] at heq
        exact .inl ⟨heq.1 ▸ hbreak, heq.1⟩
    | cons b before =>
        rw [List.cons_append, List.cons.injEq] at heq
        obtain ⟨rfl, rfl⟩ := heq
        exact .inr ⟨hvalid.1, before, after, rfl, hvalid.2, hbreak⟩
  · rintro (⟨hbreak, rfl⟩ | ⟨hext, before, after, rfl, hvalid, hbreak⟩)
    · exact ⟨[], rs, rfl, trivial, hbreak⟩
    · exact ⟨s :: before, after, rfl, ⟨hext, hvalid⟩, hbreak⟩

section Injective

variable (hinj : ∀ p p' b b', c.digest p b = c.digest p' b' → p = p' ∧ b = b')
  (hstart : ∀ p' b, c.digest p' b ≠ p)

include hinj hstart

/-- The last hash determines a valid list. -/
theorem Valid.eq_of_tip (hrs : c.Valid p rs) (hss : c.Valid p ss) (h : c.tip p rs = c.tip p ss) :
    rs.map c.link = ss.map c.link := by
  induction rs using List.reverseRecOn generalizing ss with
  | nil =>
      cases ss using List.reverseRecOn with
      | nil => rfl
      | append_singleton ss s =>
          rw [valid_append, valid_singleton] at hss
          rw [tip_concat, hss.2.2] at h
          exact absurd h.symm (hstart _ _)
  | append_singleton rs r ih =>
      rw [valid_append, valid_singleton] at hrs
      cases ss using List.reverseRecOn with
      | nil =>
          rw [tip_concat, hrs.2.2] at h
          exact absurd h (hstart _ _)
      | append_singleton ss s =>
          rw [valid_append, valid_singleton] at hss
          rw [tip_concat, tip_concat, hrs.2.2, hss.2.2] at h
          obtain ⟨htip, hbody⟩ := hinj _ _ _ _ h
          have hlast : c.link r = c.link s := by
            simp only [link, hrs.2.1, hss.2.1, hrs.2.2, hss.2.2, htip, hbody]
          rw [List.map_append, List.map_append, ih hrs.1 hss.1 htip]
          simp [hlast]

/-- A stored hash that two valid lists share seals what stands before it. -/
theorem Valid.sealed {before before' after after' : List R} {r s : R}
    (hrs : c.Valid p (before ++ r :: after)) (hss : c.Valid p (before' ++ s :: after'))
    (h : c.prev r = c.prev s ∨ c.hash r = c.hash s) : before.map c.link = before'.map c.link := by
  obtain ⟨hbefore, hr, -⟩ := valid_append.1 hrs
  obtain ⟨hbefore', hs, -⟩ := valid_append.1 hss
  refine hbefore.eq_of_tip hinj hstart hbefore' ?_
  rcases h with hprev | hhash
  · rw [← hr.1, ← hs.1, hprev]
  · rw [hr.2, hs.2] at hhash
    exact (hinj _ _ _ _ hhash).1

end Injective

end HashChain

end Lib
