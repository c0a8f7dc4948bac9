import OfficeConnect.Core.Audit

/-!
# Tampering with the audit trail

What verification finds in rows somebody edited, deleted, inserted, duplicated or moved.  A row that
still stores a hash of the original trail seals every row before it; behind the last such row a
forger who computes every hash is not found out.
-/

namespace OfficeConnect.Audit

open Lib

variable {V H : Type} {k : Hashing V H} {original tampered : List (AuditLog V H)}

/-- Hashes determine what they were computed from. -/
def Hashing.Injective (k : Hashing V H) : Prop :=
  ∀ prev prev' p p', k.computeRowHash prev p = k.computeRowHash prev' p' → prev = prev' ∧ p = p'

/-- A hash is never the genesis hash. -/
def Hashing.FreshGenesis (k : Hashing V H) : Prop :=
  ∀ prev p, k.computeRowHash prev p ≠ k.genesisHash

/-- Everything of a row but its id. -/
def content (row : AuditLog V H) : H × H × Payload V := (row.prevHash, row.rowHash, buildPayload row)

/-- A row that stores a hash of the original rows. -/
def KeepsHash (original : List (AuditLog V H)) (row : AuditLog V H) : Prop :=
  ∃ old ∈ original, row.prevHash = old.prevHash ∨ row.rowHash = old.rowHash

/-- The rows at `i` differ, or only one of the lists has one. -/
def DiffersAt (original tampered : List (AuditLog V H)) (i : ℕ) : Prop :=
  (tampered[i]?).map content ≠ (original[i]?).map content

instance [DecidableEq V] [DecidableEq H] (i : ℕ) : Decidable (DiffersAt original tampered i) :=
  inferInstanceAs (Decidable (_ ≠ _))

/-- A row with an original hash seals the rows before it. -/
theorem sealed_before (hinj : k.Injective) (hfresh : k.FreshGenesis)
    (horiginal : k.chain.Valid k.genesisHash original)
    (htampered : k.chain.Valid k.genesisHash tampered) {m : ℕ} {row : AuditLog V H}
    (hrow : tampered[m]? = some row) (hkeeps : KeepsHash original row) :
    (tampered.take m).map content = (original.take m).map content := by
  obtain ⟨old, hold, hsame⟩ := hkeeps
  obtain ⟨before, after, rfl⟩ := List.append_of_mem hold
  obtain ⟨hm, rfl⟩ := List.getElem?_eq_some_iff.1 hrow
  have hsplit : tampered.take m ++ tampered[m] :: tampered.drop (m + 1) = tampered := by
    rw [List.getElem_cons_drop, List.take_append_drop]
  have hagree : (tampered.take m).map content = before.map content := by
    rw [← hsplit] at htampered
    exact HashChain.Valid.sealed (c := k.chain) hinj hfresh htampered horiginal hsame
  have hlength : before.length = m := by
    have := congrArg List.length hagree
    simp only [List.length_map, List.length_take] at this
    omega
  rw [hagree, ← hlength, List.take_left]

/-- A difference before a row with an original hash is found, and what is reported is the first row
that does not extend the chain from genesis. -/
theorem tampering_found [DecidableEq H] (original tampered : List (AuditLog V H))
    (hinj : k.Injective) (hfresh : k.FreshGenesis) (horiginal : verifyChain k original = none)
    {i m : ℕ} {row : AuditLog V H} (him : i < m) (hdiffers : DiffersAt original tampered i)
    (hrow : tampered[m]? = some row) (hkeeps : KeepsHash original row) :
    ∃ broken, verifyChain k tampered = some broken.id ∧
      k.chain.BreaksAt k.genesisHash tampered broken := by
  cases hverify : verifyChain k tampered with
  | some id =>
      obtain ⟨broken, hbreaks, rfl⟩ := verifyFrom_eq_some.1 hverify
      exact ⟨broken, rfl, hbreaks⟩
  | none =>
      have hsealed := sealed_before hinj hfresh (verifyFrom_eq_none.1 horiginal)
        (verifyFrom_eq_none.1 hverify) hrow hkeeps
      have hsame := congrArg (·[i]?) hsealed
      simp only [List.getElem?_map, List.getElem?_take_of_lt him] at hsame
      exact absurd hsame hdiffers

/-! ## What is and is not found -/

/-- A hash that writes down all it was computed from. -/
def transcript : Hashing String (List (Payload String)) where
  genesisHash := []
  computeRowHash prev p := p :: prev

theorem transcript_injective : transcript.Injective := by
  intro prev prev' p p' h
  obtain ⟨hp, hprev⟩ := List.cons.inj h
  exact ⟨hprev, hp⟩

theorem transcript_fresh : transcript.FreshGenesis := fun prev p => List.cons_ne_nil p prev

/-- An update of one user. -/
def updateOf (userId : ℕ) : Payload String where
  table := "core_users"
  rowPk := userId
  action := .update
  actorId := none
  requestId := none
  createdAt := 0
  old := none
  new := none

/-- The trail of the updates of some users, with ids from 1. -/
def trail (k : Hashing String H) (users : List ℕ) : List (AuditLog String H) :=
  (chainRows k k.genesisHash (users.map updateOf)).zipIdx.map fun row =>
    { row.1 with id := row.2 + 1 }

/-- The second of three rows names another user and its own hash is computed again. -/
def doctored : List (AuditLog String (List (Payload String))) :=
  (trail transcript [1, 9]) ++ (trail transcript [1, 2, 3]).drop 2

theorem doctored_found :
    verifyChain transcript doctored = some 3 ∧ ∃ broken,
      verifyChain transcript doctored = some broken.id ∧
        transcript.chain.BreaksAt transcript.genesisHash doctored broken := by
  refine ⟨by decide +kernel, ?_⟩
  have hlast : doctored[2]? = some (doctored.get ⟨2, by decide +kernel⟩) := rfl
  exact tampering_found (trail transcript [1, 2, 3]) doctored transcript_injective transcript_fresh
    (by decide +kernel) (Nat.lt_succ_self 1) (by decide +kernel) hlast
    ⟨_, List.mem_of_getElem? (i := 2) rfl, .inl (by decide +kernel)⟩

/-- An injective hash one value of which is the genesis hash. -/
def wrapping : Hashing String (List (Payload String)) where
  genesisHash := []
  computeRowHash prev p := if prev = [] ∧ p = updateOf 1 then [] else p :: prev

theorem wrapping_injective : wrapping.Injective := by
  intro prev prev' p p' h
  simp only [wrapping] at h
  split_ifs at h with hfirst hfirst'
  · exact ⟨hfirst.1.trans hfirst'.1.symm, hfirst.2.trans hfirst'.2.symm⟩
  · obtain ⟨hp, hprev⟩ := List.cons.inj h
    exact ⟨hprev, hp⟩

/-- Two forged rows behind the last one verify, and under a hash that takes the genesis value so do
copies of a first row, with no hash computed again. -/
theorem forged_tail_not_found :
    (transcript.Injective ∧ verifyChain transcript (trail transcript [1]) = none ∧
      DiffersAt (trail transcript [1]) (trail transcript [1, 2, 3]) 1 ∧
      1 + 1 < (trail transcript [1, 2, 3]).length ∧
      verifyChain transcript (trail transcript [1, 2, 3]) = none) ∧
    wrapping.Injective ∧ verifyChain wrapping (trail wrapping [1]) = none ∧
      DiffersAt (trail wrapping [1]) (trail wrapping [1] ++ trail wrapping [1, 1]) 1 ∧
      1 + 1 < (trail wrapping [1] ++ trail wrapping [1, 1]).length ∧
      verifyChain wrapping (trail wrapping [1] ++ trail wrapping [1, 1]) = none := by
  exact ⟨⟨transcript_injective, by decide +kernel⟩, wrapping_injective, by decide +kernel⟩

end OfficeConnect.Audit
