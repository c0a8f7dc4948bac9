import OfficeConnect.Lib.Guard
import Mathlib.Data.List.Sort

/-!
# Draining a table in keyset pages

A sweep reads a table page by page: the first keys past a cursor, in order, the cursor being the
last key of the page before.  The table is read anew for every page.  While the visits leave its
keys as they are, the pages run through the sorted keys, and a budget of `n * pages` keys is enough
for a table of that size.
-/

namespace Lib

variable {κ σ ε : Type*}

/-! ## Visiting a list -/

section

variable {visit : κ → σ → Except ε σ} {I : σ → Prop} {Q : κ → σ → Prop} {s : σ}

/-- A loop over `ks`: each visit returns, keeps the invariant, establishes its own goal and keeps the
goals of the others. -/
theorem foldlM_visit {ks : List κ}
    (hvisit : ∀ k ∈ ks, ∀ s, I s →
      ∃ s', visit k s = .ok s' ∧ I s' ∧ Q k s' ∧ ∀ j, Q j s → Q j s')
    (hs : I s) :
    ∃ s', ks.foldlM (fun s k => visit k s) s = .ok s' ∧ I s' ∧ (∀ k ∈ ks, Q k s') ∧
      ∀ j, Q j s → Q j s' := by
  induction ks generalizing s with
  | nil => exact ⟨s, rfl, hs, by simp, fun _ hj => hj⟩
  | cons k ks ih =>
      obtain ⟨s₁, hok, hs₁, hk, hkeep⟩ := hvisit k (by simp) s hs
      obtain ⟨s', hrest, hs', hall, hkeep'⟩ := ih (fun j hj => hvisit j (by simp [hj])) hs₁
      refine ⟨s', ?_, hs', ?_, fun j hj => hkeep' j (hkeep j hj)⟩
      · rw [List.foldlM_cons, hok, ok_bind, hrest]
      · exact List.forall_mem_cons.2 ⟨hkeep' k hk, hall⟩

end

/-! ## Pages -/

variable [LinearOrder κ]

/-- The keys past the cursor, in order. -/
def keysPast (keys : List κ) (cursor : Option κ) : List κ :=
  (keys.insertionSort (· ≤ ·)).filter fun k => cursor.all (· < k)

/-- The loop over at most `pages` pages of at most `n` keys.  The flag says that the table was seen
to be drained. -/
def drainPages (query : σ → List κ) (visit : κ → σ → Except ε σ) (n : ℕ) :
    ℕ → Option κ → σ → Except ε (σ × Bool)
  | 0, _, s => .ok (s, false)
  | pages + 1, cursor, s =>
      let page := (keysPast (query s) cursor).take n
      if page = [] then .ok (s, true)
      else do
        let s ← page.foldlM (fun s k => visit k s) s
        if page.length < n then return (s, true)
        else drainPages query visit n pages page.getLast? s

theorem mem_keysPast {keys : List κ} {cursor : Option κ} {k : κ} :
    k ∈ keysPast keys cursor ↔ k ∈ keys ∧ ∀ c ∈ cursor, c < k := by
  simp [keysPast, Option.all_eq_true]

theorem keysPast_pairwise {keys : List κ} (hkeys : keys.Nodup) (cursor : Option κ) :
    (keysPast keys cursor).Pairwise (· < ·) := by
  refine List.Pairwise.filter _ ?_
  have hsorted : (keys.insertionSort (· ≤ ·)).Pairwise (· ≤ ·) := List.pairwise_insertionSort ..
  have hnodup : (keys.insertionSort (· ≤ ·)).Nodup :=
    (List.perm_insertionSort (· ≤ ·) keys).nodup_iff.2 hkeys
  exact (hsorted.and hnodup).imp fun h => lt_of_le_of_ne h.1 h.2

/-- What is past the last key of a page is what the page left over. -/
theorem keysPast_getLast {keys : List κ} (hkeys : keys.Nodup) {cursor : Option κ} {n : ℕ}
    (hpage : (keysPast keys cursor).take n ≠ []) :
    keysPast keys ((keysPast keys cursor).take n).getLast? = (keysPast keys cursor).drop n := by
  set rest := keysPast keys cursor with hrest
  set x := (rest.take n).getLast hpage with hx
  have hsorted : rest.Pairwise (· < ·) := keysPast_pairwise hkeys cursor
  have hxmem : x ∈ rest := List.take_subset _ _ (List.getLast_mem hpage)
  rw [List.getLast?_eq_some_getLast hpage, ← hx]
  -- Nothing before the cursor is past `x`.
  have hfilter : keysPast keys (some x) = rest.filter fun k => x < k := by
    rw [hrest, keysPast, keysPast, List.filter_filter]
    refine List.filter_congr fun k _ => ?_
    by_cases hk : x < k
    · have hpast : cursor.all (· < k) = true := by
        rw [Option.all_eq_true]
        intro c hc
        exact decide_eq_true (((mem_keysPast.1 hxmem).2 c hc).trans hk)
      simp [hk, hpast]
    · simp [hk]
  rw [hfilter]
  have hsplit : rest = rest.take n ++ rest.drop n := (List.take_append_drop n rest).symm
  have hbefore : (rest.take n).filter (fun k => x < k) = [] := by
    refine List.filter_eq_nil_iff.2 fun k hk => ?_
    have hle : (rest.take n).Pairwise (· ≤ ·) :=
      (hsorted.sublist (List.take_sublist n rest)).imp le_of_lt
    simpa using hle.rel_getLast hk
  have hafter : (rest.drop n).filter (fun k => x < k) = rest.drop n := by
    refine List.filter_eq_self.2 fun k hk => ?_
    rw [hsplit, List.pairwise_append] at hsorted
    simpa using hsorted.2.2 x (List.getLast_mem hpage) k hk
  conv_lhs => rw [hsplit, List.filter_append, hbefore, hafter, List.nil_append]

theorem mem_keysPast_none {keys : List κ} {k : κ} : k ∈ keysPast keys none ↔ k ∈ keys := by
  simp [mem_keysPast]

/-- Past no cursor are all keys. -/
theorem keysPast_none_perm (keys : List κ) : (keysPast keys none).Perm keys := by
  have hall : keysPast keys none = keys.insertionSort (· ≤ ·) :=
    List.filter_eq_self.2 fun _ _ => rfl
  rw [hall]
  exact List.perm_insertionSort _ _

theorem length_keysPast_le (keys : List κ) (cursor : Option κ) :
    (keysPast keys cursor).length ≤ keys.length := by
  refine (List.length_filter_le _ _).trans ?_
  rw [List.length_insertionSort]

/-- The loop from any cursor: the goals of the keys past it hold at the end. -/
theorem drainPages_past {query : σ → List κ} {visit : κ → σ → Except ε σ} {I : σ → Prop}
    {Q : κ → σ → Prop} {keys : List κ} {n : ℕ} (hkeys : keys.Nodup)
    (hquery : ∀ s, I s → query s = keys)
    (hvisit : ∀ k ∈ keys, ∀ s, I s →
      ∃ s', visit k s = .ok s' ∧ I s' ∧ Q k s' ∧ ∀ j, Q j s → Q j s')
    (pages : ℕ) (cursor : Option κ) (s : σ) (hs : I s) :
    ∃ s' drained, drainPages query visit n pages cursor s = .ok (s', drained) ∧ I s' ∧
      (∀ j, Q j s → Q j s') ∧
      ((keysPast keys cursor).length ≤ n * pages → ∀ k ∈ keysPast keys cursor, Q k s') := by
  induction pages generalizing cursor s with
  | zero =>
      refine ⟨s, false, rfl, hs, fun _ hj => hj, fun hbudget => ?_⟩
      rw [Nat.mul_zero, Nat.le_zero, List.length_eq_zero_iff] at hbudget
      simp [hbudget]
  | succ pages ih =>
      rw [drainPages, hquery s hs]
      by_cases hpage : (keysPast keys cursor).take n = []
      · refine ⟨s, true, by simp [hpage], hs, fun _ hj => hj, fun hbudget => ?_⟩
        rcases List.take_eq_nil_iff.1 hpage with rfl | hnil
        · rw [Nat.zero_mul, Nat.le_zero, List.length_eq_zero_iff] at hbudget
          simp [hbudget]
        · simp [hnil]
      · have hpast : ∀ k ∈ (keysPast keys cursor).take n, k ∈ keys := fun k hk =>
          (mem_keysPast.1 (List.take_subset _ _ hk)).1
        obtain ⟨s₁, hfold, hs₁, hall, hkeep⟩ :=
          foldlM_visit (fun k hk => hvisit k (hpast k hk)) hs
        by_cases hshort : ((keysPast keys cursor).take n).length < n
        · refine ⟨s₁, true, ?_, hs₁, hkeep, fun _ k hk => hall k ?_⟩
          · simp only [if_neg hpage, hfold, ok_bind, if_pos hshort]
            rfl
          · rw [List.length_take] at hshort
            rwa [List.take_of_length_le (by omega)]
        · obtain ⟨s', drained, hrest, hs', hkeep', hgoal⟩ :=
            ih ((keysPast keys cursor).take n).getLast? s₁ hs₁
          refine ⟨s', drained, ?_, hs', fun j hj => hkeep' j (hkeep j hj), fun hbudget k hk => ?_⟩
          · simp only [if_neg hpage, hfold, ok_bind, if_neg hshort]
            exact hrest
          · rw [keysPast_getLast hkeys hpage] at hgoal
            rw [← List.take_append_drop n (keysPast keys cursor), List.mem_append] at hk
            rcases hk with hk | hk
            · exact hkeep' k (hall k hk)
            · refine hgoal ?_ k hk
              rw [List.length_drop]
              rw [Nat.mul_succ] at hbudget
              omega

/-- The loop rule: visits that return, keep the invariant and leave the keys of the table alone drain
it within the budget, each key's goal holding at the end. -/
theorem drainPages_visit {I : σ → Prop} {Q : κ → σ → Prop} (query : σ → List κ)
    (visit : κ → σ → Except ε σ) (keys : List κ) (n pages : ℕ) (s : σ) (hkeys : keys.Nodup)
    (hquery : ∀ s, I s → query s = keys)
    (hvisit : ∀ k ∈ keys, ∀ s, I s →
      ∃ s', visit k s = .ok s' ∧ I s' ∧ Q k s' ∧ ∀ j, Q j s → Q j s')
    (hs : I s) :
    ∃ s' drained, drainPages query visit n pages none s = .ok (s', drained) ∧ I s' ∧
      (keys.length ≤ n * pages → ∀ k ∈ keys, Q k s') := by
  obtain ⟨s', drained, hok, hs', -, hgoals⟩ :=
    drainPages_past (n := n) hkeys hquery hvisit pages none s hs
  refine ⟨s', drained, hok, hs', fun hbudget k hk => ?_⟩
  exact hgoals ((length_keysPast_le keys none).trans hbudget) k (mem_keysPast_none.2 hk)

/-- Within the budget, draining from a cursor is one loop over the sorted keys past it. -/
theorem drainPages_eq_foldlM {query : σ → List κ} {visit : κ → σ → Except ε σ} {I : σ → Prop}
    {keys : List κ} {n : ℕ} (hkeys : keys.Nodup) (hquery : ∀ s, I s → query s = keys)
    (hvisit : ∀ k ∈ keys, ∀ s, I s → ∃ s', visit k s = .ok s' ∧ I s')
    (pages : ℕ) (cursor : Option κ) (s : σ) (hs : I s)
    (hbudget : (keysPast keys cursor).length ≤ n * pages) :
    ∃ s' drained, drainPages query visit n pages cursor s = .ok (s', drained) ∧
      (keysPast keys cursor).foldlM (fun s k => visit k s) s = .ok s' := by
  induction pages generalizing cursor s with
  | zero =>
      rw [Nat.mul_zero, Nat.le_zero, List.length_eq_zero_iff] at hbudget
      exact ⟨s, false, rfl, by rw [hbudget]; rfl⟩
  | succ pages ih =>
      rw [drainPages, hquery s hs]
      by_cases hpage : (keysPast keys cursor).take n = []
      · refine ⟨s, true, by simp [hpage], ?_⟩
        rcases List.take_eq_nil_iff.1 hpage with rfl | hnil
        · rw [Nat.zero_mul, Nat.le_zero, List.length_eq_zero_iff] at hbudget
          rw [hbudget]
          rfl
        · rw [hnil]
          rfl
      · have hpast : ∀ k ∈ (keysPast keys cursor).take n, k ∈ keys := fun k hk =>
          (mem_keysPast.1 (List.take_subset _ _ hk)).1
        obtain ⟨s₁, hfold, hs₁, -⟩ := foldlM_visit (Q := fun _ _ => True)
          (fun k hk s hs => by
            obtain ⟨s', hok, hs'⟩ := hvisit k (hpast k hk) s hs
            exact ⟨s', hok, hs', trivial, fun _ _ => trivial⟩) hs
        have hsplit := List.take_append_drop n (keysPast keys cursor)
        by_cases hshort : ((keysPast keys cursor).take n).length < n
        · refine ⟨s₁, true, ?_, ?_⟩
          · simp only [if_neg hpage, hfold, ok_bind, if_pos hshort]
            rfl
          · rw [List.length_take] at hshort
            rwa [List.take_of_length_le (by omega)] at hfold
        · rw [Nat.mul_succ] at hbudget
          have hpast' := keysPast_getLast hkeys hpage
          obtain ⟨s', drained, hrest, hrestFold⟩ :=
            ih ((keysPast keys cursor).take n).getLast? s₁ hs₁ (by
              rw [hpast', List.length_drop]
              omega)
          refine ⟨s', drained, ?_, ?_⟩
          · simp only [if_neg hpage, hfold, ok_bind, if_neg hshort]
            exact hrest
          · rw [hpast'] at hrestFold
            rw [← hsplit, List.foldlM_append, hfold, ok_bind, hrestFold]

end Lib
