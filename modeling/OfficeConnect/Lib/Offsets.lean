import Mathlib.Data.List.Perm.Basic
import Mathlib.Data.List.Sort
import Mathlib.Tactic.SplitIfs

/-!
# Reading a list by offset

A client reads rows page by page, the `k`-th page being the `n` rows from place `k * n` on.  Every
page is cut from an arrangement of its own: sorted by a value, rows of one value in any order.  The
pages together are the rows, each once, exactly when no value is on both sides of a page boundary.
-/

namespace Lib

variable {α κ : Type*}

/-! ## Pages of one list -/

/-- The `k`-th page of `n` rows. -/
def pageAt (n k : ℕ) (rows : List α) : List α := (rows.drop (k * n)).take n

theorem take_succ_mul (rows : List α) (n k : ℕ) :
    rows.take ((k + 1) * n) = rows.take (k * n) ++ pageAt n k rows := by
  rw [Nat.succ_mul, List.take_add, pageAt]

/-- Cut from one list, the pages are its rows in order. -/
theorem flatMap_pageAt (rows : List α) (n pages : ℕ) :
    ((List.range pages).flatMap fun k => pageAt n k rows) = rows.take (pages * n) := by
  induction pages with
  | zero => simp
  | succ pages ih =>
      rw [List.range_succ, List.flatMap_append, ih, take_succ_mul, List.flatMap_singleton]

theorem mem_pageAt {rows : List α} {a : α} {n k i : ℕ} (hi : i < n)
    (ha : rows[k * n + i]? = some a) : a ∈ pageAt n k rows :=
  List.mem_of_getElem? (i := i) (by rw [pageAt, List.getElem?_take_of_lt hi, List.getElem?_drop, ha])

/-! ## Arrangements -/

variable [LinearOrder κ] {v : α → κ} {rows arranged other : List α} {n : ℕ}

/-- The rows sorted by value, in some order within a value. -/
structure Arranges (v : α → κ) (rows arranged : List α) : Prop where
  perm : arranged.Perm rows
  sorted : arranged.Pairwise fun a b => v a ≤ v b

variable (v rows) in
theorem exists_arranges : ∃ arranged, Arranges v rows arranged :=
  have : Std.Total fun a b : α => v a ≤ v b := ⟨fun _ _ => le_total _ _⟩
  have : IsTrans α fun a b => v a ≤ v b := ⟨fun _ _ _ => le_trans⟩
  ⟨rows.insertionSort fun a b => v a ≤ v b, List.perm_insertionSort _ _,
    List.pairwise_insertionSort _ _⟩

/-- Rows picked by a property that comes down with the value are the first ones. -/
theorem filter_eq_take {p : α → Bool} (hdown : ∀ a b, v a ≤ v b → p b = true → p a = true)
    (hsorted : arranged.Pairwise fun a b => v a ≤ v b) :
    arranged.filter p = arranged.take (arranged.countP p) := by
  induction arranged with
  | nil => rfl
  | cons a rest ih =>
      obtain ⟨hfirst, hrest⟩ := List.pairwise_cons.1 hsorted
      by_cases ha : p a = true
      · rw [List.filter_cons_of_pos ha, List.countP_cons_of_pos ha, List.take_succ_cons, ih hrest]
      · have hnone : ∀ b ∈ rest, ¬ p b = true := fun b hb hp => ha (hdown a b (hfirst b hb) hp)
        have hcount : rest.countP p = 0 := List.countP_eq_zero.2 hnone
        rw [List.filter_cons_of_neg ha, List.countP_cons_of_neg ha, hcount, List.take_zero,
          List.filter_eq_nil_iff.2 hnone]

/-- Cutting off rows that are all behind the picked ones leaves these. -/
theorem filter_take {p : α → Bool} (hdown : ∀ a b, v a ≤ v b → p b = true → p a = true)
    (hsorted : arranged.Pairwise fun a b => v a ≤ v b) (hcount : arranged.countP p ≤ n) :
    (arranged.take n).filter p = arranged.filter p := by
  rw [filter_eq_take hdown hsorted]
  have hsub := filter_eq_take hdown (hsorted.sublist (List.take_sublist n arranged))
  have hfirst : arranged.take (arranged.countP p) = (arranged.take n).take (arranged.countP p) := by
    rw [List.take_take, Nat.min_eq_left hcount]
  have hall : ∀ a ∈ arranged.take (arranged.countP p), p a = true := fun a ha => by
    rw [← filter_eq_take hdown hsorted] at ha
    exact (List.mem_filter.1 ha).2
  have hle : arranged.countP p ≤ (arranged.take n).countP p := by
    calc arranged.countP p = (arranged.take (arranged.countP p)).countP p := by
          rw [List.countP_eq_length.2 hall, List.length_take,
            Nat.min_eq_left List.countP_le_length]
      _ ≤ (arranged.take n).countP p := by
          rw [hfirst]
          exact (List.take_sublist _ _).countP_le
  have hge : (arranged.take n).countP p ≤ arranged.countP p :=
    (List.take_sublist n arranged).countP_le
  rw [hsub, le_antisymm hge hle, hfirst]

theorem Arranges.filter (h : Arranges v rows arranged) (p : α → Bool) :
    Arranges v (rows.filter p) (arranged.filter p) :=
  ⟨h.perm.filter p, h.sorted.filter p⟩

/-- An arrangement of the picked rows is the front of one of all rows. -/
theorem Arranges.extend {p : α → Bool} (hdown : ∀ a b, v a ≤ v b → p b = true → p a = true)
    (h : Arranges v (rows.filter p) arranged) :
    ∃ all, Arranges v rows all ∧ all.filter p = arranged := by
  obtain ⟨rest, hrest⟩ := exists_arranges v (rows.filter fun a => !p a)
  have hpicked : ∀ a ∈ arranged, p a = true := fun a ha =>
    (List.mem_filter.1 (h.perm.mem_iff.1 ha)).2
  have hothers : ∀ a ∈ rest, ¬ p a = true := fun a ha => by
    simpa using (List.mem_filter.1 (hrest.perm.mem_iff.1 ha)).2
  refine ⟨arranged ++ rest, ⟨?_, ?_⟩, ?_⟩
  · exact (h.perm.append hrest.perm).trans (List.filter_append_perm p rows)
  · refine List.pairwise_append.2 ⟨h.sorted, hrest.sorted, fun a ha b hb => ?_⟩
    by_contra hlt
    exact hothers b hb (hdown b a (not_le.1 hlt).le (hpicked a ha))
  · rw [List.filter_append, List.filter_eq_self.2 hpicked, List.filter_eq_nil_iff.2 hothers,
      List.append_nil]

/-! ## Boundaries -/

/-- Rows of one value are on both sides of place `n`. -/
def Straddles (v : α → κ) (rows : List α) (n : ℕ) (x : κ) : Prop :=
  rows.countP (fun a => v a < x) < n ∧ n < rows.countP fun a => v a ≤ x

instance (v : α → κ) (rows : List α) (n : ℕ) (x : κ) : Decidable (Straddles v rows n x) :=
  inferInstanceAs (Decidable (_ ∧ _))

theorem countP_le_eq_add (v : α → κ) (rows : List α) (x : κ) :
    rows.countP (fun a => v a ≤ x) = rows.countP (fun a => v a < x) + (rows.map v).count x := by
  induction rows with
  | nil => rfl
  | cons a rows ih =>
      rw [List.map_cons, List.count_cons, List.countP_cons, List.countP_cons, ih]
      rcases lt_trichotomy (v a) x with hlt | rfl | hgt
      · simp [hlt, hlt.le, hlt.ne]
        omega
      · simp
        omega
      · simp [hgt.not_ge, hgt.le, hgt.ne']

/-- Rows of different values straddle nothing. -/
theorem not_straddles_of_nodup (h : (rows.map v).Nodup) (n : ℕ) (x : κ) :
    ¬ Straddles v rows n x := by
  rintro ⟨hless, hmore⟩
  rw [countP_le_eq_add] at hmore
  have hone := List.nodup_iff_count_le_one.1 h x
  omega

theorem exists_split (hlt : n < arranged.length) :
    ∃ before a after, arranged = before ++ a :: after ∧ before.length = n :=
  ⟨arranged.take n, arranged[n], arranged.drop (n + 1),
    by rw [List.getElem_cons_drop, List.take_append_drop], List.length_take_of_le hlt.le⟩

/-- The value of the row before place `n` is the one that could straddle it. -/
theorem count_le_eq (h : Arranges v rows arranged) {before after : List α} {a : α}
    (hsplit : arranged = before ++ a :: after)
    (hclean : ¬ Straddles v rows (before.length + 1) (v a)) :
    rows.countP (fun b => v b ≤ v a) = before.length + 1 := by
  have hsorted := h.sorted
  rw [hsplit, List.pairwise_append, List.pairwise_cons] at hsorted
  obtain ⟨-, ⟨hafter, -⟩, hbefore⟩ := hsorted
  have hless : rows.countP (fun b => v b < v a) < before.length + 1 := by
    have hbehind : (a :: after).countP (fun b => v b < v a) = 0 := by
      refine List.countP_eq_zero.2 (List.forall_mem_cons.2 ⟨by simp, fun b hb => ?_⟩)
      simpa using hafter b hb
    rw [← h.perm.countP_eq, hsplit, List.countP_append, hbehind]
    exact Nat.lt_succ_of_le List.countP_le_length
  have hmore : before.length + 1 ≤ rows.countP fun b => v b ≤ v a := by
    have hall : before.countP (fun b => v b ≤ v a) = before.length :=
      List.countP_eq_length.2 fun b hb => decide_eq_true (hbefore b hb a (by simp))
    rw [← h.perm.countP_eq, hsplit, List.countP_append, hall,
      List.countP_cons_of_pos (by simp)]
    omega
  exact le_antisymm (not_lt.1 fun hlt => hclean ⟨hless, hlt⟩) hmore

/-- Where no value straddles it, a place cuts every arrangement into the same two parts. -/
theorem take_perm (h : Arranges v rows arranged) (h' : Arranges v rows other)
    (hclean : ∀ x, ¬ Straddles v rows n x) : (arranged.take n).Perm (other.take n) := by
  cases n with
  | zero => simp
  | succ m =>
      by_cases hlong : arranged.length ≤ m
      · have hlength : other.length = arranged.length :=
          h'.perm.length_eq.trans h.perm.length_eq.symm
        rw [List.take_of_length_le (by omega), List.take_of_length_le (by omega)]
        exact h.perm.trans h'.perm.symm
      · obtain ⟨before, a, after, hsplit, rfl⟩ := exists_split (not_le.1 hlong)
        have hcount := count_le_eq h hsplit (hclean _)
        have hdown : ∀ b c, v b ≤ v c → decide (v c ≤ v a) = true → decide (v b ≤ v a) = true :=
          fun b c hbc hc => decide_eq_true (hbc.trans (of_decide_eq_true hc))
        have hfirst := filter_eq_take hdown h.sorted
        have hfirst' := filter_eq_take hdown h'.sorted
        rw [h.perm.countP_eq, hcount] at hfirst
        rw [h'.perm.countP_eq, hcount] at hfirst'
        rw [← hfirst, ← hfirst']
        exact (h.perm.trans h'.perm.symm).filter _

/-- Rows of one value change places. -/
theorem Arranges.swap {before after : List α} {a b : α}
    (h : Arranges v rows (before ++ a :: b :: after)) (hvalue : v a = v b) :
    Arranges v rows (before ++ b :: a :: after) := by
  refine ⟨((List.Perm.swap a b after).append_left before).trans h.perm, ?_⟩
  have hsorted := h.sorted
  simp only [List.pairwise_append, List.pairwise_cons, List.forall_mem_cons, hvalue] at hsorted ⊢
  obtain ⟨hbefore, ⟨⟨-, hafter⟩, -, hrest⟩, hcross⟩ := hsorted
  exact ⟨hbefore, ⟨⟨le_rfl, hafter⟩, hafter, hrest⟩, fun c hc => by simpa using hcross c hc⟩

/-- Where a value straddles it, the two rows next to a place are of that value. -/
theorem exists_tie (h : Arranges v rows arranged) {m : ℕ} {x : κ}
    (hx : Straddles v rows (m + 1) x) : ∃ before a b after, before.length = m ∧
      arranged = before ++ a :: b :: after ∧ v a = v b := by
  obtain ⟨hless, hmore⟩ := hx
  rw [← h.perm.countP_eq] at hless hmore
  have hle := List.countP_le_length (p := fun a => decide (v a ≤ x)) (l := arranged)
  obtain ⟨front, b, after, hsplit, hlength⟩ := exists_split (show m + 1 < arranged.length by omega)
  obtain ⟨before, a, rfl⟩ : ∃ before a, front = before ++ [a] :=
    ⟨front.dropLast, front.getLast (List.ne_nil_of_length_pos (by omega)),
      (List.dropLast_append_getLast _).symm⟩
  rw [List.length_append, List.length_singleton, Nat.add_right_cancel_iff] at hlength
  rw [List.append_assoc, List.singleton_append] at hsplit
  refine ⟨before, a, b, after, hlength, hsplit, ?_⟩
  have hsorted := h.sorted
  simp only [hsplit, List.pairwise_append, List.pairwise_cons, List.forall_mem_cons] at hsorted
  obtain ⟨-, ⟨⟨hab, -⟩, hbafter, -⟩, hcross⟩ := hsorted
  have hbx : v b ≤ x := by
    by_contra hbx
    have hbehind : (b :: after).countP (fun c => v c ≤ x) = 0 := by
      refine List.countP_eq_zero.2 (List.forall_mem_cons.2 ⟨by simpa using hbx, fun c hc => ?_⟩)
      simpa using (not_le.1 hbx).trans_le (hbafter c hc)
    have hfront := List.countP_le_length (p := fun c => decide (v c ≤ x)) (l := before ++ [a])
    rw [hsplit, List.append_cons, List.countP_append, hbehind] at hmore
    rw [List.length_append, List.length_singleton] at hfront
    omega
  have hxa : x ≤ v a := by
    by_contra hxa
    have hall : (before ++ [a]).countP (fun c => v c < x) = (before ++ [a]).length := by
      refine List.countP_eq_length.2 fun c hc => decide_eq_true ?_
      rcases List.mem_append.1 hc with hc | hc
      · exact (hcross c hc).1.trans_lt (not_le.1 hxa)
      · rw [List.mem_singleton.1 hc]
        exact not_le.1 hxa
    rw [hsplit, List.append_cons, List.countP_append, hall, List.length_append,
      List.length_singleton] at hless
    omega
  exact le_antisymm hab (hbx.trans hxa)

/-! ## Every page from its own arrangement -/

theorem pageAt_perm (h : Arranges v rows arranged) (h' : Arranges v rows other) {k : ℕ}
    (hstart : ∀ x, ¬ Straddles v rows (k * n) x) (hstop : ∀ x, ¬ Straddles v rows ((k + 1) * n) x) :
    (pageAt n k arranged).Perm (pageAt n k other) := by
  have hwhole := take_perm h h' hstop
  rw [take_succ_mul, take_succ_mul] at hwhole
  exact (List.perm_append_left_iff _).1
    (((take_perm h h' hstart).symm.append_right _).trans hwhole)

/-- The pages are the rows, each once, for every choice of arrangements exactly when no value
straddles a page boundary. -/
theorem pages_exact_iff {pages : ℕ} (hnodup : rows.Nodup) (hn : 0 < n)
    (hpages : rows.length ≤ pages * n) :
    (∀ arr : ℕ → List α, (∀ k, Arranges v rows (arr k)) →
        ((List.range pages).flatMap fun k => pageAt n k (arr k)).Perm rows) ↔
      ∀ k x, ¬ Straddles v rows (k * n) x := by
  obtain ⟨base, hbase⟩ := exists_arranges v rows
  constructor
  · intro hexact k x hx
    obtain ⟨m, hm⟩ : ∃ m, k * n = m + 1 := Nat.exists_eq_succ_of_ne_zero (by
      have hpos := hx.1
      omega)
    rw [hm] at hx
    obtain ⟨before, a, b, after, hlength, rfl, hvalue⟩ := exists_tie hbase hx
    have hswap := hbase.swap hvalue
    -- The page after the boundary is cut once the two rows have changed places.
    set arr : ℕ → List α := fun j =>
      if j = k then before ++ b :: a :: after else before ++ a :: b :: after with harr
    have hperm := hexact arr fun j => by
      rw [harr]
      dsimp only
      split_ifs
      · exact hswap
      · exact hbase
    have hdisjoint := (List.nodup_flatMap.1 (hperm.nodup_iff.2 hnodup)).2
    obtain ⟨j, rfl⟩ : ∃ j, k = j + 1 := Nat.exists_eq_succ_of_ne_zero (by
      rintro rfl
      simp at hm)
    have hbound := hbase.perm.length_eq
    simp only [List.length_append, List.length_cons] at hbound
    have hlast : j + 1 < pages := Nat.lt_of_mul_lt_mul_right (a := n) (by omega)
    have hplace : j * n + (n - 1) = before.length := by
      rw [Nat.succ_mul] at hm
      omega
    have hbefore : a ∈ pageAt n j (arr j) := by
      rw [harr]
      dsimp only
      rw [if_neg (by omega)]
      exact mem_pageAt (i := n - 1) (by omega) (by rw [hplace]; simp)
    have hbehind : a ∈ pageAt n (j + 1) (arr (j + 1)) := by
      rw [harr]
      dsimp only
      rw [if_pos rfl]
      exact mem_pageAt hn (by rw [hm, hlength.symm]; simp)
    rw [List.pairwise_iff_getElem] at hdisjoint
    have hapart := hdisjoint j (j + 1) (by simpa using (Nat.lt_succ_self j).trans hlast)
      (by simpa using hlast) (Nat.lt_succ_self j)
    rw [List.getElem_range, List.getElem_range] at hapart
    exact hapart hbefore hbehind
  · intro hclean arr harr
    have hpage : ∀ k ∈ List.range pages, (pageAt n k (arr k)).Perm (pageAt n k base) :=
      fun k _ => pageAt_perm (harr k) hbase (hclean k) (hclean (k + 1))
    refine (List.Perm.flatMap_left _ hpage).trans ?_
    rw [flatMap_pageAt, List.take_of_length_le (hbase.perm.length_eq.trans_le hpages)]
    exact hbase.perm

end Lib
