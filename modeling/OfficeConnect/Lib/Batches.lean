import Mathlib.Tactic

/-!
# A queue served in batches

Each round takes the first `limit` of a queue, finishes the good ones and leaves the bad ones where
they were.  The bad ones pile up in front: whoever has `limit` of them ahead is never reached.  A
broken one undoes the round that takes it, and every later one.
-/

namespace Lib

variable {α : Type*} {limit n : ℕ} {bad broken : α → Bool} {queue before after : List α} {a : α}

/-- One round. -/
def serve (limit : ℕ) (bad : α → Bool) (queue : List α) : List α :=
  (queue.take limit).filter bad ++ queue.drop limit

/-- A round finishes no bad one. -/
theorem filter_serve : (serve limit bad queue).filter bad = queue.filter bad := by
  rw [serve, List.filter_append, List.filter_filter]
  simp only [Bool.and_self]
  rw [← List.filter_append, List.take_append_drop]

theorem serve_append (h : limit ≤ before.length) :
    serve limit bad (before ++ after) = serve limit bad before ++ after := by
  rw [serve, serve, List.take_append_of_le_length h, List.drop_append_of_le_length h,
    List.append_assoc]

theorem length_filter_le_serve (h : limit ≤ (before.filter bad).length) :
    limit ≤ before.length := h.trans (List.length_filter_le _ _)

/-- A round that does not reach the end shortens the queue if it meets a good one. -/
theorem length_serve_lt (hlength : limit ≤ queue.length) (hbad : (queue.filter bad).length < limit) :
    (serve limit bad queue).length < queue.length := by
  have htake : ((queue.take limit).filter bad).length ≤ (queue.filter bad).length :=
    ((List.take_sublist limit queue).filter bad).length_le
  rw [serve, List.length_append, List.length_drop]
  omega

/-- With `limit` bad ones ahead it is never reached. -/
theorem mem_serve_of_le (h : limit ≤ (before.filter bad).length) :
    a ∈ (serve limit bad)^[n] (before ++ a :: after) := by
  induction n generalizing before with
  | zero => simp
  | succ n ih =>
      rw [Function.iterate_succ_apply, serve_append (length_filter_le_serve h)]
      exact ih (by rwa [filter_serve])

/-- With fewer it is. -/
theorem exists_serve_of_lt (hbad : (before.filter bad).length < limit) (hgood : bad a = false)
    (hafter : a ∉ after) : ∃ n, a ∉ (serve limit bad)^[n] (before ++ a :: after) := by
  induction hn : before.length using Nat.strong_induction_on generalizing before with
  | _ n ih =>
      by_cases hlength : limit ≤ before.length
      · obtain ⟨n, hn⟩ := ih _ (hn ▸ length_serve_lt hlength hbad) (by rwa [filter_serve]) rfl
        refine ⟨n + 1, ?_⟩
        rw [Function.iterate_succ_apply, serve_append hlength]
        exact hn
      · refine ⟨1, fun hmem => ?_⟩
        have hround : (serve limit bad)^[1] (before ++ a :: after) =
            serve limit bad (before ++ a :: after) := rfl
        rw [hround, serve] at hmem
        rcases List.mem_append.1 hmem with hfront | hrest
        · rw [(List.mem_filter.1 hfront).2] at hgood
          cases hgood
        · obtain ⟨k, hk⟩ : ∃ k, limit = before.length + (k + 1) := ⟨limit - before.length - 1, by omega⟩
          rw [hk, List.drop_length_add_append, List.drop_succ_cons] at hrest
          exact hafter (List.mem_of_mem_drop hrest)

/-- A good one is served some time exactly if fewer than `limit` bad ones stand before it. -/
theorem served_iff (limit : ℕ) (hnodup : (before ++ a :: after).Nodup) (hgood : bad a = false) :
    (∃ n, a ∉ (serve limit bad)^[n] (before ++ a :: after)) ↔
      (before.filter bad).length < limit := by
  constructor
  · rintro ⟨n, hn⟩
    by_contra hle
    exact hn (mem_serve_of_le (not_lt.1 hle))
  · intro hbad
    exact exists_serve_of_lt hbad hgood (List.nodup_cons.1 (List.nodup_append.1 hnodup).2.1).1

/-! ## How far the rounds reach -/

/-- How many of the queue the first `n` rounds have taken in. -/
def reach (limit : ℕ) (bad : α → Bool) (queue : List α) : ℕ → ℕ
  | 0 => 0
  | n + 1 => reach limit bad queue n +
      (limit - ((queue.take (reach limit bad queue n)).filter bad).length)

/-- The bad ones that are left never fill more than a round. -/
theorem length_filter_reach :
    ((queue.take (reach limit bad queue n)).filter bad).length ≤ limit := by
  induction n with
  | zero => simp [reach]
  | succ n ih =>
      have hnew : (((queue.drop (reach limit bad queue n)).take
          (limit - ((queue.take (reach limit bad queue n)).filter bad).length)).filter bad).length ≤
            limit - ((queue.take (reach limit bad queue n)).filter bad).length :=
        (List.length_filter_le _ _).trans (List.length_take_le _ _)
      rw [reach, List.take_add, List.filter_append, List.length_append]
      omega

/-- What one round takes: the bad ones that are left, then new ones. -/
theorem take_left_over (m : ℕ) (h : ((queue.take m).filter bad).length ≤ limit) :
    ((queue.take m).filter bad ++ queue.drop m).take limit = (queue.take m).filter bad ++
      (queue.drop m).take (limit - ((queue.take m).filter bad).length) := by
  rw [List.take_append, List.take_of_length_le h]

/-- After `n` rounds: the bad ones among those taken in, and the rest. -/
theorem iterate_serve : (serve limit bad)^[n] queue =
    (queue.take (reach limit bad queue n)).filter bad ++ queue.drop (reach limit bad queue n) := by
  induction n with
  | zero => simp [reach]
  | succ n ih =>
      have hle : ((queue.take (reach limit bad queue n)).filter bad).length ≤ limit :=
        length_filter_reach
      rw [Function.iterate_succ_apply', ih, serve, take_left_over _ hle, reach, List.take_add,
        List.filter_append, List.filter_append, List.filter_filter, List.drop_append,
        List.drop_of_length_le hle, List.nil_append, List.drop_drop]
      simp only [Bool.and_self]

/-! ## Rounds that a broken one undoes -/

/-- One round, undone if it takes a broken one. -/
def serveUnless (limit : ℕ) (bad broken : α → Bool) (queue : List α) : List α :=
  if (queue.take limit).any broken then queue else serve limit bad queue

/-- A round after unbroken ones: it is undone, or it leaves what `serve` leaves. -/
theorem serveUnless_iterate (h : ∀ b ∈ queue.take (reach limit bad queue n), broken b = false) :
    serveUnless limit bad broken ((serve limit bad)^[n] queue) = (serve limit bad)^[n] queue ∨
      (serveUnless limit bad broken ((serve limit bad)^[n] queue) =
          (serve limit bad)^[n + 1] queue ∧
        ∀ b ∈ queue.take (reach limit bad queue (n + 1)), broken b = false) := by
  by_cases hany : (((serve limit bad)^[n] queue).take limit).any broken = true
  · exact .inl (if_pos hany)
  · right
    refine ⟨(if_neg hany).trans (Function.iterate_succ_apply' ..).symm, fun b hb => ?_⟩
    rw [iterate_serve, take_left_over _ length_filter_reach, List.any_append, Bool.or_eq_true,
      not_or] at hany
    rw [reach, List.take_add] at hb
    rcases List.mem_append.1 hb with hold | hnew
    · exact h b hold
    · exact Bool.eq_false_iff.2 fun hbroken => hany.2 (List.any_eq_true.2 ⟨b, hnew, hbroken⟩)

/-- Every state is one that unbroken rounds lead to. -/
theorem exists_iterate_serve (n : ℕ) : ∃ m,
    (serveUnless limit bad broken)^[n] queue = (serve limit bad)^[m] queue ∧
      ∀ b ∈ queue.take (reach limit bad queue m), broken b = false := by
  induction n with
  | zero => exact ⟨0, rfl, by simp [reach]⟩
  | succ n ih =>
      obtain ⟨m, hm, hunbroken⟩ := ih
      rw [Function.iterate_succ_apply', hm]
      rcases serveUnless_iterate hunbroken with hundone | ⟨hdone, hnext⟩
      · exact ⟨m, hundone, hunbroken⟩
      · exact ⟨m + 1, hdone, hnext⟩

/-- Rounds that take in nothing broken are not undone. -/
theorem serveUnless_eq_serve (h : ∀ b ∈ queue.take (reach limit bad queue n), broken b = false) :
    (serveUnless limit bad broken)^[n] queue = (serve limit bad)^[n] queue := by
  induction n with
  | zero => rfl
  | succ n ih =>
      have hbefore : ∀ b ∈ queue.take (reach limit bad queue n), broken b = false := by
        intro b hb
        rw [reach, List.take_add] at h
        exact h b (List.mem_append_left _ hb)
      rw [Function.iterate_succ_apply', ih hbefore, Function.iterate_succ_apply', serveUnless]
      refine if_neg fun hany => ?_
      rw [iterate_serve, take_left_over _ length_filter_reach] at hany
      obtain ⟨b, hb, hbroken⟩ := List.any_eq_true.1 hany
      have hseen : b ∈ queue.take (reach limit bad queue (n + 1)) := by
        rw [reach, List.take_add]
        rcases List.mem_append.1 hb with hold | hnew
        · exact List.mem_append_left _ (List.mem_of_mem_filter hold)
        · exact List.mem_append_right _ hnew
      rw [h b hseen] at hbroken
      cases hbroken

/-- A good one is served some time exactly if some number of rounds takes it in and nothing
broken. -/
theorem served_unless_iff (hnodup : queue.Nodup) (hmem : a ∈ queue) (hgood : bad a = false) :
    (∃ n, a ∉ (serveUnless limit bad broken)^[n] queue) ↔
      ∃ n, a ∈ queue.take (reach limit bad queue n) ∧
        ∀ b ∈ queue.take (reach limit bad queue n), broken b = false := by
  have hsplit : ∀ m, queue = queue.take m ++ queue.drop m := fun m =>
    (List.take_append_drop m queue).symm
  constructor
  · rintro ⟨n, hn⟩
    obtain ⟨m, hm, hunbroken⟩ : ∃ m,
        (serveUnless limit bad broken)^[n] queue = (serve limit bad)^[m] queue ∧
          ∀ b ∈ queue.take (reach limit bad queue m), broken b = false := exists_iterate_serve n
    refine ⟨m, ?_, hunbroken⟩
    rw [hm, iterate_serve, List.mem_append, not_or] at hn
    rw [hsplit (reach limit bad queue m)] at hmem
    exact (List.mem_append.1 hmem).resolve_right hn.2
  · rintro ⟨n, hseen, hunbroken⟩
    refine ⟨n, fun hleft => ?_⟩
    rw [serveUnless_eq_serve hunbroken, iterate_serve] at hleft
    rw [hsplit (reach limit bad queue n)] at hnodup
    rcases List.mem_append.1 hleft with hbad | hrest
    · rw [(List.mem_filter.1 hbad).2] at hgood
      cases hgood
    · exact (List.nodup_append.1 hnodup).2.2 a hseen a hrest rfl

end Lib
