import OfficeConnect.Core.Base
import OfficeConnect.Core.Decimal

/-!
# Money in the decimal context

A product, a quotient or a sum keeps 28 digits, halves to the even, and `quantize` raises where the
centavos do not fit into them.  A number is counted here in units of a place that it has no digits
beyond, so that the context makes of it what its digits say.
-/

namespace OfficeConnect

open Lib

namespace Decimal

/-! ## Twenty-eight digits -/

/-- A number of units as the context keeps it. -/
def inContext (n : ℤ) : ℤ :=
  if n.natAbs < 10 ^ 28 then n
  else
    let place := 10 ^ (digitCount n.natAbs - 28)
    n.sign * (divHalfEven n.natAbs place * place : ℕ)

section

variable {n : ℤ} {m k place : ℕ}

theorem digitCount_le_iff (hk : 0 < k) : digitCount m ≤ k ↔ m < 10 ^ k := Nat.length_repr_le_iff hk

theorem lt_digitCount_iff (hk : 0 < k) : k < digitCount m ↔ 10 ^ k ≤ m := by
  rw [← not_le, digitCount_le_iff hk, not_lt]

/-- Rounding moves a number by one place at most. -/
theorem divHalfEven_mul (hplace : 0 < place) :
    m ≤ divHalfEven m place * place + place ∧ divHalfEven m place * place ≤ m + place := by
  have hsplit := Nat.div_add_mod m place
  have hlt := Nat.mod_lt m hplace
  rw [mul_comm] at hsplit
  simp only [divHalfEven]
  split_ifs
  · rw [Nat.add_mul, one_mul]
    omega
  · omega

/-- Rounding keeps above every multiple of the place. -/
theorem mul_le_divHalfEven (hplace : 0 < place) (h : k * place ≤ m) :
    k * place ≤ divHalfEven m place * place := by
  have hk : k ≤ m / place := (Nat.le_div_iff_mul_le hplace).2 h
  refine Nat.mul_le_mul_right place (hk.trans ?_)
  simp only [divHalfEven]
  split_ifs <;> omega

theorem inContext_of_lt (h : |n| < 10 ^ 28) : inContext n = n := by
  refine if_pos ?_
  rw [Int.abs_eq_natAbs] at h
  exact_mod_cast h

@[simp] theorem inContext_zero : inContext 0 = 0 := inContext_of_lt (by norm_num)

theorem inContext_neg : inContext (-n) = -inContext n := by
  unfold inContext
  rw [Int.natAbs_neg, Int.sign_neg]
  split_ifs
  · rfl
  · simp only [neg_mul]

theorem inContext_of_ge (h : 10 ^ 28 ≤ n) : inContext n =
    (divHalfEven n.natAbs (10 ^ (digitCount n.natAbs - 28)) *
      10 ^ (digitCount n.natAbs - 28) : ℕ) := by
  have hpos : 0 < n := lt_of_lt_of_le (by norm_num) h
  have hnat : ¬ n.natAbs < 10 ^ 28 := by omega
  rw [inContext, if_neg hnat, Int.sign_eq_one_of_pos hpos, one_mul]

/-- A number of more digits keeps as many. -/
theorem pow_le_inContext (hk : 28 ≤ k) (h : (10 : ℤ) ^ k ≤ n) : (10 : ℤ) ^ k ≤ inContext n := by
  have hbig : (10 : ℤ) ^ 28 ≤ n := (pow_le_pow_right₀ (by norm_num) hk).trans h
  have hpos : 0 < n := lt_of_lt_of_le (by norm_num) hbig
  have hm : 10 ^ k ≤ n.natAbs := by
    have hcast : ((10 ^ k : ℕ) : ℤ) ≤ (n.natAbs : ℤ) := by
      rw [Int.natAbs_of_nonneg hpos.le]
      exact_mod_cast h
    exact_mod_cast hcast
  have hdigits : k < digitCount n.natAbs := (lt_digitCount_iff (by omega)).2 hm
  rw [inContext_of_ge hbig]
  -- the digits before the last 28 are a place, and the leading one is a multiple of it
  have htop : 10 ^ (digitCount n.natAbs - 1) ≤ n.natAbs :=
    (lt_digitCount_iff (by omega)).1 (by omega)
  have hsplit : 10 ^ 27 * 10 ^ (digitCount n.natAbs - 28) = 10 ^ (digitCount n.natAbs - 1) := by
    rw [← pow_add]
    congr 1
    omega
  have hkeep := mul_le_divHalfEven (by positivity) (hsplit.trans_le htop)
  have hle : 10 ^ k ≤ 10 ^ 27 * 10 ^ (digitCount n.natAbs - 28) := by
    rw [hsplit]
    exact Nat.pow_le_pow_right (by norm_num) (by omega)
  exact_mod_cast hle.trans hkeep

/-- No number crosses one that fits. -/
theorem lt_inContext_iff {a : ℤ} (hlow : -10 ^ 28 ≤ a) (hhigh : a < 10 ^ 28) :
    a < inContext n ↔ a < n := by
  rcases lt_or_ge |n| (10 ^ 28) with hsmall | hlarge
  · rw [inContext_of_lt hsmall]
  · rcases le_abs.1 hlarge with hpos | hneg
    · have hkeep := pow_le_inContext le_rfl hpos
      omega
    · have hkeep := pow_le_inContext le_rfl hneg
      rw [inContext_neg] at hkeep
      omega

/-- Nothing is rounded to fewer digits. -/
theorem abs_lt_of_inContext (hk : 28 ≤ k) (h : |inContext n| < 10 ^ k) : |n| < 10 ^ k := by
  by_contra hge
  rw [not_lt, le_abs] at hge
  rcases hge with hpos | hneg
  · exact absurd ((pow_le_inContext hk hpos).trans (le_abs_self _)) (not_le.2 h)
  · have hkeep := pow_le_inContext hk hneg
    rw [inContext_neg] at hkeep
    exact absurd (hkeep.trans (neg_le_abs _)) (not_le.2 h)

/-- What fits into the context is what was there before. -/
theorem inContext_of_inContext_lt (h : |inContext n| < 10 ^ 28) : inContext n = n :=
  inContext_of_lt (abs_lt_of_inContext le_rfl h)

/-- Up to thirty digits no more than two are lost. -/
theorem abs_inContext_sub_le (h : |n| < 10 ^ 30) : |inContext n - n| ≤ 100 := by
  have hnonneg : ∀ n : ℤ, 0 ≤ n → n < 10 ^ 30 → |inContext n - n| ≤ 100 := by
    intro n hn hlt
    rcases lt_or_ge n (10 ^ 28) with hsmall | hbig
    · rw [inContext_of_lt (by rwa [abs_of_nonneg hn])]
      norm_num
    · have hdigits : digitCount n.natAbs ≤ 30 := (digitCount_le_iff (by norm_num)).2 (by omega)
      have hplace : 10 ^ (digitCount n.natAbs - 28) ≤ 100 :=
        (Nat.pow_le_pow_right (by norm_num) (by omega : digitCount n.natAbs - 28 ≤ 2)).trans
          (by norm_num)
      have hpos : 0 < 10 ^ (digitCount n.natAbs - 28) := by positivity
      obtain ⟨hlow, hhigh⟩ := divHalfEven_mul (m := n.natAbs) hpos
      rw [inContext_of_ge hbig, abs_le]
      omega
  rcases le_total 0 n with hn | hn
  · exact hnonneg n hn (by rwa [abs_of_nonneg hn] at h)
  · have hneg := hnonneg (-n) (by omega) (by rwa [abs_of_nonpos hn] at h)
    rw [inContext_neg] at hneg
    rw [← abs_neg]
    convert hneg using 2
    ring

theorem divHalfEven_one : divHalfEven m 1 = m := by
  simp only [divHalfEven, Nat.mod_one, Nat.div_one]
  exact if_neg (by omega)

theorem divHalfEven_le (h : m < k * place) : divHalfEven m place ≤ k := by
  have hk : m / place < k := Nat.div_lt_of_lt_mul (by rwa [mul_comm])
  simp only [divHalfEven]
  split_ifs <;> omega

/-- What an operation makes of an exact result is that result in the context. -/
theorem finish_inContext {negative : Bool} {coefficient : ℕ} {exponent : ℤ} {d : Decimal}
    (hlow : -1000026 ≤ exponent) (hhigh : exponent ≤ 999999)
    (h : finish negative coefficient exponent = .ok d) :
    ∃ c e, d = finite negative c e ∧ exponent ≤ e ∧
      ((c * 10 ^ (e - exponent).toNat : ℕ) : ℤ) = inContext coefficient := by
  unfold finish at h
  by_cases hzero : coefficient = 0
  · rw [if_pos hzero] at h
    refine ⟨0, _, (Except.ok.inj h).symm, le_max_of_le_right (le_min le_rfl hhigh), ?_⟩
    simp [hzero]
  rw [if_neg hzero] at h
  dsimp only at h
  rcases lt_or_ge coefficient (10 ^ 28) with hsmall | hlarge
  · -- every digit is kept
    have hdigits : digitCount coefficient ≤ 28 := (digitCount_le_iff (by norm_num)).2 hsmall
    have htarget : max exponent (max (exponent + digitCount coefficient - 28) (-1000026)) =
        exponent := by omega
    rw [htarget, sub_self, Int.toNat_zero, pow_zero, divHalfEven_one,
      if_neg (by omega : ¬ digitCount coefficient = 29)] at h
    split_ifs at h
    refine ⟨coefficient, exponent, (Except.ok.inj h).symm, le_rfl, ?_⟩
    rw [sub_self, Int.toNat_zero, pow_zero, mul_one, inContext_of_lt]
    rw [Nat.abs_cast]
    exact_mod_cast hsmall
  · -- the digits before the last 28 are dropped
    have hdigits : 28 < digitCount coefficient := (lt_digitCount_iff (by norm_num)).2 hlarge
    have htarget : max exponent (max (exponent + digitCount coefficient - 28) (-1000026)) =
        exponent + (digitCount coefficient - 28 : ℕ) := by omega
    have hcontext := inContext_of_ge (n := coefficient) (by exact_mod_cast hlarge)
    rw [Int.natAbs_natCast] at hcontext
    rw [htarget, add_sub_cancel_left, Int.toNat_natCast] at h
    rw [hcontext]
    by_cases hcarry : digitCount (divHalfEven coefficient
        (10 ^ (digitCount coefficient - 28))) = 29
    · -- the rounding carries into a new digit, whose last one is a zero
      rw [if_pos hcarry] at h
      split_ifs at h
      have hbound : coefficient < 10 ^ 28 * 10 ^ (digitCount coefficient - 28) := by
        rw [← pow_add, ← digitCount_le_iff (by omega)]
        omega
      have hfull := (divHalfEven_le hbound).antisymm
        ((lt_digitCount_iff (k := 28) (by norm_num)).1 (by omega))
      refine ⟨_, _, (Except.ok.inj h).symm, by omega, ?_⟩
      have hplace : (exponent + (digitCount coefficient - 28 : ℕ) + 1 - exponent).toNat =
          digitCount coefficient - 28 + 1 := by omega
      rw [hplace, hfull, pow_succ]
      push_cast
      ring
    · rw [if_neg hcarry] at h
      split_ifs at h
      refine ⟨_, _, (Except.ok.inj h).symm, by omega, ?_⟩
      rw [add_sub_cancel_left, Int.toNat_natCast]

end

/-! ## Sums -/

/-- `sum(amounts, Decimal("0.00"))`, in centavos. -/
def contextSum (amounts : List ℤ) : ℤ := amounts.foldl (fun total a => inContext (total + a)) 0

section

variable {l : List ℤ} {a bound : ℤ}

@[simp] theorem contextSum_nil : contextSum [] = 0 := rfl

theorem contextSum_concat : contextSum (l ++ [a]) = inContext (contextSum l + a) := by
  rw [contextSum, contextSum, List.foldl_append]
  rfl

/-- A sum none of whose beginnings leaves the context is exact. -/
theorem contextSum_eq_sum (h : ∀ begun, begun <+: l → |begun.sum| < 10 ^ 28) :
    contextSum l = l.sum := by
  induction l using List.reverseRecOn with
  | nil => rfl
  | append_singleton l a ih =>
      have hwhole := h _ List.prefix_rfl
      rw [contextSum_concat, ih fun begun hbegun => h begun (hbegun.trans (List.prefix_append l [a])),
        inContext_of_lt]
      · rw [List.sum_append, List.sum_singleton]
      · rwa [List.sum_append, List.sum_singleton] at hwhole

theorem abs_sum_le (h : ∀ a ∈ l, |a| ≤ bound) : |l.sum| ≤ l.length * bound := by
  induction l with
  | nil => simp
  | cons a l ih =>
      have hfirst := h a (by simp)
      have hrest := ih fun b hb => h b (by simp [hb])
      rw [List.sum_cons, List.length_cons]
      push_cast
      calc |a + l.sum| ≤ |a| + |l.sum| := abs_add_le _ _
        _ ≤ bound + l.length * bound := add_le_add hfirst hrest
        _ = (l.length + 1) * bound := by ring

/-- Few enough small summands never leave the context. -/
theorem contextSum_of_bounded (h : ∀ a ∈ l, |a| ≤ bound) (hbound : l.length * bound < 10 ^ 28) :
    contextSum l = l.sum := by
  rcases l.eq_nil_or_concat with rfl | ⟨_, b, hl⟩
  · rfl
  have hpos : 0 ≤ bound := (abs_nonneg b).trans (h b (by simp [hl]))
  refine contextSum_eq_sum fun begun hbegun => ?_
  have hlength : (begun.length : ℤ) ≤ l.length := by exact_mod_cast hbegun.length_le
  calc |begun.sum| ≤ begun.length * bound := abs_sum_le fun a ha => h a (hbegun.subset ha)
    _ ≤ l.length * bound := mul_le_mul_of_nonneg_right hlength hpos
    _ < 10 ^ 28 := hbound

/-- Adding amounts that are not negative to a number that fits is exact as long as it does. -/
theorem foldl_inContext {start : ℤ} (h : ∀ a ∈ l, 0 ≤ a) (hlow : -10 ^ 28 < start)
    (hhigh : start + l.sum < 10 ^ 28) :
    l.foldl (fun total a => inContext (total + a)) start = start + l.sum := by
  induction l generalizing start with
  | nil => simp
  | cons a l ih =>
      have ha : 0 ≤ a := h a (by simp)
      have hl : ∀ b ∈ l, 0 ≤ b := fun b hb => h b (by simp [hb])
      have hsum : 0 ≤ l.sum := List.sum_nonneg hl
      rw [List.sum_cons] at hhigh ⊢
      have hfits : |start + a| < 10 ^ 28 := abs_lt.2 ⟨by omega, by omega⟩
      rw [List.foldl_cons, inContext_of_lt hfits, ih hl (by omega) (by omega), add_assoc]

/-- One amount among others that are not negative may be anything, if it fits. -/
theorem contextSum_insert {l' : List ℤ} (h : ∀ b ∈ l, 0 ≤ b) (h' : ∀ b ∈ l', 0 ≤ b)
    (hlow : -10 ^ 28 < a) (hbegun : l.sum < 10 ^ 28) (hsum : l.sum + (a + l'.sum) < 10 ^ 28) :
    contextSum (l ++ a :: l') = l.sum + (a + l'.sum) := by
  have hpos : 0 ≤ l.sum := List.sum_nonneg h
  have hpos' : 0 ≤ l'.sum := List.sum_nonneg h'
  have hfirst : l.foldl (fun total b => inContext (total + b)) 0 = 0 + l.sum :=
    foldl_inContext h (by norm_num) (by omega)
  have hfits : |0 + l.sum + a| < 10 ^ 28 := abs_lt.2 ⟨by omega, by omega⟩
  rw [contextSum, List.foldl_append, hfirst, List.foldl_cons, inContext_of_lt hfits,
    foldl_inContext h' (by omega) (by omega)]
  ring

/-- A sum of amounts that are not negative is exact, or too large for the context. -/
theorem contextSum_of_nonneg (h : ∀ a ∈ l, 0 ≤ a) :
    contextSum l = l.sum ∧ l.sum < 10 ^ 28 ∨ 10 ^ 28 ≤ contextSum l ∧ 10 ^ 28 ≤ l.sum := by
  induction l using List.reverseRecOn with
  | nil => exact .inl ⟨rfl, by norm_num⟩
  | append_singleton l a ih =>
      have ha : 0 ≤ a := h a (by simp)
      have hl : ∀ b ∈ l, 0 ≤ b := fun b hb => h b (by simp [hb])
      have hsum : 0 ≤ l.sum := List.sum_nonneg hl
      rw [contextSum_concat, List.sum_append, List.sum_singleton]
      rcases ih hl with ⟨hexact, -⟩ | ⟨hlarge, hlarge'⟩
      · rw [hexact]
        rcases lt_or_ge (l.sum + a) (10 ^ 28) with hlt | hge
        · exact .inl ⟨inContext_of_lt (by rwa [abs_of_nonneg (by omega)]), hlt⟩
        · exact .inr ⟨pow_le_inContext le_rfl hge, hge⟩
      · exact .inr ⟨pow_le_inContext le_rfl (by omega), by omega⟩

/-- Amounts that are not negative have an exact sum where it fits. -/
theorem contextSum_eq_of_fits (h : ∀ a ∈ l, 0 ≤ a) (hfits : |contextSum l| < 10 ^ 28) :
    contextSum l = l.sum ∧ l.sum < 10 ^ 28 := by
  rcases contextSum_of_nonneg h with hexact | ⟨hlarge, -⟩
  · exact hexact
  · exact absurd (abs_lt.1 hfits).2 (not_lt.2 hlarge)

/-- Lowering one of them to a number that fits keeps the sum in the context. -/
theorem contextSum_lowered {l' : List ℤ} {v : ℤ} (h : ∀ b ∈ l ++ a :: l', 0 ≤ b)
    (hfits : |contextSum (l ++ a :: l')| < 10 ^ 28) (hneg : v < 0) (hlow : -10 ^ 28 < v) :
    |contextSum (l ++ (a + v) :: l')| < 10 ^ 28 := by
  have hbound := (contextSum_eq_of_fits h hfits).2
  have hl : ∀ b ∈ l, 0 ≤ b := fun b hb => h b (by simp [hb])
  have hl' : ∀ b ∈ l', 0 ≤ b := fun b hb => h b (by simp [hb])
  have ha : 0 ≤ a := h a (by simp)
  have hsum : 0 ≤ l.sum := List.sum_nonneg hl
  have hsum' : 0 ≤ l'.sum := List.sum_nonneg hl'
  rw [List.sum_append, List.sum_cons] at hbound
  rw [contextSum_insert hl hl' (by omega) (by omega) (by omega), abs_lt]
  exact ⟨by omega, by omega⟩

/-- Where all but the last of the summands are small, a sum that fits is exact. -/
theorem contextSum_concat_eq (h : ∀ a ∈ l, |a| ≤ bound) (hbound : l.length * bound < 10 ^ 28)
    (hfits : |contextSum (l ++ [a])| < 10 ^ 28) : contextSum (l ++ [a]) = (l ++ [a]).sum := by
  rw [contextSum_concat, contextSum_of_bounded h hbound] at hfits ⊢
  rw [inContext_of_inContext_lt hfits, List.sum_append, List.sum_singleton]

end

end Decimal

/-! ## Quantizing -/

/-- `to_money` of a value: to the centavo, and no more than 28 digits of them. -/
def quantize (q : ℚ) : Except Raised ℤ := do
  refuse (10 ^ 28 ≤ |toMoney q|) .invalidOperation
  return toMoney q

/-- `to_money(sum(amounts, Decimal("0.00")))` of amounts in centavos. -/
def sumMoney (amounts : List ℤ) : Except Raised ℤ := do
  refuse (10 ^ 28 ≤ |Decimal.contextSum amounts|) .invalidOperation
  return Decimal.contextSum amounts

theorem quantize_eq_ok {q : ℚ} {c : ℤ} : quantize q = .ok c ↔ |c| < 10 ^ 28 ∧ toMoney q = c := by
  simp only [quantize, bind_eq_ok, refuse_eq_ok, not_le, pure_eq_ok, exists_const]
  constructor
  · rintro ⟨hfits, rfl⟩
    exact ⟨hfits, rfl⟩
  · rintro ⟨hfits, rfl⟩
    exact ⟨hfits, rfl⟩

/-- Quantizing the values of a list. -/
theorem mapM_quantize_eq_ok {α : Type} {f : α → ℚ} {l : List α} {l' : List (α × ℤ)} :
    (l.mapM fun a => do
      let value ← quantize (f a)
      return (a, value)) = .ok l' ↔
      (∀ a ∈ l, |toMoney (f a)| < 10 ^ 28) ∧ (l.map fun a => (a, toMoney (f a))) = l' := by
  induction l generalizing l' with
  | nil => simp
  | cons a l ih =>
      rw [List.mapM_cons, List.forall_mem_cons, List.map_cons]
      simp only [bind_eq_ok, pure_eq_ok, quantize_eq_ok, ih]
      constructor
      · rintro ⟨_, ⟨_, ⟨ha, rfl⟩, rfl⟩, _, ⟨hl, rfl⟩, rfl⟩
        exact ⟨⟨ha, hl⟩, rfl⟩
      · rintro ⟨⟨ha, hl⟩, rfl⟩
        exact ⟨_, ⟨_, ⟨ha, rfl⟩, rfl⟩, _, ⟨hl, rfl⟩, rfl⟩

theorem sumMoney_eq_ok {amounts : List ℤ} {c : ℤ} :
    sumMoney amounts = .ok c ↔ |c| < 10 ^ 28 ∧ Decimal.contextSum amounts = c := by
  simp only [sumMoney, bind_eq_ok, refuse_eq_ok, not_le, pure_eq_ok, exists_const]
  constructor
  · rintro ⟨hfits, rfl⟩
    exact ⟨hfits, rfl⟩
  · rintro ⟨hfits, rfl⟩
    exact ⟨hfits, rfl⟩

end OfficeConnect
