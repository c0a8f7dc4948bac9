import OfficeConnect.Lib.Offsets
import OfficeConnect.Reimbursement.HolidayWindow
import OfficeConnect.Reimbursement.Queue

/-!
# Claims stalled with FMS

The follow-up list keeps the externally held claims whose working days since the hand-off exceed a
threshold.  One scan, longest-waiting first and capped, and one holiday window decide which.  The
scan orders by the hand-off instant alone: each page runs a scan of its own, and claims handed over
at one instant may come in another order.
-/

namespace OfficeConnect.Reimbursement.Queue

open Lib Workflow

/-! ## The scan -/

/-- `EXTERNAL_SCAN_CAP`. -/
def externalScanCap : ℕ := 1000

/-- `MAX_LIMIT`. -/
def maxLimit : ℤ := 200

def holderSince (σ : Store) (claimId : ℕ) : Option Time :=
  σ.claims[claimId]?.bind (·.holderSince)

def heldByFms (σ : Store) (claimId : ℕ) : Prop :=
  ∃ claim ∈ σ.claims[claimId]?, claim.holderKind = some .externalFms

instance (σ : Store) (claimId : ℕ) : Decidable (heldByFms σ claimId) :=
  match h : σ.claims[claimId]? with
  | none => isFalse (by simp [heldByFms, h])
  | some claim =>
      decidable_of_iff (claim.holderKind = some .externalFms) (by simp [heldByFms, h])

/-- The claims of the query that FMS holds. -/
def externalClaims (scope : Bool × List ℕ) (q : QueueFilter) (σ : Store) : List ℕ :=
  (baseQuery scope q σ).filter fun claimId => heldByFms σ claimId

/-- The instant the scan orders by, nulls last. -/
def waitingSince (σ : Store) (claimId : ℕ) : WithTop ℤ := holderSince σ claimId

/-- The rows a request may read: in order of `holder_since`, ties in any order, up to the cap. -/
def IsScan (scope : Bool × List ℕ) (q : QueueFilter) (σ : Store) (scan : List ℕ) : Prop :=
  ∃ order, Arranges (waitingSince σ) (externalClaims scope q σ) order ∧
    scan = order.take externalScanCap

/-! ## Days with FMS -/

/-- The hand-off day of a claim that is with FMS. -/
def handedOver (σ : Store) (claimId : ℕ) : Option Day :=
  if heldByFms σ claimId then (holderSince σ claimId).map manilaDate else none

/-- `days_with_fms`: one holiday window for all rows. -/
def daysWithFms (holidays : List Holiday) (σ : Store) (rows : List ℕ) (now : Time) :
    List (ℕ × ℤ) :=
  let since := rows.filterMap fun claimId => (handedOver σ claimId).map fun day => (claimId, day)
  match (since.map Prod.snd).min? with
  | none => []
  | some earliest =>
      let today := manilaDate now
      let nonworking := loadNonworkingDates holidays (min earliest today) (max earliest today)
      since.map fun entry => (entry.1, max (workingDaysBetween entry.2 today nonworking) 0)

/-! ## The list -/

structure QueueItem where
  claimId : ℕ
  daysWithFms : Option ℤ
  externalFollowup : Bool
deriving DecidableEq, Repr

structure ClaimQueue where
  items : List QueueItem
  total : ℕ
deriving DecidableEq, Repr

def queueItem (days : List (ℕ × ℤ)) (threshold : ℤ) (claimId : ℕ) : QueueItem where
  claimId := claimId
  daysWithFms := days.lookup claimId
  externalFollowup := (days.lookup claimId).any (threshold < ·)

/-- `_urgency_first`: a stable sort that lifts the urgent items. -/
def urgencyFirst (overdue : ℕ → Bool) (items : List QueueItem) : List QueueItem :=
  let urgent (item : QueueItem) : Bool := item.externalFollowup || overdue item.claimId
  items.filter urgent ++ items.filter fun item => !urgent item

/-- `rows[start:stop]`: a negative bound counts from the end. -/
def slice {α : Type} (rows : List α) (start stop : ℤ) : List α :=
  let place (i : ℤ) : ℕ := (if i < 0 then i + rows.length else i).toNat
  (rows.take (place stop)).drop (place start)

/-- `GET /claims?external_over=true` on the rows it scanned; `overdue` is the SLA state of the
page's claims. -/
def externalOver (holidays : List Holiday) (σ : Store) (now : Time) (threshold limit offset : ℤ)
    (overdue : ℕ → Bool) (scan : List ℕ) : ClaimQueue :=
  let days := daysWithFms holidays σ scan now
  let matched := scan.filter fun claimId => threshold < (days.lookup claimId).getD 0
  let page := slice matched (max offset 0) (max offset 0 + min limit maxLimit)
  { items := urgencyFirst overdue (page.map (queueItem days threshold))
    total := matched.length }

/-! ## Each claim's own count -/

/-- The claim's own working days since the hand-off, by the whole holiday table, exceed the
threshold. -/
def overThreshold (holidays : List Holiday) (σ : Store) (now : Time) (threshold : ℤ)
    (claimId : ℕ) : Prop :=
  ∃ since ∈ holderSince σ claimId,
    threshold < workingDaysBetween (manilaDate since) (manilaDate now) (nonworkingDates holidays)

instance (holidays : List Holiday) (σ : Store) (now : Time) (threshold : ℤ) (claimId : ℕ) :
    Decidable (overThreshold holidays σ now threshold claimId) :=
  match h : holderSince σ claimId with
  | none => isFalse (by simp [overThreshold, h])
  | some since =>
      decidable_of_iff (threshold < workingDaysBetween (manilaDate since) (manilaDate now)
        (nonworkingDates holidays)) (by simp [overThreshold, h])

section

variable {holidays : List Holiday} {σ : Store} {now : Time} {threshold a b c lo hi : ℤ}
variable {claimId : ℕ} {rows : List ℕ} {nonworking : List Day}

theorem workingDaysBetween_window (hlo : lo ≤ a) (hab : a ≤ b) (hhi : b ≤ hi) :
    workingDaysBetween a b (loadNonworkingDates holidays lo hi) =
      workingDaysBetween a b (nonworkingDates holidays) := by
  rw [workingDaysBetween_eq_tally, workingDaysBetween_eq_tally]
  refine tally_congr (fun d had hdb => ?_) hab
  rw [isWorkingDay_window (hlo.trans had.le) (hdb.trans hhi)]

variable (nonworking) in
theorem workingDaysBetween_nonpos (hba : b ≤ a) : workingDaysBetween a b nonworking ≤ 0 := by
  rw [workingDaysBetween_eq_tally, tally_comm]
  have hback := tally_nonneg (p := fun d => isWorkingDay d nonworking = true) hba
  omega

/-- The later the start, the fewer the days. -/
theorem workingDaysBetween_anti (hab : a ≤ b) :
    workingDaysBetween b c nonworking ≤ workingDaysBetween a c nonworking := by
  rw [workingDaysBetween_eq_tally, workingDaysBetween_eq_tally,
    ← tally_add (fun d => isWorkingDay d nonworking = true) a b c]
  have hmore := tally_nonneg (p := fun d => isWorkingDay d nonworking = true) hab
  omega

theorem manilaDate_mono {s t : Time} (h : s ≤ t) : manilaDate s ≤ manilaDate t :=
  Int.ediv_le_ediv (by decide) (add_le_add_left h _)

/-- Whoever waits at least as long is over the threshold too. -/
theorem overThreshold_down {i j : ℕ} (hle : waitingSince σ i ≤ waitingSince σ j)
    (h : overThreshold holidays σ now threshold j) :
    overThreshold holidays σ now threshold i := by
  obtain ⟨since, hsince, hover⟩ := h
  unfold waitingSince at hle
  rw [Option.mem_def.1 hsince] at hle
  cases hi : holderSince σ i with
  | none =>
      rw [hi] at hle
      exact absurd (top_le_iff.1 hle) (WithTop.coe_ne_top)
  | some earlier =>
      rw [hi] at hle
      have hmono := manilaDate_mono (WithTop.coe_le_coe.1 hle)
      exact ⟨earlier, hi, hover.trans_le (workingDaysBetween_anti hmono)⟩

theorem lookup_filterMap {β : Type} (f : ℕ → Option β) :
    (rows.filterMap fun i => (f i).map fun b => (i, b)).lookup claimId =
      if claimId ∈ rows then f claimId else none := by
  induction rows with
  | nil => rfl
  | cons i rows ih =>
      by_cases hi : claimId = i
      · subst hi
        cases hf : f claimId with
        | none =>
            rw [List.filterMap_cons_none (by rw [hf]; rfl), ih, if_pos (List.mem_cons_self ..), hf]
            split_ifs
            · rfl
            · rfl
        | some b =>
            rw [List.filterMap_cons_some (by rw [hf]; rfl), List.lookup_cons_self,
              if_pos (List.mem_cons_self ..)]
      · have hmem : claimId ∈ i :: rows ↔ claimId ∈ rows := by simp [hi]
        cases hf : f i with
        | none => rw [List.filterMap_cons_none (by rw [hf]; rfl), ih, if_congr hmem rfl rfl]
        | some b =>
            rw [List.filterMap_cons_some (by rw [hf]; rfl), List.lookup_cons,
              beq_false_of_ne hi, if_congr hmem rfl rfl]
            exact ih

theorem lookup_map_values {β γ : Type} (f : ℕ → Option β) (g : β → γ) (hmem : claimId ∈ rows) :
    ((rows.filterMap fun i => (f i).map fun b => (i, b)).map fun entry =>
      (entry.1, g entry.2)).lookup claimId = (f claimId).map g := by
  have hshape : ((rows.filterMap fun i => (f i).map fun b => (i, b)).map fun entry =>
      (entry.1, g entry.2)) = rows.filterMap fun i => ((f i).map g).map fun c => (i, c) := by
    rw [List.map_filterMap]
    simp only [Option.map_map, Function.comp_def]
  rw [hshape, lookup_filterMap, if_pos hmem]

/-- A row that is not with FMS, or has no hand-off, has no count. -/
theorem lookup_daysWithFms_none (hmem : claimId ∈ rows) (hnone : handedOver σ claimId = none) :
    (daysWithFms holidays σ rows now).lookup claimId = none := by
  unfold daysWithFms
  dsimp only
  split
  · rfl
  · refine (lookup_map_values (handedOver σ) (fun day => max (workingDaysBetween day _ _) 0)
      hmem).trans ?_
    rw [hnone, Option.map_none]

variable (holidays now) in
/-- The shared window reaches back to the hand-off and up to today. -/
theorem lookup_daysWithFms_some {day : Day} (hmem : claimId ∈ rows)
    (hday : handedOver σ claimId = some day) : ∃ lo ≤ day, ∃ hi ≥ manilaDate now,
      (daysWithFms holidays σ rows now).lookup claimId =
        some (max (workingDaysBetween day (manilaDate now)
          (loadNonworkingDates holidays lo hi)) 0) := by
  have hentry : day ∈ (rows.filterMap fun i =>
      (handedOver σ i).map fun day => (i, day)).map Prod.snd := by
    refine List.mem_map_of_mem (f := Prod.snd) (a := (claimId, day)) (List.mem_filterMap.2 ?_)
    exact ⟨claimId, hmem, by rw [hday]; rfl⟩
  obtain ⟨earliest, hmin⟩ := Option.ne_none_iff_exists'.1
    (mt List.min?_eq_none_iff.1 (List.ne_nil_of_mem hentry))
  have hearliest := (List.min?_eq_some_iff.1 hmin).2 day hentry
  refine ⟨min earliest (manilaDate now), (min_le_left _ _).trans hearliest,
    max earliest (manilaDate now), le_max_right _ _, ?_⟩
  unfold daysWithFms
  dsimp only
  rw [hmin]
  dsimp only
  refine (lookup_map_values (handedOver σ) (fun day => max (workingDaysBetween day _ _) 0)
    hmem).trans ?_
  rw [hday, Option.map_some]

/-- The shared holiday window gives every row its own count. -/
theorem over_daysWithFms (hmem : claimId ∈ rows) (hheld : heldByFms σ claimId)
    (hthreshold : 0 ≤ threshold) :
    threshold < ((daysWithFms holidays σ rows now).lookup claimId).getD 0 ↔
      overThreshold holidays σ now threshold claimId := by
  have hhanded : handedOver σ claimId = (holderSince σ claimId).map manilaDate := if_pos hheld
  unfold overThreshold
  cases hsince : holderSince σ claimId with
  | none =>
      rw [lookup_daysWithFms_none hmem (by rw [hhanded, hsince]; rfl)]
      exact iff_of_false (not_lt.2 hthreshold) (by simp)
  | some since =>
      obtain ⟨lo, hlo, hi, hhi, hlookup⟩ := lookup_daysWithFms_some holidays now hmem
        (by rw [hhanded, hsince]; rfl)
      rw [hlookup, Option.getD_some]
      simp only [Option.mem_some_iff, exists_eq_left', lt_max_iff, not_lt.2 hthreshold, or_false]
      by_cases hpast : manilaDate since ≤ manilaDate now
      · rw [workingDaysBetween_window hlo hpast hhi]
      · have hfuture := (not_le.1 hpast).le
        have hzero := workingDaysBetween_nonpos (loadNonworkingDates holidays lo hi) hfuture
        have hzero' := workingDaysBetween_nonpos (nonworkingDates holidays) hfuture
        exact iff_of_false (by omega) (by omega)

end

/-! ## One scan -/

section

variable {holidays : List Holiday} {σ : Store} {now : Time} {threshold : ℤ}
variable {scope : Bool × List ℕ} {q : QueueFilter} {scan order : List ℕ} {claimId : ℕ}

/-- The claims of the query that are stalled with FMS. -/
def stalled (holidays : List Holiday) (σ : Store) (now : Time) (threshold : ℤ)
    (scope : Bool × List ℕ) (q : QueueFilter) : List ℕ :=
  (externalClaims scope q σ).filter fun claimId => overThreshold holidays σ now threshold claimId

/-- What a request keeps of its scan. -/
def matchedOf (holidays : List Holiday) (σ : Store) (now : Time) (threshold : ℤ)
    (scan : List ℕ) : List ℕ :=
  scan.filter fun claimId => threshold < ((daysWithFms holidays σ scan now).lookup claimId).getD 0

theorem matchedOf_eq (hheld : ∀ claimId ∈ scan, heldByFms σ claimId) (hthreshold : 0 ≤ threshold) :
    matchedOf holidays σ now threshold scan =
      scan.filter fun claimId => overThreshold holidays σ now threshold claimId :=
  List.filter_congr fun claimId hmem => by
    rw [decide_eq_decide]
    exact over_daysWithFms hmem (hheld claimId hmem) hthreshold

/-- The cap cuts off claims under the threshold only. -/
theorem matchedOf_take (hthreshold : 0 ≤ threshold)
    (horder : Arranges (waitingSince σ) (externalClaims scope q σ) order)
    (hcap : (stalled holidays σ now threshold scope q).length ≤ externalScanCap) :
    matchedOf holidays σ now threshold (order.take externalScanCap) =
      order.filter fun claimId => overThreshold holidays σ now threshold claimId := by
  have hheld : ∀ claimId ∈ order.take externalScanCap, heldByFms σ claimId := fun claimId hmem => by
    have hrow := horder.perm.mem_iff.1 (List.take_subset _ _ hmem)
    exact of_decide_eq_true (List.mem_filter.1 hrow).2
  rw [matchedOf_eq hheld hthreshold]
  refine filter_take (v := waitingSince σ) (fun i j hle hj => ?_) horder.sorted ?_
  · exact decide_eq_true (overThreshold_down hle (of_decide_eq_true hj))
  · rw [horder.perm.countP_eq, List.countP_eq_length_filter]
    exact hcap

/-- Every scan keeps the stalled claims, longest-waiting first. -/
theorem matchedOf_arranges (hthreshold : 0 ≤ threshold) (hscan : IsScan scope q σ scan)
    (hcap : (stalled holidays σ now threshold scope q).length ≤ externalScanCap) :
    Arranges (waitingSince σ) (stalled holidays σ now threshold scope q)
      (matchedOf holidays σ now threshold scan) := by
  obtain ⟨order, horder, rfl⟩ := hscan
  rw [matchedOf_take hthreshold horder hcap]
  exact horder.filter _

/-- Every order of the ties comes from some scan. -/
theorem exists_scan (hthreshold : 0 ≤ threshold)
    (hcap : (stalled holidays σ now threshold scope q).length ≤ externalScanCap) {kept : List ℕ}
    (hkept : Arranges (waitingSince σ) (stalled holidays σ now threshold scope q) kept) :
    ∃ scan, IsScan scope q σ scan ∧ matchedOf holidays σ now threshold scan = kept := by
  obtain ⟨order, horder, hfilter⟩ := hkept.extend fun i j hle hj =>
    decide_eq_true (overThreshold_down hle (of_decide_eq_true hj))
  exact ⟨_, ⟨order, horder, rfl⟩, (matchedOf_take hthreshold horder hcap).trans hfilter⟩

end

/-! ## The pages -/

section

variable {holidays : List Holiday} {σ : Store} {now : Time} {threshold limit : ℤ} {k : ℕ}
variable {overdue : ℕ → Bool} {scan : List ℕ}

theorem slice_eq_pageAt {α : Type} (rows : List α) {n : ℤ} (hn : 0 ≤ n) (k : ℕ) :
    slice rows (k * n) (k * n + n) = pageAt n.toNat k rows := by
  obtain ⟨n, rfl⟩ := Int.eq_ofNat_of_zero_le hn
  have hstart : ((k : ℤ) * n) = ((k * n : ℕ) : ℤ) := by push_cast; rfl
  unfold slice pageAt
  dsimp only
  rw [hstart, if_neg (by omega), if_neg (by omega), List.drop_take]
  congr 1
  omega

/-- All items of a page are for follow-up, so none is lifted over another. -/
theorem urgencyFirst_of_followup {items : List QueueItem}
    (h : ∀ item ∈ items, item.externalFollowup = true) : urgencyFirst overdue items = items := by
  unfold urgencyFirst
  dsimp only
  rw [List.filter_eq_self.2 fun item hitem => by rw [h item hitem, Bool.true_or],
    List.filter_eq_nil_iff.2 fun item hitem => by simp [h item hitem], List.append_nil]

/-- The response's items are a page of what the scan kept, in its order. -/
theorem externalOver_items (hthreshold : 0 ≤ threshold) (hlimit : 1 ≤ limit) :
    (externalOver holidays σ now threshold limit (k * min limit maxLimit) overdue scan).items.map
        (·.claimId) =
      pageAt (min limit maxLimit).toNat k (matchedOf holidays σ now threshold scan) := by
  have hsize : 0 ≤ min limit maxLimit := by unfold maxLimit; omega
  unfold externalOver
  dsimp only
  rw [max_eq_left (mul_nonneg (Int.natCast_nonneg k) hsize), slice_eq_pageAt _ hsize]
  change (urgencyFirst overdue
    ((pageAt _ k (matchedOf holidays σ now threshold scan)).map _)).map _ = _
  rw [urgencyFirst_of_followup, List.map_map]
  · exact List.map_id _
  · intro item hitem
    obtain ⟨claimId, hmem, rfl⟩ := List.mem_map.1 hitem
    have hkept := List.mem_of_mem_drop (List.mem_of_mem_take hmem)
    have hover := of_decide_eq_true (List.mem_filter.1 hkept).2
    unfold queueItem
    dsimp only
    cases hlookup : (daysWithFms holidays σ scan now).lookup claimId with
    | none =>
        rw [hlookup, Option.getD_none] at hover
        omega
    | some days =>
        rw [hlookup, Option.getD_some] at hover
        simpa using hover

end

/-- Claims over the threshold, read page by page while requests may break ties of the hand-off
instant in any way: each is listed exactly once, and no other, if and only if no such tie is on both
sides of a page boundary. -/
theorem external_over_exact_iff (holidays : List Holiday) (σ : Store) (now : Time)
    (threshold limit : ℤ) (scope : Bool × List ℕ) (q : QueueFilter) (overdue : ℕ → Bool)
    (pages : ℕ) (hthreshold : 0 ≤ threshold) (hlimit : 1 ≤ limit)
    (hcap : (stalled holidays σ now threshold scope q).length ≤ externalScanCap)
    (hpages : (stalled holidays σ now threshold scope q).length ≤
      pages * (min limit maxLimit).toNat) :
    (∀ scans : ℕ → List ℕ, (∀ k, IsScan scope q σ (scans k)) →
      ((List.range pages).flatMap fun k : ℕ =>
        (externalOver holidays σ now threshold limit (k * min limit maxLimit) overdue
          (scans k)).items.map (·.claimId)).Perm (stalled holidays σ now threshold scope q)) ↔
      ∀ (k : ℕ) (since : WithTop ℤ), ¬ Straddles (waitingSince σ)
        (stalled holidays σ now threshold scope q) (k * (min limit maxLimit).toNat) since := by
  have hnodup : (stalled holidays σ now threshold scope q).Nodup :=
    ((List.nodup_range.filter _).filter _).filter _
  have hsize : 0 < (min limit maxLimit).toNat := by unfold maxLimit; omega
  rw [← pages_exact_iff hnodup hsize hpages]
  simp only [externalOver_items hthreshold hlimit]
  constructor
  · intro h kept hkept
    choose scans hscans hmatched using fun k => exists_scan hthreshold hcap (hkept k)
    simpa only [hmatched] using h scans hscans
  · intro h scans hscans
    exact h _ fun k => matchedOf_arranges hthreshold (hscans k) hcap

/-- Two claims that FMS has held since the given instants. -/
def fmsStore (first second : Time) : Store where
  claims := [
    { kind := .reimbursement, claimantId := 0, status := .handedToFms, workflowInstanceId := some 0
      holderKind := some .externalFms, holderSince := some first },
    { kind := .reimbursement, claimantId := 1, status := .handedToFms, workflowInstanceId := some 1
      holderKind := some .externalFms, holderSince := some second }]
  instances := [
    { definitionVersionId := 1, currentStateId := 1, originatorUserId := some 3
      orgUnitId := some 2, amount := none },
    { definitionVersionId := 1, currentStateId := 1, originatorUserId := some 4
      orgUnitId := some 2, amount := none }]

/-- Handed over a minute apart and twenty days ago, they fill two pages of one. -/
theorem apart_listed_once :
    ((List.range 2).flatMap fun k : ℕ =>
      (externalOver [] (fmsStore 0 60) (20 * 86400) 10 1 (k * min 1 maxLimit) (fun _ => false)
        [0, 1]).items.map (·.claimId)).Perm
      (stalled [] (fmsStore 0 60) (20 * 86400) 10 (true, []) {}) :=
  (external_over_exact_iff [] (fmsStore 0 60) (20 * 86400) 10 1 (true, []) {} (fun _ => false) 2
    (by decide) (by decide) (by decide +kernel) (by decide +kernel)).2
    (fun _ _ => not_straddles_of_nodup (by decide +kernel) _ _) (fun _ => [0, 1])
    fun _ => ⟨[0, 1], ⟨by decide +kernel, by decide +kernel⟩, by decide⟩

/-- Handed over together, the two pages may both list the first and never the second. -/
theorem together_listed_twice :
    (∀ k, IsScan (true, []) {} (fmsStore 0 0) (if k = 0 then [0, 1] else [1, 0])) ∧
      stalled [] (fmsStore 0 0) (20 * 86400) 10 (true, []) {} = [0, 1] ∧
      ((List.range 2).flatMap fun k : ℕ =>
        (externalOver [] (fmsStore 0 0) (20 * 86400) 10 1 (k * min 1 maxLimit) (fun _ => false)
          (if k = 0 then [0, 1] else [1, 0])).items.map (·.claimId)) = [0, 0] := by
  refine ⟨fun k => ?_, by decide +kernel, by decide +kernel⟩
  refine ⟨if k = 0 then [0, 1] else [1, 0], ?_, ?_⟩
  · split_ifs
    · exact ⟨by decide +kernel, by decide +kernel⟩
    · exact ⟨by decide +kernel, by decide +kernel⟩
  · split_ifs
    · rfl
    · rfl

end OfficeConnect.Reimbursement.Queue
