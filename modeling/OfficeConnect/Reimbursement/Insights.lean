import Mathlib.Data.String.Basic
import OfficeConnect.Lib.Dicts
import OfficeConnect.Lib.Table
import OfficeConnect.Reimbursement.Queue
import OfficeConnect.Reimbursement.ReturnLog

/-!
# The ranking of return reasons

The reasons packets come back for, counted over a window and the window before it.  The stored lists
of reasons are unnested and grouped, so a return that names a reason twice counts twice.
-/

namespace OfficeConnect.Reimbursement.Insights

open Lib Workflow Queue

/-! ## The catalog and the ranking -/

inductive ReasonCategory where
  | missingDoc | wrongAmount | wrongForm | noSignature | late | policy | other
deriving DecidableEq, Repr

structure ReasonRow where
  id : ℕ
  code : String
  label : String
  category : ReasonCategory
  promotedCheck : Bool := false
  isActive : Bool := true
  deleted : Bool := false
deriving DecidableEq, Repr

inductive Trend where
  | up | down | flat | new
deriving DecidableEq, Repr

structure ReasonRank where
  reasonId : ℕ
  code : String
  label : String
  category : ReasonCategory
  count : ℕ
  priorCount : ℕ
  trend : Trend
  promoted : Bool
  isActive : Bool
deriving DecidableEq, Repr

structure Ranking where
  windowDays : ℤ
  periodStart : Day
  totalReturns : ℕ
  items : List ReasonRank
deriving DecidableEq, Repr

/-- A first appearance is no rise. -/
def trend (count prior : ℕ) : Trend :=
  if prior = 0 then if count ≠ 0 then .new else .flat
  else if prior < count then .up
  else if count < prior then .down
  else .flat

/-! ## The query -/

/-- The start of the window, and of the window before it. -/
def windowCutoffs (now : Time) (days : ℤ) : Time × Time :=
  let cutoff := now - days * 86400
  (cutoff, cutoff - days * 86400)

/-- A row of the log, with the instant the database wrote it at. -/
structure StampedReturn where
  event : ReturnEvent
  createdAt : Time

def stampedReturns (createdAt : ℕ → Time) (σ : Store) : List StampedReturn :=
  σ.returnEvents.zipIdx.map fun row => ⟨row.1, createdAt row.2⟩

/-- The returns of the claims inside the scope, terminal ones included, in both windows. -/
def eventsQuery (scope : Bool × List ℕ) (priorCutoff : Time) (createdAt : ℕ → Time) (σ : Store) :
    List StampedReturn :=
  (stampedReturns createdAt σ).filter fun row =>
    row.event.claimId ∈ baseQuery scope { includeTerminal := true } σ ∧ priorCutoff ≤ row.createdAt

/-- One row for every element of the stored lists. -/
def unnested (rows : List StampedReturn) : List (ℕ × Time) :=
  rows.flatMap fun row => row.event.reasonIds.map fun reason => (reason, row.createdAt)

/-- The group of a reason, with its conditional counts. -/
def tallyOf (cutoff priorCutoff : Time) (elements : List (ℕ × Time)) (reason : ℕ) : ℕ × ℕ × ℕ :=
  (reason, elements.countP fun e => e.1 = reason ∧ cutoff ≤ e.2,
    elements.countP fun e => e.1 = reason ∧ priorCutoff ≤ e.2 ∧ e.2 < cutoff)

/-- The grouped query's answer: a row for every reason there is, in any order. -/
def IsTallied (cutoff priorCutoff : Time) (elements : List (ℕ × Time))
    (tallies : List (ℕ × ℕ × ℕ)) : Prop :=
  ∃ order : List ℕ, order.Nodup ∧ (∀ reason, reason ∈ order ↔ ∃ e ∈ elements, e.1 = reason) ∧
    tallies = order.map (tallyOf cutoff priorCutoff elements)

/-- The ranked row of a tally, where the reason has a row in the catalog, live or not. -/
def rankOf (catalog : List ReasonRow) (tally : ℕ × ℕ × ℕ) : Option ReasonRank :=
  (lastWith (·.id) catalog tally.1).map fun row => {
    reasonId := tally.1
    code := row.code
    label := row.label
    category := row.category
    count := tally.2.1
    priorCount := tally.2.2
    trend := trend tally.2.1 tally.2.2
    promoted := row.promotedCheck
    isActive := row.isActive && !row.deleted }

/-- By count, then by the count before, then by label. -/
def rankKey (item : ReasonRank) : ℤ ×ₗ ℤ ×ₗ String :=
  toLex (-(item.count : ℤ), toLex (-(item.priorCount : ℤ), item.label))

/-- The ranking, from the tallies the grouped query answers with. -/
def rankedReasons (scope : Bool × List ℕ) (catalog : List ReasonRow) (now : Time) (days : ℤ)
    (createdAt : ℕ → Time) (σ : Store) (tallies : List (ℕ × ℕ × ℕ)) : Ranking :=
  let (cutoff, priorCutoff) := windowCutoffs now days
  { windowDays := days
    periodStart := manilaDate cutoff
    totalReturns := ((eventsQuery scope priorCutoff createdAt σ).filter fun row =>
      cutoff ≤ row.createdAt).length
    items := sortBy rankKey (tallies.filterMap (rankOf catalog)) }

/-! ## What it should count -/

/-- The instants of the window; the bound of both windows matters for a negative length only. -/
def InWindow (now : Time) (days : ℤ) (t : Time) : Prop :=
  (windowCutoffs now days).1 ≤ t ∧ (windowCutoffs now days).2 ≤ t

/-- The instants of the window before. -/
def InPrior (now : Time) (days : ℤ) (t : Time) : Prop :=
  (windowCutoffs now days).2 ≤ t ∧ t < (windowCutoffs now days).1

instance (now : Time) (days : ℤ) : DecidablePred (InWindow now days) := fun _ =>
  inferInstanceAs (Decidable (_ ∧ _))

instance (now : Time) (days : ℤ) : DecidablePred (InPrior now days) := fun _ =>
  inferInstanceAs (Decidable (_ ∧ _))

/-- The returns of the claims inside the scope at the given instants. -/
def returnsAt (scope : Bool × List ℕ) (createdAt : ℕ → Time) (σ : Store) (window : Time → Prop)
    [DecidablePred window] : List ReturnEvent :=
  ((stampedReturns createdAt σ).filter fun row =>
    row.event.claimId ∈ baseQuery scope { includeTerminal := true } σ ∧
      window row.createdAt).map (·.event)

/-- The returns that cite a reason. -/
def citing (returns : List ReturnEvent) (reason : ℕ) : ℕ :=
  returns.countP fun e => reason ∈ e.reasonIds

/-- The ranking counts returns: of the window, and of the window before it. -/
structure Ranking.CountsReturns (ranking : Ranking) (catalog : List ReasonRow)
    (current prior : List ReturnEvent) : Prop where
  count : ∀ item ∈ ranking.items, item.count = citing current item.reasonId
  priorCount : ∀ item ∈ ranking.items, item.priorCount = citing prior item.reasonId
  bounded : ∀ item ∈ ranking.items, item.count ≤ ranking.totalReturns ∧
    item.priorCount ≤ prior.length

/-- Every cited reason with a row in the catalog is listed once, as its row describes it, and the
counts decrease. -/
structure Ranking.Lists (ranking : Ranking) (catalog : List ReasonRow)
    (current prior : List ReturnEvent) : Prop where
  total : ranking.totalReturns = current.length
  once : ∀ reason, (ranking.items.map (·.reasonId)).count reason =
    if (∃ row ∈ catalog, row.id = reason) ∧ ∃ e ∈ current ++ prior, reason ∈ e.reasonIds
      then 1 else 0
  described : ∀ item ∈ ranking.items, ∃ row ∈ catalog, row.id = item.reasonId ∧
    item.code = row.code ∧ item.label = row.label ∧ item.category = row.category ∧
    item.promoted = row.promotedCheck ∧ item.isActive = (row.isActive && !row.deleted) ∧
    item.trend = trend item.count item.priorCount
  ordered : ranking.items.Pairwise fun a b =>
    b.count < a.count ∨ a.count = b.count ∧ b.priorCount ≤ a.priorCount

/-! ## What it counts -/

section

variable {scope : Bool × List ℕ} {catalog : List ReasonRow} {now : Time} {days : ℤ}
  {createdAt : ℕ → Time} {σ : Store} {tallies : List (ℕ × ℕ × ℕ)} {reason : ℕ}

/-- The elements of a reason are its occurrences in the lists of the rows. -/
theorem countP_unnested (window : Time → Prop) [DecidablePred window] (rows : List StampedReturn)
    (reason : ℕ) :
    ((unnested rows).countP fun e => e.1 = reason ∧ window e.2) =
      ((rows.filter fun row => window row.createdAt).map fun row =>
        row.event.reasonIds.count reason).sum := by
  induction rows with
  | nil => rfl
  | cons row rows ih =>
      have hrow : ((row.event.reasonIds.map fun reason => (reason, row.createdAt)).countP fun e =>
          e.1 = reason ∧ window e.2) =
            if window row.createdAt then row.event.reasonIds.count reason else 0 := by
        rw [List.countP_map]
        split_ifs with hwindow
        · rw [List.count_eq_countP]
          refine List.countP_congr fun r _ => ?_
          simp [hwindow]
        · refine List.countP_eq_zero.2 fun r _ => ?_
          simp [hwindow]
      rw [unnested, List.flatMap_cons, List.countP_append, hrow, ← unnested, ih, List.filter_cons]
      by_cases hwindow : window row.createdAt
      · simp [hwindow]
      · simp [hwindow]

/-- The query's rows at the instants of a window that lies in both windows. -/
theorem sum_returnsAt (window : Time → Prop) [DecidablePred window] (p : Time → Prop)
    [DecidablePred p] (hp : ∀ t, window t ↔ p t ∧ (windowCutoffs now days).2 ≤ t)
    (f : ReturnEvent → ℕ) :
    (((eventsQuery scope (windowCutoffs now days).2 createdAt σ).filter fun row =>
        p row.createdAt).map fun row => f row.event) =
      (returnsAt scope createdAt σ window).map f := by
  rw [eventsQuery, List.filter_filter, returnsAt, List.map_map]
  refine congrArg (List.map _) (List.filter_congr fun row _ => ?_)
  rw [Bool.eq_iff_iff, Bool.and_eq_true, decide_eq_true_iff, decide_eq_true_iff,
    decide_eq_true_iff, hp]
  tauto

theorem tally_count : (tallyOf (windowCutoffs now days).1 (windowCutoffs now days).2
      (unnested (eventsQuery scope (windowCutoffs now days).2 createdAt σ)) reason).2.1 =
    ((returnsAt scope createdAt σ (InWindow now days)).map fun e =>
      e.reasonIds.count reason).sum := by
  exact (countP_unnested (fun t => (windowCutoffs now days).1 ≤ t) _ reason).trans
    (congrArg List.sum (sum_returnsAt (InWindow now days) _ (fun t => Iff.rfl) fun e =>
      e.reasonIds.count reason))

theorem tally_prior : (tallyOf (windowCutoffs now days).1 (windowCutoffs now days).2
      (unnested (eventsQuery scope (windowCutoffs now days).2 createdAt σ)) reason).2.2 =
    ((returnsAt scope createdAt σ (InPrior now days)).map fun e =>
      e.reasonIds.count reason).sum := by
  have hprior : ∀ t, InPrior now days t ↔ ((windowCutoffs now days).2 ≤ t ∧
      t < (windowCutoffs now days).1) ∧ (windowCutoffs now days).2 ≤ t := fun t => by
    unfold InPrior
    tauto
  exact (countP_unnested (fun t => (windowCutoffs now days).2 ≤ t ∧
    t < (windowCutoffs now days).1) _ reason).trans
      (congrArg List.sum (sum_returnsAt (InPrior now days) _ hprior fun e =>
        e.reasonIds.count reason))

/-- The reasons of the query's rows are those cited in a window. -/
theorem cited_iff :
    (∃ e ∈ unnested (eventsQuery scope (windowCutoffs now days).2 createdAt σ), e.1 = reason) ↔
      ∃ e ∈ returnsAt scope createdAt σ (InWindow now days) ++
        returnsAt scope createdAt σ (InPrior now days), reason ∈ e.reasonIds := by
  simp only [unnested, eventsQuery, returnsAt, List.mem_flatMap, List.mem_map, List.mem_append,
    List.mem_filter, decide_eq_true_eq]
  constructor
  · rintro ⟨_, ⟨row, ⟨hrow, hscope, hprior⟩, r, hr, rfl⟩, rfl⟩
    by_cases hcutoff : (windowCutoffs now days).1 ≤ row.createdAt
    · exact ⟨row.event, .inl ⟨row, ⟨hrow, hscope, hcutoff, hprior⟩, rfl⟩, hr⟩
    · exact ⟨row.event, .inr ⟨row, ⟨hrow, hscope, hprior, not_le.1 hcutoff⟩, rfl⟩, hr⟩
  · rintro ⟨_, ⟨row, ⟨hrow, hscope, -, hprior⟩, rfl⟩ | ⟨row, ⟨hrow, hscope, hprior, -⟩, rfl⟩, hr⟩
    · exact ⟨_, ⟨row, ⟨hrow, hscope, hprior⟩, reason, hr, rfl⟩, rfl⟩
    · exact ⟨_, ⟨row, ⟨hrow, hscope, hprior⟩, reason, hr, rfl⟩, rfl⟩

theorem lastWith_isSome : (lastWith (·.id) catalog reason).isSome = true ↔
    ∃ row ∈ catalog, row.id = reason := by
  rw [Option.isSome_iff_ne_none, ne_eq, lastWith_eq_none]
  push Not
  rfl

theorem rankOf_eq_some {tally : ℕ × ℕ × ℕ} {item : ReasonRank}
    (h : rankOf catalog tally = some item) :
    ∃ row ∈ catalog, row.id = tally.1 ∧ item = {
      reasonId := tally.1, code := row.code, label := row.label, category := row.category
      count := tally.2.1, priorCount := tally.2.2, trend := trend tally.2.1 tally.2.2
      promoted := row.promotedCheck, isActive := row.isActive && !row.deleted } := by
  obtain ⟨row, hrow, rfl⟩ := Option.map_eq_some_iff.1 h
  obtain ⟨hmem, hid⟩ := mem_of_lastWith hrow
  exact ⟨row, hmem, hid, rfl⟩

/-- The ranked reasons are those of the groups that have a row. -/
theorem map_rankOf (catalog : List ReasonRow) (tally : ℕ → ℕ × ℕ × ℕ)
    (htally : ∀ r, (tally r).1 = r) (order : List ℕ) : ((order.map tally).filterMap (rankOf catalog)).map (·.reasonId) =
      order.filter fun r => (lastWith (·.id) catalog r).isSome := by
  induction order with
  | nil => rfl
  | cons r order ih =>
      rw [List.map_cons, List.filterMap_cons, List.filter_cons]
      cases hrow : lastWith (·.id) catalog r with
      | none =>
          have hnone : rankOf catalog (tally r) = none := by
            rw [rankOf, htally, hrow, Option.map_none]
          simp only [hnone, ih, Option.isSome_none, Bool.false_eq_true, if_false]
      | some row =>
          obtain ⟨item, hitem, hid⟩ : ∃ item, rankOf catalog (tally r) = some item ∧
              item.reasonId = r := by
            rw [rankOf, htally, hrow, Option.map_some]
            exact ⟨_, rfl, rfl⟩
          simp only [hitem, List.map_cons, ih, hid, Option.isSome_some, if_true]

theorem ordered_of_rankKey {a b : ReasonRank} (h : rankKey a ≤ rankKey b) :
    b.count < a.count ∨ a.count = b.count ∧ b.priorCount ≤ a.priorCount := by
  rcases Prod.Lex.toLex_le_toLex.1 h with hlt | ⟨heq, hrest⟩
  · simp only at hlt
    exact .inl (by omega)
  · simp only at heq
    refine .inr ⟨by omega, ?_⟩
    rcases Prod.Lex.toLex_le_toLex.1 hrest with hlt | ⟨heq', -⟩
    · simp only at hlt
      omega
    · simp only at heq'
      omega

/-- The grouped query over the rows of both windows. -/
abbrev Tallied (scope : Bool × List ℕ) (now : Time) (days : ℤ) (createdAt : ℕ → Time) (σ : Store)
    (tallies : List (ℕ × ℕ × ℕ)) : Prop :=
  IsTallied (windowCutoffs now days).1 (windowCutoffs now days).2
    (unnested (eventsQuery scope (windowCutoffs now days).2 createdAt σ)) tallies

/-- An item's counts are the occurrences of its reason. -/
theorem count_items (h : Tallied scope now days createdAt σ tallies) {item : ReasonRank}
    (hitem : item ∈ (rankedReasons scope catalog now days createdAt σ tallies).items) :
    item.count = ((returnsAt scope createdAt σ (InWindow now days)).map fun e =>
        e.reasonIds.count item.reasonId).sum ∧
      item.priorCount = ((returnsAt scope createdAt σ (InPrior now days)).map fun e =>
        e.reasonIds.count item.reasonId).sum := by
  obtain ⟨order, -, -, rfl⟩ := h
  obtain ⟨tally, htally, hrank⟩ := List.mem_filterMap.1 ((sortBy_perm rankKey _).mem_iff.1 hitem)
  obtain ⟨reason, -, rfl⟩ := List.mem_map.1 htally
  obtain ⟨-, -, -, rfl⟩ := rankOf_eq_some hrank
  exact ⟨tally_count, tally_prior⟩

/-- Whatever the lists of reasons, each cited one with a row is listed once, in order. -/
theorem rankedReasons_lists (h : Tallied scope now days createdAt σ tallies) :
    (rankedReasons scope catalog now days createdAt σ tallies).Lists catalog
      (returnsAt scope createdAt σ (InWindow now days))
      (returnsAt scope createdAt σ (InPrior now days)) := by
  obtain ⟨order, hnodup, hcover, rfl⟩ := h
  refine ⟨?_, fun reason => ?_, fun item hitem => ?_, ?_⟩
  · have hsame : ((eventsQuery scope (windowCutoffs now days).2 createdAt σ).filter fun row =>
        (windowCutoffs now days).1 ≤ row.createdAt).map (fun _ => 0) =
          (returnsAt scope createdAt σ (InWindow now days)).map fun _ => 0 :=
      sum_returnsAt (InWindow now days) _ (fun _ => Iff.rfl) fun _ => 0
    have hlength := congrArg List.length hsame
    rw [List.length_map, List.length_map] at hlength
    exact hlength
  · set tally := tallyOf (windowCutoffs now days).1 (windowCutoffs now days).2
      (unnested (eventsQuery scope (windowCutoffs now days).2 createdAt σ)) with htally
    have hperm := (sortBy_perm rankKey ((order.map tally).filterMap (rankOf catalog))).map
      (·.reasonId)
    rw [map_rankOf catalog tally (fun _ => rfl) order] at hperm
    refine (hperm.count_eq reason).trans ?_
    rw [List.Nodup.count (hnodup.filter _)]
    refine if_congr ?_ rfl rfl
    rw [List.mem_filter, hcover, cited_iff, lastWith_isSome, and_comm]
  · obtain ⟨tally, htally, hrank⟩ := List.mem_filterMap.1 ((sortBy_perm rankKey _).mem_iff.1 hitem)
    obtain ⟨row, hrow, hid, rfl⟩ := rankOf_eq_some hrank
    exact ⟨row, hrow, hid, rfl, rfl, rfl, rfl, rfl, rfl⟩
  · exact (sortBy_sorted rankKey _).imp fun hle => ordered_of_rankKey hle

/-- The counts are numbers of returns exactly when no return of the windows cites a reason with a
row twice. -/
theorem countsReturns_iff (h : Tallied scope now days createdAt σ tallies) :
    (rankedReasons scope catalog now days createdAt σ tallies).CountsReturns catalog
        (returnsAt scope createdAt σ (InWindow now days))
        (returnsAt scope createdAt σ (InPrior now days)) ↔
      ∀ e ∈ returnsAt scope createdAt σ (InWindow now days) ++
        returnsAt scope createdAt σ (InPrior now days), ∀ row ∈ catalog,
          e.reasonIds.count row.id ≤ 1 := by
  set ranking := rankedReasons scope catalog now days createdAt σ tallies with hranking
  set current := returnsAt scope createdAt σ (InWindow now days) with hcurrent
  set prior := returnsAt scope createdAt σ (InPrior now days) with hprior
  have hlists : ranking.Lists catalog current prior := rankedReasons_lists h
  have hsums : ∀ item ∈ ranking.items,
      item.count = (current.map fun e => e.reasonIds.count item.reasonId).sum ∧
        item.priorCount = (prior.map fun e => e.reasonIds.count item.reasonId).sum :=
    fun item hitem => count_items h hitem
  constructor
  · intro hcounts e he row hrow
    by_cases hcites : row.id ∈ e.reasonIds
    · have honce := hlists.once row.id
      rw [if_pos ⟨⟨row, hrow, rfl⟩, e, he, hcites⟩] at honce
      obtain ⟨item, hitem, hid⟩ := List.mem_map.1 (List.count_pos_iff.1 (honce ▸ Nat.one_pos))
      have hcount := (hsums item hitem).1.symm.trans (hcounts.count item hitem)
      have hcount' := (hsums item hitem).2.symm.trans (hcounts.priorCount item hitem)
      rw [hid] at hcount hcount'
      rcases List.mem_append.1 he with hin | hin
      · exact (sum_count_eq_iff (·.reasonIds) row.id current).1 hcount e hin
      · exact (sum_count_eq_iff (·.reasonIds) row.id prior).1 hcount' e hin
    · rw [List.count_eq_zero_of_not_mem hcites]
      exact Nat.zero_le 1
  · intro hdistinct
    have hcount : ∀ item ∈ ranking.items, item.count = citing current item.reasonId ∧
        item.priorCount = citing prior item.reasonId := fun item hitem => by
      obtain ⟨row, hrow, hid, -⟩ := hlists.described item hitem
      rw [(hsums item hitem).1, (hsums item hitem).2, ← hid]
      exact ⟨(sum_count_eq_iff (·.reasonIds) row.id current).2 fun e he =>
          hdistinct e (List.mem_append_left _ he) row hrow,
        (sum_count_eq_iff (·.reasonIds) row.id prior).2 fun e he =>
          hdistinct e (List.mem_append_right _ he) row hrow⟩
    refine ⟨fun item hitem => (hcount item hitem).1, fun item hitem => (hcount item hitem).2,
      fun item hitem => ?_⟩
    rw [(hcount item hitem).1, (hcount item hitem).2, hlists.total]
    exact ⟨List.countP_le_length, List.countP_le_length⟩

end

/-- In every run whose returns name their reasons once the ranking counts returns.  At any store it
lists the cited reasons in order, and counts returns exactly when no return of the two windows cites
a reason of the catalog twice. -/
theorem ranking_counts_iff (scope : Bool × List ℕ) (catalog : List ReasonRow) (now : Time)
    (days : ℤ) (createdAt : ℕ → Time) :
    (∀ (calls : List Call) (tallies : List (ℕ × ℕ × ℕ)),
      Conforms Call.step NamesReasonsOnce {} calls →
      Tallied scope now days createdAt (runStore calls) tallies →
        let ranking := rankedReasons scope catalog now days createdAt (runStore calls) tallies
        let current := returnsAt scope createdAt (runStore calls) (InWindow now days)
        let prior := returnsAt scope createdAt (runStore calls) (InPrior now days)
        ranking.CountsReturns catalog current prior ∧ ranking.Lists catalog current prior) ∧
    ∀ (σ : Store) (tallies : List (ℕ × ℕ × ℕ)), Tallied scope now days createdAt σ tallies →
      let ranking := rankedReasons scope catalog now days createdAt σ tallies
      let current := returnsAt scope createdAt σ (InWindow now days)
      let prior := returnsAt scope createdAt σ (InPrior now days)
      (ranking.CountsReturns catalog current prior ∧ ranking.Lists catalog current prior ↔
        ∀ e ∈ current ++ prior, ∀ row ∈ catalog, e.reasonIds.count row.id ≤ 1) := by
  refine ⟨fun calls tallies hcalls htallies => ⟨?_, rankedReasons_lists htallies⟩,
    fun σ tallies htallies => ?_⟩
  · refine (countsReturns_iff htallies).2 fun e he row _ => ?_
    have hlogged : e ∈ (runStore calls).returnEvents := by
      simp only [returnsAt, stampedReturns, List.mem_append, List.mem_map, List.mem_filter] at he
      rcases he with ⟨_, ⟨⟨⟨e', n⟩, hrow, rfl⟩, -⟩, rfl⟩ | ⟨_, ⟨⟨⟨e', n⟩, hrow, rfl⟩, -⟩, rfl⟩
      · exact List.fst_mem_of_mem_zipIdx hrow
      · exact List.fst_mem_of_mem_zipIdx hrow
    exact List.nodup_iff_count_le_one.1 (returns_nodup calls hcalls e hlogged) row.id
  · exact ⟨fun hranking => (countsReturns_iff htallies).1 hranking.1, fun hdistinct =>
      ⟨(countsReturns_iff htallies).2 hdistinct, rankedReasons_lists htallies⟩⟩

/-- Claim 0, submitted, is returned for the given reasons. -/
def returnedFor (reasonIds : List ℕ) : List Op := submitTrip 1000 ++ [
  .act { claimId := 0, action := .return, actorUserId := 2, comment := some "fix"
         reasonIds := reasonIds }]

def missingReceipt : ReasonRow where
  id := 1
  code := "MISSING_OR"
  label := "Missing official receipt"
  category := .missingDoc

/-- Every row is written when the office's clock shows. -/
def officeClock : ℕ → Time := fun _ => 1767225600

theorem tallied_once : Tallied (true, []) 1767225600 90 officeClock
    (runStore (inOffice (returnedFor [1]))) [(1, 1, 0)] := by
  have helements : unnested (eventsQuery (true, []) (windowCutoffs 1767225600 90).2 officeClock
      (runStore (inOffice (returnedFor [1])))) = [(1, 1767225600)] := by decide +kernel
  refine ⟨[1], by decide, fun reason => ?_, ?_⟩
  · rw [helements]
    simp [eq_comm]
  · rw [helements]
    decide

theorem returnedOnce_counted : Ranking.CountsReturns
    (rankedReasons (true, []) [missingReceipt] 1767225600 90 officeClock
      (runStore (inOffice (returnedFor [1]))) [(1, 1, 0)]) [missingReceipt]
    (returnsAt (true, []) officeClock (runStore (inOffice (returnedFor [1])))
      (InWindow 1767225600 90))
    (returnsAt (true, []) officeClock (runStore (inOffice (returnedFor [1])))
      (InPrior 1767225600 90)) :=
  ((ranking_counts_iff (true, []) [missingReceipt] 1767225600 90 officeClock).1
    (inOffice (returnedFor [1])) [(1, 1, 0)] (by decide +kernel) tallied_once).1

/-- One return that names a reason twice is two returns for the reason, of one in all. -/
theorem returnedTwice_overcounted :
    let σ := runStore (inOffice (returnedFor [1, 1]))
    let ranking := rankedReasons (true, []) [missingReceipt] 1767225600 90 officeClock σ [(1, 2, 0)]
    let current := returnsAt (true, []) officeClock σ (InWindow 1767225600 90)
    let prior := returnsAt (true, []) officeClock σ (InPrior 1767225600 90)
    Tallied (true, []) 1767225600 90 officeClock σ [(1, 2, 0)] ∧
      current.length = 1 ∧ ranking.totalReturns = 1 ∧ ranking.items.map (·.count) = [2] ∧
      ¬ ranking.CountsReturns [missingReceipt] current prior := by
  intro σ ranking current prior
  have helements : unnested (eventsQuery (true, []) (windowCutoffs 1767225600 90).2 officeClock σ) =
      [(1, 1767225600), (1, 1767225600)] := by decide +kernel
  have htotal : ranking.totalReturns = 1 := by decide +kernel
  have hcounts : ranking.items.map (·.count) = [2] := by decide +kernel
  refine ⟨⟨[1], by decide, fun reason => ?_, ?_⟩, by decide +kernel, htotal, hcounts,
    fun hranking => ?_⟩
  · rw [helements]
    simp [eq_comm]
  · rw [helements]
    decide
  · obtain ⟨item, hitem, hcount⟩ := List.mem_map.1 (hcounts ▸ List.mem_singleton_self 2)
    have hbound := (hranking.bounded item hitem).1
    rw [hcount, htotal] at hbound
    omega

end OfficeConnect.Reimbursement.Insights
