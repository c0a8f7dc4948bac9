import OfficeConnect.Lib.Grouped
import OfficeConnect.Reimbursement.Queue

/-!
# The pipeline board

Three columns of status groups, each with a count, a sum of pesos and its best cards.  The header
figures come from one query grouped by status and bucketed here, the cards from a query of their
own.  The status column is free text and may be null.
-/

namespace OfficeConnect.Reimbursement.Pipeline

open Lib Workflow Queue

/-! ## Columns -/

inductive BoardColumn where
  | inBureau | withFms | done
deriving DecidableEq, Repr

/-- Left-to-right order, with the header label. -/
def boardColumns : List (BoardColumn × String) :=
  [(.inBureau, "In Bureau"), (.withFms, "With FMS"), (.done, "Done")]

/-- A kind's states and the column each declares, none being off the board on purpose. -/
structure BoardVocabulary where
  kind : Kind
  allStates : List Status
  boardColumn : List (Status × Option BoardColumn)

def reimbursementBoard : BoardVocabulary where
  kind := .reimbursement
  allStates := reimbursementVocabulary.allStates
  boardColumn := [
    (.draft, none),
    (.divisionApproval, some .inBureau),
    (.adminReview, some .inBureau),
    (.handedToFms, some .withFms),
    (.fmsReturned, some .inBureau),
    (.returned, some .inBureau),
    (.paidClosed, some .done),
    (.cancelled, none)]

def liquidationBoard : BoardVocabulary where
  kind := .liquidation
  allStates := liquidationVocabulary.allStates
  boardColumn := [
    (.draft, none),
    (.certifyB, some .inBureau),
    (.certifyC, some .inBureau),
    (.handedToFms, some .withFms),
    (.returned, some .inBureau),
    (.settled, some .done),
    (.cancelled, none)]

def boardVocabularies : List BoardVocabulary := [reimbursementBoard, liquidationBoard]

/-- The states of a column across every kind. -/
def boardColumnStates (vs : List BoardVocabulary) (column : BoardColumn) : List Status :=
  vs.flatMap fun voc => voc.boardColumn.filterMap fun (state, assigned) =>
    if assigned = some column then some state else none

/-- What `_assert_board_columns` lets pass: every state declares a column, only states do, and no
state is in two columns. -/
def assertBoardColumns (vs : List BoardVocabulary) : Prop :=
  (∀ voc ∈ vs, ∀ state ∈ voc.allStates, state ∈ voc.boardColumn.map Prod.fst) ∧
    (∀ voc ∈ vs, ∀ state ∈ voc.boardColumn.map Prod.fst, state ∈ voc.allStates) ∧
    ∀ c ∈ boardColumns.map Prod.fst, ∀ c' ∈ boardColumns.map Prod.fst,
      ∀ state ∈ boardColumnStates vs c, state ∈ boardColumnStates vs c' → c = c'

instance (vs : List BoardVocabulary) : Decidable (assertBoardColumns vs) :=
  inferInstanceAs (Decidable (_ ∧ _ ∧ _))

theorem boardVocabularies_ok : assertBoardColumns boardVocabularies := by decide +kernel

/-- `status in BOARD_COLUMN_STATES[column]`, the status being the text of the row. -/
def inColumn (column : BoardColumn) (status : Option String) : Prop :=
  ∃ state ∈ boardColumnStates boardVocabularies column, status = some state.text

instance (column : BoardColumn) (status : Option String) : Decidable (inColumn column status) :=
  inferInstanceAs (Decidable (∃ state ∈ boardColumnStates boardVocabularies column, _))

/-! ## The claims of the board -/

/-- A claim row; `grand` is `totals->>'grand'` in centavos, where it is there. -/
structure BoardClaim where
  workflowInstanceId : Option ℕ
  status : Option String
  updatedAt : Time
  holderSince : Option Time := none
  grand : Option ℤ := none
deriving DecidableEq, Repr

structure BoardTables where
  claims : List BoardClaim := []
  instances : List Instance := []

/-- `base_query(include_terminal=True)`: the claims with an instance inside the scope. -/
def baseRows (scope : Bool × List ℕ) (t : BoardTables) : List (ℕ × BoardClaim) :=
  (t.claims.zipIdx.map Prod.swap).filter fun row =>
    (row.2.workflowInstanceId.bind fun id => t.instances[id]?).any fun inst =>
      scopeClause scope.1 scope.2 inst

/-- Terminal rows must be recent. -/
def doneWindow (cutoff : Time) (claim : BoardClaim) : Prop :=
  claim.status = none ∨
    (∀ status ∈ claim.status, status ∉ allTerminalStates.map Status.text) ∨
    cutoff ≤ claim.updatedAt

instance (cutoff : Time) : DecidablePred (doneWindow cutoff) := fun claim =>
  inferInstanceAs (Decidable (_ ∨ (∀ status ∈ claim.status, _) ∨ _))

/-- The base query and the Done window. -/
def boardRows (scope : Bool × List ℕ) (cutoff : Time) (t : BoardTables) : List (ℕ × BoardClaim) :=
  (baseRows scope t).filter fun row => doneWindow cutoff row.2

/-! ## The header figures -/

/-- A row of the grouped query. -/
structure StatusGroup where
  status : Option String
  claims : ℕ
  pesos : ℤ
deriving DecidableEq, Repr

/-- The group of a status: its claims, and the sum of the amounts that are there. -/
def groupOf (rows : List (ℕ × BoardClaim)) (status : Option String) : StatusGroup :=
  let group := rows.filter fun row => row.2.status = status
  { status := status
    claims := group.length
    pesos := (group.map fun row => row.2.grand.getD 0).sum }

/-- The grouped query's answer: a row for every status there is, in any order. -/
def IsGrouped (rows : List (ℕ × BoardClaim)) (groups : List StatusGroup) : Prop :=
  ∃ order : List (Option String), order.Nodup ∧
    (∀ status, status ∈ order ↔ ∃ row ∈ rows, row.2.status = status) ∧
    groups = order.map (groupOf rows)

/-- The first column that lists the status. -/
def columnOf (status : Option String) : Option BoardColumn :=
  (boardColumns.map Prod.fst).find? fun column => inColumn column status

/-- `str(status)`. -/
def statusText (status : Option String) : String := status.getD "None"

/-- The buckets, and the claims under each status that no column lists. -/
structure BoardTotals where
  buckets : BoardColumn → ℕ × ℤ := fun _ => (0, 0)
  unmapped : String → Option ℕ := fun _ => none

/-- A status that is off the board on purpose. -/
def offBoard : List (Option String) := [some Status.draft.text, some Status.cancelled.text]

/-- One round of the loop of `column_totals`. -/
def addGroup (totals : BoardTotals) (group : StatusGroup) : BoardTotals :=
  match columnOf group.status with
  | none =>
      if group.status ∈ offBoard then totals
      else { totals with
        unmapped := Function.update totals.unmapped (statusText group.status) (some group.claims) }
  | some column =>
      let (count, total) := totals.buckets column
      { totals with
        buckets := Function.update totals.buckets column
          (count + group.claims, total + group.pesos) }

/-- `column_totals` on the grouped rows. -/
def columnTotals (groups : List StatusGroup) : BoardTotals := groups.foldl addGroup {}

/-! ## The cards -/

def boardCardLimit : ℕ := 20

/-- What a column's cards are sorted by: what just finished, or what waits the longest. -/
def cardRank (column : BoardColumn) (row : ℕ × BoardClaim) : WithTop ℤ ×ₗ ℤ :=
  match column with
  | .done => toLex (((-row.2.updatedAt : ℤ) : WithTop ℤ), -(row.1 : ℤ))
  | _ => toLex ((row.2.holderSince : WithTop ℤ), (row.1 : ℤ))

/-- `board_card_query`. -/
def boardCards (scope : Bool × List ℕ) (column : BoardColumn) (cutoff : Time) (t : BoardTables) :
    List (ℕ × BoardClaim) :=
  let rows := ((baseRows scope t).filter fun row => inColumn column row.2.status).filter fun row =>
    doneWindow cutoff row.2
  (rows.insertionSort fun a b => cardRank column a ≤ cardRank column b).take boardCardLimit

/-! ## What the board promises -/

/-- The rows that the unmapped map files under a text. -/
def filedUnder (rows : List (ℕ × BoardClaim)) (text : String) : List (ℕ × BoardClaim) :=
  rows.filter fun row => columnOf row.2.status = none ∧ row.2.status ∉ offBoard ∧
    statusText row.2.status = text

/-- The board's figures are those of the rows. -/
structure BoardMatches (rows : List (ℕ × BoardClaim)) (totals : BoardTotals)
    (cards : BoardColumn → List (ℕ × BoardClaim)) : Prop where
  columns : ∀ column, totals.buckets column =
    ((rows.filter fun row => inColumn column row.2.status).length,
      ((rows.filter fun row => inColumn column row.2.status).map fun row => row.2.grand.getD 0).sum)
  placed : ∀ row ∈ rows,
    (∃! column, inColumn column row.2.status) ∨ row.2.status ∈ offBoard ∨
      row ∈ filedUnder rows (statusText row.2.status)
  apart : ∀ row ∈ rows, ∀ column, inColumn column row.2.status → row.2.status ∉ offBoard
  unmapped : ∀ text, totals.unmapped text =
    if filedUnder rows text = [] then none else some (filedUnder rows text).length
  cards : ∀ column, ∀ card ∈ cards column, card ∈ rows ∧ inColumn column card.2.status

/-! ## Columns and statuses -/

section

variable {status : Option String} {column column' : BoardColumn}

theorem mem_boardColumns (column : BoardColumn) : column ∈ boardColumns.map Prod.fst := by
  cases column <;> decide

theorem Status.text_inj {s t : Status} (h : s.text = t.text) : s = t := by
  revert h
  cases s <;> cases t <;> decide

/-- No status is in two columns. -/
theorem inColumn_unique (h : inColumn column status) (h' : inColumn column' status) :
    column = column' := by
  obtain ⟨state, hstate, rfl⟩ := h
  obtain ⟨state', hstate', htext⟩ := h'
  obtain rfl := Status.text_inj (Option.some.inj htext)
  exact boardVocabularies_ok.2.2 column (mem_boardColumns column) column' (mem_boardColumns column')
    state hstate hstate'

theorem columnOf_eq_some : columnOf status = some column ↔ inColumn column status := by
  constructor
  · intro h
    simpa using List.find?_some h
  · intro h
    cases hfind : columnOf status with
    | none =>
        have hnone := List.find?_eq_none.1 hfind column (mem_boardColumns column)
        exact absurd (decide_eq_true h) hnone
    | some column' =>
        have hcolumn' : inColumn column' status := by simpa using List.find?_some hfind
        rw [inColumn_unique hcolumn' h]

theorem not_mem_offBoard (h : inColumn column status) : status ∉ offBoard := by
  obtain ⟨state, hstate, rfl⟩ := h
  cases column <;> revert hstate <;> revert state <;> decide

end

/-! ## The loop -/

section

variable {groups : List StatusGroup} {totals : BoardTotals}

/-- A group that the unmapped map files. -/
def StatusGroup.Filed (group : StatusGroup) : Prop :=
  columnOf group.status = none ∧ group.status ∉ offBoard

instance : DecidablePred StatusGroup.Filed := fun group =>
  inferInstanceAs (Decidable (columnOf group.status = none ∧ group.status ∉ offBoard))

/-- What a round adds to a column. -/
theorem addGroup_buckets (totals : BoardTotals) (group : StatusGroup) (column : BoardColumn) :
    (addGroup totals group).buckets column =
      if columnOf group.status = some column then
        ((totals.buckets column).1 + group.claims, (totals.buckets column).2 + group.pesos)
      else totals.buckets column := by
  unfold addGroup
  cases hcolumn : columnOf group.status with
  | none =>
      have hnone : ¬ (none : Option BoardColumn) = some column := by simp
      rw [if_neg hnone]
      dsimp only
      split_ifs <;> rfl
  | some found =>
      dsimp only
      by_cases hfound : found = column
      · subst hfound
        rw [Function.update_self, if_pos rfl]
      · rw [Function.update_of_ne (Ne.symm hfound), if_neg (fun h => hfound (Option.some.inj h))]

/-- What a round does to the unmapped map. -/
theorem addGroup_unmapped (totals : BoardTotals) (group : StatusGroup) (text : String) :
    (addGroup totals group).unmapped text =
      if group.Filed ∧ statusText group.status = text then some group.claims
      else totals.unmapped text := by
  unfold addGroup
  cases hcolumn : columnOf group.status with
  | none =>
      dsimp only
      by_cases hoff : group.status ∈ offBoard
      · rw [if_pos hoff, if_neg (fun h => h.1.2 hoff)]
      · rw [if_neg hoff]
        by_cases htext : statusText group.status = text
        · subst htext
          rw [if_pos ⟨⟨hcolumn, hoff⟩, rfl⟩]
          exact Function.update_self ..
        · rw [if_neg (fun h => htext h.2)]
          exact Function.update_of_ne (Ne.symm htext) ..
  | some found =>
      have hlisted : ¬ group.Filed := fun h => by
        rw [h.1] at hcolumn
        cases hcolumn
      have hnot : ¬ (group.Filed ∧ statusText group.status = text) := fun h => hlisted h.1
      rw [if_neg hnot]

/-- A column's bucket after the loop, by induction on the groups. -/
theorem foldl_addGroup_buckets (groups : List StatusGroup) (totals : BoardTotals)
    (column : BoardColumn) :
    (groups.foldl addGroup totals).buckets column =
      ((totals.buckets column).1 +
          ((groups.filter fun g => columnOf g.status = some column).map (·.claims)).sum,
        (totals.buckets column).2 +
          ((groups.filter fun g => columnOf g.status = some column).map (·.pesos)).sum) := by
  induction groups generalizing totals with
  | nil => simp
  | cons group groups ih =>
      rw [List.foldl_cons, ih, addGroup_buckets]
      by_cases hcolumn : columnOf group.status = some column
      · rw [if_pos hcolumn, List.filter_cons_of_pos (by simpa using hcolumn), List.map_cons,
          List.map_cons, List.sum_cons, List.sum_cons, add_assoc, add_assoc]
      · rw [if_neg hcolumn, List.filter_cons_of_neg (by simpa using hcolumn)]

/-- The last group filed under a text stays there. -/
theorem foldl_addGroup_unmapped (groups : List StatusGroup) (text : String) :
    (columnTotals groups).unmapped text =
      ((groups.filter fun g => g.Filed ∧ statusText g.status = text).getLast?.map (·.claims)) := by
  unfold columnTotals
  induction groups using List.reverseRecOn with
  | nil => rfl
  | append_singleton groups group ih =>
      rw [List.foldl_append, List.foldl_cons, List.foldl_nil, addGroup_unmapped, List.filter_append]
      by_cases hfiled : group.Filed ∧ statusText group.status = text
      · rw [if_pos hfiled, List.filter_cons_of_pos (by simpa using hfiled), List.filter_nil,
          List.getLast?_concat, Option.map_some]
      · rw [if_neg hfiled, ih, List.filter_cons_of_neg (by simpa using hfiled), List.filter_nil,
          List.append_nil]

end

/-! ## The figures and the rows -/

section

variable {rows : List (ℕ × BoardClaim)} {groups : List StatusGroup} {order : List (Option String)}
variable {column : BoardColumn} {text : String}

/-- Only the null status shares its text with another. -/
theorem statusText_inj {s t : Option String} (h : statusText s = statusText t) (hne : s ≠ t) :
    s = none ∧ t = some "None" ∨ s = some "None" ∧ t = none := by
  cases s with
  | none =>
      cases t with
      | none => exact absurd rfl hne
      | some t => exact .inl ⟨rfl, congrArg some h.symm⟩
  | some s =>
      cases t with
      | none => exact .inr ⟨congrArg some h, rfl⟩
      | some t => exact absurd (congrArg some h) hne

/-- The bucket of a column holds the count and the sum of its rows. -/
theorem buckets_eq (hgroups : IsGrouped rows groups) (column : BoardColumn) :
    (columnTotals groups).buckets column =
      ((rows.filter fun row => inColumn column row.2.status).length,
        ((rows.filter fun row => inColumn column row.2.status).map
          fun row => row.2.grand.getD 0).sum) := by
  obtain ⟨order, hnodup, hcover, rfl⟩ := hgroups
  have hall : ∀ row ∈ rows, row.2.status ∈ order := fun row hrow => (hcover _).2 ⟨row, hrow, rfl⟩
  have hfilter : ((order.map (groupOf rows)).filter fun g => columnOf g.status = some column) =
      (order.filter fun s => inColumn column s).map (groupOf rows) := by
    rw [List.filter_map]
    refine congrArg _ (List.filter_congr fun s _ => ?_)
    exact decide_eq_decide.2 columnOf_eq_some
  unfold columnTotals
  rw [foldl_addGroup_buckets, hfilter, List.map_map, List.map_map, zero_add, zero_add]
  congr 1
  · exact sum_lengths_filter (f := fun row : ℕ × BoardClaim => row.2.status)
      (fun s => inColumn column s) hnodup hall
  · exact sum_groups_filter (f := fun row : ℕ × BoardClaim => row.2.status)
      (fun s => inColumn column s) (fun row => row.2.grand.getD 0) hnodup hall

/-- The statuses of the groups that are filed under a text. -/
def filedStatuses (order : List (Option String)) (text : String) : List (Option String) :=
  order.filter fun s => columnOf s = none ∧ s ∉ offBoard ∧ statusText s = text

theorem unmapped_eq (order : List (Option String)) (text : String) :
    (columnTotals (order.map (groupOf rows))).unmapped text =
      (filedStatuses order text).getLast?.map fun s =>
        (rows.filter fun row => row.2.status = s).length := by
  have hfilter : ((order.map (groupOf rows)).filter fun g => g.Filed ∧ statusText g.status = text) =
      (filedStatuses order text).map (groupOf rows) := by
    rw [List.filter_map]
    refine congrArg _ (List.filter_congr fun s _ => ?_)
    exact decide_eq_decide.2 and_assoc
  rw [foldl_addGroup_unmapped, hfilter, List.getLast?_map, Option.map_map]
  rfl

/-- The claims under a text are those of the filed statuses. -/
theorem length_filedUnder (hnodup : order.Nodup)
    (hcover : ∀ status, status ∈ order ↔ ∃ row ∈ rows, row.2.status = status) (text : String) :
    (filedUnder rows text).length = ((filedStatuses order text).map fun s =>
      (rows.filter fun row => row.2.status = s).length).sum :=
  (sum_lengths_filter (f := fun row : ℕ × BoardClaim => row.2.status)
    (fun s => columnOf s = none ∧ s ∉ offBoard ∧ statusText s = text) hnodup
    fun row hrow => (hcover _).2 ⟨row, hrow, rfl⟩).symm

theorem length_group_pos (hcover : ∀ status, status ∈ order ↔ ∃ row ∈ rows, row.2.status = status)
    {s : Option String} (hs : s ∈ filedStatuses order text) :
    0 < (rows.filter fun row => row.2.status = s).length := by
  obtain ⟨row, hrow, rfl⟩ := (hcover s).1 (List.mem_filter.1 hs).1
  exact List.length_pos_of_mem (List.mem_filter.2 ⟨hrow, by simp⟩)

/-- Two statuses meet under one text: a null status, and the text it is shown as. -/
def Collide (rows : List (ℕ × BoardClaim)) : Prop :=
  (∃ row ∈ rows, row.2.status = none) ∧ ∃ row ∈ rows, row.2.status = some "None"

theorem mem_filedStatuses_none : none ∈ filedStatuses order "None" ↔ none ∈ order := by
  rw [filedStatuses, List.mem_filter]
  exact and_iff_left (by decide +kernel)

theorem mem_filedStatuses_text : some "None" ∈ filedStatuses order "None" ↔
    some "None" ∈ order := by
  rw [filedStatuses, List.mem_filter]
  exact and_iff_left (by decide +kernel)

instance (rows : List (ℕ × BoardClaim)) : Decidable (Collide rows) :=
  inferInstanceAs (Decidable ((∃ row ∈ rows, _) ∧ ∃ row ∈ rows, _))

/-- The groups in one order. -/
theorem isGrouped_dedup (rows : List (ℕ × BoardClaim)) :
    IsGrouped rows ((rows.map fun row => row.2.status).dedup.map (groupOf rows)) :=
  ⟨_, List.nodup_dedup _, fun status => by rw [List.mem_dedup, List.mem_map], rfl⟩

/-- The map files every claim under its text exactly when no two statuses meet there. -/
theorem unmapped_matches_iff (hgroups : IsGrouped rows groups) :
    (∀ text, (columnTotals groups).unmapped text =
      if filedUnder rows text = [] then none else some (filedUnder rows text).length) ↔
      ¬ Collide rows := by
  obtain ⟨order, hnodup, hcover, rfl⟩ := hgroups
  have hcollide : Collide rows ↔ none ∈ order ∧ some "None" ∈ order := by
    rw [Collide, hcover, hcover]
  rw [hcollide]
  simp only [unmapped_eq, ← List.length_eq_zero_iff, length_filedUnder hnodup hcover]
  constructor
  · rintro h ⟨hnull, htext⟩
    have hnull' := mem_filedStatuses_none.2 hnull
    have htext' := mem_filedStatuses_text.2 htext
    have hlast := List.getLast_mem (List.ne_nil_of_mem hnull')
    have hother : ∃ t ∈ filedStatuses order "None",
        t ≠ (filedStatuses order "None").getLast (List.ne_nil_of_mem hnull') := by
      by_cases hlastNull : (filedStatuses order "None").getLast (List.ne_nil_of_mem hnull') = none
      · exact ⟨_, htext', by rw [hlastNull]; simp⟩
      · exact ⟨_, hnull', fun heq => hlastNull heq.symm⟩
    obtain ⟨t, ht, hne⟩ := hother
    have hmore := add_le_sum_map (fun s => (rows.filter fun row => row.2.status = s).length)
      hlast ht hne
    have hpos := length_group_pos hcover ht
    have heq := h "None"
    rw [List.getLast?_eq_some_getLast (List.ne_nil_of_mem hnull'), Option.map_some] at heq
    split_ifs at heq
    have hcount := Option.some.inj heq
    omega
  · intro hapart text
    have hone : ∀ s ∈ filedStatuses order text, ∀ t ∈ filedStatuses order text, s = t := by
      intro s hs t ht
      by_contra hne
      obtain ⟨hs, hsfiled⟩ := List.mem_filter.1 hs
      obtain ⟨ht, htfiled⟩ := List.mem_filter.1 ht
      have hsame := (of_decide_eq_true hsfiled).2.2.trans (of_decide_eq_true htfiled).2.2.symm
      rcases statusText_inj hsame hne with ⟨rfl, rfl⟩ | ⟨rfl, rfl⟩
      · exact hapart ⟨hs, ht⟩
      · exact hapart ⟨ht, hs⟩
    have hfiled : (filedStatuses order text).Nodup := hnodup.filter _
    have hpos := fun s (hs : s ∈ filedStatuses order text) => length_group_pos hcover hs
    generalize filedStatuses order text = filed at hone hfiled hpos
    match filed with
    | [] => rfl
    | [s] =>
        have hs := hpos s (by simp)
        simp only [List.getLast?_singleton, Option.map_some, List.map_cons, List.map_nil,
          List.sum_cons, List.sum_nil, add_zero]
        rw [if_neg (by omega)]
    | s :: t :: _ =>
        have hst := hone s (by simp) t (by simp)
        simp [hst] at hfiled

end

/-- A card is one of the board's rows, in its column. -/
theorem mem_boardCards {scope : Bool × List ℕ} {column : BoardColumn} {cutoff : Time}
    {t : BoardTables} {card : ℕ × BoardClaim} (h : card ∈ boardCards scope column cutoff t) :
    card ∈ boardRows scope cutoff t ∧ inColumn column card.2.status := by
  have hsorted := List.take_subset _ _ h
  rw [List.mem_insertionSort, List.mem_filter, List.mem_filter] at hsorted
  obtain ⟨⟨hbase, hcolumn⟩, hwindow⟩ := hsorted
  exact ⟨List.mem_filter.2 ⟨hbase, hwindow⟩, of_decide_eq_true hcolumn⟩

/-- The board's totals match its rows, column by column and card by card, exactly when no claim with
a null status meets one whose status reads "None": the two are filed under one text, and the map
keeps the count of one of them. -/
theorem board_matches_iff (t : BoardTables) (scope : Bool × List ℕ) (cutoff : Time)
    (groups : List StatusGroup) (hgroups : IsGrouped (boardRows scope cutoff t) groups) :
    BoardMatches (boardRows scope cutoff t) (columnTotals groups)
        (fun column => boardCards scope column cutoff t) ↔
      ¬ Collide (boardRows scope cutoff t) := by
  rw [← unmapped_matches_iff hgroups]
  refine ⟨fun h => h.unmapped, fun hunmapped => ⟨buckets_eq hgroups, fun row hrow => ?_,
    fun row _ column hcolumn => not_mem_offBoard hcolumn, hunmapped,
    fun column card hcard => mem_boardCards hcard⟩⟩
  cases hcolumn : columnOf row.2.status with
  | some column =>
      have hlisted := columnOf_eq_some.1 hcolumn
      exact .inl ⟨column, hlisted, fun other hother => inColumn_unique hother hlisted⟩
  | none =>
      by_cases hoff : row.2.status ∈ offBoard
      · exact .inr (.inl hoff)
      · exact .inr (.inr (List.mem_filter.2 ⟨hrow, decide_eq_true ⟨hcolumn, hoff, rfl⟩⟩))

/-- Claims of these statuses, each submitted and worth a thousand pesos. -/
def boardOf (statuses : List (Option String)) : BoardTables where
  claims := statuses.map fun status =>
    { workflowInstanceId := some 0, status := status, updatedAt := 0, grand := some 100000 }
  instances := [{ definitionVersionId := 1, currentStateId := 1, originatorUserId := none
                  orgUnitId := none, amount := none }]

/-- Two claims in the bureau, one cancelled and one of a retired state. -/
def mixedBoard : List (ℕ × BoardClaim) := boardRows (true, []) 0
  (boardOf [some "returned", some "certify_b", some "cancelled", some "old_state"])

theorem mixedBoard_matches :
    BoardMatches mixedBoard
      (columnTotals ((mixedBoard.map fun row => row.2.status).dedup.map (groupOf mixedBoard)))
      (fun column => boardCards (true, []) column 0
        (boardOf [some "returned", some "certify_b", some "cancelled", some "old_state"])) :=
  (board_matches_iff _ (true, []) 0 _ (isGrouped_dedup mixedBoard)).2 (by decide +kernel)

/-- A claim with no status and one whose status reads "None". -/
def nullBoard : List (ℕ × BoardClaim) := boardRows (true, []) 0 (boardOf [none, some "None"])

/-- The map counts one of the two. -/
theorem nullBoard_loses_one :
    IsGrouped nullBoard [⟨none, 1, 100000⟩, ⟨some "None", 1, 100000⟩] ∧
      (columnTotals [⟨none, 1, 100000⟩, ⟨some "None", 1, 100000⟩]).unmapped "None" = some 1 ∧
      (filedUnder nullBoard "None").length = 2 ∧
      ¬ BoardMatches nullBoard (columnTotals [⟨none, 1, 100000⟩, ⟨some "None", 1, 100000⟩])
        (fun column => boardCards (true, []) column 0 (boardOf [none, some "None"])) := by
  refine ⟨?_, by decide +kernel, by decide +kernel, fun h => ?_⟩
  · have hgroups := isGrouped_dedup nullBoard
    have hrows : (nullBoard.map fun row => row.2.status).dedup.map (groupOf nullBoard) =
        [⟨none, 1, 100000⟩, ⟨some "None", 1, 100000⟩] := by decide +kernel
    rwa [hrows] at hgroups
  · have hcount := h.unmapped "None"
    revert hcount
    decide +kernel

end OfficeConnect.Reimbursement.Pipeline
