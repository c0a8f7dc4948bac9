import OfficeConnect.Lib.Search
import OfficeConnect.Workflow.Graph

/-!
# What publication accepts

The validator looks at the graph of a draft piece by piece and then searches it from the initial
state.  What it accepts is stated here in terms of the graph alone: one place to start, some place to
end, no loose end, and every state on a path of transitions from the start.
-/

namespace OfficeConnect.Workflow

open Lib Relation

variable {κ : Type} {states : List (State κ)} {transitions : List Transition} {s start : State κ}

/-! ## The search -/

theorem outgoing_eq_successors (transitions : List Transition) :
    outgoing transitions = successors (·.fromStateId) (·.toStateId) transitions := rfl

/-- Enough rounds: one for each node on the stack and for each edge that can still be pushed. -/
theorem searches_explore {fuel : ℕ} {seen frontier : List ℕ}
    (h : frontier.length + unpushed (·.fromStateId) transitions seen ≤ fuel) :
    Searches (outgoing transitions) seen frontier
      (explore (outgoing transitions) fuel seen frontier) := by
  induction fuel generalizing seen frontier with
  | zero =>
      obtain rfl : frontier = [] := List.length_eq_zero_iff.1 (by omega)
      exact .done seen
  | succ fuel ih =>
      cases frontier with
      | nil => exact .done seen
      | cons node frontier =>
          rw [List.length_cons] at h
          rw [explore]
          split_ifs with hseen
          · exact .skip hseen (ih (by omega))
          · have hpushed := unpushed_cons (·.fromStateId) (·.toStateId) transitions hseen
            rw [← outgoing_eq_successors] at hpushed
            refine .mark hseen (ih ?_)
            rw [List.length_append, List.length_reverse]
            omega

/-- The loop of the validator ends, whatever cycles, self-loops and parallel transitions there are. -/
theorem searches_reached (transitions : List Transition) (id : ℕ) :
    Searches (outgoing transitions) [] [id] (reached transitions id) := by
  refine searches_explore ?_
  have hle : unpushed (·.fromStateId) transitions [] ≤ transitions.length := List.countP_le_length
  rw [List.length_singleton]
  omega

/-! ## The graph -/

/-- A transition leads from one state to the other. -/
def Leads (transitions : List Transition) (a b : ℕ) : Prop :=
  ∃ t ∈ transitions, t.fromStateId = a ∧ t.toStateId = b

theorem mem_outgoing {a b : ℕ} : b ∈ outgoing transitions a ↔ Leads transitions a b := by
  rw [outgoing_eq_successors]
  exact mem_successors

theorem mem_reached {a b : ℕ} :
    b ∈ reached transitions a ↔ ReflTransGen (Leads transitions) a b := by
  rw [(searches_reached transitions a).mem_iff]
  simp only [mem_outgoing]

/-- A graph an instance can run through. -/
structure WellFormed (states : List (State κ)) (transitions : List Transition) : Prop where
  initial : ∃! s, s ∈ states ∧ s.kind = .initial
  terminal : ∃ s ∈ states, s.kind = .terminal
  endpoints : ∀ t ∈ transitions,
    t.fromStateId ∈ states.map (·.id) ∧ t.toStateId ∈ states.map (·.id)
  exits : ∀ s ∈ states, s.kind ≠ .terminal → ∃ t ∈ transitions, t.fromStateId = s.id
  reachable : ∀ start ∈ states, start.kind = .initial → ∀ s ∈ states,
    ReflTransGen (Leads transitions) start.id s.id

/-! ## The checks -/

theorem soleInitial_eq_ok :
    soleInitial states = .ok start ↔ states.filter (·.kind = .initial) = [start] := by
  unfold soleInitial
  split
  · next s hfilter =>
      rw [hfilter]
      simp
  · next hnot => simpa using fun hfilter => hnot start hfilter

/-- Without repetitions the one initial state is the only one. -/
theorem filter_initial_eq (hnodup : states.Nodup) :
    states.filter (·.kind = .initial) = [start] ↔
      (start ∈ states ∧ start.kind = .initial) ∧
        ∀ s, s ∈ states ∧ s.kind = .initial → s = start := by
  have hmem : ∀ s, s ∈ states.filter (·.kind = .initial) ↔ s ∈ states ∧ s.kind = .initial := by
    simp
  constructor
  · intro hfilter
    refine ⟨(hmem start).1 (by simp [hfilter]), fun s hs => ?_⟩
    have := (hmem s).2 hs
    rwa [hfilter, List.mem_singleton] at this
  · rintro ⟨hstart, hsole⟩
    refine List.perm_singleton.1 ((List.perm_ext_iff_of_nodup (hnodup.filter _)
      (List.nodup_singleton start)).2 fun s => ?_)
    rw [hmem, List.mem_singleton]
    exact ⟨hsole s, fun hs => hs ▸ hstart⟩

theorem outgoing_eq_nil {id : ℕ} :
    outgoing transitions id = [] ↔ ¬ ∃ t ∈ transitions, t.fromStateId = id := by
  simp [outgoing]

variable [ToString κ]

/-- The checks in the order they are made. -/
theorem validateGraph_eq_ok : validateGraph states transitions = .ok () ↔
    ∃ start, states.filter (·.kind = .initial) = [start] ∧ (∃ s ∈ states, s.kind = .terminal) ∧
      (∀ t ∈ transitions, t.fromStateId ∈ states.map (·.id) ∧ t.toStateId ∈ states.map (·.id)) ∧
      (∀ s ∈ states, s.kind ≠ .terminal → ∃ t ∈ transitions, t.fromStateId = s.id) ∧
      ∀ s ∈ states, ReflTransGen (Leads transitions) start.id s.id := by
  simp only [validateGraph, bind_eq_ok, refuse_eq_ok, absent_eq_ok, soleInitial_eq_ok,
    List.find?_eq_none, decide_eq_true_eq, not_not, List.filter_eq_nil_iff, mem_reached,
    outgoing_eq_nil, exists_const, not_exists, not_and, not_or]
  constructor
  · rintro ⟨-, start, hstart, hterminal, hends, hexits, hreach⟩
    exact ⟨start, hstart, by simpa using hterminal, hends,
      fun s hs hkind => by simpa using hexits s hs hkind, hreach⟩
  · rintro ⟨start, hstart, ⟨last, hlast, hkind⟩, hends, hexits, hreach⟩
    refine ⟨List.ne_nil_of_mem hlast, start, hstart, fun hnone => hnone last hlast hkind, hends,
      fun s hs hkind hnone => ?_, hreach⟩
    obtain ⟨t, ht, hfrom⟩ := hexits s hs hkind
    exact hnone t ht hfrom

/-- Whatever the validator refuses, it refuses as an invalid definition. -/
theorem validateGraph_raises (states : List (State κ)) (transitions : List Transition) :
    Raises (fun e => ∃ message, e = invalidDefinition message)
      (validateGraph states transitions) := by
  have hsole : Raises (fun e => ∃ message, e = invalidDefinition message) (soleInitial states) := by
    unfold soleInitial
    split
    · exact raises_ok _
    · exact raises_error.2 ⟨_, rfl⟩
  simp [validateGraph, hsole]

theorem validates_iff_wellFormed (hids : (states.map (·.id)).Nodup) :
    validateGraph states transitions = .ok () ↔ WellFormed states transitions := by
  rw [validateGraph_eq_ok]
  simp only [filter_initial_eq (List.Nodup.of_map _ hids)]
  constructor
  · rintro ⟨start, ⟨hstart, hsole⟩, hterminal, hends, hexits, hreach⟩
    refine ⟨⟨start, hstart, hsole⟩, hterminal, hends, hexits, fun other hmem hkind => ?_⟩
    obtain rfl := hsole other ⟨hmem, hkind⟩
    exact hreach
  · rintro ⟨⟨start, hstart, hsole⟩, hterminal, hends, hexits, hreach⟩
    exact ⟨start, ⟨hstart, hsole⟩, hterminal, hends, hexits, hreach start hstart.1 hstart.2⟩

/-- Every state of a published version is on a path of transitions from the one it starts in. -/
theorem Published.wellFormed (v : Published κ) : WellFormed v.states v.transitions :=
  (validates_iff_wellFormed v.idsNodup).1 v.valid

/-- The validator accepts the graphs an instance can run through, and its search ends on every
graph. -/
theorem validateGraph_accepts_iff (states : List (State κ)) (transitions : List Transition)
    (hids : (states.map (·.id)).Nodup) :
    (validateGraph states transitions = .ok () ↔ WellFormed states transitions) ∧
      ∀ id, Searches (outgoing transitions) [] [id] (reached transitions id) :=
  ⟨validates_iff_wellFormed hids, searches_reached transitions⟩

/-- A review that may go back to the draft, be repeated, or be approved in two ways. -/
theorem review_wellFormed :
    WellFormed
      [{ id := 1, code := "draft", kind := .initial }, { id := 2, code := "review" },
        { id := 3, code := "approved", kind := .terminal }]
      [{ id := 1, fromStateId := 1, toStateId := 2, action := .submit },
        { id := 2, fromStateId := 2, toStateId := 1, action := .return },
        { id := 3, fromStateId := 2, toStateId := 2, action := .escalate },
        { id := 4, fromStateId := 2, toStateId := 3, action := .approve, maxAmount := some 100 },
        { id := 5, fromStateId := 2, toStateId := 3, action := .approve, minAmount := some 100 }] :=
  (validateGraph_accepts_iff _ _ (by decide)).1.1 (by rfl)

end OfficeConnect.Workflow
