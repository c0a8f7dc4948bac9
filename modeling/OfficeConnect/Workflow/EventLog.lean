import OfficeConnect.Workflow.Segregation

/-!
# The log and the state it folds to

The state of an instance is stored next to its log.  Folding the log gives the stored state back,
and every transition starts where the move before it ended, on every row of a registry that any
number of callers start instances in, act on, sweep and remind.
-/

namespace OfficeConnect.Workflow

open Lib

variable {κ : Type}

/-! ## Folding a log -/

/-- The event is one that sets the state. -/
def Event.moves (e : Event) : Prop := e.eventType = .started ∨ e.eventType = .transition

instance : DecidablePred Event.moves := fun e =>
  inferInstanceAs (Decidable (e.eventType = .started ∨ e.eventType = .transition))

/-- The state the log derives: each started or transition event sets it to its target. -/
def foldEvents (events : List Event) : Option ℕ :=
  events.foldl (fun stateId e => if e.moves ∧ e.toStateId ≠ none then e.toStateId else stateId) none

/-- The latest started or transition event. -/
def lastMove (events : List Event) : Option Event := (events.filter (·.moves)).getLast?

/-- Every transition of the log starts where the move before it ended. -/
def Chained (events : List Event) : Prop :=
  ∀ before e after, events = before ++ e :: after → e.eventType = .transition →
    ∃ p g, lastMove before = some p ∧ p.toStateId = some g ∧ e.fromStateId = some g

section

variable {events extra : List Event} {e : Event}

theorem foldEvents_append_markers (h : ∀ e ∈ extra, ¬ e.moves) :
    foldEvents (events ++ extra) = foldEvents events := by
  rw [foldEvents, List.foldl_append, ← foldEvents]
  generalize foldEvents events = stateId
  induction extra with
  | nil => rfl
  | cons e extra ih =>
      have he : ¬ e.moves := h e (by simp)
      rw [List.foldl_cons, if_neg fun hm => he hm.1]
      exact ih fun e' he' => h e' (by simp [he'])

theorem foldEvents_append_move (events : List Event) {g : ℕ} (he : e.moves)
    (hto : e.toStateId = some g) :
    foldEvents (events ++ [e]) = some g := by
  rw [foldEvents, List.foldl_append, List.foldl_cons, List.foldl_nil, if_pos ⟨he, by simp [hto]⟩,
    hto]

theorem lastMove_append_markers (h : ∀ e ∈ extra, ¬ e.moves) :
    lastMove (events ++ extra) = lastMove events := by
  have hnone : extra.filter (·.moves) = [] := List.filter_eq_nil_iff.2 (by simpa using h)
  rw [lastMove, List.filter_append, hnone, List.append_nil, lastMove]

theorem lastMove_append_move (events : List Event) (he : e.moves) :
    lastMove (events ++ [e]) = some e := by
  simp [lastMove, he]

/-- A log grows by one event: a split of the longer log splits the shorter one, or ends in it. -/
theorem append_singleton_split {before after : List Event} {e' : Event}
    (h : events ++ [e] = before ++ e' :: after) :
    (before = events ∧ e' = e) ∨ ∃ rest, events = before ++ e' :: rest := by
  rcases List.eq_nil_or_concat after with rfl | ⟨rest, last, rfl⟩
  · obtain ⟨rfl, hlast⟩ := List.append_inj' h rfl
    exact .inl ⟨rfl, (List.singleton_inj.1 hlast).symm⟩
  · refine .inr ⟨rest, ?_⟩
    have hcons : events ++ [e] = (before ++ e' :: rest) ++ [last] := by
      rw [h, List.concat_eq_append, List.append_assoc, List.cons_append]
    exact (List.append_inj' hcons rfl).1

theorem Chained.append_event (h : Chained events)
    (he : e.eventType = .transition →
      ∃ p g, lastMove events = some p ∧ p.toStateId = some g ∧ e.fromStateId = some g) :
    Chained (events ++ [e]) := by
  intro before e' after hsplit htype
  rcases append_singleton_split hsplit with ⟨rfl, rfl⟩ | ⟨rest, hrest⟩
  · exact he htype
  · exact h before e' rest hrest htype

theorem Chained.append_markers (h : Chained events) (hextra : ∀ e ∈ extra, ¬ e.moves) :
    Chained (events ++ extra) := by
  induction extra using List.reverseRecOn with
  | nil => simpa using h
  | append_singleton extra e ih =>
      rw [← List.append_assoc]
      refine (ih fun e' he' => hextra e' (by simp [he'])).append_event fun htype => ?_
      exact absurd (.inr htype) (hextra e (by simp))

end

/-! ## One call -/

/-- The log folds to the stored state, its last move leads there, and its moves are chained. -/
structure Sourced (inst : Instance) : Prop where
  folds : foldEvents inst.events = some inst.currentStateId
  last : ∃ p, lastMove inst.events = some p ∧ p.toStateId = some inst.currentStateId
  chained : Chained inst.events

section

variable {dir : Directory} {v : Version κ} {inst inst' : Instance} {r : Request}
  {current : State κ} {t : Transition} {out : Outcome} {entered : List Step}

theorem newInstance_sourced (v : Version κ) (initial : State κ) (start : Start) (now : Time) :
    Sourced (newInstance v initial start now) where
  folds := foldEvents_append_move [] (.inl rfl) rfl
  last := ⟨_, lastMove_append_move [] (.inl rfl), rfl⟩
  chained := by
    have hempty : Chained [] := by
      intro before e after hsplit
      simp at hsplit
    exact hempty.append_event fun htype => by cases htype

theorem startInstance_sourced {enabled : Bool} {definitionCode : String}
    {version : Option (Version κ)} {start : Start} {now : Time} {inst : Instance}
    (h : startInstance enabled definitionCode version start now = .ok inst) : Sourced inst := by
  simp only [startInstance, bind_eq_ok, pure_eq_ok] at h
  obtain ⟨-, -, v, -, initial, -, rfl⟩ := h
  exact newInstance_sourced v initial start now

/-- A transition is logged from where the instance stands to where it goes. -/
theorem Fired.sourced (h : Fired dir v inst r current t out entered inst') (hs : Sourced inst) :
    Sourced inst' := by
  have hmoves : (emitEvent current r out).moves := .inr rfl
  rw [h.result]
  refine ⟨foldEvents_append_move _ hmoves rfl, ⟨_, lastMove_append_move _ hmoves, rfl⟩, ?_⟩
  obtain ⟨p, hp, hto⟩ := hs.last
  exact hs.chained.append_event fun _ => ⟨p, _, hp, hto, by rw [← h.current_id]; rfl⟩

/-- A call that takes no transition stays where it is and only logs markers. -/
theorem Call.apply_markers {c : Call} (h : c.apply v inst = .ok inst') :
    (∃ dir r current t out entered, c = .act dir r ∧
      Fired dir v inst r current t out entered inst') ∨
    (inst'.currentStateId = inst.currentStateId ∧ ∃ extra,
      inst'.events = inst.events ++ extra ∧ ∀ e ∈ extra, ¬ e.moves) := by
  cases c with
  | act dir r =>
      obtain ⟨⟨e, inst''⟩, hex, rfl⟩ := map_eq_ok.1 h
      rcases executeAction_cases hex with ⟨-, rfl⟩ | ⟨current, t, out, entered, hf, -⟩
      · exact .inr ⟨rfl, [], by simp, by simp⟩
      · exact .inl ⟨dir, r, current, t, out, entered, rfl, hf⟩
  | sweep now picked =>
      obtain rfl := Except.ok.inj h
      refine .inr ⟨rfl, _, rfl, fun e he => ?_⟩
      obtain ⟨i, -, rfl⟩ := List.mem_map.1 he
      simp [Event.moves]
  | remind stepId level revisionNo =>
      obtain rfl := Except.ok.inj h
      exact .inr ⟨rfl, _, rfl, by simp [Event.moves]⟩
  | setAmount amount =>
      obtain rfl := Except.ok.inj h
      exact .inr ⟨rfl, [], by simp, by simp⟩
  | stampSla stateId due =>
      obtain rfl := Except.ok.inj h
      exact .inr ⟨rfl, [], by simp [Workflow.stampSla], by simp⟩

theorem Call.apply_sourced {c : Call} (h : c.apply v inst = .ok inst') (hs : Sourced inst) :
    Sourced inst' := by
  rcases Call.apply_markers h with ⟨dir, r, current, t, out, entered, -, hf⟩ |
    ⟨hstate, extra, hevents, hextra⟩
  · exact hf.sourced hs
  · refine ⟨?_, ?_, ?_⟩
    · rw [hevents, foldEvents_append_markers hextra, hstate, hs.folds]
    · rw [hevents, lastMove_append_markers hextra, hstate]
      exact hs.last
    · rw [hevents]
      exact hs.chained.append_markers hextra

end

/-! ## Any number of instances -/

section

variable [ToString κ]

/-- An instance and the version it is pinned to. -/
structure Row (κ : Type) [ToString κ] where
  version : Published κ
  inst : Instance

/-- The writes to a registry: a start of whatever version a code resolves to, a call on one
instance, and the sweep, which escalates the due steps it reaches on every instance. -/
inductive Write (κ : Type) [ToString κ] where
  | start (enabled : Bool) (definitionCode : String) (version : Option (Published κ))
      (opening : Start) (now : Time)
  | on (instanceId : ℕ) (c : Call)
  | sweep (now : Time) (picked : ℕ → List ℕ)

def Write.apply : Write κ → List (Row κ) → Except Raised (List (Row κ))
  | start enabled definitionCode version opening now, rows => do
      let inst ← startInstance enabled definitionCode (version.map Published.toVersion) opening now
      let v ← found version (definitionNotPublished definitionCode)
      return rows ++ [⟨v, inst⟩]
  | on instanceId c, rows => do
      let row ← found rows[instanceId]? instanceNotFound
      let inst ← c.apply row.version.toVersion row.inst
      return rows.modify instanceId fun _ => { row with inst := inst }
  | sweep now picked, rows =>
      .ok (rows.mapIdx fun i row => { row with inst := sweepDueSteps now (picked i) row.inst })

/-- The registry a list of writes leads to. -/
def registry (writes : List (Write κ)) : List (Row κ) := run Write.apply [] writes

theorem Write.apply_sourced {w : Write κ} {rows rows' : List (Row κ)}
    (hrows : ∀ row ∈ rows, Sourced row.inst) (h : w.apply rows = .ok rows') :
    ∀ row ∈ rows', Sourced row.inst := by
  intro row hrow
  cases w with
  | start enabled definitionCode version opening now =>
      simp only [Write.apply, bind_eq_ok, pure_eq_ok] at h
      obtain ⟨inst, hinst, v, -, rfl⟩ := h
      rcases List.mem_append.1 hrow with hold | hnew
      · exact hrows row hold
      · obtain rfl := List.mem_singleton.1 hnew
        exact startInstance_sourced hinst
  | on instanceId c =>
      simp only [Write.apply, bind_eq_ok, found_eq_ok, pure_eq_ok] at h
      obtain ⟨row₀, hrow₀, inst, hinst, rfl⟩ := h
      obtain ⟨i, hi⟩ := List.mem_iff_getElem?.1 hrow
      rcases getElem?_modify_eq_some hi with ⟨-, -, -, rfl⟩ | ⟨-, hold⟩
      · exact Call.apply_sourced hinst (hrows row₀ (List.mem_of_getElem? hrow₀))
      · exact hrows row (List.mem_of_getElem? hold)
  | sweep now picked =>
      obtain rfl := Except.ok.inj h
      obtain ⟨i, hi, rfl⟩ := List.mem_mapIdx.1 hrow
      have happ : (Call.sweep now (picked i)).apply rows[i].version.toVersion rows[i].inst =
          .ok (sweepDueSteps now (picked i) rows[i].inst) := rfl
      exact Call.apply_sourced happ (hrows _ (List.getElem_mem hi))

/-- On every instance of every registry, the log folds to the stored state and every transition
starts where the move before it ended. -/
theorem registry_eventSourced (writes : List (Write κ)) :
    ∀ row ∈ registry writes,
      foldEvents row.inst.events = some row.inst.currentStateId ∧ Chained row.inst.events := by
  have hsourced : ∀ row ∈ registry writes, Sourced row.inst :=
    run_invariant (P := fun _ _ => True) (I := fun rows => ∀ row ∈ rows, Sourced row.inst)
      (fun _ _ _ _ hrows h => Write.apply_sourced hrows h) writes [] (by simp) (conforms_true _ _)
  exact fun row hrow => ⟨(hsourced row hrow).folds, (hsourced row hrow).chained⟩

/-- A memo is started and submitted. -/
def memoWrites : List (Write String) := [
  .start true "memo" (some memo) { actorUserId := some 3 } 0,
  .on 0 (.act memoDirectory { action := .submit, actorUserId := 3 })]

/-- The submitted memo stands at its gate, where its log leads. -/
theorem memo_eventSourced : ∃ row ∈ registry memoWrites, row.inst.currentStateId = 2 ∧
    foldEvents row.inst.events = some row.inst.currentStateId ∧ Chained row.inst.events := by
  obtain ⟨row, hrow, htest⟩ := exists_eq_some (o := (registry memoWrites)[0]?)
    (fun row => row.inst.currentStateId = 2) (by decide +kernel)
  have hmem : row ∈ registry memoWrites := List.mem_of_getElem? hrow
  exact ⟨row, hmem, of_decide_eq_true htest, registry_eventSourced memoWrites row hmem⟩

end

end OfficeConnect.Workflow
