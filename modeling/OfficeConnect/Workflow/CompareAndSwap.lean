import OfficeConnect.Workflow.EventLog
import OfficeConnect.Workflow.Segregation

/-!
# Compare and swap on the version of an instance

The version of an instance counts its transitions.  Calls that carry one expected version compete
for one transition: the row lock puts them in some order, each reads the row fresh, and at most one
of them moves the instance.  A call whose key already labels an event is answered with that event
and moves nothing.
-/

namespace OfficeConnect.Workflow

open Lib

variable {κ : Type}

/-! ## The version counts the transitions -/

def transitions (events : List Event) : List Event := events.filter (·.eventType = .transition)

section

variable {dir : Directory} {v : Version κ} {inst inst' : Instance} {r : Request}
  {current : State κ} {t : Transition} {out : Outcome} {entered : List Step}

theorem Fired.transitions (h : Fired dir v inst r current t out entered inst') :
    transitions inst'.events = transitions inst.events ++ [emitEvent current r out] := by
  rw [h.result]
  simp [Workflow.transitions, emitEvent]

theorem Quiet.transitions (h : Quiet inst inst') :
    transitions inst'.events = transitions inst.events := by
  obtain ⟨extra, hevents, hextra⟩ := h.events
  have hnone : extra.filter (·.eventType = .transition) = [] :=
    List.filter_eq_nil_iff.2 fun e he => by simpa using (hextra e he).1
  rw [hevents, Workflow.transitions, List.filter_append, hnone, List.append_nil,
    Workflow.transitions]

/-- The version is one more than the number of transitions logged. -/
def Counted (inst : Instance) : Prop := inst.rowVersion = 1 + (transitions inst.events).length

theorem Call.apply_counted {c : Call} (h : c.apply v inst = .ok inst') (hc : Counted inst) :
    Counted inst' := by
  unfold Counted at hc ⊢
  rcases Call.apply_cases h with hq | ⟨dir, r, current, t, out, entered, -, hf⟩
  · rw [hq.rowVersion, hq.transitions, hc]
  · rw [hf.transitions, List.length_append, List.length_singleton, hf.result]
    dsimp only
    omega

theorem runFrom_counted (v : Version κ) (initial : State κ) (start : Start) (now : Time)
    (calls : List Call) : Counted (runFrom v initial start now calls) :=
  run_invariant (P := fun _ _ => True) (fun _ _ _ _ hc h => Call.apply_counted h hc) calls _ rfl
    (conforms_true _ _)

end

/-! ## Competing calls -/

/-- What comes of one action: a transition of its own, the event its key labels, or an error. -/
inductive Verdict where
  | took (e : Event)
  | replayed (e : Event)
  | raised (err : Raised)
deriving DecidableEq, Repr

def Verdict.taken? : Verdict → Option Event
  | took e => some e
  | _ => none

def Verdict.returned : Verdict → Bool
  | raised _ => false
  | _ => true

def verdict (dir : Directory) (v : Version κ) (inst : Instance) (r : Request) : Verdict :=
  match executeAction dir v inst r with
  | .error err => .raised err
  | .ok (e, _) =>
      match Workflow.replayed inst r.idempotencyKey with
      | some _ => .replayed e
      | none => .took e

/-- The verdicts of the actions among a list of calls, each made on the row the ones before left. -/
def verdicts (v : Version κ) : Instance → List Call → List Verdict
  | _, [] => []
  | inst, .act dir r :: calls =>
      verdict dir v inst r :: verdicts v (commit (Call.apply v) inst (.act dir r)) calls
  | inst, c :: calls => verdicts v (commit (Call.apply v) inst c) calls

def Call.key? : Call → Option String
  | act _ r => r.idempotencyKey
  | _ => none

/-- Every action among the calls carries the expected version, and no two carry one key. -/
structure Rivals (expectedVersion : ℕ) (calls : List Call) : Prop where
  version : ∀ dir r, Call.act dir r ∈ calls → r.expectedVersion = some expectedVersion
  keys : (calls.filterMap Call.key?).Nodup

/-- What a contest leaves: at most one transition, logged once; every replay is of an event logged
before the contest; and where no key of the contest labels an event yet, at most one call returns. -/
structure Contested (v : Version κ) (inst : Instance) (calls : List Call) : Prop where
  single : ((verdicts v inst calls).filterMap Verdict.taken?).length ≤ 1
  logged : transitions (run (Call.apply v) inst calls).events =
    transitions inst.events ++ (verdicts v inst calls).filterMap Verdict.taken?
  replays : ∀ e, Verdict.replayed e ∈ verdicts v inst calls → e ∈ inst.events
  fresh : (∀ e ∈ inst.events, ∀ key ∈ calls.filterMap Call.key?, e.idempotencyKey ≠ some key) →
    (verdicts v inst calls).countP Verdict.returned ≤ 1

section

variable {dir : Directory} {v : Version κ} {inst inst' : Instance} {r : Request} {n : ℕ}

/-- An action raises, replays, or swaps the version it expects for the next. -/
theorem verdict_cases (dir : Directory) (v : Version κ) (inst : Instance)
    (hn : r.expectedVersion = some n) :
    (∃ err, verdict dir v inst r = .raised err ∧
      commit (Call.apply v) inst (.act dir r) = inst) ∨
    (∃ e k, verdict dir v inst r = .replayed e ∧
      commit (Call.apply v) inst (.act dir r) = inst ∧ e ∈ inst.events ∧
      r.idempotencyKey = some k ∧ e.idempotencyKey = some k) ∨
    (∃ e, verdict dir v inst r = .took e ∧ inst.rowVersion = n ∧
      (commit (Call.apply v) inst (.act dir r)).rowVersion = n + 1 ∧
      (commit (Call.apply v) inst (.act dir r)).events = inst.events ++ [e] ∧
      e.eventType = .transition ∧ e.idempotencyKey = r.idempotencyKey) := by
  cases hex : executeAction dir v inst r with
  | error err =>
      refine .inl ⟨err, by simp [verdict, hex], ?_⟩
      simp [commit, Call.apply, hex, Functor.map, Except.map]
  | ok p =>
      obtain ⟨e, inst'⟩ := p
      have hcommit : commit (Call.apply v) inst (.act dir r) = inst' :=
        commit_of_ok (map_eq_ok.2 ⟨(e, inst'), hex, rfl⟩)
      rw [hcommit]
      rcases executeAction_eq_ok.1 hex with ⟨hrep, rfl⟩ | ⟨hnone, current, t, out, hroute, -, hadv⟩
      · obtain ⟨hmem, hkey⟩ := replayed_mem hrep
        cases hk : r.idempotencyKey with
        | none =>
            rw [hk] at hrep
            cases hrep
        | some k =>
            rw [hk] at hkey
            exact .inr (.inl ⟨e, k, by simp [verdict, hex, hrep], rfl, hmem, rfl, hkey⟩)
      · obtain ⟨entered, -, -, rfl, rfl⟩ := advance_eq_ok.1 hadv
        have hver := (route_eq_ok.1 hroute).1 n hn
        refine .inr (.inr ⟨_, by simp [verdict, hex, hnone], hver, ?_, rfl, rfl, rfl⟩)
        rw [hver]

/-- A call that is no action keeps the version and labels no event. -/
theorem commit_quiet {c : Call} (hc : ∀ dir r, c ≠ .act dir r) :
    Quiet inst (commit (Call.apply v) inst c) :=
  commit_keeps (Quiet.refl inst) fun inst' h => by
    rcases Call.apply_cases h with hq | ⟨dir, r, -, -, -, -, heq, -⟩
    · exact hq
    · exact absurd heq (hc dir r)

theorem Quiet.mem_of_labelled (h : Quiet inst inst') {e : Event} {k : String}
    (he : e ∈ inst'.events) (hk : e.idempotencyKey = some k) : e ∈ inst.events := by
  obtain ⟨extra, hevents, hextra⟩ := h.events
  rw [hevents] at he
  rcases List.mem_append.1 he with he | he
  · exact he
  · rw [(hextra e he).2.2.2] at hk
    cases hk

theorem verdicts_quiet {c : Call} (hc : ∀ dir r, c ≠ .act dir r) (calls : List Call) :
    verdicts v inst (c :: calls) = verdicts v (commit (Call.apply v) inst c) calls := by
  cases c with
  | act dir r => exact absurd rfl (hc dir r)
  | _ => rfl

theorem Rivals.tail {c : Call} {calls : List Call} (h : Rivals n (c :: calls)) :
    Rivals n calls where
  version dir r hmem := h.version dir r (List.mem_cons_of_mem c hmem)
  keys := by
    have hkeys := h.keys
    rw [List.filterMap_cons] at hkeys
    split at hkeys
    · exact hkeys
    · exact (List.nodup_cons.1 hkeys).2

/-- The key of the first rival is no other's. -/
theorem Rivals.head_key {calls : List Call} {k : String} (h : Rivals n (.act dir r :: calls))
    (hk : r.idempotencyKey = some k) : k ∉ calls.filterMap Call.key? := by
  have hkey : (Call.act dir r).key? = some k := hk
  have hkeys := h.keys
  rw [List.filterMap_cons_some hkey] at hkeys
  exact (List.nodup_cons.1 hkeys).1

/-! ## The course of a contest -/

/-- None of the calls takes a transition once the version has passed the expected one, at most one
before that, and a replay is of an event that the row already holds under a key of the calls. -/
structure Raced (v : Version κ) (n : ℕ) (inst : Instance) (calls : List Call) : Prop where
  lost : n < inst.rowVersion → (verdicts v inst calls).filterMap Verdict.taken? = []
  single : ((verdicts v inst calls).filterMap Verdict.taken?).length ≤ 1
  logged : transitions (run (Call.apply v) inst calls).events =
    transitions inst.events ++ (verdicts v inst calls).filterMap Verdict.taken?
  replays : ∀ e, Verdict.replayed e ∈ verdicts v inst calls →
    e ∈ inst.events ∧ ∃ k ∈ calls.filterMap Call.key?, e.idempotencyKey = some k

theorem mem_keys_cons {c : Call} {calls : List Call} {k : String}
    (h : k ∈ calls.filterMap Call.key?) : k ∈ (c :: calls).filterMap Call.key? := by
  obtain ⟨d, hd, hk⟩ := List.mem_filterMap.1 h
  exact List.mem_filterMap.2 ⟨d, List.mem_cons_of_mem c hd, hk⟩

theorem Raced.of_quiet {c : Call} {calls : List Call} (hc : ∀ dir r, c ≠ .act dir r)
    (h : Raced v n (commit (Call.apply v) inst c) calls) : Raced v n inst (c :: calls) := by
  have hq : Quiet inst (commit (Call.apply v) inst c) := commit_quiet hc
  constructor
  · rw [verdicts_quiet hc, ← hq.rowVersion]
    exact h.lost
  · rw [verdicts_quiet hc]
    exact h.single
  · rw [verdicts_quiet hc, run_cons, h.logged, hq.transitions]
  · rw [verdicts_quiet hc]
    intro e he
    obtain ⟨hin, k, hk, hek⟩ := h.replays e he
    exact ⟨hq.mem_of_labelled hin hek, k, mem_keys_cons hk, hek⟩

/-- An action that takes no transition leaves the race to the rest. -/
theorem Raced.of_lost {calls : List Call} (h : Raced v n inst calls)
    (hstay : commit (Call.apply v) inst (.act dir r) = inst)
    (htaken : (verdict dir v inst r).taken? = none)
    (hreplay : ∀ e, verdict dir v inst r = .replayed e →
      e ∈ inst.events ∧ ∃ k, r.idempotencyKey = some k ∧ e.idempotencyKey = some k) :
    Raced v n inst (.act dir r :: calls) := by
  have hrest : (verdicts v inst (.act dir r :: calls)).filterMap Verdict.taken? =
      (verdicts v inst calls).filterMap Verdict.taken? := by
    rw [verdicts, List.filterMap_cons_none htaken, hstay]
  constructor
  · rw [hrest]
    exact h.lost
  · rw [hrest]
    exact h.single
  · rw [hrest, run_cons, hstay, h.logged]
  · rw [verdicts, hstay]
    intro e he
    rcases List.mem_cons.1 he with heq | he
    · obtain ⟨hin, k, hk, hek⟩ := hreplay e heq.symm
      exact ⟨hin, k, List.mem_filterMap.2 ⟨.act dir r, by simp, hk⟩, hek⟩
    · obtain ⟨hin, k, hk, hek⟩ := h.replays e he
      exact ⟨hin, k, mem_keys_cons hk, hek⟩

/-- The action that takes the transition is the last one that can. -/
theorem Raced.of_took {calls : List Call} {e : Event} (hr : Rivals n (.act dir r :: calls))
    (h : Raced v n (commit (Call.apply v) inst (.act dir r)) calls)
    (hv : verdict dir v inst r = .took e) (hver : inst.rowVersion = n)
    (hnext : (commit (Call.apply v) inst (.act dir r)).rowVersion = n + 1)
    (hevents : (commit (Call.apply v) inst (.act dir r)).events = inst.events ++ [e])
    (htype : e.eventType = .transition) (hkey : e.idempotencyKey = r.idempotencyKey) :
    Raced v n inst (.act dir r :: calls) := by
  have hnone := h.lost (by omega)
  have htaken : (verdicts v inst (.act dir r :: calls)).filterMap Verdict.taken? = [e] := by
    have hhead : (Verdict.took e).taken? = some e := rfl
    rw [verdicts, hv, List.filterMap_cons_some hhead, hnone]
  constructor
  · intro hlt
    omega
  · rw [htaken, List.length_singleton]
  · rw [htaken, run_cons, h.logged, hnone, List.append_nil, hevents, transitions, transitions,
      List.filter_append]
    simp [htype]
  · rw [verdicts, hv]
    intro e' he'
    obtain ⟨hin, k, hk, hek⟩ := h.replays e' (by simpa using he')
    rw [hevents] at hin
    rcases List.mem_append.1 hin with hin | hin
    · exact ⟨hin, k, mem_keys_cons hk, hek⟩
    · -- the event just taken carries the first rival's key, which is no other's
      obtain rfl := List.mem_singleton.1 hin
      exact absurd hk (hr.head_key (hkey.symm.trans hek))

theorem raced_of_rivals {calls : List Call} (h : Rivals n calls) (inst : Instance) :
    Raced v n inst calls := by
  induction calls generalizing inst with
  | nil => exact ⟨fun _ => rfl, by simp [verdicts], by simp [verdicts], by simp [verdicts]⟩
  | cons c calls ih =>
      have hrest := ih h.tail
      by_cases hact : ∃ dir r, c = .act dir r
      · obtain ⟨dir, r, rfl⟩ := hact
        rcases verdict_cases dir v inst (h.version dir r (by simp)) with
          ⟨err, hv, hstay⟩ | ⟨e, k, hv, hstay, hin, hk, hek⟩ |
          ⟨e, hv, hver, hnext, hevents, htype, hkey⟩
        · exact (hrest inst).of_lost hstay (by rw [hv]; rfl) fun e he => by simp [hv] at he
        · refine (hrest inst).of_lost hstay (by rw [hv]; rfl) fun e' he' => ?_
          obtain rfl := Verdict.replayed.inj (hv.symm.trans he')
          exact ⟨hin, k, hk, hek⟩
        · exact (hrest _).of_took h hv hver hnext hevents htype hkey
      · exact (hrest _).of_quiet fun dir r heq => hact ⟨dir, r, heq⟩

theorem returned_eq (vs : List Verdict) (h : ∀ e, Verdict.replayed e ∉ vs) :
    vs.countP Verdict.returned = (vs.filterMap Verdict.taken?).length := by
  induction vs with
  | nil => rfl
  | cons w vs ih =>
      have hrest := ih fun e he => h e (by simp [he])
      cases w with
      | took e =>
          have htaken : (Verdict.took e).taken? = some e := rfl
          rw [List.countP_cons_of_pos rfl, List.filterMap_cons_some htaken, List.length_cons, hrest]
      | replayed e => exact absurd (by simp) (h e)
      | raised err =>
          have htaken : (Verdict.raised err).taken? = none := rfl
          rw [List.countP_cons_of_neg Bool.false_ne_true, List.filterMap_cons_none htaken, hrest]

theorem Raced.contested {calls : List Call} (h : Raced v n inst calls) :
    Contested v inst calls where
  single := h.single
  logged := h.logged
  replays e he := (h.replays e he).1
  fresh hkeys := by
    rw [returned_eq _ fun e he => ?_]
    · exact h.single
    · obtain ⟨hin, k, hk, hek⟩ := h.replays e he
      exact hkeys e hin k hk hek

end

/-- In every reachable state the version counts the transitions, and of any calls that carry one
expected version and no key twice, in any order and among any other writes, at most one takes a
transition. -/
theorem compareAndSwap_runFrom [ToString κ] (v : Published κ) (initial : State κ) (start : Start)
    (now : Time) (done : List Call) :
    Counted (runFrom v.toVersion initial start now done) ∧
    ∀ (expectedVersion : ℕ) (calls : List Call), Rivals expectedVersion calls →
      Contested v.toVersion (runFrom v.toVersion initial start now done) calls :=
  ⟨runFrom_counted v.toVersion initial start now done,
    fun _ _ h => (raced_of_rivals h _).contested⟩

/-! ## A memo signed twice -/

def submitAs (key : String) (expectedVersion : Option ℕ) : Call :=
  .act memoDirectory {
    action := .submit, actorUserId := 3, idempotencyKey := some key
    expectedVersion := expectedVersion }

def signAs (key : String) (expectedVersion : Option ℕ) : Call :=
  .act memoDirectory {
    action := .approve, actorUserId := 2, idempotencyKey := some key
    expectedVersion := expectedVersion }

def memoStart (calls : List Call) : Instance :=
  runFrom memo.toVersion { id := 1, code := "draft", kind := .initial } { actorUserId := some 3 } 0
    calls

/-- Of two signatures of one version, the first is taken and the second is stale. -/
theorem memo_contested :
    Rivals 2 [signAs "b" (some 2), signAs "c" (some 2)] ∧
    Contested memo.toVersion (memoStart [submitAs "a" none])
      [signAs "b" (some 2), signAs "c" (some 2)] := by
  have hrivals : Rivals 2 [signAs "b" (some 2), signAs "c" (some 2)] := by
    refine ⟨fun dir r hmem => ?_, by decide⟩
    simp only [signAs, List.mem_cons, Call.act.injEq, List.not_mem_nil, or_false] at hmem
    rcases hmem with ⟨-, rfl⟩ | ⟨-, rfl⟩ <;> rfl
  exact ⟨hrivals, (compareAndSwap_runFrom memo _ _ _ _).2 2 _ hrivals⟩

/-- Two calls that expect one version and carry the keys of a memo's two transitions both return. -/
theorem memo_both_return :
    ¬ ∀ (done : List Call) (expectedVersion : ℕ) (calls : List Call),
      Rivals expectedVersion calls →
        (verdicts memo.toVersion (memoStart done) calls).countP Verdict.returned ≤ 1 := by
  intro h
  have hrivals : Rivals 3 [submitAs "a" (some 3), signAs "b" (some 3)] := by
    refine ⟨fun dir r hmem => ?_, by decide⟩
    simp only [submitAs, signAs, List.mem_cons, Call.act.injEq, List.not_mem_nil, or_false] at hmem
    rcases hmem with ⟨-, rfl⟩ | ⟨-, rfl⟩ <;> rfl
  have hboth := h [submitAs "a" none, signAs "b" none] 3 _ hrivals
  revert hboth
  decide +kernel

end OfficeConnect.Workflow
