import OfficeConnect.Lib.Run

/-!
# Transactions that meet on one row

A database under READ COMMITTED, seen from one row of it.  Each request runs in its own session: a
plain `SELECT` loads a copy of the committed row, `SELECT … FOR UPDATE` waits for the row lock and
loads a copy only if the session holds none, the request decides on its copy, the `UPDATE` waits for
the row lock and writes onto the row as it then stands, and the commit publishes what was written
and releases the lock.  Requests move in any order, and a move that has to wait leaves the state as
it is.
-/

namespace Lib.Session

universe u v

/-- The column an `UPDATE` leaves: a column that the session did not change is not written. -/
def column {α : Type*} [DecidableEq α] (copy edited row : α) : α :=
  if edited = copy then row else edited

theorem column_of_eq {α : Type*} [DecidableEq α] {copy edited : α} (h : edited = copy) (row : α) :
    column copy edited row = row := if_pos h

@[simp] theorem column_self {α : Type*} [DecidableEq α] (copy edited : α) :
    column copy edited copy = edited := by
  unfold column
  split_ifs with h
  · exact h.symm
  · rfl

/-- How a request works on the row: whether it loads the row before it locks it, whether it locks
the row before it decides, what it decides on its copy, and what it writes. -/
structure Plan (R C P : Type v) (ε : Type u) where
  preloads : Bool
  locks : Bool
  check : C → Except ε P
  write : P → R → Except ε R

inductive Phase (R C P : Type v) where
  | idle
  | loaded (copy : C)
  | locked (copy : C)
  | checked (copy : C) (plan : P)
  | written (copy : C) (plan : P) (result : R)
  | closed

/-- The committed row, who holds its lock, the session of each request, and the answers given so
far: `none` for a commit, else the refusal. -/
structure Db (ι : Type*) (R C P : Type v) (ε : Type u) where
  row : R
  holder : Option ι := none
  phase : ι → Phase R C P := fun _ => .idle
  answers : List (ι × Option ε) := []

inductive Move where
  | load | lock | check | write | commit | abort
deriving DecidableEq, Repr

variable {ι : Type*} {R C P : Type v} {ε : Type u}

/-! ## Moves -/

section Moves

variable [DecidableEq ι]

/-- No other request holds the lock. -/
def Db.free (s : Db ι R C P ε) (i : ι) : Prop := s.holder = none ∨ s.holder = some i

instance (s : Db ι R C P ε) (i : ι) : Decidable (s.free i) :=
  inferInstanceAs (Decidable (s.holder = none ∨ s.holder = some i))

def Db.enter (s : Db ι R C P ε) (i : ι) (p : Phase R C P) : Db ι R C P ε :=
  { s with phase := Function.update s.phase i p }

/-- The session ends: its lock is released. -/
def Db.close (s : Db ι R C P ε) (i : ι) : Db ι R C P ε :=
  { s.enter i .closed with holder := if s.holder = some i then none else s.holder }

def Db.answer (s : Db ι R C P ε) (i : ι) (e : Option ε) : Db ι R C P ε :=
  { s.close i with answers := s.answers ++ [(i, e)] }

def Db.take (s : Db ι R C P ε) (i : ι) (p : Phase R C P) : Db ι R C P ε :=
  { s.enter i p with holder := some i }

/-- One move of one request; the error is a move that is not the request's, or that waits. -/
def step (read : R → C) (plan : ι → Plan R C P ε) (m : ι × Move) (s : Db ι R C P ε) :
    Except Unit (Db ι R C P ε) :=
  let i := m.1
  match m.2, s.phase i with
  | .load, .idle =>
      if (plan i).preloads then .ok (s.enter i (.loaded (read s.row))) else .error ()
  | .lock, .idle =>
      if (plan i).locks ∧ ¬ (plan i).preloads ∧ s.free i then .ok (s.take i (.locked (read s.row)))
      else .error ()
  | .lock, .loaded c =>
      if (plan i).locks ∧ s.free i then .ok (s.take i (.locked c)) else .error ()
  | .check, .loaded c =>
      if (plan i).locks then .error ()
      else match (plan i).check c with
        | .ok p => .ok (s.enter i (.checked c p))
        | .error e => .ok (s.answer i (some e))
  | .check, .locked c =>
      match (plan i).check c with
      | .ok p => .ok (s.enter i (.checked c p))
      | .error e => .ok (s.answer i (some e))
  | .write, .checked c p =>
      if s.free i then
        match (plan i).write p s.row with
        | .ok r => .ok (s.take i (.written c p r))
        | .error e => .ok (s.answer i (some e))
      else .error ()
  | .commit, .written _ _ r => .ok { s.answer i none with row := r }
  | .abort, .closed => .error ()
  | .abort, _ => .ok (s.close i)
  | _, _ => .error ()

/-- What a move can do. -/
inductive Moved (read : R → C) (plan : ι → Plan R C P ε) (s : Db ι R C P ε) (i : ι) :
    Move → Db ι R C P ε → Prop where
  | load : s.phase i = .idle → (plan i).preloads →
      Moved read plan s i .load (s.enter i (.loaded (read s.row)))
  | lockFresh : s.phase i = .idle → (plan i).locks → s.free i →
      Moved read plan s i .lock (s.take i (.locked (read s.row)))
  | lockLoaded {c} : s.phase i = .loaded c → (plan i).locks → s.free i →
      Moved read plan s i .lock (s.take i (.locked c))
  | checkLoaded {c p} : s.phase i = .loaded c → ¬ (plan i).locks → (plan i).check c = .ok p →
      Moved read plan s i .check (s.enter i (.checked c p))
  | checkLocked {c p} : s.phase i = .locked c → (plan i).check c = .ok p →
      Moved read plan s i .check (s.enter i (.checked c p))
  | refuseLoaded {c e} : s.phase i = .loaded c → ¬ (plan i).locks → (plan i).check c = .error e →
      Moved read plan s i .check (s.answer i (some e))
  | refuseLocked {c e} : s.phase i = .locked c → (plan i).check c = .error e →
      Moved read plan s i .check (s.answer i (some e))
  | write {c p r} : s.phase i = .checked c p → s.free i → (plan i).write p s.row = .ok r →
      Moved read plan s i .write (s.take i (.written c p r))
  | refuseWrite {c p e} : s.phase i = .checked c p → s.free i →
      (plan i).write p s.row = .error e → Moved read plan s i .write (s.answer i (some e))
  | commit {c p r} : s.phase i = .written c p r →
      Moved read plan s i .commit { s.answer i none with row := r }
  | abort : Moved read plan s i .abort (s.close i)

theorem moved_of_step {read : R → C} {plan : ι → Plan R C P ε} {m : ι × Move} {s s' : Db ι R C P ε}
    (h : step read plan m s = .ok s') : Moved read plan s m.1 m.2 s' := by
  obtain ⟨i, k⟩ := m
  unfold step at h
  dsimp only at h ⊢
  split at h
  · split_ifs at h with hload
    cases h
    exact .load ‹_› hload
  · split_ifs at h with hlock
    cases h
    exact .lockFresh ‹_› hlock.1 hlock.2.2
  · split_ifs at h with hlock
    cases h
    exact .lockLoaded ‹_› hlock.1 hlock.2
  · split_ifs at h with hlock
    split at h
    · cases h
      exact .checkLoaded ‹_› hlock ‹_›
    · cases h
      exact .refuseLoaded ‹_› hlock ‹_›
  · split at h
    · cases h
      exact .checkLocked ‹_› ‹_›
    · cases h
      exact .refuseLocked ‹_› ‹_›
  · split_ifs at h with hfree
    split at h
    · cases h
      exact .write ‹_› hfree ‹_›
    · cases h
      exact .refuseWrite ‹_› hfree ‹_›
  · cases h
    exact .commit ‹_›
  · cases h
  · cases h
    exact .abort
  · cases h

variable {read : R → C} {plan : ι → Plan R C P ε} {s s' : Db ι R C P ε} {i j : ι}
  {p : Phase R C P} {k : Move}

@[simp] theorem Db.phase_enter_self : (s.enter i p).phase i = p := Function.update_self ..

theorem Db.phase_enter_of_ne (h : j ≠ i) : (s.enter i p).phase j = s.phase j :=
  Function.update_of_ne h ..

theorem Db.holder_close_of_ne (h : j ≠ i) (hheld : s.holder = some j) :
    (s.close i).holder = some j := by
  simp [Db.close, hheld, h]

theorem Moved.others (h : Moved read plan s i k s') (hj : j ≠ i) : s'.phase j = s.phase j := by
  cases h with
  | load | lockFresh | lockLoaded | checkLoaded | checkLocked | refuseLoaded | refuseLocked | write
  | refuseWrite | commit | abort => exact Function.update_of_ne hj ..

/-- A row changes by the commit of what was written on it. -/
theorem Moved.row (h : Moved read plan s i k s') :
    s'.row = s.row ∨ ∃ c d, s.phase i = .written c d s'.row := by
  cases h with
  | commit hphase => exact .inr ⟨_, _, hphase⟩
  | load | lockFresh | lockLoaded | checkLoaded | checkLocked | refuseLoaded | refuseLocked | write
  | refuseWrite | abort => exact .inl rfl

theorem Moved.written (h : Moved read plan s i k s') {c : C} {d : P} {r : R}
    (hphase : s'.phase i = .written c d r) :
    k = .write ∧ s.phase i = .checked c d ∧ s'.row = s.row ∧ (plan i).write d s.row = .ok r := by
  cases h with
  | write hchecked hfree hwrite =>
      obtain ⟨rfl, rfl, rfl⟩ : _ ∧ _ ∧ _ := by simpa [Db.take] using hphase
      exact ⟨rfl, hchecked, rfl, hwrite⟩
  | load | lockFresh | lockLoaded | checkLoaded | checkLocked | refuseLoaded | refuseLocked
  | refuseWrite | commit | abort => simp [Db.take, Db.answer, Db.close] at hphase

/-- A move gives at most one answer, and that closes the session. -/
theorem Moved.answers (h : Moved read plan s i k s') :
    (s'.answers = s.answers ∧ (s.phase i = .closed → s'.phase i = .closed)) ∨
      ∃ e, s'.answers = s.answers ++ [(i, e)] ∧ s.phase i ≠ .closed ∧ s'.phase i = .closed := by
  cases h with
  | load hphase | lockFresh hphase | lockLoaded hphase | checkLoaded hphase | checkLocked hphase
  | write hphase => exact .inl ⟨rfl, by simp [hphase]⟩
  | refuseLoaded hphase | refuseLocked hphase | refuseWrite hphase | commit hphase =>
      exact .inr ⟨_, rfl, by simp [hphase], Function.update_self ..⟩
  | abort => exact .inl ⟨rfl, fun _ => Function.update_self ..⟩

end Moves

/-! ## What every run keeps -/

/-- A request in this phase holds the lock. -/
def Phase.holds (locks : Bool) : Phase R C P → Prop
  | .locked _ | .written _ _ _ => True
  | .checked _ _ => locks
  | _ => False

/-- The copy a request takes to the lock. -/
def Phase.preloaded : Phase R C P → Option C
  | .loaded c => some c
  | _ => none

theorem Phase.eq_loaded {p : Phase R C P} {c : C} (h : p.preloaded = some c) : p = .loaded c := by
  cases p with
  | loaded d => exact congrArg Phase.loaded (Option.some.inj h)
  | idle | locked | checked | written | closed => cases h

/-- The copy a request that has gone past its lock works on. -/
def Phase.copy : Phase R C P → Option C
  | .locked c | .checked c _ | .written c _ _ => some c
  | _ => none

section Invariant

variable (read : R → C) (plan : ι → Plan R C P ε) (trusted : ι → Prop)

/-- What holds of a request in a phase: it holds the lock where it should, it carries what it
decided and wrote, and if it is trusted then its copy is the row as it stands. -/
structure Sits (row : R) (holder : Option ι) (i : ι) (p : Phase R C P) : Prop where
  held : p.holds (plan i).locks → holder = some i
  preloads : ∀ c, p = .loaded c → (plan i).preloads
  checked : ∀ c d, p = .checked c d → (plan i).check c = .ok d
  written : ∀ c d r, p = .written c d r →
    (plan i).check c = .ok d ∧ (plan i).write d row = .ok r
  fresh : trusted i → ∀ c, p.copy = some c → c = read row

def Sound (s : Db ι R C P ε) : Prop :=
  ∀ i, Sits read plan trusted s.row s.holder i (s.phase i)

variable {read plan trusted} {s s' : Db ι R C P ε} {row row' : R} {holder holder' : Option ι}
  {i j : ι} {p : Phase R C P} {k : Move}

theorem sound_start (r : R) : Sound read plan trusted ({ row := r } : Db ι R C P ε) := fun _ =>
  { held := fun h => h.elim
    preloads := by rintro c ⟨⟩
    checked := by rintro c d ⟨⟩
    written := by rintro c d r ⟨⟩
    fresh := by rintro - c ⟨⟩ }

theorem sits_closed : Sits read plan trusted row holder i .closed where
  held h := h.elim
  preloads := by rintro c ⟨⟩
  checked := by rintro c d ⟨⟩
  written := by rintro c d r ⟨⟩
  fresh := by rintro - c ⟨⟩

theorem sits_locked {c : C} (hfresh : trusted i → c = read row) :
    Sits read plan trusted row (some i) i (.locked c) where
  held _ := rfl
  preloads := by rintro c ⟨⟩
  checked := by rintro c d ⟨⟩
  written := by rintro c d r ⟨⟩
  fresh := by
    rintro ht c ⟨⟩
    exact hfresh ht

theorem sits_checked {c : C} {d : P} (hcheck : (plan i).check c = .ok d)
    (hheld : (plan i).locks → holder = some i) (hfresh : trusted i → c = read row) :
    Sits read plan trusted row holder i (.checked c d) where
  held := hheld
  preloads := by rintro c ⟨⟩
  checked := by
    rintro c d ⟨⟩
    exact hcheck
  written := by rintro c d r ⟨⟩
  fresh := by
    rintro ht c ⟨⟩
    exact hfresh ht

/-- A request keeps its place when the lock moves between others. -/
theorem Sits.of_holder (h : Sits read plan trusted row holder i p)
    (hkeep : holder = some i → holder' = some i) :
    Sits read plan trusted row holder' i p :=
  { h with held := fun hp => hkeep (h.held hp) }

/-- A request without the lock keeps its place when the row changes. -/
theorem Sits.of_row (h : Sits read plan trusted row holder i p)
    (htrusted : trusted i → (plan i).locks) (hother : holder ≠ some i) :
    Sits read plan trusted row' holder' i p where
  held hp := absurd (h.held hp) hother
  preloads := h.preloads
  checked := h.checked
  written := by
    rintro c d r rfl
    exact absurd (h.held trivial) hother
  fresh ht c hc := by
    refine absurd (h.held ?_) hother
    cases p with
    | locked c => trivial
    | checked c d => exact htrusted ht
    | written c d r => trivial
    | idle => cases hc
    | loaded c => cases hc
    | closed => cases hc

/-- Two requests never have something written at once. -/
theorem Sound.eq_of_written (h : Sound read plan trusted s) {c c' : C} {d d' : P} {r r' : R}
    (hi : s.phase i = .written c d r) (hj : s.phase j = .written c' d' r') : i = j := by
  have hsi := h i
  have hsj := h j
  rw [hi] at hsi
  rw [hj] at hsj
  exact Option.some.inj ((hsi.held trivial).symm.trans (hsj.held trivial))

variable [DecidableEq ι]

/-- A move of `i` that leaves the row keeps the others where they are. -/
theorem Sound.enter (h : Sound read plan trusted s)
    (hothers : ∀ j, j ≠ i → s.holder = some j → holder' = some j)
    (hi : Sits read plan trusted s.row holder' i p) (answers : List (ι × Option ε)) :
    Sound read plan trusted { s.enter i p with holder := holder', answers := answers } := by
  intro j
  by_cases hj : j = i
  · subst hj
    show Sits read plan trusted s.row holder' j ((s.enter j p).phase j)
    rw [Db.phase_enter_self]
    exact hi
  · have hphase : (s.enter i p).phase j = s.phase j := Db.phase_enter_of_ne hj
    show Sits read plan trusted s.row holder' j ((s.enter i p).phase j)
    rw [hphase]
    exact (h j).of_holder (hothers j hj)

theorem Sound.close (h : Sound read plan trusted s) (answers : List (ι × Option ε)) :
    Sound read plan trusted { s.close i with answers := answers } := by
  exact h.enter (fun j hj hheld => Db.holder_close_of_ne hj hheld) sits_closed answers

/-- A request that finds the lock free takes it from nobody. -/
theorem Sound.take (h : Sound read plan trusted s) (hfree : s.free i)
    (hi : Sits read plan trusted s.row (some i) i p) :
    Sound read plan trusted (s.take i p) := by
  refine h.enter (fun j hj hheld => ?_) hi s.answers
  rcases hfree with hnone | hself
  · rw [hnone] at hheld
    cases hheld
  · exact hself.symm.trans hheld

/-- A commit changes the row while nobody else holds the lock. -/
theorem Sound.commit (h : Sound read plan trusted s) (htrusted : ∀ i, trusted i → (plan i).locks)
    (hheld : s.holder = some i) (r : R) :
    Sound read plan trusted { s.answer i none with row := r } := by
  intro j
  by_cases hj : j = i
  · subst hj
    show Sits read plan trusted r _ j ((s.enter j .closed).phase j)
    rw [Db.phase_enter_self]
    exact sits_closed
  · have hother : s.holder ≠ some j := by
      rw [hheld]
      simpa using Ne.symm hj
    show Sits read plan trusted r _ j ((s.enter i .closed).phase j)
    rw [Db.phase_enter_of_ne hj]
    exact (h j).of_row (htrusted j) hother

/-- Every move keeps the sessions sound, provided the copy a trusted request takes to the lock is
still the row. -/
theorem Sound.moved (h : Sound read plan trusted s) (htrusted : ∀ i, trusted i → (plan i).locks)
    (hlock : k = .lock → trusted i → ∀ c, s.phase i = .loaded c → c = read s.row)
    (hmove : Moved read plan s i k s') : Sound read plan trusted s' := by
  cases hmove with
  | load hphase hpre =>
      refine h.enter (fun j _ hheld => hheld) ?_ s.answers
      exact
        { held := fun hp => hp.elim
          preloads := fun _ _ => hpre
          checked := by rintro c d ⟨⟩
          written := by rintro c d r ⟨⟩
          fresh := by rintro - c ⟨⟩ }
  | lockFresh hphase hlocks hfree => exact h.take hfree (sits_locked fun _ => rfl)
  | lockLoaded hphase hlocks hfree =>
      exact h.take hfree (sits_locked fun ht => hlock rfl ht _ hphase)
  | checkLoaded hphase hlocks hcheck =>
      refine h.enter (fun j _ hheld => hheld) ?_ s.answers
      exact sits_checked hcheck (fun hl => absurd hl hlocks) fun ht => absurd (htrusted i ht) hlocks
  | checkLocked hphase hcheck =>
      have hi := h i
      rw [hphase] at hi
      refine h.enter (fun j _ hheld => hheld) ?_ s.answers
      exact sits_checked hcheck (fun _ => hi.held trivial) fun ht => hi.fresh ht _ rfl
  | refuseLoaded => exact h.close _
  | refuseLocked => exact h.close _
  | write hphase hfree hwrite =>
      have hi := h i
      rw [hphase] at hi
      exact h.take hfree
        { held := fun _ => rfl
          preloads := by rintro c ⟨⟩
          checked := by rintro c d ⟨⟩
          written := by
            rintro c d r ⟨⟩
            exact ⟨hi.checked _ _ rfl, hwrite⟩
          fresh := by
            rintro ht c ⟨⟩
            exact hi.fresh ht _ rfl }
  | refuseWrite => exact h.close _
  | commit hphase =>
      have hi := h i
      rw [hphase] at hi
      exact h.commit htrusted (hi.held trivial) _
  | abort => exact h.close s.answers

end Invariant

/-! ## Serial runs -/

/-- The requests that committed, in the order of their commits. -/
def committed (answers : List (ι × Option ε)) : List ι :=
  answers.filterMap fun a => if a.2.isNone then some a.1 else none

@[simp] theorem committed_commit (answers : List (ι × Option ε)) (i : ι) :
    committed (answers ++ [(i, none)]) = committed answers ++ [i] := by
  simp [committed]

@[simp] theorem committed_refuse (answers : List (ι × Option ε)) (i : ι) (e : ε) :
    committed (answers ++ [(i, some e)]) = committed answers := by
  simp [committed]

/-- A request run alone: it decides on the row as it stands and writes on it. -/
def serial (read : R → C) (plan : ι → Plan R C P ε) (i : ι) (r : R) : Except ε R := do
  let d ← (plan i).check (read r)
  (plan i).write d r

/-- The answers and the row of requests run one after another. -/
inductive Replays (read : R → C) (plan : ι → Plan R C P ε) (r₀ : R) :
    List (ι × Option ε) → R → Prop where
  | nil : Replays read plan r₀ [] r₀
  | commit {answers r r' i} : Replays read plan r₀ answers r → serial read plan i r = .ok r' →
      Replays read plan r₀ (answers ++ [(i, none)]) r'
  | refuse {answers r i e} : Replays read plan r₀ answers r → serial read plan i r = .error e →
      Replays read plan r₀ (answers ++ [(i, some e)]) r

/-! ## Runs -/

section Runs

variable [DecidableEq ι] (read : R → C) (plan : ι → Plan R C P ε) (trusted : ι → Prop)

/-- A trusted request that loaded the row before it locks it finds the row unchanged. -/
def UpToDate (s : Db ι R C P ε) (m : ι × Move) : Prop :=
  m.2 = .lock → trusted m.1 → ∀ c ∈ (s.phase m.1).preloaded, c = read s.row

instance [DecidableEq C] [DecidablePred trusted] (s : Db ι R C P ε) (m : ι × Move) :
    Decidable (UpToDate read trusted s m) :=
  inferInstanceAs (Decidable (m.2 = .lock → trusted m.1 → ∀ c ∈ (s.phase m.1).preloaded,
    c = read s.row))

variable {read plan trusted} {s s' : Db ι R C P ε} {m : ι × Move} {r₀ : R}

theorem Sound.next (h : Sound read plan trusted s) (htrusted : ∀ i, trusted i → (plan i).locks)
    (hdate : UpToDate read trusted s m) (hstep : step read plan m s = .ok s') :
    Sound read plan trusted s' := by
  refine h.moved htrusted (fun hk ht c hc => hdate hk ht c ?_) (moved_of_step hstep)
  rw [hc]
  rfl

/-- What is related to the row by every write is related to it by every run: the rule for what a
committed row keeps. -/
theorem related_run (trusted : ι → Prop) {K : R → R → Prop} (hrefl : ∀ r, K r r)
    (htrans : ∀ r₁ r₂ r₃, K r₁ r₂ → K r₂ r₃ → K r₁ r₃) {Q : Db ι R C P ε → ι × Move → Prop}
    (htrusted : ∀ i, trusted i → (plan i).locks)
    (hdate : ∀ s m, Sound read plan trusted s → Q s m → UpToDate read trusted s m)
    (hwrite : ∀ s i c d r, Sound read plan trusted s → Q s (i, .write) →
      s.phase i = .checked c d → (plan i).write d s.row = .ok r → K s.row r)
    {moves more : List (ι × Move)}
    (h : Conforms (step read plan) Q { row := r₀ } (moves ++ more)) :
    K (run (step read plan) { row := r₀ } moves).row
      (run (step read plan) { row := r₀ } (moves ++ more)).row := by
  -- besides `Sound`: what a request has written but not committed is related to the row
  let J : Db ι R C P ε → Prop := fun s =>
    Sound read plan trusted s ∧ ∀ i c d r, s.phase i = .written c d r → K s.row r
  have hstep : ∀ s m s', Q s m → J s → step read plan m s = .ok s' → J s' ∧ K s.row s'.row := by
    rintro s ⟨i, k⟩ s' hQ ⟨hsound, hpending⟩ hok
    have hmove := moved_of_step hok
    refine ⟨⟨hsound.next htrusted (hdate s _ hsound hQ) hok, fun j c d r hj => ?_⟩, ?_⟩
    · by_cases hji : j = i
      · subst hji
        obtain ⟨rfl, hphase, hrow, hr⟩ := hmove.written hj
        rw [hrow]
        exact hwrite s j c d r hsound hQ hphase hr
      · rw [hmove.others hji] at hj
        rcases hmove.row with hrow | ⟨c', d', hi⟩
        · rw [hrow]
          exact hpending j c d r hj
        · exact absurd (hsound.eq_of_written hj hi) hji
    · rcases hmove.row with hrow | ⟨c, d, hi⟩
      · rw [hrow]
        exact hrefl _
      · exact hpending i c d _ hi
  have hkeep : ∀ (more : List (ι × Move)) (s : Db ι R C P ε), J s →
      Conforms (step read plan) Q s more → K s.row (run (step read plan) s more).row := by
    intro more
    induction more with
    | nil => exact fun s _ _ => hrefl _
    | cons m more ih =>
        rintro s hs ⟨hm, hmore⟩
        rw [run_cons]
        have hnext : J (commit (step read plan) s m) ∧
            K s.row (commit (step read plan) s m).row := by
          unfold commit at hmore ⊢
          cases hok : step read plan m s with
          | ok s' => exact hstep s m s' hm hs hok
          | error e => exact ⟨hs, hrefl _⟩
        exact htrans _ _ _ hnext.2 (ih _ hnext.1 hmore)
  obtain ⟨hmoves, hmore⟩ := conforms_append.1 h
  have hstart : J ({ row := r₀ } : Db ι R C P ε) := ⟨sound_start r₀, by rintro i c d r ⟨⟩⟩
  have hreached := run_invariant (fun s m s' hQ hs hok => (hstep s m s' hQ hs hok).1) moves _ hstart
    hmoves
  rw [run_append]
  exact hkeep more _ hreached hmore

/-- When every request locks and no copy is out of date at its lock, the requests might as well
have run one after another, in the order they were answered. -/
theorem replays_run (plan : ι → Plan R C P ε) (hlocks : ∀ i, (plan i).locks)
    {moves : List (ι × Move)}
    (h : Conforms (step read plan) (UpToDate read fun _ => True) { row := r₀ } moves) :
    Replays read plan r₀ (run (step read plan) { row := r₀ } moves).answers
      (run (step read plan) { row := r₀ } moves).row := by
  have hstep : ∀ s m s', UpToDate read (fun _ => True) s m →
      (Sound read plan (fun _ => True) s ∧ Replays read plan r₀ s.answers s.row) →
      step read plan m s = .ok s' →
      Sound read plan (fun _ => True) s' ∧ Replays read plan r₀ s'.answers s'.row := by
    rintro s ⟨i, k⟩ s' hdate ⟨hsound, hreplays⟩ hok
    refine ⟨hsound.next (fun j _ => hlocks j) hdate hok, ?_⟩
    have hi := hsound i
    cases moved_of_step hok with
    | load | lockFresh | lockLoaded | checkLoaded | checkLocked | write | abort => exact hreplays
    | refuseLoaded hphase hfree => exact absurd (hlocks i) hfree
    | refuseLocked hphase hcheck =>
        rw [hphase] at hi
        rw [hi.fresh trivial _ rfl] at hcheck
        exact hreplays.refuse (by simp only [serial, hcheck, error_bind])
    | refuseWrite hphase hfree hwrite =>
        rw [hphase] at hi
        have hcheck := hi.checked _ _ rfl
        rw [hi.fresh trivial _ rfl] at hcheck
        exact hreplays.refuse (by simp only [serial, hcheck, ok_bind, hwrite])
    | commit hphase =>
        rw [hphase] at hi
        obtain ⟨hcheck, hwrite⟩ := hi.written _ _ _ rfl
        rw [hi.fresh trivial _ rfl] at hcheck
        exact hreplays.commit (by simp only [serial, hcheck, ok_bind, hwrite])
  exact (run_invariant hstep moves _ ⟨sound_start r₀, .nil⟩ h).2

/-- A request is answered once. -/
theorem answers_nodup (r₀ : R) (moves : List (ι × Move)) :
    ((run (step read plan) { row := r₀ } moves).answers.map (·.1)).Nodup := by
  have hstep : ∀ (s : Db ι R C P ε) m s', True →
      ((s.answers.map (·.1)).Nodup ∧ ∀ j ∈ s.answers.map (·.1), s.phase j = .closed) →
      step read plan m s = .ok s' →
      (s'.answers.map (·.1)).Nodup ∧ ∀ j ∈ s'.answers.map (·.1), s'.phase j = .closed := by
    rintro s ⟨i, k⟩ s' - ⟨hnodup, hclosed⟩ hok
    have hmove := moved_of_step hok
    rcases hmove.answers with ⟨hsame, hopen⟩ | ⟨e, hsnoc, hopen, hend⟩
    · rw [hsame]
      refine ⟨hnodup, fun j hj => ?_⟩
      by_cases hji : j = i
      · subst hji
        exact hopen (hclosed j hj)
      · rw [hmove.others hji]
        exact hclosed j hj
    · have hnew : i ∉ s.answers.map (·.1) := fun hmem => hopen (hclosed i hmem)
      rw [hsnoc, List.map_append, List.map_singleton]
      refine ⟨List.nodup_append.2 ⟨hnodup, by simp, ?_⟩, fun j hj => ?_⟩
      · rintro a ha b hb rfl
        rw [List.mem_singleton.1 hb] at ha
        exact hnew ha
      · by_cases hji : j = i
        · rw [hji]
          exact hend
        · rw [hmove.others hji]
          exact hclosed j (by simpa [hji] using hj)
  exact (run_invariant hstep moves _ ⟨by simp, by simp⟩ (conforms_true _ _)).1

end Runs

end Lib.Session
