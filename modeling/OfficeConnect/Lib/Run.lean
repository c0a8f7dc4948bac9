import OfficeConnect.Lib.Returns

/-!
# Runs of a machine whose steps may raise

A machine is a step function `step : κ → σ → Except ε σ` on calls `κ`.  A call that returns commits
its state and a call that raises is rolled back whole, so every list of calls is a run.  `Conforms`
says that each call of a run meets a condition in the state it is made in, and `OnReturn` asks the
condition only of calls that return; `run_invariant` is the induction rule for what holds in every
state such a run reaches.
-/

namespace Lib

variable {σ κ ε : Type*} (step : κ → σ → Except ε σ)

/-- The state after one call: the new state if it returns, the old one if it raises. -/
def commit (s : σ) (c : κ) : σ :=
  match step c s with
  | .ok s' => s'
  | .error _ => s

/-- The state after a list of calls. -/
def run (s : σ) (cs : List κ) : σ := cs.foldl (commit step) s

/-- Every call of the run meets `P` in the state it is made in. -/
def Conforms (P : σ → κ → Prop) : σ → List κ → Prop
  | _, [] => True
  | s, c :: cs => P s c ∧ Conforms P (commit step s c) cs

instance Conforms.decidable (P : σ → κ → Prop) [∀ s c, Decidable (P s c)] :
    ∀ (s : σ) (cs : List κ), Decidable (Conforms step P s cs)
  | _, [] => isTrue trivial
  | s, c :: cs =>
      have := Conforms.decidable P (commit step s c) cs
      inferInstanceAs (Decidable (P s c ∧ Conforms step P (commit step s c) cs))

/-- The call meets `P`, if it returns. -/
def OnReturn (P : σ → κ → Prop) (s : σ) (c : κ) : Prop := Returns (step c s) → P s c

variable {step}

theorem OnReturn.of_ok {P : σ → κ → Prop} {s s' : σ} {c : κ} (h : OnReturn step P s c)
    (hok : step c s = .ok s') : P s c :=
  h ⟨s', hok⟩

theorem commit_of_ok {s s' : σ} {c : κ} (h : step c s = .ok s') : commit step s c = s' := by
  simp [commit, h]

@[simp] theorem run_nil (s : σ) : run step s [] = s := rfl

@[simp] theorem run_cons (s : σ) (c : κ) (cs : List κ) :
    run step s (c :: cs) = run step (commit step s c) cs := rfl

theorem run_append (s : σ) (cs ds : List κ) : run step s (cs ++ ds) = run step (run step s cs) ds :=
  List.foldl_append ..

theorem conforms_append {P : σ → κ → Prop} {s : σ} {cs ds : List κ} :
    Conforms step P s (cs ++ ds) ↔ Conforms step P s cs ∧ Conforms step P (run step s cs) ds := by
  induction cs generalizing s with
  | nil => simp [Conforms]
  | cons c cs ih =>
      simp only [List.cons_append, Conforms, ih, run_cons]
      exact and_assoc.symm

/-- A run conforms when each of its calls meets the condition in the state it finds. -/
theorem conforms_iff_forall_split {P : σ → κ → Prop} {s : σ} {cs : List κ} :
    Conforms step P s cs ↔ ∀ done c rest, cs = done ++ c :: rest → P (run step s done) c := by
  constructor
  · rintro h done c rest rfl
    exact (conforms_append.1 h).2.1
  · intro h
    induction cs generalizing s with
    | nil => trivial
    | cons c cs ih =>
        refine ⟨h [] c cs rfl, ih fun done d rest hsplit => ?_⟩
        rw [hsplit] at h
        exact h (c :: done) d rest rfl

/-- A property kept by every returning call is kept by every call. -/
theorem commit_keeps {I : σ → Prop} {s : σ} {c : κ} (hs : I s)
    (hstep : ∀ s', step c s = .ok s' → I s') : I (commit step s c) := by
  unfold commit
  cases h : step c s with
  | ok s' => exact hstep s' h
  | error e => exact hs

/-- The invariant rule: what holds at the start and is kept by every returning call that meets `P`
holds after every run that conforms to `P`. -/
theorem run_invariant {P : σ → κ → Prop} {I : σ → Prop}
    (hstep : ∀ s c s', P s c → I s → step c s = .ok s' → I s') :
    ∀ (cs : List κ) (s : σ), I s → Conforms step P s cs → I (run step s cs)
  | [], _, hs, _ => hs
  | c :: cs, _, hs, ⟨hc, hcs⟩ =>
      run_invariant hstep cs _ (commit_keeps hs fun s' => hstep _ c s' hc hs) hcs

/-- The invariant rule along a run: the step may use what is known of every state a run from the
start reaches. -/
theorem reachable_invariant {P : σ → κ → Prop} {I : σ → Prop} {s₀ : σ}
    (hstep : ∀ (done : List κ) (c : κ) (s' : σ), P (run step s₀ done) c → I (run step s₀ done) →
      step c (run step s₀ done) = .ok s' → I s')
    (hstart : I s₀) (cs : List κ) (hcs : Conforms step P s₀ cs) : I (run step s₀ cs) := by
  have hrest : ∀ (rest done : List κ), I (run step s₀ done) →
      Conforms step P (run step s₀ done) rest → I (run step s₀ (done ++ rest)) := by
    intro rest
    induction rest with
    | nil =>
        intro done hdone _
        simpa using hdone
    | cons c rest ih =>
        rintro done hdone ⟨hc, hrest⟩
        have hnext : run step s₀ (done ++ [c]) = commit step (run step s₀ done) c := by
          rw [run_append, run_cons, run_nil]
        have hkept : I (run step s₀ (done ++ [c])) := by
          rw [hnext]
          exact commit_keeps hdone fun s' => hstep done c s' hc hdone
        have := ih (done ++ [c]) hkept (hnext ▸ hrest)
        simpa using this
  simpa using hrest cs [] hstart hcs

/-- A condition on calls alone that every call of the list meets. -/
theorem conforms_of_forall {P : κ → Prop} {cs : List κ} (h : ∀ c ∈ cs, P c) (s : σ) :
    Conforms step (fun _ c => P c) s cs := by
  induction cs generalizing s with
  | nil => trivial
  | cons c cs ih => exact ⟨h c (by simp), ih (fun d hd => h d (by simp [hd])) _⟩

theorem Conforms.mono {P Q : σ → κ → Prop} (h : ∀ s c, P s c → Q s c) :
    ∀ {cs : List κ} {s : σ}, Conforms step P s cs → Conforms step Q s cs
  | [], _, _ => trivial
  | _ :: _, _, ⟨hc, hcs⟩ => ⟨h _ _ hc, hcs.mono h⟩

theorem Conforms.onReturn {P : σ → κ → Prop} {cs : List κ} {s : σ} (h : Conforms step P s cs) :
    Conforms step (OnReturn step P) s cs :=
  h.mono (Q := OnReturn step P) fun _ _ hc _ => hc

theorem Conforms.and {P Q : σ → κ → Prop} :
    ∀ {cs : List κ} {s : σ}, Conforms step P s cs → Conforms step Q s cs →
      Conforms step (fun s c => P s c ∧ Q s c) s cs
  | [], _, _, _ => trivial
  | _ :: _, _, ⟨hp, hps⟩, ⟨hq, hqs⟩ => ⟨⟨hp, hq⟩, hps.and hqs⟩

theorem conforms_true (s : σ) (cs : List κ) : Conforms step (fun _ _ => True) s cs := by
  induction cs generalizing s with
  | nil => trivial
  | cons c cs ih => exact ⟨trivial, ih _⟩

end Lib
