import OfficeConnect.Lib.Run

/-!
# Calls that interleave on one store

A call is a sequence of atomic commands on a shared store; between any two of them other calls and
the environment may move.  A discipline says what is true of the store, how it may change, and what
a command needs; a call that follows it from every store it may find keeps it in every interleaving.
-/

namespace Lib.Threads

universe u

/-! ## Programs -/

/-- A program: it returns, raises, or issues a command and goes on with its reply. -/
inductive Prog (C : Type → Type u) (ε α : Type) : Type (max 1 u)
  | ret (a : α) : Prog C ε α
  | raise (e : ε) : Prog C ε α
  | call {β : Type} (c : C β) (k : β → Prog C ε α) : Prog C ε α

section

variable {C : Type → Type u} {ε α β γ : Type}

def Prog.bind : Prog C ε α → (α → Prog C ε β) → Prog C ε β
  | .ret a, f => f a
  | .raise e, _ => .raise e
  | .call c k, f => .call c fun b => (k b).bind f

instance : Monad (Prog C ε) where
  pure := .ret
  bind := Prog.bind

/-- Issue one command. -/
def perform (c : C β) : Prog C ε β := .call c .ret

/-- What holds of the next command, if there is one. -/
def Prog.Next (P : {β : Type} → C β → Prop) : Prog C ε α → Prop
  | .call c _ => P c
  | _ => True

/-- There is a next command, and this holds of it. -/
def Prog.Issues (P : {β : Type} → C β → Prop) : Prog C ε α → Prop
  | .call c _ => P c
  | _ => False

/-- `P` holds of every command the program may issue, and `Q` of what it may return. -/
def Prog.All (P : {β : Type} → C β → Prop) (Q : α → Prop) : Prog C ε α → Prop
  | .ret a => Q a
  | .raise _ => True
  | .call c k => P c ∧ ∀ x, (k x).All P Q

theorem Prog.All.bind {P : {β : Type} → C β → Prop} {Q : α → Prop} {R : β → Prop}
    {f : α → Prog C ε β} {p : Prog C ε α} (h : p.All P Q) (hf : ∀ a, Q a → (f a).All P R) :
    (p >>= f).All P R := by
  induction p with
  | ret a => exact hf a h
  | raise e => trivial
  | call c k ih => exact ⟨h.1, fun x => ih x (h.2 x)⟩

/-- The program with its commands embedded in a larger set. -/
def Prog.lift {C' : Type → Type*} (f : {β : Type} → C β → C' β) : Prog C ε α → Prog C' ε α
  | .ret a => .ret a
  | .raise e => .raise e
  | .call c k => .call (f c) fun x => (k x).lift f

theorem Prog.lift_bind {C' : Type → Type*} (f : {β : Type} → C β → C' β) (p : Prog C ε α)
    (g : α → Prog C ε β) : (p.bind g).lift f = (p.lift f).bind fun a => (g a).lift f := by
  induction p with
  | ret a => rfl
  | raise e => rfl
  | call c k ih => exact congrArg (Prog.call (f c)) (funext ih)

theorem Prog.All.lift {C' : Type → Type*} {f : {β : Type} → C β → C' β}
    {P : {β : Type} → C' β → Prop} {Q : α → Prop} {p : Prog C ε α}
    (h : p.All (fun c => P (f c)) Q) : (p.lift f).All P Q := by
  induction p with
  | ret a => exact h
  | raise e => trivial
  | call c k ih => exact ⟨h.1, fun x => ih x (h.2 x)⟩

/-- The program with nothing else moving. -/
def Prog.alone {σ : Type} (exec : {β : Type} → C β → σ → β × σ) :
    Prog C ε α → σ → Except ε α × σ
  | .ret a, s => (.ok a, s)
  | .raise e, s => (.error e, s)
  | .call c k, s => (k (exec c s).1).alone exec (exec c s).2

/-- The commands of the program, with nothing else moving, as something labels them. -/
def Prog.trace {σ L : Type} (exec : {β : Type} → C β → σ → β × σ) (label : {β : Type} → C β → L) :
    Prog C ε α → σ → List L
  | .ret _, _ => []
  | .raise _, _ => []
  | .call c k, s => label c :: (k (exec c s).1).trace exec label (exec c s).2

@[simp] theorem pure_eq (a : α) : (pure a : Prog C ε α) = .ret a := rfl

@[simp] theorem ret_bind (a : α) (f : α → Prog C ε β) : (Prog.ret a >>= f) = f a := rfl

@[simp] theorem raise_bind (e : ε) (f : α → Prog C ε β) : (Prog.raise e >>= f) = .raise e := rfl

@[simp] theorem call_bind (c : C γ) (k : γ → Prog C ε α) (f : α → Prog C ε β) :
    (Prog.call c k >>= f) = .call c fun b => k b >>= f := rfl

theorem bind_assoc (p : Prog C ε α) (f : α → Prog C ε β) (g : β → Prog C ε γ) :
    (p >>= f) >>= g = p >>= fun a => f a >>= g := by
  induction p with
  | ret a => rfl
  | raise e => rfl
  | call c k ih => exact congrArg (Prog.call c) (funext ih)

@[simp] theorem perform_bind (c : C γ) (f : γ → Prog C ε β) :
    (perform c >>= f) = .call c f := rfl

end

/-! ## Alone -/

section

variable {C : Type → Type u} {ε α β σ L : Type} {exec : {β : Type} → C β → σ → β × σ}
  {label : {β : Type} → C β → L} {P : {β : Type} → C β → Prop} {Q : α → Prop} {p : Prog C ε α}
  {s s' : σ}

theorem Prog.all_of_forall (hP : ∀ {β : Type} (c : C β), P c) (hQ : ∀ a, Q a) (p : Prog C ε α) :
    p.All P Q := by
  induction p with
  | ret a => exact hQ a
  | raise e => trivial
  | call c k ih => exact ⟨hP c, ih⟩

/-- What every command keeps holds at the end. -/
theorem Prog.All.alone (exec : {β : Type} → C β → σ → β × σ) {I : σ → Prop} (h : p.All P Q)
    (hkeeps : ∀ {β : Type} (c : C β) (s : σ), P c → I s → I (exec c s).2) (hs : I s) :
    I (p.alone exec s).2 := by
  induction p generalizing s with
  | ret a => exact hs
  | raise e => exact hs
  | call c k ih => exact ih _ (h.2 _) (hkeeps c s h.1 hs)

theorem Prog.All.returns (h : p.All P Q) {a : α} (hret : (p.alone exec s).1 = .ok a) : Q a := by
  induction p generalizing s with
  | ret b => exact Except.ok.inj hret ▸ h
  | raise e => cases hret
  | call c k ih => exact ih _ (h.2 _) hret

/-- A program whose commands cannot tell two stores apart. -/
theorem Prog.All.alike (exec : {β : Type} → C β → σ → β × σ) (label : {β : Type} → C β → L)
    {R : σ → σ → Prop} (h : p.All P Q)
    (hblind : ∀ {β : Type} (c : C β) (s s' : σ), P c → R s s' →
      (exec c s).1 = (exec c s').1 ∧ R (exec c s).2 (exec c s').2) (hs : R s s') :
    (p.alone exec s).1 = (p.alone exec s').1 ∧ R (p.alone exec s).2 (p.alone exec s').2 ∧
      p.trace exec label s = p.trace exec label s' := by
  induction p generalizing s s' with
  | ret a => exact ⟨rfl, hs, rfl⟩
  | raise e => exact ⟨rfl, hs, rfl⟩
  | call c k ih =>
      obtain ⟨hreply, hnext⟩ := hblind c s s' h.1 hs
      obtain ⟨hanswer, hend, htrace⟩ := ih (exec c s).1 (h.2 _) hnext
      simp only [Prog.alone, Prog.trace, ← hreply]
      exact ⟨hanswer, hend, congrArg _ htrace⟩

theorem Prog.alone_bind (exec : {β : Type} → C β → σ → β × σ) (label : {β : Type} → C β → L) {a : α}
    (f : α → Prog C ε β) (h : p.alone exec s = (.ok a, s')) :
    (p >>= f).alone exec s = (f a).alone exec s' ∧
      (p >>= f).trace exec label s = p.trace exec label s ++ (f a).trace exec label s' := by
  induction p generalizing s with
  | ret b =>
      obtain ⟨hb, rfl⟩ := Prod.mk.inj h
      obtain rfl := Except.ok.inj hb
      exact ⟨rfl, rfl⟩
  | raise e => cases (Prod.mk.inj h).1
  | call c k ih =>
      obtain ⟨halone, htrace⟩ := ih _ h
      exact ⟨halone, congrArg (label c :: ·) htrace⟩

theorem Prog.alone_map (exec : {β : Type} → C β → σ → β × σ) (label : {β : Type} → C β → L)
    (f : α → β) (p : Prog C ε α) (s : σ) :
    (p >>= fun a => .ret (f a)).alone exec s = ((p.alone exec s).1.map f, (p.alone exec s).2) ∧
      (p >>= fun a => .ret (f a)).trace exec label s = p.trace exec label s := by
  induction p generalizing s with
  | ret a => exact ⟨rfl, rfl⟩
  | raise e => exact ⟨rfl, rfl⟩
  | call c k ih =>
      obtain ⟨halone, htrace⟩ := ih _ (exec c s).2
      exact ⟨halone, congrArg (label c :: ·) htrace⟩

end

/-! ## The system -/

/-- What a command does, the program of each call, and what the environment does. -/
structure Service (C : Type → Type u) (ε ρ σ κ E : Type) : Type (max 1 u) where
  exec : {β : Type} → C β → σ → β × σ
  prog : κ → Prog C ε ρ
  env : E → σ → σ

/-- The store and the calls made so far, each with what is left of it. -/
structure System (C : Type → Type u) (ε ρ σ κ : Type) : Type (max 1 u) where
  store : σ
  threads : List (κ × Prog C ε ρ) := []

inductive Move (κ E : Type) where
  | start (call : κ)
  | act (thread : ℕ)
  | environment (e : E)

variable {C : Type → Type u} {ε ρ σ κ E : Type}

/-- A move; a call that has nothing left to do refuses it. -/
def Service.step (S : Service C ε ρ σ κ E) (m : Move κ E) (s : System C ε ρ σ κ) :
    Except Unit (System C ε ρ σ κ) :=
  match m with
  | .start call => .ok { s with threads := s.threads ++ [(call, S.prog call)] }
  | .act i =>
      match s.threads[i]? with
      | some (call, .call c k) =>
          let result := S.exec c s.store
          .ok { store := result.2, threads := s.threads.set i (call, k result.1) }
      | _ => .error ()
  | .environment e => .ok { s with store := S.env e s.store }

theorem Service.step_act_eq_ok {S : Service C ε ρ σ κ E} {i : ℕ} {s s' : System C ε ρ σ κ} :
    S.step (.act i) s = .ok s' ↔ ∃ (call : κ) (β : Type) (c : C β) (k : β → Prog C ε ρ),
      s.threads[i]? = some (call, .call c k) ∧
        s' = { store := (S.exec c s.store).2
               threads := s.threads.set i (call, k (S.exec c s.store).1) } := by
  simp only [Service.step]
  constructor
  · intro h
    split at h
    · rename_i call β c k hthread
      exact ⟨call, β, c, k, hthread, (Except.ok.inj h).symm⟩
    · cases h
  · rintro ⟨call, β, c, k, hthread, rfl⟩
    rw [hthread]

/-! ## Disciplines -/

/-- What holds of the store, how it changes from any moment to a later one, what the calls see to
before each command, what the run allows beside that, and which errors are expected. -/
structure Discipline (S : Service C ε ρ σ κ E) where
  inv : σ → Prop
  rel : σ → σ → Prop
  proper : {β : Type} → C β → σ → Prop
  allowed : {β : Type} → C β → σ → Prop
  calm : E → σ → Prop
  expected : ε → Prop
  refl : ∀ s, rel s s
  trans : ∀ {s₁ s₂ s₃}, rel s₁ s₂ → rel s₂ s₃ → rel s₁ s₃
  keeps : ∀ {β : Type} (c : C β) (s : σ), inv s → proper c s → allowed c s →
    inv (S.exec c s).2 ∧ rel s (S.exec c s).2
  endures : ∀ (e : E) (s : σ), inv s → calm e s → inv (S.env e s) ∧ rel s (S.env e s)

namespace Discipline

variable {S : Service C ε ρ σ κ E} (D : Discipline S) {α β : Type}

/-- From this store on, whatever the others do, each command of the program is proper, the errors
are expected, and `post` holds at the end. -/
def Ok (post : α → σ → Prop) : Prog C ε α → σ → Prop
  | .ret a, s => post a s
  | .raise e, _ => D.expected e
  | .call c k, s => ∀ s', D.inv s' → D.rel s s' →
      D.proper c s' ∧ (D.allowed c s' → Ok post (k (S.exec c s').1) (S.exec c s').2)

variable {D}

theorem Ok.later {post : α → σ → Prop} (hpost : ∀ a s s', post a s → D.rel s s' → post a s')
    {p : Prog C ε α} {s s' : σ} (h : D.Ok post p s) (hrel : D.rel s s') : D.Ok post p s' := by
  cases p with
  | ret a => exact hpost a s s' h hrel
  | raise e => exact h
  | call c k => exact fun s'' hinv hrel' => h s'' hinv (D.trans hrel hrel')

/-- The rule of sequence. -/
theorem Ok.bind {post : β → σ → Prop} {f : α → Prog C ε β} {p : Prog C ε α} {s : σ}
    (h : D.Ok (fun a s => D.Ok post (f a) s) p s) : D.Ok post (p >>= f) s := by
  induction p generalizing s with
  | ret a => exact h
  | raise e => exact h
  | call c k ih =>
      intro s' hinv hrel
      obtain ⟨hproper, hnext⟩ := h s' hinv hrel
      exact ⟨hproper, fun hallowed => ih _ (hnext hallowed)⟩

/-- The rule of consequence. -/
theorem Ok.mono {post post' : α → σ → Prop} (hpost : ∀ a s, post a s → post' a s) {p : Prog C ε α}
    {s : σ} (h : D.Ok post p s) : D.Ok post' p s := by
  induction p generalizing s with
  | ret a => exact hpost a s h
  | raise e => exact h
  | call c k ih =>
      intro s' hinv hrel
      obtain ⟨hproper, hnext⟩ := h s' hinv hrel
      exact ⟨hproper, fun hallowed => ih _ (hnext hallowed)⟩

/-- The store at the end is a later store. -/
theorem Ok.since {post : α → σ → Prop} {p : Prog C ε α} {s : σ} (h : D.Ok post p s) :
    D.Ok (fun a s' => post a s' ∧ D.rel s s') p s := by
  have hlater : ∀ (p : Prog C ε α) (s₀ s : σ), D.rel s₀ s → D.Ok post p s →
      D.Ok (fun a s' => post a s' ∧ D.rel s₀ s') p s := by
    intro p
    induction p with
    | ret a => exact fun s₀ s hrel h => ⟨h, hrel⟩
    | raise e => exact fun s₀ s hrel h => h
    | call c k ih =>
        intro s₀ s hrel h s' hinv hrel'
        obtain ⟨hproper, hnext⟩ := h s' hinv hrel'
        refine ⟨hproper, fun hallowed => ih _ s₀ _ ?_ (hnext hallowed)⟩
        exact D.trans (D.trans hrel hrel') (D.keeps c s' hinv hproper hallowed).2
  exact hlater p s s (D.refl s) h

/-- The store keeps the discipline, and so does what is left of every call. -/
structure Holds (D : Discipline S) (s : System C ε ρ σ κ) : Prop where
  store : D.inv s.store
  threads : ∀ t ∈ s.threads, D.Ok (fun _ _ => True) t.2 s.store

/-- The run allows the move: the calls of `starts` are made, and the command that is next may
run now. -/
def Follows (D : Discipline S) (starts : κ → Prop) (s : System C ε ρ σ κ) (m : Move κ E) : Prop :=
  match m with
  | .start call => starts call
  | .act i => ∀ t ∈ s.threads[i]?, t.2.Next fun c => D.allowed c s.store
  | .environment e => D.calm e s.store

variable {starts : κ → Prop} {s s' : System C ε ρ σ κ} {m : Move κ E}

/-- The store of a later system is a later store. -/
theorem Holds.step (h : D.Holds s)
    (hprog : ∀ call, starts call → ∀ x, D.inv x → D.Ok (fun _ _ => True) (S.prog call) x)
    (hm : D.Follows starts s m) (hstep : S.step m s = .ok s') :
    D.Holds s' ∧ D.rel s.store s'.store := by
  have hlater : ∀ {p : Prog C ε ρ} {x x' : σ}, D.Ok (fun _ _ => True) p x → D.rel x x' →
      D.Ok (fun _ _ => True) p x' := fun hp hrel => hp.later (fun _ _ _ _ _ => trivial) hrel
  cases m with
  | start call =>
      obtain rfl := Except.ok.inj hstep
      refine ⟨⟨h.store, fun t ht => ?_⟩, D.refl _⟩
      rcases List.mem_append.1 ht with hold | hnew
      · exact h.threads t hold
      · obtain rfl := List.mem_singleton.1 hnew
        exact hprog call hm _ h.store
  | act i =>
      obtain ⟨call, β, c, k, hthread, rfl⟩ := Service.step_act_eq_ok.1 hstep
      have hallowed : D.allowed c s.store := hm (call, .call c k) hthread
      obtain ⟨hproper, hnext⟩ :=
        h.threads _ (List.mem_of_getElem? hthread) s.store h.store (D.refl _)
      obtain ⟨hinv, hrel⟩ := D.keeps c s.store h.store hproper hallowed
      refine ⟨⟨hinv, fun t ht => ?_⟩, hrel⟩
      rcases List.mem_or_eq_of_mem_set ht with hold | rfl
      · exact hlater (h.threads t hold) hrel
      · exact hnext hallowed
  | environment e =>
      obtain rfl := Except.ok.inj hstep
      obtain ⟨hinv, hrel⟩ := D.endures e s.store h.store hm
      exact ⟨⟨hinv, fun t ht => hlater (h.threads t ht) hrel⟩, hrel⟩

/-- The command a thread issues is proper. -/
theorem Holds.proper (h : D.Holds s) {i : ℕ} {call : κ} {β : Type} {c : C β}
    {k : β → Prog C ε ρ} (hthread : s.threads[i]? = some (call, .call c k)) :
    D.proper c s.store :=
  (h.threads _ (List.mem_of_getElem? hthread) s.store h.store (D.refl _)).1

/-- Every interleaving the run allows keeps the discipline. -/
theorem Holds.run (h : D.Holds s)
    (hprog : ∀ call, starts call → ∀ x, D.inv x → D.Ok (fun _ _ => True) (S.prog call) x)
    {moves : List (Move κ E)} (hmoves : Conforms S.step (D.Follows starts) s moves) :
    D.Holds (Lib.run S.step s moves) :=
  run_invariant (fun _ _ _ hm hs hstep => (hs.step hprog hm hstep).1) moves s h hmoves

end Discipline

end Lib.Threads
