import OfficeConnect.Core.Base
import OfficeConnect.Ingest.Values
import OfficeConnect.Lib.Run

/-!
# One-time codes

A code is verified against the clock, located among the counters in reach of a second reading of the
clock, and consumed by a Redis key that names the counter.  Between any two of these the clock goes
on and other checks move.  A code that can no longer be located is let through without a key.
-/

namespace OfficeConnect.Mfa

open Lib

/-! ## Codes -/

/-- The authenticator: the length of a time step, in whatever unit instants are counted in, and the
code a secret has at a counter. -/
structure Totp where
  interval : Time
  positive : 0 < interval
  code : String → ℤ → String

/-- The counter of an instant. -/
def Totp.counter (t : Totp) (now : Time) : ℤ := now / t.interval

def normalizeCode (code : String) : String :=
  String.ofList ((Ingest.strip code).toList.filter (· ≠ ' '))

/-- The counters within the window of an instant's, in order. -/
def Totp.reach (t : Totp) (window : ℕ) (now : Time) : List ℤ :=
  (List.range (2 * window + 1)).map fun k : ℕ => t.counter now - window + (k : ℤ)

/-- `verify_code`: the code is the one of some counter in reach. -/
def Totp.verifyCode (t : Totp) (window : ℕ) (secret code : String) (now : Time) : Bool :=
  secret ≠ "" ∧ normalizeCode code ≠ "" ∧
    ∃ c ∈ t.reach window now, t.code secret c = normalizeCode code

/-- The first counter in reach that has the code. -/
def Totp.matchedCounter (t : Totp) (window : ℕ) (secret code : String) (now : Time) : Option ℤ :=
  (t.reach window now).find? fun c => t.code secret c = normalizeCode code

/-! ## Checks that interleave -/

/-- How far a check is. -/
inductive Progress where
  | called
  | verified (verifiedAt : Time)
  | located (verifiedAt : Time) (counter : ℤ)
  | rejected
  | accepted (verifiedAt : Time)
deriving DecidableEq, Repr

/-- One call of `check_and_consume`. -/
structure CodeCheck where
  userId : ℕ
  secret : String
  code : String
  progress : Progress := .called
deriving DecidableEq, Repr

/-- The clock, the keys `mfa:used:{user}:{counter}` that were set with the instants they expire at,
and the checks made so far. -/
structure Desk where
  now : Time := 0
  used : List ((ℕ × ℤ) × Time) := []
  checks : List CodeCheck := []
deriving DecidableEq, Repr

/-- `SET key "1" NX EX ttl`: nothing is stored over a key that has not expired. -/
def Desk.setNx (key : ℕ × ℤ) (ttl : Time) (s : Desk) : Bool × Desk :=
  if ∃ u ∈ s.used, u.1 = key ∧ s.now < u.2 then (false, s)
  else (true, { s with used := s.used ++ [(key, s.now + ttl)] })

/-- The next command of a check: a reading of the clock with what follows from it, or the key. -/
def CodeCheck.advance (t : Totp) (window : ℕ) (check : CodeCheck) (s : Desk) : Progress × Desk :=
  match check.progress with
  | .called =>
      (if t.verifyCode window check.secret check.code s.now then .verified s.now else .rejected, s)
  | .verified verifiedAt =>
      match t.matchedCounter window check.secret check.code s.now with
      | none => (.accepted verifiedAt, s)
      | some counter => (.located verifiedAt counter, s)
  | .located verifiedAt counter =>
      let (stored, s) := s.setNx (check.userId, counter) ((2 * window + 2) * t.interval)
      (if stored then .accepted verifiedAt else .rejected, s)
  | .rejected => (.rejected, s)
  | .accepted verifiedAt => (.accepted verifiedAt, s)

inductive Move where
  | tick (elapsed : ℕ)
  | call (userId : ℕ) (secret code : String)
  | act (i : ℕ)
deriving DecidableEq, Repr

def step (t : Totp) (window : ℕ) (m : Move) (s : Desk) : Except Unit Desk :=
  match m with
  | .tick elapsed => .ok { s with now := s.now + elapsed }
  | .call userId secret code => .ok { s with checks := s.checks ++ [{ userId, secret, code }] }
  | .act i =>
      match s.checks[i]? with
      | none => .error ()
      | some check =>
          let (progress, s) := check.advance t window s
          .ok { s with checks := s.checks.set i { check with progress } }

/-! ## Single use -/

/-- The check accepted its code for a counter in reach when it verified it. -/
def CodeCheck.AcceptedFor (t : Totp) (window : ℕ) (check : CodeCheck) (counter : ℤ) : Prop :=
  ∃ verifiedAt, check.progress = .accepted verifiedAt ∧ counter ∈ t.reach window verifiedAt ∧
    t.code check.secret counter = normalizeCode check.code

/-- Each counter of a user is good for one accepted code. -/
def SingleUse (t : Totp) (window : ℕ) (s : Desk) : Prop :=
  ∀ (i j : ℕ) (a b : CodeCheck) (counter : ℤ), s.checks[i]? = some a → s.checks[j]? = some b →
    a.userId = b.userId → a.AcceptedFor t window counter → b.AcceptedFor t window counter → i = j

/-- Distinct counters in reach of an instant have distinct codes. -/
def Totp.Distinct (t : Totp) (window : ℕ) : Prop :=
  ∀ (secret : String) (now : Time), ∀ c ∈ t.reach window now, ∀ c' ∈ t.reach window now,
    t.code secret c = t.code secret c' → c = c'

/-- A check is not overtaken by the clock: it locates its code while the counter it was verified for
is still in reach, and stores the key no later than in the step after. -/
def CodeCheck.Punctual (t : Totp) (window : ℕ) (check : CodeCheck) (now : Time) : Prop :=
  match check.progress with
  | .verified verifiedAt => ∀ c ∈ t.reach window verifiedAt,
      t.code check.secret c = normalizeCode check.code → c ∈ t.reach window now
  | .located _ counter => t.counter now ≤ counter + window + 1
  | _ => True

/-- The move leaves no check behind the clock. -/
def Punctual (t : Totp) (window : ℕ) (s : Desk) (m : Move) : Prop :=
  match m with
  | .act i => ∀ check ∈ s.checks[i]?, check.Punctual t window s.now
  | _ => True

instance (t : Totp) (window : ℕ) (check : CodeCheck) (now : Time) :
    Decidable (check.Punctual t window now) :=
  match h : check.progress with
  | .called => isTrue (by unfold CodeCheck.Punctual; rw [h]; trivial)
  | .verified verifiedAt =>
      decidable_of_iff (∀ c ∈ t.reach window verifiedAt,
        t.code check.secret c = normalizeCode check.code → c ∈ t.reach window now)
        (by unfold CodeCheck.Punctual; rw [h])
  | .located _ counter =>
      decidable_of_iff (t.counter now ≤ counter + window + 1)
        (by unfold CodeCheck.Punctual; rw [h])
  | .rejected => isTrue (by unfold CodeCheck.Punctual; rw [h]; trivial)
  | .accepted _ => isTrue (by unfold CodeCheck.Punctual; rw [h]; trivial)

instance (t : Totp) (window : ℕ) (s : Desk) (m : Move) : Decidable (Punctual t window s m) :=
  match m with
  | .act i => inferInstanceAs (Decidable (∀ check ∈ s.checks[i]?, check.Punctual t window s.now))
  | .tick _ => isTrue trivial
  | .call _ _ _ => isTrue trivial

/-! ## What a check has done -/

section

variable {t : Totp} {window : ℕ} {s s' : Desk} {check : CodeCheck} {m : Move} {c : ℤ} {now : Time}

theorem mem_reach : c ∈ t.reach window now ↔
    t.counter now - window ≤ c ∧ c ≤ t.counter now + window := by
  simp only [Totp.reach, List.mem_map, List.mem_range]
  constructor
  · rintro ⟨k, hk, rfl⟩
    omega
  · rintro ⟨hlo, hhi⟩
    exact ⟨(c - (t.counter now - window)).toNat, by omega, by omega⟩

theorem Totp.counter_mono {now' : Time} (hle : now ≤ now') : t.counter now ≤ t.counter now' :=
  Int.ediv_le_ediv t.positive hle

/-- The key a counter was consumed under outlives the counter's window by a step. -/
def Consumed (t : Totp) (window : ℕ) (s : Desk) (userId : ℕ) (c : ℤ) : Prop :=
  ∃ expiry, ((userId, c), expiry) ∈ s.used ∧ (c + window + 2) * t.interval ≤ expiry

/-- What is known of a check by how far it is. -/
def Known (t : Totp) (window : ℕ) (s : Desk) (check : CodeCheck) : Prop :=
  match check.progress with
  | .called => True
  | .verified verifiedAt => verifiedAt ≤ s.now ∧
      ∃ c ∈ t.reach window verifiedAt, t.code check.secret c = normalizeCode check.code
  | .located verifiedAt c => c - window ≤ t.counter s.now ∧ c ∈ t.reach window verifiedAt ∧
      t.code check.secret c = normalizeCode check.code
  | .rejected => True
  | .accepted verifiedAt => ∃ c ∈ t.reach window verifiedAt,
      t.code check.secret c = normalizeCode check.code ∧ Consumed t window s check.userId c

/-- The clock does not go back and keys are only added. -/
structure Later (s s' : Desk) : Prop where
  now : s.now ≤ s'.now
  used : ∀ u ∈ s.used, u ∈ s'.used

theorem Consumed.later {userId : ℕ} (h : Consumed t window s userId c) (hlater : Later s s') :
    Consumed t window s' userId c := by
  obtain ⟨expiry, hmem, hlate⟩ := h
  exact ⟨expiry, hlater.used _ hmem, hlate⟩

theorem Known.later (h : Known t window s check) (hlater : Later s s') :
    Known t window s' check := by
  unfold Known at h ⊢
  split at h
  · trivial
  · exact ⟨h.1.trans hlater.now, h.2⟩
  · exact ⟨h.1.trans (Totp.counter_mono hlater.now), h.2⟩
  · trivial
  · obtain ⟨c, hreach, hcode, hconsumed⟩ := h
    exact ⟨c, hreach, hcode, hconsumed.later hlater⟩

/-! ## One command -/

/-- What the next command of a punctual check leads to. -/
structure Advanced (t : Totp) (window : ℕ) (check : CodeCheck) (s : Desk) (progress : Progress)
    (s' : Desk) : Prop where
  checks : s'.checks = s.checks
  later : Later s s'
  known : Known t window s' { check with progress }
  fresh : ∀ verifiedAt, progress = .accepted verifiedAt → check.progress = .accepted verifiedAt ∨
    ∀ c ∈ t.reach window verifiedAt, t.code check.secret c = normalizeCode check.code →
      ¬ Consumed t window s check.userId c

theorem later_refl (s : Desk) : Later s s := ⟨le_rfl, fun _ hu => hu⟩

theorem advanced_called (hcheck : check.progress = .called) :
    Advanced t window check s (check.advance t window s).1 (check.advance t window s).2 := by
  unfold CodeCheck.advance
  rw [hcheck]
  refine ⟨rfl, later_refl s, ?_, fun verifiedAt hend => ?_⟩
  · by_cases hverified : t.verifyCode window check.secret check.code s.now = true
    · simp only [if_pos hverified, Known]
      unfold Totp.verifyCode at hverified
      exact ⟨le_rfl, (of_decide_eq_true hverified).2.2⟩
    · simp only [if_neg hverified, Known]
  · simp only at hend
    split_ifs at hend

theorem advanced_verified {verifiedAt : Time} (hcheck : check.progress = .verified verifiedAt)
    (hdistinct : t.Distinct window) (hknown : Known t window s check)
    (hpunctual : check.Punctual t window s.now) :
    Advanced t window check s (check.advance t window s).1 (check.advance t window s).2 := by
  unfold Known at hknown
  unfold CodeCheck.Punctual at hpunctual
  rw [hcheck] at hknown hpunctual
  obtain ⟨-, c, hreach, hcode⟩ := hknown
  have hstill : c ∈ t.reach window s.now := hpunctual c hreach hcode
  unfold CodeCheck.advance
  rw [hcheck]
  cases hmatched : t.matchedCounter window check.secret check.code s.now with
  | none =>
      have hnone := List.find?_eq_none.1 hmatched c hstill
      simp [hcode] at hnone
  | some c' =>
      have hreach' : c' ∈ t.reach window s.now := List.mem_of_find?_eq_some hmatched
      have hcode' : t.code check.secret c' = normalizeCode check.code := by
        simpa using List.find?_some hmatched
      obtain rfl := hdistinct check.secret s.now c hstill c' hreach' (hcode.trans hcode'.symm)
      refine ⟨rfl, later_refl s, ?_, fun _ hend => by cases hend⟩
      have hbounds := mem_reach.1 hstill
      simp only [Known]
      exact ⟨by omega, hreach, hcode⟩

/-- A key that a counter was consumed under is still there when a punctual check stores its own. -/
theorem not_setNx_of_consumed {ttl : Time} {userId : ℕ} (h : Consumed t window s userId c)
    (hpunctual : t.counter s.now ≤ c + window + 1) : (s.setNx (userId, c) ttl).1 = false := by
  obtain ⟨expiry, hmem, hlate⟩ := h
  have hnow : s.now < (c + window + 2) * t.interval := by
    rw [← Int.ediv_lt_iff_lt_mul t.positive]
    exact Int.lt_of_le_of_lt hpunctual (by omega)
  unfold Desk.setNx
  rw [if_pos ⟨_, hmem, rfl, hnow.trans_le hlate⟩]

theorem consumed_setNx {userId : ℕ} (hreach : c - window ≤ t.counter s.now)
    (hstored : (s.setNx (userId, c) ((2 * window + 2) * t.interval)).1 = true) :
    Consumed t window (s.setNx (userId, c) ((2 * window + 2) * t.interval)).2 userId c := by
  unfold Desk.setNx at hstored ⊢
  split_ifs at hstored ⊢ with hused
  refine ⟨_, List.mem_append_right _ (List.mem_singleton.2 rfl), ?_⟩
  have hnow : (c - window) * t.interval ≤ s.now := (Int.le_ediv_iff_mul_le t.positive).1 hreach
  calc (c + window + 2) * t.interval
      = (c - window) * t.interval + (2 * window + 2) * t.interval := by ring
    _ ≤ s.now + (2 * window + 2) * t.interval := by omega

theorem later_setNx (key : ℕ × ℤ) (ttl : Time) (s : Desk) :
    Later s (s.setNx key ttl).2 ∧ (s.setNx key ttl).2.checks = s.checks := by
  unfold Desk.setNx
  split_ifs
  · exact ⟨later_refl s, rfl⟩
  · exact ⟨⟨le_rfl, fun u hu => List.mem_append_left _ hu⟩, rfl⟩

theorem advanced_located {verifiedAt : Time} (hcheck : check.progress = .located verifiedAt c)
    (hdistinct : t.Distinct window) (hknown : Known t window s check)
    (hpunctual : check.Punctual t window s.now) :
    Advanced t window check s (check.advance t window s).1 (check.advance t window s).2 := by
  unfold Known at hknown
  unfold CodeCheck.Punctual at hpunctual
  rw [hcheck] at hknown hpunctual
  obtain ⟨hnear, hreach, hcode⟩ := hknown
  obtain ⟨hlater, hchecks⟩ := later_setNx (check.userId, c) ((2 * window + 2) * t.interval) s
  unfold CodeCheck.advance
  rw [hcheck]
  refine ⟨hchecks, hlater, ?_, fun at' hend => .inr fun d hd hdcode hconsumed => ?_⟩
  · by_cases hstored : (s.setNx (check.userId, c) ((2 * window + 2) * t.interval)).1 = true
    · simp only [if_pos hstored, Known]
      exact ⟨c, hreach, hcode, consumed_setNx hnear hstored⟩
    · simp only [if_neg hstored, Known]
  · simp only at hend
    split_ifs at hend with hstored
    obtain rfl : verifiedAt = at' := Progress.accepted.inj hend
    obtain rfl := hdistinct check.secret verifiedAt c hreach d hd (hcode.trans hdcode.symm)
    rw [not_setNx_of_consumed hconsumed hpunctual] at hstored
    cases hstored

theorem advanced (hdistinct : t.Distinct window) (hknown : Known t window s check)
    (hpunctual : check.Punctual t window s.now) :
    Advanced t window check s (check.advance t window s).1 (check.advance t window s).2 := by
  cases hcheck : check.progress with
  | called => exact advanced_called hcheck
  | verified verifiedAt => exact advanced_verified hcheck hdistinct hknown hpunctual
  | located verifiedAt c => exact advanced_located hcheck hdistinct hknown hpunctual
  | rejected =>
      unfold CodeCheck.advance
      rw [hcheck]
      exact ⟨rfl, later_refl s, trivial, fun _ hend => by cases hend⟩
  | accepted verifiedAt =>
      have hsame : ({ check with progress := .accepted verifiedAt } : CodeCheck) = check := by
        rw [← hcheck]
      unfold CodeCheck.advance
      rw [hcheck]
      exact ⟨rfl, later_refl s, hsame ▸ hknown, fun _ hend => .inl (hcheck.trans hend)⟩

/-! ## Every interleaving -/

/-- What holds of a desk whose checks were punctual. -/
structure Sound (t : Totp) (window : ℕ) (s : Desk) : Prop where
  known : ∀ check ∈ s.checks, Known t window s check
  singleUse : SingleUse t window s

theorem Sound.tick (h : Sound t window s) (elapsed : ℕ) :
    Sound t window { s with now := s.now + elapsed } := by
  have hlater : Later s { s with now := s.now + elapsed } := ⟨by simp, fun _ hu => hu⟩
  exact ⟨fun check hmem => (h.known check hmem).later hlater, h.singleUse⟩

theorem Sound.call (h : Sound t window s) (userId : ℕ) (secret code : String) :
    Sound t window { s with checks := s.checks ++ [{ userId, secret, code }] } := by
  have hold : ∀ {i : ℕ} {check : CodeCheck} {d : ℤ},
      (s.checks ++ [CodeCheck.mk userId secret code .called])[i]? = some check →
        check.AcceptedFor t window d → s.checks[i]? = some check := by
    intro i check d hi hacc
    rcases lt_or_ge i s.checks.length with hlt | hge
    · rwa [List.getElem?_append_left hlt] at hi
    · rw [List.getElem?_append_right hge] at hi
      obtain rfl : check = _ := List.mem_singleton.1 (List.mem_of_getElem? hi)
      obtain ⟨verifiedAt, hprogress, -⟩ := hacc
      cases hprogress
  constructor
  · intro check hmem
    rcases List.mem_append.1 hmem with hin | hnew
    · exact (h.known check hin).later ⟨le_rfl, fun _ hu => hu⟩
    · obtain rfl := List.mem_singleton.1 hnew
      trivial
  · intro i j a b d hi hj huser ha hb
    exact h.singleUse i j a b d (hold hi ha) (hold hj hb) huser ha hb

/-- A check that accepted its code has consumed the counter. -/
theorem Known.consumed (hdistinct : t.Distinct window) (h : Known t window s check)
    (hacc : check.AcceptedFor t window c) : Consumed t window s check.userId c := by
  obtain ⟨verifiedAt, hprogress, hreach, hcode⟩ := hacc
  unfold Known at h
  rw [hprogress] at h
  obtain ⟨d, hd, hdcode, hconsumed⟩ := h
  obtain rfl := hdistinct check.secret verifiedAt c hreach d hd (hcode.trans hdcode.symm)
  exact hconsumed

theorem Sound.act (hdistinct : t.Distinct window) (h : Sound t window s) {i : ℕ}
    (hi : s.checks[i]? = some check) {progress : Progress}
    (hadv : Advanced t window check s progress s') :
    Sound t window { s' with checks := s'.checks.set i { check with progress } } := by
  have hlater : Later s { s' with checks := s'.checks.set i { check with progress } } :=
    ⟨hadv.later.now, hadv.later.used⟩
  have hknown : Known t window s check := h.known check (List.mem_of_getElem? hi)
  have hlt : i < s.checks.length := (List.getElem?_eq_some_iff.1 hi).1
  -- The check that moved is accepted for a counter that no other check was accepted for.
  have hmoved : ∀ (j : ℕ) (b : CodeCheck) (d : ℤ), j ≠ i → s.checks[j]? = some b →
      ({ check with progress } : CodeCheck).AcceptedFor t window d → b.AcceptedFor t window d →
        check.userId ≠ b.userId := by
    rintro j b d hne hj ⟨verifiedAt, hprogress, hreach, hcode⟩ hb huser
    have hconsumed := (h.known b (List.mem_of_getElem? hj)).consumed hdistinct hb
    rcases hadv.fresh verifiedAt hprogress with hsame | hfresh
    · exact hne (h.singleUse j i b check d hj hi huser.symm hb ⟨verifiedAt, hsame, hreach, hcode⟩)
    · exact hfresh d hreach hcode (huser ▸ hconsumed)
  constructor
  · intro other hmem
    rcases List.mem_or_eq_of_mem_set hmem with hold | rfl
    · exact (h.known other (hadv.checks ▸ hold)).later hlater
    · exact hadv.known.later ⟨le_rfl, fun _ hu => hu⟩
  · intro j k a b d hj hk huser ha hb
    simp only [hadv.checks, List.getElem?_set, hlt] at hj hk
    split_ifs at hj hk with hij hik hik
    · exact hij.symm.trans hik
    · obtain rfl := Option.some.inj hj
      exact absurd huser (hmoved k b d (Ne.symm hik) hk ha hb)
    · obtain rfl := Option.some.inj hk
      exact absurd huser.symm (hmoved j a d (Ne.symm hij) hj hb ha)
    · exact h.singleUse j k a b d hj hk huser ha hb

theorem Sound.step (hdistinct : t.Distinct window) (h : Sound t window s)
    (hpunctual : Punctual t window s m) (hstep : step t window m s = .ok s') :
    Sound t window s' := by
  cases m with
  | tick elapsed =>
      obtain rfl := Except.ok.inj hstep
      exact h.tick elapsed
  | call userId secret code =>
      obtain rfl := Except.ok.inj hstep
      exact h.call userId secret code
  | act i =>
      cases hi : s.checks[i]? with
      | none => simp [Mfa.step, hi] at hstep
      | some check =>
          simp only [Mfa.step, hi] at hstep
          obtain rfl := Except.ok.inj hstep
          exact h.act hdistinct hi
            (advanced hdistinct (h.known check (List.mem_of_getElem? hi)) (hpunctual check hi))

end

/-- Whatever checks interleave, each counter of a user is good for one accepted code as long as no
check is overtaken by the clock. -/
theorem singleUse_run (t : Totp) (window : ℕ) (hdistinct : t.Distinct window) (start : Time)
    (moves : List Move)
    (h : Conforms (step t window) (Punctual t window) { now := start } moves) :
    SingleUse t window (run (step t window) { now := start } moves) := by
  refine (run_invariant (I := Sound t window) ?_ moves { now := start } ⟨?_, ?_⟩ h).singleUse
  · intro s m s' hpunctual hs hstep
    exact hs.step hdistinct hpunctual hstep
  · intro check hmem
    cases hmem
  · intro i j a b d hi
    simp at hi

/-- Six equal digits, the last one of the counter, in steps of thirty seconds. -/
def plainCodes : Totp where
  interval := 30
  positive := by decide
  code := fun _ c => String.ofList (List.replicate 6 (Nat.digitChar (c % 10).toNat))

theorem plainCodes_distinct : plainCodes.Distinct 1 := by
  intro secret now c hc c' hc' hcode
  have hdigit : Nat.digitChar (c % 10).toNat = Nat.digitChar (c' % 10).toNat := by
    have hlists := String.ofList_injective hcode
    simpa using hlists
  have hinj : ∀ a b : Fin 10, Nat.digitChar a = Nat.digitChar b → a = b := by decide
  have hlast := congrArg Fin.val
    (hinj ⟨(c % 10).toNat, by omega⟩ ⟨(c' % 10).toNat, by omega⟩ hdigit)
  have hbounds := mem_reach.1 hc
  have hbounds' := mem_reach.1 hc'
  simp only at hlast
  omega

/-- Two checks of one code, a second apart and at the same counter: the second is refused. -/
theorem secondCheck_refused :
    SingleUse plainCodes 1 (run (step plainCodes 1) { now := 70 } [.call 7 "k" "222222",
      .act 0, .act 0, .act 0, .tick 1, .call 7 "k" "222222", .act 1, .act 1, .act 1]) :=
  singleUse_run plainCodes 1 plainCodes_distinct 70 _ (by decide +kernel)

/-- Two checks verify a code in the last second of its window and look for its counter in the next:
neither finds it, and both accept. -/
theorem lateChecks_bothAccept : ¬ ∀ (t : Totp) (window : ℕ), t.Distinct window →
    ∀ (start : Time) (moves : List Move),
      SingleUse t window (run (step t window) { now := start } moves) := by
  intro h
  have hsingle := h plainCodes 1 plainCodes_distinct 89
    [.call 7 "k" "111 111", .call 7 "k" "111 111", .act 0, .act 1, .tick 1, .act 0, .act 1]
  have htwice := hsingle 0 1 _ _ 1 rfl rfl rfl ⟨89, by decide +kernel⟩ ⟨89, by decide +kernel⟩
  cases htwice

end OfficeConnect.Mfa
