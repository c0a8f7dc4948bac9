import OfficeConnect.Lib.Journal
import OfficeConnect.Reimbursement.Lifecycle

/-!
# Reference numbers

Transactions that allocate numbers, interleaved anyhow.  An allocation locks the counter row of its
series and reads it, or finds none and creates it, which the unique index lets only one transaction
do; it then advances the counter.  Locks are kept until the transaction commits or rolls back.  The
allocations that commit in a series are then numbered `1, 2, …` without a gap, and no two print alike.
-/

namespace OfficeConnect.Reimbursement.Numbering

open Lib

/-! ## The machine -/

/-- A scope and a year. -/
abbrev Series := String × ℤ

/-- A call of `allocate_reference_number`, and the year of the clock it may fall back to. -/
structure Allocate where
  scope : String
  year : Option ℤ := none
  utcYear : ℤ

/-- `year or utc_now().year`. -/
def Allocate.series (r : Allocate) : Series :=
  (r.scope, if r.year = none ∨ r.year = some 0 then r.utcYear else r.year.getD 0)

/-- Where a transaction is in an allocation: it found no counter row, or has it locked with the
value it read. -/
inductive Phase where
  | idle
  | missing (q : Series)
  | holding (q : Series) (value : ℕ)

/-- A transaction, the counters it has written and the numbers it has allocated. -/
structure Tx where
  phase : Phase := .idle
  own : Series → Option ℕ := fun _ => none
  issued : List (Series × ℕ) := []

/-- The counter table, its row locks, the numbers of the committed transactions and the others. -/
structure Db where
  last : Series → Option ℕ := fun _ => none
  lock : Series → Option ℕ := fun _ => none
  issued : List (Series × ℕ) := []
  tx : ℕ → Tx := fun _ => {}

inductive Move where
  | select (r : Allocate)
  | insert
  | increment
  | commit
  | rollback

namespace Db

def setTx (s : Db) (t : ℕ) (x : Tx) : Db := { s with tx := Function.update s.tx t x }

/-- The row the transaction reads. -/
def visible (s : Db) (t : ℕ) (q : Series) : Option ℕ := (s.tx t).own q <|> s.last q

def free (s : Db) (t : ℕ) (q : Series) : Prop := s.lock q = none ∨ s.lock q = some t

instance (s : Db) (t : ℕ) (q : Series) : Decidable (s.free t q) :=
  inferInstanceAs (Decidable (_ ∨ _))

/-- Hold the row of `q` with the value read. -/
def hold (s : Db) (t : ℕ) (q : Series) (own : Series → Option ℕ) (value : ℕ) : Db :=
  { s.setTx t { s.tx t with phase := .holding q value, own := own } with
    lock := Function.update s.lock q (some t) }

/-- The transaction is gone and its locks are free. -/
def close (s : Db) (t : ℕ) : Db :=
  { s.setTx t {} with lock := fun q => if s.lock q = some t then none else s.lock q }

end Db

/-- One move of one transaction; a move it cannot make yet does nothing. -/
def step (s : Db) (m : ℕ × Move) : Db :=
  let t := m.1
  match m.2, (s.tx t).phase with
  | .select r, .idle =>
      match s.visible t r.series with
      | some value => if s.free t r.series then s.hold t r.series (s.tx t).own value else s
      | none => s.setTx t { s.tx t with phase := .missing r.series }
  | .insert, .missing q =>
      -- the unique index: a row already there aborts, another's uncommitted one is waited for
      if s.visible t q ≠ none then s.close t
      else if s.free t q then s.hold t q (Function.update (s.tx t).own q (some 0)) 0 else s
  | .increment, .holding q value =>
      s.setTx t
        { phase := .idle
          own := Function.update (s.tx t).own q (some (value + 1))
          issued := (s.tx t).issued ++ [(q, value + 1)] }
  | .commit, .idle =>
      { s.close t with last := s.visible t, issued := s.issued ++ (s.tx t).issued }
  | .rollback, _ => s.close t
  | _, _ => s

def schedule (s : Db) (moves : List (ℕ × Move)) : Db := moves.foldl step s

/-- The numbers of one series. -/
def numbers (q : Series) (issued : List (Series × ℕ)) : List ℕ :=
  (issued.filter fun entry => entry.1 = q).map (·.2)

/-- The text of a number. -/
def referenceNumber (q : Series) (number : ℕ) : String :=
  q.1 ++ "-" ++ padded 4 q.2 ++ "-" ++ padded 4 number

/-! ## The invariant -/

variable {s : Db} {t u : ℕ} {q r : Series} {value : ℕ}

theorem numbers_append (q : Series) (a b : List (Series × ℕ)) :
    numbers q (a ++ b) = numbers q a ++ numbers q b := by
  simp [numbers]

/-- What a transaction knows of a series: without its lock nothing, and with it the numbers up to
the value it sees. -/
structure Sits (s : Db) (t : ℕ) (q : Series) : Prop where
  alone : s.lock q ≠ some t →
    (s.tx t).own q = none ∧ numbers q (s.tx t).issued = [] ∧ ∀ v, (s.tx t).phase ≠ .holding q v
  counts : numbers q (s.issued ++ (s.tx t).issued) = List.range' 1 ((s.visible t q).getD 0)
  reads : ∀ v, (s.tx t).phase = .holding q v → s.visible t q = some v

structure Serial (s : Db) : Prop where
  counts : ∀ q, numbers q s.issued = List.range' 1 ((s.last q).getD 0)
  sits : ∀ t q, Sits s t q

theorem serial_start : Serial {} where
  counts _ := rfl
  sits _ _ := ⟨fun _ => ⟨rfl, rfl, fun _ h => nomatch h⟩, rfl, fun _ h => nomatch h⟩

/-- A series of a transaction that a move leaves as it was. -/
theorem Sits.frame {s' : Db} (h : Sits s t q) (hown : (s'.tx t).own q = (s.tx t).own q)
    (hissued : numbers q (s'.tx t).issued = numbers q (s.tx t).issued)
    (hphase : ∀ v, (s'.tx t).phase = .holding q v → (s.tx t).phase = .holding q v)
    (hlast : s'.last q = s.last q) (hcommitted : numbers q s'.issued = numbers q s.issued)
    (hlock : s'.lock q ≠ some t → s.lock q ≠ some t) : Sits s' t q := by
  have hvisible : s'.visible t q = s.visible t q := by rw [Db.visible, hown, hlast, Db.visible]
  refine ⟨fun hne => ?_, ?_, fun v hv => ?_⟩
  · obtain ⟨hnone, hempty, hout⟩ := h.alone (hlock hne)
    exact ⟨hown.trans hnone, hissued.trans hempty, fun v hv => hout v (hphase v hv)⟩
  · rw [hvisible, numbers_append, hissued, hcommitted, ← numbers_append]
    exact h.counts
  · rw [hvisible]
    exact h.reads v (hphase v hv)

/-- A transaction that another's move leaves as it was. -/
theorem Sits.other {s' : Db} (h : Sits s t q) (htx : s'.tx t = s.tx t)
    (hlast : s'.last q = s.last q) (hcommitted : numbers q s'.issued = numbers q s.issued)
    (hlock : s'.lock q ≠ some t → s.lock q ≠ some t) : Sits s' t q :=
  h.frame (by rw [htx]) (by rw [htx]) (by rw [htx]; exact fun _ => id) hlast hcommitted hlock

/-- A transaction that has done nothing in a series. -/
theorem sits_fresh (hcounts : numbers q s.issued = List.range' 1 ((s.last q).getD 0))
    (hown : (s.tx t).own q = none) (hissued : numbers q (s.tx t).issued = [])
    (hphase : ∀ v, (s.tx t).phase ≠ .holding q v) : Sits s t q where
  alone _ := ⟨hown, hissued, hphase⟩
  counts := by
    rw [numbers_append, hissued, List.append_nil, hcounts, Db.visible, hown]
    rfl
  reads v hv := absurd hv (hphase v)

/-! ## One move -/

@[simp] theorem Db.tx_setTx_self (s : Db) (t : ℕ) (x : Tx) : (s.setTx t x).tx t = x :=
  Function.update_self ..

theorem Db.tx_setTx_of_ne (s : Db) (x : Tx) (h : u ≠ t) : (s.setTx t x).tx u = s.tx u :=
  Function.update_of_ne h ..

@[simp] theorem Db.last_setTx (s : Db) (t : ℕ) (x : Tx) : (s.setTx t x).last = s.last := rfl

@[simp] theorem Db.issued_setTx (s : Db) (t : ℕ) (x : Tx) : (s.setTx t x).issued = s.issued := rfl

/-- A free row is held by nobody else. -/
theorem Db.free.lock_of_ne (h : s.free t q) (hu : u ≠ t) : s.lock q ≠ some u := by
  intro hheld
  rcases h with hnone | hmine
  · exact nomatch hnone.symm.trans hheld
  · exact hu (Option.some.inj (hheld.symm.trans hmine))

/-- The row of a free series is locked, with the value the transaction sees in it. -/
theorem Serial.hold (h : Serial s) (hfree : s.free t q) {own : Series → Option ℕ}
    (hothers : ∀ r, r ≠ q → own r = (s.tx t).own r) (hvalue : (own q <|> s.last q) = some value)
    (hcount : (s.visible t q).getD 0 = value) : Serial (s.hold t q own value) where
  counts := h.counts
  sits u r := by
    by_cases hr : r = q
    · subst hr
      by_cases hu : u = t
      · subst hu
        have hvisible : (s.hold u r own value).visible u r = some value := by
          simpa [Db.visible, Db.hold] using hvalue
        refine ⟨fun hne => absurd (Function.update_self ..) hne, ?_, fun v hv => ?_⟩
        · have hcounts := (h.sits u r).counts
          rw [hcount] at hcounts
          rw [hvisible]
          simpa [Db.hold] using hcounts
        · have : value = v := by simpa [Db.hold] using hv
          rw [hvisible, this]
      · have htx : (s.hold t r own value).tx u = s.tx u := s.tx_setTx_of_ne _ hu
        obtain ⟨hown, hissued, hphase⟩ := (h.sits u r).alone (hfree.lock_of_ne hu)
        exact sits_fresh (h.counts r) (htx ▸ hown) (htx ▸ hissued) (htx ▸ hphase)
    · have hlock : (s.hold t q own value).lock r = s.lock r := Function.update_of_ne hr ..
      by_cases hu : u = t
      · subst hu
        refine (h.sits u r).frame ?_ ?_ ?_ rfl rfl (hlock ▸ id)
        · simpa [Db.hold] using hothers r hr
        · simp [Db.hold]
        · intro v hv
          have hsame : q = r ∧ value = v := by simpa [Db.hold] using hv
          exact absurd hsame.1.symm hr
      · have htx : (s.hold t q own value).tx u = s.tx u := s.tx_setTx_of_ne _ hu
        exact (h.sits u r).other htx rfl rfl (hlock ▸ id)

/-- A transaction finds no counter row. -/
theorem Serial.missing (h : Serial s) : Serial (s.setTx t { s.tx t with phase := .missing q }) where
  counts := h.counts
  sits u r := by
    by_cases hu : u = t
    · subst hu
      refine (h.sits u r).frame ?_ ?_ ?_ rfl rfl id
      · simp
      · simp
      · simp
    · exact (h.sits u r).other (s.tx_setTx_of_ne _ hu) rfl rfl id

/-- The holder of a row takes the next number. -/
theorem Serial.increment (h : Serial s) (hphase : (s.tx t).phase = .holding q value) :
    Serial (s.setTx t
      { phase := .idle
        own := Function.update (s.tx t).own q (some (value + 1))
        issued := (s.tx t).issued ++ [(q, value + 1)] }) where
  counts := h.counts
  sits u r := by
    by_cases hu : u = t
    · subst hu
      by_cases hr : r = q
      · subst hr
        have hheld : s.lock r = some u := by
          by_contra hlock
          exact ((h.sits u r).alone hlock).2.2 value hphase
        have hcounts := (h.sits u r).counts
        rw [(h.sits u r).reads value hphase] at hcounts
        refine ⟨fun hne => absurd hheld hne, ?_, by simp⟩
        rw [Db.issued_setTx, Db.tx_setTx_self, ← List.append_assoc, numbers_append, hcounts]
        simp [Db.visible, numbers, List.range'_1_concat, Nat.add_comm]
      · refine (h.sits u r).frame ?_ ?_ (by simp) rfl rfl id
        · simp [Function.update_of_ne hr]
        · simp [numbers, Ne.symm hr]
    · exact (h.sits u r).other (s.tx_setTx_of_ne _ hu) rfl rfl id

/-- A transaction is rolled back. -/
theorem Serial.close (h : Serial s) : Serial (s.close t) where
  counts := h.counts
  sits u r := by
    by_cases hu : u = t
    · subst hu
      exact sits_fresh (h.counts r) (by simp [Db.close]) (by simp [Db.close, numbers])
        (by simp [Db.close])
    · refine (h.sits u r).other (s.tx_setTx_of_ne _ hu) rfl rfl fun hne hheld => hne ?_
      simp [Db.close, hheld, hu]

theorem Serial.commit (h : Serial s) :
    Serial { s.close t with last := s.visible t, issued := s.issued ++ (s.tx t).issued } where
  counts q := (h.sits t q).counts
  sits u r := by
    by_cases hu : u = t
    · subst hu
      exact sits_fresh (h.sits u r).counts (by simp [Db.close]) (by simp [Db.close, numbers])
        (by simp [Db.close])
    have htx : (s.close t).tx u = s.tx u := s.tx_setTx_of_ne _ hu
    by_cases hheld : s.lock r = some t
    · -- The committing transaction held the row, so `u` has done nothing in the series.
      obtain ⟨hown, hissued, hphase⟩ := (h.sits u r).alone
        (by simpa [hheld] using fun heq => hu heq.symm)
      exact sits_fresh (h.sits t r).counts (htx ▸ hown) (htx ▸ hissued) (htx ▸ hphase)
    · obtain ⟨hown, hissued, -⟩ := (h.sits t r).alone hheld
      refine (h.sits u r).other htx ?_ ?_ fun hne hmine => hne ?_
      · simp [Db.visible, hown]
      · rw [numbers_append, hissued, List.append_nil]
      · simp [Db.close, hmine, hu]

theorem Serial.step (h : Serial s) (m : ℕ × Move) : Serial (step s m) := by
  obtain ⟨t, m⟩ := m
  unfold Numbering.step
  simp only
  split
  · rename_i r _
    cases hvisible : s.visible t r.series with
    | none => exact h.missing
    | some value =>
        simp only
        split_ifs with hfree
        · exact h.hold hfree (fun _ _ => rfl) hvisible (by rw [hvisible]; rfl)
        · exact h
  · rename_i q _
    split_ifs with hrow hfree
    · exact h.close
    · rw [not_not] at hrow
      exact h.hold hfree (fun r hr => Function.update_of_ne hr ..) (by simp) (by rw [hrow]; rfl)
    · exact h
  · exact h.increment ‹_›
  · exact h.commit
  · exact h.close
  · exact h

theorem Serial.schedule (h : Serial s) (moves : List (ℕ × Move)) : Serial (schedule s moves) := by
  induction moves generalizing s with
  | nil => exact h
  | cons m moves ih => exact ih (h.step m)

/-! ## The allocations that commit -/

/-- What a move enters in the journal: the series of an allocation, or the end of its transaction. -/
def entry (s : Db) (m : ℕ × Move) : Journal.Entry Series :=
  match m.2, (s.tx m.1).phase with
  | .increment, .holding q _ => .does m.1 [q]
  | .insert, .missing q => if s.visible m.1 q ≠ none then .drops m.1 else .nothing
  | .commit, .idle => .keeps m.1
  | .rollback, _ => .drops m.1
  | _, _ => .nothing

/-- The series of the allocations made by transactions that commit. -/
def allocations (moves : List (ℕ × Move)) : List Series :=
  (Journal.along step entry ({} : Db) {} moves).kept

def Db.journal (s : Db) : Journal Series where
  opened t := (s.tx t).issued.map (·.1)
  kept := s.issued.map (·.1)

theorem Db.journal_setTx (s : Db) (t : ℕ) (x : Tx) : (s.setTx t x).journal =
    { s.journal with opened := Function.update s.journal.opened t (x.issued.map (·.1)) } := by
  apply Journal.ext
  · exact Function.comp_update (fun x : Tx => x.issued.map (·.1)) s.tx t x
  · rfl

/-- A transaction whose numbers a move leaves as they were. -/
theorem Db.journal_same (s : Db) (t : ℕ) {x : Tx} (hx : x.issued = (s.tx t).issued) :
    (s.setTx t x).journal = s.journal := by
  have hsame : x.issued.map (·.1) = s.journal.opened t := congrArg (List.map (·.1)) hx
  rw [Db.journal_setTx, hsame, Function.update_eq_self]

theorem Db.journal_close (s : Db) (t : ℕ) : (s.close t).journal = s.journal.enter (.drops t) :=
  s.journal_setTx t {}

theorem journal_step (s : Db) (m : ℕ × Move) :
    (step s m).journal = s.journal.enter (entry s m) := by
  obtain ⟨t, m⟩ := m
  have hhold : ∀ (q : Series) (own : Series → Option ℕ) (value : ℕ),
      (s.hold t q own value).journal = s.journal :=
    fun q own value => s.journal_same t (x := { s.tx t with phase := .holding q value, own := own }) rfl
  unfold step entry
  dsimp only
  cases m with
  | select r =>
      cases (s.tx t).phase with
      | idle =>
          dsimp only
          cases s.visible t r.series with
          | none => exact s.journal_same t rfl
          | some value =>
              dsimp only
              split_ifs
              · exact hhold _ _ _
              · rfl
      | _ => rfl
  | insert =>
      cases (s.tx t).phase with
      | missing q =>
          dsimp only
          split_ifs
          · exact s.journal_close t
          · exact hhold _ _ _
          · rfl
      | _ => rfl
  | increment =>
      cases (s.tx t).phase with
      | holding q value =>
          refine (s.journal_setTx t _).trans ?_
          simp [Journal.enter, Db.journal]
      | _ => rfl
  | commit =>
      cases (s.tx t).phase with
      | idle =>
          have hopened := congrArg Journal.opened (s.journal_close t)
          exact Journal.ext hopened List.map_append
      | _ => rfl
  | rollback => exact s.journal_close t

/-- The numbers that committed are those of the allocations that did. -/
theorem allocations_eq (moves : List (ℕ × Move)) :
    (schedule {} moves).issued.map (·.1) = allocations moves :=
  congrArg Journal.kept (Journal.read_foldl journal_step moves {})

theorem length_numbers (q : Series) (issued : List (Series × ℕ)) :
    (numbers q issued).length = (issued.map (·.1)).count q := by
  rw [numbers, List.length_map, List.count_eq_countP, List.countP_map, List.countP_eq_length_filter]
  simp [Function.comp_def, beq_eq_decide]

/-! ## The printed number -/

theorem toList_pushn (s : String) (c : Char) (n : ℕ) :
    (s.pushn c n).toList = s.toList ++ List.replicate n c := by
  rw [String.pushn_eq_repeat_push]
  induction n with
  | zero => simp [Nat.repeat]
  | succ n ih => simp [Nat.repeat, ih, List.replicate_succ']

/-- The zeros and digits of a number. -/
def unsignedDigits (width n : ℕ) : List Char := List.replicate width '0' ++ Nat.toDigits 10 n

theorem ofDigitChars_unsignedDigits (width n : ℕ) :
    Nat.ofDigitChars 10 (unsignedDigits width n) 0 = n := by
  rw [unsignedDigits, Nat.ofDigitChars_append, Nat.ofDigitChars_replicate_zero, Nat.mul_zero,
    Nat.ofDigitChars_ten_toDigits]

theorem dash_not_mem_unsignedDigits (width n : ℕ) : '-' ∉ unsignedDigits width n := by
  intro hmem
  rcases List.mem_append.1 hmem with hzero | hdigit
  · exact absurd (List.eq_of_mem_replicate hzero) (by decide)
  · exact absurd (Nat.isDigit_of_mem_toDigits (by decide) (by decide) hdigit) (by decide)

theorem toList_padded (width : ℕ) (n : ℤ) : ∃ zeros,
    (padded width n).toList = (if n < 0 then ['-'] else []) ++ unsignedDigits zeros n.natAbs := by
  refine ⟨width - (if n < 0 then "-" else "").length - (toString n.natAbs).length, ?_⟩
  by_cases hn : n < 0
  · simp [padded, hn, toList_pushn, unsignedDigits]
  · simp [padded, hn, toList_pushn, unsignedDigits]

/-- A number is read off its padded text. -/
theorem padded_injective (width : ℕ) : Function.Injective (padded width) := by
  intro n m h
  obtain ⟨zeros, hn⟩ := toList_padded width n
  obtain ⟨zeros', hm⟩ := toList_padded width m
  have hlists := hn.symm.trans ((congrArg String.toList h).trans hm)
  have hdigits : unsignedDigits zeros n.natAbs = unsignedDigits zeros' m.natAbs →
      n.natAbs = m.natAbs := by
    intro heq
    rw [← ofDigitChars_unsignedDigits zeros n.natAbs, heq, ofDigitChars_unsignedDigits]
  by_cases hneg : n < 0 <;> by_cases hneg' : m < 0 <;>
    simp only [hneg, hneg', if_true, if_false, List.nil_append, List.cons_append] at hlists
  · have := hdigits (List.cons.inj hlists).2
    omega
  · exact absurd (hlists ▸ List.mem_cons_self) (dash_not_mem_unsignedDigits _ _)
  · exact absurd (hlists ▸ List.mem_cons_self) (dash_not_mem_unsignedDigits _ _)
  · have := hdigits hlists
    omega

/-- Two texts with one last dash agree on both sides of it. -/
theorem append_cons_inj_of_not_mem {c : Char} {a a' b b' : List Char} (hb : c ∉ b) (hb' : c ∉ b')
    (h : a ++ c :: b = a' ++ c :: b') : a = a' ∧ b = b' := by
  have hnil : ∀ {d b b' : List Char}, c ∉ b → c :: b = d ++ c :: b' → d = [] := by
    intro d b b' hb h
    cases d with
    | nil => rfl
    | cons x d =>
        rw [(List.cons.inj h).2] at hb
        simp at hb
  rcases List.append_eq_append_iff.1 h with ⟨d, rfl, hd⟩ | ⟨d, rfl, hd⟩
  · have := hnil hb hd
    simp_all
  · have := hnil hb' hd
    simp_all

theorem dash_not_mem_padded (width n : ℕ) : '-' ∉ (padded width n).toList := by
  obtain ⟨zeros, hn⟩ := toList_padded width n
  have hpos : ¬ (n : ℤ) < 0 := by omega
  rw [hn, if_neg hpos, List.nil_append]
  exact dash_not_mem_unsignedDigits _ _

theorem toList_referenceNumber (q : Series) (n : ℕ) :
    (referenceNumber q n).toList =
      (q.1.toList ++ '-' :: (padded 4 q.2).toList) ++ '-' :: (padded 4 n).toList := by
  simp [referenceNumber]

/-- No two numbers of the module's series print alike. -/
theorem referenceNumber_injective {kind kind' : Kind} {year year' : ℤ} {n n' : ℕ}
    (h : referenceNumber (refScope kind, year) n = referenceNumber (refScope kind', year') n') :
    refScope kind = refScope kind' ∧ year = year' ∧ n = n' := by
  have hlists := congrArg String.toList h
  rw [toList_referenceNumber, toList_referenceNumber] at hlists
  obtain ⟨hfront, hnumber⟩ := append_cons_inj_of_not_mem (dash_not_mem_padded 4 n)
    (dash_not_mem_padded 4 n') hlists
  have hlength : (refScope kind).toList.length = (refScope kind').toList.length := by
    cases kind <;> cases kind' <;> rfl
  obtain ⟨hscope, hyear⟩ := List.append_inj hfront hlength
  refine ⟨String.toList_inj.1 hscope, ?_, ?_⟩
  · exact padded_injective 4 (String.toList_inj.1 (List.cons.inj hyear).2)
  · exact Int.ofNat.inj (padded_injective 4 (String.toList_inj.1 hnumber))

/-- The committed numbers of a series are `1, …, k` for its `k` committed allocations, and two numbers
that print alike are one. -/
theorem reference_numbers_gapless (moves : List (ℕ × Move)) :
    (∀ q, (numbers q (schedule {} moves).issued).Nodup ∧
      numbers q (schedule {} moves).issued = List.range' 1 ((allocations moves).count q)) ∧
    ∀ (kind kind' : Kind) (year year' : ℤ) (n n' : ℕ),
      referenceNumber (refScope kind, year) n = referenceNumber (refScope kind', year') n' ↔
        refScope kind = refScope kind' ∧ year = year' ∧ n = n' := by
  have hserial : Serial (schedule {} moves) := serial_start.schedule moves
  refine ⟨fun q => ?_, fun kind kind' year year' n n' => ⟨referenceNumber_injective, ?_⟩⟩
  · have hlength : (allocations moves).count q = ((schedule {} moves).last q).getD 0 := by
      rw [← allocations_eq, ← length_numbers, hserial.counts q, List.length_range']
    rw [hlength, hserial.counts q]
    exact ⟨List.nodup_range', rfl⟩
  · rintro ⟨hscope, rfl, rfl⟩
    rw [hscope]

/-- Three transactions number claims of one year; the second is rolled back and the third waits for
the first. -/
example :
    let claim : Allocate := { scope := "reimb", utcYear := 2026 }
    let moves : List (ℕ × Move) := [(0, .select claim), (0, .insert), (2, .select claim),
      (0, .increment), (0, .commit), (1, .select claim), (1, .increment), (1, .rollback),
      (2, .insert), (2, .select claim), (2, .increment), (2, .select claim), (2, .increment),
      (2, .commit)]
    numbers claim.series (schedule {} moves).issued = [1, 2, 3] ∧
      (allocations moves).count claim.series = 3 := by decide +kernel

/-! ## One allocation on its own -/

/-- The counter of a series in the store. -/
def lastValue (sequences : List ReferenceSequence) (q : Series) : Option ℕ :=
  (sequences.find? fun row => row.scope = q.1 ∧ row.year = q.2).map (·.lastValue)

theorem lastValue_map (sequences : List ReferenceSequence) (f : ReferenceSequence → ReferenceSequence)
    (hkey : ∀ row, (f row).scope = row.scope ∧ (f row).year = row.year) (q : Series) :
    lastValue (sequences.map f) q =
      (sequences.find? fun row => row.scope = q.1 ∧ row.year = q.2).map fun row =>
        (f row).lastValue := by
  simp [lastValue, List.find?_map, Function.comp_def, hkey]

/-- The store's allocation advances the counter of its series by one and prints the number. -/
theorem lastValue_allocateReferenceNumber (sequences : List ReferenceSequence) (q : Series) :
    let n := (lastValue sequences q).getD 0 + 1
    (allocateReferenceNumber sequences q.1 q.2).1 = referenceNumber q n ∧
      lastValue (allocateReferenceNumber sequences q.1 q.2).2 =
        Function.update (lastValue sequences) q (some n) := by
  refine ⟨rfl, ?_⟩
  funext r
  unfold allocateReferenceNumber
  simp only
  split_ifs with hany
  · rw [lastValue_map _ _ (by intro row; split_ifs <;> exact ⟨rfl, rfl⟩)]
    by_cases hr : r = q
    · subst hr
      rw [Function.update_self, lastValue]
      cases hfind : sequences.find? fun row => row.scope = r.1 ∧ row.year = r.2 with
      | none =>
          rw [List.any_eq_true] at hany
          obtain ⟨row, hrow, hkey⟩ := hany
          exact absurd hkey (List.find?_eq_none.1 hfind row hrow)
      | some row =>
          have hkey := List.find?_some hfind
          simp_all
    · rw [Function.update_of_ne hr, lastValue]
      cases hfind : sequences.find? fun row => row.scope = r.1 ∧ row.year = r.2 with
      | none => rfl
      | some row =>
          have hkey := List.find?_some hfind
          rw [decide_eq_true_eq] at hkey
          have hother : ¬ (row.scope = q.1 ∧ row.year = q.2) := by
            rintro ⟨hscope, hyear⟩
            exact hr (Prod.ext (hkey.1.symm.trans hscope) (hkey.2.symm.trans hyear))
          simp [hother]
  · have hnone : (sequences.find? fun row => row.scope = q.1 ∧ row.year = q.2) = none := by
      simpa [List.find?_eq_none] using hany
    by_cases hr : r = q
    · subst hr
      rw [Function.update_self, lastValue, lastValue, List.find?_append, hnone]
      simp
    · have hother : ¬ (q.1 = r.1 ∧ q.2 = r.2) := fun h => hr (Prod.ext h.1.symm h.2.symm)
      simp [lastValue, List.find?_append, hother, Function.update_of_ne hr]

/-- A transaction alone does what the store's allocation does. -/
theorem schedule_alone {sequences : List ReferenceSequence} (a : Allocate)
    (hlast : s.last = lastValue sequences) (hfree : s.lock a.series = none) (hnew : s.tx t = {}) :
    let done := schedule s [(t, .select a), (t, .insert), (t, .increment), (t, .commit)]
    let allocated := allocateReferenceNumber sequences a.series.1 a.series.2
    done.last = lastValue allocated.2 ∧
      ∃ n, done.issued = s.issued ++ [(a.series, n)] ∧ referenceNumber a.series n = allocated.1 := by
  obtain ⟨htext, hnext⟩ := lastValue_allocateReferenceNumber sequences a.series
  have hvisible : ∀ (n : ℕ) (r : Series),
      (Function.update (fun _ => none) a.series (some n) r <|> s.last r) =
        Function.update s.last a.series (some n) r := by
    intro n r
    by_cases hr : r = a.series
    · subst hr
      simp
    · simp [Function.update_of_ne hr]
  simp only at htext hnext ⊢
  rw [htext, hnext, ← hlast]
  cases hrow : s.last a.series with
  | none =>
      refine ⟨funext fun r => ?_, 1, ?_, rfl⟩
      · simpa [schedule, step, Db.visible, Db.hold, Db.setTx, Db.close, hnew, hfree, hrow, Db.free]
          using hvisible 1 r
      · simp [schedule, step, Db.visible, Db.hold, Db.setTx, Db.close, hnew, hfree, hrow, Db.free]
  | some value =>
      refine ⟨funext fun r => ?_, value + 1, ?_, rfl⟩
      · simpa [schedule, step, Db.visible, Db.hold, Db.setTx, Db.close, hnew, hfree, hrow, Db.free]
          using hvisible (value + 1) r
      · simp [schedule, step, Db.visible, Db.hold, Db.setTx, Db.close, hnew, hfree, hrow, Db.free]

end OfficeConnect.Reimbursement.Numbering
