import OfficeConnect.Core.Base
import OfficeConnect.Ingest.Values
import Mathlib.Algebra.BigOperators.Intervals

/-!
# The login throttle

Failed logins are counted by account and by address.  From the threshold on each failure closes its
keys for a delay that doubles up to a ceiling; a login that succeeds clears them.  Instants are in
milliseconds, as the keys expire, and delays in seconds.
-/

namespace OfficeConnect.Auth

open Finset

/-! ## Settings and keys -/

structure ThrottleSettings where
  threshold : ℤ := 5
  backoffBaseSeconds : ℤ := 1
  backoffCeilingSeconds : ℤ := 300
  windowSeconds : ℤ := 900
deriving DecidableEq, Repr

def ThrottleSettings.backoffSeconds (settings : ThrottleSettings) (fails : ℕ) : ℤ :=
  if (fails : ℤ) < settings.threshold then 0
  else min (settings.backoffBaseSeconds * 2 ^ ((fails : ℤ) - settings.threshold).toNat)
    settings.backoffCeilingSeconds

inductive ThrottleKey where
  | acct (digest : String)
  | ip (ip : String)
deriving DecidableEq, Repr

/-- The keys of a login; an identifier is hashed without its spaces and its case. -/
def throttleKeys (digest casefold : String → String) (identifier : String) (ip : Option String) :
    List ThrottleKey :=
  .acct (digest (casefold (Ingest.strip identifier))) ::
    if blank ip then [] else [.ip (ip.getD "")]

/-! ## The keys in Redis -/

/-- A sliding counter; it has no expiry between its first `INCR` and its `EXPIRE`. -/
structure Counter where
  fails : ℕ
  expiresAt : Option ℤ := none
deriving DecidableEq, Repr

structure Throttle (κ : Type) where
  counters : κ → Option Counter := fun _ => none
  untils : κ → Option ℤ := fun _ => none

structure ThrottleDecision where
  allowed : Bool
  retryAfter : ℤ
deriving DecidableEq, Repr

/-- Blocked while a key has time left, which is rounded up to seconds. -/
def throttleDecision (ttls : List ℤ) : ThrottleDecision :=
  let retry := ttls.foldl
    (fun retry pttl => if 0 < pttl then max retry ((pttl + 999) / 1000) else retry) 0
  { allowed := retry = 0, retryAfter := retry }

namespace Throttle

variable {κ : Type} [DecidableEq κ]

/-- The counter, unless it has expired. -/
def counter (t : Throttle κ) (now : ℤ) (key : κ) : Option Counter :=
  (t.counters key).filter fun c => ∀ e ∈ c.expiresAt, now < e

/-- `PTTL` of `key:until`; a missing key answers −2. -/
def pttl (t : Throttle κ) (now : ℤ) (key : κ) : ℤ :=
  match t.untils key with
  | none => -2
  | some u => if now < u then u - now else -2

/-- `INCR`, which keeps an expiry. -/
def incr (now : ℤ) (key : κ) (t : Throttle κ) : ℕ × Throttle κ :=
  let c := (t.counter now key).getD { fails := 0 }
  (c.fails + 1,
    { t with counters := Function.update t.counters key (some { c with fails := c.fails + 1 }) })

/-- `EXPIRE`, which leaves a missing key missing. -/
def expire (now : ℤ) (key : κ) (seconds : ℤ) (t : Throttle κ) : Throttle κ :=
  { t with
    counters := Function.update t.counters key ((t.counter now key).map fun c =>
      { c with expiresAt := some (now + 1000 * seconds) }) }

/-- `SET key:until "1" EX seconds`. -/
def block (now : ℤ) (key : κ) (seconds : ℤ) (t : Throttle κ) : Throttle κ :=
  { t with untils := Function.update t.untils key (some (now + 1000 * seconds)) }

def check (now : ℤ) (keys : List κ) (t : Throttle κ) : ThrottleDecision :=
  throttleDecision (keys.map fun key => t.pttl now key)

/-- One turn of the loop of `register_failure`. -/
def fail (settings : ThrottleSettings) (now : ℤ) (t : Throttle κ) (key : κ) : Throttle κ :=
  let (fails, t) := t.incr now key
  let t := t.expire now key settings.windowSeconds
  let delay := settings.backoffSeconds fails
  if 0 < delay then t.block now key delay else t

def registerFailure (settings : ThrottleSettings) (now : ℤ) (keys : List κ) (t : Throttle κ) :
    Throttle κ := keys.foldl (fail settings now) t

def reset (keys : List κ) (t : Throttle κ) : Throttle κ :=
  { counters := fun key => if key ∈ keys then none else t.counters key
    untils := fun key => if key ∈ keys then none else t.untils key }

end Throttle

/-! ## What a caller is told -/

section Decisions

variable {κ : Type} {t : Throttle κ} {now : ℤ}

end Decisions


/-! ## The backoff -/

section Backoff

/-- The seconds a key stays closed after so many failures. -/
def ThrottleSettings.delay (settings : ThrottleSettings) (fails : ℕ) : ℤ :=
  max 0 (settings.backoffSeconds fails)

variable (settings : ThrottleSettings)

end Backoff

/-! ## The failures that count -/

section Failures

variable {κ : Type} {settings : ThrottleSettings} {t : Throttle κ} {now last : ℤ} {key k : κ}
  {m n : ℕ} {keys : List κ}

/-- The failures the next one adds to. -/
def Throttle.count (t : Throttle κ) (now : ℤ) (key : κ) : ℕ :=
  ((t.counter now key).getD { fails := 0 }).fails

/-- At least `m` failures of the key count, the last of them at this instant, and its delay runs. -/
structure Tracks (settings : ThrottleSettings) (key : κ) (m : ℕ) (last : ℤ) (t : Throttle κ) :
    Prop where
  counter : ∃ n ≥ m, t.counters key =
    some { fails := n, expiresAt := some (last + 1000 * settings.windowSeconds) }
  closed : 0 < settings.delay m → ∃ u ∈ t.untils key, last + 1000 * settings.delay m ≤ u

theorem Tracks.count (h : Tracks settings key m last t)
    (hlive : now < last + 1000 * settings.windowSeconds) : m ≤ t.count now key := by
  obtain ⟨n, hn, hcounter⟩ := h.counter
  have hlives : t.counter now key =
      some { fails := n, expiresAt := some (last + 1000 * settings.windowSeconds) } := by
    rw [Throttle.counter, hcounter]
    exact Option.filter_eq_some_iff.2 ⟨rfl, by simpa using hlive⟩
  rw [Throttle.count, hlives]
  exact hn

variable [DecidableEq κ]

theorem Tracks.reset (h : Tracks settings key m last t) (hkey : key ∉ keys) :
    Tracks settings key m last (t.reset keys) :=
  ⟨by simpa only [Throttle.reset, if_neg hkey] using h.counter,
    by simpa only [Throttle.reset, if_neg hkey] using h.closed⟩

end Failures

end OfficeConnect.Auth
