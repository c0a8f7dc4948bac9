import OfficeConnect.Core.Decimal
import OfficeConnect.Reimbursement.Recompute
import OfficeConnect.Reimbursement.SubmitRace

/-!
# The itinerary table

The wizard writes the whole leg table at once.  A body row with an id is written into that leg, a row
without one into a new leg, and positions are those of the body; so the claim's live legs are the
body, row for row, exactly when no id comes twice.
-/

namespace OfficeConnect.Reimbursement

open Lib

/-! ## The request -/

/-- One itinerary row of the body. -/
structure LegBody where
  id : Option ℕ := none
  legDate : Option Day := none
  place : Option String := none
  destinationRegionCode : Option String := none
  timeDepart : Option String := none
  timeArrive : Option String := none
  transportMode : Option TransportMode := none
  fare : Option ℚ := none
  lodgingProvided : Bool := false
  mealsProvided : Bool := false
deriving DecidableEq

/-- `^\d{2}:\d{2}$`. -/
def clockText (s : String) : Bool :=
  match s.toList with
  | [a, b, ':', c, d] => [a, b, c, d].all fun x => (Ingest.digit? x).isSome
  | _ => false

def LegBody.Accepted (row : LegBody) : Prop :=
  (∀ s ∈ row.place, s.length ≤ 500) ∧ (∀ s ∈ row.destinationRegionCode, s.length ≤ 10) ∧
    (∀ s ∈ row.timeDepart, clockText s) ∧ (∀ s ∈ row.timeArrive, clockText s) ∧
    ∀ q ∈ row.fare, 0 ≤ q

instance (row : LegBody) : Decidable row.Accepted :=
  inferInstanceAs (Decidable (_ ∧ _ ∧ _ ∧ _ ∧ _))

/-- What the schema lets through. -/
def LegsAccepted (body : List LegBody) : Prop := body.length ≤ 50 ∧ ∀ row ∈ body, row.Accepted

instance (body : List LegBody) : Decidable (LegsAccepted body) :=
  inferInstanceAs (Decidable (_ ∧ _))

/-- The columns a row writes; the fare is quantized. -/
def LegBody.stored (row : LegBody) : LegInputs :=
  { legDate := row.legDate
    place := row.place
    destinationRegionCode := row.destinationRegionCode
    timeDepart := row.timeDepart
    timeArrive := row.timeArrive
    transportMode := row.transportMode
    fare := row.fare.map toMoney
    lodgingProvided := row.lodgingProvided
    mealsProvided := row.mealsProvided }

def LegBody.leg (row : LegBody) : LegIn := { id := row.id, inputs := row.stored }

def unprocessable : Raised := .api 422 "validation_error" "Request validation failed."

/-- `PUT /claims/{id}/legs`. -/
def Api.replaceLegs (env : Env) (claimId actor : ℕ) (body : List LegBody) (σ : Store) :
    Except Raised Store := do
  refuse (¬ LegsAccepted body) unprocessable
  Reimbursement.replaceLegs env
    { claimId := claimId, actorUserId := actor, legs := body.map LegBody.leg } σ

/-! ## Where the rows go -/

/-- The legs a body writes, in order: its own ids, and from `next` on the ids of the new legs. -/
def slots : ℕ → List LegIn → List ℕ
  | _, [] => []
  | next, row :: rest =>
      match row.id with
      | none => next :: slots (next + 1) rest
      | some id => id :: slots next rest

/-- The row a position of the body leaves in the table. -/
def LegIn.written (row : LegIn) (claimId : ℕ) (pos : ℤ) : Leg :=
  { claimId := claimId, seq := pos, inputs := row.inputs }

section

variable {claimId next : ℕ} {live : List ℕ} {body : List LegIn} {pos : ℤ} {legs legs' : List Leg}

theorem mem_slots {n : ℕ} : n ∈ slots next body →
    n ∈ body.filterMap (·.id) ∨ next ≤ n := by
  induction body generalizing next with
  | nil => simp [slots]
  | cons row rest ih =>
      cases hid : row.id with
      | none =>
          rw [slots, hid, List.filterMap_cons_none hid]
          intro hn
          rcases List.mem_cons.1 hn with rfl | hn
          · exact .inr le_rfl
          · rcases ih hn with hmem | hle
            · exact .inl hmem
            · exact .inr (by omega)
      | some id =>
          rw [slots, hid, List.filterMap_cons_some hid]
          intro hn
          rcases List.mem_cons.1 hn with rfl | hn
          · exact .inl (by simp)
          · rcases ih hn with hmem | hle
            · exact .inl (List.mem_cons_of_mem _ hmem)
            · exact .inr hle

theorem mem_slots_of_id {n : ℕ} : n ∈ body.filterMap (·.id) → n ∈ slots next body := by
  induction body generalizing next with
  | nil => simp
  | cons row rest ih =>
      cases hid : row.id with
      | none =>
          rw [slots, hid, List.filterMap_cons_none hid]
          exact fun hn => List.mem_cons_of_mem _ (ih hn)
      | some id =>
          rw [slots, hid, List.filterMap_cons_some hid]
          intro hn
          rcases List.mem_cons.1 hn with rfl | hn
          · exact List.mem_cons_self
          · exact List.mem_cons_of_mem _ (ih hn)

/-- Distinct ids among the rows in the table give distinct slots. -/
theorem slots_nodup (hids : (body.filterMap (·.id)).Nodup)
    (hold : ∀ id ∈ body.filterMap (·.id), id < next) : (slots next body).Nodup := by
  induction body generalizing next with
  | nil => simp [slots]
  | cons row rest ih =>
      cases hid : row.id with
      | none =>
          rw [List.filterMap_cons_none hid] at hids hold
          rw [slots, hid, List.nodup_cons]
          refine ⟨fun hmem => ?_, ih hids fun id hm => (hold id hm).trans (Nat.lt_succ_self _)⟩
          rcases mem_slots hmem with hm | hle
          · exact absurd (hold next hm) (lt_irrefl _)
          · omega
      | some id =>
          rw [List.filterMap_cons_some hid] at hids hold
          obtain ⟨hfresh, hids⟩ := List.nodup_cons.1 hids
          rw [slots, hid, List.nodup_cons]
          refine ⟨fun hmem => ?_, ih hids fun n hm => hold n (List.mem_cons_of_mem _ hm)⟩
          rcases mem_slots hmem with hm | hle
          · exact hfresh hm
          · exact absurd (hold id (by simp)) (by omega)

theorem slots_keeps (next : ℕ) (body : List LegIn) :
    List.Forall₂ (fun row s => ∀ id, row.id = some id → s = id) body (slots next body) := by
  induction body generalizing next with
  | nil => exact .nil
  | cons row rest ih =>
      cases hid : row.id with
      | none =>
          rw [slots, hid]
          refine .cons (fun id hsome => ?_) (ih _)
          rw [hid] at hsome
          cases hsome
      | some id =>
          rw [slots, hid]
          exact .cons (fun id' hsome => Option.some.inj (hid.symm.trans hsome)) (ih _)

theorem length_slots (next : ℕ) (body : List LegIn) :
    (slots next body).length = body.length := by
  induction body generalizing next with
  | nil => rfl
  | cons row rest ih =>
      cases hid : row.id with
      | none => rw [slots, hid, List.length_cons, ih, List.length_cons]
      | some id => rw [slots, hid, List.length_cons, ih, List.length_cons]

/-- A body is written only into live legs. -/
theorem writeLegs_live (h : writeLegs claimId live body pos legs = .ok legs') :
    ∀ id ∈ body.filterMap (·.id), id ∈ live := by
  induction body generalizing pos legs with
  | nil => simp
  | cons row rest ih =>
      cases hid : row.id with
      | none =>
          rw [List.filterMap_cons_none hid]
          simp only [writeLegs, hid] at h
          exact ih h
      | some id =>
          rw [List.filterMap_cons_some hid]
          simp only [writeLegs, hid, bind_eq_ok, refuse_eq_ok, not_not] at h
          obtain ⟨-, hlive, h⟩ := h
          intro n hn
          rcases List.mem_cons.1 hn with rfl | hn
          · exact hlive
          · exact ih h n hn

/-- Rows outside the slots are as they were, and the table grows by the slots past its end. -/
theorem writeLegs_frame (h : writeLegs claimId live body pos legs = .ok legs')
    (hlive : ∀ id ∈ live, id < legs.length) :
    legs.length ≤ legs'.length ∧
      (∀ n < legs.length, n ∉ slots legs.length body → legs'[n]? = legs[n]?) ∧
      ∀ n < legs'.length, legs.length ≤ n → n ∈ slots legs.length body := by
  induction body generalizing pos legs with
  | nil =>
      obtain rfl := Except.ok.inj h
      exact ⟨le_rfl, fun n _ _ => rfl, fun n hn hle => absurd hn (by omega)⟩
  | cons row rest ih =>
      cases hid : row.id with
      | none =>
          simp only [writeLegs, hid] at h
          have hlen : (legs ++ [row.written claimId pos]).length = legs.length + 1 := by simp
          obtain ⟨hgrow, hkept, hnew⟩ := ih h fun id hm => (hlive id hm).trans (by simp)
          rw [slots, hid]
          simp only [LegIn.written] at hlen
          rw [hlen] at hgrow hkept hnew
          refine ⟨by omega, fun n hn hout => ?_, fun n hn hle => ?_⟩
          · rw [List.mem_cons, not_or] at hout
            rw [hkept n (by omega) hout.2, List.getElem?_append_left hn]
          · rcases Nat.eq_or_lt_of_le hle with rfl | hlt
            · simp
            · exact List.mem_cons_of_mem _ (hnew n hn hlt)
      | some id =>
          simp only [writeLegs, hid, bind_eq_ok, refuse_eq_ok, not_not] at h
          obtain ⟨-, -, h⟩ := h
          obtain ⟨hgrow, hkept, hnew⟩ := ih h (by simpa using hlive)
          rw [slots, hid]
          rw [List.length_modify] at hgrow hkept hnew
          refine ⟨hgrow, fun n hn hout => ?_, fun n hn hle =>
            List.mem_cons_of_mem _ (hnew n hn hle)⟩
          rw [List.mem_cons, not_or] at hout
          rw [hkept n hn hout.2, List.getElem?_modify_ne _ _ (Ne.symm hout.1)]

/-- A new row leaves the live legs as they are. -/
theorem live_append {live : List ℕ} (leg : Leg)
    (hlive : ∀ id ∈ live, ∃ leg, legs[id]? = some leg ∧ leg.claimId = claimId ∧
      leg.deleted = false) :
    ∀ id ∈ live, ∃ leg', (legs ++ [leg])[id]? = some leg' ∧ leg'.claimId = claimId ∧
      leg'.deleted = false := by
  intro id hid
  obtain ⟨leg', hleg, hown⟩ := hlive id hid
  rw [List.getElem?_append_left (List.getElem?_eq_some_iff.1 hleg).1]
  exact ⟨leg', hleg, hown⟩

/-- An edit that leaves owner and life alone leaves the live legs live. -/
theorem live_modify {live : List ℕ} {f : Leg → Leg} (edited : ℕ)
    (hf : ∀ leg, (f leg).claimId = leg.claimId ∧ (f leg).deleted = leg.deleted)
    (hlive : ∀ id ∈ live, ∃ leg, legs[id]? = some leg ∧ leg.claimId = claimId ∧
      leg.deleted = false) :
    ∀ id ∈ live, ∃ leg, (legs.modify edited f)[id]? = some leg ∧ leg.claimId = claimId ∧
      leg.deleted = false := by
  intro id hid
  obtain ⟨leg, hleg, hclaim, hdeleted⟩ := hlive id hid
  by_cases hedited : edited = id
  · subst hedited
    exact ⟨f leg, getElem?_modify_self f hleg, (hf leg).1.trans hclaim, (hf leg).2.trans hdeleted⟩
  · exact ⟨leg, by rw [List.getElem?_modify_ne _ _ hedited, hleg], hclaim, hdeleted⟩

/-- Where no slot comes twice, each holds what its row of the body says. -/
theorem writeLegs_slots (h : writeLegs claimId live body pos legs = .ok legs')
    (hlive : ∀ id ∈ live, ∃ leg, legs[id]? = some leg ∧ leg.claimId = claimId ∧
      leg.deleted = false)
    (hslots : (slots legs.length body).Nodup) (i : ℕ) (row : LegIn) (hrow : body[i]? = some row) :
    ∃ s, (slots legs.length body)[i]? = some s ∧ (∀ id, row.id = some id → s = id) ∧
      legs'[s]? = some (row.written claimId (pos + i)) := by
  have hlt : ∀ id ∈ live, id < legs.length := fun id hid => by
    obtain ⟨leg, hleg, -⟩ := hlive id hid
    exact (List.getElem?_eq_some_iff.1 hleg).1
  induction body generalizing pos legs i with
  | nil => simp at hrow
  | cons first rest ih =>
      cases hid : first.id with
      | none =>
          simp only [writeLegs, hid] at h
          change writeLegs claimId live rest (pos + 1) (legs ++ [first.written claimId pos]) = _ at h
          rw [slots, hid, List.nodup_cons] at hslots
          rw [slots, hid]
          have hlen : (legs ++ [first.written claimId pos]).length = legs.length + 1 := by simp
          have hlive' := live_append (first.written claimId pos) hlive
          have hlt' : ∀ id ∈ live, id < (legs ++ [first.written claimId pos]).length :=
            fun id hm => (hlt id hm).trans (by simp)
          cases i with
          | zero =>
              obtain rfl := Option.some.inj hrow
              obtain ⟨-, hkept, -⟩ := writeLegs_frame h hlt'
              refine ⟨legs.length, rfl, fun id hsome => ?_, ?_⟩
              · rw [hid] at hsome
                cases hsome
              · have hout : legs.length ∉ slots (legs ++ [first.written claimId pos]).length rest := by
                  rw [hlen]
                  exact hslots.1
                rw [hkept _ (by simp) hout]
                simp [LegIn.written]
          | succ i =>
              obtain ⟨s, hs, hkeep, hat⟩ := ih h hlive' (by rw [hlen]; exact hslots.2) i hrow hlt'
              rw [hlen] at hs
              refine ⟨s, hs, hkeep, ?_⟩
              rw [hat, Nat.cast_succ, add_assoc, add_comm (1 : ℤ)]
      | some id =>
          simp only [writeLegs, hid, bind_eq_ok, refuse_eq_ok, not_not] at h
          obtain ⟨-, hidlive, h⟩ := h
          rw [slots, hid, List.nodup_cons] at hslots
          rw [slots, hid]
          set f : Leg → Leg := fun old => { old with
            seq := pos
            inputs := first.inputs
            perDiemPct := none
            perDiemAmount := none
            legTotal := none } with hf
          have hlen : (legs.modify id f).length = legs.length := List.length_modify ..
          have hlive' := live_modify id (f := f) (fun leg => ⟨rfl, rfl⟩) hlive
          have hlt' : ∀ n ∈ live, n < (legs.modify id f).length := by
            rw [hlen]
            exact hlt
          cases i with
          | zero =>
              obtain rfl := Option.some.inj hrow
              obtain ⟨-, hkept, -⟩ := writeLegs_frame h hlt'
              obtain ⟨leg, hleg, hclaim, hdeleted⟩ := hlive id hidlive
              refine ⟨id, rfl, fun n hsome => ?_, ?_⟩
              · rw [hid] at hsome
                exact Option.some.inj hsome
              · rw [hkept id (hlt' id hidlive) (by rw [hlen]; exact hslots.1),
                  getElem?_modify_self f hleg, hf]
                simp [LegIn.written, hclaim, hdeleted]
          | succ i =>
              obtain ⟨s, hs, hkeep, hat⟩ := ih h hlive' (by rw [hlen]; exact hslots.2) i hrow hlt'
              rw [hlen] at hs
              refine ⟨s, hs, hkeep, ?_⟩
              rw [hat, Nat.cast_succ, add_assoc, add_comm (1 : ℤ)]

end

/-! ## The rows the itinerary query returns -/

section

variable {σ σ' : Store} {i : ℕ}

/-- Rows with increasing positions are what the query returns as soon as they are its rows. -/
theorem claimLegs_eq {rows : List (ℕ × Leg)} (hseq : rows.Pairwise fun a b => a.2.seq < b.2.seq)
    (hmem : ∀ id leg, (id, leg) ∈ rows ↔ (id, leg) ∈ σ.claimLegs i) : σ.claimLegs i = rows := by
  refine List.Perm.eq_of_pairwise ?_ pairwise_claimLegs (hseq.imp fun hlt => .inl hlt) ?_
  · rintro ⟨n, a⟩ ⟨m, b⟩ ha hb hab hba
    obtain rfl : n = m := by omega
    have hrow := (mem_claimLegs.1 ha).1
    exact Prod.ext rfl (Option.some.inj (hrow.symm.trans (mem_claimLegs.1 ((hmem n b).1 hb)).1))
  · refine (List.perm_ext_iff_of_nodup nodup_claimLegs.of_map ?_).2 fun l => (hmem l.1 l.2).symm
    exact hseq.imp fun hlt heq => absurd (congrArg (·.2.seq) heq) hlt.ne

end

/-! ## The table after a body -/

/-- The rows a body leaves, in its order. -/
def bodyRows (claimId next : ℕ) (body : List LegIn) : List (ℕ × Leg) :=
  (slots next body).zip (body.mapIdx fun i row => row.written claimId (1 + i))

section

variable {claimId next : ℕ} {body : List LegIn}

theorem getElem?_bodyRows {i s : ℕ} {leg : Leg} :
    (bodyRows claimId next body)[i]? = some (s, leg) ↔
      (slots next body)[i]? = some s ∧
        ∃ row, body[i]? = some row ∧ row.written claimId (1 + i) = leg := by
  rw [bodyRows, List.getElem?_zip_eq_some, List.getElem?_mapIdx, Option.map_eq_some_iff]

theorem length_bodyRows : (bodyRows claimId next body).length = body.length := by
  rw [bodyRows, List.length_zip, length_slots, List.length_mapIdx, Nat.min_self]

theorem bodyRows_ids : (bodyRows claimId next body).map (·.1) = slots next body :=
  List.map_fst_zip (by rw [length_slots, List.length_mapIdx])

theorem bodyRows_legs : (bodyRows claimId next body).map (·.2) =
    body.mapIdx fun i row => row.written claimId (1 + i) :=
  List.map_snd_zip (by rw [length_slots, List.length_mapIdx])

theorem pairwise_bodyRows :
    (bodyRows claimId next body).Pairwise fun a b => a.2.seq < b.2.seq := by
  rw [List.pairwise_iff_getElem]
  intro i j hi hj hij
  obtain ⟨-, row, -, hrow⟩ := getElem?_bodyRows.1 (List.getElem?_eq_getElem hi)
  obtain ⟨-, row', -, hrow'⟩ := getElem?_bodyRows.1 (List.getElem?_eq_getElem hj)
  have hi' := congrArg Leg.seq hrow
  have hj' := congrArg Leg.seq hrow'
  simp only [LegIn.written, List.get_eq_getElem] at hi' hj'
  omega

end

section

variable {env : Env} {σ σ' : Store} {r : ReplaceLegs}

/-- Rows with distinct ids become the claim's live legs. -/
theorem claimLegs_replaceLegs (h : replaceLegs env r σ = .ok σ')
    (hids : (r.legs.filterMap (·.id)).Nodup) :
    σ'.claimLegs r.claimId = bodyRows r.claimId σ.legs.length r.legs := by
  simp only [replaceLegs, bind_eq_ok, pure_eq_ok] at h
  obtain ⟨-, -, legs, hwrite, rfl⟩ := h
  set live := (σ.claimLegs r.claimId).map (·.1) with hlivedef
  have hlive : ∀ id ∈ live, ∃ leg, σ.legs[id]? = some leg ∧ leg.claimId = r.claimId ∧
      leg.deleted = false := by
    intro id hid
    obtain ⟨⟨_, leg⟩, hleg, rfl⟩ := List.mem_map.1 hid
    exact ⟨leg, mem_claimLegs.1 hleg⟩
  have hlt : ∀ id ∈ live, id < σ.legs.length := fun id hid => by
    obtain ⟨leg, hleg, -⟩ := hlive id hid
    exact (List.getElem?_eq_some_iff.1 hleg).1
  have hkept := writeLegs_live hwrite
  have hslots := slots_nodup hids fun id hid => hlt id (hkept id hid)
  obtain ⟨hgrow, hframe, hnew⟩ := writeLegs_frame hwrite hlt
  have hbody := writeLegs_slots hwrite hlive hslots
  refine claimLegs_eq pairwise_bodyRows fun id leg => ?_
  rw [mem_claimLegs, List.getElem?_mapIdx, Option.map_eq_some_iff]
  constructor
  · intro hmem
    obtain ⟨i, hi⟩ := List.mem_iff_getElem?.1 hmem
    obtain ⟨hslot, row, hrow, rfl⟩ := getElem?_bodyRows.1 hi
    obtain ⟨s, hs, hid, hat⟩ := hbody i row hrow
    obtain rfl := Option.some.inj (hslot.symm.trans hs)
    refine ⟨⟨_, hat, if_neg ?_⟩, rfl, rfl⟩
    rintro ⟨hin, hout⟩
    rcases mem_slots (List.mem_of_getElem? hslot) with hmem | hle
    · exact hout hmem
    · exact absurd (hlt id hin) (by omega)
  · rintro ⟨⟨old, hold, rfl⟩, hclaim, hdeleted⟩
    by_cases hdrop : id ∈ live ∧ id ∉ r.legs.filterMap (·.id)
    · rw [if_pos hdrop] at hdeleted
      cases hdeleted
    · rw [if_neg hdrop] at hclaim hdeleted ⊢
      have hin : id ∈ slots σ.legs.length r.legs := by
        by_contra hout
        have hidlt : id < σ.legs.length := by
          by_contra hle
          exact hout (hnew id (List.getElem?_eq_some_iff.1 hold).1 (by omega))
        have hrow : σ.legs[id]? = some old := (hframe id hidlt hout).symm.trans hold
        have hmem : id ∈ live := List.mem_map_of_mem (mem_claimLegs.2 ⟨hrow, hclaim, hdeleted⟩)
        exact hdrop ⟨hmem, fun hin => hout (mem_slots_of_id hin)⟩
      obtain ⟨i, hi⟩ := List.mem_iff_getElem?.1 hin
      obtain ⟨row, hrow⟩ : ∃ row, r.legs[i]? = some row := by
        refine ⟨_, List.getElem?_eq_getElem ?_⟩
        rw [← length_slots σ.legs.length]
        exact (List.getElem?_eq_some_iff.1 hi).1
      obtain ⟨s, hs, -, hat⟩ := hbody i row hrow
      obtain rfl := Option.some.inj (hi.symm.trans hs)
      obtain rfl := Option.some.inj (hold.symm.trans hat)
      exact List.mem_of_getElem? (getElem?_bodyRows.2 ⟨hi, row, hrow, rfl⟩)

end

/-! ## What a body stores -/

/-- The claim's live legs are the body, row for row and in its order, and the others are gone. -/
structure StoresBody (σ σ' : Store) (claimId : ℕ) (body : List LegBody) : Prop where
  count : (σ'.claimLegs claimId).length = body.length
  positions : (σ'.claimLegs claimId).map (·.2.seq) =
    (List.range body.length).map fun i : ℕ => (i + 1 : ℤ)
  fields : (σ'.claimLegs claimId).map (·.2.inputs) = body.map LegBody.stored
  keeps : List.Forall₂ (fun row id' => ∀ id, row.id = some id → id' = id) body
    ((σ'.claimLegs claimId).map (·.1))
  dropped : ∀ id leg, (id, leg) ∈ σ.claimLegs claimId → id ∉ body.filterMap (·.id) →
    ∃ leg', σ'.legs[id]? = some leg' ∧ leg'.deleted = true

section

variable {σ σ' : Store} {claimId : ℕ} {body : List LegBody}

/-- Rows that keep their ids have distinct ones: they are ids of the table. -/
theorem StoresBody.ids_nodup (h : StoresBody σ σ' claimId body) :
    (body.filterMap (·.id)).Nodup := by
  have hids : ∀ {rows : List LegBody} {ids : List ℕ},
      List.Forall₂ (fun row id' => ∀ id, row.id = some id → id' = id) rows ids →
        (rows.filterMap (·.id)).Sublist ids := by
    intro rows ids hkeep
    induction hkeep with
    | nil => exact .refl _
    | @cons row id' rows ids hrow _ ih =>
        cases hid : row.id with
        | none =>
            rw [List.filterMap_cons_none hid]
            exact ih.cons _
        | some id =>
            rw [List.filterMap_cons_some hid, hrow id hid]
            exact ih.cons_cons _
  exact nodup_claimLegs.sublist (hids h.keeps)

theorem api_replaceLegs_eq_ok {env : Env} {actor : ℕ} :
    Api.replaceLegs env claimId actor body σ = .ok σ' ↔
      LegsAccepted body ∧ replaceLegs env
        { claimId := claimId, actorUserId := actor, legs := body.map LegBody.leg } σ = .ok σ' := by
  simp only [Api.replaceLegs, bind_eq_ok, refuse_eq_ok, not_not, exists_and_left, exists_const]

theorem filterMap_leg : (body.map LegBody.leg).filterMap (·.id) = body.filterMap (·.id) := by
  rw [List.filterMap_map]
  rfl

/-- The live legs a body leaves out are dropped, whatever ids it repeats. -/
theorem replaceLegs_dropped {env : Env} {r : ReplaceLegs} {id : ℕ} {leg : Leg}
    (h : replaceLegs env r σ = .ok σ') (hlive : (id, leg) ∈ σ.claimLegs r.claimId)
    (hout : id ∉ r.legs.filterMap (·.id)) :
    ∃ leg', σ'.legs[id]? = some leg' ∧ leg'.deleted = true := by
  simp only [replaceLegs, bind_eq_ok, pure_eq_ok] at h
  obtain ⟨-, -, legs, hwrite, rfl⟩ := h
  have hlt : ∀ n ∈ (σ.claimLegs r.claimId).map (·.1), n < σ.legs.length := by
    intro n hn
    obtain ⟨⟨_, old⟩, hold, rfl⟩ := List.mem_map.1 hn
    exact (List.getElem?_eq_some_iff.1 (mem_claimLegs.1 hold).1).1
  have hid := List.mem_map_of_mem (f := Prod.fst) hlive
  obtain ⟨hgrow, -, -⟩ := writeLegs_frame hwrite hlt
  obtain ⟨old, hold⟩ : ∃ old, legs[id]? = some old :=
    ⟨_, List.getElem?_eq_getElem ((hlt id hid).trans_le hgrow)⟩
  refine ⟨{ old with deleted := true }, ?_, rfl⟩
  rw [List.getElem?_mapIdx, hold, Option.map_some, if_pos ⟨hid, hout⟩]

/-- A body is stored as it stands exactly when no id comes twice in it. -/
theorem replaceLegs_storesBody_iff {env : Env} {actor : ℕ}
    (h : Api.replaceLegs env claimId actor body σ = .ok σ') :
    StoresBody σ σ' claimId body ↔ (body.filterMap (·.id)).Nodup := by
  obtain ⟨-, hok⟩ := api_replaceLegs_eq_ok.1 h
  refine ⟨StoresBody.ids_nodup, fun hids => ?_⟩
  have hrows := claimLegs_replaceLegs hok (filterMap_leg.symm ▸ hids)
  refine ⟨?_, ?_, ?_, ?_, fun id leg hlive hout => ?_⟩
  · rw [hrows, length_bodyRows, List.length_map]
  · have hseq := congrArg (List.map Leg.seq) (hrows ▸ bodyRows_legs)
    rw [List.map_map] at hseq
    refine hseq.trans (List.ext_getElem ?_ fun i hi hi' => ?_)
    · simp
    · simp [LegIn.written, add_comm]
  · have hinputs := congrArg (List.map Leg.inputs) (hrows ▸ bodyRows_legs)
    rw [List.map_map] at hinputs
    refine hinputs.trans (List.ext_getElem ?_ fun i hi hi' => ?_)
    · simp
    · simp [LegIn.written, LegBody.leg]
  · rw [hrows, bodyRows_ids]
    have hkeep := slots_keeps σ.legs.length (body.map LegBody.leg)
    exact List.forall₂_map_left_iff.1 hkeep
  · exact replaceLegs_dropped hok hlive (filterMap_leg.symm ▸ hout)

end

/-- The drafted trip's leg moved to the second position, behind a new one. -/
def secondLeg : List LegBody := [{ place := some "Cebu" }, { id := some 0, place := some "Iloilo" }]

theorem replaceLegs_secondLeg : ∃ σ', Api.replaceLegs office 0 1 secondLeg draftedTrip = .ok σ' ∧
    (StoresBody draftedTrip σ' 0 secondLeg ↔ (secondLeg.filterMap (·.id)).Nodup) := by
  obtain ⟨σ', hok, -⟩ := exists_eq_ok (x := Api.replaceLegs office 0 1 secondLeg draftedTrip)
    (fun _ => true) (by decide +kernel)
  exact ⟨σ', hok, replaceLegs_storesBody_iff hok⟩

/-- Two rows of the body address the drafted trip's one leg. -/
def sameLegTwice : List LegBody :=
  [{ id := some 0, place := some "Cebu" }, { id := some 0, place := some "Iloilo" }]

/-- The second row overwrites the first: one leg is left, at position two. -/
theorem sameLegTwice_loses_row : ∃ σ',
    Api.replaceLegs office 0 1 sameLegTwice draftedTrip = .ok σ' ∧
      ¬ StoresBody draftedTrip σ' 0 sameLegTwice := by
  obtain ⟨σ', hok, hone⟩ := exists_eq_ok (x := Api.replaceLegs office 0 1 sameLegTwice draftedTrip)
    (fun σ' => (σ'.claimLegs 0).length = 1) (by decide +kernel)
  refine ⟨σ', hok, fun h => ?_⟩
  have htwo := h.count
  simp only [decide_eq_true_eq] at hone
  rw [hone] at htwo
  cases htwo

end OfficeConnect.Reimbursement
