import OfficeConnect.Reimbursement.FileRoom
import OfficeConnect.Reimbursement.Recompute

/-!
# A live copy shows the claim as it is

Amounts apart, a form prints the trip and the itinerary as the claimant entered them.  Only two calls
change these on a filed claim, and both void its live copies; so in every run each live copy was
printed from the trip and the itinerary that the claim has now.
-/

namespace OfficeConnect.Reimbursement

open Lib Workflow

/-! ## What is printed of a claim beside its amounts -/

structure TripBlock where
  dpoNo : Option String
  dpoDate : Option Day
  purpose : Option String
  destination : Option String
  destinationRegionCode : Option String
  dateDepart : Option Day
  dateReturn : Option Day
  fundSource : Option FundSource
  isWithin50km : Bool
  overnightStay : Bool
deriving DecidableEq, Repr

def Trip.block (t : Trip) : TripBlock :=
  { dpoNo := t.dpoNo
    dpoDate := t.dpoDate
    purpose := t.purpose
    destination := t.destination
    destinationRegionCode := t.destinationRegionCode
    dateDepart := t.dateDepart
    dateReturn := t.dateReturn
    fundSource := t.fundSource
    isWithin50km := t.isWithin50km
    overnightStay := t.overnightStay }

def ClaimBlock.trip (c : ClaimBlock) : TripBlock :=
  { dpoNo := c.dpoNo
    dpoDate := c.dpoDate
    purpose := c.purpose
    destination := c.destination
    destinationRegionCode := c.destinationRegionCode
    dateDepart := c.dateDepart
    dateReturn := c.dateReturn
    fundSource := c.fundSource
    isWithin50km := c.isWithin50km
    overnightStay := c.overnightStay }

/-- The claim's kind, whether the traveller is under contract of service, and the trip. -/
def Claim.printed (c : Claim) : Kind × Bool × TripBlock := (c.kind, c.isJoCos, c.trip.block)

def ClaimBlock.printed (c : ClaimBlock) : Kind × Bool × TripBlock := (c.kind, c.isJoCos, c.trip)

/-- The live legs in order, as the claimant entered them. -/
def Store.itinerary (σ : Store) (i : ℕ) : List (ℤ × LegInputs) :=
  (σ.claimLegs i).map fun l => (l.2.seq, l.2.inputs)

def Context.itinerary (c : Context) : List (ℤ × LegInputs) := c.legs.map fun l => (l.seq, l.inputs)

/-- What a form prints of claim `i` beside its amounts stays. -/
structure FaceKept (i : ℕ) (σ σ' : Store) : Prop where
  row : ∀ claim, σ.claims[i]? = some claim → ∃ claim', σ'.claims[i]? = some claim' ∧
    claim'.printed = claim.printed
  legs : i < σ.claims.length → σ'.itinerary i = σ.itinerary i

section Faces

variable {env : Env} {σ σ₁ σ' : Store} {i j : ℕ} {claim : Claim} {now : Time} {c : Call}
  {legs legs' : List Leg}

theorem FaceKept.refl (i : ℕ) (σ : Store) : FaceKept i σ σ :=
  ⟨fun claim h => ⟨claim, h, rfl⟩, fun _ => rfl⟩

theorem FaceKept.trans (h : FaceKept i σ σ₁) (h' : FaceKept i σ₁ σ') : FaceKept i σ σ' where
  row := by
    intro claim hclaim
    obtain ⟨mid, hmid, hface⟩ := h.row claim hclaim
    obtain ⟨last, hlast, hface'⟩ := h'.row mid hmid
    exact ⟨last, hlast, hface'.trans hface⟩
  legs := by
    intro hlt
    obtain ⟨mid, hmid, -⟩ := h.row _ (List.getElem?_eq_getElem hlt)
    exact (h'.legs (List.getElem?_eq_some_iff.1 hmid).1).trans (h.legs hlt)

theorem itinerary_congr (h : SameLegs σ.legs σ'.legs i) : σ'.itinerary i = σ.itinerary i := by
  rw [Store.itinerary, Store.itinerary, claimLegs_congr h]

/-- Claims with the faces they had, and the legs of the claim untouched. -/
theorem faceKept_of_map (hclaims : σ'.claims.map Claim.printed = σ.claims.map Claim.printed)
    (hlegs : SameLegs σ.legs σ'.legs i) : FaceKept i σ σ' where
  row := by
    intro claim hclaim
    have hface : (σ'.claims.map Claim.printed)[i]? = some claim.printed := by
      rw [hclaims]
      simp [hclaim]
    obtain ⟨claim', hclaim', hsame⟩ : ∃ claim', σ'.claims[i]? = some claim' ∧
        claim'.printed = claim.printed := by simpa using hface
    exact ⟨claim', hclaim', hsame⟩
  legs := fun _ => itinerary_congr hlegs

theorem faceKept_of_eq (hclaims : σ'.claims = σ.claims) (hlegs : σ'.legs = σ.legs) :
    FaceKept i σ σ' := faceKept_of_map (by rw [hclaims]) (.of_eq hlegs)

/-- A new claim, with rows of its own. -/
theorem faceKept_filed (hclaims : σ'.claims = σ.claims ++ [claim])
    (hlegs : OnlyLegsOf σ.claims.length σ.legs σ'.legs) : FaceKept i σ σ' where
  row := by
    intro old hold
    have hlt := (List.getElem?_eq_some_iff.1 hold).1
    exact ⟨old, by rw [hclaims, List.getElem?_append_left hlt, hold], rfl⟩
  legs := fun hlt => itinerary_congr (hlegs.sameLegs hlt.ne)

/-- Pricing a claim writes its totals and the computed columns of its legs. -/
theorem faceKept_computed {other : Option ℚ} (hok : computeClaimTotals env σ j other = .ok σ') :
    FaceKept i σ σ' := by
  obtain ⟨claim, result, hclaim, -, hlegs, -, -⟩ := claims_computed hok
  obtain ⟨_, _, -, -, hσ'⟩ := computeClaimTotals_eq_ok hok
  have hclaims : σ'.claims.map Claim.printed = σ.claims.map Claim.printed := by
    have hnew : σ'.claims = σ.claims.modify j _ := congrArg Store.claims hσ'
    rw [hnew]
    refine map_modify_of_eq (fun c => ?_) _ _
    rfl
  by_cases hij : i = j
  · subst hij
    have hrows : FaceKept i σ { σ' with legs := σ.legs } := faceKept_of_map hclaims (.of_eq rfl)
    refine ⟨hrows.row, fun _ => ?_⟩
    rw [Store.itinerary, claimLegs_priced hlegs, List.map_map]
    rfl
  · exact faceKept_of_map hclaims (hlegs ▸ onlyLegsOf_priced.sameLegs hij)

/-! ## The calls -/

theorem faceKept_claimAction {r : ActionRequest} (hok : claimAction env r σ = .ok σ') :
    FaceKept i σ σ' := by
  obtain ⟨claim, j, inst, σ₁, priced, amount, v, e, inst', dest, returns, ha⟩ :=
    claimAction_acted hok
  have hprepared : FaceKept i σ σ₁ := by
    rcases prepareAction_eq_ok.1 ha.prepared with ⟨-, hrefresh⟩ | ⟨-, rfl, -⟩
    · obtain ⟨σ₂, claim₂, htotals, -, rfl⟩ := refreshForResubmit_eq_ok hrefresh
      exact (faceKept_computed htotals).trans (faceKept_of_eq rfl rfl)
    · exact .refl i σ₁
  refine hprepared.trans ?_
  obtain ⟨claims, history, hmirror, rfl⟩ := ha.performed.result
  rcases hmirror with ⟨-, rfl, -⟩ | ⟨-, holder, -, rfl, -, -⟩
  · exact faceKept_of_eq rfl rfl
  · refine faceKept_of_map (map_modify_of_eq (fun c => ?_) _ _) (.of_eq rfl)
    rfl

theorem faceKept_submitClaim {r : Submit} (hok : submitClaim env r σ = .ok σ') :
    FaceKept i σ σ' := by
  obtain ⟨claim, priced, packet, inst, v, e, inst', dest, entered, hs⟩ := submitClaim_eq_ok hok
  obtain ⟨σ₁, htotals, -, hpacket⟩ := preparePacket_eq_ok hs.prepared
  change packet = _ at hpacket
  have hpriced : FaceKept i σ packet := by
    rw [hpacket]
    exact (faceKept_computed htotals).trans (faceKept_of_eq rfl rfl)
  have hentered : FaceKept i packet entered := by
    rw [hs.store]
    refine faceKept_of_map (map_modify_of_eq (fun c => ?_) _ _) (.of_eq rfl)
    rfl
  refine (hpriced.trans hentered).trans ?_
  obtain ⟨claims, history, hmirror, rfl⟩ := hs.performed.result
  rcases hmirror with ⟨-, rfl, -⟩ | ⟨-, holder, -, rfl, -, -⟩
  · exact faceKept_of_eq rfl rfl
  · refine faceKept_of_map (map_modify_of_eq (fun c => ?_) _ _) (.of_eq rfl)
    rfl

theorem faceKept_createDraft {actor : ℕ} {kind : Kind} {r : ℕ × Store}
    (hok : createDraftClaim env σ actor kind now = .ok r) : FaceKept i σ r.2 := by
  obtain ⟨staff, rfl⟩ := createDraftClaim_eq_ok hok
  exact faceKept_filed rfl onlyLegsOf_self

theorem faceKept_startLiquidation {r : StartLiquidation} (hok : startLiquidation env r σ = .ok σ') :
    FaceKept i σ σ' := by
  simp only [startLiquidation, bind_eq_ok, onConflict_eq_ok, flushClaims_eq_ok, pure_eq_ok] at hok
  obtain ⟨_, -, _, -, _, -, _, -, _, -, ⟨id, σ₁⟩, hdraft, _, ⟨rfl, -⟩, rfl⟩ := hok
  obtain ⟨staff, hr⟩ := createDraftClaim_eq_ok hdraft
  obtain ⟨rfl, rfl⟩ := Prod.mk.inj hr
  exact faceKept_filed (modify_length_append _ _ _) onlyLegsOf_self

theorem faceKept_spawn {r : Spawn} (hok : spawnReimbursement env r σ = .ok σ') :
    FaceKept i σ σ' := by
  simp only [spawnReimbursement, bind_eq_ok, onConflict_eq_ok, flushClaims_eq_ok] at hok
  obtain ⟨⟨source, advanceId⟩, -, ⟨id, σ₁⟩, hdraft, σ₂, ⟨hσ₂, -⟩, htotals⟩ := hok
  obtain ⟨staff, hr⟩ := createDraftClaim_eq_ok hdraft
  obtain ⟨rfl, rfl⟩ := Prod.mk.inj hr
  have hfiled : FaceKept i σ σ₂ := by
    rw [hσ₂]
    refine faceKept_filed (modify_length_append _ _ _) (onlyLegsOf_append fun leg hleg => ?_)
    obtain ⟨l, -, rfl⟩ := List.mem_map.1 hleg
    rfl
  exact hfiled.trans (faceKept_computed htotals)

theorem faceKept_updateCashAdvance {r : UpdateAdvance} (hok : updateCashAdvance env r σ = .ok σ') :
    FaceKept i σ σ' := by
  simp only [updateCashAdvance, bind_eq_ok, flushAdvances_eq_ok] at hok
  obtain ⟨_, -, _, -, _, ⟨rfl, -⟩, hok⟩ := hok
  split_ifs at hok
  · obtain rfl := pure_eq_ok.1 hok
    exact faceKept_of_eq rfl rfl
  · obtain rfl := pure_eq_ok.1 hok
    refine faceKept_of_map ?_ (.of_eq rfl)
    simp only [remirrorDeadline, Store.setAdvance, List.map_map]
    refine List.map_congr_left fun c _ => ?_
    simp only [Function.comp_apply]
    split_ifs <;> rfl

/-- An edit keeps the face of every other claim, and of its own if it changes nothing. -/
theorem faceKept_updateDraftFields {r : DraftEdit} (hok : updateDraftFields env r σ = .ok σ')
    (hclaim : σ.claims[r.claimId]? = some claim)
    (hsame : i = r.claimId → r.applyTo claim.trip = claim.trip) : FaceKept i σ σ' := by
  simp only [updateDraftFields, bind_eq_ok, pure_eq_ok] at hok
  obtain ⟨owned, howned, _, -, _, -, _, -, rfl⟩ := hok
  obtain rfl := Option.some.inj ((ownedEditableClaim_eq_ok howned).1.symm.trans hclaim)
  refine ⟨fun old hold => ?_, fun _ => rfl⟩
  by_cases hi : i = r.claimId
  · subst hi
    obtain rfl := Option.some.inj (hclaim.symm.trans hold)
    refine ⟨_, getElem?_modify_self _ hold, ?_⟩
    simp only [Claim.printed, hsame rfl]
  · exact ⟨old, (List.getElem?_modify_ne _ _ (Ne.symm hi)).trans hold, rfl⟩

/-- A new itinerary keeps the face of every other claim. -/
theorem faceKept_replaceLegs {r : ReplaceLegs} (hok : replaceLegs env r σ = .ok σ')
    (hi : i ≠ r.claimId) : FaceKept i σ σ' := by
  have hlegs := onlyLegsOf_replaceLegs hok
  simp only [replaceLegs, bind_eq_ok, pure_eq_ok] at hok
  obtain ⟨claim, -, legs, -, rfl⟩ := hok
  refine faceKept_of_map (map_modify_of_eq (fun c => ?_) _ _) (hlegs.sameLegs hi)
  rfl

/-- No other call changes what a form prints of a claim beside its amounts. -/
theorem faceKept_call (hfiles : c.op.touchesFiles = false) (hok : c.step σ = .ok σ') :
    FaceKept i σ σ' := by
  obtain ⟨env, op⟩ := c
  cases op with
  | createDraft actor kind now =>
      obtain ⟨r, hr, rfl⟩ := map_eq_ok.1 hok
      exact faceKept_createDraft hr
  | editDraft r => cases hfiles
  | replaceLegs r => cases hfiles
  | recomputeTotals claimId actor =>
      simp only [Call.step, recomputeTotals, bind_eq_ok] at hok
      obtain ⟨claim, -, htotals⟩ := hok
      exact faceKept_computed htotals
  | attachEvidence claimId catalogId actor => cases hfiles
  | detachEvidence claimId catalogId actor => cases hfiles
  | markGenerated claimId code => cases hfiles
  | cancelDraft r =>
      simp only [Call.step, cancelDraftClaim, bind_eq_ok, flushClaims_eq_ok] at hok
      obtain ⟨claim, -, -, -, -, -, -, -, -, -, rfl, -⟩ := hok
      refine faceKept_of_map (map_modify_of_eq (fun c => ?_) _ _) (.of_eq rfl)
      rfl
  | submit r => exact faceKept_submitClaim hok
  | act r => exact faceKept_claimAction hok
  | createAdvance r =>
      simp only [Call.step, createCashAdvance, bind_eq_ok, onConflict_eq_ok,
        flushAdvances_eq_ok] at hok
      obtain ⟨_, -, _, -, _, -, rfl, -⟩ := hok
      exact faceKept_of_eq rfl rfl
  | updateAdvance r => exact faceKept_updateCashAdvance hok
  | markOverdue advanceId =>
      obtain rfl := Except.ok.inj hok
      exact faceKept_of_eq rfl rfl
  | startLiquidation r => exact faceKept_startLiquidation hok
  | settle r =>
      obtain ⟨k, t, -, hact⟩ := recordSettlement_eq_ok.1 hok
      have hrecorded : FaceKept i σ (r.recorded env k t σ) := faceKept_of_eq rfl rfl
      exact hrecorded.trans (faceKept_claimAction hact)
  | payout r =>
      simp only [Call.step, recordPayout, recordExternalEvent, bind_eq_ok, pure_eq_ok] at hok
      obtain ⟨_, -, _, ⟨_, -, _, -, claim, -, _, -, rfl⟩, hact⟩ := hok
      refine FaceKept.trans ?_ (faceKept_claimAction hact)
      refine faceKept_of_map (map_modify_of_eq (fun c => ?_) _ _) (.of_eq rfl)
      rfl
  | relay r =>
      simp only [Call.step, recordExternalEvent, bind_eq_ok, pure_eq_ok] at hok
      obtain ⟨_, -, _, -, claim, -, _, -, rfl⟩ := hok
      exact faceKept_of_eq rfl rfl
  | spawn r => exact faceKept_spawn hok
  | sweep now instanceId picked =>
      obtain rfl := Except.ok.inj hok
      exact faceKept_of_eq rfl rfl
  | remind instanceId stepId level revisionNo =>
      obtain rfl := Except.ok.inj hok
      exact faceKept_of_eq rfl rfl

end Faces

/-! ## Live copies -/

/-- The copy's bytes were printed in the room from a context of the claim's present face. -/
structure Portrays (room : PrintRoom) (shown : Context) (copy : DocumentSnapshot) (σ : Store) :
    Prop where
  rendered : ∃ data, room.press.render copy.documentKey shown = .pdf data ∧
    data.sha256 = copy.contentSha256
  fingerprint : copy.sourceFingerprint = room.press.fingerprint (comparableContext shown)
  key : shown.doc.key = copy.documentKey
  id : shown.claim.id = copy.subjectId
  face : ∃ claim, σ.claims[copy.subjectId]? = some claim ∧ shown.claim.printed = claim.printed
  itinerary : shown.itinerary = σ.itinerary copy.subjectId

/-- Every live copy shows its claim as it is; `asked` are the rooms that printed. -/
def Portrayed (asked : PrintRoom → Prop) (a : Archive) : Prop :=
  ∀ copy ∈ a.snapshots, copy.status = .active → ∃ room shown, asked room ∧
    Portrays room shown copy a.store

section Portraits

variable {asked : PrintRoom → Prop} {a a' : Archive} {d : Errand} {room : PrintRoom}
  {shown : Context} {copy : DocumentSnapshot} {σ σ' : Store}

theorem Portrays.kept (h : Portrays room shown copy σ) (hface : FaceKept copy.subjectId σ σ') :
    Portrays room shown copy σ' := by
  obtain ⟨claim, hclaim, hsame⟩ := h.face
  obtain ⟨claim', hclaim', hkept⟩ := hface.row claim hclaim
  refine { h with
    face := ⟨claim', hclaim', hsame.trans hkept.symm⟩
    itinerary := ?_ }
  rw [h.itinerary, hface.legs (List.getElem?_eq_some_iff.1 hclaim).1]

/-- A copy that is still live shows a claim whose face was kept. -/
theorem Portrayed.of_live (h : Portrayed asked a)
    (hlive : ∀ copy ∈ a'.snapshots, copy.status = .active → copy ∈ a.snapshots ∧
      FaceKept copy.subjectId a.store a'.store) : Portrayed asked a' := by
  intro copy hcopy hactive
  obtain ⟨hold, hface⟩ := hlive copy hcopy hactive
  obtain ⟨room, shown, hasked, hportrays⟩ := h copy hold hactive
  exact ⟨room, shown, hasked, hportrays.kept hface⟩

/-- Voiding a claim leaves the live copies of the others. -/
theorem mem_voidClaim {rows : List DocumentSnapshot} {env : Env} {claimId actor : ℕ}
    {reason : String} (hkind : ∀ copy ∈ rows, copy.subjectKind = holderKind)
    (hcopy : copy ∈ voidClaim env claimId actor reason rows) (hactive : copy.status = .active) :
    copy ∈ rows ∧ copy.subjectId ≠ claimId := by
  obtain ⟨old, hold, rfl⟩ := List.mem_map.1 hcopy
  split_ifs at hactive ⊢ with hcovers
  · cases hactive
  · refine ⟨hold, fun hid => hcovers ⟨hkind old hold, hid, hactive, ?_⟩⟩
    simp

theorem Kept.kinds (h : Kept a) : ∀ copy ∈ a.snapshots, copy.subjectKind = holderKind := by
  intro copy hcopy
  obtain ⟨file, -, hbacks⟩ := h.backed copy hcopy
  exact hbacks.kind

/-- What a document's context shows of the claim. -/
structure Shows (p : Pass) (documentKey : String) (c : Context) (σ : Store) : Prop where
  key : c.doc.key = documentKey
  id : c.claim.id = p.claimId
  face : c.claim.printed = p.claim.printed
  itinerary : c.itinerary = σ.itinerary p.claimId

theorem shows_buildDocumentContext {p : Pass} {documentKey title : String} {formNo : Option String}
    {c : Context} (h : buildDocumentContext p.page σ p.claimId p.claim documentKey title formNo
      p.stamp = .ok c) : Shows p documentKey c σ := by
  simp only [buildDocumentContext, bind_eq_ok, pure_eq_ok] at h
  obtain ⟨totals, -, rfl⟩ := h
  refine ⟨rfl, rfl, rfl, ?_⟩
  simp only [Context.itinerary, legBlocks, Store.itinerary, List.map_map]
  rfl

theorem shows_packetContext {p : Pass} {sections : List PacketSection} {c : Context}
    (h : p.packetContext sections a = .ok c) : Shows p packetKey c a.store := by
  simp only [Pass.packetContext, buildPacketContext, bind_eq_ok, pure_eq_ok] at h
  obtain ⟨base, hbase, rfl⟩ := h
  have hshows := shows_buildDocumentContext hbase
  exact ⟨hshows.key, hshows.id, hshows.face, hshows.itinerary⟩

/-- One document of a pass. -/
theorem Portrayed.issued {p : Pass} {s : Sheet} {context : Except Raised Context}
    {print : String → Context → Context} {r : GeneratedDocument} (h : Portrayed asked a)
    (hissued : Issued p s context print a r a') (hroom : asked room) (hpress : p.press = room.press)
    (hclaim : a.store.claims[p.claimId]? = some p.claim)
    (hcontext : ∀ c, context = .ok c → Shows p s.documentKey c a.store)
    (hprint : ∀ f c, Shows p s.documentKey c a.store → Shows p s.documentKey (print f c) a.store ∧
      comparableContext (print f c) = comparableContext c) : Portrayed asked a' := by
  cases hissued with
  | failed detail => exact h
  | unchanged c n copy _ _ _ => exact h
  | generated c data id a' hc hrender hfile =>
      have hfiled := file_filed hfile
      obtain ⟨items, hstore⟩ := hfiled.store
      have hface : ∀ i, FaceKept i a.store a'.store := fun i => by
        rw [hstore]
        exact faceKept_of_eq rfl rfl
      intro copy hcopy hactive
      obtain ⟨n, hn⟩ := List.mem_iff_getElem?.1 hcopy
      by_cases hlast : n = a.snapshots.length
      · rw [hlast, getElem?_freeze_last hfiled.snapshots] at hn
        obtain rfl := Option.some.inj hn
        obtain ⟨hshows, hcomparable⟩ := hprint (p.press.fingerprint (comparableContext c)) c
          (hcontext c hc)
        refine ⟨room, print (p.press.fingerprint (comparableContext c)) c, hroom,
          Portrays.kept ?_ (hface _)⟩
        exact {
          rendered := ⟨data, hpress ▸ hrender, rfl⟩
          fingerprint := by rw [hcomparable, hpress]; rfl
          key := hshows.key
          id := hshows.id
          face := ⟨p.claim, hclaim, hshows.face⟩
          itinerary := hshows.itinerary }
      · have hlt : n < a.snapshots.length := by
          have hlt' := (List.getElem?_eq_some_iff.1 hn).1
          rw [length_freeze hfiled.snapshots] at hlt'
          omega
        rw [getElem?_freeze hfiled.snapshots (List.getElem?_eq_getElem hlt)] at hn
        have hcopy' := Option.some.inj hn
        split_ifs at hcopy' with hsuperseded
        · rw [← hcopy'] at hactive
          cases hactive
        · obtain ⟨room', shown', hasked, hportrays⟩ :=
            h copy (hcopy' ▸ List.getElem_mem hlt) hactive
          exact ⟨room', shown', hasked, hportrays.kept (hface _)⟩

theorem Portrayed.forms {p : Pass} {bound : List TemplateMap} {forms : List GeneratedDocument}
    (h : Portrayed asked a) (hroom : asked room) (hpress : p.press = room.press)
    (hclaim : a.store.claims[p.claimId]? = some p.claim)
    (hforms : generateForms p bound a = .ok (forms, a')) : Portrayed asked a' := by
  induction bound generalizing a forms with
  | nil =>
      obtain ⟨-, rfl⟩ := Prod.mk.inj (Except.ok.inj hforms)
      exact h
  | cons b bound ih =>
      obtain ⟨r, rest, a₁, hfirst, hrest, -⟩ := generateForms_cons.1 hforms
      have hissued := issue_cases hfirst
      refine ih (h.issued hissued hroom hpress hclaim (fun c hc => shows_buildDocumentContext hc)
        fun _ c hshows => ⟨hshows, rfl⟩) ?_ hrest
      rw [hissued.grown.claims, hclaim]

theorem Portrayed.generated {claimId : ℕ} {actor : Option ℕ} {now : Option Time}
    {results : List GeneratedDocument} (h : Portrayed asked a) (hroom : asked room)
    (hok : a.generateClaimDocuments room claimId actor now = .ok (results, a')) :
    Portrayed asked a' := by
  simp only [Archive.generateClaimDocuments, bind_eq_ok, lockedClaim_eq_ok] at hok
  obtain ⟨claim, hclaim, hrun⟩ := hok
  obtain ⟨forms, packet, a₁, hforms, hpacket, -⟩ := run_eq_ok.1 hrun
  refine (h.forms hroom rfl hclaim hforms).issued (issue_cases hpacket) hroom rfl ?_
    (fun c hc => shows_packetContext hc) fun _ c hshows => ?_
  · rw [(generateForms_grown hforms).claims]
    exact hclaim
  · exact ⟨⟨hshows.key, hshows.id, hshows.face, hshows.itinerary⟩, rfl⟩

theorem faceKept_markup {env : Env} {i claimId catalogId actor : ℕ}
    (hok : attachEvidence env claimId catalogId actor σ = .ok σ') : FaceKept i σ σ' := by
  simp only [attachEvidence, bind_eq_ok, pure_eq_ok] at hok
  obtain ⟨_, -, _, -, _, -, rfl⟩ := hok
  exact faceKept_of_eq rfl rfl

theorem faceKept_detach {env : Env} {i claimId catalogId actor : ℕ}
    (hok : detachEvidence env claimId catalogId actor σ = .ok σ') : FaceKept i σ σ' := by
  simp only [detachEvidence, bind_eq_ok, pure_eq_ok] at hok
  obtain ⟨_, -, _, -, rfl⟩ := hok
  exact faceKept_of_eq rfl rfl

/-- Every errand that returns leaves the live copies true to their claims. -/
theorem Portrayed.step (h : Portrayed asked a) (hkept : Kept a)
    (hasked : ∀ room claimId actor now, d = .generate room claimId actor now → asked room)
    (hok : d.step a = .ok a') : Portrayed asked a' := by
  cases d with
  | call c hfiles =>
      simp only [Errand.step, bind_eq_ok, pure_eq_ok] at hok
      obtain ⟨σ, hcall, rfl⟩ := hok
      exact h.of_live fun copy hcopy _ =>
        ⟨hcopy, faceKept_call (c := { c with env := c.env.counting a }) hfiles hcall⟩
  | editDraft env r =>
      simp only [Errand.step, Archive.updateDraftFields, bind_eq_ok, pure_eq_ok,
        lockedClaim_eq_ok] at hok
      obtain ⟨claim, hclaim, σ, hedit, rfl⟩ := hok
      by_cases hsame : r.applyTo claim.trip = claim.trip
      · rw [if_pos hsame]
        exact h.of_live fun copy hcopy _ =>
          ⟨hcopy, faceKept_updateDraftFields hedit hclaim fun _ => hsame⟩
      · rw [if_neg hsame]
        refine h.of_live fun copy hcopy hactive => ?_
        obtain ⟨hold, hother⟩ := mem_voidClaim hkept.kinds hcopy hactive
        exact ⟨hold, faceKept_updateDraftFields hedit hclaim fun hi => absurd hi hother⟩
  | replaceLegs env r =>
      simp only [Errand.step, Archive.replaceLegs, bind_eq_ok, pure_eq_ok] at hok
      obtain ⟨σ, hlegs, rfl⟩ := hok
      refine h.of_live fun copy hcopy hactive => ?_
      obtain ⟨hold, hother⟩ := mem_voidClaim hkept.kinds hcopy hactive
      exact ⟨hold, faceKept_replaceLegs hlegs hother⟩
  | attach env r =>
      simp only [Errand.step, Archive.attachEvidence, bind_eq_ok, pure_eq_ok, Prod.exists] at hok
      obtain ⟨itemId, -, id, files, -, σ, hattach, rfl⟩ := hok
      refine h.of_live fun copy hcopy hactive => ?_
      exact ⟨(mem_voidClaim hkept.kinds hcopy hactive).1, faceKept_markup hattach⟩
  | detach env r =>
      simp only [Errand.step, Archive.detachEvidence, bind_eq_ok, pure_eq_ok] at hok
      obtain ⟨_, -, join, -, files, -, σ, hdetach, rfl⟩ := hok
      refine h.of_live fun copy hcopy hactive => ?_
      exact ⟨(mem_voidClaim hkept.kinds hcopy hactive).1, faceKept_detach hdetach⟩
  | generate room claimId actor now =>
      obtain ⟨⟨results, a''⟩, hgenerate, rfl⟩ := map_eq_ok.1 hok
      exact h.generated (hasked room claimId actor now rfl) hgenerate
  | scan id verdict =>
      obtain rfl := Except.ok.inj hok
      exact h.of_live fun copy hcopy _ => ⟨hcopy, .refl _ _⟩
  | upload r =>
      simp only [Errand.step, bind_eq_ok, pure_eq_ok, Prod.exists] at hok
      obtain ⟨id, files, -, rfl⟩ := hok
      exact h.of_live fun copy hcopy _ => ⟨hcopy, .refl _ _⟩
  | delete id =>
      simp only [Errand.step, bind_eq_ok, pure_eq_ok] at hok
      obtain ⟨files, -, rfl⟩ := hok
      exact h.of_live fun copy hcopy _ => ⟨hcopy, .refl _ _⟩

/-- In every run, the bytes of each live copy were printed, by a pass of the run, from a context that
shows the trip and the itinerary of the claim as they are now. -/
theorem portrayed_runArchive (errands : List Errand) :
    Portrayed (fun room => ∃ claimId actor now, .generate room claimId actor now ∈ errands)
      (runArchive errands) := by
  have hstart : Portrayed (fun room => ∃ claimId actor now, .generate room claimId actor now ∈ errands)
      {} := fun copy hcopy => by cases hcopy
  refine reachable_invariant (P := fun _ d => d ∈ errands) (fun done d a' hd h hok => ?_) hstart
    errands (conforms_of_forall (P := fun d => d ∈ errands) (fun d hd => hd) _)
  refine h.step (kept_runArchive done) (fun room claimId actor now he => ?_) hok
  exact ⟨claimId, actor, now, he ▸ hd⟩

end Portraits

end OfficeConnect.Reimbursement
