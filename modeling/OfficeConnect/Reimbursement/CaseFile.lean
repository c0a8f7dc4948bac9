import OfficeConnect.Reimbursement.Docket

/-!
# Case files

A claim with its own instance and its own history rows.  Links are unique, so what a call does to
the docket it does to one file: every other file stays as it was.  An invariant of files is
therefore proved from what happens to one file.
-/

namespace OfficeConnect.Reimbursement

open Lib Workflow

structure CaseFile where
  spine : Spine
  inst : Option Instance
  rows : List StatusHistory

def Docket.file (d : Docket) (i : ℕ) (s : Spine) : CaseFile :=
  { spine := s
    inst := s.link.bind fun j => d.instances[j]?
    rows := d.history.filter (·.claimId = i) }

def Docket.file? (d : Docket) (i : ℕ) : Option CaseFile := d.spines[i]?.map (d.file i)

def Store.file? (σ : Store) (i : ℕ) : Option CaseFile := σ.docket.file? i

/-- The instance a claim is linked to. -/
def Store.instanceOf (σ : Store) (claim : Claim) : Option Instance :=
  claim.workflowInstanceId.bind fun j => σ.instances[j]?

/-- What a returning call does to one file. -/
inductive FileStep (c : Call) (i : ℕ) (f : CaseFile) : CaseFile → Prop
  | same : FileStep c i f f
  | quiet (inst inst' : Instance) (hinst : f.inst = some inst) (hquiet : Workflow.Quiet inst inst')
      (hdated : Dated inst → Dated inst') : FileStep c i f { f with inst := some inst' }
  | dropped (rows : List StatusHistory) (hlink : f.spine.link = none)
      (hrows : Logged i f.spine.status .cancelled rows) :
      FileStep c i f { f with
        spine := { f.spine with status := .cancelled }
        rows := f.rows ++ rows }
  | submitted (r : Submit) (j : ℕ) (initial : State Status) (start : Start) (now due : Time)
      (inst : Instance) (v : Published Status) (e : Event) (inst' : Instance) (dest : State Status)
      (rows : List StatusHistory) (hr : c.op = .submit r) (hi : r.claimId = i)
      (hlink : f.spine.link = none) (hlive : f.spine.status ≠ .cancelled)
      (hinitial : initialState (chain f.spine.kind).toVersion = some initial)
      (hinst : inst = newInstance (chain f.spine.kind).toVersion initial start now)
      (hrun : Engaged c inst start.amount (r.request c.env inst) v e inst' dest)
      (hrows : Logged i f.spine.status dest.code rows) :
      FileStep c i f {
        spine := { f.spine with link := some j, status := dest.code }
        inst := some (stamped f.spine.kind dest due inst')
        rows := f.rows ++ rows }
  | acted (r : ActionRequest) (inst : Instance) (amount : Option ℤ) (due : Time)
      (v : Published Status) (e : Event) (inst' : Instance) (dest : State Status)
      (rows : List StatusHistory) (hr : c.action? = some r) (hi : r.claimId = i)
      (hlink : f.spine.link ≠ none) (hinst : f.inst = some inst)
      (hrun : Engaged c inst amount (r.request c.env inst) v e inst' dest)
      (hrows : Logged i f.spine.status dest.code rows) :
      FileStep c i f {
        spine := { f.spine with status := dest.code }
        inst := some (stamped f.spine.kind dest due inst')
        rows := f.rows ++ rows }

/-- A file just opened: a draft with its first history row. -/
structure Opened (c : Call) (d : Docket) (i : ℕ) (f : CaseFile) : Prop where
  status : f.spine.status = .draft
  link : f.spine.link = none
  inst : f.inst = none
  origin : Origin c d f.spine
  rows : ∃ row : StatusHistory, row.claimId = i ∧ row.fromStatus = none ∧
    row.toStatus = .draft ∧ f.rows = [row]

/-- Links are unique and lead to an instance, and history rows belong to claims. -/
structure Wired (d : Docket) : Prop where
  unique : (d.spines.filterMap (·.link)).Nodup
  live : ∀ s ∈ d.spines, ∀ j, s.link = some j → j < d.instances.length
  rows : ∀ row ∈ d.history, row.claimId < d.spines.length

section

variable {c : Call} {d d' : Docket} {i : ℕ} {f' : CaseFile}

theorem Logged.claimId {i : ℕ} {before after : Status} {rows : List StatusHistory}
    (h : Logged i before after rows) : ∀ row ∈ rows, row.claimId = i := by
  rcases h with ⟨-, rfl⟩ | ⟨-, row, hrow, -, -, rfl⟩
  · simp
  · simpa using hrow

theorem Logged.filter_self {i : ℕ} {before after : Status} {rows : List StatusHistory}
    (h : Logged i before after rows) : rows.filter (·.claimId = i) = rows := by
  rw [List.filter_eq_self]
  intro row hrow
  simpa using h.claimId row hrow

theorem Logged.filter_other {i k : ℕ} {before after : Status} {rows : List StatusHistory}
    (h : Logged i before after rows) (hk : k ≠ i) : rows.filter (·.claimId = k) = [] := by
  rw [List.filter_eq_nil_iff]
  intro row hrow
  simpa [h.claimId row hrow] using Ne.symm hk

theorem Wired.exists_inst {s : Spine} {j : ℕ} (hw : Wired d) (hs : d.spines[i]? = some s)
    (hj : s.link = some j) : ∃ inst, d.instances[j]? = some inst :=
  ⟨_, List.getElem?_eq_getElem (hw.live s (List.mem_of_getElem? hs) j hj)⟩

theorem file?_eq_some {f : CaseFile} :
    d.file? i = some f ↔ ∃ s, d.spines[i]? = some s ∧ d.file i s = f := by
  simp [Docket.file?]

/-- A file whose spine, instance and rows a call leaves alone. -/
theorem FileStep.of_frame {s : Spine}
    (hinst : ∀ j, s.link = some j → d'.instances[j]? = d.instances[j]?)
    (hrows : d'.history.filter (·.claimId = i) = d.history.filter (·.claimId = i)) :
    FileStep c i (d.file i s) (d'.file i s) := by
  have hfile : d'.file i s = d.file i s := by
    simp only [Docket.file, hrows]
    congr 1
    cases hj : s.link with
    | none => rfl
    | some j => exact hinst j hj
  rw [hfile]
  exact .same

/-- The frame theorem: a call takes one step on each file, and opens at most a new one. -/
theorem Effect.frame (h : Effect c d d') (hw : Wired d) (hf : d'.file? i = some f') :
    (∃ f, d.file? i = some f ∧ FileStep c i f f') ∨ (d.file? i = none ∧ Opened c d i f') := by
  obtain ⟨s', hs', rfl⟩ := file?_eq_some.1 hf
  have hold : ∀ s, d.spines[i]? = some s → d.file? i = some (d.file i s) :=
    fun s hs => file?_eq_some.2 ⟨s, hs, rfl⟩
  cases h with
  | idle => exact .inl ⟨_, hold s' hs', .same⟩
  | quiet j f hquiet hdated =>
      refine .inl ⟨_, hold s' hs', ?_⟩
      by_cases hj : s'.link = some j
      · obtain ⟨inst, hinst⟩ := hw.exists_inst hs' hj
        have hbefore : (d.file i s').inst = some inst := by simp [Docket.file, hj, hinst]
        have hstep := FileStep.quiet (c := c) (i := i) inst (f inst) hbefore (hquiet inst)
          (hdated inst)
        have hafter : { d with instances := d.instances.modify j f }.file i s' =
            { d.file i s' with inst := some (f inst) } := by
          simp [Docket.file, hj, hinst]
        rw [hafter]
        exact hstep
      · refine .of_frame (fun k hk => ?_) rfl
        exact List.getElem?_modify_ne _ _ fun hjk => hj (hjk ▸ hk)
  | filed s row hstatus hlink horigin hclaim hfrom hdest =>
      rcases getElem?_concat_eq_some hs' with hs | ⟨rfl, rfl⟩
      · refine .inl ⟨_, hold s' hs, ?_⟩
        refine .of_frame (fun _ _ => rfl) ?_
        have hlt : i < d.spines.length := (List.getElem?_eq_some_iff.1 hs).1
        simp [List.filter_append, hclaim, hlt.ne']
      · have hnone : d.history.filter (·.claimId = d.spines.length) = [] := by
          rw [List.filter_eq_nil_iff]
          intro row hrow
          simpa using (hw.rows row hrow).ne
        refine .inr ⟨by simp [Docket.file?], hstatus, hlink, ?_, horigin, row, hclaim, hfrom, hdest, ?_⟩
        · simp [Docket.file, hlink]
        · simp [Docket.file, List.filter_append, hnone, hclaim]
  | dropped k s rows hs hlink hrows =>
      rcases getElem?_modify_eq_some hs' with ⟨rfl, s₀, hs₀, rfl⟩ | ⟨hk, hs₀⟩
      · obtain rfl := Option.some.inj (hs₀.symm.trans hs)
        refine .inl ⟨_, hold s₀ hs, ?_⟩
        have hstep := FileStep.dropped (c := c) (f := d.file i s₀) rows hlink hrows
        simpa [Docket.file, hlink, List.filter_append, hrows.filter_self] using hstep
      · refine .inl ⟨_, hold s' hs₀, ?_⟩
        refine .of_frame (fun _ _ => rfl) ?_
        simp [List.filter_append, hrows.filter_other hk]
  | submitted r s initial start now due inst v e inst' dest rows hr hs hlink hlive hinitial hinst
      hrun hrows =>
      rcases getElem?_modify_eq_some hs' with ⟨rfl, s₀, hs₀, rfl⟩ | ⟨hk, hs₀⟩
      · obtain rfl := Option.some.inj (hs₀.symm.trans hs)
        refine .inl ⟨_, hold s₀ hs, ?_⟩
        have hstep := FileStep.submitted (f := d.file r.claimId s₀) r d.instances.length initial
          start now due inst v e inst' dest rows hr rfl hlink hlive hinitial hinst hrun hrows
        simpa [Docket.file, List.filter_append, hrows.filter_self] using hstep
      · refine .inl ⟨_, hold s' hs₀, ?_⟩
        refine .of_frame (fun j hj => ?_) ?_
        · exact List.getElem?_append_left (hw.live s' (List.mem_of_getElem? hs₀) j hj)
        · simp [List.filter_append, hrows.filter_other hk]
  | acted r s j inst amount due v e inst' dest rows hr hs hlink hinst hrun hrows =>
      rcases getElem?_modify_eq_some hs' with ⟨rfl, s₀, hs₀, rfl⟩ | ⟨hk, hs₀⟩
      · obtain rfl := Option.some.inj (hs₀.symm.trans hs)
        refine .inl ⟨_, hold s₀ hs, ?_⟩
        have hbefore : (d.file r.claimId s₀).inst = some inst := by
          simp [Docket.file, hlink, hinst]
        have hstep := FileStep.acted (f := d.file r.claimId s₀) r inst amount due v e inst' dest rows
          hr rfl (by simp [Docket.file, hlink]) hbefore hrun hrows
        simpa [Docket.file, hlink, hinst, List.filter_append, hrows.filter_self] using hstep
      · refine .inl ⟨_, hold s' hs₀, ?_⟩
        refine .of_frame (fun m hm => ?_) ?_
        · refine List.getElem?_modify_ne _ _ fun hjm => hk ?_
          exact eq_of_nodup_filterMap hw.unique hs₀ hs (hjm ▸ hm) hlink
        · simp [List.filter_append, hrows.filter_other hk]

/-- No file is ever removed. -/
theorem Effect.grows (h : Effect c d d') : d.spines.length ≤ d'.spines.length := by
  cases h <;> simp

/-- Kind, advance and source of a claim never change. -/
theorem FileStep.origin_eq {f : CaseFile} (h : FileStep c i f f') :
    f'.spine.kind = f.spine.kind ∧ f'.spine.cashAdvanceId = f.spine.cashAdvanceId ∧
      f'.spine.spawnedFrom = f.spine.spawnedFrom := by
  cases h <;> exact ⟨rfl, rfl, rfl⟩

/-! ## Wiring is kept -/

theorem Effect.wired (h : Effect c d d') (hw : Wired d)
    (hunique : (d'.spines.filterMap (·.link)).Nodup) : Wired d' := by
  have hlogged : ∀ {k before after rows} (s : Spine), d.spines[k]? = some s →
      Logged k before after rows → ∀ row ∈ d.history ++ rows, row.claimId < d.spines.length := by
    intro k before after rows s hs hrows row hrow
    rcases List.mem_append.1 hrow with hrow | hrow
    · exact hw.rows row hrow
    · rw [hrows.claimId row hrow]
      exact (List.getElem?_eq_some_iff.1 hs).1
  have hmodify : ∀ {k : ℕ} {g : Spine → Spine} {P : Spine → Prop}, (∀ s ∈ d.spines, P s) →
      (∀ s, d.spines[k]? = some s → P (g s)) → ∀ s ∈ d.spines.modify k g, P s := by
    intro k g P hP hg s hs
    obtain ⟨n, hn⟩ := List.mem_iff_getElem?.1 hs
    rcases getElem?_modify_eq_some hn with ⟨-, a, ha, rfl⟩ | ⟨-, ha⟩
    · exact hg a ha
    · exact hP s (List.mem_of_getElem? ha)
  refine ⟨hunique, ?_, ?_⟩
  · cases h with
    | idle => exact hw.live
    | quiet j f hquiet hdated => simpa using hw.live
    | filed s row hstatus hlink horigin hclaim hfrom hdest =>
        intro s' hs' j hj
        rcases List.mem_append.1 hs' with hs' | hs'
        · exact hw.live s' hs' j hj
        · rw [List.mem_singleton.1 hs', hlink] at hj
          cases hj
    | dropped k s rows hs hlink hrows =>
        exact hmodify hw.live fun s hs => hw.live s (List.mem_of_getElem? hs)
    | submitted r s initial start now due inst v e inst' dest rows hr hs hlink hlive hinitial hinst
        hrun hrows =>
        refine hmodify (fun s hs j hj => ?_) fun s _ j hj => ?_
        · have := hw.live s hs j hj
          simp only [List.length_append, List.length_singleton]
          omega
        · obtain rfl := Option.some.inj hj
          simp
    | acted r s j inst amount due v e inst' dest rows hr hs hlink hinst hrun hrows =>
        simp only [List.length_modify]
        exact hmodify hw.live fun s hs => hw.live s (List.mem_of_getElem? hs)
  · cases h with
    | idle => exact hw.rows
    | quiet j f hquiet hdated => exact hw.rows
    | filed s row hstatus hlink horigin hclaim hfrom hdest =>
        intro row' hrow'
        simp only [List.length_append, List.length_singleton]
        rcases List.mem_append.1 hrow' with hrow' | hrow'
        · have := hw.rows row' hrow'
          omega
        · rw [List.mem_singleton.1 hrow', hclaim]
          omega
    | dropped k s rows hs hlink hrows => simpa using hlogged s hs hrows
    | submitted r s initial start now due inst v e inst' dest rows hr hs hlink hlive hinitial hinst
        hrun hrows =>
        simpa using hlogged s hs hrows
    | acted r s j inst amount due v e inst' dest rows hr hs hlink hinst hrun hrows =>
        simpa using hlogged s hs hrows

end

/-! ## Runs -/

/-- The tables of a store agree: unique keys, links that lead somewhere. -/
structure Regular (σ : Store) : Prop where
  indexed : Indexed σ.claims
  wired : Wired σ.docket

section

variable {c : Call} {σ σ' : Store} {i : ℕ} {f' : CaseFile}

theorem Indexed.links {claims : List Claim} (h : Indexed claims) :
    ((claims.map Claim.spine).filterMap (·.link)).Nodup := by
  rw [List.filterMap_map]
  exact h.link

theorem regular_empty : Regular {} where
  indexed := ⟨.nil, .nil, .nil, .nil⟩
  wired := ⟨.nil, by simp [Store.docket], by simp [Store.docket]⟩

theorem Regular.step (h : Regular σ) (hstep : c.step σ = .ok σ') : Regular σ' := by
  obtain ⟨hidx, heffect⟩ := Call.step_refines h.indexed hstep
  exact ⟨hidx, heffect.wired h.wired hidx.links⟩

theorem regular_runStore (calls : List Call) : Regular (runStore calls) :=
  run_invariant (P := fun _ _ => True) (fun _ _ _ _ h hstep => h.step hstep) calls _ regular_empty
    (conforms_true _ _)

theorem Regular.file_step (h : Regular σ) (hstep : c.step σ = .ok σ') (hf : σ'.file? i = some f') :
    (∃ f, σ.file? i = some f ∧ FileStep c i f f') ∨
      (σ.file? i = none ∧ Opened c σ.docket i f') :=
  (Call.step_refines h.indexed hstep).2.frame h.wired hf

theorem Regular.file_persists (h : Regular σ) (hstep : c.step σ = .ok σ') {f : CaseFile}
    (hf : σ.file? i = some f) : ∃ f', σ'.file? i = some f' ∧ FileStep c i f f' := by
  obtain ⟨s, hs, -⟩ := file?_eq_some.1 hf
  have hgrows := (Call.step_refines h.indexed hstep).2.grows
  have hlt : i < σ'.docket.spines.length := by
    have := (List.getElem?_eq_some_iff.1 hs).1
    omega
  have hf' : σ'.file? i = some (σ'.docket.file i σ'.docket.spines[i]) :=
    file?_eq_some.2 ⟨_, List.getElem?_eq_getElem hlt, rfl⟩
  rcases h.file_step hstep hf' with ⟨f₀, hf₀, hfs⟩ | ⟨hnone, -⟩
  · obtain rfl := Option.some.inj (hf.symm.trans hf₀)
    exact ⟨_, hf', hfs⟩
  · rw [hf] at hnone
    cases hnone

/-- The invariant rule for files: what holds of every file just opened and is kept by every step of
a call that meets `P` holds of every file after every run that conforms to `P`. -/
theorem files_invariant {P : Store → Call → Prop} {I : ℕ → CaseFile → Prop}
    (hopen : ∀ (σ : Store) c i f, Opened c σ.docket i f → I i f)
    (hstep : ∀ (σ : Store) c i f f', P σ c → σ.file? i = some f → FileStep c i f f' → I i f → I i f')
    (calls : List Call) (hcalls : Conforms Call.step P {} calls) {f : CaseFile}
    (hf : (runStore calls).file? i = some f) : I i f := by
  have hinv : Regular (runStore calls) ∧ ∀ i f, (runStore calls).file? i = some f → I i f := by
    refine run_invariant (I := fun σ => Regular σ ∧ ∀ i f, σ.file? i = some f → I i f) ?_ calls _
      ⟨regular_empty, fun i f hf => ?_⟩ hcalls
    · rintro σ c σ' hc ⟨hreg, hfiles⟩ hok
      refine ⟨hreg.step hok, fun i f' hf' => ?_⟩
      rcases hreg.file_step hok hf' with ⟨f, hf, hfs⟩ | ⟨-, hopened⟩
      · exact hstep σ c i f f' hc hf hfs (hfiles i f hf)
      · exact hopen σ c i f' hopened
    · simp [Store.file?, Docket.file?, Store.docket] at hf
  exact hinv.2 i f hf

/-- The instance in a file is the one its link leads to. -/
theorem inst_of_file? {f : CaseFile} {j : ℕ} (hf : σ.file? i = some f)
    (hlink : f.spine.link = some j) : σ.instances[j]? = f.inst := by
  obtain ⟨s, -, rfl⟩ := file?_eq_some.1 hf
  have hs : s.link = some j := hlink
  simp [Docket.file, hs, Store.docket]

theorem exists_file {claim : Claim} (h : σ.claims[i]? = some claim) :
    σ.file? i = some (σ.docket.file i claim.spine) :=
  file?_eq_some.2 ⟨_, docket_spine h, rfl⟩

/-- The claim of a file, with its instance. -/
theorem file_claim {f : CaseFile} (hf : σ.file? i = some f) :
    ∃ claim, σ.claims[i]? = some claim ∧ claim.spine = f.spine ∧ σ.instanceOf claim = f.inst := by
  obtain ⟨s, hs, rfl⟩ := file?_eq_some.1 hf
  obtain ⟨claim, hclaim, rfl⟩ := exists_claim hs
  exact ⟨claim, hclaim, rfl, rfl⟩

theorem claims_eq_none (h : σ.file? i = none) : σ.claims[i]? = none := by
  cases hclaim : σ.claims[i]? with
  | none => rfl
  | some claim =>
      rw [exists_file hclaim] at h
      cases h

end

end OfficeConnect.Reimbursement
