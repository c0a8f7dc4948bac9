import OfficeConnect.Core.Payload

/-!
# When a hashed payload survives storage

Reading a stored value back turns the keys of its objects into strings and sorts them as strings.
The text is the same exactly when every object's keys, sorted as they are, have increasing texts: a
dictionary with string keys always does, one with the keys 2 and 10 does not.
-/

namespace OfficeConnect.Audit

open Ingest Lib

/-! ## The condition -/

/-- Sorted as they are, the keys have strictly increasing texts. -/
def KeyOrder.TextOrdered (o : KeyOrder) (keys : List PyKey) : Prop :=
  (o.arrange keys (keys.map PyKey.text)).Pairwise (· < ·)

instance (o : KeyOrder) (keys : List PyKey) : Decidable (o.TextOrdered keys) :=
  inferInstanceAs (Decidable (List.Pairwise _ _))

mutual

/-- The keys of each dictionary inside a value. -/
def PyValue.keySets : PyValue → List (List PyKey)
  | .list items => PyValue.keySetsOfItems items
  | .tuple items => PyValue.keySetsOfItems items
  | .dict fields => fields.map Prod.fst :: PyValue.keySetsOfFields fields
  | _ => []

def PyValue.keySetsOfItems : List PyValue → List (List PyKey)
  | [] => []
  | item :: items => item.keySets ++ PyValue.keySetsOfItems items

def PyValue.keySetsOfFields : List (PyKey × PyValue) → List (List PyKey)
  | [] => []
  | (_, value) :: fields => value.keySets ++ PyValue.keySetsOfFields fields

end

mutual

/-- The keys of each object inside a value. -/
def Native.keySets : Native → List (List PyKey)
  | .list items => Native.keySetsOfItems items
  | .obj fields => fields.map Prod.fst :: Native.keySetsOfFields fields
  | _ => []

def Native.keySetsOfItems : List Native → List (List PyKey)
  | [] => []
  | item :: items => item.keySets ++ Native.keySetsOfItems items

def Native.keySetsOfFields : List (PyKey × Native) → List (List PyKey)
  | [] => []
  | (_, value) :: fields => value.keySets ++ Native.keySetsOfFields fields

end

mutual

/-- Serialization keeps the keys. -/
theorem keySets_serializeValue : ∀ v : PyValue, (serializeValue v).keySets = v.keySets
  | .none | .bool _ | .int _ | .float _ | .decimal _ | .date _ | .datetime _ | .bytes _
  | .str _ => by simp only [serializeValue, Native.keySets, PyValue.keySets]
  | .list items => by
      simp only [serializeValue, Native.keySets, PyValue.keySets, keySets_serializeItems items]
  | .tuple items => by
      simp only [serializeValue, Native.keySets, PyValue.keySets, keySets_serializeItems items]
  | .dict fields => by
      obtain ⟨hkeys, hsets⟩ := keySets_serializeFields fields
      simp only [serializeValue, Native.keySets, PyValue.keySets, hkeys, hsets]

theorem keySets_serializeItems : ∀ items : List PyValue,
    Native.keySetsOfItems (serializeItems items) = PyValue.keySetsOfItems items
  | [] => rfl
  | item :: items => by
      simp only [serializeItems, Native.keySetsOfItems, PyValue.keySetsOfItems,
        keySets_serializeValue item, keySets_serializeItems items]

theorem keySets_serializeFields : ∀ fields : List (PyKey × PyValue),
    (serializeFields fields).map Prod.fst = fields.map Prod.fst ∧
      Native.keySetsOfFields (serializeFields fields) = PyValue.keySetsOfFields fields
  | [] => ⟨rfl, rfl⟩
  | (key, value) :: fields => by
      obtain ⟨hkeys, hsets⟩ := keySets_serializeFields fields
      refine ⟨by simp only [serializeFields, List.map_cons, hkeys], ?_⟩
      simp only [serializeFields, Native.keySetsOfFields, PyValue.keySetsOfFields,
        keySets_serializeValue value, hsets]

end

/-- Every object inside the value has increasing texts. -/
def Native.Stable (o : KeyOrder) (n : Native) : Prop := ∀ keys ∈ n.keySets, o.TextOrdered keys

section

variable {o : KeyOrder} {items : List Native} {fields : List (PyKey × Native)}

theorem stable_list : (Native.list items).Stable o ↔ ∀ item ∈ items, item.Stable o := by
  unfold Native.Stable
  rw [Native.keySets]
  induction items with
  | nil => simp [Native.keySetsOfItems]
  | cons item items ih =>
      simp only [Native.keySetsOfItems, List.mem_append, List.forall_mem_cons]
      rw [← ih]
      exact ⟨fun h => ⟨fun k hk => h k (.inl hk), fun k hk => h k (.inr hk)⟩,
        fun h k hk => hk.elim (h.1 k) (h.2 k)⟩

theorem stable_obj : (Native.obj fields).Stable o ↔
    o.TextOrdered (fields.map Prod.fst) ∧ ∀ f ∈ fields, f.2.Stable o := by
  have hvalues : (∀ keys ∈ Native.keySetsOfFields fields, o.TextOrdered keys) ↔
      ∀ f ∈ fields, f.2.Stable o := by
    induction fields with
    | nil => simp [Native.keySetsOfFields]
    | cons f fields ih =>
        simp only [Native.keySetsOfFields, List.mem_append, List.forall_mem_cons]
        rw [← ih]
        exact ⟨fun h => ⟨fun k hk => h k (.inl hk), fun k hk => h k (.inr hk)⟩,
          fun h k hk => hk.elim (h.1 k) (h.2 k)⟩
  unfold Native.Stable at hvalues ⊢
  rw [Native.keySets, List.forall_mem_cons, hvalues]

end

/-! ## Rules of the value's shape -/

/-- A property of the parts of a value that holds of the whole holds of every value. -/
theorem Native.induct {P : Native → Prop} (hnull : P .null) (hbool : ∀ b, P (.bool b))
    (hint : ∀ n, P (.int n)) (hstr : ∀ s, P (.str s))
    (hlist : ∀ items, (∀ item ∈ items, P item) → P (.list items))
    (hobj : ∀ fields : List (PyKey × Native), (∀ f ∈ fields, P f.2) → P (.obj fields)) :
    ∀ n, P n
  | .null => hnull
  | .bool b => hbool b
  | .int n => hint n
  | .str s => hstr s
  | .list items => hlist items fun item _ => item.induct hnull hbool hint hstr hlist hobj
  | .obj fields => hobj fields fun f hf =>
      have : sizeOf f.2 < 1 + sizeOf fields := by
        have hmem := List.sizeOf_lt_of_mem hf
        have hpair : sizeOf f = 1 + sizeOf f.1 + sizeOf f.2 := by
          cases f
          rfl
        omega
      f.2.induct hnull hbool hint hstr hlist hobj
termination_by n => sizeOf n

/-- The text of a value that has one. -/
def textOf (o : KeyOrder) (n : Native) : List Char :=
  match canonicalJson o n with
  | .ok text => text
  | .error _ => []

section

variable {o : KeyOrder} {n : Native} {text : List Char} {items : List Native}
variable {fields : List (PyKey × Native)} {parts : List (List Char)}

theorem textOf_of_ok (h : canonicalJson o n = .ok text) : textOf o n = text := by
  rw [textOf, h]

theorem canonicalItems_eq_ok : canonicalItems o items = .ok parts ↔
    (∀ item ∈ items, canonicalJson o item = .ok (textOf o item)) ∧ parts = items.map (textOf o) := by
  induction items generalizing parts with
  | nil => simp [canonicalItems, eq_comm]
  | cons item items ih =>
      simp only [canonicalItems, bind_eq_ok, pure_eq_ok, List.forall_mem_cons, List.map_cons]
      constructor
      · rintro ⟨text, htext, rest, hrest, rfl⟩
        obtain ⟨hitems, rfl⟩ := ih.1 hrest
        have hfirst := textOf_of_ok htext
        exact ⟨⟨hfirst.symm ▸ htext, hitems⟩, by rw [hfirst]⟩
      · rintro ⟨⟨hitem, hitems⟩, rfl⟩
        exact ⟨_, hitem, _, ih.2 ⟨hitems, rfl⟩, rfl⟩

/-- One entry's part of an object's text. -/
def partOf (text : Native → List Char) (f : PyKey × Native) : List Char :=
  fieldText f.1 (text f.2)

theorem canonicalFields_eq_ok : canonicalFields o fields = .ok parts ↔
    (∀ f ∈ fields, f.1.check = .ok () ∧ canonicalJson o f.2 = .ok (textOf o f.2)) ∧
      parts = fields.map (partOf (textOf o)) := by
  induction fields generalizing parts with
  | nil => simp [canonicalFields, eq_comm]
  | cons f fields ih =>
      simp only [canonicalFields, bind_eq_ok, pure_eq_ok, List.forall_mem_cons, List.map_cons]
      constructor
      · rintro ⟨⟨⟩, hcheck, text, htext, rest, hrest, rfl⟩
        obtain ⟨hfields, rfl⟩ := ih.1 hrest
        have hfirst := textOf_of_ok htext
        exact ⟨⟨⟨hcheck, hfirst.symm ▸ htext⟩, hfields⟩, by rw [partOf, hfirst]⟩
      · rintro ⟨⟨⟨hcheck, hvalue⟩, hfields⟩, rfl⟩
        exact ⟨_, hcheck, _, hvalue, _, ih.2 ⟨hfields, rfl⟩, rfl⟩

theorem readBackItems_eq_map (items : List Native) :
    readBackItems items = items.map readBack := by
  induction items with
  | nil => rfl
  | cons item items ih => rw [readBackItems, ih, List.map_cons]

/-- An entry as it is read back. -/
def readBackField (f : PyKey × Native) : PyKey × Native := (.str f.1.text, readBack f.2)

theorem readBackFields_eq_map (fields : List (PyKey × Native)) :
    readBackFields fields = fields.map readBackField := by
  induction fields with
  | nil => rfl
  | cons f fields ih => rw [readBackFields, ih, List.map_cons, readBackField]

end

/-! ## Entries under one key -/

section

variable {α : Type} {fields : List (PyKey × α)}

theorem lastOfEach_sublist (fields : List (PyKey × α)) : (lastOfEach fields).Sublist fields := by
  induction fields with
  | nil => exact .slnil
  | cons f fields ih =>
      simp only [lastOfEach]
      split_ifs
      · exact ih.cons f
      · exact ih.cons_cons f

theorem lastOfEach_ne_nil (h : fields ≠ []) : lastOfEach fields ≠ [] := by
  induction fields with
  | nil => exact absurd rfl h
  | cons f fields ih =>
      simp only [lastOfEach]
      split_ifs with hmem
      · exact ih (by rintro rfl; simp at hmem)
      · simp

variable (fields) in
/-- Nothing is lost exactly where no key comes twice. -/
theorem lastOfEach_eq_self : lastOfEach fields = fields ↔ (fields.map Prod.fst).Nodup := by
  induction fields with
  | nil => simp [lastOfEach]
  | cons f fields ih =>
      simp only [lastOfEach, List.map_cons, List.nodup_cons]
      split_ifs with hmem
      · refine ⟨fun h => ?_, fun h => absurd hmem h.1⟩
        have hlength := (lastOfEach_sublist fields).length_le
        rw [h, List.length_cons] at hlength
        omega
      · simp [hmem, ih]

end

/-! ## Joined texts -/

section

variable {p q : List Char} {ps qs : List (List Char)}

/-- The length of the parts with a comma behind each. -/
def weight (ps : List (List Char)) : ℕ := (ps.map fun p => p.length + 1).sum

theorem length_joined (ps : List (List Char)) : (joined ps).length = weight ps - 1 := by
  induction ps with
  | nil => rfl
  | cons p rest ih =>
      cases rest with
      | nil => simp [joined, weight]
      | cons q rest =>
          rw [joined, List.length_append, List.length_cons, ih]
          simp only [weight, List.map_cons, List.sum_cons]
          omega

/-- Texts of parts that are of the same lengths are the same only for the same parts. -/
theorem joined_inj (hlength : List.Forall₂ (fun p q => p.length = q.length) ps qs)
    (h : joined ps = joined qs) : ps = qs := by
  induction hlength with
  | nil => rfl
  | @cons p q ps qs hpq hrest ih =>
      cases hrest with
      | nil => rw [show p = q from h]
      | cons hpq' hrest' =>
          rw [joined, joined] at h
          obtain ⟨rfl, htail⟩ := List.append_inj h hpq
          rw [ih (List.cons_inj_right ',' |>.1 htail)]

theorem weight_le (h : List.Forall₂ (fun p q => p.length ≤ q.length) ps qs) :
    weight ps ≤ weight qs := by
  induction h with
  | nil => exact le_rfl
  | cons hpq _ ih =>
      simp only [weight, List.map_cons, List.sum_cons] at ih ⊢
      omega

/-- Parts no longer than others, and of the same weight, are of the same lengths. -/
theorem length_eq_of_weight (h : List.Forall₂ (fun p q => p.length ≤ q.length) ps qs)
    (hweight : weight ps = weight qs) :
    List.Forall₂ (fun p q => p.length = q.length) ps qs := by
  induction h with
  | nil => exact .nil
  | @cons p q ps qs hpq hrest ih =>
      have hle := weight_le hrest
      simp only [weight, List.map_cons, List.sum_cons] at hweight hle
      exact .cons (by omega) (ih (by unfold weight; omega))

theorem weight_sublist (h : ps.Sublist qs) : weight ps + (qs.length - ps.length) ≤ weight qs := by
  induction h with
  | slnil => exact le_rfl
  | @cons ps qs q hsub ih =>
      have hle := hsub.length_le
      simp only [weight, List.map_cons, List.sum_cons, List.length_cons] at ih ⊢
      omega
  | @cons_cons ps qs q hsub ih =>
      simp only [weight, List.map_cons, List.sum_cons, List.length_cons] at ih ⊢
      omega

theorem weight_perm (h : ps.Perm qs) : weight ps = weight qs := (h.map _).sum_eq

end

/-! ## Arranged entries -/

section

variable {α β : Type} {o : KeyOrder} {keys : List PyKey} {entries : List α}

theorem arrange_map (f : α → β) :
    o.arrange keys (entries.map f) = (o.arrange keys entries).map f := by
  unfold KeyOrder.arrange
  rw [List.map_filterMap]
  simp only [List.getElem?_map]

theorem filterMap_range_getElem? (entries : List α) :
    ((List.range entries.length).filterMap fun i => entries[i]?) = entries := by
  induction entries using List.reverseRecOn with
  | nil => rfl
  | append_singleton entries a ih =>
      rw [List.length_append, List.length_singleton, List.range_succ, List.filterMap_append]
      have hfront : ((List.range entries.length).filterMap fun i => (entries ++ [a])[i]?) =
          (List.range entries.length).filterMap fun i => entries[i]? := by
        refine List.filterMap_congr fun i hi => ?_
        rw [List.getElem?_append_left (List.mem_range.1 hi)]
      rw [hfront, ih]
      simp

theorem arrange_perm (hlength : entries.length = keys.length) :
    (o.arrange keys entries).Perm entries := by
  have hperm := (o.perm keys).filterMap fun i => entries[i]?
  rw [← hlength, filterMap_range_getElem?] at hperm
  exact hperm

theorem arrange_of_length_le_one (hlength : entries.length = keys.length)
    (hone : keys.length ≤ 1) : o.arrange keys entries = entries := by
  have hperm := arrange_perm (o := o) hlength
  match entries with
  | [] => exact hperm.eq_nil
  | [a] => exact List.perm_singleton.1 hperm
  | _ :: _ :: _ => simp only [List.length_cons] at hlength; omega

/-- Keys that compare are brought in order. -/
theorem arrange_sorted (h : Orderable keys) :
    (o.arrange keys keys).Pairwise fun a b => ¬ b.lt a := by
  unfold KeyOrder.arrange
  refine (o.sorts keys h).filterMap _ fun i j hij a ha b hb => ?_
  exact hij a ha b hb

end

/-! ## Texts of keys -/

section

variable {k : PyKey} {a b : PyStr} {x y : List Char}

theorem plain_ofText {s : String} (h : s.toList.all (fun c => Plain c.toNat) = true) :
    ∀ c ∈ ofText s, Plain c := by
  intro c hc
  obtain ⟨ch, hmem, rfl⟩ := List.mem_map.1 hc
  exact of_decide_eq_true (List.all_eq_true.1 h ch hmem)

theorem plain_of_isDigit {c : Char} (h : c.isDigit = true) : Plain c.toNat := by
  rw [Char.isDigit_iff_toNat] at h
  change 48 ≤ c.toNat ∧ c.toNat ≤ 57 at h
  unfold Plain
  omega

theorem plain_intText (n : ℤ) : ∀ c ∈ intText n, Plain c := by
  refine plain_ofText (List.all_eq_true.2 fun c hc => decide_eq_true ?_)
  cases n with
  | ofNat n =>
      have hmem : c ∈ n.repr.toList := hc
      rw [Nat.toList_repr] at hmem
      exact plain_of_isDigit (Nat.isDigit_of_mem_toDigits (by decide) (by decide) hmem)
  | negSucc n =>
      have hmem : c ∈ ("-" ++ (n + 1).repr).toList := hc
      rw [String.toList_append, List.mem_append, Nat.toList_repr] at hmem
      rcases hmem with hsign | hdigit
      · obtain rfl : c = '-' := by simpa using hsign
        decide
      · exact plain_of_isDigit (Nat.isDigit_of_mem_toDigits (by decide) (by decide) hdigit)

/-- The text of a number shows as it is. -/
theorem plain_text (h : k.number ≠ none) : ∀ c ∈ k.text, Plain c := by
  cases k with
  | none => exact absurd rfl h
  | bool b => cases b <;> exact plain_ofText (by decide +kernel)
  | int n => exact plain_intText n
  | float f =>
      simp only [PyKey.text]
      split
      · exact plain_ofText (by decide +kernel)
      · exact plain_ofText (by decide +kernel)
      · exact plain_ofText (by decide +kernel)
      · exact f.plain
  | str s => exact absurd rfl h
  | other => exact absurd rfl h

theorem escape_of_plain {c : ℕ} (h : Plain c) : escape c = [Char.ofNat c] := if_pos h

theorem quote_of_plain (h : ∀ c ∈ a, Plain c) : quote a = '"' :: (a.map Char.ofNat ++ ['"']) := by
  have hescaped : a.flatMap escape = a.map Char.ofNat := by
    induction a with
    | nil => rfl
    | cons c a ih =>
        rw [List.flatMap_cons, escape_of_plain (h c (by simp)),
          ih fun d hd => h d (by simp [hd])]
        rfl
  rw [quote, hescaped]

theorem toNat_ofNat_of_plain {c : ℕ} (h : Plain c) : (Char.ofNat c).toNat = c := by
  have hall : ∀ c < 0x7f, (Char.ofNat c).toNat = c := by decide
  exact hall c h.2.1

theorem ofNat_inj_of_plain {c d : ℕ} (hc : Plain c) (hd : Plain d)
    (h : Char.ofNat c = Char.ofNat d) : c = d := by
  rw [← toNat_ofNat_of_plain hc, h, toNat_ofNat_of_plain hd]

theorem ofNat_ne_quote {c : ℕ} (hc : Plain c) : Char.ofNat c ≠ '"' := fun h => by
  have hcode := toNat_ofNat_of_plain hc
  rw [h] at hcode
  exact hc.2.2.1 hcode.symm

/-- A quoted text that shows as it is ends where its quote does. -/
theorem quote_plain_inj (ha : ∀ c ∈ a, Plain c) (hb : ∀ c ∈ b, Plain c)
    (h : quote a ++ x = quote b ++ y) : a = b := by
  rw [quote_of_plain ha, quote_of_plain hb] at h
  simp only [List.cons_append, List.append_assoc, List.nil_append, List.cons.injEq,
    true_and] at h
  induction a generalizing b with
  | nil =>
      cases b with
      | nil => rfl
      | cons d b =>
          simp only [List.map_nil, List.map_cons, List.nil_append, List.cons_append,
            List.cons.injEq] at h
          exact absurd h.1.symm (ofNat_ne_quote (hb d (by simp)))
  | cons c a ih =>
      cases b with
      | nil =>
          simp only [List.map_nil, List.map_cons, List.nil_append, List.cons_append,
            List.cons.injEq] at h
          exact absurd h.1 (ofNat_ne_quote (ha c (by simp)))
      | cons d b =>
          simp only [List.map_cons, List.cons_append, List.cons.injEq] at h
          rw [ofNat_inj_of_plain (ha c (by simp)) (hb d (by simp)) h.1,
            ih (fun e he => ha e (by simp [he])) (fun e he => hb e (by simp [he])) h.2]

end

/-! ## One object -/

section

variable {α : Type} {A B : List α} {p q : α → List Char}

theorem forall₂_map {R : List Char → List Char → Prop} :
    List.Forall₂ R (A.map q) (A.map p) ↔ ∀ a ∈ A, R (q a) (p a) := by
  rw [List.forall₂_map_left_iff, List.forall₂_map_right_iff, List.forall₂_same]

theorem weight_map_le (h : ∀ a ∈ A, (q a).length ≤ (p a).length) :
    weight (A.map q) ≤ weight (A.map p) := weight_le (forall₂_map.2 h)

theorem length_eq_of_weight_map (h : ∀ a ∈ A, (q a).length ≤ (p a).length)
    (hweight : weight (A.map q) = weight (A.map p)) : ∀ a ∈ A, (q a).length = (p a).length :=
  forall₂_map.1 (length_eq_of_weight (forall₂_map.2 h) hweight)

theorem joined_map_inj (hlength : ∀ a ∈ A, (q a).length = (p a).length)
    (h : joined (A.map q) = joined (A.map p)) : ∀ a ∈ A, q a = p a :=
  List.map_inj_left.1 (joined_inj (forall₂_map.2 hlength) h)

theorem weight_map_pos (h : A ≠ []) (p : α → List Char) : 0 < weight (A.map p) := by
  cases A with
  | nil => exact absurd rfl h
  | cons a A => simp only [weight, List.map_cons, List.sum_cons]; omega

/-- Where no part is the beginning of another's text, the text tells the parts and their order. -/
theorem joined_order_inj (hlength : A.length = B.length)
    (hnext : ∀ a ∈ A, ∀ b ∈ B, ∀ x y, p a ++ x = q b ++ y → a = b ∧ p a = q b)
    (h : joined (A.map p) = joined (B.map q)) : A = B := by
  induction A generalizing B with
  | nil => exact (List.length_eq_zero_iff.1 hlength.symm).symm
  | cons a A ih =>
      cases B with
      | nil => simp at hlength
      | cons b B =>
          have htail : joined (A.map p) = joined (B.map q) → A = B := fun h =>
            ih (by simpa using hlength)
              (fun a' ha b' hb => hnext a' (by simp [ha]) b' (by simp [hb])) h
          have hhead := hnext a (by simp) b (by simp)
          cases A with
          | nil =>
              obtain rfl : B = [] := List.length_eq_zero_iff.1 (by simpa using hlength.symm)
              obtain ⟨rfl, -⟩ := hhead [] [] (by simpa [joined] using h)
              rfl
          | cons a' A =>
              cases B with
              | nil => simp at hlength
              | cons b' B =>
                  simp only [List.map_cons, joined] at h htail
                  obtain ⟨rfl, hpart⟩ := hhead _ _ h
                  rw [hpart] at h
                  rw [htail (List.cons_inj_right ',' |>.1 (List.append_cancel_left h))]

end

section

variable {o : KeyOrder} {fields kept : List (PyKey × Native)}

/-- The names of an object's entries. -/
def names (fields : List (PyKey × Native)) : List PyStr := fields.map fun f => f.1.text

theorem names_perm (h : kept.Perm fields) : (names kept).Perm (names fields) := h.map _

theorem eq_of_name (hnodup : (names fields).Nodup) {f g : PyKey × Native} (hf : f ∈ fields)
    (hg : g ∈ fields) (h : f.1.text = g.1.text) : f = g :=
  List.inj_on_of_nodup_map hnodup hf hg h

/-- The entries of an object in the order of their keys. -/
def KeyOrder.inOrder (o : KeyOrder) (fields : List (PyKey × Native)) : List (PyKey × Native) :=
  o.arrange (fields.map Prod.fst) fields

/-- The entries in the order of their names. -/
def KeyOrder.byName (o : KeyOrder) (fields : List (PyKey × Native)) : List (PyKey × Native) :=
  o.arrange (fields.map fun f => .str f.1.text) fields

variable (o fields) in
theorem inOrder_perm : (o.inOrder fields).Perm fields := arrange_perm (by simp)

variable (o fields) in
theorem byName_perm : (o.byName fields).Perm fields := arrange_perm (by simp)

theorem textOrdered_iff : o.TextOrdered (fields.map Prod.fst) ↔
    (names (o.inOrder fields)).Pairwise (· < ·) := by
  unfold KeyOrder.TextOrdered names KeyOrder.inOrder
  rw [List.map_map, arrange_map]
  rfl

variable (o fields) in
/-- Strings are brought in order of their code points. -/
theorem names_byName : (names (o.byName fields)).Pairwise (· ≤ ·) := by
  have horderable : Orderable (fields.map fun f => .str f.1.text) := .inl fun k hk => by
    obtain ⟨f, -, rfl⟩ := List.mem_map.1 hk
    rfl
  have hsorted := arrange_sorted (o := o) horderable
  rw [arrange_map, List.pairwise_map] at hsorted
  unfold names KeyOrder.byName
  rw [List.pairwise_map]
  exact hsorted.imp fun h => not_lt.1 h

/-- Where the texts increase, both orders are the one order. -/
theorem byName_eq_inOrder (h : o.TextOrdered (fields.map Prod.fst)) :
    (names fields).Nodup ∧ o.byName fields = o.inOrder fields := by
  rw [textOrdered_iff] at h
  have hnodup : (names fields).Nodup :=
    (names_perm (inOrder_perm o fields)).nodup_iff.1 (h.imp fun hlt => hlt.ne)
  refine ⟨hnodup, ?_⟩
  have hbyName := names_byName o fields
  unfold names at h hbyName
  rw [List.pairwise_map] at h hbyName
  have hperm := (byName_perm o fields).trans (inOrder_perm o fields).symm
  refine hperm.eq_of_pairwise (fun f g hf hg hfg hgf => ?_) hbyName (h.imp fun hlt => hlt.le)
  exact eq_of_name hnodup ((byName_perm o fields).mem_iff.1 hf)
    ((inOrder_perm o fields).mem_iff.1 hg) (le_antisymm hfg hgf)

/-- Written and read again, the parts of an object make the same text only where its entries are in
the one order and every part is the same. -/
theorem order_of_same_text {p q : PyKey × Native → List Char}
    (hcomparable : Comparable (fields.map Prod.fst)) (hnodup : (names fields).Nodup)
    (hname : ∀ f, ∃ x y, p f = quote f.1.text ++ x ∧ q f = quote f.1.text ++ y)
    (hlength : ∀ f ∈ fields, (q f).length = (p f).length)
    (h : joined ((o.byName fields).map q) = joined ((o.inOrder fields).map p)) :
    o.byName fields = o.inOrder fields ∧ ∀ f ∈ fields, q f = p f := by
  have horder : o.byName fields = o.inOrder fields := by
    rcases hcomparable with hone | hstr | hnumber
    · unfold KeyOrder.byName KeyOrder.inOrder
      rw [arrange_of_length_le_one (by simp) (by simpa using hone),
        arrange_of_length_le_one (by simp) hone]
    · have hkeys : (fields.map fun f => PyKey.str f.1.text) = fields.map Prod.fst := by
        refine List.map_congr_left fun f hf => ?_
        have hkey := hstr f.1 (List.mem_map_of_mem hf)
        cases hf1 : f.1 with
        | str s => rfl
        | _ => rw [hf1] at hkey; exact absurd hkey (by simp [PyKey.isStr])
      unfold KeyOrder.byName KeyOrder.inOrder
      rw [hkeys]
    · have hlengths := (byName_perm o fields).length_eq.trans (inOrder_perm o fields).length_eq.symm
      refine joined_order_inj hlengths (fun f hf g hg x y hxy => ?_) h
      have hf' := (byName_perm o fields).mem_iff.1 hf
      have hg' := (inOrder_perm o fields).mem_iff.1 hg
      obtain ⟨xf, yf, -, hqf⟩ := hname f
      obtain ⟨xg, yg, hpg, -⟩ := hname g
      have hnamed : f.1.text = g.1.text := by
        rw [hqf, hpg, List.append_assoc, List.append_assoc] at hxy
        exact quote_plain_inj (plain_text (hnumber f.1 (List.mem_map_of_mem hf')))
          (plain_text (hnumber g.1 (List.mem_map_of_mem hg'))) hxy
      obtain rfl := eq_of_name hnodup hf' hg' hnamed
      exact ⟨rfl, (List.append_inj hxy (hlength f hf')).1⟩
  refine ⟨horder, fun f hf => ?_⟩
  rw [horder] at h
  exact joined_map_inj (fun g hg => hlength g ((inOrder_perm o fields).mem_iff.1 hg)) h f
    ((inOrder_perm o fields).mem_iff.2 hf)

end

/-! ## The round trip -/

/-- The text of the stored copy exists, is no longer, and is the same just for a stable value. -/
def RoundTrips (o : KeyOrder) (n : Native) : Prop :=
  ∀ text, canonicalJson o n = .ok text → ∃ text', canonicalJson o (readBack n) = .ok text' ∧
    text'.length ≤ text.length ∧ (text' = text ↔ n.Stable o)

section

variable {o : KeyOrder} {n : Native} {items : List Native} {fields : List (PyKey × Native)}

theorem roundTrips_leaf (hread : readBack n = n) (hkeys : n.keySets = []) : RoundTrips o n := by
  intro text htext
  refine ⟨text, by rw [hread, htext], le_rfl, iff_of_true rfl fun keys hmem => ?_⟩
  rw [hkeys] at hmem
  exact absurd hmem List.not_mem_nil

/-- What a value's text and its reread text have to do with each other, where the value has one. -/
theorem RoundTrips.spec (h : RoundTrips o n) (hok : canonicalJson o n = .ok (textOf o n)) :
    canonicalJson o (readBack n) = .ok (textOf o (readBack n)) ∧
      (textOf o (readBack n)).length ≤ (textOf o n).length ∧
      (textOf o (readBack n) = textOf o n ↔ n.Stable o) := by
  obtain ⟨text', htext', hlength, hiff⟩ := h _ hok
  rw [textOf_of_ok htext']
  exact ⟨htext', hlength, hiff⟩

theorem canonicalJson_list {text : List Char} : canonicalJson o (.list items) = .ok text ↔
    (∀ item ∈ items, canonicalJson o item = .ok (textOf o item)) ∧
      text = '[' :: (joined (items.map (textOf o)) ++ [']']) := by
  simp only [canonicalJson, bind_eq_ok, pure_eq_ok, canonicalItems_eq_ok]
  constructor
  · rintro ⟨parts, ⟨hitems, rfl⟩, rfl⟩
    exact ⟨hitems, rfl⟩
  · rintro ⟨hitems, rfl⟩
    exact ⟨_, ⟨hitems, rfl⟩, rfl⟩

theorem canonicalJson_obj {text : List Char} : canonicalJson o (.obj fields) = .ok text ↔
    (∀ f ∈ fields, f.1.check = .ok () ∧ canonicalJson o f.2 = .ok (textOf o f.2)) ∧
      Comparable (fields.map Prod.fst) ∧
      text = '\x7b' :: (joined ((o.inOrder fields).map (partOf (textOf o))) ++ ['\x7d']) := by
  simp only [canonicalJson, bind_eq_ok, pure_eq_ok, canonicalFields_eq_ok, refuse_eq_ok, not_not]
  constructor
  · rintro ⟨parts, ⟨hfields, rfl⟩, ⟨⟩, hcomparable, rfl⟩
    exact ⟨hfields, hcomparable, by rw [arrange_map]; rfl⟩
  · rintro ⟨hfields, hcomparable, rfl⟩
    exact ⟨_, ⟨hfields, rfl⟩, (), hcomparable, by rw [arrange_map]; rfl⟩

/-- The parts of a value as it is written, and as it is read back and written again. -/
theorem roundTrips_list (ih : ∀ item ∈ items, RoundTrips o item) :
    RoundTrips o (.list items) := by
  intro text htext
  obtain ⟨hitems, rfl⟩ := canonicalJson_list.1 htext
  have hspec := fun item hmem => (ih item hmem).spec (hitems item hmem)
  refine ⟨'[' :: (joined (items.map fun n => textOf o (readBack n)) ++ [']']), ?_, ?_, ?_⟩
  · rw [readBack, readBackItems_eq_map, canonicalJson_list, List.map_map]
    refine ⟨fun n hn => ?_, rfl⟩
    obtain ⟨item, hmem, rfl⟩ := List.mem_map.1 hn
    exact (hspec item hmem).1
  · have hweight := weight_map_le fun item hmem => (hspec item hmem).2.1
    simp only [List.length_cons, List.length_append, length_joined]
    omega
  · rw [stable_list]
    constructor
    · intro h item hmem
      have hjoined : joined (items.map fun n => textOf o (readBack n)) =
          joined (items.map (textOf o)) := by simpa using h
      have hlength := congrArg List.length hjoined
      rw [length_joined, length_joined] at hlength
      have hpos := weight_map_pos (List.ne_nil_of_mem hmem) (textOf o)
      have hpos' := weight_map_pos (List.ne_nil_of_mem hmem) fun n => textOf o (readBack n)
      have heach := length_eq_of_weight_map (fun item hmem => (hspec item hmem).2.1)
        (show weight _ = weight _ by omega)
      exact (hspec item hmem).2.2.1 (joined_map_inj heach hjoined item hmem)
    · intro h
      rw [List.map_congr_left fun item hmem => (hspec item hmem).2.2.2 (h item hmem)]

/-- A part of an object as it is read back and written again. -/
def partAgain (o : KeyOrder) : PyKey × Native → List Char := partOf fun n => textOf o (readBack n)

theorem partAgain_length {f : PyKey × Native} :
    (partAgain o f).length ≤ (partOf (textOf o) f).length ↔
      (textOf o (readBack f.2)).length ≤ (textOf o f.2).length := by
  simp [partAgain, partOf, fieldText]

theorem partAgain_eq {f : PyKey × Native} : partAgain o f = partOf (textOf o) f ↔
    textOf o (readBack f.2) = textOf o f.2 := by
  simp [partAgain, partOf, fieldText]

theorem inOrder_readBack : o.inOrder (fields.map readBackField) =
    (o.byName fields).map readBackField := by
  unfold KeyOrder.inOrder KeyOrder.byName
  rw [arrange_map, List.map_map]
  rfl

/-- What of an object is read back, and its text. -/
theorem readBack_obj (hspec : ∀ f ∈ fields,
    canonicalJson o (readBack f.2) = .ok (textOf o (readBack f.2))) :
    ∃ kept : List (PyKey × Native), kept.Sublist fields ∧ (fields ≠ [] → kept ≠ []) ∧
      (kept = fields ↔ (names fields).Nodup) ∧
      canonicalJson o (readBack (.obj fields)) =
        .ok ('\x7b' :: (joined ((o.byName kept).map (partAgain o)) ++ ['\x7d'])) := by
  obtain ⟨kept, hsub, hkept⟩ := List.sublist_map_iff.1
    (lastOfEach_sublist (fields.map readBackField))
  refine ⟨kept, hsub, fun hne hnil => ?_, ?_, ?_⟩
  · rw [hnil] at hkept
    exact lastOfEach_ne_nil (by simpa using hne) hkept
  · have hself := lastOfEach_eq_self (fields.map readBackField)
    rw [hkept, List.map_map] at hself
    have hnodup : (fields.map (Prod.fst ∘ readBackField)).Nodup ↔ (names fields).Nodup := by
      rw [show fields.map (Prod.fst ∘ readBackField) = (names fields).map PyKey.str from
        by simp [names, readBackField]]
      exact List.nodup_map_iff fun a b h => PyKey.str.inj h
    rw [← hnodup, ← hself]
    refine ⟨fun h => by rw [h], fun h => hsub.eq_of_length ?_⟩
    simpa using congrArg List.length h
  · rw [readBack, readBackFields_eq_map, hkept, canonicalJson_obj]
    refine ⟨fun f hf => ?_, .inr (.inl fun k hk => ?_), ?_⟩
    · obtain ⟨g, hg, rfl⟩ := List.mem_map.1 hf
      exact ⟨rfl, hspec g (hsub.subset hg)⟩
    · obtain ⟨f, hf, rfl⟩ := List.mem_map.1 hk
      obtain ⟨g, -, rfl⟩ := List.mem_map.1 hf
      rfl
    · rw [inOrder_readBack, List.map_map]
      rfl

theorem roundTrips_obj (ih : ∀ f ∈ fields, RoundTrips o f.2) : RoundTrips o (.obj fields) := by
  intro text htext
  obtain ⟨hfields, hcomparable, rfl⟩ := canonicalJson_obj.1 htext
  have hspec := fun f hf => (ih f hf).spec (hfields f hf).2
  obtain ⟨kept, hsub, hne, hall, hread⟩ := readBack_obj fun f hf => (hspec f hf).1
  have hshorter : ∀ f ∈ fields, (partAgain o f).length ≤ (partOf (textOf o) f).length :=
    fun f hf => partAgain_length.2 (hspec f hf).2.1
  have hkept := weight_sublist (hsub.map (partAgain o))
  have hfewer := weight_map_le hshorter
  have hagain := weight_perm ((byName_perm o kept).map (partAgain o))
  have hfirst := weight_perm ((inOrder_perm o fields).map (partOf (textOf o)))
  refine ⟨_, hread, ?_, ?_⟩
  · simp only [List.length_cons, List.length_append, length_joined]
    omega
  · rw [stable_obj]
    constructor
    · intro h
      have hjoined : joined ((o.byName kept).map (partAgain o)) =
          joined ((o.inOrder fields).map (partOf (textOf o))) := by simpa using h
      have hlength := congrArg List.length hjoined
      rw [length_joined, length_joined, hagain, hfirst] at hlength
      simp only [List.length_map] at hkept
      have hweight : weight (kept.map (partAgain o)) = weight (fields.map (partOf (textOf o))) := by
        by_cases hnil : fields = []
        · subst hnil
          rw [List.sublist_nil.1 hsub]
          rfl
        · have hpos := weight_map_pos hnil (partOf (textOf o))
          have hpos' := weight_map_pos (hne hnil) (partAgain o)
          omega
      obtain rfl : kept = fields := hsub.eq_of_length (by have := hsub.length_le; omega)
      have hnodup := hall.1 rfl
      obtain ⟨horder, hparts⟩ := order_of_same_text hcomparable hnodup
        (fun f => ⟨_, _, rfl, rfl⟩) (length_eq_of_weight_map hshorter hweight) hjoined
      refine ⟨?_, fun f hf => (hspec f hf).2.2.1 (partAgain_eq.1 (hparts f hf))⟩
      rw [textOrdered_iff, ← horder]
      exact ((names_byName o _).and ((names_perm (byName_perm o _)).nodup_iff.2 hnodup)).imp
        fun hab => lt_of_le_of_ne hab.1 hab.2
    · rintro ⟨hordered, hstable⟩
      obtain ⟨hnodup, horder⟩ := byName_eq_inOrder hordered
      have hparts : ∀ f ∈ o.inOrder fields, _ := fun f hf =>
        partAgain_eq.2 ((hspec f ((inOrder_perm o fields).mem_iff.1 hf)).2.2.2
          (hstable f ((inOrder_perm o fields).mem_iff.1 hf)))
      rw [hall.2 hnodup, horder, List.map_congr_left hparts]

theorem roundTrips (o : KeyOrder) (n : Native) : RoundTrips o n := by
  induction n using Native.induct with
  | hnull => exact roundTrips_leaf rfl (by simp [Native.keySets])
  | hbool b => exact roundTrips_leaf rfl (by simp [Native.keySets])
  | hint n => exact roundTrips_leaf rfl (by simp [Native.keySets])
  | hstr s => exact roundTrips_leaf rfl (by simp [Native.keySets])
  | hlist items ih => exact roundTrips_list ih
  | hobj fields ih => exact roundTrips_obj ih

end

/-! ## String keys -/

/-- Distinct strings sort as their texts do. -/
theorem textOrdered_of_str {o : KeyOrder} {keys : List PyKey} (hstr : ∀ k ∈ keys, k.isStr)
    (hnodup : keys.Nodup) : o.TextOrdered keys := by
  have hsorted := arrange_sorted (o := o) (.inl hstr)
  have hperm : (o.arrange keys keys).Perm keys := arrange_perm rfl
  unfold KeyOrder.TextOrdered
  rw [arrange_map, List.pairwise_map]
  refine (hsorted.and (hperm.nodup_iff.2 hnodup)).imp_of_mem fun {a b} ha hb hab => ?_
  have hastr := hstr a (hperm.mem_iff.1 ha)
  have hbstr := hstr b (hperm.mem_iff.1 hb)
  cases a with
  | str s =>
      cases b with
      | str t =>
          exact lt_of_le_of_ne (not_lt.1 hab.1) fun heq => hab.2 (congrArg PyKey.str heq)
      | _ => exact absurd hbstr (by simp [PyKey.isStr])
  | _ => exact absurd hastr (by simp [PyKey.isStr])

/-! ## A stable sort -/

/-- What a key is sorted by. -/
def PyKey.rank (k : PyKey) : Extended ×ₗ PyStr :=
  match k with
  | str s => toLex (⊥, s)
  | k => toLex ((k.number.getD Option.none).getD ⊥, [])

def rankAt (keys : List PyKey) (i : ℕ) : Extended ×ₗ PyStr := (keys.getD i .none).rank

theorem rank_number {k : PyKey} {x : Extended} (h : k.number = some (some x)) :
    k.rank = toLex (x, []) := by
  cases k with
  | str s => simp [PyKey.number] at h
  | _ => simp [PyKey.rank, h]

/-- Keys that compare are compared as their ranks are. -/
theorem rank_le {keys : List PyKey} (h : Orderable keys) {a b : PyKey} (ha : a ∈ keys)
    (hb : b ∈ keys) (hle : a.rank ≤ b.rank) : ¬ b.lt a := by
  rcases h with hstr | hnumber
  · have hastr := hstr a ha
    have hbstr := hstr b hb
    cases a with
    | str s =>
        cases b with
        | str t =>
            simp only [PyKey.rank, Prod.Lex.le_iff, ofLex_toLex, lt_irrefl, true_and,
              false_or] at hle
            exact not_lt.2 hle
        | _ => exact absurd hbstr (by simp [PyKey.isStr])
    | _ => exact absurd hastr (by simp [PyKey.isStr])
  · obtain ⟨x, hx⟩ := hnumber a ha
    obtain ⟨y, hy⟩ := hnumber b hb
    rw [rank_number hx, rank_number hy, Prod.Lex.le_iff] at hle
    have hxy : x ≤ y := by
      rcases hle with hlt | ⟨heq, -⟩
      · exact hlt.le
      · exact heq.le
    cases a with
    | str s => simp [PyKey.number] at hx
    | _ => simpa [PyKey.lt, hx, hy] using hxy

/-- The positions in the order of the keys, the earlier first. -/
def stableOrder : KeyOrder where
  order keys := (List.range keys.length).insertionSort fun i j => rankAt keys i ≤ rankAt keys j
  perm _ := List.perm_insertionSort _ _
  sorts keys h := by
    have : Std.Total fun i j => rankAt keys i ≤ rankAt keys j := ⟨fun i j => le_total _ _⟩
    have : IsTrans ℕ fun i j => rankAt keys i ≤ rankAt keys j := ⟨fun i j k => le_trans⟩
    refine (List.pairwise_insertionSort (fun i j => rankAt keys i ≤ rankAt keys j) _).imp
      fun {i j} hle a ha b hb => ?_
    rw [rankAt, rankAt, List.getD_eq_getElem?_getD, List.getD_eq_getElem?_getD,
      Option.mem_def.1 ha, Option.mem_def.1 hb] at hle
    exact rank_le h (List.mem_of_getElem? ha) (List.mem_of_getElem? hb) hle

/-! ## Hashed and verified -/

/-- Hashed payloads survive storage exactly when the keys of every dictionary inside have, in the
order they sort in, increasing texts. -/
theorem payload_survives_iff (o : KeyOrder) (v : PyValue) (text : List Char)
    (h : canonicalJson o (serializeValue v) = .ok text) :
    canonicalJson o (readBack (serializeValue v)) = .ok text ↔
      ∀ keys ∈ v.keySets, o.TextOrdered keys := by
  obtain ⟨text', htext', -, hiff⟩ := roundTrips o (serializeValue v) text h
  rw [htext', Except.ok.injEq, hiff, Native.Stable, keySets_serializeValue]

/-- A dictionary with an integer key and one inside it. -/
def countsByYear : PyValue :=
  .dict [(.str (ofText "total"), .int 3), (.str (ofText "by_year"), .dict [(.int 2024, .float
    ⟨some ((3 / 2 : ℚ) : WithTop ℚ), ofText "1.5", by decide⟩)])]

theorem countsByYear_survives :
    canonicalJson stableOrder (readBack (serializeValue countsByYear)) =
      .ok "\x7b\"by_year\":\x7b\"2024\":\"1.5\"\x7d,\"total\":3\x7d".toList :=
  (payload_survives_iff stableOrder countsByYear
    "\x7b\"by_year\":\x7b\"2024\":\"1.5\"\x7d,\"total\":3\x7d".toList (by decide +kernel)).2
    (by decide +kernel)

/-- Two keys that sort as numbers one way and as texts the other. -/
def countsByMonth : PyValue := .dict [(.int 2, .int 0), (.int 10, .int 0)]

theorem countsByMonth_broken :
    canonicalJson stableOrder (serializeValue countsByMonth) =
        .ok "\x7b\"2\":0,\"10\":0\x7d".toList ∧
      canonicalJson stableOrder (readBack (serializeValue countsByMonth)) =
        .ok "\x7b\"10\":0,\"2\":0\x7d".toList ∧
      canonicalJson stableOrder (readBack (serializeValue countsByMonth)) ≠
        canonicalJson stableOrder (serializeValue countsByMonth) := by
  decide +kernel

/-! ## The verifier -/

/-- A row's content as `build_payload` takes it. -/
structure HashedRow where
  table : PyStr
  rowPk : ℤ
  action : PyStr
  actorId : Option ℤ
  requestId : Option PyStr
  createdAt : PyStr
  old : Native
  new : Native

/-- `build_payload`. -/
def HashedRow.payload (row : HashedRow) : Native :=
  .obj [(.str (ofText "table"), .str row.table),
    (.str (ofText "row_pk"), .int row.rowPk),
    (.str (ofText "action"), .str row.action),
    (.str (ofText "actor_id"), row.actorId.elim .null .int),
    (.str (ofText "request_id"), row.requestId.elim .null .str),
    (.str (ofText "at"), .str row.createdAt),
    (.str (ofText "old"), row.old),
    (.str (ofText "new"), row.new)]

/-- The row with its two JSON columns as the database gives them back. -/
def HashedRow.stored (row : HashedRow) : HashedRow :=
  { row with old := readBack row.old, new := readBack row.new }

/-- `compute_row_hash`. -/
def computeRowHash {H : Type} (sha256 : List Char → H) (o : KeyOrder) (prevHash : List Char)
    (payload : Native) : Except Fault H := do
  let text ← canonicalJson o payload
  return sha256 (prevHash ++ '|' :: text)

section

variable {o : KeyOrder} {row : HashedRow} {text : List Char}

/-- What the verifier rebuilds is the payload read back. -/
theorem payload_stored (row : HashedRow) : row.stored.payload = readBack row.payload := by
  have hactor : readBack (row.actorId.elim .null .int) = row.actorId.elim .null .int := by
    cases row.actorId <;> rfl
  have hrequest : readBack (row.requestId.elim .null .str) = row.requestId.elim .null .str := by
    cases row.requestId <;> rfl
  simp only [HashedRow.payload, HashedRow.stored, readBack, readBackFields, hactor, hrequest]
  rfl

theorem payload_stable : row.payload.Stable o ↔ row.old.Stable o ∧ row.new.Stable o := by
  have hleaf : ∀ n : Native, n.keySets = [] → n.Stable o := fun n hn keys hmem => by
    rw [hn] at hmem
    exact absurd hmem List.not_mem_nil
  have hactor : (row.actorId.elim .null .int : Native).Stable o := by
    cases row.actorId <;> exact hleaf _ (by simp [Native.keySets])
  have hrequest : (row.requestId.elim .null .str : Native).Stable o := by
    cases row.requestId <;> exact hleaf _ (by simp [Native.keySets])
  have hstr : ∀ s, (Native.str s).Stable o := fun s => hleaf _ (by simp [Native.keySets])
  have hint : (Native.int row.rowPk).Stable o := hleaf _ (by simp [Native.keySets])
  rw [HashedRow.payload, stable_obj]
  simp only [List.forall_mem_cons, List.not_mem_nil, false_imp_iff, implies_true, and_true, hstr,
    hint, hactor, hrequest, true_and]
  simp only [List.map_cons, List.map_nil]
  exact and_iff_right (textOrdered_of_str (by decide +kernel) (by decide +kernel))

/-- The verifier rebuilds the text that was hashed exactly when both columns are stable. -/
theorem rowText_recomputed (htext : canonicalJson o row.payload = .ok text) :
    canonicalJson o row.stored.payload = .ok text ↔ row.old.Stable o ∧ row.new.Stable o := by
  obtain ⟨text', htext', -, hiff⟩ := roundTrips o row.payload text htext
  rw [payload_stored, htext', Except.ok.injEq, hiff, payload_stable]

/-- A row with stable columns verifies whatever the hash is. -/
theorem rowHash_recomputed {H : Type} (sha256 : List Char → H) (prevHash : List Char) {hash : H}
    (hhash : computeRowHash sha256 o prevHash row.payload = .ok hash) (hold : row.old.Stable o)
    (hnew : row.new.Stable o) : computeRowHash sha256 o prevHash row.stored.payload = .ok hash := by
  simp only [computeRowHash, bind_eq_ok, pure_eq_ok] at hhash ⊢
  obtain ⟨text, htext, rfl⟩ := hhash
  exact ⟨text, (rowText_recomputed htext).2 ⟨hold, hnew⟩, rfl⟩

end

end OfficeConnect.Audit
