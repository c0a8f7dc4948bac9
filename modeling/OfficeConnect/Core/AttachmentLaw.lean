import OfficeConnect.Core.Attachments

/-!
# What an attachment's bytes are

The magic bytes of an accepted upload, the blobs of the volume, and what a scan makes of a row.
-/

namespace OfficeConnect.Attachments

open Lib

/-! ## Magic bytes -/

section Sniffing

variable {data rest : Bytes} {m : Mime}

/-- Bytes that are recognised fill a header. -/
theorem header_of_sniff (h : sniffMime data = some m) : ∃ b₀ b₁ b₂ b₃ b₄ b₅ b₆ b₇ b₈ b₉ b₁₀ b₁₁ rest,
    data = b₀ :: b₁ :: b₂ :: b₃ :: b₄ :: b₅ :: b₆ :: b₇ :: b₈ :: b₉ :: b₁₀ :: b₁₁ :: rest := by
  have hlength : 12 ≤ data.length := by
    by_contra hshort
    rw [sniffMime, if_pos (by omega)] at h
    cases h
  rcases data with _ | ⟨b₀, _ | ⟨b₁, _ | ⟨b₂, _ | ⟨b₃, _ | ⟨b₄, _ | ⟨b₅, _ | ⟨b₆, _ | ⟨b₇, _ | ⟨b₈,
    _ | ⟨b₉, _ | ⟨b₁₀, _ | ⟨b₁₁, rest⟩⟩⟩⟩⟩⟩⟩⟩⟩⟩⟩⟩
  case cons.cons.cons.cons.cons.cons.cons.cons.cons.cons.cons.cons =>
    exact ⟨b₀, b₁, b₂, b₃, b₄, b₅, b₆, b₇, b₈, b₉, b₁₀, b₁₁, rest, rfl⟩
  all_goals
    simp only [List.length_cons, List.length_nil] at hlength
    omega

/-- The type that is recognised, by its magic bytes. -/
theorem magic_of_sniff (h : sniffMime data = some m) :
    (m = .jpeg ∧ slice data 0 3 = jpegMagic) ∨ (m = .png ∧ slice data 0 8 = pngMagic) ∨
      (m = .webp ∧ slice data 0 4 = riffMagic ∧ slice data 8 12 = webpMagic) ∨
      (m = .pdf ∧ slice data 0 5 = pdfMagic) ∨
      (m = .heic ∧ slice data 4 8 = ftypMagic ∧ slice data 8 12 ∈ heifBrands) := by
  unfold sniffMime at h
  split_ifs at h with _ hjpeg hpng hwebp hpdf hheic
  · exact .inl ⟨(Option.some.inj h).symm, hjpeg⟩
  · exact .inr (.inl ⟨(Option.some.inj h).symm, hpng⟩)
  · exact .inr (.inr (.inl ⟨(Option.some.inj h).symm, hwebp⟩))
  · exact .inr (.inr (.inr (.inl ⟨(Option.some.inj h).symm, hpdf⟩)))
  · exact .inr (.inr (.inr (.inr ⟨(Option.some.inj h).symm, hheic⟩)))

/-- A byte that is no space and not `<` is the end of an XML guess. -/
theorem not_xml_of_head {b : UInt8} (hspace : isSpace b = false) (hlower : lower b ≠ 0x3c) :
    looksLikeXml (b :: rest) = false := by
  have hhead : (0x3c == lower b) = false := beq_false_of_ne hlower.symm
  simp [looksLikeXml, hspace, xmlMagic, svgMagic, List.isPrefixOf, hhead]

theorem lower_eq_lt {b : UInt8} (h : lower b = 0x3c) : b = 0x3c := by
  unfold lower at h
  split_ifs at h with hupper
  · have hsum : (b.toNat + 32) % 256 = 60 := by simpa using congrArg UInt8.toNat h
    have hlow : 65 ≤ b.toNat := UInt8.le_iff_toNat_le.1 hupper.1
    have hhigh : b.toNat ≤ 90 := UInt8.le_iff_toNat_le.1 hupper.2
    omega
  · exact h

theorem looksLikeXml_space {b : UInt8} (h : isSpace b = true) :
    looksLikeXml (b :: rest) = looksLikeXml rest := by
  rw [looksLikeXml, looksLikeXml, List.dropWhile_cons_of_pos h]

/-- A box type at the fourth byte or before leaves no room for an XML head. -/
theorem not_xml_of_box (b₁ b₂ b₃ : UInt8) (rest : Bytes) :
    looksLikeXml (b₁ :: b₂ :: b₃ :: (ftypMagic ++ rest)) = false := by
  have hf : isSpace 0x66 = false := by decide
  have hlower : lower 0x66 = 0x66 := by decide
  by_cases h₁ : isSpace b₁ = true
  · by_cases h₂ : isSpace b₂ = true
    · by_cases h₃ : isSpace b₃ = true
      · rw [looksLikeXml_space h₁, looksLikeXml_space h₂, looksLikeXml_space h₃]
        exact not_xml_of_head hf (by decide)
      · rw [looksLikeXml_space h₁, looksLikeXml_space h₂]
        simp [looksLikeXml, h₃, ftypMagic, xmlMagic, svgMagic, List.isPrefixOf, hlower]
    · rw [looksLikeXml_space h₁]
      simp [looksLikeXml, h₂, ftypMagic, xmlMagic, svgMagic, List.isPrefixOf, hlower]
  · simp [looksLikeXml, h₁, ftypMagic, xmlMagic, svgMagic, List.isPrefixOf, hlower]

/-- Among the bytes that pass for an allowed type, the XML check stops exactly those that are headed
`<svg` and go on as a HEIF box. -/
theorem looksLikeXml_iff_of_sniff (h : sniffMime data = some m) :
    looksLikeXml data = true ↔ m = .heic ∧ (slice data 0 4).map lower = svgMagic := by
  obtain ⟨b₀, b₁, b₂, b₃, b₄, b₅, b₆, b₇, b₈, b₉, b₁₀, b₁₁, rest, rfl⟩ := header_of_sniff h
  rcases magic_of_sniff h with ⟨rfl, hmagic⟩ | ⟨rfl, hmagic⟩ | ⟨rfl, hmagic, -⟩ | ⟨rfl, hmagic⟩ |
    ⟨rfl, hmagic, -⟩
  case inr.inr.inr.inr =>
    obtain ⟨rfl, rfl, rfl, rfl⟩ : b₄ = 0x66 ∧ b₅ = 0x74 ∧ b₆ = 0x79 ∧ b₇ = 0x70 := by
      simpa [slice, ftypMagic] using hmagic
    have hlower : lower 0x66 = 0x66 := by decide
    by_cases h₀ : isSpace b₀ = true
    · have hhead : lower b₀ ≠ 0x3c := fun heq => by
        rw [lower_eq_lt heq] at h₀
        exact absurd h₀ (by decide)
      have hbox := not_xml_of_box b₁ b₂ b₃ (b₈ :: b₉ :: b₁₀ :: b₁₁ :: rest)
      rw [looksLikeXml_space h₀]
      constructor
      · intro hxml
        exact absurd (hbox.symm.trans hxml) (by decide)
      · rintro ⟨-, hsvg⟩
        exact absurd (List.cons.inj hsvg).1 hhead
    · simp only [looksLikeXml, List.dropWhile_cons_of_neg h₀, xmlMagic, svgMagic, slice,
        List.isPrefixOf, List.take_succ_cons, List.map_cons, hlower, Bool.or_eq_true,
        Bool.and_eq_true, beq_iff_eq]
      grind
  case inl =>
    obtain rfl : b₀ = 0xff := (List.cons.inj hmagic).1
    simp [not_xml_of_head (show isSpace 0xff = false by decide) (by decide)]
  case inr.inl =>
    obtain rfl : b₀ = 0x89 := (List.cons.inj hmagic).1
    simp [not_xml_of_head (show isSpace 0x89 = false by decide) (by decide)]
  case inr.inr.inl =>
    obtain rfl : b₀ = 0x52 := (List.cons.inj hmagic).1
    simp [not_xml_of_head (show isSpace 0x52 = false by decide) (by decide)]
  case inr.inr.inr.inl =>
    obtain rfl : b₀ = 0x25 := (List.cons.inj hmagic).1
    simp [not_xml_of_head (show isSpace 0x25 = false by decide) (by decide)]

/-- Which uploads are accepted, and as what. -/
theorem validateUpload_eq_ok {maxBytes : ℕ} {declaredMime : Option String} {v : ValidatedUpload} :
    validateUpload data maxBytes declaredMime = .ok v ↔ data.length ≤ maxBytes ∧
      sniffMime data = some v.sniffedMime ∧ v.mediaKind = allowed v.sniffedMime ∧
      ¬ (v.sniffedMime = .heic ∧ (slice data 0 4).map lower = svgMagic) := by
  simp only [validateUpload, bind_eq_ok, refuse_eq_ok, found_eq_ok, pure_eq_ok]
  constructor
  · rintro ⟨_, -, _, hsize, _, hxml, m, hsniff, rfl⟩
    exact ⟨not_lt.1 hsize, hsniff, rfl, fun hsvg => hxml ((looksLikeXml_iff_of_sniff hsniff).2 hsvg)⟩
  · rintro ⟨hsize, hsniff, hkind, hsvg⟩
    refine ⟨(), ?_, (), not_lt.2 hsize, (), ?_, v.sniffedMime, hsniff, ?_⟩
    · rintro rfl
      cases hsniff
    · exact fun hxml => hsvg ((looksLikeXml_iff_of_sniff hsniff).1 hxml)
    · cases v
      exact congrArg _ hkind.symm

end Sniffing

/-! ## Blobs -/

section Blobs

variable {digest : Digest} {writeError : Option String} {data b : Bytes} {v v' : Volume}
  {stored : StoredObject} {key : String}

theorem validateKey_of_valid (h : ValidKey key) : validateKey key = .ok () :=
  refuse_of_not _ (not_not.2 h)

/-- A save that returns: the blob is there, and the handle has its key and its size. -/
theorem saveBlob_ok (h : saveBlob digest writeError data v = .ok (stored, v')) :
    v' = v.save digest.hex data ∧ stored.key = digest.hex data ∧
      ∃ b, v'.find stored.key = some b ∧ stored.size = b.length := by
  rw [saveBlob, validateKey_of_valid (digest.valid data)] at h
  simp only [ok_bind] at h
  cases hfind : v.find (digest.hex data) with
  | some b =>
      simp only [hfind, pure_eq_ok, Prod.mk.injEq] at h
      obtain ⟨rfl, rfl⟩ := h
      exact ⟨(Blobs.save_of_find hfind).symm, rfl, b, hfind, rfl⟩
  | none =>
      simp only [hfind, bind_eq_ok, absent_eq_ok, pure_eq_ok, Prod.mk.injEq] at h
      obtain ⟨_, -, rfl, rfl⟩ := h
      exact ⟨rfl, rfl, data, by rw [Blobs.find_save_of_none hfind, if_pos rfl], rfl⟩

theorem openBlob_eq_ok : openBlob key v = .ok b ↔ ValidKey key ∧ v.find key = some b := by
  simp only [openBlob, validateKey, bind_eq_ok, refuse_eq_ok, not_not, found_eq_ok, exists_const]

/-- A save returns when the bytes are on the volume already or the disk takes them. -/
theorem saveBlob_returns_iff : (∃ out, saveBlob digest writeError data v = .ok out) ↔
    v.find (digest.hex data) ≠ none ∨ writeError = none := by
  rw [saveBlob, validateKey_of_valid (digest.valid data)]
  simp only [ok_bind]
  cases v.find (digest.hex data) with
  | some stored => simp
  | none => simp [absent_eq_ok]

/-- Which uploads go through: those whose bytes start as one of the allowed types, but for the file
that is an SVG by its first four bytes and an HEIC by the next eight, and that are already stored or
can be written.  A row that the database itself refuses, for a NUL in its file name, is not
modelled. -/
theorem upload_returns_iff (p : Pipeline) (writeError : Option String) (r : UploadRequest)
    (rows : List FileRow) (v : Volume) :
    (∃ out, uploadAttachment p writeError r rows v = .ok out) ↔
      r.data.length ≤ p.maxBytes ∧
      (∃ m, sniffMime r.data = some m ∧ ¬ (m = .heic ∧ (slice r.data 0 4).map lower = svgMagic)) ∧
      (v.find (p.digest.hex r.data) ≠ none ∨ writeError = none) := by
  have hreturns : (∃ out, saveBlob p.digest writeError r.data v = .ok out) ↔
      v.find (p.digest.hex r.data) ≠ none ∨ writeError = none := saveBlob_returns_iff
  rw [← hreturns]
  simp only [uploadAttachment, bind_eq_ok, pure_eq_ok, Prod.exists, validateUpload_eq_ok]
  constructor
  · rintro ⟨result, rows', v', validated, ⟨hsize, hsniff, -, hsvg⟩, stored, v'', hsave, -⟩
    exact ⟨hsize, ⟨_, hsniff, hsvg⟩, stored, v'', hsave⟩
  · rintro ⟨hsize, ⟨m, hsniff, hsvg⟩, stored, v'', hsave⟩
    exact ⟨_, _, _, { sniffedMime := m, mediaKind := allowed m }, ⟨hsize, hsniff, rfl, hsvg⟩, stored,
      v'', hsave, rfl⟩

end Blobs

/-! ## Copies -/

section Copies

variable {p : Pipeline} {v v' : Volume} {original : Bytes} {m : Mime}

/-- The columns of a re-encoded copy. -/
abbrev Copy := Option String × Option Mime × Option ℕ

def FileRow.copy (row : FileRow) : Copy :=
  (row.sanitizedSha256, row.sanitizedMime, row.sanitizedByteSize)

def Copy.none : Copy := (Option.none, Option.none, Option.none)

/-- The columns describe the re-encoding of an image: its type, its key, and the blob there. -/
def IsCopy (p : Pipeline) (v : Volume) (original : Bytes) (m : Mime) (c : Copy) : Prop :=
  ∃ format served out blob, reencodeTable m = some (format, served) ∧
    p.codec format original = .ok out ∧ v.find (p.digest.hex out) = some blob ∧
    c = (some (p.digest.hex out), some served, some blob.length)

/-- The bytes and their type determine the copy. -/
theorem IsCopy.unique {c c' : Copy} (h : IsCopy p v original m c) (h' : IsCopy p v original m c') :
    c = c' := by
  obtain ⟨format, served, out, blob, htable, hcodec, hfind, rfl⟩ := h
  obtain ⟨format', served', out', blob', htable', hcodec', hfind', rfl⟩ := h'
  obtain ⟨rfl, rfl⟩ := Prod.mk.inj (Option.some.inj (htable.symm.trans htable'))
  obtain rfl := Except.ok.inj (hcodec.symm.trans hcodec')
  obtain rfl := Option.some.inj (hfind.symm.trans hfind')
  rfl

theorem IsCopy.keeps {c : Copy} (h : IsCopy p v original m c) (hv : v.Keeps v') :
    IsCopy p v' original m c := by
  obtain ⟨format, served, out, blob, htable, hcodec, hfind, rfl⟩ := h
  exact ⟨format, served, out, blob, htable, hcodec, hv _ _ hfind, rfl⟩

theorem IsCopy.ne_none {c : Copy} (h : IsCopy p v original m c) : c ≠ Copy.none := by
  obtain ⟨_, _, _, _, -, -, -, rfl⟩ := h
  exact fun hnone => by cases hnone

end Copies

/-! ## One scan -/

section Scanning

variable {p : Pipeline} {scanner : Scanner} {writeError : Option String} {now : Time}
  {row final : FileRow} {v v' : Volume}

/-- What a scan makes of its row and of the volume. -/
inductive Scanned (p : Pipeline) (scanner : Scanner) (row : FileRow) (v : Volume) :
    FileRow → Volume → Prop
  | settled (h : ¬ row.waiting) : Scanned p scanner row v row v
  | failed (final : FileRow) (hwaiting : row.waiting) (hstatus : final.scanStatus = .error)
      (hcopy : final.copy = row.copy) : Scanned p scanner row v final v
  | judged (final : FileRow) (original : Bytes) (hwaiting : row.waiting)
      (hfind : v.find row.sha256 = some original)
      (hstatus : final.scanStatus = (scanner original).status.status)
      (hplain : (scanner original).status = .clean → row.mediaKind ≠ .image)
      (hcopy : final.copy = row.copy) : Scanned p scanner row v final v
  | sanitized (final : FileRow) (original out : Bytes) (hwaiting : row.waiting)
      (hfind : v.find row.sha256 = some original) (hstatus : final.scanStatus = .clean)
      (hclean : (scanner original).status = .clean)
      (hcopy : IsCopy p (v.save p.digest.hex out) original row.sniffedMime final.copy) :
      Scanned p scanner row v final (v.save p.digest.hex out)

theorem reencodeImage_eq_ok {data out : Bytes} {m served : Mime} :
    reencodeImage p data m = .ok (out, served) ↔
      ∃ format, reencodeTable m = some (format, served) ∧ p.codec format data = .ok out := by
  simp only [reencodeImage, bind_eq_ok, found_eq_ok, Prod.exists]
  constructor
  · rintro ⟨format, served', htable, hcodec⟩
    cases hout : p.codec format data with
    | ok out' =>
        rw [hout] at hcodec
        obtain ⟨rfl, rfl⟩ := Prod.mk.inj (Except.ok.inj hcodec)
        exact ⟨format, htable, hout⟩
    | error e =>
        rw [hout] at hcodec
        cases hcodec
  · rintro ⟨format, htable, hcodec⟩
    exact ⟨format, served, htable, by rw [hcodec]; rfl⟩

theorem scanRow_scanned
    (h : scanRow p scanner writeError now row v = .ok (final, v')) :
    Scanned p scanner row v final v' := by
  unfold scanRow at h
  by_cases hwaiting : row.waiting
  · rw [if_pos hwaiting] at h
    cases hopen : openBlob row.sha256 v with
    | error e =>
        simp only [hopen, pure_eq_ok, Prod.mk.injEq] at h
        obtain ⟨rfl, rfl⟩ := h
        exact .failed _ hwaiting rfl rfl
    | ok original =>
        have hfind := (openBlob_eq_ok.1 hopen).2
        simp only [hopen] at h
        by_cases himage : (scanner original).status = .clean ∧
            (row.judged (scanner original) now).mediaKind = .image
        · rw [if_pos himage] at h
          cases hreencode : reencodeImage p original (row.judged (scanner original) now).sniffedMime with
          | error e =>
              cases e with
              | rejected message =>
                  simp only [hreencode, pure_eq_ok, Prod.mk.injEq] at h
                  obtain ⟨rfl, rfl⟩ := h
                  exact .failed _ hwaiting rfl rfl
              | uncaught message =>
                  simp only [hreencode] at h
                  cases h
          | ok r =>
              obtain ⟨out, served⟩ := r
              obtain ⟨format, htable, hcodec⟩ := reencodeImage_eq_ok.1 hreencode
              simp only [hreencode, bind_eq_ok, pure_eq_ok, Prod.exists, Prod.mk.injEq] at h
              obtain ⟨stored, v₁, hsave, rfl, rfl⟩ := h
              obtain ⟨rfl, hkey, blob, hblob, hsize⟩ := saveBlob_ok hsave
              refine .sanitized _ original out hwaiting hfind ?_ himage.1 ?_
              · simp [FileRow.sanitized, FileRow.judged, himage.1, Verdict.status]
              · refine ⟨format, served, out, blob, htable, hcodec, hkey ▸ hblob, ?_⟩
                simp [FileRow.copy, FileRow.sanitized, hkey, hsize]
        · rw [if_neg himage] at h
          simp only [pure_eq_ok, Prod.mk.injEq] at h
          obtain ⟨rfl, rfl⟩ := h
          exact .judged _ original hwaiting hfind rfl (fun hclean hkind => himage ⟨hclean, hkind⟩) rfl
  · rw [if_neg hwaiting] at h
    obtain ⟨rfl, rfl⟩ := Prod.mk.inj (Except.ok.inj h)
    exact .settled hwaiting

theorem Scanned.keeps (h : Scanned p scanner row v final v') : v.Keeps v' := by
  cases h with
  | settled _ => exact .refl v
  | failed _ _ _ _ => exact .refl v
  | judged _ _ _ _ _ _ _ => exact .refl v
  | sanitized _ _ out _ _ _ _ _ => exact Blobs.keeps_save _ v out

theorem Scanned.addressed (h : Scanned p scanner row v final v')
    (haddressed : v.Addressed p.digest.hex) : v'.Addressed p.digest.hex := by
  cases h with
  | settled _ => exact haddressed
  | failed _ _ _ _ => exact haddressed
  | judged _ _ _ _ _ _ _ => exact haddressed
  | sanitized _ _ out _ _ _ _ _ => exact haddressed.save out

end Scanning

end OfficeConnect.Attachments
