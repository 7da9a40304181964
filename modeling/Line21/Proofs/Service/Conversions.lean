import Line21.Proofs.Service.Live
import Line21.Proofs.Source.Files
import Line21.Service.Basic

/-!
# What comes of a conversion

No content of a file makes a conversion fail, except that an SCC file is refused without its header.
Main statement: the service answers a file of a known kind with its document in a known format, or
with the refusal for the header. The document is only held back when the name of the file cannot
stand in a header of the answer.
-/

namespace Line21

namespace Upload

variable {u : Upload}

/-- The name of a file, without the directories in front of it. -/
def name (u : Upload) : String :=
  let given := u.filename.getD ""
  Files.name (if given = "" then "captions" else given)

/-- The name under which the converted file is to be stored, before its suffix. -/
def stem (u : Upload) : String :=
  let stem := Files.stem u.name
  if stem = "" then "captions" else stem

/-- The kind of a file, unless it is given by a key of no kind. -/
def sourceKind? (u : Upload) : Option SourceKind :=
  match u.kind with
  | none => some (.ofSuffix (Files.suffix u.name))
  | some key => SourceKind.ofKey? key

/-- The name of a file can stand in a header: its characters are all up to U+00FF. -/
def IsSendable (u : Upload) : Prop := ∀ c ∈ u.stem.toList, c.toNat ≤ 0xff

/-- Whether a name can stand in a header is told by its characters. -/
theorem isSendable_iff : u.stem.toList.all (·.toNat ≤ 0xff) = true ↔ u.IsSendable := by
  rw [List.all_eq_true]
  exact forall₂_congr fun _ _ ↦ decide_eq_true_iff

instance (u : Upload) : Decidable u.IsSendable := decidable_of_iff _ isSendable_iff

end Upload

namespace Service

private theorem all_suffix (format : Format) :
    format.suffix.toList.all (·.toNat ≤ 0xff) = true := by
  cases format <;> simp [Format.suffix]

private theorem all_disposition (stem : String) (format : Format) :
    (disposition stem format.suffix).toList.all (·.toNat ≤ 0xff) =
      stem.toList.all (·.toNat ≤ 0xff) := by
  have hfront : "attachment; filename=\"".toList.all (·.toNat ≤ 0xff) = true := by simp
  have hback : "\"".toList.all (·.toNat ≤ 0xff) = true := by simp
  unfold disposition
  rw [String.toList_append, String.toList_append, String.toList_append, List.all_append,
    List.all_append, List.all_append, hfront, hback, all_suffix, Bool.true_and, Bool.and_true,
    Bool.and_true]

/-- A file of a known format and kind is converted under its name. -/
theorem convert_of_known {u : Upload} {format : Format} {kind : SourceKind}
    (hf : Format.ofKey? (plainKey u.format) = some format) (hk : u.sourceKind? = some kind) :
    convert u = convertKnown format kind u.stem u.content := by
  rw [Upload.sourceKind?] at hk
  rw [convert, hf]
  dsimp only
  cases hn : u.kind with
  | none =>
    rw [hn] at hk
    obtain rfl := Option.some.inj hk
    rfl
  | some key =>
    rw [hn] at hk
    dsimp only at hk ⊢
    rw [hk]
    rfl

private theorem convertKnown_of_read {format : Format} {kind : SourceKind} {content : List UInt8}
    {units : List CaptionUnit} {text : String} (hr : kind.read content = .ok units)
    (hd : Conversion.document format units = .ok text) (stem : String) :
    convertKnown format kind stem content =
      if stem.toList.all (·.toNat ≤ 0xff) then
        .success 200 (.document
          { mediaType := format.mediaType, text, disposition := disposition stem format.suffix })
      else .unsendable := by
  unfold convertKnown
  simp only [hr, hd, all_disposition]

/-- A file of fewer than `2 ^ 64` bytes is read unless it is an SCC file without its header in
front, and whatever is read has a document in every format. So the service refuses a file of a known
format and kind when its header is missing, with status 400, and otherwise answers with its
document, unless its name cannot be sent: then there is no answer, though there is a document. -/
theorem outcome_of_conversion {content : List UInt8} (hl : content.length < 2 ^ 64) :
    (∀ (kind : SourceKind) (e : ReadError), kind.read content = .error e ↔
      (kind = .scc ∧ ¬ Scc.IsHeaded content) ∧ e = .missingHeader) ∧
    (∀ (kind : SourceKind) (units : List CaptionUnit), kind.read content = .ok units →
      ∀ format, ∃ text, Conversion.document format units = .ok text) ∧
    ∀ (u : Upload) (format : Format) (kind : SourceKind), u.content = content →
      Format.ofKey? (plainKey u.format) = some format → u.sourceKind? = some kind →
      (kind = .scc ∧ ¬ Scc.IsHeaded content →
        convert u = .refusal 400 ReadError.missingHeader.message) ∧
      (¬ (kind = .scc ∧ ¬ Scc.IsHeaded content) → ∃ units text,
        kind.read content = .ok units ∧ Conversion.document format units = .ok text ∧
          (u.IsSendable → convert u = .success 200 (.document
            { mediaType := format.mediaType, text,
              disposition := disposition u.stem format.suffix })) ∧
          (¬ u.IsSendable → convert u = .unsendable)) := by
  have herror (kind : SourceKind) (e : ReadError) : kind.read content = .error e ↔
      (kind = .scc ∧ ¬ Scc.IsHeaded content) ∧ e = .missingHeader := SourceKind.read_eq_error_iff hl
  have hread (kind : SourceKind) (h : ¬ (kind = .scc ∧ ¬ Scc.IsHeaded content)) :
      ∃ us, kind.read content = .ok us ∧ ∀ u ∈ us, u.IsTimed :=
    SourceKind.exists_read hl fun hk ↦ not_not.mp fun hn ↦ h ⟨hk, hn⟩
  refine ⟨herror, fun kind units hu format ↦ ?_, fun u format kind hu hf hk ↦ ?_⟩
  -- Whatever is read is what a readable file is read as, so its units have times in range.
  · have hheaded : ¬ (kind = .scc ∧ ¬ Scc.IsHeaded content) := by
      intro h
      have hmissing := (herror kind .missingHeader).mpr ⟨h, rfl⟩
      rw [hu] at hmissing
      cases hmissing
    obtain ⟨us, hus, ht⟩ := hread kind hheaded
    obtain rfl := Except.ok.inj (hu.symm.trans hus)
    exact Conversion.exists_document format ht
  · rw [convert_of_known hf hk, hu]
    constructor
    · intro h
      rw [convertKnown, (herror kind _).mpr ⟨h, rfl⟩]
    · intro h
      obtain ⟨us, hus, ht⟩ := hread kind h
      obtain ⟨text, htext⟩ := Conversion.exists_document format ht
      have hanswer := convertKnown_of_read hus htext u.stem
      simp only [Upload.isSendable_iff] at hanswer
      exact ⟨us, text, hus, htext, fun hs ↦ hanswer.trans (if_pos hs),
        fun hs ↦ hanswer.trans (if_neg hs)⟩

/-- A raw file with a name past U+00FF has a document that is not sent. As an SCC file it is refused
for its header. -/
theorem outcome_of_conversion_unsendable :
    let content : List UInt8 := [0x94, 0x20, 0x94, 0x70, 0xc8, 0x49, 0x94, 0x2f, 0x94, 0x2c]
    let upload (kind : String) : Upload := { filename := "Ā.raw", content, kind := some kind }
    (∃ units text, SourceKind.rawPairs.read content = .ok units ∧
      Conversion.document .webVtt units = .ok text ∧ convert (upload "raw") = .unsendable) ∧
    convert (upload "scc") =
      .refusal 400 "Not an SCC file: missing 'Scenarist_SCC V1.0' header" := by
  intro content upload
  have hheader : ¬ Scc.IsHeaded content := by decide +kernel
  have hlength : content.length < 2 ^ 64 := by decide +kernel
  obtain ⟨-, -, hconvert⟩ := outcome_of_conversion hlength
  have hformat : Format.ofKey? (plainKey "vtt") = some .webVtt := by decide +kernel
  obtain ⟨-, hraw⟩ := hconvert (upload "raw") .webVtt .rawPairs rfl hformat (by decide +kernel)
  obtain ⟨hscc, -⟩ := hconvert (upload "scc") .webVtt .scc rfl hformat (by decide +kernel)
  obtain ⟨units, text, hread, hdocument, -, hanswer⟩ := hraw (by simp)
  exact ⟨⟨units, text, hread, hdocument, hanswer (by decide +kernel)⟩, hscc ⟨rfl, hheader⟩⟩

end Service

end Line21
