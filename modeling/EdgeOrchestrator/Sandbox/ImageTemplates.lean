import EdgeOrchestrator.Core.Error
import EdgeOrchestrator.Foundation.DelimitedText

/-!
# Image templates

A custom image is configured by its source and its digest, where a blank value counts as missing.
The check of the digest looks at the digits behind the first colon only: it takes any name of an
algorithm, and any number of digits from 32 on. So a template is accepted with digests that are
neither SHA-256 nor SHA-512.
-/

namespace EdgeOrchestrator.Sandbox

structure ImageTemplate where
  source : String
  digest : String
  deriving DecidableEq, Repr

/-- `char::is_ascii_hexdigit` -/
def isAsciiHexdigit (char : Char) : Bool :=
  ('0' ≤ char && char ≤ '9') || ('a' ≤ char && char ≤ 'f') || ('A' ≤ char && char ≤ 'F')

/-- `str::split_once` -/
def splitOnce (separator : Char) (text : String) : Option (String × String) :=
  match text.toList.span (· != separator) with
  | (_, []) => none
  | (before, _ :: after) => some (String.ofList before, String.ofList after)

/-- A configured value without the blanks around it, unless nothing else is in it. -/
def configured (value : Option String) : Option String := (value.map trim).filter (· != "")

/-- Read the configured source and digest; `none` when no template is set. -/
def ImageTemplate.fromConfig (source digest : Option String) :
    Except CoreError (Option ImageTemplate) :=
  match configured source, configured digest with
  | none, none => .ok none
  | some _, none => .error (.configuration
      ("sandbox image template needs both source and digest: qlean verifies the downloaded image " ++
        "against the digest, and guessing it would silently disable that check"))
  | none, some _ => .error (.configuration "sandbox image template digest given without a source")
  | some source, some digest =>
    let hex := ((splitOnce ':' digest).map Prod.snd).getD digest
    if !digest.toList.contains ':' || (utf8 hex).length < 32 || !hex.toList.all isAsciiHexdigit then
      .error (.configuration
        ("sandbox image digest '" ++ digest ++ "' must look like 'sha256:<hex>'"))
    else .ok (some { source, digest })

/-- So many hexadecimal digits. -/
def IsHex (length : ℕ) (text : String) : Prop :=
  text.length = length ∧ ∀ char ∈ text.toList, isAsciiHexdigit char = true

/-- The digests of the two algorithms. -/
def IsDigest (digest : String) : Prop :=
  (∃ hex, digest = "sha256:" ++ hex ∧ IsHex 64 hex) ∨ ∃ hex, digest = "sha512:" ++ hex ∧ IsHex 128 hex

/-- What the check takes for a digest: some name, and at least 32 hexadecimal digits. -/
def LooksLikeDigest (digest : String) : Prop :=
  ∃ name hex length, digest = name ++ ":" ++ hex ∧ ':' ∉ name.toList ∧ IsHex length hex ∧ 32 ≤ length

/-- The value is missing, or nothing but blanks. -/
def IsBlank (value : Option String) : Prop := ∀ text ∈ value, trim text = ""

/-- Source and digest make up a template. -/
def IsTemplate (source digest : Option String) (template : ImageTemplate) : Prop :=
  ∃ sourceText ∈ source, ∃ digestText ∈ digest, trim sourceText ≠ "" ∧ IsDigest (trim digestText) ∧
    template = ⟨trim sourceText, trim digestText⟩

/-- Exactly the templates with a well-formed digest are accepted, with the blanks cut off. Without
values there is no template, and everything else is an error. -/
def AcceptsExactly (source digest : Option String) : Prop :=
  (∀ template, ImageTemplate.fromConfig source digest = .ok (some template) ↔
    IsTemplate source digest template) ∧
  (ImageTemplate.fromConfig source digest = .ok none ↔ IsBlank source ∧ IsBlank digest) ∧
  ((∃ error, ImageTemplate.fromConfig source digest = .error error) ↔
    (∀ template, ¬ IsTemplate source digest template) ∧ ¬ (IsBlank source ∧ IsBlank digest))

theorem splitOnce_of_cut {separator : Char} {text before after : String}
    (htext : text.toList = before.toList ++ separator :: after.toList)
    (hbefore : separator ∉ before.toList) : splitOnce separator text = some (before, after) := by
  have hplain : ∀ char ∈ before.toList, (char != separator) = true := by
    intro char hmem
    rw [bne_iff_ne]
    rintro rfl
    exact hbefore hmem
  rw [splitOnce, htext, List.span_eq_takeWhile_dropWhile, List.takeWhile_append_of_pos hplain,
    List.dropWhile_append_of_pos hplain]
  simp

/-- A text with the separator is cut at its first occurrence. -/
theorem exists_cut {separator : Char} {text : String} (hmem : separator ∈ text.toList) :
    ∃ before after : String, text.toList = before.toList ++ separator :: after.toList ∧
      separator ∉ before.toList := by
  obtain ⟨before, after, htext, hbefore⟩ := List.eq_append_cons_of_mem hmem
  refine ⟨String.ofList before, String.ofList after, ?_, ?_⟩
  · rw [String.toList_ofList, String.toList_ofList, htext]
  · rw [String.toList_ofList]
    exact hbefore

theorem utf8Size_of_isAsciiHexdigit {char : Char} (hchar : isAsciiHexdigit char = true) :
    char.utf8Size = 1 := by
  simp only [isAsciiHexdigit, Bool.or_eq_true, Bool.and_eq_true, decide_eq_true_eq] at hchar
  rw [Char.utf8Size_eq_one_iff]
  rcases hchar with (⟨-, hdigit⟩ | ⟨-, hlower⟩) | ⟨-, hupper⟩
  · exact UInt32.le_trans hdigit (by decide)
  · exact UInt32.le_trans hlower (by decide)
  · exact UInt32.le_trans hupper (by decide)

/-- A hexadecimal digit takes one byte. -/
theorem length_utf8_of_isHex {text : String}
    (hhex : ∀ char ∈ text.toList, isAsciiHexdigit char = true) :
    (utf8 text).length = text.length := by
  rw [utf8, List.length_flatMap, ← String.length_toList]
  have hone : text.toList.map (fun char ↦ (String.utf8EncodeChar char).length) =
      text.toList.map fun _ ↦ 1 := by
    apply List.map_congr_left
    intro char hmem
    rw [String.length_utf8EncodeChar, utf8Size_of_isAsciiHexdigit (hhex char hmem)]
  rw [hone]
  simp

/-- What looks like a digest, at the first colon. -/
theorem looksLikeDigest_iff_of_cut {digest before after : String}
    (htext : digest.toList = before.toList ++ ':' :: after.toList) (hbefore : ':' ∉ before.toList) :
    LooksLikeDigest digest ↔
      32 ≤ after.length ∧ ∀ char ∈ after.toList, isAsciiHexdigit char = true := by
  constructor
  · rintro ⟨name, hex, length, rfl, hname, ⟨hlength, hhex⟩, henough⟩
    rw [String.toList_append, String.toList_append, List.append_assoc] at htext
    obtain ⟨-, hafter⟩ := DelimitedText.cut_first hname hbefore htext
    rw [← String.toList_inj.mp hafter, hlength]
    exact ⟨henough, hhex⟩
  · rintro ⟨henough, hhex⟩
    refine ⟨before, after, after.length, ?_, hbefore, ⟨rfl, hhex⟩, henough⟩
    rw [← String.toList_inj, htext, String.toList_append, String.toList_append, List.append_assoc]
    rfl

theorem configured_eq_some_iff {value : Option String} {text : String} :
    configured value = some text ↔ ∃ given ∈ value, trim given = text ∧ text ≠ "" := by
  cases value with
  | none => simp [configured]
  | some given =>
    rw [configured, Option.map_some, Option.filter_eq_some_iff, bne_iff_ne]
    simp

theorem configured_eq_none_iff {value : Option String} : configured value = none ↔ IsBlank value := by
  cases value with
  | none => simp [configured, IsBlank]
  | some given => simp [configured, IsBlank]

/-- The check of the digest passes exactly what looks like one. -/
theorem check_eq_false_iff {digest : String} :
    (!digest.toList.contains ':' ||
      (utf8 (((splitOnce ':' digest).map Prod.snd).getD digest)).length < 32 ||
      !(((splitOnce ':' digest).map Prod.snd).getD digest).toList.all isAsciiHexdigit) = false ↔
      LooksLikeDigest digest := by
  by_cases hmem : ':' ∈ digest.toList
  · obtain ⟨before, after, htext, hbefore⟩ := exists_cut hmem
    rw [splitOnce_of_cut htext hbefore, looksLikeDigest_iff_of_cut htext hbefore]
    by_cases hhex : ∀ char ∈ after.toList, isAsciiHexdigit char = true
    · simp [hmem, length_utf8_of_isHex hhex]
    · simp [hhex]
  · apply iff_of_false
    · simp [hmem]
    · rintro ⟨name, hex, length, rfl, -⟩
      exact hmem (by simp)

theorem LooksLikeDigest.ne_empty {digest : String} (hlooks : LooksLikeDigest digest) :
    digest ≠ "" := by
  rintro rfl
  obtain ⟨name, hex, length, hempty, -⟩ := hlooks
  have hnil := congrArg String.toList hempty
  simp at hnil

/-- The digests of the two algorithms pass the check. -/
theorem IsDigest.looksLikeDigest {digest : String} (hdigest : IsDigest digest) :
    LooksLikeDigest digest := by
  rcases hdigest with ⟨hex, rfl, hhex⟩ | ⟨hex, rfl, hhex⟩
  · exact ⟨"sha256", hex, 64, rfl, by decide, hhex, by decide⟩
  · exact ⟨"sha512", hex, 128, rfl, by decide, hhex, by decide⟩

section FromConfig

variable {source digest : Option String}

/-- A template holds the configured values, the second of which looks like a digest. -/
theorem fromConfig_eq_some_iff_configured {template : ImageTemplate} :
    ImageTemplate.fromConfig source digest = .ok (some template) ↔
      configured source = some template.source ∧ configured digest = some template.digest ∧
        LooksLikeDigest template.digest := by
  rw [ImageTemplate.fromConfig]
  cases configured source with
  | none => cases configured digest <;> simp
  | some sourceText =>
    cases configured digest with
    | none => simp
    | some digestText =>
      dsimp only
      by_cases hlooks : LooksLikeDigest digestText
      · rw [check_eq_false_iff.mpr hlooks, if_neg Bool.false_ne_true]
        constructor
        · intro htemplate
          cases htemplate
          exact ⟨rfl, rfl, hlooks⟩
        · rintro ⟨hsource, hdigest, -⟩
          cases hsource
          cases hdigest
          rfl
      · rw [← check_eq_false_iff, Bool.not_eq_false] at hlooks
        rw [if_pos hlooks]
        apply iff_of_false
        · intro htemplate
          cases htemplate
        · rintro ⟨-, hdigest, hother⟩
          cases hdigest
          rw [check_eq_false_iff.mpr hother] at hlooks
          cases hlooks

theorem fromConfig_eq_some_iff {template : ImageTemplate} :
    ImageTemplate.fromConfig source digest = .ok (some template) ↔
      ∃ sourceText ∈ source, ∃ digestText ∈ digest, trim sourceText ≠ "" ∧
        LooksLikeDigest (trim digestText) ∧ template = ⟨trim sourceText, trim digestText⟩ := by
  rw [fromConfig_eq_some_iff_configured, configured_eq_some_iff, configured_eq_some_iff]
  constructor
  · rintro ⟨⟨sourceText, hsource, hfirst, hne⟩, ⟨digestText, hdigest, hsecond, -⟩, hlooks⟩
    refine ⟨sourceText, hsource, digestText, hdigest, hfirst ▸ hne, hsecond ▸ hlooks, ?_⟩
    rw [hfirst, hsecond]
  · rintro ⟨sourceText, hsource, digestText, hdigest, hne, hlooks, rfl⟩
    exact ⟨⟨sourceText, hsource, rfl, hne⟩, ⟨digestText, hdigest, rfl, hlooks.ne_empty⟩, hlooks⟩

theorem fromConfig_eq_none_iff :
    ImageTemplate.fromConfig source digest = .ok none ↔ IsBlank source ∧ IsBlank digest := by
  rw [← configured_eq_none_iff, ← configured_eq_none_iff, ImageTemplate.fromConfig]
  cases configured source with
  | none => cases configured digest <;> simp
  | some sourceText =>
    cases configured digest with
    | none => simp
    | some digestText =>
      dsimp only
      split_ifs <;> simp

/-- What looks like a digest is accepted, so it has to be one. -/
theorem isDigest_of_acceptsExactly (haccepts : AcceptsExactly source digest)
    {sourceText digestText : String} (hsource : sourceText ∈ source) (hdigest : digestText ∈ digest)
    (hne : trim sourceText ≠ "") (hlooks : LooksLikeDigest (trim digestText)) :
    IsDigest (trim digestText) := by
  have haccepted := fromConfig_eq_some_iff.mpr
    ⟨sourceText, hsource, digestText, hdigest, hne, hlooks, rfl⟩
  obtain ⟨_, _, other, hother, -, hwell, -⟩ := (haccepts.1 _).mp haccepted
  rw [← Option.some.inj (hother.symm.trans hdigest)]
  exact hwell

/-- The templates with a well-formed digest are the ones accepted exactly when the configured digest
does not look like one without being one. -/
theorem acceptsExactly_iff :
    AcceptsExactly source digest ↔
      ∀ sourceText ∈ source, ∀ digestText ∈ digest, trim sourceText ≠ "" →
        LooksLikeDigest (trim digestText) → IsDigest (trim digestText) := by
  constructor
  · intro haccepts sourceText hsource digestText hdigest
    exact isDigest_of_acceptsExactly haccepts hsource hdigest
  · intro hwell
    have haccepts : ∀ template, ImageTemplate.fromConfig source digest = .ok (some template) ↔
        IsTemplate source digest template := by
      intro template
      rw [fromConfig_eq_some_iff]
      constructor
      · rintro ⟨sourceText, hsource, digestText, hdigest, hne, hlooks, rfl⟩
        exact ⟨sourceText, hsource, digestText, hdigest, hne,
          hwell sourceText hsource digestText hdigest hne hlooks, rfl⟩
      · rintro ⟨sourceText, hsource, digestText, hdigest, hne, hdigits, rfl⟩
        exact ⟨sourceText, hsource, digestText, hdigest, hne, hdigits.looksLikeDigest, rfl⟩
    refine ⟨haccepts, fromConfig_eq_none_iff, ?_⟩
    simp only [← haccepts]
    rw [← fromConfig_eq_none_iff]
    rcases ImageTemplate.fromConfig source digest with error | _ | template <;> simp

end FromConfig

/-- The start of a SHA-256 digest passes for a digest. -/
theorem half_digest_is_accepted :
    ¬ ∀ source digest : Option String, AcceptsExactly source digest := by
  intro hgeneral
  have hwell := isDigest_of_acceptsExactly
    (hgeneral (some "/img.qcow2") (some "sha256:0123456789abcdef0123456789abcdef")) rfl rfl
    (by decide)
    ⟨"sha256", "0123456789abcdef0123456789abcdef", 32, by decide, by decide,
      ⟨by decide, List.all_eq_true.mp (by decide)⟩, le_rfl⟩
  have hshort : (trim "sha256:0123456789abcdef0123456789abcdef").length = 39 := by decide
  rcases hwell with ⟨hex, hdigest, hlength, -⟩ | ⟨hex, hdigest, hlength, -⟩ <;>
    · rw [hdigest, String.length_append, hlength] at hshort
      cases hshort

end EdgeOrchestrator.Sandbox
