import LibEvmvc.Foundation.Bytes

set_option autoImplicit false

/-! # Rules for the parts of a form

A rule for form fields or for files has a list of names and one of mime types; a part is to be rejected if
a list is not empty and what the part has is not in it, and a file if it is too large. Both rules look
the mime type up in its list, but compare where it was found with the end of the list of names, which it
never is. And the rule for fields looks at the file of the context to see if there is a field. -/

namespace LibEvmvc

/-! ## The rules -/

/-- `multipart_content_form_t`. -/
structure FormPart where
  name : Bytes
  mimeType : Bytes
  deriving DecidableEq, Repr

/-- `multipart_content_file_t`. -/
structure FilePart where
  name : Bytes
  mimeType : Bytes
  size : Nat
  deriving DecidableEq, Repr

/-- The parts of a `filter_rule_ctx_t`. -/
structure FilterRuleCtx where
  form : Option FormPart
  file : Option FilePart
  deriving DecidableEq, Repr

structure FormFilterRule where
  names : List Bytes
  mimeTypes : List Bytes
  deriving DecidableEq, Repr

structure FileFilterRule where
  names : List Bytes
  mimeTypes : List Bytes
  maxSize : Nat
  deriving DecidableEq, Repr

/-- An iterator of one of the lists of a rule. Iterators of different lists are never equal. -/
inductive RuleIter where
  | names (i : Nat)
  | mimeTypes (i : Nat)
  deriving DecidableEq, Repr

/-- The checks of the two lists; `kind` is what the name is called in the message. -/
def checkLists (names mimeTypes : List Bytes) (kind name mimeType : Bytes) : Option Bytes :=
  let namesEnd := RuleIter.names names.length
  if 0 < names.length ∧ RuleIter.names (names.findIdx (· = name)) = namesEnd then
    some (kind ++ bytes " name: '" ++ name ++ bytes "' is not allowed!")
  else if 0 < mimeTypes.length ∧ RuleIter.mimeTypes (mimeTypes.findIdx (· = mimeType)) = namesEnd then
    some (bytes "mime type: '" ++ mimeType ++ bytes "' is not allowed!")
  else none

def decimalText (n : Nat) : Bytes := (Nat.toDigits 10 n).map fun c => UInt8.ofNat c.toNat

/-- `form_filter_rule_t::validate`: what it calls its callback with; there is nothing if a null pointer is
    dereferenced. -/
def FormFilterRule.validate (r : FormFilterRule) (ctx : FilterRuleCtx) : Option (List (Option Bytes)) :=
  match ctx.file with
  | none => some [none]
  | some _ =>
    if r.names = [] ∧ r.mimeTypes = [] then some [none]
    else ctx.form.map fun form => [checkLists r.names r.mimeTypes (bytes "form") form.name form.mimeType]

/-- `file_filter_rule_t::validate`. -/
def FileFilterRule.validate (r : FileFilterRule) (ctx : FilterRuleCtx) : Option (List (Option Bytes)) :=
  match ctx.file with
  | none => some [none]
  | some file =>
    match checkLists r.names r.mimeTypes (bytes "file") file.name file.mimeType with
    | some err => some [some err]
    | none =>
      if 0 < r.maxSize ∧ r.maxSize < file.size then
        some [some (bytes "file size: '" ++ decimalText file.size ++ bytes "' is too big!")]
      else some [none]

/-! ## What they enforce -/

/-- The list is empty or has the value. -/
def ListAllows (allowed : List Bytes) (value : Bytes) : Prop := allowed = [] ∨ value ∈ allowed

instance (allowed : List Bytes) (value : Bytes) : Decidable (ListAllows allowed value) :=
  inferInstanceAs (Decidable (_ ∨ _))

/-- The callback is called once, without an error exactly if the part is allowed. -/
def Decides (calls : Option (List (Option Bytes))) (allowed : Prop) : Prop :=
  ∃ err, calls = some [err] ∧ (err = none ↔ allowed)

/-- What a rule for fields is to allow. -/
def FormFilterRule.Allows (r : FormFilterRule) (form : FormPart) : Prop :=
  ListAllows r.names form.name ∧ ListAllows r.mimeTypes form.mimeType

/-- What a rule for files is to allow. -/
def FileFilterRule.Allows (r : FileFilterRule) (file : FilePart) : Prop :=
  ListAllows r.names file.name ∧ ListAllows r.mimeTypes file.mimeType ∧
    (r.maxSize = 0 ∨ file.size ≤ r.maxSize)

/-- A name that is not in its list is rejected, a mime type is not. -/
theorem checkLists_eq_none_iff (names mimeTypes : List Bytes) (kind name mimeType : Bytes) :
    checkLists names mimeTypes kind name mimeType = none ↔ ListAllows names name := by
  have hmime : ¬ (0 < mimeTypes.length ∧
      RuleIter.mimeTypes (mimeTypes.findIdx (· = mimeType)) = .names names.length) := by
    rintro ⟨-, hiter⟩
    cases hiter
  have hname : (0 < names.length ∧ RuleIter.names (names.findIdx (· = name)) = .names names.length) ↔
      ¬ ListAllows names name := by
    have hmem : (∀ n ∈ names, decide (n = name) = false) ↔ name ∉ names := by
      constructor
      · intro hall hin
        exact of_decide_eq_false (hall name hin) rfl
      · rintro hnot n hn
        exact decide_eq_false fun heq => hnot (heq ▸ hn)
    rw [RuleIter.names.injEq, List.findIdx_eq_length, hmem, ListAllows, List.length_pos_iff, not_or]
  rw [checkLists]
  by_cases hcheck : ListAllows names name
  · rw [if_neg fun h => hname.1 h hcheck, if_neg hmime]
    exact iff_of_true rfl hcheck
  · rw [if_pos (hname.2 hcheck)]
    exact iff_of_false (Option.some_ne_none _) hcheck

theorem decides_singleton {err : Option Bytes} {allowed : Prop} :
    Decides (some [err]) allowed ↔ (err = none ↔ allowed) := by
  unfold Decides
  simp

/-- A rule for fields accepts each field of a context without a file, and else rejects those whose name is
    not in its list. -/
theorem FormFilterRule.validate_eq (r : FormFilterRule) (form : FormPart) (file : Option FilePart) :
    ∃ err, r.validate ⟨some form, file⟩ = some [err] ∧
      (err = none ↔ file = none ∨ ListAllows r.names form.name) := by
  unfold FormFilterRule.validate
  cases file with
  | none => exact ⟨none, rfl, by simp⟩
  | some file =>
    by_cases hempty : r.names = [] ∧ r.mimeTypes = []
    · refine ⟨none, if_pos hempty, ?_⟩
      simp [ListAllows, hempty.1]
    · refine ⟨_, if_neg hempty, ?_⟩
      rw [checkLists_eq_none_iff]
      simp

/-- A rule for files rejects those whose name is not in its list, and those that are too large. -/
theorem FileFilterRule.validate_eq (r : FileFilterRule) (form : Option FormPart) (file : FilePart) :
    ∃ err, r.validate ⟨form, some file⟩ = some [err] ∧
      (err = none ↔ ListAllows r.names file.name ∧ (r.maxSize = 0 ∨ file.size ≤ r.maxSize)) := by
  have hsize : ¬ (0 < r.maxSize ∧ r.maxSize < file.size) ↔ r.maxSize = 0 ∨ file.size ≤ r.maxSize := by omega
  have hnames := checkLists_eq_none_iff r.names r.mimeTypes (bytes "file") file.name file.mimeType
  unfold FileFilterRule.validate
  dsimp only
  cases hcheck : checkLists r.names r.mimeTypes (bytes "file") file.name file.mimeType with
  | some err =>
    rw [hcheck] at hnames
    exact ⟨some err, rfl, by simp [← hnames]⟩
  | none =>
    have hallows := hnames.1 hcheck
    by_cases hlarge : 0 < r.maxSize ∧ r.maxSize < file.size
    · exact ⟨_, if_pos hlarge, iff_of_false (Option.some_ne_none _) fun h => hsize.2 h.2 hlarge⟩
    · exact ⟨none, if_neg hlarge, iff_of_true rfl ⟨hallows, hsize.1 hlarge⟩⟩

/-- **Each rule decides by its lists exactly in these cases: a field is allowed, or its name is not and
there is a file, too; a file has a mime type that is allowed, or it is rejected for its name or its
size.** -/
theorem filterRules_iff (formRule : FormFilterRule) (form : FormPart) (file? : Option FilePart)
    (fileRule : FileFilterRule) (form? : Option FormPart) (file : FilePart) :
    (Decides (formRule.validate ⟨some form, file?⟩) (formRule.Allows form) ↔
      formRule.Allows form ∨ file? ≠ none ∧ ¬ ListAllows formRule.names form.name) ∧
    (Decides (fileRule.validate ⟨form?, some file⟩) (fileRule.Allows file) ↔
      ListAllows fileRule.mimeTypes file.mimeType ∨ ¬ ListAllows fileRule.names file.name ∨
        0 < fileRule.maxSize ∧ fileRule.maxSize < file.size) := by
  constructor
  · obtain ⟨err, hcalls, herr⟩ := formRule.validate_eq form file?
    rw [hcalls, decides_singleton, herr, FormFilterRule.Allows]
    tauto
  · obtain ⟨err, hcalls, herr⟩ := fileRule.validate_eq form? file
    have hsize : 0 < fileRule.maxSize ∧ fileRule.maxSize < file.size ↔
        ¬ (fileRule.maxSize = 0 ∨ file.size ≤ fileRule.maxSize) := by omega
    rw [hcalls, decides_singleton, herr, FileFilterRule.Allows, hsize]
    tauto

/-- A rule that allows only `image/png` accepts a file of another type. -/
theorem fileRule_mime_ignored :
    ¬ ∀ (r : FileFilterRule) (form : Option FormPart) (file : FilePart),
      Decides (r.validate ⟨form, some file⟩) (r.Allows file) := by
  intro hall
  obtain ⟨err, hcalls, herr⟩ := hall ⟨[], [bytes "image/png"], 0⟩ none ⟨bytes "a", bytes "text/html", 1⟩
  have haccepted : (some [none] : Option (List (Option Bytes))) = some [err] := hcalls
  cases haccepted
  have hallows := (herr.1 rfl).2.1
  revert hallows
  decide

end LibEvmvc
