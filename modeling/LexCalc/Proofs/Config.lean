import LexCalc.Config.Load
import LexCalc.Proofs.Listing.Execution
import LexCalc.Proofs.Toml.Document

/-! Settings that are written to a file are read from it again, all of them. Only settings with no
job are refused, which can be written but not used. -/
namespace LexCalc.Config
open Toml (Setting Section largestInteger)
variable {c : Config} {t : Text}

/-- What is written before the first heading. -/
def settings (c : Config) : List Setting :=
  [⟨"verbose", writeBool c.verbose, .boolean c.verbose⟩]

/-- What is written under headings. -/
def sections (c : Config) : List Section :=
  [⟨"lex",
    [⟨"show_trivia", writeBool c.listing.showTrivia, .boolean c.listing.showTrivia⟩,
     ⟨"format", '"' :: (c.listing.format.word.toList ++ ['"']),
      .string c.listing.format.word.toList⟩,
     ⟨"jobs", Text.decimal c.listing.jobs, .integer c.listing.jobs⟩,
     ⟨"deny_invalid", writeBool c.listing.denyInvalid, .boolean c.listing.denyInvalid⟩]⟩,
   ⟨"calc",
    [⟨"uppercase", writeBool c.calculation.uppercase, .boolean c.calculation.uppercase⟩]⟩]

theorem write?_eq (h : c.listing.jobs ≤ largestInteger) :
    c.write? = some (c.settings.flatMap Setting.text ++ c.sections.flatMap Section.text) := by
  rw [write?, if_pos h]
  simp [settings, sections, Setting.text, Section.text]

/-! ### Writing -/

/-- The names of all fields and headings. -/
def names : List String :=
  ["verbose", "lex", "show_trivia", "format", "jobs", "deny_invalid", "calc", "uppercase"]

theorem isBareKey_of_mem {key : String} (h : key ∈ names) : Toml.IsBareKey key := by
  have hall : names.all (fun key => key != "" && key.toList.all Toml.isBareKeyChar) = true := by
    decide
  have hk := List.all_eq_true.mp hall key h
  rw [Bool.and_eq_true, bne_iff_ne] at hk
  exact hk

theorem writes_format (f : Format) :
    Toml.Writes ('"' :: (f.word.toList ++ ['"'])) (.string f.word.toList) := by
  have hall : f.word.toList.all Toml.isBasicChar = true := by
    cases f <;> rfl
  have hne : f.word.toList ≠ [] := by
    cases f <;> simp [Format.word]
  exact Toml.writes_string (List.all_eq_true.mp hall) hne

theorem legible_settings (c : Config) : ∀ s ∈ c.settings, s.Legible := by
  intro s hs
  obtain rfl := List.mem_singleton.mp hs
  exact ⟨isBareKey_of_mem (by simp [names]), Toml.writes_boolean c.verbose⟩

theorem legible_sections (h : c.listing.jobs ≤ largestInteger) : ∀ s ∈ c.sections, s.Legible := by
  intro s hs
  simp only [sections, List.mem_cons, List.not_mem_nil, or_false] at hs
  rcases hs with rfl | rfl
  · refine ⟨isBareKey_of_mem (by simp [names]), ?_, by simp⟩
    intro x hx
    simp only [List.mem_cons, List.not_mem_nil, or_false] at hx
    rcases hx with rfl | rfl | rfl | rfl
    · exact ⟨isBareKey_of_mem (by simp [names]), Toml.writes_boolean c.listing.showTrivia⟩
    · exact ⟨isBareKey_of_mem (by simp [names]), writes_format c.listing.format⟩
    · exact ⟨isBareKey_of_mem (by simp [names]), Toml.writes_integer h⟩
    · exact ⟨isBareKey_of_mem (by simp [names]), Toml.writes_boolean c.listing.denyInvalid⟩
  · refine ⟨isBareKey_of_mem (by simp [names]), ?_, by simp⟩
    intro x hx
    obtain rfl := List.mem_singleton.mp hx
    exact ⟨isBareKey_of_mem (by simp [names]), Toml.writes_boolean c.calculation.uppercase⟩

/-- No two keys beside each other are the same, so the document has a member for each. -/
theorem document?_write? (h : c.listing.jobs ≤ largestInteger) (ht : c.write? = some t) :
    Toml.document? t =
      some (c.settings.map Setting.member ++ c.sections.map Section.member) := by
  rw [write?_eq h] at ht
  obtain rfl := Option.some.inj ht
  apply Toml.document?_sections (legible_settings c) (legible_sections h)
  simp [settings, sections]

/-! ### Reading -/

theorem nat?_integer (n : Nat) : nat? (.integer n) = some n := by
  simp [nat?]

theorem format?_word (f : Format) : format? (.string f.word.toList) = some f := by
  cases f <;> rfl

section
variable {α : Type} {name other : String} {v : Toml.Value}

theorem field?_cons_self (ms : Toml.Members) (i : Nat) (read : Toml.Value → Option α)
    (missing : α) : field? (.named ((name.toList, v) :: ms)) i name read missing = read v := by
  rw [field?, Fields.get?, Toml.Members.get?, List.lookup_cons_self]

theorem field?_cons_of_ne (h : name ≠ other) (ms : Toml.Members) (i : Nat)
    (read : Toml.Value → Option α) (missing : α) :
    field? (.named ((other.toList, v) :: ms)) i name read missing =
      field? (.named ms) i name read missing := by
  have hne : (name.toList == other.toList) = false :=
    beq_eq_false_iff_ne.mpr fun he => h (String.toList_inj.mp he)
  rw [field?, field?, Fields.get?, Fields.get?, Toml.Members.get?, Toml.Members.get?,
    List.lookup_cons, hne]

end

/-- Each field is looked for under the name that it is written under. -/
theorem ofMembers?_member (c : Config) (jobs : Nat) :
    ofMembers? jobs (c.settings.map Setting.member ++ c.sections.map Section.member) = some c := by
  simp (disch := decide) only [ofMembers?, listing?, calculation?, settings, sections,
    Setting.member, Section.member, List.map_cons, List.map_nil, List.cons_append, List.nil_append,
    fields?, field?_cons_self, field?_cons_of_ne, bool?, format?_word, nat?_integer,
    Option.bind_eq_bind, Option.bind_some, Option.pure_def]

theorem ofText_write? (h : c.listing.jobs ≤ largestInteger) (ht : c.write? = some t)
    (jobs : Nat) :
    ofText jobs t =
      if c.listing.jobs = 0 then .error (.config "lex.jobs must be at least 1") else .ok c := by
  simp [ofText, document?_write? h ht, ofMembers?_member]

/-- A file is read as the text that it holds. -/
theorem loadFrom_of_holds {files : Files} {path : Path} (h : (files path).Holds t) (jobs : Nat) :
    loadFrom files jobs path = ofText jobs t := by
  have hm : (files path).isMissing = false := by
    rw [h]
    rfl
  simp [loadFrom, hm, Entry.text_eq_ok_iff.mpr h]

/-- Settings whose number of jobs fits an integer can be written, and from a file that holds what
was written they are loaded as they were, whatever the default number of jobs is. Settings with no
job are refused. -/
theorem loadFrom_written (c : Config) (h : c.listing.jobs < 2 ^ 63) :
    ∃ t, c.write? = some t ∧ ∀ (files : Files) (jobs : Nat) (path : Path), (files path).Holds t →
      (1 ≤ c.listing.jobs → loadFrom files jobs path = .ok c) ∧
      (c.listing.jobs = 0 →
        loadFrom files jobs path = .error (.config "lex.jobs must be at least 1")) := by
  have hle : c.listing.jobs ≤ largestInteger := Nat.le_of_lt_succ h
  refine ⟨_, write?_eq hle, ?_⟩
  intro files jobs path hf
  rw [loadFrom_of_holds hf, ofText_write? hle (write?_eq hle)]
  refine ⟨fun hj => if_neg (by omega), fun hj => if_pos hj⟩

/-- The largest number of jobs is read as it is, and not as the default. None is not read as the
default either. -/
theorem loadFrom_written_largest :
    2 ^ 63 - 1 < 2 ^ 63 ∧
    (∃ t, write? ⟨true, ⟨true, .json, 2 ^ 63 - 1, false⟩, ⟨true⟩⟩ = some t ∧
      loadFrom (fun _ => .file (Text.toUtf8 t).toByteArray) 1 [] =
        .ok ⟨true, ⟨true, .json, 2 ^ 63 - 1, false⟩, ⟨true⟩⟩) ∧
    ∃ t, write? ⟨true, ⟨true, .json, 0, false⟩, ⟨true⟩⟩ = some t ∧
      loadFrom (fun _ => .file (Text.toUtf8 t).toByteArray) 1 [] =
        .error (.config "lex.jobs must be at least 1") := by
  refine ⟨by decide, ?_, ?_⟩
  · obtain ⟨t, ht, hl⟩ :=
      loadFrom_written ⟨true, ⟨true, .json, 2 ^ 63 - 1, false⟩, ⟨true⟩⟩ (by decide)
    refine ⟨t, ht, ?_⟩
    exact (hl (fun _ => .file (Text.toUtf8 t).toByteArray) 1 [] rfl).1 (by decide)
  · obtain ⟨t, ht, hl⟩ := loadFrom_written ⟨true, ⟨true, .json, 0, false⟩, ⟨true⟩⟩ (by decide)
    refine ⟨t, ht, ?_⟩
    exact (hl (fun _ => .file (Text.toUtf8 t).toByteArray) 1 [] rfl).2 rfl

end LexCalc.Config
