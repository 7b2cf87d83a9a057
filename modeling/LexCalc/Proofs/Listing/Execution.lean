import LexCalc.Proofs.Listing.Pool
import LexCalc.Proofs.Text.Lossy

/-! What listing some files gives, however many threads read them and in whatever order. -/
namespace LexCalc

namespace Path

/-- A path is shown with a mark for each gap, and in no other way. -/
theorem lossy_shown (path : Path) :
    ∃ shown, Text.Lossy path shown ∧ path.shown = String.ofList shown :=
  ⟨_, Text.lossy_ofUtf8Lossy path, rfl⟩

/-- A path that is a text is shown as it is. -/
theorem shown_toUtf8 (name : Text) : Path.shown (Text.toUtf8 name) = String.ofList name := by
  rw [shown, Text.ofUtf8Lossy_toUtf8]

end Path

namespace Entry
variable {e : Entry} {source : Text}

/-- A file, whether or not it can be read. -/
def IsRegular (e : Entry) : Prop := e ≠ .missing ∧ e ≠ .directory

/-- A file that holds a text. -/
def Holds (e : Entry) (source : Text) : Prop := e = .file (Text.toUtf8 source).toByteArray

theorem fromUTF8?_eq_some_iff {bytes : ByteArray} {s : String} :
    String.fromUTF8? bytes = some s ↔ bytes = s.toByteArray := by
  rw [String.fromUTF8?]
  constructor
  · intro h
    split_ifs at h with hv
    cases h
    rfl
  · rintro rfl
    rw [dif_pos s.isValidUTF8]
    rfl

theorem text_eq_ok_iff : e.text = .ok source ↔ e.Holds source := by
  cases e with
  | missing => simp [text, Holds]
  | directory => simp [text, Holds]
  | unreadable reason => simp [text, Holds]
  | file bytes =>
    have hb : (Text.toUtf8 source).toByteArray = (String.ofList source).toByteArray :=
      String.toByteArray_ofList.symm
    have ht : (file bytes).text = .ok source ↔
        String.fromUTF8? bytes = some (String.ofList source) := by
      rw [text]
      cases String.fromUTF8? bytes with
      | none => simp
      | some s => simp [← String.toList_inj]
    rw [ht, fromUTF8?_eq_some_iff, Holds, Entry.file.injEq, hb]

end Entry

namespace Listing
variable {files : Files} {threads : Threads} {r : Request} {base : ListingConfig}
  {paths front back : List Path} {path : Path} {l : Listing} {e : Failure}
  {result : Except Failure (List Listing)}

/-- The listing of what a path leads to. -/
def Lists (files : Files) (path : Path) (l : Listing) : Prop :=
  l.path = path ∧
    ∃ source, (files path).Holds source ∧ Record.ofSource source = .ok l.records

/-- Why a file could not be read. -/
def Refuses (files : Files) (path : Path) (e : Failure) : Prop :=
  ∃ reason shown, (files path).text = .error reason ∧ Text.Lossy path shown ∧
    e = .fileOperation ("Failed to read " ++ String.ofList shown ++ ": " ++ reason.message)

theorem lists_of_ofFile (h : (ofFile files path).map Prod.fst = .ok l) : Lists files path l := by
  rw [ofFile] at h
  cases ht : (files path).text with
  | error reason =>
    rw [ht] at h
    cases h
  | ok source =>
    rw [ht] at h
    simp only [ofSource_eq] at h
    cases h
    exact ⟨rfl, source, Entry.text_eq_ok_iff.mp ht, Record.ofSource_eq source⟩

theorem refuses_of_ofFile (h : (ofFile files path).map Prod.fst = .error e) :
    Refuses files path e := by
  rw [ofFile] at h
  cases ht : (files path).text with
  | error reason =>
    rw [ht] at h
    cases h
    obtain ⟨shown, hs, he⟩ := path.lossy_shown
    refine ⟨reason, shown, ht, hs, ?_⟩
    rw [← he]
    rfl
  | ok source =>
    rw [ht] at h
    simp only [ofSource_eq] at h
    cases h

theorem checkPaths_append (h : ∀ p ∈ front, (files p).IsRegular) (back : List Path) :
    checkPaths files (front ++ back) = checkPaths files back := by
  induction front with
  | nil => rfl
  | cons p front ih =>
    rw [List.forall_mem_cons] at h
    have hp : checkPath files p = .ok () := by
      rw [checkPath]
      split
      · next hm => exact absurd hm h.1.1
      · next hd => exact absurd hd h.1.2
      · rfl
    rw [List.cons_append, checkPaths, hp]
    exact ih h.2

/-- What the command can come to: nothing is read unless all paths lead to files and there are
threads, and then the files are read by these. -/
def CanEnd (files : Files) (threads : Threads) (r : Request) (base : ListingConfig)
    (result : Except Failure (List Listing)) : Prop :=
  match validate files r.paths with
  | .error e => result = .error e
  | .ok () =>
    match threads (r.settings base).jobs with
    | .error reason =>
      result = .error (.commandExecution ("Failed to build thread pool: " ++ reason))
    | .ok () => ∃ pool, Pool.Reaches files (r.settings base).jobs (Pool.start r.paths) pool ∧
        pool.Ends result

theorem jobs_pos (r : Request) (base : ListingConfig) : 0 < (r.settings base).jobs :=
  Nat.lt_of_lt_of_le Nat.zero_lt_one (Nat.le_max_right _ 1)

theorem canEnd_execute (files : Files) (threads : Threads) (r : Request) (base : ListingConfig) :
    CanEnd files threads r base (execute files r base threads).1 := by
  rw [CanEnd, execute]
  cases validate files r.paths with
  | error e => rfl
  | ok _ =>
    cases ht : threads (r.settings base).jobs with
    | error reason =>
      dsimp only
      rw [ht]
    | ok _ =>
      dsimp only
      rw [ht]
      exact Pool.exists_ofFiles files (jobs_pos r base) r.paths

/-- Paths that cannot be listed are found before anything is read, the first of them first. -/
theorem validate_eq_error (hp : r.paths = front ++ path :: back)
    (hf : ∀ p ∈ front, (files p).IsRegular) (hc : checkPath files path = .error e) :
    validate files r.paths = .error e := by
  have hne : r.paths.isEmpty = false := by
    rw [hp]
    cases front <;> rfl
  rw [validate, hne, hp]
  exact (checkPaths_append hf (path :: back)).trans (by rw [checkPaths, hc]; rfl)

theorem validate_eq_ok (hne : paths ≠ []) (h : ∀ p ∈ paths, (files p).IsRegular) :
    validate files paths = .ok () := by
  have hc := checkPaths_append h []
  rw [List.append_nil] at hc
  rw [validate, if_neg (by simpa using hne), hc]
  rfl

theorem canEnd_iff_of_error (h : validate files r.paths = .error e) :
    CanEnd files threads r base result ↔ result = .error e := by
  rw [CanEnd, h]

theorem canEnd_iff_of_threads {reason : String} (hv : validate files r.paths = .ok ())
    (ht : threads (r.settings base).jobs = .error reason) :
    CanEnd files threads r base result ↔
      result = .error (.commandExecution ("Failed to build thread pool: " ++ reason)) := by
  rw [CanEnd, hv]
  dsimp only
  rw [ht]

theorem canEnd_iff_of_ok (hv : validate files r.paths = .ok ())
    (ht : threads (r.settings base).jobs = .ok ()) :
    CanEnd files threads r base result ↔
      ∃ pool, Pool.Reaches files (r.settings base).jobs (Pool.start r.paths) pool ∧
        pool.Ends result := by
  rw [CanEnd, hv]
  dsimp only
  rw [ht]

/-- Once the files are read, the listings are there, or an error that one of them gives. -/
theorem CanEnd.sound (h : CanEnd files threads r base result)
    (hv : validate files r.paths = .ok ()) (ht : threads (r.settings base).jobs = .ok ()) :
    (∀ ls, result = .ok ls → List.Forall₂ (Lists files) r.paths ls) ∧
      ∀ e, result = .error e → ∃ path ∈ r.paths, Refuses files path e := by
  obtain ⟨pool, hr, he⟩ := (canEnd_iff_of_ok hv ht).mp h
  obtain ⟨hok, herr⟩ := he.sound (Pool.sound_of_reaches hr)
  refine ⟨fun ls hl => (hok ls hl).imp fun path l => lists_of_ofFile, ?_⟩
  intro e h
  obtain ⟨path, hm, hp⟩ := herr e h
  exact ⟨path, hm, refuses_of_ofFile hp⟩

theorem not_holds_of_refuses (h : Refuses files path e) (source : Text) :
    ¬ (files path).Holds source := by
  obtain ⟨reason, -, hr, -⟩ := h
  intro hs
  rw [Entry.text_eq_ok_iff.mpr hs] at hr
  cases hr

theorem exists_holds_of_lists {ls : List Listing} (h : List.Forall₂ (Lists files) paths ls) :
    ∀ path ∈ paths, ∃ source, (files path).Holds source :=
  forall_mem_of_forall₂ h fun _ _ ⟨_, source, hs, _⟩ => ⟨source, hs⟩

/-- Files that can all be read are listed. -/
theorem CanEnd.exists_lists (h : CanEnd files threads r base result)
    (hv : validate files r.paths = .ok ()) (ht : threads (r.settings base).jobs = .ok ())
    (hs : ∀ path ∈ r.paths, ∃ source, (files path).Holds source) :
    ∃ ls, result = .ok ls ∧ List.Forall₂ (Lists files) r.paths ls := by
  obtain ⟨hok, herr⟩ := h.sound hv ht
  cases result with
  | error e =>
    obtain ⟨path, hm, hr⟩ := herr e rfl
    obtain ⟨source, hs⟩ := hs path hm
    exact absurd hs (not_holds_of_refuses hr source)
  | ok ls => exact ⟨ls, rfl, hok ls rfl⟩

/-- A file that cannot be read leaves nothing but an error. -/
theorem CanEnd.exists_refuses (h : CanEnd files threads r base result)
    (hv : validate files r.paths = .ok ()) (ht : threads (r.settings base).jobs = .ok ())
    (hs : ∃ path ∈ r.paths, ∀ source, ¬ (files path).Holds source) :
    ∃ e, result = .error e ∧ ∃ path ∈ r.paths, Refuses files path e := by
  obtain ⟨hok, herr⟩ := h.sound hv ht
  cases result with
  | error e => exact ⟨e, rfl, herr e rfl⟩
  | ok ls =>
    obtain ⟨path, hm, hs⟩ := hs
    obtain ⟨source, h⟩ := exists_holds_of_lists (hok ls rfl) path hm
    exact absurd h (hs source)

/-- Without files there is nothing to list. Otherwise the first path that does not lead to a file
decides; then a pool of threads that cannot be built; then any file that cannot be read; and if there
is none, the listings of all files are there in the order of their paths. Whatever order the threads
have taken so far, they come to an end. -/
theorem execute_ordered (files : Files) (threads : Threads) (r : Request) (base : ListingConfig) :
    CanEnd files threads r base (execute files r base threads).1 ∧
    (∀ pool, Pool.Reaches files (r.settings base).jobs (Pool.start r.paths) pool →
      ∃ last result, Pool.Reaches files (r.settings base).jobs pool last ∧ last.Ends result) ∧
    ∀ result, CanEnd files threads r base result →
      (r.paths = [] → result = .error (.validation "No input files specified")) ∧
      (∀ front path back, r.paths = front ++ path :: back → (∀ p ∈ front, (files p).IsRegular) →
        (files path = .missing → ∃ shown, Text.Lossy path shown ∧
          result = .error (.fileOperation ("Input path does not exist: " ++ String.ofList shown))) ∧
        (files path = .directory → ∃ shown, Text.Lossy path shown ∧
          result = .error (.fileOperation ("Input path is not a file: " ++ String.ofList shown)))) ∧
      (r.paths ≠ [] → (∀ path ∈ r.paths, (files path).IsRegular) →
        (∀ reason, threads (r.settings base).jobs = .error reason →
          result = .error (.commandExecution ("Failed to build thread pool: " ++ reason))) ∧
        (threads (r.settings base).jobs = .ok () →
          ((∀ path ∈ r.paths, ∃ source, (files path).Holds source) →
            ∃ ls, result = .ok ls ∧ List.Forall₂ (Lists files) r.paths ls) ∧
          ((∃ path ∈ r.paths, ∀ source, ¬ (files path).Holds source) →
            ∃ e, result = .error e ∧ ∃ path ∈ r.paths, Refuses files path e))) := by
  refine ⟨canEnd_execute files threads r base, ?_, ?_⟩
  · intro pool h
    exact Pool.exists_ends (jobs_pos r base) (Pool.sound_of_reaches h)
  intro result h
  refine ⟨?_, ?_, ?_⟩
  · intro hp
    have hv : validate files r.paths = .error (.validation "No input files specified") := by
      rw [hp]
      rfl
    exact (canEnd_iff_of_error hv).mp h
  · intro front path back hp hf
    obtain ⟨shown, hs, he⟩ := path.lossy_shown
    constructor
    · intro hm
      refine ⟨shown, hs, (canEnd_iff_of_error (validate_eq_error hp hf ?_)).mp h⟩
      rw [checkPath, hm, he]
    · intro hd
      refine ⟨shown, hs, (canEnd_iff_of_error (validate_eq_error hp hf ?_)).mp h⟩
      rw [checkPath, hd, he]
  · intro hne hreg
    have hv := validate_eq_ok hne hreg
    exact ⟨fun reason ht => (canEnd_iff_of_threads hv ht).mp h,
      fun ht => ⟨h.exists_lists hv ht, h.exists_refuses hv ht⟩⟩

/-- A file that cannot be read is named, even if another one can be read. Without threads neither is
read, and a path that leads nowhere comes before both. -/
theorem execute_ordered_unreadable :
    let files : Files := fun path =>
      if path = [97] then .file (Text.toUtf8 ['x']).toByteArray
      else if path = [98] then .unreadable "Permission denied (os error 13)"
      else .missing
    let base := (Config.default 4).listing
    (execute files { paths := [[97], [98]] } base).1 =
        .error (.fileOperation "Failed to read b: Permission denied (os error 13)") ∧
    (execute files { paths := [[97], [98]] } base fun _ => .error "out of threads").1 =
        .error (.commandExecution "Failed to build thread pool: out of threads") ∧
    (execute files { paths := [[98], [99], [97]] } base).1 =
        .error (.fileOperation "Input path does not exist: c") ∧
    ∃ ls, (execute files { paths := [[97], [97]] } base).1 = .ok ls ∧
      List.Forall₂ (Lists files) [[97], [97]] ls := by
  intro files base
  have ha : (files [97]).Holds ['x'] := rfl
  have hb : ∀ source, ¬ (files [98]).Holds source := nofun
  have hra : (files [97]).IsRegular := ⟨nofun, nofun⟩
  have hrb : (files [98]).IsRegular := ⟨nofun, nofun⟩
  have hreg : ∀ path ∈ [[97], [98]], (files path).IsRegular := by simp [hra, hrb]
  refine ⟨?_, ?_, ?_, ?_⟩
  · obtain ⟨hrun, -, hends⟩ :=
      execute_ordered files (fun _ => .ok ()) { paths := [[97], [98]] } base
    obtain ⟨-, hread⟩ := (hends _ hrun).2.2 (by simp) hreg
    obtain ⟨e, he, path, hp, reason, shown, ht, hs, rfl⟩ := (hread rfl).2 ⟨[98], by simp, hb⟩
    rw [List.mem_pair] at hp
    obtain rfl | rfl := hp
    · rw [Entry.text_eq_ok_iff.mpr ha] at ht
      cases ht
    · cases ht
      rw [he, Text.Lossy.eq_of_toUtf8 (t := ['b']) hs]
      rfl
  · obtain ⟨hrun, -, hends⟩ :=
      execute_ordered files (fun _ => .error "out of threads") { paths := [[97], [98]] } base
    exact ((hends _ hrun).2.2 (by simp) hreg).1 _ rfl
  · obtain ⟨hrun, -, hends⟩ :=
      execute_ordered files (fun _ => .ok ()) { paths := [[98], [99], [97]] } base
    obtain ⟨shown, hs, he⟩ :=
      ((hends _ hrun).2.1 [[98]] [99] [[97]] rfl (by simp [hrb])).1 rfl
    rw [he, Text.Lossy.eq_of_toUtf8 (t := ['c']) hs]
    rfl
  · obtain ⟨hrun, -, hends⟩ :=
      execute_ordered files (fun _ => .ok ()) { paths := [[97], [97]] } base
    obtain ⟨-, hread⟩ := (hends _ hrun).2.2 (by simp) (by simp [hra])
    exact (hread rfl).1 (by simpa using ⟨_, ha⟩)

end Listing

end LexCalc
