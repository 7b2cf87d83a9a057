import LexCalc.Proofs.Listing.Execution
import LexCalc.Proofs.Listing.Lines
import LexCalc.Proofs.Token.Reading

/-! What a command prints, and apart from it how the command ends. -/
namespace LexCalc.Listing
variable {files : Files} {threads : Threads} {r r' : Request} {base base' : ListingConfig}
  {paths : List Path} {settings settings' : ListingConfig} {path : Path} {l : Listing}
  {ls : List Listing} {e : Failure} {format : Format} {showTrivia : Bool} {text : Text}
  {log : List Log.Line} {result result' : Except Failure (List Listing)} {o o' : Outcome}

/-- What is to be printed. -/
def printed (settings : ListingConfig) (result : Except Failure (List Listing)) :
    Except Failure Text := result.bind (render settings.format settings.showTrivia)

/-- There are listings only if the files have been read. -/
theorem CanEnd.started (h : CanEnd files threads r base (.ok ls)) :
    validate files r.paths = .ok () ∧ threads (r.settings base).jobs = .ok () := by
  cases hv : validate files r.paths with
  | error e => cases (canEnd_iff_of_error hv).mp h
  | ok _ =>
    cases ht : threads (r.settings base).jobs with
    | error reason => cases (canEnd_iff_of_threads hv ht).mp h
    | ok _ => exact ⟨rfl, rfl⟩

theorem CanEnd.lists (h : CanEnd files threads r base (.ok ls)) :
    List.Forall₂ (Lists files) r.paths ls :=
  (h.sound h.started.1 h.started.2).1 ls rfl

theorem paths_ne_nil (h : validate files paths = .ok ()) : paths ≠ [] := by
  rintro rfl
  cases h

theorem map_path_of_lists (h : List.Forall₂ (Lists files) paths ls) : ls.map (·.path) = paths := by
  rw [← List.forall₂_eq_eq_eq, List.forall₂_map_left_iff]
  exact h.flip.imp fun l path hl => hl.1

theorem CanEnd.ne_nil (h : CanEnd files threads r base (.ok ls)) : ls ≠ [] := by
  rintro rfl
  exact paths_ne_nil h.started.1 (map_path_of_lists h.lists).symm

end LexCalc.Listing
