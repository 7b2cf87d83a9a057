import LexCalc.Listing.Command
import LexCalc.Proofs.Text.LineIndex
import LexCalc.Proofs.Token.Run
import Mathlib.Data.List.Forall2

/-! Every text has a listing: no token starts behind the end of the text. -/
namespace LexCalc
variable {source : Text} {t : Token}

section Lists
variable {α β γ : Type} {xs : List α} {ys : List β}

theorem forall₂_of_map_eq {f : α → γ} {g : β → γ} (h : xs.map f = ys.map g) :
    List.Forall₂ (fun x y => f x = g y) xs ys := by
  rw [← List.forall₂_eq_eq_eq, List.forall₂_map_left_iff, List.forall₂_map_right_iff] at h
  exact h

theorem forall_mem_of_forall₂ {R : α → β → Prop} {p : α → Prop} (h : List.Forall₂ R xs ys)
    (hp : ∀ x y, R x y → p x) : ∀ x ∈ xs, p x :=
  ((List.forall₂_and_left xs ys).mp (h.imp fun x y hr => ⟨hp x y hr, hr⟩)).1

end Lists

namespace Record

/-- A token among lines that start at known offsets. -/
def inLines (starts : List Nat) (t : Token) : Record :=
  ⟨t.kind, t.value, t.trivia, t.span.start, t.span.stop, LineIndex.placeIn starts t.span.start⟩

theorem start_le_size (h : t ∈ Lexer.tokens source) : t.span.start ≤ source.size := by
  obtain ⟨hs, hl⟩ := Lexer.stop_le_of_mem_finish (l := Lexer.ofText source) h
  rw [← Nat.zero_add source.size]
  exact Nat.le_trans hs hl

theorem ofToken_eq (h : t ∈ Lexer.tokens source) :
    ofToken (LineIndex.ofText source) t = .ok (inLines source.lineStarts t) := by
  rw [ofToken, LineIndex.place_eq (start_le_size h)]
  rfl

theorem mapM_eq_ok {α β ε : Type} {f : α → Except ε β} {g : α → β} {xs : List α}
    (h : ∀ x ∈ xs, f x = .ok (g x)) : xs.mapM f = .ok (xs.map g) := by
  induction xs with
  | nil => rfl
  | cons x xs ih =>
    rw [List.forall_mem_cons] at h
    rw [List.mapM_cons, h.1, ih h.2]
    rfl

theorem ofSource_eq (source : Text) :
    ofSource source = .ok ((Lexer.tokens source).map (inLines source.lineStarts)) :=
  mapM_eq_ok fun _ => ofToken_eq

end Record

namespace Listing

/-- The listing that a text has. -/
def ofText (path : Path) (source : Text) : Listing :=
  ⟨path, (Lexer.tokens source).map (Record.inLines source.lineStarts)⟩

theorem ofSource_eq (path : Path) (source : Text) :
    ofSource path source = .ok (ofText path source) := by
  rw [ofSource, Record.ofSource_eq]
  rfl

end Listing

end LexCalc
