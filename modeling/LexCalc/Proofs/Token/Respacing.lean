import LexCalc.Proofs.Token.Reading
import Mathlib.Data.List.Forall2

/-! What the trivia of a text are does not matter to its tokens: any whitespace in their place
leaves the tokens as they were. -/
namespace LexCalc

/-- Whitespace in the place of trivia. There may be none only where there were none. -/
def Respaces (trivia w : Text) : Prop := (∀ c ∈ w, Blank c) ∧ (trivia ≠ [] → w ≠ [])

/-- The values of some tokens, with other texts in front of them than their trivia. -/
def respaced (rs : List (Kind × Text × Text)) (ws : List Text) : Text :=
  (List.zipWith (fun r w => w ++ r.2.2) rs ws).flatten

namespace Reading
variable {s : Text} {rs : List (Kind × Text × Text)} {ws : List Text}

@[simp] theorem respaced_cons (r : Kind × Text × Text) (w : Text) :
    respaced (r :: rs) (w :: ws) = w ++ (r.2.2 ++ respaced rs ws) := by
  simp [respaced]

/-- Where the new text does not start as the old one does, it starts with whitespace. -/
theorem head?_respaced (h : Reading s rs) (hw : List.Forall₂ (fun r w => Respaces r.2.1 w) rs ws) :
    ∀ d ∈ (respaced rs ws).head?, Blank d ∨ d ∈ s.head? := by
  intro d hd
  cases hw with
  | nil => simp [respaced] at hd
  | @cons r w rs ws hrw _ =>
    rw [respaced_cons] at hd
    cases w with
    | cons c w =>
      cases hd
      exact .inl (hrw.1 d (by simp))
    | nil =>
      cases h with
      | last => simp [respaced] at hd
      | @more kind trivia value rest rs hg hl hk h =>
        have ht : trivia = [] := not_not.mp fun hn => hrw.2 hn rfl
        obtain ⟨c, v, rfl⟩ := List.exists_cons_of_ne_nil (hl.value_ne_nil hk)
        rw [ht]
        exact .inr hd

theorem respace (h : Reading s rs) (hw : List.Forall₂ (fun r w => Respaces r.2.1 w) rs ws)
    (hl : ∀ r ∈ rs, r.1.isOpen → ws.getLast? = some []) :
    Reading (respaced rs ws) (List.zipWith (fun r w => (r.1, w, r.2.2)) rs ws) := by
  induction h generalizing ws with
  | last =>
    cases hw with
    | @cons _ w _ ws hrw hnil =>
      cases hnil
      rw [respaced_cons]
      simpa [respaced] using Reading.last (.of_blank hrw.1)
  | @more kind trivia value rest rs hg hlex hk h ih =>
    cases hw with
    | @cons _ w _ ws hrw hw =>
      have hne : ws ≠ [] := by
        rintro rfl
        exact h.ne_nil (List.forall₂_nil_right_iff.mp hw)
      rw [List.getLast?_cons_of_ne_nil hne] at hl
      rw [List.forall_mem_cons] at hl
      rw [respaced_cons]
      refine .more (.of_blank hrw.1) (hlex.of_head? (h.head?_respaced hw) ?_) hk (ih hw hl.2)
      rintro (he | ho)
      · exact absurd he hk
      · -- Only an empty end can follow, and its place has been left empty.
        obtain rfl := hlex.rest_of_open ho
        obtain rfl := h.of_nil
        have hlast := hl.1 ho
        cases hw with
        | @cons _ w' _ ws _ hnil =>
          cases hnil
          simpa [respaced] using hlast

end Reading

namespace Lexer
variable {source : Text} {ws : List Text}

theorem tokens_zipWith
    (hw : List.Forall₂ (fun t w => Respaces (Token.trivia t) w) (tokens source) ws)
    (hl : ∀ t ∈ tokens source, t.kind.isOpen → ws.getLast? = some []) :
    (tokens (List.zipWith (fun t w => w ++ t.value) (tokens source) ws).flatten).map
        Token.reading =
      List.zipWith (fun t w => (t.kind, w, t.value)) (tokens source) ws := by
  have hr : Reading source ((tokens source).map Token.reading) := reading_iff.mpr rfl
  have hw' : List.Forall₂ (fun r w => Respaces r.2.1 w)
      ((tokens source).map Token.reading) ws := List.forall₂_map_left_iff.mpr hw
  have hl' : ∀ r ∈ (tokens source).map Token.reading, r.1.isOpen → ws.getLast? = some [] := by
    intro r hr
    obtain ⟨t, ht, rfl⟩ := List.mem_map.mp hr
    exact hl t ht
  have h := hr.respace hw' hl'
  rw [respaced, List.zipWith_map_left, List.zipWith_map_left] at h
  exact reading_iff.mp h

/-- Any whitespace may stand in the place of the trivia of a text, so long as there is some where
there was some, and none at the end after a token that the end of the text cuts short: the tokens
are read as they were. So they are when each trivia is turned into whitespace in one way. -/
theorem tokens_respaced (source : Text) :
    (∀ ws : List Text,
      List.Forall₂ (fun t w => Respaces (Token.trivia t) w) (tokens source) ws →
      (∀ front t e, tokens source = front ++ [t, e] → t.kind.isOpen → ws.getLast? = some []) →
      (tokens (List.zipWith (fun t w => w ++ t.value) (tokens source) ws).flatten).map
          Token.reading =
        List.zipWith (fun t w => (t.kind, w, t.value)) (tokens source) ws) ∧
    ∀ f : Text → Text, (∀ s, ∀ c ∈ f s, Blank c) → (∀ s, f s = [] ↔ s = []) →
      (tokens ((tokens source).flatMap fun t => f t.trivia ++ t.value)).map
          (fun t => (t.kind, t.value)) =
        (tokens source).map fun t => (t.kind, t.value) := by
  constructor
  · intro ws hw hl
    refine tokens_zipWith hw ?_
    intro t ht ho
    obtain ⟨front, hf, -⟩ := exists_of_open (l := ofText source) ht ho
    exact hl front t _ hf ho
  · intro f hb hf
    have hw : List.Forall₂ (fun t w => Respaces (Token.trivia t) w) (tokens source)
        ((tokens source).map fun t => f t.trivia) := by
      rw [List.forall₂_map_right_iff, List.forall₂_same]
      intro t _
      exact ⟨hb t.trivia, fun hn hz => hn ((hf _).mp hz)⟩
    have h := tokens_zipWith hw (by
      intro t ht ho
      obtain ⟨front, hf', -⟩ := exists_of_open (l := ofText source) ht ho
      rw [show tokens source = _ from hf']
      simp [(hf []).mpr rfl])
    rw [List.zipWith_map_right, List.zipWith_map_right, List.zipWith_self, List.zipWith_self,
      ← List.flatMap_def] at h
    have hk := congrArg (List.map fun r : Kind × Text × Text => (r.1, r.2.2)) h
    simpa [Function.comp_def, Token.reading] using hk

theorem tokens_respaced_open_string :
    (tokens [' ', 'a', '\n', '"', 'x']).map Token.reading =
      [(.identifier, [' '], ['a']), (.unterminatedStringLiteral, ['\n'], ['"', 'x']),
        (.eof, [], [])] := by
  have hs : Reading (['/', '*', '*', '/'] ++ (['"', 'x'] ++ []))
      [(.unterminatedStringLiteral, ['/', '*', '*', '/'], ['"', 'x']), (.eof, [], [])] :=
    .more (@Gap.block _ [] [] (by simp) .nil) (.openString (by simp)) (by simp) (.last .nil)
  have hr : Reading ([] ++ (['a'] ++ ['/', '*', '*', '/', '"', 'x']))
      ((.identifier, [], ['a']) :: _) :=
    .more .nil
      (.word (by decide) (by simp) (wordKind_eq_iff.mp (by decide)) fun _ hd => by cases hd; decide)
      (by simp) hs
  have ht : tokens ['a', '/', '*', '*', '/', '"', 'x'] = _ := tokens_of_reading hr
  have h := (tokens_respaced ['a', '/', '*', '*', '/', '"', 'x']).1 [[' '], ['\n'], []]
  rw [ht] at h
  refine h ?_ fun _ _ _ _ _ => rfl
  exact .cons (by simp [Respaces, Blank]) (.cons (by simp [Respaces, Blank])
    (.cons (by simp [Respaces, Token.ofScan]) .nil))

end Lexer

end LexCalc
