import LexCalc.Text.Basic

/-! Runs of characters of one class at the front of a text. -/
namespace LexCalc
variable {c : Char} {s t : Text}

/-- A run that what follows cannot extend is taken whole. -/
theorem takeWhile_append_eq {p : Char → Bool} (hs : ∀ c ∈ s, p c = true)
    (ht : ∀ c ∈ t.head?, p c = false) : (s ++ t).takeWhile p = s := by
  rw [List.takeWhile_append_of_pos hs]
  cases t with
  | nil => simp
  | cons d t => simp [ht d rfl]

theorem dropWhile_append_eq {p : Char → Bool} (hs : ∀ c ∈ s, p c = true)
    (ht : ∀ c ∈ t.head?, p c = false) : (s ++ t).dropWhile p = t := by
  rw [List.dropWhile_append_of_pos hs]
  cases t with
  | nil => rfl
  | cons d t => simp [ht d rfl]

theorem of_mem_takeWhile {p : Char → Bool} (h : c ∈ t.takeWhile p) : p c = true :=
  List.all_eq_true.mp List.all_takeWhile c h

theorem of_mem_head?_dropWhile {p : Char → Bool} (h : c ∈ (t.dropWhile p).head?) :
    p c = false := by
  have hn := List.head?_dropWhile_not p t
  rw [Option.mem_def.mp h] at hn
  simpa using hn

/-- What follows a text makes no pair at its front, if it does not start with the second of the
two. -/
theorem not_pair_append {a b : Char} (hp : ¬ [a, b] <+: c :: s) (ht : ∀ d ∈ t.head?, d ≠ b) :
    ¬ [a, b] <+: c :: (s ++ t) := by
  rintro ⟨rest, hr⟩
  cases s with
  | nil =>
    obtain ⟨-, rfl⟩ := List.cons.inj hr
    exact ht b rfl rfl
  | cons d s =>
    cases hr
    exact hp ⟨s, rfl⟩

end LexCalc
