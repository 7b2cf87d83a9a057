import LexCalc.Proofs.Json.Reader

/-! Written JSON is read as the value that was written. -/
namespace LexCalc.Json
variable {α ι : Type} {c closer opener : Char} {s t blanks rest : Text} {depth n : Nat}

theorem hexValue?_hexDigit (h : n < 16) : Natural.hexValue? (hexDigit n) = some n := by
  have hd : ∀ n < 16, Natural.hexValue? (hexDigit n) = some n := by decide
  exact hd n h

/-- The escape of a control character holds its code in two digits. -/
theorem coded?_control (h : c.toNat < 0x20) (t : Text) :
    coded? ('0' :: '0' :: hexDigit (c.toNat / 16) :: hexDigit (c.toNat % 16) :: t) =
      some (c, t) := by
  have hz : Natural.hexValue? '0' = some 0 := by decide
  have hu : unit? ('0' :: '0' :: hexDigit (c.toNat / 16) :: hexDigit (c.toNat % 16) :: t) =
      some (c.toNat, t) := by
    have hn : 16 * (c.toNat / 16) + c.toNat % 16 = c.toNat := Nat.div_add_mod ..
    simp [unit?, hz, hexValue?_hexDigit (n := c.toNat / 16) (by omega),
      hexValue?_hexDigit (n := c.toNat % 16) (by omega), hn]
  simp only [coded?, hu, Option.bind_eq_bind, Option.bind_some]
  rw [if_pos (.inl (by omega)), Char.ofNat_toNat]
  rfl

theorem character?_escape (c : Char) (t : Text) : character? (escape c ++ t) = some (c, t) := by
  rw [escape]
  split_ifs with h1 h2 h3 h4 h5 h6 h7 h8
  · subst h1; rfl
  · subst h2; rfl
  · subst h3; rfl
  · subst h4; rfl
  · subst h5; rfl
  · subst h6; rfl
  · subst h7; rfl
  · exact coded?_control h8 t
  · rw [List.singleton_append, character?]
    · rw [if_neg h8]
    all_goals simp_all

theorem exists_escape (c : Char) : ∃ d u, escape c = d :: u ∧ d ≠ '"' := by
  rw [escape]
  split_ifs with h1
  all_goals first
    | exact ⟨_, _, rfl, by decide⟩
    | exact ⟨_, _, rfl, h1⟩

theorem characters?_escape (c : Char) (t : Text) :
    characters? (escape c ++ t) = (characters? t).map fun (s, rest) => (c :: s, rest) := by
  obtain ⟨d, u, he, hd⟩ := exists_escape c
  have hlt : t.length < (escape c ++ t).length := by
    rw [he, List.length_append, List.length_cons]
    omega
  rw [characters?.eq_def]
  split
  · next rest hq =>
    rw [he] at hq
    exact absurd (List.cons.inj hq).1 hd
  · simp only [character?_escape, if_pos hlt]

/-- A string ends at its closing quote. -/
theorem characters?_flatMap_escape (t rest : Text) :
    characters? (t.flatMap escape ++ '"' :: rest) = some (t, rest) := by
  induction t with
  | nil => rw [List.flatMap_nil, List.nil_append, characters?]
  | cons c t ih =>
    rw [List.flatMap_cons, List.append_assoc, characters?_escape, ih]
    rfl

/-- Before this text a number is at its end. -/
def Ends (rest : Text) : Prop := ∀ c ∈ rest.head?, c.isDigit = false ∧ c ≠ '.' ∧ c ≠ 'e' ∧ c ≠ 'E'

theorem digits?_append (hs : ∀ c ∈ s, c.isDigit = true) (hne : s ≠ [])
    (ht : ∀ c ∈ t.head?, c.isDigit = false) : digits? (s ++ t) = some (s, t) := by
  simp [digits?, takeWhile_append_eq hs ht, dropWhile_append_eq hs ht, hne]

/-- Nothing follows a leading zero in a numeral. -/
theorem whole?_decimal (n : Nat) (h : ∀ c ∈ rest.head?, c.isDigit = false) :
    whole? (Text.decimal n ++ rest) = some (Text.decimal n, rest) := by
  by_cases hn : n = 0
  · subst hn
    rfl
  · have hz := head?_toDigits (by decide : 1 < 10) hn
    rw [whole?.eq_def]
    split
    · next t ht =>
      rw [← List.head?_append_of_ne_nil _ Nat.toDigits_ne_nil, ← Text.decimal, ht] at hz
      exact absurd rfl hz
    · exact digits?_append (fun c => isDigit_of_mem_decimal) Nat.toDigits_ne_nil h

theorem number?_decimal (n : Nat) (h : Ends rest) :
    number? (Text.decimal n ++ rest) = some (.finite false n 0, rest) := by
  have hd : ∀ c ∈ rest.head?, c.isDigit = false := fun c hc => (h c hc).1
  have hf : fraction? rest = some ([], rest) := by
    rw [fraction?.eq_def]
    split
    · exact absurd rfl (h '.' rfl).2.1
    · rfl
  have he : exponent? rest = some (0, rest) := by
    cases rest with
    | nil => rfl
    | cons c rest =>
      obtain ⟨-, -, h1, h2⟩ := h c rfl
      rw [exponent?, if_neg (not_or.mpr ⟨h1, h2⟩)]
  have hm : splitMinus (Text.decimal n ++ rest) = (false, Text.decimal n ++ rest) := by
    obtain ⟨d, ds, hn, hd⟩ := exists_decimal n
    rw [hn, List.cons_append, splitMinus]
    exact fun t ht => ne_of_isDigit hd rfl (List.cons.inj ht).1
  simp [number?, hm, whole?_decimal n hd, hf, he, decimalValue_decimal]

theorem isBlank_of_isDigit (h : c.isDigit = true) : isBlank c = false := by
  have hs : c ≠ ' ' := ne_of_isDigit h rfl
  have ht : c ≠ '\t' := ne_of_isDigit h rfl
  have hn : c ≠ '\n' := ne_of_isDigit h rfl
  have hr : c ≠ '\r' := ne_of_isDigit h rfl
  simp [isBlank, hs, ht, hn, hr]

/-- Space in front of text that is read does not matter. -/
theorem skipBlanks_append (hb : ∀ c ∈ blanks, isBlank c = true) (t : Text) :
    skipBlanks (blanks ++ t) = skipBlanks t := List.dropWhile_append_of_pos hb

theorem skipBlanks_cons (hc : isBlank c = false) (t : Text) : skipBlanks (c :: t) = c :: t :=
  List.dropWhile_cons_of_neg (by simp [hc])

theorem isBlank_of_mem_newline (h : c ∈ newline depth) : isBlank c = true := by
  obtain rfl | h := List.mem_cons.mp h
  · rfl
  · rw [List.eq_of_mem_replicate h]
    rfl

theorem ends_newline (depth : Nat) (t : Text) : Ends (newline depth ++ t) := by
  intro c hc
  cases hc
  decide

theorem ends_comma (t : Text) : Ends (',' :: t) := by
  intro c hc
  cases hc
  decide

theorem exists_bracketed (opener closer : Char) (depth : Nat) (items : List Text) :
    ∃ t, bracketed opener closer depth items = opener :: t := by
  rw [bracketed]
  split_ifs
  · exact ⟨_, rfl⟩
  · exact ⟨_, rfl⟩

theorem length_le_intercalate (sep : Text) {items : List Text} (h : t ∈ items) :
    t.length ≤ (List.intercalate sep items).length := by
  induction items with
  | nil => cases h
  | cons s items ih =>
    cases items with
    | nil =>
      rw [List.mem_singleton.mp h, List.intercalate_singleton]
    | cons u items =>
      rw [List.intercalate_cons_cons, List.length_append, List.length_append]
      rcases List.mem_cons.mp h with rfl | h
      · omega
      · have := ih h
        omega

/-- What is written in brackets is shorter than all of it. -/
theorem length_lt_bracketed (opener closer : Char) (depth : Nat) {items : List Text}
    (h : t ∈ items) :
    t.length < (bracketed opener closer depth items).length := by
  have hne : items.isEmpty = false := by
    cases items with
    | nil => cases h
    | cons _ _ => rfl
  have hl := length_le_intercalate (',' :: newline (depth + 1)) h
  simp only [bracketed, hne, Bool.false_eq_true, if_false, List.length_cons, List.length_append]
  omega

theorem exists_succ_of_bracketed {items : List Text}
    (h : (bracketed opener closer depth items).length ≤ n) : ∃ m, n = m + 1 := by
  obtain ⟨t, ht⟩ := exists_bracketed opener closer depth items
  rw [ht, List.length_cons] at h
  exact ⟨n - 1, by omega⟩

section Bracketed
variable {item? : Text → Option (α × Text)} {written : ι → Text} {result : ι → α} {items : List ι}

theorem items?_last {x : α} (hi : item? t = some (x, s)) (hs : skipBlanks s = closer :: rest) :
    items? closer item? t = some ([x], rest) := by
  rw [items?, hi]
  simp only [hs, if_pos]

theorem items?_more {x : α} (hi : item? t = some (x, s)) (hs : skipBlanks s = ',' :: rest)
    (hc : ',' ≠ closer) (hl : rest.length < t.length) :
    items? closer item? t =
      (items? closer item? rest).map fun (xs, rest) => (x :: xs, rest) := by
  rw [items?, hi]
  simp only [hs, if_neg hc, if_pos, if_pos hl]

/-- Items with commas between them are read if each of them is. -/
theorem items?_intercalate (hc : ',' ≠ closer) (hb : isBlank closer = false)
    (hi : ∀ i ∈ items, ∀ rest, Ends rest →
      item? (newline (depth + 1) ++ (written i ++ rest)) = some (result i, rest))
    (hne : items ≠ []) (rest : Text) :
    items? closer item? (newline (depth + 1) ++
        (List.intercalate (',' :: newline (depth + 1)) (items.map written) ++
          (newline depth ++ closer :: rest))) = some (items.map result, rest) := by
  induction items with
  | nil => exact absurd rfl hne
  | cons i items ih =>
    rw [List.forall_mem_cons] at hi
    cases items with
    | nil =>
      have hs : skipBlanks (newline depth ++ closer :: rest) = closer :: rest := by
        rw [skipBlanks_append fun c => isBlank_of_mem_newline, skipBlanks_cons hb]
      rw [List.map_singleton, List.intercalate_singleton]
      exact items?_last (hi.1 _ (ends_newline depth _)) hs
    | cons j items =>
      have h := ih hi.2 (by simp)
      rw [List.map_cons] at h
      rw [List.map_cons, List.map_cons, List.intercalate_cons_cons, List.append_assoc,
        List.append_assoc, List.cons_append,
        items?_more (hi.1 _ (ends_comma _)) (skipBlanks_cons (by decide) _) hc, h]
      · rfl
      · simp only [List.length_append, List.length_cons]
        omega

theorem exists_intercalate (sep x : Text) (xs : List Text) :
    ∃ t, List.intercalate sep (x :: xs) = x ++ t := by
  cases xs with
  | nil => exact ⟨[], by rw [List.intercalate_singleton, List.append_nil]⟩
  | cons y ys => exact ⟨_, by rw [List.intercalate_cons_cons, List.append_assoc]⟩

/-- What is written in brackets is read behind the opening one. -/
theorem exists_enclosed (opener : Char) (hc : ',' ≠ closer) (hb : isBlank closer = false)
    (hi : ∀ i ∈ items, ∀ rest, Ends rest →
      item? (newline (depth + 1) ++ (written i ++ rest)) = some (result i, rest))
    (hh : ∀ i ∈ items, ∃ c t, written i = c :: t ∧ isBlank c = false ∧ c ≠ closer) (rest : Text) :
    ∃ t, bracketed opener closer depth (items.map written) ++ rest = opener :: t ∧
      enclosed? closer item? t = some (items.map result, rest) := by
  by_cases hne : items = []
  · subst hne
    refine ⟨closer :: rest, rfl, ?_⟩
    rw [enclosed?, skipBlanks_cons hb, if_pos List.head?_cons]
    rfl
  · obtain ⟨i, is, rfl⟩ := List.exists_cons_of_ne_nil hne
    refine ⟨newline (depth + 1) ++
      (List.intercalate (',' :: newline (depth + 1)) ((i :: is).map written) ++
        (newline depth ++ closer :: rest)), by simp [bracketed], ?_⟩
    -- The first item does not start like the closing bracket.
    have hs : (skipBlanks (newline (depth + 1) ++
        (List.intercalate (',' :: newline (depth + 1)) ((i :: is).map written) ++
          (newline depth ++ closer :: rest)))).head? ≠ some closer := by
      obtain ⟨c, t, hw, hcb, hcc⟩ := hh i List.mem_cons_self
      obtain ⟨s, hs⟩ := exists_intercalate (',' :: newline (depth + 1)) (written i) (is.map written)
      rw [skipBlanks_append fun c => isBlank_of_mem_newline, List.map_cons, hs, hw,
        List.cons_append, List.cons_append, skipBlanks_cons hcb, List.head?_cons]
      exact fun h => hcc (Option.some.inj h)
    rw [enclosed?, if_neg hs]
    exact items?_intercalate hc hb hi hne rest

end Bracketed

theorem value?_blanks (hb : ∀ c ∈ blanks, isBlank c = true) (t : Text) :
    value? n (blanks ++ t) = value? n t := by
  rw [value?.eq_def, value?.eq_def n t, skipBlanks_append hb]

theorem value?_quote (n : Nat) (t : Text) :
    value? n ('"' :: t) = (characters? t).map fun (s, t) => (.string s, t) := by
  rw [value?.eq_def, skipBlanks_cons (by decide)]
  cases n <;> rfl

theorem value?_bracket (n : Nat) (t : Text) :
    value? (n + 1) ('[' :: t) =
      (enclosed? ']' (value? n) t).map fun (items, t) => (.array items, t) := by
  rw [value?.eq_def, skipBlanks_cons (by decide)]
  rfl

theorem value?_brace (n : Nat) (t : Text) :
    value? (n + 1) ('{' :: t) =
      (enclosed? '}' (member? (value? n)) t).map fun (members, t) => (.object members, t) := by
  rw [value?.eq_def, skipBlanks_cons (by decide)]
  rfl

theorem value?_decimal (n k : Nat) (h : Ends rest) :
    value? n (Text.decimal k ++ rest) = some (.number (.finite false k 0), rest) := by
  have hr := number?_decimal k h
  obtain ⟨c, t, hk, hd⟩ := exists_decimal k
  rw [hk, List.cons_append] at hr ⊢
  rw [value?.eq_def, skipBlanks_cons (isBlank_of_isDigit hd)]
  split
  case h_7 => rw [hr]; rfl
  all_goals
    next heq => exact absurd (List.cons.inj heq).1 (ne_of_isDigit hd rfl)

theorem member?_string {item? : Text → Option (Datum × Text)} {d : Datum}
    (hb : ∀ c ∈ blanks, isBlank c = true) (key : Text) (hv : item? (' ' :: t) = some (d, rest)) :
    member? item? (blanks ++ (Json.string key ++ ": ".toList ++ t)) = some ((key, d), rest) := by
  have hs : skipBlanks (blanks ++ (Json.string key ++ ": ".toList ++ t)) =
      '"' :: (key.flatMap escape ++ '"' :: ':' :: ' ' :: t) := by
    rw [skipBlanks_append hb, Json.string, List.cons_append, List.cons_append,
      skipBlanks_cons (by decide)]
    simp
  have hc : skipBlanks (':' :: ' ' :: t) = ':' :: ' ' :: t := skipBlanks_cons (by decide) _
  rw [member?, hs]
  simp [characters?_flatMap_escape, hc, hv]

namespace Value

theorem write_object (depth : Nat) (members : List (Text × Value)) :
    (object members).write depth =
      bracketed '{' '}' depth
        (members.map fun m => Json.string m.1 ++ ": ".toList ++ m.2.write (depth + 1)) := by
  rw [write]
  exact congrArg _ (List.attach_map_val
    (f := fun m : Text × Value => Json.string m.1 ++ ": ".toList ++ m.2.write (depth + 1)))

/-- What is read where a value was written. -/
def datum : Value → Datum
  | number n => .number (.finite false n 0)
  | string t => .string t
  | array items => .array (items.map fun v => datum v)
  | object members => .object (members.map fun m => (m.1, datum m.2))
termination_by v => sizeOf v
decreasing_by
  · have := List.sizeOf_lt_of_mem ‹_›
    simp only [array.sizeOf_spec]; omega
  · obtain ⟨key, v⟩ := m
    have := List.sizeOf_lt_of_mem ‹_›
    simp only [object.sizeOf_spec, Prod.mk.sizeOf_spec] at this ⊢; omega

/-- No value starts like a space or a closing bracket. -/
theorem exists_write (depth : Nat) (v : Value) :
    ∃ c t, v.write depth = c :: t ∧ isBlank c = false ∧ c ≠ ']' := by
  cases v with
  | number n =>
    obtain ⟨c, t, hn, hd⟩ := exists_decimal n
    exact ⟨c, t, by rw [write, hn], isBlank_of_isDigit hd, ne_of_isDigit hd rfl⟩
  | string t => exact ⟨'"', _, by rw [write, Json.string], rfl, by decide⟩
  | array items =>
    obtain ⟨t, ht⟩ := exists_bracketed '[' ']' depth (items.map fun v => v.write (depth + 1))
    exact ⟨'[', t, by rw [write, ht], rfl, by decide⟩
  | object members =>
    rw [write_object]
    obtain ⟨t, ht⟩ := exists_bracketed '{' '}' depth _
    exact ⟨'{', t, ht, rfl, by decide⟩

theorem value?_write (v : Value) (hn : (v.write depth).length ≤ n) (hr : Ends rest) :
    value? n (v.write depth ++ rest) = some (v.datum, rest) := by
  induction depth, v using write.induct generalizing n rest with
  | case1 depth k => rw [write, datum, value?_decimal n k hr]
  | case2 depth t =>
    rw [write, datum, Json.string, List.cons_append, value?_quote, List.append_assoc,
      List.singleton_append, characters?_flatMap_escape]
    rfl
  | case3 depth items ih =>
    rw [write] at hn ⊢
    -- Items are shorter than the array, so one level less is enough for them.
    obtain ⟨n, rfl⟩ := exists_succ_of_bracketed hn
    have hi : ∀ v ∈ items, ∀ rest, Ends rest →
        value? n (newline (depth + 1) ++ (v.write (depth + 1) ++ rest)) = some (v.datum, rest) := by
      intro v hv rest hr
      have hl := length_lt_bracketed '[' ']' depth
        (List.mem_map_of_mem (f := fun v => write (depth + 1) v) hv)
      rw [value?_blanks fun c => isBlank_of_mem_newline]
      exact ih v hv (by omega) hr
    have hh : ∀ v ∈ items, ∃ c t, v.write (depth + 1) = c :: t ∧ isBlank c = false ∧ c ≠ ']' :=
      fun v _ => exists_write (depth + 1) v
    obtain ⟨t, ht, he⟩ := exists_enclosed '[' (by decide) (by decide) hi hh rest
    rw [ht, datum, value?_bracket, he]
    rfl
  | case4 depth members ih =>
    rw [write_object] at hn ⊢
    obtain ⟨n, rfl⟩ := exists_succ_of_bracketed hn
    have hi : ∀ m ∈ members, ∀ rest, Ends rest →
        member? (value? n) (newline (depth + 1) ++
          (Json.string m.1 ++ ": ".toList ++ m.2.write (depth + 1) ++ rest)) =
            some ((m.1, m.2.datum), rest) := by
      intro m hm rest hr
      have hl := length_lt_bracketed '{' '}' depth
        (List.mem_map_of_mem
          (f := fun m : Text × Value => Json.string m.1 ++ ": ".toList ++ m.2.write (depth + 1)) hm)
      simp only [List.length_append] at hl
      have hv := ih m.1 m.2 hm (n := n) (by omega) hr
      rw [List.append_assoc]
      refine member?_string (fun c => isBlank_of_mem_newline) m.1 ?_
      have hb : ∀ c ∈ [' '], isBlank c = true := List.forall_mem_singleton.mpr rfl
      exact (value?_blanks hb _).trans hv
    have hh : ∀ m ∈ members, ∃ c t,
        Json.string m.1 ++ ": ".toList ++ m.2.write (depth + 1) = c :: t ∧
          isBlank c = false ∧ c ≠ '}' :=
      fun m _ => ⟨'"', _, rfl, by decide, by decide⟩
    obtain ⟨t, ht, he⟩ := exists_enclosed '{' (by decide) (by decide) hi hh rest
    rw [ht, datum, value?_brace, he]
    rfl

/-- A written value, alone in its text. -/
theorem ofText?_write (v : Value) : Datum.ofText? (v.write 0 ++ ['\n']) = some v.datum := by
  have hr : Ends ['\n'] := ends_newline 0 []
  have hn : (v.write 0).length ≤ (v.write 0 ++ ['\n']).length := by
    rw [List.length_append]
    omega
  rw [Datum.ofText?, value?_write v hn hr]
  rfl

end Value

end LexCalc.Json
