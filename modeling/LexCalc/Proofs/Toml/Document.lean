import LexCalc.Proofs.Toml.Scalars

/-! Documents of lines under headings, with keys that need no quotes: every line is read, and the
tables hold what the lines say, in the order of the lines. Distinct keys are all that it takes. -/
namespace LexCalc.Toml
variable {c d : Char} {rest t : Text} {key : String} {v : Value} {ms inner : Members}
  {header : List Text} {draft draft' : Draft} {k depth : Nat}

/-- A key that needs no quotes. -/
def IsBareKey (key : String) : Prop := key ≠ "" ∧ key.toList.all isBareKeyChar = true

/-- A line that gives a key its value. -/
structure Setting where
  key : String
  written : Text
  value : Value

namespace Setting

def text (s : Setting) : Text := Config.entry s.key s.written

def member (s : Setting) : Text × Value := (s.key.toList, s.value)

def Legible (s : Setting) : Prop := IsBareKey s.key ∧ Writes s.written s.value

end Setting

/-- A heading and the lines below it. -/
structure Section where
  key : String
  settings : List Setting

namespace Section

def text (s : Section) : Text := Config.heading s.key ++ s.settings.flatMap Setting.text

def member (s : Section) : Text × Value :=
  (s.key.toList, .table .header (s.settings.map Setting.member))

def Legible (s : Section) : Prop :=
  IsBareKey s.key ∧ (∀ x ∈ s.settings, x.Legible) ∧ (s.settings.map Setting.key).Nodup

end Section

/-! ### Keys -/

theorem ne_of_isBareKeyChar (hc : isBareKeyChar c = true) (hd : isBareKeyChar d = false) :
    c ≠ d := by
  rintro rfl
  rw [hc] at hd
  cases hd

theorem skipBlanks_of_head (h : isBlank c = false) (t : Text) : skipBlanks (c :: t) = c :: t :=
  List.dropWhile_cons_of_neg (by simp [h])

theorem IsBareKey.exists_cons (h : IsBareKey key) :
    ∃ c cs, key.toList = c :: cs ∧ isBareKeyChar c = true := by
  have hne : key.toList ≠ [] := fun hn => h.1 (String.toList_eq_nil_iff.mp hn)
  obtain ⟨c, cs, hk⟩ := List.exists_cons_of_ne_nil hne
  refine ⟨c, cs, hk, List.all_eq_true.mp h.2 c ?_⟩
  rw [hk]
  exact List.mem_cons_self

theorem skipBlanks_key (h : IsBareKey key) (t : Text) :
    skipBlanks (key.toList ++ t) = key.toList ++ t := by
  obtain ⟨c, cs, hk, hc⟩ := h.exists_cons
  have hs : c ≠ ' ' := ne_of_isBareKeyChar hc (by decide)
  have ht : c ≠ '\t' := ne_of_isBareKeyChar hc (by decide)
  rw [hk, List.cons_append, skipBlanks_of_head (by simp [isBlank, hs, ht])]

/-- A key without quotes ends before the first character that is not of its kind. -/
theorem keyPart?_append (h : IsBareKey key) (hc : isBareKeyChar c = false) :
    keyPart? (key.toList ++ c :: rest) = some (key.toList, c :: rest) := by
  obtain ⟨d, cs, hk, hd⟩ := h.exists_cons
  have hq : d ≠ '"' := ne_of_isBareKeyChar hd (by decide)
  have ha : d ≠ '\x27' := ne_of_isBareKeyChar hd (by decide)
  have hr : ∀ e ∈ (c :: rest).head?, isBareKeyChar e = false := by simpa using hc
  have htake := takeWhile_append_eq (List.all_eq_true.mp h.2) hr
  have hdrop := dropWhile_append_eq (List.all_eq_true.mp h.2) hr
  rw [hk, List.cons_append] at htake hdrop ⊢
  simp [keyPart?, hq, ha, htake, hdrop]

theorem key?_append (h : IsBareKey key) (hc : isBareKeyChar c = false)
    (hs : skipBlanks (c :: rest) = d :: t) (hd : d ≠ '.') :
    key? (k + 1) (key.toList ++ c :: rest) = some ([], key.toList, d :: t) := by
  simp [key?, skipBlanks_key h, keyPart?_append h hc, hs, hd]

/-- A line that starts with a key is not at its end. -/
theorem lineEnd?_key (h : IsBareKey key) (t : Text) : lineEnd? (key.toList ++ t) = none := by
  obtain ⟨c, cs, hk, hc⟩ := h.exists_cons
  have hhash : c ≠ '#' := ne_of_isBareKeyChar hc (by decide)
  have hn : c ≠ '\n' := ne_of_isBareKeyChar hc (by decide)
  have hr : c ≠ '\r' := ne_of_isBareKeyChar hc (by decide)
  rw [lineEnd?, skipBlanks_key h, hk, List.cons_append]
  simp [skipComment, newline?, hhash, hn, hr]

/-! ### Lines -/

/-- A key and its value up to the end of the line. -/
theorem keyValue?_setting {s : Setting} (h : s.Legible) (depth : Nat) (rest : Text) :
    keyValue? (value? depth) (s.text ++ rest) =
      some (([], s.key.toList, s.value), '\n' :: rest) := by
  obtain ⟨hk, hblank, hne, hv⟩ := h
  obtain ⟨c, w, hw⟩ := List.exists_cons_of_ne_nil hne
  have ht : s.text ++ rest =
      s.key.toList ++ ' ' :: '=' :: ' ' :: (s.written ++ '\n' :: rest) := by
    simp [Setting.text, Config.entry]
  have hkey : key? (nestingLimit - 1)
      (s.key.toList ++ ' ' :: '=' :: ' ' :: (s.written ++ '\n' :: rest)) =
        some ([], s.key.toList, '=' :: ' ' :: (s.written ++ '\n' :: rest)) :=
    key?_append hk (by decide) rfl (by decide)
  have hskip : skipBlanks (' ' :: (s.written ++ '\n' :: rest)) = s.written ++ '\n' :: rest := by
    rw [hw] at hblank ⊢
    exact skipBlanks_of_head (hblank c rfl) _
  simp [keyValue?, ht, hkey, char?, hskip, hv]

theorem line?_setting {s : Setting} (h : s.Legible)
    (hm : draft.members.defineUnder draft.header [] s.key.toList s.value = some ms) (rest : Text) :
    draft.line? (s.text ++ rest) = some ({ draft with members := ms }, rest) := by
  obtain ⟨u, hu⟩ : ∃ u, s.text ++ rest = s.key.toList ++ u := by
    simp [Setting.text, Config.entry]
  have hskip := skipBlanks_key h.1 u
  have hend := lineEnd?_key h.1 u
  have hv := keyValue?_setting h (nestingLimit - 1) rest
  obtain ⟨c, cs, hk, hc⟩ := h.1.exists_cons
  have hbracket : c ≠ '[' := ne_of_isBareKeyChar hc (by decide)
  rw [hu] at hv ⊢
  rw [hk] at hm
  rw [hk, List.cons_append] at hskip hend hv ⊢
  have hl : lineEnd? ('\n' :: rest) = some rest := rfl
  simp [Draft.line?, hskip, hbracket, hend, hv, hm, hl]

/-- The empty line before a heading says nothing. -/
theorem line?_newline (draft : Draft) (rest : Text) :
    draft.line? ('\n' :: rest) = some (draft, rest) := rfl

theorem line?_heading (hk : IsBareKey key) (hm : draft.members.openTable [] key.toList = some ms)
    (rest : Text) :
    draft.line? ('[' :: (key.toList ++ ']' :: '\n' :: rest)) = some (⟨ms, [key.toList]⟩, rest) := by
  have hkey : key? (nestingLimit - 1) (key.toList ++ ']' :: '\n' :: rest) =
      some ([], key.toList, ']' :: '\n' :: rest) :=
    key?_append hk (by decide) rfl (by decide)
  obtain ⟨c, cs, hc, hb⟩ := hk.exists_cons
  have hbracket : c ≠ '[' := ne_of_isBareKeyChar hb (by decide)
  have hl : lineEnd? ('\n' :: rest) = some rest := rfl
  have hskip (t : Text) : skipBlanks ('[' :: t) = '[' :: t := rfl
  rw [hc, List.cons_append] at hkey ⊢
  simp [Draft.line?, hskip, Draft.headerLine?, hbracket, hkey, char?, hl, ← hc, hm]

/-- A line is read, and then the lines after it. -/
theorem lines?_of_line? (h : draft.line? t = some (draft', rest)) (hl : rest.length < t.length) :
    draft.lines? t = draft'.lines? rest := by
  cases t with
  | nil => cases hl
  | cons c t =>
    rw [Draft.lines?.eq_def]
    simp only [h, if_pos hl]

theorem lines?_setting {s : Setting} (h : s.Legible)
    (hm : draft.members.defineUnder draft.header [] s.key.toList s.value = some ms) (rest : Text) :
    draft.lines? (s.text ++ rest) = Draft.lines? { draft with members := ms } rest := by
  apply lines?_of_line? (line?_setting h hm rest)
  simp [Setting.text, Config.entry]
  omega

theorem lines?_heading (hk : IsBareKey key) (hm : draft.members.openTable [] key.toList = some ms)
    (rest : Text) :
    draft.lines? (Config.heading key ++ rest) = Draft.lines? ⟨ms, [key.toList]⟩ rest := by
  have ht : Config.heading key ++ rest = '\n' :: '[' :: (key.toList ++ ']' :: '\n' :: rest) := by
    simp [Config.heading]
  rw [ht, lines?_of_line? (line?_newline draft _) (Nat.lt_succ_self _)]
  apply lines?_of_line? (line?_heading hk hm rest)
  simp
  omega

/-! ### Tables -/

namespace Members
variable {key : Text}

theorem get?_eq_none_iff : ms.get? key = none ↔ key ∉ ms.map Prod.fst := by
  rw [get?, List.lookup_eq_none_iff]
  constructor
  · intro h hm
    obtain ⟨m, hmem, rfl⟩ := List.mem_map.mp hm
    simpa using h m hmem
  · intro h m hm
    have hne : key ≠ m.1 := fun he => h (he ▸ List.mem_map_of_mem hm)
    simpa using hne

/-- Names that are not there are not there after some other one is added. -/
theorem notMem_concat {names : List String} {name : String}
    (hd : ∀ x ∈ names, x.toList ∉ ms.map Prod.fst) (hn : name ∉ names) (v : Value) :
    ∀ x ∈ names, x.toList ∉ (ms ++ [(name.toList, v)]).map Prod.fst := by
  intro x hx hm
  rw [List.map_append, List.mem_append] at hm
  rcases hm with hm | hm
  · exact hd x hx hm
  · have he : x = name := String.toList_inj.mp (List.mem_singleton.mp hm)
    exact hn (he ▸ hx)

theorem get?_push (h : ms.get? key = none) (v : Value) : (ms.push key v).get? key = some v := by
  rw [get?] at h
  simp [get?, push, List.lookup_append, h]

/-- A value that was put last is replaced there. -/
theorem replace_push (h : ms.get? key = none) (v w : Value) :
    (ms.push key v).replace key w = ms.push key w := by
  have hne : ∀ m ∈ ms, (if m.1 = key then (key, w) else m) = id m := by
    intro m hm
    rw [get?_eq_none_iff] at h
    have hk : m.1 ≠ key := fun he => h (he ▸ List.mem_map_of_mem hm)
    rw [if_neg hk]
    rfl
  rw [replace, push, push, List.map_append, List.map_congr_left hne, List.map_id]
  simp

theorem define_of_get? (h : ms.get? key = none) (v : Value) :
    ms.define [] key v = some (ms.push key v) := by
  simp [define, descend, h]

theorem openTable_of_get? (h : ms.get? key = none) :
    ms.openTable [] key = some (ms.push key (.table .header [])) := by
  simp [openTable, descend, h]

end Members

/-- Where the values below a header go, as a function from the table there to all tables. -/
def Below (header : List Text) (place : Members → Members) : Prop :=
  ∀ (inner : Members) key v, inner.get? key = none →
    (place inner).defineUnder header [] key v = some (place (inner.push key v))

theorem below_nil : Below [] id := fun _ _ v h => Members.define_of_get? h v

theorem below_table {key : Text} (h : ms.get? key = none) :
    Below [key] fun inner => ms.push key (.table .header inner) := by
  intro inner k v hk
  simp [Members.defineUnder, Members.descend, Members.get?_push h, Members.define_of_get? hk,
    Members.replace_push h]

/-! ### Documents -/

/-- Lines with keys that are not there yet add their members in order. -/
theorem lines?_settings {place : Members → Members} (hp : Below header place)
    {settings : List Setting} (hl : ∀ s ∈ settings, s.Legible)
    (hn : (settings.map Setting.key).Nodup)
    (hd : ∀ x ∈ settings.map Setting.key, x.toList ∉ inner.map Prod.fst) (rest : Text) :
    Draft.lines? ⟨place inner, header⟩ (settings.flatMap Setting.text ++ rest) =
      Draft.lines? ⟨place (inner ++ settings.map Setting.member), header⟩ rest := by
  -- Each line adds a member behind those that are there, whichever they are.
  induction settings generalizing inner with
  | nil => simp
  | cons s settings ih =>
    rw [List.map_cons, List.nodup_cons] at hn
    rw [List.map_cons, List.forall_mem_cons] at hd
    rw [List.forall_mem_cons] at hl
    have hm := hp inner s.key.toList s.value (Members.get?_eq_none_iff.mpr hd.1)
    have hi := ih hl.2 hn.2 (Members.notMem_concat hd.2 hn.1 s.value)
    rw [List.flatMap_cons, List.append_assoc, lines?_setting hl.1 hm]
    simpa [Members.push, Setting.member] using hi

/-- A heading opens a table, and the lines below it fill it. -/
theorem lines?_section {s : Section} (hl : s.Legible) (hd : s.key.toList ∉ ms.map Prod.fst)
    (header : List Text) (rest : Text) :
    Draft.lines? ⟨ms, header⟩ (s.text ++ rest) =
      Draft.lines? ⟨ms ++ [s.member], [s.key.toList]⟩ rest := by
  obtain ⟨hk, hs, hn⟩ := hl
  have hfresh := Members.get?_eq_none_iff.mpr hd
  rw [Section.text, List.append_assoc, lines?_heading hk (Members.openTable_of_get? hfresh)]
  exact lines?_settings (below_table hfresh) hs hn (by simp) rest

theorem exists_lines?_sections {sections : List Section} (hl : ∀ s ∈ sections, s.Legible)
    (hn : (sections.map Section.key).Nodup)
    (hd : ∀ x ∈ sections.map Section.key, x.toList ∉ ms.map Prod.fst) (header : List Text) :
    ∃ last, Draft.lines? ⟨ms, header⟩ (sections.flatMap Section.text) =
      some ⟨ms ++ sections.map Section.member, last⟩ := by
  induction sections generalizing ms header with
  | nil => exact ⟨header, by simp [Draft.lines?]⟩
  | cons s sections ih =>
    rw [List.map_cons, List.nodup_cons] at hn
    rw [List.map_cons, List.forall_mem_cons] at hd
    rw [List.forall_mem_cons] at hl
    obtain ⟨last, hi⟩ := ih hl.2 hn.2 (Members.notMem_concat hd.2 hn.1 _) [s.key.toList]
    refine ⟨last, ?_⟩
    rw [List.flatMap_cons, lines?_section hl.1 hd.1]
    simpa [Section.member] using hi

theorem document?_of_head (h : t.head? ≠ some '\uFEFF') :
    document? t = (Draft.lines? {} t).map Draft.members := by
  rw [document?]
  intro u hu
  rw [hu] at h
  exact h rfl

/-- Nothing that is written starts with a byte order mark. -/
theorem head?_sections {settings : List Setting} {sections : List Section}
    (hs : ∀ s ∈ settings, s.Legible) :
    (settings.flatMap Setting.text ++ sections.flatMap Section.text).head? ≠ some '\uFEFF' := by
  cases settings with
  | nil =>
    cases sections with
    | nil => simp
    | cons s sections => simp [Section.text, Config.heading]
  | cons s settings =>
    obtain ⟨c, cs, hk, hc⟩ := (hs s List.mem_cons_self).1.exists_cons
    have hb : c ≠ '\uFEFF' := ne_of_isBareKeyChar hc (by decide)
    simp [Setting.text, Config.entry, hk, hb]

/-- Lines and then headings with lines below them, all keys beside each other distinct: the document
has a member for each of them, in order. -/
theorem document?_sections {settings : List Setting} {sections : List Section}
    (hs : ∀ s ∈ settings, s.Legible) (hl : ∀ s ∈ sections, s.Legible)
    (hn : (settings.map Setting.key ++ sections.map Section.key).Nodup) :
    document? (settings.flatMap Setting.text ++ sections.flatMap Section.text) =
      some (settings.map Setting.member ++ sections.map Section.member) := by
  obtain ⟨hn1, hn2, hd⟩ := List.nodup_append.mp hn
  have hfresh : ∀ x ∈ sections.map Section.key,
      x.toList ∉ (settings.map Setting.member).map Prod.fst := by
    intro x hx hm
    simp only [List.mem_map, Setting.member] at hm
    obtain ⟨-, ⟨s, hs, rfl⟩, he⟩ := hm
    exact hd s.key (List.mem_map_of_mem hs) x hx (String.toList_inj.mp he)
  obtain ⟨last, hlines⟩ := exists_lines?_sections hl hn2 hfresh []
  have hempty : ∀ x ∈ settings.map Setting.key, x.toList ∉ ([] : Members).map Prod.fst := by simp
  have htop := lines?_settings below_nil hs hn1 hempty (sections.flatMap Section.text)
  rw [document?_of_head (head?_sections hs)]
  change (Draft.lines? ⟨id [], []⟩ _).map Draft.members = _
  rw [htop, List.nil_append, id_eq, hlines]
  rfl

end LexCalc.Toml
