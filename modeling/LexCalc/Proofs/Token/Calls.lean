import LexCalc.Proofs.Token.Progress

/-! Whatever is asked of a lexer, and in whatever order, the answers speak of one row of tokens. -/
namespace LexCalc

namespace Lexer

/-- What can be asked of a lexer. -/
inductive Call where
  | next
  | next?
  | current
  | position
  | source
  deriving DecidableEq, Repr

inductive Answer where
  | token (t : Token)
  | token? (t : Option Token)
  | position (n : Nat)
  | source (t : Text)
  deriving DecidableEq, Repr

/-- Whether a call reads a token. -/
def Call.reads : Call → Bool
  | next | next? => true
  | current | position | source => false

def call (l : Lexer) : Call → Answer × Lexer
  | .next => (.token l.next.1, l.next.2)
  | .next? => (.token? l.next?.1, l.next?.2)
  | .current => (.token l.current, l)
  | .position => (.position l.position, l)
  | .source => (.source l.source, l)

/-- One call after another, with all the answers. -/
def calls (l : Lexer) : List Call → List Answer × Lexer
  | [] => ([], l)
  | c :: cs =>
    let (answer, l) := l.call c
    let (answers, l) := l.calls cs
    (answer :: answers, l)

/-- The token that was read last, after `k` of them. -/
def last (source : Text) : Nat → Token
  | 0 => ⟨.eof, [], [], .point 0⟩
  | k + 1 => nth source k

/-- What a call has to answer after `k` tokens. -/
def answer (source : Text) (k : Nat) : Call → Answer
  | .next => .token (nth source k)
  | .next? => .token? (if (nth source k).isEof then none else some (nth source k))
  | .current => .token (last source k)
  | .position => .position (last source k).span.stop
  | .source => .source source

variable {l : Lexer} {source : Text} {σ : Type} {k n : Nat}

theorem current_after (source : Text) (k : Nat) :
    ((ofText source).after k).current = last source k := by
  cases k with
  | zero => rfl
  | succ k =>
    rw [after_succ]
    rfl

theorem position_after (source : Text) (k : Nat) :
    ((ofText source).after k).position = (last source k).span.stop := by
  cases k with
  | zero => rfl
  | succ k =>
    rw [after_succ, position_next]
    rfl

theorem calls_cons (l : Lexer) (c : Call) (cs : List Call) :
    l.calls (c :: cs) =
      ((l.call c).1 :: ((l.call c).2.calls cs).1, ((l.call c).2.calls cs).2) := rfl

/-- A call that reads no token leaves the lexer as it is. -/
theorem call_of_not_reads {c : Call} (h : c.reads = false) (l : Lexer) : (l.call c).2 = l := by
  cases c with
  | next => contradiction
  | next? => contradiction
  | current => rfl
  | position => rfl
  | source => rfl

/-- One call: the answer depends on nothing but how many tokens were read before. -/
theorem call_after (source : Text) (k : Nat) (c : Call) :
    ((ofText source).after k).call c =
      (answer source k c, (ofText source).after (k + c.reads.toNat)) := by
  cases c with
  | next =>
    change _ = (_, (ofText source).after (k + 1))
    rw [after_succ]
    rfl
  | next? =>
    change _ = (_, (ofText source).after (k + 1))
    rw [after_succ]
    rfl
  | current =>
    rw [call, current_after]
    rfl
  | position =>
    rw [call, position_after]
    rfl
  | source =>
    rw [call, (placed_after source k).source_eq]
    rfl

theorem calls_after (source : Text) (k : Nat) (cs : List Call) :
    (((ofText source).after k).calls cs).2 =
      (ofText source).after (k + cs.countP Call.reads) := by
  induction cs generalizing k with
  | nil => rfl
  | cons c cs ih =>
    have hc : (c :: cs).countP Call.reads = c.reads.toNat + cs.countP Call.reads := by
      rw [List.countP_cons, Nat.add_comm]
      cases c.reads <;> rfl
    rw [calls_cons, call_after, hc, ← Nat.add_assoc]
    exact ih _

theorem calls_ofText (source : Text) (cs : List Call) :
    ((ofText source).calls cs).2 = (ofText source).after (cs.countP Call.reads) := by
  have h := calls_after source 0 cs
  rw [Nat.zero_add] at h
  exact h

theorem length_answers (l : Lexer) (cs : List Call) : (l.calls cs).1.length = cs.length := by
  induction cs generalizing l with
  | nil => rfl
  | cons c cs ih => exact congrArg Nat.succ (ih (l.call c).2)

theorem calls_append (l : Lexer) (front back : List Call) :
    l.calls (front ++ back) =
      ((l.calls front).1 ++ ((l.calls front).2.calls back).1,
        ((l.calls front).2.calls back).2) := by
  induction front generalizing l with
  | nil => rfl
  | cons c front ih =>
    rw [List.cons_append, calls_cons, ih, calls_cons]
    rfl

/-- Any number of calls: each is answered by how many tokens those before it read. -/
theorem getElem?_answers (source : Text) (front : List Call) (c : Call) (back : List Call) :
    ((ofText source).calls (front ++ c :: back)).1[front.length]? =
      some (answer source (front.countP Call.reads) c) := by
  rw [calls_append, List.getElem?_append_right (Nat.le_of_eq (length_answers ..)),
    length_answers, Nat.sub_self, calls_ofText, calls_cons, call_after]
  rfl

theorem next?_eq (l : Lexer) :
    l.next? = (if l.next.1.isEof then none else some l.next.1, l.next.2) := rfl

theorem next?_of_eof (h : l.next.1.isEof = true) : l.next? = (none, l.next.2) := by
  rw [next?_eq, if_pos h]

theorem next?_of_ne_eof (h : l.next.1.isEof = false) : l.next? = (some l.next.1, l.next.2) := by
  rw [next?_eq, if_neg (ne_true_of_eq_false h)]

theorem length_rest_next? {t : Token} {m : Lexer} (h : l.next? = (some t, m)) :
    m.rest.length < l.rest.length := by
  cases he : l.next.1.isEof with
  | true =>
    rw [next?_of_eof he] at h
    cases h
  | false =>
    rw [next?_of_ne_eof he] at h
    obtain ⟨-, rfl⟩ := Prod.mk.inj h
    refine Scan.length_rest_lt ?_
    rw [Ne, ← beq_iff_eq]
    exact ne_true_of_eq_false he

/-- Takes tokens in as long as there is one that is not the end. -/
def fold (f : σ → Token → σ) (s : σ) (l : Lexer) : σ × Lexer :=
  match h : l.next? with
  | (none, m) => (s, m)
  | (some t, m) =>
    have : m.rest.length < l.rest.length := length_rest_next? h
    fold f (f s t) m
termination_by l.rest.length

/-- The tokens that are left, without the end. -/
def collect (l : Lexer) : List Token × Lexer :=
  let (read, l) := l.fold (fun read t => t :: read) []
  (read.reverse, l)

/-- The number of tokens that are left, without the end. -/
def count (l : Lexer) : Nat × Lexer := l.fold (fun n _ => n + 1) 0

theorem fold_of_eof (f : σ → Token → σ) (s : σ) (h : l.next.1.isEof = true) :
    l.fold f s = (s, l.next.2) := by
  have hl := next?_of_eof h
  rw [fold]
  split
  · rename_i hn
    cases hl.symm.trans hn
    rfl
  · rename_i hn
    cases hl.symm.trans hn

theorem fold_of_ne_eof (f : σ → Token → σ) (s : σ) (h : l.next.1.isEof = false) :
    l.fold f s = l.next.2.fold f (f s l.next.1) := by
  have hl := next?_of_ne_eof h
  rw [fold]
  split
  · rename_i hn
    cases hl.symm.trans hn
  · rename_i hn
    cases hl.symm.trans hn
    rfl

/-- From some number of tokens on, the end is all that is read. -/
theorem exists_isEof_iff (source : Text) :
    ∃ n, (∀ i, (nth source i).isEof = true ↔ n ≤ i) ∧
      ∀ i, n < i → Spent source ((ofText source).after i) := by
  obtain ⟨n, -, hne, he, hs⟩ := exists_spent source
  refine ⟨n, ?_, hs⟩
  intro i
  obtain hi | rfl | hi := Nat.lt_trichotomy i n
  · rw [hne i hi]
    exact iff_of_false Bool.false_ne_true (Nat.not_le.mpr hi)
  · exact iff_of_true he (Nat.le_refl i)
  · refine iff_of_true ?_ (Nat.le_of_lt hi)
    rw [nth, (hs i hi).next_eq]
    rfl

theorem fold_after (f : σ → Token → σ) (s : σ) (hn : ∀ i, (nth source i).isEof = true ↔ n ≤ i)
    (k : Nat) :
    ((ofText source).after k).fold f s =
      ((((List.range n).map (nth source)).drop k).foldl f s,
        (ofText source).after (max k n + 1)) := by
  generalize hl : (ofText source).after k = l
  -- What is left shrinks with every token, while the number of those read grows.
  induction l using finish_induction generalizing k s with
  | last l h =>
    subst hl
    have he : (nth source k).isEof = true := (isEof_next _).mpr h
    have hk : n ≤ k := (hn k).mp he
    have hd : ((List.range n).map (nth source)).drop k = [] := by
      rw [List.drop_eq_nil_iff, List.length_map, List.length_range]
      exact hk
    rw [fold_of_eof f s he, hd, Nat.max_eq_left hk, after_succ]
    rfl
  | more l h ih =>
    subst hl
    have he : (nth source k).isEof = false := by
      rw [← Bool.not_eq_true]
      exact fun hk => h ((isEof_next _).mp hk)
    have hk : k < n := by
      rw [← Nat.not_le, ← hn k, he]
      exact Bool.false_ne_true
    have hd : ((List.range n).map (nth source)).drop k =
        nth source k :: ((List.range n).map (nth source)).drop (k + 1) := by
      rw [List.drop_eq_getElem_cons (by rw [List.length_map, List.length_range]; exact hk),
        List.getElem_map, List.getElem_range]
    have hm : max k n = max (k + 1) n := by omega
    rw [fold_of_ne_eof f s he, hd, hm]
    exact ih _ (k + 1) (after_succ ..)

theorem collect_after (hn : ∀ i, (nth source i).isEof = true ↔ n ≤ i) (k : Nat) :
    ((ofText source).after k).collect =
      (((List.range n).map (nth source)).drop k, (ofText source).after (max k n + 1)) := by
  rw [collect, fold_after _ _ hn, List.foldl_flip_cons_eq_append', List.append_nil]
  exact congrArg (·, _) (List.reverse_reverse _)

theorem count_after (hn : ∀ i, (nth source i).isEof = true ↔ n ≤ i) (k : Nat) :
    ((ofText source).after k).count = (n - k, (ofText source).after (max k n + 1)) := by
  rw [count, fold_after _ _ hn, List.foldl_add_const, Nat.zero_add, Nat.one_mul,
    List.length_drop, List.length_map, List.length_range]

/-- One lexer answers all its calls alike, in whatever order they come: the token of a read depends
on nothing but how many were read before, the current token is the one read last, and the position
is where that one ends. To collect or to count what is left takes exactly the tokens that were not
read before, and ends behind the text. -/
theorem calls_agree (source : Text) :
    (∀ front c back, ((ofText source).calls (front ++ c :: back)).1[front.length]? =
      some (answer source (front.countP Call.reads) c)) ∧
    (∀ cs, ((ofText source).calls cs).1.length = cs.length) ∧
    (∀ (c : Call) (l : Lexer), c.reads = false → (l.call c).2 = l) ∧
    ∃ n, (∀ i, (nth source i).isEof = true ↔ n ≤ i) ∧
      ∀ cs, let l := ((ofText source).calls cs).2
        let k := cs.countP Call.reads
        let done := (ofText source).after (max k n + 1)
        l = (ofText source).after k ∧
        l.collect = (((List.range n).map (nth source)).drop k, done) ∧
        l.count = (n - k, done) ∧
        done.rest = [] ∧ done.position = source.size ∧
        done.current = nth source (max k n) ∧ done.current.isEof = true := by
  refine ⟨getElem?_answers source, length_answers _, fun c l h => call_of_not_reads h l, ?_⟩
  obtain ⟨n, hn, hs⟩ := exists_isEof_iff source
  refine ⟨n, hn, ?_⟩
  intro cs l k done
  have hl : l = (ofText source).after k := calls_ofText source cs
  have hd : Spent source done := hs _ (Nat.lt_succ_of_le (Nat.le_max_right k n))
  have hc : done.current = nth source (max k n) := current_after source _
  refine ⟨hl, ?_, ?_, hd.rest_eq, hd.position_eq, hc, ?_⟩
  · rw [hl]
    exact collect_after hn k
  · rw [hl]
    exact count_after hn k
  · rw [hc, hn]
    exact Nat.le_max_right k n

end Lexer
end LexCalc
