import LexCalc.Proofs.Listing.Records
import Mathlib.Data.Set.List
import Mathlib.Logic.Relation

/-! Files that are read by several threads. Which of them is read next is left open, and so is how
many are still read after one could not be. -/
namespace LexCalc.Listing

/-- How far the reading of a file has come. -/
inductive Progress where
  | waiting
  | running
  | done (result : Except Failure Listing)
  /-- Another file could not be read before this one was begun. -/
  | dropped

/-- A file that is to be read. -/
structure Job where
  path : Path
  progress : Progress

namespace Job

def isWaiting (j : Job) : Bool :=
  match j.progress with
  | .waiting => true
  | _ => false

def isRunning (j : Job) : Bool :=
  match j.progress with
  | .running => true
  | _ => false

theorem isRunning_iff {j : Job} : j.isRunning = true ↔ j.progress = .running := by
  rw [isRunning]
  cases j.progress <;> simp

/-- Whether the file could not be read. -/
def hasFailed (j : Job) : Prop := ∃ e, j.progress = .done (.error e)

end Job

/-- The files in the order in which they are named. -/
abbrev Pool := List Job

namespace Pool

def start (paths : List Path) : Pool := paths.map fun path => ⟨path, .waiting⟩

/-- What one thread does with a file, the others being as they are. -/
inductive Turn (files : Files) (jobs : Nat) (others : Pool) (path : Path) :
    Progress → Progress → Prop where
  | begin (h : others.countP Job.isRunning < jobs) : Turn files jobs others path .waiting .running
  | finish : Turn files jobs others path .running (.done ((ofFile files path).map Prod.fst))
  | drop (h : ∃ j ∈ others, j.hasFailed) : Turn files jobs others path .waiting .dropped

inductive Step (files : Files) (jobs : Nat) : Pool → Pool → Prop where
  | turn (front back : Pool) (path : Path) {a b : Progress}
    (h : Turn files jobs (front ++ back) path a b) :
    Step files jobs (front ++ ⟨path, a⟩ :: back) (front ++ ⟨path, b⟩ :: back)

def Reaches (files : Files) (jobs : Nat) : Pool → Pool → Prop :=
  Relation.ReflTransGen (Step files jobs)

/-- The pool is at its end: it has the listings of all files in their order, or the error of any
file that could not be read. -/
inductive Ends : Pool → Except Failure (List Listing) → Prop where
  | ok {pool : Pool} {ls : List Listing}
    (h : pool.map Job.progress = ls.map fun l => .done (.ok l)) : Ends pool (.ok ls)
  | error {pool : Pool} {j : Job} {e : Failure} (hj : j ∈ pool)
    (he : j.progress = .done (.error e))
    (h : ∀ j ∈ pool, j.progress ≠ .waiting ∧ j.progress ≠ .running) : Ends pool (.error e)

variable {files : Files} {jobs : Nat} {paths : List Path} {front back pool next : Pool} {j : Job}
  {path : Path} {a b : Progress} {result : Except Failure (List Listing)}

/-- What is so at any time: the files are those that were named, what was read of them is what is in
them, and none is dropped but for an error. -/
structure Sound (files : Files) (paths : List Path) (pool : Pool) : Prop where
  path_eq : pool.map Job.path = paths
  done : ∀ j ∈ pool, ∀ r, j.progress = .done r → r = (ofFile files j.path).map Prod.fst
  dropped : ∀ j ∈ pool, j.progress = .dropped → ∃ j ∈ pool, j.hasFailed

theorem sound_start (files : Files) (paths : List Path) : Sound files paths (start paths) where
  path_eq := by simp [start, Function.comp_def]
  done := by simp [start]
  dropped := by simp [start]

theorem mem_append_cons {x : Job} : j ∈ front ++ x :: back ↔ j = x ∨ j ∈ front ++ back := by
  rw [List.mem_append, List.mem_cons, or_left_comm, ← List.mem_append]

/-- No thread touches a file that could not be read. -/
theorem exists_hasFailed_step (h : Turn files jobs (front ++ back) path a b)
    (hf : ∃ j ∈ front ++ ⟨path, a⟩ :: back, j.hasFailed) : ∃ j ∈ front ++ back, j.hasFailed := by
  obtain ⟨j, hj, e, he⟩ := hf
  rcases mem_append_cons.mp hj with rfl | hj
  · cases h <;> cases he
  · exact ⟨j, hj, e, he⟩

theorem sound_step (h : Step files jobs pool next) (hs : Sound files paths pool) :
    Sound files paths next := by
  obtain ⟨hp, hd, hx⟩ := hs
  cases h with
  | @turn front back path a b h =>
    have hf : (∃ j ∈ front ++ back, j.hasFailed) →
        ∃ j ∈ front ++ ⟨path, b⟩ :: back, j.hasFailed :=
      fun ⟨j, hj, he⟩ => ⟨j, mem_append_cons.mpr (.inr hj), he⟩
    refine ⟨by simpa using hp, ?_, ?_⟩
    · intro j hj r hr
      rcases mem_append_cons.mp hj with rfl | hj
      · cases h <;> cases hr
        rfl
      · exact hd j (mem_append_cons.mpr (.inr hj)) r hr
    · intro j hj hr
      rcases mem_append_cons.mp hj with rfl | hj
      · cases h with
        | begin _ => cases hr
        | finish => cases hr
        | drop h => exact hf h
      · exact hf (exists_hasFailed_step h (hx j (mem_append_cons.mpr (.inr hj)) hr))

theorem sound_of_reaches (h : Reaches files jobs (start paths) pool) : Sound files paths pool := by
  induction h with
  | refl => exact sound_start files paths
  | tail _ h ih => exact sound_step h ih

/-- At the end there are the listings of all files, or an error that one of them gives. -/
theorem Ends.sound (h : Ends pool result) (hs : Sound files paths pool) :
    (∀ ls, result = .ok ls →
      List.Forall₂ (fun path l => (ofFile files path).map Prod.fst = .ok l) paths ls) ∧
    ∀ e, result = .error e → ∃ path ∈ paths, (ofFile files path).map Prod.fst = .error e := by
  obtain ⟨rfl, hd, -⟩ := hs
  cases h with
  | @ok ls h =>
    refine ⟨?_, by simp⟩
    rintro _ ⟨⟩
    have hread : ∀ (j : Job) (l : Listing),
        (∀ r, j.progress = .done r → r = (ofFile files j.path).map Prod.fst) ∧
          j.progress = .done (.ok l) →
        (ofFile files j.path).map Prod.fst = .ok l :=
      fun j l ⟨hr, hl⟩ => (hr _ hl).symm
    rw [List.forall₂_map_left_iff]
    exact ((List.forall₂_and_left pool ls).mpr ⟨hd, forall₂_of_map_eq h⟩).imp hread
  | @error j e hj he h =>
    refine ⟨by simp, ?_⟩
    rintro _ ⟨⟩
    exact ⟨j.path, List.mem_map_of_mem hj, (hd j hj _ he).symm⟩

/-- How many turns there can be. -/
def remaining (pool : Pool) : Nat := 2 * pool.countP Job.isWaiting + pool.countP Job.isRunning

theorem remaining_step (h : Step files jobs pool next) : remaining next < remaining pool := by
  obtain ⟨front, back, path, h⟩ := h
  cases h with
  | begin _ =>
    simp [remaining, List.countP_cons, Job.isWaiting, Job.isRunning]
    omega
  | finish => simp [remaining, List.countP_cons, Job.isWaiting, Job.isRunning]
  | drop _ => simp [remaining, List.countP_cons, Job.isWaiting, Job.isRunning]

theorem countP_isRunning_eq_zero (h : ∀ j ∈ pool, j.progress ≠ .running) :
    pool.countP Job.isRunning = 0 :=
  List.countP_eq_zero.mpr fun j hj hr => h j hj (Job.isRunning_iff.mp hr)

/-- While not all files are read or dropped, some thread has something to do. -/
theorem exists_step_or_ends (hj : 0 < jobs) (hs : Sound files paths pool) :
    (∃ next, Step files jobs pool next) ∨ ∃ result, Ends pool result := by
  by_cases hr : ∃ j ∈ pool, j.progress = .running
  · obtain ⟨⟨path, _⟩, hm, rfl⟩ := hr
    obtain ⟨front, back, rfl⟩ := List.append_of_mem hm
    exact .inl ⟨_, .turn front back path .finish⟩
  by_cases hw : ∃ j ∈ pool, j.progress = .waiting
  · obtain ⟨⟨path, _⟩, hm, rfl⟩ := hw
    obtain ⟨front, back, rfl⟩ := List.append_of_mem hm
    refine .inl ⟨_, .turn front back path (.begin ?_)⟩
    rwa [countP_isRunning_eq_zero fun j hj h => hr ⟨j, mem_append_cons.mpr (.inr hj), h⟩]
  right
  by_cases hf : ∃ j ∈ pool, j.hasFailed
  · obtain ⟨j, hm, e, he⟩ := hf
    exact ⟨.error e, .error hm he fun j hm => ⟨fun h => hw ⟨j, hm, h⟩, fun h => hr ⟨j, hm, h⟩⟩⟩
  · have hd : pool.map Job.progress ∈ Set.range (List.map fun l => Progress.done (.ok l)) := by
      rw [Set.range_list_map]
      intro p hp
      obtain ⟨j, hm, rfl⟩ := List.mem_map.mp hp
      cases hj : j.progress with
      | waiting => exact absurd ⟨j, hm, hj⟩ hw
      | running => exact absurd ⟨j, hm, hj⟩ hr
      | dropped => exact absurd (hs.dropped j hm hj) hf
      | done result =>
        cases result with
        | error e => exact absurd ⟨j, hm, e, hj⟩ hf
        | ok l => exact ⟨l, rfl⟩
    obtain ⟨ls, hl⟩ := hd
    exact ⟨.ok ls, .ok hl.symm⟩

/-- However the threads have gone on so far, they come to an end. -/
theorem exists_ends (hj : 0 < jobs) (hs : Sound files paths pool) :
    ∃ last result, Reaches files jobs pool last ∧ Ends last result := by
  induction hn : remaining pool using Nat.strongRecOn generalizing pool with
  | ind n ih =>
    rcases exists_step_or_ends hj hs with ⟨next, h⟩ | ⟨result, h⟩
    · obtain ⟨last, result, hr, he⟩ := ih _ (hn ▸ remaining_step h) (sound_step h hs) rfl
      exact ⟨last, result, .head h hr, he⟩
    · exact ⟨pool, result, .refl, h⟩

theorem reaches_dropped (front : Pool) (hf : ∃ j ∈ front, j.hasFailed) (paths : List Path) :
    Reaches files jobs (front ++ start paths) (front ++ paths.map fun path => ⟨path, .dropped⟩) := by
  induction paths generalizing front with
  | nil => exact .refl
  | cons path paths ih =>
    obtain ⟨j, hj, e, he⟩ := hf
    have hd : ∃ j ∈ front ++ start paths, j.hasFailed := ⟨j, List.mem_append_left _ hj, e, he⟩
    have hr := ih (front ++ [⟨path, .dropped⟩]) ⟨j, List.mem_append_left _ hj, e, he⟩
    rw [List.append_assoc, List.append_assoc] at hr
    exact .head (.turn front (start paths) path (.drop hd)) hr

/-- Of files that are read in their order, none is begun before the last one is done. -/
theorem exists_ofFiles_append (files : Files) (hj : 0 < jobs) (paths : List Path)
    (front : Pool) (ls : List Listing)
    (hf : front.map Job.progress = ls.map fun l => .done (.ok l)) :
    ∃ last, Reaches files jobs (front ++ start paths) last ∧
      Ends last ((ofFiles files paths).1.map (ls ++ ·)) := by
  induction paths generalizing front ls with
  | nil =>
    refine ⟨front ++ start [], .refl, ?_⟩
    exact .ok (by simpa [start] using hf)
  | cons path paths ih =>
    have hread : ∀ j ∈ front, ∃ l, j.progress = .done (.ok l) := by
      intro j hj
      have hp := List.mem_map_of_mem (f := Job.progress) hj
      rw [hf] at hp
      obtain ⟨l, -, hl⟩ := List.mem_map.mp hp
      exact ⟨l, hl.symm⟩
    have hz : (front ++ start paths).countP Job.isRunning < jobs := by
      rwa [countP_isRunning_eq_zero]
      intro j hj hr
      rcases List.mem_append.mp hj with hj | hj
      · obtain ⟨l, hl⟩ := hread j hj
        rw [hl] at hr
        cases hr
      · obtain ⟨path, -, rfl⟩ := List.mem_map.mp hj
        cases hr
    have hr : Reaches files jobs (front ++ start (path :: paths))
        (front ++ ⟨path, .done ((ofFile files path).map Prod.fst)⟩ :: start paths) :=
      .head (.turn front (start paths) path (.begin hz))
        (.single (.turn front (start paths) path .finish))
    rw [ofFiles]
    cases hl : ofFile files path with
    | error e =>
      rw [hl] at hr
      -- All files that are left are dropped.
      have hd : Reaches files jobs (front ++ [⟨path, .done (.error e)⟩] ++ start paths) _ :=
        reaches_dropped _ ⟨⟨path, .done (.error e)⟩, by simp, e, rfl⟩ paths
      rw [List.append_assoc, List.append_assoc] at hd
      refine ⟨_, hr.trans hd, .error (j := ⟨path, .done (.error e)⟩) (by simp) rfl ?_⟩
      intro j hj
      rcases List.mem_append.mp hj with hj | hj
      · obtain ⟨l, hl⟩ := hread j hj
        simp [hl]
      · simp only [List.singleton_append, List.mem_cons, List.mem_map] at hj
        obtain rfl | ⟨path, -, rfl⟩ := hj <;> simp
    | ok found =>
      obtain ⟨l, log⟩ := found
      rw [hl] at hr
      have hf' : (front ++ [(⟨path, .done (.ok l)⟩ : Job)]).map Job.progress =
          (ls ++ [l]).map fun l => .done (.ok l) := by
        rw [List.map_append, hf, List.map_append]
        rfl
      obtain ⟨last, hreach, he⟩ := ih _ _ hf'
      rw [List.append_assoc] at hreach
      refine ⟨last, hr.trans hreach, ?_⟩
      cases hrest : (ofFiles files paths).1 with
      | error e =>
        rw [hrest] at he
        simpa [hrest, Except.map] using he
      | ok rest =>
        rw [hrest] at he
        simpa [hrest, Except.map] using he

/-- One thread that reads the files in their order is a way to do it. -/
theorem exists_ofFiles (files : Files) (hj : 0 < jobs) (paths : List Path) :
    ∃ last, Reaches files jobs (start paths) last ∧ Ends last (ofFiles files paths).1 := by
  obtain ⟨last, hr, he⟩ := exists_ofFiles_append files hj paths [] [] rfl
  refine ⟨last, hr, ?_⟩
  cases h : (ofFiles files paths).1 with
  | error e =>
    rw [h] at he
    exact he
  | ok ls =>
    rw [h] at he
    exact he

end Pool

end LexCalc.Listing
