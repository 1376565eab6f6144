import ReticulumProtocols.Concurrency.EventRun

/-! Threads that run programs over shared state. A program performs one operation after the other, each of them a
single atomic step, and goes on as the answers say. -/

namespace ReticulumProtocols.Concurrency

universe u v w

inductive Program (Op : Type u) (Answer : Op → Type v) (α : Type w) where
  | pure (result : α)
  | perform (op : Op) (next : Answer op → Program Op Answer α)

namespace Program
variable {Op : Type u} {Answer : Op → Type v} {α β : Type w}

def bind : Program Op Answer α → (α → Program Op Answer β) → Program Op Answer β
  | pure result, f => f result
  | perform op next, f => perform op fun answer => (next answer).bind f

instance : Monad (Program Op Answer) where
  pure := pure
  bind := bind

/-- The program that performs one operation and ends with its answer. -/
def once (op : Op) : Program Op Answer (Answer op) := perform op pure

@[simp]
theorem pure_bind (result : α) (f : α → Program Op Answer β) : (Pure.pure result >>= f) = f result := rfl

@[simp]
theorem once_bind {Answer : Op → Type w} (op : Op) (f : Answer op → Program Op Answer β) :
    (once op >>= f) = perform op f := rfl

@[simp]
theorem perform_bind (op : Op) (next : Answer op → Program Op Answer α) (f : α → Program Op Answer β) :
    (perform op next >>= f) = perform op fun answer => next answer >>= f := rfl

@[simp]
theorem ite_bind (p : Prop) [Decidable p] (yes no : Program Op Answer α) (f : α → Program Op Answer β) :
    ((if p then yes else no) >>= f) = if p then yes >>= f else no >>= f := by
  split <;> rfl

/-- Every operation the program may come to perform is of a kind. -/
def All (kind : Op → Prop) : Program Op Answer α → Prop
  | pure _ => True
  | perform op next => kind op ∧ ∀ answer, (next answer).All kind

@[simp]
theorem all_pure (kind : Op → Prop) (result : α) : (Pure.pure result : Program Op Answer α).All kind := trivial

@[simp]
theorem all_perform (kind : Op → Prop) (op : Op) (next : Answer op → Program Op Answer α) :
    (perform op next).All kind ↔ kind op ∧ ∀ answer, (next answer).All kind := Iff.rfl

@[simp]
theorem all_once (kind : Op → Prop) (op : Op) : (once op : Program Op Answer (Answer op)).All kind ↔ kind op :=
  ⟨And.left, fun holds => ⟨holds, fun _ => trivial⟩⟩

@[simp]
theorem all_ite (kind : Op → Prop) (p : Prop) [Decidable p] (yes no : Program Op Answer α) :
    (if p then yes else no).All kind ↔ (p → yes.All kind) ∧ (¬p → no.All kind) := by
  split <;> simp_all

theorem all_of_forall {kind : Op → Prop} (each : ∀ op, kind op) (program : Program Op Answer α) : program.All kind := by
  induction program with
  | pure result => trivial
  | perform op next ih => exact ⟨each op, ih⟩

theorem All.bind {kind : Op → Prop} {program : Program Op Answer α} {f : α → Program Op Answer β}
    (all : program.All kind) (rest : ∀ result, (f result).All kind) : (program >>= f).All kind := by
  induction program with
  | pure result => exact rest result
  | perform op next ih => exact ⟨all.1, fun answer => ih answer (all.2 answer)⟩

theorem All.mono {kind kind' : Op → Prop} {program : Program Op Answer α} (weaker : ∀ op, kind op → kind' op)
    (all : program.All kind) : program.All kind' := by
  induction program with
  | pure result => trivial
  | perform op next ih => exact ⟨weaker op all.1, fun answer => ih answer (all.2 answer)⟩

section
variable {State : Type*} (act : State → (op : Op) → State × Answer op)

/-- The program runs by itself: each operation acts on what the ones before it have left. -/
def alone : Program Op Answer α → State → State × α
  | pure result, s => (s, result)
  | perform op next, s => (next (act s op).2).alone (act s op).1

@[simp]
theorem alone_pure (result : α) (s : State) : (Pure.pure result : Program Op Answer α).alone act s = (s, result) := rfl

@[simp]
theorem alone_perform (op : Op) (next : Answer op → Program Op Answer α) (s : State) :
    (perform op next).alone act s = (next (act s op).2).alone act (act s op).1 := rfl

@[simp]
theorem alone_once (op : Op) (s : State) : (once op : Program Op Answer (Answer op)).alone act s = act s op := rfl

theorem alone_bind (program : Program Op Answer α) (f : α → Program Op Answer β) (s : State) :
    (program >>= f).alone act s = (f (program.alone act s).2).alone act (program.alone act s).1 := by
  induction program generalizing s with
  | pure result => rfl
  | perform op next ih => exact ih (act s op).2 (act s op).1

/-- What every operation of a program keeps, the program keeps. -/
theorem alone_keeps {γ : Type*} {act : State → (op : Op) → State × Answer op} {part : State → γ}
    {program : Program Op Answer α} (keeps : program.All fun op => ∀ s, part (act s op).1 = part s) (s : State) :
    part (program.alone act s).1 = part s := by
  induction program generalizing s with
  | pure result => rfl
  | perform op next ih => exact (ih (act s op).2 (keeps.2 _) (act s op).1).trans (keeps.1 s)

end

end Program

/-- How shared state and threads behave: which entries may be started, what each runs, and what an operation of a
thread does for an input from outside. An operation may start further entries, and one that has to wait gives nothing. -/
structure Behaviour (State Op : Type u) (Answer : Op → Type u) (Entry Input : Type u) where
  opens : State → Entry → Bool
  program : Entry → Program Op Answer PUnit.{u + 1}
  perform : State → Nat → Input → (op : Op) → Option (State × Answer op × List Entry)

structure Threads (State Op : Type u) (Answer : Op → Type u) where
  shared : State
  threads : List (Program Op Answer PUnit.{u + 1}) := []

inductive Activity (Entry Input : Type u) where
  | start (entry : Entry)
  | run (i : Nat) (input : Input)

namespace Behaviour
variable {State Op : Type u} {Answer : Op → Type u} {Entry Input : Type u}
variable (b : Behaviour State Op Answer Entry Input)

def advance (s : Threads State Op Answer) (i : Nat) (input : Input) :
    Program Op Answer PUnit.{u + 1} → Option (Threads State Op Answer)
  | .pure _ => none
  | .perform op next =>
    (b.perform s.shared i input op).map fun (shared, answer, forked) =>
      { shared, threads := s.threads.set i (next answer) ++ forked.map b.program }

def step (s : Threads State Op Answer) : Activity Entry Input → Option (Threads State Op Answer)
  | .start entry => if b.opens s.shared entry then some { s with threads := s.threads ++ [b.program entry] } else none
  | .run i input => s.threads[i]?.bind (b.advance s i input)

/-- A condition on the operations of a run, each in the shared state it meets. -/
def Meets (condition : State → Nat → Input → Op → Prop) (s : Threads State Op Answer) :
    Activity Entry Input → Prop
  | .start _ => True
  | .run i input =>
    match s.threads[i]? with
    | some (.perform op _) => condition s.shared i input op
    | _ => True

instance decidableMeets (condition : State → Nat → Input → Op → Prop)
    [∀ s i input op, Decidable (condition s i input op)] (s : Threads State Op Answer) :
    (activity : Activity Entry Input) → Decidable (Meets condition s activity)
  | .start _ => isTrue trivial
  | .run i input =>
    match found : s.threads[i]? with
    | some (.perform op _) => decidable_of_iff (condition s.shared i input op) (by simp [Meets, found])
    | some (.pure _) => isTrue (by simp [Meets, found])
    | none => isTrue (by simp [Meets, found])

variable {b} {s s' : Threads State Op Answer}

theorem step_start {entry : Entry} (stepped : b.step s (.start entry) = some s') :
    b.opens s.shared entry = true ∧ s' = { s with threads := s.threads ++ [b.program entry] } := by
  obtain ⟨opens, taken⟩ := Option.ite_none_right_eq_some.1 stepped
  exact ⟨opens, (Option.some.inj taken).symm⟩

theorem step_run {i : Nat} {input : Input} (stepped : b.step s (.run i input) = some s') :
    ∃ op next shared answer forked, s.threads[i]? = some (.perform op next) ∧
      b.perform s.shared i input op = some (shared, answer, forked) ∧
      s' = { shared, threads := s.threads.set i (next answer) ++ forked.map b.program } := by
  obtain ⟨program, found, stepped⟩ := Option.bind_eq_some_iff.1 stepped
  cases program with
  | pure result => cases stepped
  | perform op next =>
    obtain ⟨⟨shared, answer, forked⟩, performed, made⟩ := Option.map_eq_some_iff.1 stepped
    exact ⟨op, next, shared, answer, forked, found, performed, made.symm⟩

end Behaviour

/-- A discipline of programs: the operations that each mode of a thread permits, and the mode that an answer leads to.
An answer without a mode is one that cannot come. -/
structure Typestate (Op : Type u) (Answer : Op → Type v) (Mode : Type w) where
  permits : Mode → Op → Prop
  after : Mode → (op : Op) → Answer op → Option Mode

namespace Typestate
variable {Op : Type u} {Answer : Op → Type v} {Mode : Type w} {α β : Type w}
variable (t : Typestate Op Answer Mode)
variable {mode : Mode} {wanted : Mode → β → Prop} {program : Program Op Answer α}

/-- The program keeps to the discipline from a mode on, and what it ends with is as wanted. -/
def Follows : Program Op Answer α → Mode → (Mode → α → Prop) → Prop
  | .pure result, mode, wanted => wanted mode result
  | .perform op next, mode, wanted =>
    t.permits mode op ∧ ∀ answer mode', t.after mode op answer = some mode' → Follows (next answer) mode' wanted

variable {t}

@[simp]
theorem follows_pure (result : α) (mode : Mode) (wanted : Mode → α → Prop) :
    t.Follows (Pure.pure result) mode wanted ↔ wanted mode result := Iff.rfl

@[simp]
theorem follows_perform (op : Op) (next : Answer op → Program Op Answer α) (mode : Mode) (wanted : Mode → α → Prop) :
    t.Follows (.perform op next) mode wanted ↔ t.permits mode op ∧
      ∀ answer mode', t.after mode op answer = some mode' → t.Follows (next answer) mode' wanted := Iff.rfl

@[simp]
theorem follows_once {Answer : Op → Type w} {t : Typestate Op Answer Mode} (op : Op) (mode : Mode)
    (wanted : Mode → Answer op → Prop) :
    t.Follows (Program.once op) mode wanted ↔ t.permits mode op ∧
      ∀ answer mode', t.after mode op answer = some mode' → wanted mode' answer := Iff.rfl

theorem follows_once_bind {Answer : Op → Type w} {t : Typestate Op Answer Mode} {op : Op}
    {next : Answer op → Program Op Answer β} (permitted : t.permits mode op)
    (rest : ∀ answer mode', t.after mode op answer = some mode' → t.Follows (next answer) mode' wanted) :
    t.Follows (Program.once op >>= next) mode wanted := ⟨permitted, rest⟩

@[simp]
theorem follows_ite (p : Prop) [Decidable p] (yes no : Program Op Answer α) (mode : Mode)
    (wanted : Mode → α → Prop) :
    t.Follows (if p then yes else no) mode wanted ↔
      (p → t.Follows yes mode wanted) ∧ (¬p → t.Follows no mode wanted) := by
  split <;> simp_all

theorem follows_bind {f : α → Program Op Answer β}
    (follows : t.Follows program mode fun mode' result => t.Follows (f result) mode' wanted) :
    t.Follows (program >>= f) mode wanted := by
  induction program generalizing mode with
  | pure result => exact follows
  | perform op next ih => exact ⟨follows.1, fun answer mode' after => ih answer (follows.2 answer mode' after)⟩

theorem Follows.mono {wanted wanted' : Mode → α → Prop}
    (follows : t.Follows program mode wanted) (weaker : ∀ mode' result, wanted mode' result → wanted' mode' result) :
    t.Follows program mode wanted' := by
  induction program generalizing mode with
  | pure result => exact weaker mode result follows
  | perform op next ih => exact ⟨follows.1, fun answer mode' after => ih answer (follows.2 answer mode' after)⟩

/-- Operations that lead from modes of a kind to modes of that kind. -/
def Keeps (t : Typestate Op Answer Mode) (modes : Mode → Prop) (op : Op) : Prop :=
  ∀ mode, modes mode → t.permits mode op ∧ ∀ answer mode', t.after mode op answer = some mode' → modes mode'

theorem follows_of_keeps {modes : Mode → Prop}
    (keeps : program.All (t.Keeps modes)) (start : modes mode) : t.Follows program mode fun mode' _ => modes mode' := by
  induction program generalizing mode with
  | pure result => exact start
  | perform op next ih =>
    obtain ⟨permitted, stays⟩ := keeps.1 mode start
    exact ⟨permitted, fun answer mode' after => ih answer (keeps.2 answer) (stays answer mode' after)⟩

/-- Operations that leave a mode as it is. -/
def Plain (t : Typestate Op Answer Mode) (mode : Mode) (op : Op) : Prop :=
  t.permits mode op ∧ ∀ answer mode', t.after mode op answer = some mode' → mode' = mode

/-- A program of such operations ends in the mode it started in. -/
theorem follows_of_plain {wanted : Mode → α → Prop}
    (plain : program.All (t.Plain mode)) (ends : ∀ result, wanted mode result) : t.Follows program mode wanted := by
  have keeps : program.All (t.Keeps (· = mode)) := plain.mono fun op plain mode' same => by
    rw [same]
    exact plain
  refine (follows_of_keeps keeps rfl).mono fun mode' result same => ?_
  rw [same]
  exact ends result

theorem follows_bind_of_plain {f : α → Program Op Answer β}
    (plain : program.All (t.Plain mode))
    (rest : ∀ result, t.Follows (f result) mode wanted) : t.Follows (program >>= f) mode wanted :=
  follows_bind (follows_of_plain plain rest)

end Typestate

section
variable {State Op : Type u} {Answer : Op → Type u} {Entry Input Mode : Type u}
variable {b : Behaviour State Op Answer Entry Input} {t : Typestate Op Answer Mode}
variable {condition : State → Nat → Input → Op → Prop}

/-- A proof outline: `ok` holds of the shared state while there are so many threads, `tie` says what the mode of a thread
tells of the shared state, and `ends` which modes a thread may be in when it is through. -/
structure Outline (b : Behaviour State Op Answer Entry Input) (t : Typestate Op Answer Mode)
    (condition : State → Nat → Input → Op → Prop) where
  ok : State → Nat → Prop
  tie : State → Nat → Mode → Prop
  initial : Entry → Mode
  ends : Mode → Prop := fun _ => True
  follows : ∀ entry, t.Follows (b.program entry) (initial entry) fun mode _ => ends mode
  fresh : ∀ {s n}, ok s n → ok s (n + 1)
  opened : ∀ {s n entry}, ok s n → b.opens s entry = true → tie s n (initial entry)
  own : ∀ {s n i mode input op s' answer forked}, ok s n → i < n → tie s i mode → t.permits mode op →
    condition s i input op → b.perform s i input op = some (s', answer, forked) →
    ok s' n ∧ (∃ mode', t.after mode op answer = some mode' ∧ tie s' i mode') ∧
      ∀ entry ∈ forked, ∀ k, n ≤ k → tie s' k (initial entry)
  others : ∀ {s n i mode input op s' answer forked}, ok s n → i < n → tie s i mode → t.permits mode op →
    condition s i input op → b.perform s i input op = some (s', answer, forked) →
    ∀ j mode', j ≠ i → tie s j mode' → tie s' j mode'

namespace Outline
variable (outline : Outline b t condition)
variable {shared : State} {activities : List (Activity Entry Input)}

/-- Every thread is in a mode that its program keeps to. -/
def Holds (s : Threads State Op Answer) : Prop :=
  outline.ok s.shared s.threads.length ∧
    ∀ i program, s.threads[i]? = some program →
      ∃ mode, outline.tie s.shared i mode ∧ t.Follows program mode fun mode' _ => outline.ends mode'

variable {outline} {s s' : Threads State Op Answer}

theorem ok_add {n : Nat} (ok : outline.ok shared n) (more : Nat) : outline.ok shared (n + more) := by
  induction more with
  | zero => exact ok
  | succ more ih => exact outline.fresh ih

theorem holds_start {entry : Entry} (holds : outline.Holds s) (stepped : b.step s (.start entry) = some s') :
    outline.Holds s' := by
  obtain ⟨opens, rfl⟩ := Behaviour.step_start stepped
  refine ⟨by simpa using outline.fresh holds.1, fun i program found => ?_⟩
  rcases Nat.lt_or_ge i s.threads.length with old | new
  · rw [List.getElem?_append_left old] at found
    exact holds.2 i program found
  · rw [List.getElem?_append_right new, List.getElem?_singleton] at found
    obtain ⟨here, program_eq⟩ := Option.ite_none_right_eq_some.1 found
    have last : i = s.threads.length := by omega
    cases program_eq
    subst last
    exact ⟨_, outline.opened holds.1 opens, outline.follows entry⟩

theorem holds_run {i : Nat} {input : Input} (holds : outline.Holds s)
    (meets : Behaviour.Meets condition s (.run i input : Activity Entry Input))
    (stepped : b.step s (.run i input) = some s') : outline.Holds s' := by
  obtain ⟨op, next, shared, answer, forked, found, performed, rfl⟩ := Behaviour.step_run stepped
  obtain ⟨mode, tie, permitted, goes⟩ := holds.2 i _ found
  have bound : i < s.threads.length := (List.getElem?_eq_some_iff.1 found).1
  have condition_here : condition s.shared i input op := by simpa [Behaviour.Meets, found] using meets
  obtain ⟨ok, ⟨mode', after, tie'⟩, forks⟩ := outline.own holds.1 bound tie permitted condition_here performed
  have others := outline.others holds.1 bound tie permitted condition_here performed
  refine ⟨by simpa using ok_add ok forked.length, fun j program found' => ?_⟩
  rcases Nat.lt_or_ge j s.threads.length with old | new
  · rw [List.getElem?_append_left (by simpa using old), List.getElem?_set] at found'
    split at found'
    next same =>
      subst same
      cases found'
      exact ⟨mode', tie', goes answer mode' after⟩
    next different =>
      obtain ⟨modeJ, tieJ, followsJ⟩ := holds.2 j program found'
      exact ⟨modeJ, others j modeJ (Ne.symm different) tieJ, followsJ⟩
  · rw [List.getElem?_append_right (by simpa using new), List.getElem?_map] at found'
    obtain ⟨entry, listed, rfl⟩ := Option.map_eq_some_iff.1 found'
    exact ⟨_, forks entry (List.mem_of_getElem? listed) j new, outline.follows entry⟩

theorem holds_step {activity : Activity Entry Input} (holds : outline.Holds s)
    (meets : Behaviour.Meets condition s activity) (stepped : b.step s activity = some s') : outline.Holds s' := by
  cases activity with
  | start entry => exact holds_start holds stepped
  | run i input => exact holds_run holds meets stepped

theorem holds_nil (start : outline.ok shared 0) : outline.Holds { shared } :=
  ⟨start, fun i program found => by simp at found⟩

theorem holds_of_run (start : outline.ok shared 0)
    (meets : Along b.step (Behaviour.Meets condition) { shared } activities)
    (ran : runEvents b.step { shared } activities = some s) : outline.Holds s := by
  have kept : ∀ s activity s', outline.Holds s → Behaviour.Meets condition s activity →
      b.step s activity = some s' → outline.Holds s' :=
    fun s activity s' holds meets stepped => holds_step holds meets stepped
  exact invariant_runEvents kept (holds_nil start) meets ran

/-- What the outline says of the shared state holds at the end of every run that meets the condition. -/
theorem ok_of_run (start : outline.ok shared 0)
    (meets : Along b.step (Behaviour.Meets condition) { shared } activities)
    (ran : runEvents b.step { shared } activities = some s) : outline.ok s.shared s.threads.length :=
  (holds_of_run start meets ran).1

/-- A thread that is through is in a mode it may end in. -/
theorem ends_of_run (start : outline.ok shared 0)
    (meets : Along b.step (Behaviour.Meets condition) { shared } activities)
    (ran : runEvents b.step { shared } activities = some s) {i : Nat} {result : PUnit.{u + 1}}
    (through : s.threads[i]? = some (.pure result)) : ∃ mode, outline.tie s.shared i mode ∧ outline.ends mode :=
  (holds_of_run start meets ran).2 i _ through

theorem ok_of_free_run {outline : Outline b t fun _ _ _ _ => True}
    (start : outline.ok shared 0) (ran : runEvents b.step { shared } activities = some s) :
    outline.ok s.shared s.threads.length := by
  refine ok_of_run start (Along.of_invariant (fun _ _ _ _ _ _ => trivial) (fun s activity _ _ => ?_) trivial
    (along_true b.step _ activities)) ran
  unfold Behaviour.Meets
  repeat' split
  all_goals trivial

/-- Every operation of such a run is one that the mode of its thread permits. -/
theorem along_of_run     {result : State → State → Prop} (start : outline.ok shared 0)
    (meets : Along b.step (Behaviour.Meets condition) { shared } activities) (refl : ∀ s, result s s)
    (gives : ∀ {s n i mode input op s' answer forked}, outline.ok s n → outline.tie s i mode → t.permits mode op →
      condition s i input op → b.perform s i input op = some (s', answer, forked) → result s s') :
    Along b.step (fun s activity => ∀ s', b.step s activity = some s' → result s.shared s'.shared) { shared }
      activities := by
  have kept : ∀ s activity s', outline.Holds s → Behaviour.Meets condition s activity →
      b.step s activity = some s' → outline.Holds s' :=
    fun s activity s' holds meets stepped => holds_step holds meets stepped
  refine Along.of_invariant kept (fun s activity holds meets s' stepped => ?_) (holds_nil start) meets
  cases activity with
  | start entry =>
    obtain ⟨-, rfl⟩ := Behaviour.step_start stepped
    exact refl s.shared
  | run i input =>
    obtain ⟨op, next, shared, answer, forked, found, performed, rfl⟩ := Behaviour.step_run stepped
    obtain ⟨mode, tie, permitted, -⟩ := holds.2 i _ found
    exact gives holds.1 tie permitted (by simpa [Behaviour.Meets, found] using meets) performed

end Outline
end

end ReticulumProtocols.Concurrency
