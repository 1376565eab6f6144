import ReticulumProtocols.Lxst.OneCall

/-! Answering by hash. `AnswerHash` looks at the caller of the active call, and then has `Answer` take whatever call is
active by that time. -/

namespace ReticulumProtocols.Lxst
open Wire Concurrency List

def isWanted (want : List Char) (identityHash : Bytes) : Bool := (parseHash want).any fun raw => isCaller raw identityHash

/-- What a thread knows of the caller it wants: it wants none; it is looking for one; the caller of call `i` is the one;
and call `i` is what it is going to answer. -/
inductive HashMode where
  | free
  | seeking (want : List Char)
  | checked (want : List Char) (i : Nat)
  | ready (want : List Char) (i : Nat)
  deriving DecidableEq

@[simps]
def hashRules : Typestate BoardOp BoardOp.Answer HashMode where
  permits mode
    | .call i (.store .answered true) => mode = .free ∨ ∃ want, mode = .ready want i
    | .enterAnswerHash _ => mode = .free
    | .active (some i) => ∃ want, mode = .checked want i
    | _ => True
  after
    | .free, .enterAnswerHash want, _ => some (.seeking want)
    | .seeking want, .remoteIdentity i, identityHash =>
      some (if identityHash.any (isWanted want) then .checked want i else .seeking want)
    | .checked want i, .active (some _), found =>
      -- Only the checked call is found.
      if found = none then some (.seeking want) else if found = some i then some (.ready want i) else none
    | mode, _, _ => some mode

namespace BoardProgram
variable {α : Type} {mode : HashMode} {i : Nat}

theorem hashRules_call (op : CallOp) (may : mode = .free ∨ ∃ want, mode = .ready want i) :
    hashRules.Plain mode (.call i op) := by
  refine ⟨?_, fun answer mode' after => ?_⟩
  · cases op with
    | store flag value => cases flag <;> cases value <;> first | exact may | trivial
    | _ => trivial
  · rcases may with rfl | ⟨want, rfl⟩ <;> exact (Option.some.inj after).symm

theorem hashRules_release (may : mode = .free ∨ ∃ want, mode = .ready want i) :
    hashRules.Plain mode (.release i) := by
  refine ⟨trivial, fun answer mode' after => ?_⟩
  rcases may with rfl | ⟨want, rfl⟩ <;> exact (Option.some.inj after).symm

theorem plain_onCall (program : CallProgram α) (may : mode = .free ∨ ∃ want, mode = .ready want i) :
    (onCall i program).All (hashRules.Plain mode) :=
  all_onCall (Program.all_of_forall (fun op => ⟨hashRules_call op may, fun _ => hashRules_release may⟩) program)

variable (configs : Nat → CallConfig)

theorem plain_free {op : BoardOp} (permitted : hashRules.permits .free op) (other : ∀ want, op ≠ .enterAnswerHash want) :
    hashRules.Plain .free op := by
  refine ⟨permitted, fun answer mode' after => ?_⟩
  cases op with
  | enterAnswerHash want => exact absurd rfl (other want)
  | _ => exact (Option.some.inj after).symm

theorem plain_once {op : BoardOp} (permitted : hashRules.permits .free op)
    (other : ∀ want, op ≠ .enterAnswerHash want) : (once op).All (hashRules.Plain .free) :=
  (Program.all_once _ op).2 (plain_free permitted other)

theorem plain_bind {op : BoardOp} {next : op.Answer → BoardProgram α} (permitted : hashRules.permits .free op)
    (other : ∀ want, op ≠ .enterAnswerHash want) (rest : ∀ answer, (next answer).All (hashRules.Plain .free)) :
    (once op >>= next).All (hashRules.Plain .free) := (plain_once permitted other).bind rest

theorem plain_inbound : (inbound configs).All (hashRules.Plain .free) := by
  unfold inbound
  refine plain_bind trivial nofun fun busy => ?_
  rw [Program.all_ite]
  refine ⟨fun _ => plain_once trivial nofun, fun _ => plain_bind trivial nofun fun i => ?_⟩
  refine plain_bind trivial nofun fun occupied => ?_
  rw [Program.all_ite]
  refine ⟨fun _ => (plain_onCall _ (.inl rfl)).bind fun served => ?_, fun _ => plain_once trivial nofun⟩
  cases served with
  | error _ =>
    exact plain_bind trivial nofun fun _ => plain_once (hashRules_call _ (.inl rfl)).1 nofun
  | ok _ => exact plain_once trivial nofun

theorem plain_dial (remote : Bool) : (dial configs remote).All (hashRules.Plain .free) := by
  unfold dial
  refine plain_bind trivial nofun fun i => ?_
  refine plain_bind trivial nofun fun occupied => ?_
  rw [Program.all_ite]
  refine ⟨fun _ => (plain_onCall _ (.inl rfl)).bind fun dialled => ?_, fun _ => trivial⟩
  cases dialled with
  | error _ => exact (plain_onCall _ (.inl rfl)).bind fun _ => plain_once trivial nofun
  | ok _ => trivial

theorem plain_onActive (entry : CallEntry) : (onActive configs entry).All (hashRules.Plain .free) := by
  unfold onActive
  refine plain_bind trivial nofun fun active => ?_
  cases active with
  | none => trivial
  | some i => exact plain_onCall _ (.inl rfl)

theorem plain_identify (identityHash : Bytes) : (identify configs i identityHash).All (hashRules.Plain .free) := by
  unfold identify
  refine plain_bind trivial nofun fun learnt => ?_
  rw [Program.all_ite]
  exact ⟨fun _ => plain_onCall _ (.inl rfl), fun _ => trivial⟩

/-- `Answer` finds the call that was checked, or none. -/
theorem follows_answerChecked (want : List Char) :
    hashRules.Follows (answerChecked configs i) (.checked want i) fun _ _ => True := by
  unfold answerChecked
  refine Typestate.follows_once_bind ⟨want, rfl⟩ fun found mode' after => ?_
  cases found with
  | none => trivial
  | some j =>
    have here : j = i ∧ mode' = .ready want i := by
      by_cases same : j = i
      · simp_all
      · simp_all
    obtain ⟨rfl, rfl⟩ := here
    exact Typestate.follows_of_plain (plain_onCall _ (.inr ⟨want, rfl⟩)) fun _ => trivial

theorem follows_answerHash (want : List Char) :
    hashRules.Follows (answerHash configs want) .free fun _ _ => True := by
  unfold answerHash
  refine Typestate.follows_once_bind rfl fun _ mode' after => ?_
  cases after
  refine Typestate.follows_once_bind trivial fun active mode' after => ?_
  cases after
  cases active with
  | none => trivial
  | some i =>
    cases parsed : parseHash want with
    | none => trivial
    | some raw =>
      refine Typestate.follows_once_bind trivial fun linked mode' after => ?_
      cases after
      rw [Typestate.follows_ite]
      refine ⟨fun _ => Typestate.follows_once_bind trivial fun identity mode' after => ?_, fun _ => trivial⟩
      cases identity with
      | none => trivial
      | some identityHash =>
        show hashRules.Follows (if isCaller raw identityHash then _ else _) mode' _
        rw [Typestate.follows_ite]
        refine ⟨fun caller => ?_, fun _ => trivial⟩
        have checked : mode' = .checked want i := by
          simpa [isWanted, parsed, caller] using after.symm
        rw [checked]
        exact follows_answerChecked configs want

theorem follows_ofEntry (entry : BoardEntry) : hashRules.Follows (ofEntry configs entry) .free fun _ _ => True := by
  have plain {program : BoardProgram Unit} (all : program.All (hashRules.Plain .free)) :
      hashRules.Follows program .free fun _ _ => True := Typestate.follows_of_plain all fun _ => trivial
  cases entry with
  | inbound => exact plain (plain_inbound configs)
  | dial remote => exact plain (plain_dial configs remote)
  | setBusy busy => exact plain (plain_once trivial nofun)
  | info => exact plain (plain_bind trivial nofun fun _ => trivial)
  | onActive entry => exact plain (plain_onActive configs entry)
  | answerHash want => exact follows_answerHash configs want
  | identify i identityHash => exact plain (plain_identify configs identityHash)
  | call i entry => exact plain (plain_onCall _ (.inl rfl))

end BoardProgram

namespace Board

/-- The call that was checked is the one that is answered, or none is. -/
def unchanged (board : Board) : BoardOp → Bool
  | .active (some i) => board.occupant = none ∨ board.occupant = some i
  | _ => true

def Unchanged (board : Board) (_ : Nat) (_ : Bool) (op : BoardOp) : Prop := board.unchanged op = true

instance (board : Board) (t : Nat) (input : Bool) (op : BoardOp) : Decidable (board.Unchanged t input op) :=
  inferInstanceAs (Decidable (_ = true))

/-- The caller of call `i` is the one that is wanted. -/
def HasCaller (board : Board) (want : List Char) (i : Nat) : Prop :=
  ∃ raw identityHash, parseHash want = some raw ∧ board.identities i = some identityHash ∧
    (raw = identityHash ∨ raw = telephonyHash identityHash)

/-- What the mode of a thread says of the switchboard. -/
def Wanting (board : Board) (t : Nat) : HashMode → Prop
  | .free => board.wants t = none
  | .seeking want => board.wants t = some want
  | .checked want i | .ready want i => board.wants t = some want ∧ board.HasCaller want i

/-- Every call answered for a wanted caller has that caller, and threads that have not started want none. -/
structure Faithful (board : Board) (n : Nat) : Prop where
  answered : ∀ want i, (want, i) ∈ board.answered → board.HasCaller want i
  unwanting : ∀ t, n ≤ t → board.wants t = none

section
variable {board : Board} {t t' n i : Nat} {input : Bool} {op : BoardOp} {mode : HashMode} {want : List Char}

/-- A link learns the identity of the other side only once. -/
theorem identities_next {identityHash : Bytes} (learnt : board.identities i = some identityHash) :
    (board.next t input op).identities i = some identityHash := by
  cases op with
  | identify j other =>
    show (if (board.identities j).isSome then board.identities
      else Function.update board.identities j (some other)) i = _
    by_cases known : (board.identities j).isSome = true
    · rw [if_pos known, learnt]
    · have apart : i ≠ j := by
        rintro rfl
        simp [learnt] at known
      rw [if_neg known, Function.update_of_ne apart, learnt]
  | occupy j inbound => cases inbound <;> exact learnt
  | _ => exact learnt

theorem HasCaller.next (has : board.HasCaller want i) : (board.next t input op).HasCaller want i := by
  obtain ⟨raw, identityHash, parsed, learnt, caller⟩ := has
  exact ⟨raw, identityHash, parsed, identities_next learnt, caller⟩

theorem hasCaller_of_isWanted {identityHash : Option Bytes} (learnt : board.identities i = identityHash)
    (wanted : identityHash.any (isWanted want) = true) : board.HasCaller want i := by
  obtain ⟨identityHash, rfl, caller⟩ := (Option.any_eq_true _ _).1 wanted
  obtain ⟨raw, parsed, caller⟩ := (Option.any_eq_true _ _).1 caller
  exact ⟨raw, identityHash, parsed, learnt, of_decide_eq_true caller⟩

theorem wants_next (other : t' ≠ t ∨ ∀ want, op ≠ .enterAnswerHash want) :
    (board.next t input op).wants t' = board.wants t' := by
  cases op with
  | enterAnswerHash want =>
    exact Function.update_of_ne (other.resolve_right fun none => none want rfl) _ _
  | occupy j inbound => cases inbound <;> rfl
  | _ => rfl

theorem Wanting.next (wanting : board.Wanting t' mode) (other : t' ≠ t ∨ ∀ want, op ≠ .enterAnswerHash want) :
    (board.next t input op).Wanting t' mode := by
  have same : (board.next t input op).wants t' = board.wants t' := wants_next other
  cases mode with
  | free => exact same.trans wanting
  | seeking want => exact same.trans wanting
  | checked want i => exact ⟨same.trans wanting.1, wanting.2.next⟩
  | ready want i => exact ⟨same.trans wanting.1, wanting.2.next⟩

/-- What is noted as answered is answered by a thread that has checked it. -/
theorem answered_next (wanting : board.Wanting t mode) (permitted : hashRules.permits mode op)
    (noted : (want, i) ∈ (board.next t input op).answered) : (want, i) ∈ board.answered ∨ board.HasCaller want i := by
  cases op with
  | call j op =>
    cases op with
    | store flag value =>
      cases flag <;> cases value <;> try exact .inl noted
      rcases permitted with rfl | ⟨want', rfl⟩
      · have none : board.wants t = none := wanting
        exact .inl (by simpa [Board.next, noteCall, none] using noted)
      · have some : board.wants t = some want' := wanting.1
        have cases : want = want' ∧ i = j ∨ (want, i) ∈ board.answered := by
          simpa [Board.next, noteCall, some] using noted
        rcases cases with ⟨rfl, rfl⟩ | earlier
        · exact .inr wanting.2
        · exact .inl earlier
    | _ => exact .inl noted
  | occupy j inbound => cases inbound <;> exact .inl noted
  | _ => exact .inl noted

theorem Faithful.next (faithful : board.Faithful n) (bound : t < n) (wanting : board.Wanting t mode)
    (permitted : hashRules.permits mode op) : (board.next t input op).Faithful n := by
  refine ⟨fun want i noted => ?_, fun t' new => ?_⟩
  · rcases answered_next wanting permitted noted with earlier | has
    · exact (faithful.answered want i earlier).next
    · exact has.next
  · rw [wants_next (.inl (bound.trans_le new).ne')]
    exact faithful.unwanting t' new

theorem wanting_after (wanting : board.Wanting t mode) (permitted : hashRules.permits mode op)
    (unchanged : board.Unchanged t input op) :
    ∃ mode', hashRules.after mode op (board.reply input op) = some mode' ∧
      (board.next t input op).Wanting t mode' := by
  cases op with
  | enterAnswerHash want =>
    rw [show mode = .free from permitted]
    exact ⟨_, rfl, Function.update_self ..⟩
  | remoteIdentity j =>
    cases mode with
    | seeking want =>
      refine ⟨_, rfl, ?_⟩
      split
      next wanted => exact ⟨wanting, hasCaller_of_isWanted (rfl : board.identities j = board.identities j) wanted⟩
      next => exact wanting
    | _ => exact ⟨_, rfl, wanting⟩
  | active checked =>
    cases checked with
    | none => exact ⟨mode, by cases mode <;> rfl, wanting.next (.inr (by simp))⟩
    | some j =>
      obtain ⟨want, rfl⟩ := permitted
      have found : board.occupant = none ∨ board.occupant = some j := of_decide_eq_true unchanged
      rcases found with found | found
      · exact ⟨.seeking want, by simp [reply, found], wanting.1⟩
      · exact ⟨.ready want j, by simp [reply, found], wanting.1, wanting.2.next⟩
  | _ => exact ⟨mode, by cases mode <;> rfl, wanting.next (.inr (by simp))⟩

end

/-- The switchboard while no other call takes the place of one that was checked. -/
def hashOutline (configs : Nat → CallConfig) : Outline (switchboard configs) hashRules Board.Unchanged where
  ok := Faithful
  tie := Wanting
  initial _ := .free
  follows := BoardProgram.follows_ofEntry configs
  fresh faithful := ⟨faithful.answered, fun t new => faithful.unwanting t (Nat.le_of_succ_le new)⟩
  opened faithful _ := faithful.unwanting _ le_rfl
  own {_ _ _ _ input _ _ _ _} faithful bound wanting permitted unchanged performed := by
    obtain ⟨-, rfl, rfl, rfl⟩ := perform_eq_some performed
    have faithful' : (Board.next _ _ input _).Faithful _ := faithful.next bound wanting permitted
    exact ⟨faithful', wanting_after wanting permitted unchanged, fun _ _ k new => faithful'.unwanting k new⟩
  others _ _ _ _ _ performed t' _ apart holds := by
    obtain ⟨-, rfl, -, -⟩ := perform_eq_some performed
    exact holds.next (.inl apart)

theorem answers_wanted (configs : Nat → CallConfig) (activities : List (Activity BoardEntry Bool))
    (unchanged : Along (switchboard configs).step (Behaviour.Meets Board.Unchanged)
      { shared := newSwitchboard configs } activities) (s : BoardThreads)
    (ran : runEvents (switchboard configs).step { shared := newSwitchboard configs } activities = some s)
    (want : List Char) (i : Nat) (answered : (want, i) ∈ s.shared.answered) :
    ∃ raw identityHash, parseHash want = some raw ∧ s.shared.identities i = some identityHash ∧
      (raw = identityHash ∨ raw = telephonyHash identityHash) := by
  have start : (hashOutline configs).ok (newSwitchboard configs) 0 := ⟨nofun, fun _ _ => rfl⟩
  have faithful : s.shared.Faithful s.threads.length := Outline.ok_of_run start unchanged ran
  exact faithful.answered want i answered

def alice : Bytes := replicate 16 0xaa
def bob : Bytes := replicate 16 0xbb

/-- The identity of `alice`, in hex. -/
def wanted : List Char := replicate 32 'a'

/-- A link comes in, its caller is known, and `AnswerHash` finds that it is the wanted one. -/
def aliceFound : List (Activity BoardEntry Bool) :=
  .start .inbound :: turns 0 18 ++ .start (.identify 0 alice) :: turns 3 5 ++ .start (.answerHash wanted) :: turns 4 4

/-- The caller hangs up, and another one rings. -/
def bobInstead : List (Activity BoardEntry Bool) :=
  .start (.call 0 .linkClosed) :: turns 5 11 ++ .start .inbound :: turns 6 18 ++ .start (.identify 1 bob) :: turns 9 5

theorem answers_wanted_aliceFound :
    Along (switchboard plainCalls).step (Behaviour.Meets Board.Unchanged) { shared := newSwitchboard plainCalls }
        (aliceFound ++ turns 4 18) ∧
      ∃ s, runEvents (switchboard plainCalls).step { shared := newSwitchboard plainCalls }
          (aliceFound ++ turns 4 18) = some s ∧
        (s.shared.calls 0).state = .active ∧ (wanted, 0) ∈ s.shared.answered ∧
        ∃ raw identityHash, parseHash wanted = some raw ∧ s.shared.identities 0 = some identityHash ∧
          (raw = identityHash ∨ raw = telephonyHash identityHash) := by
  have unchanged : Along (switchboard plainCalls).step (Behaviour.Meets Board.Unchanged)
      { shared := newSwitchboard plainCalls } (aliceFound ++ turns 4 18) := by decide +kernel
  have reached : (runEvents (switchboard plainCalls).step { shared := newSwitchboard plainCalls }
      (aliceFound ++ turns 4 18)).any
      (fun s => decide ((s.shared.calls 0).state = .active ∧ (wanted, 0) ∈ s.shared.answered)) = true := by
    decide +kernel
  obtain ⟨s, ran, found⟩ := (Option.any_eq_true _ _).1 reached
  obtain ⟨active, answered⟩ := of_decide_eq_true found
  exact ⟨unchanged, s, ran, active, answered,
    answers_wanted plainCalls (aliceFound ++ turns 4 18) unchanged s ran wanted 0 answered⟩

/-- The other caller is answered. -/
theorem answers_another_caller :
    parseHash wanted = some alice ∧ alice ≠ bob ∧ alice ≠ telephonyHash bob ∧
      ∃ s, runEvents (switchboard plainCalls).step { shared := newSwitchboard plainCalls }
          (aliceFound ++ bobInstead ++ turns 4 18) = some s ∧
        s.shared.identities 1 = some bob ∧ (s.shared.calls 1).state = .active ∧ (wanted, 1) ∈ s.shared.answered := by
  have reached : (runEvents (switchboard plainCalls).step { shared := newSwitchboard plainCalls }
      (aliceFound ++ bobInstead ++ turns 4 18)).any
      (fun s => decide (s.shared.identities 1 = some bob ∧ (s.shared.calls 1).state = .active ∧
        (wanted, 1) ∈ s.shared.answered)) = true := by decide +kernel
  refine ⟨by decide +kernel, by decide, by decide +kernel, ?_⟩
  simpa only [Option.any_eq_true, decide_eq_true_eq] using reached

end Board

end ReticulumProtocols.Lxst
