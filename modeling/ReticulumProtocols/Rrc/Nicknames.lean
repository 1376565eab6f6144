import ReticulumProtocols.Rrc.Effects
import ReticulumProtocols.Rrc.Names

/-! The index of nicknames. A rename sets the nickname of the session and moves the index entry afterwards, under the
hub's lock but in a section of its own; a registration that replaces a record leaves the old entry behind. Where no
named record is replaced and nothing comes between the two halves of a rename, a lookup is exact in every run, except
for the identities whose rename is half done. -/

namespace ReticulumProtocols.Rrc
open Wire Lxmf Index Concurrency List AList

namespace Unicode
variable (u : Unicode)

theorem unfit_of_mem_sanitizeNick (nick : Text) {r : Char} (member : r ∈ u.sanitizeNick nick) : u.unfit r = false := by
  unfold sanitizeNick stripNickControls at member
  dsimp only at member
  split at member
  next => cases member
  next =>
    split at member
    next => simpa using (List.mem_filter.1 member).2
    next fit => exact Bool.eq_false_iff.2 fun bad => fit (any_eq_true.2 ⟨r, member, bad⟩)

/-- A nickname that was sanitized before is only trimmed. -/
theorem sanitizeNick_sanitizeNick (nick : Text) :
    u.sanitizeNick (u.sanitizeNick nick) = u.trimSpace (u.sanitizeNick nick) := by
  have fit : (u.trimSpace (u.sanitizeNick nick)).any u.unfit = false := by
    rw [any_eq_false]
    intro r member
    rw [u.unfit_of_mem_sanitizeNick nick]
    · exact Bool.false_ne_true
    · unfold trimSpace at member
      have back := (dropWhile_suffix _).subset (mem_reverse.1 member)
      exact (dropWhile_suffix _).subset (mem_reverse.1 back)
  rw [sanitizeNick]
  split
  next empty => exact empty.symm
  next => rw [fit]; rfl

theorem fold_sanitizeNick (nick : Text) :
    u.fold (u.sanitizeNick (u.sanitizeNick nick)) = u.fold (u.sanitizeNick nick) := by
  rw [sanitizeNick_sanitizeNick, fold_trimSpace]

end Unicode

namespace Hub
variable {u : Unicode} {h h' : Hub} {p q : Nat} {key id : Bytes} {n oldNick newNick nick : Text}

theorem holds_unindexNickLocked : (h.unindexNickLocked u id nick).nickIndex.Holds n key ↔
    h.nickIndex.Holds n key ∧ ¬ (n ≠ [] ∧ n = u.fold nick ∧ key = id) := by
  unfold unindexNickLocked
  split
  next empty =>
    rw [and_iff_left]
    rintro ⟨named, same, _⟩
    exact named (same.trans empty)
  next named =>
    rw [SetIndex.holds_remove]
    apply and_congr_right fun _ => not_congr ⟨fun same => ?_, fun same => same.2⟩
    exact ⟨same.1 ▸ named, same⟩

theorem holds_reindexNick : (h.reindexNick u id oldNick newNick).nickIndex.Holds n key ↔
    (n ≠ [] ∧ n = u.fold newNick ∧ key = id) ∨
      (h.nickIndex.Holds n key ∧ ¬ (n ≠ [] ∧ n = u.fold oldNick ∧ key = id)) := by
  unfold reindexNick
  dsimp only
  split
  next empty =>
    rw [holds_unindexNickLocked, or_iff_right]
    rintro ⟨named, same, _⟩
    exact named (same.trans empty)
  next named =>
    rw [SetIndex.holds_add, holds_unindexNickLocked]
    apply or_congr_left
    exact ⟨fun same => ⟨same.1 ▸ named, same⟩, fun same => same.2⟩

/-- The name under which the index has a key is the nickname of the hub's record of it. -/
def IndexedAs (u : Unicode) (h : Hub) (key : Bytes) (n : Text) : Prop :=
  n ≠ [] ∧ ∃ p, h.peers.lookup key = some p ∧ n = u.fold (h.records p).nick

/-- The index while some threads are between the two halves of a rename: `halves` gives for a thread its link and
the half that comes next. -/
structure Indexed (u : Unicode) (h : Hub) (halves : Nat → Option (Nat × Task)) : Prop where
  setting : ∀ i p oldNick nick, halves i = some (p, .setNick oldNick nick) →
    h.Current p ∧ (h.records p).nick = oldNick ∧ u.fold (u.sanitizeNick nick) = u.fold nick
  reindexing : ∀ i p oldNick newNick, halves i = some (p, .reindexNick oldNick newNick) →
    h.Current p ∧ u.fold (h.records p).nick = u.fold newNick ∧
      ∀ n, h.nickIndex.Holds n (h.records p).key ↔ n ≠ [] ∧ n = u.fold oldNick
  half : ∀ i p task, halves i = some (p, task) →
    (∃ oldNick nick, task = .setNick oldNick nick) ∨ ∃ oldNick newNick, task = .reindexNick oldNick newNick
  alone : ∀ i j p q task task', halves i = some (p, task) → halves j = some (q, task') →
    (h.records p).key = (h.records q).key → i = j
  exact : ∀ key, (∀ i p oldNick newNick, halves i = some (p, .reindexNick oldNick newNick) →
    (h.records p).key ≠ key) → ∀ n, h.nickIndex.Holds n key ↔ h.IndexedAs u key n

variable {halves : Nat → Option (Nat × Task)} {i : Nat} {task : Task}

theorem Indexed.current (indexed : h.Indexed u halves) (found : halves i = some (p, task)) : h.Current p := by
  rcases indexed.half i p task found with ⟨_, _, rfl⟩ | ⟨_, _, rfl⟩
  · exact (indexed.setting i p _ _ found).1
  · exact (indexed.reindexing i p _ _ found).1

theorem indexedAs_of_lookup (found : h.peers.lookup key = some p) :
    h.IndexedAs u key n ↔ n ≠ [] ∧ n = u.fold (h.records p).nick := by
  unfold IndexedAs
  rw [found]
  simp

theorem Indexed.frame (indexed : h.Indexed u halves) (peers : h'.peers = h.peers)
    (nickIndex : h'.nickIndex = h.nickIndex) (kept : ∀ p, h.Current p →
      (h'.records p).key = (h.records p).key ∧ (h'.records p).nick = (h.records p).nick)
    (keyed : h.Keyed) : h'.Indexed u halves := by
  have current : ∀ p, h.Current p → h'.Current p := by
    intro p before
    unfold Current
    rw [(kept p before).1, peers]
    exact before
  have same : ∀ key n, h'.IndexedAs u key n ↔ h.IndexedAs u key n := by
    intro key n
    unfold IndexedAs
    rw [peers]
    refine and_congr_right fun _ => exists_congr fun p => and_congr_right fun found => ?_
    rw [(kept p (keyed.current found)).2]
  constructor
  case setting =>
    intro i p oldNick nick found
    obtain ⟨before, own, fold⟩ := indexed.setting i p oldNick nick found
    exact ⟨current p before, (kept p before).2.trans own, fold⟩
  case reindexing =>
    intro i p oldNick newNick found
    obtain ⟨before, own, holds⟩ := indexed.reindexing i p oldNick newNick found
    rw [(kept p before).1, (kept p before).2, nickIndex]
    exact ⟨current p before, own, holds⟩
  case half => exact indexed.half
  case alone =>
    intro i j p q task task' first second sameKey
    rw [(kept p (indexed.current first)).1, (kept q (indexed.current second)).1] at sameKey
    exact indexed.alone i j p q task task' first second sameKey
  case exact =>
    intro key free n
    rw [nickIndex, same]
    refine indexed.exact key (fun i p oldNick newNick found => ?_) n
    rw [← (kept p (indexed.current found)).1]
    exact free i p oldNick newNick found

/-- What a thread is about to do after one of them took a step. -/
theorem half_cases {value : Option (Nat × Task)} {j : Nat} {half : Nat × Task}
    (found : Function.update halves i value j = some half) :
    (j = i ∧ value = some half) ∨ (j ≠ i ∧ halves j = some half) := by
  rw [Function.update_apply] at found
  split at found
  next same => exact Or.inl ⟨same, found⟩
  next other => exact Or.inr ⟨other, found⟩

/-- A rename starts on the hub's own record while no other rename of the identity is under way. -/
theorem Indexed.start (indexed : h.Indexed u halves) (idle : halves i = none) (current : h.Current p)
    (free : ∀ j q task, halves j = some (q, task) → (h.records q).key ≠ (h.records p).key)
    (fold : u.fold (u.sanitizeNick nick) = u.fold nick) :
    h.Indexed u (Function.update halves i (some (p, .setNick (h.records p).nick nick))) := by
  constructor
  case setting =>
    intro j q oldNick new found
    rcases half_cases found with ⟨_, own⟩ | ⟨_, before⟩
    · cases own
      exact ⟨current, rfl, fold⟩
    · exact indexed.setting j q oldNick new before
  case reindexing =>
    intro j q oldNick new found
    rcases half_cases found with ⟨_, own⟩ | ⟨_, before⟩
    · cases own
    · exact indexed.reindexing j q oldNick new before
  case half =>
    intro j q task found
    rcases half_cases found with ⟨_, own⟩ | ⟨_, before⟩
    · cases own
      exact Or.inl ⟨_, _, rfl⟩
    · exact indexed.half j q task before
  case alone =>
    intro j k q r task task' first second same
    rcases half_cases first with ⟨rfl, own⟩ | ⟨_, before⟩
    · rcases half_cases second with ⟨rfl, _⟩ | ⟨_, other⟩
      · rfl
      · cases own
        exact absurd same.symm (free k r task' other)
    · rcases half_cases second with ⟨rfl, own⟩ | ⟨_, other⟩
      · cases own
        exact absurd same (free j q task before)
      · exact indexed.alone j k q r task task' before other same
  case exact =>
    intro key unmoved n
    apply indexed.exact key
    intro j q oldNick new found
    apply unmoved j q oldNick new
    rw [Function.update_of_ne]
    · exact found
    · intro same
      rw [same, idle] at found
      cases found

/-- The first half: the session has the new nickname, the index still the old one. -/
theorem Indexed.setNick (indexed : h.Indexed u halves) (keyed : h.Keyed)
    (own : halves i = some (p, .setNick oldNick nick)) :
    (h.update p fun peer => { peer with nick := u.sanitizeNick nick }).Indexed u
      (Function.update halves i (some (p, .reindexNick oldNick nick))) := by
  obtain ⟨current, old, fold⟩ := indexed.setting i p oldNick nick own
  have key : ∀ q, ((h.update p fun peer => { peer with nick := u.sanitizeNick nick }).records q).key =
      (h.records q).key := update_field HubPeer.key (by intro; rfl)
  have apart : ∀ {j q task}, j ≠ i → halves j = some (q, task) → (h.records q).key ≠ (h.records p).key :=
    fun other found same => other (indexed.alone _ i _ p _ _ found own same)
  have unmoved : ∀ {q}, (h.records q).key ≠ (h.records p).key →
      (h.update p fun peer => { peer with nick := u.sanitizeNick nick }).records q = h.records q := by
    intro q other
    apply records_update_ne
    exact fun same => other (congrArg (fun q => (h.records q).key) same)
  have stays : ∀ q, h.Current q → (h.update p fun peer => { peer with nick := u.sanitizeNick nick }).Current q := by
    intro q before
    unfold Current
    rw [key]
    exact before
  constructor
  case setting =>
    intro j q oldNick new found
    rcases half_cases found with ⟨_, mine⟩ | ⟨other, before⟩
    · cases mine
    · obtain ⟨current, old, fold⟩ := indexed.setting j q oldNick new before
      rw [unmoved (apart other before)]
      exact ⟨stays q current, old, fold⟩
  case reindexing =>
    intro j q oldNick new found
    rw [key]
    rcases half_cases found with ⟨_, mine⟩ | ⟨other, before⟩
    · cases mine
      rw [records_update]
      refine ⟨stays p current, fold, fun n => ?_⟩
      have exact := indexed.exact (h.records p).key (fun j q oldNick new found same => ?_) n
      · rw [indexedAs_of_lookup current, old] at exact
        exact exact
      · have here := indexed.alone j i q p _ _ found own same
        rw [here, own] at found
        cases found
    · obtain ⟨current, fold, holds⟩ := indexed.reindexing j q oldNick new before
      rw [unmoved (apart other before)]
      exact ⟨stays q current, fold, holds⟩
  case half =>
    intro j q task found
    rcases half_cases found with ⟨_, mine⟩ | ⟨_, before⟩
    · cases mine
      exact Or.inr ⟨_, _, rfl⟩
    · exact indexed.half j q task before
  case alone =>
    -- each thread in a rename was in one of the same link before
    have before : ∀ {j q task}, Function.update halves i (some (p, .reindexNick oldNick nick)) j = some (q, task) →
        ∃ task, halves j = some (q, task) := by
      intro j q task found
      rcases half_cases found with ⟨same, mine⟩ | ⟨_, found⟩
      · cases mine
        exact ⟨_, same ▸ own⟩
      · exact ⟨task, found⟩
    intro j k q r task task' first second same
    rw [key, key] at same
    obtain ⟨_, first⟩ := before first
    obtain ⟨_, second⟩ := before second
    exact indexed.alone j k q r _ _ first second same
  case exact =>
    intro k free n
    have other : (h.records p).key ≠ k := by
      have mine := free i p oldNick nick (Function.update_self ..)
      rw [key] at mine
      exact mine
    rw [show (h.update p _).nickIndex = h.nickIndex from rfl, indexed.exact k (fun j q oldNick new found => ?_) n]
    · unfold IndexedAs
      refine and_congr_right fun _ => exists_congr fun q => and_congr_right fun found => ?_
      rw [unmoved fun same => other (same.symm.trans (keyed k q found).2)]
    · have moved : j ≠ i := by
        intro same
        rw [same, own] at found
        cases found
      have still := free j q oldNick new ((Function.update_of_ne moved ..).trans found)
      rw [key] at still
      exact still

/-- The second half: the index catches up with the nickname. -/
theorem Indexed.reindexNick (indexed : h.Indexed u halves)
    (own : halves i = some (p, .reindexNick oldNick newNick)) :
    (h.reindexNick u (h.records p).key oldNick newNick).Indexed u (Function.update halves i none) := by
  obtain ⟨current, fold, holds⟩ := indexed.reindexing i p oldNick newNick own
  have before : ∀ {j half}, Function.update halves i none j = some half → j ≠ i ∧ halves j = some half := by
    intro j half found
    rcases half_cases found with ⟨_, mine⟩ | still
    · cases mine
    · exact still
  have others : ∀ {k n}, k ≠ (h.records p).key →
      ((h.reindexNick u (h.records p).key oldNick newNick).nickIndex.Holds n k ↔ h.nickIndex.Holds n k) := by
    intro k n other
    rw [holds_reindexNick]
    simp [other]
  rw [reindexNick_eq] at others ⊢
  constructor
  case setting => exact fun j q oldNick new found => indexed.setting j q oldNick new (before found).2
  case reindexing =>
    intro j q oldNick new found
    obtain ⟨other, found⟩ := before found
    obtain ⟨current, fold, holds⟩ := indexed.reindexing j q oldNick new found
    refine ⟨current, fold, fun n => (others ?_).trans (holds n)⟩
    exact fun same => other (indexed.alone j i q p _ _ found own same)
  case half => exact fun j q task found => indexed.half j q task (before found).2
  case alone => exact fun j k q r _ _ first second => indexed.alone j k q r _ _ (before first).2 (before second).2
  case exact =>
    intro k free n
    rcases eq_or_ne k (h.records p).key with same | other
    · change (h.reindexNick u (h.records p).key oldNick newNick).nickIndex.Holds n k ↔ h.IndexedAs u k n
      rw [same, holds_reindexNick, holds, indexedAs_of_lookup current, fold]
      tauto
    · refine (others other).trans (indexed.exact k (fun j q oldNick new found => ?_) n)
      rcases eq_or_ne j i with same | moved
      · rw [same, own] at found
        cases found
        exact other.symm
      · exact free j q oldNick new ((Function.update_of_ne moved ..).trans found)

theorem current_register {hash : Bytes} (keyed : h.Keyed) (first : (h.records p).ready = false) (current : h.Current q)
    (other : (h.records q).key ≠ peerKey hash) :
    (h.register p hash).records q = h.records q ∧ (h.register p hash).Current q := by
  have apart : q ≠ p := by
    intro same
    have ready := (keyed _ q current).1
    rw [same, first] at ready
    cases ready
  have kept : (h.register p hash).records q = h.records q := by
    rw [records_register, records_update_ne apart]
  refine ⟨kept, ?_⟩
  unfold Current
  rw [kept, lookup_register, if_neg other]
  exact current

/-- A registration replaces at most a record without a nickname, while no rename of the identity is under way. -/
theorem Indexed.register {hash : Bytes} (indexed : h.Indexed u halves) (keyed : h.Keyed)
    (first : (h.records p).ready = false) (blank : (h.records p).Blank)
    (free : ∀ j q task, halves j = some (q, task) → (h.records q).key ≠ peerKey hash)
    (unnamed : ∀ old, h.peers.lookup (peerKey hash) = some old → u.fold (h.records old).nick = []) :
    (h.register p hash).Indexed u halves := by
  have kept : ∀ {j q task}, halves j = some (q, task) →
      (h.register p hash).records q = h.records q ∧ (h.register p hash).Current q :=
    fun found => current_register keyed first (indexed.current found) (free _ _ _ found)
  constructor
  case setting =>
    intro j q oldNick new found
    rw [(kept found).1]
    exact ⟨(kept found).2, (indexed.setting j q oldNick new found).2⟩
  case reindexing =>
    intro j q oldNick new found
    rw [(kept found).1]
    exact ⟨(kept found).2, (indexed.reindexing j q oldNick new found).2⟩
  case half => exact indexed.half
  case alone =>
    intro j k q r task task' one two same
    rw [(kept one).1, (kept two).1] at same
    exact indexed.alone j k q r task task' one two same
  case exact =>
    intro key still n
    have exact : h.nickIndex.Holds n key ↔ h.IndexedAs u key n := by
      apply indexed.exact key
      intro j q oldNick new found
      rw [← (kept found).1]
      exact still j q oldNick new found
    refine exact.trans ?_
    unfold IndexedAs
    rw [lookup_register]
    apply and_congr_right fun named => ?_
    split
    next same =>
      apply iff_of_false
      · rintro ⟨old, found, folds⟩
        exact named (folds.trans (unnamed old (same ▸ found)))
      · rintro ⟨q, self, folds⟩
        cases self
        rw [records_register, records_update] at folds
        apply named
        rw [folds]
        dsimp only
        rw [blank.2]
        rfl
    next other =>
      refine exists_congr fun q => and_congr_right fun found => ?_
      rw [(current_register keyed first (keyed.current found) ((keyed key q found).2 ▸ other)).1]

/-- A record is dropped with its index entry, while no rename of the identity is under way. -/
theorem Indexed.drop (indexed : h.Indexed u halves) (keyed : h.Keyed) (current : h.Current p)
    (free : ∀ j q task, halves j = some (q, task) → (h.records q).key ≠ (h.records p).key) :
    (h.drop u p).Indexed u halves := by
  have kept : ∀ {q}, (h.records q).key ≠ (h.records p).key → (h.drop u p).records q = h.records q := by
    intro q other
    rw [records_drop, records_update_ne]
    exact fun same => other (congrArg (fun q => (h.records q).key) same)
  have stays : ∀ {q}, h.Current q → (h.records q).key ≠ (h.records p).key → (h.drop u p).Current q := by
    intro q before other
    unfold Current
    rw [kept other, peers_drop, lookup_erase_ne other]
    exact before
  have holds : ∀ {k n}, (h.drop u p).nickIndex.Holds n k ↔
      h.nickIndex.Holds n k ∧ ¬ (n ≠ [] ∧ n = u.fold (h.records p).nick ∧ k = (h.records p).key) := by
    intro k n
    exact holds_unindexNickLocked
  constructor
  case setting =>
    intro j q oldNick new found
    rw [kept (free j q _ found)]
    exact ⟨stays (indexed.current found) (free j q _ found), (indexed.setting j q oldNick new found).2⟩
  case reindexing =>
    intro j q oldNick new found
    rw [kept (free j q _ found)]
    obtain ⟨before, fold, names⟩ := indexed.reindexing j q oldNick new found
    refine ⟨stays before (free j q _ found), fold, fun n => ?_⟩
    rw [holds, names, and_iff_left]
    exact fun same => free j q _ found same.2.2
  case half => exact indexed.half
  case alone =>
    intro j k q r task task' one two same
    rw [kept (free j q task one), kept (free k r task' two)] at same
    exact indexed.alone j k q r task task' one two same
  case exact =>
    intro key still n
    have exact : h.nickIndex.Holds n key ↔ h.IndexedAs u key n := by
      apply indexed.exact key
      intro j q oldNick new found
      rw [← kept (free j q _ found)]
      exact still j q oldNick new found
    rw [holds, exact]
    rcases eq_or_ne key (h.records p).key with same | other
    · rw [same, indexedAs_of_lookup current]
      unfold IndexedAs
      rw [peers_drop, lookup_erase]
      simp
    · unfold IndexedAs
      rw [peers_drop, lookup_erase_ne other, and_iff_left fun same => other same.2.2]
      refine and_congr_right fun _ => exists_congr fun q => and_congr_right fun found => ?_
      rw [kept ((keyed key q found).2 ▸ other)]

end Hub
/-- One of the halves of a rename. -/
def Task.renames : Task → Bool
  | .setNick .. | .reindexNick .. => true
  | _ => false

/-- A nickname on an envelope of link `p` renames the session. -/
def Hub.Renames (c : HubConfig) (h : Hub) (p : Nat) (nick : Text) : Prop :=
  c.unicode.sanitizeNick nick ≠ [] ∧ byteLength (c.unicode.sanitizeNick nick) ≤ c.limits.maxNickBytes ∧
    c.unicode.sanitizeNick nick ≠ (h.records p).nick

instance (c : HubConfig) (h : Hub) (p : Nat) (nick : Text) : Decidable (h.Renames c p nick) := by
  unfold Hub.Renames
  infer_instance

/-- The half of a rename that a task leads to. -/
def Task.leadsTo (c : HubConfig) (h : Hub) (p : Nat) : Task → Option Task
  | .applyInboundNick nick _ _ =>
    if h.Renames c p nick then some (.setNick (h.records p).nick (c.unicode.sanitizeNick nick)) else none
  | .setNick oldNick nick => if (h.records p).ready then some (.reindexNick oldNick nick) else none
  | _ => none

/-- The tasks that follow on a task: at most the first is a half of a rename. -/
def Follows (half : Option Task) (next : List Task) : Prop :=
  ∃ rest, next = half.toList ++ rest ∧ ∀ task ∈ rest, task.renames = false

theorem Follows.none {next : List Task} (free : ∀ task ∈ next, task.renames = false) : Follows none next :=
  ⟨next, rfl, free⟩

theorem Hub.follows_serve (c : HubConfig) (a : Answer) (h : Hub) (p : Nat) (env : Envelope) (active : Bool) :
    Follows none (h.serve c a p env active).next := by
  apply Follows.none
  unfold Hub.serve Hub.onJoin Hub.dispatchContent
  dsimp only
  repeat' split
  all_goals simp +contextual [Task.renames, or_imp]

theorem Hub.follows_applyInboundNick (c : HubConfig) (a : Answer) (h : Hub) (p : Nat) (nick : Text) (env : Envelope)
    (active : Bool) : Follows (if h.Renames c p nick then
      some (.setNick (h.records p).nick (c.unicode.sanitizeNick nick)) else none)
        (h.applyInboundNick c a p nick env active).next := by
  unfold Hub.applyInboundNick
  dsimp only
  by_cases empty : c.unicode.sanitizeNick nick = []
  · rw [if_pos empty, if_neg fun renames : h.Renames c p nick => renames.1 empty]
    exact .none (by simp [Task.renames])
  by_cases long : byteLength (c.unicode.sanitizeNick nick) > c.limits.maxNickBytes
  · rw [if_neg empty, if_pos long, if_neg fun renames : h.Renames c p nick => absurd long renames.2.1.not_gt]
    apply Follows.none
    dsimp only
    repeat' split
    all_goals simp [Task.renames]
  by_cases same : c.unicode.sanitizeNick nick = (h.records p).nick
  · rw [if_neg empty, if_neg long, if_pos same, if_neg fun renames : h.Renames c p nick => renames.2.2 same]
    exact .none (by simp [Task.renames])
  · have renames : h.Renames c p nick := ⟨empty, not_lt.1 long, same⟩
    rw [if_neg empty, if_neg long, if_neg same, if_pos renames]
    exact ⟨[.serve env active], rfl, by simp [Task.renames]⟩

theorem Hub.hub_applyInboundNick (c : HubConfig) (a : Answer) (h : Hub) (p : Nat) (nick : Text)
    (env : Envelope) (active : Bool) : (h.applyInboundNick c a p nick env active).hub = h := by
  unfold Hub.applyInboundNick
  dsimp only
  repeat' split
  all_goals rfl

theorem Task.renames_leadsTo {c : HubConfig} {h : Hub} {p : Nat} {task t : Task}
    (leads : task.leadsTo c h p = some t) : t.renames = true := by
  unfold Task.leadsTo at leads
  split at leads
  · split at leads
    · cases leads
      rfl
    · cases leads
  · split at leads
    · cases leads
      rfl
    · cases leads
  · cases leads

theorem Task.follows (c : HubConfig) (a : Answer) (h : Hub) (p : Nat) (task : Task) :
    Follows (task.leadsTo c h p) (task.run c a h p).next := by
  cases task with
  | applyInboundNick nick env active => exact Hub.follows_applyInboundNick c a h p nick env active
  | setNick oldNick nick =>
    refine ⟨[], ?_, by simp⟩
    simp only [Task.run, Hub.setNick, Task.leadsTo]
    split
    · rfl
    · rfl
  | serve env active => exact Hub.follows_serve c a h p env active
  | remote =>
    apply Follows.none
    cases remote : a.remote <;> simp [Task.run, remote, Task.renames]
  | register hash =>
    apply Follows.none
    simp only [Task.run, Hub.registerTurn]
    repeat' split
    all_goals simp [Task.renames, or_imp, forall_and]
  | identify | receive | handlePeer | greet | onHello | join | onPart | close | dropPeerIf =>
    apply Follows.none
    simp only [Task.run, Hub.identify, Hub.receive, Hub.handlePeer, Hub.greet, Hub.onHello, Hub.joinTurn, Hub.onPart,
      Hub.close, Hub.dropPeerIf]
    repeat' split
    all_goals simp [Task.renames]
  | takePending =>
    apply Follows.none
    simp only [Task.run, Hub.takePending]
    split
    all_goals simp [Task.renames]
  | reindexNick | deactivate | onRoomContent | onDirectNotice => exact .none (by simp [Task.run])

namespace HubMachine
variable {c : HubConfig} {m m' : HubMachine} {i : Nat} {a : Answer} {thread : Thread} {task : Task} {event : HubEvent}

/-- The half of a rename that a thread runs next, with its link. -/
def half (m : HubMachine) (i : Nat) : Option (Nat × Task) :=
  (m.next i).bind fun (thread, task) => if task.renames then some (thread.link, task) else none

/-- A rename of an identity has set the nickname and not moved the index entry. -/
def HalfRenamed (m : HubMachine) (key : Bytes) : Prop :=
  ∃ i p oldNick newNick, m.half i = some (p, .reindexNick oldNick newNick) ∧ (m.hub.records p).key = key

/-- A rename of an identity is under way. -/
def UnderWay (m : HubMachine) (key : Bytes) : Prop := ∃ i p task, m.half i = some (p, task) ∧ (m.hub.records p).key = key

theorem lt_of_half {half : Nat × Task} (found : m.half i = some half) : i < m.threads.length := by
  by_contra outside
  simp [HubMachine.half, HubMachine.next, List.getElem?_eq_none (not_lt.1 outside)] at found

instance (key : Bytes) : Decidable (m.UnderWay key) :=
  decidable_of_iff (∃ i < m.threads.length, (m.half i).any fun half => (m.hub.records half.1).key = key) (by
    constructor
    · rintro ⟨i, _, found⟩
      obtain ⟨⟨p, task⟩, half, same⟩ := (Option.any_eq_true _ _).1 found
      exact ⟨i, p, task, half, of_decide_eq_true same⟩
    · rintro ⟨i, p, task, half, same⟩
      exact ⟨i, lt_of_half half, (Option.any_eq_true _ _).2 ⟨(p, task), half, decide_eq_true same⟩⟩)

/-- Nothing comes between the halves of a rename, renames are made by the hub's own record, and a registration does
not replace a record with a nickname. -/
def Undisturbed (c : HubConfig) (m : HubMachine) (p : Nat) : Task → Prop
  | .register hash =>
    hash.length = identityLength → (m.hub.records p).ready = false →
      ¬ m.UnderWay (peerKey hash) ∧
        ∀ old ∈ m.hub.peers.lookup (peerKey hash), c.unicode.fold (m.hub.records old).nick = []
  | .applyInboundNick nick _ _ =>
    m.hub.Renames c p nick → m.hub.Current p ∧ ¬ m.UnderWay (m.hub.records p).key
  | .dropPeerIf q => m.hub.Current q → ¬ m.UnderWay (m.hub.records q).key
  | _ => True

instance (p : Nat) (task : Task) : Decidable (m.Undisturbed c p task) := by
  apply @Task.casesOn _ task
  all_goals
    intros
    dsimp only [Undisturbed]
    infer_instance

/-- Renames stand at the front of a thread only. -/
def Orderly (m : HubMachine) : Prop := ∀ thread ∈ m.threads, ∀ task ∈ thread.tasks.tail, task.renames = false

theorem half_advance (orderly : m.Orderly) (next : m.next i = some (thread, task)) :
    (m.advance c i a thread task).1.half =
      Function.update m.half i ((task.leadsTo c m.hub thread.link).map (thread.link, ·)) := by
  obtain ⟨found, rest, tasks⟩ := next_eq_some.1 next
  obtain ⟨later, follows, free⟩ := Task.follows c a m.hub thread.link task
  have tail : ∀ t ∈ rest, t.renames = false := by
    have before := orderly thread (mem_of_getElem? found)
    rw [tasks] at before
    exact before
  funext j
  rcases eq_or_ne j i with rfl | other
  · have inside : j < m.threads.length := (List.getElem?_eq_some_iff.1 found).1
    rw [Function.update_self]
    unfold half HubMachine.next advance
    dsimp only
    rw [List.getElem?_set_self inside, follows, tasks]
    cases leads : task.leadsTo c m.hub thread.link with
    | some t => simp [Task.renames_leadsTo leads]
    | none =>
      have quiet : ∀ t ∈ later ++ rest, t.renames = false := by
        intro t member
        exact (mem_append.1 member).elim (free t) (tail t)
      dsimp only [Option.toList, nil_append, tail_cons]
      cases list : later ++ rest with
      | nil => simp
      | cons t more =>
        rw [list] at quiet
        simp [quiet t mem_cons_self]
  · rw [Function.update_of_ne other]
    unfold half HubMachine.next advance
    dsimp only
    rw [List.getElem?_set_ne other.symm]

theorem half_spawn {link : Nat} {tasks : List Task} (free : ∀ task ∈ tasks, task.needsIdentity = false) :
    (m.spawn link tasks).half = m.half := by
  have quiet : ∀ task : Task, task.needsIdentity = false → task.renames = false := by
    intro task
    cases task <;> simp [Task.needsIdentity, Task.renames]
  funext j
  unfold half HubMachine.next spawn
  dsimp only
  rcases lt_trichotomy j m.threads.length with before | rfl | after
  · rw [List.getElem?_append_left before]
  · cases tasks with
    | nil => simp
    | cons task rest => simp [quiet task (free task mem_cons_self)]
  · rw [List.getElem?_eq_none (by simpa using after), List.getElem?_eq_none after.le]

theorem orderly_spawn {link : Nat} {tasks : List Task} (orderly : m.Orderly)
    (free : ∀ task ∈ tasks, task.needsIdentity = false) : (m.spawn link tasks).Orderly := by
  intro thread member task listed
  rcases mem_append.1 member with old | new
  · exact orderly thread old task listed
  · rw [mem_singleton.1 new] at listed
    have quiet := free task (mem_of_mem_tail listed)
    cases task <;> simp_all [Task.needsIdentity, Task.renames]

theorem orderly_advance (orderly : m.Orderly) (next : m.next i = some (thread, task)) :
    (m.advance c i a thread task).1.Orderly := by
  obtain ⟨found, rest, tasks⟩ := next_eq_some.1 next
  obtain ⟨later, follows, free⟩ := Task.follows c a m.hub thread.link task
  intro t member task' listed
  rcases mem_or_eq_of_mem_set member with old | new
  · exact orderly t old task' listed
  · rw [new] at listed
    dsimp only at listed
    rw [follows, append_assoc] at listed
    have inside : task' ∈ later ++ thread.tasks.tail := by
      cases half : task.leadsTo c m.hub thread.link with
      | none =>
        rw [half] at listed
        exact mem_of_mem_tail listed
      | some t =>
        rw [half] at listed
        exact listed
    rcases mem_append.1 inside with new | old
    · exact free task' new
    · exact orderly thread (mem_of_getElem? found) task' old

/-- The machine's index of nicknames is exact up to renames that are half done. -/
structure Indexed (c : HubConfig) (m : HubMachine) : Prop where
  orderly : m.Orderly
  indexed : m.hub.Indexed c.unicode m.half

theorem Indexed.start (c : HubConfig) : ({} : HubMachine).Indexed c := by
  refine ⟨?_, ⟨?_, ?_, ?_, ?_, ?_⟩⟩
  · intro thread member
    cases member
  · intro i p oldNick nick found
    cases found
  · intro i p oldNick newNick found
    cases found
  · intro i p task found
    cases found
  · intro i j p q task task' found
    cases found
  · intro key _ n
    apply iff_of_false (SetIndex.not_holds_empty n key)
    rintro ⟨_, p, found, _⟩
    cases found

/-- A task that is no half of a rename keeps the index exact. -/
theorem Indexed.of_effect (sane : m.Sane) (indexed : m.Indexed c) {p : Nat} (undisturbed : m.Undisturbed c p task)
    (quiet : task.renames = false) {h' : Hub} (effect : Hub.Effect c m.hub p task h') :
    h'.Indexed c.unicode m.half := by
  cases effect with
  | same same =>
    exact indexed.indexed.frame same.peers same.nickIndex (fun q _ => ⟨same.key q, same.nick q⟩) sane.keyed
  | register valid first =>
    obtain ⟨idle, unnamed⟩ := undisturbed valid first
    exact indexed.indexed.register sane.keyed first (sane.blank p first)
      (fun j q task found same => idle ⟨j, q, task, found, same⟩) unnamed
  | setNick => cases quiet
  | reindexNick => cases quiet
  | join =>
    refine indexed.indexed.frame rfl rfl (fun q _ => ?_) sane.keyed
    rw [Hub.records_join]
    exact ⟨Hub.update_field HubPeer.key (by intro; rfl) q, Hub.update_field HubPeer.nick (by intro; rfl) q⟩
  | part =>
    refine indexed.indexed.frame rfl rfl (fun q _ => ?_) sane.keyed
    rw [Hub.records_leave]
    exact ⟨Hub.update_field HubPeer.key (by intro; rfl) q, Hub.update_field HubPeer.nick (by intro; rfl) q⟩
  | drop current =>
    have idle := undisturbed current
    exact indexed.indexed.drop sane.keyed current fun j q task found same => idle ⟨j, q, task, found, same⟩

theorem half_eq_none (next : m.next i = some (thread, task)) (quiet : task.renames = false) : m.half i = none := by
  simp [half, next, quiet]

theorem half_eq_some (next : m.next i = some (thread, task)) (renames : task.renames = true) :
    m.half i = some (thread.link, task) := by
  simp [half, next, renames]

theorem Indexed.run (sane : m.Sane) (indexed : m.Indexed c) (next : m.next i = some (thread, task))
    (undisturbed : m.Undisturbed c thread.link task) :
    (task.run c a m.hub thread.link).hub.Indexed c.unicode
      (Function.update m.half i ((task.leadsTo c m.hub thread.link).map (thread.link, ·))) := by
  have settled : task.renames = false → task.leadsTo c m.hub thread.link = none →
      (task.run c a m.hub thread.link).hub.Indexed c.unicode
        (Function.update m.half i ((task.leadsTo c m.hub thread.link).map (thread.link, ·))) := by
    intro quiet leads
    rw [leads, Option.map_none, ← half_eq_none next quiet, Function.update_eq_self]
    exact indexed.of_effect sane undisturbed quiet (Task.effect c a m.hub thread.link task)
  cases task with
  | setNick oldNick nick =>
    have ready := sane.needs next rfl
    rw [Task.leadsTo, if_pos ready]
    exact indexed.indexed.setNick sane.keyed (half_eq_some next rfl)
  | reindexNick oldNick newNick => exact indexed.indexed.reindexNick (half_eq_some next rfl)
  | applyInboundNick nick env active =>
    by_cases renames : m.hub.Renames c thread.link nick
    · obtain ⟨current, idle⟩ := undisturbed renames
      rw [Task.leadsTo, if_pos renames]
      change (m.hub.applyInboundNick c a thread.link nick env active).hub.Indexed _ _
      rw [Hub.hub_applyInboundNick]
      exact indexed.indexed.start (half_eq_none next rfl) current
        (fun j q task found same => idle ⟨j, q, task, found, same⟩) (c.unicode.fold_sanitizeNick nick)
    · exact settled rfl (by rw [Task.leadsTo, if_neg renames])
  | remote | register | identify | takePending | receive | handlePeer | greet | serve | onHello | deactivate | join
  | onPart | onRoomContent | onDirectNotice | close | dropPeerIf => exact settled rfl rfl

theorem Indexed.step (sane : m.Sane) (indexed : m.Indexed c)
    (undisturbed : m.OnTask (fun thread task => m.Undisturbed c thread.link task) event)
    (stepped : Stepped c m event m') : m'.Indexed c := by
  cases stepped with
  | accept now =>
    have free : ∀ task ∈ [Task.remote], task.needsIdentity = false := by simp [Task.needsIdentity]
    refine ⟨orderly_spawn indexed.orderly free, ?_⟩
    rw [half_spawn free]
    refine indexed.indexed.frame rfl rfl (fun q current => ?_) sane.keyed
    have kept : (m.hub.acceptLink c.limits.rateLimitMsgsPerMinute now).records q = m.hub.records q :=
      Hub.records_acceptLink_ne (sane.young q (sane.keyed _ q current).1).ne
    exact ⟨congrArg HubPeer.key kept, congrArg HubPeer.nick kept⟩
  | spawn known opening =>
    refine ⟨orderly_spawn indexed.orderly opening.free, ?_⟩
    rw [half_spawn opening.free]
    exact indexed.indexed
  | removeFromRoom found listed =>
    refine ⟨indexed.orderly, indexed.indexed.frame rfl rfl (fun q _ => ?_) sane.keyed⟩
    dsimp only
    rw [Hub.records_leave]
    exact ⟨Hub.update_field HubPeer.key (by intro; rfl) q, Hub.update_field HubPeer.nick (by intro; rfl) q⟩
  | refused => exact indexed
  | advance next =>
    refine ⟨orderly_advance indexed.orderly next, ?_⟩
    rw [half_advance indexed.orderly next]
    exact indexed.run sane next (undisturbed _ _ next)

end HubMachine

namespace Hub
variable {h : Hub}

theorem peerHash_of_key (keyed : h.Keyed) {key : Bytes} {p : Nat} (found : h.peers.lookup key = some p) :
    (h.records p).peerHash = key := by
  obtain ⟨ready, same⟩ := keyed key p found
  unfold HubPeer.key peerKey at same
  rw [if_pos (of_decide_eq_true ready)] at same
  exact same

theorem hashes_eq_filter (keyed : h.Keyed) (keys : List Bytes) :
    h.hashes keys = keys.filter fun key => (h.peers.lookup key).isSome := by
  unfold hashes
  rw [← filterMap_eq_filter]
  apply filterMap_congr
  intro key _
  cases found : h.peers.lookup key with
  | none => simp [Option.guard, found]
  | some p => simp [Option.guard, found, peerHash_of_key keyed found]

end Hub

/-- In every run in which renames are undisturbed and no named record is replaced, a lookup of a nickname lists no
identity twice, and it lists an identity whose rename is not half done exactly if the nickname of its current session
folds to the one asked for, unless this is blank. -/
theorem lookupNick_exact (c : HubConfig) (events : List HubEvent) (m : HubMachine)
    (ran : ({} : HubMachine).run c events = some m)
    (undisturbed : Along (HubMachine.step c) (fun m event =>
      m.OnTask (fun thread task => m.Undisturbed c thread.link task) event) {} events)
    (nick : Text) (visit : Visit) :
    (m.hub.lookupNick c.unicode nick visit).Nodup ∧ ∀ key, ¬ m.HalfRenamed key →
      (key ∈ m.hub.lookupNick c.unicode nick visit ↔
        c.unicode.fold nick ≠ [] ∧ ∃ p, m.hub.peers.lookup key = some p ∧
          c.unicode.fold nick = c.unicode.fold (m.hub.records p).nick) := by
  have start : ({} : HubMachine).Sane ∧ ({} : HubMachine).Indexed c := ⟨.start, .start c⟩
  have kept : ∀ (m : HubMachine) (event : HubEvent) (m' : HubMachine), m.Sane ∧ m.Indexed c →
      m.OnTask (fun thread task => m.Undisturbed c thread.link task) event → m.step c event = some m' →
        m'.Sane ∧ m'.Indexed c := by
    intro m event m' ⟨sane, indexed⟩ undisturbed stepped
    have stepped := HubMachine.stepped_of_step stepped
    exact ⟨sane.step stepped, indexed.step sane undisturbed stepped⟩
  obtain ⟨sane, indexed⟩ := invariant_runEvents kept start undisturbed ran
  have perm := visit.perm (m.hub.nickIndex.members (c.unicode.fold nick)).keys
  unfold Hub.lookupNick
  rw [Hub.hashes_eq_filter sane.keyed]
  refine ⟨(perm.nodup_iff.2 (AList.keys_nodup _)).filter _, fun key settled => ?_⟩
  rw [mem_filter, perm.mem_iff, ← AList.mem_keys]
  have exact := indexed.indexed.exact key (fun i p oldNick newNick found same =>
    settled ⟨i, p, oldNick, newNick, found, same⟩) (c.unicode.fold nick)
  unfold SetIndex.Holds Hub.IndexedAs at exact
  rw [exact]
  apply and_iff_left_of_imp
  rintro ⟨_, p, found, _⟩
  rw [found]
  rfl

def renamed : List HubEvent :=
  opened 0 3 someHash ++ handled 1 9 0 { inbound .hello with nick := some "Bob".toList } ++
    handled 2 8 0 { inbound .ping with nick := some "Robert ".toList }

theorem lookupNick_renamed : ∃ m, ({} : HubMachine).run asciiHub renamed = some m ∧
    someHash ∈ m.hub.lookupNick asciiHub.unicode " robert".toList Visit.listed ∧
      ∀ key, ¬ m.HalfRenamed key → (key ∈ m.hub.lookupNick asciiHub.unicode "bob".toList Visit.listed ↔
        asciiHub.unicode.fold "bob".toList ≠ [] ∧ ∃ p, m.hub.peers.lookup key = some p ∧
          asciiHub.unicode.fold "bob".toList = asciiHub.unicode.fold (m.hub.records p).nick) := by
  have reached : (({} : HubMachine).run asciiHub renamed).any (fun m =>
      someHash ∈ m.hub.lookupNick asciiHub.unicode " robert".toList Visit.listed) = true := by
    decide +kernel
  obtain ⟨m, ran, found⟩ := (Option.any_eq_true _ _).1 reached
  have undisturbed : Along (HubMachine.step asciiHub) (fun m event =>
      m.OnTask (fun thread task => m.Undisturbed asciiHub thread.link task) event) {} renamed := by
    decide +kernel
  exact ⟨m, ran, of_decide_eq_true found, (lookupNick_exact asciiHub renamed m ran undisturbed _ _).2⟩

/-- A second link of the identity replaces a peer with a nickname. -/
def replacedName : List HubEvent :=
  opened 0 3 someHash ++ handled 1 9 0 { inbound .hello with nick := some "Bob".toList } ++ opened 2 5 someHash

theorem replacedName_found : ∃ m, ({} : HubMachine).run asciiHub replacedName = some m ∧
    someHash ∈ m.hub.lookupNick asciiHub.unicode "bob".toList Visit.listed ∧
      m.hub.peers.lookup someHash = some 1 ∧ (m.hub.records 1).nick = [] ∧ ∀ thread ∈ m.threads, thread.tasks = [] := by
  have reached : (({} : HubMachine).run asciiHub replacedName).any (fun m =>
      (someHash ∈ m.hub.lookupNick asciiHub.unicode "bob".toList Visit.listed) ∧
        m.hub.peers.lookup someHash = some 1 ∧ (m.hub.records 1).nick = [] ∧
          ∀ thread ∈ m.threads, thread.tasks.length = 0) = true := by
    decide +kernel
  obtain ⟨m, ran, stale⟩ := (Option.any_eq_true _ _).1 reached
  obtain ⟨found, current, unnamed, done⟩ := of_decide_eq_true stale
  exact ⟨m, ran, found, current, unnamed, fun thread member => length_eq_zero_iff.1 (done thread member)⟩

end ReticulumProtocols.Rrc
