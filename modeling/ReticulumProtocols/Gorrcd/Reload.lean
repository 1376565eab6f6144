import ReticulumProtocols.Gorrcd.Service

/-! `Reload` when it fails. Everything it reads is checked before it is put in place, but the lists of identities are
in place before the room registry is read. -/

namespace ReticulumProtocols.Gorrcd
open Wire Cbor Lxmf Rrc List

def Trust.Same (t t' : Trust) : Prop := (∀ id, id ∈ t.trusted ↔ id ∈ t'.trusted) ∧ ∀ id, id ∈ t.banned ↔ id ∈ t'.banned

theorem Trust.Same.refl (t : Trust) : t.Same t := ⟨fun _ => Iff.rfl, fun _ => Iff.rfl⟩

def TellsFailure (peer : Bytes) (replies : List Reply) : Prop :=
  ∃ reason, Reply.notice peer [] ("reload failed: " ++ reason) ∈ replies

namespace Service

/-- Configuration, lists of identities, room registry and hub limits are those of `s`. -/
structure Unchanged (s s' : Service) : Prop where
  cfg : s'.cfg = s.cfg
  trust : s'.trust.Same s.trust
  rooms : s'.rooms = s.rooms
  limits : s'.hubConfig.limits = s.hubConfig.limits

theorem Unchanged.refl (s : Service) : s.Unchanged s := ⟨rfl, .refl s.trust, rfl, rfl⟩

/-- The configuration file loads and its lists of identities are well formed, but the room registry it names does not
load. -/
structure RegistryFails (lib : Library) (w : Outside) (s : Service) (trust : Trust) : Prop where
  path : s.cfg.configPath ≠ []
  stat : w.disk.stat s.cfg.configPath = true
  loads : ∃ cfg, w.disk.loadConfigFile s.cfg.configPath = .ok cfg ∧
    Trust.load lib cfg.trustedIdentities cfg.bannedIdentities = .ok trust ∧
    ∃ message, w.disk.loadRoomRegistry cfg.roomRegistryPath = .error message

theorem reloaded_ne (s s' : Service) (reason : String) : s.reloaded s' ≠ "reload failed: " ++ reason := by
  have text : ∃ rest, s.reloaded s' = "reloaded: trusted=" ++ rest := by
    unfold reloaded
    simp only [String.append_assoc]
    exact ⟨_, rfl⟩
  obtain ⟨rest, text⟩ := text
  intro same
  have letters : "reloaded: trusted=".toList ++ rest.toList = "reload failed: ".toList ++ reason.toList := by
    rw [← String.toList_append, ← String.toList_append, ← text, same]
  -- The two texts part at the seventh character.
  have letter := congrArg (fun l => l[6]?) letters
  rw [List.getElem?_append_left (by decide), List.getElem?_append_left (by decide)] at letter
  exact absurd letter (by decide)

/-- `Reload` leaves everything alone, replaces the lists of identities only, or works. -/
theorem reload_cases (lib : Library) (w : Outside) (s : Service) (peer : Bytes) :
    (∃ text, s.reload lib w peer = (s, [.notice peer [] text]) ∧ ∀ trust, ¬ RegistryFails lib w s trust) ∨
      (∃ trust reason, s.reload lib w peer = ({ s with trust }, [.notice peer [] ("reload failed: " ++ reason)]) ∧
        ∀ trust', RegistryFails lib w s trust' ↔ trust' = trust) ∨
      (∃ s₀ s', s.reload lib w peer = (s', [.notice peer [] (reloaded s₀ s')]) ∧
        ∀ trust, ¬ RegistryFails lib w s trust) := by
  unfold reload
  dsimp only
  split
  next missing =>
    refine .inl ⟨_, rfl, fun trust fails => ?_⟩
    exact missing.elim fails.path fun absent => absent fails.stat
  next found =>
    obtain ⟨path, stat⟩ := not_or.1 found
    split
    next message unread =>
      refine .inl ⟨_, rfl, fun trust fails => ?_⟩
      obtain ⟨cfg, read, _⟩ := fails.loads
      rw [unread] at read
      cases read
    next newCfg read =>
      split
      next message malformed =>
        refine .inl ⟨_, rfl, fun trust fails => ?_⟩
        obtain ⟨cfg, read', parsed, _⟩ := fails.loads
        rw [read] at read'
        cases read'
        rw [malformed] at parsed
        cases parsed
      next trust parsed =>
        split
        next message unread =>
          refine .inr (.inl ⟨trust, message, rfl, fun trust' => ⟨fun fails => ?_, ?_⟩⟩)
          · obtain ⟨cfg, read', parsed', _⟩ := fails.loads
            rw [read] at read'
            cases read'
            exact Except.ok.inj (parsed'.symm.trans parsed)
          · rintro rfl
            exact ⟨path, not_not.1 stat, newCfg, read, parsed, message, unread⟩
        next rooms loaded =>
          refine .inr (.inr ⟨_, _, rfl, fun trust fails => ?_⟩)
          obtain ⟨cfg, read', _, message, unread⟩ := fails.loads
          rw [read] at read'
          cases read'
          rw [loaded] at unread
          cases unread

/-- A failed `Reload` has no effect exactly if the room registry is not what fails, or the lists of identities that
were read before it are those in place. -/
theorem reload_failed_unchanged_iff (lib : Library) (w : Outside) (s : Service) (peer : Bytes) :
    (TellsFailure peer (s.reload lib w peer).2 → s.Unchanged (s.reload lib w peer).1) ↔
      ∀ trust, RegistryFails lib w s trust → trust.Same s.trust := by
  rcases reload_cases lib w s peer with ⟨text, reloads, none⟩ | ⟨trust, reason, reloads, only⟩ | ⟨s₀, s', reloads, none⟩
  · rw [reloads]
    exact iff_of_true (fun _ => .refl s) fun trust fails => absurd fails (none trust)
  · rw [reloads]
    constructor
    · intro kept trust' fails
      rw [(only trust').1 fails]
      exact (kept ⟨reason, mem_singleton_self _⟩).trust
    · intro same _
      exact ⟨rfl, same trust ((only trust).2 rfl), rfl, rfl⟩
  · rw [reloads]
    refine iff_of_true (fun fails => ?_) fun trust fails => absurd fails (none trust)
    obtain ⟨reason, told⟩ := fails
    have same : "reload failed: " ++ reason = reloaded s₀ s' := by
      injection mem_singleton.1 told
    exact absurd same.symm (reloaded_ne s₀ s' reason)

end Service

/-- A library for texts of ASCII characters without escapes. -/
def asciiLibrary : Library where
  unicode := asciiHub.unicode
  toUpper := Char.toUpper
  equalFold s t := s.map Char.toLower = t.map Char.toLower
  quote s := '"' :: s ++ ['"']
  unquote s := some (inner s)
  parseFloat _ := Float64.ofInt 0
  parseUint s := .ofNat (s.foldl (fun n r => 10 * n + (r.toNat - 48)) 0)
  expandEnv := id
  userHomeDir := none
  join directory name := directory ++ '/' :: name
  defaultHome := []

/-- A configuration with a trusted identity and no room registry; the empty path names the current directory. -/
def registryless : Files := fun path =>
  if path = ['c'] then .ok ("trusted_identities = [\"07070707070707070707070707070707\"]\nroom_registry_path = \"\"".toList)
  else .error (.other "read .: is a directory")

/-- A service that was configured from a file `c`. -/
def plainService : Service where
  cfg := { defaultConfig asciiLibrary with configPath := ['c'] }
  hubConfig := { asciiHub with policy := true }

theorem reload_not_unchanged :
    TellsFailure someHash (plainService.reload asciiLibrary { disk := registryless.disk asciiLibrary 0 } someHash).2 ∧
      ¬ plainService.Unchanged
        (plainService.reload asciiLibrary { disk := registryless.disk asciiLibrary 0 } someHash).1 := by
  have reached : (plainService.reload asciiLibrary { disk := registryless.disk asciiLibrary 0 } someHash).2 =
      [.notice someHash [] "reload failed: read .: is a directory"] ∧
      ⟨someHash, rfl⟩ ∉ plainService.trust.trusted ∧ ⟨someHash, rfl⟩ ∈
        (plainService.reload asciiLibrary { disk := registryless.disk asciiLibrary 0 } someHash).1.trust.trusted := by
    decide +kernel
  obtain ⟨told, stranger, trusted⟩ := reached
  refine ⟨⟨"read .: is a directory", ?_⟩, fun kept => ?_⟩
  · rw [told]
    exact mem_singleton.2 rfl
  · exact stranger ((kept.trust.1 _).1 trusted)

end ReticulumProtocols.Gorrcd
