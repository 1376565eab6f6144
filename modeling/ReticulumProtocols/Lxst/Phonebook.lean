import ReticulumProtocols.Rrc.Sessions
import ReticulumProtocols.Wire.Text

/-! The phonebook and the rules about who may call: everybody, nobody, the entries of the book or a list of hashes. -/

namespace ReticulumProtocols.Lxst.Phonebook
open Wire Wire.Text Cbor Rrc List

inductive Error where
  | emptyHash
  | emptyName
  | duplicateName (name : Rrc.Text)
  | hex
  | hashLength
  deriving DecidableEq

structure Entry where
  name : Rrc.Text
  hash : Bytes
  aliasName : Rrc.Text := []

def allowAll : UInt8 := 0xff
def allowNone : UInt8 := 0xfe

structure Book where
  entries : List Entry := []
  byName : List (Rrc.Text × Nat) := []
  byAlias : List (Rrc.Text × Nat) := []
  allowed : List Bytes := []
  blocked : List Bytes := []
  policy : UInt8 := allowAll

structure Config where
  allowedCallers : Rrc.Text := []
  blockedCallers : Rrc.Text := []
  phonebook : List Entry := []

section
variable (u : Unicode)

def toLower (s : Rrc.Text) : Rrc.Text := s.map u.toLower

def parseHash (s : Rrc.Text) : Except Error Bytes :=
  let s := ((u.trimSpace (toLower u s)).filter (· ≠ ':')).filter (· ≠ ' ')
  let s := if s.head? = some '<' ∧ s.getLast? = some '>' then s.tail.dropLast else s
  match decodeHex (utf8 s) with
  | none => .error .hex
  | some raw =>
    if raw.length ≠ 16 ∧ raw.length ≠ 32 then .error .hashLength
    else .ok (if raw.length = 32 then raw.take 16 else raw)

def isKeyword (p : Rrc.Text) : Bool :=
  p = [] ∨ p = "all".toList ∨ p = "none".toList ∨ p = "phonebook".toList

/-- The parts of a list; keywords among them are passed over. -/
def listed (val : Rrc.Text) : List Rrc.Text :=
  (((val.splitOnP fun r => r = ',' ∨ r = ' ' ∨ r = ';').filter (· ≠ [])).map fun p => toLower u (u.trimSpace p)).filter
    fun p => !isKeyword p

def parseHashList (val : Rrc.Text) : Except Error (List Bytes) := (listed u val).mapM (parseHash u)

namespace Book

def add (book : Book) (e : Entry) : Except Error Book :=
  if e.hash = [] then .error .emptyHash
  else
    let name := u.trimSpace e.name
    if name = [] then .error .emptyName
    else if book.byName.any fun entry => entry.1 = toLower u name then .error (.duplicateName name)
    else
      let aliasName := u.trimSpace e.aliasName
      .ok { book with
        entries := book.entries ++ [{ e with name, aliasName }]
        byName := (toLower u name, book.entries.length) :: book.byName
        byAlias := if aliasName = [] then book.byAlias else (aliasName, book.entries.length) :: book.byAlias }

def setPolicy (book : Book) (policy : UInt8) : Book :=
  { book with policy := if policy = allowNone ∨ policy = allowAll then policy else 0 }

def setAllowed (book : Book) (hashes : List Bytes) : Book := { book with allowed := hashes, policy := 0 }

def setBlocked (book : Book) (hashes : List Bytes) : Book := { book with blocked := hashes }

def allowPhonebook (book : Book) : Book := { book with policy := 0, allowed := [] }

def isAllowed (book : Book) (hash : Bytes) : Bool :=
  if hash ∈ book.blocked then false
  else if book.policy = allowAll then true
  else if book.policy = allowNone then false
  else if 0 < book.allowed.length then hash ∈ book.allowed
  else book.entries.any fun e => e.hash = hash

end Book

/-- The setting without the blanks around it, in lower case. -/
def Config.keyword (cfg : Config) : Rrc.Text := toLower u (u.trimSpace cfg.allowedCallers)

/-- The switch of `ApplyPolicy`. -/
def applyAllowed (book : Book) (cfg : Config) : Except Error Book :=
  if cfg.keyword u = [] ∨ cfg.keyword u = "all".toList then .ok (book.setPolicy allowAll)
  else if cfg.keyword u = "none".toList then .ok (book.setPolicy allowNone)
  else if cfg.keyword u = "phonebook".toList then .ok book.allowPhonebook
  else book.setAllowed <$> parseHashList u cfg.allowedCallers

def applyPolicy (book : Book) (cfg : Config) : Except Error Book := do
  let book ← cfg.phonebook.foldlM (Book.add u) book
  let book ← applyAllowed u book cfg
  if u.trimSpace cfg.blockedCallers ≠ [] then book.setBlocked <$> parseHashList u cfg.blockedCallers
  else return book

end

section
variable {u : Unicode} {book : Book} {cfg : Config}

theorem Book.isAllowed_iff (hash : Bytes) (listed : book.policy = 0) : book.isAllowed hash ↔
    hash ∉ book.blocked ∧ if book.allowed = [] then hash ∈ book.entries.map Entry.hash else hash ∈ book.allowed := by
  unfold isAllowed
  rw [listed]
  by_cases blocked : hash ∈ book.blocked
  · simp [blocked]
  · cases none : book.allowed with
    | nil => simp [blocked, allowAll, allowNone]
    | cons first rest => simp [blocked, allowAll, allowNone]

theorem map_eq_ok {α β : Type} {x : Except Error α} {f : α → β} {b : β} :
    f <$> x = .ok b ↔ ∃ a, x = .ok a ∧ f a = b := by
  cases x <;> simp

/-- What an accepted setting other than the keywords for everybody and for the book does. -/
theorem applyPolicy_cases {book' : Book} (accepted : applyPolicy u book cfg = .ok book') (some : cfg.keyword u ≠ [])
    (all : cfg.keyword u ≠ "all".toList) (phonebook : cfg.keyword u ≠ "phonebook".toList) :
    cfg.keyword u = "none".toList ∧ book'.policy = allowNone ∨ cfg.keyword u ≠ "none".toList ∧ book'.policy = 0 ∧
      parseHashList u cfg.allowedCallers = .ok book'.allowed := by
  obtain ⟨filled, _, accepted⟩ := bind_eq_ok.1 accepted
  obtain ⟨ruled, rules, accepted⟩ := bind_eq_ok.1 accepted
  have kept : book'.policy = ruled.policy ∧ book'.allowed = ruled.allowed := by
    split at accepted
    · obtain ⟨hashes, _, rfl⟩ := map_eq_ok.1 accepted
      exact ⟨rfl, rfl⟩
    · cases accepted
      exact ⟨rfl, rfl⟩
  rw [kept.1, kept.2]
  rw [applyAllowed, if_neg (not_or.2 ⟨some, all⟩)] at rules
  split at rules
  next none =>
    cases rules
    exact .inl ⟨none, rfl⟩
  next other =>
    obtain ⟨hashes, parsed, rfl⟩ := map_eq_ok.1 rules
    exact .inr ⟨other, rfl, parsed⟩

/-- An explicit list is exclusive iff it names a hash, or the book has no entry that may call. -/
theorem allowed_listed_iff {book' : Book} (accepted : applyPolicy u book cfg = .ok book')
    (some : cfg.keyword u ≠ []) (all : cfg.keyword u ≠ "all".toList) (phonebook : cfg.keyword u ≠ "phonebook".toList) :
    (∀ h, book'.isAllowed h →
        (∃ hashes, parseHashList u cfg.allowedCallers = .ok hashes ∧ h ∈ hashes) ∧ h ∉ book'.blocked) ↔
      cfg.keyword u = "none".toList ∨ parseHashList u cfg.allowedCallers ≠ .ok [] ∨
        ∀ e ∈ book'.entries, e.hash ∈ book'.blocked := by
  rcases applyPolicy_cases accepted some all phonebook with ⟨none, nobody⟩ | ⟨other, byList, parsed⟩
  · apply iff_of_true _ (.inl none)
    intro h allowed
    simp [Book.isAllowed, nobody, allowAll, allowNone] at allowed
  · have found (h : Bytes) : (∃ hashes, parseHashList u cfg.allowedCallers = .ok hashes ∧ h ∈ hashes) ↔
        h ∈ book'.allowed := by
      rw [parsed]
      simp
    have named : parseHashList u cfg.allowedCallers ≠ .ok [] ↔ book'.allowed ≠ [] := by
      rw [parsed]
      simp
    simp only [or_iff_right other, found, named, Book.isAllowed_iff _ byList]
    by_cases empty : book'.allowed = []
    · simp only [empty, if_true, not_mem_nil, false_and, ne_eq, not_true, false_or, imp_false]
      constructor
      · intro none e member
        by_contra free
        exact none e.hash ⟨free, mem_map_of_mem member⟩
      · intro blocked h ⟨free, entry⟩
        obtain ⟨e, member, rfl⟩ := mem_map.1 entry
        exact free (blocked e member)
    · exact iff_of_true (fun h allowed => ⟨by simpa [empty] using allowed.2, allowed.1⟩) (.inl empty)

end

theorem allowed_listed_iff_one :
    let cfg : Config := { allowedCallers := replicate 32 '0' }
    let book : Book := { allowed := [replicate 16 0], policy := 0 }
    applyPolicy asciiHub.unicode {} cfg = .ok book ∧
      ((∀ h, book.isAllowed h →
        (∃ hashes, parseHashList asciiHub.unicode cfg.allowedCallers = .ok hashes ∧ h ∈ hashes) ∧
          h ∉ book.blocked) ↔ cfg.keyword asciiHub.unicode = "none".toList ∨
          parseHashList asciiHub.unicode cfg.allowedCallers ≠ .ok [] ∨ ∀ e ∈ book.entries, e.hash ∈ book.blocked) :=
  ⟨rfl, @allowed_listed_iff _ {} _ _ rfl (by decide) (by decide) (by decide)⟩

/-- A list without a hash lets every entry of the book call. -/
theorem allowed_by_empty_list : ∃ book,
    applyPolicy asciiHub.unicode {} { allowedCallers := [','], phonebook := [⟨['a'], replicate 16 7, []⟩] } = .ok book ∧
      parseHashList asciiHub.unicode [','] = .ok [] ∧ book.isAllowed (replicate 16 7) = true :=
  ⟨_, rfl, rfl, rfl⟩

end ReticulumProtocols.Lxst.Phonebook
