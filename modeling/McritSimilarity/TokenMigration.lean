import McritSimilarity.Lib.Protocol
import McritSimilarity.Errors
import McritSimilarity.Python.Text

/-!
# The API token

`_migrate_token` moves a typed API token to the keychain whenever the token is read.  `tokenIsKept`: any number of
readers at once, over a keychain that may be missing and may refuse to store, all come back with the same token, and
none of them loses it: the field is cleared only once the keychain has what was typed.
-/

set_option autoImplicit false

namespace McritSimilarity

open Python Prog

/-! ## Reading the token -/

inductive TokenOp where
  /-- `secrets_provider_cls.get`: whether there is a keychain. -/
  | findProvider
  | getString
  | storeData (token : String)
  | reset
  | hasData
  | getData

def TokenOp.Ans : TokenOp → Type
  | findProvider => Bool
  | getString => String
  | storeData _ => Bool
  | reset => Unit
  | hasData => Bool
  | getData => String

def TokenI : Interface := ⟨TokenOp, TokenOp.Ans⟩

abbrev TokenProg := Prog TokenI PyError

def askToken (o : TokenOp) : TokenProg o.Ans := Prog.call (I := TokenI) o .ret

/-- `if typed: …`. -/
def moveToken (hasProvider : Bool) (typed : String) : TokenProg String := do
  let stored ← (if hasProvider = true then askToken (.storeData typed) else pure false : TokenProg Bool)
  if stored = true then do
    askToken .reset
    return typed
  else pure typed

/-- The token of the keychain. -/
def storedToken (hasProvider : Bool) : TokenProg String := do
  let known ← (if hasProvider = true then askToken .hasData else pure false : TokenProg Bool)
  if known = true then askToken .getData else pure ""

/-- `_migrate_token` from the text of the field on. -/
def readToken (hasProvider : Bool) (text : String) : TokenProg String :=
  if strip text ≠ "" then moveToken hasProvider (strip text) else storedToken hasProvider

/-- `_migrate_token`. -/
def migrateToken : TokenProg String := do
  let hasProvider ← askToken .findProvider
  let text ← askToken .getString
  readToken hasProvider text

/-! ## Where the token is -/

structure TokenStore where
  field : String
  hasProvider : Bool
  keychain : Option String
  deriving DecidableEq, Repr

namespace TokenStore

/-- The token in use: the typed one, else that of the keychain. -/
def token (s : TokenStore) : String :=
  if strip s.field ≠ "" then strip s.field else if s.hasProvider = true then s.keychain.getD "" else ""

/-- What an operation may answer.  The keychain may refuse to store. -/
def Answers (s : TokenStore) : (o : TokenOp) → o.Ans → TokenStore → Prop
  | .findProvider, found, t => found = s.hasProvider ∧ t = s
  | .getString, text, t => text = s.field ∧ t = s
  | .storeData token, true, t => t = { s with keychain := some token }
  | .storeData _, false, t => t = s
  | .reset, _, t => t = { s with field := "" }
  | .hasData, known, t => known = s.keychain.isSome ∧ t = s
  | .getData, token, t => token = s.keychain.getD "" ∧ t = s

end TokenStore

def tokenSem (s : TokenStore) (o : TokenI.Op) (a : TokenI.Ans o) (t : TokenStore) : Prop := s.Answers o a t

/-- How far a reader is. -/
inductive TokenPhase where
  | start
  | found (hasProvider : Bool)
  | typed (token : String)
  | moved (token : String)
  | untyped
  | known
  | ended (token : String)
  deriving DecidableEq

namespace TokenPhase

def allows : TokenPhase → TokenOp → Prop
  | start, .findProvider => True
  | found _, .getString => True
  | typed token, .storeData stored => stored = token
  | moved _, .reset => True
  | untyped, .hasData => True
  | known, .getData => True
  | _, _ => False

/-- The reader has read the field. -/
def afterField (hasProvider : Bool) (text : String) : TokenPhase :=
  if strip text ≠ "" then if hasProvider = true then typed (strip text) else ended (strip text)
  else if hasProvider = true then untyped else ended ""

def next : TokenPhase → (o : TokenOp) → o.Ans → TokenPhase
  | _, .findProvider, hasProvider => found hasProvider
  | found hasProvider, .getString, text => afterField hasProvider text
  | typed token, .storeData _, true => moved token
  | typed token, .storeData _, false => ended token
  | moved token, .reset, _ => ended token
  | untyped, .hasData, true => known
  | untyped, .hasData, false => ended ""
  | known, .getData, token => ended token
  | phase, _, _ => phase

end TokenPhase

def tokenProtocol : Protocol TokenI where
  State := TokenPhase
  allowed := TokenPhase.allows
  next := TokenPhase.next

/-- A reader returns the token it ended with. -/
def TokenRead (out : Outcome PyError String) (phase : TokenPhase) : Prop :=
  ∃ token, out = .returned token ∧ phase = .ended token

/-! ## Readers at once -/

section Reader

-- Whether the field is blank is not computed.
attribute [local irreducible] strip

theorem moveToken_follows (typed : String) (hasProvider : Bool) :
    (moveToken hasProvider typed).Follows tokenProtocol TokenRead
      (if hasProvider = true then .typed typed else .ended typed) := by
  cases hasProvider with
  | false => exact ⟨typed, rfl, rfl⟩
  | true =>
    refine ⟨rfl, fun stored => ?_⟩
    cases stored with
    | true => exact ⟨trivial, fun _ => ⟨typed, rfl, rfl⟩⟩
    | false => exact ⟨typed, rfl, rfl⟩

theorem storedToken_follows (hasProvider : Bool) :
    (storedToken hasProvider).Follows tokenProtocol TokenRead (if hasProvider = true then .untyped else .ended "") := by
  cases hasProvider with
  | false => exact ⟨"", rfl, rfl⟩
  | true =>
    refine ⟨trivial, fun known => ?_⟩
    cases known with
    | true => exact ⟨trivial, fun token => ⟨token, rfl, rfl⟩⟩
    | false => exact ⟨"", rfl, rfl⟩

theorem follows_ite {c : Prop} [Decidable c] {p q : TokenProg String} {s t : tokenProtocol.State}
    (hp : p.Follows tokenProtocol TokenRead s) (hq : q.Follows tokenProtocol TokenRead t) :
    (if c then p else q).Follows tokenProtocol TokenRead (if c then s else t) := by
  split_ifs
  · exact hp
  · exact hq

theorem readToken_follows (hasProvider : Bool) (text : String) : (readToken hasProvider text).Follows tokenProtocol
    TokenRead (TokenPhase.afterField hasProvider text) :=
  follows_ite (moveToken_follows _ _) (storedToken_follows _)

theorem migrateToken_follows : migrateToken.Follows tokenProtocol TokenRead .start :=
  ⟨trivial, fun hasProvider => ⟨trivial, fun text => readToken_follows hasProvider text⟩⟩

end Reader

/-- The store with the typed token in the keychain as well. -/
def TokenStore.withStored (s : TokenStore) : TokenStore := { s with keychain := some (strip s.field) }

/-- The store once the typed token has been moved. -/
def TokenStore.withMoved (s : TokenStore) : TokenStore := { s.withStored with field := "" }

/-- All that readers make of a store. -/
inductive TokenStore.Moves (s : TokenStore) : TokenStore → Prop where
  | kept : Moves s s
  | stored (htyped : strip s.field ≠ "") (hprovider : s.hasProvider = true) : Moves s s.withStored
  | moved (htyped : strip s.field ≠ "") (hprovider : s.hasProvider = true) : Moves s s.withMoved

theorem strip_empty : strip "" = "" := by decide

theorem TokenStore.Moves.hasProvider_eq {s t : TokenStore} (h : s.Moves t) : t.hasProvider = s.hasProvider := by
  cases h <;> rfl

theorem TokenStore.token_of_typed {s : TokenStore} (h : strip s.field ≠ "") : s.token = strip s.field := if_pos h

theorem TokenStore.Moves.token_eq {s t : TokenStore} (h : s.Moves t) : t.token = s.token := by
  cases h with
  | kept => rfl
  | stored htyped _ =>
    rw [token_of_typed htyped]
    exact if_pos htyped
  | moved htyped hprovider =>
    rw [token_of_typed htyped]
    unfold token withMoved withStored
    rw [if_neg (not_not.2 strip_empty), if_pos hprovider]
    rfl

/-- Readers that have come this far, over a store that was `s` and is now `t`. -/
def TokenPhase.Fits (s t : TokenStore) : TokenPhase → Prop
  | start => True
  | found hasProvider => hasProvider = s.hasProvider
  | typed token => token = strip s.field ∧ strip s.field ≠ "" ∧ s.hasProvider = true
  | moved token => token = strip s.field ∧ strip s.field ≠ "" ∧ s.hasProvider = true ∧ t.keychain = some token
  | untyped => s.hasProvider = true ∧ strip t.field = ""
  | known => s.hasProvider = true ∧ strip t.field = "" ∧ t.keychain.isSome = true
  | ended token => token = s.token

section Store

variable {s t u : TokenStore} {phase : TokenPhase}

theorem TokenStore.token_eq_of_blank (hmoves : s.Moves t) (hprovider : s.hasProvider = true)
    (hblank : strip t.field = "") : s.token = t.keychain.getD "" := by
  rw [← hmoves.token_eq]
  unfold token
  rw [if_neg (not_not.2 hblank), if_pos (hmoves.hasProvider_eq.trans hprovider)]

/-- A field that is not blank has not been touched. -/
theorem TokenStore.Moves.field_eq (h : s.Moves t) (htyped : strip t.field ≠ "") : t.field = s.field := by
  cases h with
  | moved => exact absurd strip_empty htyped
  | _ => rfl

/-- A reader after it has read the field. -/
theorem TokenStore.Moves.fits_read (h : s.Moves t) :
    (TokenPhase.afterField s.hasProvider t.field).Fits s t := by
  unfold TokenPhase.afterField
  split_ifs with htyped hprovider hprovider
  · have hfield := h.field_eq htyped
    rw [hfield] at htyped ⊢
    exact ⟨rfl, htyped, hprovider⟩
  · have hfield := h.field_eq htyped
    rw [hfield] at htyped ⊢
    exact (token_of_typed htyped).symm
  · exact ⟨hprovider, not_not.1 htyped⟩
  · change "" = s.token
    rw [← h.token_eq]
    unfold token
    rw [if_neg htyped, if_neg (h.hasProvider_eq ▸ hprovider)]

/-- What a reader knows of the store stays so, whatever others do. -/
theorem TokenPhase.Fits.mono (h : phase.Fits s t) (hfield : strip t.field = "" → strip u.field = "")
    (hkeychain : t.keychain = u.keychain ∨ u.keychain = some (strip s.field)) : phase.Fits s u := by
  cases phase with
  | moved token =>
    obtain ⟨htoken, htyped, hprovider, hstored⟩ := h
    refine ⟨htoken, htyped, hprovider, ?_⟩
    rcases hkeychain with hsame | hnew
    · rw [← hsame, hstored]
    · rw [hnew, htoken]
  | untyped => exact ⟨h.1, hfield h.2⟩
  | known =>
    obtain ⟨hprovider, hblank, hknown⟩ := h
    refine ⟨hprovider, hfield hblank, ?_⟩
    rcases hkeychain with hsame | hnew
    · rw [← hsame, hknown]
    · rw [hnew]
      rfl
  | _ => exact h

/-- One operation of a reader: the store keeps the token, and all readers fit it. -/
theorem TokenStore.Moves.step {o : TokenOp} {a : o.Ans} (hmoves : s.Moves t) (hphase : phase.Fits s t)
    (hallowed : phase.allows o) (hanswers : t.Answers o a u) :
    s.Moves u ∧ (phase.next o a).Fits s u ∧ ∀ other : TokenPhase, other.Fits s t → other.Fits s u := by
  cases o with
  | findProvider =>
    obtain ⟨rfl, rfl⟩ := hanswers
    refine ⟨hmoves, ?_, fun _ h => h⟩
    cases phase with
    | start => exact hmoves.hasProvider_eq
    | _ => cases hallowed
  | getString =>
    obtain ⟨rfl, rfl⟩ := hanswers
    refine ⟨hmoves, ?_, fun _ h => h⟩
    cases phase with
    | found hasProvider =>
      obtain rfl : hasProvider = s.hasProvider := hphase
      exact hmoves.fits_read
    | _ => cases hallowed
  | storeData token =>
    cases phase with
    | typed typed =>
      obtain ⟨htoken, htyped, hprovider⟩ := hphase
      obtain rfl : token = typed := hallowed
      subst htoken
      cases a with
      | true =>
        obtain rfl : u = { t with keychain := some (strip s.field) } := hanswers
        refine ⟨?_, ⟨rfl, htyped, hprovider, rfl⟩, fun _ h => h.mono id (Or.inr rfl)⟩
        cases hmoves with
        | kept => exact .stored htyped hprovider
        | stored => exact .stored htyped hprovider
        | moved => exact .moved htyped hprovider
      | false =>
        obtain rfl : u = t := hanswers
        exact ⟨hmoves, (token_of_typed htyped).symm, fun _ h => h⟩
    | _ => cases hallowed
  | reset =>
    cases phase with
    | moved token =>
      obtain ⟨rfl, htyped, hprovider, hstored⟩ := hphase
      obtain rfl : u = { t with field := "" } := hanswers
      refine ⟨?_, (token_of_typed htyped).symm, fun _ h => h.mono (fun _ => strip_empty) (Or.inl rfl)⟩
      have hmoved : { t with field := "" } = s.withMoved := by
        rw [TokenStore.withMoved, TokenStore.withStored]
        congr 1
        exact hmoves.hasProvider_eq
      rw [hmoved]
      exact .moved htyped hprovider
    | _ => cases hallowed
  | hasData =>
    obtain ⟨rfl, rfl⟩ := hanswers
    refine ⟨hmoves, ?_, fun _ h => h⟩
    cases phase with
    | untyped =>
      obtain ⟨hprovider, hblank⟩ := hphase
      have htoken := token_eq_of_blank hmoves hprovider hblank
      cases hkeychain : u.keychain with
      | none =>
        rw [hkeychain] at htoken
        exact htoken.symm
      | some token => exact ⟨hprovider, hblank, by rw [hkeychain]; rfl⟩
    | _ => cases hallowed
  | getData =>
    obtain ⟨rfl, rfl⟩ := hanswers
    refine ⟨hmoves, ?_, fun _ h => h⟩
    cases phase with
    | known => exact (token_eq_of_blank hmoves hphase.1 hphase.2.1).symm
    | _ => cases hallowed

end Store

/-! ## All readers -/

abbrev TokenPool (τ : Type) := Pool τ TokenI PyError String TokenStore

section Readers

variable {τ : Type} [DecidableEq τ]

/-- Readers that have not begun. -/
def AllReaders (p : TokenPool τ) : Prop := ∀ t prog, p.threads t = some prog → prog = migrateToken

def tokenStep (p : TokenPool τ) (l : τ × Event TokenI) (q : TokenPool τ) : Prop := p.OpStep tokenSem l.1 l.2.1 l.2.2 q

/-- All readers fit the store, which has only been moved. -/
def TokenInv (s : TokenStore) : Pool.Relates tokenProtocol τ TokenStore :=
  fun _ phase t => s.Moves t ∧ ∀ r : τ, (phase r : TokenPhase).Fits s t

/-- However many read the token at once, they all get it, and the store keeps it: the typed token stays where it is,
or is in the keychain as well, or is in the keychain alone. -/
theorem tokenIsKept {p q : TokenPool τ} {tr : List (τ × Event TokenI)} (hp : AllReaders p)
    (hrun : Steps tokenStep p tr q) :
    p.shared.Moves q.shared ∧ q.shared.token = p.shared.token ∧
      ∀ t, (∀ e, q.threads t ≠ some (.raise e)) ∧
        ∀ token, q.threads t = some (.ret token) → token = p.shared.token := by
  have hstart : p.Tracked tokenProtocol (fun _ => TokenRead) (TokenInv p.shared) [] fun _ => TokenPhase.start :=
    ⟨fun t prog ht => hp t prog ht ▸ migrateToken_follows, .kept, fun _ => trivial⟩
  have hrun' : Steps (Pool.stepWhen tokenSem fun _ _ => True) p tr q := hrun.mono fun _ _ _ hstep => ⟨trivial, hstep⟩
  obtain ⟨phase, hfollows, hmoves, hfits⟩ := hstart.steps hrun' fun tr p' phase t o a s' htracked _ hallowed hsem => by
    obtain ⟨hmoves, hfits⟩ := htracked.2
    obtain ⟨hmoves', hnext, hothers⟩ := hmoves.step (hfits t) hallowed hsem
    refine ⟨hmoves', fun r => ?_⟩
    by_cases hrt : r = t
    · subst hrt
      rw [Function.update_self]
      exact hnext
    · rw [Function.update_of_ne hrt]
      exact hothers _ (hfits r)
  refine ⟨hmoves, hmoves.token_eq, fun t => ⟨fun e ht => ?_, fun token ht => ?_⟩⟩
  · obtain ⟨token, hout, -⟩ := hfollows t _ ht
    cases hout
  · obtain ⟨token', hout, hphase⟩ := hfollows t _ ht
    obtain rfl := Outcome.returned.inj hout
    have h := hfits t
    rw [hphase] at h
    exact h

end Readers

/-! ## Two readers -/

/-- A keychain that stores whatever it is given. -/
def tokenHandler : Handler TokenI TokenStore
  | .findProvider, s => (s.hasProvider, s)
  | .getString, s => (s.field, s)
  | .storeData token, s => (true, { s with keychain := some token })
  | .reset, s => ((), { s with field := "" })
  | .hasData, s => (s.keychain.isSome, s)
  | .getData, s => (s.keychain.getD "", s)

theorem tokenHandler_sem (s : TokenStore) (o : TokenOp) : tokenSem s o (tokenHandler o s).1 (tokenHandler o s).2 := by
  cases o with
  | storeData => rfl
  | reset => rfl
  | _ => exact ⟨rfl, rfl⟩

/-- The user has typed a token, and a visit and a command read it at once. -/
def twoReaders : TokenPool Bool := ⟨⟨" t0k ", true, none⟩, fun _ => some migrateToken⟩

/-- The second reader finds the field cleared by the first. -/
def twoReads : List Bool := [true, false, true, true, true, false, false, false]

theorem tokenIsKept_twoReaders :
    (twoReaders.runs (fun _ => tokenHandler) twoReads).shared = ⟨"", true, some "t0k"⟩ ∧
      (∀ t, ((twoReaders.runs (fun _ => tokenHandler) twoReads).returned t).isSome = true) ∧
      ∀ t token, (twoReaders.runs (fun _ => tokenHandler) twoReads).threads t = some (.ret token) → token = "t0k" := by
  have hready : twoReaders.allReady (fun _ => tokenHandler) (fun _ _ _ => true) twoReads = true := by decide
  have hkept := tokenIsKept (fun _ _ h => (Option.some.inj h).symm)
    (Pool.steps_runs (fun _ s o _ => tokenHandler_sem s o) hready)
  have htoken : twoReaders.shared.token = "t0k" := by decide
  refine ⟨by decide, by decide, fun t token ht => ?_⟩
  rw [(hkept.2.2 t).2 token ht, htoken]

end McritSimilarity
