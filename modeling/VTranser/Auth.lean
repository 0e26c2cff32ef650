import VTranser.Text

/-!
# The stored session

The session of the signed-in account is in the storage under `vtAuth` and in a
global of the side panel. Five operations read one of the two, wait, and write:
login, logout, the profile dialog, and what follows each new session, the search
for a user id and the look at the database; the service worker adds a user id of
its own accord. `Task` says where an operation waits and what it keeps meanwhile.

A step begins an operation or lets one go on. What the storage of user ids, the
database and the user answer is in the label.

The payload of every login is marked: tokens with its number, a profile with the
numbers of all logins whose data are in it. No function reads the marks.
-/

namespace VTranser.Auth

/-! ## Sessions -/

structure Profile where
  email : JsStr
  id : JsStr
  provider : JsStr
  userId : JsStr
  dbUserId : JsStr
  name : JsStr
  picture : JsStr
  phone : JsStr
  sources : List Nat
  deriving DecidableEq, Repr

structure Tokens where
  accessToken : JsStr
  login : Nat
  deriving DecidableEq, Repr

/-- A session; one that is made from no session has no tokens. -/
structure Session where
  provider : JsStr
  profile : Profile
  tokens : Option Tokens
  deriving DecidableEq, Repr

structure Config where
  toLowerCase : JsStr → JsStr
  supaReady : Bool
  isSupabaseToken : JsStr → Bool

/-- `{ ...(currentSession || {}), profile }` -/
def mergedSession (current : Option Session) (profile : Profile) : Session :=
  match current with
  | some cur => { cur with profile }
  | none => ⟨[], profile, none⟩

def isDigit (u : UInt16) : Bool := 0x30 ≤ u.toNat && u.toNat ≤ 0x39

/-- `parseNumericId` -/
def parseNumericId (v : JsStr) : JsStr :=
  let s := jsTrim v
  if s.all isDigit then s else []

def Profile.withUserId (p : Profile) (uid : JsStr) : Profile :=
  { p with userId := uid, dbUserId := uid }

/-! ## The profile dialog -/

structure Form where
  id : JsStr
  fullName : JsStr
  avatarUrl : JsStr
  phone : JsStr
  deriving DecidableEq, Repr

def normalizePhone (v : JsStr) : JsStr := v.filter isDigit

def phoneValueValid (v : JsStr) : Bool :=
  let s := jsTrim v
  s.isEmpty || s.all isDigit && 8 ≤ s.length && s.length ≤ 20

/-- A prefix in which upper and lower case are the same. -/
def startsWithAnyCase (prefix' s : JsStr) : Bool :=
  let lower (u : UInt16) : Nat :=
    if 0x41 ≤ u.toNat ∧ u.toNat ≤ 0x5A then u.toNat + 32 else u.toNat
  (prefix'.map lower).isPrefixOf (s.map lower)

def avatarUrlValid (url : JsStr) : Bool :=
  let s := jsTrim url
  s.isEmpty || startsWithAnyCase (jsText "http://") s ||
    startsWithAnyCase (jsText "https://") s || startsWithAnyCase (jsText "data:image/") s

/-- Whether `saveMyAccount` goes on with the form, and what it then holds. -/
def checkForm (form : Form) : Option Form :=
  let fullName := jsTrim form.fullName
  let avatarUrl := jsTrim form.avatarUrl
  let phone := normalizePhone (jsTrim form.phone)
  if form.id.isEmpty || fullName.length < 2 || !avatarUrlValid avatarUrl ||
      !phoneValueValid phone then none
  else some { form with fullName, avatarUrl, phone }

/-! ## State -/

/-- Where an operation waits. `sources` are the marks of the profile for which a
row or a user id was asked. -/
inductive Task
  | login (sess : Session)
  | adopt (stored : Option Session)
  | logout
  | backfillMapped (prof : Profile)
  | backfillUser (prof : Profile)
  | backfillMap (merged : Session)
  | backfillSaved
  | syncUser (sources : List Nat)
  | syncRow (sources : List Nat)
  | syncSaved (sess : Session)
  | saveUser (form : Form) (sources : List Nat)
  | saveRow (form : Form) (sources : List Nat) (phone : JsStr)
  | saveSaved (sess : Session)
  | patchAsked (sources : List Nat)
  | patchRead (raw : Option Session) (uid : JsStr) (sources : List Nat)
  deriving DecidableEq, Repr

structure State where
  vtAuth : Option Session
  current : Option Session
  tasks : List Task
  logins : Nat
  loggedIn : Bool

def State.init : State := ⟨none, none, [], 0, false⟩

/-- What an operation that waits is told. -/
inductive Reply
  | done
  | failed
  | id (v : JsStr)
  | phone (v : JsStr)
  | row (fullName avatarUrl : JsStr)
  deriving DecidableEq, Repr

inductive Label
  | login (user : Profile) (provider accessToken : JsStr)
  | adopt
  | logout
  | save (form : Form)
  | patch
  | resume (i : Nat) (reply : Reply)
  deriving DecidableEq, Repr

/-! ## The operations up to their next wait -/

section

variable (cfg : Config)

/-- `syncProfileFromDB` up to its first wait. -/
def syncProfileFromDB (st : State) : Option Task :=
  match st.current with
  | some cur =>
      if cfg.supaReady && !(cfg.toLowerCase (jsTrim cur.profile.email)).isEmpty then
        some (.syncUser cur.profile.sources)
      else none
  | none => none

/-- `setSession` after the search for a user id. -/
def afterBackfill (st : State) : Option Task :=
  match st.current with
  | some cur =>
      if cur.tokens.any fun t => cfg.isSupabaseToken t.accessToken then syncProfileFromDB cfg st
      else none
  | none => none

/-- `tryBackfillSessionUserId` up to its first wait, and what follows if there is
none. -/
def tryBackfillSessionUserId (cur : Session) (st : State) : State × Option Task :=
  let prof := cur.profile
  let email := cfg.toLowerCase (jsTrim prof.email)
  let provider := cfg.toLowerCase (jsTrim (orText cur.provider prof.provider))
  let byId := if provider.isEmpty || provider = jsText "email" || provider = jsText "local" then
      parseNumericId prof.id else []
  if !(parseNumericId prof.userId).isEmpty || !(parseNumericId prof.dbUserId).isEmpty then
    (st, afterBackfill cfg st)
  else if !byId.isEmpty then
    let merged := mergedSession st.current (prof.withUserId byId)
    let st := { st with current := some merged }
    if email.isEmpty then ({ st with vtAuth := some merged }, some .backfillSaved)
    else (st, some (.backfillMap merged))
  else if email.isEmpty then (st, afterBackfill cfg st)
  else (st, some (.backfillMapped prof))

def setSession (sess : Option Session) (st : State) : State × Option Task :=
  let st := { st with current := sess }
  match sess with
  | some cur => tryBackfillSessionUserId cfg cur st
  | none => (st, none)

/-- The rest of `tryBackfillSessionUserId` when the storage knew the id. -/
def backfillMapped (prof : Profile) (uid : JsStr) (st : State) : State × Option Task :=
  let merged := mergedSession st.current (prof.withUserId uid)
  ({ st with current := some merged, vtAuth := some merged }, some .backfillSaved)

/-- The same when the database knew it: the storage is read once more first. -/
def backfillUser (prof : Profile) (uid : JsStr) (st : State) : State × Option Task :=
  let merged := mergedSession st.current (prof.withUserId uid)
  ({ st with current := some merged }, some (.backfillMap merged))

/-- The rest of `syncProfileFromDB`. Without a session it throws. -/
def syncRow (sources : List Nat) (fullName avatarUrl : JsStr) (st : State) :
    State × Option Task :=
  let fullName := jsTrim fullName
  let avatarUrl := jsTrim avatarUrl
  match st.current with
  | some cur =>
      if fullName.isEmpty && avatarUrl.isEmpty then (st, none)
      else
        let merged := { cur.profile with
          name := orText fullName cur.profile.name
          picture := orText avatarUrl cur.profile.picture
          sources := cur.profile.sources ++ sources }
        let sess := { cur with profile := merged }
        ({ st with vtAuth := some sess }, some (.syncSaved sess))
  | none => (st, none)

/-- The rest of `saveMyAccount`. Without a session it throws. -/
def saveRow (form : Form) (sources : List Nat) (phone fullName avatarUrl : JsStr) (st : State) :
    State × Option Task :=
  match st.current with
  | some cur =>
      let profile := { cur.profile with
        name := orText fullName form.fullName
        picture := orText avatarUrl form.avatarUrl
        phone := orText phone form.phone
        sources := cur.profile.sources ++ sources }
      let sess := { cur with profile }
      ({ st with vtAuth := some sess }, some (.saveSaved sess))
  | none => (st, none)

/-- The rest of `patchStoredSessionUserId`. -/
def patchRead (raw : Option Session) (uid : JsStr) (sources : List Nat) (st : State) : State :=
  match raw with
  | some s =>
      if parseNumericId s.profile.userId = uid ∧ parseNumericId s.profile.dbUserId = uid then st
      else
        let profile := { s.profile.withUserId uid with sources := s.profile.sources ++ sources }
        { st with vtAuth := some { s with profile } }
  | none => st

/-- An operation goes on with what it is told. -/
def resume (task : Task) (reply : Reply) (st : State) : State × Option Task :=
  match task, reply with
  | .login sess, _ => setSession cfg (some sess) st
  | .adopt stored, _ => setSession cfg stored st
  | .logout, _ => setSession cfg none st
  | .backfillMapped prof, .id v =>
      if (parseNumericId v).isEmpty then (st, some (.backfillUser prof))
      else backfillMapped prof (parseNumericId v) st
  | .backfillMapped prof, _ => (st, some (.backfillUser prof))
  | .backfillUser prof, .id v =>
      if (parseNumericId v).isEmpty then (st, afterBackfill cfg st)
      else backfillUser prof (parseNumericId v) st
  | .backfillUser _, _ => (st, afterBackfill cfg st)
  | .backfillMap merged, _ => ({ st with vtAuth := some merged }, some .backfillSaved)
  | .backfillSaved, _ => (st, afterBackfill cfg st)
  | .syncUser sources, .id v => (st, if v.isEmpty then none else some (.syncRow sources))
  | .syncUser _, _ => (st, none)
  | .syncRow sources, .row fullName avatarUrl => syncRow sources fullName avatarUrl st
  | .syncRow _, _ => (st, none)
  | .syncSaved sess, _ => ({ st with current := some sess }, none)
  | .saveUser form sources, .phone v => (st, some (.saveRow form sources v))
  | .saveUser _ _, _ => (st, none)
  | .saveRow form sources phone, .row fullName avatarUrl =>
      saveRow form sources phone fullName avatarUrl st
  | .saveRow .., _ => (st, none)
  | .saveSaved sess, _ => setSession cfg (some sess) st
  | .patchAsked sources, .id v =>
      (st, if (parseNumericId v).isEmpty then none
        else some (.patchRead st.vtAuth (parseNumericId v) sources))
  | .patchAsked _, _ => (st, none)
  | .patchRead raw uid sources, _ => (patchRead raw uid sources st, none)

/-! ## Steps -/

/-- The session of a `VT_AUTH_SUCCESS` message. -/
def loginSession (user : Profile) (provider accessToken : JsStr) (login : Nat) : Session where
  provider := cfg.toLowerCase (jsTrim (orText provider user.provider))
  profile := { user with sources := [login] }
  tokens := some ⟨accessToken, login⟩

def step (st : State) : Label → Option State
  | .login user provider accessToken =>
      let sess := loginSession cfg user provider accessToken (st.logins + 1)
      some { st with
        vtAuth := some sess, logins := st.logins + 1, loggedIn := true,
        tasks := st.tasks ++ [.login sess] }
  | .adopt => some { st with tasks := st.tasks ++ [.adopt st.vtAuth] }
  | .logout => some { st with vtAuth := none, loggedIn := false, tasks := st.tasks ++ [.logout] }
  | .save form =>
      match st.current, checkForm form with
      | some cur, some form =>
          some { st with tasks := st.tasks ++ [.saveUser form cur.profile.sources] }
      | _, _ => none
  | .patch => st.vtAuth.map fun s =>
      { st with tasks := st.tasks ++ [.patchAsked s.profile.sources] }
  | .resume i reply =>
      st.tasks[i]?.map fun task =>
        let (st, next) := resume cfg task reply st
        { st with tasks := match next with
          | some task => st.tasks.set i task
          | none => st.tasks.eraseIdx i }

end

end VTranser.Auth
