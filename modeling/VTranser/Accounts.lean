import VTranser.Lib.Tasks
import VTranser.Password

/-!
# Signing up and logging in

The frame for accounts asks the table of users, waits, and goes on; so several of its
calls may be under way at once. `Task` says where a call waits and what it keeps. What
is answered, and the salt of a new password record, are in the label of a step.

`made` has for each row that a sign-up made the password that was typed then, `accepted`
the passwords with which a login got on. No function reads them.
-/

namespace VTranser.Accounts

open Tasks Regex

structure Config where
  browser : Password.Browser
  toLowerCase : JsStr → JsStr

/-! ## What is typed -/

section

variable (cfg : Config)

/-- `[^\s@]` -/
def plain (n : Nat) : Bool := !jsSpace n && n != 0x40

/-- `/^[^\s@]+@[^\s@]+\.[^\s@]{2,}$/` -/
def emailRe : Re UInt16 :=
  .seq (.plus (onUnit plain)) <| .seq (.cls (· == 0x40)) <| .seq (.plus (onUnit plain)) <|
    .seq (.cls (· == 0x2E)) <| .seq (.cls (onUnit plain)) <| .seq (.plus (onUnit plain)) jsEnd

def normalizedEmail (v : JsStr) : JsStr := cfg.toLowerCase (jsTrim v)

def emailLooksOk (email : JsStr) : Bool :=
  !(emailRe.rests (normalizedEmail cfg email)).isEmpty

/-- `[\s\-().]` -/
def phonePunctuation (n : Nat) : Bool := jsSpace n || [0x2D, 0x28, 0x29, 0x2E].contains n

def normalizedPhone (v : JsStr) : JsStr :=
  match (jsTrim v).filter (fun u => !onUnit phonePunctuation u) with
  | [] => []
  | u :: s => if u = 0x2B then 0x2B :: s.filter Auth.isDigit else (u :: s).filter Auth.isDigit

/-- `/^\+?[0-9]{8,15}$/` -/
def phoneShape (s : JsStr) : Bool :=
  let ds := if s.head? = some 0x2B then s.tail else s
  ds.all Auth.isDigit && 8 ≤ ds.length && ds.length ≤ 15

def phoneLooksOk (phone : JsStr) : Bool := phoneShape (normalizedPhone phone)

inductive Account
  | email (value : JsStr)
  | phone (value : JsStr)
  deriving DecidableEq, Repr

def Account.value : Account → JsStr
  | email value | phone value => value

def parseAccountInput (v : JsStr) : Option Account :=
  let raw := jsTrim v
  if raw.isEmpty then none
  else if emailLooksOk cfg (normalizedEmail cfg raw) then some (.email (normalizedEmail cfg raw))
  else if phoneLooksOk (normalizedPhone raw) then some (.phone (normalizedPhone raw))
  else none

/-- `[a-z]`, `[A-Z]` -/
def isLower (u : UInt16) : Bool := 0x61 ≤ u.toNat && u.toNat ≤ 0x7A

def isUpper (u : UInt16) : Bool := 0x41 ≤ u.toNat && u.toNat ≤ 0x5A

/-- `passwordPolicy(pw).ok` -/
def passwordPolicy (pw : JsStr) : Bool :=
  8 ≤ pw.length && pw.any isLower && pw.any isUpper && pw.any Auth.isDigit &&
    pw.any fun u => !(isLower u || isUpper u || Auth.isDigit u)

end

/-! ## Rows -/

/-- A row of `users`; what is `null` there is empty. -/
structure UserRow where
  id : Nat
  email : JsStr
  phone : JsStr
  passwordHash : JsStr
  status : JsStr
  deriving DecidableEq, Repr

/-- The row is found by an account; `null` is not. -/
def UserRow.has (cfg : Config) (u : UserRow) : Account → Bool
  | .email value => !u.email.isEmpty && u.email = normalizedEmail cfg value
  | .phone value => !u.phone.isEmpty && u.phone = normalizedPhone value

/-- `u.status && u.status !== "active"` is false. -/
def UserRow.active (u : UserRow) : Bool := u.status.isEmpty || u.status = jsText "active"

structure Profile where
  id : JsStr
  email : JsStr
  phone : JsStr
  name : JsStr
  userId : JsStr
  deriving DecidableEq, Repr

/-- The text of a number, which `normalizeDbUserId` takes as it is. -/
def idText (id : Nat) : JsStr := jsText (toString id)

def profileFromUserRow (cfg : Config) (u : UserRow) : Profile :=
  let email := normalizedEmail cfg u.email
  let phone := normalizedPhone u.phone
  let nameSeed := orText email (orText phone (jsText "user"))
  { id := idText u.id
    email := email
    phone := phone
    name := nameSeed.takeWhile (· ≠ 0x40)
    userId := idText u.id }

/-- Why a login fails. -/
inductive Failure
  | userNotFound
  | status (s : JsStr)
  | badPassword
  deriving DecidableEq, Repr

/-- A row of `auth_logins`. -/
structure AuthLogin where
  userId : Option Nat
  failure : Option Failure
  deriving DecidableEq, Repr

/-! ## Calls -/

/-- A call that waits for an answer. -/
inductive Task
  | signupSelect (account : Account) (pw : JsStr)
  | signupInsert (account : Account) (pw passwordHash : JsStr)
  | loginSelect (account : Account) (pw : JsStr)
  | loginUpdate (u : UserRow)
  /-- A row for `auth_logins`, and who is logged in then. -/
  | loginRecord (row : AuthLogin) (u : Option UserRow)
  | setSession (u : UserRow)
  deriving DecidableEq, Repr

structure State where
  users : List UserRow
  authLogins : List AuthLogin
  session : Option Profile
  tasks : List Task
  made : List (Nat × JsStr)
  accepted : List (Nat × Account × JsStr)

/-- The state with some users. -/
def State.init (users : List UserRow) : State := ⟨users, [], none, [], [], []⟩

/-- What is answered: nothing, an error, what was asked for, or the number of a new row.
A new password record gets the salt. -/
inductive Reply
  | failed
  | error
  | ok (salt : List UInt8)
  | created (id : Nat)
  deriving DecidableEq, Repr

inductive Label
  | signup (accountRaw pw pw2 : JsStr)
  | login (accountRaw pw : JsStr)
  | resume (i : Nat) (r : Reply)
  /-- Somebody else changes the status of a user. -/
  | setStatus (id : Nat) (status : JsStr)
  deriving DecidableEq, Repr

namespace State

variable (cfg : Config)

/-- `doEmailSignup` up to its first `await`. -/
def doEmailSignup (accountRaw pw pw2 : JsStr) (st : State) : State :=
  match parseAccountInput cfg accountRaw with
  | none => st
  | some account =>
      if passwordPolicy pw && pw = pw2 then
        { st with tasks := st.tasks ++ [.signupSelect account pw] }
      else st

/-- `doEmailLogin` up to its first `await`. -/
def doEmailLogin (accountRaw pw : JsStr) (st : State) : State :=
  match parseAccountInput cfg accountRaw with
  | none => st
  | some account =>
      if pw.isEmpty then st else { st with tasks := st.tasks ++ [.loginSelect account pw] }

/-- The row with an account, if there is one. -/
def select (account : Account) (st : State) : Option UserRow :=
  st.users.find? fun u => u.has cfg account

/-- The row of a new user. -/
def newRow (account : Account) (passwordHash : JsStr) (id : Nat) : UserRow :=
  match account with
  | .email value => ⟨id, normalizedEmail cfg value, [], passwordHash, jsText "active"⟩
  | .phone value => ⟨id, [], normalizedPhone value, passwordHash, jsText "active"⟩

/-- `supaInsertUser` -/
def insertUser (account : Account) (pw passwordHash : JsStr) (id : Nat) (st : State) : State :=
  { st with
    users := st.users ++ [newRow cfg account passwordHash id]
    made := st.made ++ [(id, pw)] }

/-- `doEmailLogin` has its user, or none. -/
def checkUser (account : Account) (pw : JsStr) (st : State) : State × Option Task :=
  match st.select cfg account with
  | none => (st, some (.loginRecord ⟨none, some .userNotFound⟩ none))
  | some u =>
      if !u.active then (st, some (.loginRecord ⟨some u.id, some (.status u.status)⟩ none))
      else
        match Password.verifyPassword cfg.browser pw u.passwordHash with
        | none => (st, none)
        | some false => (st, some (.loginRecord ⟨some u.id, some .badPassword⟩ none))
        | some true =>
            ({ st with accepted := st.accepted ++ [(u.id, account, pw)] }, some (.loginUpdate u))

/-- A call goes on. -/
def resume (r : Reply) (st : State) : Task → State × Option Task
  | .signupSelect account pw =>
      match r with
      | .ok salt =>
          if (st.select cfg account).isSome then (st, none)
          else
            (st, some (.signupInsert account pw
              (Password.makePasswordHash cfg.browser salt pw)))
      | _ => (st, none)
  | .signupInsert account pw passwordHash =>
      match r with
      | .created id => (st.insertUser cfg account pw passwordHash id, none)
      | _ => (st, none)
  | .loginSelect account pw =>
      match r with
      | .ok _ => st.checkUser cfg account pw
      | _ => (st, none)
  | .loginUpdate u =>
      match r with
      -- An answer that is an error is only warned of.
      | .failed => (st, none)
      | _ => (st, some (.loginRecord ⟨some u.id, none⟩ (some u)))
  | .loginRecord row u =>
      let st := match r with
        | .ok _ => { st with authLogins := st.authLogins ++ [row] }
        | _ => st
      (st, u.map .setSession)
  | .setSession u => ({ st with session := some (profileFromUserRow cfg u) }, none)

def step (st : State) : Label → Option State
  | .signup accountRaw pw pw2 => some (st.doEmailSignup cfg accountRaw pw pw2)
  | .login accountRaw pw => some (st.doEmailLogin cfg accountRaw pw)
  | .resume i r => do
      let task ← st.tasks[i]?
      let (st', next) := st.resume cfg r task
      return { st' with tasks := goOn st'.tasks i next }
  | .setStatus id status =>
      some { st with
        users := st.users.map fun u => if u.id = id then { u with status := status } else u }

end State

end VTranser.Accounts
