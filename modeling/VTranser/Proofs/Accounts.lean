import VTranser.Accounts
import VTranser.Lib.Run
import VTranser.Proofs.Password

/-!
# Who can log in

Rows are added, and only their status is changed. So what a call has read of a row
stays true of it while the call waits: the account it was found by, the password that
its record verifies. The table refuses a second row for an account, whatever two
sign-ups have read before; what a login finds is then the row of the account.
-/

namespace VTranser.Accounts

open Tasks Run

variable {cfg : Config}

/-- A record verifies the password it was made of. -/
theorem verifyPassword_self (browser : Password.Browser) (salt : List UInt8) (pw : JsStr) :
    Password.verifyPassword browser pw (Password.makePasswordHash browser salt pw) = some true := by
  have hiters : Password.toNumber browser (jsText (toString Password.pbkdf2Iters)) =
      some (Password.pbkdf2Iters : Rat) := by
    have hvalue : (jsText (toString Password.pbkdf2Iters)).foldl
        (fun n u => 10 * n + (u.toNat - 0x30)) 0 = Password.pbkdf2Iters := by decide +kernel
    rw [Password.toNumber, if_pos (by decide +kernel), hvalue]
  have hpos : (Password.pbkdf2Iters : Rat) ≠ 0 := by decide
  rw [Password.verifyPassword, Password.splitOn_makePasswordHash]
  dsimp only
  rw [if_neg (by simp), hiters, Password.base64urlToBytes_base64url]
  simp [hpos]

/-! ## Rows -/

/-- What does not change of a row. -/
def UserRow.core (u : UserRow) : Nat × JsStr × JsStr × JsStr :=
  (u.id, u.email, u.phone, u.passwordHash)

/-- The row verifies a password. -/
def UserRow.Verifies (cfg : Config) (u : UserRow) (pw : JsStr) : Prop :=
  Password.verifyPassword cfg.browser pw u.passwordHash = some true

section Core

variable {u v : UserRow}

theorem core_eq : u.core = v.core ↔
    u.id = v.id ∧ u.email = v.email ∧ u.phone = v.phone ∧ u.passwordHash = v.passwordHash := by
  simp only [UserRow.core, Prod.mk.injEq]

theorem has_of_core (h : u.core = v.core) (account : Account) :
    u.has cfg account = v.has cfg account := by
  obtain ⟨-, hemail, hphone, -⟩ := core_eq.mp h
  cases account with
  | email value => simp only [UserRow.has, hemail]
  | phone value => simp only [UserRow.has, hphone]

theorem verifies_of_core (h : u.core = v.core) {pw : JsStr} (hpw : u.Verifies cfg pw) :
    v.Verifies cfg pw := by
  rw [UserRow.Verifies, ← (core_eq.mp h).2.2.2]
  exact hpw

theorem profile_of_core (h : u.core = v.core) :
    profileFromUserRow cfg u = profileFromUserRow cfg v := by
  obtain ⟨hid, hemail, hphone, -⟩ := core_eq.mp h
  simp only [profileFromUserRow, hid, hemail, hphone]

end Core

/-- Two rows have nothing in common by which one is found. -/
def Apart (cfg : Config) (u v : UserRow) : Prop :=
  u.id ≠ v.id ∧ ∀ account, ¬ (u.has cfg account = true ∧ v.has cfg account = true)

theorem apart_newRow {u : UserRow} {account : Account} {passwordHash : JsStr} {id : Nat}
    (hid : u.id ≠ id) (hu : u.has cfg account = false) :
    Apart cfg u (State.newRow cfg account passwordHash id) := by
  refine ⟨?_, ?_⟩
  · cases account <;> exact hid
  · rintro account' ⟨hu', hnew⟩
    -- The new row is found by its own account only, which is nobody else's.
    have hsame : u.has cfg account' = u.has cfg account := by
      cases account with
      | email value =>
          cases account' with
          | email value' =>
              rw [UserRow.has, Bool.and_eq_true] at hnew
              rw [UserRow.has, UserRow.has, ← of_decide_eq_true hnew.2]
              rfl
          | phone value' => simp [UserRow.has, State.newRow] at hnew
      | phone value =>
          cases account' with
          | email value' => simp [UserRow.has, State.newRow] at hnew
          | phone value' =>
              rw [UserRow.has, Bool.and_eq_true] at hnew
              rw [UserRow.has, UserRow.has, ← of_decide_eq_true hnew.2]
              rfl
    rw [hsame, hu] at hu'
    cases hu'

/-! ## What holds in a run -/

namespace State

variable {st st' : State}

/-- A user that a login has got on with. -/
def Admitted (st : State) (u : UserRow) : Prop :=
  (∃ v ∈ st.users, v.core = u.core) ∧ ∃ account pw, (u.id, account, pw) ∈ st.accepted

/-- What a call that waits may rely on. -/
def TaskSound (cfg : Config) (st : State) : Task → Prop
  | .signupSelect _ pw => passwordPolicy pw = true
  | .signupInsert _ pw passwordHash =>
      passwordPolicy pw = true ∧ Password.verifyPassword cfg.browser pw passwordHash = some true
  | .loginSelect .. => True
  | .loginUpdate u | .setSession u => st.Admitted u
  | .loginRecord row none => row.failure ≠ none
  | .loginRecord row (some u) => row.userId = some u.id ∧ st.Admitted u

/-- What is in the tables and in the storage. -/
structure TablesSound (cfg : Config) (st : State) : Prop where
  apart : st.users.Pairwise (Apart cfg)
  made : ∀ m ∈ st.made, passwordPolicy m.2 = true ∧
    ∃ u ∈ st.users, u.id = m.1 ∧ u.Verifies cfg m.2
  accepted : ∀ a ∈ st.accepted, ∃ u ∈ st.users,
    u.id = a.1 ∧ u.has cfg a.2.1 = true ∧ u.Verifies cfg a.2.2
  logins : ∀ row ∈ st.authLogins, row.failure = none →
    ∃ a ∈ st.accepted, row.userId = some a.1
  session : ∀ p ∈ st.session, ∃ a ∈ st.accepted, ∃ u ∈ st.users,
    u.id = a.1 ∧ p = profileFromUserRow cfg u

/-- Nothing is taken away. -/
structure Grows (st st' : State) : Prop where
  rows : ∀ u ∈ st.users, ∃ v ∈ st'.users, v.core = u.core
  accepted : ∀ a ∈ st.accepted, a ∈ st'.accepted

theorem Grows.refl : Grows st st := ⟨fun u hu => ⟨u, hu, rfl⟩, fun _ => id⟩

theorem Admitted.grows {u : UserRow} (h : st.Admitted u) (hg : Grows st st') : st'.Admitted u := by
  obtain ⟨⟨v, hv, hcore⟩, account, pw, haccepted⟩ := h
  obtain ⟨w, hw, hcore'⟩ := hg.rows v hv
  exact ⟨⟨w, hw, hcore'.trans hcore⟩, account, pw, hg.accepted _ haccepted⟩

theorem TaskSound.grows {task : Task} (h : TaskSound cfg st task) (hg : Grows st st') :
    TaskSound cfg st' task := by
  cases task with
  | signupSelect | signupInsert | loginSelect => exact h
  | loginUpdate u | setSession u => exact Admitted.grows h hg
  | loginRecord row u =>
      cases u with
      | none => exact h
      | some u => exact ⟨h.1, h.2.grows hg⟩

/-- A row that was read is still there, with what is not changed. -/
theorem Grows.row {P : UserRow → Prop} (hg : Grows st st')
    (hP : ∀ u v : UserRow, v.core = u.core → P u → P v) (h : ∃ u ∈ st.users, P u) :
    ∃ u ∈ st'.users, P u := by
  obtain ⟨u, hu, hPu⟩ := h
  obtain ⟨v, hv, hcore⟩ := hg.rows u hu
  exact ⟨v, hv, hP u v hcore hPu⟩

/-- The tables after a step that adds neither passwords nor rows. -/
theorem TablesSound.grows (h : TablesSound cfg st) (hg : Grows st st')
    (hapart : st'.users.Pairwise (Apart cfg)) (hmade : st'.made = st.made)
    (haccepted : st'.accepted = st.accepted) (hlogins : st'.authLogins = st.authLogins)
    (hsession : st'.session = st.session) : TablesSound cfg st' where
  apart := hapart
  made m hm := by
    obtain ⟨hpolicy, hrow⟩ := h.made m (hmade ▸ hm)
    exact ⟨hpolicy, hg.row (fun u v hcore hu =>
      ⟨(core_eq.mp hcore).1.trans hu.1, verifies_of_core hcore.symm hu.2⟩) hrow⟩
  accepted a ha := hg.row (fun u v hcore hu =>
    ⟨(core_eq.mp hcore).1.trans hu.1, (has_of_core hcore _).trans hu.2.1,
      verifies_of_core hcore.symm hu.2.2⟩) (h.accepted a (haccepted ▸ ha))
  logins row hrow hnone := haccepted ▸ h.logins row (hlogins ▸ hrow) hnone
  session p hp := by
    obtain ⟨a, ha, hrow⟩ := h.session p (hsession ▸ hp)
    exact ⟨a, haccepted ▸ ha, hg.row (fun u v hcore hu =>
      ⟨(core_eq.mp hcore).1.trans hu.1, hu.2.trans (profile_of_core hcore).symm⟩) hrow⟩

/-! ### Steps -/

/-- The table has no row yet that is found by the account of a new one, or has its
number. -/
def InsertsNew (cfg : Config) (st : State) : Label → Prop
  | .resume i (.created id) => ∀ account pw passwordHash,
      st.tasks[i]? = some (.signupInsert account pw passwordHash) →
        ∀ u ∈ st.users, u.id ≠ id ∧ u.has cfg account = false
  | _ => True

/-- A row is inserted. -/
theorem TablesSound.insertUser (h : TablesSound cfg st) {account : Account} {pw passwordHash : JsStr}
    {id : Nat} (hpolicy : passwordPolicy pw = true)
    (hpw : Password.verifyPassword cfg.browser pw passwordHash = some true)
    (hnew : ∀ u ∈ st.users, u.id ≠ id ∧ u.has cfg account = false) :
    TablesSound cfg (st.insertUser cfg account pw passwordHash id) ∧
      Grows st (st.insertUser cfg account pw passwordHash id) := by
  have hkept : ∀ u ∈ st.users,
      u ∈ (st.insertUser cfg account pw passwordHash id).users := fun u hu =>
    List.mem_append_left _ hu
  have hrow : (newRow cfg account passwordHash id).id = id ∧
      (newRow cfg account passwordHash id).passwordHash = passwordHash := by
    cases account <;> exact ⟨rfl, rfl⟩
  refine ⟨⟨?_, fun m hm => ?_, fun a ha => ?_, h.logins, fun p hp => ?_⟩,
    fun u hu => ⟨u, hkept u hu, rfl⟩, fun _ ha => ha⟩
  · refine List.pairwise_append.mpr ⟨h.apart, List.pairwise_singleton .., fun u hu v hv => ?_⟩
    rw [List.mem_singleton.mp hv]
    exact apart_newRow (hnew u hu).1 (hnew u hu).2
  · rcases List.mem_append.mp hm with hm | hm
    · obtain ⟨hpol, u, hu, hmade⟩ := h.made m hm
      exact ⟨hpol, u, hkept u hu, hmade⟩
    · rw [List.mem_singleton.mp hm]
      refine ⟨hpolicy, _, List.mem_append_right _ (List.mem_singleton_self _), hrow.1, ?_⟩
      rw [UserRow.Verifies, hrow.2]
      exact hpw
  · obtain ⟨u, hu, ha⟩ := h.accepted a ha
    exact ⟨u, hkept u hu, ha⟩
  · obtain ⟨a, ha, u, hu, hp⟩ := h.session p hp
    exact ⟨a, ha, u, hkept u hu, hp⟩

/-- A login gets on. -/
theorem TablesSound.accept (h : TablesSound cfg st) {u : UserRow} {account : Account} {pw : JsStr}
    (hu : u ∈ st.users) (hhas : u.has cfg account = true) (hpw : u.Verifies cfg pw) :
    TablesSound cfg { st with accepted := st.accepted ++ [(u.id, account, pw)] } where
  apart := h.apart
  made := h.made
  accepted a ha := by
    rcases List.mem_append.mp ha with ha | ha
    · exact h.accepted a ha
    · rw [List.mem_singleton.mp ha]
      exact ⟨u, hu, rfl, hhas, hpw⟩
  logins row hrow hnone := by
    obtain ⟨a, ha, hid⟩ := h.logins row hrow hnone
    exact ⟨a, List.mem_append_left _ ha, hid⟩
  session p hp := by
    obtain ⟨a, ha, hrow⟩ := h.session p hp
    exact ⟨a, List.mem_append_left _ ha, hrow⟩

/-- The tables after a call has gone on, and what it waits for. -/
structure Resumed (cfg : Config) (st : State) (r : State × Option Task) : Prop where
  tables : TablesSound cfg r.1
  grows : Grows st r.1
  tasks : r.1.tasks = st.tasks
  next : ∀ task ∈ r.2, TaskSound cfg r.1 task

theorem Resumed.same (h : TablesSound cfg st) {next : Option Task}
    (hnext : ∀ task ∈ next, TaskSound cfg st task) : Resumed cfg st (st, next) :=
  ⟨h, .refl, rfl, hnext⟩

theorem checkUser_resumed (h : TablesSound cfg st) (account : Account) (pw : JsStr) :
    Resumed cfg st (st.checkUser cfg account pw) := by
  rw [checkUser]
  split
  · exact .same h fun task ht => by
      cases ht
      exact nofun
  · next u hselect =>
      split
      · exact .same h fun task ht => by
          cases ht
          exact nofun
      · split
        · exact .same h nofun
        · exact .same h fun task ht => by
            cases ht
            exact nofun
        · next hpw =>
            have hmem := List.mem_of_find?_eq_some hselect
            have hhas := List.find?_some hselect
            refine ⟨h.accept hmem hhas hpw, ⟨fun v hv => ⟨v, hv, rfl⟩, fun a ha =>
              List.mem_append_left _ ha⟩, rfl, fun task ht => ?_⟩
            cases ht
            exact ⟨⟨u, hmem, rfl⟩, account, pw, List.mem_append_right _ (List.mem_singleton_self _)⟩

theorem resume_resumed (h : TablesSound cfg st) {task : Task} (htask : TaskSound cfg st task)
    (r : Reply) (hnew : ∀ id account pw passwordHash, r = .created id →
      task = .signupInsert account pw passwordHash →
        ∀ u ∈ st.users, u.id ≠ id ∧ u.has cfg account = false) :
    Resumed cfg st (st.resume cfg r task) := by
  cases task with
  | signupSelect account pw =>
      cases r with
      | ok salt =>
          show Resumed cfg st (if _ then _ else _)
          split
          · exact .same h nofun
          · exact .same h fun task ht => by
              cases ht
              exact ⟨htask, verifyPassword_self cfg.browser salt pw⟩
      | failed | error | created => exact .same h nofun
  | signupInsert account pw passwordHash =>
      cases r with
      | created id =>
          obtain ⟨htables, hgrows⟩ := h.insertUser htask.1 htask.2 (hnew id account pw _ rfl rfl)
          exact ⟨htables, hgrows, rfl, nofun⟩
      | failed | error | ok => exact .same h nofun
  | loginSelect account pw =>
      cases r with
      | ok salt => exact checkUser_resumed h account pw
      | failed | error | created => exact .same h nofun
  | loginUpdate u =>
      have hnext : ∀ task ∈ some (Task.loginRecord ⟨some u.id, none⟩ (some u)),
          TaskSound cfg st task := by
        intro task ht
        cases ht
        exact ⟨rfl, htask⟩
      cases r with
      | failed => exact .same h nofun
      | error | ok | created => exact .same h hnext
  | loginRecord row u =>
      have hnext : ∀ task ∈ u.map Task.setSession, TaskSound cfg st task := by
        intro task ht
        cases u with
        | none => cases ht
        | some u =>
            cases ht
            exact htask.2
      cases r with
      | ok salt =>
          refine ⟨⟨h.apart, h.made, h.accepted, fun row' hrow hnone => ?_, h.session⟩,
            ⟨fun v hv => ⟨v, hv, rfl⟩, fun _ => id⟩, rfl, fun task ht =>
              (hnext task ht).grows ⟨fun v hv => ⟨v, hv, rfl⟩, fun _ => id⟩⟩
          rcases List.mem_append.mp hrow with hrow | hrow
          · exact h.logins row' hrow hnone
          · rw [List.mem_singleton.mp hrow] at hnone ⊢
            cases u with
            | none => exact absurd hnone htask
            | some u =>
                obtain ⟨hid, -, account, pw, ha⟩ := htask
                exact ⟨_, ha, hid⟩
      | failed | error | created => exact .same h hnext
  | setSession u =>
      obtain ⟨⟨v, hv, hcore⟩, account, pw, ha⟩ := htask
      refine ⟨⟨h.apart, h.made, h.accepted, h.logins, fun p hp => ?_⟩,
        ⟨fun v hv => ⟨v, hv, rfl⟩, fun _ => id⟩, rfl, nofun⟩
      cases hp
      exact ⟨_, ha, v, hv, (core_eq.mp hcore).1, (profile_of_core hcore).symm⟩

/-- What holds in a run. -/
structure Sound (cfg : Config) (st : State) : Prop where
  tables : TablesSound cfg st
  tasks : ∀ task ∈ st.tasks, TaskSound cfg st task

theorem Sound.call (h : Sound cfg st) {task : Task} (htask : TaskSound cfg st task) :
    Sound cfg { st with tasks := st.tasks ++ [task] } := by
  have hgrows : Grows st { st with tasks := st.tasks ++ [task] } :=
    ⟨fun v hv => ⟨v, hv, rfl⟩, fun _ ha => ha⟩
  refine ⟨h.tables.grows hgrows h.tables.apart rfl rfl rfl rfl, fun t ht => ?_⟩
  rcases List.mem_append.mp ht with ht | ht
  · exact (h.tasks t ht).grows hgrows
  · rw [List.mem_singleton.mp ht]
    exact htask.grows hgrows

theorem Sound.setStatus (h : Sound cfg st) (id : Nat) (status : JsStr) :
    Sound cfg { st with
      users := st.users.map fun u => if u.id = id then { u with status := status } else u } := by
  have hcore : ∀ u : UserRow,
      (if u.id = id then { u with status := status } else u).core = u.core := fun u => by
    split <;> rfl
  have hgrows : Grows st { st with
      users := st.users.map fun u => if u.id = id then { u with status := status } else u } :=
    ⟨fun u hu => ⟨_, List.mem_map_of_mem hu, hcore u⟩, fun _ ha => ha⟩
  refine ⟨h.tables.grows hgrows ?_ rfl rfl rfl rfl, fun t ht => (h.tasks t ht).grows hgrows⟩
  refine List.pairwise_map.mpr (h.tables.apart.imp fun {u v} huv => ?_)
  refine ⟨?_, fun account hboth => huv.2 account ?_⟩
  · rw [(core_eq.mp (hcore u)).1, (core_eq.mp (hcore v)).1]
    exact huv.1
  · rwa [has_of_core (hcore u), has_of_core (hcore v)] at hboth

theorem Sound.step (h : Sound cfg st) {l : Label} (hnew : InsertsNew cfg st l)
    (hstep : st.step cfg l = some st') : Sound cfg st' := by
  cases l with
  | signup accountRaw pw pw2 =>
      cases hstep
      rw [doEmailSignup]
      split
      · exact h
      · split
        · next hpolicy =>
            rw [Bool.and_eq_true] at hpolicy
            exact h.call hpolicy.1
        · exact h
  | login accountRaw pw =>
      cases hstep
      rw [doEmailLogin]
      split
      · exact h
      · split
        · exact h
        · exact h.call trivial
  | resume i r =>
      simp only [State.step, Option.bind_eq_bind, Option.bind_eq_some_iff] at hstep
      obtain ⟨task, hi, hstep⟩ := hstep
      cases hstep
      have hres := resume_resumed h.tables (h.tasks task (List.mem_of_getElem? hi)) r
        fun id account pw passwordHash hr ht => by
          subst hr
          exact hnew account pw passwordHash (hi.trans (congrArg some ht))
      have hgrows : Grows (st.resume cfg r task).1 { (st.resume cfg r task).1 with
          tasks := goOn (st.resume cfg r task).1.tasks i (st.resume cfg r task).2 } :=
        ⟨fun v hv => ⟨v, hv, rfl⟩, fun _ ha => ha⟩
      refine ⟨hres.tables.grows hgrows hres.tables.apart rfl rfl rfl rfl, ?_⟩
      refine forall_goOn (fun t ht => ?_) fun t ht => (hres.next t ht).grows hgrows
      rw [hres.tasks] at ht
      exact ((h.tasks t ht).grows hres.grows).grows hgrows
  | setStatus id status =>
      cases hstep
      exact h.setStatus id status

theorem sound_init {users : List UserRow} (hapart : users.Pairwise (Apart cfg)) :
    Sound cfg (init users) :=
  ⟨⟨hapart, nofun, nofun, nofun, nofun⟩, nofun⟩

/-- The row that is found by an account is the only one. -/
theorem select_eq (hapart : st.users.Pairwise (Apart cfg)) {u : UserRow} (hu : u ∈ st.users)
    {account : Account} (hhas : u.has cfg account = true) : st.select cfg account = some u := by
  have hfind : ∀ us : List UserRow, us.Pairwise (Apart cfg) → u ∈ us →
      us.find? (fun v => v.has cfg account) = some u := by
    intro us
    induction us with
    | nil => exact fun _ h => absurd h List.not_mem_nil
    | cons v us ih =>
        intro hpair hmem
        obtain ⟨hv, hrest⟩ := List.pairwise_cons.mp hpair
        rcases List.mem_cons.mp hmem with rfl | hmem
        · exact List.find?_cons_of_pos (p := fun v : UserRow => v.has cfg account) hhas
        · have hvhas : ¬ v.has cfg account = true := fun hvhas =>
            (hv u hmem).2 account ⟨hvhas, hhas⟩
          rw [List.find?_cons_of_neg (p := fun v : UserRow => v.has cfg account) hvhas]
          exact ih hrest hmem
  exact hfind st.users hapart hu

/-- The steps of a login that is answered. -/
def loginSteps (st : State) (accountRaw pw : JsStr) : List Label :=
  .login accountRaw pw :: List.replicate 4 (.resume st.tasks.length (.ok []))

theorem getElem?_concat_tasks (tasks : List Task) (task : Task) :
    (tasks ++ [task])[tasks.length]? = some task := by
  simp

theorem goOn_concat (tasks : List Task) (task next : Task) :
    goOn (tasks ++ [task]) tasks.length (some next) = tasks ++ [next] := by
  simp [goOn]

theorem goOn_concat_none (tasks : List Task) (task : Task) :
    goOn (tasks ++ [task]) tasks.length none = tasks := by
  simp [goOn, List.eraseIdx_append_of_length_le]

/-- The call that began last goes on. -/
theorem step_last {task : Task} {tasks : List Task} (htasks : st.tasks = tasks ++ [task])
    {r : Reply} {st₁ : State} {next : Option Task}
    (hres : st.resume cfg r task = (st₁, next)) :
    st.step cfg (.resume tasks.length r) =
      some { st₁ with tasks := goOn st₁.tasks tasks.length next } := by
  simp only [State.step, Option.bind_eq_bind]
  rw [htasks, getElem?_concat_tasks, Option.bind_some, hres]
  rfl

/-- A login with the password of the row, if it is active and everything is answered. -/
theorem run_login (hapart : st.users.Pairwise (Apart cfg)) {u : UserRow} (hu : u ∈ st.users)
    {accountRaw pw : JsStr} {account : Account}
    (hparse : parseAccountInput cfg accountRaw = some account) (hpw : pw ≠ [])
    (hhas : u.has cfg account = true) (hactive : u.active = true) (hverifies : u.Verifies cfg pw) :
    ∃ st', run (State.step cfg) st (st.loginSteps accountRaw pw) = some st' ∧
      st'.session = some (profileFromUserRow cfg u) ∧ st'.tasks = st.tasks ∧
      st'.authLogins = st.authLogins ++ [⟨some u.id, none⟩] := by
  have hempty : pw.isEmpty = false := by simpa using hpw
  let accepted := st.accepted ++ [(u.id, account, pw)]
  let st₁ : State := { st with tasks := st.tasks ++ [.loginSelect account pw] }
  let st₂ : State := { st with accepted := accepted, tasks := st.tasks ++ [.loginUpdate u] }
  let st₃ : State :=
    { st₂ with tasks := st.tasks ++ [.loginRecord ⟨some u.id, none⟩ (some u)] }
  let st₄ : State :=
    { st₂ with
      authLogins := st.authLogins ++ [⟨some u.id, none⟩]
      tasks := st.tasks ++ [.setSession u] }
  let st₅ : State :=
    { st₄ with session := some (profileFromUserRow cfg u), tasks := st.tasks }
  have h₁ : st.step cfg (.login accountRaw pw) = some st₁ := by
    rw [State.step, doEmailLogin, hparse]
    dsimp only
    rw [hempty]
    rfl
  have hcheck : st₁.resume cfg (.ok []) (.loginSelect account pw) =
      ({ st₁ with accepted := accepted }, some (.loginUpdate u)) := by
    have hapart₁ : st₁.users.Pairwise (Apart cfg) := hapart
    have hselect : st₁.select cfg account = some u := select_eq hapart₁ hu hhas
    have hpassword : Password.verifyPassword cfg.browser pw u.passwordHash = some true := hverifies
    rw [resume, checkUser, hselect]
    dsimp only
    rw [hactive, hpassword]
    rfl
  have h₂ : st₁.step cfg (.resume st.tasks.length (.ok [])) = some st₂ := by
    rw [step_last rfl hcheck]
    exact congrArg (fun tasks => some { st₂ with tasks := tasks }) (goOn_concat ..)
  have h₃ : st₂.step cfg (.resume st.tasks.length (.ok [])) = some st₃ := by
    rw [step_last rfl rfl]
    exact congrArg (fun tasks => some { st₂ with tasks := tasks }) (goOn_concat ..)
  have h₄ : st₃.step cfg (.resume st.tasks.length (.ok [])) = some st₄ := by
    rw [step_last rfl rfl]
    exact congrArg (fun tasks => some { st₄ with tasks := tasks }) (goOn_concat ..)
  have h₅ : st₄.step cfg (.resume st.tasks.length (.ok [])) = some st₅ := by
    rw [step_last rfl rfl]
    exact congrArg (fun tasks => some { st₅ with tasks := tasks }) (goOn_concat_none ..)
  refine ⟨st₅, ?_, rfl, rfl, rfl⟩
  rw [loginSteps, run_cons_some]
  refine ⟨st₁, h₁, run_cons_some.mpr ⟨st₂, h₂, run_cons_some.mpr ⟨st₃, h₃, ?_⟩⟩⟩
  exact run_cons_some.mpr ⟨st₄, h₄, run_cons_some.mpr ⟨st₅, h₅, rfl⟩⟩

/-- In every run of any number of sign-ups and logins, whatever each of them has read
before another went on, when the table refuses a row with an account or number that it
has: no two rows have an account in common; the record of every row that a sign-up made
verifies the password that was typed, which meets the policy; a session, and a success
in `auth_logins`, is of a row that had the account that was typed and verified the
password; and whoever has signed up can log in, while the row is active. -/
theorem accounts_sound {users : List UserRow} (hapart : users.Pairwise (Apart cfg))
    {ls : List Label} (hnew : Guarded (State.step cfg) (InsertsNew cfg) (init users) ls)
    (h : run (State.step cfg) (init users) ls = some st) :
    st.users.Pairwise (Apart cfg) ∧
      (∀ m ∈ st.made, passwordPolicy m.2 = true ∧
        ∃ u ∈ st.users, u.id = m.1 ∧ u.Verifies cfg m.2) ∧
      (∀ p ∈ st.session, ∃ a ∈ st.accepted, ∃ u ∈ st.users, u.id = a.1 ∧
        u.has cfg a.2.1 = true ∧ u.Verifies cfg a.2.2 ∧ p = profileFromUserRow cfg u) ∧
      (∀ row ∈ st.authLogins, row.failure = none → ∃ a ∈ st.accepted, row.userId = some a.1) ∧
      ∀ m ∈ st.made, ∀ u ∈ st.users, u.id = m.1 → u.active = true →
        ∀ accountRaw account, parseAccountInput cfg accountRaw = some account →
          u.has cfg account = true →
            ∃ st', run (State.step cfg) st (st.loginSteps accountRaw m.2) = some st' ∧
              st'.session = some (profileFromUserRow cfg u) := by
  have hs : Sound cfg st := run_guarded (fun _ _ _ hs hl => hs.step hl) (sound_init hapart) hnew h
  have honly : ∀ u ∈ st.users, ∀ v ∈ st.users, u.id = v.id → u = v := fun u hu v hv hid =>
    List.Pairwise.forall_of_forall_of_flip (R := fun u v => u.id = v.id → u = v)
      (fun _ _ _ => rfl) (hs.tables.apart.imp fun huv hid => absurd hid huv.1)
      (hs.tables.apart.imp fun huv hid => absurd hid.symm huv.1) hu hv hid
  refine ⟨hs.tables.apart, hs.tables.made, fun p hp => ?_, hs.tables.logins, ?_⟩
  · obtain ⟨a, ha, u, hu, hid, hp⟩ := hs.tables.session p hp
    obtain ⟨v, hv, hvid, hhas, hverifies⟩ := hs.tables.accepted a ha
    rw [honly u hu v hv (hid.trans hvid.symm)] at hp
    exact ⟨a, ha, v, hv, hvid, hhas, hverifies, hp⟩
  · intro m hm u hu hid hactive accountRaw account hparse hhas
    obtain ⟨hpolicy, v, hv, hvid, hverifies⟩ := hs.tables.made m hm
    rw [← honly u hu v hv (hid.trans hvid.symm)] at hverifies
    have hpw : m.2 ≠ [] := by
      intro hnil
      rw [hnil] at hpolicy
      cases hpolicy
    obtain ⟨st', hrun, hsession, -⟩ :=
      run_login hs.tables.apart hu hparse hpw hhas hactive hverifies
    exact ⟨st', hrun, hsession⟩

/-- The bits of a password are the password with its salt. -/
def plainBits : Config where
  browser := ⟨fun s => s.map UInt16.toUInt8, fun pw salt _ => pw ++ salt, fun _ => none⟩
  toLowerCase s := s.map fun u => if isUpper u then u + 0x20 else u

/-- Somebody signs up and types the address in another way to log in. -/
theorem accounts_sound_signup :
    let ls : List Label := [.signup (jsText " An@Mail.vn") (jsText "Abcdef1!") (jsText "Abcdef1!"),
      .resume 0 (.ok [1, 2, 3]), .resume 0 (.created 7)]
    ∃ st, run (State.step plainBits) (init []) ls = some st ∧ st.users.length = 1 ∧
      ∃ st', run (State.step plainBits) st
          (st.loginSteps (jsText "AN@mail.VN ") (jsText "Abcdef1!")) = some st' ∧
        st'.session = some ⟨jsText "7", jsText "an@mail.vn", [], jsText "an", jsText "7"⟩ := by
  intro ls
  have hnew : Guarded (State.step plainBits) (InsertsNew plainBits) (init []) ls := by
    refine ⟨trivial, fun s hs => ⟨trivial, fun s' hs' => ⟨fun _ _ _ _ u hu => ?_, fun _ _ => trivial⟩⟩⟩
    cases hs
    cases hs'
    cases hu
  have h := @accounts_sound plainBits _ [] .nil ls hnew rfl
  refine ⟨_, rfl, rfl, ?_⟩
  exact h.2.2.2.2 (7, jsText "Abcdef1!") (by decide +kernel) _ (List.mem_singleton_self _) rfl rfl
    (jsText "AN@mail.VN ") (.email (jsText "an@mail.vn")) (by decide +kernel) (by decide +kernel)

end State

end VTranser.Accounts
