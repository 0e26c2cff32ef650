import VTranser.Lib.Run
import VTranser.Lib.Tasks
import VTranser.Auth

/-!
# When the stored session belongs to one login

Every operation puts together what it kept when it began and what is in the
global when it goes on, so a login or a logout in between mixes two accounts,
and an operation that goes on after a logout stores its session again.

If a login or a logout begins only when no operation waits, every session that
is kept anywhere is of the last login (`LoggedIn`), and after a logout nothing
that could be stored is kept at all (`LoggedOut`).
-/

namespace VTranser.Auth

open Run Tasks

/-- All data of the session are of the `n`-th login. -/
structure OfLogin (n : Nat) (s : Session) : Prop where
  profile : ∀ m ∈ s.profile.sources, m = n
  tokens : ∃ tok, s.tokens = some tok ∧ tok.login = n

/-- What an operation keeps while it waits is of the `n`-th login. -/
def Task.Of (n : Nat) : Task → Prop
  | .login s | .backfillMap s | .syncSaved s | .saveSaved s => OfLogin n s
  | .adopt stored => ∃ s, stored = some s ∧ OfLogin n s
  | .logout => False
  | .backfillSaved => True
  | .backfillMapped prof | .backfillUser prof => ∀ m ∈ prof.sources, m = n
  | .syncUser sources | .syncRow sources | .saveUser _ sources | .saveRow _ sources _
  | .patchAsked sources => ∀ m ∈ sources, m = n
  | .patchRead raw _ sources => (∀ s ∈ raw, OfLogin n s) ∧ ∀ m ∈ sources, m = n

/-- The operations that do not look at the global. -/
def Task.Early : Task → Prop
  | .login _ | .adopt _ | .patchAsked _ | .patchRead .. => True
  | _ => False

def Stored (n : Nat) (st : State) : Prop := ∃ s, st.vtAuth = some s ∧ OfLogin n s

def Opened (n : Nat) (st : State) : Prop := ∃ s, st.current = some s ∧ OfLogin n s

/-! ## What an operation does before it waits again -/

/-- The storage and the global hold sessions of the `n`-th login, and so does the
operation while it waits. -/
structure Settled (n : Nat) (res : State × Option Task) : Prop where
  stored : Stored n res.1
  opened : Opened n res.1
  next : ∀ task ∈ res.2, task.Of n

section

variable {cfg : Config} {n : Nat} {st : State}

theorem OfLogin.withProfile {s : Session} (hs : OfLogin n s) {prof : Profile}
    (hprof : ∀ m ∈ prof.sources, m = n) : OfLogin n { s with profile := prof } where
  profile := hprof
  tokens := hs.tokens

theorem mergedSession_of (ho : Opened n st) {prof : Profile} (hprof : ∀ m ∈ prof.sources, m = n) :
    OfLogin n (mergedSession st.current prof) := by
  obtain ⟨s, hcur, hs⟩ := ho
  rw [hcur]
  exact hs.withProfile hprof

theorem mem_append_of {xs ys : List Nat} (hxs : ∀ m ∈ xs, m = n) (hys : ∀ m ∈ ys, m = n) :
    ∀ m ∈ xs ++ ys, m = n := by
  intro m hm
  rcases List.mem_append.mp hm with hm | hm
  · exact hxs m hm
  · exact hys m hm

theorem syncProfileFromDB_of (ho : Opened n st) :
    ∀ task ∈ syncProfileFromDB cfg st, task.Of n := by
  obtain ⟨s, hcur, hs⟩ := ho
  intro task htask
  simp only [syncProfileFromDB, hcur] at htask
  split at htask
  · injection htask with htask
    rw [← htask]
    exact hs.profile
  · cases htask

theorem afterBackfill_of (ho : Opened n st) : ∀ task ∈ afterBackfill cfg st, task.Of n := by
  intro task htask
  rw [afterBackfill] at htask
  split at htask
  · split at htask
    · exact syncProfileFromDB_of ho task htask
    · cases htask
  · cases htask

theorem Task.Of.some {task : Task} (htask : task.Of n) : ∀ t ∈ some task, t.Of n := by
  rintro _ ⟨⟩
  exact htask

theorem Settled.finish (hst : Stored n st) (ho : Opened n st) : Settled n (st, none) where
  stored := hst
  opened := ho
  next := by
    rintro _ ⟨⟩

theorem tryBackfillSessionUserId_of (hst : Stored n st) (ho : Opened n st) {cur : Session}
    (hcur : OfLogin n cur) : Settled n (tryBackfillSessionUserId cfg cur st) := by
  have hmerged : ∀ uid, OfLogin n (mergedSession st.current (cur.profile.withUserId uid)) :=
    fun _ => mergedSession_of ho hcur.profile
  rw [tryBackfillSessionUserId]
  generalize (if (_ || _ || _) = true then parseNumericId cur.profile.id else []) = byId
  split
  · exact ⟨hst, ho, afterBackfill_of ho⟩
  · split
    · dsimp only
      split
      · exact ⟨⟨_, rfl, hmerged _⟩, ⟨_, rfl, hmerged _⟩, Task.Of.some (by trivial)⟩
      · exact ⟨hst, ⟨_, rfl, hmerged _⟩, Task.Of.some (hmerged _)⟩
    · split
      · exact ⟨hst, ho, afterBackfill_of ho⟩
      · exact ⟨hst, ho, Task.Of.some hcur.profile⟩

theorem setSession_of (hst : Stored n st) {s : Session} (hs : OfLogin n s) :
    Settled n (setSession cfg (some s) st) := by
  have ho : Opened n { st with current := some s } := ⟨s, rfl, hs⟩
  have hst : Stored n { st with current := some s } := hst
  rw [setSession]
  exact tryBackfillSessionUserId_of hst ho hs

theorem backfillMapped_of (ho : Opened n st) {prof : Profile} (hprof : ∀ m ∈ prof.sources, m = n)
    (uid : JsStr) : Settled n (backfillMapped prof uid st) := by
  have hmerged : OfLogin n (mergedSession st.current (prof.withUserId uid)) :=
    mergedSession_of ho hprof
  exact ⟨⟨_, rfl, hmerged⟩, ⟨_, rfl, hmerged⟩, Task.Of.some (by trivial)⟩

theorem backfillUser_of (hst : Stored n st) (ho : Opened n st) {prof : Profile}
    (hprof : ∀ m ∈ prof.sources, m = n) (uid : JsStr) : Settled n (backfillUser prof uid st) := by
  have hmerged : OfLogin n (mergedSession st.current (prof.withUserId uid)) :=
    mergedSession_of ho hprof
  exact ⟨hst, ⟨_, rfl, hmerged⟩, Task.Of.some hmerged⟩

theorem syncRow_of (hst : Stored n st) (ho : Opened n st) {sources : List Nat}
    (hsources : ∀ m ∈ sources, m = n) (fullName avatarUrl : JsStr) :
    Settled n (syncRow sources fullName avatarUrl st) := by
  obtain ⟨s, hcur, hs⟩ := ho
  rw [syncRow, hcur]
  dsimp only
  split
  · exact .finish hst ⟨s, hcur, hs⟩
  · refine ⟨⟨_, rfl, ?_⟩, ⟨s, rfl, hs⟩, Task.Of.some ?_⟩ <;>
      exact hs.withProfile (mem_append_of hs.profile hsources)

theorem saveRow_of (ho : Opened n st) (form : Form) {sources : List Nat}
    (hsources : ∀ m ∈ sources, m = n) (phone fullName avatarUrl : JsStr) :
    Settled n (saveRow form sources phone fullName avatarUrl st) := by
  obtain ⟨s, hcur, hs⟩ := ho
  rw [saveRow, hcur]
  refine ⟨⟨_, rfl, ?_⟩, ⟨s, rfl, hs⟩, Task.Of.some ?_⟩ <;>
    exact hs.withProfile (mem_append_of hs.profile hsources)

theorem patchRead_stored (hst : Stored n st) {raw : Option Session} {uid : JsStr}
    {sources : List Nat} (hraw : ∀ s ∈ raw, OfLogin n s) (hsources : ∀ m ∈ sources, m = n) :
    Stored n (patchRead raw uid sources st) := by
  unfold patchRead
  split
  · next s =>
      split
      · exact hst
      · exact ⟨_, rfl, (hraw s rfl).withProfile (mem_append_of (hraw s rfl).profile hsources)⟩
  · exact hst

/-- With a session in the global, an operation that goes on keeps to the login. -/
theorem resume_settled (hst : Stored n st) (ho : Opened n st) {task : Task} (htask : task.Of n)
    (reply : Reply) : Settled n (resume cfg task reply st) := by
  cases task with
  | login s => exact setSession_of hst htask
  | adopt stored =>
      obtain ⟨s, rfl, hs⟩ := htask
      exact setSession_of hst hs
  | logout => cases htask
  | backfillMapped prof =>
      cases reply with
      | id v =>
          simp only [resume]
          split
          · exact ⟨hst, ho, Task.Of.some htask⟩
          · exact backfillMapped_of ho htask _
      | done | failed | phone | row => exact ⟨hst, ho, Task.Of.some htask⟩
  | backfillUser prof =>
      cases reply with
      | id v =>
          simp only [resume]
          split
          · exact ⟨hst, ho, afterBackfill_of ho⟩
          · exact backfillUser_of hst ho htask _
      | done | failed | phone | row => exact ⟨hst, ho, afterBackfill_of ho⟩
  | backfillMap s => exact ⟨⟨s, rfl, htask⟩, ho, Task.Of.some (by trivial)⟩
  | backfillSaved => exact ⟨hst, ho, afterBackfill_of ho⟩
  | syncUser sources =>
      cases reply with
      | id v =>
          simp only [resume]
          split
          · exact .finish hst ho
          · exact ⟨hst, ho, Task.Of.some htask⟩
      | done | failed | phone | row => exact .finish hst ho
  | syncRow sources =>
      cases reply with
      | row fullName avatarUrl => exact syncRow_of hst ho htask fullName avatarUrl
      | done | failed | phone | id => exact .finish hst ho
  | syncSaved s => exact .finish hst ⟨s, rfl, htask⟩
  | saveUser form sources =>
      cases reply with
      | phone v => exact ⟨hst, ho, Task.Of.some htask⟩
      | done | failed | row | id => exact .finish hst ho
  | saveRow form sources phone =>
      cases reply with
      | row fullName avatarUrl => exact saveRow_of ho form htask phone fullName avatarUrl
      | done | failed | phone | id => exact .finish hst ho
  | saveSaved s => exact setSession_of hst htask
  | patchAsked sources =>
      obtain ⟨s, hvt, hs⟩ := hst
      cases reply with
      | id v =>
          simp only [resume]
          split
          · exact .finish ⟨s, hvt, hs⟩ ho
          · refine ⟨⟨s, hvt, hs⟩, ho, Task.Of.some ⟨?_, htask⟩⟩
            rw [hvt]
            rintro _ ⟨⟩
            exact hs
      | done | failed | phone | row => exact .finish ⟨s, hvt, hs⟩ ho
  | patchRead raw uid sources =>
      have hst' : Stored n (patchRead raw uid sources st) :=
        patchRead_stored hst htask.1 htask.2
      refine .finish hst' ?_
      simp only [patchRead]
      split
      · split <;> exact ho
      · exact ho

/-- Before the global holds a session of the login, only an operation that does
not look at it goes on; it opens the session or leaves the global as it is. -/
theorem resume_early (hst : Stored n st) {task : Task} (htask : task.Of n) (hearly : task.Early)
    (reply : Reply) : Settled n (resume cfg task reply st) ∨
      Stored n (resume cfg task reply st).1 ∧ (∀ s, task ≠ .login s) ∧
        ∀ t ∈ (resume cfg task reply st).2, t.Of n ∧ t.Early := by
  cases task with
  | login s => exact .inl (setSession_of hst htask)
  | adopt stored =>
      obtain ⟨s, rfl, hs⟩ := htask
      exact .inl (setSession_of hst hs)
  | patchAsked sources =>
      obtain ⟨s, hvt, hs⟩ := hst
      refine .inr ?_
      cases reply with
      | id v =>
          simp only [resume]
          split
          · exact ⟨⟨s, hvt, hs⟩, nofun, nofun⟩
          · refine ⟨⟨s, hvt, hs⟩, nofun, ?_⟩
            rintro _ ⟨⟩
            refine ⟨⟨?_, htask⟩, trivial⟩
            rw [hvt]
            rintro _ ⟨⟩
            exact hs
      | done | failed | phone | row => exact ⟨⟨s, hvt, hs⟩, nofun, nofun⟩
  | patchRead raw uid sources =>
      exact .inr ⟨patchRead_stored hst htask.1 htask.2, nofun, nofun⟩
  | logout | backfillMapped | backfillUser | backfillMap | backfillSaved | syncUser | syncRow
  | syncSaved | saveUser | saveRow | saveSaved => cases hearly

/-- No operation touches the list of the others, the number of logins or whether
somebody is logged in. -/
theorem resume_frame (task : Task) (reply : Reply) : ∃ vtAuth current,
    (resume cfg task reply st).1 = { st with vtAuth, current } := by
  have hset : ∀ sess, ∃ vtAuth current,
      (setSession cfg sess st).1 = { st with vtAuth, current } := by
    intro sess
    cases sess with
    | none => exact ⟨_, _, rfl⟩
    | some s =>
        simp only [setSession, tryBackfillSessionUserId]
        generalize (if (_ || _ || _) = true then parseNumericId s.profile.id else []) = byId
        split
        · exact ⟨_, _, rfl⟩
        · split <;> split <;> exact ⟨_, _, rfl⟩
  cases task with
  | login | adopt | logout | saveSaved => exact hset _
  | backfillMapped prof | backfillUser prof =>
      cases reply with
      | id v =>
          simp only [resume]
          split <;> exact ⟨_, _, rfl⟩
      | done | failed | phone | row => exact ⟨_, _, rfl⟩
  | backfillMap | backfillSaved | syncSaved => exact ⟨_, _, rfl⟩
  | syncUser | saveUser | patchAsked => cases reply <;> exact ⟨_, _, rfl⟩
  | syncRow sources =>
      cases reply with
      | row fullName avatarUrl =>
          simp only [resume, syncRow]
          split
          · split <;> exact ⟨_, _, rfl⟩
          · exact ⟨_, _, rfl⟩
      | done | failed | phone | id => exact ⟨_, _, rfl⟩
  | saveRow form sources phone =>
      cases reply with
      | row fullName avatarUrl =>
          simp only [resume, saveRow]
          split <;> exact ⟨_, _, rfl⟩
      | done | failed | phone | id => exact ⟨_, _, rfl⟩
  | patchRead raw uid sources =>
      simp only [resume, patchRead]
      split
      · split <;> exact ⟨_, _, rfl⟩
      · exact ⟨_, _, rfl⟩

end

/-! ## Steps -/

/-- Somebody is logged in: all there is belongs to the last login. Until the
login goes on, the global can hold an older session that nobody looks at. -/
structure LoggedIn (st : State) : Prop where
  stored : Stored st.logins st
  tasks : ∀ task ∈ st.tasks, task.Of st.logins
  opened : Opened st.logins st ∨
    (∃ s, .login s ∈ st.tasks) ∧ ∀ task ∈ st.tasks, task.Early

/-- Nobody is logged in, and no operation has a session to store. -/
structure LoggedOut (st : State) : Prop where
  stored : st.vtAuth = none
  tasks : ∀ task ∈ st.tasks, task = .logout ∨ task = .adopt none
  closed : .logout ∈ st.tasks ∨ st.current = none

def Sound (st : State) : Prop := if st.loggedIn then LoggedIn st else LoggedOut st

section

variable {cfg : Config} {st : State}

theorem step_resume {i : Nat} {reply : Reply} {st' : State}
    (h : step cfg st (.resume i reply) = some st') :
    ∃ task vtAuth current, st.tasks[i]? = some task ∧
      (resume cfg task reply st).1 = { st with vtAuth, current } ∧
      st' = { st with
        vtAuth, current, tasks := goOn st.tasks i (resume cfg task reply st).2 } := by
  rw [step, Option.map_eq_some_iff] at h
  obtain ⟨task, htask, rfl⟩ := h
  obtain ⟨vtAuth, current, hres⟩ : ∃ vtAuth current,
      (Auth.resume cfg task reply st).1 = { st with vtAuth, current } := resume_frame task reply
  refine ⟨task, vtAuth, current, htask, hres, ?_⟩
  dsimp only
  rw [hres]
  cases (Auth.resume cfg task reply st).2 <;> rfl

theorem LoggedIn.resume {i : Nat} {reply : Reply} {st' : State} (hin : LoggedIn st)
    (h : step cfg st (.resume i reply) = some st') : LoggedIn st' := by
  obtain ⟨task, vtAuth, current, hi, hres, rfl⟩ := step_resume h
  have hmem : task ∈ st.tasks := List.mem_of_getElem? hi
  have hsettled : Settled st.logins (Auth.resume cfg task reply st) →
      LoggedIn { st with
        vtAuth, current, tasks := goOn st.tasks i (Auth.resume cfg task reply st).2 } := by
    intro hs
    obtain ⟨s, hvt, hof⟩ := hs.stored
    obtain ⟨c, hcur, hcof⟩ := hs.opened
    rw [hres] at hvt hcur
    refine ⟨⟨s, hvt, hof⟩, fun t ht => ?_, .inl ⟨c, hcur, hcof⟩⟩
    rcases mem_goOn ht with ht | ht
    · exact hin.tasks t ht
    · exact hs.next t ht
  rcases hin.opened with ho | ⟨⟨login, hlogin⟩, hearly⟩
  · exact hsettled (resume_settled hin.stored ho (hin.tasks task hmem) reply)
  · have hresumed := @resume_early cfg _ _ hin.stored _ (hin.tasks task hmem) (hearly task hmem) reply
    rcases hresumed with hs | ⟨⟨s, hvt, hof⟩, hne, hnext⟩
    · exact hsettled hs
    · rw [hres] at hvt
      refine ⟨⟨s, hvt, hof⟩, fun t ht => ?_, .inr ⟨⟨login, ?_⟩, fun t ht => ?_⟩⟩
      · rcases mem_goOn ht with ht | ht
        · exact hin.tasks t ht
        · exact (hnext t ht).1
      · exact mem_goOn_of_ne hi hlogin (hne login).symm _
      · rcases mem_goOn ht with ht | ht
        · exact hearly t ht
        · exact (hnext t ht).2

theorem LoggedOut.resume {i : Nat} {reply : Reply} {st' : State} (hout : LoggedOut st)
    (h : step cfg st (.resume i reply) = some st') : LoggedOut st' := by
  obtain ⟨task, vtAuth, current, hi, hres, rfl⟩ := step_resume h
  have hset : Auth.resume cfg task reply st = ({ st with current := none }, none) := by
    rcases hout.tasks task (List.mem_of_getElem? hi) with rfl | rfl <;> rfl
  rw [hset] at hres ⊢
  injection hres with hvt hcur
  refine ⟨hvt.symm.trans hout.stored, fun t (ht : t ∈ goOn st.tasks i none) => ?_,
    .inr hcur.symm⟩
  rcases mem_goOn ht with ht | ht
  · exact hout.tasks t ht
  · cases ht

theorem loginSession_of (user : Profile) (provider accessToken : JsStr) (n : Nat) :
    OfLogin n (loginSession cfg user provider accessToken n) where
  profile _ hm := List.mem_singleton.mp hm
  tokens := ⟨_, rfl, rfl⟩

/-- A login or a logout begins when no operation waits, and the dialog saves when
the last login or logout has gone on. -/
def BeginsAlone (st : State) : Label → Prop
  | .login .. | .logout => st.tasks = []
  | .save _ => ∀ task ∈ st.tasks, task ≠ .logout ∧ ∀ s, task ≠ .login s
  | .adopt | .patch | .resume .. => True

theorem LoggedIn.add {tasks : List Task} (hin : LoggedIn st)
    (hof : ∀ task ∈ tasks, task.Of st.logins)
    (hopen : Opened st.logins st ∨ ∀ task ∈ tasks, task.Early) :
    LoggedIn { st with tasks := st.tasks ++ tasks } where
  stored := hin.stored
  tasks task htask := by
    rcases List.mem_append.mp htask with h | h
    · exact hin.tasks task h
    · exact hof task h
  opened := by
    rcases hin.opened with ho | ⟨⟨s, hs⟩, hearly⟩
    · exact .inl ho
    · rcases hopen with ho | hopen
      · exact .inl ho
      · refine .inr ⟨⟨s, List.mem_append_left _ hs⟩, fun task htask => ?_⟩
        rcases List.mem_append.mp htask with h | h
        · exact hearly task h
        · exact hopen task h

theorem Sound.adopt {st st' : State} (hsound : Sound st) (h : step cfg st .adopt = some st') :
    Sound st' := by
  injection h with h
  rw [← h]
  by_cases hl : st.loggedIn
  · rw [Sound, if_pos hl] at hsound ⊢
    obtain ⟨s, hvt, hs⟩ := hsound.stored
    refine hsound.add ?_ (.inr ?_)
    · intro task htask
      rw [List.mem_singleton.mp htask]
      exact ⟨s, hvt, hs⟩
    · intro task htask
      rw [List.mem_singleton.mp htask]
      trivial
  · rw [Sound, if_neg hl] at hsound ⊢
    refine ⟨hsound.stored, ?_, hsound.closed.imp_left fun h => List.mem_append_left _ h⟩
    intro task htask
    rcases List.mem_append.mp htask with htask | htask
    · exact hsound.tasks task htask
    · right
      rw [List.mem_singleton.mp htask, hsound.stored]

/-- A form that is saved finds the session of the login, or none. -/
theorem Sound.save {st st' : State} {form : Form} (hsound : Sound st)
    (hok : BeginsAlone st (.save form)) (h : step cfg st (.save form) = some st') : Sound st' := by
  rw [Auth.step] at h
  split at h
  · next cur form hcur hform =>
      injection h with h
      rw [← h]
      by_cases hl : st.loggedIn
      · rw [Sound, if_pos hl] at hsound ⊢
        have ho : Opened st.logins st := by
          rcases hsound.opened with ho | ⟨⟨s, hs⟩, -⟩
          · exact ho
          · exact absurd rfl ((hok _ hs).2 s)
        refine hsound.add ?_ (.inl ho)
        intro task htask
        obtain ⟨s, hs, hof⟩ := ho
        rw [hcur] at hs
        injection hs with hs
        rw [List.mem_singleton.mp htask, hs]
        exact hof.profile
      · rw [Sound, if_neg hl] at hsound
        rcases hsound.closed with hlogout | hnone
        · exact absurd rfl (hok _ hlogout).1
        · rw [hcur] at hnone
          cases hnone
  · cases h

theorem Sound.patch {st st' : State} (hsound : Sound st) (h : step cfg st .patch = some st') :
    Sound st' := by
  rw [Auth.step, Option.map_eq_some_iff] at h
  obtain ⟨s, hvt, rfl⟩ := h
  by_cases hl : st.loggedIn
  · rw [Sound, if_pos hl] at hsound ⊢
    obtain ⟨s', hvt', hs⟩ := hsound.stored
    rw [hvt] at hvt'
    injection hvt' with hss
    refine hsound.add ?_ (.inr ?_)
    · intro task htask
      rw [List.mem_singleton.mp htask, hss]
      exact hs.profile
    · intro task htask
      rw [List.mem_singleton.mp htask]
      trivial
  · rw [Sound, if_neg hl] at hsound
    rw [hsound.stored] at hvt
    cases hvt

theorem Sound.step {st st' : State} {l : Label} (hsound : Sound st) (hok : BeginsAlone st l)
    (h : step cfg st l = some st') : Sound st' := by
  cases l with
  | login user provider accessToken =>
      injection h with h
      have hof : OfLogin (st.logins + 1)
          (loginSession cfg user provider accessToken (st.logins + 1)) := loginSession_of ..
      rw [← h, hok]
      refine ⟨⟨_, rfl, hof⟩, ?_, .inr ⟨⟨_, List.mem_singleton_self _⟩, ?_⟩⟩
      · intro task htask
        rw [List.mem_singleton.mp htask]
        exact hof
      · intro task htask
        rw [List.mem_singleton.mp htask]
        trivial
  | logout =>
      injection h with h
      rw [← h, hok]
      refine ⟨rfl, ?_, .inl (List.mem_singleton_self _)⟩
      intro task htask
      exact .inl (List.mem_singleton.mp htask)
  | adopt => exact hsound.adopt h
  | save form => exact hsound.save hok h
  | patch => exact hsound.patch h
  | resume i reply =>
      obtain ⟨task, vtAuth, current, -, -, hst'⟩ := step_resume h
      have hlogged : st'.loggedIn = st.loggedIn := by rw [hst']
      rw [Sound, hlogged]
      by_cases hl : st.loggedIn
      · rw [Sound, if_pos hl] at hsound
        rw [if_pos hl]
        exact hsound.resume h
      · rw [Sound, if_neg hl] at hsound
        rw [if_neg hl]
        exact hsound.resume h

end

/-! ## Runs -/

/-- The profile and the tokens come from the same login. -/
def SameLogin (s : Session) : Prop :=
  ∃ tok, s.tokens = some tok ∧ ∀ m ∈ s.profile.sources, m = tok.login

/-- After the run, a stored session is of one login, and none is stored after a
logout. -/
def StoresOneLogin (cfg : Config) (ls : List Label) : Prop :=
  ∀ st ∈ run (step cfg) .init ls,
    (∀ s ∈ st.vtAuth, SameLogin s) ∧ (st.loggedIn = false → st.vtAuth = none)

/-- The stored session is of one login in every run in which logins and logouts
begin alone. -/
theorem session_of_one_login (cfg : Config) (ls : List Label)
    (halone : Guarded (step cfg) BeginsAlone .init ls) : StoresOneLogin cfg ls := by
  intro st hrun
  have hinit : Sound .init := ⟨rfl, nofun, .inr rfl⟩
  have hsound : Sound st :=
    run_guarded (fun _ _ _ hs hok h => Sound.step hs hok h) hinit halone hrun
  cases hl : st.loggedIn with
  | true =>
      rw [Sound, if_pos hl] at hsound
      obtain ⟨s, hvt, hs⟩ := hsound.stored
      refine ⟨?_, nofun⟩
      rw [hvt]
      rintro _ ⟨⟩
      obtain ⟨tok, htok, hlogin⟩ := hs.tokens
      exact ⟨tok, htok, fun m hm => (hs.profile m hm).trans hlogin.symm⟩
  | false =>
      rw [Sound, if_neg (by rw [hl]; exact Bool.false_ne_true)] at hsound
      rw [hsound.stored]
      exact ⟨nofun, fun _ => rfl⟩

instance : (task : Task) → Decidable (∀ s, task ≠ .login s)
  | .login s => isFalse fun h => h s rfl
  | .adopt _ | .logout | .backfillMapped _ | .backfillUser _ | .backfillMap _ | .backfillSaved
  | .syncUser _ | .syncRow _ | .syncSaved _ | .saveUser .. | .saveRow .. | .saveSaved _
  | .patchAsked _ | .patchRead .. => isTrue nofun

instance (st : State) : (l : Label) → Decidable (BeginsAlone st l)
  | .login .. | .logout => inferInstanceAs (Decidable (st.tasks = []))
  | .save _ =>
      inferInstanceAs (Decidable (∀ task ∈ st.tasks, task ≠ .logout ∧ ∀ s, task ≠ .login s))
  | .adopt | .patch | .resume .. => isTrue trivial

/-- Without a database, on texts in lower case. -/
def offline : Config := ⟨id, false, fun _ => false⟩

/-- Somebody with a user id logs in, and `setSession` finds nothing to do. -/
def logsIn (email uid : String) : List Label :=
  [.login ⟨jsText email, [], [], jsText uid, [], [], [], [], []⟩ (jsText "google") (jsText "tok"),
    .resume 0 .done]

/-- The worker is told the user id and reads the stored session. -/
def patches (uid : String) : List Label := [.patch, .resume 0 (.id (jsText uid))]

theorem session_of_one_login_alone : StoresOneLogin offline
    (logsIn "ann" "7" ++ patches "7" ++ [.resume 0 .done, .logout, .resume 0 .done] ++
      logsIn "bob" "8" ++ patches "8" ++ [.resume 0 .done]) :=
  session_of_one_login offline _ (by decide)

/-- The worker has read the session, the user logs out, and the worker stores
what it has read. -/
theorem session_after_logout : ¬ StoresOneLogin offline
    (logsIn "ann" "7" ++ patches "7" ++ [.logout, .resume 0 .done]) := by
  intro h
  have hgone := (h _ rfl).2 rfl
  exact absurd hgone (by decide)

end VTranser.Auth
