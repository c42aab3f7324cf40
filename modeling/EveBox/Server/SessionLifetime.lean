import EveBox.Server.SessionTheorems

/-!
# How long a session lasts

* `Guard.Kept` — conditions on the parts of the state that the handlers keep one by one.
* `logout_revokes` — after a logout a session is accepted no more, if none of its requests read the table while
  the logout was under way.
* `cached_accepted` — a session of the cache is accepted until a logout or a restart.
* `saved_accepted` — a session of the table is accepted until a logout or its time, restarts included.
-/

namespace EveBox.Server

open Transition

variable {numeral : String → Option ℚ}

/-! ## What is kept part by part -/

/-- Conditions on the parts of the state, and on what happens. -/
structure Guard (numeral : String → Option ℚ) where
  db : UserTables numeral → Prop
  cache : SessionStore → Prop
  task : AuthTask → Prop
  event : AuthEvent → Prop

/-- The parts of `s` meet the conditions, and so does all that has happened since `log₀`. -/
structure Guard.Kept (g : Guard numeral) (log₀ : List AuthEvent) (s : AuthState numeral) : Prop where
  db : g.db s.db
  cache : g.cache s.cache
  tasks : ∀ i task, s.tasks i = some task → g.task task
  log : ∃ new, s.log = new ++ log₀ ∧ ∀ e ∈ new, g.event e

namespace Guard.Kept

variable {g : Guard numeral} {log₀ : List AuthEvent} {s : AuthState numeral}

theorem note (h : g.Kept log₀ s) {e : AuthEvent} (he : g.event e) : g.Kept log₀ (s.note e) := by
  obtain ⟨new, hlog, hnew⟩ := h.log
  refine { h with log := ⟨e :: new, congrArg (e :: ·) hlog, fun e' he' => ?_⟩ }
  rcases List.mem_cons.1 he' with rfl | he'
  · exact he
  · exact hnew e' he'

theorem run (h : g.Kept log₀ s) (i : ℕ) {task : AuthTask} (htask : g.task task) : g.Kept log₀ (s.run i task) := by
  refine { h with tasks := fun j task' hj => ?_ }
  simp only [AuthState.run, Function.update_apply] at hj
  split at hj
  · obtain rfl := Option.some.inj hj
    exact htask
  · exact h.tasks j task' hj

theorem ended (h : g.Kept log₀ s) (i : ℕ) : g.Kept log₀ { s with tasks := Function.update s.tasks i none } := by
  refine { h with tasks := fun j task hj => ?_ }
  simp only [Function.update_apply] at hj
  split at hj
  · cases hj
  · exact h.tasks j task hj

theorem finish (h : g.Kept log₀ s) (i : ℕ) {e : AuthEvent} (he : g.event e) : g.Kept log₀ (s.finish i e) :=
  (h.note he).ended i

theorem accept (h : g.Kept log₀ s) (i : ℕ) {r : SessionRequest} {session : Session}
    (he : g.event (.accepted r session)) (htask : ∀ id, g.task (.logoutCache id)) :
    g.Kept log₀ (s.accept i r session) := by
  unfold AuthState.accept
  split
  · exact (h.note he).run i (htask _)
  · exact h.finish i he

theorem authorize (h : g.Kept log₀ s) (cfg : AuthConfig) (i : ℕ) {r : SessionRequest}
    (hrefused : g.event (.refused r)) (haccepted : g.event (.accepted r ⟨none, r.remoteUser⟩))
    (hbasic : ∀ username password, g.task (.basic r username password)) (hlogout : ∀ id, g.task (.logoutCache id)) :
    g.Kept log₀ (s.authorize cfg i r) := by
  unfold AuthState.authorize
  split
  · exact h.finish i hrefused
  · split
    · exact h.run i (hbasic _ _)
    · exact h.accept i haccepted hlogout
  · split
    · exact h.finish i hrefused
    · exact h.accept i haccepted hlogout

theorem login (h : g.Kept log₀ s) (cfg : AuthConfig) (i : ℕ) (io : AuthInput) (form : LoginForm)
    (hverified : ∀ username, g.event (.verified username)) (hreplied : ∀ reply, g.event (.loginReplied form reply))
    (htask : ∀ user, g.task (.loginPut user)) : g.Kept log₀ (s.login cfg i io form) := by
  unfold AuthState.login
  split
  · exact h.finish i (hreplied _)
  · split
    · split
      · exact h.finish i (hreplied _)
      · split
        · exact (h.note (hverified _)).run i (htask _)
        · exact h.finish i (hreplied _)
        · exact h.finish i (hreplied _)
        · exact h.finish i (hreplied _)
    · exact h.finish i (hreplied _)

theorem loginPut (h : g.Kept log₀ s) (i : ℕ) (io : AuthInput) (user : User)
    (hcache : g.cache (s.cache.put ⟨some io.token, some user.username⟩).2)
    (hissued : g.event (.issued io.token user.username)) (hpanicked : g.event (.loginReplied none .panicked))
    (htask : ∀ expiry, g.task (.loginSave io.token user expiry)) : g.Kept log₀ (s.loginPut i io user) := by
  unfold AuthState.loginPut
  split
  · rename_i cache heq
    rw [heq] at hcache
    exact (Guard.Kept.note (s := { s with cache }) { h with cache := hcache } hissued).run i (htask _)
  · rename_i cache heq
    rw [heq] at hcache
    exact (Guard.Kept.note (s := { s with cache }) { h with cache := hcache } hissued).finish i hpanicked

theorem basic (h : g.Kept log₀ s) (cfg : AuthConfig) (i : ℕ) (io : AuthInput) {r : SessionRequest}
    (username password : String) (hrefused : g.event (.refused r))
    (hverified : ∀ username, g.event (.verified username))
    (haccepted : ∀ username, g.event (.accepted r ⟨some io.token, some username⟩))
    (hlogout : ∀ id, g.task (.logoutCache id)) : g.Kept log₀ (s.basic cfg i io r username password) := by
  unfold AuthState.basic
  split
  · exact h.finish i hrefused
  · split
    · exact (h.note (hverified _)).accept i (haccepted _) hlogout
    · exact h.finish i hrefused

end Guard.Kept

/-! ## After a logout -/

/-- The request got the session `token`. -/
def AuthEvent.accepts (token : String) : AuthEvent → Prop
  | .accepted _ session => session.sessionId = some token
  | _ => False

/-- The handler is past the point where it could learn that `token` is gone. -/
def AuthTask.holds (token : String) : AuthTask → Prop
  | .loginSave token' _ _ => token' = token
  | .found _ id _ _ => id = token
  | _ => False

/-- While a logout is under way neither the cache nor a handler has `token`; once it is done (`gone`), the table has
not either. -/
def revokedGuard (numeral : String → Option ℚ) (token : String) (gone : Prop) : Guard numeral where
  db db := gone → ∀ row ∈ db.sessions, row.token ≠ .ofString numeral token
  cache cache := cache.get token = none
  task task := ¬ task.holds token
  event e := ¬ e.accepts token

/-- The random bytes of the step are not those of `token`. -/
def AuthOp.mints (token : String) : AuthOp → Prop
  | .advance _ io => io.token = token
  | _ => False

instance (token : String) (a : AuthOp) : Decidable (a.mints token) := by
  unfold AuthOp.mints
  split <;> infer_instance

/-- The handler is about to read the table for `token`. -/
def AuthTask.reads (token : String) : AuthTask → Prop
  | .lookup _ id => id = token
  | _ => False

instance (token : String) (task : AuthTask) : Decidable (task.reads token) := by
  unfold AuthTask.reads
  split <;> infer_instance

/-- The step does not read the table for `token`, and does not make a session of this id. -/
def LeavesAlone (token : String) (s : AuthState numeral) (a : AuthOp) : Prop :=
  ¬ a.mints token ∧ match a with
    | .advance i _ => ∀ task ∈ s.tasks i, ¬ task.reads token
    | _ => True

instance (token : String) (s : AuthState numeral) (a : AuthOp) : Decidable (LeavesAlone token s a) := by
  unfold LeavesAlone
  cases a <;> infer_instance

theorem revoked_advance {cfg : AuthConfig} {token : String} {gone : Prop} (htoken : numeral token = none) {log₀ : List AuthEvent}
    {s s' : AuthState numeral} {i : ℕ} {io : AuthInput} {task : AuthTask} (hnew : io.token ≠ token)
    (hreads : task.reads token → gone) (kept : (revokedGuard numeral token gone).Kept log₀ s) (htask : s.tasks i = some task)
    (h : s.advance cfg i io task = some s') : (revokedGuard numeral token gone).Kept log₀ s' := by
  have hfree : ¬ task.holds token := kept.tasks i task htask
  have hauthorize : ∀ {s : AuthState numeral} (r : SessionRequest), (revokedGuard numeral token gone).Kept log₀ s →
      (revokedGuard numeral token gone).Kept log₀ (s.authorize cfg i r) := fun r kept =>
    kept.authorize cfg i id (by rintro ⟨⟩) (fun _ _ => id) (fun _ => id)
  cases task with
  | login form =>
      obtain rfl := Option.some.inj h
      exact kept.login cfg i io form (fun _ => id) (fun _ => id) (fun _ => id)
  | loginPut user =>
      simp only [AuthState.advance] at h
      split at h
      · obtain rfl := Option.some.inj h
        exact kept.loginPut i io user
          ((SessionStore.get_put_ne hnew.symm _).trans kept.cache) id id (fun _ => hnew)
      · cases h
  | loginSave token' user expiry =>
      obtain rfl := Option.some.inj h
      refine Guard.Kept.finish ?_ i id
      cases hsave : if io.dbOk then
          s.db.saveSession ⟨.ofString numeral token', .ofString numeral user.uuid, expiry⟩ else none with
      | none => exact kept
      | some db =>
          split at hsave
          · obtain ⟨-, hsessions, -⟩ := UserTables.saveSession_eq_some hsave
            refine { kept with db := fun hgone row hrow => ?_ }
            rcases List.mem_append.1 (hsessions ▸ hrow) with hrow | hrow
            · exact kept.db hgone row hrow
            · rw [List.mem_singleton.1 hrow, StringCell.ofString_of_none htoken]
              exact fun heq => hfree (StringCell.ofString_eq_text.1 heq)
          · cases hsave
  | request r =>
      simp only [AuthState.advance] at h
      split at h
      · obtain rfl := Option.some.inj h
        exact hauthorize r kept
      · rename_i id' hid
        split at h
        · rename_i session hget
          obtain rfl := Option.some.inj h
          refine kept.accept i (fun haccepts => ?_) (fun _ => id)
          obtain rfl : id' = token := Option.some.inj ((s.cache.keyed id' session hget).symm.trans haccepts)
          exact Option.some_ne_none session (hget.symm.trans kept.cache)
        · obtain rfl := Option.some.inj h
          exact kept.run i id
  | lookup r id' =>
      simp only [AuthState.advance] at h
      split at h
      · rename_i username expiresAt hfound
        obtain rfl := Option.some.inj h
        refine kept.run i fun hsame => ?_
        split at hfound
        · obtain ⟨row, hrow, -, -, hcell, -⟩ := UserTables.userBySession_eq_some hfound
          subst hsame
          exact kept.db (hreads rfl) row hrow hcell
        · cases hfound
      · obtain rfl := Option.some.inj h
        exact hauthorize r kept
  | found r id' username expiresAt =>
      have hne : id' ≠ token := hfree
      simp only [AuthState.advance] at h
      split at h
      · obtain rfl := Option.some.inj h
        exact kept.run i id
      · split at h
        · obtain rfl := Option.some.inj h
          refine Guard.Kept.accept ?_ i (fun haccepts => hne (Option.some.inj haccepts)) (fun _ => id)
          exact { kept with cache := (SessionStore.get_put_ne (Ne.symm hne) _).trans kept.cache }
        · obtain rfl := Option.some.inj h
          exact hauthorize r kept
  | expiring r =>
      obtain rfl := Option.some.inj h
      refine hauthorize r { kept with db := ?_ }
      split
      · exact fun hgone row hrow => kept.db hgone row (List.mem_of_mem_filter hrow)
      · exact kept.db
  | basic r username password =>
      obtain rfl := Option.some.inj h
      exact kept.basic cfg i io username password id (fun _ => id)
        (fun _ haccepts => hnew (Option.some.inj haccepts)) (fun _ => id)
  | logoutCache id' =>
      obtain rfl := Option.some.inj h
      refine Guard.Kept.run (s := { s with cache := s.cache.delete id' }) { kept with cache := ?_ } i id
      rcases eq_or_ne token id' with rfl | hne
      · exact SessionStore.get_delete_self s.cache _
      · exact (SessionStore.get_delete_ne hne).trans kept.cache
  | logoutTable id' =>
      obtain rfl := Option.some.inj h
      refine Guard.Kept.finish ?_ i id
      refine { kept with db := ?_ }
      split
      · exact fun hgone row hrow => kept.db hgone row (List.mem_of_mem_filter hrow)
      · exact kept.db

theorem revoked_step {cfg : AuthConfig} {token : String} {gone : Prop} (htoken : numeral token = none)
    {log₀ : List AuthEvent} {s s' : AuthState numeral} {a : AuthOp} (hnew : ¬ a.mints token)
    (hreads : gone ∨ LeavesAlone token s a)
    (kept : (revokedGuard numeral token gone).Kept log₀ s) (h : AuthState.step cfg s a = some s') :
    (revokedGuard numeral token gone).Kept log₀ s' := by
  cases a with
  | login i form =>
      simp only [AuthState.step] at h
      split at h
      · obtain rfl := Option.some.inj h
        exact kept.run i id
      · cases h
  | request i r =>
      simp only [AuthState.step] at h
      split at h
      · obtain rfl := Option.some.inj h
        exact kept.run i id
      · cases h
  | advance i io =>
      obtain ⟨task, htask, h⟩ := Option.bind_eq_some_iff.1 h
      refine revoked_advance htoken hnew (fun hread => ?_) kept htask h
      exact hreads.resolve_right fun hleaves => hleaves.2 task htask hread
  | drop i =>
      obtain rfl := Option.some.inj h
      exact kept.ended i
  | addUser uuid username hash =>
      obtain rfl := Option.some.inj h
      refine { kept with db := fun hgone row hrow => kept.db hgone row ?_ }
      cases hadd : s.db.addUser ⟨.ofString numeral uuid, .ofString numeral username, some hash⟩ with
      | none => simpa only [hadd, Option.getD_none] using hrow
      | some db =>
          simp only [hadd, Option.getD_some] at hrow
          exact (UserTables.addUser_eq_some hadd).2 ▸ hrow
  | removeUser username =>
      obtain rfl := Option.some.inj h
      refine { kept with db := fun hgone row hrow => kept.db hgone row ?_ }
      cases hremove : s.db.removeUser (.ofString numeral username) with
      | none => simpa only [hremove, Option.getD_none] using hrow
      | some db =>
          simp only [hremove, Option.getD_some] at hrow
          exact (UserTables.removeUser_eq_some hremove).2.1 ▸ hrow
  | updatePassword uuid hash =>
      obtain rfl := Option.some.inj h
      exact { kept with db := kept.db }
  | restart =>
      obtain rfl := Option.some.inj h
      exact { kept with cache := rfl, tasks := fun _ _ htask => by cases htask }

/-- After a logout of `token` whose statement succeeds no request is let in with `token` any more, if at its start no
handler has the session from the table or is about to save it, and no handler reads the table for it before the
logout is done. Without the condition a session that was read before comes back into the cache after it was taken
out. -/
theorem logout_revokes {cfg : AuthConfig} {token : String} (htoken : numeral token = none)
    {s₀ s₁ s₂ s₃ s₄ : AuthState numeral} {i : ℕ} {io₁ io₂ : AuthInput} {window rest : List AuthOp}
    (hcache : s₀.tasks i = some (.logoutCache token))
    (hidle : ∀ j task, s₀.tasks j = some task → ¬ task.holds token)
    (h₁ : AuthState.step cfg s₀ (.advance i io₁) = some s₁)
    (hwindow : Along (AuthState.step cfg) (LeavesAlone token) s₁ window)
    (h₂ : exec (AuthState.step cfg) s₁ window = some s₂)
    (htable : s₂.tasks i = some (.logoutTable token)) (hok : io₂.dbOk = true)
    (h₃ : AuthState.step cfg s₂ (.advance i io₂) = some s₃)
    (hrest : ∀ a ∈ rest, ¬ a.mints token) (h₄ : exec (AuthState.step cfg) s₃ rest = some s₄) :
    ∃ new, s₄.log = new ++ s₁.log ∧ ∀ e ∈ new, ¬ e.accepts token := by
  have kept₁ : (revokedGuard numeral token False).Kept s₁.log s₁ := by
    simp only [AuthState.step, hcache, Option.bind_some] at h₁
    obtain rfl := Option.some.inj h₁
    refine Guard.Kept.run (s := { s₀ with cache := s₀.cache.delete token }) ?_ i id
    exact { db := False.elim
            cache := SessionStore.get_delete_self _ _
            tasks := hidle
            log := ⟨[], rfl, fun _ h => by cases h⟩ }
  have kept₂ : (revokedGuard numeral token False).Kept s₁.log s₂ :=
    invariant_along (P := (revokedGuard numeral token False).Kept s₁.log)
      (fun s a s' kept hleaves h => revoked_step htoken hleaves.1 (.inr hleaves) kept h)
      kept₁ hwindow h₂
  have kept₃ : (revokedGuard numeral token True).Kept s₁.log s₃ := by
    simp only [AuthState.step, htable, Option.bind_some] at h₃
    obtain rfl := Option.some.inj h₃
    refine Guard.Kept.finish ?_ i id
    rw [if_pos hok]
    refine { db := fun _ row hrow => ?_, cache := kept₂.cache, tasks := kept₂.tasks, log := kept₂.log }
    exact of_decide_eq_true (List.mem_filter.1 hrow).2
  have hminted : Along (AuthState.step cfg) (fun _ a => ¬ a.mints token) s₃ rest := along_of_forall hrest s₃
  have kept₄ : (revokedGuard numeral token True).Kept s₁.log s₄ :=
    invariant_along (P := (revokedGuard numeral token True).Kept s₁.log)
      (fun s a s' kept hnew h => revoked_step htoken hnew (.inl trivial) kept h) kept₃ hminted h₄
  exact kept₄.log

/-- The server just before a logout takes its session out of the cache. -/
def beforeLogout : AuthState noNumerals where
  db := oneUser
  cache := (SessionStore.new.put ⟨some "c2Vzc2lvbg==", some "admin"⟩).2
  tasks := Function.update (fun _ => none) 0 (some (.logoutCache "c2Vzc2lvbg=="))
  log := []

def otherInput : AuthInput := ⟨true, 1700000000, "b3RoZXI="⟩

def duringLogout : AuthState noNumerals :=
  AuthState.run { beforeLogout with cache := beforeLogout.cache.delete "c2Vzc2lvbg==" } 0 (.logoutTable "c2Vzc2lvbg==")

/-- A request has come while the logout is under way, and has not found its session. -/
def requestDuringLogout : AuthState noNumerals :=
  (duringLogout.run 1 (.request (sessionRequest false))).run 1 (.lookup (sessionRequest false) "c2Vzc2lvbg==")

def afterLogout : AuthState noNumerals :=
  AuthState.finish { requestDuringLogout with db := requestDuringLogout.db.deleteSession "c2Vzc2lvbg==" } 0
    (.loggedOut "c2Vzc2lvbg==")

theorem logout_revokes_beforeLogout :
    ∃ s₄, exec (AuthState.step plainConfig) beforeLogout [.advance 0 otherInput, .request 1 (sessionRequest false),
        .advance 1 otherInput, .advance 0 otherInput, .advance 1 otherInput] = some s₄ ∧
      ∃ new, s₄.log = new ++ duringLogout.log ∧ ∀ e ∈ new, ¬ e.accepts "c2Vzc2lvbg==" := by
  have h₁ : AuthState.step plainConfig beforeLogout (.advance 0 otherInput) = some duringLogout := rfl
  have h₂ : exec (AuthState.step plainConfig) duringLogout
      [.request 1 (sessionRequest false), .advance 1 otherInput] = some requestDuringLogout := rfl
  have h₃ : AuthState.step plainConfig requestDuringLogout (.advance 0 otherInput) = some afterLogout := rfl
  have h₄ : exec (AuthState.step plainConfig) afterLogout [.advance 1 otherInput] = some _ := rfl
  refine ⟨_, rfl, logout_revokes rfl rfl (fun j task hj => ?_) h₁ (by decide +kernel) h₂ rfl rfl h₃ (by decide) h₄⟩
  simp only [beforeLogout, Function.update_apply] at hj
  split at hj
  · cases hj
    exact id
  · cases hj

/-- A request that has read the table before the logout brings the session back into the cache. -/
example : (exec (AuthState.step plainConfig)
    (beforeLogout.run 1 (.found (sessionRequest false) "c2Vzc2lvbg==" "admin" 1700604800))
    [.advance 0 otherInput, .advance 1 otherInput, .advance 0 otherInput, .request 2 (sessionRequest false),
      .advance 2 otherInput]).map (·.log.head?) =
    some (some (.accepted (sessionRequest false) ⟨some "c2Vzc2lvbg==", some "admin"⟩)) := by
  decide +kernel

/-! ## Until a logout -/

/-- The request that a handler answers. -/
def AuthTask.request? : AuthTask → Option SessionRequest
  | .request r => some r
  | .lookup r _ => some r
  | .found r _ _ _ => some r
  | .expiring r => some r
  | .basic r _ _ => some r
  | _ => none

/-- A handler looks for the session of its request. -/
def AuthTask.Consistent : AuthTask → Prop
  | .lookup r id => r.sessionId = some id
  | .found r id _ _ => r.sessionId = some id
  | _ => True

/-- Requests with `token` get the session `session`, and none is refused. -/
def AuthEvent.Honours (token : String) (session : Session) : AuthEvent → Prop
  | .accepted r session' => r.sessionId = some token → session' = session
  | .refused r => r.sessionId ≠ some token
  | _ => True

/-- The cache has the session, so that a request with `token` gets it at once. -/
def cachedGuard (numeral : String → Option ℚ) (token : String) (session : Session) : Guard numeral where
  db _ := True
  cache cache := cache.get token = some session
  task task := task.Consistent ∧ ∀ r, task.request? = some r → r.sessionId = some token → task = .request r
  event e := e.Honours token session

/-- A request without `token` goes on to the password. -/
theorem Guard.Kept.authorize_other {g : Guard numeral} {log₀ : List AuthEvent} {s : AuthState numeral}
    (kept : g.Kept log₀ s) (cfg : AuthConfig) (i : ℕ) {r : SessionRequest} {token : String} {session : Session}
    (hother : r.sessionId ≠ some token) (hevent : ∀ e, g.event e ↔ e.Honours token session)
    (htask : ∀ task, task.Consistent → (∀ r, task.request? = some r → r.sessionId ≠ some token) → g.task task) :
    g.Kept log₀ (s.authorize cfg i r) :=
  kept.authorize cfg i ((hevent _).2 hother) ((hevent _).2 fun h => absurd h hother)
    (fun _ _ => htask _ trivial fun _ h => by cases h; exact hother) (fun _ => htask _ trivial fun _ h => by cases h)

theorem cached_advance {cfg : AuthConfig} {token : String} {session : Session} {log₀ : List AuthEvent}
    {s s' : AuthState numeral} {i : ℕ} {io : AuthInput} {task : AuthTask} (hnew : io.token ≠ token)
    (hlogout : task ≠ .logoutCache token) (kept : (cachedGuard numeral token session).Kept log₀ s)
    (htask : s.tasks i = some task) (h : s.advance cfg i io task = some s') :
    (cachedGuard numeral token session).Kept log₀ s' := by
  obtain ⟨hconsistent, hearly⟩ := kept.tasks i task htask
  have hfree : ∀ {task : AuthTask}, task.Consistent → (∀ r, task.request? = some r → r.sessionId ≠ some token) →
      (cachedGuard numeral token session).task task := fun hc h => ⟨hc, fun r hr hid => absurd hid (h r hr)⟩
  have hauthorize : ∀ {s : AuthState numeral} {r : SessionRequest}, r.sessionId ≠ some token →
      (cachedGuard numeral token session).Kept log₀ s →
      (cachedGuard numeral token session).Kept log₀ (s.authorize cfg i r) := fun hother kept =>
    kept.authorize_other cfg i hother (fun _ => Iff.rfl) fun _ => hfree
  have hidle : ∀ id, (cachedGuard numeral token session).task (.logoutCache id) :=
    fun _ => hfree trivial fun _ h => by cases h
  cases task with
  | login form =>
      obtain rfl := Option.some.inj h
      exact kept.login cfg i io form (fun _ => trivial) (fun _ => trivial)
        (fun _ => hfree trivial fun _ h => by cases h)
  | loginPut user =>
      simp only [AuthState.advance] at h
      split at h
      · obtain rfl := Option.some.inj h
        exact kept.loginPut i io user ((SessionStore.get_put_ne hnew.symm _).trans kept.cache) trivial trivial
          (fun _ => hfree trivial fun _ h => by cases h)
      · cases h
  | loginSave token' user expiry =>
      obtain rfl := Option.some.inj h
      refine Guard.Kept.finish ?_ i trivial
      exact { kept with db := trivial }
  | request r =>
      simp only [AuthState.advance] at h
      split at h
      · rename_i hnone
        obtain rfl := Option.some.inj h
        exact hauthorize (fun hid => Option.some_ne_none token (hid.symm.trans hnone)) kept
      · rename_i id hid
        split at h
        · rename_i session' hget
          obtain rfl := Option.some.inj h
          refine kept.accept i (fun hsome => ?_) hidle
          obtain rfl : id = token := Option.some.inj (hid.symm.trans hsome)
          exact Option.some.inj (hget.symm.trans kept.cache)
        · rename_i hget
          obtain rfl := Option.some.inj h
          refine kept.run i (hfree hid fun r' hr' hsome => ?_)
          obtain rfl := Option.some.inj hr'
          obtain rfl : id = token := Option.some.inj (hid.symm.trans hsome)
          exact Option.some_ne_none session (kept.cache.symm.trans hget)
  | lookup r id =>
      have hother : r.sessionId ≠ some token := fun hid => by cases hearly r rfl hid
      simp only [AuthState.advance] at h
      split at h
      · obtain rfl := Option.some.inj h
        exact kept.run i (hfree hconsistent fun r' hr' => by cases hr'; exact hother)
      · obtain rfl := Option.some.inj h
        exact hauthorize hother kept
  | found r id username expiresAt =>
      have hother : r.sessionId ≠ some token := fun hid => by cases hearly r rfl hid
      have hne : id ≠ token := fun heq => hother (heq ▸ hconsistent)
      simp only [AuthState.advance] at h
      split at h
      · obtain rfl := Option.some.inj h
        exact kept.run i (hfree trivial fun r' hr' => by cases hr'; exact hother)
      · split at h
        · obtain rfl := Option.some.inj h
          refine Guard.Kept.accept ?_ i (fun hsome => absurd hsome hother) hidle
          exact { kept with cache := (SessionStore.get_put_ne hne.symm _).trans kept.cache }
        · obtain rfl := Option.some.inj h
          exact hauthorize hother kept
  | expiring r =>
      have hother : r.sessionId ≠ some token := fun hid => by cases hearly r rfl hid
      obtain rfl := Option.some.inj h
      exact hauthorize hother { kept with db := trivial }
  | basic r username password =>
      have hother : r.sessionId ≠ some token := fun hid => by cases hearly r rfl hid
      obtain rfl := Option.some.inj h
      exact kept.basic cfg i io username password hother (fun _ => trivial) (fun _ hsome => absurd hsome hother) hidle
  | logoutCache id =>
      have hne : token ≠ id := fun heq => hlogout (heq ▸ rfl)
      obtain rfl := Option.some.inj h
      refine Guard.Kept.run (s := { s with cache := s.cache.delete id }) ?_ i (hfree trivial fun _ h => by cases h)
      exact { kept with cache := (SessionStore.get_delete_ne hne).trans kept.cache }
  | logoutTable id =>
      obtain rfl := Option.some.inj h
      refine Guard.Kept.finish ?_ i trivial
      exact { kept with db := trivial }

/-- The step leaves a session of the cache there, and does not make another one of its id. -/
def KeepsCached (token : String) (s : AuthState numeral) : AuthOp → Prop
  | .advance i io => io.token ≠ token ∧ s.tasks i ≠ some (.logoutCache token)
  | .restart => False
  | _ => True

instance (token : String) (s : AuthState numeral) (a : AuthOp) : Decidable (KeepsCached token s a) := by
  unfold KeepsCached
  split <;> infer_instance

theorem cached_step {cfg : AuthConfig} {token : String} {session : Session} {log₀ : List AuthEvent}
    {s s' : AuthState numeral} {a : AuthOp} (hkeeps : KeepsCached token s a)
    (kept : (cachedGuard numeral token session).Kept log₀ s) (h : AuthState.step cfg s a = some s') :
    (cachedGuard numeral token session).Kept log₀ s' := by
  cases a with
  | login i form =>
      simp only [AuthState.step] at h
      split at h
      · obtain rfl := Option.some.inj h
        exact kept.run i ⟨trivial, fun _ h => by cases h⟩
      · cases h
  | request i r =>
      simp only [AuthState.step] at h
      split at h
      · obtain rfl := Option.some.inj h
        exact kept.run i ⟨trivial, fun r' hr' _ => by cases hr'; rfl⟩
      · cases h
  | advance i io =>
      obtain ⟨task, htask, h⟩ := Option.bind_eq_some_iff.1 h
      exact cached_advance hkeeps.1 (fun heq => hkeeps.2 (heq ▸ htask)) kept htask h
  | drop i =>
      obtain rfl := Option.some.inj h
      exact kept.ended i
  | addUser uuid username hash =>
      obtain rfl := Option.some.inj h
      exact { kept with db := trivial }
  | removeUser username =>
      obtain rfl := Option.some.inj h
      exact { kept with db := trivial }
  | updatePassword uuid hash =>
      obtain rfl := Option.some.inj h
      exact { kept with db := trivial }
  | restart => exact False.elim hkeeps

/-- The statement finds in `db'` what it finds in `db`, if the row it finds and its user are there. -/
theorem UserTables.userBySession_of_kept {db db' : UserTables numeral} {token username : String} {expiresAt : ℤ}
    (h : db.userBySession token = some (username, expiresAt))
    (hsessions : ∀ row ∈ db.sessions, row.token = .ofString numeral token → row.expiresAt = expiresAt →
      row ∈ db'.sessions)
    (husers : ∀ row ∈ db.sessions, ∀ user ∈ db.users, user.uuid = row.uuid →
      ∃ user' ∈ db'.users, user'.uuid = user.uuid ∧ user'.username = user.username) :
    db'.userBySession token = some (username, expiresAt) := by
  obtain ⟨row, hrow, user, huser, htoken, huuid, rfl, hname, hreads⟩ := UserTables.userBySession_eq_some h
  obtain ⟨user', huser', huuid', hname'⟩ := husers row hrow user huser huuid
  exact UserTables.userBySession_of_mem (hsessions row hrow htoken rfl) htoken huser' (huuid'.trans huuid)
    (huuid' ▸ hreads) (hname' ▸ hname)

/-- The table has the session, and what the cache and the handlers have of it is from there. -/
def savedGuard (numeral : String → Option ℚ) (token username : String) (expiresAt : ℤ) : Guard numeral where
  db db := db.userBySession token = some (username, expiresAt)
  cache cache := ∀ session, cache.get token = some session → session = ⟨some token, some username⟩
  task task := task.Consistent ∧ ∀ r, task.request? = some r → r.sessionId = some token →
    task = .request r ∨ task = .lookup r token ∨ task = .found r token username expiresAt
  event e := e.Honours token ⟨some token, some username⟩

theorem saved_advance {cfg : AuthConfig} {token username : String} {expiresAt : ℤ} (htoken : numeral token = none)
    {log₀ : List AuthEvent} {s s' : AuthState numeral} {i : ℕ} {io : AuthInput} {task : AuthTask}
    (hok : io.dbOk = true) (hnow : io.now ≤ expiresAt) (hnew : io.token ≠ token)
    (hlogout : task ≠ .logoutTable token) (kept : (savedGuard numeral token username expiresAt).Kept log₀ s)
    (htask : s.tasks i = some task) (h : s.advance cfg i io task = some s') :
    (savedGuard numeral token username expiresAt).Kept log₀ s' := by
  obtain ⟨hconsistent, hearly⟩ := kept.tasks i task htask
  have hfree : ∀ {task : AuthTask}, task.Consistent → (∀ r, task.request? = some r → r.sessionId ≠ some token) →
      (savedGuard numeral token username expiresAt).task task := fun hc h => ⟨hc, fun r hr hid => absurd hid (h r hr)⟩
  have hauthorize : ∀ {s : AuthState numeral} {r : SessionRequest}, r.sessionId ≠ some token →
      (savedGuard numeral token username expiresAt).Kept log₀ s →
      (savedGuard numeral token username expiresAt).Kept log₀ (s.authorize cfg i r) := fun hother kept =>
    kept.authorize_other cfg i hother (fun _ => Iff.rfl) fun _ => hfree
  have hidle : ∀ id, (savedGuard numeral token username expiresAt).task (.logoutCache id) :=
    fun _ => hfree trivial fun _ h => by cases h
  cases task with
  | login form =>
      obtain rfl := Option.some.inj h
      exact kept.login cfg i io form (fun _ => trivial) (fun _ => trivial)
        (fun _ => hfree trivial fun _ h => by cases h)
  | loginPut user =>
      simp only [AuthState.advance] at h
      split at h
      · obtain rfl := Option.some.inj h
        refine kept.loginPut i io user (fun session hget => ?_) trivial trivial
          (fun _ => hfree trivial fun _ h => by cases h)
        exact kept.cache session ((SessionStore.get_put_ne hnew.symm _).symm.trans hget)
      · cases h
  | loginSave token' user expiry =>
      obtain rfl := Option.some.inj h
      refine Guard.Kept.finish ?_ i trivial
      refine { kept with db := ?_ }
      rw [if_pos hok]
      cases hsave : s.db.saveSession ⟨.ofString numeral token', .ofString numeral user.uuid, expiry⟩ with
      | none => exact kept.db
      | some db =>
          obtain ⟨husers, hsessions, -⟩ := UserTables.saveSession_eq_some hsave
          refine UserTables.userBySession_of_kept kept.db (fun row hrow _ _ => ?_) (fun _ _ user huser _ => ?_)
          · exact hsessions ▸ List.mem_append_left _ hrow
          · exact ⟨user, husers ▸ huser, rfl, rfl⟩
  | request r =>
      simp only [AuthState.advance] at h
      split at h
      · rename_i hnone
        obtain rfl := Option.some.inj h
        exact hauthorize (fun hid => Option.some_ne_none token (hid.symm.trans hnone)) kept
      · rename_i id hid
        split at h
        · rename_i session' hget
          obtain rfl := Option.some.inj h
          refine kept.accept i (fun hsome => ?_) hidle
          obtain rfl : id = token := Option.some.inj (hid.symm.trans hsome)
          exact kept.cache session' hget
        · obtain rfl := Option.some.inj h
          refine kept.run i ⟨hid, fun r' hr' hsome => .inr (.inl ?_)⟩
          obtain rfl := Option.some.inj hr'
          rw [Option.some.inj (hid.symm.trans hsome)]
  | lookup r id =>
      simp only [AuthState.advance, if_pos hok] at h
      by_cases hid : r.sessionId = some token
      · obtain rfl : id = token := Option.some.inj (hconsistent.symm.trans hid)
        have hfound : s.db.userBySession id = some (username, expiresAt) := kept.db
        simp only [hfound, Option.some.injEq] at h
        subst h
        refine kept.run i ⟨hid, fun r' hr' _ => .inr (.inr ?_)⟩
        obtain rfl := Option.some.inj hr'
        rfl
      · split at h
        · obtain rfl := Option.some.inj h
          exact kept.run i (hfree hconsistent fun r' hr' => by cases hr'; exact hid)
        · obtain rfl := Option.some.inj h
          exact hauthorize hid kept
  | found r id name time =>
      simp only [AuthState.advance, if_pos hok] at h
      by_cases hid : r.sessionId = some token
      · rcases hearly r rfl hid with heq | heq | heq
        · cases heq
        · cases heq
        · cases heq
          rw [if_neg (Int.not_lt.2 hnow)] at h
          obtain rfl := Option.some.inj h
          refine Guard.Kept.accept ?_ i (fun _ => rfl) hidle
          refine { kept with cache := fun session hget => ?_ }
          rw [SessionStore.get_put_self] at hget
          exact (Option.some.inj hget).symm
      · have hne : id ≠ token := fun heq => hid (heq ▸ hconsistent)
        split at h
        · obtain rfl := Option.some.inj h
          exact kept.run i (hfree trivial fun r' hr' => by cases hr'; exact hid)
        · obtain rfl := Option.some.inj h
          refine Guard.Kept.accept ?_ i (fun hsome => absurd hsome hid) hidle
          refine { kept with cache := fun session hget => ?_ }
          exact kept.cache session ((SessionStore.get_put_ne hne.symm _).symm.trans hget)
  | expiring r =>
      have hother : r.sessionId ≠ some token := fun hid => by
        rcases hearly r rfl hid with heq | heq | heq <;> cases heq
      obtain rfl := Option.some.inj h
      refine hauthorize hother { kept with db := ?_ }
      rw [if_pos hok]
      refine UserTables.userBySession_of_kept kept.db (fun row hrow _ htime => ?_) (fun _ _ user huser _ => ?_)
      · exact List.mem_filter.2 ⟨hrow, decide_eq_true (Int.not_lt.2 (htime ▸ hnow))⟩
      · exact ⟨user, huser, rfl, rfl⟩
  | basic r name password =>
      have hother : r.sessionId ≠ some token := fun hid => by
        rcases hearly r rfl hid with heq | heq | heq <;> cases heq
      obtain rfl := Option.some.inj h
      exact kept.basic cfg i io name password hother (fun _ => trivial) (fun _ hsome => absurd hsome hother) hidle
  | logoutCache id =>
      obtain rfl := Option.some.inj h
      refine Guard.Kept.run (s := { s with cache := s.cache.delete id }) ?_ i (hfree trivial fun _ h => by cases h)
      refine { kept with cache := fun session hget => ?_ }
      rcases eq_or_ne token id with rfl | hne
      · rw [SessionStore.get_delete_self] at hget
        cases hget
      · exact kept.cache session ((SessionStore.get_delete_ne hne).symm.trans hget)
  | logoutTable id =>
      have hne : id ≠ token := fun heq => hlogout (heq ▸ rfl)
      obtain rfl := Option.some.inj h
      refine Guard.Kept.finish ?_ i trivial
      refine { kept with db := ?_ }
      rw [if_pos hok]
      refine UserTables.userBySession_of_kept kept.db (fun row hrow hcell _ => ?_) (fun _ _ user huser _ => ?_)
      · refine List.mem_filter.2 ⟨hrow, decide_eq_true fun heq => hne ?_⟩
        rw [hcell, StringCell.ofString_of_none htoken] at heq
        exact StringCell.ofString_eq_text.1 heq.symm
      · exact ⟨user, huser, rfl, rfl⟩

/-- The step succeeds, in the time of a session and without taking its row away or making another one of its id. -/
def KeepsSaved (token : String) (expiresAt : ℤ) (s : AuthState numeral) : AuthOp → Prop
  | .advance i io =>
      io.dbOk = true ∧ io.now ≤ expiresAt ∧ io.token ≠ token ∧ s.tasks i ≠ some (.logoutTable token)
  | _ => True

instance (token : String) (expiresAt : ℤ) (s : AuthState numeral) (a : AuthOp) :
    Decidable (KeepsSaved token expiresAt s a) := by
  unfold KeepsSaved
  split <;> infer_instance

theorem saved_step {cfg : AuthConfig} {token username : String} {expiresAt : ℤ} (htoken : numeral token = none)
    {log₀ : List AuthEvent} {s s' : AuthState numeral} {a : AuthOp} (hkeeps : KeepsSaved token expiresAt s a)
    (kept : (savedGuard numeral token username expiresAt).Kept log₀ s) (h : AuthState.step cfg s a = some s') :
    (savedGuard numeral token username expiresAt).Kept log₀ s' := by
  cases a with
  | login i form =>
      simp only [AuthState.step] at h
      split at h
      · obtain rfl := Option.some.inj h
        exact kept.run i ⟨trivial, fun _ h => by cases h⟩
      · cases h
  | request i r =>
      simp only [AuthState.step] at h
      split at h
      · obtain rfl := Option.some.inj h
        exact kept.run i ⟨trivial, fun r' hr' _ => by cases hr'; exact .inl rfl⟩
      · cases h
  | advance i io =>
      obtain ⟨task, htask, h⟩ := Option.bind_eq_some_iff.1 h
      obtain ⟨hok, hnow, hnew, hlogout⟩ := hkeeps
      exact saved_advance htoken hok hnow hnew (fun heq => hlogout (heq ▸ htask)) kept htask h
  | drop i =>
      obtain rfl := Option.some.inj h
      exact kept.ended i
  | addUser uuid name hash =>
      obtain rfl := Option.some.inj h
      refine { kept with db := ?_ }
      cases hadd : s.db.addUser ⟨.ofString numeral uuid, .ofString numeral name, some hash⟩ with
      | none => exact kept.db
      | some db =>
          obtain ⟨husers, hsessions⟩ := UserTables.addUser_eq_some hadd
          refine UserTables.userBySession_of_kept kept.db (fun row hrow _ _ => hsessions ▸ hrow) ?_
          exact fun _ _ user huser _ => ⟨user, husers ▸ List.mem_append_left _ huser, rfl, rfl⟩
  | removeUser name =>
      obtain rfl := Option.some.inj h
      refine { kept with db := ?_ }
      cases hremove : s.db.removeUser (.ofString numeral name) with
      | none => exact kept.db
      | some db =>
          obtain ⟨husers, hsessions, hfree⟩ := UserTables.removeUser_eq_some hremove
          refine UserTables.userBySession_of_kept kept.db (fun row hrow _ _ => hsessions ▸ hrow) ?_
          intro row hrow user huser huuid
          refine ⟨user, husers ▸ List.mem_filter.2 ⟨huser, decide_eq_true fun hname => ?_⟩, rfl, rfl⟩
          exact hfree row hrow user huser hname huuid
  | updatePassword uuid hash =>
      obtain rfl := Option.some.inj h
      refine { kept with db := ?_ }
      refine UserTables.userBySession_of_kept kept.db (fun row hrow _ _ => hrow) fun _ _ user huser _ => ?_
      exact ⟨_, List.mem_map_of_mem huser, UserTables.UserRow.setPassword_uuid .., UserTables.UserRow.setPassword_username ..⟩
  | restart =>
      obtain rfl := Option.some.inj h
      refine { kept with cache := fun _ hget => ?_, tasks := fun _ _ htask => ?_ }
      · cases hget
      · cases htask

/-- While the table has a session every request with its id gets this session and none is refused, over restarts of
the server and changes of users, until a logout with this id or the time of the session, if the statements succeed;
its user cannot be removed so long. -/
theorem saved_accepted {cfg : AuthConfig} {token username : String} {expiresAt : ℤ} (htoken : numeral token = none)
    {s s' : AuthState numeral} (hsaved : s.db.userBySession token = some (username, expiresAt))
    (hcache : ∀ session, s.cache.get token = some session → session = ⟨some token, some username⟩)
    (htasks : ∀ i task, s.tasks i = some task → (savedGuard numeral token username expiresAt).task task)
    {as : List AuthOp} (hkeeps : Along (AuthState.step cfg) (KeepsSaved token expiresAt) s as)
    (h : exec (AuthState.step cfg) s as = some s') :
    s'.db.userBySession token = some (username, expiresAt) ∧
      ∃ new, s'.log = new ++ s.log ∧ ∀ e ∈ new, e.Honours token ⟨some token, some username⟩ := by
  have kept : (savedGuard numeral token username expiresAt).Kept s.log s :=
    { db := hsaved, cache := hcache, tasks := htasks, log := ⟨[], rfl, fun _ h => by cases h⟩ }
  have kept' : (savedGuard numeral token username expiresAt).Kept s.log s' :=
    invariant_along (P := (savedGuard numeral token username expiresAt).Kept s.log)
      (fun s a s' kept hkeeps h => saved_step htoken hkeeps kept h) kept hkeeps h
  exact ⟨kept'.db, kept'.log⟩

/-- The tables of a server whose user has a session. -/
def oneSession : UserTables noNumerals where
  users := oneUser.users
  sessions := [⟨.ofString _ "c2Vzc2lvbg==", .ofString _ "7d44", 1700604800⟩]
  uuid_nodup := by decide
  username_nodup := by decide
  token_nodup := by decide
  references := by decide

/-- Between two requests the server is restarted, and the user cannot be removed. -/
def restartRun : List AuthOp :=
  [.request 1 (sessionRequest false), .advance 1 otherInput, .advance 1 otherInput, .advance 1 otherInput, .restart,
    .removeUser "admin", .request 1 (sessionRequest false), .advance 1 otherInput]

theorem saved_accepted_restartRun :
    ∃ s, exec (AuthState.step plainConfig) (.start oneSession) restartRun = some s ∧
      s.db.userBySession "c2Vzc2lvbg==" = some ("admin", 1700604800) := by
  have hrun : exec (AuthState.step plainConfig) (.start oneSession) restartRun = some _ := rfl
  exact ⟨_, hrun, (saved_accepted rfl rfl (fun _ h => by cases h) (fun _ _ h => by cases h) (by decide +kernel) hrun).1⟩

end EveBox.Server
